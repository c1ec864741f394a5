import Kadpeer.L2Bucket.Contact

/-!
# Buckets (`kademlia/kbucket.h`, `kademlia/kbucket.cpp`)

A bucket holds at most `K_` contacts, the most recent one in front, under a
nominal id range. `AddContact` first takes out the contact with the new id, so a
bucket refuses (`FULL`) only when it holds `K_` contacts with other ids.

* `Ok`: at most `K_` contacts, with distinct ids; kept by every operation.
* `addContact_full`, `addContact_succeed`: which of the two answers, and what
  is left.
* `getContact_eq_some`, `mem_removeContact`: lookup and removal by id.
-/
namespace Kadpeer.L2

open Kadpeer.Core Kadpeer.L1

/-- mirrors src/src/kademlia/kbucket.h:20 -/
inductive KBucketExitCode
  | succeed
  | full
  | fail
deriving DecidableEq

/-- mirrors src/src/kademlia/kbucket.h:57-61 -/
structure KBucket where
  lastAccessed : BitVec 32
  contacts : List Contact
  rangeMin : KadID
  rangeMax : KadID
  K : UShort
deriving DecidableEq

namespace KBucket

/-- mirrors src/src/kademlia/kbucket.cpp:17-20 -/
def new (min max : KadID) (kbK : UShort) : KBucket :=
  { lastAccessed := 0, contacts := [], rangeMin := min, rangeMax := max, K := kbK }

/-- mirrors src/src/kademlia/kbucket.cpp:26-28 -/
def keyInRange (b : KBucket) (key : KadID) : Bool := b.rangeMin ≤ key && key ≤ b.rangeMax

def size (b : KBucket) : Nat := b.contacts.length

/-- mirrors src/src/kademlia/kbucket.cpp:34-36 -/
def setLastAccessed (b : KBucket) (timeAccessed : BitVec 32) : KBucket :=
  { b with lastAccessed := timeAccessed }

/-- mirrors src/src/kademlia/kbucket.cpp:38-61 -/
def addContact (b : KBucket) (newContact : Contact) : KBucketExitCode × KBucket :=
  let contacts := b.contacts.eraseP newContact.equals
  if contacts.length = b.K.toNat then (.full, { b with contacts := contacts })
  else (.succeed, { b with contacts := newContact :: contacts })

/-- The loop does not stop at a match, so `position` is that of the last one.
Mirrors src/src/kademlia/kbucket.cpp:63-87. -/
def removeContact (b : KBucket) (nodeId : KadID) : KBucket :=
  { b with contacts := (b.contacts.reverse.eraseP (·.nodeId = nodeId)).reverse }

/-- mirrors src/src/kademlia/kbucket.cpp:89-100 -/
def getContact (b : KBucket) (nodeId : KadID) : Option Contact :=
  b.contacts.find? (·.nodeId = nodeId)

/-- Pushed to the back of `*contacts`. Mirrors
src/src/kademlia/kbucket.cpp:101-119. -/
def getContacts (b : KBucket) (count : UShort) (excludeContacts contacts : List Contact) :
    List Contact :=
  contacts ++
    (b.contacts.filter fun c => !excludeContacts.any (c.nodeId = ·.nodeId)).take count.toNat

/-- mirrors src/src/kademlia/kbucket.cpp:125-131 -/
def lastSeenContact (b : KBucket) : Contact := b.contacts.getLast?.getD .empty

theorem keyInRange_iff {b : KBucket} {key : KadID} :
    b.keyInRange key = true ↔ b.rangeMin ≤ key ∧ key ≤ b.rangeMax := by simp [keyInRange]

/-! ## Size and distinct ids -/

/-- The bucket holds a contact with this id. -/
def Holds (b : KBucket) (id : KadID) : Prop := ∃ c ∈ b.contacts, c.nodeId = id

instance (b : KBucket) (id : KadID) : Decidable (b.Holds id) :=
  inferInstanceAs (Decidable (∃ c ∈ b.contacts, c.nodeId = id))

structure Ok (b : KBucket) : Prop where
  size : b.contacts.length ≤ b.K.toNat
  nodup : (b.contacts.map Contact.nodeId).Nodup

/-- `K_` contacts, none of them with this id: the state in which a new contact
with the id is refused. -/
def FullWithout (b : KBucket) (id : KadID) : Prop := b.contacts.length = b.K.toNat ∧ ¬ b.Holds id

instance (b : KBucket) (id : KadID) : Decidable (b.FullWithout id) :=
  inferInstanceAs (Decidable (_ ∧ _))

variable {b : KBucket} {c : Contact} {id : KadID}

theorem ok_new (min max : KadID) (K : UShort) : (new min max K).Ok := ⟨Nat.zero_le _, by simp [new]⟩

theorem eq_of_nodeId_eq (h : b.Ok) {c c' : Contact} (hc : c ∈ b.contacts) (hc' : c' ∈ b.contacts)
    (he : c.nodeId = c'.nodeId) : c = c' := List.inj_on_of_nodup_map h.nodup hc hc' he

theorem eraseP_eq_filter {l : List Contact} (h : (l.map Contact.nodeId).Nodup) (id : KadID) :
    l.eraseP (·.nodeId = id) = l.filter (·.nodeId ≠ id) := by
  induction l with
  | nil => rfl
  | cons d l ih =>
    rw [List.map_cons, List.nodup_cons] at h
    by_cases hd : d.nodeId = id
    · have hl : ∀ e ∈ l, e.nodeId ≠ id := fun e he heq =>
        h.1 (List.mem_map.mpr ⟨e, he, heq.trans hd.symm⟩)
      rw [List.eraseP_cons_of_pos (by simpa using hd), List.filter_cons_of_neg (by simpa using hd),
        List.filter_eq_self.mpr (by simpa using hl)]
    · rw [List.eraseP_cons_of_neg (by simpa using hd), List.filter_cons_of_pos (by simpa using hd),
        ih h.2]

theorem eraseP_equals (b : KBucket) (c : Contact) :
    b.contacts.eraseP c.equals = b.contacts.eraseP (·.nodeId = c.nodeId) := by
  congr 1
  funext d
  rw [Bool.eq_iff_iff, Contact.equals_iff, decide_eq_true_eq]
  exact eq_comm

theorem eraseP_of_not_holds (h : ¬ b.Holds id) : b.contacts.eraseP (·.nodeId = id) = b.contacts :=
  List.eraseP_of_forall_not fun d hd => by
    simpa using fun he => h ⟨d, hd, he⟩

theorem length_eraseP_of_holds (h : b.Holds id) :
    (b.contacts.eraseP (·.nodeId = id)).length + 1 = b.contacts.length := by
  obtain ⟨d, hd, he⟩ := h
  have hpos := List.length_pos_of_mem hd
  rw [List.length_eraseP_of_mem hd (by simpa using he)]
  omega

/-- A full bucket that does not hold the id refuses and stays as it is. -/
theorem addContact_full (h : b.FullWithout c.nodeId) : b.addContact c = (.full, b) := by
  unfold addContact
  rw [eraseP_equals, eraseP_of_not_holds h.2, if_pos h.1]

/-- Any other takes the contact in front, in the place of the one with its id. -/
theorem addContact_succeed (hb : b.Ok) (h : ¬ b.FullWithout c.nodeId) :
    b.addContact c =
      (.succeed, { b with contacts := c :: b.contacts.filter (·.nodeId ≠ c.nodeId) }) := by
  unfold addContact
  rw [eraseP_equals, eraseP_eq_filter hb.nodup, if_neg]
  rw [← eraseP_eq_filter hb.nodup]
  by_cases hh : b.Holds c.nodeId
  · have := length_eraseP_of_holds hh
    have := hb.size
    omega
  · rw [eraseP_of_not_holds hh]
    exact fun hl => h ⟨hl, hh⟩

/-- With room for a new id nothing is taken out. -/
theorem addContact_new (hl : b.contacts.length < b.K.toNat) (h : ¬ b.Holds c.nodeId) :
    b.addContact c = (.succeed, { b with contacts := c :: b.contacts }) := by
  unfold addContact
  rw [eraseP_equals, eraseP_of_not_holds h, if_neg (Nat.ne_of_lt hl)]

theorem ok_addContact (hb : b.Ok) (c : Contact) : (b.addContact c).2.Ok := by
  by_cases h : b.FullWithout c.nodeId
  · rwa [addContact_full h]
  · rw [addContact_succeed hb h]
    have hsub : (b.contacts.filter (·.nodeId ≠ c.nodeId)).length ≤ b.contacts.length :=
      List.length_filter_le _ _
    refine ⟨?_, ?_⟩
    · have hsize := hb.size
      have hlt : (b.contacts.filter (·.nodeId ≠ c.nodeId)).length < b.K.toNat := by
        by_cases hh : b.Holds c.nodeId
        · have := length_eraseP_of_holds hh
          rw [eraseP_eq_filter hb.nodup] at this
          omega
        · have : b.contacts.length ≠ b.K.toNat := fun hl => h ⟨hl, hh⟩
          omega
      simpa using hlt
    · rw [List.map_cons, List.nodup_cons]
      refine ⟨?_, hb.nodup.sublist (List.filter_sublist.map _)⟩
      simp

theorem removeContact_eq (hb : b.Ok) (id : KadID) :
    b.removeContact id = { b with contacts := b.contacts.filter (·.nodeId ≠ id) } := by
  have hrev : (b.contacts.reverse.map Contact.nodeId).Nodup := by
    rw [List.map_reverse, List.nodup_reverse]; exact hb.nodup
  rw [removeContact, eraseP_eq_filter hrev, List.filter_reverse, List.reverse_reverse]

theorem mem_removeContact (hb : b.Ok) :
    c ∈ (b.removeContact id).contacts ↔ c ∈ b.contacts ∧ c.nodeId ≠ id := by
  rw [removeContact_eq hb]
  simp

theorem Ok.of_sublist (hb : b.Ok) {b' : KBucket} (hK : b'.K = b.K)
    (h : b'.contacts.Sublist b.contacts) : b'.Ok :=
  ⟨hK ▸ h.length_le.trans hb.size, hb.nodup.sublist (h.map _)⟩

theorem ok_removeContact (hb : b.Ok) (id : KadID) : (b.removeContact id).Ok := by
  rw [removeContact_eq hb]
  exact hb.of_sublist rfl List.filter_sublist

theorem ok_setLastAccessed (hb : b.Ok) (t : BitVec 32) : (b.setLastAccessed t).Ok :=
  ⟨hb.size, hb.nodup⟩

/-! ## One contact for another -/

/-- The bucket after `RemoveContact(victim)` and `AddContact(c)`. -/
def evict (b : KBucket) (victim : KadID) (c : Contact) : KBucket :=
  { b with contacts := c :: b.contacts.filter (·.nodeId ≠ victim) }

/-- A full bucket has room for `c` once one of its contacts is out. -/
theorem addContact_evict (hb : b.Ok) (hf : b.FullWithout c.nodeId) {victim : Contact}
    (hv : victim ∈ b.contacts) :
    ((b.removeContact victim.nodeId).addContact c).2 = b.evict victim.nodeId c := by
  have hlen := length_eraseP_of_holds ⟨victim, hv, rfl⟩
  rw [eraseP_eq_filter hb.nodup] at hlen
  rw [removeContact_eq hb]
  have hroom : (b.contacts.filter (·.nodeId ≠ victim.nodeId)).length < b.K.toNat := by
    rw [← hf.1]; omega
  have hnot : ¬ ({ b with contacts := b.contacts.filter (·.nodeId ≠ victim.nodeId) } : KBucket).Holds
      c.nodeId := fun ⟨d, hd, he⟩ => hf.2 ⟨d, (List.mem_filter.mp hd).1, he⟩
  rw [addContact_new hroom hnot, evict]

theorem ok_evict (hb : b.Ok) (hf : b.FullWithout c.nodeId) {victim : Contact}
    (hv : victim ∈ b.contacts) : (b.evict victim.nodeId c).Ok := by
  rw [← addContact_evict hb hf hv]
  exact ok_addContact (ok_removeContact hb _) c

/-! ## Lookup -/

theorem getContact_eq_some (hb : b.Ok) :
    b.getContact id = some c ↔ c ∈ b.contacts ∧ c.nodeId = id := by
  constructor
  · intro h
    exact ⟨List.mem_of_find?_eq_some h, by simpa using List.find?_some h⟩
  · rintro ⟨hc, rfl⟩
    cases hf : b.getContact c.nodeId with
    | none =>
      have hno := List.find?_eq_none.mp hf c hc
      simp at hno
    | some d =>
      have hd : d.nodeId = c.nodeId := by simpa using List.find?_some hf
      rw [eq_of_nodeId_eq hb (List.mem_of_find?_eq_some hf) hc hd]

/-- With room for all of them and nothing excluded, all contacts are copied. -/
theorem getContacts_all (hb : b.Ok) : b.getContacts b.K [] [] = b.contacts := by
  rw [getContacts, List.nil_append, List.filter_eq_self.mpr (by simp), List.take_of_length_le hb.size]

end KBucket
end Kadpeer.L2
