import Kadpeer.L3Table.Level

/-!
# Bucket positions stay inside the vector

A call is `Safe` when it stays inside `k_buckets_` and reports an argument that
names nothing: an id above `KMaxID`, or a bucket number that does not exist.

Three things go wrong.
* `KBucketIndex` answers -1 for an id above `KMaxID`, as `unsigned short`;
  `GetContact`, `RemoveContact`, `TouchKBucket` and `FindCloseNodes` read it as
  `int`, find 65535 not negative, and take that bucket.
* `GetContacts` compares with `>`, so the number one past the end gets through.
* `Clear` leaves `bucket_of_holder_` and `brother_bucket_of_holder_` as they were;
  a forced acceptance then reads a bucket that is gone (`StaleForce`).

Results:
* `callOk_safe`: in every reachable table a call that avoids these is safe; while
  there are fewer than 65536 buckets no other call is.
* `getContact_counterexample`: an id above `KMaxID` on a new table.
-/
namespace Kadpeer.L3.RoutingTable

open Kadpeer.Core Kadpeer.L1 Kadpeer.L2

inductive Call
  | addContact (c : Contact) (clock : Digest × Digest) (pasts : List Past)
  | getContact (id : KadID)
  | removeContact (id : KadID)
  | touchKBucket (id : KadID) (current : BitVec 32)
  | findCloseNodes (key : KadID) (count : Int) (excludeContacts closeNodes : List Contact)
  | getContacts (index : UShort) (excludeContacts contacts : List Contact)
  | getLastSeenContact (index : UShort)

/-- The call returns without leaving the vector; an argument that names nothing
has no effect and shows in the result. -/
def Safe (t : RoutingTable) : Call → Prop
  | .addContact c clock pasts => ∃ r, addContact clock c pasts t = .ok r ∧
      (KadID.kMaxID < c.nodeId → r = some (3, t, pasts))
  | .getContact id => ∃ r, t.getContact id = .ok r ∧ (KadID.kMaxID < id → r = none)
  | .removeContact id => ∃ t', t.removeContact id = .ok t' ∧ (KadID.kMaxID < id → t' = t)
  | .touchKBucket id current => ∃ t', t.touchKBucket id current = .ok t' ∧
      (KadID.kMaxID < id → t' = t)
  | .findCloseNodes key count excludeContacts closeNodes =>
      ∃ r, t.findCloseNodes key count excludeContacts closeNodes = .ok r ∧
        (KadID.kMaxID < key → r = closeNodes)
  | .getContacts index excludeContacts contacts =>
      ∃ r, t.getContacts index excludeContacts contacts = .ok r ∧
        (t.kBuckets.length ≤ index.toNat → r = (false, contacts))
  | .getLastSeenContact index => ∃ c, t.getLastSeenContact index = .ok c ∧
      (t.kBuckets.length ≤ index.toNat → c = .empty)

/-- The brother bucket is full and not to be split, and the holder's bucket that a
forced acceptance looks at is gone. -/
def StaleForce (t : RoutingTable) (id : KadID) : Prop :=
  t.kBuckets.length ≤ t.bucketOfHolder.toNat ∧
    ∃ b, Accessed t id t.brotherBucketOfHolder.toNat b ∧ b.FullWithout id ∧ ¬ t.Splittable b

def CallOk (t : RoutingTable) : Call → Prop
  | .addContact c _ _ => ¬ t.StaleForce c.nodeId
  | .getContact id => id ≤ KadID.kMaxID
  | .removeContact id => id ≤ KadID.kMaxID
  | .touchKBucket id _ => id ≤ KadID.kMaxID
  | .findCloseNodes key _ _ _ => key ≤ KadID.kMaxID
  | .getContacts index _ _ => index.toNat ≠ t.kBuckets.length
  | .getLastSeenContact _ => True

variable {t : RoutingTable} {c : Contact} {clock : Digest × Digest} {key : KadID} {j : Nat}
  {b : KBucket}

/-! ## `AddContact` -/

theorem not_staleForce (h : t.bucketOfHolder.toNat < t.kBuckets.length) (id : KadID) :
    ¬ t.StaleForce id := fun hs => by
  have := hs.1
  omega

/-- A split points both positions at buckets that exist. -/
theorem bucketOfHolder_splitAt (past : Past) (ha : Accessed t key j b) :
    (t.splitAt past j b).bucketOfHolder.toNat < (t.splitAt past j b).kBuckets.length := by
  have hj := (List.getElem?_eq_some_iff.mp ha.get).1
  have hlt := ha.lt
  rw [length_splitAt past hj]
  simp only [splitAt]
  split
  · rw [BitVec.toNat_ofNat, Nat.mod_eq_of_lt (by omega)]; omega
  · rw [BitVec.toNat_ofNat, Nat.mod_eq_of_lt (by omega)]; omega

/-- An activation faults only in a forced acceptance with a stale position. -/
theorem level_ok (clock : Digest × Digest) (hB : Base t) (hs : ¬ t.StaleForce c.nodeId) :
    ∃ l, t.addContactLevel clock c = .ok l := by
  rcases accessed_or_negative hB c.nodeId with ⟨u, hu, hneg⟩ | ⟨j, b, ha⟩
  · exact ⟨_, addContactLevel_negative hu hneg⟩
  · by_cases hf : b.FullWithout c.nodeId
    · rw [addContactLevel_full ha hf]
      split
      · exact ⟨_, rfl⟩
      · rename_i hsplit
        split
        · rename_i hj
          have hmem := hB.ok b (List.mem_of_getElem? ha.get)
          have hown : t.bucketOfHolder.toNat < t.kBuckets.length := by
            by_contra hge
            exact hs ⟨by omega, b, hj ▸ ha, hf, hsplit⟩
          have hown' := hB.ok _ (List.getElem_mem hown)
          obtain ⟨rc, t₁, hk, -⟩ := forceK_spec clock (List.getElem?_eq_getElem hown)
            (hown'.2 ▸ hown'.1.size) (hj ▸ ha.get) hmem.1 hmem.2 hf
          rw [hk]
          exact ⟨_, rfl⟩
        · exact ⟨_, rfl⟩
    · exact ⟨_, addContactLevel_succeed hB ha hf⟩

theorem addContact_ok (hB : Base t) (hs : ¬ t.StaleForce c.nodeId) (pasts : List Past) :
    ∃ r, addContact clock c pasts t = .ok r := by
  induction pasts generalizing t with
  | nil =>
    obtain ⟨l, hl⟩ := level_ok clock hB hs
    cases l with
    | ret code t₁ => exact ⟨_, addContact_of_ret hl []⟩
    | split j t₁ => exact ⟨_, addContact_nil_of_split hl⟩
  | cons past pasts ih =>
    obtain ⟨l, hl⟩ := level_ok clock hB hs
    cases l with
    | ret code t₁ => exact ⟨_, addContact_of_ret hl _⟩
    | split j t₁ =>
      obtain ⟨b, ha, -, -, -, heq⟩ := addContact_cons_splitAt hB hl past pasts
      rw [heq]
      exact ih (base_splitAt hB past ha.get) (not_staleForce (bucketOfHolder_splitAt past ha) _)

theorem addContact_of_gt (hB : Base t) (hgt : KadID.kMaxID < c.nodeId) (pasts : List Past) :
    addContact clock c pasts t = .ok (some (3, t, pasts)) :=
  addContact_of_ret (addContactLevel_negative (kBucketIndex_of_gt hB hgt) (by decide)) pasts

/-- With a stale position the forced acceptance faults. -/
theorem addContact_staleForce (hs : t.StaleForce c.nodeId) (pasts : List Past) :
    addContact clock c pasts t = .error .outOfBounds := by
  obtain ⟨hgone, b, ha, hf, hsplit⟩ := hs
  have hfault : t.forceKAcceptNewPeer clock c = .error .outOfBounds := by
    have hnone : t.kBuckets[t.bucketOfHolder.toNat]? = none := List.getElem?_eq_none hgone
    simp [forceKAcceptNewPeer, RoutingTable.bucketAt, hnone, bind, Except.bind]
  refine addContact_of_error ?_ pasts
  rw [addContactLevel_full ha hf, if_neg hsplit, if_pos rfl, hfault]
  rfl

/-! ## Access by id -/

/-- The position read for an id above the limit. -/
theorem bucketAt_gt (hlen : t.kBuckets.length < 65536) :
    t.bucketAt (-1 : UShort).toNat = .error .outOfBounds := by
  have hnone : t.kBuckets[(-1 : UShort).toNat]? = none := List.getElem?_eq_none (by
    rw [show (-1 : UShort).toNat = 65535 by decide]; omega)
  unfold RoutingTable.bucketAt
  rw [hnone]

theorem getContact_gt (hB : Base t) (hgt : KadID.kMaxID < key) (hlen : t.kBuckets.length < 65536) :
    t.getContact key = .error .outOfBounds := by
  unfold getContact
  rw [kBucketIndex_of_gt hB hgt]
  simp only [bind, Except.bind, if_neg (not_asInt_neg _), toNat_asInt, bucketAt_gt hlen]

theorem removeContact_gt (hB : Base t) (hgt : KadID.kMaxID < key)
    (hlen : t.kBuckets.length < 65536) : t.removeContact key = .error .outOfBounds := by
  unfold removeContact
  rw [kBucketIndex_of_gt hB hgt]
  simp only [bind, Except.bind, if_neg (not_asInt_neg _), toNat_asInt, bucketAt_gt hlen]

theorem touchKBucket_gt (hB : Base t) (hgt : KadID.kMaxID < key) (hlen : t.kBuckets.length < 65536)
    (current : BitVec 32) : t.touchKBucket key current = .error .outOfBounds := by
  unfold touchKBucket
  rw [kBucketIndex_of_gt hB hgt]
  simp only [bind, Except.bind, if_neg (not_asInt_neg _), toNat_asInt, bucketAt_gt hlen]

theorem findCloseNodes_gt (hB : Base t) (hgt : KadID.kMaxID < key)
    (hlen : t.kBuckets.length < 65536) (count : Int) (excludeContacts closeNodes : List Contact) :
    t.findCloseNodes key count excludeContacts closeNodes = .error .outOfBounds := by
  unfold findCloseNodes
  rw [kBucketIndex_of_gt hB hgt]
  simp only [bind, Except.bind, if_neg (not_asInt_neg _), toNat_asInt, bucketAt_gt hlen]

/-! ## `FindCloseNodes` -/

/-- Every position in the map is one of the vector. -/
theorem upper_lt (hB : Base t) {e : KadID × UShort} (he : e ∈ t.bucketUpperAddress) :
    e.2.toNat < t.kBuckets.length := by
  rw [hB.upper] at he
  obtain ⟨i, b, hb, -, hidx, -⟩ := mem_upperEntries_first.mp he
  have hi := (List.getElem?_eq_some_iff.mp hb).1
  rw [hidx, BitVec.toNat_ofNat]
  exact Nat.lt_of_le_of_lt (Nat.mod_le _ _) hi

theorem sortBucketsByDistance_lt (hB : Base t) {index : UShort}
    (h : index ∈ t.sortBucketsByDistance key) : index.toNat < t.kBuckets.length := by
  obtain ⟨e, he, rfl⟩ := List.mem_map.mp h
  obtain ⟨⟨u, i⟩, he', heq⟩ := List.mem_map.mp (Keyed.mem_of_mem_ofList he)
  subst heq
  exact upper_lt (e := (u, i)) hB he'

theorem findInOthers_ok {indices : List UShort}
    (h : ∀ index ∈ indices, index.toNat < t.kBuckets.length) (count : Int)
    (excludeContacts closeNodes : List Contact) :
    ∃ r, t.findInOthers key count excludeContacts indices closeNodes = .ok r := by
  induction indices generalizing closeNodes with
  | nil => exact ⟨closeNodes, rfl⟩
  | cons index indices ih =>
    have hget := List.getElem?_eq_getElem (h index List.mem_cons_self)
    have ih' := ih fun i hi => h i (List.mem_cons_of_mem _ hi)
    unfold findInOthers
    simp only [bind, Except.bind, bucketAt_eq hget]
    split
    · exact ih' closeNodes
    · split
      · exact ⟨_, rfl⟩
      · exact ih' _

theorem findCloseNodes_ok (hB : Base t) (hkey : key ≤ KadID.kMaxID) (count : Int)
    (excludeContacts closeNodes : List Contact) :
    ∃ r, t.findCloseNodes key count excludeContacts closeNodes = .ok r := by
  rcases index_cases hB key with ⟨-, u, b, hu, hb⟩ | ⟨hgt, -⟩
  · unfold findCloseNodes
    rw [hu]
    simp only [bind, Except.bind, if_neg (not_asInt_neg u), toNat_asInt, bucketAt_eq hb]
    split
    · exact ⟨_, rfl⟩
    · exact findInOthers_ok (fun i hi => sortBucketsByDistance_lt hB (List.mem_of_mem_drop hi)) _ _ _
  · exact absurd hkey (not_le.mpr hgt)

/-! ## Access by number -/

theorem getContacts_safe (t : RoutingTable) (index : UShort)
    (excludeContacts contacts : List Contact) :
    t.Safe (.getContacts index excludeContacts contacts) ↔ index.toNat ≠ t.kBuckets.length := by
  unfold Safe getContacts
  by_cases hgt : index.toNat > t.kBuckets.length
  · simp only [if_pos hgt]
    exact ⟨fun _ => by omega, fun _ => ⟨_, rfl, fun _ => rfl⟩⟩
  · simp only [if_neg hgt, bind, Except.bind, RoutingTable.bucketAt]
    constructor
    · rintro ⟨r, h, -⟩ heq
      rw [List.getElem?_eq_none (by omega)] at h
      cases h
    · intro hne
      rw [List.getElem?_eq_getElem (show index.toNat < t.kBuckets.length by omega)]
      exact ⟨_, rfl, fun _ => by omega⟩

theorem getLastSeenContact_safe (t : RoutingTable) (index : UShort) :
    t.Safe (.getLastSeenContact index) := by
  unfold Safe getLastSeenContact
  by_cases hgt : index.toNat + 1 > t.kBuckets.length
  · simp only [if_pos hgt]
    exact ⟨_, rfl, fun _ => rfl⟩
  · simp only [if_neg hgt, bind, Except.bind]
    rw [bucketAt_eq (List.getElem?_eq_getElem (show index.toNat < t.kBuckets.length by omega))]
    exact ⟨_, rfl, fun _ => by omega⟩

/-! ## Every call -/

theorem safe_of_callOk (hB : Base t) (call : Call) (hok : t.CallOk call) : t.Safe call := by
  cases call with
  | addContact c clock pasts =>
    obtain ⟨r, hr⟩ := addContact_ok hB hok pasts
    refine ⟨r, hr, fun hgt => ?_⟩
    rw [addContact_of_gt hB hgt] at hr
    exact (Except.ok.inj hr).symm
  | getContact id =>
    rcases index_cases hB id with ⟨-, u, b, hu, hb⟩ | ⟨hgt, -⟩
    · exact ⟨_, getContact_of_index hu hb, fun hgt => absurd hok (not_le.mpr hgt)⟩
    · exact absurd hok (not_le.mpr hgt)
  | removeContact id =>
    rcases index_cases hB id with ⟨-, u, b, hu, hb⟩ | ⟨hgt, -⟩
    · exact ⟨_, removeContact_of_index hu hb, fun hgt => absurd hok (not_le.mpr hgt)⟩
    · exact absurd hok (not_le.mpr hgt)
  | touchKBucket id current =>
    rcases index_cases hB id with ⟨-, u, b, hu, hb⟩ | ⟨hgt, -⟩
    · exact ⟨_, touchKBucket_of_index hu hb current, fun hgt => absurd hok (not_le.mpr hgt)⟩
    · exact absurd hok (not_le.mpr hgt)
  | findCloseNodes key count excludeContacts closeNodes =>
    obtain ⟨r, hr⟩ := findCloseNodes_ok hB hok count excludeContacts closeNodes
    exact ⟨r, hr, fun hgt => absurd hok (not_le.mpr hgt)⟩
  | getContacts index excludeContacts contacts => exact (getContacts_safe t _ _ _).mpr hok
  | getLastSeenContact index => exact getLastSeenContact_safe t index

theorem callOk_of_safe (hB : Base t) (hlen : t.kBuckets.length < 65536) (call : Call)
    (hs : t.Safe call) : t.CallOk call := by
  cases call with
  | addContact c clock pasts =>
    obtain ⟨r, hr, -⟩ := hs
    intro hst
    rw [addContact_staleForce hst] at hr
    cases hr
  | getContact id =>
    obtain ⟨r, hr, -⟩ := hs
    refine not_lt.mp fun hgt => ?_
    rw [getContact_gt hB hgt hlen] at hr
    cases hr
  | removeContact id =>
    obtain ⟨r, hr, -⟩ := hs
    refine not_lt.mp fun hgt => ?_
    rw [removeContact_gt hB hgt hlen] at hr
    cases hr
  | touchKBucket id current =>
    obtain ⟨r, hr, -⟩ := hs
    refine not_lt.mp fun hgt => ?_
    rw [touchKBucket_gt hB hgt hlen] at hr
    cases hr
  | findCloseNodes key count excludeContacts closeNodes =>
    obtain ⟨r, hr, -⟩ := hs
    refine not_lt.mp fun hgt => ?_
    rw [findCloseNodes_gt hB hgt hlen] at hr
    cases hr
  | getContacts index excludeContacts contacts => exact (getContacts_safe t _ _ _).mp hs
  | getLastSeenContact index => trivial

/-- **In bounds, and when.** From 65536 buckets on the position 65535 exists. -/
theorem callOk_safe (hr : table.Reachable t) (call : Call) :
    (t.CallOk call → t.Safe call) ∧
      (t.kBuckets.length < 65536 → t.Safe call → t.CallOk call) :=
  have hB := base_inductive.reachable hr
  ⟨safe_of_callOk hB call, fun hlen => callOk_of_safe hB hlen call⟩

/-! ## A table with one contact -/

def oneAdd : List Op := [addOp (contactAt ⟨Rossi.ofUlong 1⟩) 0]

theorem oneAdd_isSome : (LTS.exec step (fresh 5 3 0) oneAdd).isSome = true := by decide +kernel

/-- The contact is looked up in bounds, and so is the bucket number 2. -/
theorem callOk_safe_oneAdd :
    Safe (LTS.last (fresh 5 3 0) ((LTS.exec step (fresh 5 3 0) oneAdd).get oneAdd_isSome))
        (.getContact ⟨Rossi.ofUlong 1⟩) ∧
      Safe (LTS.last (fresh 5 3 0) ((LTS.exec step (fresh 5 3 0) oneAdd).get oneAdd_isSome))
        (.getContacts 2 [] []) := by
  have hr : table.Reachable _ := ⟨_, _, ⟨_, _, _, rfl⟩, run_fresh oneAdd_isSome⟩
  refine ⟨(callOk_safe hr _).1 ?_, (callOk_safe hr _).1 ?_⟩
  · show (_ : KadID) ≤ KadID.kMaxID
    rw [KadID.kMaxID_eq]
    decide +kernel
  · show (_ : Nat) ≠ _
    decide +kernel

/-- The first id above the space, and the bucket number one past the end. -/
theorem getContact_counterexample :
    (¬ ∀ (t : RoutingTable) (id : KadID), table.Reachable t → t.Safe (.getContact id)) ∧
      ¬ ∀ (t : RoutingTable) (index : UShort), table.Reachable t → t.Safe (.getContacts index [] []) := by
  have hr : table.Reachable (fresh 5 3 0) := ⟨_, [], ⟨⟨Rossi.ofUlong 5⟩, 3, digestOf 0, rfl⟩, by
    rw [fresh_eq]; exact .nil _⟩
  constructor
  · intro h
    obtain ⟨r, hr, -⟩ := h _ (KadID.kMaxIDWords.add ⟨Rossi.ofUlong 1⟩) hr
    have hbad : ((fresh 5 3 0).getContact (KadID.kMaxIDWords.add ⟨Rossi.ofUlong 1⟩)).isOk = false := by
      decide +kernel
    rw [hr] at hbad
    cases hbad
  · intro h
    obtain ⟨r, hr, -⟩ := h _ 1 hr
    have hbad : ((fresh 5 3 0).getContacts 1 [] []).isOk = false := by decide +kernel
    rw [hr] at hbad
    cases hbad

end Kadpeer.L3.RoutingTable
