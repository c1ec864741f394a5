import Kadpeer.L3Table.Placement

/-!
# What `AddContact` does to the stored contacts

A call splits buckets (`Splits`), and then it refuses the contact, puts it in front of
the bucket that is reached, or puts it in the place of one contact of the brother
bucket. A split hands every contact of the bucket to one of the halves, whatever
`SplitRange` read, so a refused contact leaves the stored collection as it was.

An accepted one takes the place of the old contact with its id only if that lies in the
bucket that is reached. `AddContact` looks nowhere else: an old contact with the id in
another bucket (`Placement` says how it comes there) stays, and the id is stored twice.

* `stored_splitAt`: a split keeps the collection.
* `transactional_iff`: in every reachable table, for every call that returns;
  `routedOnly_of_findable`: where its condition holds for every id.
* `transactional_counterexample`: the id 1, added once more.
-/
namespace Kadpeer.L3.RoutingTable

open Kadpeer.Core Kadpeer.L1 Kadpeer.L2

/-- The stored contacts with another id. -/
def kept (t : RoutingTable) (id : KadID) : List Contact := t.stored.filter (·.nodeId ≠ id)

/-- The brother bucket of the holder is full, and it is the one the id is routed to. -/
def BrotherFull (t : RoutingTable) (id : KadID) : Prop :=
  t.kBucketIndex id = .ok t.brotherBucketOfHolder ∧
    ∃ b, t.kBuckets[t.brotherBucketOfHolder.toNat]? = some b ∧ b.contacts.length = b.K.toNat

/-- The collection after a call that returned 0: `c` in the place of the contacts with
its id; one further contact is missing only when the brother bucket was full at the end
of the splits and `c` was routed to it. -/
def Replaced (clock : Digest × Digest) (c : Contact) (pasts : List Past) (t : RoutingTable)
    (rest : List Past) (t' : RoutingTable) : Prop :=
  t'.stored.Perm (c :: t.kept c.nodeId) ∨
    ∃ lost ∈ t.kept c.nodeId, t'.stored.Perm (c :: (t.kept c.nodeId).erase lost) ∧
      ∃ t₁, Splits clock c pasts t rest t₁ ∧ t₁.BrotherFull c.nodeId

/-- The id is stored nowhere but in the bucket it is routed to. -/
def RoutedOnly (t : RoutingTable) (id : KadID) : Prop :=
  ∀ i b, t.kBuckets[i]? = some b → b.Holds id → ∃ u, t.kBucketIndex id = .ok u ∧ u.toNat = i

variable {t t' t₁ : RoutingTable} {c d : Contact} {clock : Digest × Digest} {id : KadID} {j : Nat}
  {b : KBucket} {past : Past} {pasts rest : List Past} {code : Int}

/-! ## One bucket and the others -/

/-- The contacts of the buckets other than the one at `j`. -/
def others (t : RoutingTable) (j : Nat) : List Contact :=
  (t.kBuckets.take j ++ t.kBuckets.drop (j + 1)).flatMap (·.contacts)

theorem stored_setBucket (hget : t.kBuckets[j]? = some b) (d : KBucket) :
    (t.setBucket j d).stored.Perm (d.contacts ++ t.others j) := by
  have hj := (List.getElem?_eq_some_iff.mp hget).1
  rw [stored, setBucket, List.set_eq_take_append_cons_drop, if_pos hj, others, ← List.flatMap_cons]
  exact List.Perm.flatMap_right _ List.perm_middle

theorem stored_perm (hget : t.kBuckets[j]? = some b) : t.stored.Perm (b.contacts ++ t.others j) := by
  have h := stored_setBucket hget b
  rwa [setBucket_self hget] at h

theorem mem_others (hget : t.kBuckets[j]? = some b) :
    d ∈ t.others j ↔ ∃ (i : Nat) (e : KBucket), i ≠ j ∧ t.kBuckets[i]? = some e ∧ d ∈ e.contacts := by
  have hj := (List.getElem?_eq_some_iff.mp hget).1
  have hlen : (t.kBuckets.take j).length = j := by rw [List.length_take]; omega
  rw [others, List.mem_flatMap]
  constructor
  · intro ⟨e, he, hd⟩
    rcases List.mem_append.mp he with he | he
    · obtain ⟨i, hi⟩ := List.getElem?_of_mem he
      rw [List.getElem?_take] at hi
      split at hi
      · exact ⟨i, e, by omega, hi, hd⟩
      · cases hi
    · obtain ⟨i, hi⟩ := List.getElem?_of_mem he
      rw [List.getElem?_drop] at hi
      exact ⟨_, e, by omega, hi, hd⟩
  · intro ⟨i, e, hne, hi, hd⟩
    refine ⟨e, List.mem_append.mpr ?_, hd⟩
    rcases Nat.lt_or_gt_of_ne hne with h | h
    · left
      refine List.mem_of_getElem? (i := i) ?_
      rw [List.getElem?_take, if_pos h, hi]
    · right
      refine List.mem_of_getElem? (i := i - (j + 1)) ?_
      rw [List.getElem?_drop, show j + 1 + (i - (j + 1)) = i by omega, hi]

/-- A split keeps the collection. -/
theorem stored_splitAt (past : Past) (hget : t.kBuckets[j]? = some b) :
    (t.splitAt past j b).stored.Perm t.stored := by
  have hhalves : ((leftHalf past b).contacts ++ (rightHalf past b).contacts).Perm b.contacts :=
    List.filter_append_perm _ _
  have hsplit : (t.splitAt past j b).stored = (t.kBuckets.take j).flatMap (·.contacts) ++
      (((leftHalf past b).contacts ++ (rightHalf past b).contacts) ++
        (t.kBuckets.drop (j + 1)).flatMap (·.contacts)) := by
    simp [stored, splitAt]
  have hmiddle := (stored_perm hget).symm
  rw [others, List.flatMap_append] at hmiddle
  rw [hsplit]
  exact (((hhalves.append_right _).append_left _).trans (List.perm_append_comm_assoc _ _ _)).trans
    hmiddle

/-! ## The id elsewhere -/

/-- The id reaches the bucket at `j`: then the condition is about the others. -/
theorem routedOnly_iff (ha : Accessed t id j b) :
    t.RoutedOnly id ↔ ∀ d ∈ t.others j, d.nodeId ≠ id := by
  have hlt := ha.lt
  have hu : ∀ i, (∃ u, t.kBucketIndex id = .ok u ∧ u.toNat = i) ↔ i = j := by
    intro i
    rw [ha.index]
    constructor
    · rintro ⟨u, hu, rfl⟩
      cases hu
      exact toNat_ofNat_position (by omega)
    · rintro rfl
      exact ⟨_, rfl, toNat_ofNat_position (by omega)⟩
  constructor
  · intro h d hd hid
    obtain ⟨i, e, hne, hi, hde⟩ := (mem_others ha.get).mp hd
    exact hne ((hu i).mp (h i e hi ⟨d, hde, hid⟩))
  · intro h i e hi ⟨d, hde, hid⟩
    refine (hu i).mpr ?_
    by_contra hne
    exact h d ((mem_others ha.get).mpr ⟨i, e, hne, hi, hde⟩) hid

/-- The bucket reached does not have the id: then the condition is about all. -/
theorem routedOnly_iff_stored (ha : Accessed t id j b) (hb : ¬ b.Holds id) :
    t.RoutedOnly id ↔ ∀ d ∈ t.stored, d.nodeId ≠ id := by
  rw [routedOnly_iff ha]
  constructor
  · intro h d hd hid
    rcases List.mem_append.mp ((stored_perm ha.get).mem_iff.mp hd) with hd | hd
    · exact hb ⟨d, hd, hid⟩
    · exact h d hd hid
  · exact fun h d hd => h d ((stored_perm ha.get).mem_iff.mpr (List.mem_append_right _ hd))

/-- What the splits of a call for `id` that started in `t` keep. -/
structure Since (t : RoutingTable) (id : KadID) (t₁ : RoutingTable) : Prop where
  base : Base t₁
  stored : t₁.stored.Perm t.stored
  routed : ∀ j b, Accessed t₁ id j b → (t₁.RoutedOnly id ↔ t.RoutedOnly id)

theorem since_splitAt (hs : Since t id t₁) (ha : Accessed t₁ id j b) (hf : b.FullWithout id) :
    Since t id (t₁.splitAt past j b) where
  base := base_splitAt hs.base past ha.get
  stored := (stored_splitAt past ha.get).trans hs.stored
  routed := by
    intro k d hd
    -- the halves do not have the id either
    have hnot : ¬ d.Holds id := by
      intro ⟨e, he, hid⟩
      rcases accessed_splitAt hs.base (ha.le hs.base) ha hd with ⟨-, -, rfl⟩ | ⟨-, -, rfl⟩
      · exact hf.2 ⟨e, (mem_leftHalf.mp he).1, hid⟩
      · exact hf.2 ⟨e, (mem_rightHalf.mp he).1, hid⟩
    rw [← hs.routed j b ha, routedOnly_iff_stored hd hnot, routedOnly_iff_stored ha hf.2]
    exact ⟨fun h e he => h e ((stored_splitAt past ha.get).mem_iff.mpr he),
      fun h e he => h e ((stored_splitAt past ha.get).mem_iff.mp he)⟩

/-! ## The last activation -/

/-- The id is then stored once. -/
theorem countP_of_replaced (h : Replaced clock c pasts t rest t') :
    t'.stored.countP (·.nodeId = c.nodeId) = 1 := by
  have hone : ∀ l : List Contact, (∀ d ∈ l, d.nodeId ≠ c.nodeId) →
      (c :: l).countP (·.nodeId = c.nodeId) = 1 := by
    intro l hl
    rw [List.countP_cons_of_pos (by simp), List.countP_eq_zero.mpr (by simpa using hl)]
  have hkept : ∀ d ∈ t.kept c.nodeId, d.nodeId ≠ c.nodeId := fun d hd => by
    simpa using (List.mem_filter.mp hd).2
  rcases h with h | ⟨lost, -, h, -⟩
  · rw [h.countP_eq, hone _ hkept]
  · rw [h.countP_eq, hone _ fun d hd => hkept d (List.mem_of_mem_erase hd)]

/-- The bucket reached has the contact in front, so the others do not have the id. -/
theorem others_of_replaced {front : List Contact} (hperm : t'.stored.Perm (front ++ t₁.others j))
    (hfront : c ∈ front) (h : Replaced clock c pasts t rest t') :
    ∀ d ∈ t₁.others j, d.nodeId ≠ c.nodeId := by
  have hcount := countP_of_replaced h
  rw [hperm.countP_eq, List.countP_append] at hcount
  have hpos : 0 < front.countP (·.nodeId = c.nodeId) :=
    List.countP_pos_iff.mpr ⟨c, hfront, by simp⟩
  have hzero : (t₁.others j).countP (·.nodeId = c.nodeId) = 0 := by omega
  simpa using List.countP_eq_zero.mp hzero

theorem perm_kept (hs : Since t id t₁) (ha : Accessed t₁ id j b)
    (ho : ∀ d ∈ t₁.others j, d.nodeId ≠ id) :
    (t.kept id).Perm (b.contacts.filter (·.nodeId ≠ id) ++ t₁.others j) := by
  have hall : (t₁.others j).filter (·.nodeId ≠ id) = t₁.others j :=
    List.filter_eq_self.mpr (by simpa using ho)
  have hperm := (hs.stored.symm.trans (stored_perm ha.get)).filter (·.nodeId ≠ id)
  rwa [List.filter_append, hall] at hperm

theorem replaced_pushed (hs : Since t c.nodeId t₁) (ha : Accessed t₁ c.nodeId j b)
    (ho : ∀ d ∈ t₁.others j, d.nodeId ≠ c.nodeId) :
    Replaced clock c pasts t rest (t₁.pushed j b c) :=
  .inl ((stored_setBucket ha.get _).trans ((perm_kept hs ha ho).symm.cons c))

theorem perm_victim (hok : b.Ok) {victim : Contact} (hv : victim ∈ b.contacts) :
    b.contacts.Perm (victim :: b.contacts.filter (·.nodeId ≠ victim.nodeId)) := by
  obtain ⟨d, pre, post, -, hd, hlist, herase⟩ :=
    List.exists_of_eraseP (p := (·.nodeId = victim.nodeId)) hv (by simp)
  have hmem : d ∈ b.contacts := by simp [hlist]
  obtain rfl := KBucket.eq_of_nodeId_eq hok hmem hv (by simpa using hd)
  rw [← KBucket.eraseP_eq_filter hok.nodup, herase]
  conv_lhs => rw [hlist]
  exact List.perm_middle

theorem replaced_evict (hs : Since t c.nodeId t₁) (ha : Accessed t₁ c.nodeId j b)
    (hf : b.FullWithout c.nodeId) (hj : j = t₁.brotherBucketOfHolder.toNat)
    (hsplits : Splits clock c pasts t rest t₁) {victim : Contact} (hv : victim ∈ b.contacts)
    (ho : ∀ d ∈ t₁.others j, d.nodeId ≠ c.nodeId) :
    Replaced clock c pasts t rest (t₁.setBucket j (b.evict victim.nodeId c)) := by
  have hall : b.contacts.filter (·.nodeId ≠ c.nodeId) = b.contacts :=
    List.filter_eq_self.mpr fun d hd => by simpa using fun he => hf.2 ⟨d, hd, he⟩
  have hok := (hs.base.ok b (List.mem_of_getElem? ha.get)).1
  have hkept := perm_kept hs ha ho
  rw [hall] at hkept
  have hout := hkept.trans ((perm_victim hok hv).append_right _)
  have herase := hout.erase victim
  rw [List.cons_append, List.erase_cons_head] at herase
  refine .inr ⟨victim, hout.mem_iff.mpr (List.mem_append_left _ List.mem_cons_self), ?_, t₁, hsplits,
    ?_, b, hj ▸ ha.get, hf.1⟩
  · exact (stored_setBucket ha.get _).trans (herase.symm.cons c)
  · rw [ha.index, hj, BitVec.ofNat_toNat, BitVec.setWidth_eq]

/-- **All or nothing, and when.** A call that returns another code than 0 leaves the
collection as it was; one that returns 0 puts the contact in the place of the old one
exactly when the id was stored nowhere but in the bucket it is routed to. -/
theorem transactional_iff (hr : table.Reachable t)
    (h : addContact clock c pasts t = .ok (some (code, t', rest))) :
    (code ≠ 0 → t'.stored.Perm t.stored) ∧
      (code = 0 → (Replaced clock c pasts t rest t' ↔ t.RoutedOnly c.nodeId)) := by
  have hstart : Since t c.nodeId t := ⟨base_inductive.reachable hr, .refl _, fun _ _ _ => .rfl⟩
  obtain ⟨t₁, hs, hsplits, hret⟩ := addContact_last (I := Since t c.nodeId) (fun _ => True)
    (fun _ hs => hs.base) (fun _ _ _ _ hs _ ha hf _ => since_splitAt hs ha hf) hstart
    (fun _ _ => trivial) h
  rcases level_ret hs.base hret with ⟨hcode, rfl⟩ | ⟨rfl, j, b, ha, hcase⟩
  · exact ⟨fun _ => hs.stored, fun h => absurd h hcode⟩
  · refine ⟨fun h => absurd rfl h, fun _ => ?_⟩
    rw [← hs.routed j b ha, routedOnly_iff ha]
    rcases hcase with ⟨-, rfl⟩ | ⟨hf, -, hj, victim, hv, rfl⟩
    · exact ⟨fun h => others_of_replaced (stored_setBucket ha.get _) List.mem_cons_self h,
        fun ho => replaced_pushed hs ha ho⟩
    · exact ⟨fun h => others_of_replaced (stored_setBucket ha.get _) List.mem_cons_self h,
        fun ho => replaced_evict hs ha hf hj hsplits hv ho⟩

/-- Where every contact is found, the condition holds for every id. -/
theorem routedOnly_of_findable (hf : Findable t) (id : KadID) : t.RoutedOnly id := by
  rintro i b hi ⟨d, hd, rfl⟩
  exact hf.index i b hi d hd

/-! ## Above and below the first range -/

/-- Contacts with the ids 200, 300, 400. -/
def addThree : List Op := [200, 300, 400].map fun id => addOp (contactAt ⟨Rossi.ofUlong id⟩) 0

theorem addThree_isSome : (LTS.exec step (fresh 100 3 8) addThree).isSome = true := by
  decide +kernel

def holdsThree : RoutingTable :=
  LTS.last (fresh 100 3 8) ((LTS.exec step (fresh 100 3 8) addThree).get addThree_isSome)

/-- A contact at the top of the space, with one split on the way. -/
theorem transactional_holdsThree : ∃ t', addContact (digestOf 0, digestOf 0) (contactAt .kMaxIDWords)
    [(0, 0)] holdsThree = .ok (some (0, t', [])) ∧
    Replaced (digestOf 0, digestOf 0) (contactAt .kMaxIDWords) [(0, 0)] holdsThree [] t' := by
  have hr : table.Reachable holdsThree := ⟨_, _, ⟨_, _, _, rfl⟩, run_fresh addThree_isSome⟩
  have hcall : addContact (digestOf 0, digestOf 0) (contactAt .kMaxIDWords) [(0, 0)] holdsThree =
      .ok (some (0, (step holdsThree (addOp (contactAt .kMaxIDWords) 1)).getD holdsThree, [])) := by
    decide +kernel
  refine ⟨_, hcall, ((transactional_iff hr hcall).2 rfl).mpr ?_⟩
  have hnone : ∀ b ∈ holdsThree.kBuckets, ¬ b.Holds (contactAt .kMaxIDWords).nodeId := by
    decide +kernel
  exact fun i b hi hb => absurd hb (hnone b (List.mem_of_getElem? hi))

/-- The id 1 lies in the right bucket and is routed to the left one, which has room once
200 is removed. -/
def addBelowRemove : List Op := addBelow ++ [.remove ⟨Rossi.ofUlong 200⟩]

theorem addBelowRemove_isSome : (LTS.exec step (fresh 100 3 8) addBelowRemove).isSome = true := by
  decide +kernel

def hidesOne : RoutingTable :=
  LTS.last (fresh 100 3 8) ((LTS.exec step (fresh 100 3 8) addBelowRemove).get addBelowRemove_isSome)

/-- The id 1 is added and is stored twice then. -/
theorem transactional_counterexample : ¬ ∀ (t t' : RoutingTable) (c : Contact)
    (clock : Digest × Digest) (pasts rest : List Past) (code : Int), table.Reachable t →
    2 < t.K.toNat → addContact clock c pasts t = .ok (some (code, t', rest)) →
    (code ≠ 0 → t'.stored.Perm t.stored) ∧ (code = 0 → Replaced clock c pasts t rest t') := by
  intro h
  have hr : table.Reachable hidesOne := ⟨_, _, ⟨_, _, _, rfl⟩, run_fresh addBelowRemove_isSome⟩
  have hcall : addContact (digestOf 0, digestOf 0) (contactAt ⟨Rossi.ofUlong 1⟩) [] hidesOne =
      .ok (some (0, (step hidesOne (addOp (contactAt ⟨Rossi.ofUlong 1⟩) 0)).getD hidesOne, [])) := by
    decide +kernel
  have hone := countP_of_replaced ((h _ _ _ _ _ _ _ hr (by decide +kernel) hcall).2 rfl)
  revert hone
  decide +kernel

end Kadpeer.L3.RoutingTable
