import Kadpeer.L3Table.Level

/-!
# The buckets as a partition of the id space

`Partition` is what the upper-address map is meant for: the ranges of the vector
are consecutive from 0 to `KMaxID`, the map has one entry for each bucket, and
`KBucketIndex` finds the one bucket whose range holds the key.

It holds of a table with one bucket that starts at 0 (`partition_of_single`) and
is lost at the first split: `SplitRange` returns `max1` and `min1 = max1 + 1`, and
`SplitKbucket` takes `min1` as the upper end of the left bucket and `max1` as the
lower end of the right one, so the two share two ids (`overlap_splitAt`), whatever
was read past the end. It does not hold either when the digest that `KadID()` puts
in the place of the lower end is not zero.

* `partition_iff`: in every run `Partition` holds in all states exactly when each
  digest is zero and no bucket is split.
* `partition_counterexample`: four contacts, `K_ = 3`.
-/
namespace Kadpeer.L3.RoutingTable

open Kadpeer.Core Kadpeer.L1 Kadpeer.L2

structure Partition (t : RoutingTable) : Prop where
  first : ∃ b, t.kBuckets.head? = some b ∧ b.rangeMin.toNat = 0
  consecutive : ∀ i b b', t.kBuckets[i]? = some b → t.kBuckets[i + 1]? = some b' →
    b'.rangeMin.toNat = b.rangeMax.toNat + 1
  nonempty : ∀ b ∈ t.kBuckets, b.rangeMin ≤ b.rangeMax
  last : ∃ b, t.kBuckets.getLast? = some b ∧ b.rangeMax = KadID.kMaxID
  /-- One entry for each bucket, from its upper end to its position. -/
  upper : t.bucketUpperAddress.toList.length = t.kBuckets.length ∧
    ∀ i b, t.kBuckets[i]? = some b → ∃ u, (b.rangeMax, u) ∈ t.bucketUpperAddress ∧ u.toNat = i
  index : ∀ key ≤ KadID.kMaxID, ∃ u b, t.kBucketIndex key = .ok u ∧
    t.kBuckets[u.toNat]? = some b ∧ b.keyInRange key = true ∧
    ∀ j b', t.kBuckets[j]? = some b' → b'.keyInRange key = true → j = u.toNat

/-- The bucket that the id is routed to is full of other ids and is to be split. -/
def WillSplit (t : RoutingTable) (id : KadID) : Prop :=
  ∃ j b, Accessed t id j b ∧ b.FullWithout id ∧ t.Splittable b

instance (t : RoutingTable) (id : KadID) : Decidable (t.WillSplit id) :=
  match hu : t.kBucketIndex id with
  | .error _ => .isFalse fun ⟨_, _, ha, _⟩ => by rw [ha.index] at hu; cases hu
  | .ok u =>
    match hb : t.kBuckets[u.toNat]? with
    | none => .isFalse fun ⟨j, b, ha, _⟩ => by
      have hj := ha.lt
      rw [ha.index] at hu
      cases hu
      rw [BitVec.toNat_ofNat, Nat.mod_eq_of_lt (by omega), ha.get] at hb
      cases hb
    | some b =>
      decidable_of_iff (u.toNat < 32768 ∧ b.FullWithout id ∧ t.Splittable b) <| by
        constructor
        · rintro ⟨hlt, hf, hs⟩
          exact ⟨u.toNat, b, ⟨by simp [hu], hlt, hb⟩, hf, hs⟩
        · rintro ⟨j, b', ha, hf, hs⟩
          have hj := ha.lt
          rw [ha.index] at hu
          cases hu
          rw [BitVec.toNat_ofNat, Nat.mod_eq_of_lt (by omega)] at hb ⊢
          rw [ha.get] at hb
          cases hb
          exact ⟨hj, hf, hs⟩

/-- A digest that is zero, no split. -/
def KeepsRanges (t : RoutingTable) : Op → Prop
  | .add c _ _ => ¬ t.WillSplit c.nodeId
  | .remove _ => True
  | .touch _ _ => True
  | .clear minRange => (KadID.ofDigest minRange).toNat = 0

instance (t : RoutingTable) : (op : Op) → Decidable (t.KeepsRanges op)
  | .add c _ _ => inferInstanceAs (Decidable (¬ t.WillSplit c.nodeId))
  | .remove _ => instDecidableTrue
  | .touch _ _ => instDecidableTrue
  | .clear _ => inferInstanceAs (Decidable (_ = 0))

variable {t t' : RoutingTable} {c : Contact} {clock : Digest × Digest} {j : Nat} {b : KBucket}

/-! ## One bucket from zero -/

structure Single (t : RoutingTable) : Prop where
  base : Base t
  one : ∃ zero, t.ranges = [(zero, KadID.kMaxID)] ∧ zero.toNat = 0

theorem Single.bucket (h : Single t) :
    ∃ b, t.kBuckets = [b] ∧ b.rangeMin.toNat = 0 ∧ b.rangeMax = KadID.kMaxID := by
  obtain ⟨zero, hr, hz⟩ := h.one
  obtain ⟨b, hb, hrange⟩ := List.map_eq_singleton_iff.mp hr
  rw [Prod.mk.injEq] at hrange
  exact ⟨b, hb, hrange.1 ▸ hz, hrange.2⟩

theorem partition_of_single (h : Single t) : Partition t := by
  obtain ⟨b, hb, hmin, hmax⟩ := h.bucket
  have hu : t.bucketUpperAddress = Keyed.empty.insert (b.rangeMax, 0) := by
    rw [h.base.upper, hb]; rfl
  have hin : ∀ key ≤ KadID.kMaxID, b.keyInRange key = true := fun key hkey =>
    KBucket.keyInRange_iff.mpr ⟨KadID.le_def.mpr (by omega), hmax ▸ hkey⟩
  have hget : ∀ {i : Nat} {d : KBucket}, t.kBuckets[i]? = some d → i = 0 ∧ d = b := by
    intro i d hd
    rw [hb, List.getElem?_singleton] at hd
    split at hd
    · exact ⟨‹_›, (Option.some.inj hd).symm⟩
    · cases hd
  refine ⟨⟨b, by rw [hb]; rfl, hmin⟩, fun i d d' _ hd' => ?_, fun d hd => ?_,
    ⟨b, by rw [hb]; rfl, hmax⟩, ⟨by rw [hu, hb]; rfl, fun i d hd => ?_⟩, fun key hkey => ?_⟩
  · exact absurd (hget hd').1 (by omega)
  · rw [hb, List.mem_singleton] at hd
    exact hd ▸ KadID.le_def.mpr (by omega)
  · obtain ⟨rfl, rfl⟩ := hget hd
    exact ⟨0, by rw [hu, Keyed.mem_insert]; exact .inr ⟨rfl, by simp⟩, rfl⟩
  · have hr : Routes t key 0 b := by
      refine ⟨by rw [hb]; rfl, hmax ▸ hkey, fun d hd _ => ?_, fun k _ _ hk => by omega⟩
      rw [hb, List.mem_singleton] at hd
      rw [hd]
    refine ⟨0, b, kBucketIndex_of_routes h.base hkey hr, hr.get, hin key hkey, fun k d hd _ => ?_⟩
    exact (hget hd).1

theorem single_of_ranges (h : Single t) (hB : Base t') (hr : t'.ranges = t.ranges) : Single t' :=
  ⟨hB, hr ▸ h.one⟩

theorem single_new (holderId : KadID) (rtK : UShort) {minRange : Digest}
    (h : (KadID.ofDigest minRange).toNat = 0) : Single (new holderId rtK minRange) :=
  ⟨base_new holderId rtK minRange, _, rfl, h⟩

/-! ## Two buckets that share two ids -/

/-- The upper end of a bucket is one above the lower end of the next one. -/
def Overlap (t : RoutingTable) : Prop :=
  ∃ i l r, t.ranges[i]? = some l ∧ t.ranges[i + 1]? = some r ∧ l.2.toNat = r.1.toNat + 1

theorem not_partition_of_overlap (h : Overlap t) : ¬ Partition t := by
  obtain ⟨i, l, r, hl, hr, heq⟩ := h
  intro hp
  rw [getElem?_ranges, Option.map_eq_some_iff] at hl hr
  obtain ⟨b, hb, rfl⟩ := hl
  obtain ⟨b', hb', rfl⟩ := hr
  have := hp.consecutive i b b' hb hb'
  dsimp only at heq
  omega

/-- Whatever was read past the end. -/
theorem overlap_splitAt (past : Past) (hj : j < t.kBuckets.length) :
    Overlap (t.splitAt past j b) := by
  refine ⟨j, (b.rangeMin, (leftHalf past b).rangeMax), ((rightHalf past b).rangeMin, b.rangeMax),
    ?_, ?_, KadID.toNat_splitRange_fst past b.rangeMin b.rangeMax⟩
  · rw [getElem?_ranges, getElem?_splitAt past hj, if_neg (by omega), if_pos rfl, Option.map_some,
      leftHalf_rangeMin]
  · rw [getElem?_ranges, getElem?_splitAt past hj, if_neg (by omega), if_neg (by omega), if_pos rfl,
      Option.map_some, rightHalf_rangeMax]

/-- A call that splits ends with such a pair. -/
theorem overlap_of_willSplit (hB : Base t) (hw : t.WillSplit c.nodeId) {pasts rest : List Past}
    {code : Int} (h : addContact clock c pasts t = .ok (some (code, t', rest))) : Overlap t' := by
  obtain ⟨j, b, ha, hf, hs⟩ := hw
  have hl : t.addContactLevel clock c = .ok (.split j t) := addContactLevel_split ha hf hs
  have hlt := (List.getElem?_eq_some_iff.mp ha.get).1
  cases pasts with
  | nil => rw [addContact_nil_of_split hl] at h; cases h
  | cons past pasts =>
    obtain ⟨b, ha, -, -, -, heq⟩ := addContact_cons_splitAt hB hl past pasts
    rw [heq] at h
    have hstart : Base (t.splitAt past j b) ∧ Overlap (t.splitAt past j b) :=
      ⟨base_splitAt hB past ha.get, overlap_splitAt past hlt⟩
    obtain ⟨t₁, ⟨hB₁, ho⟩, -, hret⟩ := addContact_last (I := fun t => Base t ∧ Overlap t)
      (fun _ => True) (fun _ h => h.1)
      (fun t past j b h _ ha _ _ => ⟨base_splitAt h.1 past ha.get,
        overlap_splitAt past (List.getElem?_eq_some_iff.mp ha.get).1⟩)
      hstart (fun _ _ => trivial) h
    unfold Overlap
    rw [ranges_level_ret hB₁ hret]
    exact ho

/-- A call that does not split leaves the ranges alone. -/
theorem ranges_of_not_willSplit (hB : Base t) (hw : ¬ t.WillSplit c.nodeId) {pasts rest : List Past}
    {code : Int} (h : addContact clock c pasts t = .ok (some (code, t', rest))) :
    t'.ranges = t.ranges := by
  obtain ⟨-, hl⟩ | ⟨past, pasts', j, s, b, -, -, ha, hf, hs, -⟩ := addContact_cases hB h
  · exact ranges_level_ret hB hl
  · exact absurd ⟨j, b, ha, hf, hs⟩ hw

/-! ## Runs -/

theorem single_step {op : Op} (hs : Single t) (hok : t.KeepsRanges op) (h : step t op = some t') :
    Single t' := by
  have hB := base_step hs.base h
  cases op with
  | add c clock pasts =>
    obtain ⟨code, h⟩ := step_add h
    exact single_of_ranges hs hB (ranges_of_not_willSplit hs.base hok h)
  | remove id =>
    obtain ⟨u, b, -, hb, rfl⟩ := removeContact_cases hs.base (step_remove h)
    exact single_of_ranges hs hB (ranges_setBucket hb rfl rfl)
  | touch id current =>
    obtain ⟨u, b, -, hb, rfl⟩ := touchKBucket_cases hs.base (step_touch h)
    exact single_of_ranges hs hB (ranges_setBucket hb rfl rfl)
  | clear minRange =>
    cases h
    exact ⟨hB, KadID.ofDigest minRange, by rw [← hs.base.limit]; rfl, hok⟩

theorem not_partition_step {op : Op} (hs : Single t) (hok : ¬ t.KeepsRanges op)
    (h : step t op = some t') : ¬ Partition t' := by
  cases op with
  | add c clock pasts =>
    obtain ⟨code, h⟩ := step_add h
    exact not_partition_of_overlap (overlap_of_willSplit hs.base (not_not.mp hok) h)
  | remove id => exact absurd trivial hok
  | touch id current => exact absurd trivial hok
  | clear minRange =>
    cases h
    intro hp
    obtain ⟨b, hb, hz⟩ := hp.first
    cases hb
    exact hok hz

/-- **The partition lasts until the first split.** -/
theorem partition_iff (holderId : KadID) (rtK : UShort) (minRange : Digest)
    {tr : List (Op × RoutingTable)} (hr : table.Run (new holderId rtK minRange) tr t') :
    LTS.States Partition (new holderId rtK minRange) tr ↔
      (KadID.ofDigest minRange).toNat = 0 ∧ LTS.Steps KeepsRanges (new holderId rtK minRange) tr := by
  by_cases hz : (KadID.ofDigest minRange).toNat = 0
  · have hiff := LTS.states_iff_steps (P := Partition) (fun _ hs => partition_of_single hs)
      (fun _ _ _ hs hok h => single_step hs hok h)
      (fun _ _ _ hs hok h => not_partition_step hs hok h) hr (single_new holderId rtK hz)
    exact ⟨fun h => ⟨hz, hiff.mp h⟩, fun h => hiff.mpr h.2⟩
  · refine ⟨fun h => ?_, fun h => absurd h.1 hz⟩
    obtain ⟨b, hb, hmin⟩ := h.1.first
    cases hb
    exact absurd hmin hz

/-! ## Three contacts, and a fourth -/

def threeAdds : List Op := [1, 2, 3].map fun id => addOp (contactAt ⟨Rossi.ofUlong id⟩) 0

theorem threeAdds_isSome : (LTS.exec step (fresh 5 3 0) threeAdds).isSome = true := by decide +kernel

/-- Without a split the partition stays. -/
theorem partition_threeAdds :
    LTS.States Partition (fresh 5 3 0) ((LTS.exec step (fresh 5 3 0) threeAdds).get threeAdds_isSome) := by
  have hiff := partition_iff _ _ _ (run_fresh threeAdds_isSome)
  rw [fresh_eq] at hiff
  exact hiff.mpr ⟨by decide +kernel, by decide +kernel⟩

/-- A fourth contact at the top of the space, for which the bucket is split. -/
def fourAdds : List Op := threeAdds ++ [addOp (contactAt .kMaxIDWords) 1]

theorem fourAdds_isSome : (LTS.exec step (fresh 5 3 0) fourAdds).isSome = true := by decide +kernel

theorem overlap_fourAdds :
    Overlap (LTS.last (fresh 5 3 0) ((LTS.exec step (fresh 5 3 0) fourAdds).get fourAdds_isSome)) := by
  generalize ht : LTS.last (fresh 5 3 0) ((LTS.exec step (fresh 5 3 0) fourAdds).get fourAdds_isSome) = t
  refine ⟨0, t.ranges.getD 0 (.kMinID, .kMinID), t.ranges.getD 1 (.kMinID, .kMinID), ?_, ?_, ?_⟩
  all_goals subst ht; decide +kernel

/-- The partition is lost with the fourth contact, and above the digest 1 the new
table is none. -/
theorem partition_counterexample :
    (¬ ∀ (holderId : KadID) (rtK : UShort) (minRange : Digest) (tr : List (Op × RoutingTable))
        (t' : RoutingTable), 2 < rtK.toNat → table.Run (new holderId rtK minRange) tr t' →
        Partition t') ∧
      ¬ Partition (new ⟨Rossi.ofUlong 5⟩ 3 (digestOf 1)) := by
  refine ⟨fun h => ?_, fun h => ?_⟩
  · exact not_partition_of_overlap overlap_fourAdds
      (h _ _ _ _ _ (by decide) (run_fresh fourAdds_isSome))
  · obtain ⟨b, hb, hz⟩ := h.first
    cases hb
    revert hz
    decide +kernel

end Kadpeer.L3.RoutingTable
