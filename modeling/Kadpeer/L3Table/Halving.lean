import Kadpeer.L3Table.Bounds

/-!
# Splits that halve a range

With even words past the end the split of `[a, b]` gives `[a, m + 1]` and
`[m, b]` for `m = a / 2 + b / 2` (`leftEnd`). This is so in a run whose operations
are all `Halving`; `Clear` is left out. In such a run every range has its ends in
order and the position of the holder's bucket exists (`Live`).

* `live_step`: what a `Halving` operation keeps.
* `accessed_splitAt_left`, `accessed_splitAt_right`: the bucket that the id
  reaches once the bucket it had reached is split.
-/
namespace Kadpeer.L3.RoutingTable

open Kadpeer.Core Kadpeer.L1 Kadpeer.L2

/-- The upper end of the left half of `[a, b]`; the right half starts one below. -/
def leftEnd (a b : Nat) : Nat := a / 2 + b / 2 + 1

variable {t t' : RoutingTable} {c : Contact} {clock : Digest × Digest} {id : KadID} {j : Nat}
  {b : KBucket} {past : Past}

theorem toNat_leftHalf_rangeMax (hp : KadID.EvenPast past) (b : KBucket) :
    (leftHalf past b).rangeMax.toNat = leftEnd b.rangeMin.toNat b.rangeMax.toNat := by
  rw [leftHalf_rangeMax, KadID.toNat_splitRange_fst, KadID.toNat_splitRange hp, leftEnd]

theorem toNat_rightHalf_rangeMin (past : Past) (b : KBucket) :
    (rightHalf past b).rangeMin.toNat + 1 = (leftHalf past b).rangeMax.toNat := by
  rw [leftHalf_rangeMax, KadID.toNat_splitRange_fst, rightHalf_rangeMin]

/-- An operation other than `Clear`, with even words at every split. -/
def Halving : Op → Prop
  | .add _ _ pasts => ∀ past ∈ pasts, KadID.EvenPast past
  | .remove _ => True
  | .touch _ _ => True
  | .clear _ => False

instance : DecidablePred Halving
  | .add _ _ pasts => List.decidableBAll KadID.EvenPast pasts
  | .remove _ => instDecidableTrue
  | .touch _ _ => instDecidableTrue
  | .clear _ => instDecidableFalse

/-! ## Ends in order -/

structure Live (t : RoutingTable) : Prop where
  base : Base t
  ordered : ∀ b ∈ t.kBuckets, b.rangeMin ≤ b.rangeMax
  own : t.bucketOfHolder.toNat < t.kBuckets.length

theorem live_new (holderId : KadID) (rtK : UShort) (minRange : Digest) :
    Live (new holderId rtK minRange) where
  base := base_new holderId rtK minRange
  ordered := by
    intro b hb
    rw [List.mem_singleton.mp hb]
    exact le_of_lt (KadID.ofDigest_lt_kMaxID minRange)
  own := by simp [new]

theorem live_splitAt (hl : Live t) (hp : KadID.EvenPast past) (ha : Accessed t id j b) :
    Live (t.splitAt past j b) where
  base := base_splitAt hl.base past ha.get
  ordered := by
    intro b' hb'
    have hb := KadID.le_def.mp (hl.ordered b (List.mem_of_getElem? ha.get))
    have hleft := toNat_leftHalf_rangeMax hp b
    have hright := toNat_rightHalf_rangeMin past b
    unfold leftEnd at hleft
    rcases mem_splitAt hb' with h | h | h
    · rw [h, KadID.le_def, hleft, leftHalf_rangeMin]
      omega
    · rw [h, KadID.le_def, rightHalf_rangeMax]
      omega
    · exact hl.ordered b' h
  own := bucketOfHolder_splitAt past ha

theorem live_setBucket (hl : Live t) {b' : KBucket} (hget : t.kBuckets[j]? = some b)
    (hmin : b'.rangeMin = b.rangeMin) (hmax : b'.rangeMax = b.rangeMax)
    (hB : Base (t.setBucket j b')) : Live (t.setBucket j b') where
  base := hB
  ordered := by
    intro d hd
    rcases List.mem_or_eq_of_mem_set hd with h | h
    · exact hl.ordered d h
    · rw [h, hmin, hmax]
      exact hl.ordered b (List.mem_of_getElem? hget)
  own := by
    rw [setBucket, List.length_set]
    exact hl.own

theorem live_level_ret (hl : Live t) {code : Int}
    (h : t.addContactLevel clock c = .ok (.ret code t')) : Live t' := by
  have hB := base_level_ret hl.base h
  rcases level_ret hl.base h with ⟨-, rfl⟩ | ⟨-, j, b, ha, ⟨-, rfl⟩ | ⟨-, -, -, victim, -, rfl⟩⟩
  · exact hl
  · exact live_setBucket hl ha.get rfl rfl hB
  · exact live_setBucket hl ha.get rfl rfl hB

theorem live_step {op : Op} (hl : Live t) (hop : Halving op) (h : step t op = some t') :
    Live t' := by
  have hB := base_step hl.base h
  cases op with
  | add c clock pasts =>
    obtain ⟨code, h⟩ := step_add h
    obtain ⟨t₁, hl₁, -, hret⟩ := addContact_last (I := Live) KadID.EvenPast (fun _ h => h.base)
      (fun t past j b hl hp ha _ _ => live_splitAt hl hp ha) hl hop h
    exact live_level_ret hl₁ hret
  | remove id =>
    obtain ⟨u, b, -, hb, rfl⟩ := removeContact_cases hl.base (step_remove h)
    exact live_setBucket hl hb rfl rfl hB
  | touch id current =>
    obtain ⟨u, b, -, hb, rfl⟩ := touchKBucket_cases hl.base (step_touch h)
    exact live_setBucket hl hb rfl rfl hB
  | clear minRange => exact hop.elim

/-! ## What no operation changes -/

/-- The table has these values of `K_` and `holder_id_`. -/
structure Params (holderId : KadID) (rtK : UShort) (t : RoutingTable) : Prop where
  K : t.K = rtK
  holderId : t.holderId = holderId

variable {holderId : KadID} {rtK : UShort}

theorem params_level_ret (hB : Base t) (hp : Params holderId rtK t) {code : Int}
    (h : t.addContactLevel clock c = .ok (.ret code t')) : Params holderId rtK t' := by
  rcases level_ret hB h with ⟨-, rfl⟩ | ⟨-, j, b, -, ⟨-, rfl⟩ | ⟨-, -, -, victim, -, rfl⟩⟩
  · exact hp
  · exact ⟨hp.K, hp.holderId⟩
  · exact ⟨hp.K, hp.holderId⟩

theorem params_step {op : Op} (hB : Base t) (hp : Params holderId rtK t) (h : step t op = some t') :
    Params holderId rtK t' := by
  cases op with
  | add c clock pasts =>
    obtain ⟨code, h⟩ := step_add h
    obtain ⟨t₁, ⟨hB₁, hp₁⟩, -, hret⟩ := addContact_last (I := fun t => Base t ∧ Params holderId rtK t)
      (fun _ => True) (fun _ h => h.1)
      (fun t past j b h _ ha _ _ => ⟨base_splitAt h.1 past ha.get, ⟨h.2.K, h.2.holderId⟩⟩)
      ⟨hB, hp⟩ (fun _ _ => trivial) h
    exact params_level_ret hB₁ hp₁ hret
  | remove id =>
    obtain ⟨u, b, -, -, rfl⟩ := removeContact_cases hB (step_remove h)
    exact ⟨hp.K, hp.holderId⟩
  | touch id current =>
    obtain ⟨u, b, -, -, rfl⟩ := touchKBucket_cases hB (step_touch h)
    exact ⟨hp.K, hp.holderId⟩
  | clear minRange =>
    cases h
    exact ⟨hp.K, hp.holderId⟩

/-- What every state of a run of `Halving` operations satisfies. -/
theorem live_run {minRange : Digest} {tr : List (Op × RoutingTable)}
    (hr : table.Run (new holderId rtK minRange) tr t)
    (hops : LTS.Steps (fun _ op => Halving op) (new holderId rtK minRange) tr) :
    Live t ∧ Params holderId rtK t :=
  LTS.inv_of_steps (I := fun t => Live t ∧ Params holderId rtK t)
    (fun _ _ _ hI hop h => ⟨live_step hI.1 hop h, params_step hI.1.base hI.2 h⟩) hr
    ⟨live_new holderId rtK minRange, ⟨rfl, rfl⟩⟩ hops

/-! ## The bucket reached after a split -/

theorem toNat_ofNat_position (hj : j < 65536) : (BitVec.ofNat 16 j).toNat = j := by
  rw [BitVec.toNat_ofNat]
  exact Nat.mod_eq_of_lt hj

/-- An id reaches one bucket at most. -/
theorem Accessed.unique {k : Nat} {d : KBucket} (ha : Accessed t id j b) (hd : Accessed t id k d) :
    k = j ∧ d = b := by
  have hidx := ha.index.symm.trans hd.index
  rw [Except.ok.injEq] at hidx
  have hjk : j = k := by
    have hj := ha.lt
    have hk := hd.lt
    rw [← toNat_ofNat_position (show j < 65536 by omega), hidx, toNat_ofNat_position (by omega)]
  subst hjk
  exact ⟨rfl, Option.some.inj (hd.get.symm.trans ha.get)⟩

/-- The bucket with the smallest upper end not below the id; from 65536 buckets
on it may be another one than the bucket reached. -/
theorem Accessed.routes (hB : Base t) (hid : id ≤ KadID.kMaxID) (ha : Accessed t id j b) :
    ∃ p bp, Routes t id p bp ∧ j ≤ p ∧ BitVec.ofNat 16 p = BitVec.ofNat 16 j := by
  obtain ⟨p, bp, hr⟩ := exists_routes hB hid
  have hidx := (kBucketIndex_of_routes hB hid hr).symm.trans ha.index
  rw [Except.ok.injEq] at hidx
  refine ⟨p, bp, hr, ?_, hidx⟩
  have hj := ha.lt
  rw [← toNat_ofNat_position (show j < 65536 by omega), ← hidx, BitVec.toNat_ofNat]
  exact Nat.mod_le _ _

/-- The left half has the smallest upper end not below the id. -/
def GoesLeft (t : RoutingTable) (past : Past) (b : KBucket) (id : KadID) : Prop :=
  id ≤ (leftHalf past b).rangeMax ∧
    ∀ d ∈ t.kBuckets, id ≤ d.rangeMax → (leftHalf past b).rangeMax ≤ d.rangeMax

theorem accessed_splitAt_left (hB : Base t) (hid : id ≤ KadID.kMaxID) (ha : Accessed t id j b)
    (h : GoesLeft t past b id) : Accessed (t.splitAt past j b) id j (leftHalf past b) := by
  obtain ⟨p, bp, hr, hjp, -⟩ := ha.routes hB hid
  have hr' := routes_splitAt_left hr hjp ha.get h.1 (h.2 bp (List.mem_of_getElem? hr.get) hr.le)
  exact ⟨kBucketIndex_of_routes (base_splitAt hB past ha.get) hid hr', ha.lt, hr'.get⟩

theorem index_splitAt_right (hB : Base t) (hid : id ≤ KadID.kMaxID) (ha : Accessed t id j b)
    (h : ¬ GoesLeft t past b id) :
    (t.splitAt past j b).kBucketIndex id = .ok (BitVec.ofNat 16 (j + 1)) := by
  obtain ⟨p, bp, hr, hjp, hidx⟩ := ha.routes hB hid
  have hnot : ¬ (id ≤ (leftHalf past b).rangeMax ∧ (leftHalf past b).rangeMax ≤ bp.rangeMax) :=
    fun hle => h ⟨hle.1, fun d hd hk => hle.2.trans (hr.least d hd hk)⟩
  obtain ⟨b', hr', -⟩ := routes_splitAt_right hr hjp ha.get hnot
  rw [kBucketIndex_of_routes (base_splitAt hB past ha.get) hid hr', BitVec.ofNat_add,
    BitVec.ofNat_add, hidx]

theorem accessed_splitAt_right (hB : Base t) (hid : id ≤ KadID.kMaxID) (ha : Accessed t id j b)
    (h : ¬ GoesLeft t past b id) (hlt : j + 1 < 32768) :
    Accessed (t.splitAt past j b) id (j + 1) (rightHalf past b) where
  index := index_splitAt_right hB hid ha h
  lt := hlt
  get := by
    rw [getElem?_splitAt past (List.getElem?_eq_some_iff.mp ha.get).1, if_neg (by omega),
      if_neg (by omega), if_pos rfl]

/-- The bucket reached is one of the halves. -/
theorem accessed_splitAt (hB : Base t) (hid : id ≤ KadID.kMaxID) (ha : Accessed t id j b) {k : Nat}
    {d : KBucket} (hd : Accessed (t.splitAt past j b) id k d) :
    (GoesLeft t past b id ∧ k = j ∧ d = leftHalf past b) ∨
      (¬ GoesLeft t past b id ∧ k = j + 1 ∧ d = rightHalf past b) := by
  by_cases h : GoesLeft t past b id
  · exact .inl ⟨h, (accessed_splitAt_left hB hid ha h).unique hd⟩
  · refine .inr ⟨h, (Accessed.unique (accessed_splitAt_right hB hid ha h ?_) hd)⟩
    have hidx := (index_splitAt_right hB hid ha h).symm.trans hd.index
    rw [Except.ok.injEq] at hidx
    have hmod := congrArg BitVec.toNat hidx
    have hj := ha.lt
    have hk := hd.lt
    rw [toNat_ofNat_position (by omega), toNat_ofNat_position (by omega)] at hmod
    omega

end Kadpeer.L3.RoutingTable
