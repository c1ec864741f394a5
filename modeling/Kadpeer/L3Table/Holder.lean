import Kadpeer.L3Table.Placement

/-!
# The holder's bucket and its brother

`ForceKAcceptNewPeer` indexes `k_buckets_` with `bucket_of_holder_` and
`brother_bucket_of_holder_`, which only `SplitKbucket` writes, from the position that it
splits. `Bookkept` is what they should be: the first is the position of a bucket that
covers the holder, the second that of a neighbour, or 65535 before the first split.

A split of a bucket that covers the holder keeps this (`bookkept_splitAt`), and with
`K_ > 2` no other bucket is split (`splitsOwn_of_lt`). Three things do not.
* The digest behind `KadID()` is above the holder, so that the first bucket does not
  cover it (`bookkept_new_iff`).
* `Clear` puts one bucket in the place of all and leaves both positions as they were;
  the constructor sets them.
* With `K_` at most 2 any full bucket is split, and both positions move to its halves.

Results:
* `bookkept_of_steps`: in every run without these every state is `Bookkept`.
* `bookkept_counterexample`: a split and `Clear`; two contacts of the other half.
-/
namespace Kadpeer.L3.RoutingTable

open Kadpeer.Core Kadpeer.L1 Kadpeer.L2

/-- Every split adds a bucket and `Clear` leaves one, so there is one bucket exactly as
long as there was no split since. -/
structure Bookkept (t : RoutingTable) : Prop where
  own : ∃ b, t.kBuckets[t.bucketOfHolder.toNat]? = some b ∧ b.keyInRange t.holderId = true
  brother : (t.brotherBucketOfHolder = -1 ∧ t.kBuckets.length = 1) ∨
    (t.brotherBucketOfHolder.toNat < t.kBuckets.length ∧
      (t.brotherBucketOfHolder.toNat = t.bucketOfHolder.toNat + 1 ∨
        t.bucketOfHolder.toNat = t.brotherBucketOfHolder.toNat + 1))

/-- Every bucket that the call splits covers the holder. -/
def SplitsOwn (t : RoutingTable) (clock : Digest × Digest) (c : Contact) (pasts : List Past) : Prop :=
  ∀ rest t₁ j b, Splits clock c pasts t rest t₁ → Accessed t₁ c.nodeId j b →
    b.FullWithout c.nodeId → t₁.Splittable b → b.keyInRange t₁.holderId = true

/-- `Clear` only on a table that was not split, with a digest not above the holder. -/
def KeepsHolder (t : RoutingTable) : Op → Prop
  | .add c clock pasts => t.SplitsOwn clock c pasts
  | .remove _ => True
  | .touch _ _ => True
  | .clear minRange => t.kBuckets.length = 1 ∧ KadID.ofDigest minRange ≤ t.holderId

variable {t t' : RoutingTable} {c : Contact} {clock : Digest × Digest} {id : KadID} {j : Nat}
  {b : KBucket} {past : Past}

/-! ## One bucket -/

/-- The only bucket covers the holder when the digest is not above it. -/
theorem bookkept_single (hb : t.kBuckets = [b]) (hmax : t.holderId ≤ b.rangeMax)
    (hown : t.bucketOfHolder = 0) (hbrother : t.brotherBucketOfHolder = -1) :
    Bookkept t ↔ b.rangeMin ≤ t.holderId := by
  constructor
  · rintro ⟨⟨d, hd, hin⟩, -⟩
    rw [hown, hb, show (0 : UShort).toNat = 0 from rfl, List.getElem?_cons_zero,
      Option.some.injEq] at hd
    rw [hd]
    exact (KBucket.keyInRange_iff.mp hin).1
  · intro hmin
    exact ⟨⟨b, by rw [hown, hb]; rfl, KBucket.keyInRange_iff.mpr ⟨hmin, hmax⟩⟩,
      .inl ⟨hbrother, by rw [hb]; rfl⟩⟩

theorem bookkept_new_iff {holderId : KadID} (hholder : holderId ≤ KadID.kMaxID) (rtK : UShort)
    (minRange : Digest) :
    Bookkept (new holderId rtK minRange) ↔ KadID.ofDigest minRange ≤ holderId := by
  have hb : (new holderId rtK minRange).kBuckets = [.new (.ofDigest minRange) .kMaxID rtK] := rfl
  have h := bookkept_single hb hholder rfl rfl
  exact h

/-- Before the first split both positions are those of the constructor. -/
theorem Bookkept.unset (h : Bookkept t) (hlen : t.kBuckets.length = 1) :
    t.bucketOfHolder = 0 ∧ t.brotherBucketOfHolder = -1 := by
  obtain ⟨d, hd, -⟩ := h.own
  have hlt := (List.getElem?_eq_some_iff.mp hd).1
  have hzero : t.bucketOfHolder.toNat = 0 := by omega
  refine ⟨BitVec.eq_of_toNat_eq hzero, ?_⟩
  rcases h.brother with ⟨hb, -⟩ | ⟨hb, hadj⟩
  · exact hb
  · omega

theorem bookkept_clear_iff (hB : Base t) (hholder : t.holderId ≤ KadID.kMaxID) (h : Bookkept t)
    (minRange : Digest) :
    Bookkept (t.clear minRange) ↔
      t.kBuckets.length = 1 ∧ KadID.ofDigest minRange ≤ t.holderId := by
  have hmax : t.holderId ≤ t.addressSpaceUpperAddress := hB.limit ▸ hholder
  constructor
  · intro hc
    have hone : t.kBuckets.length = 1 := by
      -- the positions after `Clear` are the old ones, and those of a table with one bucket
      have hset : t.brotherBucketOfHolder = -1 := (hc.unset rfl).2
      rcases h.brother with ⟨-, hlen⟩ | ⟨-, hadj⟩
      · exact hlen
      · have hown : t.bucketOfHolder = 0 := (hc.unset rfl).1
        rw [hset, hown] at hadj
        exact absurd hadj (by decide)
    obtain ⟨hown, hbrother⟩ := h.unset hone
    exact ⟨hone, (bookkept_single (t := t.clear minRange) rfl hmax hown hbrother).mp hc⟩
  · intro ⟨hone, hmin⟩
    obtain ⟨hown, hbrother⟩ := h.unset hone
    exact (bookkept_single (t := t.clear minRange) rfl hmax hown hbrother).mpr hmin

/-! ## Splits -/

/-- A bucket that covers the holder has a half that does, whatever was read past the
end. -/
theorem keyInRange_half (past : Past) (hb : b.keyInRange id = true) :
    (leftHalf past b).keyInRange id = true ∨ (rightHalf past b).keyInRange id = true := by
  obtain ⟨hmin, hmax⟩ := KBucket.keyInRange_iff.mp hb
  rcases le_or_gt id (leftHalf past b).rangeMax with hle | hgt
  · exact .inl (KBucket.keyInRange_iff.mpr ⟨hmin, hle⟩)
  · have hmid := toNat_rightHalf_rangeMin past b
    rw [KadID.lt_def] at hgt
    exact .inr (KBucket.keyInRange_iff.mpr ⟨KadID.le_def.mpr (by omega), hmax⟩)

theorem bookkept_splitAt (past : Past) (ha : Accessed t id j b)
    (hb : b.keyInRange t.holderId = true) : Bookkept (t.splitAt past j b) := by
  have hj := (List.getElem?_eq_some_iff.mp ha.get).1
  have hlt := ha.lt
  have hlen := length_splitAt (b := b) past hj
  have hpos : ∀ k, k ≤ j + 1 → (BitVec.ofNat 16 k).toNat = k := fun k hk =>
    toNat_ofNat_position (by omega)
  by_cases hl : (leftHalf past b).keyInRange t.holderId = true
  · have hown : (t.splitAt past j b).bucketOfHolder.toNat = j := by
      simp only [splitAt, if_pos hl, hpos j (by omega)]
    have hbrother : (t.splitAt past j b).brotherBucketOfHolder.toNat = j + 1 := by
      simp only [splitAt, if_pos hl, hpos (j + 1) (by omega)]
    refine ⟨⟨leftHalf past b, ?_, hl⟩, .inr ⟨by omega, by omega⟩⟩
    rw [hown, getElem?_splitAt past hj, if_neg (by omega), if_pos rfl]
  · have hr := (keyInRange_half past hb).resolve_left hl
    have hown : (t.splitAt past j b).bucketOfHolder.toNat = j + 1 := by
      simp only [splitAt, if_neg hl, hpos (j + 1) (by omega)]
    have hbrother : (t.splitAt past j b).brotherBucketOfHolder.toNat = j := by
      simp only [splitAt, if_neg hl, hpos j (by omega)]
    refine ⟨⟨rightHalf past b, ?_, hr⟩, .inr ⟨by omega, by omega⟩⟩
    rw [hown, getElem?_splitAt past hj, if_neg (by omega), if_neg (by omega), if_pos rfl]

theorem bookkept_splits {pasts rest : List Past} {t₁ : RoutingTable}
    (hs : Splits clock c pasts t rest t₁) (hB : Base t) (h : Bookkept t)
    (hown : t.SplitsOwn clock c pasts) : Bookkept t₁ := by
  induction hs with
  | refl => exact h
  | @cons past pasts rest t s u t₁ j hl hsplit hrest ih =>
    obtain ⟨b, ha, hf, hsp, rfl⟩ := splitAt_of_level hB hl hsplit
    refine ih (base_splitAt hB past ha.get)
      (bookkept_splitAt past ha (hown _ _ j b (.refl _ _) ha hf hsp)) ?_
    exact fun rest' t₂ k d hs' => hown rest' t₂ k d (.cons hl hsplit hs')

theorem splits_K {pasts rest : List Past} {t₁ : RoutingTable} (hs : Splits clock c pasts t rest t₁)
    (hB : Base t) : t₁.K = t.K := by
  induction hs with
  | refl => rfl
  | @cons past pasts rest t s u t₁ j hl hsplit hrest ih =>
    obtain ⟨b, ha, -, -, rfl⟩ := splitAt_of_level hB hl hsplit
    exact ih (base_splitAt hB past ha.get)

/-- For more than two contacts a bucket, only buckets that cover the holder are
split. -/
theorem splitsOwn_of_lt (hB : Base t) (hK : 2 < t.K.toNat) (pasts : List Past) :
    t.SplitsOwn clock c pasts := by
  intro rest t₁ j b hs _ _ hsp
  have hK₁ := splits_K hs hB
  exact hsp.resolve_left (by rw [hK₁]; omega)

/-! ## Other changes -/

/-- Only the ranges and the two positions count. -/
theorem bookkept_of_ranges (h : Bookkept t) (hr : t'.ranges = t.ranges)
    (hholder : t'.holderId = t.holderId) (hown : t'.bucketOfHolder = t.bucketOfHolder)
    (hbrother : t'.brotherBucketOfHolder = t.brotherBucketOfHolder) : Bookkept t' where
  own := by
    obtain ⟨b, hb, hin⟩ := h.own
    have hrange := getElem?_ranges t t.bucketOfHolder.toNat
    rw [hb, ← hr, getElem?_ranges, Option.map_some, Option.map_eq_some_iff] at hrange
    obtain ⟨b', hb', heq⟩ := hrange
    rw [Prod.mk.injEq] at heq
    refine ⟨b', hown ▸ hb', ?_⟩
    rw [KBucket.keyInRange_iff, heq.1, heq.2, hholder]
    exact KBucket.keyInRange_iff.mp hin
  brother := by
    have hlen : t'.kBuckets.length = t.kBuckets.length := by
      have h := congrArg List.length hr
      rwa [ranges, ranges, List.length_map, List.length_map] at h
    rw [hbrother, hown, hlen]
    exact h.brother

theorem bookkept_setBucket {b' : KBucket} (h : Bookkept t) (hget : t.kBuckets[j]? = some b)
    (hmin : b'.rangeMin = b.rangeMin) (hmax : b'.rangeMax = b.rangeMax) :
    Bookkept (t.setBucket j b') :=
  bookkept_of_ranges h (ranges_setBucket hget hmin hmax) rfl rfl rfl

theorem bookkept_level_ret (hB : Base t) (h : Bookkept t) {code : Int}
    (hl : t.addContactLevel clock c = .ok (.ret code t')) : Bookkept t' := by
  rcases level_ret hB hl with ⟨-, rfl⟩ | ⟨-, j, b, ha, ⟨-, rfl⟩ | ⟨-, -, -, victim, -, rfl⟩⟩
  · exact h
  · exact bookkept_setBucket h ha.get rfl rfl
  · exact bookkept_setBucket h ha.get rfl rfl

theorem bookkept_step {op : Op} (hB : Base t) (hholder : t.holderId ≤ KadID.kMaxID)
    (h : Bookkept t) (hok : t.KeepsHolder op) (hst : step t op = some t') : Bookkept t' := by
  cases op with
  | add c clock pasts =>
    obtain ⟨code, hst⟩ := step_add hst
    obtain ⟨t₁, hB₁, hs, hret⟩ := addContact_last (fun _ => True) (fun _ h => h)
      (fun t past j b hB _ ha _ _ => base_splitAt hB past ha.get) hB (fun _ _ => trivial) hst
    exact bookkept_level_ret hB₁ (bookkept_splits hs hB h hok) hret
  | remove id =>
    obtain ⟨u, b, -, hb, rfl⟩ := removeContact_cases hB (step_remove hst)
    exact bookkept_setBucket h hb rfl rfl
  | touch id current =>
    obtain ⟨u, b, -, hb, rfl⟩ := touchKBucket_cases hB (step_touch hst)
    exact bookkept_setBucket h hb rfl rfl
  | clear minRange =>
    cases hst
    exact (bookkept_clear_iff hB hholder h minRange).mpr hok

/-- **The positions are right** as long as only buckets that cover the holder are split
and `Clear` finds no split. -/
theorem bookkept_of_steps {holderId : KadID} {rtK : UShort} {minRange : Digest}
    {tr : List (Op × RoutingTable)} (hholder : holderId ≤ KadID.kMaxID)
    (hmin : KadID.ofDigest minRange ≤ holderId) (hr : table.Run (new holderId rtK minRange) tr t)
    (hok : LTS.Steps KeepsHolder (new holderId rtK minRange) tr) :
    LTS.States Bookkept (new holderId rtK minRange) tr :=
  LTS.states_of_steps (I := fun t => Base t ∧ Params holderId rtK t ∧ Bookkept t)
    (fun _ hI => hI.2.2)
    (fun _ _ _ hI hok h => ⟨base_step hI.1 h, params_step hI.1 hI.2.1 h,
      bookkept_step hI.1 (hI.2.1.holderId ▸ hholder) hI.2.2 hok h⟩)
    hr ⟨base_new holderId rtK minRange, ⟨rfl, rfl⟩, (bookkept_new_iff hholder rtK minRange).mpr hmin⟩
    hok

/-! ## `Clear` before and after a split -/

/-- The condition on `Clear` alone. -/
def ClearsUnsplit (t : RoutingTable) : Op → Prop
  | .add _ _ _ => True
  | .remove _ => True
  | .touch _ _ => True
  | .clear minRange => t.kBuckets.length = 1 ∧ KadID.ofDigest minRange ≤ t.holderId

instance (t : RoutingTable) : DecidablePred t.ClearsUnsplit
  | .add _ _ _ => instDecidableTrue
  | .remove _ => instDecidableTrue
  | .touch _ _ => instDecidableTrue
  | .clear _ => inferInstanceAs (Decidable (_ ∧ _))

theorem keepsHolder_of_lt (hB : Base t) (hK : 2 < t.K.toNat) {op : Op} (h : t.ClearsUnsplit op) :
    t.KeepsHolder op := by
  cases op with
  | add c clock pasts => exact splitsOwn_of_lt hB hK pasts
  | remove id => trivial
  | touch id current => trivial
  | clear minRange => exact h

/-- `Clear` on a new table, and the split of `addAbove`. -/
def clearFirst : List Op := .clear (digestOf 8) :: addAbove

theorem clearFirst_isSome : (LTS.exec step (fresh 100 3 8) clearFirst).isSome = true := by
  decide +kernel

theorem bookkept_clearFirst :
    LTS.States Bookkept (fresh 100 3 8)
      ((LTS.exec step (fresh 100 3 8) clearFirst).get clearFirst_isSome) := by
  have hclear : LTS.Steps ClearsUnsplit (fresh 100 3 8)
      ((LTS.exec step (fresh 100 3 8) clearFirst).get clearFirst_isSome) := by decide +kernel
  have hrun := run_fresh clearFirst_isSome
  have hsteps := bookkept_of_steps (by rw [KadID.kMaxID_eq]; decide +kernel) (by decide +kernel) hrun
  have hB := base_new ⟨Rossi.ofUlong 100⟩ 3 (digestOf 8)
  rw [fresh_eq] at hrun hsteps hB
  refine hsteps (LTS.steps_of_steps (I := fun t => Base t ∧ Params ⟨Rossi.ofUlong 100⟩ 3 t) ?_ ?_
    hrun ⟨hB, ⟨rfl, rfl⟩⟩ hclear)
  · exact fun t op t' hI hop _ => keepsHolder_of_lt hI.1 (by rw [hI.2.K]; decide) hop
  · exact fun t op t' hI _ h => ⟨base_step hI.1 h, params_step hI.1 hI.2 h⟩

/-- The other way round. -/
def clearLast : List Op := addAbove ++ [.clear (digestOf 8)]

theorem clearLast_isSome : (LTS.exec step (fresh 100 3 8) clearLast).isSome = true := by
  decide +kernel

/-- Five eighths of the way to the top. -/
def upperId : KadID :=
  (KadID.kMaxIDWords.shr (fun _ => 0) 1).add (KadID.kMaxIDWords.shr (fun _ => 0) 3)

/-- With two contacts a bucket, the upper half of the space is split for its third one. -/
def splitUpper : List Op :=
  [addOp (contactAt ⟨Rossi.ofUlong 200⟩) 0, addOp (contactAt .kMaxIDWords) 0,
    addOp (contactAt (KadID.kMaxIDWords.xor ⟨Rossi.ofUlong 1⟩)) 1, addOp (contactAt upperId) 1]

theorem splitUpper_isSome : (LTS.exec step (fresh 100 2 8) splitUpper).isSome = true := by
  decide +kernel

def afterSplitUpper : RoutingTable :=
  LTS.last (fresh 100 2 8) ((LTS.exec step (fresh 100 2 8) splitUpper).get splitUpper_isSome)

/-- An `AddContact`, a `RemoveContact` or a `Clear`. -/
def NoTouch : Op → Prop
  | .touch _ _ => False
  | _ => True

instance : DecidablePred NoTouch
  | .add _ _ _ => instDecidableTrue
  | .remove _ => instDecidableTrue
  | .touch _ _ => instDecidableFalse
  | .clear _ => instDecidableTrue

/-- After `Clear` the brother's position is that of a bucket that is gone; after the split
of the upper half the holder's bucket is one at the top; and the first bucket of a new
table can start above the holder. -/
theorem bookkept_counterexample :
    (¬ ∀ (holderId : KadID) (minRange : Digest) (tr : List (Op × RoutingTable)) (t : RoutingTable),
      holderId ≤ KadID.kMaxID → table.Run (new holderId 3 minRange) tr t →
      LTS.Steps (fun _ op => NoTouch op) (new holderId 3 minRange) tr → Bookkept t) ∧
    (¬ ∀ (holderId : KadID) (minRange : Digest) (tr : List (Op × RoutingTable)) (t : RoutingTable),
      holderId ≤ KadID.kMaxID → table.Run (new holderId 2 minRange) tr t →
      LTS.Steps (fun _ op => NoTouch op) (new holderId 2 minRange) tr → Bookkept t) ∧
    ¬ ∀ (holderId : KadID) (minRange : Digest), holderId ≤ KadID.kMaxID →
      Bookkept (new holderId 3 minRange) := by
  have hholder : ∀ n : Ulong, (⟨Rossi.ofUlong n⟩ : KadID) ≤ KadID.kMaxID := by
    intro n
    rw [KadID.le_def, KadID.toNat_kMaxID, KadID.toNat, Rossi.toNat_ofUlong]
    exact (le_of_lt n.isLt).trans (by decide +kernel)
  refine ⟨fun h => ?_, fun h => ?_, fun h => ?_⟩
  · have hb := (h _ _ _ _ (hholder 100) (run_fresh clearLast_isSome) (by
      rw [fresh_eq]
      decide +kernel)).brother
    revert hb
    decide +kernel
  · obtain ⟨b, hb, hin⟩ := (h _ _ _ _ (hholder 100) (run_fresh splitUpper_isSome) (by
      rw [fresh_eq]
      decide +kernel)).own
    have hout : ∀ d ∈ afterSplitUpper.kBuckets[afterSplitUpper.bucketOfHolder.toNat]?,
        d.keyInRange afterSplitUpper.holderId = false := by decide +kernel
    have hno := hout b hb
    rw [afterSplitUpper, hin] at hno
    cases hno
  · have hmin := (bookkept_new_iff (hholder 5) 3 (digestOf 8)).mp (h _ _ (hholder 5))
    revert hmin
    decide +kernel

end Kadpeer.L3.RoutingTable
