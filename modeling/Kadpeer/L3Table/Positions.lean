import Kadpeer.L3Table.Placement

/-!
# Positions fit their types

The position of a bucket is an `unsigned short` in `bucket_upper_address_` and in
`KBucketIndex`, and a `short` in `AddContact`. A table keeps fewer than 32768
buckets as long as every split is of a bucket of four ids or more, or of the
first one where its left half is smaller (`Narrows`); each split then takes from
the budget of `splitBudget`. A bucket of three ids is split into itself and a
bucket of two, so it can be split again, in the same call (`Stuck`) or in the next.

* `numbered_of_ascending`: what the budget says about positions.
* `numbered_of_steps`: in every run whose splits are all `Narrows`, before and
  after each call and at each activation of `AddContact` within one.
* `narrows_of_placed`: in a table with every contact in its place, the splits of
  a call that returns are.
* `splits_of_stuck`: a call that does not stop has any number of buckets at hand.
* `exists_run_length`: calls that each split once leave any number of buckets.
-/
namespace Kadpeer.L3.RoutingTable

open Kadpeer.Core Kadpeer.L1 Kadpeer.L2

/-- No position loses a bit on its way: into `bucket_upper_address_`, out of
`KBucketIndex`, and through the `short` of `AddContact`. -/
structure Numbered (t : RoutingTable) : Prop where
  size : t.kBuckets.length < 32768
  upper : ∀ e ∈ t.bucketUpperAddress, ∃ i b, t.kBuckets[i]? = some b ∧ b.rangeMax = e.1 ∧
    e.2.toNat = i
  index : ∀ key ≤ KadID.kMaxID, ∃ i b u, Routes t key i b ∧ t.kBucketIndex key = .ok u ∧
    u.toNat = i ∧ asShort u = i

/-- The split of the bucket at `j` is of four ids or more, or of the first bucket and
makes its left half smaller. -/
def Narrows (t : RoutingTable) (past : Past) (j : Nat) : Prop :=
  KadID.EvenPast past ∧ ∀ b, t.kBuckets[j]? = some b →
    b.rangeMin.toNat + 3 ≤ b.rangeMax.toNat ∨
      j = 0 ∧ leftEnd b.rangeMin.toNat b.rangeMax.toNat < b.rangeMax.toNat

/-- An operation other than `Clear`, all splits of which narrow. -/
def SplitsNarrow (t : RoutingTable) : Op → Prop
  | .add c clock pasts => ∀ past rest t₁ j s, Splits clock c pasts t (past :: rest) t₁ →
      t₁.addContactLevel clock c = .ok (.split j s) → Narrows t₁ past j
  | .remove _ => True
  | .touch _ _ => True
  | .clear _ => False

/-- At every activation of an `AddContact`, whether it comes to an end or not. -/
def NumberedWithin (t : RoutingTable) : Op → Prop
  | .add c clock pasts => ∀ rest t₁, Splits clock c pasts t rest t₁ → Numbered t₁
  | _ => True

/-- What a split that narrows keeps. -/
structure Narrow (t : RoutingTable) : Prop where
  base : Base t
  ascending : Ascending t.holderId.toNat t.ends
  K : 2 < t.K.toNat

variable {t t' t₁ : RoutingTable} {c : Contact} {clock : Digest × Digest} {id : KadID} {j : Nat}
  {b : KBucket} {past : Past} {pasts rest : List Past}

theorem numbered_of_ascending (h : Narrow t) : Numbered t := by
  have hlen := h.ascending.length_le
  refine ⟨by omega, fun e he => ?_, fun key hkey => ?_⟩
  · rw [h.base.upper, mem_upperEntries_first] at he
    obtain ⟨i, b, hb, hmax, hidx, -⟩ := he
    have hi := (List.getElem?_eq_some_iff.mp hb).1
    exact ⟨i, b, hb, hmax, by rw [hidx, toNat_ofNat_position (by omega)]⟩
  · obtain ⟨i, b, hr⟩ := exists_routes h.base hkey
    have hi := hr.lt
    exact ⟨i, b, _, hr, kBucketIndex_of_routes h.base hkey hr, toNat_ofNat_position (by omega),
      asShort_ofNat (by omega)⟩

/-! ## What an operation keeps -/

theorem Narrows.lt (h : Narrows t past j) (hget : t.kBuckets[j]? = some b) :
    leftEnd b.rangeMin.toNat b.rangeMax.toNat < b.rangeMax.toNat := by
  rcases h.2 b hget with hwide | ⟨-, hlt⟩
  · unfold leftEnd
    omega
  · exact hlt

/-- Only the holder's bucket is split, and its split is paid from the budget. -/
theorem narrow_split (h : Narrow t) (hn : Narrows t past j) (ha : Accessed t id j b)
    (hsp : t.Splittable b) : Narrow (t.splitAt past j b) := by
  have hholder : b.keyInRange t.holderId = true := hsp.resolve_left (by have := h.K; omega)
  refine ⟨base_splitAt h.base past ha.get, ?_, h.K⟩
  exact ascending_splitAt h.ascending hn.1 ha.get hholder (hn.lt ha.get)
    ((hn.2 b ha.get).symm.imp_left fun h0 => h0.1)

theorem narrow_splits (hs : Splits clock c pasts t rest t₁) (h : Narrow t)
    (hn : SplitsNarrow t (.add c clock pasts)) : Narrow t₁ := by
  induction hs with
  | refl => exact h
  | @cons past pasts rest t s u t₁ j hl hsplit _ ih =>
    obtain ⟨b, ha, -, hsp, rfl⟩ := splitAt_of_level h.base hl hsplit
    refine ih (narrow_split h (hn past pasts t j s (.refl _ _) hl) ha hsp) ?_
    exact fun past' rest' t₂ k s' hs' hl' => hn past' rest' t₂ k s' (.cons hl hsplit hs') hl'

theorem narrow_of_ends (h : Narrow t) (hB : Base t') (hends : t'.ends = t.ends)
    (hholder : t'.holderId = t.holderId) (hK : t'.K = t.K) : Narrow t' :=
  ⟨hB, by rw [hends, hholder]; exact h.ascending, hK ▸ h.K⟩

theorem narrow_step {op : Op} (h : Narrow t) (hn : SplitsNarrow t op) (hst : step t op = some t') :
    Narrow t' := by
  have hB := base_step h.base hst
  have hpar := params_step h.base ⟨rfl, rfl⟩ hst
  cases op with
  | add c clock pasts =>
    obtain ⟨code, hadd⟩ := step_add hst
    obtain ⟨t₁, -, hsplits, hret⟩ := addContact_last (I := Base) (fun _ => True) (fun _ h => h)
      (fun t past j b hB _ ha _ _ => base_splitAt hB past ha.get) h.base (fun _ _ => trivial) hadd
    have h₁ := narrow_splits hsplits h hn
    have hpar' := params_level_ret h₁.base ⟨rfl, rfl⟩ hret
    refine narrow_of_ends h₁ hB ?_ hpar'.holderId hpar'.K
    rw [ends, ranges_level_ret h₁.base hret, ends]
  | remove id =>
    obtain ⟨u, b, -, hb, rfl⟩ := removeContact_cases h.base (step_remove hst)
    exact narrow_of_ends h hB (ends_setBucket hb rfl rfl) hpar.holderId hpar.K
  | touch id current =>
    obtain ⟨u, b, -, hb, rfl⟩ := touchKBucket_cases h.base (step_touch hst)
    exact narrow_of_ends h hB (ends_setBucket hb rfl rfl) hpar.holderId hpar.K
  | clear minRange => exact hn.elim

theorem numberedWithin {op : Op} (h : Narrow t) (hn : SplitsNarrow t op) : NumberedWithin t op := by
  cases op with
  | add c clock pasts => exact fun rest t₁ hs => numbered_of_ascending (narrow_splits hs h hn)
  | remove => trivial
  | touch => trivial
  | clear => trivial

theorem narrow_new (holderId : KadID) {rtK : UShort} (hK : 2 < rtK.toNat) (minRange : Digest) :
    Narrow (new holderId rtK minRange) :=
  ⟨base_new holderId rtK minRange, (placed_new holderId rtK minRange).ascending, hK⟩

/-- **In every run whose splits all narrow no position is cut**: in every state, at every
activation within a call, and within the next call, whether that returns or not. -/
theorem numbered_of_steps {holderId : KadID} {rtK : UShort} {minRange : Digest}
    {tr : List (Op × RoutingTable)} (hK : 2 < rtK.toNat)
    (hr : table.Run (new holderId rtK minRange) tr t)
    (hok : LTS.Steps SplitsNarrow (new holderId rtK minRange) tr) :
    LTS.States Numbered (new holderId rtK minRange) tr ∧
      LTS.Steps NumberedWithin (new holderId rtK minRange) tr ∧
      ∀ op, SplitsNarrow t op → NumberedWithin t op := by
  have hnew := narrow_new holderId hK minRange
  have hstep : ∀ t op t', Narrow t → SplitsNarrow t op → table.step t op t' → Narrow t' :=
    fun _ _ _ h hn hst => narrow_step h hn hst
  have hwithin : ∀ t op t', Narrow t → SplitsNarrow t op → table.step t op t' →
      NumberedWithin t op := fun _ _ _ h hn _ => numberedWithin h hn
  exact ⟨LTS.states_of_steps (fun _ h => numbered_of_ascending h) hstep hr hnew hok,
    LTS.steps_of_steps hwithin hstep hr hnew hok,
    fun op hop => numberedWithin (LTS.inv_of_steps hstep hr hnew hok) hop⟩

/-! ## Contacts in their places -/

/-- In a table with every contact in its place, the splits of a call that is not in the
trap. -/
theorem narrows_of_placed (hp : Placed t) (hK : 2 < t.K.toNat) (hid : c.nodeId ≤ KadID.kMaxID)
    (hrange : InRange t c.nodeId) (hns : ¬ t.Stuck c.nodeId)
    (hev : ∀ past ∈ pasts, KadID.EvenPast past) : SplitsNarrow t (.add c clock pasts) := by
  intro past rest t₁ j s hs hl
  generalize hrest : past :: rest = rest' at hs
  induction hs with
  | refl pasts t =>
    subst hrest
    obtain ⟨-, b, ha, hf, hsp⟩ := level_split hp.live.base hl
    refine ⟨hev past List.mem_cons_self, fun d hd => ?_⟩
    rw [ha.get, Option.some.injEq] at hd
    subst hd
    have hlt := leftEnd_lt hp hK hid ha hf hsp (hrange j b ha hf hsp) hns
    exact (wide_of_full hp hK ha.get hf).symm.imp_right fun h0 => ⟨h0, hlt⟩
  | @cons past' pasts rest' t s' u t₁ k hl' hsplit _ ih =>
    obtain ⟨b, ha, hf, hsp, rfl⟩ := splitAt_of_level hp.live.base hl' hsplit
    have hpast := hev past' List.mem_cons_self
    have hrange' := hrange k b ha hf hsp
    exact ih (placed_splitAt hp hK hpast hid ha hf hsp hrange' hns) hK
      (inRange_splitAt hp.live.base hid past' ha hrange')
      (fun hs => hns (stuck_of_splitAt hp.live (by omega) hpast hid ha hf hsp hs))
      (fun q hq => hev q (List.mem_cons_of_mem _ hq)) hl hrest

/-- So the runs that keep every contact findable also keep positions uncut. -/
theorem splitsNarrow_of_inRange {holderId : KadID} {rtK : UShort} {minRange : Digest}
    {tr : List (Op × RoutingTable)} (hK : 2 < rtK.toNat)
    (hr : table.Run (new holderId rtK minRange) tr t)
    (hok : LTS.Steps (fun t op => Halving op ∧ SplitsInRange t op) (new holderId rtK minRange) tr) :
    LTS.Steps SplitsNarrow (new holderId rtK minRange) tr := by
  have hnarrow : ∀ t op t', Placed t ∧ Params holderId rtK t → Halving op ∧ SplitsInRange t op →
      table.step t op t' → SplitsNarrow t op := by
    intro t op t' hI hop hst
    cases op with
    | add c clock pasts =>
      have hK' : 2 < t.K.toNat := hI.2.K ▸ hK
      rcases lt_or_ge KadID.kMaxID c.nodeId with hgt | hid
      · -- the position 65535 reads as negative
        intro past rest t₁ j s hs hl
        have hret : t.addContactLevel clock c = .ok (.ret 3 t) :=
          addContactLevel_negative (kBucketIndex_of_gt hI.1.live.base hgt) (by decide)
        cases hs with
        | refl =>
          rw [hret] at hl
          cases hl
        | cons hl' =>
          rw [hret] at hl'
          cases hl'
      · refine narrows_of_placed hI.1 hK' hid hop.2 (fun hs => ?_) hop.1
        obtain ⟨code, hadd⟩ := step_add hst
        rw [addContact_of_stuck hI.1.live hid hs hop.1] at hadd
        cases hadd
    | remove => trivial
    | touch => trivial
    | clear => exact hop.1.elim
  exact LTS.steps_of_steps hnarrow
    (fun _ _ _ hI hop h => ⟨placed_step hI.1 (hI.2.K ▸ hK) hop.1 hop.2 h,
      params_step hI.1.live.base hI.2 h⟩)
    hr ⟨placed_new holderId rtK minRange, ⟨rfl, rfl⟩⟩ hok

/-- The run of `addAbove`, which splits the only bucket, at ids far apart. -/
theorem numbered_addAbove : LTS.States Numbered (fresh 100 3 8)
    ((LTS.exec step (fresh 100 3 8) addAbove).get addAbove_isSome) := by
  have hnumbered := numbered_of_steps (by decide) (run_fresh addAbove_isSome)
  have hnarrow := splitsNarrow_of_inRange (by decide) (run_fresh addAbove_isSome)
  rw [fresh_eq] at hnumbered hnarrow
  exact (hnumbered (hnarrow steps_addAbove)).1

/-! ## Splits that do not narrow -/

/-- **In the trap a call comes to any number of buckets.** -/
theorem splits_of_stuck (hl : Live t) (hid : c.nodeId ≤ KadID.kMaxID) (hs : t.Stuck c.nodeId)
    (hev : KadID.EvenPast past) (n : Nat) :
    ∃ t₁, Splits clock c (List.replicate n past) t [] t₁ ∧
      t₁.kBuckets.length = t.kBuckets.length + n := by
  obtain ⟨j, b, u, ha, hs⟩ := hs
  induction n generalizing t b with
  | zero => exact ⟨t, .refl _ _, rfl⟩
  | succ n ih =>
    have hok := hl.base.ok b (List.mem_of_getElem? ha.get)
    obtain ⟨hgoes, hs'⟩ := stuckAt_splitAt hl hev ha hs
    obtain ⟨t₁, hsplits, hlen⟩ := ih (live_splitAt hl hev ha) (leftHalf past b)
      (accessed_splitAt_left hl.base hid ha hgoes) hs'
    refine ⟨t₁, ?_, ?_⟩
    · rw [List.replicate_succ]
      exact .cons (addContactLevel_split ha hs.full hs.split)
        (splitKbucket_eq past ha.get hok.1 hok.2) hsplits
    · rw [hlen, length_splitAt past (List.getElem?_eq_some_iff.mp ha.get).1]
      omega

/-- A new table that holds `cs` in its only bucket. -/
def oneBucket (holderId : KadID) (rtK : UShort) (minRange : Digest) (cs : List Contact) : RoutingTable :=
  { new holderId rtK minRange with
    kBuckets := [{ KBucket.new (.ofDigest minRange) .kMaxID rtK with contacts := cs }] }

section

variable {holderId : KadID} {rtK : UShort} {minRange : Digest} {cs : List Contact}

theorem accessed_oneBucket (hB : Base (oneBucket holderId rtK minRange cs)) (hid : id ≤ KadID.kMaxID) :
    Accessed (oneBucket holderId rtK minRange cs) id 0
      { KBucket.new (.ofDigest minRange) .kMaxID rtK with contacts := cs } := by
  refine ⟨kBucketIndex_of_routes hB hid ⟨rfl, hid, fun d hd _ => ?_, fun k d _ hk => ?_⟩,
    by decide, rfl⟩
  · rw [List.mem_singleton.mp hd]
  · exact absurd hk (Nat.not_lt_zero k)

theorem base_oneBucket (hlen : cs.length ≤ rtK.toNat) (hnd : (cs.map Contact.nodeId).Nodup) :
    Base (oneBucket holderId rtK minRange cs) :=
  base_single _ rfl rfl rfl ⟨hlen, hnd⟩ rfl rfl

/-- Contacts with different ids, added without a split as long as there is room. -/
theorem run_oneBucket (clock : Digest × Digest) :
    ∀ cs : List Contact, cs.length ≤ rtK.toNat → (cs.map Contact.nodeId).Nodup →
      (∀ c ∈ cs, c.nodeId ≤ KadID.kMaxID) →
      ∃ tr, table.Run (new holderId rtK minRange) tr (oneBucket holderId rtK minRange cs) ∧
        LTS.Steps (fun _ op => Halving op ∧ AddsUpTo KadID.kMaxID op) (new holderId rtK minRange) tr
  | [], _, _, _ => ⟨[], .nil _, trivial⟩
  | c :: cs, hlen, hnd, hle => by
    rw [List.map_cons, List.nodup_cons] at hnd
    rw [List.length_cons] at hlen
    obtain ⟨tr, hr, hok⟩ := run_oneBucket clock cs (by omega) hnd.2
      fun d hd => hle d (List.mem_cons_of_mem _ hd)
    have hB : Base (oneBucket holderId rtK minRange cs) := base_oneBucket (by omega) hnd.2
    have hid := hle c List.mem_cons_self
    have hroom : ¬ ({ KBucket.new (.ofDigest minRange) .kMaxID rtK with contacts := cs } :
        KBucket).FullWithout c.nodeId := by
      intro hf
      have hfull : cs.length = rtK.toNat := hf.1
      omega
    have hlev : addContactLevel clock c _ = _ :=
      addContactLevel_succeed hB (accessed_oneBucket hB hid) hroom
    have hfilter : cs.filter (fun d => d.nodeId ≠ c.nodeId) = cs := by
      refine List.filter_eq_self.mpr fun d hd => ?_
      simpa using fun he => hnd.1 (List.mem_map.mpr ⟨d, hd, he⟩)
    have hstep : step (oneBucket holderId rtK minRange cs) (.add c clock []) =
        some (oneBucket holderId rtK minRange (c :: cs)) := by
      rw [step, addContact_of_ret hlev, pushed, hfilter]
      rfl
    refine ⟨_, hr.snoc hstep, LTS.Steps.snoc hr hok ⟨?_, hid⟩⟩
    intro past hpast
    cases hpast

/-- The two ids at the lower end of a new bucket. -/
def lowestTwo (minRange : Digest) : List Contact :=
  [contactAt ((KadID.ofDigest minRange).add ⟨Rossi.ofUlong 1⟩), contactAt (.ofDigest minRange)]

theorem toNat_lowestTwo : (lowestTwo minRange).map (·.nodeId.toNat) =
    [(KadID.ofDigest minRange).toNat + 1, (KadID.ofDigest minRange).toNat] := by
  have hone : ((KadID.ofDigest minRange).add ⟨Rossi.ofUlong 1⟩).toNat =
      (KadID.ofDigest minRange).toNat + 1 := by
    rw [KadID.toNat_add]
    exact congrArg _ (Rossi.toNat_ofUlong 1)
  simp only [lowestTwo, List.map_cons, List.map_nil, contactAt, hone]

theorem mem_lowestTwo {d : Contact} (hd : d ∈ lowestTwo minRange) :
    (KadID.ofDigest minRange).toNat ≤ d.nodeId.toNat ∧
      d.nodeId.toNat ≤ (KadID.ofDigest minRange).toNat + 1 := by
  have hmem : d.nodeId.toNat ∈ (lowestTwo minRange).map (·.nodeId.toNat) :=
    List.mem_map_of_mem hd
  rw [toNat_lowestTwo, List.mem_pair] at hmem
  omega

/-- The holder is the lower end of the first bucket, which has the smallest upper end and
is full with the lowest two ids and `x`, an id below it. -/
structure Refilled (minRange : Digest) (x : KadID) (t : RoutingTable) (b : KBucket) : Prop where
  base : Base t
  params : Params (.ofDigest minRange) 3 t
  outside : x < .ofDigest minRange
  get : t.kBuckets[0]? = some b
  rangeMin : b.rangeMin = .ofDigest minRange
  wide : (KadID.ofDigest minRange).toNat + 1 ≤ b.rangeMax.toNat
  least : ∀ d ∈ t.kBuckets, b.rangeMax ≤ d.rangeMax
  contacts : b.contacts = contactAt x :: lowestTwo minRange

theorem accessed_first (hB : Base t) (hb : t.kBuckets[0]? = some b)
    (hleast : ∀ d ∈ t.kBuckets, b.rangeMax ≤ d.rangeMax) (hid : id ≤ b.rangeMax) :
    Accessed t id 0 b := by
  obtain ⟨top, htop, hmax⟩ := hB.top
  exact ⟨kBucketIndex_of_routes hB (hid.trans (hmax ▸ hleast top htop))
    ⟨hb, hid, fun d hd _ => hleast d hd, fun k _ _ hk => absurd hk (Nat.not_lt_zero k)⟩, by decide, hb⟩

section

variable {x y : KadID}

theorem ne_of_mem_lowestTwo (hy : y < .ofDigest minRange) {d : Contact} (hd : d ∈ lowestTwo minRange) :
    d.nodeId ≠ y := by
  rintro rfl
  exact absurd (mem_lowestTwo hd).1 (not_le.mpr (KadID.lt_def.mp hy))

theorem Refilled.K_eq (h : Refilled minRange x t b) : b.K = 3 :=
  (h.base.ok b (List.mem_of_getElem? h.get)).2.trans h.params.K

/-- Another id below the range makes the call split the bucket. -/
theorem Refilled.addContactLevel_eq (h : Refilled minRange x t b) (hy : y < .ofDigest minRange)
    (hne : x ≠ y) (clock : Digest × Digest) :
    t.addContactLevel clock (contactAt y) = .ok (.split 0 t) := by
  have hyb : y ≤ b.rangeMax := by
    have := h.wide
    rw [KadID.lt_def] at hy
    rw [KadID.le_def]
    omega
  refine addContactLevel_split (accessed_first h.base h.get h.least hyb) ⟨?_, ?_⟩ (.inr ?_)
  · rw [h.contacts, h.K_eq]
    rfl
  · rintro ⟨d, hd, hid⟩
    rw [h.contacts, List.mem_cons] at hd
    rcases hd with rfl | hd
    · exact hne hid
    · exact ne_of_mem_lowestTwo hy hd hid
  · rw [h.params.holderId, KBucket.keyInRange_iff, h.rangeMin, KadID.le_def, KadID.le_def]
    exact ⟨le_rfl, (Nat.le_succ _).trans h.wide⟩

/-- The left half has both ids in its range again, and not the contact below. -/
theorem Refilled.leftHalf (h : Refilled minRange x t b) (hev : KadID.EvenPast past) :
    (KadID.ofDigest minRange).toNat + 1 ≤ (leftHalf past b).rangeMax.toNat ∧
      (leftHalf past b).rangeMax ≤ b.rangeMax ∧
      (leftHalf past b).contacts = lowestTwo minRange := by
  have hwide := h.wide
  have hend := toNat_leftHalf_rangeMax hev b
  rw [h.rangeMin, leftEnd] at hend
  have hin : ∀ id, (KBucket.new b.rangeMin (KadID.splitRange past b.rangeMin b.rangeMax).1
      b.K).keyInRange id = true ↔ (KadID.ofDigest minRange).toNat ≤ id.toNat ∧
        id.toNat ≤ (RoutingTable.leftHalf past b).rangeMax.toNat := by
    intro id
    rw [KBucket.keyInRange_iff, ← KadID.le_def, ← KadID.le_def, ← h.rangeMin]
    rfl
  refine ⟨by omega, by rw [KadID.le_def]; omega, ?_⟩
  show b.contacts.filter _ = _
  rw [h.contacts, List.filter_cons_of_neg, List.filter_eq_self]
  · intro d hd
    have hd := mem_lowestTwo hd
    exact (hin _).mpr ⟨hd.1, by omega⟩
  · intro hx
    exact absurd ((hin x).mp hx).1 (not_le.mpr (KadID.lt_def.mp h.outside))

/-- **Another id below the range splits the bucket once**: the left half keeps the two
contacts in range and takes the new one. -/
theorem refilled_step (h : Refilled minRange x t b) (hy : y < .ofDigest minRange) (hne : x ≠ y)
    (clock : Digest × Digest) :
    ∃ t' b', step t (.add (contactAt y) clock [(0, 0)]) = some t' ∧ Refilled minRange y t' b' ∧
      t'.kBuckets.length = t.kBuckets.length + 1 := by
  have hlen := (List.getElem?_eq_some_iff.mp h.get).1
  obtain ⟨d, ha, -, -, -, hadd⟩ :=
    addContact_cons_splitAt h.base (h.addContactLevel_eq hy hne clock) (0, 0) []
  obtain rfl : d = b := Option.some.inj (ha.get.symm.trans h.get)
  have hev : KadID.EvenPast (0, 0) := by decide
  obtain ⟨hwide, hle, hcontacts⟩ := h.leftHalf hev
  -- the left half is found first again, and has room
  have hBu := base_splitAt h.base (0, 0) h.get
  have hget : (t.splitAt (0, 0) 0 d).kBuckets[0]? = some (leftHalf (0, 0) d) := by
    rw [getElem?_splitAt _ hlen, if_neg (Nat.lt_irrefl 0), if_pos rfl]
  have hleast : ∀ e ∈ (t.splitAt (0, 0) 0 d).kBuckets, (leftHalf (0, 0) d).rangeMax ≤ e.rangeMax := by
    intro e he
    rcases mem_splitAt he with rfl | rfl | he
    · exact le_rfl
    · exact hle
    · exact hle.trans (h.least e he)
  have hyb : y ≤ (leftHalf (0, 0) d).rangeMax := by
    rw [KadID.lt_def] at hy
    rw [KadID.le_def]
    omega
  have hroom : ¬ (leftHalf (0, 0) d).FullWithout (contactAt y).nodeId := by
    rintro ⟨hsize, -⟩
    rw [hcontacts, show (leftHalf (0, 0) d).K = d.K from rfl, h.K_eq] at hsize
    exact absurd (show 2 = 3 from hsize) (by decide)
  have hstep : step t (.add (contactAt y) clock [(0, 0)]) =
      some ((t.splitAt (0, 0) 0 d).pushed 0 (leftHalf (0, 0) d) (contactAt y)) := by
    have hau : Accessed (t.splitAt (0, 0) 0 d) (contactAt y).nodeId 0 (leftHalf (0, 0) d) :=
      accessed_first hBu hget hleast hyb
    rw [step, hadd, addContact_of_ret (addContactLevel_succeed hBu hau hroom)]
  have hkept : (lowestTwo minRange).filter (fun e => e.nodeId ≠ (contactAt y).nodeId) =
      lowestTwo minRange :=
    List.filter_eq_self.mpr fun e he => decide_eq_true (ne_of_mem_lowestTwo hy he)
  refine ⟨_, { leftHalf (0, 0) d with contacts := contactAt y :: lowestTwo minRange }, hstep, ?_,
    List.length_set.trans (length_splitAt _ hlen)⟩
  constructor
  · exact base_step h.base hstep
  · exact params_step h.base h.params hstep
  · exact hy
  · rw [pushed, hcontacts, hkept]
    exact List.getElem?_set_self (by rw [length_splitAt _ hlen]; omega)
  · exact h.rangeMin
  · exact hwide
  · intro e he
    rcases List.mem_or_eq_of_mem_set he with he | rfl
    · exact hleast e he
    · exact le_rfl
  · rfl

end

/-- The new table that holds those two ids and 0. -/
theorem refilled_oneBucket (hlow : 2 ≤ (KadID.ofDigest minRange).toNat) (clock : Digest × Digest) :
    ∃ tr t b, table.Run (new (.ofDigest minRange) 3 minRange) tr t ∧
      LTS.Steps (fun _ op => Halving op ∧ AddsUpTo KadID.kMaxID op)
        (new (.ofDigest minRange) 3 minRange) tr ∧
      Refilled minRange .kMinID t b ∧ t.kBuckets.length = 1 := by
  have htop := KadID.toNat_ofDigest_lt minRange
  have hmax : 2 ^ 160 + 2 ≤ KadID.kMaxID.toNat := by
    rw [KadID.toNat_kMaxID]
    decide +kernel
  have hmin := KadID.toNat_kMinID
  have hle : ∀ d ∈ contactAt .kMinID :: lowestTwo minRange, d.nodeId ≤ KadID.kMaxID := by
    intro d hd
    rw [KadID.le_def]
    rcases List.mem_cons.mp hd with rfl | hd
    · show KadID.kMinID.toNat ≤ _
      omega
    · have := mem_lowestTwo hd
      omega
  have hnodup : ((contactAt .kMinID :: lowestTwo minRange).map Contact.nodeId).Nodup := by
    refine List.Nodup.of_map KadID.toNat ?_
    show (KadID.kMinID.toNat :: ((lowestTwo minRange).map Contact.nodeId).map KadID.toNat).Nodup
    rw [List.map_map, show KadID.toNat ∘ Contact.nodeId = (·.nodeId.toNat) from rfl, toNat_lowestTwo]
    simp only [List.nodup_cons, List.mem_cons, List.not_mem_nil, or_false, not_false_eq_true,
      List.nodup_nil, and_true]
    omega
  have hlen : (contactAt .kMinID :: lowestTwo minRange).length ≤ (3 : UShort).toNat := le_rfl
  obtain ⟨tr, hr, hok⟩ := run_oneBucket clock _ hlen hnodup hle
  refine ⟨tr, _, _, hr, hok, ⟨base_oneBucket hlen hnodup, ⟨rfl, rfl⟩, ?_, rfl, rfl, ?_, ?_, rfl⟩, rfl⟩
  · rw [KadID.lt_def]
    omega
  · show _ ≤ KadID.kMaxID.toNat
    omega
  · intro d hd
    rw [List.mem_singleton.mp hd]

/-- **A table gets any number of buckets from calls that each split once.** -/
theorem exists_run_length (hlow : 2 ≤ (KadID.ofDigest minRange).toNat) (clock : Digest × Digest) (n : Nat) :
    ∃ tr t x b, table.Run (new (.ofDigest minRange) 3 minRange) tr t ∧
      LTS.Steps (fun _ op => Halving op ∧ AddsUpTo KadID.kMaxID op)
        (new (.ofDigest minRange) 3 minRange) tr ∧
      Refilled minRange x t b ∧ t.kBuckets.length = n + 1 := by
  induction n with
  | zero =>
    obtain ⟨tr, t, b, hr, hok, h⟩ := refilled_oneBucket hlow clock
    exact ⟨tr, t, _, b, hr, hok, h⟩
  | succ n ih =>
    obtain ⟨tr, t, x, b, hr, hok, h, hlen⟩ := ih
    have hone : (⟨Rossi.ofUlong 1⟩ : KadID).toNat = 1 := Rossi.toNat_ofUlong 1
    -- 0 and 1 in turn
    obtain ⟨y, hy, hne⟩ : ∃ y : KadID, y < .ofDigest minRange ∧ x ≠ y := by
      by_cases hx : x = .kMinID
      · refine ⟨⟨Rossi.ofUlong 1⟩, by rw [KadID.lt_def]; omega, ?_⟩
        rw [hx, Ne, KadID.eq_def, hone, KadID.toNat_kMinID]
        decide
      · refine ⟨.kMinID, ?_, hx⟩
        rw [KadID.lt_def, KadID.toNat_kMinID]
        omega
    obtain ⟨t', b', hstep, h', hlen'⟩ := refilled_step h hy hne clock
    refine ⟨_, t', y, b', hr.snoc hstep, LTS.Steps.snoc hr hok ⟨?_, ?_⟩, h', by omega⟩
    · intro past hpast
      rw [List.mem_singleton.mp hpast]
      decide
    · exact (hy.trans (KadID.ofDigest_lt_kMaxID minRange)).le

/-- The holder is the id 8, and 0 and 1 are added in turn until there are 32768 buckets. -/
theorem numbered_counterexample : ¬ ∀ (holderId : KadID) (rtK : UShort) (minRange : Digest)
    (tr : List (Op × RoutingTable)) (t : RoutingTable), 2 < rtK.toNat →
    table.Run (new holderId rtK minRange) tr t →
    LTS.Steps (fun _ op => Halving op ∧ AddsUpTo KadID.kMaxID op) (new holderId rtK minRange) tr →
    Numbered t := by
  intro h
  obtain ⟨tr, t, x, b, hr, hok, -, hlen⟩ := @exists_run_length (digestOf 8) (by decide +kernel) (0, 0) 32767
  have hsize := (h _ _ _ tr t (by decide) hr hok).size
  omega

end

end Kadpeer.L3.RoutingTable
