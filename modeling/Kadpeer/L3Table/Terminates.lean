import Kadpeer.L3Table.Halving

/-!
# Whether `AddContact` returns

`AddContact` splits the bucket the contact is routed to as long as it is full and
to be split. Halving does not always make a range smaller: the left half of
`[a, a + 2]` is `[a, a + 2]` for an even `a`, that of `[a, a + 1]` is itself. When
a full bucket's contacts, the new one and, for `K_ > 2`, the holder all lie in such
a range, each split hands them all to the left half and `AddContact` reaches the
same contacts again (`StuckAt`).

* `addContact_of_stuck`: then no number of splits is enough.
* `returns_of_not_stuck`: otherwise the call returns. The measure is the room
  above the position, then the upper end of the range.
* `returns_iff`: for every table that a run without `Clear` reaches, `K_ ≥ 1`.
-/
namespace Kadpeer.L3.RoutingTable

open Kadpeer.Core Kadpeer.L1 Kadpeer.L2

/-- The bucket that `id` reaches is full and to be split, and it, `id` and the
holder stay together in every left half: `u` is the end of a range `[a, u]` that
is its own left half. -/
structure StuckAt (t : RoutingTable) (id : KadID) (b : KBucket) (u : Nat) : Prop where
  full : b.FullWithout id
  split : t.Splittable b
  fixed : leftEnd b.rangeMin.toNat u = u
  below : u ≤ leftEnd b.rangeMin.toNat b.rangeMax.toNat
  key : id.toNat ≤ u
  stored : ∀ c ∈ b.contacts, b.rangeMin ≤ c.nodeId ∧ c.nodeId.toNat ≤ u
  least : ∀ d ∈ t.kBuckets, id ≤ d.rangeMax →
    leftEnd b.rangeMin.toNat b.rangeMax.toNat ≤ d.rangeMax.toNat
  holder : t.K.toNat ≤ 2 ∨ t.holderId.toNat ≤ u

def Stuck (t : RoutingTable) (id : KadID) : Prop := ∃ j b u, Accessed t id j b ∧ t.StuckAt id b u

/-- With words `pasts` past the end at the successive splits. -/
def Returns (clock : Digest × Digest) (c : Contact) (pasts : Nat → Past) (t : RoutingTable) : Prop :=
  ∃ n code t', addContact clock c ((List.range n).map pasts) t = .ok (some (code, t', []))

variable {t t' : RoutingTable} {c : Contact} {clock : Digest × Digest} {id : KadID} {j u : Nat}
  {b : KBucket} {past : Past} {pasts : Nat → Past}

/-! ## Halving at narrow ranges -/

theorem leftEnd_le {a b b' : Nat} (h : b ≤ b') : leftEnd a b ≤ leftEnd a b' := by
  unfold leftEnd
  omega

/-- After one split the upper end does not grow any more. -/
theorem leftEnd_leftEnd_le {a b : Nat} (h : a ≤ b) : leftEnd a (leftEnd a b) ≤ leftEnd a b := by
  unfold leftEnd
  omega

/-- A range that its left half does not make smaller has a left half that is its
own. -/
theorem leftEnd_fixed {a b : Nat} (h : a ≤ b) (hge : b ≤ leftEnd a b) :
    leftEnd a (leftEnd a b) = leftEnd a b := by
  unfold leftEnd at *
  omega

/-! ## One split -/

theorem leftHalf_contacts (h : ∀ c ∈ b.contacts, b.rangeMin ≤ c.nodeId ∧
    c.nodeId ≤ (leftHalf past b).rangeMax) : (leftHalf past b).contacts = b.contacts :=
  List.filter_eq_self.mpr fun c hc => KBucket.keyInRange_iff.mpr (h c hc)

/-- A left half of a full bucket that is full has all the contacts. -/
theorem mem_of_leftHalf_full (hf : b.FullWithout id) (hl : (leftHalf past b).FullWithout id) :
    ∀ c ∈ b.contacts, c ∈ (leftHalf past b).contacts := by
  have hlen : (leftHalf past b).contacts.length = b.contacts.length := hl.1.trans hf.1.symm
  intro c hc
  exact List.mem_filter.mpr ⟨hc, List.length_filter_eq_length_iff.mp hlen c hc⟩

theorem stuckAt_splitAt (hl : Live t) (hp : KadID.EvenPast past) (ha : Accessed t id j b)
    (hs : t.StuckAt id b u) :
    GoesLeft t past b id ∧ (t.splitAt past j b).StuckAt id (leftHalf past b) u := by
  have hend := toNat_leftHalf_rangeMax hp b
  have hb := KadID.le_def.mp (hl.ordered b (List.mem_of_getElem? ha.get))
  have hbelow := hs.below
  have hle : ∀ {x : KadID}, x.toNat ≤ u → x ≤ (leftHalf past b).rangeMax := by
    intro x hx
    rw [KadID.le_def, hend]
    exact hx.trans hbelow
  have hcontacts : (leftHalf past b).contacts = b.contacts :=
    leftHalf_contacts fun c hc => ⟨(hs.stored c hc).1, hle (hs.stored c hc).2⟩
  have hgoes : GoesLeft t past b id := by
    refine ⟨hle hs.key, fun d hd hid => ?_⟩
    rw [KadID.le_def, hend]
    exact hs.least d hd hid
  refine ⟨hgoes, ?_, ?_, hs.fixed, ?_, hs.key, ?_, ?_, hs.holder⟩
  · refine ⟨?_, fun ⟨c, hc, he⟩ => hs.full.2 ⟨c, hcontacts ▸ hc, he⟩⟩
    rw [hcontacts]
    exact hs.full.1
  · rcases hs.split with hK | hin
    · exact .inl hK
    · rcases hs.holder with hK | hu
      · exact .inl hK
      · exact .inr (KBucket.keyInRange_iff.mpr ⟨(KBucket.keyInRange_iff.mp hin).1, hle hu⟩)
  · rw [leftHalf_rangeMin, hend, ← hs.fixed]
    exact leftEnd_le hbelow
  · intro c hc
    exact hs.stored c (hcontacts ▸ hc)
  · intro d hd hid
    rw [leftHalf_rangeMin, hend]
    refine (leftEnd_leftEnd_le hb).trans ?_
    rcases mem_splitAt hd with h | h | h
    · rw [h, hend]
    · rw [h, rightHalf_rangeMax] at hid ⊢
      exact hs.least b (List.mem_of_getElem? ha.get) hid
    · exact hs.least d h hid

/-- A right half is not stuck: its contacts lie above the id or below the range. -/
theorem not_stuckAt_rightHalf (hl : Live t) (hK : 1 ≤ t.K.toNat) (hp : KadID.EvenPast past)
    (ha : Accessed t id j b) (hf : b.FullWithout id) (h : ¬ GoesLeft t past b id) :
    ¬ (t.splitAt past j b).StuckAt id (rightHalf past b) u := by
  intro hs
  have hend := toNat_leftHalf_rangeMax hp b
  have hmid := toNat_rightHalf_rangeMin past b
  have hb := KadID.le_def.mp (hl.ordered b (List.mem_of_getElem? ha.get))
  have hfix := hs.fixed
  have hbelow := hs.below
  have hid := hs.key
  rw [rightHalf_rangeMax] at hbelow
  -- the left half would take the id if its upper end were not above `u`
  have hgoes : (leftHalf past b).rangeMax.toNat ≤ u → ¬ id.toNat ≤ (leftHalf past b).rangeMax.toNat := by
    intro hu hle
    refine h ⟨KadID.le_def.mpr hle, fun d hd hk => ?_⟩
    rcases mem_splitAt_of_ne past ha.get hd with rfl | hd'
    · have := hs.least _ (rightHalf_mem_splitAt past t j d) hk
      rw [rightHalf_rangeMax] at this
      exact KadID.le_def.mpr (hu.trans (hbelow.trans this))
    · have := hs.least d hd' hk
      rw [rightHalf_rangeMax] at this
      exact KadID.le_def.mpr (hu.trans (hbelow.trans this))
  obtain ⟨c, hc⟩ : ∃ c, c ∈ (rightHalf past b).contacts := by
    refine List.exists_mem_of_length_pos ?_
    rw [hs.full.1]
    show 0 < b.K.toNat
    have := (hl.base.ok b (List.mem_of_getElem? ha.get)).2
    rw [this]
    exact hK
  obtain ⟨hcm, hcu⟩ := hs.stored c hc
  have hcid : c.nodeId.toNat ≠ id.toNat := fun he => hs.full.2 ⟨c, hc, KadID.toNat_inj he⟩
  have hout := (mem_rightHalf.mp hc).2
  rw [KadID.le_def, KadID.le_def] at hout
  rw [KadID.le_def] at hcm
  clear hs h ha hf hl hc
  unfold leftEnd at *
  omega

/-- A split does not lead into the trap. -/
theorem stuck_of_splitAt (hl : Live t) (hK : 1 ≤ t.K.toNat) (hp : KadID.EvenPast past)
    (hid : id ≤ KadID.kMaxID) (ha : Accessed t id j b) (hf : b.FullWithout id)
    (hsp : t.Splittable b) (hs : (t.splitAt past j b).Stuck id) : t.Stuck id := by
  obtain ⟨k, d, u, hd, hs⟩ := hs
  rcases accessed_splitAt hl.base hid ha hd with ⟨hgoes, rfl, rfl⟩ | ⟨hgoes, rfl, rfl⟩
  · have hend := toNat_leftHalf_rangeMax hp b
    have hb := KadID.le_def.mp (hl.ordered b (List.mem_of_getElem? ha.get))
    have hbelow := hs.below
    rw [leftHalf_rangeMin, hend] at hbelow
    refine ⟨k, b, u, ha, hf, hsp, hs.fixed, hbelow.trans (leftEnd_leftEnd_le hb), hs.key, ?_, ?_,
      hs.holder⟩
    · exact fun c hc => hs.stored c (mem_of_leftHalf_full hf hs.full c hc)
    · intro e he hk
      rw [← hend]
      exact KadID.le_def.mp (hgoes.2 e he hk)
  · exact absurd hs (not_stuckAt_rightHalf hl hK hp ha hf hgoes)

/-- When the left half is no smaller, the next activation finds room, does not
split, or is in the trap. -/
theorem stuck_of_leftHalf (hl : Live t) (hp : KadID.EvenPast past) (ha : Accessed t id j b)
    (hf : b.FullWithout id) (hsp : t.Splittable b) (hgoes : GoesLeft t past b id)
    (hge : b.rangeMax.toNat ≤ leftEnd b.rangeMin.toNat b.rangeMax.toNat)
    (hf' : (leftHalf past b).FullWithout id) (hsp' : t.Splittable (leftHalf past b)) :
    t.Stuck id := by
  have hend := toNat_leftHalf_rangeMax hp b
  have hb := KadID.le_def.mp (hl.ordered b (List.mem_of_getElem? ha.get))
  refine ⟨j, b, leftEnd b.rangeMin.toNat b.rangeMax.toNat, ha, hf, hsp, leftEnd_fixed hb hge,
    le_refl _, ?_, ?_, ?_, ?_⟩
  · rw [← hend]
    exact KadID.le_def.mp hgoes.1
  · intro c hc
    have hin := mem_leftHalf.mp (mem_of_leftHalf_full hf hf' c hc)
    rw [← hend]
    exact ⟨hin.2.1, KadID.le_def.mp hin.2.2⟩
  · intro d hd hk
    rw [← hend]
    exact KadID.le_def.mp (hgoes.2 d hd hk)
  · rcases hsp' with hK | hin
    · exact .inl hK
    · rw [← hend]
      exact .inr (KadID.le_def.mp (KBucket.keyInRange_iff.mp hin).2)

/-! ## Whole calls -/

/-- **No number of splits is enough.** -/
theorem addContact_of_stuck (hl : Live t) (hid : c.nodeId ≤ KadID.kMaxID) (hs : t.Stuck c.nodeId)
    {pasts : List Past} (hp : ∀ past ∈ pasts, KadID.EvenPast past) :
    addContact clock c pasts t = .ok none := by
  obtain ⟨j, b, u, ha, hs⟩ := hs
  induction pasts generalizing t b with
  | nil => exact addContact_nil_of_split (addContactLevel_split ha hs.full hs.split)
  | cons past pasts ih =>
    have hlev : t.addContactLevel clock c = .ok (.split j t) :=
      addContactLevel_split ha hs.full hs.split
    obtain ⟨b', ha', -, -, -, heq⟩ := addContact_cons_splitAt hl.base hlev past pasts
    rw [(ha.unique ha').2] at heq
    have hp' := hp past List.mem_cons_self
    obtain ⟨hgoes, hs'⟩ := stuckAt_splitAt hl hp' ha hs
    rw [heq]
    exact ih (live_splitAt hl hp' ha) (fun q hq => hp q (List.mem_cons_of_mem _ hq))
      (leftHalf past b) (accessed_splitAt_left hl.base hid ha hgoes) hs'

theorem returns_of_ret {code : Int} (h : t.addContactLevel clock c = .ok (.ret code t')) :
    Returns clock c pasts t := ⟨0, code, t', addContact_of_ret h []⟩

theorem returns_of_splitAt (hB : Base t) (ha : Accessed t c.nodeId j b)
    (hf : b.FullWithout c.nodeId) (hsp : t.Splittable b)
    (h : Returns clock c (fun i => pasts (i + 1)) (t.splitAt (pasts 0) j b)) :
    Returns clock c pasts t := by
  obtain ⟨n, code, t', h⟩ := h
  have hlev : t.addContactLevel clock c = .ok (.split j t) := addContactLevel_split ha hf hsp
  have hlist : (List.range (n + 1)).map pasts =
      pasts 0 :: (List.range n).map fun i => pasts (i + 1) := by
    rw [List.range_succ_eq_map, List.map_cons, List.map_map]
    rfl
  obtain ⟨b', ha', -, -, -, heq⟩ := addContact_cons_splitAt hB hlev (pasts 0)
    ((List.range n).map fun i => pasts (i + 1))
  rw [(ha.unique ha').2] at heq
  refine ⟨n + 1, code, t', ?_⟩
  rw [hlist, heq]
  exact h

/-- An activation that is not to split returns. -/
theorem returns_or_splits (hl : Live t) (clock : Digest × Digest) (c : Contact)
    (pasts : Nat → Past) : Returns clock c pasts t ∨
      ∃ j b, Accessed t c.nodeId j b ∧ b.FullWithout c.nodeId ∧ t.Splittable b := by
  obtain ⟨l, hlev⟩ := level_ok clock hl.base (not_staleForce hl.own c.nodeId)
  cases l with
  | ret code t₁ => exact .inl (returns_of_ret hlev)
  | split j t₁ =>
    obtain ⟨-, b, ha, hf, hsp⟩ := level_split hl.base hlev
    exact .inr ⟨j, b, ha, hf, hsp⟩

theorem returns_of_accessed (hl : Live t) (hK : 1 ≤ t.K.toNat) (hid : c.nodeId ≤ KadID.kMaxID)
    (hp : ∀ i, KadID.EvenPast (pasts i)) (ha : Accessed t c.nodeId j b)
    (hs : ¬ t.Stuck c.nodeId) : Returns clock c pasts t := by
  induction hm : 32768 - j using Nat.strongRecOn generalizing t j b pasts with
  | ind m ihm =>
  induction hn : b.rangeMax.toNat using Nat.strongRecOn generalizing t b pasts with
  | ind n ihn =>
  rcases returns_or_splits hl clock c pasts with hret | ⟨k, b', ha', hf, hsp⟩
  · exact hret
  obtain ⟨rfl, rfl⟩ := ha.unique ha'
  have hl' := live_splitAt hl (hp 0) ha
  have hs' := fun h => hs (stuck_of_splitAt hl hK (hp 0) hid ha hf hsp h)
  have hp' : ∀ i, KadID.EvenPast (pasts (i + 1)) := fun i => hp (i + 1)
  refine returns_of_splitAt hl.base ha hf hsp ?_
  rcases returns_or_splits hl' clock c fun i => pasts (i + 1) with hret | ⟨i, d, hd, hf', hsp'⟩
  · exact hret
  rcases accessed_splitAt hl.base hid ha hd with ⟨hgoes, rfl, rfl⟩ | ⟨-, rfl, rfl⟩
  · by_cases hlt : leftEnd b'.rangeMin.toNat b'.rangeMax.toNat < b'.rangeMax.toNat
    · refine ihn _ ?_ hl' hK hp' hd hs' rfl
      rw [toNat_leftHalf_rangeMax (hp 0), ← hn]
      exact hlt
    · exact absurd (stuck_of_leftHalf hl (hp 0) ha hf hsp hgoes (not_lt.mp hlt) hf' hsp') hs
  · have hk := hd.lt
    exact ihm (32768 - (k + 1)) (by omega) hl' hK hp' hd hs' rfl

theorem returns_of_not_stuck (hl : Live t) (hK : 1 ≤ t.K.toNat) (hid : c.nodeId ≤ KadID.kMaxID)
    (hp : ∀ i, KadID.EvenPast (pasts i)) (hs : ¬ t.Stuck c.nodeId) : Returns clock c pasts t := by
  rcases returns_or_splits hl clock c pasts with hret | ⟨j, b, ha, -, -⟩
  · exact hret
  · exact returns_of_accessed hl hK hid hp ha hs

/-- **`AddContact` returns, unless it is stuck.** -/
theorem returns_iff {holderId : KadID} {rtK : UShort} {minRange : Digest}
    {tr : List (Op × RoutingTable)} (hK : 1 ≤ rtK.toNat)
    (hr : table.Run (new holderId rtK minRange) tr t)
    (hops : LTS.Steps (fun _ op => Halving op) (new holderId rtK minRange) tr)
    (hid : c.nodeId ≤ KadID.kMaxID) (hp : ∀ i, KadID.EvenPast (pasts i)) :
    Returns clock c pasts t ↔ ¬ t.Stuck c.nodeId := by
  obtain ⟨hl, hpar⟩ := live_run hr hops
  constructor
  · intro ⟨n, code, t', h⟩ hs
    have hp' : ∀ past ∈ (List.range n).map pasts, KadID.EvenPast past := by
      intro past hpast
      obtain ⟨i, -, rfl⟩ := List.mem_map.mp hpast
      exact hp i
    rw [addContact_of_stuck hl hid hs hp'] at h
    cases h
  · intro hs
    refine returns_of_not_stuck hl ?_ hid hp hs
    rw [hpar.K]
    exact hK

/-! ## A table for one contact to a bucket -/

def addEight : List Op := [addOp (contactAt ⟨Rossi.ofUlong 8⟩) 0]

theorem addEight_isSome : (LTS.exec step (fresh 5 1 8) addEight).isSome = true := by decide +kernel

/-- `K_` is 1, the range starts at 8, and the bucket holds the id 8. -/
def holdsEight : RoutingTable :=
  LTS.last (fresh 5 1 8) ((LTS.exec step (fresh 5 1 8) addEight).get addEight_isSome)

theorem run_holdsEight : ∃ tr, table.Run (new ⟨Rossi.ofUlong 5⟩ 1 (digestOf 8)) tr holdsEight ∧
    LTS.Steps (fun _ op => Halving op) (new ⟨Rossi.ofUlong 5⟩ 1 (digestOf 8)) tr := by
  refine ⟨_, run_fresh addEight_isSome, ?_⟩
  rw [fresh_eq]
  decide +kernel

/-- An id at the top of the space gets a bucket of its own. -/
theorem returns_holdsEight : Returns (digestOf 0, digestOf 0) (contactAt .kMaxIDWords)
    (fun _ => (0, 0)) holdsEight := by
  obtain ⟨tr, hr, hops⟩ := run_holdsEight
  refine (returns_iff (by decide) hr hops (le_of_eq KadID.kMaxID_eq.symm)
    (fun _ => by decide)).mpr fun ⟨j, b, u, ha, hs⟩ => ?_
  have hmin : ∀ b ∈ holdsEight.kBuckets, b.rangeMin.toNat = 8 := by decide +kernel
  have hbig : 10 < (contactAt .kMaxIDWords).nodeId.toNat := by decide +kernel
  have hfixed := hs.fixed
  have hkey := hs.key
  rw [hmin b (List.mem_of_getElem? ha.get), leftEnd] at hfixed
  omega

theorem stuck_holdsEight : holdsEight.Stuck ⟨Rossi.ofUlong 9⟩ := by
  have hone : holdsEight.kBuckets = [holdsEight.kBuckets.getD 0 (.new .kMinID .kMinID 0)] := by
    decide +kernel
  refine ⟨0, holdsEight.kBuckets.getD 0 (.new .kMinID .kMinID 0), 10, ⟨by decide +kernel, by decide,
    by decide +kernel⟩, ⟨by decide +kernel, by decide +kernel, by decide +kernel, by decide +kernel,
    by decide +kernel, by decide +kernel, ?_, by decide +kernel⟩⟩
  intro d hd _
  rw [hone, List.mem_singleton] at hd
  subst hd
  decide +kernel

/-- The id 9 next to the id 8: the bucket is split again and again. -/
theorem returns_counterexample : ¬ ∀ (holderId : KadID) (rtK : UShort) (minRange : Digest)
    (tr : List (Op × RoutingTable)) (t : RoutingTable) (c : Contact) (clock : Digest × Digest)
    (pasts : Nat → Past), 1 ≤ rtK.toNat → table.Run (new holderId rtK minRange) tr t →
    LTS.Steps (fun _ op => Halving op) (new holderId rtK minRange) tr →
    c.nodeId ≤ KadID.kMaxID → (∀ i, KadID.EvenPast (pasts i)) → Returns clock c pasts t := by
  intro h
  obtain ⟨tr, hr, hops⟩ := run_holdsEight
  have hid : (contactAt ⟨Rossi.ofUlong 9⟩).nodeId ≤ KadID.kMaxID := by
    rw [KadID.kMaxID_eq]
    decide +kernel
  obtain ⟨n, code, t', hret⟩ := h _ _ _ tr _ (contactAt ⟨Rossi.ofUlong 9⟩) (digestOf 0, digestOf 0)
    (fun _ => (0, 0)) (by decide) hr hops hid fun _ => by decide
  have hnone : addContact (digestOf 0, digestOf 0) (contactAt ⟨Rossi.ofUlong 9⟩)
      ((List.range n).map fun _ => (0, 0)) holdsEight = .ok none := by
    refine addContact_of_stuck (live_run hr hops).1 hid stuck_holdsEight fun past hpast => ?_
    obtain ⟨i, -, rfl⟩ := List.mem_map.mp hpast
    decide
  rw [hnone] at hret
  cases hret

end Kadpeer.L3.RoutingTable
