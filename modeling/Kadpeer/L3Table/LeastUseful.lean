import Kadpeer.Core.Rank
import Kadpeer.L3Table.FindClose

/-!
# The least useful contact (`kademlia/kadroutingtable.cpp`)

`get_least_useful_contact` gives each contact of a list its rank by distance to the holder
and its rank by age, and takes the highest sum. Equal times are ranked by distance, since
the sort by time is stable and meets a list that is sorted by distance; of several highest
sums the first one by distance is taken (`Foremost`).

`compare_distance` puts a contact whose id is `KadID()` in front of all others (`Ahead`).
`KadID()` is not the null id but the digest of the clock, so this can be the id of any
contact.

* `getLeastUsefulContact_spec`: the contact found is the foremost one in that order.
* `rankSum_ahead`: the sums of ranks in it, by those without it; `exists_foremost_iff`: whom
  it picks.
* `candidates_ahead`: what stands from the `v`-th place on in that order, by the ranks by
  distance.
* `bars_ahead_of_bars`, `bars_ahead_of_not`: how the contact in the `v`-th place compares
  with a new one.
-/
namespace Kadpeer.L3.RoutingTable

open Kadpeer.Core Kadpeer.L1 Kadpeer.L2

/-! ## The two orders -/

/-- Strictly closer to the holder. -/
def Closer (holderId : KadID) (c d : Contact) : Prop :=
  KadID.closerToTarget c.nodeId d.nodeId holderId = true

instance (holderId : KadID) : DecidableRel (Closer holderId) := fun _ _ => instDecidableEqBool _ _

/-- Closer, but a contact with the id `id` is in front of all others. -/
def Ahead (id holderId : KadID) : Contact → Contact → Prop :=
  Front (·.nodeId = id) (Closer holderId)

instance (id holderId : KadID) : DecidableRel (Ahead id holderId) :=
  inferInstanceAs (DecidableRel (Front _ _))

section Ranks

variable (R : Contact → Contact → Prop)

/-- Seen later, or at the same time and before by `R`. -/
def Fresher (c d : Contact) : Prop :=
  d.lastSeen < c.lastSeen ∨ (c.lastSeen = d.lastSeen ∧ R c d)

variable [DecidableRel R]

instance : DecidableRel (Fresher R) := fun _ _ => inferInstanceAs (Decidable (_ ∨ _))

/-- Counted from 1, like the next one. -/
def distanceRank (l : List Contact) (c : Contact) : Nat := rank R l c + 1

/-- The oldest contact has the highest rank. -/
def recencyRank (l : List Contact) (c : Contact) : Nat := rank (Fresher R) l c + 1

def rankSum (l : List Contact) (c : Contact) : Nat := distanceRank R l c + recencyRank R l c

/-- The contacts ranked `v`-th and later. -/
def candidates (l : List Contact) (v : Nat) : List Contact :=
  l.filter fun c => v ≤ distanceRank R l c

/-- What becomes of the sum of ranks by distance and age when the contact with the id `id`
counts as the closest. Its own is two more than the number of those seen later; of the others
the sum goes up where they are closer: by one, and by two if seen at the same time. -/
def frontSum (id holderId : KadID) (l : List Contact) (c : Contact) : Nat :=
  match l.find? (·.nodeId = id) with
  | none => rankSum (Closer holderId) l c
  | some g =>
    if c = g then l.countP (fun d => g.lastSeen < d.lastSeen) + 2
    else if Closer holderId c g then
      rankSum (Closer holderId) l c + if c.lastSeen = g.lastSeen then 2 else 1
    else rankSum (Closer holderId) l c

/-- The highest sum of ranks, and before the others that have it. -/
def Foremost (l : List Contact) (c : Contact) : Prop :=
  c ∈ l ∧ ∀ d ∈ l, d ≠ c →
    rankSum R l d < rankSum R l c ∨ (rankSum R l d = rankSum R l c ∧ R c d)

instance (l : List Contact) (c : Contact) : Decidable (Foremost R l c) :=
  inferInstanceAs (Decidable (_ ∧ ∀ d ∈ l, _))

/-- The highest sum of ranks. -/
def LeastUseful (l : List Contact) (c : Contact) : Prop :=
  c ∈ l ∧ ∀ d ∈ l, rankSum R l d ≤ rankSum R l c

instance (l : List Contact) (c : Contact) : Decidable (LeastUseful R l c) :=
  inferInstanceAs (Decidable (_ ∧ ∀ d ∈ l, _))

end Ranks

variable {id holderId : KadID} {l l' : List Contact} {c d e f n : Contact} {v : Nat}
  {R : Contact → Contact → Prop}

theorem closer_iff : Closer holderId c d ↔ c.nodeId.xor holderId < d.nodeId.xor holderId := by
  simp [Closer, KadID.closerToTarget]

instance : Std.Asymm (Closer holderId) :=
  ⟨fun _ _ h h' => lt_asymm (closer_iff.mp h) (closer_iff.mp h')⟩

instance : IsTrans Contact (Closer holderId) :=
  ⟨fun _ _ _ h h' => closer_iff.mpr ((closer_iff.mp h).trans (closer_iff.mp h'))⟩

instance : Std.Asymm (Ahead id holderId) := inferInstanceAs (Std.Asymm (Front _ _))

theorem closer_or_of_ne (h : c.nodeId ≠ d.nodeId) : Closer holderId c d ∨ Closer holderId d c := by
  rw [closer_iff, closer_iff]
  exact lt_or_gt_of_ne fun he => h ((KadID.xor_left_inj holderId).mp he)

theorem not_closer (h : c.nodeId ≠ d.nodeId) : ¬ Closer holderId d c ↔ Closer holderId c d :=
  ⟨(closer_or_of_ne h).resolve_right, Std.Asymm.asymm _ _⟩

/-- The order is that of a number. -/
theorem not_ahead_iff (id holderId : KadID) (c d : Contact) : ¬ Ahead id holderId d c ↔
    (if c.nodeId = id then 0 else (c.nodeId.xor holderId).toNat + 1) ≤
      if d.nodeId = id then 0 else (d.nodeId.xor holderId).toNat + 1 := by
  rw [Ahead, Front, closer_iff, KadID.lt_def]
  split <;> split <;> simp_all

theorem ahead_of_not (h : c.nodeId ≠ d.nodeId) (hd : ¬ Ahead id holderId d c) :
    Ahead id holderId c d := by
  rw [Ahead, Front] at hd ⊢
  by_cases hid : c.nodeId = id
  · exact ⟨fun he => h (hid.trans he.symm), .inl hid⟩
  · have hrest : ¬ (d.nodeId = id ∨ Closer holderId d c) := fun hr => hd ⟨hid, hr⟩
    exact ⟨fun he => hrest (.inl he), .inr ((not_closer h).mp fun hc => hrest (.inr hc))⟩

instance [Std.Asymm R] : Std.Asymm (Fresher R) := by
  refine ⟨fun c d h h' => ?_⟩
  rcases h with h | ⟨he, h⟩
  · rcases h' with h' | ⟨he, -⟩
    · exact lt_asymm h h'
    · exact absurd he (ne_of_lt h)
  · rcases h' with h' | ⟨-, h'⟩
    · exact absurd he (ne_of_lt h')
    · exact Std.Asymm.asymm _ _ h h'

/-- Who is closest anyway is in front anyway. -/
theorem ahead_iff_closer
    (hfront : ∀ c ∈ l, c.nodeId = id → ∀ d ∈ l, d ≠ c → Closer holderId c d) (hc : c ∈ l)
    (hd : d ∈ l) : Ahead id holderId c d ↔ Closer holderId c d := by
  rw [Ahead, Front]
  constructor
  · rintro ⟨hdid, hcid | hcd⟩
    · exact hfront c hc hcid d hd fun he => hdid (he ▸ hcid)
    · exact hcd
  · refine fun hcd => ⟨fun hdid => ?_, .inr hcd⟩
    have hne : c ≠ d := by
      rintro rfl
      exact Std.Asymm.asymm _ _ hcd hcd
    exact Std.Asymm.asymm _ _ hcd (hfront d hd hdid c hc hne)

theorem rankSum_perm [DecidableRel R] (hperm : l'.Perm l) (c : Contact) :
    rankSum R l' c = rankSum R l c := by
  simp only [rankSum, distanceRank, recencyRank, rank_perm hperm]

theorem rankSum_congr {S : Contact → Contact → Prop} [DecidableRel R] [DecidableRel S]
    (h : ∀ d ∈ l, R d c ↔ S d c) : rankSum R l c = rankSum S l c := by
  have hdist : rank R l c = rank S l c := List.countP_congr fun d hd => by
    simpa only [decide_eq_true_eq] using h d hd
  have htime : rank (Fresher R) l c = rank (Fresher S) l c := List.countP_congr fun d hd => by
    have hiff : Fresher R d c ↔ Fresher S d c := or_congr_right (and_congr_right fun _ => h d hd)
    simpa only [decide_eq_true_eq] using hiff
  rw [rankSum, rankSum, distanceRank, distanceRank, recencyRank, recencyRank, hdist, htime]

theorem foremost_perm [DecidableRel R] (hperm : l'.Perm l) : Foremost R l' c ↔ Foremost R l c := by
  simp only [Foremost, rankSum_perm hperm, hperm.mem_iff]

theorem Foremost.unique [DecidableRel R] [Std.Asymm R] (h : Foremost R l c)
    (h' : Foremost R l d) : c = d := by
  by_contra hne
  rcases h.2 d h'.1 (Ne.symm hne) with hlt | ⟨heq, hr⟩
  · rcases h'.2 c h.1 hne with hlt' | ⟨heq', -⟩
    · exact absurd hlt (Nat.lt_asymm hlt')
    · exact absurd heq' hlt.ne'
  · rcases h'.2 c h.1 hne with hlt' | ⟨-, hr'⟩
    · exact absurd heq hlt'.ne'
    · exact Std.Asymm.asymm _ _ hr hr'

theorem mem_candidates [DecidableRel R] : c ∈ candidates R l v ↔ c ∈ l ∧ v ≤ distanceRank R l c := by
  rw [candidates, List.mem_filter, decide_eq_true_eq]

/-! ## The sorts -/

theorem nodup_of_ids (hl : (l.map Contact.nodeId).Nodup) : l.Nodup := hl.of_map _

/-- On two contacts with different ids `compare_distance` is the order `Ahead`. -/
theorem compareDistance_iff (hne : c.nodeId ≠ d.nodeId) :
    compareDistance id holderId c d = true ↔ Ahead id holderId c d := by
  rw [Ahead, Front]
  unfold compareDistance
  split
  · rename_i h
    exact ⟨fun _ => ⟨fun he => hne (h.trans he.symm), .inl h⟩, fun _ => rfl⟩
  · split
    · rename_i h
      exact ⟨fun h => absurd h Bool.false_ne_true, fun h' => absurd h h'.1⟩
    · rename_i h h'
      exact ⟨fun hc => ⟨h', .inr hc⟩, fun hc => hc.2.resolve_left h⟩

theorem pairwise_sortBy_distance (id holderId : KadID) (hl : (l.map Contact.nodeId).Nodup) :
    (sortBy (compareDistance id holderId) l).Pairwise (Ahead id holderId) := by
  have hcongr : sortBy (compareDistance id holderId) l =
      l.insertionSort fun c d => ¬ Ahead id holderId d c := by
    refine insertionSort_congr (nodup_of_ids hl) fun c hc d hd hne => ?_
    have hids : d.nodeId ≠ c.nodeId := fun he => hne (List.inj_on_of_nodup_map hl hc hd he.symm)
    rw [← compareDistance_iff hids, Bool.not_eq_true]
  have hkey := not_ahead_iff id holderId
  have htotal := total_of_key hkey
  have htrans := isTrans_of_key hkey
  have hsorted := List.pairwise_insertionSort (fun c d => ¬ Ahead id holderId d c) l
  have hnodup : ((sortBy (compareDistance id holderId) l).map Contact.nodeId).Nodup :=
    ((perm_sortBy _ l).map _).nodup_iff.mpr hl
  rw [List.Nodup, List.pairwise_map] at hnodup
  rw [← hcongr] at hsorted
  exact (hsorted.and hnodup).imp fun h => ahead_of_not h.2 h.1

/-- The sort by time of a list that is sorted by `R`. -/
theorem pairwise_sortBy_time (hl : l.Pairwise R) :
    (sortBy compareTime l).Pairwise (Fresher R) := by
  have hkey : ∀ c d, compareTime d c = false ↔
      OrderDual.toDual c.lastSeen ≤ OrderDual.toDual d.lastSeen := fun c d => by simp [compareTime]
  have htotal := total_of_key hkey
  have htrans := isTrans_of_key hkey
  refine (pairwise_stable hl).imp fun {c d} h => ?_
  simp only [compareTime, decide_eq_false_iff_not, gt_iff_lt, not_lt] at h
  rcases lt_or_eq_of_le h.1 with hlt | heq
  · exact .inl hlt
  · exact .inr ⟨heq.symm, h.2 heq.symm.le⟩

/-- The sort by score puts the highest score in front, and of several the first one. -/
theorem head?_sortBy_score {r : Contact × Int → Contact × Int → Prop} {s : List (Contact × Int)}
    (hr : s.Pairwise r) (hs : s ≠ []) :
    ∃ x ∈ s, (sortBy compareScore s).head? = some x ∧
      ∀ y ∈ s, y ≠ x → y.2 < x.2 ∨ (y.2 = x.2 ∧ r x y) := by
  have hkey : ∀ x y, compareScore y x = false ↔ OrderDual.toDual x.2 ≤ OrderDual.toDual y.2 :=
    fun x y => by simp [compareScore]
  have htotal := total_of_key hkey
  have htrans := isTrans_of_key hkey
  have hsorted := pairwise_stable (r := fun x y => compareScore y x = false) hr
  have hperm := perm_sortBy compareScore s
  rw [sortBy] at hperm ⊢
  cases hsort : s.insertionSort fun x y => compareScore y x = false with
  | nil =>
    rw [hsort] at hperm
    exact absurd hperm.symm.eq_nil hs
  | cons x rest =>
    rw [hsort] at hperm hsorted
    refine ⟨x, hperm.mem_iff.mp List.mem_cons_self, rfl, fun y hy hne => ?_⟩
    rcases List.mem_cons.mp (hperm.mem_iff.mpr hy) with rfl | hin
    · exact absurd rfl hne
    · have hle := (List.pairwise_cons.mp hsorted).1 y hin
      simp only [compareScore, decide_eq_false_iff_not, gt_iff_lt, not_lt] at hle
      rcases lt_or_eq_of_le hle.1 with hlt | heq
      · exact .inl hlt
      · exact .inr ⟨heq, hle.2 heq.ge⟩

/-! ## The scores -/

/-- What an entry becomes when `contact` is met. -/
def addTo (contact : Contact) (n : Int) (entry : Contact × Int) : Contact × Int :=
  if contact.equals entry.1 then (entry.1, entry.2 + n) else entry

@[simp] theorem addTo_fst (c : Contact) (n : Int) (entry : Contact × Int) :
    (addTo c n entry).1 = entry.1 := by
  unfold addTo
  split <;> rfl

theorem addTo_of_ne {entry : Contact × Int} (h : c.nodeId ≠ entry.1.nodeId) (n : Int) :
    addTo c n entry = entry := if_neg fun he => h (Contact.equals_iff.mp he)

theorem addTimeScore_of_not {s : List (Contact × Int)} (h : ∀ e ∈ s, c.nodeId ≠ e.1.nodeId)
    (n : Int) : addTimeScore c s n = (s, n) := by
  induction s with
  | nil => rfl
  | cons e s ih =>
    obtain ⟨d, score⟩ := e
    have hd : c.nodeId ≠ d.nodeId := h (d, score) List.mem_cons_self
    unfold addTimeScore
    rw [if_neg fun he => hd (Contact.equals_iff.mp he), ih fun e he => h e (.tail _ he)]

/-- With distinct ids one entry takes the score. -/
theorem addTimeScore_of_mem {s : List (Contact × Int)} (hs : (s.map fun e => e.1.nodeId).Nodup)
    (h : ∃ e ∈ s, c.nodeId = e.1.nodeId) (n : Int) :
    addTimeScore c s n = (s.map (addTo c n), n + 1) := by
  induction s with
  | nil => simp at h
  | cons e s ih =>
    obtain ⟨d, score⟩ := e
    rw [List.map_cons, List.nodup_cons] at hs
    unfold addTimeScore
    rw [List.map_cons, addTo]
    split
    · rename_i hd
      have hrest : ∀ e ∈ s, c.nodeId ≠ e.1.nodeId := fun e he heq =>
        hs.1 (List.mem_map.mpr ⟨e, he, heq.symm.trans (Contact.equals_iff.mp hd)⟩)
      have hmap : s.map (addTo c n) = s := by
        rw [List.map_congr_left fun e he => addTo_of_ne (hrest e he) n, List.map_id']
      rw [addTimeScore_of_not hrest, hmap]
    · rename_i hd
      have hin : ∃ e ∈ s, c.nodeId = e.1.nodeId := by
        obtain ⟨e, he, heq⟩ := h
        rcases List.mem_cons.mp he with rfl | he
        · exact absurd (Contact.equals_iff.mpr heq) hd
        · exact ⟨e, he, heq⟩
      rw [ih hs.2 hin]

/-- The rank by time that `d` takes from the contacts of a list, numbered from `n` on. -/
def timeScore (n : Int) : List Contact → Contact → Int
  | [], _ => 0
  | c :: l, d => if c.equals d then n else timeScore (n + 1) l d

theorem timeScore_of_not (h : ∀ c ∈ l, c.nodeId ≠ d.nodeId) (n : Int) : timeScore n l d = 0 := by
  induction l generalizing n with
  | nil => rfl
  | cons c l ih =>
    rw [timeScore, if_neg fun he => h c List.mem_cons_self (Contact.equals_iff.mp he),
      ih fun c hc => h c (.tail _ hc)]

theorem timeScore_of_getElem? (hl : (l.map Contact.nodeId).Nodup) {i : Nat} (h : l[i]? = some d)
    (n : Int) : timeScore n l d = n + i := by
  induction l generalizing n i with
  | nil => simp at h
  | cons c l ih =>
    rw [List.map_cons, List.nodup_cons] at hl
    rw [timeScore]
    cases i with
    | zero =>
      rw [List.getElem?_cons_zero, Option.some.injEq] at h
      rw [if_pos (Contact.equals_iff.mpr (congrArg Contact.nodeId h))]
      simp
    | succ i =>
      rw [List.getElem?_cons_succ] at h
      have hne : c.nodeId ≠ d.nodeId := fun he =>
        hl.1 (he ▸ List.mem_map_of_mem (List.mem_of_getElem? h))
      rw [if_neg fun he => hne (Contact.equals_iff.mp he), ih hl.2 h]
      push_cast
      ring

theorem foldl_addTimeScore {s : List (Contact × Int)} (hs : (s.map fun e => e.1.nodeId).Nodup)
    (hl : (l.map Contact.nodeId).Nodup) (h : ∀ c ∈ l, ∃ e ∈ s, c.nodeId = e.1.nodeId) (n : Int) :
    (l.foldl (fun (x : List (Contact × Int) × Int) c => addTimeScore c x.1 x.2) (s, n)).1 =
      s.map fun e => (e.1, e.2 + timeScore n l e.1) := by
  induction l generalizing s n with
  | nil => simp [timeScore]
  | cons c l ih =>
    rw [List.map_cons, List.nodup_cons] at hl
    have hids : (s.map (addTo c n)).map (fun e => e.1.nodeId) = s.map fun e => e.1.nodeId := by
      simp [List.map_map, Function.comp_def]
    have hin : ∀ d ∈ l, ∃ e ∈ s.map (addTo c n), d.nodeId = e.1.nodeId := by
      intro d hd
      obtain ⟨e, he, heq⟩ := h d (.tail _ hd)
      exact ⟨addTo c n e, List.mem_map_of_mem he, by rwa [addTo_fst]⟩
    rw [List.foldl_cons, addTimeScore_of_mem hs (h c List.mem_cons_self),
      ih (hids ▸ hs) hl.2 hin, List.map_map]
    refine List.map_congr_left fun e _ => ?_
    rw [Function.comp_apply, addTo_fst, timeScore, addTo]
    split
    · -- the contact met here is not met again
      rename_i heq
      have hnot : ∀ d ∈ l, d.nodeId ≠ e.1.nodeId := fun d hd hde =>
        hl.1 (List.mem_map.mpr ⟨d, hd, hde.trans (Contact.equals_iff.mp heq).symm⟩)
      rw [timeScore_of_not hnot, add_zero]
    · rfl

/-- The nested loop adds to the ranks by distance those by time, whatever the order of the
entries. -/
theorem foldl_addTimeScore_rank [DecidableRel R] [Std.Asymm R] {byTime byDistance : List Contact}
    (hl : (l.map Contact.nodeId).Nodup) (hperm : byDistance.Perm l) (hperm' : byTime.Perm l)
    (htime : byTime.Pairwise (Fresher R)) :
    (byTime.foldl (fun (x : List (Contact × Int) × Int) c => addTimeScore c x.1 x.2)
      (byDistance.map fun c => (c, (distanceRank R l c : Int)), 1)).1 =
      byDistance.map fun c => (c, (rankSum R l c : Int)) := by
  have hmem : ∀ c, c ∈ byTime ↔ c ∈ byDistance := fun c => (hperm'.trans hperm.symm).mem_iff
  have hnodup : (byTime.map Contact.nodeId).Nodup := (hperm'.map _).nodup_iff.mpr hl
  rw [foldl_addTimeScore _ hnodup, List.map_map]
  · refine List.map_congr_left fun c hc => ?_
    obtain ⟨i, hi⟩ := List.mem_iff_getElem?.mp ((hmem c).mpr hc)
    have hrank : rank (Fresher R) l c = i := by
      rw [← rank_perm hperm', rank_of_pairwise htime hi]
    simp only [Function.comp_apply, timeScore_of_getElem? hnodup hi, rankSum, recencyRank, hrank]
    push_cast
    ring_nf
  · exact fun c hc => ⟨_, List.mem_map_of_mem ((hmem c).mp hc), rfl⟩
  · rw [List.map_map]
    exact (hperm.map _).nodup_iff.mpr hl

/-- The contact that `get_least_useful_contact` finds, in its own order. -/
theorem getLeastUsefulContact_spec (id holderId : KadID) (hl : (l.map Contact.nodeId).Nodup)
    (hne : l ≠ []) :
    ∃ c, getLeastUsefulContact id holderId l = some c ∧ Foremost (Ahead id holderId) l c := by
  have hdist := pairwise_sortBy_distance id holderId hl
  have htime := pairwise_sortBy_time hdist
  have hperm := perm_sortBy (compareDistance id holderId) l
  have hperm' := (perm_sortBy compareTime _).trans hperm
  generalize hbd : sortBy (compareDistance id holderId) l = byDistance at *
  generalize hbt : sortBy compareTime byDistance = byTime at *
  -- the scores before and after the nested loop
  have hstart : (byDistance.zipIdx.map fun (x : Contact × Nat) => (x.1, (x.2 + 1 : Int))) =
      byDistance.map fun c => (c, (distanceRank (Ahead id holderId) l c : Int)) := by
    rw [zipIdx_eq_map_rank hdist, List.map_map]
    exact List.map_congr_left fun c _ => by simp [distanceRank, rank_perm hperm]
  have hloop := foldl_addTimeScore_rank hl hperm hperm' htime
  have hscores : byDistance.map (fun c => (c, (rankSum (Ahead id holderId) l c : Int))) ≠ [] := by
    rw [Ne, List.map_eq_nil_iff]
    exact fun h => hne (h ▸ hperm).symm.eq_nil
  have hpair : (byDistance.map fun c => (c, (rankSum (Ahead id holderId) l c : Int))).Pairwise
      fun x y => Ahead id holderId x.1 y.1 := List.pairwise_map.mpr hdist
  obtain ⟨x, hx, hhead, hfirst⟩ := head?_sortBy_score hpair hscores
  obtain ⟨c, hc, rfl⟩ := List.mem_map.mp hx
  refine ⟨c, ?_, hperm.mem_iff.mp hc, fun d hd hne => ?_⟩
  · unfold getLeastUsefulContact
    simp only [hbd, hbt, hstart, hloop, hhead, Option.map_some]
  · have h := hfirst _ (List.mem_map_of_mem (hperm.mem_iff.mpr hd)) fun he =>
      hne (congrArg Prod.fst he)
    exact h.imp Int.ofNat_lt.mp fun h => ⟨Int.ofNat_inj.mp h.1, h.2⟩

/-! ## A contact in front of all others -/

/-- `c` goes rather than `d` when the contact with the id `id` counts as the closest. -/
def Outdoes (id holderId : KadID) (l : List Contact) (c d : Contact) : Prop :=
  frontSum id holderId l d < frontSum id holderId l c ∨
    frontSum id holderId l d = frontSum id holderId l c ∧ Ahead id holderId c d

instance : Decidable (Outdoes id holderId l c d) := inferInstanceAs (Decidable (_ ∨ _ ∧ _))

/-- The contact ranked `v`-th is closer to the holder than `n`. -/
def Bars (R : Contact → Contact → Prop) [DecidableRel R] (holderId : KadID) (l : List Contact)
    (v : Nat) (n : Contact) : Prop :=
  ∃ c ∈ l, distanceRank R l c = v ∧ Closer holderId c n

instance [DecidableRel R] : Decidable (Bars R holderId l v n) :=
  inferInstanceAs (Decidable (∃ c ∈ l, _))

/-- A contact is put in front that was not before the one ranked `v`-th, and the ranks
before `v` go up. -/
def Displaces (id holderId : KadID) (l : List Contact) (v : Nat) : Prop :=
  2 ≤ v ∧ ∃ c ∈ l, c.nodeId = id ∧ v ≤ distanceRank (Closer holderId) l c

instance : Decidable (Displaces id holderId l v) := inferInstanceAs (Decidable (_ ∧ ∃ c ∈ l, _))

/-- Without the contact in front, and with the one ranked just before `v`-th. -/
def pool (id holderId : KadID) (l : List Contact) (v : Nat) : List Contact :=
  if Displaces id holderId l v then
    (candidates (Closer holderId) l (v - 1)).filter (·.nodeId ≠ id)
  else candidates (Closer holderId) l v

theorem distanceRank_pos (R : Contact → Contact → Prop) [DecidableRel R] (l : List Contact)
    (c : Contact) : 1 ≤ distanceRank R l c := Nat.succ_le_succ (Nat.zero_le _)

theorem distanceRank_lt (hc : c ∈ l) (h : Closer holderId c d) :
    distanceRank (Closer holderId) l c < distanceRank (Closer holderId) l d :=
  Nat.succ_lt_succ (rank_lt_rank hc h)

section DistinctIds

variable (hl : (l.map Contact.nodeId).Nodup)
include hl

theorem closer_of_distanceRank_lt (hc : c ∈ l) (hd : d ∈ l)
    (h : distanceRank (Closer holderId) l c < distanceRank (Closer holderId) l d) :
    Closer holderId c d := by
  have hne : c.nodeId ≠ d.nodeId := fun he =>
    absurd h (List.inj_on_of_nodup_map hl hc hd he ▸ lt_irrefl _)
  refine (closer_or_of_ne hne).resolve_right fun h' => ?_
  exact absurd (distanceRank_lt hd h') (Nat.lt_asymm h)

theorem eq_of_distanceRank_eq (hc : c ∈ l) (hd : d ∈ l)
    (h : distanceRank (Closer holderId) l c = distanceRank (Closer holderId) l d) : c = d := by
  by_contra hne
  have hids : c.nodeId ≠ d.nodeId := fun he => hne (List.inj_on_of_nodup_map hl hc hd he)
  have hor : Closer holderId c d ∨ Closer holderId d c := closer_or_of_ne hids
  rcases hor with h' | h'
  · exact absurd h (distanceRank_lt hc h').ne
  · exact absurd h (distanceRank_lt hd h').ne'

omit hl in
theorem distanceRank_ahead_of_not (h : ∀ f ∈ l, f.nodeId ≠ id) (hc : c ∈ l) :
    distanceRank (Ahead id holderId) l c = distanceRank (Closer holderId) l c :=
  congrArg (· + 1) (rank_front_eq (h c hc) fun f hf hid => absurd hid (h f hf))

omit hl in
theorem not_displaces (h : ∀ f ∈ l, f.nodeId ≠ id) : ¬ Displaces id holderId l v := by
  rintro ⟨-, f, hf, hid, -⟩
  exact h f hf hid

/-- The contacts that were before `f` come one rank later. -/
theorem distanceRank_ahead (hf : f ∈ l) (hid : f.nodeId = id) (hc : c ∈ l) :
    distanceRank (Ahead id holderId) l c =
      if c = f then 1
      else if distanceRank (Closer holderId) l c < distanceRank (Closer holderId) l f then
        distanceRank (Closer holderId) l c + 1
      else distanceRank (Closer holderId) l c := by
  have hp : ∀ d ∈ l, d.nodeId = id ↔ d = f := fun d hd =>
    ⟨fun h => List.inj_on_of_nodup_map hl hd hf (h.trans hid.symm), fun h => h ▸ hid⟩
  split
  · rename_i h
    exact congrArg (· + 1) (rank_front_eq_zero ((hp c hc).mpr h))
  · rename_i hne
    have hcid : c.nodeId ≠ id := fun h => hne ((hp c hc).mp h)
    split
    · rename_i hlt
      have hcloser := closer_of_distanceRank_lt hl hc hf hlt
      exact congrArg (· + 1) (rank_front_eq_add_one (nodup_of_ids hl) hf hp hcid
        (Std.Asymm.asymm _ _ hcloser))
    · rename_i hlt
      refine congrArg (· + 1) (rank_front_eq hcid fun d hd hdid => ?_)
      obtain rfl := (hp d hd).mp hdid
      exact (not_closer fun he => hcid (he.symm.trans hid)).mp fun h => hlt (distanceRank_lt hc h)

/-- By age only those of its own time come one rank later. -/
theorem recencyRank_ahead (hf : f ∈ l) (hid : f.nodeId = id) (hc : c ∈ l) :
    recencyRank (Ahead id holderId) l c =
      if c = f then l.countP (fun d => f.lastSeen < d.lastSeen) + 1
      else if Closer holderId c f ∧ c.lastSeen = f.lastSeen then
        recencyRank (Closer holderId) l c + 1
      else recencyRank (Closer holderId) l c := by
  have hp : ∀ d ∈ l, d.nodeId = id ↔ d = f := fun d hd =>
    ⟨fun h => List.inj_on_of_nodup_map hl hd hf (h.trans hid.symm), fun h => h ▸ hid⟩
  by_cases hcf : c = f
  · -- nothing of its time is in front of it
    subst hcf
    rw [if_pos rfl]
    refine congrArg (· + 1) (List.countP_congr fun d _ => ?_)
    simp [Fresher, Ahead, Front, hid]
  · have hcid : c.nodeId ≠ id := fun h => hcf ((hp c hc).mp h)
    have hfresher : ∀ d ∈ l, Fresher (Ahead id holderId) d c ↔
        (d = f ∧ d.lastSeen = c.lastSeen) ∨ Fresher (Closer holderId) d c := by
      intro d hd
      simp only [Fresher, Ahead, Front, hcid, hp d hd, not_false_eq_true, true_and]
      tauto
    rw [if_neg hcf]
    by_cases hmoved : Closer holderId c f ∧ c.lastSeen = f.lastSeen
    · obtain ⟨hcloser, htime⟩ := hmoved
      have hnot : ¬ Fresher (Closer holderId) f c := by
        rintro (hlt | ⟨-, hfc⟩)
        · exact absurd htime (ne_of_lt hlt)
        · exact Std.Asymm.asymm _ _ hcloser hfc
      rw [if_pos ⟨hcloser, htime⟩]
      refine congrArg (· + 1) (countP_or_eq (nodup_of_ids hl) hf hnot fun d hd => ?_)
      rw [hfresher d hd]
      exact or_congr_left ⟨And.left, fun h => ⟨h, h ▸ htime.symm⟩⟩
    · rw [if_neg hmoved]
      refine congrArg (· + 1) (List.countP_congr fun d hd => ?_)
      rw [decide_eq_true_eq, decide_eq_true_eq, hfresher d hd]
      refine or_iff_right_of_imp ?_
      rintro ⟨rfl, htime⟩
      have hne : c.nodeId ≠ d.nodeId := fun he => hcid (he.trans hid)
      exact .inr ⟨htime, ((closer_or_of_ne hne).resolve_left fun h => hmoved ⟨h, htime.symm⟩)⟩

/-- The sums of ranks with a contact in front, by those without. -/
theorem rankSum_ahead (id holderId : KadID) (hc : c ∈ l) :
    rankSum (Ahead id holderId) l c = frontSum id holderId l c := by
  unfold frontSum
  cases hfind : l.find? (·.nodeId = id) with
  | none =>
    have hnone : ∀ f ∈ l, f.nodeId ≠ id := fun f hf hid =>
      List.find?_eq_none.mp hfind f hf (decide_eq_true hid)
    exact rankSum_congr fun d hd => ahead_iff_closer (fun f hf hid => absurd hid (hnone f hf)) hd hc
  | some f =>
    have hf := List.mem_of_find?_eq_some hfind
    have hid : f.nodeId = id := by simpa using List.find?_some hfind
    have hcloser : c ≠ f → (distanceRank (Closer holderId) l c <
        distanceRank (Closer holderId) l f ↔ Closer holderId c f) := fun _ =>
      ⟨closer_of_distanceRank_lt hl hc hf, distanceRank_lt hc⟩
    rw [rankSum, distanceRank_ahead hl hf hid hc, recencyRank_ahead hl hf hid hc]
    by_cases hcf : c = f
    · simp only [if_pos hcf]
      omega
    · simp only [if_neg hcf, hcloser hcf, rankSum]
      by_cases hnear : Closer holderId c f
      · simp only [hnear, if_true, true_and]
        split <;> omega
      · simp only [hnear, if_false, false_and]

/-- The contact that goes is a `good` one exactly when each of the others is outdone by one. -/
theorem exists_foremost_iff (id holderId : KadID) (hne : l ≠ []) (good : Contact → Prop) :
    (∃ c, good c ∧ Foremost (Ahead id holderId) l c) ↔
      ∀ d ∈ l, ¬ good d → ∃ c ∈ l, good c ∧ Outdoes id holderId l c d := by
  have hout : ∀ c ∈ l, ∀ d ∈ l, Outdoes id holderId l c d ↔
      rankSum (Ahead id holderId) l d < rankSum (Ahead id holderId) l c ∨
        rankSum (Ahead id holderId) l d = rankSum (Ahead id holderId) l c ∧
          Ahead id holderId c d := fun c hc d hd => by
    rw [rankSum_ahead hl id holderId hc, rankSum_ahead hl id holderId hd, Outdoes]
  constructor
  · rintro ⟨c, hc, hcl, hfore⟩ d hd hbad
    have hdc : d ≠ c := fun h => hbad (h ▸ hc)
    exact ⟨c, hcl, hc, (hout c hcl d hd).mpr (hfore d hd hdc)⟩
  · intro h
    obtain ⟨c, -, hcl, hfore⟩ := getLeastUsefulContact_spec id holderId hl hne
    by_cases hc : good c
    · exact ⟨c, hc, hcl, hfore⟩
    · obtain ⟨d, hd, hgood, hdc⟩ := h c hcl hc
      have hcd := hfore d hd fun he => hc (he ▸ hgood)
      rcases (hout d hd c hcl).mp hdc with hlt | ⟨heq, hahead⟩
      · omega
      · have hback := (hcd.resolve_left (by omega)).2
        exact absurd hback (Std.Asymm.asymm _ _ hahead)

theorem displaces_iff (hf : f ∈ l) (hid : f.nodeId = id) :
    Displaces id holderId l v ↔ 2 ≤ v ∧ v ≤ distanceRank (Closer holderId) l f := by
  refine and_congr_right fun _ => ⟨?_, fun h => ⟨f, hf, hid, h⟩⟩
  rintro ⟨c, hc, hcid, h⟩
  exact List.inj_on_of_nodup_map hl hc hf (hcid.trans hid.symm) ▸ h

theorem le_distanceRank_ahead (hv : 1 ≤ v) (hc : c ∈ l) :
    v ≤ distanceRank (Ahead id holderId) l c ↔
      if Displaces id holderId l v then
        v - 1 ≤ distanceRank (Closer holderId) l c ∧ c.nodeId ≠ id
      else v ≤ distanceRank (Closer holderId) l c := by
  by_cases hex : ∃ f ∈ l, f.nodeId = id
  · obtain ⟨f, hf, hid⟩ := hex
    have hpos := distanceRank_pos (Closer holderId) l c
    rw [distanceRank_ahead hl hf hid hc]
    simp only [displaces_iff hl hf hid]
    by_cases hcf : c = f
    · subst hcf
      rw [if_pos rfl]
      split
      · exact iff_of_false (by omega) fun h => h.2 hid
      · omega
    · have hcid : c.nodeId ≠ id := fun h =>
        hcf (List.inj_on_of_nodup_map hl hc hf (h.trans hid.symm))
      have hne : distanceRank (Closer holderId) l c ≠ distanceRank (Closer holderId) l f :=
        fun h => hcf (eq_of_distanceRank_eq hl hc hf h)
      rw [if_neg hcf, and_iff_left hcid]
      split <;> split <;> omega
  · have hnone : ∀ f ∈ l, f.nodeId ≠ id := fun f hf hid => hex ⟨f, hf, hid⟩
    rw [distanceRank_ahead_of_not hnone hc, if_neg (not_displaces hnone)]

/-- From the second rank on. -/
theorem distanceRank_ahead_eq (hv : 2 ≤ v) (hc : c ∈ l) :
    distanceRank (Ahead id holderId) l c = v ↔
      if Displaces id holderId l v then distanceRank (Closer holderId) l c + 1 = v
      else distanceRank (Closer holderId) l c = v := by
  by_cases hex : ∃ f ∈ l, f.nodeId = id
  · obtain ⟨f, hf, hid⟩ := hex
    have hne : c ≠ f → distanceRank (Closer holderId) l c ≠ distanceRank (Closer holderId) l f :=
      fun hcf h => hcf (eq_of_distanceRank_eq hl hc hf h)
    rw [distanceRank_ahead hl hf hid hc]
    simp only [displaces_iff hl hf hid]
    by_cases hcf : c = f
    · subst hcf
      rw [if_pos rfl]
      split <;> omega
    · have := hne hcf
      rw [if_neg hcf]
      split <;> split <;> omega
  · have hnone : ∀ f ∈ l, f.nodeId ≠ id := fun f hf hid => hex ⟨f, hf, hid⟩
    rw [distanceRank_ahead_of_not hnone hc, if_neg (not_displaces hnone)]

theorem candidates_ahead (hv : 1 ≤ v) :
    candidates (Ahead id holderId) l v = pool id holderId l v := by
  unfold pool candidates
  split
  · rename_i h
    rw [List.filter_filter]
    refine List.filter_congr fun c hc => ?_
    rw [← Bool.decide_and, decide_eq_decide, le_distanceRank_ahead hl hv hc, if_pos h, and_comm]
  · rename_i h
    refine List.filter_congr fun c hc => ?_
    rw [decide_eq_decide, le_distanceRank_ahead hl hv hc, if_neg h]

theorem nodup_pool (id holderId : KadID) (v : Nat) :
    ((pool id holderId l v).map Contact.nodeId).Nodup := by
  unfold pool
  split
  · exact hl.sublist ((List.filter_sublist.trans List.filter_sublist).map _)
  · exact hl.sublist (List.filter_sublist.map _)

theorem exists_distanceRank_ahead (id holderId : KadID) (hv : 1 ≤ v) (hlen : v ≤ l.length) :
    ∃ c ∈ l, distanceRank (Ahead id holderId) l c = v := by
  have hpair := pairwise_sortBy_distance id holderId hl
  have hperm := perm_sortBy (compareDistance id holderId) l
  generalize sortBy (compareDistance id holderId) l = s at hpair hperm
  have hlt : v - 1 < s.length := by
    rw [hperm.length_eq]
    omega
  refine ⟨s[v - 1], hperm.mem_iff.mp (List.getElem_mem hlt), ?_⟩
  rw [distanceRank, ← rank_perm hperm, rank_of_pairwise hpair (List.getElem?_eq_getElem hlt)]
  omega

/-- With the contact ranked `v`-th closer than `n`, the one put in front can hide that only
for `v = 1`. -/
theorem bars_ahead_of_bars (hv : 1 ≤ v) (hlen : v ≤ l.length)
    (h : Bars (Closer holderId) holderId l v n) :
    Bars (Ahead id holderId) holderId l v n ↔
      (v = 1 → ∀ c ∈ l, c.nodeId = id → Closer holderId c n) := by
  obtain ⟨d, hd, hrank, hcloser⟩ := h
  rcases Nat.eq_or_lt_of_le hv with rfl | hv
  · constructor
    · rintro ⟨c, hc, hone, hcn⟩ - f hf hid
      rw [distanceRank_ahead hl hf hid hc] at hone
      have hpos := distanceRank_pos (Closer holderId) l c
      split at hone
      · rename_i h
        exact h ▸ hcn
      · -- any other contact has one before it
        rename_i hne
        have hrank : distanceRank (Closer holderId) l c ≠ distanceRank (Closer holderId) l f :=
          fun h => hne (eq_of_distanceRank_eq hl hc hf h)
        have hpos' := distanceRank_pos (Closer holderId) l f
        split at hone <;> omega
    · intro hfront
      by_cases hex : ∃ f ∈ l, f.nodeId = id
      · obtain ⟨f, hf, hid⟩ := hex
        exact ⟨f, hf, by rw [distanceRank_ahead hl hf hid hf, if_pos rfl], hfront rfl f hf hid⟩
      · refine ⟨d, hd, ?_, hcloser⟩
        rw [distanceRank_ahead_of_not (fun f hf hid => hex ⟨f, hf, hid⟩) hd, hrank]
  · refine iff_of_true ?_ fun h => absurd h hv.ne'
    obtain ⟨c, hc, hrank'⟩ := exists_distanceRank_ahead hl id holderId (Nat.le_of_lt hv) hlen
    refine ⟨c, hc, hrank', ?_⟩
    rw [distanceRank_ahead_eq hl hv hc] at hrank'
    split at hrank'
    · exact trans_of (Closer holderId) (closer_of_distanceRank_lt hl hc hd (by omega)) hcloser
    · exact eq_of_distanceRank_eq hl hc hd (hrank'.trans hrank.symm) ▸ hcloser

/-- Where it is not closer, only the one ranked before it can be. -/
theorem bars_ahead_of_not (hv : 1 ≤ v) (h : ¬ Bars (Closer holderId) holderId l v n) :
    Bars (Ahead id holderId) holderId l v n ↔ Displaces id holderId l v ∧
      ∃ c ∈ l, distanceRank (Closer holderId) l c + 1 = v ∧ Closer holderId c n := by
  rcases Nat.eq_or_lt_of_le hv with rfl | hv
  · refine iff_of_false ?_ fun h' => absurd h'.1.1 (by decide)
    rintro ⟨c, hc, -, hcn⟩
    -- the closest contact of all would be closer as well
    obtain ⟨m, hm, hmin⟩ := l.toFinset.exists_min_image (fun c => c.nodeId.xor holderId)
      ⟨c, List.mem_toFinset.mpr hc⟩
    simp only [List.mem_toFinset] at hm hmin
    have hrank : rank (Closer holderId) l m = 0 := List.countP_eq_zero.mpr fun d hd => by
      rw [decide_eq_true_eq, closer_iff, not_lt]
      exact hmin d hd
    refine h ⟨m, hm, by rw [distanceRank, hrank], ?_⟩
    exact closer_iff.mpr ((hmin c hc).trans_lt (closer_iff.mp hcn))
  · constructor
    · rintro ⟨c, hc, hrank, hcn⟩
      rw [distanceRank_ahead_eq hl hv hc] at hrank
      split at hrank
      · rename_i hdis
        exact ⟨hdis, c, hc, hrank, hcn⟩
      · exact absurd ⟨c, hc, hrank, hcn⟩ h
    · rintro ⟨hdis, c, hc, hrank, hcn⟩
      exact ⟨c, hc, by rwa [distanceRank_ahead_eq hl hv hc, if_pos hdis], hcn⟩

end DistinctIds

end Kadpeer.L3.RoutingTable
