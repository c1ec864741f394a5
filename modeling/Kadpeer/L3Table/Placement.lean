import Kadpeer.L3Table.Terminates
import Mathlib.Data.Nat.Size

/-!
# Stored contacts are found

`KBucketIndex` looks at upper ends only, so an id below the lower end of the first
bucket is routed to it. `SplitKbucket` hands such a contact to the right half, in
which nobody looks for it any more. As long as no bucket is split that holds a
contact below its range (`SplitsInRange`), every contact lies where it is looked
for (`Placed`), for `K_ > 2`.

* `splitBudget_split`: only buckets that cover the holder are split, and each
  split takes one from what is left of this budget; so a table keeps fewer than
  65536 buckets and positions are not cut.
* `placed_splitAt`, `placed_setBucket`: what a split and a change of one bucket
  keep. The one range that a split does not make smaller is excluded by the call
  returning.
* `findable_of_steps`: in every run whose splits are `SplitsInRange`, every state is
  `Findable`.
* `findable_counterexample`: a contact that is lost.
-/
namespace Kadpeer.L3.RoutingTable

open Kadpeer.Core Kadpeer.L1 Kadpeer.L2

/-! ## How often a range is split -/

/-- The splits that `[a, b]` can still take on behalf of the id `h`: one for each
bit of its width; twice as many while both halves may cover `h`. -/
def splitBudget (h a b : Nat) : Nat :=
  if a ≤ h ∧ h ≤ b then (if h ≤ a + 1 ∨ b ≤ h + 1 then 1 else 2) * Nat.size (b - a - 2) else 0

theorem size_half {w w' : Nat} (hw : 0 < w) (h : w' ≤ w / 2) : Nat.size w' + 1 ≤ Nat.size w := by
  have hpos : 0 < Nat.size w := Nat.size_pos.mpr hw
  have hlt := Nat.lt_size_self w
  have hpow : 2 ^ Nat.size w = 2 * 2 ^ (Nat.size w - 1) := by
    rw [← Nat.pow_succ', Nat.succ_eq_add_one, Nat.sub_add_cancel hpos]
  have hle : Nat.size w' ≤ Nat.size w - 1 := Nat.size_le.mpr (by omega)
  omega

/-- Where a half covers `h` alone, the factor does not grow. -/
theorem splitBudget_le {h a b a' b' : Nat} (hw : a + 3 ≤ b) (hin : a ≤ h ∧ h ≤ b)
    (hhalf : b' - a' - 2 ≤ (b - a - 2) / 2)
    (hone : h ≤ a + 1 ∨ b ≤ h + 1 → h ≤ a' + 1 ∨ b' ≤ h + 1) :
    splitBudget h a' b' + 1 ≤ splitBudget h a b := by
  have hsize := size_half (by omega) hhalf
  unfold splitBudget
  rw [if_pos hin]
  split
  · by_cases hb : h ≤ a + 1 ∨ b ≤ h + 1
    · rw [if_pos hb, if_pos (hone hb)]
      omega
    · rw [if_neg hb]
      split <;> omega
  · split <;> omega

/-- What is left after a split that makes the range smaller. -/
theorem splitBudget_split {h a b m : Nat} (hm : m + 1 = leftEnd a b) (hw : a + 3 ≤ b)
    (hin : a ≤ h ∧ h ≤ b) :
    splitBudget h a (m + 1) + splitBudget h m b + 1 ≤ splitBudget h a b := by
  unfold leftEnd at hm
  by_cases hl : h ≤ m + 1
  · by_cases hr : m ≤ h
    · -- both halves cover `h`, each at its end
      have hsl : Nat.size (m + 1 - a - 2) + 1 ≤ Nat.size (b - a - 2) :=
        size_half (by omega) (by omega)
      have hsr : Nat.size (b - m - 2) + 1 ≤ Nat.size (b - a - 2) := size_half (by omega) (by omega)
      have hleft : splitBudget h a (m + 1) = Nat.size (m + 1 - a - 2) := by
        unfold splitBudget
        rw [if_pos ⟨hin.1, hl⟩, if_pos (.inr (by omega)), one_mul]
      have hright : splitBudget h m b = Nat.size (b - m - 2) := by
        unfold splitBudget
        rw [if_pos ⟨hr, hin.2⟩, if_pos (.inl (by omega)), one_mul]
      rw [hleft, hright]
      unfold splitBudget
      rw [if_pos hin]
      split
      · rename_i hnear
        rcases hnear with hnear | hnear
        · have hz : m + 1 - a - 2 = 0 := by omega
          rw [hz, Nat.size_zero]
          omega
        · have hz : b - m - 2 = 0 := by omega
          rw [hz, Nat.size_zero]
          omega
      · omega
    · have hzero : splitBudget h m b = 0 := if_neg fun hin' => hr hin'.1
      have hle : splitBudget h a (m + 1) + 1 ≤ splitBudget h a b :=
        splitBudget_le hw hin (by omega) (by omega)
      omega
  · have hzero : splitBudget h a (m + 1) = 0 := if_neg fun hin' => hl hin'.2
    have hle : splitBudget h m b + 1 ≤ splitBudget h a b :=
      splitBudget_le hw hin (by omega) (by omega)
    omega

theorem splitBudget_narrow {h a b : Nat} (hw : b ≤ a + 2) : splitBudget h a b = 0 := by
  have hz : b - a - 2 = 0 := by omega
  unfold splitBudget
  rw [hz, Nat.size_zero, Nat.mul_zero, ite_self]

theorem splitBudget_le_size (h a b n : Nat) (hb : b < 2 ^ n) : splitBudget h a b ≤ 2 * n := by
  have hsize : Nat.size (b - a - 2) ≤ n := Nat.size_le.mpr (by omega)
  unfold splitBudget
  split
  · split <;> omega
  · omega

/-! ## The ends of the ranges, in vector order -/

/-- The first range is wide enough for three ids. -/
def firstWide : List (Nat × Nat) → Nat
  | [] => 0
  | r :: _ => if r.1 + 2 ≤ r.2 then 1 else 0

/-- Upper ends grow, each range starts one below the end of the one before, and
the ranges and the splits they can still take are few. -/
structure Ascending (h : Nat) (rs : List (Nat × Nat)) : Prop where
  increasing : rs.Pairwise fun r r' => r.2 < r'.2
  next : rs.IsChain fun r r' => r'.1 + 1 = r.2
  budget : rs.length + (rs.map fun r => splitBudget h r.1 r.2).sum + firstWide rs ≤ 1060

variable {h a b m : Nat} {pre post : List (Nat × Nat)}

theorem firstWide_le_one (rs : List (Nat × Nat)) : firstWide rs ≤ 1 := by
  cases rs with
  | nil => exact Nat.zero_le _
  | cons r rs =>
    show (if r.1 + 2 ≤ r.2 then 1 else 0) ≤ 1
    split <;> omega

theorem ascending_single (hb : b < 2 ^ 529) : Ascending h [(a, b)] := by
  refine ⟨List.pairwise_singleton _ _, List.isChain_singleton _, ?_⟩
  have hle := splitBudget_le_size h a b 529 hb
  have hwide := firstWide_le_one [(a, b)]
  simp only [List.length_singleton, List.map_cons, List.map_nil, List.sum_cons, List.sum_nil]
  omega

/-- Ends before a range are at most one above its start. -/
theorem Ascending.le_of_pre (hA : Ascending h (pre ++ (a, b) :: post)) :
    ∀ r ∈ pre, r.2 ≤ a + 1 := by
  rcases List.eq_nil_or_concat pre with rfl | ⟨pre, last, rfl⟩
  · simp
  · have hnext := hA.next
    rw [List.concat_eq_append, List.append_assoc, List.singleton_append,
      List.isChain_append_cons_cons] at hnext
    have hinc := (List.pairwise_append.mp hA.increasing).1
    rw [List.concat_eq_append, List.pairwise_append] at hinc
    intro r hr
    rw [List.concat_eq_append, List.mem_append, List.mem_singleton] at hr
    rcases hr with hr | rfl
    · have := hinc.2.2 r hr last (List.mem_singleton_self last)
      have := hnext.2.1
      omega
    · have := hnext.2.1
      omega

theorem firstWide_split (pre post : List (Nat × Nat)) (hm : m + 1 = leftEnd a b) (hlt : leftEnd a b < b) :
    firstWide (pre ++ (a, m + 1) :: (m, b) :: post) ≤ firstWide (pre ++ (a, b) :: post) := by
  unfold leftEnd at *
  cases pre with
  | nil =>
    show (if a + 2 ≤ m + 1 then 1 else 0) ≤ if a + 2 ≤ b then 1 else 0
    split <;> split <;> omega
  | cons r pre => exact le_refl _

theorem increasing_split (hinc : (pre ++ (a, b) :: post).Pairwise fun r r' => r.2 < r'.2)
    (hmb : m + 1 < b) (hpre : ∀ r ∈ pre, r.2 < m + 1) :
    (pre ++ (a, m + 1) :: (m, b) :: post).Pairwise fun r r' => r.2 < r'.2 := by
  obtain ⟨hbefore, hafter, hcross⟩ := List.pairwise_append.mp hinc
  obtain ⟨hpost, hposts⟩ := List.pairwise_cons.mp hafter
  refine List.pairwise_append.mpr ⟨hbefore, ?_, ?_⟩
  · refine List.pairwise_cons.mpr ⟨?_, List.pairwise_cons.mpr ⟨hpost, hposts⟩⟩
    intro r hr
    rcases List.mem_cons.mp hr with rfl | hr
    · exact hmb
    · exact hmb.trans (hpost r hr)
  · intro r hr r' hr'
    rcases List.mem_cons.mp hr' with rfl | hr'
    · exact hpre r hr
    · rcases List.mem_cons.mp hr' with rfl | hr'
      · exact hcross r hr (a, b) List.mem_cons_self
      · exact hcross r hr r' (List.mem_cons_of_mem _ hr')

theorem next_split (hnext : (pre ++ (a, b) :: post).IsChain fun r r' => r'.1 + 1 = r.2) :
    (pre ++ (a, m + 1) :: (m, b) :: post).IsChain fun r r' => r'.1 + 1 = r.2 := by
  obtain ⟨hbefore, hafter⟩ := List.isChain_split.mp hnext
  rw [List.isChain_append_cons_cons]
  refine ⟨?_, rfl, ?_⟩
  · rw [List.isChain_append] at hbefore ⊢
    refine ⟨hbefore.1, List.isChain_singleton _, fun x hx y hy => ?_⟩
    rw [List.head?_singleton, Option.mem_some_iff] at hy
    subst hy
    exact hbefore.2.2 x hx (a, b) rfl
  · rw [List.isChain_cons] at hafter ⊢
    exact hafter

/-- The split itself is paid by the range that it makes smaller, or by the first one. -/
theorem budget_split (hbudget : (pre ++ (a, b) :: post).length +
      ((pre ++ (a, b) :: post).map fun r => splitBudget h r.1 r.2).sum +
      firstWide (pre ++ (a, b) :: post) ≤ 1060)
    (hm : m + 1 = leftEnd a b) (hlt : leftEnd a b < b) (hin : a ≤ h ∧ h ≤ b)
    (hw : pre = [] ∨ a + 3 ≤ b) :
    (pre ++ (a, m + 1) :: (m, b) :: post).length +
      ((pre ++ (a, m + 1) :: (m, b) :: post).map fun r => splitBudget h r.1 r.2).sum +
      firstWide (pre ++ (a, m + 1) :: (m, b) :: post) ≤ 1060 := by
  have hwide := firstWide_split pre post hm hlt
  simp only [List.length_append, List.length_cons, List.map_append, List.map_cons,
    List.sum_append, List.sum_cons] at hbudget ⊢
  by_cases hb : a + 3 ≤ b
  · have := splitBudget_split hm hb hin
    omega
  · -- the range `[a, a + 2]` for an odd `a`, the first one
    have hnil := hw.resolve_right hb
    subst hnil
    have hleft : splitBudget h a (m + 1) = 0 := splitBudget_narrow (by omega)
    have hright : splitBudget h m b = 0 := splitBudget_narrow (by unfold leftEnd at *; omega)
    have hone : firstWide ([] ++ (a, b) :: post) = 1 := if_pos (by unfold leftEnd at *; omega)
    have hzero : firstWide ([] ++ (a, m + 1) :: (m, b) :: post) = 0 :=
      if_neg (by unfold leftEnd at *; omega)
    rw [hone] at hbudget
    rw [hleft, hright, hzero]
    omega

/-- A range that covers the holder, and that its left half makes smaller. Only the
first range can be one of three ids. -/
theorem ascending_split (hA : Ascending h (pre ++ (a, b) :: post)) (hm : m + 1 = leftEnd a b)
    (hlt : leftEnd a b < b) (hin : a ≤ h ∧ h ≤ b) (hw : pre = [] ∨ a + 3 ≤ b) :
    Ascending h (pre ++ (a, m + 1) :: (m, b) :: post) where
  increasing := by
    refine increasing_split hA.increasing (hm ▸ hlt) fun r hr => ?_
    have hra := hA.le_of_pre r hr
    have hwide := hw.resolve_left (List.ne_nil_of_mem hr)
    unfold leftEnd at hm
    omega
  next := next_split hA.next
  budget := budget_split hA.budget hm hlt hin hw

/-! ## Placement -/

def ends (t : RoutingTable) : List (Nat × Nat) := t.ranges.map fun r => (r.1.toNat, r.2.toNat)

/-- The id is not above the range at `j`, and it is above those before. -/
def Fits (t : RoutingTable) (j : Nat) (b : KBucket) (id : KadID) : Prop :=
  id ≤ b.rangeMax ∧ ∀ k d, k < j → t.kBuckets[k]? = some d → d.rangeMax < id

structure Placed (t : RoutingTable) : Prop where
  live : Live t
  ascending : Ascending t.holderId.toNat t.ends
  limit : ∀ b ∈ t.kBuckets, b.rangeMax ≤ KadID.kMaxID
  fits : ∀ j b, t.kBuckets[j]? = some b → ∀ c ∈ b.contacts, Fits t j b c.nodeId

section

variable {t t' : RoutingTable} {c : Contact} {clock : Digest × Digest} {id : KadID} {i j k : Nat}
  {b d : KBucket} {past : Past}

theorem getElem?_ends (t : RoutingTable) (i : Nat) :
    t.ends[i]? = t.kBuckets[i]?.map fun b => (b.rangeMin.toNat, b.rangeMax.toNat) := by
  rw [ends, List.getElem?_map, getElem?_ranges, Option.map_map]
  rfl

theorem Ascending.length_le (hA : Ascending h t.ends) : t.kBuckets.length ≤ 1060 := by
  have hbudget := hA.budget
  have hlen : t.ends.length = t.kBuckets.length := by simp [ends, ranges]
  omega

theorem Placed.length_le (hp : Placed t) : t.kBuckets.length ≤ 1060 := hp.ascending.length_le

/-- The bucket before one ends one above its start. -/
theorem Ascending.prev (hA : Ascending h t.ends) (hb : t.kBuckets[j]? = some b)
    (hd : t.kBuckets[j + 1]? = some d) : d.rangeMin.toNat + 1 = b.rangeMax.toNat := by
  have hbe : t.ends[j]? = some (b.rangeMin.toNat, b.rangeMax.toNat) := by
    rw [getElem?_ends, hb, Option.map_some]
  have hde : t.ends[j + 1]? = some (d.rangeMin.toNat, d.rangeMax.toNat) := by
    rw [getElem?_ends, hd, Option.map_some]
  obtain ⟨hj, hbj⟩ := List.getElem?_eq_some_iff.mp hbe
  obtain ⟨hj', hdj⟩ := List.getElem?_eq_some_iff.mp hde
  have hnext := List.isChain_iff_getElem.mp hA.next j hj'
  rwa [hbj, hdj] at hnext

theorem Placed.lt (hp : Placed t) (hik : i < k) (hb : t.kBuckets[i]? = some b)
    (hd : t.kBuckets[k]? = some d) : b.rangeMax < d.rangeMax := by
  have hbe : t.ends[i]? = some (b.rangeMin.toNat, b.rangeMax.toNat) := by
    rw [getElem?_ends, hb, Option.map_some]
  have hde : t.ends[k]? = some (d.rangeMin.toNat, d.rangeMax.toNat) := by
    rw [getElem?_ends, hd, Option.map_some]
  obtain ⟨hi, hbi⟩ := List.getElem?_eq_some_iff.mp hbe
  obtain ⟨hk, hdk⟩ := List.getElem?_eq_some_iff.mp hde
  have hlt := List.pairwise_iff_getElem.mp hp.ascending.increasing i k hi hk hik
  rw [hbi, hdk] at hlt
  exact KadID.lt_def.mpr hlt

theorem fits_of_routes (hp : Placed t) (hr : Routes t id j b) : Fits t j b id := by
  refine ⟨hr.le, fun k d hk hd => ?_⟩
  rw [← not_le]
  intro hle
  have hmin := hr.least d (List.mem_of_getElem? hd) hle
  exact absurd (hp.lt hk hd hr.get) (not_lt.mpr hmin)

theorem routes_of_fits (hp : Placed t) (hb : t.kBuckets[j]? = some b) (hf : Fits t j b id) :
    Routes t id j b where
  get := hb
  le := hf.1
  least := by
    intro d hd hle
    obtain ⟨k, hk⟩ := List.getElem?_of_mem hd
    rcases Nat.lt_trichotomy k j with hlt | rfl | hgt
    · exact absurd hle (not_le.mpr (hf.2 k d hlt hk))
    · rw [hb, Option.some.injEq] at hk
      rw [hk]
    · exact le_of_lt (hp.lt hgt hb hk)
  first := by
    intro k d hk hkj heq
    have hlt := hp.lt hkj hk hb
    rw [heq] at hlt
    exact lt_irrefl _ hlt

theorem Placed.routes (hp : Placed t) (hid : id ≤ KadID.kMaxID) (ha : Accessed t id j b) :
    Routes t id j b := by
  obtain ⟨p, bp, hr, -, hidx⟩ := ha.routes hp.live.base hid
  have hlen := hp.length_le
  have hplt := hr.lt
  have hj := ha.lt
  have hpj : p = j := by
    rw [← toNat_ofNat_position (show p < 65536 by omega), hidx, toNat_ofNat_position (by omega)]
  subst hpj
  have hget := hr.get
  rw [ha.get, Option.some.injEq] at hget
  exact hget ▸ hr

/-! ## What a change of one bucket keeps -/

theorem ends_setBucket (hget : t.kBuckets[j]? = some b) (hmin : d.rangeMin = b.rangeMin)
    (hmax : d.rangeMax = b.rangeMax) : (t.setBucket j d).ends = t.ends := by
  rw [ends, ranges_setBucket hget hmin hmax, ends]

theorem placed_setBucket (hp : Placed t) (hget : t.kBuckets[j]? = some b)
    (hmin : d.rangeMin = b.rangeMin) (hmax : d.rangeMax = b.rangeMax) (hl : Live (t.setBucket j d))
    (hc : ∀ c ∈ d.contacts, Fits t j b c.nodeId) : Placed (t.setBucket j d) where
  live := hl
  ascending := by
    rw [ends_setBucket hget hmin hmax]
    exact hp.ascending
  limit := by
    intro e he
    rcases List.mem_or_eq_of_mem_set he with h | h
    · exact hp.limit e h
    · rw [h, hmax]
      exact hp.limit b (List.mem_of_getElem? hget)
  fits := by
    have hj := (List.getElem?_eq_some_iff.mp hget).1
    -- the upper ends are the same at each position
    have hsame : ∀ k e, (t.setBucket j d).kBuckets[k]? = some e →
        ∃ e', t.kBuckets[k]? = some e' ∧ e.rangeMax = e'.rangeMax ∧ (k ≠ j → e = e') := by
      intro k e he
      obtain ⟨rfl, rfl⟩ | ⟨-, he⟩ := setBucket_cases he
      · exact ⟨b, hget, hmax, fun hne => absurd rfl hne⟩
      · exact ⟨e, he, rfl, fun _ => rfl⟩
    intro k e he c hce
    obtain ⟨e', he', hmax', hne⟩ := hsame k e he
    have hfit : Fits t k e' c.nodeId := by
      by_cases hkj : k = j
      · subst hkj
        rw [hget, Option.some.injEq] at he'
        rw [setBucket, List.getElem?_set_self hj, Option.some.injEq] at he
        subst he he'
        exact hc c hce
      · rw [hne hkj] at hce
        exact hp.fits k e' he' c hce
    refine ⟨hmax' ▸ hfit.1, fun i f hik hf => ?_⟩
    obtain ⟨f', hf', hfmax, -⟩ := hsame i f hf
    rw [hfmax]
    exact hfit.2 i f' hik hf'

/-! ## What a split keeps -/

theorem length_le_of_range {lo hi : Nat} (hok : b.Ok)
    (h : ∀ c ∈ b.contacts, lo ≤ c.nodeId.toNat ∧ c.nodeId.toNat ≤ hi) :
    b.contacts.length ≤ hi + 1 - lo := by
  have hnd : ((b.contacts.map Contact.nodeId).map KadID.toNat).Nodup :=
    hok.nodup.map fun _ _ he => KadID.toNat_inj he
  have hsub : ((b.contacts.map Contact.nodeId).map KadID.toNat).toFinset ⊆ Finset.Icc lo hi := by
    intro n hn
    rw [List.mem_toFinset, List.map_map] at hn
    obtain ⟨c, hc, rfl⟩ := List.mem_map.mp hn
    exact Finset.mem_Icc.mpr (h c hc)
  have hcard := Finset.card_le_card hsub
  rwa [List.toFinset_card_of_nodup hnd, List.length_map, List.length_map, Nat.card_Icc] at hcard

theorem ends_splitAt (past : Past) (hget : t.kBuckets[j]? = some b) : ∃ pre post,
    t.ends = pre ++ (b.rangeMin.toNat, b.rangeMax.toNat) :: post ∧
    (t.splitAt past j b).ends = pre ++ (b.rangeMin.toNat, (leftHalf past b).rangeMax.toNat) ::
      ((rightHalf past b).rangeMin.toNat, b.rangeMax.toNat) :: post ∧
    ∀ r ∈ pre, ∃ k d, k < j ∧ t.kBuckets[k]? = some d ∧ r.2 = d.rangeMax.toNat := by
  obtain ⟨hj, hb⟩ := List.getElem?_eq_some_iff.mp hget
  have hlist : t.kBuckets = t.kBuckets.take j ++ b :: t.kBuckets.drop (j + 1) := by
    rw [← hb, ← List.drop_eq_getElem_cons hj, List.take_append_drop]
  refine ⟨(t.kBuckets.take j).map fun b => (b.rangeMin.toNat, b.rangeMax.toNat),
    (t.kBuckets.drop (j + 1)).map fun b => (b.rangeMin.toNat, b.rangeMax.toNat), ?_, ?_, ?_⟩
  · have hends : t.ends = t.kBuckets.map fun b => (b.rangeMin.toNat, b.rangeMax.toNat) := by
      rw [ends, ranges, List.map_map]
      rfl
    rw [hends]
    conv_lhs => rw [hlist]
    rw [List.map_append, List.map_cons]
  · simp [ends, ranges, splitAt, Function.comp_def]
  · intro r hr
    obtain ⟨d, hd, rfl⟩ := List.mem_map.mp hr
    obtain ⟨k, hk⟩ := List.getElem?_of_mem hd
    rw [List.getElem?_take] at hk
    split at hk
    · exact ⟨k, d, by assumption, hk, rfl⟩
    · cases hk

/-- With all contacts in the left half's range or above. -/
theorem fits_splitAt (hp : Placed t) (hlt : (leftHalf past b).rangeMax < b.rangeMax)
    (hget : t.kBuckets[j]? = some b) (hrange : ∀ c ∈ b.contacts, b.rangeMin ≤ c.nodeId) :
    ∀ k d, (t.splitAt past j b).kBuckets[k]? = some d → ∀ c ∈ d.contacts,
      Fits (t.splitAt past j b) k d c.nodeId := by
  have hj := (List.getElem?_eq_some_iff.mp hget).1
  intro k d hd c hc
  -- an id above all ranges before `n` is above the ranges before `m` after the split
  have hbefore : ∀ n m, m ≤ n + 1 → (m ≤ n ∨ j < m) →
      (m ≤ j ∨ j < n ∨ (leftHalf past b).rangeMax < c.nodeId) →
      (∀ i e, i < n → t.kBuckets[i]? = some e → e.rangeMax < c.nodeId) →
      ∀ i e, i < m → (t.splitAt past j b).kBuckets[i]? = some e → e.rangeMax < c.nodeId := by
    intro n m hmn hmn' hcase hall i e him he
    obtain ⟨hij, he⟩ | ⟨rfl, rfl⟩ | ⟨rfl, rfl⟩ | ⟨hij, he⟩ := splitAt_cases hj he
    · exact hall i e (by omega) he
    · rcases hcase with hm | hn | habove
      · omega
      · exact hlt.trans (hall i b hn hget)
      · exact habove
    · exact hall j b (by omega) hget
    · exact hall (i - 1) e (by omega) he
  obtain ⟨hkj, hd⟩ | ⟨rfl, rfl⟩ | ⟨rfl, rfl⟩ | ⟨hkj, hd⟩ := splitAt_cases hj hd
  · obtain ⟨h₁, h₂⟩ := hp.fits k d hd c hc
    exact ⟨h₁, hbefore k k (by omega) (by omega) (by omega) h₂⟩
  · obtain ⟨hcb, -, hle⟩ := mem_leftHalf.mp hc
    exact ⟨hle, hbefore k k (by omega) (by omega) (by omega) (hp.fits k b hget c hcb).2⟩
  · obtain ⟨hcb, hout⟩ := mem_rightHalf.mp hc
    obtain ⟨h₁, h₂⟩ := hp.fits j b hget c hcb
    have habove : (leftHalf past b).rangeMax < c.nodeId :=
      not_le.mp fun hle => hout ⟨hrange c hcb, hle⟩
    exact ⟨h₁, hbefore j (j + 1) (by omega) (by omega) (.inr (.inr habove)) h₂⟩
  · obtain ⟨h₁, h₂⟩ := hp.fits (k - 1) d hd c hc
    exact ⟨h₁, hbefore (k - 1) k (by omega) (by omega) (by omega) h₂⟩

/-- Everything in the bucket that the call for `id` is about to split lies in its
range or above. -/
def InRange (t : RoutingTable) (id : KadID) : Prop :=
  ∀ j b, Accessed t id j b → b.FullWithout id → t.Splittable b →
    ∀ c ∈ b.contacts, b.rangeMin ≤ c.nodeId

theorem inRange_splitAt (hB : Base t) (hid : id ≤ KadID.kMaxID) (past : Past)
    (ha : Accessed t id j b) (hrange : ∀ c ∈ b.contacts, b.rangeMin ≤ c.nodeId) :
    InRange (t.splitAt past j b) id := by
  intro k d hd _ _ c hc
  rcases accessed_splitAt hB hid ha hd with ⟨-, -, rfl⟩ | ⟨-, -, rfl⟩
  · exact (mem_leftHalf.mp hc).2.1
  · obtain ⟨hcb, hout⟩ := mem_rightHalf.mp hc
    have habove : (leftHalf past b).rangeMax < c.nodeId :=
      not_le.mp fun hle => hout ⟨hrange c hcb, hle⟩
    have hmid := toNat_rightHalf_rangeMin past b
    rw [KadID.lt_def] at habove
    rw [KadID.le_def]
    omega

/-- A full bucket for more than two, with its contacts in range, has a left half
that is smaller; else the call would not return. -/
theorem leftEnd_lt (hp : Placed t) (hK : 2 < t.K.toNat) (hid : id ≤ KadID.kMaxID)
    (ha : Accessed t id j b) (hf : b.FullWithout id) (hsp : t.Splittable b)
    (hrange : ∀ c ∈ b.contacts, b.rangeMin ≤ c.nodeId) (hns : ¬ t.Stuck id) :
    leftEnd b.rangeMin.toNat b.rangeMax.toNat < b.rangeMax.toNat := by
  have hok := hp.live.base.ok b (List.mem_of_getElem? ha.get)
  have hr := hp.routes hid ha
  have hin : ∀ c ∈ b.contacts, b.rangeMin.toNat ≤ c.nodeId.toNat ∧
      c.nodeId.toNat ≤ b.rangeMax.toNat := fun c hc =>
    ⟨KadID.le_def.mp (hrange c hc), KadID.le_def.mp (hp.fits j b ha.get c hc).1⟩
  have hwide := length_le_of_range hok.1 hin
  rw [hf.1, hok.2] at hwide
  by_contra hge
  have hends : leftEnd b.rangeMin.toNat b.rangeMax.toNat = b.rangeMax.toNat := by
    unfold leftEnd at *
    omega
  refine hns ⟨j, b, b.rangeMax.toNat, ha, hf, hsp, hends, hends.ge, KadID.le_def.mp hr.le, ?_, ?_, ?_⟩
  · exact fun c hc => ⟨hrange c hc, (hin c hc).2⟩
  · intro d hd hk
    rw [hends]
    exact KadID.le_def.mp (hr.least d hd hk)
  · rcases hsp with h2 | hholder
    · exact .inl h2
    · exact .inr (KadID.le_def.mp (KBucket.keyInRange_iff.mp hholder).2)

/-- A split of a bucket of four ids or more, or of the first one where its left half is
smaller. -/
theorem ascending_splitAt (hA : Ascending t.holderId.toNat t.ends) (hev : KadID.EvenPast past)
    (hget : t.kBuckets[j]? = some b) (hholder : b.keyInRange t.holderId = true)
    (hlt : leftEnd b.rangeMin.toNat b.rangeMax.toNat < b.rangeMax.toNat)
    (hw : j = 0 ∨ b.rangeMin.toNat + 3 ≤ b.rangeMax.toNat) :
    Ascending t.holderId.toNat (t.splitAt past j b).ends := by
  have hend := toNat_leftHalf_rangeMax hev b
  have hmid := toNat_rightHalf_rangeMin past b
  have hin := KBucket.keyInRange_iff.mp hholder
  obtain ⟨pre, post, hends, hends', hpre⟩ := ends_splitAt past hget
  rw [hends] at hA
  rw [hends', ← hmid]
  refine ascending_split hA (hmid.trans hend) hlt
    ⟨KadID.le_def.mp hin.1, KadID.le_def.mp hin.2⟩ (hw.imp_left fun h0 => ?_)
  refine List.eq_nil_iff_forall_not_mem.mpr fun r hr => ?_
  obtain ⟨k, -, hk, -⟩ := hpre r hr
  omega

/-- Behind the first one, a full bucket with its contacts in place has four ids. -/
theorem wide_of_full (hp : Placed t) (hK : 2 < t.K.toNat) (hget : t.kBuckets[j]? = some b)
    (hf : b.FullWithout id) : j = 0 ∨ b.rangeMin.toNat + 3 ≤ b.rangeMax.toNat := by
  cases j with
  | zero => exact .inl rfl
  | succ k =>
    right
    have hok := hp.live.base.ok b (List.mem_of_getElem? hget)
    have hk : k < t.kBuckets.length := by
      have := (List.getElem?_eq_some_iff.mp hget).1
      omega
    have hd := List.getElem?_eq_getElem hk
    have hprev := hp.ascending.prev hd hget
    -- the contacts are above the end of the range before
    have habove : ∀ c ∈ b.contacts, b.rangeMin.toNat + 2 ≤ c.nodeId.toNat ∧
        c.nodeId.toNat ≤ b.rangeMax.toNat := by
      intro c hc
      obtain ⟨h₁, h₂⟩ := hp.fits (k + 1) b hget c hc
      have hlt := KadID.lt_def.mp (h₂ k _ k.lt_succ_self hd)
      exact ⟨by omega, KadID.le_def.mp h₁⟩
    have hwide := length_le_of_range hok.1 habove
    rw [hf.1, hok.2] at hwide
    omega

theorem placed_splitAt (hp : Placed t) (hK : 2 < t.K.toNat) (hev : KadID.EvenPast past)
    (hid : id ≤ KadID.kMaxID) (ha : Accessed t id j b) (hf : b.FullWithout id)
    (hsp : t.Splittable b) (hrange : ∀ c ∈ b.contacts, b.rangeMin ≤ c.nodeId)
    (hns : ¬ t.Stuck id) : Placed (t.splitAt past j b) := by
  have hlt := leftEnd_lt hp hK hid ha hf hsp hrange hns
  have hholder : b.keyInRange t.holderId = true := hsp.resolve_left (by omega)
  have hless : (leftHalf past b).rangeMax < b.rangeMax := by
    rw [KadID.lt_def, toNat_leftHalf_rangeMax hev b]
    exact hlt
  have hlimit := hp.limit b (List.mem_of_getElem? ha.get)
  refine ⟨live_splitAt hp.live hev ha,
    ascending_splitAt hp.ascending hev ha.get hholder hlt (wide_of_full hp hK ha.get hf), ?_,
    fits_splitAt hp hless ha.get hrange⟩
  intro d hd
  rcases mem_splitAt hd with rfl | rfl | h
  · exact (le_of_lt hless).trans hlimit
  · exact hlimit
  · exact hp.limit d h

/-! ## Whole calls -/

theorem fits_filter (hp : Placed t) (hget : t.kBuckets[j]? = some b) (p : Contact → Bool) :
    ∀ c ∈ b.contacts.filter p, Fits t j b c.nodeId :=
  fun c hc => hp.fits j b hget c (List.mem_filter.mp hc).1

theorem Accessed.le (hB : Base t) (ha : Accessed t id j b) : id ≤ KadID.kMaxID := by
  rw [← not_lt]
  intro hgt
  have hidx := ha.index.symm.trans (kBucketIndex_of_gt hB hgt)
  rw [Except.ok.injEq] at hidx
  have hj := ha.lt
  have hmod := congrArg BitVec.toNat hidx
  rw [toNat_ofNat_position (by omega)] at hmod
  have hone : (-1 : UShort).toNat = 65535 := by decide
  omega

/-- The new contact in front of those of the bucket that stay. -/
theorem placed_front (hp : Placed t) (ha : Accessed t c.nodeId j b) (p : Contact → Bool)
    (hl : Live (t.setBucket j { b with contacts := c :: b.contacts.filter p })) :
    Placed (t.setBucket j { b with contacts := c :: b.contacts.filter p }) := by
  refine placed_setBucket hp ha.get rfl rfl hl fun d hd => ?_
  rcases List.mem_cons.mp hd with rfl | hd
  · exact fits_of_routes hp (hp.routes (ha.le hp.live.base) ha)
  · exact fits_filter hp ha.get p d hd

theorem placed_level_ret (hp : Placed t) {code : Int}
    (h : t.addContactLevel clock c = .ok (.ret code t')) : Placed t' := by
  have hl := live_level_ret hp.live h
  rcases level_ret hp.live.base h with ⟨-, rfl⟩ | ⟨-, j, b, ha, ⟨-, rfl⟩ | ⟨-, -, -, victim, -, rfl⟩⟩
  · exact hp
  · exact placed_front hp ha _ hl
  · exact placed_front hp ha _ hl

theorem placed_addContact (hp : Placed t) (hK : 2 < t.K.toNat) (hrange : InRange t c.nodeId)
    {pasts rest : List Past} {code : Int} (hev : ∀ past ∈ pasts, KadID.EvenPast past)
    (h : addContact clock c pasts t = .ok (some (code, t', rest))) : Placed t' := by
  rcases lt_or_ge KadID.kMaxID c.nodeId with hgt | hid
  · rw [addContact_of_gt hp.live.base hgt] at h
    cases h
    exact hp
  · have hns : ¬ t.Stuck c.nodeId := by
      intro hs
      rw [addContact_of_stuck hp.live hid hs hev] at h
      cases h
    obtain ⟨t₁, ⟨hp₁, -, -, -⟩, -, hret⟩ := addContact_last
      (I := fun t => Placed t ∧ 2 < t.K.toNat ∧ InRange t c.nodeId ∧ ¬ t.Stuck c.nodeId)
      KadID.EvenPast (fun _ h => h.1.live.base)
      (fun t past j b ⟨hp, hK, hrange, hns⟩ hev ha hf hsp =>
        ⟨placed_splitAt hp hK hev hid ha hf hsp (hrange j b ha hf hsp) hns, hK,
          inRange_splitAt hp.live.base hid past ha (hrange j b ha hf hsp),
          fun hs => hns (stuck_of_splitAt hp.live (by omega) hev hid ha hf hsp hs)⟩)
      ⟨hp, hK, hrange, hns⟩ hev h
    exact placed_level_ret hp₁ hret

/-! ## Runs -/

/-- The contacts of the table, bucket after bucket. -/
def stored (t : RoutingTable) : List Contact := t.kBuckets.flatMap (·.contacts)

structure Findable (t : RoutingTable) : Prop where
  index : ∀ i b, t.kBuckets[i]? = some b → ∀ c ∈ b.contacts,
    ∃ u, t.kBucketIndex c.nodeId = .ok u ∧ u.toNat = i
  get : ∀ c ∈ t.stored, t.getContact c.nodeId = .ok (some c)
  remove : ∀ c ∈ t.stored, ∃ t', t.removeContact c.nodeId = .ok t' ∧
    ∀ d ∈ t'.stored, d.nodeId ≠ c.nodeId
  unique : (t.stored.map Contact.nodeId).Nodup

theorem mem_stored : c ∈ t.stored ↔
    ∃ (i : Nat) (b : KBucket), t.kBuckets[i]? = some b ∧ c ∈ b.contacts := by
  rw [stored, List.mem_flatMap]
  constructor
  · intro ⟨b, hb, hc⟩
    obtain ⟨i, hi⟩ := List.getElem?_of_mem hb
    exact ⟨i, b, hi, hc⟩
  · intro ⟨i, b, hi, hc⟩
    exact ⟨b, List.mem_of_getElem? hi, hc⟩

/-- Lookup, removal and uniqueness follow from every contact lying where
`KBucketIndex` looks. -/
theorem findable_of_index (hB : Base t) (h : ∀ i b, t.kBuckets[i]? = some b → ∀ c ∈ b.contacts,
    ∃ u, t.kBucketIndex c.nodeId = .ok u ∧ u.toNat = i) : Findable t where
  index := h
  get := by
    intro c hc
    obtain ⟨i, b, hb, hcb⟩ := mem_stored.mp hc
    obtain ⟨u, hu, rfl⟩ := h i b hb c hcb
    rw [getContact_of_index hu hb]
    exact congrArg _ ((KBucket.getContact_eq_some (hB.ok b (List.mem_of_getElem? hb)).1).mpr
      ⟨hcb, rfl⟩)
  remove := by
    intro c hc
    obtain ⟨i, b, hb, hcb⟩ := mem_stored.mp hc
    obtain ⟨u, hu, rfl⟩ := h i b hb c hcb
    refine ⟨_, removeContact_of_index hu hb, fun d hd he => ?_⟩
    obtain ⟨k, e, hk, hde⟩ := mem_stored.mp hd
    obtain ⟨-, rfl⟩ | ⟨hne, hk⟩ := setBucket_cases hk
    · have hok := hB.ok b (List.mem_of_getElem? hb)
      exact ((KBucket.mem_removeContact hok.1).mp hde).2 he
    · obtain ⟨v, hv, rfl⟩ := h k e hk d hde
      rw [he, hu, Except.ok.injEq] at hv
      exact hne (congrArg BitVec.toNat hv.symm)
  unique := by
    rw [stored, List.map_flatMap, List.nodup_flatMap]
    refine ⟨fun b hb => (hB.ok b hb).1.nodup, List.pairwise_iff_getElem.mpr ?_⟩
    intro i k hi hk hik id hid hid'
    obtain ⟨c, hc, rfl⟩ := List.mem_map.mp hid
    obtain ⟨d, hd, he⟩ := List.mem_map.mp hid'
    obtain ⟨u, hu, rfl⟩ := h i _ (List.getElem?_eq_getElem hi) c hc
    obtain ⟨v, hv, rfl⟩ := h k _ (List.getElem?_eq_getElem hk) d hd
    rw [he, hu, Except.ok.injEq] at hv
    exact absurd (congrArg BitVec.toNat hv) (Nat.ne_of_lt hik)

theorem findable_of_placed (hp : Placed t) : Findable t := by
  refine findable_of_index hp.live.base fun i b hb c hc => ?_
  have hfit := hp.fits i b hb c hc
  have hid := hfit.1.trans (hp.limit b (List.mem_of_getElem? hb))
  have hi := (List.getElem?_eq_some_iff.mp hb).1
  have hlen := hp.length_le
  exact ⟨_, kBucketIndex_of_routes hp.live.base hid (routes_of_fits hp hb hfit),
    toNat_ofNat_position (by omega)⟩

/-- The condition on a step: an `AddContact` that splits finds the bucket's
contacts in its range. -/
def SplitsInRange (t : RoutingTable) : Op → Prop
  | .add c _ _ => t.InRange c.nodeId
  | .remove _ => True
  | .touch _ _ => True
  | .clear _ => True

theorem placed_new (holderId : KadID) (rtK : UShort) (minRange : Digest) :
    Placed (new holderId rtK minRange) where
  live := live_new holderId rtK minRange
  ascending := ascending_single KadID.toNat_kMaxID_lt
  limit := by
    intro b hb
    rw [List.mem_singleton.mp hb]
    exact le_refl _
  fits := by
    intro j b hb c hc
    rw [List.mem_singleton.mp (List.mem_of_getElem? hb)] at hc
    cases hc

theorem placed_step {op : Op} (hp : Placed t) (hK : 2 < t.K.toNat) (hop : Halving op)
    (hrange : t.SplitsInRange op) (h : step t op = some t') : Placed t' := by
  have hl := live_step hp.live hop h
  cases op with
  | add c clock pasts =>
    obtain ⟨code, h⟩ := step_add h
    exact placed_addContact hp hK hrange hop h
  | remove id =>
    obtain ⟨u, b, -, hb, rfl⟩ := removeContact_cases hp.live.base (step_remove h)
    refine placed_setBucket hp hb rfl rfl hl ?_
    have hok := hp.live.base.ok b (List.mem_of_getElem? hb)
    exact fun c hc => hp.fits _ b hb c ((KBucket.mem_removeContact hok.1).mp hc).1
  | touch id current =>
    obtain ⟨u, b, -, hb, rfl⟩ := touchKBucket_cases hp.live.base (step_touch h)
    exact placed_setBucket hp hb rfl rfl hl (hp.fits _ b hb)
  | clear minRange => exact hop.elim

/-- **Every stored contact is found**, as long as no bucket is split that holds a
contact below its range. -/
theorem findable_of_steps {holderId : KadID} {rtK : UShort} {minRange : Digest}
    {tr : List (Op × RoutingTable)} (hK : 2 < rtK.toNat)
    (hr : table.Run (new holderId rtK minRange) tr t)
    (hok : LTS.Steps (fun t op => Halving op ∧ SplitsInRange t op) (new holderId rtK minRange) tr) :
    LTS.States Findable (new holderId rtK minRange) tr :=
  LTS.states_of_steps (I := fun t => Placed t ∧ Params holderId rtK t)
    (fun _ hI => findable_of_placed hI.1)
    (fun _ _ _ hI hok h => ⟨placed_step hI.1 (hI.2.K ▸ hK) hok.1 hok.2 h,
      params_step hI.1.live.base hI.2 h⟩)
    hr ⟨placed_new holderId rtK minRange, ⟨rfl, rfl⟩⟩ hok

/-! ## Above and below the first range -/

/-- Contacts with the ids 200, 300, 400, and one at the top for which the bucket is
split. -/
def addAbove : List Op :=
  ([200, 300, 400].map fun id => addOp (contactAt ⟨Rossi.ofUlong id⟩) 0) ++
    [addOp (contactAt .kMaxIDWords) 1]

theorem addAbove_isSome : (LTS.exec step (fresh 100 3 8) addAbove).isSome = true := by
  decide +kernel

/-- All ids are above the lower end 8. -/
theorem steps_addAbove : LTS.Steps (fun t op => Halving op ∧ SplitsInRange t op) (fresh 100 3 8)
    ((LTS.exec step (fresh 100 3 8) addAbove).get addAbove_isSome) := by
  have hall : LTS.Steps (fun t op => Halving op ∧
      ∀ b ∈ t.kBuckets, ∀ c ∈ b.contacts, b.rangeMin ≤ c.nodeId) (fresh 100 3 8)
      ((LTS.exec step (fresh 100 3 8) addAbove).get addAbove_isSome) := by decide +kernel
  refine hall.mono ?_
  intro t op ⟨hop, hall⟩
  refine ⟨hop, ?_⟩
  cases op with
  | add c clock pasts => exact fun j b ha _ _ => hall b (List.mem_of_getElem? ha.get)
  | remove id => trivial
  | touch id current => trivial
  | clear minRange => trivial

/-- The split keeps them findable. -/
theorem findable_addAbove :
    LTS.States Findable (fresh 100 3 8) ((LTS.exec step (fresh 100 3 8) addAbove).get addAbove_isSome) := by
  have hsteps := findable_of_steps (by decide) (run_fresh addAbove_isSome)
  rw [fresh_eq] at hsteps
  exact hsteps steps_addAbove

/-- The id 1 lies below the range of the first bucket when it is split for the id 4. -/
def addBelow : List Op :=
  ([1, 200, 300].map fun id => addOp (contactAt ⟨Rossi.ofUlong id⟩) 0) ++
    [addOp (contactAt ⟨Rossi.ofUlong 4⟩) 1]

theorem addBelow_isSome : (LTS.exec step (fresh 100 3 8) addBelow).isSome = true := by
  decide +kernel

/-- The id of an `AddContact` is not above `limit`. -/
def AddsUpTo (limit : KadID) : Op → Prop
  | .add c _ _ => c.nodeId ≤ limit
  | _ => True

instance (limit : KadID) : DecidablePred (AddsUpTo limit)
  | .add c _ _ => inferInstanceAs (Decidable (c.nodeId ≤ limit))
  | .remove _ => instDecidableTrue
  | .touch _ _ => instDecidableTrue
  | .clear _ => instDecidableTrue

/-- The contact 1 is stored and not found. -/
theorem findable_counterexample : ¬ ∀ (holderId : KadID) (rtK : UShort) (minRange : Digest)
    (tr : List (Op × RoutingTable)) (t : RoutingTable), 2 < rtK.toNat →
    table.Run (new holderId rtK minRange) tr t →
    LTS.Steps (fun _ op => Halving op ∧ AddsUpTo KadID.kMaxID op) (new holderId rtK minRange) tr →
    Findable t := by
  intro h
  have hfind := h _ _ _ _ _ (by decide) (run_fresh addBelow_isSome) (by
    rw [fresh_eq, KadID.kMaxID_eq]
    decide +kernel)
  have hget := hfind.get (contactAt ⟨Rossi.ofUlong 1⟩) (by decide +kernel)
  revert hget
  decide +kernel

end

end Kadpeer.L3.RoutingTable
