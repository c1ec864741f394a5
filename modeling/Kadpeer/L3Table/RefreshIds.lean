import Kadpeer.L3Table.FindClose
import Kadpeer.L3Table.RefreshList

/-!
# The ids to refresh with

`GetRefreshList` looks up the middle of each bucket's range. The id is in the range, but
routing knows upper ends only: it goes to the first bucket that ends at or above it. As the
halves of a split share two ids, a range that is not the first one starts one below the end
of the one before, and the middle of a range of four ids or less is not above that end.

`KadID(min, max)` shifts and so reads a word past the end of the sum. If that word is odd
the id is out of the range, but for a range that `FillsWords`.

* `refreshHits_iff`: all ids from a position on come back to their buckets exactly when
  each of these buckets `HitsBack`, with its word past the end.
* `homes_iff_of_placed`: in a table in which every contact is found this says that the
  bucket is the first one or at least five ids wide.
* `refreshHits_counterexample`: four neighbouring ids make `AddContact` split down to the
  ranges [8, 10] and [9, 11].
-/
namespace Kadpeer.L3.RoutingTable

open Kadpeer.Core Kadpeer.L1 Kadpeer.L2

/-- The forced list from `startKbucket` on: an id for each bucket, in its range and mapped
back to its position. -/
structure RefreshHits (t : RoutingTable) (startKbucket : UShort) (userTime : Nat)
    (past : Nat → Ulong) : Prop where
  length : (t.getRefreshList startKbucket true userTime past []).length =
    t.kBuckets.length - startKbucket.toNat
  hits : ∀ j id, (t.getRefreshList startKbucket true userTime past [])[j]? = some id →
    ∃ b, t.kBuckets[startKbucket.toNat + j]? = some b ∧ b.keyInRange id = true ∧
      id ≤ t.addressSpaceUpperAddress ∧
      ∃ u, t.kBucketIndex id = .ok u ∧ u.toNat = startKbucket.toNat + j

/-- No other bucket ends between the middle of the range and its end, and no earlier one
at its end. -/
structure Homes (t : RoutingTable) (i : Nat) (b : KBucket) : Prop where
  position : i < 65536
  ordered : b.rangeMin ≤ b.rangeMax
  limit : (b.rangeMin.toNat + b.rangeMax.toNat) / 2 ≤ KadID.kMaxID.toNat
  nearest : ∀ d ∈ t.kBuckets, (b.rangeMin.toNat + b.rangeMax.toNat) / 2 ≤ d.rangeMax.toNat →
    b.rangeMax ≤ d.rangeMax
  first : ∀ k d, t.kBuckets[k]? = some d → k < i → d.rangeMax ≠ b.rangeMax

/-- The range from 0 to all bits of some words set, and no earlier bucket with that end. -/
structure FillsWords (t : RoutingTable) (i : Nat) (b : KBucket) : Prop where
  position : i < 65536
  bottom : b.rangeMin.toNat = 0
  top : ∃ n, 0 < n ∧ b.rangeMax.toNat + 1 = 2 ^ (64 * n)
  limit : b.rangeMax ≤ KadID.kMaxID
  first : ∀ k d, t.kBuckets[k]? = some d → k < i → d.rangeMax ≠ b.rangeMax

/-- What the bucket needs, by the low bit of the word past the end. -/
def HitsBack (t : RoutingTable) (w : Ulong) (i : Nat) (b : KBucket) : Prop :=
  (w.toNat % 2 = 0 ∧ Homes t i b) ∨ (w.toNat % 2 = 1 ∧ FillsWords t i b)

variable {t t' : RoutingTable} {c : Contact} {clock : Digest × Digest} {i j : Nat} {b : KBucket}
  {startKbucket : UShort} {userTime : Nat} {past : Nat → Ulong} {w : Ulong} {id : KadID}

/-! ## The list -/

/-- Forced, no bucket is left out. -/
theorem refreshed_forced (currTime : BitVec 32) :
    t.refreshed startKbucket true currTime = t.kBuckets.zipIdx.drop startKbucket.toNat :=
  List.filter_eq_self.mpr fun _ _ => by rw [Bool.true_or]

theorem getElem?_forced (j : Nat) :
    (t.getRefreshList startKbucket true userTime past [])[j]? =
      t.kBuckets[startKbucket.toNat + j]?.map fun b =>
        KadID.ofRange (past (startKbucket.toNat + j)) b.rangeMin b.rangeMax := by
  rw [getRefreshList, refreshed_forced, List.nil_append, List.getElem?_map, List.getElem?_drop,
    List.getElem?_zipIdx, Option.map_map]
  cases t.kBuckets[startKbucket.toNat + j]? with
  | none => rfl
  | some b => simp

theorem length_forced :
    (t.getRefreshList startKbucket true userTime past []).length =
      t.kBuckets.length - startKbucket.toNat := by
  rw [getRefreshList, refreshed_forced, List.nil_append, List.length_map, List.length_drop,
    List.length_zipIdx]

/-! ## One id -/

/-- The id is in the range and is answered with the position. -/
structure Returned (t : RoutingTable) (id : KadID) (i : Nat) (b : KBucket) : Prop where
  position : i < 65536
  inRange : b.rangeMin ≤ id ∧ id ≤ b.rangeMax
  limit : id ≤ KadID.kMaxID
  routes : Routes t id i b

theorem returned_iff_homes (hw : w.toNat % 2 = 0) (hb : t.kBuckets[i]? = some b) :
    Returned t (KadID.ofRange w b.rangeMin b.rangeMax) i b ↔ Homes t i b := by
  have hid := KadID.toNat_ofRange hw b.rangeMin b.rangeMax
  constructor
  · intro h
    refine ⟨h.position, h.inRange.1.trans h.inRange.2, ?_, fun d hd hmid => ?_, h.routes.first⟩
    · rw [← hid]
      exact KadID.le_def.mp h.limit
    · rw [← hid, ← KadID.le_def] at hmid
      exact h.routes.least d hd hmid
  · intro h
    have hin : b.rangeMin ≤ KadID.ofRange w b.rangeMin b.rangeMax ∧
        KadID.ofRange w b.rangeMin b.rangeMax ≤ b.rangeMax := by
      have hle := KadID.le_def.mp h.ordered
      rw [KadID.le_def, KadID.le_def, hid]
      omega
    refine ⟨h.position, hin, ?_, hb, hin.2, fun d hd hle => ?_, h.first⟩
    · rw [KadID.le_def, hid]
      exact h.limit
    · rw [KadID.le_def, hid] at hle
      exact h.nearest d hd hle

theorem returned_iff_fillsWords (hw : w.toNat % 2 = 1) (hb : t.kBuckets[i]? = some b) :
    Returned t (KadID.ofRange w b.rangeMin b.rangeMax) i b ↔ FillsWords t i b := by
  constructor
  · intro h
    obtain ⟨heq, hbottom, htop⟩ := (KadID.ofRange_odd hw _ _).mp h.inRange
    exact ⟨h.position, hbottom, htop, heq ▸ h.limit, h.routes.first⟩
  · intro h
    obtain ⟨n, hn, hmax⟩ := h.top
    have heq := KadID.ofRange_words hw h.bottom hn hmax
    have hin := (KadID.ofRange_odd hw _ _).mpr ⟨heq, h.bottom, h.top⟩
    -- the id is the upper end itself
    exact ⟨h.position, hin, heq.symm ▸ h.limit, hb, hin.2, fun d _ hle => heq ▸ hle, h.first⟩

theorem returned_iff (hb : t.kBuckets[i]? = some b) :
    Returned t (KadID.ofRange w b.rangeMin b.rangeMax) i b ↔ HitsBack t w i b := by
  rcases Nat.mod_two_eq_zero_or_one w.toNat with hw | hw
  · rw [returned_iff_homes hw hb, HitsBack]
    simp [hw]
  · rw [returned_iff_fillsWords hw hb, HitsBack]
    simp [hw]

/-! ## All ids -/

theorem refreshHits_of_returned (hB : Base t)
    (h : ∀ i b, startKbucket.toNat ≤ i → t.kBuckets[i]? = some b →
      Returned t (KadID.ofRange (past i) b.rangeMin b.rangeMax) i b) :
    RefreshHits t startKbucket userTime past where
  length := length_forced
  hits := by
    intro j id hid
    rw [getElem?_forced] at hid
    obtain ⟨b, hb, rfl⟩ := Option.map_eq_some_iff.mp hid
    have hret := h _ b (Nat.le_add_right _ _) hb
    refine ⟨b, hb, KBucket.keyInRange_iff.mpr hret.inRange, hB.limit ▸ hret.limit, _,
      kBucketIndex_of_routes hB hret.limit hret.routes, ?_⟩
    exact toNat_ofNat_position hret.position

/-- From position 65536 on a bucket cannot be answered. -/
theorem length_le_of_hits (h : RefreshHits t startKbucket userTime past) :
    t.kBuckets.length ≤ 65536 := by
  by_contra hgt
  have hstart := startKbucket.isLt
  have hget : t.kBuckets[startKbucket.toNat + (65536 - startKbucket.toNat)]? =
      some (t.kBuckets.get ⟨startKbucket.toNat + (65536 - startKbucket.toNat), by omega⟩) :=
    List.getElem?_eq_getElem _
  obtain ⟨b, -, -, -, u, -, hu⟩ := h.hits (65536 - startKbucket.toNat) _ (by
    rw [getElem?_forced, hget, Option.map_some])
  have := u.isLt
  omega

theorem returned_of_refreshHits (hB : Base t) (h : RefreshHits t startKbucket userTime past)
    (hi : startKbucket.toNat ≤ i) (hb : t.kBuckets[i]? = some b) :
    Returned t (KadID.ofRange (past i) b.rangeMin b.rangeMax) i b := by
  have hlen := length_le_of_hits h
  obtain ⟨k, rfl⟩ := Nat.exists_eq_add_of_le hi
  obtain ⟨b', hb', hin, hlimit, u, hu, hpos⟩ := h.hits k _ (by
    rw [getElem?_forced, hb, Option.map_some])
  rw [hb, Option.some.injEq] at hb'
  subst hb'
  rw [hB.limit] at hlimit
  obtain ⟨p, bp, hr⟩ := exists_routes hB hlimit
  have hp65 : p < 65536 := by
    have := hr.lt
    omega
  -- the position answered is the one routed to
  rw [kBucketIndex_of_routes hB hlimit hr, Except.ok.injEq] at hu
  rw [← hu, toNat_ofNat_position hp65] at hpos
  subst hpos
  have hget := hr.get
  rw [hb, Option.some.injEq] at hget
  subst hget
  exact ⟨hp65, KBucket.keyInRange_iff.mp hin, hlimit, hr⟩

/-- **When every id hits its bucket.** -/
theorem refreshHits_iff (hr : table.Reachable t) (startKbucket : UShort) (userTime : Nat)
    (past : Nat → Ulong) :
    RefreshHits t startKbucket userTime past ↔
      ∀ i b, startKbucket.toNat ≤ i → t.kBuckets[i]? = some b → HitsBack t (past i) i b := by
  have hB := base_inductive.reachable hr
  constructor
  · exact fun h i b hi hb => (returned_iff hb).mp (returned_of_refreshHits hB h hi hb)
  · exact fun h => refreshHits_of_returned hB fun i b hi hb => (returned_iff hb).mpr (h i b hi hb)

/-! ## Ranges that follow each other -/

/-- The bucket before ends one above the start. -/
theorem Placed.previous (hp : Placed t) (hb : t.kBuckets[i + 1]? = some b) :
    ∃ d, t.kBuckets[i]? = some d ∧ b.rangeMin.toNat + 1 = d.rangeMax.toNat := by
  have hlt := (List.getElem?_eq_some_iff.mp hb).1
  obtain ⟨d, hd⟩ : ∃ d, t.kBuckets[i]? = some d :=
    ⟨_, List.getElem?_eq_getElem (show i < t.kBuckets.length by omega)⟩
  have hlen : t.ends.length = t.kBuckets.length := by simp [ends, ranges]
  have hnext := List.isChain_iff_getElem.mp hp.ascending.next i (by omega)
  have hbe := getElem?_ends t (i + 1)
  have hde := getElem?_ends t i
  rw [hb, Option.map_some, List.getElem?_eq_getElem (by omega), Option.some.injEq] at hbe
  rw [hd, Option.map_some, List.getElem?_eq_getElem (by omega), Option.some.injEq] at hde
  rw [hbe, hde] at hnext
  exact ⟨d, hd, hnext⟩

/-- The upper ends ascend, so only those of earlier buckets matter. -/
theorem Placed.homes (hp : Placed t) (hb : t.kBuckets[i]? = some b)
    (h : ∀ k d, t.kBuckets[k]? = some d → k < i →
      d.rangeMax.toNat < (b.rangeMin.toNat + b.rangeMax.toNat) / 2) : Homes t i b := by
  have hmem := List.mem_of_getElem? hb
  have hle := hp.live.ordered b hmem
  have hlimit := KadID.le_def.mp (hp.limit b hmem)
  have hlen := hp.length_le
  have hlt := (List.getElem?_eq_some_iff.mp hb).1
  refine ⟨by omega, hle, ?_, fun d hd hmid => ?_, fun k d hd hk => ne_of_lt (hp.lt hk hd hb)⟩
  · rw [KadID.le_def] at hle
    omega
  · obtain ⟨k, hk⟩ := List.getElem?_of_mem hd
    rcases Nat.lt_trichotomy k i with hlt | rfl | hgt
    · exact absurd hmid (not_le.mpr (h k d hk hlt))
    · rw [hb, Option.some.injEq] at hk
      rw [hk]
    · exact le_of_lt (hp.lt hgt hb hk)

/-- In such a table only narrow ranges fail. -/
theorem homes_iff_of_placed (hp : Placed t) (hb : t.kBuckets[i]? = some b) :
    Homes t i b ↔ i = 0 ∨ b.rangeMin.toNat + 4 ≤ b.rangeMax.toNat := by
  cases i with
  | zero => exact iff_of_true (hp.homes hb fun k d _ hk => absurd hk (Nat.not_lt_zero k)) (.inl rfl)
  | succ i =>
    obtain ⟨d, hd, hprev⟩ := hp.previous hb
    constructor
    · intro h
      right
      by_contra hnarrow
      have hmax := KadID.le_def.mp (h.nearest d (List.mem_of_getElem? hd) (by omega))
      have hinc := KadID.lt_def.mp (hp.lt (Nat.lt_succ_self i) hd hb)
      omega
    · intro h
      have hwide := h.resolve_left (Nat.succ_ne_zero i)
      refine hp.homes hb fun k e he hk => ?_
      have hupto : e.rangeMax.toNat ≤ d.rangeMax.toNat := by
        rcases Nat.lt_succ_iff_lt_or_eq.mp hk with hk | rfl
        · exact le_of_lt (KadID.lt_def.mp (hp.lt hk he hd))
        · rw [hd, Option.some.injEq] at he
          rw [he]
      omega

/-! ## Splits down to four ids -/

/-- The first bucket holds `cs`, covers the holder 8, and ranges from 8 to `top`; all others
end above it. -/
structure Narrowing (cs : List Contact) (top : Nat) (t : RoutingTable) : Prop where
  base : Base t
  holder : t.holderId.toNat = 8
  K : t.K.toNat = cs.length
  limit : top ≤ KadID.kMaxID.toNat
  head : ∃ b rest, t.kBuckets = b :: rest ∧ b.rangeMin.toNat = 8 ∧ b.rangeMax.toNat = top ∧
    b.contacts = cs ∧ ∀ d ∈ rest, top < d.rangeMax.toNat

/-- No bit is read past the end. -/
def zeroPast : Past := (0, 0)

theorem even_zeroPast : KadID.EvenPast zeroPast := by decide

variable {cs : List Contact} {top : Nat}

/-- The call for an id of the first range that is not stored splits that range. -/
theorem level_narrowing (clock : Digest × Digest) (c : Contact) (h : Narrowing cs top t)
    (hmin : 8 ≤ top) (hc : c.nodeId.toNat ≤ top) (hnew : ∀ d ∈ cs, d.nodeId ≠ c.nodeId) :
    ∃ b rest, t.kBuckets = b :: rest ∧ b.rangeMin.toNat = 8 ∧ b.rangeMax.toNat = top ∧
      b.contacts = cs ∧ (∀ d ∈ rest, top < d.rangeMax.toNat) ∧ Accessed t c.nodeId 0 b ∧
      t.addContactLevel clock c = .ok (.split 0 t) := by
  obtain ⟨b, rest, hbs, hbmin, hbmax, hcs, hrest⟩ := h.head
  have hget : t.kBuckets[0]? = some b := by rw [hbs, List.getElem?_cons_zero]
  have hid : c.nodeId ≤ KadID.kMaxID := KadID.le_def.mpr (hc.trans h.limit)
  have hr : Routes t c.nodeId 0 b := by
    refine ⟨hget, KadID.le_def.mpr (by omega), fun d hd _ => ?_, fun k _ _ hk => by omega⟩
    rw [hbs, List.mem_cons] at hd
    rcases hd with rfl | hd
    · exact le_refl _
    · have := hrest d hd
      exact KadID.le_def.mpr (by omega)
  have ha : Accessed t c.nodeId 0 b := ⟨kBucketIndex_of_routes h.base hid hr, by omega, hget⟩
  have hK := (h.base.ok b (List.mem_of_getElem? hget)).2
  have hf : b.FullWithout c.nodeId := by
    refine ⟨by rw [hcs, hK, h.K], fun ⟨d, hd, he⟩ => hnew d (hcs ▸ hd) he⟩
  have hs : t.Splittable b := by
    refine .inr (KBucket.keyInRange_iff.mpr ⟨KadID.le_def.mpr ?_, KadID.le_def.mpr ?_⟩)
    · rw [hbmin, h.holder]
    · rw [hbmax, h.holder]
      exact hmin
  exact ⟨b, rest, hbs, hbmin, hbmax, hcs, hrest, ha, addContactLevel_split ha hf hs⟩

/-- With all contacts up to the left half's end. -/
theorem halves_of_le {past : Past} (h : ∀ d ∈ b.contacts, b.rangeMin.toNat ≤ d.nodeId.toNat ∧
    d.nodeId.toNat ≤ (leftHalf past b).rangeMax.toNat) :
    (leftHalf past b).contacts = b.contacts ∧ (rightHalf past b).contacts = [] := by
  constructor
  · refine List.filter_eq_self.mpr fun d hd => KBucket.keyInRange_iff.mpr ?_
    exact ⟨KadID.le_def.mpr (h d hd).1, KadID.le_def.mpr (h d hd).2⟩
  · refine List.eq_nil_iff_forall_not_mem.mpr fun d hd => ?_
    obtain ⟨hdb, hout⟩ := mem_rightHalf.mp hd
    exact hout ⟨KadID.le_def.mpr (h d hdb).1, KadID.le_def.mpr (h d hdb).2⟩

/-- The left half of a range from 8 on ends at 11 or above. -/
theorem leftEnd_eight (htop : 12 ≤ top) : leftEnd 8 top < top ∧ 11 ≤ leftEnd 8 top := by
  unfold leftEnd
  omega

/-- One split, with all contacts in the left half. -/
theorem narrowing_split (clock : Digest × Digest) (h : Narrowing cs top t) (htop : 12 ≤ top)
    (hcs : ∀ d ∈ cs, 8 ≤ d.nodeId.toNat ∧ d.nodeId.toNat ≤ 11) (hc : c.nodeId.toNat ≤ 11)
    (hnew : ∀ d ∈ cs, d.nodeId ≠ c.nodeId) :
    ∃ t', (∀ pasts, addContact clock c (zeroPast :: pasts) t = addContact clock c pasts t') ∧
      Narrowing cs (leftEnd 8 top) t' := by
  obtain ⟨b, rest, hbs, hbmin, hbmax, hbcs, hrest, ha, hl⟩ :=
    level_narrowing clock c h (by omega) (by omega) hnew
  have hok := h.base.ok b (List.mem_of_getElem? ha.get)
  have heq : ∀ pasts, addContact clock c (zeroPast :: pasts) t =
      addContact clock c pasts (t.splitAt zeroPast 0 b) := by
    intro pasts
    rw [addContact_cons_of_split hl, splitKbucket_eq zeroPast ha.get hok.1 hok.2]
    rfl
  have hend := toNat_leftHalf_rangeMax even_zeroPast b
  rw [hbmin, hbmax] at hend
  have hlt := leftEnd_eight htop
  have hleft : (leftHalf zeroPast b).contacts = cs := by
    rw [(halves_of_le fun d hd => ?_).1, hbcs]
    rw [hbmin, hend]
    have := hcs d (hbcs ▸ hd)
    omega
  refine ⟨_, heq, base_splitAt h.base zeroPast ha.get, h.holder, h.K, by have := h.limit; omega,
    leftHalf zeroPast b, rightHalf zeroPast b :: rest, ?_, hbmin, hend, hleft, ?_⟩
  · simp only [splitAt, hbs, List.take_zero, List.nil_append, List.drop_succ_cons, List.drop_zero]
  · intro d hd
    rcases List.mem_cons.mp hd with rfl | hd
    · rw [rightHalf_rangeMax, hbmax]
      exact hlt.1
    · exact hlt.1.trans (hrest d hd)

/-- By induction on the upper end: it reaches 11. -/
theorem narrowing_eleven (clock : Digest × Digest) (c : Contact)
    (hcs : ∀ d ∈ cs, 8 ≤ d.nodeId.toNat ∧ d.nodeId.toNat ≤ 11) (hc : c.nodeId.toNat ≤ 11)
    (hnew : ∀ d ∈ cs, d.nodeId ≠ c.nodeId) (pasts : List Past) :
    ∀ top t, 11 ≤ top → Narrowing cs top t → ∃ n t',
      addContact clock c (List.replicate n zeroPast ++ pasts) t = addContact clock c pasts t' ∧
        Narrowing cs 11 t' := by
  intro top
  induction top using Nat.strong_induction_on with
  | _ top ih =>
    intro t htop h
    rcases Nat.eq_or_lt_of_le htop with rfl | hgt
    · exact ⟨0, t, rfl, h⟩
    · obtain ⟨t₁, heq₁, h₁⟩ := narrowing_split clock h hgt hcs hc hnew
      have hlt := leftEnd_eight hgt
      obtain ⟨n, t', heq, h'⟩ := ih _ hlt.1 t₁ hlt.2 h₁
      refine ⟨n + 1, t', ?_, h'⟩
      rw [List.replicate_succ, List.cons_append, heq₁, heq]

/-- The three contacts 8, 9 and 10, the last one in front. -/
def threeIds : List Contact :=
  [contactAt ⟨Rossi.ofUlong 10⟩, contactAt ⟨Rossi.ofUlong 9⟩, contactAt ⟨Rossi.ofUlong 8⟩]

/-- The contact 11. -/
def eleven : Contact := contactAt ⟨Rossi.ofUlong 11⟩

/-- The last split separates 11 from them, and the call stores it in the range [9, 11]. -/
theorem add_eleven (clock : Digest × Digest) (h : Narrowing threeIds 11 t) :
    ∃ t' l r, addContact clock eleven [zeroPast] t = .ok (some (0, t', [])) ∧
      t'.kBuckets[0]? = some l ∧ l.rangeMax.toNat = 10 ∧
      t'.kBuckets[1]? = some r ∧ r.rangeMin.toNat = 9 ∧ r.rangeMax.toNat = 11 := by
  have heleven : eleven.nodeId.toNat = 11 := by decide +kernel
  obtain ⟨b, rest, hbs, hbmin, hbmax, hbcs, hrest, ha, hl⟩ :=
    level_narrowing clock eleven h (by decide) (by rw [heleven]) (by decide +kernel)
  have hok := h.base.ok b (List.mem_of_getElem? ha.get)
  have hj := (List.getElem?_eq_some_iff.mp ha.get).1
  have hend := toNat_leftHalf_rangeMax even_zeroPast b
  have hmid := toNat_rightHalf_rangeMin zeroPast b
  rw [hbmin, hbmax, show leftEnd 8 11 = 10 by decide] at hend
  rw [hend] at hmid
  -- the right half is empty, and 11 goes there
  have hnot : ¬ GoesLeft t zeroPast b eleven.nodeId := fun hg => by
    have hle := KadID.le_def.mp hg.1
    rw [hend, heleven] at hle
    omega
  have ha' := accessed_splitAt_right h.base (ha.le h.base) ha hnot (by decide)
  have hempty : (rightHalf zeroPast b).contacts = [] := by
    have hall : ∀ d ∈ threeIds, 8 ≤ d.nodeId.toNat ∧ d.nodeId.toNat ≤ 10 := by decide +kernel
    refine (halves_of_le fun d hd => ?_).2
    rw [hbmin, hend]
    exact hall d (hbcs ▸ hd)
  have hroom : ¬ (rightHalf zeroPast b).FullWithout eleven.nodeId := by
    intro hf
    have hK : (rightHalf zeroPast b).K.toNat = 3 := (congrArg BitVec.toNat hok.2).trans h.K
    have hlen := hf.1
    rw [hempty, hK] at hlen
    cases hlen
  have hret : (t.splitAt zeroPast 0 b).addContactLevel clock eleven = .ok (.ret 0 _) :=
    addContactLevel_succeed (base_splitAt h.base zeroPast ha.get) ha' hroom
  refine ⟨(t.splitAt zeroPast 0 b).pushed 1 (rightHalf zeroPast b) eleven, leftHalf zeroPast b,
    { rightHalf zeroPast b with contacts := eleven ::
        (rightHalf zeroPast b).contacts.filter (·.nodeId ≠ eleven.nodeId) }, ?_, ?_, hend, ?_, ?_, hbmax⟩
  · rw [addContact_cons_of_split hl, splitKbucket_eq zeroPast ha.get hok.1 hok.2]
    exact addContact_of_ret hret []
  · rw [pushed, setBucket, List.getElem?_set_ne (by decide), getElem?_splitAt zeroPast hj,
      if_neg (by decide), if_pos rfl]
  · rw [pushed, setBucket, List.getElem?_set_self (List.getElem?_eq_some_iff.mp ha'.get).1]
  · show (rightHalf zeroPast b).rangeMin.toNat = 9
    omega

/-- The contacts 8, 9 and 10 in a new table for the holder 8. -/
def addFromEight : List Op :=
  [8, 9, 10].map fun id => addOp (contactAt ⟨Rossi.ofUlong id⟩) 0

theorem addFromEight_isSome : (LTS.exec step (fresh 8 3 8) addFromEight).isSome = true := by
  decide +kernel

def afterThree : RoutingTable :=
  LTS.last (fresh 8 3 8) ((LTS.exec step (fresh 8 3 8) addFromEight).get addFromEight_isSome)

theorem reachable_afterThree : table.Reachable afterThree :=
  ⟨_, _, ⟨_, _, _, rfl⟩, run_fresh addFromEight_isSome⟩

theorem narrowing_afterThree : Narrowing threeIds KadID.kMaxID.toNat afterThree where
  base := base_inductive.reachable reachable_afterThree
  holder := by decide +kernel
  K := by decide +kernel
  limit := le_refl _
  head := by
    refine ⟨{ lastAccessed := 0, contacts := threeIds, rangeMin := .ofDigest (digestOf 8),
              rangeMax := .kMaxIDWords, K := 3 }, [], ?_, ?_, ?_, rfl, by simp⟩
    · decide +kernel
    · decide +kernel
    · rw [KadID.kMaxID_eq]

/-- The middles of the two wide halves come back. -/
theorem refreshHits_between : between.kBuckets.length = 2 ∧ RefreshHits between 0 0 fun _ => 0 := by
  refine ⟨by decide +kernel, (refreshHits_iff reachable_between 0 0 _).mpr fun i b _ hb =>
    .inl ⟨rfl, ?_⟩⟩
  have hall : ∀ z ∈ between.kBuckets.zipIdx, z.2 < 65536 ∧ z.1.rangeMin ≤ z.1.rangeMax ∧
      (z.1.rangeMin.toNat + z.1.rangeMax.toNat) / 2 ≤ KadID.kMaxIDWords.toNat ∧
      (∀ d ∈ between.kBuckets, (z.1.rangeMin.toNat + z.1.rangeMax.toNat) / 2 ≤ d.rangeMax.toNat →
        z.1.rangeMax ≤ d.rangeMax) ∧
      ∀ y ∈ between.kBuckets.zipIdx, y.2 < z.2 → y.1.rangeMax ≠ z.1.rangeMax := by decide +kernel
  obtain ⟨hposition, hle, hlimit, hnearest, hfirst⟩ :=
    hall (b, i) (List.mem_zipIdx_iff_getElem?.mpr hb)
  exact ⟨hposition, hle, by rwa [KadID.kMaxID_eq], hnearest,
    fun k d hd hk => hfirst (d, k) (List.mem_zipIdx_iff_getElem?.mpr hd) hk⟩

/-- The middle 10 of the range [9, 11] belongs to the bucket before. -/
theorem refreshHits_counterexample : ¬ ∀ (t : RoutingTable) (startKbucket : UShort) (userTime : Nat),
    table.Reachable t → 2 < t.K.toNat → RefreshHits t startKbucket userTime fun _ => 0 := by
  intro h
  obtain ⟨n, t₁, heq, h₁⟩ := narrowing_eleven (digestOf 0, digestOf 0) eleven
    (by decide +kernel) (by decide +kernel) (by decide +kernel) [zeroPast] _ _
    (by rw [KadID.kMaxID_eq]; decide +kernel) narrowing_afterThree
  obtain ⟨t', l, r, hadd, hl, hlmax, hr, hrmin, hrmax⟩ :=
    add_eleven (digestOf 0, digestOf 0) h₁
  rw [hadd] at heq
  have hstep : table.step afterThree (.add eleven (digestOf 0, digestOf 0)
      (List.replicate n zeroPast ++ [zeroPast])) t' := by
    show step afterThree _ = some t'
    simp only [step, heq]
  have hreach := reachable_afterThree.step hstep
  have hB := base_inductive.reachable hreach
  have hK : t'.K = 3 := by
    have hp : Params afterThree.holderId 3 afterThree := ⟨by decide +kernel, rfl⟩
    exact (params_step (base_inductive.reachable reachable_afterThree) hp hstep).K
  have hhome := (returned_iff_homes rfl hr).mp
    (returned_of_refreshHits hB (h t' 0 0 hreach (by rw [hK]; decide)) (Nat.zero_le 1) hr)
  have hmax := KadID.le_def.mp (hhome.nearest l (List.mem_of_getElem? hl) (by omega))
  omega

end Kadpeer.L3.RoutingTable
