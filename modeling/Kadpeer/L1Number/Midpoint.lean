import Kadpeer.L1Number.KadID

/-!
# Halving an id range, word by word (`common/BigInt.cpp`, `kademlia/kadid.cpp`)

The loops of `operator>>` and `operator+` with every `m_units[i]` an access that
can go past the end of its vector (`unitAt`). `behind` is what stands right
behind the last word: `none` when it may not be looked at.

* `shrChecked_some`, `splitRange_behind`, `ofRange_behind`: with a word there, the
  loops compute what `shr`, `splitRange` and `ofRange` do.
* `shrChecked_none`: without one every shift ends at the first word it touches;
  `addChecked_eq`: addition stays within its vectors.
* `midpoints_iff`: the results are the documented midpoints exactly when the
  words behind have their low bit clear and the ends are not both odd.
* `not_halvesRange`: with the accesses counted, no range is halved as documented.
-/
namespace Kadpeer.L1

open Kadpeer.Core
open Kadpeer.Core.Limbs (resize addLoop carryOut shr1 shrWord)

namespace Rossi

/-- `m_units[i]`; what can be read is the vector and the word behind it. -/
def unitAt (behind : Option Ulong) (units : List Ulong) (i : Nat) : Except Fault Ulong :=
  match (units ++ behind.toList)[i]? with
  | some u => .ok u
  | none => .error .outOfBounds

theorem unitAt_of_lt (behind : Option Ulong) {units : List Ulong} {i : Nat}
    (h : i < units.length) : unitAt behind units i = .ok units[i] := by
  have hi : (units ++ behind.toList)[i]? = some units[i] := by
    rw [List.getElem?_append_left h, List.getElem?_eq_getElem h]
  simp only [unitAt, hi]

theorem unitAt_length (units : List Ulong) :
    unitAt none units units.length = .error .outOfBounds := by
  simp [unitAt]

/-! ## `operator>>` -/

/-- The `j1` lowest words of a round, read from the top down; mirrors
src/src/common/BigInt.cpp:1205-1214. -/
def shrWords (behind : Option Ulong) (tmp : List Ulong) : Nat → Except Fault (List Ulong)
  | 0 => .ok []
  | j + 1 => do
    let u ← unitAt behind tmp j
    let next ← unitAt behind tmp (j + 1)
    let low ← shrWords behind tmp j
    return low ++ [shrWord u next]

/-- The rounds, the first one innermost; `behind i` for the `i`-th. -/
def shrRounds (behind : Nat → Option Ulong) : Nat → List Ulong → Except Fault (List Ulong)
  | 0, units => .ok units
  | n + 1, units => do
    let tmp ← shrRounds behind n units
    shrWords (behind n) tmp tmp.length

/-- mirrors src/src/common/BigInt.cpp:1190-1222 (`operator>>`) -/
def shrChecked (behind : Nat → Option Ulong) (x : Rossi) (iShift : Nat) : Except Fault Rossi := do
  let ret ← if iShift = 0 then .ok (List.replicate x.mUnits.length 0#64)
    else shrRounds behind iShift x.mUnits
  if h : ret ≠ [] then return smartTruncateUnits ret h else .error .assertion

theorem shr1_take_succ (past : Ulong) (us : List Ulong) {j : Nat} (h : j < us.length) :
    ∃ next, unitAt (some past) us (j + 1) = .ok next ∧
      (shr1 past us).take (j + 1) = (shr1 past us).take j ++ [shrWord us[j] next] := by
  have hlen : j + 1 < (us ++ [past]).length := by
    rw [List.length_append]
    exact Nat.succ_lt_succ h
  have htail : (us.tail ++ [past])[j]? = some (us ++ [past])[j + 1] := by
    cases us with
    | nil => simp at h
    | cons u us =>
      rw [List.tail_cons, ← List.getElem?_eq_getElem hlen]
      rfl
  have hword : (shr1 past us)[j]? = some (shrWord us[j] (us ++ [past])[j + 1]) := by
    rw [shr1, List.getElem?_zipWith, htail, List.getElem?_eq_getElem h]
  refine ⟨(us ++ [past])[j + 1], ?_, ?_⟩
  · simp only [unitAt, Option.toList_some, List.getElem?_eq_getElem hlen]
  · rw [List.take_add_one, hword]
    rfl

/-- With a word behind the vector a round is `shr1`. -/
theorem shrWords_some (past : Ulong) (tmp : List Ulong) {j1 : Nat} (h : j1 ≤ tmp.length) :
    shrWords (some past) tmp j1 = .ok ((shr1 past tmp).take j1) := by
  induction j1 with
  | zero => rfl
  | succ j ih =>
    obtain ⟨next, hnext, htake⟩ := shr1_take_succ past tmp (j := j) h
    rw [shrWords, unitAt_of_lt (some past) h, hnext, ih (by omega), htake]
    rfl

/-- Without one it does not get past its first word, the top one. -/
theorem shrWords_none {tmp : List Ulong} (h : tmp ≠ []) :
    shrWords none tmp tmp.length = .error .outOfBounds := by
  obtain ⟨j, hj⟩ := Nat.exists_eq_succ_of_ne_zero (mt List.eq_nil_of_length_eq_zero h)
  have hread : unitAt none tmp (j + 1) = .error .outOfBounds := by
    have := unitAt_length tmp
    rwa [hj] at this
  rw [hj, shrWords, unitAt_of_lt none (by omega), hread]
  rfl

theorem shrRounds_some (past : Nat → Ulong) (n : Nat) (us : List Ulong) :
    shrRounds (fun i => some (past i)) n us = .ok (shrLoop past n us) := by
  induction n with
  | zero => rfl
  | succ n ih =>
    have hfull : (shr1 (past n) (shrLoop past n us)).take (shrLoop past n us).length =
        shr1 (past n) (shrLoop past n us) := by
      rw [List.take_of_length_le (by rw [Limbs.length_shr1])]
    calc shrRounds (fun i => some (past i)) (n + 1) us
        = shrWords (some (past n)) (shrLoop past n us) (shrLoop past n us).length := by
          rw [shrRounds, ih]; rfl
      _ = .ok (shrLoop past (n + 1) us) := by
          rw [shrWords_some _ _ (Nat.le_refl _), hfull, shrLoop]

theorem shrRounds_none {us : List Ulong} (h : us ≠ []) (n : Nat) :
    shrRounds (fun _ => none) (n + 1) us = .error .outOfBounds := by
  induction n with
  | zero => exact shrWords_none h
  | succ n ih =>
    rw [shrRounds, ih]
    rfl

/-- **`shr past` is the loop with the words `past` behind the vector.** -/
theorem shrChecked_some (past : Nat → Ulong) (x : Rossi) (iShift : Nat) :
    shrChecked (fun i => some (past i)) x iShift = .ok (shr past x iShift) := by
  have hne : ∀ units : List Ulong, units.length = x.mUnits.length → units ≠ [] := by
    intro units h
    rw [← List.length_pos_iff, h]
    exact List.length_pos_of_ne_nil x.trimmed.ne_nil
  rw [shrChecked, shrRounds_some]
  by_cases h0 : iShift = 0
  · have hzero := hne (List.replicate x.mUnits.length 0#64) (List.length_replicate ..)
    simp only [h0, if_true]
    exact dif_pos hzero
  · have hloop := hne (shrLoop past iShift x.mUnits) (length_shrLoop past iShift x.mUnits)
    simp only [h0, if_false, shr]
    exact dif_pos hloop

/-- **No shift stays within its vectors**: the top word asks for the one above it. -/
theorem shrChecked_none (x : Rossi) (n : Nat) :
    shrChecked (fun _ => none) x (n + 1) = .error .outOfBounds := by
  rw [shrChecked, if_neg (Nat.succ_ne_zero n), shrRounds_none x.trimmed.ne_nil]
  rfl

/-! ## `operator+` -/

/-- The words from `i` on, `n` of them; mirrors src/src/common/BigInt.cpp:1059-1070. -/
def addWords (xs ys : List Ulong) : Nat → Nat → Ulong → Except Fault (List Ulong)
  | 0, _, _ => .ok []
  | n + 1, i, carry => do
    let x ← unitAt none xs i
    let y ← unitAt none ys i
    let high ← addWords xs ys n (i + 1) (carryOut carry x y (x + y + carry))
    return (x + y + carry) :: high

/-- mirrors src/src/common/BigInt.cpp:1047-1076 (`operator+`) -/
def addChecked (x y : Rossi) : Except Fault Rossi := do
  let maxSize := max x.mUnits.length y.mUnits.length
  let ret ← addWords (resize x.mUnits (maxSize + 1)) (resize y.mUnits (maxSize + 1))
    (maxSize + 1) 0 0#64
  if h : ret ≠ [] then return smartTruncateUnits ret h else .error .assertion

theorem addWords_eq {xs ys : List Ulong} (hlen : xs.length = ys.length) (n i : Nat) (carry : Ulong)
    (h : i + n = xs.length) :
    addWords xs ys n i carry = .ok (addLoop carry (xs.drop i) (ys.drop i)) := by
  induction n generalizing i carry with
  | zero =>
    rw [List.drop_of_length_le (by omega), addWords, addLoop]
    intro x xs' y ys' hx
    cases hx
  | succ n ih =>
    have hx : i < xs.length := by omega
    have hy : i < ys.length := by omega
    have hhigh := ih (i + 1) (carryOut carry xs[i] ys[i] (xs[i] + ys[i] + carry)) (by omega)
    rw [List.drop_eq_getElem_cons hx, List.drop_eq_getElem_cons hy, addLoop]
    simp only [addWords, unitAt_of_lt none hx, unitAt_of_lt none hy, bind, Except.bind, hhigh, pure,
      Except.pure]

/-- **Addition stays within its vectors.** -/
theorem addChecked_eq (x y : Rossi) : addChecked x y = .ok (add x y) := by
  have hlen := Limbs.length_resize x.mUnits (max x.mUnits.length y.mUnits.length + 1)
  have hlen' := Limbs.length_resize y.mUnits (max x.mUnits.length y.mUnits.length + 1)
  have hwords := addWords_eq (hlen.trans hlen'.symm)
    (max x.mUnits.length y.mUnits.length + 1) 0 0#64 (by rw [hlen, Nat.zero_add])
  have hne : addLoop 0#64 (resize x.mUnits (max x.mUnits.length y.mUnits.length + 1))
      (resize y.mUnits (max x.mUnits.length y.mUnits.length + 1)) ≠ [] := by
    rw [← List.length_pos_iff, Limbs.length_addLoop _ _ _ (hlen.trans hlen'.symm), hlen]
    exact Nat.succ_pos _
  simp only [addChecked, hwords]
  exact dif_pos hne

end Rossi

namespace KadID

/-! ## `SplitRange` and `KadID(min, max)` -/

/-- mirrors src/src/kademlia/kadid.cpp:199-206 (`SplitRange`) -/
def splitRangeChecked (behind : Option Ulong × Option Ulong) (min max : KadID) :
    Except Fault (KadID × KadID) := do
  let min_ ← min.rawId.shrChecked (fun _ => behind.1) 1
  let max_ ← max.rawId.shrChecked (fun _ => behind.2) 1
  let max1 ← min_.addChecked max_
  let min1 ← max1.addChecked (Rossi.ofUlong 1)
  return (⟨min1⟩, ⟨max1⟩)

/-- mirrors src/src/kademlia/kadid.cpp:60-64 (`KadID(min, max)`) -/
def ofRangeChecked (behind : Option Ulong) (min max : KadID) : Except Fault KadID := do
  let sum ← min.rawId.addChecked max.rawId
  return ⟨← sum.shrChecked (fun _ => behind) 1⟩

theorem splitRange_behind (past : Past) (min max : KadID) :
    splitRangeChecked (some past.1, some past.2) min max = .ok (splitRange past min max) := by
  rw [splitRangeChecked, Rossi.shrChecked_some, Rossi.shrChecked_some]
  simp only [bind, Except.bind, Rossi.addChecked_eq, pure, Except.pure]
  rfl

theorem ofRange_behind (past : Ulong) (min max : KadID) :
    ofRangeChecked (some past) min max = .ok (ofRange past min max) := by
  rw [ofRangeChecked, Rossi.addChecked_eq]
  simp only [bind, Except.bind, Rossi.shrChecked_some, pure, Except.pure]
  rfl

theorem splitRangeChecked_none (min max : KadID) :
    splitRangeChecked (none, none) min max = .error .outOfBounds := by
  rw [splitRangeChecked, Rossi.shrChecked_none]
  rfl

theorem ofRangeChecked_none (min max : KadID) :
    ofRangeChecked none min max = .error .outOfBounds := by
  rw [ofRangeChecked, Rossi.addChecked_eq]
  simp only [bind, Except.bind, Rossi.shrChecked_none]

/-- The documented results. -/
structure Midpoints (past : Past) (pastMid : Ulong) (min max : KadID) : Prop where
  max1 : (splitRange past min max).2.toNat = (min.toNat + max.toNat) / 2
  min1 : (splitRange past min max).1.toNat = (splitRange past min max).2.toNat + 1
  min_le : min ≤ (splitRange past min max).2
  lt : (splitRange past min max).2 < (splitRange past min max).1
  le_max : (splitRange past min max).1 ≤ max
  mid : (ofRange pastMid min max).toNat = (min.toNat + max.toNat) / 2

/-- The documented results, without a word read past the end of a vector. -/
structure HalvesRange (past : Past) (pastMid : Ulong) (min max : KadID) : Prop where
  midpoints : Midpoints past pastMid min max
  split_within : ∃ r, splitRangeChecked (none, none) min max = .ok r
  mid_within : ∃ r, ofRangeChecked none min max = .ok r

/-- The bit a round moves in on top weighs more than one. -/
theorem two_le_top (a : KadID) : 2 ≤ 2 ^ (64 * a.rawId.mUnits.length - 1) := by
  have hpos : 0 < a.rawId.mUnits.length := List.length_pos_of_ne_nil a.rawId.trimmed.ne_nil
  exact Nat.le_self_pow (by omega) 2

theorem splitRange_snd_eq (past : Past) (min max : KadID) :
    (splitRange past min max).2.toNat = (min.toNat + max.toNat) / 2 ↔
      EvenPast past ∧ ¬ (min.toNat % 2 = 1 ∧ max.toNat % 2 = 1) := by
  have hmin := two_le_top min
  have hmax := two_le_top max
  have hval : (splitRange past min max).2.toNat =
      min.toNat / 2 + past.1.toNat % 2 * 2 ^ (64 * min.rawId.mUnits.length - 1) +
        (max.toNat / 2 + past.2.toNat % 2 * 2 ^ (64 * max.rawId.mUnits.length - 1)) := by
    simp only [splitRange, toNat_add]
    simp only [toNat, shr, Rossi.toNat_shr_one]
  have h1 := Nat.mod_two_eq_zero_or_one past.1.toNat
  have h2 := Nat.mod_two_eq_zero_or_one past.2.toNat
  rw [hval, EvenPast]
  clear hval
  generalize 2 ^ (64 * min.rawId.mUnits.length - 1) = B at *
  generalize 2 ^ (64 * max.rawId.mUnits.length - 1) = C at *
  generalize past.1.toNat % 2 = p at *
  generalize past.2.toNat % 2 = q at *
  obtain rfl | rfl := h1 <;> obtain rfl | rfl := h2 <;> omega

theorem ofRange_eq (past : Ulong) (min max : KadID) :
    (ofRange past min max).toNat = (min.toNat + max.toNat) / 2 ↔ past.toNat % 2 = 0 := by
  have htop := two_le_top (min.add max)
  have hval : (ofRange past min max).toNat = (min.toNat + max.toNat) / 2 +
      past.toNat % 2 * 2 ^ (64 * (min.add max).rawId.mUnits.length - 1) := by
    have hsum := toNat_add min max
    simp only [toNat] at hsum
    simp only [toNat, ofRange, shr, Rossi.toNat_shr_one, hsum]
  have hbit := Nat.mod_two_eq_zero_or_one past.toNat
  rw [hval]
  clear hval
  generalize 2 ^ (64 * (min.add max).rawId.mUnits.length - 1) = B at *
  generalize past.toNat % 2 = p at *
  obtain rfl | rfl := hbit <;> omega

/-- **The midpoints are the documented ones** when the words read past the ends are even
and the ends not both odd. -/
theorem midpoints_iff {min max : KadID} (h : min < max) (past : Past) (pastMid : Ulong) :
    Midpoints past pastMid min max ↔
      EvenPast past ∧ pastMid.toNat % 2 = 0 ∧ ¬ (min.toNat % 2 = 1 ∧ max.toNat % 2 = 1) := by
  have hlt := lt_def.mp h
  have hfst := toNat_splitRange_fst past min max
  rw [← ofRange_eq pastMid min max, and_left_comm, ← splitRange_snd_eq]
  constructor
  · exact fun hm => ⟨hm.mid, hm.max1⟩
  · rintro ⟨hmid, hmax1⟩
    refine ⟨hmax1, hfst, ?_, ?_, ?_, hmid⟩
    · rw [le_def]; omega
    · rw [lt_def]; omega
    · rw [le_def]; omega

/-- **No range is halved as documented**: both halvings read a word past the end of their
operand. Where that word is harmless the numbers are right but for two odd ends. -/
theorem not_halvesRange {min max : KadID} (h : min < max) (past : Past) (pastMid : Ulong) :
    ¬ HalvesRange past pastMid min max ∧
      (Midpoints past pastMid min max ↔
        EvenPast past ∧ pastMid.toNat % 2 = 0 ∧ ¬ (min.toNat % 2 = 1 ∧ max.toNat % 2 = 1)) := by
  refine ⟨fun hr => ?_, midpoints_iff h past pastMid⟩
  obtain ⟨r, hr⟩ := hr.split_within
  rw [splitRangeChecked_none] at hr
  cases hr

/-- From 1 to 3 with zero words behind: `max1` is 1. -/
theorem not_halvesRange_odd :
    ¬ Midpoints (0, 0) 0 ⟨Rossi.ofUlong 1⟩ ⟨Rossi.ofUlong 3⟩ ∧
      EvenPast (0, 0) ∧ (0#64).toNat % 2 = 0 := by
  have h := @not_halvesRange ⟨Rossi.ofUlong 1⟩ ⟨Rossi.ofUlong 3⟩ (by decide) (0, 0) 0
  exact ⟨fun hm => (h.2.mp hm).2.2 (by decide), by decide, by decide⟩

/-- The same range, evaluated: the floor of the middle is 2, and the first halving reads
past the end of its one word. -/
theorem splitRange_one_three :
    ¬ HalvesRange (0, 0) 0 ⟨Rossi.ofUlong 1⟩ ⟨Rossi.ofUlong 3⟩ ∧
      (splitRange (0, 0) ⟨Rossi.ofUlong 1⟩ ⟨Rossi.ofUlong 3⟩).2.toNat = 1 ∧
      splitRangeChecked (none, none) ⟨Rossi.ofUlong 1⟩ ⟨Rossi.ofUlong 3⟩ = .error .outOfBounds := by
  have hmax1 : (splitRange (0, 0) ⟨Rossi.ofUlong 1⟩ ⟨Rossi.ofUlong 3⟩).2.toNat = 1 := by
    decide +kernel
  refine ⟨fun hr => ?_, hmax1, splitRangeChecked_none _ _⟩
  have hmid := hr.midpoints.max1
  rw [hmax1] at hmid
  revert hmid
  decide +kernel

end KadID
end Kadpeer.L1
