import Kadpeer.Core.Fault
import Kadpeer.Core.Limbs

/-!
# Unbounded integers (`common/BigInt.h`, `common/BigInt.cpp`)

`BigInt::Rossi` keeps a number as a vector `m_units` of 64-bit words, least
significant first. Every operation ends in `smartTruncateUnits`, so a value is
never empty and has no zero word on top; the structure carries that as a field
and the comparison, which looks at the length before the words, is numeric
because of it.

`operator>>` reads `tmp.m_units[j + 1]` at `j = size - 1`, one word past the
end of the vector. What stands there is not the program's: it is an argument
(`past i` for the `i`-th round).

* `lt_iff`: `operator<` is `<` on the numbers.
* `toNat_add`, `toNat_shlAssign`, `toNat_shrAssign_one`, `toNat_mul`,
  `toNat_xor`: the arithmetic is exact.
* `sub_eq_ok`: subtraction is exact too, and aborts on a smaller minuend.
* `toNat_shr_one`: so is halving, up to the low bit of the word past the end.
* `initViaString_base`: a base other than 10 and 16 aborts on every string.
* `initViaString_dec`: a decimal string is read as the number it spells.
-/
namespace Kadpeer.L1

open Kadpeer.Core
open Kadpeer.Core.Limbs (value resize trim Trimmed addLoop subLoop shr1 shl1 shrPass msb)

abbrev Ulong := BitVec 64

/-- mirrors src/include/common/BigInt.h:341-440 (`class Rossi`) -/
structure Rossi where
  mUnits : List Ulong
  trimmed : Trimmed mUnits
deriving DecidableEq

namespace Rossi

def toNat (x : Rossi) : Nat := value x.mUnits

theorem toNat_inj {x y : Rossi} (h : x.toNat = y.toNat) : x = y := by
  obtain ⟨us, hu⟩ := x
  obtain ⟨vs, hv⟩ := y
  obtain rfl : us = vs := Limbs.value_inj hu hv h
  rfl

/-- A vector of words after `smartTruncateUnits`; mirrors
src/src/common/BigInt.cpp:1006-1035. -/
def smartTruncateUnits (us : List Ulong) (h : us ≠ []) : Rossi :=
  ⟨trim us, Limbs.trimmed_trim h⟩

@[simp] theorem toNat_smartTruncateUnits (us : List Ulong) (h : us ≠ []) :
    (smartTruncateUnits us h).toNat = value us := Limbs.value_trim us

/-- mirrors src/src/common/BigInt.cpp:831-835 (`Rossi (Ulong)`) -/
def ofUlong (iUnit : Ulong) : Rossi := ⟨[iUnit], by simp, by simp⟩

@[simp] theorem toNat_ofUlong (u : Ulong) : (ofUlong u).toNat = u.toNat := by
  simp [toNat, ofUlong]

def rossiZero : Rossi := ofUlong 0

@[simp] theorem toNat_rossiZero : rossiZero.toNat = 0 := by decide

/-! ## Comparison -/

/-- mirrors src/src/common/BigInt.cpp:1087-1114 (`operator<`) -/
def lt (x y : Rossi) : Bool := Limbs.lt x.mUnits y.mUnits

/-- mirrors src/src/common/BigInt.cpp:1148-1161 (`operator==`) -/
def eq (x y : Rossi) : Bool := if lt x y then false else if lt y x then false else true

/-- mirrors src/src/common/BigInt.cpp:1165-1168 (`operator!=`) -/
def ne (x y : Rossi) : Bool := !eq x y

/-- mirrors src/src/common/BigInt.cpp:1117-1130 (`operator<=`) -/
def le (x y : Rossi) : Bool := if lt x y then true else if eq x y then true else false

/-- mirrors src/src/common/BigInt.cpp:1135-1138 (`operator>`) -/
def gt (x y : Rossi) : Bool := !le x y

/-- mirrors src/src/common/BigInt.cpp:1142-1145 (`operator>=`) -/
def ge (x y : Rossi) : Bool := !lt x y

variable {x y : Rossi}

theorem lt_iff : lt x y = true ↔ x.toNat < y.toNat := Limbs.lt_iff x.trimmed y.trimmed

theorem eq_iff : eq x y = true ↔ x = y := by
  unfold eq
  constructor
  · intro h
    refine toNat_inj ?_
    split at h; · cases h
    split at h; · cases h
    rename_i hxy hyx
    rw [lt_iff] at hxy hyx
    omega
  · rintro rfl
    simp [show lt x x = false by rw [← Bool.not_eq_true, lt_iff]; omega]

theorem ne_iff : ne x y = true ↔ x ≠ y := by
  rw [ne, Bool.not_eq_true', ← Bool.not_eq_true, eq_iff]

theorem le_iff : le x y = true ↔ x.toNat ≤ y.toNat := by
  unfold le
  constructor
  · intro h
    split at h
    · rename_i hlt; exact Nat.le_of_lt (lt_iff.mp hlt)
    · split at h
      · rename_i he; rw [eq_iff.mp he]
      · cases h
  · intro h
    rcases Nat.lt_or_eq_of_le h with h | h
    · simp [lt_iff.mpr h]
    · simp [eq_iff.mpr (toNat_inj h)]

theorem gt_iff : gt x y = true ↔ y.toNat < x.toNat := by
  rw [gt, Bool.not_eq_true', ← Bool.not_eq_true, le_iff]; omega

/-! ## Arithmetic -/

/-- mirrors src/src/common/BigInt.cpp:1047-1076 (`operator+`) -/
def add (x y : Rossi) : Rossi :=
  let maxSize := max x.mUnits.length y.mUnits.length
  smartTruncateUnits (addLoop 0#64 (resize x.mUnits (maxSize + 1)) (resize y.mUnits (maxSize + 1)))
    (by rw [← List.length_pos_iff, Limbs.length_addLoop _ _ _ (by simp [Limbs.length_resize]),
          Limbs.length_resize]; omega)

/-- mirrors src/src/common/BigInt.cpp:1357-1384 (`operator+=`) -/
def addAssign (x y : Rossi) : Rossi := add x y

@[simp] theorem toNat_add (x y : Rossi) : (add x y).toNat = x.toNat + y.toNat := by
  rw [add, toNat_smartTruncateUnits]
  exact Limbs.value_addLoop_resize (by decide) x.mUnits y.mUnits

/-- Both operands are grown before they are compared, so the comparison is of
lists of one length. Mirrors src/src/common/BigInt.cpp:1441-1490 (`operator-`). -/
def sub (x y : Rossi) : Except Fault Rossi :=
  let maxSize := max x.mUnits.length y.mUnits.length
  if Limbs.lt (resize x.mUnits (maxSize + 1)) (resize y.mUnits (maxSize + 1)) then .error .assertion
  else .ok (smartTruncateUnits
    (subLoop 0#64 (resize x.mUnits (maxSize + 1)) (resize y.mUnits (maxSize + 1)))
    (by rw [← List.length_pos_iff, Limbs.length_subLoop _ _ _ (by simp [Limbs.length_resize]),
          Limbs.length_resize]; omega))

/-- **`operator-` aborts exactly on a smaller minuend**, and is exact else. -/
theorem sub_eq_ok {x y r : Rossi} :
    sub x y = .ok r ↔ y.toNat ≤ x.toNat ∧ r.toNat = x.toNat - y.toNat := by
  have hx := Limbs.value_resize x.mUnits (n := max x.mUnits.length y.mUnits.length + 1) (by omega)
  have hy := Limbs.value_resize y.mUnits (n := max x.mUnits.length y.mUnits.length + 1) (by omega)
  have hlen : (resize x.mUnits (max x.mUnits.length y.mUnits.length + 1)).length =
      (resize y.mUnits (max x.mUnits.length y.mUnits.length + 1)).length := by
    rw [Limbs.length_resize, Limbs.length_resize]
  have hlt := Limbs.lt_iff_of_length_eq hlen
  rw [hx, hy] at hlt
  simp only [sub]
  split
  · rename_i h
    have := hlt.mp h
    simp only [reduceCtorEq, toNat, false_iff]
    omega
  · rename_i h
    rw [hlt, Nat.not_lt] at h
    have hdiff := Limbs.value_subLoop_of_le (by decide) hlen (by rw [hx, hy]; exact h)
    rw [hx, hy] at hdiff
    constructor
    · intro hr
      refine ⟨h, ?_⟩
      rw [← Except.ok.inj hr, toNat_smartTruncateUnits]
      exact hdiff
    · rintro ⟨-, hr⟩
      refine congrArg Except.ok (toNat_inj ?_)
      rw [toNat_smartTruncateUnits, hr]
      exact hdiff

/-- The rounds of `operator>>`, the first one innermost. -/
def shrLoop (past : Nat → Ulong) : Nat → List Ulong → List Ulong
  | 0, us => us
  | n + 1, us => shr1 (past n) (shrLoop past n us)

theorem length_shrLoop (past : Nat → Ulong) (n : Nat) (us : List Ulong) :
    (shrLoop past n us).length = us.length := by
  induction n with
  | zero => rfl
  | succ n ih => rw [shrLoop, Limbs.length_shr1, ih]

/-- `ret` starts out as zero words and is written by each round only. Mirrors
src/src/common/BigInt.cpp:1190-1222 (`operator>>`). -/
def shr (past : Nat → Ulong) (x : Rossi) (iShift : Nat) : Rossi :=
  smartTruncateUnits
    (if iShift = 0 then List.replicate x.mUnits.length 0#64 else shrLoop past iShift x.mUnits)
    (by
      have := List.length_pos_of_ne_nil x.trimmed.ne_nil
      rw [← List.length_pos_iff]
      split
      · simpa using this
      · rwa [length_shrLoop])

/-- One round halves, and sets the top bit when the word past the end is odd. -/
theorem toNat_shr_one (past : Nat → Ulong) (x : Rossi) :
    (shr past x 1).toNat =
      x.toNat / 2 + (past 0).toNat % 2 * 2 ^ (64 * x.mUnits.length - 1) := by
  rw [shr, toNat_smartTruncateUnits]
  exact Limbs.value_shr1 (by decide) (past 0) x.trimmed.ne_nil

/-- mirrors src/src/common/BigInt.cpp:1299-1351 (`operator<<=`) -/
def shlAssign (x : Rossi) (iShift : Nat) : Rossi :=
  let pushBackSize := iShift / 64 + 1
  smartTruncateUnits ((shl1 false)^[iShift] (x.mUnits ++ List.replicate (pushBackSize + 1) 0#64))
    (by rw [← List.length_pos_iff, Limbs.length_shl1_iterate]; simp)

@[simp] theorem toNat_shlAssign (x : Rossi) (n : Nat) :
    (shlAssign x n).toNat = 2 ^ n * x.toNat := by
  have hval : value (x.mUnits ++ List.replicate (n / 64 + 1 + 1) 0#64) = x.toNat := by
    rw [Limbs.value_append, Limbs.value_replicate_zero, Nat.mul_zero, Nat.add_zero, toNat]
  have hfit : 2 ^ n * x.toNat <
      (2 ^ 64) ^ (x.mUnits ++ List.replicate (n / 64 + 1 + 1) 0#64).length := by
    have hx : x.toNat < (2 ^ 64) ^ x.mUnits.length := Limbs.value_lt x.mUnits
    have hn : 2 ^ n ≤ (2 ^ 64) ^ (n / 64 + 1 + 1) := by
      rw [← Nat.pow_mul]
      exact Nat.pow_le_pow_right (by decide) (by omega)
    rw [List.length_append, List.length_replicate, Nat.pow_add, Nat.mul_comm]
    exact Nat.mul_lt_mul_of_lt_of_le hx hn (Nat.pow_pos (by decide))
  rw [shlAssign, toNat_smartTruncateUnits, Limbs.value_shl1_iterate (by decide) _ _ (by rwa [hval]),
    hval]

/-- One round of `operator>>=`: the top word is halved on its own, then every
word from the top with the bit that left the one above. -/
def shrRound (us : List Ulong) : List Ulong :=
  match us.reverse with
  | [] => []
  | back :: rest => (shrPass (back &&& 1#64) ((back >>> 1) :: rest)).reverse

/-- The zero word pushed on top stays zero, so halving it twice is harmless. -/
theorem shrRound_concat (us : List Ulong) : shrRound (us ++ [0#64]) = shr1 0#64 us ++ [0#64] := by
  have h : shrPass (0#64 &&& 1#64) (us ++ [0#64]).reverse = (shr1 0#64 (us ++ [0#64])).reverse :=
    Limbs.shrPass_reverse 0#64 _
  have hzero : Limbs.shrWord 0#64 0#64 = 0#64 := by decide
  rw [Limbs.shr1_concat, hzero, List.reverse_append, List.reverse_singleton,
    List.singleton_append] at h
  have hrev : (us ++ [0#64]).reverse = 0#64 :: us.reverse := by simp
  rw [shrRound, hrev]
  exact (congrArg List.reverse h).trans (List.reverse_reverse _)

theorem shrRound_iterate (us : List Ulong) (n : Nat) :
    shrRound^[n] (us ++ [0#64]) = (shr1 0#64)^[n] us ++ [0#64] := by
  induction n with
  | zero => rfl
  | succ n ih => rw [Function.iterate_succ_apply', ih, shrRound_concat, Function.iterate_succ_apply']

/-- mirrors src/src/common/BigInt.cpp:1264-1295 (`operator>>=`) -/
def shrAssign (x : Rossi) (iShift : Nat) : Rossi :=
  smartTruncateUnits (shrRound^[iShift] (x.mUnits ++ [0#64])) (by simp [shrRound_iterate])

theorem toNat_shrAssign_one (x : Rossi) : (shrAssign x 1).toNat = x.toNat / 2 := by
  rw [shrAssign, toNat_smartTruncateUnits, shrRound_iterate, Limbs.value_append]
  have := Limbs.value_shr1 (by decide) 0#64 x.trimmed.ne_nil
  simpa [toNat] using this

/-- The low bit of `m_units.front()`. -/
def odd (x : Rossi) : Bool := x.mUnits.head x.trimmed.ne_nil &&& 1#64 ≠ 0#64

theorem odd_iff (x : Rossi) : x.odd = true ↔ x.toNat % 2 = 1 := by
  obtain ⟨us, h⟩ := x
  cases us with
  | nil => exact absurd rfl h.ne_nil
  | cons u us =>
    have := Limbs.and_one_ne_zero (by decide) u
    simp only [odd, List.head_cons, decide_eq_true_eq, this, toNat, Limbs.value_cons]
    omega

/-- The `do … while (i_arg != RossiZero)` of `operator*`, at most `fuel` rounds. -/
def mulLoop : Nat → Rossi → Rossi → Rossi → Rossi
  | 0, _, ret, _ => ret
  | fuel + 1, tmp, ret, iArg =>
    let ret' := if iArg.odd then addAssign ret tmp else ret
    let iArg' := shrAssign iArg 1
    let tmp' := shlAssign tmp 1
    if ne iArg' rossiZero then mulLoop fuel tmp' ret' iArg' else ret'

/-- A round halves `i_arg`, so its bits are rounds enough. Mirrors
src/src/common/BigInt.cpp:1745-1769 (`operator*`). -/
def mul (x iArg : Rossi) : Rossi := mulLoop (64 * iArg.mUnits.length) x rossiZero iArg

/-- `ret + tmp * i_arg` is kept by every round. -/
theorem toNat_mulLoop (fuel : Nat) (tmp ret iArg : Rossi) (h : iArg.toNat < 2 ^ fuel) :
    (mulLoop fuel tmp ret iArg).toNat = ret.toNat + tmp.toNat * iArg.toNat := by
  induction fuel generalizing tmp ret iArg with
  | zero =>
    have h0 : iArg.toNat = 0 := by omega
    rw [mulLoop, h0, Nat.mul_zero, Nat.add_zero]
  | succ fuel ih =>
    have hret : (if iArg.odd then addAssign ret tmp else ret).toNat =
        ret.toNat + tmp.toNat * (iArg.toNat % 2) := by
      have hodd := odd_iff iArg
      split
      · rename_i ho
        rw [hodd.mp ho, addAssign, toNat_add, Nat.mul_one]
      · rename_i ho
        rw [hodd] at ho
        rw [show iArg.toNat % 2 = 0 by omega, Nat.mul_zero, Nat.add_zero]
    have hhalf : (shrAssign iArg 1).toNat = iArg.toNat / 2 := toNat_shrAssign_one iArg
    have hsplit : iArg.toNat = 2 * (iArg.toNat / 2) + iArg.toNat % 2 := by omega
    rw [mulLoop]
    split
    · rw [ih _ _ _ (by rw [hhalf]; rw [Nat.pow_succ] at h; omega), hret, hhalf, toNat_shlAssign]
      calc ret.toNat + tmp.toNat * (iArg.toNat % 2) + 2 ^ 1 * tmp.toNat * (iArg.toNat / 2)
          = ret.toNat + tmp.toNat * (2 * (iArg.toNat / 2) + iArg.toNat % 2) := by ring
        _ = ret.toNat + tmp.toNat * iArg.toNat := by rw [← hsplit]
    · rename_i hz
      rw [ne_iff, not_not] at hz
      rw [hz, toNat_rossiZero] at hhalf
      rw [hret, hsplit, ← hhalf]
      simp

@[simp] theorem toNat_mul (x y : Rossi) : (mul x y).toNat = x.toNat * y.toNat := by
  have hy : y.toNat < 2 ^ (64 * y.mUnits.length) := by
    rw [Nat.pow_mul]; exact Limbs.value_lt y.mUnits
  rw [mul, toNat_mulLoop _ _ _ _ hy, toNat_rossiZero, Nat.zero_add]

/-! ## `operator^` -/

/-- mirrors src/src/common/BigInt.cpp:1625-1648 (`operator^`) -/
def xor (x y : Rossi) : Rossi :=
  let maxSize := max x.mUnits.length y.mUnits.length
  smartTruncateUnits (List.zipWith (· ^^^ ·) (resize x.mUnits maxSize) (resize y.mUnits maxSize))
    (by
      have := List.length_pos_of_ne_nil x.trimmed.ne_nil
      rw [← List.length_pos_iff, List.length_zipWith, Limbs.length_resize, Limbs.length_resize]
      omega)

@[simp] theorem toNat_xor (x y : Rossi) : (x.xor y).toNat = x.toNat ^^^ y.toNat := by
  rw [xor, toNat_smartTruncateUnits, Limbs.value_xor]
  · rw [Limbs.value_resize _ (Nat.le_max_left _ _), Limbs.value_resize _ (Nat.le_max_right _ _)]
    rfl
  · rw [Limbs.length_resize, Limbs.length_resize]

/-! ## Strings -/

/-- `ms_hex2dec[c]`; a key that is not there is inserted with value 0. Mirrors
src/src/common/BigInt.cpp:18-42. -/
def hex2dec (c : Fin 256) : Nat :=
  if isdigit c then c.val - 48
  else if 97 ≤ c.val ∧ c.val ≤ 102 then c.val - 87
  else if 65 ≤ c.val ∧ c.val ≤ 70 then c.val - 55
  else 0

/-- Read the string digit by digit. -/
def ofDigits (base : Nat) (s : Bytes) : Rossi :=
  s.foldl (fun this c => add (mul this (ofUlong (.ofNat 64 base))) (ofUlong (.ofNat 64 (hex2dec c))))
    rossiZero

/-- mirrors src/src/common/BigInt.cpp:925-996 (`initViaString`), on a number
that is still empty, as every constructor that calls it leaves it -/
def initViaString (iArg : Bytes) (iDigitBase : Nat) : Except Fault Rossi :=
  if iDigitBase = 16 ∨ iDigitBase = 10 then
    if iArg.all (if iDigitBase = 10 then isdigit else isxdigit) then
      .ok (ofDigits iDigitBase iArg)
    else .error .assertion
  else .error .assertion

/-- **Only bases 10 and 16 are read.** Any other aborts, whatever the string. -/
theorem initViaString_base {iDigitBase : Nat} (h16 : iDigitBase ≠ 16) (h10 : iDigitBase ≠ 10)
    (iArg : Bytes) : initViaString iArg iDigitBase = .error .assertion := by
  rw [initViaString, if_neg]
  rintro (h | h)
  · exact h16 h
  · exact h10 h

theorem hex2dec_lt (c : Fin 256) : hex2dec c < 16 := by
  unfold hex2dec isdigit
  split
  · rename_i h; simp only [Bool.and_eq_true, decide_eq_true_eq] at h; omega
  · split
    · omega
    · split <;> omega

/-- Horner's rule. -/
theorem toNat_ofDigits {base : Nat} (hb : base < 2 ^ 64) (s : Bytes) :
    (ofDigits base s).toNat = s.foldl (fun n c => n * base + hex2dec c) 0 := by
  have h : ∀ (r : Rossi) (n : Nat), r.toNat = n →
      (s.foldl (fun this c => add (mul this (ofUlong (.ofNat 64 base)))
        (ofUlong (.ofNat 64 (hex2dec c)))) r).toNat =
      s.foldl (fun n c => n * base + hex2dec c) n := by
    induction s with
    | nil => intro r n hr; exact hr
    | cons c s ih =>
      intro r n hr
      have hc := hex2dec_lt c
      have hdigit : (add (mul r (ofUlong (.ofNat 64 base))) (ofUlong (.ofNat 64 (hex2dec c)))).toNat =
          n * base + hex2dec c := by
        rw [toNat_add, toNat_mul, toNat_ofUlong, toNat_ofUlong, BitVec.toNat_ofNat, BitVec.toNat_ofNat,
          Nat.mod_eq_of_lt hb, Nat.mod_eq_of_lt (by omega), hr]
      rw [List.foldl_cons, List.foldl_cons]
      exact ih _ _ hdigit
  exact h rossiZero 0 toNat_rossiZero

theorem initViaString_dec {iArg : Bytes} (h : iArg.all isdigit = true) :
    ∃ r, initViaString iArg 10 = .ok r ∧
      r.toNat = iArg.foldl (fun n c => n * 10 + hex2dec c) 0 := by
  refine ⟨ofDigits 10 iArg, ?_, toNat_ofDigits (by decide) iArg⟩
  simp [initViaString, h]

/-- `std::hex` output of one word, padded with '0' to `setw` places. -/
def hexWord (setw : Nat) (u : Ulong) : Bytes :=
  bytes (Nat.toDigits 16 u.toNat |>.leftpad setw '0')

/-- mirrors src/src/common/BigInt.cpp:1907-1938 (`toStrHex`, no prefix) -/
def toStrHex (x : Rossi) : Bytes :=
  match x.mUnits.reverse with
  | [] => bytes ['0']
  | back :: rest => hexWord 0 back ++ (rest.map (hexWord 16)).flatten

end Rossi

/-! ## Decimal output: `BigInt::Vin` -/

/-- Digits in base 10^9, least significant first; mirrors
src/include/common/BigInt.h:282-336 (`class Vin`). -/
structure Vin where
  mUnits : List Ulong

namespace Vin

def base2 : Ulong := 1000000000
def subBase2 : Ulong := base2 - 1
def overBase2 : Ulong := 0xc0000000

/-- The sum of two digits and the carry `s_carry` it leaves; mirrors
src/src/common/BigInt.cpp:233-238. -/
def addUnits (sCarry n1 n2 : Ulong) : Ulong × Ulong :=
  let n := n1 + (n2 + sCarry)
  if overBase2 &&& n ≠ 0 ∨ subBase2 < n then (n - base2, 1) else (n, 0)

def transform : Ulong → List Ulong → List Ulong → List Ulong × Ulong
  | sCarry, x :: xs, y :: ys =>
    let (r, sCarry') := addUnits sCarry x y
    let (rs, out) := transform sCarry' xs ys
    (r :: rs, out)
  | sCarry, _, _ => ([], sCarry)

/-- mirrors src/src/common/BigInt.cpp:481-642 (`operator+`) -/
def add (x y : Vin) : Vin :=
  let maxSize := max x.mUnits.length y.mUnits.length
  let (ret, sCarry) := transform 0 (resize x.mUnits maxSize) (resize y.mUnits maxSize)
  ⟨if sCarry ≠ 0 then ret ++ [sCarry] else ret⟩

/-- mirrors src/src/common/BigInt.cpp:646-654 (`operator*`) -/
def mul (x : Vin) (iArg : Nat) : Vin := (fun ret => add ret x)^[iArg] ⟨[0]⟩

/-- mirrors src/src/common/BigInt.cpp:406-476 (`initViaString`) -/
def initViaString (iArg : Bytes) (iDigitBase : Nat) : Except Fault Vin :=
  if iDigitBase = 16 ∨ iDigitBase = 10 then
    if iArg.all (if iDigitBase = 10 then isdigit else isxdigit) then
      .ok (iArg.foldl (fun this c => add (mul this iDigitBase) ⟨[.ofNat 64 (Rossi.hex2dec c)]⟩) ⟨[0]⟩)
    else .error .assertion
  else .error .assertion

/-- `setw (BASE1 - 1)` applies to the digit written after it, so the top one is
not padded. Mirrors src/src/common/BigInt.cpp:762-781 (`toStrDec`, no prefix). -/
def toStrDec (x : Vin) : Bytes :=
  match x.mUnits.reverse with
  | [] => bytes ['i', 's', 'E', 'm', 'p', 't', 'y']
  | back :: rest =>
    let dec (setw : Nat) (u : Ulong) := bytes (Nat.toDigits 10 u.toNat |>.leftpad setw '0')
    dec 0 back ++ (rest.map (dec 9)).flatten

end Vin

/-- mirrors src/src/common/BigInt.cpp:1949-1958 (`toStrDec`), which is what
`operator<<` and so `BigInt::toString` write -/
def Rossi.toStrDec (x : Rossi) : Except Fault Bytes := do
  let vin ← Vin.initViaString x.toStrHex 16
  return vin.toStrDec

end Kadpeer.L1
