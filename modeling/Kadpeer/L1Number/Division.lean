import Kadpeer.Core.LongDivision
import Kadpeer.L1Number.Rossi

/-!
# Division and counting (`common/BigInt.cpp`)

`divide` shifts the divisor up until it is not less than the dividend, back by one
if it went past it, and then takes it off bit by bit. At the end it multiplies
out and aborts if the dividend does not come back.

`quotient` starts as zero words that the first `<<=` or the last truncation
takes away: it is the number 0 here.

* `divide_eq_ok`: it aborts on the divisor 0 and on nothing else, and the result
  is the quotient and the remainder.
* `toNat_increment`: `++` is exact. `decrement_eq_ok`: `--` aborts where it has to
  borrow from the second word, and takes 0 to 2^64 - 1.
* `rossiLog_eq`: the logarithm to base 2, except for 0 and where an `int` is too short.
-/
namespace Kadpeer.L1.Rossi

open Kadpeer.Core
open Kadpeer.Core.Limbs (value)

/-! ## `++` and `--` -/

/-- mirrors src/src/common/BigInt.cpp:1388-1404 (`operator++`), which the post-increment calls -/
def increment (x : Rossi) : Rossi :=
  smartTruncateUnits (Limbs.inc (x.mUnits ++ [0#64])) (by
    rw [← List.length_pos_iff, Limbs.length_inc]
    simp)

@[simp] theorem toNat_increment (x : Rossi) : x.increment.toNat = x.toNat + 1 := by
  rw [increment, toNat_smartTruncateUnits, Limbs.value_inc (by decide), toNat]

/-- Every number is the value of a `Rossi`: count up to it. -/
theorem exists_toNat (n : Nat) : ∃ x : Rossi, x.toNat = n := by
  induction n with
  | zero => exact ⟨rossiZero, toNat_rossiZero⟩
  | succ n ih =>
    obtain ⟨x, hx⟩ := ih
    exact ⟨x.increment, by rw [toNat_increment, hx]⟩

theorem mUnits_ne_nil (x : Rossi) : x.mUnits ≠ [] := x.trimmed.ne_nil

/-- The second word is looked at only where the first one has become `ULONG_MAX`, and
asserted to be less. Mirrors src/src/common/BigInt.cpp:1543-1558 (`operator--`). -/
def decrement (x : Rossi) : Except Fault Rossi :=
  let u := x.mUnits.head x.mUnits_ne_nil - 1
  if x.mUnits.tail ≠ [] ∧ ¬ u ≠ BitVec.allOnes 64 then .error .assertion
  else .ok (smartTruncateUnits (u :: x.mUnits.tail) (List.cons_ne_nil _ _))

/-- The number has a second word whose unit is to be borrowed. -/
def Borrows (x : Rossi) : Prop := 2 ^ 64 ≤ x.toNat ∧ x.toNat % 2 ^ 64 = 0

theorem toNat_eq_head_tail (x : Rossi) :
    x.toNat = (x.mUnits.head x.trimmed.ne_nil).toNat + 2 ^ 64 * value x.mUnits.tail := by
  obtain ⟨us, h⟩ := x
  cases us with
  | nil => exact absurd rfl h.ne_nil
  | cons u us => exact Limbs.value_cons u us

/-- A second word makes the number `2 ^ 64` at least, as it is not zero on top. -/
theorem le_of_tail_ne_nil {x : Rossi} (htail : x.mUnits.tail ≠ []) : 2 ^ 64 ≤ x.toNat := by
  obtain ⟨us, h⟩ := x
  have hlen : 1 < us.length := by
    cases us with
    | nil => exact absurd rfl htail
    | cons u us => exact Nat.succ_lt_succ (List.length_pos_of_ne_nil htail)
  have hexp : us.length - 1 ≠ 0 := by omega
  exact (Nat.le_self_pow hexp _).trans (Limbs.pow_le_value h hlen)

theorem toNat_sub_one (u : Ulong) : (u - 1).toNat = if u.toNat = 0 then 2 ^ 64 - 1 else u.toNat - 1 := by
  have hu := u.isLt
  rw [BitVec.toNat_sub]
  change (2 ^ 64 - 1 + u.toNat) % 2 ^ 64 = _
  split <;> omega

theorem decrement_aborts_iff {x : Rossi} :
    (x.mUnits.tail ≠ [] ∧ ¬ x.mUnits.head x.trimmed.ne_nil - 1 ≠ BitVec.allOnes 64) ↔ x.Borrows := by
  have hval := toNat_eq_head_tail x
  have hsub := toNat_sub_one (x.mUnits.head x.trimmed.ne_nil)
  have hu := (x.mUnits.head x.trimmed.ne_nil).isLt
  rw [not_not, ← BitVec.toNat_inj, hsub, BitVec.toNat_allOnes, Borrows]
  constructor
  · rintro ⟨htail, hlow⟩
    refine ⟨le_of_tail_ne_nil htail, ?_⟩
    split at hlow <;> omega
  · rintro ⟨hle, hlow⟩
    refine ⟨fun htail => ?_, if_pos (by omega)⟩
    rw [htail, Limbs.value_nil] at hval
    omega

/-- **`--` aborts where it has to borrow**, and takes 0 to the largest word. -/
theorem decrement_eq_ok {x r : Rossi} : decrement x = .ok r ↔
    ¬ x.Borrows ∧ r.toNat = if x.toNat = 0 then 2 ^ 64 - 1 else x.toNat - 1 := by
  by_cases hb : x.Borrows
  · have habort : decrement x = .error .assertion := if_pos (decrement_aborts_iff.mpr hb)
    simp [habort, hb]
  · have hval := toNat_eq_head_tail x
    have hsub := toNat_sub_one (x.mUnits.head x.trimmed.ne_nil)
    have hu := (x.mUnits.head x.trimmed.ne_nil).isLt
    have hdec : decrement x = .ok (smartTruncateUnits
        ((x.mUnits.head x.trimmed.ne_nil - 1) :: x.mUnits.tail) (List.cons_ne_nil _ _)) :=
      if_neg (by rwa [decrement_aborts_iff])
    have hnat : (smartTruncateUnits ((x.mUnits.head x.trimmed.ne_nil - 1) :: x.mUnits.tail)
        (List.cons_ne_nil _ _)).toNat = if x.toNat = 0 then 2 ^ 64 - 1 else x.toNat - 1 := by
      rw [toNat_smartTruncateUnits, Limbs.value_cons, hsub]
      rw [Borrows] at hb
      split <;> split <;> omega
    rw [hdec, Except.ok.injEq]
    constructor
    · rintro rfl
      exact ⟨hb, hnat⟩
    · rintro ⟨-, hr⟩
      exact toNat_inj (hnat.trans hr.symm)

/-- mirrors src/src/common/BigInt.cpp:1492-1533 (`operator-=`) -/
def subAssign (x y : Rossi) : Except Fault Rossi := sub x y

/-! ## `divide` -/

/-- `while ( divisor < dividend)`, at most `fuel` rounds: the divisor and `shiftcnt`. -/
def alignLoop (dividend : Rossi) : Nat → Rossi → Int → Rossi × Int
  | 0, divisor, shiftcnt => (divisor, shiftcnt)
  | fuel + 1, divisor, shiftcnt =>
    if lt divisor dividend then alignLoop dividend fuel (shlAssign divisor 1) (shiftcnt + 1)
    else (divisor, shiftcnt)

/-- Both loops before the bits: the divisor doubles, so the bits of the dividend are rounds
enough. -/
def align (dividend divisor : Rossi) : Rossi × Int :=
  let (divisor, shiftcnt) := alignLoop dividend (64 * dividend.mUnits.length) divisor 0
  if gt divisor dividend then (shrAssign divisor 1, shiftcnt - 1) else (divisor, shiftcnt)

/-- `n` rounds of the `for` loop: the quotient and what is left of the dividend. -/
def divideLoop : Nat → Rossi → Rossi → Rossi → Except Fault (Rossi × Rossi)
  | 0, dividend, _, quotient => .ok (quotient, dividend)
  | n + 1, dividend, divisor, quotient =>
    if le divisor dividend then do
      let dividend ← subAssign dividend divisor
      divideLoop n dividend (shrAssign divisor 1) (shlAssign quotient 1).increment
    else
      divideLoop n dividend (shrAssign divisor 1) (shlAssign quotient 1)

/-- `if (shiftcnt >= 0)` with the loop in it. -/
def divideBits (dividend divisor : Rossi) (shiftcnt : Int) : Except Fault (Rossi × Rossi) :=
  if 0 ≤ shiftcnt then divideLoop (shiftcnt.toNat + 1) dividend divisor rossiZero
  else .ok (rossiZero, dividend)

/-- The quotient and `*o_remainder`.
mirrors src/src/common/BigInt.cpp:1781-1864 (`divide`) -/
def divide (iDividend iDivisor : Rossi) : Except Fault (Rossi × Rossi) := do
  if eq iDivisor rossiZero then throw .assertion
  let (divisor, shiftcnt) := align iDividend iDivisor
  let (quotient, remainder) ← divideBits iDividend divisor shiftcnt
  if eq (add (mul quotient iDivisor) remainder) iDividend then return (quotient, remainder)
  else throw .assertion

variable {x y q r : Rossi}

theorem subAssign_of_le (h : y.toNat ≤ x.toNat) :
    ∃ r, subAssign x y = .ok r ∧ r.toNat = x.toNat - y.toNat := by
  cases hs : subAssign x y with
  | ok r => exact ⟨r, rfl, (sub_eq_ok.mp hs).2⟩
  | error f =>
    obtain ⟨r, hr⟩ := exists_toNat (x.toNat - y.toNat)
    have hok : subAssign x y = .ok r := sub_eq_ok.mpr ⟨h, hr⟩
    rw [hs] at hok
    cases hok

/-- The rounds are those of a long division: the divisor has the bit of each. -/
theorem divideLoop_ok {a b : Nat} (n : Nat) (dividend divisor quotient : Rossi)
    (hdivisor : ∀ m, n = m + 1 → divisor.toNat = b * 2 ^ m)
    (h : LongDivision a b n quotient.toNat dividend.toNat) :
    ∃ q r, divideLoop n dividend divisor quotient = .ok (q, r) ∧
      LongDivision a b 0 q.toNat r.toNat := by
  induction n generalizing dividend divisor quotient with
  | zero => exact ⟨quotient, dividend, rfl, h⟩
  | succ n ih =>
    have hd := hdivisor n rfl
    have hhalf : ∀ m, n = m + 1 → (shrAssign divisor 1).toNat = b * 2 ^ m := by
      rintro m rfl
      rw [toNat_shrAssign_one, hd, LongDivision.double, Nat.mul_div_cancel_left _ Nat.two_pos]
    rw [divideLoop]
    by_cases hle : divisor.toNat ≤ dividend.toNat
    · obtain ⟨rest, hrest, hval⟩ := subAssign_of_le hle
      rw [if_pos (le_iff.mpr hle), hrest]
      refine ih rest _ _ hhalf ?_
      rw [toNat_increment, toNat_shlAssign, Nat.pow_one, hval, hd]
      exact h.fits (hd ▸ hle)
    · rw [if_neg (by rwa [le_iff])]
      refine ih dividend _ _ hhalf ?_
      rw [toNat_shlAssign, Nat.pow_one]
      exact h.exceeds (by omega)

/-- The divisor has been doubled as often as it takes. -/
theorem alignLoop_eq {a : Rossi} {b : Nat} (fuel k : Nat) (divisor : Rossi)
    (hd : divisor.toNat = b * 2 ^ k) (hfuel : a.toNat ≤ b * 2 ^ (k + fuel))
    (hbefore : k = 0 ∨ b * 2 ^ (k - 1) < a.toNat) :
    ∃ d j, alignLoop a fuel divisor k = (d, ((j : Nat) : Int)) ∧ d.toNat = b * 2 ^ j ∧
      a.toNat ≤ b * 2 ^ j ∧ (j = 0 ∨ b * 2 ^ (j - 1) < a.toNat) := by
  induction fuel generalizing k divisor with
  | zero => exact ⟨divisor, k, rfl, hd, by simpa using hfuel, hbefore⟩
  | succ fuel ih =>
    rw [alignLoop]
    by_cases hlt : divisor.toNat < a.toNat
    · rw [if_pos (lt_iff.mpr hlt)]
      refine ih (k + 1) _ ?_ (by rwa [Nat.add_right_comm]) (.inr (by rwa [Nat.add_sub_cancel, ← hd]))
      rw [toNat_shlAssign, Nat.pow_one, hd, LongDivision.double]
    · rw [if_neg (by rwa [lt_iff])]
      exact ⟨divisor, k, rfl, hd, by omega, hbefore⟩

/-- The dividend is the smaller one, or the divisor has the highest bit of the quotient. -/
theorem align_cases (a b : Rossi) (hb : 0 < b.toNat) :
    (a.toNat < b.toNat ∧ (align a b).2 < 0) ∨
    ∃ k : Nat, (align a b).2 = k ∧ (align a b).1.toNat = b.toNat * 2 ^ k ∧
      a.toNat < b.toNat * 2 ^ (k + 1) := by
  have ha : a.toNat < 2 ^ (64 * a.mUnits.length) := by
    rw [Nat.pow_mul]
    exact Limbs.value_lt a.mUnits
  have hfuel : a.toNat ≤ b.toNat * 2 ^ (0 + 64 * a.mUnits.length) := by
    rw [Nat.zero_add]
    exact ha.le.trans (Nat.le_mul_of_pos_left _ hb)
  obtain ⟨d, j, heq, hd, hle, hbefore⟩ :=
    alignLoop_eq (a := a) (b := b.toNat) (64 * a.mUnits.length) 0 b (by simp) hfuel (.inl rfl)
  rw [Nat.cast_zero] at heq
  simp only [align, heq]
  by_cases hgt : a.toNat < d.toNat
  · rw [if_pos (gt_iff.mpr hgt)]
    cases j with
    | zero => exact .inl ⟨by simpa [hd] using hgt, by simp⟩
    | succ j =>
      refine .inr ⟨j, by simp, ?_, hd ▸ hgt⟩
      rw [toNat_shrAssign_one, hd, LongDivision.double, Nat.mul_div_cancel_left _ Nat.two_pos]
  · rw [if_neg (by rwa [gt_iff])]
    refine .inr ⟨j, rfl, hd, ?_⟩
    have hpos : 0 < b.toNat * 2 ^ j := Nat.mul_pos hb (Nat.two_pow_pos j)
    rw [LongDivision.double]
    omega

/-- The loops end with quotient and remainder, and the product at the end comes out. -/
theorem exists_divide (x : Rossi) (hy : y.toNat ≠ 0) :
    ∃ q r, divide x y = .ok (q, r) ∧ q.toNat = x.toNat / y.toNat ∧ r.toNat = x.toNat % y.toNat := by
  have hzero : eq y rossiZero = false := by
    rw [← Bool.not_eq_true, eq_iff]
    rintro rfl
    exact hy toNat_rossiZero
  obtain ⟨q, r, hloop, hq, hr⟩ : ∃ q r,
      divideBits x (align x y).1 (align x y).2 = .ok (q, r) ∧
      q.toNat = x.toNat / y.toNat ∧ r.toNat = x.toNat % y.toNat := by
    rcases align_cases x y (Nat.pos_of_ne_zero hy) with ⟨hlt, hneg⟩ | ⟨k, hk, hd, hlt⟩
    · refine ⟨rossiZero, x, by rw [divideBits, if_neg (by omega)], ?_, (Nat.mod_eq_of_lt hlt).symm⟩
      rw [toNat_rossiZero, Nat.div_eq_of_lt hlt]
    · obtain ⟨q, r, hloop, hdone⟩ := divideLoop_ok (a := x.toNat) (b := y.toNat) (k + 1) x
        (align x y).1 rossiZero (fun m hm => by cases hm; exact hd)
        (by rw [toNat_rossiZero]; exact .start hlt)
      exact ⟨q, r, by rw [divideBits, if_pos (by omega), hk]; exact hloop, hdone.done⟩
  have hback : eq (add (mul q y) r) x = true := by
    refine eq_iff.mpr (toNat_inj ?_)
    rw [toNat_add, toNat_mul, hq, hr, Nat.mul_comm, Nat.div_add_mod]
  refine ⟨q, r, ?_, hq, hr⟩
  rw [divide, hzero]
  simp only [Bool.false_eq_true, if_false, hloop, ok_bind, hback, if_true]
  rfl

theorem divide_zero (hy : y.toNat = 0) : divide x y = .error .assertion := by
  have hzero : eq y rossiZero = true := eq_iff.mpr (toNat_inj (by rw [hy, toNat_rossiZero]))
  rw [divide, hzero]
  rfl

/-- **`divide` is division**: it aborts on the divisor 0 and on nothing else. -/
theorem divide_eq_ok : divide x y = .ok (q, r) ↔
    y.toNat ≠ 0 ∧ q.toNat = x.toNat / y.toNat ∧ r.toNat = x.toNat % y.toNat := by
  by_cases hy : y.toNat = 0
  · simp [divide_zero hy, hy]
  · obtain ⟨q', r', hok, hq, hr⟩ := exists_divide x hy
    rw [hok, Except.ok.injEq, Prod.mk.injEq]
    constructor
    · rintro ⟨rfl, rfl⟩
      exact ⟨hy, hq, hr⟩
    · rintro ⟨-, hq', hr'⟩
      exact ⟨toNat_inj (by rw [hq, hq']), toNat_inj (by rw [hr, hr'])⟩

/-- mirrors src/src/common/BigInt.cpp:1173-1176 (`operator/`) -/
def div (x y : Rossi) : Except Fault Rossi := (divide x y).map (·.1)

/-- mirrors src/src/common/BigInt.cpp:1180-1185 (`operator%`) -/
def mod (x y : Rossi) : Except Fault Rossi := (divide x y).map (·.2)

/-! ## `rossiLog` -/

/-- `while ( tmp > BigInt::Rossi( 0 ))`, at most `fuel` rounds: `count`. -/
def logLoop : Nat → Rossi → BitVec 32 → BitVec 32
  | 0, _, count => count
  | fuel + 1, tmp, count =>
    if gt tmp rossiZero then logLoop fuel (shrAssign tmp 1) (count + 1) else count

/-- `none` is `exit(1)`. `count` is an `int`: from 2^31 bits on, which is 256 MiB, it does not
hold the number of bits (the overflow, undefined in C++, wraps here).
Mirrors src/src/common/BigInt.cpp:1992-2010. -/
def rossiLog (bint : Rossi) : Option (BitVec 32) :=
  if le bint rossiZero then none else some (logLoop (64 * bint.mUnits.length) bint 0 - 1)

/-- A round halves the number and counts one bit. -/
theorem logLoop_eq (fuel : Nat) (tmp : Rossi) (count : BitVec 32) (hpos : 0 < tmp.toNat)
    (h : tmp.toNat < 2 ^ fuel) :
    logLoop fuel tmp count = count + BitVec.ofNat 32 tmp.toNat.log2 + 1 := by
  induction fuel generalizing tmp count with
  | zero => omega
  | succ fuel ih =>
    have hhalf := toNat_shrAssign_one tmp
    rw [logLoop, if_pos (gt_iff.mpr (by rwa [toNat_rossiZero])), Nat.log2_def]
    by_cases htwo : 2 ≤ tmp.toNat
    · rw [ih _ _ (by omega) (by rw [Nat.pow_succ] at h; omega), hhalf, if_pos htwo,
        BitVec.ofNat_add, BitVec.add_assoc count, BitVec.add_comm 1]
      rfl
    · have hzero : ¬ gt (shrAssign tmp 1) rossiZero = true := by
        rw [gt_iff, toNat_rossiZero]
        omega
      rw [if_neg htwo]
      cases fuel with
      | zero => simp [logLoop]
      | succ fuel => simp [logLoop, hzero]

theorem rossiLog_eq_ofNat (x : Rossi) :
    rossiLog x = if x.toNat = 0 then none else some (BitVec.ofNat 32 x.toNat.log2) := by
  have hlt : x.toNat < 2 ^ (64 * x.mUnits.length) := by
    rw [Nat.pow_mul]
    exact Limbs.value_lt x.mUnits
  have hle : le x rossiZero = true ↔ x.toNat = 0 := by rw [le_iff, toNat_rossiZero, Nat.le_zero]
  rw [rossiLog]
  by_cases hx : x.toNat = 0
  · rw [if_pos (hle.mpr hx), if_pos hx]
  · rw [if_neg (by rwa [hle]), if_neg hx, logLoop_eq _ x 0 (Nat.pos_of_ne_zero hx) hlt]
    exact congrArg some ((BitVec.add_sub_cancel _ 1#32).trans (BitVec.zero_add _))

/-- It ends the program on 0, and else is the logarithm to base 2, of every number whose bits
an `int` can count. -/
theorem rossiLog_eq (x : Rossi) (h : x.toNat.log2 + 1 < 2 ^ 31) :
    (rossiLog x).map BitVec.toInt = if x.toNat = 0 then none else some (x.toNat.log2 : Int) := by
  rw [rossiLog_eq_ofNat]
  by_cases hx : x.toNat = 0
  · rw [if_pos hx, if_pos hx, Option.map_none]
  · have hint : (BitVec.ofNat 32 x.toNat.log2).toInt = (x.toNat.log2 : Int) := by
      have hsmall : x.toNat.log2 % 2 ^ 32 = x.toNat.log2 := Nat.mod_eq_of_lt (by omega)
      rw [BitVec.toInt_eq_toNat_of_lt, BitVec.toNat_ofNat, hsmall]
      rw [BitVec.toNat_ofNat, hsmall]
      omega
    rw [if_neg hx, if_neg hx, Option.map_some, hint]

/-- 2^70 + 5, of two words. -/
theorem rossiLog_eq_two_words :
    (rossiLog ⟨[5#64, 64#64], by decide⟩).map BitVec.toInt = some 70 := by
  have hval : (⟨[5#64, 64#64], by decide⟩ : Rossi).toNat = 2 ^ 70 + 5 := by decide
  have hlog : (2 ^ 70 + 5).log2 = 70 := by decide
  have h := rossiLog_eq ⟨[5#64, 64#64], by decide⟩ (by rw [hval, hlog]; decide)
  rwa [hval, hlog] at h

end Kadpeer.L1.Rossi
