import Mathlib.Tactic.Ring

/-!
# Shift-and-subtract division

The divisor is shifted up, and bit by bit it is taken from what is left of the
dividend where it fits. `LongDivision a b n q r` says that `n` bits of the
quotient are still to come, that `q` has the others and that `r` is left.

* `start`, `fits`, `exceeds`: the first state and the two kinds of round.
* `done`: with no bit to come these are quotient and remainder.
-/
namespace Kadpeer.Core

structure LongDivision (a b n q r : Nat) : Prop where
  eq : q * (b * 2 ^ n) + r = a
  lt : r < b * 2 ^ n

namespace LongDivision

variable {a b n q r : Nat}

theorem start (h : a < b * 2 ^ n) : LongDivision a b n 0 a := ⟨by omega, h⟩

theorem double (b n : Nat) : b * 2 ^ (n + 1) = 2 * (b * 2 ^ n) := by ring

/-- The shifted divisor fits: the next bit is 1. -/
theorem fits (h : LongDivision a b (n + 1) q r) (hle : b * 2 ^ n ≤ r) :
    LongDivision a b n (2 * q + 1) (r - b * 2 ^ n) := by
  have hlt := h.lt
  have heq := h.eq
  rw [double] at hlt heq
  refine ⟨?_, by omega⟩
  calc (2 * q + 1) * (b * 2 ^ n) + (r - b * 2 ^ n)
      = q * (2 * (b * 2 ^ n)) + (b * 2 ^ n + (r - b * 2 ^ n)) := by ring
    _ = q * (2 * (b * 2 ^ n)) + r := by rw [Nat.add_sub_cancel' hle]
    _ = a := heq

/-- It does not: the next bit is 0. -/
theorem exceeds (h : LongDivision a b (n + 1) q r) (hlt : r < b * 2 ^ n) :
    LongDivision a b n (2 * q) r := by
  refine ⟨?_, hlt⟩
  rw [← h.eq, double]
  ring

theorem done (h : LongDivision a b 0 q r) : q = a / b ∧ r = a % b := by
  have heq := h.eq
  have hlt := h.lt
  rw [Nat.pow_zero, Nat.mul_one] at heq hlt
  have hsum : r + b * q = a := by rw [← heq]; ring
  obtain ⟨hdiv, hmod⟩ := (Nat.div_mod_unique (Nat.zero_lt_of_lt hlt)).mpr ⟨hsum, hlt⟩
  exact ⟨hdiv.symm, hmod.symm⟩

end LongDivision
end Kadpeer.Core
