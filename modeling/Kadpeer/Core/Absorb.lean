import Mathlib.Data.List.Basic
import Mathlib.Tactic.Common

/-!
# Absorbing a message block by block

An iterated hash keeps a chain value and the part of a block that is not full
yet (`Absorber`). It takes one item after the other and compresses the block
when it has `n` of them. The item type, the chain value and the compression
are arbitrary.

* `absorb_append`: how the message is cut into calls does not matter.
* `absorb_start`: after a message the chain value is the fold over its whole
  blocks (`chunks`), and the rest is what follows them.
* `absorb_of_dvd`: a message of whole blocks leaves no rest.
-/
namespace Kadpeer.Core

structure Absorber (β σ : Type) where
  chain : σ
  /-- The items of the block that is not full yet. -/
  rest : List β

namespace Absorber

variable {β σ : Type} (n : Nat) (compress : σ → List β → σ)

/-- One more item; a full block goes into the chain. -/
def push (s : Absorber β σ) (b : β) : Absorber β σ :=
  if s.rest.length + 1 = n then ⟨compress s.chain (s.rest ++ [b]), []⟩
  else ⟨s.chain, s.rest ++ [b]⟩

def absorb (s : Absorber β σ) (m : List β) : Absorber β σ := m.foldl (push n compress) s

/-- The whole blocks of a message. -/
def chunks (m : List β) : List (List β) :=
  (List.range (m.length / n)).map fun i => (m.drop (n * i)).take n

variable {n compress} {s : Absorber β σ} {m : List β}

@[simp] theorem absorb_nil : s.absorb n compress [] = s := rfl

theorem absorb_cons (b : β) :
    s.absorb n compress (b :: m) = (s.push n compress b).absorb n compress m := rfl

theorem absorb_append (m m' : List β) :
    s.absorb n compress (m ++ m') = (s.absorb n compress m).absorb n compress m' :=
  List.foldl_append

theorem absorb_snoc (b : β) :
    s.absorb n compress (m ++ [b]) = (s.absorb n compress m).push n compress b :=
  absorb_append m [b]

/-- What does not fill the block is only kept. -/
theorem absorb_of_lt (h : s.rest.length + m.length < n) :
    s.absorb n compress m = ⟨s.chain, s.rest ++ m⟩ := by
  induction m generalizing s with
  | nil => simp
  | cons b m ih =>
    rw [List.length_cons] at h
    have hpush : s.push n compress b = ⟨s.chain, s.rest ++ [b]⟩ := if_neg (by omega)
    rw [absorb_cons, hpush, ih (by simp only [List.length_append, List.length_singleton]; omega)]
    simp

theorem absorb_full (hm : m ≠ []) (h : s.rest.length + m.length = n) :
    s.absorb n compress m = ⟨compress s.chain (s.rest ++ m), []⟩ := by
  obtain ⟨init, b, rfl⟩ := (List.eq_nil_or_concat' m).resolve_left hm
  simp only [List.length_append, List.length_singleton] at h
  rw [absorb_snoc, absorb_of_lt (by omega), push, if_pos (by rw [List.length_append]; omega),
    List.append_assoc]

/-! ## Whole blocks -/

theorem chunks_of_lt (h : m.length < n) : chunks n m = [] := by
  simp [chunks, Nat.div_eq_of_lt h]

theorem chunks_of_le (hn : 0 < n) (h : n ≤ m.length) :
    chunks n m = m.take n :: chunks n (m.drop n) := by
  have hlen : m.length / n = (m.drop n).length / n + 1 := by
    rw [List.length_drop, Nat.div_eq_sub_div hn h]
  simp only [chunks, hlen, List.range_succ_eq_map, List.map_cons, Nat.mul_zero, List.drop_zero,
    List.map_map, List.cons.injEq, true_and]
  refine List.map_congr_left fun i _ => ?_
  rw [Function.comp_apply, List.drop_drop, Nat.mul_succ, Nat.add_comm]

/-- **The state after a message**: the fold over its whole blocks and what
follows them. -/
theorem absorb_start (hn : 0 < n) (c : σ) (m : List β) :
    (Absorber.mk c []).absorb n compress m =
      ⟨(chunks n m).foldl compress c, m.drop (n * (m.length / n))⟩ := by
  induction h : m.length using Nat.strongRecOn generalizing m c with
  | ind len ih =>
    by_cases hlt : m.length < n
    · rw [absorb_of_lt (by simpa using hlt), chunks_of_lt hlt, ← h, Nat.div_eq_of_lt hlt]
      simp
    · rw [Nat.not_lt] at hlt
      have htake : (m.take n).length = n := List.length_take_of_le hlt
      have hne : m.take n ≠ [] := by
        rw [← List.length_pos_iff, htake]
        exact hn
      have hfirst : (Absorber.mk c []).absorb n compress (m.take n) =
          ⟨compress c ([] ++ m.take n), []⟩ := absorb_full hne (by simpa using htake)
      have hlen : n * (m.length / n) = n + n * ((m.drop n).length / n) := by
        rw [List.length_drop, Nat.div_eq_sub_div hn hlt, Nat.mul_succ, Nat.add_comm]
      conv_lhs => rw [← List.take_append_drop n m]
      rw [absorb_append, hfirst, List.nil_append,
        ih (m.drop n).length (by rw [List.length_drop]; omega) _ _ rfl, chunks_of_le hn hlt,
        List.foldl_cons, List.drop_drop, ← h, hlen]

theorem absorb_of_dvd (hn : 0 < n) (c : σ) (h : n ∣ m.length) :
    (Absorber.mk c []).absorb n compress m = ⟨(chunks n m).foldl compress c, []⟩ := by
  rw [absorb_start hn, Nat.mul_div_cancel' h, List.drop_length]

end Absorber
end Kadpeer.Core
