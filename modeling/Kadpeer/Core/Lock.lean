import Mathlib.Logic.Function.Basic

/-!
# Locks and who answers for them

A lock is a flag for each key (`locked`). `owns x k` says that the thread `x`
answers for the key `k`, and can be any predicate on a state. `Owned` is what a
lock is for: a key is locked exactly while somebody owns it, and by one thread.
It is kept when a thread takes a free key (`acquire`), gives one back (`release`)
or passes one on (`transfer`).
-/
namespace Kadpeer.Core

structure Owned {X K : Type} (locked : K → Bool) (owns : X → K → Prop) : Prop where
  owner : ∀ k, locked k = true → ∃ x, owns x k
  locked : ∀ x k, owns x k → locked k = true
  once : ∀ x x' k, owns x k → owns x' k → x = x'

namespace Owned

variable {X K : Type} {locked : K → Bool} {owns owns' : X → K → Prop} {k : K}

theorem congr (h : Owned locked owns) (howns : ∀ x k, owns' x k ↔ owns x k) :
    Owned locked owns' where
  owner k hk := by
    obtain ⟨x, hx⟩ := h.owner k hk
    exact ⟨x, (howns x k).mpr hx⟩
  locked x k hx := h.locked x k ((howns x k).mp hx)
  once x x' k hx hx' := h.once x x' k ((howns x k).mp hx) ((howns x' k).mp hx')

theorem acquire [DecidableEq K] (h : Owned locked owns) {x : X} (hfree : locked k = false)
    (howns : ∀ y i, owns' y i ↔ owns y i ∨ y = x ∧ i = k) :
    Owned (Function.update locked k true) owns' := by
  have hnone : ∀ y, ¬ owns y k := fun y hy => by
    rw [h.locked y k hy] at hfree
    cases hfree
  refine ⟨fun i hi => ?_, fun y i hy => ?_, fun y y' i hy hy' => ?_⟩
  · rw [Function.update_apply] at hi
    split at hi
    · rename_i heq
      exact ⟨x, (howns x i).mpr (.inr ⟨rfl, heq⟩)⟩
    · obtain ⟨y, hy⟩ := h.owner i hi
      exact ⟨y, (howns y i).mpr (.inl hy)⟩
  · rw [Function.update_apply]
    split
    · rfl
    · rename_i hne
      exact h.locked y i (((howns y i).mp hy).resolve_right fun hx => hne hx.2)
  · rcases (howns y i).mp hy with hy | ⟨rfl, rfl⟩ <;> rcases (howns y' i).mp hy' with hy' | ⟨rfl, hi⟩
    · exact h.once y y' i hy hy'
    · exact absurd (hi ▸ hy) (hnone y)
    · exact absurd hy' (hnone y')
    · rfl

/-- A thread that owns this key alone gives it back. -/
theorem release [DecidableEq K] (h : Owned locked owns) {x : X} (hx : ∀ i, owns x i ↔ i = k)
    (howns : ∀ y i, owns' y i ↔ y ≠ x ∧ owns y i) : Owned (Function.update locked k false) owns' := by
  have hne : ∀ y i, y ≠ x → owns y i → i ≠ k := by
    rintro y i hy ho rfl
    exact hy (h.once y x i ho ((hx i).mpr rfl))
  refine ⟨fun i hi => ?_, fun y i hy => ?_, fun y y' i hy hy' => ?_⟩
  · rw [Function.update_apply] at hi
    split at hi
    · cases hi
    · rename_i hik
      obtain ⟨y, hy⟩ := h.owner i hi
      refine ⟨y, (howns y i).mpr ⟨?_, hy⟩⟩
      rintro rfl
      exact hik ((hx i).mp hy)
  · obtain ⟨hyx, hy⟩ := (howns y i).mp hy
    rw [Function.update_of_ne (hne y i hyx hy)]
    exact h.locked y i hy
  · exact h.once y y' i ((howns y i).mp hy).2 ((howns y' i).mp hy').2

/-- It passes it on to `z`, and the flag stays. -/
theorem transfer (h : Owned locked owns) {x z : X} (hx : ∀ i, owns x i ↔ i = k)
    (howns : ∀ y i, owns' y i ↔ y ≠ x ∧ owns y i ∨ y = z ∧ i = k) : Owned locked owns' := by
  have hne : ∀ y, y ≠ x → ¬ owns y k := fun y hy ho => hy (h.once y x k ho ((hx k).mpr rfl))
  refine ⟨fun i hi => ?_, fun y i hy => ?_, fun y y' i hy hy' => ?_⟩
  · obtain ⟨y, hy⟩ := h.owner i hi
    by_cases heq : y = x
    · exact ⟨z, (howns z i).mpr (.inr ⟨rfl, (hx i).mp (heq ▸ hy)⟩)⟩
    · exact ⟨y, (howns y i).mpr (.inl ⟨heq, hy⟩)⟩
  · rcases (howns y i).mp hy with hy | ⟨-, rfl⟩
    · exact h.locked y i hy.2
    · exact h.locked x i ((hx i).mpr rfl)
  · rcases (howns y i).mp hy with ⟨hyx, hy⟩ | ⟨rfl, rfl⟩ <;>
      rcases (howns y' i).mp hy' with ⟨hyx', hy'⟩ | ⟨rfl, hi⟩
    · exact h.once y y' i hy hy'
    · exact absurd (hi ▸ hy) (hne y hyx)
    · exact absurd hy' (hne y' hyx')
    · rfl

end Owned
end Kadpeer.Core
