import Mathlib.Data.Finset.Card
import Mathlib.Logic.Function.Basic

/-!
# Sizes of fibers

How many points of a finite set a function sends to a given value, and what
adding a point, removing one and changing the function at one does to the
number. Each lemma adds on both sides, so that no subtraction is needed.
-/
namespace Kadpeer.Core

variable {α β : Type} [DecidableEq β] {s : Finset α} {f : α → β} {a : α} {b : β}

/-- How many points of `s` the function `f` sends to `b`. -/
def fiber (s : Finset α) (f : α → β) (b : β) : Nat := (s.filter fun a => f a = b).card

theorem fiber_empty (f : α → β) (b : β) : fiber ∅ f b = 0 := by
  simp [fiber]

theorem fiber_pos : 0 < fiber s f b ↔ ∃ a ∈ s, f a = b := by
  rw [fiber, Finset.card_pos]
  simp [Finset.Nonempty]

/-- The function outside of `s` does not matter. -/
theorem fiber_congr {g : α → β} (h : ∀ a ∈ s, f a = g a) (b : β) : fiber s f b = fiber s g b := by
  rw [fiber, fiber, Finset.filter_congr fun a ha => by rw [h a ha]]

theorem fiber_eq_card (h : ∀ a ∈ s, f a = b) : fiber s f b = s.card := by
  rw [fiber, Finset.filter_true_of_mem h]

variable [DecidableEq α]

theorem fiber_erase_add (ha : a ∈ s) (f : α → β) (b : β) :
    fiber (s.erase a) f b + (if f a = b then 1 else 0) = fiber s f b := by
  rw [fiber, fiber, Finset.filter_erase]
  split
  · rename_i h
    exact Finset.card_erase_add_one (Finset.mem_filter.mpr ⟨ha, h⟩)
  · rename_i h
    have hnot : a ∉ s.filter fun x => f x = b := fun hm => h (Finset.mem_filter.mp hm).2
    rw [Finset.erase_eq_of_notMem hnot, Nat.add_zero]

theorem fiber_insert (ha : a ∉ s) (f : α → β) (c b : β) :
    fiber (insert a s) (Function.update f a c) b = fiber s f b + (if c = b then 1 else 0) := by
  have hne : ∀ x ∈ s, Function.update f a c x = f x := by
    rintro x hx
    refine Function.update_of_ne ?_ _ _
    rintro rfl
    exact ha hx
  rw [← fiber_erase_add (Finset.mem_insert_self a s), Finset.erase_insert ha, fiber_congr hne,
    Function.update_self]

theorem fiber_update_add (ha : a ∈ s) (f : α → β) (c b : β) :
    fiber s (Function.update f a c) b + (if f a = b then 1 else 0) =
      fiber s f b + (if c = b then 1 else 0) := by
  have hne : ∀ x ∈ s.erase a, Function.update f a c x = f x := by
    intro x hx
    exact Function.update_of_ne (Finset.ne_of_mem_erase hx) _ _
  have hnew := fiber_erase_add ha (Function.update f a c) b
  have hold := fiber_erase_add ha f b
  rw [fiber_congr hne, Function.update_self] at hnew
  omega

end Kadpeer.Core
