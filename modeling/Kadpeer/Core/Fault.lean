import Mathlib.Data.Fin.Basic
import Mathlib.Order.Fin.Basic

/-!
# Faults and byte strings

A call that leaves the language's defined behaviour, aborts or throws returns
`.error` with the reason; a call that returns normally returns `.ok`.

`std::string` is a list of bytes. `isdigit` and `isxdigit` are those of the
"C" locale, where no byte from 128 on is a digit.
-/
namespace Kadpeer.Core

/-- How a call can end without returning. -/
inductive Fault
  /-- `ASSERTION(x)` with `x` false: `assert`, then `abort()`. -/
  | assertion
  /-- `std::logic_error`, thrown by `std::string(const char*)` on a null pointer. -/
  | logicError
  /-- A vector element at a position past the end. -/
  | outOfBounds
  /-- An iterator dereferenced or advanced past `end()`. -/
  | badIterator
  /-- A non-void function that ends without `return`. -/
  | missingReturn
deriving DecidableEq, Repr

theorem bind_eq_ok {α β : Type} {x : Except Fault α} {f : α → Except Fault β} {b : β} :
    (x >>= f) = .ok b ↔ ∃ a, x = .ok a ∧ f a = .ok b := by
  cases x with
  | error e => exact ⟨nofun, fun ⟨_, h, _⟩ => nomatch h⟩
  | ok a => exact ⟨fun h => ⟨a, rfl, h⟩, fun ⟨_, h, hf⟩ => Except.ok.inj h ▸ hf⟩

theorem map_eq_ok {α β : Type} {x : Except Fault α} {f : α → β} {b : β} :
    x.map f = .ok b ↔ ∃ a, x = .ok a ∧ f a = b := by
  cases x with
  | error e => exact ⟨nofun, fun ⟨_, h, _⟩ => nomatch h⟩
  | ok a => exact ⟨fun h => ⟨a, rfl, Except.ok.inj h⟩, fun ⟨_, h, hf⟩ => Except.ok.inj h ▸ hf ▸ rfl⟩

theorem map_eq_error {α β : Type} {x : Except Fault α} {f : α → β} {e : Fault} :
    x.map f = .error e ↔ x = .error e := by
  cases x with
  | error e' => exact ⟨fun h => Except.error.inj h ▸ rfl, fun h => Except.error.inj h ▸ rfl⟩
  | ok a => exact ⟨nofun, nofun⟩

theorem ok_bind {α β : Type} (a : α) (f : α → Except Fault β) : (Except.ok a >>= f) = f a := rfl

abbrev Bytes := List (Fin 256)

/-- The bytes of a literal. -/
def bytes (cs : List Char) : Bytes := cs.map fun c => Fin.ofNat 256 c.toNat

/-- `std::string(const char*)`, with `none` for a null pointer. -/
def stringOfPtr : Option Bytes → Except Fault Bytes
  | some s => .ok s
  | none => .error .logicError

def isdigit (b : Fin 256) : Bool := 48 ≤ b.val && b.val ≤ 57

def isxdigit (b : Fin 256) : Bool :=
  isdigit b || (65 ≤ b.val && b.val ≤ 70) || (97 ≤ b.val && b.val ≤ 102)

end Kadpeer.Core
