import Kadpeer.L1Number.KadID

/-!
# The order of ids and the XOR metric (`kademlia/kadid.cpp`)

`Rossi::operator<` looks at the number of words before it looks at a word, so
the order of ids is the order of the numbers only as long as no id carries a
zero word on top. `Term` lists the ways the program comes by an id: the default
constructor, a `Rossi` made from a machine word or from a decimal string, and
the operators `^`, `+` and `-`. `number` is what a term means, in plain
natural-number arithmetic; `eval` is what the code computes, which ends early on
a string with a byte that is no digit and on a negative difference.

* `toNat_eval`: an id stands for the number its term means.
* `closerToTarget_iff`, `closerToTarget_trichotomy`, `closerToTarget_trans`:
  `CloserToTarget` is a strict total order, nearest in the XOR metric first.
* `order_is_xor_metric`: both, for ids from any terms.
-/
namespace Kadpeer.L1

open Kadpeer.Core

/-- The number a decimal string spells. -/
def decimalNumber (s : Bytes) : Nat := s.foldl (fun n c => n * 10 + (c.val - 48)) 0

theorem initViaString_decimal {s : Bytes} {r : Rossi} (h : Rossi.initViaString s 10 = .ok r) :
    r.toNat = decimalNumber s := by
  have hall : s.all isdigit = true := by
    by_contra hs
    simp [Rossi.initViaString, hs] at h
  obtain ⟨r', hr', hval⟩ := Rossi.initViaString_dec hall
  rw [hr'] at h
  obtain rfl := Except.ok.inj h
  have hdigit : ∀ c ∈ s, Rossi.hex2dec c = c.val - 48 := by
    intro c hc
    rw [Rossi.hex2dec, if_pos (List.all_eq_true.mp hall c hc)]
  rw [hval, decimalNumber]
  exact List.foldl_ext _ _ _ fun n c hc => by rw [hdigit c hc]

namespace KadID

theorem sub_eq_ok {a b c : KadID} :
    a.sub b = .ok c ↔ b.toNat ≤ a.toNat ∧ c.toNat = a.toNat - b.toNat := by
  rw [toNat, toNat, toNat, ← Rossi.sub_eq_ok, sub, bind_eq_ok]
  constructor
  · rintro ⟨r, hr, hc⟩
    rwa [← Except.ok.inj hc]
  · exact fun h => ⟨c.rawId, h, rfl⟩

/-- The free `operator <=`, the one that const ids are compared with. Mirrors
src/src/kademlia/kadid.cpp:148-151. -/
def leFree (ls rs : KadID) : Bool := !Rossi.gt ls.rawId rs.rawId

theorem leFree_iff {a b : KadID} : leFree a b = true ↔ a ≤ b := by
  rw [leFree, Bool.not_eq_true', ← Bool.not_eq_true, gt_iff, gt_iff_lt, not_lt]

/-- `operator ==`; mirrors src/src/kademlia/kadid.cpp:82-85,158-161. -/
def eq (ls rs : KadID) : Bool := Rossi.eq ls.rawId rs.rawId

/-- `operator !=`; mirrors src/src/kademlia/kadid.cpp:107-110,163-166. -/
def ne (ls rs : KadID) : Bool := Rossi.ne ls.rawId rs.rawId

theorem eq_iff {a b : KadID} : eq a b = true ↔ a = b := by
  rw [eq, Rossi.eq_iff, KadID.ext_iff]

/-! ## `CloserToTarget` -/

theorem closerToTarget_iff {a b t : KadID} :
    closerToTarget a b t = true ↔ a.toNat ^^^ t.toNat < b.toNat ^^^ t.toNat := by
  rw [closerToTarget, decide_eq_true_eq, lt_def, toNat_xor, toNat_xor]

theorem closerToTarget_trans {a b c t : KadID} (hab : closerToTarget a b t = true)
    (hbc : closerToTarget b c t = true) : closerToTarget a c t = true := by
  rw [closerToTarget_iff] at *
  omega

/-- Of two ids one is closer, or they are the same. -/
theorem closerToTarget_trichotomy (a b t : KadID) :
    (closerToTarget a b t = true ∧ closerToTarget b a t = false ∧ eq a b = false) ∨
    (closerToTarget a b t = false ∧ closerToTarget b a t = true ∧ eq a b = false) ∨
    (closerToTarget a b t = false ∧ closerToTarget b a t = false ∧ eq a b = true) := by
  have hinj : a.toNat ^^^ t.toNat = b.toNat ^^^ t.toNat ↔ a = b := by
    rw [← toNat_xor, ← toNat_xor, ← eq_def, xor_left_inj]
  simp only [← Bool.not_eq_true, closerToTarget_iff, eq_iff, ← hinj]
  omega

/-! ## Where ids come from -/

/-- An id as the program builds it. -/
inductive Term
  /-- `KadID()`, at a clock reading with this digest. -/
  | default (digest : Digest)
  /-- `KadID(BigInt::Rossi(unit))` -/
  | number (unit : Ulong)
  /-- `KadID(BigInt::Rossi(s, 10))` -/
  | decimal (s : Bytes)
  | xor (ls rs : Term)
  | add (ls rs : Term)
  | sub (ls rs : Term)

namespace Term

/-- What the code computes. -/
def eval : Term → Except Fault KadID
  | default digest => .ok (ofDigest digest)
  | number unit => .ok ⟨Rossi.ofUlong unit⟩
  | decimal s => do return ⟨← Rossi.initViaString s 10⟩
  | xor ls rs => do return (← ls.eval).xor (← rs.eval)
  | add ls rs => do return (← ls.eval).add (← rs.eval)
  | sub ls rs => do (← ls.eval).sub (← rs.eval)

/-- What the term means. -/
def value : Term → Nat
  | default digest => digestNumber digest
  | number unit => unit.toNat
  | decimal s => decimalNumber s
  | xor ls rs => ls.value ^^^ rs.value
  | add ls rs => ls.value + rs.value
  | sub ls rs => ls.value - rs.value

/-- **An id stands for the number its term means**, by induction on the term. -/
theorem toNat_eval : ∀ {e : Term} {a : KadID}, e.eval = .ok a → a.toNat = e.value
  | default d, a, h => by
    rw [← Except.ok.inj h, value, toNat_ofDigest]
  | number u, a, h => by
    rw [← Except.ok.inj h, value]
    exact Rossi.toNat_ofUlong u
  | decimal s, a, h => by
    obtain ⟨r, hr, ha⟩ := bind_eq_ok.mp h
    rw [← Except.ok.inj ha, value]
    exact initViaString_decimal hr
  | xor ls rs, a, h => by
    obtain ⟨x, hx, h⟩ := bind_eq_ok.mp h
    obtain ⟨y, hy, h⟩ := bind_eq_ok.mp h
    rw [← Except.ok.inj h, value, toNat_xor, toNat_eval hx, toNat_eval hy]
  | add ls rs, a, h => by
    obtain ⟨x, hx, h⟩ := bind_eq_ok.mp h
    obtain ⟨y, hy, h⟩ := bind_eq_ok.mp h
    rw [← Except.ok.inj h, value, toNat_add, toNat_eval hx, toNat_eval hy]
  | sub ls rs, a, h => by
    obtain ⟨x, hx, h⟩ := bind_eq_ok.mp h
    obtain ⟨y, hy, h⟩ := bind_eq_ok.mp h
    rw [value, (sub_eq_ok.mp h).2, toNat_eval hx, toNat_eval hy]

end Term

/-- **The order of ids is the order of their numbers, and `CloserToTarget` that of
their XOR distances**: whatever operations the three ids come from. -/
theorem order_is_xor_metric {ea eb et : Term} {a b t : KadID} (ha : ea.eval = .ok a)
    (hb : eb.eval = .ok b) (ht : et.eval = .ok t) :
    Limbs.Trimmed a.rawId.mUnits ∧ a.toNat = ea.value ∧
    (a < b ↔ ea.value < eb.value) ∧
    (a ≤ b ↔ ea.value ≤ eb.value) ∧ (leFree a b = true ↔ ea.value ≤ eb.value) ∧
    (eq a b = true ↔ ea.value = eb.value) ∧ (ne a b = true ↔ ea.value ≠ eb.value) ∧
    (closerToTarget a b t = true ↔ ea.value ^^^ et.value < eb.value ^^^ et.value) ∧
    ((closerToTarget a b t = true ∧ closerToTarget b a t = false ∧ eq a b = false) ∨
      (closerToTarget a b t = false ∧ closerToTarget b a t = true ∧ eq a b = false) ∨
      (closerToTarget a b t = false ∧ closerToTarget b a t = false ∧ eq a b = true)) ∧
    ∀ (ec : Term) (c : KadID), ec.eval = .ok c → closerToTarget a b t = true →
      closerToTarget b c t = true → closerToTarget a c t = true := by
  rw [← Term.toNat_eval ha, ← Term.toNat_eval hb, ← Term.toNat_eval ht]
  refine ⟨a.rawId.trimmed, rfl, lt_def, le_def, ?_, ?_, ?_, closerToTarget_iff,
    closerToTarget_trichotomy a b t, fun _ _ _ => closerToTarget_trans⟩
  · rw [leFree_iff, le_def]
  · rw [eq_iff, eq_def]
  · rw [ne, ne_iff, ne_eq, eq_def]

/-- At the target `2^64`: `2^64 + 1` is one word longer than `5` and still closer. -/
theorem order_is_xor_metric_words :
    closerToTarget ⟨⟨[1, 1], by decide⟩⟩ ⟨Rossi.ofUlong 5⟩ ⟨⟨[0, 1], by decide⟩⟩ = true := by
  have h := @order_is_xor_metric
    (.decimal (bytes "18446744073709551617".toList)) (.sub (.number 7) (.number 2))
    (.add (.number 0xffffffffffffffff) (.number 1))
    ⟨⟨[1, 1], by decide⟩⟩ ⟨Rossi.ofUlong 5⟩ ⟨⟨[0, 1], by decide⟩⟩
    (by decide +kernel) (by decide +kernel) (by decide +kernel)
  exact h.2.2.2.2.2.2.2.1.mpr (by decide +kernel)

end KadID
end Kadpeer.L1
