import Kadpeer.L1Number.Rossi

/-!
# Node ids (`kademlia/kadid.h`, `kademlia/kadid.cpp`)

`KadID` wraps a `Rossi`. Its comparisons are those of `Rossi`, so they make a
linear order (`instLinearOrder`) that is the order of the numbers (`lt_def`,
`le_def`).

* `KadID()` is the SHA-1 of the clock reading: five 32-bit words, here an
  argument (`Digest`). `toNat_ofDigest_lt`: the id is below 2^160, and so below
  `KMaxID` (`ofDigest_lt_kMaxID`), which is the number written with 160 ones.
* `SplitRange` halves both ends before it adds them (`toNat_splitRange`); the
  two words it reads past the ends are the argument `past`. `KadID(min, max)` adds
  before it halves (`toNat_ofRange`).
* `ofString_fault`: `KadID(std::string)` asks the parser for base 8 and aborts
  on every string. `ofNullLiteral_fault`: `KadID(0)` is that constructor at a
  null pointer and throws.
-/
namespace Kadpeer.L1

open Kadpeer.Core

/-- mirrors src/src/kademlia/kadid.h:18-92 (`class KadID`) -/
@[ext]
structure KadID where
  rawId : Rossi
deriving DecidableEq

/-- The five words of a SHA-1 digest. -/
abbrev Digest := Fin 5 → BitVec 32

/-- The words two halvings read past the end of their operands. -/
abbrev Past := Ulong × Ulong

namespace KadID

def toNat (a : KadID) : Nat := a.rawId.toNat

theorem toNat_inj {a b : KadID} (h : a.toNat = b.toNat) : a = b := by
  obtain ⟨x⟩ := a
  obtain ⟨y⟩ := b
  rw [mk.injEq]
  exact Rossi.toNat_inj h

/-! ## Order -/

/-- mirrors src/src/kademlia/kadid.cpp:138-141 (`operator <`) -/
instance : LT KadID := ⟨fun a b => Rossi.lt a.rawId b.rawId = true⟩

/-- mirrors src/src/kademlia/kadid.cpp:97-100 (`operator <=`) -/
instance : LE KadID := ⟨fun a b => Rossi.le a.rawId b.rawId = true⟩

instance (a b : KadID) : Decidable (a < b) :=
  inferInstanceAs (Decidable (Rossi.lt a.rawId b.rawId = true))

instance (a b : KadID) : Decidable (a ≤ b) :=
  inferInstanceAs (Decidable (Rossi.le a.rawId b.rawId = true))

theorem lt_def {a b : KadID} : a < b ↔ a.toNat < b.toNat := Rossi.lt_iff

theorem le_def {a b : KadID} : a ≤ b ↔ a.toNat ≤ b.toNat := Rossi.le_iff

theorem eq_def {a b : KadID} : a = b ↔ a.toNat = b.toNat := ⟨fun h => h ▸ rfl, toNat_inj⟩

instance instLinearOrder : LinearOrder KadID where
  le_refl a := le_def.mpr (Nat.le_refl _)
  le_trans a b c hab hbc := le_def.mpr (Nat.le_trans (le_def.mp hab) (le_def.mp hbc))
  le_antisymm a b hab hba := toNat_inj (Nat.le_antisymm (le_def.mp hab) (le_def.mp hba))
  le_total a b := by rw [le_def, le_def]; exact Nat.le_total _ _
  lt_iff_le_not_ge a b := by rw [lt_def, le_def, le_def]; omega
  toDecidableLE := inferInstance
  toDecidableLT := inferInstance
  toDecidableEq := inferInstance

/-- `operator >` is `!(a <= b)`, which is `b < a`. -/
theorem gt_iff (a b : KadID) : Rossi.gt a.rawId b.rawId = true ↔ a > b := by
  rw [Rossi.gt_iff]; exact lt_def.symm

theorem ne_iff (a b : KadID) : Rossi.ne a.rawId b.rawId = true ↔ a ≠ b := by
  rw [Rossi.ne_iff, ne_eq, ne_eq, KadID.ext_iff]

/-! ## Constructors -/

/-- mirrors src/src/common/sha1.cpp:55-75 (`SHA1::Result`) -/
def ofDigest (digest : Digest) : KadID :=
  let word i := Rossi.ofUlong ((digest i).setWidth 64)
  ⟨[1, 2, 3, 4].foldl (fun bint i => (bint.shlAssign 32).addAssign (word i)) (word 0)⟩

/-- The five words of a digest as one number, the first word on top. -/
def digestNumber (d : Digest) : Nat :=
  (List.finRange 5).foldl (fun n i => n * 2 ^ 32 + (d i).toNat) 0

theorem toNat_ofDigest (d : Digest) : (ofDigest d).toNat = digestNumber d := by
  have hw : ∀ i, (Rossi.ofUlong ((d i).setWidth 64)).toNat = (d i).toNat := by
    intro i
    rw [Rossi.toNat_ofUlong, BitVec.toNat_setWidth]
    exact Nat.mod_eq_of_lt ((d i).isLt.trans (by decide))
  have hwords : List.finRange 5 = [0, 1, 2, 3, 4] := rfl
  simp only [toNat, ofDigest, digestNumber, hwords, List.foldl_cons, List.foldl_nil, Rossi.addAssign,
    Rossi.toNat_add, Rossi.toNat_shlAssign, hw]
  omega

theorem toNat_ofDigest_lt (d : Digest) : (ofDigest d).toNat < 2 ^ 160 := by
  have hwords : List.finRange 5 = [0, 1, 2, 3, 4] := rfl
  simp only [toNat_ofDigest, digestNumber, hwords, List.foldl_cons, List.foldl_nil]
  have := (d 0).isLt
  have := (d 1).isLt
  have := (d 2).isLt
  have := (d 3).isLt
  have := (d 4).isLt
  omega

/-- mirrors src/src/kademlia/kadid.cpp:72-75 -/
def kMinID : KadID := ⟨Rossi.ofUlong 0⟩

@[simp] theorem toNat_kMinID : kMinID.toNat = 0 := by decide

/-- The string `std::string(160,'1')`. -/
def kMaxIDString : Bytes := bytes (List.replicate 160 '1')

/-- mirrors src/src/kademlia/kadid.cpp:66-70 -/
def kMaxID : KadID := ⟨Rossi.ofDigits 10 kMaxIDString⟩

/-- The parser accepts the string. -/
theorem initViaString_kMaxID : Rossi.initViaString kMaxIDString 10 = .ok kMaxID.rawId := by
  have hall : kMaxIDString.all isdigit = true := by decide +kernel
  simp [Rossi.initViaString, hall, kMaxID]

theorem toNat_kMaxID : kMaxID.toNat = (10 ^ 160 - 1) / 9 := by
  rw [toNat, kMaxID, Rossi.toNat_ofDigits (by decide)]
  decide +kernel

/-- Its nine words, for evaluation. -/
def kMaxIDWords : KadID := ⟨⟨[8198552921648689607, 14347467612885206812, 18412816260636548209,
  9664198050430020748, 7912389147914840375, 16335841250979445802, 9277011202901877421,
  8348422511431322957, 82870], by decide⟩⟩

theorem kMaxID_eq : kMaxID = kMaxIDWords := by
  refine toNat_inj ?_
  rw [toNat_kMaxID]
  decide +kernel

theorem toNat_kMaxID_lt : kMaxID.toNat < 2 ^ 529 := by rw [toNat_kMaxID]; decide +kernel

theorem ofDigest_lt_kMaxID (d : Digest) : ofDigest d < kMaxID := by
  have h : 2 ^ 160 ≤ kMaxID.toNat := by rw [toNat_kMaxID]; decide +kernel
  exact lt_def.mpr (Nat.lt_of_lt_of_le (toNat_ofDigest_lt d) h)

/-- mirrors src/src/kademlia/kadid.cpp:35-43 (`KadID(std::string)`) -/
def ofString (raw : Bytes) : Except Fault KadID := do
  return ⟨← Rossi.initViaString raw 8⟩

/-- `KadID(0)`: the literal converts to `const char*` and so to `std::string`,
whose constructor throws on a null pointer. -/
def ofNullLiteral : Except Fault KadID := do
  let raw ← stringOfPtr none
  ofString raw

/-- **No string is a node id.** -/
theorem ofString_fault (raw : Bytes) : ofString raw = .error .assertion := by
  rw [ofString, Rossi.initViaString_base (by decide) (by decide)]
  rfl

theorem ofNullLiteral_fault : ofNullLiteral = .error .logicError := rfl

/-! ## Arithmetic -/

/-- mirrors src/src/kademlia/kadid.cpp:180-185 (`operator +`) -/
def add (a b : KadID) : KadID := ⟨a.rawId.add b.rawId⟩

/-- mirrors src/src/kademlia/kadid.cpp:186-191 (`operator -`) -/
def sub (a b : KadID) : Except Fault KadID := do
  return ⟨← a.rawId.sub b.rawId⟩

/-- mirrors src/src/kademlia/kadid.cpp:118-130 (`operator ^`) -/
def xor (a b : KadID) : KadID := ⟨a.rawId.xor b.rawId⟩

/-- mirrors src/src/kademlia/kadid.cpp:193-198 (`operator >>`) -/
def shr (past : Nat → Ulong) (a : KadID) (shift : Nat) : KadID := ⟨a.rawId.shr past shift⟩

/-- mirrors src/src/kademlia/kadid.cpp:131-136 -/
def closerToTarget (id1 id2 target : KadID) : Bool := id1.xor target < id2.xor target

/-- The results in the order of the out-parameters `min1`, `max1`. Mirrors
src/src/kademlia/kadid.cpp:199-206. -/
def splitRange (past : Past) (min max : KadID) : KadID × KadID :=
  let max1 := (min.shr (fun _ => past.1) 1).add (max.shr (fun _ => past.2) 1)
  let min1 := max1.add ⟨Rossi.ofUlong 1⟩
  (min1, max1)

@[simp] theorem toNat_add (a b : KadID) : (a.add b).toNat = a.toNat + b.toNat :=
  Rossi.toNat_add _ _

@[simp] theorem toNat_xor (a b : KadID) : (a.xor b).toNat = a.toNat ^^^ b.toNat :=
  Rossi.toNat_xor _ _

/-- Ids at the same distance from a key are equal. -/
theorem xor_left_inj {a b : KadID} (key : KadID) : a.xor key = b.xor key ↔ a = b := by
  rw [eq_def, eq_def, toNat_xor, toNat_xor]
  constructor
  · intro h
    have h' := congrArg (· ^^^ key.toNat) h
    simpa [Nat.xor_assoc] using h'
  · exact fun h => by rw [h]

/-- `min1` is `max1 + 1`, whatever was read past the end. -/
theorem toNat_splitRange_fst (past : Past) (min max : KadID) :
    (splitRange past min max).1.toNat = (splitRange past min max).2.toNat + 1 := by
  simp only [splitRange, toNat_add]
  rfl

/-- The words past the end have their low bit clear, as a zero word has. -/
def EvenPast (past : Past) : Prop := past.1.toNat % 2 = 0 ∧ past.2.toNat % 2 = 0

instance (past : Past) : Decidable (EvenPast past) := inferInstanceAs (Decidable (_ ∧ _))

/-- Both ends are halved on their own: two odd ends lose one together. -/
theorem toNat_splitRange {past : Past} (hp : EvenPast past) (min max : KadID) :
    (splitRange past min max).2.toNat = min.toNat / 2 + max.toNat / 2 := by
  simp only [splitRange, toNat_add]
  simp only [toNat, shr, Rossi.toNat_shr_one, hp.1, hp.2, Nat.zero_mul, Nat.add_zero]

/-- mirrors src/src/kademlia/kadid.cpp:60-64 (`KadID(min, max)`) -/
def ofRange (past : Ulong) (min max : KadID) : KadID := (min.add max).shr (fun _ => past) 1

/-- The middle of the range, rounded down. -/
theorem toNat_ofRange {past : Ulong} (hp : past.toNat % 2 = 0) (min max : KadID) :
    (ofRange past min max).toNat = (min.toNat + max.toNat) / 2 := by
  have hsum := toNat_add min max
  simp only [toNat] at hsum
  simp only [toNat, ofRange, shr, Rossi.toNat_shr_one, hp, Nat.zero_mul, Nat.add_zero, hsum]

/-- With an odd word past the end the top bit of the sum's words is set, and only in one
range is that an id of the range. -/
theorem ofRange_odd {past : Ulong} (hp : past.toNat % 2 = 1) (min max : KadID) :
    min ≤ ofRange past min max ∧ ofRange past min max ≤ max ↔
      ofRange past min max = max ∧ min.toNat = 0 ∧ ∃ n, 0 < n ∧ max.toNat + 1 = 2 ^ (64 * n) := by
  have hsum := toNat_add min max
  have hwords : (min.add max).toNat < 2 ^ (64 * (min.add max).rawId.mUnits.length) := by
    rw [Nat.pow_mul]
    exact Limbs.value_lt _
  have hpos : 0 < (min.add max).rawId.mUnits.length :=
    List.length_pos_of_ne_nil (min.add max).rawId.trimmed.ne_nil
  have hid : (ofRange past min max).toNat =
      (min.add max).toNat / 2 + 2 ^ (64 * (min.add max).rawId.mUnits.length - 1) := by
    simp only [toNat, ofRange, shr, Rossi.toNat_shr_one, hp, Nat.one_mul]
  have htop := Limbs.two_pow_pred (w := 64 * (min.add max).rawId.mUnits.length) (by omega)
  rw [le_def, le_def, eq_def, hid]
  constructor
  · rintro ⟨-, hle⟩
    exact ⟨by omega, by omega, _, hpos, by omega⟩
  · rintro ⟨heq, hmin, -⟩
    omega

/-- That range, the other way round. -/
theorem ofRange_words {past : Ulong} (hp : past.toNat % 2 = 1) {min max : KadID} {n : Nat}
    (hmin : min.toNat = 0) (hn : 0 < n) (hmax : max.toNat + 1 = 2 ^ (64 * n)) :
    ofRange past min max = max := by
  have hsum := toNat_add min max
  have hvalue : (min.add max).toNat + 1 = (2 ^ 64) ^ n := by
    rw [← Nat.pow_mul]
    omega
  have hlen : (min.add max).rawId.mUnits.length = n :=
    Limbs.length_of_value_succ (by decide) (min.add max).rawId.trimmed hn hvalue
  have hid : (ofRange past min max).toNat = (min.add max).toNat / 2 + 2 ^ (64 * n - 1) := by
    simp only [toNat, ofRange, shr, Rossi.toNat_shr_one, hp, Nat.one_mul, hlen]
  have htop := Limbs.two_pow_pred (w := 64 * n) (by omega)
  rw [eq_def, hid]
  omega

end KadID
end Kadpeer.L1
