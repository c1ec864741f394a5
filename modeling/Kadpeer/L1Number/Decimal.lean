import Kadpeer.Core.Numeral
import Kadpeer.L1Number.Rossi

/-!
# Numbers as strings (`common/BigInt.cpp`)

`Rossi::toStrHex` writes the words in base 16. `Rossi::toStrDec` reads that string
into a `Vin`, whose digits are in base 10^9, by adding a number to itself as
often as the base says, and writes the `Vin`.

* `toStrHex_eq`, `toStrDec_eq`: what is written is the numeral, and `toStrDec` never aborts.
* `initViaString_written`: it is read back as the number.
* `toStrDec_initViaString`: a decimal string without zeros in front comes back.
-/
namespace Kadpeer.L1

open Kadpeer.Core
open Kadpeer.Core.Limbs (value resize)

/-! ## Digits and characters -/

theorem hex2dec_digitChar : ∀ d < 16, Rossi.hex2dec (Fin.ofNat 256 d.digitChar.toNat) = d := by
  decide

theorem isxdigit_digitChar : ∀ d < 16, isxdigit (Fin.ofNat 256 d.digitChar.toNat) = true := by
  decide

theorem isdigit_digitChar : ∀ d < 10, isdigit (Fin.ofNat 256 d.digitChar.toNat) = true := by
  decide

theorem digitChar_hex2dec : ∀ c : Fin 256, isdigit c = true →
    Rossi.hex2dec c < 10 ∧ Fin.ofNat 256 (Rossi.hex2dec c).digitChar.toNat = c := by
  decide +kernel

theorem bytes_append (s t : List Char) : bytes (s ++ t) = bytes s ++ bytes t := List.map_append

theorem bytes_flatten (ss : List (List Char)) : bytes ss.flatten = (ss.map bytes).flatten :=
  List.map_flatten

/-- The digits of a numeral are accepted. -/
theorem all_digits {b : Nat} {p : Fin 256 → Bool} (hb : 1 < b)
    (hp : ∀ d < b, p (Fin.ofNat 256 d.digitChar.toNat) = true) (n : Nat) :
    (bytes (Nat.toDigits b n)).all p = true := by
  rw [List.all_eq_true]
  intro c hc
  obtain ⟨ch, hch, rfl⟩ := List.mem_map.mp hc
  obtain ⟨d, hd, rfl⟩ := Numeral.exists_of_mem_toDigits hb hch
  exact hp d hd

/-! ## Base 16 -/

namespace Rossi

theorem hexWord_eq (setw : Nat) (u : Ulong) : hexWord setw u = bytes (Numeral.padded 16 setw u.toNat) := rfl

/-- The top word is written without zeros in front, every other one in 16 places. -/
theorem toStrHex_eq (x : Rossi) : x.toStrHex = bytes (Nat.toDigits 16 x.toNat) := by
  obtain ⟨us, h⟩ := x
  rcases List.eq_nil_or_concat' us with rfl | ⟨init, back, rfl⟩
  · exact absurd rfl h.ne_nil
  have htop : init.reverse.map BitVec.toNat = [] ∨ 0 < back.toNat := by
    by_cases hinit : init = []
    · exact .inl (by rw [hinit]; rfl)
    · refine .inr (Nat.pos_of_ne_zero fun hback => h.top (by simpa using hinit) ?_)
      rw [List.getLast?_concat, ← BitVec.toNat_inj.mp (hback.trans BitVec.toNat_zero.symm)]
  have hwords := Numeral.words_eq (b := 16) (k := 16) (by decide) (by decide) back.toNat
    (init.reverse.map BitVec.toNat) (fun w hw => by
      obtain ⟨u, -, rfl⟩ := List.mem_map.mp hw
      exact u.isLt) htop
  have hval : Nat.ofDigits (16 ^ 16) ((init.reverse.map BitVec.toNat).reverse ++ [back.toNat]) =
      value (init ++ [back]) := by
    rw [List.map_reverse, List.reverse_reverse]
    simp [value]
  rw [toNat, ← hval, ← hwords, bytes_append, bytes_flatten, List.map_map, List.map_map]
  simp only [toStrHex, List.reverse_append, List.reverse_singleton, List.singleton_append]
  rw [hexWord_eq, Numeral.padded_zero]
  rfl

theorem all_toStrHex (x : Rossi) : x.toStrHex.all isxdigit = true := by
  rw [toStrHex_eq]
  exact all_digits (by decide) isxdigit_digitChar x.toNat

/-- Reading it digit by digit. -/
theorem foldl_toStrHex (x : Rossi) :
    x.toStrHex.foldl (fun n c => n * 16 + hex2dec c) 0 = x.toNat := by
  rw [toStrHex_eq]
  exact Numeral.foldl_toDigits (by decide) hex2dec_digitChar x.toNat

theorem initViaString_toStrHex (x : Rossi) : initViaString x.toStrHex 16 = .ok x := by
  have hnat : (ofDigits 16 x.toStrHex).toNat = x.toNat := by
    rw [toNat_ofDigits (by decide), foldl_toStrHex]
  simp [initViaString, all_toStrHex x, toNat_inj hnat]

end Rossi

/-! ## Base 10^9 -/

namespace Vin

def toNat (x : Vin) : Nat := Nat.ofDigits (10 ^ 9) (x.mUnits.map BitVec.toNat)

/-- Every digit is less than `BASE2`, and the number needs all of them. -/
structure Canonical (x : Vin) : Prop where
  digit : ∀ u ∈ x.mUnits, u.toNat < 10 ^ 9
  ne_nil : x.mUnits ≠ []
  tight : x.mUnits.length = 1 ∨ (10 ^ 9) ^ (x.mUnits.length - 1) ≤ x.toNat

theorem overBase2_and {n : Ulong} (h : n.toNat < 2 ^ 30) : overBase2 &&& n = 0 := by
  refine BitVec.eq_of_toNat_eq ?_
  rw [BitVec.toNat_and, show overBase2.toNat = 3 * 2 ^ 30 from rfl]
  refine Nat.eq_of_testBit_eq fun i => ?_
  change _ = Nat.testBit 0 i
  rw [Nat.testBit_and, Nat.testBit_mul_two_pow, Nat.zero_testBit]
  by_cases hi : 30 ≤ i
  · rw [Nat.testBit_lt_two_pow (h.trans_le (Nat.pow_le_pow_right (by decide) hi)), Bool.and_false]
  · simp [hi]

/-- The mask is a faster test for the same thing. -/
theorem over_iff (n : Ulong) : (overBase2 &&& n ≠ 0 ∨ subBase2 < n) ↔ 10 ^ 9 ≤ n.toNat := by
  rw [BitVec.lt_def, show subBase2.toNat = 10 ^ 9 - 1 from rfl]
  constructor
  · rintro (h | h)
    · by_contra hlt
      exact h (overBase2_and (by omega))
    · omega
  · exact fun h => .inr (by omega)

theorem addUnits_spec {sCarry n1 n2 : Ulong} (hc : sCarry.toNat ≤ 1) (h1 : n1.toNat < 10 ^ 9)
    (h2 : n2.toNat < 10 ^ 9) :
    (addUnits sCarry n1 n2).1.toNat + 10 ^ 9 * (addUnits sCarry n1 n2).2.toNat =
      n1.toNat + n2.toNat + sCarry.toNat ∧
    (addUnits sCarry n1 n2).1.toNat < 10 ^ 9 ∧ (addUnits sCarry n1 n2).2.toNat ≤ 1 := by
  have hn : (n1 + (n2 + sCarry)).toNat = n1.toNat + n2.toNat + sCarry.toNat := by
    rw [BitVec.toNat_add, BitVec.toNat_add, Nat.mod_eq_of_lt (a := n2.toNat + _) (by omega),
      Nat.mod_eq_of_lt (by omega), Nat.add_assoc]
  rw [addUnits]
  by_cases hover : 10 ^ 9 ≤ n1.toNat + n2.toNat + sCarry.toNat
  · have hsub : (n1 + (n2 + sCarry) - base2).toNat = n1.toNat + n2.toNat + sCarry.toNat - 10 ^ 9 := by
      rw [BitVec.toNat_sub_of_le (BitVec.le_def.mpr (by rw [hn]; exact hover)), hn]
      rfl
    rw [if_pos ((over_iff _).mpr (by rwa [hn]))]
    have hone : (1 : Ulong).toNat = 1 := rfl
    simp only [hsub, hone]
    omega
  · rw [if_neg (by rwa [over_iff, hn])]
    have hzero : (0 : Ulong).toNat = 0 := rfl
    simp only [hn, hzero]
    omega

theorem transform_spec (sCarry : Ulong) (xs ys : List Ulong) (hlen : xs.length = ys.length)
    (hc : sCarry.toNat ≤ 1) (hx : ∀ u ∈ xs, u.toNat < 10 ^ 9) (hy : ∀ u ∈ ys, u.toNat < 10 ^ 9) :
    (transform sCarry xs ys).1.length = xs.length ∧
    (∀ u ∈ (transform sCarry xs ys).1, u.toNat < 10 ^ 9) ∧
    (transform sCarry xs ys).2.toNat ≤ 1 ∧
    toNat ⟨(transform sCarry xs ys).1⟩ +
        (10 ^ 9) ^ xs.length * (transform sCarry xs ys).2.toNat =
      toNat ⟨xs⟩ + toNat ⟨ys⟩ + sCarry.toNat := by
  induction xs generalizing sCarry ys with
  | nil =>
    obtain rfl : ys = [] := List.length_eq_zero_iff.mp hlen.symm
    simp [transform, toNat, hc]
  | cons x xs ih =>
    cases ys with
    | nil => cases hlen
    | cons y ys =>
      obtain ⟨hsum, hdigit, hcarry⟩ :=
        addUnits_spec hc (hx x List.mem_cons_self) (hy y List.mem_cons_self)
      obtain ⟨ihlen, ihdigit, ihcarry, ihsum⟩ := ih (addUnits sCarry x y).2 ys (Nat.succ.inj hlen)
        hcarry (fun u hu => hx u (List.mem_cons_of_mem _ hu))
        (fun u hu => hy u (List.mem_cons_of_mem _ hu))
      have hcons : transform sCarry (x :: xs) (y :: ys) =
          ((addUnits sCarry x y).1 :: (transform (addUnits sCarry x y).2 xs ys).1,
            (transform (addUnits sCarry x y).2 xs ys).2) := rfl
      rw [hcons]
      refine ⟨congrArg Nat.succ ihlen, fun u hu => ?_, ihcarry, ?_⟩
      · rcases List.mem_cons.mp hu with rfl | hu
        · exact hdigit
        · exact ihdigit u hu
      · simp only [toNat, List.map_cons, Nat.ofDigits_cons, List.length_cons] at ihsum ⊢
        calc _ = (addUnits sCarry x y).1.toNat + 10 ^ 9 *
                (Nat.ofDigits (10 ^ 9)
                    ((transform (addUnits sCarry x y).2 xs ys).1.map BitVec.toNat) +
                  (10 ^ 9) ^ xs.length * (transform (addUnits sCarry x y).2 xs ys).2.toNat) := by ring
          _ = (addUnits sCarry x y).1.toNat + 10 ^ 9 * (addUnits sCarry x y).2.toNat + 10 ^ 9 *
                (Nat.ofDigits (10 ^ 9) (xs.map BitVec.toNat) +
                  Nat.ofDigits (10 ^ 9) (ys.map BitVec.toNat)) := by rw [ihsum]; ring
          _ = _ := by rw [hsum]; ring

theorem toNat_resize (us : List Ulong) {n : Nat} (h : us.length ≤ n) :
    toNat ⟨resize us n⟩ = toNat ⟨us⟩ := by
  simp [toNat, resize, List.take_of_length_le h, Nat.ofDigits_append, Nat.ofDigits_replicate_zero]

theorem digit_resize {us : List Ulong} (h : ∀ u ∈ us, u.toNat < 10 ^ 9) (n : Nat) :
    ∀ u ∈ resize us n, u.toNat < 10 ^ 9 := by
  intro u hu
  rcases List.mem_append.mp hu with hu | hu
  · exact h u (List.mem_of_mem_take hu)
  · rw [(List.mem_replicate.mp hu).2]
    decide

theorem tight_of_length {x : Vin} (h : x.Canonical) {n : Nat} (hn : x.mUnits.length = n) (hone : n ≠ 1) :
    (10 ^ 9) ^ (n - 1) ≤ x.toNat := by
  subst hn
  exact h.tight.resolve_left hone

theorem add_spec {x y : Vin} (hx : x.Canonical) (hy : y.Canonical) :
    (add x y).Canonical ∧ (add x y).toNat = x.toNat + y.toNat := by
  have hxpos := List.length_pos_of_ne_nil hx.ne_nil
  let n := max x.mUnits.length y.mUnits.length
  obtain ⟨hlen, hdigit, hcarry, hsum⟩ := transform_spec 0 (resize x.mUnits n) (resize y.mUnits n)
    (by rw [Limbs.length_resize, Limbs.length_resize]) (by decide) (digit_resize hx.digit n)
    (digit_resize hy.digit n)
  rw [toNat_resize _ (Nat.le_max_left _ _), toNat_resize _ (Nat.le_max_right _ _),
    Limbs.length_resize, show (0 : Ulong).toNat = 0 from rfl, Nat.add_zero] at hsum
  rw [Limbs.length_resize] at hlen
  have hadd : add x y = ⟨if (transform 0 (resize x.mUnits n) (resize y.mUnits n)).2 ≠ 0
      then (transform 0 (resize x.mUnits n) (resize y.mUnits n)).1 ++
        [(transform 0 (resize x.mUnits n) (resize y.mUnits n)).2]
      else (transform 0 (resize x.mUnits n) (resize y.mUnits n)).1⟩ := rfl
  rw [hadd]
  generalize (transform 0 (resize x.mUnits n) (resize y.mUnits n)).1 = ret at hlen hdigit hsum ⊢
  generalize (transform 0 (resize x.mUnits n) (resize y.mUnits n)).2 = sCarry at hcarry hsum ⊢
  by_cases hzero : sCarry = 0
  · -- No carry: the longer operand has the top digit already.
    rw [if_neg (by rwa [not_not])]
    rw [hzero, show (0 : Ulong).toNat = 0 from rfl, Nat.mul_zero, Nat.add_zero] at hsum
    refine ⟨⟨hdigit, ?_, ?_⟩, hsum⟩
    · rw [← List.length_pos_iff, hlen]
      omega
    · rw [hlen, hsum]
      by_cases hone : n = 1
      · exact .inl hone
      · right
        rcases Nat.le_total y.mUnits.length x.mUnits.length with hle | hle
        · exact (tight_of_length hx (Nat.max_eq_left hle).symm hone).trans (Nat.le_add_right _ _)
        · exact (tight_of_length hy (Nat.max_eq_right hle).symm hone).trans (Nat.le_add_left _ _)
  · have hone : sCarry.toNat = 1 := by
      have : sCarry.toNat ≠ 0 := fun h => hzero (BitVec.eq_of_toNat_eq h)
      omega
    have hval : toNat ⟨ret ++ [sCarry]⟩ = x.toNat + y.toNat := by
      rw [← hsum]
      simp [toNat, Nat.ofDigits_append, hlen]
    rw [if_pos hzero]
    refine ⟨⟨fun u hu => ?_, by simp, .inr ?_⟩, hval⟩
    · rcases List.mem_append.mp hu with hu | hu
      · exact hdigit u hu
      · rw [List.mem_singleton.mp hu, hone]
        decide
    · rw [hval, ← hsum, List.length_append, List.length_singleton, Nat.add_sub_cancel, hlen, hone]
      omega

theorem canonical_digit {u : Ulong} (h : u.toNat < 10 ^ 9) : Canonical ⟨[u]⟩ :=
  ⟨fun v hv => by rwa [List.mem_singleton.mp hv], List.cons_ne_nil _ _, .inl rfl⟩

theorem mul_spec {x : Vin} (hx : x.Canonical) (k : Nat) :
    (mul x k).Canonical ∧ (mul x k).toNat = k * x.toNat := by
  induction k with
  | zero => exact ⟨canonical_digit (by decide), by simp [mul, toNat]⟩
  | succ k ih =>
    have hstep : mul x (k + 1) = add (mul x k) x := Function.iterate_succ_apply' _ _ _
    obtain ⟨hcanonical, hval⟩ := add_spec ih.1 hx
    rw [hstep]
    exact ⟨hcanonical, by rw [hval, ih.2]; ring⟩

/-- One round of the loop of `initViaString`. -/
theorem hexRound_spec {x : Vin} (hx : x.Canonical) (c : Fin 256) :
    (add (mul x 16) ⟨[.ofNat 64 (Rossi.hex2dec c)]⟩).Canonical ∧
      (add (mul x 16) ⟨[.ofNat 64 (Rossi.hex2dec c)]⟩).toNat = x.toNat * 16 + Rossi.hex2dec c := by
  have hc := Rossi.hex2dec_lt c
  have hdigit : (BitVec.ofNat 64 (Rossi.hex2dec c)).toNat = Rossi.hex2dec c := by
    rw [BitVec.toNat_ofNat, Nat.mod_eq_of_lt (by omega)]
  obtain ⟨hmul, hmulval⟩ := mul_spec hx 16
  obtain ⟨hadd, haddval⟩ := add_spec hmul (canonical_digit (u := .ofNat 64 (Rossi.hex2dec c))
    (by rw [hdigit]; omega))
  have hval : toNat ⟨[.ofNat 64 (Rossi.hex2dec c)]⟩ = Rossi.hex2dec c := by
    simp only [toNat, List.map_cons, List.map_nil, Nat.ofDigits_singleton, hdigit]
  rw [hmulval, hval, Nat.mul_comm] at haddval
  exact ⟨hadd, haddval⟩

/-- Horner's rule again, in base 10^9. -/
theorem foldl_spec (s : Bytes) {x : Vin} (hx : x.Canonical) :
    (s.foldl (fun this c => add (mul this 16) ⟨[.ofNat 64 (Rossi.hex2dec c)]⟩) x).Canonical ∧
    (s.foldl (fun this c => add (mul this 16) ⟨[.ofNat 64 (Rossi.hex2dec c)]⟩) x).toNat =
      s.foldl (fun n c => n * 16 + Rossi.hex2dec c) x.toNat := by
  induction s generalizing x with
  | nil => exact ⟨hx, rfl⟩
  | cons c s ih =>
    obtain ⟨hround, hval⟩ := hexRound_spec hx c
    rw [List.foldl_cons, List.foldl_cons, ← hval]
    exact ih hround

theorem initViaString_hex {s : Bytes} (h : s.all isxdigit = true) :
    ∃ x, initViaString s 16 = .ok x ∧ x.Canonical ∧
      x.toNat = s.foldl (fun n c => n * 16 + Rossi.hex2dec c) 0 := by
  obtain ⟨hcanonical, hval⟩ := foldl_spec s (x := ⟨[0]⟩) (canonical_digit (by decide))
  exact ⟨_, by simp [initViaString, h], hcanonical, hval⟩

/-- A canonical number of two digits or more has no zero on top. -/
theorem top_pos {init : List Ulong} {back : Ulong} (h : Canonical ⟨init ++ [back]⟩)
    (hinit : init ≠ []) : 0 < back.toNat := by
  refine Nat.pos_of_ne_zero fun hback => ?_
  have hlen := List.length_pos_of_ne_nil hinit
  have hlt : Nat.ofDigits (10 ^ 9) (init.map BitVec.toNat) < (10 ^ 9) ^ (init.map BitVec.toNat).length :=
    Nat.ofDigits_lt_base_pow_length (by decide) fun w hw => by
      obtain ⟨u, hu, rfl⟩ := List.mem_map.mp hw
      exact h.digit u (List.mem_append_left _ hu)
  have htight := h.tight
  simp only [toNat, List.length_append, List.length_singleton, Nat.add_sub_cancel, List.map_append,
    List.map_cons, List.map_nil, Nat.ofDigits_append, Nat.ofDigits_singleton, hback, Nat.mul_zero,
    Nat.add_zero, List.length_map] at htight hlt
  omega

/-- The top digit is written without zeros in front, every other one in 9 places. -/
theorem toStrDec_of_canonical {x : Vin} (h : x.Canonical) : x.toStrDec = bytes (Nat.toDigits 10 x.toNat) := by
  obtain ⟨us⟩ := x
  rcases List.eq_nil_or_concat' us with rfl | ⟨init, back, rfl⟩
  · exact absurd rfl h.ne_nil
  have htop : init.reverse.map BitVec.toNat = [] ∨ 0 < back.toNat := by
    by_cases hinit : init = []
    · exact .inl (by rw [hinit]; rfl)
    · exact .inr (top_pos h hinit)
  have hwords := Numeral.words_eq (b := 10) (k := 9) (by decide) (by decide) back.toNat
    (init.reverse.map BitVec.toNat) (fun w hw => by
      obtain ⟨u, hu, rfl⟩ := List.mem_map.mp hw
      exact h.digit u (List.mem_append_left _ (List.mem_reverse.mp hu))) htop
  have hval : Nat.ofDigits (10 ^ 9) ((init.reverse.map BitVec.toNat).reverse ++ [back.toNat]) =
      toNat ⟨init ++ [back]⟩ := by
    rw [List.map_reverse, List.reverse_reverse]
    simp [toNat]
  rw [← hval, ← hwords, ← Numeral.padded_zero, bytes_append, bytes_flatten, List.map_map, List.map_map]
  simp only [toStrDec, List.reverse_append, List.reverse_singleton, List.singleton_append]
  rfl

end Vin

namespace Rossi

/-- `toStrDec` writes the decimal numeral, and never aborts on the way. -/
theorem toStrDec_eq (x : Rossi) : x.toStrDec = .ok (bytes (Nat.toDigits 10 x.toNat)) := by
  obtain ⟨vin, hvin, hcanonical, hval⟩ := Vin.initViaString_hex (all_toStrHex x)
  rw [foldl_toStrHex] at hval
  rw [toStrDec, hvin, ok_bind, Vin.toStrDec_of_canonical hcanonical, hval]
  rfl

theorem initViaString_toStrDec (x : Rossi) :
    (do let s ← x.toStrDec; initViaString s 10) = .ok x := by
  have hall := all_digits (by decide) isdigit_digitChar x.toNat
  obtain ⟨r, hr, hnat⟩ := initViaString_dec hall
  rw [bytes, Numeral.foldl_toDigits (by decide) fun d hd => hex2dec_digitChar d (by omega)] at hnat
  rw [toStrDec_eq, ok_bind, hr, toNat_inj hnat]

/-- **A number is read back from either string that is written of it.** -/
theorem initViaString_written (x : Rossi) :
    initViaString x.toStrHex 16 = .ok x ∧ (do let s ← x.toStrDec; initViaString s 10) = .ok x :=
  ⟨initViaString_toStrHex x, initViaString_toStrDec x⟩

/-- **A decimal string that does not begin with 0 comes back**, and so does "0". -/
theorem toStrDec_initViaString {c : Fin 256} {s : Bytes} (hall : (c :: s).all isdigit = true)
    (htop : s = [] ∨ c ≠ 48) :
    (do let x ← initViaString (c :: s) 10; x.toStrDec) = .ok (c :: s) := by
  obtain ⟨r, hr, hnat⟩ := initViaString_dec hall
  rw [List.all_eq_true] at hall
  have hfirst : s = [] ∨ 0 < hex2dec c := by
    refine htop.imp_right fun hne => Nat.pos_of_ne_zero fun hzero => hne ?_
    have hback := (digitChar_hex2dec c (hall c List.mem_cons_self)).2
    rw [hzero] at hback
    exact hback.symm
  have hnumeral := Numeral.toDigits_foldl (b := 10) (by decide) c s
    (fun v hv => (digitChar_hex2dec v (hall v hv)).1) hfirst
  have hchars : bytes ((c :: s).map fun v => (hex2dec v).digitChar) = c :: s := by
    rw [bytes, List.map_map]
    exact (List.map_congr_left fun v hv => (digitChar_hex2dec v (hall v hv)).2).trans
      (List.map_id _)
  rw [hr, ok_bind, toStrDec_eq, hnat, hnumeral, hchars]

theorem toStrDec_initViaString_ten :
    (do let x ← initViaString (bytes ['1', '0']) 10; x.toStrDec) = .ok (bytes ['1', '0']) :=
  toStrDec_initViaString (c := 49) (s := [48]) (by decide) (.inr (by decide))

end Rossi
end Kadpeer.L1
