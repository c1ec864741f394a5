import Mathlib.Data.List.DropRight
import Mathlib.Data.Nat.Bitwise
import Mathlib.Data.Nat.Digits.Lemmas
import Mathlib.Tactic

/-!
# Little-endian machine words

Unsigned integers of any length kept as a list of `w`-bit words, least
significant first, and the loops that work on such a list word by word:
dropping leading zero words (`trim`), comparison by length and then from the
top (`lt`), ripple-carry addition with the carry read off the wrapped sum
(`addLoop`), subtraction with a borrow (`subLoop`), and one-bit shifts (`shr1`,
`shl1`).

`value` is the number a word list stands for (`Nat.ofDigits` in base `2 ^ w`);
each operation has one lemma about it. `Trimmed` lists (not empty, no leading
zero word) stand for every number exactly once (`value_inj`), and on them the
comparison is the numeric one (`lt_iff`).
-/
namespace Kadpeer.Core.Limbs

variable {w : Nat}

def value (us : List (BitVec w)) : Nat := Nat.ofDigits (2 ^ w) (us.map BitVec.toNat)

@[simp] theorem value_nil : value ([] : List (BitVec w)) = 0 := rfl

@[simp] theorem value_cons (u : BitVec w) (us : List (BitVec w)) :
    value (u :: us) = u.toNat + 2 ^ w * value us := by
  simp [value, Nat.ofDigits_cons]

theorem value_append (us vs : List (BitVec w)) :
    value (us ++ vs) = value us + (2 ^ w) ^ us.length * value vs := by
  simp [value, Nat.ofDigits_append]

@[simp] theorem value_replicate_zero (n : Nat) :
    value (List.replicate n 0#w) = 0 := by
  simp [value, List.map_replicate, Nat.ofDigits_replicate_zero]

theorem value_lt (us : List (BitVec w)) : value us < (2 ^ w) ^ us.length := by
  induction us with
  | nil => simp
  | cons u us ih =>
    have hu := u.isLt
    have hmul : 2 ^ w * (value us + 1) ≤ 2 ^ w * (2 ^ w) ^ us.length := Nat.mul_le_mul_left _ ih
    rw [value_cons, List.length_cons, Nat.pow_succ, Nat.mul_comm ((2 ^ w) ^ us.length)]
    rw [Nat.mul_add, Nat.mul_one] at hmul
    omega

/-! ## Length: `resize` and `trim` -/

/-- The first `n` words, padded with zero words up to length `n`. -/
def resize (us : List (BitVec w)) (n : Nat) : List (BitVec w) :=
  us.take n ++ List.replicate (n - us.length) 0#w

theorem length_resize (us : List (BitVec w)) (n : Nat) : (resize us n).length = n := by
  simp only [resize, List.length_append, List.length_take, List.length_replicate]; omega

theorem value_resize (us : List (BitVec w)) {n : Nat} (h : us.length ≤ n) :
    value (resize us n) = value us := by
  simp [resize, List.take_of_length_le h, value_append]

/-- Drop zero words from the top while more than one word is left. -/
def trim (us : List (BitVec w)) : List (BitVec w) :=
  match us.rdropWhile (· == 0#w) with
  | [] => us.take 1
  | v :: vs => v :: vs

/-- Not empty, and no zero word on top unless it is the only word. -/
structure Trimmed (us : List (BitVec w)) : Prop where
  ne_nil : us ≠ []
  top : us.length ≠ 1 → us.getLast? ≠ some 0#w

instance (us : List (BitVec w)) : Decidable (Trimmed us) :=
  decidable_of_iff (us ≠ [] ∧ (us.length ≠ 1 → us.getLast? ≠ some 0#w))
    ⟨fun h => ⟨h.1, h.2⟩, fun h => ⟨h.1, h.2⟩⟩

theorem all_zero_of_rdropWhile {us : List (BitVec w)} (h : us.rdropWhile (· == 0#w) = []) :
    us = List.replicate us.length 0#w := by
  rw [List.rdropWhile_eq_nil_iff] at h
  exact List.eq_replicate_iff.mpr ⟨rfl, fun x hx => by simpa using h x hx⟩

/-- `trim` takes zero words off the top. -/
theorem trim_append (us : List (BitVec w)) : ∃ n, us = trim us ++ List.replicate n 0#w := by
  unfold trim
  split
  · rename_i h
    have hz := all_zero_of_rdropWhile h
    refine ⟨us.length - 1, ?_⟩
    cases us with
    | nil => rfl
    | cons u us =>
      simp only [List.length_cons, List.replicate_succ, List.cons.injEq] at hz
      simp only [List.take_succ_cons, List.take_zero, List.length_cons, Nat.add_sub_cancel,
        List.singleton_append, List.cons.injEq, true_and]
      exact hz.2
  · rename_i v vs h
    refine ⟨(us.rtakeWhile (· == 0#w)).length, ?_⟩
    have hz : us.rtakeWhile (· == 0#w) = List.replicate (us.rtakeWhile (· == 0#w)).length 0#w := by
      refine List.eq_replicate_iff.mpr ⟨rfl, fun x hx => ?_⟩
      simpa using List.mem_rtakeWhile_imp hx
    rw [← hz, ← h, List.rdropWhile_append_rtakeWhile]

@[simp] theorem value_trim (us : List (BitVec w)) : value (trim us) = value us := by
  obtain ⟨n, hn⟩ := trim_append us
  conv_rhs => rw [hn, value_append, value_replicate_zero, Nat.mul_zero, Nat.add_zero]

theorem trimmed_trim {us : List (BitVec w)} (h : us ≠ []) : Trimmed (trim us) := by
  unfold trim
  split
  · cases us with
    | nil => exact absurd rfl h
    | cons u us => exact ⟨by simp, by simp⟩
  · rename_i v vs hv
    refine ⟨by simp, fun _ htop => ?_⟩
    have hne : us.rdropWhile (· == 0#w) ≠ [] := by rw [hv]; simp
    have hlast := List.rdropWhile_last_not (· == 0#w) us hne
    rw [← hv, List.getLast?_eq_some_getLast hne, Option.some.injEq] at htop
    simp [htop] at hlast

/-! ## Comparison -/

/-- Word by word from the top, on reversed lists. -/
def ltTop : List (BitVec w) → List (BitVec w) → Bool
  | x :: xs, y :: ys => if x < y then true else if y < x then false else ltTop xs ys
  | _, _ => false

/-- Shorter is smaller; equal lengths are compared from the top. -/
def lt (us vs : List (BitVec w)) : Bool :=
  if us.length < vs.length then true
  else if vs.length < us.length then false
  else ltTop us.reverse vs.reverse

theorem ltTop_iff : ∀ (xs ys : List (BitVec w)), xs.length = ys.length →
    (ltTop xs ys = true ↔ value xs.reverse < value ys.reverse)
  | [], [], _ => by simp [ltTop]
  | x :: xs, y :: ys, h => by
    have hlen : xs.length = ys.length := by simpa using h
    have hx := value_lt xs.reverse
    have hy := value_lt ys.reverse
    simp only [List.length_reverse, ← hlen] at hx hy
    have ih := ltTop_iff xs ys hlen
    have hval : ∀ (z : BitVec w) (zs : List (BitVec w)), zs.length = xs.length →
        value (z :: zs).reverse = value zs.reverse + (2 ^ w) ^ xs.length * z.toNat := by
      intro z zs hz
      simp [List.reverse_cons, value_append, hz]
    rw [hval x xs rfl, hval y ys hlen.symm]
    simp only [ltTop, BitVec.lt_def]
    generalize (2 ^ w) ^ xs.length = B at *
    split
    · rename_i hlt
      have : B * (x.toNat + 1) ≤ B * y.toNat := Nat.mul_le_mul_left _ hlt
      rw [Nat.mul_add, Nat.mul_one] at this
      simp only [true_iff]; omega
    · split
      · rename_i hlt
        have : B * (y.toNat + 1) ≤ B * x.toNat := Nat.mul_le_mul_left _ hlt
        rw [Nat.mul_add, Nat.mul_one] at this
        simp only [Bool.false_eq_true, false_iff]; omega
      · rename_i h1 h2
        have hxy : x.toNat = y.toNat := by omega
        rw [ih, hxy]; omega

/-- The top word of a trimmed list counts. -/
theorem pow_le_value {us : List (BitVec w)} (hu : Trimmed us) (h : 1 < us.length) :
    (2 ^ w) ^ (us.length - 1) ≤ value us := by
  obtain ⟨init, z, rfl⟩ : ∃ init z, us = init ++ [z] := by
    rcases List.eq_nil_or_concat us with h0 | ⟨init, z, h0⟩
    · exact absurd h0 hu.ne_nil
    · exact ⟨init, z, by simpa using h0⟩
  have hz : z ≠ 0#w := by simpa using hu.top (Nat.ne_of_gt h)
  have hz' : 1 ≤ z.toNat := by
    rcases Nat.eq_zero_or_pos z.toNat with h0 | h0
    · exact absurd (BitVec.eq_of_toNat_eq (by simpa using h0)) hz
    · exact h0
  rw [value_append, List.length_append, List.length_singleton, Nat.add_sub_cancel]
  simp only [value_cons, value_nil, Nat.mul_zero, Nat.add_zero]
  have := Nat.mul_le_mul_left ((2 ^ w) ^ init.length) hz'
  omega

/-- A trimmed list that is longer stands for a larger number. -/
theorem value_lt_of_length_lt {us vs : List (BitVec w)} (hv : Trimmed vs)
    (hu : us ≠ []) (h : us.length < vs.length) : value us < value vs := by
  have hpos : 0 < us.length := List.length_pos_of_ne_nil hu
  have hpow : (2 ^ w) ^ us.length ≤ (2 ^ w) ^ (vs.length - 1) :=
    Nat.pow_le_pow_right (Nat.two_pow_pos w) (by omega)
  exact (value_lt us).trans_le (hpow.trans (pow_le_value hv (by omega)))

/-- All bits of `n` words set take `n` words. -/
theorem length_of_value_succ (hw : 0 < w) {us : List (BitVec w)} (hu : Trimmed us) {n : Nat}
    (hn : 0 < n) (h : value us + 1 = (2 ^ w) ^ n) : us.length = n := by
  have hone : 1 < 2 ^ w := Nat.one_lt_two_pow hw.ne'
  have hlt := value_lt us
  have hle : n ≤ us.length := (Nat.pow_le_pow_iff_right hone).mp (by omega)
  refine le_antisymm ?_ hle
  by_contra hgt
  have htop := pow_le_value hu (by omega)
  have hmono : (2 ^ w) ^ n ≤ (2 ^ w) ^ (us.length - 1) :=
    Nat.pow_le_pow_right (Nat.two_pow_pos w) (by omega)
  omega

/-- On trimmed lists the comparison is the numeric one. -/
theorem lt_iff {us vs : List (BitVec w)} (hu : Trimmed us) (hv : Trimmed vs) :
    lt us vs = true ↔ value us < value vs := by
  unfold lt
  split
  · rename_i h
    exact ⟨fun _ => value_lt_of_length_lt hv hu.ne_nil h, fun _ => rfl⟩
  · split
    · rename_i h
      have := value_lt_of_length_lt hu hv.ne_nil h
      simp only [Bool.false_eq_true, false_iff]; omega
    · rename_i h1 h2
      have := ltTop_iff us.reverse vs.reverse (by simp only [List.length_reverse]; omega)
      simpa using this

theorem ltTop_total : ∀ (xs ys : List (BitVec w)), xs.length = ys.length →
    ltTop xs ys = false → ltTop ys xs = false → xs = ys
  | [], [], _, _, _ => rfl
  | x :: xs, y :: ys, h, h1, h2 => by
    simp only [ltTop, BitVec.lt_def] at h1 h2
    by_cases hxy : x.toNat < y.toNat
    · simp [hxy] at h1
    · by_cases hyx : y.toNat < x.toNat
      · simp [hyx] at h2
      · simp only [hxy, hyx, if_false] at h1 h2
        have he : x = y := BitVec.eq_of_toNat_eq (by omega)
        rw [he, ltTop_total xs ys (by simpa using h) h1 h2]

/-- Trimmed lists stand for every number once. -/
theorem value_inj {us vs : List (BitVec w)} (hu : Trimmed us) (hv : Trimmed vs)
    (h : value us = value vs) : us = vs := by
  have h1 : lt us vs = false := by
    rw [← Bool.not_eq_true, lt_iff hu hv]; omega
  have h2 : lt vs us = false := by
    rw [← Bool.not_eq_true, lt_iff hv hu]; omega
  unfold lt at h1 h2
  split at h1; · cases h1
  split at h2; · cases h2
  rename_i ha hb
  simp only [hb, if_false] at h1 h2
  have := ltTop_total us.reverse vs.reverse (by simp only [List.length_reverse]; omega) h1 h2
  simpa using this

/-! ## Addition -/

/-- Carry out of `x + y + c`, read off the wrapped sum `r`. -/
def carryOut (c x y r : BitVec w) : BitVec w :=
  if c = 0#w then (if r < x ∨ r < y then 1#w else 0#w)
  else (if r ≤ x ∨ r ≤ y then 1#w else 0#w)

/-- Word-by-word sum with carry in `c`; the last carry is dropped. -/
def addLoop : BitVec w → List (BitVec w) → List (BitVec w) → List (BitVec w)
  | c, x :: xs, y :: ys => (x + y + c) :: addLoop (carryOut c x y (x + y + c)) xs ys
  | _, _, _ => []

theorem length_addLoop : ∀ (c : BitVec w) (xs ys : List (BitVec w)), xs.length = ys.length →
    (addLoop c xs ys).length = xs.length
  | _, [], [], _ => rfl
  | c, x :: xs, y :: ys, h => by
    simp only [addLoop, List.length_cons]
    rw [length_addLoop _ xs ys (by simpa using h)]

theorem carryOut_spec (hw : 0 < w) (c x y : BitVec w) (hc : c.toNat ≤ 1) :
    (x + y + c).toNat + 2 ^ w * (carryOut c x y (x + y + c)).toNat =
      x.toNat + y.toNat + c.toNat ∧ (carryOut c x y (x + y + c)).toNat ≤ 1 := by
  have hx := x.isLt
  have hy := y.isLt
  have hB : 2 ≤ 2 ^ w := Nat.le_self_pow (by omega) 2
  have h1 : (1#w).toNat = 1 := by
    rw [BitVec.toNat_ofNat]; exact Nat.mod_eq_of_lt (by omega)
  have hsum : (x + y + c).toNat = (x.toNat + y.toNat + c.toNat) % 2 ^ w := by
    simp [BitVec.toNat_add]
  have hmod : (x + y + c).toNat = x.toNat + y.toNat + c.toNat ∨
      (x + y + c).toNat + 2 ^ w = x.toNat + y.toNat + c.toNat := by
    rw [hsum]
    rcases Nat.lt_or_ge (x.toNat + y.toNat + c.toNat) (2 ^ w) with h | h
    · exact .inl (Nat.mod_eq_of_lt h)
    · right
      rw [Nat.mod_eq_sub_mod h, Nat.mod_eq_of_lt (by omega)]; omega
  have hr : (x + y + c).toNat < 2 ^ w := (x + y + c).isLt
  have hc0 : c = 0#w ↔ c.toNat = 0 := by
    rw [← BitVec.toNat_inj]; simp
  unfold carryOut
  simp only [BitVec.lt_def, BitVec.le_def, hc0]
  generalize (x + y + c).toNat = r at *
  split <;> split <;> simp only [h1, BitVec.toNat_zero, Nat.mul_one, Nat.mul_zero] <;> omega

/-- The sum, up to the carry that leaves at the top. -/
theorem value_addLoop (hw : 0 < w) : ∀ (c : BitVec w) (xs ys : List (BitVec w)),
    xs.length = ys.length → c.toNat ≤ 1 →
    ∃ k, value (addLoop c xs ys) + (2 ^ w) ^ xs.length * k = value xs + value ys + c.toNat
  | c, [], [], _, _ => ⟨c.toNat, by simp [addLoop]⟩
  | c, x :: xs, y :: ys, h, hc => by
    obtain ⟨hs, hle⟩ := carryOut_spec hw c x y hc
    obtain ⟨k, hk⟩ := value_addLoop hw _ xs ys (by simpa using h) hle
    refine ⟨k, ?_⟩
    simp only [addLoop, value_cons, List.length_cons, Nat.pow_succ]
    generalize (carryOut c x y (x + y + c)).toNat = c' at *
    generalize value (addLoop _ xs ys) = V at *
    calc (x + y + c).toNat + 2 ^ w * V + (2 ^ w) ^ xs.length * 2 ^ w * k
        = (x + y + c).toNat + 2 ^ w * (V + (2 ^ w) ^ xs.length * k) := by ring
      _ = ((x + y + c).toNat + 2 ^ w * c') + 2 ^ w * (value xs + value ys) := by rw [hk]; ring
      _ = x.toNat + 2 ^ w * value xs + (y.toNat + 2 ^ w * value ys) + c.toNat := by rw [hs]; ring

/-- Both operands grown by a zero word: nothing leaves at the top. -/
theorem value_addLoop_resize (hw : 0 < w) (us vs : List (BitVec w)) :
    value (addLoop 0#w (resize us (max us.length vs.length + 1))
      (resize vs (max us.length vs.length + 1))) = value us + value vs := by
  generalize hn : max us.length vs.length = n
  obtain ⟨k, hk⟩ := value_addLoop hw 0#w (resize us (n + 1)) (resize vs (n + 1))
    (by simp [length_resize]) (by simp)
  rw [value_resize us (by omega), value_resize vs (by omega), length_resize] at hk
  have hu := value_lt us
  have hv := value_lt vs
  have hB : 2 ≤ 2 ^ w := Nat.le_self_pow (by omega) 2
  have hpu : (2 ^ w) ^ us.length ≤ (2 ^ w) ^ n := Nat.pow_le_pow_right (by omega) (by omega)
  have hpv : (2 ^ w) ^ vs.length ≤ (2 ^ w) ^ n := Nat.pow_le_pow_right (by omega) (by omega)
  have hlt : value us + value vs < (2 ^ w) ^ (n + 1) := by
    have := Nat.mul_le_mul_left ((2 ^ w) ^ n) hB
    rw [Nat.pow_succ]; omega
  have hk0 : k = 0 := by
    rcases Nat.eq_zero_or_pos k with h | h
    · exact h
    · have := Nat.le_mul_of_pos_right ((2 ^ w) ^ (n + 1)) h
      simp only [BitVec.toNat_zero, Nat.add_zero] at hk
      omega
  simpa [hk0] using hk

/-! ## Subtraction -/

/-- Borrow out of `x - y - b`. -/
def borrowOut (b x y : BitVec w) : BitVec w :=
  if b = 0#w then (if x < y then 1#w else 0#w) else (if x ≤ y then 1#w else 0#w)

/-- Word-by-word difference with borrow in `b`; the last borrow is dropped. -/
def subLoop : BitVec w → List (BitVec w) → List (BitVec w) → List (BitVec w)
  | b, x :: xs, y :: ys => (x - y - b) :: subLoop (borrowOut b x y) xs ys
  | _, _, _ => []

theorem length_subLoop : ∀ (b : BitVec w) (xs ys : List (BitVec w)), xs.length = ys.length →
    (subLoop b xs ys).length = xs.length
  | _, [], [], _ => rfl
  | b, x :: xs, y :: ys, h => by
    simp only [subLoop, List.length_cons]
    rw [length_subLoop _ xs ys (by simpa using h)]

theorem borrowOut_spec (hw : 0 < w) (b x y : BitVec w) (hb : b.toNat ≤ 1) :
    (x - y - b).toNat + y.toNat + b.toNat = x.toNat + 2 ^ w * (borrowOut b x y).toNat ∧
      (borrowOut b x y).toNat ≤ 1 := by
  have hx := x.isLt
  have hy := y.isLt
  have hB : 2 ≤ 2 ^ w := Nat.le_self_pow (by omega) 2
  have h1 : (1#w).toNat = 1 := by
    rw [BitVec.toNat_ofNat]; exact Nat.mod_eq_of_lt (by omega)
  have hb0 : b = 0#w ↔ b.toNat = 0 := by
    rw [← BitVec.toNat_inj]; simp
  have hinner : (x - y).toNat = if y.toNat ≤ x.toNat then x.toNat - y.toNat
      else 2 ^ w + x.toNat - y.toNat := by
    rw [BitVec.toNat_sub]
    split
    · rw [show 2 ^ w - y.toNat + x.toNat = (x.toNat - y.toNat) + 2 ^ w by omega,
        Nat.add_mod_right, Nat.mod_eq_of_lt (by omega)]
    · rw [Nat.mod_eq_of_lt (by omega)]; omega
  have hdiff : (x - y - b).toNat = if b.toNat ≤ (x - y).toNat then (x - y).toNat - b.toNat
      else 2 ^ w + (x - y).toNat - b.toNat := by
    have hxy := (x - y).isLt
    rw [BitVec.toNat_sub (x - y) b]
    split
    · rw [show 2 ^ w - b.toNat + (x - y).toNat = ((x - y).toNat - b.toNat) + 2 ^ w by omega,
        Nat.add_mod_right, Nat.mod_eq_of_lt (by omega)]
    · rw [Nat.mod_eq_of_lt (by omega)]; omega
  unfold borrowOut
  simp only [BitVec.lt_def, BitVec.le_def, hb0]
  generalize (x - y - b).toNat = r at *
  generalize (x - y).toNat = d at *
  split at hinner <;> split at hdiff <;> split <;> split <;>
    simp only [h1, BitVec.toNat_zero, Nat.mul_one, Nat.mul_zero] <;> omega

/-- The difference, up to the borrow that enters at the top. -/
theorem value_subLoop (hw : 0 < w) : ∀ (b : BitVec w) (xs ys : List (BitVec w)),
    xs.length = ys.length → b.toNat ≤ 1 →
    ∃ k, value (subLoop b xs ys) + value ys + b.toNat = value xs + (2 ^ w) ^ xs.length * k
  | b, [], [], _, _ => ⟨b.toNat, by simp [subLoop]⟩
  | b, x :: xs, y :: ys, h, hb => by
    obtain ⟨hs, hle⟩ := borrowOut_spec hw b x y hb
    obtain ⟨k, hk⟩ := value_subLoop hw _ xs ys (by simpa using h) hle
    refine ⟨k, ?_⟩
    simp only [subLoop, value_cons, List.length_cons, Nat.pow_succ]
    generalize (borrowOut b x y).toNat = b' at *
    generalize value (subLoop _ xs ys) = V at *
    calc (x - y - b).toNat + 2 ^ w * V + (y.toNat + 2 ^ w * value ys) + b.toNat
        = ((x - y - b).toNat + y.toNat + b.toNat) + 2 ^ w * (V + value ys) := by ring
      _ = x.toNat + 2 ^ w * (V + value ys + b') := by rw [hs]; ring
      _ = x.toNat + 2 ^ w * value xs + (2 ^ w) ^ xs.length * 2 ^ w * k := by rw [hk]; ring

/-- Nothing is borrowed at the top when the subtrahend is not larger. -/
theorem value_subLoop_of_le (hw : 0 < w) {xs ys : List (BitVec w)} (hlen : xs.length = ys.length)
    (h : value ys ≤ value xs) : value (subLoop 0#w xs ys) = value xs - value ys := by
  obtain ⟨k, hk⟩ := value_subLoop hw 0#w xs ys hlen (by simp)
  have hlt := value_lt (subLoop 0#w xs ys)
  rw [length_subLoop _ _ _ hlen] at hlt
  simp only [BitVec.toNat_zero, Nat.add_zero] at hk
  rcases Nat.eq_zero_or_pos k with h0 | h0
  · rw [h0, Nat.mul_zero] at hk
    omega
  · have := Nat.le_mul_of_pos_right ((2 ^ w) ^ xs.length) h0
    omega

/-- Lists of one length compare as their numbers, trimmed or not. -/
theorem lt_iff_of_length_eq {us vs : List (BitVec w)} (h : us.length = vs.length) :
    lt us vs = true ↔ value us < value vs := by
  have htop := ltTop_iff us.reverse vs.reverse (by simpa using h)
  rw [List.reverse_reverse, List.reverse_reverse] at htop
  rw [← htop, lt, if_neg (by omega), if_neg (by omega)]

/-! ## One-bit shifts -/

theorem two_pow_pred (hw : 0 < w) : 2 ^ w = 2 * 2 ^ (w - 1) := by
  obtain ⟨n, rfl⟩ : ∃ n, w = n + 1 := ⟨w - 1, by omega⟩
  rw [Nat.add_sub_cancel, Nat.pow_succ, Nat.mul_comm]

/-- The top bit of a word. -/
def msb : BitVec w := 1#w <<< (w - 1)

theorem toNat_msb (hw : 0 < w) : (msb : BitVec w).toNat = 2 ^ (w - 1) := by
  have h1 : 2 ^ (w - 1) < 2 ^ w := Nat.pow_lt_pow_right (by omega) (by omega)
  have h2 : 2 ≤ 2 ^ w := Nat.le_self_pow (by omega) 2
  simp only [msb, BitVec.toNat_shiftLeft, BitVec.toNat_ofNat, Nat.shiftLeft_eq]
  rw [Nat.mod_eq_of_lt (show 1 < 2 ^ w by omega), Nat.one_mul, Nat.mod_eq_of_lt h1]

/-- A word shifted right, the low bit of the next word moving in on top. -/
def shrWord (u next : BitVec w) : BitVec w :=
  if next &&& 1#w ≠ 0#w then (u >>> 1) ||| msb else u >>> 1

/-- One bit to the right; the bit moving in on top is the low bit of `past`,
the word after the last one. -/
def shr1 (past : BitVec w) (us : List (BitVec w)) : List (BitVec w) :=
  us.zipWith shrWord (us.tail ++ [past])

theorem length_shr1 (past : BitVec w) (us : List (BitVec w)) : (shr1 past us).length = us.length := by
  cases us <;> simp [shr1]

theorem and_one_ne_zero (hw : 0 < w) (u : BitVec w) : u &&& 1#w ≠ 0#w ↔ u.toNat % 2 = 1 := by
  have h2 : 2 ≤ 2 ^ w := Nat.le_self_pow (by omega) 2
  rw [ne_eq, ← BitVec.toNat_inj, BitVec.toNat_and, BitVec.toNat_ofNat,
    Nat.mod_eq_of_lt (show 1 < 2 ^ w by omega), Nat.and_one_is_mod]
  simp only [BitVec.toNat_ofNat, Nat.zero_mod]
  omega

theorem toNat_shrWord (hw : 0 < w) (u next : BitVec w) :
    (shrWord u next).toNat = u.toNat / 2 + next.toNat % 2 * 2 ^ (w - 1) := by
  have hu := u.isLt
  have hw2 := two_pow_pred hw
  unfold shrWord
  simp only [and_one_ne_zero hw]
  split
  · rename_i h
    rw [BitVec.toNat_or, toNat_msb hw, BitVec.toNat_ushiftRight, Nat.shiftRight_eq_div_pow,
      Nat.pow_one, h, Nat.one_mul, Nat.or_comm]
    have := Nat.two_pow_add_eq_or_of_lt (i := w - 1) (b := u.toNat / 2) (by omega) 1
    rw [Nat.mul_one] at this
    rw [← this]; omega
  · rename_i h
    rw [BitVec.toNat_ushiftRight, Nat.shiftRight_eq_div_pow, Nat.pow_one]
    have : next.toNat % 2 = 0 := by omega
    rw [this]; omega

theorem value_shr1 (hw : 0 < w) (past : BitVec w) : ∀ {us : List (BitVec w)}, us ≠ [] →
    value (shr1 past us) = value us / 2 + past.toNat % 2 * 2 ^ (w * us.length - 1)
  | [u], _ => by simp [shr1, toNat_shrWord hw]
  | u :: v :: us, _ => by
    have ih : value (shr1 past (v :: us)) = _ := value_shr1 hw past (by simp)
    have hcons : shr1 past (u :: v :: us) = shrWord u v :: shr1 past (v :: us) := rfl
    have hw2 := two_pow_pred hw
    have hpar : value (v :: us) % 2 = v.toNat % 2 := by
      rw [value_cons, hw2, Nat.mul_assoc, Nat.add_mul_mod_self_left]
    have hexp : w * (u :: v :: us).length - 1 = w + (w * (v :: us).length - 1) := by
      have : w ≤ w * (v :: us).length := Nat.le_mul_of_pos_right _ (by simp)
      have e : w * (u :: v :: us).length = w * (v :: us).length + w := by
        rw [List.length_cons, Nat.mul_succ]
      omega
    rw [hcons, value_cons, ih, toNat_shrWord hw, value_cons u, hexp, Nat.pow_add]
    generalize value (v :: us) = V at *
    generalize 2 ^ (w * (v :: us).length - 1) = T at *
    have hdiv : (u.toNat + 2 ^ w * V) / 2 = u.toNat / 2 + 2 ^ (w - 1) * V := by
      rw [hw2, Nat.mul_assoc]
      omega
    rw [hdiv, ← hpar]
    have hV : V = 2 * (V / 2) + V % 2 := by omega
    calc u.toNat / 2 + V % 2 * 2 ^ (w - 1) + 2 ^ w * (V / 2 + past.toNat % 2 * T)
        = u.toNat / 2 + 2 ^ (w - 1) * (2 * (V / 2) + V % 2) + past.toNat % 2 * (2 ^ w * T) := by
          rw [hw2]; ring
      _ = u.toNat / 2 + 2 ^ (w - 1) * V + past.toNat % 2 * (2 ^ w * T) := by rw [← hV]

/-- The right shift as one pass from the top, on reversed lists: `carry` is the
bit that left the word above. -/
def shrPass : BitVec w → List (BitVec w) → List (BitVec w)
  | _, [] => []
  | carry, u :: us =>
    (if carry ≠ 0#w then (u >>> 1) ||| msb else u >>> 1) :: shrPass (u &&& 1#w) us

theorem shr1_concat (past u : BitVec w) (us : List (BitVec w)) :
    shr1 past (us ++ [u]) = shr1 u us ++ [shrWord u past] := by
  cases us with
  | nil => rfl
  | cons v us =>
    have hlen : (v :: us).length = (us ++ [u]).length := by simp
    simp only [shr1, List.cons_append, List.tail_cons]
    rw [← List.cons_append, List.zipWith_append hlen]
    rfl

theorem shrPass_reverse (past : BitVec w) (us : List (BitVec w)) :
    shrPass (past &&& 1#w) us.reverse = (shr1 past us).reverse := by
  induction us using List.reverseRecOn generalizing past with
  | nil => rfl
  | append_singleton us u ih =>
    rw [shr1_concat, List.reverse_append, List.reverse_append]
    simp only [List.reverse_singleton, List.singleton_append, shrPass]
    rw [ih u]
    rfl

/-- One bit to the left in place: `c` moves in at the bottom, the bit that
leaves the top word is lost. -/
def shl1 : Bool → List (BitVec w) → List (BitVec w)
  | _, [] => []
  | c, u :: us =>
    (if c then (u <<< 1) ||| 1#w else u <<< 1) :: shl1 (u &&& msb ≠ 0#w) us

theorem length_shl1 : ∀ (c : Bool) (us : List (BitVec w)), (shl1 c us).length = us.length
  | _, [] => rfl
  | _, _ :: us => by simp [shl1, length_shl1]

theorem and_msb_ne_zero (hw : 0 < w) (u : BitVec w) : u &&& msb ≠ 0#w ↔ 2 ^ (w - 1) ≤ u.toNat := by
  have hlt := u.isLt
  have hw2 := two_pow_pred hw
  rw [ne_eq, ← BitVec.toNat_inj, BitVec.toNat_and, toNat_msb hw, Nat.and_comm, Nat.two_pow_and]
  simp only [BitVec.toNat_ofNat, Nat.zero_mod]
  have hpos := Nat.two_pow_pos (w - 1)
  have htb : u.toNat.testBit (w - 1) = decide (2 ^ (w - 1) ≤ u.toNat) := by
    rw [Nat.testBit_eq_decide_div_mod_eq, decide_eq_decide]
    rcases Nat.lt_or_ge u.toNat (2 ^ (w - 1)) with h | h
    · rw [Nat.div_eq_of_lt h]; omega
    · have hdiv : u.toNat / 2 ^ (w - 1) = 1 :=
        Nat.div_eq_of_lt_le (by omega) (by omega)
      rw [hdiv]; omega
  rw [htb]
  by_cases h : 2 ^ (w - 1) ≤ u.toNat <;> simp [h]

theorem value_shl1 (hw : 0 < w) : ∀ (c : Bool) (us : List (BitVec w)),
    ∃ k, value (shl1 c us) + (2 ^ w) ^ us.length * k = 2 * value us + c.toNat
  | c, [] => ⟨c.toNat, by simp [shl1]⟩
  | c, u :: us => by
    have hu := u.isLt
    have hw2 := two_pow_pred hw
    obtain ⟨k, hk⟩ := value_shl1 hw (decide (u &&& msb ≠ 0#w)) us
    have hcarry : (decide (u &&& msb ≠ 0#w)).toNat = u.toNat / 2 ^ (w - 1) := by
      have h := and_msb_ne_zero hw u
      by_cases hm : 2 ^ (w - 1) ≤ u.toNat
      · have hdiv : u.toNat / 2 ^ (w - 1) = 1 := Nat.div_eq_of_lt_le (by omega) (by omega)
        simp [h.mpr hm, hdiv]
      · have hm' : ¬ (u &&& msb ≠ 0#w) := fun e => hm (h.mp e)
        rw [Nat.div_eq_of_lt (by omega)]
        simpa using hm'
    have hword : (if c then (u <<< 1) ||| 1#w else u <<< 1).toNat =
        2 * (u.toNat % 2 ^ (w - 1)) + c.toNat := by
      have hsh : (u <<< 1).toNat = 2 * (u.toNat % 2 ^ (w - 1)) := by
        rw [BitVec.toNat_shiftLeft, Nat.shiftLeft_eq, Nat.pow_one, Nat.mul_comm, hw2,
          Nat.mul_mod_mul_left]
      cases c with
      | false => simpa using hsh
      | true =>
        have h2 : 2 ≤ 2 ^ w := Nat.le_self_pow (by omega) 2
        simp only [if_true, BitVec.toNat_or, hsh, BitVec.toNat_ofNat, Bool.toNat_true]
        rw [Nat.mod_eq_of_lt (show 1 < 2 ^ w by omega)]
        have := Nat.two_pow_add_eq_or_of_lt (i := 1) (b := 1) (by omega) (u.toNat % 2 ^ (w - 1))
        simpa using this.symm
    refine ⟨k, ?_⟩
    rw [hcarry] at hk
    simp only [shl1, value_cons, List.length_cons, Nat.pow_succ]
    rw [hword]
    generalize value (shl1 (decide (u &&& msb ≠ 0#w)) us) = V at *
    have hdm := Nat.div_add_mod u.toNat (2 ^ (w - 1))
    calc 2 * (u.toNat % 2 ^ (w - 1)) + c.toNat + 2 ^ w * V + (2 ^ w) ^ us.length * 2 ^ w * k
        = 2 * (u.toNat % 2 ^ (w - 1)) + c.toNat + 2 ^ w * (V + (2 ^ w) ^ us.length * k) := by ring
      _ = 2 * (2 ^ (w - 1) * (u.toNat / 2 ^ (w - 1)) + u.toNat % 2 ^ (w - 1)) +
            2 ^ w * (2 * value us) + c.toNat := by rw [hk, hw2]; ring
      _ = 2 * (u.toNat + 2 ^ w * value us) + c.toNat := by rw [hdm]; ring

/-- With the top bit clear nothing is lost. -/
theorem value_shl1_of_lt (hw : 0 < w) {us : List (BitVec w)}
    (h : 2 * value us < (2 ^ w) ^ us.length) : value (shl1 false us) = 2 * value us := by
  obtain ⟨k, hk⟩ := value_shl1 hw false us
  simp only [Bool.toNat_false, Nat.add_zero] at hk
  rcases Nat.eq_zero_or_pos k with h0 | h0
  · simpa [h0] using hk
  · have := Nat.le_mul_of_pos_right ((2 ^ w) ^ us.length) h0
    omega

theorem length_shl1_iterate (n : Nat) (us : List (BitVec w)) :
    ((shl1 false)^[n] us).length = us.length := by
  induction n with
  | zero => rfl
  | succ n ih => rw [Function.iterate_succ_apply', length_shl1, ih]

theorem value_shl1_iterate (hw : 0 < w) (us : List (BitVec w)) (n : Nat)
    (h : 2 ^ n * value us < (2 ^ w) ^ us.length) :
    value ((shl1 false)^[n] us) = 2 ^ n * value us := by
  induction n with
  | zero => simp
  | succ n ih =>
    have h2 : 2 * (2 ^ n * value us) < (2 ^ w) ^ us.length := by
      rwa [← Nat.mul_assoc, ← Nat.pow_succ']
    have hn := ih (by omega)
    rw [Function.iterate_succ_apply', value_shl1_of_lt hw, hn, ← Nat.mul_assoc, ← Nat.pow_succ']
    rwa [hn, length_shl1_iterate]

/-! ## Exclusive or -/

theorem xor_add_two_pow_mul {x y a b : Nat} (hx : x < 2 ^ w) (hy : y < 2 ^ w) :
    (x + 2 ^ w * a) ^^^ (y + 2 ^ w * b) = (x ^^^ y) + 2 ^ w * (a ^^^ b) := by
  have hpos : 0 < 2 ^ w := Nat.two_pow_pos w
  have hlow : ((x + 2 ^ w * a) ^^^ (y + 2 ^ w * b)) % 2 ^ w = x ^^^ y := by
    rw [Nat.xor_mod_two_pow, Nat.add_mul_mod_self_left, Nat.add_mul_mod_self_left,
      Nat.mod_eq_of_lt hx, Nat.mod_eq_of_lt hy]
  have hhigh : ((x + 2 ^ w * a) ^^^ (y + 2 ^ w * b)) / 2 ^ w = a ^^^ b := by
    rw [Nat.xor_div_two_pow, Nat.add_mul_div_left _ _ hpos, Nat.add_mul_div_left _ _ hpos,
      Nat.div_eq_of_lt hx, Nat.div_eq_of_lt hy, Nat.zero_add, Nat.zero_add]
  rw [← Nat.mod_add_div ((x + 2 ^ w * a) ^^^ (y + 2 ^ w * b)) (2 ^ w), hlow, hhigh]

theorem value_xor : ∀ (us vs : List (BitVec w)), us.length = vs.length →
    value (List.zipWith (· ^^^ ·) us vs) = value us ^^^ value vs
  | [], [], _ => by simp
  | u :: us, v :: vs, h => by
    rw [List.length_cons, List.length_cons, Nat.succ_inj] at h
    rw [List.zipWith_cons_cons, value_cons, value_cons, value_cons, BitVec.toNat_xor,
      value_xor us vs h, xor_add_two_pow_mul u.isLt v.isLt]

/-! ## Counting up -/

/-- One more in the lowest word, and on while the word below has become 0. -/
def inc : List (BitVec w) → List (BitVec w)
  | [] => []
  | u :: us => if u + 1#w ≠ 0#w then (u + 1#w) :: us else (u + 1#w) :: inc us

theorem length_inc (us : List (BitVec w)) : (inc us).length = us.length := by
  induction us with
  | nil => rfl
  | cons u us ih =>
    rw [inc]
    split
    · rfl
    · rw [List.length_cons, ih, List.length_cons]

theorem toNat_add_one (hw : 0 < w) (u : BitVec w) :
    (u + 1#w).toNat = (u.toNat + 1) % 2 ^ w := by
  rw [BitVec.toNat_add, BitVec.toNat_ofNat, Nat.mod_eq_of_lt (Nat.one_lt_two_pow (by omega))]

/-- A zero word on top takes up the last carry. -/
theorem value_inc (hw : 0 < w) (us : List (BitVec w)) :
    value (inc (us ++ [0#w])) = value us + 1 := by
  have hone : 1 < 2 ^ w := Nat.one_lt_two_pow (by omega)
  induction us with
  | nil =>
    have h1 : (1#w).toNat = 1 := by rw [BitVec.toNat_ofNat, Nat.mod_eq_of_lt hone]
    have hne : 1#w ≠ 0#w := fun h => by
      have := congrArg BitVec.toNat h
      rw [h1] at this
      cases this
    simp [inc, h1, hne]
  | cons u us ih =>
    have hu := u.isLt
    have hnext := toNat_add_one hw u
    rw [List.cons_append, inc]
    split
    · rename_i h
      have hlt : u.toNat + 1 < 2 ^ w := by
        by_contra hge
        refine h (BitVec.eq_of_toNat_eq ?_)
        rw [hnext, show u.toNat + 1 = 2 ^ w by omega, Nat.mod_self]
        rfl
      rw [Nat.mod_eq_of_lt hlt] at hnext
      rw [value_cons, value_cons, hnext, value_append]
      simp only [value_cons, value_nil, BitVec.toNat_zero, Nat.mul_zero, Nat.add_zero]
      omega
    · rename_i h
      rw [not_not] at h
      have hfull : u.toNat + 1 = 2 ^ w := by
        rw [h] at hnext
        by_contra hne
        rw [Nat.mod_eq_of_lt (by omega)] at hnext
        cases hnext
      rw [value_cons, value_cons, ih, h, BitVec.toNat_zero, Nat.mul_add, Nat.mul_one]
      omega

end Kadpeer.Core.Limbs
