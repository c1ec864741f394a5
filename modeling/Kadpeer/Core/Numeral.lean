import Mathlib.Data.Nat.Digits.Lemmas
import Mathlib.Tactic.Ring

/-!
# Numerals

`Nat.toDigits b n` is the numeral of `n` in base `b`. A number kept in words of
`k` digits is written word by word: the top one as it is, each one below with
zeros in front up to `k` places.

* `words_eq`: that is the numeral of the number.
* `foldl_toDigits`: Horner's rule reads a numeral back.
* `toDigits_foldl`: a string of digits that does not begin with 0 is the numeral of
  what Horner's rule makes of it.
-/
namespace Kadpeer.Core.Numeral

variable {b k : Nat}

/-- The numeral with zeros in front. -/
def padded (b k n : Nat) : List Char := (Nat.toDigits b n).leftpad k '0'

theorem padded_zero (b n : Nat) : padded b 0 n = Nat.toDigits b n := by simp [padded, List.leftpad]

theorem padded_one {n : Nat} (hn : n < b) : padded b 1 n = [n.digitChar] := by
  rw [padded, Nat.toDigits_of_lt_base hn]
  rfl

/-- The last digit comes off the end. -/
theorem padded_succ (hb : 1 < b) (hk : 0 < k) (n : Nat) :
    padded b (k + 1) n = padded b k (n / b) ++ [(n % b).digitChar] := by
  rw [padded, padded]
  by_cases hn : n < b
  · obtain ⟨k, rfl⟩ := Nat.exists_eq_succ_of_ne_zero hk.ne'
    rw [Nat.toDigits_of_lt_base hn, Nat.div_eq_of_lt hn, Nat.mod_eq_of_lt hn, Nat.toDigits_zero]
    simp only [List.leftpad, List.length_singleton, Nat.succ_eq_add_one, Nat.add_sub_cancel]
    rw [← List.replicate_succ']
  · rw [Nat.toDigits_of_base_le hb (Nat.le_of_not_lt hn)]
    simp only [List.leftpad, List.length_append, List.length_singleton, Nat.add_sub_add_right,
      List.append_assoc]

/-- Numeral and word make a longer numeral. -/
theorem toDigits_append_padded (hb : 1 < b) (hk : 0 < k) {hi lo : Nat} (hhi : 0 < hi)
    (hlo : lo < b ^ k) :
    Nat.toDigits b hi ++ padded b k lo = Nat.toDigits b (b ^ k * hi + lo) := by
  induction k generalizing lo with
  | zero => exact absurd hk (Nat.lt_irrefl 0)
  | succ k ih =>
    have hdigit : lo % b < b := Nat.mod_lt _ (by omega)
    rcases Nat.eq_zero_or_pos k with rfl | hk'
    · rw [Nat.zero_add, Nat.pow_one] at hlo ⊢
      rw [padded_one hlo, ← Nat.toDigits_of_lt_base hlo, Nat.toDigits_append_toDigits hb hhi hlo]
    · have hrest : lo / b < b ^ k := by
        rw [Nat.pow_succ] at hlo
        exact Nat.div_lt_of_lt_mul (by rwa [Nat.mul_comm])
      have hpos : 0 < b ^ k * hi + lo / b :=
        Nat.add_pos_left (Nat.mul_pos (Nat.pow_pos (by omega)) hhi) _
      have hsplit : b * (b ^ k * hi + lo / b) + lo % b = b ^ (k + 1) * hi + lo := by
        calc b * (b ^ k * hi + lo / b) + lo % b
            = b ^ (k + 1) * hi + (b * (lo / b) + lo % b) := by ring
          _ = b ^ (k + 1) * hi + lo := by rw [Nat.div_add_mod]
      rw [padded_succ hb hk', ← List.append_assoc, ih hk' hrest, ← Nat.toDigits_of_lt_base hdigit,
        Nat.toDigits_append_toDigits hb hpos hdigit, hsplit]

/-- The words from the top, below a word that is not 0. -/
theorem toDigits_append_flatten (hb : 1 < b) (hk : 0 < k) (ws : List Nat) (hws : ∀ w ∈ ws, w < b ^ k)
    {hi : Nat} (hhi : 0 < hi) :
    Nat.toDigits b hi ++ (ws.map (padded b k)).flatten =
      Nat.toDigits b (ws.foldl (fun n w => b ^ k * n + w) hi) := by
  induction ws generalizing hi with
  | nil => simp
  | cons w ws ih =>
    have hpos : 0 < b ^ k * hi + w :=
      Nat.add_pos_left (Nat.mul_pos (Nat.pow_pos (by omega)) hhi) _
    rw [List.map_cons, List.flatten_cons, ← List.append_assoc,
      toDigits_append_padded hb hk hhi (hws w List.mem_cons_self), List.foldl_cons]
    exact ih (fun v hv => hws v (List.mem_cons_of_mem _ hv)) hpos

theorem foldl_eq_ofDigits (B hi : Nat) (ws : List Nat) :
    ws.foldl (fun n w => B * n + w) hi = Nat.ofDigits B (ws.reverse ++ [hi]) := by
  induction ws generalizing hi with
  | nil => simp
  | cons w ws ih =>
    rw [List.foldl_cons, ih, List.reverse_cons, Nat.ofDigits_append, Nat.ofDigits_append,
      Nat.ofDigits_append, List.length_append, List.length_reverse, List.length_singleton]
    simp only [Nat.ofDigits_singleton]
    ring

/-- **A number written word by word is written as its numeral**, if its top word is not 0 or the
only one. -/
theorem words_eq (hb : 1 < b) (hk : 0 < k) (back : Nat) (rest : List Nat)
    (hrest : ∀ w ∈ rest, w < b ^ k) (htop : rest = [] ∨ 0 < back) :
    Nat.toDigits b back ++ (rest.map (padded b k)).flatten =
      Nat.toDigits b (Nat.ofDigits (b ^ k) (rest.reverse ++ [back])) := by
  rw [← foldl_eq_ofDigits]
  rcases htop with rfl | hback
  · simp
  · exact toDigits_append_flatten hb hk rest hrest hback

theorem exists_of_mem_toDigits (hb : 1 < b) {n : Nat} {c : Char} (h : c ∈ Nat.toDigits b n) :
    ∃ d < b, c = d.digitChar := by
  induction n using Nat.strongRecOn with
  | ind n ih =>
    rw [Nat.toDigits_eq_if hb] at h
    split at h
    · rename_i hn
      exact ⟨n, hn, List.mem_singleton.mp h⟩
    · rcases List.mem_append.mp h with h | h
      · exact ih (n / b) (Nat.div_lt_self (by omega) hb) h
      · exact ⟨n % b, Nat.mod_lt _ (by omega), List.mem_singleton.mp h⟩

/-! ## Reading -/

variable {β : Type} {digit : β → Nat} {f : Char → β}

/-- **Horner's rule reads a numeral back**, whatever the digits are written as. -/
theorem foldl_toDigits (hb : 1 < b) (hdigit : ∀ d < b, digit (f d.digitChar) = d) (n : Nat) :
    ((Nat.toDigits b n).map f).foldl (fun m c => m * b + digit c) 0 = n := by
  induction n using Nat.strongRecOn with
  | ind n ih =>
    rw [Nat.toDigits_eq_if hb]
    split
    · rename_i hn
      simp [hdigit n hn]
    · have hdiv : n / b < n := Nat.div_lt_self (by omega) hb
      rw [List.map_append, List.foldl_append, ih (n / b) hdiv]
      simp only [List.map_cons, List.map_nil, List.foldl_cons, List.foldl_nil]
      rw [hdigit _ (Nat.mod_lt _ (by omega)), Nat.mul_comm, Nat.div_add_mod]

/-- Digits below a number that is not 0. -/
theorem toDigits_append_map (hb : 1 < b) (s : List β) (hdigit : ∀ c ∈ s, digit c < b) {hi : Nat}
    (hhi : 0 < hi) :
    Nat.toDigits b hi ++ s.map (fun c => (digit c).digitChar) =
      Nat.toDigits b (s.foldl (fun m c => m * b + digit c) hi) := by
  induction s generalizing hi with
  | nil => simp
  | cons c s ih =>
    have hc := hdigit c List.mem_cons_self
    have hpos : 0 < hi * b + digit c := Nat.add_pos_left (Nat.mul_pos hhi (by omega)) _
    have hnext := Nat.toDigits_append_toDigits hb hhi hc
    rw [Nat.toDigits_of_lt_base hc, Nat.mul_comm] at hnext
    rw [List.map_cons, List.foldl_cons, ← ih (fun v hv => hdigit v (List.mem_cons_of_mem _ hv)) hpos,
      ← hnext, List.append_assoc, List.singleton_append]

/-- **A string of digits with none before the first that is not 0 is a numeral.** -/
theorem toDigits_foldl (hb : 1 < b) (c : β) (s : List β) (hdigit : ∀ v ∈ c :: s, digit v < b)
    (htop : s = [] ∨ 0 < digit c) :
    Nat.toDigits b ((c :: s).foldl (fun m v => m * b + digit v) 0) =
      (c :: s).map fun v => (digit v).digitChar := by
  have hc := hdigit c List.mem_cons_self
  rw [List.foldl_cons, Nat.zero_mul, Nat.zero_add, List.map_cons]
  rcases htop with rfl | hpos
  · rw [List.foldl_nil, List.map_nil, Nat.toDigits_of_lt_base hc]
  · rw [← toDigits_append_map hb s (fun v hv => hdigit v (List.mem_cons_of_mem _ hv)) hpos,
      Nat.toDigits_of_lt_base hc, List.singleton_append]

end Kadpeer.Core.Numeral
