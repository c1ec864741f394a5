import Mathlib.Data.List.Pairwise
import Mathlib.Data.List.Sort

/-!
# Ranks and stable sorting

`rank R l a` is the number of elements of `l` that are `R`-below `a`. In a list
sorted by `R` it is the position of `a` (`rank_of_pairwise`, `zipIdx_eq_map_rank`),
and the elements behind the first `n` are those of rank `n` and more
(`mem_drop_of_pairwise`). Where some element is put in front of all (`Front`), those
that were below it come one rank later (`rank_front_eq`, `rank_front_eq_add_one`).

A choice `p` of elements is the lowest ones exactly when it has as many of the first
ones as it has elements (`lowest_iff`).

Insertion sort is described by two facts. A comparison of keys is total and
transitive (`total_of_key`, `isTrans_of_key`), as they ask.

* `insertionSort_congr`: on a list without duplicates only the answers for two
  different elements count, so a comparison may be irregular on equal ones.
* `pairwise_stable`: what the first order leaves open stays in the order the
  list had before.
-/
namespace Kadpeer.Core

section Rank

variable {α : Type} (R : α → α → Prop) [DecidableRel R] {l l' : List α} {a : α} {i n : Nat}

def rank (l : List α) (a : α) : Nat := l.countP (R · a)

variable {R}

theorem rank_perm (h : l.Perm l') (a : α) : rank R l a = rank R l' a := h.countP_eq _

theorem rank_of_pairwise [Std.Asymm R] (hl : l.Pairwise R) (h : l[i]? = some a) :
    rank R l a = i := by
  induction l generalizing i with
  | nil => simp at h
  | cons b l ih =>
    rw [List.pairwise_cons] at hl
    cases i with
    | zero =>
      rw [List.getElem?_cons_zero, Option.some.injEq] at h
      subst h
      refine List.countP_eq_zero.mpr fun c hc => ?_
      rw [decide_eq_true_eq]
      rcases List.mem_cons.mp hc with rfl | hc
      · exact fun hr => Std.Asymm.asymm _ _ hr hr
      · exact Std.Asymm.asymm _ _ (hl.1 c hc)
    | succ i =>
      rw [List.getElem?_cons_succ] at h
      have hb : R b a := hl.1 a (List.mem_of_getElem? h)
      rw [rank, List.countP_cons_of_pos (by simpa using hb)]
      exact congrArg (· + 1) (ih hl.2 h)

theorem zipIdx_eq_map_rank [Std.Asymm R] (hl : l.Pairwise R) :
    l.zipIdx = l.map fun a => (a, rank R l a) := by
  refine List.ext_getElem? fun i => ?_
  rw [List.getElem?_zipIdx, List.getElem?_map]
  cases h : l[i]? with
  | none => rfl
  | some a => simp [rank_of_pairwise hl h]

/-- The elements that stand behind the first `n`. -/
theorem mem_drop_of_pairwise [Std.Asymm R] (hl : l.Pairwise R) :
    a ∈ l.drop n ↔ a ∈ l ∧ n ≤ rank R l a := by
  rw [List.mem_iff_getElem?]
  simp only [List.getElem?_drop]
  constructor
  · rintro ⟨i, h⟩
    exact ⟨List.mem_of_getElem? h, rank_of_pairwise hl h ▸ Nat.le_add_right n i⟩
  · rintro ⟨ha, hn⟩
    obtain ⟨i, h⟩ := List.mem_iff_getElem?.mp ha
    rw [rank_of_pairwise hl h] at hn
    exact ⟨i - n, by rwa [Nat.add_sub_cancel' hn]⟩

/-- A further element in the count. -/
theorem countP_or_eq {p q : α → Prop} [DecidablePred p] [DecidablePred q] (hl : l.Nodup)
    (ha : a ∈ l) (hp : ¬ p a) (hq : ∀ b ∈ l, q b ↔ b = a ∨ p b) :
    l.countP q = l.countP p + 1 := by
  induction l with
  | nil => simp at ha
  | cons b l ih =>
    rw [List.nodup_cons] at hl
    have hq' : ∀ c ∈ l, q c ↔ c = a ∨ p c := fun c hc => hq c (.tail _ hc)
    rcases List.mem_cons.mp ha with rfl | ha
    · have hrest : l.countP q = l.countP p := List.countP_congr fun c hc => by
        simpa [show c ≠ a from fun he => hl.1 (he ▸ hc)] using hq' c hc
      have hqa : q a := (hq a List.mem_cons_self).mpr (.inl rfl)
      rw [List.countP_cons_of_pos (by simpa using hqa), List.countP_cons_of_neg (by simpa using hp),
        hrest]
    · have hne : b ≠ a := fun he => hl.1 (he ▸ ha)
      have hb : q b ↔ p b := (hq b List.mem_cons_self).trans (or_iff_right hne)
      rw [List.countP_cons, List.countP_cons, ih hl.2 ha hq']
      simp only [decide_eq_true_eq, hb]
      omega

/-- What is below has the lower rank. -/
theorem rank_lt_rank [Std.Asymm R] [IsTrans α R] (ha : a ∈ l) {b : α} (h : R a b) :
    rank R l a < rank R l b := by
  induction l with
  | nil => simp at ha
  | cons c l ih =>
    have hle : l.countP (R · a) ≤ l.countP (R · b) := List.countP_mono_left fun d _ hd => by
      rw [decide_eq_true_eq] at hd ⊢
      exact trans_of R hd h
    rw [rank, rank, List.countP_cons, List.countP_cons]
    rcases List.mem_cons.mp ha with rfl | ha
    · have hirr : ¬ R a a := fun h' => Std.Asymm.asymm _ _ h' h'
      simp only [decide_eq_true_eq, hirr, h, if_true, if_false]
      omega
    · have hlt : l.countP (R · a) < l.countP (R · b) := ih ha
      simp only [decide_eq_true_eq]
      by_cases hc : R c a
      · rw [if_pos hc, if_pos (trans_of R hc h)]
        omega
      · rw [if_neg hc]
        omega

end Rank

section Front

variable {α : Type} (p : α → Prop) (R : α → α → Prop) [DecidablePred p] [DecidableRel R]

/-- The order `R` with the elements of `p` in front. -/
def Front (a b : α) : Prop := ¬ p b ∧ (p a ∨ R a b)

instance : DecidableRel (Front p R) := fun _ _ => inferInstanceAs (Decidable (_ ∧ _))

instance [Std.Asymm R] : Std.Asymm (Front p R) := by
  refine ⟨fun a b h h' => ?_⟩
  rcases h.2 with ha | hab
  · exact h'.1 ha
  · exact Std.Asymm.asymm _ _ hab (h'.2.resolve_left h.1)

variable {p R} {l : List α} {a f : α}

theorem rank_front_eq_zero (ha : p a) : rank (Front p R) l a = 0 := by
  refine List.countP_eq_zero.mpr fun b _ => ?_
  rw [decide_eq_true_eq]
  exact fun h => h.1 ha

/-- What comes to the front was below `a` anyway. -/
theorem rank_front_eq (ha : ¬ p a) (h : ∀ b ∈ l, p b → R b a) :
    rank (Front p R) l a = rank R l a := by
  refine List.countP_congr fun b hb => ?_
  rw [decide_eq_true_eq, decide_eq_true_eq]
  exact ⟨fun hf => hf.2.elim (h b hb) id, fun hr => ⟨ha, .inr hr⟩⟩

/-- The one that comes to the front was not below `a`. -/
theorem rank_front_eq_add_one (hl : l.Nodup) (hf : f ∈ l) (hp : ∀ b ∈ l, p b ↔ b = f)
    (ha : ¬ p a) (h : ¬ R f a) : rank (Front p R) l a = rank R l a + 1 := by
  refine countP_or_eq hl hf h fun b hb => ?_
  rw [Front, hp b hb]
  exact and_iff_right ha

end Front

section Lowest

variable {α : Type} {R : α → α → Prop} {p : α → Prop} [DecidablePred p] {l d : List α}

/-- How many are chosen, by a list of them. -/
theorem countP_eq_of_mem_iff (hl : l.Nodup) (hd : d.Nodup) (hsub : d ⊆ l)
    (h : ∀ a ∈ l, p a ↔ a ∈ d) : l.countP p = d.length := by
  have hperm : (l.filter p).Perm d := by
    refine (List.perm_ext_iff_of_nodup (hl.filter _) hd).mpr fun a => ?_
    rw [List.mem_filter, decide_eq_true_eq]
    exact ⟨fun ha => (h a ha.1).mp ha.2, fun ha => ⟨hsub ha, (h a (hsub ha)).mpr ha⟩⟩
  rw [List.countP_eq_length_filter]
  exact hperm.length_eq

theorem countP_take_add_drop (l : List α) (n : Nat) :
    (l.take n).countP p + (l.drop n).countP p = l.countP p := by
  rw [← List.countP_append, List.take_append_drop]

/-- When the first ones are chosen, nothing else is. -/
theorem mem_take_countP_iff (h : ∀ a ∈ l.take (l.countP p), p a) :
    ∀ a ∈ l, p a ↔ a ∈ l.take (l.countP p) := by
  have htake : (l.take (l.countP p)).countP p = l.countP p := by
    have hall := List.countP_eq_length.mpr fun a ha => decide_eq_true (h a ha)
    rwa [List.length_take, Nat.min_eq_left List.countP_le_length] at hall
  have hdrop : (l.drop (l.countP p)).countP p = 0 := by
    have hsplit := countP_take_add_drop (p := p) l (l.countP p)
    omega
  intro a ha
  refine ⟨fun hp => ?_, h a⟩
  rw [← List.take_append_drop (l.countP p) l, List.mem_append] at ha
  exact ha.resolve_right fun hd => List.countP_eq_zero.mp hdrop a hd (decide_eq_true hp)

/-- The chosen ones are the lowest: each is below all that are not chosen. -/
theorem lowest_iff [Std.Asymm R] (hl : l.Pairwise R) :
    (∀ a ∈ l, p a → ∀ b ∈ l, ¬ p b → R a b) ↔ ∀ a ∈ l.take (l.countP p), p a := by
  have hcross : ∀ a ∈ l.take (l.countP p), ∀ b ∈ l.drop (l.countP p), R a b := by
    rw [← List.take_append_drop (l.countP p) l] at hl
    exact (List.pairwise_append.mp hl).2.2
  constructor
  · intro h a ha
    by_contra hnot
    -- one of the first is not chosen, so one of the others is
    have hne : (l.take (l.countP p)).countP p ≠ (l.take (l.countP p)).length := fun he =>
      hnot (of_decide_eq_true (List.countP_eq_length.mp he a ha))
    have hpos : 0 < (l.drop (l.countP p)).countP p := by
      have hsplit := countP_take_add_drop (p := p) l (l.countP p)
      have hle : (l.take (l.countP p)).countP p ≤ (l.take (l.countP p)).length :=
        List.countP_le_length
      have hlen := List.length_take_le (l.countP p) l
      omega
    obtain ⟨b, hb, hpb⟩ := List.countP_pos_iff.mp hpos
    have hba := h b (List.mem_of_mem_drop hb) (of_decide_eq_true hpb) a (List.mem_of_mem_take ha) hnot
    exact Std.Asymm.asymm _ _ hba (hcross a ha b hb)
  · intro h a ha hpa b hb hpb
    have hmem := mem_take_countP_iff h
    rw [← List.take_append_drop (l.countP p) l, List.mem_append] at hb
    exact hcross a ((hmem a ha).mp hpa) b (hb.resolve_left fun hbt => hpb (h b hbt))

end Lowest

section Key

variable {α β : Type} [LinearOrder β] {r : α → α → Prop} {key : α → β}
  (h : ∀ a b, r a b ↔ key a ≤ key b)
include h

theorem total_of_key : Std.Total r := ⟨fun a b => by
  rw [h, h]
  exact le_total _ _⟩

theorem isTrans_of_key : IsTrans α r := ⟨fun a b c => by
  rw [h, h, h]
  exact le_trans⟩

end Key

section StableSort

variable {α : Type} {r s : α → α → Prop} [DecidableRel r] [DecidableRel s] {l : List α}

theorem insertionSort_congr (hl : l.Nodup) (h : ∀ a ∈ l, ∀ b ∈ l, a ≠ b → (r a b ↔ s a b)) :
    l.insertionSort r = l.insertionSort s := by
  have hins : ∀ (a : α) (l : List α), (∀ b ∈ l, r a b ↔ s a b) →
      l.orderedInsert r a = l.orderedInsert s a := by
    intro a l
    induction l with
    | nil => exact fun _ => rfl
    | cons b l ih =>
      intro hb
      rw [List.orderedInsert_cons, List.orderedInsert_cons,
        ih fun c hc => hb c (List.mem_cons_of_mem b hc)]
      simp only [hb b List.mem_cons_self]
  induction l with
  | nil => rfl
  | cons a l ih =>
    rw [List.nodup_cons] at hl
    rw [List.insertionSort_cons, List.insertionSort_cons, ih hl.2 fun b hb c hc =>
      h b (List.mem_cons_of_mem a hb) c (List.mem_cons_of_mem a hc)]
    refine hins a _ fun b hb => ?_
    rw [List.mem_insertionSort] at hb
    exact h a List.mem_cons_self b (List.mem_cons_of_mem a hb) fun he => hl.1 (he ▸ hb)

/-- What comes first in the list goes in front of its equals. -/
theorem pairwise_stable [Std.Total r] [IsTrans α r] {s : α → α → Prop} (hl : l.Pairwise s) :
    (l.insertionSort r).Pairwise fun a b => r a b ∧ (r b a → s a b) := by
  have hins : ∀ (a : α) (l : List α), (∀ b ∈ l, s a b) →
      (l.Pairwise fun a b => r a b ∧ (r b a → s a b)) →
      (l.orderedInsert r a).Pairwise fun a b => r a b ∧ (r b a → s a b) := by
    intro a l
    induction l with
    | nil => exact fun _ _ => List.pairwise_singleton _ a
    | cons b l ih =>
      intro hs hp
      have hp' := List.pairwise_cons.mp hp
      rw [List.orderedInsert_cons]
      split
      · rename_i hab
        refine List.pairwise_cons.mpr ⟨fun c hc => ⟨?_, fun _ => hs c hc⟩, hp⟩
        rcases List.mem_cons.mp hc with rfl | hc
        · exact hab
        · exact trans_of r hab (hp'.1 c hc).1
      · rename_i hab
        refine List.pairwise_cons.mpr ⟨fun c hc => ?_,
          ih (fun c hc => hs c (List.mem_cons_of_mem b hc)) hp'.2⟩
        rcases (List.mem_orderedInsert r).mp hc with rfl | hc
        · exact ⟨(total_of r c b).resolve_left hab, fun h => absurd h hab⟩
        · exact hp'.1 c hc
  induction l with
  | nil => exact List.Pairwise.nil
  | cons a l ih =>
    rw [List.pairwise_cons] at hl
    rw [List.insertionSort_cons]
    refine hins a _ (fun b hb => ?_) (ih hl.2)
    exact hl.1 b ((List.mem_insertionSort r).mp hb)

end StableSort

end Kadpeer.Core
