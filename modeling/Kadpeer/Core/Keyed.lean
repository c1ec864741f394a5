import Mathlib.Data.List.Pairwise
import Mathlib.Data.List.Sort
import Mathlib.Order.Basic

/-!
# Ordered containers with unique keys

`Keyed key` is a list of elements in strictly increasing order of `key`: a
`std::map` (`key` is the first component), or a `multi_index_container` seen
through its unique index. The order is a field of the structure, so a container
is determined by its elements (`ext_mem`) and each operation is described by the
elements it leaves:

* `mem_insert`: `insert` refuses an element whose key is taken.
* `mem_filter`, `mem_eraseKey`: removal; `mem_map`: a change of elements that keeps the keys.
* `mem_replace`: `replace` refuses a new key that is taken by another element.
* `find?_eq_some`, `lowerBound_eq_some`: lookup, and the first key not below.
* `mem_ofList`: of the elements with one key the first one inserted stays;
  `perm_ofList`: with distinct keys all of them stay.
* `mem_take_of_sorted`: which elements are among the first `n`;
  `mem_takeWhile_of_pairwise`: which stand in front of an upper bound.
-/
namespace Kadpeer.Core

structure Keyed {α κ : Type} [LinearOrder κ] (key : α → κ) where
  toList : List α
  sorted : toList.Pairwise fun a b => key a < key b

namespace Keyed

variable {α κ : Type} [LinearOrder κ] {key : α → κ} {m m' : Keyed key} {a b : α} {k : κ}

instance : Membership α (Keyed key) := ⟨fun m a => a ∈ m.toList⟩

theorem mem_def : a ∈ m ↔ a ∈ m.toList := Iff.rfl

instance [DecidableEq α] : DecidableEq (Keyed key) := fun m m' =>
  decidable_of_iff (m.toList = m'.toList) (by cases m; cases m'; simp)

theorem eq_of_key_eq (ha : a ∈ m) (hb : b ∈ m) (h : key a = key b) : a = b := by
  by_contra hne
  have : Std.Symm fun x y => key x ≠ key y := ⟨fun _ _ h => h.symm⟩
  have hall : m.toList.Pairwise fun x y => key x ≠ key y := m.sorted.imp fun h => ne_of_lt h
  exact hall.forall ha hb hne h

theorem ext_mem (h : ∀ a, a ∈ m ↔ a ∈ m') : m = m' := by
  have : Std.Asymm fun x y => key x < key y := ⟨fun _ _ h => lt_asymm h⟩
  have : Std.Irrefl fun x y : α => key x < key y := ⟨fun _ => lt_irrefl _⟩
  have : Std.Antisymm fun x y : α => key x < key y := ⟨fun _ _ h h' => absurd h' (lt_asymm h)⟩
  obtain ⟨xs, hx⟩ := m
  obtain ⟨ys, hy⟩ := m'
  obtain rfl : xs = ys := hx.eq_of_mem_iff hy h
  rfl

def empty : Keyed key := ⟨[], List.Pairwise.nil⟩

@[simp] theorem not_mem_empty : a ∉ (empty : Keyed key) := List.not_mem_nil

/-! ## Lookup -/

def find? (m : Keyed key) (k : κ) : Option α := m.toList.find? (key · = k)

theorem find?_eq_some : m.find? k = some a ↔ a ∈ m ∧ key a = k := by
  constructor
  · intro h
    exact ⟨List.mem_of_find?_eq_some h, by simpa using List.find?_some h⟩
  · rintro ⟨ha, hk⟩
    cases hf : m.find? k with
    | none => exact absurd hk (by simpa using List.find?_eq_none.mp hf a ha)
    | some b =>
      have hb : key b = k := by simpa using List.find?_some hf
      rw [eq_of_key_eq (List.mem_of_find?_eq_some hf) ha (hb.trans hk.symm)]

theorem find?_eq_none : m.find? k = none ↔ ∀ a ∈ m, key a ≠ k := by
  simp [find?, List.find?_eq_none, mem_def]

/-- The element with the smallest key that is not below `k`. -/
def lowerBound (m : Keyed key) (k : κ) : Option α := m.toList.find? (k ≤ key ·)

theorem lowerBound_eq_none : m.lowerBound k = none ↔ ∀ a ∈ m, key a < k := by
  simp [lowerBound, List.find?_eq_none, mem_def]

theorem find?_le_of_sorted {l : List α} (hl : l.Pairwise fun a b => key a < key b)
    (h : l.find? (k ≤ key ·) = some a) (hb : b ∈ l) (hk : k ≤ key b) : key a ≤ key b := by
  induction l with
  | nil => cases hb
  | cons c l ih =>
    rw [List.pairwise_cons] at hl
    by_cases hc : k ≤ key c
    · rw [List.find?_cons_of_pos (by simpa using hc), Option.some.injEq] at h
      subst h
      rcases List.mem_cons.mp hb with rfl | hb
      · exact le_refl _
      · exact (hl.1 b hb).le
    · rw [List.find?_cons_of_neg (by simpa using hc)] at h
      rcases List.mem_cons.mp hb with rfl | hb
      · exact absurd hk hc
      · exact ih hl.2 h hb

theorem lowerBound_eq_some :
    m.lowerBound k = some a ↔ a ∈ m ∧ k ≤ key a ∧ ∀ b ∈ m, k ≤ key b → key a ≤ key b := by
  constructor
  · intro h
    refine ⟨List.mem_of_find?_eq_some h, by simpa using List.find?_some h, fun b hb hk => ?_⟩
    exact find?_le_of_sorted m.sorted h hb hk
  · rintro ⟨ha, hk, hmin⟩
    cases hf : m.lowerBound k with
    | none => exact absurd hk (not_le.mpr (lowerBound_eq_none.mp hf a ha))
    | some b =>
      have hb : b ∈ m := List.mem_of_find?_eq_some hf
      have hkb : k ≤ key b := by simpa using List.find?_some hf
      have hle := find?_le_of_sorted m.sorted hf ha hk
      rw [eq_of_key_eq hb ha (le_antisymm hle (hmin b hb hkb))]

/-! ## Removal -/

def filter (m : Keyed key) (p : α → Bool) : Keyed key := ⟨m.toList.filter p, m.sorted.filter p⟩

@[simp] theorem mem_filter {p : α → Bool} : a ∈ m.filter p ↔ a ∈ m ∧ p a = true :=
  List.mem_filter

def eraseKey (m : Keyed key) (k : κ) : Keyed key := m.filter (key · ≠ k)

@[simp] theorem mem_eraseKey : a ∈ m.eraseKey k ↔ a ∈ m ∧ key a ≠ k := by simp [eraseKey]

/-! ## Change without a change of keys -/

def map (m : Keyed key) (g : α → α) (hg : ∀ a, key (g a) = key a) : Keyed key :=
  ⟨m.toList.map g, List.pairwise_map.mpr (m.sorted.imp fun h => by rwa [hg, hg])⟩

@[simp] theorem mem_map {g : α → α} {hg : ∀ a, key (g a) = key a} :
    b ∈ m.map g hg ↔ ∃ a ∈ m, g a = b := List.mem_map

/-! ## Insertion and replacement -/

/-- An element whose key is taken is not inserted. -/
def insertList (key : α → κ) (a : α) : List α → List α
  | [] => [a]
  | b :: l =>
    if key a < key b then a :: b :: l
    else if key b < key a then b :: insertList key a l
    else b :: l

theorem mem_insertList {l : List α} (hl : l.Pairwise fun a b => key a < key b) :
    b ∈ insertList key a l ↔ b ∈ l ∨ (b = a ∧ ∀ c ∈ l, key c ≠ key a) := by
  induction l with
  | nil => simp [insertList]
  | cons c l ih =>
    rw [List.pairwise_cons] at hl
    unfold insertList
    split
    · rename_i hlt
      have hne : ∀ d ∈ c :: l, key d ≠ key a := by
        intro d hd
        rcases List.mem_cons.mp hd with rfl | hd
        · exact ne_of_gt hlt
        · exact ne_of_gt (lt_trans hlt (hl.1 d hd))
      constructor
      · intro hb
        rcases List.mem_cons.mp hb with rfl | hb
        · exact .inr ⟨rfl, hne⟩
        · exact .inl hb
      · rintro (hb | ⟨rfl, -⟩)
        · exact List.mem_cons_of_mem _ hb
        · exact List.mem_cons_self
    · split
      · rename_i hgt
        rw [List.mem_cons, ih hl.2, List.mem_cons, List.forall_mem_cons]
        have := ne_of_lt hgt
        tauto
      · rename_i h1 h2
        have hk : key c = key a := le_antisymm (not_lt.mp h1) (not_lt.mp h2)
        simp [hk]

theorem sorted_insertList {l : List α} (hl : l.Pairwise fun a b => key a < key b) (a : α) :
    (insertList key a l).Pairwise fun a b => key a < key b := by
  induction l with
  | nil => simp [insertList]
  | cons c l ih =>
    have hc := hl
    rw [List.pairwise_cons] at hl
    unfold insertList
    split
    · rename_i hlt
      refine List.pairwise_cons.mpr ⟨fun d hd => ?_, hc⟩
      rcases List.mem_cons.mp hd with rfl | hd
      · exact hlt
      · exact lt_trans hlt (hl.1 d hd)
    · split
      · rename_i hgt
        refine List.pairwise_cons.mpr ⟨fun d hd => ?_, ih hl.2⟩
        rcases (mem_insertList hl.2).mp hd with hd | ⟨rfl, -⟩
        · exact hl.1 d hd
        · exact hgt
      · exact hc

def insert (m : Keyed key) (a : α) : Keyed key :=
  ⟨insertList key a m.toList, sorted_insertList m.sorted a⟩

theorem mem_insert : b ∈ m.insert a ↔ b ∈ m ∨ (b = a ∧ ∀ c ∈ m, key c ≠ key a) :=
  mem_insertList m.sorted

/-- Put `a` in place of the element with key `k`, unless another element has
the key of `a`. -/
def replace (m : Keyed key) (k : κ) (a : α) : Option (Keyed key) :=
  if key a ≠ k ∧ (m.find? (key a)).isSome then none else some ((m.eraseKey k).insert a)

theorem mem_replace (h : m.replace k a = some m') : b ∈ m' ↔ b = a ∨ (b ∈ m ∧ key b ≠ k) := by
  unfold replace at h
  split at h
  · cases h
  · rename_i hfree
    obtain rfl := Option.some.inj h
    rw [mem_insert, mem_eraseKey]
    have hnew : ∀ c ∈ m.eraseKey k, key c ≠ key a := by
      intro c hc hca
      rw [mem_eraseKey] at hc
      refine hfree ⟨hca ▸ hc.2, ?_⟩
      rw [find?_eq_some.mpr ⟨hc.1, hca⟩]
      rfl
    tauto

theorem replace_eq_none :
    m.replace k a = none ↔ key a ≠ k ∧ ∃ b ∈ m, key b = key a := by
  unfold replace
  have hfind : (m.find? (key a)).isSome ↔ ∃ b ∈ m, key b = key a := by
    rw [Option.isSome_iff_exists]
    exact exists_congr fun b => find?_eq_some
  simp only [hfind]
  split
  · rename_i h; exact ⟨fun _ => h, fun _ => rfl⟩
  · rename_i h; exact ⟨nofun, fun hy => absurd hy h⟩

/-! ## Building from a list: the first element of each key stays -/

def ofList (key : α → κ) (l : List α) : Keyed key := l.foldl insert empty

theorem mem_foldl_insert {l : List α} : b ∈ l.foldl insert m ↔
    b ∈ m ∨ ((∀ c ∈ m, key c ≠ key b) ∧ l.find? (key · = key b) = some b) := by
  induction l generalizing m with
  | nil => simp
  | cons a l ih =>
    rw [List.foldl_cons, ih]
    by_cases hab : key a = key b
    · -- `a` decides the key: what comes later is refused
      rw [List.find?_cons_of_pos (by simpa using hab), Option.some.injEq]
      constructor
      · rintro (h | ⟨hfree, -⟩)
        · rcases mem_insert.mp h with h | ⟨rfl, hfree⟩
          · exact .inl h
          · exact .inr ⟨hfree, rfl⟩
        · by_cases hex : ∃ c ∈ m, key c = key a
          · obtain ⟨c, hc, hca⟩ := hex
            exact absurd (hca.trans hab) (hfree c (mem_insert.mpr (.inl hc)))
          · refine absurd hab (hfree a (mem_insert.mpr (.inr ⟨rfl, fun c hc hca => ?_⟩)))
            exact hex ⟨c, hc, hca⟩
      · rintro (h | ⟨hfree, rfl⟩)
        · exact .inl (mem_insert.mpr (.inl h))
        · exact .inl (mem_insert.mpr (.inr ⟨rfl, hfree⟩))
    · rw [List.find?_cons_of_neg (by simpa using hab)]
      have hmem : b ∈ m.insert a ↔ b ∈ m := by
        rw [mem_insert]
        exact ⟨fun h => h.resolve_right fun hb => hab (hb.1 ▸ rfl), .inl⟩
      have hfree : (∀ c ∈ m.insert a, key c ≠ key b) ↔ ∀ c ∈ m, key c ≠ key b := by
        constructor
        · exact fun h c hc => h c (mem_insert.mpr (.inl hc))
        · intro h c hc
          rcases mem_insert.mp hc with hc | ⟨rfl, -⟩
          · exact h c hc
          · exact hab
      rw [hmem, hfree]

theorem mem_ofList {l : List α} : b ∈ ofList key l ↔ l.find? (key · = key b) = some b := by
  rw [ofList, mem_foldl_insert]
  simp

theorem mem_of_mem_ofList {l : List α} (h : a ∈ ofList key l) : a ∈ l :=
  List.mem_of_find?_eq_some (mem_ofList.mp h)

/-- Every key of the list is there. -/
theorem ofList_key {l : List α} (h : a ∈ l) : ∃ b ∈ ofList key l, key b = key a := by
  cases hf : l.find? (key · = key a) with
  | none =>
    have hno := List.find?_eq_none.mp hf a h
    simp at hno
  | some b =>
    have hb : key b = key a := by simpa using List.find?_some hf
    refine ⟨b, mem_ofList.mpr ?_, hb⟩
    rw [hb, hf]

theorem insertList_map {β : Type} (key' : β → κ) (g : α → β) (a : α) (l : List α) :
    insertList key' (g a) (l.map g) = (insertList (fun a => key' (g a)) a l).map g := by
  induction l with
  | nil => rfl
  | cons b l ih =>
    rw [List.map_cons, insertList, insertList]
    split
    · rfl
    · split
      · rw [ih, List.map_cons]
      · rfl

/-- Elements under the key of what they are mapped to. -/
theorem ofList_map {β : Type} (key' : β → κ) (g : α → β) (l : List α) :
    (ofList key' (l.map g)).toList = (ofList (fun a => key' (g a)) l).toList.map g := by
  have hfold : ∀ (l : List α) (m : Keyed fun a => key' (g a)) (m' : Keyed key'),
      m'.toList = m.toList.map g →
      ((l.map g).foldl insert m').toList = (l.foldl insert m).toList.map g := by
    intro l
    induction l with
    | nil => exact fun m m' h => h
    | cons a l ih =>
      intro m m' h
      apply ih
      show insertList key' (g a) m'.toList = (insertList (fun a => key' (g a)) a m.toList).map g
      rw [h, insertList_map]
  exact hfold l empty empty rfl

theorem nodup_toList (m : Keyed key) : m.toList.Nodup := by
  refine m.sorted.imp fun {a b} h he => ?_
  rw [he] at h
  exact lt_irrefl _ h

/-- With distinct keys nothing is left out. -/
theorem perm_ofList {l : List α} (h : (l.map key).Nodup) : (ofList key l).toList.Perm l := by
  refine (List.perm_ext_iff_of_nodup (nodup_toList _) (h.of_map key)).mpr fun a => ?_
  constructor
  · intro ha
    exact mem_of_mem_ofList ha
  · intro ha
    obtain ⟨b, hb, hk⟩ : ∃ b ∈ ofList key l, key b = key a := ofList_key ha
    rwa [← List.inj_on_of_nodup_map h (mem_of_mem_ofList hb) ha hk]

theorem ofList_perm {l l' : List α} (h : (l.map key).Nodup) (hp : l.Perm l') :
    ofList key l = ofList key l' := by
  refine ext_mem fun a => ?_
  have h' : (l'.map key).Nodup := (hp.map key).nodup_iff.mp h
  exact ((perm_ofList h).trans (hp.trans (perm_ofList h').symm)).mem_iff

/-! ## The first elements -/

/-- An element is among the first `n` when fewer than `n` have a smaller key. -/
theorem mem_take_of_sorted {l : List α} (hl : l.Pairwise fun a b => key a < key b) (ha : a ∈ l)
    (n : Nat) : a ∈ l.take n ↔ (l.filter (key · < key a)).length < n := by
  induction l generalizing n with
  | nil => cases ha
  | cons b l ih =>
    rw [List.pairwise_cons] at hl
    cases n with
    | zero => simp
    | succ n =>
      rw [List.take_succ_cons, List.mem_cons]
      rcases List.mem_cons.mp ha with rfl | ha
      · have hnone : l.filter (key · < key a) = [] :=
          List.filter_eq_nil_iff.mpr fun c hc => by simpa using (hl.1 c hc).le
        simp [hnone]
      · have hlt := hl.1 a ha
        have hne : a ≠ b := fun h => absurd hlt (h ▸ lt_irrefl _)
        rw [List.filter_cons_of_pos (by simpa using hlt), List.length_cons, Nat.succ_lt_succ_iff,
          ← ih hl.2 ha]
        exact ⟨fun h => h.resolve_left hne, .inr⟩

/-- The elements in front of the first one without `p`, when `p` is lost only once. -/
theorem mem_takeWhile_of_pairwise {p : α → Bool} {l : List α}
    (hl : l.Pairwise fun a b => p b = true → p a = true) :
    a ∈ l.takeWhile p ↔ a ∈ l ∧ p a = true := by
  induction l with
  | nil => simp
  | cons b l ih =>
    rw [List.pairwise_cons] at hl
    have ih := ih hl.2
    by_cases hb : p b = true
    · rw [List.takeWhile_cons_of_pos hb, List.mem_cons, List.mem_cons, ih]
      constructor
      · rintro (rfl | ha)
        · exact ⟨.inl rfl, hb⟩
        · exact ⟨.inr ha.1, ha.2⟩
      · rintro ⟨rfl | ha, hp⟩
        · exact .inl rfl
        · exact .inr ⟨ha, hp⟩
    · rw [List.takeWhile_cons_of_neg hb, List.mem_cons]
      refine iff_of_false List.not_mem_nil ?_
      rintro ⟨rfl | ha, hp⟩
      · exact hb hp
      · exact hb (hl.1 a ha hp)

end Keyed
end Kadpeer.Core
