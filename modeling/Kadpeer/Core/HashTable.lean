import Mathlib.Data.List.Nodup
import Mathlib.Data.List.Perm.Basic
import Mathlib.Logic.Function.Basic

/-!
# Chained hash tables with a caller's key comparison

A table keeps its nodes in buckets, and a lookup scans the bucket of the key for
the first node whose key `equal` accepts. Nothing makes `equal` an equality: a
node that it accepts under a key that is not its own stands in front of that key
and hides it (`Unshadowed` is the absence of such a node).

`IsMap t f`: the nodes hold the finite map `f`, one node a key. How a table
grows and where it puts a new node is a `Layout`.

* `find_eq_iff`: a scan finds the key's own node exactly when the key is not
  shadowed; `find_eq`: it then reads the map.
* `isMap_insertNew`, `isMap_update`: with keys not shadowed a new node and a
  write are updates of the map.
-/
namespace Kadpeer.Core

/-- The nodes of all buckets; those of one bucket in the order of its chain. -/
structure HashTable (K V : Type) where
  buckets : Nat
  nodes : List (K × V)

namespace HashTable

variable {K V : Type} {t t' : HashTable K V} {f : K → Option V} {k : K} {v : V}

/-- The nodes hold the map `f`. -/
structure IsMap (t : HashTable K V) (f : K → Option V) : Prop where
  nodup : (t.nodes.map Prod.fst).Nodup
  mem_iff : ∀ k v, (k, v) ∈ t.nodes ↔ f k = some v

theorem isMap_empty (n : Nat) : IsMap (⟨n, []⟩ : HashTable K V) fun _ => none :=
  ⟨List.nodup_nil, fun _ _ => by simp⟩

theorem IsMap.not_mem_keys (h : IsMap t f) (hk : f k = none) : k ∉ t.nodes.map Prod.fst := by
  intro hmem
  obtain ⟨e, he, rfl⟩ := List.mem_map.mp hmem
  rw [(h.mem_iff e.1 e.2).mp he] at hk
  cases hk

theorem IsMap.perm (h : IsMap t f) (hp : t'.nodes.Perm t.nodes) : IsMap t' f :=
  ⟨(hp.map Prod.fst).nodup_iff.mpr h.nodup, fun k v => hp.mem_iff.trans (h.mem_iff k v)⟩

variable [DecidableEq K]

theorem IsMap.find?_key (h : IsMap t f) (k : K) :
    t.nodes.find? (fun e => e.1 = k) = (f k).map (k, ·) := by
  cases hf : t.nodes.find? (fun e => e.1 = k) with
  | none =>
    have hnot := List.find?_eq_none.mp hf
    cases hk : f k with
    | none => rfl
    | some v =>
      have hkey := hnot (k, v) ((h.mem_iff k v).mpr hk)
      simp at hkey
  | some e =>
    have hkey : e.1 = k := by simpa using List.find?_some hf
    subst hkey
    have hmem := (h.mem_iff e.1 e.2).mp (List.mem_of_find?_eq_some hf)
    rw [hmem]
    rfl

variable (hash : K → Nat) (equal : K → K → Bool)

/-- The nodes in the bucket of `k`. -/
def chain (t : HashTable K V) (k : K) : List (K × V) :=
  t.nodes.filter fun e => hash e.1 % t.buckets = hash k % t.buckets

def find (t : HashTable K V) (k : K) : Option (K × V) := (chain hash t k).find? fun e => equal e.1 k

/-- Write `v` into the node that `find` comes to. -/
def update (t : HashTable K V) (k : K) (v : V) : HashTable K V :=
  { t with nodes := t.nodes.replaceF fun e =>
      if hash e.1 % t.buckets = hash k % t.buckets ∧ equal e.1 k = true then some (e.1, v) else none }

/-- No node in front of the key's own is taken for it. -/
def Unshadowed (t : HashTable K V) (k : K) : Prop :=
  ∀ e ∈ (chain hash t k).takeWhile fun e => e.1 ≠ k, equal e.1 k = false

instance (t : HashTable K V) (k : K) : Decidable (Unshadowed hash equal t k) :=
  inferInstanceAs (Decidable (∀ e ∈ (chain hash t k).takeWhile fun e => e.1 ≠ k, equal e.1 k = false))

variable {hash equal}

/-! ## Lookup -/

theorem find?_chain_key (t : HashTable K V) (k : K) :
    (chain hash t k).find? (fun e => e.1 = k) = t.nodes.find? (fun e => e.1 = k) := by
  rw [chain, List.find?_filter]
  congr 1
  funext e
  by_cases he : e.1 = k <;> simp [he]

/-- The first element that `p` takes is the first that `q` takes, unless `p` takes one
in front of it. -/
theorem find?_eq_find?_iff {α : Type} {p q : α → Bool} (hqp : ∀ a, q a = true → p a = true)
    (l : List α) : l.find? p = l.find? q ↔ ∀ a ∈ l.takeWhile (fun a => !q a), p a = false := by
  induction l with
  | nil => simp
  | cons a l ih =>
    cases hq : q a with
    | true => simp [hq, hqp a hq]
    | false =>
      cases hp : p a with
      | false => simpa [hq, hp] using ih
      | true =>
        simp only [List.find?_cons, hp, hq, List.takeWhile_cons, Bool.not_false, if_true,
          List.mem_cons, forall_eq_or_imp, Bool.true_eq_false, false_and, iff_false]
        intro h
        have := List.find?_some h.symm
        rw [hq] at this
        cases this

/-- **A scan finds the key's own node exactly when the key is not shadowed.** -/
theorem find_eq_iff (hself : equal k k = true) (t : HashTable K V) :
    find hash equal t k = t.nodes.find? (fun e => e.1 = k) ↔ Unshadowed hash equal t k := by
  have hqp : ∀ e : K × V, decide (e.1 = k) = true → equal e.1 k = true := by
    intro e he
    rwa [of_decide_eq_true he]
  have hkey : (chain hash t k).find? (fun e => e.1 = k) = _ := find?_chain_key t k
  rw [← hkey, find, find?_eq_find?_iff hqp, Unshadowed]
  simp only [← decide_not]

theorem find_eq (hself : equal k k = true) (hm : IsMap t f) (hu : Unshadowed hash equal t k) :
    find hash equal t k = (f k).map (k, ·) := by
  rw [(find_eq_iff hself t).mpr hu, hm.find?_key]

/-! ## Insertion -/

theorem isMap_insertNew (hm : IsMap t f) (hk : f k = none) (hp : t'.nodes.Perm ((k, v) :: t.nodes)) :
    IsMap t' (Function.update f k (some v)) := by
  refine ⟨?_, fun k' v' => ?_⟩
  · rw [(hp.map Prod.fst).nodup_iff, List.map_cons, List.nodup_cons]
    exact ⟨hm.not_mem_keys hk, hm.nodup⟩
  · rw [hp.mem_iff, List.mem_cons, hm.mem_iff, Prod.mk.injEq]
    by_cases hkk : k' = k
    · subst hkk
      rw [Function.update_self, hk, Option.some.injEq]
      simp [eq_comm]
    · rw [Function.update_of_ne hkk]
      simp [hkk]

/-! ## Writing a node -/

/-- A replacement of the first hit writes the key's node, when keys are not repeated and
nothing hits in front of it. -/
theorem replaceF_eq_map {hit : K × V → Bool} (hown : ∀ e, e.1 = k → hit e = true) :
    ∀ {l : List (K × V)}, (l.map Prod.fst).Nodup →
      (∀ e ∈ l.takeWhile (fun e => e.1 ≠ k), hit e = false) → k ∈ l.map Prod.fst →
      l.replaceF (fun e => if hit e = true then some (e.1, v) else none) =
        l.map fun e => if e.1 = k then (e.1, v) else e
  | e :: l, hnd, hu, hk => by
    rw [List.map_cons, List.nodup_cons] at hnd
    by_cases he : e.1 = k
    · have hrest : l.map (fun e => if e.1 = k then (e.1, v) else e) = l := by
        refine (List.map_congr_left fun e' he' => if_neg fun h => ?_).trans (List.map_id l)
        exact hnd.1 (List.mem_map.mpr ⟨e', he', h.trans he.symm⟩)
      rw [List.replaceF_cons, if_pos (hown e he), List.map_cons, if_pos he, hrest]
    · have hne : e.1 ≠ k := he
      simp only [List.takeWhile_cons, hne, ne_eq, not_false_eq_true, decide_true, if_true,
        List.mem_cons, forall_eq_or_imp] at hu
      have hk' : k ∈ l.map Prod.fst := by
        rw [List.map_cons, List.mem_cons] at hk
        exact hk.resolve_left (Ne.symm hne)
      rw [List.replaceF_cons, if_neg (by rw [hu.1]; simp), List.map_cons, if_neg he,
        replaceF_eq_map hown hnd.2 hu.2 hk']

/-- The hits are those of the bucket's scan. -/
theorem hit_of_unshadowed (hu : Unshadowed hash equal t k) :
    ∀ e ∈ t.nodes.takeWhile (fun e => e.1 ≠ k),
      decide (hash e.1 % t.buckets = hash k % t.buckets ∧ equal e.1 k = true) = false := by
  rw [Unshadowed, chain] at hu
  generalize t.nodes = l at *
  induction l with
  | nil => simp
  | cons e l ih =>
    by_cases he : e.1 = k
    · simp [he]
    · by_cases hb : hash e.1 % t.buckets = hash k % t.buckets
      · simp only [List.filter_cons, hb, decide_true, if_true, List.takeWhile_cons, ne_eq, he,
          not_false_eq_true, List.mem_cons, forall_eq_or_imp] at hu ⊢
        exact ⟨by simp [hu.1], ih hu.2⟩
      · simp only [List.filter_cons, hb, decide_false, Bool.false_eq_true, if_false] at hu
        simp only [List.takeWhile_cons, ne_eq, he, not_false_eq_true, decide_true, if_true,
          List.mem_cons, forall_eq_or_imp, hb, false_and, decide_false, true_and]
        exact ih hu

/-- **A write goes to the key's node** when the key is there and not shadowed. -/
theorem isMap_update (hself : equal k k = true) (hm : IsMap t f) (hu : Unshadowed hash equal t k)
    (hk : f k ≠ none) : IsMap (update hash equal t k v) (Function.update f k (some v)) := by
  obtain ⟨old, hold⟩ := Option.ne_none_iff_exists'.mp hk
  have hin : k ∈ t.nodes.map Prod.fst := List.mem_map.mpr ⟨(k, old), (hm.mem_iff k old).mpr hold, rfl⟩
  have hnodes : (update hash equal t k v).nodes =
      t.nodes.map fun e => if e.1 = k then (e.1, v) else e := by
    have hown : ∀ e : K × V, e.1 = k →
        decide (hash e.1 % t.buckets = hash k % t.buckets ∧ equal e.1 k = true) = true := by
      intro e he
      simp [he, hself]
    rw [update, ← replaceF_eq_map hown hm.nodup (hit_of_unshadowed hu) hin]
    simp only [decide_eq_true_eq]
  have hkeys : (update hash equal t k v).nodes.map Prod.fst = t.nodes.map Prod.fst := by
    rw [hnodes, List.map_map]
    refine List.map_congr_left fun e _ => ?_
    rw [Function.comp_apply]
    split <;> rfl
  refine ⟨by rw [hkeys]; exact hm.nodup, fun k' v' => ?_⟩
  rw [hnodes, List.mem_map]
  by_cases hkk : k' = k
  · subst hkk
    rw [Function.update_self, Option.some.injEq]
    constructor
    · rintro ⟨e, -, he⟩
      by_cases hek : e.1 = k'
      · rw [if_pos hek, Prod.mk.injEq] at he
        exact he.2
      · rw [if_neg hek] at he
        exact absurd (by rw [he]) hek
    · rintro rfl
      exact ⟨(k', old), (hm.mem_iff k' old).mpr hold, if_pos rfl⟩
  · rw [Function.update_of_ne hkk, ← hm.mem_iff]
    constructor
    · rintro ⟨e, he, heq⟩
      by_cases hek : e.1 = k
      · rw [if_pos hek, Prod.mk.injEq] at heq
        exact absurd (heq.1.symm.trans hek) hkk
      · rw [if_neg hek] at heq
        rwa [← heq]
    · exact fun h => ⟨(k', v'), h, if_neg hkk⟩

/-! ## Growth -/

/-- How a table makes room for one more node and where it puts it. -/
structure Layout (K V : Type) where
  /-- The buckets a new table starts with. -/
  initial : Nat
  resize : HashTable K V → HashTable K V
  place : K × V → List (K × V) → List (K × V)
  /-- Nodes move, none is lost and none added. -/
  resize_perm : ∀ t, (resize t).nodes.Perm t.nodes
  place_perm : ∀ e l, (place e l).Perm (e :: l)

variable (hash equal)

/-- `operator[]` with a key to insert: the table grows, a second scan looks for the
key, and `none` is the answer when that scan finds a node. -/
def insertNew (ly : Layout K V) (t : HashTable K V) (k : K) (v : V) : Option (HashTable K V) :=
  let t' := ly.resize t
  match find hash equal t' k with
  | some _ => none
  | none => some { t' with nodes := ly.place (k, v) t'.nodes }

variable {hash equal}

theorem insertNew_of_unshadowed {ly : Layout K V} (hself : equal k k = true) (hm : IsMap t f)
    (hk : f k = none) (hu : Unshadowed hash equal (ly.resize t) k) :
    ∃ t', insertNew hash equal ly t k v = some t' ∧ IsMap t' (Function.update f k (some v)) := by
  have hgrown : IsMap (ly.resize t) f := hm.perm (ly.resize_perm t)
  have hnone : find hash equal (ly.resize t) k = none := by
    rw [find_eq hself hgrown hu, hk]
    rfl
  refine ⟨{ ly.resize t with nodes := ly.place (k, v) (ly.resize t).nodes }, ?_,
    isMap_insertNew hgrown hk (ly.place_perm (k, v) _)⟩
  simp only [insertNew, hnone]

end HashTable
end Kadpeer.Core
