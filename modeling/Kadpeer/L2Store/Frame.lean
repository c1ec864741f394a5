import Kadpeer.L2Store.DataStore

/-!
# What a call on the store leaves alone

The seven mutators of `DataStore` that answer with a `bool` work on one pair, on all
pairs of a key (`DeleteKey`), or on two pairs of a key (`UpdateItem`). `Local` says that a
call that answers false changes nothing, and that one that answers true changes no entry
of another pair; a pair has one entry at most, since the unique index refuses a second.

* `local_run`: every call on every store is `Local`.
-/
namespace Kadpeer.L2

open Kadpeer.Core

namespace DataStore

inductive Call
  | storeItem (key value : Bytes) (timeToLive : I32) (hashable : Bool)
  | deleteItem (key value : Bytes)
  | deleteKey (key : Bytes)
  | refreshItem (key value strDeleteReq : Bytes)
  | markForDeletion (key value serDelRequest : Bytes)
  | markAsDeleted (key value : Bytes)
  | updateItem (key oldValue newValue : Bytes) (timeToLive : I32) (hashable : Bool)

namespace Call

/-- The answer and the store after the call. -/
def run (now : U32) (d : DataStore) : Call → Bool × DataStore
  | storeItem key value ttl hashable => d.storeItem now key value ttl hashable
  | deleteItem key value => d.deleteItem key value
  | deleteKey key => d.deleteKey key
  | refreshItem key value req =>
    ((d.refreshItem now key value req).1, (d.refreshItem now key value req).2.2)
  | markForDeletion key value req => d.markForDeletion key value req
  | markAsDeleted key value => d.markAsDeleted key value
  | updateItem key oldValue newValue ttl hashable =>
    d.updateItem now key oldValue newValue ttl hashable

/-- The pairs that the arguments name. -/
def Names : Call → Bytes → Bytes → Prop
  | storeItem key value _ _, k, v => k = key ∧ v = value
  | deleteItem key value, k, v => k = key ∧ v = value
  | deleteKey key, k, _ => k = key
  | refreshItem key value _, k, v => k = key ∧ v = value
  | markForDeletion key value _, k, v => k = key ∧ v = value
  | markAsDeleted key value, k, v => k = key ∧ v = value
  | updateItem key oldValue newValue _ _, k, v => k = key ∧ (v = oldValue ∨ v = newValue)

end Call

/-- A false answer leaves the store as it was, a true one every entry of a pair that is
not named; an update moves the entry of the old value to the new one. -/
structure Local (now : U32) (d : DataStore) (call : Call) : Prop where
  refused : (call.run now d).1 = false → (call.run now d).2 = d
  frame : (call.run now d).1 = true → ∀ e, ¬ call.Names e.key e.value →
    (e ∈ (call.run now d).2.datastore ↔ e ∈ d.datastore)
  moved : ∀ key oldValue newValue ttl hashable,
    call = .updateItem key oldValue newValue ttl hashable → (call.run now d).1 = true →
    (∃ e, (call.run now d).2.find key newValue = some e) ∧
      (newValue ≠ oldValue → (call.run now d).2.find key oldValue = none)
  unique : ∀ key value,
    ((call.run now d).2.datastore.toList.filter fun e => e.key = key ∧ e.value = value).length ≤ 1

variable {d d' : DataStore} {e old tuple : KeyValueTuple} {now : U32} {key value newValue : Bytes}
  {ttl : I32} {hashable : Bool}

/-- Entries of one pair are one entry. -/
theorem length_filter_le_one (d : DataStore) (key value : Bytes) :
    (d.datastore.toList.filter fun e => e.key = key ∧ e.value = value).length ≤ 1 := by
  have hnd := (Keyed.nodup_toList d.datastore).filter fun e => decide (e.key = key ∧ e.value = value)
  cases hl : d.datastore.toList.filter fun e => e.key = key ∧ e.value = value with
  | nil => exact Nat.zero_le 1
  | cons e l =>
    rw [hl, List.nodup_cons] at hnd
    have hmem : ∀ x ∈ e :: l, x ∈ d.datastore ∧ x.key = key ∧ x.value = value := by
      intro x hx
      rw [← hl, List.mem_filter, decide_eq_true_eq] at hx
      exact hx
    cases l with
    | nil => exact le_refl 1
    | cons e' l =>
      obtain ⟨he, hk, hv⟩ := hmem e List.mem_cons_self
      obtain ⟨he', hk', hv'⟩ := hmem e' (List.mem_cons_of_mem _ List.mem_cons_self)
      have heq : e = e' := Keyed.eq_of_key_eq he he'
        (keyValue_eq_iff.mpr ⟨hk.trans hk'.symm, hv.trans hv'.symm⟩)
      rw [heq] at hnd
      exact absurd List.mem_cons_self hnd.1

/-- Between two named entries. -/
theorem Puts.frame (h : Puts d old tuple d') (names : Bytes → Bytes → Prop)
    (hold : names old.key old.value) (htuple : names tuple.key tuple.value)
    (hnot : ¬ names e.key e.value) : e ∈ d'.datastore ↔ e ∈ d.datastore := by
  rw [h e]
  constructor
  · rintro (rfl | ⟨he, -⟩)
    · exact absurd htuple hnot
    · exact he
  · intro he
    refine .inr ⟨he, fun hk => hnot ?_⟩
    obtain ⟨hkey, hvalue⟩ := keyValue_eq_iff.mp hk
    rw [hkey, hvalue]
    exact hold

/-! ## One call -/

theorem deleteItem_none (hf : d.find key value = none) : d.deleteItem key value = (false, d) := by
  rw [deleteItem, hf]

theorem deleteItem_some (hf : d.find key value = some e) : (d.deleteItem key value).1 = true := by
  rw [deleteItem, hf]

theorem deleteKey_empty (h : d.equalRange key = []) : d.deleteKey key = (false, d) := by
  rw [deleteKey, h]
  rfl

theorem deleteKey_some (h : d.equalRange key ≠ []) : (d.deleteKey key).1 = true := by
  rw [deleteKey, if_neg (by simpa using h)]

theorem updateItem_puts (now : U32) (ttl : I32) (hashable : Bool)
    (h : d.UpdateAccepts key value newValue) :
    ∃ e, d.find key value = some e ∧ Puts d e (updated now key newValue ttl hashable)
      (d.updateItem now key value newValue ttl hashable).2 := (updateItem_accepts h).2

/-- A call that answers false. -/
theorem run_refused (now : U32) (d : DataStore) (call : Call) (h : (call.run now d).1 = false) :
    (call.run now d).2 = d := by
  cases call with
  | storeItem key value ttl hashable =>
    have hacc : ¬ d.StoreAccepts now key value ttl := fun hacc =>
      Bool.false_ne_true (h.symm.trans (storeItem_fst.mpr hacc))
    rw [Call.run, storeItem_refuses hacc]
  | deleteItem key value =>
    cases hf : d.find key value with
    | none => rw [Call.run, deleteItem_none hf]
    | some e => exact absurd (h.symm.trans (deleteItem_some hf)) Bool.false_ne_true
  | deleteKey key =>
    by_cases hr : d.equalRange key = []
    · rw [Call.run, deleteKey_empty hr]
    · exact absurd (h.symm.trans (deleteKey_some hr)) Bool.false_ne_true
  | refreshItem key value req =>
    cases hf : d.find key value with
    | none => rw [Call.run, refreshItem_none hf]
    | some e =>
      by_cases hs : e.delStatus = .notDeleted
      · exact absurd (h.symm.trans (refreshItem_live hf hs).1) Bool.false_ne_true
      · rw [Call.run, refreshItem_dead hf hs]
  | markForDeletion key value req =>
    cases hf : d.find key value with
    | none => rw [Call.run, markForDeletion_none hf]
    | some e =>
      have htrue : (d.markForDeletion key value req).1 = true :=
        markForDeletion_fst.mpr (by rw [hf]; rfl)
      exact absurd (h.symm.trans htrue) Bool.false_ne_true
  | markAsDeleted key value =>
    cases hf : d.find key value with
    | none => rw [Call.run, markAsDeleted_none hf]
    | some e =>
      by_cases hs : e.delStatus = .markedForDeletion
      · exact absurd (h.symm.trans (markAsDeleted_marked hf hs).1) Bool.false_ne_true
      · rw [Call.run, markAsDeleted_unmarked hf hs]
  | updateItem key old new ttl hashable =>
    have hacc : ¬ d.UpdateAccepts key old new := fun hacc =>
      Bool.false_ne_true (h.symm.trans (updateItem_fst.mpr hacc))
    rw [Call.run, updateItem_refuses hacc]

/-- Entries of pairs that the call does not name. -/
theorem run_frame (now : U32) (d : DataStore) (call : Call) (hnot : ¬ call.Names e.key e.value) :
    e ∈ (call.run now d).2.datastore ↔ e ∈ d.datastore := by
  cases call with
  | storeItem key value ttl hashable =>
    by_cases hacc : d.StoreAccepts now key value ttl
    · exact (storeItem_accepts hacc).2.frame (Call.storeItem key value ttl hashable).Names
        ⟨rfl, rfl⟩ ⟨rfl, rfl⟩ hnot
    · rw [Call.run, storeItem_refuses hacc]
  | deleteItem key value =>
    rw [Call.run, mem_deleteItem]
    exact and_iff_left hnot
  | deleteKey key =>
    rw [Call.run, mem_deleteKey]
    exact and_iff_left hnot
  | refreshItem key value req =>
    rcases refreshItem_cases now d key value req with hsame | ⟨e', hf, -, hput⟩
    · rw [Call.run, hsame]
    · have hpair := (find_eq_some.mp hf).2
      exact hput.frame (Call.refreshItem key value req).Names hpair hpair hnot
  | markForDeletion key value req =>
    rcases markForDeletion_cases d key value req with ⟨hsame, -⟩ | ⟨e', hf, -, hput⟩
    · rw [Call.run, hsame]
    · have hpair := (find_eq_some.mp hf).2
      exact hput.frame (Call.markForDeletion key value req).Names hpair hpair hnot
  | markAsDeleted key value =>
    rcases markAsDeleted_cases d key value with hsame | ⟨e', hf, -, hput⟩
    · rw [Call.run, hsame]
    · have hpair := (find_eq_some.mp hf).2
      exact hput.frame (Call.markAsDeleted key value).Names hpair hpair hnot
  | updateItem key old new ttl hashable =>
    by_cases hacc : d.UpdateAccepts key old new
    · obtain ⟨e', hf, hput⟩ := updateItem_puts now ttl hashable hacc
      obtain ⟨-, hk, hv⟩ := find_eq_some.mp hf
      exact hput.frame (Call.updateItem key old new ttl hashable).Names ⟨hk, .inl hv⟩
        ⟨rfl, .inr rfl⟩ hnot
    · rw [Call.run, updateItem_refuses hacc]

/-- The entry of the old value becomes one of the new value. -/
theorem updateItem_moved (h : (d.updateItem now key value newValue ttl hashable).1 = true) :
    (∃ e, (d.updateItem now key value newValue ttl hashable).2.find key newValue = some e) ∧
      (newValue ≠ value →
        (d.updateItem now key value newValue ttl hashable).2.find key value = none) := by
  obtain ⟨e, hf, hput⟩ := updateItem_puts now ttl hashable (updateItem_fst.mp h)
  obtain ⟨-, rfl, rfl⟩ := find_eq_some.mp hf
  refine ⟨⟨_, hput.find_eq⟩, fun hne => hput.find_old fun hk => hne ?_⟩
  exact (keyValue_eq_iff.mp hk).2

/-- **Atomic and local**, every call on every store. -/
theorem local_run (now : U32) (d : DataStore) (call : Call) : Local now d call where
  refused := run_refused now d call
  frame := fun _ _ hnot => run_frame now d call hnot
  moved := by
    rintro key oldValue newValue ttl hashable rfl h
    exact updateItem_moved h
  unique := length_filter_le_one _

end DataStore
end Kadpeer.L2
