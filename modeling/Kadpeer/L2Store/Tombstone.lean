import Kadpeer.L2Store.Expiry

/-!
# Entries marked for deletion

An entry that is marked for deletion or deleted stays as it is until it is removed or a
`StoreItem` overrides it (`Ends`); only `MarkAsDeleted` moves it on. Every other operation
looks at the status of the entry it is to change, and `replace` refuses a pair that is taken.

* `find_apply_dead`, `apply_tombstone`: one operation leaves it or marks it as deleted.
* `forward_of_steps`: along a run it only moves forward and is never returned.
-/
namespace Kadpeer.L2

open Kadpeer.Core

namespace DataStore

variable {d d' : DataStore} {e e' old tuple : KeyValueTuple} {now : U32} {key value : Bytes} {op : Op}

/-- The same entry, or the marked one as deleted. -/
def Later (e e' : KeyValueTuple) : Prop :=
  e' = e ∨ (e.delStatus = .markedForDeletion ∧ e' = { e with delStatus := .deleted })

/-- The operation removes the entry, or is a `StoreItem` of its pair that is permanent or
expires later than an entry that is not permanent. -/
def Ends (now : U32) (e : KeyValueTuple) : Op → Prop
  | .storeItem key value ttl _ => key = e.key ∧ value = e.value ∧
      (ttl = -1 ∨ (e.expireTime < expireAfter now ttl ∧ e.ttl ≠ -1))
  | .deleteItem key value => key = e.key ∧ value = e.value
  | .deleteKey key => key = e.key
  | .deleteExpiredValues => 0 < e.expireTime ∧ e.expireTime < now
  | .clear => True
  | _ => False

theorem Later.find_eq (h : Later e e') (hf : d.find e.key e.value = some e') :
    d.find e'.key e'.value = some e' := by
  rcases h with rfl | ⟨-, rfl⟩ <;> exact hf

theorem Later.dead (h : Later e e') (hs : e.delStatus ≠ .notDeleted) :
    e'.delStatus ≠ .notDeleted := by
  rcases h with rfl | ⟨-, rfl⟩
  · exact hs
  · exact nofun

/-- What ends a later state of the entry ends the entry. -/
theorem Later.ends_iff (h : Later e e') : Ends now e' op ↔ Ends now e op := by
  rcases h with rfl | ⟨-, rfl⟩
  · rfl
  · cases op <;> rfl

/-- An entry of another pair is not touched. -/
theorem Puts.find_keep (h : Puts d old tuple d') (hf : d.find key value = some e)
    (hne : e.keyValue ≠ old.keyValue) : d'.find key value = some e := by
  obtain ⟨he, hk, hv⟩ := find_eq_some.mp hf
  exact find_eq_some.mpr ⟨(h e).mpr (.inr ⟨he, hne⟩), hk, hv⟩

/-- A dead entry is not one whose status is looked for. -/
theorem keyValue_ne_of_delStatus {e₁ : KeyValueTuple} (he : e ∈ d.datastore) (he₁ : e₁ ∈ d.datastore)
    (hne : e.delStatus ≠ e₁.delStatus) : e.keyValue ≠ e₁.keyValue := by
  intro hk
  exact hne (congrArg KeyValueTuple.delStatus (Keyed.eq_of_key_eq he he₁ hk))

/-- A tuple in the place of a live entry leaves the dead ones. -/
theorem Puts.find_dead (h : Puts d old tuple d') (hf : d.find e.key e.value = some e)
    (hs : e.delStatus ≠ .notDeleted) (hold : d.find key value = some old)
    (hlive : old.delStatus = .notDeleted) : d'.find e.key e.value = some e := by
  have hmem := (find_eq_some.mp hf).1
  refine h.find_keep hf (keyValue_ne_of_delStatus hmem (find_eq_some.mp hold).1 ?_)
  rw [hlive]
  exact hs

/-- Operations that do not move the status on leave a dead entry. -/
theorem find_apply_dead (hf : d.find e.key e.value = some e) (hs : e.delStatus ≠ .notDeleted)
    (hends : ¬ Ends now e op) (hop : ∀ key value, op ≠ .markAsDeleted key value)
    (h : d.apply now op = .ok d') : d'.find e.key e.value = some e := by
  have hmem := (find_eq_some.mp hf).1
  cases op with
  | storeItem key value ttl hashable =>
    cases h
    by_cases hacc : d.StoreAccepts now key value ttl
    · refine (storeItem_accepts hacc).2.find_keep hf fun hkv => ?_
      obtain ⟨hk, hv⟩ : e.key = key ∧ e.value = value := keyValue_eq_iff.mp hkv
      subst hk hv
      rcases hacc.2.2.2 e hf with hlive | hover
      · exact hs hlive
      · exact hends ⟨rfl, rfl, hover⟩
    · rw [storeItem_refuses hacc]
      exact hf
  | deleteItem key value =>
    cases h
    refine find_eq_some.mpr ⟨mem_deleteItem.mpr ⟨hmem, fun hkv => ?_⟩, rfl, rfl⟩
    exact hends ⟨hkv.1.symm, hkv.2.symm⟩
  | deleteKey key =>
    cases h
    exact find_eq_some.mpr ⟨mem_deleteKey.mpr ⟨hmem, fun hk => hends hk.symm⟩, rfl, rfl⟩
  | deleteExpiredValues =>
    exact find_eq_some.mpr ⟨(mem_deleteExpiredValues h).mpr ⟨hmem, hends⟩, rfl, rfl⟩
  | clear => exact absurd trivial hends
  | refreshItem key value =>
    cases h
    rcases refreshItem_cases now d key value [] with hsame | ⟨old, hold, hlive, hput⟩
    · rw [hsame]
      exact hf
    · exact hput.find_dead hf hs hold hlive
  | markForDeletion key value req =>
    cases h
    rcases markForDeletion_cases d key value req with ⟨hsame, -⟩ | ⟨old, hold, hlive, hput⟩
    · rw [hsame]
      exact hf
    · exact hput.find_dead hf hs hold hlive
  | markAsDeleted key value => exact absurd rfl (hop key value)
  | updateItem key oldValue newValue ttl hashable =>
    cases h
    by_cases hacc : d.UpdateAccepts key oldValue newValue
    · obtain ⟨-, old, hold, hput⟩ := updateItem_accepts hacc
      obtain ⟨old', hold', hlive⟩ := hacc.1
      obtain rfl : old = old' := by simpa [hold] using hold'
      exact hput.find_dead hf hs hold hlive
    · rw [updateItem_refuses hacc]
      exact hf

/-- `MarkAsDeleted` moves the status of its own entry. -/
theorem apply_tombstone (hf : d.find e.key e.value = some e) (hs : e.delStatus ≠ .notDeleted)
    (hends : ¬ Ends now e op) (h : d.apply now op = .ok d') :
    ∃ e', Later e e' ∧ d'.find e.key e.value = some e' := by
  cases op with
  | markAsDeleted key value =>
    cases h
    rcases markAsDeleted_cases d key value with hsame | ⟨old, hold, hmarked, hput⟩
    · refine ⟨e, .inl rfl, ?_⟩
      rw [hsame]
      exact hf
    · by_cases hkv : e.keyValue = old.keyValue
      · obtain rfl := Keyed.eq_of_key_eq (find_eq_some.mp hf).1 (find_eq_some.mp hold).1 hkv
        exact ⟨_, .inr ⟨hmarked, rfl⟩, hput.find_eq⟩
      · exact ⟨e, .inl rfl, hput.find_keep hf hkv⟩
  | _ => exact ⟨e, .inl rfl, find_apply_dead hf hs hends nofun h⟩

/-- An entry that is not live is not returned. -/
theorem not_mem_loadItem (hf : d.find key value = some e) (hs : e.delStatus ≠ .notDeleted) :
    value ∉ (d.loadItem now key).2 := by
  rw [mem_loadItem]
  intro ⟨e', he', hl⟩
  obtain rfl : e = e' := by simpa [hf] using he'
  exact hs (KeyValueTuple.live_iff.mp hl).2

end DataStore

namespace Timed

open DataStore

variable {s s' : Timed} {e : KeyValueTuple} {tr : List ((Nat × Op) × Timed)}

/-- The store holds the dead entry `e`, and returns its value at no time. -/
structure Entombed (e : KeyValueTuple) (s : Timed) : Prop where
  held : s.store.find e.key e.value = some e
  dead : e.delStatus ≠ .notDeleted
  hidden : ∀ now, e.value ∉ (s.store.loadItem now e.key).2

/-- In every state of the run there is the dead entry, and from one state to the next it is
the same or goes from marked to deleted. -/
inductive Forward : KeyValueTuple → Timed → List ((Nat × Op) × Timed) → Prop
  | last {e : KeyValueTuple} {s : Timed} (h : Entombed e s) : Forward e s []
  | step {e e' : KeyValueTuple} {s s' : Timed} {l : Nat × Op} {tr : List ((Nat × Op) × Timed)}
      (h : Entombed e s) (hlater : Later e e') (hrest : Forward e' s' tr) : Forward e s ((l, s') :: tr)

theorem entombed_of_find (hf : s.store.find e.key e.value = some e)
    (hs : e.delStatus ≠ .notDeleted) : Entombed e s where
  held := hf
  dead := hs
  hidden _ := not_mem_loadItem hf hs

/-- **Tombstones only move forward**, until they are removed or stored over. -/
theorem forward_of_steps (hr : system.Run s tr s') (hf : s.store.find e.key e.value = some e)
    (hs : e.delStatus ≠ .notDeleted)
    (hok : LTS.Steps (fun _ l => ¬ Ends (clock32 l.1) e l.2) s tr) : Forward e s tr := by
  induction hr generalizing e with
  | nil s => exact .last (entombed_of_find hf hs)
  | cons hst _ ih =>
    obtain ⟨-, -, ha⟩ := step_eq_some hst
    obtain ⟨e', hlater, hf'⟩ := apply_tombstone hf hs hok.1 ha
    refine .step (entombed_of_find hf hs) hlater (ih (hlater.find_eq hf') (hlater.dead hs) ?_)
    exact hok.2.mono fun s l hends => hlater.ends_iff.not.mpr hends

/-- The live value `u` and the marked one `v` under `k`. -/
def buried : Timed where
  clock := 1000
  store := {
    datastore := ⟨[.new (bytes ['k']) (bytes ['u']) 1000 1010 10 false,
      { KeyValueTuple.new (bytes ['k']) (bytes ['v']) 1000 1010 10 false with
        delStatus := .markedForDeletion }], by decide⟩
    tRefresh := 0 }

/-- The marked value is refreshed, overwritten by an update of the other one, and deleted. -/
def disturb : List (Nat × Op) :=
  [(1001, .refreshItem (bytes ['k']) (bytes ['v'])),
   (1002, .updateItem (bytes ['k']) (bytes ['u']) (bytes ['v']) 10 false),
   (1003, .markAsDeleted (bytes ['k']) (bytes ['v']))]

theorem disturb_isSome : (LTS.exec step buried disturb).isSome = true := by decide +kernel

theorem forward_disturb :
    Forward { KeyValueTuple.new (bytes ['k']) (bytes ['v']) 1000 1010 10 false with
      delStatus := .markedForDeletion } buried ((LTS.exec step buried disturb).get disturb_isSome) :=
  forward_of_steps (LTS.run_of_exec (Option.some_get disturb_isSome).symm) (by decide +kernel)
    (by decide) ⟨fun h => h, fun h => h, fun h => h, trivial⟩

end Timed
end Kadpeer.L2
