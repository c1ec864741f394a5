import Kadpeer.Core.Fault
import Kadpeer.Core.Keyed
import Kadpeer.Core.LTS
import Mathlib.Data.List.Lex
import Mathlib.Data.Prod.Lex

/-!
# The data store (`kademlia/datastore.h`, `kademlia/datastore.cpp`)

The `multi_index_container` is seen through its unique index on the pair (key,
value). The index on `expire_time_` is only used by the purge, which erases from the
first entry above 0 up to the first one not below the clock; with the clock at 0
and an entry at 0 the first position is behind the second (`badIterator`).

Times are `uint32_t` and a time to live is an `int32_t`; both are words here, and
`toInt` reads one as signed. Each operation reads the clock at most once, and the
reading is an argument.

* `mem_loadItem`: a value is returned for the live entry of its pair.
* `apply_cases`: an operation removes entries, or puts one in the place of another;
  the new one is stored, updated, or has the times of the one it replaces.
* `forall_apply`: what that means for a property of an entry's times.
* `Timed.system`: the operations at a clock that does not go back.
-/
namespace Kadpeer.L2

open Kadpeer.Core

abbrev U32 := BitVec 32
abbrev I32 := BitVec 32

/-- mirrors src/src/kademlia/datastore.h:32-36 -/
inductive DeleteStatus
  | notDeleted
  | markedForDeletion
  | deleted
deriving DecidableEq

/-- mirrors src/src/kademlia/datastore.h:52-57 -/
structure KeyValueTuple where
  key : Bytes
  value : Bytes
  serDeleteReq : Bytes
  lastRefreshTime : U32
  expireTime : U32
  ttl : I32
  hashable : Bool
  delStatus : DeleteStatus
deriving DecidableEq

namespace KeyValueTuple

/-- mirrors src/src/kademlia/datastore.h:59-68 -/
def new (key value : Bytes) (lastRefreshTime expireTime : U32) (ttl : I32) (hashable : Bool) :
    KeyValueTuple where
  key := key
  value := value
  serDeleteReq := []
  lastRefreshTime := lastRefreshTime
  expireTime := if ttl.toInt < 0 then 0 else expireTime
  ttl := ttl
  hashable := hashable
  delStatus := .notDeleted

/-- mirrors src/src/kademlia/datastore.h:69-73 -/
def refreshed (key value : Bytes) (lastRefreshTime : U32) : KeyValueTuple where
  key := key
  value := value
  serDeleteReq := []
  lastRefreshTime := lastRefreshTime
  expireTime := 0
  ttl := 0
  hashable := true
  delStatus := .notDeleted

/-- The unique index. -/
def keyValue (e : KeyValueTuple) : Bytes ×ₗ Bytes := toLex (e.key, e.value)

/-- The test of `LoadItem`. -/
def live (e : KeyValueTuple) (now : U32) : Bool :=
  (0 < (e.expireTime - now).toInt || e.ttl = -1) && e.delStatus = .notDeleted

theorem live_iff {e : KeyValueTuple} {now : U32} : e.live now = true ↔
    (0 < (e.expireTime - now).toInt ∨ e.ttl = -1) ∧ e.delStatus = .notDeleted := by simp [live]

end KeyValueTuple

abbrev Datastore := Keyed KeyValueTuple.keyValue

/-- mirrors src/src/kademlia/datastore.h:156-159 -/
structure DataStore where
  datastore : Datastore
  tRefresh : U32
deriving DecidableEq

namespace DataStore

/-- mirrors src/src/kademlia/datastore.cpp:17-20 -/
def new (tRefresh : U32) : DataStore where
  datastore := Keyed.empty
  tRefresh := tRefresh

def find (d : DataStore) (key value : Bytes) : Option KeyValueTuple :=
  d.datastore.find? (toLex (key, value))

/-- `equal_range(make_tuple(key))` -/
def equalRange (d : DataStore) (key : Bytes) : List KeyValueTuple :=
  d.datastore.toList.filter (·.key = key)

/-- `datastore_.replace(it, tuple)`, with `it` at `old`. -/
def replace (d : DataStore) (old tuple : KeyValueTuple) : Bool × DataStore :=
  match d.datastore.replace old.keyValue tuple with
  | some datastore => (true, { d with datastore := datastore })
  | none => (false, d)

/-- mirrors src/src/kademlia/datastore.cpp:35-62 -/
def storeItem (now : U32) (key value : Bytes) (timeToLive : I32) (hashable : Bool)
    (d : DataStore) : Bool × DataStore :=
  if key = [] ∨ value = [] ∨ timeToLive = 0 then (false, d)
  else
    let tuple := KeyValueTuple.new key value now (timeToLive + now) timeToLive hashable
    match d.find key value with
    | none => (true, { d with datastore := d.datastore.insert tuple })
    | some e =>
      if e.delStatus = .notDeleted ∨ tuple.ttl = -1 ∨
          (e.expireTime < tuple.expireTime ∧ e.ttl ≠ -1) then
        (true, (d.replace e tuple).2)
      else (false, d)

/-- The result and `*values`. Mirrors src/src/kademlia/datastore.cpp:64-84. -/
def loadItem (now : U32) (key : Bytes) (d : DataStore) : Bool × List Bytes :=
  let values := ((d.equalRange key).filter (·.live now)).map (·.value)
  (!values.isEmpty, values)

/-- mirrors src/src/kademlia/datastore.cpp:86-93 -/
def deleteItem (key value : Bytes) (d : DataStore) : Bool × DataStore :=
  match d.find key value with
  | none => (false, d)
  | some e => (true, { d with datastore := d.datastore.eraseKey e.keyValue })

/-- mirrors src/src/kademlia/datastore.cpp:95-103 -/
def deleteKey (key : Bytes) (d : DataStore) : Bool × DataStore :=
  if (d.equalRange key).isEmpty then (false, d)
  else (true, { d with datastore := d.datastore.filter (·.key ≠ key) })

/-- mirrors src/src/kademlia/datastore.cpp:147-157 -/
def deleteExpiredValues (now : U32) (d : DataStore) : Except Fault DataStore :=
  if now = 0 ∧ ∃ e ∈ d.datastore.toList, e.expireTime = 0 then .error .badIterator
  else .ok { d with
    datastore := d.datastore.filter fun e => !(0 < e.expireTime && e.expireTime < now) }

/-- mirrors src/src/kademlia/datastore.cpp:159-162 -/
def clear (d : DataStore) : DataStore := { d with datastore := Keyed.empty }

/-- mirrors src/src/kademlia/datastore.cpp:177-189 -/
def loadKeyAppendableAttr (key : Bytes) (d : DataStore) : List (Bytes × Bool) :=
  (d.equalRange key).map fun e => (e.value, e.hashable)

/-- The result, `*str_delete_req` and the store. Mirrors
src/src/kademlia/datastore.cpp:191-211. -/
def refreshItem (now : U32) (key value strDeleteReq : Bytes) (d : DataStore) :
    Bool × Bytes × DataStore :=
  match d.find key value with
  | none => (false, strDeleteReq, d)
  | some e =>
    if e.delStatus ≠ .notDeleted then (false, e.serDeleteReq, d)
    else
      let tuple := { KeyValueTuple.refreshed key value now with
        ttl := e.ttl
        expireTime := e.expireTime
        hashable := e.hashable }
      let (result, d) := d.replace e tuple
      (result, strDeleteReq, d)

/-- mirrors src/src/kademlia/datastore.cpp:213-232 -/
def markForDeletion (key value serDelRequest : Bytes) (d : DataStore) : Bool × DataStore :=
  match d.find key value with
  | none => (false, d)
  | some e =>
    if e.delStatus ≠ .notDeleted then (true, d)
    else
      d.replace e { KeyValueTuple.refreshed key value 0 with
        ttl := e.ttl
        expireTime := e.expireTime
        hashable := e.hashable
        lastRefreshTime := e.lastRefreshTime
        serDeleteReq := serDelRequest
        delStatus := .markedForDeletion }

/-- mirrors src/src/kademlia/datastore.cpp:234-249 -/
def markAsDeleted (key value : Bytes) (d : DataStore) : Bool × DataStore :=
  match d.find key value with
  | none => (false, d)
  | some e =>
    if e.delStatus ≠ .markedForDeletion then (false, d)
    else
      d.replace e { KeyValueTuple.refreshed key value 0 with
        ttl := e.ttl
        expireTime := e.expireTime
        hashable := e.hashable
        lastRefreshTime := e.lastRefreshTime
        serDeleteReq := e.serDeleteReq
        delStatus := .deleted }

/-- mirrors src/src/kademlia/datastore.cpp:251-272 -/
def updateItem (now : U32) (key oldValue newValue : Bytes) (timeToLive : I32)
    (hashable : Bool) (d : DataStore) : Bool × DataStore :=
  match d.find key oldValue with
  | none => (false, d)
  | some e =>
    if e.delStatus = .markedForDeletion ∨ e.delStatus = .deleted then (false, d)
    else
      d.replace e { KeyValueTuple.refreshed key newValue 0 with
        ttl := timeToLive
        expireTime := now + timeToLive
        lastRefreshTime := now
        delStatus := .notDeleted
        hashable := hashable }

/-! ## Lookup -/

variable {d d' : DataStore} {e old tuple : KeyValueTuple} {now : U32} {key value newValue : Bytes}
  {ttl : I32} {hashable : Bool}

theorem keyValue_eq_iff : e.keyValue = old.keyValue ↔ e.key = old.key ∧ e.value = old.value := by
  simp [KeyValueTuple.keyValue, Prod.ext_iff]

theorem keyValue_eq : e.keyValue = toLex (key, value) ↔ e.key = key ∧ e.value = value := by
  simp [KeyValueTuple.keyValue, Prod.ext_iff]

theorem find_eq_some : d.find key value = some e ↔ e ∈ d.datastore ∧ e.key = key ∧ e.value = value := by
  rw [find, Keyed.find?_eq_some, keyValue_eq]

theorem find_eq_none : d.find key value = none ↔ ∀ e ∈ d.datastore, e.key = key → e.value ≠ value := by
  rw [find, Keyed.find?_eq_none]
  exact forall₂_congr fun e _ => by rw [ne_eq, keyValue_eq, not_and]

theorem mem_equalRange : e ∈ d.equalRange key ↔ e ∈ d.datastore ∧ e.key = key := by
  simp [equalRange, Keyed.mem_def]

/-- A value is returned for the live entry of its pair. -/
theorem mem_loadItem :
    value ∈ (d.loadItem now key).2 ↔ ∃ e, d.find key value = some e ∧ e.live now = true := by
  simp only [loadItem, List.mem_map, List.mem_filter, mem_equalRange, find_eq_some]
  constructor
  · intro ⟨e, ⟨⟨he, hk⟩, hl⟩, hv⟩
    exact ⟨e, ⟨he, hk, hv⟩, hl⟩
  · intro ⟨e, ⟨he, hk, hv⟩, hl⟩
    exact ⟨e, ⟨⟨he, hk⟩, hl⟩, hv⟩

/-! ## What an operation removes -/

theorem mem_deleteItem : e ∈ (d.deleteItem key value).2.datastore ↔
    e ∈ d.datastore ∧ ¬ (e.key = key ∧ e.value = value) := by
  unfold deleteItem
  cases hf : d.find key value with
  | none =>
    have hfree := find_eq_none.mp hf
    exact ⟨fun he => ⟨he, fun hkv => hfree e he hkv.1 hkv.2⟩, fun h => h.1⟩
  | some old =>
    obtain ⟨-, rfl, rfl⟩ := find_eq_some.mp hf
    rw [Keyed.mem_eraseKey, ne_eq, keyValue_eq_iff]

theorem mem_deleteKey : e ∈ (d.deleteKey key).2.datastore ↔ e ∈ d.datastore ∧ e.key ≠ key := by
  unfold deleteKey
  split
  · rename_i hempty
    have hfree : e ∈ d.datastore → e.key ≠ key := fun he hk => by
      have hin := mem_equalRange.mpr ⟨he, hk⟩
      rw [List.isEmpty_iff.mp hempty] at hin
      cases hin
    exact ⟨fun he => ⟨he, hfree he⟩, fun h => h.1⟩
  · simp [Keyed.mem_filter]

/-- The purge does not run over the end. -/
theorem range_of_deleteExpiredValues (h : d.deleteExpiredValues now = .ok d') :
    ¬ (now = 0 ∧ ∃ e ∈ d.datastore.toList, e.expireTime = 0) := by
  intro hr
  rw [deleteExpiredValues, if_pos hr] at h
  cases h

theorem mem_deleteExpiredValues (h : d.deleteExpiredValues now = .ok d') :
    e ∈ d'.datastore ↔ e ∈ d.datastore ∧ ¬ (0 < e.expireTime ∧ e.expireTime < now) := by
  rw [deleteExpiredValues, if_neg (range_of_deleteExpiredValues h), Except.ok.injEq] at h
  subst h
  rw [Keyed.mem_filter, Bool.not_eq_true', ← Bool.not_eq_true, Bool.and_eq_true, decide_eq_true_eq,
    decide_eq_true_eq]

/-! ## What an operation puts in the store -/

/-- `d'` has `tuple` in the place of `old`. -/
def Puts (d : DataStore) (old tuple : KeyValueTuple) (d' : DataStore) : Prop :=
  ∀ e, e ∈ d'.datastore ↔ e = tuple ∨ (e ∈ d.datastore ∧ e.keyValue ≠ old.keyValue)

/-- `replace` fails when another entry has the new pair. -/
theorem replace_of_taken (hne : tuple.keyValue ≠ old.keyValue)
    (htaken : ∃ e ∈ d.datastore, e.keyValue = tuple.keyValue) : d.replace old tuple = (false, d) := by
  rw [replace, Keyed.replace_eq_none.mpr ⟨hne, htaken⟩]

theorem replace_of_free
    (hfree : tuple.keyValue ≠ old.keyValue → ∀ e ∈ d.datastore, e.keyValue ≠ tuple.keyValue) :
    (d.replace old tuple).1 = true ∧ Puts d old tuple (d.replace old tuple).2 := by
  unfold replace
  cases hr : d.datastore.replace old.keyValue tuple with
  | none =>
    obtain ⟨hne, e, he, hk⟩ := Keyed.replace_eq_none.mp hr
    exact absurd hk (hfree hne e he)
  | some m => exact ⟨rfl, fun e => Keyed.mem_replace hr⟩

theorem replace_of_same (h : tuple.keyValue = old.keyValue) :
    (d.replace old tuple).1 = true ∧ Puts d old tuple (d.replace old tuple).2 :=
  replace_of_free fun hne => absurd h hne

/-- The `expire_time_` of an entry stored at `now`. -/
def expireAfter (now : U32) (ttl : I32) : U32 := if ttl.toInt < 0 then 0 else ttl + now

theorem expireAfter_of_neg (h : ttl.toInt < 0) : expireAfter now ttl = 0 := if_pos h

theorem expireAfter_of_nonneg (h : 0 ≤ ttl.toInt) : expireAfter now ttl = ttl + now :=
  if_neg (not_lt.mpr h)

/-- `StoreItem` takes the pair: it replaces a live entry always, and one marked for
deletion or deleted if it is permanent or outlives it. -/
def StoreAccepts (d : DataStore) (now : U32) (key value : Bytes) (ttl : I32) : Prop :=
  key ≠ [] ∧ value ≠ [] ∧ ttl ≠ 0 ∧ ∀ e, d.find key value = some e →
    e.delStatus = .notDeleted ∨ ttl = -1 ∨ (e.expireTime < expireAfter now ttl ∧ e.ttl ≠ -1)

theorem storeItem_accepts (h : d.StoreAccepts now key value ttl) :
    (d.storeItem now key value ttl hashable).1 = true ∧
      Puts d (.new key value now (ttl + now) ttl hashable) (.new key value now (ttl + now) ttl hashable)
        (d.storeItem now key value ttl hashable).2 := by
  obtain ⟨hk, hv, ht, hold⟩ := h
  unfold storeItem
  have hargs : ¬ (key = [] ∨ value = [] ∨ ttl = 0) := by
    rw [not_or, not_or]
    exact ⟨hk, hv, ht⟩
  rw [if_neg hargs]
  cases hf : d.find key value with
  | none =>
    refine ⟨rfl, fun e => ?_⟩
    have hfree : ∀ e ∈ d.datastore, e.keyValue ≠ toLex (key, value) := Keyed.find?_eq_none.mp hf
    simp only [Keyed.mem_insert]
    constructor
    · rintro (he | ⟨he, -⟩)
      · exact .inr ⟨he, hfree e he⟩
      · exact .inl he
    · rintro (he | ⟨he, -⟩)
      · exact .inr ⟨he, hfree⟩
      · exact .inl he
  | some e =>
    have hkv : e.keyValue = toLex (key, value) := (Keyed.find?_eq_some.mp hf).2
    have hcond : e.delStatus = .notDeleted ∨
        (KeyValueTuple.new key value now (ttl + now) ttl hashable).ttl = -1 ∨
        (e.expireTime < (KeyValueTuple.new key value now (ttl + now) ttl hashable).expireTime ∧
          e.ttl ≠ -1) := hold e hf
    simp only
    rw [if_pos hcond]
    have hsame : (KeyValueTuple.new key value now (ttl + now) ttl hashable).keyValue = e.keyValue :=
      hkv.symm
    refine ⟨rfl, fun e' => ?_⟩
    rw [(replace_of_same hsame).2 e', hsame]

theorem storeItem_refuses (h : ¬ d.StoreAccepts now key value ttl) :
    d.storeItem now key value ttl hashable = (false, d) := by
  unfold storeItem
  split
  · rfl
  · rename_i hne
    simp only [not_or] at hne
    cases hf : d.find key value with
    | none => exact absurd ⟨hne.1, hne.2.1, hne.2.2, fun e he => by rw [hf] at he; cases he⟩ h
    | some e =>
      simp only
      rw [if_neg]
      intro hcond
      refine h ⟨hne.1, hne.2.1, hne.2.2, fun e' he' => ?_⟩
      rw [hf, Option.some.injEq] at he'
      exact he' ▸ hcond

/-- The tuple that `UpdateItem` writes. -/
def updated (now : U32) (key newValue : Bytes) (ttl : I32) (hashable : Bool) : KeyValueTuple :=
  { KeyValueTuple.refreshed key newValue 0 with
    ttl := ttl
    expireTime := now + ttl
    lastRefreshTime := now
    delStatus := .notDeleted
    hashable := hashable }

/-- `UpdateItem` finds the old value undeleted and the new one free. -/
def UpdateAccepts (d : DataStore) (key value newValue : Bytes) : Prop :=
  (∃ e, d.find key value = some e ∧ e.delStatus = .notDeleted) ∧
    (newValue ≠ value → d.find key newValue = none)

theorem updateItem_accepts (h : d.UpdateAccepts key value newValue) :
    (d.updateItem now key value newValue ttl hashable).1 = true ∧
      ∃ e, d.find key value = some e ∧ Puts d e (updated now key newValue ttl hashable)
        (d.updateItem now key value newValue ttl hashable).2 := by
  obtain ⟨⟨e, hf, hs⟩, hfree⟩ := h
  have hkv : e.keyValue = toLex (key, value) := (Keyed.find?_eq_some.mp hf).2
  have hput : (d.replace e (updated now key newValue ttl hashable)).1 = true ∧
      Puts d e (updated now key newValue ttl hashable)
        (d.replace e (updated now key newValue ttl hashable)).2 := by
    refine replace_of_free fun hne => ?_
    have hval : newValue ≠ value := by
      intro heq
      apply hne
      rw [hkv, heq]
      rfl
    exact Keyed.find?_eq_none.mp (hfree hval)
  unfold updateItem
  rw [hf]
  simp only [hs, reduceCtorEq, or_self, if_false]
  exact ⟨hput.1, e, rfl, hput.2⟩

theorem updateItem_refuses (h : ¬ d.UpdateAccepts key value newValue) :
    d.updateItem now key value newValue ttl hashable = (false, d) := by
  unfold updateItem
  cases hf : d.find key value with
  | none => rfl
  | some e =>
    simp only
    split
    · rfl
    · rename_i hs
      have hkv : e.keyValue = toLex (key, value) := (Keyed.find?_eq_some.mp hf).2
      have hlive : e.delStatus = .notDeleted := by
        cases hd : e.delStatus <;> simp_all
      have htaken : ¬ (newValue ≠ value → d.find key newValue = none) :=
        fun hfree => h ⟨⟨e, hf, hlive⟩, hfree⟩
      rw [Classical.not_imp] at htaken
      obtain ⟨e', he'⟩ := Option.ne_none_iff_exists'.mp htaken.2
      obtain ⟨hmem, hkey⟩ := Keyed.find?_eq_some.mp he'
      refine replace_of_taken ?_ ⟨e', hmem, hkey⟩
      rw [hkv]
      exact fun heq => htaken.1 (congrArg (fun p : Bytes ×ₗ Bytes => (ofLex p).2) heq)

/-! ## The operations that carry an entry on -/

/-- The tuple in the place of `e` has `e`'s pair, so `replace` takes it. -/
theorem puts_same (hkey : tuple.key = e.key) (hvalue : tuple.value = e.value) :
    (d.replace e tuple).1 = true ∧ Puts d e tuple (d.replace e tuple).2 :=
  replace_of_same (keyValue_eq_iff.mpr ⟨hkey, hvalue⟩)

theorem refreshItem_none {req : Bytes} (hf : d.find key value = none) :
    d.refreshItem now key value req = (false, req, d) := by
  rw [refreshItem, hf]

theorem refreshItem_dead {req : Bytes} (hf : d.find key value = some e)
    (hs : e.delStatus ≠ .notDeleted) :
    d.refreshItem now key value req = (false, e.serDeleteReq, d) := by
  rw [refreshItem, hf]
  exact if_pos hs

theorem refreshItem_live {req : Bytes} (hf : d.find key value = some e)
    (hs : e.delStatus = .notDeleted) :
    (d.refreshItem now key value req).1 = true ∧
      Puts d e { e with lastRefreshTime := now, serDeleteReq := [] }
        (d.refreshItem now key value req).2.2 := by
  obtain ⟨-, rfl, rfl⟩ := find_eq_some.mp hf
  rw [refreshItem, hf]
  simp only [hs, ne_eq, not_true_eq_false, if_false]
  exact puts_same rfl rfl

/-- A refresh leaves the store as it is, or a live entry goes on with a new time. -/
theorem refreshItem_cases (now : U32) (d : DataStore) (key value req : Bytes) :
    (d.refreshItem now key value req).2.2 = d ∨
    ∃ e, d.find key value = some e ∧ e.delStatus = .notDeleted ∧
      Puts d e { e with lastRefreshTime := now, serDeleteReq := [] }
        (d.refreshItem now key value req).2.2 := by
  cases hf : d.find key value with
  | none => exact .inl (congrArg (fun r => r.2.2) (refreshItem_none hf))
  | some e =>
    by_cases hs : e.delStatus = .notDeleted
    · exact .inr ⟨e, rfl, hs, (refreshItem_live hf hs).2⟩
    · exact .inl (congrArg (fun r => r.2.2) (refreshItem_dead hf hs))

theorem markForDeletion_none {req : Bytes} (hf : d.find key value = none) :
    d.markForDeletion key value req = (false, d) := by
  rw [markForDeletion, hf]

theorem markForDeletion_dead {req : Bytes} (hf : d.find key value = some e)
    (hs : e.delStatus ≠ .notDeleted) : d.markForDeletion key value req = (true, d) := by
  rw [markForDeletion, hf]
  exact if_pos hs

theorem markForDeletion_live (req : Bytes) (hf : d.find key value = some e)
    (hs : e.delStatus = .notDeleted) :
    (d.markForDeletion key value req).1 = true ∧
      Puts d e { e with serDeleteReq := req, delStatus := .markedForDeletion }
        (d.markForDeletion key value req).2 := by
  obtain ⟨-, rfl, rfl⟩ := find_eq_some.mp hf
  rw [markForDeletion, hf]
  simp only [hs, ne_eq, not_true_eq_false, if_false]
  exact puts_same rfl rfl

/-- A mark is made on a live entry. -/
theorem markForDeletion_cases (d : DataStore) (key value req : Bytes) :
    ((d.markForDeletion key value req).2 = d ∧
      ∀ e, d.find key value = some e → e.delStatus ≠ .notDeleted) ∨
    ∃ e, d.find key value = some e ∧ e.delStatus = .notDeleted ∧
      Puts d e { e with serDeleteReq := req, delStatus := .markedForDeletion }
        (d.markForDeletion key value req).2 := by
  cases hf : d.find key value with
  | none => exact .inl ⟨congrArg Prod.snd (markForDeletion_none hf), nofun⟩
  | some e =>
    by_cases hs : e.delStatus = .notDeleted
    · exact .inr ⟨e, rfl, hs, (markForDeletion_live req hf hs).2⟩
    · refine .inl ⟨congrArg Prod.snd (markForDeletion_dead hf hs), fun e' he' => ?_⟩
      cases he'
      exact hs

theorem markForDeletion_fst {req : Bytes} :
    (d.markForDeletion key value req).1 = true ↔ (d.find key value).isSome = true := by
  cases hf : d.find key value with
  | none => simp [markForDeletion_none hf]
  | some e =>
    by_cases hs : e.delStatus = .notDeleted
    · simp [(markForDeletion_live req hf hs).1]
    · simp [markForDeletion_dead hf hs]

theorem markAsDeleted_none (hf : d.find key value = none) :
    d.markAsDeleted key value = (false, d) := by
  rw [markAsDeleted, hf]

theorem markAsDeleted_unmarked (hf : d.find key value = some e)
    (hs : e.delStatus ≠ .markedForDeletion) : d.markAsDeleted key value = (false, d) := by
  rw [markAsDeleted, hf]
  exact if_pos hs

theorem markAsDeleted_marked (hf : d.find key value = some e)
    (hs : e.delStatus = .markedForDeletion) :
    (d.markAsDeleted key value).1 = true ∧
      Puts d e { e with delStatus := .deleted } (d.markAsDeleted key value).2 := by
  obtain ⟨-, rfl, rfl⟩ := find_eq_some.mp hf
  rw [markAsDeleted, hf]
  simp only [hs, ne_eq, not_true_eq_false, if_false]
  exact puts_same rfl rfl

/-- A marked entry is deleted, and nothing else. -/
theorem markAsDeleted_cases (d : DataStore) (key value : Bytes) :
    (d.markAsDeleted key value).2 = d ∨
    ∃ e, d.find key value = some e ∧ e.delStatus = .markedForDeletion ∧
      Puts d e { e with delStatus := .deleted } (d.markAsDeleted key value).2 := by
  cases hf : d.find key value with
  | none => exact .inl (congrArg Prod.snd (markAsDeleted_none hf))
  | some e =>
    by_cases hs : e.delStatus = .markedForDeletion
    · exact .inr ⟨e, rfl, hs, (markAsDeleted_marked hf hs).2⟩
    · exact .inl (congrArg Prod.snd (markAsDeleted_unmarked hf hs))

/-- Another tuple in the place of an entry is a change. -/
theorem Puts.ne_self (h : Puts d old tuple d') (hold : old ∈ d.datastore) (hne : tuple ≠ old) :
    d' ≠ d := by
  rintro rfl
  rcases (h old).mp hold with heq | ⟨-, hk⟩
  · exact hne heq.symm
  · exact hk rfl

/-- An entry in its own place is none. -/
theorem Puts.eq_self (h : Puts d e e d') (he : e ∈ d.datastore) (hrefresh : d'.tRefresh = d.tRefresh) :
    d' = d := by
  have hsame : d'.datastore = d.datastore := by
    refine Keyed.ext_mem fun e' => ?_
    rw [h e']
    constructor
    · rintro (rfl | ⟨he', -⟩)
      · exact he
      · exact he'
    · intro he'
      by_cases hk : e'.keyValue = e.keyValue
      · exact .inl (Keyed.eq_of_key_eq he' he hk)
      · exact .inr ⟨he', hk⟩
  cases d
  cases d'
  exact congr (congrArg DataStore.mk hsame) hrefresh

theorem replace_tRefresh : (d.replace old tuple).2.tRefresh = d.tRefresh := by
  unfold replace
  split <;> rfl

theorem updateItem_tRefresh :
    (d.updateItem now key value newValue ttl hashable).2.tRefresh = d.tRefresh := by
  unfold updateItem
  split
  · rfl
  · split
    · rfl
    · exact replace_tRefresh

theorem updateItem_fst :
    (d.updateItem now key value newValue ttl hashable).1 = true ↔ d.UpdateAccepts key value newValue := by
  by_cases h : d.UpdateAccepts key value newValue
  · simp [h, (updateItem_accepts h).1]
  · simp [h, updateItem_refuses h]

theorem storeItem_fst :
    (d.storeItem now key value ttl hashable).1 = true ↔ d.StoreAccepts now key value ttl := by
  by_cases h : d.StoreAccepts now key value ttl
  · simp [h, (storeItem_accepts h).1]
  · simp [h, storeItem_refuses h]

/-! ## The transition system -/

/-- The operations that change the store. -/
inductive Op
  | storeItem (key value : Bytes) (timeToLive : I32) (hashable : Bool)
  | deleteItem (key value : Bytes)
  | deleteKey (key : Bytes)
  | deleteExpiredValues
  | clear
  | refreshItem (key value : Bytes)
  | markForDeletion (key value serDelRequest : Bytes)
  | markAsDeleted (key value : Bytes)
  | updateItem (key oldValue newValue : Bytes) (timeToLive : I32) (hashable : Bool)

/-- `apply` at the clock reading `now`. -/
def apply (now : U32) (d : DataStore) : Op → Except Fault DataStore
  | .storeItem key value ttl hashable => .ok (d.storeItem now key value ttl hashable).2
  | .deleteItem key value => .ok (d.deleteItem key value).2
  | .deleteKey key => .ok (d.deleteKey key).2
  | .deleteExpiredValues => d.deleteExpiredValues now
  | .clear => .ok d.clear
  | .refreshItem key value => .ok (d.refreshItem now key value []).2.2
  | .markForDeletion key value req => .ok (d.markForDeletion key value req).2
  | .markAsDeleted key value => .ok (d.markAsDeleted key value).2
  | .updateItem key old value ttl hashable => .ok (d.updateItem now key old value ttl hashable).2

/-- `static_cast<uint32_t>` of the seconds that `TTimer::current` returns. -/
def clock32 (clock : Nat) : U32 := .ofNat 32 clock

/-- The entry that was put is the one of its pair. -/
theorem Puts.find_eq (h : Puts d old tuple d') : d'.find tuple.key tuple.value = some tuple :=
  find_eq_some.mpr ⟨(h tuple).mpr (.inl rfl), rfl, rfl⟩

/-- The pair of the entry that went is free, if the new one has another. -/
theorem Puts.find_old (h : Puts d old tuple d') (hne : tuple.keyValue ≠ old.keyValue) :
    d'.find old.key old.value = none := by
  rw [find, Keyed.find?_eq_none]
  intro e he
  rcases (h e).mp he with rfl | ⟨-, hk⟩
  · exact hne
  · exact hk

/-! ## What an operation does -/

variable {op : Op}

/-- How an entry that an operation puts in the store comes by its times. -/
inductive Written (now : U32) (d : DataStore) : Op → KeyValueTuple → Prop
  | stored {key value : Bytes} {ttl : I32} {hashable : Bool} (h : d.StoreAccepts now key value ttl) :
      Written now d (.storeItem key value ttl hashable) (.new key value now (ttl + now) ttl hashable)
  | updated {key value newValue : Bytes} {ttl : I32} {hashable : Bool}
      (h : d.UpdateAccepts key value newValue) :
      Written now d (.updateItem key value newValue ttl hashable) (updated now key newValue ttl hashable)
  | carried {op : Op} {e tuple : KeyValueTuple} (he : e ∈ d.datastore) (ht : tuple.ttl = e.ttl)
      (hx : tuple.expireTime = e.expireTime) : Written now d op tuple

/-- An operation that returns leaves some of the entries, or puts one in the place of
another. -/
theorem apply_cases (h : d.apply now op = .ok d') :
    (∀ e ∈ d'.datastore, e ∈ d.datastore) ∨
      ∃ old tuple, Puts d old tuple d' ∧ Written now d op tuple := by
  cases op with
  | storeItem key value ttl hashable =>
    cases h
    by_cases hacc : d.StoreAccepts now key value ttl
    · exact .inr ⟨_, _, (storeItem_accepts hacc).2, .stored hacc⟩
    · rw [storeItem_refuses hacc]
      exact .inl fun e he => he
  | deleteItem key value =>
    cases h
    exact .inl fun e he => (mem_deleteItem.mp he).1
  | deleteKey key =>
    cases h
    exact .inl fun e he => (mem_deleteKey.mp he).1
  | deleteExpiredValues => exact .inl fun e he => ((mem_deleteExpiredValues h).mp he).1
  | clear =>
    cases h
    exact .inl fun e he => absurd he Keyed.not_mem_empty
  | refreshItem key value =>
    cases h
    rcases refreshItem_cases now d key value [] with hsame | ⟨e, hf, -, hput⟩
    · exact .inl fun e he => hsame ▸ he
    · exact .inr ⟨e, _, hput, .carried (find_eq_some.mp hf).1 rfl rfl⟩
  | markForDeletion key value req =>
    cases h
    rcases markForDeletion_cases d key value req with ⟨hsame, -⟩ | ⟨e, hf, -, hput⟩
    · exact .inl fun e he => hsame ▸ he
    · exact .inr ⟨e, _, hput, .carried (find_eq_some.mp hf).1 rfl rfl⟩
  | markAsDeleted key value =>
    cases h
    rcases markAsDeleted_cases d key value with hsame | ⟨e, hf, -, hput⟩
    · exact .inl fun e he => hsame ▸ he
    · exact .inr ⟨e, _, hput, .carried (find_eq_some.mp hf).1 rfl rfl⟩
  | updateItem key value newValue ttl hashable =>
    cases h
    by_cases hacc : d.UpdateAccepts key value newValue
    · obtain ⟨-, e, -, hput⟩ := updateItem_accepts hacc
      exact .inr ⟨e, _, hput, .updated hacc⟩
    · rw [updateItem_refuses hacc]
      exact .inl fun e he => he

/-- A property of the times of every entry, if what is stored and what is updated
has it. -/
theorem forall_apply {P : I32 → U32 → Prop} (hd : ∀ e ∈ d.datastore, P e.ttl e.expireTime)
    (hstore : ∀ key value ttl hashable, op = .storeItem key value ttl hashable →
      d.StoreAccepts now key value ttl → P ttl (expireAfter now ttl))
    (hupdate : ∀ key value newValue ttl hashable, op = .updateItem key value newValue ttl hashable →
      d.UpdateAccepts key value newValue → P ttl (now + ttl))
    (h : d.apply now op = .ok d') : ∀ e ∈ d'.datastore, P e.ttl e.expireTime := by
  intro e he
  rcases apply_cases h with hsub | ⟨old, tuple, hput, hw⟩
  · exact hd e (hsub e he)
  · rcases (hput e).mp he with rfl | ⟨he, -⟩
    · cases hw with
      | stored hacc => exact hstore _ _ _ _ rfl hacc
      | updated hacc => exact hupdate _ _ _ _ _ rfl hacc
      | carried hold ht hx => exact ht ▸ hx ▸ hd _ hold
    · exact hd e he

end DataStore

/-- A store and the last reading of the clock. -/
structure Timed where
  clock : Nat
  store : DataStore
deriving DecidableEq

namespace Timed

/-- An operation at a later or the same reading of the clock. -/
def step (s : Timed) (l : Nat × DataStore.Op) : Option Timed :=
  if s.clock ≤ l.1 then
    ((s.store.apply (DataStore.clock32 l.1) l.2).toOption).map fun store =>
      { clock := l.1, store := store }
  else none

def system : LTS Timed (Nat × DataStore.Op) :=
  LTS.ofFn (fun s => ∃ clock tRefresh, s = { clock := clock, store := .new tRefresh }) step

/-! ## Small runs -/

/-- The empty store at a clock reading. -/
def start (clock : Nat) : Timed := { clock := clock, store := .new 0 }

/-- The run that the operations make, if each is defined. -/
theorem run_start {clock : Nat} {ls : List (Nat × DataStore.Op)}
    (h : (LTS.exec step (start clock) ls).isSome = true) :
    system.Run (start clock) ((LTS.exec step (start clock) ls).get h)
      (LTS.last (start clock) ((LTS.exec step (start clock) ls).get h)) :=
  LTS.run_of_exec (Option.some_get h).symm

end Timed
end Kadpeer.L2
