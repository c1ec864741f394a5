import Kadpeer.Core.Fault
import Kadpeer.Core.HashTable
import Kadpeer.Core.LTS
import Mathlib.Data.List.TakeWhile
import Mathlib.Tactic

/-!
# `StringMap` (`common/HashMap.h`, `common/HashMap.cpp`)

A `StringMap` is a hash table of C strings whose key comparison is
`CharArrayEqualFunc`. That comparison is `strcmp(s1, s2) >= 0`: it takes every
stored key that is not smaller for the key looked up. How the table grows and
where it puts a node is a parameter (`HashTable.Layout`).

A call has no result (`none`) when its key is so long that a counter of the code
leaves its type, and when `_map[p->getKey()] = p` lands on a node that is there
already: that node keeps the key array of the entry it loses, and the entry
frees it.

* `scan_eq_iff`: a lookup is right exactly when no greater key stands in front.
* `call_isMap`: so are a call's answer and effect, when that holds of its key.
* `run_isMap`: and so is every run of such calls, a finite map's.
* `greater_key_read`: with `b` stored, `"! "` is found, read and refused,
  whatever the table looks like.
-/
namespace Kadpeer.L1

open Kadpeer.Core

/-- What a `const char *` points to, up to its terminator. -/
structure CString where
  chars : Bytes
  no_nul : ∀ c ∈ chars, c.val ≠ 0
deriving DecidableEq

/-- What a pointer to these bytes is read as. -/
def CString.ofBytes (s : Bytes) : CString :=
  ⟨s.takeWhile fun c => c.val ≠ 0, fun _ hc => by simpa using List.mem_takeWhile_imp hc⟩

/-- The sign of `strcmp`. -/
def strcmp : Bytes → Bytes → Ordering
  | [], [] => .eq
  | [], _ :: _ => .lt
  | _ :: _, [] => .gt
  | a :: as, b :: bs => if a.val < b.val then .lt else if b.val < a.val then .gt else strcmp as bs

theorem strcmp_self (s : Bytes) : strcmp s s = .eq := by
  induction s with
  | nil => rfl
  | cons a s ih => simp [strcmp, ih]

/-- mirrors src/src/common/HashMap.cpp:14-18 (`CharArrayEqualFunc`) -/
def charArrayEqualFunc (s1 s2 : CString) : Bool := (strcmp s1.chars s2.chars).isGE

theorem charArrayEqualFunc_self (s : CString) : charArrayEqualFunc s s = true := by
  rw [charArrayEqualFunc, strcmp_self]
  rfl

/-- One round of the hash, in `int`; a `char` is signed. -/
def hashRound (hashTemp : BitVec 32) (c : Fin 256) : BitVec 32 :=
  (if hashTemp.slt 0 then (hashTemp <<< 1) + 1 else hashTemp <<< 1) ^^^
    (BitVec.ofNat 8 c.val).signExtend 32

/-- mirrors src/src/common/HashMap.cpp:21-31 (`CharArrayHashFunc`) -/
def charArrayHashFunc (s : CString) : Nat :=
  ((s.chars.foldl hashRound 0).signExtend 64).toNat

abbrev StringMap (T : Type) := HashTable CString T

namespace StringMap

open HashTable (Layout IsMap Unshadowed)

variable {T : Type}

/-- `_map.find(key)`. The hash counts its way through the key in an `unsigned int`, and
does not come to the end of 2^32 bytes. -/
def scan (m : StringMap T) (key : CString) : Option (Option (CString × T)) :=
  if key.chars.length < 2 ^ 32 then some (m.find charArrayHashFunc charArrayEqualFunc key) else none

/-- mirrors src/include/common/HashMap.h:76-85 -/
def get (m : StringMap T) (key : CString) : Option (Option T) :=
  (scan m key).map fun it => it.map Prod.snd

/-- mirrors src/include/common/HashMap.h:97-102 -/
def contains (m : StringMap T) (key : CString) : Option Bool := (scan m key).map Option.isSome

/-- `keyLen` and `keyLen + 1` are of type `int`. Mirrors src/include/common/HashMap.h:109-125. -/
def set (ly : Layout CString T) (m : StringMap T) (key : CString) (value : T) :
    Option (Bool × StringMap T) := do
  if ← contains m key then return (false, m)
  if key.chars.length + 1 < 2 ^ 31 then
    let m' ← m.insertNew charArrayHashFunc charArrayEqualFunc ly key value
    return (true, m')
  else none

/-- mirrors src/include/common/HashMap.h:127-135 -/
def overwrite (ly : Layout CString T) (m : StringMap T) (key : CString) (value : T) :
    Option (Bool × StringMap T) := do
  if ← contains m key then return (true, m.update charArrayHashFunc charArrayEqualFunc key value)
  set ly m key value

/-! ## Calls -/

inductive Op (T : Type)
  | set (key : CString) (value : T)
  | overwrite (key : CString) (value : T)
  | get (key : CString)
  | contains (key : CString)

inductive Answer (T : Type)
  | done (result : Bool)
  | value (result : Option T)
deriving DecidableEq

def call (ly : Layout CString T) (m : StringMap T) : Op T → Option (Answer T × StringMap T)
  | .set key value => (set ly m key value).map fun r => (.done r.1, r.2)
  | .overwrite key value => (overwrite ly m key value).map fun r => (.done r.1, r.2)
  | .get key => (get m key).map fun r => (.value r, m)
  | .contains key => (contains m key).map fun r => (.done r, m)

/-- A new map with calls on it; a label is a call and its answer. -/
def calls (ly : Layout CString T) : LTS (StringMap T) (Op T × Answer T) where
  init m := m = ⟨ly.initial, []⟩
  step m l m' := call ly m l.1 = some (l.2, m')

/-! ## The map it is meant to be -/

/-- What a finite map answers. -/
def answer (f : CString → Option T) : Op T → Answer T
  | .set key _ => .done (f key).isNone
  | .overwrite _ _ => .done true
  | .get key => .value (f key)
  | .contains key => .done (f key).isSome

/-- What is in a finite map after a call. -/
def effect (f : CString → Option T) : Op T → CString → Option T
  | .set key value => if (f key).isNone then Function.update f key (some value) else f
  | .overwrite key value => Function.update f key (some value)
  | .get _ => f
  | .contains _ => f

/-- What a finite map answers to one call after the other. -/
def answers : (CString → Option T) → List (Op T) → List (Answer T)
  | _, [] => []
  | f, op :: ops => answer f op :: answers (effect f op) ops

/-- No greater key stands in front of `key` in its chain, and the key is not so long that
the hash does not end. -/
def Reads (m : StringMap T) (key : CString) : Prop :=
  key.chars.length < 2 ^ 32 ∧ Unshadowed charArrayHashFunc charArrayEqualFunc m key

/-- The same after the table has grown, for a key that is to be inserted and copied. -/
def Inserts (ly : Layout CString T) (m : StringMap T) (key : CString) : Prop :=
  key.chars.length + 1 < 2 ^ 31 ∧
    Unshadowed charArrayHashFunc charArrayEqualFunc (ly.resize m) key

def Meets (ly : Layout CString T) (m : StringMap T) : Op T → Prop
  | .set key _ | .overwrite key _ =>
    Reads m key ∧ (key ∉ m.nodes.map Prod.fst → Inserts ly m key)
  | .get key | .contains key => Reads m key

variable {ly : Layout CString T} {m : StringMap T} {f : CString → Option T} {key : CString}

/-- **A lookup is right exactly when no greater key stands in front.** -/
theorem scan_eq_iff (hm : IsMap m f) (key : CString) :
    scan m key = some ((f key).map (key, ·)) ↔ Reads m key := by
  rw [Reads, ← HashTable.find_eq_iff (charArrayEqualFunc_self key), hm.find?_key, scan]
  by_cases h : key.chars.length < 2 ^ 32
  · rw [if_pos h, Option.some.injEq, and_iff_right h]
  · rw [if_neg h]
    exact ⟨nofun, fun hr => absurd hr.1 h⟩

theorem get_of_reads (hm : IsMap m f) (h : Reads m key) : get m key = some (f key) := by
  rw [get, (scan_eq_iff hm key).mpr h]
  cases f key <;> rfl

theorem contains_of_reads (hm : IsMap m f) (h : Reads m key) :
    contains m key = some (f key).isSome := by
  rw [contains, (scan_eq_iff hm key).mpr h]
  cases f key <;> rfl

/-- A new key is inserted. -/
theorem set_of_none (value : T) (hm : IsMap m f) (hr : Reads m key) (hi : Inserts ly m key)
    (hk : f key = none) :
    ∃ m', set ly m key value = some (true, m') ∧ IsMap m' (Function.update f key (some value)) := by
  obtain ⟨m', hm', hmap⟩ := HashTable.insertNew_of_unshadowed (v := value)
    (charArrayEqualFunc_self key) hm hk hi.2
  refine ⟨m', ?_, hmap⟩
  rw [set, contains_of_reads hm hr, hk, if_pos hi.1, hm']
  rfl

/-- **A call on a key that no greater key stands in front of** answers as the map does and
leaves the map as it should. -/
theorem call_isMap {op : Op T} (hm : IsMap m f) (h : Meets ly m op) :
    ∃ m', call ly m op = some (answer f op, m') ∧ IsMap m' (effect f op) := by
  cases op with
  | set key value =>
    obtain ⟨hr, hi⟩ := h
    cases hk : f key with
    | none =>
      obtain ⟨m', hset, hmap⟩ := set_of_none value hm hr (hi (hm.not_mem_keys hk)) hk
      refine ⟨m', ?_, ?_⟩
      · rw [call, hset, answer, hk]
        rfl
      · rw [effect, hk]
        exact hmap
    | some old =>
      refine ⟨m, ?_, ?_⟩
      · rw [call, set, contains_of_reads hm hr, answer, hk]
        rfl
      · rw [effect, hk]
        exact hm
  | overwrite key value =>
    obtain ⟨hr, hi⟩ := h
    cases hk : f key with
    | none =>
      obtain ⟨m', hset, hmap⟩ := set_of_none value hm hr (hi (hm.not_mem_keys hk)) hk
      refine ⟨m', ?_, hmap⟩
      rw [call, overwrite, contains_of_reads hm hr, hk]
      simp only [Option.isSome_none, Option.bind_eq_bind, Option.bind_some, Bool.false_eq_true,
        if_false, hset, answer]
      rfl
    | some old =>
      refine ⟨_, ?_, HashTable.isMap_update (charArrayEqualFunc_self key) hm hr.2 (by simp [hk])⟩
      rw [call, overwrite, contains_of_reads hm hr, hk]
      rfl
  | get key =>
    refine ⟨m, ?_, hm⟩
    rw [call, get_of_reads hm h]
    rfl
  | contains key =>
    refine ⟨m, ?_, hm⟩
    rw [call, contains_of_reads hm h]
    rfl

theorem effect_of_ne {op : Op T} (h : ∀ value, op ≠ .set key value ∧ op ≠ .overwrite key value) :
    effect f op key = f key := by
  cases op with
  | set key' value =>
    have hne : key ≠ key' := fun he => (h value).1 (he ▸ rfl)
    rw [effect]
    split
    · exact Function.update_of_ne hne _ _
    · rfl
  | overwrite key' value =>
    have hne : key ≠ key' := fun he => (h value).2 (he ▸ rfl)
    exact Function.update_of_ne hne _ _
  | get => rfl
  | contains => rfl

theorem effect_isSome (f : CString → Option T) (op : Op T) (key : CString) :
    (effect f op key).isSome = true ↔
      (f key).isSome = true ∨ ∃ value, op = .set key value ∨ op = .overwrite key value := by
  by_cases h : ∃ value, op = .set key value ∨ op = .overwrite key value
  · obtain ⟨value, rfl | rfl⟩ := h
    · rw [effect]
      cases hk : f key with
      | none => simp
      | some old => simp [hk]
    · simp [effect]
  · have hno : ∀ value, op ≠ .set key value ∧ op ≠ .overwrite key value := by
      intro value
      exact ⟨fun he => h ⟨value, .inl he⟩, fun he => h ⟨value, .inr he⟩⟩
    rw [effect_of_ne hno, or_iff_left h]

/-- The keys of the map are the keys written. -/
theorem foldl_effect_isSome (ops : List (Op T)) (f : CString → Option T) (key : CString) :
    (ops.foldl effect f key).isSome = true ↔ (f key).isSome = true ∨
      ∃ op ∈ ops, ∃ value, op = .set key value ∨ op = .overwrite key value := by
  induction ops generalizing f with
  | nil => simp
  | cons op ops ih =>
    rw [List.foldl_cons, ih, effect_isSome, or_assoc]
    simp only [List.mem_cons, exists_eq_or_imp]

theorem run_isMap_from {m₀ m : StringMap T} {tr : List ((Op T × Answer T) × StringMap T)}
    (hr : (calls ly).Run m₀ tr m) (hok : LTS.Steps (fun m l => Meets ly m l.1) m₀ tr)
    (hm : IsMap m₀ f) :
    tr.map (·.1.2) = answers f (tr.map (·.1.1)) ∧
      IsMap m ((tr.map (·.1.1)).foldl effect f) := by
  induction hr generalizing f with
  | nil => exact ⟨rfl, hm⟩
  | @cons m₀ m₁ m l tr hst _ ih =>
    obtain ⟨m', hcall, hmap⟩ := call_isMap hm hok.1
    have hst' : call ly m₀ l.1 = some (l.2, m₁) := hst
    rw [hcall, Option.some.injEq, Prod.mk.injEq] at hst'
    obtain ⟨hans, rfl⟩ := hst'
    obtain ⟨htail, hend⟩ := ih hok.2 hmap
    exact ⟨by rw [List.map_cons, List.map_cons, answers, hans, htail], hend⟩

/-- **In every run whose calls all meet the condition the answers are a finite map's**, its
keys are those written so far, and the calls that meet it next have an answer, the map's. -/
theorem run_isMap (ly : Layout CString T) {tr : List ((Op T × Answer T) × StringMap T)}
    {m : StringMap T} (hr : (calls ly).Run ⟨ly.initial, []⟩ tr m)
    (hok : LTS.Steps (fun m l => Meets ly m l.1) ⟨ly.initial, []⟩ tr) :
    let f := (tr.map (·.1.1)).foldl effect fun _ => none
    tr.map (·.1.2) = answers (fun _ => none) (tr.map (·.1.1)) ∧ IsMap m f ∧
      (∀ key, (f key).isSome = true ↔
        ∃ op ∈ tr.map (·.1.1), ∃ value, op = .set key value ∨ op = .overwrite key value) ∧
      ∀ op, Meets ly m op →
        ∃ m', call ly m op = some (answer f op, m') ∧ IsMap m' (effect f op) := by
  obtain ⟨hans, hmap⟩ := run_isMap_from hr hok (HashTable.isMap_empty ly.initial)
  refine ⟨hans, hmap, fun key => ?_, fun op hop => call_isMap hmap hop⟩
  rw [foldl_effect_isSome]
  simp

/-- A table of 193 buckets that doubles when it is full, with new nodes at the head of
their chain. -/
def headFirst : Layout CString T where
  initial := 193
  resize t := if t.nodes.length < t.buckets then t else ⟨2 * t.buckets, t.nodes.reverse⟩
  place e l := e :: l
  resize_perm t := by
    split
    · exact List.Perm.refl _
    · exact List.reverse_perm _
  place_perm _ _ := List.Perm.refl _

/-- The same with new nodes at the end of their chain. -/
def tailLast : Layout CString T where
  initial := 193
  resize := headFirst.resize
  place e l := l ++ [e]
  resize_perm := headFirst.resize_perm
  place_perm e l := List.perm_append_singleton e l

/-- `"! "` and `"b"` are in one chain, `"a"` is in another one; the first is written twice. -/
def writes : List (Op Nat) :=
  [.set (.ofBytes (bytes ['!', ' '])) 1, .set (.ofBytes (bytes ['b'])) 2,
    .overwrite (.ofBytes (bytes ['!', ' '])) 3, .overwrite (.ofBytes (bytes ['a'])) 4]

/-- They are stored in the order in which they came, and read back. -/
theorem run_isMap_set :
    charArrayHashFunc (.ofBytes (bytes ['!', ' '])) = charArrayHashFunc (.ofBytes (bytes ['b'])) ∧
    ∃ m : StringMap Nat, m.nodes.length = 3 ∧ IsMap m (writes.foldl effect fun _ => none) ∧
      get m (.ofBytes (bytes ['!', ' '])) = some (some 3) ∧
      get m (.ofBytes (bytes ['b'])) = some (some 2) ∧
      get m (.ofBytes (bytes ['a'])) = some (some 4) := by
  refine ⟨by decide, ⟨193, [(.ofBytes (bytes ['!', ' ']), 3), (.ofBytes (bytes ['b']), 2),
    (.ofBytes (bytes ['a']), 4)]⟩, rfl, ?_⟩
  have h := @run_isMap Nat tailLast
    [((.set (.ofBytes (bytes ['!', ' '])) 1, .done true),
        ⟨193, [(.ofBytes (bytes ['!', ' ']), 1)]⟩),
      ((.set (.ofBytes (bytes ['b'])) 2, .done true),
        ⟨193, [(.ofBytes (bytes ['!', ' ']), 1), (.ofBytes (bytes ['b']), 2)]⟩),
      ((.overwrite (.ofBytes (bytes ['!', ' '])) 3, .done true),
        ⟨193, [(.ofBytes (bytes ['!', ' ']), 3), (.ofBytes (bytes ['b']), 2)]⟩),
      ((.overwrite (.ofBytes (bytes ['a'])) 4, .done true),
        ⟨193, [(.ofBytes (bytes ['!', ' ']), 3), (.ofBytes (bytes ['b']), 2),
          (.ofBytes (bytes ['a']), 4)]⟩)] _
    (.cons (by rfl) (.cons (by rfl) (.cons (by rfl) (.cons (by rfl) (.nil _)))))
    ⟨⟨⟨by decide, by decide⟩, fun _ => ⟨by decide, by decide⟩⟩,
      ⟨⟨by decide, by decide⟩, fun _ => ⟨by decide, by decide⟩⟩,
      ⟨⟨by decide, by decide⟩, fun _ => ⟨by decide, by decide⟩⟩,
      ⟨⟨by decide, by decide⟩, fun _ => ⟨by decide, by decide⟩⟩, trivial⟩
  exact ⟨h.2.1, by rfl, by rfl, by rfl⟩

/-! ## A greater key in the same chain -/

/-- **A key of the same hash that is smaller than the only key stored reads that key's
value**, and cannot be set, however the table is laid out. -/
theorem greater_key_read (ly : Layout CString T) {k₁ k₂ : CString} (v v' : T)
    (h₁ : k₁.chars.length + 1 < 2 ^ 31) (h₂ : k₂.chars.length < 2 ^ 32)
    (hhash : charArrayHashFunc k₁ = charArrayHashFunc k₂)
    (hgt : strcmp k₁.chars k₂.chars = .gt) :
    ∃ m, call ly ⟨ly.initial, []⟩ (.set k₁ v) = some (.done true, m) ∧ k₁ ≠ k₂ ∧
      contains m k₂ = some true ∧ get m k₂ = some (some v) ∧ set ly m k₂ v' = some (false, m) := by
  have hempty : (ly.resize ⟨ly.initial, []⟩).nodes = [] := (ly.resize_perm _).eq_nil
  have hplace : ly.place (k₁, v) [] = [(k₁, v)] := List.perm_singleton.mp (ly.place_perm (k₁, v) [])
  have hnew : (⟨ly.initial, []⟩ : StringMap T).insertNew charArrayHashFunc charArrayEqualFunc ly k₁ v =
      some { ly.resize ⟨ly.initial, []⟩ with nodes := [(k₁, v)] } := by
    simp only [HashTable.insertNew, HashTable.find, HashTable.chain, hempty, List.filter_nil,
      List.find?_nil, hplace]
  have hfresh : contains (⟨ly.initial, []⟩ : StringMap T) k₁ = some false := by
    rw [contains, scan, if_pos (by omega)]
    rfl
  have hequal : charArrayEqualFunc k₁ k₂ = true := by
    rw [charArrayEqualFunc, hgt]
    rfl
  have hscan : scan { ly.resize ⟨ly.initial, []⟩ with nodes := [(k₁, v)] } k₂ = some (some (k₁, v)) := by
    rw [scan, if_pos h₂]
    simp [HashTable.find, HashTable.chain, hhash, hequal]
  have hcontains : contains { ly.resize ⟨ly.initial, []⟩ with nodes := [(k₁, v)] } k₂ = some true := by
    rw [contains, hscan]
    rfl
  refine ⟨_, ?_, ?_, hcontains, ?_, ?_⟩
  · rw [call, set, hfresh, if_pos h₁, hnew]
    rfl
  · rintro rfl
    rw [strcmp_self] at hgt
    cases hgt
  · rw [get, hscan]
    rfl
  · rw [set, hcontains]
    rfl

/-- With `b` set to 7, `"! "` is there too, reads 7 and cannot be set to 8. -/
theorem set_b_read_other :
    call headFirst ⟨193, []⟩ (.set (.ofBytes (bytes ['b'])) 7) =
        some (.done true, ⟨193, [(.ofBytes (bytes ['b']), 7)]⟩) ∧
      call headFirst ⟨193, [(.ofBytes (bytes ['b']), 7)]⟩ (.contains (.ofBytes (bytes ['!', ' ']))) =
        some (.done true, ⟨193, [(.ofBytes (bytes ['b']), 7)]⟩) ∧
      call headFirst ⟨193, [(.ofBytes (bytes ['b']), 7)]⟩ (.get (.ofBytes (bytes ['!', ' ']))) =
        some (.value (some 7), ⟨193, [(.ofBytes (bytes ['b']), 7)]⟩) ∧
      call headFirst ⟨193, [(.ofBytes (bytes ['b']), 7)]⟩ (.set (.ofBytes (bytes ['!', ' '])) 8) =
        some (.done false, ⟨193, [(.ofBytes (bytes ['b']), 7)]⟩) ∧
      answers (T := Nat) (fun _ => none) [.set (.ofBytes (bytes ['b'])) 7,
          .contains (.ofBytes (bytes ['!', ' '])), .get (.ofBytes (bytes ['!', ' '])),
          .set (.ofBytes (bytes ['!', ' '])) 8] =
        [.done true, .done false, .value none, .done true] := by
  refine ⟨by rfl, by rfl, by rfl, by rfl, by rfl⟩

end StringMap
end Kadpeer.L1
