import Kadpeer.Core.Fault
import Mathlib.Logic.Function.Basic

/-!
# Tagged records

A record is written as a list of fields, each with the number of its member and a value
that carries its type. The reader looks at one field after the other: a number or a
type that it does not know is skipped, any other field is read into the member and sets
the member's flag. An optional member is written only if its flag is set.

A list is read without a look at the type of its elements. Where that is another one
the rest of the message is misread, and there is no result here.

A `Codec` comes with what the reader makes of a written value, a `Layout` with the
uniqueness of its numbers.

* `decode_encode`: what a reader makes of the fields of another record, member by member.
* `decode_filter`: fields of an unknown number or another type change nothing, wherever they
  stand.
-/
namespace Kadpeer.Core

/-- `other` is a value of a type that no member has. -/
inductive Value
  | bool (b : Bool)
  | i32 (n : BitVec 32)
  | string (s : Bytes)
  | list (vs : List Value)
  | struct (fields : List (Nat × Value))
  | other

abbrev Fields := List (Nat × Value)

namespace Tagged

/-- What becomes of a field. -/
inductive Reading (T : Type)
  | skip
  | misread
  | done (t : T)

def Reading.map {T U : Type} (f : T → U) : Reading T → Reading U
  | .skip => .skip
  | .misread => .misread
  | .done t => .done (f t)

/-- How a value is written, and read into one that is there: `arrives t u` is what `t`
becomes when `u` was written. -/
structure Codec (T : Type) where
  write : T → Value
  read : T → Value → Reading T
  arrives : T → T → T
  read_write : ∀ t u, read t (write u) = .done (arrives t u)

/-- A member of the record `R`. -/
structure Slot (R : Type) where
  id : Nat
  optional : Bool
  write : R → Value
  read : R → Value → Reading R
  arrives : R → R → R
  read_write : ∀ r q, read r (write q) = .done (arrives r q)

/-- The members of a record, in the order in which they are written. -/
structure Layout (R : Type) where
  slots : List (Slot R)
  nodup : (slots.map (·.id)).Nodup

/-- A record with its flags. -/
structure Flagged (R : Type) where
  val : R
  isset : Nat → Bool

variable {R T : Type}

/-- As a constructor leaves it: no flag is set. -/
abbrev fresh (r : R) : Flagged R := ⟨r, fun _ => false⟩

/-- An element is found by its key, if no other one has it. -/
theorem find?_key {α κ : Type} [BEq κ] [LawfulBEq κ] {key : α → κ} {l : List α}
    (hnodup : (l.map key).Nodup) {a : α} (ha : a ∈ l) : l.find? (key · == key a) = some a := by
  induction l with
  | nil => cases ha
  | cons b l ih =>
    rw [List.map_cons, List.nodup_cons] at hnodup
    cases List.mem_cons.mp ha with
    | inl heq =>
      rw [heq]
      exact List.find?_cons_of_pos (beq_self_eq_true (key b))
    | inr hmem =>
      have hne : key b ≠ key a := fun heq => hnodup.1 (heq ▸ List.mem_map_of_mem hmem)
      rw [List.find?_cons_of_neg (by simpa using hne)]
      exact ih hnodup.2 hmem

def member (id : Nat) (optional : Bool) (codec : Codec T) (get : R → T) (set : R → T → R) :
    Slot R where
  id := id
  optional := optional
  write r := codec.write (get r)
  read r v := (codec.read (get r) v).map (set r)
  arrives r q := set r (codec.arrives (get r) (get q))
  read_write r q := congrArg (Reading.map (set r)) (codec.read_write (get r) (get q))

def written (r : Flagged R) (s : Slot R) : Bool := !s.optional || r.isset s.id

def readSlot (r : Flagged R) (s : Slot R) (v : Value) : Option (Flagged R) :=
  match s.read r.val v with
  | .skip => some r
  | .misread => none
  | .done val => some ⟨val, Function.update r.isset s.id true⟩

/-- A member of `r` after the one of `q` was read into it. -/
def transfer (q r : Flagged R) (s : Slot R) : Flagged R :=
  ⟨s.arrives r.val q.val, Function.update r.isset s.id true⟩

namespace Layout

variable (layout : Layout R)

def encode (r : Flagged R) : Fields :=
  (layout.slots.filter (written r)).map fun s => (s.id, s.write r.val)

def readField (r : Flagged R) (field : Nat × Value) : Option (Flagged R) :=
  match layout.slots.find? (·.id == field.1) with
  | none => some r
  | some s => readSlot r s field.2

def decode (r : Flagged R) (fields : Fields) : Option (Flagged R) :=
  fields.foldlM layout.readField r

/-- `r` after the written members of `q` were read into it. -/
def arrives (r q : Flagged R) : Flagged R :=
  (layout.slots.filter (written q)).foldl (transfer q) r

/-! ## Reading -/

variable {layout} {field : Nat × Value}

theorem decode_cons (r : Flagged R) (field : Nat × Value) (fields : Fields) :
    layout.decode r (field :: fields) = (layout.readField r field).bind (layout.decode · fields) :=
  rfl

/-- The reader has no member of that number, or one of another type. -/
def Unknown (layout : Layout R) (field : Nat × Value) : Prop :=
  ∀ s, layout.slots.find? (·.id == field.1) = some s → ∀ r, s.read r field.2 = .skip

theorem readField_unknown (h : layout.Unknown field) (r : Flagged R) :
    layout.readField r field = some r := by
  unfold readField
  cases hs : layout.slots.find? (·.id == field.1) with
  | none => rfl
  | some s => simp only [readSlot, h s hs]

/-- Two values that no member can tell apart are read alike. -/
theorem readField_congr {id : Nat} {v v' : Value}
    (h : ∀ s ∈ layout.slots, ∀ r, s.read r v = s.read r v') (r : Flagged R) :
    layout.readField r (id, v) = layout.readField r (id, v') := by
  unfold readField
  cases hs : layout.slots.find? (·.id == id) with
  | none => rfl
  | some s => simp only [readSlot, h s (List.mem_of_find?_eq_some hs)]

/-- **Unknown fields are skipped**, between any others. -/
theorem decode_filter (keep : Nat × Value → Bool) (fields : Fields)
    (h : ∀ field ∈ fields, keep field = false → layout.Unknown field) (r : Flagged R) :
    layout.decode r (fields.filter keep) = layout.decode r fields := by
  induction fields generalizing r with
  | nil => rfl
  | cons field fields ih =>
    have hrest := ih fun f hf => h f (List.mem_cons_of_mem _ hf)
    cases hkeep : keep field with
    | true =>
      rw [List.filter_cons_of_pos hkeep, decode_cons, decode_cons]
      exact congrArg _ (funext fun r' => hrest r')
    | false =>
      rw [List.filter_cons_of_neg (by rw [hkeep]; exact Bool.false_ne_true), decode_cons,
        readField_unknown (h field List.mem_cons_self hkeep), Option.bind_some, hrest]

theorem find_slot {s : Slot R} (hs : s ∈ layout.slots) :
    layout.slots.find? (·.id == s.id) = some s :=
  find?_key layout.nodup hs

theorem readField_write {s : Slot R} (hs : s ∈ layout.slots) (r q : Flagged R) :
    layout.readField r (s.id, s.write q.val) = some (transfer q r s) := by
  simp only [readField, find_slot hs, readSlot, s.read_write, transfer]

/-- **The written members are read one after the other.** -/
theorem decode_encode (r q : Flagged R) :
    layout.decode r (layout.encode q) = some (layout.arrives r q) := by
  have hsub : ∀ s ∈ layout.slots.filter (written q), s ∈ layout.slots := fun s hs =>
    (List.mem_filter.mp hs).1
  rw [encode, arrives]
  generalize layout.slots.filter (written q) = members at hsub
  induction members generalizing r with
  | nil => rfl
  | cons s members ih =>
    rw [List.map_cons, decode_cons, readField_write (hsub s List.mem_cons_self), Option.bind_some,
      List.foldl_cons]
    exact ih _ fun t ht => hsub t (List.mem_cons_of_mem _ ht)

/-- A flag is set afterwards if it was before, or its member was written. -/
theorem arrives_isset (r q : Flagged R) (id : Nat) : (layout.arrives r q).isset id =
    (r.isset id || layout.slots.any fun s => written q s && s.id == id) := by
  rw [arrives, ← List.any_filter]
  generalize layout.slots.filter (written q) = members
  induction members generalizing r with
  | nil => exact (Bool.or_false _).symm
  | cons s members ih =>
    rw [List.foldl_cons, ih, List.any_cons, ← Bool.or_assoc]
    refine congrArg (· || _) ?_
    simp only [transfer, Function.update_apply]
    by_cases h : id = s.id
    · simp [h]
    · simp [h, Ne.symm h]

end Layout

/-! ## The types of members -/

namespace Codec

def bool : Codec Bool where
  write := .bool
  read _ v := match v with
    | .bool b => .done b
    | _ => .skip
  arrives _ b := b
  read_write _ _ := rfl

def i32 : Codec (BitVec 32) where
  write := .i32
  read _ v := match v with
    | .i32 n => .done n
    | _ => .skip
  arrives _ n := n
  read_write _ _ := rfl

def string : Codec Bytes where
  write := .string
  read _ v := match v with
    | .string s => .done s
    | _ => .skip
  arrives _ s := s
  read_write _ _ := rfl

/-- A record inside a record: its members are read into those that are there. -/
def record (layout : Layout R) : Codec (Flagged R) where
  write r := .struct (layout.encode r)
  read r v := match v with
    | .struct fields => match layout.decode r fields with
      | some r => .done r
      | none => .misread
    | _ => .skip
  arrives := layout.arrives
  read_write r q := by simp only [layout.decode_encode]

/-- A record whose flags nobody looks at. -/
def plain (layout : Layout R) : Codec R where
  write r := (record layout).write (fresh r)
  read r v := ((record layout).read (fresh r) v).map (·.val)
  arrives r q := (layout.arrives (fresh r) (fresh q)).val
  read_write r q :=
    congrArg (Reading.map (·.val)) ((record layout).read_write (fresh r) (fresh q))

/-- The elements of a list, each read into a fresh one. -/
def elements (codec : Codec T) (fresh : T) : List Value → Reading (List T)
  | [] => .done []
  | v :: vs => match codec.read fresh v, elements codec fresh vs with
    | .done t, .done ts => .done (t :: ts)
    | _, _ => .misread

theorem elements_write (codec : Codec T) (fresh : T) (ts : List T) :
    codec.elements fresh (ts.map codec.write) = .done (ts.map (codec.arrives fresh)) := by
  induction ts with
  | nil => rfl
  | cons t ts ih => simp only [List.map_cons, elements, codec.read_write, ih]

def list (codec : Codec T) (fresh : T) : Codec (List T) where
  write ts := .list (ts.map codec.write)
  read _ v := match v with
    | .list vs => elements codec fresh vs
    | _ => .skip
  arrives _ ts := ts.map (codec.arrives fresh)
  read_write _ ts := codec.elements_write fresh ts

@[simp] theorem bool_arrives : bool.arrives = fun _ c => c := rfl

@[simp] theorem i32_arrives : i32.arrives = fun _ n => n := rfl

@[simp] theorem string_arrives : string.arrives = fun _ t => t := rfl

@[simp] theorem list_arrives (codec : Codec T) (fresh : T) (ts us : List T) :
    (codec.list fresh).arrives ts us = us.map (codec.arrives fresh) := rfl

end Codec
end Tagged
end Kadpeer.Core
