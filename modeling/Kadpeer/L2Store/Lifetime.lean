import Kadpeer.L2Store.Expiry

/-!
# How long a write is readable

A write that is reported is `Readable` if its value is loaded at once and then, as long as
the entry is the one that was written, exactly until the time to live has passed.

`StoreItem` refuses a time to live of 0 only, and `UpdateItem` none. One of 0 or below that is
not -1 ends before the write does.

* `readsBack_iff`: a write reads back exactly when its time to live is positive or -1, or
  the store refuses it.
* `readsBack_counterexample`: a time to live of -2.
-/
namespace Kadpeer.L2

open Kadpeer.Core

namespace DataStore

/-- The two operations that write a value. -/
inductive Write
  | store (key value : Bytes) (ttl : I32) (hashable : Bool)
  | update (key oldValue newValue : Bytes) (ttl : I32) (hashable : Bool)

/-- The result and the store at the clock reading `now`. -/
def Write.run (now : U32) (d : DataStore) : Write → Bool × DataStore
  | .store key value ttl hashable => d.storeItem now key value ttl hashable
  | .update key oldValue newValue ttl hashable => d.updateItem now key oldValue newValue ttl hashable

/-- The value under the key, written at `clock`: it is there at once, and as long as `d`'s
entry for the pair is left alone, exactly until the time to live has passed. -/
structure Readable (d : DataStore) (clock : Nat) (key value : Bytes) (ttl : I32) : Prop where
  atOnce : value ∈ (d.loadItem (clock32 clock) key).2
  lasts : ∀ d' : DataStore, d'.find key value = d.find key value →
    ∀ later, clock ≤ later → later < clock + 2 ^ 31 →
      (value ∈ (d'.loadItem (clock32 later) key).2 ↔ ttl = -1 ∨ (later : Int) < clock + ttl.toInt)

/-- If the write is reported, the value is readable and the one it takes the place of is
not. -/
def Write.ReadsBack (clock : Nat) (d : DataStore) (w : Write) : Prop :=
  (w.run (clock32 clock) d).1 = true →
    match w with
    | .store key value ttl _ => Readable (w.run (clock32 clock) d).2 clock key value ttl
    | .update key oldValue newValue ttl _ =>
      Readable (w.run (clock32 clock) d).2 clock key newValue ttl ∧
        (oldValue ≠ newValue → oldValue ∉ ((w.run (clock32 clock) d).2.loadItem (clock32 clock) key).2)

/-- A time to live that is positive or -1, or a pair that the store does not take. -/
def Write.Lasts (d : DataStore) : Write → Prop
  | .store key value ttl _ => ttl = -1 ∨ 0 ≤ ttl.toInt ∨ key = [] ∨ value = [] ∨
      ∃ e, d.find key value = some e ∧ e.delStatus ≠ .notDeleted
  | .update key oldValue newValue ttl _ =>
      ttl = -1 ∨ 0 < ttl.toInt ∨ ¬ d.UpdateAccepts key oldValue newValue

variable {d d' : DataStore} {e old tuple : KeyValueTuple} {key value : Bytes} {ttl : I32}
  {clock : Nat}

/-- Time left, counted from the write. -/
theorem toInt_left (hpos : 0 < ttl.toInt) {later : Nat} (hle : clock ≤ later)
    (hlt : later < clock + 2 ^ 31) :
    (clock32 clock + ttl - clock32 later).toInt = clock + ttl.toInt - later := by
  have hlt' := ttl.isLt
  rw [BitVec.toInt_eq_toNat_cond] at hpos ⊢
  rw [BitVec.toInt_eq_toNat_cond]
  split at hpos
  · rename_i hs
    rw [if_pos hs, BitVec.toNat_sub, BitVec.toNat_add, clock32, clock32, BitVec.toNat_ofNat,
      BitVec.toNat_ofNat]
    split <;> omega
  · omega

theorem readable_of_find (hfind : d.find key value = some e) (hs : e.delStatus = .notDeleted)
    (ht : e.ttl = ttl) (hx : ttl ≠ -1 → 0 < ttl.toInt ∧ e.expireTime = clock32 clock + ttl) :
    Readable d clock key value ttl := by
  have hlive : ∀ later, clock ≤ later → later < clock + 2 ^ 31 →
      (e.live (clock32 later) = true ↔ ttl = -1 ∨ (later : Int) < clock + ttl.toInt) := by
    intro later hle hlt
    rw [KeyValueTuple.live_iff, ht]
    by_cases hperm : ttl = -1
    · simp [hperm, hs]
    · obtain ⟨hpos, hexp⟩ := hx hperm
      rw [hexp, toInt_left hpos hle hlt]
      simp only [hs, and_true, hperm, or_false, false_or]
      omega
  have hload : ∀ d' : DataStore, d'.find key value = d.find key value → ∀ later, clock ≤ later →
      later < clock + 2 ^ 31 → (value ∈ (d'.loadItem (clock32 later) key).2 ↔
        ttl = -1 ∨ (later : Int) < clock + ttl.toInt) := by
    intro d' hsame later hle hlt
    rw [mem_loadItem, hsame, hfind, ← hlive later hle hlt]
    simp
  refine ⟨(hload d rfl clock (le_refl _) (by omega)).mpr ?_, hload⟩
  by_cases hperm : ttl = -1
  · exact .inl hperm
  · have := (hx hperm).1
    exact .inr (by omega)

/-- What is stored for good or for some time. -/
theorem readable_of_stored {d' : DataStore} {old : KeyValueTuple} {hashable : Bool}
    (hput : Puts d old (.new key value (clock32 clock) (ttl + clock32 clock) ttl hashable) d')
    (httl : ttl = -1 ∨ 0 < ttl.toInt) : Readable d' clock key value ttl := by
  refine readable_of_find hput.find_eq rfl rfl fun hperm => ?_
  have hpos := httl.resolve_left hperm
  exact ⟨hpos, (expireAfter_of_nonneg hpos.le).trans (BitVec.add_comm _ _)⟩

/-- The time is over when the write is. -/
theorem not_readable (hperm : ttl ≠ -1) (hneg : ttl.toInt ≤ 0) : ¬ Readable d clock key value ttl := by
  intro h
  rcases (h.lasts d rfl clock (le_refl _) (by omega)).mp h.atOnce with hp | hlt
  · exact hperm hp
  · omega

/-- A negative time to live does not outlive anything. -/
theorem storeAccepts_of_neg {now : U32} (hneg : ttl.toInt < 0) (hperm : ttl ≠ -1) :
    d.StoreAccepts now key value ttl ↔ key ≠ [] ∧ value ≠ [] ∧
      ∀ e, d.find key value = some e → e.delStatus = .notDeleted := by
  unfold StoreAccepts
  rw [expireAfter_of_neg hneg]
  have hz : ttl ≠ 0 := by
    intro hz
    rw [hz] at hneg
    exact absurd hneg (by decide)
  constructor
  · intro ⟨hk, hv, _, hall⟩
    refine ⟨hk, hv, fun e he => ?_⟩
    rcases hall e he with hs | hp | ⟨hlt, _⟩
    · exact hs
    · exact absurd hp hperm
    · exact absurd hlt BitVec.not_lt_zero
  · intro ⟨hk, hv, hall⟩
    exact ⟨hk, hv, hz, fun e he => .inl (hall e he)⟩

theorem store_readsBack_iff {hashable : Bool} :
    (Write.store key value ttl hashable).ReadsBack clock d ↔
      (Write.store key value ttl hashable).Lasts d := by
  simp only [Write.ReadsBack, Write.run, Write.Lasts]
  by_cases hacc : d.StoreAccepts (clock32 clock) key value ttl
  · obtain ⟨hok, hput⟩ : (d.storeItem (clock32 clock) key value ttl hashable).1 = true ∧ _ :=
      storeItem_accepts hacc
    have hz : ttl.toInt ≠ 0 := fun hz => hacc.2.2.1 (BitVec.eq_of_toInt_eq hz)
    constructor
    · intro h
      by_contra hnot
      simp only [not_or, not_le] at hnot
      exact not_readable hnot.1 (by omega) (h hok)
    · intro h _
      apply readable_of_stored hput
      by_cases hperm : ttl = -1
      · exact .inl hperm
      · right
        suffices hneg : ¬ ttl.toInt < 0 by omega
        intro hneg
        obtain ⟨hk, hv, hall⟩ := (storeAccepts_of_neg hneg hperm).mp hacc
        rcases h with h | h | h | h | ⟨e, he, hs⟩
        · exact hperm h
        · exact not_lt.mpr h hneg
        · exact hk h
        · exact hv h
        · exact hs (hall e he)
  · rw [storeItem_refuses hacc]
    refine ⟨fun _ => ?_, fun _ h => nomatch h⟩
    by_contra hnot
    simp only [not_or, not_le] at hnot
    obtain ⟨hperm, hneg, hk, hv, hno⟩ := hnot
    refine hacc ((storeAccepts_of_neg hneg hperm).mpr ⟨hk, hv, fun e he => ?_⟩)
    by_contra hs
    exact hno ⟨e, he, hs⟩

theorem update_readsBack_iff {newValue : Bytes} {hashable : Bool} :
    (Write.update key value newValue ttl hashable).ReadsBack clock d ↔
      (Write.update key value newValue ttl hashable).Lasts d := by
  simp only [Write.ReadsBack, Write.run, Write.Lasts]
  by_cases hacc : d.UpdateAccepts key value newValue
  · obtain ⟨hok, e, hfind, hput⟩ :
        (d.updateItem (clock32 clock) key value newValue ttl hashable).1 = true ∧ _ :=
      updateItem_accepts hacc
    constructor
    · intro h
      by_contra hnot
      simp only [not_or, not_lt] at hnot
      exact not_readable hnot.1 hnot.2.1 (h hok).1
    · intro h _
      refine ⟨readable_of_find hput.find_eq rfl rfl fun hperm => ⟨?_, rfl⟩, fun hne hin => ?_⟩
      · rcases h with h | h | h
        · exact absurd h hperm
        · exact h
        · exact absurd hacc h
      · obtain ⟨hed, hk, hv⟩ := find_eq_some.mp hfind
        have hold := hput.find_old fun hsame => hne (hv.symm.trans (keyValue_eq_iff.mp hsame).2.symm)
        rw [hk, hv] at hold
        rw [mem_loadItem, hold] at hin
        obtain ⟨e', he', -⟩ := hin
        cases he'
  · rw [updateItem_refuses hacc]
    exact ⟨fun _ => .inr (.inr hacc), fun _ h => nomatch h⟩

/-- **A reported write is readable for its lifetime**, and when. -/
theorem readsBack_iff (d : DataStore) (clock : Nat) (w : Write) :
    w.ReadsBack clock d ↔ w.Lasts d := by
  cases w with
  | store key value ttl hashable => exact store_readsBack_iff
  | update key oldValue newValue ttl hashable => exact update_readsBack_iff

/-- A value for -2 seconds, on an empty store. -/
theorem readsBack_counterexample : ¬ ∀ (s : Timed) (clock : Nat) (w : Write),
    Timed.system.Reachable s → s.clock ≤ clock → w.ReadsBack clock s.store := by
  intro h
  have hback := h (Timed.start 1000) 1000 (.store (bytes ['k']) (bytes ['v']) (-2) false)
    ⟨_, [], ⟨1000, 0, rfl⟩, .nil _⟩ (le_refl _) (by decide +kernel)
  have hin := hback.atOnce
  revert hin
  decide +kernel

end DataStore
end Kadpeer.L2
