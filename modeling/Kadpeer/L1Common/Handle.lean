import Kadpeer.Core.Fiber
import Kadpeer.Core.LTS
import Mathlib.Tactic

/-!
# Reference counts (`common/HandleClass.h`)

An `Object` counts the `HandlePtr`s to it in an `unsigned int` and deletes
itself when the count comes down to zero. The state is the heap, with the count
of every object that is alive, and the live handles with what they point to.
Addresses can be used again once an object is deleted. Counting up or down on an
address where no object is alive has no result (`none`).

The operations are those of the class: a handle is constructed from a new
object, from null or from another handle, assigned (itself included), cleared
and destroyed, in any order the program likes (`Allowed`: a new handle is not
live yet, every other one is).

* `exact_iff_fits`: in a run the counts are exact in every state precisely as
  long as no object gets 2^32 handles.
* `step_of_exact`: where they are exact no operation touches the count of an
  object that is gone.
* `count_wraps`: the handle that makes 2^32 sets the count to zero.
-/
namespace Kadpeer.L1

open Kadpeer.Core

/-- `refCount` of the objects that are alive. -/
abbrev Heap (P : Type) := P → Option (BitVec 32)

structure Handles (H P : Type) where
  heap : Heap P
  live : Finset H
  /-- Read at live handles only; `none` is the null pointer. -/
  pointee : H → Option P

namespace Handles

variable {H P : Type} [DecidableEq H] [DecidableEq P]

/-- mirrors src/include/common/HandleClass.h:41-44 -/
def addReference (heap : Heap P) (p : P) : Option (Heap P) :=
  (heap p).map fun refCount => Function.update heap p (some (refCount + 1))

/-- mirrors src/include/common/HandleClass.h:45-48 -/
def removeReference (heap : Heap P) (p : P) : Option (Heap P) :=
  (heap p).map fun refCount =>
    Function.update heap p (if refCount - 1 = 0 then none else some (refCount - 1))

/-- mirrors src/include/common/HandleClass.h:69-71 (`init`) -/
def init (heap : Heap P) : Option P → Option (Heap P)
  | none => some heap
  | some p => addReference heap p

/-- `if(pointee != 0) pointee->removeReference();` -/
def release (heap : Heap P) : Option P → Option (Heap P)
  | none => some heap
  | some p => removeReference heap p

/-- A new handle at `h`; mirrors src/include/common/HandleClass.h:110-122. -/
def construct (s : Handles H P) (h : H) (realPtr : Option P) : Option (Handles H P) := do
  let heap ← init s.heap realPtr
  return ⟨heap, insert h s.live, Function.update s.pointee h realPtr⟩

/-- `operator=` with `rhs.pointee`; mirrors src/include/common/HandleClass.h:130-139. -/
def assign (s : Handles H P) (h : H) (rhs : Option P) : Option (Handles H P) :=
  if s.pointee h ≠ rhs then do
    let heap ← release s.heap (s.pointee h)
    let heap ← init heap rhs
    return ⟨heap, s.live, Function.update s.pointee h rhs⟩
  else some s

/-- mirrors src/include/common/HandleClass.h:124-128 (`~HandlePtr`) -/
def destroy (s : Handles H P) (h : H) : Option (Handles H P) := do
  let heap ← release s.heap (s.pointee h)
  return ⟨heap, s.live.erase h, s.pointee⟩

inductive Op (H P : Type)
  /-- `HandlePtr<T> h(new T)`, the object at address `p`. -/
  | make (h : H) (p : P)
  /-- `HandlePtr<T> h` -/
  | null (h : H)
  /-- `HandlePtr<T> h(rhs)` -/
  | copy (h rhs : H)
  /-- `h = rhs` -/
  | assign (h rhs : H)
  /-- `h.clear()`: `h = HandlePtr<T>(0)`, and a null handle counts nowhere. -/
  | clear (h : H)
  | destroy (h : H)

/-- What a program can do: handles begin where none is, objects where none is alive. -/
def Allowed (s : Handles H P) : Op H P → Prop
  | .make h p => h ∉ s.live ∧ s.heap p = none
  | .null h => h ∉ s.live
  | .copy h rhs => h ∉ s.live ∧ rhs ∈ s.live
  | .assign h rhs => h ∈ s.live ∧ rhs ∈ s.live
  | .clear h => h ∈ s.live
  | .destroy h => h ∈ s.live

/-- `Object::Object` sets the count to zero. -/
def step (s : Handles H P) : Op H P → Option (Handles H P)
  | .make h p => construct { s with heap := Function.update s.heap p (some 0) } h (some p)
  | .null h => construct s h none
  | .copy h rhs => construct s h (s.pointee rhs)
  | .assign h rhs => s.assign h (s.pointee rhs)
  | .clear h => s.assign h none
  | .destroy h => s.destroy h

def start : Handles H P := ⟨fun _ => none, ∅, fun _ => none⟩

def program (H P : Type) [DecidableEq H] [DecidableEq P] : LTS (Handles H P) (Op H P) where
  init s := s = start
  step s op s' := Allowed s op ∧ step s op = some s'

/-- The number of live handles to the object at `p`. -/
def handles (s : Handles H P) (p : P) : Nat := fiber s.live s.pointee (some p)

/-- The counts are the numbers of handles, no object is gone that a handle points to, and
none is left that no handle points to. -/
structure Exact (s : Handles H P) : Prop where
  counted : ∀ p refCount, s.heap p = some refCount → refCount.toNat = s.handles p
  kept : ∀ h ∈ s.live, ∀ p, s.pointee h = some p → s.heap p ≠ none
  deleted : ∀ p, s.handles p = 0 → s.heap p = none

/-- The object that gets a handle more. -/
def acquires (s : Handles H P) : Op H P → Option P
  | .copy _ rhs => s.pointee rhs
  | .assign h rhs => if s.pointee h ≠ s.pointee rhs then s.pointee rhs else none
  | _ => none

/-- No object gets as many handles as the count has values. -/
def Fits (s : Handles H P) (op : Op H P) : Prop :=
  ∀ p, acquires s op = some p → s.handles p + 1 < 2 ^ 32

/-! ## The heap that belongs to the handles -/

/-- The heap entry of an object with `n` handles. -/
def entry (n : Nat) : Option (BitVec 32) := if n = 0 then none else some (BitVec.ofNat 32 n)

/-- The heap of objects with `k p` handles each. -/
def Counts (heap : Heap P) (k : P → Nat) : Prop := ∀ p, k p < 2 ^ 32 ∧ heap p = entry (k p)

omit [DecidableEq H] in
theorem handles_eq_zero {s : Handles H P} {p : P}
    (hkept : ∀ h ∈ s.live, ∀ p, s.pointee h = some p → s.heap p ≠ none) (hp : s.heap p = none) :
    s.handles p = 0 := by
  by_contra hne
  obtain ⟨a, ha, hap⟩ := fiber_pos.mp (Nat.pos_of_ne_zero hne)
  exact hkept a ha p hap hp

omit [DecidableEq H] in
theorem counts_iff_exact {s : Handles H P} : Counts s.heap s.handles ↔ Exact s := by
  constructor
  · intro h
    refine ⟨fun p refCount hp => ?_, fun a ha p hap hp => ?_, fun p hp => ?_⟩
    · rw [(h p).2, entry] at hp
      split at hp
      · cases hp
      · rw [← Option.some.inj hp, BitVec.toNat_ofNat, Nat.mod_eq_of_lt (h p).1]
    · have hpos : 0 < s.handles p := fiber_pos.mpr ⟨a, ha, hap⟩
      rw [(h p).2, entry, if_neg (by omega)] at hp
      cases hp
    · rw [(h p).2, hp]
      rfl
  · intro h p
    cases hp : s.heap p with
    | none =>
      rw [handles_eq_zero h.kept hp]
      exact ⟨by decide, rfl⟩
    | some refCount =>
      have hval := h.counted p refCount hp
      have hne : s.handles p ≠ 0 := by
        intro hzero
        rw [h.deleted p hzero] at hp
        cases hp
      refine ⟨hval ▸ refCount.isLt, ?_⟩
      rw [entry, if_neg hne, ← hval, BitVec.ofNat_toNat, BitVec.setWidth_eq]

omit [DecidableEq H] in
theorem exact_of_counts {s : Handles H P} {k : P → Nat} (h : Counts s.heap k)
    (hk : ∀ p, k p = s.handles p) : Exact s := by
  obtain rfl : k = s.handles := funext hk
  exact counts_iff_exact.mp h

theorem entry_eq_some {n : Nat} {refCount : BitVec 32} (h : entry n = some refCount) :
    n ≠ 0 ∧ refCount = BitVec.ofNat 32 n := by
  rw [entry] at h
  split at h
  · cases h
  · rename_i hn
    exact ⟨hn, (Option.some.inj h).symm⟩

theorem entry_succ (n : Nat) : entry (n + 1) = some (BitVec.ofNat 32 n + 1) := by
  rw [entry, if_neg n.succ_ne_zero, BitVec.ofNat_add]
  rfl

theorem entry_pred {n : Nat} (h0 : n ≠ 0) (h : n < 2 ^ 32) :
    entry (n - 1) =
      if BitVec.ofNat 32 n - 1 = 0 then none else some (BitVec.ofNat 32 n - 1) := by
  obtain ⟨m, rfl⟩ := Nat.exists_eq_succ_of_ne_zero h0
  have hpred : BitVec.ofNat 32 (m + 1) - 1 = BitVec.ofNat 32 m := by
    rw [BitVec.ofNat_add]
    exact BitVec.add_sub_cancel _ _
  have hzero : BitVec.ofNat 32 m = 0 ↔ m = 0 := by
    rw [← BitVec.toNat_inj, BitVec.toNat_ofNat, Nat.mod_eq_of_lt (by omega)]
    rfl
  rw [Nat.succ_eq_add_one, Nat.add_sub_cancel, hpred, entry]
  simp only [hzero]

variable {heap heap' : Heap P} {k k' : P → Nat} {q : Option P}

theorem Counts.update {p : P} {n : Nat} (h : Counts heap k) (hn : n < 2 ^ 32) (hp : k' p = n)
    (hother : ∀ p', p ≠ p' → k' p' = k p') : Counts (Function.update heap p (entry n)) k' := by
  intro p'
  by_cases hpp : p = p'
  · subst hpp
    rw [Function.update_self, hp]
    exact ⟨hn, rfl⟩
  · rw [Function.update_of_ne (Ne.symm hpp), hother p' hpp]
    exact h p'

theorem exists_init (h : ∀ p, q = some p → heap p ≠ none) : ∃ heap', init heap q = some heap' := by
  cases q with
  | none => exact ⟨heap, rfl⟩
  | some p =>
    obtain ⟨refCount, hp⟩ := Option.ne_none_iff_exists'.mp (h p rfl)
    exact ⟨_, by rw [init, addReference, hp]; rfl⟩

theorem exists_release (h : ∀ p, q = some p → heap p ≠ none) :
    ∃ heap', release heap q = some heap' := by
  cases q with
  | none => exact ⟨heap, rfl⟩
  | some p =>
    obtain ⟨refCount, hp⟩ := Option.ne_none_iff_exists'.mp (h p rfl)
    exact ⟨_, by rw [release, removeReference, hp]; rfl⟩

theorem Counts.init (h : Counts heap k) (hi : init heap q = some heap')
    (hfit : ∀ p, q = some p → k p + 1 < 2 ^ 32) :
    Counts heap' fun p => k p + if q = some p then 1 else 0 := by
  cases q with
  | none =>
    rw [← Option.some.inj hi]
    simpa using h
  | some p =>
    obtain ⟨refCount, hp, rfl⟩ := Option.map_eq_some_iff.mp hi
    obtain ⟨-, rfl⟩ := entry_eq_some ((h p).2.symm.trans hp)
    rw [← entry_succ]
    refine h.update (hfit p rfl) (by rw [if_pos rfl]) fun p' hpp => ?_
    rw [if_neg fun he => hpp (Option.some.inj he), Nat.add_zero]

theorem Counts.release (h : Counts heap k) (hi : release heap q = some heap') :
    Counts heap' fun p => k p - if q = some p then 1 else 0 := by
  cases q with
  | none =>
    rw [← Option.some.inj hi]
    simpa using h
  | some p =>
    obtain ⟨refCount, hp, rfl⟩ := Option.map_eq_some_iff.mp hi
    obtain ⟨hne, rfl⟩ := entry_eq_some ((h p).2.symm.trans hp)
    rw [← entry_pred hne (h p).1]
    refine h.update (Nat.lt_of_le_of_lt (Nat.sub_le _ _) (h p).1) (by rw [if_pos rfl])
      fun p' hpp => ?_
    rw [if_neg fun he => hpp (Option.some.inj he), Nat.sub_zero]

/-! ## One operation -/

variable {s s' : Handles H P} {h : H} {op : Op H P}

theorem construct_eq {realPtr : Option P} :
    construct s h realPtr = some s' ↔ ∃ heap, init s.heap realPtr = some heap ∧
      s' = ⟨heap, insert h s.live, Function.update s.pointee h realPtr⟩ := by
  simp only [construct, Option.bind_eq_bind, Option.bind_eq_some_iff, Option.pure_def,
    Option.some.injEq, eq_comm (a := s')]

theorem assign_eq {rhs : Option P} (hne : s.pointee h ≠ rhs) :
    s.assign h rhs = some s' ↔ ∃ heap, release s.heap (s.pointee h) = some heap ∧
      ∃ heap', init heap rhs = some heap' ∧
        s' = ⟨heap', s.live, Function.update s.pointee h rhs⟩ := by
  simp only [assign, if_pos hne, Option.bind_eq_bind, Option.bind_eq_some_iff, Option.pure_def,
    Option.some.injEq, eq_comm (a := s')]

theorem destroy_eq :
    s.destroy h = some s' ↔ ∃ heap, release s.heap (s.pointee h) = some heap ∧
      s' = ⟨heap, s.live.erase h, s.pointee⟩ := by
  simp only [destroy, Option.bind_eq_bind, Option.bind_eq_some_iff, Option.pure_def,
    Option.some.injEq, eq_comm (a := s')]

theorem construct_exact {realPtr : Option P} (hs : Exact s) (hh : h ∉ s.live)
    (hfit : ∀ p, realPtr = some p → s.handles p + 1 < 2 ^ 32)
    (hst : construct s h realPtr = some s') : Exact s' := by
  obtain ⟨heap, hi, rfl⟩ := construct_eq.mp hst
  exact exact_of_counts ((counts_iff_exact.mpr hs).init hi hfit)
    fun p => (fiber_insert hh s.pointee realPtr (some p)).symm

/-- The new object comes to life with a count of zero, and its first handle makes it one. -/
theorem make_exact {p : P} (hs : Exact s) (hh : h ∉ s.live) (hp : s.heap p = none)
    (hst : step s (.make h p) = some s') : Exact s' := by
  obtain ⟨heap, hi, rfl⟩ := construct_eq.mp hst
  have hheap : heap = Function.update s.heap p (some 1) := by
    simp only [init, addReference, Function.update_self, Option.map_some, Option.some.injEq,
      Function.update_idem] at hi
    exact hi.symm
  have hcounts : Counts heap fun p' => s.handles p' + if some p = some p' then 1 else 0 := by
    rw [hheap, show some 1 = entry 1 from rfl]
    refine (counts_iff_exact.mpr hs).update (by decide) ?_ fun p' hpp => ?_
    · rw [handles_eq_zero hs.kept hp, if_pos rfl]
    · rw [if_neg fun he => hpp (Option.some.inj he), Nat.add_zero]
  exact exact_of_counts hcounts fun p' => (fiber_insert hh s.pointee (some p) (some p')).symm

/-- The object let go has a handle less, the object taken one more. -/
theorem assign_exact {rhs : Option P} (hs : Exact s) (hh : h ∈ s.live)
    (hfit : ∀ p, s.pointee h ≠ rhs → rhs = some p → s.handles p + 1 < 2 ^ 32)
    (hst : s.assign h rhs = some s') : Exact s' := by
  by_cases hne : s.pointee h = rhs
  · rw [assign, if_neg (not_not.mpr hne), Option.some.injEq] at hst
    exact hst ▸ hs
  obtain ⟨heap, hr, heap', hi, rfl⟩ := (assign_eq hne).mp hst
  have hcounts := ((counts_iff_exact.mpr hs).release hr).init hi fun p hp =>
    Nat.lt_of_le_of_lt (Nat.succ_le_succ (Nat.sub_le _ _)) (hfit p hne hp)
  refine exact_of_counts hcounts fun p => ?_
  have hupdate := fiber_update_add hh s.pointee rhs (some p)
  have hpos : s.pointee h = some p → 0 < s.handles p := fun hp => fiber_pos.mpr ⟨h, hh, hp⟩
  simp only [handles] at hpos ⊢
  by_cases hp : s.pointee h = some p
  · have := hpos hp
    simp only [hp, if_true] at hupdate ⊢
    omega
  · simp only [hp, if_false] at hupdate ⊢
    omega

theorem destroy_exact (hs : Exact s) (hh : h ∈ s.live) (hst : s.destroy h = some s') : Exact s' := by
  obtain ⟨heap, hr, rfl⟩ := destroy_eq.mp hst
  refine exact_of_counts ((counts_iff_exact.mpr hs).release hr) fun p => ?_
  have herase := fiber_erase_add hh s.pointee (some p)
  simp only [handles]
  omega

theorem exact_step (hs : Exact s) (ha : Allowed s op) (hf : Fits s op) (hst : step s op = some s') :
    Exact s' := by
  cases op with
  | make h p => exact make_exact hs ha.1 ha.2 hst
  | null h => exact construct_exact hs ha (by intro p hp; cases hp) hst
  | copy h rhs => exact construct_exact hs ha.1 hf hst
  | assign h rhs =>
    exact assign_exact hs ha.1 (fun p hne hp => hf p (by rw [acquires, if_pos hne, hp])) hst
  | clear h =>
    have hst' : s.assign h none = some s' := hst
    exact assign_exact hs ha (by intro p _ hp; cases hp) hst'
  | destroy h => exact destroy_exact hs ha hst

/-- **No operation touches the count of an object that is gone** where the counts are
exact. -/
theorem step_of_exact (hs : Exact s) (ha : Allowed s op) : ∃ s', step s op = some s' := by
  have hassign : ∀ {h : H} {rhs : Option P}, h ∈ s.live → (∀ p, rhs = some p → s.heap p ≠ none) →
      ∃ s', s.assign h rhs = some s' := by
    intro h rhs hh hrhs
    by_cases hne : s.pointee h = rhs
    · exact ⟨s, if_neg (not_not.mpr hne)⟩
    obtain ⟨heap, hr⟩ := exists_release (hs.kept h hh)
    have hcounts := (counts_iff_exact.mpr hs).release hr
    have hkept : ∀ p, rhs = some p → heap p ≠ none := by
      intro p hp
      have hold := hrhs p hp
      have hnew := (hcounts p).2
      have hother : s.pointee h ≠ some p := fun he => hne (he.trans hp.symm)
      rw [(counts_iff_exact.mpr hs p).2] at hold
      simp only [if_neg hother, Nat.sub_zero] at hnew
      rwa [hnew]
    obtain ⟨heap', hi⟩ := exists_init hkept
    exact ⟨_, (assign_eq hne).mpr ⟨heap, hr, heap', hi, rfl⟩⟩
  cases op with
  | make h p =>
    have hnew : ∀ p', some p = some p' → Function.update s.heap p (some 0) p' ≠ none := by
      intro p' hp
      rw [← Option.some.inj hp, Function.update_self]
      simp
    obtain ⟨heap, hi⟩ := exists_init hnew
    exact ⟨_, construct_eq.mpr ⟨heap, hi, rfl⟩⟩
  | null h => exact ⟨_, construct_eq.mpr ⟨s.heap, rfl, rfl⟩⟩
  | copy h rhs =>
    obtain ⟨heap, hi⟩ := exists_init (hs.kept rhs ha.2)
    exact ⟨_, construct_eq.mpr ⟨heap, hi, rfl⟩⟩
  | assign h rhs => exact hassign ha.1 (hs.kept rhs ha.2)
  | clear h => exact hassign ha (by intro p hp; cases hp)
  | destroy h =>
    obtain ⟨heap, hr⟩ := exists_release (hs.kept h ha)
    exact ⟨_, destroy_eq.mpr ⟨heap, hr, rfl⟩⟩

/-! ## Runs -/

omit [DecidableEq H] in
theorem exact_start : Exact (start : Handles H P) := by
  refine counts_iff_exact.mp fun p => ?_
  have hzero : (start : Handles H P).handles p = 0 := fiber_empty _ _
  rw [hzero]
  exact ⟨by decide, rfl⟩

/-- The object that is acquired has one handle more. -/
theorem handles_acquired {p : P} (ha : Allowed s op) (hst : step s op = some s')
    (hp : acquires s op = some p) : s'.handles p = s.handles p + 1 := by
  cases op with
  | copy h rhs =>
    obtain ⟨heap, -, rfl⟩ := construct_eq.mp hst
    have hcount := fiber_insert ha.1 s.pointee (s.pointee rhs) (some p)
    have hrhs : s.pointee rhs = some p := hp
    rw [if_pos hrhs] at hcount
    exact hcount
  | assign h rhs =>
    rw [acquires] at hp
    split at hp
    · rename_i hne
      obtain ⟨heap, -, heap', -, rfl⟩ := (assign_eq hne).mp hst
      have hcount := fiber_update_add ha.1 s.pointee (s.pointee rhs) (some p)
      rw [if_pos hp, if_neg (hp ▸ hne), Nat.add_zero] at hcount
      exact hcount
    · cases hp
  | make => cases hp
  | null => cases hp
  | clear => cases hp
  | destroy => cases hp

/-- The count has no room for 2^32 handles. -/
theorem not_exact_of_not_fits (ha : Allowed s op) (hf : ¬ Fits s op) (hst : step s op = some s') :
    ¬ Exact s' := by
  intro hs
  rw [Fits, not_forall] at hf
  obtain ⟨p, hp⟩ := hf
  rw [Classical.not_imp] at hp
  have hlt := (counts_iff_exact.mpr hs p).1
  rw [handles_acquired ha hst hp.1] at hlt
  exact hp.2 hlt

/-- **The counts are exact in every state of a run precisely as long as no object gets 2^32
handles**; no object is then deleted under a handle or twice. -/
theorem exact_iff_fits {tr : List (Op H P × Handles H P)} (hr : (program H P).Run start tr s) :
    (LTS.States Exact start tr ↔ LTS.Steps Fits start tr) ∧
      (LTS.Steps Fits start tr → ∀ op, Allowed s op → ∃ s', step s op = some s') := by
  have hkeep : ∀ (s : Handles H P) (op : Op H P) (s' : Handles H P), Exact s → Fits s op →
      (program H P).step s op s' → Exact s' := fun s op s' hs hf hst => exact_step hs hst.1 hf hst.2
  refine ⟨LTS.states_iff_steps (fun _ hs => hs) hkeep
    (fun s op s' _ hf hst => not_exact_of_not_fits hst.1 hf hst.2) hr exact_start,
    fun hfit op ha => step_of_exact (LTS.inv_of_steps hkeep hr exact_start hfit) ha⟩

omit [DecidableEq H] in
theorem fits_of_card (hc : s.live.card + 1 < 2 ^ 32) (op : Op H P) : Fits s op := fun _ _ =>
  Nat.lt_of_le_of_lt (Nat.succ_le_succ (Finset.card_filter_le _ _)) hc

/-- A new object and a second handle to it. -/
theorem exact_iff_fits_copy :
    ∃ (tr : List (Op Nat Nat × Handles Nat Nat)) (s : Handles Nat Nat),
      (program Nat Nat).Run start tr s ∧ s.live = {1, 0} ∧ LTS.States Exact start tr := by
  have ha₁ : Allowed (start : Handles Nat Nat) (.make 0 0) := ⟨Finset.notMem_empty 0, rfl⟩
  have hf₁ : Fits (start : Handles Nat Nat) (.make 0 0) := fits_of_card (by decide) _
  obtain ⟨s₁, h₁⟩ := step_of_exact exact_start ha₁
  have hs₁ := exact_step exact_start ha₁ hf₁ h₁
  obtain ⟨heap₁, -, rfl⟩ := construct_eq.mp h₁
  have ha₂ : Allowed (⟨heap₁, insert 0 ∅, Function.update (fun _ => none) 0 (some 0)⟩ :
      Handles Nat Nat) (.copy 1 0) :=
    ⟨(by decide : (1 : Nat) ∉ insert 0 (∅ : Finset Nat)), (by decide : (0 : Nat) ∈ insert 0 (∅ : Finset Nat))⟩
  have hcard : (insert 0 (∅ : Finset Nat)).card + 1 < 2 ^ 32 := by decide
  obtain ⟨s₂, h₂⟩ := step_of_exact hs₁ ha₂
  obtain ⟨heap₂, -, rfl⟩ := construct_eq.mp h₂
  have hrun := LTS.Run.cons (M := program Nat Nat) ⟨ha₁, h₁⟩ (.cons ⟨ha₂, h₂⟩ (.nil _))
  exact ⟨_, _, hrun, rfl, (exact_iff_fits hrun).1.mpr ⟨hf₁, fits_of_card hcard _, trivial⟩⟩

/-! ## 2^32 handles -/

/-- A new object at address 0 and `n` copies of its handle. -/
theorem exists_copies (n : Nat) : ∃ (tr : List (Op Nat Nat × Handles Nat Nat)) (s : Handles Nat Nat),
    (program Nat Nat).Run start tr s ∧ s.heap 0 = some (BitVec.ofNat 32 (n + 1)) ∧
      s.live = Finset.range (n + 1) ∧ ∀ h ∈ s.live, s.pointee h = some 0 := by
  induction n with
  | zero =>
    have ha : Allowed (start : Handles Nat Nat) (.make 0 0) := ⟨Finset.notMem_empty 0, rfl⟩
    refine ⟨[(.make 0 0, _)], _, .cons ⟨ha, rfl⟩ (.nil _), rfl, rfl, fun h hh => ?_⟩
    have hh0 : h = 0 := by simpa [start] using hh
    rw [hh0]
    rfl
  | succ n ih =>
    obtain ⟨tr, s, hrun, hheap, hlive, hall⟩ := ih
    have h0 : 0 ∈ s.live := by simp [hlive]
    have hnew : n + 1 ∉ s.live := by simp [hlive]
    have hstep : step s (.copy (n + 1) 0) =
        some ⟨Function.update s.heap 0 (some (BitVec.ofNat 32 (n + 1) + 1)), insert (n + 1) s.live,
          Function.update s.pointee (n + 1) (some 0)⟩ := by
      rw [step, hall 0 h0, construct_eq]
      exact ⟨_, by rw [init, addReference, hheap]; rfl, rfl⟩
    have ha : Allowed s (.copy (n + 1) 0) := ⟨hnew, h0⟩
    refine ⟨_, _, hrun.snoc ⟨ha, hstep⟩, ?_, ?_, ?_⟩
    · simp only [Function.update_self]
      rw [BitVec.ofNat_add (n + 1) 1]
      rfl
    · simp only [hlive]
      exact Finset.range_add_one.symm
    · intro h hh
      rcases Finset.mem_insert.mp hh with rfl | hh
      · exact Function.update_self ..
      · have hne : h ≠ n + 1 := fun he => hnew (he ▸ hh)
        exact (Function.update_of_ne hne _ _).trans (hall h hh)

/-- **The handle that makes 2^32 sets the count to zero.** -/
theorem count_wraps : ∃ (tr : List (Op Nat Nat × Handles Nat Nat)) (s : Handles Nat Nat),
    (program Nat Nat).Run start tr s ∧ s.handles 0 = 2 ^ 32 ∧ s.heap 0 = some 0 := by
  obtain ⟨tr, s, hrun, hheap, hlive, hall⟩ := exists_copies (2 ^ 32 - 1)
  refine ⟨tr, s, hrun, ?_, ?_⟩
  · rw [handles, fiber_eq_card hall, hlive, Finset.card_range]
    exact Nat.sub_add_cancel (by decide)
  · rw [hheap]
    rfl

end Handles
end Kadpeer.L1
