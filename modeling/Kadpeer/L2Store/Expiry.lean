import Kadpeer.L2Store.DataStore
import Mathlib.Algebra.Order.Ring.Int

/-!
# What the purge removes

`LoadItem` takes an entry for live while `expire_time_ - now` is positive as a
signed word, and for ever if `ttl_` is -1. `DeleteExpiredValues` removes what has
an `expire_time_` above 0 and below `now`. The two agree as long as "never" is
written in both ways together and the differences stay in 31 bits.

They part where `UpdateItem` writes a `ttl_` of -1 with an `expire_time_` that is not 0,
and where `StoreItem` takes a `ttl_` below -1, for which the constructor sets
`expire_time_` to 0.

* `purgeKeeps_iff`: after a run without a permanent update, what the purge at `now`
  removes is not live at `now` exactly when `PurgeOk` holds.
* `noGarbage_of_steps`: in a run that takes no such `ttl_`, what has run out is removed
  by any later purge.
* `purge_counterexample`, `noGarbage_counterexample`: one operation of each kind.
-/
namespace Kadpeer.L2

open Kadpeer.Core

/-! ## Differences of times -/

theorem toInt_sub_pos_iff {expire now : U32} (h : expire.toNat < now.toNat) :
    0 < (expire - now).toInt ↔ expire.toNat + 2 ^ 31 < now.toNat := by
  rw [BitVec.toInt_eq_toNat_cond, BitVec.toNat_sub]
  have := now.isLt
  split <;> omega

theorem toInt_sub_pos {deadline now : Nat} (h : now < deadline) (hd : deadline < now + 2 ^ 31) :
    0 < (BitVec.ofNat 32 deadline - BitVec.ofNat 32 now).toInt := by
  rw [BitVec.toInt_eq_toNat_cond, BitVec.toNat_sub, BitVec.toNat_ofNat, BitVec.toNat_ofNat]
  split <;> omega

namespace DataStore

variable {d d' : DataStore} {e : KeyValueTuple} {now : U32}

theorem deleteExpiredValues_eq (h : ¬ (now = 0 ∧ ∃ e ∈ d.datastore.toList, e.expireTime = 0)) :
    ∃ d', d.deleteExpiredValues now = .ok d' ∧
      ∀ e, e ∈ d'.datastore ↔ e ∈ d.datastore ∧ ¬ (0 < e.expireTime ∧ e.expireTime < now) := by
  have hret : ∃ d', d.deleteExpiredValues now = .ok d' := ⟨_, if_neg h⟩
  obtain ⟨d', hd'⟩ := hret
  exact ⟨d', hd', fun e => mem_deleteExpiredValues hd'⟩

/-! ## Live entries -/

/-- The purge at `now` returns, and what was live then is still returned. -/
def PurgeKeeps (d : DataStore) (now : U32) : Prop :=
  ∃ d', d.deleteExpiredValues now = .ok d' ∧
    ∀ key value, value ∈ (d.loadItem now key).2 → value ∈ (d'.loadItem now key).2

/-- Nothing undeleted ran out more than 2^31 seconds ago, and the clock is not 0 while
an entry has 0 for "never". -/
structure PurgeOk (d : DataStore) (now : U32) : Prop where
  range : ¬ (now = 0 ∧ ∃ e ∈ d.datastore.toList, e.expireTime = 0)
  near : ∀ e ∈ d.datastore, e.delStatus = .notDeleted → 0 < e.expireTime → e.expireTime < now →
    now.toNat ≤ e.expireTime.toNat + 2 ^ 31

/-- A permanent entry has 0 for its expire time. -/
def PermanentZero (d : DataStore) : Prop := ∀ e ∈ d.datastore, e.ttl = -1 → e.expireTime = 0

theorem purgeKeeps_of_purgeOk (hp : PermanentZero d) (h : PurgeOk d now) : PurgeKeeps d now := by
  obtain ⟨d', hd', hmem⟩ := deleteExpiredValues_eq h.range
  refine ⟨d', hd', fun key value hv => ?_⟩
  rw [mem_loadItem] at hv ⊢
  obtain ⟨e, he, hl⟩ := hv
  obtain ⟨hed, hk, hval⟩ := find_eq_some.mp he
  refine ⟨e, find_eq_some.mpr ⟨(hmem e).mpr ⟨hed, ?_⟩, hk, hval⟩, hl⟩
  intro ⟨hpos, hlt⟩
  obtain ⟨htime, hstatus⟩ := KeyValueTuple.live_iff.mp hl
  rcases htime with hpositive | hforever
  · rw [toInt_sub_pos_iff hlt] at hpositive
    have := h.near e hed hstatus hpos hlt
    omega
  · rw [hp e hed hforever] at hpos
    exact absurd hpos (by decide)

theorem purgeOk_of_purgeKeeps (h : PurgeKeeps d now) : PurgeOk d now := by
  obtain ⟨d', hd', hkeep⟩ := h
  have hrange : ¬ (now = 0 ∧ ∃ e ∈ d.datastore.toList, e.expireTime = 0) := by
    intro hr
    rw [deleteExpiredValues, if_pos hr] at hd'
    cases hd'
  refine ⟨hrange, fun e he hstatus hpos hlt => ?_⟩
  by_contra hfar
  have hlive : e.live now = true := KeyValueTuple.live_iff.mpr
    ⟨.inl ((toInt_sub_pos_iff hlt).mpr (not_le.mp hfar)), hstatus⟩
  have hmem := hkeep e.key e.value (mem_loadItem.mpr ⟨e, find_eq_some.mpr ⟨he, rfl, rfl⟩, hlive⟩)
  obtain ⟨e', he', -⟩ := mem_loadItem.mp hmem
  obtain ⟨he', hk, hv⟩ := find_eq_some.mp he'
  obtain ⟨hed, hnot⟩ := (mem_deleteExpiredValues hd').mp he'
  rw [Keyed.eq_of_key_eq hed he (keyValue_eq_iff.mpr ⟨hk, hv⟩)] at hnot
  exact hnot ⟨hpos, hlt⟩

theorem purgeKeeps_iff_of_permanentZero (hp : PermanentZero d) (now : U32) :
    PurgeKeeps d now ↔ PurgeOk d now :=
  ⟨purgeOk_of_purgeKeeps, purgeKeeps_of_purgeOk hp⟩

end DataStore

namespace Timed

open DataStore

variable {s s' : Timed} {l : Nat × Op}

theorem step_eq_some (h : step s l = some s') :
    s.clock ≤ l.1 ∧ s'.clock = l.1 ∧ s.store.apply (clock32 l.1) l.2 = .ok s'.store := by
  unfold step at h
  split at h
  · rename_i hle
    obtain ⟨store, hs, rfl⟩ := Option.map_eq_some_iff.mp h
    refine ⟨hle, rfl, ?_⟩
    cases ha : s.store.apply (clock32 l.1) l.2 with
    | error f => rw [ha] at hs; cases hs
    | ok d =>
      rw [ha] at hs
      cases hs
      rfl
  · cases h

/-- `UpdateItem` makes no entry permanent. -/
def NoPermanentUpdate (s : Timed) (l : Nat × Op) : Prop :=
  match l.2 with
  | .updateItem key oldValue newValue ttl _ =>
    ttl = -1 → ¬ s.store.UpdateAccepts key oldValue newValue
  | _ => True

theorem permanentZero_step (hs : PermanentZero s.store) (hok : s.NoPermanentUpdate l)
    (h : step s l = some s') : PermanentZero s'.store := by
  obtain ⟨-, -, ha⟩ := step_eq_some h
  refine forall_apply (P := fun ttl expire => ttl = -1 → expire = 0) hs ?_ ?_ ha
  · intro key value ttl hashable _ _ hneg
    exact expireAfter_of_neg (by rw [hneg]; decide)
  · intro key value newValue ttl hashable hop hacc hneg
    unfold NoPermanentUpdate at hok
    rw [hop] at hok
    exact absurd hacc (hok hneg)

/-- **The purge keeps what is live**, and when. -/
theorem purgeKeeps_iff {s₀ : Timed} {tr : List ((Nat × Op) × Timed)} (h₀ : system.init s₀)
    (hr : system.Run s₀ tr s) (hok : LTS.Steps NoPermanentUpdate s₀ tr) (now : U32) :
    s.store.PurgeKeeps now ↔ s.store.PurgeOk now := by
  obtain ⟨clock, tRefresh, rfl⟩ := h₀
  refine purgeKeeps_iff_of_permanentZero ?_ now
  refine LTS.inv_of_steps (I := fun s => PermanentZero s.store) ?_ hr ?_ hok
  · exact fun s l s' hs hok h => permanentZero_step hs hok h
  · exact fun e he => absurd he Keyed.not_mem_empty

/-- The value `v` under `k` for 100 seconds from 1000 on. -/
def storeOnce : List (Nat × Op) := [(1000, .storeItem (bytes ['k']) (bytes ['v']) 100 false)]

theorem storeOnce_isSome : (LTS.exec step (start 1000) storeOnce).isSome = true := by decide +kernel

/-- It survives the purge in its 50th second. -/
theorem purgeKeeps_storeOnce :
    (LTS.last (start 1000) ((LTS.exec step (start 1000) storeOnce).get storeOnce_isSome)).store.PurgeKeeps
      1050 := by
  refine (purgeKeeps_iff ⟨1000, 0, rfl⟩ (run_start storeOnce_isSome) ⟨trivial, trivial⟩ 1050).mpr ⟨?_, ?_⟩
  · decide +kernel
  · show ∀ e ∈ (DataStore.datastore _).toList, _
    decide +kernel

/-- Then updated to `w` for ever. -/
def updateForever : List (Nat × Op) :=
  storeOnce ++ [(1000, .updateItem (bytes ['k']) (bytes ['v']) (bytes ['w']) (-1) false)]

theorem updateForever_isSome : (LTS.exec step (start 1000) updateForever).isSome = true := by
  decide +kernel

/-- The permanent value is purged 50 seconds later. -/
theorem purge_counterexample :
    ¬ ∀ (s : Timed) (now : U32), system.Reachable s → s.store.PurgeKeeps now := by
  intro h
  obtain ⟨d', hd', hkeep⟩ := h _ 1050 ⟨_, _, ⟨1000, 0, rfl⟩, run_start updateForever_isSome⟩
  have hin := hkeep (bytes ['k']) (bytes ['w']) (by decide +kernel)
  obtain ⟨e, he, -⟩ := mem_loadItem.mp hin
  obtain ⟨hed, hnot⟩ := (mem_deleteExpiredValues hd').mp (find_eq_some.mp he).1
  have hall : ∀ e ∈ (LTS.last (start 1000) ((LTS.exec step (start 1000) updateForever).get
      updateForever_isSome)).store.datastore.toList, 0 < e.expireTime ∧ e.expireTime < 1050 := by
    decide +kernel
  exact hnot (hall e hed)

/-! ## Garbage -/

/-- What has run out by `t` is removed by the purge at any later `t'`, in 32 bits. -/
def NoGarbage (s : Timed) : Prop :=
  ∀ e ∈ s.store.datastore, e.ttl ≠ -1 → ∀ t t', s.clock ≤ t →
    (e.expireTime - clock32 t).toInt ≤ 0 → t < t' → t' < 2 ^ 32 →
    ∃ d', s.store.deleteExpiredValues (clock32 t') = .ok d' ∧ e ∉ d'.datastore

/-- The clock stays in 32 bits; `StoreItem` takes no time to live below -1 and
`UpdateItem` none that ends at 0 or before. -/
def KeepsDeadlines (s : Timed) (l : Nat × Op) : Prop :=
  l.1 < 2 ^ 32 ∧
    match l.2 with
    | .storeItem key value ttl _ =>
      ttl.toInt < -1 → ¬ s.store.StoreAccepts (clock32 l.1) key value ttl
    | .updateItem key oldValue newValue ttl _ =>
      ttl ≠ -1 → l.1 + ttl.toInt ≤ 0 → ¬ s.store.UpdateAccepts key oldValue newValue
    | _ => True

/-- An entry that is not permanent has a deadline, at most 2^31 seconds from the
last operation. -/
def Deadlines (s : Timed) : Prop :=
  ∀ e ∈ s.store.datastore, e.ttl = -1 ∨ ∃ deadline : Nat, 0 < deadline ∧
    deadline < s.clock + 2 ^ 31 ∧ e.expireTime = clock32 deadline

theorem clock32_add {clock : Nat} {ttl : I32} (h : 0 ≤ clock + ttl.toInt) :
    clock32 clock + ttl = clock32 (clock + ttl.toInt).toNat := by
  have hlt := ttl.isLt
  apply BitVec.eq_of_toNat_eq
  rw [clock32, clock32, BitVec.toNat_add, BitVec.toNat_ofNat, BitVec.toNat_ofNat]
  rw [BitVec.toInt_eq_toNat_cond] at h ⊢
  split at h <;> rename_i hs
  · rw [if_pos hs]
    omega
  · rw [if_neg hs]
    omega

theorem toInt_lt (ttl : I32) : ttl.toInt < 2 ^ 31 := by
  have := BitVec.toInt_lt (x := ttl)
  omega

theorem deadlines_step (hs : Deadlines s) (hok : s.KeepsDeadlines l) (h : step s l = some s') :
    Deadlines s' := by
  obtain ⟨hle, hclock, ha⟩ := step_eq_some h
  obtain ⟨-, hop⟩ := hok
  have hnew : ∀ ttl : I32, 0 < l.1 + ttl.toInt → ∃ deadline : Nat, 0 < deadline ∧
      deadline < s'.clock + 2 ^ 31 ∧ clock32 l.1 + ttl = clock32 deadline := by
    intro ttl hpos
    have := toInt_lt ttl
    exact ⟨_, by omega, by omega, clock32_add (by omega)⟩
  refine forall_apply (P := fun ttl expire => ttl = -1 ∨ ∃ deadline : Nat, 0 < deadline ∧
    deadline < s'.clock + 2 ^ 31 ∧ expire = clock32 deadline) ?_ ?_ ?_ ha
  · intro e he
    rcases hs e he with hperm | ⟨deadline, hpos, hlt, heq⟩
    · exact .inl hperm
    · exact .inr ⟨deadline, hpos, by omega, heq⟩
  · intro key value ttl hashable hl hacc
    rw [hl] at hop
    by_cases hperm : ttl = -1
    · exact .inl hperm
    · have hge : ¬ ttl.toInt < -1 := fun hlt => hop hlt hacc
      have hne : ttl.toInt ≠ -1 := fun heq => hperm (BitVec.eq_of_toInt_eq heq)
      have hzero : ttl.toInt ≠ 0 := fun heq => hacc.2.2.1 (BitVec.eq_of_toInt_eq heq)
      right
      rw [expireAfter_of_nonneg (by omega), BitVec.add_comm]
      exact hnew ttl (by omega)
  · intro key value newValue ttl hashable hl hacc
    rw [hl] at hop
    by_cases hperm : ttl = -1
    · exact .inl hperm
    · exact .inr (hnew ttl (not_le.mp fun hend => hop hperm hend hacc))

theorem noGarbage_of_deadlines (hs : Deadlines s) : NoGarbage s := by
  intro e he hperm t t' hclock hout hlt hlt'
  obtain ⟨deadline, hpos, hnear, heq⟩ := (hs e he).resolve_left hperm
  have hdt : deadline ≤ t := by
    by_contra hgt
    have hleft : 0 < (clock32 deadline - clock32 t).toInt := toInt_sub_pos (by omega) (by omega)
    rw [heq] at hout
    exact absurd hout (not_le.mpr hleft)
  have hnow : (clock32 t').toNat = t' := by
    rw [clock32, BitVec.toNat_ofNat, Nat.mod_eq_of_lt hlt']
  have hexp : e.expireTime.toNat = deadline := by
    rw [heq, clock32, BitVec.toNat_ofNat, Nat.mod_eq_of_lt (by omega)]
  have hrange : ¬ (clock32 t' = 0 ∧ ∃ e ∈ s.store.datastore.toList, e.expireTime = 0) := by
    intro ⟨hz, _⟩
    have hzero : (0 : U32).toNat = 0 := rfl
    rw [hz, hzero] at hnow
    omega
  obtain ⟨d', hd', hmem⟩ := deleteExpiredValues_eq hrange
  refine ⟨d', hd', fun hin => ((hmem e).mp hin).2 ⟨?_, ?_⟩⟩
  · rw [BitVec.lt_def, hexp]
    exact hpos
  · rw [BitVec.lt_def, hexp, hnow]
    omega

/-- **No garbage stays**, while every time to live that is taken ends after 0. -/
theorem noGarbage_of_steps {s₀ : Timed} {tr : List ((Nat × Op) × Timed)} (h₀ : system.init s₀)
    (hr : system.Run s₀ tr s) (hok : LTS.Steps KeepsDeadlines s₀ tr) :
    LTS.States NoGarbage s₀ tr := by
  obtain ⟨clock, tRefresh, rfl⟩ := h₀
  refine LTS.states_of_steps (I := Deadlines) (fun _ hs => noGarbage_of_deadlines hs) ?_ hr ?_ hok
  · exact fun s l s' hs hok h => deadlines_step hs hok h
  · exact fun e he => absurd he Keyed.not_mem_empty

/-- What is stored for 100 seconds leaves no garbage. -/
theorem noGarbage_storeOnce : LTS.States NoGarbage (start 1000)
    ((LTS.exec step (start 1000) storeOnce).get storeOnce_isSome) :=
  noGarbage_of_steps ⟨1000, 0, rfl⟩ (run_start storeOnce_isSome)
    ⟨⟨by decide, fun h => absurd h (by decide)⟩, trivial⟩

/-- The value `v` under `k` for -2 seconds. -/
def storeNegative : List (Nat × Op) := [(1000, .storeItem (bytes ['k']) (bytes ['v']) (-2) false)]

theorem storeNegative_isSome : (LTS.exec step (start 1000) storeNegative).isSome = true := by
  decide +kernel

/-- It is refused at once and stays for ever. -/
theorem noGarbage_counterexample : ¬ ∀ s : Timed, system.Reachable s → s.NoGarbage := by
  intro h
  have hs := h _ ⟨_, _, ⟨1000, 0, rfl⟩, run_start storeNegative_isSome⟩
  have hin : KeyValueTuple.new (bytes ['k']) (bytes ['v']) 1000 0 (-2) false ∈
      (LTS.last (start 1000) ((LTS.exec step (start 1000) storeNegative).get
        storeNegative_isSome)).store.datastore.toList := by decide +kernel
  obtain ⟨d', hd', hout⟩ := hs _ hin (by decide) 1000 2000 (by decide +kernel) (by decide)
    (by decide) (by decide)
  exact hout ((mem_deleteExpiredValues hd').mpr ⟨hin, by decide⟩)

end Timed
end Kadpeer.L2
