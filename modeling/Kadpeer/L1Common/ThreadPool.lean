import Kadpeer.Core.LTS
import Mathlib.Algebra.BigOperators.Fin
import Mathlib.Tactic

/-!
# The thread pool (`common/TThreadPool.hh`, `common/TThreadPool.cpp`)

`n` workers and any number of calling threads share a list of idle workers
under `_idle_cond`. A step is what one thread does between two points where
another can come in: a critical section, a call of the job, an unprotected
read. Every order of steps is a run. A thread in `wait` sleeps until a `signal`
picks it or, as POSIX allows, for no reason at all.

A job's `_sync_mutex` is locked by the caller and unlocked by the worker; it is
a flag here. What `delete _job` frees is not modelled. `submitted` and `ran` are
not fields of the class: they log `run_job` and the calls of `TJob::run`.
-/
namespace Kadpeer.L1

open Kadpeer.Core

/-- The arguments of `TThreadPool::run`; `none` is a null `ptr`. -/
structure Task (J P : Type) where
  job : J
  ptr : Option P
  del : Bool
deriving DecidableEq

namespace ThreadPool

/-! ## A worker -/

/-- Where a worker is in `TPoolThr::run`.
mirrors src/src/common/TThreadPool.cpp:35-67, src/src/common/TThread.cpp:15-26 -/
inductive Place
  /-- `_del_mutex.lock()` -/
  | start
  /-- `while ( ! _end )` -/
  | test
  | appendIdle
  /-- `while (( _job == NULL ) && ! _end )`, under `_work_cond` -/
  | await
  /-- `if ( _job != NULL )` -/
  | check
  /-- `_job->run( _data_ptr )` -/
  | runJob
  | unlockJob
  /-- `if ( _del_job ) delete _job` -/
  | deleteJob
  | clear
  /-- `_del_mutex.unlock()` -/
  | finish
  /-- `reset_running()`, after `run` has returned -/
  | returned
  | dead
deriving DecidableEq, Repr

/-- mirrors src/src/common/TThreadPool.cpp:16-33 (`class TPoolThr`) -/
structure Worker (J P : Type) where
  place : Place
  job : Option J
  dataPtr : Option P
  delJob : Bool
  end_ : Bool
  delMutex : Bool
  /-- Asleep in `_work_cond.wait()`. -/
  asleep : Bool
deriving DecidableEq

variable {J P : Type}

namespace Worker

/-- A thread that was created and has not begun. -/
def create : Worker J P := ⟨.start, none, none, false, false, false, false⟩

/-- What a worker does that touches nothing but its own fields. -/
def next (w : Worker J P) : Option (Worker J P) :=
  if w.asleep then none
  else match w.place with
    | .start => if w.delMutex then none else some { w with place := .test, delMutex := true }
    | .test => some { w with place := if w.end_ then .finish else .appendIdle }
    | .await =>
      some (if w.job.isNone && !w.end_ then { w with asleep := true } else { w with place := .check })
    | .check => some { w with place := if w.job.isSome then .runJob else .test }
    | .deleteJob => some { w with place := .clear }
    | .clear => some { w with job := none, dataPtr := none, place := .test }
    | .finish => some { w with delMutex := false, place := .returned }
    | .returned => some { w with place := .dead }
    | .appendIdle => none
    | .runJob => none
    | .unlockJob => none
    | .dead => none

/-- mirrors src/src/common/TThreadPool.cpp:74-84 -/
def runJob (w : Worker J P) (task : Task J P) : Worker J P :=
  { w with job := some task.job, dataPtr := task.ptr, delJob := task.del, asleep := false }

/-- mirrors src/src/common/TThreadPool.cpp:93-103 -/
def quit (w : Worker J P) : Worker J P :=
  { w with end_ := true, job := none, dataPtr := none, asleep := false }

/-- The task in the fields. -/
def task (w : Worker J P) : Option (Task J P) := w.job.map fun j => ⟨j, w.dataPtr, w.delJob⟩

/-- Not begun, on its way to the list, or with a job. -/
def Away (w : Worker J P) : Prop :=
  w.asleep = false ∧ w.end_ = false ∧
    (w.job = none ∧ (w.place = .start ∨ w.place = .test ∨ w.place = .appendIdle) ∨
      w.job.isSome = true ∧ (w.place = .await ∨ w.place = .check ∨ w.place = .runJob ∨
        w.place = .unlockJob ∨ w.place = .deleteJob ∨ w.place = .clear))

/-- Before or in `_work_cond.wait()`. -/
def Resting (w : Worker J P) : Prop := w.place = .await ∧ w.job = none ∧ w.end_ = false

/-- On its way out. -/
def Ended (w : Worker J P) : Prop :=
  w.asleep = false ∧ w.end_ = true ∧ w.job = none ∧
    (w.place = .await ∨ w.place = .check ∨ w.place = .test ∨ w.place = .finish ∨
      w.place = .returned ∨ w.place = .dead)

variable {w w' : Worker J P}

theorem next_away (h : w.Away) (hn : w.next = some w') : w'.Away := by
  obtain ⟨hs, he, h⟩ := h
  unfold next at hn
  rw [hs] at hn
  cases hp : w.place <;> cases hj : w.job <;> simp only [hp, hj] at hn h <;> grind [Away]

theorem next_end (hn : w.next = some w') : w'.end_ = w.end_ := by
  unfold next at hn
  split at hn
  · cases hn
  · cases hp : w.place <;> simp only [hp] at hn <;> grind

theorem next_resting (h : w.Resting) (hn : w.next = some w') : w'.Resting := by
  obtain ⟨hp, hj, he⟩ := h
  simp only [next, hp, hj, he] at hn
  grind [Resting]

theorem next_ended (h : w.Ended) (hn : w.next = some w') : w'.Ended := by
  obtain ⟨hs, he, hj, h⟩ := h
  unfold next at hn
  rw [hs] at hn
  cases hp : w.place <;> simp only [hp] at hn h <;> grind [Ended]

end Worker

/-! ## A calling thread -/

/-- Where a calling thread is. -/
inductive Caller (n : Nat) (J P : Type)
  /-- In no call. -/
  | out
  | getIdle (task : Task J P)
  /-- `job->lock()` in `run`, with the worker `get_idle` returned. -/
  | lockJob (t : Fin n) (task : Task J P)
  | runJob (t : Fin n) (task : Task J P)
  /-- `job->lock()` in `sync` -/
  | syncLock (j : J)
  | syncUnlock (j : J)
  | syncAll
  /-- `sync_all()` in the destructor -/
  | destroy
  /-- The destructor's first loop, before `_threads[i]->quit()`. -/
  | quit (i : Nat)
  /-- Its second, before `_threads[i]->del_mutex().lock()`. -/
  | reap (i : Nat)
  /-- The pool is gone. -/
  | destroyed
deriving DecidableEq

inductive Op (J P : Type)
  | run (task : Task J P)
  | sync (j : J)
  | syncAll
  | destroy

/-- Where a call begins. -/
def Op.enter {n : Nat} : Op J P → Caller n J P
  | .run task => .getIdle task
  | .sync j => .syncLock j
  | .syncAll => .syncAll
  | .destroy => .destroy

/-- In a call other than the destructor. -/
def Caller.calling {n : Nat} : Caller n J P → Bool
  | .getIdle _ => true
  | .lockJob _ _ => true
  | .runJob _ _ => true
  | .syncLock _ => true
  | .syncUnlock _ => true
  | .syncAll => true
  | _ => false

/-- In the destructor. -/
def Caller.destroying {n : Nat} : Caller n J P → Bool
  | .destroy => true
  | .quit _ => true
  | .reap _ => true
  | .destroyed => true
  | _ => false

/-- The worker a caller has taken off the list and not yet given its job. -/
def Caller.held {n : Nat} : Caller n J P → Option (Fin n)
  | .lockJob t _ => some t
  | .runJob t _ => some t
  | _ => none

/-- Past the destructor's `sync_all`. -/
def Caller.closing {n : Nat} : Caller n J P → Bool
  | .quit _ => true
  | .reap _ => true
  | .destroyed => true
  | _ => false

theorem Caller.not_destroying_of_calling {n : Nat} {p : Caller n J P} (h : p.calling = true) :
    p.destroying = false := by
  cases p <;> first | rfl | cases h

theorem Caller.destroying_of_closing {n : Nat} {p : Caller n J P} (h : p.closing = true) :
    p.destroying = true := by
  cases p <;> first | rfl | cases h

end ThreadPool

/-! ## The pool -/

open ThreadPool

/-- `n` is `_max_parallel`, `C` the calling threads. -/
structure ThreadPool (n : Nat) (C J P : Type) where
  worker : Fin n → Worker J P
  caller : C → Caller n J P
  idleThreads : List (Fin n)
  /-- Asleep in `_idle_cond.wait()`. -/
  waiting : List C
  /-- `_sync_mutex` of the jobs. -/
  locked : J → Bool
  submitted : List (Task J P)
  ran : List (Task J P)

namespace ThreadPool

variable {n : Nat} {C J P : Type}

def setWorker (s : ThreadPool n C J P) (t : Fin n) (w : Worker J P) : ThreadPool n C J P :=
  { s with worker := Function.update s.worker t w }

def setCaller [DecidableEq C] (s : ThreadPool n C J P) (c : C) (p : Caller n J P) : ThreadPool n C J P :=
  { s with caller := Function.update s.caller c p }

def setLocked [DecidableEq J] (s : ThreadPool n C J P) (j : J) (b : Bool) : ThreadPool n C J P :=
  { s with locked := Function.update s.locked j b }

/-- `_idle_cond.signal()` wakes one of the sleepers, if there is one. -/
def Signals [DecidableEq C] (waiting waiting' : List C) : Prop :=
  (waiting = [] ∧ waiting' = []) ∨ ∃ c ∈ waiting, waiting' = waiting.erase c

/-- mirrors src/src/common/TThreadPool.cpp:106-134 (the constructor) -/
def create (s : ThreadPool n C J P) : Prop :=
  (∀ t, s.worker t = Worker.create) ∧ (∀ c, s.caller c = .out) ∧ s.idleThreads = [] ∧
    s.waiting = [] ∧ (∀ j, s.locked j = false) ∧ s.submitted = [] ∧ s.ran = []

/-- The thread that moves. -/
inductive Thread (n : Nat) (C : Type)
  | worker (t : Fin n)
  | caller (c : C)

/-- A thread's next step. A caller that is asleep has none but waking up. -/
inductive Step [DecidableEq C] [DecidableEq J] :
    ThreadPool n C J P → Thread n C → ThreadPool n C J P → Prop
  | own {s : ThreadPool n C J P} {t : Fin n} {w : Worker J P} (h : (s.worker t).next = some w) :
      Step s (.worker t) (s.setWorker t w)
  /-- The wait returns without a signal. -/
  | wake {s : ThreadPool n C J P} {t : Fin n} (h : (s.worker t).asleep = true) :
      Step s (.worker t) (s.setWorker t { s.worker t with asleep := false })
  /-- mirrors src/src/common/TThreadPool.cpp:236-256 (`append_idle`) -/
  | appendIdle {s : ThreadPool n C J P} {t : Fin n} {waiting' : List C}
      (h : (s.worker t).place = .appendIdle) (hmem : t ∉ s.idleThreads)
      (hsignal : Signals s.waiting waiting') :
      Step s (.worker t)
        { s.setWorker t { s.worker t with place := .await } with
          idleThreads := s.idleThreads ++ [t], waiting := waiting' }
  /-- The worker is in the list. -/
  | appendTwice {s : ThreadPool n C J P} {t : Fin n} (h : (s.worker t).place = .appendIdle)
      (hmem : t ∈ s.idleThreads) :
      Step s (.worker t) (s.setWorker t { s.worker t with place := .await })
  /-- `_job->run( _data_ptr )` -/
  | runJob {s : ThreadPool n C J P} {t : Fin n} {task : Task J P}
      (h : (s.worker t).place = .runJob) (htask : (s.worker t).task = some task) :
      Step s (.worker t)
        { s.setWorker t { s.worker t with place := .unlockJob } with ran := s.ran ++ [task] }
  /-- `_job->unlock()` -/
  | unlockJob {s : ThreadPool n C J P} {t : Fin n} {j : J} (h : (s.worker t).place = .unlockJob)
      (hjob : (s.worker t).job = some j) :
      Step s (.worker t)
        ((s.setWorker t { s.worker t with place := .deleteJob }).setLocked j false)
  /-- Nobody calls a pool that is being destroyed, or destroys one that is in use. -/
  | call {s : ThreadPool n C J P} {c : C} {op : Op J P} (h : s.caller c = .out)
      (halive : ∀ c', (s.caller c').destroying = false)
      (hlast : op = .destroy → ∀ c', s.caller c' = .out) :
      Step s (.caller c) (s.setCaller c op.enter)
  /-- The wait returns without a signal. -/
  | rouse {s : ThreadPool n C J P} {c : C} (h : c ∈ s.waiting) :
      Step s (.caller c) { s with waiting := s.waiting.erase c }
  /-- `get_idle` finds the list empty; mirrors src/src/common/TThreadPool.cpp:211-233. -/
  | getIdleWait {s : ThreadPool n C J P} {c : C} {task : Task J P} (h : s.caller c = .getIdle task)
      (hawake : c ∉ s.waiting) (hidle : s.idleThreads = []) :
      Step s (.caller c) { s with waiting := c :: s.waiting }
  | behead {s : ThreadPool n C J P} {c : C} {task : Task J P} {t : Fin n} {rest : List (Fin n)}
      (h : s.caller c = .getIdle task) (hawake : c ∉ s.waiting) (hidle : s.idleThreads = t :: rest) :
      Step s (.caller c) { s.setCaller c (.lockJob t task) with idleThreads := rest }
  | lockJob {s : ThreadPool n C J P} {c : C} {t : Fin n} {task : Task J P}
      (h : s.caller c = .lockJob t task) (hfree : s.locked task.job = false) :
      Step s (.caller c) ((s.setCaller c (.runJob t task)).setLocked task.job true)
  /-- `thr->run_job( job, ptr, del )` -/
  | submit {s : ThreadPool n C J P} {c : C} {t : Fin n} {task : Task J P}
      (h : s.caller c = .runJob t task) :
      Step s (.caller c)
        { (s.setCaller c .out).setWorker t ((s.worker t).runJob task) with
          submitted := s.submitted ++ [task] }
  /-- mirrors src/src/common/TThreadPool.cpp:180-188 (`sync`) -/
  | syncLock {s : ThreadPool n C J P} {c : C} {j : J} (h : s.caller c = .syncLock j)
      (hfree : s.locked j = false) :
      Step s (.caller c) ((s.setCaller c (.syncUnlock j)).setLocked j true)
  | syncUnlock {s : ThreadPool n C J P} {c : C} {j : J} (h : s.caller c = .syncUnlock j) :
      Step s (.caller c) ((s.setCaller c .out).setLocked j false)
  /-- `sync_all` misses a worker; mirrors src/src/common/TThreadPool.cpp:191-208. -/
  | syncAllWait {s : ThreadPool n C J P} {c : C}
      (h : s.caller c = .syncAll ∨ s.caller c = .destroy) (hawake : c ∉ s.waiting)
      (hidle : s.idleThreads.length < n) :
      Step s (.caller c) { s with waiting := c :: s.waiting }
  | syncAllDone {s : ThreadPool n C J P} {c : C} (h : s.caller c = .syncAll) (hawake : c ∉ s.waiting)
      (hidle : ¬ s.idleThreads.length < n) :
      Step s (.caller c) (s.setCaller c .out)
  /-- mirrors src/src/common/TThreadPool.cpp:136-153 (the destructor) -/
  | destroy {s : ThreadPool n C J P} {c : C} (h : s.caller c = .destroy) (hawake : c ∉ s.waiting)
      (hidle : ¬ s.idleThreads.length < n) :
      Step s (.caller c) (s.setCaller c (.quit 0))
  | quit {s : ThreadPool n C J P} {c : C} {i : Nat} (h : s.caller c = .quit i) (hi : i < n) :
      Step s (.caller c) ((s.setCaller c (.quit (i + 1))).setWorker ⟨i, hi⟩ (s.worker ⟨i, hi⟩).quit)
  | quitDone {s : ThreadPool n C J P} {c : C} {i : Nat} (h : s.caller c = .quit i) (hi : ¬ i < n) :
      Step s (.caller c) (s.setCaller c (.reap 0))
  /-- `_threads[i]` is deleted with its `_del_mutex` locked. -/
  | reap {s : ThreadPool n C J P} {c : C} {i : Nat} (h : s.caller c = .reap i) (hi : i < n)
      (hfree : (s.worker ⟨i, hi⟩).delMutex = false) :
      Step s (.caller c)
        ((s.setCaller c (.reap (i + 1))).setWorker ⟨i, hi⟩ { s.worker ⟨i, hi⟩ with delMutex := true })
  | reapDone {s : ThreadPool n C J P} {c : C} {i : Nat} (h : s.caller c = .reap i) (hi : ¬ i < n) :
      Step s (.caller c) (s.setCaller c .destroyed)

def pool (n : Nat) (C J P : Type) [DecidableEq C] [DecidableEq J] :
    LTS (ThreadPool n C J P) (Thread n C) where
  init := create
  step := Step

/-! ## Who has a worker -/

/-- A worker is in the list, or with a caller that took it off, or away. -/
structure Inv (s : ThreadPool n C J P) : Prop where
  nodup : s.idleThreads.Nodup
  idle : ∀ t ∈ s.idleThreads, (s.worker t).Resting ∨ (s.worker t).Ended
  held : ∀ c t, (s.caller c).held = some t → t ∉ s.idleThreads ∧ (s.worker t).Resting
  held_once : ∀ c c' t, (s.caller c).held = some t → (s.caller c').held = some t → c = c'
  away : ∀ t ∉ s.idleThreads, (∀ c, (s.caller c).held ≠ some t) → (s.worker t).Away
  ended : ∀ t, (s.worker t).end_ = true → ∃ c, (s.caller c).closing = true
  destroying : ∀ c, (s.caller c).destroying = true → ∀ c', c' ≠ c → s.caller c' = .out
  closing : ∀ c, (s.caller c).closing = true → ∀ t, t ∈ s.idleThreads

/-- How a step may change a worker without moving it. -/
structure Worker.Stays (w w' : Worker J P) : Prop where
  away : w.Away → w'.Away
  resting : w.Resting → w'.Resting
  ended : w.Ended → w'.Ended
  end_ : w'.end_ = w.end_

/-- From the call of the job to its deletion. -/
theorem Worker.stays_of_busy {w : Worker J P} {p : Place}
    (h : w.place = .runJob ∨ w.place = .unlockJob) (hp : p = .unlockJob ∨ p = .deleteJob) :
    w.Stays { w with place := p } where
  away ha := by grind [Away]
  resting hr := by grind [Resting]
  ended he := by grind [Ended]
  end_ := rfl

namespace Inv

variable {s : ThreadPool n C J P} {t : Fin n} {c : C}

theorem create (h : s.create) : Inv s := by
  obtain ⟨hw, hc, hidle, -, -, -, -⟩ := h
  refine ⟨by simp [hidle], by simp [hidle], by simp [hc, Caller.held], by simp [hc, Caller.held],
    fun t _ _ => ?_, fun t ht => ?_, fun c h => ?_, fun c h => ?_⟩
  · rw [hw]
    exact ⟨rfl, rfl, .inl ⟨rfl, .inl rfl⟩⟩
  · rw [hw] at ht
    cases ht
  · rw [hc] at h
    cases h
  · rw [hc] at h
    cases h

/-- It is about the list, the workers and the callers. -/
theorem congr {s' : ThreadPool n C J P} (h : Inv s) (hidle : s'.idleThreads = s.idleThreads)
    (hworker : s'.worker = s.worker) (hcaller : s'.caller = s.caller) : Inv s' := by
  cases s
  cases s'
  cases hidle
  cases hworker
  cases hcaller
  exact ⟨h.1, h.2, h.3, h.4, h.5, h.6, h.7, h.8⟩

/-- A worker that has none of the idle ones' places is not in the list. -/
theorem setWorker (h : Inv s) {w : Worker J P} (hw : (s.worker t).Stays w) :
    Inv (s.setWorker t w) := by
  refine ⟨h.nodup, fun t' ht' => ?_, fun c t' hc => ?_, h.held_once, fun t' ht' hc => ?_,
    fun t' ht' => ?_, h.destroying, h.closing⟩
  · simp only [ThreadPool.setWorker, Function.update_apply]
    split
    · rename_i heq
      subst heq
      exact (h.idle t' ht').imp hw.resting hw.ended
    · exact h.idle t' ht'
  · obtain ⟨hnot, hrest⟩ := h.held c t' hc
    refine ⟨hnot, ?_⟩
    simp only [ThreadPool.setWorker, Function.update_apply]
    split
    · rename_i heq
      subst heq
      exact hw.resting hrest
    · exact hrest
  · simp only [ThreadPool.setWorker, Function.update_apply]
    split
    · rename_i heq
      subst heq
      exact hw.away (h.away t' ht' hc)
    · exact h.away t' ht' hc
  · simp only [ThreadPool.setWorker, Function.update_apply] at ht'
    split at ht'
    · rename_i heq
      subst heq
      exact h.ended t' (hw.end_ ▸ ht')
    · exact h.ended t' ht'

/-- A caller that takes no worker and gives none away. -/
theorem setCaller [DecidableEq C] (h : Inv s) {p : Caller n J P} (hheld : p.held = (s.caller c).held)
    (hclosing : (s.caller c).closing = true → p.closing = true)
    (hdestroying : p.destroying = true → ∀ c', c' ≠ c → s.caller c' = .out)
    (hout : p ≠ .out → ∀ c', c' ≠ c → (s.caller c').destroying = false)
    (hidle : p.closing = true → ∀ t, t ∈ s.idleThreads) : Inv (s.setCaller c p) := by
  have hheld' : ∀ c', ((s.setCaller c p).caller c').held = (s.caller c').held := by
    intro c'
    simp only [ThreadPool.setCaller, Function.update_apply]
    split
    · rename_i heq
      rw [heq, hheld]
    · rfl
  refine ⟨h.nodup, h.idle, fun c' t hc => h.held c' t (hheld' c' ▸ hc),
    fun c' c'' t h' h'' => h.held_once c' c'' t (hheld' c' ▸ h') (hheld' c'' ▸ h''),
    fun t ht hc => h.away t ht fun c' => hheld' c' ▸ hc c', fun t ht => ?_, fun c' hd c'' hne => ?_,
    fun c' hcl => ?_⟩
  · obtain ⟨c', hc'⟩ := h.ended t ht
    refine ⟨c', ?_⟩
    simp only [ThreadPool.setCaller, Function.update_apply]
    split
    · rename_i heq
      subst heq
      exact hclosing hc'
    · exact hc'
  · simp only [ThreadPool.setCaller, Function.update_apply] at hd ⊢
    split at hd
    · rename_i heq
      subst heq
      rw [if_neg hne]
      exact hdestroying hd c'' hne
    · rename_i hc'
      split
      · by_contra hp
        have := hout hp c' hc'
        rw [hd] at this
        cases this
      · exact h.destroying c' hd c'' hne
  · simp only [ThreadPool.setCaller, Function.update_apply] at hcl
    split at hcl
    · exact hidle hcl
    · exact h.closing c' hcl

/-- A worker at a place of its own is not in the list and with no caller. -/
theorem away_of_place (h : Inv s) (hr : ¬ (s.worker t).Resting) (he : ¬ (s.worker t).Ended) :
    t ∉ s.idleThreads ∧ (∀ c, (s.caller c).held ≠ some t) ∧ (s.worker t).Away := by
  have hnot : t ∉ s.idleThreads := fun hmem => (h.idle t hmem).elim hr he
  have hfree : ∀ c, (s.caller c).held ≠ some t := fun c hc => hr (h.held c t hc).2
  exact ⟨hnot, hfree, h.away t hnot hfree⟩

/-- So is one that is about to append itself. -/
theorem away_of_appendIdle (h : Inv s) (hplace : (s.worker t).place = .appendIdle) :
    t ∉ s.idleThreads ∧ (∀ c, (s.caller c).held ≠ some t) ∧ (s.worker t).Away := by
  refine h.away_of_place (fun hr => ?_) fun he => ?_
  · have := hr.1
    rw [hplace] at this
    cases this
  · rw [Worker.Ended, hplace] at he
    simp at he

/-- Nobody destroys the pool while a caller is in another call. -/
theorem alive (h : Inv s) (hcall : (s.caller c).calling = true) (c' : C) :
    (s.caller c').destroying = false := by
  by_contra hd
  rw [Bool.not_eq_false] at hd
  by_cases heq : c = c'
  · subst heq
    rw [Caller.not_destroying_of_calling hcall] at hd
    cases hd
  · rw [h.destroying c' hd c heq] at hcall
    cases hcall

theorem not_closing (h : Inv s) (hcall : (s.caller c).calling = true) (c' : C) :
    (s.caller c').closing = false := by
  by_contra hcl
  rw [Bool.not_eq_false] at hcl
  have := h.alive hcall c'
  rw [Caller.destroying_of_closing hcl] at this
  cases this

/-- Nobody is told to end while a caller is in another call. -/
theorem resting_of_mem (h : Inv s) (hcall : (s.caller c).calling = true)
    (hmem : t ∈ s.idleThreads) : (s.worker t).Resting := by
  rcases h.idle t hmem with hr | he
  · exact hr
  · obtain ⟨c', hc'⟩ := h.ended t he.2.1
    rw [h.not_closing hcall c'] at hc'
    cases hc'

/-- A list of `n` workers without repetition has them all. -/
theorem mem_of_length (h : Inv s) (hlen : ¬ s.idleThreads.length < n) (t : Fin n) :
    t ∈ s.idleThreads := by
  have hcard : s.idleThreads.toFinset.card = s.idleThreads.length :=
    List.toFinset_card_of_nodup h.nodup
  have hle : s.idleThreads.length ≤ n := by
    have := Finset.card_le_univ s.idleThreads.toFinset
    rwa [hcard, Fintype.card_fin] at this
  have huniv : s.idleThreads.toFinset = Finset.univ :=
    Finset.eq_univ_of_card _ (by rw [hcard, Fintype.card_fin]; omega)
  rw [← List.mem_toFinset, huniv]
  exact Finset.mem_univ t

/-- A worker with no job goes to the end of the list. -/
theorem appendIdle (h : Inv s) {waiting' : List C} (hplace : (s.worker t).place = .appendIdle)
    (hmem : t ∉ s.idleThreads) :
    Inv { s.setWorker t { s.worker t with place := .await } with
      idleThreads := s.idleThreads ++ [t], waiting := waiting' } := by
  obtain ⟨-, hfree, -, hend, hjob⟩ := h.away_of_appendIdle hplace
  rw [hplace] at hjob
  simp only [reduceCtorEq, or_true, and_true, or_false, and_false] at hjob
  refine ⟨?_, fun t' ht' => ?_, fun c t' hc => ?_, h.held_once, fun t' ht' hc => ?_,
    fun t' ht' => ?_, h.destroying, fun c hc t' => List.mem_append_left _ (h.closing c hc t')⟩
  · exact h.nodup.append (List.nodup_singleton t) (by simpa using hmem)
  · by_cases heq : t' = t
    · subst heq
      simp only [ThreadPool.setWorker, Function.update_self]
      exact .inl ⟨rfl, hjob, hend⟩
    · simp only [ThreadPool.setWorker, Function.update_of_ne heq]
      rcases List.mem_append.mp ht' with ht' | ht'
      · exact h.idle t' ht'
      · exact absurd (List.mem_singleton.mp ht') heq
  · have heq : t' ≠ t := by
      rintro rfl
      exact hfree c hc
    obtain ⟨hnot, hrest⟩ := h.held c t' hc
    simp only [ThreadPool.setWorker, Function.update_of_ne heq]
    exact ⟨by simp [hnot, heq], hrest⟩
  · have heq : t' ≠ t := by
      rintro rfl
      exact ht' (List.mem_append_right _ (List.mem_singleton_self _))
    simp only [ThreadPool.setWorker, Function.update_of_ne heq]
    exact h.away t' (fun hm => ht' (List.mem_append_left _ hm)) hc
  · by_cases heq : t' = t
    · subst heq
      simp only [ThreadPool.setWorker, Function.update_self] at ht'
      rw [hend] at ht'
      cases ht'
    · simp only [ThreadPool.setWorker, Function.update_of_ne heq] at ht'
      exact h.ended t' ht'

variable [DecidableEq C]

/-- A caller goes on in a call that is not the destructor's. -/
theorem goOn (h : Inv s) {p : Caller n J P} (hcall : (s.caller c).calling = true)
    (hheld : p.held = (s.caller c).held) (hp : p.destroying = false) : Inv (s.setCaller c p) := by
  have hpc : p.closing = true → False := fun hcl => by
    rw [Caller.destroying_of_closing hcl] at hp
    cases hp
  refine h.setCaller hheld (fun hcl => ?_) (fun hp' => ?_) (fun _ c' _ => h.alive hcall c')
    (fun hcl => (hpc hcl).elim)
  · rw [h.not_closing hcall c] at hcl
    cases hcl
  · rw [hp] at hp'
    cases hp'

/-- The destructor goes on. -/
theorem closeOn (h : Inv s) {p : Caller n J P} (hd : (s.caller c).destroying = true)
    (hheld : p.held = (s.caller c).held) (hp : p.closing = true) (hall : ∀ t, t ∈ s.idleThreads) :
    Inv (s.setCaller c p) := by
  refine h.setCaller hheld (fun _ => hp) (fun _ => h.destroying c hd) (fun _ c' hne => ?_)
    (fun _ => hall)
  rw [h.destroying c hd c' hne]
  rfl

/-- A caller takes the first worker off the list. -/
theorem behead (h : Inv s) {task : Task J P} {rest : List (Fin n)}
    (hc : s.caller c = .getIdle task) (hidle : s.idleThreads = t :: rest) :
    Inv { s.setCaller c (.lockJob t task) with idleThreads := rest } := by
  have hcall : (s.caller c).calling = true := by rw [hc]; rfl
  have hmem : t ∈ s.idleThreads := by rw [hidle]; exact List.mem_cons_self
  have hnodup := h.nodup
  rw [hidle, List.nodup_cons] at hnodup
  have hrest : ∀ t', t' ∈ s.idleThreads ↔ t' = t ∨ t' ∈ rest := fun t' => by
    rw [hidle, List.mem_cons]
  have hclosing : ∀ c', (Function.update s.caller c (.lockJob t task) c').closing = false := fun c' => by
    rw [Function.update_apply]
    split
    · rfl
    · exact h.not_closing hcall c'
  refine ⟨hnodup.2, fun t' ht' => h.idle t' ((hrest t').mpr (.inr ht')), fun c' t' hc' => ?_,
    fun c' c'' t' hc' hc'' => ?_, fun t' ht' hc' => ?_, fun t' ht' => ?_, fun c' hd => ?_,
    fun c' hcl => ?_⟩
  · simp only [ThreadPool.setCaller, Function.update_apply] at hc'
    split at hc'
    · cases hc'
      exact ⟨hnodup.1, h.resting_of_mem hcall hmem⟩
    · obtain ⟨hnot, hr⟩ := h.held c' t' hc'
      exact ⟨fun hm => hnot ((hrest t').mpr (.inr hm)), hr⟩
  · -- What somebody holds is not in the list, so it is not the worker taken.
    simp only [ThreadPool.setCaller, Function.update_apply] at hc' hc''
    split at hc' <;> split at hc'' <;> rename_i h₁ h₂
    · exact h₁.trans h₂.symm
    · cases hc'
      exact absurd hmem (h.held c'' t hc'').1
    · cases hc''
      exact absurd hmem (h.held c' t hc').1
    · exact h.held_once c' c'' t' hc' hc''
  · simp only [ThreadPool.setCaller] at ht' hc'
    have hne : t' ≠ t := by
      rintro rfl
      exact hc' c (by rw [Function.update_self]; rfl)
    refine h.away t' (fun hm => ((hrest t').mp hm).elim hne ht') fun c' => ?_
    by_cases heq : c' = c
    · rw [heq, hc]
      exact fun h => by cases h
    · have := hc' c'
      rwa [Function.update_of_ne heq] at this
  · obtain ⟨c', hc'⟩ := h.ended t' ht'
    rw [h.not_closing hcall c'] at hc'
    cases hc'
  · simp only [ThreadPool.setCaller, Function.update_apply] at hd
    split at hd
    · cases hd
    · rw [h.alive hcall c'] at hd
      cases hd
  · have := hclosing c'
    simp only [ThreadPool.setCaller] at hcl
    rw [hcl] at this
    cases this

/-- The worker gets its job. -/
theorem submit (h : Inv s) {task : Task J P} (hc : s.caller c = .runJob t task) :
    Inv { (s.setCaller c .out).setWorker t ((s.worker t).runJob task) with
      submitted := s.submitted ++ [task] } := by
  have hcall : (s.caller c).calling = true := by rw [hc]; rfl
  obtain ⟨hnot, hplace, -, hend⟩ := h.held c t (by rw [hc]; rfl)
  refine ⟨h.nodup, fun t' ht' => ?_, fun c' t' hc' => ?_, fun c' c'' t' hc' hc'' => ?_,
    fun t' ht' hc' => ?_, fun t' ht' => ?_, fun c' hd => ?_, fun c' hcl => ?_⟩
  · have hne : t' ≠ t := by
      rintro rfl
      exact hnot ht'
    simp only [ThreadPool.setWorker, ThreadPool.setCaller, Function.update_of_ne hne]
    exact h.idle t' ht'
  · simp only [ThreadPool.setWorker, ThreadPool.setCaller, Function.update_apply] at hc'
    split at hc'
    · cases hc'
    · rename_i hne
      have hne' : t' ≠ t := by
        rintro rfl
        exact hne (h.held_once c' c t' hc' (by rw [hc]; rfl))
      simp only [ThreadPool.setWorker, ThreadPool.setCaller, Function.update_of_ne hne']
      exact h.held c' t' hc'
  · simp only [ThreadPool.setWorker, ThreadPool.setCaller, Function.update_apply] at hc' hc''
    split at hc' <;> split at hc''
    · cases hc'
    · cases hc'
    · cases hc''
    · exact h.held_once c' c'' t' hc' hc''
  · by_cases hne : t' = t
    · subst hne
      simp only [ThreadPool.setWorker, ThreadPool.setCaller, Function.update_self]
      exact ⟨rfl, hend, .inr ⟨rfl, .inl hplace⟩⟩
    · simp only [ThreadPool.setWorker, ThreadPool.setCaller, Function.update_of_ne hne]
      refine h.away t' ht' fun c' hold => ?_
      by_cases heq : c' = c
      · rw [heq, hc] at hold
        cases hold
        exact hne rfl
      · have := hc' c'
        simp only [ThreadPool.setWorker, ThreadPool.setCaller, Function.update_of_ne heq] at this
        exact this hold
  · by_cases hne : t' = t
    · subst hne
      simp only [ThreadPool.setWorker, ThreadPool.setCaller, Function.update_self] at ht'
      rw [Worker.runJob, hend] at ht'
      cases ht'
    · simp only [ThreadPool.setWorker, ThreadPool.setCaller, Function.update_of_ne hne] at ht'
      obtain ⟨c', hc'⟩ := h.ended t' ht'
      rw [h.not_closing hcall c'] at hc'
      cases hc'
  · simp only [ThreadPool.setWorker, ThreadPool.setCaller, Function.update_apply] at hd
    split at hd
    · cases hd
    · rw [h.alive hcall c'] at hd
      cases hd
  · simp only [ThreadPool.setWorker, ThreadPool.setCaller, Function.update_apply] at hcl
    split at hcl
    · cases hcl
    · rw [h.not_closing hcall c'] at hcl
      cases hcl

/-- `quit` on a worker in the list. -/
theorem quit (h : Inv s) {i : Nat} (hc : s.caller c = .quit i) (hi : i < n) :
    Inv ((s.setCaller c (.quit (i + 1))).setWorker ⟨i, hi⟩ (s.worker ⟨i, hi⟩).quit) := by
  have hall := h.closing c (by rw [hc]; rfl)
  have hnext : Inv (s.setCaller c (.quit (i + 1))) :=
    h.closeOn (by rw [hc]; rfl) (by rw [hc]; rfl) rfl hall
  refine ⟨hnext.nodup, fun t ht => ?_, fun c' t hc' => absurd (hall t) (hnext.held c' t hc').1,
    hnext.held_once, fun t ht => absurd (hall t) ht, fun t ht => ?_, hnext.destroying,
    hnext.closing⟩
  · by_cases heq : t = ⟨i, hi⟩
    · subst heq
      simp only [ThreadPool.setWorker, Function.update_self]
      rcases h.idle _ (hall ⟨i, hi⟩) with hr | he
      · exact .inr ⟨rfl, rfl, rfl, .inl hr.1⟩
      · exact .inr ⟨rfl, rfl, rfl, he.2.2.2⟩
    · simp only [ThreadPool.setWorker, Function.update_of_ne heq]
      exact hnext.idle t ht
  · exact ⟨c, by simp [ThreadPool.setWorker, ThreadPool.setCaller, Caller.closing]⟩

variable [DecidableEq J]

theorem step {s' : ThreadPool n C J P} {x : Thread n C} (h : Inv s) (hs : Step s x s') : Inv s' := by
  cases hs with
  | @own t w hn =>
    exact h.setWorker ⟨fun ha => Worker.next_away ha hn, fun hr => Worker.next_resting hr hn,
      fun he => Worker.next_ended he hn, Worker.next_end hn⟩
  | @wake t hsleep => exact h.setWorker ⟨fun ha => ⟨rfl, ha.2⟩, id, fun he => ⟨rfl, he.2⟩, rfl⟩
  | @appendIdle t waiting' hplace hmem hsignal => exact h.appendIdle hplace hmem
  | @appendTwice t hplace hmem => exact absurd hmem (h.away_of_appendIdle hplace).1
  | @runJob t task hplace htask =>
    exact (h.setWorker (Worker.stays_of_busy (.inl hplace) (.inl rfl))).congr rfl rfl rfl
  | @unlockJob t j hplace hjob =>
    exact (h.setWorker (Worker.stays_of_busy (.inr hplace) (.inr rfl))).congr rfl rfl rfl
  | @call c op hc halive hlast =>
    refine h.setCaller (by rw [hc]; cases op <;> rfl) (fun hcl => ?_) (fun hd c' _ => ?_)
      (fun _ c' _ => halive c') (fun hcl => ?_)
    · rw [hc] at hcl
      cases hcl
    · refine hlast ?_ c'
      cases op <;> first | rfl | cases hd
    · cases op <;> cases hcl
  | @rouse c hmem => exact h.congr rfl rfl rfl
  | @getIdleWait c task hc hawake hidle => exact h.congr rfl rfl rfl
  | @behead c task t rest hc hawake hidle => exact h.behead hc hidle
  | @lockJob c t task hc hfree =>
    exact (h.goOn (by rw [hc]; rfl) (by rw [hc]; rfl) rfl).congr rfl rfl rfl
  | @submit c t task hc => exact h.submit hc
  | @syncLock c j hc hfree =>
    exact (h.goOn (by rw [hc]; rfl) (by rw [hc]; rfl) rfl).congr rfl rfl rfl
  | @syncUnlock c j hc =>
    exact (h.goOn (by rw [hc]; rfl) (by rw [hc]; rfl) rfl).congr rfl rfl rfl
  | @syncAllWait c hc hawake hidle => exact h.congr rfl rfl rfl
  | @syncAllDone c hc hawake hidle =>
    exact h.goOn (by rw [hc]; rfl) (by rw [hc]; rfl) rfl
  | @destroy c hc hawake hidle =>
    exact h.closeOn (by rw [hc]; rfl) (by rw [hc]; rfl) rfl (h.mem_of_length hidle)
  | @quit c i hc hi => exact h.quit hc hi
  | @quitDone c i hc hi =>
    exact h.closeOn (by rw [hc]; rfl) (by rw [hc]; rfl) rfl (h.closing c (by rw [hc]; rfl))
  | @reap c i hc hi hfree =>
    have hi := h.closeOn (p := .reap (i + 1)) (by rw [hc]; rfl) (by rw [hc]; rfl) rfl
      (h.closing c (by rw [hc]; rfl))
    exact hi.setWorker ⟨id, id, id, rfl⟩
  | @reapDone c i hc hi =>
    exact h.closeOn (by rw [hc]; rfl) (by rw [hc]; rfl) rfl (h.closing c (by rw [hc]; rfl))

end Inv

end ThreadPool
end Kadpeer.L1
