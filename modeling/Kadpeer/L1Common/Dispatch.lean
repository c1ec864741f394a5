import Kadpeer.Core.Lock
import Kadpeer.L1Common.ThreadPool

/-!
# What becomes of a job (`common/TThreadPool.cpp`)

Whatever the threads do, in every state that can be reached:

* `submitted_eq`: what `run_job` was given has been run, or one worker has it,
  and nothing was run twice. When `sync_all` sees its way out all of it has
  been run (`ran_of_syncAll`).
* `running_alone`: a job is run by one worker at a time, and where `sync` has
  the job's lock by none (`syncUnlock_alone`).
* `destroyed_dead`: the destructor returns after every worker has left `run`, and
  drops no job. A worker may still have to write `_running` in the freed object.
-/
namespace Kadpeer.L1.ThreadPool

open Kadpeer.Core

variable {n : Nat} {C J P : Type} {s s' : ThreadPool n C J P} {t : Fin n} {c : C} {j : J}

/-! ## Reachable states -/

theorem Inv.worker (h : Inv s) (t : Fin n) :
    (s.worker t).Away ∨ (s.worker t).Resting ∨ (s.worker t).Ended := by
  by_cases ht : t ∈ s.idleThreads
  · exact .inr (h.idle t ht)
  by_cases hc : ∃ c, (s.caller c).held = some t
  · obtain ⟨c, hc⟩ := hc
    exact .inr (.inl (h.held c t hc).2)
  · exact .inl (h.away t ht fun c hc' => hc ⟨c, hc'⟩)

theorem Inv.job_of_mem (h : Inv s) (hmem : t ∈ s.idleThreads) : (s.worker t).job = none := by
  rcases h.idle t hmem with hr | he
  · exact hr.2.1
  · exact he.2.2.1

theorem Inv.asleep (h : Inv s) (hs : (s.worker t).asleep = true) :
    (s.worker t).job = none ∧ (s.worker t).end_ = false := by
  rcases h.worker t with ha | hr | he
  · rw [ha.1] at hs
    cases hs
  · exact hr.2
  · rw [he.1] at hs
    cases hs

theorem inv_inductive [DecidableEq C] [DecidableEq J] : (pool n C J P).Inductive Inv where
  init _ h := Inv.create h
  step _ _ _ h hs := h.step hs

/-- The pool after its constructor. -/
theorem exists_create : ∃ s : ThreadPool n C J P, s.create :=
  ⟨⟨fun _ => Worker.create, fun _ => .out, [], [], fun _ => false, [], []⟩, fun _ => rfl,
    fun _ => rfl, rfl, rfl, fun _ => rfl, rfl, rfl⟩

/-- A pool of two, all of it at rest but worker 0. -/
def duo (w : Worker Nat Nat) (idle : List (Fin 2)) (locked : Nat → Bool)
    (submitted ran : List (Task Nat Nat)) : ThreadPool 2 Unit Nat Nat where
  worker := ![w, ⟨.await, none, none, false, false, true, false⟩]
  caller _ := .out
  idleThreads := idle
  waiting := []
  locked := locked
  submitted := submitted
  ran := ran

theorem reachable_duo {w : Worker Nat Nat} {s : ThreadPool 2 Unit Nat Nat}
    (hr : (pool 2 Unit Nat Nat).Reachable s) (h₀ : s.worker 0 = w)
    (h₁ : s.worker 1 = ⟨.await, none, none, false, false, true, false⟩) (hc : s.caller () = .out)
    (hwait : s.waiting = []) :
    (pool 2 Unit Nat Nat).Reachable (duo w s.idleThreads s.locked s.submitted s.ran) := by
  have heq : s = duo w s.idleThreads s.locked s.submitted s.ran := by
    obtain ⟨worker, caller, idleThreads, waiting, locked, submitted, ran⟩ := s
    cases hwait
    have hw : worker = ![w, ⟨.await, none, none, false, false, true, false⟩] :=
      funext (Fin.forall_fin_two.mpr ⟨h₀, h₁⟩)
    rw [hw, show caller = fun _ => .out from funext fun _ => hc]
    rfl
  rwa [← heq]

/-- Worker 0 is about to call `TJob::run`. -/
theorem reachable_running (task : Task Nat Nat) :
    (pool 2 Unit Nat Nat).Reachable (duo ⟨.runJob, some task.job, task.ptr, task.del, false, true, false⟩
      [1] (Function.update (fun _ => false) task.job true) [task] []) := by
  have h₀ : (pool 2 Unit Nat Nat).Reachable
      ⟨fun _ => Worker.create, fun _ => .out, [], [], fun _ => false, [], []⟩ :=
    ⟨_, [], ⟨fun _ => rfl, fun _ => rfl, rfl, rfl, fun _ => rfl, rfl, rfl⟩, .nil _⟩
  -- The workers come to the list,
  have h₁ := h₀.step (Step.own (t := 0) rfl)
  have h₂ := h₁.step (Step.own (t := 0) rfl)
  have h₃ := h₂.step (Step.appendIdle (t := 0) rfl List.not_mem_nil (.inl ⟨rfl, rfl⟩))
  have h₄ := h₃.step (Step.own (t := 1) rfl)
  have h₅ := h₄.step (Step.own (t := 1) rfl)
  have h₆ := h₅.step (Step.appendIdle (t := 1) rfl (by simp [setWorker]) (.inl ⟨rfl, rfl⟩))
  -- `run` takes the first off and hands it the job,
  have h₇ := h₆.step (@Step.call _ _ _ _ _ _ _ () (.run task) rfl (fun _ => rfl) fun h => by cases h)
  have h₈ := h₇.step (Step.behead (c := ()) (t := 0) rfl List.not_mem_nil rfl)
  have h₉ := h₈.step (Step.lockJob (c := ()) (t := 0) rfl rfl)
  have h₁₀ := h₉.step (Step.submit (c := ()) (t := 0) rfl)
  -- and that one leaves the loop it would have slept in.
  have h₁₁ := h₁₀.step (Step.own (t := 0) rfl)
  exact reachable_duo (h₁₁.step (Step.own (t := 0) rfl)) rfl rfl rfl rfl

/-- It has run the job and is back in the list. -/
theorem reachable_idle (task : Task Nat Nat) :
    (pool 2 Unit Nat Nat).Reachable
      (duo ⟨.await, none, none, task.del, false, true, false⟩ [1, 0] (fun _ => false) [task] [task]) := by
  have h₁ := (reachable_running task).step (Step.runJob (t := 0) rfl rfl)
  have h₂ := h₁.step (Step.unlockJob (t := 0) (j := task.job) rfl rfl)
  have h₃ := h₂.step (Step.own (t := 0) rfl)
  have h₄ := h₃.step (Step.own (t := 0) rfl)
  have h₅ := h₄.step (Step.own (t := 0) rfl)
  have h₆ := h₅.step (Step.appendIdle (t := 0) rfl (by simp [setWorker, setLocked, duo]) (.inl ⟨rfl, rfl⟩))
  have h₇ := reachable_duo h₆ rfl rfl rfl rfl
  simpa [setWorker, setLocked, duo] using h₇

/-! ## The lock of a job -/

/-- The worker is going to run the job, runs it or has to unlock it. -/
def Worker.Owns (w : Worker J P) (j : J) : Prop :=
  w.job = some j ∧
    (w.place = .await ∨ w.place = .check ∨ w.place = .runJob ∨ w.place = .unlockJob)

/-- The caller has locked the job and neither handed it over nor unlocked it. -/
def Caller.Owns (p : Caller n J P) (j : J) : Prop :=
  match p with
  | .runJob _ task => j = task.job
  | .syncUnlock k => j = k
  | _ => False

/-- Who answers for the lock of the job. -/
def Owns (s : ThreadPool n C J P) : Thread n C → J → Prop
  | .worker t => (s.worker t).Owns
  | .caller c => (s.caller c).Owns

theorem Worker.not_owns {w : Worker J P} (h : w.job = none) (j : J) : ¬ w.Owns j := fun ho => by
  have hj := ho.1
  rw [h] at hj
  cases hj

theorem Worker.next_job_none {w w' : Worker J P} (h : w.job = none) (hn : w.next = some w') :
    w'.job = none := by
  unfold next at hn
  cases hp : w.place <;> simp only [hp] at hn <;> grind

/-- A worker that goes on by itself answers for the jobs it did. -/
theorem Worker.next_owns {w w' : Worker J P} (h : w.Away ∨ w.Resting ∨ w.Ended)
    (hn : w.next = some w') (j : J) : w'.Owns j ↔ w.Owns j := by
  by_cases hj : w.job = none
  · exact iff_of_false (not_owns (next_job_none hj hn) j) (not_owns hj j)
  · have ha : w.Away := h.resolve_right fun hr => hj (hr.elim (fun hr => hr.2.1) fun he => he.2.2.1)
    unfold next at hn
    rw [ha.1] at hn
    cases hp : w.place <;> simp only [hp] at hn <;> grind [Owns, Away]

/-- A step that changes one worker. -/
theorem owns_setWorker {w : Worker J P} (x : Thread n C) (k : J) :
    (s.setWorker t w).Owns x k ↔ x = .worker t ∧ w.Owns k ∨ x ≠ .worker t ∧ s.Owns x k := by
  cases x with
  | caller c => simp [Owns, setWorker]
  | worker t' =>
    simp only [Owns, setWorker, Function.update_apply, Thread.worker.injEq]
    split
    · rename_i heq
      simp [heq]
    · rename_i hne
      simp [hne]

theorem owns_setWorker_of_iff {w : Worker J P} (h : ∀ k, w.Owns k ↔ (s.worker t).Owns k)
    (x : Thread n C) (k : J) : (s.setWorker t w).Owns x k ↔ s.Owns x k := by
  rw [owns_setWorker]
  by_cases hx : x = .worker t
  · subst hx
    simp [h k, Owns]
  · simp [hx]

theorem owns_setCaller [DecidableEq C] {p : Caller n J P} (x : Thread n C) (k : J) :
    (s.setCaller c p).Owns x k ↔ x = .caller c ∧ p.Owns k ∨ x ≠ .caller c ∧ s.Owns x k := by
  cases x with
  | worker t => simp [Owns, setCaller]
  | caller c' =>
    simp only [Owns, setCaller, Function.update_apply, Thread.caller.injEq]
    split
    · rename_i heq
      simp [heq]
    · rename_i hne
      simp [hne]

/-- A caller that owns nothing and comes to own nothing. -/
theorem owns_setCaller_of_not [DecidableEq C] {p : Caller n J P} (hc : ∀ k, ¬ (s.caller c).Owns k)
    (hp : ∀ k, ¬ p.Owns k) (x : Thread n C) (k : J) : (s.setCaller c p).Owns x k ↔ s.Owns x k := by
  rw [owns_setCaller]
  by_cases hx : x = .caller c
  · subst hx
    simp [hp k, Owns, hc k]
  · simp [hx]

/-- A caller that has locked the job. -/
theorem owns_lock [DecidableEq C] {p : Caller n J P} (hc : ∀ k, ¬ (s.caller c).Owns k)
    (hp : ∀ k, p.Owns k ↔ k = j) (x : Thread n C) (k : J) :
    (s.setCaller c p).Owns x k ↔ s.Owns x k ∨ x = .caller c ∧ k = j := by
  rw [owns_setCaller, hp]
  by_cases hx : x = .caller c
  · subst hx
    simp [Owns, hc k]
  · simp [hx]

theorem owned_step [DecidableEq C] [DecidableEq J] {x : Thread n C} (hi : Inv s)
    (h : Owned s.locked s.Owns) (hs : Step s x s') : Owned s'.locked s'.Owns := by
  cases hs with
  | @own t w hn => exact h.congr (owns_setWorker_of_iff (Worker.next_owns (hi.worker t) hn))
  | @wake t hsleep => exact h.congr (owns_setWorker_of_iff fun k => Iff.rfl)
  | @appendIdle t waiting' hplace hmem hsignal =>
    have hjob : (s.worker t).job = none := by
      obtain ⟨-, -, -, -, ha⟩ := hi.away_of_appendIdle hplace
      simpa [hplace] using ha
    refine h.congr (owns_setWorker_of_iff fun k => iff_of_false ?_ (Worker.not_owns hjob k))
    exact Worker.not_owns (by exact hjob) k
  | @appendTwice t hplace hmem => exact absurd hmem (hi.away_of_appendIdle hplace).1
  | @runJob t task hplace htask =>
    exact h.congr (owns_setWorker_of_iff fun k => by simp [Worker.Owns, hplace])
  | @unlockJob t j hplace hjob =>
    have hown : ∀ k, s.Owns (.worker t) k ↔ k = j := fun k => by
      simp [Owns, Worker.Owns, hplace, hjob, eq_comm]
    refine h.release hown fun y k => ?_
    have hnot : ¬ Worker.Owns { s.worker t with place := .deleteJob } k := by simp [Worker.Owns]
    exact (owns_setWorker y k).trans (by simp [hnot])
  | @call c op hc halive hlast =>
    exact h.congr (owns_setCaller_of_not (by rw [hc]; exact fun _ => id) (by cases op <;> exact fun _ => id))
  | @rouse c hmem => exact h
  | @getIdleWait c task hc hawake hidle => exact h
  | @behead c task t rest hc hawake hidle =>
    exact h.congr (owns_setCaller_of_not (by rw [hc]; exact fun _ => id) fun _ => id)
  | @lockJob c t task hc hfree =>
    exact h.acquire hfree (owns_lock (by rw [hc]; exact fun _ => id) fun k => Iff.rfl)
  | @submit c t task hc =>
    obtain ⟨-, hplace, hjob, -⟩ := hi.held c t (by rw [hc]; rfl)
    have hown : ∀ k, s.Owns (.caller c) k ↔ k = task.job := fun k => by
      simp [Owns, Caller.Owns, hc]
    have hold : ∀ k, ¬ s.Owns (.worker t) k := Worker.not_owns hjob
    have hnew : ∀ k, ((s.worker t).runJob task).Owns k ↔ k = task.job := fun k => by
      simp [Worker.Owns, Worker.runJob, hplace, eq_comm]
    refine h.transfer (z := .worker t) hown fun y k => (owns_setWorker y k).trans ?_
    rw [hnew, owns_setCaller]
    by_cases hy : y = .worker t
    · subst hy
      simp [hold k]
    · simp [hy, Caller.Owns]
  | @syncLock c j hc hfree =>
    exact h.acquire hfree (owns_lock (by rw [hc]; exact fun _ => id) fun k => Iff.rfl)
  | @syncUnlock c j hc =>
    have hown : ∀ k, s.Owns (.caller c) k ↔ k = j := fun k => by
      simp [Owns, Caller.Owns, hc]
    exact h.release hown fun y k =>
      (owns_setCaller (s := s) (c := c) (p := .out) y k).trans (by simp [Caller.Owns])
  | @syncAllWait c hc hawake hidle => exact h
  | @syncAllDone c hc hawake hidle =>
    exact h.congr (owns_setCaller_of_not (by rw [hc]; exact fun _ => id) fun _ => id)
  | @destroy c hc hawake hidle =>
    exact h.congr (owns_setCaller_of_not (by rw [hc]; exact fun _ => id) fun _ => id)
  | @quit c i hc hi' =>
    have hjob := hi.job_of_mem (hi.closing c (by rw [hc]; rfl) ⟨i, hi'⟩)
    have hcaller := h.congr (owns_setCaller_of_not (p := .quit (i + 1)) (by rw [hc]; exact fun _ => id)
      fun _ => id)
    refine hcaller.congr (owns_setWorker_of_iff fun k => iff_of_false ?_ (Worker.not_owns hjob k))
    exact Worker.not_owns rfl k
  | @quitDone c i hc hi' =>
    exact h.congr (owns_setCaller_of_not (by rw [hc]; exact fun _ => id) fun _ => id)
  | @reap c i hc hi' hfree =>
    have hcaller := h.congr (owns_setCaller_of_not (p := .reap (i + 1)) (by rw [hc]; exact fun _ => id)
      fun _ => id)
    exact hcaller.congr (owns_setWorker_of_iff fun k => Iff.rfl)
  | @reapDone c i hc hi' =>
    exact h.congr (owns_setCaller_of_not (by rw [hc]; exact fun _ => id) fun _ => id)

theorem owned_inductive [DecidableEq C] [DecidableEq J] :
    (pool n C J P).Inductive fun s => Inv s ∧ Owned s.locked s.Owns := by
  refine inv_inductive.and (fun s h => ?_) fun s x s' => owned_step
  obtain ⟨hw, hc, -, -, hl, -, -⟩ := h
  have hnot : ∀ x j, ¬ s.Owns x j := by
    intro x j
    cases x with
    | worker t => exact Worker.not_owns (by rw [hw]; rfl) j
    | caller c => simp [Owns, Caller.Owns, hc]
  refine ⟨fun j hj => ?_, fun x j hx => absurd hx (hnot x j), fun x _ j hx => absurd hx (hnot x j)⟩
  rw [hl] at hj
  cases hj

/-- **A job is run by one worker at a time**, however often it was submitted. -/
theorem running_alone [DecidableEq C] [DecidableEq J] (hr : (pool n C J P).Reachable s) {t t' : Fin n}
    (h : (s.worker t).place = .runJob) (h' : (s.worker t').place = .runJob)
    (hj : (s.worker t).job = (s.worker t').job) : t = t' := by
  obtain ⟨hi, ho⟩ := owned_inductive.reachable hr
  have hsome : ∀ t, (s.worker t).place = .runJob → ∃ j, (s.worker t).job = some j := by
    intro t ht
    rcases hi.worker t with ha | hrest | he
    · have := ha.2.2
      simp only [ht, reduceCtorEq, or_false, and_false, or_true, and_true, false_or] at this
      exact Option.isSome_iff_exists.mp this
    · have := hrest.1
      rw [ht] at this
      cases this
    · have := he.2.2.2
      simp [ht] at this
  obtain ⟨j, hjob⟩ := hsome t h
  have hx := ho.once (.worker t) (.worker t') j ⟨hjob, .inr (.inr (.inl h))⟩
    ⟨hj ▸ hjob, .inr (.inr (.inl h'))⟩
  exact Thread.worker.inj hx

theorem running_alone_zero :
    ∃ s : ThreadPool 2 Unit Nat Nat, (s.worker 0).place = .runJob ∧ (s.worker 0).job = some 3 ∧
      ∀ t, (s.worker t).place = .runJob → (s.worker t).job = some 3 → 0 = t :=
  ⟨_, rfl, rfl, fun _ h hj => running_alone (reachable_running ⟨3, none, false⟩) rfl h hj.symm⟩

/-- **Where `sync` has the lock nobody runs the job** or is about to. -/
theorem syncUnlock_alone [DecidableEq C] [DecidableEq J] (hr : (pool n C J P).Reachable s)
    (h : s.caller c = .syncUnlock j) (x : Thread n C) (hx : s.Owns x j) : x = .caller c := by
  obtain ⟨-, ho⟩ := owned_inductive.reachable hr
  exact ho.once x (.caller c) j hx (by simp [Owns, Caller.Owns, h])

theorem syncUnlock_alone_unit :
    ∃ s : ThreadPool 2 Unit Nat Nat, s.locked 3 = true ∧ ∀ x, s.Owns x 3 → x = .caller () := by
  have h₁ := (reachable_idle ⟨3, none, false⟩).step
    (@Step.call _ _ _ _ _ _ _ () (.sync 3) rfl (fun _ => rfl) fun h => by cases h)
  have h₂ := h₁.step (Step.syncLock (c := ()) (j := 3) rfl rfl)
  exact ⟨_, rfl, fun x hx => syncUnlock_alone h₂ rfl x hx⟩

/-! ## Submitted and run -/

/-- What the worker has been given and has not run yet. -/
def Worker.pending (w : Worker J P) : Multiset (Task J P) :=
  if w.place = .await ∨ w.place = .check ∨ w.place = .runJob then w.task.elim 0 ({·}) else 0

theorem Worker.pending_of_none {w : Worker J P} (h : w.job = none) : w.pending = 0 := by
  simp [pending, task, h]

theorem Worker.next_pending {w w' : Worker J P} (h : w.Away ∨ w.Resting ∨ w.Ended)
    (hn : w.next = some w') : w'.pending = w.pending := by
  by_cases hj : w.job = none
  · have hj' : w'.job = none := next_job_none hj hn
    rw [pending_of_none hj, pending_of_none hj']
  · have ha : w.Away := h.resolve_right fun hr => hj (hr.elim (fun hr => hr.2.1) fun he => he.2.2.1)
    unfold next at hn
    rw [ha.1] at hn
    cases hp : w.place <;> simp only [hp] at hn <;> grind [pending, Away, task]

theorem sum_setWorker (w : Worker J P) :
    ∑ t', ((s.setWorker t w).worker t').pending + (s.worker t).pending =
      ∑ t', (s.worker t').pending + w.pending := by
  have hrest : ∑ t' ∈ Finset.univ.erase t, ((s.setWorker t w).worker t').pending =
      ∑ t' ∈ Finset.univ.erase t, (s.worker t').pending := by
    refine Finset.sum_congr rfl fun t' ht' => ?_
    simp only [setWorker, Function.update_of_ne (Finset.ne_of_mem_erase ht')]
  rw [← Finset.add_sum_erase _ _ (Finset.mem_univ t), hrest,
    ← Finset.add_sum_erase _ (fun t' => (s.worker t').pending) (Finset.mem_univ t)]
  simp only [setWorker, Function.update_self]
  abel

theorem sum_of_pending_eq {w : Worker J P} (h : w.pending = (s.worker t).pending) :
    ∑ t', ((s.setWorker t w).worker t').pending = ∑ t', (s.worker t').pending := by
  have hsum := sum_setWorker (s := s) (t := t) w
  rw [h] at hsum
  exact add_right_cancel hsum

/-- Nothing that was submitted is lost or run twice. -/
def Counted (s : ThreadPool n C J P) : Prop :=
  (s.submitted : Multiset (Task J P)) = s.ran + ∑ t, (s.worker t).pending

theorem Counted.setWorker (h : Counted s) {w : Worker J P}
    (hw : w.pending = (s.worker t).pending) : Counted (s.setWorker t w) := by
  rw [Counted, sum_of_pending_eq hw]
  exact h

theorem counted_step [DecidableEq C] [DecidableEq J] {x : Thread n C} (hi : Inv s) (h : Counted s)
    (hs : Step s x s') : Counted s' := by
  cases hs with
  | @own t w hn => exact h.setWorker (Worker.next_pending (hi.worker t) hn)
  | @wake t hsleep => exact h.setWorker rfl
  | @appendIdle t waiting' hplace hmem hsignal =>
    have hjob : (s.worker t).job = none := by
      obtain ⟨-, -, -, -, ha⟩ := hi.away_of_appendIdle hplace
      simpa [hplace] using ha
    refine h.setWorker ?_
    rw [Worker.pending_of_none hjob, Worker.pending_of_none (by exact hjob)]
  | @appendTwice t hplace hmem => exact absurd hmem (hi.away_of_appendIdle hplace).1
  | @runJob t task hplace htask =>
    have hsum := sum_setWorker (s := s) (t := t) { s.worker t with place := .unlockJob }
    have hold : (s.worker t).pending = {task} := by simp [Worker.pending, hplace, htask]
    have hnew : Worker.pending { s.worker t with place := .unlockJob } = 0 := by
      simp [Worker.pending]
    rw [hold, hnew, add_zero] at hsum
    calc (s.submitted : Multiset (Task J P))
        = s.ran + ∑ t, (s.worker t).pending := h
      _ = s.ran + ([task] : List (Task J P)) +
            ∑ t', ((s.setWorker t { s.worker t with place := .unlockJob }).worker t').pending := by
        rw [← hsum, Multiset.coe_singleton]
        abel
      _ = _ := by rw [Multiset.coe_add]
  | @unlockJob t j hplace hjob =>
    have hkeep : Counted (s.setWorker t { s.worker t with place := .deleteJob }) :=
      h.setWorker (by simp [Worker.pending, hplace])
    exact hkeep
  | @call c op hc halive hlast => exact h
  | @rouse c hmem => exact h
  | @getIdleWait c task hc hawake hidle => exact h
  | @behead c task t rest hc hawake hidle => exact h
  | @lockJob c t task hc hfree => exact h
  | @submit c t task hc =>
    obtain ⟨-, hplace, hjob, -⟩ := hi.held c t (by rw [hc]; rfl)
    have hsum := sum_setWorker (s := s) (t := t) ((s.worker t).runJob task)
    have hnew : ((s.worker t).runJob task).pending = {task} := by
      simp [Worker.pending, Worker.runJob, Worker.task, hplace]
    rw [hnew, Worker.pending_of_none hjob, add_zero] at hsum
    calc ((s.submitted ++ [task] : List (Task J P)) : Multiset (Task J P))
        = s.submitted + {task} := by rw [← Multiset.coe_add, Multiset.coe_singleton]
      _ = s.ran + ∑ t, (s.worker t).pending + {task} := by rw [h]
      _ = s.ran + ∑ t', ((s.setWorker t ((s.worker t).runJob task)).worker t').pending := by
        rw [hsum, add_assoc]
  | @syncLock c j hc hfree => exact h
  | @syncUnlock c j hc => exact h
  | @syncAllWait c hc hawake hidle => exact h
  | @syncAllDone c hc hawake hidle => exact h
  | @destroy c hc hawake hidle => exact h
  | @quit c i hc hi' =>
    have hjob := hi.job_of_mem (hi.closing c (by rw [hc]; rfl) ⟨i, hi'⟩)
    have hquit : Counted (s.setWorker ⟨i, hi'⟩ (s.worker ⟨i, hi'⟩).quit) := by
      refine h.setWorker ?_
      rw [Worker.pending_of_none hjob, Worker.pending_of_none rfl]
    exact hquit
  | @quitDone c i hc hi' => exact h
  | @reap c i hc hi' hfree =>
    have hreap : Counted (s.setWorker ⟨i, hi'⟩ { s.worker ⟨i, hi'⟩ with delMutex := true }) :=
      h.setWorker rfl
    exact hreap
  | @reapDone c i hc hi' => exact h

theorem counted_inductive [DecidableEq C] [DecidableEq J] :
    (pool n C J P).Inductive fun s => Inv s ∧ Counted s := by
  refine inv_inductive.and (fun s h => ?_) fun s x s' => counted_step
  obtain ⟨hw, -, -, -, -, hsub, hran⟩ := h
  have hnone : ∀ t, (s.worker t).pending = 0 := fun t =>
    Worker.pending_of_none (by rw [hw]; rfl)
  rw [Counted, hsub, hran, Finset.sum_congr rfl fun t _ => hnone t]
  simp

/-- **Every job submitted is run once**: it has been run, or one worker still has it. -/
theorem submitted_eq [DecidableEq C] [DecidableEq J] (hr : (pool n C J P).Reachable s) :
    (s.submitted : Multiset (Task J P)) = s.ran + ∑ t, (s.worker t).pending :=
  (counted_inductive.reachable hr).2

theorem submitted_eq_running :
    (([⟨3, none, false⟩] : List (Task Nat Nat)) : Multiset (Task Nat Nat)) =
      ([] : List (Task Nat Nat)) + ∑ t, ((duo ⟨.runJob, some 3, none, false, false, true, false⟩ [1]
        (Function.update (fun _ => false) 3 true) [⟨3, none, false⟩] []).worker t).pending :=
  submitted_eq (reachable_running ⟨3, none, false⟩)

/-- With every worker in the list all jobs submitted have been run. -/
theorem ran_of_idle [DecidableEq C] [DecidableEq J] (hr : (pool n C J P).Reachable s)
    (hall : ∀ t, t ∈ s.idleThreads) : s.ran.Perm s.submitted := by
  obtain ⟨hi, hc⟩ := counted_inductive.reachable hr
  have hnone : ∀ t, (s.worker t).pending = 0 := fun t =>
    Worker.pending_of_none (hi.job_of_mem (hall t))
  rw [Counted, Finset.sum_congr rfl fun t _ => hnone t, Finset.sum_const_zero, add_zero] at hc
  exact (Multiset.coe_eq_coe.mp hc).symm

/-- **`sync_all` returns when all of them have been run.** -/
theorem ran_of_syncAll [DecidableEq C] [DecidableEq J] (hr : (pool n C J P).Reachable s)
    (hs : Step s (.caller c) s') (h : s.caller c = .syncAll) (hdone : s'.caller c ≠ .syncAll) :
    s.ran.Perm s.submitted := by
  obtain ⟨hi, -⟩ := counted_inductive.reachable hr
  generalize hx : Thread.caller c = x at hs
  cases hs with
  | syncAllDone hc hawake hidle => exact ran_of_idle hr (hi.mem_of_length hidle)
  | rouse hmem => exact absurd h hdone
  | getIdleWait hc hawake hidle => exact absurd h hdone
  | syncAllWait hc hawake hidle => exact absurd h hdone
  | own | wake | appendIdle | appendTwice | runJob | unlockJob => cases hx
  | destroy hc | quit hc | quitDone hc | reap hc | reapDone hc | call hc | behead hc | lockJob hc
  | submit hc | syncLock hc | syncUnlock hc =>
    cases hx
    rw [h] at hc
    cases hc

theorem ran_of_syncAll_idle :
    ∃ s : ThreadPool 2 Unit Nat Nat, s.submitted = [⟨3, none, false⟩] ∧ s.ran.Perm s.submitted := by
  have h₁ := (reachable_idle ⟨3, none, false⟩).step
    (@Step.call _ _ _ _ _ _ _ () .syncAll rfl (fun _ => rfl) fun h => by cases h)
  exact ⟨_, rfl, ran_of_syncAll h₁
    (.syncAllDone (c := ()) rfl List.not_mem_nil (Nat.lt_irrefl 2)) rfl (by simp [setCaller])⟩

/-! ## The destructor -/

/-- Out of `TPoolThr::run`. -/
def Worker.Exited (w : Worker J P) : Prop := w.place = .returned ∨ w.place = .dead

/-- A free `_del_mutex` is one of a worker that has not begun or has left `run`. -/
structure Exits (s : ThreadPool n C J P) : Prop where
  delMutex : ∀ t, (s.worker t).delMutex = false →
    (s.worker t).place = .start ∨ (s.worker t).Exited
  reaped : ∀ c i, s.caller c = .reap i → ∀ t : Fin n, t.val < i → (s.worker t).Exited
  destroyed : ∀ c, s.caller c = .destroyed → ∀ t, (s.worker t).Exited

theorem Worker.next_exited {w w' : Worker J P} (hn : w.next = some w')
    (h : w.delMutex = false → w.place = .start ∨ w.Exited) :
    (w'.delMutex = false → w'.place = .start ∨ w'.Exited) ∧ (w.Exited → w'.Exited) := by
  unfold next at hn
  cases hp : w.place <;> simp only [hp] at hn <;> grind [Exited]

namespace Exits

/-- It is about the workers and the callers. -/
theorem congr (h : Exits s) (hworker : s'.worker = s.worker) (hcaller : s'.caller = s.caller) :
    Exits s' := by
  cases s
  cases s'
  cases hworker
  cases hcaller
  exact ⟨h.1, h.2, h.3⟩

theorem setWorker (h : Exits s) {w : Worker J P}
    (hm : w.delMutex = false → w.place = .start ∨ w.Exited)
    (he : (s.worker t).Exited → w.Exited) : Exits (s.setWorker t w) := by
  have hkeep : ∀ t', (s.worker t').Exited → ((s.setWorker t w).worker t').Exited := by
    intro t' ht'
    simp only [ThreadPool.setWorker, Function.update_apply]
    split
    · rename_i heq
      subst heq
      exact he ht'
    · exact ht'
  refine ⟨fun t' ht' => ?_, fun c i hc t' ht' => hkeep t' (h.reaped c i hc t' ht'),
    fun c hc t' => hkeep t' (h.destroyed c hc t')⟩
  simp only [ThreadPool.setWorker, Function.update_apply] at ht' ⊢
  split at ht'
  · rename_i heq
    rw [if_pos heq]
    exact hm ht'
  · rename_i hne
    rw [if_neg hne]
    exact h.delMutex t' ht'

/-- From inside of `run` to another place inside. -/
theorem goTo (h : Exits s) {p : Place} (hp : (s.worker t).place ≠ .start)
    (he : ¬ (s.worker t).Exited) : Exits (s.setWorker t { s.worker t with place := p }) :=
  h.setWorker (fun hm => ((h.delMutex t hm).elim hp he).elim) fun hex => (he hex).elim

theorem setCaller [DecidableEq C] (h : Exits s) {p : Caller n J P}
    (hr : ∀ i, p = .reap i → ∀ t : Fin n, t.val < i → (s.worker t).Exited)
    (hd : p = .destroyed → ∀ t, (s.worker t).Exited) : Exits (s.setCaller c p) := by
  refine ⟨h.delMutex, fun c' i hc' => ?_, fun c' hc' => ?_⟩
  · simp only [ThreadPool.setCaller, Function.update_apply] at hc'
    split at hc'
    · exact hr i hc'
    · exact h.reaped c' i hc'
  · simp only [ThreadPool.setCaller, Function.update_apply] at hc'
    split at hc'
    · exact hd hc'
    · exact h.destroyed c' hc'

theorem other [DecidableEq C] (h : Exits s) {p : Caller n J P} (hr : ∀ i, p ≠ .reap i)
    (hd : p ≠ .destroyed) : Exits (s.setCaller c p) :=
  h.setCaller (fun i hp => absurd hp (hr i)) fun hp => absurd hp hd

theorem step [DecidableEq C] [DecidableEq J] {x : Thread n C} (hi : Inv s) (h : Exits s)
    (hs : Step s x s') : Exits s' := by
  cases hs with
  | @own t w hn =>
    have hnext := Worker.next_exited hn (h.delMutex t)
    exact h.setWorker hnext.1 hnext.2
  | @wake t hsleep => exact h.setWorker (h.delMutex t) id
  | @appendIdle t waiting' hplace hmem hsignal =>
    exact (h.goTo (p := .await) (by simp [hplace]) (by simp [Worker.Exited, hplace])).congr rfl rfl
  | @appendTwice t hplace hmem => exact absurd hmem (hi.away_of_appendIdle hplace).1
  | @runJob t task hplace htask =>
    exact (h.goTo (p := .unlockJob) (by simp [hplace]) (by simp [Worker.Exited, hplace])).congr rfl rfl
  | @unlockJob t j hplace hjob =>
    exact (h.goTo (p := .deleteJob) (by simp [hplace]) (by simp [Worker.Exited, hplace])).congr rfl rfl
  | @call c op hc halive hlast =>
    exact h.other (fun i => by cases op <;> simp [Op.enter]) (by cases op <;> simp [Op.enter])
  | @rouse c hmem => exact h.congr rfl rfl
  | @getIdleWait c task hc hawake hidle => exact h.congr rfl rfl
  | @behead c task t rest hc hawake hidle =>
    exact (h.other (p := .lockJob t task) (by simp) (by simp)).congr rfl rfl
  | @lockJob c t task hc hfree =>
    exact (h.other (p := .runJob t task) (by simp) (by simp)).congr rfl rfl
  | @submit c t task hc =>
    have hsubmit := (h.other (c := c) (p := .out) (by simp) (by simp)).setWorker
      (w := (s.worker t).runJob task) (h.delMutex t) id
    exact hsubmit.congr rfl rfl
  | @syncLock c j hc hfree =>
    exact (h.other (p := .syncUnlock j) (by simp) (by simp)).congr rfl rfl
  | @syncUnlock c j hc =>
    exact (h.other (p := .out) (by simp) (by simp)).congr rfl rfl
  | @syncAllWait c hc hawake hidle => exact h.congr rfl rfl
  | @syncAllDone c hc hawake hidle => exact h.other (by simp) (by simp)
  | @destroy c hc hawake hidle => exact h.other (by simp) (by simp)
  | @quit c i hc hi' =>
    exact (h.other (c := c) (p := .quit (i + 1)) (by simp) (by simp)).setWorker
      (h.delMutex ⟨i, hi'⟩) id
  | @quitDone c i hc hi' =>
    exact h.setCaller (fun i hp => by cases hp; simp) fun hp => by cases hp
  | @reap c i hc hi' hfree =>
    have hexit : (s.worker ⟨i, hi'⟩).Exited := by
      refine (h.delMutex _ hfree).resolve_left fun hstart => ?_
      rcases hi.idle _ (hi.closing c (by rw [hc]; rfl) ⟨i, hi'⟩) with hr | he
      · have := hr.1
        rw [hstart] at this
        cases this
      · have := he.2.2.2
        simp [hstart] at this
    have hcaller : Exits (s.setCaller c (.reap (i + 1))) := by
      refine h.setCaller (fun k hk t ht => ?_) fun hp => by cases hp
      cases hk
      rcases Nat.lt_succ_iff_lt_or_eq.mp ht with ht | ht
      · exact h.reaped c i hc t ht
      · obtain rfl : t = ⟨i, hi'⟩ := Fin.ext ht
        exact hexit
    exact hcaller.setWorker (fun hm => by cases hm) id
  | @reapDone c i hc hi' =>
    refine h.setCaller (fun k hk => by cases hk) fun _ t => h.reaped c i hc t ?_
    omega

end Exits

theorem exits_inductive [DecidableEq C] [DecidableEq J] :
    (pool n C J P).Inductive fun s => Inv s ∧ Exits s := by
  refine inv_inductive.and (fun s h => ?_) fun s x s' => Exits.step
  obtain ⟨hw, hc, -, -, -, -, -⟩ := h
  refine ⟨fun t _ => .inl (by rw [hw]; rfl), fun c i h => ?_, fun c h => ?_⟩
  · rw [hc] at h
    cases h
  · rw [hc] at h
    cases h

/-- **The destructor returns after every worker has left `run`**, and no job is dropped. -/
theorem destroyed_dead [DecidableEq C] [DecidableEq J] (hr : (pool n C J P).Reachable s)
    (h : s.caller c = .destroyed) :
    (∀ t, (s.worker t).place = .returned ∨ (s.worker t).place = .dead) ∧
      s.ran.Perm s.submitted := by
  obtain ⟨hi, he⟩ := exits_inductive.reachable hr
  exact ⟨he.destroyed c h, ran_of_idle hr (hi.closing c (by rw [h]; rfl))⟩

theorem destroyed_dead_unit :
    ∃ s : ThreadPool 2 Unit Nat Nat, s.submitted = [⟨3, none, false⟩] ∧
      (∀ t, (s.worker t).place = .returned ∨ (s.worker t).place = .dead) ∧
        s.ran.Perm s.submitted := by
  have h₁ := (reachable_idle ⟨3, none, false⟩).step
    (@Step.call _ _ _ _ _ _ _ () .destroy rfl (fun _ => rfl) fun _ _ => rfl)
  have h₂ := h₁.step (Step.destroy (c := ()) rfl List.not_mem_nil (Nat.lt_irrefl 2))
  have h₃ := h₂.step (Step.quit (c := ()) (i := 0) rfl Nat.two_pos)
  have h₄ := h₃.step (Step.quit (c := ()) (i := 1) rfl Nat.one_lt_two)
  have h₅ := h₄.step (Step.quitDone (c := ()) (i := 2) rfl (Nat.lt_irrefl 2))
  -- The workers leave their loops, and the destructor can lock each `_del_mutex`.
  have h₆ := h₅.step (Step.own (t := 0) rfl)
  have h₇ := h₆.step (Step.own (t := 0) rfl)
  have h₈ := h₇.step (Step.own (t := 0) rfl)
  have h₉ := h₈.step (Step.own (t := 0) rfl)
  have h₁₀ := h₉.step (Step.reap (c := ()) (i := 0) rfl Nat.two_pos rfl)
  have h₁₁ := h₁₀.step (Step.own (t := 1) rfl)
  have h₁₂ := h₁₁.step (Step.own (t := 1) rfl)
  have h₁₃ := h₁₂.step (Step.own (t := 1) rfl)
  have h₁₄ := h₁₃.step (Step.own (t := 1) rfl)
  have h₁₅ := h₁₄.step (Step.reap (c := ()) (i := 1) rfl Nat.one_lt_two rfl)
  have h₁₆ := h₁₅.step (Step.reapDone (c := ()) (i := 2) rfl (Nat.lt_irrefl 2))
  exact ⟨_, rfl, destroyed_dead h₁₆ (c := ()) rfl⟩

end Kadpeer.L1.ThreadPool
