import Kadpeer.L1Common.Dispatch

/-!
# Who is woken for an idle worker (`common/TThreadPool.cpp`)

`run` and `sync_all` wait on one condition, `_idle_cond`, and `append_idle` wakes
one thread with `signal`.

* `awake_of_waiting`: as long as nobody is in `sync_all` (the destructor calls it
  too), a caller of `run` sleeps only if for each idle worker another caller is
  up already.
* `syncAll_takes_wakeup`: a thread in `sync_all` can be the one that is woken, and
  it wakes nobody else. Then a caller of `run` sleeps on with every worker idle
  and asleep, and only a new call or a wait that returns by itself helps it.
-/
namespace Kadpeer.L1.ThreadPool

open Kadpeer.Core

variable {n : Nat} {C J P : Type} {s s' : ThreadPool n C J P} {t : Fin n} {c : C}

/-! ## Without `sync_all` -/

/-- In `get_idle`. -/
def Caller.wants : Caller n J P → Bool
  | .getIdle _ => true
  | _ => false

variable [DecidableEq C]

/-- The callers in `get_idle` that are not asleep. -/
def awake [Fintype C] (s : ThreadPool n C J P) : Finset C :=
  Finset.univ.filter fun c => (s.caller c).wants = true ∧ c ∉ s.waiting

structure Woken [Fintype C] (s : ThreadPool n C J P) : Prop where
  nodup : s.waiting.Nodup
  wants : ∀ c ∈ s.waiting, (s.caller c).wants = true
  /-- Each idle worker has a caller on its way. -/
  enough : s.waiting ≠ [] → s.idleThreads.length ≤ s.awake.card

/-- Nobody is in `sync_all`. -/
def NoSyncAll (s : ThreadPool n C J P) (_ : Thread n C) : Prop :=
  ∀ c, s.caller c ≠ .syncAll ∧ s.caller c ≠ .destroy

namespace Woken

variable [Fintype C]

theorem mem_awake : c ∈ s.awake ↔ (s.caller c).wants = true ∧ c ∉ s.waiting := by
  simp [awake]

/-- It is about the callers and the two lists. -/
theorem congr (h : Woken s) (hcaller : s'.caller = s.caller) (hidle : s'.idleThreads = s.idleThreads)
    (hwaiting : s'.waiting = s.waiting) : Woken s' := by
  cases s
  cases s'
  cases hcaller
  cases hidle
  cases hwaiting
  exact ⟨h.1, h.2, h.3⟩

/-- A caller that was not asleep and did not want a worker. -/
theorem setCaller (h : Woken s) {p : Caller n J P} (hc : (s.caller c).wants = false) :
    Woken (s.setCaller c p) := by
  have hne : ∀ c' ∈ s.waiting, c' ≠ c := by
    rintro c' hc' rfl
    rw [h.wants c' hc'] at hc
    cases hc
  refine ⟨h.nodup, fun c' hc' => ?_, fun hw => ?_⟩
  · simp only [ThreadPool.setCaller, Function.update_of_ne (hne c' hc')]
    exact h.wants c' hc'
  · refine (h.enough hw).trans (Finset.card_le_card fun c' hc' => ?_)
    obtain ⟨hwant, hnot⟩ := mem_awake.mp hc'
    have hcc : c' ≠ c := by
      rintro rfl
      rw [hwant] at hc
      cases hc
    refine mem_awake.mpr ⟨?_, hnot⟩
    simp only [ThreadPool.setCaller, Function.update_of_ne hcc]
    exact hwant

/-- A sleeper is up again: there is one more for the workers. -/
theorem erase (h : Woken s) (hc : c ∈ s.waiting) :
    (awake { s with waiting := s.waiting.erase c }).card = s.awake.card + 1 := by
  have heq : awake { s with waiting := s.waiting.erase c } = insert c s.awake := by
    ext c'
    rw [mem_awake, Finset.mem_insert, mem_awake, h.nodup.mem_erase_iff]
    by_cases hcc : c' = c
    · subst hcc
      simp [h.wants c' hc]
    · simp [hcc]
  rw [heq, Finset.card_insert_of_notMem]
  exact fun hmem => (mem_awake.mp hmem).2 hc

/-- A caller that gets a worker: there is one less of both. -/
theorem behead (h : Woken s) {task : Task J P} {rest : List (Fin n)}
    (hc : s.caller c = .getIdle task) (hawake : c ∉ s.waiting) (hidle : s.idleThreads = t :: rest) :
    Woken { s.setCaller c (.lockJob t task) with idleThreads := rest } := by
  have hne : ∀ c' ∈ s.waiting, c' ≠ c := by
    rintro c' hc' rfl
    exact hawake hc'
  have hmem : c ∈ s.awake := mem_awake.mpr ⟨by rw [hc]; rfl, hawake⟩
  have heq : awake { s.setCaller c (.lockJob t task) with idleThreads := rest } =
      s.awake.erase c := by
    ext c'
    rw [mem_awake, Finset.mem_erase, mem_awake]
    by_cases hcc : c' = c
    · subst hcc
      simp [ThreadPool.setCaller, Caller.wants]
    · simp [ThreadPool.setCaller, hcc]
  refine ⟨h.nodup, fun c' hc' => ?_, fun hw => ?_⟩
  · simp only [ThreadPool.setCaller, Function.update_of_ne (hne c' hc')]
    exact h.wants c' hc'
  · have hle := h.enough hw
    rw [hidle, List.length_cons] at hle
    rw [heq, Finset.card_erase_of_mem hmem]
    exact Nat.le_sub_one_of_lt hle

theorem step [DecidableEq J] {x : Thread n C} (h : Woken s) (hok : NoSyncAll s x)
    (hs : Step s x s') : Woken s' := by
  cases hs with
  | @own t w hn => exact h.congr rfl rfl rfl
  | @wake t hsleep => exact h.congr rfl rfl rfl
  | @appendIdle t waiting' hplace hmem hsignal =>
    rcases hsignal with ⟨hw, rfl⟩ | ⟨c, hc, rfl⟩
    · exact ⟨List.nodup_nil, fun c hc => absurd hc List.not_mem_nil, fun hne => absurd rfl hne⟩
    · refine ⟨h.nodup.erase c, fun c' hc' => h.wants c' (List.mem_of_mem_erase hc'), fun _ => ?_⟩
      have hcard := h.erase hc
      have hle := h.enough (List.ne_nil_of_mem hc)
      have heq : (awake { s.setWorker t { s.worker t with place := .await } with
          idleThreads := s.idleThreads ++ [t], waiting := s.waiting.erase c }).card =
          (awake { s with waiting := s.waiting.erase c }).card := rfl
      rw [heq, hcard, List.length_append, List.length_singleton]
      omega
  | @appendTwice t hplace hmem => exact h.congr rfl rfl rfl
  | @runJob t task hplace htask => exact h.congr rfl rfl rfl
  | @unlockJob t j hplace hjob => exact h.congr rfl rfl rfl
  | @call c op hc halive hlast => exact h.setCaller (by rw [hc]; rfl)
  | @rouse c hmem =>
    refine ⟨h.nodup.erase c, fun c' hc' => h.wants c' (List.mem_of_mem_erase hc'), fun _ => ?_⟩
    rw [h.erase hmem]
    exact (h.enough (List.ne_nil_of_mem hmem)).trans (Nat.le_succ _)
  | @getIdleWait c task hc hawake hidle =>
    refine ⟨List.nodup_cons.mpr ⟨hawake, h.nodup⟩, fun c' hc' => ?_, fun _ => ?_⟩
    · rcases List.mem_cons.mp hc' with rfl | hc'
      · rw [hc]
        rfl
      · exact h.wants c' hc'
    · rw [hidle]
      exact Nat.zero_le _
  | @behead c task t rest hc hawake hidle => exact h.behead hc hawake hidle
  | @lockJob c t task hc hfree =>
    exact (h.setCaller (p := .runJob t task) (by rw [hc]; rfl)).congr rfl rfl rfl
  | @submit c t task hc =>
    exact (h.setCaller (p := .out) (by rw [hc]; rfl)).congr rfl rfl rfl
  | @syncLock c j hc hfree =>
    exact (h.setCaller (p := .syncUnlock j) (by rw [hc]; rfl)).congr rfl rfl rfl
  | @syncUnlock c j hc =>
    exact (h.setCaller (p := .out) (by rw [hc]; rfl)).congr rfl rfl rfl
  | @syncAllWait c hc hawake hidle => exact (hc.elim (hok c).1 (hok c).2).elim
  | @syncAllDone c hc hawake hidle => exact absurd hc (hok c).1
  | @destroy c hc hawake hidle => exact absurd hc (hok c).2
  | @quit c i hc hi =>
    exact (h.setCaller (p := .quit (i + 1)) (by rw [hc]; rfl)).congr rfl rfl rfl
  | @quitDone c i hc hi => exact h.setCaller (by rw [hc]; rfl)
  | @reap c i hc hi hfree =>
    exact (h.setCaller (p := .reap (i + 1)) (by rw [hc]; rfl)).congr rfl rfl rfl
  | @reapDone c i hc hi => exact h.setCaller (by rw [hc]; rfl)

end Woken

/-- **Without `sync_all` no wakeup is lost.** -/
theorem awake_of_waiting [DecidableEq J] [Fintype C] {s₀ : ThreadPool n C J P}
    {tr : List (Thread n C × ThreadPool n C J P)} (hinit : (pool n C J P).init s₀)
    (hr : (pool n C J P).Run s₀ tr s) (hok : LTS.Steps NoSyncAll s₀ tr) (hc : c ∈ s.waiting) :
    s.idleThreads.length ≤ s.awake.card := by
  have hstart : Woken s₀ := by
    obtain ⟨-, -, -, hw, -, -, -⟩ := hinit
    refine ⟨by rw [hw]; exact List.nodup_nil, fun c hc => ?_, fun hne => absurd hw hne⟩
    rw [hw] at hc
    cases hc
  have hstep : ∀ (s : ThreadPool n C J P) (x : Thread n C) (s' : ThreadPool n C J P), Woken s →
      NoSyncAll s x → (pool n C J P).step s x s' → Woken s' := fun s x s' h hok hs => h.step hok hs
  exact (LTS.inv_of_steps hstep hr hstart hok).enough (List.ne_nil_of_mem hc)

omit [DecidableEq C] in
/-- Two callers sleep, and the worker that comes wakes one of them. -/
theorem awake_of_waiting_bool :
    ∃ s : ThreadPool 1 Bool Nat Nat, s.waiting = [false] ∧ s.idleThreads = [0] ∧
      s.idleThreads.length ≤ s.awake.card := by
  have hinit : (pool 1 Bool Nat Nat).init
      ⟨fun _ => Worker.create, fun _ => .out, [], [], fun _ => false, [], []⟩ :=
    ⟨fun _ => rfl, fun _ => rfl, rfl, rfl, fun _ => rfl, rfl, rfl⟩
  have halive : ∀ s : ThreadPool 1 Bool Nat Nat, s.caller true = .getIdle ⟨3, none, false⟩ →
      s.caller false = .out → ∀ c, (s.caller c).destroying = false := fun s ht hf =>
    Bool.forall_bool.mpr ⟨by rw [hf]; rfl, by rw [ht]; rfl⟩
  have hrun := LTS.Run.cons (M := pool 1 Bool Nat Nat)
    (s := ⟨fun _ => Worker.create, fun _ => .out, [], [], fun _ => false, [], []⟩)
    (@Step.call _ _ _ _ _ _ _ true (.run ⟨3, none, false⟩) rfl (fun _ => rfl) fun h => by cases h) <|
    .cons (Step.getIdleWait (c := true) rfl List.not_mem_nil rfl) <|
    .cons (@Step.call _ _ _ _ _ _ _ false (.run ⟨4, none, false⟩) rfl (halive _ rfl rfl)
      fun h => by cases h) <|
    .cons (Step.getIdleWait (c := false) rfl (by simp [setCaller]) rfl) <|
    .cons (Step.own (t := 0) rfl) <| .cons (Step.own (t := 0) rfl) <|
    .cons (Step.appendIdle (t := 0) rfl List.not_mem_nil
      (.inr ⟨true, List.mem_cons_of_mem _ List.mem_cons_self, rfl⟩)) (.nil _)
  refine ⟨_, rfl, rfl, awake_of_waiting (c := false) hinit hrun ?_ List.mem_cons_self⟩
  simp [LTS.Steps, NoSyncAll, setCaller, setWorker, Op.enter]

/-! ## With it -/

/-- Asleep in its loop with nothing to do. -/
def Worker.resting : Worker J P := ⟨.await, none, none, false, false, true, true⟩

/-- A worker begins, appends itself and goes to sleep, and one sleeper is woken. -/
theorem arrive [DecidableEq J] {waiting' : List C} (hr : (pool n C J P).Reachable s)
    (hw : s.worker t = Worker.create) (hmem : t ∉ s.idleThreads)
    (hsignal : Signals s.waiting waiting') :
    ∃ s', (pool n C J P).Reachable s' ∧
      s'.worker = Function.update s.worker t Worker.resting ∧ s'.caller = s.caller ∧
      s'.idleThreads = s.idleThreads ++ [t] ∧ s'.waiting = waiting' := by
  let w₁ : Worker J P := ⟨.test, none, none, false, false, true, false⟩
  let w₂ : Worker J P := ⟨.appendIdle, none, none, false, false, true, false⟩
  have h₁ : (s.worker t).next = some w₁ := by rw [hw]; rfl
  have hr₁ := hr.step (Step.own h₁)
  have hw₁ : (s.setWorker t w₁).worker t = w₁ := Function.update_self _ _ _
  have h₂ : ((s.setWorker t w₁).worker t).next = some w₂ := by rw [hw₁]; rfl
  have hr₂ := hr₁.step (Step.own h₂)
  have hw₂ : ((s.setWorker t w₁).setWorker t w₂).worker t = w₂ := Function.update_self _ _ _
  have hr₃ := hr₂.step (Step.appendIdle (by rw [hw₂]) hmem hsignal)
  have h₄ : ∀ s₃ : ThreadPool n C J P, s₃.worker t = { w₂ with place := .await } →
      (s₃.worker t).next = some Worker.resting := fun s₃ hw₃ => by rw [hw₃]; rfl
  refine ⟨_, hr₃.step (Step.own (h₄ _ ?_)), ?_, rfl, rfl, rfl⟩
  · rw [hw₂]
    exact Function.update_self _ _ _
  · simp only [setWorker, Function.update_idem]

/-- The first `k` workers sleep in the list, the others have not begun; one caller sleeps in
`run` and one in `sync_all`. -/
structure Stage (s : ThreadPool n C J P) (c₁ c₂ : C) (task : Task J P) (k : Nat) : Prop where
  idle : s.idleThreads = (List.finRange n).take k
  worker : ∀ t : Fin n, s.worker t = if t.val < k then Worker.resting else Worker.create
  run : s.caller c₁ = .getIdle task
  sync : s.caller c₂ = .syncAll
  out : ∀ c, c ≠ c₁ → c ≠ c₂ → s.caller c = .out
  waiting : s.waiting = [c₂, c₁]

/-- Both callers come before any worker is in the list. -/
theorem stage_zero [DecidableEq J] (hn : 0 < n) {c₁ c₂ : C} (hne : c₁ ≠ c₂) (task : Task J P) :
    ∃ s : ThreadPool n C J P, (pool n C J P).Reachable s ∧ Stage s c₁ c₂ task 0 := by
  obtain ⟨s, hs⟩ := exists_create (n := n) (C := C) (J := J) (P := P)
  have hr₀ : (pool n C J P).Reachable s := ⟨s, [], hs, .nil s⟩
  obtain ⟨hw, hc, hidle, hwait, -, -, -⟩ := hs
  have hcall₁ : Step s (.caller c₁) (s.setCaller c₁ (Op.run task).enter) :=
    .call (hc c₁) (fun c => by rw [hc]; rfl) fun h => by cases h
  have hr₁ := hr₀.step hcall₁
  have hrun : (s.setCaller c₁ (.getIdle task)).caller c₁ = .getIdle task :=
    Function.update_self _ _ _
  have hout : ∀ c, c ≠ c₁ → (s.setCaller c₁ (.getIdle task)).caller c = .out := fun c hcc =>
    (Function.update_of_ne hcc _ _).trans (hc c)
  have hr₂ := hr₁.step (Step.getIdleWait hrun (by rw [setCaller, hwait]; exact List.not_mem_nil) hidle)
  have halive : ∀ c, ((s.setCaller c₁ (.getIdle task)).caller c).destroying = false := fun c => by
    by_cases hcc : c = c₁
    · rw [hcc, hrun]
      rfl
    · rw [hout c hcc]
      rfl
  have hr₃ := hr₂.step (@Step.call _ _ _ _ _ _ _ c₂ .syncAll (hout c₂ hne.symm) halive
    fun h => by cases h)
  have hsync : ∀ s' : ThreadPool n C J P, (s'.setCaller c₂ .syncAll).caller c₂ = .syncAll :=
    fun s' => Function.update_self _ _ _
  have hr₄ := hr₃.step (Step.syncAllWait (c := c₂) (.inl (hsync _))
    (by simp [setCaller, hwait, hne.symm]) (by simp [setCaller, hidle, hn]))
  refine ⟨_, hr₄, ?_, ?_, ?_, ?_, ?_, ?_⟩
  · simp [setCaller, hidle]
  · intro t
    simp [setCaller, hw]
  · simp [setCaller, Op.enter, hne]
  · simp [setCaller, Op.enter]
  · intro c h₁ h₂
    simp [setCaller, h₁, h₂, hc]
  · simp [setCaller, hwait]

theorem mem_take_finRange {k : Nat} : t ∈ (List.finRange n).take k ↔ t.val < k := by
  rw [List.mem_take_iff_getElem]
  constructor
  · rintro ⟨i, hi, rfl⟩
    simp only [List.getElem_finRange, Fin.val_cast]
    omega
  · intro h
    exact ⟨t.val, by simp [h], by simp⟩

/-- The next worker arrives and wakes `sync_all`. -/
theorem Stage.arrive [DecidableEq J] {c₁ c₂ : C} {task : Task J P} {k : Nat}
    (h : Stage s c₁ c₂ task k) (hr : (pool n C J P).Reachable s) (hk : k < n) :
    ∃ s', (pool n C J P).Reachable s' ∧ s'.idleThreads = (List.finRange n).take (k + 1) ∧
      (∀ t : Fin n, s'.worker t = if t.val < k + 1 then Worker.resting else Worker.create) ∧
      s'.caller = s.caller ∧ s'.waiting = [c₁] := by
  have hw : s.worker ⟨k, hk⟩ = Worker.create := by rw [h.worker, if_neg (Nat.lt_irrefl k)]
  have hmem : (⟨k, hk⟩ : Fin n) ∉ s.idleThreads := by
    rw [h.idle, mem_take_finRange]
    exact Nat.lt_irrefl k
  have hsignal : Signals s.waiting [c₁] := by
    rw [h.waiting]
    exact .inr ⟨c₂, List.mem_cons_self, (List.erase_cons_head _ _).symm⟩
  obtain ⟨s', hr', hw', hc', hidle', hwait'⟩ := ThreadPool.arrive hr hw hmem hsignal
  refine ⟨s', hr', ?_, fun t => ?_, hc', hwait'⟩
  · rw [hidle', h.idle, List.take_add_one]
    simp [hk]
  · rw [hw', Function.update_apply]
    split
    · rename_i heq
      rw [heq, if_pos (Nat.lt_succ_self k)]
    · rename_i hne
      have hval : t.val ≠ k := fun hv => hne (Fin.ext hv)
      rw [h.worker]
      split
      · rw [if_pos (by omega)]
      · rw [if_neg (by omega)]

theorem exists_stage [DecidableEq J] {c₁ c₂ : C} (hne : c₁ ≠ c₂) (task : Task J P) {k : Nat}
    (hk : k < n) : ∃ s : ThreadPool n C J P, (pool n C J P).Reachable s ∧ Stage s c₁ c₂ task k := by
  induction k with
  | zero => exact stage_zero hk hne task
  | succ k ih =>
    obtain ⟨s, hr, hs⟩ := ih (by omega)
    obtain ⟨s', hr', hidle, hw, hc, hwait⟩ := hs.arrive hr (by omega)
    -- One worker is still missing, so `sync_all` goes to sleep again.
    have hlen : s'.idleThreads.length < n := by
      rw [hidle, List.length_take, List.length_finRange]
      omega
    have hr'' := hr'.step (Step.syncAllWait (c := c₂) (.inl (by rw [hc]; exact hs.sync))
      (by simp [hwait, hne.symm]) hlen)
    exact ⟨_, hr'', hidle, hw, by rw [← hs.run, ← hc], by rw [← hs.sync, ← hc],
      fun c h₁ h₂ => by rw [← hs.out c h₁ h₂, ← hc], by rw [hwait]⟩

/-- **`sync_all` can take the wakeup meant for `run`**, in a pool of any size: the caller of
`run` sleeps while every worker is in the list and asleep, and nobody else is in a call. -/
theorem syncAll_takes_wakeup [DecidableEq J] (hn : 0 < n) {c₁ c₂ : C} (hne : c₁ ≠ c₂)
    (task : Task J P) :
    ∃ s : ThreadPool n C J P, (pool n C J P).Reachable s ∧ s.caller c₁ = .getIdle task ∧
      c₁ ∈ s.waiting ∧ s.idleThreads.length = n ∧ (∀ t, (s.worker t).asleep = true) ∧
      ∀ c, c ≠ c₁ → s.caller c = .out := by
  obtain ⟨s, hr, hs⟩ := exists_stage hne task (Nat.sub_lt hn Nat.one_pos)
  obtain ⟨s', hr', hidle, hw, hc, hwait⟩ := hs.arrive hr (Nat.sub_lt hn Nat.one_pos)
  rw [Nat.sub_add_cancel hn] at hidle hw
  have hlen : s'.idleThreads.length = n := by
    rw [hidle, List.length_take, List.length_finRange, Nat.min_self]
  have hsync : s'.caller c₂ = .syncAll := by rw [hc]; exact hs.sync
  have hr'' := hr'.step (Step.syncAllDone hsync (by simp [hwait, hne.symm]) (by omega))
  refine ⟨_, hr'', ?_, ?_, hlen, fun t => ?_, fun c hcc => ?_⟩
  · rw [← hs.run, ← hc]
    exact Function.update_of_ne hne _ _
  · rw [setCaller, hwait]
    exact List.mem_singleton_self _
  · simp only [setCaller, hw]
    rw [if_pos t.isLt]
    rfl
  · by_cases h₂ : c = c₂
    · rw [h₂]
      exact Function.update_self _ _ _
    · rw [← hs.out c hcc h₂, ← hc]
      exact Function.update_of_ne h₂ _ _

theorem syncAll_takes_wakeup_bool :
    ∃ s : ThreadPool 2 Bool Nat Nat, (pool 2 Bool Nat Nat).Reachable s ∧
      s.caller true = .getIdle ⟨3, none, false⟩ ∧ true ∈ s.waiting ∧ s.idleThreads.length = 2 ∧
      (∀ t, (s.worker t).asleep = true) ∧ ∀ c, c ≠ true → s.caller c = .out :=
  syncAll_takes_wakeup Nat.two_pos (by decide : true ≠ false) ⟨3, none, false⟩

end Kadpeer.L1.ThreadPool
