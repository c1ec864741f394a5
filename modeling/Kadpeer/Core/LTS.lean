import Mathlib.Data.List.Basic

/-!
# Labelled transition systems, runs and invariants

A run is kept with the states it passes through (`Run s tr s'`, `tr` a list
of label / next-state pairs), so that a property of *every state reached*
(`States`) can be compared with a condition on *every step taken* (`Steps`).

* `Inductive.reachable`: an inductive predicate holds in every reachable state.
* `inv_of_steps`, `states_of_steps`, `steps_of_steps`: the same for the runs whose steps
  all meet a condition.
* `Refines.reachable`: a system that refines another reaches, under the map, only what that
  one does.
* `states_iff_steps`: if steps that meet the condition keep a predicate `I`
  and a step that does not meet it lands outside `P`, then `P` holds in every
  state of a run exactly when every step of it meets the condition.
-/
namespace Kadpeer.Core

structure LTS (S L : Type) where
  init : S → Prop
  step : S → L → S → Prop

namespace LTS

variable {S L : Type} {M : LTS S L}

/-- The system of a partial step function. -/
def ofFn (init : S → Prop) (f : S → L → Option S) : LTS S L where
  init := init
  step s l s' := f s l = some s'

/-- A run, with each label and the state it leads to. -/
inductive Run (M : LTS S L) : S → List (L × S) → S → Prop
  | nil (s : S) : Run M s [] s
  | cons {s s' s'' : S} {l : L} {tr : List (L × S)} :
      M.step s l s' → Run M s' tr s'' → Run M s ((l, s') :: tr) s''

def Reachable (M : LTS S L) (s : S) : Prop := ∃ s₀ tr, M.init s₀ ∧ M.Run s₀ tr s

theorem Run.snoc {s s' s'' : S} {l : L} {tr : List (L × S)} (h : M.Run s tr s')
    (hst : M.step s' l s'') : M.Run s (tr ++ [(l, s'')]) s'' := by
  induction h with
  | nil s => exact .cons hst (.nil _)
  | cons hfirst _ ih => exact .cons hfirst (ih hst)

/-- Induction on the last step of a run. -/
theorem Run.inductionRight {P : List (L × S) → S → Prop} {s₀ s : S} {tr : List (L × S)}
    (hr : M.Run s₀ tr s) (hnil : P [] s₀)
    (hsnoc : ∀ tr s l s', M.Run s₀ tr s → P tr s → M.step s l s' → P (tr ++ [(l, s')]) s') :
    P tr s := by
  have hfrom : ∀ {s s' : S} {rest before : List (L × S)}, M.Run s rest s' → M.Run s₀ before s →
      P before s → P (before ++ rest) s' := by
    intro s s' rest before hrest
    induction hrest generalizing before with
    | nil => exact fun _ hP => (List.append_nil before).symm ▸ hP
    | @cons s s₁ s₂ l tr hst _ ih =>
      intro hbefore hP
      have happ : before ++ (l, s₁) :: tr = (before ++ [(l, s₁)]) ++ tr := by simp
      rw [happ]
      exact ih (hbefore.snoc hst) (hsnoc before s l s₁ hbefore hP hst)
  exact hfrom hr (.nil s₀) hnil

theorem Reachable.step {s s' : S} {l : L} (h : M.Reachable s) (hst : M.step s l s') :
    M.Reachable s' := by
  obtain ⟨s₀, tr, hi, hrun⟩ := h
  exact ⟨s₀, _, hi, hrun.snoc hst⟩

/-- `P` holds in every state of the run. -/
def States (P : S → Prop) (s : S) (tr : List (L × S)) : Prop := P s ∧ ∀ x ∈ tr, P x.2

/-- Every step of the run meets `ok` in the state it is taken from. -/
def Steps (ok : S → L → Prop) : S → List (L × S) → Prop
  | _, [] => True
  | s, (l, s') :: tr => ok s l ∧ Steps ok s' tr

instance Steps.decidable (ok : S → L → Prop) [∀ s l, Decidable (ok s l)] :
    ∀ s tr, Decidable (Steps ok s tr)
  | _, [] => instDecidableTrue
  | s, (l, s') :: tr =>
    haveI := Steps.decidable ok s' tr
    inferInstanceAs (Decidable (ok s l ∧ Steps ok s' tr))

/-! ## Invariants -/

structure Inductive (M : LTS S L) (P : S → Prop) : Prop where
  init : ∀ s, M.init s → P s
  step : ∀ s l s', P s → M.step s l s' → P s'

theorem inv_of_steps {I : S → Prop} {ok : S → L → Prop}
    (hI : ∀ s l s', I s → ok s l → M.step s l s' → I s') {s s' : S} {tr : List (L × S)}
    (hr : M.Run s tr s') (hs : I s) (hok : Steps ok s tr) : I s' := by
  induction hr with
  | nil => exact hs
  | cons hst _ ih => exact ih (hI _ _ _ hs hok.1 hst) hok.2

theorem steps_true (s : S) (tr : List (L × S)) : Steps (fun _ _ => True) s tr := by
  induction tr generalizing s with
  | nil => trivial
  | cons x tr ih => exact ⟨trivial, ih x.2⟩

theorem Inductive.run {P : S → Prop} (h : M.Inductive P) {s s' : S} {tr : List (L × S)}
    (hr : M.Run s tr s') (hs : P s) : P s' :=
  inv_of_steps (fun s l s' hP _ hst => h.step s l s' hP hst) hr hs (steps_true s tr)

theorem Inductive.reachable {P : S → Prop} (h : M.Inductive P) {s : S} (hr : M.Reachable s) :
    P s := by
  obtain ⟨s₀, tr, hi, hrun⟩ := hr
  exact h.run hrun (h.init s₀ hi)

/-- A predicate whose steps rest on an inductive one. -/
theorem Inductive.and {P Q : S → Prop} (h : M.Inductive P) (hinit : ∀ s, M.init s → Q s)
    (hstep : ∀ s l s', P s → Q s → M.step s l s' → Q s') : M.Inductive fun s => P s ∧ Q s where
  init s hi := ⟨h.init s hi, hinit s hi⟩
  step s l s' hs hst := ⟨h.step s l s' hs.1 hst, hstep s l s' hs.1 hs.2 hst⟩

theorem Steps.snoc {ok : S → L → Prop} {s s' s'' : S} {l : L} {tr : List (L × S)}
    (hr : M.Run s tr s') (h : Steps ok s tr) (hl : ok s' l) : Steps ok s (tr ++ [(l, s'')]) := by
  induction hr with
  | nil => exact ⟨hl, trivial⟩
  | cons _ _ ih => exact ⟨h.1, ih h.2 hl⟩

theorem Steps.mono {ok ok' : S → L → Prop} (h : ∀ s l, ok s l → ok' s l) {s : S}
    {tr : List (L × S)} (hs : Steps ok s tr) : Steps ok' s tr := by
  induction tr generalizing s with
  | nil => trivial
  | cons x tr ih => exact ⟨h _ _ hs.1, ih hs.2⟩

/-- Every state of a run whose steps all meet the condition. -/
theorem states_of_steps {I P : S → Prop} {ok : S → L → Prop} (hP : ∀ s, I s → P s)
    (hI : ∀ s l s', I s → ok s l → M.step s l s' → I s') {s s' : S} {tr : List (L × S)}
    (hr : M.Run s tr s') (hs : I s) (hok : Steps ok s tr) : States P s tr := by
  induction hr with
  | nil s => exact ⟨hP s hs, by simp⟩
  | @cons s s₁ _ l tr hst _ ih =>
    obtain ⟨h₁, h₂⟩ := ih (hI s l s₁ hs hok.1 hst) hok.2
    refine ⟨hP s hs, fun x hx => ?_⟩
    rcases List.mem_cons.mp hx with rfl | hx
    · exact h₁
    · exact h₂ x hx

/-- Every step of a run whose steps all meet another condition. -/
theorem steps_of_steps {I : S → Prop} {ok ok' : S → L → Prop}
    (h : ∀ s l s', I s → ok s l → M.step s l s' → ok' s l)
    (hI : ∀ s l s', I s → ok s l → M.step s l s' → I s') {s s' : S} {tr : List (L × S)}
    (hr : M.Run s tr s') (hs : I s) (hok : Steps ok s tr) : Steps ok' s tr := by
  induction hr with
  | nil => trivial
  | cons hst _ ih => exact ⟨h _ _ _ hs hok.1 hst, ih (hI _ _ _ hs hok.1 hst) hok.2⟩

/-- A step condition that decides whether the next state is good decides it
for whole runs. -/
theorem states_iff_steps {I P : S → Prop} {ok : S → L → Prop} (hP : ∀ s, I s → P s)
    (hI : ∀ s l s', I s → ok s l → M.step s l s' → I s')
    (hbad : ∀ s l s', I s → ¬ ok s l → M.step s l s' → ¬ P s') {s s' : S}
    {tr : List (L × S)} (hr : M.Run s tr s') (hs : I s) : States P s tr ↔ Steps ok s tr := by
  induction hr with
  | nil s => exact ⟨fun _ => trivial, fun _ => ⟨hP s hs, by simp⟩⟩
  | @cons s s₁ _ l tr hst _ ih =>
    constructor
    · rintro ⟨-, hall⟩
      have hok : ok s l := by
        by_contra hn
        exact hbad s l s₁ hs hn hst (hall (l, s₁) List.mem_cons_self)
      exact ⟨hok, (ih (hI s l s₁ hs hok hst)).mp
        ⟨hall (l, s₁) List.mem_cons_self, fun x hx => hall x (List.mem_cons_of_mem _ hx)⟩⟩
    · rintro ⟨hok, hrest⟩
      obtain ⟨h1, h2⟩ := (ih (hI s l s₁ hs hok hst)).mpr hrest
      refine ⟨hP s hs, fun x hx => ?_⟩
      rcases List.mem_cons.mp hx with rfl | hx
      · exact h1
      · exact h2 x hx

/-! ## Refinement -/

/-- Under the map `f` every step of `M` is one of `N` with the same label. -/
structure Refines {T : Type} (M : LTS S L) (N : LTS T L) (I : S → Prop) (f : S → T) : Prop where
  init : ∀ s, M.init s → N.init (f s)
  step : ∀ s l s', I s → M.step s l s' → N.step (f s) l (f s')

theorem Refines.run {T : Type} {N : LTS T L} {I : S → Prop} {f : S → T} (h : M.Refines N I f)
    (hI : M.Inductive I) {s s' : S} {tr : List (L × S)} (hr : M.Run s tr s') (hs : I s) :
    N.Run (f s) (tr.map (Prod.map id f)) (f s') := by
  induction hr with
  | nil s => exact .nil (f s)
  | cons hst _ ih => exact .cons (h.step _ _ _ hs hst) (ih (hI.step _ _ _ hs hst))

theorem Refines.reachable {T : Type} {N : LTS T L} {I : S → Prop} {f : S → T}
    (h : M.Refines N I f) (hI : M.Inductive I) {s : S} (hr : M.Reachable s) :
    N.Reachable (f s) := by
  obtain ⟨s₀, tr, hi, hrun⟩ := hr
  exact ⟨f s₀, _, h.init s₀ hi, h.run hI hrun (hI.init s₀ hi)⟩

/-! ## Executing a step function -/

/-- The trace of the labels `ls`, if every step is defined. -/
def exec (f : S → L → Option S) : S → List L → Option (List (L × S))
  | _, [] => some []
  | s, l :: ls => (f s l).bind fun s' => (exec f s' ls).map ((l, s') :: ·)

/-- The state a trace ends in. -/
def last (s : S) (tr : List (L × S)) : S := (tr.getLast?.map Prod.snd).getD s

theorem last_cons (s s' : S) (l : L) (tr : List (L × S)) :
    last s ((l, s') :: tr) = last s' tr := by
  cases tr with
  | nil => rfl
  | cons x tr => simp [last, List.getLast?_cons]

theorem run_of_exec {init : S → Prop} {f : S → L → Option S} :
    ∀ {s : S} {ls : List L} {tr : List (L × S)}, exec f s ls = some tr →
      (ofFn init f).Run s tr (last s tr)
  | s, [], tr, h => by
    simp only [exec, Option.some.injEq] at h
    subst h
    exact .nil s
  | s, l :: ls, tr, h => by
    simp only [exec, Option.bind_eq_some_iff, Option.map_eq_some_iff] at h
    obtain ⟨s', hs, tr', htr, rfl⟩ := h
    rw [last_cons]
    exact .cons hs (run_of_exec htr)

end LTS
end Kadpeer.Core
