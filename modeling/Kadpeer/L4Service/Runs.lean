import Kadpeer.L4Service.KadService

/-!
# Runs of a joined node

The node handles requests one after the other, with purges of its store in between. A
request comes with the two readings of the clock that it may take; the clock does not go
back. A request that does not return is no step.

* `step_cases`: what one step does to the store.
-/
namespace Kadpeer.L4

open Kadpeer.Core Kadpeer.L1 Kadpeer.L2

/-- The answers at two readings of the clock. -/
def Answers.at (A : Answers) (first second : Nat) : Answers :=
  { A with first := DataStore.clock32 first, second := DataStore.clock32 second }

inductive Event
  | request (A : Answers) (first second : Nat) (request : KadService.Request)
  | purge (now : Nat)

/-- A service and the last reading of the clock. -/
structure Node where
  clock : Nat
  service : KadService

namespace Node

def withStore (n : Node) (clock : Nat) (d : DataStore) : Node where
  clock := clock
  service := { n.service with datastore := d }

def step (X : Externals) (n : Node) : Event → Option Node
  | .request A first second request =>
    if n.clock ≤ first ∧ first ≤ second then
      (KadService.handle X (A.at first second) n.service request).toOption.map fun out =>
        n.withStore second out.datastore
    else none
  | .purge now =>
    if n.clock ≤ now then
      (n.service.datastore.deleteExpiredValues (DataStore.clock32 now)).toOption.map fun d =>
        n.withStore now d
    else none

/-- Joined, with an empty store. -/
def Starts (n : Node) : Prop :=
  n.service.nodeJoined = true ∧ ∃ tRefresh, n.service.datastore = .new tRefresh

def system (X : Externals) : LTS Node Event := LTS.ofFn Starts (step X)

variable {X : Externals} {n n' : Node} {ev : Event}

theorem request_eq_some {A : Answers} {first second : Nat} {request : KadService.Request} :
    step X n (.request A first second request) = some n' ↔
      n.clock ≤ first ∧ first ≤ second ∧
        ∃ out, KadService.handle X (A.at first second) n.service request = .ok out ∧
          n' = n.withStore second out.datastore := by
  unfold step
  simp only
  split
  · rename_i h
    cases KadService.handle X (A.at first second) n.service request with
    | error f => simp [Except.toOption]
    | ok out => simp [Except.toOption, h, eq_comm]
  · rename_i h
    constructor
    · intro hn
      cases hn
    · intro ⟨hf, hs, _⟩
      exact absurd ⟨hf, hs⟩ h

theorem purge_eq_some {now : Nat} : step X n (.purge now) = some n' ↔ n.clock ≤ now ∧
    ∃ d, n.service.datastore.deleteExpiredValues (DataStore.clock32 now) = .ok d ∧
      n' = n.withStore now d := by
  unfold step
  simp only
  split
  · rename_i h
    cases n.service.datastore.deleteExpiredValues (DataStore.clock32 now) with
    | error f => simp [Except.toOption]
    | ok d => simp [Except.toOption, h, eq_comm]
  · rename_i h
    simp [h]

/-- What a step does to the store: a purge keeps some entries, a request has an `Effect`. -/
theorem step_cases (h : step X n ev = some n') :
    (∀ e ∈ n'.service.datastore.datastore, e ∈ n.service.datastore.datastore) ∨
      ∃ A first second request result, ev = .request A first second request ∧
        KadService.Effect X (A.at first second) n.service request result n'.service.datastore := by
  cases ev with
  | request A first second request =>
    obtain ⟨-, -, out, hout, rfl⟩ := request_eq_some.mp h
    exact .inr ⟨A, first, second, request, out.response, rfl, KadService.handle_effect hout⟩
  | purge now =>
    obtain ⟨-, d, hd, rfl⟩ := purge_eq_some.mp h
    exact .inl fun e he => ((DataStore.mem_deleteExpiredValues hd).mp he).1

/-! ## Small runs -/

/-- A joined node with an empty store. -/
def start (clock : Nat) : Node := { clock := clock, service := KadService.joinedService (.new 0) }

theorem start_starts (clock : Nat) : Starts (start clock) := ⟨rfl, 0, rfl⟩

/-- The run that the events make, if each is defined. -/
theorem run_start {evs : List Event}
    (h : (LTS.exec (step KadService.plainExternals) (start 1000) evs).isSome = true) :
    (system KadService.plainExternals).Run (start 1000)
      ((LTS.exec (step KadService.plainExternals) (start 1000) evs).get h)
      (LTS.last (start 1000) ((LTS.exec (step KadService.plainExternals) (start 1000) evs).get h)) :=
  LTS.run_of_exec (Option.some_get h).symm

/-- A value for the key "k" and ten seconds, at 1000. -/
def publishOnce (sigValue : SignedValue) : Event :=
  .request (KadService.plainAnswers 0) 1000 1000 (.store {
    key := bytes ['k']
    sigValue := sigValue
    ttl := 10
    publish := true
    senderInfo := KadService.peer
    isset := { value := true } })

/-- The node after it. -/
def publishedOnce (sigValue : SignedValue) : Node := (start 1000).withStore 1000 {
  datastore := ⟨[.new (bytes ['k']) sigValue.ser 1000 1010 10 false], List.pairwise_singleton _ _⟩
  tRefresh := 0 }

/-- The step to it, where the value is taken. -/
theorem reachable_publishedOnce {sigValue : SignedValue}
    (h : step KadService.plainExternals (start 1000) (publishOnce sigValue) =
      some (publishedOnce sigValue)) :
    (system KadService.plainExternals).Reachable (publishedOnce sigValue) :=
  ⟨_, _, start_starts 1000, .cons h (.nil _)⟩

end Node
end Kadpeer.L4
