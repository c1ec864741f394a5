import Kadpeer.L4Service.Results

/-!
# Which signed value a request hits

`Delete` and `Update` name a signed value; the store has the string that its value and
signature make in a row. `Traced` adds to a node the signed values that were put with a
success, and an entry of the store is the string of one of them (`FromPut`).

* `fromPut_step`: one event keeps that, if the store takes no update without an answer.
* `hitsNamed_of_steps`: what is deleted or updated was put, if no other signed value with
  the same string was.
-/
namespace Kadpeer.L4

open Kadpeer.Core Kadpeer.L1 Kadpeer.L2 KadService

/-- The request returns with success. -/
def Node.answered (X : Externals) (n : Node) : Event → Bool
  | .request A first second request =>
    match handle X (A.at first second) n.service request with
    | .ok out => out.response = kRpcResultSuccess
    | .error _ => false
  | .purge _ => false

/-- The key and the signed value that the request is to put. -/
def Event.puts : Event → List (Bytes × SignedValue)
  | .request _ _ _ (.store r) => [(r.key, r.sigValue)]
  | .request _ _ _ (.update r) => [(r.key, r.newValue)]
  | _ => []

structure Traced where
  node : Node
  put : List (Bytes × SignedValue)

namespace Traced

def step (X : Externals) (t : Traced) (ev : Event) : Option Traced :=
  (Node.step X t.node ev).map fun node => {
    node := node
    put := if Node.answered X t.node ev then t.put ++ ev.puts else t.put }

def system (X : Externals) : LTS Traced Event :=
  LTS.ofFn (fun t => Node.Starts t.node ∧ t.put = []) (step X)

/-- A `Delete` or an `Update` that succeeds names a signed value that was put under the key. -/
def HitsNamed (X : Externals) (t : Traced) (ev : Event) : Prop :=
  Node.answered X t.node ev = true →
    match ev with
    | .request _ _ _ (.delete r) => (r.key, r.value) ∈ t.put
    | .request _ _ _ (.update r) => (r.key, r.oldValue) ∈ t.put
    | _ => True

/-- No other signed value was put under the key whose value and signature make the same
string. -/
def Unmistaken (t : Traced) (key : Bytes) (sv : SignedValue) : Prop :=
  ∀ p ∈ t.put, p.1 = key → p.2.ser = sv.ser → p.2 = sv

/-- A named signed value is not mistaken for another one, and an `Update` that the store takes
has a sender with an id. -/
def NamesOne (X : Externals) (t : Traced) : Event → Prop
  | .request _ _ _ (.delete r) => t.Unmistaken r.key r.value
  | .request A first second (.update r) => t.Unmistaken r.key r.oldValue ∧
      (checkUpdateRequest X (A.at first second) t.node.service r = true →
        t.node.service.datastore.UpdateAccepts r.key r.oldValue.ser r.newValue.ser →
        r.senderInfo.nodeId ≠ [])
  | _ => True

/-- Every entry is the string of a signed value that was put under its key. -/
def FromPut (t : Traced) : Prop :=
  ∀ e ∈ t.node.service.datastore.datastore, ∃ p ∈ t.put, p.1 = e.key ∧ p.2.ser = e.value

variable {X : Externals} {t t' : Traced} {ev : Event}

theorem step_eq_some (h : step X t ev = some t') : Node.step X t.node ev = some t'.node ∧
    t'.put = if Node.answered X t.node ev then t.put ++ ev.puts else t.put := by
  obtain ⟨node, hn, rfl⟩ := Option.map_eq_some_iff.mp h
  exact ⟨hn, rfl⟩

theorem put_subset (h : step X t ev = some t') : ∀ p ∈ t.put, p ∈ t'.put := by
  rw [(step_eq_some h).2]
  intro p hp
  split
  · exact List.mem_append_left _ hp
  · exact hp

/-- A request that is carried out, its effect, and whether it is answered with success. -/
theorem step_request {A : Answers} {first second : Nat} {request : Request}
    (h : step X t (.request A first second request) = some t') :
    ∃ result, Effect X (A.at first second) t.node.service request result
        t'.node.service.datastore ∧
      (Node.answered X t.node (.request A first second request) = true ↔ result = kRpcResultSuccess) := by
  obtain ⟨hn, -⟩ := step_eq_some h
  obtain ⟨-, -, out, hout, heq⟩ := Node.request_eq_some.mp hn
  refine ⟨out.response, ?_, ?_⟩
  · rw [heq]
    exact handle_effect hout
  · simp [Node.answered, hout]

/-- The entry has the pair of one that was there. -/
def Carried (d : DataStore) (e : KeyValueTuple) : Prop :=
  ∃ e' ∈ d.datastore, e'.key = e.key ∧ e'.value = e.value

theorem carried_of_puts {d d' : DataStore} {old tuple : KeyValueTuple} (h : d.Puts old tuple d')
    (hold : old ∈ d.datastore) (hkey : tuple.key = old.key) (hvalue : tuple.value = old.value) :
    ∀ e ∈ d'.datastore, Carried d e := by
  intro e he
  rcases (h e).mp he with rfl | ⟨hed, -⟩
  · exact ⟨old, hold, hkey.symm, hvalue.symm⟩
  · exact ⟨e, hed, rfl, rfl⟩

theorem carried_mark {s : KadService} {r : DeleteRequest} :
    ∀ e ∈ (mark s r).2.datastore, Carried s.datastore e := by
  rcases mark_cases s r with ⟨hsame, -⟩ | ⟨e, hf, -, hput⟩
  · rw [hsame]
    exact fun e he => ⟨e, he, rfl, rfl⟩
  · exact carried_of_puts hput (DataStore.find_eq_some.mp hf).1 rfl rfl

/-- What `StoreValueLocal` writes is the string it is given, if it answers success. -/
theorem carried_writeValue {A : Answers} {key serValue : Bytes} {ttl : I32} {publish : Bool}
    {d : DataStore} : ∀ e ∈ (writeValue X A key serValue ttl publish d).2.datastore,
      Carried d e ∨ ((writeValue X A key serValue ttl publish d).1 = true ∧
        e.key = key ∧ e.value = serValue) := by
  generalize hw : writeValue X A key serValue ttl publish d = w
  cases hw ▸ writeValue_writes X A key serValue ttl publish d with
  | refused => exact fun e he => .inl ⟨e, he, rfl, rfl⟩
  | stored hcan hnow hnew haccepts =>
    intro e he
    obtain ⟨hok, hput⟩ := DataStore.storeItem_accepts haccepts
    rcases (hput e).mp he with rfl | ⟨hed, -⟩
    · exact .inr ⟨hok, rfl, rfl⟩
    · exact .inl ⟨e, hed, rfl, rfl⟩
  | refreshed _ hf hs =>
    exact fun e he => .inl (carried_of_puts (DataStore.refreshItem_live hf hs).2
      (DataStore.find_eq_some.mp hf).1 rfl rfl e he)

theorem carried_write {A : Answers} {s : KadService} {r : UpdateRequest} :
    ∀ e ∈ (write X A s r).2.datastore, Carried s.datastore e ∨
      (s.datastore.UpdateAccepts r.key r.oldValue.ser r.newValue.ser ∧
        e.key = r.key ∧ e.value = r.newValue.ser) := by
  rcases write_cases X A s r with hsame | ⟨haccepts, old, -, hput⟩
  · rw [hsame]
    exact fun e he => .inl ⟨e, he, rfl, rfl⟩
  · intro e he
    rcases (hput e).mp he with rfl | ⟨hed, -⟩
    · exact .inr ⟨haccepts, rfl, rfl⟩
    · exact .inl ⟨e, hed, rfl, rfl⟩

theorem fromPut_step (h : FromPut t) (hok : NamesOne X t ev) (hs : step X t ev = some t') :
    FromPut t' := by
  have hold : ∀ e, Carried t.node.service.datastore e → ∃ p ∈ t'.put, p.1 = e.key ∧ p.2.ser = e.value := by
    intro e ⟨e', he', hk, hv⟩
    obtain ⟨p, hp, hpk, hpv⟩ := h e' he'
    exact ⟨p, put_subset hs p hp, hpk.trans hk, hpv.trans hv⟩
  obtain ⟨hn, hput⟩ := step_eq_some hs
  cases ev with
  | purge now =>
    rcases Node.step_cases hn with hsub | ⟨A, first, second, request, result, hev, -⟩
    · exact fun e he => hold e ⟨e, hsub e he, rfl, rfl⟩
    · cases hev
  | request A first second request =>
    obtain ⟨result, heffect, hans⟩ := step_request hs
    have hanswered : result = kRpcResultSuccess →
        ∀ p ∈ Event.puts (.request A first second request), p ∈ t'.put := by
      intro hr p hp
      rw [hput, if_pos (hans.mpr hr)]
      exact List.mem_append_right _ hp
    unfold FromPut
    generalize t'.node.service.datastore = d at heffect
    cases heffect with
    | read => exact fun e he => hold e ⟨e, he, rfl, rfl⟩
    | refused => exact fun e he => hold e ⟨e, he, rfl, rfl⟩
    | @stored r =>
      intro e he
      rcases carried_writeValue e he with hc | ⟨hdone, hk, hv⟩
      · exact hold e hc
      · exact ⟨(r.key, r.sigValue), hanswered (if_pos hdone) _ List.mem_cons_self, hk.symm, hv.symm⟩
    | deleted => exact fun e he => hold e (carried_mark e he)
    | @updated r hj hcheck =>
      intro e he
      rcases carried_write e he with hc | ⟨haccepts, hk, hv⟩
      · exact hold e hc
      · have hdone : (write X (A.at first second) t.node.service r).1 = true ∧ r.senderInfo.nodeId ≠ [] :=
          ⟨DataStore.updateItem_fst.mpr haccepts, hok.2 hcheck haccepts⟩
        exact ⟨(r.key, r.newValue), hanswered (if_pos hdone) _ List.mem_cons_self, hk.symm, hv.symm⟩

/-- The signed value that has the string of an entry, if it is not mistaken. -/
theorem FromPut.named {key : Bytes} {sv : SignedValue} {e : KeyValueTuple} (h : FromPut t)
    (hname : t.Unmistaken key sv) (hf : t.node.service.datastore.find key sv.ser = some e) :
    (key, sv) ∈ t.put := by
  obtain ⟨he, hk, hv⟩ := DataStore.find_eq_some.mp hf
  obtain ⟨p, hp, hpk, hpv⟩ := h e he
  have hsv : p.2 = sv := hname p hp (hpk.trans hk) (hpv.trans hv)
  have hpair : p = (key, sv) := Prod.ext (hpk.trans hk) hsv
  exact hpair ▸ hp

theorem hitsNamed_of_fromPut (h : FromPut t) (hok : NamesOne X t ev) (hs : step X t ev = some t') :
    HitsNamed X t ev := by
  intro hanswered
  cases ev with
  | purge now => trivial
  | request A first second request =>
    obtain ⟨result, heffect, hans⟩ := step_request hs
    have hsuccess := hans.mp hanswered
    generalize t'.node.service.datastore = d at heffect
    cases heffect with
    | read hr => cases request <;> trivial
    | refused => exact absurd hsuccess.symm success_ne_failure
    | stored => trivial
    | @deleted r =>
      obtain ⟨hmark, -⟩ := answered_success_iff.mp hsuccess
      obtain ⟨e, hf⟩ := Option.isSome_iff_exists.mp (DataStore.markForDeletion_fst.mp hmark)
      exact h.named hok hf
    | @updated r =>
      obtain ⟨hwrite, -⟩ := answered_success_iff.mp hsuccess
      obtain ⟨e, hf, -⟩ := (DataStore.updateItem_fst.mp hwrite).1
      exact h.named hok.1 hf

/-- **Delete and Update hit only the signed value they name**, in every run in which none of
them is mistaken for another one. -/
theorem hitsNamed_of_steps {t₀ : Traced} {tr : List (Event × Traced)} (h₀ : (system X).init t₀)
    (hr : (system X).Run t₀ tr t) (hok : LTS.Steps (NamesOne X) t₀ tr) :
    LTS.Steps (HitsNamed X) t₀ tr := by
  refine LTS.steps_of_steps (I := FromPut) ?_ ?_ hr ?_ hok
  · exact fun t ev t' h hok hs => hitsNamed_of_fromPut h hok hs
  · exact fun t ev t' h hok hs => fromPut_step h hok hs
  · obtain ⟨⟨-, tRefresh, hd⟩, -⟩ := h₀
    intro e he
    rw [hd] at he
    exact absurd he Keyed.not_mem_empty

/-! ## Small runs -/

def start : Traced := { node := Node.start 1000, put := [] }

/-- One signed value is put under "k" and one is named for deletion. -/
def putAndDelete (put named : SignedValue) : List Event :=
  [Node.publishOnce put,
   .request (plainAnswers 0) 1000 1000 (.delete {
     key := bytes ['k']
     value := named
     senderInfo := peer })]

theorem deleteSame_isSome : (LTS.exec (step plainExternals) start
    (putAndDelete { value := bytes ['v'] } { value := bytes ['v'] })).isSome = true := by
  decide +kernel

theorem hitsNamed_deleteSame : LTS.Steps (HitsNamed plainExternals) start
    ((LTS.exec (step plainExternals) start
      (putAndDelete { value := bytes ['v'] } { value := bytes ['v'] })).get deleteSame_isSome) := by
  refine hitsNamed_of_steps ⟨Node.start_starts 1000, rfl⟩
    (LTS.run_of_exec (Option.some_get deleteSame_isSome).symm) ⟨trivial, ?_, trivial⟩
  show ∀ p ∈ [((bytes ['k'], { value := bytes ['v'] }) : Bytes × SignedValue)], _
  decide

/-- "a" and "b" for "ab" and nothing. -/
theorem deleteOther_isSome : (LTS.exec (step plainExternals) start
    (putAndDelete { value := bytes ['a'], valueSignature := bytes ['b'] }
      { value := bytes ['a', 'b'] })).isSome = true := by
  decide +kernel

theorem hitsNamed_counterexample : ¬ ∀ (X : Externals) (t₀ t : Traced) (tr : List (Event × Traced)),
    (system X).init t₀ → (system X).Run t₀ tr t → LTS.Steps (HitsNamed X) t₀ tr := by
  intro h
  have hsteps := h plainExternals start _ _ ⟨Node.start_starts 1000, rfl⟩
    (LTS.run_of_exec (Option.some_get deleteOther_isSome).symm)
  have hmem := hsteps.2.1 (by decide +kernel)
  revert hmem
  decide +kernel

end Traced
end Kadpeer.L4
