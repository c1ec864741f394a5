import Kadpeer.L4Service.Results

/-!
# Refresh traffic after a deletion

A `Store` without `publish` refreshes the entry of its pair. `RefreshItem` refuses one that is
marked for deletion, and hands out the delete request; a request that is the empty string
reads as "no such entry", and `StoreItem` may then store over the tombstone.

* `dead_of_delete`: a `Delete` that succeeds leaves a dead entry.
* `refresh_iff`: refresh traffic keeps the value from `FindValue` exactly while none of its
  steps `Revives`.
-/
namespace Kadpeer.L4

open Kadpeer.Core Kadpeer.L1 Kadpeer.L2 KadService

namespace Node

variable {X : Externals} {n n' : Node} {ev : Event} {key : Bytes} {sv : SignedValue}

/-- Some `FindValue` for the key, at the clock or later, lists the value. -/
def Lists (X : Externals) (n : Node) (key value : Bytes) : Prop :=
  ∃ (A : Answers) (t : Nat) (r : FindRequest), n.clock ≤ t ∧ r.key = key ∧
    ∃ out, findValue X (A.at t t) n.service {} r = .ok out ∧ value ∈ out.response.values

/-- A `Store` of the signed value without `publish`. -/
def IsRefresh (key : Bytes) (sv : SignedValue) : Event → Prop
  | .request _ _ _ (.store r) => r.key = key ∧ r.sigValue = sv ∧ r.publish = false
  | _ => False

/-- A node that sees nothing but such requests. -/
def refreshes (X : Externals) (key : Bytes) (sv : SignedValue) : LTS Node Event where
  init := fun n => n.service.nodeJoined = true
  step n ev n' := step X n ev = some n' ∧ IsRefresh key sv ev

/-- The request is let through to `StoreItem`, as no delete request is recorded, and
overrides the tombstone there. -/
def Revives (X : Externals) (key : Bytes) (sv : SignedValue) (n : Node) : Event → Prop
  | .request _ _ second (.store r) => hasPayload n.service r = true ∧ r.senderInfo.nodeId ≠ [] ∧
      (∃ e, n.service.datastore.find key sv.ser = some e ∧ e.serDeleteReq = []) ∧
      (canStoreSignedValueHashable X key sv.ser n.service.datastore).1 = true ∧
      n.service.datastore.StoreAccepts (DataStore.clock32 second) key sv.ser r.ttl
  | _ => False

/-- The entry of the signed value is marked for deletion or deleted. -/
def Dead (key : Bytes) (sv : SignedValue) (n : Node) : Prop :=
  n.service.nodeJoined = true ∧
    ∃ e, n.service.datastore.find key sv.ser = some e ∧ e.delStatus ≠ .notDeleted

theorem loaded_of_lists {value : Bytes} (hj : n.service.nodeJoined = true)
    (h : Lists X n key value) :
    ∃ t, n.clock ≤ t ∧ value ∈ (n.service.datastore.loadItem (DataStore.clock32 t) key).2 := by
  obtain ⟨A, t, r, ht, rfl, out, hout, hin⟩ := h
  refine ⟨t, ht, ?_⟩
  obtain ⟨nodeId, -, -, hs⟩ | ⟨-, -, hvalues⟩ := findValue_cases hj hout
  · exact (findValue_lists_iff (A := A.at t t) hj hs).mp ⟨out, hout, hin⟩
  · rw [hvalues] at hin
    cases hin

theorem lists_of_loaded {value : Bytes} {t : Nat} (hpar : Parses X) (A : Answers)
    (hj : n.service.nodeJoined = true) (ht : n.clock ≤ t)
    (h : value ∈ (n.service.datastore.loadItem (DataStore.clock32 t) key).2) : Lists X n key value := by
  have hne : peer.nodeId ≠ [] := by decide
  obtain ⟨nodeId, -, hs⟩ := hpar.getSender hne
  exact ⟨A, t, { key := key, senderInfo := peer }, ht, rfl,
    (findValue_lists_iff (A := A.at t t) hj hs).mpr h⟩

theorem not_lists_of_dead (h : Dead key sv n) : ¬ Lists X n key sv.ser := by
  obtain ⟨hj, e, hf, hs⟩ := h
  intro hlists
  obtain ⟨t, -, hin⟩ := loaded_of_lists hj hlists
  obtain ⟨e', hf', hl⟩ := DataStore.mem_loadItem.mp hin
  rw [hf] at hf'
  cases hf'
  exact hs (KeyValueTuple.live_iff.mp hl).2

/-- What `StoreValueLocal` does about a dead entry. -/
theorem writeValue_dead {A : Answers} {ttl : I32} {d : DataStore} {e : KeyValueTuple} {value : Bytes}
    (hf : d.find key value = some e) (hs : e.delStatus ≠ .notDeleted) :
    writeValue X A key value ttl false d =
      if (canStoreSignedValueHashable X key value d).1 = true ∧ e.serDeleteReq = [] then
        d.storeItem A.second key value ttl (canStoreSignedValueHashable X key value d).2
      else (false, d) := by
  simp only [writeValue, Bool.false_eq_true, if_false, DataStore.refreshItem_dead hf hs,
    Bool.not_false, Bool.true_and, Bool.and_eq_true, List.isEmpty_iff]

/-- What overrides a dead entry is live when it is stored. -/
theorem live_of_storeAccepts {d : DataStore} {now : U32} {ttl : I32} {hashable : Bool}
    {e : KeyValueTuple} {value : Bytes} (h : d.StoreAccepts now key value ttl)
    (hf : d.find key value = some e) (hs : e.delStatus ≠ .notDeleted) :
    (KeyValueTuple.new key value now (ttl + now) ttl hashable).live now = true := by
  obtain ⟨-, -, hz, hold⟩ := h
  have hexp : (KeyValueTuple.new key value now (ttl + now) ttl hashable).expireTime =
      DataStore.expireAfter now ttl := rfl
  rw [KeyValueTuple.live_iff, hexp]
  refine ⟨?_, rfl⟩
  rcases (hold e hf).resolve_left hs with hperm | ⟨hlater, -⟩
  · exact .inr hperm
  · left
    by_cases hneg : ttl.toInt < 0
    · rw [DataStore.expireAfter_of_neg hneg] at hlater
      exact absurd hlater BitVec.not_lt_zero
    · rw [DataStore.expireAfter_of_nonneg (not_lt.mp hneg), BitVec.add_sub_cancel]
      have hne : ttl.toInt ≠ 0 := fun heq => hz (BitVec.eq_of_toInt_eq heq)
      omega

/-- What a step of such a node is. -/
theorem refreshes_step_cases (hs : (refreshes X key sv).step n ev n') :
    ∃ A first second r out, ev = .request A first second (.store r) ∧ r.key = key ∧
      r.sigValue = sv ∧ r.publish = false ∧
      handle X (A.at first second) n.service (.store r) = .ok out ∧
      n' = n.withStore second out.datastore := by
  obtain ⟨hst, hrefresh⟩ := hs
  unfold IsRefresh at hrefresh
  split at hrefresh
  · rename_i A first second r
    obtain ⟨hkey, hsv, hpublish⟩ := hrefresh
    obtain ⟨-, -, out, hout, hn'⟩ := request_eq_some.mp hst
    exact ⟨A, first, second, r, out, rfl, hkey, hsv, hpublish, hout, hn'⟩
  · exact hrefresh.elim

theorem dead_step (h : Dead key sv n) (hok : ¬ Revives X key sv n ev)
    (hs : (refreshes X key sv).step n ev n') : Dead key sv n' := by
  obtain ⟨A, first, second, r, out, rfl, rfl, rfl, hpublish, hout, rfl⟩ := refreshes_step_cases hs
  obtain ⟨hj, e, hf, hdead⟩ := h
  have hsame : out.datastore = n.service.datastore := by
    have heffect := handle_effect hout
    generalize out.response = result, out.datastore = d at heffect
    cases heffect with
    | read hr => exact hr.elim
    | refused => rfl
    | stored _ hload hsender =>
      rw [hpublish, writeValue_dead hf hdead]
      split
      · rename_i hcan
        rw [DataStore.storeItem_refuses]
        exact fun haccepts => hok ⟨hload, hsender, ⟨e, hf, hcan.2⟩, hcan.1, haccepts⟩
      · rfl
  refine ⟨hj, e, ?_, hdead⟩
  show out.datastore.find r.key r.sigValue.ser = some e
  rw [hsame]
  exact hf

theorem lists_step (hpar : Parses X) (h : Dead key sv n) (hok : Revives X key sv n ev)
    (hs : (refreshes X key sv).step n ev n') : Lists X n' key sv.ser := by
  obtain ⟨A, first, second, r, out, rfl, rfl, rfl, hpublish, hout, rfl⟩ := refreshes_step_cases hs
  obtain ⟨hj, e, hf, hdead⟩ := h
  obtain ⟨hload, hsender, ⟨e', hf', hreq⟩, hcan, haccepts⟩ := hok
  obtain rfl : e = e' := by simpa [hf] using hf'
  obtain ⟨nodeId, -, hparsed⟩ := hpar.getSender hsender
  rw [store_of_sender hj hload hparsed] at hout
  have hd : out.datastore = (n.service.datastore.storeItem (DataStore.clock32 second) r.key
      r.sigValue.ser r.ttl
      (canStoreSignedValueHashable X r.key r.sigValue.ser n.service.datastore).2).2 := by
    cases hout
    show (storeValueLocal _ _ _ _ _ _ _ _ _).datastore = _
    rw [storeValueLocal_datastore, hpublish, writeValue_dead hf hdead, if_pos ⟨hcan, hreq⟩]
    rfl
  refine lists_of_loaded hpar A hj (le_refl second) ?_
  show r.sigValue.ser ∈ (out.datastore.loadItem (DataStore.clock32 second) r.key).2
  rw [hd, DataStore.mem_loadItem]
  exact ⟨_, (DataStore.storeItem_accepts haccepts).2.find_eq, live_of_storeAccepts haccepts hf hdead⟩

/-- A `Delete` that is answered with success leaves a dead entry. -/
theorem dead_of_delete {A : Answers} {first second : Nat} {r : DeleteRequest}
    {out : Outcome Bytes}
    (hout : handle X (A.at first second) n.service (.delete r) = .ok out)
    (hans : out.response = kRpcResultSuccess) :
    Dead r.key r.value (n.withStore second out.datastore) := by
  have heffect := handle_effect hout
  obtain ⟨response, d, calls⟩ := out
  simp only at hans heffect ⊢
  subst hans
  generalize hresult : kRpcResultSuccess = result at heffect
  cases heffect with
  | read hr => exact hr.elim
  | refused => exact absurd hresult success_ne_failure
  | deleted hj hload =>
    obtain ⟨hmark, -⟩ := answered_success_iff.mp hresult.symm
    obtain ⟨e, hf⟩ := Option.isSome_iff_exists.mp (DataStore.markForDeletion_fst.mp hmark)
    refine ⟨hj, ?_⟩
    show ∃ e, (mark n.service r).2.find r.key r.value.ser = some e ∧ _
    rcases mark_cases n.service r with ⟨hsame, hdead⟩ | ⟨old, hold, -, hput⟩
    · rw [hsame]
      exact ⟨e, hf, hdead e hf⟩
    · obtain ⟨-, hk, hv⟩ := DataStore.find_eq_some.mp hold
      have hfind := hput.find_eq
      rw [hk, hv] at hfind
      exact ⟨_, hfind, nofun⟩

/-- **Refresh traffic cannot undo a deletion**, and when it can: after a `Delete` that was
answered with success, in exactly the runs of refresh requests with one that `Revives`. -/
theorem refresh_iff (hpar : Parses X) {n₀ n₁ : Node} {A : Answers} {first second : Nat}
    {r : DeleteRequest} {out : Outcome Bytes} {tr : List (Event × Node)}
    (hout : handle X (A.at first second) n₀.service (.delete r) = .ok out)
    (hans : out.response = kRpcResultSuccess)
    (hr : (refreshes X r.key r.value).Run (n₀.withStore second out.datastore) tr n₁) :
    LTS.States (fun n => ¬ Lists X n r.key r.value.ser) (n₀.withStore second out.datastore) tr ↔
      LTS.Steps (fun n ev => ¬ Revives X r.key r.value n ev) (n₀.withStore second out.datastore) tr := by
  refine LTS.states_iff_steps (I := Dead r.key r.value) ?_ ?_ ?_ hr (dead_of_delete hout hans)
  · exact fun n h => not_lists_of_dead h
  · exact fun n ev n' h hok hs => dead_step h hok hs
  · exact fun n ev n' h hok hs hnot => hnot (lists_step hpar h (not_not.mp hok) hs)

/-! ## Small runs -/

/-- The value "v" under "k" is to be deleted. -/
def deleteOnce (signedRequest : SignedRequest) : DeleteRequest where
  key := bytes ['k']
  value := { value := bytes ['v'] }
  signedRequest := signedRequest
  senderInfo := peer

def deletedOnce (signedRequest : SignedRequest) : Node :=
  (publishedOnce { value := bytes ['v'] }).withStore 1000 {
    datastore := ⟨[{ KeyValueTuple.new (bytes ['k']) (bytes ['v']) 1000 1010 10 false with
      serDeleteReq := signedRequest.ser
      delStatus := .markedForDeletion }], List.pairwise_singleton _ _⟩
    tRefresh := 0 }

theorem handle_deleteOnce (signedRequest : SignedRequest) : ∃ calls,
    handle plainExternals ((plainAnswers 0).at 1000 1000)
      (publishedOnce { value := bytes ['v'] }).service (.delete (deleteOnce signedRequest)) =
        .ok ⟨kRpcResultSuccess, (deletedOnce signedRequest).service.datastore, calls⟩ := ⟨_, rfl⟩

/-- Another peer refreshes it for 20 seconds. -/
def refreshOnce : Event := .request (plainAnswers 0) 1001 1001 (.store {
  key := bytes ['k']
  sigValue := { value := bytes ['v'] }
  ttl := 20
  senderInfo := peer
  isset := { value := true } })

/-- With a delete request the refresh is refused. -/
theorem refused_step : (refreshes plainExternals (bytes ['k']) { value := bytes ['v'] }).step
    (deletedOnce { signedRequest := bytes ['d'] }) refreshOnce
    ((deletedOnce { signedRequest := bytes ['d'] }).withStore 1001
      (deletedOnce { signedRequest := bytes ['d'] }).service.datastore) := ⟨rfl, rfl, rfl, rfl⟩

theorem refresh_deleteSigned : LTS.States
    (fun n => ¬ Lists plainExternals n (bytes ['k']) (bytes ['v']))
    (deletedOnce { signedRequest := bytes ['d'] })
    [(refreshOnce, (deletedOnce { signedRequest := bytes ['d'] }).withStore 1001
      (deletedOnce { signedRequest := bytes ['d'] }).service.datastore)] := by
  obtain ⟨calls, hout⟩ := handle_deleteOnce { signedRequest := bytes ['d'] }
  refine (refresh_iff plainExternals_parses hout rfl
    (.cons (refused_step) (.nil _))).mpr ⟨?_, trivial⟩
  intro ⟨_, _, ⟨e, hf, hreq⟩, _⟩
  cases hf
  revert hreq
  decide

/-- Without one the value is stored again. -/
def revivedOnce : Node := (deletedOnce {}).withStore 1001 {
  datastore := ⟨[.new (bytes ['k']) (bytes ['v']) 1001 1021 20 false], List.pairwise_singleton _ _⟩
  tRefresh := 0 }

theorem revived_step : (refreshes plainExternals (bytes ['k']) { value := bytes ['v'] }).step
    (deletedOnce {}) refreshOnce revivedOnce := ⟨rfl, rfl, rfl, rfl⟩

theorem refresh_counterexample :
    ¬ ∀ (X : Externals) (A : Answers) (n₀ n₁ : Node) (first second : Nat) (r : DeleteRequest)
        (out : Outcome Bytes) (tr : List (Event × Node)), Parses X → (system X).Reachable n₀ →
      handle X (A.at first second) n₀.service (.delete r) = .ok out →
      out.response = kRpcResultSuccess →
      (refreshes X r.key r.value).Run (n₀.withStore second out.datastore) tr n₁ →
      ¬ Lists X n₁ r.key r.value.ser := by
  intro h
  obtain ⟨calls, hout⟩ := handle_deleteOnce {}
  have hnot := h plainExternals (plainAnswers 0) _ revivedOnce 1000 1000 (deleteOnce {}) _ _
    plainExternals_parses (reachable_publishedOnce rfl) hout rfl (.cons revived_step (.nil _))
  exact hnot (lists_of_loaded plainExternals_parses (plainAnswers 0) rfl (le_refl 1001)
    (by decide +kernel))

end Node
end Kadpeer.L4
