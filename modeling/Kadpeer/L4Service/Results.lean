import Kadpeer.L4Service.Runs
import Kadpeer.L4Service.Sender

/-!
# What the result of a request says

A request should be answered with success or failure. Success should mean that the sender
was handed to `add_contact_`, failure that it was not and that the store is as before.

`Downlist` sets the result inside its loop only, and `Bootstrap` for clients only.
`Delete` and `Update` write to the store before they look at the sender.

* `definite_iff`: a request is answered, and `add_contact_` called to match, exactly when it
  is `Answerable`.
* `atomic_iff`: a failed request leaves the store exactly when it is `Harmless`.
-/
namespace Kadpeer.L4

open Kadpeer.Core Kadpeer.L1 Kadpeer.L2

namespace KadService

variable {X : Externals} {A : Answers} {s : KadService} {request : Request} {info : ContactInfo}
  {sender : Contact} {key : KadID}

/-! ## Requests whose sender is parsed -/

theorem ping_of_sender {r : PingRequest} (hj : s.nodeJoined = true)
    (hping : r.ping = bytes ['p', 'i', 'n', 'g'])
    (hs : getSender X r.senderInfo = .ok (true, sender)) :
    handle X A s (.ping r) = .ok ⟨kRpcResultSuccess, s.datastore, [.addContact sender]⟩ := by
  simp [handle, ping, hj, hping, andGetSender, hs, bind, Except.bind]
  rfl

theorem store_of_sender {r : StoreRequest} (hj : s.nodeJoined = true) (hload : hasPayload s r = true)
    (hs : getSender X r.senderInfo = .ok (true, sender)) :
    handle X A s (.store r) = .ok ((storeValueLocal X A r.key r.sigValue sender r.ttl r.publish {}
      s.datastore).map (·.result)) := by
  simp [handle, store, checkStoreRequest, hj, hload, andGetSender, hs, bind, Except.bind]
  rfl

theorem storeValueLocal_datastore {key : Bytes} {sv : SignedValue} {ttl : I32} {publish : Bool}
    {ret : StoreResponse} {d : DataStore} :
    (storeValueLocal X A key sv sender ttl publish ret d).datastore =
      (writeValue X A key sv.ser ttl publish d).2 := by
  unfold storeValueLocal
  simp only
  split <;> rfl

theorem delete_of_sender {r : DeleteRequest} (hj : s.nodeJoined = true)
    (hload : (s.datastore.loadItem A.first r.key).1 = true) (hmark : (mark s r).1 = true)
    (hs : getSender X r.senderInfo = .ok (true, sender)) :
    handle X A s (.delete r) = .ok ⟨kRpcResultSuccess, (mark s r).2, [.addContact sender]⟩ := by
  simp only [mark] at hmark ⊢
  simp [handle, delete, hj, hload, hmark, andGetSender, hs, bind, Except.bind]
  rfl

theorem update_of_sender {r : UpdateRequest} (hj : s.nodeJoined = true)
    (hcheck : checkUpdateRequest X A s r = true) (hwrite : (write X A s r).1 = true)
    (hs : getSender X r.senderInfo = .ok (true, sender)) :
    handle X A s (.update r) = .ok ⟨kRpcResultSuccess, (write X A s r).2, [.addContact sender]⟩ := by
  simp only [write] at hwrite ⊢
  simp [handle, update, hj, hcheck, hwrite, hs, bind, Except.bind]
  rfl

theorem findNode_of_sender {ret : FindResponse} {r : FindRequest} (hj : s.nodeJoined = true)
    (hs : getSender X r.senderInfo = .ok (true, sender)) :
    findNode X A s ret r = (X.toKadID r.key).bind fun key =>
      (pushNodes X A key sender ret).bind fun ret =>
        .ok ⟨{ ret with result := kRpcResultSuccess }, s.datastore, [.addContact sender]⟩ := by
  simp [findNode, hj, hs, bind, Except.bind]
  rfl

/-- `FindNode` has parsed the sender, or the sender is empty and nothing is listed. -/
theorem findNode_cases {ret : FindResponse} {r : FindRequest} {out : Outcome FindResponse}
    (hj : s.nodeJoined = true) (h : findNode X A s ret r = .ok out) :
    (∃ nodeId, r.senderInfo.nodeId ≠ [] ∧ X.toKadID r.senderInfo.nodeId = .ok nodeId ∧
      getSender X r.senderInfo = .ok (true, Contact.ofInfo nodeId r.senderInfo .empty)) ∨
    r.senderInfo.nodeId = [] ∧ out.response.closestNodes = ret.closestNodes ∧
      out.response.values = ret.values := by
  obtain ⟨hempty, hs⟩ | ⟨f, hs⟩ | hs := getSender_cases X r.senderInfo
  · simp [findNode, hj, hs, bind, Except.bind] at h
    cases h
    exact .inr ⟨hempty, rfl, rfl⟩
  · simp [findNode, hj, hs, bind, Except.bind] at h
  · exact .inl hs

/-- The same for `FindValue`. -/
theorem findValue_cases {ret : FindResponse} {r : FindRequest} {out : Outcome FindResponse}
    (hj : s.nodeJoined = true) (h : findValue X A s ret r = .ok out) :
    (∃ nodeId, r.senderInfo.nodeId ≠ [] ∧ X.toKadID r.senderInfo.nodeId = .ok nodeId ∧
      getSender X r.senderInfo = .ok (true, Contact.ofInfo nodeId r.senderInfo .empty)) ∨
    r.senderInfo.nodeId = [] ∧ out.response.closestNodes = ret.closestNodes ∧
      out.response.values = ret.values := by
  obtain ⟨hempty, hs⟩ | ⟨f, hs⟩ | hs := getSender_cases X r.senderInfo
  · simp [findValue, hj, hs, bind, Except.bind] at h
    cases h
    exact .inr ⟨hempty, rfl, rfl⟩
  · simp [findValue, hj, hs, bind, Except.bind] at h
  · exact .inl hs

theorem findValue_of_loaded {ret : FindResponse} {r : FindRequest} (hj : s.nodeJoined = true)
    (hs : getSender X r.senderInfo = .ok (true, sender))
    (hload : (s.datastore.loadItem A.first r.key).1 = true) :
    findValue X A s ret r = .ok ⟨{ ret with
      values := ret.values ++ (s.datastore.loadItem A.first r.key).2
      result := kRpcResultSuccess
      nodeId := s.nodeInfo.nodeId }, s.datastore, [.addContact sender]⟩ := by
  simp [findValue, hj, hs, hload, bind, Except.bind]
  rfl

theorem findValue_of_unloaded {ret : FindResponse} {r : FindRequest} (hj : s.nodeJoined = true)
    (hs : getSender X r.senderInfo = .ok (true, sender))
    (hload : (s.datastore.loadItem A.first r.key).1 = false) :
    findValue X A s ret r = (findNode X A s ret r).map fun out =>
      { out with response := { out.response with nodeId := s.nodeInfo.nodeId } } := by
  simp [findValue, hj, hs, hload, bind, Except.bind]
  cases findNode X A s ret r <;> rfl

/-! ## The list of `FindNode` -/

/-- Every contact is converted. -/
def Converts (X : Externals) (cs : List Contact) : Prop :=
  ∀ c ∈ cs, ∃ info, X.parseToThrift c = .ok info

theorem pushClosest_ok {c : Contact} {info : ContactInfo} (hc : X.parseToThrift c = .ok info)
    (ret : FindResponse) (b : Bool) : pushClosest X key (ret, b) c =
      .ok ({ ret with closestNodes := ret.closestNodes ++ [info] }, b || key = c.nodeId) := by
  rw [pushClosest, hc]
  rfl

theorem pushClosest_returns (key : KadID) (cs : List Contact) (ret : FindResponse) (b : Bool) :
    (∃ ret', cs.foldlM (pushClosest X key) (ret, b) =
      .ok (ret', b || cs.any fun c => key = c.nodeId)) ↔ Converts X cs := by
  induction cs generalizing ret b with
  | nil => simp [Converts, pure, Except.pure]
  | cons c cs ih =>
    rw [List.foldlM_cons]
    cases hc : X.parseToThrift c with
    | error f => simp [pushClosest, Converts, hc, bind, Except.bind]
    | ok info =>
      rw [pushClosest_ok hc]
      simp only [bind, Except.bind, List.any_cons, ← Bool.or_assoc]
      rw [ih]
      simp [Converts, hc]

theorem pushClosest_error {cs : List Contact} {ret : FindResponse} {b : Bool}
    (h : ¬ Converts X cs) : ∃ f, cs.foldlM (pushClosest X key) (ret, b) = .error f := by
  induction cs generalizing ret b with
  | nil => exact absurd (fun c hc => nomatch hc) h
  | cons c cs ih =>
    rw [List.foldlM_cons]
    cases hc : X.parseToThrift c with
    | error f => exact ⟨f, by rw [pushClosest, hc]; rfl⟩
    | ok info =>
      rw [pushClosest_ok hc]
      refine ih fun hall => h fun c' hc' => ?_
      rcases List.mem_cons.mp hc' with rfl | hc'
      · exact ⟨info, hc⟩
      · exact hall c' hc'

/-- The contacts that `FindNode` converts: the closest ones, and the one that has the key if
it is not among them. -/
def Listed (A : Answers) (key : KadID) (sender : Contact) : List Contact :=
  let closest := A.getClosestK key [sender]
  if closest.any fun c => key = c.nodeId then closest else closest ++ (A.getContact 0 key).toList

theorem pushNodes_returns (ret : FindResponse) :
    (∃ ret', pushNodes X A key sender ret = .ok ret') ↔ Converts X (Listed A key sender) := by
  unfold pushNodes Listed
  by_cases hclosest : Converts X (A.getClosestK key [sender])
  · obtain ⟨ret', hret⟩ := (pushClosest_returns key _ ret false).mpr hclosest
    rw [hret]
    simp only [bind, Except.bind, Bool.false_or]
    split
    · exact ⟨fun _ => hclosest, fun _ => ⟨ret', rfl⟩⟩
    · cases hget : A.getContact 0 key with
      | none => simpa [pure, Except.pure] using hclosest
      | some c =>
        have hconv : Converts X (A.getClosestK key [sender] ++ (some c).toList) ↔
            ∃ info, X.parseToThrift c = .ok info := by
          constructor
          · intro h
            exact h c (by simp)
          · intro h c' hc'
            rcases List.mem_append.mp hc' with hc' | hc'
            · exact hclosest c' hc'
            · obtain rfl : c' = c := by simpa using hc'
              exact h
        rw [hconv]
        simp only
        cases hc : X.parseToThrift c <;> simp [pure, Except.pure]
  · obtain ⟨f, hf⟩ : ∃ f, (A.getClosestK key [sender]).foldlM (pushClosest X key) (ret, false) =
        .error f := pushClosest_error hclosest
    rw [hf]
    constructor
    · intro ⟨_, h⟩
      cases h
    · intro h
      refine absurd (fun c hc => h c ?_) hclosest
      simp only
      split
      · exact hc
      · exact List.mem_append_left _ hc

theorem pushClosest_values {cs : List Contact} {ret : FindResponse} {b : Bool}
    {acc : FindResponse × Bool} (h : cs.foldlM (pushClosest X key) (ret, b) = .ok acc) :
    acc.1.values = ret.values := by
  induction cs generalizing ret b with
  | nil =>
    cases h
    rfl
  | cons c cs ih =>
    rw [List.foldlM_cons] at h
    obtain ⟨⟨ret', b'⟩, hstep, h⟩ := bind_eq_ok.mp h
    obtain ⟨info, -, hstep⟩ := bind_eq_ok.mp hstep
    have hvalues := ih h
    cases hstep
    exact hvalues

theorem pushNodes_values {ret ret' : FindResponse} (h : pushNodes X A key sender ret = .ok ret') :
    ret'.values = ret.values := by
  obtain ⟨⟨ret₁, found⟩, hfold, h⟩ := bind_eq_ok.mp h
  have hvalues := pushClosest_values hfold
  simp only at h
  split at h
  · cases h
    exact hvalues
  · split at h
    · cases h
      exact hvalues
    · obtain ⟨info, -, h⟩ := bind_eq_ok.mp h
      cases h
      exact hvalues

/-- `FindNode` leaves the values. -/
theorem findNode_values {ret : FindResponse} {r : FindRequest} {out : Outcome FindResponse}
    (h : findNode X A s ret r = .ok out) : out.response.values = ret.values := by
  rcases findNode_ok h with rfl | ⟨sender, key, ret', -, -, hret, rfl⟩
  · rfl
  · have hvalues := pushNodes_values hret
    exact hvalues

/-- `FindValue` of a sender that is parsed lists what `LoadItem` returns. -/
theorem findValue_lists_iff {r : FindRequest} {value : Bytes} (hj : s.nodeJoined = true)
    (hs : getSender X r.senderInfo = .ok (true, sender)) :
    (∃ out, findValue X A s {} r = .ok out ∧ value ∈ out.response.values) ↔
      value ∈ (s.datastore.loadItem A.first r.key).2 := by
  by_cases hload : (s.datastore.loadItem A.first r.key).1 = true
  · rw [findValue_of_loaded hj hs hload]
    simp
  · have hload : (s.datastore.loadItem A.first r.key).1 = false := by simpa using hload
    have hnone : (s.datastore.loadItem A.first r.key).2 = [] := by
      simpa [DataStore.loadItem] using hload
    rw [findValue_of_unloaded hj hs hload, hnone]
    constructor
    · rintro ⟨out, hout, hin⟩
      cases hf : findNode X A s {} r with
      | error f =>
        rw [hf] at hout
        cases hout
      | ok out' =>
        rw [hf] at hout
        cases hout
        rw [findNode_values hf] at hin
        exact hin
    · intro hin
      cases hin

/-! ## The loop of `Downlist` -/

/-- `GetSender` parses every sender that has a `node_id`. -/
def Parses (X : Externals) : Prop := ∀ raw, raw ≠ [] → ∃ nodeId, X.toKadID raw = .ok nodeId

theorem Parses.getSender (h : Parses X) (hne : info.nodeId ≠ []) :
    ∃ nodeId, X.toKadID info.nodeId = .ok nodeId ∧
      getSender X info = .ok (true, Contact.ofInfo nodeId info .empty) := by
  obtain ⟨nodeId, hid⟩ := h info.nodeId hne
  exact ⟨nodeId, hid, getSender_of_ok hne hid⟩

theorem plainExternals_parses : Parses plainExternals := fun _ h => ⟨_, if_neg h⟩

def Call.isAddContact : Call → Bool
  | .addContact _ => true
  | .ping _ => false

/-- The calls of `add_contact_`. -/
def added (calls : List Call) : List Call := calls.filter Call.isAddContact

/-- The loop adds no contact, and sets the result when an entry is parsed. -/
theorem downlistLoop_returns (h : Parses X) (n : Nat) (ret : DownlistResponse) (calls : List Call)
    (infos : List ContactInfo) :
    ∃ ret' calls', downlistLoop X A n ret calls infos = .ok (ret', calls') ∧
      added calls' = added calls ∧
      ret'.result = if ∃ info ∈ infos, info.nodeId ≠ [] then kRpcResultSuccess else ret.result := by
  induction infos generalizing n ret calls with
  | nil => exact ⟨ret, calls, rfl, rfl, by simp⟩
  | cons info infos ih =>
    unfold downlistLoop
    by_cases hempty : info.nodeId = []
    · have hskip : Contact.parseFromThrift X.toKadID info .empty = .ok (false, .empty) :=
        getSender_of_empty hempty
      obtain ⟨ret', calls', hloop, hcalls, hres⟩ := ih n ret calls
      refine ⟨ret', calls', ?_, hcalls, ?_⟩
      · rw [hskip]
        exact hloop
      · rw [hres]
        simp [hempty]
    · obtain ⟨nodeId, -, hparsed⟩ := h.getSender hempty
      have hparsed : Contact.parseFromThrift X.toKadID info .empty = _ := hparsed
      obtain ⟨ret', calls', hloop, hcalls, hres⟩ := ih (n + 1)
        { ret with result := kRpcResultSuccess }
        (if (A.getContact n nodeId).isSome then
          calls ++ [.ping (Contact.ofInfo nodeId info .empty)] else calls)
      refine ⟨ret', calls', ?_, ?_, ?_⟩
      · rw [hparsed]
        exact hloop
      · rw [hcalls]
        split
        · simp [added, Call.isAddContact]
        · rfl
      · rw [hres]
        simp [hempty]

/-! ## Every request is answered -/

section

variable (X : Externals) (A : Answers) (s : KadService) (request : Request)

/-- The request is answered with success or failure; a node that is not joined does nothing;
the sender is added exactly once with success and not with failure. -/
def Definite : Prop :=
  ∃ out, handle X A s request = .ok out ∧
    (out.response = kRpcResultSuccess ∨ out.response = kRpcResultFailure) ∧
    (s.nodeJoined = false →
      out.response = kRpcResultFailure ∧ out.datastore = s.datastore ∧ out.calls = []) ∧
    ∀ info ∈ request.senderInfo,
      (out.response = kRpcResultSuccess → ∃ sender, getSender X info = .ok (true, sender) ∧
        added out.calls = [.addContact sender]) ∧
      (out.response = kRpcResultFailure → added out.calls = [])

/-- The key is an id, and the contacts that `FindNode` lists have a wire form. -/
def Listable (r : FindRequest) : Prop :=
  ∀ nodeId, X.toKadID r.senderInfo.nodeId = .ok nodeId → ∃ key, X.toKadID r.key = .ok key ∧
    Converts X (Listed A key (Contact.ofInfo nodeId r.senderInfo .empty))

/-- What a joined node can answer. -/
def Answerable : Request → Prop
  | .findNode r => r.senderInfo.nodeId ≠ [] → Listable X A r
  | .findValue r => r.senderInfo.nodeId ≠ [] →
      (s.datastore.loadItem A.first r.key).1 = false → Listable X A r
  | .downlist r => r.senderInfo.nodeId ≠ [] → ∃ info ∈ r.downlist, info.nodeId ≠ []
  | .bootstrap r => r.nodeType = 0
  | _ => True

end

/-- The result before the call is no answer. -/
theorem empty_not_answered : ¬ (([] : Bytes) = kRpcResultSuccess ∨ [] = kRpcResultFailure) := by
  decide

theorem definite_of_success {d : DataStore} {calls : List Call} (hj : s.nodeJoined = true)
    (hh : handle X A s request = .ok ⟨kRpcResultSuccess, d, calls⟩)
    (hinfo : request.senderInfo = some info) (hs : getSender X info = .ok (true, sender))
    (hcalls : added calls = [.addContact sender]) : Definite X A s request := by
  refine ⟨_, hh, .inl rfl, fun hn => ?_, fun info' hinfo' => ?_⟩
  · rw [hj] at hn
    cases hn
  · obtain rfl : info = info' := by simpa [hinfo] using hinfo'
    exact ⟨fun _ => ⟨sender, hs, hcalls⟩, fun hf => absurd hf success_ne_failure⟩

theorem definite_of_failure {d : DataStore} {calls : List Call} (hj : s.nodeJoined = true)
    (hh : handle X A s request = .ok ⟨kRpcResultFailure, d, calls⟩) (hcalls : added calls = []) :
    Definite X A s request := by
  refine ⟨_, hh, .inr rfl, fun hn => ?_, fun info' _ => ?_⟩
  · rw [hj] at hn
    cases hn
  · exact ⟨fun hf => absurd hf.symm success_ne_failure, fun _ => hcalls⟩

theorem definite_unjoined (hj : s.nodeJoined = false) : Definite X A s request := by
  obtain ⟨out, hh, hd, hcalls, hres⟩ := handle_unjoined X A request hj
  refine ⟨out, hh, .inr hres, fun _ => ⟨hres, hd, hcalls⟩, fun info _ => ?_⟩
  rw [hres, hcalls]
  exact ⟨fun hf => absurd hf.symm success_ne_failure, fun _ => rfl⟩

/-- A request whose sender is not parsed is answered with failure. -/
theorem definite_of_refused (hj : s.nodeJoined = true) (hsender : request.senderInfo ≠ none)
    (h : ¬ NeedsParse X A s request) : Definite X A s request := by
  obtain ⟨⟨response, d, calls⟩, hh, hcalls, hres⟩ := handle_refused h
  obtain rfl : response = kRpcResultFailure := hres.resolve_right hsender
  obtain rfl : calls = [] := hcalls
  exact definite_of_failure hj hh rfl

theorem listable_iff {r : FindRequest} {nodeId : KadID}
    (hid : X.toKadID r.senderInfo.nodeId = .ok nodeId) (hkey : X.toKadID r.key = .ok key) :
    Listable X A r ↔ Converts X (Listed A key (Contact.ofInfo nodeId r.senderInfo .empty)) := by
  simp [Listable, hid, hkey]

theorem findNode_listable (ret : FindResponse) {r : FindRequest} {nodeId : KadID}
    (hj : s.nodeJoined = true) (hid : X.toKadID r.senderInfo.nodeId = .ok nodeId)
    (hs : getSender X r.senderInfo = .ok (true, Contact.ofInfo nodeId r.senderInfo .empty))
    (hlist : Listable X A r) :
    ∃ ret' : FindResponse, findNode X A s ret r = .ok ⟨{ ret' with result := kRpcResultSuccess }, s.datastore,
      [.addContact (Contact.ofInfo nodeId r.senderInfo .empty)]⟩ := by
  obtain ⟨key, hkey, hconv⟩ := hlist nodeId hid
  obtain ⟨ret', hret⟩ := (pushNodes_returns ret).mpr hconv
  refine ⟨ret', ?_⟩
  rw [findNode_of_sender hj hs, hkey]
  simp only [Except.bind, hret]

theorem findNode_unlistable (ret : FindResponse) {r : FindRequest} {nodeId : KadID}
    (hj : s.nodeJoined = true) (hid : X.toKadID r.senderInfo.nodeId = .ok nodeId)
    (hs : getSender X r.senderInfo = .ok (true, Contact.ofInfo nodeId r.senderInfo .empty))
    (hlist : ¬ Listable X A r) : ∃ f, findNode X A s ret r = .error f := by
  rw [findNode_of_sender hj hs]
  cases hkey : X.toKadID r.key with
  | error f => exact ⟨f, rfl⟩
  | ok key =>
    cases hp : pushNodes X A key (Contact.ofInfo nodeId r.senderInfo .empty) ret with
    | error f => exact ⟨f, by simp only [Except.bind, hp]⟩
    | ok ret' => exact absurd ((listable_iff hid hkey).mpr ((pushNodes_returns ret).mp ⟨ret', hp⟩)) hlist

/-- `FindNode`, and `FindValue` without a value, return if the contacts can be listed. -/
theorem definite_iff_listable {r : FindRequest} (hpar : Parses X) (hj : s.nodeJoined = true)
    (hne : r.senderInfo.nodeId ≠ []) (hinfo : request.senderInfo = some r.senderInfo)
    (hh : handle X A s request = (findNode X A s {} r).map (·.map (·.result))) :
    Definite X A s request ↔ Listable X A r := by
  obtain ⟨nodeId, hid, hs⟩ := hpar.getSender hne
  constructor
  · rintro ⟨out, hout, -⟩
    by_contra hnot
    obtain ⟨f, hf⟩ := findNode_unlistable {} hj hid hs hnot
    rw [hh, hf] at hout
    cases hout
  · intro hlist
    obtain ⟨ret', hfind⟩ := findNode_listable {} hj hid hs hlist
    rw [hfind] at hh
    exact definite_of_success hj hh hinfo hs rfl

/-- The loop of `Downlist` sets the result, once for each entry that is parsed. -/
theorem definite_downlist_iff {r : DownlistRequest} (hpar : Parses X) (hj : s.nodeJoined = true)
    (hne : r.senderInfo.nodeId ≠ []) :
    Definite X A s (.downlist r) ↔ ∃ info ∈ r.downlist, info.nodeId ≠ [] := by
  obtain ⟨nodeId, -, hs⟩ := hpar.getSender hne
  obtain ⟨ret', calls', hloop, hcalls, hres⟩ := downlistLoop_returns (A := A) hpar 0 {} [] r.downlist
  have hh : handle X A s (.downlist r) = .ok ⟨ret'.result, s.datastore,
      calls' ++ [.addContact (Contact.ofInfo nodeId r.senderInfo .empty)]⟩ := by
    simp [handle, downlist, hj, hs, hloop, bind, Except.bind]
    rfl
  have hadd : added (calls' ++ [.addContact (Contact.ofInfo nodeId r.senderInfo .empty)]) =
      [.addContact (Contact.ofInfo nodeId r.senderInfo .empty)] := by
    rw [added, List.filter_append, ← added, hcalls]
    rfl
  constructor
  · rintro ⟨out, hout, hdef, -⟩
    rw [hh] at hout
    cases hout
    by_contra hnone
    simp only [hres, if_neg hnone] at hdef
    exact empty_not_answered hdef
  · intro hsome
    rw [hres, if_pos hsome] at hh
    exact definite_of_success hj hh rfl hs hadd

theorem definite_bootstrap_iff {r : BootstrapRequest} (hj : s.nodeJoined = true) :
    Definite X A s (.bootstrap r) ↔ r.nodeType = 0 := by
  constructor
  · rintro ⟨out, hout, hdef, -⟩
    by_contra htype
    have hh : handle X A s (.bootstrap r) = .ok ⟨[], s.datastore, []⟩ := by
      unfold handle bootstrap
      simp only
      rw [if_neg (by simp [hj]), if_neg htype]
      rfl
    rw [hh] at hout
    cases hout
    exact empty_not_answered hdef
  · intro htype
    have hh : handle X A s (.bootstrap r) = .ok ⟨kRpcResultSuccess, s.datastore, []⟩ := by
      simp [handle, bootstrap, hj, htype]
      rfl
    refine ⟨_, hh, .inl rfl, fun hn => ?_, fun info hinfo => ?_⟩
    · rw [hj] at hn
      cases hn
    · cases hinfo

/-- A request of a joined node whose sender is parsed. -/
theorem definite_parsed_iff (hpar : Parses X) (hneeds : NeedsParse X A s request) :
    Definite X A s request ↔ Answerable X A s request := by
  obtain ⟨hj, hasks, info, hinfo, hne⟩ := hneeds
  obtain ⟨nodeId, hid, hs⟩ := hpar.getSender hne
  cases request with
  | ping r =>
    cases hinfo
    exact iff_of_true (definite_of_success hj (ping_of_sender hj hasks hs) rfl hs rfl) trivial
  | findValue r =>
    cases hinfo
    cases hload : (s.datastore.loadItem A.first r.key).1 with
    | true =>
      have hh : handle X A s (.findValue r) = .ok ⟨kRpcResultSuccess, s.datastore,
          [.addContact (Contact.ofInfo nodeId r.senderInfo .empty)]⟩ := by
        simp only [handle, findValue_of_loaded hj hs hload, bind, Except.bind]
        rfl
      refine iff_of_true (definite_of_success hj hh rfl hs rfl) fun _ hno => ?_
      rw [hload] at hno
      cases hno
    | false =>
      have hh : handle X A s (.findValue r) =
          (findNode X A s {} r).map (·.map (·.result)) := by
        simp only [handle, findValue_of_unloaded hj hs hload]
        cases findNode X A s {} r <;> rfl
      rw [definite_iff_listable hpar hj hne rfl hh]
      exact ⟨fun hlist _ _ => hlist, fun hans => hans hne hload⟩
  | findNode r =>
    cases hinfo
    have hh : handle X A s (.findNode r) = (findNode X A s {} r).map (·.map (·.result)) := by
      simp only [handle]
      cases findNode X A s {} r <;> rfl
    rw [definite_iff_listable hpar hj hne rfl hh]
    exact ⟨fun hlist _ => hlist, fun hans => hans hne⟩
  | store r =>
    cases hinfo
    have hh := store_of_sender (A := A) hj hasks hs
    unfold storeValueLocal at hh
    simp only at hh
    split at hh
    · exact iff_of_true (definite_of_success hj hh rfl hs rfl) trivial
    · exact iff_of_true (definite_of_failure hj hh rfl) trivial
  | downlist r =>
    cases hinfo
    rw [definite_downlist_iff hpar hj hne]
    exact ⟨fun hsome _ => hsome, fun hans => hans hne⟩
  | bootstrap r => exact hasks.elim
  | delete r =>
    cases hinfo
    have hmark : (mark s r).1 = true := DataStore.markForDeletion_fst.mpr hasks.2
    exact iff_of_true (definite_of_success hj (delete_of_sender hj hasks.1 hmark hs) rfl hs rfl) trivial
  | update r =>
    cases hinfo
    have hwrite : (write X A s r).1 = true := DataStore.updateItem_fst.mpr hasks.2
    exact iff_of_true (definite_of_success hj (update_of_sender hj hasks.1 hwrite hs) rfl hs rfl) trivial

/-- One whose sender is not. -/
theorem definite_unparsed_iff (hj : s.nodeJoined = true) (hneeds : ¬ NeedsParse X A s request) :
    Definite X A s request ↔ Answerable X A s request := by
  cases request with
  | bootstrap r => exact definite_bootstrap_iff hj
  | ping r => exact iff_of_true (definite_of_refused hj (Option.some_ne_none _) hneeds) trivial
  | store r => exact iff_of_true (definite_of_refused hj (Option.some_ne_none _) hneeds) trivial
  | delete r => exact iff_of_true (definite_of_refused hj (Option.some_ne_none _) hneeds) trivial
  | update r => exact iff_of_true (definite_of_refused hj (Option.some_ne_none _) hneeds) trivial
  | findValue r =>
    refine iff_of_true (definite_of_refused hj (Option.some_ne_none _) hneeds) fun hne => ?_
    exact absurd ⟨hj, trivial, _, rfl, hne⟩ hneeds
  | findNode r =>
    refine iff_of_true (definite_of_refused hj (Option.some_ne_none _) hneeds) fun hne => ?_
    exact absurd ⟨hj, trivial, _, rfl, hne⟩ hneeds
  | downlist r =>
    refine iff_of_true (definite_of_refused hj (Option.some_ne_none _) hneeds) fun hne => ?_
    exact absurd ⟨hj, trivial, _, rfl, hne⟩ hneeds

/-- **Every request is answered definitely**, and which: a joined node leaves the result
empty for a `Downlist` of which no entry is parsed and for a `Bootstrap` by a node that is
no client, and `FindNode` does not return without ids. -/
theorem definite_iff (h : Parses X) :
    Definite X A s request ↔ (s.nodeJoined = true → Answerable X A s request) := by
  by_cases hj : s.nodeJoined = true
  · rw [imp_iff_right hj]
    by_cases hneeds : NeedsParse X A s request
    · exact definite_parsed_iff h hneeds
    · exact definite_unparsed_iff hj hneeds
  · exact iff_of_true (definite_unjoined (by simpa using hj)) fun hj' => absurd hj' hj

theorem definite_ping : Definite plainExternals (plainAnswers 1000) (joinedService (.new 0))
    (.ping { ping := bytes ['p', 'i', 'n', 'g'], senderInfo := peer }) :=
  (definite_iff plainExternals_parses).mpr fun _ => trivial

/-- A list of contacts to forget that is empty. -/
theorem definite_counterexample :
    ¬ ∀ (X : Externals) (A : Answers) (s : KadService) (request : Request), Parses X →
      Definite X A s request := by
  intro h
  obtain ⟨out, hout, hdef, -⟩ := h plainExternals (plainAnswers 1000) (joinedService (.new 0))
    (.downlist { senderInfo := peer }) plainExternals_parses
  have hrun : ∃ calls, handle plainExternals (plainAnswers 1000) (joinedService (.new 0))
      (.downlist { senderInfo := peer }) = .ok ⟨[], .new 0, calls⟩ := ⟨_, rfl⟩
  obtain ⟨calls, hrun⟩ := hrun
  rw [hrun] at hout
  cases hout
  exact empty_not_answered hdef

/-! ## A failed request leaves the store -/

section

variable (X : Externals) (A : Answers) (s : KadService) (request : Request)

/-- If the request is answered with failure, the store is as before. -/
def Atomic : Prop :=
  ∀ out, handle X A s request = .ok out → out.response = kRpcResultFailure →
    out.datastore = s.datastore

/-- A request without a sender that gets through to the store finds nothing to change. -/
def Harmless : Request → Prop
  | .delete r => s.nodeJoined = true → (s.datastore.loadItem A.first r.key).1 = true →
      r.senderInfo.nodeId = [] →
      ∀ e, s.datastore.find r.key r.value.ser = some e → e.delStatus ≠ .notDeleted
  | .update r => s.nodeJoined = true → checkUpdateRequest X A s r = true →
      s.datastore.UpdateAccepts r.key r.oldValue.ser r.newValue.ser → r.senderInfo.nodeId = [] →
      ∀ e, s.datastore.find r.key r.oldValue.ser = some e →
        DataStore.updated A.second r.key r.newValue.ser r.ttl (newHashable X r) = e
  | _ => True

end

theorem delete_unsent {r : DeleteRequest} (hj : s.nodeJoined = true)
    (hload : (s.datastore.loadItem A.first r.key).1 = true) (hs : r.senderInfo.nodeId = []) :
    handle X A s (.delete r) = .ok ⟨kRpcResultFailure, (mark s r).2, []⟩ := by
  have hsender : andGetSender X (mark s r).1 r.senderInfo = .ok (false, .empty) :=
    andGetSender_of_empty fun _ => hs
  simp only [mark] at hsender ⊢
  simp [handle, delete, hj, hload, hsender, bind, Except.bind]
  rfl

theorem update_unsent {r : UpdateRequest} (hj : s.nodeJoined = true)
    (hcheck : checkUpdateRequest X A s r = true) (hwrite : (write X A s r).1 = true)
    (hs : r.senderInfo.nodeId = []) :
    handle X A s (.update r) = .ok ⟨kRpcResultFailure, (write X A s r).2, []⟩ := by
  have hsender : getSender X r.senderInfo = .ok (false, .empty) := getSender_of_empty hs
  simp only [write] at hwrite ⊢
  simp [handle, update, hj, hcheck, hwrite, hsender, bind, Except.bind]
  rfl

/-- An `Update` that gets through to the store writes, whoever sent it. -/
theorem update_datastore {r : UpdateRequest} {out : Outcome Bytes} (hj : s.nodeJoined = true)
    (hcheck : checkUpdateRequest X A s r = true)
    (haccepts : s.datastore.UpdateAccepts r.key r.oldValue.ser r.newValue.ser)
    (hout : handle X A s (.update r) = .ok out) : out.datastore = (write X A s r).2 := by
  have hwrite : (write X A s r).1 = true := DataStore.updateItem_fst.mpr haccepts
  obtain ⟨hempty, -⟩ | ⟨f, hs⟩ | ⟨nodeId, -, -, hs⟩ := getSender_cases X r.senderInfo
  · rw [update_unsent hj hcheck hwrite hempty] at hout
    cases hout
    rfl
  · have hasks : AsksSender X A s (.update r) := ⟨hcheck, haccepts⟩
    rw [handle_aborts hj hasks rfl hs] at hout
    cases hout
  · rw [update_of_sender hj hcheck hwrite hs] at hout
    cases hout
    rfl

/-- The entry that it writes. -/
theorem write_puts {r : UpdateRequest}
    (haccepts : s.datastore.UpdateAccepts r.key r.oldValue.ser r.newValue.ser) :
    ∃ e, s.datastore.find r.key r.oldValue.ser = some e ∧
      s.datastore.Puts e (DataStore.updated A.second r.key r.newValue.ser r.ttl (newHashable X r))
        (write X A s r).2 :=
  (DataStore.updateItem_accepts haccepts).2

/-- `Update` writes that entry or nothing. -/
theorem write_cases (X : Externals) (A : Answers) (s : KadService) (r : UpdateRequest) :
    (write X A s r).2 = s.datastore ∨
    s.datastore.UpdateAccepts r.key r.oldValue.ser r.newValue.ser ∧
      ∃ e, s.datastore.find r.key r.oldValue.ser = some e ∧
        s.datastore.Puts e (DataStore.updated A.second r.key r.newValue.ser r.ttl (newHashable X r))
          (write X A s r).2 := by
  by_cases haccepts : s.datastore.UpdateAccepts r.key r.oldValue.ser r.newValue.ser
  · exact .inr ⟨haccepts, write_puts haccepts⟩
  · exact .inl (congrArg Prod.snd (DataStore.updateItem_refuses haccepts))

/-- `Delete` marks a live entry and leaves the store otherwise. -/
theorem mark_cases (s : KadService) (r : DeleteRequest) :
    ((mark s r).2 = s.datastore ∧
      ∀ e, s.datastore.find r.key r.value.ser = some e → e.delStatus ≠ .notDeleted) ∨
    ∃ e, s.datastore.find r.key r.value.ser = some e ∧ e.delStatus = .notDeleted ∧
      s.datastore.Puts e { e with
        serDeleteReq := r.signedRequest.ser
        delStatus := .markedForDeletion } (mark s r).2 :=
  DataStore.markForDeletion_cases s.datastore r.key r.value.ser r.signedRequest.ser

theorem mark_unchanged_iff {r : DeleteRequest} : (mark s r).2 = s.datastore ↔
    ∀ e, s.datastore.find r.key r.value.ser = some e → e.delStatus ≠ .notDeleted := by
  rcases mark_cases s r with ⟨hsame, hdead⟩ | ⟨e, hf, hs, hput⟩
  · exact ⟨fun _ => hdead, fun _ => hsame⟩
  · have hne := hput.ne_self (DataStore.find_eq_some.mp hf).1
      fun heq => by rw [← heq] at hs; cases hs
    exact ⟨fun hsame => absurd hsame hne, fun hdead => absurd hs (hdead e hf)⟩

theorem write_unchanged_iff {r : UpdateRequest}
    (haccepts : s.datastore.UpdateAccepts r.key r.oldValue.ser r.newValue.ser) :
    (write X A s r).2 = s.datastore ↔
      ∀ e, s.datastore.find r.key r.oldValue.ser = some e →
        DataStore.updated A.second r.key r.newValue.ser r.ttl (newHashable X r) = e := by
  obtain ⟨e, hf, hput⟩ := write_puts (X := X) (A := A) haccepts
  have hmem := (DataStore.find_eq_some.mp hf).1
  constructor
  · intro hsame e' he'
    obtain rfl : e = e' := by simpa [hf] using he'
    by_contra hne
    exact hput.ne_self hmem hne hsame
  · intro hsame
    rw [hsame e hf] at hput
    exact hput.eq_self hmem DataStore.updateItem_tRefresh

/-- **A failed request has no effect**, and when: only a `Delete` or an `Update` whose sender
has no id can fail after it has written. -/
theorem atomic_iff : Atomic X A s request ↔ Harmless X A s request := by
  constructor
  · intro h
    cases request with
    | delete r =>
      intro hj hload hs
      exact mark_unchanged_iff.mp (h _ (delete_unsent hj hload hs) rfl)
    | update r =>
      intro hj hcheck haccepts hs
      have hwrite : (write X A s r).1 = true := DataStore.updateItem_fst.mpr haccepts
      exact (write_unchanged_iff haccepts).mp (h _ (update_unsent hj hcheck hwrite hs) rfl)
    | _ => trivial
  · intro h out hout hfail
    obtain ⟨response, d, calls⟩ := out
    have heffect : Effect X A s request response d := handle_effect hout
    cases heffect with
    | read => rfl
    | refused => rfl
    | stored => exact writeValue_false (Bool.eq_false_iff.mpr (answered_failure_iff.mp hfail))
    | @deleted r hj hload =>
      have hnot := answered_failure_iff.mp hfail
      apply mark_unchanged_iff.mpr
      intro e hf
      by_cases hs : r.senderInfo.nodeId = []
      · exact h hj hload hs e hf
      · refine absurd ⟨DataStore.markForDeletion_fst.mpr ?_, hs⟩ hnot
        rw [hf]
        rfl
    | @updated r hj hcheck =>
      have hnot := answered_failure_iff.mp hfail
      by_cases haccepts : s.datastore.UpdateAccepts r.key r.oldValue.ser r.newValue.ser
      · apply (write_unchanged_iff haccepts).mpr
        refine h hj hcheck haccepts ?_
        by_contra hs
        exact hnot ⟨DataStore.updateItem_fst.mpr haccepts, hs⟩
      · exact congrArg Prod.snd (DataStore.updateItem_refuses haccepts)

/-- A value that is stored, and then deleted by a sender without an id. -/
theorem atomic_counterexample :
    ¬ ∀ (X : Externals) (A : Answers) (n : Node) (request : Request), Parses X →
      (Node.system X).Reachable n → Atomic X A n.service request := by
  intro h
  have hsame := h plainExternals (plainAnswers 1000) (Node.publishedOnce { value := bytes ['v'] })
    (.delete { key := bytes ['k'], value := { value := bytes ['v'] } }) plainExternals_parses
    (Node.reachable_publishedOnce rfl)
  have hstatus := mark_unchanged_iff.mp (hsame _ (delete_unsent rfl (by decide +kernel) rfl) rfl)
  exact hstatus _ rfl rfl

end KadService
end Kadpeer.L4
