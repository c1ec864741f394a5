import Kadpeer.L4Service.Messages

/-!
# The handlers (`kademlia/kadservice.h`, `kademlia/kadservice.cpp`)

What lies outside the handlers is an argument. `Externals` has the conversions between
strings and ids, the hash and the signature check, which stay the same. `Answers` has what
the routing table's callbacks answer during one request and the readings of the clock: a
request reads it at most twice. `add_contact_` and `ping_` return nothing that a handler
looks at; their calls are collected in order.

A handler gets the response object and returns it with the store and the calls made.

* `getSender_eq`: the sender is parsed unless its `node_id` is empty. `getSender_cases`:
  it is empty, aborts the call, or is parsed.
* `handle_effect`: what a request that returns does to the store, and when it is answered with
  success.
-/
namespace Kadpeer.L4

open Kadpeer.Core Kadpeer.L1 Kadpeer.L2

structure Externals where
  toKadID : Bytes → Except Fault KadID
  parseToThrift : Contact → Except Fault ContactInfo
  hash : Bytes → Bytes
  asymCheckSig : Bytes → Bytes → Bytes → Bool

/-- `getContact n` is the answer to the `n`-th call of `get_contact_`. -/
structure Answers where
  getContact : Nat → KadID → Option Contact
  getClosestK : KadID → List Contact → List Contact
  first : U32
  second : U32

/-- The callbacks without an answer. The second argument of `add_contact_` is always
`false`. -/
inductive Call
  | addContact (c : Contact)
  | ping (c : Contact)
deriving DecidableEq

/-- mirrors src/src/kademlia/kadservice.h:90-110 -/
structure KadService where
  datastore : DataStore
  nodeJoined : Bool
  nodeHasRSAkeys : Bool
  nodeInfo : ContactInfo

structure Outcome (R : Type) where
  response : R
  datastore : DataStore
  calls : List Call

def Outcome.map {R R' : Type} (f : R → R') (out : Outcome R) : Outcome R' :=
  ⟨f out.response, out.datastore, out.calls⟩

namespace KadService

variable (X : Externals) (A : Answers) (s : KadService)

/-- mirrors src/src/kademlia/kadservice.cpp:341-347 -/
def getSender (senderInfo : ContactInfo) : Except Fault (Bool × Contact) :=
  Contact.parseFromThrift X.toKadID senderInfo .empty

/-- `b && GetSender(sender_info, &sender)`. -/
def andGetSender (b : Bool) (senderInfo : ContactInfo) : Except Fault (Bool × Contact) :=
  if b then getSender X senderInfo else .ok (false, .empty)

/-- mirrors src/src/kademlia/kadservice.cpp:53-71 -/
def ping (ret : PingResponse) (request : PingRequest) : Except Fault (Outcome PingResponse) := do
  if !s.nodeJoined then
    return ⟨{ ret with result := kRpcResultFailure }, s.datastore, []⟩
  else
    let (parsed, sender) ← andGetSender X (request.ping = bytes ['p', 'i', 'n', 'g'])
      request.senderInfo
    if parsed then
      return ⟨{ ret with
        echo := bytes ['p', 'o', 'n', 'g']
        result := kRpcResultSuccess
        nodeId := s.nodeInfo.nodeId }, s.datastore, [.addContact sender]⟩
    else
      return ⟨{ ret with
        result := kRpcResultFailure
        nodeId := s.nodeInfo.nodeId }, s.datastore, []⟩

/-- `_return.closest_nodes.push_back(c.ParseToThrift())` for one of the closest contacts. -/
def pushClosest (key : KadID) (acc : FindResponse × Bool) (c : Contact) :
    Except Fault (FindResponse × Bool) := do
  let info ← X.parseToThrift c
  return ({ acc.1 with closestNodes := acc.1.closestNodes ++ [info] }, acc.2 || key = c.nodeId)

/-- The closest contacts and, if the key is not among them, the one that has it. -/
def pushNodes (key : KadID) (sender : Contact) (ret : FindResponse) : Except Fault FindResponse := do
  let (ret, foundNode) ← (A.getClosestK key [sender]).foldlM (pushClosest X key) (ret, false)
  if foundNode then
    return ret
  else
    match A.getContact 0 key with
    | none => return ret
    | some keyNode =>
      let info ← X.parseToThrift keyNode
      return { ret with closestNodes := ret.closestNodes ++ [info] }

/-- mirrors src/src/kademlia/kadservice.cpp:116-153 -/
def findNode (ret : FindResponse) (request : FindRequest) : Except Fault (Outcome FindResponse) := do
  if !s.nodeJoined then
    return ⟨{ ret with result := kRpcResultFailure }, s.datastore, []⟩
  else
    let (parsed, sender) ← getSender X request.senderInfo
    if parsed then
      let key ← X.toKadID request.key
      let ret ← pushNodes X A key sender ret
      return ⟨{ ret with result := kRpcResultSuccess }, s.datastore, [.addContact sender]⟩
    else
      return ⟨{ ret with result := kRpcResultFailure }, s.datastore, []⟩

/-- Both branches on the node's keys push the same strings.
mirrors src/src/kademlia/kadservice.cpp:73-114 -/
def findValue (ret : FindResponse) (request : FindRequest) : Except Fault (Outcome FindResponse) := do
  if !s.nodeJoined then
    return ⟨{ ret with result := kRpcResultFailure }, s.datastore, []⟩
  else
    let (parsed, sender) ← getSender X request.senderInfo
    if parsed then
      let (found, values) := s.datastore.loadItem A.first request.key
      if found then
        return ⟨{ ret with
          values := ret.values ++ values
          result := kRpcResultSuccess
          nodeId := s.nodeInfo.nodeId }, s.datastore, [.addContact sender]⟩
      else
        let out ← findNode X A s ret request
        return { out with response := { out.response with nodeId := s.nodeInfo.nodeId } }
    else
      return ⟨{ ret with
        result := kRpcResultFailure
        nodeId := s.nodeInfo.nodeId }, s.datastore, []⟩

/-- The flags that the node asks for.
mirrors src/src/kademlia/kadservice.cpp:351-359 -/
def hasPayload (request : StoreRequest) : Bool :=
  if s.nodeHasRSAkeys then request.isset.signedRequest && request.isset.sigValue
  else request.isset.value

/-- mirrors src/src/kademlia/kadservice.cpp:349-361 -/
def checkStoreRequest (request : StoreRequest) : Except Fault (Bool × Contact) :=
  andGetSender X (hasPayload s request) request.senderInfo

/-- The result and `*hashable`.
mirrors src/src/kademlia/kadservice.cpp:451-469 -/
def canStoreSignedValueHashable (key value : Bytes) (d : DataStore) : Bool × Bool :=
  match d.loadKeyAppendableAttr key with
  | [] => (true, key = X.hash value)
  | [(value', hashable)] => (!(hashable && value ≠ value'), hashable)
  | _ => (true, false)

/-- The result of the store operations and the store.
mirrors src/src/kademlia/kadservice.cpp:408-438 -/
def writeValue (key serValue : Bytes) (ttl : I32) (publish : Bool) (d : DataStore) :
    Bool × DataStore :=
  if publish then
    let (can, hashable) := canStoreSignedValueHashable X key serValue d
    if can then d.storeItem A.first key serValue ttl hashable else (false, d)
  else
    let (result, serDelRequest, d) := d.refreshItem A.first key serValue []
    let (can, hashable) := canStoreSignedValueHashable X key serValue d
    if !result && can && serDelRequest.isEmpty then d.storeItem A.second key serValue ttl hashable
    else (result, d)

/-- The overload on a `SignedValue`, which is the one that `Store` calls.
mirrors src/src/kademlia/kadservice.cpp:399-449 -/
def storeValueLocal (key : Bytes) (value : SignedValue) (sender : Contact) (ttl : I32)
    (publish : Bool) (response : StoreResponse) (d : DataStore) : Outcome StoreResponse :=
  let (result, d) := writeValue X A key value.ser ttl publish d
  if result then ⟨{ response with result := kRpcResultSuccess }, d, [.addContact sender]⟩
  else ⟨{ response with result := kRpcResultFailure }, d, []⟩

/-- mirrors src/src/kademlia/kadservice.cpp:156-178 -/
def store (ret : StoreResponse) (request : StoreRequest) : Except Fault (Outcome StoreResponse) := do
  if !s.nodeJoined then
    return ⟨{ ret with result := kRpcResultFailure }, s.datastore, []⟩
  else
    let (checked, sender) ← checkStoreRequest X s request
    if checked then
      return storeValueLocal X A request.key request.sigValue sender request.ttl request.publish
        ret s.datastore
    else
      return ⟨{ ret with result := kRpcResultFailure }, s.datastore, []⟩

/-- The loop of `Downlist`; `n` calls of `get_contact_` have been made.
mirrors src/src/kademlia/kadservice.cpp:191-203 -/
def downlistLoop (n : Nat) (ret : DownlistResponse) (calls : List Call) :
    List ContactInfo → Except Fault (DownlistResponse × List Call)
  | [] => return (ret, calls)
  | info :: rest => do
    let (parsed, deadNode) ← Contact.parseFromThrift X.toKadID info .empty
    if parsed then
      downlistLoop (n + 1) { ret with result := kRpcResultSuccess }
        (if (A.getContact n deadNode.nodeId).isSome then calls ++ [.ping deadNode] else calls) rest
    else
      downlistLoop n ret calls rest

/-- mirrors src/src/kademlia/kadservice.cpp:181-210 -/
def downlist (ret : DownlistResponse) (request : DownlistRequest) :
    Except Fault (Outcome DownlistResponse) := do
  if !s.nodeJoined then
    return ⟨{ ret with result := kRpcResultFailure }, s.datastore, []⟩
  else
    let (parsed, sender) ← getSender X request.senderInfo
    if parsed then
      let (ret, calls) ← downlistLoop X A 0 ret [] request.downlist
      return ⟨ret, s.datastore, calls ++ [.addContact sender]⟩
    else
      return ⟨{ ret with result := kRpcResultFailure }, s.datastore, []⟩

/-- The node type `CLIENT` is 0.
mirrors src/src/kademlia/kadservice.cpp:212-232 -/
def bootstrap (ret : BootstrapResponse) (request : BootstrapRequest) : Outcome BootstrapResponse :=
  if !s.nodeJoined then
    ⟨{ ret with result := kRpcResultFailure }, s.datastore, []⟩
  else if request.nodeType = 0 then
    ⟨{ ret with
      bootstrapId := s.nodeInfo.nodeId
      newcomerExtIp := request.newcomerExtIp
      newcomerExtPort := request.newcomerExtPort
      result := kRpcResultSuccess }, s.datastore, []⟩
  else
    ⟨ret, s.datastore, []⟩

/-- mirrors src/src/kademlia/kadservice.cpp:234-266 -/
def delete (ret : DeleteResponse) (request : DeleteRequest) :
    Except Fault (Outcome DeleteResponse) := do
  if !s.nodeJoined then
    return ⟨{ ret with result := kRpcResultFailure }, s.datastore, []⟩
  else
    let ret := { ret with nodeId := s.nodeInfo.nodeId }
    if !(s.datastore.loadItem A.first request.key).1 then
      return ⟨{ ret with result := kRpcResultFailure }, s.datastore, []⟩
    else
      let (marked, d) :=
        s.datastore.markForDeletion request.key request.value.ser request.signedRequest.ser
      -- the entry is marked before the sender is looked at
      let (parsed, sender) ← andGetSender X marked request.senderInfo
      if parsed then
        return ⟨{ ret with result := kRpcResultSuccess }, d, [.addContact sender]⟩
      else
        return ⟨{ ret with result := kRpcResultFailure }, d, []⟩

/-- `new_hashable`. -/
def newHashable (request : UpdateRequest) : Bool := request.key = X.hash request.newValue.ser

/-- The three checks before `UpdateItem`.
mirrors src/src/kademlia/kadservice.cpp:278-306 -/
def checkUpdateRequest (request : UpdateRequest) : Bool :=
  let (found, values) := s.datastore.loadItem A.first request.key
  found && values.contains request.oldValue.ser &&
    X.asymCheckSig request.newValue.value request.newValue.valueSignature request.request.publicKey

/-- mirrors src/src/kademlia/kadservice.cpp:269-338 -/
def update (ret : UpdateResponse) (request : UpdateRequest) :
    Except Fault (Outcome UpdateResponse) := do
  let ret := { ret with nodeId := s.nodeInfo.nodeId, result := kRpcResultFailure }
  if !s.nodeJoined then
    return ⟨ret, s.datastore, []⟩
  else if !checkUpdateRequest X A s request then
    return ⟨ret, s.datastore, []⟩
  else
    let (updated, d) := s.datastore.updateItem A.second request.key request.oldValue.ser
      request.newValue.ser request.ttl (newHashable X request)
    if !updated then
      return ⟨ret, d, []⟩
    else
      -- the entry is written before the sender is looked at
      let (parsed, sender) ← getSender X request.senderInfo
      if parsed then
        return ⟨{ ret with result := kRpcResultSuccess }, d, [.addContact sender]⟩
      else
        return ⟨ret, d, []⟩

/-! ## All requests -/

inductive Request
  | ping (request : PingRequest)
  | findValue (request : FindRequest)
  | findNode (request : FindRequest)
  | store (request : StoreRequest)
  | downlist (request : DownlistRequest)
  | bootstrap (request : BootstrapRequest)
  | delete (request : DeleteRequest)
  | update (request : UpdateRequest)

/-- The contact that sent the request; `BootstrapRequest` has none. -/
def Request.senderInfo : Request → Option ContactInfo
  | .ping r => some r.senderInfo
  | .findValue r => some r.senderInfo
  | .findNode r => some r.senderInfo
  | .store r => some r.senderInfo
  | .downlist r => some r.senderInfo
  | .bootstrap _ => none
  | .delete r => some r.senderInfo
  | .update r => some r.senderInfo

/-- The `result` of the response, which is empty before the call. -/
def handle : Request → Except Fault (Outcome Bytes)
  | .ping r => return (← ping X s {} r).map (·.result)
  | .findValue r => return (← findValue X A s {} r).map (·.result)
  | .findNode r => return (← findNode X A s {} r).map (·.result)
  | .store r => return (← store X A s {} r).map (·.result)
  | .downlist r => return (← downlist X A s {} r).map (·.result)
  | .bootstrap r => return (bootstrap s {} r).map (·.result)
  | .delete r => return (← delete X A s {} r).map (·.result)
  | .update r => return (← update X A s {} r).map (·.result)

variable {X A s} {info : ContactInfo} {out : Outcome Bytes} {request : Request}

theorem success_ne_failure : kRpcResultSuccess ≠ kRpcResultFailure := by decide

theorem answered_success_iff {p : Prop} [Decidable p] :
    (if p then kRpcResultSuccess else kRpcResultFailure) = kRpcResultSuccess ↔ p := by
  by_cases h : p
  · simp [h]
  · simp [h, success_ne_failure.symm]

theorem answered_failure_iff {p : Prop} [Decidable p] :
    (if p then kRpcResultSuccess else kRpcResultFailure) = kRpcResultFailure ↔ ¬ p := by
  by_cases h : p
  · simp [h, success_ne_failure]
  · simp [h]

/-! ## The sender -/

theorem getSender_eq : getSender X info =
    if info.nodeId = [] then .ok (false, .empty)
    else (X.toKadID info.nodeId).map fun id => (true, Contact.ofInfo id info .empty) :=
  Contact.parseFromThrift_eq info .empty

theorem getSender_of_empty (h : info.nodeId = []) : getSender X info = .ok (false, .empty) := by
  rw [getSender_eq, if_pos h]

theorem getSender_of_ok {nodeId : KadID} (h : info.nodeId ≠ [])
    (hid : X.toKadID info.nodeId = .ok nodeId) :
    getSender X info = .ok (true, Contact.ofInfo nodeId info .empty) := by
  rw [getSender_eq, if_neg h, hid]
  rfl

theorem getSender_of_error {f : Fault} (h : info.nodeId ≠ [])
    (hid : X.toKadID info.nodeId = .error f) : getSender X info = .error f := by
  rw [getSender_eq, if_neg h, hid]
  rfl

/-- What can become of a sender. -/
theorem getSender_cases (X : Externals) (info : ContactInfo) :
    (info.nodeId = [] ∧ getSender X info = .ok (false, .empty)) ∨
    (∃ f, getSender X info = .error f) ∨
    ∃ nodeId, info.nodeId ≠ [] ∧ X.toKadID info.nodeId = .ok nodeId ∧
      getSender X info = .ok (true, Contact.ofInfo nodeId info .empty) := by
  by_cases hempty : info.nodeId = []
  · exact .inl ⟨hempty, getSender_of_empty hempty⟩
  · cases hid : X.toKadID info.nodeId with
    | error f => exact .inr (.inl ⟨f, getSender_of_error hempty hid⟩)
    | ok nodeId => exact .inr (.inr ⟨nodeId, hempty, rfl, getSender_of_ok hempty hid⟩)

/-- A sender that is looked at and has a `node_id` is parsed, if the call returns. -/
theorem andGetSender_ok {b parsed : Bool} {sender : Contact}
    (h : andGetSender X b info = .ok (parsed, sender)) :
    parsed = true ↔ b = true ∧ info.nodeId ≠ [] := by
  unfold andGetSender at h
  split at h
  · rename_i hb
    obtain ⟨hempty, hs⟩ | ⟨f, hs⟩ | ⟨nodeId, hempty, -, hs⟩ := getSender_cases X info
    all_goals
      rw [hs] at h
      cases h
    · simp [hempty]
    · simp [hb, hempty]
  · rename_i hb
    cases h
    simp [hb]

theorem getSender_ok {parsed : Bool} {sender : Contact}
    (h : getSender X info = .ok (parsed, sender)) : parsed = true ↔ info.nodeId ≠ [] := by
  have hand : andGetSender X true info = .ok (parsed, sender) := h
  simpa using andGetSender_ok hand

/-! ## What a request does to the store -/

section

variable (X A s)

/-- `MarkForDeletion` with the arguments that `Delete` passes. -/
def mark (r : DeleteRequest) : Bool × DataStore :=
  s.datastore.markForDeletion r.key r.value.ser r.signedRequest.ser

/-- `UpdateItem` with the arguments that `Update` passes. -/
def write (r : UpdateRequest) : Bool × DataStore :=
  s.datastore.updateItem A.second r.key r.oldValue.ser r.newValue.ser r.ttl (newHashable X r)

/-- The requests with no way to the store's operations that write. -/
def Request.ReadsOnly : Request → Prop
  | .store _ => False
  | .delete _ => False
  | .update _ => False
  | _ => True

/-- The result of a request that returns, and the store after it. -/
inductive Effect : Request → Bytes → DataStore → Prop
  | read {request : Request} {result : Bytes} (h : request.ReadsOnly) :
      Effect request result s.datastore
  | refused {request : Request} : Effect request kRpcResultFailure s.datastore
  | stored {r : StoreRequest} (hjoined : s.nodeJoined = true) (hload : hasPayload s r = true)
      (hsender : r.senderInfo.nodeId ≠ []) :
      Effect (.store r)
        (if (writeValue X A r.key r.sigValue.ser r.ttl r.publish s.datastore).1 then
          kRpcResultSuccess else kRpcResultFailure)
        (writeValue X A r.key r.sigValue.ser r.ttl r.publish s.datastore).2
  | deleted {r : DeleteRequest} (hjoined : s.nodeJoined = true)
      (hload : (s.datastore.loadItem A.first r.key).1 = true) :
      Effect (.delete r)
        (if (mark s r).1 = true ∧ r.senderInfo.nodeId ≠ [] then kRpcResultSuccess
          else kRpcResultFailure) (mark s r).2
  | updated {r : UpdateRequest} (hjoined : s.nodeJoined = true)
      (hcheck : checkUpdateRequest X A s r = true) :
      Effect (.update r)
        (if (write X A s r).1 = true ∧ r.senderInfo.nodeId ≠ [] then kRpcResultSuccess
          else kRpcResultFailure) (write X A s r).2

end

theorem ping_datastore {ret : PingResponse} {r : PingRequest} {out : Outcome PingResponse}
    (h : ping X s ret r = .ok out) : out.datastore = s.datastore := by
  unfold ping at h
  split at h
  · cases h
    rfl
  · obtain ⟨⟨parsed, sender⟩, -, h⟩ := bind_eq_ok.mp h
    simp only at h
    split at h <;> cases h <;> rfl

/-- What a `FindNode` that returns has done. -/
theorem findNode_ok {ret : FindResponse} {r : FindRequest} {out : Outcome FindResponse}
    (h : findNode X A s ret r = .ok out) :
    out = ⟨{ ret with result := kRpcResultFailure }, s.datastore, []⟩ ∨
      ∃ sender key ret', getSender X r.senderInfo = .ok (true, sender) ∧
        X.toKadID r.key = .ok key ∧ pushNodes X A key sender ret = .ok ret' ∧
        out = ⟨{ ret' with result := kRpcResultSuccess }, s.datastore, [.addContact sender]⟩ := by
  unfold findNode at h
  split at h
  · exact .inl (Except.ok.inj h).symm
  · obtain ⟨⟨parsed, sender⟩, hs, h⟩ := bind_eq_ok.mp h
    simp only at h
    split at h
    · rename_i hparsed
      obtain ⟨key, hkey, h⟩ := bind_eq_ok.mp h
      obtain ⟨ret', hret, h⟩ := bind_eq_ok.mp h
      exact .inr ⟨sender, key, ret', hparsed ▸ hs, hkey, hret, (Except.ok.inj h).symm⟩
    · exact .inl (Except.ok.inj h).symm

theorem findNode_datastore {ret : FindResponse} {r : FindRequest} {out : Outcome FindResponse}
    (h : findNode X A s ret r = .ok out) : out.datastore = s.datastore := by
  rcases findNode_ok h with rfl | ⟨sender, key, ret', -, -, -, rfl⟩ <;> rfl

theorem findValue_datastore {ret : FindResponse} {r : FindRequest} {out : Outcome FindResponse}
    (h : findValue X A s ret r = .ok out) : out.datastore = s.datastore := by
  unfold findValue at h
  split at h
  · cases h
    rfl
  · obtain ⟨⟨parsed, sender⟩, -, h⟩ := bind_eq_ok.mp h
    simp only at h
    split at h
    · split at h
      · cases h
        rfl
      · obtain ⟨out', hout, h⟩ := bind_eq_ok.mp h
        have hsame := findNode_datastore hout
        cases h
        exact hsame
    · cases h
      rfl

theorem downlist_datastore {ret : DownlistResponse} {r : DownlistRequest}
    {out : Outcome DownlistResponse} (h : downlist X A s ret r = .ok out) :
    out.datastore = s.datastore := by
  unfold downlist at h
  split at h
  · cases h
    rfl
  · obtain ⟨⟨parsed, sender⟩, -, h⟩ := bind_eq_ok.mp h
    simp only at h
    split at h
    · obtain ⟨⟨ret', calls⟩, -, h⟩ := bind_eq_ok.mp h
      cases h
      rfl
    · cases h
      rfl

theorem bootstrap_datastore (ret : BootstrapResponse) (r : BootstrapRequest) :
    (bootstrap s ret r).datastore = s.datastore := by
  unfold bootstrap
  split
  · rfl
  · split <;> rfl

theorem store_effect {ret : StoreResponse} {r : StoreRequest} {out : Outcome StoreResponse}
    (h : store X A s ret r = .ok out) :
    Effect X A s (.store r) out.response.result out.datastore := by
  unfold store at h
  split at h
  · cases h
    exact .refused
  · rename_i hj
    obtain ⟨⟨checked, sender⟩, hcheck, h⟩ := bind_eq_ok.mp h
    simp only at h
    split at h
    · rename_i hc
      obtain ⟨hload, hne⟩ := (andGetSender_ok hcheck).mp hc
      have heffect : Effect X A s (.store r) _ _ := .stored (by simpa using hj) hload hne
      cases h
      unfold storeValueLocal
      simp only
      split <;> rename_i hw <;> simpa [hw] using heffect
    · cases h
      exact .refused

theorem delete_effect {ret : DeleteResponse} {r : DeleteRequest} {out : Outcome DeleteResponse}
    (h : delete X A s ret r = .ok out) :
    Effect X A s (.delete r) out.response.result out.datastore := by
  unfold delete at h
  split at h
  · cases h
    exact .refused
  · rename_i hj
    simp only at h
    split at h
    · cases h
      exact .refused
    · rename_i hload
      have heffect : Effect X A s (.delete r) _ _ := .deleted (by simpa using hj) (by simpa using hload)
      obtain ⟨⟨parsed, sender⟩, hs, h⟩ := bind_eq_ok.mp h
      have hparsed : parsed = true ↔ (mark s r).1 = true ∧ r.senderInfo.nodeId ≠ [] :=
        andGetSender_ok hs
      simp only at h
      split at h
      · rename_i hp
        rw [if_pos (hparsed.mp hp)] at heffect
        cases h
        exact heffect
      · rename_i hp
        rw [if_neg (hparsed.not.mp hp)] at heffect
        cases h
        exact heffect

theorem update_effect {ret : UpdateResponse} {r : UpdateRequest} {out : Outcome UpdateResponse}
    (h : update X A s ret r = .ok out) :
    Effect X A s (.update r) out.response.result out.datastore := by
  unfold update at h
  simp only at h
  split at h
  · cases h
    exact .refused
  · rename_i hj
    split at h
    · cases h
      exact .refused
    · rename_i hcheck
      have heffect : Effect X A s (.update r) _ _ := .updated (by simpa using hj) (by simpa using hcheck)
      split at h
      · rename_i hw
        have hfail : (write X A s r).1 = false := by
          rw [Bool.not_eq_true'] at hw
          exact hw
        rw [hfail, if_neg (by simp)] at heffect
        cases h
        exact heffect
      · rename_i hw
        have hdone : (write X A s r).1 = true := by
          rw [Bool.not_eq_true, Bool.not_eq_false'] at hw
          exact hw
        obtain ⟨⟨parsed, sender⟩, hs, h⟩ := bind_eq_ok.mp h
        have hparsed := getSender_ok hs
        simp only at h
        split at h
        · rename_i hp
          rw [if_pos ⟨hdone, hparsed.mp hp⟩] at heffect
          cases h
          exact heffect
        · rename_i hp
          rw [if_neg fun hboth => hp (hparsed.mpr hboth.2)] at heffect
          cases h
          exact heffect

theorem handle_effect (h : handle X A s request = .ok out) :
    Effect X A s request out.response out.datastore := by
  cases request with
  | ping r =>
    obtain ⟨out', hout, h⟩ := bind_eq_ok.mp h
    cases h
    exact ping_datastore hout ▸ .read trivial
  | findValue r =>
    obtain ⟨out', hout, h⟩ := bind_eq_ok.mp h
    cases h
    exact findValue_datastore hout ▸ .read trivial
  | findNode r =>
    obtain ⟨out', hout, h⟩ := bind_eq_ok.mp h
    cases h
    exact findNode_datastore hout ▸ .read trivial
  | store r =>
    obtain ⟨out', hout, h⟩ := bind_eq_ok.mp h
    cases h
    exact store_effect hout
  | downlist r =>
    obtain ⟨out', hout, h⟩ := bind_eq_ok.mp h
    cases h
    exact downlist_datastore hout ▸ .read trivial
  | bootstrap r =>
    cases h
    exact bootstrap_datastore _ r ▸ .read trivial
  | delete r =>
    obtain ⟨out', hout, h⟩ := bind_eq_ok.mp h
    cases h
    exact delete_effect hout
  | update r =>
    obtain ⟨out', hout, h⟩ := bind_eq_ok.mp h
    cases h
    exact update_effect hout

/-! ## What `StoreValueLocal` writes -/

section

variable {key serValue : Bytes} {ttl : I32} {publish : Bool} {d : DataStore} {e : KeyValueTuple}

/-- The ways through the store operations of `StoreValueLocal`. -/
inductive Writes (X : Externals) (A : Answers) (key serValue : Bytes) (ttl : I32) (publish : Bool)
    (d : DataStore) : Bool × DataStore → Prop
  | refused : Writes X A key serValue ttl publish d (false, d)
  | stored {now : U32} {hashable : Bool}
      (hcan : canStoreSignedValueHashable X key serValue d = (true, hashable))
      (hnow : now = if publish then A.first else A.second)
      (hnew : publish = true ∨ ∀ e, d.find key serValue = some e →
        e.delStatus ≠ .notDeleted ∧ e.serDeleteReq = [])
      (haccepts : d.StoreAccepts now key serValue ttl) :
      Writes X A key serValue ttl publish d (d.storeItem now key serValue ttl hashable)
  | refreshed {e : KeyValueTuple} (hpublish : publish = false)
      (hf : d.find key serValue = some e) (hs : e.delStatus = .notDeleted) :
      Writes X A key serValue ttl publish d (true, (d.refreshItem A.first key serValue []).2.2)

/-- `StoreItem` on the way, when the pair can be stored. -/
theorem writes_storeItem {now : U32} {can hashable : Bool}
    (hcan : canStoreSignedValueHashable X key serValue d = (can, hashable))
    (hnow : now = if publish then A.first else A.second)
    (hnew : publish = true ∨ ∀ e, d.find key serValue = some e →
      e.delStatus ≠ .notDeleted ∧ e.serDeleteReq = []) :
    Writes X A key serValue ttl publish d
      (if can then d.storeItem now key serValue ttl hashable else (false, d)) := by
  cases can with
  | false => exact .refused
  | true =>
    by_cases haccepts : d.StoreAccepts now key serValue ttl
    · exact .stored hcan hnow hnew haccepts
    · simp only [if_true, DataStore.storeItem_refuses haccepts]
      exact .refused

theorem writeValue_writes (X : Externals) (A : Answers) (key serValue : Bytes) (ttl : I32)
    (publish : Bool) (d : DataStore) :
    Writes X A key serValue ttl publish d (writeValue X A key serValue ttl publish d) := by
  cases hcan : canStoreSignedValueHashable X key serValue d with
  | mk can hashable =>
  unfold writeValue
  cases publish with
  | true =>
    simp only [if_true, hcan]
    exact writes_storeItem hcan rfl (.inl rfl)
  | false =>
    have hwrites : (∀ e, d.find key serValue = some e →
        e.delStatus ≠ .notDeleted ∧ e.serDeleteReq = []) → Writes X A key serValue ttl false d
          (if can then d.storeItem A.second key serValue ttl hashable else (false, d)) :=
      fun hnew => writes_storeItem hcan rfl (.inr hnew)
    cases hf : d.find key serValue with
    | none =>
      simp only [Bool.false_eq_true, if_false, DataStore.refreshItem_none hf, hcan, Bool.not_false,
        Bool.true_and, List.isEmpty_nil, Bool.and_true]
      exact hwrites (by simp [hf])
    | some e =>
      by_cases hs : e.delStatus = .notDeleted
      · have hdone : (d.refreshItem A.first key serValue []).1 = true :=
          (DataStore.refreshItem_live hf hs).1
        simp only [Bool.false_eq_true, if_false, hdone, Bool.not_true, Bool.false_and]
        exact .refreshed rfl hf hs
      · simp only [Bool.false_eq_true, if_false, DataStore.refreshItem_dead hf hs, hcan,
          Bool.not_false, Bool.true_and]
        by_cases hreq : e.serDeleteReq = []
        · simp only [hreq, List.isEmpty_nil, Bool.and_true]
          exact hwrites (by simp [hf, hs, hreq])
        · have hreq' : e.serDeleteReq.isEmpty = false := by simpa using hreq
          simp only [hreq', Bool.and_false, Bool.false_eq_true, if_false]
          exact .refused

theorem writeValue_false (h : (writeValue X A key serValue ttl publish d).1 = false) :
    (writeValue X A key serValue ttl publish d).2 = d := by
  generalize hw : writeValue X A key serValue ttl publish d = w at h
  cases hw ▸ writeValue_writes X A key serValue ttl publish d with
  | refused => rfl
  | stored _ _ _ haccepts =>
    rw [(DataStore.storeItem_accepts haccepts).1] at h
    cases h
  | refreshed => cases h

end

/-! ## A small service -/

/-- Any string but the empty one is an id; a string is its own hash and every signature is
valid. -/
def plainExternals : Externals where
  toKadID raw := if raw = [] then .error .assertion else .ok ⟨Rossi.ofUlong (.ofNat 64 raw.length)⟩
  parseToThrift := Contact.parseToThrift
  hash value := value
  asymCheckSig _ _ _ := true

/-- No contacts, and the clock at the same reading. -/
def plainAnswers (now : Nat) : Answers where
  getContact _ _ := none
  getClosestK _ _ := []
  first := DataStore.clock32 now
  second := DataStore.clock32 now

/-- A joined node without keys. -/
def joinedService (d : DataStore) : KadService where
  datastore := d
  nodeJoined := true
  nodeHasRSAkeys := false
  nodeInfo := {}

/-- A sender with an id. -/
def peer : ContactInfo := { nodeId := bytes ['7'] }

end KadService
end Kadpeer.L4
