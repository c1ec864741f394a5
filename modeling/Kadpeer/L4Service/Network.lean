import Kadpeer.Core.Sessions
import Kadpeer.L4Service.Rpc

/-!
# Nodes that call one another (`kademlia/kadrpc.cpp`)

Any number of nodes with empty stores, whose only clients are `KadRpcs`. It has no way to
call `Update`, and sets no flag of a request. Each call has a connection of its own and a
handler is one step; `open` and `close` of `transport_` are left out.

* `store_arrives`, `storeSigned_arrives`: what arrives of a `Store` is what `L4.KadRpcs` says of
  it; `run_store`: every node refuses it.
* `stores_stay_empty`: no order of calls, answers, losses and deaths gets a value into a
  store.
* `nothing_found`: with the code's own `ParseToThrift` no call for a value or a node returns
  a value or a contact.
-/
namespace Kadpeer.L4.Thrift

open Kadpeer.Core Kadpeer.Core.Tagged Kadpeer.Core.Remote Kadpeer.L1 Kadpeer.L2

/-! ## The client -/

/-! The request that `KadRpcs` makes of the arguments of a call; `info` is what `set_info` was
given. The address of the peer is not used. -/

namespace KadRpcs

variable (info : ContactInfo.Flagged)

/-- mirrors src/src/kademlia/kadrpc.cpp:29-51 -/
def findNode (key : Bytes) (resp : Flagged FindResponse) : FindRequest where
  key := key
  senderInfo := info
  isBoostrap := decide (resp.val.requesterExtAddr ≠ [])

/-- mirrors src/src/kademlia/kadrpc.cpp:53-69 -/
def findValue (key : Bytes) : FindRequest where
  key := key
  senderInfo := info

/-- mirrors src/src/kademlia/kadrpc.cpp:71-89 -/
def ping : PingRequest where
  ping := bytes ['p', 'i', 'n', 'g']
  senderInfo := info

/-- mirrors src/src/kademlia/kadrpc.cpp:92-112 -/
def store (key value : Bytes) (ttl : U32) (publish : Bool) : StoreRequest where
  key := key
  value := value
  ttl := ttl
  publish := publish
  senderInfo := info

/-- mirrors src/src/kademlia/kadrpc.cpp:115-135 -/
def storeSigned (key : Bytes) (value : SignedValue) (ttl : U32) (publish : Bool) : StoreRequest where
  key := key
  value := value.value
  ttl := ttl
  publish := publish
  senderInfo := info

/-- mirrors src/src/kademlia/kadrpc.cpp:138-156 -/
def downlist (downlist : List ContactInfo.Flagged) : DownlistRequest where
  downlist := downlist
  senderInfo := info

/-- mirrors src/src/kademlia/kadrpc.cpp:160-178 -/
def bootstrap (localId localIp : Bytes) (localPort : UShort) : BootstrapRequest where
  newcomerId := localId
  newcomerLocalIp := localIp
  newcomerLocalPort := localPort.setWidth 32

/-- mirrors src/src/kademlia/kadrpc.cpp:181-200 -/
def delete (key : Bytes) (value : SignedValue) (sigReq : SignedRequest) : DeleteRequest where
  key := key
  value := value
  senderInfo := info
  signedRequest := sigReq

/-- The calls that there are. No flag of a request is set. -/
inductive Call : (p : Proc) → Flagged p.Resp → Flagged p.Req → Prop
  | findNode (key : Bytes) (resp : Flagged FindResponse) :
      Call .findNode resp (fresh (findNode info key resp))
  | findValue (key : Bytes) (resp : Flagged FindResponse) :
      Call .findValue resp (fresh (findValue info key))
  | ping (resp : Flagged PingResponse) : Call .ping resp (fresh (ping info))
  | store (key value : Bytes) (ttl : U32) (publish : Bool) (resp : Flagged StoreResponse) :
      Call .store resp (fresh (store info key value ttl publish))
  | storeSigned (key : Bytes) (value : SignedValue) (ttl : U32) (publish : Bool)
      (resp : Flagged StoreResponse) :
      Call .store resp (fresh (storeSigned info key value ttl publish))
  | downlist (list : List ContactInfo.Flagged) (resp : Flagged DownlistResponse) :
      Call .downlist resp (fresh (downlist info list))
  | bootstrap (localId localIp : Bytes) (localPort : UShort) (resp : Flagged BootstrapResponse) :
      Call .bootstrap resp (fresh (bootstrap localId localIp localPort))
  | delete (key : Bytes) (value : SignedValue) (sigReq : SignedRequest)
      (resp : Flagged DeleteResponse) :
      Call .delete resp (fresh (delete info key value sigReq))

/-- What arrives of a `Store` is what `L4.KadRpcs` says of it: the two descriptions of the
request and of the wire agree. -/
theorem store_arrives (key value : Bytes) (ttl : U32) (publish : Bool) :
    StoreRequest.plain (storeRequest.arrives (fresh {}) (fresh (store info key value ttl publish))) =
      L4.StoreRequest.read (fun _ => (sent info).toContactInfo)
        (L4.KadRpcs.storeValue info.toContactInfo key value ttl publish).write :=
  storeRequest_arrives (fresh (store info key value ttl publish))

theorem storeSigned_arrives (key : Bytes) (value : SignedValue) (ttl : U32) (publish : Bool) :
    StoreRequest.plain
        (storeRequest.arrives (fresh {}) (fresh (storeSigned info key value ttl publish))) =
      L4.StoreRequest.read (fun _ => (sent info).toContactInfo)
        (L4.KadRpcs.storeSigned info.toContactInfo key value ttl publish).write :=
  storeRequest_arrives (fresh (storeSigned info key value ttl publish))

/-- The node refuses either, joined or not. -/
theorem run_store (X : Conversions) (A : Answers) (s : KadService) {response : Flagged StoreResponse}
    {request : Flagged StoreRequest} (h : Call info .store response request) :
    run X A s .store (storeRequest.arrives (fresh {}) request) =
      .ok ⟨{ result := kRpcResultFailure }, s.datastore, []⟩ := by
  cases h with
  | store key value ttl publish =>
    rw [run, store_arrives]
    exact L4.KadRpcs.store_unset X.toExternals s A rfl rfl
  | storeSigned key value ttl publish =>
    rw [run, storeSigned_arrives]
    exact L4.KadRpcs.store_unset X.toExternals s A rfl rfl

end KadRpcs

/-! ## The network -/

/-- What a node does by itself: it purges its store, which may take it down, joins or
leaves, and learns its own address. -/
inductive Own (server : Server) : Option Server → Prop
  | purge {now : U32} {d : DataStore} (h : server.service.datastore.deleteExpiredValues now = .ok d) :
      Own server (some { server with service := { server.service with datastore := d } })
  | purgeFault {now : U32} {f : Fault}
      (h : server.service.datastore.deleteExpiredValues now = .error f) : Own server none
  | setNodeJoined (joined : Bool) :
      Own server (some { server with service := { server.service with nodeJoined := joined } })
  | setNodeInfo (info : ContactInfo) :
      Own server (some { server with service := { server.service with nodeInfo := info } })

/-- Nodes start with an empty store. -/
def setting (X : Conversions) (text : Bytes) : Setting (service X text) where
  start server := ∃ tRefresh, server.service.datastore = .new tRefresh
  own := Own
  opens p response request := ∃ info, KadRpcs.Call info p response request

/-- The nodes and the messages between them. -/
def network (X : Conversions) (text : Bytes) :
    LTS (Net (wire (service X text))) (Label Answers) := net (wire (service X text)) (setting X text)

/-! ## Stores stay empty -/

section

variable {X : Conversions} {text : Bytes} {A : Answers} {p : Proc} {server : Server}

def Empty (s : KadService) : Prop := s.datastore.datastore = Keyed.empty

theorem loadItem_empty {d : DataStore} (h : d.datastore = Keyed.empty) (now : U32) (key : Bytes) :
    d.loadItem now key = (false, []) := by
  simp [DataStore.loadItem, DataStore.equalRange, h, Keyed.empty]

/-- What the nodes take from a request of a client: it is no `Update`, and a `Store` has no
payload. -/
def Harmless : (p : Proc) → Flagged p.Req → Prop
  | .store, request => request.isset 2 = false ∧ request.isset 3 = false
  | .update, _ => False
  | _, _ => True

theorem harmless_call {info : ContactInfo.Flagged} {response : Flagged p.Resp}
    {request : Flagged p.Req} (h : KadRpcs.Call info p response request) : Harmless p request := by
  cases h with
  | store => exact ⟨rfl, rfl⟩
  | storeSigned => exact ⟨rfl, rfl⟩
  | _ => trivial

/-- No payload arrives where none was marked. -/
theorem hasPayload_arrived {request : Flagged StoreRequest} (h : Harmless .store request)
    (s : KadService) :
    KadService.hasPayload s (StoreRequest.plain (storeRequest.arrives (fresh {}) request)) = false := by
  have hvalue : (storeRequest.arrives (fresh {}) request).isset 2 = false := by
    simp [Layout.arrives_isset, storeRequest, written, member, h.1]
  have hsig : (storeRequest.arrives (fresh {}) request).isset 3 = false := by
    simp [Layout.arrives_isset, storeRequest, written, member, h.2]
  unfold KadService.hasPayload
  split
  · simp only [StoreRequest.plain, hsig, Bool.and_false]
  · exact hvalue

/-- The same of a request that has arrived. -/
def Payless (s : KadService) : KadService.Request → Prop
  | .store r => KadService.hasPayload s r = false
  | .update _ => False
  | _ => True

theorem payless_arrived {request : Flagged p.Req} (h : Harmless p request) (s : KadService) :
    Payless s (arrived p request) := by
  cases p with
  | store => exact hasPayload_arrived h s
  | update => exact h.elim
  | _ => trivial

theorem effect_empty {s : KadService} {request : KadService.Request} {result : Bytes}
    {d : DataStore} (h : KadService.Effect X.toExternals A s request result d) (hempty : Empty s)
    (hpayless : Payless s request) : d.datastore = Keyed.empty := by
  cases h with
  | read _ => exact hempty
  | refused => exact hempty
  | stored _ hload _ =>
    rw [show KadService.hasPayload s _ = false from hpayless] at hload
    cases hload
  | deleted _ hload =>
    rw [loadItem_empty hempty] at hload
    cases hload
  | updated _ _ => exact hpayless.elim

/-- A request of a client leaves an empty store empty. -/
theorem run_empty {request : Flagged p.Req} {out : Outcome p.Resp} (hempty : Empty server.service)
    (hharmless : Harmless p request)
    (h : run X A server.service p (p.method.request.arrives p.method.newRequest request) = .ok out) :
    Empty (after server out).service :=
  effect_empty (run_effect h) hempty (payless_arrived hharmless server.service)

theorem own_empty {server : Server} {s' : Option Server} (h : Own server s')
    (hempty : Empty server.service) : ∀ server' ∈ s', Empty server'.service := by
  intro server' hserver'
  cases h with
  | @purge now d hd =>
    cases hserver'
    refine Keyed.ext_mem fun e => ?_
    rw [DataStore.mem_deleteExpiredValues hd, show server.service.datastore.datastore = _ from hempty]
    simp
  | purgeFault _ => cases hserver'
  | setNodeJoined joined =>
    cases hserver'
    exact hempty
  | setNodeInfo info =>
    cases hserver'
    exact hempty

end

/-! ## Runs of the network -/

/-- One node, which has joined, and no calls. -/
def oneNode (X : Conversions) : Net (wire (service X [])) where
  servers i := if i = 0 then some joinedServer else none
  sessions _ := none

theorem oneNode_init (X : Conversions) : (network X []).init (oneNode X) := by
  refine ⟨fun i server hi => ?_, fun _ => rfl⟩
  simp only [oneNode] at hi
  split at hi
  · cases hi
    exact ⟨0, rfl⟩
  · cases hi

section

variable {X : Conversions} {text : Bytes}

/-- `Q` holds of every response object that an empty node has filled in. -/
def FilledIn (X : Conversions) (Q : (p : Proc) → p.Resp → Prop) : Prop :=
  ∀ (A : Answers) (s : KadService) (p : Proc) (request : Flagged p.Req) (out : Outcome p.Resp)
    (own : p.Resp), Empty s → run X A s p request = .ok out → Q p (merge p own out.response)

/-- What holds of a call without messages, if `Q` is so. -/
def GoodSession (Q : (p : Proc) → p.Resp → Prop) (session : Session (direct (service X text))) :
    Prop :=
  match session.phase with
  | .waiting query => Harmless session.proc query
  | .served (.ok response) => Q session.proc response.val
  | .returned => Q session.proc session.response.val
  | _ => True

structure Good (Q : (p : Proc) → p.Resp → Prop) (n : Net (direct (service X text))) : Prop where
  empty : ∀ i server, n.servers i = some server → Empty server.service
  sessions : ∀ c session, n.sessions c = some session → GoodSession Q session

variable {Q : (p : Proc) → p.Resp → Prop} {n : Net (direct (service X text))}

theorem Good.withSession (h : Good Q n) (c : Nat) {session : Session (direct (service X text))}
    (hs : GoodSession Q session) : Good Q (n.withSession c session) where
  empty := h.empty
  sessions := Net.forall_withSession h.sessions c hs

theorem Good.withServer (h : Good Q n) (i : Nat) {s : Option Server}
    (hs : ∀ server ∈ s, Empty server.service) : Good Q (n.withServer i s) where
  empty := by
    intro i' server hi'
    simp only [Net.withServer, Function.update_apply] at hi'
    split at hi'
    · exact hs server hi'
    · exact h.empty i' server hi'
  sessions := h.sessions

/-- A node is visited. -/
theorem Good.settle (hQ : FilledIn X Q) (h : Good Q n) (c : Nat) (A : Answers)
    (session : Session (direct (service X text))) {query : Flagged session.proc.Req} {server : Server}
    (hempty : Empty server.service) (hharmless : Harmless session.proc query) :
    Good Q (n.settle c session
      ((service X text).direct A session.proc server session.response query)) := by
  rw [direct_eq X text A session.proc server session.response query]
  cases hrun : run X A server.service session.proc _ with
  | ok out =>
    refine (h.withServer _ fun server' hserver' => ?_).withSession c ?_
    · cases hserver'
      exact run_empty hempty hharmless hrun
    · exact hQ A server.service session.proc _ out session.response.val hempty hrun
  | error f =>
    simp only
    split
    · refine (h.withServer _ fun server' hserver' => ?_).withSession c trivial
      cases hserver'
      exact hempty
    · exact (h.withServer _ fun server' hserver' => by cases hserver').withSession c trivial

theorem good_inductive (hQ : FilledIn X Q) :
    (net (direct (service X text)) (setting X text)).Inductive (Good Q) where
  init n hn := by
    refine ⟨fun i server hi => ?_, fun c session hc => ?_⟩
    · obtain ⟨tRefresh, hnew⟩ := hn.1 i server hi
      rw [Empty, hnew]
      rfl
    · rw [hn.2 c] at hc
      cases hc
  step n l n' h hst := by
    cases hst with
    | @connect c p server response request hfree hopens =>
      obtain ⟨info, hcall⟩ := hopens
      exact h.withSession c (harmless_call hcall)
    | @serve c A session query server hsession hphase hserver =>
      have hgood := h.sessions c session hsession
      rw [GoodSession, hphase] at hgood
      exact h.settle hQ c A session (h.empty _ _ hserver) hgood
    | @recv c session reply hsession hphase =>
      refine h.withSession c ?_
      have hgood := h.sessions c session hsession
      rw [GoodSession, hphase] at hgood
      cases reply with
      | ok response => exact hgood
      | error x => trivial
    | @lose c session hsession hopen => exact h.withSession c trivial
    | @own i server s' hserver hown => exact h.withServer i (own_empty hown (h.empty i server hserver))

/-- The same of the network with messages. -/
theorem good_unwire (hQ : FilledIn X Q) {n : Net (wire (service X text))}
    (hr : (network X text).Reachable n) : Good Q n.unwire :=
  (good_inductive hQ).reachable
    ((wire_refines_direct (setting X text)).reachable (sound_inductive _) hr)

/-- **No value gets into a store**, whatever the order of calls, answers, losses and deaths. -/
theorem stores_stay_empty {n : Net (wire (service X text))} (hr : (network X text).Reachable n)
    {i : Nat} {server : Server} (hi : n.servers i = some server) : Empty server.service := by
  have hgood := good_unwire (Q := fun _ _ => True) (fun _ _ _ _ _ _ _ _ => trivial) hr
  exact hgood.empty i server hi

end

/-! ## Every call meets its node once -/

section

variable {X : Conversions} {text : Bytes} {A : Answers} {n₀ n : Net (wire (service X text))} {c : Nat}
  {tr : List (Label Answers × Net (wire (service X text)))}

/-- **A call that has returned** has met its node exactly once. What it brings is what the
handler made of the request then, and the node took the handler's store at that moment. -/
theorem met_once (hinit : (network X text).init n₀) (hr : (network X text).Run n₀ tr n)
    {session : Session (wire (service X text))} (hc : n.sessions c = some session)
    (hreturned : session.phase = .returned) :
    ∃ visit server response out, visits c n₀ tr = [visit] ∧
      visit.before session.server = some server ∧
      visit.after session.server = some (after server out) ∧
      run X visit.oracle server.service session.proc
        ((Proc.method session.proc).request.arrives (Proc.method session.proc).newRequest
          session.request) = .ok out ∧
      session.response = received session.proc response out.response := by
  obtain ⟨visit, server, server', response, hvisits, hbefore, hafter, hdirect⟩ :=
    returned_once hinit hr hc hreturned
  have heq := direct_eq X text visit.oracle session.proc server response session.request
  rw [hdirect] at heq
  cases hrun : run X visit.oracle server.service session.proc
      ((Proc.method session.proc).request.arrives (Proc.method session.proc).newRequest
        session.request) with
  | ok out =>
    simp only [hrun, Ended.answered.injEq] at heq
    obtain ⟨hresponse, hserver'⟩ := heq
    exact ⟨visit, server, response, out, hvisits, hbefore, hserver' ▸ hafter, hrun,
      Except.ok.inj hresponse⟩
  | error f =>
    simp only [hrun] at heq
    split at heq <;> cases heq

/-- A call to a node that handles it returns, if nothing is lost. -/
theorem exists_returned {i : Nat} {server : Server} {p : Proc} {out : Outcome p.Resp}
    (response : Flagged p.Resp) (request : Flagged p.Req) (hinit : (network X text).init n₀)
    (hserver : n₀.servers i = some server) (hopens : ∃ info, KadRpcs.Call info p response request)
    (hrun : run X A server.service p (p.method.request.arrives p.method.newRequest request) = .ok out) :
    ∃ tr n session, (network X text).Run n₀ tr n ∧ n.sessions 0 = some session ∧
      session.phase = .returned ∧ session.proc = p ∧ n.servers i = some (after server out) := by
  let asked : Session (wire (service X text)) :=
    ⟨p, i, request, response, .waiting (p.method.send request)⟩
  have hconnect : (network X text).step n₀ (.connect 0) (n₀.withSession 0 asked) :=
    .connect (hinit.2 0) hopens
  obtain ⟨reply, hprocess, hrecv⟩ := exists_answered text response request server hrun
  have hserve : (network X text).step (n₀.withSession 0 asked) (.serve 0 A)
      ((n₀.withSession 0 asked).settle 0 asked
        ((service X text).process A server (p.method.send request))) :=
    .serve (Net.withSession_self n₀ 0 asked) rfl hserver
  rw [hprocess] at hserve
  have hrecvStep := Step.recv (G := setting X text)
    (Net.settle_answered (n₀.withSession 0 asked) 0 asked reply (after server out)) rfl
  have hreturned := Session.recv_ok (asked.withPhase (.served reply)) hrecv
  exact ⟨_, _, _, .cons hconnect (.cons hserve (.cons hrecvStep (.nil _))),
    Net.withSession_self _ 0 _, hreturned ▸ rfl, hreturned ▸ rfl, Function.update_self i _ _⟩

end

/-- After `Store` was called at the node and has returned. -/
theorem stores_stay_empty_one : ∃ n session server,
    (network plainConversions []).Reachable n ∧ n.sessions 0 = some session ∧
      session.phase = .returned ∧ session.proc = .store ∧ n.servers 0 = some server ∧
      Empty server.service := by
  let info : ContactInfo.Flagged := { toContactInfo := KadService.peer }
  have hcall : KadRpcs.Call info .store (fresh {})
      (fresh (KadRpcs.store info (bytes ['k']) (bytes ['v']) 10 true)) := .store _ _ _ _ _
  have hrefused := KadRpcs.run_store info plainConversions (KadService.plainAnswers 1000)
    joinedServer.service hcall
  obtain ⟨tr, n, session, hrun, hc, hreturned, hp, hi⟩ :=
    exists_returned (p := .store) (i := 0) (fresh {}) _ (oneNode_init plainConversions) rfl
      ⟨info, hcall⟩ hrefused
  have hreach : (network plainConversions []).Reachable n := ⟨_, tr, oneNode_init _, hrun⟩
  exact ⟨n, session, _, hreach, hc, hreturned, hp, hi, stores_stay_empty hreach hi⟩

/-- A ping. -/
theorem met_once_ping : ∃ tr n session, (network plainConversions []).Run (oneNode plainConversions) tr n ∧
    n.sessions 0 = some session ∧ session.phase = .returned ∧
      (visits 0 (oneNode plainConversions) tr).length = 1 := by
  obtain ⟨tr, n, session, hrun, hc, hreturned, -⟩ :=
    exists_returned (A := KadService.plainAnswers 1000) (p := .ping) (i := 0) (fresh {})
      (fresh (KadRpcs.ping newContactInfo)) (oneNode_init plainConversions) rfl ⟨_, .ping _⟩ rfl
  obtain ⟨visit, server, response, out, hvisits, -⟩ :=
    met_once (oneNode_init plainConversions) hrun hc hreturned
  exact ⟨tr, n, session, hrun, hc, hreturned, congrArg List.length hvisits⟩

/-! ## Nothing is found -/

section

variable {X : Conversions} {A : Answers} {s : KadService} {text : Bytes}

/-- The externals with the code's `ParseToThrift`. -/
def codeThrift (X : Conversions) : Conversions := { X with parseToThrift := Contact.parseToThrift }

/-- No contact and no value. -/
def Barren : (p : Proc) → p.Resp → Prop
  | .findValue, r => r.closestNodes = [] ∧ r.values = [] ∧ r.signedValues = []
  | .findNode, r => r.closestNodes = [] ∧ r.values = [] ∧ r.signedValues = []
  | _, _ => True

/-- Where no contact can be written, none is pushed. -/
theorem pushNodes_code {key : KadID} {sender : Contact} {ret ret' : L4.FindResponse}
    (h : KadService.pushNodes (codeThrift X).toExternals A key sender ret = .ok ret') : ret' = ret := by
  unfold KadService.pushNodes at h
  obtain ⟨⟨pushed, found⟩, hfold, h⟩ := bind_eq_ok.mp h
  have hpushed : pushed = ret := by
    cases hclosest : A.getClosestK key [sender] with
    | nil =>
      rw [hclosest] at hfold
      cases hfold
      rfl
    | cons c rest =>
      rw [hclosest, List.foldlM_cons] at hfold
      obtain ⟨acc, hacc, -⟩ := bind_eq_ok.mp hfold
      obtain ⟨info, hinfo, -⟩ := bind_eq_ok.mp hacc
      rw [show (codeThrift X).parseToThrift c = _ from Contact.parseToThrift_eq c] at hinfo
      cases hinfo
  simp only at h
  split at h
  · cases h
    exact hpushed
  · split at h
    · cases h
      exact hpushed
    · rename_i keyNode _
      obtain ⟨info, hinfo, -⟩ := bind_eq_ok.mp h
      rw [show (codeThrift X).parseToThrift keyNode = _ from Contact.parseToThrift_eq keyNode] at hinfo
      cases hinfo

theorem findNode_code {r : L4.FindRequest} {out : Outcome L4.FindResponse}
    (h : KadService.findNode (codeThrift X).toExternals A s {} r = .ok out) :
    out.response.closestNodes = [] ∧ out.response.values = [] := by
  rcases KadService.findNode_ok h with rfl | ⟨sender, key, ret', -, -, hpush, rfl⟩
  · exact ⟨rfl, rfl⟩
  · rw [pushNodes_code hpush]
    exact ⟨rfl, rfl⟩

theorem findValue_code (hempty : Empty s) {r : L4.FindRequest} {out : Outcome L4.FindResponse}
    (h : KadService.findValue (codeThrift X).toExternals A s {} r = .ok out) :
    out.response.closestNodes = [] ∧ out.response.values = [] := by
  unfold KadService.findValue at h
  split at h
  · cases h
    exact ⟨rfl, rfl⟩
  · obtain ⟨⟨parsed, sender⟩, -, h⟩ := bind_eq_ok.mp h
    simp only [loadItem_empty hempty, Bool.false_eq_true, if_false] at h
    split at h
    · obtain ⟨out', hout, h⟩ := bind_eq_ok.mp h
      have hnode := findNode_code hout
      cases h
      exact hnode
    · cases h
      exact ⟨rfl, rfl⟩

/-- A find response that names nothing is barren on its way to the client. -/
theorem barren_ofPlain {ret : L4.FindResponse} (own : FindResponse)
    (h : ret.closestNodes = [] ∧ ret.values = []) :
    Barren .findNode (merge .findNode own (.ofPlain ret)) := by
  refine ⟨?_, h.2, rfl⟩
  change (ret.closestNodes.map _).map sent = []
  rw [h.1]
  rfl

theorem barren_filledIn : FilledIn (codeThrift X) Barren := by
  intro A s p request out own hempty h
  cases p with
  | findValue =>
    obtain ⟨found, hfound, rfl⟩ := map_eq_ok.mp h
    exact barren_ofPlain own (findValue_code hempty hfound)
  | findNode =>
    obtain ⟨found, hfound, rfl⟩ := map_eq_ok.mp h
    exact barren_ofPlain own (findNode_code hfound)
  | _ => trivial

/-- **Nothing is found**: a call for a value or a node that has returned has brought neither. -/
theorem nothing_found {n : Net (wire (service (codeThrift X) text))}
    (hr : (network (codeThrift X) text).Reachable n) {c : Nat}
    {session : Session (wire (service (codeThrift X) text))} (hc : n.sessions c = some session)
    (hreturned : session.phase = .returned) : Barren session.proc session.response.val := by
  have hsession := (good_unwire barren_filledIn hr).sessions c _ (unwire_session hc)
  rw [GoodSession, show session.unwire.phase = .returned by simp only [Session.unwire, hreturned]]
    at hsession
  exact hsession

end

/-- A `FindNode` for the key "k", from a peer with an id. -/
theorem nothing_found_key : ∃ n session, (network (codeThrift plainConversions) []).Reachable n ∧
    n.sessions 0 = some session ∧ session.phase = .returned ∧ session.proc = .findNode ∧
      Barren session.proc session.response.val := by
  obtain ⟨tr, n, session, hrun, hc, hreturned, hp, -⟩ :=
    exists_returned (A := KadService.plainAnswers 1000) (p := .findNode) (i := 0) (fresh {})
      (fresh (KadRpcs.findNode { toContactInfo := KadService.peer } (bytes ['k']) (fresh {})))
      (oneNode_init (codeThrift plainConversions)) rfl ⟨_, .findNode _ _⟩ rfl
  have hreach : (network (codeThrift plainConversions) []).Reachable n :=
    ⟨_, tr, oneNode_init _, hrun⟩
  exact ⟨n, session, hreach, hc, hreturned, hp, nothing_found hreach hc hreturned⟩

end Kadpeer.L4.Thrift
