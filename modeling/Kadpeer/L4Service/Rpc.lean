import Kadpeer.Core.Remote
import Kadpeer.L4Service.Sender
import Kadpeer.L4Service.Thrift

/-!
# The service as the network sees it (`thrift/gen-cpp/KademliaService.cpp`)

`KademliaServiceClient` writes a call and reads its answer, `KademliaServiceProcessor` finds
the method by its name and runs the handler of `KadService` on it. A handler touches no flag
of its response: of the members that are optional none is sent, and the client keeps its own
(`merge`).

An exception of a handler becomes an exception at the client; the only one is thrown by
`ParseToThrift`, before anything is written. Any other end takes the node down.

* `remote_eq`: a call from another node is the handler on the request that arrives, and of
  the response the members that `merge` takes.
* `processed`: what any message does to the node.
-/
namespace Kadpeer.L4

open Kadpeer.Core Kadpeer.Core.Tagged Kadpeer.Core.Remote Kadpeer.L1 Kadpeer.L2

/-- A node, with the calls to its routing table so far. -/
structure Server where
  service : KadService
  calls : List Call

/-- The conversion of ids throws no exception: it returns or takes the node down. -/
structure Conversions extends Externals where
  toKadID_ne : ∀ raw, toKadID raw ≠ .error .logicError

namespace Thrift

/-- mirrors src/src/thrift/gen-cpp/KademliaService.h:924-931 -/
inductive Proc
  | ping
  | findValue
  | findNode
  | store
  | downlist
  | bootstrap
  | delete
  | update

namespace Proc

abbrev Req : Proc → Type
  | .ping => PingRequest
  | .findValue => FindRequest
  | .findNode => FindRequest
  | .store => StoreRequest
  | .downlist => DownlistRequest
  | .bootstrap => BootstrapRequest
  | .delete => DeleteRequest
  | .update => UpdateRequest

abbrev Resp : Proc → Type
  | .ping => PingResponse
  | .findValue => FindResponse
  | .findNode => FindResponse
  | .store => StoreResponse
  | .downlist => DownlistResponse
  | .bootstrap => BootstrapResponse
  | .delete => DeleteResponse
  | .update => UpdateResponse

def name : Proc → Bytes
  | .ping => bytes ['P', 'i', 'n', 'g']
  | .findValue => bytes ['F', 'i', 'n', 'd', 'V', 'a', 'l', 'u', 'e']
  | .findNode => bytes ['F', 'i', 'n', 'd', 'N', 'o', 'd', 'e']
  | .store => bytes ['S', 't', 'o', 'r', 'e']
  | .downlist => bytes ['D', 'o', 'w', 'n', 'l', 'i', 's', 't']
  | .bootstrap => bytes ['B', 'o', 'o', 't', 's', 't', 'r', 'a', 'p']
  | .delete => bytes ['D', 'e', 'l', 'e', 't', 'e']
  | .update => bytes ['U', 'p', 'd', 'a', 't', 'e']

/-- The text for an answer without a result.
mirrors src/src/thrift/gen-cpp/KademliaService.cpp:1331, the same in every `recv_X` -/
def unknownResult (p : Proc) : Bytes := p.name ++ bytes " failed: unknown result".toList

/-- `send_X`, `recv_X` and `process_X` of each method.
mirrors src/src/thrift/gen-cpp/KademliaService.cpp:1274-1752 and 1799-2022 -/
def method : (p : Proc) → Method p.Req p.Resp
  | .ping => ⟨name .ping, unknownResult .ping, pingRequest, pingResponse, fresh {}, fresh {}⟩
  | .findValue => ⟨name .findValue, unknownResult .findValue, findRequest, findResponse, fresh {}, fresh {}⟩
  | .findNode => ⟨name .findNode, unknownResult .findNode, findRequest, findResponse, fresh {}, fresh {}⟩
  | .store => ⟨name .store, unknownResult .store, storeRequest, storeResponse, fresh {}, fresh {}⟩
  | .downlist => ⟨name .downlist, unknownResult .downlist, downlistRequest, downlistResponse, fresh {}, fresh {}⟩
  | .bootstrap => ⟨name .bootstrap, unknownResult .bootstrap, bootstrapRequest, bootstrapResponse, fresh {}, fresh {}⟩
  | .delete => ⟨name .delete, unknownResult .delete, deleteRequest, deleteResponse, fresh {}, fresh {}⟩
  | .update => ⟨name .update, unknownResult .update, updateRequest, updateResponse, fresh {}, fresh {}⟩

def all : List Proc := [ping, findValue, findNode, store, downlist, bootstrap, delete, update]

theorem mem_all (p : Proc) : p ∈ all := by
  cases p <;> simp [all]

theorem nodup_names : (all.map fun p => p.method.name).Nodup := by decide

end Proc

/-! ## The handlers -/

variable (X : Conversions) (A : Answers) (s : KadService)

/-- What the handler of `KadService` makes of a request that has arrived, with a response of
its own. -/
def run : (p : Proc) → Flagged p.Req → Except Fault (Outcome p.Resp)
  | .ping, r => KadService.ping X.toExternals s {} r.val.plain
  | .findValue, r =>
    (KadService.findValue X.toExternals A s {} r.val.plain).map (·.map FindResponse.ofPlain)
  | .findNode, r =>
    (KadService.findNode X.toExternals A s {} r.val.plain).map (·.map FindResponse.ofPlain)
  | .store, r => KadService.store X.toExternals A s {} (StoreRequest.plain r)
  | .downlist, r => KadService.downlist X.toExternals A s {} r.val.plain
  | .bootstrap, r => .ok ((KadService.bootstrap s {} r.val.plain).map ({ toBootstrapResponse := · }))
  | .delete, r => KadService.delete X.toExternals A s {} r.val.plain
  | .update, r => KadService.update X.toExternals A s {} r.val.plain

/-- The request as `KadService.handle` takes it. -/
def plain : (p : Proc) → Flagged p.Req → KadService.Request
  | .ping, r => .ping r.val.plain
  | .findValue, r => .findValue r.val.plain
  | .findNode, r => .findNode r.val.plain
  | .store, r => .store (StoreRequest.plain r)
  | .downlist, r => .downlist r.val.plain
  | .bootstrap, r => .bootstrap r.val.plain
  | .delete, r => .delete r.val.plain
  | .update, r => .update r.val.plain

/-- The `result` of a response. -/
def result : (p : Proc) → p.Resp → Bytes
  | .ping, r => r.result
  | .findValue, r => r.result
  | .findNode, r => r.result
  | .store, r => r.result
  | .downlist, r => r.result
  | .bootstrap, r => r.result
  | .delete, r => r.result
  | .update, r => r.result

/-- The node after a request. -/
def after (server : Server) {R : Type} (out : Outcome R) : Server where
  service := { server.service with datastore := out.datastore }
  calls := server.calls ++ out.calls

/-- The response object is a new one; no handler sets a flag of it. -/
def handler (p : Proc) : Handler Server Fault p.Req p.Resp := fun server response request =>
  (run X A server.service p request).map fun out => (⟨out.response, response.isset⟩, after server out)

/-- The text for an unknown method, with the name between quotes.
mirrors src/src/thrift/gen-cpp/KademliaService.cpp:1787 -/
def invalidName (name : Bytes) : Bytes :=
  let quote := bytes [Char.ofNat 39]
  bytes "Invalid method name: ".toList ++ quote ++ name ++ quote

/-- The processor; `text` is what `std::logic_error` says. -/
def service (text : Bytes) : Service Server Fault Answers where
  Proc := Proc
  Req := Proc.Req
  Resp := Proc.Resp
  method := Proc.method
  handler := handler X
  what f := if f = .logicError then some text else none
  unknownName := invalidName
  procs := Proc.all
  complete := Proc.mem_all
  nodup := Proc.nodup_names

/-! ## What the client gets -/

/-- The response object after the call. No handler marks a member, so what is sent are the members
for which `write` asks no flag; the others are the client's own. -/
def merge : (p : Proc) → p.Resp → p.Resp → p.Resp
  | .ping, own, sent => { own with result := sent.result }
  | .findValue, own, response => { own with
      result := response.result
      closestNodes := response.closestNodes.map sent
      values := response.values
      signedValues := response.signedValues }
  | .findNode, own, response => { own with
      result := response.result
      closestNodes := response.closestNodes.map sent
      values := response.values
      signedValues := response.signedValues }
  | .store, own, response => { own with result := response.result }
  | .downlist, own, response => { own with result := response.result }
  | .bootstrap, own, response => { own with result := response.result }
  | .delete, own, response => { own with result := response.result }
  | .update, own, response => { own with result := response.result }

theorem findResponse_arrives (response : Flagged FindResponse) (out : FindResponse) :
    (findResponse.arrives response (fresh out)).val = merge .findNode response.val out := by
  simp [Layout.arrives, findResponse, written, member, transfer, merge]

theorem response_arrives (p : Proc) (response : Flagged p.Resp) (out : p.Resp) :
    (p.method.response.arrives response (fresh out)).val = merge p response.val out := by
  cases p with
  | findValue => exact findResponse_arrives response out
  | findNode => exact findResponse_arrives response out
  | _ => rfl

/-! ## A small node -/

theorem plainExternals_ne (raw : Bytes) :
    KadService.plainExternals.toKadID raw ≠ .error .logicError := by
  unfold KadService.plainExternals
  intro h
  simp only at h
  split at h <;> cases h

def plainConversions : Conversions :=
  { KadService.plainExternals with toKadID_ne := plainExternals_ne }

/-- A node with an empty store. -/
def joinedServer : Server where
  service := KadService.joinedService (.new 0)
  calls := []

section

variable {X : Conversions} {A : Answers} {s : KadService} {server server' : Server} {text : Bytes}
  {p : Proc}

/-- The members that are always sent, by their numbers. -/
def required (p : Proc) (id : Nat) : Bool :=
  p.method.response.slots.any fun slot => !slot.optional && slot.id == id

/-- The response object of a call that has returned. -/
def received (p : Proc) (response : Flagged p.Resp) (out : p.Resp) : Flagged p.Resp where
  val := merge p response.val out
  isset id := response.isset id || required p id

theorem response_received (response : Flagged p.Resp) (out : p.Resp) :
    p.method.response.arrives response (fresh out) = received p response out := by
  have hval := response_arrives p response out
  have hisset : (p.method.response.arrives response (fresh out)).isset =
      (received p response out).isset := by
    funext id
    rw [Layout.arrives_isset]
    simp only [received, required, written, Bool.or_false]
  calc p.method.response.arrives response (fresh out)
      = ⟨(p.method.response.arrives response (fresh out)).val,
          (p.method.response.arrives response (fresh out)).isset⟩ := rfl
    _ = received p response out := by
      rw [hval, hisset]
      rfl

theorem newResponse_eq (p : Proc) : p.method.newResponse = fresh p.method.newResponse.val := by
  cases p <;> rfl

/-- The handler on the request that arrives, with the response object of the client. -/
theorem direct_eq (X : Conversions) (text : Bytes) (A : Answers) (p : Proc) (server : Server)
    (response : Flagged p.Resp) (request : Flagged p.Req) :
    (service X text).direct A p server response request =
      match run X A server.service p (p.method.request.arrives p.method.newRequest request) with
      | .ok out => .answered (.ok (received p response out.response)) (after server out)
      | .error f =>
        if f = .logicError then .answered (.error { message := text }) server else .died f := by
  change returned (service X text).what p.method server response
    ((run X A server.service p (p.method.request.arrives p.method.newRequest request)).map fun out =>
      (⟨out.response, p.method.newResponse.isset⟩, after server out)) = _
  generalize run X A server.service p _ = ended
  cases ended with
  | ok out =>
    rw [newResponse_eq p]
    simp only [Except.map, returned]
    exact congrArg (fun r => Ended.answered (Except.ok r) (after server out))
      (response_received response out.response)
  | error f =>
    by_cases hf : f = .logicError
    · simp only [Except.map, returned, service, hf, if_true]
    · simp only [Except.map, returned, service, if_neg hf]

/-- **A remote call** is the handler on the request that arrives. Of its response the client
gets what `merge` takes, a thrown exception as its text, and nothing at all if the node dies. -/
theorem remote_eq (X : Conversions) (text : Bytes) (A : Answers) (p : Proc) (server : Server)
    (response : Flagged p.Resp) (request : Flagged p.Req) :
    ((service X text).process A server (p.method.send request)).andRead (p.method.recv response) =
      match run X A server.service p (p.method.request.arrives p.method.newRequest request) with
      | .ok out => .answered (.ok (received p response out.response)) (after server out)
      | .error f =>
        if f = .logicError then .answered (.error { message := text }) server else .died f :=
  ((service X text).call_direct A p server response request).trans
    (direct_eq X text A p server response request)

/-- The answer of a handler that returns. -/
theorem exists_answered {out : Outcome p.Resp} (text : Bytes) (response : Flagged p.Resp)
    (request : Flagged p.Req) (server : Server)
    (h : run X A server.service p (p.method.request.arrives p.method.newRequest request) = .ok out) :
    ∃ reply, (service X text).process A server (p.method.send request) =
        .answered reply (after server out) ∧
      p.method.recv response reply = some (.ok (received p response out.response)) := by
  have hdirect := direct_eq X text A p server response request
  rw [h] at hdirect
  rcases (service X text).process_send_cases A p server response request with
    ⟨f, -, hdied⟩ | ⟨reply, server', answer, hprocess, hrecv, hanswer⟩
  · cases hdied.symm.trans hdirect
  · cases hanswer.symm.trans hdirect
    exact ⟨reply, hprocess, hrecv⟩

/-! ## What a message does to the node -/

theorem handle_run (X : Conversions) (A : Answers) (s : KadService) (p : Proc)
    (request : Flagged p.Req) : KadService.handle X.toExternals A s (plain p request) =
      (run X A s p request).map fun out => out.map (result p) := by
  cases p with
  | ping =>
    simp only [plain, KadService.handle, run]
    cases KadService.ping X.toExternals s {} request.val.plain <;> rfl
  | findValue =>
    simp only [plain, KadService.handle, run]
    cases KadService.findValue X.toExternals A s {} request.val.plain <;> rfl
  | findNode =>
    simp only [plain, KadService.handle, run]
    cases KadService.findNode X.toExternals A s {} request.val.plain <;> rfl
  | store =>
    simp only [plain, KadService.handle, run]
    cases KadService.store X.toExternals A s {} (StoreRequest.plain request) <;> rfl
  | downlist =>
    simp only [plain, KadService.handle, run]
    cases KadService.downlist X.toExternals A s {} request.val.plain <;> rfl
  | bootstrap => rfl
  | delete =>
    simp only [plain, KadService.handle, run]
    cases KadService.delete X.toExternals A s {} request.val.plain <;> rfl
  | update =>
    simp only [plain, KadService.handle, run]
    cases KadService.update X.toExternals A s {} request.val.plain <;> rfl

theorem run_of_handle_error {request : Flagged p.Req} {f : Fault}
    (h : KadService.handle X.toExternals A s (plain p request) = .error f) :
    run X A s p request = .error f := by
  rw [handle_run] at h
  exact map_eq_error.mp h

theorem run_of_handle_ok {request : Flagged p.Req} {handled : Outcome Bytes}
    (h : KadService.handle X.toExternals A s (plain p request) = .ok handled) :
    ∃ out, run X A s p request = .ok out ∧ out.map (result p) = handled := by
  rw [handle_run] at h
  exact map_eq_ok.mp h

theorem run_effect {request : Flagged p.Req} {out : Outcome p.Resp}
    (h : run X A s p request = .ok out) :
    KadService.Effect X.toExternals A s (plain p request) (result p out.response) out.datastore := by
  have hhandle := handle_run X A s p request
  rw [h] at hhandle
  exact KadService.handle_effect hhandle

theorem method_name (p : Proc) : p.method.name = p.name := by
  cases p <;> rfl

/-- **Any message at all.** The answer has its name and number, and the node is as before unless
the message calls a method: then it is as the handler left it, run on the request that the
message holds. -/
theorem processed {m reply : Message}
    (h : (service X text).process A server m = .answered reply server') :
    reply.seqid = m.seqid ∧ reply.name = m.name ∧
      (server' = server ∨ (m.type = .call ∨ m.type = .oneway) ∧ ∃ p args out,
        Proc.name p = m.name ∧
        (Proc.method p).args.decode (fresh (Proc.method p).newRequest) m.body = some args ∧
        KadService.Effect X.toExternals A server.service (plain p args.val) (result p out.response)
          out.datastore ∧ server' = after server out) := by
  obtain ⟨hseqid, hname, hstate⟩ := (service X text).process_answered A h
  refine ⟨hseqid, hname, hstate.imp_right fun ⟨htype, p, args, response, hmethod, hargs, hrun⟩ => ?_⟩
  have hmap : (run X A server.service p args.val).map (fun out =>
      ((⟨out.response, (Proc.method p).newResponse.isset⟩ : Flagged (Proc.Resp p)),
        after server out)) = .ok (response, server') := hrun
  cases hout : run X A server.service p args.val with
  | error f =>
    rw [hout] at hmap
    cases hmap
  | ok out =>
    rw [hout] at hmap
    cases hmap
    exact ⟨htype, p, args, out, (method_name p).symm.trans hmethod, hargs, run_effect hout, rfl⟩

/-- The value "v" for the key "k", plain and signed, both marked as present. -/
def storeMarked : Flagged StoreRequest where
  val := {
    key := bytes ['k']
    value := bytes ['v']
    sigValue := { value := bytes ['v'], valueSignature := bytes ['s'] }
    ttl := 10
    publish := true
    senderInfo := { toContactInfo := KadService.peer } }
  isset id := id == 2 || id == 3

theorem run_storeMarked : ∃ out, run plainConversions (KadService.plainAnswers 1000)
      joinedServer.service .store
      (Proc.store.method.request.arrives Proc.store.method.newRequest storeMarked) = .ok out ∧
    out.datastore.datastore.toList.length = 1 := ⟨_, rfl, by decide⟩

/-- A `Store` that the node takes. -/
theorem processed_store : ∃ reply server' args out, (service plainConversions []).process
      (KadService.plainAnswers 1000) joinedServer (Proc.store.method.send storeMarked) =
        .answered reply server' ∧ reply.seqid = 0 ∧ reply.name = Proc.store.name ∧
      server'.service.datastore.datastore.toList.length = 1 ∧
      Proc.store.method.args.decode (fresh Proc.store.method.newRequest)
        (Proc.store.method.send storeMarked).body = some args ∧
      KadService.Effect plainConversions.toExternals (KadService.plainAnswers 1000)
        joinedServer.service (plain .store args.val) (result .store out.response) out.datastore ∧
      server' = after joinedServer out := by
  obtain ⟨out, hrun, hlength⟩ := run_storeMarked
  obtain ⟨reply, hreply, -⟩ := exists_answered (p := .store) [] (fresh {}) storeMarked joinedServer hrun
  obtain ⟨hseqid, hname, hstate⟩ := processed hreply
  rcases hstate with hsame | ⟨-, p, args, out', hp, hargs, heffect, hafter⟩
  · -- the store was empty before
    have hempty : (after joinedServer out).service.datastore.datastore.toList.length = 0 := by
      rw [hsame]
      rfl
    exact absurd hlength (hempty ▸ Nat.zero_ne_one)
  · cases p with
    | store => exact ⟨reply, _, args, out', hreply, hseqid, hname, hlength, hargs, heffect, hafter⟩
    | _ => exact absurd hp (by decide)

/-- The server has a member of that number. -/
def known (p : Proc) (field : Nat × Value) : Bool := p.method.request.slots.any (·.id == field.1)

theorem unknown_of_not_known {field : Nat × Value} (h : known p field = false) :
    p.method.request.Unknown field := by
  intro slot hslot
  have hid := List.any_eq_false.mp h slot (List.mem_of_find?_eq_some hslot)
  exact absurd (List.find?_some hslot) hid

/-- **A newer client** may send members that the server does not know, anywhere in the request:
it answers as if they were not there. -/
theorem process_extended (X : Conversions) (text : Bytes) (A : Answers) (server : Server) (p : Proc)
    (type : MessageType) (seqid : BitVec 32) (fields : Fields) :
    (service X text).process A server ⟨p.name, type, seqid, [(1, .struct fields)]⟩ =
      (service X text).process A server
        ⟨p.name, type, seqid, [(1, .struct (fields.filter (known p)))]⟩ := by
  have hfind : ((service X text).table A).find? (·.1 == p.name) =
      some (p.name, p.method.serve (service X text).what (handler X A p)) := by
    have hmethod := (service X text).find_method A p
    rwa [show ((service X text).method p).name = p.name from method_name p] at hmethod
  simp only [Service.process, Remote.process, hfind]
  split
  · rfl
  · exact (serve_extended (known p) fields (fun _ _ h => unknown_of_not_known h) server seqid).symm

end

/-! ## The code's own conversions -/

theorem ofString_ne (raw : Bytes) : KadID.ofString raw ≠ .error .logicError := by
  rw [KadID.ofString_fault]
  exact fun h => by cases h

/-- The externals with the code's `KadID(std::string)`. -/
def codeConversions (X : Externals) : Conversions :=
  { KadService.codeExternals X with toKadID_ne := ofString_ne }

/-- The request that the handler sees. -/
def arrived (p : Proc) (request : Flagged p.Req) : KadService.Request :=
  plain p (p.method.request.arrives p.method.newRequest request)

theorem bootstrap_of_senderInfo {p : Proc} {request : Flagged p.Req}
    (h : (plain p request).senderInfo = none) : p = .bootstrap := by
  cases p <;> first | rfl | cases h

section

variable {X : Externals} {A : Answers} {p : Proc} {server : Server} {request : Flagged p.Req}

theorem run_of_needsParse
    (h : KadService.NeedsParse (KadService.codeExternals X) A server.service (arrived p request)) :
    run (codeConversions X) A server.service p
      (p.method.request.arrives p.method.newRequest request) = .error .assertion := by
  obtain ⟨hj, hasks, info, hinfo, hne⟩ := h
  exact run_of_handle_error (KadService.handle_aborts hj hasks hinfo (KadService.getSender_code hne))

theorem run_of_not_needsParse
    (h : ¬ KadService.NeedsParse (KadService.codeExternals X) A server.service (arrived p request)) :
    ∃ out, run (codeConversions X) A server.service p
        (p.method.request.arrives p.method.newRequest request) = .ok out ∧ out.calls = [] ∧
      (result p out.response = kRpcResultFailure ∨ p = .bootstrap) := by
  obtain ⟨handled, hhandled, hcalls, hresult⟩ := KadService.handle_refused h
  obtain ⟨out, hrun, rfl⟩ := run_of_handle_ok (X := codeConversions X) hhandled
  exact ⟨out, hrun, hcalls, hresult.imp_right bootstrap_of_senderInfo⟩

/-- **A remote call of the code as it is** either takes the node down, exactly if the handler
asks for a sender that has an id, or returns; and of all methods only `Bootstrap` returns a
success. -/
theorem code_remote (X : Externals) (text : Bytes) (A : Answers) (p : Proc) (server : Server)
    (response : Flagged p.Resp) (request : Flagged p.Req) :
    let V := service (codeConversions X) text
    let answer := (V.process A server (p.method.send request)).andRead (p.method.recv response)
    (answer = .died .assertion ↔
      KadService.NeedsParse (KadService.codeExternals X) A server.service (arrived p request)) ∧
    (answer ≠ .died .assertion → ∃ out, answer =
        .answered (.ok (received p response out.response)) (after server out) ∧ out.calls = [] ∧
      (result p out.response = kRpcResultFailure ∨ p = .bootstrap)) := by
  intro V answer
  have hanswer := ((service (codeConversions X) text).call_direct A p server response request).trans
    (direct_eq (codeConversions X) text A p server response request)
  by_cases hparse :
      KadService.NeedsParse (KadService.codeExternals X) A server.service (arrived p request)
  · rw [run_of_needsParse hparse] at hanswer
    have hdied : answer = .died .assertion := hanswer
    exact ⟨⟨fun _ => hparse, fun _ => hdied⟩, fun hne => absurd hdied hne⟩
  · obtain ⟨out, hrun, hcalls, hresult⟩ := run_of_not_needsParse hparse
    rw [hrun] at hanswer
    have hok : answer = .answered (.ok (received p response out.response)) (after server out) :=
      hanswer
    refine ⟨⟨fun hdied => ?_, fun h => absurd h hparse⟩, fun _ => ⟨out, hok, hcalls, hresult⟩⟩
    rw [hok] at hdied
    cases hdied

end

end Thrift
end Kadpeer.L4
