import Kadpeer.Core.Tagged

/-!
# Remote calls with tagged records

The client writes a message with the method's name and the request, the server finds the
method in its table, lets the handler fill in a fresh response and answers, and the client
reads the answer into the response object that its caller passed. An exception of a handler
is answered as such; any other end of it takes the server down.

* `call_eq`: a remote call is the handler on the request that arrives, and what arrives of
  its response.
* `process_answered`: every answer repeats the sequence number, and a refused message leaves
  the server's state alone.
* `serve_extended`: the server skips members that it does not know.
-/
namespace Kadpeer.Core.Remote

open Tagged

inductive MessageType
  | call
  | reply
  | exception
  | oneway
deriving DecidableEq

structure Message where
  name : Bytes
  type : MessageType
  seqid : BitVec 32
  body : Fields

/-- `TApplicationException`. -/
structure AppException where
  message : Bytes := []
  type : BitVec 32 := 0

namespace AppException

def layout : Layout AppException where
  slots := [
    member 1 false .string (·.message) fun x message => { x with message := message },
    member 2 false .i32 (·.type) fun x type => { x with type := type }]
  nodup := by decide

/-! The types, as the protocol numbers them. -/

def unknown : BitVec 32 := 0
def unknownMethod : BitVec 32 := 1
def invalidMessageType : BitVec 32 := 2
def wrongMethodName : BitVec 32 := 3
def missingResult : BitVec 32 := 5

end AppException

/-- How a call ends: a message was misread, the server died, or there is an answer and the
server's state after it. -/
inductive Ended (S E A : Type)
  | misread
  | died (e : E)
  | answered (a : A) (s : S)

/-- The answer is read. -/
def Ended.andRead {S E A B : Type} (f : A → Option B) : Ended S E A → Ended S E B
  | .misread => .misread
  | .died e => .died e
  | .answered a s =>
    match f a with
    | none => .misread
    | some b => .answered b s

/-- A method, with the objects that its messages are read into, and what the client says of an
answer without a result. -/
structure Method (Req Resp : Type) where
  name : Bytes
  unknownResult : Bytes
  request : Layout Req
  response : Layout Resp
  newRequest : Flagged Req
  newResponse : Flagged Resp

variable {S E Req Resp : Type}

/-- What handles a request: it gets the response object and returns it. -/
abbrev Handler (S E Req Resp : Type) :=
  S → Flagged Resp → Flagged Req → Except E (Flagged Resp × S)

namespace Method

variable (method : Method Req Resp)

/-- The struct of the arguments. -/
def args : Layout (Flagged Req) where
  slots := [member 1 false (.record method.request) id fun _ request => request]
  nodup := List.pairwise_singleton _ _

/-- The struct of the result. -/
def result : Layout (Flagged Resp) where
  slots := [member 0 true (.record method.response) id fun _ response => response]
  nodup := List.pairwise_singleton _ _

/-- A result with its `success` set. -/
def success (response : Flagged Resp) : Flagged (Flagged Resp) := ⟨response, (· == 0)⟩

/-! ## The client -/

def send (request : Flagged Req) : Message where
  name := method.name
  type := .call
  seqid := 0
  body := method.args.encode (fresh request)

/-- The exception that is thrown, or the caller's response object. -/
def recv (response : Flagged Resp) (reply : Message) :
    Option (Except AppException (Flagged Resp)) :=
  match reply.type with
  | .exception => (AppException.layout.decode (fresh {}) reply.body).map fun x =>
      .error x.val
  | .reply =>
    if reply.name ≠ method.name then
      some (.error { type := AppException.wrongMethodName })
    else
      (method.result.decode (fresh response) reply.body).map fun r =>
        if r.isset 0 then .ok r.val
        else .error { message := method.unknownResult, type := AppException.missingResult }
  | _ => some (.error { type := AppException.invalidMessageType })

/-! ## The server -/

/-- The answer after the handler; `what e` is the text of an exception, if `e` is one. -/
def answer (what : E → Option Bytes) (s : S) (seqid : BitVec 32) :
    Except E (Flagged Resp × S) → Ended S E Message
  | .ok (response, s') =>
    .answered ⟨method.name, .reply, seqid, method.result.encode (success response)⟩ s'
  | .error e =>
    match what e with
    | none => .died e
    | some text =>
      .answered ⟨method.name, .exception, seqid,
        AppException.layout.encode (fresh { message := text })⟩ s

def serve (what : E → Option Bytes) (handler : Handler S E Req Resp) (s : S) (seqid : BitVec 32)
    (body : Fields) : Ended S E Message :=
  match method.args.decode (fresh method.newRequest) body with
  | none => .misread
  | some args => method.answer what s seqid (handler s method.newResponse args.val)

end Method

/-- The methods by their names. -/
abbrev Table (S E : Type) := List (Bytes × (S → BitVec 32 → Fields → Ended S E Message))

/-- The answer to a message that no method gets. -/
def refuse (m : Message) (x : AppException) : Message :=
  ⟨m.name, .exception, m.seqid, AppException.layout.encode (fresh x)⟩

def process (table : Table S E) (unknownName : Bytes → Bytes) (s : S) (m : Message) :
    Ended S E Message :=
  if m.type ≠ .call ∧ m.type ≠ .oneway then
    .answered (refuse m { type := AppException.invalidMessageType }) s
  else
    match table.find? (·.1 == m.name) with
    | none =>
      .answered (refuse m
        { message := unknownName m.name, type := AppException.unknownMethod }) s
    | some (_, serve) => serve s m.seqid m.body

/-- A call over a connection on which nothing is lost. -/
def call (table : Table S E) (unknownName : Bytes → Bytes) (method : Method Req Resp) (s : S)
    (response : Flagged Resp) (request : Flagged Req) :
    Ended S E (Except AppException (Flagged Resp)) :=
  (process table unknownName s (method.send request)).andRead (method.recv response)

/-- What the handler's end is for the client: its response as it arrives, or its exception. -/
def returned (what : E → Option Bytes) (method : Method Req Resp) (s : S)
    (response : Flagged Resp) :
    Except E (Flagged Resp × S) → Ended S E (Except AppException (Flagged Resp))
  | .ok (out, s') => .answered (.ok (method.response.arrives response out)) s'
  | .error e =>
    match what e with
    | none => .died e
    | some text => .answered (.error { message := text }) s

/-! ## A call and its answer -/

section

variable {table : Table S E} {unknownName : Bytes → Bytes} {what : E → Option Bytes}
  {handler : Handler S E Req Resp} {method : Method Req Resp}

/-- The request on the server's side. -/
theorem decode_send (method : Method Req Resp) (request : Flagged Req) :
    (method.args.decode (fresh method.newRequest) (method.send request).body).map (·.val) =
      some (method.request.arrives method.newRequest request) := by
  rw [Method.send, Layout.decode_encode]
  rfl

/-- The response on the client's side. -/
theorem recv_success (response out : Flagged Resp) (seqid : BitVec 32) :
    method.recv response ⟨method.name, .reply, seqid, method.result.encode (Method.success out)⟩ =
      some (.ok (method.response.arrives response out)) := by
  simp only [Method.recv, ne_eq, not_true_eq_false, if_false, Layout.decode_encode]
  rfl

/-- Any exception on the client's side. -/
theorem recv_exception (response : Flagged Resp) (name : Bytes) (seqid : BitVec 32)
    (x : AppException) :
    method.recv response
      ⟨name, .exception, seqid, AppException.layout.encode (fresh x)⟩ =
        some (.error x) := by
  simp only [Method.recv, Layout.decode_encode]
  rfl

/-- The handler's end, answered and read. -/
theorem answer_andRead (s : S) (response : Flagged Resp) (seqid : BitVec 32)
    (ended : Except E (Flagged Resp × S)) :
    (method.answer what s seqid ended).andRead (method.recv response) =
      returned what method s response ended := by
  cases ended with
  | ok out => simp only [Method.answer, Ended.andRead, recv_success, returned]
  | error e =>
    cases htext : what e with
    | none => simp only [Method.answer, htext, Ended.andRead, returned]
    | some text => simp only [Method.answer, htext, Ended.andRead, recv_exception, returned]

/-- **A remote call is the handler on what arrives.** -/
theorem call_eq (hfind : table.find? (·.1 == method.name) =
      some (method.name, method.serve what handler)) (s : S) (response : Flagged Resp)
    (request : Flagged Req) :
    call table unknownName method s response request =
      returned what method s response
        (handler s method.newResponse (method.request.arrives method.newRequest request)) := by
  have hprocess : process table unknownName s (method.send request) =
      method.serve what handler s 0 (method.send request).body := by
    unfold process
    rw [if_neg (by simp [Method.send])]
    change (match table.find? (·.1 == method.name) with | none => _ | some (_, serve) => _) = _
    rw [hfind]
    rfl
  obtain ⟨args, hargs, hval⟩ := Option.map_eq_some_iff.mp (decode_send method request)
  rw [call, hprocess, Method.serve, hargs, ← hval]
  exact answer_andRead s response 0 _

/-- What a method answers, and when it changes the state: its handler has run on the request
that the body holds. -/
theorem serve_answered {s s' : S} {seqid : BitVec 32} {body : Fields} {reply : Message}
    (h : method.serve what handler s seqid body = .answered reply s') :
    reply.seqid = seqid ∧ reply.name = method.name ∧
      (s' = s ∨ ∃ args out, method.args.decode (fresh method.newRequest) body = some args ∧
        handler s method.newResponse args.val = .ok (out, s')) := by
  unfold Method.serve at h
  split at h
  · cases h
  · rename_i args hargs
    unfold Method.answer at h
    split at h
    · rename_i response s'' hout
      cases h
      exact ⟨rfl, rfl, .inr ⟨args, response, hargs, hout⟩⟩
    · split at h
      · cases h
      · cases h
        exact ⟨rfl, rfl, .inl rfl⟩

/-- **Members that the server does not know change nothing.** -/
theorem serve_extended (keep : Nat × Value → Bool) (fields : Fields)
    (h : ∀ field ∈ fields, keep field = false → method.request.Unknown field) (s : S)
    (seqid : BitVec 32) :
    method.serve what handler s seqid [(1, .struct (fields.filter keep))] =
      method.serve what handler s seqid [(1, .struct fields)] := by
  have hread : ∀ args, method.args.decode args [(1, .struct (fields.filter keep))] =
      method.args.decode args [(1, .struct fields)] := by
    intro args
    rw [Layout.decode_cons, Layout.decode_cons]
    refine congrArg (Option.bind · _) (Layout.readField_congr (fun slot hslot request => ?_) args)
    cases List.mem_singleton.mp hslot
    refine congrArg (Reading.map fun request => request) ?_
    simp only [Codec.record, Layout.decode_filter keep fields h]
  rw [Method.serve, Method.serve, hread]

end

/-! ## All methods of a service -/

/-- The methods of a service, under different names. What a handler answers may depend on
an `A`. -/
structure Service (S E A : Type) where
  Proc : Type
  Req : Proc → Type
  Resp : Proc → Type
  method : (p : Proc) → Method (Req p) (Resp p)
  handler : A → (p : Proc) → Handler S E (Req p) (Resp p)
  what : E → Option Bytes
  unknownName : Bytes → Bytes
  procs : List Proc
  complete : ∀ p, p ∈ procs
  nodup : (procs.map fun p => (method p).name).Nodup

namespace Service

variable {A : Type} (V : Service S E A) (a : A)

def table : Table S E :=
  V.procs.map fun p => ((V.method p).name, (V.method p).serve V.what (V.handler a p))

def process (s : S) (m : Message) : Ended S E Message :=
  Remote.process (V.table a) V.unknownName s m

/-- The handler itself, on what arrives. -/
def direct (p : V.Proc) (s : S) (response : Flagged (V.Resp p)) (request : Flagged (V.Req p)) :
    Ended S E (Except AppException (Flagged (V.Resp p))) :=
  returned V.what (V.method p) s response (V.handler a p s (V.method p).newResponse
    ((V.method p).request.arrives (V.method p).newRequest request))

theorem find_method (p : V.Proc) : (V.table a).find? (·.1 == (V.method p).name) =
    some ((V.method p).name, (V.method p).serve V.what (V.handler a p)) := by
  refine find?_key (a := ((V.method p).name, _)) ?_ (List.mem_map.mpr ⟨p, V.complete p, rfl⟩)
  rw [table, List.map_map]
  exact V.nodup

/-- **Every method of the service, called from outside.** -/
theorem call_direct (p : V.Proc) (s : S) (response : Flagged (V.Resp p))
    (request : Flagged (V.Req p)) :
    (V.process a s ((V.method p).send request)).andRead ((V.method p).recv response) =
      V.direct a p s response request :=
  call_eq (V.find_method a p) s response request

theorem direct_ne_misread {p : V.Proc} {s : S} {response : Flagged (V.Resp p)}
    {request : Flagged (V.Req p)} : V.direct a p s response request ≠ .misread := by
  unfold Service.direct returned
  intro h
  split at h
  · cases h
  · split at h <;> cases h

/-- What a server makes of a request that was sent to it. -/
theorem process_send_cases (p : V.Proc) (s : S) (response : Flagged (V.Resp p))
    (request : Flagged (V.Req p)) :
    (∃ e, V.process a s ((V.method p).send request) = .died e ∧
      V.direct a p s response request = .died e) ∨
    ∃ reply s' answer, V.process a s ((V.method p).send request) = .answered reply s' ∧
      (V.method p).recv response reply = some answer ∧
      V.direct a p s response request = .answered answer s' := by
  have hcall := V.call_direct a p s response request
  cases hprocess : V.process a s ((V.method p).send request) with
  | misread =>
    rw [hprocess] at hcall
    exact absurd hcall.symm (V.direct_ne_misread a)
  | died e =>
    rw [hprocess] at hcall
    exact .inl ⟨e, rfl, hcall.symm⟩
  | answered reply s' =>
    rw [hprocess] at hcall
    cases hrecv : (V.method p).recv response reply with
    | none =>
      simp only [Ended.andRead, hrecv] at hcall
      exact absurd hcall.symm (V.direct_ne_misread a)
    | some answer =>
      simp only [Ended.andRead, hrecv] at hcall
      exact .inr ⟨reply, s', answer, rfl, hrecv, hcall.symm⟩

/-- What is answered to any message at all: a refusal, or a handler has run on the request
that it holds. -/
theorem process_answered {s s' : S} {m reply : Message}
    (h : V.process a s m = .answered reply s') :
    reply.seqid = m.seqid ∧ reply.name = m.name ∧
      (s' = s ∨ (m.type = .call ∨ m.type = .oneway) ∧ ∃ p args out,
        (V.method p).name = m.name ∧
          (V.method p).args.decode (fresh (V.method p).newRequest) m.body = some args ∧
          V.handler a p s (V.method p).newResponse args.val = .ok (out, s')) := by
  unfold process Remote.process at h
  split at h
  · cases h
    exact ⟨rfl, rfl, .inl rfl⟩
  · rename_i htype
    split at h
    · cases h
      exact ⟨rfl, rfl, .inl rfl⟩
    · rename_i name serve hfind
      obtain ⟨p, -, hp⟩ := List.mem_map.mp (List.mem_of_find?_eq_some hfind)
      have hname : (V.method p).name = m.name := by
        have heq := List.find?_some hfind
        rw [← hp] at heq
        exact eq_of_beq heq
      cases hp
      obtain ⟨hseqid, hreply, hstate⟩ := serve_answered h
      refine ⟨hseqid, hreply.trans hname, hstate.imp_right fun ⟨args, out, hargs, hout⟩ => ?_⟩
      refine ⟨?_, p, args, out, hname, hargs, hout⟩
      by_contra hneither
      exact htype (not_or.mp hneither)

end Service

end Kadpeer.Core.Remote
