import Kadpeer.L4Service.KadService

/-!
# A `Store` call on the wire (`kademlia/kadrpc.cpp`, `thrift/gen-cpp`)

`StoreRequest::write` writes an optional field if its flag is set, `read` sets the flag of
every field it finds. `KadRpcs::Store` assigns the members and sets no flag.

The fields of a signed value are always written. What `ContactInfo`'s own `write` and `read`
leave of the sender is an argument.

* `read_write`: what arrives of a request.
* `store_never_arrives`: neither overload gets its payload across, and no node accepts what
  is left.
-/
namespace Kadpeer.L4

open Kadpeer.Core Kadpeer.L1 Kadpeer.L2

namespace StoreRequest

/-- A field between its begin and end marks. -/
inductive Field
  | key (key : Bytes)
  | value (value : Bytes)
  | sigValue (sigValue : SignedValue)
  | ttl (ttl : I32)
  | senderInfo (senderInfo : ContactInfo)
  | publish (publish : Bool)
  | signedRequest (signedRequest : SignedRequest)

/-- mirrors src/src/thrift/gen-cpp/kademlia_service_messages_types.cpp:629-662 -/
def write (r : StoreRequest) : List Field :=
  [.key r.key] ++
  (if r.isset.value then [.value r.value] else []) ++
  (if r.isset.sigValue then [.sigValue r.sigValue] else []) ++
  [.ttl r.ttl, .senderInfo r.senderInfo, .publish r.publish] ++
  (if r.isset.signedRequest then [.signedRequest r.signedRequest] else [])

/-- mirrors src/src/thrift/gen-cpp/kademlia_service_messages_types.cpp:559-618 -/
def readField (sent : ContactInfo → ContactInfo) (r : StoreRequest) : Field → StoreRequest
  | .key key => { r with key := key, isset := { r.isset with key := true } }
  | .value value => { r with value := value, isset := { r.isset with value := true } }
  | .sigValue sigValue =>
    { r with sigValue := sigValue, isset := { r.isset with sigValue := true } }
  | .ttl ttl => { r with ttl := ttl, isset := { r.isset with ttl := true } }
  | .senderInfo senderInfo =>
    { r with senderInfo := sent senderInfo, isset := { r.isset with senderInfo := true } }
  | .publish publish => { r with publish := publish, isset := { r.isset with publish := true } }
  | .signedRequest signedRequest =>
    { r with signedRequest := signedRequest, isset := { r.isset with signedRequest := true } }

/-- mirrors src/src/thrift/gen-cpp/kademlia_service_messages_types.cpp:540-627 -/
def read (sent : ContactInfo → ContactInfo) (fields : List Field) : StoreRequest :=
  fields.foldl (readField sent) {}

/-- What arrives: an optional field without its flag is the constructor's. -/
theorem read_write (sent : ContactInfo → ContactInfo) (r : StoreRequest) :
    read sent r.write = {
      key := r.key
      value := if r.isset.value then r.value else []
      sigValue := if r.isset.sigValue then r.sigValue else {}
      ttl := r.ttl
      senderInfo := sent r.senderInfo
      publish := r.publish
      signedRequest := if r.isset.signedRequest then r.signedRequest else {}
      isset := {
        key := true
        value := r.isset.value
        sigValue := r.isset.sigValue
        ttl := true
        senderInfo := true
        publish := true
        signedRequest := r.isset.signedRequest } } := by
  unfold read write
  cases r.isset.value <;> cases r.isset.sigValue <;> cases r.isset.signedRequest <;>
    simp only [Bool.false_eq_true, if_true, if_false, List.append_nil, List.cons_append,
      List.nil_append, List.foldl_cons, List.foldl_nil, readField]

end StoreRequest

namespace KadRpcs

/-- The request of `Store` on a string.
mirrors src/src/kademlia/kadrpc.cpp:92-112 -/
def storeValue (info : ContactInfo) (key value : Bytes) (ttl : U32) (publish : Bool) : StoreRequest :=
  { key := key, value := value, ttl := ttl, publish := publish, senderInfo := info }

/-- The request of `Store` on a signed value: its signature is not assigned at all.
mirrors src/src/kademlia/kadrpc.cpp:115-135 -/
def storeSigned (info : ContactInfo) (key : Bytes) (value : SignedValue) (ttl : U32)
    (publish : Bool) : StoreRequest :=
  { key := key, value := value.value, ttl := ttl, publish := publish, senderInfo := info }

variable (sent : ContactInfo → ContactInfo) (X : Externals) (s : KadService) (info : ContactInfo)
  (key : Bytes) (ttl : U32) (publish : Bool)

/-- The value arrives, and the request passes `CheckStoreRequest`. -/
def ValueArrives (value : Bytes) : Prop :=
  let received := StoreRequest.read sent (storeValue info key value ttl publish).write
  received.isset.value = true ∧ received.value = value ∧
    ∃ sender, KadService.checkStoreRequest X s received = .ok (true, sender)

/-- The value and its signature arrive. -/
def SignedArrives (value : SignedValue) : Prop :=
  let received := StoreRequest.read sent (storeSigned info key value ttl publish).write
  received.isset.sigValue = true ∧ received.sigValue = value

/-- A request without flags is refused, whether the node has keys or not. -/
theorem checkStoreRequest_unset {r : StoreRequest} (hvalue : r.isset.value = false)
    (hsig : r.isset.sigValue = false) :
    KadService.checkStoreRequest X s r = .ok (false, .empty) := by
  have hload : KadService.hasPayload s r = false := by
    unfold KadService.hasPayload
    split
    · rw [hsig, Bool.and_false]
    · exact hvalue
  rw [KadService.checkStoreRequest, hload]
  rfl

theorem store_unset (A : Answers) {r : StoreRequest} (hvalue : r.isset.value = false)
    (hsig : r.isset.sigValue = false) :
    KadService.store X A s {} r = .ok ⟨{ result := kRpcResultFailure }, s.datastore, []⟩ := by
  unfold KadService.store
  split
  · rfl
  · rw [checkStoreRequest_unset X s hvalue hsig]
    rfl

/-- **Client and server agree on no `Store` call.** Neither payload is marked as present, and
every node refuses both requests. -/
theorem store_never_arrives :
    (∀ value, ¬ ValueArrives sent X s info key ttl publish value) ∧
    (∀ value, ¬ SignedArrives sent info key ttl publish value) ∧
    (∀ value, KadService.checkStoreRequest X s
      (StoreRequest.read sent (storeValue info key value ttl publish).write) = .ok (false, .empty)) ∧
    ∀ value, KadService.checkStoreRequest X s
      (StoreRequest.read sent (storeSigned info key value ttl publish).write) =
        .ok (false, .empty) := by
  refine ⟨fun value ⟨h, _⟩ => ?_, fun value ⟨h, _⟩ => ?_, fun value => ?_, fun value => ?_⟩
  · rw [StoreRequest.read_write] at h
    cases h
  · rw [StoreRequest.read_write] at h
    cases h
  · rw [StoreRequest.read_write]
    exact checkStoreRequest_unset X s rfl rfl
  · rw [StoreRequest.read_write]
    exact checkStoreRequest_unset X s rfl rfl

/-- The value "v" for the key "k". -/
theorem store_counterexample :
    ¬ ∀ (sent : ContactInfo → ContactInfo) (X : Externals) (s : KadService) (info : ContactInfo)
        (key value : Bytes) (ttl : U32) (publish : Bool), s.nodeHasRSAkeys = false →
      ValueArrives sent X s info key ttl publish value := by
  intro h
  have hvalue := (h (fun info => info) KadService.plainExternals (KadService.joinedService (.new 0))
    KadService.peer (bytes ['k']) (bytes ['v']) 10 true rfl).1
  cases hvalue

end KadRpcs
end Kadpeer.L4
