import Kadpeer.Core.Tagged
import Kadpeer.L2Bucket.Wire
import Kadpeer.L4Service.KadRpcs

/-!
# The messages on the wire (`thrift/gen-cpp`)

Each class with its members, the fields that `write` emits and `read` takes. A message that
holds a contact, or a member that no handler looks at, has a structure of its own here;
`plain` is what the handler sees of a request.

* `storeRequest_arrives`: the members of a `StoreRequest` that arrive are those that
  `StoreRequest.read` finds.
-/
namespace Kadpeer.L4.Thrift

open Kadpeer.Core Kadpeer.Core.Tagged Kadpeer.L2

/-! ## Parts -/

def tagged : ContactInfo.Field → Nat × Value
  | .nodeId nodeId => (1, .string nodeId)
  | .ip ip => (2, .string ip)
  | .port port => (3, .i32 port)
  | .localIp localIp => (4, .string localIp)
  | .localPort localPort => (5, .i32 localPort)
  | .rendezvousIp rendezvousIp => (6, .string rendezvousIp)
  | .rendezvousPort rendezvousPort => (7, .i32 rendezvousPort)

def untagged : Nat × Value → Option ContactInfo.Field
  | (1, .string nodeId) => some (.nodeId nodeId)
  | (2, .string ip) => some (.ip ip)
  | (3, .i32 port) => some (.port port)
  | (4, .string localIp) => some (.localIp localIp)
  | (5, .i32 localPort) => some (.localPort localPort)
  | (6, .string rendezvousIp) => some (.rendezvousIp rendezvousIp)
  | (7, .i32 rendezvousPort) => some (.rendezvousPort rendezvousPort)
  | _ => none

theorem filterMap_untagged (fields : List ContactInfo.Field) :
    (fields.map tagged).filterMap untagged = fields := by
  rw [List.filterMap_map]
  refine (List.filterMap_congr fun field _ => ?_).trans List.filterMap_some
  cases field <;> rfl

/-- A contact as its constructor makes it. -/
def newContactInfo : ContactInfo.Flagged := {}

/-- mirrors src/src/thrift/gen-cpp/contact_info_types.cpp:13-136 -/
def contactInfo : Codec ContactInfo.Flagged where
  write i := .struct ((ContactInfo.write i).map tagged)
  read i v := match v with
    | .struct fields => .done ((fields.filterMap untagged).foldl ContactInfo.readField i)
    | _ => .skip
  arrives i j := (ContactInfo.write j).foldl ContactInfo.readField i
  read_write i j := by simp only [filterMap_untagged]

/-- mirrors src/src/thrift/gen-cpp/signed_kadvalue_types.cpp:13-73 -/
def signedValue : Layout SignedValue where
  slots := [
    member 1 false .string (·.value) fun r v => { r with value := v },
    member 2 false .string (·.valueSignature) fun r v => { r with valueSignature := v }]
  nodup := by decide

/-- mirrors src/src/thrift/gen-cpp/signed_kadvalue_types.cpp:78-160 -/
def signedRequest : Layout SignedRequest where
  slots := [
    member 1 false .string (·.signerId) fun r v => { r with signerId := v },
    member 2 false .string (·.publicKey) fun r v => { r with publicKey := v },
    member 3 false .string (·.signedPublicKey) fun r v => { r with signedPublicKey := v },
    member 4 false .string (·.signedRequest) fun r v => { r with signedRequest := v }]
  nodup := by decide

/-! ## `Ping` -/

/-- mirrors src/src/thrift/gen-cpp/kademlia_service_messages_types.h:26-38 -/
structure PingRequest where
  ping : Bytes := []
  senderInfo : ContactInfo.Flagged := newContactInfo

def PingRequest.plain (r : PingRequest) : L4.PingRequest where
  ping := r.ping
  senderInfo := r.senderInfo.toContactInfo

/-- mirrors src/src/thrift/gen-cpp/kademlia_service_messages_types.cpp:13-73 -/
def pingRequest : Layout PingRequest where
  slots := [
    member 1 false .string (·.ping) fun r v => { r with ping := v },
    member 2 false contactInfo (·.senderInfo) fun r v => { r with senderInfo := v }]
  nodup := by decide

/-- mirrors src/src/thrift/gen-cpp/kademlia_service_messages_types.cpp:78-153 -/
def pingResponse : Layout PingResponse where
  slots := [
    member 1 false .string (·.result) fun r v => { r with result := v },
    member 2 true .string (·.echo) fun r v => { r with echo := v },
    member 3 true .string (·.nodeId) fun r v => { r with nodeId := v }]
  nodup := by decide

/-! ## `FindValue` and `FindNode` -/

/-- mirrors src/src/thrift/gen-cpp/kademlia_service_messages_types.h:119-134 -/
structure FindRequest where
  key : Bytes := []
  senderInfo : ContactInfo.Flagged := newContactInfo
  isBoostrap : Bool := false
  senderExtIp : Bytes := []
  senderExtPort : I32 := 0

def FindRequest.plain (r : FindRequest) : L4.FindRequest where
  key := r.key
  senderInfo := r.senderInfo.toContactInfo

/-- mirrors src/src/thrift/gen-cpp/kademlia_service_messages_types.cpp:158-257 -/
def findRequest : Layout FindRequest where
  slots := [
    member 1 false .string (·.key) fun r v => { r with key := v },
    member 2 false contactInfo (·.senderInfo) fun r v => { r with senderInfo := v },
    member 3 true .bool (·.isBoostrap) fun r v => { r with isBoostrap := v },
    member 4 true .string (·.senderExtIp) fun r v => { r with senderExtIp := v },
    member 5 true .i32 (·.senderExtPort) fun r v => { r with senderExtPort := v }]
  nodup := by decide

/-- mirrors src/src/thrift/gen-cpp/kademlia_service_messages_types.h:181-199 -/
structure FindResponse where
  result : Bytes := []
  closestNodes : List ContactInfo.Flagged := []
  values : List Bytes := []
  signedValues : List SignedValue := []
  alternativeValueHolder : ContactInfo.Flagged := newContactInfo
  needsCacheCopy : Bytes := []
  requesterExtAddr : Bytes := []
  nodeId : Bytes := []

/-- The response of a handler: no contact in it has a flag. -/
def FindResponse.ofPlain (r : L4.FindResponse) : FindResponse where
  result := r.result
  closestNodes := r.closestNodes.map fun info => { toContactInfo := info }
  values := r.values
  nodeId := r.nodeId

/-- mirrors src/src/thrift/gen-cpp/kademlia_service_messages_types.cpp:262-456 -/
def findResponse : Layout FindResponse where
  slots := [
    member 1 false .string (·.result) fun r v => { r with result := v },
    member 2 false (.list contactInfo newContactInfo) (·.closestNodes) fun r v => { r with closestNodes := v },
    member 3 false (.list .string []) (·.values) fun r v => { r with values := v },
    member 4 false (.list (.plain signedValue) {}) (·.signedValues) fun r v =>
      { r with signedValues := v },
    member 5 true contactInfo (·.alternativeValueHolder) fun r v =>
      { r with alternativeValueHolder := v },
    member 6 true .string (·.needsCacheCopy) fun r v => { r with needsCacheCopy := v },
    member 7 true .string (·.requesterExtAddr) fun r v => { r with requesterExtAddr := v },
    member 8 true .string (·.nodeId) fun r v => { r with nodeId := v }]
  nodup := by decide

/-! ## `Store` -/

/-- mirrors src/src/thrift/gen-cpp/kademlia_service_messages_types.h:302-321 -/
structure StoreRequest where
  key : Bytes := []
  value : Bytes := []
  sigValue : SignedValue := {}
  ttl : I32 := 0
  senderInfo : ContactInfo.Flagged := newContactInfo
  publish : Bool := false
  signedRequest : SignedRequest := {}

/-- The handler looks at the flags, too. -/
def StoreRequest.plain (r : Flagged StoreRequest) : L4.StoreRequest where
  key := r.val.key
  value := r.val.value
  sigValue := r.val.sigValue
  ttl := r.val.ttl
  senderInfo := r.val.senderInfo.toContactInfo
  publish := r.val.publish
  signedRequest := r.val.signedRequest
  isset := {
    key := r.isset 1
    value := r.isset 2
    sigValue := r.isset 3
    ttl := r.isset 4
    senderInfo := r.isset 5
    publish := r.isset 6
    signedRequest := r.isset 7 }

/-- mirrors src/src/thrift/gen-cpp/kademlia_service_messages_types.cpp:541-662 -/
def storeRequest : Layout StoreRequest where
  slots := [
    member 1 false .string (·.key) fun r v => { r with key := v },
    member 2 true .string (·.value) fun r v => { r with value := v },
    member 3 true (.plain signedValue) (·.sigValue) fun r v => { r with sigValue := v },
    member 4 false .i32 (·.ttl) fun r v => { r with ttl := v },
    member 5 false contactInfo (·.senderInfo) fun r v => { r with senderInfo := v },
    member 6 false .bool (·.publish) fun r v => { r with publish := v },
    member 7 true (.plain signedRequest) (·.signedRequest) fun r v => { r with signedRequest := v }]
  nodup := by decide

/-- mirrors src/src/thrift/gen-cpp/kademlia_service_messages_types.cpp:667-742 -/
def storeResponse : Layout StoreResponse where
  slots := [
    member 1 false .string (·.result) fun r v => { r with result := v },
    member 2 true .string (·.nodeId) fun r v => { r with nodeId := v },
    member 4 true (.plain signedRequest) (·.signedRequest) fun r v => { r with signedRequest := v }]
  nodup := by decide

/-! ## `Downlist` -/

/-- mirrors src/src/thrift/gen-cpp/kademlia_service_messages_types.h:413-425 -/
structure DownlistRequest where
  downlist : List ContactInfo.Flagged := []
  senderInfo : ContactInfo.Flagged := newContactInfo

def DownlistRequest.plain (r : DownlistRequest) : L4.DownlistRequest where
  downlist := r.downlist.map (·.toContactInfo)
  senderInfo := r.senderInfo.toContactInfo

/-- mirrors src/src/thrift/gen-cpp/kademlia_service_messages_types.cpp:747-827 -/
def downlistRequest : Layout DownlistRequest where
  slots := [
    member 1 false (.list contactInfo newContactInfo) (·.downlist) fun r v => { r with downlist := v },
    member 2 false contactInfo (·.senderInfo) fun r v => { r with senderInfo := v }]
  nodup := by decide

/-- mirrors src/src/thrift/gen-cpp/kademlia_service_messages_types.cpp:832-894 -/
def downlistResponse : Layout DownlistResponse where
  slots := [
    member 1 false .string (·.result) fun r v => { r with result := v },
    member 2 true .string (·.nodeId) fun r v => { r with nodeId := v }]
  nodup := by decide

/-! ## `Bootstrap` -/

/-- mirrors src/src/thrift/gen-cpp/kademlia_service_messages_types.h:501-517 -/
structure BootstrapRequest where
  newcomerId : Bytes := []
  newcomerLocalIp : Bytes := []
  newcomerLocalPort : I32 := 0
  nodeType : I32 := 0
  newcomerExtIp : Bytes := []
  newcomerExtPort : I32 := 0

def BootstrapRequest.plain (r : BootstrapRequest) : L4.BootstrapRequest where
  nodeType := r.nodeType
  newcomerExtIp := r.newcomerExtIp
  newcomerExtPort := r.newcomerExtPort

/-- mirrors src/src/thrift/gen-cpp/kademlia_service_messages_types.cpp:899-1007 -/
def bootstrapRequest : Layout BootstrapRequest where
  slots := [
    member 1 false .string (·.newcomerId) fun r v => { r with newcomerId := v },
    member 2 false .string (·.newcomerLocalIp) fun r v => { r with newcomerLocalIp := v },
    member 3 false .i32 (·.newcomerLocalPort) fun r v => { r with newcomerLocalPort := v },
    member 5 false .i32 (·.nodeType) fun r v => { r with nodeType := v },
    member 6 true .string (·.newcomerExtIp) fun r v => { r with newcomerExtIp := v },
    member 7 true .i32 (·.newcomerExtPort) fun r v => { r with newcomerExtPort := v }]
  nodup := by decide

/-- mirrors src/src/thrift/gen-cpp/kademlia_service_messages_types.h:561-576 -/
structure BootstrapResponse extends L4.BootstrapResponse where
  natType : I32 := 0

/-- mirrors src/src/thrift/gen-cpp/kademlia_service_messages_types.cpp:1012-1113 -/
def bootstrapResponse : Layout BootstrapResponse where
  slots := [
    member 1 false .string (·.result) fun r v => { r with result := v },
    member 2 true .string (·.bootstrapId) fun r v => { r with bootstrapId := v },
    member 3 true .string (·.newcomerExtIp) fun r v => { r with newcomerExtIp := v },
    member 4 true .i32 (·.newcomerExtPort) fun r v => { r with newcomerExtPort := v },
    member 5 true .i32 (·.natType) fun r v => { r with natType := v }]
  nodup := by decide

/-! ## `Delete` -/

/-- mirrors src/src/thrift/gen-cpp/kademlia_service_messages_types.h:621-635 -/
structure DeleteRequest where
  key : Bytes := []
  value : SignedValue := {}
  signedRequest : SignedRequest := {}
  senderInfo : ContactInfo.Flagged := newContactInfo

def DeleteRequest.plain (r : DeleteRequest) : L4.DeleteRequest where
  key := r.key
  value := r.value
  signedRequest := r.signedRequest
  senderInfo := r.senderInfo.toContactInfo

/-- mirrors src/src/thrift/gen-cpp/kademlia_service_messages_types.cpp:1118-1200 -/
def deleteRequest : Layout DeleteRequest where
  slots := [
    member 1 false .string (·.key) fun r v => { r with key := v },
    member 2 false (.plain signedValue) (·.value) fun r v => { r with value := v },
    member 3 false (.plain signedRequest) (·.signedRequest) fun r v => { r with signedRequest := v },
    member 4 false contactInfo (·.senderInfo) fun r v => { r with senderInfo := v }]
  nodup := by decide

/-- mirrors src/src/thrift/gen-cpp/kademlia_service_messages_types.cpp:1205-1267 -/
def deleteResponse : Layout DeleteResponse where
  slots := [
    member 1 false .string (·.result) fun r v => { r with result := v },
    member 2 true .string (·.nodeId) fun r v => { r with nodeId := v }]
  nodup := by decide

/-! ## `Update` -/

/-- mirrors src/src/thrift/gen-cpp/kademlia_service_messages_types.h:715-731 -/
structure UpdateRequest where
  key : Bytes := []
  newValue : SignedValue := {}
  oldValue : SignedValue := {}
  ttl : I32 := 0
  request : SignedRequest := {}
  senderInfo : ContactInfo.Flagged := newContactInfo

def UpdateRequest.plain (r : UpdateRequest) : L4.UpdateRequest where
  key := r.key
  newValue := r.newValue
  oldValue := r.oldValue
  ttl := r.ttl
  request := r.request
  senderInfo := r.senderInfo.toContactInfo

/-- mirrors src/src/thrift/gen-cpp/kademlia_service_messages_types.cpp:1272-1376 -/
def updateRequest : Layout UpdateRequest where
  slots := [
    member 1 false .string (·.key) fun r v => { r with key := v },
    member 2 false (.plain signedValue) (·.newValue) fun r v => { r with newValue := v },
    member 3 false (.plain signedValue) (·.oldValue) fun r v => { r with oldValue := v },
    member 4 false .i32 (·.ttl) fun r v => { r with ttl := v },
    member 5 false (.plain signedRequest) (·.request) fun r v => { r with request := v },
    member 6 false contactInfo (·.senderInfo) fun r v => { r with senderInfo := v }]
  nodup := by decide

/-- mirrors src/src/thrift/gen-cpp/kademlia_service_messages_types.cpp:1381-1443 -/
def updateResponse : Layout UpdateResponse where
  slots := [
    member 1 false .string (·.result) fun r v => { r with result := v },
    member 2 true .string (·.nodeId) fun r v => { r with nodeId := v }]
  nodup := by decide

/-! ## What arrives -/

/-- What arrives of a contact. -/
def sent (i : ContactInfo.Flagged) : ContactInfo.Flagged := ContactInfo.read (ContactInfo.write i)

@[simp] theorem contactInfo_arrives : contactInfo.arrives newContactInfo = sent := rfl

@[simp] theorem signedValue_arrives : (Codec.plain signedValue).arrives = fun _ v => v := rfl

@[simp] theorem signedRequest_arrives : (Codec.plain signedRequest).arrives = fun _ v => v := rfl

/-- The two descriptions of a `StoreRequest` on the wire agree. -/
theorem storeRequest_arrives (r : Flagged StoreRequest) :
    StoreRequest.plain (storeRequest.arrives (fresh {}) r) =
      L4.StoreRequest.read (fun _ => (sent r.val.senderInfo).toContactInfo)
        (StoreRequest.plain r).write := by
  rw [L4.StoreRequest.read_write]
  cases hvalue : r.isset 2 <;> cases hsig : r.isset 3 <;> cases hrequest : r.isset 7 <;>
    simp [Layout.arrives, storeRequest, written, member, hvalue, hsig, hrequest, transfer,
      StoreRequest.plain]

end Kadpeer.L4.Thrift
