import Kadpeer.L2Bucket.Contact
import Kadpeer.L2Store.DataStore

/-!
# The messages of the service (`thrift/gen-cpp`)

The structures that the handlers read and write, each with the values its constructor
sets. Of the presence flags (`__isset`) only those of `StoreRequest` are kept: no handler
reads another one.
-/
namespace Kadpeer.L4

open Kadpeer.Core Kadpeer.L2

/-- mirrors src/src/kademlia/kademlia_config.h:22 -/
def kRpcResultFailure : Bytes := bytes ['F']

/-- mirrors src/src/kademlia/kademlia_config.h:23 -/
def kRpcResultSuccess : Bytes := bytes ['S']

/-- mirrors src/src/thrift/gen-cpp/signed_kadvalue_types.h:24-36 -/
structure SignedValue where
  value : Bytes := []
  valueSignature : Bytes := []
deriving DecidableEq

/-- `value.value + value.value_signature`: the string that is stored for a signed value. -/
def SignedValue.ser (v : SignedValue) : Bytes := v.value ++ v.valueSignature

/-- mirrors src/src/thrift/gen-cpp/signed_kadvalue_types.h:67-81 -/
structure SignedRequest where
  signerId : Bytes := []
  publicKey : Bytes := []
  signedPublicKey : Bytes := []
  signedRequest : Bytes := []
deriving DecidableEq

/-- The four fields in a row, as `Delete` passes them on. -/
def SignedRequest.ser (r : SignedRequest) : Bytes :=
  r.signerId ++ r.publicKey ++ r.signedPublicKey ++ r.signedRequest

/-- mirrors src/src/thrift/gen-cpp/kademlia_service_messages_types.h:26-38 -/
structure PingRequest where
  ping : Bytes := []
  senderInfo : ContactInfo := {}

/-- mirrors src/src/thrift/gen-cpp/kademlia_service_messages_types.h:68-81 -/
structure PingResponse where
  result : Bytes := []
  echo : Bytes := []
  nodeId : Bytes := []

/-- `is_boostrap` and the sender's external address are read by no handler.
mirrors src/src/thrift/gen-cpp/kademlia_service_messages_types.h:119-134 -/
structure FindRequest where
  key : Bytes := []
  senderInfo : ContactInfo := {}

/-- The fields that a handler writes.
mirrors src/src/thrift/gen-cpp/kademlia_service_messages_types.h:181-199 -/
structure FindResponse where
  result : Bytes := []
  closestNodes : List ContactInfo := []
  values : List Bytes := []
  nodeId : Bytes := []

/-- mirrors src/src/thrift/gen-cpp/kademlia_service_messages_types.h:291-300 -/
structure StoreRequest.Isset where
  key : Bool := false
  value : Bool := false
  sigValue : Bool := false
  ttl : Bool := false
  senderInfo : Bool := false
  publish : Bool := false
  signedRequest : Bool := false

/-- mirrors src/src/thrift/gen-cpp/kademlia_service_messages_types.h:302-321 -/
structure StoreRequest where
  key : Bytes := []
  value : Bytes := []
  sigValue : SignedValue := {}
  ttl : I32 := 0
  senderInfo : ContactInfo := {}
  publish : Bool := false
  signedRequest : SignedRequest := {}
  isset : StoreRequest.Isset := {}

/-- mirrors src/src/thrift/gen-cpp/kademlia_service_messages_types.h:365-380 -/
structure StoreResponse where
  result : Bytes := []
  nodeId : Bytes := []
  signedRequest : SignedRequest := {}

/-- mirrors src/src/thrift/gen-cpp/kademlia_service_messages_types.h:413-425 -/
structure DownlistRequest where
  downlist : List ContactInfo := []
  senderInfo : ContactInfo := {}

/-- mirrors src/src/thrift/gen-cpp/kademlia_service_messages_types.h:454-466 -/
structure DownlistResponse where
  result : Bytes := []
  nodeId : Bytes := []

/-- The newcomer's id and local address are read by no handler.
mirrors src/src/thrift/gen-cpp/kademlia_service_messages_types.h:501-517 -/
structure BootstrapRequest where
  nodeType : I32 := 0
  newcomerExtIp : Bytes := []
  newcomerExtPort : I32 := 0

/-- mirrors src/src/thrift/gen-cpp/kademlia_service_messages_types.h:561-576 -/
structure BootstrapResponse where
  result : Bytes := []
  bootstrapId : Bytes := []
  newcomerExtIp : Bytes := []
  newcomerExtPort : I32 := 0

/-- mirrors src/src/thrift/gen-cpp/kademlia_service_messages_types.h:621-635 -/
structure DeleteRequest where
  key : Bytes := []
  value : SignedValue := {}
  signedRequest : SignedRequest := {}
  senderInfo : ContactInfo := {}

/-- mirrors src/src/thrift/gen-cpp/kademlia_service_messages_types.h:668-680 -/
structure DeleteResponse where
  result : Bytes := []
  nodeId : Bytes := []

/-- mirrors src/src/thrift/gen-cpp/kademlia_service_messages_types.h:715-731 -/
structure UpdateRequest where
  key : Bytes := []
  newValue : SignedValue := {}
  oldValue : SignedValue := {}
  ttl : I32 := 0
  request : SignedRequest := {}
  senderInfo : ContactInfo := {}

/-- mirrors src/src/thrift/gen-cpp/kademlia_service_messages_types.h:768-780 -/
structure UpdateResponse where
  result : Bytes := []
  nodeId : Bytes := []

end Kadpeer.L4
