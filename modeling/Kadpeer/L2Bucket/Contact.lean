import Kadpeer.L1Number.KadID

/-!
# Contacts and their wire form (`kademlia/contact.h`, `kademlia/contact.cpp`)

`ParseFromThrift` turns the peer's `node_id` string into a `KadID`; the
conversion is an argument (`toKadID`), so that the handlers can be read both
with the code's own constructor (`KadID.ofString`) and with one that is total.

* `parseFromThrift_eq`: an empty `node_id` is refused, any other is converted
  before a field of the contact is written.
* `parseToThrift_eq`: the comparison with `KadID(0)` comes first and throws.
* `parseFromThrift_ofString`: with the code's constructor only an empty
  `node_id` gets through.
* `no_roundTrip`: no contact comes back from its wire form.
-/
namespace Kadpeer.L2

open Kadpeer.Core Kadpeer.L1

abbrev UShort := BitVec 16

/-- `last_seen_` is set by no constructor; 0 stands for what is found there.
Mirrors src/src/kademlia/contact.h:74-84. -/
structure Contact where
  nodeId : KadID
  hostIp : Bytes
  hostPort : UShort
  rendezvousIp : Bytes
  rendezvousPort : UShort
  localIp : Bytes
  localPort : UShort
  lastSeen : Int
deriving DecidableEq

/-- mirrors src/src/thrift/gen-cpp/contact_info_types.h:30-46 -/
structure ContactInfo where
  nodeId : Bytes := []
  ip : Bytes := []
  port : BitVec 32 := 0
  localIp : Bytes := []
  localPort : BitVec 32 := 0
  rendezvousIp : Bytes := []
  rendezvousPort : BitVec 32 := 0
deriving DecidableEq

namespace Contact

/-- mirrors src/src/kademlia/contact.cpp:19-22 (`Contact()`) -/
def empty : Contact :=
  { nodeId := ⟨Rossi.ofUlong 0⟩, hostIp := [], hostPort := 0, rendezvousIp := [],
    rendezvousPort := 0, localIp := [], localPort := 0, lastSeen := 0 }

/-- mirrors src/src/kademlia/contact.h:55-57 -/
def equals (c other : Contact) : Bool := Rossi.eq c.nodeId.rawId other.nodeId.rawId

theorem equals_iff {c other : Contact} : c.equals other = true ↔ c.nodeId = other.nodeId := by
  rw [equals, Rossi.eq_iff, KadID.ext_iff]

/-- The assignments of `ParseFromThrift`. -/
def ofInfo (nodeId : KadID) (data : ContactInfo) (this : Contact) : Contact :=
  { this with
    nodeId := nodeId
    hostIp := data.ip
    hostPort := data.port.setWidth 16
    rendezvousIp := data.rendezvousIp
    rendezvousPort := data.rendezvousPort.setWidth 16
    localIp := data.localIp
    localPort := data.localPort.setWidth 16 }

/-- The result, and `*this` after the call. Mirrors
src/src/kademlia/contact.cpp:91-105. -/
def parseFromThrift (toKadID : Bytes → Except Fault KadID) (data : ContactInfo) (this : Contact) :
    Except Fault (Bool × Contact) := do
  if data.nodeId.isEmpty then
    return (false, this)
  let nodeId ← toKadID data.nodeId
  return (true, ofInfo nodeId data this)

/-- mirrors src/src/kademlia/contact.cpp:107-121 -/
def parseToThrift (this : Contact) : Except Fault ContactInfo := do
  let zero ← KadID.ofNullLiteral
  if this.nodeId ≠ zero then
    let nodeId ← this.nodeId.rawId.toStrDec
    return {
      nodeId := nodeId
      ip := this.hostIp
      port := this.hostPort.setWidth 32
      rendezvousIp := this.rendezvousIp
      rendezvousPort := this.rendezvousPort.setWidth 32
      localIp := this.localIp
      localPort := this.localPort.setWidth 32 }
  else
    throw .missingReturn

variable {toKadID : Bytes → Except Fault KadID}

theorem parseFromThrift_eq (data : ContactInfo) (this : Contact) :
    parseFromThrift toKadID data this =
      if data.nodeId = [] then .ok (false, this)
      else (toKadID data.nodeId).map fun id => (true, ofInfo id data this) := by
  unfold parseFromThrift
  by_cases h : data.nodeId = []
  · simp only [List.isEmpty_iff, h, if_true]
    rfl
  · simp only [List.isEmpty_iff, h, if_false]
    cases toKadID data.nodeId <;> rfl

theorem parseToThrift_eq (c : Contact) : parseToThrift c = .error .logicError := rfl

/-- The call returns exactly on an empty `node_id`. -/
theorem parseFromThrift_ofString (data : ContactInfo) (this : Contact) :
    parseFromThrift KadID.ofString data this =
      if data.nodeId = [] then .ok (false, this) else .error .assertion := by
  rw [parseFromThrift_eq, KadID.ofString_fault]
  rfl

/-- The ids and the six address fields agree. -/
def SameAddress (c c' : Contact) : Prop :=
  c'.nodeId = c.nodeId ∧ c'.hostIp = c.hostIp ∧ c'.hostPort = c.hostPort ∧
    c'.localIp = c.localIp ∧ c'.localPort = c.localPort ∧
    c'.rendezvousIp = c.rendezvousIp ∧ c'.rendezvousPort = c.rendezvousPort

/-- `ParseToThrift` returns, and `ParseFromThrift` reads the result back, into
whatever contact. -/
def RoundTrip (c : Contact) : Prop :=
  ∃ info, parseToThrift c = .ok info ∧
    ∀ this, ∃ c', parseFromThrift KadID.ofString info this = .ok (true, c') ∧ SameAddress c c'

/-- **No contact survives the wire.** The encoder throws before it looks at the
id, and the decoder accepts no string the encoder could have written. -/
theorem no_roundTrip (c : Contact) :
    parseToThrift c = .error .logicError ∧
      (∀ info this c', parseFromThrift KadID.ofString info this ≠ .ok (true, c')) ∧
      ¬ RoundTrip c := by
  refine ⟨parseToThrift_eq c, fun info this c' h => ?_, fun ⟨info, h, _⟩ => ?_⟩
  · rw [parseFromThrift_ofString] at h
    split at h <;> cases h
  · rw [parseToThrift_eq] at h
    cases h

/-- The round trip fails at node 1, 10.0.0.1:5000. -/
theorem roundTrip_counterexample :
    ¬ ∀ c : Contact, c.nodeId.toNat ≠ 0 → RoundTrip c := by
  intro h
  obtain ⟨info, hinfo, -⟩ := h
    { empty with
      nodeId := ⟨Rossi.ofUlong 1⟩
      hostIp := bytes ['1', '0', '.', '0', '.', '0', '.', '1']
      hostPort := 5000 } (by decide)
  rw [parseToThrift_eq] at hinfo
  cases hinfo

end Contact
end Kadpeer.L2
