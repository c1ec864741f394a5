import Kadpeer.L2Bucket.Contact

/-!
# A contact on the wire (`kademlia/contact.cpp`, `thrift/gen-cpp`)

Fields 4 to 7 of a `ContactInfo` are optional: `write` emits each only when its flag in
`__isset` is set, and `read` sets the flag of what it finds. `ParseToThrift` assigns the
members and sets no flag, `ParseFromThrift` reads the members and looks at none, so the
local and the rendezvous address never arrive.

`ParseToThrift` itself throws for every contact (`parseToThrift_eq`). To see what becomes
of the other fields, the string of the id is an argument here (`encodeId`); `ownId` is what
the code does, and `toThrift_ownId` says that nothing else is changed.

* `read_write`: what arrives of a `ContactInfo`.
* `survives_iff`: the fields of a contact arrive exactly when the optional ones are what
  the constructor sets.
* `survives_counterexample`: a contact behind a NAT.
-/
namespace Kadpeer.L2

open Kadpeer.Core Kadpeer.L1

namespace ContactInfo

/-- mirrors src/src/thrift/gen-cpp/contact_info_types.h:19-28 -/
structure Isset where
  nodeId : Bool := false
  ip : Bool := false
  port : Bool := false
  localIp : Bool := false
  localPort : Bool := false
  rendezvousIp : Bool := false
  rendezvousPort : Bool := false
deriving DecidableEq

/-- The members with their flags. -/
structure Flagged extends ContactInfo where
  isset : Isset := {}
deriving DecidableEq

/-- A field between its begin and end marks. -/
inductive Field
  | nodeId (nodeId : Bytes)
  | ip (ip : Bytes)
  | port (port : BitVec 32)
  | localIp (localIp : Bytes)
  | localPort (localPort : BitVec 32)
  | rendezvousIp (rendezvousIp : Bytes)
  | rendezvousPort (rendezvousPort : BitVec 32)

/-- mirrors src/src/thrift/gen-cpp/contact_info_types.cpp:101-136 -/
def write (i : Flagged) : List Field :=
  [.nodeId i.nodeId, .ip i.ip, .port i.port] ++
  (if i.isset.localIp then [.localIp i.localIp] else []) ++
  (if i.isset.localPort then [.localPort i.localPort] else []) ++
  (if i.isset.rendezvousIp then [.rendezvousIp i.rendezvousIp] else []) ++
  (if i.isset.rendezvousPort then [.rendezvousPort i.rendezvousPort] else [])

/-- mirrors src/src/thrift/gen-cpp/contact_info_types.cpp:32-89 -/
def readField (i : Flagged) : Field → Flagged
  | .nodeId nodeId => { i with nodeId := nodeId, isset := { i.isset with nodeId := true } }
  | .ip ip => { i with ip := ip, isset := { i.isset with ip := true } }
  | .port port => { i with port := port, isset := { i.isset with port := true } }
  | .localIp localIp => { i with localIp := localIp, isset := { i.isset with localIp := true } }
  | .localPort localPort =>
    { i with localPort := localPort, isset := { i.isset with localPort := true } }
  | .rendezvousIp rendezvousIp =>
    { i with rendezvousIp := rendezvousIp, isset := { i.isset with rendezvousIp := true } }
  | .rendezvousPort rendezvousPort =>
    { i with rendezvousPort := rendezvousPort, isset := { i.isset with rendezvousPort := true } }

/-- Into a fresh `ContactInfo`. Mirrors
src/src/thrift/gen-cpp/contact_info_types.cpp:13-99. -/
def read (fields : List Field) : Flagged := fields.foldl readField {}

/-- What arrives: an optional field without its flag is the constructor's. -/
theorem read_write (i : Flagged) :
    read (write i) = {
      nodeId := i.nodeId
      ip := i.ip
      port := i.port
      localIp := if i.isset.localIp then i.localIp else []
      localPort := if i.isset.localPort then i.localPort else 0
      rendezvousIp := if i.isset.rendezvousIp then i.rendezvousIp else []
      rendezvousPort := if i.isset.rendezvousPort then i.rendezvousPort else 0
      isset := {
        nodeId := true
        ip := true
        port := true
        localIp := i.isset.localIp
        localPort := i.isset.localPort
        rendezvousIp := i.isset.rendezvousIp
        rendezvousPort := i.isset.rendezvousPort } } := by
  unfold read write
  cases i.isset.localIp <;> cases i.isset.localPort <;> cases i.isset.rendezvousIp <;>
    cases i.isset.rendezvousPort <;>
    simp only [Bool.false_eq_true, if_true, if_false, List.append_nil, List.cons_append,
      List.nil_append, List.foldl_cons, List.foldl_nil, readField]

end ContactInfo

namespace Contact

open ContactInfo

/-- `ParseToThrift` with the string of the id as an argument. Mirrors
src/src/kademlia/contact.cpp:107-121. -/
def toThrift (encodeId : KadID → Except Fault Bytes) (this : Contact) : Except Fault Flagged := do
  let nodeId ← encodeId this.nodeId
  return {
    nodeId := nodeId
    ip := this.hostIp
    port := this.hostPort.setWidth 32
    rendezvousIp := this.rendezvousIp
    rendezvousPort := this.rendezvousPort.setWidth 32
    localIp := this.localIp
    localPort := this.localPort.setWidth 32 }

/-- The comparison with `KadID(0)` and `BigInt::toString`. -/
def ownId (nodeId : KadID) : Except Fault Bytes := do
  let zero ← KadID.ofNullLiteral
  if nodeId ≠ zero then nodeId.rawId.toStrDec
  else throw .missingReturn

/-- With the code's own string it is `ParseToThrift`, and no flag is set. -/
theorem toThrift_ownId (c : Contact) :
    toThrift ownId c = (parseToThrift c).map fun info => { toContactInfo := info } := rfl

/-- The seven fields arrive, and so do the six of the address that `ParseFromThrift`
installs, if it takes the id. -/
def Survives (encodeId : KadID → Except Fault Bytes) (c : Contact) : Prop :=
  ∃ info, toThrift encodeId c = .ok info ∧
    (read (write info)).toContactInfo = info.toContactInfo ∧
    ∀ toKadID this c',
      parseFromThrift toKadID (read (write info)).toContactInfo this = .ok (true, c') →
      c'.hostIp = c.hostIp ∧ c'.hostPort = c.hostPort ∧ c'.localIp = c.localIp ∧
        c'.localPort = c.localPort ∧ c'.rendezvousIp = c.rendezvousIp ∧
        c'.rendezvousPort = c.rendezvousPort

/-- The optional fields are those of a fresh `ContactInfo`. -/
def HostOnly (c : Contact) : Prop :=
  c.localIp = [] ∧ c.localPort = 0 ∧ c.rendezvousIp = [] ∧ c.rendezvousPort = 0

variable {encodeId : KadID → Except Fault Bytes} {c : Contact} {nodeId : Bytes}

theorem toThrift_of_ok (h : encodeId c.nodeId = .ok nodeId) :
    toThrift encodeId c = .ok {
      nodeId := nodeId
      ip := c.hostIp
      port := c.hostPort.setWidth 32
      rendezvousIp := c.rendezvousIp
      rendezvousPort := c.rendezvousPort.setWidth 32
      localIp := c.localIp
      localPort := c.localPort.setWidth 32 } := by
  rw [toThrift, h]
  rfl

/-- A port goes through `int32_t` and back. -/
theorem setWidth_port (port : UShort) : (port.setWidth 32).setWidth 16 = port := by
  refine BitVec.eq_of_toNat_eq ?_
  have := port.isLt
  rw [BitVec.toNat_setWidth, BitVec.toNat_setWidth]
  omega

theorem setWidth_port_eq_zero {port : UShort} : port.setWidth 32 = 0 ↔ port = 0 := by
  constructor
  · intro h
    rw [← setWidth_port port, h]
    rfl
  · intro h
    rw [h]
    rfl

/-- What `ParseFromThrift` installs, if it returns true. -/
theorem parseFromThrift_true {toKadID : Bytes → Except Fault KadID} {data : ContactInfo}
    {this c' : Contact} (h : parseFromThrift toKadID data this = .ok (true, c')) :
    ∃ id, c' = ofInfo id data this := by
  rw [parseFromThrift_eq] at h
  split at h
  · cases h
  · cases hid : toKadID data.nodeId with
    | error f => rw [hid] at h; cases h
    | ok id =>
      rw [hid] at h
      cases h
      exact ⟨id, rfl⟩

/-- What arrives of a contact: no optional field. -/
theorem read_write_toThrift {info : Flagged} (h : toThrift encodeId c = .ok info) :
    info.localIp = c.localIp ∧ info.localPort = c.localPort.setWidth 32 ∧
      info.rendezvousIp = c.rendezvousIp ∧ info.rendezvousPort = c.rendezvousPort.setWidth 32 ∧
      (read (write info)).toContactInfo =
        { info.toContactInfo with localIp := [], localPort := 0, rendezvousIp := [],
                                  rendezvousPort := 0 } := by
  cases hid : encodeId c.nodeId with
  | error f =>
    rw [toThrift, hid] at h
    cases h
  | ok nodeId =>
    rw [toThrift_of_ok hid, Except.ok.injEq] at h
    subst h
    refine ⟨rfl, rfl, rfl, rfl, ?_⟩
    rw [read_write]
    rfl

theorem hostOnly_of_survives (h : Survives encodeId c) : HostOnly c := by
  obtain ⟨info, hinfo, hfields, -⟩ := h
  obtain ⟨h₁, h₂, h₃, h₄, hread⟩ := read_write_toThrift hinfo
  rw [hread] at hfields
  have hlocalIp := congrArg ContactInfo.localIp hfields
  have hlocalPort := congrArg ContactInfo.localPort hfields
  have hrendezvousIp := congrArg ContactInfo.rendezvousIp hfields
  have hrendezvousPort := congrArg ContactInfo.rendezvousPort hfields
  dsimp only at hlocalIp hlocalPort hrendezvousIp hrendezvousPort
  refine ⟨h₁ ▸ hlocalIp.symm, setWidth_port_eq_zero.mp ?_, h₃ ▸ hrendezvousIp.symm,
    setWidth_port_eq_zero.mp ?_⟩
  · rw [← h₂, ← hlocalPort]
  · rw [← h₄, ← hrendezvousPort]

theorem survives_of_hostOnly (hid : encodeId c.nodeId = .ok nodeId) (h : HostOnly c) :
    Survives encodeId c := by
  obtain ⟨h₁, h₂, h₃, h₄⟩ := h
  have hinfo := toThrift_of_ok hid
  obtain ⟨-, -, -, -, hread⟩ := read_write_toThrift hinfo
  rw [h₁, h₂, h₃, h₄] at hread hinfo
  refine ⟨_, hinfo, hread, fun toKadID this c' hc' => ?_⟩
  obtain ⟨id, rfl⟩ := parseFromThrift_true hc'
  rw [hread]
  refine ⟨rfl, setWidth_port c.hostPort, h₁.symm, ?_, h₃.symm, ?_⟩
  · rw [h₂]
    rfl
  · rw [h₄]
    rfl

/-- **Only the host address survives.** -/
theorem survives_iff (hid : encodeId c.nodeId = .ok nodeId) : Survives encodeId c ↔ HostOnly c :=
  ⟨hostOnly_of_survives, survives_of_hostOnly hid⟩

/-- The decimal string of the id, without the comparison before it. -/
def decimalId (nodeId : KadID) : Except Fault Bytes := nodeId.rawId.toStrDec

/-- Node 1 at 10.0.0.1:5000, with the local port 6000 or none. -/
def nodeOne (localPort : UShort) : Contact :=
  { empty with
    nodeId := ⟨Rossi.ofUlong 1⟩
    hostIp := bytes ['1', '0', '.', '0', '.', '0', '.', '1']
    hostPort := 5000
    localPort := localPort }

theorem decimalId_one : decimalId ⟨Rossi.ofUlong 1⟩ = .ok (bytes ['1']) := by decide +kernel

theorem survives_nodeOne : Survives decimalId (nodeOne 0) :=
  (survives_iff (c := nodeOne 0) decimalId_one).mpr ⟨rfl, rfl, rfl, rfl⟩

/-- A local port is lost. -/
theorem survives_counterexample : ¬ ∀ (encodeId : KadID → Except Fault Bytes) (c : Contact)
    (nodeId : Bytes), encodeId c.nodeId = .ok nodeId → Survives encodeId c := by
  intro h
  have hhost := hostOnly_of_survives (h decimalId (nodeOne 6000) _ decimalId_one)
  exact absurd hhost.2.1 (by decide)

end Contact
end Kadpeer.L2
