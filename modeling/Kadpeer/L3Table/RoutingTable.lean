import Kadpeer.Core.Keyed
import Kadpeer.Core.LTS
import Kadpeer.L2Bucket.KBucket
import Mathlib.Data.List.Sort

/-!
# The routing table (`kademlia/kadroutingtable.h`, `kademlia/kadroutingtable.cpp`)

Buckets stand in a vector; `bucket_upper_address_` maps the upper end of a
bucket's range to its position. A position is stored as `unsigned short`, and
`KBucketIndex` answers -1 through the same type, so a caller that reads the
result as `int` never sees a negative number, and the one that reads it as
`short` (`AddContact`) sees one from 32768 on.

What the program does not determine is an argument: the digests behind the
`KadID()` of the constructor, of `Clear` and of the two sorts of a forced
acceptance (the clock does not change within one sort), and the words that
`SplitRange` reads past the end (`Past`). `AddContact` calls itself after a
split, so it runs on a list of such pairs, one for each split, and returns what
is left of the list; `none` means that the list was too short.

`table` is the transition system of the public operations that change the table.
An `AddContact` that does not return has no transition.
-/
namespace Kadpeer.L3

open Kadpeer.Core Kadpeer.L1 Kadpeer.L2

/-- mirrors src/src/kademlia/kadroutingtable.h:67-77 -/
structure RoutingTable where
  kBuckets : List KBucket
  bucketUpperAddress : Keyed (Prod.fst : KadID × UShort → KadID)
  holderId : KadID
  bucketOfHolder : UShort
  brotherBucketOfHolder : UShort
  addressSpaceUpperAddress : KadID
  K : UShort
deriving DecidableEq

namespace RoutingTable

/-- mirrors src/src/kademlia/kadroutingtable.cpp:25-36 -/
def new (holderId : KadID) (rtK : UShort) (minRange : Digest) : RoutingTable where
  kBuckets := [.new (.ofDigest minRange) .kMaxID rtK]
  bucketUpperAddress := Keyed.empty.insert (.kMaxID, 0)
  holderId := holderId
  bucketOfHolder := 0
  brotherBucketOfHolder := -1
  addressSpaceUpperAddress := .kMaxID
  K := rtK

/-- mirrors src/src/kademlia/kadroutingtable.cpp:229-238 -/
def clear (t : RoutingTable) (minRange : Digest) : RoutingTable :=
  { t with
    kBuckets := [.new (.ofDigest minRange) t.addressSpaceUpperAddress t.K]
    bucketUpperAddress := Keyed.empty.insert (t.addressSpaceUpperAddress, 0) }

/-! ## Access by id and by position -/

/-- mirrors src/src/kademlia/kadroutingtable.cpp:43-49 -/
def kBucketIndex (t : RoutingTable) (key : KadID) : Except Fault UShort :=
  if key > t.addressSpaceUpperAddress then .ok (-1)
  else match t.bucketUpperAddress.lowerBound key with
    | some entry => .ok entry.2
    | none => .error .badIterator

/-- `int index = KBucketIndex(…)` -/
def asInt (u : UShort) : Int := u.toNat

/-- `short int index = KBucketIndex(…)` -/
def asShort (u : UShort) : Int := u.toInt

/-- `k_buckets_[index]` -/
def bucketAt (t : RoutingTable) (index : Nat) : Except Fault KBucket :=
  match t.kBuckets[index]? with
  | some b => .ok b
  | none => .error .outOfBounds

def setBucket (t : RoutingTable) (index : Nat) (b : KBucket) : RoutingTable :=
  { t with kBuckets := t.kBuckets.set index b }

/-- mirrors src/src/kademlia/kadroutingtable.cpp:83-90 -/
def getContact (t : RoutingTable) (nodeId : KadID) : Except Fault (Option Contact) := do
  let index := asInt (← t.kBucketIndex nodeId)
  if index < 0 then return none
  let b ← t.bucketAt index.toNat
  return b.getContact nodeId

/-- mirrors src/src/kademlia/kadroutingtable.cpp:92-98 -/
def touchKBucket (t : RoutingTable) (nodeId : KadID) (current : BitVec 32) :
    Except Fault RoutingTable := do
  let index := asInt (← t.kBucketIndex nodeId)
  if index < 0 then return t
  let b ← t.bucketAt index.toNat
  return t.setBucket index.toNat (b.setLastAccessed current)

/-- mirrors src/src/kademlia/kadroutingtable.cpp:100-105 -/
def removeContact (t : RoutingTable) (nodeId : KadID) : Except Fault RoutingTable := do
  let index := asInt (← t.kBucketIndex nodeId)
  if index < 0 then return t
  let b ← t.bucketAt index.toNat
  return t.setBucket index.toNat (b.removeContact nodeId)

/-- mirrors src/src/kademlia/kadroutingtable.cpp:219-227 -/
def getContacts (t : RoutingTable) (index : UShort) (excludeContacts contacts : List Contact) :
    Except Fault (Bool × List Contact) := do
  if index.toNat > t.kBuckets.length then return (false, contacts)
  let b ← t.bucketAt index.toNat
  return (true, b.getContacts t.K excludeContacts [])

/-- mirrors src/src/kademlia/kadroutingtable.cpp:345-350 -/
def getLastSeenContact (t : RoutingTable) (kbucketIndex : UShort) : Except Fault Contact := do
  if kbucketIndex.toNat + 1 > t.kBuckets.length then return .empty
  let b ← t.bucketAt kbucketIndex.toNat
  return b.lastSeenContact

/-! ## Splitting -/

/-- The contacts go over from the last to the first. -/
def distribute (left right : KBucket) (contacts : List Contact) : KBucket × KBucket :=
  contacts.foldr
    (fun contact (l, r) =>
      if l.keyInRange contact.nodeId then ((l.addContact contact).2, r)
      else (l, (r.addContact contact).2))
    (left, right)

/-- The pairs inserted into `bucket_upper_address_`, in this order. -/
def upperEntries (bs : List KBucket) : List (KadID × UShort) :=
  bs.zipIdx.map fun (b, j) => (b.rangeMax, .ofNat 16 j)

/-- `SplitRange` hands back the lower bound of the upper half first, and it is
taken as the upper bound of the left bucket. Mirrors
src/src/kademlia/kadroutingtable.cpp:107-143. -/
def splitKbucket (t : RoutingTable) (past : Past) (index : Nat) : Except Fault RoutingTable := do
  let b ← t.bucketAt index
  let (rangeMaxKbLeft, rangeMinKbRight) := KadID.splitRange past b.rangeMin b.rangeMax
  let kbLeft := KBucket.new b.rangeMin rangeMaxKbLeft t.K
  let kbRight := KBucket.new rangeMinKbRight b.rangeMax t.K
  let contacts := b.getContacts t.K [] []
  let (kbLeft, kbRight) := distribute kbLeft kbRight contacts
  let kBuckets := t.kBuckets.take index ++ kbLeft :: kbRight :: t.kBuckets.drop (index + 1)
  let (bucketOfHolder, brotherBucketOfHolder) :=
    if kbLeft.keyInRange t.holderId then (index, index + 1) else (index + 1, index)
  return { t with
    kBuckets := kBuckets
    bucketUpperAddress := Keyed.ofList Prod.fst (upperEntries kBuckets)
    bucketOfHolder := .ofNat 16 bucketOfHolder
    brotherBucketOfHolder := .ofNat 16 brotherBucketOfHolder }

/-! ## Forced acceptance -/

/-- `std::list::sort`, which is stable. -/
def sortBy {α : Type} (lt : α → α → Bool) (l : List α) : List α :=
  l.insertionSort fun a b => lt b a = false

/-- `id` is the `KadID()` that every comparison builds anew. Mirrors
src/src/kademlia/kadroutingtable.cpp:251-260. -/
def compareDistance (id holderId : KadID) (first second : Contact) : Bool :=
  if first.nodeId = id then true
  else if second.nodeId = id then false
  else KadID.closerToTarget first.nodeId second.nodeId holderId

/-- mirrors src/src/kademlia/kadroutingtable.cpp:262-268 -/
def compareTime (first second : Contact) : Bool := first.lastSeen > second.lastSeen

/-- mirrors src/src/kademlia/kadroutingtable.cpp:270-275 -/
def compareScore (first second : Contact × Int) : Bool := first.2 > second.2

/-- The inner loop: every entry with the contact's id takes the next `t`. -/
def addTimeScore (contact : Contact) : List (Contact × Int) → Int → List (Contact × Int) × Int
  | [], t => ([], t)
  | (c, score) :: lScore, t =>
    if contact.equals c then
      let (rest, t') := addTimeScore contact lScore (t + 1)
      ((c, score + t) :: rest, t')
    else
      let (rest, t') := addTimeScore contact lScore t
      ((c, score) :: rest, t')

/-- mirrors src/src/kademlia/kadroutingtable.cpp:277-304 -/
def getLeastUsefulContact (id holderId : KadID) (l : List Contact) : Option Contact :=
  let l := sortBy (compareDistance id holderId) l
  let lScore := l.zipIdx.map fun (c, d) => (c, (d + 1 : Int))
  let l := sortBy compareTime l
  let (lScore, _) := l.foldl (fun (s, t) c => addTimeScore c s t) (lScore, 1)
  ((sortBy compareScore lScore).head?).map Prod.fst

/-- The two digests are those of the sort here and of the one inside
`get_least_useful_contact`. Mirrors
src/src/kademlia/kadroutingtable.cpp:308-343. -/
def forceKAcceptNewPeer (t : RoutingTable) (clock : Digest × Digest) (newContact : Contact) :
    Except Fault (Int × RoutingTable) := do
  let own ← t.bucketAt t.bucketOfHolder.toNat
  let v : Int := t.K.toNat - own.size
  if v = 0 then return (1, t)
  let brother := t.brotherBucketOfHolder.toNat
  let b ← t.bucketAt brother
  let contacts := b.getContacts t.K [] []
  let candidatesForL := sortBy (compareDistance (.ofDigest clock.1) t.holderId) contacts
  -- `advance(it, v - 1)` from `begin()`, then the test against `end()`
  if v < 1 ∨ candidatesForL.length < v - 1 then throw .badIterator
  match candidatesForL.drop (v - 1).toNat with
  | [] => return (1, t)
  | it :: rest =>
    if KadID.closerToTarget it.nodeId newContact.nodeId t.holderId then return (1, t)
    match getLeastUsefulContact (.ofDigest clock.2) t.holderId (it :: rest) with
    | none => return (-1, t)
    | some leastUsefulContact =>
      let b := (b.removeContact leastUsefulContact.nodeId).addContact newContact
      return (0, t.setBucket brother b.2)

/-! ## `AddContact` -/

/-- How one activation of `AddContact` goes on: it returns, or it splits the
bucket at `index` and calls itself. -/
inductive Level
  | ret (code : Int) (t : RoutingTable)
  | split (index : Nat) (t : RoutingTable)

/-- mirrors src/src/kademlia/kadroutingtable.cpp:145-168, up to the recursive call -/
def addContactLevel (clock : Digest × Digest) (newContact : Contact) (t : RoutingTable) :
    Except Fault Level := do
  let index := asShort (← t.kBucketIndex newContact.nodeId)
  if index < 0 then return .ret 3 t
  let b ← t.bucketAt index.toNat
  let (exitcode, b) := b.addContact newContact
  let t := t.setBucket index.toNat b
  match exitcode with
  | .succeed => return .ret 0 t
  | .full =>
    if t.K.toNat > 2 ∧ !b.keyInRange t.holderId then
      if index = asInt t.brotherBucketOfHolder then
        let (rc, t) ← t.forceKAcceptNewPeer clock newContact
        return .ret (if rc ≠ 0 then 2 else 0) t
      return .ret 2 t
    return .split index.toNat t
  | .fail => return .ret (-2) t

/-- The return code, the table and the unused pairs. -/
def addContact (clock : Digest × Digest) (newContact : Contact) :
    List Past → RoutingTable → Except Fault (Option (Int × RoutingTable × List Past))
  | pasts, t => do
    match ← t.addContactLevel clock newContact with
    | .ret code t => return some (code, t, pasts)
    | .split index t =>
      match pasts with
      | [] => return none
      | past :: pasts => addContact clock newContact pasts (← t.splitKbucket past index)

/-! ## `FindCloseNodes` -/

/-- mirrors src/src/kademlia/kadroutingtable.cpp:51-66 -/
def sortBucketsByDistance (t : RoutingTable) (key : KadID) : List UShort :=
  (Keyed.ofList Prod.fst (t.bucketUpperAddress.toList.map fun (u, i) => (u.xor key, i))).toList.map
    Prod.snd

/-- The return code and `*contacts` after the call. Mirrors
src/src/kademlia/kadroutingtable.cpp:68-81. -/
def sortContactsByDistance (key : KadID) (contacts : List Contact) : Int × List Contact :=
  let sorted :=
    (Keyed.ofList Prod.fst (contacts.map fun c => (c.nodeId.xor key, c))).toList.map Prod.snd
  (if sorted.length = contacts.length then 0 else -1, sorted)

/-- The `while (!full && …)` loop, entered with `full` false. -/
def pushContacts (count : Int) : List Contact → List Contact → Bool × List Contact
  | [], closeNodes => (false, closeNodes)
  | c :: contacts, closeNodes =>
    let closeNodes := closeNodes ++ [c]
    if count = closeNodes.length then (true, closeNodes) else pushContacts count contacts closeNodes

/-- The `for` loop over the other buckets. -/
def findInOthers (t : RoutingTable) (key : KadID) (count : Int) (excludeContacts : List Contact) :
    List UShort → List Contact → Except Fault (List Contact)
  | [], closeNodes => .ok closeNodes
  | index :: indices, closeNodes => do
    let b ← t.bucketAt index.toNat
    let (rc, contacts) := sortContactsByDistance key (b.getContacts t.K excludeContacts [])
    if rc ≠ 0 then findInOthers t key count excludeContacts indices closeNodes
    else
      match pushContacts count contacts closeNodes with
      | (true, closeNodes) => return closeNodes
      | (false, closeNodes) => findInOthers t key count excludeContacts indices closeNodes

/-- mirrors src/src/kademlia/kadroutingtable.cpp:170-195 -/
def findCloseNodes (t : RoutingTable) (key : KadID) (count : Int)
    (excludeContacts closeNodes : List Contact) : Except Fault (List Contact) := do
  let index := asInt (← t.kBucketIndex key)
  if index < 0 then return closeNodes
  let b ← t.bucketAt index.toNat
  let closeNodes := b.getContacts (.ofInt 16 count) excludeContacts closeNodes
  if count = closeNodes.length then return closeNodes
  findInOthers t key count excludeContacts ((t.sortBucketsByDistance key).drop 1) closeNodes

/-! ## The transition system -/

inductive Op
  | add (c : Contact) (clock : Digest × Digest) (pasts : List Past)
  | remove (id : KadID)
  | touch (id : KadID) (current : BitVec 32)
  | clear (minRange : Digest)

/-- `add` takes as many pairs as `AddContact` splits. -/
def step (t : RoutingTable) : Op → Option RoutingTable
  | .add c clock pasts =>
    match addContact clock c pasts t with
    | .ok (some (_, t', [])) => some t'
    | _ => none
  | .remove id => (t.removeContact id).toOption
  | .touch id current => (t.touchKBucket id current).toOption
  | .clear minRange => some (t.clear minRange)

def table : LTS RoutingTable Op :=
  LTS.ofFn (fun t => ∃ holderId rtK minRange, t = new holderId rtK minRange) step

/-! ## Small runs -/

/-- The contact with id `id` that is otherwise empty. -/
def contactAt (id : KadID) : Contact := { Contact.empty with nodeId := id }

/-- The digest that is the number `n`. -/
def digestOf (n : BitVec 32) : Digest := fun i => if i.val = 4 then n else 0

/-- A new table above the digest `n`, with the words of `KMaxID` written out so
that runs from it can be evaluated. -/
def fresh (holder : Ulong) (rtK : UShort) (n : BitVec 32) : RoutingTable where
  kBuckets := [.new (.ofDigest (digestOf n)) .kMaxIDWords rtK]
  bucketUpperAddress := Keyed.empty.insert (.kMaxIDWords, 0)
  holderId := ⟨Rossi.ofUlong holder⟩
  bucketOfHolder := 0
  brotherBucketOfHolder := -1
  addressSpaceUpperAddress := .kMaxIDWords
  K := rtK

theorem fresh_eq (holder : Ulong) (rtK : UShort) (n : BitVec 32) :
    new ⟨Rossi.ofUlong holder⟩ rtK (digestOf n) = fresh holder rtK n := by
  rw [new, KadID.kMaxID_eq, fresh]

/-- Adding `c` with `n` splits, and zero words past the end. -/
def addOp (c : Contact) (n : Nat) : Op := .add c (digestOf 0, digestOf 0) (List.replicate n (0, 0))

/-- The run that the operations make, if each is defined. -/
theorem run_fresh {holder : Ulong} {rtK : UShort} {n : BitVec 32} {ops : List Op}
    (h : (LTS.exec step (fresh holder rtK n) ops).isSome = true) :
    table.Run (new ⟨Rossi.ofUlong holder⟩ rtK (digestOf n))
      ((LTS.exec step (fresh holder rtK n) ops).get h)
      (LTS.last (fresh holder rtK n) ((LTS.exec step (fresh holder rtK n) ops).get h)) := by
  rw [fresh_eq]
  exact LTS.run_of_exec (Option.some_get h).symm

end RoutingTable
end Kadpeer.L3
