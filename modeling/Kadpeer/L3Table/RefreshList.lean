import Kadpeer.L3Table.Placement

/-!
# Which buckets are refreshed

`TouchKBucket` stores what `TTimer::current` reads, the seconds since the epoch.
`GetRefreshList` subtracts it from what `TTimer::system_time` reads, and a `TTimer` that is
not told otherwise reads the user time of the process there. Both are cut to 32 bits, so
the difference is that of two unrelated numbers modulo 2^32.

`Touched` keeps the real time of the last touch of each bucket; a bucket that comes from a
split was never touched. `RefreshesStale` is what the list is meant to be: an id for each
bucket whose last touch is more than an hour ago.

* `stamps_step`: the stored time is that of the last touch, cut to 32 bits, and 0 before
  the first one.
* `refreshesStale_iff`: the list is right exactly when each bucket `Agrees`, a relation
  between the two clocks and the last touch.
* `agrees_touched_iff`: with less user time than at any touch, a touched bucket agrees
  exactly when it is stale; a bucket just touched is always refreshed.
* `refreshesStale_counterexample`: a bucket touched 10 seconds ago.
-/
namespace Kadpeer.L3.RoutingTable

open Kadpeer.Core Kadpeer.L1 Kadpeer.L2

/-! ## Clocks -/

/-- mirrors src/src/kademlia/kademlia_config.h:17 -/
def kRefreshTime : Nat := 3600

/-- `static_cast<unsigned int>(timer.current())` at `time` seconds since the epoch.
Mirrors src/include/common/TTimer.hh:59-64. -/
def current (time : Nat) : BitVec 32 := .ofNat 32 time

/-- `static_cast<unsigned int>(timer.system_time())` of a `TTimer` of the default type
`USER_TIME`, at `userTime` whole seconds of user time. Mirrors
src/include/common/TTimer.hh:50 and src/src/common/TTimer.cpp:38-43. -/
def systemTime (userTime : Nat) : BitVec 32 := .ofNat 32 userTime

/-! ## `GetRefreshList` -/

/-- The buckets that get an id, with their positions. -/
def refreshed (t : RoutingTable) (startKbucket : UShort) (force : Bool) (currTime : BitVec 32) :
    List (KBucket × Nat) :=
  (t.kBuckets.zipIdx.drop startKbucket.toNat).filter fun x =>
    force || kRefreshTime < (currTime - x.1.lastAccessed).toNat

/-- `*ids` after the call; `past` is the word read past the end at each position. Mirrors
src/src/kademlia/kadroutingtable.cpp:197-206. -/
def getRefreshList (t : RoutingTable) (startKbucket : UShort) (force : Bool) (userTime : Nat)
    (past : Nat → Ulong) (ids : List KadID) : List KadID :=
  ids ++ (t.refreshed startKbucket force (systemTime userTime)).map fun x =>
    KadID.ofRange (past x.2) x.1.rangeMin x.1.rangeMax

/-! ## Last touches -/

/-- The table, the clock, and of each bucket the time of its last touch. -/
structure Touched where
  table : RoutingTable
  clock : Nat
  last : List (Option Nat)

/-- What is stored for a last touch. -/
def stamp : Option Nat → BitVec 32
  | none => 0
  | some time => current time

/-- Two new buckets in the place of one. -/
def splitLast (index : Nat) (last : List (Option Nat)) : List (Option Nat) :=
  last.take index ++ none :: none :: last.drop (index + 1)

/-- The last touches after `AddContact`, split by split. -/
def addLast (clock : Digest × Digest) (newContact : Contact) :
    List Past → RoutingTable → List (Option Nat) → List (Option Nat)
  | [], _, last => last
  | past :: pasts, t, last =>
    match t.addContactLevel clock newContact with
    | .ok (.split index t) =>
      match t.splitKbucket past index with
      | .ok t => addLast clock newContact pasts t (splitLast index last)
      | .error _ => last
    | _ => last

def lastAfter (t : RoutingTable) (time : Nat) (last : List (Option Nat)) :
    Op → List (Option Nat)
  | .add c clock pasts => addLast clock c pasts t last
  | .remove _ => last
  | .touch id _ =>
    match t.kBucketIndex id with
    | .ok u => last.set u.toNat (some time)
    | .error _ => last
  | .clear _ => [none]

/-- A touch stores what the clock reads. -/
def ReadsClock (time : Nat) : Op → Prop
  | .touch _ now => now = current time
  | _ => True

instance (time : Nat) : DecidablePred (ReadsClock time)
  | .add _ _ _ => instDecidableTrue
  | .remove _ => instDecidableTrue
  | .touch _ now => inferInstanceAs (Decidable (now = current time))
  | .clear _ => instDecidableTrue

namespace Touched

/-- An operation at a later or the same reading of the clock. -/
def step (s : Touched) (l : Nat × Op) : Option Touched :=
  if s.clock ≤ l.1 ∧ ReadsClock l.1 l.2 then
    (RoutingTable.step s.table l.2).map fun t =>
      { table := t, clock := l.1, last := lastAfter s.table l.1 s.last l.2 }
  else none

def runs : LTS Touched (Nat × Op) :=
  LTS.ofFn (fun s => ∃ holderId rtK minRange time,
    s = { table := new holderId rtK minRange, clock := time, last := [none] }) step

/-- Never touched, or more than an hour before `time`. -/
def Stale (time : Nat) : Option Nat → Prop
  | none => True
  | some touch => touch + kRefreshTime < time

instance (time : Nat) : DecidablePred (Stale time)
  | none => instDecidableTrue
  | some touch => inferInstanceAs (Decidable (touch + kRefreshTime < time))

/-- The stale buckets from `startKbucket` on, with their positions. -/
def staleBuckets (s : Touched) (startKbucket : UShort) (time : Nat) : List (KBucket × Nat) :=
  (s.table.kBuckets.zipIdx.drop startKbucket.toNat).filter fun x =>
    decide (∃ last ∈ s.last[x.2]?, Stale time last)

/-- Each stale bucket gets an id, and no other bucket. -/
structure RefreshesStale (s : Touched) (startKbucket : UShort) (time userTime : Nat) : Prop where
  buckets : s.table.refreshed startKbucket false (systemTime userTime) =
    s.staleBuckets startKbucket time
  list : ∀ past ids, s.table.getRefreshList startKbucket false userTime past ids =
    ids ++ (s.staleBuckets startKbucket time).map fun x =>
      KadID.ofRange (past x.2) x.1.rangeMin x.1.rangeMax

/-- Never touched and more than an hour of user time; or stale exactly when the user time
does not lie within an hour after the last touch, both modulo 2^32. -/
def Agrees (time userTime : Nat) : Option Nat → Prop
  | none => kRefreshTime < userTime % 2 ^ 32
  | some touch => touch + kRefreshTime < time ↔
      kRefreshTime < (2 ^ 32 - touch % 2 ^ 32 + userTime % 2 ^ 32) % 2 ^ 32

end Touched

variable {t t' : RoutingTable} {c : Contact} {clock : Digest × Digest} {id : KadID} {j : Nat}
  {b : KBucket} {last : List (Option Nat)}

/-! ## The stored times -/

/-- The stored times are those of the last touches. -/
def Stamped (t : RoutingTable) (last : List (Option Nat)) : Prop :=
  t.kBuckets.map (·.lastAccessed) = last.map stamp

theorem stamped_setBucket {b' : KBucket} (h : Stamped t last) (hget : t.kBuckets[j]? = some b)
    (hla : b'.lastAccessed = b.lastAccessed) : Stamped (t.setBucket j b') last := by
  rw [Stamped, ← h]
  refine List.ext_getElem? fun k => ?_
  rw [List.getElem?_map, List.getElem?_map, getElem?_map_setBucket hget hla]

theorem stamped_splitAt (past : Past) (h : Stamped t last) :
    Stamped (t.splitAt past j b) (splitLast j last) := by
  have hzero : ∀ b, (leftHalf past b).lastAccessed = 0 ∧ (rightHalf past b).lastAccessed = 0 :=
    fun _ => ⟨rfl, rfl⟩
  unfold Stamped at *
  simp only [splitAt, splitLast, List.map_append, List.map_cons, List.map_take, List.map_drop, h,
    (hzero b).1, (hzero b).2, stamp]

theorem stamped_level_ret (hB : Base t) (h : Stamped t last) {code : Int}
    (hl : t.addContactLevel clock c = .ok (.ret code t')) : Stamped t' last := by
  rcases level_ret hB hl with ⟨-, rfl⟩ | ⟨-, j, b, ha, ⟨-, rfl⟩ | ⟨-, -, -, victim, -, rfl⟩⟩
  · exact h
  · exact stamped_setBucket h ha.get rfl
  · exact stamped_setBucket h ha.get rfl

/-- By induction on the words past the end, one pair for each split. -/
theorem stamped_addContact {pasts : List Past} {code : Int} (hB : Base t) (h : Stamped t last)
    (hst : addContact clock c pasts t = .ok (some (code, t', []))) :
    Stamped t' (addLast clock c pasts t last) := by
  induction pasts generalizing t last with
  | nil =>
    obtain ⟨-, hl⟩ | ⟨past, pasts', j, s, b, hpasts, -⟩ := addContact_cases hB hst
    · exact stamped_level_ret hB h hl
    · cases hpasts
  | cons past pasts ih =>
    obtain ⟨hrest, -⟩ | ⟨past', pasts', j, s, b, hpasts, hl, ha, -, -, hsplit, hst⟩ :=
      addContact_cases hB hst
    · cases hrest
    · cases hpasts
      simp only [addLast, hl, hsplit]
      exact ih (base_splitAt hB past ha.get) (stamped_splitAt past h) hst

/-- The stored times follow the touches. -/
theorem stamps_step {op : Op} {time : Nat} (hB : Base t) (h : Stamped t last)
    (hclock : ReadsClock time op) (hst : step t op = some t') :
    Stamped t' (lastAfter t time last op) := by
  cases op with
  | add c clock pasts =>
    obtain ⟨code, hst⟩ := step_add hst
    exact stamped_addContact hB h hst
  | remove id =>
    obtain ⟨u, b, -, hb, rfl⟩ := removeContact_cases hB (step_remove hst)
    exact stamped_setBucket h hb rfl
  | touch id now =>
    obtain ⟨u, b, hu, -, rfl⟩ := touchKBucket_cases hB (step_touch hst)
    cases hclock
    unfold Stamped at *
    simp only [lastAfter, hu, setBucket, List.map_set, KBucket.setLastAccessed, h, stamp]
  | clear minRange =>
    cases hst
    rfl

namespace Touched

variable {s s' : Touched}

theorem step_cases {l : Nat × Op} (h : s.step l = some s') :
    ReadsClock l.1 l.2 ∧ ∃ t, RoutingTable.step s.table l.2 = some t ∧
      s' = { table := t, clock := l.1, last := lastAfter s.table l.1 s.last l.2 } := by
  unfold step at h
  split at h
  · rename_i hok
    obtain ⟨t, ht, rfl⟩ := Option.map_eq_some_iff.mp h
    exact ⟨hok.2, t, ht, rfl⟩
  · cases h

theorem stamped_inductive : runs.Inductive fun s => Base s.table ∧ Stamped s.table s.last where
  init := by
    rintro s ⟨holderId, rtK, minRange, time, rfl⟩
    exact ⟨base_new holderId rtK minRange, rfl⟩
  step := by
    intro s l s' hI h
    obtain ⟨hclock, t, ht, rfl⟩ := step_cases h
    exact ⟨base_step hI.1 ht, stamps_step hI.1 hI.2 hclock ht⟩

/-! ## The test of the loop -/

/-- The test on one bucket against what it should be. -/
theorem agrees_iff (time userTime : Nat) (last : Option Nat) :
    (kRefreshTime < (systemTime userTime - stamp last).toNat ↔ Stale time last) ↔
      Agrees time userTime last := by
  cases last with
  | none => simp [stamp, Stale, Agrees, systemTime]
  | some touch =>
    simp only [stamp, Stale, Agrees, systemTime, current, BitVec.toNat_sub, BitVec.toNat_ofNat]
    exact Iff.comm

theorem getElem?_stamped (h : Stamped s.table s.last) {i : Nat} {b : KBucket}
    (hb : s.table.kBuckets[i]? = some b) :
    ∃ last, s.last[i]? = some last ∧ b.lastAccessed = stamp last := by
  have hget := congrArg (·[i]?) h
  simp only [List.getElem?_map, hb, Option.map_some] at hget
  obtain ⟨last, hlast, heq⟩ := Option.map_eq_some_iff.mp hget.symm
  exact ⟨last, hlast, heq.symm⟩

/-- Equal sublists of a list without repetitions. -/
theorem filter_eq_iff {α : Type} {l : List α} {p q : α → Bool} :
    l.filter p = l.filter q ↔ ∀ x ∈ l, p x = q x := by
  refine ⟨fun h x hx => ?_, List.filter_congr⟩
  have hmem : (x ∈ l.filter p) ↔ x ∈ l.filter q := by rw [h]
  rw [List.mem_filter, List.mem_filter, and_iff_right hx, and_iff_right hx] at hmem
  exact Bool.eq_iff_iff.mpr hmem

theorem mem_zipIdx_drop {bs : List KBucket} {n : Nat} {x : KBucket × Nat} :
    x ∈ bs.zipIdx.drop n ↔ n ≤ x.2 ∧ bs[x.2]? = some x.1 := by
  rw [List.mem_iff_getElem?]
  simp only [List.getElem?_drop, List.getElem?_zipIdx]
  constructor
  · rintro ⟨k, hk⟩
    obtain ⟨b, hb, rfl⟩ := Option.map_eq_some_iff.mp hk
    exact ⟨by simp, by simpa using hb⟩
  · rintro ⟨hle, hb⟩
    refine ⟨x.2 - n, ?_⟩
    rw [Nat.add_sub_cancel' hle, hb]
    simp

/-- The same for a bucket of the table. -/
theorem test_iff (h : Stamped s.table s.last) {i : Nat} {b : KBucket}
    (hb : s.table.kBuckets[i]? = some b) {last : Option Nat} (hlast : s.last[i]? = some last)
    (time userTime : Nat) :
    ((false || decide (kRefreshTime < (systemTime userTime - b.lastAccessed).toNat)) =
      decide (∃ last ∈ s.last[i]?, Stale time last)) ↔ Agrees time userTime last := by
  obtain ⟨last', hlast', hstamp⟩ := getElem?_stamped h hb
  rw [hlast, Option.some.injEq] at hlast'
  subst hlast'
  rw [Bool.false_or, decide_eq_decide, hstamp, hlast, ← agrees_iff]
  simp

/-- **When the list is right**: the two clocks and the last touch of every bucket must
agree. -/
theorem refreshesStale_iff (hr : runs.Reachable s) (startKbucket : UShort) (time userTime : Nat) :
    RefreshesStale s startKbucket time userTime ↔
      ∀ i last, startKbucket.toNat ≤ i → s.last[i]? = some last → Agrees time userTime last := by
  have hst := (stamped_inductive.reachable hr).2
  have hlen : s.table.kBuckets.length = s.last.length := by
    have h := congrArg List.length hst
    rwa [List.length_map, List.length_map] at h
  have hiff : RefreshesStale s startKbucket time userTime ↔
      s.table.refreshed startKbucket false (systemTime userTime) =
        s.staleBuckets startKbucket time :=
    ⟨fun h => h.buckets, fun h => ⟨h, fun past ids => by rw [getRefreshList, h]⟩⟩
  rw [hiff, refreshed, staleBuckets, filter_eq_iff]
  constructor
  · intro h i last hi hlast
    have hlt := (List.getElem?_eq_some_iff.mp hlast).1
    obtain ⟨b, hb⟩ : ∃ b, s.table.kBuckets[i]? = some b :=
      ⟨_, List.getElem?_eq_getElem (hlen ▸ hlt)⟩
    exact (test_iff hst hb hlast time userTime).mp (h (b, i) (mem_zipIdx_drop.mpr ⟨hi, hb⟩))
  · intro h x hx
    obtain ⟨hi, hb⟩ := mem_zipIdx_drop.mp hx
    obtain ⟨last, hlast, -⟩ := getElem?_stamped hst hb
    exact (test_iff hst hb hlast time userTime).mpr (h x.2 last hi hlast)

/-- With less user time than there was real time at the touch, and no number near 2^32. -/
theorem agrees_touched_iff {time userTime touch : Nat} (huser : userTime < touch)
    (hlimit : touch + kRefreshTime < 2 ^ 32) :
    Agrees time userTime (some touch) ↔ Stale time (some touch) := by
  have hread : kRefreshTime < (2 ^ 32 - touch % 2 ^ 32 + userTime % 2 ^ 32) % 2 ^ 32 := by
    unfold kRefreshTime at *
    omega
  rw [Agrees, Stale]
  exact iff_true_right hread

/-! ## A touch in 2001 -/

def touchBillion : List (Nat × Op) := [(1000000000, .touch ⟨Rossi.ofUlong 9⟩ (current 1000000000))]

/-- The new table `fresh 5 3 8` at 0 seconds. -/
def freshTouched : Touched := { table := fresh 5 3 8, clock := 0, last := [none] }

theorem touchBillion_isSome : (LTS.exec step freshTouched touchBillion).isSome = true := by
  decide +kernel

/-- Its only bucket was touched after 10^9 seconds. -/
def touched : Touched :=
  LTS.last freshTouched ((LTS.exec step freshTouched touchBillion).get touchBillion_isSome)

theorem reachable_touched : runs.Reachable touched :=
  ⟨freshTouched, _, ⟨⟨Rossi.ofUlong 5⟩, 3, digestOf 8, 0, by rw [fresh_eq]; rfl⟩,
    LTS.run_of_exec (Option.some_get touchBillion_isSome).symm⟩

/-- Two hours later it is refreshed, and that is right. -/
theorem refreshesStale_touched : RefreshesStale touched 0 1000007200 5 := by
  refine (refreshesStale_iff reachable_touched 0 1000007200 5).mpr fun i last _ hlast => ?_
  have hall : touched.last = [some 1000000000] := by decide +kernel
  rw [hall, List.getElem?_singleton] at hlast
  split at hlast
  · cases hlast
    exact (agrees_touched_iff (by decide) (by decide)).mpr (by decide)
  · cases hlast

/-- Ten seconds later it is refreshed as well. -/
theorem refreshesStale_counterexample : ¬ ∀ (s : Touched) (startKbucket : UShort)
    (time userTime : Nat), runs.Reachable s → s.clock ≤ time → userTime < time →
    RefreshesStale s startKbucket time userTime := by
  intro h
  have hstale := h touched 0 1000000010 5 reachable_touched (by decide +kernel) (by decide)
  have hne : touched.table.refreshed 0 false (systemTime 5) ≠ touched.staleBuckets 0 1000000010 := by
    decide +kernel
  exact hne hstale.buckets

end Touched
end Kadpeer.L3.RoutingTable
