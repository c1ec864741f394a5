import Kadpeer.L3Table.Placement

/-!
# The order of a bucket

A bucket lists its contacts newest first: `AddContact` puts the contact in front, a split
reads the list from the back and pushes to the front of a half, and everything else only
takes contacts out. `Dated` keeps, beside the table, the number of the latest successful
`AddContact` of each id; `Recent` says that every bucket is in strictly decreasing order of
these numbers.

The order is lost in one way. When an id is also stored in a bucket that it is not routed
to (a split handed it to the right half, see `findable_counterexample`), `AddContact` dates
that stale contact anew and leaves it where it is. In front of its bucket it does no
harm; behind another contact it does (`KeepsOrder`).

* `recent_of_steps`: in every run whose `AddContact`s meet this condition every state is
  `Recent`, whatever the splits read past the end.
* `keepsOrder_of_findable`: in a table in which every contact is found the condition holds.
* `recent_counterexample`: the contact 1 in two buckets.
-/
namespace Kadpeer.L3.RoutingTable

open Kadpeer.Core Kadpeer.L1 Kadpeer.L2

/-! ## Dates -/

/-- The id of an `AddContact` that returns 0. -/
def accepted (t : RoutingTable) : Op → Option KadID
  | .add c clock pasts =>
    match addContact clock c pasts t with
    | .ok (some (code, _, _)) => if code = 0 then some c.nodeId else none
    | _ => none
  | _ => none

/-- The table, the number of calls so far, and of each id the number of the latest call
that added it. -/
structure Dated where
  table : RoutingTable
  now : Nat
  latest : KadID → Nat

namespace Dated

def note (latest : KadID → Nat) (now : Nat) : Option KadID → KadID → Nat
  | none, id' => latest id'
  | some id, id' => if id' = id then now else latest id'

def step (s : Dated) (op : Op) : Option Dated :=
  (RoutingTable.step s.table op).map fun t =>
    { table := t, now := s.now + 1, latest := note s.latest (s.now + 1) (s.table.accepted op) }

def start (t : RoutingTable) : Dated := { table := t, now := 0, latest := fun _ => 0 }

def runs : LTS Dated Op :=
  LTS.ofFn (fun s => ∃ holderId rtK minRange, s = start (new holderId rtK minRange)) step

structure Recent (s : Dated) : Prop where
  ok : ∀ b ∈ s.table.kBuckets, b.Ok ∧ b.K = s.table.K
  order : ∀ b ∈ s.table.kBuckets,
    b.contacts.Pairwise fun c d => s.latest d.nodeId < s.latest c.nodeId
  lastSeen : ∀ (u : UShort) b, s.table.kBuckets[u.toNat]? = some b → b.contacts ≠ [] →
    ∃ c ∈ b.contacts, s.table.getLastSeenContact u = .ok c ∧
      ∀ d ∈ b.contacts, d ≠ c → s.latest c.nodeId < s.latest d.nodeId
  full : ∀ b ∈ s.table.kBuckets, ∀ c, (b.addContact c).1 = .full → (b.addContact c).2 = b

end Dated

/-- Where the id is stored in another bucket than the one it is routed to, it is in
front. -/
def FrontElsewhere (t : RoutingTable) (id : KadID) : Prop :=
  ∀ j b, Accessed t id j b → ∀ k d, k ≠ j → t.kBuckets[k]? = some d →
    ∀ e ∈ d.contacts.tail, e.nodeId ≠ id

def KeepsOrder (t : RoutingTable) : Op → Prop
  | .add c _ _ => t.FrontElsewhere c.nodeId
  | .remove _ => True
  | .touch _ _ => True
  | .clear _ => True

/-- Newest first. -/
def Ordered (latest : KadID → Nat) (l : List Contact) : Prop :=
  l.Pairwise fun c d => latest d.nodeId < latest c.nodeId

variable {t t' : RoutingTable} {c : Contact} {clock : Digest × Digest} {id : KadID} {j : Nat}
  {b : KBucket} {latest : KadID → Nat} {now : Nat} {l : List Contact}

/-! ## One list -/

/-- A new date for an id that is at most in front. -/
theorem ordered_note (h : Ordered latest l) (hle : ∀ id', latest id' ≤ now)
    (hid : ∀ e ∈ l.tail, e.nodeId ≠ id) : Ordered (Dated.note latest (now + 1) (some id)) l := by
  cases l with
  | nil => exact .nil
  | cons c l =>
    obtain ⟨hc, hl⟩ := List.pairwise_cons.mp h
    rw [List.tail_cons] at hid
    have hold : ∀ e ∈ l, Dated.note latest (now + 1) (some id) e.nodeId = latest e.nodeId :=
      fun e he => if_neg (hid e he)
    refine List.pairwise_cons.mpr ⟨fun e he => ?_, hl.imp_of_mem fun hc hd h => ?_⟩
    · rw [hold e he]
      have := hc e he
      have := hle e.nodeId
      simp only [Dated.note]
      split <;> omega
    · rwa [hold _ hc, hold _ hd]

/-- The contact just added in front of others. -/
theorem ordered_cons (h : Ordered latest l) (hle : ∀ id', latest id' ≤ now)
    (hid : ∀ e ∈ l, e.nodeId ≠ c.nodeId) :
    Ordered (Dated.note latest (now + 1) (some c.nodeId)) (c :: l) := by
  have hl := ordered_note h hle fun e he => hid e (List.mem_of_mem_tail he)
  refine List.pairwise_cons.mpr ⟨fun e he => ?_, hl⟩
  have := hle e.nodeId
  simp only [Dated.note, if_neg (hid e he), if_true]
  omega

theorem Ordered.filter (h : Ordered latest l) (p : Contact → Bool) : Ordered latest (l.filter p) :=
  List.Pairwise.sublist List.filter_sublist h

/-- The last one is the oldest. -/
theorem ordered_getLast (h : Ordered latest l) (hne : l ≠ []) :
    ∃ c ∈ l, l.getLast? = some c ∧ ∀ d ∈ l, d ≠ c → latest c.nodeId < latest d.nodeId := by
  obtain ⟨l, c, rfl⟩ := (List.eq_nil_or_concat l).resolve_left hne
  rw [List.concat_eq_append] at *
  refine ⟨c, by simp, by simp, fun d hd hdc => ?_⟩
  have hlast := (List.pairwise_append.mp h).2.2
  rcases List.mem_append.mp hd with hd | hd
  · exact hlast d hd c (List.mem_singleton_self c)
  · exact absurd (List.mem_singleton.mp hd) hdc

/-! ## Splits -/

theorem ordered_splitAt (past : Past) (hget : t.kBuckets[j]? = some b)
    (h : ∀ b ∈ t.kBuckets, Ordered latest b.contacts) :
    ∀ d ∈ (t.splitAt past j b).kBuckets, Ordered latest d.contacts := by
  intro d hd
  have hb := h b (List.mem_of_getElem? hget)
  rcases mem_splitAt hd with rfl | rfl | hd
  · exact hb.filter _
  · exact hb.filter _
  · exact h d hd

/-- A bucket is split when it does not hold the id, and neither do its halves. -/
theorem frontElsewhere_splitAt (past : Past) (ha : Accessed t id j b) (hf : b.FullWithout id)
    (h : t.FrontElsewhere id) : (t.splitAt past j b).FrontElsewhere id := by
  have hj := (List.getElem?_eq_some_iff.mp ha.get).1
  intro k d _ p e _ he
  obtain ⟨hpj, he⟩ | ⟨-, rfl⟩ | ⟨-, rfl⟩ | ⟨hpj, he⟩ := splitAt_cases hj he
  · exact h j b ha p e (by omega) he
  · exact fun x hx hid => hf.2 ⟨x, (mem_leftHalf.mp (List.mem_of_mem_tail hx)).1, hid⟩
  · exact fun x hx hid => hf.2 ⟨x, (mem_rightHalf.mp (List.mem_of_mem_tail hx)).1, hid⟩
  · exact h j b ha (p - 1) e (by omega) he

/-! ## Other changes -/

/-- Of one bucket. -/
theorem ordered_setBucket {b' : KBucket} {latest' : KadID → Nat}
    (hb : Ordered latest' b'.contacts)
    (h : ∀ k d, k ≠ j → t.kBuckets[k]? = some d → Ordered latest' d.contacts) :
    ∀ d ∈ (t.setBucket j b').kBuckets, Ordered latest' d.contacts := by
  intro d hd
  obtain ⟨k, hk⟩ := List.getElem?_of_mem hd
  obtain ⟨-, rfl⟩ | ⟨hne, hk⟩ := setBucket_cases hk
  · exact hb
  · exact h k d hne hk

theorem ordered_setBucket_sublist {b' : KBucket} (hget : t.kBuckets[j]? = some b)
    (hsub : b'.contacts.Sublist b.contacts) (h : ∀ b ∈ t.kBuckets, Ordered latest b.contacts) :
    ∀ d ∈ (t.setBucket j b').kBuckets, Ordered latest d.contacts :=
  ordered_setBucket (List.Pairwise.sublist hsub (h b (List.mem_of_getElem? hget)))
    fun _ d _ hd => h d (List.mem_of_getElem? hd)

/-- The last activation stores the contact in front or changes nothing. -/
theorem ordered_level_ret (hB : Base t) (hfront : t.FrontElsewhere c.nodeId)
    (h : ∀ b ∈ t.kBuckets, Ordered latest b.contacts) (hle : ∀ id', latest id' ≤ now) {code : Int}
    (hl : t.addContactLevel clock c = .ok (.ret code t')) :
    ∀ b ∈ t'.kBuckets,
      Ordered (Dated.note latest (now + 1) (if code = 0 then some c.nodeId else none)) b.contacts := by
  rcases level_ret hB hl with ⟨hne, rfl⟩ | ⟨rfl, j, b, ha, hcase⟩
  · rw [if_neg hne]
    exact h
  · rw [if_pos rfl]
    have hb := h b (List.mem_of_getElem? ha.get)
    have hothers : ∀ k d, k ≠ j → t.kBuckets[k]? = some d →
        Ordered (Dated.note latest (now + 1) (some c.nodeId)) d.contacts := fun k d hk hd =>
      ordered_note (h d (List.mem_of_getElem? hd)) hle (hfront j b ha k d hk hd)
    rcases hcase with ⟨-, rfl⟩ | ⟨hf, -, -, victim, -, rfl⟩
    · refine ordered_setBucket (ordered_cons (hb.filter _) hle fun e he => ?_) hothers
      simpa using (List.mem_filter.mp he).2
    · refine ordered_setBucket (ordered_cons (hb.filter _) hle fun e he hid => ?_) hothers
      exact hf.2 ⟨e, (List.mem_filter.mp he).1, hid⟩

/-- In order, and each date is that of a call made. -/
structure Dated.Inv (s : Dated) : Prop where
  base : Base s.table
  order : ∀ b ∈ s.table.kBuckets, Ordered s.latest b.contacts
  latest_le : ∀ id, s.latest id ≤ s.now

theorem latest_note_le (hle : ∀ id', latest id' ≤ now) (id? : Option KadID) (id' : KadID) :
    Dated.note latest (now + 1) id? id' ≤ now + 1 := by
  have := hle id'
  cases id? with
  | none => exact Nat.le_succ_of_le this
  | some id =>
    simp only [Dated.note]
    split <;> omega

theorem accepted_add {pasts : List Past} {code : Int}
    (h : addContact clock c pasts t = .ok (some (code, t', []))) :
    t.accepted (.add c clock pasts) = if code = 0 then some c.nodeId else none := by
  simp only [accepted, h]

theorem ordered_step {op : Op} (hB : Base t) (hok : t.KeepsOrder op)
    (h : ∀ b ∈ t.kBuckets, Ordered latest b.contacts) (hle : ∀ id', latest id' ≤ now)
    (hst : RoutingTable.step t op = some t') :
    ∀ b ∈ t'.kBuckets, Ordered (Dated.note latest (now + 1) (t.accepted op)) b.contacts := by
  cases op with
  | add c clock pasts =>
    obtain ⟨code, hst⟩ := step_add hst
    obtain ⟨t₁, ⟨hB₁, ho₁, hf₁⟩, -, hret⟩ := addContact_last
      (I := fun t => Base t ∧ (∀ b ∈ t.kBuckets, Ordered latest b.contacts) ∧
        t.FrontElsewhere c.nodeId)
      (fun _ => True) (fun _ h => h.1)
      (fun t past j b h _ ha hf _ => ⟨base_splitAt h.1 past ha.get,
        ordered_splitAt past ha.get h.2.1, frontElsewhere_splitAt past ha hf h.2.2⟩)
      ⟨hB, h, hok⟩ (fun _ _ => trivial) hst
    rw [accepted_add hst]
    exact ordered_level_ret hB₁ hf₁ ho₁ hle hret
  | remove id =>
    obtain ⟨u, b, -, hb, rfl⟩ := removeContact_cases hB (step_remove hst)
    refine ordered_setBucket_sublist hb ?_ h
    rw [KBucket.removeContact_eq (hB.ok b (List.mem_of_getElem? hb)).1]
    exact List.filter_sublist
  | touch id current =>
    obtain ⟨u, b, -, hb, rfl⟩ := touchKBucket_cases hB (step_touch hst)
    exact ordered_setBucket_sublist hb (List.Sublist.refl _) h
  | clear minRange =>
    cases hst
    intro b hb
    rw [List.mem_singleton.mp hb]
    exact .nil

/-! ## Runs -/

namespace Dated

variable {s s' : Dated}

theorem step_cases {op : Op} (h : s.step op = some s') :
    ∃ t, RoutingTable.step s.table op = some t ∧
      s' = { table := t, now := s.now + 1,
             latest := note s.latest (s.now + 1) (s.table.accepted op) } := by
  rw [step, Option.map_eq_some_iff] at h
  obtain ⟨t, ht, rfl⟩ := h
  exact ⟨t, ht, rfl⟩

theorem inv_start (holderId : KadID) (rtK : UShort) (minRange : Digest) :
    Inv (start (new holderId rtK minRange)) where
  base := base_new holderId rtK minRange
  order := by
    intro b hb
    rw [List.mem_singleton.mp hb]
    exact .nil
  latest_le := fun _ => Nat.zero_le _

theorem inv_step {op : Op} (hI : Inv s) (hok : s.table.KeepsOrder op) (h : s.step op = some s') :
    Inv s' := by
  obtain ⟨t, ht, rfl⟩ := step_cases h
  exact ⟨base_step hI.base ht, ordered_step hI.base hok hI.order hI.latest_le ht,
    latest_note_le hI.latest_le _⟩

theorem getLastSeenContact_of_get {u : UShort} (hb : t.kBuckets[u.toNat]? = some b) :
    t.getLastSeenContact u = .ok b.lastSeenContact := by
  have hlt := (List.getElem?_eq_some_iff.mp hb).1
  unfold getLastSeenContact
  rw [if_neg (by omega), bucketAt_eq hb]
  rfl

theorem recent_of_inv (hI : Inv s) : Recent s where
  ok := hI.base.ok
  order := hI.order
  lastSeen := by
    intro u b hb hne
    obtain ⟨c, hc, hlast, hold⟩ := ordered_getLast (hI.order b (List.mem_of_getElem? hb)) hne
    refine ⟨c, hc, ?_, hold⟩
    rw [getLastSeenContact_of_get hb, KBucket.lastSeenContact, hlast, Option.getD_some]
  full := by
    intro b hb c hfull
    by_cases hf : b.FullWithout c.nodeId
    · rw [KBucket.addContact_full hf]
    · rw [KBucket.addContact_succeed (hI.base.ok b hb).1 hf] at hfull
      cases hfull

/-- **Newest first**, as long as no call dates a stale contact behind another one. -/
theorem recent_of_steps {holderId : KadID} {rtK : UShort} {minRange : Digest}
    {tr : List (Op × Dated)} (hr : runs.Run (start (new holderId rtK minRange)) tr s)
    (hok : LTS.Steps (fun s op => s.table.KeepsOrder op) (start (new holderId rtK minRange)) tr) :
    LTS.States Recent (start (new holderId rtK minRange)) tr :=
  LTS.states_of_steps (fun _ => recent_of_inv) (fun _ _ _ hI hop h => inv_step hI hop h) hr
    (inv_start holderId rtK minRange) hok

end Dated

/-- Where every contact is found, none is stale. -/
theorem keepsOrder_of_findable (hf : Findable t) (op : Op) : t.KeepsOrder op := by
  cases op with
  | add c clock pasts =>
    intro j b ha k d hk hd e he hid
    obtain ⟨u, hu, hpos⟩ := hf.index k d hd e (List.mem_of_mem_tail he)
    rw [hid, ha.index, Except.ok.injEq] at hu
    have hj := ha.lt
    rw [← hu, toNat_ofNat_position (by omega)] at hpos
    exact hk hpos.symm
  | remove id => trivial
  | touch id current => trivial
  | clear minRange => trivial

/-! ## One contact in two buckets -/

theorem run_dated {holder : Ulong} {rtK : UShort} {n : BitVec 32} {ops : List Op}
    (h : (LTS.exec Dated.step (.start (fresh holder rtK n)) ops).isSome = true) :
    Dated.runs.Run (.start (new ⟨Rossi.ofUlong holder⟩ rtK (digestOf n)))
      ((LTS.exec Dated.step (.start (fresh holder rtK n)) ops).get h)
      (LTS.last (.start (fresh holder rtK n))
        ((LTS.exec Dated.step (.start (fresh holder rtK n)) ops).get h)) := by
  rw [fresh_eq]
  exact LTS.run_of_exec (Option.some_get h).symm

theorem dated_addAbove_isSome :
    (LTS.exec Dated.step (.start (fresh 100 3 8)) addAbove).isSome = true := by decide +kernel

/-- An `AddContact` of an id that is not stored. -/
def AddsNew (t : RoutingTable) : Op → Prop
  | .add c _ _ => ∀ b ∈ t.kBuckets, ∀ e ∈ b.contacts, e.nodeId ≠ c.nodeId
  | .remove _ => False
  | .touch _ _ => False
  | .clear _ => False

instance (t : RoutingTable) : DecidablePred t.AddsNew
  | .add c _ _ => inferInstanceAs (Decidable (∀ b ∈ t.kBuckets, ∀ e ∈ b.contacts,
      e.nodeId ≠ c.nodeId))
  | .remove _ => instDecidableFalse
  | .touch _ _ => instDecidableFalse
  | .clear _ => instDecidableFalse

/-- No id is added twice. -/
theorem recent_addAbove :
    LTS.States Dated.Recent (.start (fresh 100 3 8))
      ((LTS.exec Dated.step (.start (fresh 100 3 8)) addAbove).get dated_addAbove_isSome) := by
  have hnew : LTS.Steps (fun s op => s.table.AddsNew op) (.start (fresh 100 3 8))
      ((LTS.exec Dated.step (.start (fresh 100 3 8)) addAbove).get dated_addAbove_isSome) := by
    decide +kernel
  have hsteps := Dated.recent_of_steps (run_dated dated_addAbove_isSome)
  rw [fresh_eq] at hsteps
  refine hsteps (hnew.mono fun s op h => ?_)
  cases op with
  | add c clock pasts =>
    exact fun j b _ k d _ hd e he => h d (List.mem_of_getElem? hd) e (List.mem_of_mem_tail he)
  | remove id => exact h.elim
  | touch id current => exact h.elim
  | clear minRange => exact h.elim

/-- The contact 1 of `addBelow` is in the right bucket, where one at the top is added in
front of it; then the left bucket gets room and the contact 1 is added once more. -/
def addStale : List Op :=
  addBelow ++ [addOp (contactAt .kMaxIDWords) 0, .remove ⟨Rossi.ofUlong 200⟩,
    addOp (contactAt ⟨Rossi.ofUlong 1⟩) 0]

theorem dated_addStale_isSome :
    (LTS.exec Dated.step (.start (fresh 100 3 8)) addStale).isSome = true := by decide +kernel

/-- An `AddContact` or a `RemoveContact`. -/
def AddOrRemove : Op → Prop
  | .add _ _ _ => True
  | .remove _ => True
  | .touch _ _ => False
  | .clear _ => False

instance : DecidablePred AddOrRemove
  | .add _ _ _ => instDecidableTrue
  | .remove _ => instDecidableTrue
  | .touch _ _ => instDecidableFalse
  | .clear _ => instDecidableFalse

/-- The last contact of the right bucket is the one added last. -/
theorem recent_counterexample : ¬ ∀ (holderId : KadID) (rtK : UShort) (minRange : Digest)
    (tr : List (Op × Dated)) (s : Dated),
    Dated.runs.Run (.start (new holderId rtK minRange)) tr s →
    LTS.Steps (fun _ op => AddOrRemove op) (.start (new holderId rtK minRange)) tr →
    s.Recent := by
  intro h
  have hrecent := h _ _ _ _ _ (run_dated dated_addStale_isSome) (by
    rw [fresh_eq]
    decide +kernel)
  have horder := hrecent.order
  revert horder
  decide +kernel

end Kadpeer.L3.RoutingTable
