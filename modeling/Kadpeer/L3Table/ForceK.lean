import Kadpeer.L3Table.LeastUseful

/-!
# Whom a forced acceptance evicts (`kademlia/kadroutingtable.cpp`)

`ForceKAcceptNewPeer` sorts the brother bucket by distance to the holder, holds the new
contact against the one in the `v`-th place (`v` is the room left in the holder's bucket)
and evicts the least useful one of those from there on.

* `forceK_ahead`: the call in the order of `compare_distance`.
* `evictsLeastUseful_iff`: the outcome is the one by distance exactly where the call is
  `Undisturbed`. For `v = 1` the contact in front can hide that the closest one refuses;
  for `v ≥ 2` it can push the one ranked `v - 1` into the place of the test and into the
  pool of those that may go; and it changes the sums of the ranks.
* `undisturbed_of_inPlace`: so it is where no contact comes to the front.
* `evictsLeastUseful_counterexample`: a contact that is in front only for its id
  makes the table refuse a contact it should take.
-/
namespace Kadpeer.L3.RoutingTable

open Kadpeer.Core Kadpeer.L1 Kadpeer.L2

/-- The room left in the bucket `own`. -/
def room (t : RoutingTable) (own : KBucket) : Nat := t.K.toNat - own.size

/-- The contacts of `b` ranked `v`-th and later by distance. -/
def evictable (t : RoutingTable) (own b : KBucket) : List Contact :=
  candidates (Closer t.holderId) b.contacts (t.room own)

/-- There is no room, or the contact ranked `v`-th is closer than `n`. -/
def Refuses (t : RoutingTable) (own b : KBucket) (n : Contact) : Prop :=
  t.room own = 0 ∨ Bars (Closer t.holderId) t.holderId b.contacts (t.room own) n

instance (t : RoutingTable) (own b : KBucket) (n : Contact) : Decidable (t.Refuses own b n) :=
  inferInstanceAs (Decidable (_ ∨ _))

/-- What a forced acceptance of `n` does: it is refused, or one contact of the
brother bucket `b` goes, of those ranked `v`-th and later the least useful. -/
structure EvictsLeastUseful (t : RoutingTable) (clock : Digest × Digest) (own b : KBucket)
    (n : Contact) : Prop where
  refused : t.Refuses own b n → ∃ rc, rc ≠ 0 ∧ t.forceKAcceptNewPeer clock n = .ok (rc, t)
  accepted : ¬ t.Refuses own b n → ∃ b' : KBucket, ∃ victim,
    LeastUseful (Closer t.holderId) (t.evictable own b) victim ∧
    t.forceKAcceptNewPeer clock n = .ok (0, t.setBucket t.brotherBucketOfHolder.toNat b') ∧
    b'.contacts = n :: b.contacts.filter (· ≠ victim) ∧
    ∀ c ∈ b.contacts, distanceRank (Closer t.holderId) b.contacts c < t.room own → c ∈ b'.contacts

/-- What the two `KadID()` must not change: the test against the contact ranked `v`-th, and
that each contact of the pool is outdone by one of the least useful of those ranked `v`-th and
later, or is one of these. -/
structure Undisturbed (t : RoutingTable) (clock : Digest × Digest) (own b : KBucket)
    (n : Contact) : Prop where
  refused : t.Refuses own b n → t.room own = 1 → ∀ c ∈ b.contacts,
    c.nodeId = .ofDigest clock.1 → Closer t.holderId c n
  taken : ¬ t.Refuses own b n → Displaces (.ofDigest clock.1) t.holderId b.contacts (t.room own) →
    ∀ c ∈ b.contacts, distanceRank (Closer t.holderId) b.contacts c + 1 = t.room own →
      ¬ Closer t.holderId c n
  evicted : ¬ t.Refuses own b n →
    ∀ d ∈ pool (.ofDigest clock.1) t.holderId b.contacts (t.room own),
      ¬ LeastUseful (Closer t.holderId) (t.evictable own b) d →
      ∃ c ∈ pool (.ofDigest clock.1) t.holderId b.contacts (t.room own),
        LeastUseful (Closer t.holderId) (t.evictable own b) c ∧
        Outdoes (.ofDigest clock.2) t.holderId
          (pool (.ofDigest clock.1) t.holderId b.contacts (t.room own)) c d

variable {t : RoutingTable} {own b b' : KBucket} {clock : Digest × Digest} {n c d : Contact}
  {holderId : KadID} {l : List Contact} {v : Nat} {R : Contact → Contact → Prop}

/-- What is left of the sorted bucket after `v - 1` contacts. -/
theorem perm_drop_candidates [DecidableRel R] [Std.Asymm R] (hl : l.Nodup) {s : List Contact}
    (hs : s.Pairwise R) (hperm : s.Perm l) (hv : 1 ≤ v) :
    (s.drop (v - 1)).Perm (candidates R l v) := by
  have hcand : (candidates R l v).Nodup := hl.filter _
  refine (List.perm_ext_iff_of_nodup ?_ hcand).mpr fun c => ?_
  · exact (hperm.nodup_iff.mpr hl).sublist (List.drop_sublist _ _)
  · rw [mem_drop_of_pairwise hs, hperm.mem_iff, mem_candidates, distanceRank, rank_perm hperm]
    exact and_congr_right fun _ => by omega

/-- The contact in front of what is left is the one ranked `v`-th. -/
theorem bars_iff_closer [DecidableRel R] [Std.Asymm R] {s : List Contact} (hs : s.Pairwise R)
    (hperm : s.Perm l) (hv : 1 ≤ v) {it : Contact} {rest : List Contact}
    (hdrop : s.drop (v - 1) = it :: rest) : Bars R holderId l v n ↔ Closer holderId it n := by
  have hit : s[v - 1]? = some it := by
    rw [← List.head?_drop, hdrop, List.head?_cons]
  constructor
  · rintro ⟨c, hc, hrank, hcloser⟩
    obtain ⟨i, hi⟩ := List.mem_iff_getElem?.mp (hperm.mem_iff.mpr hc)
    rw [distanceRank, ← rank_perm hperm, rank_of_pairwise hs hi] at hrank
    obtain rfl : i = v - 1 := by omega
    exact Option.some.inj (hi.symm.trans hit) ▸ hcloser
  · intro h
    refine ⟨it, hperm.mem_iff.mp (List.mem_of_getElem? hit), ?_, h⟩
    rw [distanceRank, ← rank_perm hperm, rank_of_pairwise hs hit]
    omega

/-- With distinct ids an eviction removes the victim and nobody else. -/
theorem contacts_evict {victim : Contact} (hids : (b.contacts.map Contact.nodeId).Nodup)
    (hvictim : victim ∈ b.contacts) :
    (b.evict victim.nodeId n).contacts = n :: b.contacts.filter (· ≠ victim) := by
  refine congrArg (n :: ·) (List.filter_congr fun c hc => ?_)
  have hinj : c.nodeId = victim.nodeId ↔ c = victim :=
    ⟨List.inj_on_of_nodup_map hids hc hvictim, congrArg Contact.nodeId⟩
  simp only [ne_eq, hinj]

/-- The table afterwards says who went. -/
theorem victim_eq {victim victim' : Contact} (hids : (b.contacts.map Contact.nodeId).Nodup)
    {j : Nat} (hget : t.kBuckets[j]? = some b) (hmem : victim ∈ b.contacts)
    (h : t.setBucket j (b.evict victim.nodeId n) = t.setBucket j b')
    (hb' : b'.contacts = n :: b.contacts.filter (· ≠ victim')) : victim = victim' := by
  have hj : j < t.kBuckets.length := (List.getElem?_eq_some_iff.mp hget).1
  have hbucket := congrArg (fun t : RoutingTable => t.kBuckets[j]?) h
  simp only [setBucket, List.getElem?_set_self hj, Option.some.injEq] at hbucket
  have hcontacts := contacts_evict (n := n) hids hmem
  rw [hbucket, hb', List.cons.injEq] at hcontacts
  by_contra hne
  have hin : victim ∈ b.contacts.filter (· ≠ victim') := List.mem_filter.mpr ⟨hmem, by simpa⟩
  rw [hcontacts.2] at hin
  simp at hin

section Room

variable (hown : t.kBuckets[t.bucketOfHolder.toNat]? = some own)
  (hbrother : t.kBuckets[t.brotherBucketOfHolder.toNat]? = some b) (hok : b.Ok) (hK : b.K = t.K)
  (hfull : b.contacts.length = t.K.toNat) (hroom : 1 ≤ t.room own)
include hown hbrother hok hK hfull hroom

/-- With room in the holder's bucket: the test against the contact ranked `v`-th, and
the eviction. -/
theorem forceK_of_room {it : Contact} {rest : List Contact}
    (hdrop : (sortBy (compareDistance (.ofDigest clock.1) t.holderId) b.contacts).drop
      (t.room own - 1) = it :: rest) :
    t.forceKAcceptNewPeer clock n =
      if Closer t.holderId it n then .ok (1, t)
      else match getLeastUsefulContact (.ofDigest clock.2) t.holderId (it :: rest) with
        | none => .ok (-1, t)
        | some victim => .ok (0, t.setBucket t.brotherBucketOfHolder.toNat
            ((b.removeContact victim.nodeId).addContact n).2) := by
  have hall : b.getContacts t.K [] [] = b.contacts := hK ▸ KBucket.getContacts_all hok
  have hv : (t.K.toNat : Int) - own.size = t.room own := by rw [room] at hroom ⊢; omega
  have hlen := (perm_sortBy (compareDistance (.ofDigest clock.1) t.holderId) b.contacts).length_eq
  have hle : t.room own ≤ t.K.toNat := Nat.sub_le _ _
  have hsub : ((t.room own : Int) - 1).toNat = t.room own - 1 := by omega
  unfold forceKAcceptNewPeer
  simp only [bucketAt_eq hown, bucketAt_eq hbrother, bind, Except.bind, hv, hall, hsub, hdrop]
  rw [if_neg (by omega), if_neg (by rw [hlen]; omega)]
  by_cases hcloser : Closer t.holderId it n
  · rw [if_pos hcloser, if_pos (show KadID.closerToTarget _ _ _ = true from hcloser)]
    rfl
  · rw [if_neg hcloser, if_neg (show ¬ KadID.closerToTarget _ _ _ = true from hcloser)]
    cases getLeastUsefulContact (.ofDigest clock.2) t.holderId (it :: rest) <;> rfl

/-- The call in its own order: it is barred, or the foremost contact of the pool goes. -/
theorem forceK_ahead (clock : Digest × Digest) (hnew : ¬ b.Holds n.nodeId) :
    (Bars (Ahead (.ofDigest clock.1) t.holderId) t.holderId b.contacts (t.room own) n →
      t.forceKAcceptNewPeer clock n = .ok (1, t)) ∧
    (¬ Bars (Ahead (.ofDigest clock.1) t.holderId) t.holderId b.contacts (t.room own) n →
      ∃ victim ∈ b.contacts, Foremost (Ahead (.ofDigest clock.2) t.holderId)
          (pool (.ofDigest clock.1) t.holderId b.contacts (t.room own)) victim ∧
        t.forceKAcceptNewPeer clock n =
          .ok (0, t.setBucket t.brotherBucketOfHolder.toNat (b.evict victim.nodeId n))) := by
  have hle : t.room own ≤ t.K.toNat := Nat.sub_le _ _
  have hsorted := pairwise_sortBy_distance (.ofDigest clock.1) t.holderId hok.nodup
  have hperm := perm_sortBy (compareDistance (.ofDigest clock.1) t.holderId) b.contacts
  cases hdrop : (sortBy (compareDistance (.ofDigest clock.1) t.holderId) b.contacts).drop
      (t.room own - 1) with
  | nil =>
    rw [List.drop_eq_nil_iff, hperm.length_eq, hfull] at hdrop
    omega
  | cons it rest =>
    rw [bars_iff_closer hsorted hperm hroom hdrop,
      forceK_of_room hown hbrother hok hK hfull hroom hdrop]
    refine ⟨fun h => if_pos h, fun h => ?_⟩
    have hcand := perm_drop_candidates (nodup_of_ids hok.nodup) hsorted hperm hroom
    rw [hdrop] at hcand
    have hids : ((it :: rest).map Contact.nodeId).Nodup :=
      (hcand.map _).nodup_iff.mpr (hok.nodup.sublist (List.filter_sublist.map _))
    obtain ⟨victim, hleast, hfore⟩ := getLeastUsefulContact_spec (.ofDigest clock.2)
      t.holderId hids (List.cons_ne_nil it rest)
    rw [foremost_perm hcand] at hfore
    have hmem : victim ∈ b.contacts := (mem_candidates.mp hfore.1).1
    rw [candidates_ahead hok.nodup hroom] at hfore
    refine ⟨victim, hmem, hfore, ?_⟩
    rw [if_neg h, hleast]
    simp only [KBucket.addContact_evict hok ⟨by rw [hfull, hK], hnew⟩ hmem]

theorem undisturbed_of_evicts (hnew : ¬ b.Holds n.nodeId) (h : t.EvictsLeastUseful clock own b n) :
    t.Undisturbed clock own b n := by
  have hle : t.room own ≤ b.contacts.length := hfull ▸ Nat.sub_le _ _
  obtain ⟨hbarred, hpassed⟩ := forceK_ahead hown hbrother hok hK hfull hroom clock hnew
  by_cases hR : t.Refuses own b n
  · have hbars := hR.resolve_left (Nat.ne_of_gt hroom)
    refine ⟨fun _ => (bars_ahead_of_bars hok.nodup hroom hle hbars).mp ?_, fun h' => absurd hR h',
      fun h' => absurd hR h'⟩
    by_contra hpass
    obtain ⟨rc, hrc, hcode⟩ := h.refused hR
    obtain ⟨victim, -, -, hcode'⟩ := hpassed hpass
    rw [hcode, Except.ok.injEq, Prod.mk.injEq] at hcode'
    exact hrc hcode'.1
  · obtain ⟨b', victim, hvictim, hcode, hcontacts, -⟩ := h.accepted hR
    have hpass : ¬ Bars (Ahead (.ofDigest clock.1) t.holderId) t.holderId b.contacts
        (t.room own) n := by
      intro hbars
      rw [hbarred hbars, Except.ok.injEq, Prod.mk.injEq] at hcode
      exact absurd hcode.1 (by decide)
    obtain ⟨victim', hmem, hfore, hcode'⟩ := hpassed hpass
    rw [hcode, Except.ok.injEq, Prod.mk.injEq] at hcode'
    obtain rfl := victim_eq hok.nodup hbrother hmem hcode'.2.symm hcontacts
    rw [bars_ahead_of_not hok.nodup hroom fun h => hR (.inr h)] at hpass
    have hids := nodup_pool hok.nodup (.ofDigest clock.1) t.holderId (t.room own)
    exact ⟨fun h' => absurd h' hR, fun _ hdis c hc hrank hcloser =>
      hpass ⟨hdis, c, hc, hrank, hcloser⟩, fun _ => (exists_foremost_iff hids _ _
        (List.ne_nil_of_mem hfore.1) _).mp ⟨_, hvictim, hfore⟩⟩

theorem evicts_of_undisturbed (hnew : ¬ b.Holds n.nodeId) (h : t.Undisturbed clock own b n) :
    t.EvictsLeastUseful clock own b n := by
  have hle : t.room own ≤ b.contacts.length := hfull ▸ Nat.sub_le _ _
  obtain ⟨hbarred, hpassed⟩ := forceK_ahead hown hbrother hok hK hfull hroom clock hnew
  by_cases hR : t.Refuses own b n
  · have hbars := (bars_ahead_of_bars hok.nodup hroom hle
      (hR.resolve_left (Nat.ne_of_gt hroom))).mpr (h.refused hR)
    exact ⟨fun _ => ⟨1, by decide, hbarred hbars⟩, fun h' => absurd hR h'⟩
  · have hpass : ¬ Bars (Ahead (.ofDigest clock.1) t.holderId) t.holderId b.contacts
        (t.room own) n := by
      rw [bars_ahead_of_not hok.nodup hroom fun h => hR (.inr h)]
      rintro ⟨hdis, c, hc, hrank, hcloser⟩
      exact h.taken hR hdis c hc hrank hcloser
    obtain ⟨victim, hmem, hfore, hcode⟩ := hpassed hpass
    have hids := nodup_pool hok.nodup (.ofDigest clock.1) t.holderId (t.room own)
    obtain ⟨c, hc, hfore'⟩ := (exists_foremost_iff hids (.ofDigest clock.2) _
      (List.ne_nil_of_mem hfore.1) _).mpr (h.evicted hR)
    obtain rfl := hfore'.unique hfore
    have hcontacts := contacts_evict (n := n) hok.nodup hmem
    refine ⟨fun h' => absurd h' hR, fun _ => ⟨_, c, hc, hcode, hcontacts, fun d hd hlt => ?_⟩⟩
    -- a contact ranked before `v` cannot be the victim
    rw [hcontacts]
    refine .tail _ (List.mem_filter.mpr ⟨hd, decide_eq_true ?_⟩)
    have hrank := (mem_candidates.mp hc.1).2
    rintro rfl
    omega

end Room

/-- The peer that goes is the right one exactly where the two `KadID()` change nothing. -/
theorem evictsLeastUseful_iff (clock : Digest × Digest)
    (hown : t.kBuckets[t.bucketOfHolder.toNat]? = some own) (hsize : own.size ≤ t.K.toNat)
    (hbrother : t.kBuckets[t.brotherBucketOfHolder.toNat]? = some b) (hK : b.K = t.K)
    (hfull : b.contacts.length = t.K.toNat) (hids : (b.contacts.map Contact.nodeId).Nodup)
    (hnew : ¬ b.Holds n.nodeId) :
    t.EvictsLeastUseful clock own b n ↔ t.Undisturbed clock own b n := by
  have hok : b.Ok := ⟨by rw [hfull, hK], hids⟩
  by_cases hroom : t.room own = 0
  · have hv : (t.K.toNat : Int) - own.size = 0 := by rw [room] at hroom; omega
    have hcode : t.forceKAcceptNewPeer clock n = .ok (1, t) := by
      simp [forceKAcceptNewPeer, bucketAt_eq hown, hv, bind, Except.bind, pure, Except.pure]
    have hrefuses : t.Refuses own b n := .inl hroom
    refine iff_of_true ⟨fun _ => ⟨1, by decide, hcode⟩, fun h => absurd hrefuses h⟩
      ⟨fun _ h => ?_, fun h => absurd hrefuses h, fun h => absurd hrefuses h⟩
    rw [hroom] at h
    exact absurd h (by decide)
  · have hv : 1 ≤ t.room own := Nat.one_le_iff_ne_zero.mpr hroom
    exact ⟨undisturbed_of_evicts hown hbrother hok hK hfull hv hnew,
      evicts_of_undisturbed hown hbrother hok hK hfull hv hnew⟩

/-! ## Where no contact is moved -/

/-- The first `KadID()` is no contact's id, or that of one ranked before `v` or the closest;
the second is no evictable contact's id, or that of the closest of them. -/
theorem undisturbed_of_inPlace (hids : (b.contacts.map Contact.nodeId).Nodup)
    (hlen : t.room own ≤ b.contacts.length)
    (hfirst : ∀ c ∈ b.contacts, c.nodeId = .ofDigest clock.1 →
      distanceRank (Closer t.holderId) b.contacts c < t.room own ∨
        distanceRank (Closer t.holderId) b.contacts c = 1)
    (hsecond : ∀ c ∈ t.evictable own b, c.nodeId = .ofDigest clock.2 →
      ∀ d ∈ t.evictable own b, d ≠ c → Closer t.holderId c d) :
    t.Undisturbed clock own b n := by
  have hdis : ¬ Displaces (.ofDigest clock.1) t.holderId b.contacts (t.room own) := by
    rintro ⟨htwo, c, hc, hid, hle⟩
    rcases hfirst c hc hid with hlt | hone <;> omega
  refine ⟨fun hR hone c hc hid => ?_, fun _ h => absurd h hdis, fun hR => ?_⟩
  · -- the contact in front is the one ranked first
    obtain ⟨d, hd, hrank, hcloser⟩ := hR.resolve_left (by omega)
    have hpos := distanceRank_pos (Closer t.holderId) b.contacts c
    have hc1 : distanceRank (Closer t.holderId) b.contacts c = 1 :=
      (hfirst c hc hid).resolve_left (by omega)
    exact eq_of_distanceRank_eq hids hc hd (hc1.trans (hone.symm.trans hrank.symm)) ▸ hcloser
  · have hv : 1 ≤ t.room own := Nat.one_le_iff_ne_zero.mpr fun h => hR (.inl h)
    have hpool : pool (.ofDigest clock.1) t.holderId b.contacts (t.room own) = t.evictable own b :=
      if_neg hdis
    have hne : t.evictable own b ≠ [] := by
      obtain ⟨c, hc, hrank⟩ := exists_distanceRank_ahead hids (.ofDigest clock.1)
        t.holderId hv hlen
      rw [← hpool, ← candidates_ahead hids hv]
      exact List.ne_nil_of_mem (mem_candidates.mpr ⟨hc, hrank.ge⟩)
    have hsub : ((t.evictable own b).map Contact.nodeId).Nodup :=
      hids.sublist (List.filter_sublist.map _)
    obtain ⟨c, -, hfore⟩ := getLeastUsefulContact_spec (.ofDigest clock.2) t.holderId hsub hne
    have hsum : ∀ d ∈ t.evictable own b,
        rankSum (Ahead (.ofDigest clock.2) t.holderId) (t.evictable own b) d =
          rankSum (Closer t.holderId) (t.evictable own b) d := fun d hd =>
      rankSum_congr fun e he => ahead_iff_closer hsecond he hd
    rw [hpool, ← exists_foremost_iff hsub (.ofDigest clock.2) t.holderId hne]
    refine ⟨c, ⟨hfore.1, fun d hd => ?_⟩, hfore⟩
    by_cases hdc : d = c
    · rw [hdc]
    · rw [← hsum d hd, ← hsum c hfore.1]
      exact (hfore.2 d hd hdc).elim Nat.le_of_lt fun h => h.1.le

/-! ## A holder in the upper half -/

/-- Like `fresh`, with a holder above the middle. -/
def freshUpper : RoutingTable := { fresh 0 3 8 with holderId := .kMaxIDWords }

/-- The ids 16, 20 and one in the upper half, then 24. -/
def addUnder : List Op :=
  [addOp (contactAt ⟨Rossi.ofUlong 16⟩) 0, addOp (contactAt ⟨Rossi.ofUlong 20⟩) 0,
    addOp (contactAt (topWord 60000 (by decide))) 0, addOp (contactAt ⟨Rossi.ofUlong 24⟩) 1]

theorem addUnder_isSome : (LTS.exec step freshUpper addUnder).isSome = true := by decide +kernel

/-- The brother bucket, the left one, holds 24, 20, 16, and the holder's has room for two. -/
def under : RoutingTable :=
  LTS.last freshUpper ((LTS.exec step freshUpper addUnder).get addUnder_isSome)

theorem reachable_under : table.Reachable under := by
  refine ⟨freshUpper, _, ⟨.kMaxIDWords, 3, digestOf 8, ?_⟩,
    LTS.run_of_exec (Option.some_get addUnder_isSome).symm⟩
  rw [freshUpper, ← fresh_eq]
  rfl

def ownUnder : KBucket := under.kBuckets.getD 1 (.new .kMinID .kMinID 0)

def brotherUnder : KBucket := under.kBuckets.getD 0 (.new .kMinID .kMinID 0)

theorem evictsLeastUseful_under : under.EvictsLeastUseful (digestOf 0, digestOf 0) ownUnder
    brotherUnder (contactAt ⟨Rossi.ofUlong 18⟩) :=
  (evictsLeastUseful_iff (digestOf 0, digestOf 0) (by decide +kernel) (by decide +kernel)
    (by decide +kernel) (by decide +kernel) (by decide +kernel) (by decide +kernel)
    (by decide +kernel)).mpr ⟨by decide +kernel, by decide +kernel, by decide +kernel⟩

/-- By distance the bucket reads 20, 16, 24, and 18 comes between 20 and 16. With `KadID()`
24 in the first sort it reads 24, 20, 16, so 18 is held against 20, not against 16. -/
theorem evictsLeastUseful_counterexample :
    ¬ ∀ (t : RoutingTable) (clock : Digest × Digest) (own b : KBucket) (n : Contact),
      table.Reachable t → t.kBuckets[t.bucketOfHolder.toNat]? = some own → own.size ≤ t.K.toNat →
      t.kBuckets[t.brotherBucketOfHolder.toNat]? = some b → b.K = t.K →
      b.contacts.length = t.K.toNat → (b.contacts.map Contact.nodeId).Nodup →
      ¬ b.Holds n.nodeId → t.EvictsLeastUseful clock own b n := by
  intro h
  have hspec := h under (digestOf 24, digestOf 0) ownUnder brotherUnder
    (contactAt ⟨Rossi.ofUlong 18⟩) reachable_under (by decide +kernel) (by decide +kernel)
    (by decide +kernel) (by decide +kernel) (by decide +kernel) (by decide +kernel)
    (by decide +kernel)
  have hrefused : under.forceKAcceptNewPeer (digestOf 24, digestOf 0)
      (contactAt ⟨Rossi.ofUlong 18⟩) = .ok (1, under) := by decide +kernel
  obtain ⟨b', victim, -, haccepted, -⟩ := hspec.accepted (by decide +kernel)
  have hcode := congrArg (Except.map Prod.fst) (hrefused.symm.trans haccepted)
  simp [Except.map] at hcode

end Kadpeer.L3.RoutingTable
