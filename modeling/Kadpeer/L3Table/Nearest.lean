import Kadpeer.Core.Rank
import Kadpeer.L3Table.FindClose

/-!
# When `FindCloseNodes` returns the nearest contacts

The contacts are never sorted as a whole: those of the key's own bucket are taken first,
then a bucket is met before another one when its upper end is nearer to the key, and
within a bucket the nearer contact comes first. The nearest bucket is passed over, as if
it were the own one. So the result has the nearest contacts when these lie in the buckets
in the same order (`Aligned`).

* `countP_result`: how many contacts are returned (`roomFor`), by the sizes of the buckets.
* `aligned_of_mem`, `mem_result_of_aligned`: the contacts nearest to the key are all
  returned exactly when they are `Aligned`.
* `nearest_iff`: when the result has the nearest contacts. If the own bucket is enough, its
  contacts have to be nearer than all others, in any table; else the nearest `roomFor`
  contacts have to be `Aligned`.
* `nearest_counterexample`: a key at the upper end of the left bucket and a contact above it.
-/
namespace Kadpeer.L3.RoutingTable

open Kadpeer.Core Kadpeer.L1 Kadpeer.L2

/-- Every contact returned is at least as near to the key as every other one that is
stored and not excluded. -/
def NearestReturned (t : RoutingTable) (key : KadID) (count : Nat)
    (excludeContacts : List Contact) : Prop :=
  ∃ closeNodes, t.findCloseNodes key count excludeContacts [] = .ok closeNodes ∧
    ∀ c ∈ closeNodes, ∀ d ∈ t.stored, (∀ e ∈ excludeContacts, d.nodeId ≠ e.nodeId) →
      d ∉ closeNodes → c.nodeId.xor key ≤ d.nodeId.xor key

/-- All contacts that are not excluded, the nearest to the key first. -/
def allNearestFirst (t : RoutingTable) (key : KadID) (excludeContacts : List Contact) :
    List Contact :=
  nearestFirst key (t.kBuckets.flatMap (free excludeContacts))

/-- How many contacts there is room for: those of the own bucket, of the buckets met before
its turn and of those after it. If it is not the nearest one, it takes as many places a
second time when its turn comes. -/
def roomFor (t : RoutingTable) (key : KadID) (count : Nat) (excludeContacts : List Contact)
    (own nearest : KBucket) : Nat :=
  let first := (free excludeContacts own).length
  let before := freeCount excludeContacts (t.kBuckets.filter fun b =>
    b ≠ nearest ∧ b.rangeMax.xor key < own.rangeMax.xor key)
  let again := if own = nearest then 0 else first
  let after := freeCount excludeContacts (t.kBuckets.filter fun b =>
    own.rangeMax.xor key < b.rangeMax.xor key)
  first + min (count - first) before + min (count - first - before - again) after

/-- The contacts `near` fill the own bucket, leave out the nearest one if it is another, and
fill the other buckets in the order of their upper ends. -/
structure Aligned (t : RoutingTable) (key : KadID) (excludeContacts : List Contact)
    (own nearest : KBucket) (near : List Contact) : Prop where
  filled : ∀ c ∈ free excludeContacts own, c ∈ near
  passed : own ≠ nearest → ∀ c ∈ free excludeContacts nearest, c ∉ near
  ends : ∀ b ∈ t.kBuckets, ∀ b' ∈ t.kBuckets, b ≠ nearest → b' ≠ own →
    b.rangeMax.xor key < b'.rangeMax.xor key → (∃ d ∈ free excludeContacts b', d ∈ near) →
    ∀ c ∈ free excludeContacts b, c ∈ near

/-- No contact outside the own bucket is nearer to the key than one in it. -/
def OwnNearest (t : RoutingTable) (key : KadID) (excludeContacts : List Contact)
    (own : KBucket) : Prop :=
  ∀ c ∈ free excludeContacts own, ∀ b ∈ t.kBuckets, ∀ d ∈ free excludeContacts b,
    d ∉ free excludeContacts own → c.nodeId.xor key ≤ d.nodeId.xor key

/-- The own bucket is enough and has the nearest contacts. Or it is not enough, and then no
two ends and no two ids are equal (`Distinct`), it is not cut by a `count` of more than 16
bits, and as many of the nearest contacts as there is room for are aligned. -/
def InOrder (t : RoutingTable) (key : KadID) (count : Nat) (excludeContacts : List Contact)
    (own nearest : KBucket) : Prop :=
  count ≤ (free excludeContacts own).length ∧ t.OwnNearest key excludeContacts own ∨
  (free excludeContacts own).length < count ∧ t.Distinct excludeContacts ∧
    (free excludeContacts own).length ≤ count % 65536 ∧ t.Aligned key excludeContacts own nearest
      ((t.allNearestFirst key excludeContacts).take (t.roomFor key count excludeContacts own nearest))

instance (t : RoutingTable) (key : KadID) (excludeContacts : List Contact)
    (own nearest : KBucket) (near : List Contact) :
    Decidable (t.Aligned key excludeContacts own nearest near) :=
  decidable_of_iff ((∀ c ∈ free excludeContacts own, c ∈ near) ∧
    (own ≠ nearest → ∀ c ∈ free excludeContacts nearest, c ∉ near) ∧
    ∀ b ∈ t.kBuckets, ∀ b' ∈ t.kBuckets, b ≠ nearest → b' ≠ own →
      b.rangeMax.xor key < b'.rangeMax.xor key → (∃ d ∈ free excludeContacts b', d ∈ near) →
      ∀ c ∈ free excludeContacts b, c ∈ near)
    ⟨fun h => ⟨h.1, h.2.1, h.2.2⟩, fun h => ⟨h.1, h.2, h.3⟩⟩

instance (t : RoutingTable) (key : KadID) (excludeContacts : List Contact) (own : KBucket) :
    Decidable (t.OwnNearest key excludeContacts own) :=
  inferInstanceAs (Decidable (∀ c ∈ free excludeContacts own, ∀ b ∈ t.kBuckets,
    ∀ d ∈ free excludeContacts b, d ∉ free excludeContacts own →
      c.nodeId.xor key ≤ d.nodeId.xor key))

instance (t : RoutingTable) (key : KadID) (count : Nat) (excludeContacts : List Contact)
    (own nearest : KBucket) : Decidable (t.InOrder key count excludeContacts own nearest) :=
  inferInstanceAs (Decidable (_ ∧ _ ∨ _ ∧ _ ∧ _ ∧ _))

variable {t : RoutingTable} {key : KadID} {excludeContacts near : List Contact}
  {b b' own nearest : KBucket} {rest : List KBucket} {c d : Contact} {count n : Nat} {u : UShort}

/-! ## Places -/

/-- How many contacts the loop meets before `c` of the bucket `b`: those of the buckets with
a nearer upper end, but for the nearest one, and the nearer ones of `b`. -/
def place (t : RoutingTable) (key : KadID) (excludeContacts : List Contact) (nearest b : KBucket)
    (c : Contact) : Nat :=
  freeCount excludeContacts (t.kBuckets.filter fun b' =>
    b' ≠ nearest ∧ b'.rangeMax.xor key < b.rangeMax.xor key) +
  ((free excludeContacts b).filter fun d => d.nodeId.xor key < c.nodeId.xor key).length

/-- The buckets that are met before `b`. -/
theorem filter_nearer {pre post : List KBucket}
    (hs : (nearest :: (pre ++ b :: post)).Pairwise fun b b' =>
      b.rangeMax.xor key < b'.rangeMax.xor key) :
    (nearest :: (pre ++ b :: post)).filter
      (fun b' => b' ≠ nearest ∧ b'.rangeMax.xor key < b.rangeMax.xor key) = pre := by
  obtain ⟨hfirst, hs⟩ := List.pairwise_cons.mp hs
  obtain ⟨-, hpost, hpre⟩ := List.pairwise_append.mp hs
  have hpost' := (List.pairwise_cons.mp hpost).1
  rw [List.filter_cons_of_neg (by simp), List.filter_append, List.filter_cons_of_neg (by simp),
    List.filter_eq_self.mpr, List.filter_eq_nil_iff.mpr, List.append_nil]
  · exact fun d hd => by simpa using fun _ => (hpost' d hd).le
  · intro d hd
    have hne : d ≠ nearest := by
      rintro rfl
      exact lt_irrefl _ (hfirst d (List.mem_append_left _ hd))
    simpa using ⟨hne, hpre d hd b List.mem_cons_self⟩

/-- What is met before a bucket. -/
theorem before_of_mem (hd : Distinct t excludeContacts) {pre post : List KBucket}
    (hD : t.byDistance key = nearest :: (pre ++ b :: post)) (hb' : b' ∈ pre) :
    b' ∈ t.kBuckets ∧ b' ≠ nearest ∧ b'.rangeMax.xor key < b.rangeMax.xor key := by
  have hperm := perm_of_byDistance hd hD
  have hsorted := sorted_of_byDistance hD
  obtain ⟨hfirst, hs⟩ := List.pairwise_cons.mp hsorted
  obtain ⟨-, -, hpre⟩ := List.pairwise_append.mp hs
  refine ⟨hperm.mem_iff.mp (by simp [hb']), ?_, hpre b' hb' b List.mem_cons_self⟩
  rintro rfl
  exact lt_irrefl _ (hfirst b' (List.mem_append_left _ hb'))

/-- The contacts met before `c`, if its bucket is not passed over. -/
theorem place_eq (hd : Distinct t excludeContacts) {pre post : List KBucket}
    (hD : t.byDistance key = nearest :: (pre ++ b :: post)) (c : Contact) :
    t.place key excludeContacts nearest b c = freeCount excludeContacts pre +
      ((free excludeContacts b).filter fun d => d.nodeId.xor key < c.nodeId.xor key).length := by
  have hperm := perm_of_byDistance hd hD
  have hsorted := sorted_of_byDistance hD
  unfold place
  rw [← freeCount_perm (hperm.filter _), filter_nearer hsorted]

/-- The contact itself is not nearer. -/
theorem length_nearer_lt (key : KadID) (hc : c ∈ free excludeContacts b) :
    ((free excludeContacts b).filter fun d => d.nodeId.xor key < c.nodeId.xor key).length <
      (free excludeContacts b).length :=
  List.length_filter_lt_length_iff_exists.mpr ⟨c, hc, by simp⟩

/-- A contact of one bucket is in no other one. -/
theorem not_mem_others (hd : Distinct t excludeContacts) (pre : List KBucket) {post : List KBucket}
    (hperm : (pre ++ b :: post).Perm t.kBuckets) (hc : c ∈ free excludeContacts b) :
    c ∉ pre.flatMap (free excludeContacts) ∧ c ∉ post.flatMap (free excludeContacts) := by
  have hnd := nodup_found hd hperm.subperm
  rw [List.flatMap_append, List.flatMap_cons, List.map_append, List.map_append, List.nodup_append,
    List.nodup_append] at hnd
  obtain ⟨-, ⟨-, -, hpost⟩, hpre⟩ := hnd
  have hid := List.mem_map_of_mem (f := Contact.nodeId) hc
  constructor
  · exact fun h => hpre _ (List.mem_map_of_mem h) _ (List.mem_append_left _ hid) rfl
  · exact fun h => hpost _ hid _ (List.mem_map_of_mem h) rfl

/-- What the loop takes: the buckets in order, each of them sorted. -/
theorem mem_take_rest (hB : Base t) (hd : Distinct t excludeContacts)
    (hD : t.byDistance key = nearest :: rest)
    (hb : b ∈ t.kBuckets) (hc : c ∈ free excludeContacts b) (n : Nat) :
    c ∈ (rest.flatMap fun b => nearestFirst key (free excludeContacts b)).take n ↔
      b ≠ nearest ∧ t.place key excludeContacts nearest b c < n := by
  have hperm := perm_of_byDistance hd hD
  have hmem : ∀ d ∈ rest, d ∈ t.kBuckets := fun d hd =>
    hperm.mem_iff.mp (List.mem_cons_of_mem _ hd)
  by_cases hsame : b = nearest
  · -- passed over
    subst hsame
    have hrest := perm_found hB key excludeContacts hmem
    obtain ⟨-, hnot⟩ := not_mem_others hd [] hperm hc
    refine iff_of_false (fun h => hnot (hrest.mem_iff.mp (List.mem_of_mem_take h))) ?_
    exact fun h => h.1 rfl
  · have hin : b ∈ rest := (List.mem_cons.mp (hperm.mem_iff.mpr hb)).resolve_left hsame
    obtain ⟨pre, post, rfl⟩ := List.append_of_mem hin
    have hpre := perm_found hB key excludeContacts fun d hd => hmem d (List.mem_append_left _ hd)
    have hpost := perm_found hB key excludeContacts fun d hd =>
      hmem d (List.mem_append_right _ (List.mem_cons_of_mem _ hd))
    obtain ⟨hnotPre, hnotPost⟩ := not_mem_others hd (nearest :: pre) hperm hc
    rw [List.flatMap_cons, List.mem_append, not_or] at hnotPre
    have hself : (nearestFirst key (free excludeContacts b)).Perm (free excludeContacts b) :=
      perm_nearestFirst key (nodup_free (hB.ok b hb).1)
    have hrank : c ∈ (nearestFirst key (free excludeContacts b)).take
        (n - freeCount excludeContacts pre) ↔
        ((nearestFirst key (free excludeContacts b)).filter fun d =>
          d.nodeId.xor key < c.nodeId.xor key).length < n - freeCount excludeContacts pre :=
      Keyed.mem_take_of_sorted (Keyed.sorted _) (hself.mem_iff.mpr hc) _
    rw [(hself.filter _).length_eq] at hrank
    rw [place_eq hd hD, List.flatMap_append, List.flatMap_cons, List.take_append,
      List.take_append, List.mem_append, List.mem_append, hpre.length_eq, ← freeCount]
    constructor
    · rintro (h | h | h)
      · exact absurd (hpre.mem_iff.mp (List.mem_of_mem_take h)) hnotPre.2
      · have := hrank.mp h
        exact ⟨hsame, by omega⟩
      · exact absurd (hpost.mem_iff.mp (List.mem_of_mem_take h)) hnotPost
    · intro h
      exact .inr (.inl (hrank.mpr (by omega)))

/-- A contact of a bucket with a nearer end comes before. -/
theorem place_lt_of_bucket (hdist : Distinct t excludeContacts)
    (hD : t.byDistance key = nearest :: rest)
    (hb : b' ∈ t.kBuckets) (hne : b' ≠ nearest) (hd : d ∈ free excludeContacts b')
    (h : b'.rangeMax.xor key < b.rangeMax.xor key) (c : Contact) :
    t.place key excludeContacts nearest b' d < t.place key excludeContacts nearest b c := by
  have hperm := perm_of_byDistance hdist hD
  have hin : b' ∈ rest := (List.mem_cons.mp (hperm.mem_iff.mpr hb)).resolve_left hne
  obtain ⟨pre, post, rfl⟩ := List.append_of_mem hin
  -- the buckets before `b` are those before `b'`, `b'` itself, and some after it
  have hbefore : (nearest :: (pre ++ b' :: post)).filter
      (fun e => e ≠ nearest ∧ e.rangeMax.xor key < b.rangeMax.xor key) =
      pre ++ b' :: post.filter fun e => e ≠ nearest ∧ e.rangeMax.xor key < b.rangeMax.xor key := by
    rw [List.filter_cons_of_neg (by simp), List.filter_append,
      List.filter_cons_of_pos (by simpa using ⟨hne, h⟩), List.filter_eq_self.mpr]
    intro e he
    obtain ⟨-, hother, hlt⟩ := before_of_mem hdist hD he
    simpa using ⟨hother, hlt.trans h⟩
  have hrank := length_nearer_lt key hd
  rw [place_eq hdist hD]
  unfold place
  rw [← freeCount_perm (hperm.filter _), hbefore]
  simp only [freeCount, List.flatMap_append, List.flatMap_cons, List.length_append]
  omega

/-! ## All contacts by distance -/

theorem perm_allNearestFirst (key : KadID) (hd : Distinct t excludeContacts) :
    (t.allNearestFirst key excludeContacts).Perm (t.kBuckets.flatMap (free excludeContacts)) :=
  perm_nearestFirst key (nodup_found hd (List.Subperm.refl _))

theorem mem_allNearestFirst (hd : Distinct t excludeContacts) :
    c ∈ t.allNearestFirst key excludeContacts ↔ ∃ b ∈ t.kBuckets, c ∈ free excludeContacts b := by
  rw [(perm_allNearestFirst key hd).mem_iff, List.mem_flatMap]

theorem sorted_allNearestFirst (t : RoutingTable) (key : KadID) (excludeContacts : List Contact) :
    (t.allNearestFirst key excludeContacts).Pairwise fun c d =>
      c.nodeId.xor key < d.nodeId.xor key := Keyed.sorted _

theorem nodup_allNearestFirst (t : RoutingTable) (key : KadID) (excludeContacts : List Contact) :
    (t.allNearestFirst key excludeContacts).Nodup := by
  refine (sorted_allNearestFirst t key excludeContacts).imp ?_
  rintro c _ h rfl
  exact lt_irrefl _ h

/-- What is nearer than one of the first `n` is one of them. -/
theorem mem_take_of_lt (hc : c ∈ (t.allNearestFirst key excludeContacts).take n)
    (hd : d ∈ t.allNearestFirst key excludeContacts) (h : d.nodeId.xor key < c.nodeId.xor key) :
    d ∈ (t.allNearestFirst key excludeContacts).take n := by
  have hsorted := sorted_allNearestFirst t key excludeContacts
  rw [← List.take_append_drop n (t.allNearestFirst key excludeContacts)] at hsorted hd
  refine (List.mem_append.mp hd).resolve_right fun hdrop => ?_
  exact lt_asymm h ((List.pairwise_append.mp hsorted).2.2 c hc d hdrop)

/-- The result has the nearest contacts if it has as many of them as it has contacts. -/
theorem nearestReturned_iff (hd : Distinct t excludeContacts) {closeNodes : List Contact}
    (hres : t.findCloseNodes key count excludeContacts [] = .ok closeNodes)
    (hfree : ∀ c ∈ closeNodes, ∃ b ∈ t.kBuckets, c ∈ free excludeContacts b) :
    t.NearestReturned key count excludeContacts ↔
      ∀ c ∈ (t.allNearestFirst key excludeContacts).take
        ((t.allNearestFirst key excludeContacts).countP (· ∈ closeNodes)), c ∈ closeNodes := by
  have : Std.Asymm fun c d : Contact => c.nodeId.xor key < d.nodeId.xor key :=
    ⟨fun _ _ h => lt_asymm h⟩
  rw [← lowest_iff (sorted_allNearestFirst t key excludeContacts)]
  constructor
  · rintro ⟨_, hres', hnear⟩ c hc hin d hdm hnot
    rw [hres, Except.ok.injEq] at hres'
    subst hres'
    obtain ⟨b, hb, hdb⟩ := (mem_allNearestFirst hd).mp hdm
    have hle := hnear c hin d (List.mem_flatMap.mpr ⟨b, hb, (mem_free.mp hdb).1⟩)
      (mem_free.mp hdb).2 hnot
    refine lt_of_le_of_ne hle fun he => hnot ?_
    have hinj := List.inj_on_of_nodup_map
      (nodup_distances key (nodup_found hd (List.Subperm.refl _)))
    have hperm := perm_allNearestFirst key hd
    rwa [← hinj (hperm.mem_iff.mp hc) (hperm.mem_iff.mp hdm) he]
  · intro h
    refine ⟨closeNodes, hres, fun c hc d hstored hdf hnot => ?_⟩
    obtain ⟨b, hb, hdb⟩ := List.mem_flatMap.mp hstored
    have hdm : d ∈ t.allNearestFirst key excludeContacts :=
      (mem_allNearestFirst hd).mpr ⟨b, hb, mem_free.mpr ⟨hdb, hdf⟩⟩
    exact (h c ((mem_allNearestFirst hd).mpr (hfree c hc)) hc d hdm hnot).le

/-! ## The result -/

/-- The own bucket, and what the loop meets until the list is full. -/
def collected (t : RoutingTable) (key : KadID) (count : Nat) (excludeContacts : List Contact)
    (own : KBucket) : List Contact :=
  free excludeContacts own ++ ((t.byDistance key).tail.flatMap fun b =>
    nearestFirst key (free excludeContacts b)).take (count - (free excludeContacts own).length)

theorem findCloseNodes_of_fits (hB : Base t) (hd : Distinct t excludeContacts)
    (hu : t.kBucketIndex key = .ok u)
    (hown : t.kBuckets[u.toNat]? = some own)
    (hfits : (free excludeContacts own).length ≤ count % 65536) :
    t.findCloseNodes key count excludeContacts [] =
      .ok (t.collected key count excludeContacts own) := by
  have hle := hfits.trans (Nat.mod_le count 65536)
  rw [findCloseNodes_eq hB hd hu hown, List.take_of_length_le hfits, List.take_append,
    List.take_of_length_le hle, collected]

theorem bucket_of_collected (hB : Base t) (hd : Distinct t excludeContacts)
    (hown : own ∈ t.kBuckets) :
    ∀ c ∈ t.collected key count excludeContacts own,
      ∃ b ∈ t.kBuckets, c ∈ free excludeContacts b := by
  intro c hc
  have htail : ∀ b ∈ (t.byDistance key).tail, b ∈ t.kBuckets := fun b hb =>
    (perm_byDistance key hd).mem_iff.mp (List.mem_of_mem_tail hb)
  refine bucket_of_found hB key excludeContacts hown htail c ?_
  rcases List.mem_append.mp hc with h | h
  · exact List.mem_append_left _ h
  · exact List.mem_append_right _ (List.mem_of_mem_take h)

theorem mem_collected (hB : Base t) (hd : Distinct t excludeContacts)
    (hD : t.byDistance key = nearest :: rest)
    (hb : b ∈ t.kBuckets) (hc : c ∈ free excludeContacts b) :
    c ∈ t.collected key count excludeContacts own ↔ c ∈ free excludeContacts own ∨
      b ≠ nearest ∧ t.place key excludeContacts nearest b c <
        count - (free excludeContacts own).length := by
  rw [collected, hD, List.tail_cons, List.mem_append, mem_take_rest hB hd hD hb hc]

/-! ## How many there is room for -/

/-- The buckets that are met after `b`. -/
theorem filter_farther (pre : List KBucket) {post : List KBucket}
    (hs : (pre ++ b :: post).Pairwise fun b b' => b.rangeMax.xor key < b'.rangeMax.xor key) :
    (pre ++ b :: post).filter (fun b' => b.rangeMax.xor key < b'.rangeMax.xor key) = post := by
  obtain ⟨-, hpost, hpre⟩ := List.pairwise_append.mp hs
  have hpost' := (List.pairwise_cons.mp hpost).1
  rw [List.filter_append, List.filter_eq_nil_iff.mpr, List.filter_cons_of_neg (by simp),
    List.filter_eq_self.mpr, List.nil_append]
  · exact fun d hd => by simpa using hpost' d hd
  · exact fun d hd => by simpa using (hpre d hd b List.mem_cons_self).le

/-- The own bucket is the nearest one: all others are met after it. -/
theorem roomFor_of_nearest (hd : Distinct t excludeContacts) (hD : t.byDistance key = own :: rest) :
    t.roomFor key count excludeContacts own own = (free excludeContacts own).length +
      min (count - (free excludeContacts own).length) (freeCount excludeContacts rest) := by
  have hperm := perm_of_byDistance hd hD
  have hsorted := sorted_of_byDistance hD
  have hbefore : (own :: rest).filter
      (fun b => b ≠ own ∧ b.rangeMax.xor key < own.rangeMax.xor key) = [] := by
    refine List.filter_eq_nil_iff.mpr fun b hb => ?_
    rcases List.mem_cons.mp hb with rfl | hb
    · simp
    · simpa using fun _ => ((List.pairwise_cons.mp hsorted).1 b hb).le
  have hafter := filter_farther [] hsorted
  rw [List.nil_append] at hafter
  unfold roomFor
  rw [← freeCount_perm (hperm.filter _), ← freeCount_perm (hperm.filter _), hbefore, hafter]
  simp [freeCount]

/-- The own bucket is another one, and met a second time. -/
theorem roomFor_of_later (hd : Distinct t excludeContacts) {pre post : List KBucket}
    (hD : t.byDistance key = nearest :: (pre ++ own :: post)) (hne : own ≠ nearest) :
    t.roomFor key count excludeContacts own nearest = (free excludeContacts own).length +
      min (count - (free excludeContacts own).length) (freeCount excludeContacts pre) +
      min (count - (free excludeContacts own).length - freeCount excludeContacts pre -
        (free excludeContacts own).length) (freeCount excludeContacts post) := by
  have hperm := perm_of_byDistance hd hD
  have hsorted := sorted_of_byDistance hD
  have hafter := filter_farther (nearest :: pre) hsorted
  rw [List.cons_append] at hafter
  simp only [roomFor, if_neg hne]
  rw [← freeCount_perm (hperm.filter _), ← freeCount_perm (hperm.filter _), filter_nearer hsorted,
    hafter]

/-- The own bucket is the nearest one: nothing is returned twice. -/
theorem nodup_collected (hB : Base t) (hd : Distinct t excludeContacts)
    (hD : t.byDistance key = own :: rest) :
    (t.collected key count excludeContacts own).Nodup := by
  have hperm := perm_of_byDistance hd hD
  have hrest := perm_found hB key excludeContacts fun b hb =>
    hperm.mem_iff.mp (List.mem_cons_of_mem own hb)
  rw [collected, hD, List.tail_cons]
  refine List.Nodup.sublist ((List.take_sublist _ _).append_left _) ?_
  rw [(hrest.append_left _).nodup_iff, ← List.flatMap_cons]
  exact .of_map _ (nodup_found hd hperm.subperm)

/-- The contacts of the own bucket once, and what there is room for of the others. -/
def collectedOnce (key : KadID) (count : Nat) (excludeContacts : List Contact) (own : KBucket)
    (pre post : List KBucket) : List Contact :=
  let first := (free excludeContacts own).length
  free excludeContacts own ++
    ((pre.flatMap fun b => nearestFirst key (free excludeContacts b)).take (count - first) ++
      (post.flatMap fun b => nearestFirst key (free excludeContacts b)).take
        (count - first - freeCount excludeContacts pre - first))

theorem nodup_collectedOnce (hB : Base t) (hd : Distinct t excludeContacts)
    {pre post : List KBucket}
    (hsub : (own :: (pre ++ post)).Subperm t.kBuckets) :
    (collectedOnce key count excludeContacts own pre post).Nodup := by
  have hpre := perm_found hB key excludeContacts fun b (hb : b ∈ pre) =>
    hsub.subset (List.mem_cons_of_mem _ (List.mem_append_left _ hb))
  have hpost := perm_found hB key excludeContacts fun b (hb : b ∈ post) =>
    hsub.subset (List.mem_cons_of_mem _ (List.mem_append_right _ hb))
  refine List.Nodup.sublist (((List.take_sublist _ _).append
    (List.take_sublist _ _)).append_left _) ?_
  rw [((hpre.append hpost).append_left _).nodup_iff, ← List.flatMap_append, ← List.flatMap_cons]
  exact .of_map _ (nodup_found hd hsub)

/-- The second time the own bucket brings nothing new. -/
theorem mem_collectedOnce (hB : Base t) (hd : Distinct t excludeContacts) {pre post : List KBucket}
    (hD : t.byDistance key = nearest :: (pre ++ own :: post)) :
    c ∈ t.collected key count excludeContacts own ↔
      c ∈ collectedOnce key count excludeContacts own pre post := by
  have hperm := perm_of_byDistance hd hD
  have hpre := perm_found hB key excludeContacts fun b (hb : b ∈ pre) =>
    hperm.mem_iff.mp (by simp [hb])
  have hself : (nearestFirst key (free excludeContacts own)).Perm (free excludeContacts own) :=
    perm_nearestFirst key (nodup_free (hB.ok own (hperm.mem_iff.mp (by simp))).1)
  have hagain : c ∈ (nearestFirst key (free excludeContacts own)).take
      (count - (free excludeContacts own).length - freeCount excludeContacts pre) →
      c ∈ free excludeContacts own := fun h => hself.mem_iff.mp (List.mem_of_mem_take h)
  rw [collected, hD, List.tail_cons, List.flatMap_append, List.flatMap_cons, List.take_append,
    List.take_append, hpre.length_eq, hself.length_eq, ← freeCount]
  simp only [collectedOnce, List.mem_append]
  tauto

/-- The number of different contacts that are returned. -/
theorem countP_collected (hB : Base t) (hd : Distinct t excludeContacts)
    (hD : t.byDistance key = nearest :: rest)
    (hown : own ∈ t.kBuckets) :
    (t.allNearestFirst key excludeContacts).countP
      (· ∈ t.collected key count excludeContacts own) =
      t.roomFor key count excludeContacts own nearest := by
  have hperm := perm_of_byDistance hd hD
  have hmem : ∀ b ∈ nearest :: rest, b ∈ t.kBuckets := fun b hb => hperm.mem_iff.mp hb
  have hall := nodup_allNearestFirst t key excludeContacts
  have hin : t.collected key count excludeContacts own ⊆ t.allNearestFirst key excludeContacts :=
    fun c hc => (mem_allNearestFirst hd).mpr (bucket_of_collected hB hd hown c hc)
  by_cases hsame : own = nearest
  · subst hsame
    have hrest := perm_found hB key excludeContacts fun b hb => hmem b (List.mem_cons_of_mem _ hb)
    rw [countP_eq_of_mem_iff hall (nodup_collected hB hd hD) hin fun _ _ => Iff.rfl,
      roomFor_of_nearest hd hD, collected, hD, List.tail_cons, List.length_append, List.length_take,
      hrest.length_eq, freeCount]
  · obtain ⟨pre, post, rfl⟩ := List.append_of_mem
      ((List.mem_cons.mp (hperm.mem_iff.mpr hown)).resolve_left hsame)
    have hpre := perm_found hB key excludeContacts fun b (hb : b ∈ pre) => hmem b (by simp [hb])
    have hpost := perm_found hB key excludeContacts fun b (hb : b ∈ post) => hmem b (by simp [hb])
    have hsub : (own :: (pre ++ post)).Subperm t.kBuckets :=
      List.perm_middle.symm.subperm.trans
        ((List.sublist_cons_self nearest _).subperm.trans hperm.subperm)
    rw [countP_eq_of_mem_iff hall (nodup_collectedOnce hB hd hsub)
      (fun c hc => hin ((mem_collectedOnce hB hd hD).mpr hc)) fun c _ => mem_collectedOnce hB hd hD,
      roomFor_of_later hd hD hsame]
    simp only [collectedOnce, List.length_append, List.length_take, hpre.length_eq,
      hpost.length_eq, freeCount]
    omega

/-! ## Aligned contacts are returned -/

theorem bucket_unique (hd : Distinct t excludeContacts) (hb : b ∈ t.kBuckets)
    (hb' : b' ∈ t.kBuckets)
    (hc : c ∈ free excludeContacts b) (hc' : c ∈ free excludeContacts b') : b' = b := by
  by_contra hne
  obtain ⟨pre, post, h⟩ := List.append_of_mem hb
  obtain ⟨hpre, hpost⟩ := not_mem_others hd pre (.of_eq h.symm) hc
  rw [h] at hb'
  rcases List.mem_append.mp hb' with hin | hin
  · exact hpre (List.mem_flatMap.mpr ⟨b', hin, hc'⟩)
  · exact hpost (List.mem_flatMap.mpr ⟨b', (List.mem_cons.mp hin).resolve_left hne, hc'⟩)

/-- When the first `n` are aligned, what comes before one of them leaves room for it: the own
bucket, the buckets `bs` that are met before its bucket, and what is nearer in this one. -/
theorem length_before_lt (hd : Distinct t excludeContacts) {bs : List KBucket}
    (hsub : (own :: (bs ++ [b])).Subperm t.kBuckets)
    (hbs : ∀ b' ∈ bs, b' ≠ nearest ∧ b'.rangeMax.xor key < b.rangeMax.xor key) (hbo : b ≠ own)
    (hal : t.Aligned key excludeContacts own nearest
      ((t.allNearestFirst key excludeContacts).take n))
    (hc : c ∈ free excludeContacts b) (hcn : c ∈ (t.allNearestFirst key excludeContacts).take n) :
    (free excludeContacts own).length + (freeCount excludeContacts bs +
      ((free excludeContacts b).filter fun d => d.nodeId.xor key < c.nodeId.xor key).length) < n := by
  have hb : b ∈ t.kBuckets := hsub.subset (by simp)
  -- `c` itself and what is nearer in its bucket
  have hupto : ((free excludeContacts b).filter fun d =>
        d.nodeId.xor key < c.nodeId.xor key).length <
      ((free excludeContacts b).filter fun d => d.nodeId.xor key ≤ c.nodeId.xor key).length := by
    have hfilter : (free excludeContacts b).filter (fun d => d.nodeId.xor key < c.nodeId.xor key) =
        ((free excludeContacts b).filter fun d => d.nodeId.xor key ≤ c.nodeId.xor key).filter
          fun d => d.nodeId.xor key < c.nodeId.xor key := by
      rw [List.filter_filter]
      refine List.filter_congr fun d _ => ?_
      simpa using fun h => le_of_lt h
    rw [hfilter]
    exact List.length_filter_lt_length_iff_exists.mpr
      ⟨c, List.mem_filter.mpr ⟨hc, by simp⟩, by simp⟩
  have hnd : (free excludeContacts own ++ (bs.flatMap (free excludeContacts) ++
      (free excludeContacts b).filter fun d => d.nodeId.xor key ≤ c.nodeId.xor key)).Nodup := by
    have hall := nodup_found hd hsub
    rw [List.flatMap_cons, List.flatMap_append, List.flatMap_singleton] at hall
    exact List.Nodup.sublist ((List.filter_sublist.append_left _).append_left _) (.of_map _ hall)
  have hin : free excludeContacts own ++ (bs.flatMap (free excludeContacts) ++
      (free excludeContacts b).filter fun d => d.nodeId.xor key ≤ c.nodeId.xor key) ⊆
      (t.allNearestFirst key excludeContacts).take n := by
    intro d hdm
    rw [List.mem_append, List.mem_append] at hdm
    rcases hdm with hdm | hdm | hdm
    · exact hal.filled d hdm
    · obtain ⟨b', hb', hdb⟩ := List.mem_flatMap.mp hdm
      obtain ⟨hne, hlt⟩ := hbs b' hb'
      exact hal.ends b' (hsub.subset (by simp [hb'])) b hb hne hbo hlt ⟨c, hc, hcn⟩ d hdb
    · obtain ⟨hdb, hle⟩ := List.mem_filter.mp hdm
      rcases (of_decide_eq_true hle).eq_or_lt with he | hlt
      · have hids := nodup_distances key (nodup_found hd (List.Subperm.refl _))
        rwa [List.inj_on_of_nodup_map hids (List.mem_flatMap.mpr ⟨b, hb, hdb⟩)
          (List.mem_flatMap.mpr ⟨b, hb, hc⟩) he]
      · exact mem_take_of_lt hcn ((mem_allNearestFirst hd).mpr ⟨b, hb, hdb⟩) hlt
  have hlen := (List.subperm_of_subset hnd hin).length_le
  rw [List.length_append, List.length_append, List.length_take, ← freeCount] at hlen
  omega

/-- The loop comes in time to an aligned contact, if the own bucket is the nearest one. -/
theorem place_lt_of_nearest (hd : Distinct t excludeContacts) {pre post : List KBucket}
    (hD : t.byDistance key = own :: (pre ++ b :: post))
    (hfits : (free excludeContacts own).length ≤ count) (hbo : b ≠ own)
    (hal : t.Aligned key excludeContacts own own
      ((t.allNearestFirst key excludeContacts).take (t.roomFor key count excludeContacts own own)))
    (hc : c ∈ free excludeContacts b)
    (hcn : c ∈ (t.allNearestFirst key excludeContacts).take
      (t.roomFor key count excludeContacts own own)) :
    t.place key excludeContacts own b c < count - (free excludeContacts own).length := by
  have hperm := perm_of_byDistance hd hD
  have hsub : (own :: (pre ++ [b])).Subperm t.kBuckets :=
    (((List.singleton_sublist.mpr List.mem_cons_self).append_left pre).cons_cons own).subperm.trans
      hperm.subperm
  have hlen := length_before_lt hd hsub (fun b' hb' => (before_of_mem hd hD hb').2) hbo hal hc hcn
  rw [roomFor_of_nearest hd hD] at hlen
  rw [place_eq hd hD]
  omega

/-- And if it is met later, to one that comes before it. -/
theorem place_lt_of_before (hd : Distinct t excludeContacts) {pre mid post : List KBucket}
    (hD : t.byDistance key = nearest :: (pre ++ b :: mid ++ own :: post)) (hne : own ≠ nearest)
    (hfits : (free excludeContacts own).length ≤ count) (hbo : b ≠ own)
    (hal : t.Aligned key excludeContacts own nearest
      ((t.allNearestFirst key excludeContacts).take (t.roomFor key count excludeContacts own nearest)))
    (hc : c ∈ free excludeContacts b)
    (hcn : c ∈ (t.allNearestFirst key excludeContacts).take
      (t.roomFor key count excludeContacts own nearest)) :
    t.place key excludeContacts nearest b c < count - (free excludeContacts own).length := by
  have hD' : t.byDistance key = nearest :: (pre ++ b :: (mid ++ own :: post)) := by simpa using hD
  have hperm := perm_of_byDistance hd hD'
  have hsub : (own :: (pre ++ [b])).Subperm t.kBuckets := by
    have hpart : (pre ++ b :: [own]).Sublist (pre ++ b :: (mid ++ own :: post)) :=
      ((List.singleton_sublist.mpr (by simp)).cons_cons b).append_left pre
    have hswap : ([own] ++ (pre ++ [b])).Perm ((pre ++ [b]) ++ [own]) := List.perm_append_comm
    rw [List.append_assoc] at hswap
    exact hswap.subperm.trans ((hpart.cons nearest).subperm.trans hperm.subperm)
  have hlen := length_before_lt hd hsub (fun b' hb' => (before_of_mem hd hD' hb').2) hbo hal hc hcn
  have hself := length_nearer_lt key hc
  rw [roomFor_of_later hd hD hne] at hlen
  rw [place_eq hd hD']
  simp only [freeCount, List.flatMap_append, List.flatMap_cons, List.length_append] at hlen ⊢
  omega

/-- And to one that comes after it. -/
theorem place_lt_of_after (hd : Distinct t excludeContacts) {pre mid post : List KBucket}
    (hD : t.byDistance key = nearest :: (pre ++ own :: (mid ++ b :: post))) (hne : own ≠ nearest)
    (hfits : (free excludeContacts own).length ≤ count) (hbo : b ≠ own)
    (hal : t.Aligned key excludeContacts own nearest
      ((t.allNearestFirst key excludeContacts).take (t.roomFor key count excludeContacts own nearest)))
    (hc : c ∈ free excludeContacts b)
    (hcn : c ∈ (t.allNearestFirst key excludeContacts).take
      (t.roomFor key count excludeContacts own nearest)) :
    t.place key excludeContacts nearest b c < count - (free excludeContacts own).length := by
  have hD' : t.byDistance key = nearest :: ((pre ++ own :: mid) ++ b :: post) := by simpa using hD
  have hperm := perm_of_byDistance hd hD'
  have hsub : (own :: ((pre ++ mid) ++ [b])).Subperm t.kBuckets := by
    have hpart : ((pre ++ own :: mid) ++ [b]).Sublist ((pre ++ own :: mid) ++ b :: post) :=
      (List.singleton_sublist.mpr List.mem_cons_self).append_left _
    have hswap : (own :: ((pre ++ mid) ++ [b])).Perm ((pre ++ own :: mid) ++ [b]) :=
      List.perm_middle.symm.append_right [b]
    exact hswap.subperm.trans ((hpart.cons nearest).subperm.trans hperm.subperm)
  have hbs : ∀ b' ∈ pre ++ mid, b' ≠ nearest ∧ b'.rangeMax.xor key < b.rangeMax.xor key := by
    intro b' hb'
    refine (before_of_mem hd hD' ?_).2
    exact (List.mem_append.mp hb').elim (List.mem_append_left _) fun h =>
      List.mem_append_right _ (List.mem_cons_of_mem _ h)
  have hlen := length_before_lt hd hsub hbs hbo hal hc hcn
  rw [roomFor_of_later hd hD hne] at hlen
  rw [place_eq hd hD']
  simp only [freeCount, List.flatMap_append, List.flatMap_cons, List.length_append] at hlen ⊢
  omega

/-- What is aligned is returned. -/
theorem mem_collected_of_aligned (hB : Base t) (hd : Distinct t excludeContacts)
    (hD : t.byDistance key = nearest :: rest) (hown : own ∈ t.kBuckets)
    (hfits : (free excludeContacts own).length ≤ count)
    (hal : t.Aligned key excludeContacts own nearest
      ((t.allNearestFirst key excludeContacts).take (t.roomFor key count excludeContacts own nearest))) :
    ∀ c ∈ (t.allNearestFirst key excludeContacts).take (t.roomFor key count excludeContacts own nearest),
      c ∈ t.collected key count excludeContacts own := by
  intro c hcn
  obtain ⟨b, hb, hc⟩ := (mem_allNearestFirst hd).mp (List.mem_of_mem_take hcn)
  rw [mem_collected hB hd hD hb hc]
  by_cases hbo : b = own
  · exact .inl (hbo ▸ hc)
  · have hbn : b ≠ nearest := by
      rintro rfl
      exact hal.passed (Ne.symm hbo) c hc hcn
    have hperm := perm_of_byDistance hd hD
    have hin : b ∈ rest := (List.mem_cons.mp (hperm.mem_iff.mpr hb)).resolve_left hbn
    refine .inr ⟨hbn, ?_⟩
    by_cases hsame : own = nearest
    · subst hsame
      obtain ⟨pre, post, rfl⟩ := List.append_of_mem hin
      exact place_lt_of_nearest hd hD hfits hbo hal hc hcn
    · obtain ⟨pre, post, rfl⟩ := List.append_of_mem
        ((List.mem_cons.mp (hperm.mem_iff.mpr hown)).resolve_left hsame)
      rcases List.mem_append.mp hin with hpre | hpost
      · obtain ⟨pre', mid, rfl⟩ := List.append_of_mem hpre
        exact place_lt_of_before hd hD hsame hfits hbo hal hc hcn
      · obtain ⟨mid, post', rfl⟩ := List.append_of_mem ((List.mem_cons.mp hpost).resolve_left hbo)
        exact place_lt_of_after hd hD hsame hfits hbo hal hc hcn

/-- And the other way round: contacts that are just those returned are aligned. -/
theorem aligned_of_mem (hB : Base t) (hd : Distinct t excludeContacts)
    (hD : t.byDistance key = nearest :: rest)
    (hown : own ∈ t.kBuckets) (hnear : ∀ c ∈ t.allNearestFirst key excludeContacts,
      c ∈ t.collected key count excludeContacts own ↔ c ∈ near) :
    t.Aligned key excludeContacts own nearest near := by
  have hn : nearest ∈ t.kBuckets := (perm_byDistance key hd).mem_iff.mp (hD ▸ List.mem_cons_self)
  have hiff : ∀ b ∈ t.kBuckets, ∀ c ∈ free excludeContacts b, c ∈ near ↔
      c ∈ free excludeContacts own ∨ b ≠ nearest ∧ t.place key excludeContacts nearest b c <
        count - (free excludeContacts own).length := fun b hb c hc =>
    (hnear c ((mem_allNearestFirst hd).mpr ⟨b, hb, hc⟩)).symm.trans (mem_collected hB hd hD hb hc)
  refine ⟨fun c hc => (hiff own hown c hc).mpr (.inl hc), fun hne c hc hcn => ?_, ?_⟩
  · rcases (hiff nearest hn c hc).mp hcn with h | h
    · exact hne (bucket_unique hd hn hown hc h)
    · exact h.1 rfl
  · rintro b hb b' hb' hbn hbo hlt ⟨d, hdb, hdn⟩ c hc
    rcases (hiff b' hb' d hdb).mp hdn with h | ⟨-, h⟩
    · exact absurd (bucket_unique hd hown hb' h hdb) hbo
    · have hplace := place_lt_of_bucket hd hD hb hbn hc hlt d
      exact (hiff b hb c hc).mpr (.inr ⟨hbn, hplace.trans h⟩)

/-! ## The nearest contacts -/

/-- The own bucket has as many contacts as a bucket can have, and these are returned. -/
theorem nearestReturned_iff_of_own (hB : Base t) (hu : t.kBucketIndex key = .ok u)
    (hown : t.kBuckets[u.toNat]? = some own) (hK : t.K.toNat ≤ count)
    (h : count ≤ (free excludeContacts own).length) :
    t.NearestReturned key count excludeContacts ↔ t.OwnNearest key excludeContacts own := by
  obtain ⟨hok, hsize⟩ := hB.ok own (List.mem_of_getElem? hown)
  have hle : (free excludeContacts own).length ≤ count :=
    (length_free_le excludeContacts hok).trans (hsize ▸ hK)
  have hcount : count ≤ 65535 := by
    have hfew := length_free_le excludeContacts hok
    have hlt := own.K.isLt
    omega
  have hres := findCloseNodes_of_own hu hown hcount h
  rw [List.take_of_length_le hle] at hres
  constructor
  · rintro ⟨closeNodes, hres', hnear⟩ c hc b hb d hd hnot
    rw [hres, Except.ok.injEq] at hres'
    subst hres'
    obtain ⟨hdb, hdf⟩ := mem_free.mp hd
    exact hnear c hc d (List.mem_flatMap.mpr ⟨b, hb, hdb⟩) hdf hnot
  · intro hall
    refine ⟨_, hres, fun c hc d hstored hdf hnot => ?_⟩
    obtain ⟨b, hb, hdb⟩ := List.mem_flatMap.mp hstored
    exact hall c hc b hb d (mem_free.mpr ⟨hdb, hdf⟩) hnot

/-- The own bucket is not cut on its own: the contacts have to lie in the order of the ends. -/
theorem nearestReturned_iff_of_fits (hB : Base t) (hd : Distinct t excludeContacts)
    (hu : t.kBucketIndex key = .ok u)
    (hown : t.kBuckets[u.toNat]? = some own) (hn : nearest ∈ t.kBuckets)
    (hmin : ∀ b ∈ t.kBuckets, nearest.rangeMax.xor key ≤ b.rangeMax.xor key)
    (hfits : (free excludeContacts own).length ≤ count % 65536) :
    t.NearestReturned key count excludeContacts ↔ t.Aligned key excludeContacts own nearest
      ((t.allNearestFirst key excludeContacts).take
        (t.roomFor key count excludeContacts own nearest)) := by
  have hin : own ∈ t.kBuckets := List.mem_of_getElem? hown
  obtain ⟨rest, hD⟩ := byDistance_cons hd hn hmin
  rw [nearestReturned_iff hd (findCloseNodes_of_fits hB hd hu hown hfits)
    (bucket_of_collected hB hd hin)]
  constructor
  · intro h
    have hnear := mem_take_countP_iff h
    rw [countP_collected hB hd hD hin] at hnear
    exact aligned_of_mem hB hd hD hin hnear
  · intro hal
    rw [countP_collected hB hd hD hin]
    exact mem_collected_of_aligned hB hd hD hin (hfits.trans (Nat.mod_le count 65536)) hal

/-- **The nearest contacts, and when.** `own` is the bucket the key is routed to, `nearest` one
with the nearest upper end. -/
theorem nearest_iff (hr : table.Reachable t) (hu : t.kBucketIndex key = .ok u)
    (hown : t.kBuckets[u.toNat]? = some own) (hn : nearest ∈ t.kBuckets)
    (hmin : ∀ b ∈ t.kBuckets, nearest.rangeMax.xor key ≤ b.rangeMax.xor key)
    (hK : t.K.toNat ≤ count) :
    (t.InOrder key count excludeContacts own nearest →
      t.NearestReturned key count excludeContacts) ∧
    (count ≤ (free excludeContacts own).length ∨
        t.Distinct excludeContacts ∧ (free excludeContacts own).length ≤ count % 65536 →
      (t.NearestReturned key count excludeContacts ↔
        t.InOrder key count excludeContacts own nearest)) := by
  have hB := base_inductive.reachable hr
  have horder : t.InOrder key count excludeContacts own nearest →
      t.NearestReturned key count excludeContacts := by
    rintro (⟨hle, h⟩ | ⟨-, hd, hfits, h⟩)
    · exact (nearestReturned_iff_of_own hB hu hown hK hle).mpr h
    · exact (nearestReturned_iff_of_fits hB hd hu hown hn hmin hfits).mpr h
  refine ⟨horder, fun hcase => ⟨fun h => ?_, horder⟩⟩
  by_cases hle : count ≤ (free excludeContacts own).length
  · exact .inl ⟨hle, (nearestReturned_iff_of_own hB hu hown hK hle).mp h⟩
  · obtain ⟨hd, hfits⟩ := hcase.resolve_left hle
    exact .inr ⟨not_le.mp hle, hd, hfits,
      (nearestReturned_iff_of_fits hB hd hu hown hn hmin hfits).mp h⟩

/-! ## One split -/

/-- With room for all four contacts the order does not matter; and a full own bucket has the
nearest contacts, though an id is stored twice. -/
theorem nearest_between : between.NearestReturned (topWord 41000 (by decide)) 4 [] ∧
    ¬ storedTwice.Distinct [] ∧ storedTwice.NearestReturned ⟨Rossi.ofUlong 4⟩ 3 [] := by
  have hu : between.kBucketIndex (topWord 41000 (by decide)) = .ok 0 := by decide +kernel
  have hown : between.kBuckets[(0 : UShort).toNat]? = some leftBetween := by decide +kernel
  have hn : leftBetween ∈ between.kBuckets := by decide +kernel
  have hmin : ∀ b ∈ between.kBuckets, leftBetween.rangeMax.xor (topWord 41000 (by decide)) ≤
      b.rangeMax.xor (topWord 41000 (by decide)) := by decide +kernel
  have horder : between.InOrder (topWord 41000 (by decide)) 4 [] leftBetween leftBetween := by
    decide +kernel
  have hu' : storedTwice.kBucketIndex ⟨Rossi.ofUlong 4⟩ = .ok 0 := by decide +kernel
  have hown' : storedTwice.kBuckets[(0 : UShort).toNat]? = some leftTwice := by decide +kernel
  have hn' : leftTwice ∈ storedTwice.kBuckets := by decide +kernel
  have hmin' : ∀ b ∈ storedTwice.kBuckets, leftTwice.rangeMax.xor ⟨Rossi.ofUlong 4⟩ ≤
      b.rangeMax.xor ⟨Rossi.ofUlong 4⟩ := by decide +kernel
  have horder' : storedTwice.InOrder ⟨Rossi.ofUlong 4⟩ 3 [] leftTwice leftTwice := by
    decide +kernel
  exact ⟨(nearest_iff reachable_between hu hown hn hmin (by decide +kernel)).1 horder,
    by decide +kernel,
    (nearest_iff reachable_storedTwice hu' hown' hn' hmin' (by decide +kernel)).1 horder'⟩

/-- For three contacts the left bucket is enough, and the contact of the right one is
nearer than all of them. -/
theorem nearest_counterexample : ¬ ∀ (t : RoutingTable) (key : KadID) (count : Nat)
    (excludeContacts : List Contact), table.Reachable t → key ≤ KadID.kMaxID →
    t.K.toNat ≤ count → t.NearestReturned key count excludeContacts := by
  intro h
  have hkey : topWord 41000 (by decide) ≤ KadID.kMaxID := by
    rw [KadID.kMaxID_eq]
    decide +kernel
  obtain ⟨closeNodes, hres, hnear⟩ :=
    h between _ 3 [] reachable_between hkey (by decide +kernel)
  have hleft : between.findCloseNodes (topWord 41000 (by decide)) (3 : Nat) [] [] =
      .ok ([400, 300, 200].map fun id => contactAt ⟨Rossi.ofUlong id⟩) := by decide +kernel
  rw [hleft, Except.ok.injEq] at hres
  subst hres
  have hle := hnear (contactAt ⟨Rossi.ofUlong 400⟩) (by decide +kernel)
    (contactAt (topWord 50000 (by decide))) (by decide +kernel) (by decide +kernel)
    (by decide +kernel)
  revert hle
  decide +kernel

end Kadpeer.L3.RoutingTable
