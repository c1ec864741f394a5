import Kadpeer.L3Table.Placement

/-!
# What `FindCloseNodes` collects

`FindCloseNodes` takes the contacts of the bucket the key is routed to, and then
those of the other buckets: `SortBucketsByDistance` orders all buckets by the XOR
distance of their upper end from the key, and the loop starts at position 1. So it
expects the key's own bucket at position 0.

The own bucket is the one with the smallest upper end not below the key, and that
end is often not the nearest one in XOR distance: after one split the upper end of
the left bucket has the top bit of `KMaxID` clear, and the keys between the two ends
that have it clear as well are routed to the right bucket and are nearer to the left.
Then the own bucket is taken twice and the nearest one never.

* `findCloseNodes_of_own`: the result when the own bucket gives `count` contacts, in any
  table; `findCloseNodes_eq`: for a table with `Distinct` ends and ids;
  `distinct_of_steps`: which tables are so.
* `complete_iff`: when the result is free of duplicates and as long as it can be, by the
  own bucket of the key and the nearest one (`exists_own_nearest`).
* `complete_counterexample`: one contact twice, three contacts not at all.
-/
namespace Kadpeer.L3.RoutingTable

open Kadpeer.Core Kadpeer.L1 Kadpeer.L2

/-- The contacts of the bucket that are not excluded. -/
def free (excludeContacts : List Contact) (b : KBucket) : List Contact :=
  b.contacts.filter fun c => !excludeContacts.any (c.nodeId = ·.nodeId)

def freeCount (excludeContacts : List Contact) (bs : List KBucket) : Nat :=
  (bs.flatMap (free excludeContacts)).length

/-- No two buckets end at the same id, positions fit into 16 bits, and no id that is not
excluded is stored twice. -/
structure Distinct (t : RoutingTable) (excludeContacts : List Contact) : Prop where
  ends : (t.kBuckets.map KBucket.rangeMax).Nodup
  few : t.kBuckets.length ≤ 65536
  ids : ((t.kBuckets.flatMap (free excludeContacts)).map Contact.nodeId).Nodup

instance (t : RoutingTable) (excludeContacts : List Contact) :
    Decidable (t.Distinct excludeContacts) :=
  decidable_of_iff ((t.kBuckets.map KBucket.rangeMax).Nodup ∧ t.kBuckets.length ≤ 65536 ∧
    ((t.kBuckets.flatMap (free excludeContacts)).map Contact.nodeId).Nodup)
    ⟨fun h => ⟨h.1, h.2.1, h.2.2⟩, fun h => ⟨h.1, h.2, h.3⟩⟩

/-- The buckets by the distance of their upper ends. -/
def byDistance (t : RoutingTable) (key : KadID) : List KBucket :=
  (Keyed.ofList (fun b : KBucket => b.rangeMax.xor key) t.kBuckets).toList

def nearestFirst (key : KadID) (contacts : List Contact) : List Contact :=
  (Keyed.ofList (fun c : Contact => c.nodeId.xor key) contacts).toList

variable {t : RoutingTable} {key : KadID} {excludeContacts : List Contact} {b own nearest : KBucket}
  {c : Contact} {count : Nat} {u : UShort}

theorem mem_free : c ∈ free excludeContacts b ↔
    c ∈ b.contacts ∧ ∀ e ∈ excludeContacts, c.nodeId ≠ e.nodeId := by simp [free]

theorem distinct_of_placed (hp : Placed t) (excludeContacts : List Contact) :
    Distinct t excludeContacts where
  ends := by
    refine List.pairwise_iff_getElem.mpr fun i k hi hk hik => ?_
    rw [List.length_map] at hi hk
    rw [List.getElem_map, List.getElem_map]
    exact ne_of_lt (hp.lt hik (List.getElem?_eq_getElem hi) (List.getElem?_eq_getElem hk))
  few := by
    have := hp.length_le
    omega
  ids := by
    have hfree : (t.kBuckets.flatMap (free excludeContacts)).Sublist t.stored :=
      List.Sublist.flatMap_right _ fun b _ => List.filter_sublist
    exact (findable_of_placed hp).unique.sublist (hfree.map _)

/-- In a run whose splits are `SplitsInRange` all tables are so. -/
theorem distinct_of_steps {holderId : KadID} {rtK : UShort} {minRange : Digest}
    {tr : List (Op × RoutingTable)} (hK : 2 < rtK.toNat)
    (hr : table.Run (new holderId rtK minRange) tr t)
    (hok : LTS.Steps (fun t op => Halving op ∧ SplitsInRange t op) (new holderId rtK minRange) tr) :
    LTS.States (fun t => ∀ excludeContacts, Distinct t excludeContacts)
      (new holderId rtK minRange) tr :=
  LTS.states_of_steps (I := fun t => Placed t ∧ Params holderId rtK t)
    (fun _ hI => distinct_of_placed hI.1)
    (fun _ _ _ hI hok h => ⟨placed_step hI.1 (hI.2.K ▸ hK) hok.1 hok.2 h,
      params_step hI.1.live.base hI.2 h⟩)
    hr ⟨placed_new holderId rtK minRange, ⟨rfl, rfl⟩⟩ hok

/-! ## One bucket -/

theorem nodup_distances {cs : List Contact} (key : KadID) (h : (cs.map Contact.nodeId).Nodup) :
    (cs.map fun c => c.nodeId.xor key).Nodup := by
  have hmap : cs.map (fun c => c.nodeId.xor key) = (cs.map Contact.nodeId).map (·.xor key) := by
    rw [List.map_map]
    rfl
  rw [hmap]
  exact h.map fun a b => (KadID.xor_left_inj key).mp

theorem perm_nearestFirst {cs : List Contact} (key : KadID) (h : (cs.map Contact.nodeId).Nodup) :
    (nearestFirst key cs).Perm cs := Keyed.perm_ofList (nodup_distances key h)

/-- The contacts of one bucket have distinct distances, and none is dropped. -/
theorem sortContactsByDistance_eq {cs : List Contact} (h : (cs.map Contact.nodeId).Nodup) :
    sortContactsByDistance key cs = (0, nearestFirst key cs) := by
  have hsorted : (Keyed.ofList Prod.fst (cs.map fun c => (c.nodeId.xor key, c))).toList.map Prod.snd =
      nearestFirst key cs := by
    rw [Keyed.ofList_map, List.map_map]
    exact List.map_id _
  simp [sortContactsByDistance, hsorted, (perm_nearestFirst key h).length_eq]

theorem nodup_free (hok : b.Ok) : ((free excludeContacts b).map Contact.nodeId).Nodup :=
  hok.nodup.sublist (List.filter_sublist.map _)

theorem length_free_le (excludeContacts : List Contact) (hok : b.Ok) :
    (free excludeContacts b).length ≤ b.K.toNat :=
  (List.length_filter_le _ _).trans hok.size

theorem getContacts_K (hok : b.Ok) (hK : b.K = t.K) :
    b.getContacts t.K excludeContacts [] = free excludeContacts b := by
  have hlen := length_free_le excludeContacts hok
  rw [KBucket.getContacts, List.nil_append]
  exact List.take_of_length_le (hK ▸ hlen)

theorem pushContacts_eq {cs closeNodes : List Contact} (h : closeNodes.length < count) :
    pushContacts count cs closeNodes =
      (decide (count ≤ (closeNodes ++ cs).length), (closeNodes ++ cs).take count) := by
  induction cs generalizing closeNodes with
  | nil =>
    rw [List.append_nil, List.take_of_length_le h.le, pushContacts]
    simp [h]
  | cons c cs ih =>
    unfold pushContacts
    have hlen : (closeNodes ++ [c]).length = closeNodes.length + 1 := List.length_append
    have happ : closeNodes ++ c :: cs = (closeNodes ++ [c]) ++ cs := by simp
    rw [happ]
    by_cases hfull : count = (closeNodes ++ [c]).length
    · rw [if_pos (by exact_mod_cast hfull), hfull, List.take_left, List.length_append]
      simp
    · rw [if_neg (by exact_mod_cast hfull), ih (by omega)]

/-! ## The buckets in order -/

/-- The buckets with their positions, by the distance of the upper ends. -/
def numbered (t : RoutingTable) (key : KadID) : List (KBucket × Nat) :=
  (Keyed.ofList (fun z : KBucket × Nat => z.1.rangeMax.xor key) t.kBuckets.zipIdx).toList

theorem byDistance_eq (t : RoutingTable) (key : KadID) :
    t.byDistance key = (t.numbered key).map Prod.fst := by
  have hmap := Keyed.ofList_map (fun b : KBucket => b.rangeMax.xor key) Prod.fst t.kBuckets.zipIdx
  rwa [List.zipIdx_map_fst] at hmap

theorem nodup_endDistances (key : KadID) (hd : Distinct t excludeContacts) :
    (t.kBuckets.map fun b => b.rangeMax.xor key).Nodup := by
  have hmap : t.kBuckets.map (fun b => b.rangeMax.xor key) =
      (t.kBuckets.map KBucket.rangeMax).map (·.xor key) := by
    rw [List.map_map]
    rfl
  rw [hmap]
  exact hd.ends.map fun a b => (KadID.xor_left_inj key).mp

theorem perm_byDistance (key : KadID) (hd : Distinct t excludeContacts) :
    (t.byDistance key).Perm t.kBuckets :=
  Keyed.perm_ofList (nodup_endDistances key hd)

theorem sorted_byDistance (t : RoutingTable) (key : KadID) :
    (t.byDistance key).Pairwise fun b b' => b.rangeMax.xor key < b'.rangeMax.xor key :=
  Keyed.sorted _

theorem perm_of_byDistance {bs : List KBucket} (hd : Distinct t excludeContacts)
    (hD : t.byDistance key = bs) :
    bs.Perm t.kBuckets := hD ▸ perm_byDistance key hd

theorem sorted_of_byDistance {bs : List KBucket} (hD : t.byDistance key = bs) :
    bs.Pairwise fun b b' => b.rangeMax.xor key < b'.rangeMax.xor key := hD ▸ sorted_byDistance t key

theorem upperEntries_eq (bs : List KBucket) :
    upperEntries bs = bs.zipIdx.map fun z => (z.1.rangeMax, BitVec.ofNat 16 z.2) := rfl

theorem map_fst_upperEntries (bs : List KBucket) :
    (upperEntries bs).map Prod.fst = bs.map KBucket.rangeMax := by
  rw [upperEntries_eq, List.map_map]
  conv_rhs => rw [← List.zipIdx_map_fst 0 bs]
  rw [List.map_map]
  rfl

theorem sortBucketsByDistance_eq (hB : Base t) (key : KadID) (hd : Distinct t excludeContacts) :
    t.sortBucketsByDistance key = (t.numbered key).map fun z => BitVec.ofNat 16 z.2 := by
  have hends : ((upperEntries t.kBuckets).map Prod.fst).Nodup := by
    rw [map_fst_upperEntries]
    exact hd.ends
  have hperm : t.bucketUpperAddress.toList.Perm (upperEntries t.kBuckets) := by
    rw [hB.upper]
    exact Keyed.perm_ofList hends
  have hdist : (t.bucketUpperAddress.toList.map fun e => e.1.xor key).Nodup := by
    have hmap : t.bucketUpperAddress.toList.map (fun e => e.1.xor key) =
        (t.bucketUpperAddress.toList.map Prod.fst).map (·.xor key) := by
      rw [List.map_map]
      rfl
    rw [hmap]
    exact ((hperm.map Prod.fst).nodup_iff.mpr hends).map fun a b => (KadID.xor_left_inj key).mp
  unfold sortBucketsByDistance
  rw [Keyed.ofList_map, List.map_map, Keyed.ofList_perm hdist hperm, upperEntries_eq,
    Keyed.ofList_map, List.map_map]
  rfl

theorem mem_numbered {z : KBucket × Nat} (h : z ∈ t.numbered key) :
    t.kBuckets[z.2]? = some z.1 :=
  List.mem_zipIdx_iff_getElem?.mp (Keyed.mem_of_mem_ofList h)

/-! ## The result -/

theorem findInOthers_eq (hB : Base t) {zs : List (KBucket × Nat)} {closeNodes : List Contact}
    (h : ∀ z ∈ zs, z.2 < 65536 ∧ t.kBuckets[z.2]? = some z.1) (hlen : closeNodes.length < count) :
    t.findInOthers key count excludeContacts (zs.map fun z => BitVec.ofNat 16 z.2) closeNodes =
      .ok ((closeNodes ++ (zs.map Prod.fst).flatMap fun b =>
        nearestFirst key (free excludeContacts b)).take count) := by
  induction zs generalizing closeNodes with
  | nil =>
    rw [List.map_nil, List.map_nil, List.flatMap_nil, List.append_nil,
      List.take_of_length_le hlen.le, findInOthers]
  | cons z zs ih =>
    obtain ⟨hz, hget⟩ := h z List.mem_cons_self
    have hok := hB.ok z.1 (List.mem_of_getElem? hget)
    have hrest : ∀ z ∈ zs, z.2 < 65536 ∧ t.kBuckets[z.2]? = some z.1 :=
      fun z hz => h z (List.mem_cons_of_mem _ hz)
    have hat : t.bucketAt (BitVec.ofNat 16 z.2).toNat = .ok z.1 := by
      rw [toNat_ofNat_position hz]
      exact bucketAt_eq hget
    rw [List.map_cons, List.map_cons, List.flatMap_cons, ← List.append_assoc]
    unfold findInOthers
    simp only [hat, bind, Except.bind, getContacts_K hok.1 hok.2,
      sortContactsByDistance_eq (nodup_free hok.1), pushContacts_eq hlen]
    by_cases hfull : count ≤ (closeNodes ++ nearestFirst key (free excludeContacts z.1)).length
    · simp only [hfull, decide_true, List.take_append_of_le_length hfull]
      rfl
    · have hshort := not_le.mp hfull
      simp only [hfull, decide_false, List.take_of_length_le hshort.le, ih hrest hshort]
      simp

/-- The search returns before it comes to the other buckets. -/
theorem findCloseNodes_of_own (hu : t.kBucketIndex key = .ok u)
    (hown : t.kBuckets[u.toNat]? = some own) (hcount : count ≤ 65535)
    (h : count ≤ (free excludeContacts own).length) :
    t.findCloseNodes key count excludeContacts [] = .ok ((free excludeContacts own).take count) := by
  have hfirst : own.getContacts (.ofInt 16 (count : Int)) excludeContacts [] =
      (free excludeContacts own).take count := by
    rw [BitVec.ofInt_natCast, KBucket.getContacts, BitVec.toNat_ofNat,
      Nat.mod_eq_of_lt (by omega)]
    rfl
  have hfull : count = ((free excludeContacts own).take count).length := by
    rw [List.length_take, Nat.min_eq_left h]
  unfold findCloseNodes
  simp only [hu, bind, Except.bind, toNat_asInt, bucketAt_eq hown, if_neg (not_asInt_neg u),
    hfirst, Nat.cast_inj]
  rw [if_pos hfull]
  rfl

/-- The own bucket first, then the others in order of distance, from the second on. -/
theorem findCloseNodes_eq (hB : Base t) (hd : Distinct t excludeContacts)
    (hu : t.kBucketIndex key = .ok u) (hown : t.kBuckets[u.toNat]? = some own) (count : Nat) :
    t.findCloseNodes key count excludeContacts [] =
      .ok (((free excludeContacts own).take (count % 65536) ++ (t.byDistance key).tail.flatMap fun b =>
        nearestFirst key (free excludeContacts b)).take count) := by
  have hcount : (BitVec.ofInt 16 (count : Int)).toNat = count % 65536 := by
    rw [BitVec.ofInt_natCast, BitVec.toNat_ofNat]
  have htail : ∀ z ∈ (t.numbered key).drop 1, z.2 < 65536 ∧ t.kBuckets[z.2]? = some z.1 := by
    intro z hz
    have hget := mem_numbered (List.mem_of_mem_drop hz)
    have hlt := (List.getElem?_eq_some_iff.mp hget).1
    have hfew := hd.few
    exact ⟨by omega, hget⟩
  have hlen : ((free excludeContacts own).take (count % 65536)).length ≤ count := by
    rw [List.length_take]
    have := Nat.mod_le count 65536
    omega
  have hfirst : own.getContacts (.ofInt 16 (count : Int)) excludeContacts [] =
      (free excludeContacts own).take (count % 65536) := by
    rw [← hcount]
    rfl
  unfold findCloseNodes
  rw [hu, sortBucketsByDistance_eq hB key hd, byDistance_eq, ← List.map_tail, ← List.drop_one,
    ← List.map_drop]
  simp only [bind, Except.bind, toNat_asInt, bucketAt_eq hown, if_neg (not_asInt_neg u), hfirst,
    Nat.cast_inj]
  by_cases hfull : count = ((free excludeContacts own).take (count % 65536)).length
  · rw [if_pos hfull, List.take_append_of_le_length hfull.le, List.take_of_length_le hfull.ge]
    rfl
  · rw [if_neg hfull, findInOthers_eq hB htail (Nat.lt_of_le_of_ne hlen (Ne.symm hfull))]

/-! ## Complete results -/

/-- Distinct ids, nothing that is excluded or not stored, and `count` contacts, or
all that are not excluded. -/
def Complete (t : RoutingTable) (key : KadID) (count : Nat) (excludeContacts : List Contact) : Prop :=
  ∃ closeNodes, t.findCloseNodes key count excludeContacts [] = .ok closeNodes ∧
    (closeNodes.map Contact.nodeId).Nodup ∧
    (∀ c ∈ closeNodes, c ∈ t.stored ∧ ∀ e ∈ excludeContacts, c.nodeId ≠ e.nodeId) ∧
    closeNodes.length = min count (freeCount excludeContacts t.kBuckets)

/-- The own bucket is the nearest one; or `count` is reached before it comes a second
time; or it has nothing to give and the nearest one is not missed. -/
def Reaches (t : RoutingTable) (key : KadID) (count : Nat) (excludeContacts : List Contact)
    (own nearest : KBucket) : Prop :=
  own = nearest ∨
  count ≤ freeCount excludeContacts
    (t.kBuckets.filter fun b => b ≠ nearest ∧ b.rangeMax.xor key ≤ own.rangeMax.xor key) ∨
  (free excludeContacts own = [] ∧ (free excludeContacts nearest = [] ∨
    count + (free excludeContacts nearest).length ≤ freeCount excludeContacts t.kBuckets))

instance (t : RoutingTable) (key : KadID) (count : Nat) (excludeContacts : List Contact)
    (own nearest : KBucket) : Decidable (t.Reaches key count excludeContacts own nearest) :=
  inferInstanceAs (Decidable (_ ∨ _ ∨ _ ∧ (_ ∨ _)))

/-- The own bucket gives `count` contacts, whatever the other buckets are; or no two ends
and no two ids are equal, and what is met up to the end of the list is enough. -/
def Enough (t : RoutingTable) (key : KadID) (count : Nat) (excludeContacts : List Contact)
    (own nearest : KBucket) : Prop :=
  count ≤ (free excludeContacts own).length ∨
  t.Distinct excludeContacts ∧ t.Reaches key count excludeContacts own nearest

instance (t : RoutingTable) (key : KadID) (count : Nat) (excludeContacts : List Contact)
    (own nearest : KBucket) : Decidable (t.Enough key count excludeContacts own nearest) :=
  inferInstanceAs (Decidable (_ ∨ _ ∧ _))

/-- A list `F` that is met again after `P`, in another order. -/
theorem nodup_take_twice {α β : Type} {f : α → β} {F P S Q : List α} (hFP : ((F ++ P).map f).Nodup)
    (hPQ : ((P ++ Q).map f).Nodup) (hS : S.Perm F) (n : Nat) :
    (((F ++ (P ++ (S ++ Q))).take n).map f).Nodup ↔ n ≤ (F ++ P).length ∨ F = [] := by
  have hassoc : F ++ (P ++ (S ++ Q)) = (F ++ P) ++ (S ++ Q) := by simp
  constructor
  · intro hnd
    by_contra hno
    rw [not_or, not_le] at hno
    cases hcons : S with
    | nil => exact hno.2 (List.perm_nil.mp (hcons ▸ hS.symm))
    | cons x S' =>
      have hx : x ∈ F := hS.mem_iff.mp (hcons ▸ List.mem_cons_self)
      -- the first element of `S` is reached
      have hsub : ((F ++ P) ++ [x]).Sublist ((F ++ (P ++ (S ++ Q))).take n) := by
        have hone : ((F ++ P) ++ [x]) = (F ++ (P ++ (S ++ Q))).take ((F ++ P).length + 1) := by
          rw [hassoc, hcons, List.take_length_add_append]
          rfl
        rw [hone]
        exact List.take_sublist_take_left hno.1
      have htwice := hnd.sublist (hsub.map f)
      rw [List.map_append, List.nodup_append] at htwice
      refine htwice.2.2 (f x) ?_ (f x) (by simp) rfl
      exact List.mem_map_of_mem (List.mem_append_left P hx)
  · rintro (hle | rfl)
    · rw [hassoc, List.take_append_of_le_length hle]
      exact hFP.sublist ((List.take_sublist n _).map f)
    · rw [List.perm_nil.mp hS]
      exact hPQ.sublist ((List.take_sublist n _).map f)

/-! ### Counting -/

theorem freeCount_perm {bs bs' : List KBucket} (h : bs.Perm bs') :
    freeCount excludeContacts bs = freeCount excludeContacts bs' :=
  (h.flatMap_right _).length_eq

/-- The contacts found in some of the buckets, in any order of these. -/
theorem perm_found (hB : Base t) (key : KadID) (excludeContacts : List Contact) {bs : List KBucket}
    (h : ∀ b ∈ bs, b ∈ t.kBuckets) :
    (bs.flatMap fun b => nearestFirst key (free excludeContacts b)).Perm
      (bs.flatMap (free excludeContacts)) :=
  List.Perm.flatMap_left bs fun b hb => perm_nearestFirst key (nodup_free (hB.ok b (h b hb)).1)

theorem bucket_of_found (hB : Base t) (key : KadID) (excludeContacts : List Contact)
    (hown : own ∈ t.kBuckets) {rest : List KBucket} (h : ∀ b ∈ rest, b ∈ t.kBuckets) :
    ∀ c ∈ free excludeContacts own ++
        rest.flatMap fun b => nearestFirst key (free excludeContacts b),
      ∃ b ∈ t.kBuckets, c ∈ free excludeContacts b := by
  intro c hc
  rcases List.mem_append.mp hc with hc | hc
  · exact ⟨own, hown, hc⟩
  · obtain ⟨b, hb, hcb⟩ := List.mem_flatMap.mp ((perm_found hB key excludeContacts h).mem_iff.mp hc)
    exact ⟨b, h b hb, hcb⟩

theorem nodup_found (hd : Distinct t excludeContacts) {bs : List KBucket}
    (h : bs.Subperm t.kBuckets) :
    ((bs.flatMap (free excludeContacts)).map Contact.nodeId).Nodup := by
  obtain ⟨bs', hperm, hsub⟩ := h
  have hnd := hd.ids.sublist ((hsub.flatMap _).map _)
  exact ((hperm.flatMap_right _).map _).nodup_iff.mp hnd

theorem byDistance_cons (hd : Distinct t excludeContacts) (hn : nearest ∈ t.kBuckets)
    (hmin : ∀ b ∈ t.kBuckets, nearest.rangeMax.xor key ≤ b.rangeMax.xor key) :
    ∃ rest, t.byDistance key = nearest :: rest := by
  have hperm := perm_byDistance key hd
  have hsorted := sorted_byDistance t key
  have hmem := hperm.mem_iff.mpr hn
  cases hD : t.byDistance key with
  | nil => rw [hD] at hmem; cases hmem
  | cons d rest =>
    rw [hD] at hmem hsorted hperm
    rcases List.mem_cons.mp hmem with rfl | hrest
    · exact ⟨rest, rfl⟩
    · have hlt := (List.pairwise_cons.mp hsorted).1 nearest hrest
      exact absurd (hmin d (hperm.mem_iff.mp List.mem_cons_self)) (not_le.mpr hlt)

/-- Every key of the address space has an own bucket, and a nearest one. -/
theorem exists_own_nearest (hB : Base t) (hkey : key ≤ KadID.kMaxID) :
    ∃ (u : UShort) (own nearest : KBucket), t.kBucketIndex key = .ok u ∧
      t.kBuckets[u.toNat]? = some own ∧ nearest ∈ t.kBuckets ∧
      ∀ b ∈ t.kBuckets, nearest.rangeMax.xor key ≤ b.rangeMax.xor key := by
  obtain ⟨i, b, hroutes⟩ := exists_routes hB hkey
  obtain ⟨own, hown⟩ := hroutes.bucketAt
  have hne : t.kBuckets.toFinset.Nonempty :=
    ⟨own, List.mem_toFinset.mpr (List.mem_of_getElem? hown)⟩
  obtain ⟨nearest, hn, hmin⟩ := t.kBuckets.toFinset.exists_min_image (·.rangeMax.xor key) hne
  exact ⟨_, own, nearest, kBucketIndex_of_routes hB hkey hroutes, hown, List.mem_toFinset.mp hn,
    fun b hb => hmin b (List.mem_toFinset.mpr hb)⟩

/-- A cut of contacts that are stored and not excluded. -/
theorem complete_of_eq {L : List Contact}
    (h : t.findCloseNodes key count excludeContacts [] = .ok (L.take count))
    (hL : ∀ c ∈ L, ∃ b ∈ t.kBuckets, c ∈ free excludeContacts b) :
    t.Complete key count excludeContacts ↔ ((L.take count).map Contact.nodeId).Nodup ∧
      min count L.length = min count (freeCount excludeContacts t.kBuckets) := by
  have hstored : ∀ c ∈ L.take count,
      c ∈ t.stored ∧ ∀ e ∈ excludeContacts, c.nodeId ≠ e.nodeId := by
    intro c hc
    obtain ⟨b, hb, hcb⟩ := hL c (List.mem_of_mem_take hc)
    exact ⟨List.mem_flatMap.mpr ⟨b, hb, (mem_free.mp hcb).1⟩, (mem_free.mp hcb).2⟩
  rw [← List.length_take]
  constructor
  · rintro ⟨closeNodes, hres, hnd, -, hlen⟩
    rw [h, Except.ok.injEq] at hres
    exact ⟨hres ▸ hnd, hres ▸ hlen⟩
  · intro ⟨hnd, hlen⟩
    exact ⟨L.take count, h, hnd, hstored, hlen⟩

/-- The buckets met before the own one comes a second time. -/
theorem filter_before {pre post : List KBucket}
    (hs : (nearest :: (pre ++ own :: post)).Pairwise fun b b' =>
      b.rangeMax.xor key < b'.rangeMax.xor key) :
    (nearest :: (pre ++ own :: post)).filter
      (fun b => b ≠ nearest ∧ b.rangeMax.xor key ≤ own.rangeMax.xor key) = pre ++ [own] := by
  obtain ⟨hfirst, hs⟩ := List.pairwise_cons.mp hs
  obtain ⟨-, hpost, hpre⟩ := List.pairwise_append.mp hs
  have hpost' := (List.pairwise_cons.mp hpost).1
  have hne : ∀ b ∈ pre ++ own :: post, b ≠ nearest := by
    intro b hb h
    have hlt := hfirst b hb
    rw [h] at hlt
    exact lt_irrefl _ hlt
  rw [List.filter_cons_of_neg (by simp), List.filter_append, List.filter_cons_of_pos,
    List.filter_eq_self.mpr, List.filter_eq_nil_iff.mpr]
  · intro b hb
    simpa using fun _ => hpost' b hb
  · intro b hb
    have hlt := hpre b hb own List.mem_cons_self
    simpa using ⟨hne b (List.mem_append_left _ hb), hlt.le⟩
  · simpa using hne own (List.mem_append_right _ List.mem_cons_self)

/-- With a `count` that fits into 16 bits the own bucket is not cut on its own. -/
theorem findCloseNodes_of_le (hB : Base t) (hd : Distinct t excludeContacts)
    (hu : t.kBucketIndex key = .ok u) (hown : t.kBuckets[u.toNat]? = some own)
    (hcount : count ≤ 65535) :
    t.findCloseNodes key count excludeContacts [] =
      .ok ((free excludeContacts own ++ (t.byDistance key).tail.flatMap fun b =>
        nearestFirst key (free excludeContacts b)).take count) := by
  have hcut : count - min count (free excludeContacts own).length =
      count - (free excludeContacts own).length := by omega
  rw [findCloseNodes_eq hB hd hu hown, Nat.mod_eq_of_lt (by omega), List.take_append,
    List.take_append, List.take_take, min_self, List.length_take, hcut]

/-- The own bucket is the nearest one: every bucket is met once. -/
theorem complete_of_nearest (hB : Base t) (hd : Distinct t excludeContacts) {rest : List KBucket}
    (hD : t.byDistance key = own :: rest)
    (h : t.findCloseNodes key count excludeContacts [] = .ok ((free excludeContacts own ++
      rest.flatMap fun b => nearestFirst key (free excludeContacts b)).take count)) :
    t.Complete key count excludeContacts := by
  have hperm := perm_of_byDistance hd hD
  have hmem : ∀ b ∈ own :: rest, b ∈ t.kBuckets := fun b hb => hperm.mem_iff.mp hb
  have hrest := perm_found hB key excludeContacts fun b hb => hmem b (List.mem_cons_of_mem _ hb)
  have hall := hrest.append_left (free excludeContacts own)
  have hnd := nodup_found hd hperm.subperm
  have hfound := bucket_of_found hB key excludeContacts
    (hmem own List.mem_cons_self) fun b hb => hmem b (List.mem_cons_of_mem _ hb)
  refine (complete_of_eq h hfound).mpr ⟨?_, ?_⟩
  · refine List.Nodup.sublist ((List.take_sublist _ _).map _) ?_
    rw [(hall.map _).nodup_iff, ← List.flatMap_cons]
    exact hnd
  · rw [hall.length_eq, ← List.flatMap_cons]
    exact congrArg _ (freeCount_perm hperm)

/-- The contacts met before the own bucket comes again, and those of the other buckets. -/
theorem nodup_met (hB : Base t) (hd : Distinct t excludeContacts)
    {pre post : List KBucket} (hD : t.byDistance key = nearest :: (pre ++ own :: post)) :
    ((free excludeContacts own ++
      pre.flatMap fun b => nearestFirst key (free excludeContacts b)).map Contact.nodeId).Nodup ∧
    (((pre.flatMap fun b => nearestFirst key (free excludeContacts b)) ++
      post.flatMap fun b => nearestFirst key (free excludeContacts b)).map Contact.nodeId).Nodup := by
  have hperm := perm_of_byDistance hd hD
  have hmem : ∀ b ∈ nearest :: (pre ++ own :: post), b ∈ t.kBuckets := fun b hb => hperm.mem_iff.mp hb
  have hpre := perm_found hB key excludeContacts fun b (hb : b ∈ pre) => hmem b (by simp [hb])
  have hpost := perm_found hB key excludeContacts fun b (hb : b ∈ post) => hmem b (by simp [hb])
  constructor
  · have hsub : (pre ++ [own]).Sublist (nearest :: (pre ++ own :: post)) :=
      ((List.singleton_sublist.mpr List.mem_cons_self).append_left pre).cons nearest
    have hnd := nodup_found hd (hsub.subperm.trans hperm.subperm)
    rw [List.flatMap_append, List.flatMap_singleton] at hnd
    have hcomm := (hpre.append_left (free excludeContacts own)).trans List.perm_append_comm
    exact (hcomm.map _).nodup_iff.mpr hnd
  · have hsub : (pre ++ post).Sublist (nearest :: (pre ++ own :: post)) :=
      ((List.sublist_cons_self own post).append_left pre).cons nearest
    have hnd := nodup_found hd (hsub.subperm.trans hperm.subperm)
    rw [List.flatMap_append] at hnd
    exact ((hpre.append hpost).map _).nodup_iff.mpr hnd

/-- How many contacts there are up to the own bucket, and in all. -/
theorem freeCount_met (hd : Distinct t excludeContacts) {pre post : List KBucket}
    (hD : t.byDistance key = nearest :: (pre ++ own :: post)) :
    freeCount excludeContacts (t.kBuckets.filter fun b => b ≠ nearest ∧
        b.rangeMax.xor key ≤ own.rangeMax.xor key) =
      freeCount excludeContacts pre + (free excludeContacts own).length ∧
    freeCount excludeContacts t.kBuckets = (free excludeContacts nearest).length +
      (freeCount excludeContacts pre + ((free excludeContacts own).length +
        freeCount excludeContacts post)) := by
  have hperm := perm_of_byDistance hd hD
  have hsorted := sorted_of_byDistance hD
  constructor
  · rw [← freeCount_perm (hperm.filter _), filter_before hsorted]
    simp only [freeCount, List.flatMap_append, List.flatMap_singleton, List.length_append]
  · rw [← freeCount_perm hperm]
    simp only [freeCount, List.flatMap_cons, List.flatMap_append, List.length_append]

/-- The own bucket is not the nearest one: it is met twice, and the nearest one never. -/
theorem complete_iff_of_later (hB : Base t) (hd : Distinct t excludeContacts)
    {pre post : List KBucket}
    (hD : t.byDistance key = nearest :: (pre ++ own :: post)) (hne : own ≠ nearest)
    (h : t.findCloseNodes key count excludeContacts [] = .ok ((free excludeContacts own ++
      (pre ++ own :: post).flatMap fun b => nearestFirst key (free excludeContacts b)).take count)) :
    t.Complete key count excludeContacts ↔ t.Reaches key count excludeContacts own nearest := by
  have hperm := perm_of_byDistance hd hD
  have hmem : ∀ b ∈ pre ++ own :: post, b ∈ t.kBuckets := fun b hb =>
    hperm.mem_iff.mp (List.mem_cons_of_mem _ hb)
  have hown := hmem own (List.mem_append_right _ List.mem_cons_self)
  have hpre := perm_found hB key excludeContacts fun b hb => hmem b (List.mem_append_left _ hb)
  have hpost := perm_found hB key excludeContacts fun b hb =>
    hmem b (List.mem_append_right _ (List.mem_cons_of_mem _ hb))
  have hself : (nearestFirst key (free excludeContacts own)).Perm (free excludeContacts own) :=
    perm_nearestFirst key (nodup_free (hB.ok own hown).1)
  obtain ⟨hbefore, hothers⟩ := nodup_met hB hd hD
  obtain ⟨hmet, htotal⟩ := freeCount_met hd hD
  have hpreLen := hpre.length_eq
  have hpostLen := hpost.length_eq
  rw [complete_of_eq h (bucket_of_found hB key excludeContacts hown hmem), List.flatMap_append,
    List.flatMap_cons]
  unfold Reaches
  rw [nodup_take_twice hbefore hothers hself, hmet, htotal]
  simp only [hne, false_or, List.length_append, hself.length_eq, hpreLen, hpostLen,
    ← List.length_eq_zero_iff]
  unfold freeCount
  omega

/-- The own bucket gives all of them. -/
theorem complete_of_own (hB : Base t) (hu : t.kBucketIndex key = .ok u)
    (hown : t.kBuckets[u.toNat]? = some own) (hcount : count ≤ 65535)
    (h : count ≤ (free excludeContacts own).length) :
    t.Complete key count excludeContacts := by
  have hin : own ∈ t.kBuckets := List.mem_of_getElem? hown
  have hall : (free excludeContacts own).length ≤ freeCount excludeContacts t.kBuckets := by
    have hsub := (List.singleton_sublist.mpr hin).flatMap (free excludeContacts)
    rw [List.flatMap_singleton] at hsub
    exact hsub.length_le
  refine (complete_of_eq (findCloseNodes_of_own hu hown hcount h) fun c hc =>
    ⟨own, hin, hc⟩).mpr ⟨?_, by omega⟩
  exact (nodup_free (hB.ok own hin).1).sublist ((List.take_sublist _ _).map _)

theorem complete_iff_reaches (hB : Base t) (hd : Distinct t excludeContacts)
    (hu : t.kBucketIndex key = .ok u) (hown : t.kBuckets[u.toNat]? = some own) (hn : nearest ∈ t.kBuckets)
    (hmin : ∀ b ∈ t.kBuckets, nearest.rangeMax.xor key ≤ b.rangeMax.xor key)
    (hcount : count ≤ 65535) :
    t.Complete key count excludeContacts ↔ t.Reaches key count excludeContacts own nearest := by
  have heq := findCloseNodes_of_le hB hd hu hown hcount
  obtain ⟨rest, hD⟩ := byDistance_cons hd hn hmin
  rw [hD, List.tail_cons] at heq
  by_cases hsame : own = nearest
  · subst hsame
    exact ⟨fun _ => .inl rfl, fun _ => complete_of_nearest hB hd hD heq⟩
  · have hin : own ∈ nearest :: rest :=
      hD ▸ (perm_byDistance key hd).mem_iff.mpr (List.mem_of_getElem? hown)
    obtain ⟨pre, post, rfl⟩ := List.append_of_mem ((List.mem_cons.mp hin).resolve_left hsame)
    exact complete_iff_of_later hB hd hD hsame heq

/-- **Complete, and when.** `own` is the bucket the key is routed to, `nearest` one with the
nearest upper end. -/
theorem complete_iff (hr : table.Reachable t) (hu : t.kBucketIndex key = .ok u)
    (hown : t.kBuckets[u.toNat]? = some own) (hn : nearest ∈ t.kBuckets)
    (hmin : ∀ b ∈ t.kBuckets, nearest.rangeMax.xor key ≤ b.rangeMax.xor key)
    (hcount : count ≤ 65535) :
    (t.Enough key count excludeContacts own nearest → t.Complete key count excludeContacts) ∧
    (t.Distinct excludeContacts →
      (t.Complete key count excludeContacts ↔ t.Enough key count excludeContacts own nearest)) := by
  have hB := base_inductive.reachable hr
  have henough : t.Enough key count excludeContacts own nearest →
      t.Complete key count excludeContacts := by
    rintro (h | ⟨hd, h⟩)
    · exact complete_of_own hB hu hown hcount h
    · exact (complete_iff_reaches hB hd hu hown hn hmin hcount).mpr h
  refine ⟨henough, fun hd => ⟨fun h => .inr ⟨hd, ?_⟩, henough⟩⟩
  exact (complete_iff_reaches hB hd hu hown hn hmin hcount).mp h

/-! ## One split -/

/-- The number of nine words that has only the top one. -/
def topWord (word : Ulong) (h : word ≠ 0) : KadID :=
  ⟨⟨[0, 0, 0, 0, 0, 0, 0, 0, word], by simp, by simpa using h⟩⟩

/-- The ids 200, 300, 400, and one above the upper end of the left half. -/
def addBetween : List Op :=
  ([200, 300, 400].map fun id => addOp (contactAt ⟨Rossi.ofUlong id⟩) 0) ++
    [addOp (contactAt (topWord 50000 (by decide))) 1]

theorem addBetween_isSome : (LTS.exec step (fresh 100 3 8) addBetween).isSome = true := by
  decide +kernel

/-- The left bucket holds 200, 300, 400, and the right one the fourth contact. -/
def between : RoutingTable :=
  LTS.last (fresh 100 3 8) ((LTS.exec step (fresh 100 3 8) addBetween).get addBetween_isSome)

theorem reachable_between : table.Reachable between :=
  ⟨_, _, ⟨_, _, _, rfl⟩, run_fresh addBetween_isSome⟩

def leftBetween : KBucket := between.kBuckets.getD 0 (.new .kMinID .kMinID 0)

/-- The ids 1, 200, 300 and 4, then 1 again with 200 gone: the split has moved the first 1,
which is below the table's range, into the right bucket. -/
def addTwice : List Op :=
  ([1, 200, 300].map fun id => addOp (contactAt ⟨Rossi.ofUlong id⟩) 0) ++
    [addOp (contactAt ⟨Rossi.ofUlong 4⟩) 1, .remove ⟨Rossi.ofUlong 200⟩,
      addOp (contactAt ⟨Rossi.ofUlong 1⟩) 0]

theorem addTwice_isSome : (LTS.exec step (fresh 100 3 8) addTwice).isSome = true := by
  decide +kernel

/-- The left bucket holds 1, 4 and 300, and the right one 1. -/
def storedTwice : RoutingTable :=
  LTS.last (fresh 100 3 8) ((LTS.exec step (fresh 100 3 8) addTwice).get addTwice_isSome)

theorem reachable_storedTwice : table.Reachable storedTwice :=
  ⟨_, _, ⟨_, _, _, rfl⟩, run_fresh addTwice_isSome⟩

def leftTwice : KBucket := storedTwice.kBuckets.getD 0 (.new .kMinID .kMinID 0)

/-- A key below the upper end of the left bucket, and a table with an id stored twice
whose left bucket has three contacts to give. -/
theorem complete_between : between.Complete (topWord 41000 (by decide)) 4 [] ∧
    ¬ storedTwice.Distinct [] ∧ storedTwice.Complete ⟨Rossi.ofUlong 4⟩ 3 [] := by
  have hu : between.kBucketIndex (topWord 41000 (by decide)) = .ok 0 := by decide +kernel
  have hown : between.kBuckets[(0 : UShort).toNat]? = some leftBetween := by decide +kernel
  have hn : leftBetween ∈ between.kBuckets := by decide +kernel
  have hmin : ∀ b ∈ between.kBuckets, leftBetween.rangeMax.xor (topWord 41000 (by decide)) ≤
      b.rangeMax.xor (topWord 41000 (by decide)) := by decide +kernel
  have hu' : storedTwice.kBucketIndex ⟨Rossi.ofUlong 4⟩ = .ok 0 := by decide +kernel
  have hown' : storedTwice.kBuckets[(0 : UShort).toNat]? = some leftTwice := by decide +kernel
  have hn' : leftTwice ∈ storedTwice.kBuckets := by decide +kernel
  have hmin' : ∀ b ∈ storedTwice.kBuckets, leftTwice.rangeMax.xor ⟨Rossi.ofUlong 4⟩ ≤
      b.rangeMax.xor ⟨Rossi.ofUlong 4⟩ := by decide +kernel
  exact ⟨(complete_iff reachable_between hu hown hn hmin (by decide)).1
      (.inr ⟨by decide +kernel, .inl rfl⟩), by decide +kernel,
    (complete_iff reachable_storedTwice hu' hown' hn' hmin' (by decide)).1
      (.inl (by decide +kernel))⟩

/-- The key is the fourth contact's: it comes twice, and the others do not come. -/
theorem complete_counterexample : ¬ ∀ (t : RoutingTable) (key : KadID) (count : Nat)
    (excludeContacts : List Contact), table.Reachable t → key ≤ KadID.kMaxID → count ≤ 65535 →
    t.Complete key count excludeContacts := by
  intro h
  have hkey : topWord 50000 (by decide) ≤ KadID.kMaxID := by
    rw [KadID.kMaxID_eq]
    decide +kernel
  obtain ⟨closeNodes, hres, hnd, -, -⟩ := h between _ 4 [] reachable_between hkey (by decide)
  have htwice : between.findCloseNodes (topWord 50000 (by decide)) (4 : Nat) [] [] =
      .ok [contactAt (topWord 50000 (by decide)), contactAt (topWord 50000 (by decide))] := by
    decide +kernel
  rw [htwice, Except.ok.injEq] at hres
  subst hres
  revert hnd
  decide +kernel

end Kadpeer.L3.RoutingTable
