import Kadpeer.L3Table.RoutingTable

/-!
# One activation of `AddContact`

`Base` is what every operation keeps, whatever `SplitRange` reads past the end:
`bucket_upper_address_` is rebuilt from the vector, some bucket ends at the top of
the address space, and each bucket holds at most `K_` contacts with distinct ids.

* `Routes t key i b`: bucket `b` at `i` is the first one with the smallest upper
  end not below `key`. `kBucketIndex_of_routes`: `KBucketIndex` answers `i`, cut to
  16 bits.
* `addContactLevel_succeed`, `addContactLevel_full`: what an activation does with the
  bucket it reaches. `addContact_cases`: the call, activation by activation.
* `forceK_spec`: a forced acceptance changes nothing or puts the new contact in
  the place of one of the brother bucket's.
* `splitKbucket_eq`, `routes_splitAt_left`, `routes_splitAt_right`: the two halves,
  and where an id goes after a split.
-/
namespace Kadpeer.L3.RoutingTable

open Kadpeer.Core Kadpeer.L1 Kadpeer.L2

structure Base (t : RoutingTable) : Prop where
  upper : t.bucketUpperAddress = Keyed.ofList Prod.fst (upperEntries t.kBuckets)
  limit : t.addressSpaceUpperAddress = KadID.kMaxID
  top : ∃ b ∈ t.kBuckets, b.rangeMax = KadID.kMaxID
  ok : ∀ b ∈ t.kBuckets, b.Ok ∧ b.K = t.K

variable {t : RoutingTable} {key : KadID} {i j : Nat} {b : KBucket}

/-! ## Positions -/

theorem getElem?_upperEntries (bs : List KBucket) (i : Nat) :
    (upperEntries bs)[i]? = bs[i]?.map fun b => (b.rangeMax, BitVec.ofNat 16 i) := by
  rw [upperEntries, List.getElem?_map, List.getElem?_zipIdx]
  cases bs[i]? <;> simp

theorem mem_upperEntries_first {bs : List KBucket} {e : KadID × UShort} :
    e ∈ Keyed.ofList Prod.fst (upperEntries bs) ↔ ∃ i b, bs[i]? = some b ∧ b.rangeMax = e.1 ∧
      e.2 = BitVec.ofNat 16 i ∧ ∀ k b', bs[k]? = some b' → k < i → b'.rangeMax ≠ e.1 := by
  rw [Keyed.mem_ofList, List.find?_eq_some_iff_getElem]
  have hlen : (upperEntries bs).length = bs.length := by simp [upperEntries]
  constructor
  · rintro ⟨-, i, hi, he, hfirst⟩
    have hget := getElem?_upperEntries bs i
    rw [List.getElem?_eq_getElem hi, List.getElem?_eq_getElem (hlen ▸ hi), Option.map_some, he,
      Option.some.injEq] at hget
    refine ⟨i, bs[i], List.getElem?_eq_getElem _, by rw [hget], by rw [hget], fun k b' hk hki => ?_⟩
    have hk' := hfirst k hki
    have hgk := getElem?_upperEntries bs k
    rw [List.getElem?_eq_getElem (by omega), hk, Option.map_some, Option.some.injEq] at hgk
    rw [hgk] at hk'
    simpa using hk'
  · rintro ⟨i, b, hb, hmax, hidx, hfirst⟩
    obtain ⟨hi, hbi⟩ := List.getElem?_eq_some_iff.mp hb
    refine ⟨by simp, i, by omega, ?_, fun k hki => ?_⟩
    · have hget := getElem?_upperEntries bs i
      rw [hb, List.getElem?_eq_getElem (by omega), Option.map_some, Option.some.injEq] at hget
      rw [hget, hmax, ← hidx]
    · have hgk := getElem?_upperEntries bs k
      have hkb : bs[k]? = some (bs.get ⟨k, by omega⟩) := List.getElem?_eq_getElem _
      rw [hkb, List.getElem?_eq_getElem (by omega), Option.map_some, Option.some.injEq] at hgk
      rw [hgk]
      simpa using hfirst k _ hkb hki

/-- The bucket that an id below the limit belongs to by the upper ends. -/
structure Routes (t : RoutingTable) (key : KadID) (i : Nat) (b : KBucket) : Prop where
  get : t.kBuckets[i]? = some b
  le : key ≤ b.rangeMax
  least : ∀ b' ∈ t.kBuckets, key ≤ b'.rangeMax → b.rangeMax ≤ b'.rangeMax
  first : ∀ k b', t.kBuckets[k]? = some b' → k < i → b'.rangeMax ≠ b.rangeMax

theorem lowerBound_of_routes (hB : Base t) (hr : Routes t key i b) :
    t.bucketUpperAddress.lowerBound key = some (b.rangeMax, BitVec.ofNat 16 i) := by
  rw [hB.upper, Keyed.lowerBound_eq_some]
  refine ⟨mem_upperEntries_first.mpr ⟨i, b, hr.get, rfl, rfl, hr.first⟩, hr.le, fun e he hk => ?_⟩
  obtain ⟨k, b', hb', hmax, -⟩ := mem_upperEntries_first.mp he
  rw [← hmax] at hk ⊢
  exact hr.least b' (List.mem_of_getElem? hb') hk

theorem kBucketIndex_of_routes (hB : Base t) (hkey : key ≤ KadID.kMaxID) (hr : Routes t key i b) :
    t.kBucketIndex key = .ok (BitVec.ofNat 16 i) := by
  rw [kBucketIndex, hB.limit, if_neg (not_lt.mpr hkey), lowerBound_of_routes hB hr]

theorem kBucketIndex_of_gt (hB : Base t) (hkey : KadID.kMaxID < key) :
    t.kBucketIndex key = .ok (-1) := by
  rw [kBucketIndex, hB.limit, if_pos hkey]

theorem upper_of_mem {bs : List KBucket} (hb : b ∈ bs) :
    ∃ e ∈ Keyed.ofList Prod.fst (upperEntries bs), e.1 = b.rangeMax := by
  obtain ⟨k, hk⟩ := List.getElem?_of_mem hb
  have hmem : (b.rangeMax, BitVec.ofNat 16 k) ∈ upperEntries bs := by
    refine List.mem_of_getElem? (i := k) ?_
    rw [getElem?_upperEntries, hk, Option.map_some]
  exact Keyed.ofList_key hmem

theorem exists_routes (hB : Base t) (hkey : key ≤ KadID.kMaxID) : ∃ i b, Routes t key i b := by
  cases hl : t.bucketUpperAddress.lowerBound key with
  | none =>
    rw [Keyed.lowerBound_eq_none, hB.upper] at hl
    obtain ⟨top, htop, hmax⟩ := hB.top
    obtain ⟨e, he, hek⟩ := upper_of_mem htop
    have hlt := hl e he
    rw [hek, hmax] at hlt
    exact absurd hkey (not_le.mpr hlt)
  | some e =>
    rw [Keyed.lowerBound_eq_some, hB.upper] at hl
    obtain ⟨hmem, hle, hmin⟩ := hl
    obtain ⟨i, b, hb, hbmax, -, hfirst⟩ := mem_upperEntries_first.mp hmem
    refine ⟨i, b, hb, hbmax ▸ hle, fun b' hb' hkb' => ?_, fun k b' hk hki => hbmax ▸ hfirst k b' hk hki⟩
    obtain ⟨f, hf, hfk⟩ := upper_of_mem hb'
    have hef := hmin f hf (hfk ▸ hkb')
    rwa [hbmax, ← hfk]

theorem Routes.lt (hr : Routes t key i b) : i < t.kBuckets.length :=
  (List.getElem?_eq_some_iff.mp hr.get).1

/-- The position cut to 16 bits is still one of the vector. -/
theorem Routes.bucketAt (hr : Routes t key i b) :
    ∃ b', t.kBuckets[(BitVec.ofNat 16 i).toNat]? = some b' := by
  have hlt := hr.lt
  refine ⟨_, List.getElem?_eq_getElem ?_⟩
  rw [BitVec.toNat_ofNat]
  exact Nat.lt_of_le_of_lt (Nat.mod_le _ _) hlt

theorem bucketAt_eq (h : t.kBuckets[i]? = some b) : t.bucketAt i = .ok b := by
  simp only [RoutingTable.bucketAt, h]

theorem setBucket_self (h : t.kBuckets[i]? = some b) : t.setBucket i b = t := by
  have hset : t.kBuckets.set i b = t.kBuckets := by
    obtain ⟨hi, hb⟩ := List.getElem?_eq_some_iff.mp h
    rw [← hb, List.set_getElem_self]
  rw [setBucket, hset]

/-! ## Forced acceptance -/

theorem perm_sortBy {α : Type} (lt : α → α → Bool) (l : List α) : (sortBy lt l).Perm l :=
  List.perm_insertionSort _ l

theorem map_fst_addTimeScore (c : Contact) (s : List (Contact × Int)) (n : Int) :
    (addTimeScore c s n).1.map Prod.fst = s.map Prod.fst := by
  induction s generalizing n with
  | nil => rfl
  | cons e s ih =>
    obtain ⟨d, score⟩ := e
    unfold addTimeScore
    split
    · rw [List.map_cons, List.map_cons, ih]
    · rw [List.map_cons, List.map_cons, ih]

/-- The contact that goes is one of the candidates. -/
theorem getLeastUsefulContact_mem {id holderId : KadID} {l : List Contact} {c : Contact}
    (h : getLeastUsefulContact id holderId l = some c) : c ∈ l := by
  have hfold : ∀ (l : List Contact) (s : List (Contact × Int)) (n : Int),
      (l.foldl (fun (x : List (Contact × Int) × Int) c => addTimeScore c x.1 x.2) (s, n)).1.map
        Prod.fst = s.map Prod.fst := by
    intro l
    induction l with
    | nil => intro s n; rfl
    | cons d l ih => intro s n; rw [List.foldl_cons, ih, map_fst_addTimeScore]
  unfold getLeastUsefulContact at h
  obtain ⟨e, he, rfl⟩ := Option.map_eq_some_iff.mp h
  have hmem := (perm_sortBy _ _).mem_iff.mp (List.mem_of_head? he)
  have hfst := List.mem_map_of_mem (f := Prod.fst) hmem
  have hidx : ∀ l : List Contact,
      (l.zipIdx.map fun (x : Contact × Nat) => (x.1, (x.2 + 1 : Int))).map Prod.fst = l := by
    intro l
    rw [List.map_map]
    exact List.zipIdx_map_fst 0 l
  rw [hfold, hidx] at hfst
  exact (perm_sortBy _ _).mem_iff.mp hfst

/-- A forced acceptance on behalf of the full bucket `b`, its brother not
overfull: `b` is refused, or it gives up one contact. -/
theorem forceK_spec (clock : Digest × Digest) {c : Contact} {own : KBucket}
    (hown : t.kBuckets[t.bucketOfHolder.toNat]? = some own) (hsize : own.size ≤ t.K.toNat)
    (hb : t.kBuckets[t.brotherBucketOfHolder.toNat]? = some b) (hok : b.Ok) (hK : b.K = t.K)
    (hfull : b.FullWithout c.nodeId) :
    ∃ rc t', t.forceKAcceptNewPeer clock c = .ok (rc, t') ∧
      ((rc ≠ 0 ∧ t' = t) ∨ (rc = 0 ∧ ∃ victim ∈ b.contacts,
        t' = t.setBucket t.brotherBucketOfHolder.toNat (b.evict victim.nodeId c))) := by
  have hall : b.getContacts t.K [] [] = b.contacts := hK ▸ KBucket.getContacts_all hok
  unfold forceKAcceptNewPeer
  rw [bucketAt_eq hown]
  simp only [bind, Except.bind]
  split
  · exact ⟨1, t, rfl, .inl ⟨by decide, rfl⟩⟩
  · rename_i hv
    rw [bucketAt_eq hb]
    simp only [hall]
    have hperm := perm_sortBy (compareDistance (.ofDigest clock.1) t.holderId) b.contacts
    have hlen := hperm.length_eq
    have hfl := hfull.1
    rw [if_neg (by rw [hlen, hfl, hK]; omega)]
    split
    · exact ⟨1, t, rfl, .inl ⟨by decide, rfl⟩⟩
    · rename_i it rest hdrop
      split
      · exact ⟨1, t, rfl, .inl ⟨by decide, rfl⟩⟩
      · split
        · exact ⟨-1, t, rfl, .inl ⟨by decide, rfl⟩⟩
        · rename_i victim hvictim
          have hmem : victim ∈ b.contacts := by
            have := getLeastUsefulContact_mem hvictim
            rw [← hdrop] at this
            exact hperm.mem_iff.mp (List.mem_of_mem_drop this)
          refine ⟨0, _, rfl, .inr ⟨rfl, victim, hmem, ?_⟩⟩
          rw [KBucket.addContact_evict hok hfull hmem]

/-! ## What an activation does -/

/-- The bucket that `AddContact` reaches: the position is not negative as
`short`. -/
structure Accessed (t : RoutingTable) (key : KadID) (j : Nat) (b : KBucket) : Prop where
  index : t.kBucketIndex key = .ok (BitVec.ofNat 16 j)
  lt : j < 32768
  get : t.kBuckets[j]? = some b

/-- A full bucket that is split: it covers the holder, or `K_` is at most 2. -/
def Splittable (t : RoutingTable) (b : KBucket) : Prop :=
  t.K.toNat ≤ 2 ∨ b.keyInRange t.holderId = true

instance (t : RoutingTable) (b : KBucket) : Decidable (t.Splittable b) :=
  inferInstanceAs (Decidable (_ ∨ _))

/-- The table with `c` in front of bucket `j`. -/
def pushed (t : RoutingTable) (j : Nat) (b : KBucket) (c : Contact) : RoutingTable :=
  t.setBucket j { b with contacts := c :: b.contacts.filter (·.nodeId ≠ c.nodeId) }

variable {clock : Digest × Digest} {c : Contact}

theorem asShort_ofNat (hj : j < 32768) : asShort (BitVec.ofNat 16 j) = j := by
  rw [asShort, BitVec.toInt_eq_toNat_of_lt]
  · rw [BitVec.toNat_ofNat, Nat.mod_eq_of_lt (by omega)]
  · rw [BitVec.toNat_ofNat, Nat.mod_eq_of_lt (by omega)]; omega

theorem addContactLevel_succeed (hB : Base t) (ha : Accessed t c.nodeId j b)
    (hf : ¬ b.FullWithout c.nodeId) :
    t.addContactLevel clock c = .ok (.ret 0 (t.pushed j b c)) := by
  have hok := (hB.ok b (List.mem_of_getElem? ha.get)).1
  unfold addContactLevel
  rw [ha.index]
  simp only [bind, Except.bind, asShort_ofNat ha.lt]
  rw [if_neg (by omega), Int.toNat_natCast, bucketAt_eq ha.get]
  simp only [KBucket.addContact_succeed hok hf]
  rfl

theorem addContactLevel_full (ha : Accessed t c.nodeId j b)
    (hf : b.FullWithout c.nodeId) :
    t.addContactLevel clock c =
      if t.Splittable b then .ok (.split j t)
      else if j = t.brotherBucketOfHolder.toNat then
        (t.forceKAcceptNewPeer clock c).map fun r => .ret (if r.1 ≠ 0 then 2 else 0) r.2
      else .ok (.ret 2 t) := by
  unfold addContactLevel
  rw [ha.index]
  simp only [bind, Except.bind, asShort_ofNat ha.lt]
  rw [if_neg (by omega), Int.toNat_natCast, bucketAt_eq ha.get]
  simp only [KBucket.addContact_full hf, setBucket_self ha.get]
  by_cases hs : t.Splittable b
  · rw [if_pos hs, if_neg]
    · rfl
    · rintro ⟨h2, hk⟩
      rcases hs with h | h
      · omega
      · simp [h] at hk
  · have hs' : t.K.toNat > 2 ∧ (!b.keyInRange t.holderId) = true := by
      simp only [Splittable, not_or, not_le] at hs
      exact ⟨hs.1, by simpa using hs.2⟩
    rw [if_neg hs, if_pos hs']
    simp only [asInt, Nat.cast_inj]
    split
    · cases t.forceKAcceptNewPeer clock c <;> rfl
    · rfl

theorem addContactLevel_split (ha : Accessed t c.nodeId j b) (hf : b.FullWithout c.nodeId)
    (hs : t.Splittable b) : t.addContactLevel clock c = .ok (.split j t) := by
  rw [addContactLevel_full ha hf, if_pos hs]

theorem addContactLevel_negative {u : UShort} (hu : t.kBucketIndex c.nodeId = .ok u)
    (hneg : asShort u < 0) : t.addContactLevel clock c = .ok (.ret 3 t) := by
  unfold addContactLevel
  rw [hu]
  simp only [bind, Except.bind, if_pos hneg]
  rfl

/-- An id above the limit and a position from 32768 on read as negative. -/
theorem accessed_or_negative (hB : Base t) (key : KadID) :
    (∃ u, t.kBucketIndex key = .ok u ∧ asShort u < 0) ∨ ∃ j b, Accessed t key j b := by
  rcases lt_or_ge KadID.kMaxID key with hgt | hle
  · exact .inl ⟨-1, kBucketIndex_of_gt hB hgt, by decide⟩
  · obtain ⟨i, b, hr⟩ := exists_routes hB hle
    have hidx := kBucketIndex_of_routes hB hle hr
    by_cases hneg : asShort (BitVec.ofNat 16 i) < 0
    · exact .inl ⟨_, hidx, hneg⟩
    · right
      obtain ⟨b', hb'⟩ := hr.bucketAt
      refine ⟨(BitVec.ofNat 16 i).toNat, b', ?_, ?_, hb'⟩
      · rw [BitVec.ofNat_toNat, BitVec.setWidth_eq, hidx]
      · by_contra hge
        apply hneg
        rw [asShort, BitVec.toInt_eq_toNat_cond, if_neg (by omega)]
        have := (BitVec.ofNat 16 i).isLt
        omega

/-! ## The two halves -/

/-- The left half, with the contacts in its range. -/
def leftHalf (past : Past) (b : KBucket) : KBucket :=
  let l := KBucket.new b.rangeMin (KadID.splitRange past b.rangeMin b.rangeMax).1 b.K
  { l with contacts := b.contacts.filter fun c => l.keyInRange c.nodeId }

/-- The right half, with all the others. -/
def rightHalf (past : Past) (b : KBucket) : KBucket :=
  let l := KBucket.new b.rangeMin (KadID.splitRange past b.rangeMin b.rangeMax).1 b.K
  { KBucket.new (KadID.splitRange past b.rangeMin b.rangeMax).2 b.rangeMax b.K with
    contacts := b.contacts.filter fun c => !l.keyInRange c.nodeId }

theorem distribute_eq {l r : KBucket} {cs : List Contact} (hl : l.contacts = [])
    (hr : r.contacts = []) (hlen : cs.length ≤ l.K.toNat) (hK : r.K = l.K)
    (hnd : (cs.map Contact.nodeId).Nodup) :
    distribute l r cs =
      ({ l with contacts := cs.filter fun c => l.keyInRange c.nodeId },
        { r with contacts := cs.filter fun c => !l.keyInRange c.nodeId }) := by
  induction cs with
  | nil =>
    obtain ⟨_, lc, _, _, _⟩ := l
    obtain ⟨_, rc, _, _, _⟩ := r
    cases hl
    cases hr
    rfl
  | cons c cs ih =>
    rw [List.map_cons, List.nodup_cons] at hnd
    rw [List.length_cons] at hlen
    -- no contact moved so far has the id of `c`, and there is room for one more
    have hadd : ∀ (x : KBucket) (p : Contact → Bool), x.K = l.K →
        ({ x with contacts := cs.filter p } : KBucket).addContact c =
          (.succeed, { x with contacts := c :: cs.filter p }) := by
      intro x p hx
      have := List.length_filter_le p cs
      refine KBucket.addContact_new ?_ ?_
      · show (cs.filter p).length < x.K.toNat
        rw [hx]; omega
      · exact fun ⟨d, hd, he⟩ => hnd.1 (List.mem_map.mpr ⟨d, (List.mem_filter.mp hd).1, he⟩)
    have hrange : ∀ x : List Contact, ({ l with contacts := x } : KBucket).keyInRange c.nodeId =
        l.keyInRange c.nodeId := fun _ => rfl
    rw [distribute, List.foldr_cons, ← distribute, ih (by omega) hnd.2]
    simp only [hrange]
    split
    · rename_i hin
      simp [hadd l _ rfl, hin]
    · rename_i hin
      simp [hadd r _ hK, hin]

/-- The table after the split of bucket `j`. -/
def splitAt (t : RoutingTable) (past : Past) (j : Nat) (b : KBucket) : RoutingTable :=
  let bs := t.kBuckets.take j ++ leftHalf past b :: rightHalf past b :: t.kBuckets.drop (j + 1)
  let own := if (leftHalf past b).keyInRange t.holderId then j else j + 1
  let brother := if (leftHalf past b).keyInRange t.holderId then j + 1 else j
  { t with
    kBuckets := bs
    bucketUpperAddress := Keyed.ofList Prod.fst (upperEntries bs)
    bucketOfHolder := .ofNat 16 own
    brotherBucketOfHolder := .ofNat 16 brother }

theorem splitKbucket_eq (past : Past) (hget : t.kBuckets[j]? = some b) (hok : b.Ok)
    (hK : b.K = t.K) : t.splitKbucket past j = .ok (t.splitAt past j b) := by
  have hall : b.getContacts t.K [] [] = b.contacts := hK ▸ KBucket.getContacts_all hok
  have hdist : distribute (.new b.rangeMin (KadID.splitRange past b.rangeMin b.rangeMax).1 t.K)
      (.new (KadID.splitRange past b.rangeMin b.rangeMax).2 b.rangeMax t.K) b.contacts =
        (leftHalf past b, rightHalf past b) := by
    rw [← hK]
    exact distribute_eq rfl rfl hok.size rfl hok.nodup
  unfold splitKbucket
  rw [bucketAt_eq hget]
  simp only [bind, Except.bind, hall, hdist]
  unfold splitAt
  split <;> rfl

/-- An activation that splits has touched nothing yet. -/
theorem level_split (hB : Base t) {t' : RoutingTable}
    (h : t.addContactLevel clock c = .ok (.split j t')) :
    t' = t ∧ ∃ b, Accessed t c.nodeId j b ∧ b.FullWithout c.nodeId ∧ t.Splittable b := by
  rcases accessed_or_negative hB c.nodeId with ⟨u, hu, hneg⟩ | ⟨k, b, ha⟩
  · rw [addContactLevel_negative hu hneg] at h
    cases h
  · by_cases hf : b.FullWithout c.nodeId
    · rw [addContactLevel_full ha hf] at h
      split at h
      · rename_i hs
        cases h
        exact ⟨rfl, b, ha, hf, hs⟩
      · split at h
        · cases hk : t.forceKAcceptNewPeer clock c <;> rw [hk] at h <;> cases h
        · cases h
    · rw [addContactLevel_succeed hB ha hf] at h
      cases h

/-- One that returns leaves the table alone, puts the contact in front of its
bucket, or puts it in the place of another one of the brother bucket. -/
theorem level_ret (hB : Base t) {code : Int} {t' : RoutingTable}
    (h : t.addContactLevel clock c = .ok (.ret code t')) :
    (code ≠ 0 ∧ t' = t) ∨ (code = 0 ∧ ∃ j b, Accessed t c.nodeId j b ∧
      ((¬ b.FullWithout c.nodeId ∧ t' = t.pushed j b c) ∨
        (b.FullWithout c.nodeId ∧ ¬ t.Splittable b ∧ j = t.brotherBucketOfHolder.toNat ∧
          ∃ victim ∈ b.contacts, t' = t.setBucket j (b.evict victim.nodeId c)))) := by
  rcases accessed_or_negative hB c.nodeId with ⟨u, hu, hneg⟩ | ⟨j, b, ha⟩
  · rw [addContactLevel_negative hu hneg] at h
    cases h
    exact .inl ⟨by decide, rfl⟩
  · have hmem := hB.ok b (List.mem_of_getElem? ha.get)
    by_cases hf : b.FullWithout c.nodeId
    · rw [addContactLevel_full ha hf] at h
      split at h
      · cases h
      · rename_i hs
        split at h
        · rename_i hj
          cases hown : t.kBuckets[t.bucketOfHolder.toNat]? with
          | none =>
            have hfault : t.forceKAcceptNewPeer clock c = .error .outOfBounds := by
              simp [forceKAcceptNewPeer, RoutingTable.bucketAt, hown, bind, Except.bind]
            rw [hfault] at h
            cases h
          | some own =>
            have hown' := hB.ok own (List.mem_of_getElem? hown)
            obtain ⟨rc, t₁, hk, hcase⟩ := forceK_spec clock hown
              (hown'.2 ▸ hown'.1.size) (hj ▸ ha.get) hmem.1 hmem.2 hf
            rw [hk] at h
            cases h
            rcases hcase with ⟨hrc, rfl⟩ | ⟨rfl, victim, hv, rfl⟩
            · left; simp [hrc]
            · right
              exact ⟨rfl, j, b, ha, .inr ⟨hf, hs, hj, victim, hv, by rw [← hj]⟩⟩
        · cases h
          exact .inl ⟨by decide, rfl⟩
    · rw [addContactLevel_succeed hB ha hf] at h
      cases h
      exact .inr ⟨rfl, j, b, ha, .inl ⟨hf, rfl⟩⟩

/-! ## What a split keeps -/

@[simp] theorem leftHalf_rangeMin (past : Past) (b : KBucket) :
    (leftHalf past b).rangeMin = b.rangeMin := rfl

@[simp] theorem leftHalf_rangeMax (past : Past) (b : KBucket) :
    (leftHalf past b).rangeMax = (KadID.splitRange past b.rangeMin b.rangeMax).1 := rfl

@[simp] theorem rightHalf_rangeMin (past : Past) (b : KBucket) :
    (rightHalf past b).rangeMin = (KadID.splitRange past b.rangeMin b.rangeMax).2 := rfl

@[simp] theorem rightHalf_rangeMax (past : Past) (b : KBucket) :
    (rightHalf past b).rangeMax = b.rangeMax := rfl

theorem mem_leftHalf {past : Past} {d : Contact} :
    d ∈ (leftHalf past b).contacts ↔ d ∈ b.contacts ∧ b.rangeMin ≤ d.nodeId ∧
      d.nodeId ≤ (leftHalf past b).rangeMax := by
  rw [leftHalf, List.mem_filter, KBucket.keyInRange_iff]
  rfl

theorem mem_rightHalf {past : Past} {d : Contact} :
    d ∈ (rightHalf past b).contacts ↔ d ∈ b.contacts ∧ ¬ (b.rangeMin ≤ d.nodeId ∧
      d.nodeId ≤ (leftHalf past b).rangeMax) := by
  rw [rightHalf, List.mem_filter, Bool.not_eq_true', ← Bool.not_eq_true, KBucket.keyInRange_iff]
  rfl

theorem ok_leftHalf (past : Past) (hok : b.Ok) : (leftHalf past b).Ok :=
  hok.of_sublist rfl List.filter_sublist

theorem ok_rightHalf (past : Past) (hok : b.Ok) : (rightHalf past b).Ok :=
  hok.of_sublist rfl List.filter_sublist

/-- The vector after a split, position by position. -/
theorem getElem?_splitAt (past : Past) (hj : j < t.kBuckets.length) (k : Nat) :
    (t.splitAt past j b).kBuckets[k]? =
      if k < j then t.kBuckets[k]?
      else if k = j then some (leftHalf past b)
      else if k = j + 1 then some (rightHalf past b)
      else t.kBuckets[k - 1]? := by
  have hlen : (t.kBuckets.take j).length = j := by rw [List.length_take]; omega
  simp only [splitAt]
  split
  · rename_i hk
    rw [List.getElem?_append_left (by omega), List.getElem?_take, if_pos hk]
  · rename_i hk
    rw [List.getElem?_append_right (by omega), hlen]
    split
    · rename_i hkj; rw [hkj, Nat.sub_self]; rfl
    · split
      · rename_i hkj; rw [hkj, Nat.add_sub_cancel_left]; rfl
      · rw [show k - j = (k - (j + 2)) + 2 by omega]
        simp only [List.getElem?_cons_succ, List.getElem?_drop]
        congr 1; omega

theorem length_splitAt (past : Past) (hj : j < t.kBuckets.length) :
    (t.splitAt past j b).kBuckets.length = t.kBuckets.length + 1 := by
  simp only [splitAt, List.length_append, List.length_take, List.length_cons, List.length_drop]
  omega

/-- A bucket after a split is a half, or one that was there before, at its old
position or one up. -/
theorem splitAt_cases {past : Past} (hj : j < t.kBuckets.length) {k : Nat} {d : KBucket}
    (hk : (t.splitAt past j b).kBuckets[k]? = some d) :
    (k < j ∧ t.kBuckets[k]? = some d) ∨ (k = j ∧ d = leftHalf past b) ∨
      (k = j + 1 ∧ d = rightHalf past b) ∨ (j + 1 < k ∧ t.kBuckets[k - 1]? = some d) := by
  rw [getElem?_splitAt past hj] at hk
  by_cases hlt : k < j
  · rw [if_pos hlt] at hk
    exact .inl ⟨hlt, hk⟩
  by_cases heq : k = j
  · rw [if_neg hlt, if_pos heq] at hk
    exact .inr (.inl ⟨heq, (Option.some.inj hk).symm⟩)
  by_cases hnext : k = j + 1
  · rw [if_neg hlt, if_neg heq, if_pos hnext] at hk
    exact .inr (.inr (.inl ⟨hnext, (Option.some.inj hk).symm⟩))
  · rw [if_neg hlt, if_neg heq, if_neg hnext] at hk
    exact .inr (.inr (.inr ⟨by omega, hk⟩))

theorem mem_splitAt {past : Past} {b' : KBucket} (h : b' ∈ (t.splitAt past j b).kBuckets) :
    b' = leftHalf past b ∨ b' = rightHalf past b ∨ b' ∈ t.kBuckets := by
  simp only [splitAt, List.mem_append, List.mem_cons] at h
  rcases h with h | h | h | h
  · exact .inr (.inr (List.mem_of_mem_take h))
  · exact .inl h
  · exact .inr (.inl h)
  · exact .inr (.inr (List.mem_of_mem_drop h))

theorem mem_splitAt_of_ne (past : Past) {b' : KBucket} (hget : t.kBuckets[j]? = some b)
    (h : b' ∈ t.kBuckets) : b' = b ∨ b' ∈ (t.splitAt past j b).kBuckets := by
  have hj := (List.getElem?_eq_some_iff.mp hget).1
  obtain ⟨k, hk⟩ := List.getElem?_of_mem h
  rcases Nat.lt_trichotomy k j with hlt | rfl | hgt
  · right
    refine List.mem_of_getElem? (i := k) ?_
    rw [getElem?_splitAt past hj, if_pos hlt, hk]
  · left
    rw [hget] at hk
    exact (Option.some.inj hk).symm
  · right
    refine List.mem_of_getElem? (i := k + 1) ?_
    rw [getElem?_splitAt past hj, if_neg (by omega), if_neg (by omega), if_neg (by omega),
      Nat.add_sub_cancel, hk]

theorem rightHalf_mem_splitAt (past : Past) (t : RoutingTable) (j : Nat) (b : KBucket) :
    rightHalf past b ∈ (t.splitAt past j b).kBuckets := by simp [splitAt]

theorem base_splitAt (hB : Base t) (past : Past) (hget : t.kBuckets[j]? = some b) :
    Base (t.splitAt past j b) where
  upper := rfl
  limit := hB.limit
  top := by
    obtain ⟨top, htop, hmax⟩ := hB.top
    rcases mem_splitAt_of_ne past hget htop with rfl | h
    · exact ⟨_, rightHalf_mem_splitAt past t j top, hmax⟩
    · exact ⟨top, h, hmax⟩
  ok := by
    intro b' hb'
    have hb := hB.ok b (List.mem_of_getElem? hget)
    rcases mem_splitAt hb' with rfl | rfl | h
    · exact ⟨ok_leftHalf past hb.1, hb.2⟩
    · exact ⟨ok_rightHalf past hb.1, hb.2⟩
    · exact hB.ok b' h

theorem setBucket_cases {b' d : KBucket} {k : Nat}
    (hk : (t.setBucket j b').kBuckets[k]? = some d) :
    (k = j ∧ d = b') ∨ (k ≠ j ∧ t.kBuckets[k]? = some d) := by
  rw [setBucket, List.getElem?_set] at hk
  split at hk
  · rename_i hjk
    split at hk
    · exact .inl ⟨hjk.symm, (Option.some.inj hk).symm⟩
    · cases hk
  · rename_i hne
    exact .inr ⟨fun h => hne h.symm, hk⟩

/-- What the two buckets have in common is the same at each position. -/
theorem getElem?_map_setBucket {α : Type} {f : KBucket → α} {b' : KBucket}
    (hget : t.kBuckets[j]? = some b) (h : f b' = f b) (k : Nat) :
    (t.setBucket j b').kBuckets[k]?.map f = t.kBuckets[k]?.map f := by
  rw [setBucket, List.getElem?_set]
  split
  · rename_i hjk
    rw [if_pos (List.getElem?_eq_some_iff.mp hget).1, ← hjk, hget, Option.map_some, Option.map_some, h]
  · rfl

/-- A bucket in the place of another with the same range changes no position. -/
theorem base_setBucket (hB : Base t) {b' : KBucket} (hget : t.kBuckets[j]? = some b)
    (hmax : b'.rangeMax = b.rangeMax) (hok : b'.Ok) (hK : b'.K = t.K) : Base (t.setBucket j b') where
  upper := by
    have hsame : upperEntries (t.setBucket j b').kBuckets = upperEntries t.kBuckets := by
      refine List.ext_getElem? fun k => ?_
      rw [getElem?_upperEntries, getElem?_upperEntries,
        getElem?_map_setBucket hget (by rw [hmax])]
    rw [hsame]
    exact hB.upper
  limit := hB.limit
  top := by
    obtain ⟨top, htop, hm⟩ := hB.top
    obtain ⟨k, hk⟩ := List.getElem?_of_mem htop
    obtain ⟨hj, -⟩ := List.getElem?_eq_some_iff.mp hget
    by_cases hjk : j = k
    · subst hjk
      rw [hget, Option.some.injEq] at hk
      refine ⟨b', List.mem_of_getElem? (i := j) ?_, by rw [hmax, hk, hm]⟩
      rw [setBucket, List.getElem?_set_self hj]
    · refine ⟨top, List.mem_of_getElem? (i := k) ?_, hm⟩
      rw [setBucket, List.getElem?_set_ne hjk, hk]
  ok := by
    intro d hd
    rcases List.mem_or_eq_of_mem_set hd with h | rfl
    · exact hB.ok d h
    · exact ⟨hok, hK⟩

/-! ## Where an id goes after a split -/

section Split

variable {past : Past} {p : Nat} {bp : KBucket}

/-- To the left half, if its upper end is the smallest one not below the id. -/
theorem routes_splitAt_left (hr : Routes t key p bp) (hjp : j ≤ p) (hget : t.kBuckets[j]? = some b)
    (hle : key ≤ (leftHalf past b).rangeMax) (hbp : (leftHalf past b).rangeMax ≤ bp.rangeMax) :
    Routes (t.splitAt past j b) key j (leftHalf past b) where
  get := by
    rw [getElem?_splitAt past (List.getElem?_eq_some_iff.mp hget).1, if_neg (by omega), if_pos rfl]
  le := hle
  least := by
    intro b' hb' hk
    rcases mem_splitAt hb' with rfl | rfl | h
    · exact le_refl _
    · exact hbp.trans (hr.least b (List.mem_of_getElem? hget) hk)
    · exact hbp.trans (hr.least b' h hk)
  first := by
    intro k b' hk hkj heq
    rw [getElem?_splitAt past (List.getElem?_eq_some_iff.mp hget).1, if_pos hkj] at hk
    have hmin : bp.rangeMax ≤ b'.rangeMax :=
      hr.least b' (List.mem_of_getElem? hk) (by rw [heq]; exact hle)
    have hmax : b'.rangeMax ≤ bp.rangeMax := by rw [heq]; exact hbp
    exact hr.first k b' hk (Nat.lt_of_lt_of_le hkj hjp) (le_antisymm hmax hmin)

/-- Otherwise one position up from where it was before. -/
theorem routes_splitAt_right (hr : Routes t key p bp) (hjp : j ≤ p) (hget : t.kBuckets[j]? = some b)
    (hnot : ¬ (key ≤ (leftHalf past b).rangeMax ∧ (leftHalf past b).rangeMax ≤ bp.rangeMax)) :
    ∃ b', Routes (t.splitAt past j b) key (p + 1) b' ∧ b'.rangeMax = bp.rangeMax := by
  have hj := (List.getElem?_eq_some_iff.mp hget).1
  have hright : t.kBuckets[j]? = some bp ∧ p = j ∨ p ≠ j := by
    by_cases h : p = j
    · exact .inl ⟨h ▸ hr.get, h⟩
    · exact .inr h
  obtain ⟨b', hb', hmax⟩ : ∃ b', (t.splitAt past j b).kBuckets[p + 1]? = some b' ∧
      b'.rangeMax = bp.rangeMax := by
    rcases hright with ⟨hbp, rfl⟩ | hne
    · refine ⟨rightHalf past b, ?_, ?_⟩
      · rw [getElem?_splitAt past hj, if_neg (by omega), if_neg (by omega), if_pos rfl]
      · rw [hget, Option.some.injEq] at hbp
        rw [rightHalf_rangeMax, hbp]
    · refine ⟨bp, ?_, rfl⟩
      rw [getElem?_splitAt past hj, if_neg (by omega), if_neg (by omega), if_neg (by omega),
        Nat.add_sub_cancel, hr.get]
  have hleft : (leftHalf past b).rangeMax ≠ bp.rangeMax := by
    intro h
    rw [h] at hnot
    exact hnot ⟨hr.le, le_refl _⟩
  have hle : key ≤ b'.rangeMax := by rw [hmax]; exact hr.le
  refine ⟨b', ⟨hb', hle, fun d hd hk => ?_, fun k d hk hkp => ?_⟩, hmax⟩
  · rw [hmax]
    rcases mem_splitAt hd with rfl | rfl | h
    · exact le_of_lt (not_le.mp fun hle => hnot ⟨hk, hle⟩)
    · exact hr.least b (List.mem_of_getElem? hget) hk
    · exact hr.least d h hk
  · rw [hmax]
    obtain ⟨hlt, hk⟩ | ⟨-, rfl⟩ | ⟨rfl, rfl⟩ | ⟨hgt, hk⟩ := splitAt_cases hj hk
    · exact hr.first k d hk (by omega)
    · exact hleft
    · exact hr.first j b hget (by omega)
    · exact hr.first (k - 1) d hk (by omega)

end Split

/-! ## Whole calls -/

theorem addContact_of_ret {code : Int} {t' : RoutingTable}
    (h : t.addContactLevel clock c = .ok (.ret code t')) (pasts : List Past) :
    addContact clock c pasts t = .ok (some (code, t', pasts)) := by
  unfold addContact
  rw [h]
  rfl

theorem addContact_nil_of_split {t' : RoutingTable}
    (h : t.addContactLevel clock c = .ok (.split j t')) : addContact clock c [] t = .ok none := by
  unfold addContact
  rw [h]
  rfl

theorem addContact_cons_of_split {t' : RoutingTable}
    (h : t.addContactLevel clock c = .ok (.split j t')) (past : Past) (pasts : List Past) :
    addContact clock c (past :: pasts) t = t'.splitKbucket past j >>= addContact clock c pasts := by
  rw [addContact, h]
  rfl

theorem addContact_of_error {f : Fault} (h : t.addContactLevel clock c = .error f)
    (pasts : List Past) : addContact clock c pasts t = .error f := by
  unfold addContact
  rw [h]
  rfl

/-- A split bucket is replaced by its halves, and the call goes on. -/
theorem addContact_cons_splitAt (hB : Base t) {t' : RoutingTable}
    (h : t.addContactLevel clock c = .ok (.split j t')) (past : Past) (pasts : List Past) :
    ∃ b, Accessed t c.nodeId j b ∧ b.FullWithout c.nodeId ∧ t.Splittable b ∧
      t'.splitKbucket past j = .ok (t.splitAt past j b) ∧
      addContact clock c (past :: pasts) t = addContact clock c pasts (t.splitAt past j b) := by
  obtain ⟨rfl, b, ha, hf, hs⟩ := level_split hB h
  have hok := hB.ok b (List.mem_of_getElem? ha.get)
  have hsplit := splitKbucket_eq past ha.get hok.1 hok.2
  refine ⟨b, ha, hf, hs, hsplit, ?_⟩
  rw [addContact_cons_of_split h, hsplit]
  rfl

/-- The last activation has returned, or a bucket was split and the call went on. -/
theorem addContact_cases (hB : Base t) {pasts rest : List Past} {code : Int} {t' : RoutingTable}
    (h : addContact clock c pasts t = .ok (some (code, t', rest))) :
    (rest = pasts ∧ t.addContactLevel clock c = .ok (.ret code t')) ∨
    ∃ past pasts' j s b, pasts = past :: pasts' ∧ t.addContactLevel clock c = .ok (.split j s) ∧
      Accessed t c.nodeId j b ∧ b.FullWithout c.nodeId ∧ t.Splittable b ∧
      s.splitKbucket past j = .ok (t.splitAt past j b) ∧
      addContact clock c pasts' (t.splitAt past j b) = .ok (some (code, t', rest)) := by
  cases hl : t.addContactLevel clock c with
  | error f =>
    rw [addContact_of_error hl] at h
    cases h
  | ok l =>
    cases l with
    | ret code₁ t₁ =>
      rw [addContact_of_ret hl] at h
      cases h
      exact .inl ⟨rfl, rfl⟩
    | split j s =>
      cases pasts with
      | nil =>
        rw [addContact_nil_of_split hl] at h
        cases h
      | cons past pasts =>
        obtain ⟨b, ha, hf, hs, hsplitAt, heq⟩ := addContact_cons_splitAt hB hl past pasts
        exact .inr ⟨past, pasts, j, s, b, rfl, rfl, ha, hf, hs, hsplitAt, heq ▸ h⟩

/-- `AddContact` comes from the table `t` to the table `t₁` by splits alone, and has
`rest` left of the words read past the end. -/
inductive Splits (clock : Digest × Digest) (c : Contact) :
    List Past → RoutingTable → List Past → RoutingTable → Prop
  | refl (pasts : List Past) (t : RoutingTable) : Splits clock c pasts t pasts t
  | cons {past : Past} {pasts rest : List Past} {t s u t₁ : RoutingTable} {j : Nat}
      (hl : t.addContactLevel clock c = .ok (.split j s)) (hs : s.splitKbucket past j = .ok u)
      (h : Splits clock c pasts u rest t₁) : Splits clock c (past :: pasts) t rest t₁

/-- What every split keeps holds when the last activation returns. -/
theorem addContact_last {I : RoutingTable → Prop} (good : Past → Prop) (hI : ∀ t, I t → Base t)
    (hsplit : ∀ t past j b, I t → good past → Accessed t c.nodeId j b → b.FullWithout c.nodeId →
      t.Splittable b → I (t.splitAt past j b))
    {pasts rest : List Past} {code : Int} {t' : RoutingTable} (ht : I t)
    (hgood : ∀ past ∈ pasts, good past)
    (h : addContact clock c pasts t = .ok (some (code, t', rest))) :
    ∃ t₁, I t₁ ∧ Splits clock c pasts t rest t₁ ∧
      t₁.addContactLevel clock c = .ok (.ret code t') := by
  induction pasts generalizing t with
  | nil =>
    obtain ⟨rfl, hl⟩ | ⟨past, pasts', j, s, b, hpasts, -⟩ := addContact_cases (hI t ht) h
    · exact ⟨t, ht, .refl _ _, hl⟩
    · cases hpasts
  | cons past pasts ih =>
    obtain ⟨rfl, hl⟩ | ⟨past', pasts', j, s, b, hpasts, hl, ha, hf, hs, hsplitAt, h⟩ :=
      addContact_cases (hI t ht) h
    · exact ⟨t, ht, .refl _ _, hl⟩
    · cases hpasts
      obtain ⟨t₁, hI₁, hsplits, hret⟩ := ih
        (hsplit t past j b ht (hgood past List.mem_cons_self) ha hf hs)
        (fun q hq => hgood q (List.mem_cons_of_mem _ hq)) h
      exact ⟨t₁, hI₁, .cons hl hsplitAt hsplits, hret⟩

/-- A split is a `splitAt` of the bucket that the id is routed to. -/
theorem splitAt_of_level (hB : Base t) {s u : RoutingTable} {past : Past}
    (hl : t.addContactLevel clock c = .ok (.split j s)) (hs : s.splitKbucket past j = .ok u) :
    ∃ b, Accessed t c.nodeId j b ∧ b.FullWithout c.nodeId ∧ t.Splittable b ∧
      u = t.splitAt past j b := by
  obtain ⟨b, ha, hf, hsp, hsplit, -⟩ := addContact_cons_splitAt hB hl past []
  rw [hs, Except.ok.injEq] at hsplit
  exact ⟨b, ha, hf, hsp, hsplit⟩

/-- A bucket that took a contact is still one. -/
theorem base_level_ret (hB : Base t) {code : Int} {t' : RoutingTable}
    (h : t.addContactLevel clock c = .ok (.ret code t')) : Base t' := by
  rcases level_ret hB h with ⟨-, rfl⟩ | ⟨-, j, b, ha, ⟨hf, rfl⟩ | ⟨hf, -, -, victim, hv, rfl⟩⟩
  · exact hB
  · have hb := hB.ok b (List.mem_of_getElem? ha.get)
    have hok := KBucket.ok_addContact hb.1 c
    rw [KBucket.addContact_succeed hb.1 hf] at hok
    exact base_setBucket hB ha.get rfl hok hb.2
  · have hb := hB.ok b (List.mem_of_getElem? ha.get)
    exact base_setBucket hB ha.get rfl (KBucket.ok_evict hb.1 hf hv) hb.2

theorem base_addContact (hB : Base t) {pasts rest : List Past} {code : Int} {t' : RoutingTable}
    (h : addContact clock c pasts t = .ok (some (code, t', rest))) : Base t' := by
  obtain ⟨t₁, h₁, -, hl⟩ := addContact_last (fun _ => True) (fun _ h => h)
    (fun t past j b hB _ ha _ _ => base_splitAt hB past ha.get) hB (fun _ _ => trivial) h
  exact base_level_ret h₁ hl

theorem base_single (t : RoutingTable) (hlim : t.addressSpaceUpperAddress = KadID.kMaxID)
    (hb : t.kBuckets = [b]) (hmax : b.rangeMax = KadID.kMaxID) (hok : b.Ok) (hK : b.K = t.K)
    (hu : t.bucketUpperAddress = Keyed.empty.insert (b.rangeMax, 0)) : Base t where
  upper := by rw [hu, hb]; rfl
  limit := hlim
  top := ⟨b, by rw [hb]; exact List.mem_singleton_self b, hmax⟩
  ok := by
    intro b' hb'
    rw [hb, List.mem_singleton] at hb'
    exact hb' ▸ ⟨hok, hK⟩

theorem base_new (holderId : KadID) (rtK : UShort) (minRange : Digest) :
    Base (new holderId rtK minRange) :=
  base_single _ rfl rfl rfl (KBucket.ok_new _ _ _) rfl rfl

theorem base_clear (hB : Base t) (minRange : Digest) : Base (t.clear minRange) :=
  base_single _ hB.limit rfl hB.limit (KBucket.ok_new _ _ _) rfl rfl

/-- What `GetContact`, `TouchKBucket` and `RemoveContact` make of a position:
below the limit it is one of the vector, above it it is 65535. -/
theorem index_cases (hB : Base t) (key : KadID) :
    (key ≤ KadID.kMaxID ∧ ∃ u b, t.kBucketIndex key = .ok u ∧ t.kBuckets[u.toNat]? = some b) ∨
      (KadID.kMaxID < key ∧ t.kBucketIndex key = .ok (-1)) := by
  rcases lt_or_ge KadID.kMaxID key with hgt | hle
  · exact .inr ⟨hgt, kBucketIndex_of_gt hB hgt⟩
  · obtain ⟨i, b, hr⟩ := exists_routes hB hle
    obtain ⟨b', hb'⟩ := hr.bucketAt
    exact .inl ⟨hle, _, b', kBucketIndex_of_routes hB hle hr, hb'⟩

theorem not_asInt_neg (u : UShort) : ¬ asInt u < 0 := by unfold asInt; omega

@[simp] theorem toNat_asInt (u : UShort) : (asInt u).toNat = u.toNat := Int.toNat_natCast _

theorem removeContact_of_index {u : UShort} (hu : t.kBucketIndex key = .ok u)
    (hb : t.kBuckets[u.toNat]? = some b) :
    t.removeContact key = .ok (t.setBucket u.toNat (b.removeContact key)) := by
  unfold removeContact
  rw [hu]
  simp only [bind, Except.bind, if_neg (not_asInt_neg u), toNat_asInt, bucketAt_eq hb]
  rfl

theorem touchKBucket_of_index {u : UShort} (hu : t.kBucketIndex key = .ok u)
    (hb : t.kBuckets[u.toNat]? = some b) (current : BitVec 32) :
    t.touchKBucket key current = .ok (t.setBucket u.toNat (b.setLastAccessed current)) := by
  unfold touchKBucket
  rw [hu]
  simp only [bind, Except.bind, if_neg (not_asInt_neg u), toNat_asInt, bucketAt_eq hb]
  rfl

theorem getContact_of_index {u : UShort} (hu : t.kBucketIndex key = .ok u)
    (hb : t.kBuckets[u.toNat]? = some b) : t.getContact key = .ok (b.getContact key) := by
  unfold getContact
  rw [hu]
  simp only [bind, Except.bind, if_neg (not_asInt_neg u), toNat_asInt, bucketAt_eq hb]
  rfl

theorem exists_kBucketIndex (hB : Base t) (key : KadID) : ∃ u, t.kBucketIndex key = .ok u := by
  rcases index_cases hB key with ⟨-, u, b, hu, -⟩ | ⟨-, hu⟩
  · exact ⟨u, hu⟩
  · exact ⟨-1, hu⟩

/-- What a `RemoveContact` that returns has done. -/
theorem removeContact_cases (hB : Base t) {t' : RoutingTable} (h : t.removeContact key = .ok t') :
    ∃ u b, t.kBucketIndex key = .ok u ∧ t.kBuckets[u.toNat]? = some b ∧
      t' = t.setBucket u.toNat (b.removeContact key) := by
  obtain ⟨u, hu⟩ := exists_kBucketIndex hB key
  cases hb : t.kBuckets[u.toNat]? with
  | none =>
    have hfault : t.removeContact key = .error .outOfBounds := by
      unfold removeContact
      rw [hu]
      simp only [bind, Except.bind, if_neg (not_asInt_neg u), toNat_asInt, RoutingTable.bucketAt, hb]
    rw [hfault] at h
    cases h
  | some b =>
    rw [removeContact_of_index hu hb] at h
    exact ⟨u, b, hu, hb, (Except.ok.inj h).symm⟩

theorem touchKBucket_cases (hB : Base t) {current : BitVec 32} {t' : RoutingTable}
    (h : t.touchKBucket key current = .ok t') :
    ∃ u b, t.kBucketIndex key = .ok u ∧ t.kBuckets[u.toNat]? = some b ∧
      t' = t.setBucket u.toNat (b.setLastAccessed current) := by
  obtain ⟨u, hu⟩ := exists_kBucketIndex hB key
  cases hb : t.kBuckets[u.toNat]? with
  | none =>
    have hfault : t.touchKBucket key current = .error .outOfBounds := by
      unfold touchKBucket
      rw [hu]
      simp only [bind, Except.bind, if_neg (not_asInt_neg u), toNat_asInt, RoutingTable.bucketAt, hb]
    rw [hfault] at h
    cases h
  | some b =>
    rw [touchKBucket_of_index hu hb] at h
    exact ⟨u, b, hu, hb, (Except.ok.inj h).symm⟩

/-! ## Transitions -/

theorem step_add {pasts : List Past} {t' : RoutingTable}
    (h : step t (.add c clock pasts) = some t') :
    ∃ code, addContact clock c pasts t = .ok (some (code, t', [])) := by
  simp only [step] at h
  split at h
  · rename_i code t₁ heq
    cases h
    exact ⟨code, heq⟩
  · cases h

theorem toOption_eq_some {α : Type} {x : Except Fault α} {a : α} (h : x.toOption = some a) :
    x = .ok a := by
  cases x with
  | error f => cases h
  | ok b => cases h; rfl

theorem step_remove {id : KadID} {t' : RoutingTable} (h : step t (.remove id) = some t') :
    t.removeContact id = .ok t' := toOption_eq_some h

theorem step_touch {id : KadID} {current : BitVec 32} {t' : RoutingTable}
    (h : step t (.touch id current) = some t') : t.touchKBucket id current = .ok t' :=
  toOption_eq_some h

theorem base_step {op : Op} {t' : RoutingTable} (hB : Base t) (h : step t op = some t') :
    Base t' := by
  cases op with
  | add c clock pasts =>
    obtain ⟨code, h⟩ := step_add h
    exact base_addContact hB h
  | remove id =>
    obtain ⟨u, b, -, hb, rfl⟩ := removeContact_cases hB (step_remove h)
    have hok := hB.ok b (List.mem_of_getElem? hb)
    exact base_setBucket hB hb rfl (KBucket.ok_removeContact hok.1 id) hok.2
  | touch id current =>
    obtain ⟨u, b, -, hb, rfl⟩ := touchKBucket_cases hB (step_touch h)
    have hok := hB.ok b (List.mem_of_getElem? hb)
    exact base_setBucket hB hb rfl (KBucket.ok_setLastAccessed hok.1 current) hok.2
  | clear minRange =>
    cases h
    exact base_clear hB minRange

theorem base_inductive : table.Inductive Base where
  init := by
    rintro t ⟨holderId, rtK, minRange, rfl⟩
    exact base_new holderId rtK minRange
  step := fun _ _ _ hB h => base_step hB h

/-! ## Ranges -/

/-- The ranges in vector order. -/
def ranges (t : RoutingTable) : List (KadID × KadID) :=
  t.kBuckets.map fun b => (b.rangeMin, b.rangeMax)

theorem getElem?_ranges (t : RoutingTable) (i : Nat) :
    t.ranges[i]? = t.kBuckets[i]?.map fun b => (b.rangeMin, b.rangeMax) := List.getElem?_map

theorem ranges_setBucket {b' : KBucket} (hget : t.kBuckets[j]? = some b)
    (hmin : b'.rangeMin = b.rangeMin) (hmax : b'.rangeMax = b.rangeMax) :
    (t.setBucket j b').ranges = t.ranges := by
  refine List.ext_getElem? fun k => ?_
  rw [getElem?_ranges, getElem?_ranges, getElem?_map_setBucket hget (by rw [hmin, hmax])]

theorem ranges_level_ret (hB : Base t) {code : Int} {t' : RoutingTable}
    (h : t.addContactLevel clock c = .ok (.ret code t')) : t'.ranges = t.ranges := by
  rcases level_ret hB h with ⟨-, rfl⟩ | ⟨-, j, b, ha, ⟨-, rfl⟩ | ⟨-, -, -, victim, -, rfl⟩⟩
  · rfl
  · exact ranges_setBucket ha.get rfl rfl
  · exact ranges_setBucket ha.get rfl rfl

end Kadpeer.L3.RoutingTable
