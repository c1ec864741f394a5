import Kadpeer.L3Table.FindClose
import Kadpeer.L3Table.Recency

/-!
# The furthest contacts (`kademlia/kadroutingtable.cpp`)

`GetFurthestContacts` takes all contacts that are not excluded, sorts them by their
distance from the key, turns the list round and cuts it. The sort goes through a map from
the distance to the contact, so of two contacts with one id it keeps the first and then
reports the loss, and `GetFurthestContacts` answers nothing at all.

* `sortContactsByDistance_ret`: the sort succeeds exactly on distinct ids.
* `furthestReturned_iff`: the answer is right exactly when no two of the contacts have one id.
* `furthestReturned_counterexample`: the contact 1 in two buckets.
-/
namespace Kadpeer.L3.RoutingTable

open Kadpeer.Core Kadpeer.L1 Kadpeer.L2

/-- `*close_nodes` after the call. `count < -1` is a comparison of `int`s. Mirrors
src/src/kademlia/kadroutingtable.cpp:352-379. -/
def getFurthestContacts (t : RoutingTable) (key : KadID) (count : UShort)
    (excludeContacts closeNodes : List Contact) : List Contact :=
  if asInt count < -1 ∨ asInt count = 0 then []
  else
    let closeNodes := t.kBuckets.foldl
      (fun closeNodes b => b.getContacts t.K excludeContacts closeNodes) closeNodes
    let (a, closeNodes) := sortContactsByDistance key closeNodes
    if a ≠ 0 then []
    else
      let closeNodes := closeNodes.reverse
      if asInt count > 0 ∧ closeNodes.length > count.toNat then closeNodes.take count.toNat
      else closeNodes

/-- The stored contacts that are not excluded. -/
def available (t : RoutingTable) (excludeContacts : List Contact) : List Contact :=
  t.kBuckets.flatMap (free excludeContacts)

/-- As many of the available contacts as there are ids, up to `count`, the furthest first;
whoever is left out is nearer than all of them. -/
structure FurthestReturned (t : RoutingTable) (key : KadID) (count : UShort)
    (excludeContacts : List Contact) : Prop where
  available : ∀ c ∈ t.getFurthestContacts key count excludeContacts [],
    c ∈ t.available excludeContacts
  length : (t.getFurthestContacts key count excludeContacts []).length =
    min count.toNat ((t.available excludeContacts).map Contact.nodeId).dedup.length
  decreasing : (t.getFurthestContacts key count excludeContacts []).Pairwise
    fun c d => d.nodeId.xor key < c.nodeId.xor key
  furthest : ∀ c ∈ t.getFurthestContacts key count excludeContacts [],
    ∀ d ∈ t.available excludeContacts,
      d.nodeId ∉ (t.getFurthestContacts key count excludeContacts []).map Contact.nodeId →
      d.nodeId.xor key < c.nodeId.xor key

variable {t : RoutingTable} {key : KadID} {count : UShort} {excludeContacts cs : List Contact}

/-! ## The sort -/

/-- A sort that loses no contact had no two contacts of one id. -/
theorem sortContactsByDistance_ret :
    (sortContactsByDistance key cs).1 = 0 ↔ (cs.map Contact.nodeId).Nodup := by
  constructor
  · intro h
    have hsorted : (Keyed.ofList Prod.fst (cs.map fun c => (c.nodeId.xor key, c))).toList.map
        Prod.snd = nearestFirst key cs := by
      rw [Keyed.ofList_map, List.map_map]
      exact List.map_id _
    have hlen : (nearestFirst key cs).length = cs.length := by
      by_contra hne
      simp [sortContactsByDistance, hsorted, hne] at h
    have hsub : (nearestFirst key cs).Subperm cs :=
      List.subperm_of_subset (Keyed.nodup_toList _) fun c hc => Keyed.mem_of_mem_ofList hc
    have hperm := hsub.perm_of_length_le hlen.ge
    have hkeys : ((nearestFirst key cs).map fun c => c.nodeId.xor key).Nodup := by
      rw [List.Nodup, List.pairwise_map]
      exact (Keyed.sorted _).imp ne_of_lt
    have hmap : (nearestFirst key cs).map (fun c => c.nodeId.xor key) =
        ((nearestFirst key cs).map Contact.nodeId).map (·.xor key) := by
      rw [List.map_map]
      rfl
    rw [hmap] at hkeys
    exact (hperm.map _).nodup_iff.mp (hkeys.of_map _)
  · intro h
    rw [sortContactsByDistance_eq h]

/-! ## The result -/

theorem foldl_getContacts (hB : Base t) {bs : List KBucket} (h : ∀ b ∈ bs, b ∈ t.kBuckets)
    (closeNodes : List Contact) :
    bs.foldl (fun closeNodes b => b.getContacts t.K excludeContacts closeNodes) closeNodes =
      closeNodes ++ bs.flatMap (free excludeContacts) := by
  induction bs generalizing closeNodes with
  | nil => simp
  | cons b bs ih =>
    have hok := hB.ok b (h b List.mem_cons_self)
    have hone : b.getContacts t.K excludeContacts closeNodes =
        closeNodes ++ free excludeContacts b := by
      rw [← getContacts_K hok.1 hok.2, KBucket.getContacts, KBucket.getContacts, List.nil_append]
    rw [List.foldl_cons, hone, ih fun d hd => h d (.tail _ hd), List.flatMap_cons,
      List.append_assoc]

theorem getFurthestContacts_eq (hB : Base t) (key : KadID) (hcount : 1 ≤ count.toNat)
    (excludeContacts : List Contact) :
    t.getFurthestContacts key count excludeContacts [] =
      if ((t.available excludeContacts).map Contact.nodeId).Nodup then
        (nearestFirst key (t.available excludeContacts)).reverse.take count.toNat
      else [] := by
  unfold getFurthestContacts
  rw [if_neg (by unfold asInt; omega), foldl_getContacts hB fun b hb => hb, List.nil_append,
    ← available]
  by_cases hnd : ((t.available excludeContacts).map Contact.nodeId).Nodup
  · rw [if_pos hnd]
    simp only [sortContactsByDistance_eq hnd, ne_eq, not_true_eq_false, if_false]
    split
    · rfl
    · rename_i hlen
      rw [not_and_or] at hlen
      rw [List.take_of_length_le]
      unfold asInt at hlen
      omega
  · have hret : (sortContactsByDistance key (t.available excludeContacts)).1 ≠ 0 :=
      fun h => hnd (sortContactsByDistance_ret.mp h)
    rw [if_neg hnd]
    simp only [hret, ne_eq, not_false_eq_true, if_true]

/-- **The furthest contacts, and when.** -/
theorem furthestReturned_iff (hr : table.Reachable t) (hcount : 1 ≤ count.toNat) :
    t.FurthestReturned key count excludeContacts ↔
      ((t.available excludeContacts).map Contact.nodeId).Nodup := by
  have heq := getFurthestContacts_eq (base_inductive.reachable hr) key hcount excludeContacts
  constructor
  · intro h
    by_contra hnd
    rw [if_neg hnd] at heq
    have hlen := h.length
    rw [heq, List.length_nil] at hlen
    have hnone : ((t.available excludeContacts).map Contact.nodeId).dedup = [] := by
      rw [← List.length_eq_zero_iff]
      omega
    rw [List.dedup_eq_nil] at hnone
    exact hnd (hnone ▸ List.nodup_nil)
  · intro hnd
    rw [if_pos hnd] at heq
    have hperm := perm_nearestFirst key hnd
    have hdecreasing : (nearestFirst key (t.available excludeContacts)).reverse.Pairwise
        fun c d => d.nodeId.xor key < c.nodeId.xor key :=
      List.pairwise_reverse.mpr (Keyed.sorted _)
    refine ⟨?_, ?_, ?_, ?_⟩
    · intro c hc
      rw [heq] at hc
      exact hperm.mem_iff.mp (List.mem_reverse.mp (List.mem_of_mem_take hc))
    · rw [heq, List.dedup_eq_self.mpr hnd, List.length_take, List.length_reverse, List.length_map,
        hperm.length_eq]
    · rw [heq]
      exact hdecreasing.take
    · intro c hc d hd hnot
      rw [heq] at hc hnot
      have hin : d ∈ (nearestFirst key (t.available excludeContacts)).reverse :=
        List.mem_reverse.mpr (hperm.mem_iff.mpr hd)
      rw [← List.take_append_drop count.toNat (nearestFirst key _).reverse, List.mem_append] at hin
      have hlate := hin.resolve_left fun h => hnot (List.mem_map_of_mem h)
      exact hdecreasing.rel_of_mem_take_of_mem_drop hc hlate

/-! ## The contact 1 twice -/

theorem addAbove_reachable : table.Reachable
    (LTS.last (fresh 100 3 8) ((LTS.exec step (fresh 100 3 8) addAbove).get addAbove_isSome)) :=
  ⟨_, _, ⟨_, _, _, rfl⟩, run_fresh addAbove_isSome⟩

theorem furthestReturned_addAbove : (LTS.last (fresh 100 3 8)
    ((LTS.exec step (fresh 100 3 8) addAbove).get addAbove_isSome)).FurthestReturned
      ⟨Rossi.ofUlong 200⟩ 2 [] :=
  (furthestReturned_iff addAbove_reachable (by decide)).mpr (by decide +kernel)

theorem addStale_isSome : (LTS.exec step (fresh 100 3 8) addStale).isSome = true := by
  decide +kernel

/-- With the contact 1 in both buckets there are four ids to answer with, and the answer is
empty. -/
theorem furthestReturned_counterexample : ¬ ∀ (t : RoutingTable) (key : KadID) (count : UShort)
    (excludeContacts : List Contact), table.Reachable t → 1 ≤ count.toNat →
    t.FurthestReturned key count excludeContacts := by
  intro h
  have hlen := (h _ ⟨Rossi.ofUlong 200⟩ 2 [] ⟨_, _, ⟨_, _, _, rfl⟩, run_fresh addStale_isSome⟩
    (by decide)).length
  revert hlen
  decide +kernel

end Kadpeer.L3.RoutingTable
