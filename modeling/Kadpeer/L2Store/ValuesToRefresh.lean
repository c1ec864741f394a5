import Kadpeer.L2Store.DataStore

/-!
# The values to refresh (`kademlia/datastore.cpp`)

`ValuesToRefresh` walks the index on `last_refresh_time_` up to `now - t_refresh_` and
makes a record of each entry that is deleted, marked, or live. The constructor of a record
is chosen by the type of its last argument: a time to live gives a record that is not
deleted, a status one with the time to live 0.

The index is an argument: the entries in the order of `last_refresh_time_`, where equal
times stand in the order of insertion, which the store of the model does not keep.

* `mem_valuesToRefresh`: which records there are.
* `refreshAll_toList`: refreshes change the times of refresh and nothing else that counts.
* `refreshesExactly`: the records are exact, and refreshing settles them.
-/
namespace Kadpeer.L2

open Kadpeer.Core

/-- mirrors src/src/kademlia/datastore.h:38-43 -/
structure RefreshValue where
  key : Bytes
  value : Bytes
  ttl : I32
  delStatus : DeleteStatus
deriving DecidableEq

namespace RefreshValue

/-- mirrors src/src/kademlia/datastore.h:44-46 -/
def ofTtl (key value : Bytes) (ttl : I32) : RefreshValue where
  key := key
  value := value
  ttl := ttl
  delStatus := .notDeleted

/-- mirrors src/src/kademlia/datastore.h:47-49 -/
def ofStatus (key value : Bytes) (delStatus : DeleteStatus) : RefreshValue where
  key := key
  value := value
  ttl := 0
  delStatus := delStatus

end RefreshValue

namespace DataStore

/-- The entries in the order of the index. -/
structure RefreshIndex (d : DataStore) (indx : List KeyValueTuple) : Prop where
  perm : indx.Perm d.datastore.toList
  sorted : indx.Pairwise fun e e' => e.lastRefreshTime ≤ e'.lastRefreshTime

/-- The body of the loop. -/
def refreshRecord (now : U32) (it : KeyValueTuple) : Option RefreshValue :=
  if it.ttl = -1 ∧ it.delStatus = .notDeleted then some (.ofTtl it.key it.value it.ttl)
  else
    let ttlRemaining := it.expireTime - now
    if 0 < ttlRemaining.toInt ∧ it.delStatus = .notDeleted then
      some (.ofTtl it.key it.value ttlRemaining)
    else if it.delStatus ≠ .notDeleted then some (.ofStatus it.key it.value it.delStatus)
    else none

/-- mirrors src/src/kademlia/datastore.cpp:123-145 -/
def valuesToRefresh (now : U32) (indx : List KeyValueTuple) (d : DataStore) : List RefreshValue :=
  let timeLimit := now - d.tRefresh
  (indx.takeWhile (·.lastRefreshTime ≤ timeLimit)).filterMap (refreshRecord now)

/-- `RefreshItem` for one pair after the other, at one reading of the clock. -/
def refreshAll (now : U32) (pairs : List (Bytes × Bytes)) (d : DataStore) : DataStore :=
  pairs.foldl (fun d p => (d.refreshItem now p.1 p.2 []).2.2) d

/-! ## What is asked of them -/

/-- The entry was refreshed long enough ago. -/
def Due (d : DataStore) (now : U32) (e : KeyValueTuple) : Prop :=
  e.lastRefreshTime.toNat + d.tRefresh.toNat ≤ now.toNat

/-- The record of an entry. One that is neither dead nor live has none. -/
inductive Record (now : U32) (e : KeyValueTuple) : RefreshValue → Prop
  | dead (h : e.delStatus ≠ .notDeleted) : Record now e (.ofStatus e.key e.value e.delStatus)
  | permanent (h : e.live now = true) (ht : e.ttl = -1) : Record now e (.ofTtl e.key e.value (-1))
  | timed (h : e.live now = true) (ht : e.ttl ≠ -1) :
      Record now e (.ofTtl e.key e.value (e.expireTime - now))

/-- The records of the due entries, once each. -/
structure Exact (d : DataStore) (now : U32) (values : List RefreshValue) : Prop where
  records : ∀ r, r ∈ values ↔ ∃ e ∈ d.datastore, d.Due now e ∧ Record now e r
  once : (values.map fun r => (r.key, r.value)).Nodup

/-- After a refresh of the live pairs that are listed, in any order, no live entry is
listed, and nothing else has changed for a reader. -/
def Settles (d : DataStore) (now : U32) (values : List RefreshValue) : Prop :=
  ∀ pairs : List (Bytes × Bytes),
    (∀ p, p ∈ pairs ↔ ∃ r ∈ values, r.delStatus = .notDeleted ∧ (r.key, r.value) = p) →
    (∀ indx, (d.refreshAll now pairs).RefreshIndex indx →
      ∀ r ∈ (d.refreshAll now pairs).valuesToRefresh now indx, r.delStatus ≠ .notDeleted) ∧
    ∀ clock key, (d.refreshAll now pairs).loadItem clock key = d.loadItem clock key

variable {d : DataStore} {now : U32} {indx : List KeyValueTuple} {e : KeyValueTuple}
  {r : RefreshValue} {pairs : List (Bytes × Bytes)}

/-! ## The records -/

theorem Record.pair (h : Record now e r) : r.key = e.key ∧ r.value = e.value := by
  cases h <;> exact ⟨rfl, rfl⟩

theorem Record.status (h : Record now e r) : r.delStatus = e.delStatus := by
  cases h with
  | dead _ => rfl
  | permanent hl _ => exact (KeyValueTuple.live_iff.mp hl).2.symm
  | timed hl _ => exact (KeyValueTuple.live_iff.mp hl).2.symm

theorem record_iff_of_dead (hs : e.delStatus ≠ .notDeleted) :
    Record now e r ↔ .ofStatus e.key e.value e.delStatus = r := by
  constructor
  · intro h
    cases h with
    | dead _ => rfl
    | permanent hl _ => exact absurd (KeyValueTuple.live_iff.mp hl).2 hs
    | timed hl _ => exact absurd (KeyValueTuple.live_iff.mp hl).2 hs
  · rintro rfl
    exact .dead hs

theorem record_iff_of_permanent (hl : e.live now = true) (ht : e.ttl = -1) :
    Record now e r ↔ .ofTtl e.key e.value (-1) = r := by
  constructor
  · intro h
    cases h with
    | dead hs => exact absurd (KeyValueTuple.live_iff.mp hl).2 hs
    | permanent _ _ => rfl
    | timed _ hne => exact absurd ht hne
  · rintro rfl
    exact .permanent hl ht

theorem record_iff_of_timed (hl : e.live now = true) (ht : e.ttl ≠ -1) :
    Record now e r ↔ .ofTtl e.key e.value (e.expireTime - now) = r := by
  constructor
  · intro h
    cases h with
    | dead hs => exact absurd (KeyValueTuple.live_iff.mp hl).2 hs
    | permanent _ heq => exact absurd heq ht
    | timed _ _ => rfl
  · rintro rfl
    exact .timed hl ht

/-- An entry that has run out, but is not marked, has no record. -/
theorem not_record (hl : ¬ e.live now = true) (hs : e.delStatus = .notDeleted) :
    ¬ Record now e r := by
  intro h
  cases h with
  | dead hdead => exact hdead hs
  | permanent hlive _ => exact hl hlive
  | timed hlive _ => exact hl hlive

theorem refreshRecord_eq_some : refreshRecord now e = some r ↔ Record now e r := by
  unfold refreshRecord
  dsimp only
  by_cases hs : e.delStatus = .notDeleted
  · by_cases hp : e.ttl = -1
    · have hl : e.live now = true := KeyValueTuple.live_iff.mpr ⟨.inr hp, hs⟩
      rw [if_pos ⟨hp, hs⟩, Option.some.injEq, hp, record_iff_of_permanent hl hp]
    · rw [if_neg fun h => hp h.1]
      by_cases ht : 0 < (e.expireTime - now).toInt
      · have hl : e.live now = true := KeyValueTuple.live_iff.mpr ⟨.inl ht, hs⟩
        rw [if_pos ⟨ht, hs⟩, Option.some.injEq, record_iff_of_timed hl hp]
      · have hl : ¬ e.live now = true := fun hl =>
          ht ((KeyValueTuple.live_iff.mp hl).1.resolve_right hp)
        rw [if_neg fun h => ht h.1, if_neg (not_not.mpr hs)]
        exact iff_of_false (by simp) (not_record hl hs)
  · rw [if_neg fun h => hs h.2, if_neg fun h => hs h.2, if_pos hs, Option.some.injEq,
      record_iff_of_dead hs]

/-- The range of the index. -/
theorem mem_range {limit : U32} (h : d.RefreshIndex indx) :
    e ∈ indx.takeWhile (·.lastRefreshTime ≤ limit) ↔ e ∈ d.datastore ∧ e.lastRefreshTime ≤ limit := by
  have hdown : indx.Pairwise fun e e' =>
      decide (e'.lastRefreshTime ≤ limit) = true → decide (e.lastRefreshTime ≤ limit) = true := by
    refine h.sorted.imp fun hle hlimit => ?_
    rw [decide_eq_true_eq] at hlimit ⊢
    exact BitVec.le_trans hle hlimit
  rw [Keyed.mem_takeWhile_of_pairwise hdown, h.perm.mem_iff, decide_eq_true_eq, Keyed.mem_def]

theorem due_iff (hnow : d.tRefresh ≤ now) : e.lastRefreshTime ≤ now - d.tRefresh ↔ d.Due now e := by
  rw [BitVec.le_def] at hnow
  rw [Due, BitVec.le_def, BitVec.toNat_sub_of_le hnow]
  omega

theorem mem_valuesToRefresh (h : d.RefreshIndex indx) (hnow : d.tRefresh ≤ now) :
    r ∈ d.valuesToRefresh now indx ↔ ∃ e ∈ d.datastore, d.Due now e ∧ Record now e r := by
  simp only [valuesToRefresh, List.mem_filterMap, mem_range h, refreshRecord_eq_some,
    due_iff hnow, and_assoc]

/-- An entry has one record at most, and no two entries share a pair. -/
theorem nodup_pairs (h : d.RefreshIndex indx) :
    ((d.valuesToRefresh now indx).map fun r => (r.key, r.value)).Nodup := by
  have hsorted : d.datastore.toList.Pairwise fun e e' => (e.key, e.value) ≠ (e'.key, e'.value) :=
    d.datastore.sorted.imp fun hlt heq => ne_of_lt hlt (congrArg toLex heq)
  have hindx : indx.Pairwise fun e e' => (e.key, e.value) ≠ (e'.key, e'.value) :=
    (h.perm.pairwise_iff fun hne => hne.symm).mpr hsorted
  rw [List.Nodup, List.pairwise_map, valuesToRefresh]
  refine (hindx.sublist (List.takeWhile_sublist _)).filterMap _ fun e e' hne r hr r' hr' => ?_
  obtain ⟨hk, hv⟩ := (refreshRecord_eq_some.mp hr).pair
  obtain ⟨hk', hv'⟩ := (refreshRecord_eq_some.mp hr').pair
  rw [hk, hv, hk', hv']
  exact hne

/-! ## The refreshes -/

/-- An entry after the refreshes. -/
def refreshedBy (now : U32) (pairs : List (Bytes × Bytes)) (e : KeyValueTuple) : KeyValueTuple :=
  if (e.key, e.value) ∈ pairs ∧ e.delStatus = .notDeleted then
    { e with lastRefreshTime := now, serDeleteReq := [] }
  else e

theorem refreshedBy_fields (now : U32) (pairs : List (Bytes × Bytes)) (e : KeyValueTuple) :
    (refreshedBy now pairs e).key = e.key ∧ (refreshedBy now pairs e).value = e.value ∧
      (refreshedBy now pairs e).ttl = e.ttl ∧ (refreshedBy now pairs e).expireTime = e.expireTime ∧
      (refreshedBy now pairs e).delStatus = e.delStatus := by
  unfold refreshedBy
  split
  · exact ⟨rfl, rfl, rfl, rfl, rfl⟩
  · exact ⟨rfl, rfl, rfl, rfl, rfl⟩

theorem keyValue_refreshedBy (now : U32) (pairs : List (Bytes × Bytes)) (e : KeyValueTuple) :
    (refreshedBy now pairs e).keyValue = e.keyValue := by
  obtain ⟨hk, hv, -⟩ := refreshedBy_fields now pairs e
  exact keyValue_eq_iff.mpr ⟨hk, hv⟩

theorem live_refreshedBy (now clock : U32) (pairs : List (Bytes × Bytes)) (e : KeyValueTuple) :
    (refreshedBy now pairs e).live clock = e.live clock := by
  obtain ⟨-, -, ht, hx, hs⟩ := refreshedBy_fields now pairs e
  rw [KeyValueTuple.live, KeyValueTuple.live, ht, hx, hs]

/-- One pair after the others. -/
theorem refreshedBy_cons (now : U32) (p : Bytes × Bytes) (pairs : List (Bytes × Bytes))
    (e : KeyValueTuple) :
    refreshedBy now pairs (refreshedBy now [p] e) = refreshedBy now (p :: pairs) e := by
  obtain ⟨hk, hv, -, -, hs⟩ := refreshedBy_fields now [p] e
  rw [refreshedBy, hk, hv, hs]
  by_cases hlive : e.delStatus = .notDeleted
  · by_cases hp : (e.key, e.value) = p
    · simp [refreshedBy, hlive, hp]
    · simp [refreshedBy, hlive, hp]
  · simp [refreshedBy, hlive]

theorem refreshedBy_of_not (h : ¬ ((e.key, e.value) ∈ pairs ∧ e.delStatus = .notDeleted)) :
    refreshedBy now pairs e = e := if_neg h

/-- A refresh of a pair without a live entry. -/
theorem mem_refreshed_iff {p : Bytes × Bytes}
    (h : ∀ e ∈ d.datastore, ¬ ((e.key, e.value) ∈ [p] ∧ e.delStatus = .notDeleted)) :
    (∃ e' ∈ d.datastore, refreshedBy now [p] e' = e) ↔ e ∈ d.datastore := by
  constructor
  · rintro ⟨e', he', rfl⟩
    rwa [refreshedBy_of_not (h e' he')]
  · exact fun he => ⟨e, he, refreshedBy_of_not (h e he)⟩

theorem mem_refreshItem (now : U32) (d : DataStore) (p : Bytes × Bytes) :
    e ∈ (d.refreshItem now p.1 p.2 []).2.2.datastore ↔
      ∃ e' ∈ d.datastore, refreshedBy now [p] e' = e := by
  have hpair : ∀ e' : KeyValueTuple, (e'.key, e'.value) ∈ [p] ↔ e'.key = p.1 ∧ e'.value = p.2 :=
    fun e' => by rw [List.mem_singleton, Prod.ext_iff]
  cases hf : d.find p.1 p.2 with
  | none =>
    rw [refreshItem_none hf, mem_refreshed_iff]
    intro e' he' h
    exact find_eq_none.mp hf e' he' ((hpair e').mp h.1).1 ((hpair e').mp h.1).2
  | some old =>
    obtain ⟨hold, hk, hv⟩ := find_eq_some.mp hf
    have hother : ∀ e' ∈ d.datastore, (e'.key, e'.value) ∈ [p] → e' = old := fun e' he' h =>
      Keyed.eq_of_key_eq he' hold (keyValue_eq_iff.mpr ⟨((hpair e').mp h).1.trans hk.symm,
        ((hpair e').mp h).2.trans hv.symm⟩)
    by_cases hs : old.delStatus = .notDeleted
    · have htuple : refreshedBy now [p] old =
          { old with lastRefreshTime := now, serDeleteReq := [] } :=
        if_pos ⟨(hpair old).mpr ⟨hk, hv⟩, hs⟩
      rw [(refreshItem_live hf hs).2 e]
      constructor
      · rintro (rfl | ⟨he, hne⟩)
        · exact ⟨old, hold, htuple⟩
        · exact ⟨e, he, refreshedBy_of_not fun h => hne (hother e he h.1 ▸ rfl)⟩
      · rintro ⟨e', he', rfl⟩
        by_cases h : e' = old
        · subst h
          exact .inl htuple
        · have hnot : (e'.key, e'.value) ∉ [p] := fun hp => h (hother e' he' hp)
          rw [refreshedBy_of_not fun h => hnot h.1]
          refine .inr ⟨he', fun heq => h (Keyed.eq_of_key_eq he' hold heq)⟩
    · rw [refreshItem_dead hf hs, mem_refreshed_iff]
      exact fun e' he' h => hs (hother e' he' h.1 ▸ h.2)

theorem refreshItem_eq (now : U32) (d : DataStore) (p : Bytes × Bytes) :
    (d.refreshItem now p.1 p.2 []).2.2 =
      { d with datastore := d.datastore.map (refreshedBy now [p]) (keyValue_refreshedBy now [p]) } := by
  have hrefresh : (d.refreshItem now p.1 p.2 []).2.2.tRefresh = d.tRefresh := by
    unfold refreshItem
    split
    · rfl
    · split
      · rfl
      · exact replace_tRefresh
  have hsame : (d.refreshItem now p.1 p.2 []).2.2.datastore =
      d.datastore.map (refreshedBy now [p]) (keyValue_refreshedBy now [p]) :=
    Keyed.ext_mem fun e => (mem_refreshItem now d p).trans Keyed.mem_map.symm
  generalize (d.refreshItem now p.1 p.2 []).2.2 = d' at *
  cases d'
  exact congr (congrArg DataStore.mk hsame) hrefresh

/-- Refreshes change the time of the last refresh of the entries with the pairs. -/
theorem refreshAll_toList (now : U32) (pairs : List (Bytes × Bytes)) (d : DataStore) :
    (d.refreshAll now pairs).datastore.toList = d.datastore.toList.map (refreshedBy now pairs) ∧
      (d.refreshAll now pairs).tRefresh = d.tRefresh := by
  induction pairs generalizing d with
  | nil =>
    refine ⟨?_, rfl⟩
    rw [List.map_congr_left fun e _ => refreshedBy_of_not fun h => List.not_mem_nil h.1, List.map_id']
    rfl
  | cons p pairs ih =>
    obtain ⟨hlist, hrefresh⟩ := ih (d.refreshItem now p.1 p.2 []).2.2
    rw [refreshItem_eq] at hlist hrefresh
    have hstep : d.refreshAll now (p :: pairs) =
        ({ d with datastore := d.datastore.map (refreshedBy now [p]) (keyValue_refreshedBy now [p]) } :
          DataStore).refreshAll now pairs := by
      rw [refreshAll, List.foldl_cons, refreshItem_eq]
      rfl
    rw [hstep]
    refine ⟨?_, hrefresh⟩
    rw [hlist, Keyed.map, List.map_map]
    exact List.map_congr_left fun e _ => refreshedBy_cons now p pairs e

/-- A reader notices none of it. -/
theorem loadItem_refreshAll (now clock : U32) (pairs : List (Bytes × Bytes)) (key : Bytes)
    (d : DataStore) : (d.refreshAll now pairs).loadItem clock key = d.loadItem clock key := by
  have hkey : (fun e => decide (e.key = key)) ∘ refreshedBy now pairs =
      fun e => decide (e.key = key) := by
    funext e
    rw [Function.comp_apply, (refreshedBy_fields now pairs e).1]
  have hlive : (fun e => e.live clock) ∘ refreshedBy now pairs = fun e => e.live clock := by
    funext e
    exact live_refreshedBy now clock pairs e
  have hvalue : (fun e => e.value) ∘ refreshedBy now pairs = fun e => e.value := by
    funext e
    exact (refreshedBy_fields now pairs e).2.1
  have hlist := (refreshAll_toList now pairs d).1
  simp only [loadItem, equalRange, hlist, List.filter_map, List.map_map, hkey, hlive, hvalue]

/-- An entry that is still listed was not refreshed, and so it was listed before. -/
theorem not_listed_again (h : d.RefreshIndex indx) (hnow : d.tRefresh ≤ now) (hpos : 0 < d.tRefresh)
    (hpairs : ∀ r ∈ d.valuesToRefresh now indx, r.delStatus = .notDeleted → (r.key, r.value) ∈ pairs)
    {indx' : List KeyValueTuple} (h' : (d.refreshAll now pairs).RefreshIndex indx')
    (hr : r ∈ (d.refreshAll now pairs).valuesToRefresh now indx') : r.delStatus ≠ .notDeleted := by
  intro hlive
  obtain ⟨hlist, hrefresh⟩ := refreshAll_toList now pairs d
  obtain ⟨e', he', hdue, hrecord⟩ := (mem_valuesToRefresh h' (hrefresh ▸ hnow)).mp hr
  rw [Keyed.mem_def, hlist, List.mem_map] at he'
  obtain ⟨e, he, rfl⟩ := he'
  rw [Due, hrefresh] at hdue
  by_cases hin : (e.key, e.value) ∈ pairs
  · -- refreshed just now
    have hstatus : e.delStatus = .notDeleted := by
      rw [← (refreshedBy_fields now pairs e).2.2.2.2, ← hrecord.status, hlive]
    rw [refreshedBy, if_pos ⟨hin, hstatus⟩] at hdue
    rw [BitVec.lt_def] at hpos
    simp only at hpos hdue
    omega
  · -- as due and as live as it was
    rw [refreshedBy_of_not fun h => hin h.1] at hdue hrecord
    have hlisted := (mem_valuesToRefresh h hnow).mpr ⟨e, he, hdue, hrecord⟩
    obtain ⟨hk, hv⟩ := hrecord.pair
    exact hin (hk ▸ hv ▸ hpairs r hlisted hlive)

/-- **What is listed, and that refreshing it settles it.** -/
theorem refreshesExactly (h : d.RefreshIndex indx) (hnow : d.tRefresh ≤ now) :
    d.Exact now (d.valuesToRefresh now indx) ∧
      (0 < d.tRefresh → d.Settles now (d.valuesToRefresh now indx)) := by
  refine ⟨⟨fun r => mem_valuesToRefresh h hnow, nodup_pairs h⟩, fun hpos pairs hpairs => ⟨?_, ?_⟩⟩
  · intro indx' h' r hr
    refine not_listed_again h hnow hpos (fun r hr hlive => ?_) h' hr
    exact (hpairs _).mpr ⟨r, hr, hlive, rfl⟩
  · exact fun clock key => loadItem_refreshAll now clock pairs key d

/-! ## One store -/

/-- A value for 100 seconds, a permanent one and a marked one, stored at 5. -/
def threeItems : DataStore :=
  (((((DataStore.new 10).storeItem 5 (bytes ['a']) (bytes ['a']) 100 false).2.storeItem
    5 (bytes ['b']) (bytes ['b']) (-1) false).2.storeItem
    5 (bytes ['c']) (bytes ['c']) 100 false).2.markForDeletion (bytes ['c']) (bytes ['c']) []).2

theorem refreshesExactly_threeItems :
    threeItems.Exact 20 (threeItems.valuesToRefresh 20 threeItems.datastore.toList) ∧
      (0 < threeItems.tRefresh →
        threeItems.Settles 20 (threeItems.valuesToRefresh 20 threeItems.datastore.toList)) :=
  refreshesExactly ⟨List.Perm.refl _, by decide⟩ (by decide)

end DataStore
end Kadpeer.L2
