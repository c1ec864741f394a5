import Kadpeer.L2Store.Lifetime
import Kadpeer.L4Service.Results

/-!
# Storing an unsigned value and finding it

A node without keys asks for the flag of `value` and then stores `sig_value`, by the overload
on a `SignedValue`. The one on a string has no caller.

* `store_success_iff`: when a `Store` with `publish` is answered with success.
* `roundTrips_iff`: the value comes back exactly when the signed payload's string is the
  value, or the value was there already and stays long enough.
-/
namespace Kadpeer.L4

open Kadpeer.Core Kadpeer.L1 Kadpeer.L2

namespace KadService

variable {X : Externals} {A : Answers} {s : KadService} {r : StoreRequest} {t : Nat}

/-- A request to publish an unsigned value on a node without keys. -/
structure Unsigned (s : KadService) (r : StoreRequest) : Prop where
  joined : s.nodeJoined = true
  noKeys : s.nodeHasRSAkeys = false
  hasValue : r.isset.value = true
  key : r.key ≠ []
  value : r.value ≠ []
  ttl : 0 < r.ttl.toInt
  publish : r.publish = true

/-- Without an entry for the pair the request succeeds; after a success every `FindValue` lists
the value until the time to live has passed. -/
def RoundTrips (X : Externals) (A : Answers) (s : KadService) (t : Nat) (r : StoreRequest) : Prop :=
  (s.datastore.find r.key r.value = none → ∃ out, handle X (A.at t t) s (.store r) = .ok out ∧
    out.response = kRpcResultSuccess) ∧
  ∀ out, handle X (A.at t t) s (.store r) = .ok out → out.response = kRpcResultSuccess →
    ∀ (B : Answers) (t' : Nat) (f : FindRequest), t ≤ t' → (t' : Int) < t + r.ttl.toInt →
      f.key = r.key → f.senderInfo.nodeId ≠ [] →
      ∃ fout, findValue X (B.at t' t') { s with datastore := out.datastore } {} f = .ok fout ∧
        r.value ∈ fout.response.values

/-- The sender has an id, and the store takes the string of the signed payload. -/
def Takes (X : Externals) (s : KadService) (t : Nat) (r : StoreRequest) : Prop :=
  r.senderInfo.nodeId ≠ [] ∧
    (canStoreSignedValueHashable X r.key r.sigValue.ser s.datastore).1 = true ∧
    s.datastore.StoreAccepts (DataStore.clock32 t) r.key r.sigValue.ser r.ttl

/-- The value is there, and live until the time to live has passed. -/
def Outlives (s : KadService) (t : Nat) (r : StoreRequest) : Prop :=
  ∃ e, s.datastore.find r.key r.value = some e ∧ ∀ t', t ≤ t' → (t' : Int) < t + r.ttl.toInt →
    e.live (DataStore.clock32 t') = true

theorem Unsigned.hasPayload (h : Unsigned s r) : hasPayload s r = true := by
  unfold KadService.hasPayload
  rw [h.noKeys]
  exact h.hasValue

theorem writeValue_publish {key value : Bytes} {ttl : I32} {d : DataStore} :
    writeValue X A key value ttl true d =
      if (canStoreSignedValueHashable X key value d).1 = true then
        d.storeItem A.first key value ttl (canStoreSignedValueHashable X key value d).2
      else (false, d) := rfl

/-- The entry that a request which is taken makes. -/
def signedTuple (X : Externals) (s : KadService) (t : Nat) (r : StoreRequest) : KeyValueTuple :=
  .new r.key r.sigValue.ser (DataStore.clock32 t) (r.ttl + DataStore.clock32 t) r.ttl
    (canStoreSignedValueHashable X r.key r.sigValue.ser s.datastore).2

theorem store_of_takes (hpar : Parses X) (h : Unsigned s r) (htakes : Takes X s t r) :
    ∃ out, handle X (A.at t t) s (.store r) = .ok out ∧ out.response = kRpcResultSuccess ∧
      s.datastore.Puts (signedTuple X s t r) (signedTuple X s t r) out.datastore := by
  obtain ⟨hsender, hcan, haccepts⟩ := htakes
  obtain ⟨nodeId, -, hs⟩ := hpar.getSender hsender
  refine ⟨_, store_of_sender h.joined h.hasPayload hs, ?_⟩
  obtain ⟨hdone, hput⟩ : (s.datastore.storeItem (DataStore.clock32 t) r.key r.sigValue.ser r.ttl
      (canStoreSignedValueHashable X r.key r.sigValue.ser s.datastore).2).1 = true ∧ _ :=
    DataStore.storeItem_accepts haccepts
  have hwrite : writeValue X (A.at t t) r.key r.sigValue.ser r.ttl r.publish s.datastore =
      s.datastore.storeItem (DataStore.clock32 t) r.key r.sigValue.ser r.ttl
        (canStoreSignedValueHashable X r.key r.sigValue.ser s.datastore).2 := by
    rw [h.publish, writeValue_publish, if_pos hcan]
    rfl
  constructor
  · simp only [storeValueLocal, hwrite, hdone, if_true, Outcome.map]
  · show s.datastore.Puts _ _ (storeValueLocal _ _ _ _ _ _ _ _ _).datastore
    rw [storeValueLocal_datastore, hwrite]
    exact hput

/-- A `Store` that is answered with success was taken. -/
theorem takes_of_success (h : Unsigned s r) {out : Outcome Bytes}
    (hout : handle X (A.at t t) s (.store r) = .ok out) (hans : out.response = kRpcResultSuccess) :
    Takes X s t r := by
  have heffect := handle_effect hout
  obtain ⟨response, d, calls⟩ := out
  simp only at hans heffect
  subst hans
  generalize hresult : kRpcResultSuccess = result at heffect
  cases heffect with
  | read hr => exact hr.elim
  | refused => exact absurd hresult success_ne_failure
  | stored hj hload hsender =>
    have hdone := answered_success_iff.mp hresult.symm
    rw [h.publish, writeValue_publish] at hdone
    split at hdone
    · rename_i hcan
      exact ⟨hsender, hcan, DataStore.storeItem_fst.mp hdone⟩
    · cases hdone

theorem store_success_iff (hpar : Parses X) (h : Unsigned s r) :
    (∃ out, handle X (A.at t t) s (.store r) = .ok out ∧ out.response = kRpcResultSuccess) ↔
      Takes X s t r := by
  constructor
  · intro ⟨out, hout, hans⟩
    exact takes_of_success h hout hans
  · intro htakes
    obtain ⟨out, hout, hans, -⟩ := store_of_takes (A := A) hpar h htakes
    exact ⟨out, hout, hans⟩

/-- The signed payload's string is loaded until the time to live has passed. -/
theorem loads_signed {d : DataStore} (h : Unsigned s r)
    (hput : s.datastore.Puts (signedTuple X s t r) (signedTuple X s t r) d) {t' : Nat} (hle : t ≤ t')
    (hlt : (t' : Int) < t + r.ttl.toInt) :
    r.sigValue.ser ∈ (d.loadItem (DataStore.clock32 t') r.key).2 := by
  have hread : DataStore.Readable d t r.key r.sigValue.ser r.ttl :=
    DataStore.readable_of_stored hput (.inr h.ttl)
  have hbound := Timed.toInt_lt r.ttl
  exact (hread.lasts d rfl t' hle (by omega)).mpr (.inr hlt)

/-- Another value is loaded as before. -/
theorem loads_other {d : DataStore} {value : Bytes}
    (hput : s.datastore.Puts (signedTuple X s t r) (signedTuple X s t r) d)
    (hne : value ≠ r.sigValue.ser) {now : U32} :
    value ∈ (d.loadItem now r.key).2 ↔ value ∈ (s.datastore.loadItem now r.key).2 := by
  have hpair : ∀ e : KeyValueTuple, e.key = r.key → e.value = value →
      e.keyValue ≠ (signedTuple X s t r).keyValue := fun e _ hv hkv =>
    hne (hv.symm.trans (DataStore.keyValue_eq_iff.mp hkv).2)
  rw [DataStore.mem_loadItem, DataStore.mem_loadItem]
  refine exists_congr fun e => and_congr_left fun _ => ?_
  rw [DataStore.find_eq_some, DataStore.find_eq_some, hput e]
  constructor
  · rintro ⟨rfl | ⟨he, -⟩, hk, hv⟩
    · exact absurd rfl (hpair _ hk hv)
    · exact ⟨he, hk, hv⟩
  · intro ⟨he, hk, hv⟩
    exact ⟨.inr ⟨he, hpair e hk hv⟩, hk, hv⟩

/-- **A stored value is found**, and when: the payload that is stored is the signed one. -/
theorem roundTrips_iff (hpar : Parses X) (h : Unsigned s r) :
    RoundTrips X A s t r ↔
      (s.datastore.find r.key r.value = none → Takes X s t r) ∧
      (Takes X s t r → r.value = r.sigValue.ser ∨ Outlives s t r) := by
  have hpeer : peer.nodeId ≠ [] := by decide
  constructor
  · intro ⟨hfree, hfinds⟩
    refine ⟨fun hnone => (store_success_iff hpar h).mp (hfree hnone), fun htakes => ?_⟩
    by_contra hnot
    obtain ⟨hne, hshort⟩ := not_or.mp hnot
    obtain ⟨out, hout, hans, hput⟩ := store_of_takes (A := A) hpar h htakes
    obtain ⟨nodeId, -, hs⟩ := hpar.getSender hpeer
    have hload : ∀ t', t ≤ t' → (t' : Int) < t + r.ttl.toInt →
        r.value ∈ (s.datastore.loadItem (DataStore.clock32 t') r.key).2 := by
      intro t' hle hlt
      have hlists := hfinds out hout hans A t' { key := r.key, senderInfo := peer } hle hlt rfl hpeer
      rw [findValue_lists_iff (s := { s with datastore := out.datastore }) h.joined hs] at hlists
      exact (loads_other hput hne).mp hlists
    have hpos := h.ttl
    obtain ⟨e, hf, -⟩ := DataStore.mem_loadItem.mp (hload t (le_refl t) (by omega))
    refine hshort ⟨e, hf, fun t' hle hlt => ?_⟩
    obtain ⟨e', hf', hl⟩ := DataStore.mem_loadItem.mp (hload t' hle hlt)
    rw [hf] at hf'
    cases hf'
    exact hl
  · intro ⟨hfree, hback⟩
    refine ⟨fun hnone => (store_success_iff hpar h).mpr (hfree hnone), ?_⟩
    intro out hout hans B t' f hle hlt hkey hsender
    have htakes := takes_of_success h hout hans
    obtain ⟨out', hout', -, hput⟩ := store_of_takes (A := A) hpar h htakes
    obtain rfl : out = out' := by simpa [hout] using hout'
    obtain ⟨nodeId, -, hs⟩ := hpar.getSender hsender
    rw [findValue_lists_iff (s := { s with datastore := out.datastore }) h.joined hs, hkey]
    by_cases hsame : r.value = r.sigValue.ser
    · rw [hsame]
      exact loads_signed h hput hle hlt
    · obtain ⟨e, hf, hl⟩ := (hback htakes).resolve_left hsame
      exact (loads_other hput hsame).mpr (DataStore.mem_loadItem.mpr ⟨e, hf, hl t' hle hlt⟩)

/-- The value "v" for ten seconds under "k", with a signed payload beside it. -/
def publishUnsigned (sigValue : SignedValue) : StoreRequest where
  key := bytes ['k']
  value := bytes ['v']
  sigValue := sigValue
  ttl := 10
  senderInfo := peer
  publish := true
  isset := { value := true }

theorem publishUnsigned_unsigned (sigValue : SignedValue) :
    Unsigned (joinedService (.new 0)) (publishUnsigned sigValue) where
  joined := rfl
  noKeys := rfl
  hasValue := rfl
  key := List.cons_ne_nil _ _
  value := List.cons_ne_nil _ _
  ttl := show 0 < BitVec.toInt (10 : I32) by decide
  publish := rfl

/-- The same value in both. -/
theorem roundTrips_same : RoundTrips plainExternals (plainAnswers 0) (joinedService (.new 0)) 1000
    (publishUnsigned { value := bytes ['v'] }) := by
  apply (roundTrips_iff plainExternals_parses (publishUnsigned_unsigned _)).mpr
  refine ⟨fun _ => ⟨by decide, by decide +kernel, by decide, by decide, by decide, ?_⟩, fun _ => .inl rfl⟩
  intro e he
  cases he

/-- No signed payload at all: the request is refused. -/
theorem roundTrips_counterexample :
    ¬ ∀ (X : Externals) (A : Answers) (n : Node) (t : Nat) (r : StoreRequest), Parses X →
      (Node.system X).Reachable n → n.clock ≤ t → Unsigned n.service r → r.senderInfo.nodeId ≠ [] →
      RoundTrips X A n.service t r := by
  intro h
  have hback := h plainExternals (plainAnswers 0) (Node.start 1000) 1000 (publishUnsigned {})
    plainExternals_parses ⟨_, [], Node.start_starts 1000, .nil _⟩ (le_refl 1000)
    (publishUnsigned_unsigned {}) (by decide)
  obtain ⟨out, hout, hans⟩ := hback.1 rfl
  exact (takes_of_success (publishUnsigned_unsigned {}) hout hans).2.2.2.1 rfl

end KadService
end Kadpeer.L4
