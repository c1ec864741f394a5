import Kadpeer.L4Service.Results

/-!
# Content-addressed keys

An entry is stored as hashable if its key is the hash of its value, and should then be the
only one under its key. `CanStoreSignedValueHashable` sees to that by the number of entries
that the key has. `Update` compares the hash itself and does not look at the other entries.

* `canStore_cases`: what the check says about the entries under the key.
* `exclusive_iff`: hashable entries stay alone in exactly the runs in which no update writes
  the key's own value beside another entry.
-/
namespace Kadpeer.L4

open Kadpeer.Core Kadpeer.L1 Kadpeer.L2

namespace KadService

variable {X : Externals} {d d' : DataStore} {e old tuple : KeyValueTuple} {key value : Bytes}
  {hashable : Bool}

/-- A hashable entry has the hash of its value for its key, and no other entry beside it. -/
def Exclusive (X : Externals) (d : DataStore) : Prop :=
  ∀ e ∈ d.datastore, e.hashable = true →
    e.key = X.hash e.value ∧ ∀ e' ∈ d.datastore, e'.key = e.key → e' = e

theorem exclusive_of_subset (h : Exclusive X d)
    (hsub : ∀ e ∈ d'.datastore, e ∈ d.datastore) : Exclusive X d' := by
  intro e he hh
  obtain ⟨hkey, hall⟩ := h e (hsub e he) hh
  exact ⟨hkey, fun e' he' => hall e' (hsub e' he')⟩

/-- A tuple under the key of the entry it takes the place of. -/
theorem exclusive_puts (h : Exclusive X d) (hput : d.Puts old tuple d')
    (hnew : tuple.hashable = true → tuple.key = X.hash tuple.value ∧
      ∀ e ∈ d.datastore, e.key = tuple.key → e.keyValue = old.keyValue)
    (hrest : ∀ e ∈ d.datastore, e.key = tuple.key → e.hashable = true →
      e.keyValue = old.keyValue) : Exclusive X d' := by
  intro e he hh
  rcases (hput e).mp he with rfl | ⟨hed, hne⟩
  · obtain ⟨hkey, hall⟩ := hnew hh
    refine ⟨hkey, fun e' he' hk => ?_⟩
    rcases (hput e').mp he' with rfl | ⟨hed', hne'⟩
    · rfl
    · exact absurd (hall e' hed' hk) hne'
  · obtain ⟨hkey, hall⟩ := h e hed hh
    refine ⟨hkey, fun e' he' hk => ?_⟩
    rcases (hput e').mp he' with rfl | ⟨hed', -⟩
    · exact absurd (hrest e hed hk.symm hh) hne
    · exact hall e' hed' hk

/-- The entry in its place keeps its pair and its flag. -/
theorem exclusive_carry (h : Exclusive X d) (he : e ∈ d.datastore) (hput : d.Puts e tuple d')
    (hkey : tuple.key = e.key) (hvalue : tuple.value = e.value) (hflag : tuple.hashable = e.hashable) :
    Exclusive X d' := by
  apply exclusive_puts h hput
  · intro hh
    obtain ⟨hhash, hall⟩ := h e he (hflag ▸ hh)
    rw [hkey, hvalue]
    exact ⟨hhash, fun e' he' hk => congrArg KeyValueTuple.keyValue (hall e' he' hk)⟩
  · intro e' he' hk hh
    exact congrArg KeyValueTuple.keyValue ((h e' he' hh).2 e he (hk.trans hkey).symm).symm

/-! ## The check before a value is stored -/

/-- If the pair can be stored: no entry under the key, or one, or two different ones. -/
theorem canStore_cases (h : canStoreSignedValueHashable X key value d = (true, hashable)) :
    ((∀ e ∈ d.datastore, e.key ≠ key) ∧ (hashable = true → key = X.hash value)) ∨
    (∃ e ∈ d.datastore, e.key = key ∧ (∀ e' ∈ d.datastore, e'.key = key → e' = e) ∧
      hashable = e.hashable ∧ (hashable = true → e.value = value)) ∨
    (hashable = false ∧ ∃ e₁ ∈ d.datastore, ∃ e₂ ∈ d.datastore, e₁.key = key ∧ e₂.key = key ∧
      e₁ ≠ e₂) := by
  have hmem : ∀ e, e ∈ d.equalRange key ↔ e ∈ d.datastore ∧ e.key = key :=
    fun e => DataStore.mem_equalRange
  have hsorted : (d.equalRange key).Pairwise fun a b => a.keyValue < b.keyValue :=
    d.datastore.sorted.sublist List.filter_sublist
  unfold canStoreSignedValueHashable DataStore.loadKeyAppendableAttr at h
  generalize d.equalRange key = l at h hmem hsorted
  match l with
  | [] =>
    refine .inl ⟨fun e he hk => ?_, fun hh => ?_⟩
    · simpa using (hmem e).mpr ⟨he, hk⟩
    · subst hh
      simpa using h
  | [e] =>
    obtain ⟨he, hk⟩ := (hmem e).mp List.mem_cons_self
    refine .inr (.inl ⟨e, he, hk, fun e' he' hk' => ?_, ?_, fun hh => ?_⟩)
    · simpa using (hmem e').mpr ⟨he', hk'⟩
    · exact (congrArg Prod.snd h).symm
    · subst hh
      simp only [List.map_cons, List.map_nil, Prod.mk.injEq] at h
      obtain ⟨hcan, hflag⟩ := h
      rw [hflag] at hcan
      simpa [eq_comm] using hcan
  | e₁ :: e₂ :: l =>
    obtain ⟨he₁, hk₁⟩ := (hmem e₁).mp List.mem_cons_self
    obtain ⟨he₂, hk₂⟩ := (hmem e₂).mp (List.mem_cons_of_mem _ List.mem_cons_self)
    refine .inr (.inr ⟨(congrArg Prod.snd h).symm, e₁, he₁, e₂, he₂, hk₁, hk₂, ?_⟩)
    rintro rfl
    have hlt := (List.pairwise_cons.mp hsorted).1 e₁ List.mem_cons_self
    exact lt_irrefl _ hlt

theorem exclusive_stored {now : U32} {ttl : I32} (h : Exclusive X d)
    (hcan : canStoreSignedValueHashable X key value d = (true, hashable))
    (hput : d.Puts (.new key value now (ttl + now) ttl hashable)
      (.new key value now (ttl + now) ttl hashable) d') : Exclusive X d' := by
  have hpair : ∀ e : KeyValueTuple, e.key = key → e.value = value →
      e.keyValue = (KeyValueTuple.new key value now (ttl + now) ttl hashable).keyValue :=
    fun e hk hv => DataStore.keyValue_eq_iff.mpr ⟨hk, hv⟩
  rcases canStore_cases hcan with ⟨hnone, hhash⟩ | ⟨e, he, hk, hall, hflag, hsame⟩ |
      ⟨hflag, e₁, he₁, e₂, he₂, hk₁, hk₂, hne⟩
  · apply exclusive_puts h hput
    · intro hh
      exact ⟨hhash hh, fun e' he' hk' => absurd hk' (hnone e' he')⟩
    · intro e' he' hk' _
      exact absurd hk' (hnone e' he')
  · apply exclusive_puts h hput
    · intro (hh : hashable = true)
      have hv : e.value = value := hsame hh
      refine ⟨?_, fun e' he' hk' => ?_⟩
      · have hhash := (h e he (hflag ▸ hh)).1
        rw [hk, hv] at hhash
        exact hhash
      · rw [hall e' he' hk']
        exact hpair e hk hv
    · intro e' he' hk' hh
      have heq : e' = e := hall e' he' hk'
      rw [heq] at hh ⊢
      exact hpair e hk (hsame (hflag.trans hh))
  · apply exclusive_puts h hput
    · intro (hh : hashable = true)
      rw [hflag] at hh
      cases hh
    · intro e' he' hk' hh
      have hall := (h e' he' hh).2
      exact absurd ((hall e₁ he₁ (hk₁.trans hk'.symm)).trans (hall e₂ he₂ (hk₂.trans hk'.symm)).symm) hne

theorem exclusive_written {A : Answers} {ttl : I32} {publish : Bool} (h : Exclusive X d) :
    Exclusive X (writeValue X A key value ttl publish d).2 := by
  generalize hw : writeValue X A key value ttl publish d = w
  cases hw ▸ writeValue_writes X A key value ttl publish d with
  | refused => exact h
  | stored hcan _ _ haccepts => exact exclusive_stored h hcan (DataStore.storeItem_accepts haccepts).2
  | refreshed _ hf hs =>
    exact exclusive_carry h (DataStore.find_eq_some.mp hf).1 (DataStore.refreshItem_live hf hs).2
      rfl rfl rfl

theorem exclusive_mark {s : KadService} {r : DeleteRequest} (h : Exclusive X s.datastore) :
    Exclusive X (mark s r).2 := by
  rcases mark_cases s r with ⟨hsame, -⟩ | ⟨e, hf, -, hput⟩
  · rw [hsame]
    exact h
  · exact exclusive_carry h (DataStore.find_eq_some.mp hf).1 hput rfl rfl rfl

/-- The entry that is updated is the only one under the key, or the new value is not the
key's own. -/
theorem exclusive_write {A : Answers} {s : KadService} {r : UpdateRequest}
    (h : Exclusive X s.datastore)
    (halone : s.datastore.UpdateAccepts r.key r.oldValue.ser r.newValue.ser →
      r.key = X.hash r.newValue.ser →
      ∀ e ∈ s.datastore.datastore, e.key = r.key → e.value = r.oldValue.ser) :
    Exclusive X (write X A s r).2 := by
  rcases write_cases X A s r with hsame | ⟨haccepts, e, hf, hput⟩
  · rw [hsame]
    exact h
  · obtain ⟨he, hk, hv⟩ := DataStore.find_eq_some.mp hf
    have hold : ∀ e' ∈ s.datastore.datastore, e'.key = r.key → e'.value = r.oldValue.ser →
        e'.keyValue = e.keyValue := fun e' _ hk' hv' =>
      DataStore.keyValue_eq_iff.mpr ⟨hk'.trans hk.symm, hv'.trans hv.symm⟩
    apply exclusive_puts h hput
    · intro hh
      have hhash : r.key = X.hash r.newValue.ser := of_decide_eq_true hh
      exact ⟨hhash, fun e' he' hk' => hold e' he' hk' (halone haccepts hhash e' he' hk')⟩
    · intro e' he' hk' hh
      exact congrArg KeyValueTuple.keyValue ((h e' he' hh).2 e he (hk.trans hk'.symm)).symm

end KadService

namespace Node

open KadService

variable {X : Externals} {n n' : Node} {ev : Event}

/-- An `Update` that is carried out does not write the value whose hash the key is while the
key has another entry than the one it replaces. -/
def KeepsAlone (X : Externals) (n : Node) : Event → Prop
  | .request A first second (.update r) => n.service.nodeJoined = true →
      checkUpdateRequest X (A.at first second) n.service r = true →
      n.service.datastore.UpdateAccepts r.key r.oldValue.ser r.newValue.ser →
      r.key = X.hash r.newValue.ser →
      ∀ e ∈ n.service.datastore.datastore, e.key = r.key → e.value = r.oldValue.ser
  | _ => True

theorem exclusive_step (h : Exclusive X n.service.datastore) (hok : KeepsAlone X n ev)
    (hs : step X n ev = some n') : Exclusive X n'.service.datastore := by
  rcases step_cases hs with hsub | ⟨A, first, second, request, result, rfl, heffect⟩
  · exact exclusive_of_subset h hsub
  · generalize n'.service.datastore = d at heffect
    cases heffect with
    | read => exact h
    | refused => exact h
    | stored => exact exclusive_written h
    | deleted => exact exclusive_mark h
    | updated hj hcheck => exact exclusive_write h (hok hj hcheck)

/-- An update that does leaves the other entry beside a hashable one. -/
theorem not_exclusive_step (hok : ¬ KeepsAlone X n ev) (hs : step X n ev = some n') :
    ¬ Exclusive X n'.service.datastore := by
  unfold KeepsAlone at hok
  split at hok
  · rename_i A first second r
    simp only [Classical.not_imp, not_forall] at hok
    obtain ⟨hj, hcheck, haccepts, hhash, e, he, hk, hother⟩ := hok
    obtain ⟨-, -, out, hout, rfl⟩ := request_eq_some.mp hs
    intro hexcl
    have hd : out.datastore = (write X (A.at first second) n.service r).2 :=
      update_datastore hj hcheck haccepts hout
    obtain ⟨old, hf, hput⟩ := write_puts (X := X) (A := A.at first second) haccepts
    obtain ⟨-, holdkey, hvalue⟩ := DataStore.find_eq_some.mp hf
    rw [← hd] at hput
    have hstays : e ∈ out.datastore.datastore := by
      refine (hput e).mpr (.inr ⟨he, fun hkv => ?_⟩)
      exact hother ((DataStore.keyValue_eq_iff.mp hkv).2.trans hvalue)
    have hnew := (hput _).mpr (.inl rfl)
    have hsame := (hexcl _ hnew (decide_eq_true hhash)).2 e hstays hk
    -- so the other entry has the new value, which was free
    have hev : e.value = r.newValue.ser := congrArg KeyValueTuple.value hsame
    have hfree := haccepts.2 (fun heq => hother (hev.trans heq))
    exact DataStore.find_eq_none.mp hfree e he hk hev
  · exact absurd trivial hok

/-- **Content-addressed keys hold one value** in exactly the runs whose updates keep it
alone. -/
theorem exclusive_iff {n₀ : Node} {tr : List (Event × Node)} (h₀ : (system X).init n₀)
    (hr : (system X).Run n₀ tr n) :
    LTS.States (fun n => Exclusive X n.service.datastore) n₀ tr ↔
      LTS.Steps (KeepsAlone X) n₀ tr := by
  refine LTS.states_iff_steps (I := fun n => Exclusive X n.service.datastore) (fun _ h => h) ?_ ?_ hr ?_
  · exact fun n ev n' h hok hs => exclusive_step h hok hs
  · exact fun n ev n' _ hok hs => not_exclusive_step hok hs
  · obtain ⟨-, tRefresh, hd⟩ := h₀
    intro e he
    rw [hd] at he
    exact absurd he Keyed.not_mem_empty

/-- A node with one entry, under "k". -/
def holding (value : Bytes) (hashable : Bool) : Node := (start 1000).withStore 1000 {
  datastore := ⟨[.new (bytes ['k']) value 1000 1010 10 hashable], List.pairwise_singleton _ _⟩
  tRefresh := 0 }

def updateValue (oldValue newValue : Bytes) : Event :=
  .request (plainAnswers 0) 1000 1000 (.update {
    key := bytes ['k']
    oldValue := { value := oldValue }
    newValue := { value := newValue }
    ttl := 10
    senderInfo := peer })

/-- "k" is stored under "k", its own hash; "a" is refused beside it. It is updated to "m", which
is alone, and back. -/
theorem exclusive_publishOnce : ∃ tr, (system plainExternals).Run (start 1000) tr
      (holding (bytes ['k']) true) ∧ tr.length = 4 ∧
    LTS.States (fun n => Exclusive plainExternals n.service.datastore) (start 1000) tr := by
  have hrun : (system plainExternals).Run (start 1000)
      [(publishOnce { value := bytes ['k'] }, holding (bytes ['k']) true),
        (publishOnce { value := bytes ['a'] }, holding (bytes ['k']) true),
        (updateValue (bytes ['k']) (bytes ['m']), holding (bytes ['m']) false),
        (updateValue (bytes ['m']) (bytes ['k']), holding (bytes ['k']) true)]
      (holding (bytes ['k']) true) :=
    .cons (by rfl) (.cons (by rfl) (.cons (by rfl) (.cons (by rfl) (.nil _))))
  refine ⟨_, hrun, rfl, (exclusive_iff (start_starts 1000) hrun).mpr
    ⟨trivial, trivial, fun _ _ _ hhash => ?_, fun _ _ _ _ e he _ => ?_, trivial⟩⟩
  · exact absurd hhash (by decide)
  · rw [List.mem_singleton.mp he]
    rfl

/-- Two values under "k", then the first one is updated to "k", which is its own hash. -/
def updateToKey : List Event :=
  [publishOnce { value := bytes ['a'] }, publishOnce { value := bytes ['b'] },
    updateValue (bytes ['a']) (bytes ['k'])]

theorem updateToKey_isSome :
    (LTS.exec (step plainExternals) (start 1000) updateToKey).isSome = true := by decide +kernel

/-- "k" is hashable then, beside "b". -/
theorem exclusive_counterexample : ¬ ∀ (X : Externals) (n : Node), (system X).Reachable n →
    Exclusive X n.service.datastore := by
  intro h
  have hexcl := h plainExternals _ ⟨_, _, start_starts 1000, run_start updateToKey_isSome⟩
  have hentries : (LTS.last (start 1000) ((LTS.exec (step plainExternals) (start 1000)
      updateToKey).get updateToKey_isSome)).service.datastore.datastore.toList =
      [.new (bytes ['k']) (bytes ['b']) 1000 1010 10 false,
       .new (bytes ['k']) (bytes ['k']) 1000 1010 10 true] := by decide +kernel
  have hfirst := (hexcl (.new (bytes ['k']) (bytes ['k']) 1000 1010 10 true)
    (by rw [Keyed.mem_def, hentries]; simp) rfl).2 (.new (bytes ['k']) (bytes ['b']) 1000 1010 10 false)
    (by rw [Keyed.mem_def, hentries]; simp) rfl
  exact absurd hfirst (by decide)

end Node
end Kadpeer.L4
