import Kadpeer.L2Bucket.Wire
import Kadpeer.L4Service.Results

/-!
# The contacts that `FindNode` answers with

The answer is put together from two sources. The sender is excluded from the closest
contacts. The contact of the key is looked up apart from them and added when the key is
not among them, and there the sender is not excluded: a sender that asks for its own id is
told its own address, if the table has it.

* `pushNodes_infos`: the answer is the wire form of `Listed`, one by one.
* `noEcho_iff`: no id is repeated or the sender's, exactly when the request does not echo
  (`Echoes`), for `FindNode` and for `FindValue` where it falls back on it.
* `noEcho_counterexample`: a sender that is in the table and asks for itself.
-/
namespace Kadpeer.L4

open Kadpeer.Core Kadpeer.L1 Kadpeer.L2

namespace KadService

variable (X : Externals) (A : Answers)

/-- What the handler relies on: the closest contacts are distinct and not the excluded ones,
the contact of a key has the key, and ids survive their strings. -/
structure Faithful : Prop where
  distinct : ∀ key excluded, ((A.getClosestK key excluded).map Contact.nodeId).Nodup
  excluded : ∀ key excluded, ∀ c ∈ A.getClosestK key excluded, ∀ e ∈ excluded, c.nodeId ≠ e.nodeId
  contact : ∀ n key c, A.getContact n key = some c → c.nodeId = key
  back : ∀ c info, X.parseToThrift c = .ok info → X.toKadID info.nodeId = .ok c.nodeId
  inj : ∀ raw raw' nodeId, X.toKadID raw = .ok nodeId → X.toKadID raw' = .ok nodeId → raw = raw'

/-- The ids of the response are distinct and not the sender's. -/
def NoEcho (r : FindRequest) (response : FindResponse) : Prop :=
  (response.closestNodes.map ContactInfo.nodeId).Nodup ∧
    r.senderInfo.nodeId ∉ response.closestNodes.map ContactInfo.nodeId

instance (r : FindRequest) (response : FindResponse) : Decidable (NoEcho r response) :=
  inferInstanceAs (Decidable (_ ∧ _))

/-- The sender asks for itself, and the look-up of the key finds it. -/
def Echoes (r : FindRequest) : Prop :=
  r.senderInfo.nodeId ≠ [] ∧ r.key = r.senderInfo.nodeId ∧
    ∃ key, X.toKadID r.key = .ok key ∧ (A.getContact 0 key).isSome = true

variable {X A} {s : KadService} {r : FindRequest} {sender : Contact} {key nodeId : KadID}
  {cs : List Contact} {infos : List ContactInfo}

/-! ## The answer, one by one -/

/-- `infos` are the wire forms of `cs`. -/
def WireForms (X : Externals) (cs : List Contact) (infos : List ContactInfo) : Prop :=
  List.Forall₂ (fun c info => X.parseToThrift c = .ok info) cs infos

theorem pushClosest_infos {ret : FindResponse} {b : Bool} {acc : FindResponse × Bool}
    (h : cs.foldlM (pushClosest X key) (ret, b) = .ok acc) :
    (∃ infos, WireForms X cs infos ∧ acc.1.closestNodes = ret.closestNodes ++ infos) ∧
      acc.2 = (b || cs.any fun c => key = c.nodeId) := by
  induction cs generalizing ret b with
  | nil =>
    cases h
    exact ⟨⟨[], .nil, by simp⟩, by simp⟩
  | cons c cs ih =>
    rw [List.foldlM_cons] at h
    obtain ⟨acc', hstep, h⟩ := bind_eq_ok.mp h
    obtain ⟨info, hinfo, hstep⟩ := bind_eq_ok.mp hstep
    cases hstep
    obtain ⟨⟨infos, hforms, hnodes⟩, hfound⟩ := ih h
    refine ⟨⟨info :: infos, .cons hinfo hforms, ?_⟩, ?_⟩
    · rw [hnodes]
      simp
    · rw [hfound, List.any_cons, Bool.or_assoc]

/-- The response lists the wire forms of the closest contacts and, if need be, of the one
that has the key. -/
theorem pushNodes_infos {ret ret' : FindResponse} (h : pushNodes X A key sender ret = .ok ret') :
    ∃ infos, WireForms X (Listed A key sender) infos ∧
      ret'.closestNodes = ret.closestNodes ++ infos := by
  obtain ⟨⟨ret₁, found⟩, hfold, h⟩ := bind_eq_ok.mp h
  obtain ⟨⟨infos, hforms, hnodes⟩, hfound⟩ := pushClosest_infos hfold
  rw [Bool.false_or] at hfound
  simp only at h hnodes hfound
  unfold Listed
  simp only [← hfound]
  split at h
  · rename_i htrue
    cases h
    rw [if_pos htrue]
    exact ⟨infos, hforms, hnodes⟩
  · rename_i hfalse
    rw [if_neg hfalse]
    cases hget : A.getContact 0 key with
    | none =>
      rw [hget] at h
      cases h
      rw [Option.toList_none, List.append_nil]
      exact ⟨infos, hforms, hnodes⟩
    | some c =>
      rw [hget] at h
      obtain ⟨info, hinfo, h⟩ := bind_eq_ok.mp h
      cases h
      refine ⟨infos ++ [info], List.rel_append hforms (.cons hinfo .nil), ?_⟩
      rw [hnodes, List.append_assoc]

/-! ## The ids -/

/-- The strings of the answer stand for the ids of the contacts. -/
theorem ids_of_wireForms (hF : Faithful X A) (h : WireForms X cs infos) :
    (infos.map ContactInfo.nodeId).map X.toKadID = (cs.map Contact.nodeId).map Except.ok := by
  induction h with
  | nil => rfl
  | cons hinfo _ ih => simp only [List.map_cons, ih, hF.back _ _ hinfo]

/-- What holds of the ids of the contacts holds of their strings. -/
theorem noEcho_wireForms (hF : Faithful X A) (hid : X.toKadID r.senderInfo.nodeId = .ok nodeId)
    {response : FindResponse} (h : WireForms X cs response.closestNodes) :
    NoEcho r response ↔ (cs.map Contact.nodeId).Nodup ∧ nodeId ∉ cs.map Contact.nodeId := by
  have hids := ids_of_wireForms hF h
  have hinj : Function.Injective (Except.ok : KadID → Except Fault KadID) := fun _ _ => Except.ok.inj
  have hnodup : (response.closestNodes.map ContactInfo.nodeId).Nodup ↔
      ((response.closestNodes.map ContactInfo.nodeId).map X.toKadID).Nodup := by
    refine ⟨fun hnd => hnd.map_on fun raw hraw raw' hraw' heq => ?_, List.Nodup.of_map _⟩
    have hin := List.mem_map_of_mem (f := X.toKadID) hraw
    rw [hids] at hin
    obtain ⟨id, -, hraw⟩ := List.mem_map.mp hin
    exact hF.inj raw raw' id hraw.symm (heq ▸ hraw.symm)
  have hmem : r.senderInfo.nodeId ∈ response.closestNodes.map ContactInfo.nodeId ↔
      .ok nodeId ∈ (response.closestNodes.map ContactInfo.nodeId).map X.toKadID := by
    constructor
    · exact fun hin => hid ▸ List.mem_map_of_mem hin
    · intro hin
      obtain ⟨raw, hraw, heq⟩ := List.mem_map.mp hin
      exact hF.inj raw _ nodeId heq hid ▸ hraw
  rw [NoEcho, hnodup, hmem, hids, List.nodup_map_iff hinj, List.mem_map_of_injective hinj]

/-- The contacts listed are distinct and not the sender, unless the sender is the key and is
found. -/
theorem listed_iff (hF : Faithful X A) (key : KadID) (sender : Contact) :
    (((Listed A key sender).map Contact.nodeId).Nodup ∧
      sender.nodeId ∉ (Listed A key sender).map Contact.nodeId) ↔
      ¬ (key = sender.nodeId ∧ (A.getContact 0 key).isSome = true) := by
  have hnd := hF.distinct key [sender]
  have hout : sender.nodeId ∉ (A.getClosestK key [sender]).map Contact.nodeId := by
    intro hin
    obtain ⟨c, hc, heq⟩ := List.mem_map.mp hin
    exact hF.excluded key [sender] c hc sender List.mem_cons_self heq
  unfold Listed
  simp only
  split
  · rename_i hany
    obtain ⟨c, hc, heq⟩ := List.any_eq_true.mp hany
    have heq : key = c.nodeId := of_decide_eq_true heq
    refine iff_of_true ⟨hnd, hout⟩ ?_
    rintro ⟨hkey, -⟩
    exact hout (List.mem_map.mpr ⟨c, hc, heq.symm.trans hkey⟩)
  · rename_i hnone
    have hfree : key ∉ (A.getClosestK key [sender]).map Contact.nodeId := by
      intro hin
      obtain ⟨c, hc, heq⟩ := List.mem_map.mp hin
      exact hnone (List.any_eq_true.mpr ⟨c, hc, by simp [heq]⟩)
    cases hget : A.getContact 0 key with
    | none => simpa using ⟨hnd, by simpa using hout⟩
    | some c =>
      have hc : c.nodeId = key := hF.contact 0 key c hget
      rw [Option.toList_some, List.map_append, List.map_singleton, hc]
      constructor
      · rintro ⟨-, hnot⟩ ⟨hkey, -⟩
        exact hnot (List.mem_append_right _ (by rw [hkey]; exact List.mem_cons_self))
      · intro hnot
        have hne : sender.nodeId ≠ key := fun he => hnot ⟨he.symm, rfl⟩
        refine ⟨List.nodup_append.mpr ⟨hnd, List.nodup_singleton key, ?_⟩, ?_⟩
        · rintro a ha b hb rfl
          rw [List.mem_singleton] at hb
          exact hfree (hb ▸ ha)
        · rw [List.mem_append, List.mem_singleton, not_or]
          exact ⟨hout, hne⟩

/-! ## The two handlers -/

theorem noEcho_nil {response : FindResponse} (h : response.closestNodes = []) : NoEcho r response := by
  rw [NoEcho, h]
  exact ⟨List.nodup_nil, List.not_mem_nil⟩

theorem noEcho_findNode (hF : Faithful X A) (hj : s.nodeJoined = true) {out : Outcome FindResponse}
    (h : findNode X A s {} r = .ok out) : NoEcho r out.response ↔ ¬ Echoes X A r := by
  obtain ⟨nodeId, hempty, hid, hs⟩ | ⟨hempty, hnodes, -⟩ := findNode_cases hj h
  · rw [findNode_of_sender hj hs] at h
    obtain ⟨key, hkey, h⟩ := bind_eq_ok.mp h
    obtain ⟨ret, hret, h⟩ := bind_eq_ok.mp h
    cases h
    obtain ⟨infos, hforms, hnodes⟩ := pushNodes_infos hret
    have hforms : WireForms X (Listed A key (Contact.ofInfo nodeId r.senderInfo .empty))
        ret.closestNodes := by
      rw [hnodes]
      exact hforms
    have hstrings : NoEcho r { ret with result := kRpcResultSuccess } ↔ _ :=
      noEcho_wireForms hF hid hforms
    rw [hstrings]
    refine (listed_iff hF key _).trans (not_congr ⟨?_, ?_⟩)
    · rintro ⟨heq, hsome⟩
      refine ⟨hempty, hF.inj _ _ nodeId ?_ hid, key, hkey, hsome⟩
      rw [hkey, heq]
      rfl
    · rintro ⟨-, hsame, key', hkey', hsome⟩
      have hkeys : key' = key := Except.ok.inj (hkey'.symm.trans hkey)
      subst hkeys
      exact ⟨Except.ok.inj (hkey'.symm.trans (hsame ▸ hid)), hsome⟩
  · exact iff_of_true (noEcho_nil hnodes) fun he => he.1 hempty

/-- **No echo, and when.** `FindValue` answers with contacts only when it finds no value. -/
theorem noEcho_iff (hF : Faithful X A) (hj : s.nodeJoined = true) (r : FindRequest) :
    (∀ out, findNode X A s {} r = .ok out → (NoEcho r out.response ↔ ¬ Echoes X A r)) ∧
    ∀ out, findValue X A s {} r = .ok out → (NoEcho r out.response ↔
      ((s.datastore.loadItem A.first r.key).1 = true ∨ ¬ Echoes X A r)) := by
  refine ⟨fun out h => noEcho_findNode hF hj h, fun out h => ?_⟩
  obtain ⟨nodeId, -, -, hs⟩ | ⟨hempty, hnodes, -⟩ := findValue_cases hj h
  · by_cases hload : (s.datastore.loadItem A.first r.key).1 = true
    · rw [findValue_of_loaded hj hs hload] at h
      cases h
      exact iff_of_true (noEcho_nil rfl) (.inl hload)
    · have hload : (s.datastore.loadItem A.first r.key).1 = false := by simpa using hload
      rw [findValue_of_unloaded hj hs hload] at h
      cases hnode : findNode X A s {} r with
      | error f =>
        rw [hnode] at h
        cases h
      | ok out' =>
        rw [hnode] at h
        cases h
        have hiff := noEcho_findNode hF hj hnode
        rw [hload]
        simpa [NoEcho] using hiff
  · exact iff_of_true (noEcho_nil hnodes) (.inr fun he => he.1 hempty)

/-! ## A table of three contacts -/

/-- The id of a string of one byte. -/
def ofByte : Bytes → Except Fault KadID
  | [b] => .ok ⟨Rossi.ofUlong (.ofNat 64 b.val)⟩
  | _ => .error .assertion

def toByte (nodeId : KadID) : Except Fault Bytes :=
  if h : nodeId.toNat < 256 then .ok [⟨nodeId.toNat, h⟩] else .error .logicError

theorem ofByte_eq_ok {raw : Bytes} : ofByte raw = .ok nodeId ↔
    ∃ b : Fin 256, raw = [b] ∧ nodeId.toNat = b.val := by
  have hb : ∀ b : Fin 256, KadID.toNat ⟨Rossi.ofUlong (.ofNat 64 b.val)⟩ = b.val := by
    intro b
    rw [KadID.toNat, Rossi.toNat_ofUlong, BitVec.toNat_ofNat]
    omega
  constructor
  · intro h
    cases raw with
    | nil => cases h
    | cons b rest =>
      cases rest with
      | nil =>
        obtain rfl := Except.ok.inj h
        exact ⟨b, rfl, hb b⟩
      | cons b' rest => cases h
  · rintro ⟨b, rfl, hid⟩
    refine congrArg Except.ok (KadID.toNat_inj ?_)
    rw [hb, hid]

/-- Ids of one byte; nothing else is asked for here. -/
def byteExternals : Externals where
  toKadID := ofByte
  parseToThrift c := (Contact.toThrift toByte c).map fun info => info.toContactInfo
  hash value := value
  asymCheckSig _ _ _ := true

def contactOf (c : Char) : Contact :=
  { Contact.empty with nodeId := ⟨Rossi.ofUlong (.ofNat 64 c.toNat)⟩ }

def threeContacts : List Contact := [contactOf '1', contactOf '2', contactOf '7']

/-- The table holds the three contacts and answers with all that are not excluded. -/
def tableAnswers : Answers where
  getContact _ key := threeContacts.find? (·.nodeId = key)
  getClosestK _ excluded := threeContacts.filter fun c => !excluded.any (c.nodeId = ·.nodeId)
  first := 0
  second := 0

theorem faithful_tableAnswers : Faithful byteExternals tableAnswers where
  distinct key excluded := by
    have hnd : (threeContacts.map Contact.nodeId).Nodup := by decide
    exact hnd.sublist (List.filter_sublist.map _)
  excluded key excluded c hc e he := by
    have hfree := (List.mem_filter.mp hc).2
    simp only [Bool.not_eq_true', List.any_eq_false, decide_eq_true_eq] at hfree
    exact hfree e he
  contact n key c h := by simpa using List.find?_some h
  back c info h := by
    have hbyte : ∃ raw, toByte c.nodeId = .ok raw ∧ info.nodeId = raw := by
      cases hraw : toByte c.nodeId with
      | error f => simp [byteExternals, Contact.toThrift, hraw, bind, Except.bind, Except.map] at h
      | ok raw =>
        simp only [byteExternals, Contact.toThrift_of_ok hraw, Except.map, Except.ok.injEq] at h
        exact ⟨raw, rfl, by rw [← h]⟩
    obtain ⟨raw, hraw, hid⟩ := hbyte
    unfold toByte at hraw
    split at hraw
    · rename_i hlt
      exact ofByte_eq_ok.mpr ⟨_, hid.trans (Except.ok.inj hraw).symm, rfl⟩
    · cases hraw
  inj raw raw' nodeId h h' := by
    obtain ⟨b, rfl, hb⟩ := ofByte_eq_ok.mp h
    obtain ⟨b', rfl, hb'⟩ := ofByte_eq_ok.mp h'
    rw [Fin.ext (hb.symm.trans hb')]

/-- A request of the sender '7'. -/
def askedBy7 (key : Char) : FindRequest :=
  { key := bytes [key], senderInfo := { nodeId := bytes ['7'] } }

theorem noEcho_askedBy7 :
    (∀ out, findNode byteExternals tableAnswers (joinedService (.new 0)) {} (askedBy7 '2') = .ok out →
      (NoEcho (askedBy7 '2') out.response ↔ ¬ Echoes byteExternals tableAnswers (askedBy7 '2'))) ∧
    ∀ out, findValue byteExternals tableAnswers (joinedService (.new 0)) {} (askedBy7 '2') = .ok out →
      (NoEcho (askedBy7 '2') out.response ↔ (((joinedService (.new 0)).datastore.loadItem
        tableAnswers.first (askedBy7 '2').key).1 = true ∨
          ¬ Echoes byteExternals tableAnswers (askedBy7 '2'))) :=
  noEcho_iff faithful_tableAnswers rfl (askedBy7 '2')

/-- The sender asks for itself: '7' is excluded from the closest contacts and added as the
contact of the key. -/
theorem noEcho_counterexample :
    ¬ ∀ (X : Externals) (A : Answers) (s : KadService) (r : FindRequest) (out : Outcome FindResponse),
      Faithful X A → s.nodeJoined = true → findNode X A s {} r = .ok out → NoEcho r out.response := by
  intro h
  have hnodes : (findNode byteExternals tableAnswers (joinedService (.new 0)) {}
      (askedBy7 '7')).toOption.map (fun out => out.response.closestNodes.map ContactInfo.nodeId) =
        some [bytes ['1'], bytes ['2'], bytes ['7']] := by
    decide +kernel
  cases hout : findNode byteExternals tableAnswers (joinedService (.new 0)) {} (askedBy7 '7') with
  | error f =>
    rw [hout] at hnodes
    cases hnodes
  | ok out =>
    rw [hout] at hnodes
    have hids : out.response.closestNodes.map ContactInfo.nodeId =
        [bytes ['1'], bytes ['2'], bytes ['7']] := Option.some.inj hnodes
    refine (h _ _ _ _ out faithful_tableAnswers rfl hout).2 ?_
    rw [hids]
    decide

end KadService
end Kadpeer.L4
