import Kadpeer.L4Service.KadService

/-!
# Parsing the sender

Every handler but `Bootstrap` parses `sender_info`, some of them only after other checks
(`AsksSender`). `ParseFromThrift` refuses an empty `node_id` and hands any other string to
`KadID(std::string)`, which aborts.

* `handle_refused`: a request whose sender is not asked for, or has no id, returns and calls
  nothing.
* `handle_aborts`: a request whose sender cannot be converted ends as the conversion does.
* `noAbort_iff`: with the code's own conversion a request aborts the node exactly when the
  sender is asked for and has an id.
-/
namespace Kadpeer.L4

open Kadpeer.Core Kadpeer.L1 Kadpeer.L2

namespace KadService

section

variable (X : Externals) (A : Answers) (s : KadService)

/-- A joined node gets as far as the sender of the request. -/
def AsksSender : Request → Prop
  | .ping r => r.ping = bytes ['p', 'i', 'n', 'g']
  | .findValue _ => True
  | .findNode _ => True
  | .store r => hasPayload s r = true
  | .downlist _ => True
  | .bootstrap _ => False
  | .delete r => (s.datastore.loadItem A.first r.key).1 = true ∧
      (s.datastore.find r.key r.value.ser).isSome = true
  | .update r => checkUpdateRequest X A s r = true ∧
      s.datastore.UpdateAccepts r.key r.oldValue.ser r.newValue.ser

/-- The sender is parsed, and has a `node_id`. -/
def NeedsParse (request : Request) : Prop :=
  s.nodeJoined = true ∧ AsksSender X A s request ∧
    ∃ info ∈ request.senderInfo, info.nodeId ≠ []

end

variable {X : Externals} {A : Answers} {s : KadService} {request : Request} {info : ContactInfo}
  {f : Fault}

/-- Nothing is parsed if the id is empty wherever it is asked for. -/
theorem andGetSender_of_empty {b : Bool} (h : b = true → info.nodeId = []) :
    andGetSender X b info = .ok (false, .empty) := by
  cases b with
  | false => rfl
  | true => exact getSender_of_empty (h rfl)

/-! ## The sender cannot be converted -/

theorem handle_aborts (hj : s.nodeJoined = true) (hasks : AsksSender X A s request)
    (hinfo : info ∈ request.senderInfo) (h : getSender X info = .error f) :
    handle X A s request = .error f := by
  cases request with
  | ping r =>
    cases hinfo
    have hping : r.ping = bytes ['p', 'i', 'n', 'g'] := hasks
    simp [handle, ping, hj, hping, andGetSender, h, bind, Except.bind]
  | findValue r =>
    cases hinfo
    simp [handle, findValue, hj, h, bind, Except.bind]
  | findNode r =>
    cases hinfo
    simp [handle, findNode, hj, h, bind, Except.bind]
  | store r =>
    cases hinfo
    have hload : hasPayload s r = true := hasks
    simp [handle, store, checkStoreRequest, hj, hload, andGetSender, h, bind, Except.bind]
  | downlist r =>
    cases hinfo
    simp [handle, downlist, hj, h, bind, Except.bind]
  | bootstrap r => exact hasks.elim
  | delete r =>
    cases hinfo
    obtain ⟨hload, hfound⟩ := hasks
    have hmark : (mark s r).1 = true := DataStore.markForDeletion_fst.mpr hfound
    simp only [mark] at hmark
    simp [handle, delete, hj, hload, hmark, andGetSender, h, bind, Except.bind]
  | update r =>
    cases hinfo
    obtain ⟨hcheck, haccepts⟩ := hasks
    have hwrite : (write X A s r).1 = true := DataStore.updateItem_fst.mpr haccepts
    simp only [write] at hwrite
    simp [handle, update, hj, hcheck, hwrite, h, bind, Except.bind]

/-! ## The sender is refused or not asked for -/

theorem handle_unjoined (X : Externals) (A : Answers) (request : Request) (hj : s.nodeJoined = false) :
    ∃ out, handle X A s request = .ok out ∧ out.datastore = s.datastore ∧ out.calls = [] ∧
      out.response = kRpcResultFailure := by
  cases request with
  | ping r => exact ⟨_, by simp [handle, ping, hj, bind, Except.bind]; rfl, rfl, rfl, rfl⟩
  | findValue r => exact ⟨_, by simp [handle, findValue, hj, bind, Except.bind]; rfl, rfl, rfl, rfl⟩
  | findNode r => exact ⟨_, by simp [handle, findNode, hj, bind, Except.bind]; rfl, rfl, rfl, rfl⟩
  | store r => exact ⟨_, by simp [handle, store, hj, bind, Except.bind]; rfl, rfl, rfl, rfl⟩
  | downlist r => exact ⟨_, by simp [handle, downlist, hj, bind, Except.bind]; rfl, rfl, rfl, rfl⟩
  | bootstrap r => exact ⟨_, by simp [handle, bootstrap, hj]; rfl, rfl, rfl, rfl⟩
  | delete r => exact ⟨_, by simp [handle, delete, hj, bind, Except.bind]; rfl, rfl, rfl, rfl⟩
  | update r => exact ⟨_, by simp [handle, update, hj, bind, Except.bind]; rfl, rfl, rfl, rfl⟩

theorem handle_refused (h : ¬ NeedsParse X A s request) :
    ∃ out, handle X A s request = .ok out ∧ out.calls = [] ∧
      (out.response = kRpcResultFailure ∨ request.senderInfo = none) := by
  by_cases hj : s.nodeJoined = true
  · have hempty : AsksSender X A s request → ∀ info ∈ request.senderInfo, info.nodeId = [] := by
      intro hasks info hinfo
      by_contra hne
      exact h ⟨hj, hasks, info, hinfo, hne⟩
    cases request with
    | ping r =>
      have hsender : andGetSender X (r.ping = bytes ['p', 'i', 'n', 'g']) r.senderInfo =
          .ok (false, .empty) :=
        andGetSender_of_empty fun hping =>
          hempty (show r.ping = bytes ['p', 'i', 'n', 'g'] from of_decide_eq_true hping) _ rfl
      exact ⟨_, by simp [handle, ping, hj, hsender, bind, Except.bind]; rfl, rfl, .inl rfl⟩
    | findValue r =>
      have hsender := getSender_of_empty (X := X) (hempty trivial _ rfl)
      exact ⟨_, by simp [handle, findValue, hj, hsender, bind, Except.bind]; rfl, rfl, .inl rfl⟩
    | findNode r =>
      have hsender := getSender_of_empty (X := X) (hempty trivial _ rfl)
      exact ⟨_, by simp [handle, findNode, hj, hsender, bind, Except.bind]; rfl, rfl, .inl rfl⟩
    | store r =>
      have hsender : checkStoreRequest X s r = .ok (false, .empty) :=
        andGetSender_of_empty fun hload => hempty hload _ rfl
      exact ⟨_, by simp [handle, store, hj, hsender, bind, Except.bind]; rfl, rfl, .inl rfl⟩
    | downlist r =>
      have hsender := getSender_of_empty (X := X) (hempty trivial _ rfl)
      exact ⟨_, by simp [handle, downlist, hj, hsender, bind, Except.bind]; rfl, rfl, .inl rfl⟩
    | bootstrap r =>
      refine ⟨_, rfl, ?_, .inr rfl⟩
      unfold bootstrap
      split
      · rfl
      · split <;> rfl
    | delete r =>
      by_cases hload : (s.datastore.loadItem A.first r.key).1 = true
      · have hsender : andGetSender X (mark s r).1 r.senderInfo = .ok (false, .empty) :=
          andGetSender_of_empty fun hmark =>
            hempty ⟨hload, DataStore.markForDeletion_fst.mp hmark⟩ _ rfl
        simp only [mark] at hsender
        exact ⟨_, by simp [handle, delete, hj, hload, hsender, bind, Except.bind]; rfl, rfl, .inl rfl⟩
      · exact ⟨_, by simp [handle, delete, hj, hload, bind, Except.bind]; rfl, rfl, .inl rfl⟩
    | update r =>
      by_cases hcheck : checkUpdateRequest X A s r = true
      · by_cases hwrite : (write X A s r).1 = true
        · have hsender := getSender_of_empty (X := X)
            (hempty ⟨hcheck, DataStore.updateItem_fst.mp hwrite⟩ _ rfl)
          simp only [write] at hwrite
          exact ⟨_, by simp [handle, update, hj, hcheck, hwrite, hsender, bind, Except.bind]; rfl,
            rfl, .inl rfl⟩
        · simp only [write] at hwrite
          exact ⟨_, by simp [handle, update, hj, hcheck, hwrite, bind, Except.bind]; rfl, rfl, .inl rfl⟩
      · exact ⟨_, by simp [handle, update, hj, hcheck, bind, Except.bind]; rfl, rfl, .inl rfl⟩
  · have hj : s.nodeJoined = false := by simpa using hj
    obtain ⟨out, hout, -, hcalls, hres⟩ := handle_unjoined X A request hj
    exact ⟨out, hout, hcalls, .inl hres⟩

/-! ## The code's own conversion -/

/-- The externals with the code's `KadID(std::string)`. -/
def codeExternals (X : Externals) : Externals :=
  { X with toKadID := KadID.ofString }

theorem getSender_code (h : info.nodeId ≠ []) : getSender (codeExternals X) info = .error .assertion :=
  getSender_of_error h (KadID.ofString_fault info.nodeId)

/-- `ParseFromThrift` returns `false` and leaves the contact, or returns `true` with an id. -/
def ParseReturns (data : ContactInfo) : Prop :=
  ∀ this : Contact, Contact.parseFromThrift KadID.ofString data this = .ok (false, this) ∨
    ∃ nodeId, Contact.parseFromThrift KadID.ofString data this =
      .ok (true, Contact.ofInfo nodeId data this)

theorem parseReturns_iff {data : ContactInfo} : ParseReturns data ↔ data.nodeId = [] := by
  constructor
  · intro h
    by_contra hne
    rcases h .empty with h | ⟨_, h⟩ <;>
      rw [Contact.parseFromThrift_ofString, if_neg hne] at h <;> cases h
  · intro h this
    rw [Contact.parseFromThrift_ofString, if_pos h]
    exact .inl rfl

/-- **No string of a peer aborts the node**, and when: the strings are converted by
`ParseFromThrift` and by `FindNode`, and every one that is converted aborts. -/
theorem noAbort_iff (X : Externals) (A : Answers) (s : KadService) (request : Request)
    (data : ContactInfo) (key : Bytes) :
    (ParseReturns data ↔ data.nodeId = []) ∧ KadID.ofString key = .error .assertion ∧
      (handle (codeExternals X) A s request ≠ .error .assertion ↔
        ¬ NeedsParse (codeExternals X) A s request) := by
  refine ⟨parseReturns_iff, KadID.ofString_fault key, ?_, ?_⟩
  · rintro h ⟨hj, hasks, info, hinfo, hne⟩
    exact h (handle_aborts hj hasks hinfo (getSender_code hne))
  · intro h hfault
    obtain ⟨out, hout, -⟩ := handle_refused h
    rw [hout] at hfault
    cases hfault

/-- A ping whose sender has the id "7". -/
theorem noAbort_counterexample :
    ¬ ∀ (X : Externals) (A : Answers) (s : KadService) (request : Request), s.nodeJoined = true →
      handle (codeExternals X) A s request ≠ .error .assertion := by
  intro h
  apply h plainExternals (plainAnswers 1000) (joinedService (.new 0))
    (.ping { ping := bytes ['p', 'i', 'n', 'g'], senderInfo := peer }) rfl
  exact handle_aborts rfl rfl rfl (getSender_code (by decide))

end KadService
end Kadpeer.L4
