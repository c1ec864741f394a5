import Kadpeer.Core.LTS
import Kadpeer.Core.Remote

/-!
# Servers and the calls of their clients

Any number of servers of one service, and any number of calls to them, each over a
connection of its own that may break at any time. Messages of different calls overtake one
another, servers change their state on their own and die.

The same system is built twice over a `Transport`: `wire` carries messages, over `direct`
the handler itself meets the request.

* `wire_refines_direct`: what can be reached with messages can be reached without, call by
  call, each with one visit to its server.
* `returned_once`: a call that has returned has met its server exactly once.
-/
namespace Kadpeer.Core.Remote

open Tagged

/-- How calls travel: what is sent, what the server makes of it, and what the client reads
from the answer. -/
structure Transport {S E A : Type} (V : Service S E A) where
  Query : V.Proc → Type
  Reply : V.Proc → Type
  send : (p : V.Proc) → Flagged (V.Req p) → Query p
  serve : A → (p : V.Proc) → S → Flagged (V.Resp p) → Query p → Ended S E (Reply p)
  recv : (p : V.Proc) → Flagged (V.Resp p) → Reply p →
    Option (Except AppException (Flagged (V.Resp p)))

/-- The stages of a call. A broken one may have met its server or not. -/
inductive Phase (Q R : Type)
  | waiting (query : Q)
  | served (reply : R)
  | returned
  | thrown (x : AppException)
  | broken

variable {S E A : Type} {V : Service S E A}

/-- A call with its request and the client's response object. -/
structure Session (T : Transport V) where
  proc : V.Proc
  server : Nat
  request : Flagged (V.Req proc)
  response : Flagged (V.Resp proc)
  phase : Phase (T.Query proc) (T.Reply proc)

/-- A server that has died is `none`. -/
structure Net (T : Transport V) where
  servers : Nat → Option S
  sessions : Nat → Option (Session T)

/-- How servers start and what becomes of them on their own, and the calls that clients make. -/
structure Setting (V : Service S E A) where
  start : S → Prop
  own : S → Option S → Prop
  opens : (p : V.Proc) → Flagged (V.Resp p) → Flagged (V.Req p) → Prop

namespace Session

variable {T : Transport V} (session : Session T)

def withPhase (phase : Phase (T.Query session.proc) (T.Reply session.proc)) : Session T :=
  { session with phase := phase }

/-- The client reads the answer. -/
def recv (reply : T.Reply session.proc) : Session T :=
  match T.recv session.proc session.response reply with
  | none => session.withPhase .broken
  | some (.ok response) => { session with response := response, phase := .returned }
  | some (.error x) => session.withPhase (.thrown x)

theorem recv_ok {reply : T.Reply session.proc} {response : Flagged (V.Resp session.proc)}
    (h : T.recv session.proc session.response reply = some (.ok response)) :
    session.recv reply = { session with response := response, phase := .returned } := by
  simp only [recv, h]

end Session

namespace Net

variable {T : Transport V} (n : Net T)

def withServer (i : Nat) (s : Option S) : Net T :=
  { n with servers := Function.update n.servers i s }

def withSession (c : Nat) (session : Session T) : Net T :=
  { n with sessions := Function.update n.sessions c (some session) }

theorem withSession_self (c : Nat) (session : Session T) :
    (n.withSession c session).sessions c = some session := Function.update_self _ _ _

/-- What holds of every call still does if it holds of the one that has changed. -/
theorem forall_withSession {P : Session T → Prop} {n : Net T}
    (h : ∀ c session, n.sessions c = some session → P session) (c : Nat) {session : Session T}
    (hs : P session) (c' : Nat) (session' : Session T)
    (hc' : (n.withSession c session).sessions c' = some session') : P session' := by
  simp only [Net.withSession, Function.update_apply] at hc'
  split at hc'
  · cases hc'
    exact hs
  · exact h c' session' hc'

/-- The server of the call is done with it. -/
def settle (c : Nat) (session : Session T) :
    Ended S E (T.Reply session.proc) → Net T
  | .answered reply s' =>
    (n.withServer session.server (some s')).withSession c (session.withPhase (.served reply))
  | .died _ => (n.withServer session.server none).withSession c (session.withPhase .broken)
  | .misread => n.withSession c (session.withPhase .broken)

theorem settle_answered (c : Nat) (session : Session T) (reply : T.Reply session.proc) (s' : S) :
    (n.settle c session (.answered reply s')).sessions c =
      some (session.withPhase (.served reply)) := withSession_self _ c _

end Net

inductive Label (A : Type)
  | connect (c : Nat)
  | serve (c : Nat) (a : A)
  | recv (c : Nat)
  | lose (c : Nat)
  | own (i : Nat)

/-- One step; every call has a number of its own. -/
inductive Step (T : Transport V) (G : Setting V) : Net T → Label A → Net T → Prop
  | connect {n : Net T} {c : Nat} {p : V.Proc} {server : Nat} {response : Flagged (V.Resp p)}
      {request : Flagged (V.Req p)} (hfree : n.sessions c = none)
      (hopens : G.opens p response request) :
      Step T G n (.connect c)
        (n.withSession c ⟨p, server, request, response, .waiting (T.send p request)⟩)
  | serve {n : Net T} {c : Nat} {a : A} {session : Session T} {query : T.Query session.proc} {s : S}
      (hsession : n.sessions c = some session) (hphase : session.phase = .waiting query)
      (hserver : n.servers session.server = some s) :
      Step T G n (.serve c a)
        (n.settle c session (T.serve a session.proc s session.response query))
  | recv {n : Net T} {c : Nat} {session : Session T} {reply : T.Reply session.proc}
      (hsession : n.sessions c = some session) (hphase : session.phase = .served reply) :
      Step T G n (.recv c) (n.withSession c (session.recv reply))
  | lose {n : Net T} {c : Nat} {session : Session T} (hsession : n.sessions c = some session)
      (hopen : (∃ query, session.phase = .waiting query) ∨ ∃ reply, session.phase = .served reply) :
      Step T G n (.lose c) (n.withSession c (session.withPhase .broken))
  | own {n : Net T} {i : Nat} {s : S} {s' : Option S} (hserver : n.servers i = some s)
      (hown : G.own s s') : Step T G n (.own i) (n.withServer i s')

def net (T : Transport V) (G : Setting V) : LTS (Net T) (Label A) where
  init n := (∀ i s, n.servers i = some s → G.start s) ∧ ∀ c, n.sessions c = none
  step := Step T G

/-! ## The two transports -/

/-- Messages. -/
def wire (V : Service S E A) : Transport V where
  Query _ := Message
  Reply _ := Message
  send p request := (V.method p).send request
  serve a _ s _ m := V.process a s m
  recv p response reply := (V.method p).recv response reply

/-- The handler on the request, and its answer as the client gets it. -/
def direct (V : Service S E A) : Transport V where
  Query p := Flagged (V.Req p)
  Reply p := Except AppException (Flagged (V.Resp p))
  send _ request := request
  serve a p s response request := V.direct a p s response request
  recv _ _ answer := some answer

/-- What a call over the wire is without it. -/
def Session.unwire (session : Session (wire V)) : Session (direct V) where
  proc := session.proc
  server := session.server
  request := session.request
  response := session.response
  phase := match session.phase with
    | .waiting _ => .waiting session.request
    | .served reply =>
      match (V.method session.proc).recv session.response reply with
      | none => .broken
      | some answer => .served answer
    | .returned => .returned
    | .thrown x => .thrown x
    | .broken => .broken

def Net.unwire (n : Net (wire V)) : Net (direct V) where
  servers := n.servers
  sessions c := (n.sessions c).map Session.unwire

/-- The messages of a call are its own: the request as it was sent, and an answer that can
be read. -/
def Session.Sound (session : Session (wire V)) : Prop :=
  match session.phase with
  | .waiting m => m = (V.method session.proc).send session.request
  | .served reply => ((V.method session.proc).recv session.response reply).isSome = true
  | _ => True

def Net.Sound (n : Net (wire V)) : Prop :=
  ∀ c session, n.sessions c = some session → session.Sound

/-! ## Messages stay with their call -/

section

variable {G : Setting V} {n n' : Net (wire V)} {c : Nat} {l : Label A}

theorem Net.Sound.withSession (h : n.Sound) {session : Session (wire V)} (hs : session.Sound) :
    (n.withSession c session).Sound := Net.forall_withSession h c hs

theorem Net.Sound.withServer (h : n.Sound) (i : Nat) (s : Option S) : (n.withServer i s).Sound := h

theorem Net.Sound.settle (h : n.Sound) (c : Nat) (a : A) (s : S) (session : Session (wire V)) :
    (n.settle c session (V.process a s ((V.method session.proc).send session.request))).Sound := by
  rcases V.process_send_cases a session.proc s session.response session.request with
    ⟨e, hprocess, -⟩ | ⟨reply, s', answer, hprocess, hrecv, -⟩
  · rw [hprocess]
    exact (h.withServer _ _).withSession trivial
  · rw [hprocess]
    exact (h.withServer _ _).withSession (Option.isSome_iff_exists.mpr ⟨answer, hrecv⟩)

/-- The message of a call that waits. -/
theorem Session.Sound.query {session : Session (wire V)} {m : Message} (h : session.Sound)
    (hphase : session.phase = .waiting m) : m = (V.method session.proc).send session.request := by
  rw [Session.Sound, hphase] at h
  exact h

theorem Session.Sound.answer {session : Session (wire V)} {reply : Message} (h : session.Sound)
    (hphase : session.phase = .served reply) :
    ∃ answer, (V.method session.proc).recv session.response reply = some answer := by
  rw [Session.Sound, hphase] at h
  exact Option.isSome_iff_exists.mp h

theorem sound_step (h : n.Sound) (hst : (net (wire V) G).step n l n') : n'.Sound := by
  cases hst with
  | connect hfree hopens => exact h.withSession rfl
  | @serve c a session query s hsession hphase hserver =>
    rw [(h c session hsession).query hphase]
    exact h.settle c a s session
  | recv hsession hphase =>
    refine h.withSession ?_
    unfold Session.recv
    split <;> exact trivial
  | lose hsession hopen => exact h.withSession trivial
  | own hserver hown => exact h

theorem sound_inductive (G : Setting V) : (net (wire V) G).Inductive Net.Sound where
  init n hn := fun c session hc => by rw [hn.2 c] at hc; cases hc
  step _ _ _ h hst := sound_step h hst

/-! ## Without messages -/

theorem unwire_withSession (n : Net (wire V)) (c : Nat) (session : Session (wire V)) :
    (n.withSession c session).unwire = n.unwire.withSession c session.unwire := by
  simp only [Net.unwire, Net.withSession, Net.mk.injEq, true_and]
  exact (Function.comp_update (Option.map Session.unwire) n.sessions c (some session))

theorem unwire_session {session : Session (wire V)} (h : n.sessions c = some session) :
    n.unwire.sessions c = some session.unwire := congrArg (Option.map Session.unwire) h

theorem unwire_served {session : Session (wire V)} {reply : Message}
    {answer : Except AppException (Flagged (V.Resp session.proc))}
    (hrecv : (V.method session.proc).recv session.response reply = some answer) :
    (session.withPhase (.served reply)).unwire = session.unwire.withPhase (.served answer) := by
  simp only [Session.unwire, Session.withPhase, hrecv]

theorem unwire_recv {session : Session (wire V)} {reply : Message}
    {answer : Except AppException (Flagged (V.Resp session.proc))}
    (hrecv : (V.method session.proc).recv session.response reply = some answer) :
    (session.recv reply).unwire = session.unwire.recv answer := by
  have hwire : (wire V).recv session.proc session.response reply = some answer := hrecv
  simp only [Session.recv, hwire]
  cases answer <;> rfl

/-- A server is done with a message as it is with the request. -/
theorem unwire_settle (n : Net (wire V)) (c : Nat) (a : A) (s : S) (session : Session (wire V)) :
    (n.settle c session (V.process a s ((V.method session.proc).send session.request))).unwire =
      n.unwire.settle c session.unwire
        (V.direct a session.proc s session.response session.request) := by
  rcases V.process_send_cases a session.proc s session.response session.request with
    ⟨e, hprocess, hdirect⟩ | ⟨reply, s', answer, hprocess, hrecv, hdirect⟩
  · rw [hprocess, hdirect]
    exact unwire_withSession _ c _
  · rw [hprocess, hdirect]
    refine (unwire_withSession _ c _).trans ?_
    rw [unwire_served hrecv]
    rfl

/-- **One step with messages is one step without.** -/
theorem unwire_step (h : n.Sound) (hst : (net (wire V) G).step n l n') :
    (net (direct V) G).step n.unwire l n'.unwire := by
  cases hst with
  | connect hfree hopens =>
    rw [unwire_withSession]
    exact Step.connect (T := direct V) (congrArg (Option.map Session.unwire) hfree) hopens
  | @serve c a session query s hsession hphase hserver =>
    have hwaiting : session.unwire.phase = .waiting session.request := by
      simp only [Session.unwire, hphase]
    have hstep := Step.serve (T := direct V) (G := G) (a := a) (unwire_session hsession) hwaiting
      hserver
    rw [(h c session hsession).query hphase]
    have hsettle := unwire_settle n c a s session
    exact hsettle ▸ hstep
  | @recv c session reply hsession hphase =>
    obtain ⟨answer, hrecv⟩ := (h c session hsession).answer hphase
    have hserved : session.unwire.phase = .served answer := by
      simp only [Session.unwire, hphase, hrecv]
    rw [unwire_withSession, unwire_recv hrecv]
    exact Step.recv (T := direct V) (unwire_session hsession) hserved
  | @lose c session hsession hopen =>
    rw [unwire_withSession]
    refine Step.lose (T := direct V) (unwire_session hsession) ?_
    rcases hopen with ⟨m, hphase⟩ | ⟨reply, hphase⟩
    · exact .inl ⟨session.request, by simp only [Session.unwire, hphase]⟩
    · obtain ⟨answer, hrecv⟩ := (h c session hsession).answer hphase
      exact .inr ⟨answer, by simp only [Session.unwire, hphase, hrecv]⟩
  | own hserver hown => exact Step.own (n := n.unwire) hserver hown

/-- **The servers see no difference** between the two transports. -/
theorem wire_refines_direct (G : Setting V) :
    (net (wire V) G).Refines (net (direct V) G) Net.Sound Net.unwire where
  init _ hn := ⟨hn.1, fun c => congrArg (Option.map Session.unwire) (hn.2 c)⟩
  step _ _ _ h hst := unwire_step h hst

end

/-! ## The visits of a call -/

/-- A visit to a server: what the answer may depend on, and the servers before and after. -/
structure Visit (S A : Type) where
  oracle : A
  before : Nat → Option S
  after : Nat → Option S

/-- The visits of call `c`. -/
def visits {T : Transport V} (c : Nat) : Net T → List (Label A × Net T) → List (Visit S A)
  | _, [] => []
  | n, (l, n') :: tr =>
    match l with
    | .serve c' a =>
      if c' = c then ⟨a, n.servers, n'.servers⟩ :: visits c n' tr else visits c n' tr
    | _ => visits c n' tr

section

variable {T : Transport V} {G : Setting V} {n n' n₀ : Net T} {c : Nat} {l : Label A}
  {tr : List (Label A × Net T)}

theorem visits_cons (c : Nat) (n : Net T) (l : Label A) (n' : Net T)
    (tr : List (Label A × Net T)) :
    visits c n ((l, n') :: tr) = visits c n [(l, n')] ++ visits c n' tr := by
  cases l with
  | serve c' a =>
    simp only [visits]
    split <;> rfl
  | _ => rfl

theorem visits_snoc (hr : (net T G).Run n₀ tr n) (c : Nat) (l : Label A) (n' : Net T) :
    visits c n₀ (tr ++ [(l, n')]) = visits c n₀ tr ++ visits c n [(l, n')] := by
  induction hr with
  | nil => rfl
  | @cons n n₁ n₂ l' tr hst _ ih =>
    rw [List.cons_append, visits_cons, ih, visits_cons c n l' n₁ tr, List.append_assoc]

/-- The call has met its server once, and this is what the server made of it. -/
def MetOnce (history : List (Visit S A)) (session : Session T)
    (response : Flagged (V.Resp session.proc)) (reply : T.Reply session.proc) : Prop :=
  ∃ visit s s', history = [visit] ∧ visit.before session.server = some s ∧
    visit.after session.server = some s' ∧
    T.serve visit.oracle session.proc s response (T.send session.proc session.request) =
      .answered reply s'

/-- What the visits of a call say about it. -/
def Visited (history : List (Visit S A)) (session : Session T) : Prop :=
  match session.phase with
  | .waiting query => history = [] ∧ query = T.send session.proc session.request
  | .served reply => MetOnce history session session.response reply
  | .returned => ∃ response reply, MetOnce history session response reply ∧
      T.recv session.proc response reply = some (.ok session.response)
  | .thrown x => ∃ reply, MetOnce history session session.response reply ∧
      T.recv session.proc session.response reply = some (.error x)
  | .broken => history.length ≤ 1

/-- The same for every number, used or not. -/
def Accounted (history : List (Visit S A)) : Option (Session T) → Prop
  | none => history = []
  | some session => Visited history session

theorem accounted_settle {history : List (Visit S A)} {session : Session T}
    {query : T.Query session.proc} {a : A} {s : S} (h : Visited history session)
    (hphase : session.phase = .waiting query) (hserver : n.servers session.server = some s) :
    let n' := n.settle c session (T.serve a session.proc s session.response query)
    Accounted (history ++ [⟨a, n.servers, n'.servers⟩]) (n'.sessions c) := by
  rw [Visited, hphase] at h
  obtain ⟨rfl, rfl⟩ := h
  cases hended : T.serve a session.proc s session.response (T.send session.proc session.request) with
  | answered reply s' =>
    simp only [Net.settle, Net.withSession, Function.update_self]
    exact ⟨_, s, s', rfl, hserver, Function.update_self _ _ _, hended⟩
  | died e =>
    simp only [Net.settle, Net.withSession, Function.update_self]
    exact Nat.le_refl 1
  | misread =>
    simp only [Net.settle, Net.withSession, Function.update_self]
    exact Nat.le_refl 1

theorem MetOnce.length_le {history : List (Visit S A)} {session : Session T}
    {response : Flagged (V.Resp session.proc)} {reply : T.Reply session.proc}
    (h : MetOnce history session response reply) : history.length ≤ 1 := by
  obtain ⟨visit, s, s', rfl, -, -⟩ := h
  exact Nat.le_refl 1

theorem accounted_recv {history : List (Visit S A)} {session : Session T}
    {reply : T.Reply session.proc} (h : Visited history session)
    (hphase : session.phase = .served reply) : Visited history (session.recv reply) := by
  rw [Visited, hphase] at h
  unfold Session.recv
  split
  · exact h.length_le
  · rename_i response hrecv
    exact ⟨session.response, reply, h, hrecv⟩
  · rename_i x hrecv
    exact ⟨reply, h, hrecv⟩

theorem accounted_lose {history : List (Visit S A)} {session : Session T}
    (h : Visited history session)
    (hopen : (∃ query, session.phase = .waiting query) ∨ ∃ reply, session.phase = .served reply) :
    history.length ≤ 1 := by
  rcases hopen with ⟨query, hphase⟩ | ⟨reply, hphase⟩
  · rw [Visited, hphase] at h
    rw [h.1]
    exact Nat.zero_le 1
  · rw [Visited, hphase] at h
    exact h.length_le

theorem settle_sessions_of_ne {c' : Nat} (hne : c' ≠ c) (session : Session T)
    (ended : Ended S E (T.Reply session.proc)) :
    (n.settle c session ended).sessions c' = n.sessions c' := by
  cases ended <;> exact Function.update_of_ne hne _ _

/-- A step that changes a call and visits no server. -/
theorem accounted_withSession {history : List (Visit S A)} (h : Accounted history (n.sessions c))
    {c' : Nat} {session : Session T}
    (hs : Accounted history (n.sessions c') → Visited history session) :
    Accounted history ((n.withSession c' session).sessions c) := by
  simp only [Net.withSession, Function.update_apply]
  split
  · rename_i heq
    subst heq
    exact hs h
  · exact h

theorem accounted_step {history : Nat → List (Visit S A)}
    (h : ∀ c, Accounted (history c) (n.sessions c)) (hst : (net T G).step n l n') (c : Nat) :
    Accounted (history c ++ visits c n [(l, n')]) (n'.sessions c) := by
  have hc := h c
  cases hst with
  | @connect c' p server response request hfree hopens =>
    simp only [visits, List.append_nil]
    refine accounted_withSession hc fun hnone => ?_
    rw [hfree] at hnone
    exact ⟨hnone, rfl⟩
  | @serve c' a session query s hsession hphase hserver =>
    by_cases heq : c' = c
    · subst heq
      rw [hsession] at hc
      simp only [visits, if_true]
      exact accounted_settle hc hphase hserver
    · simp only [visits, if_neg heq, List.append_nil]
      rwa [settle_sessions_of_ne (Ne.symm heq)]
  | @recv c' session reply hsession hphase =>
    simp only [visits, List.append_nil]
    refine accounted_withSession hc fun hvisited => ?_
    rw [hsession] at hvisited
    exact accounted_recv hvisited hphase
  | @lose c' session hsession hopen =>
    simp only [visits, List.append_nil]
    refine accounted_withSession hc fun hvisited => ?_
    rw [hsession] at hvisited
    exact accounted_lose hvisited hopen
  | own hserver hown =>
    simp only [visits, List.append_nil]
    exact hc

theorem accounted_run (hinit : (net T G).init n₀) (hr : (net T G).Run n₀ tr n) (c : Nat) :
    Accounted (visits c n₀ tr) (n.sessions c) := by
  revert c
  refine hr.inductionRight (P := fun tr n => ∀ c, Accounted (visits c n₀ tr) (n.sessions c)) ?_ ?_
  · intro c
    rw [hinit.2 c]
    rfl
  · intro tr n l n' hrun hacc hst c
    rw [visits_snoc hrun]
    exact accounted_step hacc hst c

end

section

variable {G : Setting V} {n n₀ : Net (wire V)} {c : Nat} {tr : List (Label A × Net (wire V))}

theorem visits_unwire (c : Nat) (n : Net (wire V)) (tr : List (Label A × Net (wire V))) :
    visits c n.unwire (tr.map (Prod.map id Net.unwire)) = visits c n tr := by
  induction tr generalizing n with
  | nil => rfl
  | cons x tr ih =>
    obtain ⟨l, n'⟩ := x
    rw [List.map_cons, Prod.map_apply, visits_cons, visits_cons c n, ih]
    cases l <;> rfl

theorem wire_accounted (hinit : (net (wire V) G).init n₀) (hr : (net (wire V) G).Run n₀ tr n)
    {session : Session (wire V)} (hsession : n.sessions c = some session) :
    Visited (visits c n₀ tr) session.unwire := by
  have hrefines := wire_refines_direct G
  have hrun := hrefines.run (sound_inductive G) hr ((sound_inductive G).init n₀ hinit)
  have hacc := accounted_run (hrefines.init n₀ hinit) hrun c
  rw [visits_unwire, unwire_session hsession] at hacc
  exact hacc

/-- **A call that has returned has met its server once**, and returns what the handler made of
the request at that moment. -/
theorem returned_once (hinit : (net (wire V) G).init n₀) (hr : (net (wire V) G).Run n₀ tr n)
    {session : Session (wire V)} (hsession : n.sessions c = some session)
    (hphase : session.phase = .returned) :
    ∃ visit s s' response, visits c n₀ tr = [visit] ∧ visit.before session.server = some s ∧
      visit.after session.server = some s' ∧
      V.direct visit.oracle session.proc s response session.request =
        .answered (.ok session.response) s' := by
  have hvisited := wire_accounted hinit hr hsession
  have hunwired : session.unwire.phase = .returned := by simp only [Session.unwire, hphase]
  rw [Visited, hunwired] at hvisited
  obtain ⟨response, reply, ⟨visit, s, s', hvisits, hbefore, hafter, hended⟩, hrecv⟩ := hvisited
  cases hrecv
  exact ⟨visit, s, s', response, hvisits, hbefore, hafter, hended⟩

end

end Kadpeer.Core.Remote
