import Mathlib.Data.List.Forall2
import PkiEnroll.Proofs.Enroll.FailureKind
import PkiEnroll.Proofs.Enroll.Machine

namespace PkiEnroll.Enroll

open Der X509 Cmp Protection
open Relation (ReflTransGen)

/-- Whether the message handed over has a body. -/
def Exchange.Carries (x : Exchange) (body : Body) : Prop :=
  ∃ m : Message, m.body = body ∧ m.encode = .ok x.request

theorem Session.message_eq_ok {s : Session} {now : Instant} {body : Body} {m : Message}
    (h : s.message now body = .ok m) :
    ∃ header, s.header now body = .ok header ∧ m.header = s.context.complete header ∧
      m.body = body ∧
      m.extraCerts = if s.context.extraCerts.isEmpty then none else some s.context.extraCerts := by
  obtain ⟨header, hheader, h⟩ := bind_eq_ok_iff.1 h
  obtain ⟨part, protection, -, -, rfl⟩ := Context.protectMessage_eq_ok h
  exact ⟨header, hheader, rfl, rfl, rfl⟩

theorem Session.message_body {s : Session} {now : Instant} {body : Body} {m : Message}
    (h : s.message now body = .ok m) : m.body = body := by
  obtain ⟨header, -, -, hbody, -⟩ := message_eq_ok h
  exact hbody

theorem split_concat {α : Type} {before after xs : List α} {x last : α}
    (h : xs ++ [last] = before ++ x :: after) :
    (before = xs ∧ x = last ∧ after = []) ∨ ∃ after', xs = before ++ x :: after' := by
  rcases List.eq_nil_or_concat after with rfl | ⟨after', z, rfl⟩
  · obtain ⟨rfl, hsame⟩ := List.append_inj' h rfl
    exact .inl ⟨rfl, (List.singleton_inj.1 hsame).symm, rfl⟩
  · rw [List.concat_eq_append, ← List.cons_append, ← List.append_assoc] at h
    exact .inr ⟨after', List.append_inj_left' h rfl⟩

namespace Enrollment

variable {e : Enrollment} {peer : Peer} {p q : Progress} {more : List Body} {states : List State}

def rounds (k : Nat) : List State := (List.replicate k [.awaitingPollDecision, .polling]).flatten

theorem rounds_succ (k : Nat) : rounds (k + 1) = rounds k ++ [.awaitingPollDecision, .polling] := by
  simp [rounds, List.replicate_succ']

/-- The states that lead to a certificate with a number of polls. -/
def course (e : Enrollment) (k : Nat) : List State :=
  [.building, .sent] ++ rounds k ++ if e.descriptor.implicitConfirm then [] else [.confirming]

/-- A conversation so far: the request and as many polls as are counted, and then `more`. -/
structure Talk (e : Enrollment) (p : Progress) (more : List Body) (states : List State) : Prop where
  carried : ∃ m, List.Forall₂ Exchange.Carries p.exchanges
    (e.kind.body [m] :: (List.replicate p.session.polls e.pollBody ++ more))
  visited : p.visited = [.building, .sent] ++ rounds p.session.polls ++ states
  polls_le : p.session.polls ≤ e.polling.maxPolls

structure Silent (p : Progress) : Prop where
  exchanges : p.exchanges = []
  visited : p.visited = [.building]
  polls : p.session.polls = 0

theorem Silent.polls_le (h : Silent p) (n : Nat) : p.session.polls ≤ n := by
  have hzero := h.polls
  omega

/-- How a conversation can end. -/
inductive Ends (e : Enrollment) : Except Failure Model → Progress → Prop
  | silent {p : Progress} {f : Failure} (h : Silent p) (hf : f.kind ≠ .pollTimeout) :
      Ends e (.error f) p
  | asked {p : Progress} {f : Failure} (h : Talk e p [] [] ∨ Talk e p [] [.awaitingPollDecision])
      (hf : ∀ n, f = .pollTimeout n → n = p.session.polls) : Ends e (.error f) p
  | unconfirmed {p : Progress} {f : Failure} {m : Model}
      (h : Talk e p [e.confirmBody m] [.confirming]) (hi : e.descriptor.implicitConfirm = false)
      (hf : f.kind ≠ .pollTimeout) (hc : f.kind ≠ .cancelled) : Ends e (.error f) p
  | granted {p : Progress} {m : Model} (h : Talk e p [] [])
      (hi : e.descriptor.implicitConfirm = true) : Ends e (.ok m) p
  | confirmed {p : Progress} {m : Model} (h : Talk e p [e.confirmBody m] [.confirming])
      (hi : e.descriptor.implicitConfirm = false) : Ends e (.ok m) p

/-- How a conversation stands at a stage. -/
def Stands (e : Enrollment) : Stage × Progress → Prop
  | (.preparing, p) => Silent p
  | (.judged _ _, p) => Talk e p [] []
  | (.due _, p) => Talk e p [] [.awaitingPollDecision] ∧ p.session.polls < e.polling.maxPolls
  | (.arranged _, p) => Talk e p [] [] ∧ e.descriptor.implicitConfirm = false
  | (.ended result, p) => Ends e result p

theorem forall₂_concat {xs : List Exchange} {bs : List Body} {x : Exchange} {b : Body}
    (h : List.Forall₂ Exchange.Carries xs bs) (hx : x.Carries b) :
    List.Forall₂ Exchange.Carries (xs ++ [x]) (bs ++ [b]) :=
  List.rel_append h (.cons hx .nil)

theorem Talk.add {x : Exchange} {body : Body} {state : State} (h : Talk e p [] [])
    (hx : x.Carries body) (hexchanges : q.exchanges = p.exchanges ++ [x])
    (hvisited : q.visited = p.visited ++ [state]) (hpolls : q.session.polls = p.session.polls) :
    Talk e q [body] [state] := by
  obtain ⟨m, hcarried⟩ := h.carried
  refine ⟨⟨m, ?_⟩, ?_, by rw [hpolls]; exact h.polls_le⟩
  · have hnext := forall₂_concat hcarried hx
    simpa [hexchanges, hpolls] using hnext
  · simp [hvisited, hpolls, h.visited]

theorem Talk.poll {x : Exchange} (h : Talk e p [] [.awaitingPollDecision])
    (hlt : p.session.polls < e.polling.maxPolls) (hx : x.Carries e.pollBody)
    (hexchanges : q.exchanges = p.exchanges ++ [x]) (hvisited : q.visited = p.visited ++ [.polling])
    (hpolls : q.session.polls = p.session.polls + 1) : Talk e q [] [] := by
  obtain ⟨m, hcarried⟩ := h.carried
  refine ⟨⟨m, ?_⟩, ?_, by omega⟩
  · have hnext := forall₂_concat hcarried hx
    simpa [hexchanges, hpolls, List.replicate_succ'] using hnext
  · simp [hvisited, hpolls, h.visited, rounds_succ]

theorem Silent.ask {x : Exchange} {m : CertReqMsg} (h : Silent p) (hx : x.Carries (e.kind.body [m]))
    (hexchanges : q.exchanges = p.exchanges ++ [x]) (hvisited : q.visited = p.visited ++ [.sent])
    (hpolls : q.session.polls = p.session.polls) : Talk e q [] [] := by
  have hzero : q.session.polls = 0 := hpolls.trans h.polls
  refine ⟨⟨m, ?_⟩, ?_, by omega⟩
  · rw [hexchanges, h.exchanges, hzero]
    exact .cons hx .nil
  · rw [hvisited, h.visited, hzero]
    rfl

theorem RoundTrip.kind_ne {state : State} {body : Body} {f : Failure}
    (h : RoundTrip e peer state body p (.error f) q) :
    f.kind ≠ .pollTimeout ∧ f.kind ≠ .cancelled := by
  constructor
  · exact h.failsWithin.kind_ne rfl (by decide)
  · exact h.failsWithin.kind_ne rfl (by decide)

/-- A round trip hands over its body, unless it fails before that. -/
theorem RoundTrip.carries {state : State} {body : Body} {result : Except Failure Verdict}
    (h : RoundTrip e peer state body p result q) :
    (q = p ∧ ∃ f, result = .error f) ∨
      ∃ x, Exchange.Carries x body ∧ q.exchanges = p.exchanges ++ [x] ∧
        q.visited = p.visited ++ [state] ∧ q.session.polls = (p.session.enter state).polls := by
  rcases h.sends with hnothing | ⟨x, m, hexchanges, hm, hrequest, hvisited, hpolls⟩
  · exact .inl hnothing
  · exact .inr ⟨x, ⟨m, Session.message_body hm, hrequest⟩, hexchanges, hvisited, hpolls⟩

theorem Talk.await (h : Talk e p [] []) : Talk e (p.enter .awaitingPollDecision) [] [.awaitingPollDecision] where
  carried := h.carried
  visited := by
    change p.visited ++ _ = _
    rw [h.visited, List.append_nil]
    rfl
  polls_le := h.polls_le

theorem Talk.atClock (h : Talk e p more states) (clock : Nat) : Talk e { p with clock } more states :=
  ⟨h.carried, h.visited, h.polls_le⟩

theorem eq_of_pollTimeout {f : Failure} {m n : Nat} (hf : f.kind ≠ .pollTimeout)
    (hn : f = .pollTimeout m) : m = n := by
  rw [hn] at hf
  exact absurd rfl hf

/-- After the message of a round trip has been handed over. -/
theorem Talk.stands {state : State} {body : Body} {result : Except Failure Verdict} {started : Nat}
    (h : Talk e q [] []) (hr : RoundTrip e peer state body p result q) :
    Stands e (.after started result, q) := by
  cases result with
  | ok verdict => exact h
  | error f => exact .asked (.inl h) fun n hn => eq_of_pollTimeout hr.kind_ne.1 hn

theorem Silent.stands_ask {m : CertReqMsg} {result : Except Failure Verdict} {started : Nat}
    (h : Silent p) (hr : RoundTrip e peer .sent (e.kind.body [m]) p result q) :
    Stands e (.after started result, q) := by
  rcases hr.carries with ⟨rfl, f, rfl⟩ | ⟨x, hx, hexchanges, hvisited, hpolls⟩
  · exact .silent h hr.kind_ne.1
  · exact (h.ask hx hexchanges hvisited hpolls).stands hr

theorem Talk.stands_poll {result : Except Failure Verdict} {started : Nat}
    (h : Talk e p [] [.awaitingPollDecision]) (hlt : p.session.polls < e.polling.maxPolls)
    (hr : RoundTrip e peer .polling e.pollBody p result q) : Stands e (.after started result, q) := by
  rcases hr.carries with ⟨rfl, f, rfl⟩ | ⟨x, hx, hexchanges, hvisited, hpolls⟩
  · exact .asked (.inr h) fun n hn => eq_of_pollTimeout hr.kind_ne.1 hn
  · exact (h.poll hlt hx hexchanges hvisited hpolls).stands hr

theorem Talk.ends_confirm {m : Model} {result : Except Failure Verdict} {f : Failure}
    (h : Talk e p [] []) (hi : e.descriptor.implicitConfirm = false)
    (hr : RoundTrip e peer .confirming (e.confirmBody m) p result q)
    (hf : f.kind ≠ .pollTimeout) (hc : f.kind ≠ .cancelled) : Ends e (.error f) q := by
  rcases hr.carries with ⟨rfl, -⟩ | ⟨x, hx, hexchanges, hvisited, hpolls⟩
  · exact .asked (.inl h) fun n hn => eq_of_pollTimeout hf hn
  · exact .unconfirmed (h.add hx hexchanges hvisited hpolls) hi hf hc

theorem Stands.move {a b : Stage × Progress} (h : Stands e a) (hm : Move e peer a b) : Stands e b := by
  -- what decides about cancelling and the budget hands nothing over, and round trips fail otherwise
  cases hm with
  | cancel => exact .silent h (by decide)
  | unprepared _ hmessage =>
    exact .silent h ((Request.certReqMsg_failsWithin _ _ _).kind_ne hmessage (by decide))
  | ask _ _ hr => exact Silent.stands_ask h hr
  | misplaced => exact .asked (.inl h) fun n hn => eq_of_pollTimeout (by simp) hn
  | exhausted => exact .asked (.inr (Talk.await h)) fun n hn => (Failure.pollTimeout.inj hn).symm
  | late => exact .asked (.inr (Talk.await h)) fun n hn => (Failure.pollTimeout.inj hn).symm
  | interrupted =>
    exact .asked (.inr ((Talk.await h).atClock _)) fun n hn => eq_of_pollTimeout (by decide) hn
  | wait hlt => exact ⟨(Talk.await h).atClock _, hlt⟩
  | poll hr => exact h.1.stands_poll h.2 hr
  | unarranged hbuild =>
    refine .asked (.inl h) fun n hn => eq_of_pollTimeout ?_ hn
    exact (buildModel_failsWithin _ _).kind_ne hbuild (by decide)
  | finish _ hi => exact .granted h hi
  | arrange _ hi => exact ⟨h, hi⟩
  | confirm hr =>
    rcases hr.carries with ⟨-, f, hf⟩ | ⟨x, hx, hexchanges, hvisited, hpolls⟩
    · cases hf
    · exact .confirmed (h.1.add hx hexchanges hvisited hpolls) h.2
  | unacknowledged _ hr => exact h.1.ends_confirm h.2 hr (by decide) (by decide)
  | unconfirmed hr => exact h.1.ends_confirm h.2 hr hr.kind_ne.1 hr.kind_ne.2

theorem stands_of_path {a : Stage × Progress}
    (h : ReflTransGen (Move e peer) (.preparing, e.start) a) : Stands e a := by
  induction h with
  | refl => exact ⟨rfl, rfl, rfl⟩
  | tail _ hm ih => exact ih.move hm

/-- What is said in a run and which states are entered: `confirmations` come after the polls. -/
structure Conversation (e : Enrollment) (result : Except Failure Model) (p : Progress)
    (bodies confirmations : List Body) : Prop where
  carried : List.Forall₂ Exchange.Carries p.exchanges bodies
  order : bodies = [] ∧ confirmations = [] ∧ p.session.polls = 0 ∨
    ∃ m, bodies = e.kind.body [m] :: (List.replicate p.session.polls e.pollBody ++ confirmations)
  polls_le : p.session.polls ≤ e.polling.maxPolls
  confirmed : confirmations = [] ∨
    e.descriptor.implicitConfirm = false ∧ ∃ m, confirmations = [e.confirmBody m]
  granted : ∀ m, result = .ok m → bodies ≠ [] ∧
    confirmations = if e.descriptor.implicitConfirm then [] else [e.confirmBody m]
  cancelled : result = .error .cancelled → confirmations = []
  timedOut : ∀ n, result = .error (.pollTimeout n) → confirmations = [] ∧ n = p.session.polls
  states : ∃ before k, p.visited = before ++ [lastState result] ∧ before <+: e.course k
  state : p.session.state = lastState result

theorem polls_lastState (result : Except Failure Model) (p : Progress) :
    (p.enter (lastState result)).session.polls = p.session.polls := by
  cases result <;> rfl

theorem Talk.conversation {result : Except Failure Model} (h : Talk e p more states)
    (hconfirmed : more = [] ∨ e.descriptor.implicitConfirm = false ∧ ∃ m, more = [e.confirmBody m])
    (hok : ∀ m, result = .ok m →
      more = if e.descriptor.implicitConfirm then [] else [e.confirmBody m])
    (hcancelled : result = .error .cancelled → more = [])
    (htimedOut : ∀ n, result = .error (.pollTimeout n) → more = [] ∧ n = p.session.polls)
    (hstates : ∃ k, [.building, .sent] ++ rounds p.session.polls ++ states <+: e.course k) :
    ∃ bodies confirmations,
      Conversation e result (p.enter (lastState result)) bodies confirmations := by
  obtain ⟨m, hcarried⟩ := h.carried
  obtain ⟨k, hprefix⟩ := hstates
  have hpolls := polls_lastState result p
  exact ⟨_, more, {
    carried := hcarried
    order := .inr ⟨m, by rw [hpolls]⟩
    polls_le := by rw [hpolls]; exact h.polls_le
    confirmed := hconfirmed
    granted := fun m hm => ⟨by simp, hok m hm⟩
    cancelled := hcancelled
    timedOut := by rw [hpolls]; exact htimedOut
    states := ⟨p.visited, k, rfl, by rw [h.visited]; exact hprefix⟩
    state := rfl }⟩

theorem Silent.conversation {f : Failure} (h : Silent p) (hf : f.kind ≠ .pollTimeout) :
    Conversation e (.error f) (p.enter .failed) [] [] where
  carried := by
    change List.Forall₂ _ p.exchanges []
    rw [h.exchanges]
    exact .nil
  order := .inl ⟨rfl, rfl, h.polls⟩
  polls_le := h.polls_le _
  confirmed := .inl rfl
  granted m hm := by cases hm
  cancelled _ := rfl
  timedOut n hn := by
    cases hn
    exact absurd rfl hf
  states := ⟨[.building], 0, by rw [← h.visited]; rfl, by simp [course]⟩
  state := rfl

theorem rounds_prefix_course (e : Enrollment) (k : Nat) :
    [.building, .sent] ++ rounds k ++ [] <+: e.course k := by
  rw [List.append_nil]
  exact List.prefix_append _ _

theorem awaiting_prefix_course (e : Enrollment) (k : Nat) :
    [.building, .sent] ++ rounds k ++ [.awaitingPollDecision] <+: e.course (k + 1) := by
  rw [course, rounds_succ]
  refine ⟨.polling :: if e.descriptor.implicitConfirm then [] else [.confirming], ?_⟩
  simp

theorem Ends.conversation {result : Except Failure Model} (h : Ends e result p) :
    ∃ bodies confirmations,
      Conversation e result (p.enter (lastState result)) bodies confirmations := by
  cases h with
  | silent h hf => exact ⟨[], [], h.conversation hf⟩
  | @asked _ f h hf =>
    have htimedOut (n : Nat) (hn : (.error f : Except Failure Model) = .error (.pollTimeout n)) :
        ([] : List Body) = [] ∧ n = p.session.polls := ⟨rfl, hf n (Except.error.inj hn)⟩
    rcases h with h | h
    · exact h.conversation (.inl rfl) (by simp) (fun _ => rfl) htimedOut ⟨_, rounds_prefix_course e _⟩
    · exact h.conversation (.inl rfl) (by simp) (fun _ => rfl) htimedOut ⟨_, awaiting_prefix_course e _⟩
  | unconfirmed h hi hf hc =>
    refine h.conversation (.inr ⟨hi, _, rfl⟩) (by simp) ?_ ?_ ⟨p.session.polls, by simp [course, hi]⟩
    · intro hf
      cases hf
      exact absurd rfl hc
    · intro n hn
      cases hn
      exact absurd rfl hf
  | granted h hi =>
    exact h.conversation (.inl rfl) (by simp [hi]) (by simp) (by simp) ⟨_, rounds_prefix_course e _⟩
  | confirmed h hi =>
    refine h.conversation (.inr ⟨hi, _, rfl⟩) ?_ (by simp) (by simp)
      ⟨p.session.polls, by simp [course, hi]⟩
    intro m hn
    cases hn
    simp [hi]

theorem Stands.polls_le {a : Stage × Progress} (h : Stands e a) :
    a.2.session.polls ≤ e.polling.maxPolls := by
  obtain ⟨stage, p⟩ := a
  cases stage with
  | preparing => exact Silent.polls_le h _
  | judged => exact Talk.polls_le h
  | due => exact h.1.polls_le
  | arranged => exact h.1.polls_le
  | ended =>
    cases h with
    | silent h => exact h.polls_le _
    | asked h => exact h.elim Talk.polls_le Talk.polls_le
    | unconfirmed h => exact h.polls_le
    | granted h => exact h.polls_le
    | confirmed h => exact h.polls_le

end Enrollment

end PkiEnroll.Enroll
