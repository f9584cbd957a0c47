import Mathlib.Logic.Relation
import PkiEnroll.Proofs.Enroll.RoundTrip

namespace PkiEnroll.Enroll

open Der X509 Cmp Protection

/-- What an enrollment is about to do. `started` is the time at which waits begin to count. -/
inductive Stage where
  | preparing
  /-- The answer to the request, or to a poll, is judged. -/
  | judged (started : Nat) (verdict : Verdict)
  /-- The wait before a poll is over. -/
  | due (started : Nat)
  /-- The certificates are arranged and have to be confirmed. -/
  | arranged (model : Model)
  | ended (result : Except Failure Model)

namespace Stage

def after (started : Nat) : Except Failure Verdict → Stage
  | .ok verdict => judged started verdict
  | .error f => ended (.error f)

end Stage

namespace Enrollment

def start (e : Enrollment) : Progress := { session := e.session, visited := [.building] }

def pause (e : Enrollment) (checkAfter : Option Int64) : Nat :=
  e.polling.waitFor ((checkAfter.map Int64.toInt).getD 0)

/-- Whether a wait would go on beyond the deadline. -/
def isLate (e : Enrollment) (started : Nat) (p : Progress) (checkAfter : Option Int64) : Bool :=
  e.polling.deadline.any (· < p.clock - started + e.pause checkAfter)

/-- Where the clock stands when the caller cancels during a wait. -/
def cancelClock (e : Enrollment) (p : Progress) : Nat :=
  if p.cancelled then p.clock else max p.clock (e.cancelAt.getD 0)

abbrev requestMessage (e : Enrollment) : Except Failure CertReqMsg :=
  e.request.certReqMsg e.draws.certReqId e.descriptor.issuerDn

def pollBody (e : Enrollment) : Body := .pollRequest [⟨e.draws.certReqId⟩]

def confirmBody (e : Enrollment) (m : Model) : Body :=
  .certConfirm [certStatus e.draws.certReqId m.certificate]

/-- One move. The guards of the moves from one stage exclude each other. -/
inductive Move (e : Enrollment) (peer : Peer) : Stage × Progress → Stage × Progress → Prop
  | cancel {p : Progress} (h : e.isCancelled p p.clock = true) :
      Move e peer (.preparing, p) (.ended (.error .cancelled), p)
  | unprepared {p : Progress} {f : Failure} (h : e.isCancelled p p.clock = false)
      (hm : e.requestMessage = .error f) :
      Move e peer (.preparing, p) (.ended (.error f), p)
  | ask {p q : Progress} {m : CertReqMsg} {result : Except Failure Verdict}
      (h : e.isCancelled p p.clock = false) (hm : e.requestMessage = .ok m)
      (hr : RoundTrip e peer .sent (e.kind.body [m]) p result q) :
      Move e peer (.preparing, p) (.after q.clock result, q)
  | misplaced {p : Progress} {started : Nat} :
      Move e peer (.judged started .confirmed, p)
        (.ended (.error (.decode "unexpected pkiconf body in response to certificate request")), p)
  | exhausted {p : Progress} {started : Nat} {checkAfter : Option Int64}
      (h : e.polling.maxPolls ≤ p.session.polls) :
      Move e peer (.judged started (.waiting checkAfter), p)
        (.ended (.error (.pollTimeout p.session.polls)), p.enter .awaitingPollDecision)
  | late {p : Progress} {started : Nat} {checkAfter : Option Int64}
      (h : p.session.polls < e.polling.maxPolls) (hl : e.isLate started p checkAfter = true) :
      Move e peer (.judged started (.waiting checkAfter), p)
        (.ended (.error (.pollTimeout p.session.polls)), p.enter .awaitingPollDecision)
  | interrupted {p : Progress} {started : Nat} {checkAfter : Option Int64}
      (h : p.session.polls < e.polling.maxPolls) (hl : e.isLate started p checkAfter = false)
      (hc : e.isCancelled p (p.clock + e.pause checkAfter) = true) :
      Move e peer (.judged started (.waiting checkAfter), p)
        (.ended (.error .cancelled), { p.enter .awaitingPollDecision with clock := e.cancelClock p })
  | wait {p : Progress} {started : Nat} {checkAfter : Option Int64}
      (h : p.session.polls < e.polling.maxPolls) (hl : e.isLate started p checkAfter = false)
      (hc : e.isCancelled p (p.clock + e.pause checkAfter) = false) :
      Move e peer (.judged started (.waiting checkAfter), p)
        (.due started, { p.enter .awaitingPollDecision with clock := p.clock + e.pause checkAfter })
  | poll {p q : Progress} {started : Nat} {result : Except Failure Verdict}
      (hr : RoundTrip e peer .polling e.pollBody p result q) :
      Move e peer (.due started, p) (.after started result, q)
  | unarranged {p : Progress} {started : Nat} {c : Certificate} {cas : List Certificate}
      {granted : Bool} {f : Failure} (h : buildModel c cas = .error f) :
      Move e peer (.judged started (.issued c cas granted), p) (.ended (.error f), p)
  | finish {p : Progress} {started : Nat} {c : Certificate} {cas : List Certificate}
      {granted : Bool} {m : Model} (h : buildModel c cas = .ok m)
      (hi : e.descriptor.implicitConfirm = true) :
      Move e peer (.judged started (.issued c cas granted), p) (.ended (.ok m), p)
  | arrange {p : Progress} {started : Nat} {c : Certificate} {cas : List Certificate}
      {granted : Bool} {m : Model} (h : buildModel c cas = .ok m)
      (hi : e.descriptor.implicitConfirm = false) :
      Move e peer (.judged started (.issued c cas granted), p) (.arranged m, p)
  | confirm {p q : Progress} {m : Model}
      (hr : RoundTrip e peer .confirming (e.confirmBody m) p (.ok .confirmed) q) :
      Move e peer (.arranged m, p) (.ended (.ok m), q)
  | unacknowledged {p q : Progress} {m : Model} {verdict : Verdict} (hv : verdict ≠ .confirmed)
      (hr : RoundTrip e peer .confirming (e.confirmBody m) p (.ok verdict) q) :
      Move e peer (.arranged m, p)
        (.ended (.error (.decode "certConf was not acknowledged with pkiconf")), q)
  | unconfirmed {p q : Progress} {m : Model} {f : Failure}
      (hr : RoundTrip e peer .confirming (e.confirmBody m) p (.error f) q) :
      Move e peer (.arranged m, p) (.ended (.error f), q)

theorem Move.continues {peer : Peer} {e : Enrollment} {a b : Stage × Progress} (h : Move e peer a b) :
    a.2.session.Continues b.2.session := by
  cases h with
  | ask _ _ hr => exact hr.continues
  | poll hr => exact hr.continues
  | confirm hr => exact hr.continues
  | unacknowledged _ hr => exact hr.continues
  | unconfirmed hr => exact hr.continues
  | _ => rfl

open Relation (ReflTransGen)

variable {e : Enrollment} {peer : Peer} {p q : Progress}

theorem polls_of_accepted {state : State} {body : Body} {verdict : Verdict}
    (h : RoundTrip e peer state body p (.ok verdict) q) :
    q.session.polls = (p.session.enter state).polls := by
  cases h with
  | accepted => rfl

theorem run_enter (next : State) : (Step.enter next).run p = (.ok (), p.enter next) :=
  Step.run_modify _

theorem run_wait (started : Nat) (checkAfter : Option Int64) (p : Progress) :
    (e.wait started checkAfter).run p =
      if e.isLate started p checkAfter then (.error (.pollTimeout p.session.polls), p)
      else if e.isCancelled p (p.clock + e.pause checkAfter) then
        (.error .cancelled, { p with clock := e.cancelClock p })
      else (.ok (), { p with clock := p.clock + e.pause checkAfter }) := by
  rw [wait, Step.run_bind_ok Step.run_get]
  unfold isLate pause
  dsimp only
  split
  · exact Step.run_bind_error (Step.run_throw _)
  · split
    · rw [Step.run_bind_ok (Step.run_set _)]
      exact Step.run_bind_error (Step.run_throw _)
    · exact Step.run_set _

/-- Polling follows the machine: either it comes to a certificate, or the run ends. The polls still
allowed and those sent make up the budget. -/
theorem awaitCertificate_path (e : Enrollment) (peer : Peer) (started polls : Nat) (verdict : Verdict)
    (p : Progress) (hpolls : polls + p.session.polls = e.polling.maxPolls) :
    (∃ f q, (e.awaitCertificate peer started polls verdict).run p = (.error f, q) ∧
      ReflTransGen (Move e peer) (.judged started verdict, p) (.ended (.error f), q)) ∨
    ∃ c cas granted q, (e.awaitCertificate peer started polls verdict).run p = (.ok (c, cas), q) ∧
      ReflTransGen (Move e peer) (.judged started verdict, p)
        (.judged started (.issued c cas granted), q) := by
  -- polls left and polls sent add up to the budget, so none is left exactly when it is used up
  induction polls generalizing verdict p with
  | zero =>
    cases verdict with
    | issued c cas granted =>
      exact .inr ⟨c, cas, granted, p, by rw [awaitCertificate, Step.run_pure], .refl⟩
    | confirmed =>
      exact .inl ⟨_, p, by rw [awaitCertificate, Step.run_throw], .single .misplaced⟩
    | waiting checkAfter =>
      refine .inl ⟨_, p.enter .awaitingPollDecision, ?_, .single (.exhausted (by omega))⟩
      rw [awaitCertificate, Step.run_bind_ok (run_enter _), Step.run_bind_ok Step.run_get]
      rfl
  | succ polls ih =>
    cases verdict with
    | issued c cas granted =>
      exact .inr ⟨c, cas, granted, p, by rw [awaitCertificate, Step.run_pure], .refl⟩
    | confirmed =>
      exact .inl ⟨_, p, by rw [awaitCertificate, Step.run_throw], .single .misplaced⟩
    | waiting checkAfter =>
      have hbudget : p.session.polls < e.polling.maxPolls := by omega
      rw [awaitCertificate, Step.run_bind_ok (run_enter _)]
      cases hl : e.isLate started p checkAfter with
      | true =>
        have hwait : (e.wait started checkAfter).run (p.enter .awaitingPollDecision) = _ :=
          (run_wait _ _ _).trans (if_pos hl)
        rw [Step.run_bind_error hwait]
        exact .inl ⟨_, _, rfl, .single (.late hbudget hl)⟩
      | false =>
        have hwait : (e.wait started checkAfter).run (p.enter .awaitingPollDecision) = _ :=
          (run_wait _ _ _).trans (if_neg (Bool.eq_false_iff.1 hl))
        cases hc : e.isCancelled p (p.clock + e.pause checkAfter) with
        | true =>
          rw [Step.run_bind_error (hwait.trans (if_pos hc))]
          exact .inl ⟨_, _, rfl, .single (.interrupted hbudget hl hc)⟩
        | false =>
          rw [Step.run_bind_ok (hwait.trans (if_neg (Bool.eq_false_iff.1 hc)))]
          obtain ⟨result, q, hrun, htrip⟩ := roundTrip_run e peer .polling e.pollBody
            { p.enter .awaitingPollDecision with clock := p.clock + e.pause checkAfter }
          have hmove : Move e peer (.due started, _) (.after started result, q) := .poll htrip
          have hpath := (ReflTransGen.single (Move.wait hbudget hl hc)).tail hmove
          cases result with
          | error f => exact .inl ⟨f, q, Step.run_bind_error hrun, hpath⟩
          | ok verdict =>
            have hq : q.session.polls = p.session.polls + 1 := polls_of_accepted htrip
            have hgo := Step.run_bind_ok (f := e.awaitCertificate peer started polls) hrun
            rcases ih verdict q (by omega) with ⟨f, q', hq', hrest⟩ | ⟨c, cas, granted, q', hq', hrest⟩
            · exact .inl ⟨f, q', hgo.trans hq', hpath.trans hrest⟩
            · exact .inr ⟨c, cas, granted, q', hgo.trans hq', hpath.trans hrest⟩

theorem confirm_path (m : Model) (p : Progress) :
    (∃ f q, (e.confirm peer m.certificate).run p = (.error f, q) ∧
      Move e peer (.arranged m, p) (.ended (.error f), q)) ∨
    ∃ q, (e.confirm peer m.certificate).run p = (.ok (), q) ∧
      Move e peer (.arranged m, p) (.ended (.ok m), q) := by
  obtain ⟨result, q, hrun, htrip⟩ := roundTrip_run e peer .confirming (e.confirmBody m) p
  cases result with
  | error f => exact .inl ⟨f, q, Step.run_bind_error hrun, .unconfirmed htrip⟩
  | ok verdict =>
    cases verdict with
    | confirmed => exact .inr ⟨q, Step.run_bind_ok hrun, .confirm htrip⟩
    | issued c cas granted =>
      exact .inl ⟨_, q, Step.run_bind_ok hrun, .unacknowledged (by simp) htrip⟩
    | waiting checkAfter =>
      exact .inl ⟨_, q, Step.run_bind_ok hrun, .unacknowledged (by simp) htrip⟩

theorem conclude_path (started : Nat) (c : Certificate) (cas : List Certificate) (granted : Bool)
    (p : Progress) :
    ∃ result q, (do
        let model ← ofExcept (buildModel c cas)
        if !e.descriptor.implicitConfirm then e.confirm peer model.certificate
        return model : Step Model).run p = (result, q) ∧
      ReflTransGen (Move e peer) (.judged started (.issued c cas granted), p) (.ended result, q) := by
  cases hm : buildModel c cas with
  | error f =>
    exact ⟨_, p, Step.run_bind_error (Step.run_ofExcept _), .single (.unarranged hm)⟩
  | ok model =>
    cases hi : e.descriptor.implicitConfirm with
    | true => exact ⟨_, p, rfl, .single (.finish hm hi)⟩
    | false =>
      rw [Step.run_bind_ok (Step.run_ofExcept _)]
      rcases confirm_path model p with ⟨f, q, hrun, hmove⟩ | ⟨q, hrun, hmove⟩
      · exact ⟨_, q, Step.run_bind_error hrun, .head (.arrange hm hi) (.single hmove)⟩
      · exact ⟨_, q, Step.run_bind_ok hrun, .head (.arrange hm hi) (.single hmove)⟩

theorem steps_path (e : Enrollment) (peer : Peer) :
    ∃ result q, (e.steps peer).run e.start = (result, q) ∧
      ReflTransGen (Move e peer) (.preparing, e.start) (.ended result, q) := by
  rw [steps, Step.run_bind_ok Step.run_get]
  cases hc : e.isCancelled e.start e.start.clock with
  | true => exact ⟨_, _, rfl, .single (.cancel hc)⟩
  | false =>
    simp only [Bool.false_eq_true, if_false]
    cases hm : e.request.certReqMsg e.draws.certReqId e.descriptor.issuerDn with
    | error f =>
      exact ⟨_, _, Step.run_bind_error (Step.run_ofExcept _), .single (.unprepared hc hm)⟩
    | ok m =>
      rw [Step.run_bind_ok (Step.run_ofExcept _)]
      obtain ⟨result, q, hrun, htrip⟩ := roundTrip_run e peer .sent (e.kind.body [m]) e.start
      have hask : Move e peer (.preparing, e.start) (.after q.clock result, q) := .ask hc hm htrip
      cases result with
      | error f => exact ⟨_, q, Step.run_bind_error hrun, .single hask⟩
      | ok verdict =>
        rw [Step.run_bind_ok hrun, Step.run_bind_ok Step.run_get]
        have hpolls : q.session.polls = 0 := polls_of_accepted htrip
        have hbudget : e.polling.maxPolls + q.session.polls = e.polling.maxPolls := by omega
        rcases awaitCertificate_path e peer q.clock _ verdict q hbudget with
          ⟨f, q', hend, hpath⟩ | ⟨c, cas, granted, q', hissued, hpath⟩
        · exact ⟨_, q', Step.run_bind_error hend, .head hask hpath⟩
        · rw [Step.run_bind_ok hissued]
          obtain ⟨result, q'', hend, hrest⟩ := conclude_path q.clock c cas granted q'
          exact ⟨result, q'', hend, .head hask (hpath.trans hrest)⟩

def lastState : Except Failure Model → State
  | .ok _ => .done
  | .error _ => .failed

theorem run_of_steps {result : Except Failure Model} (h : (e.steps peer).run e.start = (result, q)) :
    e.run peer = (result, q.enter (lastState result)) := by
  rw [start] at h
  rw [run, h]
  cases result <;> rfl

/-- Every run is a path of the machine, after which the last state is entered. -/
theorem run_path (e : Enrollment) (peer : Peer) :
    ∃ q, (e.run peer).2 = q.enter (lastState (e.run peer).1) ∧
      ReflTransGen (Move e peer) (.preparing, e.start) (.ended (e.run peer).1, q) := by
  obtain ⟨result, q, hrun, hpath⟩ := steps_path e peer
  rw [run_of_steps hrun]
  exact ⟨q, rfl, hpath⟩

end Enrollment

end PkiEnroll.Enroll
