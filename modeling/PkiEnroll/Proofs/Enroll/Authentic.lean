import PkiEnroll.Proofs.Enroll.Machine
import PkiEnroll.Proofs.Enroll.Verdict

namespace PkiEnroll.Enroll

open Der X509 Cmp Protection
open Relation (ReflTransGen)

/-- Whether an exchange brought an authentic answer. -/
def Exchange.Answers (x : Exchange) (s : Session) (m : Message) : Prop :=
  ∃ raw, x.answer = .ok raw ∧ Authentic s raw m

theorem Authentic.of_continues {s t : Session} {raw : Bytes} {m : Message} (h : s.Continues t)
    (ha : Authentic t raw m) : Authentic s raw m := by
  rw [h] at ha
  exact ⟨ha.decoded, ha.transactionId, ha.recipNonce, ha.noError, ha.protection⟩

theorem Authentic.to_continues {s t : Session} {raw : Bytes} {m : Message} (h : s.Continues t)
    (ha : Authentic s raw m) : Authentic t raw m := by
  rw [h]
  exact ⟨ha.decoded, ha.transactionId, ha.recipNonce, ha.noError, ha.protection⟩

theorem Exchange.Answers.of_continues {x : Exchange} {s t : Session} {m : Message}
    (h : s.Continues t) (hx : x.Answers t m) : x.Answers s m := by
  obtain ⟨raw, ha, hauthentic⟩ := hx
  exact ⟨raw, ha, hauthentic.of_continues h⟩

theorem certificate_of_buildModel {c : Certificate} {cas : List Certificate} {m : Model}
    (h : buildModel c cas = .ok m) : m.certificate = c := by
  obtain ⟨⟨intermediates, trusted⟩, -, h⟩ := bind_eq_ok_iff.1 h
  cases h
  rfl

namespace Stage

def certificate? : Stage → Option Certificate
  | judged _ (.issued c _ _) => some c
  | arranged m | ended (.ok m) => some m.certificate
  | _ => none

@[simp] theorem certificate?_issued (started : Nat) (c : Certificate) (cas : List Certificate)
    (confirmed : Bool) : (judged started (.issued c cas confirmed)).certificate? = some c := rfl

@[simp] theorem certificate?_due (started : Nat) : (due started).certificate? = none := rfl

@[simp] theorem certificate?_arranged (m : Model) : (arranged m).certificate? = some m.certificate := rfl

@[simp] theorem certificate?_ended_ok (m : Model) :
    (ended (.ok m)).certificate? = some m.certificate := rfl

@[simp] theorem certificate?_ended_error (f : Failure) : (ended (.error f)).certificate? = none := rfl

def hasFailed : Stage → Bool
  | ended (.error _) => true
  | _ => false

end Stage

namespace Enrollment

variable {e : Enrollment} {peer : Peer} {p q : Progress} {stage next : Stage}

/-- Whether the last certificate response of a conversation grants a certificate. -/
def LastGrants (e : Enrollment) (xs : List Exchange) (c : Certificate) : Prop :=
  ∃ before x after m rep, xs = before ++ x :: after ∧ x.Answers e.session m ∧
    m.body.tagNumber = e.kind.responseTag ∧ Grants m e.draws.certReqId rep c ∧
    ∀ y ∈ after, ∃ m', y.Answers e.session m' ∧ m'.body.certRep? = none

theorem LastGrants.append {xs : List Exchange} {c : Certificate} {y : Exchange} {m : Message}
    (h : LastGrants e xs c) (hy : y.Answers e.session m) (hm : m.body.certRep? = none) :
    LastGrants e (xs ++ [y]) c := by
  obtain ⟨before, x, after, m', rep, rfl, hx, htag, hgrants, hafter⟩ := h
  refine ⟨before, x, after ++ [y], m', rep, by simp, hx, htag, hgrants, ?_⟩
  intro z hz
  rcases List.mem_append.1 hz with hz | hz
  · exact hafter z hz
  · rw [List.mem_singleton.1 hz]
    exact ⟨m, hy, hm⟩

/-- What holds of the answers wherever an enrollment is: only the last of a failed run may be doubtful,
and the certificate is granted. -/
structure Sound (e : Enrollment) (a : Stage × Progress) : Prop where
  continues : e.session.Continues a.2.session
  earlier : ∀ x ∈ a.2.exchanges.dropLast, ∃ m, x.Answers e.session m
  all : a.1.hasFailed = false → ∀ x ∈ a.2.exchanges, ∃ m, x.Answers e.session m
  granted : ∀ c, a.1.certificate? = some c → LastGrants e a.2.exchanges c

theorem sound_start (e : Enrollment) : Sound e (.preparing, e.start) where
  continues := .refl _
  earlier x hx := by cases hx
  all _ x hx := by cases hx
  granted c hc := by cases hc

theorem Sound.idle (h : Sound e (stage, p)) (hc : p.session.Continues q.session)
    (hx : q.exchanges = p.exchanges) (hstage : next.hasFailed = true ∨ stage.hasFailed = false)
    (hnext : ∀ c, next.certificate? = some c → stage.certificate? = some c) : Sound e (next, q) where
  continues := h.continues.trans hc
  earlier x hmem := h.earlier x (by rwa [hx] at hmem)
  all hnot x hmem := by
    rcases hstage with hfailed | hstage
    · rw [hfailed] at hnot
      cases hnot
    · exact h.all hstage x (by rwa [hx] at hmem)
  granted c hcert := by
    have hlast := h.granted c (hnext c hcert)
    rwa [hx]

/-- After a round trip that fails, only its own answer may be doubtful. -/
theorem Sound.fail {state : State} {body : Body} {f : Failure} {result : Except Failure Verdict}
    (h : Sound e (stage, p)) (hstage : stage.hasFailed = false)
    (hr : RoundTrip e peer state body p result q) : Sound e (.ended (.error f), q) where
  continues := h.continues.trans hr.continues
  earlier x hx := by
    rcases hr.sends with ⟨rfl, -⟩ | ⟨y, m, hexchanges, -⟩
    · exact h.earlier x hx
    · rw [hexchanges, List.dropLast_concat] at hx
      exact h.all hstage x hx
  all hnot := by cases hnot
  granted c hc := by cases hc

theorem RoundTrip.authentic {state : State} {body : Body} {verdict : Verdict}
    (hr : RoundTrip e peer state body p (.ok verdict) q) :
    ∃ x m, q.exchanges = p.exchanges ++ [x] ∧ x.Answers p.session m ∧
      (p.session.enter state).verdictOfBody m e.kind.responseTag = .ok verdict := by
  cases hr with
  | accepted hm hrequest ha hd hv =>
    have hauthentic := Session.authentic_of_verify hd hv
    have hanswers := hauthentic.of_continues (Session.continues_enter _ _)
    exact ⟨_, _, rfl, ⟨_, ha, hanswers⟩, (Session.verify_eq_ok_iff.1 hv).2.2.2⟩

theorem RoundTrip.issued {state : State} {body : Body} {c : Certificate} {cas : List Certificate}
    {granted : Bool} (hs : e.session.Continues p.session)
    (hr : RoundTrip e peer state body p (.ok (.issued c cas granted)) q) :
    ∃ x m rep, q.exchanges = p.exchanges ++ [x] ∧ x.Answers e.session m ∧
      m.body.tagNumber = e.kind.responseTag ∧ Grants m e.draws.certReqId rep c ∧
      cas = distinct (rep.caPubs.getD [] ++ m.extraCertList) := by
  obtain ⟨x, m, hexchanges, hanswers, hverdict⟩ := hr.authentic
  have hid : p.session.certReqId = e.draws.certReqId := by rw [hs]; rfl
  rcases Session.verdictOfBody_cases hverdict with ⟨hv, -⟩ | ⟨_, hv⟩ | ⟨rep, c', hgrants, htag, hv⟩
  · cases hv
  · cases hv
  · cases hv
    have hgrants : Grants m e.draws.certReqId rep c := by
      rw [← hid]
      exact hgrants
    exact ⟨x, m, rep, hexchanges, hanswers.of_continues hs, htag, hgrants, rfl⟩

theorem RoundTrip.confirmed {state : State} {body : Body}
    (hr : RoundTrip e peer state body p (.ok .confirmed) q) :
    ∃ x m, q.exchanges = p.exchanges ++ [x] ∧ x.Answers p.session m ∧ m.body = .confirmation := by
  obtain ⟨x, m, hexchanges, hanswers, hverdict⟩ := hr.authentic
  refine ⟨x, m, hexchanges, hanswers, ?_⟩
  rcases Session.verdictOfBody_cases hverdict with ⟨-, hbody⟩ | ⟨_, hv⟩ | ⟨_, _, _, _, hv⟩
  · exact hbody
  · cases hv
  · cases hv

theorem Sound.all_accept {state : State} {body : Body} {verdict : Verdict}
    (h : Sound e (stage, p)) (hstage : stage.hasFailed = false)
    (hr : RoundTrip e peer state body p (.ok verdict) q) :
    ∀ x ∈ q.exchanges, ∃ m, x.Answers e.session m := by
  obtain ⟨y, m, hexchanges, hanswers, -⟩ := hr.authentic
  rw [hexchanges]
  intro x hx
  rcases List.mem_append.1 hx with hx | hx
  · exact h.all hstage x hx
  · rw [List.mem_singleton.1 hx]
    exact ⟨m, hanswers.of_continues h.continues⟩

/-- After the answer to a request or a poll, a certificate is one that this answer grants. -/
theorem Sound.judge {state : State} {body : Body} {started : Nat} {result : Except Failure Verdict}
    (h : Sound e (stage, p)) (hstage : stage.hasFailed = false)
    (hr : RoundTrip e peer state body p result q) : Sound e (.after started result, q) := by
  cases result with
  | error f => exact h.fail hstage hr
  | ok verdict =>
    have hall := h.all_accept hstage hr
    refine ⟨h.continues.trans hr.continues, fun x hx => hall x (List.dropLast_subset _ hx),
      fun _ => hall, ?_⟩
    intro c hc
    cases verdict with
    | confirmed => cases hc
    | waiting checkAfter => cases hc
    | issued c' cas granted =>
      cases hc
      -- the answer that has just come is the last certificate response
      obtain ⟨x, m, rep, hexchanges, hanswers, htag, hgrants, -⟩ := hr.issued h.continues
      exact ⟨p.exchanges, x, [], m, rep, hexchanges, hanswers, htag, hgrants, by simp⟩

theorem Sound.acknowledge {body : Body} {m : Model} (h : Sound e (.arranged m, p))
    (hr : RoundTrip e peer .confirming body p (.ok .confirmed) q) : Sound e (.ended (.ok m), q) := by
  have hall := h.all_accept rfl hr
  refine ⟨h.continues.trans hr.continues, fun x hx => hall x (List.dropLast_subset _ hx),
    fun _ => hall, ?_⟩
  intro c hc
  obtain ⟨x, m', hexchanges, hanswers, hbody⟩ := hr.confirmed
  have hlast := (h.granted c hc).append (hanswers.of_continues h.continues) (by rw [hbody]; rfl)
  rwa [← hexchanges] at hlast

theorem Sound.move {a b : Stage × Progress} (h : Sound e a) (hm : Move e peer a b) : Sound e b := by
  have hc := hm.continues
  -- only round trips touch the answers: the others keep them, and mostly end the run
  cases hm with
  | cancel => exact h.idle hc rfl (.inl rfl) (by simp)
  | unprepared => exact h.idle hc rfl (.inl rfl) (by simp)
  | ask _ _ hr => exact h.judge rfl hr
  | misplaced => exact h.idle hc rfl (.inl rfl) (by simp)
  | exhausted => exact h.idle hc rfl (.inl rfl) (by simp)
  | late => exact h.idle hc rfl (.inl rfl) (by simp)
  | interrupted => exact h.idle hc rfl (.inl rfl) (by simp)
  | wait => exact h.idle hc rfl (.inr rfl) (by simp)
  | poll hr => exact h.judge rfl hr
  | unarranged => exact h.idle hc rfl (.inl rfl) (by simp)
  | finish hbuild =>
    exact h.idle hc rfl (.inr rfl)
      (by simp [certificate_of_buildModel hbuild])
  | arrange hbuild =>
    exact h.idle hc rfl (.inr rfl)
      (by simp [certificate_of_buildModel hbuild])
  | confirm hr => exact h.acknowledge hr
  | unacknowledged _ hr => exact h.fail rfl hr
  | unconfirmed hr => exact h.fail rfl hr

theorem sound_of_path {a : Stage × Progress}
    (h : ReflTransGen (Move e peer) (.preparing, e.start) a) : Sound e a := by
  induction h with
  | refl => exact sound_start e
  | tail _ hm ih => exact ih.move hm

/-- Every answer that fails a check ends the run with a failure and nothing is sent after it; so a
certificate is returned only when all answers passed, and the last certificate response granted it. -/
theorem run_authentic (e : Enrollment) (peer : Peer) :
    (∀ before x after, (e.run peer).2.exchanges = before ++ x :: after →
      (¬∃ m, x.Answers e.session m) → after = [] ∧ ∃ f, (e.run peer).1 = .error f) ∧
    ∀ model, (e.run peer).1 = .ok model →
      (∀ x ∈ (e.run peer).2.exchanges, ∃ m, x.Answers e.session m) ∧
        ∃ c, model.chain.head? = some c ∧ LastGrants e (e.run peer).2.exchanges c := by
  obtain ⟨q, hend, hpath⟩ := run_path e peer
  have hsound := sound_of_path hpath
  have hexchanges : (e.run peer).2.exchanges = q.exchanges := by rw [hend]; rfl
  rw [hexchanges]
  constructor
  · intro before x after hx hdoubt
    have hlast : after = [] := by
      by_contra hafter
      refine hdoubt (hsound.earlier x ?_)
      rw [hx, List.dropLast_append_cons, List.dropLast_cons_of_ne_nil hafter]
      simp
    refine ⟨hlast, ?_⟩
    cases hresult : (e.run peer).1 with
    | error f => exact ⟨f, rfl⟩
    | ok model =>
      rw [hresult] at hsound
      exact absurd (hsound.all rfl x (by rw [hx]; simp)) hdoubt
  · intro model hresult
    rw [hresult] at hsound
    exact ⟨hsound.all rfl, model.certificate, rfl, hsound.granted _ rfl⟩

end Enrollment

end PkiEnroll.Enroll
