import PkiEnroll.Proofs.Enroll.Authentic
import PkiEnroll.Proofs.Enroll.Conversation
import PkiEnroll.Proofs.Enroll.ExtraCerts
import PkiEnroll.Proofs.Enroll.Outcome

namespace PkiEnroll.Enroll

open Der X509 Cmp Protection

namespace Polling

/-- The wait after an answer that is not ready. A CA names seconds, or leaves it to the client. -/
def wanted (p : Polling) : Option Int64 → Nat
  | none => p.interval
  | some seconds =>
    if seconds.toInt ≤ 0 then p.interval else min (p.resolution * seconds.toInt.toNat) p.maxInterval

/-- The waits before the polls. The first one follows the answer to the request. -/
def waits (p : Polling) (hints : List (Option Int64)) : List Nat := (none :: hints).map p.wanted

/-- Whether a client gives up after a number of polls, when one more wait would end at some time. -/
def Spent (p : Polling) (polls time : Nat) : Prop :=
  polls = p.maxPolls ∨ ∃ d, p.deadline = some d ∧ d < time

theorem wanted_le (p : Polling) (hint : Option Int64) :
    p.wanted hint ≤ max p.interval p.maxInterval := by
  cases hint with
  | none => exact Nat.le_max_left _ _
  | some seconds =>
    by_cases h : seconds.toInt ≤ 0
    · rw [wanted, if_pos h]
      exact Nat.le_max_left _ _
    · rw [wanted, if_neg h]
      exact Nat.le_trans (Nat.min_le_right _ _) (Nat.le_max_right _ _)

end Polling

namespace Enrollment

variable {e : Enrollment} {peer : Peer} {p q : Progress} {c : Certificate} {cas : List Certificate}
  {sent : List Bytes} {nonce : Option Bytes} {hint : Option Int64} {hints : List (Option Int64)}
  {m : Message}

theorem pause_eq_wanted (e : Enrollment) (hint : Option Int64) :
    e.pause hint = e.polling.wanted hint := by
  cases hint with
  | none => simp [pause, Polling.waitFor, Polling.wanted]
  | some seconds => rfl

/-- A message that says that the certificate is not ready, and may say when to ask again. -/
inductive NotReady (e : Enrollment) (m : Message) : Option Int64 → Prop
  | waiting {rep : CertRepMessage} {response : CertResponse}
      (tag : m.body.tagNumber = e.kind.responseTag) (answer : m.body.certRep? = some rep)
      (found : rep.responses.find? (·.certReqId = e.draws.certReqId) = some response)
      (status : response.status.status = .waiting) : NotReady e m none
  | later {entries : List PollRep} {entry : PollRep} (answer : m.body = .pollResponse entries)
      (found : entries.find? (·.certReqId = e.draws.certReqId) = some entry) :
      NotReady e m (some entry.checkAfter)

/-- A message that issues a certificate, with the CA's certificates. -/
structure Issues (e : Enrollment) (m : Message) (c : Certificate) (cas : List Certificate) : Prop where
  tag : m.body.tagNumber = e.kind.responseTag
  grants : ∃ rep, Grants m e.draws.certReqId rep c ∧
    cas = distinct (rep.caPubs.getD [] ++ m.extraCertList)

/-- The poll that is sent after some messages and the CA's last nonce. -/
def pollRequest (e : Enrollment) (sent : List Bytes) (nonce : Option Bytes) : Except Failure Bytes :=
  { e.session with recipNonce := nonce }.message (e.now.timeOf sent.length) e.pollBody >>= Message.encode

def nonceAfter (nonce : Option Bytes) (m : Message) : Option Bytes :=
  (m.header.senderNonce.map OctetString.bytes) <|> nonce

/-- A valid answer that takes no time. -/
def Replies (e : Enrollment) (peer : Peer) (sent : List Bytes) (m : Message) : Prop :=
  ∃ raw, peer sent = { answer := .ok raw } ∧ Authentic e.session raw m

/-- A CA that answers poll after poll that it is not ready, as often as there are hints, and then issues
a certificate. -/
inductive Defers (e : Enrollment) (peer : Peer) (c : Certificate) (cas : List Certificate) :
    List Bytes → Option Bytes → List (Option Int64) → Prop
  | issues {sent : List Bytes} {nonce : Option Bytes} {request : Bytes} {m : Message}
      (written : e.pollRequest sent nonce = .ok request) (replies : Replies e peer (sent ++ [request]) m)
      (issues : Issues e m c cas) : Defers e peer c cas sent nonce []
  | notReady {sent : List Bytes} {nonce : Option Bytes} {request : Bytes} {m : Message}
      {hint : Option Int64} {hints : List (Option Int64)} (written : e.pollRequest sent nonce = .ok request)
      (replies : Replies e peer (sent ++ [request]) m) (notReady : NotReady e m hint)
      (rest : Defers e peer c cas (sent ++ [request]) (nonceAfter nonce m) hints) :
      Defers e peer c cas sent nonce (hint :: hints)

/-- A CA that answers a request that the certificate is not ready, and then defers it. -/
def Postpones (e : Enrollment) (peer : Peer) (c : Certificate) (cas : List Certificate)
    (hints : List (Option Int64)) : Prop :=
  ∃ message request m, e.requestMessage = .ok message ∧
    e.session.message (e.now.timeOf 0) (e.kind.body [message]) >>= Message.encode = .ok request ∧
    Replies e peer [request] m ∧ NotReady e m none ∧
    Defers e peer c cas [request] (nonceAfter none m) hints

/-- How a run ends once a certificate has been issued. -/
inductive Concludes (e : Enrollment) (c : Certificate) (cas : List Certificate) :
    Except Failure Model → Prop
  | unarranged {f : Failure} (h : buildModel c cas = .error f) : Concludes e c cas (.error f)
  | enrolled {m : Model} (h : buildModel c cas = .ok m) : Concludes e c cas (.ok m)
  | unconfirmed {m : Model} {f : Failure} (h : buildModel c cas = .ok m)
      (hi : e.descriptor.implicitConfirm = false) (hf : f.kind ≠ .pollTimeout) :
      Concludes e c cas (.error f)

theorem verdictOfBody_of_issues {s : Session} (asked : s.state = .sent ∨ s.state = .polling)
    (hid : s.certReqId = e.draws.certReqId) (h : Issues e m c cas) :
    s.verdictOfBody m e.kind.responseTag = .ok (.issued c cas m.header.hasImplicitConfirm) := by
  obtain ⟨htag, rep, ⟨hrep, response, pair, hfind, hgranted, hpair, hissued⟩, rfl⟩ := h
  rw [← hid] at hfind
  have hwait : response.status.status ≠ .waiting := by
    intro hw
    simp [hw] at hgranted
  have hc : Session.certificateOf response.keyPair = .ok c :=
    Session.certificateOf_eq_ok_iff.2 ⟨pair, hpair, hissued⟩
  rw [Session.verdictOfBody_of_certRep? asked htag hrep, Session.verdictOfRep_of_find? hfind,
    if_neg hwait, if_pos (Session.isGranted_iff.2 hgranted), hc]
  rfl

theorem responseTag_ne_pollResponse (k : Kind) (entries : List PollRep) :
    ((Body.pollResponse entries).tagNumber : Nat) ≠ k.responseTag := by
  cases k with
  | initialization => exact Nat.ne_of_beq_eq_false rfl
  | certification => exact Nat.ne_of_beq_eq_false rfl
  | keyUpdate => exact Nat.ne_of_beq_eq_false rfl

theorem verdictOfBody_of_notReady {s : Session} (hstate : s.state = .polling)
    (hid : s.certReqId = e.draws.certReqId) (h : NotReady e m hint) :
    s.verdictOfBody m e.kind.responseTag = .ok (.waiting hint) := by
  cases h with
  | waiting htag hrep hfind hstatus =>
    rw [← hid] at hfind
    rw [Session.verdictOfBody_of_certRep? (.inr hstate) htag hrep, Session.verdictOfRep_of_find? hfind,
      if_pos hstatus]
  | later hbody hfind =>
    rw [← hid] at hfind
    have htag : ¬((s.state = .sent ∨ s.state = .polling) ∧
        (m.body.tagNumber : Nat) = e.kind.responseTag) := by
      rw [hbody]
      exact fun h => responseTag_ne_pollResponse _ _ h.2
    rw [Session.verdictOfBody, if_neg htag, hstate, hbody]
    simp only [Session.verdictOfPoll, hfind]
    rfl

end Enrollment

def Progress.answered (p : Progress) (state : State) (request raw : Bytes) (h : Header) : Progress :=
  { p with
    session := (p.session.enter state).record h
    visited := p.visited ++ [state]
    exchanges := p.exchanges ++ [⟨p.clock, request, .ok raw⟩] }

namespace Enrollment

variable {e : Enrollment} {peer : Peer} {p q : Progress} {c : Certificate} {cas : List Certificate}
  {sent : List Bytes} {nonce : Option Bytes} {hint : Option Int64} {hints : List (Option Int64)}
  {m : Message}

theorem roundTrip_answered {state : State} {body : Body} {request raw : Bytes} {verdict : Verdict}
    (hrequest : p.session.message (e.timeAt p) body >>= Message.encode = .ok request)
    (hreply : peer (p.exchanges.map Exchange.request ++ [request]) = { answer := .ok raw })
    (hd : Message.decode raw = .ok m)
    (hv : (p.session.enter state).verify m raw e.kind.responseTag = .ok verdict) :
    (e.roundTrip peer state body).run p = (.ok verdict, p.answered state request raw m.header) := by
  obtain ⟨written, hmessage, hencode⟩ := bind_eq_ok_iff.1 hrequest
  have hprogress :
      (p.send peer state request).record m.header = p.answered state request raw m.header := by
    simp [Progress.send, Progress.reply, Progress.record, Progress.enter, Progress.answered, hreply]
  have hsame {m' : Message} {request' : Bytes} (hm : p.session.message (e.timeAt p) body = .ok m')
      (hr : m'.encode = .ok request') : request' = request := by
    rw [hmessage] at hm
    cases hm
    exact Except.ok.inj (hr.symm.trans hencode)
  obtain ⟨result, q, hrun, htrip⟩ := roundTrip_run e peer state body p
  rw [hrun]
  cases htrip with
  | unsent h =>
    rw [hrequest] at h
    cases h
  | unanswered hm hr ha =>
    obtain rfl := hsame hm hr
    simp [Progress.reply, hreply] at ha
  | unread hm hr ha hd' =>
    obtain rfl := hsame hm hr
    simp only [Progress.reply, hreply, Except.ok.injEq] at ha
    rw [← ha, hd] at hd'
    cases hd'
  | rejected hm hr ha hd' hv' =>
    obtain rfl := hsame hm hr
    simp only [Progress.reply, hreply, Except.ok.injEq] at ha
    rw [← ha, hd] at hd'
    cases hd'
    rw [← ha, hv] at hv'
    cases hv'
  | accepted hm hr ha hd' hv' =>
    obtain rfl := hsame hm hr
    simp only [Progress.reply, hreply, Except.ok.injEq] at ha
    rw [← ha, hd] at hd'
    cases hd'
    rw [← ha, hv] at hv'
    cases hv'
    rw [hprogress]

/-- A moment of an enrollment that nobody cancels: what has been sent, and the CA's last nonce. -/
structure At (e : Enrollment) (p : Progress) (sent : List Bytes) (nonce : Option Bytes) : Prop where
  continues : e.session.Continues p.session
  nonce : p.session.recipNonce = nonce
  sent : p.exchanges.map Exchange.request = sent
  cancelled : p.cancelled = false

def due (e : Enrollment) (p : Progress) (hint : Option Int64) : Progress :=
  { p.enter .awaitingPollDecision with clock := p.clock + e.polling.wanted hint }

theorem isLate_iff : e.isLate 0 p hint = true ↔
    ∃ d, e.polling.deadline = some d ∧ d < p.clock + e.polling.wanted hint := by
  rw [isLate, pause_eq_wanted, Nat.sub_zero]
  cases e.polling.deadline <;> simp

theorem awaitCertificate_spent {polls : Nat} (hpolls : polls + p.session.polls = e.polling.maxPolls)
    (h : e.polling.Spent p.session.polls (p.clock + e.polling.wanted hint)) :
    (e.awaitCertificate peer 0 polls (.waiting hint)).run p =
      (.error (.pollTimeout p.session.polls), p.enter .awaitingPollDecision) := by
  cases polls with
  | zero =>
    rw [awaitCertificate, Step.run_bind_ok (run_enter _), Step.run_bind_ok Step.run_get]
    rfl
  | succ polls =>
    have hlate : e.isLate 0 p hint = true := by
      rcases h with hmax | hdeadline
      · omega
      · exact isLate_iff.2 hdeadline
    have hwait : (e.wait 0 hint).run (p.enter .awaitingPollDecision) = _ :=
      (run_wait _ _ _).trans (if_pos hlate)
    rw [awaitCertificate, Step.run_bind_ok (run_enter _), Step.run_bind_error hwait]
    rfl

theorem awaitCertificate_unspent {polls : Nat} (hcancel : e.cancelAt = none) (hc : p.cancelled = false)
    (h : ¬e.polling.Spent p.session.polls (p.clock + e.polling.wanted hint)) :
    (e.awaitCertificate peer 0 (polls + 1) (.waiting hint)).run p =
      (e.roundTrip peer .polling e.pollBody >>= e.awaitCertificate peer 0 polls).run (e.due p hint) := by
  have hlate : ¬e.isLate 0 p hint = true := fun hl => h (.inr (isLate_iff.1 hl))
  have hcancelled : ¬e.isCancelled p (p.clock + e.pause hint) = true := by
    simp [isCancelled, hc, hcancel]
  have hwait : (e.wait 0 hint).run (p.enter .awaitingPollDecision) = (.ok (), e.due p hint) := by
    rw [due, ← pause_eq_wanted]
    exact (run_wait _ _ _).trans ((if_neg hlate).trans (if_neg hcancelled))
  rw [awaitCertificate, Step.run_bind_ok (run_enter _), Step.run_bind_ok hwait]
  rfl

/-- A number of polls that have been sent, each after its wait, and none after a budget was spent. -/
structure Polled (e : Enrollment) (p q : Progress) (waits : List Nat) (k : Nat) : Prop where
  polls : q.session.polls = p.session.polls + k
  times : q.exchanges.map Exchange.time = p.exchanges.map Exchange.time ++
    (List.range k).map fun i => p.clock + (waits.take (i + 1)).sum
  unspent : ∀ i < k, ¬e.polling.Spent (p.session.polls + i) (p.clock + (waits.take (i + 1)).sum)

theorem Polled.none (waits : List Nat) (hpolls : q.session.polls = p.session.polls)
    (hexchanges : q.exchanges = p.exchanges) : Polled e p q waits 0 where
  polls := hpolls
  times := by simp [hexchanges]
  unspent i hi := absurd hi (Nat.not_lt_zero i)

theorem Polled.cons {waits : List Nat} {k : Nat} {request raw : Bytes} {h : Header}
    (hspent : ¬e.polling.Spent p.session.polls (p.clock + e.polling.wanted hint))
    (hrest : Polled e ((e.due p hint).answered .polling request raw h) q waits k) :
    Polled e p q (e.polling.wanted hint :: waits) (k + 1) where
  polls := by
    have hpolls := hrest.polls
    change q.session.polls = p.session.polls + 1 + k at hpolls
    omega
  times := by
    rw [hrest.times, List.range_succ_eq_map]
    simp [Progress.answered, due, Progress.enter, Function.comp_def, Nat.add_assoc]
  unspent i hi := by
    -- the rest counts its polls and its time from this poll on
    cases i with
    | zero => simpa using hspent
    | succ i =>
      have hunspent := hrest.unspent i (by omega)
      change ¬e.polling.Spent (p.session.polls + 1 + i) (p.clock + e.polling.wanted hint + _) at hunspent
      rw [Nat.add_assoc, Nat.add_assoc, Nat.add_comm 1 i] at hunspent
      simpa using hunspent

theorem At.message (h : At e p sent nonce) (hint : Option Int64) :
    (e.due p hint).session.message (e.timeAt (e.due p hint)) e.pollBody >>= Message.encode =
      e.pollRequest sent nonce := by
  have htime : e.timeAt (e.due p hint) = e.now.timeOf sent.length := by
    rw [← h.sent, List.length_map]
    rfl
  have hsession : (e.due p hint).session.message (e.now.timeOf sent.length) e.pollBody =
      { e.session with recipNonce := nonce }.message (e.now.timeOf sent.length) e.pollBody := by
    change (p.session.enter .awaitingPollDecision).message _ _ = _
    rw [h.continues, h.nonce]
    rfl
  rw [htime, hsession, pollRequest]

theorem At.answered {request raw : Bytes} (h : At e p sent nonce) (hint : Option Int64) :
    At e ((e.due p hint).answered .polling request raw m.header) (sent ++ [request])
      (nonceAfter nonce m) where
  continues := h.continues.trans rfl
  nonce := by
    change ((m.header.senderNonce.map OctetString.bytes) <|> p.session.recipNonce) = _
    rw [h.nonce]
    rfl
  sent := by
    change (p.exchanges ++ [_]).map Exchange.request = _
    rw [List.map_append, h.sent]
    rfl
  cancelled := h.cancelled

theorem At.poll {request : Bytes} {verdict : Verdict} (h : At e p sent nonce) (hint : Option Int64)
    (hwritten : e.pollRequest sent nonce = .ok request) (hreplies : Replies e peer (sent ++ [request]) m)
    (hv : ∀ s : Session, s.state = .polling → s.certReqId = e.draws.certReqId →
      s.verdictOfBody m e.kind.responseTag = .ok verdict) :
    ∃ raw, (e.roundTrip peer .polling e.pollBody).run (e.due p hint) =
      (.ok verdict, (e.due p hint).answered .polling request raw m.header) := by
  obtain ⟨raw, hpeer, hauthentic⟩ := hreplies
  have hcontinues : e.session.Continues ((e.due p hint).session.enter .polling) := h.continues.trans rfl
  have hid : ((e.due p hint).session.enter .polling).certReqId = e.draws.certReqId := by
    rw [hcontinues]
    rfl
  refine ⟨raw, roundTrip_answered ((h.message hint).trans hwritten) ?_ hauthentic.decoded ?_⟩
  · have hsent : (e.due p hint).exchanges.map Exchange.request = sent := h.sent
    rw [hsent, hpeer]
  · exact Session.verify_of_authentic (Authentic.to_continues hcontinues hauthentic) (hv _ rfl hid)

/-- What polling comes to, by the waits there would be: a budget is spent before one of them, or after
all of them the certificate is issued. -/
inductive Awaited (e : Enrollment) (p : Progress) (c : Certificate) (cas : List Certificate)
    (waits : List Nat) : Except Failure (Certificate × List Certificate) × Progress → Prop
  | spent {q : Progress} {k : Nat} (polled : Polled e p q waits k) (hk : k < waits.length)
      (h : e.polling.Spent (p.session.polls + k) (p.clock + (waits.take (k + 1)).sum)) :
      Awaited e p c cas waits (.error (.pollTimeout (p.session.polls + k)), q)
  | issued {q : Progress} (polled : Polled e p q waits waits.length) :
      Awaited e p c cas waits (.ok (c, cas), q)

theorem Awaited.now {wait : Nat} (waits : List Nat)
    (h : e.polling.Spent p.session.polls (p.clock + wait)) :
    Awaited e p c cas (wait :: waits)
      (.error (.pollTimeout p.session.polls), p.enter .awaitingPollDecision) := by
  have hspent : e.polling.Spent (p.session.polls + 0) (p.clock + ((wait :: waits).take 1).sum) := by
    simpa using h
  have hk : 0 < (wait :: waits).length := Nat.succ_pos _
  have hnone : Polled e p (p.enter .awaitingPollDecision) (wait :: waits) 0 := .none _ rfl rfl
  exact .spent hnone hk hspent

theorem Awaited.cons {waits : List Nat} {request raw : Bytes} {h : Header}
    {outcome : Except Failure (Certificate × List Certificate) × Progress}
    (hspent : ¬e.polling.Spent p.session.polls (p.clock + e.polling.wanted hint))
    (hrest : Awaited e ((e.due p hint).answered .polling request raw h) c cas waits outcome) :
    Awaited e p c cas (e.polling.wanted hint :: waits) outcome := by
  cases hrest with
  | issued polled => exact .issued (polled.cons hspent)
  | @spent q k polled hk hlater =>
    change e.polling.Spent (p.session.polls + 1 + k) (p.clock + e.polling.wanted hint + _) at hlater
    have hcount : p.session.polls + 1 + k = p.session.polls + (k + 1) := by omega
    rw [hcount, Nat.add_assoc, ← List.sum_cons, ← List.take_succ_cons] at hlater
    change Awaited e p c cas _ (.error (.pollTimeout (p.session.polls + 1 + k)), q)
    rw [hcount]
    exact .spent (polled.cons hspent) (Nat.succ_lt_succ hk) hlater

/-- One poll is sent, unless a budget is spent, and the rest follows from its answer. -/
theorem At.await {request : Bytes} {verdict : Verdict} {polls : Nat} {waits : List Nat}
    (h : At e p sent nonce) (hcancel : e.cancelAt = none)
    (hpolls : polls + p.session.polls = e.polling.maxPolls)
    (hwritten : e.pollRequest sent nonce = .ok request) (hreplies : Replies e peer (sent ++ [request]) m)
    (hv : ∀ s : Session, s.state = .polling → s.certReqId = e.draws.certReqId →
      s.verdictOfBody m e.kind.responseTag = .ok verdict)
    (hrest : ∀ left q, At e q (sent ++ [request]) (nonceAfter nonce m) →
      left + q.session.polls = e.polling.maxPolls →
      Awaited e q c cas waits ((e.awaitCertificate peer 0 left verdict).run q)) :
    Awaited e p c cas (e.polling.wanted hint :: waits)
      ((e.awaitCertificate peer 0 polls (.waiting hint)).run p) := by
  by_cases hspent : e.polling.Spent p.session.polls (p.clock + e.polling.wanted hint)
  · rw [awaitCertificate_spent hpolls hspent]
    exact .now waits hspent
  -- a client with no poll left has spent its budget of polls
  · have hleft : polls ≠ 0 := by
      intro hzero
      exact hspent (.inl (by omega))
    obtain ⟨left, rfl⟩ := Nat.exists_eq_succ_of_ne_zero hleft
    obtain ⟨raw, hrun⟩ := h.poll hint hwritten hreplies hv
    rw [awaitCertificate_unspent hcancel h.cancelled hspent, Step.run_bind_ok hrun]
    refine .cons hspent (hrest left _ (h.answered hint) ?_)
    change left + (p.session.polls + 1) = _
    omega

/-- Polling goes on for as long as the CA defers the certificate and no budget is spent. -/
theorem Defers.await {polls : Nat} (h : Defers e peer c cas sent nonce hints)
    (hcancel : e.cancelAt = none) (hat : At e p sent nonce)
    (hpolls : polls + p.session.polls = e.polling.maxPolls) :
    Awaited e p c cas ((hint :: hints).map e.polling.wanted)
      ((e.awaitCertificate peer 0 polls (.waiting hint)).run p) := by
  -- the induction is on the answers to the polls; the polls left and those sent make up the budget
  induction h generalizing p polls hint with
  | issues hwritten hreplies hissues =>
    refine hat.await hcancel hpolls hwritten hreplies
      (fun s hstate hid => verdictOfBody_of_issues (.inr hstate) hid hissues) fun left q _ _ => ?_
    rw [awaitCertificate, Step.run_pure]
    exact .issued (.none [] rfl rfl)
  | notReady hwritten hreplies hready _ ih =>
    exact hat.await hcancel hpolls hwritten hreplies
      (fun s hstate hid => verdictOfBody_of_notReady hstate hid hready) fun left q hq hleft => ih hq hleft

theorem verdictOfBody_of_waiting {s : Session} (hstate : s.state = .sent)
    (hid : s.certReqId = e.draws.certReqId) (h : NotReady e m none) :
    s.verdictOfBody m e.kind.responseTag = .ok (.waiting none) := by
  cases h with
  | waiting htag hrep hfind hstatus =>
    rw [← hid] at hfind
    rw [Session.verdictOfBody_of_certRep? (.inl hstate) htag hrep, Session.verdictOfRep_of_find? hfind,
      if_pos hstatus]

/-- What is left to do with an issued certificate adds one exchange at most. -/
theorem concludes_run (c : Certificate) (cas : List Certificate) (p : Progress) :
    ∃ result q, (do
        let model ← ofExcept (buildModel c cas)
        if !e.descriptor.implicitConfirm then e.confirm peer model.certificate
        return model : Step Model).run p = (result, q) ∧
      Concludes e c cas result ∧ q.session.polls = p.session.polls ∧ p.exchanges <+: q.exchanges := by
  -- only a confirmation can still be sent, and whether it fails or not, it is no poll
  cases hm : buildModel c cas with
  | error f =>
    exact ⟨_, p, Step.run_bind_error (Step.run_ofExcept _), .unarranged hm, rfl, List.prefix_rfl⟩
  | ok model =>
    cases hi : e.descriptor.implicitConfirm with
    | true => exact ⟨_, p, rfl, .enrolled hm, rfl, List.prefix_rfl⟩
    | false =>
      rw [Step.run_bind_ok (Step.run_ofExcept _)]
      have hsends {q : Progress} {result : Except Failure Verdict}
          (hr : RoundTrip e peer .confirming (e.confirmBody model) p result q) :
          q.session.polls = p.session.polls ∧ p.exchanges <+: q.exchanges := by
        rcases hr.sends with ⟨rfl, -⟩ | ⟨x, -, hexchanges, -, -, -, hpolls⟩
        · exact ⟨rfl, List.prefix_rfl⟩
        · exact ⟨hpolls, hexchanges ▸ List.prefix_append _ _⟩
      rcases confirm_path model p with ⟨f, q, hrun, hmove⟩ | ⟨q, hrun, hmove⟩
      · refine ⟨_, q, Step.run_bind_error hrun, ?_⟩
        cases hmove with
        | unacknowledged _ hr => exact ⟨.unconfirmed hm hi (by simp), hsends hr⟩
        | unconfirmed hr => exact ⟨.unconfirmed hm hi hr.kind_ne.1, hsends hr⟩
      · refine ⟨_, q, Step.run_bind_ok hrun, .enrolled hm, ?_⟩
        cases hmove with
        | confirm hr => exact hsends hr

theorem Postpones.ask (h : Postpones e peer c cas hints) :
    ∃ message p, e.requestMessage = .ok message ∧
      (e.roundTrip peer .sent (e.kind.body [message])).run e.start = (.ok (.waiting none), p) ∧
      p.session.polls = 0 ∧ p.clock = 0 ∧ p.exchanges.map Exchange.time = [0] ∧
      ∃ sent nonce, At e p sent nonce ∧ Defers e peer c cas sent nonce hints := by
  obtain ⟨message, request, m, hmessage, hwritten, ⟨raw, hpeer, hauthentic⟩, hready, hdefers⟩ := h
  have hcontinues : e.session.Continues (e.start.session.enter .sent) := rfl
  have hv := Session.verify_of_authentic (Authentic.to_continues hcontinues hauthentic)
    (verdictOfBody_of_waiting rfl rfl hready)
  have hrun := roundTrip_answered (p := e.start) hwritten hpeer hauthentic.decoded hv
  exact ⟨message, _, hmessage, hrun, rfl, rfl, rfl, _, _, ⟨rfl, rfl, rfl, rfl⟩, hdefers⟩

theorem steps_of_ask {message : CertReqMsg} (hcancel : e.cancelAt = none)
    (hmessage : e.requestMessage = .ok message)
    (hask : (e.roundTrip peer .sent (e.kind.body [message])).run e.start = (.ok (.waiting none), p))
    (hclock : p.clock = 0) :
    (e.steps peer).run e.start = (do
      let (certificate, caCertificates) ← e.awaitCertificate peer 0 e.polling.maxPolls (.waiting none)
      let model ← ofExcept (buildModel certificate caCertificates)
      if !e.descriptor.implicitConfirm then e.confirm peer model.certificate
      return model : Step Model).run p := by
  have hcancelled : ¬e.isCancelled e.start e.start.clock = true := by
    simp [isCancelled, start, hcancel]
  have hrequest : (ofExcept e.requestMessage : Step CertReqMsg).run e.start = (.ok message, e.start) := by
    rw [Step.run_ofExcept, hmessage]
  rw [steps, Step.run_bind_ok Step.run_get, if_neg hcancelled, Step.run_bind_ok hrequest,
    Step.run_bind_ok hask, Step.run_bind_ok Step.run_get, hclock]

/-- What a run comes to with a CA that postpones: how many polls it sends, when, and how it ends. -/
structure PollsExactly (e : Enrollment) (peer : Peer) (c : Certificate) (cas : List Certificate)
    (hints : List (Option Int64)) (k : Nat) : Prop where
  polls : (e.run peer).2.session.polls = k
  carried : ∃ m more, List.Forall₂ Exchange.Carries (e.run peer).2.exchanges
      (e.kind.body [m] :: (List.replicate k e.pollBody ++ more)) ∧
    (more = [] ∨ k = hints.length + 1 ∧ ∃ model, more = [e.confirmBody model])
  times : ((e.run peer).2.exchanges.map Exchange.time).take (k + 1) =
    (List.range (k + 1)).map fun i => ((e.polling.waits hints).take i).sum
  unspent : ∀ i < k, ¬e.polling.Spent i ((e.polling.waits hints).take (i + 1)).sum
  ends : k ≤ hints.length ∧ e.polling.Spent k ((e.polling.waits hints).take (k + 1)).sum ∧
      (e.run peer).1 = .error (.pollTimeout k) ∨
    k = hints.length + 1 ∧ Concludes e c cas (e.run peer).1
  wait_le : ∀ wait ∈ e.polling.waits hints, wait ≤ max e.polling.interval e.polling.maxInterval
  total_le : ∀ d, e.polling.deadline = some d → ((e.polling.waits hints).take k).sum ≤ d
  /-- No time that is checked is too long to be one, while no wait and no time before it takes half of
  that. -/
  in_range : 2 * max e.polling.interval e.polling.maxInterval ≤ e.polling.range → ∀ i ≤ hints.length,
    2 * ((e.polling.waits hints).take i).sum < e.polling.range →
      ((e.polling.waits hints).take (i + 1)).sum < e.polling.range

theorem length_waits (p : Polling) (hints : List (Option Int64)) :
    (p.waits hints).length = hints.length + 1 := by
  simp [Polling.waits]

theorem waits_le (p : Polling) (hints : List (Option Int64)) :
    ∀ wait ∈ p.waits hints, wait ≤ max p.interval p.maxInterval := by
  intro wait hmem
  obtain ⟨hint, -, rfl⟩ := List.mem_map.1 hmem
  exact p.wanted_le hint

theorem waits_in_range (p : Polling) (hints : List (Option Int64))
    (hrange : 2 * max p.interval p.maxInterval ≤ p.range) (i : Nat) (hi : i ≤ hints.length)
    (htime : 2 * ((p.waits hints).take i).sum < p.range) : ((p.waits hints).take (i + 1)).sum < p.range := by
  have hlt : i < (p.waits hints).length := by
    rw [length_waits]
    omega
  have hwait := waits_le p hints _ (List.getElem_mem hlt)
  rw [List.take_succ_eq_append_getElem hlt, List.sum_append_nat, List.sum_singleton]
  omega

theorem total_le_of_unspent {waits : List Nat} {k : Nat}
    (h : ∀ i < k, ¬e.polling.Spent i (waits.take (i + 1)).sum) (d : Nat)
    (hd : e.polling.deadline = some d) : (waits.take k).sum ≤ d := by
  cases k with
  | zero => exact Nat.zero_le d
  | succ k =>
    have hlast := h k (Nat.lt_succ_self k)
    exact Nat.not_lt.1 fun hlt => hlast (.inr ⟨d, hd, hlt⟩)

theorem Polled.times_take {waits : List Nat} {k : Nat} {r : Progress} (h : Polled e p q waits k)
    (hclock : p.clock = 0) (htimes : p.exchanges.map Exchange.time = [0])
    (hbegins : q.exchanges <+: r.exchanges) :
    (r.exchanges.map Exchange.time).take (k + 1) =
      (List.range (k + 1)).map fun i => (waits.take i).sum := by
  have hall : q.exchanges.map Exchange.time = (List.range (k + 1)).map fun i => (waits.take i).sum := by
    rw [h.times, htimes, hclock, List.range_succ_eq_map]
    simp [Function.comp_def]
  obtain ⟨later, hlater⟩ := hbegins
  rw [← hlater, List.map_append, hall]
  exact List.take_left' (by simp)

theorem carried_of_run {k : Nat} (hpolls : (e.run peer).2.session.polls = k)
    (hsent : (e.run peer).2.exchanges ≠ []) :
    ∃ m more, List.Forall₂ Exchange.Carries (e.run peer).2.exchanges
        (e.kind.body [m] :: (List.replicate k e.pollBody ++ more)) ∧
      (more = [] ∨ (∀ n, (e.run peer).1 ≠ .error (.pollTimeout n)) ∧
        ∃ model, more = [e.confirmBody model]) := by
  obtain ⟨q, hend, hpath⟩ := run_path e peer
  obtain ⟨bodies, more, htalk⟩ := Ends.conversation (stands_of_path hpath)
  rw [← hend] at htalk
  rcases htalk.order with ⟨rfl, -, -⟩ | ⟨m, rfl⟩
  · exact absurd (List.forall₂_nil_right_iff.1 htalk.carried) hsent
  · refine ⟨m, more, hpolls ▸ htalk.carried, ?_⟩
    rcases htalk.confirmed with hnone | ⟨-, model, hmodel⟩
    · exact .inl hnone
    · refine .inr ⟨fun n hn => ?_, model, hmodel⟩
      have hnone := (htalk.timedOut n hn).1
      rw [hmodel] at hnone
      cases hnone

theorem Polled.pollsExactly {r : Progress} {result : Except Failure Model} {k : Nat}
    (h : Polled e p q (e.polling.waits hints) k) (hpolls : p.session.polls = 0) (hclock : p.clock = 0)
    (htimes : p.exchanges.map Exchange.time = [0])
    (hrun : e.run peer = (result, r.enter (lastState result)))
    (hsame : r.session.polls = q.session.polls) (hbegins : q.exchanges <+: r.exchanges)
    (hends : k ≤ hints.length ∧ e.polling.Spent k ((e.polling.waits hints).take (k + 1)).sum ∧
        result = .error (.pollTimeout k) ∨
      k = hints.length + 1 ∧ Concludes e c cas result) : PollsExactly e peer c cas hints k := by
  have hcount : (e.run peer).2.session.polls = k := by
    rw [hrun, polls_lastState, hsame, h.polls, hpolls, Nat.zero_add]
  have hexchanges : (e.run peer).2.exchanges = r.exchanges := by rw [hrun]; rfl
  have hresult : (e.run peer).1 = result := by rw [hrun]
  have hmoments := h.times_take hclock htimes hbegins
  have hunspent : ∀ i < k, ¬e.polling.Spent i ((e.polling.waits hints).take (i + 1)).sum := by
    intro i hi
    have hstep := h.unspent i hi
    rwa [hpolls, hclock, Nat.zero_add, Nat.zero_add] at hstep
  have hsent : (e.run peer).2.exchanges ≠ [] := by
    intro hnone
    rw [← hexchanges, hnone] at hmoments
    simp at hmoments
  obtain ⟨m, more, hcarried, hmore⟩ := carried_of_run hcount hsent
  refine ⟨hcount, ⟨m, more, hcarried, ?_⟩, hexchanges ▸ hmoments, hunspent, hresult ▸ hends,
    waits_le _ _, total_le_of_unspent hunspent, waits_in_range _ _⟩
  rcases hmore with hnone | ⟨hno, hmodel⟩
  · exact .inl hnone
  · rcases hends with ⟨-, -, htimeout⟩ | ⟨hk, -⟩
    · exact absurd (hresult.trans htimeout) (hno k)
    · exact .inr ⟨hk, hmodel⟩

/-- With a CA that postpones and then issues, a client sends as many polls as there are waits before
a budget is spent, and gives up there; if no budget is spent it sends one poll more than the CA
postpones, and has the certificate. -/
theorem run_polls_exactly (hcancel : e.cancelAt = none) (h : Postpones e peer c cas hints) :
    ∃ k, PollsExactly e peer c cas hints k := by
  obtain ⟨message, p, hmessage, hask, hpolls, hclock, htimes, sent, nonce, hat, hdefers⟩ := h.ask
  have hawait : Awaited e p c cas (e.polling.waits hints)
      ((e.awaitCertificate peer 0 e.polling.maxPolls (.waiting none)).run p) :=
    hdefers.await hcancel hat (by omega)
  have hsteps := steps_of_ask hcancel hmessage hask hclock
  have hlength := length_waits e.polling hints
  generalize hrun :
    (e.awaitCertificate peer 0 e.polling.maxPolls (.waiting none)).run p = outcome at hawait
  cases hawait with
  | @spent q k polled hk hspent =>
    rw [hpolls, hclock, Nat.zero_add, Nat.zero_add] at hspent
    rw [hpolls, Nat.zero_add] at hrun
    rw [Step.run_bind_error hrun] at hsteps
    exact ⟨k, polled.pollsExactly hpolls hclock htimes (run_of_steps hsteps) rfl List.prefix_rfl
      (.inl ⟨by omega, hspent, rfl⟩)⟩
  | @issued q polled =>
    rw [Step.run_bind_ok hrun] at hsteps
    obtain ⟨result, r, hconclude, hconcludes, hsame, hbegins⟩ := concludes_run c cas q
    have hfinal := run_of_steps (hsteps.trans hconclude)
    exact ⟨_, polled.pollsExactly hpolls hclock htimes hfinal hsame hbegins
      (.inr ⟨hlength, hconcludes⟩)⟩

end Enrollment

namespace Sample

open Enrollment

def privateKey : Rsa.PrivateKey where
  publicKey := publicKey
  exponent := 0x244e0b99ec5440c1f2c1ec0fc81643ad3a2efcf602a1289fe9db1e8edc5fbc0332f2022b847b4e08470c86beb8220a6b36e66ece4f367ed79c6e22b85b295d2b
  prime1 := 0xdc1e11896f1eb3a5e1241ab5dce825d7eef5f12d89167314b4f05a285bf05b25
  prime2 := 0xfd56b5a250e67d357d7842fd278993b2c8089d9fffab24d10cd550b542fecdc1

/-- An enrollment whose deadline leaves time for one wait but not for two. -/
def hurried : Enrollment where
  descriptor := {
    caName := "CA"
    url := ⟨.http, "", none, some (.domain "ca"), none, "/", none, none⟩
    issuerDn := session.recipient
    mode := .client
    authentication := .sharedSecret "p" "r"
    caCertificate := none
    implicitConfirm := true }
  kind := .initialization
  context := .sharedSecret secret
  request := {
    csr := ⟨⟨session.sender, keyInfo, ⟨[]⟩⟩, Request.algorithm, .ofBytes []⟩
    key := privateKey }
  polling := { interval := 5, maxInterval := 60, maxPolls := 3, deadline := some 9 }
  draws := ⟨[0x73], 1, [0x74], [0x6e], 0⟩
  now := Instant.ofSeconds 1700000000 0

def answer (nonce : UInt8) (body : Body) (mac : Nat) : Message where
  header := {
    pvno := Header.cmp2000
    sender := .directory session.recipient
    recipient := .directory session.sender
    protectionAlg := some secret.algorithm
    transactionId := some ⟨session.transactionId⟩
    senderNonce := some ⟨[nonce]⟩
    recipNonce := some ⟨session.senderNonce⟩ }
  body
  protection := some (.ofBytes (Bytes.ofNat 32 mac))

def waitingAnswer : Message :=
  answer 1 (.initResponse ⟨none, [⟨0, .ofStatus .waiting, none, none⟩]⟩)
    0x35f927d57b9e8b1396dfea74661c87ac4b261732d2a04d6aa638fd5fd9e5d119

def pollAnswer : Message :=
  answer 2 (.pollResponse [⟨0, -3, none⟩])
    0xdb2918de2dcefdcc0bca314e0edf7c571e556870ab7266de650cbb0de65270ac

def issuingAnswer : Message :=
  answer 3
    (.initResponse ⟨none, [⟨0, .ofStatus .accepted, some ⟨.certificate leaf, none, none⟩, none⟩]⟩)
    0x466487462804d4713929737e884fa764fc8602f11a61d0a7bd34f700eeb1800d

/-- A CA that is not ready when it is asked first, nor at the first poll. -/
def slowPeer : Peer := fun sent =>
  match sent.length with
  | 1 => { answer := .ok (Der.encode waitingAnswer) }
  | 2 => { answer := .ok (Der.encode pollAnswer) }
  | _ => { answer := .ok (Der.encode issuingAnswer) }

theorem authentic_waitingAnswer :
    Authentic hurried.session (Der.encode waitingAnswer) waitingAnswer where
  decoded := by decide +kernel
  transactionId := rfl
  recipNonce := rfl
  noError := by simp [waitingAnswer, answer]
  protection := Context.verifyMessage_eq_ok_iff.1 (by decide +kernel)

theorem authentic_pollAnswer : Authentic hurried.session (Der.encode pollAnswer) pollAnswer where
  decoded := by decide +kernel
  transactionId := rfl
  recipNonce := rfl
  noError := by simp [pollAnswer, answer]
  protection := Context.verifyMessage_eq_ok_iff.1 (by decide +kernel)

theorem authentic_issuingAnswer :
    Authentic hurried.session (Der.encode issuingAnswer) issuingAnswer where
  decoded := by decide +kernel
  transactionId := rfl
  recipNonce := rfl
  noError := by simp [issuingAnswer, answer]
  protection := Context.verifyMessage_eq_ok_iff.1 (by decide +kernel)

theorem exists_of_isOk {α : Type} {x : Except Failure α} (h : x.isOk = true) : ∃ a, x = .ok a := by
  cases x with
  | ok a => exact ⟨a, rfl⟩
  | error f => cases h

theorem postpones_hurried : Postpones hurried slowPeer leaf [] [some (-3)] := by
  have hfirst : (hurried.requestMessage >>= fun message =>
      hurried.session.message (hurried.now.timeOf 0) (hurried.kind.body [message]) >>=
        Message.encode).isOk = true := by
    decide +kernel
  obtain ⟨request, hrequest⟩ := exists_of_isOk hfirst
  obtain ⟨message, hmessage, hwritten⟩ := bind_eq_ok_iff.1 hrequest
  obtain ⟨poll, hpoll⟩ := exists_of_isOk
    (by decide +kernel : (hurried.pollRequest [[]] (some [1])).isOk = true)
  obtain ⟨later, hlater⟩ := exists_of_isOk
    (by decide +kernel : (hurried.pollRequest [[], []] (some [2])).isOk = true)
  refine ⟨message, request, waitingAnswer, hmessage, hwritten, ⟨_, rfl, authentic_waitingAnswer⟩,
    .waiting rfl rfl rfl rfl, ?_⟩
  have hready : NotReady hurried pollAnswer (some (-3)) :=
    @NotReady.later hurried pollAnswer [⟨0, -3, none⟩] ⟨0, -3, none⟩ rfl rfl
  refine .notReady hpoll ⟨_, rfl, authentic_pollAnswer⟩ hready ?_
  have hissues : Issues hurried issuingAnswer leaf [] :=
    ⟨rfl, _, ⟨rfl, _, _, rfl, .inl rfl, rfl, rfl⟩, rfl⟩
  exact .issues hlater ⟨_, rfl, authentic_issuingAnswer⟩ hissues

/-- The second wait would end after the deadline, so there is one poll. -/
theorem run_polls_exactly_hurried :
    hurried.cancelAt = none ∧ Postpones hurried slowPeer leaf [] [some (-3)] ∧
      (hurried.run slowPeer).1 = .error (.pollTimeout 1) ∧
      (hurried.run slowPeer).2.session.polls = 1 := by
  obtain ⟨k, hk⟩ := run_polls_exactly (rfl : hurried.cancelAt = none) postpones_hurried
  have hfirst : ¬hurried.polling.Spent 0 ((hurried.polling.waits [some (-3)]).take 1).sum := by
    simp [Polling.Spent, Polling.waits, Polling.wanted, hurried]
  have hsecond : hurried.polling.Spent 1 ((hurried.polling.waits [some (-3)]).take 2).sum := by
    refine .inr ⟨9, rfl, ?_⟩
    decide
  have hpositive : k ≠ 0 := by
    rintro rfl
    rcases hk.ends with ⟨-, hspent, -⟩ | ⟨hlate, -⟩
    · exact hfirst hspent
    · simp at hlate
  have hbound : k ≤ 1 := Nat.not_lt.1 fun hlt => hk.unspent 1 hlt hsecond
  obtain rfl : k = 1 := by omega
  rcases hk.ends with ⟨-, -, hresult⟩ | ⟨hlate, -⟩
  · exact ⟨rfl, postpones_hurried, hresult, hk.polls⟩
  · simp at hlate

end Sample

end PkiEnroll.Enroll
