import PkiEnroll.Proofs.Cmp.Body
import PkiEnroll.Proofs.Der.NamedBits
import PkiEnroll.Proofs.Enroll.FailureKind
import PkiEnroll.Proofs.Protection.Flaw

namespace PkiEnroll.Enroll

open Der X509 Cmp Protection

/-- Whether an identifier is given that is not the one sent. -/
def Session.Conflicts (s : Session) (h : Header) : Prop :=
  (∃ id, h.transactionId = some id ∧ id.bytes ≠ s.transactionId) ∨
    ∃ nonce, h.recipNonce = some nonce ∧ nonce.bytes ≠ s.senderNonce

/-- Whether both identifiers are given, and are those sent. -/
def Session.Identifies (s : Session) (h : Header) : Prop :=
  h.transactionId = some ⟨s.transactionId⟩ ∧ h.recipNonce = some ⟨s.senderNonce⟩

/-- Failure information that has the first 32 bits of a bit string. -/
inductive FirstBits : Option BitString → Option FailureInfo → Prop
  | none : FirstBits none none
  | some {bits : BitString} {info : FailureInfo}
      (h : ∀ i, info.bit i = (decide (i < 32) && bits.isSet i)) : FirstBits (some bits) (some info)

/-- A failure that says what a status says, and more. -/
inductive Refuses (info : StatusInfo) (more : List String) : Failure → Prop
  | intro {failure : Option FailureInfo} (h : FirstBits info.failInfo failure) :
      Refuses info more (.refused info.status failure (info.texts.getD [] ++ more))

/-- The entry of an answer that the session has asked for. -/
structure Entry (s : Session) (m : Message) (expected : Nat) (response : CertResponse) : Prop where
  asked : s.state = .sent ∨ s.state = .polling
  tag : m.body.tagNumber = expected
  found : ∃ rep, m.body.certRep? = some rep ∧
    rep.responses.find? (·.certReqId = s.certReqId) = some response

/-- What an authentic answer means to a session that expects a certificate in the alternative with a
given tag. -/
inductive Means (s : Session) (m : Message) (expected : Nat) : Except Failure Verdict → Prop
  | notReady {response : CertResponse} (entry : Entry s m expected response)
      (status : response.status.status = .waiting) : Means s m expected (.ok (.waiting none))
  | granted {rep : CertRepMessage} {c : Certificate} {response : CertResponse}
      (entry : Entry s m expected response) (grants : Grants m s.certReqId rep c) :
      Means s m expected (.ok (.issued c (distinct (rep.caPubs.getD [] ++ m.extraCertList))
        m.header.hasImplicitConfirm))
  | refused {response : CertResponse} {f : Failure} (entry : Entry s m expected response)
      (status : response.status.status ∉ [.waiting, .accepted, .grantedWithMods])
      (refuses : Refuses response.status [] f) : Means s m expected (.error f)
  | noCertificate {response : CertResponse} {detail : String} (entry : Entry s m expected response)
      (status : response.status.status = .accepted ∨ response.status.status = .grantedWithMods)
      (plain : ∀ pair c, response.keyPair = some pair → pair.issued ≠ .certificate c) :
      Means s m expected (.error (.decode detail))
  | noEntry {rep : CertRepMessage} {detail : String} (asked : s.state = .sent ∨ s.state = .polling)
      (tag : m.body.tagNumber = expected) (answer : m.body.certRep? = some rep)
      (entry : ∀ r ∈ rep.responses, r.certReqId ≠ s.certReqId) :
      Means s m expected (.error (.decode detail))
  | poll {entries : List PollRep} {entry : PollRep} (asked : s.state = .polling)
      (answer : m.body = .pollResponse entries)
      (found : entries.find? (·.certReqId = s.certReqId) = some entry) :
      Means s m expected (.ok (.waiting (some entry.checkAfter)))
  | noPoll {entries : List PollRep} {detail : String} (asked : s.state = .polling)
      (answer : m.body = .pollResponse entries) (entry : ∀ e ∈ entries, e.certReqId ≠ s.certReqId) :
      Means s m expected (.error (.decode detail))
  | confirmed (asked : s.state = .confirming) (answer : m.body = .confirmation) :
      Means s m expected (.ok .confirmed)
  | unexpected {request : String}
      (noAnswer : ¬((s.state = .sent ∨ s.state = .polling) ∧ m.body.tagNumber = expected))
      (noPoll : ∀ entries, ¬(s.state = .polling ∧ m.body = .pollResponse entries))
      (noConfirmation : ¬(s.state = .confirming ∧ m.body = .confirmation)) :
      Means s m expected
        (.error (.decode ("unexpected " ++ m.body.name ++ " body in response to " ++ request)))

theorem refuses_refusal (info : StatusInfo) (more : List String) :
    Refuses info more (refusal info more) := by
  refine .intro ?_
  unfold StatusInfo.failure?
  cases info.failInfo with
  | none => exact .none
  | some bits => exact .some fun i => FailureInfo.bit_ofBitString bits i

namespace Session

variable {s : Session} {m : Message} {raw : Bytes} {expected : Nat}

theorem checkIdentifier_lenient_iff {sent : Bytes} {differs absent : String} {o : Option OctetString} :
    checkIdentifier true sent differs absent o = .ok () ↔ ¬∃ id, o = some id ∧ id.bytes ≠ sent := by
  cases o with
  | none => simp [checkIdentifier]
  | some id => simp [checkIdentifier]

theorem checkIdentifiers_lenient_iff {h : Header} :
    s.checkIdentifiers true h = .ok () ↔ ¬s.Conflicts h := by
  rw [checkIdentifiers, bind_eq_ok_iff, Conflicts, not_or, ← checkIdentifier_lenient_iff,
    ← checkIdentifier_lenient_iff]
  constructor
  · intro h
    obtain ⟨_, ht, hn⟩ := h
    exact ⟨ht, hn⟩
  · intro h
    exact ⟨(), h⟩

theorem eq_ok_or_nonceMismatch (lenient : Bool) (h : Header) :
    s.checkIdentifiers lenient h = .ok () ∨
      ∃ detail, s.checkIdentifiers lenient h = .error (.nonceMismatch detail) := by
  cases hc : s.checkIdentifiers lenient h with
  | ok => exact .inl rfl
  | error f =>
    have hkind : f.kind ∈ [FailureKind.nonceMismatch] := s.checkIdentifiers_failsWithin lenient h f hc
    obtain ⟨detail, rfl⟩ := Failure.eq_nonceMismatch (List.mem_singleton.1 hkind)
    exact .inr ⟨detail, rfl⟩

theorem verify_error {content : ErrorContent} (h : m.body = .error content) :
    s.verify m raw expected =
      (s.checkIdentifiers true m.header >>= fun _ => .error (errorRefusal content)) := by
  rw [verify, h]
  rfl

theorem verify_of_ne_error (h : ∀ content, m.body ≠ .error content) :
    s.verify m raw expected =
      (s.checkIdentifiers false m.header >>= fun _ =>
        s.context.verifyMessage m raw >>= fun _ => s.verdictOfBody m expected) := by
  unfold verify
  split
  · next content hbody => exact absurd hbody (h content)
  · rfl

theorem verdictOfRep_of_find? {rep : CertRepMessage} {response : CertResponse}
    (h : rep.responses.find? (·.certReqId = s.certReqId) = some response) :
    s.verdictOfRep m rep =
      if response.status.status = .waiting then .ok (.waiting none)
      else if response.status.status.isGranted then
        certificateOf response.keyPair >>= fun c =>
          .ok (.issued c (distinct (rep.caPubs.getD [] ++ m.extraCertList)) m.header.hasImplicitConfirm)
      else .error (refusal response.status []) := by
  obtain ⟨certReqId, ⟨status, texts, failInfo⟩, keyPair, rspInfo⟩ := response
  rw [verdictOfRep, h]
  cases status <;> rfl

theorem certificateOf_cases (o : Option CertifiedKeyPair) :
    (∃ pair c, o = some pair ∧ pair.issued = .certificate c ∧ certificateOf o = .ok c) ∨
      (∀ pair c, o = some pair → pair.issued ≠ .certificate c) ∧
        ∃ detail, certificateOf o = .error (.decode detail) := by
  cases hc : certificateOf o with
  | ok c =>
    obtain ⟨pair, hpair, hissued⟩ := certificateOf_eq_ok_iff.1 hc
    exact .inl ⟨pair, c, hpair, hissued, rfl⟩
  | error f =>
    refine .inr ⟨fun pair c hpair hissued => ?_, ?_⟩
    · have hok : certificateOf o = .ok c := certificateOf_eq_ok_iff.2 ⟨pair, hpair, hissued⟩
      cases hc.symm.trans hok
    · have hkind : f.kind ∈ [FailureKind.decode] := certificateOf_failsWithin o f hc
      obtain ⟨detail, rfl⟩ := Failure.eq_decode (List.mem_singleton.1 hkind)
      exact ⟨detail, rfl⟩

theorem verdictOfRep_means {rep : CertRepMessage} (asked : s.state = .sent ∨ s.state = .polling)
    (htag : m.body.tagNumber = expected) (hrep : m.body.certRep? = some rep) :
    Means s m expected (s.verdictOfRep m rep) := by
  cases hfind : rep.responses.find? (·.certReqId = s.certReqId) with
  | none =>
    rw [verdictOfRep, hfind]
    exact .noEntry asked htag hrep (by simpa using hfind)
  | some response =>
    have entry : Entry s m expected response := ⟨asked, htag, rep, hrep, hfind⟩
    rw [verdictOfRep_of_find? hfind]
    by_cases hwait : response.status.status = .waiting
    · rw [if_pos hwait]
      exact .notReady entry hwait
    · rw [if_neg hwait]
      by_cases hgranted : response.status.status = .accepted ∨ response.status.status = .grantedWithMods
      · rw [if_pos (isGranted_iff.2 hgranted)]
        rcases certificateOf_cases response.keyPair with
          ⟨pair, c, hpair, hissued, hc⟩ | ⟨hplain, detail, hc⟩
        · rw [hc]
          exact .granted entry ⟨hrep, response, pair, hfind, hgranted, hpair, hissued⟩
        · rw [hc]
          exact .noCertificate entry hgranted hplain
      · rw [if_neg (mt isGranted_iff.1 hgranted)]
        have hstatus : response.status.status ∉ [Status.waiting, .accepted, .grantedWithMods] := by
          simpa [not_or] using ⟨hwait, not_or.1 hgranted⟩
        exact .refused entry hstatus (refuses_refusal _ _)

theorem verdictOfBody_of_certRep? {rep : CertRepMessage}
    (asked : s.state = .sent ∨ s.state = .polling) (htag : m.body.tagNumber = expected)
    (hrep : m.body.certRep? = some rep) : s.verdictOfBody m expected = s.verdictOfRep m rep := by
  rw [verdictOfBody, if_pos ⟨asked, htag⟩, hrep]

/-- Every answer means something, provided that the alternative expected holds an answer. -/
theorem verdictOfBody_means
    (hanswer : m.body.tagNumber = expected → ∃ rep, m.body.certRep? = some rep) :
    Means s m expected (s.verdictOfBody m expected) := by
  unfold verdictOfBody
  split
  · next h =>
    obtain ⟨asked, htag⟩ := h
    obtain ⟨rep, hrep⟩ := hanswer htag
    rw [hrep]
    exact verdictOfRep_means asked htag hrep
  · next hno =>
    split
    · next entries hstate hbody =>
      unfold verdictOfPoll
      cases hfind : entries.find? (·.certReqId = s.certReqId) with
      | none => exact .noPoll hstate hbody (by simpa using hfind)
      | some entry => exact .poll hstate hbody hfind
    · next hstate hbody => exact .confirmed hstate hbody
    · next hpoll hconfirm =>
      exact .unexpected hno (fun entries h => hpoll entries h.1 h.2) fun h => hconfirm h.1 h.2

/-- Every answer that is read has its outcome: an error message is the CA's refusal unless it belongs
to another request; any other answer has to belong to the request, then to be protected, and then it
means what it says. -/
theorem verify_outcome (hd : Message.decode raw = .ok m) (he : expected ∈ [1, 3, 8]) :
    ∃ part, Message.receivedPart raw = .ok part ∧
      (∀ content, m.body = .error content →
        (s.Conflicts m.header → ∃ detail, s.verify m raw expected = .error (.nonceMismatch detail)) ∧
        (¬s.Conflicts m.header → ∃ f, s.verify m raw expected = .error f ∧
          Refuses content.status (content.details.getD [] ++
            (content.code.map fun n => "error code " ++ toString n.toInt).toList) f)) ∧
      ((∀ content, m.body ≠ .error content) →
        (¬s.Identifies m.header →
          ∃ detail, s.verify m raw expected = .error (.nonceMismatch detail)) ∧
        (s.Identifies m.header → Flawed s.context part m →
          ∃ detail, s.verify m raw expected = .error (.protection detail)) ∧
        (s.Identifies m.header → ¬Flawed s.context part m →
          Means s m expected (s.verify m raw expected))) := by
  obtain ⟨header, body, others, -, hpart, -⟩ := Message.decode_split hd
  -- an error message is judged before its protection, and may leave out what others have to name
  refine ⟨_, hpart, fun content hbody => ?_, fun hbody => ?_⟩
  · rw [verify_error hbody]
    rcases s.eq_ok_or_nonceMismatch true m.header with hc | ⟨detail, hc⟩
    · rw [hc]
      exact ⟨fun h => absurd h (checkIdentifiers_lenient_iff.1 hc),
        fun _ => ⟨_, rfl, refuses_refusal _ _⟩⟩
    · rw [hc]
      refine ⟨fun _ => ⟨detail, rfl⟩, fun h => ?_⟩
      cases hc.symm.trans (checkIdentifiers_lenient_iff.2 h)
  · rw [verify_of_ne_error hbody]
    rcases s.eq_ok_or_nonceMismatch false m.header with hc | ⟨detail, hc⟩
    · rw [hc]
      refine ⟨fun h => absurd (checkIdentifiers_strict_iff.1 hc) h, fun _ hflaw => ?_,
        fun _ hsound => ?_⟩
      · obtain ⟨detail, hv⟩ := Context.verifyMessage_of_flawed hpart hflaw
        exact ⟨detail, by rw [hv]; rfl⟩
      · rw [(Context.verifyMessage_eq_ok_iff_not_flawed hpart).2 hsound]
        refine verdictOfBody_means fun htag => ?_
        exact Body.certRep?_of_tagNumber (Message.body_known hd) (htag ▸ he)
    · rw [hc]
      refine ⟨fun _ => ⟨detail, rfl⟩, fun h => ?_, fun h => ?_⟩
      · cases hc.symm.trans (checkIdentifiers_strict_iff.2 h)
      · cases hc.symm.trans (checkIdentifiers_strict_iff.2 h)

def refusalMessage : Message where
  header := { pvno := Header.cmp2000, sender := .directory .empty, recipient := .directory .empty }
  body := .error ⟨⟨.rejection, some ["no"], some ⟨6, [0x40], by simp⟩⟩, some 7, some ["ask again"]⟩

def firstSession : Session where
  transactionId := [0x74]
  senderNonce := [0x6e]
  certReqId := 0
  context := .sharedSecret ⟨[0x70], [0x72], [0x73], 1⟩
  sender := .empty
  recipient := .empty
  implicitConfirm := true
  state := .sent

theorem verify_outcome_refusal :
    Message.decode (Der.encode refusalMessage) = .ok refusalMessage ∧ 3 ∈ [1, 3, 8] ∧
      ∃ failure, FirstBits (some ⟨6, [0x40], by simp⟩) failure ∧
        firstSession.verify refusalMessage (Der.encode refusalMessage) 3 =
          .error (.refused .rejection failure ["no", "ask again", "error code 7"]) := by
  have hd : Message.decode (Der.encode refusalMessage) = .ok refusalMessage := by decide +kernel
  have hfree : ¬firstSession.Conflicts refusalMessage.header := by
    simp [Conflicts, refusalMessage]
  obtain ⟨part, -, herror, -⟩ := verify_outcome (s := firstSession) hd (by decide : 3 ∈ [1, 3, 8])
  obtain ⟨f, hf, hrefuses⟩ := (herror _ rfl).2 hfree
  refine ⟨hd, by decide, ?_⟩
  cases hrefuses with
  | intro hbits => exact ⟨_, hbits, hf⟩

end Session

end PkiEnroll.Enroll
