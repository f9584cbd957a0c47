import PkiEnroll.Proofs.Enroll.RoundTrip
import PkiEnroll.Proofs.Enroll.Verdict

namespace PkiEnroll.Enroll

open Der X509 Cmp Protection

@[simp] theorem refusal_kind (info : StatusInfo) (more : List String) :
    (refusal info more).kind = .pkiError := rfl

@[simp] theorem errorRefusal_kind (content : ErrorContent) : (errorRefusal content).kind = .pkiError := rfl

namespace Session

theorem checkIdentifier_failsWithin (lenient : Bool) (sent : Bytes) (differs absent : String)
    (o : Option OctetString) :
    FailsWithin [.nonceMismatch] (checkIdentifier lenient sent differs absent o) := by
  cases o with
  | none => exact .ite (.ok ()) (.error (by simp))
  | some received => exact .ite (.ok ()) (.error (by simp))

theorem checkIdentifiers_failsWithin (s : Session) (lenient : Bool) (h : Header) :
    FailsWithin [.nonceMismatch] (s.checkIdentifiers lenient h) :=
  .bind (checkIdentifier_failsWithin _ _ _ _ _) fun _ => checkIdentifier_failsWithin _ _ _ _ _

@[simp] theorem unexpected_kind (s : Session) (body : Body) : (s.unexpected body).kind = .decode := rfl

theorem certificateOf_failsWithin (o : Option CertifiedKeyPair) :
    FailsWithin [.decode] (certificateOf o) := by
  cases o with
  | none => exact .error (by decide)
  | some pair =>
    obtain ⟨issued, privateKey, publicationInfo⟩ := pair
    cases issued with
    | certificate c => exact .ok c
    | encrypted value => exact .error (by decide)

theorem verdictOfRep_failsWithin (s : Session) (m : Message) (rep : CertRepMessage) :
    FailsWithin [.decode, .pkiError] (s.verdictOfRep m rep) := by
  have hissued (pair : Option CertifiedKeyPair) :
      FailsWithin [.decode, .pkiError] (certificateOf pair) :=
    (certificateOf_failsWithin pair).mono (by decide)
  refine .bind (.orFail (by simp) _) fun response => .ite (.ok _) (.ite ?_ ?_)
  · refine .bind (.error (by simp)) fun _ => ?_
    exact .bind (hissued _) fun _ => .ok _
  · exact .bind (hissued _) fun _ => .ok _

theorem verdictOfBody_failsWithin (s : Session) (m : Message) (expected : Nat) :
    FailsWithin [.decode, .pkiError] (s.verdictOfBody m expected) := by
  unfold verdictOfBody
  split
  · split
    · exact verdictOfRep_failsWithin s m _
    · exact .error (by simp)
  · split
    · exact .bind (.orFail (by simp) _) fun entry => .ok _
    · exact .ok _
    · exact .error (by simp)

theorem verify_failsWithin (s : Session) (m : Message) (raw : Bytes) (expected : Nat) :
    FailsWithin [.decode, .protection, .nonceMismatch, .pkiError] (s.verify m raw expected) := by
  unfold verify
  split
  · refine .bind ((s.checkIdentifiers_failsWithin _ _).mono (by decide)) fun _ => ?_
    exact .error (by simp)
  · refine .bind ((s.checkIdentifiers_failsWithin _ _).mono (by decide)) fun _ => ?_
    refine .bind ((s.context.verifyMessage_failsWithin _ _).mono (by decide)) fun _ => ?_
    exact (s.verdictOfBody_failsWithin _ _).mono (by decide)

theorem message_failsWithin (s : Session) (now : Instant) (body : Body) :
    FailsWithin [.decode, .protection] (s.message now body) := by
  refine .bind (.bind (.orFail (by decide) _) fun _ => .ok _) fun header => ?_
  exact s.context.protectMessage_failsWithin _

theorem encoded_failsWithin (s : Session) (now : Instant) (body : Body) :
    FailsWithin [.decode, .protection] (s.message now body >>= Message.encode) :=
  (s.message_failsWithin now body).bind fun _ => (bounded_failsWithin _).mono (by decide)

end Session

theorem decode_failsWithin (raw : Bytes) : FailsWithin [.decode] (Message.decode raw) :=
  .orFail (by simp) _

@[simp] theorem issuerFailure_kind (c : Certificate) (candidates : List Certificate) :
    (issuerFailure c candidates).kind = .protection := rfl

theorem walk_failsWithin (bound : Nat) (c : Certificate) (candidates : List Certificate) :
    FailsWithin [.protection] (walk bound c candidates) := by
  induction bound generalizing c candidates with
  | zero => exact .error (by simp)
  | succ bound ih =>
    unfold walk
    split
    · exact .error (by simp)
    · exact .ite (.ok _) (.bind (ih _ _) fun _ => .ok _)

theorem buildModel_failsWithin (c : Certificate) (cas : List Certificate) :
    FailsWithin [.protection] (buildModel c cas) :=
  .bind (walk_failsWithin _ _ _) fun _ => .ok _

namespace Request

theorem bound?_failsWithin (t : Option Instant) : FailsWithin [.decode] (bound? t) := by
  cases t with
  | none => exact .ok none
  | some t => exact .orFail (by decide) _

theorem extensions_failsWithin (r : Request) : FailsWithin [.invalidRequest] r.extensions := by
  have hlisted : FailsWithin [.invalidRequest] r.listedExtensions :=
    .bind (.mapM (fun value => .orFail (by simp) _) _) fun parts => .ok _
  exact hlisted.bind fun _ => .ok _

theorem template_failsWithin (r : Request) (issuer : Name) :
    FailsWithin [.decode, .invalidRequest] (r.template issuer) := by
  have hvalidity : FailsWithin [.decode] r.validity := by
    refine .bind (bound?_failsWithin _) fun notBefore => ?_
    exact .bind (bound?_failsWithin _) fun notAfter => .ok _
  refine .bind (hvalidity.mono (by decide)) fun validity => ?_
  exact .bind (r.extensions_failsWithin.mono (by decide)) fun extensions => .ok _

theorem certReqMsg_failsWithin (r : Request) (certReqId : Int64) (issuer : Name) :
    FailsWithin [.decode, .invalidRequest] (r.certReqMsg certReqId issuer) := by
  refine .bind (r.template_failsWithin issuer) fun template => ?_
  dsimp only
  split
  · exact .error (by simp)
  · exact .ok _

end Request

namespace Enrollment

variable {e : Enrollment} {peer : Peer} {p q : Progress}

theorem RoundTrip.failsWithin {state : State} {body : Body} {result : Except Failure Verdict}
    (h : RoundTrip e peer state body p result q) :
    FailsWithin [.decode, .protection, .nonceMismatch, .pkiError, .transport] result := by
  cases h with
  | unsent hunsent =>
    exact ((p.session.encoded_failsWithin (e.timeAt p) body).mono (by decide)).of_eq_error hunsent
  | unanswered => exact .error (by simp)
  | unread hm hr ha hd => exact ((decode_failsWithin _).mono (by decide)).of_eq_error hd
  | rejected hm hr ha hd hv =>
    exact ((Session.verify_failsWithin _ _ _ _).mono (by decide)).of_eq_error hv
  | accepted => exact .ok _

theorem RoundTrip.sends_of_kind {state : State} {body : Body} {f : Failure}
    (h : RoundTrip e peer state body p (.error f) q) (hf : f.kind ∉ [.decode, .protection]) :
    q.exchanges ≠ [] := by
  cases h with
  | unsent hunsent => exact absurd (p.session.encoded_failsWithin (e.timeAt p) body f hunsent) hf
  | unanswered => exact List.concat_ne_nil _ _
  | unread => exact List.concat_ne_nil _ _
  | rejected => exact List.concat_ne_nil _ _

end Enrollment

end PkiEnroll.Enroll
