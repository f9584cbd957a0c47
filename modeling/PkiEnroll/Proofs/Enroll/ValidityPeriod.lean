import PkiEnroll.Proofs.Enroll.Contact
import PkiEnroll.Proofs.Enroll.Prepared

namespace PkiEnroll.Enroll

open Der X509 Cmp Protection

namespace Request

variable {csr : Bytes} {key : Rsa.PrivateKey} {r : Request} {issuer : Name}
  {notBefore notAfter : Option Instant}

/-- The period, if there is one, does not end before it begins. -/
def InOrder (period : Option OptionalValidity) : Prop :=
  ∀ v ∈ period, ∀ start ∈ v.notBefore, ∀ stop ∈ v.notAfter,
    start.dateTime.toUnix ≤ stop.dateTime.toUnix

theorem Spans.inOrder {period : Option OptionalValidity} (h : Spans period notBefore notAfter)
    (hordered : ∀ start ∈ notBefore, ∀ stop ∈ notAfter, start.nanoseconds ≤ stop.nanoseconds) :
    InOrder period := by
  obtain ⟨hbefore, hafter, -⟩ := h
  intro v hv start hstart stop hstop
  obtain rfl := hv
  rw [Option.bind_some, hstart] at hbefore
  rw [Option.bind_some, hstop] at hafter
  cases hbefore with
  | some hstart =>
    cases hafter with
    | some hstop => exact hstart.toUnix_le hstop (hordered _ rfl _ rfl)

theorem decode?_template_iff {t : CertTemplate} {b : Bytes} (hr : Fits csr key r)
    (h : r.template issuer = .ok t) (hb : bounded (encode t) = .ok b) :
    decode? b = some t ↔ Valid issuer := by
  obtain ⟨hlength, rfl⟩ := bounded_eq_ok_iff.1 hb
  constructor
  · intro hread
    exact (valid_template_iff hr h).1 (of_decode? hread).1
  · intro hissuer
    exact decode?_encode ((valid_template_iff hr h).2 hissuer) hlength

theorem exists_certReqMsg_error {t : Instant} (ht : t ∈ r.notBefore ∨ t ∈ r.notAfter)
    (hout : ¬t.IsRepresentable) (certReqId : Int64) (issuer : Name) :
    ∃ f, r.certReqMsg certReqId issuer = .error f := by
  cases hmsg : r.certReqMsg certReqId issuer with
  | error f => exact ⟨f, rfl⟩
  | ok m =>
    obtain ⟨template, htemplate, -⟩ := bind_eq_ok_iff.1 hmsg
    obtain ⟨period, -, hperiod, -⟩ := template_eq_ok_iff.1 htemplate
    obtain ⟨hbefore, hafter⟩ := exists_validity_iff.1 ⟨period, hperiod⟩
    exact absurd (ht.elim (hbefore t) (hafter t)) hout

end Request

namespace Enrollment

variable {e : Enrollment} {f : Failure}

/-- A run whose request cannot be made ends before the first exchange. -/
theorem run_of_unprepared (h : e.requestMessage = .error f) (peer : Peer) :
    (∃ g, (e.run peer).1 = .error g) ∧ (e.run peer).2.exchanges = [] := by
  have hsteps : ∃ g, (e.steps peer).run e.start = (.error g, e.start) := by
    rw [steps, Step.run_bind_ok Step.run_get]
    cases hc : e.isCancelled e.start e.start.clock with
    | true => exact ⟨_, rfl⟩
    | false =>
      rw [requestMessage] at h
      simp only [Bool.false_eq_true, if_false, h]
      exact ⟨f, Step.run_bind_error (Step.run_ofExcept _)⟩
  obtain ⟨g, hsteps⟩ := hsteps
  rw [run_of_steps hsteps]
  exact ⟨⟨g, rfl⟩, rfl⟩

end Enrollment

namespace Client

variable {c : Client} {caName : String} {kind : Kind} {request : Request} {draws : Draws} {now : Clock}
  {cancelAt : Option Nat}

theorem call_of_unprepared (h : ∀ certReqId issuer, ∃ f, request.certReqMsg certReqId issuer = .error f)
    (peer : Peer) : ∃ f, c.call caName kind request draws now cancelAt peer = (.error f, []) := by
  unfold call
  cases he : c.enrollment caName kind request draws now cancelAt with
  | error f => exact ⟨f, rfl⟩
  | ok e =>
    obtain ⟨f, hf⟩ := h e.draws.certReqId e.descriptor.issuerDn
    rw [← (Enrollment.chosen_of_enrollment he).2.1] at hf
    obtain ⟨⟨g, hresult⟩, hnone⟩ := Enrollment.run_of_unprepared hf peer
    exact ⟨g, Prod.ext hresult hnone⟩

end Client

namespace Request

variable {csr : Bytes} {key : Rsa.PrivateKey} {r r₀ r₁ : Request}
  {notBefore notAfter : Option Instant} {keyUsage : Option (List Nat)} {purposes : Option (List Oid)}

/-- The bounds of an accepted period can be written exactly when they lie from 1970 to the last second
of 9999, and stand for their seconds when they are read back; otherwise the CA is not contacted. -/
theorem withValidity_faithful (hr : Prepared csr key r₀)
    (hw : r₀.withValidity notBefore notAfter = .ok r₁) (hr₁ : r = { r₁ with keyUsage, purposes }) :
    (∀ t, t ∈ notBefore ∨ t ∈ notAfter →
      ((∃ time, bound? (some t) = .ok (some time)) ↔ t.IsRepresentable) ∧
        ∀ time, bound? (some t) = .ok (some time) → time.Marks t) ∧
    ((∃ period, r.validity = .ok period) ↔
      ∀ t, t ∈ notBefore ∨ t ∈ notAfter → t.IsRepresentable) ∧
    (∀ issuer template b, r.template issuer = .ok template → bounded (encode template) = .ok b →
      Spans template.validity notBefore notAfter ∧ InOrder template.validity ∧
        (decode? b = some template ↔ Valid issuer)) ∧
    ∀ t, t ∈ notBefore ∨ t ∈ notAfter → ¬t.IsRepresentable →
      ∀ (c : Client) (caName : String) (kind : Kind) (draws : Draws) (now : Clock)
        (cancelAt : Option Nat) (peer : Peer),
        ∃ f, c.call caName kind r draws now cancelAt peer = (.error f, []) := by
  obtain ⟨hordered, rfl⟩ := withValidity_eq_ok_iff.1 hw
  have hfits : Fits csr key r := by
    rw [hr₁]
    exact ⟨hr.fits.decoded, hr.fits.paired, hr.fits.key_eq, hordered⟩
  have hbefore : r.notBefore = notBefore := by rw [hr₁]
  have hafter : r.notAfter = notAfter := by rw [hr₁]
  refine ⟨fun t _ => bound?_some_faithful t, ?_, ?_, ?_⟩
  · rw [exists_validity_iff, hbefore, hafter]
    simp only [or_imp, forall_and]
  · intro issuer template b htemplate hb
    obtain ⟨period, extensions, hperiod, -, rfl⟩ := template_eq_ok_iff.1 htemplate
    obtain ⟨hspans, -⟩ := spans_of_validity hperiod
    rw [hbefore, hafter] at hspans
    exact ⟨hspans, hspans.inOrder hordered, decode?_template_iff hfits htemplate hb⟩
  · intro t ht hout c caName kind draws now cancelAt peer
    rw [← hbefore, ← hafter] at ht
    exact Client.call_of_unprepared (exists_certReqMsg_error ht hout) peer

end Request

namespace Sample

open Request

theorem prepared_hurried : Prepared (encode hurried.request.csr) privateKey hurried.request :=
  .paired (by decide +kernel)

theorem valid_recipient : Valid session.recipient := by
  have hread : decode? (encode session.recipient) = some session.recipient := by decide +kernel
  exact (of_decode? hread).1

/-- From the last nanosecond before 2050 to the first second of it. -/
def turn : Request :=
  { hurried.request with
    notBefore := some (.ofSeconds 2524607999 999999999)
    notAfter := some (.ofSeconds 2524608000 0) }

theorem withValidity_turn :
    hurried.request.withValidity turn.notBefore turn.notAfter = .ok turn := by decide +kernel

def templateBytes (r : Request) (issuer : Name) : Except Failure Bytes := do
  bounded (encode (← r.template issuer))

/-- At the turn of 2050 the bounds are written in different forms. -/
theorem withValidity_faithful_turn :
    ∃ template b, turn.template session.recipient = .ok template ∧ bounded (encode template) = .ok b ∧
      decode? b = some template ∧
      template.validity =
        some ⟨some (.utc ⟨⟨2049, 12, 31, 23, 59, 59⟩⟩), some (.general ⟨⟨2050, 1, 1, 0, 0, 0⟩⟩)⟩ ∧
      Spans template.validity turn.notBefore turn.notAfter ∧ InOrder template.validity := by
  obtain ⟨b, hb⟩ := exists_of_isOk (by decide +kernel : (templateBytes turn session.recipient).isOk = true)
  obtain ⟨template, htemplate, hb⟩ := bind_eq_ok_iff.1 hb
  obtain ⟨-, -, hread, -⟩ := withValidity_faithful prepared_hurried withValidity_turn rfl
  obtain ⟨hspans, hordered, hiff⟩ := hread _ _ _ htemplate hb
  have hperiod : (turn.template session.recipient).map CertTemplate.validity =
      .ok (some ⟨some (.utc ⟨⟨2049, 12, 31, 23, 59, 59⟩⟩), some (.general ⟨⟨2050, 1, 1, 0, 0, 0⟩⟩)⟩) := by
    decide +kernel
  rw [htemplate] at hperiod
  exact ⟨template, b, htemplate, hb, hiff.2 valid_recipient, Except.ok.inj hperiod, hspans, hordered⟩

/-- A name with an attribute of type 1.2.3, whose contents have two bytes only. -/
def shortTypeName : Name :=
  ⟨[⟨[⟨Oid.ofArcs [1, 2, 3], ⟨.universal .utf8String, [0x78]⟩⟩]⟩]⟩

/-- The template for an issuer of such a name is not read back, though its bounds can be written. -/
theorem turn_not_read :
    hurried.request.withValidity turn.notBefore turn.notAfter = .ok turn ∧
      (∀ t, t ∈ turn.notBefore ∨ t ∈ turn.notAfter → t.IsRepresentable) ∧
      ∃ template b, turn.template shortTypeName = .ok template ∧ bounded (encode template) = .ok b ∧
        (decode? b : Option CertTemplate) = none := by
  refine ⟨withValidity_turn, ?_, ?_⟩
  · intro t ht
    simp only [turn, Option.mem_some_iff] at ht
    rcases ht with rfl | rfl
    · decide +kernel
    · decide +kernel
  · obtain ⟨b, hb⟩ := exists_of_isOk (by decide +kernel : (templateBytes turn shortTypeName).isOk = true)
    have hunread : (templateBytes turn shortTypeName).toOption >>= (decode? : Bytes → Option CertTemplate) =
        none := by
      decide +kernel
    rw [hb] at hunread
    obtain ⟨template, htemplate, hb⟩ := bind_eq_ok_iff.1 hb
    exact ⟨template, b, htemplate, hb, hunread⟩

end Sample

end PkiEnroll.Enroll
