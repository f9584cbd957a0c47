import PkiEnroll.Enroll.Request
import PkiEnroll.Proofs.Cmp.Codec
import PkiEnroll.Proofs.Cmp.Failure
import PkiEnroll.Proofs.Der.Calendar

namespace PkiEnroll.X509

open Der

theorem CertificationRequest.valid_of_decode? {b : Bytes} {r : CertificationRequest}
    (h : decode? b = some r) : Valid r.info.subject ∧ Valid r.info.publicKey := by
  -- the attributes are a set under a tag of its own, which tidying takes for a sequence; so the fields
  -- are taken one by one and not by a law for the whole
  obtain ⟨_, -, h⟩ := Option.bind_eq_some_iff.1 h
  obtain ⟨-, h⟩ := Option.ite_none_right_eq_some.1 h
  obtain ⟨_, -, h⟩ := Fields.read?_eq_some_iff.1 h
  obtain ⟨info, _, hinfo, h⟩ := Fields.bind_eq_some_iff.1 h
  obtain ⟨_, _, -, h⟩ := Fields.bind_eq_some_iff.1 h
  obtain ⟨_, _, -, h⟩ := Fields.bind_eq_some_iff.1 h
  obtain ⟨rfl, -⟩ := Prod.mk.inj (Option.some.inj h)
  obtain ⟨_, -, hinfo⟩ := Fields.required_eq_some_iff.1 hinfo
  obtain ⟨-, hinfo⟩ := Option.ite_none_right_eq_some.1 hinfo
  obtain ⟨_, -, hinfo⟩ := Fields.read?_eq_some_iff.1 hinfo
  obtain ⟨version, _, -, hinfo⟩ := Fields.bind_eq_some_iff.1 hinfo
  obtain ⟨subject, _, hsubject, hinfo⟩ := Fields.bind_eq_some_iff.1 hinfo
  obtain ⟨publicKey, _, hkey, hinfo⟩ := Fields.bind_eq_some_iff.1 hinfo
  obtain ⟨attributes, _, -, hinfo⟩ := Fields.bind_eq_some_iff.1 hinfo
  obtain ⟨_, -, hsubject⟩ := Fields.required_eq_some_iff.1 hsubject
  obtain ⟨_, -, hkey⟩ := Fields.required_eq_some_iff.1 hkey
  cases attributes with
  | none => cases hinfo
  | some attributes =>
    dsimp only at hinfo
    split at hinfo
    next =>
      obtain ⟨rfl, -⟩ := Prod.mk.inj (Option.some.inj hinfo)
      exact ⟨(LawfulEncoding.of_ofElement? hsubject).1, (LawfulEncoding.of_ofElement? hkey).1⟩
    next => cases hinfo

end PkiEnroll.X509

namespace PkiEnroll.Enroll

open Der X509 Cmp Protection

namespace Request

variable {csr : Bytes} {key : Rsa.PrivateKey} {r r' : Request} {issuer : Name}

theorem ofDer_eq_ok_iff :
    ofDer csr key = .ok r ↔
      ∃ c, decode? csr = some c ∧ Rsa.PublicKey.ofInfo? c.info.publicKey = some key.publicKey ∧
        r = { csr := c, key } := by
  unfold ofDer
  rw [bind_eq_ok_iff]
  refine exists_congr fun c => ?_
  rw [orFail_eq_ok_iff, bind_eq_ok_iff]
  refine and_congr_right fun _ => ?_
  constructor
  · intro h
    obtain ⟨publicKey, hkey, h⟩ := h
    rw [orFail_eq_ok_iff] at hkey
    split at h
    next => cases h
    next hsame =>
      rw [not_not.1 hsame] at hkey
      exact ⟨hkey, (Except.ok.inj h).symm⟩
  · intro h
    obtain ⟨hkey, rfl⟩ := h
    exact ⟨_, orFail_eq_ok_iff.2 hkey, if_neg (not_not.2 rfl)⟩

theorem withValidity_eq_ok_iff {notBefore notAfter : Option Instant} :
    r.withValidity notBefore notAfter = .ok r' ↔
      (∀ start ∈ notBefore, ∀ stop ∈ notAfter, start.nanoseconds ≤ stop.nanoseconds) ∧
        r' = { r with notBefore, notAfter } := by
  cases notBefore with
  | none => simp [withValidity, eq_comm]
  | some start =>
    cases notAfter with
    | none => simp [withValidity, eq_comm]
    | some stop =>
      by_cases h : stop.nanoseconds < start.nanoseconds
      · simp [withValidity, h]
      · simp [withValidity, h, not_lt.1 h, eq_comm]

/-- The requests of an encoded request and its key, with the caller's wishes in any order. -/
inductive Prepared (csr : Bytes) (key : Rsa.PrivateKey) : Request → Prop
  | paired {r : Request} (h : ofDer csr key = .ok r) : Prepared csr key r
  | validity {r r' : Request} {notBefore notAfter : Option Instant} (h : Prepared csr key r)
      (hw : r.withValidity notBefore notAfter = .ok r') : Prepared csr key r'
  | keyUsage {r : Request} (bits : List Nat) (h : Prepared csr key r) :
      Prepared csr key (r.withKeyUsage bits)
  | purposes {r : Request} (purposes : List Oid) (h : Prepared csr key r) :
      Prepared csr key (r.withPurposes purposes)

/-- What holds of a request whatever the wishes are: it is the encoded one, its key is the one certified,
and its period is in order. -/
structure Fits (csr : Bytes) (key : Rsa.PrivateKey) (r : Request) : Prop where
  decoded : decode? csr = some r.csr
  paired : Rsa.PublicKey.ofInfo? r.csr.info.publicKey = some key.publicKey
  key_eq : r.key = key
  ordered : ∀ start ∈ r.notBefore, ∀ stop ∈ r.notAfter, start.nanoseconds ≤ stop.nanoseconds

theorem Prepared.fits (h : Prepared csr key r) : Fits csr key r := by
  induction h with
  | paired h =>
    obtain ⟨c, hdecoded, hpaired, rfl⟩ := ofDer_eq_ok_iff.1 h
    exact ⟨hdecoded, hpaired, rfl, fun _ hstart => nomatch hstart⟩
  | validity _ hw ih =>
    obtain ⟨hordered, rfl⟩ := withValidity_eq_ok_iff.1 hw
    exact ⟨ih.decoded, ih.paired, ih.key_eq, hordered⟩
  | keyUsage _ _ ih => exact ⟨ih.decoded, ih.paired, ih.key_eq, ih.ordered⟩
  | purposes _ _ ih => exact ⟨ih.decoded, ih.paired, ih.key_eq, ih.ordered⟩

theorem valid_listedExtensions {es : List Extension} (h : r.listedExtensions = .ok es) : Valid es := by
  obtain ⟨parts, hparts, h⟩ := bind_eq_ok_iff.1 h
  obtain rfl := Except.ok.inj h
  have hread := mapM_eq_ok_iff.1 hparts
  intro e he
  obtain ⟨part, hpart, he⟩ := List.mem_flatten.1 he
  obtain ⟨i, hi, rfl⟩ := List.mem_iff_getElem.1 hpart
  have hvalue := hread.get (hread.length_eq ▸ hi) hi
  exact (LawfulEncoding.of_ofElement? (orFail_eq_ok_iff.1 hvalue)).1 e he

theorem valid_complete {es : List Extension} {e : Extension} (hes : Valid es) (he : Valid e) :
    Valid (complete es e) := by
  unfold complete
  split
  · exact hes
  · exact List.forall_mem_append.2 ⟨hes, List.forall_mem_singleton.2 he⟩

theorem valid_extensions {es : List Extension} (h : r.extensions = .ok es) : Valid es := by
  obtain ⟨listed, hlisted, h⟩ := bind_eq_ok_iff.1 h
  obtain rfl := Except.ok.inj h
  have hkeyUsage : Extension.keyUsageId.isValid = true := by decide
  have hpurposes : Extension.extendedKeyUsageId.isValid = true := by decide
  exact valid_complete (valid_complete (valid_listedExtensions hlisted) ⟨hkeyUsage, trivial⟩)
    ⟨hpurposes, trivial⟩

theorem bound?_some_eq_ok_iff {t : Instant} {o : Option Time} :
    bound? (some t) = .ok o ↔ ∃ d, t.toDateTime? = some d ∧ o = some (.ofDateTime d) := by
  rw [bound?, orFail_eq_ok_iff, Option.map_eq_some_iff]
  simp only [eq_comm]

/-- A bound is written if it is representable, and as a time that stands for its second. -/
theorem bound?_some_faithful (t : Instant) :
    ((∃ time, bound? (some t) = .ok (some time)) ↔ t.IsRepresentable) ∧
      ∀ time, bound? (some t) = .ok (some time) → time.Marks t := by
  constructor
  · simp [bound?_some_eq_ok_iff, ← Instant.exists_toDateTime?_iff]
  · intro time h
    obtain ⟨d, hd, hsame⟩ := bound?_some_eq_ok_iff.1 h
    obtain rfl := Option.some.inj hsame
    exact Time.marks_ofDateTime hd

theorem marks_of_bound? {bound : Option Instant} {o : Option Time} (h : bound? bound = .ok o) :
    Option.Rel Time.Marks o bound ∧ Valid o := by
  cases bound with
  | none =>
    obtain rfl := Except.ok.inj h
    exact ⟨.none, by simp⟩
  | some t =>
    obtain ⟨d, hd, rfl⟩ := bound?_some_eq_ok_iff.1 h
    obtain ⟨-, hvalid, -⟩ := Instant.toDateTime?_eq_some_iff.1 hd
    refine ⟨.some (Time.marks_ofDateTime hd), ?_⟩
    intro time htime
    obtain rfl := Option.some.inj htime
    exact Time.valid_ofDateTime hvalid

theorem exists_bound?_iff {bound : Option Instant} :
    (∃ o, bound? bound = .ok o) ↔ ∀ t ∈ bound, t.IsRepresentable := by
  cases bound with
  | none => simp [bound?]
  | some t => simp [bound?_some_eq_ok_iff, ← Instant.exists_toDateTime?_iff]

/-- A period of validity that stands for the bounds asked for. It is left out if both are open. -/
structure Spans (period : Option OptionalValidity) (start stop : Option Instant) : Prop where
  notBefore : Option.Rel Time.Marks (period.bind OptionalValidity.notBefore) start
  notAfter : Option.Rel Time.Marks (period.bind OptionalValidity.notAfter) stop
  absent : period = none ↔ start = none ∧ stop = none

theorem spans_of_validity {period : Option OptionalValidity} (h : r.validity = .ok period) :
    Spans period r.notBefore r.notAfter ∧ Valid period := by
  obtain ⟨notBefore, hbefore, h⟩ := bind_eq_ok_iff.1 h
  obtain ⟨notAfter, hafter, h⟩ := bind_eq_ok_iff.1 h
  obtain rfl := Except.ok.inj h
  obtain ⟨hbefore, hvalidBefore⟩ := marks_of_bound? hbefore
  obtain ⟨hafter, hvalidAfter⟩ := marks_of_bound? hafter
  split
  next hsome =>
    refine ⟨⟨hbefore, hafter, ?_⟩, ?_⟩
    · simpa [imp_iff_not_or, Option.isSome_iff_ne_none] using hsome
    · intro v hv
      obtain rfl := Option.some.inj hv
      exact ⟨hvalidBefore, hvalidAfter⟩
  next hnone =>
    have hopen : r.notBefore = none ∧ r.notAfter = none := by simpa using hnone
    rw [hopen.1, hopen.2]
    exact ⟨⟨Option.Rel.none, Option.Rel.none, by simp⟩, by simp⟩

theorem exists_validity_iff :
    (∃ period, r.validity = .ok period) ↔
      (∀ t ∈ r.notBefore, t.IsRepresentable) ∧ ∀ t ∈ r.notAfter, t.IsRepresentable := by
  rw [← exists_bound?_iff, ← exists_bound?_iff]
  constructor
  · intro h
    obtain ⟨period, h⟩ := h
    obtain ⟨notBefore, hbefore, h⟩ := bind_eq_ok_iff.1 h
    obtain ⟨notAfter, hafter, -⟩ := bind_eq_ok_iff.1 h
    exact ⟨⟨_, hbefore⟩, ⟨_, hafter⟩⟩
  · intro h
    obtain ⟨⟨notBefore, hbefore⟩, ⟨notAfter, hafter⟩⟩ := h
    exact ⟨_, bind_eq_ok_iff.2 ⟨_, hbefore, bind_eq_ok_iff.2 ⟨_, hafter, rfl⟩⟩⟩

def filledTemplate (r : Request) (issuer : Name) (validity : Option OptionalValidity)
    (extensions : List Extension) : CertTemplate where
  version := some 2
  serialNumber := some ⟨0⟩
  signingAlg := some algorithm
  issuer := some issuer
  validity
  subject := some r.subject
  publicKey := some r.csr.info.publicKey
  issuerUid := none
  subjectUid := none
  extensions := some extensions

theorem template_eq_ok_iff {t : CertTemplate} :
    r.template issuer = .ok t ↔ ∃ validity extensions, r.validity = .ok validity ∧
      r.extensions = .ok extensions ∧ t = r.filledTemplate issuer validity extensions := by
  constructor
  · intro h
    obtain ⟨validity, hvalidity, h⟩ := bind_eq_ok_iff.1 h
    obtain ⟨extensions, hextensions, h⟩ := bind_eq_ok_iff.1 h
    exact ⟨_, _, hvalidity, hextensions, (Except.ok.inj h).symm⟩
  · intro h
    obtain ⟨validity, extensions, hvalidity, hextensions, rfl⟩ := h
    exact bind_eq_ok_iff.2 ⟨_, hvalidity, bind_eq_ok_iff.2 ⟨_, hextensions, rfl⟩⟩

theorem valid_algorithm : Valid algorithm := by
  have hoid : Algorithm.sha256WithRsa.isValid = true := by decide
  exact ⟨hoid, fun _ _ => trivial⟩

/-- Of all that a template holds, only the issuer may be a name that is not read back. -/
theorem valid_template_iff {t : CertTemplate} (hr : Fits csr key r) (h : r.template issuer = .ok t) :
    Valid t ↔ Valid issuer := by
  obtain ⟨validity, extensions, hvalidity, hextensions, rfl⟩ := template_eq_ok_iff.1 h
  obtain ⟨hsubject, hkey⟩ := CertificationRequest.valid_of_decode? hr.decoded
  obtain ⟨-, hperiod⟩ := spans_of_validity hvalidity
  have hserial : Valid (⟨0⟩ : SerialNumber) := by
    change (Integer.encode 0).length ≤ 21
    decide
  constructor
  · intro hvalid
    obtain ⟨-, -, -, hissuer, -⟩ := hvalid
    exact hissuer issuer rfl
  · intro hissuer
    have hsome {α : Type} [Checked α] {a : α} : Valid a → Valid (some a) := valid_some_iff.2
    exact ⟨hsome trivial, hsome hserial, hsome valid_algorithm, hsome hissuer, hperiod, hsome hsubject,
      hsome hkey, valid_none, valid_none, hsome (valid_extensions hextensions)⟩

end Request

end PkiEnroll.Enroll
