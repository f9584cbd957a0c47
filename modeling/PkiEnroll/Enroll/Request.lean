import PkiEnroll.Cmp.Message
import PkiEnroll.Der.NamedBits
import PkiEnroll.Protection.Credential

namespace PkiEnroll.Enroll

open Der X509 Cmp Protection

structure Request where
  csr : CertificationRequest
  key : Rsa.PrivateKey
  notBefore : Option Instant := none
  notAfter : Option Instant := none
  /-- The key usages, by their bit numbers, when the request names none. -/
  keyUsage : Option (List Nat) := none
  /-- The extended key usages, when the request names none. -/
  purposes : Option (List Oid) := none
  deriving DecidableEq, Repr

namespace Request

def ofDer (csr : Bytes) (key : Rsa.PrivateKey) : Except Failure Request := do
  let csr : CertificationRequest ←
    orFail (.invalidRequest ("Invalid CSR: " ++ Failure.malformedDetail)) (decode? csr)
  let publicKey ← orFail (.invalidRequest "Only RSA subject keys are supported")
    (Rsa.PublicKey.ofInfo? csr.info.publicKey)
  if publicKey ≠ key.publicKey then
    throw (.invalidRequest "Private key does not match the CSR public key")
  return { csr, key }

/-- What is wrong with a key is wrong with the request. -/
def asInvalidRequest {α : Type} : Except Failure α → Except Failure α
  | .error (.configuration detail) => .error (.invalidRequest detail)
  | r => r

def ofPem (csrPem keyPem : Bytes) : Except Failure Request := do
  let isRequest (s : Pem.Section) := if s.label = .certificateRequest then some s.content else none
  let csr ←
    match Pem.first? isRequest (Pem.sections csrPem) with
    | .error p => throw (.invalidRequest ("Failed to parse CSR PEM: " ++ p.message))
    | .ok none => throw (.invalidRequest "No CSR found in PEM data")
    | .ok (some der) => pure der
  ofDer csr (← asInvalidRequest (privateKey keyPem))

/-- Asks for a period of validity; either bound may be open. -/
def withValidity (r : Request) (notBefore notAfter : Option Instant) : Except Failure Request :=
  match notBefore, notAfter with
  | some start, some stop =>
    if stop.nanoseconds < start.nanoseconds then
      .error (.invalidRequest "notBefore is after notAfter")
    else .ok { r with notBefore, notAfter }
  | _, _ => .ok { r with notBefore, notAfter }

def withKeyUsage (r : Request) (bits : List Nat) : Request := { r with keyUsage := some bits }

def withPurposes (r : Request) (purposes : List Oid) : Request := { r with purposes := some purposes }

def subject (r : Request) : Name := r.csr.info.subject

/-- Digital signature, non-repudiation and key encipherment. -/
def defaultKeyUsage : List Nat := [0, 1, 2]

def keyUsageExtension (bits : List Nat) : Extension :=
  let word := bits.foldl (fun n bit => n ||| 1 <<< bit) 0
  ⟨Extension.keyUsageId, false, ⟨encode (NamedBits.toBitString word)⟩⟩

def listedExtensions (r : Request) : Except Failure (List Extension) := do
  let lists := r.csr.info.attributes.members.filter (·.type = CertificationRequest.extensionRequestId)
  let parts ← (lists.flatMap (·.values.members)).mapM fun value =>
    orFail (.invalidRequest ("Invalid extensionRequest: " ++ Failure.malformedDetail))
      (Encoding.ofElement? value : Option (List Extension))
  return parts.flatten

/-- Adds an extension unless there is one of its kind. -/
def complete (extensions : List Extension) (e : Extension) : List Extension :=
  if extensions.any (·.id = e.id) then extensions else extensions ++ [e]

/-- The extensions listed, and usages in any case. -/
def extensions (r : Request) : Except Failure (List Extension) := do
  let listed ← r.listedExtensions
  return complete (complete listed (keyUsageExtension (r.keyUsage.getD defaultKeyUsage)))
    (.extendedKeyUsage (r.purposes.getD [Extension.clientAuth, Extension.serverAuth]))

def bound? (t : Option Instant) : Except Failure (Option Time) :=
  match t with
  | none => .ok none
  | some t => orFail .malformed (t.toDateTime?.map fun d => some (Time.ofDateTime d))

def validity (r : Request) : Except Failure (Option OptionalValidity) := do
  let notBefore ← bound? r.notBefore
  let notAfter ← bound? r.notAfter
  return if r.notBefore.isSome || r.notAfter.isSome then some ⟨notBefore, notAfter⟩ else none

def algorithm : AlgorithmIdentifier := ⟨Algorithm.sha256WithRsa, none⟩

def template (r : Request) (issuer : Name) : Except Failure CertTemplate := do
  let validity ← r.validity
  return {
    version := some 2
    serialNumber := some ⟨0⟩
    signingAlg := some algorithm
    issuer := some issuer
    validity
    subject := some r.subject
    publicKey := some r.csr.info.publicKey
    issuerUid := none
    subjectUid := none
    extensions := some (← r.extensions) }

/-- The message that asks `issuer` for the certificate; it is signed with the key to be certified. -/
def certReqMsg (r : Request) (certReqId : Int64) (issuer : Name) : Except Failure CertReqMsg := do
  let request : CertRequest := ⟨certReqId, ← r.template issuer, none⟩
  match sign r.key (encode request) with
  | .error e => throw (.invalidRequest ("Proof of possession failed: " ++ e.message))
  | .ok signature =>
    return ⟨request, some (.signature ⟨algorithm, BitString.ofBytes signature⟩), none⟩

def masked (r : Request) : String :=
  Text.described "EnrollmentRequest"
    [("subject", Text.quoted r.subject.text), ("private_key", Text.mask), ("not_before", "None"),
      ("not_after", "None")]

end Request

end PkiEnroll.Enroll
