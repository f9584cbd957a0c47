import PkiEnroll.Cmp.Failure
import PkiEnroll.Pem.Section
import PkiEnroll.Protection.Signature
import PkiEnroll.Text.Quoted
import PkiEnroll.X509.CertificationRequest
import PkiEnroll.X509.NameText

namespace PkiEnroll.Protection

open Der X509 Cmp

/-- The certificates of a text, not yet interpreted. Blocks that cannot be decoded are passed over. -/
def certificateBlocks (pem : Bytes) : Except Failure (List Bytes) :=
  let blocks := (Pem.sections pem).filterMap fun
    | .ok ⟨.certificate, content⟩ => some content
    | _ => none
  if blocks.isEmpty then .error (.configuration "No certificates found in PEM data") else .ok blocks

def certificates (pem : Bytes) : Except Failure (List Certificate) := do
  (← certificateBlocks pem).mapM fun block =>
    orFail (.configuration ("Invalid certificate: " ++ Failure.malformedDetail)) (decode? block)

/-- The first block that `pick` wants; nothing wrong may stand before it. -/
def firstBlock {α : Type} (pick : Pem.Section → Option α) (what : String) (pem : Bytes) :
    Except Failure α :=
  match Pem.first? pick (Pem.sections pem) with
  | .error p => .error (.configuration ("Failed to parse PEM: " ++ p.message))
  | .ok none => .error (.configuration ("No " ++ what ++ " found in PEM data"))
  | .ok (some a) => .ok a

inductive KeyForm where
  | pkcs1
  | pkcs8
  | sec1
  deriving DecidableEq, Repr

def keyForm? : Pem.Label → Option KeyForm
  | .rsaPrivateKey => some .pkcs1
  | .privateKey => some .pkcs8
  | .ecPrivateKey => some .sec1
  | _ => none

def privateKeyBlock (pem : Bytes) : Except Failure (KeyForm × Bytes) :=
  firstBlock (fun s => (keyForm? s.label).map fun form => (form, s.content)) "private key" pem

def privateKey (pem : Bytes) : Except Failure Rsa.PrivateKey := do
  let invalid (why : String) : Failure := .configuration ("Invalid RSA private key: " ++ why)
  match ← privateKeyBlock pem with
  | (.pkcs1, content) => orFail (invalid Failure.malformedDetail) (Rsa.PrivateKey.ofPkcs1? content)
  | (.pkcs8, content) => orFail (invalid Failure.malformedDetail) (Rsa.PrivateKey.ofPkcs8? content)
  | (.sec1, _) => throw (invalid "only RSA keys are supported")

def certificationRequest (pem : Bytes) : Except Failure CertificationRequest := do
  let block ← firstBlock (fun s => if s.label = .certificateRequest then some s.content else none)
    "certificate request" pem
  orFail (.configuration ("Invalid certificate request: " ++ Failure.malformedDetail)) (decode? block)

/-- A certificate with the private key that belongs to it. -/
structure Credential where
  certificate : Certificate
  key : Rsa.PrivateKey
  deriving DecidableEq, Repr

namespace Credential

def ofParts (certificate : Certificate) (key : Rsa.PrivateKey) : Except Failure Credential := do
  match certificateKey certificate with
  | .error e => throw (.configuration ("Unusable credential: " ++ e.message))
  | .ok publicKey =>
    if publicKey = key.publicKey then return ⟨certificate, key⟩
    throw (.configuration "Private key does not match the credential certificate")

def ofPem (certificatePem keyPem : Bytes) : Except Failure Credential := do
  let certificate ← orFail (.configuration "No certificate found in PEM data")
    (← certificates certificatePem).head?
  ofParts certificate (← privateKey keyPem)

def masked (c : Credential) : String :=
  Text.described "ClientCredential"
    [("subject", Text.quoted c.certificate.subject.text), ("private_key", Text.mask)]

end Credential

end PkiEnroll.Protection
