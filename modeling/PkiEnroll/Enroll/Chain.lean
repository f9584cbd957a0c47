import PkiEnroll.Pem.Section
import PkiEnroll.Protection.Signature
import PkiEnroll.X509.NameText

namespace PkiEnroll.Enroll

open Der X509 Cmp Protection

/-- The issued certificate with the intermediate ones that follow it, each the issuer of the one
before, and the other certificates of the CA, the root among them. -/
structure Model where
  certificate : Certificate
  intermediates : List Certificate
  trusted : List Certificate
  deriving DecidableEq, Repr

namespace Model

def chain (m : Model) : List Certificate := m.certificate :: m.intermediates

def pemBundle (cs : List Certificate) : String :=
  String.join (cs.map fun c => Pem.encode ⟨.certificate, encode c⟩)

def chainPem (m : Model) : String := pemBundle m.chain

def trustedPem (m : Model) : String := pemBundle m.trusted

end Model

/-- Whether `issuer` is named as the issuer of `c` and signed it. -/
def issues (c issuer : Certificate) : Bool :=
  issuer.subject = c.issuer &&
    match certificateKey issuer >>= verifyCertificate c with
    | .ok () => true
    | .error _ => false

/-- A certificate whose issuer is itself ends a chain. -/
def isSelfIssued (c : Certificate) : Bool := c.subject = c.issuer

def issuerFailure (c : Certificate) (candidates : List Certificate) : Failure :=
  .protection <|
    if candidates.any (·.subject = c.issuer) then
      c.subject.text ++ " is not signed by " ++ c.issuer.text
    else
      "Server response does not contain proper root CA certificate: " ++ c.issuer.text ++ " not found"

/-- Walks from a certificate to a root, which stays among the candidates; the other issuers on the
way leave them. -/
def walk : Nat → Certificate → List Certificate → Except Failure (List Certificate × List Certificate)
  | 0, c, candidates => .error (issuerFailure c candidates)
  | bound + 1, c, candidates =>
    match candidates.find? (issues c) with
    | none => .error (issuerFailure c candidates)
    | some issuer =>
      if isSelfIssued issuer then .ok ([], candidates)
      else do
        let (chain, trusted) ← walk bound issuer (candidates.eraseP (issues c))
        return (issuer :: chain, trusted)

/-- Arranges an issued certificate and the CA's certificates. Each step of the walk takes one away,
so there are no more steps than certificates. -/
def buildModel (certificate : Certificate) (caCertificates : List Certificate) : Except Failure Model := do
  let (intermediates, trusted) ← walk (caCertificates.length + 1) certificate caCertificates
  return ⟨certificate, intermediates, trusted⟩

end PkiEnroll.Enroll
