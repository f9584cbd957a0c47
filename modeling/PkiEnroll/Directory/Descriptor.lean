import PkiEnroll.Directory.Readers
import PkiEnroll.Protection.Context

namespace PkiEnroll.Directory

open Der X509 Cmp Protection

inductive Mode where
  /-- Requests go through a registration authority. -/
  | ra
  | client
  deriving DecidableEq, Repr

namespace Mode

def name : Mode → String
  | ra => "RA"
  | client => "CLIENT"

def all : List Mode := [ra, client]

def ofName? (s : String) : Option Mode := all.find? (·.name = s)

end Mode

inductive Authentication where
  /-- An initial authentication key, and the reference value that names it. -/
  | sharedSecret (iak rv : String)
  | signature (credential : Credential)
  deriving DecidableEq, Repr

def Authentication.masked : Authentication → String
  | sharedSecret _ _ => Text.described "SharedSecret" [("iak", Text.mask), ("rv", Text.mask)]
  | signature credential => "Signature(" ++ credential.masked ++ ")"

structure Descriptor where
  caName : String
  url : Url
  issuerDn : Name
  mode : Mode
  authentication : Authentication
  caCertificate : Option Certificate
  implicitConfirm : Bool
  deriving DecidableEq, Repr

/-- What is said of a CA before it is checked. -/
structure Draft where
  caName : Option String := none
  url : Option String := none
  issuerDn : Option String := none
  mode : Mode := .client
  authentication : Option Authentication := none
  caCertificate : Option Certificate := none
  implicitConfirm : Option Bool := none

namespace Draft

def maxNameLength : Nat := 128

def maxSecretLength : Nat := 256

/-- Lengths are counted in characters. -/
def hasLength (bound : Nat) (s : String) : Bool := s.length ≠ 0 && s.length ≤ bound

def check (ok : Bool) (message : String) : Except Failure Unit :=
  if ok then .ok () else .error (.configuration message)

/-- Messages are sent to hosts only, over http or https. -/
def checkedUrl (read : Readers) (caName text : String) : Except Failure Url := do
  let url ← (read.url text).mapError fun problem =>
    Failure.configuration ("Invalid url for " ++ caName ++ ": " ++ problem)
  check ((url.scheme = .http || url.scheme = .https) && url.host.isSome)
    ("url for " ++ caName ++ " must be an absolute http or https URL")
  return url

def checkAuthentication (caName : String) (pinned : Option Certificate) :
    Authentication → Except Failure Unit
  | .sharedSecret iak rv => do
    check (hasLength maxSecretLength iak) ("iak for " ++ caName ++ " must be 1..=256 characters")
    check (hasLength maxSecretLength rv) ("rv for " ++ caName ++ " must be 1..=256 characters")
  | .signature _ =>
    check pinned.isSome
      ("caCertificate is required for signature authentication of " ++ caName)

end Draft

namespace Descriptor

open Draft in
def ofDraft (d : Draft) (read : Readers := .standard) : Except Failure Descriptor := do
  let required {α : Type} (what : String) (field : Option α) : Except Failure α :=
    orFail (.configuration (what ++ " is required" )) field
  let caName ← required "caName" d.caName
  check (hasLength maxNameLength caName) "caName must be 1..=128 characters"
  let missing {α : Type} (what : String) (field : Option α) : Except Failure α :=
    orFail (.configuration (what ++ " is required for " ++ caName)) field
  let url ← checkedUrl read caName (← missing "url" d.url)
  let issuerDn ←
    orFail (.configuration ("Invalid issuerDN for " ++ caName ++ ": " ++ Failure.malformedDetail))
      (read.name (← missing "issuerDN" d.issuerDn))
  check (!issuerDn.rdns.isEmpty) ("issuerDN for " ++ caName ++ " must not be empty")
  let authentication ← missing "authentication" d.authentication
  checkAuthentication caName d.caCertificate authentication
  return {
    caName, url, issuerDn, mode := d.mode, authentication, caCertificate := d.caCertificate
    implicitConfirm := d.implicitConfirm.getD true }

def masked (d : Descriptor) : String :=
  Text.described "CaServerDescriptor"
    [("ca_name", Text.quoted d.caName), ("url", Text.quoted d.url.text),
      ("issuer_dn", Text.quoted d.issuerDn.text), ("ca_mode", d.mode.name),
      ("authentication", d.authentication.masked), ("implicit_confirm", toString d.implicitConfirm)]

/-- The context that protects an enrollment. Salt and iteration count are drawn for a shared secret. -/
def context (d : Descriptor) (salt : Bytes) (iterations : UInt32) : Except Failure Context :=
  match d.authentication with
  | .sharedSecret iak rv =>
    .ok (.sharedSecret ⟨Bytes.ofString iak, Bytes.ofString rv, salt, iterations⟩)
  | .signature credential => Context.ofCredential credential d.caCertificate d.caName

end Descriptor

end PkiEnroll.Directory
