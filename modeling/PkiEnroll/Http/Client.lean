import PkiEnroll.Http.Exchange
import PkiEnroll.Http.Request
import PkiEnroll.Protection.Credential

namespace PkiEnroll.Http

open Der X509 Cmp Protection

structure Client where
  headers : List (String × String)
  limit : Nat
  deriving DecidableEq, Repr

namespace Client

def unbuildable (why : String) : Failure := .configuration ("Failed to build HTTP client: " ++ why)

/-- A text of trusted certificates: every block is in order, and every certificate is one. -/
def isTrustText (pem : Bytes) : Bool :=
  (Pem.sections pem).all fun
    | .error _ => false
    | .ok ⟨.certificate, content⟩ => (decode? content : Option Certificate).isSome
    | .ok _ => true

/-- The certificates and the last private key of an identity. Nothing else may be in its texts. -/
def identityParts? (identity : Config.Identity) : Option (List Bytes × KeyForm × Bytes) := do
  let sections ← (Pem.sections (identity.certificate ++ 10 :: identity.key)).mapM Except.toOption
  let isUsed (s : Pem.Section) : Bool := s.label = .certificate || (keyForm? s.label).isSome
  if !sections.all isUsed then none
  else
    let certificates := (sections.filter (·.label = .certificate)).map Pem.Section.content
    let keys := sections.filterMap fun s => (keyForm? s.label).map fun form => (form, s.content)
    if certificates.isEmpty then none else some (certificates, ← keys.getLast?)

/-- Keys that can be shown to a server: RSA keys of 2048 bits and more. -/
def channelKey? (form : KeyForm) (content : Bytes) : Option Rsa.PublicKey := do
  let key ←
    match form with
    | .pkcs1 => Rsa.PrivateKey.ofPkcs1? content
    | .pkcs8 => Rsa.PrivateKey.ofPkcs8? content
    | .sec1 => none
  if 2048 ≤ Bytes.bitLength key.publicKey.modulus ∧ 65537 ≤ key.publicKey.exponent then
    some key.publicKey
  else none

def isUsable (certificates : List Bytes) (form : KeyForm) (content : Bytes) : Bool :=
  match certificates.head? >>= decode?, channelKey? form content with
  | some (c : Certificate), some key => Rsa.PublicKey.ofInfo? c.publicKey = some key
  | _, _ => false

def checkTrust (trust : Config.Trust) : Except Failure Unit :=
  match trust with
  | .explicit texts =>
    if texts.all isTrustText then .ok () else .error (unbuildable "invalid trusted certificate")
  | _ => .ok ()

def ofConfig (c : Config) : Except Failure Client := do
  let identity ← c.identity.mapM fun identity =>
    orFail (.configuration "Failed to create client identity: invalid identity")
      (identityParts? identity)
  checkTrust c.trust
  if let some (certificates, form, content) := identity then
    if !isUsable certificates form content then throw (unbuildable "unusable client identity")
  return ⟨c.headers, c.maxResponseSize⟩

/-- A client whose own limit does not count. -/
def withDefaultLimit (c : Client) : Client := { c with limit := ({} : Config).maxResponseSize }

def request (c : Client) (u : Url) (message : Bytes) : Request := .ofMessage c.headers u message

def receive (c : Client) : Option Response → Except String Bytes
  | none => .error connectionFailure
  | some r => accept c.limit r

def exchange (c : Client) (r : Option Response) : Except Failure Bytes :=
  (c.receive r).mapError Failure.transport

end Client

end PkiEnroll.Http
