import PkiEnroll.Cmp.Message
import PkiEnroll.Protection.Credential
import PkiEnroll.Protection.PasswordMac

namespace PkiEnroll.Protection

open Der X509 Cmp

/-- A signing client and the certificate to which it holds its CA. -/
structure SigningPair where
  credential : Credential
  pinned : Certificate
  deriving DecidableEq, Repr

namespace SigningPair

def algorithm : AlgorithmIdentifier := ⟨Algorithm.sha256WithRsa, some Algorithm.nullParameters⟩

/-- A certificate that the pinned one issued and whose key can sign. -/
def delegate? (pinned : Certificate) (pinnedKey : Rsa.PublicKey) (c : Certificate) : Option Rsa.PublicKey :=
  if c.issuer = pinned.subject then
    match verifyCertificate c pinnedKey with
    | .ok () => (certificateKey c).toOption
    | .error _ => none
  else none

/-- The keys whose signature a response may carry: that of the pinned certificate, and those of
accompanying certificates that it issued. -/
def responderKeys (p : SigningPair) (extraCerts : List Certificate) : Except Failure (List Rsa.PublicKey) := do
  let pinnedKey ← certificateKey p.pinned
  return pinnedKey :: extraCerts.filterMap (delegate? p.pinned pinnedKey)

/-- Tries key after key; the failure is that of the last. -/
def verifyAny (algorithm : Oid) (data signature : Bytes) (failure : Failure) :
    List Rsa.PublicKey → Except Failure Unit
  | [] => .error failure
  | key :: keys =>
    match verifySignature algorithm key data signature with
    | .ok () => .ok ()
    | .error e => verifyAny algorithm data signature e keys

def verify (p : SigningPair) (algorithm : AlgorithmIdentifier) (data signature : Bytes)
    (extraCerts : List Certificate) : Except Failure Unit := do
  if algorithm.oid = Algorithm.passwordBasedMac then
    throw (.protection "expected signature protection, got PasswordBasedMac")
  verifyAny algorithm.oid data signature (.protection "signature verification failed")
    (← p.responderKeys extraCerts)

end SigningPair

inductive Context where
  | sharedSecret (secret : SharedSecret)
  | signature (pair : SigningPair)
  deriving DecidableEq, Repr

namespace Context

/-- A context that signs. Without a pinned certificate there is nothing to verify responses with. -/
def ofCredential (credential : Credential) (pinned : Option Certificate) (caName : String) :
    Except Failure Context :=
  match pinned with
  | none =>
    .error (.configuration (caName ++ " has no caCertificate to verify signed responses with"))
  | some certificate => .ok (signature ⟨credential, certificate⟩)

def algorithm : Context → AlgorithmIdentifier
  | sharedSecret s => s.algorithm
  | signature _ => SigningPair.algorithm

def senderKid : Context → Option Bytes
  | sharedSecret s => some s.reference
  | signature _ => none

def sender : Context → Option Name
  | sharedSecret _ => none
  | signature p => some p.credential.certificate.subject

def extraCerts : Context → List Certificate
  | sharedSecret _ => []
  | signature p => [p.credential.certificate]

def protect : Context → Bytes → Except Failure Bytes
  | sharedSecret s, part => s.protect part
  | signature p, part => sign p.credential.key part

def verify (c : Context) (algorithm : AlgorithmIdentifier) (part protection : Bytes)
    (extraCerts : List Certificate) : Except Failure Unit :=
  match c with
  | sharedSecret s => s.verify algorithm part protection
  | signature p => p.verify algorithm part protection extraCerts

def masked? : Context → Option String
  | sharedSecret s => some s.masked
  | signature _ => none

def complete (c : Context) (header : Header) : Header :=
  { header with
    protectionAlg := some c.algorithm
    senderKid := (c.senderKid.map OctetString.mk) <|> header.senderKid }

def protectMessage (c : Context) (m : Message) : Except Failure Message := do
  let header := c.complete m.header
  let extraCerts := if c.extraCerts.isEmpty then m.extraCerts else some c.extraCerts
  let protection ← c.protect (← Message.protectedPart header m.body)
  return { header, body := m.body, protection := some (BitString.ofBytes protection), extraCerts }

def verifyMessage (c : Context) (m : Message) (raw : Bytes) : Except Failure Unit := do
  let algorithm ← orFail (.protection "response has no protectionAlg") m.header.protectionAlg
  let bits ← orFail (.protection "response is not protected") m.protection
  let protection ← orFail (.protection "protection has unused bits") bits.toBytes?
  c.verify algorithm (← Message.receivedPart raw) protection m.extraCertList

end Context

end PkiEnroll.Protection
