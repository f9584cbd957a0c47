import PkiEnroll.Cmp.Failure
import PkiEnroll.Der.Integer
import PkiEnroll.Hash.Sha1
import PkiEnroll.Hash.Sha2
import PkiEnroll.Text.Quoted
import PkiEnroll.X509.Algorithm

namespace PkiEnroll.Protection

open Der X509 Cmp Hash

structure PbmParameter where
  salt : OctetString
  oneWay : AlgorithmIdentifier
  iterations : UInt32
  mac : AlgorithmIdentifier
  deriving DecidableEq, Repr

instance : Content PbmParameter where
  tag := sequenceTag
  content p := encode p.salt ++ encode p.oneWay ++ encode p.iterations ++ encode p.mac
  ofContent? := Fields.read? do
    let salt ← Fields.required
    let oneWay ← Fields.required
    let iterations ← Fields.required
    let mac ← Fields.required
    return ⟨salt, oneWay, iterations, mac⟩

/-- What one side uses when it sends: the secret, the reference under which the other side knows
it, and the parameters of the key derivation. -/
structure SharedSecret where
  secret : Bytes
  reference : Bytes
  salt : Bytes
  iterations : UInt32
  deriving DecidableEq, Repr

namespace PbmParameter

/-- A receiver does not work through more iterations. -/
def maxIterations : UInt32 := 100000

/-- `H (secret ‖ salt)`, then the hash of the previous one. -/
def deriveKey (h : HashFunction) (secret salt : Bytes) (iterations : Nat) : Bytes :=
  (iterations - 1).repeat h.digest (h.digest (secret ++ salt))

def mac? (p : PbmParameter) (secret data : Bytes) : Except Failure Bytes := do
  if p.iterations = 0 ∨ maxIterations < p.iterations then
    throw (.protection ("PBM iteration count " ++ Nat.repr p.iterations.toNat ++ " out of range"))
  let oneWay ←
    if p.oneWay.oid = Algorithm.sha256 then pure Hash.sha256
    else if p.oneWay.oid = Algorithm.sha1 then pure Hash.sha1
    else throw (.protection ("unsupported PBM OWF " ++ p.oneWay.oid.toString))
  let mac ←
    if p.mac.oid = Algorithm.hmacSha256 then pure Hash.sha256
    else if p.mac.oid = Algorithm.hmacSha1 then pure Hash.sha1
    else throw (.protection ("unsupported PBM MAC " ++ p.mac.oid.toString))
  return mac.hmac (deriveKey oneWay secret p.salt.bytes p.iterations.toNat) data

end PbmParameter

namespace SharedSecret

def parameters (s : SharedSecret) : PbmParameter :=
  ⟨⟨s.salt⟩, ⟨Algorithm.sha256, none⟩, s.iterations, ⟨Algorithm.hmacSha256, none⟩⟩

def algorithm (s : SharedSecret) : AlgorithmIdentifier :=
  ⟨Algorithm.passwordBasedMac, some (Encoding.toElement s.parameters)⟩

def protect (s : SharedSecret) (data : Bytes) : Except Failure Bytes := s.parameters.mac? s.secret data

/-- Checks a MAC with the parameters that came with it. -/
def verify (s : SharedSecret) (algorithm : AlgorithmIdentifier) (data protection : Bytes) :
    Except Failure Unit := do
  if algorithm.oid ≠ Algorithm.passwordBasedMac then
    throw (.protection ("expected PasswordBasedMac protection, got " ++ algorithm.oid.toString))
  let encoded ← orFail (.protection "PasswordBasedMac without parameters") algorithm.parameters
  let parameters : PbmParameter ←
    orFail (.protection ("invalid PBMParameter: " ++ Failure.malformedDetail))
      (Encoding.ofElement? encoded)
  if (← parameters.mac? s.secret data) = protection then return ()
  throw (.protection "PasswordBasedMac verification failed")

def masked (s : SharedSecret) : String :=
  Text.described "SharedSecretProtection"
    [("secret", Text.mask), ("reference", Text.mask), ("iterations", Nat.repr s.iterations.toNat)]

end SharedSecret

end PkiEnroll.Protection
