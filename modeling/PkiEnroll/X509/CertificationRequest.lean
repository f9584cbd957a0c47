import PkiEnroll.X509.Certificate

namespace PkiEnroll.X509

open Der

structure RequestAttribute where
  type : Oid
  values : SetOf Element
  deriving DecidableEq, Repr

instance : Content RequestAttribute where
  tag := sequenceTag
  content a := encode a.type ++ encode a.values
  ofContent? := Fields.read? do
    let type ← Fields.required
    let values ← Fields.required
    return ⟨type, values⟩

structure RequestInfo where
  subject : Name
  publicKey : PublicKeyInfo
  attributes : SetOf RequestAttribute
  deriving DecidableEq, Repr

instance : Content RequestInfo where
  tag := sequenceTag
  content i :=
    encode (0 : UInt8) ++ encode i.subject ++ encode i.publicKey ++ implicitField 0 (some i.attributes)
  ofContent? := Fields.read? do
    let version : UInt8 ← Fields.required
    let subject ← Fields.required
    let publicKey ← Fields.required
    let some attributes ← Fields.implicit 0 | failure
    if version = 0 then return ⟨subject, publicKey, attributes⟩ else failure

structure CertificationRequest where
  info : RequestInfo
  algorithm : AlgorithmIdentifier
  signature : BitString
  deriving DecidableEq, Repr

instance : Content CertificationRequest where
  tag := sequenceTag
  content r := encode r.info ++ encode r.algorithm ++ encode r.signature
  ofContent? := Fields.read? do
    let info ← Fields.required
    let algorithm ← Fields.required
    let signature ← Fields.required
    return ⟨info, algorithm, signature⟩

namespace CertificationRequest

def extensionRequestId : Oid := Oid.ofArcs [1, 2, 840, 113549, 1, 9, 14]

end CertificationRequest

end PkiEnroll.X509
