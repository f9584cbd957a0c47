import PkiEnroll.Der.Integer
import PkiEnroll.Der.Time
import PkiEnroll.X509.Algorithm
import PkiEnroll.X509.Extension
import PkiEnroll.X509.Name

namespace PkiEnroll.X509

open Der

inductive Version where
  | v1 | v2 | v3
  deriving DecidableEq, Repr

namespace Version

def toOctet : Version → UInt8
  | v1 => 0
  | v2 => 1
  | v3 => 2

def ofOctet? (n : UInt8) : Option Version :=
  if n = 0 then some v1 else if n = 1 then some v2 else if n = 2 then some v3 else none

end Version

instance : Content Version where
  tag := .universal .integer
  content v := Content.content v.toOctet
  ofContent? b := Content.ofContent? b >>= Version.ofOctet?

/-- A serial number of at most 21 bytes. -/
structure SerialNumber where
  value : Int
  deriving DecidableEq, Repr

instance : Content SerialNumber where
  tag := .universal .integer
  content s := Integer.encode s.value
  ofContent? b := if b.length ≤ 21 then SerialNumber.mk <$> Integer.decode? b else none

structure Validity where
  notBefore : Time
  notAfter : Time
  deriving DecidableEq, Repr

instance : Content Validity where
  tag := sequenceTag
  content v := encode v.notBefore ++ encode v.notAfter
  ofContent? := Fields.read? do
    let notBefore ← Fields.required
    let notAfter ← Fields.required
    return ⟨notBefore, notAfter⟩

structure TbsCertificate where
  version : Version
  serialNumber : SerialNumber
  signature : AlgorithmIdentifier
  issuer : Name
  validity : Validity
  subject : Name
  publicKey : PublicKeyInfo
  issuerUniqueId : Option BitString
  subjectUniqueId : Option BitString
  extensions : Option (List Extension)
  deriving DecidableEq, Repr

/-- The first version is not written. -/
instance : Content TbsCertificate where
  tag := sequenceTag
  content t :=
    explicitField 0 (if t.version = .v1 then none else some t.version) ++ encode t.serialNumber ++
      encode t.signature ++ encode t.issuer ++ encode t.validity ++ encode t.subject ++
      encode t.publicKey ++ implicitField 1 t.issuerUniqueId ++ implicitField 2 t.subjectUniqueId ++
      explicitField 3 t.extensions
  ofContent? := Fields.read? do
    let version ← Fields.explicit 0
    let serialNumber ← Fields.required
    let signature ← Fields.required
    let issuer ← Fields.required
    let validity ← Fields.required
    let subject ← Fields.required
    let publicKey ← Fields.required
    let issuerUniqueId ← Fields.implicit 1
    let subjectUniqueId ← Fields.implicit 2
    let extensions ← Fields.explicit 3
    return { version := version.getD .v1, serialNumber, signature, issuer, validity, subject,
             publicKey, issuerUniqueId, subjectUniqueId, extensions }

structure Certificate where
  tbs : TbsCertificate
  signatureAlgorithm : AlgorithmIdentifier
  signature : BitString
  deriving DecidableEq, Repr

instance : Content Certificate where
  tag := sequenceTag
  content c := encode c.tbs ++ encode c.signatureAlgorithm ++ encode c.signature
  ofContent? := Fields.read? do
    let tbs ← Fields.required
    let signatureAlgorithm ← Fields.required
    let signature ← Fields.required
    return ⟨tbs, signatureAlgorithm, signature⟩

namespace Certificate

def subject (c : Certificate) : Name := c.tbs.subject
def issuer (c : Certificate) : Name := c.tbs.issuer
def publicKey (c : Certificate) : PublicKeyInfo := c.tbs.publicKey

end Certificate

end PkiEnroll.X509
