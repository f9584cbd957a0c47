import PkiEnroll.Der.Primitive
import PkiEnroll.Der.Oid

namespace PkiEnroll.X509

open Der

structure AlgorithmIdentifier where
  oid : Oid
  parameters : Option Element
  deriving DecidableEq, Repr

instance : Content AlgorithmIdentifier where
  tag := sequenceTag
  content a := encode a.oid ++ optionalField a.parameters
  ofContent? := Fields.read? do
    let oid ← Fields.required
    let parameters ← Fields.optional
    return ⟨oid, parameters⟩

structure PublicKeyInfo where
  algorithm : AlgorithmIdentifier
  key : BitString
  deriving DecidableEq, Repr

instance : Content PublicKeyInfo where
  tag := sequenceTag
  content k := encode k.algorithm ++ encode k.key
  ofContent? := Fields.read? do
    let algorithm ← Fields.required
    let key ← Fields.required
    return ⟨algorithm, key⟩

namespace Algorithm

/-- The element NULL with which RSA identifiers fill their parameters. -/
def nullParameters : Element := Encoding.toElement Null.mk

def rsaEncryption : Oid := Oid.ofArcs [1, 2, 840, 113549, 1, 1, 1]
def sha1WithRsa : Oid := Oid.ofArcs [1, 2, 840, 113549, 1, 1, 5]
def sha256WithRsa : Oid := Oid.ofArcs [1, 2, 840, 113549, 1, 1, 11]
def sha384WithRsa : Oid := Oid.ofArcs [1, 2, 840, 113549, 1, 1, 12]
def sha512WithRsa : Oid := Oid.ofArcs [1, 2, 840, 113549, 1, 1, 13]
def ecdsaWithSha1 : Oid := Oid.ofArcs [1, 2, 840, 10045, 4, 1]
def ecdsaWithSha384 : Oid := Oid.ofArcs [1, 2, 840, 10045, 4, 3, 3]
def ecdsaWithSha512 : Oid := Oid.ofArcs [1, 2, 840, 10045, 4, 3, 4]
def sha1 : Oid := Oid.ofArcs [1, 3, 14, 3, 2, 26]
def sha256 : Oid := Oid.ofArcs [2, 16, 840, 1, 101, 3, 4, 2, 1]
def hmacSha1 : Oid := Oid.ofArcs [1, 3, 6, 1, 5, 5, 8, 1, 2]
def hmacSha256 : Oid := Oid.ofArcs [1, 2, 840, 113549, 2, 9]
def passwordBasedMac : Oid := Oid.ofArcs [1, 2, 840, 113533, 7, 66, 13]

end Algorithm

end PkiEnroll.X509
