import PkiEnroll.Der.Primitive
import PkiEnroll.Der.Oid

namespace PkiEnroll.X509

open Der

structure Extension where
  id : Oid
  critical : Bool
  value : OctetString
  deriving DecidableEq, Repr

/-- A false `critical` is not written. -/
instance : Content Extension where
  tag := sequenceTag
  content e := encode e.id ++ optionalField (if e.critical then some true else none) ++ encode e.value
  ofContent? := Fields.read? do
    let id ← Fields.required
    let critical ← Fields.optional
    let value ← Fields.required
    return ⟨id, critical.getD false, value⟩

namespace Extension

def keyUsageId : Oid := Oid.ofArcs [2, 5, 29, 15]
def extendedKeyUsageId : Oid := Oid.ofArcs [2, 5, 29, 37]
def clientAuth : Oid := Oid.ofArcs [1, 3, 6, 1, 5, 5, 7, 3, 2]
def serverAuth : Oid := Oid.ofArcs [1, 3, 6, 1, 5, 5, 7, 3, 1]

def extendedKeyUsage (purposes : List Oid) : Extension :=
  ⟨extendedKeyUsageId, false, ⟨encode purposes⟩⟩

end Extension

end PkiEnroll.X509
