import PkiEnroll.Der.Primitive
import PkiEnroll.Der.Oid

namespace PkiEnroll.X509

open Der

/-- A type and a value of any kind. Names, controls and registration information are made of them. -/
structure Attribute where
  type : Oid
  value : Element
  deriving DecidableEq, Repr

instance : Content Attribute where
  tag := sequenceTag
  content a := encode a.type ++ encode a.value
  ofContent? := Fields.read? do
    let type ← Fields.required
    let value ← Fields.required
    return ⟨type, value⟩

abbrev RelativeName := SetOf Attribute

/-- The root comes first. -/
structure Name where
  rdns : List RelativeName
  deriving DecidableEq, Repr

instance : Content Name where
  tag := sequenceTag
  content n := Content.content n.rdns
  ofContent? b := Name.mk <$> Content.ofContent? b

namespace Name

def empty : Name := ⟨[]⟩

end Name

end PkiEnroll.X509
