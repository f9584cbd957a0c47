import PkiEnroll.X509.Name

namespace PkiEnroll.X509

open Der

structure OtherName where
  type : Oid
  value : Element
  deriving DecidableEq, Repr

instance : Content OtherName where
  tag := sequenceTag
  content n := encode n.type ++ wrappedField 0 n.value
  ofContent? := Fields.read? do
    let type ← Fields.required
    let value ← Fields.wrapped 0
    return ⟨type, value⟩

inductive DirectoryString where
  | printable (text : PrintableString)
  | teletex (text : TeletexString)
  | utf8 (text : String)
  deriving DecidableEq, Repr

instance : Encoding DirectoryString where
  accepts t :=
    t = .universal .printableString || t = .universal .teletexString || t = .universal .utf8String
  toElement
    | .printable s => Encoding.toElement s
    | .teletex s => Encoding.toElement s
    | .utf8 s => Encoding.toElement s
  ofElement? e :=
    if e.tag = .universal .printableString then DirectoryString.printable <$> Encoding.ofElement? e
    else if e.tag = .universal .teletexString then DirectoryString.teletex <$> Encoding.ofElement? e
    else DirectoryString.utf8 <$> Encoding.ofElement? e

structure EdiPartyName where
  nameAssigner : Option DirectoryString
  partyName : DirectoryString
  deriving DecidableEq, Repr

instance : Content EdiPartyName where
  tag := sequenceTag
  content n := explicitField 0 n.nameAssigner ++ wrappedField 1 n.partyName
  ofContent? := Fields.read? do
    let nameAssigner ← Fields.explicit 0
    let partyName ← Fields.wrapped 1
    return ⟨nameAssigner, partyName⟩

inductive GeneralName where
  | other (name : OtherName)
  | email (address : Ia5String)
  | dns (name : Ia5String)
  | directory (name : Name)
  | ediParty (name : EdiPartyName)
  | uri (text : Ia5String)
  | ipAddress (address : OctetString)
  | registeredId (id : Oid)
  deriving DecidableEq, Repr

namespace GeneralName

def toElement : GeneralName → Element
  | other n => implicitElement 0 n
  | email s => implicitElement 1 s
  | dns s => implicitElement 2 s
  | directory n => wrap 4 n
  | ediParty n => implicitElement 5 n
  | uri s => implicitElement 6 s
  | ipAddress s => implicitElement 7 s
  | registeredId o => implicitElement 8 o

def accepts : Tag → Bool
  | .context true n => n = 0 || n = 4 || n = 5
  | .context false n => n = 1 || n = 2 || n = 6 || n = 7 || n = 8
  | _ => false

def ofElement? (e : Element) : Option GeneralName :=
  match e.tag with
  | .context true 0 => other <$> Content.ofContent? e.content
  | .context false 1 => email <$> Content.ofContent? e.content
  | .context false 2 => dns <$> Content.ofContent? e.content
  | .context true 4 => directory <$> decode? e.content
  | .context true 5 => ediParty <$> Content.ofContent? e.content
  | .context false 6 => uri <$> Content.ofContent? e.content
  | .context false 7 => ipAddress <$> Content.ofContent? e.content
  | .context false 8 => registeredId <$> Content.ofContent? e.content
  | _ => none

def directoryName? : GeneralName → Option Name
  | directory n => some n
  | _ => none

end GeneralName

instance : Encoding GeneralName where
  accepts := GeneralName.accepts
  toElement := GeneralName.toElement
  ofElement? := GeneralName.ofElement?

end PkiEnroll.X509
