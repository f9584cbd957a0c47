import PkiEnroll.Cmp.Status
import PkiEnroll.Cmp.Template

namespace PkiEnroll.Cmp

open Der X509

/-- A certificate as it is, or an encrypted one that is not opened. -/
inductive IssuedCert where
  | certificate (certificate : Certificate)
  | encrypted (value : Element)
  deriving DecidableEq, Repr

instance : Encoding IssuedCert where
  accepts t := t = .context true 0 || t = .context true 1
  toElement
    | .certificate c => wrap 0 c
    | .encrypted e => wrap 1 e
  ofElement? e :=
    match e.tag with
    | .context true 0 => IssuedCert.certificate <$> decode? e.content
    | .context true 1 => IssuedCert.encrypted <$> decode? e.content
    | _ => none

structure CertifiedKeyPair where
  issued : IssuedCert
  privateKey : Option Element
  publicationInfo : Option Element
  deriving DecidableEq, Repr

instance : Content CertifiedKeyPair where
  tag := sequenceTag
  content p := encode p.issued ++ explicitField 0 p.privateKey ++ explicitField 1 p.publicationInfo
  ofContent? := Fields.read? do
    let issued ← Fields.required
    let privateKey ← Fields.explicit 0
    let publicationInfo ← Fields.explicit 1
    return ⟨issued, privateKey, publicationInfo⟩

structure CertResponse where
  certReqId : Int64
  status : StatusInfo
  keyPair : Option CertifiedKeyPair
  rspInfo : Option OctetString
  deriving DecidableEq, Repr

instance : Content CertResponse where
  tag := sequenceTag
  content r :=
    encode r.certReqId ++ encode r.status ++ optionalField r.keyPair ++ optionalField r.rspInfo
  ofContent? := Fields.read? do
    let certReqId ← Fields.required
    let status ← Fields.required
    let keyPair ← Fields.optional
    let rspInfo ← Fields.optional
    return ⟨certReqId, status, keyPair, rspInfo⟩

/-- The CA's answer: certificates it wants trusted, and one response a request. -/
structure CertRepMessage where
  caPubs : Option (List Certificate)
  responses : List CertResponse
  deriving DecidableEq, Repr

instance : Content CertRepMessage where
  tag := sequenceTag
  content r := explicitField 1 r.caPubs ++ encode r.responses
  ofContent? := Fields.read? do
    let caPubs ← Fields.explicit 1
    let responses ← Fields.required
    return ⟨caPubs, responses⟩

structure ErrorContent where
  status : StatusInfo
  code : Option Int64
  details : Option (List String)
  deriving DecidableEq, Repr

instance : Content ErrorContent where
  tag := sequenceTag
  content e := encode e.status ++ optionalField e.code ++ optionalField e.details
  ofContent? := Fields.read? do
    let status ← Fields.required
    let code ← Fields.optional
    let details ← Fields.optional
    return ⟨status, code, details⟩

/-- Without a status the certificate is accepted. -/
structure CertStatus where
  certHash : OctetString
  certReqId : Int64
  status : Option StatusInfo
  deriving DecidableEq, Repr

instance : Content CertStatus where
  tag := sequenceTag
  content s := encode s.certHash ++ encode s.certReqId ++ optionalField s.status
  ofContent? := Fields.read? do
    let certHash ← Fields.required
    let certReqId ← Fields.required
    let status ← Fields.optional
    return ⟨certHash, certReqId, status⟩

structure PollReq where
  certReqId : Int64
  deriving DecidableEq, Repr

instance : Content PollReq where
  tag := sequenceTag
  content p := encode p.certReqId
  ofContent? := Fields.read? do
    let certReqId ← Fields.required
    return ⟨certReqId⟩

structure PollRep where
  certReqId : Int64
  /-- Seconds until the next poll. -/
  checkAfter : Int64
  reason : Option (List String)
  deriving DecidableEq, Repr

instance : Content PollRep where
  tag := sequenceTag
  content p := encode p.certReqId ++ encode p.checkAfter ++ optionalField p.reason
  ofContent? := Fields.read? do
    let certReqId ← Fields.required
    let checkAfter ← Fields.required
    let reason ← Fields.optional
    return ⟨certReqId, checkAfter, reason⟩

inductive Body where
  | initRequest (messages : List CertReqMsg)
  | initResponse (answer : CertRepMessage)
  | certRequest (messages : List CertReqMsg)
  | certResponse (answer : CertRepMessage)
  | keyUpdateRequest (messages : List CertReqMsg)
  | keyUpdateResponse (answer : CertRepMessage)
  | confirmation
  | error (content : ErrorContent)
  | certConfirm (statuses : List CertStatus)
  | pollRequest (entries : List PollReq)
  | pollResponse (entries : List PollRep)
  /-- Any other alternative, with the contents of its tag. -/
  | unsupported (tag : TagNumber) (content : Bytes)
  deriving DecidableEq, Repr

namespace Body

def tagNumber : Body → TagNumber
  | initRequest _ => 0
  | initResponse _ => 1
  | certRequest _ => 2
  | certResponse _ => 3
  | keyUpdateRequest _ => 7
  | keyUpdateResponse _ => 8
  | confirmation => 19
  | error _ => 23
  | certConfirm _ => 24
  | pollRequest _ => 25
  | pollResponse _ => 26
  | unsupported tag _ => tag

def name : Body → String
  | initRequest _ => "ir"
  | initResponse _ => "ip"
  | certRequest _ => "cr"
  | certResponse _ => "cp"
  | keyUpdateRequest _ => "kur"
  | keyUpdateResponse _ => "kup"
  | confirmation => "pkiconf"
  | error _ => "error"
  | certConfirm _ => "certConf"
  | pollRequest _ => "pollReq"
  | pollResponse _ => "pollRep"
  | unsupported _ _ => "unsupported"

/-- The answer of ip, cp and kup. -/
def certRep? : Body → Option CertRepMessage
  | initResponse r | certResponse r | keyUpdateResponse r => some r
  | _ => none

/-- The requests of ir, cr and kur. -/
def certReqs? : Body → Option (List CertReqMsg)
  | initRequest m | certRequest m | keyUpdateRequest m => some m
  | _ => none

def content : Body → Bytes
  | initRequest m | certRequest m | keyUpdateRequest m => encode m
  | initResponse r | certResponse r | keyUpdateResponse r => encode r
  | confirmation => encode Null.mk
  | error e => encode e
  | certConfirm s => encode s
  | pollRequest p => encode p
  | pollResponse p => encode p
  | unsupported _ b => b

def ofContent? (tag : TagNumber) (b : Bytes) : Option Body :=
  match tag with
  | 0 => initRequest <$> decode? b
  | 1 => initResponse <$> decode? b
  | 2 => certRequest <$> decode? b
  | 3 => certResponse <$> decode? b
  | 7 => keyUpdateRequest <$> decode? b
  | 8 => keyUpdateResponse <$> decode? b
  | 19 => (fun _ : Null => confirmation) <$> decode? b
  | 23 => error <$> decode? b
  | 24 => certConfirm <$> decode? b
  | 25 => pollRequest <$> decode? b
  | 26 => pollResponse <$> decode? b
  | _ => some (unsupported tag b)

end Body

instance : Encoding Body where
  accepts
    | .context true _ => true
    | _ => false
  toElement b := ⟨.context true b.tagNumber, b.content⟩
  ofElement? e :=
    match e.tag with
    | .context true n => Body.ofContent? n e.content
    | _ => none

end PkiEnroll.Cmp
