import PkiEnroll.Enroll.Session

namespace PkiEnroll.Enroll

open Der X509 Cmp Protection

inductive Verdict where
  /-- The certificate, and the CA's certificates in the order received. -/
  | issued (certificate : Certificate) (caCertificates : List Certificate) (implicitConfirm : Bool)
  /-- Not ready; the CA may say for how many seconds. -/
  | waiting (checkAfter : Option Int64)
  | confirmed
  deriving DecidableEq, Repr

/-- The first of the certificates that have the same encoding, apart from those already seen. -/
def distinctFrom (seen : List Bytes) : List Certificate → List Certificate
  | [] => []
  | c :: cs =>
    if encode c ∈ seen then distinctFrom seen cs else c :: distinctFrom (encode c :: seen) cs

def distinct (cs : List Certificate) : List Certificate := distinctFrom [] cs

def refusal (info : StatusInfo) (more : List String) : Failure :=
  .refused info.status info.failure? (info.textList ++ more)

def errorRefusal (content : ErrorContent) : Failure :=
  let code := content.code.map fun c => "error code " ++ toString c.toInt
  refusal content.status (content.details.getD [] ++ code.toList)

namespace Session

/-- Whether an identifier is the one sent. A lenient check lets it be absent. -/
def checkIdentifier (lenient : Bool) (sent : Bytes) (differs absent : String) :
    Option OctetString → Except Failure Unit
  | none => if lenient then .ok () else .error (.nonceMismatch absent)
  | some received => if received.bytes = sent then .ok () else .error (.nonceMismatch differs)

def checkIdentifiers (s : Session) (lenient : Bool) (h : Header) : Except Failure Unit := do
  checkIdentifier lenient s.transactionId "transactionID does not match the request"
    "response has no transactionID" h.transactionId
  checkIdentifier lenient s.senderNonce "recipNonce does not echo the sender nonce"
    "response has no recipNonce" h.recipNonce

def unexpected (s : Session) (body : Body) : Failure :=
  let sent :=
    match s.state with
    | .polling => "pollReq"
    | .confirming => "certConf"
    | _ => "certificate request"
  .decode ("unexpected " ++ body.name ++ " body in response to " ++ sent)

def certificateOf : Option CertifiedKeyPair → Except Failure Certificate
  | none => .error (.decode "granted response carries no certificate")
  | some pair =>
    match pair.issued with
    | .certificate c => .ok c
    | .encrypted _ => .error (.decode "encrypted certificates are not supported")

def verdictOfRep (s : Session) (m : Message) (rep : CertRepMessage) : Except Failure Verdict := do
  let response ←
    orFail (.decode ("response has no entry for certReqId " ++ toString s.certReqId.toInt))
      (rep.responses.find? (·.certReqId = s.certReqId))
  if response.status.status = .waiting then return .waiting none
  if !response.status.status.isGranted then throw (refusal response.status [])
  let certificate ← certificateOf response.keyPair
  return .issued certificate (distinct (rep.caPubs.getD [] ++ m.extraCertList))
    m.header.hasImplicitConfirm

def verdictOfPoll (s : Session) (entries : List PollRep) : Except Failure Verdict := do
  let entry ←
    orFail (.decode ("pollRep has no entry for certReqId " ++ toString s.certReqId.toInt))
      (entries.find? (·.certReqId = s.certReqId))
  return .waiting (some entry.checkAfter)

/-- What an authentic answer means. `expected` is the tag of the body that carries a certificate. -/
def verdictOfBody (s : Session) (m : Message) (expected : Nat) : Except Failure Verdict :=
  if (s.state = .sent ∨ s.state = .polling) ∧ m.body.tagNumber = expected then
    match m.body.certRep? with
    | some rep => s.verdictOfRep m rep
    | none => .error (s.unexpected m.body)
  else
    match s.state, m.body with
    | .polling, .pollResponse entries => s.verdictOfPoll entries
    | .confirming, .confirmation => .ok .confirmed
    | _, body => .error (s.unexpected body)

/-- Judges an answer, of which `raw` are the bytes. An error message ends the session even when it
is not protected: a CA that could not authenticate the request often cannot protect its answer. -/
def verify (s : Session) (m : Message) (raw : Bytes) (expected : Nat) : Except Failure Verdict :=
  match m.body with
  | .error content => do
    s.checkIdentifiers true m.header
    throw (errorRefusal content)
  | _ => do
    s.checkIdentifiers false m.header
    s.context.verifyMessage m raw
    s.verdictOfBody m expected

end Session

end PkiEnroll.Enroll
