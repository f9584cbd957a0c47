import PkiEnroll.Protection.Context

namespace PkiEnroll.Enroll

open Der X509 Cmp Protection

inductive State where
  | building
  | sent
  /-- The CA is not ready. -/
  | awaitingPollDecision
  | polling
  | confirming
  | done
  | failed
  deriving DecidableEq, Repr

namespace State

def name : State → String
  | building => "BUILDING"
  | sent => "SENT"
  | awaitingPollDecision => "AWAITING_POLL_DECISION"
  | polling => "POLLING"
  | confirming => "CONFIRMING"
  | done => "DONE"
  | failed => "FAILED"

def label : State → String
  | building => "Building"
  | sent => "Sent"
  | awaitingPollDecision => "AwaitingPollDecision"
  | polling => "Polling"
  | confirming => "Confirming"
  | done => "Done"
  | failed => "Failed"

def all : List State := [building, sent, awaitingPollDecision, polling, confirming, done, failed]

end State

structure Session where
  transactionId : Bytes
  senderNonce : Bytes
  certReqId : Int64
  context : Context
  sender : Name
  recipient : Name
  implicitConfirm : Bool
  recipNonce : Option Bytes := none
  state : State := .building
  polls : Nat := 0
  deriving DecidableEq, Repr

/-- What is drawn at random for an enrollment. -/
structure Draws where
  salt : Bytes
  iterations : UInt32
  transactionId : Bytes
  senderNonce : Bytes
  certReqId : Int64
  deriving DecidableEq, Repr

namespace Session

def start (d : Draws) (context : Context) (sender recipient : Name) (implicitConfirm : Bool) : Session where
  transactionId := d.transactionId
  senderNonce := d.senderNonce
  certReqId := d.certReqId
  context := context
  sender := sender
  recipient := recipient
  implicitConfirm := implicitConfirm

/-- Moves to a state; polls are counted as they are entered. -/
def enter (s : Session) (next : State) : Session :=
  { s with state := next, polls := if next = .polling then s.polls + 1 else s.polls }

/-- Keeps the CA's nonce for the next message. -/
def record (s : Session) (h : Header) : Session :=
  { s with recipNonce := (h.senderNonce.map OctetString.bytes) <|> s.recipNonce }

/-- The header of the next message, sent at `now`, before it is protected. -/
def header (s : Session) (now : Instant) (body : Body) : Except Failure Header := do
  let time ← orFail .malformed now.toDateTime?
  return {
    pvno := Header.cmp2000
    sender := .directory s.sender
    recipient := .directory s.recipient
    messageTime := some ⟨time⟩
    transactionId := some ⟨s.transactionId⟩
    senderNonce := some ⟨s.senderNonce⟩
    recipNonce := s.recipNonce.map OctetString.mk
    generalInfo :=
      if s.implicitConfirm ∧ body.certReqs?.isSome then some [GeneralInfo.implicitConfirm] else none }

def message (s : Session) (now : Instant) (body : Body) : Except Failure Message := do
  s.context.protectMessage { header := ← s.header now body, body }

def masked? (s : Session) : Option String :=
  s.context.masked?.map fun context =>
    Text.described "EnrollmentSession"
      [("cert_req_id", toString s.certReqId.toInt), ("state", s.state.label),
        ("polls", Nat.repr s.polls), ("protection", context)]

end Session

end PkiEnroll.Enroll
