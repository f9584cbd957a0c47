import PkiEnroll.Directory.Basic
import PkiEnroll.Enroll.Chain
import PkiEnroll.Enroll.Polling
import PkiEnroll.Enroll.Request
import PkiEnroll.Enroll.Verdict
import PkiEnroll.Hash.Sha1

namespace PkiEnroll.Enroll

open Der X509 Cmp Protection Directory

/-- What kind of certificate request an enrollment sends. A key update is signed with the credential
that is to be renewed. -/
inductive Kind where
  | initialization
  | certification
  | keyUpdate (current : Credential)
  deriving DecidableEq, Repr

namespace Kind

def body (k : Kind) (messages : List CertReqMsg) : Body :=
  match k with
  | initialization => .initRequest messages
  | certification => .certRequest messages
  | keyUpdate _ => .keyUpdateRequest messages

def responseTag : Kind → Nat
  | initialization => 1
  | certification => 3
  | keyUpdate _ => 8

end Kind

/-- What comes back for a message: after some time the bytes of an answer, or what went wrong on the
way. The caller may lose interest meanwhile. -/
structure Reply where
  delay : Nat := 0
  cancels : Bool := false
  answer : Except String Bytes

/-- The other side: it replies to the last of the messages sent so far. -/
abbrev Peer := List Bytes → Reply

/-- One message and what came back. Time is counted from the beginning of an enrollment. -/
structure Exchange where
  time : Nat
  request : Bytes
  answer : Except String Bytes

/-- The time of day at which a message is made, by how many messages are before it. -/
structure Clock where
  timeOf : Nat → Instant

/-- A clock that stands still. -/
instance : Coe Instant Clock := ⟨fun t => ⟨fun _ => t⟩⟩

structure Enrollment where
  descriptor : Descriptor
  kind : Kind
  context : Context
  request : Request
  polling : Polling
  draws : Draws
  now : Clock
  cancelAt : Option Nat := none

structure Progress where
  session : Session
  visited : List State
  exchanges : List Exchange := []
  clock : Nat := 0
  cancelled : Bool := false

/-- Steps of an enrollment. Progress is kept when a step fails. -/
abbrev Step := ExceptT Failure (StateM Progress)

namespace Step

def enter (next : State) : Step Unit :=
  modify fun p => { p with session := p.session.enter next, visited := p.visited ++ [next] }

end Step

namespace Enrollment

open Step

/-- The session of an enrollment before its first message. A client that does not sign sends under
the subject of its request. -/
def session (e : Enrollment) : Session :=
  Session.start e.draws e.context (e.context.sender.getD e.request.subject) e.descriptor.issuerDn
    e.descriptor.implicitConfirm

def exchange (peer : Peer) (request : Bytes) : Step Bytes := do
  let p ← get
  let reply := peer (p.exchanges.map Exchange.request ++ [request])
  set { p with
    exchanges := p.exchanges ++ [Exchange.mk p.clock request reply.answer]
    clock := p.clock + reply.delay
    cancelled := p.cancelled || reply.cancels }
  match reply.answer with
  | .ok raw => return raw
  | .error detail => throw (.transport detail)

/-- The time that the next message bears. -/
def timeAt (e : Enrollment) (p : Progress) : Instant := e.now.timeOf p.exchanges.length

def roundTrip (e : Enrollment) (peer : Peer) (state : State) (body : Body) : Step Verdict := do
  let p ← get
  let message ← ofExcept (p.session.message (e.timeAt p) body)
  let request ← ofExcept message.encode
  enter state
  let raw ← exchange peer request
  let response ← ofExcept (Message.decode raw)
  let verdict ← ofExcept ((← get).session.verify response raw e.kind.responseTag)
  modify fun p => { p with session := p.session.record response.header }
  return verdict

def isCancelled (e : Enrollment) (p : Progress) (time : Nat) : Bool :=
  p.cancelled || e.cancelAt.any (· ≤ time)

/-- Lets time pass until the next poll. All waits together stay within the deadline, and the caller
may cancel while they last. -/
def wait (e : Enrollment) (started : Nat) (checkAfter : Option Int64) : Step Unit := do
  let p ← get
  let duration := e.polling.waitFor ((checkAfter.map Int64.toInt).getD 0)
  if e.polling.deadline.any (· < p.clock - started + duration) then
    throw (.pollTimeout p.session.polls)
  if e.isCancelled p (p.clock + duration) then
    set { p with clock := if p.cancelled then p.clock else max p.clock (e.cancelAt.getD 0) }
    throw .cancelled
  set { p with clock := p.clock + duration }

/-- Polls until the certificate is there, `polls` times at the most. -/
def awaitCertificate (e : Enrollment) (peer : Peer) (started : Nat) :
    Nat → Verdict → Step (Certificate × List Certificate)
  | _, .issued certificate caCertificates _ => return (certificate, caCertificates)
  | _, .confirmed =>
    throw (.decode "unexpected pkiconf body in response to certificate request")
  | 0, .waiting _ => do
    enter .awaitingPollDecision
    throw (.pollTimeout (← get).session.polls)
  | polls + 1, .waiting checkAfter => do
    enter .awaitingPollDecision
    e.wait started checkAfter
    let verdict ← e.roundTrip peer .polling (.pollRequest [⟨e.draws.certReqId⟩])
    e.awaitCertificate peer started polls verdict

def confirmHash (algorithm : Oid) : Hash.HashFunction :=
  if algorithm = Algorithm.sha1WithRsa ∨ algorithm = Algorithm.ecdsaWithSha1 then Hash.sha1
  else if algorithm = Algorithm.sha384WithRsa ∨ algorithm = Algorithm.ecdsaWithSha384 then Hash.sha384
  else if algorithm = Algorithm.sha512WithRsa ∨ algorithm = Algorithm.ecdsaWithSha512 then Hash.sha512
  else Hash.sha256

/-- Accepts a certificate by its digest. -/
def certStatus (certReqId : Int64) (c : Certificate) : CertStatus :=
  ⟨⟨(confirmHash c.signatureAlgorithm.oid).digest (encode c)⟩, certReqId, none⟩

def confirm (e : Enrollment) (peer : Peer) (c : Certificate) : Step Unit := do
  match ← e.roundTrip peer .confirming (.certConfirm [certStatus e.draws.certReqId c]) with
  | .confirmed => return ()
  | _ => throw (.decode "certConf was not acknowledged with pkiconf")

def steps (e : Enrollment) (peer : Peer) : Step Model := do
  let p ← get
  if e.isCancelled p p.clock then throw .cancelled
  let message ← ofExcept (e.request.certReqMsg e.draws.certReqId e.descriptor.issuerDn)
  let verdict ← e.roundTrip peer .sent (e.kind.body [message])
  let (certificate, caCertificates) ←
    e.awaitCertificate peer (← get).clock e.polling.maxPolls verdict
  let model ← ofExcept (buildModel certificate caCertificates)
  if !e.descriptor.implicitConfirm then e.confirm peer model.certificate
  return model

def run (e : Enrollment) (peer : Peer) : Except Failure Model × Progress :=
  let (result, p) := (e.steps peer).run { session := e.session, visited := [.building] }
  let last : State := match result with | .ok _ => .done | .error _ => .failed
  (result, { p with session := p.session.enter last, visited := p.visited ++ [last] })

end Enrollment

/-- A client: the CAs it knows, and how patient it is. -/
structure Client where
  directory : PkiEnroll.Directory
  polling : Polling

namespace Client

def enrollment (c : Client) (caName : String) (kind : Kind) (request : Request) (draws : Draws)
    (now : Clock) (cancelAt : Option Nat) : Except Failure Enrollment := do
  let descriptor ← c.directory.resolve caName
  let context ←
    match kind with
    | .keyUpdate current =>
      Context.ofCredential current descriptor.caCertificate descriptor.caName
    | _ => descriptor.context draws.salt draws.iterations
  return { descriptor, kind, context, request, polling := c.polling, draws, now, cancelAt }

def masked (c : Client) : String :=
  "CmpClient \x7b directory: " ++ c.directory.masked ++ ", polling: " ++ c.polling.text ++ ", .. \x7d"

end Client

end PkiEnroll.Enroll
