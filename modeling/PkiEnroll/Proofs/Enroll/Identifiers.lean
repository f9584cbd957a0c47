import PkiEnroll.Proofs.Enroll.Authentic
import PkiEnroll.Proofs.Enroll.PollBudget

namespace PkiEnroll.Cmp.Body

def certReqIds : Body → List Int64
  | initRequest ms | certRequest ms | keyUpdateRequest ms => ms.map (·.request.certReqId)
  | certConfirm ss => ss.map (·.certReqId)
  | pollRequest ps => ps.map (·.certReqId)
  | _ => []

end PkiEnroll.Cmp.Body

namespace PkiEnroll.Enroll

open Der X509 Cmp Protection Directory
open Relation (ReflTransGen)

namespace Exchange

def answer? (x : Exchange) : Option Message :=
  x.answer.toOption.bind fun raw => (Message.decode raw).toOption

def nonce? (x : Exchange) : Option OctetString := x.answer?.bind (·.header.senderNonce)

/-- The last nonce given. -/
def lastNonce? (xs : List Exchange) : Option OctetString := (xs.filterMap nonce?).getLast?

theorem lastNonce?_concat (xs : List Exchange) (x : Exchange) :
    lastNonce? (xs ++ [x]) = (x.nonce? <|> lastNonce? xs) := by
  rw [lastNonce?, List.filterMap_append, List.getLast?_append]
  cases h : x.nonce? with
  | none => simp [lastNonce?, h]
  | some nonce => simp [h]

theorem nonce?_of_decode {x : Exchange} {raw : Bytes} {m : Message} (ha : x.answer = .ok raw)
    (hd : Message.decode raw = .ok m) : x.nonce? = m.header.senderNonce := by
  simp [nonce?, answer?, ha, hd, Except.toOption]

end Exchange

theorem Session.recipNonce_record (s : Session) (h : Header) :
    (s.record h).recipNonce.map OctetString.mk =
      (h.senderNonce <|> s.recipNonce.map OctetString.mk) := by
  rw [record]
  cases h.senderNonce <;> rfl

namespace Enrollment

variable {e : Enrollment} {peer : Peer} {p q : Progress} {stage next : Stage}

/-- How a message shows who sends it: by the reference of a shared secret, or by the certificate. -/
def Presents (e : Enrollment) (m : Message) : Prop :=
  match e.context with
  | .sharedSecret s =>
    m.header.sender = .directory e.request.subject ∧ m.header.senderKid = some ⟨s.reference⟩ ∧
      m.extraCerts = none
  | .signature p =>
    m.header.sender = .directory p.credential.certificate.subject ∧ m.header.senderKid = none ∧
      m.extraCerts = some [p.credential.certificate]

/-- What a message has to bear after a conversation so far. -/
structure Bears (e : Enrollment) (before : List Exchange) (m : Message) : Prop where
  transactionId : m.header.transactionId = some ⟨e.draws.transactionId⟩
  senderNonce : m.header.senderNonce = some ⟨e.draws.senderNonce⟩
  recipNonce : m.header.recipNonce = Exchange.lastNonce? before
  recipient : m.header.recipient = .directory e.descriptor.issuerDn
  protectionAlg : m.header.protectionAlg = some e.context.algorithm
  presents : e.Presents m
  certReqIds : m.body.certReqIds = [e.draws.certReqId]
  generalInfo : m.header.generalInfo =
    if e.descriptor.implicitConfirm ∧ m.body.certReqs?.isSome then some [GeneralInfo.implicitConfirm]
    else none

theorem presents_of_complete {header : Header} {m : Message}
    (hsender : header.sender = .directory e.session.sender) (hkid : header.senderKid = none)
    (hm : m.header = e.context.complete header)
    (hcerts : m.extraCerts =
      if e.context.extraCerts.isEmpty then none else some e.context.extraCerts) : e.Presents m := by
  rw [Enrollment.session, Session.start] at hsender
  rw [Presents]
  cases hc : e.context with
  | sharedSecret s =>
    rw [hc] at hsender hm hcerts
    exact ⟨by rw [hm]; exact hsender, by rw [hm]; rfl, hcerts⟩
  | signature pair =>
    rw [hc] at hsender hm hcerts
    exact ⟨by rw [hm]; exact hsender, by rw [hm]; exact hkid, hcerts⟩

theorem bears_of_message {body : Body} {m : Message} {before : List Exchange}
    (hs : e.session.Continues p.session)
    (hnonce : p.session.recipNonce.map OctetString.mk = Exchange.lastNonce? before)
    (hids : body.certReqIds = [e.draws.certReqId]) (hm : p.session.message (e.timeAt p) body = .ok m) :
    Bears e before m := by
  obtain ⟨header, hheader, hcomplete, rfl, hcerts⟩ := Session.message_eq_ok hm
  obtain ⟨time, -, hheader⟩ := bind_eq_ok_iff.1 hheader
  cases hheader
  rw [hs] at hcomplete hcerts
  exact {
    transactionId := by rw [hcomplete]; rfl
    senderNonce := by rw [hcomplete]; rfl
    recipNonce := by rw [hcomplete]; exact hnonce
    recipient := by rw [hcomplete]; rfl
    protectionAlg := by rw [hcomplete]; rfl
    presents := presents_of_complete rfl rfl hcomplete hcerts
    certReqIds := hids
    generalInfo := by rw [hcomplete]; rfl }

/-- Whether every message of a conversation bears what it has to. -/
def Consistent (e : Enrollment) (xs : List Exchange) : Prop :=
  ∀ before x after, xs = before ++ x :: after → ∃ m, m.encode = .ok x.request ∧ Bears e before m

theorem consistent_nil (e : Enrollment) : e.Consistent [] := by
  intro before x after h
  simp at h

theorem Consistent.concat {xs : List Exchange} {x : Exchange} {m : Message} (h : e.Consistent xs)
    (hwritten : m.encode = .ok x.request) (hm : Bears e xs m) : e.Consistent (xs ++ [x]) := by
  intro before y after hsplit
  rcases split_concat hsplit with ⟨rfl, rfl, -⟩ | ⟨after', hbefore⟩
  · exact ⟨m, hwritten, hm⟩
  · exact h before y after' hbefore

/-- How a conversation stands: unless it has failed, the session knows the last nonce of the CA. -/
structure Follows (e : Enrollment) (a : Stage × Progress) : Prop where
  consistent : e.Consistent a.2.exchanges
  nonce : a.1.hasFailed = false →
    a.2.session.recipNonce.map OctetString.mk = Exchange.lastNonce? a.2.exchanges

theorem follows_start (e : Enrollment) : Follows e (.preparing, e.start) :=
  ⟨consistent_nil e, fun _ => rfl⟩

theorem Follows.idle (h : Follows e (stage, p)) (hstage : stage.hasFailed = false)
    (hx : q.exchanges = p.exchanges) (hn : q.session.recipNonce = p.session.recipNonce) :
    Follows e (next, q) where
  consistent := by rw [hx]; exact h.consistent
  nonce _ := by rw [hx, hn]; exact h.nonce hstage

theorem RoundTrip.nonce {state : State} {body : Body} {verdict : Verdict}
    (hr : RoundTrip e peer state body p (.ok verdict) q)
    (hnonce : p.session.recipNonce.map OctetString.mk = Exchange.lastNonce? p.exchanges) :
    q.session.recipNonce.map OctetString.mk = Exchange.lastNonce? q.exchanges := by
  cases hr with
  | accepted hm hrequest ha hd hv =>
    refine (Session.recipNonce_record _ _).trans ?_
    rw [Progress.record, Progress.send, Exchange.lastNonce?_concat, Exchange.nonce?_of_decode ha hd,
      ← hnonce]
    rfl

theorem Follows.roundTrip {state : State} {body : Body} {result : Except Failure Verdict}
    (h : Follows e (stage, p)) (hs : e.session.Continues p.session)
    (hstage : stage.hasFailed = false) (hids : body.certReqIds = [e.draws.certReqId])
    (hr : RoundTrip e peer state body p result q)
    (hnext : next.hasFailed = false → ∃ verdict, result = .ok verdict) : Follows e (next, q) := by
  have hnonce := h.nonce hstage
  constructor
  · rcases hr.sends with ⟨rfl, -⟩ | ⟨x, m, hexchanges, hm, hwritten, -⟩
    · exact h.consistent
    · rw [hexchanges]
      exact h.consistent.concat hwritten (bears_of_message hs hnonce hids hm)
  · intro hok
    obtain ⟨verdict, rfl⟩ := hnext hok
    exact hr.nonce hnonce

theorem hasFailed_after {started : Nat} {result : Except Failure Verdict}
    (h : (Stage.after started result).hasFailed = false) : ∃ verdict, result = .ok verdict := by
  cases result with
  | ok verdict => exact ⟨verdict, rfl⟩
  | error f => cases h

theorem certReqId_of_certReqMsg {r : Request} {id : Int64} {issuer : X509.Name} {m : CertReqMsg}
    (h : r.certReqMsg id issuer = .ok m) : m.request.certReqId = id := by
  obtain ⟨template, -, h⟩ := bind_eq_ok_iff.1 h
  dsimp only at h
  split at h
  · cases h
  · cases h
    rfl

theorem certReqIds_request {m : CertReqMsg} (h : e.requestMessage = .ok m) :
    (e.kind.body [m]).certReqIds = [e.draws.certReqId] := by
  rw [← certReqId_of_certReqMsg h]
  cases e.kind <;> rfl

theorem Follows.move {a b : Stage × Progress} (h : Follows e a)
    (hs : e.session.Continues a.2.session) (hm : Move e peer a b) : Follows e b := by
  cases hm with
  | ask _ hmessage hr =>
    exact h.roundTrip hs rfl (certReqIds_request hmessage) hr hasFailed_after
  | poll hr => exact h.roundTrip hs rfl rfl hr hasFailed_after
  | confirm hr => exact h.roundTrip hs rfl rfl hr fun _ => ⟨_, rfl⟩
  | unacknowledged _ hr => exact h.roundTrip hs rfl rfl hr fun _ => ⟨_, rfl⟩
  | unconfirmed hr => exact h.roundTrip hs rfl rfl hr (by simp [Stage.hasFailed])
  | _ => exact h.idle rfl rfl rfl

theorem follows_of_path {a : Stage × Progress}
    (h : ReflTransGen (Move e peer) (.preparing, e.start) a) : Follows e a := by
  induction h with
  | refl => exact follows_start e
  | tail hpath hm ih => exact ih.move (sound_of_path hpath).continues hm

/-- How an enrollment is protected: a key update with the credential to be renewed, whatever the
descriptor says; otherwise as the descriptor says, with the salt and the iterations drawn. -/
inductive Chosen (e : Enrollment) : Context → Prop
  | keyUpdate {current : Credential} {pinned : Certificate} (hkind : e.kind = .keyUpdate current)
      (hpinned : e.descriptor.caCertificate = some pinned) : Chosen e (.signature ⟨current, pinned⟩)
  | sharedSecret {iak rv : String} (hkind : ∀ current, e.kind ≠ .keyUpdate current)
      (hauth : e.descriptor.authentication = .sharedSecret iak rv) :
      Chosen e (.sharedSecret
        ⟨Bytes.ofString iak, Bytes.ofString rv, e.draws.salt, e.draws.iterations⟩)
  | signature {credential : Credential} {pinned : Certificate}
      (hkind : ∀ current, e.kind ≠ .keyUpdate current)
      (hauth : e.descriptor.authentication = .signature credential)
      (hpinned : e.descriptor.caCertificate = some pinned) :
      Chosen e (.signature ⟨credential, pinned⟩)

theorem chosen_of_context {context : Context} (hkind : ∀ current, e.kind ≠ .keyUpdate current)
    (h : e.descriptor.context e.draws.salt e.draws.iterations = .ok context) : Chosen e context := by
  unfold Descriptor.context at h
  split at h
  · next iak rv hauth =>
    cases h
    exact .sharedSecret hkind hauth
  · next credential hauth =>
    obtain ⟨pinned, hpinned, rfl⟩ := Context.ofCredential_eq_ok h
    exact .signature hkind hauth hpinned

theorem chosen_of_enrollment {client : Client} {caName : String} {kind : Kind} {request : Request}
    {draws : Draws} {now : Clock} {cancelAt : Option Nat}
    (h : client.enrollment caName kind request draws now cancelAt = .ok e) :
    e.kind = kind ∧ e.request = request ∧ e.draws = draws ∧ Chosen e e.context := by
  obtain ⟨d, -, h⟩ := bind_eq_ok_iff.1 h
  cases kind with
  | keyUpdate current =>
    obtain ⟨context, hcontext, h⟩ := bind_eq_ok_iff.1 h
    cases h
    obtain ⟨pinned, hpinned, rfl⟩ := Context.ofCredential_eq_ok hcontext
    exact ⟨rfl, rfl, rfl, .keyUpdate rfl hpinned⟩
  | initialization =>
    obtain ⟨context, hcontext, h⟩ := bind_eq_ok_iff.1 h
    cases h
    exact ⟨rfl, rfl, rfl, chosen_of_context (by simp) hcontext⟩
  | certification =>
    obtain ⟨context, hcontext, h⟩ := bind_eq_ok_iff.1 h
    cases h
    exact ⟨rfl, rfl, rfl, chosen_of_context (by simp) hcontext⟩

/-- All messages of a run bear the same identifiers, parties and protection, and the last nonce of the
answers before, all of which are authentic. Where a client has prepared the run, the protection is that of
its descriptor, or of the credential to be renewed. -/
theorem run_consistent (e : Enrollment) (peer : Peer) :
    (∀ before x after, (e.run peer).2.exchanges = before ++ x :: after →
      (∀ y ∈ before, ∃ a, y.Answers e.session a) ∧
        ∃ m, m.encode = .ok x.request ∧ Bears e before m) ∧
    ∀ (client : Client) caName kind request draws now cancelAt,
      client.enrollment caName kind request draws now cancelAt = .ok e →
        e.kind = kind ∧ e.request = request ∧ e.draws = draws ∧ Chosen e e.context := by
  obtain ⟨q, hend, hpath⟩ := run_path e peer
  have hexchanges : (e.run peer).2.exchanges = q.exchanges := by rw [hend]; rfl
  rw [hexchanges]
  refine ⟨fun before x after hsplit => ?_, fun client caName kind request draws now cancelAt h =>
    chosen_of_enrollment h⟩
  refine ⟨fun y hy => (sound_of_path hpath).earlier y ?_,
    (follows_of_path hpath).consistent before x after hsplit⟩
  rw [hsplit, List.dropLast_append_of_ne_nil (List.cons_ne_nil _ _)]
  exact List.mem_append_left _ hy

end Enrollment

namespace Sample

open Enrollment

def client : Client := ⟨⟨[hurried.descriptor], by simp⟩, hurried.polling⟩

/-- The poll bears the nonce of the answer that postponed it. -/
theorem run_consistent_hurried :
    client.enrollment "CA" .initialization hurried.request hurried.draws hurried.now none = .ok hurried ∧
      Chosen hurried hurried.context ∧
      ∃ x y, (hurried.run slowPeer).2.exchanges = [x, y] ∧
        ∃ m : Message, m.encode = .ok y.request ∧ m.header.recipNonce = some ⟨[1]⟩ := by
  have hresolve : client.directory.resolve "CA" = .ok hurried.descriptor := by decide +kernel
  have hcontext : hurried.descriptor.context hurried.draws.salt hurried.draws.iterations =
      .ok hurried.context := by
    decide +kernel
  have hclient : client.enrollment "CA" .initialization hurried.request hurried.draws hurried.now none =
      .ok hurried :=
    bind_eq_ok_iff.2 ⟨_, hresolve, bind_eq_ok_iff.2 ⟨_, hcontext, rfl⟩⟩
  obtain ⟨hbears, hchosen⟩ := run_consistent hurried slowPeer
  have hnonces : (hurried.run slowPeer).2.exchanges.map Exchange.nonce? =
      [some ⟨[1]⟩, some ⟨[2]⟩] := by
    decide +kernel
  obtain ⟨x, xs, hexchanges, hx, hxs⟩ := List.map_eq_cons_iff.1 hnonces
  obtain ⟨y, ys, rfl, -, hys⟩ := List.map_eq_cons_iff.1 hxs
  obtain rfl := List.map_eq_nil_iff.1 hys
  obtain ⟨-, m, hm, hbears⟩ := hbears [x] y [] hexchanges
  refine ⟨hclient, (hchosen client _ _ _ _ _ _ hclient).2.2.2, x, y, hexchanges, m, hm, ?_⟩
  rw [hbears.recipNonce, Exchange.lastNonce?, List.filterMap_cons_some hx]
  rfl

end Sample

end PkiEnroll.Enroll
