import PkiEnroll.Proofs.Cmp.ReceivedPart
import PkiEnroll.Proofs.Enroll.Chain
import PkiEnroll.Proofs.Enroll.Verdict

namespace PkiEnroll.Enroll

open Der X509 Cmp Protection

/-- The CA certificates inside the protection of a response. -/
def caPubs (m : Message) : List Certificate := (m.body.certRep?.bind CertRepMessage.caPubs).getD []

/-- The certificates outside the protection, each once, that are not among those inside. -/
def added (m : Message) : List Certificate := distinctFrom ((caPubs m).map encode) m.extraCertList

/-- A response from which a session comes to a certificate with its chain. -/
structure Yields (s : Session) (expected : Nat) (raw : Bytes) (m : Message) (model : Model) : Prop where
  decoded : Message.decode raw = .ok m
  built : ∃ c cas granted, s.verify m raw expected = .ok (.issued c cas granted) ∧
    buildModel c cas = .ok model

/-- How a model comes from CA certificates of one's own and others that are added to them. -/
structure Extends (c : Certificate) (own others : List Certificate) (model : Model) : Prop where
  certificate : model.certificate = c
  perm : (model.intermediates ++ model.trusted).Perm (own ++ others)
  climbs : ∀ path, Climbs c own path → path <+: model.intermediates
  rooted : ∀ base, buildModel c own = .ok base →
    model.chain = base.chain ∧ model.trusted = base.trusted ++ others

theorem extends_of_buildModel {c : Certificate} {own others : List Certificate} {model : Model}
    (h : buildModel c (own ++ others) = .ok model) : Extends c own others model := by
  obtain ⟨rfl, hl⟩ := buildModel_eq_ok_iff.1 h
  refine ⟨rfl, hl.perm, fun path hpath => hpath.isPrefix hl, ?_⟩
  intro base hbase
  obtain ⟨hcertificate, hown⟩ := buildModel_eq_ok_iff.1 hbase
  obtain ⟨hchain, htrusted⟩ := hl.unique (hown.append others)
  exact ⟨by rw [Model.chain, Model.chain, hcertificate, hchain], htrusted⟩

theorem Yields.cases {s : Session} {expected : Nat} {raw : Bytes} {m : Message} {model : Model}
    (h : Yields s expected raw m model) :
    ∃ rep c, Grants m s.certReqId rep c ∧
      buildModel c (distinct (caPubs m) ++ added m) = .ok model := by
  obtain ⟨c, cas, granted, hverify, hbuild⟩ := h.built
  obtain ⟨-, -, -, hverdict⟩ := Session.verify_eq_ok_iff.1 hverify
  rcases Session.verdictOfBody_cases hverdict with ⟨hv, -⟩ | ⟨_, hv⟩ | ⟨rep, c', hgrants, -, hv⟩
  · cases hv
  · cases hv
  · cases hv
    have hpubs : caPubs m = rep.caPubs.getD [] := by
      rw [caPubs, hgrants.answer]
      rfl
    refine ⟨rep, c, hgrants, ?_⟩
    rw [added, ← distinct_append, hpubs]
    exact hbuild

/-- Two responses with the same protected part grant the same certificate and have the same CA
certificates inside; whatever stands outside is only added to these. -/
theorem yields_agree {s : Session} {expected : Nat} {raw raw' : Bytes} {m m' : Message}
    {model model' : Model} (h : Yields s expected raw m model)
    (h' : Yields s expected raw' m' model')
    (hpart : Message.receivedPart raw' = Message.receivedPart raw) :
    caPubs m' = caPubs m ∧ ∃ c, Extends c (distinct (caPubs m)) (added m) model ∧
      Extends c (distinct (caPubs m)) (added m') model' ∧ (added m' = added m → model' = model) := by
  obtain ⟨-, hbody⟩ := Message.eq_of_receivedPart h.decoded h'.decoded hpart
  have hpubs : caPubs m' = caPubs m := by rw [caPubs, caPubs, hbody]
  obtain ⟨rep, c, hgrants, hbuild⟩ := h.cases
  obtain ⟨rep', c', hgrants', hbuild'⟩ := h'.cases
  -- the protected part fixes the body, and the body the certificate and the CA certificates inside
  obtain ⟨-, rfl⟩ := hgrants.unique hbody hgrants'
  rw [hpubs] at hbuild'
  refine ⟨hpubs, c', extends_of_buildModel hbuild, extends_of_buildModel hbuild', ?_⟩
  intro hsame
  rw [hsame, hbuild] at hbuild'
  exact (Except.ok.inj hbuild').symm

namespace Sample

def publicKey : Rsa.PublicKey where
  modulus := 0xdc1e11896f1eb3a5e1241ab5dce825d7eef5f12d89167314b4f05a285bf05b25 *
    0xfd56b5a250e67d357d7842fd278993b2c8089d9fffab24d10cd550b542fecdc1
  exponent := 3

def keyInfo : PublicKeyInfo := ⟨Rsa.keyAlgorithm, .ofBytes (encode publicKey)⟩

def name (letter : UInt8) : Name :=
  ⟨[⟨[⟨Oid.ofArcs [2, 5, 4, 3], ⟨.universal .utf8String, [letter]⟩⟩]⟩]⟩

def certificate (issuer subject : Name) (publicKey : PublicKeyInfo) (signature : Bytes) : Certificate where
  tbs := {
    version := .v1
    serialNumber := ⟨1⟩
    signature := SigningPair.algorithm
    issuer
    validity := ⟨.ofDateTime ⟨2020, 1, 1, 0, 0, 0⟩, .ofDateTime ⟨2030, 1, 1, 0, 0, 0⟩⟩
    subject
    publicKey
    issuerUniqueId := none
    subjectUniqueId := none
    extensions := none }
  signatureAlgorithm := SigningPair.algorithm
  signature := .ofBytes signature

def leaf : Certificate :=
  certificate (name 0x43) .empty ⟨Rsa.keyAlgorithm, .ofBytes []⟩
    (Bytes.ofNat 32 0x99cb4562a1d3373da92510cbfd1396dabf045e634864a1bb0b1bdaa924e0545c ++
      Bytes.ofNat 32 0x1655410f14a4150be5d8d72f1e750a67bca140a0693fac990c342dec611e078b)

def issuing : Certificate :=
  certificate (name 0x52) (name 0x43) keyInfo
    (Bytes.ofNat 32 0x740851a4ae2b7ab681a77280b3fa9948d6a90f1308d9045c35e26cf432b9dc47 ++
      Bytes.ofNat 32 0xa93b83170a796d91eb1479c188c2592d9910436ca7fa272c4aef30cb2039bedb)

/-- The signature of a root is not looked at. -/
def root : Certificate := certificate (name 0x52) (name 0x52) keyInfo []

/-- A copy of the issuer that names itself as its issuer. It takes no private key to make one. -/
def forged : Certificate := certificate (name 0x43) (name 0x43) keyInfo []

def secret : SharedSecret := ⟨[0x70], [0x72], [0x73], 1⟩

def session : Session where
  transactionId := [0x74]
  senderNonce := [0x6e]
  certReqId := 0
  context := .sharedSecret secret
  sender := .empty
  recipient := .empty
  implicitConfirm := true
  state := .sent

def response (extraCerts : List Certificate) : Message where
  header := {
    pvno := Header.cmp2000
    sender := .directory session.recipient
    recipient := .directory session.sender
    protectionAlg := some secret.algorithm
    transactionId := some ⟨session.transactionId⟩
    recipNonce := some ⟨session.senderNonce⟩ }
  body := .initResponse ⟨none,
    [⟨session.certReqId, .ofStatus .accepted, some ⟨.certificate leaf, none, none⟩, none⟩]⟩
  protection := some <| .ofBytes <|
    Bytes.ofNat 32 0xa6169859bb03aa882ec27b49617a94e3344b4579dce8f1b5d35691eaf310bfff
  extraCerts := some extraCerts

def raw (extraCerts : List Certificate) : Bytes := Der.encode (response extraCerts)

def genuine : Model := ⟨leaf, [issuing], [root]⟩

def replaced : Model := ⟨leaf, [], [forged]⟩

theorem yields_genuine : Yields session 1 (raw [issuing, root]) (response [issuing, root]) genuine where
  decoded := by decide +kernel
  built := ⟨leaf, [issuing, root], false, by decide +kernel, by decide +kernel⟩

theorem yields_replaced : Yields session 1 (raw [forged]) (response [forged]) replaced where
  decoded := by decide +kernel
  built := ⟨leaf, [forged], false, by decide +kernel, by decide +kernel⟩

theorem receivedPart_replaced :
    Message.receivedPart (raw [forged]) = Message.receivedPart (raw [issuing, root]) := by
  decide +kernel

/-- Other certificates outside the protection make another chain and another root. -/
theorem forged_replaces_root :
    Yields session 1 (raw [issuing, root]) (response [issuing, root]) genuine ∧
      Yields session 1 (raw [forged]) (response [forged]) replaced ∧
      Message.receivedPart (raw [forged]) = Message.receivedPart (raw [issuing, root]) ∧
      (response [forged]).protection = (response [issuing, root]).protection ∧
      replaced.chain ≠ genuine.chain ∧ replaced.trusted ≠ genuine.trusted := by
  have hissuer : forged.issuer ≠ root.issuer := by decide +kernel
  refine ⟨yields_genuine, yields_replaced, receivedPart_replaced, rfl, ?_, ?_⟩
  · intro h
    exact absurd (congrArg List.length h) (by decide)
  · intro h
    exact hissuer (congrArg Certificate.issuer (List.cons.inj h).1)

/-- The leaf is granted all the same. -/
theorem yields_agree_replaced :
    Yields session 1 (raw [issuing, root]) (response [issuing, root]) genuine ∧
      Yields session 1 (raw [forged]) (response [forged]) replaced ∧
      Message.receivedPart (raw [forged]) = Message.receivedPart (raw [issuing, root]) ∧
      caPubs (response [forged]) = caPubs (response [issuing, root]) ∧
      ∃ c, Extends c (distinct (caPubs (response [issuing, root]))) (added (response [issuing, root]))
          genuine ∧
        Extends c (distinct (caPubs (response [issuing, root]))) (added (response [forged]))
          replaced ∧
        (added (response [forged]) = added (response [issuing, root]) → replaced = genuine) :=
  ⟨yields_genuine, yields_replaced, receivedPart_replaced,
    yields_agree yields_genuine yields_replaced receivedPart_replaced⟩

end Sample

end PkiEnroll.Enroll
