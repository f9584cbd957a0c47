import PkiEnroll.Proofs.Cmp.CarriedRequests
import PkiEnroll.Proofs.Enroll.ValidityPeriod
import PkiEnroll.Proofs.Protection.Acceptance

namespace PkiEnroll.Enroll

open Der X509 Cmp Protection

namespace Request

variable {csr : Bytes} {key : Rsa.PrivateKey} {r : Request} {certReqId : Int64} {issuer : Name}
  {msg : CertReqMsg}

theorem certReqMsg_eq_ok_iff :
    r.certReqMsg certReqId issuer = .ok msg ↔
      ∃ template signature, r.template issuer = .ok template ∧
        sign r.key (encode (⟨certReqId, template, none⟩ : CertRequest)) = .ok signature ∧
        msg = ⟨⟨certReqId, template, none⟩, some (.signature ⟨algorithm, .ofBytes signature⟩), none⟩ := by
  unfold certReqMsg
  rw [bind_eq_ok_iff]
  refine exists_congr fun template => ?_
  dsimp only
  cases hsign : sign r.key (encode (⟨certReqId, template, none⟩ : CertRequest)) with
  | error e => simp [throw, throwThe, MonadExceptOf.throw]
  | ok signature => simp [pure, Except.pure, eq_comm]

/-- Beside the issuer, everything in a message that asks for a certificate can be read back. -/
theorem valid_certReqMsg_iff (hr : Fits csr key r) (h : r.certReqMsg certReqId issuer = .ok msg) :
    Valid msg ↔ Valid issuer := by
  obtain ⟨template, signature, htemplate, -, rfl⟩ := certReqMsg_eq_ok_iff.1 h
  rw [← valid_template_iff hr htemplate]
  have hproof : Valid (ProofOfPossession.signature ⟨algorithm, .ofBytes signature⟩) :=
    ⟨valid_algorithm, trivial⟩
  constructor
  · intro hvalid
    exact hvalid.1.2.1
  · intro hvalid
    exact ⟨⟨trivial, hvalid, by simp⟩, by simpa using hproof, by simp⟩

/-- A message that asks `issuer` to certify the subject and the key of a request, with a signature over
the bytes of what it asks for. -/
structure Proves (c : CertificationRequest) (publicKey : Rsa.PublicKey) (signed signature : Bytes)
    (certReqId : Int64) (issuer : Name) (msg : CertReqMsg) : Prop where
  certReqId_eq : msg.request.certReqId = certReqId
  subject : msg.request.template.subject = some c.info.subject
  publicKeyInfo : msg.request.template.publicKey = some c.info.publicKey
  issuer_eq : msg.request.template.issuer = some issuer
  encoded : encode msg.request = signed
  proof : msg.proof = some (.signature ⟨⟨Algorithm.sha256WithRsa, none⟩, .ofBytes signature⟩)
  verifies : verifySignature Algorithm.sha256WithRsa publicKey signed signature = .ok ()

theorem proves_of_certReqMsg (hr : Fits csr key r) (h : r.certReqMsg certReqId issuer = .ok msg) :
    ∃ signed signature, sign key signed = .ok signature ∧
      Proves r.csr key.publicKey signed signature certReqId issuer msg := by
  obtain ⟨template, signature, htemplate, hsign, rfl⟩ := certReqMsg_eq_ok_iff.1 h
  obtain ⟨period, extensions, -, -, rfl⟩ := template_eq_ok_iff.1 htemplate
  rw [hr.key_eq] at hsign
  exact ⟨_, signature, hsign, rfl, rfl, rfl, rfl, rfl, rfl, SigningPair.verifySignature_of_sign hsign⟩

/-- Whatever the wishes are, a message asks for the subject and the key of the encoded request and is
signed with that key. A message of the protocol that carries it is read back if it can be, and the bytes
that were signed are then those of the request that is read in its place. -/
theorem certReqMsg_proves_possession (hr : Prepared csr key r)
    (h : r.certReqMsg certReqId issuer = .ok msg) :
    ∃ c publicKey signed signature, (decode? csr : Option CertificationRequest) = some c ∧
      Rsa.PublicKey.ofInfo? c.info.publicKey = some publicKey ∧ sign key signed = .ok signature ∧
      Proves c publicKey signed signature certReqId issuer msg ∧
      ∀ m msgs b, m.body.certReqs? = some msgs → m.encode = .ok b →
        (Message.decode b = .ok m ↔ Valid m) ∧
        (Valid issuer → ∀ m', Message.decode b = .ok m' →
          m'.body.tagNumber = m.body.tagNumber ∧ ∃ msgs', m'.body.certReqs? = some msgs' ∧
            ∀ i : Nat, msgs[i]? = some msg → msgs'[i]? = some msg) := by
  have hfits := hr.fits
  obtain ⟨signed, signature, hsign, hproves⟩ := proves_of_certReqMsg hfits h
  refine ⟨r.csr, key.publicKey, signed, signature, hfits.decoded, hfits.paired, hsign, hproves, ?_⟩
  intro m msgs b hbody hencode
  refine ⟨Message.decode_encoded_iff hencode, fun hissuer m' hread => ?_⟩
  obtain ⟨htag, msgs', hmsgs', hplaces⟩ := Message.certReqs_of_decode hbody hencode hread
  exact ⟨htag, msgs', hmsgs', fun i hi => hplaces i msg hi ((valid_certReqMsg_iff hfits h).2 hissuer)⟩

end Request

namespace Sample

open Request

def asking (msg : CertReqMsg) : Message where
  header := {
    pvno := Header.cmp2000
    sender := .directory session.sender
    recipient := .directory session.recipient }
  body := .initRequest [msg]

def askingBytes (issuer : Name) : Except Failure Bytes := do
  (asking (← hurried.request.certReqMsg 0 issuer)).encode

/-- The request in a message that is read back is signed with the key to be certified. -/
theorem certReqMsg_proves_possession_asking :
    ∃ msg b m' msgs signed signature, hurried.request.certReqMsg 0 session.recipient = .ok msg ∧
      (asking msg).encode = .ok b ∧ Message.decode b = .ok m' ∧ m'.body.certReqs? = some msgs ∧
      msgs[0]? = some msg ∧ sign privateKey signed = .ok signature ∧
      Proves hurried.request.csr privateKey.publicKey signed signature 0 session.recipient msg := by
  have hread : (askingBytes session.recipient >>= Message.decode).isOk = true := by decide +kernel
  obtain ⟨m', hread⟩ := exists_of_isOk hread
  obtain ⟨b, hb, hread⟩ := bind_eq_ok_iff.1 hread
  obtain ⟨msg, hmsg, hb⟩ := bind_eq_ok_iff.1 hb
  obtain ⟨c, publicKey, signed, signature, hdecoded, hpaired, hsign, hproves, hwire⟩ :=
    certReqMsg_proves_possession prepared_hurried hmsg
  obtain rfl : hurried.request.csr = c :=
    Option.some.inj (prepared_hurried.fits.decoded.symm.trans hdecoded)
  obtain rfl : privateKey.publicKey = publicKey :=
    Option.some.inj (prepared_hurried.fits.paired.symm.trans hpaired)
  obtain ⟨-, hplaces⟩ := hwire (asking msg) [msg] b rfl hb
  obtain ⟨-, msgs, hmsgs, hplaces⟩ := hplaces valid_recipient m' hread
  exact ⟨msg, b, m', msgs, signed, signature, hmsg, hb, hread, hmsgs, hplaces 0 rfl, hsign, hproves⟩

/-- A message that asks an issuer with a name that is not read back is not read at all. -/
theorem asking_not_read :
    Prepared (encode hurried.request.csr) privateKey hurried.request ∧
      ∃ msg b, hurried.request.certReqMsg 0 shortTypeName = .ok msg ∧ (asking msg).encode = .ok b ∧
        ∀ m', Message.decode b ≠ .ok m' := by
  refine ⟨prepared_hurried, ?_⟩
  obtain ⟨b, hb⟩ := exists_of_isOk (by decide +kernel : (askingBytes shortTypeName).isOk = true)
  have hunread : (askingBytes shortTypeName >>= Message.decode).isOk = false := by decide +kernel
  rw [hb] at hunread
  obtain ⟨msg, hmsg, hb⟩ := bind_eq_ok_iff.1 hb
  refine ⟨msg, b, hmsg, hb, fun m' hread => ?_⟩
  have hsome : (Message.decode b).isOk = false := hunread
  rw [hread] at hsome
  cases hsome

end Sample

end PkiEnroll.Enroll
