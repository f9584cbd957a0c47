import PkiEnroll.Proofs.Cmp.CarriedProtection
import PkiEnroll.Proofs.Protection.Responder

namespace PkiEnroll.Protection

open Der X509 Cmp

instance : Checked PbmParameter :=
  ⟨fun p => Valid p.salt ∧ Valid p.oneWay ∧ Valid p.iterations ∧ Valid p.mac⟩

instance : LawfulContent PbmParameter :=
  .ofFields rfl <|
    .required PbmParameter.salt fun _ =>
    .required PbmParameter.oneWay fun _ =>
    .required PbmParameter.iterations fun _ =>
    .required PbmParameter.mac fun _ => .done

/-- Whether one context has reason to accept what another has protected. Of a shared secret only the
secret matters. A signature is that of the key pinned, or of one that the pinned certificate vouches for. -/
inductive Trusts : Context → Context → Prop
  | sharedSecret {own other : SharedSecret} (hsecret : own.secret = other.secret) :
      Trusts (.sharedSecret own) (.sharedSecret other)
  | pinned {own other : SigningPair}
      (hkey : certificateKey own.pinned = .ok other.credential.key.publicKey) :
      Trusts (.signature own) (.signature other)
  | issued {own other : SigningPair} {issuerKey : Rsa.PublicKey}
      (hkey : certificateKey other.credential.certificate = .ok other.credential.key.publicKey)
      (hname : own.pinned.subject = other.credential.certificate.issuer)
      (hissuer : certificateKey own.pinned = .ok issuerKey)
      (hsigned : verifyCertificate other.credential.certificate issuerKey = .ok ()) :
      Trusts (.signature own) (.signature other)

namespace SharedSecret

theorem valid_parameters (s : SharedSecret) : Valid s.parameters := by
  have hoids : Algorithm.sha256.isValid = true ∧ Algorithm.hmacSha256.isValid = true := by decide
  exact ⟨trivial, ⟨hoids.1, fun _ h => nomatch h⟩, trivial, ⟨hoids.2, fun _ h => nomatch h⟩⟩

/-- The key is derived with the parameters that come with the message, so those of the receiver do not
matter. -/
theorem verify_of_protect {own other : SharedSecret} {part protection : Bytes}
    (hsecret : own.secret = other.secret)
    (hlength : (encode other.algorithm).length ≤ maxLength)
    (h : other.protect part = .ok protection) : own.verify other.algorithm part protection = .ok () := by
  have hparameters : (encode other.parameters).length ≤ maxLength :=
    Nat.le_trans (length_parameters_le rfl) hlength
  have hcontent := Nat.le_trans (length_content_le other.parameters) hparameters
  have hread := LawfulEncoding.ofElement?_toElement other.valid_parameters hcontent
  refine verify_eq_ok_iff.2 ⟨rfl, _, other.parameters, rfl, hread, ?_⟩
  rw [hsecret]
  exact h

end SharedSecret

namespace SigningPair

variable {own other : SigningPair}

theorem verifySignature_of_sign {key : Rsa.PrivateKey} {part signature : Bytes}
    (h : sign key part = .ok signature) :
    verifySignature algorithm.oid key.publicKey part signature = .ok () := by
  have hscheme : Rsa.Scheme.ofOid? algorithm.oid = some .sha256 := by rfl
  exact verifySignature_eq_ok_iff.2 ⟨_, hscheme, Rsa.verify_of_sign? (orFail_eq_ok_iff.1 h)⟩

theorem mem_responderKeys (h : Trusts (.signature own) (.signature other)) :
    ∃ keys, own.responderKeys [other.credential.certificate] = .ok keys ∧
      other.credential.key.publicKey ∈ keys := by
  cases h with
  | pinned hkey =>
    refine ⟨_, bind_eq_ok_iff.2 ⟨_, hkey, rfl⟩, List.mem_cons_self⟩
  | @issued _ _ issuerKey hkey hname hissuer hsigned =>
    refine ⟨_, bind_eq_ok_iff.2 ⟨_, hissuer, rfl⟩, List.mem_cons_of_mem _ ?_⟩
    exact mem_delegates_iff.2 ⟨_, List.mem_cons_self, hname.symm, hsigned, hkey⟩

theorem verify_of_sign {part signature : Bytes} (htrusts : Trusts (.signature own) (.signature other))
    (h : sign other.credential.key part = .ok signature) :
    own.verify algorithm part signature [other.credential.certificate] = .ok () := by
  obtain ⟨keys, hkeys, hmem⟩ := mem_responderKeys htrusts
  exact verify_eq_ok_iff.2 ⟨by decide, keys, hkeys, _, hmem, verifySignature_of_sign h⟩

end SigningPair

namespace Context

variable {own c : Context} {m m' : Message}

theorem valid_algorithm (c : Context) : Valid c.algorithm := by
  have hoids : Algorithm.passwordBasedMac.isValid = true ∧ Algorithm.sha256WithRsa.isValid = true := by
    decide
  cases c with
  | sharedSecret s => exact ⟨hoids.1, fun _ _ => trivial⟩
  | signature p => exact ⟨hoids.2, fun _ _ => trivial⟩

theorem valid_complete (c : Context) {header : Header} (h : Valid header) :
    Valid (c.complete header) := by
  obtain ⟨hpvno, hsender, hrecipient, htime, -, hkid, hrest⟩ := h
  refine ⟨hpvno, hsender, hrecipient, htime, ?_, fun _ _ => trivial, hrest⟩
  intro a ha
  obtain rfl := Option.some.inj ha
  exact c.valid_algorithm

theorem valid_of_protectMessage (hm : Valid m) (hcerts : Valid c.extraCerts)
    (h : c.protectMessage m = .ok m') : Valid m' := by
  obtain ⟨part, protection, -, -, rfl⟩ := protectMessage_eq_ok h
  obtain ⟨hheader, hbody, -, hextra⟩ := hm
  refine ⟨c.valid_complete hheader, hbody, fun _ _ => trivial, ?_⟩
  dsimp only
  split
  · exact hextra
  · intro cs hcs
    obtain rfl := Option.some.inj hcs
    exact hcerts

theorem verify_of_protect {part protection : Bytes} (htrusts : Trusts own c)
    (hlength : (encode c.algorithm).length ≤ maxLength) (h : c.protect part = .ok protection)
    {extraCerts : List Certificate} (hcerts : c.extraCerts ≠ [] → extraCerts = c.extraCerts) :
    own.verify c.algorithm part protection extraCerts = .ok () := by
  cases htrusts with
  | sharedSecret hsecret => exact SharedSecret.verify_of_protect hsecret hlength h
  | pinned hkey =>
    rw [hcerts (List.cons_ne_nil _ _)]
    exact SigningPair.verify_of_sign (.pinned hkey) h
  | issued hkey hname hissuer hsigned =>
    rw [hcerts (List.cons_ne_nil _ _)]
    exact SigningPair.verify_of_sign (.issued hkey hname hissuer hsigned) h

/-- Only what comes with the protection matters, and the bytes. -/
theorem verifyMessage_of_protectMessage {read : Message} (h : c.protectMessage m = .ok m')
    (hlength : (encode m').length ≤ maxLength) (htrusts : Trusts own c)
    (halgorithm : read.header.protectionAlg = m'.header.protectionAlg)
    (hbits : read.protection = m'.protection)
    (hcerts : c.extraCerts ≠ [] → read.extraCerts = m'.extraCerts) :
    own.verifyMessage read (encode m') = .ok () := by
  have hpart := Message.receivedPart_encode hlength
  have hheader := Nat.le_trans (Message.length_header_le m') hlength
  obtain ⟨part, protection, hprotected, hprotection, rfl⟩ := protectMessage_eq_ok h
  have hfits : (encode c.algorithm).length ≤ maxLength :=
    Nat.le_trans (Header.length_protectionAlg_le rfl) hheader
  refine verifyMessage_eq_ok_iff.2
    ⟨c.algorithm, BitString.ofBytes protection, part, halgorithm, hbits, rfl, hpart.trans hprotected, ?_⟩
  refine verify_of_protect htrusts hfits hprotection fun hsome => ?_
  have hfalse : c.extraCerts.isEmpty = false := by simpa using hsome
  simp [Message.extraCertList, hcerts hsome, hfalse]

theorem verifyMessage_of_decode {raw : Bytes} {read : Message} (h : c.protectMessage m = .ok m')
    (hraw : m'.encode = .ok raw) (htrusts : Trusts own c) (hcerts : Valid c.extraCerts)
    (hread : Message.decode raw = .ok read) : own.verifyMessage read raw = .ok () := by
  obtain ⟨_, protection, -, -, hm'⟩ := protectMessage_eq_ok h
  have halgorithm : m'.header.protectionAlg = some c.algorithm := by
    rw [hm']
    rfl
  have hbits : m'.protection = some (BitString.ofBytes protection) := by rw [hm']
  obtain ⟨halgorithm', hbits', hextra⟩ :=
    Message.protection_of_decode hraw hread halgorithm c.valid_algorithm hbits
  obtain ⟨hlength, rfl⟩ := bounded_eq_ok_iff.1 hraw
  refine verifyMessage_of_protectMessage h hlength htrusts (halgorithm'.trans halgorithm.symm)
    (hbits'.trans hbits.symm) fun hsome => ?_
  have hfalse : c.extraCerts.isEmpty = false := by simpa using hsome
  have hsent : m'.extraCerts = some c.extraCerts := by
    rw [hm']
    simp [hfalse]
  exact (hextra _ hsent hcerts).trans hsent.symm

/-- A protected message has an encoding if and only if it is not too long for one. Its protection is then
accepted by every context that trusts the one that protected it, and so is that of what is read of the
encoding if the signer's certificate can be read. This is the message itself if its values can be read, as
they can if those of the message and of the certificate can. -/
theorem accepts_protected (h : c.protectMessage m = .ok m') (htrusts : Trusts own c) :
    ((∃ raw, m'.encode = .ok raw) ↔ (encode m').length ≤ maxLength) ∧
      (Valid m → Valid c.extraCerts → Valid m') ∧
      ∀ raw, m'.encode = .ok raw →
        own.verifyMessage m' raw = .ok () ∧ (Message.decode raw = .ok m' ↔ Valid m') ∧
        (Valid c.extraCerts → ∀ read, Message.decode raw = .ok read →
          own.verifyMessage read raw = .ok ()) := by
  refine ⟨⟨?_, ?_⟩, fun hm hcerts => valid_of_protectMessage hm hcerts h, ?_⟩
  · rintro ⟨raw, hraw⟩
    exact (bounded_eq_ok_iff.1 hraw).1
  · intro hlength
    exact ⟨_, bounded_eq_ok_iff.2 ⟨hlength, rfl⟩⟩
  · intro raw hraw
    refine ⟨?_, Message.decode_encoded_iff hraw, fun hcerts read hread => ?_⟩
    · obtain ⟨hlength, rfl⟩ := bounded_eq_ok_iff.1 hraw
      exact verifyMessage_of_protectMessage h hlength htrusts rfl rfl fun _ => rfl
    · exact verifyMessage_of_decode h hraw htrusts hcerts hread

end Context

namespace Sample

open Enroll.Sample Context

def confirmation : Message where
  header := { pvno := Header.cmp2000, sender := .directory .empty, recipient := .directory .empty }
  body := .confirmation

/-- Signs with a certificate, and holds the other side to the root. -/
def signer (c : Certificate) : Context := .signature ⟨⟨c, Enroll.Sample.privateKey⟩, root⟩

theorem trusts_issuing : Trusts (signer leaf) (signer issuing) :=
  @Trusts.issued ⟨⟨leaf, Enroll.Sample.privateKey⟩, root⟩ ⟨⟨issuing, Enroll.Sample.privateKey⟩, root⟩
    Enroll.Sample.publicKey (by decide +kernel) (by decide +kernel) (by decide +kernel)
    (by decide +kernel)

/-- The certificate that comes with the signature vouches for its key. -/
theorem accepts_protected_issuing : ∃ m raw, (signer issuing).protectMessage confirmation = .ok m ∧
    m.encode = .ok raw ∧ Message.decode raw = .ok m ∧ (signer leaf).verifyMessage m raw = .ok () := by
  have hsent : ((signer issuing).protectMessage confirmation >>= Message.encode).isOk = true := by
    decide +kernel
  obtain ⟨raw, hraw⟩ := exists_of_isOk hsent
  obtain ⟨m, hm, hraw⟩ := bind_eq_ok_iff.1 hraw
  have hread : Message.decode (encode confirmation) = .ok confirmation := by decide +kernel
  have hissuing : decode? (encode issuing) = some issuing := by decide +kernel
  have hcerts : Valid (signer issuing).extraCerts := by
    intro c hc
    rw [List.mem_singleton.1 hc]
    exact (of_decode? hissuing).1
  obtain ⟨-, hvalid, haccepted⟩ := accepts_protected hm trusts_issuing
  obtain ⟨hverified, hdecoded, -⟩ := haccepted raw hraw
  have hm' := hvalid (Message.encode_of_decode hread).1 hcerts
  exact ⟨m, raw, hm, hraw, hdecoded.2 hm', hverified⟩

def sharing : Context := .sharedSecret ⟨[0x70], [0x72], [0x73], 1⟩

/-- The issuing certificate under a name of type 1.2.3. -/
def shortSubject : Certificate :=
  { issuing with
    tbs := { issuing.tbs with subject := ⟨[⟨[⟨Oid.ofArcs [1, 2, 3], ⟨.universal .utf8String, [0x78]⟩⟩]⟩]⟩ } }

theorem exists_unread {c : Context} {m : Message}
    (hsent : (c.protectMessage m >>= Message.encode).isOk = true)
    (hread : (c.protectMessage m >>= Message.encode >>= Message.decode).isOk = false) :
    ∃ m' raw, c.protectMessage m = .ok m' ∧ m'.encode = .ok raw ∧
      ∀ response, Message.decode raw ≠ .ok response := by
  obtain ⟨raw, hraw⟩ := exists_of_isOk hsent
  rw [hraw] at hread
  obtain ⟨m', hm', hraw⟩ := bind_eq_ok_iff.1 hraw
  refine ⟨m', raw, hm', hraw, fun response hresponse => ?_⟩
  change (Message.decode raw).isOk = false at hread
  rw [hresponse] at hread
  cases hread

/-- What is protected cannot always be read back, because of a name in the message or in the signer's
certificate. -/
theorem protected_not_read :
    (Trusts sharing sharing ∧ ∃ m raw, sharing.protectMessage Message.shortType = .ok m ∧
      m.encode = .ok raw ∧ ∀ response, Message.decode raw ≠ .ok response) ∧
    Trusts (signer root) (signer shortSubject) ∧
      ∃ m raw, (signer shortSubject).protectMessage confirmation = .ok m ∧
        m.encode = .ok raw ∧ ∀ response, Message.decode raw ≠ .ok response := by
  refine ⟨⟨.sharedSecret rfl, exists_unread (by decide +kernel) (by decide +kernel)⟩, ?_,
    exists_unread (by decide +kernel) (by decide +kernel)⟩
  exact @Trusts.pinned ⟨⟨root, Enroll.Sample.privateKey⟩, root⟩
    ⟨⟨shortSubject, Enroll.Sample.privateKey⟩, root⟩ (by decide +kernel)

end Sample

end PkiEnroll.Protection
