import Mathlib.Control.Monad.Basic
import PkiEnroll.Proofs.Cmp.Failure
import PkiEnroll.Protection.Context

namespace PkiEnroll.Protection

open Der X509 Cmp

theorem toBytes?_eq_some_iff {bits : BitString} {b : Bytes} :
    bits.toBytes? = some b ↔ bits.unused = 0 ∧ bits.bytes = b := by
  simp [BitString.toBytes?]

theorem bounded_failsWithin (b : Bytes) : FailsWithin [.decode] (bounded b) := by
  unfold bounded
  split
  · exact .ok b
  · exact .error (by decide)

theorem receivedPart_failsWithin (raw : Bytes) : FailsWithin [.decode] (Message.receivedPart raw) := by
  unfold Message.receivedPart
  refine .bind (.orFail (by decide) _) fun outer => ?_
  split
  · exact .error (by decide)
  · refine .bind (.orFail (by decide) _) fun (header, rest) => ?_
    exact .bind (.orFail (by decide) _) fun (body, _) => bounded_failsWithin _

theorem certificateKey_failsWithin (c : Certificate) : FailsWithin [.protection] (certificateKey c) :=
  .orFail (by simp) _

theorem sign_failsWithin (key : Rsa.PrivateKey) (data : Bytes) :
    FailsWithin [.protection] (sign key data) :=
  .orFail (by decide) _

theorem verifySignature_failsWithin (algorithm : Oid) (key : Rsa.PublicKey) (data signature : Bytes) :
    FailsWithin [.protection] (verifySignature algorithm key data signature) := by
  unfold verifySignature
  split
  · exact .error (by simp)
  · split
    · exact .ok ()
    · exact .error (by decide)

theorem verifySignature_eq_ok_iff {algorithm : Oid} {key : Rsa.PublicKey} {data signature : Bytes} :
    verifySignature algorithm key data signature = .ok () ↔
      ∃ scheme, Rsa.Scheme.ofOid? algorithm = some scheme ∧
        Rsa.verify scheme key data signature = true := by
  unfold verifySignature
  cases Rsa.Scheme.ofOid? algorithm <;> simp

theorem mac?_failsWithin (p : PbmParameter) (secret data : Bytes) :
    FailsWithin [.protection] (p.mac? secret data) := by
  unfold PbmParameter.mac?
  have hmac (oneWay : Hash.HashFunction) : FailsWithin [.protection] (do
      let mac ←
        if p.mac.oid = Algorithm.hmacSha256 then pure Hash.sha256
        else if p.mac.oid = Algorithm.hmacSha1 then pure Hash.sha1
        else throw (.protection ("unsupported PBM MAC " ++ p.mac.oid.toString))
      return mac.hmac (PbmParameter.deriveKey oneWay secret p.salt.bytes p.iterations.toNat) data) := by
    refine .ite (.ok _) (.ite (.ok _) (.bind (.error ?_) fun mac => .ok _))
    simp
  refine .ite (.bind (.error ?_) fun r => ?_)
    (.ite (hmac _) (.ite (hmac _) (.bind (.error ?_) fun oneWay => hmac oneWay)))
  · simp
  · exact .ite (hmac _) (.ite (hmac _) (.bind (.error (by simp)) fun oneWay => hmac oneWay))
  · simp

theorem verifyAny_failsWithin (algorithm : Oid) (data signature : Bytes) (failure : Failure)
    (h : failure.kind ∈ [.protection]) (keys : List Rsa.PublicKey) :
    FailsWithin [.protection] (SigningPair.verifyAny algorithm data signature failure keys) := by
  induction keys generalizing failure with
  | nil => exact .error h
  | cons key keys ih =>
    unfold SigningPair.verifyAny
    cases hv : verifySignature algorithm key data signature with
    | ok => exact .ok ()
    | error e => exact ih e (verifySignature_failsWithin algorithm key data signature e hv)

namespace SharedSecret

theorem verify_failsWithin (s : SharedSecret) (algorithm : AlgorithmIdentifier)
    (data protection : Bytes) : FailsWithin [.protection] (s.verify algorithm data protection) := by
  unfold verify
  have hrest : FailsWithin [.protection] (do
      let encoded ← orFail (.protection "PasswordBasedMac without parameters") algorithm.parameters
      let parameters : PbmParameter ←
        orFail (.protection ("invalid PBMParameter: " ++ Failure.malformedDetail))
          (Encoding.ofElement? encoded)
      if (← parameters.mac? s.secret data) = protection then return ()
      throw (.protection "PasswordBasedMac verification failed")) := by
    refine .bind (.orFail (by decide) _) fun encoded => .bind (.orFail ?_ _) fun parameters => ?_
    · simp
    · exact .bind (mac?_failsWithin _ _ _) fun mac => .ite (.ok ()) (.error (by decide))
  exact .ite (.bind (.error (by simp)) fun _ => hrest) hrest

end SharedSecret

namespace SigningPair

theorem verify_failsWithin (p : SigningPair) (algorithm : AlgorithmIdentifier)
    (data signature : Bytes) (extraCerts : List Certificate) :
    FailsWithin [.protection] (p.verify algorithm data signature extraCerts) := by
  unfold verify
  have hkeys : FailsWithin [.protection] (p.responderKeys extraCerts) :=
    .bind (certificateKey_failsWithin _) fun key => .ok _
  have hrest := hkeys.bind fun keys => verifyAny_failsWithin algorithm.oid data signature
    (.protection "signature verification failed") (by decide) keys
  exact .ite (.bind (.error (by decide)) fun _ => hrest) hrest

end SigningPair

namespace Context

theorem ofCredential_eq_ok {credential : Credential} {pinned : Option Certificate} {caName : String}
    {c : Context} (h : ofCredential credential pinned caName = .ok c) :
    ∃ certificate, pinned = some certificate ∧ c = .signature ⟨credential, certificate⟩ := by
  cases pinned with
  | none => cases h
  | some certificate =>
    cases h
    exact ⟨certificate, rfl, rfl⟩

theorem ofCredential_failsWithin (credential : Credential) (pinned : Option Certificate)
    (caName : String) : FailsWithin [.configuration] (ofCredential credential pinned caName) := by
  cases pinned with
  | none => exact .error (by simp)
  | some certificate => exact .ok _

theorem verifyMessage_eq_ok_iff {c : Context} {m : Message} {raw : Bytes} :
    c.verifyMessage m raw = .ok () ↔
      ∃ algorithm bits part, m.header.protectionAlg = some algorithm ∧ m.protection = some bits ∧
        bits.unused = 0 ∧ Message.receivedPart raw = .ok part ∧
        c.verify algorithm part bits.bytes m.extraCertList = .ok () := by
  simp only [verifyMessage, bind_eq_ok_iff, orFail_eq_ok_iff, toBytes?_eq_some_iff]
  constructor
  · intro h
    obtain ⟨algorithm, ha, bits, hb, _, ⟨hunused, rfl⟩, part, hpart, hv⟩ := h
    exact ⟨algorithm, bits, part, ha, hb, hunused, hpart, hv⟩
  · intro h
    obtain ⟨algorithm, bits, part, ha, hb, hunused, hpart, hv⟩ := h
    exact ⟨algorithm, ha, bits, hb, _, ⟨hunused, rfl⟩, part, hpart, hv⟩

theorem verifyMessage_failsWithin (c : Context) (m : Message) (raw : Bytes) :
    FailsWithin [.decode, .protection] (c.verifyMessage m raw) := by
  refine .bind (.orFail (by decide) _) fun algorithm => .bind (.orFail (by decide) _) fun bits =>
    .bind (.orFail (by decide) _) fun protection => .bind ?_ fun part => ?_
  · exact (receivedPart_failsWithin raw).mono (by decide)
  · cases c with
    | sharedSecret s => exact (s.verify_failsWithin _ _ _).mono (by decide)
    | signature p => exact (p.verify_failsWithin _ _ _ _).mono (by decide)

theorem protectMessage_eq_ok {c : Context} {m m' : Message} (h : c.protectMessage m = .ok m') :
    ∃ part protection, Message.protectedPart (c.complete m.header) m.body = .ok part ∧
      c.protect part = .ok protection ∧ m' = {
        header := c.complete m.header
        body := m.body
        protection := some (BitString.ofBytes protection)
        extraCerts := if c.extraCerts.isEmpty then m.extraCerts else some c.extraCerts } := by
  obtain ⟨part, hpart, h⟩ := bind_eq_ok_iff.1 h
  obtain ⟨protection, hprotection, h⟩ := bind_eq_ok_iff.1 h
  exact ⟨part, protection, hpart, hprotection, (Except.ok.inj h).symm⟩

theorem protectMessage_failsWithin (c : Context) (m : Message) :
    FailsWithin [.decode, .protection] (c.protectMessage m) := by
  refine .bind ((bounded_failsWithin _).mono (by decide)) fun part => .bind ?_ fun protection => .ok _
  cases c with
  | sharedSecret s => exact (mac?_failsWithin _ _ _).mono (by decide)
  | signature p => exact (sign_failsWithin _ _).mono (by decide)

end Context

end PkiEnroll.Protection
