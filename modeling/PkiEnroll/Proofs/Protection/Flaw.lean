import PkiEnroll.Proofs.Cmp.ReceivedPart
import PkiEnroll.Proofs.Protection.Context

namespace PkiEnroll.Protection

open Der X509 Cmp

/-- Parameters of a MAC that can be worked with. -/
structure PbmParameter.Supported (p : PbmParameter) : Prop where
  iterations : 0 < p.iterations ∧ p.iterations ≤ maxIterations
  oneWay : p.oneWay.oid = Algorithm.sha256 ∨ p.oneWay.oid = Algorithm.sha1
  mac : p.mac.oid = Algorithm.hmacSha256 ∨ p.mac.oid = Algorithm.hmacSha1

/-- The algorithms that a context can check: the family of its own, and supported. -/
inductive Suits : Context → AlgorithmIdentifier → Prop
  | mac {s : SharedSecret} {algorithm : AlgorithmIdentifier} {encoded : Element} {p : PbmParameter}
      (family : algorithm.oid = Algorithm.passwordBasedMac) (given : algorithm.parameters = some encoded)
      (read : Encoding.ofElement? encoded = some p) (supported : p.Supported) :
      Suits (.sharedSecret s) algorithm
  | signature {pair : SigningPair} {algorithm : AlgorithmIdentifier} {scheme : Rsa.Scheme}
      (supported : Rsa.Scheme.ofOid? algorithm.oid = some scheme) : Suits (.signature pair) algorithm

/-- What can be wrong with the protection of a message: it is missing, or of an algorithm that the
context does not check, or the check of the protected part fails. -/
inductive Flawed (c : Context) (part : Bytes) (m : Message) : Prop
  | noAlgorithm (h : m.header.protectionAlg = none)
  | noProtection (h : m.protection = none)
  | unsuited {algorithm : AlgorithmIdentifier} (h : m.header.protectionAlg = some algorithm)
      (unsuited : ¬Suits c algorithm)
  | unverified {algorithm : AlgorithmIdentifier} {bits : BitString}
      (h : m.header.protectionAlg = some algorithm) (hbits : m.protection = some bits)
      (fails : ¬(bits.unused = 0 ∧ c.verify algorithm part bits.bytes m.extraCertList = .ok ()))

variable {c : Context} {algorithm : AlgorithmIdentifier} {part data protection secret : Bytes}
  {m : Message}

namespace PbmParameter

/-- One of the two hash functions, by the identifiers that name them in some place. -/
def hash? (sha256 sha1 : Oid) (named : Oid) : Option Hash.HashFunction :=
  if named = sha256 then some Hash.sha256 else if named = sha1 then some Hash.sha1 else none

theorem hash?_eq_some {sha256 sha1 named : Oid} {h : Hash.HashFunction}
    (hhash : hash? sha256 sha1 named = some h) : named = sha256 ∨ named = sha1 := by
  unfold hash? at hhash
  split at hhash
  · next h256 => exact .inl h256
  · split at hhash
    · next h1 => exact .inr h1
    · cases hhash

theorem mac?_eq (p : PbmParameter) (secret data : Bytes) :
    p.mac? secret data =
      if p.iterations = 0 ∨ maxIterations < p.iterations then
        .error (.protection ("PBM iteration count " ++ Nat.repr p.iterations.toNat ++ " out of range"))
      else do
        let oneWay ← orFail (.protection ("unsupported PBM OWF " ++ p.oneWay.oid.toString))
          (hash? Algorithm.sha256 Algorithm.sha1 p.oneWay.oid)
        let mac ← orFail (.protection ("unsupported PBM MAC " ++ p.mac.oid.toString))
          (hash? Algorithm.hmacSha256 Algorithm.hmacSha1 p.mac.oid)
        return mac.hmac (deriveKey oneWay secret p.salt.bytes p.iterations.toNat) data := by
  unfold mac? hash?
  split_ifs <;> rfl

theorem supported_of_mac? {p : PbmParameter} {mac : Bytes} (h : p.mac? secret data = .ok mac) :
    p.Supported := by
  rw [mac?_eq] at h
  split at h
  · cases h
  · next hrange =>
    simp only [not_or, UInt32.not_lt] at hrange
    obtain ⟨oneWay, honeWay, h⟩ := bind_eq_ok_iff.1 h
    obtain ⟨hash, hhash, -⟩ := bind_eq_ok_iff.1 h
    exact ⟨⟨UInt32.pos_iff_ne_zero.2 hrange.1, hrange.2⟩,
      hash?_eq_some (orFail_eq_ok_iff.1 honeWay), hash?_eq_some (orFail_eq_ok_iff.1 hhash)⟩

end PbmParameter

theorem SharedSecret.verify_eq_ok_iff {s : SharedSecret} :
    s.verify algorithm data protection = .ok () ↔
      algorithm.oid = Algorithm.passwordBasedMac ∧ ∃ encoded p, algorithm.parameters = some encoded ∧
        Encoding.ofElement? encoded = some p ∧
        PbmParameter.mac? p s.secret data = .ok protection := by
  unfold verify
  by_cases hfamily : algorithm.oid = Algorithm.passwordBasedMac
  · rw [if_neg (not_not_intro hfamily)]
    simp only [bind_eq_ok_iff, orFail_eq_ok_iff, hfamily, true_and]
    constructor
    · intro h
      obtain ⟨encoded, hgiven, p, hread, mac, hmac, h⟩ := h
      split at h
      · next hsame => exact ⟨encoded, p, hgiven, hread, hsame ▸ hmac⟩
      · cases h
    · intro h
      obtain ⟨encoded, p, hgiven, hread, hmac⟩ := h
      exact ⟨encoded, hgiven, p, hread, protection, hmac, if_pos rfl⟩
  · rw [if_pos hfamily]
    constructor
    · intro h
      cases h
    · intro h
      exact absurd h.1 hfamily

namespace SigningPair

theorem verifyAny_eq_ok_iff {oid : Oid} {failure : Failure} {keys : List Rsa.PublicKey} :
    verifyAny oid data protection failure keys = .ok () ↔
      ∃ key ∈ keys, verifySignature oid key data protection = .ok () := by
  induction keys generalizing failure with
  | nil => simp [verifyAny]
  | cons key keys ih =>
    simp only [verifyAny, List.mem_cons, exists_eq_or_imp]
    cases verifySignature oid key data protection with
    | ok => simp
    | error e => simp [ih]

theorem verify_eq_ok_iff {p : SigningPair} {extraCerts : List Certificate} :
    p.verify algorithm data protection extraCerts = .ok () ↔
      algorithm.oid ≠ Algorithm.passwordBasedMac ∧ ∃ keys, p.responderKeys extraCerts = .ok keys ∧
        ∃ key ∈ keys, verifySignature algorithm.oid key data protection = .ok () := by
  unfold verify
  by_cases hfamily : algorithm.oid = Algorithm.passwordBasedMac
  · rw [if_pos hfamily]
    constructor
    · intro h
      cases h
    · intro h
      exact absurd hfamily h.1
  · rw [if_neg hfamily]
    simp only [bind_eq_ok_iff, verifyAny_eq_ok_iff, hfamily, ne_eq, not_false_eq_true, true_and]

end SigningPair

/-- Nothing passes the check of a context that it does not suit. -/
theorem suits_of_verify {extraCerts : List Certificate}
    (h : c.verify algorithm data protection extraCerts = .ok ()) : Suits c algorithm := by
  cases c with
  | sharedSecret s =>
    obtain ⟨hfamily, encoded, p, hgiven, hread, hmac⟩ := SharedSecret.verify_eq_ok_iff.1 h
    exact .mac hfamily hgiven hread (PbmParameter.supported_of_mac? hmac)
  | signature pair =>
    obtain ⟨-, keys, -, key, -, hverify⟩ := SigningPair.verify_eq_ok_iff.1 h
    obtain ⟨scheme, hscheme, -⟩ := verifySignature_eq_ok_iff.1 hverify
    exact .signature hscheme

namespace Context

theorem verify_failsWithin (c : Context) (algorithm : AlgorithmIdentifier) (data protection : Bytes)
    (extraCerts : List Certificate) :
    FailsWithin [.protection] (c.verify algorithm data protection extraCerts) := by
  cases c with
  | sharedSecret s => exact s.verify_failsWithin _ _ _
  | signature pair => exact pair.verify_failsWithin _ _ _ _

variable {raw : Bytes}

theorem verifyMessage_failsWithin_protection (hpart : Message.receivedPart raw = .ok part) :
    FailsWithin [.protection] (c.verifyMessage m raw) := by
  unfold verifyMessage
  rw [hpart]
  exact .bind (.orFail (by decide) _) fun _ => .bind (.orFail (by decide) _) fun _ =>
    .bind (.orFail (by decide) _) fun _ => c.verify_failsWithin _ _ _ _

/-- The protection of a message is accepted exactly if nothing is wrong with it. -/
theorem verifyMessage_eq_ok_iff_not_flawed (hpart : Message.receivedPart raw = .ok part) :
    c.verifyMessage m raw = .ok () ↔ ¬Flawed c part m := by
  rw [verifyMessage_eq_ok_iff]
  constructor
  · intro h hflaw
    obtain ⟨algorithm, bits, part', ha, hb, hunused, hpart', hv⟩ := h
    obtain rfl : part' = part := Except.ok.inj (hpart'.symm.trans hpart)
    cases hflaw with
    | noAlgorithm h => simp [ha] at h
    | noProtection h => simp [hb] at h
    | unsuited h hs =>
      rw [ha] at h
      cases h
      exact hs (suits_of_verify hv)
    | unverified h hbits hfails =>
      rw [ha] at h
      rw [hb] at hbits
      cases h
      cases hbits
      exact hfails ⟨hunused, hv⟩
  -- unless one of the flaws is there, everything that a check needs is
  · intro h
    cases ha : m.header.protectionAlg with
    | none => exact absurd (.noAlgorithm ha) h
    | some algorithm =>
      cases hb : m.protection with
      | none => exact absurd (.noProtection hb) h
      | some bits =>
        by_cases hv : bits.unused = 0 ∧ c.verify algorithm part bits.bytes m.extraCertList = .ok ()
        · exact ⟨algorithm, bits, part, rfl, rfl, hv.1, hpart, hv.2⟩
        · exact absurd (.unverified ha hb hv) h

theorem verifyMessage_of_flawed (hpart : Message.receivedPart raw = .ok part)
    (h : Flawed c part m) : ∃ detail, c.verifyMessage m raw = .error (.protection detail) := by
  cases hv : c.verifyMessage m raw with
  | ok => exact absurd h ((verifyMessage_eq_ok_iff_not_flawed hpart).1 hv)
  | error f =>
    have hkind : f.kind ∈ [FailureKind.protection] := verifyMessage_failsWithin_protection hpart f hv
    obtain ⟨detail, rfl⟩ := Failure.eq_protection (List.mem_singleton.1 hkind)
    exact ⟨detail, rfl⟩

end Context

end PkiEnroll.Protection
