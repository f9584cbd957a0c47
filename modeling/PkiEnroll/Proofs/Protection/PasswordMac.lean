import PkiEnroll.Proofs.Protection.Acceptance

namespace PkiEnroll.Hash

theorem length_sha1 (message : Bytes) : (sha1.digest message).length = 20 := by
  simp [sha1, Sha1.digest, Bytes.length_ofNat]

theorem length_sha256 (message : Bytes) : (sha256.digest message).length = 32 := by
  simp [sha256, Sha2.digest, Sha2.variant32, Bytes.length_ofNat]

end PkiEnroll.Hash

namespace PkiEnroll.Protection

open Der X509 Cmp Hash

/-- The key after so many rounds: the hash of the secret and the salt, then that of the key before. -/
inductive DerivesKey (h : HashFunction) (secret salt : Bytes) : Nat → Bytes → Prop
  | first : DerivesKey h secret salt 1 (h.digest (secret ++ salt))
  | next {rounds : Nat} {key : Bytes} (before : DerivesKey h secret salt rounds key) :
      DerivesKey h secret salt (rounds + 1) (h.digest key)

/-- The hash functions that identifiers name, where one stands for SHA-256 and another for SHA-1. -/
inductive NamesHash (sha256 sha1 : Oid) : Oid → HashFunction → Prop
  | sha256 : NamesHash sha256 sha1 sha256 Hash.sha256
  | sha1 : NamesHash sha256 sha1 sha1 Hash.sha1

/-- Whether a byte string is the MAC of data under a secret that parameters call for. -/
structure PbmParameter.IsMac (p : PbmParameter) (secret data mac : Bytes) : Prop where
  iterations : 1 ≤ p.iterations.toNat ∧ p.iterations.toNat ≤ 100000
  value : ∃ oneWay hash key, NamesHash Algorithm.sha256 Algorithm.sha1 p.oneWay.oid oneWay ∧
    NamesHash Algorithm.hmacSha256 Algorithm.hmacSha1 p.mac.oid hash ∧
    DerivesKey oneWay secret p.salt.bytes p.iterations.toNat key ∧ mac = hash.hmac key data

/-- Whether the protection of a message is the MAC of a part of it, all bits used, for the parameters
that the message gives. -/
structure CarriesMac (secret part : Bytes) (m : Message) (p : PbmParameter) : Prop where
  algorithm : ∃ a, m.header.protectionAlg = some a ∧ a.oid = Algorithm.passwordBasedMac ∧
    ∃ e, a.parameters = some e ∧ decode? e.encode = some p
  protection : ∃ bits, m.protection = some bits ∧ bits.unused = 0 ∧ p.IsMac secret part bits.bytes

variable {secret salt data mac : Bytes} {h : HashFunction}

namespace DerivesKey

theorem pos {rounds : Nat} {key : Bytes} (hkey : DerivesKey h secret salt rounds key) : 0 < rounds := by
  cases hkey with
  | first => exact Nat.one_pos
  | next => exact Nat.succ_pos _

theorem eq_deriveKey {rounds : Nat} {key : Bytes} (hkey : DerivesKey h secret salt rounds key) :
    key = PbmParameter.deriveKey h secret salt rounds := by
  induction hkey with
  | first => rfl
  | next before ih =>
    obtain ⟨n, rfl⟩ := Nat.exists_eq_add_one.2 before.pos
    rw [ih]
    rfl

theorem of_pos {rounds : Nat} (hrounds : 0 < rounds) :
    DerivesKey h secret salt rounds (PbmParameter.deriveKey h secret salt rounds) := by
  obtain ⟨n, rfl⟩ := Nat.exists_eq_add_one.2 hrounds
  clear hrounds
  induction n with
  | zero => exact .first
  | succ n ih => exact .next ih

end DerivesKey

theorem namesHash_iff {sha256 sha1 named : Oid} (hne : sha1 ≠ sha256) :
    NamesHash sha256 sha1 named h ↔ PbmParameter.hash? sha256 sha1 named = some h := by
  constructor
  · intro hnames
    cases hnames with
    | sha256 => exact if_pos rfl
    | sha1 => rw [PbmParameter.hash?, if_neg hne, if_pos rfl]
  · intro hhash
    rcases PbmParameter.hash?_eq_some hhash with rfl | rfl
    · rw [PbmParameter.hash?, if_pos rfl] at hhash
      obtain rfl := Option.some.inj hhash
      exact .sha256
    · rw [PbmParameter.hash?, if_neg hne, if_pos rfl] at hhash
      obtain rfl := Option.some.inj hhash
      exact .sha1

namespace PbmParameter

variable {p : PbmParameter}

theorem outOfRange_iff :
    (p.iterations = 0 ∨ maxIterations < p.iterations) ↔
      ¬(1 ≤ p.iterations.toNat ∧ p.iterations.toNat ≤ 100000) := by
  rw [← UInt32.toNat_inj, UInt32.lt_iff_toNat_lt]
  change (p.iterations.toNat = 0 ∨ 100000 < p.iterations.toNat) ↔ _
  omega

theorem mac?_eq_ok_iff : p.mac? secret data = .ok mac ↔ p.IsMac secret data mac := by
  have honeWay : Algorithm.sha1 ≠ Algorithm.sha256 := by decide
  have hhmac : Algorithm.hmacSha1 ≠ Algorithm.hmacSha256 := by decide
  rw [mac?_eq]
  split
  next hout =>
    have hrange := outOfRange_iff.1 hout
    constructor
    · intro h
      cases h
    · intro hmac
      exact absurd hmac.iterations hrange
  next hin =>
    have hrange := not_not.1 (mt outOfRange_iff.2 hin)
    simp only [bind_eq_ok_iff, orFail_eq_ok_iff, ← namesHash_iff honeWay, ← namesHash_iff hhmac]
    constructor
    · rintro ⟨oneWay, honeWay, hash, hhash, h⟩
      have hvalue : mac = hash.hmac (deriveKey oneWay secret p.salt.bytes p.iterations.toNat) data :=
        (Except.ok.inj h).symm
      exact ⟨hrange, oneWay, hash, _, honeWay, hhash, .of_pos hrange.1, hvalue⟩
    · rintro ⟨-, oneWay, hash, key, honeWay, hhash, hkey, rfl⟩
      rw [hkey.eq_deriveKey]
      exact ⟨oneWay, honeWay, hash, hhash, rfl⟩

theorem IsMac.length (hmac : p.IsMac secret data mac) :
    mac.length = if p.mac.oid = Algorithm.hmacSha256 then 32 else 20 := by
  have hne : Algorithm.hmacSha1 ≠ Algorithm.hmacSha256 := by decide
  obtain ⟨oneWay, hash, key, -, hhash, -, rfl⟩ := hmac.value
  generalize p.mac.oid = named at hhash ⊢
  cases hhash with
  | sha256 =>
    rw [if_pos rfl]
    exact length_sha256 _
  | sha1 =>
    rw [if_neg hne]
    exact length_sha1 _

end PbmParameter

theorem SharedSecret.verify_congr {own other : SharedSecret} (hsecret : other.secret = own.secret) :
    other.verify = own.verify := by
  unfold verify
  rw [hsecret]

namespace Context

variable {s other : SharedSecret} {m m' : Message} {raw raw' part : Bytes}

theorem verifyMessage_sharedSecret_iff (hm : Message.decode raw = .ok m)
    (hpart : Message.receivedPart raw = .ok part) :
    (sharedSecret s).verifyMessage m raw = .ok () ↔ ∃ p, CarriesMac s.secret part m p := by
  rw [verifyMessage_eq_ok_iff]
  constructor
  · rintro ⟨a, bits, part', ha, hbits, hunused, hpart', hverify⟩
    obtain rfl : part' = part := Except.ok.inj (hpart'.symm.trans hpart)
    obtain ⟨hfamily, e, p, he, hread, hmac⟩ := SharedSecret.verify_eq_ok_iff.1 hverify
    have hdecode := decode?_encode_element (α := PbmParameter) (Message.fits_parameters hm ha he)
    exact ⟨p, ⟨a, ha, hfamily, e, he, hdecode.trans hread⟩, bits, hbits, hunused,
      PbmParameter.mac?_eq_ok_iff.1 hmac⟩
  · rintro ⟨p, ⟨a, ha, hfamily, e, he, hread⟩, bits, hbits, hunused, hmac⟩
    have hdecode := decode?_encode_element (α := PbmParameter) (Message.fits_parameters hm ha he)
    have hverify := SharedSecret.verify_eq_ok_iff.2
      ⟨hfamily, e, p, he, hdecode.symm.trans hread, PbmParameter.mac?_eq_ok_iff.2 hmac⟩
    exact ⟨a, bits, part, ha, hbits, hunused, hpart, hverify⟩

/-- The check reads the secret, the protected part and the protection, and nothing else. -/
theorem verifyMessage_sharedSecret_congr (hsecret : other.secret = s.secret)
    (hheader : m'.header = m.header) (hprotection : m'.protection = m.protection)
    (hpart : Message.receivedPart raw' = Message.receivedPart raw) :
    (sharedSecret other).verifyMessage m' raw' = (sharedSecret s).verifyMessage m raw := by
  simp only [verifyMessage, verify, hheader, hprotection, hpart, SharedSecret.verify_congr hsecret]

/-- A message is accepted under a shared secret exactly if it carries the MAC that its own parameters
call for, of full length; else it fails by its protection. Whatever else the receiver's context holds,
and whatever certificates come with the message, the outcome is the same. -/
theorem accepts_exact_mac (hm : Message.decode raw = .ok m) :
    ∃ part, Message.receivedPart raw = .ok part ∧
      ((sharedSecret s).verifyMessage m raw = .ok () ↔ ∃ p, CarriesMac s.secret part m p) ∧
      (∀ p, CarriesMac s.secret part m p → ∃ bits, m.protection = some bits ∧
        bits.bytes.length = if p.mac.oid = Algorithm.hmacSha256 then 32 else 20) ∧
      (∀ f, (sharedSecret s).verifyMessage m raw = .error f → f.kind = .protection) ∧
      ∀ other m' raw', other.secret = s.secret → Message.decode raw' = .ok m' →
        Message.receivedPart raw' = .ok part → m'.protection = m.protection →
        (sharedSecret other).verifyMessage m' raw' = (sharedSecret s).verifyMessage m raw := by
  obtain ⟨part, hpart, -, hunique⟩ := Message.decode_receivedPart hm
  refine ⟨part, hpart, verifyMessage_sharedSecret_iff hm hpart, ?_, ?_, ?_⟩
  · intro p hcarries
    obtain ⟨bits, hbits, -, hmac⟩ := hcarries.protection
    exact ⟨bits, hbits, hmac.length⟩
  · intro f hf
    exact List.mem_singleton.1 (verifyMessage_failsWithin_protection hpart f hf)
  · intro other m' raw' hsecret hm' hpart' hprotection
    obtain ⟨hheader, -⟩ := hunique raw' m' hm' hpart'
    exact verifyMessage_sharedSecret_congr hsecret hheader hprotection (hpart'.trans hpart.symm)

end Context

namespace Sample

open Enroll.Sample Context

/-- Parameters of another kind than those that this library sends: SHA-1 throughout, in three rounds. -/
def olderParameters : PbmParameter where
  salt := ⟨[0x01, 0x02]⟩
  oneWay := ⟨Algorithm.sha1, none⟩
  iterations := 3
  mac := ⟨Algorithm.hmacSha1, some Algorithm.nullParameters⟩

def olderConfirmation : Message where
  header := { confirmation.header with
    protectionAlg := some ⟨Algorithm.passwordBasedMac, some (Encoding.toElement olderParameters)⟩ }
  body := .confirmation
  protection := some (.ofBytes (Bytes.ofNat 20 0xaf8dd71c287528ece82be23621ddc24c2dac7898))

def olderPart : Bytes :=
  Message.pairBytes (Der.encode olderConfirmation.header) (Der.encode olderConfirmation.body)

theorem carriesMac_older :
    CarriesMac Enroll.Sample.secret.secret olderPart olderConfirmation olderParameters where
  algorithm := ⟨_, rfl, rfl, _, rfl, by decide +kernel⟩
  protection := by
    refine ⟨_, rfl, rfl, by decide, Hash.sha1, Hash.sha1, _, .sha1, .sha1, .next (.next .first), ?_⟩
    decide +kernel

/-- The three rounds are gone through as the message says, though the receiver's own parameters say one. -/
theorem accepts_exact_mac_older :
    Message.decode (Der.encode olderConfirmation) = .ok olderConfirmation ∧
      Message.receivedPart (Der.encode olderConfirmation) = .ok olderPart ∧
      CarriesMac Enroll.Sample.secret.secret olderPart olderConfirmation olderParameters ∧
      (sharedSecret Enroll.Sample.secret).verifyMessage olderConfirmation
        (Der.encode olderConfirmation) = .ok () := by
  have hread : Message.decode (Der.encode olderConfirmation) = .ok olderConfirmation := by
    decide +kernel
  have hpart : Message.receivedPart (Der.encode olderConfirmation) = .ok olderPart := by
    decide +kernel
  obtain ⟨part, hpart', haccepts, -⟩ := accepts_exact_mac (s := Enroll.Sample.secret) hread
  obtain rfl : part = olderPart := Except.ok.inj (hpart'.symm.trans hpart)
  exact ⟨hread, hpart, carriesMac_older, haccepts.2 ⟨_, carriesMac_older⟩⟩

end Sample

end PkiEnroll.Protection
