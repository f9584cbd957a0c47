import PkiEnroll.Proofs.Enroll.PollBudget
import PkiEnroll.Proofs.Protection.Flaw
import PkiEnroll.Proofs.Rsa.Signature

namespace PkiEnroll.Protection

open Der X509 Cmp

/-- Whether a certificate speaks for a pinned one with an RSA key of its own: it is issued under the name
of the pinned certificate and signed with the pinned key. -/
structure Delegates (pinned : Certificate) (pinnedKey : Rsa.PublicKey) (c : Certificate)
    (key : Rsa.PublicKey) : Prop where
  named : c.issuer = pinned.subject
  signed : verifyCertificate c pinnedKey = .ok ()
  holds : certificateKey c = .ok key

namespace SigningPair

variable {p : SigningPair} {pinned c : Certificate} {pinnedKey key : Rsa.PublicKey}
  {algorithm : AlgorithmIdentifier} {data signature : Bytes} {extraCerts : List Certificate}

theorem delegate?_eq_some_iff :
    delegate? pinned pinnedKey c = some key ↔ Delegates pinned pinnedKey c key := by
  constructor
  · intro h
    obtain ⟨hnamed, h⟩ := Option.ite_none_right_eq_some.1 h
    split at h
    next hsigned =>
      cases hkey : certificateKey c with
      | ok held =>
        rw [hkey] at h
        obtain rfl := Option.some.inj h
        exact ⟨hnamed, hsigned, hkey⟩
      | error f =>
        rw [hkey] at h
        cases h
    next => cases h
  · intro h
    rw [delegate?, if_pos h.named, h.signed, h.holds]
    rfl

theorem responderKeys_eq (hkey : certificateKey p.pinned = .ok pinnedKey) :
    p.responderKeys extraCerts =
      .ok (pinnedKey :: extraCerts.filterMap (delegate? p.pinned pinnedKey)) := by
  rw [responderKeys, hkey]
  rfl

theorem mem_delegates_iff :
    key ∈ extraCerts.filterMap (delegate? pinned pinnedKey) ↔
      ∃ c ∈ extraCerts, Delegates pinned pinnedKey c key := by
  simp only [List.mem_filterMap, delegate?_eq_some_iff]

theorem signature_ne_passwordBasedMac {scheme : Rsa.Scheme}
    (h : scheme ∈ [Rsa.Scheme.sha256, .sha384, .sha512]) :
    scheme.signature ≠ Algorithm.passwordBasedMac := by
  simp only [List.mem_cons, List.not_mem_nil, or_false] at h
  rcases h with rfl | rfl | rfl
  · decide
  · decide
  · decide

/-- A signature is accepted if it verifies with the pinned key or that of a delegate. -/
theorem verify_eq_ok_iff_delegates (hkey : certificateKey p.pinned = .ok pinnedKey) :
    p.verify algorithm data signature extraCerts = .ok () ↔
      ∃ scheme ∈ [Rsa.Scheme.sha256, .sha384, .sha512], algorithm.oid = scheme.signature ∧
        (Rsa.verify scheme pinnedKey data signature = true ∨
          ∃ c ∈ extraCerts, ∃ key, Delegates p.pinned pinnedKey c key ∧
            Rsa.verify scheme key data signature = true) := by
  rw [verify_eq_ok_iff]
  constructor
  · intro h
    obtain ⟨-, keys, hkeys, key, hmem, hverify⟩ := h
    obtain rfl := Except.ok.inj (hkeys.symm.trans (responderKeys_eq hkey))
    obtain ⟨scheme, hscheme, hverify⟩ := verifySignature_eq_ok_iff.1 hverify
    obtain ⟨hthree, hnamed⟩ := Rsa.Scheme.ofOid?_eq_some_iff.1 hscheme
    refine ⟨scheme, hthree, hnamed, ?_⟩
    rcases List.mem_cons.1 hmem with rfl | hmem
    · exact .inl hverify
    · obtain ⟨c, hc, hdelegates⟩ := mem_delegates_iff.1 hmem
      exact .inr ⟨c, hc, key, hdelegates, hverify⟩
  · intro h
    obtain ⟨scheme, hthree, hnamed, h⟩ := h
    have hscheme := Rsa.Scheme.ofOid?_eq_some_iff.2 ⟨hthree, hnamed⟩
    have hfamily : algorithm.oid ≠ Algorithm.passwordBasedMac := by
      rw [hnamed]
      exact signature_ne_passwordBasedMac hthree
    refine ⟨hfamily, _, responderKeys_eq hkey, ?_⟩
    rcases h with hverify | ⟨c, hc, key, hdelegates, hverify⟩
    · exact ⟨_, List.mem_cons_self, verifySignature_eq_ok_iff.2 ⟨scheme, hscheme, hverify⟩⟩
    · have hmem := mem_delegates_iff.2 ⟨c, hc, hdelegates⟩
      exact ⟨key, List.mem_cons_of_mem _ hmem,
        verifySignature_eq_ok_iff.2 ⟨scheme, hscheme, hverify⟩⟩

theorem verify_eq_ok_congr {others : List Certificate}
    (hkey : certificateKey p.pinned = .ok pinnedKey)
    (h : ∀ c key, Delegates p.pinned pinnedKey c key → (c ∈ others ↔ c ∈ extraCerts)) :
    p.verify algorithm data signature others = .ok () ↔
      p.verify algorithm data signature extraCerts = .ok () := by
  have hdelegates (P : Rsa.PublicKey → Prop) :
      (∃ c ∈ others, ∃ key, Delegates p.pinned pinnedKey c key ∧ P key) ↔
        ∃ c ∈ extraCerts, ∃ key, Delegates p.pinned pinnedKey c key ∧ P key := by
    constructor
    · rintro ⟨c, hc, key, hd, hP⟩
      exact ⟨c, (h c key hd).1 hc, key, hd, hP⟩
    · rintro ⟨c, hc, key, hd, hP⟩
      exact ⟨c, (h c key hd).2 hc, key, hd, hP⟩
  simp only [verify_eq_ok_iff_delegates hkey, hdelegates]

/-- The pinned key is the only source of trust. A response is accepted exactly if its signature is of one
of the three algorithms and verifies with the pinned key, or with the key of a certificate that came with
the response and was issued with the pinned key. So it makes no difference in which order certificates
come, how often, and what other certificates stand among them. -/
theorem trusts_only_pinned (hkey : certificateKey p.pinned = .ok pinnedKey) :
    (p.verify algorithm data signature extraCerts = .ok () ↔
      ∃ scheme ∈ [Rsa.Scheme.sha256, .sha384, .sha512], algorithm.oid = scheme.signature ∧
        (Rsa.verify scheme pinnedKey data signature = true ∨
          ∃ c ∈ extraCerts, ∃ key, Delegates p.pinned pinnedKey c key ∧
            Rsa.verify scheme key data signature = true)) ∧
    (∀ others, extraCerts ⊆ others →
      (∀ c ∈ others, c ∈ extraCerts ∨ ∀ key, ¬Delegates p.pinned pinnedKey c key) →
      (p.verify algorithm data signature others = .ok () ↔
        p.verify algorithm data signature extraCerts = .ok ())) ∧
    ∀ f, p.verify algorithm data signature extraCerts = .error f → f.kind = .protection := by
  refine ⟨verify_eq_ok_iff_delegates hkey, ?_, ?_⟩
  · intro others hsubset hothers
    apply verify_eq_ok_congr hkey
    intro c key hdelegates
    constructor
    · intro hc
      rcases hothers c hc with hmem | hnone
      · exact hmem
      · exact absurd hdelegates (hnone key)
    · intro hc
      exact hsubset hc
  · intro f hf
    exact List.mem_singleton.1 (verify_failsWithin p algorithm data signature extraCerts f hf)

end SigningPair

namespace Sample

open Enroll.Sample SigningPair

def delegateKey : Rsa.PublicKey where
  modulus := 0xf6ed5346f2817d6c1eef83be736adfb2487f6930ce3e4d6b2951d6d932f43303 *
    0xd5b763523e6906390819117c5ee513d0144e673455cb99f39a3e9a8486d6b393
  exponent := 3

/-- Issued under the root, with a key of its own. -/
def delegate : Certificate :=
  certificate (name 0x52) (name 0x44) ⟨Rsa.keyAlgorithm, .ofBytes (encode delegateKey)⟩
    (Bytes.ofNat 32 0x0b9fc3b592a90f81b9c5c61347167258918ecd04223a63a4baf2ecb06653ff8a ++
      Bytes.ofNat 32 0x9bce81e2b26ad2ad1973045f7f04532fa8dc27507ea7086ef3242a4aeca365f3)

/-- Bears the names of the delegate, but nobody has signed it. -/
def lookAlike : Certificate := certificate (name 0x52) (name 0x44) keyInfo []

def client : SigningPair := ⟨⟨leaf, Enroll.Sample.privateKey⟩, root⟩

def part : Bytes := [0x30, 0x03, 0x02, 0x01, 0x02]

def delegateSignature : Bytes :=
  Bytes.ofNat 32 0x29d600d8c1c9b9159ff614134459997e4c690cfa70ae7166835d3055e4f12f3e ++
    Bytes.ofNat 32 0x8661107fb22e12e40735a4cb7d1c0a2742e5050625eec2b4ebb13f53ebe27a22

theorem delegates_delegate : Delegates root Enroll.Sample.publicKey delegate delegateKey where
  named := by decide +kernel
  signed := by decide +kernel
  holds := by decide +kernel

theorem not_delegates_lookAlike (key : Rsa.PublicKey) :
    ¬Delegates root Enroll.Sample.publicKey lookAlike key := by
  intro h
  have hunsigned : verifyCertificate lookAlike Enroll.Sample.publicKey ≠ .ok () := by decide +kernel
  exact hunsigned h.signed

theorem not_delegates_leaf (key : Rsa.PublicKey) :
    ¬Delegates root Enroll.Sample.publicKey leaf key := by
  intro h
  have hother : leaf.issuer ≠ root.subject := by decide +kernel
  exact hother h.named

/-- The delegate is found among certificates that nobody needs. -/
theorem trusts_only_pinned_delegate :
    certificateKey client.pinned = .ok Enroll.Sample.publicKey ∧
      client.verify algorithm part delegateSignature [delegate] = .ok () ∧
      client.verify algorithm part delegateSignature [lookAlike, delegate, leaf, delegate] = .ok () := by
  have hkey : certificateKey client.pinned = .ok Enroll.Sample.publicKey := by decide +kernel
  have hverify : Rsa.verify .sha256 delegateKey part delegateSignature = true := by decide +kernel
  obtain ⟨hiff, hothers, -⟩ :=
    @trusts_only_pinned client _ algorithm part delegateSignature [delegate] hkey
  have haccepted : client.verify algorithm part delegateSignature [delegate] = .ok () :=
    hiff.2 ⟨.sha256, List.mem_cons_self, rfl,
      .inr ⟨delegate, List.mem_cons_self, delegateKey, delegates_delegate, hverify⟩⟩
  refine ⟨hkey, haccepted, (hothers _ (by simp) ?_).2 haccepted⟩
  intro c hc
  simp only [List.mem_cons, List.not_mem_nil, or_false] at hc
  rcases hc with rfl | rfl | rfl | rfl
  · exact .inr not_delegates_lookAlike
  · exact .inl List.mem_cons_self
  · exact .inr not_delegates_leaf
  · exact .inl List.mem_cons_self

end Sample

end PkiEnroll.Protection
