import PkiEnroll.Proofs.Enroll.Chain
import PkiEnroll.Proofs.Protection.Context

namespace PkiEnroll.Enroll

open Der X509 Cmp Protection

/-- Whether one certificate is issued by another: it names it, and its signature verifies under the
RSA key of the other. -/
structure IssuedBy (c issuer : Certificate) : Prop where
  named : issuer.subject = c.issuer
  signed : ∃ key scheme, Rsa.PublicKey.ofInfo? issuer.publicKey = some key ∧
    Rsa.Scheme.ofOid? c.signatureAlgorithm.oid = some scheme ∧ c.signature.unused = 0 ∧
    Rsa.verify scheme key (encode c.tbs) c.signature.bytes = true

/-- A model of a certificate, of which the links go from the issued certificate to a trusted root. -/
structure CertificationPath (c : Certificate) (cas : List Certificate) (m : Model) : Prop where
  head : m.chain.head? = some c
  links : m.chain.IsChain IssuedBy
  intermediates : ∀ d ∈ m.chain.tail, d.subject ≠ d.issuer
  root : ∃ last r, m.chain.getLast? = some last ∧ r ∈ m.trusted ∧ r.subject = r.issuer ∧
    IssuedBy last r
  complete : (m.chain.tail ++ m.trusted).Perm cas

/-- Whether the walk from a certificate comes to one whose issuer is not among those that are left. -/
inductive Stuck : Certificate → List Certificate → Failure → Prop
  | here {c : Certificate} {cs : List Certificate} (h : ∀ d ∈ cs, ¬IssuedBy c d) :
      Stuck c cs (issuerFailure c cs)
  | link {c issuer : Certificate} {cs : List Certificate} {f : Failure}
      (h : cs.find? (issues c) = some issuer) (hi : isSelfIssued issuer = false)
      (rest : Stuck issuer (cs.eraseP (issues c)) f) : Stuck c cs f

variable {c issuer : Certificate} {cs chain trusted : List Certificate}

theorem verifyCertificate_eq_ok_iff {key : Rsa.PublicKey} :
    verifyCertificate c key = .ok () ↔
      ∃ scheme, Rsa.Scheme.ofOid? c.signatureAlgorithm.oid = some scheme ∧ c.signature.unused = 0 ∧
        Rsa.verify scheme key (encode c.tbs) c.signature.bytes = true := by
  rw [verifyCertificate, bind_eq_ok_iff]
  constructor
  · intro h
    obtain ⟨signature, hbits, h⟩ := h
    obtain ⟨hunused, rfl⟩ := toBytes?_eq_some_iff.1 (orFail_eq_ok_iff.1 hbits)
    obtain ⟨scheme, hscheme, hverify⟩ := verifySignature_eq_ok_iff.1 h
    exact ⟨scheme, hscheme, hunused, hverify⟩
  · intro h
    obtain ⟨scheme, hscheme, hunused, hverify⟩ := h
    have hbits := toBytes?_eq_some_iff.2 ⟨hunused, rfl⟩
    exact ⟨_, orFail_eq_ok_iff.2 hbits, verifySignature_eq_ok_iff.2 ⟨scheme, hscheme, hverify⟩⟩

theorem issues_iff : issues c issuer = true ↔ IssuedBy c issuer := by
  have hsigned : (certificateKey issuer >>= verifyCertificate c) = .ok () ↔
      ∃ key scheme, Rsa.PublicKey.ofInfo? issuer.publicKey = some key ∧
        Rsa.Scheme.ofOid? c.signatureAlgorithm.oid = some scheme ∧ c.signature.unused = 0 ∧
        Rsa.verify scheme key (encode c.tbs) c.signature.bytes = true := by
    simp only [bind_eq_ok_iff, certificateKey, publicKey, orFail_eq_ok_iff,
      verifyCertificate_eq_ok_iff, exists_and_left]
  unfold issues
  rw [Bool.and_eq_true, decide_eq_true_iff]
  constructor
  · intro h
    obtain ⟨hnamed, h⟩ := h
    split at h
    · next hok => exact ⟨hnamed, hsigned.1 hok⟩
    · cases h
  · intro h
    obtain ⟨hnamed, h⟩ := h
    rw [hsigned.2 h]
    exact ⟨hnamed, rfl⟩

theorem find?_issuer_eq_none_iff : cs.find? (issues c) = none ↔ ∀ d ∈ cs, ¬IssuedBy c d := by
  simp only [List.find?_eq_none, issues_iff]

theorem issuedBy_of_find? (h : cs.find? (issues c) = some issuer) : IssuedBy c issuer :=
  issues_iff.1 (List.find?_some h)

theorem isSelfIssued_iff : isSelfIssued c = true ↔ c.subject = c.issuer :=
  decide_eq_true_iff

namespace Leads

theorem isChain (h : Leads c cs chain trusted) : (c :: chain).IsChain IssuedBy := by
  induction h with
  | root => exact .singleton _
  | link hfind _ _ ih => exact ih.cons_cons (issuedBy_of_find? hfind)

theorem not_selfIssued (h : Leads c cs chain trusted) : ∀ d ∈ chain, d.subject ≠ d.issuer := by
  induction h with
  | root => simp
  | link _ hi _ ih =>
    rw [List.forall_mem_cons]
    exact ⟨mt isSelfIssued_iff.2 (by simp [hi]), ih⟩

theorem exists_find?_root (h : Leads c cs chain trusted) :
    ∃ last r, (c :: chain).getLast? = some last ∧ trusted.find? (issues last) = some r ∧
      r.subject = r.issuer := by
  induction h with
  | root hfind hr => exact ⟨_, _, rfl, hfind, isSelfIssued_iff.1 hr⟩
  | link _ _ _ ih =>
    obtain ⟨last, r, hlast, hr⟩ := ih
    exact ⟨last, r, by rwa [List.getLast?_cons_cons], hr⟩

theorem exists_root (h : Leads c cs chain trusted) :
    ∃ last r, (c :: chain).getLast? = some last ∧ r ∈ trusted ∧ r.subject = r.issuer ∧
      IssuedBy last r := by
  obtain ⟨last, r, hlast, hfind, hr⟩ := h.exists_find?_root
  exact ⟨last, r, hlast, List.mem_of_find?_eq_some hfind, hr, issuedBy_of_find? hfind⟩

end Leads

theorem certificationPath_of_leads (h : Leads c cs chain trusted) :
    CertificationPath c cs ⟨c, chain, trusted⟩ where
  head := rfl
  links := h.isChain
  intermediates := h.not_selfIssued
  root := h.exists_root
  complete := h.perm

theorem walk_stuck {bound : Nat} (h : ∀ d ∈ cs, ¬IssuedBy c d) :
    walk bound c cs = .error (issuerFailure c cs) := by
  cases bound with
  | zero => rfl
  | succ bound => rw [walk, find?_issuer_eq_none_iff.2 h]

/-- With more steps than candidates a walk comes to a root or gets stuck, and it does not matter how
many more there are. -/
theorem walk_total (c : Certificate) (cs : List Certificate) :
    (∃ chain trusted, Leads c cs chain trusted) ∨
      ∃ f, Stuck c cs f ∧ ∀ bound, cs.length < bound → walk bound c cs = .error f := by
  -- each link takes its certificate out of the candidates
  induction hn : cs.length using Nat.strongRecOn generalizing c cs with
  | ind n ih =>
    subst hn
    cases hfind : cs.find? (issues c) with
    | none =>
      have hnone := find?_issuer_eq_none_iff.1 hfind
      exact .inr ⟨_, .here hnone, fun bound _ => walk_stuck hnone⟩
    | some issuer =>
      cases hr : isSelfIssued issuer with
      | true => exact .inl ⟨_, _, .root hfind hr⟩
      | false =>
        have hlength : (cs.eraseP (issues c)).length + 1 = cs.length := (perm_of_find? hfind).length_eq
        rcases ih _ (by omega) issuer (cs.eraseP (issues c)) rfl with
          ⟨chain, trusted, hl⟩ | ⟨f, hstuck, hwalk⟩
        · exact .inl ⟨_, _, .link hfind hr hl⟩
        · refine .inr ⟨f, .link hfind hr hstuck, fun bound hbound => ?_⟩
          obtain ⟨bound, rfl⟩ := Nat.exists_eq_succ_of_ne_zero (Nat.ne_zero_of_lt hbound)
          rw [walk_link hfind hr, hwalk bound (by omega)]
          rfl

theorem Stuck.kind {f : Failure} (h : Stuck c cs f) : f.kind = .protection := by
  induction h with
  | here => rfl
  | link _ _ _ ih => exact ih

theorem walk_bound_irrelevant {bound : Nat} (h : cs.length < bound) :
    walk bound c cs = walk (cs.length + 1) c cs := by
  rcases walk_total c cs with ⟨chain, trusted, hl⟩ | ⟨f, -, hwalk⟩
  · have hlength := hl.perm.length_eq
    rw [List.length_append] at hlength
    rw [walk_of_leads hl (by omega), walk_of_leads hl (by omega)]
  · rw [hwalk bound h, hwalk _ (Nat.lt_succ_self _)]

/-- A certificate and the CA's certificates are arranged to a certification path, or the walk gets
stuck at a certificate that nothing left has issued. The bound on the walk plays no part. -/
theorem buildModel_sound (c : Certificate) (cas : List Certificate) :
    ((∃ m, buildModel c cas = .ok m ∧ CertificationPath c cas m) ∨
      ∃ f, buildModel c cas = .error f ∧ Stuck c cas f ∧ f.kind = .protection) ∧
      ∀ bound, cas.length < bound → walk bound c cas = walk (cas.length + 1) c cas := by
  refine ⟨?_, fun bound => walk_bound_irrelevant⟩
  rcases walk_total c cas with ⟨chain, trusted, hl⟩ | ⟨f, hstuck, hwalk⟩
  · have hbuild : buildModel c cas = .ok ⟨c, chain, trusted⟩ := buildModel_eq_ok_iff.2 ⟨rfl, hl⟩
    exact .inl ⟨_, hbuild, certificationPath_of_leads hl⟩
  · have hbuild : buildModel c cas = .error f := by
      rw [buildModel, hwalk _ (Nat.lt_succ_self _)]
      rfl
    exact .inr ⟨f, hbuild, hstuck, hstuck.kind⟩

end PkiEnroll.Enroll
