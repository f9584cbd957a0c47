import PkiEnroll.Proofs.Enroll.FirstIssuer
import PkiEnroll.Proofs.Rsa.Signature

namespace PkiEnroll.Enroll

open Der X509 Cmp Protection

/-- A change of certificates that a walk does not notice: those that name themselves as their issuers
keep their names and keys, and the others stay as they are. -/
structure KeepsLinks (f : Certificate → Certificate) : Prop where
  subject (d : Certificate) : (f d).subject = d.subject
  issuer (d : Certificate) : (f d).issuer = d.issuer
  publicKey (d : Certificate) : (f d).publicKey = d.publicKey
  other (d : Certificate) (h : d.subject ≠ d.issuer) : f d = d

/-- Takes the signature from a certificate that names itself as its issuer. -/
def unsigned (d : Certificate) : Certificate :=
  if d.subject = d.issuer then { d with signature := .ofBytes [] } else d

namespace Model

def mapTrusted (f : Certificate → Certificate) (m : Model) : Model :=
  { m with trusted := m.trusted.map f }

end Model

variable {c issuer : Certificate} {cs : List Certificate} {f : Certificate → Certificate}

theorem issues_congr {other : Certificate} (hsubject : other.subject = issuer.subject)
    (hkey : other.publicKey = issuer.publicKey) : issues c other = issues c issuer := by
  rw [issues, issues, certificateKey, certificateKey, hsubject, hkey]

namespace KeepsLinks

theorem issues_comp (hf : KeepsLinks f) (c : Certificate) : issues c ∘ f = issues c := by
  funext d
  exact issues_congr (hf.subject d) (hf.publicKey d)

theorem find?_map (hf : KeepsLinks f) (c : Certificate) (cs : List Certificate) :
    (cs.map f).find? (issues c) = (cs.find? (issues c)).map f := by
  rw [List.find?_map, hf.issues_comp]

theorem eraseP_map (hf : KeepsLinks f) (c : Certificate) (cs : List Certificate) :
    (cs.map f).eraseP (issues c) = (cs.eraseP (issues c)).map f := by
  rw [List.eraseP_map, hf.issues_comp]

theorem isSelfIssued_eq (hf : KeepsLinks f) (d : Certificate) :
    isSelfIssued (f d) = isSelfIssued d := by
  rw [isSelfIssued, isSelfIssued, hf.subject, hf.issuer]

/-- What is said of a missing issuer depends on the names of the candidates only. -/
theorem issuerFailure_map (hf : KeepsLinks f) (c : Certificate) (cs : List Certificate) :
    issuerFailure c (cs.map f) = issuerFailure c cs := by
  simp only [issuerFailure, List.any_map, Function.comp_def, hf.subject]

theorem walk_map (hf : KeepsLinks f) (bound : Nat) (c : Certificate) (cs : List Certificate) :
    walk bound c (cs.map f) = (walk bound c cs).map (Prod.map id (List.map f)) := by
  -- each step finds the same issuer, which is another certificate only where the walk ends with it
  induction bound generalizing c cs with
  | zero =>
    rw [walk, walk, hf.issuerFailure_map]
    rfl
  | succ bound ih =>
    have hissuer := hf.find?_map c cs
    cases hfind : cs.find? (issues c) with
    | none =>
      rw [hfind] at hissuer
      rw [walk, walk, hissuer, hfind, hf.issuerFailure_map]
      rfl
    | some issuer =>
      rw [hfind, Option.map_some] at hissuer
      cases hr : isSelfIssued issuer with
      | true =>
        rw [walk_root hfind hr, walk_root hissuer ((hf.isSelfIssued_eq issuer).trans hr)]
        rfl
      | false =>
        have hsame : f issuer = issuer := hf.other issuer (mt isSelfIssued_iff.2 (by simp [hr]))
        rw [hsame] at hissuer
        rw [walk_link hfind hr, walk_link hissuer hr, hf.eraseP_map, ih]
        cases walk bound issuer (cs.eraseP (issues c)) with
        | error => rfl
        | ok => rfl

theorem buildModel_map (hf : KeepsLinks f) (c : Certificate) (cs : List Certificate) :
    buildModel c (cs.map f) = (buildModel c cs).map (Model.mapTrusted f) := by
  rw [buildModel, buildModel, List.length_map, hf.walk_map]
  cases walk (cs.length + 1) c cs with
  | error => rfl
  | ok => rfl

end KeepsLinks

theorem tbs_unsigned (d : Certificate) : (unsigned d).tbs = d.tbs := by
  rw [unsigned]
  split
  · rfl
  · rfl

theorem keepsLinks_unsigned : KeepsLinks unsigned where
  subject d := congrArg TbsCertificate.subject (tbs_unsigned d)
  issuer d := congrArg TbsCertificate.issuer (tbs_unsigned d)
  publicKey d := congrArg TbsCertificate.publicKey (tbs_unsigned d)
  other _ h := if_neg h

theorem not_issuedBy_of_signature_nil (h : c.signature.bytes = []) : ¬IssuedBy c issuer := by
  intro hissued
  obtain ⟨key, scheme, -, -, -, hverify⟩ := hissued.signed
  obtain ⟨message, hmessage, hlength, -⟩ := Rsa.verify_eq_true_iff.1 hverify
  have hsize : 0 < key.size := Rsa.Scheme.size_pos hmessage
  rw [h, List.length_nil] at hlength
  omega

theorem not_issuedBy_unsigned {d : Certificate} (h : (unsigned d).subject = (unsigned d).issuer) :
    ¬IssuedBy (unsigned d) (unsigned d) := by
  rw [keepsLinks_unsigned.subject, keepsLinks_unsigned.issuer] at h
  have hsignature : (unsigned d).signature.bytes = [] := by
    rw [unsigned, if_pos h]
    rfl
  exact not_issuedBy_of_signature_nil hsignature

/-- The certificate that ends a walk is the first issuer of the last of the chain and names itself as its
issuer; it is signed with its own key if all that name themselves are. But whether they are plays no
part: the same chain or the same failure comes out with other signatures on them, so that for each
chain there is a list of certificates from which it comes out with no self-signed root at all. -/
theorem buildModel_ends_by_name (c : Certificate) (cas : List Certificate) :
    (∀ m, buildModel c cas = .ok m → ∃ last root, m.chain.getLast? = some last ∧
      IsFirstIssuer last m.trusted root ∧ root.subject = root.issuer ∧
      ((∀ d ∈ cas, d.subject = d.issuer → IssuedBy d d) → IssuedBy root root)) ∧
    (∀ f, KeepsLinks f → buildModel c (cas.map f) = (buildModel c cas).map (Model.mapTrusted f)) ∧
    ∀ m, buildModel c cas = .ok m → ∃ cas' m', buildModel c cas' = .ok m' ∧ m'.chain = m.chain ∧
      ∀ root ∈ m'.trusted, root.subject = root.issuer → ¬IssuedBy root root := by
  refine ⟨fun m hbuild => ?_, fun f hf => hf.buildModel_map c cas, fun m hbuild => ?_⟩
  · obtain ⟨rfl, hleads⟩ := buildModel_eq_ok_iff.1 hbuild
    obtain ⟨last, root, hlast, hfind, hroot⟩ := hleads.exists_find?_root
    refine ⟨last, root, hlast, find?_issues_iff.1 hfind, hroot, fun hsigned => ?_⟩
    have htrusted : root ∈ m.trusted := List.mem_of_find?_eq_some hfind
    exact hsigned root (hleads.perm.mem_iff.1 (List.mem_append_right _ htrusted)) hroot
  · refine ⟨cas.map unsigned, m.mapTrusted unsigned, ?_, rfl, fun root hmem hroot => ?_⟩
    · rw [keepsLinks_unsigned.buildModel_map, hbuild]
      rfl
    · obtain ⟨d, -, rfl⟩ := List.mem_map.1 hmem
      exact not_issuedBy_unsigned hroot

namespace Sample

/-- The key of the root before the one it has now. -/
def formerKeyInfo : PublicKeyInfo :=
  ⟨Rsa.keyAlgorithm, .ofBytes (encode (Rsa.PublicKey.mk
    (0xd97338a851af9a88f3819580d875a1ad6b54acec9f9a7611ea75abdac7781ed1 *
      0xdb67e84008520f83d082af52d7fe484255a2d0af02c8755f60b22b568696380b) 3))⟩

def formerRoot : Certificate :=
  certificate (name 0x52) (name 0x52) formerKeyInfo
    (Bytes.ofNat 32 0x7bf346bf8816d21bac0f21c8eee2f3d0c430f31dc3301310ce4afa8b45360b8b ++
      Bytes.ofNat 32 0x36f50d0c75f55a800ffec83a7a6b79935be6ed1d61b20d9cee85c2fc7bf04236)

/-- Certifies the new key of the root with its former one, as a CA does when it changes its key. -/
def rollover : Certificate :=
  certificate (name 0x52) (name 0x52) keyInfo
    (Bytes.ofNat 32 0x42cfa7341a133544ad7d9b48271c8591ece18700055afd6e7337ef6069e6dd9a ++
      Bytes.ofNat 32 0xf330a091788b421e8726c057e62fe21864dbe33f995290ae0be4cc66e3fd693f)

def signedRoot : Certificate :=
  certificate (name 0x52) (name 0x52) keyInfo
    (Bytes.ofNat 32 0x841c148c5ffa2cd7f0f3897166089619d834a52c6959c0273f555d2f8a976b6b ++
      Bytes.ofNat 32 0x158b40dc431894d67dce9838a183f31760835589f5d302078c46afd1f264a5fd)

/-- The walk ends at a certificate that is signed with the former key of the root, though the
self-signed certificate of that key is there. -/
theorem rollover_ends_walk :
    buildModel leaf [issuing, rollover, formerRoot] =
        .ok ⟨leaf, [issuing], [rollover, formerRoot]⟩ ∧
      IsFirstIssuer issuing [rollover, formerRoot] rollover ∧
      rollover.subject = rollover.issuer ∧ ¬IssuedBy rollover rollover ∧
      IssuedBy rollover formerRoot ∧ IssuedBy formerRoot formerRoot := by
  have hother : issues rollover rollover = false := by decide +kernel
  refine ⟨by decide +kernel, find?_issues_iff.1 (by decide +kernel), by decide +kernel, ?_, ?_, ?_⟩
  · rw [← issues_iff, hother]
    exact Bool.false_ne_true
  · exact issues_iff.1 (by decide +kernel)
  · exact issues_iff.1 (by decide +kernel)

/-- A root that is signed, and the same chain without its signature. -/
theorem buildModel_ends_by_name_signedRoot :
    buildModel leaf [issuing, signedRoot] = .ok ⟨leaf, [issuing], [signedRoot]⟩ ∧
      (∃ last r, [leaf, issuing].getLast? = some last ∧ IsFirstIssuer last [signedRoot] r ∧
        r.subject = r.issuer ∧ IssuedBy r r) ∧
      buildModel leaf ([issuing, signedRoot].map unsigned) =
        .ok ⟨leaf, [issuing], [signedRoot].map unsigned⟩ := by
  have hbuild : buildModel leaf [issuing, signedRoot] = .ok ⟨leaf, [issuing], [signedRoot]⟩ := by
    decide +kernel
  have hsigned : ∀ d ∈ [issuing, signedRoot], d.subject = d.issuer → IssuedBy d d := by
    have hnamed : issuing.subject ≠ issuing.issuer := by decide +kernel
    have hissued : IssuedBy signedRoot signedRoot := issues_iff.1 (by decide +kernel)
    simp [hnamed, hissued]
  obtain ⟨hends, hmap, -⟩ := buildModel_ends_by_name leaf [issuing, signedRoot]
  obtain ⟨last, r, hlast, hfirst, hr, hroot⟩ := hends _ hbuild
  refine ⟨hbuild, ⟨last, r, hlast, hfirst, hr, hroot hsigned⟩, ?_⟩
  rw [hmap unsigned keepsLinks_unsigned, hbuild]
  rfl

end Sample

end PkiEnroll.Enroll
