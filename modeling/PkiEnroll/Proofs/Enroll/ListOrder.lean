import Mathlib.Data.List.Pairwise
import PkiEnroll.Proofs.Enroll.Root

namespace PkiEnroll.Enroll

open Der X509 Cmp Protection

/-- Whether a certificate, and each one of a list, has an issuer at one position of the list at most.
Certificates of the issuer's name that hold another key do not count. -/
def SingleIssuers (c : Certificate) (cs : List Certificate) : Prop :=
  ∀ d ∈ c :: cs, cs.Pairwise fun a b => ¬(IssuedBy d a ∧ IssuedBy d b)

instance (c issuer : Certificate) : Decidable (IssuedBy c issuer) :=
  decidable_of_iff _ issues_iff

instance (c : Certificate) (cs : List Certificate) : Decidable (SingleIssuers c cs) :=
  List.decidableBAll _ _

variable {c issuer : Certificate} {cs cs' chain trusted : List Certificate} {f : Failure}

namespace SingleIssuers

theorem isFirstIssuer (h : SingleIssuers c cs) (hmem : issuer ∈ cs) (hissued : IssuedBy c issuer) :
    IsFirstIssuer c cs issuer := by
  obtain ⟨before, after, rfl⟩ := List.append_of_mem hmem
  have hpairs := h c List.mem_cons_self
  obtain ⟨-, -, hbefore⟩ := List.pairwise_append.1 hpairs
  refine ⟨hissued, before, after, rfl, fun d hd hother => ?_⟩
  exact hbefore d hd issuer List.mem_cons_self ⟨hother, hissued⟩

theorem of_perm (h : SingleIssuers c cs) (hperm : cs.Perm cs') : SingleIssuers c cs' := by
  intro d hd
  have hmem : d ∈ c :: cs := (hperm.cons c).mem_iff.2 hd
  exact (h d hmem).perm hperm fun hab hba => hab hba.symm

theorem erase (h : SingleIssuers c cs) (hmem : issuer ∈ cs) :
    SingleIssuers issuer (cs.erase issuer) := by
  intro d hd
  have hd' : d ∈ cs := by
    rcases List.mem_cons.1 hd with rfl | hd
    · exact hmem
    · exact List.mem_of_mem_erase hd
  exact (h d (List.mem_cons_of_mem c hd')).sublist List.erase_sublist

/-- One step of the walk in two orders. -/
theorem step (h : SingleIssuers c cs) (hperm : cs.Perm cs')
    (hfind : cs.find? (issues c) = some issuer) :
    cs'.find? (issues c) = some issuer ∧
      (cs.eraseP (issues c)).Perm (cs'.eraseP (issues c)) ∧
      SingleIssuers issuer (cs.eraseP (issues c)) := by
  have hmem : issuer ∈ cs := List.mem_of_find?_eq_some hfind
  have hfirst : IsFirstIssuer c cs' issuer :=
    (h.of_perm hperm).isFirstIssuer (hperm.mem_iff.1 hmem) (issuedBy_of_find? hfind)
  have hfind' : cs'.find? (issues c) = some issuer := find?_issues_iff.2 hfirst
  rw [eraseP_issues hfind, eraseP_issues hfind']
  exact ⟨hfind', hperm.erase issuer, h.erase hmem⟩

end SingleIssuers

theorem Leads.of_perm (h : Leads c cs chain trusted) (hsingle : SingleIssuers c cs)
    (hperm : cs.Perm cs') : ∃ trusted', Leads c cs' chain trusted' ∧ trusted.Perm trusted' := by
  induction h generalizing cs' with
  | root hfind hr =>
    obtain ⟨hfind', -, -⟩ := hsingle.step hperm hfind
    exact ⟨cs', .root hfind' hr, hperm⟩
  | link hfind hi _ ih =>
    obtain ⟨hfind', hleft, hnext⟩ := hsingle.step hperm hfind
    obtain ⟨trusted', hleads, htrusted⟩ := ih hnext hleft
    exact ⟨trusted', .link hfind' hi hleads, htrusted⟩

theorem issuerFailure_of_perm (hperm : cs.Perm cs') : issuerFailure c cs' = issuerFailure c cs := by
  rw [issuerFailure, issuerFailure, hperm.any_eq]

theorem Stuck.of_perm (h : Stuck c cs f) (hsingle : SingleIssuers c cs) (hperm : cs.Perm cs') :
    Stuck c cs' f := by
  induction h generalizing cs' with
  | here hnone =>
    rw [← issuerFailure_of_perm hperm]
    exact .here fun d hd => hnone d (hperm.mem_iff.2 hd)
  | link hfind hi _ ih =>
    obtain ⟨hfind', hleft, hnext⟩ := hsingle.step hperm hfind
    exact .link hfind' hi (ih hnext hleft)

/-- Where issuers are single, the order of the CA's certificates decides nothing but the order of the
trusted ones: the chain and the failure are the same. -/
theorem buildModel_perm {cas cas' : List Certificate} (hsingle : SingleIssuers c cas)
    (hperm : cas.Perm cas') :
    (∃ f, buildModel c cas = .error f ∧ buildModel c cas' = .error f) ∨
      ∃ m m', buildModel c cas = .ok m ∧ buildModel c cas' = .ok m' ∧ m'.chain = m.chain ∧
        m.trusted.Perm m'.trusted := by
  cases hbuild : buildModel c cas with
  | error f =>
    have hstuck : Stuck c cas f := buildModel_eq_error_iff.1 hbuild
    exact .inl ⟨f, rfl, buildModel_eq_error_iff.2 (hstuck.of_perm hsingle hperm)⟩
  | ok m =>
    obtain ⟨rfl, hleads⟩ := buildModel_eq_ok_iff.1 hbuild
    obtain ⟨trusted', hleads', htrusted⟩ := hleads.of_perm hsingle hperm
    have hbuild' : buildModel m.certificate cas' = .ok { m with trusted := trusted' } :=
      buildModel_eq_ok_iff.2 ⟨rfl, hleads'⟩
    exact .inr ⟨m, _, rfl, hbuild', rfl, htrusted⟩

namespace Sample

/-- Bears the name of the issuer of the leaf, but holds another key. -/
def namesake : Certificate := certificate (name 0x52) (name 0x43) formerKeyInfo []

/-- The namesakes of the issuers are passed over, whether they come before or after. -/
theorem buildModel_perm_namesake :
    SingleIssuers leaf [namesake, issuing, formerRoot, root] ∧
      buildModel leaf [namesake, issuing, formerRoot, root] =
        .ok ⟨leaf, [issuing], [namesake, formerRoot, root]⟩ ∧
      ∃ m, buildModel leaf [root, issuing, formerRoot, namesake] = .ok m ∧ m.chain = [leaf, issuing] ∧
        [namesake, formerRoot, root].Perm m.trusted := by
  have hsingle : SingleIssuers leaf [namesake, issuing, formerRoot, root] := by decide +kernel
  have hperm : [namesake, issuing, formerRoot, root].Perm [root, issuing, formerRoot, namesake] := by
    decide +kernel
  have hbuild : buildModel leaf [namesake, issuing, formerRoot, root] =
      .ok ⟨leaf, [issuing], [namesake, formerRoot, root]⟩ := by decide +kernel
  rcases buildModel_perm hsingle hperm with ⟨f, hfails, -⟩ | ⟨m, m', hm, hm', hchain, htrusted⟩
  · rw [hbuild] at hfails
    cases hfails
  · rw [hbuild] at hm
    cases hm
    exact ⟨hsingle, hbuild, m', hm', hchain, htrusted⟩

end Sample

end PkiEnroll.Enroll
