import Mathlib.Data.List.Chain
import PkiEnroll.Proofs.Enroll.CertificationPath
import PkiEnroll.Proofs.Enroll.ExtraCerts

namespace PkiEnroll.Enroll

open Der X509 Cmp Protection

/-- A way from a certificate to a root among the CA's certificates, of which only the root names itself
as its issuer. -/
structure IssuerPath (c : Certificate) (cas path : List Certificate) (root : Certificate) : Prop where
  links : (c :: (path ++ [root])).IsChain IssuedBy
  received : ∀ d ∈ path ++ [root], d ∈ cas
  distinct : (path ++ [root]).Nodup
  intermediates : ∀ d ∈ path, d.subject ≠ d.issuer
  root : root.subject = root.issuer

/-- Whether a certificate is the first of a list that has issued another. -/
def IsFirstIssuer (c : Certificate) (cs : List Certificate) (issuer : Certificate) : Prop :=
  IssuedBy c issuer ∧ ∃ before after, cs = before ++ issuer :: after ∧ ∀ d ∈ before, ¬IssuedBy c d

/-- Whether each certificate of a path is the first issuer of the one before it, of those that do not
come earlier on the path. -/
def TakesFirst (c : Certificate) (cs path : List Certificate) : Prop :=
  ∀ before d after, path = before ++ d :: after →
    IsFirstIssuer (before.getLastD c) (cs.diff before) d

variable {c issuer : Certificate} {cs path chain trusted : List Certificate} {f : Failure}

theorem find?_issues_iff : cs.find? (issues c) = some issuer ↔ IsFirstIssuer c cs issuer := by
  simp only [List.find?_eq_some_iff_append, IsFirstIssuer, issues_iff, Bool.not_eq_eq_eq_not,
    Bool.not_true, Bool.eq_false_iff, ne_eq]

theorem eraseP_issues (h : cs.find? (issues c) = some issuer) :
    cs.eraseP (issues c) = cs.erase issuer := by
  obtain ⟨hissues, before, after, rfl, hbefore⟩ := List.find?_eq_some_iff_append.1 h
  have hnot (d : Certificate) (hd : d ∈ before) : ¬issues c d = true := by simpa using hbefore d hd
  have hmem : issuer ∉ before := fun hd => hnot issuer hd hissues
  rw [List.eraseP_append_right _ hnot, List.eraseP_cons_of_pos hissues,
    List.erase_append_right _ hmem, List.erase_cons_head]

theorem takesFirst_nil (c : Certificate) (cs : List Certificate) : TakesFirst c cs [] := by
  intro before d after h
  simp at h

theorem takesFirst_cons :
    TakesFirst c cs (issuer :: path) ↔
      IsFirstIssuer c cs issuer ∧ TakesFirst issuer (cs.erase issuer) path := by
  constructor
  · intro h
    refine ⟨h [] issuer path rfl, fun before d after hpath => ?_⟩
    have hlater := h (issuer :: before) d after (congrArg (issuer :: ·) hpath)
    rwa [List.getLastD_cons, List.diff_cons] at hlater
  · rintro ⟨hfirst, hrest⟩ before d after hpath
    cases before with
    | nil =>
      obtain ⟨rfl, -⟩ := List.cons.inj hpath
      exact hfirst
    | cons e before =>
      obtain ⟨rfl, hlater⟩ := List.cons.inj hpath
      rw [List.getLastD_cons, List.diff_cons]
      exact hrest before d after hlater

/-- The chain that leads to a root is the path of first issuers, and the others are trusted. -/
theorem leads_iff :
    Leads c cs chain trusted ↔
      (∀ d ∈ chain, d.subject ≠ d.issuer) ∧ trusted = cs.diff chain ∧
        ∃ root, root.subject = root.issuer ∧ TakesFirst c cs (chain ++ [root]) := by
  constructor
  · intro h
    induction h with
    | root hfind hr =>
      refine ⟨by simp, rfl, _, isSelfIssued_iff.1 hr, ?_⟩
      exact takesFirst_cons.2 ⟨find?_issues_iff.1 hfind, takesFirst_nil _ _⟩
    | link hfind hi _ ih =>
      obtain ⟨hchain, htrusted, root, hroot, hfirst⟩ := ih
      rw [eraseP_issues hfind] at htrusted hfirst
      refine ⟨List.forall_mem_cons.2 ⟨mt isSelfIssued_iff.2 (by simp [hi]), hchain⟩, ?_, root, hroot, ?_⟩
      · rw [htrusted, List.diff_cons]
      · exact takesFirst_cons.2 ⟨find?_issues_iff.1 hfind, hfirst⟩
  · rintro ⟨hchain, rfl, root, hroot, hfirst⟩
    induction chain generalizing c cs with
    | nil =>
      obtain ⟨hissuer, -⟩ := takesFirst_cons.1 hfirst
      exact .root (find?_issues_iff.2 hissuer) (isSelfIssued_iff.2 hroot)
    | cons issuer chain ih =>
      obtain ⟨hissuer, hrest⟩ := takesFirst_cons.1 hfirst
      obtain ⟨hi, hchain⟩ := List.forall_mem_cons.1 hchain
      have hfind := find?_issues_iff.2 hissuer
      refine .link hfind (by simpa using mt isSelfIssued_iff.1 hi) ?_
      rw [eraseP_issues hfind, List.diff_cons]
      exact ih hchain hrest

/-- The walk gets stuck where the path of first issuers cannot go on. -/
theorem stuck_iff :
    Stuck c cs f ↔
      ∃ path, (∀ d ∈ path, d.subject ≠ d.issuer) ∧ TakesFirst c cs path ∧
        (∀ d ∈ cs.diff path, ¬IssuedBy (path.getLastD c) d) ∧
        f = issuerFailure (path.getLastD c) (cs.diff path) := by
  constructor
  · intro h
    induction h with
    | here hnone => exact ⟨[], by simp, takesFirst_nil _ _, hnone, rfl⟩
    | link hfind hi _ ih =>
      obtain ⟨path, hpath, hfirst, hnone, hf⟩ := ih
      rw [eraseP_issues hfind] at hfirst hnone hf
      refine ⟨_ :: path, List.forall_mem_cons.2 ⟨mt isSelfIssued_iff.2 (by simp [hi]), hpath⟩,
        takesFirst_cons.2 ⟨find?_issues_iff.1 hfind, hfirst⟩, ?_, ?_⟩
      · rwa [List.getLastD_cons, List.diff_cons]
      · rwa [List.getLastD_cons, List.diff_cons]
  · rintro ⟨path, hpath, hfirst, hnone, rfl⟩
    induction path generalizing c cs with
    | nil => exact .here hnone
    | cons issuer path ih =>
      obtain ⟨hissuer, hrest⟩ := takesFirst_cons.1 hfirst
      obtain ⟨hi, hpath⟩ := List.forall_mem_cons.1 hpath
      have hfind := find?_issues_iff.2 hissuer
      rw [List.getLastD_cons, List.diff_cons] at hnone ⊢
      refine .link hfind (by simpa using mt isSelfIssued_iff.1 hi) ?_
      rw [eraseP_issues hfind]
      exact ih hpath hrest hnone

theorem walk_of_stuck {bound : Nat} (h : Stuck c cs f) (hbound : cs.length < bound) :
    walk bound c cs = .error f := by
  induction h generalizing bound with
  | here hnone => exact walk_stuck hnone
  | link hfind hi _ ih =>
    have hlength := (perm_of_find? hfind).length_eq
    rw [List.length_cons] at hlength
    obtain ⟨bound, rfl⟩ := Nat.exists_eq_succ_of_ne_zero (Nat.ne_zero_of_lt hbound)
    rw [walk_link hfind hi, ih (by omega)]
    rfl

theorem buildModel_eq_error_iff : buildModel c cs = .error f ↔ Stuck c cs f := by
  constructor
  · intro h
    rcases walk_total c cs with ⟨chain, trusted, hl⟩ | ⟨f', hstuck, hwalk⟩
    · have hbuild : buildModel c cs = .ok ⟨c, chain, trusted⟩ := buildModel_eq_ok_iff.2 ⟨rfl, hl⟩
      rw [hbuild] at h
      cases h
    · rw [buildModel, hwalk _ (Nat.lt_succ_self _)] at h
      cases h
      exact hstuck
  · intro h
    rw [buildModel, walk_of_stuck h (Nat.lt_succ_self _)]
    rfl

/-- A first issuer stays the first when others are taken away. -/
theorem IsFirstIssuer.diff {others : List Certificate} (h : IsFirstIssuer c cs issuer)
    (hothers : issuer ∉ others) : IsFirstIssuer c (cs.diff others) issuer := by
  induction others generalizing cs with
  | nil => exact h
  | cons d others ih =>
    obtain ⟨hd, hothers⟩ := not_or.1 (mt List.mem_cons.2 hothers)
    rw [List.diff_cons]
    refine ih ?_ hothers
    obtain ⟨hissued, before, after, rfl, hbefore⟩ := h
    refine ⟨hissued, ?_⟩
    by_cases hmem : d ∈ before
    · refine ⟨before.erase d, after, List.erase_append_left _ hmem, fun e he => ?_⟩
      exact hbefore e (List.mem_of_mem_erase he)
    · refine ⟨before, after.erase d, ?_, hbefore⟩
      rw [List.erase_append_right _ hmem, List.erase_cons_tail (by simpa using hd)]

theorem rel_of_isChain {R : Certificate → Certificate → Prop} {before after : List Certificate}
    (h : (c :: (before ++ issuer :: after)).IsChain R) : R (before.getLastD c) issuer := by
  rw [← List.cons_append] at h
  refine (List.isChain_append.1 h).2.2 _ ?_ _ rfl
  rw [List.getLast?_cons, List.getLastD_eq_getLast?]
  exact Option.mem_some_self _

theorem takesFirst_of_isChain (h : (c :: path).IsChain fun d issuer => IsFirstIssuer d cs issuer)
    (hpath : path.Nodup) : TakesFirst c cs path := by
  intro before d after hsplit
  rw [hsplit] at h hpath
  -- no certificate comes twice on the way, so the next one is still there
  refine (rel_of_isChain h).diff fun hd => ?_
  exact (List.nodup_append.1 hpath).2.2 d hd d List.mem_cons_self rfl

/-- A chain leads to a root exactly if the first issuers do, of the certificates that are left at each
step; it fails exactly if they lead to a certificate that nothing left has issued. So a way to a root
is found if no certificate on it has another issuer earlier in the list. -/
theorem buildModel_takes_first (c : Certificate) (cas : List Certificate) :
    (∀ path root, IssuerPath c cas path root →
      ((c :: (path ++ [root])).IsChain fun d issuer => IsFirstIssuer d cas issuer) →
      buildModel c cas = .ok ⟨c, path, cas.diff path⟩) ∧
    (∀ m, buildModel c cas = .ok m ↔
      m.certificate = c ∧ m.trusted = cas.diff m.intermediates ∧
        (∀ d ∈ m.intermediates, d.subject ≠ d.issuer) ∧
        ∃ root, root.subject = root.issuer ∧ TakesFirst c cas (m.intermediates ++ [root])) ∧
    ∀ f, buildModel c cas = .error f ↔
      ∃ path, (∀ d ∈ path, d.subject ≠ d.issuer) ∧ TakesFirst c cas path ∧
        (∀ d ∈ cas.diff path, ¬IssuedBy (path.getLastD c) d) ∧
        f = issuerFailure (path.getLastD c) (cas.diff path) := by
  refine ⟨fun path root h hfirst => ?_, fun m => ?_, fun f => ?_⟩
  · have htakes := takesFirst_of_isChain hfirst h.distinct
    exact buildModel_eq_ok_iff.2 ⟨rfl, leads_iff.2 ⟨h.intermediates, rfl, root, h.root, htakes⟩⟩
  · rw [buildModel_eq_ok_iff, leads_iff]
    constructor
    · rintro ⟨hc, hchain, htrusted, hroot⟩
      exact ⟨hc, htrusted, hchain, hroot⟩
    · rintro ⟨hc, htrusted, hchain, hroot⟩
      exact ⟨hc, hchain, htrusted, hroot⟩
  · rw [buildModel_eq_error_iff, stuck_iff]

namespace Sample

/-- Certifies the key of the issuer as well, but comes from a CA that nothing is known of. -/
def crossed : Certificate := certificate (name 0x58) (name 0x43) keyInfo []

theorem leaf_issuing : IssuedBy leaf issuing := issues_iff.1 (by decide +kernel)

theorem issuing_root : IssuedBy issuing root := issues_iff.1 (by decide +kernel)

theorem issuerPath_leaf {cas : List Certificate} (hissuing : issuing ∈ cas) (hroot : root ∈ cas) :
    IssuerPath leaf cas [issuing] root where
  links := .cons_cons leaf_issuing (.cons_cons issuing_root (.singleton _))
  received := by simp [hissuing, hroot]
  distinct := by decide +kernel
  intermediates := by decide +kernel
  root := by decide +kernel

/-- There is a way to the root, but the first issuer does not lead there. -/
theorem crossed_hides_root :
    IssuerPath leaf [crossed, issuing, root] [issuing] root ∧
      ∀ m, buildModel leaf [crossed, issuing, root] ≠ .ok m := by
  refine ⟨issuerPath_leaf (by simp) (by simp), fun m h => ?_⟩
  have hfails : (buildModel leaf [crossed, issuing, root]).isOk = false := by decide +kernel
  rw [h] at hfails
  cases hfails

/-- Behind the others it does no harm. -/
theorem buildModel_takes_first_crossed :
    IssuerPath leaf [issuing, root, crossed] [issuing] root ∧
      ((leaf :: ([issuing] ++ [root])).IsChain fun d issuer =>
        IsFirstIssuer d [issuing, root, crossed] issuer) ∧
      buildModel leaf [issuing, root, crossed] = .ok ⟨leaf, [issuing], [root, crossed]⟩ := by
  have hpath : IssuerPath leaf [issuing, root, crossed] [issuing] root :=
    issuerPath_leaf (by simp) (by simp)
  have hother : ¬IssuedBy issuing issuing := by
    intro h
    have hname : issuing.subject ≠ issuing.issuer := by decide +kernel
    exact hname h.named
  have hfirst : IsFirstIssuer leaf [issuing, root, crossed] issuing :=
    ⟨leaf_issuing, [], [root, crossed], rfl, by simp⟩
  have hsecond : IsFirstIssuer issuing [issuing, root, crossed] root :=
    ⟨issuing_root, [issuing], [crossed], rfl, by simpa using hother⟩
  have hchain : (leaf :: ([issuing] ++ [root])).IsChain fun d issuer =>
      IsFirstIssuer d [issuing, root, crossed] issuer :=
    .cons_cons hfirst (.cons_cons hsecond (.singleton _))
  have hbuild := (buildModel_takes_first _ _).1 _ _ hpath hchain
  have hleft : [issuing, root, crossed].diff [issuing] = [root, crossed] := by decide +kernel
  rw [hleft] at hbuild
  exact ⟨hpath, hchain, hbuild⟩

end Sample

end PkiEnroll.Enroll
