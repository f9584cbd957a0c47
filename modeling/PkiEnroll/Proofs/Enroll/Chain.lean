import Mathlib.Data.List.Perm.Basic
import PkiEnroll.Enroll.Chain
import PkiEnroll.Proofs.Cmp.Failure

namespace PkiEnroll.Enroll

open Der X509 Cmp Protection

/-- Whether the walk from a certificate comes to a root, by a chain that leaves the rest trusted. -/
inductive Leads : Certificate → List Certificate → List Certificate → List Certificate → Prop
  | root {c root : Certificate} {cs : List Certificate} (h : cs.find? (issues c) = some root)
      (hr : isSelfIssued root = true) : Leads c cs [] cs
  | link {c issuer : Certificate} {cs chain trusted : List Certificate}
      (h : cs.find? (issues c) = some issuer) (hi : isSelfIssued issuer = false)
      (rest : Leads issuer (cs.eraseP (issues c)) chain trusted) :
      Leads c cs (issuer :: chain) trusted

/-- Whether the walk from a certificate begins with a path. -/
inductive Climbs : Certificate → List Certificate → List Certificate → Prop
  | stop {c : Certificate} {cs : List Certificate} : Climbs c cs []
  | link {c issuer : Certificate} {cs path : List Certificate}
      (h : cs.find? (issues c) = some issuer) (hi : isSelfIssued issuer = false)
      (rest : Climbs issuer (cs.eraseP (issues c)) path) : Climbs c cs (issuer :: path)

variable {c : Certificate} {cs more chain trusted path : List Certificate}

theorem perm_of_find? {p : Certificate → Bool} {issuer : Certificate} (h : cs.find? p = some issuer) :
    (issuer :: cs.eraseP p).Perm cs := by
  obtain ⟨hp, before, after, rfl, hbefore⟩ := List.find?_eq_some_iff_append.1 h
  have hnot (a : Certificate) (ha : a ∈ before) : ¬p a = true := by simpa using hbefore a ha
  rw [List.eraseP_append_right _ hnot, List.eraseP_cons_of_pos hp]
  exact List.perm_middle.symm

theorem find?_append_of_some {p : Certificate → Bool} {issuer : Certificate}
    (h : cs.find? p = some issuer) (more : List Certificate) :
    (cs ++ more).find? p = some issuer ∧ (cs ++ more).eraseP p = cs.eraseP p ++ more := by
  constructor
  · rw [List.find?_append, h]
    rfl
  · exact List.eraseP_append_left (List.find?_some h) more (List.mem_of_find?_eq_some h)

namespace Leads

theorem perm (h : Leads c cs chain trusted) : (chain ++ trusted).Perm cs := by
  -- the root stays among the candidates, each link is taken out of them
  induction h with
  | root => exact .refl _
  | link hfind _ _ ih => exact (ih.cons _).trans (perm_of_find? hfind)

theorem append (h : Leads c cs chain trusted) (more : List Certificate) :
    Leads c (cs ++ more) chain (trusted ++ more) := by
  induction h with
  | root hfind hr => exact .root (find?_append_of_some hfind more).1 hr
  | link hfind hi _ ih =>
    obtain ⟨hfind', herase⟩ := find?_append_of_some hfind more
    exact .link hfind' hi (by rw [herase]; exact ih)

/-- There is one way at most. -/
theorem unique {chain' trusted' : List Certificate} (h : Leads c cs chain trusted)
    (h' : Leads c cs chain' trusted') : chain = chain' ∧ trusted = trusted' := by
  -- both ways find the same issuer, and whether it is a root decides how both go on
  induction h generalizing chain' trusted' with
  | root hfind hr =>
    cases h' with
    | root => exact ⟨rfl, rfl⟩
    | link hfind' hi =>
      rw [hfind] at hfind'
      cases hfind'
      simp [hr] at hi
  | link hfind hi _ ih =>
    cases h' with
    | root hfind' hr =>
      rw [hfind] at hfind'
      cases hfind'
      simp [hr] at hi
    | link hfind' hi' rest =>
      rw [hfind] at hfind'
      cases hfind'
      obtain ⟨rfl, rfl⟩ := ih rest
      exact ⟨rfl, rfl⟩

end Leads

/-- A path through the first candidates begins every chain through more of them. -/
theorem Climbs.isPrefix (h : Climbs c cs path) (hl : Leads c (cs ++ more) chain trusted) :
    path <+: chain := by
  induction h generalizing chain trusted with
  | stop => exact List.nil_prefix
  | link hfind hi _ ih =>
    obtain ⟨hfind', herase⟩ := find?_append_of_some hfind more
    cases hl with
    | root hfind'' hr =>
      rw [hfind'] at hfind''
      cases hfind''
      simp [hi] at hr
    | link hfind'' _ rest =>
      rw [hfind'] at hfind''
      cases hfind''
      rw [herase] at rest
      exact List.cons_prefix_cons.2 ⟨rfl, ih rest⟩

theorem walk_root {bound : Nat} {root : Certificate} (h : cs.find? (issues c) = some root)
    (hr : isSelfIssued root = true) : walk (bound + 1) c cs = .ok ([], cs) := by
  rw [walk, h]
  exact if_pos hr

theorem walk_link {bound : Nat} {issuer : Certificate} (h : cs.find? (issues c) = some issuer)
    (hi : isSelfIssued issuer = false) :
    walk (bound + 1) c cs = do
      let (chain, trusted) ← walk bound issuer (cs.eraseP (issues c))
      return (issuer :: chain, trusted) := by
  rw [walk, h]
  exact if_neg (by simp [hi])

theorem leads_of_walk {bound : Nat} (h : walk bound c cs = .ok (chain, trusted)) :
    Leads c cs chain trusted := by
  induction bound generalizing c cs chain with
  | zero => simp [walk] at h
  | succ bound ih =>
    cases hfind : cs.find? (issues c) with
    | none => simp [walk, hfind] at h
    | some issuer =>
      cases hr : isSelfIssued issuer with
      | true =>
        rw [walk_root hfind hr] at h
        cases h
        exact .root hfind hr
      | false =>
        rw [walk_link hfind hr] at h
        obtain ⟨⟨rest, trusted'⟩, hwalk, h⟩ := bind_eq_ok_iff.1 h
        cases h
        exact .link hfind hr (ih hwalk)

theorem walk_of_leads {bound : Nat} (h : Leads c cs chain trusted) (hbound : chain.length < bound) :
    walk bound c cs = .ok (chain, trusted) := by
  induction h generalizing bound with
  | root hfind hr =>
    obtain ⟨bound, rfl⟩ := Nat.exists_eq_succ_of_ne_zero (Nat.ne_zero_of_lt hbound)
    exact walk_root hfind hr
  | link hfind hi _ ih =>
    obtain ⟨bound, rfl⟩ := Nat.exists_eq_succ_of_ne_zero (Nat.ne_zero_of_lt hbound)
    have hrest := ih (Nat.lt_of_succ_lt_succ hbound)
    rw [walk_link hfind hi, hrest]
    rfl

theorem buildModel_eq_ok_iff {m : Model} :
    buildModel c cs = .ok m ↔ m.certificate = c ∧ Leads c cs m.intermediates m.trusted := by
  rw [buildModel, bind_eq_ok_iff]
  constructor
  · intro h
    obtain ⟨⟨intermediates, trusted⟩, hwalk, h⟩ := h
    cases h
    exact ⟨rfl, leads_of_walk hwalk⟩
  · intro h
    obtain ⟨rfl, hl⟩ := h
    -- no link is used twice, so the bound of the walk is never reached
    have hlength : m.intermediates.length + m.trusted.length = cs.length := by
      rw [← List.length_append]
      exact hl.perm.length_eq
    exact ⟨_, walk_of_leads hl (by omega), rfl⟩

end PkiEnroll.Enroll
