import Mathlib.Data.List.Forall2
import PkiEnroll.Cmp.Failure

namespace PkiEnroll.Cmp

variable {α β : Type}

theorem orFail_eq_ok_iff {failure : Failure} {o : Option α} {a : α} :
    orFail failure o = .ok a ↔ o = some a := by
  cases o <;> simp [orFail]

theorem bind_eq_ok_iff {ε : Type} {x : Except ε α} {f : α → Except ε β} {b : β} :
    x >>= f = .ok b ↔ ∃ a, x = .ok a ∧ f a = .ok b := by
  cases x <;> simp [bind, Except.bind]

theorem mapM_eq_ok_iff {ε : Type} {f : α → Except ε β} {as : List α} {bs : List β} :
    as.mapM f = .ok bs ↔ List.Forall₂ (fun a b => f a = .ok b) as bs := by
  induction as generalizing bs with
  | nil =>
    rw [List.mapM_nil, List.forall₂_nil_left_iff]
    exact ⟨fun h => (Except.ok.inj h).symm, fun h => by rw [h]; rfl⟩
  | cons a as ih =>
    rw [List.mapM_cons, bind_eq_ok_iff, List.forall₂_cons_left_iff]
    constructor
    · rintro ⟨b, hb, h⟩
      obtain ⟨bs, hbs, h⟩ := bind_eq_ok_iff.1 h
      cases h
      exact ⟨b, bs, hb, ih.1 hbs, rfl⟩
    · rintro ⟨b, bs, hb, hbs, rfl⟩
      exact ⟨b, hb, bind_eq_ok_iff.2 ⟨bs, ih.2 hbs, rfl⟩⟩

theorem exists_of_mapM_eq_error {ε : Type} {f : α → Except ε β} {as : List α} {failure : ε}
    (h : as.mapM f = .error failure) : ∃ a ∈ as, f a = .error failure := by
  induction as with
  | nil =>
    rw [List.mapM_nil] at h
    cases h
  | cons a as ih =>
    rw [List.mapM_cons] at h
    cases ha : f a with
    | error g =>
      rw [ha] at h
      cases h
      exact ⟨a, List.mem_cons_self, ha⟩
    | ok b =>
      rw [ha] at h
      cases has : as.mapM f with
      | error g =>
        rw [has] at h
        cases h
        obtain ⟨a', hmem, ha'⟩ := ih has
        exact ⟨a', List.mem_cons_of_mem _ hmem, ha'⟩
      | ok bs =>
        rw [has] at h
        cases h

namespace Failure

variable {f : Failure}

theorem eq_decode (h : f.kind = .decode) : ∃ detail, f = .decode detail := by
  cases f with
  | decode detail => exact ⟨detail, rfl⟩
  | _ => cases h

theorem eq_protection (h : f.kind = .protection) : ∃ detail, f = .protection detail := by
  cases f with
  | protection detail => exact ⟨detail, rfl⟩
  | _ => cases h

theorem eq_nonceMismatch (h : f.kind = .nonceMismatch) : ∃ detail, f = .nonceMismatch detail := by
  cases f with
  | nonceMismatch detail => exact ⟨detail, rfl⟩
  | _ => cases h

end Failure

/-- Whether all failures that a computation can have are of these kinds. -/
def FailsWithin (kinds : List FailureKind) (x : Except Failure α) : Prop :=
  ∀ f, x = .error f → f.kind ∈ kinds

namespace FailsWithin

variable {kinds others : List FailureKind} {x : Except Failure α}

theorem ok (a : α) : FailsWithin kinds (.ok a : Except Failure α) := by
  intro f h
  cases h

theorem error {f : Failure} (h : f.kind ∈ kinds) : FailsWithin kinds (.error f : Except Failure α) := by
  intro g hg
  cases hg
  exact h

theorem of_eq_error {f : Failure} (h : FailsWithin kinds x) (hx : x = .error f) :
    FailsWithin kinds (.error f : Except Failure β) :=
  error (h f hx)

theorem not_mem {f : Failure} (h : FailsWithin kinds x) (hx : x = .error f)
    (hkinds : ∀ kind ∈ kinds, kind ∉ others) : f.kind ∉ others :=
  hkinds f.kind (h f hx)

theorem kind_ne {f : Failure} {kind : FailureKind} (h : FailsWithin kinds x) (hx : x = .error f)
    (hkind : kind ∉ kinds) : f.kind ≠ kind := by
  intro hf
  rw [← hf] at hkind
  exact hkind (h f hx)

theorem mono (h : FailsWithin kinds x) (hsub : kinds ⊆ others) : FailsWithin others x :=
  fun f hf => hsub (h f hf)

theorem orFail {failure : Failure} (h : failure.kind ∈ kinds) (o : Option α) :
    FailsWithin kinds (orFail failure o) := by
  cases o with
  | none => exact error h
  | some a => exact ok a

theorem mapError {ε : Type} {f : ε → Failure} (h : ∀ e, (f e).kind ∈ kinds) (x : Except ε α) :
    FailsWithin kinds (x.mapError f) := by
  cases x with
  | error e => exact error (h e)
  | ok a => exact ok a

theorem ite {c : Prop} [Decidable c] {y : Except Failure α} (hx : FailsWithin kinds x)
    (hy : FailsWithin kinds y) : FailsWithin kinds (if c then x else y) := by
  split
  · exact hx
  · exact hy

theorem bind {f : α → Except Failure β} (hx : FailsWithin kinds x)
    (hf : ∀ a, FailsWithin kinds (f a)) : FailsWithin kinds (x >>= f) := by
  cases x with
  | error e => exact error (hx e rfl)
  | ok a => exact hf a

theorem mapM {f : α → Except Failure β} (hf : ∀ a, FailsWithin kinds (f a)) (as : List α) :
    FailsWithin kinds (as.mapM f) := by
  induction as with
  | nil =>
    rw [List.mapM_nil]
    exact ok []
  | cons a as ih =>
    rw [List.mapM_cons]
    exact (hf a).bind fun b => ih.bind fun bs => ok (b :: bs)

end FailsWithin

end PkiEnroll.Cmp
