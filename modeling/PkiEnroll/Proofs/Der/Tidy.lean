import Mathlib.Data.List.Perm.Basic
import Mathlib.Data.UInt
import Mathlib.Logic.Relation
import PkiEnroll.Proofs.Der.Element

namespace PkiEnroll

namespace Bytes

/-- No prefix of the greater byte string, so what follows does not matter. -/
theorem append_lt_append {a b : Bytes} (h : a < b) (hnot : ∀ r, a ++ r ≠ b) (x y : Bytes) :
    a ++ x < b ++ y := by
  induction a generalizing b with
  | nil => exact absurd rfl (hnot b)
  | cons u a ih =>
    cases b with
    | nil => exact absurd h (List.not_lt_nil _)
    | cons v b =>
      rw [List.cons_append, List.cons_append, List.cons_lt_cons_iff]
      rcases List.cons_lt_cons_iff.1 h with huv | ⟨rfl, hrest⟩
      · exact .inl huv
      · exact .inr ⟨rfl, ih hrest fun r hr => hnot r (congrArg (u :: ·) hr)⟩

/-- Shorter, or as long and not greater. -/
def NoLater (a b : Bytes) : Prop := a.length < b.length ∨ a.length = b.length ∧ a ≤ b

namespace NoLater

variable {a b c x y : Bytes}

theorem refl (a : Bytes) : NoLater a a := .inr ⟨rfl, List.le_refl a⟩

theorem length_le (h : NoLater a b) : a.length ≤ b.length := by
  rcases h with hlt | ⟨heq, -⟩
  · exact Nat.le_of_lt hlt
  · exact Nat.le_of_eq heq

theorem trans (hab : NoLater a b) (hbc : NoLater b c) : NoLater a c := by
  rcases hab with hab | ⟨hab, hle⟩
  · exact .inl (Nat.lt_of_lt_of_le hab hbc.length_le)
  · rcases hbc with hbc | ⟨hbc, hle'⟩
    · exact .inl (hab ▸ hbc)
    · exact .inr ⟨hab.trans hbc, List.le_trans hle hle'⟩

theorem antisymm (hab : NoLater a b) (hba : NoLater b a) : a = b := by
  have hlength := hab.length_le
  have hlength' := hba.length_le
  rcases hab with hab | ⟨-, hle⟩
  · omega
  · rcases hba with hba | ⟨-, hle'⟩
    · omega
    · exact List.le_antisymm hle hle'

theorem append (hab : NoLater a b) (hxy : NoLater x y) : NoLater (a ++ x) (b ++ y) := by
  have hlength := hab.length_le
  have hlength' := hxy.length_le
  unfold NoLater
  rw [List.length_append, List.length_append]
  rcases hab with hab | ⟨hab, hle⟩
  · exact .inl (by omega)
  · rcases hxy with hxy | ⟨hxy, hle'⟩
    · exact .inl (by omega)
    · refine .inr ⟨by omega, ?_⟩
      by_cases heq : a = b
      · subst heq
        exact List.append_left_le hle'
      · have hlt : a < b := Std.lt_of_le_of_ne hle heq
        refine List.le_of_lt (append_lt_append hlt (fun r hr => heq ?_) x y)
        have hr' := congrArg List.length hr
        rw [List.length_append, hab] at hr'
        obtain rfl : r = [] := List.length_eq_zero_iff.1 (by omega)
        rwa [List.append_nil] at hr

end NoLater

end Bytes

namespace Der

/-- What contents are made of. -/
inductive Shape where
  | primitive | sequence | set
  deriving DecidableEq

def Tag.shape : Tag → Shape
  | .universal .set => .set
  | t => if t.isConstructed then .sequence else .primitive

/-- The defaults of the extension field `critical` and of a certificate's version, as elements. -/
def defaults : List Element :=
  [⟨.universal .boolean, [0x00]⟩, ⟨.context true 0, [0x02, 0x01, 0x00]⟩]

/-- Elements that readers take and writers leave out. -/
inductive Element.Omitted (e : Element) : Prop
  /-- A context-specific element that a reader of field `n` passes over. -/
  | passed {n : TagNumber} (h : Fields.isBelow n e = true)
  | default (h : e ∈ defaults)

/-- One step from what is read towards what is written. -/
inductive Step : Shape → Bytes → Bytes → Prop
  | inside {s : Shape} {tag : Tag} {c c' b : Bytes} (hs : s ≠ .primitive)
      (h : Step tag.shape c c') :
      Step s ((Element.mk tag c).encode ++ b) ((Element.mk tag c').encode ++ b)
  | after {s : Shape} {e : Element} {b b' : Bytes} (hs : s ≠ .primitive) (h : Step s b b') :
      Step s (e.encode ++ b) (e.encode ++ b')
  | drop {e : Element} {b : Bytes} (h : e.Omitted) : Step .sequence (e.encode ++ b) b
  | sort {es fs : List Element} (hlength : ∀ e ∈ es, e.content.length ≤ maxLength)
      (hperm : es.Perm fs) (hsorted : fs.Pairwise fun e f => e.encode < f.encode) :
      Step .set (Element.encodeAll es) (Element.encodeAll fs)

/-- Contents of a shape, and what they are tidied to. -/
abbrev Tidies (s : Shape) : Bytes → Bytes → Prop := Relation.ReflTransGen (Step s)

namespace Element

def Tidies (e f : Element) : Prop := f.tag = e.tag ∧ Der.Tidies e.tag.shape e.content f.content

theorem Tidies.of_content {e : Element} {tag : Tag} {c : Bytes} (htag : e.tag = tag)
    (h : Der.Tidies tag.shape e.content c) : e.Tidies ⟨tag, c⟩ := by
  subst htag
  exact ⟨rfl, h⟩

end Element

/-- The encoding of one element, which stays one. -/
def TidiesTo (b b' : Bytes) : Prop :=
  ∃ e f : Element, b = e.encode ∧ b' = f.encode ∧ e.Tidies f

section

variable {s : Shape} {b b' : Bytes}

theorem Step.append (h : Step .sequence b b') (more : Bytes) :
    Step .sequence (b ++ more) (b' ++ more) := by
  generalize hsequence : Shape.sequence = s at h
  induction h with
  | inside hs h _ =>
    rw [List.append_assoc, List.append_assoc]
    exact .inside hs h
  | after hs _ ih =>
    rw [List.append_assoc, List.append_assoc]
    exact .after hs (ih hsequence)
  | drop h =>
    rw [List.append_assoc]
    exact .drop h
  | sort => cases hsequence

namespace Tidies

theorem append (h : Tidies .sequence b b') (more : Bytes) :
    Tidies .sequence (b ++ more) (b' ++ more) :=
  h.lift (· ++ more) fun _ _ hstep => hstep.append more

theorem after (hs : s ≠ .primitive) (e : Element) (h : Tidies s b b') :
    Tidies s (e.encode ++ b) (e.encode ++ b') :=
  h.lift (e.encode ++ ·) fun _ _ => Step.after hs

theorem afterAll (hs : s ≠ .primitive) (es : List Element) (h : Tidies s b b') :
    Tidies s (Element.encodeAll es ++ b) (Element.encodeAll es ++ b') := by
  induction es with
  | nil => exact h
  | cons e es ih =>
    rw [Element.encodeAll_cons, List.append_assoc, List.append_assoc]
    exact ih.after hs e

theorem inside (hs : s ≠ .primitive) {e f : Element} (h : e.Tidies f) (b : Bytes) :
    Tidies s (e.encode ++ b) (f.encode ++ b) := by
  obtain ⟨tag, c⟩ := e
  obtain ⟨tag', c'⟩ := f
  obtain ⟨rfl, hc⟩ := h
  exact hc.lift (fun c => (Element.mk tag' c).encode ++ b) fun _ _ => Step.inside hs

theorem drop {es : List Element} (h : ∀ e ∈ es, e.Omitted) (b : Bytes) :
    Tidies .sequence (Element.encodeAll es ++ b) b := by
  induction es with
  | nil => exact .refl
  | cons e es ih =>
    obtain ⟨he, hes⟩ := List.forall_mem_cons.1 h
    rw [Element.encodeAll_cons, List.append_assoc]
    exact .head (.drop he) (ih hes)

end Tidies

theorem TidiesTo.tidies (h : TidiesTo b b') : Tidies .sequence b b' := by
  obtain ⟨e, f, rfl, rfl, htidy⟩ := h
  have hinside : Tidies .sequence (e.encode ++ []) (f.encode ++ []) :=
    .inside (by decide) htidy []
  rwa [List.append_nil, List.append_nil] at hinside

end

section

variable {s : Shape} {b b' : Bytes}

open Bytes (NoLater)

theorem Element.noLater_encode {tag : Tag} {c c' : Bytes} (h : NoLater c' c) :
    NoLater (Element.mk tag c').encode (Element.mk tag c).encode := by
  rcases h with hlt | ⟨heq, hle⟩
  · have hlength := Length.length_encode_mono (Nat.le_of_lt hlt)
    left
    simp only [Element.length_encode]
    omega
  · have hheader : (Element.mk tag c').encode = tag.octet :: Length.encode c.length ++ c' := by
      rw [Element.encode, heq]
    rw [hheader]
    exact NoLater.append (.refl _) (.inr ⟨heq, hle⟩)

theorem Element.encode_append_ne {e f : Element} (he : e.content.length ≤ maxLength)
    (hf : f.content.length ≤ maxLength) (hne : e ≠ f) (r : Bytes) :
    e.encode ++ r ≠ f.encode := by
  intro heq
  have hread := Element.read_encode_append he r
  have hread' := Element.read_encode_append hf []
  rw [List.append_nil, ← heq, hread] at hread'
  exact hne (Prod.mk.inj (Option.some.inj hread')).1

/-- No order of the members comes before the one that sorts them. -/
theorem encodeAll_le_of_sorted {es fs : List Element}
    (hlength : ∀ e ∈ es, e.content.length ≤ maxLength) (hperm : es.Perm fs)
    (hsorted : fs.Pairwise fun e f => e.encode < f.encode) :
    Element.encodeAll fs ≤ Element.encodeAll es := by
  induction fs generalizing es with
  | nil =>
    rw [hperm.eq_nil]
    exact List.le_refl _
  | cons f fs ih =>
    obtain ⟨hf, hfs⟩ := List.pairwise_cons.1 hsorted
    cases es with
    | nil => exact absurd hperm.symm.eq_nil (List.cons_ne_nil f fs)
    | cons e es =>
      obtain ⟨he, hes⟩ := List.forall_mem_cons.1 hlength
      rw [Element.encodeAll_cons, Element.encodeAll_cons]
      by_cases heq : e = f
      · subst heq
        exact List.append_left_le (ih hes hperm.cons_inv hfs)
      -- the least member comes first, and the bytes of no other begin with its own
      · have hmem : e ∈ fs := List.mem_of_ne_of_mem heq (hperm.mem_iff.1 List.mem_cons_self)
        have hshort := hlength f (hperm.mem_iff.2 List.mem_cons_self)
        have hnot := Element.encode_append_ne hshort he (Ne.symm heq)
        exact List.le_of_lt (Bytes.append_lt_append (hf e hmem) hnot _ _)

theorem Step.noLater (h : Step s b b') : NoLater b' b := by
  induction h with
  | inside _ _ ih => exact NoLater.append (Element.noLater_encode ih) (.refl _)
  | after _ _ ih => exact NoLater.append (.refl _) ih
  | @drop e b _ =>
    left
    have hlength := Element.content_lt_encode e
    rw [List.length_append]
    omega
  | sort hlength hperm hsorted =>
    have hsame := (hperm.flatMap_right Element.encode).length_eq
    exact .inr ⟨hsame.symm, encodeAll_le_of_sorted hlength hperm hsorted⟩

namespace Tidies

theorem noLater (h : Tidies s b b') : NoLater b' b := by
  induction h with
  | refl => exact .refl _
  | tail _ hstep ih => exact hstep.noLater.trans ih

theorem length_le (h : Tidies s b b') : b'.length ≤ b.length := h.noLater.length_le

theorem antisymm (h : Tidies s b b') (h' : Tidies s b' b) : b = b' :=
  h'.noLater.antisymm h.noLater

end Tidies

theorem TidiesTo.antisymm (h : TidiesTo b b') (h' : TidiesTo b' b) : b = b' :=
  h.tidies.antisymm h'.tidies

end

end Der

end PkiEnroll
