import Mathlib.Data.List.Lex
import Mathlib.Data.List.Perm.Basic
import Mathlib.Data.UInt
import PkiEnroll.Proofs.Der.Codec

namespace PkiEnroll.Der

theorem bytesLt_iff {a b : Bytes} : bytesLt a b = true ↔ a < b := by
  rw [bytesLt, List.lex_eq_true_iff_lt]

namespace SetOf

variable {α : Type} [Encoding α] {a b : α} {as bs cs : List α}

def Sorted (as : List α) : Prop := as.Pairwise fun a b => encode a < encode b

theorem insert?_of_lt (h : encode a < encode b) : insert? a (b :: bs) = some (a :: b :: bs) :=
  if_pos (bytesLt_iff.2 h)

theorem insert?_of_gt (h : encode b < encode a) :
    insert? a (b :: bs) = (insert? a bs).map (b :: ·) := by
  have hnot : ¬bytesLt (encode a) (encode b) = true :=
    fun hlt => List.lt_asymm (bytesLt_iff.1 hlt) h
  have hne : encode a ≠ encode b := by
    intro heq
    rw [heq] at h
    exact List.lt_irrefl _ h
  exact (if_neg hnot).trans (if_neg hne)

theorem insert?_cons_cases (h : insert? a (b :: bs) = some cs) :
    encode a < encode b ∧ cs = a :: b :: bs ∨
      encode b < encode a ∧ ∃ ds, insert? a bs = some ds ∧ cs = b :: ds := by
  by_cases hlt : encode a < encode b
  · rw [insert?_of_lt hlt] at h
    exact .inl ⟨hlt, (Option.some.inj h).symm⟩
  · have hnot : ¬bytesLt (encode a) (encode b) = true := mt bytesLt_iff.1 hlt
    rw [insert?, if_neg hnot] at h
    obtain ⟨hne, hrest⟩ := Option.ite_none_left_eq_some.1 h
    obtain ⟨ds, hds, rfl⟩ := Option.map_eq_some_iff.1 hrest
    exact .inr ⟨Std.lt_of_le_of_ne hlt (Ne.symm hne), ds, hds, rfl⟩

theorem insert?_last (h : ∀ b ∈ bs, encode b < encode a) : insert? a bs = some (bs ++ [a]) := by
  induction bs with
  | nil => rfl
  | cons b bs ih =>
    obtain ⟨hb, hbs⟩ := List.forall_mem_cons.1 h
    rw [insert?_of_gt hb, ih hbs]
    rfl

theorem perm_of_insert? (h : insert? a bs = some cs) : cs.Perm (a :: bs) := by
  induction bs generalizing cs with
  | nil =>
    obtain rfl := Option.some.inj h
    exact .refl _
  | cons b bs ih =>
    rcases insert?_cons_cases h with ⟨-, rfl⟩ | ⟨-, ds, hds, rfl⟩
    · exact .refl _
    · exact ((ih hds).cons b).trans (.swap a b bs)

theorem sorted_of_insert? (hbs : Sorted bs) (h : insert? a bs = some cs) : Sorted cs := by
  induction bs generalizing cs with
  | nil =>
    obtain rfl := Option.some.inj h
    exact List.pairwise_singleton _ _
  | cons b bs ih =>
    obtain ⟨hb, hrest⟩ := List.pairwise_cons.1 hbs
    rcases insert?_cons_cases h with ⟨hlt, rfl⟩ | ⟨hgt, ds, hds, rfl⟩
    · refine List.pairwise_cons.2 ⟨?_, hbs⟩
      exact List.forall_mem_cons.2 ⟨hlt, fun d hd => List.lt_trans hlt (hb d hd)⟩
    -- a member after the first one is the new one or was there before
    · refine List.pairwise_cons.2 ⟨fun d hd => ?_, ih hrest hds⟩
      rcases List.mem_cons.1 ((perm_of_insert? hds).mem_iff.1 hd) with rfl | hmem
      · exact hgt
      · exact hb d hmem

theorem foldlM_insert?_of_sorted (h : Sorted (bs ++ as)) :
    as.foldlM (fun sorted a => insert? a sorted) bs = some (bs ++ as) := by
  -- each member comes after those that are in place
  induction as generalizing bs with
  | nil => simp
  | cons a as ih =>
    have hbefore : ∀ b ∈ bs, encode b < encode a := by
      intro b hb
      exact (List.pairwise_append.1 h).2.2 b hb a List.mem_cons_self
    rw [List.append_cons] at h ⊢
    rw [List.foldlM_cons, insert?_last hbefore]
    exact ih h

theorem of_foldlM_insert? (hbs : Sorted bs)
    (h : as.foldlM (fun sorted a => insert? a sorted) bs = some cs) :
    Sorted cs ∧ cs.Perm (bs ++ as) := by
  -- the members in place stay in order, wherever the next one goes
  induction as generalizing bs with
  | nil =>
    obtain rfl := Option.some.inj h
    exact ⟨hbs, by simp⟩
  | cons a as ih =>
    rw [List.foldlM_cons] at h
    obtain ⟨next, hnext, hrest⟩ := Option.bind_eq_some_iff.1 h
    obtain ⟨hsorted, hperm⟩ := ih (sorted_of_insert? hbs hnext) hrest
    have hmiddle := ((perm_of_insert? hnext).append_right as).trans List.perm_middle.symm
    exact ⟨hsorted, hperm.trans hmiddle⟩

variable [Checked α]

instance : Checked (SetOf α) := ⟨fun s => Valid s.members ∧ Sorted s.members⟩

instance [LawfulEncoding α] : LawfulContent (SetOf α) where
  ofContent?_content {s} hs hlength := by
    obtain ⟨hvalid, hsorted⟩ := hs
    have hmembers : Content.ofContent? (Content.content s.members) = some s.members :=
      LawfulContent.ofContent?_content hvalid hlength
    have hset : ofList? s.members = some s := by
      have hfold : s.members.foldlM (fun sorted a => insert? a sorted) [] = some ([] ++ s.members) :=
        foldlM_insert?_of_sorted hsorted
      rw [ofList?, hfold]
      rfl
    exact Option.bind_eq_some_iff.2 ⟨_, hmembers, hset⟩
  of_ofContent? {b s} h := by
    obtain ⟨as, has, hset⟩ := Option.bind_eq_some_iff.1 h
    obtain ⟨es, hes, hmap⟩ := Option.bind_eq_some_iff.1 has
    obtain ⟨rfl, hlengths⟩ := Element.readAll_eq_some_iff.1 hes
    obtain ⟨hvalid, htidy⟩ := of_mapM_ofElement? (s := .set) (by decide) hmap
    obtain ⟨members, hfold, rfl⟩ := Option.map_eq_some_iff.1 hset
    obtain ⟨hsorted, hperm⟩ := of_foldlM_insert? List.Pairwise.nil hfold
    have hall : Valid members := fun a ha => hvalid a (hperm.mem_iff.1 ha)
    have hwritten := length_of_mapM_ofElement? hlengths hmap
    have hsort : Step .set (Element.encodeAll (as.map Encoding.toElement))
        (Element.encodeAll (members.map Encoding.toElement)) :=
      .sort (List.forall_mem_map.2 hwritten) (hperm.symm.map _) (List.pairwise_map.2 hsorted)
    rw [← content_list, ← content_list] at hsort
    exact ⟨⟨hall, hsorted⟩, htidy.tail hsort⟩

end SetOf

end PkiEnroll.Der
