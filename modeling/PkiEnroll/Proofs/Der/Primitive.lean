import PkiEnroll.Der.Oid
import PkiEnroll.Der.Primitive
import PkiEnroll.Proofs.Der.Codec

namespace PkiEnroll.Bytes

theorem toList_loop (b : ByteArray) (i : Nat) (r : List UInt8) :
    ByteArray.toList.loop b i r = r.reverse ++ b.data.toList.drop i := by
  -- the loop gathers in reverse
  fun_induction ByteArray.toList.loop b i r with
  | case1 i r h ih =>
    have hi : i < b.data.size := h
    have hget : b.get! i = b.data[i] := getElem!_pos b.data i hi
    have hdrop : b.data.toList.drop i = b.data[i] :: b.data.toList.drop (i + 1) :=
      List.drop_eq_getElem_cons hi
    rw [ih, List.reverse_cons, List.append_assoc, hget, hdrop]
    rfl
  | case2 i r h =>
    rw [List.drop_eq_nil_of_le (Nat.not_lt.1 h), List.append_nil]

theorem ofString_eq (s : String) : ofString s = s.toByteArray.data.toList :=
  toList_loop _ 0 []

theorem toByteArray_ofString (s : String) : (ofString s).toByteArray = s.toByteArray := by
  apply ByteArray.ext
  rw [ofString_eq, ← Array.toList_inj, List.toList_data_toByteArray]

theorem toString?_eq_some_iff {b : Bytes} {s : String} : toString? b = some s ↔ ofString s = b := by
  constructor
  · intro h
    unfold toString? String.fromUTF8? at h
    split at h
    · obtain rfl := Option.some.inj h
      rw [ofString_eq]
      exact List.toList_data_toByteArray
    · cases h
  · rintro rfl
    unfold toString? String.fromUTF8?
    simp only [toByteArray_ofString]
    rw [dif_pos s.isValidUTF8]
    rfl

end PkiEnroll.Bytes

namespace PkiEnroll.Der

instance : Checked Bool := ⟨fun _ => True⟩
instance : Checked Null := ⟨fun _ => True⟩
instance : Checked OctetString := ⟨fun _ => True⟩
instance : Checked BitString := ⟨fun _ => True⟩
instance : Checked String := ⟨fun _ => True⟩
instance : Checked Ia5String := ⟨fun s => isAscii s.bytes = true⟩
instance : Checked PrintableString := ⟨fun s => isPrintable s.bytes = true⟩
instance : Checked TeletexString := ⟨fun s => isAscii s.bytes = true⟩
instance : Checked Oid := ⟨fun o => o.isValid = true⟩

instance : LawfulContent Bool where
  ofContent?_content {a} _ _ := by cases a <;> rfl
  of_ofContent? {b a} h := by
    refine ⟨trivial, ?_⟩
    simp only [Content.ofContent?] at h
    split at h
    · cases h
      exact .refl
    · cases h
      exact .refl
    · cases h

instance : LawfulContent Null where
  ofContent?_content _ _ := rfl
  of_ofContent? h := by
    obtain ⟨hempty, -⟩ := Option.ite_none_right_eq_some.1 h
    obtain rfl := List.isEmpty_iff.1 hempty
    exact ⟨trivial, .refl⟩

instance : LawfulContent OctetString where
  ofContent?_content _ _ := rfl
  of_ofContent? h := by
    cases h
    exact ⟨trivial, .refl⟩

theorem BitString.mk?_eq_some_iff {unused : Nat} {bytes : Bytes} {s : BitString} :
    BitString.mk? unused bytes = some s ↔ s.unused.val = unused ∧ s.bytes = bytes := by
  obtain ⟨u, b, hu⟩ := s
  unfold BitString.mk?
  constructor
  · intro h
    split at h
    · split at h
      · cases h
        exact ⟨rfl, rfl⟩
      · cases h
    · cases h
  · rintro ⟨rfl, rfl⟩
    rw [dif_pos u.isLt, dif_pos hu]

instance : LawfulContent BitString where
  ofContent?_content {s} _ _ := by
    refine BitString.mk?_eq_some_iff.2 ⟨?_, rfl⟩
    exact (UInt8.toNat_ofNat_of_lt' (Nat.lt_trans s.unused.isLt (by decide))).symm
  of_ofContent? {b s} h := by
    cases b with
    | nil => cases h
    | cons x b =>
      obtain ⟨hunused, rfl⟩ := BitString.mk?_eq_some_iff.1 h
      have hsame : Content.content s = x :: s.bytes := by
        change UInt8.ofNat s.unused :: s.bytes = _
        rw [hunused, UInt8.ofNat_toNat]
      refine ⟨trivial, ?_⟩
      rw [hsame]

instance : LawfulContent String where
  ofContent?_content _ _ := Bytes.toString?_eq_some_iff.2 rfl
  of_ofContent? h := by
    obtain rfl := Bytes.toString?_eq_some_iff.1 h
    exact ⟨trivial, .refl⟩

theorem LawfulContent.ofBytes {α : Type} [Content α] [Checked α] {mk : Bytes → α}
    {form : Bytes → Bool}
    (hmk : ∀ a : α, mk (Content.content a) = a) (hcontent : ∀ b, Content.content (mk b) = b)
    (hread : ∀ b, (Content.ofContent? b : Option α) = if form b then some (mk b) else none)
    (hvalid : ∀ a : α, Valid a ↔ form (Content.content a) = true) : LawfulContent α where
  ofContent?_content {a} ha _ := by
    rw [hread, if_pos ((hvalid a).1 ha), hmk]
  of_ofContent? {b a} h := by
    rw [hread] at h
    obtain ⟨hform, heq⟩ := Option.ite_none_right_eq_some.1 h
    obtain rfl := Option.some.inj heq
    rw [hvalid, hcontent]
    exact ⟨hform, .refl⟩

instance : LawfulContent Ia5String :=
  .ofBytes (fun _ => rfl) (fun _ => rfl) (fun _ => rfl) (fun _ => Iff.rfl)

instance : LawfulContent PrintableString :=
  .ofBytes (fun _ => rfl) (fun _ => rfl) (fun _ => rfl) (fun _ => Iff.rfl)

instance : LawfulContent TeletexString :=
  .ofBytes (fun _ => rfl) (fun _ => rfl) (fun _ => rfl) (fun _ => Iff.rfl)

instance : LawfulContent Oid :=
  .ofBytes (fun _ => rfl) (fun _ => rfl) (fun _ => rfl) (fun _ => Iff.rfl)

end PkiEnroll.Der
