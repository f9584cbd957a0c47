import PkiEnroll.Enroll.Chain
import PkiEnroll.Protection.Credential
import PkiEnroll.Proofs.Cmp.Failure
import PkiEnroll.Proofs.Enroll.ExtraCerts
import PkiEnroll.Proofs.Pem.Section
import PkiEnroll.Proofs.X509.Codec

namespace PkiEnroll.Enroll

open Der X509 Cmp Protection

namespace Model

variable {cs : List Certificate}

def pemSection (c : Certificate) : Pem.Section := ⟨.certificate, encode c⟩

theorem pemBundle_eq (cs : List Certificate) :
    pemBundle cs = String.join ((cs.map pemSection).map Pem.encode) := by
  rw [List.map_map]
  rfl

theorem certificateBlocks_pemBundle (cs : List Certificate) :
    certificateBlocks (Bytes.ofString (pemBundle cs)) =
      if (cs.map encode).isEmpty then .error (.configuration "No certificates found in PEM data")
      else .ok (cs.map encode) := by
  have hcontents : cs.filterMap (fun c => some (encode c)) = cs.map encode :=
    congrFun List.filterMap_eq_map cs
  unfold certificateBlocks
  rw [pemBundle_eq, Pem.sections_encode, List.map_map, List.filterMap_map, ← hcontents]
  rfl

/-- Certificates that can be read are read back from their bundle, if there are any. -/
theorem certificates_pemBundle (h : ∀ c ∈ cs, ∃ b, decode? b = some c) :
    certificates (Bytes.ofString (pemBundle cs)) = .ok cs ↔ cs ≠ [] := by
  have hread : ∀ c ∈ cs, (decode? (encode c) : Option Certificate) = some c := by
    intro c hc
    obtain ⟨b, hb⟩ := h c hc
    obtain ⟨hvalid, htidy⟩ := of_decode? hb
    obtain ⟨e, he, -⟩ := Option.bind_eq_some_iff.1 hb
    obtain ⟨-, hlength⟩ := Element.ofBytes?_eq_some_iff.1 he
    exact decode?_encode hvalid (Nat.le_trans htidy.tidies.length_le hlength)
  rw [certificates, certificateBlocks_pemBundle]
  cases cs with
  | nil => exact iff_of_false (by rintro ⟨⟩) (not_not.2 rfl)
  | cons c cs =>
    refine iff_of_true ?_ (List.cons_ne_nil c cs)
    rw [List.map_cons, List.isEmpty_cons, if_neg Bool.false_ne_true]
    refine bind_eq_ok_iff.2 ⟨_, rfl, mapM_eq_ok_iff.2 ?_⟩
    rw [← List.map_cons, List.forall₂_map_left_iff, List.forall₂_same]
    intro c' hc'
    exact orFail_eq_ok_iff.2 (hread c' hc')

theorem length_le_of_mem_splitOn_pemBundle {line : List Char}
    (h : line ∈ (pemBundle cs).toList.splitOn '\n') : line.length ≤ 64 := by
  rw [pemBundle_eq] at h
  exact Pem.length_le_of_mem_splitOn h

/-- A model of certificates that have been decoded is read back from its texts, the chain in any case and
the trusted certificates if there are any, and the lines of these texts are of 64 characters at most. -/
theorem certificates_chainPem (m : Model) (h : ∀ c ∈ m.chain ++ m.trusted, ∃ b, decode? b = some c) :
    certificates (Bytes.ofString m.chainPem) = .ok m.chain ∧
    (certificates (Bytes.ofString m.trustedPem) = .ok m.trusted ↔ m.trusted ≠ []) ∧
    ∀ line, line ∈ m.chainPem.toList.splitOn '\n' ∨ line ∈ m.trustedPem.toList.splitOn '\n' →
      line.length ≤ 64 := by
  obtain ⟨hchain, htrusted⟩ := List.forall_mem_append.1 h
  have hleaf : m.chain ≠ [] := List.cons_ne_nil _ _
  refine ⟨(certificates_pemBundle hchain).2 hleaf, certificates_pemBundle htrusted, ?_⟩
  intro line hline
  rcases hline with hline | hline
  · exact length_le_of_mem_splitOn_pemBundle hline
  · exact length_le_of_mem_splitOn_pemBundle hline

end Model

namespace Sample

def issued : Model := ⟨leaf, [issuing], [root]⟩

theorem certificates_chainPem_issued :
    (∀ c ∈ issued.chain ++ issued.trusted, ∃ b, decode? b = some c) ∧
      certificates (Bytes.ofString issued.chainPem) = .ok [leaf, issuing] ∧
      certificates (Bytes.ofString issued.trustedPem) = .ok [root] := by
  have hread : ∀ c ∈ issued.chain ++ issued.trusted, decode? (encode c) = some c := by decide +kernel
  have hdecoded : ∀ c ∈ issued.chain ++ issued.trusted, ∃ b, decode? b = some c :=
    fun c hc => ⟨encode c, hread c hc⟩
  obtain ⟨hchain, htrusted, -⟩ := Model.certificates_chainPem issued hdecoded
  exact ⟨hdecoded, hchain, htrusted.2 (List.cons_ne_nil _ _)⟩

end Sample

end PkiEnroll.Enroll
