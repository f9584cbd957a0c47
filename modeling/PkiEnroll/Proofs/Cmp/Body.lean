import PkiEnroll.Proofs.Cmp.ReceivedPart

namespace PkiEnroll.Cmp

open Der X509

namespace Body

def knownTags : List TagNumber := [0, 1, 2, 3, 7, 8, 19, 23, 24, 25, 26]

theorem ofContent?_unsupported {n tag : TagNumber} {b content : Bytes}
    (h : ofContent? n b = some (unsupported tag content)) :
    tag = n ∧ content = b ∧ n ∉ knownTags := by
  unfold ofContent? at h
  split at h
  case h_12 =>
    obtain ⟨rfl, rfl⟩ := unsupported.inj (Option.some.inj h)
    refine ⟨rfl, rfl, ?_⟩
    simp only [knownTags, List.mem_cons, List.not_mem_nil, not_or]
    exact ⟨‹_›, ‹_›, ‹_›, ‹_›, ‹_›, ‹_›, ‹_›, ‹_›, ‹_›, ‹_›, ‹_›, not_false⟩
  all_goals
    obtain ⟨value, -, hvalue⟩ := Option.map_eq_some_iff.1 h
    cases hvalue

theorem certRep?_of_tagNumber {body : Body}
    (hknown : ∀ tag content, body = unsupported tag content → tag ∉ knownTags)
    (h : (body.tagNumber : Nat) ∈ [1, 3, 8]) : ∃ rep, body.certRep? = some rep := by
  have hmem : ∀ tag : TagNumber, (tag : Nat) ∈ [1, 3, 8] → tag ∈ knownTags := by decide
  cases body with
  | initResponse rep => exact ⟨rep, rfl⟩
  | certResponse rep => exact ⟨rep, rfl⟩
  | keyUpdateResponse rep => exact ⟨rep, rfl⟩
  | unsupported tag content => exact absurd (hmem tag h) (hknown tag content rfl)
  | _ =>
    simp only [tagNumber] at h
    exact absurd h (by decide)

end Body

theorem Message.body_known {b : Bytes} {m : Message} (h : decode b = .ok m) (tag : TagNumber)
    (content : Bytes) (hbody : m.body = .unsupported tag content) : tag ∉ Body.knownTags := by
  obtain ⟨contents, -, -, hcontents⟩ := decode_eq_ok_iff.1 h
  obtain ⟨header, body, others, -, -, -, -, hread⟩ := elements_of_ofContent? hcontents
  rw [hbody] at hread
  simp only [Encoding.ofElement?] at hread
  split at hread
  · obtain ⟨rfl, -, hn⟩ := Body.ofContent?_unsupported hread
    exact hn
  · cases hread

end PkiEnroll.Cmp
