import PkiEnroll.Proofs.Cmp.ReceivedPart

namespace PkiEnroll.Der

namespace Element

variable {b s rest : Bytes} {e e' : Element}

theorem read_append (h : read b = some (e, rest)) (s : Bytes) : read (b ++ s) = some (e, rest ++ s) := by
  obtain ⟨rfl, hlength⟩ := eq_encode_append_of_read h
  rw [List.append_assoc]
  exact read_encode_append hlength (rest ++ s)

theorem read_of_ofBytes? (h : ofBytes? b = some e) : read b = some (e, []) := by
  obtain ⟨rfl, hlength⟩ := ofBytes?_eq_some_iff.1 h
  have hcontent := Nat.le_trans (Nat.le_of_lt (content_lt_encode e)) hlength
  have hread := read_encode_append hcontent []
  rwa [List.append_nil] at hread

theorem eq_nil_of_ofBytes?_append (h : ofBytes? b = some e) (h' : ofBytes? (b ++ s) = some e') :
    s = [] := by
  have hfront : read (b ++ s) = some (e, s) := read_append (read_of_ofBytes? h) s
  rw [read_of_ofBytes? h'] at hfront
  exact (Prod.mk.inj (Option.some.inj hfront)).2.symm

end Element

section

variable {α β : Type} [Encoding α] [Encoding β] {b p s : Bytes} {a : α}

/-- What is read as a value of one type is not the beginning of anything that is read as a value of
another. -/
theorem decode?_append (h : decode? b = some a) (hs : s ≠ []) :
    (decode? (b ++ s) : Option β) = none := by
  refine Option.eq_none_iff_forall_ne_some.2 fun c hc => ?_
  obtain ⟨e, he, -⟩ := Option.bind_eq_some_iff.1 h
  obtain ⟨e', he', -⟩ := Option.bind_eq_some_iff.1 hc
  exact hs (Element.eq_nil_of_ofBytes?_append he he')

theorem decode?_of_isPrefix (h : decode? b = some a) (hp : p <+: b) (hne : p ≠ b) :
    (decode? p : Option β) = none := by
  obtain ⟨s, rfl⟩ := hp
  have hs : s ≠ [] := by
    rintro rfl
    exact hne (List.append_nil p).symm
  refine Option.eq_none_iff_forall_ne_some.2 fun c hc => ?_
  have hnone : (decode? (p ++ s) : Option α) = none := decode?_append hc hs
  rw [h] at hnone
  cases hnone

end

end PkiEnroll.Der

namespace PkiEnroll.Cmp

open Der

namespace Message

theorem decode_eq_error_iff {b : Bytes} {f : Failure} :
    decode b = .error f ↔ Der.decode? (α := Message) b = none ∧
      f = .decode ("invalid PKIMessage: " ++ Failure.malformedDetail) := by
  unfold decode
  cases Der.decode? (α := Message) b with
  | none => simp [orFail, eq_comm]
  | some m => simp [orFail]

/-- No message that is read is cut short or goes on: its proper beginnings and its continuations are
refused as malformed. -/
theorem decode_prefix_free {b : Bytes} {m : Message} (h : decode b = .ok m) :
    (∀ p, p <+: b → p ≠ b → ∃ f, decode p = .error f ∧ f.kind = .decode) ∧
      ∀ s, s ≠ [] → ∃ f, decode (b ++ s) = .error f ∧ f.kind = .decode := by
  have hread := orFail_eq_ok_iff.1 h
  constructor
  · intro p hp hne
    exact ⟨_, decode_eq_error_iff.2 ⟨decode?_of_isPrefix hread hp hne, rfl⟩, rfl⟩
  · intro s hs
    exact ⟨_, decode_eq_error_iff.2 ⟨decode?_append hread hs, rfl⟩, rfl⟩

/-- A confirmation is refused without its protection, though a whole header and a whole body are left. -/
theorem decode_prefix_free_loose :
    decode (looseConfirmation 0xaa) = .ok (looseMessage 0xaa) ∧
      (∃ f, decode ((looseConfirmation 0xaa).take 33) = .error f ∧ f.kind = .decode) ∧
      ∃ f, decode (looseConfirmation 0xaa ++ [0x00]) = .error f ∧ f.kind = .decode := by
  have hread : decode (looseConfirmation 0xaa) = .ok (looseMessage 0xaa) := by decide +kernel
  obtain ⟨hcut, hlonger⟩ := decode_prefix_free hread
  refine ⟨hread, hcut _ (List.take_prefix 33 _) (by decide), hlonger [0x00] (by decide)⟩

end Message

end PkiEnroll.Cmp
