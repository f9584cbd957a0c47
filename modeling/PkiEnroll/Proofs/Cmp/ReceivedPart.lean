import Mathlib.Control.Monad.Basic
import PkiEnroll.Cmp.Message
import PkiEnroll.Proofs.Cmp.Failure
import PkiEnroll.Proofs.Der.Fields

namespace PkiEnroll.Cmp

open Der

namespace Message

theorem decode_eq_ok_iff {b : Bytes} {m : Message} :
    decode b = .ok m ↔
      ∃ content, b = (Element.mk sequenceTag content).encode ∧ b.length ≤ maxLength ∧
        Content.ofContent? content = some m := by
  rw [decode, orFail_eq_ok_iff]
  constructor
  · intro h
    obtain ⟨⟨tag, content⟩, he, hm⟩ := Option.bind_eq_some_iff.1 h
    obtain ⟨rfl, hb⟩ := Element.ofBytes?_eq_some_iff.1 he
    obtain ⟨rfl, hcontent⟩ := Option.ite_none_right_eq_some.1 hm
    exact ⟨content, rfl, hb, hcontent⟩
  · intro h
    obtain ⟨content, rfl, hb, hm⟩ := h
    refine Option.bind_eq_some_iff.2 ⟨⟨sequenceTag, content⟩, ?_, ?_⟩
    · exact Element.ofBytes?_eq_some_iff.2 ⟨rfl, hb⟩
    · exact Option.ite_none_right_eq_some.2 ⟨rfl, hm⟩

theorem elements_of_ofContent? {content : Bytes} {m : Message}
    (h : Content.ofContent? content = some m) :
    ∃ header body others, content = header.encode ++ (body.encode ++ Element.encodeAll others) ∧
      header.content.length ≤ maxLength ∧ body.content.length ≤ maxLength ∧
      Encoding.ofElement? header = some m.header ∧ Encoding.ofElement? body = some m.body := by
  obtain ⟨es, hes, hfields⟩ := Fields.read?_eq_some_iff.1 h
  obtain ⟨header, es₁, hheader, hfields⟩ := Fields.bind_eq_some_iff.1 hfields
  obtain ⟨body, es₂, hbody, hfields⟩ := Fields.bind_eq_some_iff.1 hfields
  obtain ⟨protection, es₃, -, hfields⟩ := Fields.bind_eq_some_iff.1 hfields
  obtain ⟨extraCerts, es₄, -, hfields⟩ := Fields.bind_eq_some_iff.1 hfields
  obtain ⟨rfl, rfl⟩ := Prod.mk.inj (Option.some.inj hfields)
  obtain ⟨e₁, rfl, he₁⟩ := Fields.required_eq_some_iff.1 hheader
  obtain ⟨e₂, rfl, he₂⟩ := Fields.required_eq_some_iff.1 hbody
  obtain ⟨rfl, hlengths⟩ := Element.readAll_eq_some_iff.1 hes
  refine ⟨e₁, e₂, es₂, ?_, hlengths e₁ (by simp), hlengths e₂ (by simp), he₁, he₂⟩
  rw [Element.encodeAll_cons, Element.encodeAll_cons]

theorem ofContent?_pair {header body : Element} {h : Header} {b : Body}
    (hheader : header.content.length ≤ maxLength) (hbody : body.content.length ≤ maxLength)
    (hh : Encoding.ofElement? header = some h) (hb : Encoding.ofElement? body = some b) :
    Content.ofContent? (header.encode ++ body.encode) = some ({ header := h, body := b } : Message) := by
  apply Fields.read?_eq_some_iff.2
  refine ⟨[header, body], ?_, ?_⟩
  · apply Element.readAll_eq_some_iff.2
    exact ⟨by simp [Element.encodeAll], by simp [hheader, hbody]⟩
  · refine Fields.bind_eq_some_iff.2 ⟨h, [body], Fields.required_eq_some_iff.2 ⟨header, rfl, hh⟩, ?_⟩
    exact Fields.bind_eq_some_iff.2 ⟨b, [], Fields.required_eq_some_iff.2 ⟨body, rfl, hb⟩, rfl⟩

theorem length_pairBytes_le (header body others : Bytes) :
    (pairBytes header body).length ≤ (pairBytes header (body ++ others)).length := by
  have hcontent : (header ++ body).length ≤ (header ++ (body ++ others)).length := by
    simp only [List.length_append]
    omega
  have hlength := Length.length_encode_mono hcontent
  simp only [pairBytes, Element.length_encode]
  omega

theorem receivedPart_pairBytes {header body : Element} {others : Bytes}
    (hlength : (pairBytes header.encode (body.encode ++ others)).length ≤ maxLength)
    (hheader : header.content.length ≤ maxLength) (hbody : body.content.length ≤ maxLength) :
    receivedPart (pairBytes header.encode (body.encode ++ others)) =
      .ok (pairBytes header.encode body.encode) := by
  have houter : Element.ofBytes? (pairBytes header.encode (body.encode ++ others)) =
      some ⟨sequenceTag, header.encode ++ (body.encode ++ others)⟩ :=
    Element.ofBytes?_eq_some_iff.2 ⟨rfl, hlength⟩
  have hfirst := Element.read_encode_append hheader (body.encode ++ others)
  have hsecond := Element.read_encode_append hbody others
  have hbound : (pairBytes header.encode body.encode).length ≤ maxLength :=
    Nat.le_trans (length_pairBytes_le _ _ _) hlength
  simp [receivedPart, houter, hfirst, hsecond, orFail, bounded, hbound, bind, Except.bind]

/-- A message that is read begins with the elements of its header and its body; its protected part is
these two, and they are a message of their own. -/
theorem decode_split {b : Bytes} {m : Message} (h : decode b = .ok m) :
    ∃ header body others, b = pairBytes header (body ++ others) ∧
      receivedPart b = .ok (pairBytes header body) ∧
      decode (pairBytes header body) = .ok { header := m.header, body := m.body } := by
  obtain ⟨content, rfl, hlength, hcontent⟩ := decode_eq_ok_iff.1 h
  obtain ⟨header, body, others, rfl, hheader, hbody, hh, hb⟩ := elements_of_ofContent? hcontent
  refine ⟨header.encode, body.encode, Element.encodeAll others, rfl, ?_, ?_⟩
  · exact receivedPart_pairBytes hlength hheader hbody
  · refine decode_eq_ok_iff.2 ⟨header.encode ++ body.encode, rfl, ?_, ?_⟩
    · exact Nat.le_trans (length_pairBytes_le _ _ _) hlength
    · exact ofContent?_pair hheader hbody hh hb

/-- Messages with the same protected part have the same header and body. -/
theorem eq_of_receivedPart {b b' : Bytes} {m m' : Message} (h : decode b = .ok m)
    (h' : decode b' = .ok m') (hpart : receivedPart b' = receivedPart b) :
    m'.header = m.header ∧ m'.body = m.body := by
  obtain ⟨header, body, others, -, hpart₁, hown⟩ := decode_split h
  obtain ⟨header', body', others', -, hpart₂, hown'⟩ := decode_split h'
  have hsame : pairBytes header' body' = pairBytes header body :=
    Except.ok.inj (hpart₂.symm.trans (hpart.trans hpart₁))
  rw [hsame, hown] at hown'
  injection hown' with hm
  injection hm with hheader hbody
  exact ⟨hheader.symm, hbody.symm⟩

/-- Every message that is read has a protected part, which is read as that message without protection
and certificates; so another message with the same protected part has the same header and body. -/
theorem decode_receivedPart {b : Bytes} {m : Message} (h : decode b = .ok m) :
    ∃ p, receivedPart b = .ok p ∧
      decode p = .ok { m with protection := none, extraCerts := none } ∧
      ∀ b' m', decode b' = .ok m' → receivedPart b' = .ok p →
        m'.header = m.header ∧ m'.body = m.body := by
  obtain ⟨header, body, others, -, hpart, hown⟩ := decode_split h
  refine ⟨pairBytes header body, hpart, hown, ?_⟩
  intro b' m' h' hpart'
  exact eq_of_receivedPart h h' (hpart'.trans hpart.symm)

/-- A confirmation whose header has a field out of place, which readers pass over. -/
def looseConfirmation (mac : UInt8) : Bytes :=
  [0x30, 0x25, 0x30, 0x19, 0x02, 0x01, 0x02, 0xa4, 0x02, 0x30, 0x00, 0xa4, 0x02, 0x30, 0x00, 0xa4,
    0x03, 0x04, 0x01, 0x09, 0xa1, 0x02, 0x05, 0x00, 0xa5, 0x03, 0x04, 0x01, 0x07, 0xb3, 0x02, 0x05,
    0x00, 0xa0, 0x04, 0x03, 0x02, 0x00, mac]

def looseMessage (mac : UInt8) : Message where
  header := {
    pvno := 2
    sender := .directory .empty
    recipient := .directory .empty
    transactionId := some ⟨[0x09]⟩
    senderNonce := some ⟨[0x07]⟩ }
  body := .confirmation
  protection := some (BitString.ofBytes [mac])

/-- The field out of place is covered by the protection and changes nothing that is read. -/
theorem decode_receivedPart_loose :
    decode (looseConfirmation 0xaa) = .ok (looseMessage 0xaa) ∧
      ∃ p, receivedPart (looseConfirmation 0xaa) = .ok p ∧
        decode p = .ok { looseMessage 0xaa with protection := none, extraCerts := none } ∧
        (looseMessage 0xbb).header = (looseMessage 0xaa).header ∧
        (looseMessage 0xbb).body = (looseMessage 0xaa).body := by
  have hread : decode (looseConfirmation 0xaa) = .ok (looseMessage 0xaa) := by decide +kernel
  have hother : decode (looseConfirmation 0xbb) = .ok (looseMessage 0xbb) := by decide +kernel
  have hsame : receivedPart (looseConfirmation 0xbb) = receivedPart (looseConfirmation 0xaa) := by
    decide +kernel
  obtain ⟨p, hpart, hown, hunique⟩ := decode_receivedPart hread
  exact ⟨hread, p, hpart, hown, hunique _ _ hother (hsame.trans hpart)⟩

end Message

end PkiEnroll.Cmp
