import PkiEnroll.Proofs.Cmp.Dispatch
import PkiEnroll.Proofs.Cmp.Parts

namespace PkiEnroll.Der

variable {α : Type} [Encoding α] [Checked α] [LawfulEncoding α]

/-- Members that can be read back are read in their places, whatever is read of the others. -/
theorem forall₂_of_decode?_list {as as' : List α} (h : decode? (encode as) = some as') :
    List.Forall₂ (fun a a' => Valid a → a' = a) as as' := by
  obtain ⟨hlength, hread⟩ := ofContent?_of_decode?_encode h
  have hcontent : (Content.content as).length ≤ maxLength := Nat.le_trans (length_content_le as) hlength
  obtain ⟨es, hes, hmembers⟩ := Option.bind_eq_some_iff.1 hread
  rw [content_list] at hes hcontent
  obtain rfl : as.map Encoding.toElement = es :=
    Option.some.inj ((Element.readAll_encodeAll hcontent).symm.trans hes)
  have hfits : ∀ a ∈ as, (Encoding.toElement a).content.length ≤ maxLength := fun a ha =>
    Nat.le_trans (Element.content_le_size (List.mem_map_of_mem ha)) hcontent
  have hmembers := List.forall₂_map_left_iff.1 (mapM_eq_some_iff.1 hmembers)
  refine ((List.forall₂_and_left _ _).2 ⟨hfits, hmembers⟩).imp ?_
  intro a a' h hvalid
  obtain ⟨hfit, hread⟩ := h
  rw [LawfulEncoding.ofElement?_toElement hvalid hfit] at hread
  exact (Option.some.inj hread).symm

theorem getElem?_of_decode?_list {as as' : List α} (h : decode? (encode as) = some as') {i : Nat} {a : α}
    (hi : as[i]? = some a) (ha : Valid a) : as'[i]? = some a := by
  obtain ⟨hlength, hplaces⟩ := List.forall₂_iff_get.1 (forall₂_of_decode?_list h)
  obtain ⟨hlt, rfl⟩ := List.getElem?_eq_some_iff.1 hi
  rw [hlength] at hlt
  rw [List.getElem?_eq_getElem hlt]
  exact congrArg some (hplaces i (hlength ▸ hlt) hlt ha)

end PkiEnroll.Der

namespace PkiEnroll.Cmp

open Der X509

namespace Body

variable {body body' : Body} {msgs : List CertReqMsg} {content : Bytes}

theorem HasContents.certReqs (h : body'.HasContents content) (hbody : body.certReqs? = some msgs)
    (htag : body'.tagNumber = body.tagNumber) :
    body.content = encode msgs ∧ ∃ msgs', body'.certReqs? = some msgs' ∧ decode? content = some msgs' := by
  cases body with
  | initRequest m | certRequest m | keyUpdateRequest m =>
    obtain rfl := Option.some.inj hbody
    refine ⟨rfl, ?_⟩
    cases h with
    | initRequest h | certRequest h | keyUpdateRequest h => exact ⟨_, rfl, h⟩
    | unsupported h =>
      simp only [tagNumber] at htag
      exact absurd (by rw [htag]; decide) h
    | _ => simp [tagNumber] at htag
  | _ => cases hbody

end Body

namespace Message

variable {m m' : Message} {b : Bytes}

theorem ofElement?_body_of_decode (h : m.encode = .ok b) (h' : decode b = .ok m') :
    Encoding.ofElement? (Encoding.toElement m.body) = some m'.body := by
  obtain ⟨content, rest, rest', houter, hheader, hbody⟩ := elements_of_encode h
  obtain ⟨content', rfl, hlength, hread⟩ := decode_eq_ok_iff.1 h'
  obtain ⟨header, body, others, rfl, hheader', hbody', -, hm'⟩ := elements_of_ofContent? hread
  have houter' := Element.ofBytes?_eq_some_iff.2 ⟨rfl, hlength⟩
  obtain rfl := (Element.mk.inj (Option.some.inj (houter.symm.trans houter'))).2
  rw [Element.read_encode_append hheader'] at hheader
  obtain ⟨-, rfl⟩ := Prod.mk.inj (Option.some.inj hheader)
  rw [Element.read_encode_append hbody'] at hbody
  obtain ⟨rfl, -⟩ := Prod.mk.inj (Option.some.inj hbody)
  exact hm'

theorem decode_encoded_iff (h : m.encode = .ok b) : decode b = .ok m ↔ Valid m := by
  constructor
  · intro hread
    exact (encode_of_decode hread).1
  · intro hm
    exact decode_of_encode hm h

/-- A message with requests is read as one of its kind. Of the requests, those that can be read back are
read in their places. -/
theorem certReqs_of_decode {msgs : List CertReqMsg} (hbody : m.body.certReqs? = some msgs)
    (h : m.encode = .ok b) (h' : decode b = .ok m') :
    m'.body.tagNumber = m.body.tagNumber ∧ ∃ msgs', m'.body.certReqs? = some msgs' ∧
      ∀ (i : Nat) (msg : CertReqMsg), msgs[i]? = some msg → Valid msg → msgs'[i]? = some msg := by
  obtain ⟨htag, hcontents⟩ := Body.ofElement?_eq_some_iff.1 (ofElement?_body_of_decode h h')
  have htag : m'.body.tagNumber = m.body.tagNumber := (Tag.context.inj htag).2.symm
  obtain ⟨hcontent, msgs', hmsgs', hread⟩ := hcontents.certReqs hbody htag
  dsimp only [Encoding.toElement] at hread
  rw [hcontent] at hread
  exact ⟨htag, msgs', hmsgs', fun i msg hi hmsg => getElem?_of_decode?_list hread hi hmsg⟩

end Message

end PkiEnroll.Cmp
