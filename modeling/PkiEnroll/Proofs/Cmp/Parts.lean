import PkiEnroll.Proofs.Cmp.Codec

namespace PkiEnroll.Cmp

open Der X509

variable {rep : CertRepMessage} {body : Body} {m : Message} {c : Certificate}

theorem CertRepMessage.length_caPub_le (h : c ∈ rep.caPubs.getD []) :
    (encode c).length ≤ (encode rep).length := by
  refine Nat.le_trans ?_ (length_content_le rep)
  change _ ≤ (explicitField 1 rep.caPubs ++ encode rep.responses).length
  rw [List.length_append]
  exact Nat.le_trans (length_le_explicitField_list h) (Nat.le_add_right _ _)

namespace Body

theorem content_of_certRep? (h : body.certRep? = some rep) : body.content = encode rep := by
  cases body <;> simp_all [certRep?, content]

theorem length_certRep_le (h : body.certRep? = some rep) :
    (encode rep).length ≤ (encode body).length := by
  have hcontent : body.content.length < (encode body).length :=
    Element.content_lt_encode (Encoding.toElement body)
  rw [content_of_certRep? h] at hcontent
  exact Nat.le_of_lt hcontent

theorem valid_certRep (hbody : Valid body) (h : body.certRep? = some rep) : Valid rep := by
  cases body <;> cases h <;> exact hbody

end Body

theorem Header.length_protectionAlg_le {header : Header} {algorithm : AlgorithmIdentifier}
    (h : header.protectionAlg = some algorithm) :
    (encode algorithm).length ≤ (encode header).length := by
  have hfield := length_le_explicitField 1 algorithm
  refine Nat.le_trans ?_ (length_content_le header)
  simp only [Content.content, h, List.length_append] at hfield ⊢
  omega

theorem length_parameters_le {algorithm : AlgorithmIdentifier} {e : Element}
    (h : algorithm.parameters = some e) : e.encode.length ≤ (encode algorithm).length := by
  refine Nat.le_trans ?_ (length_content_le algorithm)
  change _ ≤ (encode algorithm.oid ++ optionalField algorithm.parameters).length
  rw [h, List.length_append]
  exact Nat.le_add_left _ _

namespace Message

theorem length_header_le (m : Message) : (Der.encode m.header).length ≤ (Der.encode m).length := by
  refine Nat.le_trans ?_ (length_content_le m)
  simp only [Content.content, List.length_append]
  omega

theorem length_body_le (m : Message) : (Der.encode m.body).length ≤ (Der.encode m).length := by
  refine Nat.le_trans ?_ (length_content_le m)
  simp only [Content.content, List.length_append]
  omega

theorem length_protection_le {bits : BitString} (h : m.protection = some bits) :
    (Der.encode bits).length ≤ (Der.encode m).length := by
  have hfield := length_le_explicitField 0 bits
  refine Nat.le_trans ?_ (length_content_le m)
  simp only [Content.content, h, List.length_append] at hfield ⊢
  omega

theorem length_extraCerts_le {certs : List Certificate} (h : m.extraCerts = some certs) :
    (Der.encode certs).length ≤ (Der.encode m).length := by
  have hfield := length_le_explicitField 1 certs
  refine Nat.le_trans ?_ (length_content_le m)
  rw [← h] at hfield
  simp only [Content.content, List.length_append] at hfield ⊢
  omega

theorem length_extraCert_le (h : c ∈ m.extraCertList) :
    (Der.encode c).length ≤ (Der.encode m).length := by
  refine Nat.le_trans ?_ (length_content_le m)
  change _ ≤ (_ ++ explicitField 1 m.extraCerts).length
  rw [List.length_append]
  exact Nat.le_trans (length_le_explicitField_list h) (Nat.le_add_left _ _)

theorem encode_eq_pairBytes (m : Message) :
    Der.encode m = pairBytes (Der.encode m.header)
      (Der.encode m.body ++ (explicitField 0 m.protection ++ explicitField 1 m.extraCerts)) := by
  rw [pairBytes, ← List.append_assoc, ← List.append_assoc]
  rfl

theorem protectedPart_eq_encode (header : Header) (body : Body) :
    protectedPart header body = encode { header, body } := by
  rw [protectedPart, encode, encode_eq_pairBytes]
  simp only [explicitField, List.append_nil]

theorem protectedPart_of_fits (h : (Der.encode m).length ≤ maxLength) :
    protectedPart m.header m.body = .ok (pairBytes (Der.encode m.header) (Der.encode m.body)) := by
  rw [encode_eq_pairBytes m] at h
  exact bounded_eq_ok_iff.2 ⟨Nat.le_trans (length_pairBytes_le _ _ _) h, rfl⟩

/-- The part of a written message that is checked is the part that was protected. -/
theorem receivedPart_encode (h : (Der.encode m).length ≤ maxLength) :
    receivedPart (Der.encode m) = protectedPart m.header m.body := by
  have hheader := Nat.le_trans (length_header_le m) h
  have hbody := Nat.le_trans (length_body_le m) h
  rw [protectedPart_of_fits h]
  rw [encode_eq_pairBytes m] at h ⊢
  refine receivedPart_pairBytes h ?_ ?_
  · exact Nat.le_trans (Nat.le_of_lt (Element.content_lt_encode _)) hheader
  · exact Nat.le_trans (Nat.le_of_lt (Element.content_lt_encode _)) hbody

theorem elements_of_encode {b : Bytes} (h : m.encode = .ok b) :
    ∃ content rest rest', Element.ofBytes? b = some ⟨sequenceTag, content⟩ ∧
      Element.read content = some (Encoding.toElement m.header, rest) ∧
      Element.read rest = some (Encoding.toElement m.body, rest') := by
  obtain ⟨hfits, rfl⟩ := bounded_eq_ok_iff.1 h
  have hheader : (Encoding.toElement m.header).content.length ≤ maxLength :=
    Nat.le_trans (Nat.le_of_lt (Element.content_lt_encode _)) (Nat.le_trans (length_header_le m) hfits)
  have hbody : (Encoding.toElement m.body).content.length ≤ maxLength :=
    Nat.le_trans (Nat.le_of_lt (Element.content_lt_encode _)) (Nat.le_trans (length_body_le m) hfits)
  exact ⟨_, _, _, Element.ofBytes?_eq_some_iff.2 ⟨encode_eq_pairBytes m, hfits⟩,
    Element.read_encode_append hheader _, Element.read_encode_append hbody _⟩

/-- The bytes tell bodies apart by their tags, also those that are not read back. -/
theorem tagNumber_eq_of_encode {m' : Message} {b : Bytes} (h : m.encode = .ok b)
    (h' : m'.encode = .ok b) : m.body.tagNumber = m'.body.tagNumber := by
  obtain ⟨content, rest, others, houter, hheader, hbody⟩ := elements_of_encode h
  obtain ⟨content', rest', others', houter', hheader', hbody'⟩ := elements_of_encode h'
  obtain rfl : content = content' :=
    (Element.mk.inj (Option.some.inj (houter.symm.trans houter'))).2
  obtain rfl : rest = rest' := (Prod.mk.inj (Option.some.inj (hheader.symm.trans hheader'))).2
  have helement : Encoding.toElement m.body = Encoding.toElement m'.body :=
    (Prod.mk.inj (Option.some.inj (hbody.symm.trans hbody'))).1
  exact (Tag.context.inj (congrArg Element.tag helement)).2

theorem fits_of_decode {b : Bytes} (hm : decode b = .ok m) : (Der.encode m).length ≤ maxLength := by
  obtain ⟨-, b', hwritten, -⟩ := encode_of_decode hm
  exact (bounded_eq_ok_iff.1 hwritten).1

theorem fits_parameters {b : Bytes} {algorithm : AlgorithmIdentifier} {e : Element}
    (hm : decode b = .ok m) (halgorithm : m.header.protectionAlg = some algorithm)
    (he : algorithm.parameters = some e) : e.encode.length ≤ maxLength :=
  calc e.encode.length
    _ ≤ (Der.encode algorithm).length := length_parameters_le he
    _ ≤ (Der.encode m.header).length := Header.length_protectionAlg_le halgorithm
    _ ≤ (Der.encode m).length := length_header_le m
    _ ≤ maxLength := fits_of_decode hm

theorem valid_received {b : Bytes} (hm : decode b = .ok m) (hrep : m.body.certRep? = some rep)
    (hc : c ∈ rep.caPubs.getD [] ++ m.extraCertList) :
    Valid c ∧ (Der.encode c).length ≤ maxLength := by
  obtain ⟨⟨-, hbody, -, hcerts⟩, -⟩ := encode_of_decode hm
  have hfits := fits_of_decode hm
  rcases List.mem_append.1 hc with hc | hc
  · obtain ⟨hpubs, -⟩ := Body.valid_certRep hbody hrep
    have hlength := Nat.le_trans (CertRepMessage.length_caPub_le hc) (Body.length_certRep_le hrep)
    exact ⟨valid_of_mem_getD hpubs hc,
      Nat.le_trans hlength (Nat.le_trans (length_body_le m) hfits)⟩
  · exact ⟨valid_of_mem_getD hcerts hc, Nat.le_trans (length_extraCert_le hc) hfits⟩

end Message

end PkiEnroll.Cmp
