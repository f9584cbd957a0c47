import PkiEnroll.Proofs.Cmp.Codec

namespace PkiEnroll.Cmp

open Der X509

namespace Body

/-- Whether contents are those of a body. An alternative that is not known has any contents. -/
inductive HasContents : Body → Bytes → Prop
  | initRequest {m : List CertReqMsg} {b : Bytes} (h : decode? b = some m) :
      HasContents (.initRequest m) b
  | initResponse {r : CertRepMessage} {b : Bytes} (h : decode? b = some r) :
      HasContents (.initResponse r) b
  | certRequest {m : List CertReqMsg} {b : Bytes} (h : decode? b = some m) :
      HasContents (.certRequest m) b
  | certResponse {r : CertRepMessage} {b : Bytes} (h : decode? b = some r) :
      HasContents (.certResponse r) b
  | keyUpdateRequest {m : List CertReqMsg} {b : Bytes} (h : decode? b = some m) :
      HasContents (.keyUpdateRequest m) b
  | keyUpdateResponse {r : CertRepMessage} {b : Bytes} (h : decode? b = some r) :
      HasContents (.keyUpdateResponse r) b
  | confirmation {null : Null} {b : Bytes} (h : decode? b = some null) : HasContents .confirmation b
  | error {e : ErrorContent} {b : Bytes} (h : decode? b = some e) : HasContents (.error e) b
  | certConfirm {s : List CertStatus} {b : Bytes} (h : decode? b = some s) :
      HasContents (.certConfirm s) b
  | pollRequest {p : List PollReq} {b : Bytes} (h : decode? b = some p) :
      HasContents (.pollRequest p) b
  | pollResponse {p : List PollRep} {b : Bytes} (h : decode? b = some p) :
      HasContents (.pollResponse p) b
  | unsupported {tag : TagNumber} {b : Bytes} (h : tag ∉ knownTags) :
      HasContents (.unsupported tag b) b

def isUnsupported : Body → Bool
  | unsupported _ _ => true
  | _ => false

variable {tag : TagNumber} {b content : Bytes} {body : Body} {e : Element}

/-- The tag under which contents are read as a body is the one under which the body is written. -/
theorem ofContent?_eq_some_iff :
    ofContent? tag content = some body ↔ body.tagNumber = tag ∧ body.HasContents content := by
  constructor
  · intro h
    have hread := h
    unfold ofContent? at h
    split at h
    case h_12 =>
      obtain rfl := Option.some.inj h
      obtain ⟨-, -, hknown⟩ := ofContent?_unsupported hread
      exact ⟨rfl, .unsupported hknown⟩
    all_goals
      obtain ⟨value, hvalue, rfl⟩ := Option.map_eq_some_iff.1 h
      exact ⟨rfl, by constructor; exact hvalue⟩
  · rintro ⟨rfl, h⟩
    cases h with
    | unsupported h => exact ofContent?_of_not_mem h
    | _ h => exact Option.map_eq_some_iff.2 ⟨_, h, rfl⟩

theorem HasContents.isUnsupported_iff (h : body.HasContents content) :
    body.isUnsupported = true ↔ body.tagNumber ∉ knownTags := by
  cases h with
  | unsupported h => exact iff_of_true rfl h
  | _ => exact iff_of_false Bool.false_ne_true (by simp [tagNumber, knownTags])

theorem ofElement?_eq_some_iff :
    (Encoding.ofElement? e : Option Body) = some body ↔
      e.tag = .context true body.tagNumber ∧ body.HasContents e.content := by
  simp only [Encoding.ofElement?]
  split
  next htag =>
    rw [ofContent?_eq_some_iff, htag]
    simp [eq_comm]
  next hother =>
    simp only [reduceCtorEq, false_iff, not_and]
    intro htag
    exact absurd htag (hother body.tagNumber)

theorem decode?_eq_some_iff :
    decode? b = some body ↔
      ∃ content, b = (Element.mk (.context true body.tagNumber) content).encode ∧
        b.length ≤ maxLength ∧ body.HasContents content := by
  rw [decode?, Option.bind_eq_bind, Option.bind_eq_some_iff]
  constructor
  · rintro ⟨⟨tag, content⟩, hbytes, hread⟩
    obtain ⟨hb, hlength⟩ := Element.ofBytes?_eq_some_iff.1 hbytes
    obtain ⟨rfl, hcontents⟩ := ofElement?_eq_some_iff.1 hread
    exact ⟨content, hb, hlength, hcontents⟩
  · rintro ⟨content, hb, hlength, hcontents⟩
    exact ⟨_, Element.ofBytes?_eq_some_iff.2 ⟨hb, hlength⟩, ofElement?_eq_some_iff.2 ⟨rfl, hcontents⟩⟩

theorem head?_encode_context (tag : TagNumber) (content : Bytes) :
    (Element.mk (.context true tag) content).encode.head? = some (0xa0 ||| UInt8.ofNat tag) := by
  have hoctet : ∀ n : TagNumber, (Tag.context true n).octet = 0xa0 ||| UInt8.ofNat n := by decide
  rw [Element.encode, List.cons_append, List.head?_cons, hoctet]

theorem HasContents.encode_unsupported (h : body.HasContents content)
    (hbody : body.isUnsupported = true) :
    encode body = (Element.mk (.context true body.tagNumber) content).encode := by
  cases h with
  | unsupported => rfl
  | _ => cases hbody

theorem decode?_encode_eq_some_iff (hlength : e.encode.length ≤ maxLength) :
    decode? e.encode = some body ↔
      e.tag = .context true body.tagNumber ∧ body.HasContents e.content := by
  rw [decode?_encode_element hlength, ofElement?_eq_some_iff]

/-- A byte string is a body if it is the element of the body's tag with contents of its alternative. So
the first byte of what is read gives the tag, and only what stands under no known tag is unsupported and
kept as it came. Whatever stands under such a tag is read; nothing is read under a known tag unless the
contents are those of its alternative, nor under a primitive tag or one of another class. -/
theorem decode_dispatches (b : Bytes) :
    (∀ body : Body, decode? b = some body ↔
      ∃ content, b = (Element.mk (.context true body.tagNumber) content).encode ∧
        b.length ≤ maxLength ∧ body.HasContents content) ∧
    (∀ body : Body, decode? b = some body →
      b.head? = some (0xa0 ||| UInt8.ofNat body.tagNumber) ∧
      (body.isUnsupported = true ↔ body.tagNumber ∉ knownTags) ∧
      (body.isUnsupported = true → encode body = b)) ∧
    ∀ e : Element, b = e.encode → b.length ≤ maxLength →
      (∀ tag ∉ knownTags, e.tag = .context true tag →
        decode? b = some (unsupported tag e.content)) ∧
      (∀ tag ∈ knownTags, e.tag = .context true tag →
        (∀ body : Body, body.tagNumber = tag → ¬body.HasContents e.content) →
        (decode? b : Option Body) = none) ∧
      ((∀ tag, e.tag ≠ .context true tag) → (decode? b : Option Body) = none) := by
  refine ⟨fun body => decode?_eq_some_iff, fun body h => ?_, ?_⟩
  · obtain ⟨content, rfl, -, hcontents⟩ := decode?_eq_some_iff.1 h
    exact ⟨head?_encode_context _ _, hcontents.isUnsupported_iff, hcontents.encode_unsupported⟩
  · rintro e rfl hlength
    refine ⟨fun tag hknown htag => ?_, fun tag _ htag hmalformed => ?_, fun hother => ?_⟩
    · exact (decode?_encode_eq_some_iff hlength).2 ⟨htag, .unsupported hknown⟩
    · refine Option.eq_none_iff_forall_ne_some.2 fun body hbody => ?_
      obtain ⟨htag', hcontents⟩ := (decode?_encode_eq_some_iff hlength).1 hbody
      have hsame : body.tagNumber = tag := (Tag.context.inj (htag'.symm.trans htag)).2
      exact hmalformed body hsame hcontents
    · refine Option.eq_none_iff_forall_ne_some.2 fun body hbody => ?_
      exact hother _ ((decode?_encode_eq_some_iff hlength).1 hbody).1

/-- Contents that are no encoding are kept under a tag that is not known. Under that of a confirmation they
are refused, and so they are under a primitive tag. -/
theorem decode_dispatches_junk :
    decode? [0xbe, 0x02, 0xff, 0x30] = some (unsupported 30 [0xff, 0x30]) ∧
      (decode? [0xb3, 0x02, 0xff, 0x30] : Option Body) = none ∧
      (decode? [0x9e, 0x02, 0xff, 0x30] : Option Body) = none := by
  have hnull : (decode? [0xff, 0x30] : Option Null) = none := by decide
  have hmalformed (body : Body) (htag : body.tagNumber = 19) : ¬body.HasContents [0xff, 0x30] := by
    intro h
    cases h with
    | confirmation h =>
      rw [hnull] at h
      cases h
    | unsupported h =>
      subst htag
      exact h (by decide)
    | _ => exact absurd htag (by simp [tagNumber])
  obtain ⟨-, -, hforeign⟩ := decode_dispatches [0xbe, 0x02, 0xff, 0x30]
  obtain ⟨-, -, hknown⟩ := decode_dispatches [0xb3, 0x02, 0xff, 0x30]
  obtain ⟨-, -, hprimitive⟩ := decode_dispatches [0x9e, 0x02, 0xff, 0x30]
  refine ⟨?_, ?_, ?_⟩
  · exact (hforeign ⟨.context true 30, [0xff, 0x30]⟩ (by decide) (by decide)).1 30 (by decide) rfl
  · exact (hknown ⟨.context true 19, [0xff, 0x30]⟩ (by decide) (by decide)).2.1 19 (by decide) rfl
      hmalformed
  · exact (hprimitive ⟨.context false 30, [0xff, 0x30]⟩ (by decide) (by decide)).2.2 (by decide)

end Body

end PkiEnroll.Cmp
