import PkiEnroll.Proofs.Cmp.CarriedRequests

namespace PkiEnroll.Der.Fields

variable {α : Type} [Encoding α] {n : TagNumber} {o : Option α} {rest es : List Element}

theorem rest_of_required {e : Element} {a : α} (h : (required : Fields α) (e :: rest) = some (a, es)) :
    es = rest := by
  obtain ⟨e', heq, -⟩ := required_eq_some_iff.1 h
  exact (List.cons.inj heq).2.symm

theorem explicit_absent {e : Element} (he : upTo n e.tag = false) (rest : List Element) :
    (explicit n : Fields (Option α)) (e :: rest) = some (none, e :: rest) := by
  have habsent : tagged n (e :: rest) = some (none, e :: rest) := by
    refine tagged_absent fun e' he' => ?_
    obtain rfl := Option.some.inj he'
    exact he
  exact bind_eq_some_iff.2 ⟨none, e :: rest, habsent, rfl⟩

theorem explicit_wrap_eq_some {a : α} (h : (explicit n : Fields (Option α)) (wrap n a :: rest) = some (o, es)) :
    es = rest ∧ decode? (encode a) = o := by
  obtain ⟨field, es', htagged, h⟩ := bind_eq_some_iff.1 h
  obtain ⟨rfl, rfl⟩ := Prod.mk.inj (Option.some.inj (tagged_present.symm.trans htagged))
  dsimp only at h
  cases hread : (decode? (encode a) : Option α) with
  | none =>
    rw [hread] at h
    cases h
  | some read =>
    rw [hread] at h
    cases h
    exact ⟨rfl, rfl⟩

/-- What stands behind a field is read whatever is read of the field. -/
theorem rest_of_explicit {written : Option α} {e : Element} (he : upTo n e.tag = false)
    (h : (explicit n : Fields (Option α)) (explicitElements n written ++ e :: rest) = some (o, es)) :
    es = e :: rest := by
  cases written with
  | none =>
    obtain heq := Option.some.inj ((explicit_absent he rest).symm.trans h)
    exact (Prod.mk.inj heq).2.symm
  | some a => exact (explicit_wrap_eq_some h).1

end PkiEnroll.Der.Fields

namespace PkiEnroll.Cmp

open Der X509 Fields

namespace Header

variable {h read : Header} {algorithm : AlgorithmIdentifier}

theorem exists_content_eq (halgorithm : h.protectionAlg = some algorithm) :
    ∃ later, Content.content h = Element.encodeAll
      (Encoding.toElement h.pvno :: Encoding.toElement h.sender :: Encoding.toElement h.recipient ::
        (explicitElements 0 h.messageTime ++ wrap 1 algorithm :: later)) := by
  have hfield : explicitField 1 h.protectionAlg = (wrap 1 algorithm).encode := by
    rw [halgorithm]
    rfl
  refine ⟨explicitElements 2 h.senderKid ++ (explicitElements 3 h.recipKid ++
    (explicitElements 4 h.transactionId ++ (explicitElements 5 h.senderNonce ++
    (explicitElements 6 h.recipNonce ++ (explicitElements 7 h.freeText ++
    explicitElements 8 h.generalInfo))))), ?_⟩
  simp only [Content.content, hfield, Element.encodeAll_cons, Element.encodeAll_append,
    ← explicitField_eq, List.append_assoc]
  rfl

/-- The algorithm of the protection is read as it is written, whatever is read of the other fields. -/
theorem protectionAlg_of_ofContent? (hread : Content.ofContent? (Content.content h) = some read)
    (hlength : (Content.content h).length ≤ maxLength) (halgorithm : h.protectionAlg = some algorithm)
    (hvalid : Valid algorithm) : read.protectionAlg = some algorithm := by
  obtain ⟨later, hcontent⟩ := exists_content_eq halgorithm
  have hfits : (encode algorithm).length ≤ maxLength := by
    have hfield := length_le_explicitField 1 algorithm
    simp only [Content.content, halgorithm, List.length_append] at hlength hfield
    omega
  rw [hcontent] at hread hlength
  have hfields := (read?_encodeAll_iff hlength).1 hread
  obtain ⟨pvno, es₁, h₁, hfields⟩ := bind_eq_some_iff.1 hfields
  obtain rfl := rest_of_required h₁
  obtain ⟨sender, es₂, h₂, hfields⟩ := bind_eq_some_iff.1 hfields
  obtain rfl := rest_of_required h₂
  obtain ⟨recipient, es₃, h₃, hfields⟩ := bind_eq_some_iff.1 hfields
  obtain rfl := rest_of_required h₃
  obtain ⟨time, es₄, h₄, hfields⟩ := bind_eq_some_iff.1 hfields
  obtain rfl := rest_of_explicit rfl h₄
  obtain ⟨found, es₅, h₅, hfields⟩ := bind_eq_some_iff.1 hfields
  obtain ⟨rfl, hfound⟩ := explicit_wrap_eq_some h₅
  obtain rfl : some algorithm = found := (decode?_encode hvalid hfits).symm.trans hfound
  -- the fields that follow are read as they come
  obtain ⟨_, _, -, hfields⟩ := bind_eq_some_iff.1 hfields
  obtain ⟨_, _, -, hfields⟩ := bind_eq_some_iff.1 hfields
  obtain ⟨_, _, -, hfields⟩ := bind_eq_some_iff.1 hfields
  obtain ⟨_, _, -, hfields⟩ := bind_eq_some_iff.1 hfields
  obtain ⟨_, _, -, hfields⟩ := bind_eq_some_iff.1 hfields
  obtain ⟨_, _, -, hfields⟩ := bind_eq_some_iff.1 hfields
  obtain ⟨_, _, -, hfields⟩ := bind_eq_some_iff.1 hfields
  obtain ⟨rfl, -⟩ := Prod.mk.inj (Option.some.inj hfields)
  rfl

end Header

namespace Message

variable {m read : Message} {raw : Bytes}

theorem content_eq (m : Message) : Content.content m = Element.encodeAll
    (Encoding.toElement m.header :: Encoding.toElement m.body ::
      (explicitElements 0 m.protection ++ explicitElements 1 m.extraCerts)) := by
  simp only [Content.content, Element.encodeAll_cons, Element.encodeAll_append, ← explicitField_eq,
    List.append_assoc]
  rfl

/-- What comes with the protection of a message is read as it is written, whatever is read of the others
of its values. -/
theorem protection_of_decode (hraw : m.encode = .ok raw) (hread : decode raw = .ok read)
    {algorithm : AlgorithmIdentifier} (halgorithm : m.header.protectionAlg = some algorithm)
    (hvalid : Valid algorithm) {bits : BitString} (hbits : m.protection = some bits) :
    read.header.protectionAlg = some algorithm ∧ read.protection = some bits ∧
      ∀ certs, m.extraCerts = some certs → Valid certs → read.extraCerts = some certs := by
  obtain ⟨-, rfl⟩ := bounded_eq_ok_iff.1 hraw
  obtain ⟨hlength, hfields⟩ := ofContent?_of_decode?_encode (orFail_eq_ok_iff.1 hread)
  have hcontent : (Content.content m).length ≤ maxLength := Nat.le_trans (length_content_le m) hlength
  rw [content_eq, hbits] at hfields hcontent
  replace hfields := (read?_encodeAll_iff hcontent).1 hfields
  obtain ⟨header, es₁, h₁, hfields⟩ := bind_eq_some_iff.1 hfields
  obtain ⟨body, es₂, h₂, hfields⟩ := bind_eq_some_iff.1 hfields
  obtain rfl := rest_of_required h₁
  obtain rfl := rest_of_required h₂
  obtain ⟨protection, es₃, h₃, hfields⟩ := bind_eq_some_iff.1 hfields
  obtain ⟨rfl, hprotection⟩ := explicit_wrap_eq_some h₃
  obtain ⟨extraCerts, es₄, h₄, hfields⟩ := bind_eq_some_iff.1 hfields
  obtain ⟨rfl, -⟩ := Prod.mk.inj (Option.some.inj hfields)
  refine ⟨?_, ?_, fun certs hcerts hvalid => ?_⟩
  · obtain ⟨e, heq, hheader⟩ := required_eq_some_iff.1 h₁
    obtain rfl := (List.cons.inj heq).1
    obtain ⟨-, hheader⟩ := Option.ite_none_right_eq_some.1 hheader
    refine Header.protectionAlg_of_ofContent? hheader ?_ halgorithm hvalid
    exact Nat.le_trans (length_content_le m.header) (Nat.le_trans (length_header_le m) hlength)
  · have hfits := Nat.le_trans (length_protection_le hbits) hlength
    exact hprotection.symm.trans (decode?_encode trivial hfits)
  · have hfits := Nat.le_trans (length_extraCerts_le hcerts) hlength
    rw [hcerts] at h₄
    obtain ⟨-, hextra⟩ := explicit_wrap_eq_some h₄
    exact hextra.symm.trans (decode?_encode hvalid hfits)

end Message

end PkiEnroll.Cmp
