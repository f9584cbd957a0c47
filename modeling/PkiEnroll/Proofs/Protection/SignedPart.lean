import PkiEnroll.Proofs.Enroll.CertificationPath
import PkiEnroll.Proofs.Enroll.ExtraCerts
import PkiEnroll.Proofs.X509.Codec

namespace PkiEnroll.Protection

open Der X509 Cmp

/-- The part of a certificate that is signed, as it came: the first element of the sequence. -/
def signedPart? (b : Bytes) : Option Bytes := do
  let outer ← Element.ofBytes? b
  let (tbs, _) ← Element.read outer.content
  return tbs.encode

/-- Whether a certificate bears a signature of the data given. -/
def SignedOver (c : Certificate) (key : Rsa.PublicKey) (data : Bytes) : Prop :=
  c.signature.unused = 0 ∧
    verifySignature c.signatureAlgorithm.oid key data c.signature.bytes = .ok ()

section

variable {b : Bytes} {c : Certificate} {key : Rsa.PublicKey}

theorem verifyCertificate_iff_signedOver :
    verifyCertificate c key = .ok () ↔ SignedOver c key (encode c.tbs) := by
  rw [Enroll.verifyCertificate_eq_ok_iff, SignedOver, verifySignature_eq_ok_iff]
  simp only [and_left_comm, exists_and_left]

/-- A certificate that is read begins with the part that is signed, and that part is read by itself. -/
theorem signedPart?_of_decode? (h : decode? b = some c) :
    ∃ part rest, signedPart? b = some part ∧ b = (Element.mk sequenceTag (part ++ rest)).encode ∧
      decode? part = some c.tbs := by
  obtain ⟨⟨tag, content⟩, houter, hread⟩ := Option.bind_eq_some_iff.1 h
  obtain ⟨rfl, hfields⟩ := Option.ite_none_right_eq_some.1 hread
  obtain ⟨es, hes, hfields⟩ := Fields.read?_eq_some_iff.1 hfields
  obtain ⟨tbs, others, hfirst, hfields⟩ := Fields.bind_eq_some_iff.1 hfields
  obtain ⟨algorithm, es₂, -, hfields⟩ := Fields.bind_eq_some_iff.1 hfields
  obtain ⟨signature, es₃, -, hfields⟩ := Fields.bind_eq_some_iff.1 hfields
  obtain ⟨rfl, rfl⟩ := Prod.mk.inj (Option.some.inj hfields)
  obtain ⟨e, rfl, he⟩ := Fields.required_eq_some_iff.1 hfirst
  obtain ⟨rfl, hlengths⟩ := Element.readAll_eq_some_iff.1 hes
  obtain ⟨rfl, hbounded⟩ := Element.ofBytes?_eq_some_iff.1 houter
  rw [Element.encodeAll_cons] at houter hbounded ⊢
  have hlength : e.encode.length ≤ maxLength := by
    have hcontents : (e.encode ++ Element.encodeAll others).length < maxLength :=
      Nat.lt_of_lt_of_le (Element.content_lt_encode ⟨sequenceTag, _⟩) hbounded
    rw [List.length_append] at hcontents
    omega
  refine ⟨e.encode, Element.encodeAll others, ?_, rfl, ?_⟩
  · simp [signedPart?, houter, Element.read_encode_append (hlengths e List.mem_cons_self)]
  · rw [decode?_encode_element hlength]
    exact he

/-- The signature of a certificate is checked against the tidied form of the part that is signed. So the
check is one of the bytes that came exactly where nothing can be tidied in them without a change of what is
read. -/
theorem verifyCertificate_tidies (h : decode? b = some c) :
    ∃ part rest, signedPart? b = some part ∧ b = (Element.mk sequenceTag (part ++ rest)).encode ∧
      decode? part = some c.tbs ∧ TidiesTo part (encode c.tbs) ∧
      (∀ key, verifyCertificate c key = .ok () ↔ SignedOver c key (encode c.tbs)) ∧
      ((∀ other, TidiesTo part other → decode? other = some c.tbs → other = part) →
        ∀ key, verifyCertificate c key = .ok () ↔ SignedOver c key part) := by
  obtain ⟨part, rest, hpart, hbytes, hread⟩ := signedPart?_of_decode? h
  refine ⟨part, rest, hpart, hbytes, hread, (of_decode? hread).2,
    fun key => verifyCertificate_iff_signedOver, ?_⟩
  intro htidy key
  rw [verifyCertificate_iff_signedOver, (encode_eq_iff_of_decode? hread).2 htidy]

end

namespace Sample

open Enroll.Sample

def certificateBytes (part signature : Bytes) : Bytes :=
  (Element.mk sequenceTag
    (part ++ encode SigningPair.algorithm ++ encode (BitString.ofBytes signature))).encode

/-- The leaf with its version written out, which is the default. -/
def writtenVersion : Bytes :=
  (Element.mk sequenceTag ([0xa0, 0x03, 0x02, 0x01, 0x00] ++ Content.content leaf.tbs)).encode

def genuine : Certificate :=
  { leaf with
    signature := .ofBytes <|
      Bytes.ofNat 32 0x326d43ac03d5dfde371f1d1eb675e823ba82e895e8fee655cf9e7e5069897929 ++
        Bytes.ofNat 32 0x00c9e1b5352cac9d8826c78140aea8fa08fde7643e6742de7dfb2ab4c1cccbf8 }

/-- The leaf with a field at its end that nobody has signed. -/
def fieldAdded : Bytes :=
  (Element.mk sequenceTag (Content.content leaf.tbs ++ [0xa0, 0x02, 0x05, 0x00])).encode

/-- A certificate that is signed as it stands is refused, and one that has been altered is accepted. -/
theorem verifyCertificate_not_as_received :
    (decode? (certificateBytes writtenVersion genuine.signature.bytes) = some genuine ∧
      signedPart? (certificateBytes writtenVersion genuine.signature.bytes) = some writtenVersion ∧
      SignedOver genuine Enroll.Sample.publicKey writtenVersion ∧
      verifyCertificate genuine Enroll.Sample.publicKey ≠ .ok ()) ∧
    (decode? (certificateBytes fieldAdded leaf.signature.bytes) = some leaf ∧
      signedPart? (certificateBytes fieldAdded leaf.signature.bytes) = some fieldAdded ∧
      ¬SignedOver leaf Enroll.Sample.publicKey fieldAdded ∧
      verifyCertificate leaf Enroll.Sample.publicKey = .ok ()) := by
  refine ⟨⟨by decide +kernel, by decide +kernel, ?_, by decide +kernel⟩,
    ⟨by decide +kernel, by decide +kernel, ?_, by decide +kernel⟩⟩
  · exact ⟨rfl, by decide +kernel⟩
  · have hother : verifySignature leaf.signatureAlgorithm.oid Enroll.Sample.publicKey fieldAdded
        leaf.signature.bytes ≠ .ok () := by decide +kernel
    exact fun h => hother h.2

/-- Nothing can be tidied in what is written for the leaf; the version that is written out can. -/
theorem verifyCertificate_tidies_leaf :
    (decode? (encode leaf) = some leaf ∧ signedPart? (encode leaf) = some (encode leaf.tbs) ∧
      ∀ key, verifyCertificate leaf key = .ok () ↔ SignedOver leaf key (encode leaf.tbs)) ∧
    (decode? (certificateBytes writtenVersion genuine.signature.bytes) = some genuine ∧
      TidiesTo writtenVersion (encode leaf.tbs) ∧ encode leaf.tbs ≠ writtenVersion) := by
  have hleaf : decode? (encode leaf) = some leaf := by decide +kernel
  have hown : signedPart? (encode leaf) = some (encode leaf.tbs) := by decide +kernel
  have hgenuine : decode? (certificateBytes writtenVersion genuine.signature.bytes) = some genuine := by
    decide +kernel
  have hloose : signedPart? (certificateBytes writtenVersion genuine.signature.bytes) =
      some writtenVersion := by decide +kernel
  obtain ⟨part, -, hpart, -, hread, -, -, htidy⟩ := verifyCertificate_tidies hleaf
  obtain rfl := Option.some.inj (hpart.symm.trans hown)
  obtain ⟨part', -, hpart', -, -, htidies, -, -⟩ := verifyCertificate_tidies hgenuine
  obtain rfl := Option.some.inj (hpart'.symm.trans hloose)
  exact ⟨⟨hleaf, hown, htidy ((encode_eq_iff_of_decode? hread).1 rfl)⟩,
    hgenuine, htidies, by decide +kernel⟩

end Sample

end PkiEnroll.Protection
