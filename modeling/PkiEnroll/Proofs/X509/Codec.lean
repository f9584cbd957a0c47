import PkiEnroll.Proofs.Der.Integer
import PkiEnroll.Proofs.Der.Primitive
import PkiEnroll.Proofs.Der.Record
import PkiEnroll.Proofs.Der.SetOf
import PkiEnroll.Proofs.Der.Time
import PkiEnroll.X509.Certificate
import PkiEnroll.X509.GeneralName

namespace PkiEnroll.X509

open Der

instance : Checked Attribute := ⟨fun a => Valid a.type ∧ Valid a.value⟩

instance : LawfulContent Attribute :=
  .ofFields rfl <|
    .required Attribute.type fun _ =>
    .required Attribute.value fun _ => .done

instance : Checked Name := ⟨fun n => Valid n.rdns⟩

instance : LawfulContent Name :=
  .ofConversion Name.rdns (fun rdns => some ⟨rdns⟩) (fun _ => rfl) (fun _ => Option.map_eq_bind)
    (fun _ => Iff.rfl) (fun _ => rfl) (fun h => by cases h; rfl)

instance : Checked AlgorithmIdentifier := ⟨fun a => Valid a.oid ∧ Valid a.parameters⟩

instance : LawfulContent AlgorithmIdentifier :=
  .ofFields rfl <|
    .required AlgorithmIdentifier.oid fun _ =>
    .optional AlgorithmIdentifier.parameters fun _ => .done

instance : Checked PublicKeyInfo := ⟨fun k => Valid k.algorithm ∧ Valid k.key⟩

instance : LawfulContent PublicKeyInfo :=
  .ofFields rfl <|
    .required PublicKeyInfo.algorithm fun _ =>
    .required PublicKeyInfo.key fun _ => .done

instance : Checked Extension := ⟨fun e => Valid e.id ∧ Valid e.value⟩

def Extension.writtenCritical (e : Extension) : Option Bool :=
  if e.critical then some true else none

instance : LawfulContent Extension :=
  .ofFields rfl <|
    .required Extension.id fun _ =>
    .defaulted Extension.critical false Extension.writtenCritical Fields.slot_optional rfl
      (fun _ => trivial) (fun _ => .required Extension.value fun _ => .done)
      (fun e => by cases h : e.critical <;> simp [Extension.writtenCritical, h])
      (fun e h => by simp [Extension.writtenCritical, h]) ⟨_, rfl, .default (by decide)⟩

instance : Checked DirectoryString :=
  ⟨fun
    | .printable s => Valid s
    | .teletex s => Valid s
    | .utf8 s => Valid s⟩

instance : LawfulEncoding DirectoryString where
  accepts_toElement s := by cases s <;> rfl
  ofElement?_toElement {s} hs hlength := by
    cases s with
    | printable s => exact (if_pos rfl).trans (map_ofElement? hs hlength)
    | teletex s =>
      exact (if_neg (by rintro ⟨⟩)).trans ((if_pos rfl).trans (map_ofElement? hs hlength))
    | utf8 s =>
      exact (if_neg (by rintro ⟨⟩)).trans ((if_neg (by rintro ⟨⟩)).trans (map_ofElement? hs hlength))
  of_ofElement? {e s} h := by
    by_cases hprintable : e.tag = .universal .printableString
    · obtain ⟨a, rfl, ha⟩ := of_map_ofElement? ((if_pos hprintable).symm.trans h)
      exact ha
    · replace h := (if_neg hprintable).symm.trans h
      by_cases hteletex : e.tag = .universal .teletexString
      · obtain ⟨a, rfl, ha⟩ := of_map_ofElement? ((if_pos hteletex).symm.trans h)
        exact ha
      · obtain ⟨a, rfl, ha⟩ := of_map_ofElement? ((if_neg hteletex).symm.trans h)
        exact ha

instance : Checked OtherName := ⟨fun n => Valid n.type ∧ Valid n.value⟩

instance : LawfulContent OtherName :=
  .ofFields rfl <|
    .required OtherName.type fun _ =>
    .wrapped OtherName.value fun _ => .done

instance : Checked EdiPartyName := ⟨fun n => Valid n.nameAssigner ∧ Valid n.partyName⟩

instance : LawfulContent EdiPartyName :=
  .ofFields rfl <|
    .explicit EdiPartyName.nameAssigner fun _ =>
    .wrapped EdiPartyName.partyName fun _ => .done

instance : Checked GeneralName :=
  ⟨fun
    | .other n => Valid n
    | .email s | .dns s | .uri s => Valid s
    | .directory n => Valid n
    | .ediParty n => Valid n
    | .ipAddress s => Valid s
    | .registeredId o => Valid o⟩

instance : LawfulEncoding GeneralName where
  accepts_toElement n := by cases n <;> rfl
  ofElement?_toElement {n} hn hlength := by
    cases n with
    | directory n => exact map_decode? hn hlength
    | other n => exact map_ofContent? (α := OtherName) hn hlength
    | ediParty n => exact map_ofContent? (α := EdiPartyName) hn hlength
    | email s | dns s | uri s => exact map_ofContent? (α := Ia5String) hn hlength
    | ipAddress s => exact map_ofContent? (α := OctetString) hn hlength
    | registeredId o => exact map_ofContent? (α := Oid) hn hlength
  of_ofElement? {e n} h := by
    change GeneralName.ofElement? e = some n at h
    unfold GeneralName.ofElement? at h
    split at h
    case h_4 htag =>
      obtain ⟨a, rfl, ha, htidy⟩ := of_map_decode? h
      exact ⟨ha, .of_content htag htidy.tidies⟩
    case h_9 => cases h
    all_goals
      obtain ⟨a, rfl, ha, htidy⟩ := of_map_ofContent? h
      exact ⟨ha, .of_content ‹_› htidy⟩

instance : Checked Version := ⟨fun _ => True⟩

theorem Version.toOctet_of_ofOctet? {n : UInt8} {v : Version} (h : ofOctet? n = some v) :
    v.toOctet = n := by
  unfold ofOctet? at h
  split at h
  next hn =>
    cases h
    exact hn.symm
  next =>
    split at h
    next hn =>
      cases h
      exact hn.symm
    next =>
      obtain ⟨hn, hv⟩ := Option.ite_none_right_eq_some.1 h
      cases hv
      exact hn.symm

instance : LawfulContent Version :=
  .ofConversion Version.toOctet Version.ofOctet? (fun _ => rfl) (fun _ => rfl) (fun _ => Iff.rfl)
    (fun v => by cases v <;> rfl) Version.toOctet_of_ofOctet?

instance : Checked SerialNumber := ⟨fun s => (Integer.encode s.value).length ≤ 21⟩

instance : LawfulContent SerialNumber where
  ofContent?_content {s} hs _ :=
    (if_pos hs).trans (congrArg (Functor.map SerialNumber.mk) (Integer.decode?_encode s.value))
  of_ofContent? {b s} h := by
    obtain ⟨hlength, hread⟩ := Option.ite_none_right_eq_some.1 h
    obtain ⟨v, hv, rfl⟩ := Option.map_eq_some_iff.1 hread
    obtain rfl := Integer.encode_of_decode? hv
    exact ⟨hlength, .refl⟩

instance : Checked Validity := ⟨fun v => Valid v.notBefore ∧ Valid v.notAfter⟩

instance : LawfulContent Validity :=
  .ofFields rfl <|
    .required Validity.notBefore fun _ =>
    .required Validity.notAfter fun _ => .done

instance : Checked TbsCertificate :=
  ⟨fun t => Valid t.serialNumber ∧ Valid t.signature ∧ Valid t.issuer ∧ Valid t.validity ∧
    Valid t.subject ∧ Valid t.publicKey ∧ Valid t.issuerUniqueId ∧ Valid t.subjectUniqueId ∧
    Valid t.extensions⟩

def TbsCertificate.writtenVersion (t : TbsCertificate) : Option Version :=
  if t.version = .v1 then none else some t.version

instance : LawfulContent TbsCertificate :=
  .ofFields rfl <|
    .defaulted TbsCertificate.version .v1 TbsCertificate.writtenVersion (Fields.slot_explicit 0) rfl
      (fun _ => trivial)
      (fun _ =>
        .required TbsCertificate.serialNumber fun _ =>
        .required TbsCertificate.signature fun _ =>
        .required TbsCertificate.issuer fun _ =>
        .required TbsCertificate.validity fun _ =>
        .required TbsCertificate.subject fun _ =>
        .required TbsCertificate.publicKey fun _ =>
        .implicit TbsCertificate.issuerUniqueId fun _ =>
        .implicit TbsCertificate.subjectUniqueId fun _ =>
        .explicit TbsCertificate.extensions fun _ => .done)
      (fun t => by cases h : t.version <;> simp [TbsCertificate.writtenVersion, h])
      (fun t h => by simp [TbsCertificate.writtenVersion, h]) ⟨_, rfl, .default (by decide)⟩

instance : Checked Certificate :=
  ⟨fun c => Valid c.tbs ∧ Valid c.signatureAlgorithm ∧ Valid c.signature⟩

instance : LawfulContent Certificate :=
  .ofFields rfl <|
    .required Certificate.tbs fun _ =>
    .required Certificate.signatureAlgorithm fun _ =>
    .required Certificate.signature fun _ => .done

end PkiEnroll.X509
