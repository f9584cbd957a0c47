import PkiEnroll.Cmp.Message
import PkiEnroll.Proofs.Cmp.Body
import PkiEnroll.Proofs.X509.Codec

namespace PkiEnroll.Cmp

open Der X509

instance : Checked OptionalValidity := ⟨fun v => Valid v.notBefore ∧ Valid v.notAfter⟩

instance : LawfulContent OptionalValidity :=
  .ofFields rfl <|
    .explicit OptionalValidity.notBefore fun _ =>
    .explicit OptionalValidity.notAfter fun _ => .done

instance : Checked CertTemplate :=
  ⟨fun t => Valid t.version ∧ Valid t.serialNumber ∧ Valid t.signingAlg ∧ Valid t.issuer ∧
    Valid t.validity ∧ Valid t.subject ∧ Valid t.publicKey ∧ Valid t.issuerUid ∧
    Valid t.subjectUid ∧ Valid t.extensions⟩

instance : LawfulContent CertTemplate :=
  .ofFields rfl <|
    .implicit CertTemplate.version fun _ =>
    .implicit CertTemplate.serialNumber fun _ =>
    .implicit CertTemplate.signingAlg fun _ =>
    .explicit CertTemplate.issuer fun _ =>
    .implicit CertTemplate.validity fun _ =>
    .explicit CertTemplate.subject fun _ =>
    .implicit CertTemplate.publicKey fun _ =>
    .implicit CertTemplate.issuerUid fun _ =>
    .implicit CertTemplate.subjectUid fun _ =>
    .implicit CertTemplate.extensions fun _ => .done

instance : Checked CertRequest :=
  ⟨fun r => Valid r.certReqId ∧ Valid r.template ∧ Valid r.controls⟩

instance : LawfulContent CertRequest :=
  .ofFields rfl <|
    .required CertRequest.certReqId fun _ =>
    .required CertRequest.template fun _ =>
    .optional CertRequest.controls fun _ => .done

instance : Checked SigningKeyProof := ⟨fun p => Valid p.algorithm ∧ Valid p.signature⟩

instance : LawfulContent SigningKeyProof :=
  .ofFields rfl <|
    .required SigningKeyProof.algorithm fun _ =>
    .required SigningKeyProof.signature fun _ => .done

instance : Checked ProofOfPossession :=
  ⟨fun
    | .raVerified => True
    | .signature p => Valid p⟩

instance : LawfulEncoding ProofOfPossession where
  accepts_toElement p := by cases p <;> rfl
  ofElement?_toElement {p} hp hlength := by
    cases p with
    | raVerified => rfl
    | signature p => exact map_ofContent? (α := SigningKeyProof) hp hlength
  of_ofElement? {e p} h := by
    simp only [Encoding.ofElement?] at h
    split at h
    next htag =>
      obtain ⟨a, rfl, ha, htidy⟩ := of_map_ofContent? h
      exact ⟨trivial, .of_content htag htidy⟩
    next htag =>
      obtain ⟨a, rfl, ha, htidy⟩ := of_map_ofContent? h
      exact ⟨ha, .of_content htag htidy⟩
    next => cases h

instance : Checked CertReqMsg := ⟨fun m => Valid m.request ∧ Valid m.proof ∧ Valid m.regInfo⟩

instance : LawfulContent CertReqMsg :=
  .ofFields rfl <|
    .required CertReqMsg.request fun _ =>
    .optional CertReqMsg.proof fun _ =>
    .optional CertReqMsg.regInfo fun _ => .done

theorem Status.toOctet_of_ofOctet? {n : UInt8} {s : Status} (h : ofOctet? n = some s) :
    s.toOctet = n := by
  have hfound := List.find?_some h
  exact of_decide_eq_true hfound

instance : Checked Status := ⟨fun _ => True⟩

instance : LawfulContent Status :=
  .ofConversion Status.toOctet Status.ofOctet? (fun _ => rfl) (fun _ => rfl) (fun _ => Iff.rfl)
    (fun s => by cases s <;> rfl) Status.toOctet_of_ofOctet?

instance : Checked StatusInfo := ⟨fun i => Valid i.status ∧ Valid i.texts ∧ Valid i.failInfo⟩

instance : LawfulContent StatusInfo :=
  .ofFields rfl <|
    .required StatusInfo.status fun _ =>
    .optional StatusInfo.texts fun _ =>
    .optional StatusInfo.failInfo fun _ => .done

instance : Checked IssuedCert :=
  ⟨fun
    | .certificate c => Valid c
    | .encrypted _ => True⟩

instance : LawfulEncoding IssuedCert where
  accepts_toElement c := by cases c <;> rfl
  ofElement?_toElement {c} hc hlength := by
    cases c with
    | certificate c => exact map_decode? (α := Certificate) hc hlength
    | encrypted e => exact map_decode? (α := Element) trivial hlength
  of_ofElement? {e c} h := by
    simp only [Encoding.ofElement?] at h
    split at h
    next htag =>
      obtain ⟨a, rfl, ha, htidy⟩ := of_map_decode? h
      exact ⟨ha, .of_content htag htidy.tidies⟩
    next htag =>
      obtain ⟨a, rfl, ha, htidy⟩ := of_map_decode? h
      exact ⟨ha, .of_content htag htidy.tidies⟩
    next => cases h

instance : Checked CertifiedKeyPair :=
  ⟨fun p => Valid p.issued ∧ Valid p.privateKey ∧ Valid p.publicationInfo⟩

instance : LawfulContent CertifiedKeyPair :=
  .ofFields rfl <|
    .required CertifiedKeyPair.issued fun _ =>
    .explicit CertifiedKeyPair.privateKey fun _ =>
    .explicit CertifiedKeyPair.publicationInfo fun _ => .done

instance : Checked CertResponse :=
  ⟨fun r => Valid r.certReqId ∧ Valid r.status ∧ Valid r.keyPair ∧ Valid r.rspInfo⟩

instance : LawfulContent CertResponse :=
  .ofFields rfl <|
    .required CertResponse.certReqId fun _ =>
    .required CertResponse.status fun _ =>
    .optional CertResponse.keyPair fun _ =>
    .optional CertResponse.rspInfo fun _ => .done

instance : Checked CertRepMessage := ⟨fun r => Valid r.caPubs ∧ Valid r.responses⟩

instance : LawfulContent CertRepMessage :=
  .ofFields rfl <|
    .explicit CertRepMessage.caPubs fun _ =>
    .required CertRepMessage.responses fun _ => .done

instance : Checked ErrorContent := ⟨fun e => Valid e.status ∧ Valid e.code ∧ Valid e.details⟩

instance : LawfulContent ErrorContent :=
  .ofFields rfl <|
    .required ErrorContent.status fun _ =>
    .optional ErrorContent.code fun _ =>
    .optional ErrorContent.details fun _ => .done

instance : Checked CertStatus := ⟨fun s => Valid s.certHash ∧ Valid s.certReqId ∧ Valid s.status⟩

instance : LawfulContent CertStatus :=
  .ofFields rfl <|
    .required CertStatus.certHash fun _ =>
    .required CertStatus.certReqId fun _ =>
    .optional CertStatus.status fun _ => .done

instance : Checked PollReq := ⟨fun p => Valid p.certReqId⟩

instance : LawfulContent PollReq :=
  .ofFields rfl <| .required PollReq.certReqId fun _ => .done

instance : Checked PollRep := ⟨fun p => Valid p.certReqId ∧ Valid p.checkAfter ∧ Valid p.reason⟩

instance : LawfulContent PollRep :=
  .ofFields rfl <|
    .required PollRep.certReqId fun _ =>
    .required PollRep.checkAfter fun _ =>
    .optional PollRep.reason fun _ => .done

/-- An unsupported body must not stand under the tag of another. -/
instance : Checked Body :=
  ⟨fun
    | .initRequest m | .certRequest m | .keyUpdateRequest m => Valid m
    | .initResponse r | .certResponse r | .keyUpdateResponse r => Valid r
    | .confirmation => True
    | .error e => Valid e
    | .certConfirm s => Valid s
    | .pollRequest p => Valid p
    | .pollResponse p => Valid p
    | .unsupported tag _ => tag ∉ Body.knownTags⟩

namespace Body

theorem ofContent?_of_not_mem {tag : TagNumber} {b : Bytes} (h : tag ∉ knownTags) :
    ofContent? tag b = some (unsupported tag b) := by
  unfold ofContent?
  split
  case h_12 => rfl
  all_goals exact absurd (by decide) h

theorem ofContent?_content {body : Body} (hbody : Valid body)
    (hlength : body.content.length ≤ maxLength) :
    ofContent? body.tagNumber body.content = some body := by
  cases body with
  | initRequest m | certRequest m | keyUpdateRequest m =>
    exact map_decode? (α := List CertReqMsg) hbody hlength
  | initResponse r | certResponse r | keyUpdateResponse r =>
    exact map_decode? (α := CertRepMessage) hbody hlength
  | confirmation => rfl
  | error e => exact map_decode? (α := ErrorContent) hbody hlength
  | certConfirm s => exact map_decode? (α := List CertStatus) hbody hlength
  | pollRequest p => exact map_decode? (α := List PollReq) hbody hlength
  | pollResponse p => exact map_decode? (α := List PollRep) hbody hlength
  | unsupported tag b => exact ofContent?_of_not_mem hbody

theorem of_ofContent? {tag : TagNumber} {b : Bytes} {body : Body}
    (h : ofContent? tag b = some body) :
    Valid body ∧ body.tagNumber = tag ∧ Tidies .sequence b body.content := by
  have hread := h
  -- a tag that is known has one alternative, and all other tags have the last
  unfold ofContent? at h
  split at h
  case h_12 =>
    obtain rfl := Option.some.inj h
    obtain ⟨-, -, hknown⟩ := ofContent?_unsupported hread
    exact ⟨hknown, rfl, .refl⟩
  all_goals
    obtain ⟨a, rfl, ha, htidy⟩ := of_map_decode? h
    exact ⟨ha, rfl, htidy.tidies⟩

end Body

instance : LawfulEncoding Body where
  accepts_toElement _ := rfl
  ofElement?_toElement hbody hlength := Body.ofContent?_content hbody hlength
  of_ofElement? {e body} h := by
    simp only [Encoding.ofElement?] at h
    split at h
    next htag =>
      obtain ⟨hbody, rfl, htidy⟩ := Body.of_ofContent? h
      exact ⟨hbody, .of_content htag htidy⟩
    next => cases h

instance : Checked GeneralInfo := ⟨fun i => Valid i.type ∧ Valid i.value⟩

instance : LawfulContent GeneralInfo :=
  .ofFields rfl <|
    .required GeneralInfo.type fun _ =>
    .optional GeneralInfo.value fun _ => .done

instance : Checked Header :=
  ⟨fun h => Valid h.pvno ∧ Valid h.sender ∧ Valid h.recipient ∧ Valid h.messageTime ∧
    Valid h.protectionAlg ∧ Valid h.senderKid ∧ Valid h.recipKid ∧ Valid h.transactionId ∧
    Valid h.senderNonce ∧ Valid h.recipNonce ∧ Valid h.freeText ∧ Valid h.generalInfo⟩

instance : LawfulContent Header :=
  .ofFields rfl <|
    .required Header.pvno fun _ =>
    .required Header.sender fun _ =>
    .required Header.recipient fun _ =>
    .explicit Header.messageTime fun _ =>
    .explicit Header.protectionAlg fun _ =>
    .explicit Header.senderKid fun _ =>
    .explicit Header.recipKid fun _ =>
    .explicit Header.transactionId fun _ =>
    .explicit Header.senderNonce fun _ =>
    .explicit Header.recipNonce fun _ =>
    .explicit Header.freeText fun _ =>
    .explicit Header.generalInfo fun _ => .done

instance : Checked Message :=
  ⟨fun m => Valid m.header ∧ Valid m.body ∧ Valid m.protection ∧ Valid m.extraCerts⟩

instance : LawfulContent Message :=
  .ofFields rfl <|
    .required Message.header fun _ =>
    .required Message.body fun _ =>
    .explicit Message.protection fun _ =>
    .explicit Message.extraCerts fun _ => .done

theorem bounded_eq_ok_iff {b b' : Bytes} : bounded b = .ok b' ↔ b.length ≤ maxLength ∧ b' = b := by
  unfold bounded
  split <;> simp_all [eq_comm]

namespace Message

theorem decode_of_encode {m : Message} {b : Bytes} (hm : Valid m) (h : encode m = .ok b) :
    decode b = .ok m := by
  obtain ⟨hlength, rfl⟩ := bounded_eq_ok_iff.1 h
  exact orFail_eq_ok_iff.2 (decode?_encode hm hlength)

theorem encode_of_decode {b : Bytes} {m : Message} (h : decode b = .ok m) :
    Valid m ∧ ∃ b', encode m = .ok b' ∧ TidiesTo b b' := by
  have hread := orFail_eq_ok_iff.1 h
  obtain ⟨hm, htidy⟩ := of_decode? hread
  obtain ⟨e, he, -⟩ := Option.bind_eq_some_iff.1 hread
  obtain ⟨-, hbounded⟩ := Element.ofBytes?_eq_some_iff.1 he
  have hwritten := bounded_eq_ok_iff.2 ⟨Nat.le_trans htidy.tidies.length_le hbounded, rfl⟩
  exact ⟨hm, _, hwritten, htidy⟩

/-- A valid message is read back from its encoding. Only valid messages are read, and each of them
has an encoding. -/
theorem codec_round_trip :
    (∀ m b, Valid m → encode m = .ok b → decode b = .ok m) ∧
    ∀ b m, decode b = .ok m → Valid m ∧ ∃ b', encode m = .ok b' ∧ decode b' = .ok m := by
  constructor
  · intro m b hm h
    exact decode_of_encode hm h
  · intro b m h
    obtain ⟨hm, b', hwritten, -⟩ := encode_of_decode h
    exact ⟨hm, b', hwritten, decode_of_encode hm hwritten⟩

/-- A message with a field out of place is written without it, and read as before. -/
theorem codec_round_trip_loose :
    decode (looseConfirmation 0xaa) = .ok (looseMessage 0xaa) ∧ Valid (looseMessage 0xaa) ∧
      ∃ b', encode (looseMessage 0xaa) = .ok b' ∧ b' ≠ looseConfirmation 0xaa ∧
        decode b' = .ok (looseMessage 0xaa) := by
  have hread : decode (looseConfirmation 0xaa) = .ok (looseMessage 0xaa) := by decide +kernel
  have hother : encode (looseMessage 0xaa) ≠ .ok (looseConfirmation 0xaa) := by decide +kernel
  obtain ⟨hm, b', hwritten, -⟩ := codec_round_trip.2 _ _ hread
  refine ⟨hread, hm, b', hwritten, ?_, codec_round_trip.1 _ _ hm hwritten⟩
  rintro rfl
  exact hother hwritten

/-- The sender has an attribute of type 1.2.3, whose contents have two bytes only. -/
def shortType : Message where
  header := {
    pvno := 2
    sender := .directory ⟨[⟨[⟨Oid.ofArcs [1, 2, 3], ⟨.universal .utf8String, [0x78]⟩⟩]⟩]⟩
    recipient := .directory .empty }
  body := .confirmation

/-- An identifier that can be written is not always read: names in order are not enough. -/
theorem shortType_not_read :
    (∀ party ∈ [shortType.header.sender, shortType.header.recipient],
        ∀ name ∈ party.directoryName?, ∀ rdn ∈ name.rdns, SetOf.Sorted rdn.members) ∧
      shortType.body = .confirmation ∧
      ∃ b, encode shortType = .ok b ∧ decode b ≠ .ok shortType := by
  refine ⟨?_, rfl, _, rfl, by decide +kernel⟩
  intro party hparty name hname rdn hrdn
  simp only [List.mem_cons, List.not_mem_nil, or_false] at hparty
  -- only the sender's name has a relative name, and that has one member
  rcases hparty with rfl | rfl
  · obtain rfl := Option.some.inj hname
    obtain rfl := List.mem_singleton.1 hrdn
    exact List.pairwise_singleton _ _
  · obtain rfl := Option.some.inj hname
    cases hrdn

end Message

end PkiEnroll.Cmp
