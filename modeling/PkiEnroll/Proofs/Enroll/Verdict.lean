import PkiEnroll.Enroll.Verdict
import PkiEnroll.Proofs.Protection.Context

namespace PkiEnroll.Enroll

open Der X509 Cmp Protection

/-- The checks of one answer. `part` is what its protection covers, of the bytes as they came. -/
structure Authentic (s : Session) (raw : Bytes) (m : Message) : Prop where
  decoded : Message.decode raw = .ok m
  transactionId : m.header.transactionId = some ⟨s.transactionId⟩
  recipNonce : m.header.recipNonce = some ⟨s.senderNonce⟩
  noError : ∀ content, m.body ≠ .error content
  protection : ∃ algorithm bits part, m.header.protectionAlg = some algorithm ∧
    m.protection = some bits ∧ bits.unused = 0 ∧ Message.receivedPart raw = .ok part ∧
    s.context.verify algorithm part bits.bytes m.extraCertList = .ok ()

/-- A message that grants a certificate: the entry for the request says so, and holds it as it is. -/
structure Grants (m : Message) (certReqId : Int64) (rep : CertRepMessage) (c : Certificate) : Prop where
  answer : m.body.certRep? = some rep
  entry : ∃ response pair, rep.responses.find? (·.certReqId = certReqId) = some response ∧
    (response.status.status = .accepted ∨ response.status.status = .grantedWithMods) ∧
    response.keyPair = some pair ∧ pair.issued = .certificate c

theorem Grants.unique {m m' : Message} {certReqId : Int64} {rep rep' : CertRepMessage}
    {c c' : Certificate} (hbody : m'.body = m.body) (h : Grants m certReqId rep c)
    (h' : Grants m' certReqId rep' c') : rep' = rep ∧ c' = c := by
  obtain ⟨hrep, response, pair, hfind, -, hpair, hissued⟩ := h
  obtain ⟨hrep', response', pair', hfind', -, hpair', hissued'⟩ := h'
  rw [hbody, hrep] at hrep'
  cases hrep'
  rw [hfind] at hfind'
  cases hfind'
  rw [hpair] at hpair'
  cases hpair'
  rw [hissued] at hissued'
  cases hissued'
  exact ⟨rfl, rfl⟩

theorem distinctFrom_cons_of_mem {seen : List Bytes} {c : Certificate} (h : encode c ∈ seen)
    (cs : List Certificate) : distinctFrom seen (c :: cs) = distinctFrom seen cs :=
  if_pos h

theorem distinctFrom_cons_of_not_mem {seen : List Bytes} {c : Certificate} (h : encode c ∉ seen)
    (cs : List Certificate) :
    distinctFrom seen (c :: cs) = c :: distinctFrom (encode c :: seen) cs :=
  if_neg h

theorem distinctFrom_congr {seen seen' : List Bytes} (h : ∀ b, b ∈ seen ↔ b ∈ seen')
    (cs : List Certificate) : distinctFrom seen cs = distinctFrom seen' cs := by
  induction cs generalizing seen seen' with
  | nil => rfl
  | cons c cs ih =>
    by_cases hseen : encode c ∈ seen
    · have hseen' := (h _).1 hseen
      rw [distinctFrom_cons_of_mem hseen, distinctFrom_cons_of_mem hseen', ih h]
    · have hseen' := mt (h _).2 hseen
      have hnext (b : Bytes) : b ∈ encode c :: seen ↔ b ∈ encode c :: seen' := by
        simp only [List.mem_cons, h b]
      rw [distinctFrom_cons_of_not_mem hseen, distinctFrom_cons_of_not_mem hseen', ih hnext]

theorem distinctFrom_append (seen : List Bytes) (cs ds : List Certificate) :
    distinctFrom seen (cs ++ ds) =
      distinctFrom seen cs ++ distinctFrom (seen ++ cs.map encode) ds := by
  induction cs generalizing seen with
  | nil => simp [distinctFrom]
  | cons c cs ih =>
    by_cases hseen : encode c ∈ seen
    · -- it has been seen, so it makes no difference that it is seen again
      have hsame (b : Bytes) : b ∈ seen ++ cs.map encode ↔ b ∈ seen ++ (c :: cs).map encode := by
        simp only [List.mem_append, List.map_cons, List.mem_cons]
        constructor
        · intro hb
          rcases hb with hb | hb
          · exact .inl hb
          · exact .inr (.inr hb)
        · intro hb
          rcases hb with hb | rfl | hb
          · exact .inl hb
          · exact .inl hseen
          · exact .inr hb
      rw [List.cons_append, distinctFrom_cons_of_mem hseen, distinctFrom_cons_of_mem hseen, ih,
        distinctFrom_congr hsame]
    · have hsame (b : Bytes) : b ∈ (encode c :: seen) ++ cs.map encode ↔
          b ∈ seen ++ (c :: cs).map encode := by
        simp only [List.cons_append, List.mem_append, List.map_cons, List.mem_cons]
        exact or_left_comm
      rw [List.cons_append, distinctFrom_cons_of_not_mem hseen, distinctFrom_cons_of_not_mem hseen, ih,
        distinctFrom_congr hsame, List.cons_append]

/-- Certificates that come later count only if they are not among the earlier ones. -/
theorem distinct_append (cs ds : List Certificate) :
    distinct (cs ++ ds) = distinct cs ++ distinctFrom (cs.map encode) ds :=
  distinctFrom_append [] cs ds

namespace Session

variable {s : Session} {m : Message} {raw : Bytes} {expected : Nat}

theorem checkIdentifier_strict_iff {sent : Bytes} {differs absent : String} {o : Option OctetString} :
    checkIdentifier false sent differs absent o = .ok () ↔ o = some ⟨sent⟩ := by
  cases o with
  | none => simp [checkIdentifier]
  | some received =>
    obtain ⟨bytes⟩ := received
    simp [checkIdentifier]

theorem checkIdentifiers_strict_iff {h : Header} :
    s.checkIdentifiers false h = .ok () ↔
      h.transactionId = some ⟨s.transactionId⟩ ∧ h.recipNonce = some ⟨s.senderNonce⟩ := by
  unfold checkIdentifiers
  rw [bind_eq_ok_iff]
  constructor
  · intro h
    obtain ⟨⟨⟩, ht, hn⟩ := h
    exact ⟨checkIdentifier_strict_iff.1 ht, checkIdentifier_strict_iff.1 hn⟩
  · intro h
    obtain ⟨ht, hn⟩ := h
    exact ⟨(), checkIdentifier_strict_iff.2 ht, checkIdentifier_strict_iff.2 hn⟩

theorem verify_eq_ok_iff {verdict : Verdict} :
    s.verify m raw expected = .ok verdict ↔
      (∀ content, m.body ≠ .error content) ∧ s.checkIdentifiers false m.header = .ok () ∧
        s.context.verifyMessage m raw = .ok () ∧ s.verdictOfBody m expected = .ok verdict := by
  unfold verify
  split
  · next content hbody =>
    simp only [hbody, bind_eq_ok_iff, ne_eq, Body.error.injEq]
    constructor
    · intro h
      obtain ⟨_, _, hthrow⟩ := h
      cases hthrow
    · intro h
      obtain ⟨hno, -⟩ := h
      exact absurd rfl (hno content)
  · next hbody =>
    simp only [bind_eq_ok_iff]
    constructor
    · intro h
      obtain ⟨_, hids, _, hprot, hv⟩ := h
      exact ⟨hbody, hids, hprot, hv⟩
    · intro h
      obtain ⟨-, hids, hprot, hv⟩ := h
      exact ⟨(), hids, (), hprot, hv⟩

theorem authentic_of_verify {verdict : Verdict} (hd : Message.decode raw = .ok m)
    (h : s.verify m raw expected = .ok verdict) : Authentic s raw m := by
  obtain ⟨hno, hids, hprot, -⟩ := verify_eq_ok_iff.1 h
  obtain ⟨ht, hn⟩ := checkIdentifiers_strict_iff.1 hids
  exact ⟨hd, ht, hn, hno, Context.verifyMessage_eq_ok_iff.1 hprot⟩

theorem verify_of_authentic {verdict : Verdict} (ha : Authentic s raw m)
    (hv : s.verdictOfBody m expected = .ok verdict) : s.verify m raw expected = .ok verdict :=
  verify_eq_ok_iff.2 ⟨ha.noError, checkIdentifiers_strict_iff.2 ⟨ha.transactionId, ha.recipNonce⟩,
    Context.verifyMessage_eq_ok_iff.2 ha.protection, hv⟩

theorem certificateOf_eq_ok_iff {o : Option CertifiedKeyPair} {c : Certificate} :
    certificateOf o = .ok c ↔ ∃ pair, o = some pair ∧ pair.issued = .certificate c := by
  cases o with
  | none => simp [certificateOf]
  | some pair => cases h : pair.issued <;> simp [certificateOf, h]

theorem isGranted_iff {status : Status} :
    status.isGranted = true ↔ status = .accepted ∨ status = .grantedWithMods := by
  cases status <;> decide

theorem verdictOfRep_cases {rep : CertRepMessage} {verdict : Verdict}
    (hrep : m.body.certRep? = some rep) (h : s.verdictOfRep m rep = .ok verdict) :
    verdict = .waiting none ∨
      ∃ c, Grants m s.certReqId rep c ∧
        verdict = .issued c (distinct (rep.caPubs.getD [] ++ m.extraCertList))
          m.header.hasImplicitConfirm := by
  obtain ⟨response, hfind, h⟩ := bind_eq_ok_iff.1 h
  have hentry := orFail_eq_ok_iff.1 hfind
  by_cases hwait : response.status.status = .waiting
  · rw [if_pos hwait] at h
    exact .inl (Except.ok.inj h).symm
  · rw [if_neg hwait] at h
    cases hg : response.status.status.isGranted with
    | false =>
      rw [hg] at h
      cases h
    | true =>
      rw [hg] at h
      obtain ⟨c, hc, h⟩ := bind_eq_ok_iff.1 h
      obtain ⟨pair, hpair, hissued⟩ := certificateOf_eq_ok_iff.1 hc
      have hgrants : Grants m s.certReqId rep c :=
        ⟨hrep, response, pair, hentry, isGranted_iff.1 hg, hpair, hissued⟩
      exact .inr ⟨c, hgrants, (Except.ok.inj h).symm⟩

theorem verdictOfBody_cases {verdict : Verdict} (h : s.verdictOfBody m expected = .ok verdict) :
    (verdict = .confirmed ∧ m.body = .confirmation) ∨ (∃ checkAfter, verdict = .waiting checkAfter) ∨
      ∃ rep c, Grants m s.certReqId rep c ∧ m.body.tagNumber = expected ∧
        verdict = .issued c (distinct (rep.caPubs.getD [] ++ m.extraCertList))
          m.header.hasImplicitConfirm := by
  unfold verdictOfBody at h
  split at h
  · next hexpected =>
    cases hrep : m.body.certRep? with
    | none =>
      rw [hrep] at h
      cases h
    | some rep =>
      rw [hrep] at h
      rcases verdictOfRep_cases hrep h with rfl | ⟨c, hgrants, rfl⟩
      · exact .inr (.inl ⟨none, rfl⟩)
      · exact .inr (.inr ⟨rep, c, hgrants, hexpected.2, rfl⟩)
  · split at h
    · obtain ⟨entry, -, h⟩ := bind_eq_ok_iff.1 h
      exact .inr (.inl ⟨some entry.checkAfter, (Except.ok.inj h).symm⟩)
    · next hbody => exact .inl ⟨(Except.ok.inj h).symm, hbody⟩
    · cases h

end Session

end PkiEnroll.Enroll
