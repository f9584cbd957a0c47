import Mathlib.Data.List.Forall2
import PkiEnroll.Enroll.Request
import PkiEnroll.Proofs.Cmp.Failure
import PkiEnroll.Proofs.Cmp.FailureBits

namespace PkiEnroll.Enroll

open Der X509 Cmp

/-- A value that should list extensions and does not. -/
def IsMalformed (value : Element) : Prop := (Encoding.ofElement? value : Option (List Extension)) = none

/-- What attributes ask for: each value of an extension request lists extensions, and attributes of other
types ask for nothing. -/
inductive Requests : List RequestAttribute → List Extension → Prop
  | nil : Requests [] []
  | other {a : RequestAttribute} {attributes : List RequestAttribute} {es : List Extension}
      (htype : a.type ≠ CertificationRequest.extensionRequestId) (hrest : Requests attributes es) :
      Requests (a :: attributes) es
  | request {a : RequestAttribute} {attributes : List RequestAttribute} {parts : List (List Extension)}
      {es : List Extension} (htype : a.type = CertificationRequest.extensionRequestId)
      (hvalues : List.Forall₂ (fun value part => Encoding.ofElement? value = some part)
        a.values.members parts)
      (hrest : Requests attributes es) : Requests (a :: attributes) (parts.flatten ++ es)

namespace Request

variable {r : Request} {attributes : List RequestAttribute} {es : List Extension}

def malformedRequest : Failure := .invalidRequest ("Invalid extensionRequest: " ++ Failure.malformedDetail)

/-- The values of the extension requests. -/
def requestedValues (attributes : List RequestAttribute) : List Element :=
  (attributes.filter (·.type = CertificationRequest.extensionRequestId)).flatMap (·.values.members)

theorem requestedValues_other {a : RequestAttribute}
    (h : a.type ≠ CertificationRequest.extensionRequestId) :
    requestedValues (a :: attributes) = requestedValues attributes := by
  unfold requestedValues
  rw [List.filter_cons_of_neg (by simpa using h)]

theorem requestedValues_request {a : RequestAttribute}
    (h : a.type = CertificationRequest.extensionRequestId) :
    requestedValues (a :: attributes) = a.values.members ++ requestedValues attributes := by
  unfold requestedValues
  rw [List.filter_cons_of_pos (by simpa using h), List.flatMap_cons]

def readPart (value : Element) : Except Failure (List Extension) :=
  orFail malformedRequest (Encoding.ofElement? value)

theorem readPart_eq_ok_iff {value : Element} {part : List Extension} :
    readPart value = .ok part ↔ Encoding.ofElement? value = some part :=
  orFail_eq_ok_iff

theorem readPart_eq_error_iff {value : Element} {f : Failure} :
    readPart value = .error f ↔ f = malformedRequest ∧ IsMalformed value := by
  unfold readPart IsMalformed
  cases (Encoding.ofElement? value : Option (List Extension)) with
  | none =>
    constructor
    · intro h
      exact ⟨(Except.error.inj h).symm, rfl⟩
    · intro h
      rw [h.1]
      rfl
  | some part => exact iff_of_false (by rintro ⟨⟩) (by rintro ⟨-, ⟨⟩⟩)

theorem requests_iff :
    Requests attributes es ↔
      ∃ parts, (requestedValues attributes).mapM readPart = .ok parts ∧ parts.flatten = es := by
  constructor
  · intro h
    induction h with
    | nil => exact ⟨[], rfl, rfl⟩
    | other htype _ ih =>
      rw [requestedValues_other htype]
      exact ih
    | request htype hvalues _ ih =>
      obtain ⟨rest, hrest, rfl⟩ := ih
      have hparts := mapM_eq_ok_iff.2 (hvalues.imp fun _ _ => readPart_eq_ok_iff.2)
      rw [requestedValues_request htype, List.mapM_append, hparts, hrest]
      exact ⟨_, rfl, List.flatten_append⟩
  · intro h
    induction attributes generalizing es with
    | nil =>
      obtain ⟨parts, hparts, rfl⟩ := h
      obtain rfl : [] = parts := Except.ok.inj hparts
      exact .nil
    | cons a attributes ih =>
      obtain ⟨parts, hparts, rfl⟩ := h
      by_cases htype : a.type = CertificationRequest.extensionRequestId
      · rw [requestedValues_request htype, List.mapM_append] at hparts
        obtain ⟨own, hown, hparts⟩ := bind_eq_ok_iff.1 hparts
        obtain ⟨rest, hrest, hparts⟩ := bind_eq_ok_iff.1 hparts
        obtain rfl : own ++ rest = parts := Except.ok.inj hparts
        have hvalues := (mapM_eq_ok_iff.1 hown).imp fun _ _ => readPart_eq_ok_iff.1
        rw [List.flatten_append]
        exact .request htype hvalues (ih ⟨rest, hrest, rfl⟩)
      · rw [requestedValues_other htype] at hparts
        exact .other htype (ih ⟨parts, hparts, rfl⟩)

theorem listedExtensions_eq_ok_iff :
    r.listedExtensions = .ok es ↔ Requests r.csr.info.attributes.members es := by
  rw [requests_iff]
  unfold listedExtensions
  rw [bind_eq_ok_iff]
  refine exists_congr fun parts => and_congr_right fun _ => ?_
  exact ⟨Except.ok.inj, congrArg Except.ok⟩

theorem mem_requestedValues_iff {value : Element} :
    value ∈ requestedValues attributes ↔
      ∃ a ∈ attributes, a.type = CertificationRequest.extensionRequestId ∧ value ∈ a.values.members := by
  simp [requestedValues, and_assoc]

/-- A request is refused for a malformed value, wherever it stands, and for nothing else. -/
theorem listedExtensions_eq_error_iff {f : Failure} :
    r.listedExtensions = .error f ↔
      f = malformedRequest ∧ ∃ value ∈ requestedValues r.csr.info.attributes.members, IsMalformed value := by
  change ((requestedValues _).mapM readPart >>= fun parts => .ok parts.flatten) = _ ↔ _
  cases hread : (requestedValues r.csr.info.attributes.members).mapM readPart with
  | ok parts =>
    refine iff_of_false (by rintro ⟨⟩) fun h => ?_
    obtain ⟨-, value, hvalue, hmalformed⟩ := h
    obtain ⟨i, hi, rfl⟩ := List.mem_iff_getElem.1 hvalue
    have hparts := mapM_eq_ok_iff.1 hread
    have hpart := hparts.get hi (hparts.length_eq ▸ hi)
    rw [List.get_eq_getElem, readPart_eq_ok_iff, hmalformed] at hpart
    cases hpart
  | error g =>
    obtain ⟨value, hvalue, hfailed⟩ := exists_of_mapM_eq_error hread
    obtain ⟨rfl, hmalformed⟩ := readPart_eq_error_iff.1 hfailed
    constructor
    · intro h
      exact ⟨(Except.error.inj h).symm, value, hvalue, hmalformed⟩
    · intro h
      rw [h.1]
      rfl

/-- What is put behind a list of extensions so that it has one of a kind: nothing if there is one, and else
one that is not critical and has these contents. -/
inductive Supplies (id : Oid) (content : Bytes) (listed : List Extension) : List Extension → Prop
  | present {e : Extension} (he : e ∈ listed) (hid : e.id = id) : Supplies id content listed []
  | missing (h : ∀ e ∈ listed, e.id ≠ id) : Supplies id content listed [⟨id, false, ⟨content⟩⟩]

theorem complete_eq_iff {id : Oid} {content : Bytes} {listed all : List Extension} :
    complete listed ⟨id, false, ⟨content⟩⟩ = all ↔
      ∃ added, Supplies id content listed added ∧ all = listed ++ added := by
  unfold complete
  by_cases hany : listed.any (·.id = id) = true
  · obtain ⟨e, he, hid⟩ := List.any_eq_true.1 hany
    rw [if_pos hany]
    constructor
    · rintro rfl
      exact ⟨[], .present he (of_decide_eq_true hid), (List.append_nil listed).symm⟩
    · rintro ⟨added, hadded, rfl⟩
      cases hadded with
      | present => exact (List.append_nil listed).symm
      | missing h => exact absurd (of_decide_eq_true hid) (h e he)
  · have hnone : ∀ e ∈ listed, e.id ≠ id := by
      intro e he hid
      exact hany (List.any_eq_true.2 ⟨e, he, decide_eq_true hid⟩)
    rw [if_neg hany]
    constructor
    · rintro rfl
      exact ⟨_, .missing hnone, rfl⟩
    · rintro ⟨added, hadded, rfl⟩
      cases hadded with
      | present he hid => exact absurd hid (hnone _ he)
      | missing => rfl

theorem supplies_append_iff {id other : Oid} {content contents : Bytes} {listed added more : List Extension}
    (hother : other ≠ id) (h : Supplies other contents listed more) :
    Supplies id content (listed ++ more) added ↔ Supplies id content listed added := by
  have hmore : ∀ e ∈ more, e.id ≠ id := by
    cases h with
    | present => simp
    | missing => simpa using hother
  constructor
  · intro hall
    cases hall with
    | present he hid =>
      rcases List.mem_append.1 he with he | he
      · exact .present he hid
      · exact absurd hid (hmore _ he)
    | missing hnone => exact .missing fun e he => hnone e (List.mem_append_left more he)
  · intro hown
    cases hown with
    | present he hid => exact .present (List.mem_append_left more he) hid
    | missing hnone => exact .missing (List.forall_mem_append.2 ⟨hnone, hmore⟩)

theorem testBit_usages (bits : List Nat) (word i : Nat) :
    (bits.foldl (fun n bit => n ||| 1 <<< bit) word).testBit i = true ↔
      word.testBit i = true ∨ i ∈ bits := by
  induction bits generalizing word with
  | nil => simp
  | cons bit bits ih =>
    have hbit : (1 <<< bit).testBit i = true ↔ i = bit := by
      rw [Nat.one_shiftLeft, Nat.testBit_two_pow, decide_eq_true_iff, eq_comm]
    rw [List.foldl_cons, ih, Nat.testBit_or, Bool.or_eq_true, hbit, List.mem_cons, or_assoc]

theorem keyUsageExtension_eq_iff (bits : List Nat) {e : Extension} :
    keyUsageExtension bits = e ↔
      ∃ s : BitString, s.IsMinimal ∧ (∀ i, s.isSet i = true ↔ i ∈ bits) ∧
        e = ⟨Extension.keyUsageId, false, ⟨encode s⟩⟩ := by
  let word := bits.foldl (fun n bit => n ||| 1 <<< bit) 0
  have hminimal : (NamedBits.toBitString word).IsMinimal := NamedBits.isMinimal_toBitString word
  have hset (i : Nat) : (NamedBits.toBitString word).isSet i = true ↔ i ∈ bits := by
    rw [NamedBits.isSet_toBitString, testBit_usages, Nat.zero_testBit]
    exact or_iff_right Bool.false_ne_true
  constructor
  · rintro rfl
    exact ⟨NamedBits.toBitString word, hminimal, hset, rfl⟩
  · rintro ⟨s, hs, hbits, rfl⟩
    obtain rfl : NamedBits.toBitString word = s :=
      BitString.eq_of_isMinimal hminimal hs fun i => (hset i).trans (hbits i).symm
    rfl

/-- Extensions that have been listed, with the usages that are not among them: those wished for, or else
the usual ones. -/
structure Completes (r : Request) (listed keyUsages purposes : List Extension) : Prop where
  keyUsages : ∃ s : BitString, s.IsMinimal ∧ (∀ i, s.isSet i = true ↔ i ∈ r.keyUsage.getD [0, 1, 2]) ∧
    Supplies Extension.keyUsageId (encode s) listed keyUsages
  purposes : Supplies Extension.extendedKeyUsageId
    (encode (r.purposes.getD [Extension.clientAuth, Extension.serverAuth])) listed purposes

theorem complete_usages_iff {listed : List Extension} :
    complete (complete listed (keyUsageExtension (r.keyUsage.getD defaultKeyUsage)))
        (.extendedKeyUsage (r.purposes.getD [Extension.clientAuth, Extension.serverAuth])) = es ↔
      ∃ keyUsages purposes, Completes r listed keyUsages purposes ∧ es = listed ++ keyUsages ++ purposes := by
  have hkinds : Extension.keyUsageId ≠ Extension.extendedKeyUsageId := by decide
  constructor
  · intro h
    obtain ⟨s, hs, hbits, hkeyUsage⟩ :=
      (keyUsageExtension_eq_iff (r.keyUsage.getD defaultKeyUsage)).1 rfl
    rw [hkeyUsage] at h
    obtain ⟨purposes, hpurposes, rfl⟩ := complete_eq_iff.1 h
    obtain ⟨keyUsages, hkeyUsages, hfirst⟩ := complete_eq_iff.1 rfl
    rw [hfirst, supplies_append_iff hkinds hkeyUsages] at hpurposes
    exact ⟨keyUsages, purposes, ⟨⟨s, hs, hbits, hkeyUsages⟩, hpurposes⟩, by rw [hfirst]⟩
  · intro h
    obtain ⟨keyUsages, purposes, hcompletes, rfl⟩ := h
    obtain ⟨s, hs, hbits, hkeyUsages⟩ := hcompletes.keyUsages
    have hkeyUsage :=
      (keyUsageExtension_eq_iff (r.keyUsage.getD defaultKeyUsage)).2 ⟨s, hs, hbits, rfl⟩
    have hfirst := complete_eq_iff.2 ⟨keyUsages, hkeyUsages, rfl⟩
    have hpurposes := (supplies_append_iff hkinds hkeyUsages).2 hcompletes.purposes
    rw [hkeyUsage, hfirst]
    exact complete_eq_iff.2 ⟨purposes, hpurposes, rfl⟩

theorem extensions_eq_ok_iff :
    r.extensions = .ok es ↔
      ∃ listed keyUsages purposes, Requests r.csr.info.attributes.members listed ∧
        Completes r listed keyUsages purposes ∧ es = listed ++ keyUsages ++ purposes := by
  unfold extensions
  rw [bind_eq_ok_iff]
  refine exists_congr fun listed => ?_
  rw [listedExtensions_eq_ok_iff]
  constructor
  · intro h
    obtain ⟨keyUsages, purposes, hcompletes, hall⟩ := complete_usages_iff.1 (Except.ok.inj h.2)
    exact ⟨keyUsages, purposes, h.1, hcompletes, hall⟩
  · intro h
    obtain ⟨keyUsages, purposes, hlisted, hcompletes, hall⟩ := h
    exact ⟨hlisted, congrArg Except.ok (complete_usages_iff.2 ⟨keyUsages, purposes, hcompletes, hall⟩)⟩

/-- Nothing can go wrong with the usages. -/
theorem extensions_eq_error_iff {f : Failure} :
    r.extensions = .error f ↔
      f = malformedRequest ∧ ∃ value ∈ requestedValues r.csr.info.attributes.members, IsMalformed value := by
  rw [← listedExtensions_eq_error_iff]
  unfold extensions
  cases r.listedExtensions with
  | ok listed => exact iff_of_false (by rintro ⟨⟩) (by rintro ⟨⟩)
  | error g => exact Iff.rfl

/-- The extensions asked for are those that the request lists, in order and unchanged, and behind them key
usages and extended key usages, each only if none are listed. The request is refused exactly if one of the
values that should list extensions is malformed; attributes of other types make no difference. -/
theorem extensions_completed (r : Request) :
    (∀ es, r.extensions = .ok es ↔
      ∃ listed keyUsages purposes, Requests r.csr.info.attributes.members listed ∧
        Completes r listed keyUsages purposes ∧ es = listed ++ keyUsages ++ purposes) ∧
    ((∃ detail, r.extensions = .error (.invalidRequest detail)) ↔
      ∃ a ∈ r.csr.info.attributes.members, a.type = CertificationRequest.extensionRequestId ∧
        ∃ value ∈ a.values.members, IsMalformed value) ∧
    (∀ f, r.extensions = .error f → ∃ detail, f = .invalidRequest detail) ∧
    ∀ r' : Request, r'.keyUsage = r.keyUsage → r'.purposes = r.purposes →
      r'.csr.info.attributes.members.filter (·.type = CertificationRequest.extensionRequestId) =
        r.csr.info.attributes.members.filter (·.type = CertificationRequest.extensionRequestId) →
      r'.extensions = r.extensions := by
  refine ⟨fun es => extensions_eq_ok_iff, ?_, ?_, ?_⟩
  · constructor
    · intro h
      obtain ⟨detail, h⟩ := h
      obtain ⟨-, value, hvalue, hmalformed⟩ := extensions_eq_error_iff.1 h
      obtain ⟨a, ha, htype, hvalue⟩ := mem_requestedValues_iff.1 hvalue
      exact ⟨a, ha, htype, value, hvalue, hmalformed⟩
    · intro h
      obtain ⟨a, ha, htype, value, hvalue, hmalformed⟩ := h
      have hrequested := mem_requestedValues_iff.2 ⟨a, ha, htype, hvalue⟩
      exact ⟨_, extensions_eq_error_iff.2 ⟨rfl, value, hrequested, hmalformed⟩⟩
  · intro f h
    obtain ⟨rfl, -⟩ := extensions_eq_error_iff.1 h
    exact ⟨_, rfl⟩
  · intro r' hkeyUsage hpurposes hsame
    have hlisted : r'.listedExtensions = r.listedExtensions := by
      unfold listedExtensions
      rw [hsame]
    unfold extensions
    rw [hlisted, hkeyUsage, hpurposes]

end Request

end PkiEnroll.Enroll
