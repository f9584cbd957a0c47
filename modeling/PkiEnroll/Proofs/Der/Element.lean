import PkiEnroll.Der.Encoding

namespace PkiEnroll

namespace Bytes

theorem bitLength_mono {m n : Nat} (h : m ≤ n) : bitLength m ≤ bitLength n := by
  unfold bitLength
  by_cases hm : m = 0
  · simp [hm]
  have hn : n ≠ 0 := by omega
  rw [if_neg hm, if_neg hn]
  have hlog : m.log2 ≤ n.log2 := (Nat.le_log2 hn).2 (Nat.le_trans (Nat.log2_self_le hm) h)
  omega

theorem lt_one_shiftLeft_bitLength (n : Nat) : n < 1 <<< bitLength n := by
  unfold bitLength
  by_cases hn : n = 0
  · simp [hn]
  · rw [if_neg hn, Nat.one_shiftLeft]
    exact Nat.lt_log2_self

theorem length_minimal (n : Nat) : (minimal n).length = (bitLength n + 7) / 8 :=
  length_ofNat _ _

theorem toNat_minimal (n : Nat) : toNat (minimal n) = n := by
  apply toNat_ofNat
  have hbits : bitLength n ≤ 8 * ((bitLength n + 7) / 8) := by omega
  have hlt := lt_one_shiftLeft_bitLength n
  rw [Nat.one_shiftLeft] at hlt
  rw [capacity, Nat.one_shiftLeft]
  exact Nat.lt_of_lt_of_le hlt (Nat.pow_le_pow_right (by decide) hbits)

end Bytes

namespace Der

namespace Tag

theorem octet_of_ofOctet? {b : UInt8} {t : Tag} (h : ofOctet? b = some t) : t.octet = b := by
  have all : ∀ n : Fin 256, (ofOctet? ⟨⟨n⟩⟩).all (fun t => t.octet = ⟨⟨n⟩⟩) = true := by
    decide +kernel
  have hb := all b.toBitVec.toFin
  rw [show (⟨⟨b.toBitVec.toFin⟩⟩ : UInt8) = b from rfl, h] at hb
  simpa using hb

end Tag

namespace Length

theorem encode_of_lt {n : Nat} (h : n < 128) : encode n = [UInt8.ofNat n] := if_pos h

theorem encode_of_ge {n : Nat} (h : 128 ≤ n) :
    encode n = UInt8.ofNat (128 + (Bytes.minimal n).length) :: Bytes.minimal n :=
  if_neg (by omega)

theorem length_encode_mono {m n : Nat} (h : m ≤ n) : (encode m).length ≤ (encode n).length := by
  by_cases hm : m < 128
  · rw [encode_of_lt hm]
    by_cases hn : n < 128
    · simp [encode_of_lt hn]
    · simp [encode_of_ge (by omega : 128 ≤ n)]
  · rw [encode_of_ge (by omega), encode_of_ge (by omega)]
    have hbits := Bytes.bitLength_mono h
    simp only [List.length_cons, Bytes.length_minimal]
    omega

/-- A length above 127 takes one to four octets after the first. -/
theorem length_minimal_bounds {n : Nat} (h : 128 ≤ n) (hmax : n ≤ maxLength) :
    1 ≤ (Bytes.minimal n).length ∧ (Bytes.minimal n).length ≤ 4 := by
  have low : Bytes.bitLength 128 ≤ Bytes.bitLength n := Bytes.bitLength_mono h
  have high : Bytes.bitLength n ≤ Bytes.bitLength maxLength := Bytes.bitLength_mono hmax
  have h128 : Bytes.bitLength 128 = 8 := by decide
  have hlast : Bytes.bitLength maxLength = 28 := by decide
  rw [Bytes.length_minimal]
  omega

theorem read_encode_append {n : Nat} (hmax : n ≤ maxLength) (rest : Bytes) :
    read (encode n ++ rest) = some (n, rest) := by
  by_cases hn : n < 128
  · rw [encode_of_lt hn]
    have hfirst : (UInt8.ofNat n).toNat = n :=
      UInt8.toNat_ofNat_of_lt' (Nat.lt_trans hn (by decide))
    have hshort : UInt8.ofNat n < 0x80 := UInt8.lt_iff_toNat_lt.2 (by rw [hfirst]; exact hn)
    simp [read, hshort, hfirst]
  · have hn' : 128 ≤ n := by omega
    obtain ⟨hlow, hhigh⟩ := length_minimal_bounds hn' hmax
    have hsplit : Bytes.split? (Bytes.minimal n).length (Bytes.minimal n ++ rest) =
        some (Bytes.minimal n, rest) := Bytes.split?_eq_some_iff.2 ⟨rfl, rfl⟩
    have hcode := encode_of_ge hn'
    rw [hcode]
    generalize hdigits : (Bytes.minimal n).length = d at *
    have hfirst : (UInt8.ofNat (128 + d)).toNat = 128 + d :=
      UInt8.toNat_ofNat_of_lt' (show 128 + d < 256 by omega)
    have hlong : ¬ UInt8.ofNat (128 + d) < 0x80 := by
      rw [UInt8.lt_iff_toNat_lt, hfirst]
      exact Nat.not_lt.2 (Nat.le_add_right 128 d)
    have hform : ¬ (UInt8.ofNat (128 + d) = 0x80 ∨ 0x84 < UInt8.ofNat (128 + d)) := by
      rw [← UInt8.toNat_inj, UInt8.lt_iff_toNat_lt, hfirst]
      change ¬ (128 + d = 128 ∨ 132 < 128 + d)
      omega
    simp only [List.cons_append, read, if_neg hlong, if_neg hform, hfirst]
    simp [hsplit, Bytes.toNat_minimal, hmax, hcode]

theorem eq_encode_append_of_read {b rest : Bytes} {n : Nat} (h : read b = some (n, rest)) :
    b = encode n ++ rest ∧ n ≤ maxLength := by
  cases b with
  | nil => simp [read] at h
  | cons first tail =>
    rw [read] at h
    by_cases hshort : first < 0x80
    · rw [if_pos hshort] at h
      obtain ⟨rfl, rfl⟩ := Prod.mk.inj (Option.some.inj h)
      have hn : first.toNat < 128 := UInt8.lt_iff_toNat_lt.1 hshort
      refine ⟨by simp [encode_of_lt hn], ?_⟩
      simp only [maxLength]
      omega
    · rw [if_neg hshort] at h
      by_cases hform : first = 0x80 ∨ 0x84 < first
      · simp [hform] at h
      · rw [if_neg hform] at h
        obtain ⟨⟨digits, after⟩, hsplit, hcheck⟩ := Option.bind_eq_some_iff.1 h
        obtain ⟨rfl, -⟩ := Bytes.split?_eq_some_iff.1 hsplit
        obtain ⟨hcode, heq⟩ := Option.ite_none_right_eq_some.1 hcheck
        obtain ⟨rfl, rfl⟩ := Prod.mk.inj (Option.some.inj heq)
        exact ⟨by rw [hcode.2]; rfl, hcode.1⟩

end Length

namespace Element

theorem length_encode (e : Element) :
    e.encode.length = 1 + (Length.encode e.content.length).length + e.content.length := by
  simp only [encode, List.length_append, List.length_cons]
  omega

theorem encode_ne_nil (e : Element) : e.encode ≠ [] := by simp [encode]

theorem content_lt_encode (e : Element) : e.content.length < e.encode.length := by
  rw [length_encode]
  omega

theorem read_encode_append {e : Element} (h : e.content.length ≤ maxLength) (rest : Bytes) :
    read (e.encode ++ rest) = some (e, rest) := by
  have hlength := Length.read_encode_append h (e.content ++ rest)
  have hsplit : Bytes.split? e.content.length (e.content ++ rest) = some (e.content, rest) :=
    Bytes.split?_eq_some_iff.2 ⟨rfl, rfl⟩
  simp [encode, read, Tag.ofOctet?_octet, hlength, hsplit]

theorem eq_encode_append_of_read {b rest : Bytes} {e : Element} (h : read b = some (e, rest)) :
    b = e.encode ++ rest ∧ e.content.length ≤ maxLength := by
  cases b with
  | nil => simp [read] at h
  | cons first tail =>
    obtain ⟨tag, htag, htail⟩ := Option.bind_eq_some_iff.1 h
    obtain ⟨⟨n, contents⟩, hlength, hcontents⟩ := Option.bind_eq_some_iff.1 htail
    obtain ⟨⟨front, after⟩, hsplit, heq⟩ := Option.bind_eq_some_iff.1 hcontents
    obtain ⟨rfl, rfl⟩ := Prod.mk.inj (Option.some.inj heq)
    obtain ⟨rfl, hn⟩ := Length.eq_encode_append_of_read hlength
    obtain ⟨rfl, rfl⟩ := Bytes.split?_eq_some_iff.1 hsplit
    exact ⟨by simp [encode, Tag.octet_of_ofOctet? htag], hn⟩

theorem ofBytes?_eq_some_iff {b : Bytes} {e : Element} :
    ofBytes? b = some e ↔ b = e.encode ∧ b.length ≤ maxLength := by
  unfold ofBytes?
  constructor
  · intro h
    obtain ⟨hb, hread⟩ := Option.ite_none_right_eq_some.1 h
    split at hread
    next e' hfirst =>
      obtain rfl := Option.some.inj hread
      exact ⟨by simpa using (eq_encode_append_of_read hfirst).1, hb⟩
    next => cases hread
  · intro h
    obtain ⟨rfl, hb⟩ := h
    have hcontent : e.content.length ≤ maxLength :=
      Nat.le_trans (Nat.le_of_lt (content_lt_encode e)) hb
    have hread := read_encode_append hcontent []
    rw [List.append_nil] at hread
    rw [if_pos hb, hread]

theorem encodeAll_cons (e : Element) (es : List Element) :
    encodeAll (e :: es) = e.encode ++ encodeAll es := List.flatMap_cons

theorem length_le_length_encodeAll (es : List Element) : es.length ≤ (encodeAll es).length := by
  induction es with
  | nil => simp
  | cons e es ih =>
    have he := content_lt_encode e
    simp only [encodeAll_cons, List.length_cons, List.length_append]
    omega

theorem eq_encodeAll_of_readMany {n : Nat} {b : Bytes} {es : List Element}
    (h : readMany n b = some es) : b = encodeAll es ∧ ∀ e ∈ es, e.content.length ≤ maxLength := by
  fun_induction readMany n b generalizing es with
  | case1 => simp_all [encodeAll]
  | case2 => cases h
  | case3 bound b _ ih =>
    obtain ⟨⟨e, rest⟩, hread, htail⟩ := Option.bind_eq_some_iff.1 h
    obtain ⟨es', hmany, heq⟩ := Option.bind_eq_some_iff.1 htail
    obtain rfl := Option.some.inj heq
    obtain ⟨rfl, he⟩ := eq_encode_append_of_read hread
    obtain ⟨rfl, hes⟩ := ih rest hmany
    exact ⟨(encodeAll_cons e es').symm, List.forall_mem_cons.2 ⟨he, hes⟩⟩

theorem readMany_encodeAll {es : List Element} (h : ∀ e ∈ es, e.content.length ≤ maxLength)
    {n : Nat} (hn : es.length ≤ n) : readMany n (encodeAll es) = some es := by
  induction es generalizing n with
  | nil => cases n <;> rfl
  | cons e es ih =>
    obtain ⟨he, hes⟩ := List.forall_mem_cons.1 h
    obtain ⟨n, rfl⟩ : ∃ m, n = m + 1 := ⟨n - 1, by rw [List.length_cons] at hn; omega⟩
    have hrest : readMany n (encodeAll es) = some es := ih hes (Nat.le_of_succ_le_succ hn)
    have hread := read_encode_append he (encodeAll es)
    have hne : e.encode ++ encodeAll es ≠ [] := by simp [encode_ne_nil]
    rw [encodeAll_cons, readMany.eq_3 _ _ hne, hread]
    simp [hrest]

theorem readAll_eq_some_iff {b : Bytes} {es : List Element} :
    readAll b = some es ↔ b = encodeAll es ∧ ∀ e ∈ es, e.content.length ≤ maxLength := by
  constructor
  · exact eq_encodeAll_of_readMany
  · intro h
    obtain ⟨rfl, hes⟩ := h
    exact readMany_encodeAll hes (length_le_length_encodeAll es)

end Element

end Der

end PkiEnroll
