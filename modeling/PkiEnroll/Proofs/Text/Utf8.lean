import Mathlib.Tactic.Common
import PkiEnroll.Proofs.Der.Primitive
import PkiEnroll.Text.Lossy

namespace PkiEnroll

namespace Bytes

theorem ofString_append (s t : String) : ofString (s ++ t) = ofString s ++ ofString t := by
  rw [ofString_eq, ofString_eq, ofString_eq, String.toByteArray_append, ByteArray.data_append,
    Array.toList_append]

theorem ofString_ofList (cs : List Char) :
    ofString (String.ofList cs) = cs.flatMap String.utf8EncodeChar := by
  rw [ofString_eq, String.toByteArray_ofList]
  exact List.toList_data_toByteArray

theorem utf8EncodeChar_of_lt {b : UInt8} (h : b < 128) :
    String.utf8EncodeChar (Char.ofNat b.toNat) = [b] := by
  have hlt : b.toNat < 128 := h
  have hvalid : b.toNat.isValidChar := Or.inl (by omega)
  have hcode : (Char.ofNat b.toNat).val.toNat = b.toNat := by
    unfold Char.ofNat
    rw [dif_pos hvalid]
    rfl
  unfold String.utf8EncodeChar
  rw [hcode, if_pos (by omega), UInt8.ofNat_toNat]

theorem ofString_ascii {b : Bytes} (h : ∀ c ∈ b, c < 128) :
    ofString (String.ofList (b.map fun c => Char.ofNat c.toNat)) = b := by
  rw [ofString_ofList, List.flatMap_map]
  induction b with
  | nil => rfl
  | cons c b ih =>
    obtain ⟨hc, hb⟩ := List.forall_mem_cons.1 h
    rw [List.flatMap_cons, utf8EncodeChar_of_lt hc, ih hb]
    rfl

end Bytes

namespace Text

/-- Whether `second` may follow `first` at the beginning of a character of `count` more bytes. -/
def announces (first second : UInt8) (count : Nat) : Bool :=
  (continuation? first).any fun (low, high, n) => n = count && low ≤ second && second ≤ high

theorem announces_of_two :
    ∀ lead < 32, 2 ≤ lead → ∀ next < 64,
      announces (UInt8.ofNat (lead + 192)) (UInt8.ofNat (next + 128)) 1 = true := by
  decide

/-- Neither a number that two bytes are enough for nor half of a pair begins like this. -/
theorem announces_of_three :
    ∀ lead < 16, ∀ next < 64, (lead = 0 → 32 ≤ next) → (lead = 13 → next < 32) →
      announces (UInt8.ofNat (lead + 224)) (UInt8.ofNat (next + 128)) 2 = true := by
  decide

theorem announces_of_four :
    ∀ lead < 5, ∀ next < 64, (lead = 0 → 16 ≤ next) → (lead = 4 → next < 16) →
      announces (UInt8.ofNat (lead + 240)) (UInt8.ofNat (next + 128)) 3 = true := by
  decide

theorem isContinuation_of_lt : ∀ next < 64, isContinuation (UInt8.ofNat (next + 128)) = true := by
  decide

theorem lossyChars_append {bound : Nat} {first second : UInt8} {rest : Bytes} {c : Char} (more : Bytes)
    (hfirst : 128 ≤ first.toNat) (hannounced : announces first second (more.length + 1) = true)
    (hmore : ∀ b ∈ more, isContinuation b = true)
    (hcode : (second :: more).foldl (fun n b => 64 * n + b.toNat % 64)
      (first.toNat % 1 <<< (6 - (more.length + 1))) = c.toNat) :
    lossyChars (bound + 1) (first :: second :: more ++ rest) = c :: lossyChars bound rest := by
  have hlead : ¬first < 0x80 := Nat.not_lt.2 hfirst
  unfold announces at hannounced
  cases hread : continuation? first with
  | none =>
    rw [hread] at hannounced
    cases hannounced
  | some announced =>
    obtain ⟨low, high, count⟩ := announced
    rw [hread] at hannounced
    have hrange : count = more.length + 1 ∧ low ≤ second ∧ second ≤ high := by
      simpa [and_assoc] using hannounced
    obtain ⟨rfl, hlow, hhigh⟩ := hrange
    have htake : ((more ++ rest).takeWhile isContinuation).take more.length = more := by
      rw [List.takeWhile_append_of_pos hmore, List.take_left]
    have htail : tailOf low high (more.length + 1) (second :: (more ++ rest)) = second :: more := by
      rw [tailOf, if_pos ⟨hlow, hhigh⟩, Nat.add_sub_cancel, htake]
    have hdrop : (second :: (more ++ rest)).drop (second :: more).length = rest :=
      @List.drop_left UInt8 (second :: more) rest
    rw [List.cons_append, List.cons_append, lossyChars, if_neg hlead, hread]
    dsimp only
    rw [htail, hcode, hdrop, if_pos List.length_cons, Char.ofNat_toNat]

theorem toNat_lead {n base : Nat} (h : n + base < 256) : (UInt8.ofNat (n + base)).toNat = n + base :=
  UInt8.toNat_ofNat_of_lt' h

theorem toNat_next (n : Nat) : (UInt8.ofNat (n % 64 + 128)).toNat % 64 = n % 64 := by
  rw [toNat_lead (by omega)]
  omega

theorem isContinuation_next (n : Nat) : isContinuation (UInt8.ofNat (n % 64 + 128)) = true :=
  isContinuation_of_lt _ (Nat.mod_lt _ (by decide))

section

variable {c : Char} (bound : Nat) (rest : Bytes)

theorem lossyChars_one (h : c.toNat ≤ 127) :
    lossyChars (bound + 1) (UInt8.ofNat c.toNat :: rest) = c :: lossyChars bound rest := by
  have hsmall : (UInt8.ofNat c.toNat).toNat = c.toNat :=
    UInt8.toNat_ofNat_of_lt' (Nat.lt_of_le_of_lt h (by decide))
  have hlead : UInt8.ofNat c.toNat < 0x80 := by
    change (UInt8.ofNat c.toNat).toNat < 128
    omega
  rw [lossyChars, if_pos hlead, hsmall, Char.ofNat_toNat]

theorem lossyChars_two (hone : ¬c.toNat ≤ 127) (h : c.toNat ≤ 2047) :
    lossyChars (bound + 1)
        (UInt8.ofNat (c.toNat / 64 % 32 + 192) :: UInt8.ofNat (c.toNat % 64 + 128) :: rest) =
      c :: lossyChars bound rest := by
  have hfirst : (UInt8.ofNat (c.toNat / 64 % 32 + 192)).toNat = c.toNat / 64 % 32 + 192 :=
    toNat_lead (by omega)
  have hannounced := announces_of_two (c.toNat / 64 % 32) (by omega) (by omega) (c.toNat % 64) (by omega)
  refine lossyChars_append [] (by omega) hannounced (by simp) ?_
  rw [hfirst, List.foldl_cons, List.foldl_nil, toNat_next]
  change 64 * ((c.toNat / 64 % 32 + 192) % 32) + c.toNat % 64 = c.toNat
  omega

theorem lossyChars_three (htwo : ¬c.toNat ≤ 2047) (h : c.toNat ≤ 65535) :
    lossyChars (bound + 1)
        (UInt8.ofNat (c.toNat / 4096 % 16 + 224) :: UInt8.ofNat (c.toNat / 64 % 64 + 128) ::
          UInt8.ofNat (c.toNat % 64 + 128) :: rest) =
      c :: lossyChars bound rest := by
  have hvalid : c.toNat < 0xd800 ∨ 0xdfff < c.toNat ∧ c.toNat < 0x110000 := c.valid
  have hfirst : (UInt8.ofNat (c.toNat / 4096 % 16 + 224)).toNat = c.toNat / 4096 % 16 + 224 :=
    toNat_lead (by omega)
  have hannounced := announces_of_three (c.toNat / 4096 % 16) (by omega) (c.toNat / 64 % 64) (by omega)
    (by omega) (by omega)
  refine lossyChars_append [_] (by omega) hannounced (by simpa using isContinuation_next _) ?_
  rw [hfirst, List.foldl_cons, List.foldl_cons, List.foldl_nil, toNat_next, toNat_next]
  change 64 * (64 * ((c.toNat / 4096 % 16 + 224) % 16) + c.toNat / 64 % 64) + c.toNat % 64 = c.toNat
  omega

theorem lossyChars_four (h : ¬c.toNat ≤ 65535) :
    lossyChars (bound + 1)
        (UInt8.ofNat (c.toNat / 262144 % 8 + 240) :: UInt8.ofNat (c.toNat / 4096 % 64 + 128) ::
          UInt8.ofNat (c.toNat / 64 % 64 + 128) :: UInt8.ofNat (c.toNat % 64 + 128) :: rest) =
      c :: lossyChars bound rest := by
  have hvalid : c.toNat < 0xd800 ∨ 0xdfff < c.toNat ∧ c.toNat < 0x110000 := c.valid
  have hfirst : (UInt8.ofNat (c.toNat / 262144 % 8 + 240)).toNat = c.toNat / 262144 % 8 + 240 :=
    toNat_lead (by omega)
  have hannounced := announces_of_four (c.toNat / 262144 % 8) (by omega) (c.toNat / 4096 % 64) (by omega)
    (by omega) (by omega)
  refine lossyChars_append [_, _] (by omega) hannounced ?_ ?_
  · intro b hb
    rcases List.mem_pair.1 hb with rfl | rfl
    · exact isContinuation_next _
    · exact isContinuation_next _
  · rw [hfirst, List.foldl_cons, List.foldl_cons, List.foldl_cons, List.foldl_nil, toNat_next, toNat_next,
      toNat_next]
    change 64 * (64 * (64 * ((c.toNat / 262144 % 8 + 240) % 8) + c.toNat / 4096 % 64) +
      c.toNat / 64 % 64) + c.toNat % 64 = c.toNat
    omega

end

/-- Every character is read from its bytes, whatever follows them. -/
theorem lossyChars_char (bound : Nat) (c : Char) (rest : Bytes) :
    lossyChars (bound + 1) (String.utf8EncodeChar c ++ rest) = c :: lossyChars bound rest := by
  unfold String.utf8EncodeChar
  rw [Char.toNat_val]
  dsimp only
  by_cases hone : c.toNat ≤ 127
  · rw [if_pos hone]
    exact lossyChars_one bound rest hone
  rw [if_neg hone]
  by_cases htwo : c.toNat ≤ 2047
  · rw [if_pos htwo]
    exact lossyChars_two bound rest hone htwo
  rw [if_neg htwo]
  by_cases hthree : c.toNat ≤ 65535
  · rw [if_pos hthree]
    exact lossyChars_three bound rest htwo hthree
  · rw [if_neg hthree]
    exact lossyChars_four bound rest hthree

theorem lossyChars_flatMap (bound : Nat) (cs : List Char)
    (h : (cs.flatMap String.utf8EncodeChar).length ≤ bound) :
    lossyChars bound (cs.flatMap String.utf8EncodeChar) = cs := by
  induction cs generalizing bound with
  | nil =>
    rw [List.flatMap_nil]
    cases bound with
    | zero => rfl
    | succ bound => rfl
  | cons c cs ih =>
    rw [List.flatMap_cons, List.length_append] at h
    have hpos : 0 < (String.utf8EncodeChar c).length := by
      rw [String.length_utf8EncodeChar]
      exact c.utf8Size_pos
    obtain ⟨bound, rfl⟩ : ∃ k, bound = k + 1 := ⟨bound - 1, by omega⟩
    rw [List.flatMap_cons, lossyChars_char, ih bound (by omega)]

theorem ofUtf8Lossy_ofString (s : String) : ofUtf8Lossy (Bytes.ofString s) = s := by
  have hbytes : Bytes.ofString s = s.toList.flatMap String.utf8EncodeChar := by
    rw [← Bytes.ofString_ofList, String.ofList_toList]
  rw [ofUtf8Lossy, hbytes, lossyChars_flatMap _ _ (Nat.le_refl _), String.ofList_toList]

theorem ofString_inj {s t : String} : Bytes.ofString s = Bytes.ofString t ↔ s = t := by
  constructor
  · intro h
    rw [← ofUtf8Lossy_ofString s, h, ofUtf8Lossy_ofString]
  · rintro rfl
    rfl

end Text

end PkiEnroll
