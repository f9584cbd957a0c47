import Mathlib.Data.List.DropRight
import PkiEnroll.Proofs.Der.Integer
import PkiEnroll.Proofs.Der.NamedBits

namespace PkiEnroll.Der

namespace BitString

variable {s t : BitString}

/-- A bit as it stands in the bytes, be it used or not. -/
def rawBit (s : BitString) (i : Nat) : Bool := (s.bytes.getD (i / 8) 0).toNat.testBit (7 - i % 8)

def bits (s : BitString) : List Bool := (List.range s.bitLength).map s.isSet

/-- Whether zeros stand in the unused bits. -/
def IsPadded (s : BitString) : Prop := ∀ i, s.bitLength ≤ i → s.rawBit i = false

/-- The form in which named bits are written: they end with one that is set, and zeros fill up what is
left of its byte. -/
structure IsMinimal (s : BitString) : Prop where
  padded : s.IsPadded
  last : s.bits.getLast? ≠ some false
  unused : 8 * s.bytes.length < s.bitLength + 8

theorem bitLength_add_unused (s : BitString) : s.bitLength + s.unused = 8 * s.bytes.length := by
  have hle : (s.unused : Nat) ≤ 8 * s.bytes.length := by
    by_cases hempty : s.bytes = []
    · simp [s.unused_eq_zero hempty]
    · have hpos := List.length_pos_iff.2 hempty
      have hlt := s.unused.isLt
      omega
  exact Nat.sub_add_cancel hle

theorem div_lt_length {i : Nat} (h : i < s.bitLength) : i / 8 < s.bytes.length := by
  have hlength := s.bitLength_add_unused
  omega

theorem isSet_of_lt {i : Nat} (h : i < s.bitLength) : s.isSet i = s.rawBit i := by
  rw [isSet, decide_eq_true h, Bool.true_and]
  rfl

theorem isSet_iff {i : Nat} :
    s.isSet i = true ↔ i < s.bitLength ∧
      ∃ byte, s.bytes[i / 8]? = some byte ∧ byte.toNat.testBit (7 - i % 8) = true := by
  rw [isSet, Bool.and_eq_true, decide_eq_true_iff]
  refine and_congr_right fun hi => ?_
  rw [List.getD_eq_getElem _ 0 (div_lt_length hi), List.getElem?_eq_getElem (div_lt_length hi)]
  simp

theorem length_bytes_lt (s : BitString) : 8 * s.bytes.length < s.bitLength + 8 := by
  have hlength := s.bitLength_add_unused
  have hlt := s.unused.isLt
  omega

theorem rawBit_of_position (s : BitString) (j : Nat) {k : Nat} (hk : k < 8) :
    s.rawBit (8 * j + (7 - k)) = (s.bytes.getD j 0).toNat.testBit k := by
  have hbyte : (8 * j + (7 - k)) / 8 = j := by omega
  have hplace : 7 - (8 * j + (7 - k)) % 8 = k := by omega
  rw [rawBit, hbyte, hplace]

theorem getD_bytes_eq (h : ∀ i, s.rawBit i = t.rawBit i) (j : Nat) :
    s.bytes.getD j 0 = t.bytes.getD j 0 := by
  refine UInt8.toNat_inj.1 (Nat.eq_of_testBit_eq fun k => ?_)
  by_cases hk : k < 8
  · rw [← rawBit_of_position s j hk, ← rawBit_of_position t j hk, h]
  · have hhigh (x : UInt8) : x.toNat.testBit k = false :=
      Nat.testBit_lt_two_pow (Nat.lt_of_lt_of_le x.toNat_lt (Nat.pow_le_pow_right (by decide) (by omega)))
    rw [hhigh, hhigh]

theorem isSet_eq_of_bits (h : s.bits = t.bits) {i : Nat} (hs : i < s.bitLength)
    (ht : i < t.bitLength) : s.isSet i = t.isSet i := by
  have hi := congrArg (·[i]?) h
  simpa [bits, hs, ht] using hi

theorem eq_of_bits (hs : s.IsPadded) (ht : t.IsPadded) (h : s.bits = t.bits) : s = t := by
  have hlength : s.bitLength = t.bitLength := by simpa [bits] using congrArg List.length h
  have hraw (i : Nat) : s.rawBit i = t.rawBit i := by
    by_cases hi : i < s.bitLength
    · rw [← isSet_of_lt hi, ← isSet_of_lt (hlength ▸ hi)]
      exact isSet_eq_of_bits h hi (hlength ▸ hi)
    · rw [hs i (by omega), ht i (by omega)]
  have hcount : s.bytes.length = t.bytes.length := by
    have hs' := s.bitLength_add_unused
    have ht' := t.bitLength_add_unused
    omega
  have hbytes : s.bytes = t.bytes := by
    refine List.ext_getElem hcount fun j hj hj' => ?_
    rw [← List.getD_eq_getElem _ 0 hj, ← List.getD_eq_getElem _ 0 hj']
    exact getD_bytes_eq hraw j
  have hunused : s.unused = t.unused := by
    have hs' := s.bitLength_add_unused
    have ht' := t.bitLength_add_unused
    exact Fin.ext (by omega)
  cases s
  cases t
  cases hbytes
  cases hunused
  rfl

/-- A minimal bit string is no longer than one in which all its bits are set. -/
theorem IsMinimal.bitLength_le (hs : s.IsMinimal) (h : ∀ i, s.isSet i = true → t.isSet i = true) :
    s.bitLength ≤ t.bitLength := by
  have hlast := hs.last
  rw [bits] at hlast
  cases hlength : s.bitLength with
  | zero => exact Nat.zero_le _
  | succ n =>
    rw [hlength, List.range_succ, List.map_append, List.map_singleton, List.getLast?_concat] at hlast
    have hset : s.isSet n = true := by simpa using hlast
    exact (isSet_iff.1 (h n hset)).1

/-- In their minimal form, sets of named bits are told apart by their members. -/
theorem eq_of_isMinimal (hs : s.IsMinimal) (ht : t.IsMinimal)
    (h : ∀ i, s.isSet i = true ↔ t.isSet i = true) : s = t := by
  have hle := hs.bitLength_le fun i => (h i).1
  have hge := ht.bitLength_le fun i => (h i).2
  have hlength : s.bitLength = t.bitLength := Nat.le_antisymm hle hge
  apply eq_of_bits hs.padded ht.padded
  rw [bits, bits, hlength]
  exact List.map_congr_left fun i _ => Bool.eq_iff_iff.2 (h i)

end BitString

namespace NamedBits

variable {word i : Nat}

/-- A byte takes its bits from the most significant one on. -/
theorem byte_eq_setBits (word j : Nat) :
    byte word j = UInt8.ofNat (setBits (fun i => word.testBit (8 * j + (7 - i))) 8) := by
  have hfilter : (List.range 8).filter (fun k => word.testBit (8 * j + k)) =
      (List.range 8).filter ((fun i => word.testBit (8 * j + (7 - i))) ∘ (7 - ·)) := by
    refine List.filter_congr fun k hk => ?_
    have hplace : 7 - (7 - k) = k := by
      have hlt := List.mem_range.1 hk
      omega
    rw [Function.comp_apply, hplace]
  have hreverse : (List.range 8).map (7 - ·) = (List.range 8).reverse := by decide
  have horder : (((List.range 8).filter fun k => word.testBit (8 * j + k)).map (7 - ·)).Perm
      ((List.range 8).filter fun i => word.testBit (8 * j + (7 - i))) := by
    rw [hfilter, ← List.filter_map, hreverse]
    exact (List.reverse_perm _).filter _
  have hsum := horder.foldl_eq' (f := fun n i => n + 1 <<< i) (fun x _ y _ n => by omega) 0
  rw [List.foldl_map] at hsum
  exact congrArg UInt8.ofNat hsum

theorem testBit_byte (word j : Nat) {k : Nat} (hk : k < 8) :
    (byte word j).toNat.testBit (7 - k) = word.testBit (8 * j + k) := by
  have hbyte : (byte word j).toNat = setBits (fun i => word.testBit (8 * j + (7 - i))) 8 := by
    rw [byte_eq_setBits]
    exact UInt8.toNat_ofNat_of_lt' (setBits_lt _ 8)
  have hplace : 7 - (7 - k) = k := by omega
  rw [hbyte, testBit_setBits, decide_eq_true (by omega : 7 - k < 8), Bool.true_and, hplace]

theorem bitLength_toBitString (word : Nat) :
    (toBitString word).bitLength = Bytes.bitLength word := by
  have hunused : (Fin.ofNat 8 (8 * ((Bytes.bitLength word + 7) / 8) - Bytes.bitLength word) : Nat) =
      8 * ((Bytes.bitLength word + 7) / 8) - Bytes.bitLength word :=
    Nat.mod_eq_of_lt (by omega)
  simp only [toBitString, BitString.bitLength, List.length_map, List.length_range, hunused]
  omega

theorem testBit_of_bitLength_le (h : Bytes.bitLength word ≤ i) : word.testBit i = false :=
  Nat.testBit_lt_two_pow (Bytes.bitLength_le_iff.1 h)

theorem rawBit_toBitString (word i : Nat) : (toBitString word).rawBit i = word.testBit i := by
  have hplace : 8 * (i / 8) + i % 8 = i := Nat.div_add_mod i 8
  simp only [BitString.rawBit, toBitString, List.getD_eq_getElem?_getD, List.getElem?_map]
  by_cases hi : i / 8 < (Bytes.bitLength word + 7) / 8
  · rw [List.getElem?_range hi, Option.map_some, Option.getD_some,
      testBit_byte word (i / 8) (Nat.mod_lt i (by decide)), hplace]
  · have hzero : word.testBit i = false := testBit_of_bitLength_le (by omega)
    rw [List.getElem?_eq_none (by simpa using hi), hzero]
    exact Nat.zero_testBit _

theorem isPadded_toBitString (word : Nat) : (toBitString word).IsPadded := by
  intro i hi
  rw [bitLength_toBitString] at hi
  rw [rawBit_toBitString, testBit_of_bitLength_le hi]

theorem isSet_toBitString (word i : Nat) : (toBitString word).isSet i = word.testBit i := by
  by_cases hi : i < (toBitString word).bitLength
  · rw [BitString.isSet_of_lt hi, rawBit_toBitString]
  · rw [BitString.isSet, decide_eq_false hi, Bool.false_and]
    rw [bitLength_toBitString] at hi
    rw [testBit_of_bitLength_le (by omega)]

theorem bits_toBitString (word : Nat) :
    (toBitString word).bits = (List.range (Bytes.bitLength word)).map word.testBit := by
  rw [BitString.bits, bitLength_toBitString]
  exact List.map_congr_left fun i _ => isSet_toBitString word i

theorem ofBitString_toBitString {limit : Nat} (h : word < 2 ^ limit) :
    ofBitString limit (toBitString word) = word := by
  refine Nat.eq_of_testBit_eq fun i => ?_
  rw [testBit_ofBitString, isSet_toBitString]
  by_cases hi : i < limit
  · rw [decide_eq_true hi, Bool.true_and]
  · have hhigh := Nat.testBit_lt_two_pow
      (Nat.lt_of_lt_of_le h (Nat.pow_le_pow_right (by decide) (Nat.le_of_not_lt hi)))
    rw [hhigh, Bool.and_false]

theorem getLast?_bits_toBitString (word : Nat) : (toBitString word).bits.getLast? ≠ some false := by
  by_cases hword : word = 0
  · simp [hword, bits_toBitString, Bytes.bitLength]
  · rw [bits_toBitString, Bytes.bitLength, if_neg hword, List.range_succ, List.map_append,
      List.map_singleton, List.getLast?_concat, Nat.testBit_log2 hword]
    simp

theorem rdropWhile_bits (p : Nat → Bool) (n : Nat) :
    ((List.range n).map p).rdropWhile (! ·) =
      (List.range (Bytes.bitLength (setBits p n))).map p := by
  induction n with
  | zero => rfl
  | succ n ih =>
    rw [List.range_succ, List.map_append, List.map_singleton, setBits_succ]
    cases hp : p n with
    | false => rw [List.rdropWhile_concat_pos _ _ _ (by simp)]; exact ih
    | true =>
      rw [List.rdropWhile_concat_neg _ _ _ (by simp)]
      have hbits : Bytes.bitLength (2 ^ n + setBits p n) = n + 1 := by
        have hlow := setBits_lt p n
        refine Nat.le_antisymm (Bytes.bitLength_le_iff.2 (by rw [Nat.pow_succ]; omega)) ?_
        exact Nat.lt_of_not_le fun hle => absurd (Bytes.bitLength_le_iff.1 hle) (by omega)
      rw [if_pos rfl, hbits, List.range_succ, List.map_append, List.map_singleton, hp]

theorem isMinimal_toBitString (word : Nat) : (toBitString word).IsMinimal :=
  ⟨isPadded_toBitString word, getLast?_bits_toBitString word, BitString.length_bytes_lt _⟩

/-- What is read of a bit string is written as its first bits without trailing zeros. -/
theorem bits_toBitString_ofBitString (limit : Nat) (s : BitString) :
    (toBitString (ofBitString limit s)).bits = (s.bits.take limit).rdropWhile (! ·) := by
  have htake : s.bits.take limit = (List.range (min limit s.bitLength)).map s.isSet := by
    rw [BitString.bits, ← List.map_take, List.take_range]
  have hword : ofBitString limit s = setBits s.isSet (min limit s.bitLength) := by
    refine Nat.eq_of_testBit_eq fun i => ?_
    rw [testBit_ofBitString, testBit_setBits]
    by_cases hi : i < s.bitLength
    · simp [hi]
    · simp [BitString.isSet, hi]
  rw [htake, rdropWhile_bits, bits_toBitString, hword]
  refine List.map_congr_left fun i hi => ?_
  have hlength : Bytes.bitLength (setBits s.isSet (min limit s.bitLength)) ≤ min limit s.bitLength :=
    Bytes.bitLength_le_iff.2 (setBits_lt _ _)
  have hlt := Nat.lt_of_lt_of_le (List.mem_range.1 hi) hlength
  rw [testBit_setBits, decide_eq_true hlt, Bool.true_and]

end NamedBits

end PkiEnroll.Der

namespace PkiEnroll.Cmp

open Der

namespace FailureInfo

theorem toNat_ofBitString (s : BitString) :
    (ofBitString s).bits.toNat = NamedBits.ofBitString 32 s :=
  Nat.mod_eq_of_lt (NamedBits.ofBitString_lt 32 s)

theorem ofBitString_toBitString (f : FailureInfo) : ofBitString f.toBitString = f := by
  rw [ofBitString, toBitString, NamedBits.ofBitString_toBitString f.bits.toNat_lt, UInt32.ofNat_toNat]

theorem bytes_toBitString_eq_nil_iff (f : FailureInfo) : f.toBitString.bytes = [] ↔ f.bits = 0 := by
  have hlength := f.toBitString.bitLength_add_unused
  have hunused := f.toBitString.length_bytes_lt
  have hword : f.toBitString.bitLength ≤ 0 ↔ f.bits.toNat < 1 := by
    rw [toBitString, NamedBits.bitLength_toBitString]
    exact Bytes.bitLength_le_iff
  rw [← List.length_eq_zero_iff, ← UInt32.toNat_inj, UInt32.toNat_zero]
  omega

theorem bits_toBitString_ofBitString (s : BitString) :
    (ofBitString s).toBitString.bits = (s.bits.take 32).rdropWhile (! ·) := by
  rw [toBitString, toNat_ofBitString, NamedBits.bits_toBitString_ofBitString]

/-- Failure information is read back from the shortest bit string that has its bits. Of any bit string
the named bits below 32 are read, each in a byte that is there, and written again they are the bit string
cut to 32 bits, without trailing zeros; what stands in the unused bits makes no difference. -/
theorem toBitString_faithful :
    (∀ f : FailureInfo, ofBitString f.toBitString = f ∧ f.toBitString.IsMinimal ∧
      (f.toBitString.bytes = [] ↔ f.bits = 0)) ∧
    ∀ s : BitString,
      (∀ i : Fin s.bitLength, i / 8 < s.bytes.length) ∧
      (∀ i, (ofBitString s).bit i = true ↔ i < 32 ∧ i < s.bitLength ∧
        ∃ byte, s.bytes[i / 8]? = some byte ∧ byte.toNat.testBit (7 - i % 8) = true) ∧
      ∀ t : BitString, t = (ofBitString s).toBitString ↔
        t.IsPadded ∧ t.bits = (s.bits.take 32).rdropWhile (! ·) := by
  constructor
  · intro f
    exact ⟨f.ofBitString_toBitString, NamedBits.isMinimal_toBitString _,
      f.bytes_toBitString_eq_nil_iff⟩
  · intro s
    refine ⟨fun i => BitString.div_lt_length i.isLt, fun i => ?_, fun t => ⟨?_, ?_⟩⟩
    · rw [bit_ofBitString, Bool.and_eq_true, decide_eq_true_iff, BitString.isSet_iff]
    · rintro rfl
      exact ⟨NamedBits.isPadded_toBitString _, bits_toBitString_ofBitString s⟩
    · rintro ⟨hpadded, hbits⟩
      refine BitString.eq_of_bits hpadded (NamedBits.isPadded_toBitString _) ?_
      exact hbits.trans (bits_toBitString_ofBitString s).symm

/-- Of ten bits the last is set; the six ones behind it do not count. -/
example : ofBitString ⟨6, [0x00, 0x7f], by simp⟩ = ⟨0x200⟩ := by decide

end FailureInfo

end PkiEnroll.Cmp
