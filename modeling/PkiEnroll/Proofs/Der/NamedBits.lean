import Mathlib.Data.Nat.Bitwise
import PkiEnroll.Cmp.Status

namespace PkiEnroll.Der

/-- Whether named bit `i` of a bit string is there and is set. The first bit is the most significant
one of the first byte. -/
def BitString.isSet (s : BitString) (i : Nat) : Bool :=
  decide (i < s.bitLength) && (s.bytes.getD (i / 8) 0).toNat.testBit (7 - i % 8)

namespace NamedBits

variable {p : Nat → Bool}

/-- The powers of two of the numbers below a bound with a property, added up. -/
def setBits (p : Nat → Bool) (k : Nat) : Nat :=
  ((List.range k).filter p).foldl (fun n i => n + 1 <<< i) 0

theorem setBits_succ (p : Nat → Bool) (k : Nat) :
    setBits p (k + 1) = if p k then 2 ^ k + setBits p k else setBits p k := by
  unfold setBits
  rw [List.range_succ, List.filter_append, List.foldl_append]
  cases hp : p k with
  | false => simp [hp]
  | true => simp [hp, Nat.one_shiftLeft, Nat.add_comm]

theorem setBits_lt (p : Nat → Bool) (k : Nat) : setBits p k < 2 ^ k := by
  induction k with
  | zero => exact Nat.one_pos
  | succ k ih =>
    rw [setBits_succ, Nat.pow_succ]
    split
    · omega
    · omega

theorem testBit_setBits (p : Nat → Bool) (k i : Nat) :
    (setBits p k).testBit i = (decide (i < k) && p i) := by
  induction k with
  | zero => simp [setBits]
  | succ k ih =>
    -- the new power of two lies above all that have been added
    have hlow (i : Nat) (hi : k < i) : (setBits p (k + 1)).testBit i = false :=
      Nat.testBit_lt_two_pow (Nat.lt_of_lt_of_le (setBits_lt p (k + 1))
        (Nat.pow_le_pow_right (by decide) hi))
    rcases Nat.lt_trichotomy i k with hi | rfl | hi
    · have hbit : (setBits p (k + 1)).testBit i = (setBits p k).testBit i := by
        rw [setBits_succ]
        split
        · exact Nat.testBit_two_pow_add_gt hi _
        · rfl
      rw [hbit, ih, decide_eq_true hi, decide_eq_true (Nat.lt_succ_of_lt hi)]
    · rw [setBits_succ, decide_eq_true (Nat.lt_succ_self i), Bool.true_and]
      have htop : (setBits p i).testBit i = false := by rw [ih]; simp
      split
      · next hp => rw [Nat.testBit_two_pow_add_eq, htop, hp, Bool.not_false]
      · next hp => rw [htop, Bool.eq_false_of_not_eq_true hp]
    · rw [hlow i hi, decide_eq_false (by omega), Bool.false_and]

theorem ofBitString_eq_setBits (limit : Nat) (s : BitString) :
    ofBitString limit s =
      setBits (fun i => (s.bytes.getD (i / 8) 0).toNat.testBit (7 - i % 8)) (min s.bitLength limit) :=
  rfl

theorem testBit_ofBitString (limit : Nat) (s : BitString) (i : Nat) :
    (ofBitString limit s).testBit i = (decide (i < limit) && s.isSet i) := by
  rw [ofBitString_eq_setBits, testBit_setBits, BitString.isSet, ← Bool.and_assoc]
  congr 1
  rw [← Bool.decide_and, decide_eq_decide, Nat.lt_min]
  exact And.comm

theorem ofBitString_lt (limit : Nat) (s : BitString) : ofBitString limit s < 2 ^ limit := by
  rw [ofBitString_eq_setBits]
  exact Nat.lt_of_lt_of_le (setBits_lt _ _) (Nat.pow_le_pow_right (by decide) (Nat.min_le_right _ _))

end NamedBits

end PkiEnroll.Der

namespace PkiEnroll.Cmp

open Der

/-- The failure information has the first 32 bits of the bit string, and no others. -/
theorem FailureInfo.bit_ofBitString (s : BitString) (i : Nat) :
    (FailureInfo.ofBitString s).bit i = (decide (i < 32) && s.isSet i) := by
  have hword : (UInt32.ofNat (NamedBits.ofBitString 32 s)).toNat = NamedBits.ofBitString 32 s :=
    Nat.mod_eq_of_lt (NamedBits.ofBitString_lt 32 s)
  rw [FailureInfo.ofBitString, FailureInfo.bit, hword, NamedBits.testBit_ofBitString]

end PkiEnroll.Cmp
