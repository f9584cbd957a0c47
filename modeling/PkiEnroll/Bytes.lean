namespace PkiEnroll

abbrev Bytes := List UInt8

namespace Bytes

def toNat (b : Bytes) : Nat := b.foldl (fun n x => 256 * n + x.toNat) 0

/-- The `width` low-order bytes of a number, most significant first. -/
def ofNat : Nat → Nat → Bytes
  | 0, _ => []
  | width + 1, n => ofNat width (n / 256) ++ [UInt8.ofNat n]

/-- How many numbers `width` bytes can spell. -/
def capacity (width : Nat) : Nat := 1 <<< (8 * width)

def bitLength (n : Nat) : Nat := if n = 0 then 0 else n.log2 + 1

/-- The bytes of a number without leading zeros. -/
def minimal (n : Nat) : Bytes := ofNat ((bitLength n + 7) / 8) n

def split? (n : Nat) (b : Bytes) : Option (Bytes × Bytes) :=
  let front := b.take n
  if front.length = n then some (front, b.drop n) else none

/-- Cuts off pieces of `size` bytes, `bound` at the most. -/
def piecesUpTo (size : Nat) : Nat → Bytes → List Bytes
  | 0, _ => []
  | _, [] => []
  | bound + 1, b => b.take size :: piecesUpTo size bound (b.drop size)

/-- Consecutive pieces of `size` bytes, the last perhaps shorter; `size` is not zero. -/
def pieces (size : Nat) (b : Bytes) : List Bytes := piecesUpTo size b.length b

def hexDigit (n : UInt8) : Char := if n < 10 then Char.ofNat (48 + n.toNat) else Char.ofNat (87 + n.toNat)

def hex (b : Bytes) : String :=
  String.ofList (b.flatMap fun x => [hexDigit (x / 16), hexDigit (x % 16)])

def hexValue? (c : UInt8) : Option UInt8 :=
  if 48 ≤ c ∧ c ≤ 57 then some (c - 48)
  else if 97 ≤ c ∧ c ≤ 102 then some (c - 87)
  else if 65 ≤ c ∧ c ≤ 70 then some (c - 55)
  else none

def ofHexDigits? : Bytes → Option Bytes
  | [] => some []
  | [_] => none
  | high :: low :: rest => do
    let h ← hexValue? high
    let l ← hexValue? low
    let tail ← ofHexDigits? rest
    return (16 * h + l) :: tail

def ofString (s : String) : Bytes := s.toUTF8.toList

def toString? (b : Bytes) : Option String := String.fromUTF8? b.toByteArray

theorem split?_eq_some_iff {n : Nat} {b front rest : Bytes} :
    split? n b = some (front, rest) ↔ b = front ++ rest ∧ front.length = n := by
  unfold split?
  constructor
  · intro h
    by_cases hn : (b.take n).length = n
    · rw [if_pos hn] at h
      obtain ⟨rfl, rfl⟩ := Prod.mk.inj (Option.some.inj h)
      exact ⟨(List.take_append_drop n b).symm, hn⟩
    · rw [if_neg hn] at h
      cases h
  · rintro ⟨rfl, hn⟩
    simp [hn, List.take_left' hn, List.drop_left' hn]

theorem length_ofNat (width n : Nat) : (ofNat width n).length = width := by
  induction width generalizing n with
  | zero => rfl
  | succ w ih => simp [ofNat, ih]

theorem capacity_zero : capacity 0 = 1 := rfl

theorem capacity_succ (width : Nat) : capacity (width + 1) = 256 * capacity width := by
  simp only [capacity, Nat.shiftLeft_eq, Nat.one_mul, Nat.mul_add, Nat.pow_add, Nat.mul_comm 256]

theorem foldl_toNat (b : Bytes) (n : Nat) :
    b.foldl (fun n x => 256 * n + x.toNat) n = n * capacity b.length + toNat b := by
  induction b generalizing n with
  | nil => simp [toNat, capacity_zero]
  | cons x b ih =>
    simp only [toNat, List.foldl_cons, List.length_cons, capacity_succ]
    rw [ih, ih (256 * 0 + x.toNat), Nat.mul_zero, Nat.zero_add, Nat.add_mul, Nat.add_assoc,
      Nat.mul_comm 256 n, Nat.mul_assoc]

theorem toNat_append (a b : Bytes) : toNat (a ++ b) = toNat a * capacity b.length + toNat b := by
  rw [toNat, List.foldl_append, foldl_toNat]
  rfl

theorem toNat_ofNat {width n : Nat} (h : n < capacity width) : toNat (ofNat width n) = n := by
  induction width generalizing n with
  | zero => simp [capacity_zero] at h; subst h; rfl
  | succ w ih =>
    have hw : n / 256 < capacity w := Nat.div_lt_of_lt_mul (by rwa [capacity_succ] at h)
    rw [ofNat, toNat_append, ih hw]
    simp [toNat, capacity_succ, capacity_zero]
    omega

end Bytes

end PkiEnroll
