import Mathlib.Algebra.Group.Nat.Defs
import PkiEnroll.Der.Time
import PkiEnroll.Proofs.Der.Codec

namespace PkiEnroll.Der

def digitsValue (digits : Bytes) : Nat := digits.foldl (fun n c => 10 * n + (c.toNat - 48)) 0

def isDigit (c : UInt8) : Bool := 48 ≤ c && c ≤ 57

theorem isDigit_iff {c : UInt8} : isDigit c = true ↔ 48 ≤ c.toNat ∧ c.toNat ≤ 57 := by
  simp [isDigit, UInt8.le_iff_toNat_le]

theorem readDecimal_eq_some_iff {width n : Nat} {b rest : Bytes} :
    readDecimal width b = some (n, rest) ↔
      ∃ digits, b = digits ++ rest ∧ digits.length = width ∧ digits.all isDigit = true ∧
        digitsValue digits = n := by
  constructor
  · intro h
    obtain ⟨⟨digits, after⟩, hsplit, hread⟩ := Option.bind_eq_some_iff.1 h
    obtain ⟨rfl, hlength⟩ := Bytes.split?_eq_some_iff.1 hsplit
    obtain ⟨hdigits, heq⟩ := Option.ite_none_right_eq_some.1 hread
    obtain ⟨rfl, rfl⟩ := Prod.mk.inj (Option.some.inj heq)
    exact ⟨digits, rfl, hlength, hdigits, rfl⟩
  · intro h
    obtain ⟨digits, rfl, hlength, hdigits, rfl⟩ := h
    refine Option.bind_eq_some_iff.2 ⟨(digits, rest), Bytes.split?_eq_some_iff.2 ⟨rfl, hlength⟩, ?_⟩
    exact if_pos hdigits

theorem digitsValue_append_singleton (digits : Bytes) (c : UInt8) :
    digitsValue (digits ++ [c]) = 10 * digitsValue digits + (c.toNat - 48) := by
  rw [digitsValue, List.foldl_append]
  rfl

theorem toNat_digit (n : Nat) : (UInt8.ofNat (48 + n % 10)).toNat = 48 + n % 10 :=
  UInt8.toNat_ofNat_of_lt' (show 48 + n % 10 < 256 by omega)

theorem length_decimal (width n : Nat) : (decimal width n).length = width := by
  induction width generalizing n with
  | zero => rfl
  | succ width ih => rw [decimal, List.length_append, ih, List.length_singleton]

theorem all_isDigit_decimal (width n : Nat) : (decimal width n).all isDigit = true := by
  induction width generalizing n with
  | zero => rfl
  | succ width ih =>
    have hlast : isDigit (UInt8.ofNat (48 + n % 10)) = true := by
      rw [isDigit_iff, toNat_digit]
      omega
    rw [decimal, List.all_append, ih, List.all_cons, hlast]
    rfl

theorem digitsValue_decimal {width n : Nat} (h : n < 10 ^ width) :
    digitsValue (decimal width n) = n := by
  induction width generalizing n with
  | zero =>
    rw [Nat.pow_zero] at h
    exact (Nat.lt_one_iff.1 h).symm
  | succ width ih =>
    rw [Nat.pow_succ] at h
    rw [decimal, digitsValue_append_singleton, toNat_digit, ih (Nat.div_lt_of_lt_mul (by omega))]
    omega

theorem readDecimal_decimal_append {width n : Nat} (h : n < 10 ^ width) (rest : Bytes) :
    readDecimal width (decimal width n ++ rest) = some (n, rest) :=
  readDecimal_eq_some_iff.2
    ⟨_, rfl, length_decimal _ _, all_isDigit_decimal _ _, digitsValue_decimal h⟩

theorem foldl_digits_lt {digits : Bytes} (h : digits.all isDigit = true) {n k : Nat}
    (hn : n < 10 ^ k) :
    digits.foldl (fun n c => 10 * n + (c.toNat - 48)) n < 10 ^ (k + digits.length) := by
  induction digits generalizing n k with
  | nil => exact hn
  | cons c digits ih =>
    rw [List.all_cons, Bool.and_eq_true] at h
    obtain ⟨-, hc⟩ := isDigit_iff.1 h.1
    have hnext : 10 * n + (c.toNat - 48) < 10 ^ (k + 1) := by
      rw [Nat.pow_succ]
      omega
    have hall := ih h.2 hnext
    rwa [Nat.add_assoc, Nat.add_comm 1] at hall

theorem digitsValue_lt {digits : Bytes} (h : digits.all isDigit = true) :
    digitsValue digits < 10 ^ digits.length := by
  have hall := foldl_digits_lt h (by decide : 0 < 10 ^ 0)
  rwa [Nat.zero_add] at hall

theorem ofNat_digit {c : UInt8} (h : isDigit c = true) (n : Nat) :
    UInt8.ofNat (48 + (10 * n + (c.toNat - 48)) % 10) = c := by
  obtain ⟨hlow, hhigh⟩ := isDigit_iff.1 h
  have hvalue : 48 + (10 * n + (c.toNat - 48)) % 10 = c.toNat := by omega
  rw [hvalue, UInt8.ofNat_toNat]

theorem decimal_digitsValue {digits : Bytes} (h : digits.all isDigit = true) :
    decimal digits.length (digitsValue digits) = digits := by
  -- the last digit is the one that is written last
  induction digits using List.reverseRecOn with
  | nil => rfl
  | append_singleton digits c ih =>
    rw [List.all_append, Bool.and_eq_true, List.all_cons, List.all_nil, Bool.and_true] at h
    obtain ⟨hdigits, hc⟩ := h
    obtain ⟨hlow, hhigh⟩ := isDigit_iff.1 hc
    have hfront : (10 * digitsValue digits + (c.toNat - 48)) / 10 = digitsValue digits := by omega
    rw [List.length_append, List.length_singleton, digitsValue_append_singleton, decimal, hfront,
      ih hdigits, ofNat_digit hc]

theorem of_readDecimal {width n : Nat} {b rest : Bytes}
    (h : readDecimal width b = some (n, rest)) :
    b = decimal width n ++ rest ∧ n < 10 ^ width := by
  obtain ⟨digits, rfl, rfl, hdigits, rfl⟩ := readDecimal_eq_some_iff.1 h
  exact ⟨by rw [decimal_digitsValue hdigits], digitsValue_lt hdigits⟩

namespace DateTime

theorem monthDays_le (year month : Nat) : monthDays year month ≤ 31 := by
  have hall : ∀ days ∈ monthLengths year, days ≤ 31 := by
    unfold monthLengths
    split <;> decide
  unfold monthDays
  rw [List.getD_eq_getElem?_getD]
  cases hdays : (monthLengths year)[month - 1]? with
  | none => exact Nat.zero_le 31
  | some days => exact hall days (List.mem_of_getElem? hdays)

theorem isValid_iff {t : DateTime} :
    t.isValid = true ↔ 1970 ≤ t.year ∧ t.year ≤ 9999 ∧ 1 ≤ t.month ∧ t.month ≤ 12 ∧ 1 ≤ t.day ∧
      t.day ≤ monthDays t.year t.month ∧ t.hour < 24 ∧ t.minute < 60 ∧ t.second < 60 := by
  simp [isValid, and_assoc]

theorem readTail_tailBytes {t : DateTime} (h : t.isValid = true) :
    readTail t.year t.tailBytes = some t := by
  obtain ⟨-, -, -, hmonth, -, hday, hhour, hminute, hsecond⟩ := isValid_iff.1 h
  have hdays := monthDays_le t.year t.month
  have hread {n : Nat} (hn : n < 100) (rest : Bytes) :
      readDecimal 2 (decimal 2 n ++ rest) = some (n, rest) :=
    readDecimal_decimal_append hn rest
  simp only [readTail, tailBytes, List.append_assoc]
  rw [hread (by omega), Option.bind_eq_bind, Option.bind_some, hread (by omega), Option.bind_some,
    hread (by omega), Option.bind_some, hread (by omega), Option.bind_some, hread (by omega),
    Option.bind_some]
  exact if_pos ⟨rfl, h⟩

theorem of_readTail {year : Nat} {b : Bytes} {t : DateTime} (h : readTail year b = some t) :
    t.year = year ∧ t.isValid = true ∧ b = t.tailBytes := by
  obtain ⟨⟨month, b₁⟩, hmonth, h⟩ := Option.bind_eq_some_iff.1 h
  obtain ⟨⟨day, b₂⟩, hday, h⟩ := Option.bind_eq_some_iff.1 h
  obtain ⟨⟨hour, b₃⟩, hhour, h⟩ := Option.bind_eq_some_iff.1 h
  obtain ⟨⟨minute, b₄⟩, hminute, h⟩ := Option.bind_eq_some_iff.1 h
  obtain ⟨⟨second, b₅⟩, hsecond, h⟩ := Option.bind_eq_some_iff.1 h
  obtain ⟨⟨rfl, hvalid⟩, heq⟩ := Option.ite_none_right_eq_some.1 h
  obtain rfl := Option.some.inj heq
  refine ⟨rfl, hvalid, ?_⟩
  rw [(of_readDecimal hmonth).1, (of_readDecimal hday).1, (of_readDecimal hhour).1,
    (of_readDecimal hminute).1, (of_readDecimal hsecond).1]
  simp only [tailBytes, List.append_assoc]

end DateTime

instance : Checked UtcTime := ⟨fun t => t.time.isValid = true ∧ t.time.year ≤ 2049⟩
instance : Checked GeneralizedTime := ⟨fun t => t.time.isValid = true⟩

instance : LawfulContent GeneralizedTime where
  ofContent?_content {t} ht _ := by
    obtain ⟨-, hyear, -⟩ := DateTime.isValid_iff.1 ht
    refine Option.bind_eq_some_iff.2 ⟨_, readDecimal_decimal_append (by omega) _, ?_⟩
    dsimp only
    rw [DateTime.readTail_tailBytes ht]
    rfl
  of_ofContent? {b t} h := by
    obtain ⟨⟨year, rest⟩, hyear, h⟩ := Option.bind_eq_some_iff.1 h
    obtain ⟨time, htail, rfl⟩ := Option.map_eq_some_iff.1 h
    obtain ⟨rfl, hvalid, rfl⟩ := DateTime.of_readTail htail
    obtain ⟨rfl, -⟩ := of_readDecimal hyear
    exact ⟨hvalid, .refl⟩

instance : LawfulContent UtcTime where
  ofContent?_content {t} ht _ := by
    obtain ⟨hvalid, hlast⟩ := ht
    obtain ⟨hfirst, -⟩ := DateTime.isValid_iff.1 hvalid
    refine Option.bind_eq_some_iff.2 ⟨_, readDecimal_decimal_append (by omega) _, ?_⟩
    -- two digits are enough for a year from 1970 to 2049
    have hyear : (if 50 ≤ t.time.year % 100 then 1900 + t.time.year % 100
        else 2000 + t.time.year % 100) = t.time.year := by
      split
      · omega
      · omega
    dsimp only
    rw [hyear, DateTime.readTail_tailBytes hvalid]
    rfl
  of_ofContent? {b t} h := by
    obtain ⟨⟨year, rest⟩, hread, h⟩ := Option.bind_eq_some_iff.1 h
    obtain ⟨time, htail, rfl⟩ := Option.map_eq_some_iff.1 h
    obtain ⟨hyear, hvalid, rfl⟩ := DateTime.of_readTail htail
    obtain ⟨rfl, hlt⟩ := of_readDecimal hread
    -- two digits stand for no year after 2049
    have hlast : time.year ≤ 2049 ∧ time.year % 100 = year := by
      split at hyear
      · omega
      · omega
    refine ⟨⟨hvalid, hlast.1⟩, ?_⟩
    rw [← hlast.2]
    exact .refl

instance : Checked Time :=
  ⟨fun
    | .utc t => Valid t
    | .general t => Valid t⟩

instance : LawfulEncoding Time where
  accepts_toElement t := by cases t <;> rfl
  ofElement?_toElement {t} ht hlength := by
    cases t with
    | utc t => exact (if_pos rfl).trans (map_ofElement? ht hlength)
    | general t => exact (if_neg (by rintro ⟨⟩)).trans (map_ofElement? ht hlength)
  of_ofElement? {e t} h := by
    by_cases htag : e.tag = .universal .utcTime
    · obtain ⟨a, rfl, ha⟩ := of_map_ofElement? ((if_pos htag).symm.trans h)
      exact ha
    · obtain ⟨a, rfl, ha⟩ := of_map_ofElement? ((if_neg htag).symm.trans h)
      exact ha

end PkiEnroll.Der
