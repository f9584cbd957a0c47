import Mathlib.Algebra.Group.Nat.Defs
import PkiEnroll.Der.Integer
import PkiEnroll.Proofs.Der.Codec

namespace PkiEnroll.Bytes

theorem capacity_pos (width : Nat) : 0 < capacity width := by
  rw [capacity, Nat.one_shiftLeft]
  exact Nat.two_pow_pos _

theorem toNat_cons (x : UInt8) (b : Bytes) :
    toNat (x :: b) = x.toNat * capacity b.length + toNat b := by
  have h := toNat_append [x] b
  simpa [toNat] using h

theorem toNat_lt_capacity (b : Bytes) : toNat b < capacity b.length := by
  induction b with
  | nil => decide
  | cons x b ih =>
    have hx : x.toNat ≤ 255 := Nat.le_of_lt_succ x.toNat_lt
    have hmul := Nat.mul_le_mul_right (capacity b.length) hx
    rw [toNat_cons, List.length_cons, capacity_succ]
    omega

theorem toNat_inj {a b : Bytes} (hlength : a.length = b.length) (h : toNat a = toNat b) :
    a = b := by
  induction a generalizing b with
  | nil => exact (List.length_eq_zero_iff.1 hlength.symm).symm
  | cons x a ih =>
    obtain ⟨y, b, rfl⟩ := List.exists_cons_of_length_eq_add_one hlength.symm
    have hlength' : a.length = b.length := Nat.succ.inj hlength
    have ha := toNat_lt_capacity a
    have hb := toNat_lt_capacity b
    rw [toNat_cons, toNat_cons, hlength'] at h
    rw [hlength'] at ha
    have hx : x.toNat = y.toNat := by
      have hdiv := congrArg (· / capacity b.length) h
      simpa [Nat.mul_comm _ (capacity b.length), Nat.mul_add_div (capacity_pos _), Nat.div_eq_of_lt ha,
        Nat.div_eq_of_lt hb] using hdiv
    rw [hx] at h
    rw [UInt8.toNat_inj.1 hx, ih hlength' (Nat.add_left_cancel h)]

theorem ofNat_toNat (b : Bytes) : ofNat b.length (toNat b) = b :=
  toNat_inj (length_ofNat _ _) (toNat_ofNat (toNat_lt_capacity b))

theorem bitLength_le_iff {n k : Nat} : bitLength n ≤ k ↔ n < 2 ^ k := by
  unfold bitLength
  by_cases hn : n = 0
  · rw [if_pos hn, hn]
    exact ⟨fun _ => Nat.two_pow_pos k, fun _ => Nat.zero_le k⟩
  · rw [if_neg hn, Nat.add_one_le_iff, Nat.log2_lt hn]

end PkiEnroll.Bytes

namespace PkiEnroll.Der

namespace Integer

theorem width_le_iff {v : Int} {w : Nat} :
    width v ≤ w + 1 ↔ -(128 * Bytes.capacity w : Int) ≤ v ∧ v < 128 * Bytes.capacity w := by
  have hcapacity : 2 ^ (8 * w + 7) = 128 * Bytes.capacity w := by
    rw [Bytes.capacity, Nat.one_shiftLeft, Nat.pow_add, Nat.mul_comm]
  have hbits (n : Nat) : Bytes.bitLength n / 8 + 1 ≤ w + 1 ↔ n < 128 * Bytes.capacity w := by
    rw [← hcapacity, ← Bytes.bitLength_le_iff]
    omega
  rw [width, hbits]
  split
  · omega
  · omega

theorem value_of_lt {x : UInt8} (b : Bytes) (hx : x.toNat < 128) :
    value (x :: b) = Bytes.toNat (x :: b) :=
  if_pos (UInt8.lt_iff_toNat_lt.2 hx)

theorem value_of_ge {x : UInt8} (b : Bytes) (hx : 128 ≤ x.toNat) :
    value (x :: b) = Bytes.toNat (x :: b) - Bytes.capacity (x :: b).length :=
  if_neg fun h => Nat.not_lt.2 hx (UInt8.lt_iff_toNat_lt.1 h)

theorem mul_capacity_bounds {x low high : Nat} (w : Nat) (hlow : low ≤ x) (hhigh : x ≤ high) :
    low * Bytes.capacity w ≤ x * Bytes.capacity w ∧ x * Bytes.capacity w ≤ high * Bytes.capacity w :=
  ⟨Nat.mul_le_mul_right _ hlow, Nat.mul_le_mul_right _ hhigh⟩

theorem width_value_le (x : UInt8) (b : Bytes) : width (value (x :: b)) ≤ b.length + 1 := by
  have hb := Bytes.toNat_lt_capacity b
  rw [width_le_iff]
  by_cases hx : x.toNat < 128
  · have hproduct := mul_capacity_bounds b.length (Nat.zero_le _) (Nat.le_of_lt_succ hx)
    rw [value_of_lt b hx, Bytes.toNat_cons]
    omega
  · have hproduct := mul_capacity_bounds b.length (Nat.not_lt.1 hx) (Nat.le_of_lt_succ x.toNat_lt)
    rw [value_of_ge b (Nat.not_lt.1 hx), Bytes.toNat_cons, List.length_cons, Bytes.capacity_succ]
    omega

/-- A value of two bytes and more fits one byte less exactly when the first only repeats the sign. -/
theorem width_value_cons_cons_le_iff (x y : UInt8) (c : Bytes) :
    width (value (x :: y :: c)) ≤ c.length + 1 ↔
      x.toNat = 0 ∧ y.toNat < 128 ∨ x.toNat = 255 ∧ 128 ≤ y.toNat := by
  have hc := Bytes.toNat_lt_capacity c
  have hx := x.toNat_lt
  have hy := y.toNat_lt
  have hnat : Bytes.toNat (x :: y :: c) =
      256 * (x.toNat * Bytes.capacity c.length) + y.toNat * Bytes.capacity c.length +
        Bytes.toNat c := by
    rw [Bytes.toNat_cons, Bytes.toNat_cons, List.length_cons, Bytes.capacity_succ, Nat.mul_left_comm,
      Nat.add_assoc]
  rw [width_le_iff]
  -- omega does not see into the products with the capacity, so each case bounds them
  by_cases hsign : x.toNat < 128
  · rw [value_of_lt _ hsign, hnat]
    by_cases hzero : x.toNat = 0
    · have hnone : x.toNat * Bytes.capacity c.length = 0 := by rw [hzero, Nat.zero_mul]
      by_cases hsmall : y.toNat < 128
      · have hproduct := mul_capacity_bounds c.length (Nat.zero_le _) (Nat.le_of_lt_succ hsmall)
        omega
      · have hproduct := mul_capacity_bounds c.length (Nat.not_lt.1 hsmall) (Nat.le_of_lt_succ hy)
        omega
    · have hproduct :=
        mul_capacity_bounds c.length (Nat.pos_of_ne_zero hzero) (Nat.le_of_lt_succ hsign)
      omega
  · rw [value_of_ge _ (Nat.not_lt.1 hsign), hnat, List.length_cons, List.length_cons,
      Bytes.capacity_succ, Bytes.capacity_succ]
    by_cases hones : x.toNat = 255
    · have hall : x.toNat * Bytes.capacity c.length = 255 * Bytes.capacity c.length := by rw [hones]
      by_cases hsmall : y.toNat < 128
      · have hproduct := mul_capacity_bounds c.length (Nat.zero_le _) (Nat.le_of_lt_succ hsmall)
        omega
      · have hproduct := mul_capacity_bounds c.length (Nat.not_lt.1 hsmall) (Nat.le_of_lt_succ hy)
        omega
    · have hproduct := mul_capacity_bounds c.length (Nat.not_lt.1 hsign) (by omega : x.toNat ≤ 254)
      have hnext := mul_capacity_bounds c.length (Nat.zero_le _) (Nat.le_of_lt_succ hy)
      omega

/-- A byte string is minimal exactly when its value needs all of its bytes. -/
theorem isMinimal_cons_iff (x : UInt8) (b : Bytes) :
    isMinimal (x :: b) = true ↔ width (value (x :: b)) = b.length + 1 := by
  have hle := width_value_le x b
  cases b with
  | nil =>
    have hpos : 1 ≤ width (value [x]) := Nat.le_add_left _ _
    simp only [isMinimal, true_iff]
    exact Nat.le_antisymm hle hpos
  | cons y c =>
    have hform : isMinimal (x :: y :: c) = true ↔
        ¬(x.toNat = 0 ∧ y.toNat < 128 ∨ x.toNat = 255 ∧ 128 ≤ y.toNat) := by
      simp [isMinimal, ← UInt8.toNat_inj, UInt8.lt_iff_toNat_lt, UInt8.le_iff_toNat_le]
      omega
    rw [hform, ← width_value_cons_cons_le_iff x y c, List.length_cons]
    rw [List.length_cons] at hle
    omega

theorem value_emod (b : Bytes) :
    value b % Bytes.capacity b.length = (Bytes.toNat b : Int) % Bytes.capacity b.length := by
  cases b with
  | nil => rfl
  | cons x b =>
    by_cases hx : x.toNat < 128
    · rw [value_of_lt b hx]
    · rw [value_of_ge b (Nat.not_lt.1 hx)]
      exact Int.sub_emod_right _ _

theorem encode_of_decode? {b : Bytes} {v : Int} (h : decode? b = some v) : encode v = b := by
  obtain ⟨hminimal, heq⟩ := Option.ite_none_right_eq_some.1 h
  obtain rfl := Option.some.inj heq
  cases b with
  | nil => cases hminimal
  | cons x b =>
    have hwidth := (isMinimal_cons_iff x b).1 hminimal
    have hlt := Bytes.toNat_lt_capacity (x :: b)
    have hsmall :
        (Bytes.toNat (x :: b) : Int) % Bytes.capacity (x :: b).length = Bytes.toNat (x :: b) :=
      Int.emod_eq_of_lt (by omega) (by omega)
    change Bytes.ofNat (width (value (x :: b))) (value (x :: b) % Bytes.capacity _).toNat = _
    rw [hwidth]
    change Bytes.ofNat (x :: b).length (value (x :: b) % Bytes.capacity (x :: b).length).toNat = _
    rw [value_emod, hsmall, Int.toNat_natCast]
    exact Bytes.ofNat_toNat _

theorem eq_of_emod_eq {u v : Int} {w : Nat} (h : u % (256 * w : Nat) = v % (256 * w : Nat))
    (hu : -(128 * w : Int) ≤ u ∧ u < 128 * w) (hv : -(128 * w : Int) ≤ v ∧ v < 128 * w) : u = v := by
  have hshift : (u + 128 * w) % (256 * w : Nat) = (v + 128 * w) % (256 * w : Nat) :=
    (Int.emod_add_cancel_right _).2 h
  rw [Int.emod_eq_of_lt (by omega) (by omega), Int.emod_eq_of_lt (by omega) (by omega)] at hshift
  omega

theorem toNat_encode (v : Int) : (Bytes.toNat (encode v) : Int) = v % Bytes.capacity (width v) := by
  have hpos := Bytes.capacity_pos (width v)
  have hnonneg := Int.emod_nonneg v (b := Bytes.capacity (width v)) (by omega)
  have hlt := Int.emod_lt_of_pos v (b := Bytes.capacity (width v)) (by omega)
  have hvalue : Bytes.toNat (encode v) = (v % Bytes.capacity (width v)).toNat :=
    Bytes.toNat_ofNat (by omega)
  omega

theorem length_encode (v : Int) : (encode v).length = width v := Bytes.length_ofNat _ _

theorem value_encode_emod (v : Int) :
    value (encode v) % Bytes.capacity (width v) = v % Bytes.capacity (width v) := by
  have h := value_emod (encode v)
  rwa [length_encode, toNat_encode, Int.emod_emod] at h

theorem decode?_encode (v : Int) : decode? (encode v) = some v := by
  have hlength := length_encode v
  have hmod := value_encode_emod v
  cases hb : encode v with
  | nil =>
    rw [hb] at hlength
    exact absurd hlength.symm (Nat.succ_ne_zero _)
  | cons x b =>
    rw [hb] at hlength hmod
    rw [← hlength, List.length_cons, Bytes.capacity_succ] at hmod
    -- both numbers fit this width and agree up to a multiple of what it can hold
    have hread := width_le_iff.1 (width_value_le x b)
    have hwritten := width_le_iff.1 (Nat.le_of_eq hlength.symm)
    have hvalue : value (x :: b) = v := eq_of_emod_eq hmod hread hwritten
    refine Option.ite_none_right_eq_some.2 ⟨?_, by rw [hvalue]⟩
    rw [isMinimal_cons_iff, hvalue, ← hlength, List.length_cons]

end Integer

theorem LawfulContent.ofInteger {α : Type} [Content α] [Checked α] {toInt : α → Int}
    {ofInt? : Int → Option α}
    (hcontent : ∀ a, Content.content a = Integer.encode (toInt a))
    (hread : ∀ b, Content.ofContent? b = Integer.decode? b >>= ofInt?)
    (hvalid : ∀ a : α, Valid a) (hof : ∀ a, ofInt? (toInt a) = some a)
    (hto : ∀ {v a}, ofInt? v = some a → toInt a = v) : LawfulContent α where
  ofContent?_content {a} _ _ := by
    rw [hcontent, hread, Integer.decode?_encode]
    exact hof a
  of_ofContent? {b a} h := by
    rw [hread] at h
    obtain ⟨v, hv, ha⟩ := Option.bind_eq_some_iff.1 h
    refine ⟨hvalid a, ?_⟩
    rw [hcontent, hto ha, Integer.encode_of_decode? hv]

instance : Checked Int64 := ⟨fun _ => True⟩
instance : Checked UInt8 := ⟨fun _ => True⟩
instance : Checked UInt32 := ⟨fun _ => True⟩

instance : LawfulContent Int64 :=
  .ofInteger (fun _ => rfl) (fun _ => rfl) (fun _ => trivial)
    (fun v => by
      rw [if_pos ⟨v.minValue_le_toInt, v.toInt_le⟩, Int64.ofInt_toInt])
    (fun h => by
      obtain ⟨⟨hmin, hmax⟩, heq⟩ := Option.ite_none_right_eq_some.1 h
      obtain rfl := Option.some.inj heq
      exact Int64.toInt_ofInt_of_le hmin (Int.lt_add_one_of_le hmax))

instance : LawfulContent UInt8 :=
  .ofInteger (fun v => (rfl : Content.content v = Integer.encode v.toNat)) (fun _ => rfl)
    (fun _ => trivial)
    (fun v => by
      have hlt := v.toNat_lt_size
      rw [if_pos ⟨by omega, by omega⟩, Int.toNat_natCast, UInt8.ofNat_toNat])
    (fun h => by
      obtain ⟨⟨hnonneg, hlt⟩, heq⟩ := Option.ite_none_right_eq_some.1 h
      obtain rfl := Option.some.inj heq
      rw [UInt8.toNat_ofNat_of_lt' (by omega), Int.toNat_of_nonneg hnonneg])

instance : LawfulContent UInt32 :=
  .ofInteger (fun v => (rfl : Content.content v = Integer.encode v.toNat)) (fun _ => rfl)
    (fun _ => trivial)
    (fun v => by
      have hlt := v.toNat_lt_size
      rw [if_pos ⟨by omega, by omega⟩, Int.toNat_natCast, UInt32.ofNat_toNat])
    (fun h => by
      obtain ⟨⟨hnonneg, hlt⟩, heq⟩ := Option.ite_none_right_eq_some.1 h
      obtain rfl := Option.some.inj heq
      rw [UInt32.toNat_ofNat_of_lt' (by omega), Int.toNat_of_nonneg hnonneg])

end PkiEnroll.Der
