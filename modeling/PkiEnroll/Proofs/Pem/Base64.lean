import Mathlib.Tactic.Common
import PkiEnroll.Pem.Base64

namespace PkiEnroll.Base64

theorem value?_digit : ∀ n < 64, value? (digit n) = some n := by decide

theorem digit_ne_filling : ∀ n < 64, digit n ≠ 61 := by decide

theorem digit_plain : ∀ n < 64, isBlank (digit n) = false ∧ digit n ≠ 45 ∧ digit n < 128 := by decide

theorem sextet_lt (m : Nat) : m % 64 < 64 := Nat.mod_lt m (by decide)

theorem ofNat_eq {n : Nat} {c : UInt8} (h : n = c.toNat) : UInt8.ofNat n = c := by
  rw [h, UInt8.ofNat_toNat]

/-- What is written is digits of six bits each, from which the bytes are put together again, and at most
two equals signs behind them. -/
theorem exists_sextets (b : Bytes) :
    ∃ sextets count, encode b = sextets.map digit ++ List.replicate count 61 ∧
      (∀ n ∈ sextets, n < 64) ∧ count ≤ 2 ∧ ofSextets sextets = b := by
  fun_induction encode b with
  | case1 a b c rest n ih =>
    have ha := a.toNat_lt
    have hb := b.toNat_lt
    have hc := c.toNat_lt
    obtain ⟨sextets, count, hencode, hlt, hcount, hback⟩ := ih
    refine ⟨n / 262144 :: n / 4096 % 64 :: n / 64 % 64 :: n % 64 :: sextets, count, ?_, ?_, hcount, ?_⟩
    · rw [hencode]
      rfl
    · have hfirst : n / 262144 < 64 := by omega
      simpa [hfirst, sextet_lt] using hlt
    · rw [ofSextets, ofNat_eq (c := a) (by omega), ofNat_eq (c := b) (by omega),
        ofNat_eq (c := c) (by omega), hback]
  | case2 a b n =>
    have ha := a.toNat_lt
    have hb := b.toNat_lt
    refine ⟨[n / 1024, n / 16 % 64, n * 4 % 64], 1, rfl, ?_, by decide, ?_⟩
    · have hfirst : n / 1024 < 64 := by omega
      simp [hfirst, sextet_lt]
    · rw [ofSextets, ofNat_eq (c := a) (by omega), ofNat_eq (c := b) (by omega)]
  | case3 a =>
    have ha := a.toNat_lt
    refine ⟨[a.toNat / 4, a.toNat * 16 % 64], 2, rfl, ?_, by decide, ?_⟩
    · have hfirst : a.toNat / 4 < 64 := by omega
      simp [hfirst, sextet_lt]
    · rw [ofSextets, ofNat_eq (c := a) (by omega)]
  | case4 => exact ⟨[], 0, rfl, by simp, by decide, rfl⟩

theorem plain_of_mem_encode {b : Bytes} {c : UInt8} (h : c ∈ encode b) :
    isBlank c = false ∧ c ≠ 45 ∧ c < 128 := by
  obtain ⟨sextets, count, hencode, hlt, -⟩ := exists_sextets b
  rw [hencode] at h
  rcases List.mem_append.1 h with hdigit | hfilling
  · obtain ⟨n, hn, rfl⟩ := List.mem_map.1 hdigit
    exact digit_plain n (hlt n hn)
  · rw [List.eq_of_mem_replicate hfilling]
    decide

theorem mapM_value?_digit {sextets : List Nat} (h : ∀ n ∈ sextets, n < 64) :
    (sextets.map digit).mapM value? = some sextets := by
  induction sextets with
  | nil => rfl
  | cons n sextets ih =>
    obtain ⟨hn, hrest⟩ := List.forall_mem_cons.1 h
    rw [List.map_cons, List.mapM_cons, value?_digit n hn, ih hrest]
    rfl

theorem decode?_of_filter {text b : Bytes} (h : text.filter (fun c => !isBlank c) = encode b) :
    decode? text = some b := by
  obtain ⟨sextets, count, hencode, hlt, hcount, hback⟩ := exists_sextets b
  have hdigits : ∀ c ∈ sextets.map digit, decide (c ≠ 61) = true := by
    intro c hc
    obtain ⟨n, hn, rfl⟩ := List.mem_map.1 hc
    exact decide_eq_true (digit_ne_filling n (hlt n hn))
  have hfilling : (encode b).dropWhile (· ≠ 61) = List.replicate count 61 := by
    rw [hencode, List.dropWhile_append_of_pos hdigits]
    cases count with
    | zero => rfl
    | succ count => rfl
  have hfront : (encode b).takeWhile (· ≠ 61) = sextets.map digit := by
    rw [hencode, List.takeWhile_append_of_pos hdigits]
    cases count with
    | zero => exact List.append_nil _
    | succ count => exact List.append_nil _
  have hshort : (List.replicate count (61 : UInt8)).length ≤ 2 ∧
      (List.replicate count (61 : UInt8)).all (· = 61) = true := by
    refine ⟨by rw [List.length_replicate]; exact hcount, ?_⟩
    rw [List.all_eq_true]
    intro c hc
    exact decide_eq_true (List.eq_of_mem_replicate hc)
  unfold decode?
  simp only [h, hfilling, hfront, if_pos hshort, mapM_value?_digit hlt, Option.map_some, hback]

end PkiEnroll.Base64
