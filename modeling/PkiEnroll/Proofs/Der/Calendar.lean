import Mathlib.Algebra.BigOperators.Group.List.Basic
import Mathlib.Data.List.GetD
import PkiEnroll.Proofs.Der.Time

namespace PkiEnroll.Der.DateTime

theorem locate_of_lt_sum {spans : List Nat} {day : Nat} (h : day < spans.sum) :
    ∃ n rest, ∃ hn : n < spans.length, locate spans day = (n, rest) ∧ rest < spans[n] ∧
      (spans.take n).sum + rest = day := by
  induction spans generalizing day with
  | nil => simp at h
  | cons span spans ih =>
    rw [List.sum_cons] at h
    unfold locate
    split
    next hday => exact ⟨0, day, Nat.succ_pos _, rfl, hday, Nat.zero_add day⟩
    next hday =>
      obtain ⟨n, rest, hn, hlocate, hrest, hsum⟩ := ih (by omega : day - span < spans.sum)
      refine ⟨n + 1, rest, Nat.succ_lt_succ hn, by rw [hlocate], hrest, ?_⟩
      rw [List.take_succ_cons, List.sum_cons]
      omega

theorem locate_sum_take_add {spans : List Nat} {n rest : Nat} (hn : n < spans.length)
    (h : rest < spans[n]) : locate spans ((spans.take n).sum + rest) = (n, rest) := by
  induction spans generalizing n with
  | nil => cases hn
  | cons span spans ih =>
    cases n with
    | zero =>
      have hfirst : 0 + rest < span := by rw [Nat.zero_add]; exact h
      rw [List.take_zero, List.sum_nil, locate, if_pos hfirst, Nat.zero_add]
    | succ n =>
      have hlater : ¬span + (spans.take n).sum + rest < span := by omega
      have hrest : span + (spans.take n).sum + rest - span = (spans.take n).sum + rest := by omega
      rw [List.take_succ_cons, List.sum_cons, locate, if_neg hlater, hrest,
        ih (Nat.lt_of_succ_lt_succ hn) h]

theorem sum_take_add_lt {spans : List Nat} {n rest : Nat} (hn : n < spans.length)
    (h : rest < spans[n]) : (spans.take n).sum + rest < spans.sum := by
  rw [← List.sum_take_add_sum_drop spans n, List.drop_eq_getElem_cons hn, List.sum_cons]
  omega

/-- Every fourth year is a leap year, every hundredth is not, every four-hundredth is. -/
theorem daysToYear_eq (n : Nat) :
    daysToYear n = 365 * n + (n + 1) / 4 - (n + 69) / 100 + (n + 369) / 400 := by
  induction n with
  | zero => rfl
  | succ n ih =>
    have hdays : yearDays (1970 + n) =
        if (1970 + n) % 4 = 0 ∧ ((1970 + n) % 100 ≠ 0 ∨ (1970 + n) % 400 = 0) then 366 else 365 := by
      simp [yearDays, isLeap]
    rw [daysToYear, ih, hdays]
    split
    · omega
    · omega

theorem daysToYear_mono {m n : Nat} (h : m ≤ n) : daysToYear m ≤ daysToYear n :=
  monotone_nat_of_le_succ (f := daysToYear) (fun _ => Nat.le_add_right _ _) h

def yearLengths : List Nat := (List.range 8030).map fun n => yearDays (1970 + n)

theorem length_yearLengths : yearLengths.length = 8030 := by simp [yearLengths]

theorem sum_take_yearLengths {n : Nat} (h : n ≤ 8030) : (yearLengths.take n).sum = daysToYear n := by
  rw [yearLengths, ← List.map_take, List.take_range, Nat.min_eq_left h]
  clear h
  induction n with
  | zero => rfl
  | succ n ih => rw [List.range_succ, List.map_append, List.sum_append, ih, daysToYear]; simp

theorem sum_yearLengths : yearLengths.sum = 2932897 := by
  have hall := sum_take_yearLengths (Nat.le_refl 8030)
  rw [← length_yearLengths, List.take_length, length_yearLengths, daysToYear_eq] at hall
  exact hall

theorem getElem_yearLengths {n : Nat} (h : n < yearLengths.length) :
    yearLengths[n] = yearDays (1970 + n) := by simp [yearLengths]

theorem daysToMonth_eq (year months : Nat) :
    daysToMonth year months = ((monthLengths year).take months).sum := by
  rw [daysToMonth, List.sum_eq_foldl]

theorem sum_monthLengths (year : Nat) : (monthLengths year).sum = yearDays year := by
  unfold monthLengths yearDays
  split
  · rfl
  · rfl

theorem getElem_monthLengths {year n : Nat} (h : n < (monthLengths year).length) :
    (monthLengths year)[n] = monthDays year (n + 1) := by
  rw [monthDays, Nat.add_sub_cancel, List.getD_eq_getElem _ 0 h]

theorem ofUnix_eq {seconds years day months rest : Nat}
    (hyear : locate yearLengths (seconds / 86400) = (years, day))
    (hmonth : locate (monthLengths (1970 + years)) day = (months, rest)) :
    ofUnix seconds = ⟨1970 + years, months + 1, rest + 1, seconds % 86400 / 3600,
      seconds % 86400 / 60 % 60, seconds % 86400 % 60⟩ := by
  rw [yearLengths] at hyear
  simp only [ofUnix, hyear, hmonth]

/-- Every second up to the end of 9999 is a second of the date that is found for it. -/
theorem ofUnix_spec {seconds : Nat} (h : seconds ≤ maxUnix) :
    (ofUnix seconds).isValid = true ∧ (ofUnix seconds).toUnix = seconds := by
  have hday : seconds / 86400 < yearLengths.sum := by
    rw [sum_yearLengths]
    unfold maxUnix at h
    omega
  obtain ⟨years, day, hyears, hyear, hinYear, hsumYear⟩ := locate_of_lt_sum hday
  have hdayMonth : day < (monthLengths (1970 + years)).sum := by
    rw [sum_monthLengths, ← getElem_yearLengths hyears]
    exact hinYear
  obtain ⟨months, rest, hmonths, hmonth, hinMonth, hsumMonth⟩ := locate_of_lt_sum hdayMonth
  rw [getElem_monthLengths] at hinMonth
  rw [length_yearLengths] at hyears
  have htwelve : months < 12 := hmonths
  rw [sum_take_yearLengths (Nat.le_of_lt hyears)] at hsumYear
  rw [ofUnix_eq hyear hmonth]
  constructor
  · rw [isValid_iff]
    dsimp only
    omega
  · simp only [toUnix, Nat.add_sub_cancel, Nat.add_sub_cancel_left, daysToMonth_eq]
    omega

example : ofUnix 951782400 = ⟨2000, 2, 29, 0, 0, 0⟩ := by decide +kernel

def yearDay (t : DateTime) : Nat := daysToMonth t.year (t.month - 1) + (t.day - 1)

def clock (t : DateTime) : Nat := 3600 * t.hour + 60 * t.minute + t.second

theorem toUnix_eq (t : DateTime) :
    t.toUnix = 86400 * (daysToYear (t.year - 1970) + t.yearDay) + t.clock := by
  simp only [toUnix, yearDay, clock]
  omega

variable {t u : DateTime}

theorem month_of_isValid (h : t.isValid = true) :
    ∃ hn : t.month - 1 < (monthLengths t.year).length, t.day - 1 < (monthLengths t.year)[t.month - 1] := by
  obtain ⟨-, -, hfirst, hlast, hday, hdays, -⟩ := isValid_iff.1 h
  have hn : t.month - 1 < (monthLengths t.year).length := by
    change t.month - 1 < 12
    omega
  refine ⟨hn, ?_⟩
  rw [getElem_monthLengths, Nat.sub_add_cancel hfirst]
  omega

theorem yearDay_lt (h : t.isValid = true) : t.yearDay < yearDays t.year := by
  obtain ⟨hn, hday⟩ := month_of_isValid h
  rw [yearDay, daysToMonth_eq, ← sum_monthLengths]
  exact sum_take_add_lt hn hday

theorem clock_lt (h : t.isValid = true) : t.clock < 86400 := by
  obtain ⟨-, -, -, -, -, -, hhour, hminute, hsecond⟩ := isValid_iff.1 h
  unfold clock
  omega

theorem ofUnix_toUnix (h : t.isValid = true) : ofUnix t.toUnix = t := by
  obtain ⟨hfirst, hlast, hmonth, -, hday, -, hhour, hminute, hsecond⟩ := isValid_iff.1 h
  have hclock := clock_lt h
  have hdays : t.toUnix / 86400 = daysToYear (t.year - 1970) + t.yearDay := by
    rw [toUnix_eq]
    omega
  have hrest : t.toUnix % 86400 = t.clock := by
    rw [toUnix_eq]
    omega
  have hyear : 1970 + (t.year - 1970) = t.year := by omega
  have hyears : t.year - 1970 < yearLengths.length := by
    rw [length_yearLengths]
    omega
  have hinYear : t.yearDay < yearLengths[t.year - 1970] := by
    rw [getElem_yearLengths, hyear]
    exact yearDay_lt h
  have hfoundYear : locate yearLengths (t.toUnix / 86400) = (t.year - 1970, t.yearDay) := by
    rw [hdays, ← sum_take_yearLengths (by omega)]
    exact locate_sum_take_add hyears hinYear
  obtain ⟨hmonths, hinMonth⟩ := month_of_isValid h
  have hfoundMonth : locate (monthLengths (1970 + (t.year - 1970))) t.yearDay =
      (t.month - 1, t.day - 1) := by
    rw [hyear, yearDay, daysToMonth_eq]
    exact locate_sum_take_add hmonths hinMonth
  have hclockHour : t.clock / 3600 = t.hour := by
    unfold clock
    omega
  have hclockMinute : t.clock / 60 % 60 = t.minute := by
    unfold clock
    omega
  have hclockSecond : t.clock % 60 = t.second := by
    unfold clock
    omega
  rw [ofUnix_eq hfoundYear hfoundMonth, hrest, hyear, Nat.sub_add_cancel hmonth,
    Nat.sub_add_cancel hday, hclockHour, hclockMinute, hclockSecond]

theorem toUnix_bounds (h : t.isValid = true) :
    86400 * daysToYear (t.year - 1970) ≤ t.toUnix ∧
      t.toUnix < 86400 * daysToYear (t.year - 1970 + 1) := by
  obtain ⟨hfirst, -⟩ := isValid_iff.1 h
  have hday := yearDay_lt h
  have hclock := clock_lt h
  rw [daysToYear, Nat.add_sub_cancel' hfirst, toUnix_eq]
  omega

theorem year_lt_iff (h : t.isValid = true) {year : Nat} (hyear : 1970 ≤ year) :
    t.year < year ↔ t.toUnix < 86400 * daysToYear (year - 1970) := by
  obtain ⟨hfirst, -⟩ := isValid_iff.1 h
  obtain ⟨hlow, hhigh⟩ := toUnix_bounds h
  constructor
  · intro hlt
    have hmono := daysToYear_mono (by omega : t.year - 1970 + 1 ≤ year - 1970)
    omega
  · intro hlt
    by_contra hge
    have hmono := daysToYear_mono (by omega : year - 1970 ≤ t.year - 1970)
    omega

theorem toUnix_of_year (year : Nat) :
    toUnix ⟨year, 1, 1, 0, 0, 0⟩ = 86400 * daysToYear (year - 1970) := by
  simp [toUnix, daysToMonth]

end PkiEnroll.Der.DateTime

namespace PkiEnroll.Der

namespace Instant

/-- The instant at which a second begins. -/
def ofDateTime (d : DateTime) : Instant := .ofSeconds d.toUnix 0

/-- From the beginning of 1970 to the beginning of the last second of 9999. -/
def IsRepresentable (t : Instant) : Prop :=
  (ofDateTime ⟨1970, 1, 1, 0, 0, 0⟩).nanoseconds ≤ t.nanoseconds ∧
    t.nanoseconds ≤ (ofDateTime ⟨9999, 12, 31, 23, 59, 59⟩).nanoseconds

theorem isRepresentable_iff {t : Instant} :
    t.IsRepresentable ↔ 0 ≤ t.nanoseconds ∧ t.nanoseconds ≤ 1000000000 * DateTime.maxUnix := by
  have hlast : DateTime.toUnix ⟨9999, 12, 31, 23, 59, 59⟩ = DateTime.maxUnix := by
    rw [DateTime.toUnix, DateTime.daysToYear_eq]
    rfl
  simp only [IsRepresentable, ofDateTime, ofSeconds, hlast, DateTime.toUnix_of_year]
  simp [DateTime.daysToYear]

instance (t : Instant) : Decidable t.IsRepresentable := decidable_of_iff _ isRepresentable_iff.symm

/-- The dates of representable instants are those of their seconds. -/
theorem toDateTime?_eq_some_iff {t : Instant} {d : DateTime} :
    t.toDateTime? = some d ↔
      t.IsRepresentable ∧ d.isValid = true ∧ (d.toUnix : Int) = t.nanoseconds / 1000000000 := by
  rw [isRepresentable_iff, toDateTime?, Option.ite_none_right_eq_some]
  refine and_congr_right fun h => ?_
  have hseconds : t.nanoseconds.toNat / 1000000000 ≤ DateTime.maxUnix := by omega
  constructor
  · intro hd
    obtain rfl := Option.some.inj hd
    obtain ⟨hvalid, hunix⟩ := DateTime.ofUnix_spec hseconds
    refine ⟨hvalid, ?_⟩
    rw [hunix]
    omega
  · intro hd
    obtain ⟨hvalid, hunix⟩ := hd
    have hsame : t.nanoseconds.toNat / 1000000000 = d.toUnix := by omega
    rw [hsame, DateTime.ofUnix_toUnix hvalid]

theorem exists_toDateTime?_iff {t : Instant} : (∃ d, t.toDateTime? = some d) ↔ t.IsRepresentable := by
  constructor
  · intro h
    obtain ⟨d, hd⟩ := h
    exact (toDateTime?_eq_some_iff.1 hd).1
  · intro h
    exact ⟨_, if_pos (isRepresentable_iff.1 h)⟩

end Instant

namespace Time

/-- A time that stands for the second of an instant, written as UTCTime up to the end of 2049 and as
GeneralizedTime after it. -/
structure Marks (time : Time) (t : Instant) : Prop where
  valid : time.dateTime.isValid = true
  second : (time.dateTime.toUnix : Int) = t.nanoseconds / 1000000000
  form : time =
    if t.nanoseconds < (Instant.ofDateTime ⟨2050, 1, 1, 0, 0, 0⟩).nanoseconds then utc ⟨time.dateTime⟩
    else general ⟨time.dateTime⟩

theorem dateTime_ofDateTime (d : DateTime) : (ofDateTime d).dateTime = d := by
  unfold ofDateTime
  split
  · rfl
  · rfl

theorem valid_ofDateTime {d : DateTime} (h : d.isValid = true) : Valid (ofDateTime d) := by
  unfold ofDateTime
  split
  next hyear => exact ⟨h, hyear⟩
  next => exact h

theorem marks_ofDateTime {t : Instant} {d : DateTime} (h : t.toDateTime? = some d) :
    (ofDateTime d).Marks t := by
  obtain ⟨-, hvalid, hsecond⟩ := Instant.toDateTime?_eq_some_iff.1 h
  have hyear : d.year ≤ 2049 ↔
      t.nanoseconds < (Instant.ofDateTime ⟨2050, 1, 1, 0, 0, 0⟩).nanoseconds := by
    have hbefore := DateTime.year_lt_iff hvalid (by decide : 1970 ≤ 2050)
    rw [Instant.ofDateTime, Instant.ofSeconds, DateTime.toUnix_of_year]
    dsimp only
    omega
  refine ⟨?_, ?_, ?_⟩
  · rw [dateTime_ofDateTime]
    exact hvalid
  · rw [dateTime_ofDateTime]
    exact hsecond
  · rw [dateTime_ofDateTime, ofDateTime]
    simp only [hyear]

theorem Marks.toUnix_le {a b : Time} {t u : Instant} (ha : a.Marks t) (hb : b.Marks u)
    (h : t.nanoseconds ≤ u.nanoseconds) : a.dateTime.toUnix ≤ b.dateTime.toUnix := by
  have hfirst := ha.second
  have hlater := hb.second
  omega

end Time

end PkiEnroll.Der
