import Mathlib.Algebra.Order.Group.Unbundled.Int
import Mathlib.Algebra.BigOperators.Group.List.Basic
import Mathlib.Data.List.GetD
import Mathlib.Tactic.IntervalCases

/-!
# The proleptic Gregorian calendar

Days are numbered from 1970-01-01 on, in both directions, and so are seconds.  `dayNumber` is the number
of a date, and `IsCivil t c` says that `c` is the civil date and time of the second `t`.  Months count
from 0, days from 1, weekdays from Sunday.

* `daysBeforeYear_succ` : the years have 365 or 366 days.
* `IsCivil.unique` : a second has only one civil date and time.
-/

namespace OsdCore

/-! ### Years and months -/

/-- A leap year. -/
def isLeap (year : ℤ) : Bool := year % 4 = 0 ∧ (year % 100 ≠ 0 ∨ year % 400 = 0)

/-- The number of days before a year. -/
def daysBeforeYear (year : ℤ) : ℤ :=
  365 * (year - 1970) + ((year - 1) / 4 - (year - 1) / 100 + (year - 1) / 400 - 477)

example : daysBeforeYear 1970 = 0 := by decide

/-- The next year is 365 or 366 days later. -/
theorem daysBeforeYear_succ (year : ℤ) :
    daysBeforeYear (year + 1) = daysBeforeYear year + if isLeap year then 366 else 365 := by
  unfold daysBeforeYear isLeap
  simp only [decide_eq_true_eq]
  split_ifs <;> omega

theorem daysBeforeYear_mono {year year' : ℤ} (h : year ≤ year') :
    daysBeforeYear year ≤ daysBeforeYear year' := by
  refine monotone_int_of_le_succ (fun year => ?_) h
  rw [daysBeforeYear_succ]
  split_ifs <;> omega

/-- The lengths of the months. -/
def monthLengths (leap : Bool) : List ℤ :=
  [31, if leap then 29 else 28, 31, 30, 31, 30, 31, 31, 30, 31, 30, 31]

def monthLength (leap : Bool) (month : ℕ) : ℤ := (monthLengths leap).getD month 0

/-- The number of days before a month, in its year. -/
def daysBeforeMonth (leap : Bool) (month : ℕ) : ℤ := ((monthLengths leap).take month).sum

theorem monthLength_nonneg (leap : Bool) (month : ℕ) : 0 ≤ monthLength leap month := by
  have hall : ∀ l ∈ monthLengths leap, 0 ≤ l := by cases leap <;> decide
  rcases lt_or_ge month (monthLengths leap).length with hlt | hge
  · rw [monthLength, List.getD_eq_getElem _ _ hlt]
    exact hall _ (List.getElem_mem hlt)
  · rw [monthLength, List.getD_eq_default _ _ hge]

theorem daysBeforeMonth_succ (leap : Bool) (month : ℕ) :
    daysBeforeMonth leap (month + 1) = daysBeforeMonth leap month + monthLength leap month := by
  rcases lt_or_ge month (monthLengths leap).length with hlt | hge
  · rw [daysBeforeMonth, daysBeforeMonth, monthLength, List.take_succ_eq_append_getElem hlt,
      List.sum_append, List.sum_singleton, List.getD_eq_getElem _ _ hlt]
  · rw [daysBeforeMonth, daysBeforeMonth, monthLength, List.getD_eq_default _ _ hge,
      List.take_of_length_le hge, List.take_of_length_le (by omega), add_zero]

theorem daysBeforeMonth_mono (leap : Bool) {month month' : ℕ} (h : month ≤ month') :
    daysBeforeMonth leap month ≤ daysBeforeMonth leap month' := by
  refine monotone_nat_of_le_succ (fun month => ?_) h
  rw [daysBeforeMonth_succ]
  have := monthLength_nonneg leap month
  omega

theorem daysBeforeMonth_twelve (leap : Bool) :
    daysBeforeMonth leap 12 = if leap then 366 else 365 := by
  cases leap <;> decide

/-! ### Civil dates -/

/-- A date and a time of the day. -/
structure Civil where
  year : ℤ
  month : ℕ
  day : ℤ
  hour : ℤ
  minute : ℤ
  second : ℤ
  weekday : ℤ
  yearday : ℤ
deriving DecidableEq, Repr

/-- The number of a date, the day counting from 1. -/
def dayNumber (year : ℤ) (month : ℕ) (day : ℤ) : ℤ :=
  daysBeforeYear year + daysBeforeMonth (isLeap year) month + (day - 1)

/-- **The civil date and time** of a second. -/
structure IsCivil (t : ℤ) (c : Civil) : Prop where
  month : c.month < 12
  day_pos : 1 ≤ c.day
  day_le : c.day ≤ monthLength (isLeap c.year) c.month
  hour : 0 ≤ c.hour ∧ c.hour < 24
  minute : 0 ≤ c.minute ∧ c.minute < 60
  second : 0 ≤ c.second ∧ c.second < 60
  seconds : t = dayNumber c.year c.month c.day * 86400 + c.hour * 3600 + c.minute * 60 + c.second
  -- 1970-01-01 was a Thursday
  weekday : c.weekday = (dayNumber c.year c.month c.day + 4) % 7
  yearday : c.yearday = dayNumber c.year c.month c.day - daysBeforeYear c.year

namespace IsCivil

variable {t : ℤ} {c c' : Civil}

theorem yearday_eq (h : IsCivil t c) :
    c.yearday = daysBeforeMonth (isLeap c.year) c.month + (c.day - 1) := by
  rw [h.yearday, dayNumber]
  omega

/-- The day lies in its month. -/
theorem yearday_mem (h : IsCivil t c) :
    daysBeforeMonth (isLeap c.year) c.month ≤ c.yearday ∧
      c.yearday < daysBeforeMonth (isLeap c.year) (c.month + 1) := by
  have hpos := h.day_pos
  have hle := h.day_le
  rw [daysBeforeMonth_succ, h.yearday_eq]
  omega

/-- The day lies in its year. -/
theorem dayNumber_mem (h : IsCivil t c) :
    daysBeforeYear c.year ≤ dayNumber c.year c.month c.day ∧
      dayNumber c.year c.month c.day < daysBeforeYear (c.year + 1) := by
  obtain ⟨hge, hlt⟩ := h.yearday_mem
  have hfirst : daysBeforeMonth (isLeap c.year) 0 = 0 := rfl
  have h0 := daysBeforeMonth_mono (isLeap c.year) (Nat.zero_le c.month)
  have h12 := daysBeforeMonth_mono (isLeap c.year) (show c.month + 1 ≤ 12 from h.month)
  have hyear := h.yearday
  rw [daysBeforeMonth_twelve] at h12
  rw [daysBeforeYear_succ]
  omega

/-- The day of a second. -/
theorem dayNumber_eq (h : IsCivil t c) : dayNumber c.year c.month c.day = t / 86400 := by
  have hs := h.seconds
  have hh := h.hour
  have hm := h.minute
  have hsec := h.second
  omega

/-- A year is known by the days it has. -/
theorem year_eq (h : IsCivil t c) {year : ℤ} (hge : daysBeforeYear year ≤ t / 86400)
    (hlt : t / 86400 < daysBeforeYear (year + 1)) : c.year = year := by
  have hmem := h.dayNumber_mem
  rw [h.dayNumber_eq] at hmem
  rcases lt_trichotomy c.year year with hless | heq | hmore
  · have hmono := daysBeforeYear_mono (show c.year + 1 ≤ year by omega)
    omega
  · exact heq
  · have hmono := daysBeforeYear_mono (show year + 1 ≤ c.year by omega)
    omega

theorem day_le_31 (h : IsCivil t c) : c.day ≤ 31 := by
  have hall : ∀ leap, ∀ month < 12, monthLength leap month ≤ 31 := by decide
  exact h.day_le.trans (hall _ _ h.month)

/-- The years of the seconds that a `long` holds, and of the hours after them. -/
theorem year_mem (h : IsCivil t c) (h0 : 0 ≤ t) (ht : t < 2 ^ 31 + 86400) :
    1970 ≤ c.year ∧ c.year ≤ 2038 := by
  obtain ⟨hge, hlt⟩ := h.dayNumber_mem
  rw [h.dayNumber_eq] at hge hlt
  have h1970 : daysBeforeYear 1970 = 0 := by decide
  have h2039 : daysBeforeYear 2039 = 25202 := by decide
  constructor
  · by_contra hless
    have hmono := daysBeforeYear_mono (show c.year + 1 ≤ 1970 by omega)
    omega
  · by_contra hmore
    have hmono := daysBeforeYear_mono (show 2039 ≤ c.year by omega)
    omega

/-- Days of the same number lie in the same month. -/
theorem month_le (h : IsCivil t c) (h' : IsCivil t c') (hyear : c.year = c'.year) :
    c.month ≤ c'.month := by
  by_contra hlt
  have hmono := daysBeforeMonth_mono (isLeap c.year) (show c'.month + 1 ≤ c.month by omega)
  have hmem := h.yearday_mem
  have hmem' := h'.yearday_mem
  rw [h.yearday, h.dayNumber_eq] at hmem
  rw [h'.yearday, h'.dayNumber_eq, ← hyear] at hmem'
  omega

/-- **A second has one civil date and time.** -/
theorem unique (h : IsCivil t c) (h' : IsCivil t c') : c = c' := by
  have hyear : c.year = c'.year := by
    have hmem := h'.dayNumber_mem
    rw [h'.dayNumber_eq] at hmem
    exact h.year_eq hmem.1 hmem.2
  have hmonth : c.month = c'.month :=
    le_antisymm (h.month_le h' hyear) (h'.month_le h hyear.symm)
  have hday : c.yearday = c'.yearday := by
    rw [h.yearday, h'.yearday, h.dayNumber_eq, h'.dayNumber_eq, hyear]
  have hweekday : c.weekday = c'.weekday := by
    rw [h.weekday, h'.weekday, h.dayNumber_eq, h'.dayNumber_eq]
  have hmday : c.day = c'.day := by
    rw [h.yearday_eq, h'.yearday_eq, hyear, hmonth] at hday
    omega
  have hs := h.seconds
  have hs' := h'.seconds
  rw [h.dayNumber_eq] at hs
  rw [h'.dayNumber_eq] at hs'
  obtain ⟨hh0, hh⟩ := h.hour
  obtain ⟨hm0, hm⟩ := h.minute
  obtain ⟨hs0, hs1⟩ := h.second
  obtain ⟨hh0', hh'⟩ := h'.hour
  obtain ⟨hm0', hm'⟩ := h'.minute
  obtain ⟨hs0', hs1'⟩ := h'.second
  cases c
  cases c'
  simp only [Civil.mk.injEq] at *
  omega

end IsCivil

end OsdCore
