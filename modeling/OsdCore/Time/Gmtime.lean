import OsdCore.Time.Basic
import OsdCore.Time.Calendar

/-!
# What `gmtime` and `localtime` store

For the seconds from 1970 on that a `long` holds, the fields are those of the civil date and time
(`IsCivil`), in UTC for `gmtime` and eight hours later for `localtime`.

* `gmtimeFields_civil`, `localtimeFields_civil` : the fields.
* `conversions_civil` : the two functions.
-/

namespace OsdCore

/-- The `struct tm` of a civil date and time. -/
def Civil.toTm (c : Civil) : Tm where
  tmSec := c.second
  tmMin := c.minute
  tmHour := c.hour
  tmMday := c.day
  tmMon := c.month
  tmYear := c.year - 1900
  tmWday := c.weekday
  tmYday := c.yearday
  tmIsdst := 0

/-! ### Years and months -/

/-- The intervals of four years, between 1970 and 2038. -/
theorem daysBeforeYear_interval {k j : ℤ} (hk : 0 ≤ k) (hk' : k ≤ 17) (hj : 0 ≤ j) (hj' : j < 4) :
    daysBeforeYear (1970 + 4 * k + j) = 1461 * k + 365 * j + (if j = 3 then 1 else 0) ∧
      (isLeap (1970 + 4 * k + j) = true ↔ j = 2) := by
  unfold daysBeforeYear isLeap
  rw [decide_eq_true_eq]
  constructor
  · split_ifs <;> omega
  · omega

/-- Which year of its interval a second falls into. -/
theorem yearOfInterval_eq {tmptim r : ℤ} (h0 : 0 ≤ r) (hr : r < FOUR_YEAR_SEC) :
    ∃ j s, 0 ≤ j ∧ j < 4 ∧ yearOfInterval tmptim r = (tmptim + j, s, decide (j = 2)) ∧
      r = (365 * j + if j = 3 then 1 else 0) * 86400 + s ∧ 0 ≤ s ∧
      s < (if j = 2 then 366 else 365) * 86400 := by
  unfold yearOfInterval FOUR_YEAR_SEC YEAR_SEC DAY_SEC at *
  split_ifs with h1 h2 h3
  · refine ⟨0, r, by decide, by decide, by simp, ?_, h0, ?_⟩ <;> norm_num
    omega
  · refine ⟨1, _, by decide, by decide, rfl, ?_, ?_, ?_⟩ <;> norm_num <;> omega
  · refine ⟨2, _, by decide, by decide, rfl, ?_, ?_, ?_⟩ <;> norm_num <;> omega
  · refine ⟨3, _, by decide, by decide, rfl, ?_, ?_, ?_⟩ <;> norm_num <;> omega

/-- **The year of a second.** -/
theorem yearOf_eq {t : ℤ} (h0 : 0 ≤ t) (ht : t < 2 ^ 31) :
    ∃ year, yearOf t = (year - 1900, t - daysBeforeYear year * 86400, isLeap year) ∧
      daysBeforeYear year * 86400 ≤ t ∧ t < daysBeforeYear (year + 1) * 86400 := by
  set k := t / 126230400 with hk
  have hk0 : 0 ≤ k := by omega
  have hk17 : k ≤ 17 := by omega
  have hdiv : t.tdiv FOUR_YEAR_SEC = k := Int.tdiv_eq_ediv_of_nonneg h0
  have hfour : FOUR_YEAR_SEC = 126230400 := rfl
  have hr0 : 0 ≤ t - k * FOUR_YEAR_SEC := by rw [hfour]; omega
  have hr1 : t - k * FOUR_YEAR_SEC < FOUR_YEAR_SEC := by rw [hfour]; omega
  obtain ⟨j, s, hj, hj', heq, hr, hs0, hs⟩ := @yearOfInterval_eq (k * 4 + 70) _ hr0 hr1
  obtain ⟨hdays, hleap⟩ := daysBeforeYear_interval hk0 hk17 hj hj'
  have hleap' : isLeap (1970 + 4 * k + j) = decide (j = 2) := by
    rw [Bool.eq_iff_iff, hleap, decide_eq_true_eq]
  rw [hfour] at hr
  refine ⟨1970 + 4 * k + j, ?_, by omega, ?_⟩
  · rw [yearOf, hdiv, heq, hleap', hdays, Prod.mk.injEq, Prod.mk.injEq]
    exact ⟨by omega, by omega, rfl⟩
  · rw [daysBeforeYear_succ, hleap', hdays]
    simp only [decide_eq_true_eq]
    omega

/-- The tables hold the last day before each month. -/
theorem getD_table {leap : Bool} {month : ℕ} (h : month ≤ 12) :
    (if leap then lpdays else cdays).getD month 0 = daysBeforeMonth leap month - 1 := by
  have hall : ∀ leap, ∀ month ≤ 12,
      (if leap then lpdays else cdays).getD month 0 = daysBeforeMonth leap month - 1 := by decide
  exact hall leap month h

/-- **The month of a day of the year.** -/
theorem monthOf_eq {leap : Bool} {yday : ℤ} (h0 : 0 ≤ yday) (hlt : yday < daysBeforeMonth leap 12) :
    ∃ month : ℕ, month < 12 ∧
      monthOf (if leap then lpdays else cdays) yday =
        ((month : ℤ), yday - (daysBeforeMonth leap month - 1)) ∧
      daysBeforeMonth leap month ≤ yday ∧ yday < daysBeforeMonth leap (month + 1) := by
  set table := if leap then lpdays else cdays with htable
  have hlen : table.tail.length = 12 := by cases leap <;> rfl
  have hget : ∀ i (hi : i < table.tail.length),
      table.tail[i] = daysBeforeMonth leap (i + 1) - 1 := by
    intro i hi
    rw [← getD_table (by omega), ← htable, List.getElem_tail,
      List.getD_eq_getElem _ _ (by rw [List.length_tail] at hi; omega)]
  -- the last entry stops the loop
  have hfound : table.tail.findIdx (· ≥ yday) < table.tail.length := by
    refine List.findIdx_lt_length_of_exists ⟨table.tail[11], List.getElem_mem (by omega), ?_⟩
    rw [hget, decide_eq_true_eq]
    exact Int.le_sub_one_of_lt hlt
  refine ⟨table.tail.findIdx (· ≥ yday), by omega, ?_, ?_, ?_⟩
  · have hle : table.tail.findIdx (· ≥ yday) ≤ 12 := by omega
    rw [monthOf, htable, getD_table hle]
  · rcases Nat.eq_zero_or_pos (table.tail.findIdx (· ≥ yday)) with hzero | hpos
    · rw [hzero]
      exact h0
    · have hbefore := List.not_of_lt_findIdx (Nat.sub_lt hpos Nat.one_pos)
      rw [hget, decide_eq_false_iff_not, Nat.sub_add_cancel hpos] at hbefore
      omega
  · have hstop := List.findIdx_getElem (w := hfound)
    rw [hget, decide_eq_true_eq] at hstop
    omega

/-! ### `gmtime` -/

/-- **`gmtime`** stores the civil date and time. -/
theorem gmtimeFields_civil {t : ℤ} (h0 : 0 ≤ t) (ht : t < 2 ^ 31) :
    ∃ c, IsCivil t c ∧ gmtimeFields t = some c.toTm := by
  obtain ⟨year, hyear, hfirst, hlast⟩ := yearOf_eq h0 ht
  have hday : (t - daysBeforeYear year * 86400).tdiv DAY_SEC = t / 86400 - daysBeforeYear year := by
    rw [show DAY_SEC = 86400 from rfl, Int.tdiv_eq_ediv_of_nonneg (by omega)]
    omega
  have hlen : t / 86400 - daysBeforeYear year < daysBeforeMonth (isLeap year) 12 := by
    rw [daysBeforeYear_succ] at hlast
    rw [daysBeforeMonth_twelve]
    omega
  obtain ⟨month, hmonth, hmonthOf, hbefore, hafter⟩ := monthOf_eq (by omega) hlen
  rw [daysBeforeMonth_succ] at hafter
  -- what is left of the day
  have hrest : t - daysBeforeYear year * 86400 - (t / 86400 - daysBeforeYear year) * DAY_SEC =
      t % 86400 := by
    rw [show DAY_SEC = 86400 from rfl]
    omega
  refine ⟨⟨year, month, t / 86400 - daysBeforeYear year - (daysBeforeMonth (isLeap year) month - 1),
    t % 86400 / 3600, t % 86400 % 3600 / 60, t % 86400 % 3600 % 60, (t / 86400 + 4) % 7,
    t / 86400 - daysBeforeYear year⟩, ?_, ?_⟩
  · have hnumber : dayNumber year month (t / 86400 - daysBeforeYear year -
        (daysBeforeMonth (isLeap year) month - 1)) = t / 86400 := by
      unfold dayNumber
      omega
    refine ⟨hmonth, by simp only; omega, by simp only; omega, by simp only; omega, by simp only; omega,
      by simp only; omega, ?_, ?_, ?_⟩ <;> simp only [hnumber]
    omega
  · rw [gmtimeFields, if_neg (by omega), hyear]
    simp only [hday, hmonthOf, hrest]
    rw [Int.tdiv_eq_ediv_of_nonneg h0, Int.tdiv_eq_ediv_of_nonneg (Int.emod_nonneg t (by decide)),
      Int.tdiv_eq_ediv_of_nonneg (by omega), Int.tmod_eq_emod_of_nonneg (by unfold DAY_SEC BASE_DOW; omega)]
    simp only [Civil.toTm, Option.some.injEq, Tm.mk.injEq, DAY_SEC, BASE_DOW, true_and, and_true]
    omega

/-! ### `localtime` -/

theorem carry_of_nonneg {ltime base : ℤ} (h : 0 ≤ ltime) (hbase : 0 < base) :
    carry ltime base = (ltime % base, ltime / base) := by
  rw [carry, Int.tmod_eq_emod_of_nonneg h, Int.tdiv_eq_ediv_of_nonneg h,
    if_neg (not_lt.2 (Int.emod_nonneg ltime hbase.ne'))]

/-- **The fields near the ends of the range**: eight hours later is on the same day or the next one, which
is in the same month. -/
theorem addTimezone_civil {t : ℤ} {c : Civil} (h : IsCivil t c)
    (hnext : c.day + 1 ≤ monthLength (isLeap c.year) c.month) :
    ∃ c', IsCivil (t + 28800) c' ∧ addTimezone c.toTm = c'.toTm := by
  obtain ⟨hh0, hh1⟩ := h.hour
  obtain ⟨hm0, hm1⟩ := h.minute
  obtain ⟨hs0, hs1⟩ := h.second
  have hsec : carry (c.second - timezone) 60 = (c.second, 480) := by
    rw [carry_of_nonneg (by unfold timezone; omega) (by decide), timezone, Prod.mk.injEq]
    omega
  have hmin : carry (c.minute + 480) 60 = (c.minute, 8) := by
    rw [carry_of_nonneg (by omega) (by decide), Prod.mk.injEq]
    omega
  have hhour : carry (c.hour + 8) 24 = ((c.hour + 8) % 24, (c.hour + 8) / 24) :=
    carry_of_nonneg (by omega) (by decide)
  have hfields : addTimezone c.toTm = if 0 < (c.hour + 8) / 24 then
      { c.toTm with
        tmHour := (c.hour + 8) % 24
        tmWday := (c.weekday + (c.hour + 8) / 24).tmod 7
        tmMday := c.day + (c.hour + 8) / 24
        tmYday := c.yearday + (c.hour + 8) / 24 }
      else { c.toTm with tmHour := (c.hour + 8) % 24 } := by
    simp only [addTimezone, isindst, Civil.toTm, ne_eq, not_true_eq_false, ↓reduceIte, hsec, hmin, hhour,
      gt_iff_lt]
    rw [if_neg (show ¬ (c.hour + 8) / 24 < 0 by omega)]
  have hseconds := h.seconds
  have hweekday := h.weekday
  have hyearday := h.yearday
  rw [hfields]
  split_ifs with hcarry
  · -- on the next day
    have hone : (c.hour + 8) / 24 = 1 := by omega
    have hnumber : dayNumber c.year c.month (c.day + 1) = dayNumber c.year c.month c.day + 1 := by
      unfold dayNumber
      omega
    refine ⟨{ c with
      day := c.day + 1
      hour := (c.hour + 8) % 24
      weekday := (c.weekday + 1) % 7
      yearday := c.yearday + 1 }, ⟨h.month, ?_, hnext, ?_, ⟨hm0, hm1⟩, ⟨hs0, hs1⟩, ?_, ?_, ?_⟩, ?_⟩
    · have := h.day_pos
      simp only
      omega
    · simp only
      omega
    · simp only [hnumber]
      omega
    · simp only [hnumber]
      omega
    · simp only [hnumber]
      omega
    · rw [hone, Int.tmod_eq_emod_of_nonneg (by omega)]
      rfl
  · -- on the same day
    refine ⟨{ c with hour := (c.hour + 8) % 24 }, ⟨h.month, h.day_pos, h.day_le, ?_, ⟨hm0, hm1⟩,
      ⟨hs0, hs1⟩, ?_, hweekday, hyearday⟩, rfl⟩
    · simp only
      omega
    · simp only
      omega

/-- The first days, and the last ones, are at the beginning of a January. -/
theorem next_day_of_ends {t : ℤ} {c : Civil} (h : IsCivil t c) (h0 : 0 ≤ t) (ht : t < 2 ^ 31)
    (hends : ¬ (t > 3 * DAY_SEC ∧ t < LONG_MAX - 3 * DAY_SEC)) :
    c.day + 1 ≤ monthLength (isLeap c.year) c.month := by
  unfold LONG_MAX DAY_SEC at hends
  have hearly : c.yearday ≤ 18 := by
    have hyearday := h.yearday
    rw [h.dayNumber_eq] at hyearday
    have h1970 : daysBeforeYear 1970 = 0 ∧ daysBeforeYear (1970 + 1) = 365 := by decide
    have h2038 : daysBeforeYear 2038 = 24837 ∧ daysBeforeYear (2038 + 1) = 25202 := by decide
    rcases le_or_gt t (3 * 86400) with hfirst | hlast
    · rw [h.year_eq (show daysBeforeYear 1970 ≤ t / 86400 by omega) (by omega)] at hyearday
      omega
    · rw [h.year_eq (show daysBeforeYear 2038 ≤ t / 86400 by omega) (by omega)] at hyearday
      omega
  have hmonth : c.month = 0 := by
    by_contra hne
    have hmono := daysBeforeMonth_mono (isLeap c.year) (show 1 ≤ c.month by omega)
    have hjanuary : daysBeforeMonth (isLeap c.year) 1 = 31 := rfl
    have hmem := h.yearday_mem
    omega
  have hday := h.yearday_eq
  rw [hmonth, show daysBeforeMonth (isLeap c.year) 0 = 0 from rfl] at hday
  rw [hmonth, show monthLength (isLeap c.year) 0 = 31 from rfl]
  omega

/-- **`localtime`** stores the civil date and time eight hours later. -/
theorem localtimeFields_civil {t : ℤ} (h0 : 0 ≤ t) (ht : t < 2 ^ 31) :
    ∃ c, IsCivil (t + 28800) c ∧ localtimeFields t = some c.toTm := by
  rw [localtimeFields, if_neg (by omega)]
  split_ifs with hends
  · have hshift : wrap32 (t - timezone) = t + 28800 := by
      unfold LONG_MAX DAY_SEC at hends
      unfold wrap32 timezone
      omega
    have hend : t + 28800 < 2 ^ 31 := by
      unfold LONG_MAX DAY_SEC at hends
      omega
    obtain ⟨c, hc, hfields⟩ := gmtimeFields_civil (by omega) hend
    refine ⟨c, hc, ?_⟩
    simp only [hshift, hfields]
    rfl
  · obtain ⟨c, hc, hfields⟩ := gmtimeFields_civil h0 ht
    obtain ⟨c', hc', hadd⟩ := addTimezone_civil hc (next_day_of_ends hc h0 ht hends)
    refine ⟨c', hc', ?_⟩
    rw [hfields, Option.map_some, hadd]

/-- **The two functions**: in the library's own struct, to which they return a pointer, there are the
fields of the civil date and time of the second, and of the second eight hours later. -/
theorem conversions_civil {t : ℤ} (h0 : 0 ≤ t) (ht : t < 2 ^ 31) (m : TmMemory) :
    (∃ c, IsCivil t c ∧ gmtime t m = (some .tb, { m with tb := c.toTm })) ∧
      ∃ c, IsCivil (t + 28800) c ∧ localtime t m = (some .tb, { m with tb := c.toTm }) := by
  constructor
  · obtain ⟨c, hc, hfields⟩ := gmtimeFields_civil h0 ht
    exact ⟨c, hc, by rw [gmtime, hfields]; rfl⟩
  · obtain ⟨c, hc, hfields⟩ := localtimeFields_civil h0 ht
    exact ⟨c, hc, by rw [localtime, hfields]; rfl⟩

/-- The last second of the range. -/
theorem conversions_civil_last :
    (∃ c, IsCivil (2 ^ 31 - 1) c ∧ gmtime (2 ^ 31 - 1) {} = (some .tb, { tb := c.toTm })) ∧
      ∃ c, IsCivil (2 ^ 31 - 1 + 28800) c ∧
        localtime (2 ^ 31 - 1) {} = (some .tb, { tb := c.toTm }) :=
  conversions_civil (by decide) (by decide) {}

end OsdCore
