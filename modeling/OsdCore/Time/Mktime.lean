import OsdCore.Time.Gmtime

/-!
# From fields to seconds: `mktime`

* `elapsedSeconds_eq` : the checked computation gives the exact number of seconds, or fails where one of
  the sums and products does not fit into 32 bits.
* `calendar_roundTrip` : `mktime` undoes `localtime`, and `_mkgmtime` undoes `gmtime`, also on the
  library's own struct.
* `mktime_exact_iff` : the result of `mktime` is the exact time, unless the time zone, which is added
  unchecked, wraps around: `WrapsBack`.
-/

namespace OsdCore

/-! ### Checked arithmetic -/

/-- The number fits into 32 bits. -/
def Fits32 (x : ℤ) : Prop := -2 ^ 31 ≤ x ∧ x < 2 ^ 31

instance (x : ℤ) : Decidable (Fits32 x) := inferInstanceAs (Decidable (_ ∧ _))

variable {a b k : ℤ}

theorem wrap32_of_fits (h : Fits32 a) : wrap32 a = a := by
  unfold Fits32 at h
  unfold wrap32
  omega

theorem fits_wrap32 (a : ℤ) : Fits32 (wrap32 a) := by
  unfold Fits32 wrap32
  omega

/-- **`ChkAdd`** finds every overflow, and nothing else. -/
theorem addChecked_eq (ha : Fits32 a) (hb : Fits32 b) :
    addChecked a b = if Fits32 (a + b) then some (a + b) else none := by
  unfold addChecked chkAdd
  simp only [Bool.or_eq_true, Bool.and_eq_true, decide_eq_true_eq]
  by_cases hfit : Fits32 (a + b)
  · rw [wrap32_of_fits hfit, if_pos hfit, if_neg (by omega)]
  · rw [if_neg hfit, if_pos]
    unfold Fits32 at ha hb hfit
    unfold wrap32
    omega

/-- **`ChkMul`** does so too. -/
theorem mulChecked_eq (ha : Fits32 a) :
    mulChecked a k = if Fits32 (a * k) then some (a * k) else none := by
  unfold mulChecked chkMul
  by_cases h0 : a = 0
  · subst h0
    have hfit : Fits32 (0 * k) := by rw [zero_mul]; decide
    rw [if_pos hfit, wrap32_of_fits hfit]
    simp
  by_cases hfit : Fits32 (a * k)
  · rw [wrap32_of_fits hfit, if_pos hfit]
    simp [Int.mul_tdiv_cancel_left k h0]
  · -- what is lost is a multiple of 2 ^ 32, which no remainder of a division by `a` can be
    have hne : (wrap32 (a * k)).tdiv a ≠ k := by
      intro hdiv
      have hsplit := Int.mul_tdiv_add_tmod (wrap32 (a * k)) a
      have hrem := Int.natAbs_tmod (wrap32 (a * k)) a
      have hlt := Nat.mod_lt (wrap32 (a * k)).natAbs (Int.natAbs_pos.2 h0)
      rw [hdiv] at hsplit
      unfold Fits32 at ha hfit
      unfold wrap32 at *
      omega
    rw [if_neg hfit]
    simp [h0, hne]

/-! ### The exact number of seconds -/

/-- The fields are 32-bit integers. -/
structure Tm.Fits (tm : Tm) : Prop where
  sec : Fits32 tm.tmSec
  min : Fits32 tm.tmMin
  hour : Fits32 tm.tmHour
  mday : Fits32 tm.tmMday
  mon : Fits32 tm.tmMon
  year : Fits32 tm.tmYear

/-- The days since 1970 : of the first day of the month, the months going on into the years before and
after, and from there on to the day. -/
def Tm.exactDays (tm : Tm) : ℤ :=
  dayNumber (1900 + tm.tmYear + tm.tmMon / 12) (tm.tmMon % 12).toNat tm.tmMday

def Tm.exactHours (tm : Tm) : ℤ := tm.exactDays * 24 + tm.tmHour

def Tm.exactMinutes (tm : Tm) : ℤ := tm.exactHours * 60 + tm.tmMin

/-- The seconds since 1970, by local time. -/
def Tm.exactSeconds (tm : Tm) : ℤ := tm.exactMinutes * 60 + tm.tmSec

/-- The time that the fields name: local time is eight hours ahead. -/
def Tm.exactTime (tm : Tm) : ℤ := tm.exactSeconds - 28800

/-- The year is near the range, as given and with the months in it. -/
def Tm.YearsFit (tm : Tm) : Prop :=
  (69 ≤ tm.tmYear ∧ tm.tmYear ≤ 139) ∧ 69 ≤ tm.tmYear + tm.tmMon / 12 ∧
    tm.tmYear + tm.tmMon / 12 ≤ 139

/-- Every sum and every product on the way fits into 32 bits. -/
def Tm.StepsFit (tm : Tm) : Prop :=
  Fits32 tm.exactDays ∧ Fits32 (tm.exactDays * 24) ∧ Fits32 tm.exactHours ∧
    Fits32 (tm.exactHours * 60) ∧ Fits32 tm.exactMinutes ∧ Fits32 (tm.exactMinutes * 60) ∧
    Fits32 tm.exactSeconds

instance (tm : Tm) : Decidable tm.YearsFit := inferInstanceAs (Decidable (_ ∧ _))

instance (tm : Tm) : Decidable tm.StepsFit :=
  inferInstanceAs (Decidable (_ ∧ _ ∧ _ ∧ _ ∧ _ ∧ _ ∧ _))

theorem yearInRange_iff {year : ℤ} : yearInRange year = true ↔ 69 ≤ year ∧ year ≤ 139 := by
  unfold yearInRange BASE_YEAR MAX_YEAR
  rw [decide_eq_true_eq]
  omega

/-- Rounding towards zero, and then down. -/
theorem carryMonth_eq {year mon : ℤ} (hyear : 69 ≤ year ∧ year ≤ 139) (hmon : Fits32 mon) :
    carryMonth year mon = (year + mon / 12, mon % 12) := by
  unfold Fits32 at hmon
  have hdiv := Int.mul_tdiv_add_tmod mon 12
  have hlt := Int.tmod_lt_of_pos mon (show (0 : ℤ) < 12 by decide)
  have hgt := Int.lt_tmod_of_pos mon (show (0 : ℤ) < 12 by decide)
  have hwrap : wrap32 (year + mon.tdiv 12) = year + mon.tdiv 12 := wrap32_of_fits ⟨by omega, by omega⟩
  have hwrap' : wrap32 (year + mon.tdiv 12 - 1) = year + mon.tdiv 12 - 1 :=
    wrap32_of_fits ⟨by omega, by omega⟩
  simp only [carryMonth, hwrap, hwrap']
  split_ifs <;> rw [Prod.mk.injEq] <;> omega

/-- The months go into the years. -/
theorem adjustMonth_eq {tm : Tm} (h : tm.Fits) :
    (¬ tm.YearsFit → (adjustMonth tm).1 = none) ∧
      (tm.YearsFit → adjustMonth tm =
        (some (tm.tmYear + tm.tmMon / 12), { tm with tmMon := tm.tmMon % 12 })) := by
  unfold adjustMonth Tm.YearsFit
  rw [← yearInRange_iff, ← yearInRange_iff]
  by_cases hyear : yearInRange tm.tmYear = true
  swap
  · exact ⟨fun _ => by rw [if_neg hyear], fun hfit => absurd hfit.1 hyear⟩
  rw [if_pos hyear]
  split_ifs with hmon
  · rw [carryMonth_eq (yearInRange_iff.1 hyear) h.mon]
    refine ⟨fun hno => if_neg fun hfit => hno ⟨hyear, hfit⟩, fun hfit => ?_⟩
    simp only [if_pos hfit.2]
  · have hdiv : tm.tmMon / 12 = 0 := by omega
    have hmod : tm.tmMon % 12 = tm.tmMon := by omega
    rw [hdiv, hmod, add_zero]
    exact ⟨fun hno => absurd ⟨hyear, hyear⟩ hno, fun _ => rfl⟩

/-- The code's rule for leap years. -/
theorem isLeap_iff {year : ℤ} (hyear : 69 ≤ year ∧ year ≤ 139) :
    isLeap (1900 + year) = true ↔ year % 4 = 0 := by
  unfold isLeap
  rw [decide_eq_true_eq]
  omega

/-- The days before the year. -/
theorem elapsedDays_eq {year : ℤ} (hyear : 69 ≤ year ∧ year ≤ 139) :
    (year - BASE_YEAR) * 365 + (year - 1) / 4 - LEAP_YEAR_ADJUST = daysBeforeYear (1900 + year) := by
  unfold BASE_YEAR LEAP_YEAR_ADJUST daysBeforeYear
  omega

/-- The days before the month, one less: the table is that of a common year. -/
theorem cdays_eq {year : ℤ} {month : ℕ} (hyear : 69 ≤ year ∧ year ≤ 139) (hmonth : month < 12) :
    ∃ day, cdays[month]? = some day ∧
      day + (if year % 4 = 0 ∧ 1 < month then 1 else 0) =
        daysBeforeMonth (isLeap (1900 + year)) month - 1 := by
  have htable : ∀ month < 12, cdays[month]? = some (daysBeforeMonth false month - 1) ∧
      daysBeforeMonth true month = daysBeforeMonth false month + if 1 < month then 1 else 0 := by
    decide
  obtain ⟨hdays, hnext⟩ := htable month hmonth
  refine ⟨_, hdays, ?_⟩
  by_cases h4 : year % 4 = 0
  · rw [(isLeap_iff hyear).2 h4, hnext]
    split_ifs <;> omega
  · rw [Bool.eq_false_iff.2 (mt (isLeap_iff hyear).1 h4), if_neg (fun h => h4 h.1), add_zero]

/-- The elapsed days before the month. -/
theorem daysToMonth_eq {year mon : ℤ} (hyear : 69 ≤ year ∧ year ≤ 139) (hmon : 0 ≤ mon ∧ mon < 12) :
    daysToMonth year mon =
      daysBeforeYear (1900 + year) + daysBeforeMonth (isLeap (1900 + year)) mon.toNat - 1 := by
  obtain ⟨day, hday, hsum⟩ := cdays_eq hyear (show mon.toNat < 12 by omega)
  have hfit : Fits32 (daysBeforeYear (1900 + year)) := by
    unfold Fits32 daysBeforeYear
    omega
  rw [daysToMonth, elapsedDays_eq hyear, wrap32_of_fits hfit, List.getD_eq_getElem?_getD, hday,
    Option.getD_some]
  split_ifs at hsum ⊢ <;> omega

/-- One check after the other. -/
theorem bind_checked {x : Option ℤ} {f : ℤ → Option ℤ} {v w : ℤ} {P : Prop} [Decidable P]
    (hx : x = if Fits32 v then some v else none)
    (hf : Fits32 v → f v = if P then some w else none) :
    (x >>= f) = if Fits32 v ∧ P then some w else none := by
  rw [hx]
  by_cases hfit : Fits32 v
  · simp [hfit, hf hfit]
  · simp [hfit]

theorem daysBeforeMonth_mem (leap : Bool) {month : ℕ} (h : month < 12) :
    0 ≤ daysBeforeMonth leap month ∧ daysBeforeMonth leap month ≤ 366 := by
  have hlow := daysBeforeMonth_mono leap (Nat.zero_le month)
  have hhigh := daysBeforeMonth_mono leap h.le
  rw [show daysBeforeMonth leap 0 = 0 from rfl] at hlow
  rw [daysBeforeMonth_twelve] at hhigh
  split_ifs at hhigh <;> omega

/-- **The elapsed seconds** are exact, or a check fails. -/
theorem elapsedSeconds_eq {tm : Tm} (h : tm.Fits) (hyears : tm.YearsFit) :
    elapsedSeconds (tm.tmYear + tm.tmMon / 12) { tm with tmMon := tm.tmMon % 12 } =
      if tm.StepsFit then some tm.exactSeconds else none := by
  have hyear := hyears.2
  have hdays := daysToMonth_eq hyear (show 0 ≤ tm.tmMon % 12 ∧ tm.tmMon % 12 < 12 by omega)
  have hfits : Fits32 (daysToMonth (tm.tmYear + tm.tmMon / 12) (tm.tmMon % 12)) := by
    have hmem := daysBeforeMonth_mem (isLeap (1900 + (tm.tmYear + tm.tmMon / 12)))
      (show (tm.tmMon % 12).toNat < 12 by omega)
    rw [hdays]
    unfold Fits32 daysBeforeYear
    omega
  have hexact : daysToMonth (tm.tmYear + tm.tmMon / 12) (tm.tmMon % 12) + tm.tmMday =
      tm.exactDays := by
    rw [hdays, Tm.exactDays, dayNumber, ← add_assoc]
    omega
  have hfirst := addChecked_eq hfits h.mday
  rw [hexact] at hfirst
  exact bind_checked hfirst fun h₁ => bind_checked (mulChecked_eq h₁) fun h₂ =>
    bind_checked (addChecked_eq h₂ h.hour) fun h₃ => bind_checked (mulChecked_eq h₃) fun h₄ =>
    bind_checked (addChecked_eq h₄ h.min) fun h₅ => bind_checked (mulChecked_eq h₅) fun h₆ =>
    addChecked_eq h₆ h.sec

/-! ### `_make_time_t` -/

section

variable {p : TmPtr} {ultflag : Bool} {m : TmMemory}

@[simp] theorem TmMemory.deref_assign (tm : Tm) : (m.assign tm p).deref p = tm := by
  cases p <;> rfl

/-- Where a check fails, the result is an error. -/
theorem makeTimeT_error (h : (m.deref p).Fits)
    (hno : ¬ ((m.deref p).YearsFit ∧ (m.deref p).StepsFit)) :
    ∃ m', makeTimeT p ultflag m = some (-1, m') := by
  obtain ⟨hout, hin⟩ := adjustMonth_eq h
  by_cases hyears : (m.deref p).YearsFit
  · have hsteps := elapsedSeconds_eq h hyears
    rw [if_neg fun hsteps => hno ⟨hyears, hsteps⟩] at hsteps
    simp only [makeTimeT, hin hyears, Option.bind_some, hsteps]
    exact ⟨_, rfl⟩
  · simp only [makeTimeT, hout hyears, Option.bind_none]
    exact ⟨_, rfl⟩

/-- **`mktime`**, where no check fails: the time zone is added, and the struct is filled again. -/
theorem mktime_eq (h : (m.deref p).Fits) (hdst : (m.deref p).tmIsdst ≤ 0)
    (hyears : (m.deref p).YearsFit) (hsteps : (m.deref p).StepsFit) :
    (wrap32 ((m.deref p).exactSeconds + timezone) < 0 → ∃ m', mktime p m = some (-1, m')) ∧
      (0 ≤ wrap32 ((m.deref p).exactSeconds + timezone) → ∃ m',
        mktime p m = some (wrap32 ((m.deref p).exactSeconds + timezone), m') ∧
          localtimeFields (wrap32 ((m.deref p).exactSeconds + timezone)) = some (m'.deref p)) := by
  have helapsed := elapsedSeconds_eq h hyears
  rw [if_pos hsteps] at helapsed
  have hrange := fits_wrap32 ((m.deref p).exactSeconds + timezone)
  simp only [mktime, makeTimeT, (adjustMonth_eq h).2 hyears, Option.bind_some, helapsed, ↓reduceIte,
    localtime]
  constructor
  · intro hneg
    rw [localtimeFields, if_pos hneg]
    exact ⟨_, rfl⟩
  · intro hpos
    obtain ⟨c, -, hfields⟩ := localtimeFields_civil hpos hrange.2
    set tm := { m.deref p with tmMon := (m.deref p).tmMon % 12 } with htm
    set m' := (m.assign tm p).assign c.toTm .tb with hm'
    -- the flag is the argument's, or the one that was just stored
    have hflag : (m'.deref p).tmIsdst ≤ 0 := by
      cases p
      · exact le_rfl
      · exact hdst
    have htb : (m'.deref .tb).tmIsdst = 0 := rfl
    refine ⟨m'.assign c.toTm p, ?_, by rw [hfields, TmMemory.deref_assign]⟩
    rw [hfields]
    simp only [TmMemory.store, ← hm']
    rw [if_neg (by omega)]
    rfl

/-- **`_mkgmtime`** in the same case. -/
theorem mkgmtime_eq (h : (m.deref p).Fits) (hyears : (m.deref p).YearsFit)
    (hsteps : (m.deref p).StepsFit) (hpos : 0 ≤ (m.deref p).exactSeconds) :
    ∃ m', mkgmtime p m = some ((m.deref p).exactSeconds, m') ∧
      gmtimeFields (m.deref p).exactSeconds = some (m'.deref p) := by
  have helapsed := elapsedSeconds_eq h hyears
  rw [if_pos hsteps] at helapsed
  obtain ⟨c, -, hfields⟩ := gmtimeFields_civil hpos hsteps.2.2.2.2.2.2.2
  simp only [mkgmtime, makeTimeT, (adjustMonth_eq h).2 hyears, Option.bind_some, helapsed,
    Bool.false_eq_true, ↓reduceIte, gmtime, hfields, TmMemory.store]
  exact ⟨_, rfl, by rw [TmMemory.deref_assign]; rfl⟩

/-! ### The round trip -/

/-- The fields of a second of the range name that second, and no check fails. -/
theorem toTm_exact {t : ℤ} {c : Civil} (h : IsCivil t c) (h0 : 0 ≤ t) (ht : t < 2 ^ 31) :
    c.toTm.Fits ∧ c.toTm.YearsFit ∧ c.toTm.StepsFit ∧ c.toTm.exactSeconds = t := by
  have hmonth := h.month
  have hday := h.day_le_31
  have hday1 := h.day_pos
  have hhour := h.hour
  have hmin := h.minute
  have hsec := h.second
  have hseconds := h.seconds
  have hnumber := h.dayNumber_eq
  have hyear := h.year_mem h0 (by omega)
  have hdays : c.toTm.exactDays = dayNumber c.year c.month c.day := by
    have hdiv : (c.month : ℤ) / 12 = 0 := by omega
    have hmod : ((c.month : ℤ) % 12).toNat = c.month := by omega
    simp only [Tm.exactDays, Civil.toTm, hdiv, hmod]
    congr 1
    omega
  have hexact : c.toTm.exactSeconds = t := by
    unfold Tm.exactSeconds Tm.exactMinutes Tm.exactHours
    rw [hdays]
    simp only [Civil.toTm]
    omega
  have hsteps : c.toTm.StepsFit := by
    simp only [Tm.StepsFit, Tm.exactSeconds, Tm.exactMinutes, Tm.exactHours, hdays, hnumber]
    simp only [Fits32, Civil.toTm]
    omega
  refine ⟨⟨?_, ?_, ?_, ?_, ?_, ?_⟩, ⟨?_, ?_⟩, hsteps, hexact⟩
  all_goals
    simp only [Fits32, Civil.toTm]
    omega

/-- **The round trip** on the calendar: `mktime`, given the fields of `localtime`, and `_mkgmtime`, given
those of `gmtime`, give the time back, whether they are given the library's own struct or a copy. -/
theorem calendar_roundTrip {t : ℤ} (h0 : 0 ≤ t) (ht : t < 2 ^ 31) (m : TmMemory) (p : TmPtr) :
    (t + 28800 < 2 ^ 31 → ∃ m',
      mktime p ((localtime t m).2.assign ((localtime t m).2.deref .tb) p) = some (t, m')) ∧
    ∃ m', mkgmtime p ((gmtime t m).2.assign ((gmtime t m).2.deref .tb) p) = some (t, m') := by
  constructor
  · intro hlocal
    obtain ⟨c, hc, hfields⟩ := localtimeFields_civil h0 ht
    obtain ⟨hfits, hyears, hsteps, hexact⟩ := toTm_exact hc (by omega) hlocal
    rw [localtime, hfields]
    set m₁ := (m.store (some c.toTm)).2.assign ((m.store (some c.toTm)).2.deref .tb) p
    have hderef : m₁.deref p = c.toTm := TmMemory.deref_assign _
    have hwrap : wrap32 (c.toTm.exactSeconds + timezone) = t := by
      rw [hexact]
      unfold wrap32 timezone
      omega
    have hmktime := mktime_eq (p := p) (m := m₁)
    rw [hderef, hwrap] at hmktime
    obtain ⟨m', hres, -⟩ := (hmktime hfits le_rfl hyears hsteps).2 h0
    exact ⟨m', hres⟩
  · obtain ⟨c, hc, hfields⟩ := gmtimeFields_civil h0 ht
    obtain ⟨hfits, hyears, hsteps, hexact⟩ := toTm_exact hc h0 ht
    rw [gmtime, hfields]
    set m₁ := (m.store (some c.toTm)).2.assign ((m.store (some c.toTm)).2.deref .tb) p
    have hderef : m₁.deref p = c.toTm := TmMemory.deref_assign _
    have hmkgmtime := mkgmtime_eq (p := p) (m := m₁)
    rw [hderef, hexact] at hmkgmtime
    obtain ⟨m', hres, -⟩ := hmkgmtime hfits hyears hsteps h0
    exact ⟨m', hres⟩

/-- A time in 2001, on the library's own struct. -/
theorem calendar_roundTrip_2001 :
    ((10 : ℤ) ^ 9 + 28800 < 2 ^ 31 → ∃ m',
      mktime .tb ((localtime (10 ^ 9) {}).2.assign ((localtime (10 ^ 9) {}).2.deref .tb) .tb) =
        some (10 ^ 9, m')) ∧
    ∃ m', mkgmtime .tb ((gmtime (10 ^ 9) {}).2.assign ((gmtime (10 ^ 9) {}).2.deref .tb) .tb) =
      some (10 ^ 9, m') :=
  @calendar_roundTrip (10 ^ 9) (by decide) (by decide) {} .tb

end

/-! ### Exactness -/

/-- The fields pass every check, and the seconds are so early that the time zone wraps them around. -/
def Tm.WrapsBack (tm : Tm) : Prop :=
  tm.YearsFit ∧ tm.StepsFit ∧ tm.exactSeconds < -2 ^ 31 + 28800

instance (tm : Tm) : Decidable tm.WrapsBack := inferInstanceAs (Decidable (_ ∧ _ ∧ _))

/-- `mktime` is exact: it has a result; if that is not -1, it is the exact time, and the struct holds its
local time; and it is -1 if the exact time is out of range. -/
def MktimeExact (p : TmPtr) (m : TmMemory) : Prop :=
  ∃ r m', mktime p m = some (r, m') ∧
    (r ≠ -1 → r = (m.deref p).exactTime ∧ localtimeFields r = some (m'.deref p)) ∧
    (¬ (0 ≤ (m.deref p).exactTime ∧ (m.deref p).exactTime < 2 ^ 31) → r = -1)

/-- **`mktime` is exact** unless the time zone wraps the seconds around. -/
theorem mktime_exact_iff {p : TmPtr} {m : TmMemory} (h : (m.deref p).Fits)
    (hdst : (m.deref p).tmIsdst ≤ 0) : MktimeExact p m ↔ ¬ (m.deref p).WrapsBack := by
  unfold MktimeExact Tm.WrapsBack
  by_cases hfit : (m.deref p).YearsFit ∧ (m.deref p).StepsFit
  swap
  · obtain ⟨m', hres⟩ := @makeTimeT_error p true m h hfit
    exact ⟨fun _ hwraps => hfit ⟨hwraps.1, hwraps.2.1⟩,
      fun _ => ⟨-1, m', hres, fun hne => absurd rfl hne, fun _ => rfl⟩⟩
  obtain ⟨herr, hok⟩ := mktime_eq h hdst hfit.1 hfit.2
  have hlast : Fits32 (m.deref p).exactSeconds := hfit.2.2.2.2.2.2.2
  unfold Fits32 at hlast
  by_cases hwraps : (m.deref p).exactSeconds < -2 ^ 31 + 28800
  · -- the seconds come out at the other end of the range
    have hwrap : wrap32 ((m.deref p).exactSeconds + timezone) =
        (m.deref p).exactSeconds + timezone + 2 ^ 32 := by
      unfold wrap32 timezone
      omega
    obtain ⟨m', hres, -⟩ := hok (by rw [hwrap]; unfold timezone; omega)
    refine ⟨?_, fun hno => absurd ⟨hfit.1, hfit.2, hwraps⟩ hno⟩
    rintro ⟨r, m'', hr, hexact, -⟩
    rw [hres, Option.some.injEq, Prod.mk.injEq] at hr
    unfold Tm.exactTime at hexact
    unfold timezone at *
    omega
  · have hwrap : wrap32 ((m.deref p).exactSeconds + timezone) = (m.deref p).exactTime := by
      unfold wrap32 timezone Tm.exactTime
      omega
    rw [hwrap] at herr hok
    refine ⟨fun _ hno => hwraps hno.2.2, fun _ => ?_⟩
    rcases lt_or_ge (m.deref p).exactTime 0 with hneg | hpos
    · obtain ⟨m', hres⟩ := herr hneg
      exact ⟨-1, m', hres, fun hne => absurd rfl hne, fun _ => rfl⟩
    · obtain ⟨m', hres, hfields⟩ := hok hpos
      refine ⟨_, m', hres, fun _ => ⟨rfl, hfields⟩, fun hout => ?_⟩
      unfold Tm.exactTime at *
      omega

/-- The last day of 1999, counted in months and days of 1998. -/
def shiftedDate : Tm := { tmYear := 98, tmMon := 12, tmMday := 365, tmHour := 30, tmIsdst := -1 }

theorem mktime_exact_shifted : MktimeExact .caller { caller := shiftedDate } :=
  (mktime_exact_iff (by constructor <;> decide) (by decide)).2 (by decide)

/-- The evening of 13 December 1901, counted in days before 1970, comes out in January 2038. -/
theorem not_mktime_exact : ¬ ∀ (p : TmPtr) (m : TmMemory), (m.deref p).Fits →
    (m.deref p).tmIsdst ≤ 0 → MktimeExact p m := by
  intro h
  have hres : (mktime .caller { caller :=
      { tmYear := 70, tmMday := -24855, tmHour := 20, tmMin := 46 } }).map Prod.fst =
      some 2147454856 := by
    decide +kernel
  obtain ⟨r, m', hr, hexact, -⟩ :=
    h .caller { caller := { tmYear := 70, tmMday := -24855, tmHour := 20, tmMin := 46 } }
      (by constructor <;> decide) (by decide)
  rw [hr, Option.map_some, Option.some.injEq] at hres
  replace hres : r = 2147454856 := hres
  obtain ⟨htime, -⟩ := hexact (by omega)
  rw [hres] at htime
  exact absurd htime (by decide)

end OsdCore
