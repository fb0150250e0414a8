import OsdCore.Time.Mktime

/-!
# The system's clock

`platform_rtos_set_time` sets the clock by the local time of a time stamp, and `lualibc_time` reads it with
a computation of its own, `_gmtotime_t`.

* `SystemClock` : the clock itself, which is not part of the sources, and what it is expected to do.
* `clock_roundTrip_iff` : the time comes back for the time stamps below 2 ^ 31; for the others
  `platform_rtos_set_time` follows the null pointer that `localtime` returns.
-/

namespace OsdCore

/-- `T_AMOPENAT_SYSTEM_DATETIME`. -/
structure SystemDatetime where
  nYear : ℤ
  nMonth : ℤ
  nDay : ℤ
  nHour : ℤ
  nMin : ℤ
  nSec : ℤ
  dayIndex : ℤ
deriving DecidableEq, Repr

/-- `set_system_datetime`, and `get_system_datetime` : what it stores, `none` if it returns FALSE. -/
structure SystemClock (σ : Type) where
  setSystemDatetime : SystemDatetime → σ → σ
  getSystemDatetime : σ → Option SystemDatetime

/-- `platform_rtos_set_time`, with what is in the field that it does not set: the struct of the calendar
functions and the clock after it, `none` where it follows a null pointer. -/
def platformRtosSetTime {σ : Type} (clock : SystemClock σ) (dayIndex timestamp : ℤ) (m : TmMemory)
    (s : σ) : Option (TmMemory × σ) :=
  match localtime (wrap32 timestamp) m with
  | (none, _) => none
  | (some stm, m) =>
    let tm := m.deref stm
    some (m, clock.setSystemDatetime
      { nYear := (tm.tmYear + 1900) % 2 ^ 16
        nMonth := (tm.tmMon + 1) % 2 ^ 8
        nDay := tm.tmMday % 2 ^ 8
        nHour := tm.tmHour % 2 ^ 8
        nMin := tm.tmMin % 2 ^ 8
        nSec := tm.tmSec % 2 ^ 8
        dayIndex } s)

/-- `lualibc_time` : `none` where the month is not in the table. -/
def lualibcTime {σ : Type} (clock : SystemClock σ) (s : σ) : Option ℤ :=
  match clock.getSystemDatetime s with
  | none => some (-1)
  | some d => gmtotimeT d.nYear d.nMonth d.nDay d.nHour d.nMin d.nSec

/-! ### The way there and back -/

/-- A civil date and time, as the clock is set to it. -/
def Civil.toDatetime (c : Civil) (dayIndex : ℤ) : SystemDatetime where
  nYear := c.year
  nMonth := c.month + 1
  nDay := c.day
  nHour := c.hour
  nMin := c.minute
  nSec := c.second
  dayIndex := dayIndex

/-- The clock returns the date and the time it was set to, from 1970 to 2038. -/
def SystemClock.KeepsTime {σ : Type} (clock : SystemClock σ) : Prop :=
  ∀ t c dayIndex s, 0 ≤ t → t < 2 ^ 31 + 28800 → IsCivil t c → ∃ dayIndex',
    clock.getSystemDatetime (clock.setSystemDatetime (c.toDatetime dayIndex) s) =
      some (c.toDatetime dayIndex')

/-- Setting the clock follows no null pointer, and the clock then shows the time stamp. -/
def ClockRoundTrip {σ : Type} (clock : SystemClock σ) (dayIndex timestamp : ℤ) (m : TmMemory) (s : σ) :
    Prop :=
  ∃ m' s', platformRtosSetTime clock dayIndex timestamp m s = some (m', s') ∧
    lualibcTime clock s' = some timestamp

section

variable {σ : Type} {clock : SystemClock σ} {dayIndex t : ℤ} {m : TmMemory} {s : σ}

/-- **`platform_rtos_set_time`** sets the clock to the civil date and time eight hours later. -/
theorem platformRtosSetTime_eq (h0 : 0 ≤ t) (ht : t < 2 ^ 31) :
    ∃ c, IsCivil (t + 28800) c ∧ platformRtosSetTime clock dayIndex t m s =
      some ({ m with tb := c.toTm }, clock.setSystemDatetime (c.toDatetime dayIndex) s) := by
  obtain ⟨c, hc, hfields⟩ := localtimeFields_civil h0 ht
  have hyear := hc.year_mem (by omega) (by omega)
  have hmonth := hc.month
  have hday := hc.day_le_31
  have hday1 := hc.day_pos
  have hhour := hc.hour
  have hmin := hc.minute
  have hsec := hc.second
  have hdatetime : ({
      nYear := (c.toTm.tmYear + 1900) % 2 ^ 16
      nMonth := (c.toTm.tmMon + 1) % 2 ^ 8
      nDay := c.toTm.tmMday % 2 ^ 8
      nHour := c.toTm.tmHour % 2 ^ 8
      nMin := c.toTm.tmMin % 2 ^ 8
      nSec := c.toTm.tmSec % 2 ^ 8
      dayIndex } : SystemDatetime) = c.toDatetime dayIndex := by
    simp only [Civil.toTm, Civil.toDatetime, SystemDatetime.mk.injEq, and_true]
    omega
  refine ⟨c, hc, ?_⟩
  rw [platformRtosSetTime, wrap32_of_fits ⟨by omega, ht⟩, localtime, hfields, ← hdatetime]
  rfl

/-- From 2 ^ 31 on, the time stamp is negative for `localtime`. -/
theorem platformRtosSetTime_null (h0 : 2 ^ 31 ≤ t) (ht : t < 2 ^ 32) :
    platformRtosSetTime clock dayIndex t m s = none := by
  have hneg : wrap32 t < 0 := by
    unfold wrap32
    omega
  rw [platformRtosSetTime, localtime, localtimeFields, if_pos hneg]
  rfl

/-- **`_gmtotime_t`** undoes the conversion, also where the local time does not fit. -/
theorem gmtotimeT_civil {c : Civil} (h0 : 0 ≤ t) (ht : t < 2 ^ 31) (h : IsCivil (t + 28800) c) :
    gmtotimeT c.year (c.month + 1) c.day c.hour c.minute c.second = some t := by
  have hyear := h.year_mem (by omega) (by omega)
  have hyear' : 69 ≤ c.year - 1900 ∧ c.year - 1900 ≤ 139 := by omega
  obtain ⟨day, hday, hsum⟩ := cdays_eq hyear' h.month
  have hindex : ((c.month : ℤ) + 1 - 1).toNat = c.month := by omega
  have hdays : daysBeforeYear c.year + (c.day + day +
      if (c.year - 1900) % 4 = 0 ∧ (c.month : ℤ) + 1 > 2 then 1 else 0) =
        dayNumber c.year c.month c.day := by
    rw [add_sub_cancel] at hsum
    unfold dayNumber
    split_ifs at hsum ⊢ <;> omega
  have hseconds := h.seconds
  simp only [gmtotimeT, elapsedDays_eq hyear', hindex, hday, add_sub_cancel, daylight]
  have hrange : ¬ (c.year - 1900 < BASE_YEAR ∨ c.year - 1900 > MAX_YEAR) := by
    unfold BASE_YEAR MAX_YEAR
    omega
  have hwrap : wrap32 (wrap32 (((dayNumber c.year c.month c.day * 24 + c.hour) * 60 + c.minute) * 60 +
      c.second) + timezone) = t := by
    unfold wrap32 timezone
    omega
  rw [if_neg hrange, if_neg (show ¬ (c.month : ℤ) + 1 < 1 by omega), Option.map_some, hdays, hwrap]
  simp [h0]

end

/-- **The clock round trip** succeeds exactly for the time stamps below 2 ^ 31. -/
theorem clock_roundTrip_iff {σ : Type} {clock : SystemClock σ} (hclock : clock.KeepsTime)
    (dayIndex : ℤ) {timestamp : ℤ} (h0 : 0 ≤ timestamp) (h32 : timestamp < 2 ^ 32) (m : TmMemory)
    (s : σ) : ClockRoundTrip clock dayIndex timestamp m s ↔ timestamp < 2 ^ 31 := by
  constructor
  · rintro ⟨m', s', hset, -⟩
    by_contra hge
    rw [platformRtosSetTime_null (not_lt.1 hge) h32] at hset
    exact Option.some_ne_none _ hset.symm
  · intro hlt
    obtain ⟨c, hc, hset⟩ := @platformRtosSetTime_eq σ clock dayIndex timestamp m s h0 hlt
    obtain ⟨dayIndex', hget⟩ := hclock _ c dayIndex s (by omega) (by omega) hc
    refine ⟨_, _, hset, ?_⟩
    rw [lualibcTime, hget]
    exact gmtotimeT_civil h0 hlt hc

/-- A clock that keeps what it was set to, if it was set. -/
def plainClock : SystemClock (Option SystemDatetime) where
  setSystemDatetime d _ := some d
  getSystemDatetime s := s

theorem plainClock_keepsTime : plainClock.KeepsTime :=
  fun _ _ dayIndex _ _ _ _ => ⟨dayIndex, rfl⟩

/-- The last second that can be set. -/
theorem clock_roundTrip_last : ClockRoundTrip plainClock 0 (2 ^ 31 - 1) {} none :=
  (clock_roundTrip_iff plainClock_keepsTime 0 (by decide) (by decide) {} none).2 (by decide)

/-- The first one that cannot. -/
theorem not_clock_roundTrip : ¬ ∀ timestamp : ℤ, 0 ≤ timestamp → timestamp < 2 ^ 32 →
    ClockRoundTrip plainClock 0 timestamp {} none := by
  intro h
  obtain ⟨m', s', hset, -⟩ := h (2 ^ 31) (by decide) (by decide)
  rw [platformRtosSetTime_null (le_refl _) (by decide)] at hset
  exact Option.some_ne_none _ hset.symm

end OsdCore
