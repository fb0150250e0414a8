import Mathlib.Algebra.Ring.Int.Defs

/-!
# The C library's calendar: `time.c`

`gmtimeFields` and `localtimeFields` are what `lualibc_gmtime` and `lualibc_localtime` store in the
library's own `struct tm`, of which they return the address, and `makeTimeT` is `_make_time_t`, which reads
and writes a `struct tm` that may be that very one.  A `long` has 32 bits and wraps.
-/

namespace OsdCore

/-- The value of a `long`, after an overflow. -/
def wrap32 (x : ℤ) : ℤ := (x + 2 ^ 31) % 2 ^ 32 - 2 ^ 31

/-- `struct tm`. -/
structure Tm where
  tmSec : ℤ := 0
  tmMin : ℤ := 0
  tmHour : ℤ := 0
  tmMday : ℤ := 0
  tmMon : ℤ := 0
  tmYear : ℤ := 0
  tmWday : ℤ := 0
  tmYday : ℤ := 0
  tmIsdst : ℤ := 0
deriving DecidableEq, Repr

/-! ### Constants and tables -/

def DAY_SEC : ℤ := 24 * 60 * 60
def YEAR_SEC : ℤ := 365 * DAY_SEC
def FOUR_YEAR_SEC : ℤ := 1461 * DAY_SEC
def BASE_YEAR : ℤ := 70
def BASE_DOW : ℤ := 4
def LEAP_YEAR_ADJUST : ℤ := 17
def MAX_YEAR : ℤ := 138
def LONG_MAX : ℤ := 0x7FFFFFFF

/-- `_lpdays` : the last day before each month, in a leap year. -/
def lpdays : List ℤ := [-1, 30, 59, 90, 120, 151, 181, 212, 243, 273, 304, 334, 365]

/-- `_days`. -/
def cdays : List ℤ := [-1, 30, 58, 89, 119, 150, 180, 211, 242, 272, 303, 333, 364]

/-- `_timezone` : UTC+08:00. -/
def timezone : ℤ := -8 * 3600

/-- `_daylight` : there is no daylight saving time. -/
def daylight : ℤ := 0

/-- `_dstbias`. -/
def dstbias : ℤ := -3600

/-- `_isindst` : 0, whatever `_daylight` is. -/
def isindst (_ : Tm) : ℤ := 0

/-! ### From seconds to fields -/

/-- Which year of a four-year interval the seconds fall into, counted from `tmptim` on, the seconds since
the beginning of that year, and whether it is a leap year. -/
def yearOfInterval (tmptim caltim : ℤ) : ℤ × ℤ × Bool :=
  if caltim < YEAR_SEC then (tmptim, caltim, false)
  else if caltim - YEAR_SEC < YEAR_SEC then (tmptim + 1, caltim - YEAR_SEC, false)
  else if caltim - YEAR_SEC - YEAR_SEC < YEAR_SEC + DAY_SEC then
    (tmptim + 2, caltim - YEAR_SEC - YEAR_SEC, true)
  else (tmptim + 3, caltim - YEAR_SEC - YEAR_SEC - (YEAR_SEC + DAY_SEC), false)

/-- The year of a second, the seconds since its beginning, and whether it is a leap year. -/
def yearOf (caltim : ℤ) : ℤ × ℤ × Bool :=
  let tmptim := caltim.tdiv FOUR_YEAR_SEC
  yearOfInterval (tmptim * 4 + 70) (caltim - tmptim * FOUR_YEAR_SEC)

/-- The month of a day of the year, and its day in the month: the loop goes past the months that end
before the day, and then one back. -/
def monthOf (mdays : List ℤ) (yday : ℤ) : ℤ × ℤ :=
  let tmptim := mdays.tail.findIdx (· ≥ yday)
  (tmptim, yday - mdays.getD tmptim 0)

/-- `lualibc_gmtime` : the fields it stores, `none` if it returns NULL. -/
def gmtimeFields (timp : ℤ) : Option Tm :=
  if timp < 0 then none
  else
    let (tmYear, caltim, islpyr) := yearOf timp
    let tmYday := caltim.tdiv DAY_SEC
    let caltim := caltim - tmYday * DAY_SEC
    let (tmMon, tmMday) := monthOf (if islpyr then lpdays else cdays) tmYday
    let tmWday := (timp.tdiv DAY_SEC + BASE_DOW).tmod 7
    let tmHour := caltim.tdiv 3600
    let caltim := caltim - tmHour * 3600
    let tmMin := caltim.tdiv 60
    let tmSec := caltim - tmMin * 60
    some { tmSec, tmMin, tmHour, tmMday, tmMon, tmYear, tmWday, tmYday, tmIsdst := 0 }

/-- A field that counts up to `base`, and what is carried to the next one. -/
def carry (ltime base : ℤ) : ℤ × ℤ :=
  if ltime.tmod base < 0 then (ltime.tmod base + base, (ltime - base).tdiv base)
  else (ltime.tmod base, ltime.tdiv base)

/-- The end of `lualibc_localtime` for the first and the last days: the time zone is added to the
fields. -/
def addTimezone (ptm : Tm) : Tm :=
  let (tmSec, ltime) := carry (ptm.tmSec -
    if isindst ptm ≠ 0 then timezone + dstbias else timezone) 60
  let (tmMin, ltime) := carry (ptm.tmMin + ltime) 60
  let (tmHour, ltime) := carry (ptm.tmHour + ltime) 24
  let ptm : Tm := { ptm with tmSec, tmMin, tmHour }
  if ltime > 0 then
    { ptm with
      tmWday := (ptm.tmWday + ltime).tmod 7
      tmMday := ptm.tmMday + ltime
      tmYday := ptm.tmYday + ltime }
  else if ltime < 0 then
    let ptm : Tm :=
      { ptm with tmWday := (ptm.tmWday + 7 + ltime).tmod 7, tmMday := ptm.tmMday + ltime }
    if ptm.tmMday ≤ 0 then
      { ptm with tmMday := ptm.tmMday + 31, tmYday := 364, tmMon := 11, tmYear := ptm.tmYear - 1 }
    else { ptm with tmYday := ptm.tmYday + ltime }
  else ptm

/-- `lualibc_localtime` : the fields it stores, `none` if it returns NULL. -/
def localtimeFields (ptime : ℤ) : Option Tm :=
  if ptime < 0 then none
  else if ptime > 3 * DAY_SEC ∧ ptime < LONG_MAX - 3 * DAY_SEC then
    let ltime := wrap32 (ptime - timezone)
    (gmtimeFields ltime).bind fun ptm =>
      if daylight ≠ 0 ∧ isindst ptm ≠ 0 then
        (gmtimeFields (wrap32 (ltime - dstbias))).map ({ · with tmIsdst := 1 })
      else some ptm
  else (gmtimeFields ptime).map addTimezone

/-! ### The library's `struct tm` -/

/-- A `struct tm` that `_make_time_t` is given: the library's own one, or the caller's. -/
inductive TmPtr where
  | tb
  | caller
deriving DecidableEq, Repr

/-- The two. -/
structure TmMemory where
  tb : Tm := {}
  caller : Tm := {}
deriving DecidableEq, Repr

def TmMemory.deref (m : TmMemory) : TmPtr → Tm
  | .tb => m.tb
  | .caller => m.caller

def TmMemory.assign (m : TmMemory) (tm : Tm) : TmPtr → TmMemory
  | .tb => { m with tb := tm }
  | .caller => { m with caller := tm }

/-- The address that a conversion returns, and the memory after it. -/
def TmMemory.store (m : TmMemory) : Option Tm → Option TmPtr × TmMemory
  | none => (none, m)
  | some tm => (some .tb, m.assign tm .tb)

/-- `lualibc_gmtime`. -/
def gmtime (timp : ℤ) (m : TmMemory) : Option TmPtr × TmMemory := m.store (gmtimeFields timp)

/-- `lualibc_localtime`. -/
def localtime (ptime : ℤ) (m : TmMemory) : Option TmPtr × TmMemory := m.store (localtimeFields ptime)

/-! ### From fields to seconds -/

/-- `ChkAdd`. -/
def chkAdd (dest src1 src2 : ℤ) : Bool :=
  (src1 ≥ 0 && src2 ≥ 0 && dest < 0) || (src1 < 0 && src2 < 0 && dest ≥ 0)

/-- `ChkMul`. -/
def chkMul (dest src1 src2 : ℤ) : Bool := if src1 ≠ 0 then dest.tdiv src1 ≠ src2 else false

/-- A sum, `none` where `ChkAdd` says that it has overflowed. -/
def addChecked (src1 src2 : ℤ) : Option ℤ :=
  let dest := wrap32 (src1 + src2)
  if chkAdd dest src1 src2 then none else some dest

/-- A product, `none` where `ChkMul` says that it has overflowed. -/
def mulChecked (src1 src2 : ℤ) : Option ℤ :=
  let dest := wrap32 (src1 * src2)
  if chkMul dest src1 src2 then none else some dest

/-- The years that `_make_time_t` takes. -/
def yearInRange (year : ℤ) : Bool := ¬ (year < BASE_YEAR - 1 ∨ year > MAX_YEAR + 1)

/-- The month is brought into its range, and the years are carried. -/
def carryMonth (tmptm1 tmMon : ℤ) : ℤ × ℤ :=
  let tmptm1 := wrap32 (tmptm1 + tmMon.tdiv 12)
  if tmMon.tmod 12 < 0 then (wrap32 (tmptm1 - 1), tmMon.tmod 12 + 12) else (tmptm1, tmMon.tmod 12)

/-- The first part of `_make_time_t` : the number of elapsed years, `none` where it is out of range, and
the struct with the month in its range. -/
def adjustMonth (tm : Tm) : Option ℤ × Tm :=
  if yearInRange tm.tmYear then
    if tm.tmMon < 0 ∨ tm.tmMon > 11 then
      let (tmptm1, tmMon) := carryMonth tm.tmYear tm.tmMon
      (if yearInRange tmptm1 then some tmptm1 else none, { tm with tmMon })
    else (some tm.tmYear, tm)
  else (none, tm)

/-- The elapsed days before a month, by a rule that is right for the years in range. -/
def daysToMonth (tmptm1 tmMon : ℤ) : ℤ :=
  let tmptm2 := cdays.getD tmMon.toNat 0 + if tmptm1 % 4 = 0 ∧ tmMon > 1 then 1 else 0
  -- shifting right rounds down
  wrap32 ((tmptm1 - BASE_YEAR) * 365 + (tmptm1 - 1) / 4 - LEAP_YEAR_ADJUST) + tmptm2

/-- The second part of `_make_time_t` : the number of elapsed seconds, `none` where a check fails. -/
def elapsedSeconds (tmptm1 : ℤ) (tm : Tm) : Option ℤ := do
  let days ← addChecked (daysToMonth tmptm1 tm.tmMon) tm.tmMday
  let hours ← addChecked (← mulChecked days 24) tm.tmHour
  let minutes ← addChecked (← mulChecked hours 60) tm.tmMin
  addChecked (← mulChecked minutes 60) tm.tmSec

/-- `_make_time_t` : its result and the memory after it; `none` where it follows a null pointer. -/
def makeTimeT (p : TmPtr) (ultflag : Bool) (m : TmMemory) : Option (ℤ × TmMemory) :=
  let (years, tm) := adjustMonth (m.deref p)
  let m := m.assign tm p
  match years.bind fun tmptm1 => elapsedSeconds tmptm1 tm with
  | none => some (-1, m)
  | some tmptm1 =>
    if ultflag then
      let tmptm1 := wrap32 (tmptm1 + timezone)
      match localtime tmptm1 m with
      | (none, m) => some (-1, m)
      | (some tbtemp, m) =>
        -- the struct may be the one that was just written
        if (m.deref p).tmIsdst > 0 ∨ ((m.deref p).tmIsdst < 0 ∧ (m.deref tbtemp).tmIsdst > 0) then
          let tmptm1 := wrap32 (tmptm1 + dstbias)
          match localtime tmptm1 m with
          | (none, _) => none
          | (some tbtemp, m) => some (tmptm1, m.assign (m.deref tbtemp) p)
        else some (tmptm1, m.assign (m.deref tbtemp) p)
    else
      match gmtime tmptm1 m with
      | (none, m) => some (-1, m)
      | (some tbtemp, m) => some (tmptm1, m.assign (m.deref tbtemp) p)

/-- `_mkgmtime`. -/
def mkgmtime (p : TmPtr) (m : TmMemory) : Option (ℤ × TmMemory) := makeTimeT p false m

/-- `lualibc_mktime`. -/
def mktime (p : TmPtr) (m : TmMemory) : Option (ℤ × TmMemory) := makeTimeT p true m

/-- `_gmtotime_t`, which takes the date as local time; `none` where the month is not in the table. -/
def gmtotimeT (yr mo dy hr mn sc : ℤ) : Option ℤ :=
  let yr := yr - 1900
  if yr < BASE_YEAR ∨ yr > MAX_YEAR then some (-1)
  else if mo < 1 then none
  else (cdays[(mo - 1).toNat]?).map fun day =>
    let tmpdays := dy + day + if yr % 4 = 0 ∧ mo > 2 then 1 else 0
    let tmptim := wrap32 (((((yr - BASE_YEAR) * 365 + (yr - 1) / 4 - LEAP_YEAR_ADJUST + tmpdays) * 24 +
      hr) * 60 + mn) * 60 + sc)
    let tmptim := wrap32 (tmptim + timezone)
    let timeblock : Tm := { tmYday := tmpdays, tmYear := yr, tmMon := mo - 1, tmHour := hr }
    let tmptim := if daylight ≠ 0 ∧ isindst timeblock ≠ 0 then wrap32 (tmptim - 3600) else tmptim
    if tmptim ≥ 0 then tmptim else -1

end OsdCore
