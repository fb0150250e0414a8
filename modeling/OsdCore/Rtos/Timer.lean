import Mathlib.Data.Fin.Basic
import Mathlib.Data.List.FinRange
import Mathlib.Logic.Function.Basic
import OsdCore.Prog.Machine

/-!
# The timers of the Lua task: `platform_rtos.c`

The Lua task starts and stops timers, and a callback of the system's timers takes a timer that has expired out
of the table.  What is done while the semaphore is held is one step, and so is each look at a slot of the
table without it.

The system's timers are known by their handles, of which 0 is none.  A handle that `create_timer` returns is
not that of a timer that exists; it may be one that has been deleted.

`TimerRun`, and the lists of what has been started, created and deleted, are not part of the program.
-/

namespace OsdCore

def MAX_LUA_TIMERS : ℕ := 40

/-- `OPENAT_INVALID_HANDLE`. -/
def OPENAT_INVALID_HANDLE : ℕ := 0

/-- `LuaTimerParam`. -/
structure LuaTimerParam where
  hOsTimer : ℕ := OPENAT_INVALID_HANDLE
  luaTimerId : ℤ := 0
deriving DecidableEq, Repr

/-- A timer of the Lua task, with a number that no other timer gets. -/
structure TimerRun where
  serial : ℕ
  timerId : ℤ
deriving DecidableEq, Repr

/-- A timer of the system: the parameter of its callback, which callback it is, and whether it runs. -/
structure OsTimer where
  run : TimerRun
  high : Bool
  running : Bool
deriving DecidableEq, Repr

/-- A call of `platform_rtos_timer_callback`, or of its high-priority twin: the handle and the parameter,
and whether it has sent its message. -/
structure TimerCallback where
  handle : ℕ
  run : TimerRun
  high : Bool
  sent : Bool := false
deriving DecidableEq, Repr

/-- Where the Lua task is. -/
inductive LuaCall where
  | idle
  /-- In `platform_rtos_start_timer`, at the head of the first loop. -/
  | scan (timerId : ℤ) (high : Bool) (index : ℕ)
  /-- In `platform_rtos_stop_timer`, called from there, before the semaphore. -/
  | stopFirst (timerId : ℤ) (high : Bool)
  /-- In `platform_rtos_start_timer`, before the semaphore. -/
  | startSem (timerId : ℤ) (high : Bool)
  /-- After it, with a timer that could not be started. -/
  | startError (handle : ℕ)
  /-- In `platform_rtos_stop_timer`, before the semaphore. -/
  | stopSem (timerId : ℤ)
deriving DecidableEq, Repr

/-- The table, the system's timers by their handles, the callbacks, the call of the Lua task, and the messages
that have been sent. -/
structure TimerState where
  luaTimerParam : Fin MAX_LUA_TIMERS → LuaTimerParam := fun _ => {}
  os : ℕ → Option OsTimer := fun _ => none
  callbacks : List TimerCallback := []
  lua : LuaCall := .idle
  messages : List TimerRun := []
  /-- The successful starts. -/
  started : List TimerRun := []
  /-- The handles that `create_timer` has returned. -/
  created : List ℕ := []
  /-- The handles that `delete_timer` has been given. -/
  deleted : List ℕ := []
  /-- The timers that have been started, and have neither been stopped or restarted nor expired. -/
  armed : ℤ → Option ℕ := fun _ => none

namespace TimerState

variable (s : TimerState)

/-- The first slot with a property. -/
def findSlot (p : LuaTimerParam → Bool) : Option (Fin MAX_LUA_TIMERS) :=
  (List.finRange MAX_LUA_TIMERS).find? fun i => p (s.luaTimerParam i)

/-- `stop_timer`. -/
def stopTimer (handle : ℕ) : TimerState :=
  { s with os := Function.update s.os handle ((s.os handle).map ({ · with running := false })) }

/-- `delete_timer`. -/
def deleteTimer (handle : ℕ) : TimerState :=
  { s with os := Function.update s.os handle none, deleted := s.deleted ++ [handle] }

/-- The timer in a slot is deleted, and the slot is free. -/
def clearSlot (i : Fin MAX_LUA_TIMERS) : TimerState :=
  let s := s.deleteTimer (s.luaTimerParam i).hOsTimer
  { s with
    luaTimerParam := Function.update s.luaTimerParam i
      { s.luaTimerParam i with hOsTimer := OPENAT_INVALID_HANDLE } }

/-- A slot with a timer of this number. -/
def holds (timerId : ℤ) (slot : LuaTimerParam) : Bool :=
  slot.hOsTimer ≠ OPENAT_INVALID_HANDLE && slot.luaTimerId = timerId

/-- `platform_rtos_stop_timer`, while it holds the semaphore. -/
def stopSection (timerId : ℤ) : TimerState :=
  match s.findSlot (holds timerId) with
  | none => s
  | some i => (s.stopTimer (s.luaTimerParam i).hOsTimer).clearSlot i

/-- `platform_rtos_start_timer`, while it holds the semaphore: `handle` is what `create_timer` returns, and
`ok` what `start_timer` does. -/
def startSection (timerId : ℤ) (high : Bool) (handle : ℕ) (ok : Bool) : Option TimerState :=
  match s.findSlot (·.hOsTimer = OPENAT_INVALID_HANDLE) with
  | none => some { s with lua := .idle }
  | some i =>
    if handle = OPENAT_INVALID_HANDLE then some { s with lua := .idle }
    else if (s.os handle).isSome then none
    else
      let run : TimerRun := { serial := s.created.length, timerId }
      let s := { s with
        os := Function.update s.os handle (some { run, high, running := ok })
        created := s.created ++ [handle] }
      if ok then
        some { s with
          luaTimerParam := Function.update s.luaTimerParam i { hOsTimer := handle, luaTimerId := timerId }
          started := s.started ++ [run]
          armed := Function.update s.armed timerId (some run.serial)
          lua := .idle }
      else some { s with lua := .startError handle }

/-- The next step of the call of the Lua task. -/
def luaStep : Option TimerState :=
  match s.lua with
  | .scan timerId high index =>
    if h : index < MAX_LUA_TIMERS then
      if holds timerId (s.luaTimerParam ⟨index, h⟩) then some { s with lua := .stopFirst timerId high }
      else some { s with lua := .scan timerId high (index + 1) }
    else some { s with lua := .startSem timerId high }
  | .stopFirst timerId high => some { s.stopSection timerId with lua := .startSem timerId high }
  | .startError handle => some { s.deleteTimer handle with lua := .idle }
  | .stopSem timerId => some { s.stopSection timerId with lua := .idle }
  | .idle => none
  | .startSem _ _ => none

/-- A callback, while it holds the semaphore. -/
def callbackSection (handle : ℕ) : TimerState :=
  match s.findSlot (·.hOsTimer = handle) with
  | none => s
  | some i => s.clearSlot i

end TimerState

/-- What can happen next: the Lua task calls one of the two functions, or goes on in its call; a timer
expires, and its callback sends the message, or goes on to its end. -/
inductive TimerAction where
  | start (timerId : ℤ) (high : Bool)
  | stop (timerId : ℤ)
  | lua
  | create (handle : ℕ) (ok : Bool)
  | expire (handle : ℕ)
  | send (index : ℕ)
  | callback (index : ℕ)
deriving DecidableEq, Repr

/-- `none` where it cannot happen. -/
def timerStep (s : TimerState) : TimerAction → Option TimerState
  | .start timerId high =>
    if s.lua = .idle then
      some { s with lua := .scan timerId high 0, armed := Function.update s.armed timerId none }
    else none
  | .stop timerId =>
    if s.lua = .idle then
      some { s with lua := .stopSem timerId, armed := Function.update s.armed timerId none }
    else none
  | .lua => s.luaStep
  | .create handle ok =>
    match s.lua with
    | .startSem timerId high => s.startSection timerId high handle ok
    | _ => none
  | .expire handle => do
    let t ← s.os handle
    if t.running then
      some { s with
        os := Function.update s.os handle (some { t with running := false })
        callbacks := s.callbacks ++ [{ handle, run := t.run, high := t.high }]
        armed := if s.armed t.run.timerId = some t.run.serial then
            Function.update s.armed t.run.timerId none
          else s.armed }
    else none
  | .send index => do
    let c ← s.callbacks[index]?
    if c.sent then none
    else some { s with
      callbacks := s.callbacks.set index { c with sent := true }
      -- `platform_rtos_send_high_priority`, or `platform_rtos_send`
      messages := if c.high then c.run :: s.messages else s.messages ++ [c.run] }
  | .callback index => do
    let c ← s.callbacks[index]?
    if c.sent then some ({ s with callbacks := s.callbacks.eraseIdx index }.callbackSection c.handle)
    else none

end OsdCore
