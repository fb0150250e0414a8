import Mathlib.Logic.Function.Basic
import OsdCore.Format.CString
import OsdCore.Prog.Machine

/-!
# Playing audio: `platform_audio.c`

The Lua task calls `platform_audio_play` and `platform_audio_stop`, and the system calls `audio_play_callback`
at the end of a clip.  All of them read and write `isPlaying` and `audplaybuffer`, without any protection; each
of these accesses, and each call of the system, is one step.  The callbacks of several clips may be under way
at once.

A buffer is known by a number that no other one gets, and so is a clip.  Which buffers have been freed, and
which clips play, is not part of the program.
-/

namespace OsdCore

/-! ### Formats -/

/-- `E_AMOPENAT_PLAY_MODE` : those that are used. -/
inductive PlayMode where
  | amrRing
  | mp3
  | pcm
  | wav
  | midi
deriving DecidableEq, Repr

/-- `getDataFormat` : `none` is `OPENAT_AUD_PLAY_MODE_QTY`. -/
def getDataFormat (audFormat : ℕ) : Option PlayMode :=
  [PlayMode.amrRing, .mp3, .pcm, .wav, .midi][audFormat]?

/-- `E_AMOPENAT_PLAY_FILE_FORMAT` : those that are used. -/
inductive PlayFileFormat where
  | amr
  | mp3
  | midi
deriving DecidableEq, Repr

/-- `getFileFormat` : `none` is -1. -/
def getFileFormat (filename : Bytes) : Option PlayFileFormat :=
  if strstr filename (ascii ".amr") || strstr filename (ascii ".AMR") then some .amr
  else if strstr filename (ascii ".mp3") || strstr filename (ascii ".MP3") then some .mp3
  else if strstr filename (ascii ".mid") || strstr filename (ascii ".MID") then some .midi
  else none

/-! ### The state -/

/-- `AudioPlayParam`. -/
inductive AudioPlayParam where
  | buffer (format len : ℕ)
  | file (filename : Bytes)
deriving DecidableEq, Repr

/-- `T_AMOPENAT_PLAY_PARAM`. -/
inductive PlayParam where
  | buffer (pBuffer : Option ℕ) (len : ℕ) (format : PlayMode)
  | file (fileFormat : PlayFileFormat) (fileName : Bytes)
deriving DecidableEq, Repr

/-- The buffer of a clip, if it has one. -/
def PlayParam.pBuffer : PlayParam → Option ℕ
  | buffer pBuffer _ _ => pBuffer
  | file _ _ => none

/-- What the two functions return: `PLATFORM_OK`, or `PLATFORM_ERR` with a trace. -/
inductive AudioResult where
  | ok
  | playing
  | bufferNotFree
  | unknownDataFormat
  | notEnoughMemory
  | unknownFormat
  | playMusicFailed
deriving DecidableEq, Repr

/-- Where the Lua task is: what it is about to do. -/
inductive LuaAudio where
  | idle
  | testPlaying (param : AudioPlayParam)
  | testBuffer (format len : ℕ)
  | alloc (mode : PlayMode) (len : ℕ)
  | testNull (mode : PlayMode) (len : ℕ)
  | copy (mode : PlayMode) (len : ℕ)
  | start (param : PlayParam)
  | failTest
  | failFree
  | failNull
  | setPlaying
  | stopTest
  | stopMusic
  | stopBuffer
  | stopFree
  | stopNull
  | stopClear
deriving DecidableEq, Repr

/-- `E_AMOPENAT_PLAY_ERROR`. -/
inductive PlayError where
  | errNo
  | endOfFile
  | error (code : ℕ)
deriving DecidableEq, Repr

/-- `RTOS_MSG_AUDIO` with `playEndInd`, or with `playErrorInd`. -/
inductive AudioMsg where
  | playEnd
  | playError
deriving DecidableEq, Repr

/-- Where a callback is. -/
inductive CallbackPc where
  | test
  | free
  | null
  | clear
  | send
deriving DecidableEq, Repr

/-- A call of `audio_play_callback`. -/
structure AudioCallback where
  result : PlayError
  pc : CallbackPc := .test
deriving DecidableEq, Repr

/-- The two variables, the Lua task and the callbacks by their clips, what the functions have returned and the
callbacks have sent, and what has become of the buffers and the clips. -/
structure AudioState where
  isPlaying : Bool := false
  audplaybuffer : Option ℕ := none
  lua : LuaAudio := .idle
  callbacks : ℕ → Option AudioCallback := fun _ => none
  results : List AudioResult := []
  messages : List AudioMsg := []
  /-- The number of buffers that have been allocated. -/
  allocated : ℕ := 0
  /-- The buffers that `platform_free` has been given. -/
  freed : List ℕ := []
  /-- The clips that have been started. -/
  clips : List PlayParam := []
  /-- Those that play. -/
  playing : List ℕ := []
  /-- Those whose callback has been called. -/
  called : List ℕ := []
  /-- Those whose callback has set `isPlaying` to FALSE. -/
  cleared : List ℕ := []

/-! ### The steps -/

namespace AudioState

variable (s : AudioState)

/-- `platform_free(audplaybuffer)`. -/
def freeBuffer : AudioState := { s with freed := s.freed ++ s.audplaybuffer.toList }

/-- The function returns. -/
def done (result : AudioResult) : AudioState := { s with lua := .idle, results := s.results ++ [result] }

/-- The next step of the Lua task; `ok` says whether the system has the memory, or plays the music. -/
def luaStep (ok : Bool) : Option AudioState :=
  match s.lua with
  | .idle => none
  | .testPlaying param =>
    if s.isPlaying then some (s.done .playing)
    else
      match param with
      | .buffer format len => some { s with lua := .testBuffer format len }
      | .file filename =>
        match getFileFormat filename with
        | none => some (s.done .unknownFormat)
        | some fileformat => some { s with lua := .start (.file fileformat filename) }
  | .testBuffer format len =>
    if s.audplaybuffer.isSome then some (s.done .bufferNotFree)
    else
      match getDataFormat format with
      | none => some (s.done .unknownDataFormat)
      | some mode => some { s with lua := .alloc mode len }
  | .alloc mode len =>
    if ok then
      some { s with
        audplaybuffer := some s.allocated
        allocated := s.allocated + 1
        lua := .testNull mode len }
    else some { s with audplaybuffer := none, lua := .testNull mode len }
  | .testNull mode len =>
    if s.audplaybuffer.isNone then some (s.done .notEnoughMemory)
    else some { s with lua := .copy mode len }
  | .copy mode len => some { s with lua := .start (.buffer s.audplaybuffer len mode) }
  | .start param =>
    if ok then
      some { s with
        clips := s.clips ++ [param]
        playing := s.playing ++ [s.clips.length]
        lua := .setPlaying }
    else some { s with lua := .failTest }
  | .failTest =>
    if s.audplaybuffer.isSome then some { s with lua := .failFree } else some (s.done .playMusicFailed)
  | .failFree => some { s.freeBuffer with lua := .failNull }
  | .failNull => some { s.done .playMusicFailed with audplaybuffer := none }
  | .setPlaying => some { s.done .ok with isPlaying := true }
  | .stopTest => if s.isPlaying then some { s with lua := .stopMusic } else some (s.done .ok)
  | .stopMusic => some { s with playing := [], lua := .stopBuffer }
  | .stopBuffer =>
    if s.audplaybuffer.isSome then some { s with lua := .stopFree } else some { s with lua := .stopClear }
  | .stopFree => some { s.freeBuffer with lua := .stopNull }
  | .stopNull => some { s with audplaybuffer := none, lua := .stopClear }
  | .stopClear => some { s.done .ok with isPlaying := false }

/-- A callback goes on. -/
def moveCallback (clip : ℕ) (c : AudioCallback) (pc : CallbackPc) : AudioState :=
  { s with callbacks := Function.update s.callbacks clip (some { c with pc }) }

/-- The next step of the callback of a clip. -/
def callbackStep (clip : ℕ) (c : AudioCallback) : AudioState :=
  match c.pc with
  | .test =>
    if s.audplaybuffer.isSome then s.moveCallback clip c .free else s.moveCallback clip c .clear
  | .free => s.freeBuffer.moveCallback clip c .null
  | .null => { s with audplaybuffer := none }.moveCallback clip c .clear
  | .clear => { s with isPlaying := false, cleared := s.cleared ++ [clip] }.moveCallback clip c .send
  | .send =>
    { s with
      messages := s.messages ++
        [if c.result = .errNo ∨ c.result = .endOfFile then .playEnd else .playError]
      callbacks := Function.update s.callbacks clip none }

end AudioState

/-- What can happen next: the Lua task calls one of the functions, or goes on; the callback of a clip is called,
or goes on. -/
inductive AudioAction where
  | play (param : AudioPlayParam)
  | stop
  | lua (ok : Bool)
  | call (clip : ℕ) (result : PlayError)
  | callback (clip : ℕ)
deriving DecidableEq, Repr

/-- `none` where it cannot happen.  A clip has come to its end when its callback is called; it has one at
most. -/
def audioStep (s : AudioState) : AudioAction → Option AudioState
  | .play param => if s.lua = .idle then some { s with lua := .testPlaying param } else none
  | .stop => if s.lua = .idle then some { s with lua := .stopTest } else none
  | .lua ok => s.luaStep ok
  | .call clip result =>
    if clip < s.clips.length ∧ clip ∉ s.called then
      some { s with
        playing := s.playing.filter (· ≠ clip)
        called := s.called ++ [clip]
        callbacks := Function.update s.callbacks clip (some { result }) }
    else none
  | .callback clip => (s.callbacks clip).map (s.callbackStep clip)

/-! ### What is asked of it -/

/-- The buffer of a clip, if it has one. -/
def AudioState.bufferOf (s : AudioState) (clip : ℕ) : Option ℕ := s.clips[clip]?.bind PlayParam.pBuffer

/-- The clip that was started last. -/
def AudioState.IsCurrent (s : AudioState) (clip : ℕ) : Prop := clip + 1 = s.clips.length

/-- The play protocol: no buffer is freed twice, or while its clip plays; when nobody is at work, every buffer
has been freed, but for that of the current clip while its callback has not been called; and once the callback
of the current clip has run, `isPlaying` is FALSE. -/
structure AudioState.Sound (s : AudioState) : Prop where
  once : s.freed.Nodup
  playing : ∀ clip ∈ s.playing, ∀ b, s.bufferOf clip = some b → b ∉ s.freed
  all : s.lua = .idle → (∀ clip, s.callbacks clip = none) → ∀ b < s.allocated, b ∈ s.freed ∨
    s.audplaybuffer = some b ∧ ∃ clip, s.IsCurrent clip ∧ s.bufferOf clip = some b ∧ clip ∉ s.called
  run : ∀ clip, s.IsCurrent clip → clip ∈ s.cleared → s.isPlaying = false

end OsdCore
