import OsdCore.Uart.Phy
import OsdCore.Uart.Debug

/-!
# `uart.read`: `uart_read` of `uart.c`, down to `uart_phy_read`

The timeout is 0 and the port is open and not a polled one, so that `platform_uart_recv`,
`cmn_recv_helper` and `platform_s_uart_recv` come down to one call of `uart_phy_read` for one byte. 
Bytes may arrive at any point of a call but the one at which the interrupt is disabled.

* `uartReadByte` : the body of the loop of `uart_read`.
* `uartReaderStep` : the port and its reader, a step at a time.
* `UartReadResult.Exact` : what a call has to return, from what it was offered.
* `Carries.oneStep` : what a step of `uart_phy_read` does for a call that wants one byte.
-/

namespace OsdCore

/-! ### The functions -/

/-- `mode`; `maxsize` is not negative. -/
inductive UartReadMode where
  | line
  | number
  | space
  | maxsize (maxsize : ℕ)
deriving DecidableEq, Repr

/-- `isdigit`. -/
def isdigit (c : UInt8) : Bool := decide (0x30 ≤ c ∧ c ≤ 0x39)

/-- `isspace`, in the C locale. -/
def isspace (c : UInt8) : Bool := decide (c = 0x20 ∨ (0x09 ≤ c ∧ c ≤ 0x0D))

/-- What a round of the loop leads to: `count` and the `luaL_Buffer`. -/
inductive UartReadRound where
  | more (count : ℕ) (b : Bytes)
  | finished (b : Bytes)
deriving DecidableEq, Repr

/-- A round of the loop of `uart_read`, with what `platform_uart_recv` returns; `none` is -1. -/
def uartReadByte (mode : UartReadMode) (count : ℕ) (b : Bytes) : Option UInt8 → UartReadRound
  | none => .finished b
  | some cres =>
    let count := count + 1
    let issign := count = 1 ∧ (cres = 0x2D ∨ cres = 0x2B)
    if cres = LF ∧ mode = .line then .finished (b ++ [cres])
    else if ¬ isdigit cres ∧ ¬ issign ∧ mode = .number then .finished b
    else if isspace cres ∧ mode = .space then .finished b
    else if mode = .maxsize count then .finished (b ++ [cres])
    else .more count (b ++ [cres])

/-- `platform_s_uart_recv` : the byte that `uart_phy_read` has stored, -1 if there is none. -/
def platformSUartRecv (data : Bytes) : Option UInt8 := data.head?

/-- A call of `uart_read` : its variables, the call of `uart_phy_read` for one byte, and, for the
specification only, what was unread when it began, whether no byte has arrived since then, and what it
was offered when it last looked. -/
structure UartReadCall where
  mode : UartReadMode
  count : ℕ := 0
  b : Bytes := []
  recv : ReadCall := .loop 1 []
  atStart : Bytes
  quiet : Bool := true
  offered : Bytes
deriving DecidableEq, Repr

/-- A call that has returned. -/
structure UartReadResult where
  mode : UartReadMode
  data : Bytes
  atStart : Bytes
  quiet : Bool
  offered : Bytes
deriving DecidableEq, Repr

/-- A port and its reader. -/
structure UartReader where
  buffers : RxBuffers
  call : Option UartReadCall := none
  results : List UartReadResult := []
  passage : Passage UART_RX_BUF_SIZE := {}

/-- The call of `uart_phy_read` that is going on. -/
def UartReader.recv (s : UartReader) : Option ReadCall := s.call.map UartReadCall.recv

/-- The bytes that no call of `uart_phy_read` has returned. -/
def RxBuffers.rest (b : RxBuffers) (call : Option ReadCall) : Bytes :=
  storedData call ++ b.unread call ++ b.rxqueue.content

/-- What the reader does, and the interrupt. -/
inductive UartReaderAction where
  | received (data : Bytes)
  | uartRead (mode : UartReadMode)
  | step
deriving DecidableEq, Repr

/-- The call after a step of `uart_phy_read`. -/
def UartReadCall.after (call : UartReadCall) (buffers : RxBuffers) :
    ReadOutcome → Option UartReadCall × Option UartReadResult
  | .go recv =>
    (some { call with recv, offered := call.b ++ buffers.rest (some recv) }, none)
  | .done _ data =>
    match uartReadByte call.mode call.count call.b (platformSUartRecv data) with
    | .more count b => (some { call with count, b, recv := .loop 1 [] }, none)
    | .finished b =>
      (none, some
        { mode := call.mode
          data := b
          atStart := call.atStart
          quiet := call.quiet
          offered := call.offered })

/-- `none` where a buffer is left, or where it cannot happen. -/
def uartReaderStep (s : UartReader) : UartReaderAction → Option UartReader
  | .received data =>
    (queueInsert s.buffers.rxqueue data).map fun (_, rxqueue) =>
      { s with
        buffers := { s.buffers with rxqueue }
        call := s.call.map fun call => { call with quiet := false }
        passage := s.passage.arrive data }
  | .uartRead mode =>
    if s.call.isSome then none
    else
      let atStart := s.buffers.rest none
      some { s with call := some { mode, atStart, offered := atStart } }
  | .step => do
    let call ← s.call
    let (buffers, out) ← uartPhyReadStep s.buffers call.recv
    some
      { buffers
        call := (call.after buffers out).1
        results := s.results ++ (call.after buffers out).2.toList
        passage := s.passage.after READ_BUFFER_SIZE out }

/-- The bytes up to the first newline, or all of them. -/
def throughNewline : Bytes → Bytes
  | [] => []
  | c :: s => if c = LF then [c] else c :: throughNewline s

/-- A maximum size, or `*l`. -/
inductive UartReadMode.Plain : UartReadMode → Prop
  | line : Plain .line
  | maxsize {n : ℕ} (h : 1 ≤ n) : Plain (.maxsize n)

/-- What a call returns of the bytes that it is offered. -/
def UartReadMode.Answer (offered data : Bytes) : UartReadMode → Prop
  | .line => data = throughNewline offered
  | .maxsize n => data = offered.take n
  | .number => True
  | .space => True

/-- A call has returned what it is to return: of the bytes that were available when it last looked,
which are those that were unread when it began if none arrived. -/
structure UartReadResult.Exact (r : UartReadResult) : Prop where
  answer : r.mode.Answer r.offered r.data
  quiet : r.quiet = true → r.offered = r.atStart

/-- The calls are plain ones. -/
def PlainRead (_ : UartReader) : UartReaderAction → Prop
  | .uartRead mode => mode.Plain
  | _ => True

/-- The size is tested. -/
instance decidablePlain : (mode : UartReadMode) → Decidable mode.Plain
  | .line => .isTrue .line
  | .maxsize n =>
    if h : 1 ≤ n then .isTrue (.maxsize h)
    else .isFalse fun hp => by
      cases hp
      contradiction
  | .number => .isFalse fun hp => by cases hp
  | .space => .isFalse fun hp => by cases hp

instance decidablePlainRead (s : UartReader) (a : UartReaderAction) : Decidable (PlainRead s a) :=
  match a with
  | .uartRead mode => decidablePlain mode
  | .received _ => .isTrue trivial
  | .step => .isTrue trivial

/-- What has been returned, in the order of the calls. -/
def UartReader.returned (s : UartReader) : Bytes := s.results.flatMap UartReadResult.data

/-- What has not been returned: the call that is going on has the first of it. -/
def UartReader.unread (s : UartReader) : Bytes :=
  (s.call.elim [] UartReadCall.b) ++ s.buffers.rest s.recv

/-- The reader reads the stream: each call has returned what it is to return; all of it, with what is
still unread, is the stream without the bytes that an overflow of the ring has pushed out; and a call
that is going on returns. -/
structure UartReader.Reads (s : UartReader) : Prop where
  exact : ∀ r ∈ s.results, r.Exact
  stream : OnceInOrder s.passage.line s.passage.history.lost (s.returned ++ s.unread)
  whole : s.passage.history.lost = [] → s.returned ++ s.unread = s.passage.line
  returns : ∃ s', Steps uartReaderStep (fun _ a => a = .step) s s' ∧ s'.call = none

/-! ### One byte -/

theorem throughNewline_of_notMem {s : Bytes} (h : LF ∉ s) : throughNewline s = s := by
  induction s with
  | nil => rfl
  | cons c s ih =>
    rw [List.mem_cons, not_or] at h
    rw [throughNewline, if_neg (Ne.symm h.1), ih h.2]

theorem throughNewline_append {a : Bytes} (h : LF ∉ a) (rest : Bytes) :
    throughNewline (a ++ LF :: rest) = a ++ [LF] := by
  induction a with
  | nil => rfl
  | cons c a ih =>
    rw [List.mem_cons, not_or] at h
    rw [List.cons_append, throughNewline, if_neg (Ne.symm h.1), ih h.2, List.cons_append]

/-- The loop has not come to its end. -/
def UartReadMode.Short (count : ℕ) (b : Bytes) : UartReadMode → Prop
  | .line => LF ∉ b
  | .maxsize n => b.length = count ∧ count < n
  | .number => True
  | .space => True

variable {mode : UartReadMode} {count : ℕ} {b : Bytes}

/-- **A round with a byte** keeps it, and ends the call only where its answer is complete. -/
theorem uartReadByte_found (hp : mode.Plain) (hs : mode.Short count b) (x : UInt8) (rest : Bytes) :
    (uartReadByte mode count b (some x) = .finished (b ++ [x]) ∧
        mode.Answer (b ++ x :: rest) (b ++ [x])) ∨
      (uartReadByte mode count b (some x) = .more (count + 1) (b ++ [x]) ∧
        mode.Short (count + 1) (b ++ [x])) := by
  cases hp with
  | line =>
    by_cases hx : x = LF
    · left
      subst hx
      exact ⟨by simp [uartReadByte], (throughNewline_append hs rest).symm⟩
    · right
      refine ⟨by simp [uartReadByte, hx], ?_⟩
      intro hmem
      rcases List.mem_append.1 hmem with hmem | hmem
      · exact hs hmem
      · exact hx (List.mem_singleton.1 hmem).symm
  | @maxsize n hn =>
    obtain ⟨hlen, hlt⟩ := hs
    have hlen' : (b ++ [x]).length = count + 1 := by rw [List.length_append, hlen, List.length_singleton]
    by_cases hn' : n = count + 1
    · left
      refine ⟨by simp [uartReadByte, hn'], ?_⟩
      rw [UartReadMode.Answer, List.append_cons b x rest, List.take_left' (hlen'.trans hn'.symm)]
    · right
      exact ⟨by simp [uartReadByte, hn'], hlen', by omega⟩

/-- **A round without one** ends the call. -/
theorem uartReadByte_nothing (hp : mode.Plain) (hs : mode.Short count b) :
    uartReadByte mode count b none = .finished b ∧ mode.Answer b b := by
  refine ⟨rfl, ?_⟩
  cases hp with
  | line => exact (throughNewline_of_notMem hs).symm
  | maxsize hn => exact (List.take_of_length_le (by have hlt := hs.2; have hlen := hs.1; omega)).symm

/-! ### One step of `uart_phy_read` -/

/-- Where a call for one byte is. -/
inductive ReadCall.One : ReadCall → Prop
  | begin : One (.loop 1 [])
  | copied (x : UInt8) : One (.loop 1 [x])
  | refilled : One (.refilled 1 [])

/-- What its next step can be. -/
inductive ReadCall.OneStep (b b' : RxBuffers) : ReadCall → ReadOutcome → Prop
  | copyFirst (x : UInt8) : OneStep b b' (.loop 1 []) (.go (.loop 1 [x]))
  | refill (h : b'.readsize = 0 → b'.rxqueue.content = []) :
      OneStep b b' (.loop 1 []) (.go (.refilled 1 []))
  | found (x : UInt8) : OneStep b b' (.loop 1 [x]) (.done 1 [x])
  | copyNext (x : UInt8) : OneStep b b' (.refilled 1 []) (.go (.loop 1 [x]))
  | nothing (h : b.readsize = 0) : OneStep b b' (.refilled 1 []) (.done 1 [])

theorem copyByte_eq_some {w length : ℕ} {b b' : RxBuffers} {data : Bytes} {out : ReadOutcome}
    (h : copyByte w b length data = some (b', out)) : ∃ x, out = .go (.loop length (data ++ [x])) := by
  obtain ⟨x, -, hx⟩ := Option.map_eq_some_iff.1 h
  exact ⟨x, (congrArg Prod.snd hx).symm⟩

section

variable {n : ℕ} {buffers buffers' : RxBuffers} {recv : ReadCall} {out : ReadOutcome} {p : Passage n}

/-- **A step of a call for one byte.** -/
theorem Carries.oneStep (h : Carries READ_BUFFER_SIZE buffers (some recv) p) (hone : recv.One) :
    ∃ buffers' out, uartPhyReadStep buffers recv = some (buffers', out) ∧
      Carries READ_BUFFER_SIZE buffers' out.call (p.after READ_BUFFER_SIZE out) ∧
      recv.OneStep buffers buffers' out := by
  obtain ⟨buffers', out, hstep, h', htells⟩ :=
    Carries.readStep (w := 8) (by decide) (by decide) (by decide) h
  refine ⟨buffers', out, hstep, h', ?_⟩
  cases hone with
  | begin =>
    rw [OsdCore.readStep, if_pos (by decide)] at hstep
    split_ifs at hstep with hempty
    · obtain ⟨⟨k, bytes, q⟩, -, hq⟩ := Option.map_eq_some_iff.1 hstep
      obtain rfl : .go (.refilled 1 []) = out := congrArg Prod.snd hq
      exact .refill htells
    · obtain ⟨x, rfl⟩ := copyByte_eq_some hstep
      exact .copyFirst x
  | copied x =>
    rw [OsdCore.readStep, if_neg (by simp)] at hstep
    cases hstep
    exact .found x
  | refilled =>
    simp only [OsdCore.readStep] at hstep
    split_ifs at hstep with hzero
    · cases hstep
      exact .nothing hzero
    · obtain ⟨x, rfl⟩ := copyByte_eq_some hstep
      exact .copyNext x

/-- What the callers have and what is left, by the numbers of the bytes. -/
theorem Carries.received_rest {call : Option ReadCall} (h : Carries READ_BUFFER_SIZE buffers call p) :
    p.received ++ buffers.rest call = (p.history.taken ++ p.history.waiting.items).map p.byte := by
  have hcontent : buffers.rxqueue.content = p.history.waiting.items.map p.byte := h.ring.content_eq
  rw [List.map_append, ← h.flow, ← hcontent]
  simp [RxBuffers.rest]

/-- A step of the reader loses nothing and reads nothing twice. -/
theorem Passage.kept_after (p : Passage n) (k : ℕ) (out : ReadOutcome) :
    (p.after k out).history.taken ++ (p.after k out).history.waiting.items =
      p.history.taken ++ p.history.waiting.items := by
  cases out with
  | done length data => rfl
  | go recv =>
    cases recv with
    | loop length data => rfl
    | refilled length data =>
      simp [Passage.after, Channel.take, Fifo.delete]

theorem Carries.rest_after (h : Carries READ_BUFFER_SIZE buffers (some recv) p)
    (h' : Carries READ_BUFFER_SIZE buffers' out.call (p.after READ_BUFFER_SIZE out)) :
    (p.after READ_BUFFER_SIZE out).received ++ buffers'.rest out.call =
      p.received ++ buffers.rest (some recv) := by
  rw [h'.received_rest, h.received_rest, Passage.kept_after, Passage.byte_after]

/-- A call begins. -/
theorem Carries.begin (h : Carries READ_BUFFER_SIZE buffers none p) :
    Carries READ_BUFFER_SIZE buffers (some (.loop 1 [])) p :=
  ⟨h.ring, h.length_readbuf, h.readsize_le, h.arrived, h.flow, fun _ _ hcall => by cases hcall⟩

end

end OsdCore
