import OsdCore.Prog.Machine
import OsdCore.Uart.Carries

/-!
# The receive path of a physical port

`uart_message_handle` runs in the interrupt, at any point of `uart_phy_read` but the one at which the
interrupt is disabled; the port is not a polled one, for which there is neither a handler nor a ring.

* `UartState.Good` : the invariant.
* `uart_receives` : the reader receives the bytes of the line, and a message is sent for every event that
  finds the ring empty, as long as no event comes with 256 bytes.
-/

namespace OsdCore

/-- `UartPhyContext`. -/
structure UartPhyContext extends RxBuffers where
  temprxbuff : Bytes
deriving DecidableEq, Repr

/-- `uart_message_handle` : the messages that are sent, and the context after it; `none` where it leaves a
buffer. -/
def uartMessageHandle (id : ℕ) (context : UartPhyContext) :
    UartEvent → Option (List UartMsg × UartPhyContext)
  | .rxDataInd data =>
    if RX_BUFFER_SIZE < data.length then none
    else
      let context := { context with temprxbuff := data ++ context.temprxbuff.drop data.length }
      -- a `uint8`
      let length := data.length % 2 ^ 8
      if length ≠ 0 then
        let needMsg := context.rxqueue.empty
        (queueInsert context.rxqueue (context.temprxbuff.take length)).map fun (_, rxqueue) =>
          (if needMsg then [.rxData id] else [], { context with rxqueue })
      else some ([], context)
  | .txDoneInd => some ([.txDone id], context)
  | .other => some ([], context)

/-- A port: its context, the call of `uart_phy_read` that is going on, the messages that have been sent, and
the passage of the bytes. -/
structure UartState where
  uartId : ℕ
  opened : Bool
  context : UartPhyContext
  call : Option ReadCall := none
  messages : List UartMsg := []
  passage : Passage UART_RX_BUF_SIZE := {}

/-- What can happen next. -/
inductive UartAction where
  | event (evt : UartEvent)
  | read (length : ℕ)
  | step
deriving DecidableEq, Repr

/-- The passage after an event. -/
def Passage.event {n : ℕ} (p : Passage n) : UartEvent → Passage n
  | .rxDataInd data => p.arrive data
  | .txDoneInd => p
  | .other => p

/-- `none` where a buffer is left, or where it cannot happen. -/
def uartStep (s : UartState) : UartAction → Option UartState
  | .event evt =>
    (uartMessageHandle s.uartId s.context evt).map fun (messages, context) =>
      { s with
        context
        messages := s.messages ++ messages
        passage := s.passage.event evt }
  | .read length =>
    if s.call.isSome then none
    else if ¬ s.opened then some s
    else some { s with call := some (.loop length []) }
  | .step => do
    let call ← s.call
    let (b, out) ← uartPhyReadStep s.context.toRxBuffers call
    some
      { s with
        context := { s.context with toRxBuffers := b }
        call := out.call
        passage := s.passage.after READ_BUFFER_SIZE out }

/-- A port before the first event. -/
def uartInit (uartId : ℕ) (opened : Bool) : UartState where
  uartId := uartId
  opened := opened
  context :=
    { rxqueue := { buf := List.replicate UART_RX_BUF_SIZE 0, size := UART_RX_BUF_SIZE }
      readbuf := List.replicate READ_BUFFER_SIZE 0
      temprxbuff := List.replicate RX_BUFFER_SIZE 0 }

/-- The events come with at least one byte, and at most `bound`. -/
def DataFits (bound : ℕ) (_ : UartState) : UartAction → Prop
  | .event (.rxDataInd data) => 1 ≤ data.length ∧ data.length ≤ bound
  | _ => True

/-- The port receives: the bytes of the line come out once each and in order, without those that an overflow
of the ring has pushed out; and the next event sends a message if it finds the ring empty. -/
structure UartState.Receives (bound : ℕ) (s : UartState) : Prop where
  bytes : OnceInOrder s.passage.line s.passage.history.lost
    (s.passage.received ++ storedData s.call ++ s.context.unread s.call ++ s.context.rxqueue.content)
  message : ∀ data, 1 ≤ data.length → data.length ≤ bound → ∃ s',
    uartStep s (.event (.rxDataInd data)) = some s' ∧
      s'.messages = s.messages ++ if s.context.rxqueue.content = [] then [.rxData s.uartId] else []

/-! ### The invariant -/

/-- The buffers carry the passage. -/
def UartState.Good (s : UartState) : Prop :=
  Carries READ_BUFFER_SIZE s.context.toRxBuffers s.call s.passage

section

variable {s s' : UartState} {uartId : ℕ} {opened : Bool}

theorem carries_init {n bufSize : ℕ} (hpos : 0 < n) (hn : n < 2 ^ 32) :
    Carries bufSize
      { rxqueue := { buf := List.replicate n 0, size := n }, readbuf := List.replicate bufSize 0 } none
      ({} : Passage n) where
  ring := @CycleQueue.refines_clean { buf := List.replicate n 0, size := n } hpos hn List.length_replicate
  length_readbuf := List.length_replicate
  readsize_le := Nat.zero_le _
  arrived := rfl
  flow := rfl
  short := nofun

/-- The flag of an empty ring. -/
theorem CycleQueue.Refines.empty_eq {q : CycleQueue} {n : ℕ} {a : Fifo UInt8 n} (h : q.Refines a) :
    q.empty = decide (q.content = []) := by
  rw [Bool.eq_iff_iff, h.empty_iff, h.content_eq, decide_eq_true_eq, List.length_eq_zero_iff]

/-- **The handler**, for at most 255 bytes. -/
theorem uartMessageHandle_rx {id : ℕ} {context : UartPhyContext} {data : Bytes} {r : ℤ} {q : CycleQueue}
    (hpos : 1 ≤ data.length) (hlt : data.length ≤ 255)
    (hq : queueInsert context.rxqueue data = some (r, q)) :
    uartMessageHandle id context (.rxDataInd data) =
      some (if context.rxqueue.empty then [.rxData id] else [],
        { context with
          rxqueue := q
          temprxbuff := data ++ context.temprxbuff.drop data.length }) := by
  have hmod : data.length % 2 ^ 8 = data.length := Nat.mod_eq_of_lt (by omega)
  have hfit : ¬ RX_BUFFER_SIZE < data.length := by
    unfold RX_BUFFER_SIZE
    omega
  simp only [uartMessageHandle, if_neg hfit, hmod, List.take_left]
  rw [if_pos (by omega), hq]
  rfl

/-- **An event** with at most 255 bytes. -/
theorem UartState.Good.event (h : s.Good) {data : Bytes} (hpos : 1 ≤ data.length)
    (hlt : data.length ≤ 255) : ∃ s', uartStep s (.event (.rxDataInd data)) = some s' ∧ s'.Good ∧
      s'.messages = s.messages ++ if s.context.rxqueue.content = [] then [.rxData s.uartId] else [] := by
  obtain ⟨q, hq, h'⟩ := Carries.insert h data
  have hhandle := @uartMessageHandle_rx s.uartId _ _ _ _ hpos hlt hq
  have hempty := h.ring.empty_eq
  simp only [hempty, decide_eq_true_eq] at hhandle
  rw [uartStep, hhandle]
  exact ⟨_, rfl, h', rfl⟩

/-- **A step of the read loop**, which leaves no buffer. -/
theorem UartState.Good.readStep {call : ReadCall} (h : s.Good) (hcall : s.call = some call) :
    ∃ s', uartStep s .step = some s' ∧ s'.Good := by
  unfold UartState.Good at h
  rw [hcall] at h
  obtain ⟨b, out, hread, h', -⟩ := Carries.readStep (w := 8) (by decide) (by decide) (by decide) h
  rw [uartStep, hcall, Option.bind_eq_bind, Option.bind_some, uartPhyReadStep, hread]
  exact ⟨_, rfl, h'⟩

/-- **Every step** keeps the invariant. -/
theorem UartState.Good.step {a : UartAction} (h : s.Good) (hok : DataFits 255 s a)
    (hs : uartStep s a = some s') : s'.Good := by
  cases a with
  | event evt =>
    cases evt with
    | rxDataInd data =>
      obtain ⟨s₁, hs₁, h₁, -⟩ := h.event hok.1 hok.2
      rw [hs₁, Option.some.injEq] at hs
      exact hs ▸ h₁
    | txDoneInd =>
      cases hs
      exact h
    | other =>
      cases hs
      exact h
  | read length =>
    rw [uartStep] at hs
    split_ifs at hs with hcall hopened
    · -- nothing has been stored yet
      rw [Option.not_isSome_iff_eq_none] at hcall
      cases hs
      unfold UartState.Good at h ⊢
      rw [hcall] at h
      exact ⟨h.ring, h.length_readbuf, h.readsize_le, h.arrived, h.flow, nofun⟩
    · cases hs
      exact h
  | step =>
    have hread := hs
    rw [uartStep] at hread
    obtain ⟨call, hcall, -⟩ := Option.bind_eq_some_iff.1 hread
    obtain ⟨s₁, hs₁, h₁⟩ := h.readStep hcall
    rw [hs₁, Option.some.injEq] at hs
    exact hs ▸ h₁

theorem UartState.Good.receives (h : s.Good) : s.Receives 255 where
  bytes := Carries.onceInOrder h
  message data hpos hlt := by
    obtain ⟨s', hs, -, hmsg⟩ := h.event hpos hlt
    exact ⟨s', hs, hmsg⟩

theorem uartInit_good : (uartInit uartId opened).Good := carries_init (by decide) (by decide)

end

/-- **The receive path** of a port, in every run in which no event comes with more than 255 bytes. -/
theorem uart_receives {uartId : ℕ} {opened : Bool} {s : UartState}
    (h : Steps uartStep (DataFits 255) (uartInit uartId opened) s) : s.Receives 255 :=
  (h.invariant (I := UartState.Good) uartInit_good fun _ _ _ hgood hok hs => hgood.step hok hs).receives

/-- After an event with two bytes. -/
theorem uart_receives_two : ∃ s : UartState, s.passage.line = [72, 105] ∧ s.Receives 255 := by
  obtain ⟨s, hs, -, -⟩ := (@uartInit_good 1 true).event
    (show 1 ≤ ([72, 105] : Bytes).length by decide) (by decide)
  have hok : DataFits 255 (uartInit 1 true) (.event (.rxDataInd [72, 105])) := ⟨by decide, by decide⟩
  refine ⟨s, ?_, uart_receives (.tail .refl hok hs)⟩
  rw [uartStep] at hs
  obtain ⟨_, -, rfl⟩ := Option.map_eq_some_iff.1 hs
  rfl

/-- An event with 256 bytes leaves the ring empty, and sends no message. -/
theorem not_uart_receives : ¬ ∀ s, Steps uartStep (DataFits 256) (uartInit 1 true) s →
    s.Receives 256 := by
  intro h
  have hlen : (List.replicate 256 (0 : UInt8)).length = 256 := List.length_replicate
  obtain ⟨s', hs, hmsg⟩ := (h _ .refl).message (List.replicate 256 0) (by omega) hlen.le
  have hnone : (uartStep (uartInit 1 true) (.event (.rxDataInd (List.replicate 256 0)))).map
      UartState.messages = some [] := by
    decide +kernel
  rw [hs, Option.map_some, Option.some.injEq, hmsg] at hnone
  exact absurd hnone (by decide +kernel)

end OsdCore
