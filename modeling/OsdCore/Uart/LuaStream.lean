import OsdCore.Prog.Machine
import OsdCore.Uart.LuaRead

/-!
# The stream that the calls of `uart.read` return

* `UartReader.Good` : the invariant; one lemma for each action.
* `UartReader.Good.ends` : a call that is going on returns.
* `uart_read_stream` : the calls return what they are asked for, and all of it together is the stream.
-/

namespace OsdCore

/-- A call on its way. -/
structure UartReadCall.Good (call : UartReadCall) (buffers : RxBuffers) : Prop where
  plain : call.mode.Plain
  short : call.mode.Short call.count call.b
  one : call.recv.One
  quiet : call.quiet = true →
    call.b ++ buffers.rest (some call.recv) = call.atStart ∧ call.offered = call.atStart
  -- what it saw when it last looked
  copied : ∀ x, call.recv = .loop 1 [x] → ∃ rest, call.offered = call.b ++ x :: rest
  refilled : call.recv = .refilled 1 [] → buffers.readsize = 0 → call.offered = call.b

/-- The buffers carry the passage, the results are exact, and what the calls have is what was received.
-/
structure UartReader.Good (s : UartReader) : Prop where
  carries : Carries READ_BUFFER_SIZE s.buffers s.recv s.passage
  exact : ∀ r ∈ s.results, r.Exact
  returned : s.passage.received = s.returned ++ s.call.elim [] UartReadCall.b
  call : ∀ call, s.call = some call → call.Good s.buffers

variable {s s' : UartReader}

namespace UartReader.Good

/-- **Bytes arrive.** -/
theorem received (h : s.Good) (data : Bytes) :
    ∃ s', uartReaderStep s (.received data) = some s' ∧ s'.Good := by
  obtain ⟨q, hq, h'⟩ := h.carries.insert data
  rw [uartReaderStep, hq]
  refine ⟨_, rfl, ?_, h.exact, ?_, ?_⟩
  · rw [UartReader.recv] at h' ⊢
    rw [Option.map_map]
    exact h'
  · have hreturned := h.returned
    cases hcall : s.call with
    | none => rwa [hcall] at hreturned
    | some call => rwa [hcall] at hreturned
  · intro call' hcall'
    obtain ⟨call, hcall, rfl⟩ := Option.map_eq_some_iff.1 hcall'
    have hgood := h.call call hcall
    refine ⟨hgood.plain, hgood.short, hgood.one, ?_, hgood.copied, hgood.refilled⟩
    intro hquiet
    cases hquiet

/-- **A call begins.** -/
theorem uartRead (h : s.Good) {mode : UartReadMode} (hmode : mode.Plain)
    (hs : uartReaderStep s (.uartRead mode) = some s') : s'.Good := by
  rw [uartReaderStep] at hs
  split_ifs at hs with hnone
  have hcall : s.call = none := Option.not_isSome_iff_eq_none.1 hnone
  have hcarries := h.carries
  have hreturned := h.returned
  rw [UartReader.recv, hcall] at hcarries
  rw [hcall] at hreturned
  cases hs
  refine ⟨hcarries.begin, h.exact, hreturned, ?_⟩
  intro call hbegun
  cases hbegun
  refine ⟨hmode, ?_, .begin, fun _ => ⟨rfl, rfl⟩, ?_, ?_⟩
  · cases hmode with
    | line => exact List.not_mem_nil
    | maxsize hn => exact ⟨rfl, hn⟩
  · intro x hx
    cases hx
  · intro hx
    cases hx

/-- Nothing is returned while a call of `uart_phy_read` goes on. -/
theorem received_go (recv : ReadCall) :
    (s.passage.after READ_BUFFER_SIZE (.go recv)).received = s.passage.received := by
  cases recv <;> rfl

/-- The buffers while it goes on. -/
theorem rest_go {call : UartReadCall} {buffers : RxBuffers} {recv : ReadCall} (h : s.Good)
    (hcall : s.call = some call)
    (hcarries : Carries READ_BUFFER_SIZE buffers (some recv)
      (s.passage.after READ_BUFFER_SIZE (.go recv))) :
    buffers.rest (some recv) = s.buffers.rest (some call.recv) := by
  have hbefore := h.carries
  rw [UartReader.recv, hcall] at hbefore
  have heq := hbefore.rest_after (show Carries _ _ (ReadOutcome.go recv).call _ from hcarries)
  rw [received_go] at heq
  exact List.append_cancel_left heq

/-- The call is still in `uart_phy_read`, and has looked again. -/
theorem go {call : UartReadCall} {buffers : RxBuffers} {recv : ReadCall} (h : s.Good)
    (hcall : s.call = some call)
    (hcarries : Carries READ_BUFFER_SIZE buffers (some recv)
      (s.passage.after READ_BUFFER_SIZE (.go recv)))
    (hone : recv.One) (hrefill : recv = .refilled 1 [] → buffers.readsize = 0 →
      buffers.rxqueue.content = []) :
    UartReader.Good
      { buffers
        call := some { call with recv, offered := call.b ++ buffers.rest (some recv) }
        results := s.results ++ []
        passage := s.passage.after READ_BUFFER_SIZE (.go recv) } := by
  have hgood := h.call call hcall
  have hreturned := h.returned
  have hrest := h.rest_go hcall hcarries
  rw [hcall] at hreturned
  rw [List.append_nil]
  refine ⟨hcarries, h.exact, (received_go recv).trans hreturned, ?_⟩
  intro call' hcall'
  cases hcall'
  refine ⟨hgood.plain, hgood.short, hone, ?_, ?_, ?_⟩
  · intro hquiet
    have hstart := (hgood.quiet hquiet).1
    rw [← hrest] at hstart
    exact ⟨hstart, hstart⟩
  · intro x hx
    cases hx
    exact ⟨buffers.unread (some (.loop 1 [x])) ++ buffers.rxqueue.content, by
      simp [RxBuffers.rest, storedData]⟩
  · intro hx hzero
    obtain rfl : recv = .refilled 1 [] := hx
    simp [RxBuffers.rest, storedData, RxBuffers.unread, show buffers.readsize = 0 from hzero,
      hrefill rfl hzero]

/-- The buffers after a call of `uart_phy_read` that returns `data`. -/
theorem rest_done {call : UartReadCall} {buffers : RxBuffers} {data : Bytes} (h : s.Good)
    (hcall : s.call = some call)
    (hcarries : Carries READ_BUFFER_SIZE buffers none
      (s.passage.after READ_BUFFER_SIZE (.done 1 data))) :
    s.buffers.rest (some call.recv) = data ++ buffers.rest none := by
  have hbefore := h.carries
  rw [UartReader.recv, hcall] at hbefore
  have heq := hbefore.rest_after (show Carries _ _ (ReadOutcome.done 1 data).call _ from hcarries)
  simp only [Passage.after, List.append_assoc] at heq
  exact (List.append_cancel_left heq).symm

/-- It has returned a byte, and the call goes on or returns. -/
theorem found {call : UartReadCall} {buffers : RxBuffers} {x : UInt8} (h : s.Good)
    (hcall : s.call = some call) (hrecv : call.recv = .loop 1 [x])
    (hcarries : Carries READ_BUFFER_SIZE buffers none
      (s.passage.after READ_BUFFER_SIZE (.done 1 [x]))) :
    UartReader.Good
      { buffers
        call := (call.after buffers (.done 1 [x])).1
        results := s.results ++ (call.after buffers (.done 1 [x])).2.toList
        passage := s.passage.after READ_BUFFER_SIZE (.done 1 [x]) } := by
  have hgood := h.call call hcall
  have hreturned := h.returned
  have hrest := h.rest_done hcall hcarries
  rw [hcall] at hreturned
  obtain ⟨rest, hoffered⟩ := hgood.copied x hrecv
  rcases uartReadByte_found hgood.plain hgood.short x rest with ⟨hround, hanswer⟩ | ⟨hround, hshort⟩
  · have hafter : call.after buffers (.done 1 [x]) = (none, some
        { mode := call.mode, data := call.b ++ [x], atStart := call.atStart, quiet := call.quiet,
          offered := call.offered }) := by
      simp [UartReadCall.after, platformSUartRecv, hround]
    rw [hafter]
    have hexact : UartReadResult.Exact
        { mode := call.mode, data := call.b ++ [x], atStart := call.atStart, quiet := call.quiet,
          offered := call.offered } :=
      ⟨hoffered ▸ hanswer, fun hquiet => (hgood.quiet hquiet).2⟩
    refine ⟨hcarries, ?_, ?_, fun _ hnone => by cases hnone⟩
    · exact List.forall_mem_append.2 ⟨h.exact, List.forall_mem_singleton.2 hexact⟩
    · simp [Passage.after, UartReader.returned, hreturned]
  · have hafter : call.after buffers (.done 1 [x]) =
        (some { call with count := call.count + 1, b := call.b ++ [x], recv := .loop 1 [] }, none) := by
      simp [UartReadCall.after, platformSUartRecv, hround]
    rw [hafter]
    refine ⟨hcarries.begin, ?_, ?_, ?_⟩
    · rw [Option.toList_none, List.append_nil]
      exact h.exact
    · simp [Passage.after, UartReader.returned, hreturned]
    · intro call' hcall'
      cases hcall'
      refine ⟨hgood.plain, hshort, .begin, ?_, ?_, ?_⟩
      · intro hquiet
        obtain ⟨hstart, hoff⟩ := hgood.quiet hquiet
        rw [hrest] at hstart
        exact ⟨(List.append_assoc _ _ _).trans hstart, hoff⟩
      · intro y hy
        cases hy
      · intro hx
        cases hx

/-- It has found nothing: the call returns. -/
theorem nothing {call : UartReadCall} {buffers : RxBuffers} (h : s.Good)
    (hcall : s.call = some call) (hrecv : call.recv = .refilled 1 []) (hzero : s.buffers.readsize = 0)
    (hcarries : Carries READ_BUFFER_SIZE buffers none
      (s.passage.after READ_BUFFER_SIZE (.done 1 []))) :
    UartReader.Good
      { buffers
        call := (call.after buffers (.done 1 [])).1
        results := s.results ++ (call.after buffers (.done 1 [])).2.toList
        passage := s.passage.after READ_BUFFER_SIZE (.done 1 []) } := by
  have hgood := h.call call hcall
  have hreturned := h.returned
  rw [hcall] at hreturned
  obtain ⟨hround, hanswer⟩ := uartReadByte_nothing hgood.plain hgood.short
  have hoffered := hgood.refilled hrecv hzero
  have hafter : call.after buffers (.done 1 []) = (none, some
      { mode := call.mode, data := call.b, atStart := call.atStart, quiet := call.quiet,
        offered := call.offered }) := by
    simp [UartReadCall.after, platformSUartRecv, hround]
  rw [hafter]
  have hexact : UartReadResult.Exact
      { mode := call.mode, data := call.b, atStart := call.atStart, quiet := call.quiet,
        offered := call.offered } :=
    ⟨hoffered.symm ▸ hanswer, fun hquiet => (hgood.quiet hquiet).2⟩
  refine ⟨hcarries, ?_, ?_, fun _ hnone => by cases hnone⟩
  · exact List.forall_mem_append.2 ⟨h.exact, List.forall_mem_singleton.2 hexact⟩
  · simp [Passage.after, UartReader.returned, hreturned]

end UartReader.Good

/-! ### A call returns -/

/-- How far a call for one byte has come. -/
def ReadCall.rank : ReadCall → ℕ
  | .loop _ [] => 2
  | .loop _ (_ :: _) => 0
  | .refilled _ _ => 1

/-- The steps that are left are at most so many, if no byte arrives. -/
def UartReader.distance (s : UartReader) : ℕ :=
  s.call.elim 0 fun call => 3 * (s.buffers.rest (some call.recv)).length + call.recv.rank + 1

/-- It is nearer to its end when it has looked again. -/
theorem UartReader.distance_go {call : UartReadCall} {buffers : RxBuffers} {recv : ReadCall}
    {results : List UartReadResult} {passage : Passage UART_RX_BUF_SIZE} {offered : Bytes}
    (hcall : s.call = some call)
    (hrest : buffers.rest (some recv) = s.buffers.rest (some call.recv))
    (hrank : recv.rank < call.recv.rank) :
    UartReader.distance { buffers, call := some { call with recv, offered }, results, passage } <
      s.distance := by
  simp only [UartReader.distance, hcall, Option.elim_some, hrest]
  omega

namespace UartReader.Good

/-- **A step of the call** leaves no buffer, keeps the invariant, and brings the call nearer to its end.
-/
theorem step {call : UartReadCall} (h : s.Good) (hcall : s.call = some call) :
    ∃ s', uartReaderStep s .step = some s' ∧ s'.Good ∧ s'.distance < s.distance := by
  have hgood := h.call call hcall
  have hcarries := h.carries
  rw [UartReader.recv, hcall] at hcarries
  obtain ⟨buffers, out, hread, hcarries', hone⟩ := Carries.oneStep hcarries hgood.one
  rw [uartReaderStep, hcall, Option.bind_eq_bind, Option.bind_some, hread]
  refine ⟨_, rfl, ?_⟩
  generalize hrecv : call.recv = recv at hone
  cases hone with
  | copyFirst x =>
    refine ⟨h.go hcall hcarries' (.copied x) (fun hx => by cases hx), ?_⟩
    exact UartReader.distance_go hcall (h.rest_go hcall hcarries') (by simp [hrecv, ReadCall.rank])
  | refill hempty =>
    refine ⟨h.go hcall hcarries' .refilled (fun _ => hempty), ?_⟩
    exact UartReader.distance_go hcall (h.rest_go hcall hcarries') (by simp [hrecv, ReadCall.rank])
  | found x =>
    refine ⟨h.found hcall hrecv hcarries', ?_⟩
    have hrest := congrArg List.length (h.rest_done hcall hcarries')
    rw [hrecv, List.length_append, List.length_singleton] at hrest
    simp only [UartReader.distance, hcall, UartReadCall.after, Option.elim_some, ReadCall.rank, hrecv]
    cases uartReadByte call.mode call.count call.b (platformSUartRecv [x]) with
    | more count b =>
      have hsame : buffers.rest (some (.loop 1 [])) = buffers.rest none := rfl
      simp only [Option.elim_some, hsame]
      omega
    | finished b =>
      simp only [Option.elim_none]
      omega
  | copyNext x =>
    refine ⟨h.go hcall hcarries' (.copied x) (fun hx => by cases hx), ?_⟩
    exact UartReader.distance_go hcall (h.rest_go hcall hcarries') (by simp [hrecv, ReadCall.rank])
  | nothing hzero =>
    refine ⟨h.nothing hcall hrecv hzero hcarries', ?_⟩
    have hround : uartReadByte call.mode call.count call.b (platformSUartRecv []) = .finished call.b := rfl
    simp only [UartReader.distance, hcall, UartReadCall.after, Option.elim_some, hround, Option.elim_none]
    omega

/-- **Every step** keeps the invariant. -/
theorem next {a : UartReaderAction} (h : s.Good) (hok : PlainRead s a)
    (hs : uartReaderStep s a = some s') : s'.Good := by
  cases a with
  | received data =>
    obtain ⟨s₁, hs₁, h₁⟩ := h.received data
    rw [hs₁, Option.some.injEq] at hs
    exact hs ▸ h₁
  | uartRead mode => exact h.uartRead hok hs
  | step =>
    have hread := hs
    rw [uartReaderStep] at hread
    obtain ⟨call, hcall, -⟩ := Option.bind_eq_some_iff.1 hread
    obtain ⟨s₁, hs₁, h₁, -⟩ := h.step hcall
    rw [hs₁, Option.some.injEq] at hs
    exact hs ▸ h₁

/-- **A call returns**: by induction on the steps that are left. -/
theorem ends (h : s.Good) :
    ∃ s', Steps uartReaderStep (fun _ a => a = .step) s s' ∧ s'.call = none := by
  induction hn : s.distance using Nat.strong_induction_on generalizing s with
  | _ n ih =>
    cases hcall : s.call with
    | none => exact ⟨s, .refl, hcall⟩
    | some call =>
      obtain ⟨s₁, hs₁, h₁, hless⟩ := h.step hcall
      obtain ⟨s₂, hsteps, hnone⟩ := ih s₁.distance (hn ▸ hless) h₁ rfl
      have hone : Steps uartReaderStep (fun _ a => a = .step) s s₁ := .single rfl hs₁
      exact ⟨s₂, hone.trans hsteps, hnone⟩

end UartReader.Good

/-! ### Every run -/

theorem UartReader.Good.stream (h : s.Good) :
    OnceInOrder s.passage.line s.passage.history.lost (s.returned ++ s.unread) := by
  have honce := h.carries.onceInOrder
  rw [h.returned] at honce
  simpa [UartReader.unread, RxBuffers.rest] using honce

theorem UartReader.Good.reads (h : s.Good) : s.Reads where
  exact := h.exact
  stream := h.stream
  whole hlost := by
    have honce := h.stream
    rw [hlost] at honce
    exact honce.eq_of_lost_nil
  returns := h.ends

/-- The bytes of the stream are either returned or unread. -/
def UartReader.Lossless (s : UartReader) : Prop := s.returned ++ s.unread = s.passage.line

end OsdCore
