import OsdCore.Uart.Phy

/-!
# The virtual AT channel

Producers put their data into the ring while they hold the semaphore, and send a message afterwards if the
ring was empty; the reader takes a message and reads until a call returns fewer bytes than it asked for.

* `AtcState.Good` : the invariant.  The reader sleeps only where no byte is left, or where a message is on
  its way.
* `atc_receives` : the bytes are read once and in order, and no wake-up is lost.
-/

namespace OsdCore

/-- `PLATFORM_UART_ID_ATC`. -/
def PLATFORM_UART_ID_ATC : ℕ := 0x7f

/-- The Lua task: it waits for a message, is about to call `vatc_read`, or is in the call. -/
inductive AtcReader where
  | idle
  | ready
  | reading (call : ReadCall)
deriving DecidableEq, Repr

/-- The call that is going on. -/
def AtcReader.call : AtcReader → Option ReadCall
  | idle => none
  | ready => none
  | reading call => some call

/-- The channel: its buffers, the reader, the number of producers that are about to send a message, the
messages in the queue, and the passage of the bytes. -/
structure AtcState where
  buffers : RxBuffers
  reader : AtcReader := .idle
  pending : ℕ := 0
  messages : List UartMsg := []
  passage : Passage VATC_RX_BUF_SIZE := {}

/-- The steps of the producers and of the reader. -/
inductive AtcAction where
  | receiveData (data : Bytes)
  | sendMessage
  | takeMessage
  | read (length : ℕ)
  | step
deriving DecidableEq, Repr

/-- What the reader does after a step of `vatc_read` : it calls again, unless it got fewer bytes than it asked
for. -/
def ReadOutcome.reader : ReadOutcome → AtcReader
  | .go call => .reading call
  | .done length data => if data.length < length then .idle else .ready

/-- `none` where a buffer is left, or where it cannot happen. -/
def atcStep (s : AtcState) : AtcAction → Option AtcState
  -- `RILAPI_ReceiveData`, up to where the semaphore is released
  | .receiveData data =>
    let needMsg := s.buffers.rxqueue.empty
    (queueInsert s.buffers.rxqueue data).map fun (_, rxqueue) =>
      { s with
        buffers := { s.buffers with rxqueue }
        pending := if needMsg then s.pending + 1 else s.pending
        passage := s.passage.arrive data }
  -- and from there on
  | .sendMessage =>
    if s.pending = 0 then none
    else some { s with
      pending := s.pending - 1
      messages := s.messages ++ [.rxData PLATFORM_UART_ID_ATC] }
  | .takeMessage =>
    match s.reader, s.messages with
    | .idle, _ :: messages => some { s with reader := .ready, messages }
    | _, _ => none
  | .read length =>
    if s.reader = .ready then some { s with reader := .reading (.loop length []) } else none
  | .step => do
    let call ← s.reader.call
    let (buffers, out) ← vatcReadStep s.buffers call
    some
      { s with
        buffers
        reader := out.reader
        passage := s.passage.after VATC_READ_BUF_SIZE out }

/-- The channel after `platform_setup_vat_queue`. -/
def atcInit : AtcState where
  buffers :=
    { rxqueue := { buf := List.replicate VATC_RX_BUF_SIZE 0, size := VATC_RX_BUF_SIZE }
      readbuf := List.replicate VATC_READ_BUF_SIZE 0 }

/-- The channel delivers: the bytes come out once each and in order, without those that an overflow of the
ring has pushed out; and when the reader sleeps, with no message in the queue or on its way, none is left. -/
structure AtcState.Receives (s : AtcState) : Prop where
  bytes : OnceInOrder s.passage.line s.passage.history.lost
    (s.passage.received ++ storedData s.reader.call ++ s.buffers.unread s.reader.call ++
      s.buffers.rxqueue.content)
  wake : s.reader = .idle → s.messages = [] → s.pending = 0 →
    s.buffers.rxqueue.content = [] ∧ s.buffers.unread s.reader.call = []

/-! ### The invariant -/

/-- The reader will not look into the ring again before it takes a message: it sleeps, or has found the ring
empty. -/
def AtcState.Leaving (s : AtcState) : Prop :=
  s.reader = .idle ∨
    ∃ length data, s.reader = .reading (.refilled length data) ∧ s.buffers.readsize = 0

/-- The buffers carry the passage; when the reader sleeps, it has read its buffer to the end; and when it will
not look into the ring again, a message is in the queue or on its way, unless the ring is empty. -/
structure AtcState.Good (s : AtcState) : Prop where
  carries : Carries VATC_READ_BUF_SIZE s.buffers s.reader.call s.passage
  unread : s.reader = .idle → s.buffers.unread none = []
  wake : s.Leaving → s.buffers.rxqueue.content ≠ [] → s.messages ≠ [] ∨ 0 < s.pending

variable {s s' : AtcState}

namespace AtcState.Good

/-- **A producer** puts its data into the ring. -/
theorem receiveData (h : s.Good) (data : Bytes) :
    ∃ s', atcStep s (.receiveData data) = some s' ∧ s'.Good := by
  obtain ⟨q, hq, h'⟩ := h.carries.insert data
  rw [atcStep, hq]
  refine ⟨_, rfl, h', h.unread, fun hleaving _ => ?_⟩
  have hempty := h.carries.ring.empty_eq
  by_cases hcontent : s.buffers.rxqueue.content = []
  · rw [hcontent] at hempty
    simp [hempty]
  · simp only [hcontent, decide_false] at hempty
    simpa [hempty] using h.wake hleaving hcontent

/-- It sends its message. -/
theorem sendMessage (h : s.Good) (hs : atcStep s .sendMessage = some s') : s'.Good := by
  rw [atcStep] at hs
  split_ifs at hs
  cases hs
  exact ⟨h.carries, h.unread, fun _ _ => .inl (by simp)⟩

/-- **The reader** wakes up. -/
theorem takeMessage (h : s.Good) (hs : atcStep s .takeMessage = some s') : s'.Good := by
  rw [atcStep] at hs
  split at hs
  · rename_i hreader hmessages
    cases hs
    have hcarries := h.carries
    rw [hreader] at hcarries
    refine ⟨hcarries, nofun, ?_⟩
    rintro (hidle | ⟨length, data, hcall, -⟩)
    · cases hidle
    · cases hcall
  · cases hs

/-- It calls `vatc_read`. -/
theorem read (h : s.Good) {length : ℕ} (hs : atcStep s (.read length) = some s') : s'.Good := by
  rw [atcStep] at hs
  split_ifs at hs with hready
  cases hs
  have hcarries := h.carries
  rw [hready] at hcarries
  refine ⟨⟨hcarries.ring, hcarries.length_readbuf, hcarries.readsize_le, hcarries.arrived, hcarries.flow,
    nofun⟩, nofun, ?_⟩
  rintro (hidle | ⟨length', data', hcall, -⟩)
  · cases hidle
  · cases hcall

/-- **A step of `vatc_read`**, which leaves no buffer.  The call sees that the ring is empty when it fills its
buffer; what comes later brings its message with it. -/
theorem step {call : ReadCall} (h : s.Good) (hcall : s.reader = .reading call) :
    ∃ s', atcStep s .step = some s' ∧ s'.Good := by
  have hcarries := h.carries
  rw [hcall] at hcarries
  obtain ⟨b, out, hread, h', htells⟩ := hcarries.readStep (w := 16) (by decide) (by decide) (by decide)
  have hcall' : s.reader.call = some call := by rw [hcall]; rfl
  rw [atcStep, hcall', Option.bind_eq_bind, Option.bind_some, vatcReadStep, hread]
  refine ⟨_, rfl, ?_⟩
  cases out with
  | go call' =>
    refine ⟨h', (fun hidle => by cases hidle), ?_⟩
    rintro (hidle | ⟨length, data, hrefilled, hzero⟩) hne
    · cases hidle
    · cases hrefilled
      exact absurd (htells hzero) hne
  | done length data =>
    simp only [ReadOutcome.reader]
    split_ifs with hless
    · obtain ⟨rfl, hzero, rfl⟩ := htells hless
      refine ⟨h', fun _ => ?_, fun _ hne => h.wake (.inr ⟨length, data, hcall, hzero⟩) hne⟩
      simp only [RxBuffers.unread, hzero, List.take_zero, List.drop_zero]
    · refine ⟨h', (fun hidle => by cases hidle), ?_⟩
      rintro (hidle | ⟨length', data', hreading, -⟩)
      · cases hidle
      · cases hreading

/-- **Every step** keeps the invariant. -/
theorem next {a : AtcAction} (h : s.Good) (hs : atcStep s a = some s') : s'.Good := by
  cases a with
  | receiveData data =>
    obtain ⟨s₁, hs₁, h₁⟩ := h.receiveData data
    rw [hs₁, Option.some.injEq] at hs
    exact hs ▸ h₁
  | sendMessage => exact h.sendMessage hs
  | takeMessage => exact h.takeMessage hs
  | read length => exact h.read hs
  | step =>
    have hread := hs
    rw [atcStep] at hread
    obtain ⟨call, hcall, -⟩ := Option.bind_eq_some_iff.1 hread
    cases hreader : s.reader with
    | idle => simp [hreader, AtcReader.call] at hcall
    | ready => simp [hreader, AtcReader.call] at hcall
    | reading call =>
      obtain ⟨s₁, hs₁, h₁⟩ := h.step hreader
      rw [hs₁, Option.some.injEq] at hs
      exact hs ▸ h₁

theorem receives (h : s.Good) : s.Receives where
  bytes := h.carries.onceInOrder
  wake hidle hmessages hpending := by
    refine ⟨?_, by rw [hidle]; exact h.unread hidle⟩
    by_contra hne
    rcases h.wake (.inl hidle) hne with hqueued | hcoming
    · exact hqueued hmessages
    · omega

end AtcState.Good

theorem atcInit_good : atcInit.Good where
  carries := carries_init (by decide) (by decide)
  unread _ := rfl
  wake _ hne := by
    have hcarries : Carries VATC_READ_BUF_SIZE atcInit.buffers none atcInit.passage :=
      carries_init (by decide) (by decide)
    exact absurd hcarries.ring.content_eq hne

/-- **The virtual AT channel**, in every run of the producers and the reader. -/
theorem atc_receives (h : Steps atcStep (fun _ _ => True) atcInit s) : s.Receives :=
  (h.invariant (I := AtcState.Good) atcInit_good fun _ _ _ hgood _ hs => hgood.next hs).receives

/-- After two bytes. -/
theorem atc_receives_two : ∃ s : AtcState, s.passage.line = [72, 105] ∧ s.Receives := by
  obtain ⟨s, hs, -⟩ := atcInit_good.receiveData [72, 105]
  refine ⟨s, ?_, atc_receives (.tail .refl trivial hs)⟩
  rw [atcStep] at hs
  obtain ⟨_, -, rfl⟩ := Option.map_eq_some_iff.1 hs
  rfl

end OsdCore
