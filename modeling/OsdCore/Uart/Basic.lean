import OsdCore.Queue.Channel
import OsdCore.Queue.Cycle

/-!
# The receive path of the serial ports: `platform_uart.c`

The bytes of a port go into a ring buffer, and the reader takes them out in blocks, through a buffer of its
own.  `uartPhyReadStep` and `vatcReadStep` are the two read loops, a step at a time: what is done with the
interrupt disabled, or while the semaphore is held, is one step.

`Passage` is not part of the program: it keeps what went over the line, and what was received.
-/

namespace OsdCore

def UART_RX_BUF_SIZE : ℕ := 1460
def RX_BUFFER_SIZE : ℕ := 256
def READ_BUFFER_SIZE : ℕ := 126
def VATC_RX_BUF_SIZE : ℕ := 8192
def VATC_READ_BUF_SIZE : ℕ := 512

/-- The ring buffer, and the buffer that the read loop empties. -/
structure RxBuffers where
  rxqueue : CycleQueue
  readbuf : Bytes
  readindex : ℕ := 0
  readsize : ℕ := 0
deriving DecidableEq, Repr

/-- Where a call of a read function is: at the head of its loop, or after it has filled its buffer again;
the number of bytes that it was asked for, and those that it has stored. -/
inductive ReadCall where
  | loop (length : ℕ) (data : Bytes)
  | refilled (length : ℕ) (data : Bytes)
deriving DecidableEq, Repr

/-- What a step leads to: the call goes on, or it returns. -/
inductive ReadOutcome where
  | go (call : ReadCall)
  | done (length : ℕ) (data : Bytes)
deriving DecidableEq, Repr

/-- `data_p[rcvdlen++] = readbuf[readindex++]`, the index being of `w` bits. -/
def copyByte (w : ℕ) (b : RxBuffers) (length : ℕ) (data : Bytes) : Option (RxBuffers × ReadOutcome) :=
  (b.readbuf[b.readindex]?).map fun x =>
    ({ b with readindex := (b.readindex + 1) % 2 ^ w }, .go (.loop length (data ++ [x])))

/-- A step of a read loop, `none` where it leaves a buffer. -/
def readStep (w bufSize : ℕ) (b : RxBuffers) : ReadCall → Option (RxBuffers × ReadOutcome)
  | .loop length data =>
    if data.length < length then
      if b.readindex ≥ b.readsize then
        (queueDelete b.rxqueue bufSize).map fun (n, bytes, rxqueue) =>
          ({ b with
              rxqueue
              readbuf := bytes ++ b.readbuf.drop bytes.length
              readsize := (n % 2 ^ w).toNat }, .go (.refilled length data))
      else copyByte w b length data
    else some (b, .done length data)
  | .refilled length data =>
    let b := { b with readindex := 0 }
    if b.readsize = 0 then some (b, .done length data) else copyByte w b length data

/-- The loop of `uart_phy_read` : its index and its size are of type `uint8`. -/
def uartPhyReadStep : RxBuffers → ReadCall → Option (RxBuffers × ReadOutcome) :=
  readStep 8 READ_BUFFER_SIZE

/-- The loop of `vatc_read` : they are of type `uint16`. -/
def vatcReadStep : RxBuffers → ReadCall → Option (RxBuffers × ReadOutcome) :=
  readStep 16 VATC_READ_BUF_SIZE

/-! ### Messages -/

/-- The events of a port; `evt->param.dataLen` bytes have been received. -/
inductive UartEvent where
  | rxDataInd (data : Bytes)
  | txDoneInd
  | other
deriving DecidableEq, Repr

/-- `RTOS_MSG_UART_RX_DATA` and `RTOS_MSG_UART_TX_DONE`, with the `uart_id`. -/
inductive UartMsg where
  | rxData (uartId : ℕ)
  | txDone (uartId : ℕ)
deriving DecidableEq, Repr

/-! ### What went over the line -/

/-- The bytes of the line, what the callers received, and the way of the bytes through the ring. -/
structure Passage (n : ℕ) where
  line : Bytes := []
  received : Bytes := []
  history : Channel n := .empty

variable {n : ℕ}

/-- The byte of a number. -/
def Passage.byte (p : Passage n) (i : ℕ) : UInt8 := p.line.getD i 0

/-- More bytes arrive. -/
def Passage.arrive (p : Passage n) (data : Bytes) : Passage n :=
  { p with line := p.line ++ data, history := p.history.arrive data.length }

/-- After a step of a read loop: the bytes have been taken out of the ring, or the caller has them. -/
def Passage.after (p : Passage n) (bufSize : ℕ) : ReadOutcome → Passage n
  | .go (.refilled _ _) => { p with history := p.history.take bufSize }
  | .go (.loop _ _) => p
  | .done _ data => { p with received := p.received ++ data }

end OsdCore
