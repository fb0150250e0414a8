import OsdCore.Device.Disk
import OsdCore.Uart.Atc

/-!
# `uart.write`: `uart_write` of `uart.c`, down to `uart_phy_write`

A string and its length go through `platform_uart_send_buff`, `platform_s_uart_send_buff` and
`uart_phy_write`, whose `len` is a `u16`; a number goes as one byte.

* `UartDriver` : the ports, and what the platform's driver answers.
* `uartWrite` : what the call returns, and the buffers that the driver was given.
* `uart_write_iff` : for which arguments these are the arguments, and the number is their length.
-/

namespace OsdCore

/-! ### The functions -/

def NUM_UART : ℕ := 4

/-- `PLATFORM_PORT_ID_DEBUG`. -/
def PLATFORM_PORT_ID_DEBUG : ℕ := 0x80

/-- `E_AMOPENAT_UART_PORT`. -/
inductive OpenatUartPort where
  | uart1
  | uart2
  | uart3
deriving DecidableEq, Repr

/-- `uartmap[id].port`. -/
def phyPort : ℕ → OpenatUartPort
  | 1 => .uart1
  | 3 => .uart3
  | _ => .uart2

/-- `UartContext`. -/
structure UartContext where
  opened : Bool
  workmode : ℕ
deriving DecidableEq, Repr

/-- `uartContext`, and `write_uart` of the platform: how many of the bytes it says it has written. -/
structure UartDriver where
  uartContext : ℕ → UartContext
  writeUart : OpenatUartPort → Bytes → ℕ

/-- What a call of a write function returns, and the buffers that it hands over. -/
abbrev UartSent := ℕ × List Bytes

/-- `uart_phy_write`. -/
def uartPhyWrite (u : UartDriver) (id : ℕ) (data : Bytes) (length : UInt16) : UartSent :=
  if NUM_UART ≤ id then (0, [])
  else if ¬ (u.uartContext id).opened then (0, [])
  else
    let data := data.take length.toNat
    -- `host_send_data`
    if phyPort id = .uart3 ∧ (u.uartContext id).workmode = 2 then (length.toNat, [data])
    else (u.writeUart (phyPort id) data % 2 ^ 32, [data])

/-- `platform_s_uart_send_buff`; the first two ports have calls of their own, which return nothing. -/
def platformSUartSendBuff (u : UartDriver) (id : ℕ) (buff : Bytes) (len : UInt16) : UartSent :=
  if id = PLATFORM_UART_ID_ATC then (len.toNat, [buff.take len.toNat])
  else if id = PLATFORM_PORT_ID_DEBUG then (len.toNat, [buff.take len.toNat])
  else uartPhyWrite u id buff len

/-- `platform_uart_send_buff`. -/
def platformUartSendBuff (u : UartDriver) (id : ℕ) (buff : Bytes) (len : UInt16) : UartSent :=
  platformSUartSendBuff u id buff len

/-- `platform_s_uart_send`. -/
def platformSUartSend (u : UartDriver) (id : ℕ) (data : UInt8) : UartSent :=
  if id = PLATFORM_UART_ID_ATC then (1, [[data]])
  else if id = PLATFORM_PORT_ID_DEBUG then (1, [[data]])
  else uartPhyWrite u id [data] 1

/-- `platform_uart_send`. -/
def platformUartSend (u : UartDriver) (id : ℕ) (data : UInt8) : UartSent := platformSUartSend u id data

/-- `platform_uart_exists`. -/
def platformUartExists (id : ℕ) : Prop := id < NUM_UART ∨ id = PLATFORM_UART_ID_ATC

instance decidableUartExists (id : ℕ) : Decidable (platformUartExists id) :=
  inferInstanceAs (Decidable (_ ∨ _))

/-- An argument, by its `lua_type`; the integer is what `lua_tointeger` returns. -/
inductive UartArg where
  | number (n : ℤ)
  | string (s : LuaString)
  | other

/-- The errors of `uart_write`. -/
inductive UartWriteError where
  /-- "uart %d does not exist" -/
  | noUart (id : ℕ)
  /-- "invalid number" -/
  | invalidNumber
  /-- `luaL_checktype` -/
  | notString
deriving DecidableEq, Repr

/-- A round of the loop of `uart_write` : `wrote`, and what has been handed over. -/
def uartWriteArg (u : UartDriver) (id : ℕ) (sent : UartSent) : UartArg → Except UartWriteError UartSent
  | .number n =>
    -- a `size_t`
    let len := n % 2 ^ 32
    if 255 < len then .error .invalidNumber
    else
      let (wrote, handed) := platformUartSend u id (UInt8.ofNat len.toNat)
      .ok ((sent.1 + wrote) % 2 ^ 32, sent.2 ++ handed)
  | .string s =>
    let (wrote, handed) := platformUartSendBuff u id s.bytes (UInt16.ofNat s.bytes.length)
    .ok ((sent.1 + wrote) % 2 ^ 32, sent.2 ++ handed)
  | .other => .error .notString

/-- `uart_write` : the number that it pushes, and the buffers. -/
def uartWrite (u : UartDriver) (id : ℕ) (args : List UartArg) :
    Except UartWriteError (ℤ × List Bytes) := do
  if ¬ platformUartExists id then throw (.noUart id)
  let (wrote, handed) ← args.foldlM (uartWriteArg u id) (0, [])
  pure (toInt32 wrote, handed)

/-! ### What the call is to do -/

/-- The bytes of an argument. -/
def UartArg.bytes : UartArg → Bytes
  | .number n => [UInt8.ofNat n.toNat]
  | .string s => s.bytes
  | .other => []

/-- A string, or the number of a byte. -/
def UartArg.Writable : UartArg → Prop
  | .number n => 0 ≤ n ∧ n ≤ 255
  | .string _ => True
  | .other => False

/-- The driver accepts every byte, and says so. -/
def UartDriver.Honest (u : UartDriver) : Prop := ∀ port data, u.writeUart port data = data.length

/-- The port can be written to. -/
def UartDriver.Ready (u : UartDriver) (id : ℕ) : Prop :=
  id = PLATFORM_UART_ID_ATC ∨ id < NUM_UART ∧ (u.uartContext id).opened = true

/-- The buffers are the arguments, and the number is their length. -/
def WritesAll (u : UartDriver) (id : ℕ) (args : List UartArg) : Prop :=
  ∃ handed, uartWrite u id args = .ok ((args.flatMap UartArg.bytes).length, handed) ∧
    handed.flatten = args.flatMap UartArg.bytes

/-- The length of each string fits a `u16`, and that of all of it a Lua integer. -/
def WriteFits (args : List UartArg) : Prop :=
  (∀ arg ∈ args, arg.bytes.length < 2 ^ 16) ∧ (args.flatMap UartArg.bytes).length < 2 ^ 31

/-! ### What is handed over -/

/-- What is handed over of an argument: so many bytes as its length leaves in 16 bits. -/
def UartArg.handed (arg : UartArg) : Bytes := arg.bytes.take (arg.bytes.length % 2 ^ 16)

theorem UartArg.length_handed (arg : UartArg) : arg.handed.length = arg.bytes.length % 2 ^ 16 := by
  rw [UartArg.handed, List.length_take]
  exact min_eq_left (Nat.mod_le _ _)

variable {u : UartDriver} {id : ℕ}

theorem platformUartSendBuff_eq (hu : u.Honest) (hid : u.Ready id) {buff : Bytes} {len : UInt16}
    (hlen : len.toNat ≤ buff.length) :
    platformUartSendBuff u id buff len = (len.toNat, [buff.take len.toNat]) := by
  unfold platformUartSendBuff platformSUartSendBuff
  rcases hid with rfl | ⟨hid, hopened⟩
  · rfl
  · unfold NUM_UART at hid
    have hatc : id ≠ PLATFORM_UART_ID_ATC := by
      unfold PLATFORM_UART_ID_ATC
      omega
    have hdebug : id ≠ PLATFORM_PORT_ID_DEBUG := by
      unfold PLATFORM_PORT_ID_DEBUG
      omega
    have hwrote : u.writeUart (phyPort id) (buff.take len.toNat) % 2 ^ 32 = len.toNat := by
      rw [hu, List.length_take, min_eq_left hlen]
      exact Nat.mod_eq_of_lt (len.toNat_lt.trans (by decide))
    rw [if_neg hatc, if_neg hdebug, uartPhyWrite, if_neg (by unfold NUM_UART; omega),
      if_neg (by simp [hopened])]
    simp only [hwrote]
    split <;> rfl

/-- A number goes the way of a string of one byte. -/
theorem platformUartSend_eq (u : UartDriver) (id : ℕ) (data : UInt8) :
    platformUartSend u id data = platformUartSendBuff u id [data] 1 := rfl

theorem uartWriteArg_eq (hu : u.Honest) (hid : u.Ready id) {arg : UartArg} (harg : arg.Writable)
    (sent : UartSent) : uartWriteArg u id sent arg =
      .ok ((sent.1 + arg.handed.length) % 2 ^ 32, sent.2 ++ [arg.handed]) := by
  cases arg with
  | number n =>
    obtain ⟨hpos, hle⟩ := harg
    have hmod : n % 2 ^ 32 = n := Int.emod_eq_of_lt hpos (by omega)
    simp only [uartWriteArg, hmod, if_neg (not_lt.2 hle), platformUartSend_eq,
      platformUartSendBuff_eq hu hid
        (show (1 : UInt16).toNat ≤ [UInt8.ofNat n.toNat].length from le_refl 1)]
    rfl
  | string s =>
    have hlen : (UInt16.ofNat s.bytes.length).toNat = s.bytes.length % 2 ^ 16 := UInt16.toNat_ofNat'
    have hle : (UInt16.ofNat s.bytes.length).toNat ≤ s.bytes.length := hlen.trans_le (Nat.mod_le _ _)
    simp only [uartWriteArg, platformUartSendBuff_eq hu hid hle, UartArg.length_handed, hlen]
    rfl
  | other => exact harg.elim

/-- **The loop**: what is handed over of each argument, and the sum of it. -/
theorem uartWrite_loop (hu : u.Honest) (hid : u.Ready id) {args : List UartArg}
    (hargs : ∀ arg ∈ args, arg.Writable) (sent : UartSent) (hsent : sent.1 < 2 ^ 32) :
    args.foldlM (uartWriteArg u id) sent =
      .ok ((sent.1 + (args.flatMap UartArg.handed).length) % 2 ^ 32,
        sent.2 ++ args.map UartArg.handed) := by
  induction args generalizing sent with
  | nil =>
    have hmod : sent.1 % 2 ^ 32 = sent.1 := Nat.mod_eq_of_lt hsent
    rw [List.foldlM_nil, List.flatMap_nil, List.length_nil, Nat.add_zero, hmod, List.map_nil,
      List.append_nil]
    rfl
  | cons arg args ih =>
    have harg := uartWriteArg_eq hu hid (hargs arg List.mem_cons_self) sent
    have hrest := ih (fun a ha => hargs a (List.mem_cons_of_mem _ ha))
      ((sent.1 + arg.handed.length) % 2 ^ 32, sent.2 ++ [arg.handed]) (Nat.mod_lt _ (by decide))
    rw [List.foldlM_cons, harg]
    refine hrest.trans ?_
    simp [Nat.add_assoc]

/-- **The call.** -/
theorem uartWrite_eq (hu : u.Honest) (hid : u.Ready id) {args : List UartArg}
    (hargs : ∀ arg ∈ args, arg.Writable) :
    uartWrite u id args =
      .ok (toInt32 ((args.flatMap UartArg.handed).length % 2 ^ 32), args.map UartArg.handed) := by
  have hexists : platformUartExists id := by
    rcases hid with hatc | ⟨hlt, -⟩
    · exact .inr hatc
    · exact .inl hlt
  have hloop := uartWrite_loop hu hid hargs (0, []) (by decide)
  rw [Nat.zero_add, List.nil_append] at hloop
  unfold uartWrite
  rw [if_neg (not_not.2 hexists), hloop]
  rfl

/-! ### For which arguments it is everything -/

theorem handed_eq_iff (arg : UartArg) : arg.handed = arg.bytes ↔ arg.bytes.length < 2 ^ 16 := by
  constructor
  · intro h
    rw [← h, UartArg.length_handed]
    exact Nat.mod_lt _ (by decide)
  · intro h
    rw [UartArg.handed, Nat.mod_eq_of_lt h, List.take_length]

/-- Each argument hands over a part of itself: it is all of them only if it is all of each. -/
theorem flatMap_handed_eq_iff (args : List UartArg) :
    args.flatMap UartArg.handed = args.flatMap UartArg.bytes ↔
      ∀ arg ∈ args, arg.bytes.length < 2 ^ 16 := by
  induction args with
  | nil => simp
  | cons arg args ih =>
    rw [List.flatMap_cons, List.flatMap_cons, List.forall_mem_cons, ← ih, ← handed_eq_iff]
    constructor
    · intro h
      have hle : ∀ as : List UartArg,
          (as.flatMap UartArg.handed).length ≤ (as.flatMap UartArg.bytes).length := by
        intro as
        induction as with
        | nil => exact le_refl _
        | cons a as ih =>
          have ha : a.handed.length ≤ a.bytes.length := by
            rw [UartArg.length_handed]
            exact Nat.mod_le _ _
          rw [List.flatMap_cons, List.flatMap_cons, List.length_append, List.length_append]
          omega
      have hlen := congrArg List.length h
      have harg : arg.handed.length ≤ arg.bytes.length := by
        rw [UartArg.length_handed]
        exact Nat.mod_le _ _
      have hargs := hle args
      rw [List.length_append, List.length_append] at hlen
      exact List.append_inj h (by omega)
    · rintro ⟨harg, hargs⟩
      rw [harg, hargs]

theorem toInt32_emod_eq_iff (n : ℕ) : toInt32 (n % 2 ^ 32) = n ↔ n < 2 ^ 31 := by
  unfold toInt32
  split_ifs <;> omega

/-- **`uart.write`** hands over its arguments and returns their length, for exactly the arguments whose
lengths fit the types on the way. -/
theorem uart_write_iff (hu : u.Honest) (hid : u.Ready id) {args : List UartArg}
    (hargs : ∀ arg ∈ args, arg.Writable) : WritesAll u id args ↔ WriteFits args := by
  unfold WritesAll WriteFits
  rw [uartWrite_eq hu hid hargs, ← flatMap_handed_eq_iff]
  constructor
  · rintro ⟨handed, hcall, hflat⟩
    simp only [Except.ok.injEq, Prod.mk.injEq] at hcall
    obtain ⟨hcount, rfl⟩ := hcall
    rw [← List.flatMap_def] at hflat
    rw [hflat, toInt32_emod_eq_iff] at hcount
    exact ⟨hflat, hcount⟩
  · rintro ⟨hflat, hlt⟩
    refine ⟨args.map UartArg.handed, ?_, ?_⟩
    · rw [hflat, (toInt32_emod_eq_iff _).2 hlt]
    · rw [← List.flatMap_def]
      exact hflat

/-- A driver that accepts every byte; the ports are open. -/
def openDriver : UartDriver where
  uartContext _ := { opened := true, workmode := 0 }
  writeUart _ data := data.length

theorem openDriver_honest : openDriver.Honest := fun _ _ => rfl

/-- A string and a number. -/
theorem uart_write_iff_two : WritesAll openDriver 1 [.string ⟨ascii "AT", by decide⟩, .number 13] ↔
    WriteFits [.string ⟨ascii "AT", by decide⟩, .number 13] :=
  uart_write_iff openDriver_honest (.inr ⟨by decide, rfl⟩) (by
    intro arg harg
    rcases List.mem_cons.1 harg with rfl | harg
    · exact trivial
    · obtain rfl := List.mem_singleton.1 harg
      exact ⟨by decide, by decide⟩)

/-- A string of 65536 bytes. -/
def longArg : UartArg := .string ⟨List.replicate 65536 65, by rw [List.length_replicate]; decide⟩

/-- Nothing of it is handed over, and the number is 0. -/
theorem uart_write_long : uartWrite openDriver 1 [longArg] = .ok (0, [[]]) ∧
    ¬ WritesAll openDriver 1 [longArg] := by
  have hlen : longArg.bytes.length = 65536 := List.length_replicate
  have hhanded : longArg.handed = [] := by
    rw [UartArg.handed, hlen]
    rfl
  have hargs : ∀ arg ∈ [longArg], arg.Writable := by
    intro arg harg
    obtain rfl := List.mem_singleton.1 harg
    exact trivial
  have hcall := @uartWrite_eq openDriver 1 openDriver_honest (.inr ⟨by decide, rfl⟩) _ hargs
  rw [List.flatMap_singleton, List.map_singleton, hhanded] at hcall
  refine ⟨hcall, ?_⟩
  rintro ⟨handed, hok, hflat⟩
  rw [hcall] at hok
  simp only [Except.ok.injEq, Prod.mk.injEq] at hok
  obtain ⟨hcount, -⟩ := hok
  rw [List.flatMap_singleton, hlen] at hcount
  exact absurd hcount (by decide)

end OsdCore
