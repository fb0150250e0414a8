import OsdCore.Prog.Trace

/-!
# Operations on pins: `platform_pio_op`

An operation is done on the pins of a port that a mask selects, one after the other.  What the driver of the
GPIOs answers is a parameter.

* `platformPioOp` : what an operation returns; `none` where a table is read past its end.
* `gpioIntCallback_of_hasPin` : an interrupt names the pin that was configured for it.
* `ReportsFailures` : an operation returns non-zero exactly if all pins that are selected are done.
* `pioLoop_eq_foldl` : the loop writes what the driver answers over what it answered before.
* `reportsFailures_pinBit`, `exists_fails_of_zero` : one pin is reported right, and no failure is made up.
* `reportsFailures_iff` : failures are reported exactly if, with any of them, the last selected pin fails.
-/

namespace OsdCore

def NUM_PIO : ℕ := 2

def PIO_PIN_EX : UInt8 := 5

/-- `PIO_PIN_ARRAY` : how many pins a port has. -/
def pioPortPins : List UInt8 := [32, PIO_PIN_EX]

/-- `platform_pio_has_port`. -/
def platformPioHasPort (port : ℕ) : Prop := port < NUM_PIO

/-- `platform_pio_has_pin`. -/
def platformPioHasPin (port pin : ℕ) : Prop :=
  port < NUM_PIO ∧ ∃ total ∈ pioPortPins[port]?, pin < total.toNat

instance platformPioHasPort.decidable (port : ℕ) : Decidable (platformPioHasPort port) :=
  inferInstanceAs (Decidable (port < NUM_PIO))

instance platformPioHasPin.decidable (port pin : ℕ) : Decidable (platformPioHasPin port pin) :=
  inferInstanceAs (Decidable (port < NUM_PIO ∧ ∃ total ∈ pioPortPins[port]?, pin < total.toNat))

/-! ### The GPIOs -/

/-- `E_AMOPENAT_GPIO_PORT`, as its number. -/
abbrev GpioPort := ℕ

def OPENAT_GPIO_0 : GpioPort := 0

def OPENAT_GPIO_31 : GpioPort := 31

def OPENAT_GPIO_UNKNOWN : GpioPort := 0xFF

/-- `openatGPIOEx` : `OPENAT_GPIO_32` to `OPENAT_GPIO_36`. -/
def openatGPIOEx : List GpioPort := [32, 33, 34, 35, 36]

/-- `get_real_gpio`; `none` past the end of the table. -/
def getRealGpio (port pin : ℕ) : Option GpioPort :=
  match port with
  | 0 => some (OPENAT_GPIO_0 + pin)
  | 1 => openatGPIOEx[pin]?
  | _ => some OPENAT_GPIO_UNKNOWN

def PLATFORM_IO_UNKNOWN_PIN : ℕ := 0xFFFFFFFE

/-- `PLATFORM_IO_ENCODE`, of a pin. -/
def PLATFORM_IO_ENCODE (port pin : ℕ) : ℕ := port <<< 5 ||| pin

/-- `platform_get_pio_pin`. -/
def platformGetPioPin (openatGpio : GpioPort) : ℕ :=
  if OPENAT_GPIO_0 ≤ openatGpio ∧ openatGpio ≤ OPENAT_GPIO_31 then
    PLATFORM_IO_ENCODE 0 (openatGpio - OPENAT_GPIO_0)
  else
    match openatGPIOEx.idxOf? openatGpio with
    | some pin => PLATFORM_IO_ENCODE 1 pin
    | none => PLATFORM_IO_UNKNOWN_PIN

/-- The ids of the interrupts of a GPIO. -/
inductive GpioInterrupt where
  | INT_GPIO_POSEDGE
  | INT_GPIO_NEGEDGE
deriving DecidableEq, Repr

/-- `PlatformMessage`, of an interrupt. -/
structure InterruptData where
  id : GpioInterrupt
  resnum : ℕ
deriving DecidableEq, Repr

/-- `GpioIntCallback` : the message that is sent, if the pin is known. -/
def gpioIntCallback (gpioNum : GpioPort) (state : UInt8) : Option InterruptData :=
  let pioPortPin := platformGetPioPin gpioNum
  if PLATFORM_IO_UNKNOWN_PIN ≠ pioPortPin then
    some ⟨if state ≠ 0 then .INT_GPIO_POSEDGE else .INT_GPIO_NEGEDGE, pioPortPin⟩
  else none

/-! ### The driver -/

/-- `T_OPENAT_GPIO_INT_TYPE`. -/
inductive GpioIntType where
  | OPENAT_GPIO_NO_INT
  | OPENAT_GPIO_INT_HIGH_LEVEL
  | OPENAT_GPIO_INT_LOW_LEVEL
  | OPENAT_GPIO_INT_BOTH_EDGE
  | OPENAT_GPIO_INT_FALLING_EDGE
  | OPENAT_GPIO_INT_RAISING_EDGE
deriving DecidableEq, Repr

/-- `T_AMOPENAT_GPIO_CFG`, with the parameters that are set for a mode. -/
inductive GpioCfg where
  | OPENAT_GPIO_INPUT
  | OPENAT_GPIO_OUTPUT (defaultState : UInt8)
  | OPENAT_GPIO_INPUT_INT (debounce : ℕ) (intType : GpioIntType)
      (intCb : GpioPort → UInt8 → Option InterruptData)

/-- The driver of the GPIOs, by its answers; a `BOOL` is a byte.  `read_gpio` is given the byte to write
to. -/
structure GpioDriver where
  configGpio : GpioPort → GpioCfg → UInt8
  setGpio : GpioPort → UInt8 → UInt8
  readGpio : GpioPort → UInt8 → UInt8 × UInt8
  closeGpio : GpioPort → UInt8

/-- The operations, in their order; `other` is a number that is none of them. -/
inductive PioOp where
  | PLATFORM_IO_PIN_SET
  | PLATFORM_IO_PIN_CLEAR
  | PLATFORM_IO_PIN_GET
  | PLATFORM_IO_PIN_DIR_INPUT
  | PLATFORM_IO_PIN_DIR_OUTPUT
  | PLATFORM_IO_PIN_DIR_OUTPUT1
  | PLATFORM_IO_PIN_DIR_INT
  | PLATFORM_IO_PIN_PULLUP
  | PLATFORM_IO_PIN_PULLDOWN
  | PLATFORM_IO_PIN_NOPULL
  | PLATFORM_IO_PIN_CLOSE
  | PLATFORM_IO_PORT_SET_VALUE
  | PLATFORM_IO_PORT_GET_VALUE
  | PLATFORM_IO_PORT_DIR_INPUT
  | PLATFORM_IO_PORT_DIR_OUTPUT
  | other
deriving DecidableEq, Repr

/-- The driver's answer to the call that configures, sets, clears or closes a GPIO; `none` for the other
operations. -/
def pioCall (drv : GpioDriver) (op : PioOp) (realGpio : GpioPort) : Option UInt8 :=
  match op with
  | .PLATFORM_IO_PIN_DIR_INT =>
    some (drv.configGpio realGpio (.OPENAT_GPIO_INPUT_INT 20 .OPENAT_GPIO_INT_BOTH_EDGE gpioIntCallback))
  | .PLATFORM_IO_PIN_DIR_INPUT => some (drv.configGpio realGpio .OPENAT_GPIO_INPUT)
  | .PLATFORM_IO_PIN_DIR_OUTPUT => some (drv.configGpio realGpio (.OPENAT_GPIO_OUTPUT 0))
  | .PLATFORM_IO_PIN_DIR_OUTPUT1 => some (drv.configGpio realGpio (.OPENAT_GPIO_OUTPUT 1))
  | .PLATFORM_IO_PIN_SET => some (drv.setGpio realGpio 1)
  | .PLATFORM_IO_PIN_CLEAR => some (drv.setGpio realGpio 0)
  | .PLATFORM_IO_PIN_CLOSE => some (drv.closeGpio realGpio)
  | _ => none

/-- The operations that configure, set, clear or close. -/
def pioCallOps : List PioOp :=
  [.PLATFORM_IO_PIN_DIR_INT, .PLATFORM_IO_PIN_DIR_INPUT, .PLATFORM_IO_PIN_DIR_OUTPUT,
    .PLATFORM_IO_PIN_DIR_OUTPUT1, .PLATFORM_IO_PIN_SET, .PLATFORM_IO_PIN_CLEAR, .PLATFORM_IO_PIN_CLOSE]

/-! ### The operation -/

/-- `platform_pio_op` : the switch, which sets `retval` (`ok`) or returns (`error`). -/
def pioSwitch (drv : GpioDriver) (op : PioOp) (realGpio : GpioPort) : Except UInt32 UInt32 :=
  match op with
  | .PLATFORM_IO_PIN_GET =>
    let (retval, gpioValue) := drv.readGpio realGpio 0xff
    .error (if retval = 1 then gpioValue.toUInt32 else 0xff)
  | op => .ok ((pioCall drv op realGpio).elim 0 UInt8.toUInt32)

/-- `1<<pin_index`. -/
def pinBit (pin : ℕ) : UInt32 := 1 <<< UInt32.ofNat pin

/-- `platform_pio_op` : the loop, over the pins that are left. -/
def pioLoop (drv : GpioDriver) (port : ℕ) (pinmask : UInt32) (op : PioOp) :
    List ℕ → UInt32 → Option UInt32
  | [], retval => some retval
  | pin :: pins, retval =>
    if pinmask &&& pinBit pin ≠ 0 then
      (getRealGpio port pin).bind fun realGpio =>
        if realGpio = OPENAT_GPIO_UNKNOWN then some 0
        else
          match pioSwitch drv op realGpio with
          | .error value => some value
          | .ok retval =>
            -- no other pin is selected
            if pinmask &&& ~~~pinBit pin = 0 then some retval
            else pioLoop drv port pinmask op pins retval
    else pioLoop drv port pinmask op pins retval

/-- `platform_pio_op`. -/
def platformPioOp (drv : GpioDriver) (port : ℕ) (pinmask : UInt32) (op : PioOp) : Option UInt32 :=
  (pioPortPins[port]?).bind fun total => pioLoop drv port pinmask op (List.range total.toNat) 1

/-! ### What is reported -/

/-- The mask selects a pin of the port. -/
def Selected (port : ℕ) (pinmask : UInt32) (pin : ℕ) : Prop :=
  platformPioHasPin port pin ∧ pinmask &&& pinBit pin ≠ 0

/-- A pin is a real GPIO, and the call of the driver for it succeeds. -/
def PinDone (drv : GpioDriver) (port : ℕ) (op : PioOp) (pin : ℕ) : Prop :=
  ∃ realGpio ∈ getRealGpio port pin, realGpio ≠ OPENAT_GPIO_UNKNOWN ∧
    ∃ answer ∈ pioCall drv op realGpio, answer ≠ 0

instance Selected.decidable (port : ℕ) (pinmask : UInt32) (pin : ℕ) :
    Decidable (Selected port pinmask pin) :=
  inferInstanceAs (Decidable (platformPioHasPin port pin ∧ pinmask &&& pinBit pin ≠ 0))

instance PinDone.decidable (drv : GpioDriver) (port : ℕ) (op : PioOp) (pin : ℕ) :
    Decidable (PinDone drv port op pin) :=
  inferInstanceAs (Decidable (∃ realGpio ∈ getRealGpio port pin, realGpio ≠ OPENAT_GPIO_UNKNOWN ∧
    ∃ answer ∈ pioCall drv op realGpio, answer ≠ 0))

/-- An operation returns non-zero exactly if it is done on all pins that are selected. -/
def ReportsFailures (drv : GpioDriver) (port : ℕ) (pinmask : UInt32) (op : PioOp) : Prop :=
  ∃ retval, platformPioOp drv port pinmask op = some retval ∧
    (retval ≠ 0 ↔ ∀ pin, Selected port pinmask pin → PinDone drv port op pin)

/-! ### The pins of a port -/

section

variable {port pin : ℕ}

theorem lt_of_hasPin (h : platformPioHasPin port pin) : pin < 32 := by
  obtain ⟨hport, total, htotal, hpin⟩ := h
  obtain ⟨hlt, rfl⟩ := List.getElem?_eq_some_iff.1 htotal
  have hle : ∀ total ∈ pioPortPins, total.toNat ≤ 32 := by simp [pioPortPins, PIO_PIN_EX]
  exact Nat.lt_of_lt_of_le hpin (hle _ (List.getElem_mem hlt))

/-- A pin of a port is a real GPIO, from which it is found again. -/
theorem exists_realGpio (h : platformPioHasPin port pin) :
    ∃ realGpio ∈ getRealGpio port pin, realGpio ≠ OPENAT_GPIO_UNKNOWN ∧
      platformGetPioPin realGpio = PLATFORM_IO_ENCODE port pin := by
  have hall : ∀ port < NUM_PIO, ∀ pin < 32, platformPioHasPin port pin →
      ∃ realGpio ∈ getRealGpio port pin, realGpio ≠ OPENAT_GPIO_UNKNOWN ∧
        platformGetPioPin realGpio = PLATFORM_IO_ENCODE port pin := by decide
  exact hall port h.1 pin (lt_of_hasPin h) h

/-- **An interrupt** names the pin that was configured for it. -/
theorem gpioIntCallback_of_hasPin (h : platformPioHasPin port pin) (state : UInt8) :
    ∃ realGpio ∈ getRealGpio port pin, gpioIntCallback realGpio state =
      some ⟨if state ≠ 0 then .INT_GPIO_POSEDGE else .INT_GPIO_NEGEDGE, PLATFORM_IO_ENCODE port pin⟩ := by
  obtain ⟨realGpio, hreal, -, hpin⟩ := exists_realGpio h
  have hknown : ∀ port < NUM_PIO, ∀ pin < 32, PLATFORM_IO_UNKNOWN_PIN ≠ PLATFORM_IO_ENCODE port pin := by
    decide
  refine ⟨realGpio, hreal, ?_⟩
  rw [gpioIntCallback, hpin, if_pos (hknown port h.1 pin (lt_of_hasPin h))]

/-- The ports have their numbers of pins. -/
theorem exists_total (hport : platformPioHasPort port) : ∃ total, pioPortPins[port]? = some total :=
  ⟨_, List.getElem?_eq_getElem hport⟩

theorem not_pinBit_and_pinBit {i j : ℕ} (hi : i < 32) (hj : j < 32) (hne : i ≠ j) :
    ~~~pinBit i &&& pinBit j = pinBit j := by
  have hall : ∀ i < 32, ∀ j < 32, i ≠ j → ~~~pinBit i &&& pinBit j = pinBit j := by decide +kernel
  exact hall i hi j hj hne

/-- A mask of one pin selects no other. -/
theorem and_pinBit_of_only {pinmask : UInt32} {i j : ℕ} (honly : pinmask &&& ~~~pinBit i = 0) (hi : i < 32)
    (hj : j < 32) (hne : i ≠ j) : pinmask &&& pinBit j = 0 := by
  rw [← not_pinBit_and_pinBit hi hj hne, ← UInt32.and_assoc, honly, UInt32.zero_and]

end

/-! ### The loop -/

section

variable {drv : GpioDriver} {port : ℕ} {pinmask : UInt32} {op : PioOp}

theorem pioCall_eq_some (drv : GpioDriver) (hop : op ∈ pioCallOps) (realGpio : GpioPort) :
    ∃ answer, pioCall drv op realGpio = some answer := by
  have hall : ∀ op ∈ pioCallOps, (pioCall drv op realGpio).isSome := by simp [pioCallOps, pioCall]
  exact Option.isSome_iff_exists.1 (hall op hop)

theorem pioSwitch_of_call {realGpio : GpioPort} {answer : UInt8}
    (h : pioCall drv op realGpio = some answer) : pioSwitch drv op realGpio = .ok answer.toUInt32 := by
  unfold pioSwitch
  split
  · exact nomatch h
  · rw [h, Option.elim_some]

/-- What the driver answers to the call for a pin. -/
def pinAnswer (drv : GpioDriver) (port : ℕ) (op : PioOp) (pin : ℕ) : Option UInt8 :=
  (getRealGpio port pin).bind (pioCall drv op)

/-- What the loop writes to `retval` for a pin, if it is selected. -/
def pinRetval (drv : GpioDriver) (port : ℕ) (pinmask : UInt32) (op : PioOp) (pin : ℕ) : Option UInt32 :=
  if pinmask &&& pinBit pin ≠ 0 then (pinAnswer drv port op pin).map UInt8.toUInt32 else none

/-- The turn of the loop, without its exits. -/
def pioTurn (drv : GpioDriver) (port : ℕ) (pinmask : UInt32) (op : PioOp) (retval : UInt32) (pin : ℕ) :
    UInt32 :=
  (pinRetval drv port pinmask op pin).getD retval

theorem pioTurn_of_unselected {pin : ℕ} (h : pinmask &&& pinBit pin = 0) (retval : UInt32) :
    pioTurn drv port pinmask op retval pin = retval := by
  rw [pioTurn, pinRetval, if_neg (not_not_intro h), Option.getD_none]

theorem foldl_pioTurn_of_unselected {pins : List ℕ} (h : ∀ pin ∈ pins, pinmask &&& pinBit pin = 0)
    (retval : UInt32) : pins.foldl (pioTurn drv port pinmask op) retval = retval := by
  induction pins with
  | nil => rfl
  | cons pin pins ih =>
    obtain ⟨hpin, hpins⟩ := List.forall_mem_cons.1 h
    rw [List.foldl_cons, pioTurn_of_unselected hpin, ih hpins]

/-- A pin of the port is a real GPIO, and the driver is called for it. -/
theorem exists_call (drv : GpioDriver) (hop : op ∈ pioCallOps) {pin : ℕ}
    (hpin : platformPioHasPin port pin) :
    ∃ realGpio answer, getRealGpio port pin = some realGpio ∧ realGpio ≠ OPENAT_GPIO_UNKNOWN ∧
      pioCall drv op realGpio = some answer := by
  obtain ⟨realGpio, hreal, hknown, -⟩ := exists_realGpio hpin
  obtain ⟨answer, hanswer⟩ := pioCall_eq_some drv hop realGpio
  exact ⟨realGpio, answer, hreal, hknown, hanswer⟩

/-- The answer for a pin says whether it is done. -/
theorem exists_pinAnswer (drv : GpioDriver) (hop : op ∈ pioCallOps) {pin : ℕ}
    (hpin : platformPioHasPin port pin) :
    ∃ answer, pinAnswer drv port op pin = some answer ∧ (PinDone drv port op pin ↔ answer ≠ 0) := by
  obtain ⟨realGpio, answer, hreal, hknown, hanswer⟩ := exists_call drv hop hpin
  refine ⟨answer, by rw [pinAnswer, hreal, Option.bind_some, hanswer], ?_, fun hne => ?_⟩
  · rintro ⟨realGpio', hreal', -, answer', hanswer', hne⟩
    obtain rfl := Option.some_inj.1 (hreal.symm.trans hreal')
    obtain rfl := Option.some_inj.1 (hanswer.symm.trans hanswer')
    exact hne
  · exact ⟨realGpio, hreal, hknown, answer, hanswer, hne⟩

/-- **A turn** for a pin that is selected: the answer is written, and the loop ends if no other pin is
selected. -/
theorem pioLoop_cons_of_selected (hop : op ∈ pioCallOps) {pin : ℕ} (hpin : platformPioHasPin port pin)
    (hsel : pinmask &&& pinBit pin ≠ 0) (pins : List ℕ) (retval : UInt32) :
    pioLoop drv port pinmask op (pin :: pins) retval =
      if pinmask &&& ~~~pinBit pin = 0 then some (pioTurn drv port pinmask op retval pin)
      else pioLoop drv port pinmask op pins (pioTurn drv port pinmask op retval pin) := by
  obtain ⟨realGpio, answer, hreal, hknown, hanswer⟩ := exists_call drv hop hpin
  have hturn : pioTurn drv port pinmask op retval pin = answer.toUInt32 := by
    rw [pioTurn, pinRetval, if_pos hsel, pinAnswer, hreal, Option.bind_some, hanswer, Option.map_some,
      Option.getD_some]
  rw [hturn, pioLoop, if_pos hsel, hreal, Option.bind_some, if_neg hknown, pioSwitch_of_call hanswer]

/-- **The loop** writes what the driver answers over what it answered before; its exits do not change
that. -/
theorem pioLoop_eq_foldl (hop : op ∈ pioCallOps) {pins : List ℕ}
    (hpins : ∀ pin ∈ pins, platformPioHasPin port pin) (hnodup : pins.Nodup) (retval : UInt32) :
    pioLoop drv port pinmask op pins retval = some (pins.foldl (pioTurn drv port pinmask op) retval) := by
  induction pins generalizing retval with
  | nil => rfl
  | cons pin pins ih =>
    obtain ⟨hpin, hpins⟩ := List.forall_mem_cons.1 hpins
    obtain ⟨hnew, hnodup⟩ := List.nodup_cons.1 hnodup
    rw [List.foldl_cons]
    by_cases hsel : pinmask &&& pinBit pin ≠ 0
    · rw [pioLoop_cons_of_selected hop hpin hsel]
      split_ifs with honly
      · -- the early exit leaves out pins that are not selected
        have hrest : ∀ pin' ∈ pins, pinmask &&& pinBit pin' = 0 := by
          intro pin' hpin'
          have hne : pin ≠ pin' := (ne_of_mem_of_not_mem hpin' hnew).symm
          exact and_pinBit_of_only honly (lt_of_hasPin hpin) (lt_of_hasPin (hpins pin' hpin')) hne
        rw [foldl_pioTurn_of_unselected hrest]
      · exact ih hpins hnodup _
    · rw [pioLoop, if_neg hsel, pioTurn_of_unselected (not_not.1 hsel)]
      exact ih hpins hnodup retval

theorem hasPin_iff {total : UInt8} (hport : platformPioHasPort port)
    (htotal : pioPortPins[port]? = some total) (pin : ℕ) :
    platformPioHasPin port pin ↔ pin ∈ List.range total.toNat := by
  rw [platformPioHasPin, htotal, List.mem_range]
  constructor
  · rintro ⟨-, total', htotal', hlt⟩
    obtain rfl := Option.some_inj.1 htotal'
    exact hlt
  · exact fun hlt => ⟨hport, total, rfl, hlt⟩

/-- The pins that something is written for are those that are selected. -/
theorem written_iff_selected {total : UInt8} (drv : GpioDriver) (pinmask : UInt32)
    (hport : platformPioHasPort port) (htotal : pioPortPins[port]? = some total) (hop : op ∈ pioCallOps)
    (pin : ℕ) :
    pin ∈ List.range total.toNat ∧ pinRetval drv port pinmask op pin ≠ none ↔
      Selected port pinmask pin := by
  rw [← hasPin_iff hport htotal, Selected]
  refine and_congr_right fun hpin => ?_
  obtain ⟨answer, hanswer, -⟩ := exists_pinAnswer drv hop hpin
  rw [pinRetval, hanswer]
  split_ifs with h
  · exact iff_of_true (Option.some_ne_none _) h
  · exact iff_of_false (not_not_intro rfl) h

/-- What is returned is what was written last. -/
theorem platformPioOp_eq_latest {total : UInt8} (drv : GpioDriver) (pinmask : UInt32)
    (hport : platformPioHasPort port) (htotal : pioPortPins[port]? = some total) (hop : op ∈ pioCallOps) :
    platformPioOp drv port pinmask op =
      some ((latest (pioTurn drv port pinmask op) (fun _ => pinRetval drv port pinmask op) 1
        (List.range total.toNat)).getD 1) := by
  have hpins : ∀ pin ∈ List.range total.toNat, platformPioHasPin port pin := fun pin =>
    (hasPin_iff hport htotal pin).2
  rw [platformPioOp, htotal, Option.bind_some, pioLoop_eq_foldl hop hpins List.nodup_range]
  exact congrArg some (foldl_eq_latest id (fun _ _ => rfl) 1 (List.range total.toNat))

/-- **The last pin** that is selected decides what is returned. -/
theorem platformPioOp_eq (drv : GpioDriver) (pinmask : UInt32) (hport : platformPioHasPort port)
    (hop : op ∈ pioCallOps) :
    (∀ pin, ¬ Selected port pinmask pin) ∧ platformPioOp drv port pinmask op = some 1 ∨
      ∃ last answer, IsGreatest {pin | Selected port pinmask pin} last ∧
        pinAnswer drv port op last = some answer ∧
        platformPioOp drv port pinmask op = some answer.toUInt32 := by
  obtain ⟨total, htotal⟩ := exists_total hport
  have hwritten := written_iff_selected drv pinmask hport htotal hop
  rw [platformPioOp_eq_latest drv pinmask hport htotal hop]
  obtain ⟨hnone, hlatest⟩ | ⟨last, hlast, hlatest⟩ := latest_of_pairwise (pioTurn drv port pinmask op)
    (pinRetval drv port pinmask op) List.pairwise_lt_range 1
  · refine Or.inl ⟨fun pin hsel => ?_, by rw [hlatest, Option.getD_none]⟩
    obtain ⟨hpin, hne⟩ := (hwritten pin).2 hsel
    exact hne (hnone pin hpin)
  · rw [Set.ext hwritten] at hlast
    obtain ⟨answer, hanswer, -⟩ := exists_pinAnswer drv hop hlast.1.1
    refine Or.inr ⟨last, answer, hlast, hanswer, ?_⟩
    rw [hlatest, pinRetval, if_pos hlast.1.2, hanswer, Option.map_some, Option.getD_some]

end

/-! ### The failures that are reported -/

theorem toUInt32_ne_zero_iff {answer : UInt8} : answer.toUInt32 ≠ 0 ↔ answer ≠ 0 := by
  rw [ne_eq, ne_eq, ← UInt8.toUInt32_inj]
  exact Iff.rfl

/-- The value that is returned where pins are selected says whether the last of them is done. -/
theorem exists_last (drv : GpioDriver) {port : ℕ} (pinmask : UInt32) {op : PioOp}
    (hport : platformPioHasPort port) (hop : op ∈ pioCallOps) :
    (∀ pin, ¬ Selected port pinmask pin) ∧ platformPioOp drv port pinmask op = some 1 ∨
      ∃ last retval, IsGreatest {pin | Selected port pinmask pin} last ∧
        platformPioOp drv port pinmask op = some retval ∧ (retval ≠ 0 ↔ PinDone drv port op last) := by
  obtain h | ⟨last, answer, hlast, hanswer, hresult⟩ := platformPioOp_eq drv pinmask hport hop
  · exact Or.inl h
  · obtain ⟨answer', hanswer', hdone⟩ := exists_pinAnswer drv hop hlast.1.1
    obtain rfl := Option.some_inj.1 (hanswer.symm.trans hanswer')
    exact Or.inr ⟨last, _, hlast, hresult, toUInt32_ne_zero_iff.trans hdone.symm⟩

/-- No failure is made up: where zero is returned, a pin that is selected fails. -/
theorem exists_fails_of_zero {drv : GpioDriver} {port : ℕ} {pinmask : UInt32} {op : PioOp}
    (hport : platformPioHasPort port) (hop : op ∈ pioCallOps)
    (h : platformPioOp drv port pinmask op = some 0) :
    ∃ pin, Selected port pinmask pin ∧ ¬ PinDone drv port op pin := by
  obtain ⟨-, hresult⟩ | ⟨last, retval, hlast, hresult, hdone⟩ := exists_last drv pinmask hport hop
  · exact absurd (Option.some_inj.1 (hresult.symm.trans h)) (by decide)
  · refine ⟨last, hlast.1, fun hlast => hdone.2 hlast ?_⟩
    exact Option.some_inj.1 (hresult.symm.trans h)

/-- **One pin**: its failure is reported. -/
theorem reportsFailures_pinBit (drv : GpioDriver) {port pin : ℕ} {op : PioOp}
    (hpin : platformPioHasPin port pin) (hop : op ∈ pioCallOps) :
    ReportsFailures drv port (pinBit pin) op := by
  have hself : Selected port (pinBit pin) pin := by
    have hne : ∀ pin < 32, pinBit pin &&& pinBit pin ≠ 0 := by decide +kernel
    exact ⟨hpin, hne pin (lt_of_hasPin hpin)⟩
  have hsel : ∀ pin', Selected port (pinBit pin) pin' → pin' = pin := by
    intro pin' hsel
    by_contra hne
    have honly : pinBit pin &&& ~~~pinBit pin = 0 := UInt32.and_not_self
    exact hsel.2 (and_pinBit_of_only honly (lt_of_hasPin hpin) (lt_of_hasPin hsel.1) (Ne.symm hne))
  obtain ⟨hnone, -⟩ | ⟨last, retval, hlast, hresult, hdone⟩ := exists_last drv (pinBit pin) hpin.1 hop
  · exact absurd hself (hnone pin)
  · obtain rfl := hsel last hlast.1
    refine ⟨retval, hresult, hdone.trans ⟨fun h pin' hpin' => ?_, fun hall => hall last hself⟩⟩
    rwa [hsel pin' hpin']

/-- **Failures are reported** if and only if, with any of the pins that are selected, the last of them
fails. -/
theorem reportsFailures_iff (drv : GpioDriver) (port : ℕ) (pinmask : UInt32) (op : PioOp)
    (hport : platformPioHasPort port) (hop : op ∈ pioCallOps) :
    ReportsFailures drv port pinmask op ↔
      ((∃ pin, Selected port pinmask pin ∧ ¬ PinDone drv port op pin) →
        ∃ last, IsGreatest {pin | Selected port pinmask pin} last ∧ ¬ PinDone drv port op last) := by
  obtain ⟨hnone, hresult⟩ | ⟨last, retval, hlast, hresult, hdone⟩ := exists_last drv pinmask hport hop
  · refine iff_of_true ⟨1, hresult, iff_of_true (by decide) fun pin hsel => absurd hsel (hnone pin)⟩ ?_
    rintro ⟨pin, hsel, -⟩
    exact absurd hsel (hnone pin)
  · constructor
    · rintro ⟨retval', hresult', hreports⟩ ⟨pin, hsel, hfails⟩
      obtain rfl := Option.some_inj.1 (hresult.symm.trans hresult')
      exact ⟨last, hlast, fun h => hfails (hreports.1 (hdone.2 h) pin hsel)⟩
    · intro hfails
      refine ⟨retval, hresult, fun hne => ?_, fun hall => hdone.2 (hall last hlast.1)⟩
      by_contra hnot
      have hsome : ∃ pin, Selected port pinmask pin ∧ ¬ PinDone drv port op pin := by
        obtain ⟨pin, hpin⟩ := not_forall.1 hnot
        exact ⟨pin, Classical.not_imp.1 hpin⟩
      obtain ⟨last', hlast', hfail⟩ := hfails hsome
      rw [hlast'.unique hlast] at hfail
      exact hfail (hdone.1 hne)

/-- A driver that fails for the first GPIO only. -/
def firstFails : GpioDriver where
  configGpio realGpio _ := if realGpio = OPENAT_GPIO_0 then 0 else 1
  setGpio realGpio _ := if realGpio = OPENAT_GPIO_0 then 0 else 1
  readGpio realGpio value := (if realGpio = OPENAT_GPIO_0 then 0 else 1, value)
  closeGpio realGpio := if realGpio = OPENAT_GPIO_0 then 0 else 1

/-- The first pin alone is set. -/
theorem reportsFailures_firstPin : ReportsFailures firstFails 0 1 .PLATFORM_IO_PIN_SET := by
  refine (reportsFailures_iff firstFails 0 1 .PLATFORM_IO_PIN_SET (by decide) (by decide)).2 fun _ => ?_
  refine ⟨0, ⟨by decide +kernel, fun pin hsel => ?_⟩, by decide⟩
  by_contra hlt
  have honly : 1 &&& ~~~pinBit 0 = 0 := by decide
  exact hsel.2 (and_pinBit_of_only honly (by decide) (lt_of_hasPin hsel.1) fun h => hlt h.symm.le)

/-- The first two pins are set. -/
theorem not_reportsFailures :
    platformPioOp firstFails 0 3 .PLATFORM_IO_PIN_SET = some 1 ∧
      Selected 0 3 0 ∧ ¬ PinDone firstFails 0 .PLATFORM_IO_PIN_SET 0 ∧
      ¬ ReportsFailures firstFails 0 3 .PLATFORM_IO_PIN_SET := by
  have hresult : platformPioOp firstFails 0 3 .PLATFORM_IO_PIN_SET = some 1 := by decide +kernel
  have hsel : Selected 0 3 0 := by decide +kernel
  have hfails : ¬ PinDone firstFails 0 .PLATFORM_IO_PIN_SET 0 := by decide
  refine ⟨hresult, hsel, hfails, ?_⟩
  rintro ⟨retval, hretval, hreports⟩
  obtain rfl := Option.some_inj.1 (hresult.symm.trans hretval)
  exact hfails (hreports.1 (by decide) 0 hsel)

end OsdCore
