import BspV3s.Gpio.Registers

/-!
# Lines — the bit-banged I2C lines

The callbacks make a line an output to set it and an input to read it, so that a line is driven high
where an open-drain one would be released, and reading releases a line that was held low.

* `drive_after`    : what a line is driven to after any callbacks;
* `drive_between`  : what it is driven to between the two writes of a set;
* `not_discipline` : no sequence of callbacks keeps to the rules of an open-drain bus.
-/

namespace BspV3s

namespace I2c

open Gpio Registers

/-! ## The driver -/

def SUNXI_GPB (nr : U32) : U32 := 32 + nr

/-- `i2c0_pin` and `i2c1_pin`, arrays of two. -/
def i2c0Pin : U32 × U32 := (SUNXI_GPB 7, SUNXI_GPB 6)

def i2c1Pin : U32 × U32 := (SUNXI_GPB 3, SUNXI_GPB 2)

def gpioSetSda (pin : U32 × U32) (state : U32) : GpioProg Unit :=
  discard (gpioDirectionOutput pin.1 state)

def gpioSetScl (pin : U32 × U32) (state : U32) : GpioProg Unit :=
  discard (gpioDirectionOutput pin.2 state)

def gpioGetSda (pin : U32 × U32) : GpioProg U32 := do
  discard (gpioDirectionInput pin.1)
  gpioGetValue pin.1

def gpioGetScl (pin : U32 × U32) : GpioProg U32 := do
  discard (gpioDirectionInput pin.2)
  gpioGetValue pin.2

/-- `rt_hw_i2c_init`, whose bus registrations make no access. -/
def rtHwI2cInit : GpioProg Unit := do
  discard (gpioSetMode i2c0Pin.1 (PIN_TYPE SUNXI_GPIO_OUTPUT ||| PULL_UP))
  discard (gpioSetMode i2c0Pin.2 (PIN_TYPE SUNXI_GPIO_OUTPUT ||| PULL_UP))
  discard (gpioSetValue i2c0Pin.1 1)
  discard (gpioSetValue i2c0Pin.2 1)
  discard (gpioSetMode i2c1Pin.1 (PIN_TYPE SUNXI_GPIO_OUTPUT ||| PULL_UP))
  discard (gpioSetMode i2c1Pin.2 (PIN_TYPE SUNXI_GPIO_OUTPUT ||| PULL_UP))
  discard (gpioSetValue i2c1Pin.1 1)
  discard (gpioSetValue i2c1Pin.2 1)

inductive Bus
  | i2c0
  | i2c1
  deriving DecidableEq

/-- The `data` that the callbacks of a bus are given. -/
def Bus.data : Bus → U32 × U32
  | i2c0 => i2c0Pin
  | i2c1 => i2c1Pin

inductive Callback
  | setSda (bus : Bus) (state : U32)
  | setScl (bus : Bus) (state : U32)
  | getSda (bus : Bus)
  | getScl (bus : Bus)

def Callback.prog : Callback → GpioProg Unit
  | setSda bus state => gpioSetSda bus.data state
  | setScl bus state => gpioSetScl bus.data state
  | getSda bus => discard (gpioGetSda bus.data)
  | getScl bus => discard (gpioGetScl bus.data)

def callbacks : List Callback → GpioProg Unit
  | [] => pure ()
  | c :: cs => c.prog >>= fun _ => callbacks cs

/-! ## Lines -/

inductive Line
  | sda (bus : Bus)
  | scl (bus : Bus)
  deriving DecidableEq

theorem Bus.validPin (bus : Bus) : ValidPin bus.data.1 ∧ ValidPin bus.data.2 := by
  cases bus <;> decide

def Line.pin : Line → Pin
  | sda bus => ⟨bus.data.1, bus.validPin.1⟩
  | scl bus => ⟨bus.data.2, bus.validPin.2⟩

theorem Line.pin_ne {l l' : Line} (h : l ≠ l') : l.pin ≠ l'.pin := by
  rcases l with ⟨⟨⟩⟩ | ⟨⟨⟩⟩ <;> rcases l' with ⟨⟨⟩⟩ | ⟨⟨⟩⟩ <;> first | exact absurd rfl h | decide

inductive Drive
  | high
  | low
  | released
  | other
  deriving DecidableEq

/-- What the master does to the line of a pin with these settings. -/
def driveOf (m : Settings) (p : Pin) : Drive :=
  if m (p, .function) = (1 : BitVec 4) then
    if m (p, .level) = (1 : BitVec 1) then .high else .low
  else if m (p, .function) = (0 : BitVec 4) then .released
  else .other

def drive (r : Regs) (l : Line) : Drive := driveOf (pio.get r) l.pin

def Callback.line : Callback → Line
  | setSda bus _ => .sda bus
  | setScl bus _ => .scl bus
  | getSda bus => .sda bus
  | getScl bus => .scl bus

/-- The state that a callback asks for, if it is a set. -/
def Callback.request : Callback → Option U32
  | setSda _ state => some state
  | setScl _ state => some state
  | getSda _ => none
  | getScl _ => none

def lastRequest (l : Line) (cs : List Callback) : Option U32 :=
  (cs.filterMap fun c => if c.line = l then c.request else none).getLast?

def afterInit (r : Regs) : Regs := (rtHwI2cInit.runOn access r).2

def after (cs : List Callback) (r : Regs) : Regs := ((callbacks cs).runOn access r).2

/-- The rules of an open-drain bus, for callbacks that start with registers `r`. -/
structure Discipline (r : Regs) (cs : List Callback) : Prop where
  neverHigh : ∀ s ∈ r :: visited (callbacks cs) r, ∀ l, drive s l ≠ .high
  released : ∀ l state, lastRequest l cs = some state → state ≠ 0 → drive (after cs r) l = .released
  low : ∀ l, lastRequest l cs = some 0 → drive (after cs r) l = .low
  reads : ∀ pre c post, cs = pre ++ c :: post → c.request = none →
    drive (after (pre ++ [c]) r) c.line = drive (after pre r) c.line

/-! ## What the callbacks do -/

/-- A callback as a call of the pin controller; the read of a get changes nothing. -/
def Callback.call (c : Callback) : Call :=
  c.request.elim (.directionInput c.line.pin) (.directionOutput c.line.pin)

/-- What a callback makes of the drive of its line. -/
def Callback.effect (c : Callback) (l : Line) (d : Drive) : Drive :=
  if c.line = l then c.request.elim .released fun state => if state ≠ 0 then .high else .low else d

theorem after_call (c : Callback) (r : Regs) : (c.prog.runOn access r).2 = afterCalls [c.call] r := by
  cases c <;> rfl

theorem Callback.valid_call (c : Callback) : ∀ d ∈ [c.call], d.Valid := by
  intro d hd
  rw [List.mem_singleton.1 hd]
  cases c <;> trivial

theorem Callback.pin_call (c : Callback) : c.call.pin = c.line.pin := by
  cases c <;> rfl

theorem get_call (c : Callback) (r : Regs) :
    pio.get (c.prog.runOn access r).2 = c.call.spec (pio.get r) := by
  rw [after_call]
  exact get_afterCalls c.valid_call r

/-- Only what the settings of its pin are decides on the drive of a line. -/
theorem driveOf_congr {m m' : Settings} {p : Pin} (h : ∀ a, m (p, a) = m' (p, a)) :
    driveOf m p = driveOf m' p := by
  unfold driveOf
  rw [h .function, h .level]

theorem driveOf_output (m : Settings) (p : Pin) (value : U32) :
    driveOf ((Call.directionOutput p value).spec m) p = if value ≠ 0 then .high else .low := by
  have hfunction : (Call.directionOutput p value).spec m (p, .function) = (1 : BitVec 4) :=
    (Function.update_of_ne (by simp) _ _).trans (Function.update_self ..)
  have hlevel : (Call.directionOutput p value).spec m (p, .level) = levelOf value :=
    Function.update_self ..
  unfold driveOf
  rw [if_pos hfunction, hlevel]
  unfold levelOf
  by_cases hvalue : value ≠ 0
  · rw [if_pos hvalue, if_pos hvalue]
    rfl
  · rw [if_neg hvalue, if_neg hvalue]
    rfl

theorem driveOf_input (m : Settings) (p : Pin) :
    driveOf ((Call.directionInput p).spec m) p = .released := by
  have hfunction : (Call.directionInput p).spec m (p, .function) = (0 : BitVec 4) :=
    Function.update_self ..
  unfold driveOf
  rw [hfunction]
  rfl

theorem drive_callback (c : Callback) (r : Regs) (l : Line) :
    drive (c.prog.runOn access r).2 l = c.effect l (drive r l) := by
  unfold drive Callback.effect
  rw [get_call]
  by_cases hl : c.line = l
  · rw [if_pos hl, ← hl, Callback.call]
    cases c.request with
    | none => exact driveOf_input _ _
    | some state => exact driveOf_output _ _ state
  · rw [if_neg hl]
    refine driveOf_congr fun a => Call.spec_of_ne ?_ _ a
    rw [c.pin_call]
    exact Line.pin_ne (Ne.symm hl)

/-- After any callbacks a line is driven as the last callback on it has left it. -/
theorem drive_after (cs : List Callback) (r : Regs) (l : Line) :
    drive (after cs r) l = cs.foldl (fun d c => c.effect l d) (drive r l) := by
  induction cs generalizing r with
  | nil => rfl
  | cons c cs ih =>
      unfold after callbacks
      rw [Prog.runOn_bind, List.foldl_cons, ← drive_callback]
      exact ih _

/-- The calls of the initialisation for one bus. -/
def initCalls (bus : Bus) : List Call :=
  [.setMode (Line.sda bus).pin (PIN_TYPE SUNXI_GPIO_OUTPUT ||| PULL_UP),
    .setMode (Line.scl bus).pin (PIN_TYPE SUNXI_GPIO_OUTPUT ||| PULL_UP),
    .setValue (Line.sda bus).pin 1, .setValue (Line.scl bus).pin 1]

/-- The initialisation leaves every line driven high. -/
theorem drive_afterInit (r : Regs) (l : Line) : drive (afterInit r) l = .high := by
  have hcalls : afterInit r = afterCalls (initCalls .i2c0 ++ initCalls .i2c1) r := rfl
  have hvalid : ∀ c ∈ initCalls .i2c0 ++ initCalls .i2c1, c.Valid := by
    intro c hc
    simp only [initCalls, List.mem_append, List.mem_cons, List.not_mem_nil, or_false] at hc
    rcases hc with (rfl | rfl | rfl | rfl) | rfl | rfl | rfl | rfl <;>
      first | trivial | exact .or (.pinType (by decide)) (.pull (by simp))
  unfold drive
  rw [hcalls, get_afterCalls hvalid]
  rcases l with ⟨⟨⟩⟩ | ⟨⟨⟩⟩ <;> rfl

/-- Between the two writes of a set the line is driven with the level that it had last. -/
theorem drive_between {c : Callback} {state : U32} (hc : c.request = some state) (r : Regs) :
    ∃ r₁ r₂, visited c.prog r = [r, r₁, r₁, r₂] ∧
      drive r₁ c.line =
        (if pio.get r (c.line.pin, .level) = (1 : BitVec 1) then .high else .low) ∧
      drive r₂ c.line = if state ≠ 0 then .high else .low := by
  have hvisited : visited c.prog r = [r, afterCalls [.setCfgpin c.line.pin SUNXI_GPIO_OUTPUT] r,
      afterCalls [.setCfgpin c.line.pin SUNXI_GPIO_OUTPUT] r, (c.prog.runOn access r).2] := by
    cases c with
    | setSda bus state => rfl
    | setScl bus state => rfl
    | getSda bus => cases hc
    | getScl bus => cases hc
  have hvalid : ∀ d ∈ [Call.setCfgpin c.line.pin SUNXI_GPIO_OUTPUT], d.Valid := by
    intro d hd
    rw [List.mem_singleton.1 hd]
    exact (by decide : SUNXI_GPIO_OUTPUT < 16)
  refine ⟨_, _, hvisited, ?_, ?_⟩
  · have hfunction : specAll [.setCfgpin c.line.pin SUNXI_GPIO_OUTPUT] (pio.get r)
        (c.line.pin, .function) = (1 : BitVec 4) := Function.update_self ..
    have hlevel : specAll [.setCfgpin c.line.pin SUNXI_GPIO_OUTPUT] (pio.get r)
        (c.line.pin, .level) = pio.get r (c.line.pin, .level) :=
      Function.update_of_ne (by simp) _ _
    unfold drive driveOf
    rw [get_afterCalls hvalid, if_pos hfunction, hlevel]
  · rw [drive_callback, Callback.effect, if_pos rfl, hc]
    rfl

/-- After the initialisation no sequence of callbacks keeps to the rules of an open-drain bus; a line
is driven high by a set to one, and released by a get even where it was held low. -/
theorem not_discipline (r : Regs) (cs : List Callback) :
    ¬ Discipline (afterInit r) cs ∧
      ∀ l, drive (after cs (afterInit r)) l = cs.foldl (fun d c => c.effect l d) .high := by
  refine ⟨fun h => ?_, fun l => ?_⟩
  · exact h.neverHigh _ List.mem_cons_self (.sda .i2c0) (drive_afterInit r _)
  · rw [drive_after, drive_afterInit]

/-- One set to one: the line is not released. -/
theorem not_discipline_set : ¬ Discipline (afterInit fun _ => 0) [.setSda .i2c0 1] := by
  intro h
  have hreleased := h.released (.sda .i2c0) 1 rfl (by decide)
  rw [drive_after] at hreleased
  exact absurd hreleased (by decide)

end I2c

end BspV3s
