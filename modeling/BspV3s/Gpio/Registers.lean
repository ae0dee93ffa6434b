import BspV3s.Lib.Registers

/-!
# Registers — the pin controller as a map from pins to settings

A pin has four bits of function, two of pull, two of drive and one of level, in registers that it
shares with 7, 15, 15 and 31 other pins of its bank.  The setters clear a field and OR the shifted
value in, unmasked.

* `Call.prog_eq`     : every call is a list of puts into fields of its pin;
* `registers_refine` : after any calls the registers hold what an independent map holds.
-/

namespace BspV3s

namespace Gpio

abbrev U32 := BitVec 32

abbrev Regs := ℕ → U32

abbrev GpioProg (α : Type) := Registers.RegProg ℕ U32 α

/-! ## Addresses -/

def SUNXI_PIO_BASE : ℕ := 0x01c20800
def SUNXI_R_PIO_BASE : ℕ := 0x01f02c00

def SUNXI_GPIO_L : U32 := 11

/-- `sizeof(struct sunxi_gpio)`: `cfg[4]`, `dat`, `drv[2]`, `pull[2]`. -/
def SIZEOF_SUNXI_GPIO : ℕ := 0x24

def cfgAddr (pio : ℕ) (index : U32) : ℕ := pio + 4 * index.toNat
def datAddr (pio : ℕ) : ℕ := pio + 0x10
def drvAddr (pio : ℕ) (index : U32) : ℕ := pio + 0x14 + 4 * index.toNat
def pullAddr (pio : ℕ) (index : U32) : ℕ := pio + 0x1c + 4 * index.toNat

def BANK_TO_GPIO (bank : U32) : ℕ :=
  if bank < SUNXI_GPIO_L then SUNXI_PIO_BASE + SIZEOF_SUNXI_GPIO * bank.toNat
  else SUNXI_R_PIO_BASE + SIZEOF_SUNXI_GPIO * (bank - SUNXI_GPIO_L).toNat

def GPIO_BANK (pin : U32) : U32 := pin >>> 5
def GPIO_NUM (pin : U32) : U32 := pin &&& 0x1f

def GPIO_CFG_INDEX (pin : U32) : U32 := (pin &&& 0x1f) >>> 3
def GPIO_CFG_OFFSET (pin : U32) : U32 := ((pin &&& 0x1f) &&& 0x7) <<< 2

def GPIO_DRV_INDEX (pin : U32) : U32 := (pin &&& 0x1f) >>> 4
def GPIO_DRV_OFFSET (pin : U32) : U32 := ((pin &&& 0x1f) &&& 0xf) <<< 1

def GPIO_PULL_INDEX (pin : U32) : U32 := (pin &&& 0x1f) >>> 4
def GPIO_PULL_OFFSET (pin : U32) : U32 := ((pin &&& 0x1f) &&& 0xf) <<< 1

/-! ## The setters and getters -/

def readl (addr : ℕ) : GpioProg U32 := Registers.read addr

def writel (val : U32) (addr : ℕ) : GpioProg Unit := Registers.write addr val

def clrsetbitsLe32 (addr : ℕ) (clear set : U32) : GpioProg Unit := do
  let v ← readl addr
  writel (v &&& ~~~clear ||| set) addr

def sunxiGpioSetCfgbank (pio : ℕ) (bankOffset val : U32) : GpioProg Unit :=
  let index := GPIO_CFG_INDEX bankOffset
  let offset := GPIO_CFG_OFFSET bankOffset
  clrsetbitsLe32 (cfgAddr pio index) ((0xf : U32) <<< offset.toNat) (val <<< offset.toNat)

def sunxiGpioSetCfgpin (pin val : U32) : GpioProg Unit :=
  let bank := GPIO_BANK pin
  let pio := BANK_TO_GPIO bank
  sunxiGpioSetCfgbank pio pin val

def sunxiGpioGetCfgbank (pio : ℕ) (bankOffset : U32) : GpioProg U32 := do
  let index := GPIO_CFG_INDEX bankOffset
  let offset := GPIO_CFG_OFFSET bankOffset
  let cfg ← readl (cfgAddr pio index)
  let cfg := cfg >>> offset.toNat
  pure (cfg &&& 0xf)

def sunxiGpioGetCfgpin (pin : U32) : GpioProg U32 :=
  let bank := GPIO_BANK pin
  let pio := BANK_TO_GPIO bank
  sunxiGpioGetCfgbank pio pin

def sunxiGpioSetDrv (pin val : U32) : GpioProg U32 := do
  let bank := GPIO_BANK pin
  let index := GPIO_DRV_INDEX pin
  let offset := GPIO_DRV_OFFSET pin
  let pio := BANK_TO_GPIO bank
  clrsetbitsLe32 (drvAddr pio index) ((0x3 : U32) <<< offset.toNat) (val <<< offset.toNat)
  pure 0

def sunxiGpioSetPull (pin val : U32) : GpioProg U32 := do
  let bank := GPIO_BANK pin
  let index := GPIO_PULL_INDEX pin
  let offset := GPIO_PULL_OFFSET pin
  let pio := BANK_TO_GPIO bank
  clrsetbitsLe32 (pullAddr pio index) ((0x3 : U32) <<< offset.toNat) (val <<< offset.toNat)
  pure 0

def sunxiGpioOutput (pin val : U32) : GpioProg U32 := do
  let bank := GPIO_BANK pin
  let num := GPIO_NUM pin
  let pio := BANK_TO_GPIO bank
  let dat ← readl (datAddr pio)
  let dat := if val ≠ 0 then dat ||| (0x1 : U32) <<< num.toNat
    else dat &&& ~~~((0x1 : U32) <<< num.toNat)
  writel dat (datAddr pio)
  pure 0

def sunxiGpioInput (pin : U32) : GpioProg U32 := do
  let bank := GPIO_BANK pin
  let num := GPIO_NUM pin
  let pio := BANK_TO_GPIO bank
  let dat ← readl (datAddr pio)
  let dat := dat >>> num.toNat
  pure (dat &&& 0x1)

def SUNXI_GPIO_INPUT : U32 := 0
def SUNXI_GPIO_OUTPUT : U32 := 1

def gpioDirectionInput (gpio : U32) : GpioProg U32 := do
  sunxiGpioSetCfgpin gpio SUNXI_GPIO_INPUT
  pure 0

def gpioDirectionOutput (gpio value : U32) : GpioProg U32 := do
  sunxiGpioSetCfgpin gpio SUNXI_GPIO_OUTPUT
  sunxiGpioOutput gpio value

def gpioSetMode (gpio mode : U32) : GpioProg U32 := do
  let enable := mode &&& 0xf
  let inout := mode >>> 4 &&& 0xf
  let pull := mode >>> 8 &&& 0xf
  let drv := mode >>> 12 &&& 0xf
  if enable = 0 then pure 1
  else do
    if enable &&& 0x1 ≠ 0 then sunxiGpioSetCfgpin gpio inout
    if enable &&& 0x2 ≠ 0 then discard (sunxiGpioSetPull gpio pull)
    if enable &&& 0x4 ≠ 0 then discard (sunxiGpioSetDrv gpio drv)
    pure 0

def gpioGetValue (gpio : U32) : GpioProg U32 := sunxiGpioInput gpio

def gpioSetValue (gpio value : U32) : GpioProg U32 := sunxiGpioOutput gpio value

/-! ## Mode words -/

def PIN_TYPE (x : U32) : U32 := 0x1 ||| x <<< 4

def MA_10 : U32 := 0x4 ||| (0 : U32) <<< 12
def MA_20 : U32 := 0x4 ||| (1 : U32) <<< 12
def MA_30 : U32 := 0x4 ||| (2 : U32) <<< 12
def MA_40 : U32 := 0x4 ||| (3 : U32) <<< 12

def PULL_NO : U32 := 0x2 ||| (0 : U32) <<< 8
def PULL_UP : U32 := 0x2 ||| (1 : U32) <<< 8
def PULL_DOWN : U32 := 0x2 ||| (2 : U32) <<< 8

/-- The words that are built with the macros. -/
inductive ModeWord : U32 → Prop
  | pinType {x : U32} : x < 16 → ModeWord (PIN_TYPE x)
  | drive {x : U32} : x ∈ [MA_10, MA_20, MA_30, MA_40] → ModeWord x
  | pull {x : U32} : x ∈ [PULL_NO, PULL_UP, PULL_DOWN] → ModeWord x
  | or {x y : U32} : ModeWord x → ModeWord y → ModeWord (x ||| y)

/-! ## Pins and their settings -/

/-- Banks A to I of the main controller, L to N of the other one. -/
def ValidPin (pin : U32) : Prop :=
  GPIO_BANK pin < 9 ∨ SUNXI_GPIO_L ≤ GPIO_BANK pin ∧ GPIO_BANK pin < 14

instance : DecidablePred ValidPin := fun _ => inferInstanceAs (Decidable (_ ∨ _ ∧ _))

abbrev Pin : Type := {pin : U32 // ValidPin pin}

inductive Attribute
  | function
  | pull
  | drive
  | level
  deriving DecidableEq

/-- Its number of bits. -/
@[reducible] def Attribute.bits : Attribute → ℕ
  | function => 4
  | pull => 2
  | drive => 2
  | level => 1

abbrev Key : Type := Pin × Attribute

/-- The settings of all pins. -/
abbrev Settings : Type := (k : Key) → BitVec k.2.bits

def Pin.pio (p : Pin) : ℕ := BANK_TO_GPIO (GPIO_BANK p.1)

/-- Where the field of a key is. -/
def Key.addr : Key → ℕ
  | (p, .function) => cfgAddr p.pio (GPIO_CFG_INDEX p.1)
  | (p, .pull) => pullAddr p.pio (GPIO_PULL_INDEX p.1)
  | (p, .drive) => drvAddr p.pio (GPIO_DRV_INDEX p.1)
  | (p, .level) => datAddr p.pio

def Key.lo : Key → ℕ
  | (p, .function) => (GPIO_CFG_OFFSET p.1).toNat
  | (p, .pull) => (GPIO_PULL_OFFSET p.1).toNat
  | (p, .drive) => (GPIO_DRV_OFFSET p.1).toNat
  | (p, .level) => (GPIO_NUM p.1).toNat

section Arithmetic

variable (p : U32)

theorem toNat_bank : (GPIO_BANK p).toNat = p.toNat / 32 := by
  rw [GPIO_BANK, BitVec.toNat_ushiftRight, Nat.shiftRight_eq_div_pow]

theorem toNat_num : (GPIO_NUM p).toNat = p.toNat % 32 := by
  rw [GPIO_NUM, BitVec.toNat_and]
  exact Nat.and_two_pow_sub_one_eq_mod p.toNat 5

theorem toNat_cfgIndex : (GPIO_CFG_INDEX p).toNat = p.toNat % 32 / 8 := by
  rw [GPIO_CFG_INDEX, BitVec.toNat_ushiftRight, Nat.shiftRight_eq_div_pow]
  exact congrArg (· / 8) (toNat_num p)

theorem toNat_cfgOffset : (GPIO_CFG_OFFSET p).toNat = p.toNat % 8 * 4 := by
  have hnum : (p &&& 0x1f &&& 0x7).toNat = p.toNat % 8 := by
    rw [BitVec.toNat_and, show (p &&& 0x1f).toNat = p.toNat % 32 from toNat_num p,
      show (0x7 : U32).toNat = 2 ^ 3 - 1 from rfl, Nat.and_two_pow_sub_one_eq_mod]
    omega
  rw [GPIO_CFG_OFFSET, BitVec.toNat_shiftLeft, hnum, Nat.shiftLeft_eq]
  omega

theorem toNat_pullIndex : (GPIO_PULL_INDEX p).toNat = p.toNat % 32 / 16 := by
  rw [GPIO_PULL_INDEX, BitVec.toNat_ushiftRight, Nat.shiftRight_eq_div_pow]
  exact congrArg (· / 16) (toNat_num p)

theorem toNat_pullOffset : (GPIO_PULL_OFFSET p).toNat = p.toNat % 16 * 2 := by
  have hnum : (p &&& 0x1f &&& 0xf).toNat = p.toNat % 16 := by
    rw [BitVec.toNat_and, show (p &&& 0x1f).toNat = p.toNat % 32 from toNat_num p,
      show (0xf : U32).toNat = 2 ^ 4 - 1 from rfl, Nat.and_two_pow_sub_one_eq_mod]
    omega
  rw [GPIO_PULL_OFFSET, BitVec.toNat_shiftLeft, hnum, Nat.shiftLeft_eq]
  omega

theorem toNat_drvIndex : (GPIO_DRV_INDEX p).toNat = p.toNat % 32 / 16 := toNat_pullIndex p

theorem toNat_drvOffset : (GPIO_DRV_OFFSET p).toNat = p.toNat % 16 * 2 := toNat_pullOffset p

end Arithmetic

theorem validPin_iff {pin : U32} :
    ValidPin pin ↔ pin.toNat / 32 < 9 ∨ 11 ≤ pin.toNat / 32 ∧ pin.toNat / 32 < 14 := by
  unfold ValidPin
  rw [BitVec.lt_def, BitVec.le_def, BitVec.lt_def, toNat_bank]
  exact Iff.rfl

theorem bankToGpio_eq (bank : U32) :
    BANK_TO_GPIO bank = if bank.toNat < 11 then SUNXI_PIO_BASE + SIZEOF_SUNXI_GPIO * bank.toNat
      else SUNXI_R_PIO_BASE + SIZEOF_SUNXI_GPIO * (bank.toNat - 11) := by
  have hlt : bank < SUNXI_GPIO_L ↔ bank.toNat < 11 := Iff.rfl
  have hL : SUNXI_GPIO_L.toNat = 11 := rfl
  unfold BANK_TO_GPIO
  split_ifs with h₁ h₂ h₂
  · rfl
  · exact absurd (hlt.1 h₁) h₂
  · exact absurd (hlt.2 h₂) h₁
  · rw [BitVec.toNat_sub_of_le (BitVec.not_lt.1 h₁), hL]

/-- The registers of different banks do not overlap. -/
theorem Pin.pio_apart (p q : Pin) :
    p.1.toNat / 32 = q.1.toNat / 32 ∧ p.pio = q.pio ∨
      p.pio + SIZEOF_SUNXI_GPIO ≤ q.pio ∨ q.pio + SIZEOF_SUNXI_GPIO ≤ p.pio := by
  have hp := validPin_iff.1 p.2
  have hq := validPin_iff.1 q.2
  unfold Pin.pio
  rw [bankToGpio_eq, bankToGpio_eq, toNat_bank, toNat_bank]
  unfold SUNXI_PIO_BASE SUNXI_R_PIO_BASE SIZEOF_SUNXI_GPIO
  split_ifs <;> omega

/-- The fields that the setters change are fields of their own for every pin and attribute. -/
@[reducible] def pio : Packing Key ℕ where
  addr := Key.addr
  lo := Key.lo
  width k := k.2.bits
  fits := by
    rintro ⟨p, a⟩
    cases a <;> simp only [Key.lo, Attribute.bits, toNat_cfgOffset, toNat_pullOffset,
      toNat_drvOffset, toNat_num] <;> omega
  apart := by
    rintro ⟨p, a⟩ ⟨q, b⟩ hne haddr
    have hbank := Pin.pio_apart p q
    have hpins : a = b → p.1.toNat ≠ q.1.toNat := by
      rintro rfl heq
      exact hne (congrArg (·, a) (Subtype.ext (BitVec.eq_of_toNat_eq heq)))
    unfold SIZEOF_SUNXI_GPIO at hbank
    -- Registers of different attributes of one bank differ; within one, the pins have their places.
    cases a <;> cases b <;>
      simp only [Key.addr, Key.lo, Attribute.bits, cfgAddr, pullAddr, drvAddr, datAddr,
        toNat_cfgIndex, toNat_cfgOffset, toNat_pullIndex, toNat_pullOffset, toNat_drvIndex,
        toNat_drvOffset, toNat_num, forall_const, reduceCtorEq, false_implies] at * <;>
      omega

/-! ## Calls -/

inductive Call
  | setMode (p : Pin) (mode : U32)
  | directionInput (p : Pin)
  | directionOutput (p : Pin) (value : U32)
  | setValue (p : Pin) (value : U32)
  | setCfgpin (p : Pin) (val : U32)
  | setPull (p : Pin) (val : U32)
  | setDrv (p : Pin) (val : U32)

namespace Call

def pin : Call → Pin
  | setMode p _ => p
  | directionInput p => p
  | directionOutput p _ => p
  | setValue p _ => p
  | setCfgpin p _ => p
  | setPull p _ => p
  | setDrv p _ => p

def prog : Call → GpioProg Unit
  | setMode p mode => discard (gpioSetMode p.1 mode)
  | directionInput p => discard (gpioDirectionInput p.1)
  | directionOutput p value => discard (gpioDirectionOutput p.1 value)
  | setValue p value => discard (gpioSetValue p.1 value)
  | setCfgpin p val => sunxiGpioSetCfgpin p.1 val
  | setPull p val => discard (sunxiGpioSetPull p.1 val)
  | setDrv p val => discard (sunxiGpioSetDrv p.1 val)

/-- The values are those that callers may pass. -/
def Valid : Call → Prop
  | setMode _ mode => ModeWord mode
  | setCfgpin _ val => val < 16
  | setPull _ val => val < 4
  | setDrv _ val => val < 4
  | _ => True

end Call

def progs : List Call → GpioProg Unit
  | [] => pure ()
  | c :: l => c.prog >>= fun _ => progs l

/-! ## What the calls are for -/

def levelOf (value : U32) : BitVec 1 := if value ≠ 0 then 1 else 0

/-- Whether a mode word says anything about an attribute. -/
def enabled (mode : U32) : Attribute → Bool
  | .function => mode.getLsbD 0
  | .pull => mode.getLsbD 1
  | .drive => mode.getLsbD 2
  | .level => false

def modeField (mode : U32) : (a : Attribute) → BitVec a.bits
  | .function => mode.extractLsb' 4 4
  | .pull => mode.extractLsb' 8 2
  | .drive => mode.extractLsb' 12 2
  | .level => 0

/-- What a call is to make of the settings. -/
def Call.spec : Call → Settings → Settings
  | setMode p mode, m => fun k =>
      if k.1 = p ∧ enabled mode k.2 = true then modeField mode k.2 else m k
  | directionInput p, m => Function.update m (p, .function) (0 : BitVec 4)
  | directionOutput p value, m =>
      Function.update (Function.update m (p, .function) (1 : BitVec 4)) (p, .level) (levelOf value)
  | setValue p value, m => Function.update m (p, .level) (levelOf value)
  | setCfgpin p val, m => Function.update m (p, .function) (val.setWidth 4)
  | setPull p val, m => Function.update m (p, .pull) (val.setWidth 2)
  | setDrv p val, m => Function.update m (p, .drive) (val.setWidth 2)

def specAll (cs : List Call) (m : Settings) : Settings :=
  cs.foldl (fun m c => c.spec m) m

/-- A call is about its own pin. -/
theorem Call.spec_of_ne {c : Call} {q : Pin} (h : q ≠ c.pin) (m : Settings) (a : Attribute) :
    c.spec m (q, a) = m (q, a) := by
  have hne : ∀ b, (q, a) ≠ (c.pin, b) := fun b hk => h (congrArg Prod.fst hk)
  cases c with
  | setMode p mode => exact if_neg fun hk => h hk.1
  | directionOutput p value =>
      exact (Function.update_of_ne (hne .level) _ _).trans
        (Function.update_of_ne (hne .function) _ _)
  | directionInput p => exact Function.update_of_ne (hne _) _ _
  | setValue p value => exact Function.update_of_ne (hne _) _ _
  | setCfgpin p val => exact Function.update_of_ne (hne _) _ _
  | setPull p val => exact Function.update_of_ne (hne _) _ _
  | setDrv p val => exact Function.update_of_ne (hne _) _ _

/-! ## The calls as puts -/

open Registers (Put Change Fit changes changes_append putChange putAll applyAll access)

/-- The fields that a call sets, in order. -/
def Call.puts : Call → List (Put Key)
  | setMode p mode =>
      (if mode &&& 0xf &&& 0x1 ≠ 0 then [((p, .function), mode >>> 4 &&& 0xf)] else []) ++
      (if mode &&& 0xf &&& 0x2 ≠ 0 then [((p, .pull), mode >>> 8 &&& 0xf)] else []) ++
      (if mode &&& 0xf &&& 0x4 ≠ 0 then [((p, .drive), mode >>> 12 &&& 0xf)] else [])
  | directionInput p => [((p, .function), SUNXI_GPIO_INPUT)]
  | directionOutput p value =>
      [((p, .function), SUNXI_GPIO_OUTPUT), ((p, .level), if value ≠ 0 then 1 else 0)]
  | setValue p value => [((p, .level), if value ≠ 0 then 1 else 0)]
  | setCfgpin p val => [((p, .function), val)]
  | setPull p val => [((p, .pull), val)]
  | setDrv p val => [((p, .drive), val)]

theorem setCfgpin_eq (p : Pin) (val : U32) :
    sunxiGpioSetCfgpin p.1 val = changes [putChange pio ((p, .function), val)] := rfl

theorem setPull_eq (p : Pin) (val : U32) :
    discard (sunxiGpioSetPull p.1 val) = changes [putChange pio ((p, .pull), val)] := rfl

theorem setDrv_eq (p : Pin) (val : U32) :
    discard (sunxiGpioSetDrv p.1 val) = changes [putChange pio ((p, .drive), val)] := rfl

/-- Setting or clearing the bit of a level is a put of one or of nothing. -/
theorem put_level (p : Pin) (val v : U32) :
    (if val ≠ 0 then v ||| (0x1 : U32) <<< (GPIO_NUM p.1).toNat
      else v &&& ~~~((0x1 : U32) <<< (GPIO_NUM p.1).toNat)) =
      pio.put (p, .level) (if val ≠ 0 then 1 else 0) v := by
  have hmask : fieldMask (pio.lo (p, .level)) (pio.width (p, .level)) =
      (0x1 : U32) <<< (GPIO_NUM p.1).toNat := rfl
  have hlo : pio.lo (p, .level) = (GPIO_NUM p.1).toNat := rfl
  unfold Packing.put
  rw [hmask, hlo]
  split_ifs
  · generalize (0x1 : U32) <<< (GPIO_NUM p.1).toNat = mask
    apply BitVec.eq_of_getLsbD_eq
    intro i hi
    simp only [BitVec.getLsbD_or, BitVec.getLsbD_and, BitVec.getLsbD_not, hi, decide_true,
      Bool.true_and]
    cases v.getLsbD i <;> cases mask.getLsbD i <;> rfl
  · have hzero : (0 : U32) <<< (GPIO_NUM p.1).toNat = 0 := BitVec.zero_shiftLeft _
    rw [hzero]
    exact BitVec.or_zero.symm

theorem output_eq (p : Pin) (val : U32) :
    discard (sunxiGpioOutput p.1 val) =
      changes [putChange pio ((p, .level), if val ≠ 0 then 1 else 0)] := by
  have hf : (fun v : U32 => if val ≠ 0 then v ||| (0x1 : U32) <<< (GPIO_NUM p.1).toNat
      else v &&& ~~~((0x1 : U32) <<< (GPIO_NUM p.1).toNat)) =
      pio.put (p, .level) (if val ≠ 0 then 1 else 0) := funext (put_level p val)
  unfold putChange
  rw [← hf]
  rfl

theorem setMode_eq (p : Pin) (mode : U32) :
    discard (gpioSetMode p.1 mode) =
      changes ((Call.setMode p mode).puts.map (putChange pio)) := by
  unfold gpioSetMode Call.puts
  by_cases h : mode &&& 0xf = 0
  · -- Nothing is enabled, and the three lists of puts are empty as well.
    have hnone : ∀ x : U32, ¬ mode &&& 0xf &&& x ≠ 0 := by
      intro x
      rw [h, not_not]
      exact BitVec.zero_and
    simp only [if_pos h, if_neg (hnone _), List.append_nil, List.map_nil]
    rfl
  · simp only [if_neg h]
    split_ifs <;> rfl

theorem Call.prog_eq (c : Call) : c.prog = changes (c.puts.map (putChange pio)) := by
  cases c with
  | setMode p mode => exact setMode_eq p mode
  | directionInput p => exact setCfgpin_eq p SUNXI_GPIO_INPUT
  | directionOutput p value =>
      change (sunxiGpioSetCfgpin p.1 SUNXI_GPIO_OUTPUT >>= fun _ =>
        discard (sunxiGpioOutput p.1 value)) = _
      rw [output_eq]
      rfl
  | setValue p value => exact output_eq p value
  | setCfgpin p val => exact setCfgpin_eq p val
  | setPull p val => exact setPull_eq p val
  | setDrv p val => exact setDrv_eq p val

theorem progs_eq (cs : List Call) :
    progs cs = changes ((cs.flatMap Call.puts).map (putChange pio)) := by
  induction cs with
  | nil => rfl
  | cons c cs ih =>
      rw [List.flatMap_cons, List.map_append, changes_append, ← ih, ← c.prog_eq]
      rfl

/-! ## The puts fit and do what the calls are for -/

/-- The macros leave the upper bits of the pull and drive fields alone. -/
theorem ModeWord.fit {mode : U32} (h : ModeWord mode) :
    (mode >>> 8 &&& 0xf).toNat < 2 ^ 2 ∧ (mode >>> 12 &&& 0xf).toNat < 2 ^ 2 := by
  induction h with
  | @pinType x hx =>
      have hall : ∀ i : Fin 16, (PIN_TYPE (BitVec.ofNat 32 i) >>> 8 &&& 0xf).toNat < 2 ^ 2 ∧
          (PIN_TYPE (BitVec.ofNat 32 i) >>> 12 &&& 0xf).toNat < 2 ^ 2 := by decide
      have hfin := hall ⟨x.toNat, hx⟩
      rwa [BitVec.ofNat_toNat, BitVec.setWidth_eq] at hfin
  | drive hx =>
      simp only [List.mem_cons, List.not_mem_nil, or_false] at hx
      rcases hx with rfl | rfl | rfl | rfl <;> decide
  | pull hx =>
      simp only [List.mem_cons, List.not_mem_nil, or_false] at hx
      rcases hx with rfl | rfl | rfl <;> decide
  | @or x y _ _ ihx ihy =>
      have hor : ∀ n : ℕ, (x ||| y) >>> n &&& 0xf = x >>> n &&& 0xf ||| y >>> n &&& 0xf := by
        intro n
        rw [BitVec.ushiftRight_or_distrib, BitVec.and_or_distrib_right]
      rw [hor, hor, BitVec.toNat_or, BitVec.toNat_or]
      exact ⟨Nat.or_lt_two_pow ihx.1 ihy.1, Nat.or_lt_two_pow ihx.2 ihy.2⟩

theorem fit_of {p : Pin} {a : Attribute} {x : U32} (h : x.toNat < 2 ^ a.bits) :
    Fit pio ((p, a), x) := h

theorem fit_level (p : Pin) (value : U32) :
    Fit pio ((p, .level), if value ≠ 0 then 1 else 0) := by
  split_ifs <;> exact fit_of (by decide)

theorem Call.fit {c : Call} (h : c.Valid) : ∀ q ∈ c.puts, Fit pio q := by
  cases c with
  | setMode p mode =>
      have hmode := ModeWord.fit h
      intro q hq
      simp only [Call.puts, List.mem_append] at hq
      rcases hq with (hq | hq) | hq <;> split_ifs at hq with hen <;>
        first | (rw [List.mem_singleton] at hq; subst hq) | cases hq
      -- The function is masked to four bits; the words behind it fit by their own lemma.
      · refine fit_of (lt_of_le_of_lt ?_ (by decide : (0xf : U32).toNat < 2 ^ 4))
        rw [BitVec.toNat_and]
        exact Nat.and_le_right
      · exact hmode.1
      · exact hmode.2
  | directionInput p =>
      intro q hq
      rw [List.mem_singleton.1 hq]
      exact fit_of (by decide)
  | directionOutput p value =>
      intro q hq
      rcases List.mem_cons.1 hq with rfl | hq
      · exact fit_of (by decide)
      · rw [List.mem_singleton.1 hq]
        exact fit_level p value
  | setValue p value =>
      intro q hq
      rw [List.mem_singleton.1 hq]
      exact fit_level p value
  | setCfgpin p val =>
      intro q hq
      rw [List.mem_singleton.1 hq]
      exact h
  | setPull p val =>
      intro q hq
      rw [List.mem_singleton.1 hq]
      exact h
  | setDrv p val =>
      intro q hq
      rw [List.mem_singleton.1 hq]
      exact h

/-- A field of a mode word, as the source extracts it and as it stands in the word. -/
theorem modeField_eq (mode : U32) (lo : ℕ) {width : ℕ} (hwidth : width ≤ 4) :
    (mode >>> lo &&& 0xf).setWidth width = mode.extractLsb' lo width := by
  apply BitVec.eq_of_getLsbD_eq
  intro i hi
  have hmask : (0xf : U32) = fieldMask 0 4 := by decide
  rw [hmask, BitVec.getLsbD_setWidth, BitVec.getLsbD_and, BitVec.getLsbD_ushiftRight,
    getLsbD_fieldMask, BitVec.getLsbD_extractLsb']
  have hin : i < 32 ∧ 0 ≤ i ∧ i < 0 + 4 := by omega
  simp [hi, hin.1, hin.2.2]

theorem and_bit_ne_zero (mode : U32) (n : Fin 4) :
    mode &&& 0xf &&& BitVec.twoPow 32 n ≠ 0 ↔ mode.getLsbD n = true := by
  have hmask : ∀ n : Fin 4, (0xf : U32) &&& BitVec.twoPow 32 n = BitVec.twoPow 32 n ∧
      BitVec.twoPow 32 (n : ℕ) ≠ 0 := by decide
  rw [BitVec.and_assoc, (hmask n).1, BitVec.and_twoPow]
  split_ifs with h
  · exact iff_of_true (hmask n).2 h
  · exact iff_of_false (fun h => h rfl) h

theorem spec_setMode (p : Pin) (mode : U32) (m : Settings) :
    putAll pio (Call.setMode p mode).puts m = (Call.setMode p mode).spec m := by
  funext ⟨q, a⟩
  dsimp only [Call.puts, Call.spec]
  rw [Registers.putAll_append, Registers.putAll_append]
  by_cases hq : q = p
  · subst hq
    have hen : ∀ n : Fin 4, mode &&& 0xf &&& BitVec.twoPow 32 n ≠ 0 ↔
        q = q ∧ mode.getLsbD n = true := fun n =>
      (and_bit_ne_zero mode n).trans (and_iff_right rfl).symm
    -- Of the three puts only that of the attribute itself is seen.
    cases a with
    | function =>
        rw [Registers.putAll_ite_of_ne (by simp), Registers.putAll_ite_of_ne (by simp),
          Registers.putAll_ite_self]
        exact if_congr (hen 0) (modeField_eq mode 4 (le_refl 4)) rfl
    | pull =>
        rw [Registers.putAll_ite_of_ne (by simp), Registers.putAll_ite_self,
          Registers.putAll_ite_of_ne (by simp)]
        exact if_congr (hen 1) (modeField_eq mode 8 (by decide : 2 ≤ 4)) rfl
    | drive =>
        rw [Registers.putAll_ite_self, Registers.putAll_ite_of_ne (by simp),
          Registers.putAll_ite_of_ne (by simp)]
        exact if_congr (hen 2) (modeField_eq mode 12 (by decide : 2 ≤ 4)) rfl
    | level =>
        rw [Registers.putAll_ite_of_ne (by simp), Registers.putAll_ite_of_ne (by simp),
          Registers.putAll_ite_of_ne (by simp)]
        exact (if_neg fun h => Bool.false_ne_true h.2).symm
  · have hne : ∀ b, (q, a) ≠ (p, b) := fun b h => hq (congrArg Prod.fst h)
    rw [Registers.putAll_ite_of_ne (hne _), Registers.putAll_ite_of_ne (hne _),
      Registers.putAll_ite_of_ne (hne _)]
    exact (if_neg fun h => hq h.1).symm

theorem levelOf_eq (value : U32) :
    (if value ≠ 0 then 1 else 0 : U32).setWidth 1 = levelOf value := by
  unfold levelOf
  split_ifs <;> rfl

theorem putAll_puts (c : Call) (m : Settings) : putAll pio c.puts m = c.spec m := by
  cases c with
  | setMode p mode => exact spec_setMode p mode m
  | directionInput p => rfl
  | directionOutput p value => exact congrArg (Function.update _ _) (levelOf_eq value)
  | setValue p value => exact congrArg (Function.update _ _) (levelOf_eq value)
  | setCfgpin p val => rfl
  | setPull p val => rfl
  | setDrv p val => rfl

theorem putAll_flatMap (cs : List Call) (m : Settings) :
    putAll pio (cs.flatMap Call.puts) m = specAll cs m := by
  induction cs generalizing m with
  | nil => rfl
  | cons c cs ih =>
      rw [List.flatMap_cons, Registers.putAll_append, putAll_puts]
      exact ih (c.spec m)

theorem fit_flatMap {cs : List Call} (h : ∀ c ∈ cs, c.Valid) :
    ∀ q ∈ cs.flatMap Call.puts, Fit pio q := by
  intro q hq
  rcases List.mem_flatMap.1 hq with ⟨c, hc, hq⟩
  exact Call.fit (h c hc) q hq

/-! ## The getters -/

theorem getCfgpin_eq (p : Pin) (r : Regs) :
    (sunxiGpioGetCfgpin p.1).runOn access r = ((pio.get r (p, .function)).setWidth 32, r) := by
  have hmask : fieldMask 0 4 = 0xf := by decide
  have hfield := @Packing.shift_and_mask (Key.lo (p, .function)) 4 (r (Key.addr (p, .function)))
  rw [hmask] at hfield
  exact congrArg (·, r) hfield

theorem getValue_eq (p : Pin) (r : Regs) :
    (gpioGetValue p.1).runOn access r = ((pio.get r (p, .level)).setWidth 32, r) := by
  have hmask : fieldMask 0 1 = 0x1 := by decide
  have hfield := @Packing.shift_and_mask (Key.lo (p, .level)) 1 (r (Key.addr (p, .level)))
  rw [hmask] at hfield
  exact congrArg (·, r) hfield

/-! ## Refinement -/

/-- The registers after some calls, made one after another. -/
def afterCalls (cs : List Call) (r : Regs) : Regs := ((progs cs).runOn access r).2

theorem afterCalls_eq (cs : List Call) (r : Regs) :
    afterCalls cs r = applyAll ((cs.flatMap Call.puts).map (putChange pio)) r := by
  unfold afterCalls
  rw [progs_eq, Registers.runOn_changes]

theorem get_afterCalls {cs : List Call} (h : ∀ c ∈ cs, c.Valid) (r : Regs) :
    pio.get (afterCalls cs r) = specAll cs (pio.get r) := by
  rw [afterCalls_eq, Registers.get_applyAll (fit_flatMap h)]
  exact putAll_flatMap cs _

/-- After any calls from any registers: the fields hold what the calls make of the settings, other
registers are untouched, and the getters return the settings and change nothing. -/
theorem registers_refine (r : Regs) {cs : List Call} (h : ∀ c ∈ cs, c.Valid) :
    pio.get (afterCalls cs r) = specAll cs (pio.get r) ∧
      (∀ a, (∀ k, pio.addr k ≠ a) → afterCalls cs r a = r a) ∧
      ∀ p : Pin,
        (sunxiGpioGetCfgpin p.1).runOn access (afterCalls cs r) =
          (BitVec.setWidth 32 (specAll cs (pio.get r) (p, .function)), afterCalls cs r) ∧
        (gpioGetValue p.1).runOn access (afterCalls cs r) =
          (BitVec.setWidth 32 (specAll cs (pio.get r) (p, .level)), afterCalls cs r) := by
  have hget := get_afterCalls h r
  refine ⟨hget, fun a ha => ?_, fun p => ⟨?_, ?_⟩⟩
  · rw [afterCalls_eq]
    refine Registers.applyAll_of_ne (fun c hc => ?_) r
    rcases List.mem_map.1 hc with ⟨q, -, rfl⟩
    exact ha q.1
  · rw [getCfgpin_eq, hget]
  · rw [getValue_eq, hget]

/-- Pin 7 of bank B is made an output with a pull-up. -/
theorem registers_refine_output :
    ((sunxiGpioGetCfgpin 39).runOn access (afterCalls
      [.setMode ⟨39, by decide⟩ (PIN_TYPE SUNXI_GPIO_OUTPUT ||| PULL_UP)] fun _ => 0)).1 = 1 := by
  have hvalid : ∀ c ∈ [Call.setMode ⟨39, by decide⟩ (PIN_TYPE SUNXI_GPIO_OUTPUT ||| PULL_UP)],
      c.Valid := by
    intro c hc
    rw [List.mem_singleton.1 hc]
    exact .or (.pinType (by decide)) (.pull (by simp))
  rw [((registers_refine (fun _ => 0) hvalid).2.2 ⟨39, by decide⟩).1]
  decide

end Gpio

end BspV3s
