import BspV3s.Lib.Bits
import BspV3s.Lib.Program
import BspV3s.Lib.Runs

/-!
# Control — two PWM channels in one control word

The channels share the control register, 15 bits apart, and each has a period register of its own.
The driver changes the control register by reading it and writing it back; `sun4i_pwm_config` does so
up to three times, with the clock gate closed in between.  The controller changes the ready bits at
any moment.

* `wp_call`              : what a call changes, and that it writes nothing when it fails;
* `channels_independent` : the same for every call of every sequence.
-/

namespace BspV3s

namespace Pwm

abbrev U32 := BitVec 32

abbrev U64 := BitVec 64

/-! ## Registers -/

def PWM_CTRL_REG : ℕ := 0x0

def PWM_CH_PRD (ch : Fin 2) : ℕ := 0x4 + 0x4 * ch

def PWM_PRESCAL_MASK : U32 := 0xf
def PWM_EN : U32 := 1 <<< 4
def PWM_ACT_STATE : U32 := 1 <<< 5
def PWM_CLK_GATING : U32 := 1 <<< 6

def PWM_RDY (ch : Fin 2) : U32 := 1 <<< (28 + 1 * (ch : ℕ))

def PWM_PRD (prd : U32) : U32 := (prd - 1) <<< 16

def PWM_PRD_MASK : U64 := 0xffff

def PWM_DTY_MASK : U32 := 0xffff

def BIT_CH (bit : U32) (chan : Fin 2) : U32 := bit <<< ((chan : ℕ) * 15)

def NSEC_PER_SEC : U64 := 1000000000

def EINVAL : Int := 22

def EBUSY : Int := 16

def prescalerTable : List U32 :=
  [120, 180, 240, 360, 480, 0, 0, 0, 12000, 24000, 36000, 48000, 72000, 0, 0, 0]

/-! ## The driver -/

structure Data where
  hasPrescalerBypass : Bool
  hasRdy : Bool

/-- `struct sun4i_pwm_chip`; its base is that of the registers here. -/
structure Chip where
  clk : U32
  data : Data

/-- `sun4i_pwm_data_a20`, on the 24 MHz clock. -/
def a20 : Chip := ⟨24000000, ⟨true, true⟩⟩

inductive Op
  | readl (offset : ℕ)
  | writel (val : U32) (offset : ℕ)

def Op.Ret : Op → Type
  | .readl _ => U32
  | .writel _ _ => Unit

abbrev PwmProg := Prog Op Op.Ret

def sun4iPwmReadl (offset : ℕ) : PwmProg U32 := Prog.op (Op.readl offset)

def sun4iPwmWritel (val : U32) (offset : ℕ) : PwmProg Unit :=
  Prog.op (Op.writel val offset)

/-- The search for a prescaler: `n` table entries are left, `div` is the last quotient. -/
def searchPrescaler (clkRate period : U64) : ℕ → ℕ → U64 → ℕ × U64
  | 0, prescaler, div => (prescaler, div)
  | n + 1, prescaler, div =>
      let entry := prescalerTable.getD prescaler 0
      if entry = 0 then searchPrescaler clkRate period n (prescaler + 1) div
      else
        let div := clkRate / entry.setWidth 64 * period / NSEC_PER_SEC
        if div - 1 ≤ PWM_PRD_MASK then (prescaler, div)
        else searchPrescaler clkRate period n (prescaler + 1) div

/-- The prescaler and the divider that `sun4i_pwm_config` settles on, if there are any. -/
def findDivider (chip : Chip) (periodNs : U32) : Option (ℕ × U64) :=
  let clkRate : U64 := chip.clk.setWidth 64
  let period : U64 := periodNs.signExtend 64
  let div := if chip.data.hasPrescalerBypass then
    (clkRate * period + NSEC_PER_SEC / 2) / NSEC_PER_SEC else 0
  let prescaler := if chip.data.hasPrescalerBypass then
    (if div - 1 > PWM_PRD_MASK then 0 else 15) else 0
  if prescaler = 0 then
    let found := searchPrescaler clkRate period 15 0 div
    if found.2 - 1 > PWM_PRD_MASK then none else some found
  else some (prescaler, div)

def sun4iPwmConfig (chip : Chip) (hwpwm : Fin 2) (dutyNs periodNs : U32) : PwmProg Int :=
  match findDivider chip periodNs with
  | none => pure (-EINVAL)
  | some (prescaler, div) => do
      let prd : U32 := div.setWidth 32
      let dty : U32 := (div * dutyNs.signExtend 64 / periodNs.setWidth 64).setWidth 32
      -- clk_prepare_enable is the constant 0.
      let val ← sun4iPwmReadl PWM_CTRL_REG
      if chip.data.hasRdy = true ∧ val &&& PWM_RDY hwpwm ≠ 0 then pure (-EBUSY)
      else do
        let clkGate := val &&& BIT_CH PWM_CLK_GATING hwpwm
        if clkGate ≠ 0 then
          sun4iPwmWritel (val &&& ~~~BIT_CH PWM_CLK_GATING hwpwm) PWM_CTRL_REG
        let val ← sun4iPwmReadl PWM_CTRL_REG
        let val := val &&& ~~~BIT_CH PWM_PRESCAL_MASK hwpwm
        let val := val ||| BIT_CH (BitVec.ofNat 32 prescaler) hwpwm
        sun4iPwmWritel val PWM_CTRL_REG
        sun4iPwmWritel (dty &&& PWM_DTY_MASK ||| PWM_PRD prd) (PWM_CH_PRD hwpwm)
        if clkGate ≠ 0 then do
          let val ← sun4iPwmReadl PWM_CTRL_REG
          sun4iPwmWritel (val ||| clkGate) PWM_CTRL_REG
        pure 0

def sun4iPwmSetPolarity (hwpwm : Fin 2) (polarity : U32) : PwmProg Int := do
  let val ← sun4iPwmReadl PWM_CTRL_REG
  let val := if polarity ≠ 0 then val &&& ~~~BIT_CH PWM_ACT_STATE hwpwm
    else val ||| BIT_CH PWM_ACT_STATE hwpwm
  sun4iPwmWritel val PWM_CTRL_REG
  pure 0

def sun4iPwmEnable (hwpwm : Fin 2) : PwmProg Int := do
  let val ← sun4iPwmReadl PWM_CTRL_REG
  let val := val ||| BIT_CH PWM_EN hwpwm
  let val := val ||| BIT_CH PWM_CLK_GATING hwpwm
  sun4iPwmWritel val PWM_CTRL_REG
  pure 0

/-- Returns nothing in the source, here 0. -/
def sun4iPwmDisable (hwpwm : Fin 2) : PwmProg Int := do
  let val ← sun4iPwmReadl PWM_CTRL_REG
  let val := val &&& ~~~BIT_CH PWM_EN hwpwm
  let val := val &&& ~~~BIT_CH PWM_CLK_GATING hwpwm
  sun4iPwmWritel val PWM_CTRL_REG
  pure 0

inductive Call
  | config (hwpwm : Fin 2) (dutyNs periodNs : U32)
  | setPolarity (hwpwm : Fin 2) (polarity : U32)
  | enable (hwpwm : Fin 2)
  | disable (hwpwm : Fin 2)

namespace Call

def channel : Call → Fin 2
  | config hwpwm _ _ => hwpwm
  | setPolarity hwpwm _ => hwpwm
  | enable hwpwm => hwpwm
  | disable hwpwm => hwpwm

def prog (chip : Chip) : Call → PwmProg Int
  | config hwpwm dutyNs periodNs => sun4iPwmConfig chip hwpwm dutyNs periodNs
  | setPolarity hwpwm polarity => sun4iPwmSetPolarity hwpwm polarity
  | enable hwpwm => sun4iPwmEnable hwpwm
  | disable hwpwm => sun4iPwmDisable hwpwm

/-- The control bits that a call is there to change. -/
def bits : Call → U32
  | config hwpwm _ _ => BIT_CH PWM_PRESCAL_MASK hwpwm
  | setPolarity hwpwm _ => BIT_CH PWM_ACT_STATE hwpwm
  | enable hwpwm => BIT_CH (PWM_EN ||| PWM_CLK_GATING) hwpwm
  | disable hwpwm => BIT_CH (PWM_EN ||| PWM_CLK_GATING) hwpwm

end Call

/-! ## The controller -/

/-- The registers, and what has been written to them. -/
structure World where
  reg : ℕ → U32
  written : List (ℕ × U32)

def access : Prog.Sem Op Op.Ret World
  | .readl offset, s, r, s' => r = s.reg offset ∧ s' = s
  | .writel val offset, s, _, s' =>
      s' = { reg := Function.update s.reg offset val, written := s.written ++ [(offset, val)] }

/-- The ready bits of both channels. -/
def RDY_BITS : U32 := PWM_RDY 0 ||| PWM_RDY 1

/-- The controller changes ready bits. -/
structure Ready (s s' : World) : Prop where
  ctrl : AgreeOff RDY_BITS (s'.reg PWM_CTRL_REG) (s.reg PWM_CTRL_REG)
  other : ∀ offset, offset ≠ PWM_CTRL_REG → s'.reg offset = s.reg offset
  written : s'.written = s.written

def hardware : Prog.Rely Op World := fun _ => Ready

/-- A whole call, with its result, among changes of the ready bits. -/
def CallStep (chip : Chip) (l : Call × Int) (s s' : World) : Prop :=
  Relation.ReflTransGen (Prog.Step access hardware) (l.1.prog chip, s) (.ret l.2, s')

/-! ## Rules for the accesses -/

abbrev Wp (p : PwmProg Int) (Q : Int → World → Prop) (s : World) : Prop :=
  Prog.wp access hardware (fun _ _ _ _ => True) p Q s

section Rules

variable {P : World → Prop} {Q : Int → World → Prop} {s : World} {offset : ℕ} {val : U32}

theorem wp_readl {k : U32 → PwmProg Int} (hP : ∀ s s', P s → Ready s s' → P s') (hs : P s)
    (h : ∀ t, P t → Wp (k (t.reg offset)) Q t) : Wp (sun4iPwmReadl offset >>= k) Q s := by
  refine Prog.wp_call hP hs ?_
  rintro t r t' ht ⟨rfl, rfl⟩
  exact ⟨trivial, h t' ht⟩

theorem wp_writel {k : Unit → PwmProg Int} (hP : ∀ s s', P s → Ready s s' → P s') (hs : P s)
    (h : ∀ t, P t → Wp (k ()) Q
      { reg := Function.update t.reg offset val, written := t.written ++ [(offset, val)] }) :
    Wp (sun4iPwmWritel val offset >>= k) Q s := by
  refine Prog.wp_call hP hs ?_
  rintro t r t' ht rfl
  exact ⟨trivial, h t ht⟩

theorem wp_pure {r : Int} (hP : ∀ s s', P s → Ready s s' → P s') (hs : P s)
    (h : ∀ t, P t → Q r t) : Wp (pure r) Q s :=
  Prog.wp_return hP hs h

end Rules

/-! ## What a call leaves alone -/

/-- Since `s₀` nothing has changed but the control bits of the mask, ready bits, and the period
register of `ch`. -/
structure Frame (s₀ : World) (ch : Fin 2) (mask : U32) (s : World) : Prop where
  ctrl : AgreeOff (mask ||| RDY_BITS) (s.reg PWM_CTRL_REG) (s₀.reg PWM_CTRL_REG)
  other : ∀ offset, offset ≠ PWM_CTRL_REG → offset ≠ PWM_CH_PRD ch →
    s.reg offset = s₀.reg offset

namespace Frame

variable {s₀ s s' : World} {ch : Fin 2} {mask mask' v : U32}

theorem refl (s₀ : World) (ch : Fin 2) : Frame s₀ ch 0 s₀ :=
  ⟨.refl _ _, fun _ _ _ => rfl⟩

theorem ready (s s' : World) (h : Frame s₀ ch mask s) (hr : Ready s s') : Frame s₀ ch mask s' where
  ctrl := hr.ctrl.absorb h.ctrl
  other offset hctrl hprd := (hr.other offset hctrl).trans (h.other offset hctrl hprd)

theorem mono (h : Frame s₀ ch mask s) (hmask : mask &&& ~~~mask' = 0) : Frame s₀ ch mask' s where
  ctrl := h.ctrl.mono (by
    apply BitVec.eq_of_getLsbD_eq
    intro i hi
    have hbit := congrArg (BitVec.getLsbD · i) hmask
    simp only [BitVec.getLsbD_and, BitVec.getLsbD_or, BitVec.getLsbD_not, hi, decide_true,
      Bool.true_and] at hbit ⊢
    cases hm : mask.getLsbD i <;> cases hr : RDY_BITS.getLsbD i <;> simp_all)
  other := h.other

theorem writeCtrl (h : Frame s₀ ch mask s)
    (hv : AgreeOff (mask' ||| RDY_BITS) v (s₀.reg PWM_CTRL_REG)) :
    Frame s₀ ch mask' ⟨Function.update s.reg PWM_CTRL_REG v,
      s.written ++ [(PWM_CTRL_REG, v)]⟩ where
  ctrl := by simpa using hv
  other offset hctrl hprd := by
    simpa [Function.update_of_ne hctrl] using h.other offset hctrl hprd

theorem writePrd (h : Frame s₀ ch mask s) (v : U32) :
    Frame s₀ ch mask ⟨Function.update s.reg (PWM_CH_PRD ch) v,
      s.written ++ [(PWM_CH_PRD ch, v)]⟩ where
  ctrl := by
    have hne : PWM_CTRL_REG ≠ PWM_CH_PRD ch := by
      unfold PWM_CTRL_REG PWM_CH_PRD
      omega
    simpa [Function.update_of_ne hne] using h.ctrl
  other offset hctrl hprd := by
    simpa [Function.update_of_ne hprd] using h.other offset hctrl hprd

end Frame

section Calls

variable {s₀ s : World} {ch : Fin 2} {mask mask' : U32} {Q : Int → World → Prop}

/-- Reading the control register and writing it back with bits of `mask'` changed. -/
theorem wp_modify {f : U32 → U32} {k : PwmProg Int} (hf : ∀ v, AgreeOff mask' (f v) v)
    (hs : Frame s₀ ch mask s) (hk : ∀ t, Frame s₀ ch (mask ||| mask') t → Wp k Q t) :
    Wp (sun4iPwmReadl PWM_CTRL_REG >>= fun val =>
      sun4iPwmWritel (f val) PWM_CTRL_REG >>= fun _ => k) Q s := by
  refine wp_readl Frame.ready hs fun t ht => ?_
  refine wp_writel Frame.ready ht fun u hu => hk _ (hu.writeCtrl ?_)
  have hmask : mask' ||| (mask ||| RDY_BITS) = mask ||| mask' ||| RDY_BITS := by
    rw [← BitVec.or_assoc, BitVec.or_comm mask']
  rw [← hmask]
  exact (hf _).trans ht.ctrl

/-- What a call is to leave, since `s₀`. -/
structure Done (s₀ : World) (c : Call) (r : Int) (s : World) : Prop where
  frame : Frame s₀ c.channel c.bits s
  atomic : r ≠ 0 → s.written = s₀.written

theorem wp_done {c : Call} (h : Frame s₀ c.channel c.bits s) : Wp (pure 0) (Done s₀ c) s :=
  wp_pure Frame.ready h fun _ ht => ⟨ht, fun h => absurd rfl h⟩

theorem wp_setPolarity (hwpwm : Fin 2) (polarity : U32) :
    Wp (sun4iPwmSetPolarity hwpwm polarity) (Done s (.setPolarity hwpwm polarity)) s := by
  have hf : ∀ v, AgreeOff (BIT_CH PWM_ACT_STATE hwpwm)
      (if polarity ≠ 0 then v &&& ~~~BIT_CH PWM_ACT_STATE hwpwm
        else v ||| BIT_CH PWM_ACT_STATE hwpwm) v := by
    intro v
    split
    · exact .and_not _ v
    · exact .or_of_subset v (BitVec.and_not_self _)
  have hbits : ∀ ch, (0 ||| BIT_CH PWM_ACT_STATE ch) &&& ~~~BIT_CH PWM_ACT_STATE ch = 0 := by decide
  exact wp_modify hf (.refl s hwpwm) fun t ht => wp_done (ht.mono (hbits hwpwm))

theorem gatingEn_bits : ∀ ch : Fin 2, (0 ||| (BIT_CH PWM_CLK_GATING ch ||| BIT_CH PWM_EN ch)) &&&
    ~~~BIT_CH (PWM_EN ||| PWM_CLK_GATING) ch = 0 := by decide

theorem wp_enable (hwpwm : Fin 2) : Wp (sun4iPwmEnable hwpwm) (Done s (.enable hwpwm)) s := by
  have hf : ∀ v, AgreeOff (BIT_CH PWM_CLK_GATING hwpwm ||| BIT_CH PWM_EN hwpwm)
      (v ||| BIT_CH PWM_EN hwpwm ||| BIT_CH PWM_CLK_GATING hwpwm) v := fun v =>
    (AgreeOff.or_of_subset _ (BitVec.and_not_self _)).trans
      (.or_of_subset v (BitVec.and_not_self _))
  exact wp_modify hf (.refl s hwpwm) fun t ht => wp_done (ht.mono (gatingEn_bits hwpwm))

theorem wp_disable (hwpwm : Fin 2) : Wp (sun4iPwmDisable hwpwm) (Done s (.disable hwpwm)) s := by
  have hf : ∀ v, AgreeOff (BIT_CH PWM_CLK_GATING hwpwm ||| BIT_CH PWM_EN hwpwm)
      (v &&& ~~~BIT_CH PWM_EN hwpwm &&& ~~~BIT_CH PWM_CLK_GATING hwpwm) v := fun v =>
    (AgreeOff.and_not _ _).trans (.and_not _ v)
  exact wp_modify hf (.refl s hwpwm) fun t ht => wp_done (ht.mono (gatingEn_bits hwpwm))

/-! ## Configuration -/

theorem searchPrescaler_le (clkRate period : U64) (n prescaler : ℕ) (div : U64) :
    (searchPrescaler clkRate period n prescaler div).1 ≤ prescaler + n := by
  induction n generalizing prescaler div with
  | zero => exact le_rfl
  | succ n ih =>
      rw [searchPrescaler]
      dsimp only
      split
      · exact (ih _ _).trans (by omega)
      · split
        · exact Nat.le_add_right prescaler (n + 1)
        · exact (ih _ _).trans (by omega)

/-- The prescaler fits its four bits. -/
theorem findDivider_prescaler {chip : Chip} {periodNs : U32} {prescaler : ℕ} {div : U64}
    (h : findDivider chip periodNs = some (prescaler, div)) : prescaler < 16 := by
  have hsearch : ∀ div, (searchPrescaler (chip.clk.setWidth 64) (periodNs.signExtend 64) 15 0
      div).1 ≤ 0 + 15 := searchPrescaler_le _ _ 15 0
  unfold findDivider at h
  dsimp only at h
  generalize (if chip.data.hasPrescalerBypass = true then (chip.clk.setWidth 64 *
    periodNs.signExtend 64 + NSEC_PER_SEC / 2) / NSEC_PER_SEC else 0) = d at h
  generalize hp : (if chip.data.hasPrescalerBypass = true then
    (if d - 1 > PWM_PRD_MASK then 0 else 15) else 0) = p at h
  have hle : p ≤ 15 := by
    rw [← hp]
    split_ifs <;> decide
  split at h
  · split at h
    · exact absurd h (Option.some_ne_none _).symm
    · have hfound := hsearch d
      rw [Option.some.inj h] at hfound
      exact Nat.lt_succ_of_le hfound
  · have hfst : p = prescaler := congrArg Prod.fst (Option.some.inj h)
    rw [← hfst]
    exact Nat.lt_succ_of_le hle

theorem agreeOff_prescaler {prescaler : ℕ} (h : prescaler < 16) (v : U32) :
    AgreeOff (BIT_CH PWM_PRESCAL_MASK ch)
      (v &&& ~~~BIT_CH PWM_PRESCAL_MASK ch ||| BIT_CH (BitVec.ofNat 32 prescaler) ch) v := by
  have hsub : BIT_CH (BitVec.ofNat 32 prescaler) ch &&& ~~~BIT_CH PWM_PRESCAL_MASK ch = 0 := by
    revert ch prescaler
    decide
  exact ((AgreeOff.or_of_subset _ hsub).trans (.and_not _ v)).mono (by
    rw [BitVec.or_self]
    exact BitVec.and_not_self _)

/-- The gate of the channel is closed. -/
structure Closed (s₀ : World) (ch : Fin 2) (mask : U32) (s : World) : Prop where
  frame : Frame s₀ ch mask s
  gate : s.reg PWM_CTRL_REG &&& BIT_CH PWM_CLK_GATING ch = 0

theorem Closed.ready (s s' : World) (h : Closed s₀ ch mask s) (hr : Ready s s') :
    Closed s₀ ch mask s' where
  frame := h.frame.ready s s' hr
  gate := by
    have hmask : ∀ ch : Fin 2, BIT_CH PWM_CLK_GATING ch &&& ~~~RDY_BITS =
        BIT_CH PWM_CLK_GATING ch := by decide
    rw [hr.ctrl.and_eq (hmask ch), h.gate]

theorem Closed.writeCtrl {v : U32} (h : Closed s₀ ch mask s)
    (hv : AgreeOff (mask' ||| RDY_BITS) v (s₀.reg PWM_CTRL_REG))
    (hgate : v &&& BIT_CH PWM_CLK_GATING ch = 0) :
    Closed s₀ ch mask' ⟨Function.update s.reg PWM_CTRL_REG v,
      s.written ++ [(PWM_CTRL_REG, v)]⟩ where
  frame := h.frame.writeCtrl hv
  gate := by simpa using hgate

theorem Closed.writePrd (h : Closed s₀ ch mask s) (v : U32) :
    Closed s₀ ch mask ⟨Function.update s.reg (PWM_CH_PRD ch) v,
      s.written ++ [(PWM_CH_PRD ch, v)]⟩ where
  frame := h.frame.writePrd v
  gate := by
    have hne : PWM_CTRL_REG ≠ PWM_CH_PRD ch := by
      unfold PWM_CTRL_REG PWM_CH_PRD
      omega
    simpa [Function.update_of_ne hne] using h.gate

/-- The rest of `sun4i_pwm_config` after the gate has been closed, which opens it again. -/
theorem wp_reopen {gate prd : U32} {prescaler : ℕ} {c : Call} (hprescaler : prescaler < 16)
    (hchannel : c.channel = ch) (hbits : c.bits = BIT_CH PWM_PRESCAL_MASK ch)
    (hgate : gate = s₀.reg PWM_CTRL_REG &&& BIT_CH PWM_CLK_GATING ch)
    (hs : Closed s₀ ch (BIT_CH PWM_CLK_GATING ch) s) :
    Wp (do
      let val ← sun4iPwmReadl PWM_CTRL_REG
      sun4iPwmWritel (val &&& ~~~BIT_CH PWM_PRESCAL_MASK ch |||
        BIT_CH (BitVec.ofNat 32 prescaler) ch) PWM_CTRL_REG
      sun4iPwmWritel prd (PWM_CH_PRD ch)
      let val ← sun4iPwmReadl PWM_CTRL_REG
      sun4iPwmWritel (val ||| gate) PWM_CTRL_REG
      pure 0) (Done s₀ c) s := by
  have happart : ∀ ch, BIT_CH PWM_CLK_GATING ch &&& ~~~BIT_CH PWM_PRESCAL_MASK ch =
      BIT_CH PWM_CLK_GATING ch := by decide
  have hsub : gate &&& ~~~BIT_CH PWM_CLK_GATING ch = 0 := by
    rw [hgate, BitVec.and_assoc, BitVec.and_not_self]
    exact BitVec.and_zero
  refine wp_readl Closed.ready hs fun t ht => ?_
  have hv := @agreeOff_prescaler ch _ hprescaler (t.reg PWM_CTRL_REG)
  refine wp_writel Closed.ready ht fun u hu => ?_
  have hprescal : AgreeOff (BIT_CH PWM_PRESCAL_MASK ch ||| BIT_CH PWM_CLK_GATING ch ||| RDY_BITS)
      (t.reg PWM_CTRL_REG &&& ~~~BIT_CH PWM_PRESCAL_MASK ch ||| BIT_CH (BitVec.ofNat 32 prescaler) ch)
      (s₀.reg PWM_CTRL_REG) := by
    rw [BitVec.or_assoc]
    exact hv.trans ht.frame.ctrl
  have hclosed := hu.writeCtrl hprescal ((hv.and_eq (happart ch)).trans ht.gate)
  refine wp_writel Closed.ready hclosed fun w hw => ?_
  refine wp_readl Closed.ready (hw.writePrd prd) fun x hx => ?_
  -- Opened, the gate bit is again what it was.
  have hopen : AgreeOff (BIT_CH PWM_PRESCAL_MASK ch ||| RDY_BITS) (x.reg PWM_CTRL_REG ||| gate)
      (s₀.reg PWM_CTRL_REG) := by
    refine AgreeOff.restore (k := BIT_CH PWM_CLK_GATING ch) ?_ ?_
    · have hor := (AgreeOff.or_of_subset (x.reg PWM_CTRL_REG) hsub).trans hx.frame.ctrl
      have hmask : ∀ ch, (BIT_CH PWM_CLK_GATING ch ||| (BIT_CH PWM_PRESCAL_MASK ch |||
          BIT_CH PWM_CLK_GATING ch ||| RDY_BITS)) &&&
          ~~~(BIT_CH PWM_PRESCAL_MASK ch ||| RDY_BITS ||| BIT_CH PWM_CLK_GATING ch) = 0 := by
        decide
      exact hor.mono (hmask ch)
    · rw [BitVec.and_or_distrib_right, hx.gate, hgate, BitVec.and_assoc, BitVec.and_self]
      exact BitVec.zero_or
  refine wp_writel Closed.ready hx fun y hy => wp_done ?_
  rw [hbits, hchannel]
  exact hy.frame.writeCtrl hopen

theorem wp_config (chip : Chip) (hwpwm : Fin 2) (dutyNs periodNs : U32) :
    Wp (sun4iPwmConfig chip hwpwm dutyNs periodNs) (Done s (.config hwpwm dutyNs periodNs)) s := by
  have hstable : ∀ t t', Frame s hwpwm 0 t ∧ t.written = s.written → Ready t t' →
      Frame s hwpwm 0 t' ∧ t'.written = s.written :=
    fun t t' h hr => ⟨h.1.ready t t' hr, hr.written.trans h.2⟩
  have hstart : Frame s hwpwm 0 s ∧ s.written = s.written := ⟨.refl s hwpwm, rfl⟩
  unfold sun4iPwmConfig
  cases hfind : findDivider chip periodNs with
  -- Without a divider nothing has been written.
  | none =>
      exact wp_pure hstable hstart fun t ht => ⟨ht.1.mono BitVec.zero_and, fun _ => ht.2⟩
  | some found =>
      rcases found with ⟨prescaler, div⟩
      have hprescaler := findDivider_prescaler hfind
      refine wp_readl hstable hstart fun t ht => ?_
      split
      · exact wp_pure hstable ht fun u hu => ⟨hu.1.mono BitVec.zero_and, fun _ => hu.2⟩
      -- The gate is closed around a change of the prescaler, if it was open.
      · by_cases hgate : t.reg PWM_CTRL_REG &&& BIT_CH PWM_CLK_GATING hwpwm = 0
        · simp only [hgate, ne_eq, not_true_eq_false, if_false]
          refine wp_modify (agreeOff_prescaler hprescaler) ht.1 fun u hu => ?_
          refine wp_writel Frame.ready hu fun v hv => wp_done ?_
          have hmask : ∀ ch, (0 ||| BIT_CH PWM_PRESCAL_MASK ch) &&&
              ~~~BIT_CH PWM_PRESCAL_MASK ch = 0 := by decide
          exact (hv.writePrd _).mono (hmask hwpwm)
        · simp only [hgate, ne_eq, not_false_eq_true, if_true]
          have hread : AgreeOff RDY_BITS (t.reg PWM_CTRL_REG) (s.reg PWM_CTRL_REG) := by
            simpa using ht.1.ctrl
          have happart : ∀ ch, BIT_CH PWM_CLK_GATING ch &&& ~~~RDY_BITS =
              BIT_CH PWM_CLK_GATING ch := by decide
          refine wp_writel hstable ht fun u hu => ?_
          refine wp_reopen hprescaler rfl rfl (hread.and_eq (happart hwpwm)) ⟨?_, ?_⟩
          · exact hu.1.writeCtrl ((AgreeOff.and_not _ _).trans hread)
          · have hclear : t.reg PWM_CTRL_REG &&& ~~~BIT_CH PWM_CLK_GATING hwpwm &&&
                BIT_CH PWM_CLK_GATING hwpwm = 0 := by
              rw [BitVec.and_assoc, BitVec.not_and_self]
              exact BitVec.and_zero
            simpa using hclear

theorem wp_call (chip : Chip) (c : Call) (s : World) : Wp (c.prog chip) (Done s c) s := by
  cases c with
  | config hwpwm dutyNs periodNs => exact wp_config chip hwpwm dutyNs periodNs
  | setPolarity hwpwm polarity => exact wp_setPolarity hwpwm polarity
  | enable hwpwm => exact wp_enable hwpwm
  | disable hwpwm => exact wp_disable hwpwm

theorem done_of_callStep {chip : Chip} {c : Call} {r : Int} {s s' : World}
    (h : CallStep chip (c, r) s s') : Done s c r s' :=
  Prog.wp_ret (Prog.wp_steps (wp_call chip c s) h)

end Calls

/-! ## Channels -/

/-- The control bits of a channel. -/
def controlBits (ch : Fin 2) : U32 := BIT_CH 0x3ff ch

/-- Nothing of channel `ch` differs. -/
structure Untouched (ch : Fin 2) (s s' : World) : Prop where
  control : s'.reg PWM_CTRL_REG &&& controlBits ch = s.reg PWM_CTRL_REG &&& controlBits ch
  period : s'.reg (PWM_CH_PRD ch) = s.reg (PWM_CH_PRD ch)

theorem gatingEn_apart : ∀ ch ch' : Fin 2, ch ≠ ch' →
    controlBits ch &&& ~~~(BIT_CH (PWM_EN ||| PWM_CLK_GATING) ch' ||| RDY_BITS) =
      controlBits ch := by
  decide

/-- A call's control bits are bits of its own channel. -/
theorem Call.bits_apart {c : Call} {ch : Fin 2} (h : ch ≠ c.channel) :
    controlBits ch &&& ~~~(c.bits ||| RDY_BITS) = controlBits ch := by
  cases c with
  | config hwpwm dutyNs periodNs =>
      have hmask : ∀ ch ch' : Fin 2, ch ≠ ch' →
          controlBits ch &&& ~~~(BIT_CH PWM_PRESCAL_MASK ch' ||| RDY_BITS) = controlBits ch := by
        decide
      exact hmask ch hwpwm h
  | setPolarity hwpwm polarity =>
      have hmask : ∀ ch ch' : Fin 2, ch ≠ ch' →
          controlBits ch &&& ~~~(BIT_CH PWM_ACT_STATE ch' ||| RDY_BITS) = controlBits ch := by
        decide
      exact hmask ch hwpwm h
  | enable hwpwm => exact gatingEn_apart ch hwpwm h
  | disable hwpwm => exact gatingEn_apart ch hwpwm h

theorem Done.untouched {s s' : World} {c : Call} {r : Int} {ch : Fin 2} (h : Done s c r s')
    (hch : ch ≠ c.channel) : Untouched ch s s' where
  control := h.frame.ctrl.and_eq (c.bits_apart hch)
  period := by
    refine h.frame.other _ ?_ ?_
    · unfold PWM_CTRL_REG PWM_CH_PRD
      omega
    · unfold PWM_CH_PRD
      have hne : (ch : ℕ) ≠ c.channel := fun heq => hch (Fin.ext heq)
      omega

theorem Untouched.trans {ch : Fin 2} {s s' s'' : World} (h : Untouched ch s s')
    (h' : Untouched ch s' s'') : Untouched ch s s'' :=
  ⟨h'.control.trans h.control, h'.period.trans h.period⟩

/-- A successful configuration changes its prescaler and nothing else of its control bits. -/
theorem Done.config_bits {s s' : World} {hwpwm : Fin 2} {dutyNs periodNs : U32} {r : Int}
    (h : Done s (.config hwpwm dutyNs periodNs) r s') :
    ∀ bit ∈ [PWM_EN, PWM_ACT_STATE, PWM_CLK_GATING],
      s'.reg PWM_CTRL_REG &&& BIT_CH bit hwpwm = s.reg PWM_CTRL_REG &&& BIT_CH bit hwpwm := by
  intro bit hbit
  refine h.frame.ctrl.and_eq ?_
  change BIT_CH bit hwpwm &&& ~~~(BIT_CH PWM_PRESCAL_MASK hwpwm ||| RDY_BITS) = BIT_CH bit hwpwm
  simp only [List.mem_cons, List.not_mem_nil, or_false] at hbit
  clear h
  rcases hbit with rfl | rfl | rfl <;> revert hwpwm <;> decide

/-- Whatever the registers are, a call leaves the other channel alone, a configuration that succeeds
keeps the enable, polarity and gating bits of its own, and a call that fails writes nothing; so in
every sequence of calls a channel stays as it is while only the other is called. -/
theorem channels_independent (chip : Chip) {s s' : World} {c : Call} {r : Int}
    (hcall : CallStep chip (c, r) s s') :
    (∀ ch, ch ≠ c.channel → Untouched ch s s') ∧
      (∀ hwpwm dutyNs periodNs, c = .config hwpwm dutyNs periodNs → r = 0 →
        ∀ bit ∈ [PWM_EN, PWM_ACT_STATE, PWM_CLK_GATING],
          s'.reg PWM_CTRL_REG &&& BIT_CH bit hwpwm = s.reg PWM_CTRL_REG &&& BIT_CH bit hwpwm) ∧
      (r ≠ 0 → s'.written = s.written) ∧
      ∀ ch s₀, RunUnder (CallStep chip) (fun l _ => l.1.channel ≠ ch) s₀ s → Untouched ch s₀ s := by
  have hdone := done_of_callStep hcall
  refine ⟨fun ch => hdone.untouched, ?_, hdone.atomic, fun ch s₀ hquiet => ?_⟩
  · rintro hwpwm dutyNs periodNs rfl -
    exact hdone.config_bits
  · refine RunUnder.invariant ?_ ⟨rfl, rfl⟩ hquiet
    rintro ⟨c, r⟩ t t' ht hch hstep
    exact ht.trans ((done_of_callStep hstep).untouched (Ne.symm hch))

/-- A run without changes of the ready bits. -/
def alone : (o : Op) → World → o.Ret × World
  | .readl offset, s => (s.reg offset, s)
  | .writel val offset, s =>
      ((), { reg := Function.update s.reg offset val, written := s.written ++ [(offset, val)] })

theorem callStep_alone (chip : Chip) (c : Call) (s : World) :
    CallStep chip (c, ((c.prog chip).runOn alone s).1) s ((c.prog chip).runOn alone s).2 := by
  have halone : ∀ o s, access o s (alone o s).1 (alone o s).2 := by
    intro o s
    cases o with
    | readl offset => exact ⟨rfl, rfl⟩
    | writel val offset => rfl
  exact (Prog.runs_runOn halone _ s).steps

/-- A configuration of the first channel, with the gates of both open. -/
theorem channels_independent_config :
    let s : World := ⟨fun _ => 0x00280070, []⟩
    let s' := ((Call.prog a20 (.config 0 500 1000)).runOn alone s).2
    CallStep a20 (.config 0 500 1000, 0) s s' ∧ s'.written.length = 4 ∧ Untouched 1 s s' ∧
      s'.reg PWM_CTRL_REG &&& BIT_CH PWM_CLK_GATING 0 = BIT_CH PWM_CLK_GATING 0 := by
  intro s s'
  have hzero : ((Call.prog a20 (.config 0 500 1000)).runOn alone s).1 = 0 := by decide +kernel
  have hcall := callStep_alone a20 (.config 0 500 1000) s
  rw [hzero] at hcall
  have h := channels_independent a20 hcall
  exact ⟨hcall, by decide +kernel, h.1 1 (by decide),
    (h.2.1 0 500 1000 rfl rfl PWM_CLK_GATING (by simp)).trans (by decide)⟩

end Pwm

end BspV3s
