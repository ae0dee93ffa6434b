import BspV3s.Mmc.Host

/-!
# Clock — the cached I/O configuration and the controller's clock

`mmc_mci_set_iocfg` reprograms the controller only where the requested clock or bus width differs from
the pair it has cached, and it stores the requested pair whether or not the controller has taken it.
A clock update that fails leaves `fatal_err` set, and only `sunxi_mmc_core_init` clears it, which runs
only when the requested clock differs from the cached one.

The controller here takes over its clock register when an update ends, and `Board.busy` says of every
update how often the driver still reads it busy; beyond 2000 the driver gives up.

* `setIocfg_honest_iff` : one call leaves an honest cache exactly under `StepOk`;
* `allHonest_iff`       : every sequence of calls, from any state of the controller;
* `failed_update_kept`  : one failed update, never retried, and no command is sent any more.
-/

namespace BspV3s

namespace Mmc

open Prog

/-! ## Setting the clock -/

def CLK_ENABLE : U32 := 0x1 <<< 16
def CLK_DIVIDER_MASK : U32 := 0xff

def CCM_MMC_CTRL_ENABLE : U32 := 0x1 <<< 31
def CCM_MMC_CTRL_OSCM24 : U32 := 0x0 <<< 24
def CCM_MMC_CTRL_PLL6 : U32 := 0x1 <<< 24
def CCM_MMC_CTRL_SCLK_DLY (x : U32) : U32 := x <<< 20
def CCM_MMC_CTRL_N (x : U32) : U32 := x <<< 16
def CCM_MMC_CTRL_OCLK_DLY (x : U32) : U32 := x <<< 8
def CCM_MMC_CTRL_M (x : U32) : U32 := x - 1

def CCM_PLL6_CTRL_N_SHIFT : Nat := 8
def CCM_PLL6_CTRL_N_MASK : U32 := 0x1f <<< CCM_PLL6_CTRL_N_SHIFT
def CCM_PLL6_CTRL_K_SHIFT : Nat := 4
def CCM_PLL6_CTRL_K_MASK : U32 := 0x3 <<< CCM_PLL6_CTRL_K_SHIFT

/-- The rate that a value of `pll6_cfg` stands for.  `24000000 * n * k / 2` is an expression of `int`, in
which nothing may overflow: it is the half of the exact product for every value of the fields. -/
def pll6Hz (rval : U32) : U32 :=
  let n := ((rval &&& CCM_PLL6_CTRL_N_MASK) >>> CCM_PLL6_CTRL_N_SHIFT) + 1
  let k := ((rval &&& CCM_PLL6_CTRL_K_MASK) >>> CCM_PLL6_CTRL_K_SHIFT) + 1
  12000000 * n * k

/-- `clock_get_pll6`. -/
def clockGetPll6 : MmcM U32 := do
  let rval ← readl .pll6Cfg
  pure (pll6Hz rval)

/-- `while (div > 16) { n++; div = (div + 1) / 2; }`: the final `n` and `div`. -/
def halve : Nat → U32 → U32 → U32 × U32
  | 0, n, div => (n, div)
  | fuel + 1, n, div => if div > 16 then halve fuel (n + 1) ((div + 1) / 2) else (n, div)

/-- `oclk_dly` and `sclk_dly`. -/
def delays (hz : U32) : U32 × U32 :=
  if hz ≤ 400000 then (0, 0)
  else if hz ≤ 25000000 then (0, 5)
  else if hz ≤ 50000000 then (3, 4)
  else (1, 4)

/-- The word that `mmc_set_mod_clk` stores, `none` where it cannot set the clock. -/
def modClkWord (pll pllHz hz : U32) : Option U32 :=
  let div := pllHz / hz
  let div := if pllHz % hz ≠ 0 then div + 1 else div
  -- 32 rounds bring every word down to 16.
  let (n, div) := halve 32 0 div
  if n > 3 then
    none
  else
    let (oclkDly, sclkDly) := delays hz
    some (CCM_MMC_CTRL_ENABLE ||| pll ||| CCM_MMC_CTRL_SCLK_DLY sclkDly ||| CCM_MMC_CTRL_N n |||
      CCM_MMC_CTRL_OCLK_DLY oclkDly ||| CCM_MMC_CTRL_M div)

/-- `mmc_set_mod_clk`. -/
def mmcSetModClk (hz : U32) : MmcM Int := do
  let (pll, pllHz) ← (if hz ≤ 24000000 then
      pure (CCM_MMC_CTRL_OSCM24, 24000000)
    else do
      let pllHz ← clockGetPll6
      pure (CCM_MMC_CTRL_PLL6, pllHz) : MmcM (U32 × U32))
  match modClkWord pll pllHz hz with
  | none => pure (-1)
  | some v => do
      writel .mclkreg v
      pure 0

/-- `mmc_config_clock`. -/
def mmcConfigClock (clock : U32) : MmcM Int := do
  let rval ← readl .clkcr
  let rval := rval &&& ~~~CLK_ENABLE
  writel .clkcr rval
  let ret ← mmcUpdateClk
  if ret ≠ 0 then
    pure (-1)
  else do
    let ret ← mmcSetModClk clock
    if ret ≠ 0 then
      pure (-1)
    else do
      let rval := rval &&& ~~~CLK_DIVIDER_MASK
      writel .clkcr rval
      let rval := rval ||| CLK_ENABLE
      writel .clkcr rval
      let ret ← mmcUpdateClk
      if ret ≠ 0 then pure (-1) else pure 0

/-- The width register's word for a bus width; there are only three. -/
def widthWord (busWidth : U32) : Option U32 :=
  if busWidth = 8 then some 0x2
  else if busWidth = 4 then some 0x1
  else if busWidth = 1 then some 0x0
  else none

/-- `sunxi_mmc_set_ios`, from and to a value of `fatal_err`. -/
def sunxiMmcSetIos (fatalErr clock busWidth : U32) : MmcM U32 := do
  let ret ← (if clock ≠ 0 then mmcConfigClock clock else pure 0 : MmcM Int)
  if ret ≠ 0 then
    pure 1
  else
    match widthWord busWidth with
    | none => pure fatalErr
    | some v => do
        writel .width v
        pure fatalErr

/-- `sunxi_mmc_core_init`; the result is `fatal_err`. -/
def sunxiMmcCoreInit : MmcM U32 := do
  writel .gctrl GCTRL_RESET
  udelay 1000
  pure 0

/-! ## The I/O configuration -/

inductive PowerMode
  | off
  | up
  | on
  deriving DecidableEq, Repr

/-- What `mmc_mci_set_iocfg` reads of `struct rt_mmcsd_io_cfg`; the bus width is a logarithm. -/
structure IoCfg where
  powerMode : PowerMode
  clock : U32
  busWidth : U32
  deriving DecidableEq, Repr

/-- The pair that `struct mmc_mci` caches, and `fatal_err` of the host driver. -/
structure IoState where
  clock : U32
  busWidth : U32
  fatalErr : U32
  deriving DecidableEq, Repr

/-- `mmc_mci_set_iocfg`. -/
def mmcMciSetIocfg (cfg : IoCfg) (s : IoState) : MmcM IoState :=
  if cfg.powerMode ≠ .off then do
    let s ← (if cfg.clock ≠ s.clock then do
        let _ ← sunxiMmcCoreInit
        let fatalErr ← sunxiMmcSetIos 0 cfg.clock ((1 : U32) <<< cfg.busWidth)
        pure ⟨cfg.clock, cfg.busWidth, fatalErr⟩
      else pure s : MmcM IoState)
    if cfg.busWidth ≠ s.busWidth then do
      let fatalErr ← sunxiMmcSetIos s.fatalErr 0 ((1 : U32) <<< cfg.busWidth)
      pure ⟨s.clock, cfg.busWidth, fatalErr⟩
    else
      pure s
  else
    pure s

/-- `mci` and the host are cleared when the driver starts. -/
def IoState.init : IoState := ⟨0, 0, 0⟩

/-! ## The controller -/

/-- What the controller answers: `busy n` reads of the command register find the `n`th clock update
still going on. -/
structure Board where
  busy : Nat → Nat
  pll6Cfg : U32
  other : Reg → U32

/-- The registers that hold the clock and the bus width, what of `clkcr` is in force, and how far the
last clock update is. -/
structure Ctl where
  clkcr : U32
  latched : U32
  width : U32
  mclk : U32
  updates : Nat
  reads : Nat
  deriving DecidableEq, Repr

/-- One access.  The driver goes on with the old clock setting after every `GCTRL_RESET` of its error
path, so a reset leaves these registers alone. -/
def Board.access (b : Board) : (o : Op) → Ctl → Op.Ret o × Ctl
  | .readl .cmd, c =>
      if c.reads < b.busy c.updates then
        (CMD_START, { c with reads := c.reads + 1 })
      else
        (0, { c with latched := c.clkcr })
  | .readl .clkcr, c => (c.clkcr, c)
  | .readl .width, c => (c.width, c)
  | .readl .mclkreg, c => (c.mclk, c)
  | .readl .pll6Cfg, c => (b.pll6Cfg, c)
  | .readl r, c => (b.other r, c)
  | .writel .cmd v, c =>
      if v &&& CMD_UPCLK_ONLY ≠ 0 then
        ((), { c with updates := c.updates + 1, reads := 0 })
      else
        ((), c)
  | .writel .clkcr v, c => ((), { c with clkcr := v })
  | .writel .width v, c => ((), { c with width := v })
  | .writel .mclkreg v, c => ((), { c with mclk := v })
  | .writel _ _, c => ((), c)
  | .load _, c => (0, c)
  | .store _ _, c => ((), c)
  | .setResponse _ _, c => ((), c)
  | .udelay _, c => ((), c)
  | .setReqErr _ _, c => ((), c)
  | .copyResponse _, c => ((), c)
  | .setErr _, c => ((), c)
  | .reqComplete, c => ((), c)

/-- `mmc_mci_set_iocfg` on this controller. -/
def Board.setIocfg (b : Board) (cfg : IoCfg) (x : IoState × Ctl) : IoState × Ctl :=
  (mmcMciSetIocfg cfg x.1).runOn b.access x.2

/-- The word of the module clock register for a rate. -/
def Board.modClk (b : Board) (hz : U32) : Option U32 :=
  if hz ≤ 24000000 then modClkWord CCM_MMC_CTRL_OSCM24 24000000 hz
  else modClkWord CCM_MMC_CTRL_PLL6 (pll6Hz b.pll6Cfg) hz

/-! ## Honest caches -/

/-- The card's clock runs undivided at the rate `hz`; at rate 0 it is off. -/
def ClockAgrees (b : Board) (hz : U32) (c : Ctl) : Prop :=
  if hz = 0 then c.latched &&& CLK_ENABLE = 0
  else b.modClk hz = some c.mclk ∧ c.latched &&& CLK_ENABLE ≠ 0 ∧
    c.latched &&& CLK_DIVIDER_MASK = 0

/-- The cached pair is the controller's actual setting. -/
structure Agrees (b : Board) (x : IoState × Ctl) : Prop where
  clock : ClockAgrees b x.1.clock x.2
  width : widthWord ((1 : U32) <<< x.1.busWidth) = some x.2.width

/-- The next call with the settings `cfg` accesses the controller. -/
def Reprograms (cfg : IoCfg) (s : IoState) : Prop :=
  (mmcMciSetIocfg cfg s).next ≠ none

/-- After a call with `cfg` the cache is truthful and commands are sent, or the same call again will
reprogram the controller. -/
def Honest (b : Board) (cfg : IoCfg) (x : IoState × Ctl) : Prop :=
  (Agrees b x ∧ x.1.fatalErr = 0) ∨ Reprograms cfg x.1

/-- The caches that a sequence of calls leaves behind are all honest. -/
def AllHonest (b : Board) : List IoCfg → IoState × Ctl → Prop
  | [], _ => True
  | cfg :: cfgs, x => Honest b cfg (b.setIocfg cfg x) ∧ AllHonest b cfgs (b.setIocfg cfg x)

/-- The clock can be set to `hz`: the rate can be divided down to, and the two clock updates end in
time. -/
structure Settable (b : Board) (c : Ctl) (hz : U32) : Prop where
  rate : (b.modClk hz).isSome
  off : b.busy (c.updates + 1) ≤ 2000
  on : b.busy (c.updates + 2) ≤ 2000

/-- The calls that leave an honest cache.  Before any call has set a clock, the controller itself must
stand as the cleared cache says. -/
def StepOk (b : Board) (cfg : IoCfg) (x : IoState × Ctl) : Prop :=
  if cfg.powerMode = .off then
    x.1.clock = 0 → Agrees b x
  else if cfg.clock ≠ x.1.clock then
    cfg.clock ≠ 0 ∧ Settable b x.2 cfg.clock ∧ (widthWord ((1 : U32) <<< cfg.busWidth)).isSome
  else if cfg.busWidth ≠ x.1.busWidth then
    (x.1.clock = 0 → ClockAgrees b 0 x.2) ∧ (widthWord ((1 : U32) <<< cfg.busWidth)).isSome
  else
    x.1.clock = 0 → Agrees b x

def AllOk (b : Board) : List IoCfg → IoState × Ctl → Prop
  | [], _ => True
  | cfg :: cfgs, x => StepOk b cfg x ∧ AllOk b cfgs (b.setIocfg cfg x)

/-! ## What the routines do to the controller -/

variable {b : Board} {c : Ctl}

theorem access_cmd_busy (h : c.reads < b.busy c.updates) :
    b.access (.readl .cmd) c = (CMD_START, { c with reads := c.reads + 1 }) :=
  if_pos h

theorem access_cmd_idle (h : ¬ c.reads < b.busy c.updates) :
    b.access (.readl .cmd) c = (0, { c with latched := c.clkcr }) :=
  if_neg h

/-- A round that finds the update still going on. -/
theorem runOn_pollWhile_succ (timeout : Nat) (h : c.reads < b.busy c.updates) :
    (pollWhile .cmd CMD_START 1000 (timeout + 1)).runOn b.access c =
      (pollWhile .cmd CMD_START 1000 timeout).runOn b.access { c with reads := c.reads + 1 } := by
  have hbit : ¬ CMD_START &&& CMD_START = 0 := by decide
  rw [pollWhile, runOn_bind, readl, runOn_op, access_cmd_busy h, if_neg hbit]
  rfl

/-- The loop ends when the clock update does, within its timeout. -/
theorem runOn_pollWhile_done {k timeout : Nat} (hk : k ≤ timeout) (c : Ctl)
    (hbusy : b.busy c.updates = c.reads + k) :
    (pollWhile .cmd CMD_START 1000 timeout).runOn b.access c =
      (some (timeout - k), { c with reads := c.reads + k, latched := c.clkcr }) := by
  induction k generalizing c timeout with
  | zero =>
      have hidle : ¬ c.reads < b.busy c.updates := by omega
      have hbit : 0 &&& CMD_START = 0 := by decide
      cases timeout with
      | zero =>
          rw [pollWhile, runOn_bind, readl, runOn_op, access_cmd_idle hidle, if_pos hbit]
          rfl
      | succ timeout =>
          rw [pollWhile, runOn_bind, readl, runOn_op, access_cmd_idle hidle, if_pos hbit]
          rfl
  | succ k ih =>
      have hread : c.reads < b.busy c.updates := by omega
      cases timeout with
      | zero => omega
      | succ timeout =>
          have hshift : b.busy c.updates = c.reads + 1 + k := by omega
          rw [runOn_pollWhile_succ timeout hread,
            ih (by omega) { c with reads := c.reads + 1 } hshift, Nat.add_sub_add_right,
            Nat.add_assoc, Nat.add_comm 1 k]

/-- The loop gives up on a clock update that takes longer than its timeout. -/
theorem runOn_pollWhile_timeout (timeout : Nat) (c : Ctl)
    (hbusy : c.reads + timeout < b.busy c.updates) :
    ((pollWhile .cmd CMD_START 1000 timeout).runOn b.access c).1 = none := by
  induction timeout generalizing c with
  | zero =>
      have hbit : ¬ CMD_START &&& CMD_START = 0 := by decide
      rw [pollWhile, runOn_bind, readl, runOn_op, access_cmd_busy hbusy, if_neg hbit]
      rfl
  | succ timeout ih =>
      have hread : c.reads < b.busy c.updates := by omega
      have hshift : c.reads + 1 + timeout < b.busy c.updates := by omega
      rw [runOn_pollWhile_succ timeout hread]
      exact ih { c with reads := c.reads + 1 } hshift

/-- A clock update in time puts the clock register into force. -/
theorem runOn_mmcUpdateClk_done (c : Ctl) (h : b.busy (c.updates + 1) ≤ 2000) :
    mmcUpdateClk.runOn b.access c =
      (0, { c with updates := c.updates + 1, reads := b.busy (c.updates + 1), latched := c.clkcr }) := by
  have hstart : b.access (.writel .cmd (CMD_START ||| CMD_UPCLK_ONLY ||| CMD_WAIT_PRE_OVER)) c =
      ((), { c with updates := c.updates + 1, reads := 0 }) := rfl
  have hpoll := runOn_pollWhile_done h { c with updates := c.updates + 1, reads := 0 }
    (Nat.zero_add _).symm
  rw [mmcUpdateClk, runOn_bind, writel, runOn_op, hstart, runOn_bind, hpoll, Nat.zero_add]
  rfl

theorem runOn_mmcUpdateClk_timeout (c : Ctl) (h : ¬ b.busy (c.updates + 1) ≤ 2000) :
    (mmcUpdateClk.runOn b.access c).1 = -1 := by
  have hstart : b.access (.writel .cmd (CMD_START ||| CMD_UPCLK_ONLY ||| CMD_WAIT_PRE_OVER)) c =
      ((), { c with updates := c.updates + 1, reads := 0 }) := rfl
  have hpoll := runOn_pollWhile_timeout (b := b) 2000 { c with updates := c.updates + 1, reads := 0 }
    (by simpa using h)
  rw [mmcUpdateClk, runOn_bind, writel, runOn_op, hstart, runOn_bind, hpoll]
  rfl

theorem runOn_mmcSetModClk (hz : U32) (c : Ctl) :
    (mmcSetModClk hz).runOn b.access c =
      match b.modClk hz with
      | none => (-1, c)
      | some v => (0, { c with mclk := v }) := by
  unfold mmcSetModClk Board.modClk
  split
  · rw [runOn_bind]
    change Prog.runOn b.access (match modClkWord CCM_MMC_CTRL_OSCM24 24000000 hz with
      | none => pure (-1)
      | some v => _) c = _
    cases modClkWord CCM_MMC_CTRL_OSCM24 24000000 hz <;> rfl
  · rw [runOn_bind]
    change Prog.runOn b.access (match modClkWord CCM_MMC_CTRL_PLL6 (pll6Hz b.pll6Cfg) hz with
      | none => pure (-1)
      | some v => _) c = _
    cases modClkWord CCM_MMC_CTRL_PLL6 (pll6Hz b.pll6Cfg) hz <;> rfl

/-- The clock register after `mmc_config_clock`. -/
def clkcrOn (clkcr : U32) : U32 := (clkcr &&& ~~~CLK_ENABLE &&& ~~~CLK_DIVIDER_MASK) ||| CLK_ENABLE

theorem clkcrOn_enable (clkcr : U32) : clkcrOn clkcr &&& CLK_ENABLE ≠ 0 := by
  have habsorb : clkcrOn clkcr &&& CLK_ENABLE = CLK_ENABLE := by
    unfold clkcrOn
    ext i hi
    rw [BitVec.getElem_and, BitVec.getElem_or]
    cases CLK_ENABLE[i] with
    | false => rw [Bool.and_false]
    | true => rw [Bool.or_true, Bool.and_true]
  rw [habsorb]
  decide

theorem clkcrOn_divider (clkcr : U32) : clkcrOn clkcr &&& CLK_DIVIDER_MASK = 0 := by
  have hdisjoint : CLK_ENABLE &&& CLK_DIVIDER_MASK = 0 := by decide
  unfold clkcrOn
  rw [BitVec.and_or_distrib_right, BitVec.and_assoc, BitVec.not_and_self, hdisjoint]
  exact BitVec.or_zero.trans BitVec.and_zero

/-- Where the clock can be set, `mmc_config_clock` sets it and leaves the width alone. -/
theorem runOn_mmcConfigClock_ok {hz : U32} (hhz : hz ≠ 0) (h : Settable b c hz) :
    ∃ c', (mmcConfigClock hz).runOn b.access c = (0, c') ∧ ClockAgrees b hz c' ∧
      c'.width = c.width := by
  have hdone : ¬ (0 : Int) ≠ 0 := fun h => h rfl
  rcases Option.isSome_iff_exists.1 h.rate with ⟨v, hv⟩
  have hread : (readl .clkcr).runOn b.access c = (c.clkcr, c) := rfl
  have hwrite : ∀ v c, (writel .clkcr v).runOn b.access c = ((), { c with clkcr := v }) :=
    fun _ _ => rfl
  have hoff := runOn_mmcUpdateClk_done { c with clkcr := c.clkcr &&& ~~~CLK_ENABLE } h.off
  have hmod : ∀ c, (mmcSetModClk hz).runOn b.access c = (0, { c with mclk := v }) := by
    intro c
    rw [runOn_mmcSetModClk, hv]
  rw [mmcConfigClock, runOn_bind_of hread, runOn_bind_of (hwrite _ _), runOn_bind_of hoff,
    if_neg hdone, runOn_bind_of (hmod _), if_neg hdone, runOn_bind_of (hwrite _ _),
    runOn_bind_of (hwrite _ _), runOn_bind_of (runOn_mmcUpdateClk_done _ h.on), if_neg hdone]
  refine ⟨_, rfl, ?_, rfl⟩
  rw [ClockAgrees, if_neg hhz]
  exact ⟨hv, clkcrOn_enable c.clkcr, clkcrOn_divider c.clkcr⟩

/-- Where it cannot be set, `mmc_config_clock` fails. -/
theorem runOn_mmcConfigClock_fail {hz : U32} (h : ¬ Settable b c hz) :
    ((mmcConfigClock hz).runOn b.access c).1 ≠ 0 := by
  have hdone : ¬ (0 : Int) ≠ 0 := fun h => h rfl
  have hfail : (-1 : Int) ≠ 0 := by decide
  have hread : (readl .clkcr).runOn b.access c = (c.clkcr, c) := rfl
  have hwrite : ∀ v c, (writel .clkcr v).runOn b.access c = ((), { c with clkcr := v }) :=
    fun _ _ => rfl
  -- Which of the three steps fails decides how far the routine gets.
  rw [mmcConfigClock, runOn_bind_of hread, runOn_bind_of (hwrite _ _)]
  by_cases hoff : b.busy (c.updates + 1) ≤ 2000
  · have hdisabled := runOn_mmcUpdateClk_done { c with clkcr := c.clkcr &&& ~~~CLK_ENABLE } hoff
    rw [runOn_bind_of hdisabled, if_neg hdone, runOn_bind, runOn_mmcSetModClk]
    cases hv : b.modClk hz with
    | none =>
        rw [if_pos hfail]
        exact hfail
    | some v =>
        have hon : ¬ b.busy (c.updates + 1 + 1) ≤ 2000 := fun hon => h ⟨by rw [hv]; rfl, hoff, hon⟩
        rw [if_neg hdone, runOn_bind_of (hwrite _ _), runOn_bind_of (hwrite _ _), runOn_bind,
          if_pos]
        · exact hfail
        · rw [runOn_mmcUpdateClk_timeout]
          · exact hfail
          · exact hon
  · have hstuck := runOn_mmcUpdateClk_timeout { c with clkcr := c.clkcr &&& ~~~CLK_ENABLE } hoff
    rw [runOn_bind, hstuck, if_pos hfail]
    exact hfail

/-! ## What a call does -/

/-- Changing the bus width alone. -/
theorem runOn_sunxiMmcSetIos_zero (fatalErr busWidth : U32) (c : Ctl) :
    (sunxiMmcSetIos fatalErr 0 busWidth).runOn b.access c =
      (fatalErr, { c with width := (widthWord busWidth).getD c.width }) := by
  have hnone : (pure 0 : MmcM Int).runOn b.access c = (0, c) := rfl
  rw [sunxiMmcSetIos, if_neg fun h => h rfl, runOn_bind_of hnone, if_neg fun h => h rfl]
  cases widthWord busWidth <;> rfl

theorem runOn_sunxiMmcSetIos_ok {hz : U32} (hhz : hz ≠ 0) (h : Settable b c hz)
    (fatalErr busWidth : U32) :
    ∃ c', (sunxiMmcSetIos fatalErr hz busWidth).runOn b.access c = (fatalErr, c') ∧
      ClockAgrees b hz c' ∧ c'.width = (widthWord busWidth).getD c.width := by
  rcases runOn_mmcConfigClock_ok hhz h with ⟨c₁, hrun, hclock, hwidth⟩
  rw [sunxiMmcSetIos, if_pos hhz, runOn_bind_of hrun, if_neg fun h => h rfl]
  cases widthWord busWidth with
  | none => exact ⟨c₁, rfl, hclock, hwidth⟩
  | some v => exact ⟨{ c₁ with width := v }, rfl, hclock, rfl⟩

theorem runOn_sunxiMmcSetIos_fail {hz : U32} (hhz : hz ≠ 0) (h : ¬ Settable b c hz)
    (fatalErr busWidth : U32) :
    ((sunxiMmcSetIos fatalErr hz busWidth).runOn b.access c).1 = 1 := by
  rw [sunxiMmcSetIos, if_pos hhz, runOn_bind, if_pos (runOn_mmcConfigClock_fail h)]
  rfl

variable {cfg : IoCfg} {s : IoState} {x : IoState × Ctl}

theorem mmcMciSetIocfg_off (hoff : cfg.powerMode = .off) (s : IoState) :
    mmcMciSetIocfg cfg s = pure s :=
  if_neg fun h => h hoff

theorem mmcMciSetIocfg_same (hclock : cfg.clock = s.clock) (hwidth : cfg.busWidth = s.busWidth) :
    mmcMciSetIocfg cfg s = pure s := by
  unfold mmcMciSetIocfg
  split
  · rw [if_neg fun h => h hclock, pure_bind, if_neg fun h => h hwidth]
  · rfl

/-- A call with a new clock sets clock and width after a reset. -/
theorem setIocfg_clock (hon : cfg.powerMode ≠ .off) (hclock : cfg.clock ≠ s.clock) (c : Ctl) :
    b.setIocfg cfg (s, c) =
      (⟨cfg.clock, cfg.busWidth,
          ((sunxiMmcSetIos 0 cfg.clock ((1 : U32) <<< cfg.busWidth)).runOn b.access c).1⟩,
        ((sunxiMmcSetIos 0 cfg.clock ((1 : U32) <<< cfg.busWidth)).runOn b.access c).2) := by
  have hreset : sunxiMmcCoreInit.runOn b.access c = (0, c) := rfl
  have hios : (do
      let _ ← sunxiMmcCoreInit
      let fatalErr ← sunxiMmcSetIos 0 cfg.clock ((1 : U32) <<< cfg.busWidth)
      pure ⟨cfg.clock, cfg.busWidth, fatalErr⟩ : MmcM IoState).runOn b.access c =
        (⟨cfg.clock, cfg.busWidth,
            ((sunxiMmcSetIos 0 cfg.clock ((1 : U32) <<< cfg.busWidth)).runOn b.access c).1⟩,
          ((sunxiMmcSetIos 0 cfg.clock ((1 : U32) <<< cfg.busWidth)).runOn b.access c).2) := by
    rw [runOn_bind_of hreset, runOn_bind]
    rfl
  unfold Board.setIocfg mmcMciSetIocfg
  rw [if_pos hon, if_pos hclock, runOn_bind_of hios, if_neg fun h => h rfl]
  rfl

/-- A call with a new width alone sets the width. -/
theorem setIocfg_width (hon : cfg.powerMode ≠ .off) (hclock : cfg.clock = s.clock)
    (hwidth : cfg.busWidth ≠ s.busWidth) (c : Ctl) :
    b.setIocfg cfg (s, c) =
      (⟨s.clock, cfg.busWidth, s.fatalErr⟩,
        { c with width := (widthWord ((1 : U32) <<< cfg.busWidth)).getD c.width }) := by
  unfold Board.setIocfg mmcMciSetIocfg
  rw [if_pos hon, if_neg fun h => h hclock, pure_bind, if_pos hwidth,
    runOn_bind_of (runOn_sunxiMmcSetIos_zero _ _ _)]
  rfl

/-- A call that does nothing leaves everything as it is. -/
theorem setIocfg_idle (h : mmcMciSetIocfg cfg s = pure s) (c : Ctl) :
    b.setIocfg cfg (s, c) = (s, c) := by
  unfold Board.setIocfg
  rw [h]
  rfl

/-- The same call twice never accesses the controller the second time, whatever became of the first. -/
theorem not_reprograms (b : Board) (cfg : IoCfg) (x : IoState × Ctl) :
    ¬ Reprograms cfg (b.setIocfg cfg x).1 := by
  have hidle : ∀ s, mmcMciSetIocfg cfg s = pure s → ¬ Reprograms cfg s := by
    intro s hs h
    rw [Reprograms, hs] at h
    exact h rfl
  rcases x with ⟨s, c⟩
  by_cases hoff : cfg.powerMode = .off
  · exact hidle _ (mmcMciSetIocfg_off hoff _)
  · by_cases hclock : cfg.clock = s.clock
    · by_cases hwidth : cfg.busWidth = s.busWidth
      · rw [setIocfg_idle (mmcMciSetIocfg_same hclock hwidth)]
        exact hidle _ (mmcMciSetIocfg_same hclock hwidth)
      · rw [setIocfg_width hoff hclock hwidth]
        exact hidle _ (mmcMciSetIocfg_same hclock rfl)
    · rw [setIocfg_clock hoff hclock]
      exact hidle _ (mmcMciSetIocfg_same rfl rfl)

/-! ## Sequences of calls -/

/-- Between calls that leave honest caches: the controller agrees as soon as a clock has been set, and
commands are sent. -/
structure Kept (b : Board) (x : IoState × Ctl) : Prop where
  agrees : x.1.clock ≠ 0 → Agrees b x
  fatalErr : x.1.fatalErr = 0

theorem honest_setIocfg_iff :
    Honest b cfg (b.setIocfg cfg x) ↔
      Agrees b (b.setIocfg cfg x) ∧ (b.setIocfg cfg x).1.fatalErr = 0 :=
  or_iff_left (not_reprograms b cfg x)

theorem honest_idle_iff (hkept : Kept b x) (h : mmcMciSetIocfg cfg x.1 = pure x.1) :
    Honest b cfg (b.setIocfg cfg x) ↔ (x.1.clock = 0 → Agrees b x) := by
  rw [honest_setIocfg_iff, setIocfg_idle h]
  constructor
  · exact fun hagree _ => hagree.1
  · intro hstart
    refine ⟨?_, hkept.fatalErr⟩
    by_cases hzero : x.1.clock = 0
    · exact hstart hzero
    · exact hkept.agrees hzero

/-- The width register holds the word of a width just set, if there is one. -/
theorem eq_some_getD_iff {w : Option U32} {v : U32} : w = some (w.getD v) ↔ w.isSome := by
  cases w <;> simp

theorem honest_clock_iff (hon : cfg.powerMode ≠ .off) (hclock : cfg.clock ≠ x.1.clock)
    (hkept : Kept b x) :
    Honest b cfg (b.setIocfg cfg x) ↔
      cfg.clock ≠ 0 ∧ Settable b x.2 cfg.clock ∧
        (widthWord ((1 : U32) <<< cfg.busWidth)).isSome := by
  rcases x with ⟨s, c⟩
  rw [honest_setIocfg_iff, setIocfg_clock hon hclock]
  by_cases hzero : cfg.clock = 0
  · -- The clock that was set before runs on, and the cache says 0.
    constructor
    · rintro ⟨hagrees, -⟩
      have hset : s.clock ≠ 0 := fun h => hclock (hzero.trans h.symm)
      have hruns : ClockAgrees b s.clock c := (hkept.agrees hset).clock
      have hoff : ClockAgrees b cfg.clock _ := hagrees.clock
      rw [hzero, runOn_sunxiMmcSetIos_zero, ClockAgrees, if_pos rfl] at hoff
      rw [ClockAgrees, if_neg hset] at hruns
      exact absurd hoff hruns.2.1
    · exact fun h => absurd hzero h.1
  · by_cases hset : Settable b c cfg.clock
    · rcases runOn_sunxiMmcSetIos_ok hzero hset 0 ((1 : U32) <<< cfg.busWidth) with
        ⟨c', hrun, hagree, hwidth⟩
      rw [hrun]
      constructor
      · rintro ⟨hagrees, -⟩
        have hword : widthWord ((1 : U32) <<< cfg.busWidth) = some c'.width := hagrees.width
        exact ⟨hzero, hset, by rw [hword]; rfl⟩
      · rintro ⟨-, -, hword⟩
        have hheld := (eq_some_getD_iff (v := c.width)).2 hword
        rw [← hwidth] at hheld
        exact ⟨⟨hagree, hheld⟩, rfl⟩
    · constructor
      · rintro ⟨-, hfatal⟩
        rw [runOn_sunxiMmcSetIos_fail hzero hset] at hfatal
        have hone : (1 : U32) ≠ 0 := by decide
        exact absurd hfatal hone
      · exact fun h => absurd h.2.1 hset

theorem honest_width_iff (hon : cfg.powerMode ≠ .off) (hclock : cfg.clock = x.1.clock)
    (hwidth : cfg.busWidth ≠ x.1.busWidth) (hkept : Kept b x) :
    Honest b cfg (b.setIocfg cfg x) ↔
      (x.1.clock = 0 → ClockAgrees b 0 x.2) ∧
        (widthWord ((1 : U32) <<< cfg.busWidth)).isSome := by
  rcases x with ⟨s, c⟩
  rw [honest_setIocfg_iff, setIocfg_width hon hclock hwidth]
  constructor
  · rintro ⟨hagrees, -⟩
    refine ⟨fun hzero => ?_, eq_some_getD_iff.1 hagrees.width⟩
    have hagree : ClockAgrees b s.clock _ := hagrees.clock
    rw [show s.clock = 0 from hzero] at hagree
    exact hagree
  · rintro ⟨hstart, hword⟩
    refine ⟨⟨?_, eq_some_getD_iff.2 hword⟩, hkept.fatalErr⟩
    change ClockAgrees b s.clock c
    by_cases hzero : s.clock = 0
    · rw [hzero]
      exact hstart hzero
    · exact (hkept.agrees hzero).clock

/-- One call from a kept state. -/
theorem setIocfg_honest_iff (hkept : Kept b x) :
    Honest b cfg (b.setIocfg cfg x) ↔ StepOk b cfg x := by
  unfold StepOk
  split
  · next hoff => exact honest_idle_iff hkept (mmcMciSetIocfg_off hoff _)
  · next hon =>
      split
      · next hclock => exact honest_clock_iff hon hclock hkept
      · next hclock =>
          have hclock := Decidable.of_not_not hclock
          split
          · next hwidth => exact honest_width_iff hon hclock hwidth hkept
          · next hwidth =>
              exact honest_idle_iff hkept
                (mmcMciSetIocfg_same hclock (Decidable.of_not_not hwidth))

theorem Kept.of_honest (h : Honest b cfg (b.setIocfg cfg x)) : Kept b (b.setIocfg cfg x) := by
  rcases honest_setIocfg_iff.1 h with ⟨hagrees, hfatal⟩
  exact ⟨fun _ => hagrees, hfatal⟩

theorem allHonest_iff_of_kept (cfgs : List IoCfg) (hkept : Kept b x) :
    AllHonest b cfgs x ↔ AllOk b cfgs x := by
  induction cfgs generalizing x with
  | nil => exact Iff.rfl
  | cons cfg cfgs ih =>
      constructor
      · rintro ⟨hhonest, hrest⟩
        exact ⟨(setIocfg_honest_iff hkept).1 hhonest, (ih (.of_honest hhonest)).1 hrest⟩
      · rintro ⟨hok, hrest⟩
        have hhonest := (setIocfg_honest_iff hkept).2 hok
        exact ⟨hhonest, (ih (.of_honest hhonest)).2 hrest⟩

/-- Whatever the controller holds when the driver starts and whichever clock updates fail, a sequence
of calls leaves honest caches exactly when each of its calls meets the condition. -/
theorem allHonest_iff (b : Board) (c : Ctl) (cfgs : List IoCfg) :
    AllHonest b cfgs (.init, c) ↔ AllOk b cfgs (.init, c) :=
  allHonest_iff_of_kept cfgs ⟨fun h => absurd rfl h, rfl⟩

/-- A board on which no clock update ends. -/
def stuckBoard : Board where
  busy _ := 2001
  pll6Cfg := 0
  other _ := 0

/-- The identification clock, one data line. -/
def identify : IoCfg := ⟨.on, 400000, 0⟩

/-- The failed update is never retried, though 400000 Hz stand in the cache, and from then on every
command is refused. -/
theorem failed_update_kept :
    ¬ AllHonest stuckBoard [identify] (.init, ⟨0, 0, 0, 0, 0, 0⟩) ∧
      (stuckBoard.setIocfg identify (.init, ⟨0, 0, 0, 0, 0, 0⟩)).1 = ⟨400000, 0, 1⟩ ∧
      mmcMciSetIocfg identify ⟨400000, 0, 1⟩ = pure ⟨400000, 0, 1⟩ ∧
      ∀ cmd data, sunxiMmcSendCmd 1 cmd data = pure (-1) := by
  have hstuck : ¬ Settable stuckBoard ⟨0, 0, 0, 0, 0, 0⟩ 400000 := fun h => absurd h.off (by decide)
  have hcall : (stuckBoard.setIocfg identify (.init, ⟨0, 0, 0, 0, 0, 0⟩)).1 = ⟨400000, 0, 1⟩ := by
    rw [setIocfg_clock (by decide) (by decide)]
    exact congrArg (IoState.mk 400000 0) (runOn_sunxiMmcSetIos_fail (by decide) hstuck 0 _)
  have hdishonest : ¬ Honest stuckBoard identify
      (stuckBoard.setIocfg identify (.init, ⟨0, 0, 0, 0, 0, 0⟩)) := by
    rw [honest_setIocfg_iff, hcall]
    rintro ⟨-, hfatal⟩
    exact absurd hfatal (by decide)
  exact ⟨fun h => hdishonest h.1, hcall, mmcMciSetIocfg_same rfl rfl, fun _ _ => if_pos (by decide)⟩

end Mmc

end BspV3s
