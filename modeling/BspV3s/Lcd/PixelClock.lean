import BspV3s.Lcd.Geometry
import BspV3s.Lcd.Pll

/-!
# PixelClock — the mode of a panel and the clock that it runs on

`sunxi_lcdc_tcon0_mode_set` takes the divider that `sunxi_lcdc_pll_set` returns and goes on.  When no
divider comes to the clock of the mode, PLL3 has been switched off and the divider is 0; the panel is
brought up all the same.

* `exists_better_iff` : the clocks that some divider comes to;
* `tcon0_clocked_iff` : the modes that leave the panel with a clock.
-/

namespace BspV3s

namespace Lcd

open Gpio (GpioProg Regs writel clrsetbitsLe32 sunxiGpioSetCfgpin)
open Pll

/-! ## The timing controller -/

def SUNXI_LCD0_BASE : ℕ := 0x01c0c000

def lcdcCtrl : ℕ := SUNXI_LCD0_BASE + 0x00
def tcon0FrmCtrl : ℕ := SUNXI_LCD0_BASE + 0x10
def tcon0FrmSeed (i : ℕ) : ℕ := SUNXI_LCD0_BASE + 0x14 + 4 * i
def tcon0FrmTable (i : ℕ) : ℕ := SUNXI_LCD0_BASE + 0x2c + 4 * i
def tcon0Ctrl : ℕ := SUNXI_LCD0_BASE + 0x40
def tcon0Dclk : ℕ := SUNXI_LCD0_BASE + 0x44
def tcon0TimingActive : ℕ := SUNXI_LCD0_BASE + 0x48
def tcon0TimingH : ℕ := SUNXI_LCD0_BASE + 0x4c
def tcon0TimingV : ℕ := SUNXI_LCD0_BASE + 0x50
def tcon0TimingSync : ℕ := SUNXI_LCD0_BASE + 0x54
def tcon0HvIntf : ℕ := SUNXI_LCD0_BASE + 0x58
def tcon0CpuIntf : ℕ := SUNXI_LCD0_BASE + 0x60
def tcon0IoPolarity : ℕ := SUNXI_LCD0_BASE + 0x88
def tcon0IoTristate : ℕ := SUNXI_LCD0_BASE + 0x8c

def SUNXI_LCDC_X (x : U32) : U32 := (x - 1) <<< 16
def SUNXI_LCDC_Y (y : U32) : U32 := (y - 1) <<< 0
def SUNXI_LCDC_TCON_VSYNC_MASK : U32 := 1 <<< 24
def SUNXI_LCDC_TCON_HSYNC_MASK : U32 := 1 <<< 25
def SUNXI_LCDC_CTRL_IO_MAP_MASK : U32 := 1 <<< 0
def SUNXI_LCDC_CTRL_IO_MAP_TCON0 : U32 := 0 <<< 0
def SUNXI_LCDC_TCON0_FRM_CTRL_RGB666 : U32 := 1 <<< 31 ||| 0 <<< 4
def SUNXI_LCDC_TCON0_FRM_CTRL_RGB565 : U32 := 1 <<< 31 ||| 5 <<< 4
def SUNXI_LCDC_TCON0_FRM_SEED : U32 := 0x11111111
def SUNXI_LCDC_TCON0_FRM_TAB0 : U32 := 0x01010000
def SUNXI_LCDC_TCON0_FRM_TAB1 : U32 := 0x15151111
def SUNXI_LCDC_TCON0_FRM_TAB2 : U32 := 0x57575555
def SUNXI_LCDC_TCON0_FRM_TAB3 : U32 := 0x7f7f7777
def SUNXI_LCDC_TCON0_CTRL_CLK_DELAY (n : U32) : U32 := (n &&& 0x1f) <<< 4
def SUNXI_LCDC_TCON0_CTRL_ENABLE : U32 := 1 <<< 31
def SUNXI_LCDC_TCON0_DCLK_DIV (n : U32) : U32 := n <<< 0
def SUNXI_LCDC_TCON0_DCLK_ENABLE : U32 := 0xf <<< 28
def SUNXI_LCDC_TCON0_TIMING_H_BP (n : U32) : U32 := (n - 1) <<< 0
def SUNXI_LCDC_TCON0_TIMING_H_TOTAL (n : U32) : U32 := (n - 1) <<< 16
def SUNXI_LCDC_TCON0_TIMING_V_BP (n : U32) : U32 := (n - 1) <<< 0
def SUNXI_LCDC_TCON0_TIMING_V_TOTAL (n : U32) : U32 := (n * 2) <<< 16
def SUNXI_LCDC_TCON0_IO_POL_DCLK_PHASE (x : U32) : U32 := x <<< 28
def CONFIG_VIDEO_LCD_DCLK_PHASE : U32 := 1

def FB_SYNC_HOR_HIGH_ACT : U32 := 1
def FB_SYNC_VERT_HIGH_ACT : U32 := 2
def FB_VMODE_INTERLACED : U32 := 1

def SUNXI_GPE (nr : ℕ) : U32 := 128 + BitVec.ofNat 32 nr
def SUN8I_V3S_GPE_LCD : U32 := 3

/-- The pins of the panel; 20 to 22 are not LCD. -/
def lcdPins : List U32 :=
  ((List.range 25).filter fun nr => ¬ (20 ≤ nr ∧ nr ≤ 22)).map SUNXI_GPE

def setCfgpins (val : U32) : List U32 → GpioProg Unit
  | [] => pure ()
  | pin :: pins => do
      sunxiGpioSetCfgpin pin val
      setCfgpins val pins

/-- Writes one after the other. -/
def writeAll : List (U32 × ℕ) → GpioProg Unit
  | [] => pure ()
  | (val, addr) :: rest => do
      writel val addr
      writeAll rest

def sunxiLcdcGetClkDelay (mode : CtfbResModes) (tcon : ℕ) : U32 :=
  let delay := mode.lowerMargin + mode.vsyncLen + mode.upperMargin
  let delay := if mode.vmode = FB_VMODE_INTERLACED then delay.sdiv 2 else delay
  let delay := if tcon = 1 then delay - 2 else delay
  if (30 : U32).slt delay then 30 else delay

/-- The timings of a parallel panel. -/
def tcon0Timings (mode : CtfbResModes) : List (U32 × ℕ) :=
  let hbp := mode.hsyncLen + mode.leftMargin
  let htotal := mode.xres + mode.rightMargin + hbp
  let vbp := mode.vsyncLen + mode.upperMargin
  let vtotal := mode.yres + mode.lowerMargin + vbp
  [(SUNXI_LCDC_X mode.xres ||| SUNXI_LCDC_Y mode.yres, tcon0TimingActive),
    (SUNXI_LCDC_TCON0_TIMING_H_TOTAL htotal ||| SUNXI_LCDC_TCON0_TIMING_H_BP hbp, tcon0TimingH),
    (SUNXI_LCDC_TCON0_TIMING_V_TOTAL vtotal ||| SUNXI_LCDC_TCON0_TIMING_V_BP vbp, tcon0TimingV),
    (SUNXI_LCDC_X mode.hsyncLen ||| SUNXI_LCDC_Y mode.vsyncLen, tcon0TimingSync),
    (0, tcon0HvIntf), (0, tcon0CpuIntf)]

/-- The dithering of a panel with fewer than 8 bits a colour. -/
def tcon0Frm (depth : U32) : List (U32 × ℕ) :=
  if depth = 18 ∨ depth = 16 then
    [(SUNXI_LCDC_TCON0_FRM_SEED, tcon0FrmSeed 0), (SUNXI_LCDC_TCON0_FRM_SEED, tcon0FrmSeed 1),
      (SUNXI_LCDC_TCON0_FRM_SEED, tcon0FrmSeed 2), (SUNXI_LCDC_TCON0_FRM_SEED, tcon0FrmSeed 3),
      (SUNXI_LCDC_TCON0_FRM_SEED, tcon0FrmSeed 4), (SUNXI_LCDC_TCON0_FRM_SEED, tcon0FrmSeed 5),
      (SUNXI_LCDC_TCON0_FRM_TAB0, tcon0FrmTable 0), (SUNXI_LCDC_TCON0_FRM_TAB1, tcon0FrmTable 1),
      (SUNXI_LCDC_TCON0_FRM_TAB2, tcon0FrmTable 2), (SUNXI_LCDC_TCON0_FRM_TAB3, tcon0FrmTable 3),
      (if depth = 18 then SUNXI_LCDC_TCON0_FRM_CTRL_RGB666 else SUNXI_LCDC_TCON0_FRM_CTRL_RGB565,
        tcon0FrmCtrl)]
  else []

/-- The polarity of the signals. -/
def tcon0Polarity (mode : CtfbResModes) : List (U32 × ℕ) :=
  let val := SUNXI_LCDC_TCON0_IO_POL_DCLK_PHASE CONFIG_VIDEO_LCD_DCLK_PHASE
  let val := if mode.sync &&& FB_SYNC_HOR_HIGH_ACT = 0 then val ||| SUNXI_LCDC_TCON_HSYNC_MASK else val
  let val := if mode.sync &&& FB_SYNC_VERT_HIGH_ACT = 0 then val ||| SUNXI_LCDC_TCON_VSYNC_MASK else val
  [(val, tcon0IoPolarity), (0, tcon0IoTristate)]

/-- `sunxi_lcdc_tcon0_mode_set`, at the depth of `sunxi_display`.  It returns nothing, so there is no
failure that it could report. -/
def sunxiLcdcTcon0ModeSet (composite : Bool) (depth : U32) (mode : CtfbResModes) : GpioProg Unit := do
  setCfgpins SUN8I_V3S_GPE_LCD lcdPins
  let clk ← sunxiLcdcPllSet composite 0 mode.pixclockKhz
  let clkDiv := clk.1
  clrsetbitsLe32 lcdcCtrl SUNXI_LCDC_CTRL_IO_MAP_MASK SUNXI_LCDC_CTRL_IO_MAP_TCON0
  let clkDelay := sunxiLcdcGetClkDelay mode 0
  writel (SUNXI_LCDC_TCON0_CTRL_ENABLE ||| SUNXI_LCDC_TCON0_CTRL_CLK_DELAY clkDelay) tcon0Ctrl
  writel (SUNXI_LCDC_TCON0_DCLK_ENABLE ||| SUNXI_LCDC_TCON0_DCLK_DIV clkDiv) tcon0Dclk
  writeAll (tcon0Timings mode ++ tcon0Frm depth ++ tcon0Polarity mode)

/-! ## The window -/

/-- The clocks that some divider comes to without overflow. -/
def InWindow (x : ℕ) : Prop := 213 ≤ x ∧ x ≤ 63999

/-- The clocks that are so high that a product wraps around into the range of the PLL. -/
def Wraps (x : ℕ) : Prop := ∃ m, 6 ≤ m ∧ m ≤ 127 ∧ 2 ^ 32 ≤ m * x ∧ Better x m

theorem exists_better_iff (x : ℕ) :
    (∃ m, 6 ≤ m ∧ m < 128 ∧ Better x m) ↔ InWindow x ∨ Wraps x := by
  constructor
  · rintro ⟨m, hlo, hlt, hbetter⟩
    -- Without overflow the range of the PLL bounds the clock on both sides.
    by_cases hwraps : 2 ^ 32 ≤ m * x
    · exact .inr ⟨m, hlo, Nat.le_of_lt_succ hlt, hwraps, hbetter⟩
    · refine .inl ?_
      rcases hbetter.1 with ⟨hge, hless⟩
      rw [product, Nat.mod_eq_of_lt (Nat.lt_of_not_le hwraps)] at hge hless
      have hupper : m * x ≤ 127 * x := Nat.mul_le_mul_right x (by omega)
      have hlower : 6 * x ≤ m * x := Nat.mul_le_mul_right x hlo
      exact ⟨by omega, by omega⟩
  · rintro (⟨hlo, hhi⟩ | ⟨m, hlo, hhi, -, hbetter⟩)
    · -- The smallest divider that does, or the next one to it.
      have hbetter : ∀ m, m < 128 → 27000 ≤ m * x → m * x < 384000 → Better x m := by
        intro m hm hge hless
        rw [better_iff (by omega) hm, Admissible, multiplier]
        omega
      by_cases hfast : 4500 ≤ x
      · exact ⟨6, le_refl 6, by decide, hbetter 6 (by decide) (by omega) (by omega)⟩
      · have hge : 27000 < (27000 / x + 1) * x := by
          rw [Nat.add_mul, Nat.one_mul]
          exact Nat.lt_div_mul_add (by omega)
        have hle : 27000 / x * x ≤ 27000 := Nat.div_mul_le_self _ _
        have hsix : 6 ≤ 27000 / x := (Nat.le_div_iff_mul_le (by omega)).2 (by omega)
        have hlt : 27000 / x < 127 := (Nat.div_lt_iff_lt_mul (by omega)).2 (by omega)
        refine ⟨27000 / x + 1, by omega, by omega, hbetter _ (by omega) hge.le ?_⟩
        rw [Nat.add_mul, Nat.one_mul]
        omega
    · exact ⟨m, hlo, Nat.lt_succ_of_le hhi, hbetter⟩

/-! ## The clock of the panel -/

/-- PLL3 runs, and the dot clock has a divider. -/
def Clocked (r : Regs) : Prop :=
  r pll3Cfg &&& CCM_PLL3_CTRL_EN ≠ 0 ∧ getField (r tcon0Dclk) 0 7 ≠ 0

/-- A register that is not written keeps its value. -/
theorem runOn_writeAll_of_notMem {a : ℕ} {l : List (U32 × ℕ)} (h : a ∉ l.map Prod.snd) (r : Regs) :
    ((writeAll l).runOn Registers.access r).2 a = r a := by
  induction l generalizing r with
  | nil => rfl
  | cons w l ih =>
      rw [List.map_cons, List.mem_cons, not_or] at h
      calc ((writeAll (w :: l)).runOn Registers.access r).2 a
          = Function.update r w.2 w.1 a := ih h.2 _
        _ = r a := Function.update_of_ne h.1 _ _

theorem runOn_clrsetbitsLe32 (addr : ℕ) (clear set : U32) (r : Regs) :
    (clrsetbitsLe32 addr clear set).runOn Registers.access r =
      ((), Function.update r addr (r addr &&& ~~~clear ||| set)) := rfl

/-- The timings, the dithering and the polarity are in registers of their own. -/
theorem notMem_panelWrites {a : ℕ} (ha : a = pll3Cfg ∨ a = tcon0Dclk) (depth : U32)
    (mode : CtfbResModes) :
    a ∉ (tcon0Timings mode ++ tcon0Frm depth ++ tcon0Polarity mode).map Prod.snd := by
  have htimings : (tcon0Timings mode).map Prod.snd =
      [tcon0TimingActive, tcon0TimingH, tcon0TimingV, tcon0TimingSync, tcon0HvIntf,
        tcon0CpuIntf] := rfl
  have hpolarity : (tcon0Polarity mode).map Prod.snd = [tcon0IoPolarity, tcon0IoTristate] := rfl
  have hfrm : (tcon0Frm depth).map Prod.snd =
      if depth = 18 ∨ depth = 16 then
        [tcon0FrmSeed 0, tcon0FrmSeed 1, tcon0FrmSeed 2, tcon0FrmSeed 3, tcon0FrmSeed 4,
          tcon0FrmSeed 5, tcon0FrmTable 0, tcon0FrmTable 1, tcon0FrmTable 2, tcon0FrmTable 3,
          tcon0FrmCtrl]
      else [] := by
    unfold tcon0Frm
    split <;> rfl
  rw [List.map_append, List.map_append, htimings, hpolarity, hfrm]
  rcases ha with rfl | rfl
  · split <;> decide
  · split <;> decide

/-- The two registers of the clock after the call; `s` is what the pins left. -/
theorem runOn_sunxiLcdcTcon0ModeSet (composite : Bool) (depth : U32) (mode : CtfbResModes)
    (r : Regs) :
    ∃ s : Regs,
      ((sunxiLcdcTcon0ModeSet composite depth mode).runOn Registers.access r).2 pll3Cfg =
        (if (bestDivider 0 mode.pixclockKhz).n * 3000000 = 0 then
          s pll3Cfg &&& ~~~CCM_PLL3_CTRL_EN
        else pll3Word ((bestDivider 0 mode.pixclockKhz).n * 3000000 / (24000000 / 8))) ∧
      ((sunxiLcdcTcon0ModeSet composite depth mode).runOn Registers.access r).2 tcon0Dclk =
        (SUNXI_LCDC_TCON0_DCLK_ENABLE |||
          SUNXI_LCDC_TCON0_DCLK_DIV (bestDivider 0 mode.pixclockKhz).m) := by
  refine ⟨((setCfgpins SUN8I_V3S_GPE_LCD lcdPins).runOn Registers.access r).2, ?_⟩
  rw [sunxiLcdcTcon0ModeSet, Prog.runOn_bind]
  generalize ((setCfgpins SUN8I_V3S_GPE_LCD lcdPins).runOn Registers.access r).2 = s
  -- After the pins the PLL is set; the writes after it go elsewhere.
  rcases runOn_sunxiLcdcPllSet composite mode.pixclockKhz s with ⟨hret, hpll⟩
  rw [Prog.runOn_bind]
  generalize (sunxiLcdcPllSet composite 0 mode.pixclockKhz).runOn Registers.access s = t at hret hpll
  rw [Prog.runOn_bind_of (runOn_clrsetbitsLe32 _ _ _ _), Prog.runOn_bind_of (runOn_writel _ _ _),
    Prog.runOn_bind_of (runOn_writel _ _ _)]
  constructor
  · have hdclk : pll3Cfg ≠ tcon0Dclk := by decide
    have hctrl : pll3Cfg ≠ tcon0Ctrl := by decide
    have hlcdc : pll3Cfg ≠ lcdcCtrl := by decide
    rw [runOn_writeAll_of_notMem (notMem_panelWrites (.inl rfl) depth mode),
      Function.update_of_ne hdclk, Function.update_of_ne hctrl, Function.update_of_ne hlcdc]
    exact hpll
  · rw [runOn_writeAll_of_notMem (notMem_panelWrites (.inr rfl) depth mode), Function.update_self,
      hret]

/-- The divider is in the low bits of the word. -/
theorem getField_dclk {m : ℕ} (hm : m < 128) :
    getField (SUNXI_LCDC_TCON0_DCLK_ENABLE ||| SUNXI_LCDC_TCON0_DCLK_DIV (BitVec.ofNat 32 m)) 0 7 =
      BitVec.ofNat 32 m := by
  have hword : (BitVec.ofNat 32 m).toNat = m := toNat_ofNat_of_lt (by omega)
  have hdiv : SUNXI_LCDC_TCON0_DCLK_DIV (BitVec.ofNat 32 m) = setField (BitVec.ofNat 32 m) 0 7 :=
    (setField_of_lt (lt_of_eq_of_lt hword hm)).symm
  have henable : getField SUNXI_LCDC_TCON0_DCLK_ENABLE 0 7 = 0#32 := by decide
  rw [getField_or, henable, BitVec.zero_or, hdiv]
  apply BitVec.eq_of_toNat_eq
  rw [getField_setField_self _ (by decide), hword]
  exact Nat.mod_eq_of_lt hm

theorem pll3Word_enabled (n : U32) : pll3Word n &&& CCM_PLL3_CTRL_EN ≠ 0 := by
  have hbit : (pll3Word n &&& CCM_PLL3_CTRL_EN).getLsbD 31 = true := by
    have hen : CCM_PLL3_CTRL_EN.getLsbD 31 = true := by decide
    rw [pll3Word, BitVec.getLsbD_and, BitVec.getLsbD_or, BitVec.getLsbD_or, BitVec.getLsbD_or, hen]
    rfl
  intro hzero
  rw [hzero] at hbit
  exact Bool.noConfusion hbit

/-- Without a divider the PLL is switched off, and the dot clock is divided by 0. -/
theorem unclocked_of_none (composite : Bool) (depth : U32) {mode : CtfbResModes}
    (h : mode.pixclockKhz.toNat < 2 ^ 31)
    (hnone : ∀ m, 6 ≤ m → m < 128 → ¬ Better mode.pixclockKhz.toNat m) (r : Regs) :
    ((sunxiLcdcTcon0ModeSet composite depth mode).runOn Registers.access r).2 pll3Cfg &&&
        CCM_PLL3_CTRL_EN = 0 ∧
      getField (((sunxiLcdcTcon0ModeSet composite depth mode).runOn Registers.access r).2 tcon0Dclk)
        0 7 = 0 := by
  rcases runOn_sunxiLcdcTcon0ModeSet composite depth mode r with ⟨s, hpll, hdclk⟩
  have hsearched := bestDivider_spec h
  generalize bestDivider 0 mode.pixclockKhz = best at hsearched hpll hdclk
  rw [hpll, hdclk]
  cases hsearched with
  | none =>
      have hzero : noneYet.n * 3000000 = 0 := by decide
      have hoff : ∀ v : U32, v &&& ~~~CCM_PLL3_CTRL_EN &&& CCM_PLL3_CTRL_EN = 0 := by
        intro v
        rw [BitVec.and_assoc, BitVec.and_comm (~~~CCM_PLL3_CTRL_EN)]
        have hself : CCM_PLL3_CTRL_EN &&& ~~~CCM_PLL3_CTRL_EN = 0 := by decide
        rw [hself]
        exact BitVec.and_zero
      -- Nothing was found, so a rate of 0 is asked for and a divider of 0 returned.
      rw [if_pos hzero, hoff]
      exact ⟨rfl, getField_dclk (by decide : 0 < 128)⟩
  | @some m hfirst => exact absurd hfirst.holds (hnone m hfirst.le hfirst.lt)

/-- With a divider the PLL runs, and the divider is in its field. -/
theorem clocked_of_some (composite : Bool) (depth : U32) {mode : CtfbResModes}
    (h : mode.pixclockKhz.toNat < 2 ^ 31)
    (hsome : ∃ m, 6 ≤ m ∧ m < 128 ∧ Better mode.pixclockKhz.toNat m) (r : Regs) :
    Clocked ((sunxiLcdcTcon0ModeSet composite depth mode).runOn Registers.access r).2 := by
  rcases runOn_sunxiLcdcTcon0ModeSet composite depth mode r with ⟨s, hpll, hdclk⟩
  have hsearched := bestDivider_spec h
  generalize bestDivider 0 mode.pixclockKhz = best at hsearched hpll hdclk
  rw [Clocked, hpll, hdclk]
  cases hsearched with
  | none hnone =>
      rcases hsome with ⟨m, hlo, hlt, hm⟩
      exact absurd hm (hnone m hlo hlt)
  | @some m hfirst =>
      have hlo := hfirst.le
      have hlt := hfirst.lt
      rcases hfirst.holds.1 with ⟨hge, hless⟩
      -- The multiplier asked for is not 0, and neither is the divider.
      constructor
      · have hword : (BitVec.ofNat 32 (product mode.pixclockKhz.toNat m / 3000)).toNat =
            product mode.pixclockKhz.toNat m / 3000 := toNat_ofNat_of_lt (by omega)
        have hfactor := @factor_eq (BitVec.ofNat 32 (product mode.pixclockKhz.toNat m / 3000))
          (by omega) (by omega)
        rw [if_neg hfactor.1]
        exact pll3Word_enabled _
      · dsimp only
        rw [getField_dclk hlt]
        intro hzero
        have hm : (BitVec.ofNat 32 m).toNat = 0 := by
          rw [hzero]
          rfl
        rw [toNat_ofNat_of_lt (by omega)] at hm
        omega

/-- The panel has a clock just when the clock of its mode is one that some divider comes to. -/
theorem tcon0_clocked_iff (composite : Bool) (depth : U32) (mode : CtfbResModes)
    (h : 0 < mode.pixclockKhz.toInt) (r : Regs) :
    Clocked ((sunxiLcdcTcon0ModeSet composite depth mode).runOn Registers.access r).2 ↔
      InWindow mode.pixclockKhz.toNat ∨ Wraps mode.pixclockKhz.toNat := by
  have hsmall := BitVec.toInt_pos_iff.1 h.le
  have hlt : mode.pixclockKhz.toNat < 2 ^ 31 := by omega
  rw [← exists_better_iff]
  refine ⟨fun hclocked => ?_, fun hsome => clocked_of_some composite depth hlt hsome r⟩
  by_contra hnot
  have hnone : ∀ m, 6 ≤ m → m < 128 → ¬ Better mode.pixclockKhz.toNat m :=
    fun m hlo hhi hm => hnot ⟨m, hlo, hhi, hm⟩
  exact hclocked.1 (unclocked_of_none composite depth hlt hnone r).1

/-- The panel of the board, 800 by 480 at 33 MHz. -/
def lcdMode : CtfbResModes := ⟨800, 480, 60, 39683, 33000, 87, 40, 31, 13, 1, 1, 3, 0⟩

theorem tcon0_clocked_iff_board :
    Clocked ((sunxiLcdcTcon0ModeSet false 16 lcdMode).runOn Registers.access fun _ => 0).2 :=
  (tcon0_clocked_iff false 16 lcdMode (by decide) fun _ => 0).2 (.inl ⟨by decide, by decide⟩)

/-- The standard mode of 1024 by 768 leaves the panel without a clock. -/
theorem tcon0_not_clocked :
    ∃ mode, resModeInit[2]? = some mode ∧ mode.pixclockKhz = 65000 ∧
      ((sunxiLcdcTcon0ModeSet false 16 mode).runOn Registers.access fun _ => 0).2 pll3Cfg &&&
        CCM_PLL3_CTRL_EN = 0 ∧
      getField (((sunxiLcdcTcon0ModeSet false 16 mode).runOn Registers.access fun _ => 0).2
        tcon0Dclk) 0 7 = 0 := by
  have hnone : ¬ ∃ m, 6 ≤ m ∧ m < 128 ∧ Better 65000 m := by
    rw [exists_better_iff]
    rintro (⟨-, hhi⟩ | ⟨m, -, hle, hwraps, -⟩)
    · exact absurd hhi (by decide)
    · omega
  have hnone' : ∀ m, 6 ≤ m → m < 128 → ¬ Better 65000 m :=
    fun m hlo hhi hm => hnone ⟨m, hlo, hhi, hm⟩
  refine ⟨_, rfl, rfl, ?_⟩
  apply unclocked_of_none
  · decide
  · exact hnone'

end Lcd

end BspV3s
