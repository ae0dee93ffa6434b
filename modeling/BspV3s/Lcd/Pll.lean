import Mathlib.Data.Nat.Basic
import BspV3s.Gpio.Registers
import BspV3s.Lib.Search

/-!
# Pll — the multiplier and the divider of the pixel clock

The pixel clock is a multiple of 3 MHz from PLL3, divided.  `sunxi_lcdc_pll_set` tries every divider with
the largest multiplier that does not exceed the clock asked for, and keeps the first of those that come
closest.

* `lcdcSearch_spec`  : what the search ends with;
* `pll_set_optimal`  : the pair that is programmed, and what is read back of it.
-/

namespace BspV3s

namespace Lcd

namespace Pll

open Gpio (GpioProg Regs readl writel clrsetbitsLe32)

abbrev U32 := BitVec 32

/-! ## The clock controller -/

def SUNXI_CCM_BASE : ℕ := 0x01c20000

def pll3Cfg : ℕ := SUNXI_CCM_BASE + 0x10
def lcd0Ch0ClkCfg : ℕ := SUNXI_CCM_BASE + 0x118
def lcd0Ch1ClkCfg : ℕ := SUNXI_CCM_BASE + 0x12c

def CCM_PLL3_CTRL_M_SHIFT : ℕ := 0
def CCM_PLL3_CTRL_M_MASK : U32 := 0xf <<< CCM_PLL3_CTRL_M_SHIFT
def CCM_PLL3_CTRL_M (n : U32) : U32 := ((n - 1) &&& 0xf) <<< 0
def CCM_PLL3_CTRL_N_SHIFT : ℕ := 8
def CCM_PLL3_CTRL_N_MASK : U32 := 0x7f <<< CCM_PLL3_CTRL_N_SHIFT
def CCM_PLL3_CTRL_N (n : U32) : U32 := ((n - 1) &&& 0x7f) <<< 8
def CCM_PLL3_CTRL_INTEGER_MODE : U32 := 0x1 <<< 24
def CCM_PLL3_CTRL_EN : U32 := 0x1 <<< 31

def CCM_LCD_CH0_CTRL_PLL3 : U32 := 0 <<< 24
def CCM_LCD_CH0_CTRL_PLL3_2X : U32 := 2 <<< 24
def CCM_LCD_CH0_CTRL_RST : U32 := 0
def CCM_LCD_CH0_CTRL_GATE : U32 := 0x1 <<< 31

def CCM_LCD_CH1_CTRL_M (n : U32) : U32 := ((n - 1) &&& 0xf) <<< 0
def CCM_LCD_CH1_CTRL_HALF_SCLK1 : U32 := 0
def CCM_LCD_CH1_CTRL_PLL3 : U32 := 0 <<< 24
def CCM_LCD_CH1_CTRL_PLL3_2X : U32 := 2 <<< 24
def CCM_LCD_CH1_CTRL_GATE : U32 := 0x1 <<< 31

def clockSetPll3 (clk : U32) : GpioProg Unit :=
  let m : U32 := 8
  if clk = 0 then do
    let v ← readl pll3Cfg
    writel (v &&& ~~~CCM_PLL3_CTRL_EN) pll3Cfg
  else
    -- PLL3 rate = 24000000 * n / m
    writel (CCM_PLL3_CTRL_EN ||| CCM_PLL3_CTRL_INTEGER_MODE |||
      CCM_PLL3_CTRL_N (clk / (24000000 / m)) ||| CCM_PLL3_CTRL_M m) pll3Cfg

def clockGetPll3 : GpioProg U32 := do
  let rval ← readl pll3Cfg
  let n := (rval &&& CCM_PLL3_CTRL_N_MASK) >>> CCM_PLL3_CTRL_N_SHIFT + 1
  let m := (rval &&& CCM_PLL3_CTRL_M_MASK) >>> CCM_PLL3_CTRL_M_SHIFT + 1
  pure ((24000 * n).sdiv m * 1000)

/-! ## The search -/

/-- The best pair so far. -/
structure Best where
  n : U32
  m : U32
  diff : U32
  double : Bool
  deriving DecidableEq

/-- One round of the search.  With DE2 there is no doubled clock to try. -/
def tryDivider (dotclock m : U32) (best : Best) : Best :=
  let n := (m * dotclock).sdiv 3000
  if (9 : U32).sle n ∧ n.sle 127 then
    let value := (3000 * n).sdiv m
    let diff := dotclock - value
    if diff.slt best.diff then ⟨n, m, diff, false⟩ else best
  else best

/-- The loop from `m` on, for `k` dividers. -/
def lcdcSearch (dotclock : U32) : ℕ → ℕ → Best → Best
  | 0, _, best => best
  | k + 1, m, best => lcdcSearch dotclock k (m + 1) (tryDivider dotclock (BitVec.ofNat 32 m) best)

def noneYet : Best := ⟨0, 0, 0x0FFFFFFF, false⟩

/-- The dividers of the first controller for a parallel panel, and those of the second. -/
def bestDivider (tcon : ℕ) (dotclock : U32) : Best :=
  if tcon = 0 then lcdcSearch dotclock (127 + 1 - 6) 6 noneYet
  else lcdcSearch dotclock (15 + 1 - 1) 1 noneYet

/-- `sunxi_lcdc_pll_set`; `composite` is `sunxi_is_composite()`.  Returns `clk_div` and `clk_double`. -/
def sunxiLcdcPllSet (composite : Bool) (tcon : ℕ) (dotclock : U32) : GpioProg (U32 × Bool) := do
  let best := bestDivider tcon dotclock
  clockSetPll3 (best.n * 3000000)
  (if tcon = 0 then
    let pll := if best.double then CCM_LCD_CH0_CTRL_PLL3_2X else CCM_LCD_CH0_CTRL_PLL3
    writel (CCM_LCD_CH0_CTRL_GATE ||| CCM_LCD_CH0_CTRL_RST ||| pll) lcd0Ch0ClkCfg
  else do
    writel (CCM_LCD_CH1_CTRL_GATE |||
      (if best.double then CCM_LCD_CH1_CTRL_PLL3_2X else CCM_LCD_CH1_CTRL_PLL3) |||
      CCM_LCD_CH1_CTRL_M best.m) lcd0Ch1ClkCfg
    if composite then clrsetbitsLe32 lcd0Ch1ClkCfg 0 CCM_LCD_CH1_CTRL_HALF_SCLK1 else pure () :
      GpioProg Unit)
  pure (best.m, best.double)

/-! ## What one divider offers -/

/-- `m * dotclock`, as an `int` holds it. -/
def product (x m : ℕ) : ℕ := m * x % 2 ^ 32

/-- The clock that a divider gives, below the one asked for. -/
def value (x m : ℕ) : ℕ := 3000 * (product x m / 3000) / m

def distance (x m : ℕ) : ℕ := x - value x m

/-- The multiplier is one that the PLL can be set to. -/
def Reaches (x m : ℕ) : Prop := 27000 ≤ product x m ∧ product x m < 384000

def Better (x m : ℕ) : Prop := Reaches x m ∧ distance x m < 0x0FFFFFFF

instance instDecidableReaches (x m : ℕ) : Decidable (Reaches x m) :=
  inferInstanceAs (Decidable (_ ∧ _))

instance instDecidableBetter (x m : ℕ) : Decidable (Better x m) :=
  inferInstanceAs (Decidable (_ ∧ _))

theorem value_le {x m : ℕ} (hm : 0 < m) : value x m ≤ x := by
  have hprod : product x m ≤ m * x := Nat.mod_le _ _
  have hmul : 3000 * (product x m / 3000) ≤ m * x := (Nat.mul_div_le _ _).trans hprod
  calc value x m ≤ m * x / m := Nat.div_le_div_right hmul
    _ = x := Nat.mul_div_cancel_left x hm

section Round

variable {dotclock : U32} {m : ℕ}

theorem toNat_product (hm : m < 128) :
    (BitVec.ofNat 32 m * dotclock).toNat = product dotclock.toNat m := by
  rw [BitVec.toNat_mul, toNat_ofNat_of_lt (lt_trans hm (by decide))]
  rfl

/-- A signed quotient of words that are not negative. -/
theorem toNat_sdiv {a b : U32} (ha : a.toNat < 2 ^ 31) (hb : b.toNat < 2 ^ 31) :
    (a.sdiv b).toNat = a.toNat / b.toNat := by
  have hamsb : a.msb = false := BitVec.msb_eq_false_iff_two_mul_lt.2 (by omega)
  have hbmsb : b.msb = false := BitVec.msb_eq_false_iff_two_mul_lt.2 (by omega)
  rw [BitVec.sdiv_eq, hamsb, hbmsb]
  exact BitVec.toNat_udiv

theorem slt_iff {a b : U32} (ha : a.toNat < 2 ^ 31) (hb : b.toNat < 2 ^ 31) :
    a.slt b = true ↔ a.toNat < b.toNat := by
  have haint : a.toInt = a.toNat := BitVec.toInt_eq_toNat_of_lt (by omega)
  have hbint : b.toInt = b.toNat := BitVec.toInt_eq_toNat_of_lt (by omega)
  rw [BitVec.slt_iff_toInt_lt, haint, hbint]
  exact Int.ofNat_lt

/-- The range test of the driver; a product that is negative as an `int` fails it. -/
theorem inRange_iff {p : U32} :
    ((9 : U32).sle (p.sdiv 3000) = true ∧ (p.sdiv 3000).sle 127 = true) ↔
      27000 ≤ p.toNat ∧ p.toNat < 384000 := by
  have hdiv : (p.sdiv 3000).toInt = p.toInt.tdiv 3000 :=
    BitVec.toInt_sdiv_of_ne_or_ne p 3000 (.inr (by decide))
  have hp := p.isLt
  have h9 : (9 : U32).toInt = 9 := rfl
  have h127 : (127 : U32).toInt = 127 := rfl
  rw [BitVec.sle_iff_toInt_le, BitVec.sle_iff_toInt_le, hdiv, h9, h127]
  -- Rounding towards zero leaves a negative product below the range.
  by_cases hsmall : p.toNat < 2 ^ 31
  · have hint : p.toInt = p.toNat := BitVec.toInt_eq_toNat_of_lt (by omega)
    rw [hint, Int.tdiv_eq_ediv_of_nonneg (Int.natCast_nonneg _)]
    omega
  · have hneg : p.toInt = p.toNat - 2 ^ 32 := by
      rw [BitVec.toInt_eq_toNat_cond, if_neg (by omega)]
      rfl
    have hnonneg : 0 ≤ (-p.toInt).tdiv 3000 := Int.tdiv_nonneg (by omega) (by decide)
    rw [Int.neg_tdiv] at hnonneg
    omega

/-- One round: a divider that comes closer takes over. -/
theorem tryDivider_eq (hdotclock : dotclock.toNat < 2 ^ 31) (hpos : 0 < m) (hm : m < 128)
    {best : Best} (hbest : best.diff.toNat < 2 ^ 31) :
    tryDivider dotclock (BitVec.ofNat 32 m) best =
      if Reaches dotclock.toNat m ∧ distance dotclock.toNat m < best.diff.toNat then
        ⟨BitVec.ofNat 32 (product dotclock.toNat m / 3000), BitVec.ofNat 32 m,
          BitVec.ofNat 32 (distance dotclock.toNat m), false⟩
      else best := by
  have hm' : (BitVec.ofNat 32 m).toNat = m := toNat_ofNat_of_lt (by omega)
  have hprod := @toNat_product dotclock m hm
  have hrange := @inRange_iff (BitVec.ofNat 32 m * dotclock)
  rw [hprod] at hrange
  have hrange : _ ↔ Reaches dotclock.toNat m := hrange
  unfold tryDivider
  -- Within the range nothing overflows, so the words are the numbers.
  by_cases hreach : Reaches dotclock.toNat m
  · rw [if_pos (hrange.2 hreach)]
    rcases hreach with ⟨hlo, hhi⟩
    have hn : ((BitVec.ofNat 32 m * dotclock).sdiv 3000).toNat =
        product dotclock.toNat m / 3000 := by
      rw [toNat_sdiv (by omega) (by decide), hprod]
      rfl
    have hmul : (3000 * (BitVec.ofNat 32 m * dotclock).sdiv 3000).toNat =
        3000 * (product dotclock.toNat m / 3000) := by
      rw [BitVec.toNat_mul, hn]
      change 3000 * (product dotclock.toNat m / 3000) % 2 ^ 32 = _
      exact Nat.mod_eq_of_lt (by omega)
    have hvalue : ((3000 * (BitVec.ofNat 32 m * dotclock).sdiv 3000).sdiv
        (BitVec.ofNat 32 m)).toNat = value dotclock.toNat m := by
      rw [toNat_sdiv (by omega) (by omega), hmul, hm']
      rfl
    have hdiff : (dotclock - (3000 * (BitVec.ofNat 32 m * dotclock).sdiv 3000).sdiv
        (BitVec.ofNat 32 m)).toNat = distance dotclock.toNat m := by
      rw [BitVec.toNat_sub_of_le, hvalue]
      · rfl
      · rw [BitVec.le_def, hvalue]
        exact value_le hpos
    have hdist : distance dotclock.toNat m < 2 ^ 31 := lt_of_le_of_lt (Nat.sub_le _ _) hdotclock
    have hcloser := slt_iff (lt_of_eq_of_lt hdiff hdist) hbest
    rw [hdiff] at hcloser
    have hn' : (BitVec.ofNat 32 m * dotclock).sdiv 3000 =
        BitVec.ofNat 32 (product dotclock.toNat m / 3000) := by
      rw [← hn, BitVec.ofNat_toNat, BitVec.setWidth_eq]
    have hdiff' : dotclock - (3000 * (BitVec.ofNat 32 m * dotclock).sdiv 3000).sdiv
        (BitVec.ofNat 32 m) = BitVec.ofNat 32 (distance dotclock.toNat m) := by
      rw [← hdiff, BitVec.ofNat_toNat, BitVec.setWidth_eq]
    by_cases hless : distance dotclock.toNat m < best.diff.toNat
    · rw [if_pos (hcloser.2 hless), if_pos ⟨⟨hlo, hhi⟩, hless⟩, hdiff', hn']
    · rw [if_neg (mt hcloser.1 hless), if_neg fun h => hless h.2]
  · rw [if_neg (mt hrange.1 hreach), if_neg fun h => hreach h.1]

end Round

/-! ## The dividers -/

/-- The best of the dividers below `hi`, or none of them. -/
inductive Searched (x hi : ℕ) : Best → Prop
  | none (h : ∀ j, 6 ≤ j → j < hi → ¬ Better x j) : Searched x hi noneYet
  | some {m : ℕ} (h : FirstBest (Better x) (distance x) 6 hi m) :
      Searched x hi ⟨BitVec.ofNat 32 (product x m / 3000), BitVec.ofNat 32 m,
        BitVec.ofNat 32 (distance x m), false⟩

theorem distance_lt {x : ℕ} (hx : x < 2 ^ 31) (m : ℕ) : distance x m < 2 ^ 31 :=
  lt_of_le_of_lt (Nat.sub_le _ _) hx

theorem Searched.step {dotclock : U32} (hdotclock : dotclock.toNat < 2 ^ 31) {hi : ℕ} (hlo : 6 ≤ hi)
    (hlt : hi < 128) {best : Best} (h : Searched dotclock.toNat hi best) :
    Searched dotclock.toNat (hi + 1) (tryDivider dotclock (BitVec.ofNat 32 hi) best) := by
  have hpos : 0 < hi := by omega
  cases h with
  | none hnone =>
      rw [tryDivider_eq hdotclock hpos hlt (by decide)]
      change Searched _ _ (if Better dotclock.toNat hi then _ else _)
      split
      · next hbetter => exact .some (FirstBest.found hlo hbetter hnone)
      · next hnot =>
          -- No divider so far, this one included.
          refine .none fun j hle hj => ?_
          rcases Nat.lt_succ_iff_lt_or_eq.1 hj with hbelow | rfl
          · exact hnone j hle hbelow
          · exact hnot
  | @some m hbest =>
      have hdiff : (BitVec.ofNat 32 (distance dotclock.toNat m)).toNat =
          distance dotclock.toNat m :=
        toNat_ofNat_of_lt (lt_trans (distance_lt hdotclock m) (by decide))
      have hsmall : (BitVec.ofNat 32 (distance dotclock.toNat m)).toNat < 2 ^ 31 := by
        rw [hdiff]
        exact distance_lt hdotclock m
      rw [tryDivider_eq hdotclock hpos hlt hsmall]
      dsimp only
      rw [hdiff]
      split
      · next hcloser =>
          exact .some (hbest.improve ⟨hcloser.1, hcloser.2.trans hbest.holds.2⟩ hcloser.2)
      · next hnot => exact .some (hbest.keep fun hbetter hless => hnot ⟨hbetter.1, hless⟩)

theorem lcdcSearch_spec {dotclock : U32} (hdotclock : dotclock.toNat < 2 ^ 31) {k hi : ℕ}
    (hlo : 6 ≤ hi) (hlt : hi + k ≤ 128) {best : Best} (h : Searched dotclock.toNat hi best) :
    Searched dotclock.toNat (hi + k) (lcdcSearch dotclock k hi best) := by
  induction k generalizing hi best with
  | zero => exact h
  | succ k ih =>
      have hnext := ih (by omega) (by omega) (h.step hdotclock hlo (by omega))
      rwa [Nat.add_assoc, Nat.add_comm 1] at hnext

theorem bestDivider_zero (dotclock : U32) :
    bestDivider 0 dotclock = lcdcSearch dotclock (127 + 1 - 6) 6 noneYet :=
  if_pos rfl

theorem bestDivider_spec {dotclock : U32} (hdotclock : dotclock.toNat < 2 ^ 31) :
    Searched dotclock.toNat 128 (bestDivider 0 dotclock) := by
  have hstart : Searched dotclock.toNat 6 noneYet :=
    .none fun _ hle hlt => absurd hlt (Nat.not_lt.2 hle)
  have hcount : 6 + (127 + 1 - 6) = 128 := rfl
  rw [bestDivider_zero, ← hcount]
  exact lcdcSearch_spec hdotclock (le_refl 6) (le_of_eq hcount) hstart

/-! ## The PLL -/

def pll3Word (n : U32) : U32 :=
  CCM_PLL3_CTRL_EN ||| CCM_PLL3_CTRL_INTEGER_MODE ||| CCM_PLL3_CTRL_N n ||| CCM_PLL3_CTRL_M 8

/-- The fields of the word hold one less than the factors. -/
theorem fields_pll3Word {n : U32} (hpos : 1 ≤ n.toNat) (hn : n.toNat ≤ 128) :
    getField (pll3Word n) 8 7 + 1 = n ∧ getField (pll3Word n) 0 4 + 1 = 8 := by
  have hfield : CCM_PLL3_CTRL_N n = setField (n - 1) 8 7 := by
    have hmask : fieldMask 0 7 = 0x7f := by decide
    rw [← setField_eq_and_shiftLeft, hmask, CCM_PLL3_CTRL_N]
  -- The two fields lie apart from each other and from the flags.
  have hother : getField (setField (n - 1) 8 7) 0 4 = 0#32 :=
    getField_setField_of_disjoint _ (.inl (by decide))
  have hsub : (n - 1).toNat = n.toNat - 1 := by
    have hle : (1 : U32) ≤ n := hpos
    rw [BitVec.toNat_sub_of_le hle]
    rfl
  have hself : getField (setField (n - 1) 8 7) 8 7 = n - 1 := by
    apply BitVec.eq_of_toNat_eq
    rw [getField_setField_self _ (by decide), hsub]
    exact Nat.mod_eq_of_lt (by omega)
  have hen : getField (CCM_PLL3_CTRL_EN ||| CCM_PLL3_CTRL_INTEGER_MODE) 8 7 = 0#32 := by decide
  have hen' : getField (CCM_PLL3_CTRL_EN ||| CCM_PLL3_CTRL_INTEGER_MODE) 0 4 = 0#32 := by decide
  have hm : getField (CCM_PLL3_CTRL_M 8) 8 7 = 0#32 := by decide
  have hm' : getField (CCM_PLL3_CTRL_M 8) 0 4 = 7#32 := by decide
  rw [pll3Word, hfield]
  refine ⟨?_, ?_⟩
  · rw [getField_or, getField_or, hen, hself, hm, BitVec.zero_or, BitVec.or_zero]
    exact BitVec.sub_add_cancel n 1
  · rw [getField_or, getField_or, hen', hother, hm', BitVec.zero_or, BitVec.zero_or]
    rfl

theorem runOn_clockSetPll3 (clk : U32) (r : Regs) :
    (clockSetPll3 clk).runOn Registers.access r =
      ((), Function.update r pll3Cfg (if clk = 0 then r pll3Cfg &&& ~~~CCM_PLL3_CTRL_EN
        else pll3Word (clk / (24000000 / 8)))) := by
  unfold clockSetPll3
  dsimp only
  split <;> rfl

/-- The rate that is asked of the PLL, and the factor that comes of it. -/
theorem factor_eq {n : U32} (hpos : 1 ≤ n.toNat) (hn : n.toNat ≤ 128) :
    n * 3000000 ≠ 0 ∧ n * 3000000 / (24000000 / 8) = n := by
  have hmul : (n * 3000000).toNat = n.toNat * 3000000 := by
    rw [BitVec.toNat_mul]
    change n.toNat * 3000000 % 2 ^ 32 = _
    exact Nat.mod_eq_of_lt (by omega)
  constructor
  · intro hzero
    rw [hzero] at hmul
    change 0 = n.toNat * 3000000 at hmul
    omega
  · apply BitVec.eq_of_toNat_eq
    rw [BitVec.toNat_udiv, hmul]
    exact Nat.mul_div_cancel _ (by decide)

/-- A multiple of 3 MHz reads back as it was set. -/
theorem runOn_clockGetPll3 {r : Regs} {n : U32} (hr : r pll3Cfg = pll3Word n)
    (hpos : 1 ≤ n.toNat) (hn : n.toNat ≤ 128) :
    (clockGetPll3.runOn Registers.access r).1.toNat = n.toNat * 3000000 := by
  rcases fields_pll3Word hpos hn with ⟨hnfield, hmfield⟩
  have hnmask : CCM_PLL3_CTRL_N_MASK = fieldMask 8 7 := by decide
  have hmmask : CCM_PLL3_CTRL_M_MASK = fieldMask 0 4 := by decide
  have hrun : (clockGetPll3.runOn Registers.access r).1 =
      (24000 * (getField (r pll3Cfg) 8 7 + 1)).sdiv (getField (r pll3Cfg) 0 4 + 1) * 1000 := by
    rw [getField, getField, ← hnmask, ← hmmask]
    rfl
  have hmul : (24000 * n).toNat = 24000 * n.toNat := by
    rw [BitVec.toNat_mul]
    change 24000 * n.toNat % 2 ^ 32 = _
    exact Nat.mod_eq_of_lt (by omega)
  have hdiv : ((24000 * n).sdiv 8).toNat = 3000 * n.toNat := by
    rw [toNat_sdiv (by omega) (by decide), hmul]
    change 24000 * n.toNat / 8 = _
    omega
  rw [hrun, hr, hnfield, hmfield, BitVec.toNat_mul, hdiv]
  change 3000 * n.toNat * 1000 % 2 ^ 32 = _
  omega

theorem runOn_writel (val : U32) (addr : ℕ) (r : Regs) :
    (writel val addr).runOn Registers.access r = ((), Function.update r addr val) := rfl

theorem runOn_pure {α : Type} (a : α) (r : Regs) :
    (pure a : GpioProg α).runOn Registers.access r = (a, r) := rfl

theorem pll3Cfg_ne : pll3Cfg ≠ lcd0Ch0ClkCfg := by decide

/-- What `sunxi_lcdc_pll_set` leaves for the first controller. -/
theorem runOn_sunxiLcdcPllSet (composite : Bool) (dotclock : U32) (r : Regs) :
    ((sunxiLcdcPllSet composite 0 dotclock).runOn Registers.access r).1 =
        ((bestDivider 0 dotclock).m, (bestDivider 0 dotclock).double) ∧
      ((sunxiLcdcPllSet composite 0 dotclock).runOn Registers.access r).2 pll3Cfg =
        if (bestDivider 0 dotclock).n * 3000000 = 0 then r pll3Cfg &&& ~~~CCM_PLL3_CTRL_EN
        else pll3Word ((bestDivider 0 dotclock).n * 3000000 / (24000000 / 8)) := by
  unfold sunxiLcdcPllSet
  generalize bestDivider 0 dotclock = best
  dsimp only
  rw [if_pos rfl, Prog.runOn_bind_of (runOn_clockSetPll3 _ r), Prog.runOn_bind_of (runOn_writel _ _ _),
    runOn_pure]
  dsimp only
  rw [Function.update_of_ne pll3Cfg_ne, Function.update_self]
  exact ⟨rfl, rfl⟩

/-! ## The pair that is programmed -/

/-- The largest multiplier of 3 MHz that a divider allows. -/
def multiplier (x m : ℕ) : ℕ := m * x / 3000

def Admissible (x m : ℕ) : Prop := 9 ≤ multiplier x m ∧ multiplier x m ≤ 127

/-- The clock in kHz that comes of it. -/
def rate (x m : ℕ) : ℕ := 3000 * multiplier x m / m

/-- Without overflow the product is that of the numbers. -/
theorem product_eq {x m : ℕ} (hx : 127 * x < 2 ^ 31) (hm : m < 128) : product x m = m * x := by
  have hle : m * x ≤ 127 * x := Nat.mul_le_mul_right x (by omega)
  exact Nat.mod_eq_of_lt (by omega)

theorem better_iff {x m : ℕ} (hx : 127 * x < 2 ^ 31) (hm : m < 128) :
    Better x m ↔ Admissible x m := by
  have hdist : distance x m < 0x0FFFFFFF := lt_of_le_of_lt (Nat.sub_le _ _) (by omega)
  unfold Better Reaches Admissible multiplier
  rw [product_eq hx hm]
  omega

theorem distance_eq {x m : ℕ} (hx : 127 * x < 2 ^ 31) (hm : m < 128) :
    distance x m = x - rate x m := by
  rw [distance, value, product_eq hx hm]
  rfl

/-- For a clock that some divider comes to, the divider that is returned is the first of those that come
closest from below, and PLL3 reads back as its multiplier of 3 MHz. -/
theorem pll_set_optimal (composite : Bool) {dotclock : U32} (hpos : 0 < dotclock.toInt)
    (hsmall : 127 * dotclock.toInt < 2 ^ 31)
    (hsome : ∃ m, 6 ≤ m ∧ m ≤ 127 ∧ Admissible dotclock.toNat m) (r : Regs) :
    ∃ m, FirstBest (Admissible dotclock.toNat) (fun j => dotclock.toNat - rate dotclock.toNat j)
        6 128 m ∧
      rate dotclock.toNat m ≤ dotclock.toNat ∧
      ((sunxiLcdcPllSet composite 0 dotclock).runOn Registers.access r).1 =
        (BitVec.ofNat 32 m, false) ∧
      (clockGetPll3.runOn Registers.access
        ((sunxiLcdcPllSet composite 0 dotclock).runOn Registers.access r).2).1.toNat =
        multiplier dotclock.toNat m * 3000000 := by
  have hint : dotclock.toInt = dotclock.toNat :=
    BitVec.toInt_eq_toNat_of_lt (BitVec.toInt_pos_iff.1 hpos.le)
  -- The bound keeps every product of the search within an `int`.
  rw [hint] at hsmall
  have hx : 127 * dotclock.toNat < 2 ^ 31 := by omega
  have hdotclock : dotclock.toNat < 2 ^ 31 := by omega
  have hsearched := bestDivider_spec hdotclock
  rcases runOn_sunxiLcdcPllSet composite dotclock r with ⟨hret, hpll⟩
  generalize hbest : bestDivider 0 dotclock = best at hsearched hret hpll
  cases hsearched with
  | none hnone =>
      rcases hsome with ⟨m, hlo, hhi, hm⟩
      exact absurd ((better_iff hx (by omega)).2 hm) (hnone m hlo (by omega))
  | @some m hfirst =>
      have hm := hfirst.lt
      have hadmissible := (better_iff hx hm).1 hfirst.holds
      rcases hadmissible with ⟨hnlo, hnhi⟩
      have hproduct : product dotclock.toNat m / 3000 = multiplier dotclock.toNat m := by
        rw [product_eq hx hm]
        rfl
      rw [hproduct] at hpll
      generalize hn : multiplier dotclock.toNat m = n at *
      refine ⟨m, ?_, ?_, hret, ?_⟩
      · exact hfirst.congr (fun j _ hj => better_iff hx hj) fun j _ hj => distance_eq hx hj
      · have hle := @value_le dotclock.toNat m (by have := hfirst.le; omega)
        rw [value, hproduct] at hle
        rw [rate, hn]
        exact hle
      · have hword : (BitVec.ofNat 32 n).toNat = n := toNat_ofNat_of_lt (by omega)
        rcases @factor_eq (BitVec.ofNat 32 n) (by omega) (by omega) with ⟨hne, hfactor⟩
        rw [if_neg hne, hfactor] at hpll
        rw [runOn_clockGetPll3 hpll (by omega) (by omega), hword, hn]

/-- The 33 MHz of the board's own panel. -/
theorem pll_set_optimal_board :
    ∃ m, FirstBest (Admissible 33000) (fun j => 33000 - rate 33000 j) 6 128 m ∧
      rate 33000 m ≤ 33000 ∧
      ((sunxiLcdcPllSet false 0 33000).runOn Registers.access fun _ => 0).1 =
        (BitVec.ofNat 32 m, false) ∧
      (clockGetPll3.runOn Registers.access
        ((sunxiLcdcPllSet false 0 33000).runOn Registers.access fun _ => 0).2).1.toNat =
        multiplier 33000 m * 3000000 :=
  @pll_set_optimal false 33000 (by decide) (by decide) ⟨6, by decide, by decide, by decide, by decide⟩
    fun _ => 0

end Pll

end Lcd

end BspV3s
