import Mathlib.Algebra.Order.Field.Rat
import Mathlib.Tactic.IntervalCases
import BspV3s.Spi.Controller

/-!
# Speed — the SPI clock that a requested rate is turned into

`sunxi_spi_set_speed` divides 24 MHz by twice a count of up to 256, or by a power of two.  Both
dividers are rounded down, so the clock comes out above the rate asked for unless the count divides
evenly, or the power of two happens to be large enough.

* `genericFls_spec` : the search for the highest bit that is set;
* `set_speed_iff`   : which rates are kept to.
-/

namespace BspV3s

namespace Spi

/-! ## The highest bit -/

/-- One step of `generic_fls`: the bits of the mask are clear, and the rest moves up. -/
def flsStep (mask : U32) (w : ℕ) (p : U32 × ℕ) : U32 × ℕ :=
  if p.1 &&& mask = 0 then (p.1 <<< w, p.2 - w) else p

def genericFls (x : U32) : ℕ :=
  if x = 0 then 0
  else
    (flsStep 0x80000000 1 (flsStep 0xc0000000 2 (flsStep 0xf0000000 4 (flsStep 0xff000000 8
      (flsStep 0xffff0000 16 (x, 32)))))).2

/-- `__ilog2`. -/
def ilog2 (x : U32) : ℕ := genericFls x - 1

/-- `x` has been moved up to at least `2 ^ lo`, and the second component counts down with it. -/
def Shifted (x lo : ℕ) (p : U32 × ℕ) : Prop :=
  ∃ d, p.1.toNat = x * 2 ^ d ∧ p.2 + d = 32 ∧ 2 ^ lo ≤ p.1.toNat

/-- The top bits are clear in small words only. -/
theorem and_fieldMask_eq_zero_iff {x : U32} {lo : ℕ} (hlo : lo ≤ 32) :
    x &&& fieldMask lo (32 - lo) = 0 ↔ x.toNat < 2 ^ lo := by
  constructor
  · intro h
    refine Nat.lt_pow_two_of_testBit _ fun i hi => ?_
    by_cases hlt : i < 32
    · have hin : lo ≤ i ∧ i < lo + (32 - lo) := ⟨hi, by omega⟩
      have hbit : (x &&& fieldMask lo (32 - lo)).getLsbD i = false := by
        rw [h]
        exact BitVec.getLsbD_zero
      rw [BitVec.getLsbD_and, getLsbD_fieldMask, decide_eq_true hlt, decide_eq_true hin,
        Bool.and_true, Bool.and_true] at hbit
      exact hbit
    · exact BitVec.getLsbD_of_ge x i (Nat.le_of_not_lt hlt)
  · intro h
    apply BitVec.eq_of_getLsbD_eq
    intro i hi
    change _ = (0#32).getLsbD i
    rw [BitVec.getLsbD_and, getLsbD_fieldMask, BitVec.getLsbD_zero]
    by_cases hin : lo ≤ i
    · have hbit : x.getLsbD i = false :=
        Nat.testBit_lt_two_pow (lt_of_lt_of_le h (Nat.pow_le_pow_right (by decide) hin))
      rw [hbit, Bool.false_and]
    · simp [hin]

theorem Shifted.step {x : ℕ} {p : U32 × ℕ} (mask : U32) (w : ℕ) (hw : 2 * w ≤ 32)
    (hmask : mask = fieldMask (32 - w) (32 - (32 - w))) (h : Shifted x (32 - 2 * w) p) :
    Shifted x (32 - w) (flsStep mask w p) := by
  rcases h with ⟨d, heq, hsum, hge⟩
  have hiff := @and_fieldMask_eq_zero_iff p.1 (32 - w) (Nat.sub_le _ _)
  rw [← hmask] at hiff
  unfold flsStep
  split
  · next hclear =>
      have hlt := hiff.1 hclear
      have hpow : 2 ^ (32 - w) * 2 ^ w = 2 ^ 32 := by
        rw [← Nat.pow_add, Nat.sub_add_cancel (by omega)]
      have hfits : p.1.toNat * 2 ^ w < 2 ^ 32 := by
        rw [← hpow]
        exact Nat.mul_lt_mul_of_pos_right hlt (Nat.two_pow_pos w)
      have hshift : (p.1 <<< w).toNat = p.1.toNat * 2 ^ w := by
        rw [BitVec.toNat_shiftLeft, Nat.shiftLeft_eq, Nat.mod_eq_of_lt hfits]
      -- The count cannot have gone below the width of this step.
      have hd : d < 32 - w := by
        refine (Nat.pow_lt_pow_iff_right (a := 2) (by decide)).1 (lt_of_le_of_lt ?_ hlt)
        rw [heq]
        refine Nat.le_mul_of_pos_left _ (Nat.pos_of_ne_zero fun hzero => ?_)
        rw [heq, hzero, Nat.zero_mul] at hge
        exact absurd (lt_of_lt_of_le (Nat.two_pow_pos _) hge) (Nat.lt_irrefl 0)
      refine ⟨d + w, ?_, ?_, ?_⟩
      · change (p.1 <<< w).toNat = _
        rw [hshift, heq, Nat.mul_assoc, ← Nat.pow_add]
      · change p.2 - w + (d + w) = 32
        omega
      · change 2 ^ (32 - w) ≤ (p.1 <<< w).toNat
        have hsplit : 2 ^ (32 - w) = 2 ^ (32 - 2 * w) * 2 ^ w := by
          rw [← Nat.pow_add]
          congr 1
          omega
        rw [hshift, hsplit]
        exact Nat.mul_le_mul_right _ hge
  · next hset => exact ⟨d, heq, hsum, Nat.le_of_not_lt (mt hiff.2 hset)⟩

theorem genericFls_spec {x : U32} (hx : x ≠ 0) :
    0 < genericFls x ∧ 2 ^ (genericFls x - 1) ≤ x.toNat ∧ x.toNat < 2 ^ genericFls x := by
  have hpos : 1 ≤ x.toNat := by
    refine Nat.pos_of_ne_zero fun hzero => hx (BitVec.eq_of_toNat_eq hzero)
  have hstart : Shifted x.toNat (32 - 2 * 16) (x, 32) := ⟨0, (Nat.mul_one _).symm, rfl, hpos⟩
  -- Each step halves the bits that may be clear at the top.
  have h16 := hstart.step 0xffff0000 16 (by decide) (by decide)
  have h8 := Shifted.step 0xff000000 8 (by decide) (by decide) h16
  have h4 := Shifted.step 0xf0000000 4 (by decide) (by decide) h8
  have h2 := Shifted.step 0xc0000000 2 (by decide) (by decide) h4
  have h1 := Shifted.step 0x80000000 1 (by decide) (by decide) h2
  rw [genericFls, if_neg hx]
  generalize flsStep 0x80000000 1 _ = p at h1
  rcases h1 with ⟨d, heq, hsum, hge⟩
  have hlt : p.1.toNat < 2 ^ 32 := p.1.isLt
  have hd : d < 32 := by
    refine (Nat.pow_lt_pow_iff_right (a := 2) (by decide)).1 (lt_of_le_of_lt ?_ hlt)
    rw [heq]
    exact Nat.le_mul_of_pos_left _ hpos
  have hcount : p.2 = 32 - d := by omega
  rw [heq] at hge hlt
  rw [hcount]
  refine ⟨by omega, ?_, ?_⟩
  · refine Nat.le_of_mul_le_mul_right ?_ (Nat.two_pow_pos d)
    rw [← Nat.pow_add]
    refine le_trans (Nat.pow_le_pow_right (by decide) ?_) hge
    omega
  · refine Nat.lt_of_mul_lt_mul_right (a := 2 ^ d) ?_
    rwa [← Nat.pow_add, Nat.sub_add_cancel hd.le]

theorem ilog2_spec {x : U32} (hx : x ≠ 0) :
    2 ^ ilog2 x ≤ x.toNat ∧ x.toNat < 2 ^ (ilog2 x + 1) := by
  rcases genericFls_spec hx with ⟨hpos, hge, hlt⟩
  rw [ilog2, Nat.sub_add_cancel hpos]
  exact ⟨hge, hlt⟩

/-! ## The driver -/

def SUNXI_SPI_MAX_RATE : U32 := 24 * 1000 * 1000
def SUNXI_SPI_MIN_RATE : U32 := 3 * 1000

def SUNXI_SPI_CLK_CTL_CDR2_MASK : U32 := 0xff
def SUNXI_SPI_CLK_CTL_CDR2 (div : U32) : U32 := div &&& SUNXI_SPI_CLK_CTL_CDR2_MASK
def SUNXI_SPI_CLK_CTL_CDR1_MASK : U32 := 0xf
def SUNXI_SPI_CLK_CTL_CDR1 (div : U32) : U32 := (div &&& SUNXI_SPI_CLK_CTL_CDR1_MASK) <<< 8
def SUNXI_SPI_CLK_CTL_DRS : U32 := 1 <<< 12

def clampSpeed (speed : U32) : U32 :=
  let speed := if speed < SUNXI_SPI_MAX_RATE then speed else SUNXI_SPI_MAX_RATE
  if SUNXI_SPI_MIN_RATE > speed then SUNXI_SPI_MIN_RATE else speed

/-- Which divider `sunxi_spi_set_speed` takes for a speed within its limits, and its value `div`. -/
def clockDivider (speed : U32) : Bool × U32 :=
  let div := SUNXI_SPI_MAX_RATE / (2 * speed)
  if div ≤ SUNXI_SPI_CLK_CTL_CDR2_MASK + 1 then (true, if div > 0 then div - 1 else div)
  else (false, BitVec.ofNat 32 (ilog2 SUNXI_SPI_MAX_RATE) - BitVec.ofNat 32 (ilog2 speed))

def clockReg : Bool × U32 → U32
  | (true, div) => SUNXI_SPI_CLK_CTL_CDR2 div ||| SUNXI_SPI_CLK_CTL_DRS
  | (false, div) => SUNXI_SPI_CLK_CTL_CDR1 div

def sunxiSpiSetSpeed (speed : U32) : SpiM Int := do
  writel (clockReg (clockDivider (clampSpeed speed))) .clkCtl
  pure 0

/-! ## The clock -/

/-- The fields of the clock register, as the controller reads them. -/
def cdr2 (reg : U32) : ℕ := (getField reg 0 8).toNat
def cdr1 (reg : U32) : ℕ := (getField reg 8 4).toNat
def drs (reg : U32) : Bool := reg.getLsbD 12

/-- The frequency of SCK. -/
def sck (reg : U32) : ℚ :=
  if drs reg then 24000000 / (2 * (cdr2 reg + 1 : ℕ)) else 24000000 / (2 ^ cdr1 reg : ℕ)

/-- What a call leaves in the clock register. -/
def programmed {S : Type} (env : Env S) (speed : U32) (w : World S) : U32 :=
  ((sunxiSpiSetSpeed speed).runOn env.exec w).2.bus.reg .clkCtl

theorem programmed_eq {S : Type} (env : Env S) (speed : U32) (w : World S) :
    programmed env speed w = clockReg (clockDivider (clampSpeed speed)) := by
  change Function.update ((Bus.shift env.slave)^[env.shifts w.time] w.bus).reg Reg.clkCtl _
    Reg.clkCtl = _
  exact Function.update_self _ _ _

theorem clockReg_true {div : U32} (h : div.toNat < 2 ^ 8) :
    drs (clockReg (true, div)) = true ∧ cdr2 (clockReg (true, div)) = div.toNat := by
  have hmask : SUNXI_SPI_CLK_CTL_CDR2 div = setField div 0 8 := by
    have hfield : fieldMask 0 8 = SUNXI_SPI_CLK_CTL_CDR2_MASK := by decide
    rw [setField, hfield, BitVec.shiftLeft_zero, SUNXI_SPI_CLK_CTL_CDR2]
  have hdrs : getField SUNXI_SPI_CLK_CTL_DRS 0 8 = 0#32 := by decide
  refine ⟨?_, ?_⟩
  · have hbit : SUNXI_SPI_CLK_CTL_DRS.getLsbD 12 = true := by decide
    rw [drs, clockReg, BitVec.getLsbD_or, hbit, Bool.or_true]
  · rw [cdr2, clockReg, hmask, getField_or, hdrs, BitVec.or_zero,
      getField_setField_self _ (by decide)]
    exact Nat.mod_eq_of_lt h

theorem clockReg_false {div : U32} (h : div.toNat < 2 ^ 4) :
    drs (clockReg (false, div)) = false ∧ cdr1 (clockReg (false, div)) = div.toNat := by
  have hmask : SUNXI_SPI_CLK_CTL_CDR1 div = setField div 8 4 := by
    have hfield : fieldMask 0 4 = SUNXI_SPI_CLK_CTL_CDR1_MASK := by decide
    rw [← setField_eq_and_shiftLeft, hfield, SUNXI_SPI_CLK_CTL_CDR1]
  refine ⟨?_, ?_⟩
  · rw [drs, clockReg, hmask, setField, BitVec.getLsbD_and, getLsbD_fieldMask,
      decide_eq_false (by decide : ¬ (8 ≤ 12 ∧ 12 < 8 + 4)), Bool.and_false, Bool.and_false]
  · rw [cdr1, clockReg, hmask, getField_setField_self _ (by decide)]
    exact Nat.mod_eq_of_lt h

theorem toNat_clampSpeed (speed : U32) :
    (clampSpeed speed).toNat = max 3000 (min speed.toNat 24000000) := by
  have hmax : SUNXI_SPI_MAX_RATE.toNat = 24000000 := rfl
  have hmin : SUNXI_SPI_MIN_RATE.toNat = 3000 := rfl
  unfold clampSpeed
  simp only [BitVec.lt_def, gt_iff_lt]
  split <;> split <;> simp only [hmax, hmin] at * <;> omega

/-! ## Rates -/

/-- The rates, within the limits, that the clock does not exceed. -/
def Kept (s : ℕ) : Prop :=
  12000000 < s ∨ 46693 ≤ s ∧ s ∣ 12000000 ∨ s ≤ 4095 ∨ 5860 ≤ s ∧ s ≤ 8191 ∨
    11719 ≤ s ∧ s ≤ 16383 ∨ 23438 ≤ s ∧ s ≤ 32767

instance instDecidableKept (s : ℕ) : Decidable (Kept s) :=
  inferInstanceAs (Decidable (_ ∨ _ ∨ _ ∨ _ ∨ _ ∨ _))

/-- The register holds the divider that was computed, and the clock is not above the rate. -/
structure NotFaster (speed reg : U32) : Prop where
  untruncated : drs reg = (clockDivider (clampSpeed speed)).1 ∧
    (if drs reg then cdr2 reg else cdr1 reg) = (clockDivider (clampSpeed speed)).2.toNat
  le : sck reg ≤ (clampSpeed speed).toNat

/-- A clock that a whole number of periods go into a second of. -/
theorem sck_le_iff {d s : ℕ} (hd : 0 < d) : (24000000 : ℚ) / (d : ℕ) ≤ s ↔ 24000000 ≤ s * d := by
  have hpos : (0 : ℚ) < d := Nat.cast_pos.2 hd
  rw [div_le_iff₀ hpos, ← Nat.cast_mul]
  exact_mod_cast Iff.rfl

section Rates

variable {speed : U32}

theorem toNat_count (hlo : 3000 ≤ speed.toNat) (hhi : speed.toNat ≤ 24000000) :
    (SUNXI_SPI_MAX_RATE / (2 * speed)).toNat = 12000000 / speed.toNat := by
  have htwo : (2 * speed).toNat = 2 * speed.toNat := by
    rw [BitVec.toNat_mul]
    change 2 * speed.toNat % 2 ^ 32 = _
    exact Nat.mod_eq_of_lt (by omega)
  rw [BitVec.toNat_udiv, htwo]
  change 2 * 12000000 / (2 * speed.toNat) = _
  exact Nat.mul_div_mul_left _ _ (by decide)

/-- The rates that the count reaches. -/
theorem count_le_iff (hlo : 3000 ≤ speed.toNat) (hhi : speed.toNat ≤ 24000000) :
    SUNXI_SPI_MAX_RATE / (2 * speed) ≤ SUNXI_SPI_CLK_CTL_CDR2_MASK + 1 ↔ 46693 ≤ speed.toNat := by
  change (SUNXI_SPI_MAX_RATE / (2 * speed)).toNat ≤ 256 ↔ _
  rw [toNat_count hlo hhi, ← Nat.lt_succ_iff, Nat.div_lt_iff_lt_mul (by omega)]
  omega

theorem clockDivider_count (hlo : 46693 ≤ speed.toNat) (hhi : speed.toNat ≤ 24000000) :
    (clockDivider speed).1 = true ∧ (clockDivider speed).2.toNat = 12000000 / speed.toNat - 1 := by
  have hcount := toNat_count (by omega) hhi
  have hle := (count_le_iff (by omega) hhi).2 hlo
  unfold clockDivider
  simp only [hle, if_true]
  refine ⟨trivial, ?_⟩
  by_cases hpos : SUNXI_SPI_MAX_RATE / (2 * speed) > 0
  · have hge : (1 : U32) ≤ SUNXI_SPI_MAX_RATE / (2 * speed) := hpos
    rw [if_pos hpos, BitVec.toNat_sub_of_le hge, hcount]
    rfl
  · have hzero : SUNXI_SPI_MAX_RATE / (2 * speed) = 0 :=
      BitVec.eq_of_toNat_eq (Nat.le_zero.1 (Nat.le_of_not_lt hpos))
    rw [if_neg hpos, ← hcount, hzero]
    rfl

theorem clockDivider_power (hlo : 3000 ≤ speed.toNat) (hhi : speed.toNat < 46693) :
    (clockDivider speed).1 = false ∧ (clockDivider speed).2.toNat = 24 - ilog2 speed ∧
      11 ≤ ilog2 speed ∧ ilog2 speed ≤ 15 ∧ 2 ^ ilog2 speed ≤ speed.toNat ∧
      speed.toNat < 2 ^ (ilog2 speed + 1) := by
  have hne : speed ≠ 0 := by
    rintro rfl
    exact absurd hlo (by decide)
  rcases ilog2_spec hne with ⟨hge, hlt⟩
  have h11 : 11 ≤ ilog2 speed := by
    have hpow : 2 ^ 11 < 2 ^ (ilog2 speed + 1) := lt_of_le_of_lt (by omega) hlt
    exact Nat.lt_succ_iff.1 ((Nat.pow_lt_pow_iff_right (by decide)).1 hpow)
  have h15 : ilog2 speed ≤ 15 := by
    have hpow : 2 ^ ilog2 speed < 2 ^ 16 := lt_of_le_of_lt hge (by omega)
    exact Nat.lt_succ_iff.1 ((Nat.pow_lt_pow_iff_right (by decide)).1 hpow)
  have hgt : ¬ SUNXI_SPI_MAX_RATE / (2 * speed) ≤ SUNXI_SPI_CLK_CTL_CDR2_MASK + 1 := by
    rw [count_le_iff hlo (by omega)]
    exact Nat.not_le.2 hhi
  have hmax : ilog2 SUNXI_SPI_MAX_RATE = 24 := by decide
  unfold clockDivider
  simp only [hgt, if_false, hmax]
  refine ⟨trivial, ?_, h11, h15, hge, hlt⟩
  generalize ilog2 speed = k at *
  interval_cases k <;> rfl

end Rates

/-- Twice the count: the clock is kept to where the count divides 12 MHz. -/
theorem count_kept_iff {s : ℕ} (hlo : 46693 ≤ s) (hhi : s ≤ 24000000) :
    24000000 ≤ s * (2 * (12000000 / s - 1 + 1)) ↔ Kept s := by
  have hle : s * (12000000 / s) ≤ 12000000 := Nat.mul_div_le _ _
  unfold Kept
  by_cases hfast : 12000000 < s
  · rw [Nat.div_eq_of_lt hfast]
    omega
  · have hpos : 1 ≤ 12000000 / s := (Nat.le_div_iff_mul_le (by omega)).2 (by omega)
    rw [Nat.sub_add_cancel hpos, Nat.mul_left_comm]
    constructor
    · intro h
      exact .inr (.inl ⟨hlo, 12000000 / s, by omega⟩)
    · intro h
      have hdvd : s ∣ 12000000 := by
        rcases h with h | ⟨-, h⟩ | h | h | h | h
        · exact absurd h hfast
        · exact h
        all_goals omega
      rw [Nat.mul_div_cancel' hdvd]

/-- A power of two: the clock is kept to in the upper part of each octave, but for the last one. -/
theorem power_kept_iff {s k : ℕ} (hlo : 3000 ≤ s) (hhi : s < 46693) (h11 : 11 ≤ k) (h15 : k ≤ 15)
    (hge : 2 ^ k ≤ s) (hlt : s < 2 ^ (k + 1)) :
    24000000 ≤ s * 2 ^ (24 - k) ↔ Kept s := by
  have hcount : ¬ (46693 ≤ s ∧ s ∣ 12000000) := fun h => Nat.not_le.2 hhi h.1
  unfold Kept
  simp only [hcount, false_or]
  interval_cases k <;> norm_num at hge hlt ⊢ <;> omega

/-- The clock keeps to a rate that is asked for, within its limits, in these cases only. -/
theorem notFaster_iff (speed : U32) :
    NotFaster speed (clockReg (clockDivider (clampSpeed speed))) ↔
      Kept (clampSpeed speed).toNat := by
  have hclamp := toNat_clampSpeed speed
  have hlo : 3000 ≤ (clampSpeed speed).toNat := by omega
  have hhi : (clampSpeed speed).toNat ≤ 24000000 := by omega
  -- The count where it reaches, and else the power of two.
  by_cases hcount : 46693 ≤ (clampSpeed speed).toNat
  · rcases clockDivider_count hcount hhi with ⟨hsel, hdiv⟩
    have hsmall : 12000000 / (clampSpeed speed).toNat < 257 :=
      (Nat.div_lt_iff_lt_mul (by omega)).2 (by omega)
    have hd : clockDivider (clampSpeed speed) = (true, (clockDivider (clampSpeed speed)).2) :=
      Prod.ext hsel rfl
    rcases @clockReg_true (clockDivider (clampSpeed speed)).2 (by omega) with ⟨hdrs, hcdr2⟩
    rw [← hd] at hdrs hcdr2
    rw [← count_kept_iff hcount hhi, ← hdiv, ← hcdr2, ← sck_le_iff (by omega)]
    constructor
    · intro h
      have hle := h.le
      rw [sck, if_pos hdrs] at hle
      exact_mod_cast hle
    · intro h
      refine ⟨⟨hdrs.trans hsel.symm, ?_⟩, ?_⟩
      · rw [if_pos hdrs, hcdr2]
      · rw [sck, if_pos hdrs]
        exact_mod_cast h
  · rcases clockDivider_power hlo (Nat.lt_of_not_le hcount) with ⟨hsel, hdiv, h11, h15, hge, hlt⟩
    have hd : clockDivider (clampSpeed speed) = (false, (clockDivider (clampSpeed speed)).2) :=
      Prod.ext hsel rfl
    rcases @clockReg_false (clockDivider (clampSpeed speed)).2 (by omega) with ⟨hdrs, hcdr1⟩
    rw [← hd] at hdrs hcdr1
    have hnot : ¬ drs (clockReg (clockDivider (clampSpeed speed))) = true := by
      rw [hdrs]
      exact Bool.false_ne_true
    rw [← power_kept_iff hlo (Nat.lt_of_not_le hcount) h11 h15 hge hlt, ← hdiv, ← hcdr1,
      ← sck_le_iff (Nat.two_pow_pos _)]
    constructor
    · intro h
      have hle := h.le
      rw [sck, if_neg hnot] at hle
      exact hle
    · intro h
      refine ⟨⟨hdrs.trans hsel.symm, ?_⟩, ?_⟩
      · rw [if_neg hnot, hcdr1]
      · rw [sck, if_neg hnot]
        exact h

/-- The clock that a call programs keeps to the rate that was asked for, within its limits, in these
cases only. -/
theorem set_speed_iff {S : Type} (env : Env S) (speed : U32) (w : World S) :
    NotFaster speed (programmed env speed w) ↔ Kept (clampSpeed speed).toNat := by
  rw [programmed_eq]
  exact notFaster_iff speed

def quiet : Env Unit := ⟨⟨fun s _ => (0, s)⟩, fun _ => 0, fun _ => 0⟩

def cleared : World Unit := ⟨⟨fun _ => 0, [], [], 0, 0, (), [], fun _ => 0⟩, 0⟩

/-- A rate of 7 MHz is exceeded: the clock runs at 12 MHz. -/
theorem set_speed_exceeds :
    ¬ NotFaster 7000000 (programmed quiet 7000000 cleared) ∧
      sck (programmed quiet 7000000 cleared) = 12000000 := by
  have hreg : clockReg (clockDivider (clampSpeed 7000000)) = 0x1000 := by decide
  have hdrs : drs 0x1000 = true := by decide
  have hcdr2 : cdr2 0x1000 = 0 := by decide
  refine ⟨?_, ?_⟩
  · rw [programmed_eq, notFaster_iff]
    decide
  · rw [programmed_eq, hreg, sck, if_pos hdrs, hcdr2]
    norm_num

end Spi

end BspV3s
