import Mathlib.Algebra.Order.Field.Rat
import Mathlib.Tactic.IntervalCases
import BspV3s.Lib.Packing
import BspV3s.Lib.Search
import BspV3s.Pwm.Control

/-!
# Period — the period and the duty that are programmed

`sun4i_pwm_config` counts the period in clock ticks: with the prescaler bypassed and the count rounded,
or with the first prescaler under which the truncated count fits.  A period of 65536 ticks fits, since
the period field holds one less.  The duty field holds the ticks themselves, in 16 bits as well, so at
that period a duty as long as the period is programmed as none.

* `findDivider_spec`   : the search as the first code that fits;
* `config_fields`      : what is left in the registers;
* `config_exact_iff`   : the fields are exact but for a full duty at a period of 65536 ticks.
-/

namespace BspV3s

namespace Pwm

open Prog

/-! ## Counts -/

/-- The ticks of a period without a prescaler, rounded. -/
def bypassCount (period : ℕ) : ℕ := (24000000 * period + 1000000000 / 2) / 1000000000

def prescaler (code : ℕ) : ℕ := (prescalerTable.getD code 0).toNat

/-- The ticks of a period with a prescaler, truncated twice. -/
def prescaledCount (code period : ℕ) : ℕ := 24000000 / prescaler code * period / 1000000000

def Fits (count : ℕ) : Prop := 1 ≤ count ∧ count ≤ 65536

instance instDecidableFits (count : ℕ) : Decidable (Fits count) :=
  inferInstanceAs (Decidable (_ ∧ _))

/-- The prescaler of the code exists and makes the period fit. -/
def Usable (period code : ℕ) : Prop :=
  code < 15 ∧ prescaler code ≠ 0 ∧ Fits (prescaledCount code period)

/-- What a period is to be programmed as: the bypass, or else the first prescaler that is usable. -/
inductive Setting (period : ℕ) : (code count : ℕ) → Prop
  | bypass (h : Fits (bypassCount period)) : Setting period 15 (bypassCount period)
  | prescaled {code : ℕ} (hbypass : ¬ Fits (bypassCount period))
      (hcode : First (Usable period) 0 code) : Setting period code (prescaledCount code period)

theorem Setting.fits {period code count : ℕ} (h : Setting period code count) : Fits count := by
  cases h with
  | bypass h => exact h
  | prescaled _ hcode => exact hcode.holds.2.2

theorem Setting.unique {period code code' count count' : ℕ} (h : Setting period code count)
    (h' : Setting period code' count') : code = code' ∧ count = count' := by
  cases h with
  | bypass hfits =>
      cases h' with
      | bypass => exact ⟨rfl, rfl⟩
      | prescaled hnot => exact absurd hfits hnot
  | prescaled hnot hcode =>
      cases h' with
      | bypass hfits => exact absurd hfits hnot
      | prescaled _ hcode' =>
          have heq := hcode.unique hcode'
          subst heq
          exact ⟨rfl, rfl⟩

/-! ## The search -/

/-- The range test of the driver: a count of 0 wraps. -/
theorem sub_one_le_iff (div : U64) : div - 1 ≤ PWM_PRD_MASK ↔ Fits div.toNat := by
  have hlt := div.isLt
  change (div - 1).toNat ≤ 0xffff ↔ _
  rw [BitVec.toNat_sub]
  change (2 ^ 64 - 1 + div.toNat) % 2 ^ 64 ≤ 0xffff ↔ _
  unfold Fits
  omega

/-- The quotient of one round. -/
def quotient (period : U64) (code : ℕ) : U64 :=
  (24000000 : U64) / (prescalerTable.getD code 0).setWidth 64 * period / NSEC_PER_SEC

theorem toNat_quotient {period : U64} (hperiod : period.toNat < 2 ^ 31) (code : ℕ) :
    (quotient period code).toNat = prescaledCount code period.toNat := by
  have hentry : ((prescalerTable.getD code 0).setWidth 64).toNat = prescaler code := by
    rw [BitVec.toNat_setWidth]
    exact Nat.mod_eq_of_lt (lt_trans (prescalerTable.getD code 0).isLt (by decide))
  have hrate : 24000000 / prescaler code ≤ 24000000 := Nat.div_le_self _ _
  have hprod : 24000000 / prescaler code * period.toNat < 2 ^ 64 := by
    calc 24000000 / prescaler code * period.toNat ≤ 24000000 * 2 ^ 31 :=
          Nat.mul_le_mul hrate hperiod.le
      _ < 2 ^ 64 := by decide
  have hconst : (24000000 : U64).toNat = 24000000 := rfl
  have hnsec : NSEC_PER_SEC.toNat = 1000000000 := rfl
  unfold quotient prescaledCount
  rw [BitVec.toNat_udiv, BitVec.toNat_mul, BitVec.toNat_udiv, hentry, hconst, hnsec,
    Nat.mod_eq_of_lt hprod]

theorem searchPrescaler_spec {period : U64} (hperiod : period.toNat < 2 ^ 31) {n code : ℕ}
    (hn : code + n = 15) {div : U64} (hdiv : ¬ Fits div.toNat) :
    (∃ j, First (Usable period.toNat) code j ∧
      searchPrescaler 24000000 period n code div = (j, quotient period j)) ∨
    (∀ j, code ≤ j → ¬ Usable period.toNat j) ∧
      ¬ Fits (searchPrescaler 24000000 period n code div).2.toNat := by
  induction n generalizing code div with
  | zero =>
      refine .inr ⟨fun j hle h => ?_, hdiv⟩
      have hlt := h.1
      omega
  | succ n ih =>
      have hlt : code < 15 := by omega
      have hnext : code + 1 + n = 15 := by omega
      have hzero : prescalerTable.getD code 0 = 0 ↔ prescaler code = 0 := by
        unfold prescaler
        exact BitVec.toNat_inj.symm
      -- The round passes the code on, unless it is usable.
      have hpass : ∀ div', ¬ Usable period.toNat code → ¬ Fits div'.toNat →
          searchPrescaler 24000000 period (n + 1) code div =
            searchPrescaler 24000000 period n (code + 1) div' →
          (∃ j, First (Usable period.toNat) code j ∧
            searchPrescaler 24000000 period (n + 1) code div = (j, quotient period j)) ∨
          (∀ j, code ≤ j → ¬ Usable period.toNat j) ∧
            ¬ Fits (searchPrescaler 24000000 period (n + 1) code div).2.toNat := by
        intro div' hnot hdiv' hrest
        rw [hrest]
        rcases ih hnext hdiv' with ⟨j, hj, heq⟩ | ⟨hnone, hlast⟩
        · exact .inl ⟨j, hj.later hnot, heq⟩
        · refine .inr ⟨fun j hle => ?_, hlast⟩
          rcases Nat.eq_or_lt_of_le hle with rfl | hgt
          · exact hnot
          · exact hnone j hgt
      by_cases hentry : prescalerTable.getD code 0 = 0
      · refine hpass div (fun h => h.2.1 (hzero.1 hentry)) hdiv ?_
        rw [searchPrescaler, if_pos hentry]
      · by_cases hfit : quotient period code - 1 ≤ PWM_PRD_MASK
        · refine .inl ⟨code, .here ⟨hlt, mt hzero.2 hentry, ?_⟩, ?_⟩
          · rw [← toNat_quotient hperiod]
            exact (sub_one_le_iff _).1 hfit
          · rw [searchPrescaler, if_neg hentry]
            exact if_pos hfit
        · have hnot : ¬ Fits (quotient period code).toNat := mt (sub_one_le_iff _).2 hfit
          refine hpass (quotient period code) (fun h => hnot ?_) hnot ?_
          · rw [toNat_quotient hperiod]
            exact h.2.2
          · rw [searchPrescaler, if_neg hentry]
            exact if_neg hfit

/-- `div` of the bypass. -/
def bypassWord (period : U64) : U64 := (24000000 * period + NSEC_PER_SEC / 2) / NSEC_PER_SEC

theorem toNat_bypassWord {period : U64} (hperiod : period.toNat < 2 ^ 31) :
    (bypassWord period).toNat = bypassCount period.toNat := by
  have hhalf : (NSEC_PER_SEC / 2).toNat = 1000000000 / 2 := rfl
  have hnsec : NSEC_PER_SEC.toNat = 1000000000 := rfl
  have hconst : (24000000 : U64).toNat = 24000000 := rfl
  have hprod : 24000000 * period.toNat + 1000000000 / 2 < 2 ^ 64 := by omega
  unfold bypassWord bypassCount
  rw [BitVec.toNat_udiv, BitVec.toNat_add, BitVec.toNat_mul, hhalf, hnsec, hconst,
    Nat.mod_eq_of_lt (lt_of_le_of_lt (Nat.le_add_right _ _) hprod), Nat.mod_eq_of_lt hprod]

/-- A time in nanoseconds as the driver computes with it. -/
theorem toNat_signExtend {x : U32} (hx : 0 ≤ x.toInt) :
    (x.signExtend 64).toNat = x.toNat ∧ x.toNat < 2 ^ 31 := by
  have hmsb : x.msb = false := by
    rw [BitVec.msb_eq_toInt]
    exact decide_eq_false (Int.not_lt.2 hx)
  have hsmall : x.toNat < 2 ^ 31 := by
    rw [BitVec.msb_eq_decide] at hmsb
    exact Nat.lt_of_not_le (of_decide_eq_false hmsb)
  refine ⟨?_, hsmall⟩
  rw [BitVec.signExtend_eq_setWidth_of_msb_false hmsb, BitVec.toNat_setWidth]
  exact Nat.mod_eq_of_lt (lt_trans hsmall (by decide))

/-- What the search goes through after the bypass has failed. -/
def searched (period : U64) : ℕ × U64 :=
  searchPrescaler 24000000 period 15 0 (bypassWord period)

theorem findDivider_a20 (periodNs : U32) :
    findDivider a20 periodNs =
      if (if bypassWord (periodNs.signExtend 64) - 1 > PWM_PRD_MASK then 0 else 15) = 0 then
        if (searched (periodNs.signExtend 64)).2 - 1 > PWM_PRD_MASK then none
        else some (searched (periodNs.signExtend 64))
      else some (if bypassWord (periodNs.signExtend 64) - 1 > PWM_PRD_MASK then 0 else 15,
        bypassWord (periodNs.signExtend 64)) := by
  have hclk : a20.clk.setWidth 64 = (24000000 : U64) := by decide
  have hbypass : a20.data.hasPrescalerBypass = true := rfl
  unfold findDivider searched bypassWord
  simp only [hclk, hbypass, if_true]

theorem findDivider_spec {periodNs : U32} (hperiod : 0 ≤ periodNs.toInt) :
    (∃ code div, findDivider a20 periodNs = some (code, div) ∧
      Setting periodNs.toNat code div.toNat) ∨
    findDivider a20 periodNs = none ∧ ∀ code count, ¬ Setting periodNs.toNat code count := by
  rcases toNat_signExtend hperiod with ⟨hperiod64, hsmall⟩
  rw [← hperiod64] at hsmall ⊢
  have hbypass := toNat_bypassWord hsmall
  rw [findDivider_a20]
  -- The bypass is taken where it fits, and the search where it does not.
  by_cases hfits : Fits (bypassCount (periodNs.signExtend 64).toNat)
  · have hle : ¬ bypassWord (periodNs.signExtend 64) - 1 > PWM_PRD_MASK := by
      rw [← hbypass, ← sub_one_le_iff] at hfits
      exact BitVec.not_lt.2 hfits
    have hcode : (if bypassWord (periodNs.signExtend 64) - 1 > PWM_PRD_MASK then 0 else 15) ≠ 0 := by
      rw [if_neg hle]
      decide
    refine .inl ⟨15, bypassWord (periodNs.signExtend 64), ?_, ?_⟩
    · rw [if_neg hcode, if_neg hle]
    · rw [hbypass]
      exact .bypass hfits
  · have hgt : bypassWord (periodNs.signExtend 64) - 1 > PWM_PRD_MASK := by
      rw [← hbypass, ← sub_one_le_iff] at hfits
      exact BitVec.not_le.1 hfits
    rw [if_pos hgt, if_pos rfl, searched]
    rcases searchPrescaler_spec hsmall (Nat.zero_add 15) (hbypass ▸ hfits) with
      ⟨j, hj, hfound⟩ | ⟨hnone, hlast⟩
    · have hcount := toNat_quotient hsmall j
      have hin : ¬ quotient (periodNs.signExtend 64) j - 1 > PWM_PRD_MASK := by
        refine BitVec.not_lt.2 ((sub_one_le_iff _).2 ?_)
        rw [hcount]
        exact hj.holds.2.2
      rw [hfound, if_neg hin]
      refine .inl ⟨j, _, rfl, ?_⟩
      rw [hcount]
      exact .prescaled hfits hj
    · have hout := BitVec.not_le.1 (mt (sub_one_le_iff _).1 hlast)
      rw [if_pos hout]
      refine .inr ⟨rfl, fun code count hset => ?_⟩
      cases hset with
      | bypass hfits' => exact hfits hfits'
      | prescaled _ hcode => exact hnone code (Nat.zero_le code) hcode.holds

/-! ## The registers -/

/-- An access while the ready bits hold still. -/
def World.exec (o : Op) (s : World) : o.Ret × World :=
  match o with
  | .readl offset => (s.reg offset, s)
  | .writel val offset => ((), ⟨Function.update s.reg offset val, s.written ++ [(offset, val)]⟩)

/-- `sun4i_pwm_config`, alone. -/
def config (chip : Chip) (ch : Fin 2) (dutyNs periodNs : U32) (s : World) : Int × World :=
  (sun4iPwmConfig chip ch dutyNs periodNs).runOn (fun o s => s.exec o) s

/-- The prescaler fields of the control register. -/
def prescalers : Packing (Fin 2) ℕ where
  addr _ := PWM_CTRL_REG
  lo ch := ch * 15
  width _ := 4
  fits ch := by omega
  apart k l hne _ := by
    have hne' : (k : ℕ) ≠ l := fun h => hne (Fin.ext h)
    omega

def prescalerField (ch : Fin 2) (s : World) : ℕ := (prescalers.get s.reg ch).toNat

def periodField (ch : Fin 2) (s : World) : ℕ := (getField (s.reg (PWM_CH_PRD ch)) 16 16).toNat

def dutyField (ch : Fin 2) (s : World) : ℕ := (getField (s.reg (PWM_CH_PRD ch)) 0 16).toNat

/-- The word for the period register. -/
def periodWord (div : U64) (dutyNs periodNs : U32) : U32 :=
  (div * dutyNs.signExtend 64 / periodNs.setWidth 64).setWidth 32 &&& PWM_DTY_MASK |||
    PWM_PRD (div.setWidth 32)

theorem ctrl_ne_prd (ch : Fin 2) : PWM_CTRL_REG ≠ PWM_CH_PRD ch := by
  unfold PWM_CTRL_REG PWM_CH_PRD
  omega

variable {chip : Chip} {ch : Fin 2} {dutyNs periodNs : U32} {s : World} {code : ℕ} {div : U64}

theorem config_none (h : findDivider chip periodNs = none) :
    config chip ch dutyNs periodNs s = (-EINVAL, s) := by
  unfold config sun4iPwmConfig
  rw [h]
  rfl

/-- The control register and then the period register are written. -/
def writeBoth (r : ℕ → U32) (ch : Fin 2) (ctrl prd : U32) : ℕ → U32 :=
  Function.update (Function.update r PWM_CTRL_REG ctrl) (PWM_CH_PRD ch) prd

theorem writeBoth_ctrl (r : ℕ → U32) (ch : Fin 2) (ctrl prd : U32) :
    writeBoth r ch ctrl prd PWM_CTRL_REG = ctrl := by
  rw [writeBoth, Function.update_of_ne (ctrl_ne_prd ch), Function.update_self]

theorem writeBoth_prd (r : ℕ → U32) (ch : Fin 2) (ctrl prd : U32) :
    writeBoth r ch ctrl prd (PWM_CH_PRD ch) = prd :=
  Function.update_self _ _ _

/-- A call that finds a setting leaves the period word and the prescaler, whether or not it had to
close the clock gate. -/
theorem config_some (h : findDivider chip periodNs = some (code, div))
    (hready : s.reg PWM_CTRL_REG &&& PWM_RDY ch = 0) :
    (config chip ch dutyNs periodNs s).1 = 0 ∧
      (config chip ch dutyNs periodNs s).2.reg (PWM_CH_PRD ch) = periodWord div dutyNs periodNs ∧
      ∃ v gate, gate &&& ~~~BIT_CH PWM_CLK_GATING ch = 0 ∧
        (config chip ch dutyNs periodNs s).2.reg PWM_CTRL_REG =
          prescalers.put ch (BitVec.ofNat 32 code) v ||| gate := by
  have hbusy : ¬ (chip.data.hasRdy = true ∧ s.reg PWM_CTRL_REG &&& PWM_RDY ch ≠ 0) :=
    fun hnot => hnot.2 hready
  have hread : ∀ offset s, (sun4iPwmReadl offset).runOn (fun o s => World.exec o s) s =
      (s.reg offset, s) := fun _ _ => rfl
  unfold config sun4iPwmConfig
  rw [h]
  simp only
  rw [runOn_bind_of (hread _ _), if_neg hbusy]
  by_cases hgate : s.reg PWM_CTRL_REG &&& BIT_CH PWM_CLK_GATING ch = 0
  · simp only [hgate, ne_eq, not_true_eq_false, if_false]
    refine ⟨rfl, ?_, s.reg PWM_CTRL_REG, 0, BitVec.zero_and, ?_⟩
    · exact writeBoth_prd s.reg ch _ (periodWord div dutyNs periodNs)
    · refine Eq.trans ?_ BitVec.or_zero.symm
      exact writeBoth_ctrl s.reg ch (prescalers.put ch (BitVec.ofNat 32 code) (s.reg PWM_CTRL_REG))
        (periodWord div dutyNs periodNs)
  · simp only [hgate, ne_eq, not_false_eq_true, if_true]
    let closed := Function.update s.reg PWM_CTRL_REG
      (s.reg PWM_CTRL_REG &&& ~~~BIT_CH PWM_CLK_GATING ch)
    let ctrl := prescalers.put ch (BitVec.ofNat 32 code) (closed PWM_CTRL_REG)
    let both := writeBoth closed ch ctrl (periodWord div dutyNs periodNs)
    let gate := s.reg PWM_CTRL_REG &&& BIT_CH PWM_CLK_GATING ch
    -- The gate is opened again on what has been written in between.
    have hprd : Function.update both PWM_CTRL_REG (both PWM_CTRL_REG ||| gate) (PWM_CH_PRD ch) =
        periodWord div dutyNs periodNs := by
      rw [Function.update_of_ne (ctrl_ne_prd ch).symm]
      exact writeBoth_prd _ _ _ _
    have hctrl : Function.update both PWM_CTRL_REG (both PWM_CTRL_REG ||| gate) PWM_CTRL_REG =
        ctrl ||| gate := by
      rw [Function.update_self]
      exact congrArg (· ||| gate) (writeBoth_ctrl _ _ _ _)
    refine ⟨rfl, hprd, closed PWM_CTRL_REG, gate, ?_, hctrl⟩
    calc gate &&& ~~~BIT_CH PWM_CLK_GATING ch
        = s.reg PWM_CTRL_REG &&& (BIT_CH PWM_CLK_GATING ch &&& ~~~BIT_CH PWM_CLK_GATING ch) :=
          BitVec.and_assoc _ _ _
      _ = 0 := by
          rw [BitVec.and_not_self]
          exact BitVec.and_zero

/-! ## The fields -/

theorem prescalerField_eq {v gate : U32} (hcode : code < 16)
    (hgate : gate &&& ~~~BIT_CH PWM_CLK_GATING ch = 0)
    (hs : s.reg PWM_CTRL_REG = prescalers.put ch (BitVec.ofNat 32 code) v ||| gate) :
    prescalerField ch s = code := by
  have hx : (BitVec.ofNat 32 code).toNat < 2 ^ 4 := by
    rw [BitVec.toNat_ofNat]
    exact lt_of_le_of_lt (Nat.mod_le _ _) hcode
  have hapart : ∀ ch : Fin 2,
      (BIT_CH PWM_CLK_GATING ch).extractLsb' ((ch : ℕ) * 15) 4 = 0#4 := by decide
  -- The gating bit lies outside the field.
  have hself : gate = gate &&& BIT_CH PWM_CLK_GATING ch := by
    calc gate = gate &&& BitVec.allOnes 32 := BitVec.and_allOnes.symm
      _ = gate &&& (BIT_CH PWM_CLK_GATING ch ||| ~~~BIT_CH PWM_CLK_GATING ch) := by
          rw [BitVec.or_not_self]
      _ = gate &&& BIT_CH PWM_CLK_GATING ch := by
          rw [BitVec.and_or_distrib_left, hgate]
          exact BitVec.or_zero
  have hnone : gate.extractLsb' ((ch : ℕ) * 15) 4 = 0#4 := by
    rw [hself, BitVec.extractLsb'_and, hapart]
    exact BitVec.and_zero
  have hput := Packing.extract_put_self (P := prescalers) (k := ch) (v := v) hx
  have hfield : prescalers.get s.reg ch = (BitVec.ofNat 32 code).setWidth 4 := by
    refine Eq.trans ?_ hput
    change (s.reg PWM_CTRL_REG).extractLsb' ((ch : ℕ) * 15) 4 = _
    rw [hs, BitVec.extractLsb'_or, hnone]
    exact BitVec.or_zero
  have hnat : prescalerField ch s = ((BitVec.ofNat 32 code).setWidth 4).toNat :=
    congrArg BitVec.toNat hfield
  rw [hnat, BitVec.toNat_setWidth, BitVec.toNat_ofNat,
    Nat.mod_eq_of_lt (lt_trans hcode (by decide))]
  exact Nat.mod_eq_of_lt hcode

/-- The count is one more than its field; the duty loses what does not fit. -/
theorem fields_periodWord (hdiv : Fits div.toNat) (hduty : 0 ≤ dutyNs.toInt)
    (hle : dutyNs.toNat ≤ periodNs.toNat) :
    (getField (periodWord div dutyNs periodNs) 16 16).toNat = div.toNat - 1 ∧
      (getField (periodWord div dutyNs periodNs) 0 16).toNat =
        div.toNat * dutyNs.toNat / periodNs.toNat % 2 ^ 16 := by
  rcases toNat_signExtend hduty with ⟨hduty64, hsmall⟩
  have hlow : 1 ≤ div.toNat := hdiv.1
  have hhigh : div.toNat ≤ 65536 := hdiv.2
  -- The period.
  have hprd : (div.setWidth 32).toNat = div.toNat := by
    rw [BitVec.toNat_setWidth]
    omega
  have hprd' : (div.setWidth 32 - 1).toNat = div.toNat - 1 := by
    have hone : (1 : U32) ≤ div.setWidth 32 := by
      change 1 ≤ (div.setWidth 32).toNat
      rw [hprd]
      exact hlow
    rw [BitVec.toNat_sub_of_le hone, hprd]
    rfl
  have hfits : (div.setWidth 32 - 1).toNat < 2 ^ 16 := by omega
  -- The duty.
  have hprod : div.toNat * dutyNs.toNat < 2 ^ 64 := by
    calc div.toNat * dutyNs.toNat ≤ 65536 * 2 ^ 31 := Nat.mul_le_mul hhigh hsmall.le
      _ < 2 ^ 64 := by decide
  have hquot : div.toNat * dutyNs.toNat / periodNs.toNat ≤ 65536 := by
    refine Nat.div_le_of_le_mul ?_
    rw [Nat.mul_comm periodNs.toNat]
    exact Nat.mul_le_mul hhigh hle
  have hdty : ((div * dutyNs.signExtend 64 / periodNs.setWidth 64).setWidth 32).toNat =
      div.toNat * dutyNs.toNat / periodNs.toNat := by
    have hperiod : (periodNs.setWidth 64).toNat = periodNs.toNat := by
      rw [BitVec.toNat_setWidth]
      exact Nat.mod_eq_of_lt (lt_trans periodNs.isLt (by decide))
    rw [BitVec.toNat_setWidth, BitVec.toNat_udiv, BitVec.toNat_mul, hduty64, hperiod,
      Nat.mod_eq_of_lt hprod]
    exact Nat.mod_eq_of_lt (lt_of_le_of_lt hquot (by decide))
  generalize hx : (div * dutyNs.signExtend 64 / periodNs.setWidth 64).setWidth 32 = x at hdty
  have hword : periodWord div dutyNs periodNs =
      setField x 0 16 ||| setField (div.setWidth 32 - 1) 16 16 := by
    have hmask : setField x 0 16 = x &&& PWM_DTY_MASK := by
      have hfield : fieldMask 0 16 = PWM_DTY_MASK := by decide
      rw [setField, hfield, BitVec.shiftLeft_zero]
    rw [hmask, setField_of_lt hfits, periodWord, hx, PWM_PRD]
  rw [hword]
  simp (disch := decide) only [getField_or, getField_setField_of_disjoint, BitVec.zero_or,
    BitVec.or_zero]
  rw [getField_setField_self _ (by decide), getField_setField_self _ (by decide), hprd', hdty]
  exact ⟨Nat.mod_eq_of_lt (by omega), rfl⟩

/-! ## A period of 65536 ticks -/

/-- The periods that count 65536 ticks: without a prescaler, or with one of the first five. -/
def FullScale (period : ℕ) : Prop :=
  2730646 ≤ period ∧ period ≤ 2730687 ∨ 327680000 ≤ period ∧ period ≤ 327684999 ∨
    491521229 ≤ period ∧ period ≤ 491528728 ∨ 655360000 ≤ period ∧ period ≤ 655369999 ∨
    983049831 ≤ period ∧ period ≤ 983064830 ∨ 1310720000 ≤ period ∧ period ≤ 1310739999

instance instDecidableFullScale (period : ℕ) : Decidable (FullScale period) :=
  inferInstanceAs (Decidable (_ ∨ _ ∨ _ ∨ _ ∨ _ ∨ _))

/-- The rates behind the prescalers of the table. -/
theorem prescaledCount_rates (period : ℕ) :
    prescaledCount 0 period = 200000 * period / 1000000000 ∧
      prescaledCount 1 period = 133333 * period / 1000000000 ∧
      prescaledCount 2 period = 100000 * period / 1000000000 ∧
      prescaledCount 3 period = 66666 * period / 1000000000 ∧
      prescaledCount 4 period = 50000 * period / 1000000000 :=
  ⟨rfl, rfl, rfl, rfl, rfl⟩

/-- The other prescalers are too slow for that many ticks. -/
theorem prescaledCount_slow {code period : ℕ} (hcode : 5 ≤ code) (hlt : code < 15)
    (hperiod : period < 2 ^ 31) : prescaledCount code period < 65536 := by
  have hrate : 24000000 / prescaler code ≤ 2000 := by
    have hall : ∀ code < 15, 5 ≤ code → 24000000 / prescaler code ≤ 2000 := by decide
    exact hall code hlt hcode
  refine (Nat.div_lt_iff_lt_mul (by decide)).2 ?_
  calc 24000000 / prescaler code * period ≤ 2000 * 2 ^ 31 := Nat.mul_le_mul hrate hperiod.le
    _ < 65536 * 1000000000 := by decide

theorem setting_of_before {code period : ℕ} (hbypass : 65536 < bypassCount period)
    (hlt : code < 15) (hentry : prescaler code ≠ 0) (hcount : prescaledCount code period = 65536)
    (hbefore : ∀ i < code, 65536 < prescaledCount i period) : Setting period code 65536 := by
  rw [← hcount]
  refine .prescaled (fun hfits => Nat.not_lt.2 hfits.2 hbypass)
    ⟨Nat.zero_le code, ⟨hlt, hentry, ?_⟩, fun i _ hi husable => ?_⟩
  · rw [hcount]
    exact ⟨by decide, le_refl _⟩
  · exact Nat.not_lt.2 husable.2.2.2 (hbefore i hi)

theorem setting_fullScale_iff {period : ℕ} (hperiod : period < 2 ^ 31) :
    (∃ code, Setting period code 65536) ↔ FullScale period := by
  rcases prescaledCount_rates period with ⟨h0, h1, h2, h3, h4⟩
  have hbypass : bypassCount period = (24000000 * period + 500000000) / 1000000000 := rfl
  unfold FullScale
  constructor
  · rintro ⟨code, hset⟩
    generalize hcount : 65536 = count at hset
    cases hset with
    | bypass _ => omega
    | prescaled _ hcode =>
        have hlt : code < 5 := by
          refine Nat.lt_of_not_le fun hle => ?_
          exact absurd hcount (Nat.ne_of_gt (prescaledCount_slow hle hcode.holds.1 hperiod))
        interval_cases code <;> omega
  · intro h
    -- One interval for each rate; the rates before it count further than 65536.
    rcases h with h | h | h | h | h | h
    · have hcount : bypassCount period = 65536 := by omega
      refine ⟨15, ?_⟩
      rw [← hcount]
      refine .bypass ?_
      rw [hcount]
      exact ⟨by decide, le_refl _⟩
    · exact ⟨0, setting_of_before (by omega) (by decide) (by decide) (by omega)
        fun i hi => absurd hi (Nat.not_lt_zero i)⟩
    · refine ⟨1, setting_of_before (by omega) (by decide) (by decide) (by omega) fun i hi => ?_⟩
      interval_cases i
      omega
    · refine ⟨2, setting_of_before (by omega) (by decide) (by decide) (by omega) fun i hi => ?_⟩
      interval_cases i <;> omega
    · refine ⟨3, setting_of_before (by omega) (by decide) (by decide) (by omega) fun i hi => ?_⟩
      interval_cases i <;> omega
    · refine ⟨4, setting_of_before (by omega) (by decide) (by decide) (by omega) fun i hi => ?_⟩
      interval_cases i <;> omega

/-! ## Every call -/

theorem Setting.code_lt {period code count : ℕ} (h : Setting period code count) : code < 16 := by
  cases h with
  | bypass => decide
  | prescaled _ hcode => exact Nat.lt_succ_of_lt hcode.holds.1

/-- There is no setting for a period of 0. -/
theorem Setting.period_pos {period code count : ℕ} (h : Setting period code count) : 0 < period := by
  refine Nat.pos_of_ne_zero fun hzero => ?_
  subst hzero
  have hfits := h.fits
  cases h with
  | bypass => exact absurd hfits (by decide)
  | prescaled =>
      rw [prescaledCount, Nat.mul_zero] at hfits
      exact absurd hfits (by decide)

theorem exists_setting_iff (period : ℕ) :
    (∃ code count, Setting period code count) ↔
      Fits (bypassCount period) ∨ ∃ code, Usable period code := by
  constructor
  · rintro ⟨code, count, hset⟩
    cases hset with
    | bypass hfits => exact .inl hfits
    | prescaled _ hcode => exact .inr ⟨code, hcode.holds⟩
  · intro h
    by_cases hbypass : Fits (bypassCount period)
    · exact ⟨15, _, .bypass hbypass⟩
    · rcases First.exists_of_exists (h.resolve_left hbypass) with ⟨code, hcode⟩
      exact ⟨code, _, .prescaled hbypass hcode⟩

theorem toInt_eq_toNat {x : U32} (hx : 0 ≤ x.toInt) : x.toInt = x.toNat :=
  BitVec.toInt_eq_toNat_of_lt (BitVec.toInt_pos_iff.1 hx)

/-- What a call programs for a setting, before anything is said of the 16 bits of the duty. -/
theorem config_fields {count : ℕ} (hset : Setting periodNs.toNat code count)
    (hready : s.reg PWM_CTRL_REG &&& PWM_RDY ch = 0) (hduty : 0 ≤ dutyNs.toInt)
    (hle : dutyNs.toInt ≤ periodNs.toInt) :
    (config a20 ch dutyNs periodNs s).1 = 0 ∧
      prescalerField ch (config a20 ch dutyNs periodNs s).2 = code ∧
      periodField ch (config a20 ch dutyNs periodNs s).2 = count - 1 ∧
      dutyField ch (config a20 ch dutyNs periodNs s).2 =
        count * dutyNs.toNat / periodNs.toNat % 2 ^ 16 := by
  have hperiod := hduty.trans hle
  have hle' : dutyNs.toNat ≤ periodNs.toNat := by
    rw [toInt_eq_toNat hduty, toInt_eq_toNat hperiod] at hle
    exact Int.ofNat_le.1 hle
  rcases findDivider_spec hperiod with ⟨code', div, hfind, hset'⟩ | ⟨-, hnone⟩
  · rcases hset.unique hset' with ⟨rfl, rfl⟩
    rcases @config_some a20 ch dutyNs periodNs s code div hfind hready with
      ⟨hzero, hprd, v, gate, hgate, hctrl⟩
    rcases fields_periodWord hset.fits hduty hle' with ⟨hperiodField, hdutyField⟩
    refine ⟨hzero, prescalerField_eq hset.code_lt hgate hctrl, ?_, ?_⟩
    · rw [periodField, hprd, hperiodField]
    · rw [dutyField, hprd, hdutyField]
  · exact absurd hset (hnone code count)

/-- The duty fits its field, unless it is all of 65536 ticks. -/
theorem duty_lt {count : ℕ} (hset : Setting periodNs.toNat code count) (hduty : 0 ≤ dutyNs.toInt)
    (hle : dutyNs.toInt ≤ periodNs.toInt) (h : ¬ (dutyNs = periodNs ∧ FullScale periodNs.toNat)) :
    count * dutyNs.toNat / periodNs.toNat < 2 ^ 16 := by
  have hperiod := hduty.trans hle
  have hsmall := (toNat_signExtend hperiod).2
  rw [toInt_eq_toNat hduty, toInt_eq_toNat hperiod] at hle
  have hle' : dutyNs.toNat ≤ periodNs.toNat := Int.ofNat_le.1 hle
  refine Nat.div_lt_of_lt_mul ?_
  rcases Nat.lt_or_eq_of_le hset.fits.2 with hlt | hfull
  · calc count * dutyNs.toNat ≤ count * periodNs.toNat := Nat.mul_le_mul_left _ hle'
      _ < 2 ^ 16 * periodNs.toNat := Nat.mul_lt_mul_of_pos_right hlt hset.period_pos
      _ = periodNs.toNat * 2 ^ 16 := Nat.mul_comm _ _
  · subst hfull
    have hfullScale := (setting_fullScale_iff hsmall).1 ⟨code, hset⟩
    have hne : dutyNs.toNat ≠ periodNs.toNat := fun heq => h ⟨BitVec.eq_of_toNat_eq heq, hfullScale⟩
    rw [Nat.mul_comm]
    exact Nat.mul_lt_mul_of_pos_right (lt_of_le_of_ne hle' hne) (by decide)

/-- The part of the period that the output is on. -/
def dutyRatio (ch : Fin 2) (s : World) : ℚ := dutyField ch s / (periodField ch s + 1 : ℕ)

/-- What a call is to do for a duty within its period. -/
structure Exact (ch : Fin 2) (dutyNs periodNs : U32) (s : World) : Prop where
  einval : (config a20 ch dutyNs periodNs s).1 = -EINVAL ↔
    ¬ Fits (bypassCount periodNs.toNat) ∧ ∀ code, ¬ Usable periodNs.toNat code
  divisor : ∀ found, findDivider a20 periodNs = some found → periodNs ≠ 0
  fields : ∀ code count, Setting periodNs.toNat code count →
    (config a20 ch dutyNs periodNs s).1 = 0 ∧
      prescalerField ch (config a20 ch dutyNs periodNs s).2 = code ∧
      periodField ch (config a20 ch dutyNs periodNs s).2 = count - 1 ∧
      dutyField ch (config a20 ch dutyNs periodNs s).2 = count * dutyNs.toNat / periodNs.toNat
  mono : ∀ dutyNs' : U32, 0 ≤ dutyNs'.toInt → dutyNs'.toInt ≤ dutyNs.toInt →
    dutyRatio ch (config a20 ch dutyNs' periodNs s).2 ≤
      dutyRatio ch (config a20 ch dutyNs periodNs s).2
  none : ∀ code count, Setting periodNs.toNat code count → dutyNs = 0 →
    dutyRatio ch (config a20 ch dutyNs periodNs s).2 = 0
  full : ∀ code count, Setting periodNs.toNat code count → dutyNs = periodNs →
    dutyRatio ch (config a20 ch dutyNs periodNs s).2 = 1

/-- Without a setting the call fails and leaves the registers as they are. -/
theorem config_einval (hperiod : 0 ≤ periodNs.toInt)
    (hnone : ∀ code count, ¬ Setting periodNs.toNat code count) :
    config a20 ch dutyNs periodNs s = (-EINVAL, s) := by
  rcases findDivider_spec hperiod with ⟨code, div, -, hset⟩ | ⟨hfind, -⟩
  · exact absurd hset (hnone code _)
  · exact config_none hfind

theorem dutyRatio_eq {count : ℕ} (hset : Setting periodNs.toNat code count)
    (hready : s.reg PWM_CTRL_REG &&& PWM_RDY ch = 0) (hduty : 0 ≤ dutyNs.toInt)
    (hle : dutyNs.toInt ≤ periodNs.toInt) (h : ¬ (dutyNs = periodNs ∧ FullScale periodNs.toNat)) :
    dutyRatio ch (config a20 ch dutyNs periodNs s).2 =
      ((count * dutyNs.toNat / periodNs.toNat : ℕ) : ℚ) / (count : ℕ) := by
  rcases config_fields hset hready hduty hle with ⟨-, -, hperiodField, hdutyField⟩
  rw [dutyRatio, hperiodField, hdutyField, Nat.mod_eq_of_lt (duty_lt hset hduty hle h),
    Nat.sub_add_cancel hset.fits.1]

theorem exact_of_not_full (hready : s.reg PWM_CTRL_REG &&& PWM_RDY ch = 0)
    (hduty : 0 ≤ dutyNs.toInt) (hle : dutyNs.toInt ≤ periodNs.toInt)
    (h : ¬ (dutyNs = periodNs ∧ FullScale periodNs.toNat)) : Exact ch dutyNs periodNs s where
  einval := by
    have hexists := exists_setting_iff periodNs.toNat
    constructor
    · intro hret
      by_contra hsome
      rw [not_and_or, not_not, not_forall_not] at hsome
      rcases hexists.2 hsome with ⟨code, count, hset⟩
      rw [(config_fields hset hready hduty hle).1] at hret
      exact absurd hret (by decide)
    · rintro ⟨hbypass, hnone⟩
      rw [config_einval (hduty.trans hle)]
      intro code count hset
      rcases hexists.1 ⟨code, count, hset⟩ with hfits | ⟨code', hcode'⟩
      · exact hbypass hfits
      · exact hnone code' hcode'
  divisor := by
    rintro found hfind rfl
    rcases findDivider_spec (hduty.trans hle) with ⟨code, div, -, hset⟩ | ⟨hfind', -⟩
    · exact absurd hset.period_pos (by decide)
    · rw [hfind'] at hfind
      cases hfind
  fields code count hset := by
    rcases config_fields hset hready hduty hle with ⟨hzero, hcode, hperiodField, hdutyField⟩
    rw [Nat.mod_eq_of_lt (duty_lt hset hduty hle h)] at hdutyField
    exact ⟨hzero, hcode, hperiodField, hdutyField⟩
  mono dutyNs' hduty' hle' := by
    by_cases hset : ∃ code count, Setting periodNs.toNat code count
    -- With a setting both ratios are quotients by one count.
    · rcases hset with ⟨code, count, hset⟩
      have h' : ¬ (dutyNs' = periodNs ∧ FullScale periodNs.toNat) := by
        rintro ⟨rfl, hfull⟩
        exact h ⟨BitVec.eq_of_toInt_eq (le_antisymm hle hle'), hfull⟩
      have hnat : dutyNs'.toNat ≤ dutyNs.toNat := by
        rw [toInt_eq_toNat hduty, toInt_eq_toNat hduty'] at hle'
        exact Int.ofNat_le.1 hle'
      rw [dutyRatio_eq hset hready hduty hle h, dutyRatio_eq hset hready hduty' (hle'.trans hle) h']
      refine div_le_div_of_nonneg_right (Nat.cast_le.2 ?_) (Nat.cast_nonneg _)
      exact Nat.div_le_div_right (Nat.mul_le_mul_left count hnat)
    · have hnone : ∀ code count, ¬ Setting periodNs.toNat code count :=
        fun code count hset' => hset ⟨code, count, hset'⟩
      rw [config_einval (hduty.trans hle) hnone, config_einval (hduty.trans hle) hnone]
  none := by
    rintro code count hset rfl
    rw [dutyRatio_eq hset hready hduty hle h]
    have hzero : (0 : U32).toNat = 0 := rfl
    rw [hzero, Nat.mul_zero, Nat.zero_div, Nat.cast_zero, zero_div]
  full := by
    rintro code count hset rfl
    rw [dutyRatio_eq hset hready hduty hle h, Nat.mul_div_cancel _ hset.period_pos]
    exact div_self (Nat.cast_ne_zero.2 (Nat.ne_of_gt hset.fits.1))

theorem not_exact_of_full (hset : Setting periodNs.toNat code 65536) :
    ¬ Exact ch periodNs periodNs s := by
  intro hexact
  rcases hexact.fields code 65536 hset with ⟨-, -, -, hdutyField⟩
  -- 65536 is more than the field can hold.
  rw [Nat.mul_div_cancel _ hset.period_pos] at hdutyField
  have hlt : dutyField ch (config a20 ch periodNs periodNs s).2 < 2 ^ 16 :=
    getField_lt _ (by decide)
  rw [hdutyField] at hlt
  exact absurd hlt (by decide)

/-- The 24 MHz clock, a channel that is ready, and a duty within the period: the call does what it is
to do, unless the duty is the period and the period counts 65536 ticks. -/
theorem config_exact_iff (ch : Fin 2) {dutyNs periodNs : U32} {s : World}
    (hready : s.reg PWM_CTRL_REG &&& PWM_RDY ch = 0) (hduty : 0 ≤ dutyNs.toInt)
    (hle : dutyNs.toInt ≤ periodNs.toInt) :
    Exact ch dutyNs periodNs s ↔ ¬ (dutyNs = periodNs ∧ FullScale periodNs.toNat) := by
  refine ⟨?_, exact_of_not_full hready hduty hle⟩
  rintro hexact ⟨rfl, hfull⟩
  rcases (setting_fullScale_iff (toNat_signExtend hduty).2).2 hfull with ⟨code, hset⟩
  exact not_exact_of_full hset hexact

/-- Registers that have not been written. -/
def clear : World := ⟨fun _ => 0, []⟩

/-- Half of 2 ms. -/
theorem config_exact_half : Exact 0 1000000 2000000 clear :=
  (config_exact_iff 0 (by decide) (by decide) (by decide)).2 (by decide)

theorem setting_2730667 : Setting 2730667 15 65536 := by
  have hcount : bypassCount 2730667 = 65536 := rfl
  rw [← hcount]
  refine .bypass ?_
  rw [hcount]
  exact ⟨by decide, le_refl _⟩

/-- A duty of all of 2730667 ns is programmed as none. -/
theorem config_full_lost :
    ¬ Exact 0 2730667 2730667 clear ∧ Setting 2730667 15 65536 ∧
      dutyField 0 (config a20 0 2730667 2730667 clear).2 = 0 := by
  have hset : Setting (2730667 : U32).toNat 15 65536 := setting_2730667
  rcases @config_fields 0 2730667 2730667 clear 15 65536 hset (by decide) (by decide)
    (le_refl _) with ⟨-, -, -, hdutyField⟩
  rw [Nat.mul_div_cancel _ hset.period_pos] at hdutyField
  exact ⟨not_exact_of_full hset, setting_2730667, hdutyField⟩

end Pwm

end BspV3s
