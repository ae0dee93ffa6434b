import BspV3s.Lib.Bits
import BspV3s.Lib.Division
import BspV3s.Mmc.Clock

/-!
# ModClk — the card clock that is programmed

`mmc_set_mod_clk` divides the parent's rate by `2 ^ N * M`.  It takes the quotient of the two rates,
rounded up, and halves it, rounding up, until it fits into `M`.  Iterated rounding up is rounding up
once, so what it finds is the least divider there is that does not exceed the request.

* `halve_spec`       : the halving loop as a least power;
* `mod_clk_fastest`  : when the clock can be set, and that no admissible setting is faster.
-/

namespace BspV3s

namespace Mmc

open Prog

/-! ## Settings -/

variable (env : (o : Op) → Op.Ret o)

/-- The rate of the parent that is chosen for `hz`. -/
def parentHz (hz : U32) : U32 :=
  if hz ≤ 24000000 then 24000000 else pll6Hz (env (.readl .pll6Cfg))

def parentSel (hz : U32) : U32 :=
  if hz ≤ 24000000 then CCM_MMC_CTRL_OSCM24 else CCM_MMC_CTRL_PLL6

/-- The word that is stored for the divider `2 ^ n * m`. -/
def modClkReg (pll hz n m : U32) : U32 :=
  CCM_MMC_CTRL_ENABLE ||| pll ||| CCM_MMC_CTRL_SCLK_DLY (delays hz).2 ||| CCM_MMC_CTRL_N n |||
    CCM_MMC_CTRL_OCLK_DLY (delays hz).1 ||| CCM_MMC_CTRL_M m

/-- The card clock behind a divider. -/
def cardRate (pllHz : U32) (n m : ℕ) : ℚ :=
  pllHz.toNat / ((2 ^ n * m : ℕ) : ℚ)

/-- What a trace stores into the module clock register. -/
def mclkWrites (ev : List Event) : List U32 :=
  ev.filterMap fun e => match e.op with
    | .writel .mclkreg v => some v
    | _ => none

/-- `word` holds `n` and `m` as they are, and of all admissible settings they make the card clock the
fastest that `hz` allows. -/
structure FastestSetting (pllHz hz word n m : U32) : Prop where
  n_le : n ≤ 3
  m_pos : 1 ≤ m
  m_le : m ≤ 16
  n_field : getField word 16 2 = n
  m_field : getField word 0 4 = m - 1
  rate_le : cardRate pllHz n.toNat m.toNat ≤ hz.toNat
  best : ∀ n' m' : ℕ, n' ≤ 3 → 1 ≤ m' → m' ≤ 16 →
    ¬ (cardRate pllHz n.toNat m.toNat < cardRate pllHz n' m' ∧ cardRate pllHz n' m' ≤ hz.toNat)

/-! ## The halving loop -/

/-- One round: half of the divider, rounded up. -/
theorem toNat_half {div : U32} (hwrap : div.toNat + 1 < 2 ^ 32) :
    ((div + 1) / 2).toNat = div.toNat ⌈/⌉ 2 := by
  rw [BitVec.toNat_udiv, BitVec.toNat_add_of_lt hwrap]
  rfl

theorem halve_spec {fuel : ℕ} (n : U32) {div : U32} (hfuel : div.toNat ≤ 16 <<< fuel)
    (hwrap : div.toNat + 1 < 2 ^ 32) :
    ∃ k ≤ fuel, LeastPower 2 16 div.toNat k ∧ (halve fuel n div).1 = n + BitVec.ofNat 32 k ∧
      (halve fuel n div).2.toNat = div.toNat ⌈/⌉ 2 ^ k := by
  have hnone : ∀ d : ℕ, d = d ⌈/⌉ 2 ^ 0 := by
    intro d
    rw [Nat.pow_zero, ceilDiv_one]
  -- Rounding up by halves is rounding up once, by the power of all of them.
  induction fuel generalizing n div with
  | zero => exact ⟨0, le_refl 0, .zero hfuel, (BitVec.add_zero n).symm, hnone _⟩
  | succ fuel ih =>
      unfold halve
      split
      · next hgt =>
          have hhalf := toNat_half hwrap
          have hle : div.toNat ⌈/⌉ 2 ≤ 16 <<< fuel := by
            rw [Nat.shiftLeft_succ] at hfuel
            exact (ceilDiv_le_iff_le_mul Nat.two_pos).2 hfuel
          have hsmall : div.toNat ⌈/⌉ 2 ≤ div.toNat :=
            (ceilDiv_le_iff_le_mul Nat.two_pos).2 (Nat.le_mul_of_pos_left _ Nat.two_pos)
          rw [← hhalf] at hle hsmall
          rcases ih (n + 1) hle (by omega) with ⟨k, hk, hleast, hn, hdiv⟩
          have hsucc : 1 + BitVec.ofNat 32 k = BitVec.ofNat 32 (k + 1) := by
            rw [BitVec.add_comm]
            exact (BitVec.ofNat_add k 1).symm
          rw [hhalf] at hleast hdiv
          refine ⟨k + 1, Nat.succ_le_succ hk, hleast.succ Nat.two_pos hgt, ?_, ?_⟩
          · rw [hn, BitVec.add_assoc, hsucc]
          · rw [hdiv, ceilDiv_ceilDiv Nat.two_pos (Nat.two_pow_pos k), ← Nat.pow_succ']
      · next hle =>
          exact ⟨0, Nat.zero_le _, .zero (BitVec.not_lt.1 hle), (BitVec.add_zero n).symm, hnone _⟩

/-! ## What is stored -/

/-- `div` before the loop. -/
def divider (pllHz hz : U32) : U32 :=
  if pllHz % hz ≠ 0 then pllHz / hz + 1 else pllHz / hz

theorem modClkWord_eq (pll pllHz hz : U32) :
    modClkWord pll pllHz hz =
      if (halve 32 0 (divider pllHz hz)).1 > 3 then none
      else some (modClkReg pll hz (halve 32 0 (divider pllHz hz)).1
        (halve 32 0 (divider pllHz hz)).2) :=
  rfl

theorem toNat_divider {pllHz hz : U32} (hhz : 0 < hz.toNat)
    (hwrap : pllHz.toNat ⌈/⌉ hz.toNat < 2 ^ 32) :
    (divider pllHz hz).toNat = pllHz.toNat ⌈/⌉ hz.toNat := by
  have hrem : pllHz % hz ≠ 0 ↔ pllHz.toNat % hz.toNat ≠ 0 := by
    rw [Ne, ← BitVec.toNat_inj, BitVec.toNat_umod]
    rfl
  rw [← div_add_ite _ hhz] at hwrap ⊢
  unfold divider
  by_cases h : pllHz.toNat % hz.toNat ≠ 0
  · rw [if_pos h] at hwrap ⊢
    rw [if_pos (hrem.2 h), BitVec.toNat_add_of_lt] <;> rw [BitVec.toNat_udiv]
    · rfl
    · exact hwrap
  · rw [if_neg h, if_neg (mt hrem.1 h), BitVec.toNat_udiv]

/-- The factors that are found, and that they are stored if there are at most three halvings. -/
theorem modClkWord_spec (pll : U32) {pllHz hz : U32} (hhz : 0 < hz.toNat)
    (hwrap : pllHz.toNat ⌈/⌉ hz.toNat + 1 < 2 ^ 32) :
    ∃ n m : U32, LeastPower 2 16 (pllHz.toNat ⌈/⌉ hz.toNat) n.toNat ∧
      m.toNat = pllHz.toNat ⌈/⌉ hz.toNat ⌈/⌉ 2 ^ n.toNat ∧
      modClkWord pll pllHz hz = if n > 3 then none else some (modClkReg pll hz n m) := by
  have hdiv := toNat_divider hhz (Nat.lt_of_succ_lt hwrap)
  have hfuel : pllHz.toNat ⌈/⌉ hz.toNat ≤ 16 <<< 32 := by
    have hbig : 2 ^ 32 ≤ 16 <<< 32 := by decide
    omega
  rw [← hdiv] at hfuel hwrap ⊢
  rcases halve_spec 0 hfuel hwrap with ⟨k, hk, hleast, hn, hm⟩
  have hkn : (halve 32 0 (divider pllHz hz)).1.toNat = k := by
    rw [hn, BitVec.toNat_add, BitVec.toNat_ofNat]
    change (0 + k % 2 ^ 32) % 2 ^ 32 = k
    omega
  refine ⟨(halve 32 0 (divider pllHz hz)).1, (halve 32 0 (divider pllHz hz)).2, ?_, ?_,
    modClkWord_eq pll pllHz hz⟩
  · rw [hkn]
    exact hleast
  · rw [hkn, hm]

/-! ## The fields of the word -/

theorem delays_lt (hz : U32) : (delays hz).1.toNat < 2 ^ 3 ∧ (delays hz).2.toNat < 2 ^ 3 := by
  unfold delays
  repeat' split
  all_goals decide

theorem parentSel_eq (hz : U32) : ∃ sel, parentSel hz = setField sel 24 2 := by
  unfold parentSel
  split
  · exact ⟨0, by decide⟩
  · exact ⟨1, by decide⟩

/-- Neither factor is cut off by its field, nor hidden by another one. -/
theorem getField_modClkReg (hz : U32) {n m : U32} (hn : n ≤ 3) (hm : 1 ≤ m) (hm' : m ≤ 16) :
    getField (modClkReg (parentSel hz) hz n m) 16 2 = n ∧
      getField (modClkReg (parentSel hz) hz n m) 0 4 = m - 1 := by
  have hn : n.toNat < 2 ^ 2 := Nat.lt_succ_of_le hn
  have hm : (m - 1).toNat < 2 ^ 4 := by
    have hlow : 1 ≤ m.toNat := hm
    have hhigh : m.toNat ≤ 16 := hm'
    rw [BitVec.toNat_sub_of_le hm]
    exact Nat.sub_lt_right_of_lt_add hlow (Nat.lt_succ_of_le hhigh)
  rcases parentSel_eq hz with ⟨sel, hsel⟩
  have hword : modClkReg (parentSel hz) hz n m =
      setField 1 31 1 ||| setField sel 24 2 ||| setField (delays hz).2 20 3 ||| setField n 16 2 |||
        setField (delays hz).1 8 3 ||| setField (m - 1) 0 4 := by
    have henable : CCM_MMC_CTRL_ENABLE = setField 1 31 1 := by decide
    have hfactor : CCM_MMC_CTRL_M m = (m - 1) <<< 0 := (BitVec.shiftLeft_zero _).symm
    rw [modClkReg, henable, hsel, hfactor, setField_of_lt hn, setField_of_lt (delays_lt hz).1,
      setField_of_lt (delays_lt hz).2, setField_of_lt hm]
    rfl
  rw [hword]
  simp (disch := decide) only [getField_or, getField_setField_of_disjoint, BitVec.zero_or,
    BitVec.or_zero]
  constructor <;> apply BitVec.eq_of_toNat_eq <;> rw [getField_setField_self _ (by decide)]
  · exact Nat.mod_eq_of_lt hn
  · exact Nat.mod_eq_of_lt hm

theorem cardRate_le_iff {pllHz hz : U32} (hhz : 0 < hz.toNat) {n m : ℕ} (hm : 1 ≤ m) :
    cardRate pllHz n m ≤ hz.toNat ↔ pllHz.toNat ⌈/⌉ hz.toNat ≤ 2 ^ n * m := by
  have hpos : (0 : ℚ) < ((2 ^ n * m : ℕ) : ℚ) := Nat.cast_pos.2 (Nat.mul_pos (Nat.two_pow_pos n) hm)
  rw [cardRate, div_le_iff₀ hpos, ceilDiv_le_iff_le_mul hhz]
  exact_mod_cast Iff.rfl

theorem cardRate_lt_iff {pllHz : U32} (hpll : 0 < pllHz.toNat) {n m n' m' : ℕ} (hm : 1 ≤ m)
    (hm' : 1 ≤ m') : cardRate pllHz n m < cardRate pllHz n' m' ↔ 2 ^ n' * m' < 2 ^ n * m := by
  have hpos : ∀ n m : ℕ, 1 ≤ m → (0 : ℚ) < ((2 ^ n * m : ℕ) : ℚ) :=
    fun n _ hm => Nat.cast_pos.2 (Nat.mul_pos (Nat.two_pow_pos n) hm)
  rw [cardRate, cardRate, div_lt_div_iff_of_pos_left (Nat.cast_pos.2 hpll) (hpos n m hm)
    (hpos n' m' hm'), Nat.cast_lt]

/-! ## Every call -/

/-- The end of a call, with the word that was found. -/
def storeModClk : Option U32 → MmcM Int
  | none => pure (-1)
  | some v => do
      writel .mclkreg v
      pure 0

theorem storeModClk_run (w : Option U32) :
    (storeModClk w).eval env = (if w.isSome then 0 else -1) ∧
      mclkWrites ((storeModClk w).trace env) = w.toList := by
  cases w <;> exact ⟨rfl, rfl⟩

/-- A call stores the word that was found and nothing else, and reports whether there was one. -/
theorem mmcSetModClk_run (hz : U32) :
    (mmcSetModClk hz).eval env =
        (if (modClkWord (parentSel hz) (parentHz env hz) hz).isSome then 0 else -1) ∧
      mclkWrites ((mmcSetModClk hz).trace env) =
        (modClkWord (parentSel hz) (parentHz env hz) hz).toList := by
  have hcall : mmcSetModClk hz = (if hz ≤ 24000000 then
      pure (CCM_MMC_CTRL_OSCM24, 24000000)
    else do
      let pllHz ← clockGetPll6
      pure (CCM_MMC_CTRL_PLL6, pllHz) : MmcM (U32 × U32)) >>=
        fun p => storeModClk (modClkWord p.1 p.2 hz) := by
    refine bind_congr ?_
    rintro ⟨pll, pllHz⟩
    rfl
  rw [hcall, parentSel, parentHz]
  by_cases h : hz ≤ 24000000
  · rw [if_pos h, if_pos h, if_pos h, pure_bind]
    exact storeModClk_run env _
  · rw [if_neg h, if_neg h, if_neg h]
    exact storeModClk_run env _

/-- Neither parent is so fast that the divider comes around. -/
theorem divider_lt {hz : U32} (hhz : 0 < hz) :
    (parentHz env hz).toNat ⌈/⌉ hz.toNat + 1 < 2 ^ 32 := by
  have hpos : 0 < hz.toNat := hhz
  have hle : (parentHz env hz).toNat ⌈/⌉ hz.toNat ≤ 24000000 := by
    rw [ceilDiv_le_iff_le_mul hpos]
    unfold parentHz
    split
    · exact Nat.le_mul_of_pos_left _ hpos
    · next hfast =>
        have hfast : 24000000 < hz.toNat := BitVec.not_le.1 hfast
        calc (pll6Hz (env (.readl .pll6Cfg))).toNat ≤ 24000000 * 24000000 := by
              have hlt := (pll6Hz (env (.readl .pll6Cfg))).isLt
              omega
          _ ≤ hz.toNat * 24000000 := Nat.mul_le_mul_right _ hfast.le
  omega

/-- For every rate and every setting of PLL6: the clock is set exactly where a divider of up to 128 is
enough, to the fastest rate that any setting reaches without exceeding the request; otherwise its
register is not written. -/
theorem mod_clk_fastest (hz : U32) (hhz : 0 < hz) (hpll : 0 < parentHz env hz) :
    ((mmcSetModClk hz).eval env = 0 ↔
      ⌈((parentHz env hz).toNat : ℚ) / hz.toNat⌉₊ ≤ 128) ∧
    ((mmcSetModClk hz).eval env = 0 → ∃ n m : U32,
      mclkWrites ((mmcSetModClk hz).trace env) = [modClkReg (parentSel hz) hz n m] ∧
        FastestSetting (parentHz env hz) hz (modClkReg (parentSel hz) hz n m) n m) ∧
    ((mmcSetModClk hz).eval env ≠ 0 → mclkWrites ((mmcSetModClk hz).trace env) = []) := by
  have hpos : 0 < hz.toNat := hhz
  rcases modClkWord_spec (parentSel hz) hpos (divider_lt env hhz) with ⟨n, m, hleast, hm, hword⟩
  rcases mmcSetModClk_run env hz with ⟨heval, hwrites⟩
  rw [heval, hwrites, hword, natCeil_div _ hpos]
  have hiff : n.toNat ≤ 3 ↔ (parentHz env hz).toNat ⌈/⌉ hz.toNat ≤ 128 := hleast.le_iff Nat.two_pos
  by_cases hn : n > 3
  · rw [if_pos hn, ← hiff]
    exact ⟨⟨fun h => absurd h (by decide), fun h => absurd hn (Nat.not_lt.2 h)⟩,
      fun h => absurd h (by decide), fun _ => rfl⟩
  · have hle : n ≤ 3 := BitVec.not_lt.1 hn
    have hmpos : 1 ≤ m.toNat := by
      rw [hm]
      exact ceilDiv_pos (Nat.two_pow_pos _) (ceilDiv_pos hpos hpll)
    have hmle : m.toNat ≤ 16 := hm ▸ hleast.fits
    rcases getField_modClkReg hz hle hmpos hmle with ⟨hnfield, hmfield⟩
    rw [if_neg hn, ← hiff]
    refine ⟨⟨fun _ => hle, fun _ => rfl⟩, fun _ => ⟨n, m, rfl, ?_⟩, fun h => absurd rfl h⟩
    refine ⟨hle, hmpos, hmle, hnfield, hmfield, ?_, ?_⟩
    · rw [cardRate_le_iff hpos hmpos, hm]
      exact le_smul_ceilDiv (Nat.two_pow_pos _)
    · -- A faster setting has a smaller divider, and one that does not exceed the request is not smaller.
      rintro n' m' - hm' hm'' ⟨hfaster, hallowed⟩
      rw [cardRate_lt_iff hpll hmpos hm', hm] at hfaster
      rw [cardRate_le_iff hpos hm'] at hallowed
      exact absurd (hleast.best Nat.two_pos hm'' hallowed) (Nat.not_le.2 hfaster)

/-- PLL6 at 600 MHz. -/
def pll600 : (o : Op) → Op.Ret o
  | .readl _ => 0x1810
  | .load _ => 0
  | .writel _ _ => ()
  | .store _ _ => ()
  | .setResponse _ _ => ()
  | .udelay _ => ()
  | .setReqErr _ _ => ()
  | .copyResponse _ => ()
  | .setErr _ => ()
  | .reqComplete => ()

theorem mod_clk_fastest_50MHz : ∃ n m : U32,
    mclkWrites ((mmcSetModClk 50000000).trace pll600) =
        [modClkReg (parentSel 50000000) 50000000 n m] ∧
      FastestSetting 600000000 50000000 (modClkReg (parentSel 50000000) 50000000 n m) n m :=
  (mod_clk_fastest pll600 50000000 (by decide) (by decide)).2.1 (by decide)

end Mmc

end BspV3s
