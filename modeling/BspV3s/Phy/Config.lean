import BspV3s.Lib.Bits
import BspV3s.Phy.Clause22
import BspV3s.Mii.Mdio

/-!
# Config — auto-negotiation is configured

`genphy_config` finds out what a PHY can do, has it advertise what the PHY and the library both support,
and restarts the negotiation when that changes anything.

* `runs_genphyConfig`     : what a run of it makes of the device and of the settings of its PHY;
* `Configured`            : what that means for the modes of the link;
* `configured_again`      : settings that have been made are made again by leaving them;
* `genphy_config_by_mac`  : all of it, through the registers of the MAC.
-/

namespace BspV3s

namespace Phy

open Mii (U16 U32 BusM)
open Emac (testBits)

/-! ## Bits -/

section Bits

theorem testBits_shiftLeft (v : U32) (i : ℕ) (hi : i < 32) :
    testBits v (1#32 <<< i) = v.getLsbD i := by
  unfold testBits
  rw [← BitVec.twoPow_eq, BitVec.and_twoPow]
  cases hbit : v.getLsbD i with
  | false => simp
  | true =>
      rw [decide_eq_true_iff]
      intro h
      have hi' := congrArg (BitVec.getLsbD · i) h
      simp [hi] at hi'

theorem testBits_or (v mask mask' : U32) :
    testBits v (mask ||| mask') = (testBits v mask || testBits v mask') := by
  unfold testBits
  rw [BitVec.and_or_distrib_left, Bool.eq_iff_iff]
  simp only [BitVec.ofNat_eq_ofNat, ne_eq, BitVec.or_eq_zero_iff, not_and_or, Bool.or_eq_true,
    decide_eq_true_eq]

theorem getLsbD_orIf (v mask bits w : U32) (i : ℕ) :
    (orIf v mask bits w).getLsbD i = (w.getLsbD i || (testBits v mask && bits.getLsbD i)) := by
  unfold orIf
  cases testBits v mask with
  | false => simp only [if_neg Bool.false_ne_true, Bool.false_and, Bool.or_false]
  | true => simp only [if_true, BitVec.getLsbD_or, Bool.true_and]

theorem agreeOff_orIf {v m bits w x mask : U32} (h : AgreeOff mask w x)
    (hbits : bits &&& ~~~mask = 0) : AgreeOff mask (orIf v m bits w) x := by
  unfold orIf
  split
  · exact (AgreeOff.or_of_subset w hbits).trans h |>.mono (by simp)
  · exact h

/-- What a PHY register holds is no error. -/
theorem not_slt_setWidth (v : U16) : (v.setWidth 32).slt 0 = false := by
  rw [BitVec.ofNat_eq_ofNat, BitVec.slt_zero_eq_msb, BitVec.msb_setWidth]
  simp

theorem setWidth_setWidth (v : U16) : (v.setWidth 32).setWidth 16 = v := by
  rw [BitVec.setWidth_setWidth_of_le _ (by decide), BitVec.setWidth_eq]

theorem and_ne_zero_of_getLsbD {v mask : U16} {i : ℕ} (hv : v.getLsbD i = true)
    (hmask : mask.getLsbD i = true) : v &&& mask ≠ 0 := by
  intro h
  have hbit := congrArg (BitVec.getLsbD · i) h
  simp only [BitVec.getLsbD_and, hv, hmask, Bool.and_self] at hbit
  exact absurd hbit (by simp)

theorem setWidth_inj {v w : U16} : v.setWidth 32 = w.setWidth 32 ↔ v = w := by
  constructor
  · intro h
    rw [← setWidth_setWidth v, h, setWidth_setWidth]
  · rintro rfl
    rfl

/-- A word that differs from a register in the low half only fits the register. -/
theorem setWidth_of_agreeOff {mask w : U32} {v : U16} (h : AgreeOff mask w (v.setWidth 32))
    (hmask : mask &&& ~~~0xffff#32 = 0) : (w.setWidth 16).setWidth 32 = w := by
  have hhalf : (0xffff#32) = (BitVec.allOnes 16).setWidth 32 := rfl
  apply BitVec.eq_of_getLsbD_eq
  intro i hi
  rw [BitVec.getLsbD_setWidth, BitVec.getLsbD_setWidth]
  by_cases hlow : i < 16
  · simp only [hi, hlow, decide_true, Bool.true_and]
  · have hhigh := congrArg (BitVec.getLsbD · i) (h.mono hmask)
    simp only [hhalf, BitVec.getLsbD_and, BitVec.getLsbD_not, BitVec.getLsbD_setWidth,
      BitVec.getLsbD_of_ge _ i (Nat.not_lt.1 hlow), hi, decide_true, Bool.and_false, Bool.not_false,
      Bool.and_true] at hhigh
    rw [hhigh]
    simp only [hlow, decide_false, Bool.and_false]

end Bits

/-! ## The pages -/

section Pages

variable (advertise supported adv : U32)

theorem agreeOff_standardAdv : AgreeOff ADVERTISE_MASK (standardAdv advertise adv) adv := by
  refine agreeOff_orIf (agreeOff_orIf (agreeOff_orIf (agreeOff_orIf (agreeOff_orIf (agreeOff_orIf
    (agreeOff_orIf (agreeOff_orIf (AgreeOff.and_not _ _) ?_) ?_) ?_) ?_) ?_) ?_) ?_) ?_ <;> decide

theorem agreeOff_gigabitAdv :
    AgreeOff (ADVERTISE_1000FULL ||| ADVERTISE_1000HALF) (gigabitAdv supported advertise adv) adv := by
  unfold gigabitAdv
  simp only
  split
  · exact agreeOff_orIf (agreeOff_orIf (AgreeOff.and_not _ _) (by decide)) (by decide)
  · exact AgreeOff.and_not _ _

end Pages

/-! ## Runs -/

namespace Settings

/-- `BMSR_ESTATEN`. -/
def extended (s : Settings) : Bool := testBits (s.abilities.setWidth 32) BMSR_ESTATEN

/-- The settings with the pages that `d` has its PHY advertise. -/
def advertised (d : PhyDevice) (s : Settings) : Settings :=
  { s with
    advertise := (standardAdv d.advertising (s.advertise.setWidth 32)).setWidth 16
    ctrl1000 :=
      if s.extended then
        (gigabitAdv d.supported d.advertising (s.ctrl1000.setWidth 32)).setWidth 16
      else s.ctrl1000 }

theorem advertised_eq_self_iff {d : PhyDevice} {s : Settings} :
    s.advertised d = s ↔
      (s.advertised d).advertise = s.advertise ∧ (s.advertised d).ctrl1000 = s.ctrl1000 := by
  constructor
  · intro h
    rw [h]
    exact ⟨rfl, rfl⟩
  · rintro ⟨hadv, hctrl⟩
    calc s.advertised d
        = { s with
            advertise := (s.advertised d).advertise
            ctrl1000 := (s.advertised d).ctrl1000 } := rfl
      _ = s := by rw [hadv, hctrl]

/-- `BMCR` as `genphy_restart_aneg` writes it. -/
def restartBmcr (bmcr : U16) : U16 :=
  ((bmcr.setWidth 32 ||| (BMCR_ANENABLE ||| BMCR_ANRESTART)) &&& ~~~BMCR_ISOLATE).setWidth 16

/-- The PHY negotiates and is not isolated. -/
def negotiates (s : Settings) : Bool :=
  testBits (s.bmcr.setWidth 32) BMCR_ANENABLE && !testBits (s.bmcr.setWidth 32) BMCR_ISOLATE

theorem getLsbD_restartBmcr (bmcr : U16) {i : ℕ} (hi : i < 16) :
    (restartBmcr bmcr).getLsbD i =
      ((bmcr.getLsbD i || decide (i = 9 ∨ i = 12)) && decide (i ≠ 10)) := by
  have hset : ∀ i < 16, (BMCR_ANENABLE ||| BMCR_ANRESTART).getLsbD i = decide (i = 9 ∨ i = 12) := by
    decide
  have hclear : ∀ i < 16, (~~~BMCR_ISOLATE).getLsbD i = decide (i ≠ 10) := by decide
  have hi' : i < 32 := by omega
  rw [restartBmcr, BitVec.getLsbD_setWidth, BitVec.getLsbD_and, BitVec.getLsbD_or,
    BitVec.getLsbD_setWidth, hset i hi, hclear i hi]
  simp only [hi, hi', decide_true, Bool.true_and]

/-- The settings of a PHY that has been made to negotiate again. -/
def restarted (s : Settings) : Settings :=
  { s with bmcr := restartBmcr s.bmcr &&& ~~~BMCR_ANRESTART.setWidth 16, restarts := s.restarts + 1 }

/-- The settings with the pages of `d`; the negotiation is restarted unless nothing has changed. -/
def configured (d : PhyDevice) (s : Settings) : Settings :=
  if s.advertised d = s ∧ s.negotiates then s else (s.advertised d).restarted

/-- What the PHY supports. -/
def features (s : Settings) : U32 :=
  if s.extended then
    extendedFeatures (s.estatus.setWidth 32) (standardFeatures (s.abilities.setWidth 32))
  else standardFeatures (s.abilities.setWidth 32)

end Settings

/-- A read of `BMSR` shows the abilities. -/
theorem testBits_abilities {s : Settings} {v : U16} (mask : U32) (hv : s.Shows MII_BMSR v)
    (hmask : BMSR_ABILITIES &&& mask = mask) :
    testBits (v.setWidth 32) mask = testBits (s.abilities.setWidth 32) mask := by
  have hbmsr : v &&& BMSR_ABILITIES.setWidth 16 = s.abilities := hv.2.2.2.2 rfl
  have hwide : (BMSR_ABILITIES.setWidth 16).setWidth 32 = BMSR_ABILITIES := rfl
  unfold testBits
  rw [← hbmsr, BitVec.setWidth_and, hwide, BitVec.and_assoc, hmask]

section Runs

variable {c : ℕ → Settings} {p p' : ℕ → Clause22} {d : PhyDevice} {s : Settings}

theorem runs_ret {α : Type} {a a' : α} (h : BusRuns (.ret a) p a' p') : a' = a ∧ p' = p := by
  cases h
  exact ⟨rfl, rfl⟩

theorem Holds.update_self (h : Holds c p) (hs : c d.addr = s) :
    Holds (Function.update c d.addr s) p := by
  rw [← hs, Function.update_eq_self]
  exact h

theorem runs_configStandard {r : Except U32 Bool} (h : Holds c p) (hs : c d.addr = s)
    (hrun : BusRuns (configStandard d) p r p') :
    r = .ok ((s.advertised d).advertise ≠ s.advertise) ∧
      Holds (Function.update c d.addr { s with advertise := (s.advertised d).advertise }) p' := by
  rcases runs_phyRead h hrun with ⟨v, p₁, hv, hp₁, hrun⟩
  rw [hs] at hv
  obtain rfl : v = s.advertise := hv.2.1 rfl
  simp only [not_slt_setWidth, if_neg Bool.false_ne_true] at hrun
  have hfits := setWidth_of_agreeOff (agreeOff_standardAdv d.advertising _) (v := s.advertise)
    (by decide)
  have hadv : (s.advertised d).advertise =
    (standardAdv d.advertising (s.advertise.setWidth 32)).setWidth 16 := rfl
  by_cases hsame : standardAdv d.advertising (s.advertise.setWidth 32) = s.advertise.setWidth 32
  · rw [hsame, setWidth_setWidth] at hadv
    rw [if_neg (not_not.2 hsame)] at hrun
    rcases runs_ret hrun with ⟨rfl, rfl⟩
    rw [hadv]
    exact ⟨by simp, hp₁.update_self hs⟩
  · have hchanged : (s.advertised d).advertise ≠ s.advertise := by
      intro heq
      rw [hadv] at heq
      rw [heq] at hfits
      exact hsame hfits.symm
    rw [if_pos hsame] at hrun
    rcases runs_phyWrite (by rintro ⟨⟩) hp₁ hrun with ⟨p₂, hp₂, hrun⟩
    rcases runs_ret hrun with ⟨rfl, rfl⟩
    rw [hs] at hp₂
    exact ⟨by simp [hchanged], hp₂⟩

theorem runs_configGigabit {r : Except U32 Bool} (h : Holds c p) (hs : c d.addr = s)
    (hrun : BusRuns (configGigabit d) p r p') :
    r = .ok ((s.advertised d).ctrl1000 ≠ s.ctrl1000) ∧
      Holds (Function.update c d.addr { s with ctrl1000 := (s.advertised d).ctrl1000 }) p' := by
  rcases runs_phyRead h hrun with ⟨v, p₁, hv, hp₁, hrun⟩
  rw [hs] at hv
  have hextended : testBits (v.setWidth 32) BMSR_ESTATEN = s.extended :=
    testBits_abilities BMSR_ESTATEN hv (by decide)
  simp only [not_slt_setWidth, if_neg Bool.false_ne_true, hextended] at hrun
  cases hext : s.extended with
  | false =>
      rw [hext] at hrun
      simp only [Bool.not_false, if_true] at hrun
      rcases runs_ret hrun with ⟨rfl, rfl⟩
      have hsame : (s.advertised d).ctrl1000 = s.ctrl1000 := by
        simp only [Settings.advertised, hext, if_neg Bool.false_ne_true]
      rw [hsame]
      exact ⟨by simp, hp₁.update_self hs⟩
  | true =>
      rw [hext] at hrun
      simp only [Bool.not_true, if_neg Bool.false_ne_true] at hrun
      rcases runs_phyRead hp₁ hrun with ⟨v, p₂, hv, hp₂, hrun⟩
      rw [hs] at hv
      obtain rfl : v = s.ctrl1000 := hv.2.2.1 rfl
      simp only [not_slt_setWidth, if_neg Bool.false_ne_true] at hrun
      rcases runs_phyWrite (by rintro ⟨⟩) hp₂ hrun with ⟨p₃, hp₃, hrun⟩
      rcases runs_ret hrun with ⟨rfl, rfl⟩
      have hctrl : (s.advertised d).ctrl1000 =
          (gigabitAdv d.supported d.advertising (s.ctrl1000.setWidth 32)).setWidth 16 := by
        simp only [Settings.advertised, hext, if_true]
      have hfits := setWidth_of_agreeOff (agreeOff_gigabitAdv d.advertising d.supported _)
        (v := s.ctrl1000) (by decide)
      rw [hs, ← hctrl] at hp₃
      refine ⟨?_, hp₃⟩
      have hdiff : (gigabitAdv d.supported d.advertising (s.ctrl1000.setWidth 32) ≠
          s.ctrl1000.setWidth 32) = ((s.advertised d).ctrl1000 ≠ s.ctrl1000) := by
        rw [← hfits, ← hctrl, ne_eq, setWidth_inj]
      simp only [hdiff]
      rfl

/-- Only what is supported is advertised. -/
def sanitized (d : PhyDevice) : PhyDevice :=
  { d with advertising := d.advertising &&& d.supported }

theorem runs_configPages {r : U32} (h : Holds c p) (hs : c d.addr = s)
    (hrun : BusRuns (configPages d) p r p') :
    r = (if s.advertised d = s then 0 else 1) ∧
      Holds (Function.update c d.addr (s.advertised d)) p' := by
  rcases Prog.runs_bind_inv hrun with ⟨r₁, p₁, hstandard, hrun⟩
  rcases runs_configStandard h hs hstandard with ⟨rfl, hp₁⟩
  rcases Prog.runs_bind_inv hrun with ⟨r₂, p₂, hgigabit, hrun⟩
  rcases runs_configGigabit hp₁ (Function.update_self _ _ _) hgigabit with ⟨rfl, hp₂⟩
  rcases runs_ret hrun with ⟨rfl, rfl⟩
  rw [Function.update_idem] at hp₂
  refine ⟨?_, hp₂⟩
  change (if decide ((s.advertised d).advertise ≠ s.advertise) ||
    decide ((s.advertised d).ctrl1000 ≠ s.ctrl1000) then (1 : U32) else 0) = _
  by_cases hadv : (s.advertised d).advertise = s.advertise
  · by_cases hctrl : (s.advertised d).ctrl1000 = s.ctrl1000
    · simp only [hadv, hctrl, Settings.advertised_eq_self_iff, and_self, ne_eq, not_true_eq_false,
        decide_false, Bool.or_false, if_neg Bool.false_ne_true, if_true]
    · simp only [hctrl, Settings.advertised_eq_self_iff, and_false, ne_eq, not_false_eq_true,
        decide_true, Bool.or_true, if_true, if_false]
  · simp only [hadv, Settings.advertised_eq_self_iff, false_and, ne_eq, not_false_eq_true,
      decide_true, Bool.true_or, if_true, if_false]

theorem runs_genphyConfigAdvert {r : U32 × PhyDevice} (h : Holds c p) (hs : c d.addr = s)
    (hrun : BusRuns (genphyConfigAdvert d) p r p') :
    r = (if s.advertised (sanitized d) = s then 0 else 1, sanitized d) ∧
      Holds (Function.update c d.addr (s.advertised (sanitized d))) p' := by
  rcases Prog.runs_bind_inv hrun with ⟨r₁, p₁, hpages, hrun⟩
  rcases runs_configPages (d := sanitized d) h hs hpages with ⟨rfl, hp₁⟩
  rcases runs_ret hrun with ⟨rfl, rfl⟩
  exact ⟨rfl, hp₁⟩

/-- The negotiation is restarted. -/
theorem runs_genphyRestartAneg {r : U32} (h : Holds c p) (hs : c d.addr = s)
    (hreset : s.bmcr.getLsbD 15 = false) (hrun : BusRuns (genphyRestartAneg d) p r p') :
    Holds (Function.update c d.addr s.restarted) p' := by
  rcases runs_phyRead h hrun with ⟨v, p₁, hv, hp₁, hrun⟩
  rw [hs] at hv
  obtain rfl : v = s.bmcr := hv.1 rfl
  simp only [not_slt_setWidth, if_neg Bool.false_ne_true] at hrun
  have hval : Settings.restartBmcr s.bmcr &&& BMCR_RESET.setWidth 16 = 0 := by
    have hbit : ∀ i < 16, (BMCR_RESET.setWidth 16).getLsbD i = decide (i = 15) := by decide
    apply BitVec.eq_of_getLsbD_eq
    intro i hi
    rw [BitVec.getLsbD_and, Settings.getLsbD_restartBmcr _ hi, hbit i hi]
    by_cases hi' : i = 15
    · rw [hi', hreset]
      rfl
    · rw [decide_eq_false hi', Bool.and_false, BitVec.ofNat_eq_ofNat, BitVec.getLsbD_zero]
  rw [← Prog.bind_ret (phyWrite _ _ _)] at hrun
  rcases runs_phyWrite (fun _ => hval) hp₁ hrun with ⟨p₂, hp₂, hrun⟩
  rcases runs_ret hrun with ⟨-, rfl⟩
  have hrestart : Settings.restartBmcr s.bmcr &&& BMCR_ANRESTART.setWidth 16 ≠ 0 := by
    refine and_ne_zero_of_getLsbD (i := 9) ?_ rfl
    rw [Settings.getLsbD_restartBmcr _ (by decide), decide_eq_true (by decide), Bool.or_true]
    rfl
  have henable : Settings.restartBmcr s.bmcr &&& BMCR_ANENABLE.setWidth 16 ≠ 0 := by
    refine and_ne_zero_of_getLsbD (i := 12) ?_ rfl
    rw [Settings.getLsbD_restartBmcr _ (by decide), decide_eq_true (by decide), Bool.or_true]
    rfl
  have hwrite : s.write MII_BMCR (Settings.restartBmcr s.bmcr) = s.restarted := by
    rw [Settings.write, if_pos rfl, if_pos ⟨hrestart, henable⟩]
    rfl
  rw [hs] at hp₂
  rw [← hwrite]
  exact hp₂

theorem runs_anegOff {r : U32} (h : Holds c p) (hs : c d.addr = s)
    (hrun : BusRuns (anegOff d 0) p r p') :
    r = (if s.negotiates then 0 else 1) ∧ Holds c p' := by
  rw [anegOff, if_pos rfl] at hrun
  rcases runs_phyRead h hrun with ⟨v, p₁, hv, hp₁, hrun⟩
  rw [hs] at hv
  obtain rfl : v = s.bmcr := hv.1 rfl
  rcases runs_ret hrun with ⟨rfl, rfl⟩
  refine ⟨?_, hp₁⟩
  simp only [not_slt_setWidth, if_neg Bool.false_ne_true]
  unfold Settings.negotiates
  cases testBits (s.bmcr.setWidth 32) BMCR_ANENABLE <;>
    cases testBits (s.bmcr.setWidth 32) BMCR_ISOLATE <;> rfl

theorem runs_genphyConfigAneg {r : U32 × PhyDevice} (h : Holds c p) (hs : c d.addr = s)
    (hautoneg : d.autoneg = AUTONEG_ENABLE) (hreset : s.bmcr.getLsbD 15 = false)
    (hrun : BusRuns (genphyConfigAneg d) p r p') :
    r.2 = sanitized d ∧ Holds (Function.update c d.addr (s.configured (sanitized d))) p' := by
  rw [genphyConfigAneg, if_neg (not_not.2 hautoneg.symm)] at hrun
  rcases Prog.runs_bind_inv hrun with ⟨r₁, p₁, hadvert, hrun⟩
  rcases runs_genphyConfigAdvert h hs hadvert with ⟨rfl, hp₁⟩
  have hs₁ : Function.update c d.addr (s.advertised (sanitized d)) d.addr =
    s.advertised (sanitized d) := Function.update_self _ _ _
  have hreset₁ : (s.advertised (sanitized d)).bmcr.getLsbD 15 = false := hreset
  -- What a restart makes of it.
  have hrestart : ∀ {p₂ p₃ r₂}, Holds (Function.update c d.addr (s.advertised (sanitized d))) p₂ →
      BusRuns (genphyRestartAneg (sanitized d)) p₂ r₂ p₃ →
      Holds (Function.update c d.addr (s.advertised (sanitized d)).restarted) p₃ := by
    intro p₂ p₃ r₂ hp₂ hagain
    have hp₃ := runs_genphyRestartAneg (d := sanitized d) hp₂ hs₁ hreset₁ hagain
    rwa [show (sanitized d).addr = d.addr from rfl, Function.update_idem] at hp₃
  by_cases hsame : s.advertised (sanitized d) = s
  · simp only [hsame, if_true] at hrun hp₁
    rcases Prog.runs_bind_inv hrun with ⟨r₂, p₂, hoff, hrun⟩
    rcases runs_anegOff (d := sanitized d) hp₁ (Function.update_self _ _ _) hoff with ⟨rfl, hp₂⟩
    rcases Prog.runs_bind_inv hrun with ⟨r₃, p₃, hrestarts, hrun⟩
    rcases runs_ret hrun with ⟨rfl, rfl⟩
    cases hneg : s.negotiates with
    | true =>
        rw [hneg] at hrestarts
        rcases runs_ret hrestarts with ⟨rfl, rfl⟩
        have hconf : s.configured (sanitized d) = s := if_pos ⟨hsame, hneg⟩
        rw [hconf]
        exact ⟨rfl, hp₂⟩
    | false =>
        rw [hneg] at hrestarts
        have hconf : s.configured (sanitized d) = (s.advertised (sanitized d)).restarted :=
          if_neg (by simp [hneg])
        rw [hconf]
        exact ⟨rfl, hrestart (by rw [hsame]; exact hp₂) hrestarts⟩
  · simp only [hsame, if_false] at hrun
    have hconf : s.configured (sanitized d) = (s.advertised (sanitized d)).restarted :=
      if_neg fun hboth => hsame hboth.1
    rcases Prog.runs_bind_inv hrun with ⟨r₂, p₂, hoff, hrun₂⟩
    rcases runs_ret hoff with ⟨rfl, rfl⟩
    rcases Prog.runs_bind_inv hrun₂ with ⟨r₃, p₃, hrestarts, hrun₃⟩
    rcases runs_ret hrun₃ with ⟨rfl, rfl⟩
    rw [hconf]
    exact ⟨rfl, hrestart hp₁ hrestarts⟩

/-- A register is read for what the PHY can do. -/
theorem runs_readFeatures {r : Except U32 U32} (h : Holds c p) (hs : c d.addr = s)
    (hrun : BusRuns (readFeatures d) p r p') : r = .ok s.features ∧ Holds c p' := by
  rcases runs_phyRead h hrun with ⟨v, p₁, hv, hp₁, hrun⟩
  rw [hs] at hv
  have hextended : testBits (v.setWidth 32) BMSR_ESTATEN = s.extended :=
    testBits_abilities BMSR_ESTATEN hv (by decide)
  have hstandard : standardFeatures (v.setWidth 32) = standardFeatures (s.abilities.setWidth 32) := by
    unfold standardFeatures orIf
    simp only [testBits_abilities BMSR_ANEGCAPABLE hv (by decide),
      testBits_abilities BMSR_100FULL hv (by decide),
      testBits_abilities BMSR_100HALF hv (by decide),
      testBits_abilities BMSR_10FULL hv (by decide),
      testBits_abilities BMSR_10HALF hv (by decide)]
  simp only [not_slt_setWidth, if_neg Bool.false_ne_true, hextended, hstandard] at hrun
  unfold Settings.features
  cases hext : s.extended with
  | false =>
      rw [hext] at hrun
      rcases runs_ret hrun with ⟨rfl, rfl⟩
      exact ⟨rfl, hp₁⟩
  | true =>
      rw [hext] at hrun
      rcases runs_phyRead hp₁ hrun with ⟨v, p₂, hv, hp₂, hrun⟩
      rw [hs] at hv
      obtain rfl : v = s.estatus := hv.2.2.2.1 rfl
      simp only [not_slt_setWidth, if_neg Bool.false_ne_true] at hrun
      rcases runs_ret hrun with ⟨rfl, rfl⟩
      exact ⟨rfl, hp₂⟩

/-- What `genphy_config` makes of its device. -/
def configuredDevice (d : PhyDevice) (s : Settings) : PhyDevice :=
  { d with
    supported := d.supported &&& s.features
    advertising := d.advertising &&& s.features &&& (d.supported &&& s.features) }

theorem runs_genphyConfig {r : U32 × PhyDevice} (h : Holds c p) (hs : c d.addr = s)
    (hautoneg : d.autoneg = AUTONEG_ENABLE) (hreset : s.bmcr.getLsbD 15 = false)
    (hrun : BusRuns (genphyConfig d) p r p') :
    r = (0, configuredDevice d s) ∧
      Holds (Function.update c d.addr (s.configured (configuredDevice d s))) p' := by
  rcases Prog.runs_bind_inv hrun with ⟨r₁, p₁, hfeatures, hrun⟩
  rcases runs_readFeatures h hs hfeatures with ⟨rfl, hp₁⟩
  rcases Prog.runs_bind_inv hrun with ⟨⟨r₂, d₂⟩, p₂, haneg, hrun⟩
  have haneg := runs_genphyConfigAneg (d := { d with
      supported := d.supported &&& s.features
      advertising := d.advertising &&& s.features }) hp₁ hs hautoneg hreset haneg
  rcases haneg with ⟨hd₂, hp₂⟩
  rcases runs_ret hrun with ⟨rfl, rfl⟩
  obtain rfl := hd₂
  exact ⟨rfl, hp₂⟩

end Runs

/-! ## The modes of the link -/

/-- What a twisted pair can be used for, in ascending order of preference. -/
inductive Mode
  | half10
  | full10
  | half100
  | full100
  | half1000
  | full1000
  deriving DecidableEq, Repr

namespace Mode

/-- Its place among the features of a device. -/
def feature : Mode → ℕ
  | half10 => 0
  | full10 => 1
  | half100 => 2
  | full100 => 3
  | half1000 => 4
  | full1000 => 5

/-- The device supports it and is to advertise it. -/
def willing (m : Mode) (d : PhyDevice) : Bool :=
  d.supported.getLsbD m.feature && d.advertising.getLsbD m.feature

/-- The PHY can do it. -/
def able (m : Mode) (s : Settings) : Bool :=
  match m with
  | half10 => testBits (s.abilities.setWidth 32) BMSR_10HALF
  | full10 => testBits (s.abilities.setWidth 32) BMSR_10FULL
  | half100 => testBits (s.abilities.setWidth 32) BMSR_100HALF
  | full100 => testBits (s.abilities.setWidth 32) BMSR_100FULL
  | half1000 => s.extended && testBits (s.estatus.setWidth 32) ESTATUS_1000_THALF
  | full1000 => s.extended && testBits (s.estatus.setWidth 32) ESTATUS_1000_TFULL

/-- The PHY advertises it. -/
def offered (m : Mode) (s : Settings) : Bool :=
  match m with
  | half10 => testBits (s.advertise.setWidth 32) ADVERTISE_10HALF
  | full10 => testBits (s.advertise.setWidth 32) ADVERTISE_10FULL
  | half100 => testBits (s.advertise.setWidth 32) ADVERTISE_100HALF
  | full100 => testBits (s.advertise.setWidth 32) ADVERTISE_100FULL
  | half1000 => s.extended && testBits (s.ctrl1000.setWidth 32) ADVERTISE_1000HALF
  | full1000 => s.extended && testBits (s.ctrl1000.setWidth 32) ADVERTISE_1000FULL

end Mode

section Modes

variable {d : PhyDevice} {s : Settings} {m : Mode}

/-- The features of a PHY are the modes that it can do, and some that do not concern them. -/
theorem getLsbD_features : s.features.getLsbD m.feature = m.able s := by
  have hbase : ∀ i < 6, (SUPPORTED_TP ||| SUPPORTED_MII ||| SUPPORTED_AUI ||| SUPPORTED_FIBRE |||
      SUPPORTED_BNC).getLsbD i = false := by
    decide
  unfold Settings.features
  cases hext : s.extended with
  | false =>
      simp only [if_neg Bool.false_ne_true, standardFeatures, getLsbD_orIf]
      cases m <;> rw [hbase _ (by decide)] <;>
        simp [Mode.feature, Mode.able, hext, SUPPORTED_Autoneg, SUPPORTED_10baseT_Half,
          SUPPORTED_10baseT_Full, SUPPORTED_100baseT_Half, SUPPORTED_100baseT_Full]
  | true =>
      simp only [if_true, extendedFeatures, standardFeatures, getLsbD_orIf]
      cases m <;> rw [hbase _ (by decide)] <;>
        simp [Mode.feature, Mode.able, hext, SUPPORTED_Autoneg, SUPPORTED_10baseT_Half,
          SUPPORTED_10baseT_Full, SUPPORTED_100baseT_Half, SUPPORTED_100baseT_Full,
          SUPPORTED_1000baseT_Half, SUPPORTED_1000baseT_Full, SUPPORTED_1000baseX_Half,
          SUPPORTED_1000baseX_Full]

/-- No PHY has the features that a pause would need. -/
theorem getLsbD_features_pause {i : ℕ} (hi : i = 13 ∨ i = 14) : s.features.getLsbD i = false := by
  unfold Settings.features extendedFeatures standardFeatures
  rcases hi with rfl | rfl <;> split <;> simp only [getLsbD_orIf] <;>
    simp [SUPPORTED_Autoneg, SUPPORTED_10baseT_Half, SUPPORTED_10baseT_Full,
      SUPPORTED_100baseT_Half, SUPPORTED_100baseT_Full, SUPPORTED_1000baseT_Half,
      SUPPORTED_1000baseT_Full, SUPPORTED_1000baseX_Half, SUPPORTED_1000baseX_Full, SUPPORTED_TP,
      SUPPORTED_MII, SUPPORTED_AUI, SUPPORTED_FIBRE, SUPPORTED_BNC]

/-- The device is no fibre transceiver, whose pages have other bits in the same places. -/
def Copper (d : PhyDevice) : Prop :=
  d.supported.getLsbD 21 = false ∧ d.supported.getLsbD 22 = false

/-- Nothing is to be advertised that is not supported. -/
def Sanitized (d : PhyDevice) : Prop :=
  ∀ i, d.advertising.getLsbD i = true → d.supported.getLsbD i = true

theorem sanitized_configuredDevice (d : PhyDevice) (s : Settings) :
    Sanitized (configuredDevice d s) := by
  intro i hi
  simp only [configuredDevice, BitVec.getLsbD_and, Bool.and_eq_true] at hi ⊢
  exact hi.2

theorem testBits_eq {v : U32} (mask : U32) (i : ℕ) (hi : i < 32) (hmask : mask = 1#32 <<< i) :
    testBits v mask = v.getLsbD i := by
  rw [hmask, testBits_shiftLeft v i hi]

/-- The standard page, mode by mode. -/
theorem getLsbD_standardAdv {advertise : U32} (hhalf : advertise.getLsbD 21 = false)
    (hfull : advertise.getLsbD 22 = false) (v : U32) :
    (standardAdv advertise v).getLsbD 5 = advertise.getLsbD 0 ∧
      (standardAdv advertise v).getLsbD 6 = advertise.getLsbD 1 ∧
      (standardAdv advertise v).getLsbD 7 = advertise.getLsbD 2 ∧
      (standardAdv advertise v).getLsbD 8 = advertise.getLsbD 3 ∧
      (standardAdv advertise v).getLsbD 9 = false ∧
      (standardAdv advertise v).getLsbD 10 = advertise.getLsbD 13 ∧
      (standardAdv advertise v).getLsbD 11 = advertise.getLsbD 14 := by
  have htest : ∀ i, i < 32 → testBits advertise (1#32 <<< i) = advertise.getLsbD i :=
    testBits_shiftLeft advertise
  refine ⟨?_, ?_, ?_, ?_, ?_, ?_, ?_⟩ <;>
    simp only [standardAdv, getLsbD_orIf, BitVec.getLsbD_and, SUPPORTED_10baseT_Half,
      SUPPORTED_10baseT_Full, SUPPORTED_100baseT_Half, SUPPORTED_100baseT_Full, SUPPORTED_Pause,
      SUPPORTED_Asym_Pause, SUPPORTED_1000baseX_Half, SUPPORTED_1000baseX_Full,
      htest 0 (by decide), htest 1 (by decide), htest 2 (by decide), htest 3 (by decide),
      htest 13 (by decide), htest 14 (by decide), htest 21 (by decide), htest 22 (by decide),
      hhalf, hfull] <;>
    simp [ADVERTISE_MASK, ADVERTISE_ALL, ADVERTISE_100BASE4, ADVERTISE_10HALF, ADVERTISE_10FULL,
      ADVERTISE_100HALF, ADVERTISE_100FULL, ADVERTISE_PAUSE_CAP, ADVERTISE_PAUSE_ASYM]

/-- The page for the gigabit modes. -/
theorem getLsbD_gigabitAdv {supported advertise : U32}
    (hsub : ∀ i, advertise.getLsbD i = true → supported.getLsbD i = true) (v : U32) :
    (gigabitAdv supported advertise v).getLsbD 8 = advertise.getLsbD 4 ∧
      (gigabitAdv supported advertise v).getLsbD 9 = advertise.getLsbD 5 := by
  have htest : ∀ (w : U32) i, i < 32 → testBits w (1#32 <<< i) = w.getLsbD i := testBits_shiftLeft
  unfold gigabitAdv
  cases hany : testBits supported (SUPPORTED_1000baseT_Half ||| SUPPORTED_1000baseT_Full) with
  | false =>
      rw [testBits_or, SUPPORTED_1000baseT_Half, SUPPORTED_1000baseT_Full, htest _ 4 (by decide),
        htest _ 5 (by decide), Bool.or_eq_false_iff] at hany
      have hno : ∀ i, supported.getLsbD i = false → advertise.getLsbD i = false := fun i hi =>
        Bool.eq_false_iff.2 fun hadv => by rw [hsub i hadv] at hi; exact absurd hi (by decide)
      rw [hno 4 hany.1, hno 5 hany.2]
      simp [ADVERTISE_1000FULL, ADVERTISE_1000HALF]
  | true =>
      simp only [if_true, getLsbD_orIf, SUPPORTED_1000baseT_Half, SUPPORTED_1000baseT_Full,
        htest _ 4 (by decide), htest _ 5 (by decide)]
      constructor <;> simp [ADVERTISE_1000FULL, ADVERTISE_1000HALF]

theorem testBits_setWidth {w : U32} (mask : U32) (i : ℕ) (hi : i < 16) (hmask : mask = 1#32 <<< i) :
    testBits ((w.setWidth 16).setWidth 32) mask = w.getLsbD i := by
  rw [testBits_eq mask i (by omega) hmask, BitVec.getLsbD_setWidth, BitVec.getLsbD_setWidth]
  simp [hi, Nat.lt_trans hi (by decide : 16 < 32)]

/-- A PHY advertises what its device has it advertise. -/
theorem offered_advertised (hcopper : Copper d) (hsan : Sanitized d) :
    m.offered (s.advertised d) =
      (d.advertising.getLsbD m.feature && (decide (m.feature < 4) || s.extended)) := by
  have hno : ∀ i, d.supported.getLsbD i = false → d.advertising.getLsbD i = false := fun i hi =>
    Bool.eq_false_iff.2 fun hadv => by rw [hsan i hadv] at hi; exact absurd hi (by decide)
  have hstd := getLsbD_standardAdv (hno 21 hcopper.1) (hno 22 hcopper.2) (s.advertise.setWidth 32)
  have hgig := getLsbD_gigabitAdv hsan (s.ctrl1000.setWidth 32)
  have hpage : (s.advertised d).advertise =
    (standardAdv d.advertising (s.advertise.setWidth 32)).setWidth 16 := rfl
  have hext : (s.advertised d).extended = s.extended := rfl
  have hctrl : s.extended = true → (s.advertised d).ctrl1000 =
      (gigabitAdv d.supported d.advertising (s.ctrl1000.setWidth 32)).setWidth 16 := by
    intro h
    simp only [Settings.advertised, h, if_true]
  rcases hstd with ⟨h5, h6, h7, h8, -⟩
  cases m with
  | half10 =>
      rw [Mode.offered, hpage, testBits_setWidth ADVERTISE_10HALF 5 (by decide) rfl, h5]
      exact (Bool.and_true _).symm
  | full10 =>
      rw [Mode.offered, hpage, testBits_setWidth ADVERTISE_10FULL 6 (by decide) rfl, h6]
      exact (Bool.and_true _).symm
  | half100 =>
      rw [Mode.offered, hpage, testBits_setWidth ADVERTISE_100HALF 7 (by decide) rfl, h7]
      exact (Bool.and_true _).symm
  | full100 =>
      rw [Mode.offered, hpage, testBits_setWidth ADVERTISE_100FULL 8 (by decide) rfl, h8]
      exact (Bool.and_true _).symm
  | half1000 =>
      rw [Mode.offered, hext]
      cases h : s.extended with
      | false => exact (Bool.and_false _).symm
      | true =>
          rw [hctrl h, testBits_setWidth ADVERTISE_1000HALF 8 (by decide) rfl, hgig.1]
          exact (Bool.and_comm _ _)
  | full1000 =>
      rw [Mode.offered, hext]
      cases h : s.extended with
      | false => exact (Bool.and_false _).symm
      | true =>
          rw [hctrl h, testBits_setWidth ADVERTISE_1000FULL 9 (by decide) rfl, hgig.2]
          exact (Bool.and_comm _ _)

/-- What configuring makes of a device and of its PHY. -/
structure Configured (d d' : PhyDevice) (s s' : Settings) : Prop where
  supported : d'.supported = d.supported &&& s.features
  /-- What is supported and wanted and can be done is advertised, and nothing else. -/
  offers : ∀ m : Mode, m.offered s' = (m.willing d && m.able s)
  noPause : ∀ i, 9 ≤ i → i ≤ 11 → s'.advertise.getLsbD i = false
  advertise : AgreeOff ADVERTISE_MASK (s'.advertise.setWidth 32) (s.advertise.setWidth 32)
  ctrl1000 : AgreeOff (ADVERTISE_1000FULL ||| ADVERTISE_1000HALF) (s'.ctrl1000.setWidth 32)
    (s.ctrl1000.setWidth 32)
  /-- Without an extended status there is no such register, and it is left alone. -/
  noGigabit : s.extended = false → s'.ctrl1000 = s.ctrl1000
  abilities : s'.abilities = s.abilities
  estatus : s'.estatus = s.estatus
  negotiates : s'.negotiates = true
  bmcr : AgreeOff (BMCR_ANENABLE ||| BMCR_ANRESTART ||| BMCR_ISOLATE) (s'.bmcr.setWidth 32)
    (s.bmcr.setWidth 32)
  /-- The negotiation is restarted once, and only when there is a reason. -/
  restarts : s'.restarts = s.restarts +
    if s'.advertise = s.advertise ∧ s'.ctrl1000 = s.ctrl1000 ∧ s.negotiates = true then 0 else 1

theorem configured_or (d : PhyDevice) (s : Settings) :
    (s.advertised d = s ∧ s.negotiates = true ∧ s.configured d = s) ∨
      (¬ (s.advertised d = s ∧ s.negotiates = true) ∧
        s.configured d = (s.advertised d).restarted) := by
  unfold Settings.configured
  split
  case isTrue h => exact Or.inl ⟨h.1, h.2, rfl⟩
  case isFalse h => exact Or.inr ⟨h, rfl⟩

/-- Apart from `BMCR` the settings are those that are advertised. -/
theorem configured_pages (d : PhyDevice) (s : Settings) :
    (s.configured d).advertise = (s.advertised d).advertise ∧
      (s.configured d).ctrl1000 = (s.advertised d).ctrl1000 ∧
      (s.configured d).abilities = s.abilities ∧ (s.configured d).estatus = s.estatus := by
  rcases configured_or d s with ⟨hsame, -, hconf⟩ | ⟨-, hconf⟩
  · rw [hconf, hsame]
    exact ⟨rfl, rfl, rfl, rfl⟩
  · rw [hconf]
    exact ⟨rfl, rfl, rfl, rfl⟩

theorem getLsbD_restarted (s : Settings) {i : ℕ} (hi : i < 16) :
    s.restarted.bmcr.getLsbD i =
      ((s.bmcr.getLsbD i || decide (i = 12)) && decide (i ≠ 9 ∧ i ≠ 10)) := by
  have hclear : ∀ i < 16, (~~~BMCR_ANRESTART.setWidth 16).getLsbD i = decide (i ≠ 9) := by decide
  change (Settings.restartBmcr s.bmcr &&& ~~~BMCR_ANRESTART.setWidth 16).getLsbD i = _
  rw [BitVec.getLsbD_and, Settings.getLsbD_restartBmcr _ hi, hclear i hi]
  by_cases h9 : i = 9 <;> by_cases h10 : i = 10 <;> simp [h9, h10]

theorem negotiates_restarted (s : Settings) : s.restarted.negotiates = true := by
  have hread : ∀ (v : U16) i, i < 16 → testBits (v.setWidth 32) (1#32 <<< i) = v.getLsbD i := by
    intro v i hi
    rw [testBits_shiftLeft _ _ (by omega), BitVec.getLsbD_setWidth]
    simp only [Nat.lt_trans hi (by decide : 16 < 32), decide_true, Bool.true_and]
  have henable : BMCR_ANENABLE = 1#32 <<< 12 := rfl
  have hisolate : BMCR_ISOLATE = 1#32 <<< 10 := rfl
  rw [Settings.negotiates, henable, hisolate, hread _ 12 (by decide), hread _ 10 (by decide),
    getLsbD_restarted _ (by decide), getLsbD_restarted _ (by decide)]
  simp

theorem agreeOff_restarted (s : Settings) :
    AgreeOff (BMCR_ANENABLE ||| BMCR_ANRESTART ||| BMCR_ISOLATE) (s.restarted.bmcr.setWidth 32)
      (s.bmcr.setWidth 32) := by
  have hmask : ∀ i < 16, (BMCR_ANENABLE ||| BMCR_ANRESTART ||| BMCR_ISOLATE).getLsbD i =
      decide (i = 9 ∨ i = 10 ∨ i = 12) := by
    decide
  apply BitVec.eq_of_getLsbD_eq
  intro i hi
  simp only [BitVec.getLsbD_and, BitVec.getLsbD_not, BitVec.getLsbD_setWidth, hi, decide_true,
    Bool.true_and]
  by_cases hlow : i < 16
  · rw [getLsbD_restarted s hlow, hmask i hlow]
    by_cases h9 : i = 9 <;> by_cases h10 : i = 10 <;> by_cases h12 : i = 12 <;> simp [h9, h10, h12]
  · rw [BitVec.getLsbD_of_ge _ _ (Nat.not_lt.1 hlow), BitVec.getLsbD_of_ge _ _ (Nat.not_lt.1 hlow)]

theorem copper_configuredDevice (hcopper : Copper d) : Copper (configuredDevice d s) := by
  simp only [Copper, configuredDevice, BitVec.getLsbD_and, hcopper.1, hcopper.2, Bool.false_and,
    and_self]

theorem offered_configured (hcopper : Copper d) :
    m.offered (s.configured (configuredDevice d s)) = (m.willing d && m.able s) := by
  have hpages := configured_pages (configuredDevice d s) s
  have hoffered : m.offered (s.configured (configuredDevice d s)) =
      m.offered (s.advertised (configuredDevice d s)) := by
    cases m <;> simp only [Mode.offered, Settings.extended, hpages] <;> rfl
  have hable : m.able s = (m.able s && (decide (m.feature < 4) || s.extended)) := by
    cases m <;> cases hext : s.extended <;> simp [Mode.able, Mode.feature, hext]
  rw [hoffered, offered_advertised (copper_configuredDevice hcopper) (sanitized_configuredDevice d s)]
  simp only [configuredDevice, BitVec.getLsbD_and, getLsbD_features, Mode.willing]
  rw [hable]
  cases d.supported.getLsbD m.feature <;> cases d.advertising.getLsbD m.feature <;>
    cases m.able s <;> simp

theorem noPause_configured (hcopper : Copper d) {i : ℕ} (hi : 9 ≤ i) (hi' : i ≤ 11) :
    (s.configured (configuredDevice d s)).advertise.getLsbD i = false := by
  have hno : ∀ j, (configuredDevice d s).supported.getLsbD j = false →
      (configuredDevice d s).advertising.getLsbD j = false := fun j hj =>
    Bool.eq_false_iff.2 fun hadv => by
      rw [sanitized_configuredDevice d s j hadv] at hj
      exact absurd hj (by decide)
  have hpause : ∀ j, j = 13 ∨ j = 14 → (configuredDevice d s).advertising.getLsbD j = false := by
    intro j hj
    simp only [configuredDevice, BitVec.getLsbD_and, getLsbD_features_pause hj, Bool.and_false]
  have hcopper' := copper_configuredDevice (s := s) hcopper
  rcases getLsbD_standardAdv (hno 21 hcopper'.1) (hno 22 hcopper'.2) (s.advertise.setWidth 32) with
    ⟨-, -, -, -, h9, h10, h11⟩
  rw [hpause 13 (Or.inl rfl)] at h10
  rw [hpause 14 (Or.inr rfl)] at h11
  have hpage : (s.configured (configuredDevice d s)).advertise =
      (standardAdv (configuredDevice d s).advertising (s.advertise.setWidth 32)).setWidth 16 :=
    (configured_pages _ s).1
  have hcases : i = 9 ∨ i = 10 ∨ i = 11 := by omega
  rw [hpage, BitVec.getLsbD_setWidth]
  rcases hcases with rfl | rfl | rfl
  · rw [h9, Bool.and_false]
  · rw [h10, Bool.and_false]
  · rw [h11, Bool.and_false]

/-- The rest of the pages stays. -/
theorem agreeOff_advertised (d : PhyDevice) (s : Settings) :
    AgreeOff ADVERTISE_MASK ((s.advertised d).advertise.setWidth 32) (s.advertise.setWidth 32) ∧
      AgreeOff (ADVERTISE_1000FULL ||| ADVERTISE_1000HALF) ((s.advertised d).ctrl1000.setWidth 32)
        (s.ctrl1000.setWidth 32) := by
  constructor
  · rw [Settings.advertised, setWidth_of_agreeOff (agreeOff_standardAdv _ _) (by decide)]
    exact agreeOff_standardAdv _ _
  · rw [Settings.advertised]
    split
    · rw [setWidth_of_agreeOff (agreeOff_gigabitAdv _ _ _) (by decide)]
      exact agreeOff_gigabitAdv _ _ _
    · exact AgreeOff.refl _ _

/-- What is advertised does not depend on what was. -/
theorem advertised_advertised (d : PhyDevice) (s : Settings) :
    (s.advertised d).advertised d = s.advertised d := by
  rcases agreeOff_advertised d s with ⟨hadv, hctrl⟩
  refine Settings.advertised_eq_self_iff.2 ⟨?_, ?_⟩
  · have hpage : standardAdv d.advertising ((s.advertised d).advertise.setWidth 32) =
        standardAdv d.advertising (s.advertise.setWidth 32) := by
      unfold standardAdv
      rw [hadv]
    exact congrArg (BitVec.setWidth 16) hpage
  · have hpage : gigabitAdv d.supported d.advertising ((s.advertised d).ctrl1000.setWidth 32) =
        gigabitAdv d.supported d.advertising (s.ctrl1000.setWidth 32) := by
      unfold gigabitAdv
      rw [hctrl]
    cases hext : s.extended with
    | false =>
        have hstay : ∀ s' : Settings, s'.extended = false → (s'.advertised d).ctrl1000 = s'.ctrl1000 := by
          intro s' h
          simp only [Settings.advertised, h, if_neg Bool.false_ne_true]
        exact hstay _ hext
    | true =>
        have hset : ∀ s' : Settings, s'.extended = true → (s'.advertised d).ctrl1000 =
            (gigabitAdv d.supported d.advertising (s'.ctrl1000.setWidth 32)).setWidth 16 := by
          intro s' h
          simp only [Settings.advertised, h, if_true]
        rw [hset _ (show (s.advertised d).extended = true from hext), hpage, hset s hext]

theorem configured_settles (hcopper : Copper d) :
    Configured d (configuredDevice d s) s (s.configured (configuredDevice d s)) := by
  rcases configured_pages (configuredDevice d s) s with ⟨hadv, hctrl, habilities, hestatus⟩
  rcases agreeOff_advertised (configuredDevice d s) s with ⟨hoff, hoff'⟩
  refine ⟨rfl, fun m => offered_configured hcopper, fun i => noPause_configured hcopper, ?_, ?_, ?_,
    habilities, hestatus, ?_, ?_, ?_⟩
  · rw [hadv]
    exact hoff
  · rw [hctrl]
    exact hoff'
  · intro hext
    rw [hctrl, Settings.advertised, hext, if_neg Bool.false_ne_true]
  · rcases configured_or (configuredDevice d s) s with ⟨-, hneg, hconf⟩ | ⟨-, hconf⟩
    · rw [hconf, hneg]
    · rw [hconf, negotiates_restarted]
  · rcases configured_or (configuredDevice d s) s with ⟨-, -, hconf⟩ | ⟨-, hconf⟩
    · rw [hconf]
      exact AgreeOff.refl _ _
    · rw [hconf]
      exact agreeOff_restarted _
  · rcases configured_or (configuredDevice d s) s with ⟨-, hneg, hconf⟩ | ⟨hnot, hconf⟩
    · rw [hconf, if_pos ⟨rfl, rfl, hneg⟩]
      rfl
    · rw [if_neg, hconf]
      · rfl
      · rintro ⟨hadv', hctrl', hneg⟩
        refine hnot ⟨Settings.advertised_eq_self_iff.2 ⟨?_, ?_⟩, hneg⟩
        · rw [← hadv, hadv']
        · rw [← hctrl, hctrl']

/-- Settings that have been made are made again by leaving them as they are. -/
theorem configured_again (d : PhyDevice) (s : Settings) :
    configuredDevice (configuredDevice d s) (s.configured (configuredDevice d s)) =
        configuredDevice d s ∧
      (s.configured (configuredDevice d s)).configured (configuredDevice d s) =
        s.configured (configuredDevice d s) := by
  rcases configured_pages (configuredDevice d s) s with ⟨-, -, habilities, hestatus⟩
  have hfeatures : (s.configured (configuredDevice d s)).features = s.features := by
    unfold Settings.features Settings.extended
    rw [habilities, hestatus]
  constructor
  · rw [configuredDevice, hfeatures]
    simp only [configuredDevice, BitVec.and_assoc, BitVec.and_self]
  · rcases configured_or (configuredDevice d s) s with ⟨hsame, hneg, hconf⟩ | ⟨-, hconf⟩
    · rw [hconf, hconf]
    · have hstay : (s.advertised (configuredDevice d s)).restarted.advertised (configuredDevice d s) =
          (s.advertised (configuredDevice d s)).restarted :=
        congrArg Settings.restarted (advertised_advertised (configuredDevice d s) s)
      rw [hconf, Settings.configured, if_pos ⟨hstay, negotiates_restarted _⟩]

end Modes

/-! ## Through the MAC -/

/-- A PHY that is configured through the registers of the MAC, however long its transactions take and
whatever happens on its link meanwhile, advertises just the modes that it can do and that its device
supports and wants, with the negotiation on; the other PHYs keep their settings.  Configuring it again
changes nothing and leaves the negotiation alone. -/
theorem genphy_config_by_mac (E : Mii.Env (ℕ → Clause22)) (hbus : E.bus = clause22)
    (hdrift : ∀ t p, Drifts p (E.drift t p)) (hE : E.Timely) {d : PhyDevice} (haddr : d.addr < 32)
    (hautoneg : d.autoneg = AUTONEG_ENABLE) (hcopper : Copper d) {s : Mii.Smi (ℕ → Clause22)}
    (hs : s.flight = none) (hreset : (s.phys d.addr).settings.bmcr.getLsbD 15 = false) :
    Prog.Ends E.access Mii.Env.check ((genphyConfig d).carry Mii.viaMac)
      (fun r s' => r.1 = 0 ∧ s'.flight = none ∧
        Configured d r.2 (s.phys d.addr).settings (s'.phys d.addr).settings ∧
        (∀ b ≠ d.addr, (s'.phys b).settings = (s.phys b).settings) ∧
        Prog.Ends E.access Mii.Env.check ((genphyConfig r.2).carry Mii.viaMac)
          (fun r' s'' => r' = r ∧ s''.flight = none ∧
            ∀ b, (s''.phys b).settings = (s'.phys b).settings) s') s := by
  have hsem : ∀ o p r p', Mii.Sem E.bus E.Drift o p r p' → Mii.Sem clause22 Drifts o p r p' := by
    rw [hbus]
    refine fun o p r p' h => h.mono ?_
    rintro p p' ⟨t, rfl⟩
    exact hdrift t p
  -- A call, made while no transaction is under way.
  have hcall : ∀ (d₀ : PhyDevice) {s₀ : Mii.Smi (ℕ → Clause22)}, d₀.addr < 32 →
      d₀.autoneg = AUTONEG_ENABLE → s₀.flight = none →
      (s₀.phys d₀.addr).settings.bmcr.getLsbD 15 = false →
      Prog.Ends E.access Mii.Env.check ((genphyConfig d₀).carry Mii.viaMac)
        (fun r s' => s'.flight = none ∧
          r = (0, configuredDevice d₀ (s₀.phys d₀.addr).settings) ∧
          (s'.phys d₀.addr).settings = (s₀.phys d₀.addr).settings.configured r.2 ∧
          ∀ b ≠ d₀.addr, (s'.phys b).settings = (s₀.phys b).settings) s₀ := by
    intro d₀ s₀ haddr₀ hautoneg₀ hs₀ hreset₀
    have hends := Prog.Ends.carry Mii.Smi.phys (fun s => s.flight = none)
      (fun _ _ ho hs => Mii.viaMac_ends hE ho hs)
      (only_genphyConfig haddr₀) hs₀
    refine hends.mono fun r s' hr => ⟨hr.1, ?_⟩
    rcases runs_genphyConfig (c := fun b => (s₀.phys b).settings) (fun _ => rfl) rfl hautoneg₀ hreset₀
      (hr.2.mono hsem) with ⟨rfl, hholds⟩
    refine ⟨rfl, ?_, fun b hb => ?_⟩
    · rw [hholds d₀.addr, Function.update_self]
    · rw [hholds b, Function.update_of_ne hb]
  refine (hcall d haddr hautoneg hs hreset).mono ?_
  rintro r s' ⟨hs', rfl, hsettings, hothers⟩
  have hconf := configured_settles (s := (s.phys d.addr).settings) hcopper
  rw [← hsettings] at hconf
  refine ⟨rfl, hs', hconf, hothers, ?_⟩
  have hreset' : (s'.phys d.addr).settings.bmcr.getLsbD 15 = false := by
    have hbit := hconf.bmcr.getLsbD_eq (i := 15) (by decide)
    rw [BitVec.getLsbD_setWidth, BitVec.getLsbD_setWidth] at hbit
    exact hbit.trans hreset
  rcases configured_again d (s.phys d.addr).settings with ⟨hdevice, hagain⟩
  refine (hcall (configuredDevice d (s.phys d.addr).settings) haddr hautoneg hs' hreset').mono ?_
  rintro r' s'' ⟨hs'', rfl, hsettings', hothers'⟩
  have haddr' : (configuredDevice d (s.phys d.addr).settings).addr = d.addr := rfl
  rw [haddr'] at hsettings' hothers'
  rw [hsettings, hdevice] at hsettings'
  rw [haddr', hsettings, hdevice]
  refine ⟨rfl, hs'', fun b => ?_⟩
  by_cases hb : b = d.addr
  · rw [hb, hsettings', hagain, hsettings]
  · exact hothers' b hb

/-- A PHY for 10 and 100 Mb/s that advertises nothing yet. -/
def silentPhy : Clause22 where
  reg := fun reg => if reg = MII_BMSR then 0x7849 else if reg = MII_ADVERTISE then 0x0001 else 0
  defaults := fun _ => 0
  restarts := 0

/-- The device at address 1 with the features of the generic driver. -/
def genericDevice : PhyDevice where
  addr := 1
  autoneg := 1
  supported := 0xfff
  advertising := 0xfff
  speed := 0
  duplex := -1
  pause := 0
  asymPause := 0

theorem genphy_config_by_mac_silentPhy :
    Prog.Ends (Mii.nineUnits clause22).access Mii.Env.check
      ((genphyConfig genericDevice).carry Mii.viaMac)
      (fun r s' => r.1 = 0 ∧ s'.flight = none ∧
        Configured genericDevice r.2 silentPhy.settings (s'.phys 1).settings ∧
        (∀ b ≠ 1, (s'.phys b).settings = silentPhy.settings) ∧
        Prog.Ends (Mii.nineUnits clause22).access Mii.Env.check
          ((genphyConfig r.2).carry Mii.viaMac)
          (fun r' s'' => r' = r ∧ s''.flight = none ∧
            ∀ b, (s''.phys b).settings = (s'.phys b).settings) s')
      ⟨fun _ => silentPhy, 0, none, 0, 0⟩ :=
  genphy_config_by_mac (Mii.nineUnits clause22) rfl (fun _ _ _ => rfl)
    (Mii.nineUnits_timely clause22) (d := genericDevice) (by decide) rfl ⟨by decide, by decide⟩
    (s := ⟨fun _ => silentPhy, 0, none, 0, 0⟩) rfl (by decide)

end Phy

end BspV3s
