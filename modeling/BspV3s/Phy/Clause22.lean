import BspV3s.Phy.Driver

/-!
# Clause22 — the registers of a PHY

What software writes into a PHY and what the PHY can do are its `Settings`; everything else in it, the
state of its link above all, may change at any time.  `Mii.Sem clause22 Drifts` is a bus of such PHYs.

* `runs_phyRead`, `runs_phyWrite` : the first access of a run, seen through the settings.
-/

namespace BspV3s

namespace Phy

open Mii (U16 U32 BusM MDIO_DEVAD_NONE)

def BMCR_RESET : U32 := 0x8000

/-- The bits of `BMSR` that say what the PHY can do. -/
def BMSR_ABILITIES : U32 := 0xff09

/-- A PHY: its registers, what a reset makes of them, and how often it has begun to negotiate. -/
structure Clause22 where
  reg : ℕ → U16
  defaults : ℕ → U16
  restarts : ℕ

structure Settings where
  bmcr : U16
  advertise : U16
  ctrl1000 : U16
  abilities : U16
  estatus : U16
  restarts : ℕ
  deriving DecidableEq, Repr

namespace Clause22

def settings (y : Clause22) : Settings where
  bmcr := y.reg MII_BMCR
  advertise := y.reg MII_ADVERTISE
  ctrl1000 := y.reg MII_CTRL1000
  abilities := y.reg MII_BMSR &&& BMSR_ABILITIES.setWidth 16
  estatus := y.reg MII_ESTATUS
  restarts := y.restarts

/-- `BMCR_ANRESTART` clears itself; the registers that say something about the link cannot be written.  A
reset is over with the write that begins it, so that software which waits for its end, as `phy_reset`
does, waits no longer than one read. -/
def write (reg : ℕ) (val : U16) (y : Clause22) : Clause22 :=
  if reg = MII_BMCR then
    if val &&& BMCR_RESET.setWidth 16 ≠ 0 then { y with reg := y.defaults }
    else
      { y with
        reg := Function.update y.reg MII_BMCR (val &&& ~~~BMCR_ANRESTART.setWidth 16)
        restarts :=
          if val &&& BMCR_ANRESTART.setWidth 16 ≠ 0 ∧ val &&& BMCR_ANENABLE.setWidth 16 ≠ 0 then
            y.restarts + 1
          else y.restarts }
  else if reg = MII_ADVERTISE ∨ reg = MII_CTRL1000 then
    { y with reg := Function.update y.reg reg val }
  else y

end Clause22

/-- The PHYs of a bus, by their addresses. -/
def clause22 : Mii.Phys (ℕ → Clause22) where
  read := fun addr reg p => ((p addr).reg reg, p)
  write := fun addr reg val p => Function.update p addr ((p addr).write reg val)

/-- The PHYs going on by themselves. -/
def Drifts (p p' : ℕ → Clause22) : Prop := ∀ a, (p' a).settings = (p a).settings

/-- The PHYs have these settings. -/
def Holds (c : ℕ → Settings) (p : ℕ → Clause22) : Prop := ∀ a, (p a).settings = c a

abbrev BusRuns {α : Type} (p : BusM α) (s : ℕ → Clause22) (a : α) (s' : ℕ → Clause22) : Prop :=
  Prog.Runs (Mii.Sem clause22 Drifts) p s a s'

namespace Settings

/-- What is known of a register's content. -/
def Shows (s : Settings) (reg : ℕ) (v : U16) : Prop :=
  (reg = MII_BMCR → v = s.bmcr) ∧ (reg = MII_ADVERTISE → v = s.advertise) ∧
    (reg = MII_CTRL1000 → v = s.ctrl1000) ∧ (reg = MII_ESTATUS → v = s.estatus) ∧
    (reg = MII_BMSR → v &&& BMSR_ABILITIES.setWidth 16 = s.abilities)

/-- Writing `val`, which does not reset the PHY. -/
def write (reg : ℕ) (val : U16) (s : Settings) : Settings :=
  if reg = MII_BMCR then
    { s with
      bmcr := val &&& ~~~BMCR_ANRESTART.setWidth 16
      restarts :=
        if val &&& BMCR_ANRESTART.setWidth 16 ≠ 0 ∧ val &&& BMCR_ANENABLE.setWidth 16 ≠ 0 then
          s.restarts + 1
        else s.restarts }
  else if reg = MII_ADVERTISE then { s with advertise := val }
  else if reg = MII_CTRL1000 then { s with ctrl1000 := val }
  else s

end Settings

section Accesses

variable {c : ℕ → Settings} {p p' : ℕ → Clause22}

theorem shows_reg (y : Clause22) (reg : ℕ) : y.settings.Shows reg (y.reg reg) := by
  refine ⟨?_, ?_, ?_, ?_, ?_⟩ <;> rintro rfl <;> rfl

theorem settings_write (y : Clause22) {reg : ℕ} {val : U16}
    (hval : reg = MII_BMCR → val &&& BMCR_RESET.setWidth 16 = 0) :
    (y.write reg val).settings = y.settings.write reg val := by
  unfold Clause22.write Settings.write
  by_cases hbmcr : reg = MII_BMCR
  · have hno : ¬ val &&& BMCR_RESET.setWidth 16 ≠ 0 := not_not.2 (hval hbmcr)
    rw [if_pos hbmcr, if_pos hbmcr, if_neg hno]
    rfl
  · rw [if_neg hbmcr, if_neg hbmcr]
    by_cases hadv : reg = MII_ADVERTISE
    · rw [if_pos (Or.inl hadv), if_pos hadv, hadv]
      rfl
    · by_cases hctrl : reg = MII_CTRL1000
      · rw [if_pos (Or.inr hctrl), if_neg hadv, if_pos hctrl, hctrl]
        rfl
      · rw [if_neg (not_or.2 ⟨hadv, hctrl⟩), if_neg hadv, if_neg hctrl]

theorem Holds.drift (h : Holds c p) (hdrift : Relation.ReflTransGen Drifts p p') : Holds c p' := by
  induction hdrift with
  | refl => exact h
  | tail _ hstep ih => exact fun a => (hstep a).trans (ih a)

/-- A register is read. -/
theorem runs_phyRead {α : Type} {phydev : PhyDevice} {reg : ℕ} {k : U32 → BusM α} {a : α}
    (h : Holds c p) (hrun : BusRuns (phyRead phydev reg >>= k) p a p') :
    ∃ (v : U16) (p₁ : ℕ → Clause22), (c phydev.addr).Shows reg v ∧ Holds c p₁ ∧
      BusRuns (k (v.setWidth 32)) p₁ a p' := by
  cases hrun with
  | @call _ _ _ p₂ _ r _ hsem hrest =>
      cases hsem with
      | @read _ _ _ _ p₁ _ hbefore hafter =>
          have h₁ : Holds c p₁ := h.drift hbefore
          refine ⟨(p₁ phydev.addr).reg reg, p₂, ?_, h₁.drift hafter, hrest⟩
          rw [← h₁ phydev.addr]
          exact shows_reg _ _

/-- A register is written. -/
theorem runs_phyWrite {α : Type} {phydev : PhyDevice} {reg : ℕ} {val : U16} {k : U32 → BusM α} {a : α}
    (hval : reg = MII_BMCR → val &&& BMCR_RESET.setWidth 16 = 0)
    (h : Holds c p) (hrun : BusRuns (phyWrite phydev reg val >>= k) p a p') :
    ∃ p₁, Holds (Function.update c phydev.addr ((c phydev.addr).write reg val)) p₁ ∧
      BusRuns (k 0) p₁ a p' := by
  cases hrun with
  | @call _ _ _ p₂ _ r _ hsem hrest =>
      cases hsem with
      | @write _ _ _ _ _ p₁ _ hbefore hafter =>
          have h₁ : Holds c p₁ := h.drift hbefore
          refine ⟨p₂, Holds.drift (fun b => ?_) hafter, hrest⟩
          change (Function.update p₁ phydev.addr _ b).settings = _
          by_cases hb : b = phydev.addr
          · rw [hb, Function.update_self, Function.update_self, settings_write _ hval, h₁]
          · rw [Function.update_of_ne hb, Function.update_of_ne hb, h₁]

end Accesses

end Phy

end BspV3s
