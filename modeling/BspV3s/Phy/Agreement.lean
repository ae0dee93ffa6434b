import Mathlib.Order.Bounds.Basic
import BspV3s.Emac.Agreement
import BspV3s.Phy.Config

/-!
# Agreement — two stations settle on one mode

Each station configures its PHY with `genphy_config`; the PHYs exchange their pages; each station then
reads off its own PHY what the link runs at, with `genphy_parse_link`.  Neither sees the other's result.

* `isGreatest_best`             : the best of the modes that there are;
* `parsed_best`                 : `genphy_parse_link` finds the best mode that both PHYs advertise;
* `configured_stations_agree`   : the two stations settle on one mode, the best that both can do and want.
-/

namespace BspV3s

namespace Phy

open Mii (U16 U32 BusM)
open Emac (testBits parsed)

/-! ## The best mode -/

namespace Mode

theorem feature_injective : Function.Injective Mode.feature := by
  intro m m' h
  cases m <;> cases m' <;> first | rfl | exact absurd h (by decide)

/-- Higher modes are preferred. -/
instance : LinearOrder Mode := LinearOrder.lift' feature feature_injective

def speed : Mode → ℕ
  | half10 | full10 => 10
  | half100 | full100 => 100
  | half1000 | full1000 => 1000

/-- `DUPLEX_HALF` or `DUPLEX_FULL`. -/
def duplex : Mode → ℕ
  | half10 | half100 | half1000 => 0
  | full10 | full100 | full1000 => 1

/-- The best of the modes that `has` picks, or the base mode if it picks none. -/
def best (has : Mode → Bool) : Mode :=
  if has full1000 then full1000
  else if has half1000 then half1000
  else if has full100 then full100
  else if has half100 then half100
  else if has full10 then full10
  else half10

end Mode

theorem isGreatest_best {has : Mode → Bool} (h : ∃ m, has m = true) :
    IsGreatest {m | has m = true} (Mode.best has) := by
  unfold Mode.best
  split_ifs with hf1000 hh1000 hf100 hh100 hf10
  · exact ⟨hf1000, fun m _ => by cases m <;> decide⟩
  · exact ⟨hh1000, fun m hm => by cases m <;> first | decide | exact absurd hm hf1000⟩
  · exact ⟨hf100, fun m hm => by
      cases m <;> first | decide | exact absurd hm hf1000 | exact absurd hm hh1000⟩
  · exact ⟨hh100, fun m hm => by
      cases m <;> first | decide | exact absurd hm hf1000 | exact absurd hm hh1000 |
        exact absurd hm hf100⟩
  · exact ⟨hf10, fun m hm => by
      cases m <;> first | decide | exact absurd hm hf1000 | exact absurd hm hh1000 |
        exact absurd hm hf100 | exact absurd hm hh100⟩
  · have honly : ∀ m, has m = true → m = .half10 := by
      intro m hm
      cases m <;> first | rfl | exact absurd hm hf1000 | exact absurd hm hh1000 |
        exact absurd hm hf100 | exact absurd hm hh100 | exact absurd hm hf10
    rcases h with ⟨m, hm⟩
    rw [honly m hm] at hm
    exact ⟨hm, fun m' hm' => by rw [honly m' hm']⟩

theorem best_of_none {has : Mode → Bool} (h : ∀ m, has m = false) : Mode.best has = .half10 := by
  simp only [Mode.best, h, if_neg Bool.false_ne_true]

/-! ## What one station sees -/

def LPA_1000FULL : U32 := 0x0800
def LPA_1000HALF : U32 := 0x0400
def BMSR_ERCAP : U32 := 0x0001

/-- The registers of a PHY with settings `s` that has exchanged its pages with one with settings `t`. -/
structure Sees (s t : Settings) (regs : Emac.PhyReg → U32) : Prop where
  halfword : ∀ r, (regs r).slt 0 = false
  bmsr : regs .bmsr &&& BMSR_ABILITIES = s.abilities.setWidth 32
  advertise : regs .advertise = s.advertise.setWidth 32
  ctrl1000 : s.extended = true → regs .ctrl1000 = s.ctrl1000.setWidth 32
  half10 : testBits (regs .lpa) ADVERTISE_10HALF = Mode.half10.offered t
  full10 : testBits (regs .lpa) ADVERTISE_10FULL = Mode.full10.offered t
  half100 : testBits (regs .lpa) ADVERTISE_100HALF = Mode.half100.offered t
  full100 : testBits (regs .lpa) ADVERTISE_100FULL = Mode.full100.offered t
  half1000 : s.extended = true → testBits (regs .stat1000) LPA_1000HALF = Mode.half1000.offered t
  full1000 : s.extended = true → testBits (regs .stat1000) LPA_1000FULL = Mode.full1000.offered t

/-- Both PHYs advertise the mode. -/
def common (s t : Settings) (m : Mode) : Bool := m.offered s && m.offered t

section Station

variable {phydev : Emac.PhyDevice} {s t : Settings} {regs : Emac.PhyReg → U32}

theorem testBits_and {v w : U32} (mask : U32) (i : ℕ) (hi : i < 32) (hmask : mask = 1#32 <<< i) :
    testBits (v &&& w) mask = (testBits v mask && testBits w mask) := by
  rw [testBits_eq mask i hi hmask, testBits_eq mask i hi hmask, testBits_eq mask i hi hmask, BitVec.getLsbD_and]

theorem testBits_of_and {v all mask : U32} (h : all &&& mask = mask) :
    testBits v mask = testBits (v &&& all) mask := by
  unfold testBits
  rw [BitVec.and_assoc, h]

/-- What `genphy_parse_link` reads off registers. -/
theorem parsed_eq (hautoneg : phydev.autoneg = Emac.AUTONEG_ENABLE) :
    parsed phydev regs =
      let gblpa := (Emac.gigabitAbility phydev).eval (Emac.answers regs 0)
      if testBits gblpa (0x0800#32 ||| 0x0400#32) then Emac.resolveGigabit phydev gblpa
      else Emac.resolveEstatus (Emac.resolveLpa phydev (regs .advertise &&& regs .lpa))
        ((Emac.readEstatus (regs .bmsr)).eval (Emac.answers regs 0)) := by
  rw [parsed, Emac.genphyParseLink, Emac.phyRead, Prog.op_bind, Prog.eval, if_pos hautoneg,
    Prog.eval_bind]
  simp only
  split
  · rfl
  · rw [Emac.phyRead, Prog.op_bind, Prog.eval, Emac.phyRead, Prog.op_bind, Prog.eval, Prog.eval_bind]
    rfl

/-- The gigabit modes that both PHYs advertise. -/
theorem testBits_gblpa (hsees : Sees s t regs)
    (hsup : testBits phydev.supported (Emac.bit 5 ||| Emac.bit 4) = true → s.extended = true)
    (hoffers : s.extended = true → (Mode.full1000.offered s || Mode.half1000.offered s) = true →
      testBits phydev.supported (Emac.bit 5 ||| Emac.bit 4) = true) :
    testBits ((Emac.gigabitAbility phydev).eval (Emac.answers regs 0)) LPA_1000FULL =
        common s t .full1000 ∧
      testBits ((Emac.gigabitAbility phydev).eval (Emac.answers regs 0)) LPA_1000HALF =
        common s t .half1000 := by
  cases hany : testBits phydev.supported (Emac.bit 5 ||| Emac.bit 4) with
  | true =>
      have hext := hsup hany
      have hgblpa : (Emac.gigabitAbility phydev).eval (Emac.answers regs 0) =
          regs .stat1000 &&& (s.ctrl1000.setWidth 32) <<< 2 := by
        rw [Emac.gigabitAbility, hany, if_pos rfl, Emac.phyRead, Prog.op_bind, Prog.eval, Emac.phyRead,
          Prog.op_bind, Prog.eval, ← hsees.ctrl1000 hext]
        change (if (regs .stat1000).slt 0 then 0 else regs .stat1000) &&& _ = _
        rw [hsees.halfword, if_neg Bool.false_ne_true]
        rfl
      have hfull : testBits (s.ctrl1000.setWidth 32 <<< 2) LPA_1000FULL =
          testBits (s.ctrl1000.setWidth 32) ADVERTISE_1000FULL := by
        rw [testBits_eq LPA_1000FULL 11 (by decide) rfl,
          testBits_eq ADVERTISE_1000FULL 9 (by decide) rfl, BitVec.getLsbD_shiftLeft]
        rfl
      have hhalf : testBits (s.ctrl1000.setWidth 32 <<< 2) LPA_1000HALF =
          testBits (s.ctrl1000.setWidth 32) ADVERTISE_1000HALF := by
        rw [testBits_eq LPA_1000HALF 10 (by decide) rfl,
          testBits_eq ADVERTISE_1000HALF 8 (by decide) rfl, BitVec.getLsbD_shiftLeft]
        rfl
      rw [hgblpa, testBits_and LPA_1000FULL 11 (by decide) rfl,
        testBits_and LPA_1000HALF 10 (by decide) rfl, hfull, hhalf,
        hsees.full1000 hext, hsees.half1000 hext]
      simp only [common, Mode.offered, hext, Bool.true_and, Bool.and_comm, and_self]
  | false =>
      have hgblpa : (Emac.gigabitAbility phydev).eval (Emac.answers regs 0) = 0 := by
        rw [Emac.gigabitAbility, hany, if_neg Bool.false_ne_true]
        rfl
      have hnone : (Mode.full1000.offered s || Mode.half1000.offered s) = false := by
        cases hext : s.extended with
        | false => simp only [Mode.offered, hext, Bool.false_and, Bool.or_self]
        | true =>
            refine Bool.eq_false_iff.2 fun h => ?_
            rw [hoffers hext h] at hany
            exact absurd hany (by decide)
      rw [Bool.or_eq_false_iff] at hnone
      rw [hgblpa, common, common, hnone.1, hnone.2]
      exact ⟨rfl, rfl⟩

/-- A station's PHY runs at the best of the modes that both PHYs advertise. -/
theorem parsed_best (hautoneg : phydev.autoneg = Emac.AUTONEG_ENABLE) (hsees : Sees s t regs)
    (hsup : testBits phydev.supported (Emac.bit 5 ||| Emac.bit 4) = true → s.extended = true)
    (hoffers : s.extended = true → (Mode.full1000.offered s || Mode.half1000.offered s) = true →
      testBits phydev.supported (Emac.bit 5 ||| Emac.bit 4) = true)
    (hercap : s.extended = true → testBits (s.abilities.setWidth 32) BMSR_ERCAP = true) :
    (parsed phydev regs).speed = (Mode.best (common s t)).speed ∧
      (parsed phydev regs).duplex = (Mode.best (common s t)).duplex := by
  rcases testBits_gblpa hsees hsup hoffers with ⟨hfull, hhalf⟩
  have hestatus : (Emac.readEstatus (regs .bmsr)).eval (Emac.answers regs 0) = 0 := by
    have hestaten : testBits (regs .bmsr) BMSR_ESTATEN = s.extended := by
      rw [testBits_of_and (by decide : BMSR_ABILITIES &&& BMSR_ESTATEN = BMSR_ESTATEN), hsees.bmsr]
      rfl
    have hercap' : testBits (regs .bmsr) BMSR_ERCAP = testBits (s.abilities.setWidth 32) BMSR_ERCAP := by
      rw [testBits_of_and (by decide : BMSR_ABILITIES &&& BMSR_ERCAP = BMSR_ERCAP), hsees.bmsr]
    have hmissing : (testBits (regs .bmsr) 0x0100#32 && !testBits (regs .bmsr) 0x0001#32) = false := by
      rw [show testBits _ 0x0100#32 = _ from hestaten, show testBits _ 0x0001#32 = _ from hercap']
      cases hext : s.extended with
      | false => rfl
      | true => rw [hercap hext]; rfl
    rw [Emac.readEstatus, hmissing, if_neg Bool.false_ne_true]
    rfl
  have hlpa : ∀ (m : Mode) (mask : U32) (i : ℕ), i < 32 → mask = 1#32 <<< i →
      testBits (s.advertise.setWidth 32) mask = m.offered s → testBits (regs .lpa) mask = m.offered t →
      testBits (regs .advertise &&& regs .lpa) mask = common s t m := by
    intro m mask i hi hmask hs ht
    rw [testBits_and mask i hi hmask, hsees.advertise, hs, ht, common]
  have hf100 := hlpa .full100 ADVERTISE_100FULL 8 (by decide) rfl rfl hsees.full100
  have hh100 := hlpa .half100 ADVERTISE_100HALF 7 (by decide) rfl rfl hsees.half100
  have hf10 := hlpa .full10 ADVERTISE_10FULL 6 (by decide) rfl rfl hsees.full10
  rw [parsed_eq hautoneg, hestatus]
  simp only [testBits_or]
  unfold Emac.resolveGigabit Emac.resolveLpa Mode.best
  simp only [testBits_or]
  rw [show testBits _ 0x0800#32 = _ from hfull, show testBits _ 0x0400#32 = _ from hhalf,
    show testBits _ 0x0100#32 = _ from hf100, show testBits _ 0x0080#32 = _ from hh100,
    show testBits _ 0x0040#32 = _ from hf10]
  cases common s t .full1000 <;> cases common s t .half1000 <;> cases common s t .full100 <;>
    cases common s t .half100 <;> cases common s t .full10 <;> exact ⟨rfl, rfl⟩

end Station

/-! ## Two stations -/

/-- The device as the driver of the MAC has it. -/
def linkDevice (d : PhyDevice) : Emac.PhyDevice where
  autoneg := d.autoneg.toNat
  supported := d.supported
  speed := d.speed.toNat
  duplex := d.duplex.toNat

section Stations

variable {d d' e e' : PhyDevice} {s s' t t' : Settings} {regs : Emac.PhyReg → U32}

theorem testBits_gigabit (v : U32) :
    testBits v (Emac.bit 5 ||| Emac.bit 4) =
      (v.getLsbD Mode.full1000.feature || v.getLsbD Mode.half1000.feature) := by
  rw [testBits_or, testBits_eq (Emac.bit 5) 5 (by decide) rfl,
    testBits_eq (Emac.bit 4) 4 (by decide) rfl]
  rfl

theorem Configured.extended (h : Configured d d' s s') : s'.extended = s.extended := by
  rw [Settings.extended, Settings.extended, h.abilities]

/-- A device that supports a gigabit mode has a PHY with one. -/
theorem Configured.gigabit (h : Configured d d' s s') :
    (testBits d'.supported (Emac.bit 5 ||| Emac.bit 4) = true → s'.extended = true) ∧
      ((Mode.full1000.offered s' || Mode.half1000.offered s') = true →
        testBits d'.supported (Emac.bit 5 ||| Emac.bit 4) = true) := by
  have hsup : ∀ m : Mode, d'.supported.getLsbD m.feature =
      (d.supported.getLsbD m.feature && m.able s) := by
    intro m
    rw [h.supported, BitVec.getLsbD_and, getLsbD_features]
  rw [testBits_gigabit, hsup, hsup, h.extended, h.offers, h.offers]
  cases hext : s.extended with
  | false => simp only [Mode.able, hext, Bool.false_and, Bool.and_false, Bool.or_self,
      Bool.false_eq_true, false_implies, and_self]
  | true =>
      refine ⟨fun _ => rfl, fun hoffers => ?_⟩
      simp only [Mode.willing, Bool.or_eq_true, Bool.and_eq_true] at hoffers ⊢
      exact hoffers.imp (fun h => ⟨h.1.1, h.2⟩) fun h => ⟨h.1.1, h.2⟩

/-- What both stations want and both PHYs can do. -/
def shared (d : PhyDevice) (s : Settings) (e : PhyDevice) (t : Settings) (m : Mode) : Bool :=
  m.willing d && m.able s && (m.willing e && m.able t)

theorem shared_comm : shared d s e t = shared e t d s := by
  funext m
  rw [shared, shared, Bool.and_comm]

/-- One of the stations. -/
theorem Configured.parsed (h : Configured d d' s s') (h' : Configured e e' t t')
    (hautoneg : d'.autoneg = AUTONEG_ENABLE)
    (hercap : s.extended = true → testBits (s.abilities.setWidth 32) BMSR_ERCAP = true)
    (hsees : Sees s' t' regs) :
    (Emac.parsed (linkDevice d') regs).speed = (Mode.best (shared d s e t)).speed ∧
      (Emac.parsed (linkDevice d') regs).duplex = (Mode.best (shared d s e t)).duplex := by
  have hcommon : common s' t' = shared d s e t := by
    funext m
    rw [common, h.offers, h'.offers, shared]
  have hlink : (linkDevice d').autoneg = Emac.AUTONEG_ENABLE := by
    rw [linkDevice, hautoneg]
    rfl
  rw [← hcommon]
  refine parsed_best hlink hsees h.gigabit.1 (fun _ => h.gigabit.2) fun hext => ?_
  rw [h.abilities]
  exact hercap (by rw [← h.extended, hext])

end Stations

/-- Two stations that configure their PHYs, whatever happens on their buses meanwhile, agree once the
pages have been exchanged: on the best mode that both PHYs can do and both stations support and want,
and on half duplex at 10 Mb/s if there is none. -/
theorem configured_stations_agree {d d' e e' : PhyDevice} {r r' : U32} {p p' q q' : ℕ → Clause22}
    (hrun : BusRuns (genphyConfig d) p (r, d') p') (hrun' : BusRuns (genphyConfig e) q (r', e') q')
    (hautoneg : d.autoneg = AUTONEG_ENABLE ∧ e.autoneg = AUTONEG_ENABLE)
    (hcopper : Copper d ∧ Copper e)
    (hreset : (p d.addr).settings.bmcr.getLsbD 15 = false ∧
      (q e.addr).settings.bmcr.getLsbD 15 = false)
    (hercap : ∀ s ∈ [(p d.addr).settings, (q e.addr).settings],
      s.extended = true → testBits (s.abilities.setWidth 32) BMSR_ERCAP = true)
    {regs regs' : Emac.PhyReg → U32} (hsees : Sees (p' d.addr).settings (q' e.addr).settings regs)
    (hsees' : Sees (q' e.addr).settings (p' d.addr).settings regs') :
    (parsed (linkDevice d') regs).speed = (parsed (linkDevice e') regs').speed ∧
      (parsed (linkDevice d') regs).duplex = (parsed (linkDevice e') regs').duplex ∧
      (∀ m, IsGreatest
          {m | shared d (p d.addr).settings e (q e.addr).settings m = true} m →
        (parsed (linkDevice d') regs).speed = m.speed ∧
          (parsed (linkDevice d') regs).duplex = m.duplex) ∧
      ((∀ m, shared d (p d.addr).settings e (q e.addr).settings m = false) →
        (parsed (linkDevice d') regs).speed = 10 ∧ (parsed (linkDevice d') regs).duplex = 0) := by
  rcases runs_genphyConfig (c := fun b => (p b).settings) (fun _ => rfl) rfl hautoneg.1 hreset.1 hrun
    with ⟨hd, hp'⟩
  rcases runs_genphyConfig (c := fun b => (q b).settings) (fun _ => rfl) rfl hautoneg.2 hreset.2 hrun'
    with ⟨he, hq'⟩
  rcases Prod.mk.inj hd with ⟨-, rfl⟩
  rcases Prod.mk.inj he with ⟨-, rfl⟩
  have hconf := configured_settles (s := (p d.addr).settings) hcopper.1
  have hconf' := configured_settles (s := (q e.addr).settings) hcopper.2
  have hp := hp' d.addr
  have hq := hq' e.addr
  rw [Function.update_self] at hp hq
  rw [← hp] at hconf
  rw [← hq] at hconf'
  rcases hconf.parsed hconf' hautoneg.1 (hercap _ (List.mem_cons_self ..)) hsees with ⟨hs, hd⟩
  rcases hconf'.parsed hconf hautoneg.2
    (hercap _ (List.mem_cons_of_mem _ (List.mem_cons_self ..))) hsees' with ⟨hs', hd'⟩
  rw [shared_comm] at hs' hd'
  refine ⟨hs.trans hs'.symm, hd.trans hd'.symm, fun m hm => ?_, fun hnone => ?_⟩
  · obtain rfl := hm.unique (isGreatest_best ⟨m, hm.1⟩)
    exact ⟨hs, hd⟩
  · rw [best_of_none hnone] at hs hd
    exact ⟨hs, hd⟩

/-- PHYs that keep still. -/
def quietly : (o : Mii.Op) → (ℕ → Clause22) → o.Ret × (ℕ → Clause22)
  | .read addr _ reg, p => (((p addr).reg reg).setWidth 32, p)
  | .write addr _ reg val, p => (0, clause22.write addr reg val p)
  | .udelay _, p => ((), p)

theorem sem_quietly (o : Mii.Op) (p : ℕ → Clause22) :
    Mii.Sem clause22 Drifts o p (quietly o p).1 (quietly o p).2 := by
  cases o with
  | read addr devad reg => exact Mii.Sem.read (B := clause22) .refl .refl
  | write addr devad reg val => exact Mii.Sem.write (B := clause22) .refl .refl
  | udelay usec => exact .udelay .refl

/-- The registers of a PHY after the exchange. -/
def pages (s t : Settings) : Emac.PhyReg → U32
  | .bmcr => s.bmcr.setWidth 32
  | .bmsr => s.abilities.setWidth 32
  | .advertise => s.advertise.setWidth 32
  | .lpa => t.advertise.setWidth 32
  | .ctrl1000 => s.ctrl1000.setWidth 32
  | .stat1000 => if t.extended then (t.ctrl1000 <<< 2 &&& 0x0c00).setWidth 32 else 0
  | .estatus => s.estatus.setWidth 32

theorem sees_pages (y : Clause22) (t : Settings) : Sees y.settings t (pages y.settings t) := by
  have hstat : ∀ {mask gmask : U32} (i : ℕ), i + 2 < 16 → mask = 1#32 <<< (i + 2) →
      gmask = 1#32 <<< i → (0x0c00#16).getLsbD (i + 2) = true →
      testBits (pages y.settings t .stat1000) mask =
        (t.extended && testBits (t.ctrl1000.setWidth 32) gmask) := by
    intro mask gmask i hi hmask hgmask hbit
    rw [testBits_eq mask (i + 2) (by omega) hmask, testBits_eq gmask i (by omega) hgmask, pages]
    cases t.extended with
    | false => rw [if_neg Bool.false_ne_true, BitVec.ofNat_eq_ofNat, BitVec.getLsbD_zero, Bool.false_and]
    | true =>
        have hwide : i + 2 < 32 ∧ i < 32 := by omega
        simp only [if_true, BitVec.getLsbD_setWidth, BitVec.getLsbD_and, BitVec.getLsbD_shiftLeft, hi,
          hwide, decide_true, Bool.true_and, Nat.add_sub_cancel, Nat.not_lt.2 (Nat.le_add_left 2 i),
          decide_false, Bool.not_false, BitVec.ofNat_eq_ofNat, hbit, Bool.and_true]
  refine ⟨fun r => ?_, ?_, rfl, fun _ => rfl, rfl, rfl, rfl, rfl, fun _ => ?_, fun _ => ?_⟩
  · cases r with
    | stat1000 =>
        rw [pages]
        split
        · exact not_slt_setWidth _
        · rfl
    | _ => exact not_slt_setWidth _
  · have hwide : (BMSR_ABILITIES.setWidth 16).setWidth 32 = BMSR_ABILITIES := rfl
    change (y.reg MII_BMSR &&& BMSR_ABILITIES.setWidth 16).setWidth 32 &&& BMSR_ABILITIES = _
    rw [BitVec.setWidth_and, hwide, BitVec.and_assoc, BitVec.and_self, ← hwide, ← BitVec.setWidth_and]
    rfl
  · exact hstat 8 (by decide) rfl rfl (by decide)
  · exact hstat 9 (by decide) rfl rfl (by decide)

/-- A station that wants nothing above 10 Mb/s. -/
def slowDevice : PhyDevice := { genericDevice with advertising := 0x003 }

theorem configured_stations_agree_slow :
    let a := (genphyConfig genericDevice).runOn quietly fun _ => silentPhy
    let b := (genphyConfig slowDevice).runOn quietly fun _ => silentPhy
    let link := parsed (linkDevice a.1.2) (pages (a.2 1).settings (b.2 1).settings)
    let link' := parsed (linkDevice b.1.2) (pages (b.2 1).settings (a.2 1).settings)
    link.speed = link'.speed ∧ link.duplex = link'.duplex ∧ link.speed = 10 ∧ link.duplex = 1 := by
  intro a b link link'
  have h := configured_stations_agree (d := genericDevice) (e := slowDevice)
    (p := fun _ => silentPhy) (q := fun _ => silentPhy)
    (Prog.runs_runOn sem_quietly (genphyConfig genericDevice) _)
    (Prog.runs_runOn sem_quietly (genphyConfig slowDevice) _) ⟨rfl, rfl⟩
    ⟨⟨by decide, by decide⟩, by decide, by decide⟩ ⟨by decide, by decide⟩ (by decide)
    (sees_pages (a.2 1) (b.2 1).settings) (sees_pages (b.2 1) (a.2 1).settings)
  have hbest : Mode.best (shared genericDevice silentPhy.settings slowDevice silentPhy.settings) =
    .full10 := by decide
  have hshared : shared genericDevice silentPhy.settings slowDevice silentPhy.settings .half10 = true := by
    decide
  have hgreatest := isGreatest_best ⟨_, hshared⟩
  rw [hbest] at hgreatest
  exact ⟨h.1, h.2.1, (h.2.2.1 _ hgreatest).1, (h.2.2.1 _ hgreatest).2⟩

end Phy

end BspV3s
