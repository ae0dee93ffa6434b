import BspV3s.Phy.Discovery

/-!
# BringUp — from an unknown PHY to one that negotiates

`sun8i_phy_init` finds the PHY of the board, resets it twice, and configures it, all through the
registers of the MAC.  Finding it only looks at the bus; the reset makes what was in the PHY before
irrelevant; so where this ends depends on nothing but what the PHY can do and what its defaults are.

* `Looks`                  : accesses that change nothing;
* `runs_settle`            : the resets and the configuration of a device that has been found;
* `sun8iPhyInits_again`    : any number of calls for a PHY that is set up;
* `sun8i_phy_init_by_mac`  : the first call, and those after it.
-/

namespace BspV3s

namespace Phy

open Mii (U16 U32 BusM MDIO_DEVAD_NONE)
open Emac (testBits)

def ENODEV : ℤ := 19

/-- `phy_config`; the board has no helper of its own. -/
def phyConfig (phydev : ℕ) (L : MiiBus) : BusM (U32 × MiiBus) :=
  match (L.dev phydev).drv.config with
  | some config => do
      let (r, d) ← config (L.dev phydev).toPhyDevice
      pure (r, { L with dev := Function.update L.dev phydev { L.dev phydev with toPhyDevice := d } })
  | none => pure (0, L)

/-- What is returned, and `priv->phydev`. -/
def sun8iPhyInit (phyaddr dev : ℕ) (interface : PhyInterface) (L : MiiBus) :
    BusM ((ℤ × Option ℕ) × MiiBus) := do
  let (phydev, L) ← phyConnect phyaddr dev interface L
  match phydev with
  | none => pure ((-ENODEV, none), L)
  | some x => do
      let L ← phyConnectDev x dev L
      let (_, L) ← phyConfig x L
      pure ((0, some x), L)

/-- Further calls with one address, each for its own ethernet device and interface. -/
def sun8iPhyInits (phyaddr : ℕ) :
    List (ℕ × PhyInterface) → MiiBus → BusM (List (ℤ × Option ℕ) × MiiBus)
  | [], L => pure ([], L)
  | (dev, interface) :: calls, L => do
      let (r, L) ← sun8iPhyInit phyaddr dev interface L
      let (rest, L) ← sun8iPhyInits phyaddr calls L
      pure (r :: rest, L)

/-- The part of it that comes after the PHY has been found. -/
def settle (x dev : ℕ) (L : MiiBus) : BusM ((ℤ × Option ℕ) × MiiBus) := do
  let L ← phyConnectDev x dev L
  let L ← phyConnectDev x dev L
  let (_, L) ← phyConfig x L
  pure ((0, some x), L)

theorem sun8iPhyInit_eq (phyaddr dev : ℕ) (interface : PhyInterface) (L : MiiBus) :
    sun8iPhyInit phyaddr dev interface L =
      phyFindByMask (1#32 <<< phyaddr) interface L >>= fun found =>
        match found.1 with
        | none => pure ((-ENODEV, none), found.2)
        | some x => settle x dev found.2 := by
  rw [sun8iPhyInit, phyConnect, bind_assoc]
  refine congrArg _ (funext fun found => ?_)
  rcases found with ⟨phydev, L⟩
  cases phydev with
  | none => rfl
  | some x =>
      dsimp only
      rw [bind_assoc]
      rfl

/-! ## What is accessed -/

/-- The accesses that look at a register or wait. -/
def Looks : Mii.Op → Prop
  | .read addr _ reg => addr < 32 ∧ reg < 32
  | .write _ _ _ _ => False
  | .udelay _ => True

theorem Looks.addressed : ∀ {o : Mii.Op}, Looks o → o.Addressed
  | .read _ _ _, h => h
  | .udelay _, _ => trivial

section Footprints

theorem looks_read {addr : ℕ} (haddr : addr < 32) (reg : ℕ) (hreg : reg < 32) (devad : ℤ) :
    Prog.Only Looks (Mii.busRead addr devad reg) :=
  Prog.only_op ⟨haddr, hreg⟩

theorem looks_getPhyId {addr : ℕ} (haddr : addr < 32) (devad : ℤ) :
    Prog.Only Looks (getPhyId addr devad) := by
  refine (looks_read haddr _ (by decide) devad).bind fun _ => Prog.Only.ite (Prog.only_pure _) ?_
  refine (looks_read haddr _ (by decide) devad).bind fun _ => ?_
  exact Prog.Only.ite (Prog.only_pure _) (Prog.only_pure _)

theorem looks_createPhyByMask (phyMask : U32) (devad : ℤ) (interface : PhyInterface) (L : MiiBus) :
    Prog.Only Looks (createPhyByMask phyMask devad interface L) := by
  induction phyMask using ffs_induction with
  | zero =>
      rw [createPhyByMask, dif_neg (not_not.2 rfl)]
      exact Prog.only_pure _
  | step phyMask hmask ih =>
      rw [createPhyByMask, dif_pos hmask]
      refine (looks_getPhyId (ffs_lt hmask) devad).bind fun found => ?_
      cases found.filter answers with
      | none => exact ih
      | some phyId => exact Prog.only_pure _

theorem looks_tryDevads (phyMask : U32) (interface : PhyInterface) (left i : ℕ) (L : MiiBus) :
    Prog.Only Looks (tryDevads phyMask interface left i L) := by
  induction left generalizing i L with
  | zero => exact Prog.only_pure _
  | succ left ih =>
      refine (looks_createPhyByMask phyMask _ interface L).bind fun found => ?_
      exact Prog.Only.ite (Prog.only_pure _) (ih _ _)

/-- A bus without a `reset` is only looked at. -/
theorem looks_phyFindByMask {L : MiiBus} (hreset : L.reset = none) (phyMask : U32)
    (interface : PhyInterface) : Prog.Only Looks (phyFindByMask phyMask interface L) := by
  rw [phyFindByMask, busReset, hreset]
  refine (Prog.only_pure _).bind fun _ => ?_
  exact Prog.Only.ite (Prog.only_pure _) (looks_tryDevads _ _ _ _ _)

theorem looks_resetPoll {d : PhyDevice} (haddr : d.addr < 32) (timeout : ℕ) (reg : U32) :
    Prog.Only Looks (resetPoll d timeout reg) := by
  induction timeout generalizing reg with
  | zero => exact Prog.only_pure _
  | succ timeout ih =>
      refine Prog.Only.ite ((looks_read haddr MII_BMCR (by decide) _).bind fun reg => ?_) (Prog.only_pure _)
      exact Prog.Only.ite (Prog.only_pure _) ((Prog.only_op trivial).bind fun _ => ih reg)

variable {L : MiiBus} {x : ℕ}

theorem only_phyReset {d : Device} (haddr : d.addr < 32) : Prog.Only Mii.Op.Addressed (phyReset d) := by
  refine Prog.Only.ite (Prog.only_pure _) ((only_phyWrite haddr (by decide) _).bind fun _ => ?_)
  refine Prog.Only.ite (Prog.only_pure _) ((only_phyRead haddr (by decide)).bind fun reg => ?_)
  exact (looks_resetPoll haddr 500 reg).mono fun _ => Looks.addressed

theorem only_phyConnectDev (haddr : (L.dev x).addr < 32) (dev : ℕ) :
    Prog.Only Mii.Op.Addressed (phyConnectDev x dev L) :=
  (only_phyReset haddr).bind fun _ => Prog.only_pure _

/-- A device of the generic driver that can be reset. -/
structure Generic (addr : ℕ) (d : Device) : Prop where
  addr_eq : d.addr = addr
  lt : addr < 32
  flags : d.flags = 0
  autoneg : d.autoneg = AUTONEG_ENABLE
  config : d.drv.config = some genphyConfig

/-- The device at `x` is connected to `dev`. -/
def connectedTo (x dev : ℕ) (L : MiiBus) : MiiBus :=
  { L with dev := Function.update L.dev x { L.dev x with dev := some dev } }

theorem dev_connectedTo (x dev : ℕ) (L : MiiBus) :
    (connectedTo x dev L).dev x = { L.dev x with dev := some dev } :=
  Function.update_self ..

theorem Generic.attached {addr : ℕ} (h : Generic addr (L.dev x)) (dev : ℕ) :
    Generic addr ((connectedTo x dev L).dev x) := by
  rw [dev_connectedTo]
  exact ⟨h.addr_eq, h.lt, h.flags, h.autoneg, h.config⟩

theorem connectedTo_connectedTo (x dev : ℕ) (L : MiiBus) :
    connectedTo x dev (connectedTo x dev L) = connectedTo x dev L := by
  rw [connectedTo, dev_connectedTo]
  unfold connectedTo
  rw [Function.update_idem]

theorem settle_eq (x dev : ℕ) (L : MiiBus) :
    settle x dev L = phyReset (L.dev x) >>= fun _ =>
      phyReset ((connectedTo x dev L).dev x) >>= fun _ =>
        phyConfig x (connectedTo x dev L) >>= fun r => pure ((0, some x), r.2) := by
  have hconnect : ∀ L, phyConnectDev x dev L = phyReset (L.dev x) >>= fun _ => pure (connectedTo x dev L) :=
    fun _ => rfl
  rw [settle, hconnect, bind_assoc]
  refine congrArg _ (funext fun _ => ?_)
  rw [pure_bind, hconnect, bind_assoc]
  refine congrArg _ (funext fun _ => ?_)
  rw [pure_bind, connectedTo_connectedTo]

theorem only_settle {addr : ℕ} (h : Generic addr (L.dev x)) (dev : ℕ) :
    Prog.Only Mii.Op.Addressed (settle x dev L) := by
  have hlt : (L.dev x).addr < 32 := h.addr_eq ▸ h.lt
  have hconn := h.attached dev
  have hlt' : ((connectedTo x dev L).dev x).addr < 32 := hconn.addr_eq ▸ hconn.lt
  rw [settle_eq]
  refine (only_phyReset hlt).bind fun _ => (only_phyReset hlt').bind fun _ => ?_
  rw [phyConfig, hconn.config]
  refine Prog.Only.bind ?_ fun _ => Prog.only_pure _
  exact (only_genphyConfig hlt').bind fun _ => Prog.only_pure _

end Footprints

/-! ## What is left in the PHY -/

/-- The settings of a PHY after a reset. -/
def resetSettings (defaults : ℕ → U16) (restarts : ℕ) : Settings :=
  (Clause22.mk defaults defaults restarts).settings

/-- The PHYs have these settings and these defaults. -/
structure Stands (c : ℕ → Settings) (defaults : ℕ → ℕ → U16) (p : ℕ → Clause22) : Prop where
  holds : Holds c p
  defaults : ∀ a, (p a).defaults = defaults a

abbrev IdleRuns {α : Type} (p : BusM α) (s : ℕ → Clause22) (a : α) (s' : ℕ → Clause22) : Prop :=
  Prog.Runs (Mii.Sem clause22 Idles) p s a s'

section Runs

variable {c : ℕ → Settings} {df : ℕ → ℕ → U16} {p p' : ℕ → Clause22} {L : MiiBus} {x addr dev : ℕ}

theorem Stands.idles (h : Stands c df p) (hidles : Relation.ReflTransGen Idles p p') :
    Stands c df p' := by
  induction hidles with
  | refl => exact h
  | tail _ hstep ih =>
      exact ⟨fun a => (hstep.1 a).trans (ih.holds a), fun a => (hstep.2 a).1.trans (ih.defaults a)⟩

theorem Stands.reset (h : Stands c df p) (a : ℕ) :
    Stands (Function.update c a (resetSettings (df a) (c a).restarts)) df
      (clause22.write a MII_BMCR (BMCR_RESET.setWidth 16) p) := by
  have hwrite : (p a).write MII_BMCR (BMCR_RESET.setWidth 16) = { p a with reg := (p a).defaults } := by
    rw [Clause22.write, if_pos rfl, if_pos (by decide)]
  have hat : clause22.write a MII_BMCR (BMCR_RESET.setWidth 16) p =
      Function.update p a { p a with reg := (p a).defaults } := congrArg (Function.update p a) hwrite
  rw [hat]
  refine ⟨fun b => ?_, fun b => ?_⟩
  · by_cases hb : b = a
    · subst hb
      rw [Function.update_self, Function.update_self, ← h.holds b, ← h.defaults b]
      rfl
    · rw [Function.update_of_ne hb, Function.update_of_ne hb, h.holds b]
  · by_cases hb : b = a
    · subst hb
      rw [Function.update_self]
      exact h.defaults b
    · rw [Function.update_of_ne hb]
      exact h.defaults b

/-- Looking changes nothing. -/
theorem runs_looks {α : Type} {q : BusM α} {r : α} (hq : Prog.Only Looks q) (h : Stands c df p)
    (hrun : IdleRuns q p r p') : Stands c df p' := by
  induction hrun with
  | ret => exact h
  | call hsem _ ih =>
      rcases Prog.only_call_iff.1 hq with ⟨hlooks, hrest⟩
      refine ih (hrest _) ?_
      cases hsem with
      | read hbefore hafter => exact (h.idles hbefore).idles hafter
      | write => exact hlooks.elim
      | udelay hmoves => exact h.idles hmoves

theorem defaults_write (y : Clause22) (reg : ℕ) (val : U16) : (y.write reg val).defaults = y.defaults := by
  unfold Clause22.write
  split_ifs <;> rfl

theorem runs_defaults {α : Type} {q : BusM α} {r : α} (hrun : IdleRuns q p r p') (a : ℕ) :
    (p' a).defaults = (p a).defaults := by
  have hidles : ∀ {p p'}, Relation.ReflTransGen Idles p p' → (p' a).defaults = (p a).defaults := by
    intro p p' h
    induction h with
    | refl => rfl
    | tail _ hstep ih => exact (hstep.2 a).1.trans ih
  induction hrun with
  | ret => rfl
  | call hsem _ ih =>
      refine ih.trans ?_
      cases hsem with
      | read hbefore hafter => exact (hidles hafter).trans (hidles hbefore)
      | @write addr reg _ val _ p₁ _ hbefore hafter =>
          refine (hidles hafter).trans (Eq.trans ?_ (hidles hbefore))
          change (Function.update p₁ addr _ a).defaults = _
          by_cases ha : a = addr
          · rw [ha, Function.update_self, defaults_write]
          · rw [Function.update_of_ne ha]
      | udelay hmoves => exact hidles hmoves

/-- A PHY that is reset has its defaults. -/
theorem runs_phyReset {d : Device} (hd : Generic addr d) (h : Stands c df p) {r : U32}
    (hrun : IdleRuns (phyReset d) p r p') :
    Stands (Function.update c addr (resetSettings (df addr) (c addr).restarts)) df p' := by
  have hflags : testBits d.flags PHY_FLAG_BROKEN_RESET = false := by
    rw [hd.flags]
    rfl
  have hlt : d.addr < 32 := hd.addr_eq ▸ hd.lt
  rw [phyReset, hflags, if_neg Bool.false_ne_true] at hrun
  rcases Prog.runs_bind_inv hrun with ⟨err, p₁, hwrite, hrest⟩
  have hp₁ : Stands (Function.update c addr (resetSettings (df addr) (c addr).restarts)) df p₁ := by
    cases hwrite with
    | call hsem hret =>
        cases hret
        cases hsem with
        | write hbefore hafter =>
            rw [hd.addr_eq] at hafter
            exact ((h.idles hbefore).reset addr).idles hafter
  refine runs_looks ?_ hp₁ hrest
  refine Prog.Only.ite (Prog.only_pure _) ((looks_read hlt MII_BMCR (by decide) _).bind fun reg => ?_)
  exact looks_resetPoll hlt 500 reg

/-- What the resets and the configuration make of the device at `x`. -/
def settled (x dev : ℕ) (s : Settings) (L : MiiBus) : MiiBus :=
  { L with
    dev := Function.update L.dev x
      { L.dev x with
        toPhyDevice := configuredDevice (L.dev x).toPhyDevice s
        dev := some dev } }

theorem runs_settle (hd : Generic addr (L.dev x)) (h : Stands c df p) {s : Settings}
    (hs : s = resetSettings (df addr) (c addr).restarts) (hsane : s.bmcr.getLsbD 15 = false)
    {r : (ℤ × Option ℕ) × MiiBus} (hrun : IdleRuns (settle x dev L) p r p') :
    r = ((0, some x), settled x dev s L) ∧
      Stands (Function.update c addr (s.configured (configuredDevice (L.dev x).toPhyDevice s))) df p' := by
  rw [settle_eq] at hrun
  rcases Prog.runs_bind_inv hrun with ⟨_, p₁, hfirst, hrun⟩
  rcases Prog.runs_bind_inv hrun with ⟨_, p₂, hsecond, hrun⟩
  rcases Prog.runs_bind_inv hrun with ⟨⟨r₁, L₁⟩, p₃, hconfig, hret⟩
  have hp₁ := runs_phyReset hd h hfirst
  have hp₂ := runs_phyReset (hd.attached dev) hp₁ hsecond
  -- The second reset finds what the first has left.
  rw [Function.update_self, Function.update_idem] at hp₂
  change Stands (Function.update c addr (resetSettings (df addr) (c addr).restarts)) df p₂ at hp₂
  rw [← hs] at hp₂
  have hlt := hd.attached dev
  rw [phyConfig, hlt.config] at hconfig
  rcases Prog.runs_bind_inv hconfig with ⟨⟨r₂, d⟩, p₄, hgenphy, hlast⟩
  have hdefaults := runs_defaults hgenphy
  have hsettled := runs_genphyConfig (c := Function.update c addr s) (s := s) hp₂.holds
    (by rw [hlt.addr_eq, Function.update_self]) hlt.autoneg hsane
    (hgenphy.mono fun _ _ _ _ hsem => hsem.mono fun _ _ hidles => hidles.1)
  rcases hsettled with ⟨hout, hholds⟩
  cases hlast
  cases hret
  rw [hlt.addr_eq, Function.update_idem, dev_connectedTo] at hholds
  rw [dev_connectedTo] at hout
  cases hout
  refine ⟨?_, hholds, fun a => (hdefaults a).trans (hp₂.defaults a)⟩
  rw [dev_connectedTo, settled, connectedTo, Function.update_idem]

end Runs

/-! ## Finding the PHY -/

section Finding

variable {P : Type} {B : Mii.Phys P} {R : P → P → Prop} {ids : ℕ → U32} {I : P → Prop} {p p' : P}
  {L : MiiBus} {addr x : ℕ} {interface : PhyInterface} {r : Option ℕ × MiiBus}

/-- The tries at one address, with memory for the device. -/
theorem runs_tryDevads (hI : Identifies B R ids I) (hp : I p) (haddr : addr < 32)
    {heap : List (Option ℕ)} (hheap : L.heap = some x :: heap) {left i : ℕ} (hleft : 0 < left)
    (hrun : Prog.Runs (Mii.Sem B R) (tryDevads (1#32 <<< addr) interface left i L) p r p') :
    r = if answers (ids addr) then phyDeviceCreate addr (ids addr) interface L else (none, L) := by
  induction left generalizing i p with
  | zero => exact absurd hleft (Nat.lt_irrefl 0)
  | succ left ih =>
      rcases Prog.runs_bind_inv hrun with ⟨out, p₁, hcreate, hrest⟩
      have hp₁ := hI.runs hp hcreate
      rcases hI.runs_createPhyByMask hp hcreate with ⟨q, hq, hout⟩
      obtain rfl := hq.unique (Picked.single haddr)
      by_cases hanswers : answers (ids addr) = true
      · rw [if_pos hanswers] at hout ⊢
        have hsome : (phyDeviceCreate addr (ids addr) interface L).1 = some x := by
          rw [phyDeviceCreate, hheap]
        subst hout
        dsimp only at hrest
        rw [hsome, if_pos Option.isSome_some, ← hsome] at hrest
        cases hrest
        rfl
      · rw [if_neg hanswers] at hout
        subst hout
        cases left with
        | zero =>
            cases hrest
            rw [if_neg hanswers]
        | succ left => exact ih hp₁ (Nat.succ_pos left) hrest

theorem runs_phyFindByMask_new (hI : Identifies B R ids I) (hp : I p) (haddr : addr < 32)
    (hreset : L.reset = none) (hnew : L.phymap addr = none) {heap : List (Option ℕ)}
    (hheap : L.heap = some x :: heap)
    (hrun : Prog.Runs (Mii.Sem B R) (phyFindByMask (1#32 <<< addr) interface L) p r p') :
    r = if answers (ids addr) then phyDeviceCreate addr (ids addr) interface L else (none, L) := by
  rcases searchForExistingPhy_eq (1#32 <<< addr) interface L with ⟨q, hq, hsearch⟩
  obtain rfl := hq.unique (Picked.single haddr)
  rw [hnew, if_neg (by decide)] at hsearch
  rw [phyFindByMask, busReset, hreset] at hrun
  change Prog.Runs _ (getPhyDeviceByMask _ _ L) _ _ _ at hrun
  rw [getPhyDeviceByMask, hsearch] at hrun
  exact runs_tryDevads hI hp haddr hheap (by decide) hrun

theorem phyFindByMask_known (haddr : addr < 32) (hreset : L.reset = none)
    (hknown : L.phymap addr = some x) :
    phyFindByMask (1#32 <<< addr) interface L = pure (some x, setInterface x interface L) := by
  rcases searchForExistingPhy_eq (1#32 <<< addr) interface L with ⟨q, hq, hsearch⟩
  obtain rfl := hq.unique (Picked.single haddr)
  rw [hknown, if_pos Option.isSome_some, Option.bind_some, hknown] at hsearch
  rw [phyFindByMask, busReset, hreset]
  change getPhyDeviceByMask _ _ L = _
  rw [getPhyDeviceByMask, hsearch]
  rfl

end Finding

/-! ## Through the MAC -/

/-- What is configured does not depend on how often the PHY has negotiated. -/
theorem configured_restarts (d : PhyDevice) (s : Settings) (m n : ℕ) :
    { ({ s with restarts := m } : Settings).configured d with restarts := n } =
      { s.configured d with restarts := n } := by
  have hadv : ({ s with restarts := m } : Settings).advertised d =
      { s.advertised d with restarts := m } := rfl
  have hsame : ({ s with restarts := m } : Settings).advertised d = { s with restarts := m } ↔
      s.advertised d = s := by
    rw [Settings.advertised_eq_self_iff, Settings.advertised_eq_self_iff]
    exact Iff.rfl
  have hneg : ({ s with restarts := m } : Settings).negotiates = s.negotiates := rfl
  unfold Settings.configured
  rw [hneg]
  by_cases h : s.advertised d = s ∧ s.negotiates = true
  · rw [if_pos h, if_pos ⟨hsame.2 h.1, h.2⟩]
  · rw [if_neg h, if_neg fun h' => h ⟨hsame.1 h'.1, h'.2⟩]
    rfl

theorem configured_resetSettings (d : PhyDevice) (df : ℕ → U16) (m n : ℕ) :
    (resetSettings df n).configured d =
      { (resetSettings df m).configured d with
        restarts := ((resetSettings df n).configured d).restarts } :=
  configured_restarts d (resetSettings df m) n _

/-- Nor does the device. -/
theorem configuredDevice_again (d : PhyDevice) (df : ℕ → U16) (m n : ℕ) :
    configuredDevice (configuredDevice d (resetSettings df m)) (resetSettings df n) =
      configuredDevice d (resetSettings df m) := by
  have hfeatures : (resetSettings df n).features = (resetSettings df m).features := rfl
  rw [configuredDevice, hfeatures]
  simp only [configuredDevice, BitVec.and_assoc, BitVec.and_self]

section Mac

variable {E : Mii.Env (ℕ → Clause22)} {ids : ℕ → U32} {addr x dev : ℕ} {L : MiiBus}
  {interface : PhyInterface} {s : Mii.Smi (ℕ → Clause22)} {c : ℕ → Settings} {df : ℕ → ℕ → U16}

/-- The PHYs behind the MAC keep their settings, their defaults and their identifiers by themselves. -/
structure Behind (E : Mii.Env (ℕ → Clause22)) : Prop where
  bus : E.bus = clause22
  idles : ∀ t p, Idles p (E.drift t p)
  timely : E.Timely

theorem Behind.ends (hE : Behind E) {α : Type} {q : BusM α} (hq : Prog.Only Mii.Op.Addressed q)
    (hs : s.flight = none) :
    Prog.Ends E.access Mii.Env.check (q.carry Mii.viaMac)
      (fun r s' => s'.flight = none ∧ IdleRuns q s.phys r s'.phys) s := by
  refine (Mii.mdio_carries E hE.timely hq hs).mono fun r s' h => ⟨h.1, h.2.mono ?_⟩
  rw [hE.bus]
  refine fun o p r p' hsem => hsem.mono ?_
  rintro p p' ⟨t, rfl⟩
  exact hE.idles t p

theorem dev_setInterface (x : ℕ) (interface : PhyInterface) (L : MiiBus) :
    (setInterface x interface L).dev x = { L.dev x with interface } :=
  Function.update_self ..

theorem settle_ends (hE : Behind E) (hd : Generic addr (L.dev x)) (h : Stands c df s.phys)
    (hs : s.flight = none) (hsane : (df addr MII_BMCR).getLsbD 15 = false) (dev : ℕ) :
    Prog.Ends E.access Mii.Env.check ((settle x dev L).carry Mii.viaMac)
      (fun r s' => s'.flight = none ∧
        r = ((0, some x), settled x dev (resetSettings (df addr) (c addr).restarts) L) ∧
        Stands (Function.update c addr
          ((resetSettings (df addr) (c addr).restarts).configured (configuredDevice (L.dev x).toPhyDevice
            (resetSettings (df addr) (c addr).restarts)))) df s'.phys) s := by
  refine (hE.ends (only_settle hd dev) hs).mono fun r s' hr => ⟨hr.1, ?_⟩
  exact runs_settle hd h rfl hsane hr.2

/-- The PHY of a device that is known is set up again. -/
theorem sun8iPhyInit_again (hE : Behind E) (haddr : addr < 32) (hreset : L.reset = none)
    (hknown : L.phymap addr = some x) (hd : Generic addr (L.dev x)) (h : Stands c df s.phys)
    (hs : s.flight = none) (hsane : (df addr MII_BMCR).getLsbD 15 = false) (dev : ℕ)
    (interface : PhyInterface) :
    Prog.Ends E.access Mii.Env.check ((sun8iPhyInit addr dev interface L).carry Mii.viaMac)
      (fun r s' => s'.flight = none ∧
        r = ((0, some x), settled x dev (resetSettings (df addr) (c addr).restarts)
          (setInterface x interface L)) ∧
        Stands (Function.update c addr
          ((resetSettings (df addr) (c addr).restarts).configured (configuredDevice (L.dev x).toPhyDevice
            (resetSettings (df addr) (c addr).restarts)))) df s'.phys) s := by
  have hd' : Generic addr ((setInterface x interface L).dev x) := by
    rw [dev_setInterface]
    exact ⟨hd.addr_eq, hd.lt, hd.flags, hd.autoneg, hd.config⟩
  rw [sun8iPhyInit_eq, phyFindByMask_known haddr hreset hknown, pure_bind]
  have hends := settle_ends hE hd' h hs hsane dev
  rw [dev_setInterface] at hends
  exact hends

/-- The device of a PHY that has just been found. -/
theorem generic_newDevice (haddr : addr < 32) {drivers : List PhyDriver} {phyId : U32}
    (hgeneric : getPhyDriver drivers phyId = genphyDriver) (interface : PhyInterface) :
    Generic addr (newDevice drivers addr phyId interface) where
  addr_eq := rfl
  lt := haddr
  flags := rfl
  autoneg := rfl
  config := by
    change (getPhyDriver drivers phyId).config = _
    rw [hgeneric]
    rfl

theorem copper_newDevice (addr : ℕ) {drivers : List PhyDriver} {phyId : U32}
    (hgeneric : getPhyDriver drivers phyId = genphyDriver) (interface : PhyInterface) :
    Copper (newDevice drivers addr phyId interface).toPhyDevice := by
  have hfeatures : (newDevice drivers addr phyId interface).supported = genphyDriver.features :=
    congrArg PhyDriver.features hgeneric
  unfold Copper
  rw [hfeatures]
  decide

/-- The device that is left by setting it up. -/
theorem dev_settled (x dev : ℕ) (s₀ : Settings) (L : MiiBus) :
    (settled x dev s₀ L).dev x =
      { L.dev x with
        toPhyDevice := configuredDevice (L.dev x).toPhyDevice s₀
        dev := some dev } :=
  Function.update_self ..

theorem toPhyDevice_settled (x dev : ℕ) (s₀ : Settings) (L : MiiBus) :
    ((settled x dev s₀ L).dev x).toPhyDevice = configuredDevice (L.dev x).toPhyDevice s₀ :=
  congrArg Device.toPhyDevice (dev_settled x dev s₀ L)

/-- A PHY that is set up keeps its settings, and its device what concerns the link, however often it is
set up again. -/
theorem sun8iPhyInits_again (hE : Behind E) (haddr : addr < 32) (hreset : L.reset = none)
    (hknown : L.phymap addr = some x) (hd : Generic addr (L.dev x)) (h : Stands c df s.phys)
    (hs : s.flight = none) (hsane : (df addr MII_BMCR).getLsbD 15 = false) {d : PhyDevice}
    (hdev : (L.dev x).toPhyDevice = d) (hfixed : ∀ n, configuredDevice d (resetSettings (df addr) n) = d)
    (hset : ∀ n, ∃ m, (resetSettings (df addr) n).configured d = { c addr with restarts := m })
    (calls : List (ℕ × PhyInterface)) :
    Prog.Ends E.access Mii.Env.check ((sun8iPhyInits addr calls L).carry Mii.viaMac)
      (fun r s' => s'.flight = none ∧ r.1 = List.replicate calls.length (0, some x) ∧
        (r.2.dev x).toPhyDevice = d ∧
        ∃ n, Stands (Function.update c addr { c addr with restarts := n }) df s'.phys) s := by
  induction calls generalizing L c s with
  | nil =>
      refine Prog.Ends.ret ⟨hs, rfl, hdev, (c addr).restarts, ?_⟩
      rw [Function.update_eq_self]
      exact h
  | cons call calls ih =>
      obtain ⟨dev, interface⟩ := call
      refine Prog.Ends.carry_bind ((sun8iPhyInit_again hE haddr hreset hknown hd h hs hsane dev
        interface).mono ?_)
      rintro r s₁ ⟨hs₁, rfl, hstands⟩
      rw [hdev, hfixed] at hstands
      obtain ⟨m, hm⟩ := hset (c addr).restarts
      rw [hm] at hstands
      -- Everything but the number of restarts is as it was before the call.
      have hdev₁ : ((settled x dev (resetSettings (df addr) (c addr).restarts)
          (setInterface x interface L)).dev x).toPhyDevice = d := by
        rw [toPhyDevice_settled, dev_setInterface]
        exact (congrArg (configuredDevice · _) hdev).trans (hfixed _)
      have hgen₁ : Generic addr ((settled x dev (resetSettings (df addr) (c addr).restarts)
          (setInterface x interface L)).dev x) := by
        rw [dev_settled, dev_setInterface]
        exact ⟨hd.addr_eq, haddr, hd.flags, hd.autoneg, hd.config⟩
      have hrest := ih (L := settled x dev (resetSettings (df addr) (c addr).restarts)
        (setInterface x interface L)) hreset hknown hgen₁ hstands hs₁ hdev₁ fun n => by
          obtain ⟨m', hm'⟩ := hset n
          exact ⟨m', by rw [hm', Function.update_self]⟩
      refine Prog.Ends.carry_bind (hrest.mono ?_)
      rintro r s₂ ⟨hs₂, hr, hdev₂, n, hstands₂⟩
      refine Prog.Ends.ret ⟨hs₂, ?_, hdev₂, n, ?_⟩
      · dsimp only
        rw [hr]
        rfl
      · rw [Function.update_self, Function.update_idem] at hstands₂
        exact hstands₂

/-- `sun8i_phy_init` with an address at which nothing has been found yet, through the registers of the MAC
and however long its transactions take.  With no PHY there nothing has changed, and the error is returned.
Otherwise the PHY has a device of its own, and whatever was in the PHY before, its settings come from its
defaults: it negotiates, and advertises the modes that the generic driver supports and the PHY can do.
Further calls, however many, find the same device, and leave it and the settings as they are. -/
theorem sun8i_phy_init_by_mac (hE : Behind E) (haddr : addr < 32) (hreset : L.reset = none)
    (hnew : L.phymap addr = none) {heap : List (Option ℕ)} (hheap : L.heap = some x :: heap)
    (hgeneric : getPhyDriver L.drivers (ids addr) = genphyDriver) (dev : ℕ) (interface : PhyInterface)
    (hs : s.flight = none) (hids : ∀ a, (s.phys a).Identifier (ids a))
    (hsane : ((s.phys addr).defaults MII_BMCR).getLsbD 15 = false) :
    Prog.Ends E.access Mii.Env.check ((sun8iPhyInit addr dev interface L).carry Mii.viaMac)
      (fun r s' => s'.flight = none ∧ (∀ b ≠ addr, (s'.phys b).settings = (s.phys b).settings) ∧
        if answers (ids addr) then
          let s₀ := resetSettings (s.phys addr).defaults (s.phys addr).restarts
          r = ((0, some x), settled x dev s₀ (phyDeviceCreate addr (ids addr) interface L).2) ∧
            Configured (newDevice L.drivers addr (ids addr) interface).toPhyDevice
              (r.2.dev x).toPhyDevice s₀ (s'.phys addr).settings ∧
            ∀ calls : List (ℕ × PhyInterface),
              Prog.Ends E.access Mii.Env.check
                ((sun8iPhyInits addr calls r.2).carry Mii.viaMac)
                (fun r' s'' => s''.flight = none ∧ r'.1 = List.replicate calls.length r.1 ∧
                  (r'.2.dev x).toPhyDevice = (r.2.dev x).toPhyDevice ∧
                  (∀ b ≠ addr, (s''.phys b).settings = (s'.phys b).settings) ∧
                  ∃ n, (s''.phys addr).settings = { (s'.phys addr).settings with restarts := n }) s'
        else r = ((-ENODEV, none), L) ∧ (s'.phys addr).settings = (s.phys addr).settings) s := by
  have hI := clause22_identifies ids
  have hstands : Stands (fun b => (s.phys b).settings) (fun b => (s.phys b).defaults) s.phys :=
    ⟨fun _ => rfl, fun _ => rfl⟩
  have hlooks := looks_phyFindByMask hreset (1#32 <<< addr) interface
  rw [sun8iPhyInit_eq]
  refine Prog.Ends.carry_bind ((hE.ends (hlooks.mono fun _ => Looks.addressed) hs).mono ?_)
  rintro found s₁ ⟨hs₁, hrun⟩
  have hstands₁ := runs_looks hlooks hstands hrun
  have hids₁ := hI.runs hids hrun
  obtain rfl := runs_phyFindByMask_new hI hids haddr hreset hnew hheap hrun
  by_cases hanswers : answers (ids addr) = true
  · -- The device is created, and set up like one that has been known.
    have hcreate : phyDeviceCreate addr (ids addr) interface L =
        (some x,
          { L with
            heap
            dev := Function.update L.dev x (newDevice L.drivers addr (ids addr) interface)
            phymap := Function.update L.phymap addr (some x) }) := by
      rw [phyDeviceCreate, hheap]
    generalize hL₁ : (phyDeviceCreate addr (ids addr) interface L).2 = L₁
    have hdev : L₁.dev x = newDevice L.drivers addr (ids addr) interface := by
      rw [← hL₁, hcreate]
      exact Function.update_self ..
    have hmap : L₁.phymap addr = some x := by
      rw [← hL₁, hcreate]
      exact Function.update_self ..
    have hreset₁ : L₁.reset = none := by
      rw [← hL₁, hcreate]
      exact hreset
    have hfound : phyDeviceCreate addr (ids addr) interface L = (some x, L₁) := by
      rw [← hL₁, hcreate]
    have hgen := generic_newDevice haddr hgeneric interface
    have hcopper := copper_newDevice addr hgeneric interface
    rw [← hdev] at hgen hcopper ⊢
    simp only [if_pos hanswers, hfound]
    -- The resets and the configuration.
    refine (settle_ends hE hgen hstands₁ hs₁ hsane dev).mono ?_
    rintro r s₂ ⟨hs₂, rfl, hstands₂⟩
    have hset := hstands₂.holds addr
    rw [Function.update_self] at hset
    have hothers : ∀ b ≠ addr, (s₂.phys b).settings = (s.phys b).settings := fun b hb =>
      (hstands₂.holds b).trans (Function.update_of_ne hb ..)
    refine ⟨hs₂, hothers, rfl, ?_, fun calls => ?_⟩
    · dsimp only
      rw [hset, dev_settled]
      exact configured_settles hcopper
    · have hgen₂ : Generic addr ((settled x dev (resetSettings (s.phys addr).defaults
          (s.phys addr).restarts) L₁).dev x) := by
        rw [dev_settled]
        exact ⟨hgen.addr_eq, haddr, hgen.flags, hgen.autoneg, hgen.config⟩
      have hstands' : Stands (fun b => (s₂.phys b).settings) (fun b => (s.phys b).defaults) s₂.phys :=
        ⟨fun _ => rfl, hstands₂.defaults⟩
      refine (sun8iPhyInits_again (L := settled x dev (resetSettings (s.phys addr).defaults
        (s.phys addr).restarts) L₁) hE haddr hreset₁ hmap hgen₂ hstands' hs₂ hsane
        (toPhyDevice_settled ..) (fun n => configuredDevice_again ..) (fun n => ?_) calls).mono ?_
      · rw [hset]
        exact ⟨_, configured_resetSettings _ _ _ _⟩
      · rintro r' s₃ ⟨hs₃, hr', hdev₃, n, hstands₃⟩
        refine ⟨hs₃, hr', hdev₃.trans (toPhyDevice_settled ..).symm,
          fun b hb => (hstands₃.holds b).trans (Function.update_of_ne hb ..), n, ?_⟩
        exact (hstands₃.holds addr).trans (Function.update_self ..)
  · simp only [if_neg hanswers]
    refine Prog.Ends.ret ⟨hs₁, fun b _ => hstands₁.holds b, rfl, hstands₁.holds addr⟩

/-- The PHY at address 1 ends up offering both modes of 100 Mb/s. -/
theorem sun8i_phy_init_by_mac_onePhy :
    Prog.Ends (Mii.nineUnits clause22).access Mii.Env.check
      ((sun8iPhyInit 1 7 .rgmii oneBus).carry Mii.viaMac)
      (fun r s' => r.1 = (0, some 64) ∧ r.2.phymap 1 = some 64 ∧
        Mode.half100.offered (s'.phys 1).settings = true ∧
        Mode.full100.offered (s'.phys 1).settings = true ∧
        Mode.full1000.offered (s'.phys 1).settings = false)
      ⟨onePhy, 0, none, 0, 0⟩ := by
  have hE : Behind (Mii.nineUnits clause22) :=
    ⟨rfl, fun _ _ => ⟨fun _ => rfl, fun _ => ⟨rfl, fun _ h => h⟩⟩, Mii.nineUnits_timely clause22⟩
  refine (sun8i_phy_init_by_mac (L := oneBus) hE (by decide : 1 < 32) rfl rfl rfl rfl 7
    .rgmii rfl identifier_onePhy rfl).mono ?_
  rintro r s' ⟨-, -, hup⟩
  rw [if_pos (by decide)] at hup
  rcases hup with ⟨rfl, hconf, -⟩
  refine ⟨rfl, rfl, ?_, ?_, ?_⟩
  · rw [hconf.offers]
    decide
  · rw [hconf.offers]
    decide
  · rw [hconf.offers]
    decide

end Mac

end Phy

end BspV3s
