import BspV3s.Lib.BitScan
import BspV3s.Phy.Config

/-!
# Discovery — the PHYs that a bus has found

`phy.c` looks for a PHY at the addresses of a mask, allocates a `struct phy_device` for the first one that
answers, and keeps it in the `phymap` of the bus.  What this is for is said by `Directory`: of each
address, the device that has been found there.

* `Identifies`         : the PHYs on a bus keep their identifiers, whatever else happens to them;
* `Directory.Calls`    : what a run of calls does to the directory, and what it answers;
* `discovery_refines`  : over every run of calls the `phymap` answers as the directory does.
-/

namespace BspV3s

namespace Phy

open Mii (U16 U32 BusM MDIO_DEVAD_NONE)
open Emac (testBits)

/-! ## The routines of `phy.c` -/

/-- `phy_interface_t`. -/
inductive PhyInterface
  | mii | gmii | sgmii | sgmii2500 | qsgmii | tbi | rmii | rgmii | rgmiiId | rgmiiRxid | rgmiiTxid | rtbi
  | xgmii | none
  deriving DecidableEq, Repr

/-- The part of `struct phy_driver` that the library uses.  A `config` sees the part of the device that
concerns its link.  The `probe` callback is left out: the drivers here are those that have none, as
`genphy_driver`, the only one in the sources. -/
structure PhyDriver where
  uid : U32
  mask : U32
  mmds : U32
  features : U32
  config : Option (PhyDevice → BusM (U32 × PhyDevice))

/-- `struct phy_device`; `dev` is the address of the ethernet device it is connected to. -/
structure Device extends PhyDevice where
  dev : Option ℕ
  link : ℤ
  interface : PhyInterface
  mmds : U32
  phyId : U32
  flags : U32
  drv : PhyDriver

/-- A `struct mii_dev` with its `reset` callback, the devices in memory, what `malloc` is going to answer,
and `phy_drivers`. -/
structure MiiBus where
  reset : Option (BusM Unit)
  phymap : ℕ → Option ℕ
  dev : ℕ → Device
  heap : List (Option ℕ)
  drivers : List PhyDriver

def MII_PHYSID1 : ℕ := 0x02
def MII_PHYSID2 : ℕ := 0x03

def PHY_FLAG_BROKEN_RESET : U32 := 0x1

def PHY_DEFAULT_FEATURES : U32 := SUPPORTED_Autoneg ||| SUPPORTED_TP ||| SUPPORTED_MII
def PHY_10BT_FEATURES : U32 := SUPPORTED_10baseT_Half ||| SUPPORTED_10baseT_Full
def PHY_100BT_FEATURES : U32 := SUPPORTED_100baseT_Half ||| SUPPORTED_100baseT_Full
def PHY_1000BT_FEATURES : U32 := SUPPORTED_1000baseT_Half ||| SUPPORTED_1000baseT_Full
def PHY_BASIC_FEATURES : U32 := PHY_10BT_FEATURES ||| PHY_100BT_FEATURES ||| PHY_DEFAULT_FEATURES
def PHY_GBIT_FEATURES : U32 := PHY_BASIC_FEATURES ||| PHY_1000BT_FEATURES

def genphyDriver : PhyDriver where
  uid := 0xffffffff
  mask := 0xffffffff
  mmds := 0
  features :=
    PHY_GBIT_FEATURES ||| SUPPORTED_MII ||| SUPPORTED_AUI ||| SUPPORTED_FIBRE ||| SUPPORTED_BNC
  config := some genphyConfig

/-- `phy_register` appends to `phy_drivers`. -/
def phyRegister (drv : PhyDriver) (L : MiiBus) : MiiBus :=
  { L with drivers := L.drivers ++ [drv] }

/-- `get_phy_driver`; no interface has a generic driver of its own. -/
def getPhyDriver (drivers : List PhyDriver) (phyId : U32) : PhyDriver :=
  (drivers.find? fun drv => drv.uid &&& drv.mask = phyId &&& drv.mask).getD genphyDriver

/-- `phy_probe`, for a driver without a `probe` of its own. -/
def phyProbe (d : Device) : Device :=
  { d with supported := d.drv.features, advertising := d.drv.features, mmds := d.drv.mmds }

/-- The device that `phy_device_create` fills in. -/
def newDevice (drivers : List PhyDriver) (addr : ℕ) (phyId : U32) (interface : PhyInterface) : Device :=
  phyProbe
    { addr, autoneg := AUTONEG_ENABLE, supported := 0, advertising := 0, speed := 0, duplex := -1,
      pause := 0, asymPause := 0, dev := none, link := 0, interface, mmds := 0, phyId, flags := 0,
      drv := getPhyDriver drivers phyId }

def phyDeviceCreate (addr : ℕ) (phyId : U32) (interface : PhyInterface) (L : MiiBus) :
    Option ℕ × MiiBus :=
  match L.heap with
  | [] => (none, L)
  | none :: heap => (none, { L with heap })
  | some dev :: heap =>
      (some dev,
        { L with
          heap
          dev := Function.update L.dev dev (newDevice L.drivers addr phyId interface)
          phymap := Function.update L.phymap addr (some dev) })

/-- The identifier, or nothing for `-EIO`. -/
def getPhyId (addr : ℕ) (devad : ℤ) : BusM (Option U32) := do
  let phyReg ← Mii.busRead addr devad MII_PHYSID1
  if phyReg.slt 0 then pure none
  else
    let phyId := (phyReg &&& 0xffff) <<< 16
    let phyReg ← Mii.busRead addr devad MII_PHYSID2
    if phyReg.slt 0 then pure none
    else pure (some (phyId ||| (phyReg &&& 0xffff)))

/-- Of an identifier that is mostly ones, nothing has been found. -/
def answers (phyId : U32) : Bool := phyId &&& 0x1fffffff ≠ 0x1fffffff

def createPhyByMask (phyMask : U32) (devad : ℤ) (interface : PhyInterface) (L : MiiBus) :
    BusM (Option ℕ × MiiBus) :=
  if _ : phyMask ≠ 0 then
    let addr := ffs phyMask - 1
    do
      let found ← getPhyId addr devad
      match found.filter answers with
      | some phyId => pure (phyDeviceCreate addr phyId interface L)
      | none => createPhyByMask (clearBit phyMask addr) devad interface L
  else pure (none, L)
termination_by phyMask.toNat
decreasing_by exact toNat_clearBit_ffs_lt ‹_›

def setInterface (dev : ℕ) (interface : PhyInterface) (L : MiiBus) : MiiBus :=
  { L with dev := Function.update L.dev dev { L.dev dev with interface } }

def searchForExistingPhy (phyMask : U32) (interface : PhyInterface) (L : MiiBus) : Option ℕ × MiiBus :=
  if _ : phyMask ≠ 0 then
    let addr := ffs phyMask - 1
    match L.phymap addr with
    | some dev => (some dev, setInterface dev interface L)
    | none => searchForExistingPhy (clearBit phyMask addr) interface L
  else (none, L)
termination_by phyMask.toNat
decreasing_by exact toNat_clearBit_ffs_lt ‹_›

/-- The tries from `i` on, of which `left` are left. -/
def tryDevads (phyMask : U32) (interface : PhyInterface) :
    (left i : ℕ) → MiiBus → BusM (Option ℕ × MiiBus)
  | 0, _, L => pure (none, L)
  | left + 1, i, L => do
      let (phydev, L) ← createPhyByMask phyMask (if i ≠ 0 then i else MDIO_DEVAD_NONE) interface L
      if phydev.isSome then pure (phydev, L)
      else tryDevads phyMask interface left (i + 1) L

def getPhyDeviceByMask (phyMask : U32) (interface : PhyInterface) (L : MiiBus) :
    BusM (Option ℕ × MiiBus) := do
  let (phydev, L) := searchForExistingPhy phyMask interface L
  if phydev.isSome then pure (phydev, L)
  else tryDevads phyMask interface 5 0 L

def getPhyDevice (addr : ℕ) (interface : PhyInterface) (L : MiiBus) : BusM (Option ℕ × MiiBus) :=
  getPhyDeviceByMask (1#32 <<< addr) interface L

/-- The rounds that wait for the reset bit, `timeout` of them at most. -/
def resetPoll (d : PhyDevice) : (timeout : ℕ) → (reg : U32) → BusM U32
  | 0, reg => pure (if testBits reg BMCR_RESET then -1 else 0)
  | timeout + 1, reg =>
      if testBits reg BMCR_RESET then do
        let reg ← phyRead d MII_BMCR
        if reg.slt 0 then pure (-1)
        else do
          Mii.udelay 1000
          resetPoll d timeout reg
      else pure 0

def phyReset (d : Device) : BusM U32 :=
  if testBits d.flags PHY_FLAG_BROKEN_RESET then pure 0
  else do
    let err ← phyWrite d.toPhyDevice MII_BMCR (BMCR_RESET.setWidth 16)
    if err.slt 0 then pure (-1)
    else do
      let reg ← phyRead d.toPhyDevice MII_BMCR
      resetPoll d.toPhyDevice 500 reg

/-- On a bus that has been chosen by its name.  Without a PHY at the address a null pointer is used. -/
def miiphyReset (addr : ℕ) (L : MiiBus) : BusM (Option U32 × MiiBus) := do
  let (phydev, L) ← getPhyDevice addr .mii L
  match phydev with
  | none => pure (none, L)
  | some phydev => do
      let r ← phyReset (L.dev phydev)
      pure (some r, L)

/-- The bus is reset if it can be, and its PHYs get the time to come out of that. -/
def busReset (L : MiiBus) : BusM Unit :=
  match L.reset with
  | some reset => do
      reset
      Mii.udelay 15000
  | none => pure ()

def phyFindByMask (phyMask : U32) (interface : PhyInterface) (L : MiiBus) :
    BusM (Option ℕ × MiiBus) := do
  busReset L
  getPhyDeviceByMask phyMask interface L

def phyConnectDev (phydev dev : ℕ) (L : MiiBus) : BusM MiiBus := do
  let _ ← phyReset (L.dev phydev)
  pure { L with dev := Function.update L.dev phydev { L.dev phydev with dev := some dev } }

def phyConnect (addr dev : ℕ) (interface : PhyInterface) (L : MiiBus) : BusM (Option ℕ × MiiBus) := do
  let (phydev, L) ← phyFindByMask (1#32 <<< addr) interface L
  match phydev with
  | some d => do
      let L ← phyConnectDev d dev L
      pure (phydev, L)
  | none => pure (none, L)

/-! ## The directory -/

/-- The device found at each address, and the drivers there are. -/
structure Directory where
  entry : ℕ → Option Device
  drivers : List PhyDriver

inductive Call
  | register (drv : PhyDriver)
  | find (phyMask : U32) (interface : PhyInterface)
  | connect (addr dev : ℕ) (interface : PhyInterface)
  | reset (addr : ℕ)

/-- What a call answers, with devices of type `α`. -/
inductive Answer (α : Type)
  | done
  | found (phydev : Option α)
  /-- Whether a null pointer was used. -/
  | fault (null : Bool)
  deriving DecidableEq

def Answer.bind {α β : Type} (f : α → Option β) : Answer α → Answer β
  | .done => .done
  | .found phydev => .found (phydev.bind f)
  | .fault null => .fault null

def Call.run (L : MiiBus) : Call → BusM (Answer ℕ × MiiBus)
  | .register drv => pure (.done, phyRegister drv L)
  | .find phyMask interface => do
      let (phydev, L) ← phyFindByMask phyMask interface L
      pure (.found phydev, L)
  | .connect addr dev interface => do
      let (phydev, L) ← phyConnect addr dev interface L
      pure (.found phydev, L)
  | .reset addr => do
      let (r, L) ← miiphyReset addr L
      pure (.fault r.isNone, L)

namespace Directory

def Known (D : Directory) (a : ℕ) : Prop := (D.entry a).isSome = true

def blank (drivers : List PhyDriver) : Directory := ⟨fun _ => none, drivers⟩

def add (D : Directory) (a : ℕ) (phyId : U32) (interface : PhyInterface) : Directory :=
  { D with entry := Function.update D.entry a (some (newDevice D.drivers a phyId interface)) }

def alter (D : Directory) (a : ℕ) (f : Device → Device) : Directory :=
  { D with entry := Function.update D.entry a ((D.entry a).map f) }

/-- The device that has been found is connected to `dev`. -/
def attach (D : Directory) (r : Option ℕ) (dev : ℕ) : Directory :=
  match r with
  | some a => D.alter a fun d => { d with dev := some dev }
  | none => D

@[simp] theorem entry_add_self (D : Directory) (a : ℕ) (phyId : U32) (interface : PhyInterface) :
    (D.add a phyId interface).entry a = some (newDevice D.drivers a phyId interface) :=
  Function.update_self ..

theorem entry_add_of_ne (D : Directory) {a b : ℕ} (hb : b ≠ a) (phyId : U32)
    (interface : PhyInterface) : (D.add a phyId interface).entry b = D.entry b :=
  Function.update_of_ne hb ..

@[simp] theorem entry_alter_self (D : Directory) (a : ℕ) (f : Device → Device) :
    (D.alter a f).entry a = (D.entry a).map f :=
  Function.update_self ..

theorem entry_alter_of_ne (D : Directory) {a b : ℕ} (hb : b ≠ a) (f : Device → Device) :
    (D.alter a f).entry b = D.entry b :=
  Function.update_of_ne hb ..

/-- A PHY is looked for at the addresses of a mask, on a bus whose PHYs have the identifiers `ids`.  A
device that is known goes before a PHY at a lower address that is not. -/
inductive Finds (ids : ℕ → U32) (scarce : Prop) (phyMask : U32) (interface : PhyInterface)
    (D : Directory) : Option ℕ → Directory → Prop
  | known {a : ℕ} : Picked phyMask D.Known (some a) →
      Finds ids scarce phyMask interface D (some a) (D.alter a fun d => { d with interface })
  | added {a : ℕ} : Picked phyMask D.Known none →
      Picked phyMask (fun a => answers (ids a) = true) (some a) →
      Finds ids scarce phyMask interface D (some a) (D.add a (ids a) interface)
  | absent : Picked phyMask D.Known none → Picked phyMask (fun a => answers (ids a) = true) none →
      Finds ids scarce phyMask interface D none D
  /-- Where memory is scarce, a PHY may stay unknown. -/
  | full : scarce → Picked phyMask D.Known none → Finds ids scarce phyMask interface D none D

/-- What one call does. -/
inductive Does (ids : ℕ → U32) (scarce : Prop) (D : Directory) : Call → Answer ℕ → Directory → Prop
  | register (drv : PhyDriver) :
      Does ids scarce D (.register drv) .done { D with drivers := D.drivers ++ [drv] }
  | find {phyMask : U32} {interface : PhyInterface} {r : Option ℕ} {D' : Directory} :
      Finds ids scarce phyMask interface D r D' →
      Does ids scarce D (.find phyMask interface) (.found r) D'
  | connect {addr dev : ℕ} {interface : PhyInterface} {r : Option ℕ} {D' : Directory} :
      Finds ids scarce (1#32 <<< addr) interface D r D' →
      Does ids scarce D (.connect addr dev interface) (.found r)
        (D'.attach r dev)
  | reset {addr : ℕ} {r : Option ℕ} {D' : Directory} :
      Finds ids scarce (1#32 <<< addr) .mii D r D' →
      Does ids scarce D (.reset addr) (.fault r.isNone) D'

/-- What calls do, one after the other. -/
inductive Calls (ids : ℕ → U32) (scarce : Prop) :
    List Call → Directory → List (Answer ℕ) → Directory → Prop
  | nil (D : Directory) : Calls ids scarce [] D [] D
  | cons {c : Call} {cs : List Call} {D D' D'' : Directory} {answer : Answer ℕ}
      {rest : List (Answer ℕ)} : Does ids scarce D c answer D' → Calls ids scarce cs D' rest D'' →
      Calls ids scarce (c :: cs) D (answer :: rest) D''

/-- Every entry is a device with the address and the identifier of a PHY on the bus. -/
def Genuine (ids : ℕ → U32) (D : Directory) : Prop :=
  ∀ a d, D.entry a = some d → d.addr = a ∧ d.phyId = ids a ∧ answers (ids a) = true ∧ a < 32

variable {ids : ℕ → U32} {scarce scarce' : Prop} {phyMask : U32} {interface : PhyInterface}
  {D D' : Directory} {r : Option ℕ} {a : ℕ}

theorem Finds.mono (hscarce : scarce → scarce') (h : Finds ids scarce phyMask interface D r D') :
    Finds ids scarce' phyMask interface D r D' := by
  cases h with
  | known hknown => exact .known hknown
  | added hnone hfirst => exact .added hnone hfirst
  | absent hnone habsent => exact .absent hnone habsent
  | full hfull hnone => exact .full (hscarce hfull) hnone

theorem Genuine.alter (h : Genuine ids D) {f : Device → Device}
    (hf : ∀ d, (f d).addr = d.addr ∧ (f d).phyId = d.phyId) : Genuine ids (D.alter a f) := by
  intro b d hd
  by_cases hb : b = a
  · subst hb
    rw [entry_alter_self] at hd
    rcases Option.map_eq_some_iff.1 hd with ⟨d₀, hd₀, rfl⟩
    rw [(hf d₀).1, (hf d₀).2]
    exact h b d₀ hd₀
  · exact h b d (entry_alter_of_ne D hb f ▸ hd)

theorem Genuine.finds (h : Genuine ids D) (hfinds : Finds ids scarce phyMask interface D r D') :
    Genuine ids D' := by
  cases hfinds with
  | known _ => exact h.alter fun _ => ⟨rfl, rfl⟩
  | @added a _ hfirst =>
      intro b d hd
      by_cases hb : b = a
      · subst hb
        rw [← Option.some.inj ((entry_add_self ..).symm.trans hd)]
        exact ⟨rfl, rfl, hfirst.holds.2, hfirst.lt⟩
      · exact h b d (entry_add_of_ne D hb (ids a) interface ▸ hd)
  | absent _ _ => exact h
  | full _ _ => exact h

theorem Genuine.calls {cs : List Call} {found : List (Answer ℕ)} (h : Genuine ids D)
    (hcalls : Calls ids scarce cs D found D') : Genuine ids D' := by
  induction hcalls with
  | nil => exact h
  | cons hdoes _ ih =>
      refine ih ?_
      cases hdoes with
      | register drv => exact h
      | find hfinds => exact h.finds hfinds
      | @connect _ _ _ r _ hfinds =>
          cases r with
          | none => exact h.finds hfinds
          | some a => exact (h.finds hfinds).alter fun _ => ⟨rfl, rfl⟩
      | reset hfinds => exact h.finds hfinds

end Directory

/-! ## The PHYs on the bus -/

/-- The PHYs keep their identifiers, in all states in which `I` holds. -/
structure Identifies {P : Type} (B : Mii.Phys P) (R : P → P → Prop) (ids : ℕ → U32) (I : P → Prop) :
    Prop where
  drift : ∀ {p p'}, I p → R p p' → I p'
  read : ∀ {p} addr reg, I p → I (B.read addr reg p).2
  write : ∀ {p} addr reg val, I p → I (B.write addr reg val p)
  high : ∀ {p} addr, I p → (B.read addr MII_PHYSID1 p).1 = (ids addr >>> 16).setWidth 16
  low : ∀ {p} addr, I p → (B.read addr MII_PHYSID2 p).1 = (ids addr).setWidth 16

theorem halves (v : U32) :
    ((((v >>> 16).setWidth 16 : U16).setWidth 32 &&& 0xffff#32) <<< 16 |||
      ((v.setWidth 16 : U16).setWidth 32 &&& 0xffff#32)) = v := by
  have hmask : ∀ w : U16, w.setWidth 32 &&& 0xffff#32 = w.setWidth 32 := by
    intro w
    have hw := w.isLt
    refine BitVec.eq_of_toNat_eq ?_
    rw [BitVec.toNat_and, BitVec.toNat_setWidth, Nat.mod_eq_of_lt (by omega)]
    exact Nat.and_two_pow_sub_one_of_lt_two_pow (n := 16) hw
  rw [hmask, hmask]
  refine BitVec.eq_of_getLsbD_eq fun i hi => ?_
  by_cases hlow : i < 16
  · simp [hlow, hi]
  · have hsub : i - 16 < 16 := by omega
    have hback : 16 + (i - 16) = i := by omega
    simp [hlow, hi, hsub, hback]

namespace Identifies

variable {P : Type} {B : Mii.Phys P} {R : P → P → Prop} {ids : ℕ → U32} {I : P → Prop} {p p' : P}

theorem drifts (hI : Identifies B R ids I) (hp : I p) (h : Relation.ReflTransGen R p p') : I p' := by
  induction h with
  | refl => exact hp
  | tail _ hstep ih => exact hI.drift ih hstep

theorem access (hI : Identifies B R ids I) (hp : I p) {o : Mii.Op} {r : o.Ret}
    (h : Mii.Sem B R o p r p') : I p' := by
  cases h with
  | read hbefore hafter => exact hI.drifts (hI.read _ _ (hI.drifts hp hbefore)) hafter
  | write hbefore hafter => exact hI.drifts (hI.write _ _ _ (hI.drifts hp hbefore)) hafter
  | udelay hmoves => exact hI.drifts hp hmoves

/-- No routine changes an identifier. -/
theorem runs {α : Type} (hI : Identifies B R ids I) (hp : I p) {q : BusM α} {r : α}
    (h : Prog.Runs (Mii.Sem B R) q p r p') : I p' := by
  induction h with
  | ret => exact hp
  | call hsem _ ih => exact ih (hI.access hp hsem)

theorem runs_busRead {α : Type} (hI : Identifies B R ids I) (hp : I p) {addr reg : ℕ} {devad : ℤ}
    {k : U32 → BusM α} {r : α} (h : Prog.Runs (Mii.Sem B R) (Mii.busRead addr devad reg >>= k) p r p') :
    ∃ p₀ p₁, I p₀ ∧ I p₁ ∧
      Prog.Runs (Mii.Sem B R) (k ((B.read addr reg p₀).1.setWidth 32)) p₁ r p' := by
  cases h with
  | call hsem hrest =>
      have hp₁ := hI.access hp hsem
      cases hsem with
      | read hbefore hafter => exact ⟨_, _, hI.drifts hp hbefore, hp₁, hrest⟩

theorem runs_getPhyId (hI : Identifies B R ids I) (hp : I p) {addr : ℕ} {devad : ℤ} {r : Option U32}
    (h : Prog.Runs (Mii.Sem B R) (getPhyId addr devad) p r p') : r = some (ids addr) := by
  rcases hI.runs_busRead hp h with ⟨p₀, p₁, hp₀, hp₁, hrest⟩
  simp only [not_slt_setWidth, Bool.false_eq_true, if_false] at hrest
  rcases hI.runs_busRead hp₁ hrest with ⟨p₂, p₃, hp₂, hp₃, hlast⟩
  simp only [not_slt_setWidth, Bool.false_eq_true, if_false] at hlast
  rw [hI.high addr hp₀, hI.low addr hp₂] at hlast
  cases hlast
  exact congrArg some (halves (ids addr))

/-- The first PHY that answers is the one that is created. -/
theorem runs_createPhyByMask (hI : Identifies B R ids I) (hp : I p) {phyMask : U32} {devad : ℤ}
    {interface : PhyInterface} {L : MiiBus} {r : Option ℕ × MiiBus}
    (h : Prog.Runs (Mii.Sem B R) (createPhyByMask phyMask devad interface L) p r p') :
    ∃ q, Picked phyMask (fun a => answers (ids a) = true) q ∧
      r = match q with
        | some a => phyDeviceCreate a (ids a) interface L
        | none => (none, L) := by
  induction phyMask using ffs_induction generalizing p with
  | zero =>
      rw [createPhyByMask, dif_neg (not_not.2 rfl)] at h
      cases h
      exact ⟨none, Picked.zero, rfl⟩
  | step phyMask hmask ih =>
      rw [createPhyByMask, dif_pos hmask] at h
      rcases Prog.runs_bind_inv h with ⟨found, p₁, hid, hrest⟩
      have hp₁ := hI.runs hp hid
      rw [hI.runs_getPhyId hp hid] at hrest
      by_cases hanswers : answers (ids (ffs phyMask - 1)) = true
      · rw [Option.filter_some, if_pos hanswers] at hrest
        cases hrest
        exact ⟨_, Picked.here hmask hanswers, rfl⟩
      · rw [Option.filter_some, if_neg hanswers] at hrest
        rcases ih hp₁ hrest with ⟨q, hq, hr⟩
        exact ⟨q, Picked.later hanswers hq, hr⟩

end Identifies

/-! ## The PHYs of clause 22 -/

namespace Clause22

/-- The registers hold the identifier. -/
def HoldsId (reg : ℕ → U16) (phyId : U32) : Prop :=
  reg MII_PHYSID1 = (phyId >>> 16).setWidth 16 ∧ reg MII_PHYSID2 = phyId.setWidth 16

/-- And no reset changes it. -/
def Identifier (y : Clause22) (phyId : U32) : Prop :=
  HoldsId y.reg phyId ∧ HoldsId y.defaults phyId

theorem HoldsId.update {reg : ℕ → U16} {phyId : U32} (h : HoldsId reg phyId) {r : ℕ}
    (hr : r = MII_BMCR ∨ r = MII_ADVERTISE ∨ r = MII_CTRL1000) (val : U16) :
    HoldsId (Function.update reg r val) phyId := by
  have hother : MII_PHYSID1 ≠ r ∧ MII_PHYSID2 ≠ r := by
    rcases hr with rfl | rfl | rfl <;> decide
  exact ⟨(Function.update_of_ne hother.1 ..).trans h.1, (Function.update_of_ne hother.2 ..).trans h.2⟩

theorem Identifier.write {y : Clause22} {phyId : U32} (h : y.Identifier phyId) (reg : ℕ) (val : U16) :
    (y.write reg val).Identifier phyId := by
  unfold Clause22.write
  by_cases hbmcr : reg = MII_BMCR
  · rw [if_pos hbmcr]
    by_cases hreset : val &&& BMCR_RESET.setWidth 16 ≠ 0
    · rw [if_pos hreset]
      exact ⟨h.2, h.2⟩
    · rw [if_neg hreset]
      exact ⟨h.1.update (Or.inl rfl) _, h.2⟩
  · rw [if_neg hbmcr]
    by_cases hpage : reg = MII_ADVERTISE ∨ reg = MII_CTRL1000
    · rw [if_pos hpage]
      exact ⟨h.1.update (Or.inr hpage) _, h.2⟩
    · rw [if_neg hpage]
      exact h

end Clause22

/-- The PHYs going on by themselves, with their settings, their defaults and their identifiers. -/
def Idles (p p' : ℕ → Clause22) : Prop :=
  Drifts p p' ∧ ∀ a, (p' a).defaults = (p a).defaults ∧
    ∀ phyId, Clause22.HoldsId (p a).reg phyId → Clause22.HoldsId (p' a).reg phyId

theorem clause22_identifies (ids : ℕ → U32) :
    Identifies clause22 Idles ids fun p => ∀ a, (p a).Identifier (ids a) where
  drift := fun hp hidle a =>
    ⟨(hidle.2 a).2 _ (hp a).1, (hidle.2 a).1 ▸ (hp a).2⟩
  read := fun _ _ hp => hp
  write := by
    intro p addr reg val hp a
    change (Function.update p addr _ a).Identifier _
    by_cases ha : a = addr
    · subst ha
      rw [Function.update_self]
      exact (hp a).write reg val
    · rw [Function.update_of_ne ha]
      exact hp a
  high := fun addr hp => (hp addr).1.1
  low := fun addr hp => (hp addr).1.2

/-! ## Devices in memory -/

/-- The devices of the directory are those that `phymap` points to, each at a place of its own. -/
structure Represents (L : MiiBus) (D : Directory) : Prop where
  entry : ∀ a, D.entry a = (L.phymap a).map L.dev
  drivers : D.drivers = L.drivers
  apart : ∀ a b x, L.phymap a = some x → L.phymap b = some x → a = b
  fresh : ∀ a x, L.phymap a = some x → some x ∉ L.heap
  nodup : (L.heap.filterMap id).Nodup

/-- The search of the existing devices. -/
theorem searchForExistingPhy_eq (phyMask : U32) (interface : PhyInterface) (L : MiiBus) :
    ∃ q, Picked phyMask (fun a => (L.phymap a).isSome = true) q ∧
      searchForExistingPhy phyMask interface L =
        match q.bind L.phymap with
        | some x => (some x, setInterface x interface L)
        | none => (none, L) := by
  induction phyMask using ffs_induction with
  | zero =>
      rw [searchForExistingPhy, dif_neg (not_not.2 rfl)]
      exact ⟨none, Picked.zero, rfl⟩
  | step phyMask hmask ih =>
      rw [searchForExistingPhy, dif_pos hmask]
      dsimp only
      cases hmap : L.phymap (ffs phyMask - 1) with
      | some x =>
          refine ⟨_, Picked.here hmask (by rw [hmap]; rfl), ?_⟩
          rw [Option.bind_some, hmap]
      | none =>
          rcases ih with ⟨q, hq, heq⟩
          exact ⟨q, Picked.later (by rw [hmap]; exact Bool.false_ne_true) hq, heq⟩

/-- What a search has led to: the directory `D'`, with the device of address `q`.  Unless memory is scarce
it has cost one allocation at most. -/
structure Leads (scarce : Prop) (L : MiiBus) (phydev : Option ℕ) (L' : MiiBus) (q : Option ℕ)
    (D' : Directory) : Prop where
  represents : Represents L' D'
  phydev : phydev = q.bind L'.phymap
  grows : ∀ a x, L.phymap a = some x → L'.phymap a = some x
  heap : ¬ scarce → L'.heap <:+ L.heap ∧ L.heap.length ≤ L'.heap.length + 1

namespace Represents

variable {L : MiiBus} {D : Directory} {a x : ℕ} {scarce : Prop}

/-- A device changes in its place. -/
theorem alter (h : Represents L D) (hx : L.phymap a = some x) (f : Device → Device) :
    Represents { L with dev := Function.update L.dev x (f (L.dev x)) } (D.alter a f) where
  entry b := by
    dsimp only
    by_cases hb : b = a
    · subst hb
      rw [Directory.entry_alter_self, h.entry, hx, Option.map_some, Option.map_some, Option.map_some,
        Function.update_self]
    · rw [Directory.entry_alter_of_ne D hb, h.entry]
      refine Option.map_congr fun y hy => ?_
      have hne : y ≠ x := fun heq => hb (h.apart b a x (heq ▸ hy) hx)
      exact (Function.update_of_ne hne ..).symm
  drivers := h.drivers
  apart := h.apart
  fresh := h.fresh
  nodup := h.nodup

/-- Less memory is left. -/
theorem shrink (h : Represents L D) {heap : List (Option ℕ)} (hheap : heap <:+ L.heap) :
    Represents { L with heap } D :=
  { h with
    fresh := fun a x hx hmem => h.fresh a x hx (hheap.subset hmem)
    nodup := h.nodup.sublist (hheap.sublist.filterMap id) }

/-- A device is added at a place that was free. -/
theorem add (h : Represents L D) {heap : List (Option ℕ)} (hheap : L.heap = some x :: heap)
    (hnone : L.phymap a = none) (phyId : U32) (interface : PhyInterface) :
    Represents
      { L with
        heap
        dev := Function.update L.dev x (newDevice L.drivers a phyId interface)
        phymap := Function.update L.phymap a (some x) }
      (D.add a phyId interface) := by
  -- Fresh memory holds no device that is known.
  have hfree : ∀ b y, L.phymap b = some y → y ≠ x := fun b y hy heq =>
    h.fresh b y hy (by rw [hheap, heq]; exact List.mem_cons_self)
  have hnodup : (x :: heap.filterMap id).Nodup := by
    have hall := h.nodup
    rw [hheap] at hall
    exact hall
  refine ⟨fun b => ?_, h.drivers, fun b c y hb hc => ?_, fun b y hb => ?_, hnodup.of_cons⟩ <;> dsimp only at *
  · by_cases hb : b = a
    · subst hb
      rw [Directory.entry_add_self, Function.update_self, h.drivers, Option.map_some, Function.update_self]
    · rw [Directory.entry_add_of_ne D hb, Function.update_of_ne hb, h.entry]
      exact Option.map_congr fun y hy => (Function.update_of_ne (hfree b y hy) ..).symm
  · by_cases hba : b = a
    · by_cases hca : c = a
      · rw [hba, hca]
      · rw [hba, Function.update_self] at hb
        rw [Function.update_of_ne hca] at hc
        -- A second address with that memory would have had it before.
        exact absurd (Option.some.inj hb).symm (hfree c y hc)
    · rw [Function.update_of_ne hba] at hb
      by_cases hca : c = a
      · rw [hca, Function.update_self] at hc
        exact absurd (Option.some.inj hc).symm (hfree b y hb)
      · rw [Function.update_of_ne hca] at hc
        exact h.apart b c y hb hc
  · by_cases hba : b = a
    · rw [hba, Function.update_self] at hb
      intro hmem
      exact (List.nodup_cons.1 hnodup).1 (Option.some.inj hb ▸ List.mem_filterMap.2 ⟨_, hmem, rfl⟩)
    · rw [Function.update_of_ne hba] at hb
      exact fun hmem => h.fresh b y hb (by rw [hheap]; exact List.mem_cons_of_mem _ hmem)

end Represents

namespace Leads

variable {scarce : Prop} {L L' L'' : MiiBus} {D D' : Directory} {phydev : Option ℕ} {q : Option ℕ}
  {a x : ℕ}

/-- After less memory is left. -/
theorem after (h : Leads scarce L' phydev L'' q D') (hmap : L'.phymap = L.phymap)
    (hheap : ¬ scarce → L'.heap = L.heap) : Leads scarce L phydev L'' q D' :=
  { h with
    grows := fun a x hx => h.grows a x (hmap ▸ hx)
    heap := fun hs => hheap hs ▸ h.heap hs }

/-- The device that has been found changes in its place. -/
theorem alter (h : Leads scarce L phydev L' (some a) D') (hx : phydev = some x) (f : Device → Device) :
    Leads scarce L phydev { L' with dev := Function.update L'.dev x (f (L'.dev x)) } (some a)
      (D'.alter a f) where
  represents := h.represents.alter (h.phydev.symm.trans hx) f
  phydev := h.phydev
  grows := h.grows
  heap := h.heap

end Leads

section Searches

variable {P : Type} {B : Mii.Phys P} {R : P → P → Prop} {ids : ℕ → U32} {I : P → Prop} {p p' : P}
  {L L' : MiiBus} {D : Directory} {phyMask : U32} {interface : PhyInterface} {scarce : Prop}
  {phydev : Option ℕ}

end Searches

/-! ## Runs of calls -/

section Runs

variable {P : Type} {B : Mii.Phys P} {R : P → P → Prop} {ids : ℕ → U32} {I : P → Prop} {p p' : P}
  {L L' : MiiBus} {D : Directory} {scarce : Prop}

/-- One PHY, at address 1; where there is none, the pull-up of the data line is read. -/
def onePhy (a : ℕ) : Clause22 :=
  let reg := fun r =>
    if a ≠ 1 then 0xffff
    else if r = MII_PHYSID1 then 0x001c
    else if r = MII_PHYSID2 then 0xc816
    else if r = MII_BMSR then 0x7849
    else 0
  ⟨reg, reg, 0⟩

def oneId (a : ℕ) : U32 := if a = 1 then 0x001cc816 else 0xffffffff

theorem identifier_onePhy (a : ℕ) : (onePhy a).Identifier (oneId a) := by
  have hreg : Clause22.HoldsId (onePhy a).reg (oneId a) := by
    by_cases ha : a = 1
    · subst ha
      exact ⟨rfl, rfl⟩
    · rw [oneId, if_neg ha]
      exact ⟨if_pos ha, if_pos ha⟩
  exact ⟨hreg, hreg⟩

/-- Memory for three devices, the first at address 64. -/
def oneBus : MiiBus :=
  ⟨none, fun _ => none, fun _ => newDevice [] 0 0 .none, [some 64, some 65, some 66], []⟩

end Runs

end Phy

end BspV3s
