import BspV3s.Emac.Driver
import BspV3s.Mii.Bus

/-!
# Driver — the PHY library

The generic routines that configure a PHY, as programs over the accesses of a management bus.  An `int`
is the word that holds it; a routine that changes the device returns it changed.
-/

namespace BspV3s

namespace Phy

open Mii (U16 U32 BusM MDIO_DEVAD_NONE)
open Emac (testBits)

/-- The part of `struct phy_device` that concerns its link. -/
structure PhyDevice where
  addr : ℕ
  autoneg : ℤ
  supported : U32
  advertising : U32
  speed : ℤ
  duplex : ℤ
  pause : ℤ
  asymPause : ℤ
  deriving DecidableEq, Repr

def MII_BMCR : ℕ := 0x00
def MII_BMSR : ℕ := 0x01
def MII_ADVERTISE : ℕ := 0x04
def MII_CTRL1000 : ℕ := 0x09
def MII_ESTATUS : ℕ := 0x0f

def BMCR_SPEED1000 : U32 := 0x0040
def BMCR_FULLDPLX : U32 := 0x0100
def BMCR_ANRESTART : U32 := 0x0200
def BMCR_ISOLATE : U32 := 0x0400
def BMCR_ANENABLE : U32 := 0x1000
def BMCR_SPEED100 : U32 := 0x2000

def BMSR_ANEGCAPABLE : U32 := 0x0008
def BMSR_ESTATEN : U32 := 0x0100
def BMSR_10HALF : U32 := 0x0800
def BMSR_10FULL : U32 := 0x1000
def BMSR_100HALF : U32 := 0x2000
def BMSR_100FULL : U32 := 0x4000

def ADVERTISE_10HALF : U32 := 0x0020
def ADVERTISE_1000XFULL : U32 := 0x0020
def ADVERTISE_10FULL : U32 := 0x0040
def ADVERTISE_1000XHALF : U32 := 0x0040
def ADVERTISE_100HALF : U32 := 0x0080
def ADVERTISE_100FULL : U32 := 0x0100
def ADVERTISE_100BASE4 : U32 := 0x0200
def ADVERTISE_PAUSE_CAP : U32 := 0x0400
def ADVERTISE_PAUSE_ASYM : U32 := 0x0800
def ADVERTISE_ALL : U32 :=
  ADVERTISE_10HALF ||| ADVERTISE_10FULL ||| ADVERTISE_100HALF ||| ADVERTISE_100FULL
def ADVERTISE_1000FULL : U32 := 0x0200
def ADVERTISE_1000HALF : U32 := 0x0100

def ESTATUS_1000_XFULL : U32 := 0x8000
def ESTATUS_1000_XHALF : U32 := 0x4000
def ESTATUS_1000_TFULL : U32 := 0x2000
def ESTATUS_1000_THALF : U32 := 0x1000

/-- `ADVERTISED_10baseT_Half` has the same value, and so on down the list. -/
def SUPPORTED_10baseT_Half : U32 := 1#32 <<< 0
def SUPPORTED_10baseT_Full : U32 := 1#32 <<< 1
def SUPPORTED_100baseT_Half : U32 := 1#32 <<< 2
def SUPPORTED_100baseT_Full : U32 := 1#32 <<< 3
def SUPPORTED_1000baseT_Half : U32 := 1#32 <<< 4
def SUPPORTED_1000baseT_Full : U32 := 1#32 <<< 5
def SUPPORTED_Autoneg : U32 := 1#32 <<< 6
def SUPPORTED_TP : U32 := 1#32 <<< 7
def SUPPORTED_AUI : U32 := 1#32 <<< 8
def SUPPORTED_MII : U32 := 1#32 <<< 9
def SUPPORTED_FIBRE : U32 := 1#32 <<< 10
def SUPPORTED_BNC : U32 := 1#32 <<< 11
def SUPPORTED_Pause : U32 := 1#32 <<< 13
def SUPPORTED_Asym_Pause : U32 := 1#32 <<< 14
def SUPPORTED_1000baseX_Half : U32 := 1#32 <<< 21
def SUPPORTED_1000baseX_Full : U32 := 1#32 <<< 22

def AUTONEG_ENABLE : ℤ := 1
def SPEED_1000 : ℤ := 1000
def SPEED_100 : ℤ := 100
def DUPLEX_FULL : ℤ := 1

def phyRead (phydev : PhyDevice) (regnum : ℕ) : BusM U32 :=
  Mii.busRead phydev.addr MDIO_DEVAD_NONE regnum

def phyWrite (phydev : PhyDevice) (regnum : ℕ) (val : U16) : BusM U32 :=
  Mii.busWrite phydev.addr MDIO_DEVAD_NONE regnum val

/-- `if (v & mask) w |= bits`. -/
def orIf (v mask bits w : U32) : U32 :=
  if testBits v mask then w ||| bits else w

/-- The abilities of the register that `genphy_config_advert` sanitizes. -/
def ADVERTISE_MASK : U32 :=
  ADVERTISE_ALL ||| ADVERTISE_100BASE4 ||| ADVERTISE_PAUSE_CAP ||| ADVERTISE_PAUSE_ASYM

/-- `MII_ADVERTISE`, having held `adv`. -/
def standardAdv (advertise adv : U32) : U32 :=
  let adv := adv &&& ~~~ADVERTISE_MASK
  let adv := orIf advertise SUPPORTED_10baseT_Half ADVERTISE_10HALF adv
  let adv := orIf advertise SUPPORTED_10baseT_Full ADVERTISE_10FULL adv
  let adv := orIf advertise SUPPORTED_100baseT_Half ADVERTISE_100HALF adv
  let adv := orIf advertise SUPPORTED_100baseT_Full ADVERTISE_100FULL adv
  let adv := orIf advertise SUPPORTED_Pause ADVERTISE_PAUSE_CAP adv
  let adv := orIf advertise SUPPORTED_Asym_Pause ADVERTISE_PAUSE_ASYM adv
  let adv := orIf advertise SUPPORTED_1000baseX_Half ADVERTISE_1000XHALF adv
  orIf advertise SUPPORTED_1000baseX_Full ADVERTISE_1000XFULL adv

/-- `MII_CTRL1000`, having held `adv`. -/
def gigabitAdv (supported advertise adv : U32) : U32 :=
  let adv := adv &&& ~~~(ADVERTISE_1000FULL ||| ADVERTISE_1000HALF)
  if testBits supported (SUPPORTED_1000baseT_Half ||| SUPPORTED_1000baseT_Full) then
    let adv := orIf advertise SUPPORTED_1000baseT_Half ADVERTISE_1000HALF adv
    orIf advertise SUPPORTED_1000baseT_Full ADVERTISE_1000FULL adv
  else adv

/-- The part of `genphy_config_advert` about `MII_ADVERTISE`: an error, or whether it has changed. -/
def configStandard (phydev : PhyDevice) : BusM (Except U32 Bool) := do
  let oldadv ← phyRead phydev MII_ADVERTISE
  if oldadv.slt 0 then pure (.error oldadv)
  else
    let adv := standardAdv phydev.advertising oldadv
    if adv ≠ oldadv then do
      let err ← phyWrite phydev MII_ADVERTISE (adv.setWidth 16)
      pure (if err.slt 0 then .error err else .ok true)
    else pure (.ok false)

/-- The part about `MII_CTRL1000`. -/
def configGigabit (phydev : PhyDevice) : BusM (Except U32 Bool) := do
  let bmsr ← phyRead phydev MII_BMSR
  if bmsr.slt 0 then pure (.error bmsr)
  else if !testBits bmsr BMSR_ESTATEN then pure (.ok false)
  else do
    let oldadv ← phyRead phydev MII_CTRL1000
    if oldadv.slt 0 then pure (.error oldadv)
    else do
      let adv := gigabitAdv phydev.supported phydev.advertising oldadv
      let err ← phyWrite phydev MII_CTRL1000 (adv.setWidth 16)
      pure (if err.slt 0 then .error err else .ok (adv ≠ oldadv))

/-- Both parts: an error, or whether anything has changed. -/
def configPages (phydev : PhyDevice) : BusM U32 := do
  match ← configStandard phydev with
  | .error err => pure err
  | .ok changed =>
      match ← configGigabit phydev with
      | .error err => pure err
      | .ok changed' => pure (if changed || changed' then 1 else 0)

def genphyConfigAdvert (phydev : PhyDevice) : BusM (U32 × PhyDevice) := do
  let phydev := { phydev with advertising := phydev.advertising &&& phydev.supported }
  let result ← configPages phydev
  pure (result, phydev)

def genphySetupForced (phydev : PhyDevice) : BusM (U32 × PhyDevice) := do
  let ctl := BMCR_ANRESTART
  let phydev := { phydev with pause := 0, asymPause := 0 }
  let ctl :=
    if SPEED_1000 = phydev.speed then ctl ||| BMCR_SPEED1000
    else if SPEED_100 = phydev.speed then ctl ||| BMCR_SPEED100
    else ctl
  let ctl := if DUPLEX_FULL = phydev.duplex then ctl ||| BMCR_FULLDPLX else ctl
  let err ← phyWrite phydev MII_BMCR (ctl.setWidth 16)
  pure (err, phydev)

def genphyRestartAneg (phydev : PhyDevice) : BusM U32 := do
  let ctl ← phyRead phydev MII_BMCR
  if ctl.slt 0 then pure ctl
  else
    let ctl := ctl ||| (BMCR_ANENABLE ||| BMCR_ANRESTART)
    let ctl := ctl &&& ~~~BMCR_ISOLATE
    phyWrite phydev MII_BMCR (ctl.setWidth 16)

/-- With nothing changed, the negotiation may never have been on, or the PHY may be isolated. -/
def anegOff (phydev : PhyDevice) (result : U32) : BusM U32 :=
  if result = 0 then do
    let ctl ← phyRead phydev MII_BMCR
    pure (if ctl.slt 0 then ctl
      else if !testBits ctl BMCR_ANENABLE || testBits ctl BMCR_ISOLATE then 1
      else 0)
  else pure result

/-- `if (result > 0) result = genphy_restart_aneg(phydev)`. -/
def restartIf (phydev : PhyDevice) (result : U32) : BusM U32 :=
  if BitVec.slt 0 result then genphyRestartAneg phydev else pure result

def genphyConfigAneg (phydev : PhyDevice) : BusM (U32 × PhyDevice) :=
  if AUTONEG_ENABLE ≠ phydev.autoneg then genphySetupForced phydev
  else do
    let (result, phydev) ← genphyConfigAdvert phydev
    if result.slt 0 then pure (result, phydev)
    else do
      let result ← anegOff phydev result
      let result ← restartIf phydev result
      pure (result, phydev)

/-- The features of a PHY whose `BMSR` is `val`. -/
def standardFeatures (val : U32) : U32 :=
  let features :=
    SUPPORTED_TP ||| SUPPORTED_MII ||| SUPPORTED_AUI ||| SUPPORTED_FIBRE ||| SUPPORTED_BNC
  let features := orIf val BMSR_ANEGCAPABLE SUPPORTED_Autoneg features
  let features := orIf val BMSR_100FULL SUPPORTED_100baseT_Full features
  let features := orIf val BMSR_100HALF SUPPORTED_100baseT_Half features
  let features := orIf val BMSR_10FULL SUPPORTED_10baseT_Full features
  orIf val BMSR_10HALF SUPPORTED_10baseT_Half features

/-- And those that its extended status adds. -/
def extendedFeatures (val features : U32) : U32 :=
  let features := orIf val ESTATUS_1000_TFULL SUPPORTED_1000baseT_Full features
  let features := orIf val ESTATUS_1000_THALF SUPPORTED_1000baseT_Half features
  let features := orIf val ESTATUS_1000_XFULL SUPPORTED_1000baseX_Full features
  orIf val ESTATUS_1000_XHALF SUPPORTED_1000baseX_Half features

/-- An error, or the features. -/
def readFeatures (phydev : PhyDevice) : BusM (Except U32 U32) := do
  let val ← phyRead phydev MII_BMSR
  if val.slt 0 then pure (.error val)
  else if testBits val BMSR_ESTATEN then do
    let val' ← phyRead phydev MII_ESTATUS
    pure (if val'.slt 0 then .error val' else .ok (extendedFeatures val' (standardFeatures val)))
  else pure (.ok (standardFeatures val))

/-- What `genphy_config_aneg` returns is not looked at. -/
def genphyConfig (phydev : PhyDevice) : BusM (U32 × PhyDevice) := do
  match ← readFeatures phydev with
  | .error val => pure (val, phydev)
  | .ok features =>
      let phydev :=
        { phydev with
          supported := phydev.supported &&& features
          advertising := phydev.advertising &&& features }
      let (_, phydev) ← genphyConfigAneg phydev
      pure (0, phydev)

/-! ## The registers that are accessed -/

section Addressed

variable {phydev : PhyDevice}

theorem only_phyRead (h : phydev.addr < 32) {reg : ℕ} (hreg : reg < 32) :
    Prog.Only Mii.Op.Addressed (phyRead phydev reg) :=
  Prog.only_op ⟨h, hreg⟩

theorem only_phyWrite (h : phydev.addr < 32) {reg : ℕ} (hreg : reg < 32) (val : U16) :
    Prog.Only Mii.Op.Addressed (phyWrite phydev reg val) :=
  Prog.only_op ⟨h, hreg⟩

theorem only_configPages (phydev : PhyDevice) (h : phydev.addr < 32) :
    Prog.Only Mii.Op.Addressed (configPages phydev) := by
  have hstandard : Prog.Only Mii.Op.Addressed (configStandard phydev) := by
    refine (only_phyRead h (by decide)).bind fun _ => Prog.Only.ite (Prog.only_pure _) ?_
    refine Prog.Only.ite ?_ (Prog.only_pure _)
    exact (only_phyWrite h (by decide) _).bind fun _ => Prog.only_pure _
  have hgigabit : Prog.Only Mii.Op.Addressed (configGigabit phydev) := by
    refine (only_phyRead h (by decide)).bind fun _ => Prog.Only.ite (Prog.only_pure _) ?_
    refine Prog.Only.ite (Prog.only_pure _) ?_
    refine (only_phyRead h (by decide)).bind fun _ => Prog.Only.ite (Prog.only_pure _) ?_
    exact (only_phyWrite h (by decide) _).bind fun _ => Prog.only_pure _
  refine hstandard.bind fun r => ?_
  cases r with
  | error err => exact Prog.only_pure _
  | ok changed =>
      refine hgigabit.bind fun r => ?_
      cases r with
      | error err => exact Prog.only_pure _
      | ok changed' => exact Prog.only_pure _

theorem only_genphyConfigAneg (phydev : PhyDevice) (h : phydev.addr < 32) :
    Prog.Only Mii.Op.Addressed (genphyConfigAneg phydev) := by
  refine Prog.Only.ite ((only_phyWrite h (by decide) _).bind fun _ => Prog.only_pure _) ?_
  have hoff : ∀ (d : PhyDevice) (result : U32), d.addr < 32 →
      Prog.Only Mii.Op.Addressed (anegOff d result) := fun d result hd =>
    Prog.Only.ite ((only_phyRead hd (by decide)).bind fun _ => Prog.only_pure _) (Prog.only_pure _)
  have hrestart : ∀ (d : PhyDevice) (result : U32), d.addr < 32 →
      Prog.Only Mii.Op.Addressed (restartIf d result) := by
    intro d result hd
    refine Prog.Only.ite ((only_phyRead hd (by decide)).bind fun _ => ?_) (Prog.only_pure _)
    exact Prog.Only.ite (Prog.only_pure _) (only_phyWrite hd (by decide) _)
  rw [genphyConfigAdvert, bind_assoc]
  refine (only_configPages { phydev with
    advertising := phydev.advertising &&& phydev.supported } h).bind fun result => ?_
  refine Prog.Only.ite (Prog.only_pure _) ((hoff _ _ h).bind fun _ => ?_)
  exact (hrestart _ _ h).bind fun _ => Prog.only_pure _

theorem only_genphyConfig (h : phydev.addr < 32) :
    Prog.Only Mii.Op.Addressed (genphyConfig phydev) := by
  have hfeatures : Prog.Only Mii.Op.Addressed (readFeatures phydev) := by
    refine (only_phyRead h (by decide)).bind fun _ => Prog.Only.ite (Prog.only_pure _) ?_
    refine Prog.Only.ite ?_ (Prog.only_pure _)
    exact (only_phyRead h (by decide)).bind fun _ => Prog.only_pure _
  refine hfeatures.bind fun r => ?_
  cases r with
  | error val => exact Prog.only_pure _
  | ok features =>
      exact (only_genphyConfigAneg { phydev with
        supported := phydev.supported &&& features
        advertising := phydev.advertising &&& features } h).bind fun _ => Prog.only_pure _

end Addressed

end Phy

end BspV3s
