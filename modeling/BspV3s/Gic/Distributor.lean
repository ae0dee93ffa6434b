import BspV3s.Lib.Bits

/-!
# Distributor — the interrupt controller as a map from interrupts to attributes

The distributor packs its per-interrupt state three ways: a read-modify-write bit (group), a
write-one-to-set and a write-one-to-clear view of one bit (enable), and a byte each (priority and
targets).  `Gicd` is that state and the functions of the driver change it word by word; `attr` is
what a register bank says about each interrupt, and `Gicd.run_attr` is that any sequence of calls acts on it
as on a plain map.
-/

namespace BspV3s

namespace Gic

abbrev U32 := BitVec 32

abbrev Byte := BitVec 8

/-! ## Registers -/

/-- The distributor.  `enabler` is the word behind `ISENABLERn` and `ICENABLERn`, `pendr` the one
behind `ICPENDRn`. -/
structure Gicd where
  ctlr : U32
  igroupr : ℕ → U32
  enabler : ℕ → U32
  pendr : ℕ → U32
  ipriorityr : ℕ → Byte
  itargetsr : ℕ → Byte

/-- The CPU interface. -/
structure Gicc where
  ctlr : U32
  pmr : U32
  bpr : U32

/-- A store to `ISENABLERn[reg]`. -/
def Gicd.isenabler (g : Gicd) (reg : ℕ) (v : U32) : Gicd :=
  { g with enabler := Function.update g.enabler reg (g.enabler reg ||| v) }

/-- A store to `ICENABLERn[reg]`. -/
def Gicd.icenabler (g : Gicd) (reg : ℕ) (v : U32) : Gicd :=
  { g with enabler := Function.update g.enabler reg (g.enabler reg &&& ~~~v) }

/-- A store to `ICPENDRn[reg]`. -/
def Gicd.icpendr (g : Gicd) (reg : ℕ) (v : U32) : Gicd :=
  { g with pendr := Function.update g.pendr reg (g.pendr reg &&& ~~~v) }

/-! ## The driver -/

def irqGetRegisterOffset (irqID : U32) : ℕ :=
  (irqID / 32#32).toNat

def irqGetBitOffset (irqID : U32) : U32 :=
  irqID &&& 0x1f#32

def irqGetBitMask (irqID : U32) : U32 :=
  1#32 <<< irqGetBitOffset irqID

def gicEnable (enableIt : Bool) (g : Gicd) : Gicd :=
  -- kBM_GICD_CTLR_EnableGrp0 | kBM_GICD_CTLR_EnableGrp1
  if enableIt then { g with ctlr := g.ctlr ||| 0x3#32 }
  else { g with ctlr := g.ctlr &&& ~~~0x3#32 }

def gicSetIrqSecurity (irqID : U32) (isSecure : Bool) (g : Gicd) : Gicd :=
  let reg := irqGetRegisterOffset irqID
  let mask := irqGetBitMask irqID
  let value := g.igroupr reg
  let value := if !isSecure then value &&& ~~~mask else value ||| mask
  { g with igroupr := Function.update g.igroupr reg value }

def gicEnableIrq (irqID : U32) (isEnabled : Bool) (g : Gicd) : Gicd :=
  let reg := irqGetRegisterOffset irqID
  let mask := irqGetBitMask irqID
  if isEnabled then g.isenabler reg mask else g.icenabler reg mask

def gicSetIrqPriority (irqID priority : U32) (g : Gicd) : Gicd :=
  let value : Byte := (priority &&& 0xff#32).setWidth 8
  { g with ipriorityr := Function.update g.ipriorityr irqID.toNat value }

/-- Nothing when the assertion on the CPU number fails. -/
def gicSetCpuTarget (irqID cpuNumber : U32) (enableIt : Bool) (g : Gicd) : Option Gicd :=
  if cpuNumber ≤ 7#32 then
    let cpuMask : Byte := (1#32 <<< cpuNumber).setWidth 8
    let target := g.itargetsr irqID.toNat
    let target := if enableIt then target ||| cpuMask else target &&& ~~~cpuMask
    some { g with itargetsr := Function.update g.itargetsr irqID.toNat target }
  else
    none

/-- `for (i = 0; i < n; ++i)`. -/
def forRegs (body : ℕ → Gicd → Gicd) : ℕ → Gicd → Gicd
  | 0, g => g
  | n + 1, g => body n (forRegs body n g)

def gicSetCpuPriorityMask (priority : U32) (c : Gicc) : Gicc :=
  { c with pmr := priority &&& 0xff#32 }

def gicCpuEnable (enableIt : Bool) (c : Gicc) : Gicc :=
  -- kBM_GICC_CTLR_EnableS | kBM_GICC_CTLR_EnableNS
  if enableIt then { c with ctlr := c.ctlr ||| 0x3#32 }
  else { c with ctlr := c.ctlr &&& ~~~0x3#32 }

def gicInitCpu (c : Gicc) : Gicc :=
  let c := gicSetCpuPriorityMask 0xff#32 c
  gicCpuEnable true { c with bpr := 7 }

def gicInit (g : Gicd × Gicc) : Gicd × Gicc :=
  let gicd := gicEnable false g.1
  -- Clear all pending interrupts.
  let gicd := forRegs (fun i g => g.icpendr i 0xffffffff#32) 32 gicd
  -- Set all interrupts to secure.
  let gicd := forRegs (fun i g => { g with igroupr := Function.update g.igroupr i 0 }) 8 gicd
  (gicEnable true gicd, gicInitCpu g.2)

def enableInterrupt (irqId cpuId priority : U32) (g : Gicd) : Option Gicd := do
  let g := gicSetIrqPriority irqId priority g
  let g := gicSetIrqSecurity irqId false g
  let g ← gicSetCpuTarget irqId cpuId true g
  some (gicEnableIrq irqId true g)

def disableInterrupt (irqId cpuId : U32) (g : Gicd) : Option Gicd :=
  let g := gicEnableIrq irqId false g
  gicSetCpuTarget irqId cpuId false g

/-! ## What the registers say about an interrupt -/

/-- The attributes of one interrupt. -/
@[ext]
structure IrqAttr where
  enabled : Bool
  group : Bool
  priority : Byte
  targets : Finset (Fin 8)

/-- The map that the register banks hold. -/
def attr (g : Gicd) (irq : ℕ) : IrqAttr where
  enabled := packedBit g.enabler irq
  group := packedBit g.igroupr irq
  priority := g.ipriorityr irq
  targets := byteSet (g.itargetsr irq)

/-- One attribute of one interrupt changed. -/
def alter (m : ℕ → IrqAttr) (irq : ℕ) (f : IrqAttr → IrqAttr) : ℕ → IrqAttr :=
  Function.update m irq (f (m irq))

@[simp] theorem alter_self (m : ℕ → IrqAttr) (irq : ℕ) (f : IrqAttr → IrqAttr) :
    alter m irq f irq = f (m irq) :=
  Function.update_self ..

theorem alter_of_ne {m : ℕ → IrqAttr} {irq irq' : ℕ} (h : irq' ≠ irq) (f : IrqAttr → IrqAttr) :
    alter m irq f irq' = m irq' :=
  Function.update_of_ne h ..

theorem alter_alter (m : ℕ → IrqAttr) (irq : ℕ) (f f' : IrqAttr → IrqAttr) :
    alter (alter m irq f) irq f' = alter m irq fun a => f' (f a) := by
  unfold alter
  rw [Function.update_self, Function.update_idem]

theorem irqGetRegisterOffset_eq (irqID : U32) : irqGetRegisterOffset irqID = irqID.toNat / 32 := by
  rw [irqGetRegisterOffset, BitVec.toNat_udiv]
  rfl

theorem irqGetBitMask_eq (irqID : U32) : irqGetBitMask irqID = packedMask irqID.toNat := by
  have hbit : (irqGetBitOffset irqID).toNat = irqID.toNat % 32 := by
    rw [irqGetBitOffset, BitVec.toNat_and]
    exact Nat.and_two_pow_sub_one_eq_mod _ 5
  rw [irqGetBitMask, packedMask, BitVec.shiftLeft_eq', hbit]

/-! ## One call -/

/-- A change of the registers that each bank sees at one interrupt only. -/
theorem attr_eq_alter {g g' : Gicd} {irq : ℕ} {f : IrqAttr → IrqAttr}
    (enabled : packedBit g'.enabler =
      Function.update (packedBit g.enabler) irq (f (attr g irq)).enabled)
    (group : packedBit g'.igroupr =
      Function.update (packedBit g.igroupr) irq (f (attr g irq)).group)
    (priority : g'.ipriorityr = Function.update g.ipriorityr irq (f (attr g irq)).priority)
    (targets : (fun i => byteSet (g'.itargetsr i)) =
      Function.update (fun i => byteSet (g.itargetsr i)) irq (f (attr g irq)).targets) :
    attr g' = alter (attr g) irq f := by
  funext irq'
  have henabled := congrFun enabled irq'
  have hgroup := congrFun group irq'
  have hpriority := congrFun priority irq'
  have htargets := congrFun targets irq'
  by_cases h : irq' = irq
  · subst h
    rw [Function.update_self] at henabled hgroup hpriority htargets
    rw [alter_self]
    exact IrqAttr.ext henabled hgroup hpriority htargets
  · rw [Function.update_of_ne h] at henabled hgroup hpriority htargets
    rw [alter_of_ne h]
    exact IrqAttr.ext henabled hgroup hpriority htargets

theorem attr_gicSetIrqSecurity (irqID : U32) (isSecure : Bool) (g : Gicd) :
    attr (gicSetIrqSecurity irqID isSecure g) =
      alter (attr g) irqID.toNat fun a => { a with group := isSecure } := by
  refine attr_eq_alter (Function.update_eq_self ..).symm ?_ (Function.update_eq_self ..).symm
    (Function.update_eq_self ..).symm
  rw [gicSetIrqSecurity, irqGetRegisterOffset_eq, irqGetBitMask_eq]
  cases isSecure with
  | false => exact packedBit_clear _ _
  | true => exact packedBit_set _ _

theorem attr_gicEnableIrq (irqID : U32) (isEnabled : Bool) (g : Gicd) :
    attr (gicEnableIrq irqID isEnabled g) =
      alter (attr g) irqID.toNat fun a => { a with enabled := isEnabled } := by
  rw [gicEnableIrq, irqGetRegisterOffset_eq, irqGetBitMask_eq]
  cases isEnabled with
  | false =>
      exact attr_eq_alter (packedBit_clear _ _) (Function.update_eq_self ..).symm
        (Function.update_eq_self ..).symm (Function.update_eq_self ..).symm
  | true =>
      exact attr_eq_alter (packedBit_set _ _) (Function.update_eq_self ..).symm
        (Function.update_eq_self ..).symm (Function.update_eq_self ..).symm

theorem attr_gicSetIrqPriority (irqID priority : U32) (g : Gicd) :
    attr (gicSetIrqPriority irqID priority g) =
      alter (attr g) irqID.toNat fun a => { a with priority := priority.setWidth 8 } := by
  have hbyte : (priority &&& 0xff#32).setWidth 8 = priority.setWidth 8 := by
    rw [BitVec.setWidth_and]
    exact BitVec.and_allOnes
  refine attr_eq_alter (Function.update_eq_self ..).symm (Function.update_eq_self ..).symm ?_
    (Function.update_eq_self ..).symm
  rw [← hbyte]
  rfl

/-- On one of the eight CPUs the assertion holds. -/
theorem attr_gicSetCpuTarget (irqID : U32) {cpuNumber : U32} (cpu : Fin 8)
    (hcpu : cpuNumber.toNat = cpu) (enableIt : Bool) (g : Gicd) :
    ∃ g', gicSetCpuTarget irqID cpuNumber enableIt g = some g' ∧
      attr g' = alter (attr g) irqID.toNat fun a => { a with
        targets := if enableIt then insert cpu a.targets else a.targets.erase cpu } := by
  have hle : cpuNumber ≤ 7#32 := by
    rw [BitVec.le_def, hcpu]
    exact Nat.le_of_lt_succ cpu.isLt
  have hmask : (1#32 <<< cpuNumber).setWidth 8 = 1#8 <<< (cpu : ℕ) := by
    have hbits : ∀ i : Fin 8, (1#32 <<< (i : ℕ)).setWidth 8 = 1#8 <<< (i : ℕ) := by decide
    rw [BitVec.shiftLeft_eq', hcpu]
    exact hbits cpu
  refine ⟨_, if_pos hle, ?_⟩
  refine attr_eq_alter (Function.update_eq_self ..).symm (Function.update_eq_self ..).symm
    (Function.update_eq_self ..).symm ?_
  rw [hmask]
  refine (Function.comp_update byteSet ..).trans (congrArg (Function.update _ _) ?_)
  cases enableIt with
  | false => exact byteSet_and_not _ _
  | true => exact byteSet_or _ _

/-! ## Sequences of calls -/

/-- The calls that change the attributes of an interrupt. -/
inductive Call
  | security (irqID : U32) (isSecure : Bool)
  | enable (irqId : U32) (cpuId : U32) (priority : U32)
  | disable (irqId : U32) (cpuId : U32)
  deriving DecidableEq

/-- The interrupt a call is about. -/
def Call.irq : Call → ℕ
  | .security irqID _ => irqID.toNat
  | .enable irqId _ _ => irqId.toNat
  | .disable irqId _ => irqId.toNat

/-- The call names one of the interrupts that all banks have, and one of the eight CPUs. -/
def Call.Valid : Call → Prop
  | .security irqID _ => irqID.toNat < 256
  | .enable irqId cpuId _ => irqId.toNat < 256 ∧ cpuId.toNat ≤ 7
  | .disable irqId cpuId => irqId.toNat < 256 ∧ cpuId.toNat ≤ 7

def Gicd.step (g : Gicd) : Call → Option Gicd
  | .security irqID isSecure => some (gicSetIrqSecurity irqID isSecure g)
  | .enable irqId cpuId priority => enableInterrupt irqId cpuId priority g
  | .disable irqId cpuId => disableInterrupt irqId cpuId g

def Gicd.run (g : Gicd) : List Call → Option Gicd
  | [] => some g
  | c :: cs => do
      let g ← g.step c
      g.run cs

/-- The CPU that a number stands for. -/
def cpuOf (cpuId : U32) : Fin 8 := Fin.ofNat 8 cpuId.toNat

/-- What a call is for: `group` is the value that `gic_set_irq_security` stores. -/
def Call.effect : Call → IrqAttr → IrqAttr
  | .security _ isSecure, a => { a with group := isSecure }
  | .enable _ cpuId priority, a =>
      { enabled := true
        group := false
        priority := priority.setWidth 8
        targets := insert (cpuOf cpuId) a.targets }
  | .disable _ cpuId, a =>
      { a with enabled := false, targets := a.targets.erase (cpuOf cpuId) }

/-- The abstract distributor: each call changes the entry of its own interrupt. -/
def absRun (m : ℕ → IrqAttr) : List Call → ℕ → IrqAttr
  | [] => m
  | c :: cs => absRun (alter m c.irq c.effect) cs

theorem Gicd.step_attr (g : Gicd) {c : Call} (hc : c.Valid) :
    ∃ g', g.step c = some g' ∧ attr g' = alter (attr g) c.irq c.effect := by
  have hcpu : ∀ cpuId : U32, cpuId.toNat ≤ 7 → cpuId.toNat = cpuOf cpuId := by
    intro cpuId h
    exact (Nat.mod_eq_of_lt (by omega : cpuId.toNat < 8)).symm
  cases c with
  | security irqID isSecure => exact ⟨_, rfl, attr_gicSetIrqSecurity _ _ _⟩
  | enable irqId cpuId priority =>
      rcases attr_gicSetCpuTarget irqId (cpuOf cpuId) (hcpu cpuId hc.2) true
        (gicSetIrqSecurity irqId false (gicSetIrqPriority irqId priority g)) with ⟨g', hg', hattr⟩
      refine ⟨gicEnableIrq irqId true g', ?_, ?_⟩
      · show (gicSetCpuTarget _ _ _ _).bind _ = _
        rw [hg']
        rfl
      · rw [attr_gicEnableIrq, hattr, attr_gicSetIrqSecurity, attr_gicSetIrqPriority,
          alter_alter, alter_alter, alter_alter]
        rfl
  | disable irqId cpuId =>
      rcases attr_gicSetCpuTarget irqId (cpuOf cpuId) (hcpu cpuId hc.2) false
        (gicEnableIrq irqId false g) with ⟨g', hg', hattr⟩
      refine ⟨g', hg', ?_⟩
      rw [hattr, attr_gicEnableIrq, alter_alter]
      rfl

theorem Gicd.run_attr (g : Gicd) {cs : List Call} (hcs : ∀ c ∈ cs, c.Valid) :
    ∃ g', g.run cs = some g' ∧ attr g' = absRun (attr g) cs := by
  induction cs generalizing g with
  | nil => exact ⟨g, rfl, rfl⟩
  | cons c cs ih =>
      rcases g.step_attr (hcs c (List.mem_cons_self ..)) with ⟨g₁, hstep, hattr₁⟩
      rcases ih g₁ fun c' hc' => hcs c' (List.mem_cons_of_mem _ hc') with ⟨g₂, hrun, hattr₂⟩
      refine ⟨g₂, ?_, ?_⟩
      · rw [Gicd.run, hstep]
        exact hrun
      · rw [hattr₂, hattr₁]
        rfl

/-- After `gic_init` every sequence of calls keeps the packed distributor equal to the map that the
same calls make of its state, each call changing the entry of its own interrupt only. -/
theorem distributor_refines (g₀ : Gicd × Gicc) (cs : List Call) (hcs : ∀ c ∈ cs, c.Valid) :
    ∃ g, (gicInit g₀).1.run cs = some g ∧ attr g = absRun (attr (gicInit g₀).1) cs :=
  (gicInit g₀).1.run_attr hcs

/-- A controller with all registers clear. -/
def Gicd.reset : Gicd where
  ctlr := 0
  igroupr := fun _ => 0
  enabler := fun _ => 0
  pendr := fun _ => 0
  ipriorityr := fun _ => 0
  itargetsr := fun _ => 0

def Gicc.reset : Gicc where
  ctlr := 0
  pmr := 0
  bpr := 0

/-- Two interrupts that share their words. -/
theorem distributor_refines_pair :
    (∀ c ∈ [Call.enable 34 0 0xa0, .enable 35 1 0x50, .disable 34 0], c.Valid) ∧
      ∃ g, (gicInit (Gicd.reset, Gicc.reset)).1.run
          [.enable 34 0 0xa0, .enable 35 1 0x50, .disable 34 0] = some g ∧
        attr g = absRun (attr (gicInit (Gicd.reset, Gicc.reset)).1)
          [.enable 34 0 0xa0, .enable 35 1 0x50, .disable 34 0] := by
  have hvalid : ∀ c ∈ [Call.enable 34 0 0xa0, .enable 35 1 0x50, .disable 34 0], c.Valid := by
    simp [Call.Valid]
  exact ⟨hvalid, distributor_refines _ _ hvalid⟩

end Gic

end BspV3s
