import BspV3s.Lib.Bits
import BspV3s.Lib.Budget
import BspV3s.Mii.Bus

/-!
# Mdio — the management bus through the registers of the MAC

`sun8i_mdio_read` and `sun8i_mdio_write` put a transaction into `EMAC_MII_CMD` and poll its busy bit
against the system tick.  Beside them runs the controller: a transaction takes as long as it takes, and
when it is over the PHY has been read into `EMAC_MII_DATA`, or written.

* `sun8iMdioRead_ends`, `sun8iMdioWrite_ends` : one transaction;
* `mdio_carries` : any routine of the PHY library, run through these registers, ends and is a run of it
  on the PHYs themselves.
-/

namespace BspV3s

namespace Mii

/-! ## The driver -/

inductive MacReg
  | cmd
  | data
  deriving DecidableEq, Repr

inductive MacOp
  | readl (r : MacReg)
  | writel (r : MacReg) (v : U32)
  /-- `rt_tick_get`. -/
  | tick
  | udelay (usec : ℕ)
  deriving DecidableEq

abbrev MacOp.Ret : MacOp → Type
  | .readl _ => U32
  | .tick => U32
  | _ => Unit

abbrev MacM := Prog MacOp MacOp.Ret

def readl (r : MacReg) : MacM U32 := Prog.op (MacOp.readl r)
def writel (r : MacReg) (v : U32) : MacM Unit := Prog.op (MacOp.writel r v)
def rtTickGet : MacM U32 := Prog.op MacOp.tick
def macUdelay (usec : ℕ) : MacM Unit := Prog.op (MacOp.udelay usec)

def MDIO_CMD_MII_BUSY : U32 := 0x1
def MDIO_CMD_MII_WRITE : U32 := 0x2
def MDIO_CMD_MII_PHY_REG_ADDR_MASK : U32 := 0x000001f0
def MDIO_CMD_MII_PHY_ADDR_MASK : U32 := 0x0001f000

/-- `3 * CONFIG_SYS_HZ`. -/
def CONFIG_MDIO_TIMEOUT : U32 := 3000

def getTimer (base : U32) : MacM U32 := do
  let tick ← rtTickGet
  pure (tick - base)

/-- The register and the PHY, put into `miiaddr`. -/
def addressed (miiaddr addr reg : U32) : U32 :=
  let miiaddr := miiaddr &&& ~~~MDIO_CMD_MII_PHY_REG_ADDR_MASK
  let miiaddr := miiaddr ||| (reg <<< 4 &&& MDIO_CMD_MII_PHY_REG_ADDR_MASK)
  let miiaddr := miiaddr &&& ~~~MDIO_CMD_MII_PHY_ADDR_MASK
  miiaddr ||| (addr <<< 12 &&& MDIO_CMD_MII_PHY_ADDR_MASK)

def readCmd (addr reg : U32) : U32 :=
  addressed (0 &&& ~~~MDIO_CMD_MII_WRITE) addr reg ||| MDIO_CMD_MII_BUSY

def writeCmd (addr reg : U32) : U32 :=
  addressed 0 addr reg ||| MDIO_CMD_MII_WRITE ||| MDIO_CMD_MII_BUSY

/-- The loop that waits for the busy bit to clear, with a budget of polls; whether it has cleared. -/
def waitIdle : (polls : ℕ) → (start : U32) → MacM Bool
  | 0, _ => pure false
  | polls + 1, start => do
      let passed ← getTimer start
      if passed < CONFIG_MDIO_TIMEOUT then do
        let cmd ← readl .cmd
        if cmd &&& MDIO_CMD_MII_BUSY = 0 then pure true
        else do
          macUdelay 10
          waitIdle polls start
      else pure false

def sun8iMdioRead (addr reg : U32) (polls : ℕ) : MacM U32 := do
  writel .cmd (readCmd addr reg)
  let start ← getTimer 0
  let idle ← waitIdle polls start
  if idle then readl .data else pure (-1)

def sun8iMdioWrite (addr reg : U32) (val : U16) (polls : ℕ) : MacM U32 := do
  writel .data (val.setWidth 32)
  writel .cmd (writeCmd addr reg)
  let start ← getTimer 0
  let idle ← waitIdle polls start
  pure (if idle then 0 else -1)

/-- The callbacks that `sun8i_mdio_init` gives its bus; `devad` is not looked at. -/
def viaMac : (o : Op) → ℕ → MacM o.Ret
  | .read addr _ reg, polls => sun8iMdioRead (BitVec.ofNat 32 addr) (BitVec.ofNat 32 reg) polls
  | .write addr _ reg val, polls =>
      sun8iMdioWrite (BitVec.ofNat 32 addr) (BitVec.ofNat 32 reg) val polls
  | .udelay usec, _ => macUdelay usec

/-! ## The controller -/

/-- A transaction: its PHY and register, and the value it writes. -/
structure Xfer where
  addr : ℕ
  reg : ℕ
  val : Option U16

/-- The transaction that a value of `EMAC_MII_CMD` stands for. -/
def decode (cmd data : U32) : Xfer where
  addr := (getField cmd 12 5).toNat
  reg := (getField cmd 4 5).toNat
  val := if cmd &&& MDIO_CMD_MII_WRITE = 0 then none else some (data.setWidth 16)

structure Smi (P : Type) where
  phys : P
  time : ℕ
  /-- The transaction under way, and when it will be over. -/
  flight : Option (Xfer × ℕ)
  cmd : U32
  data : U32

/-- What the driver meets: the PHYs and how they go on by themselves, how long a transaction takes that
is begun at some time, and the system tick. -/
structure Env (P : Type) where
  bus : Phys P
  drift : ℕ → P → P
  duration : ℕ → ℕ
  tick : ℕ → U32

namespace Env

variable {P : Type} (E : Env P)

def complete (x : Xfer) (s : Smi P) : Smi P :=
  match x.val with
  | none =>
      { s with
        phys := (E.bus.read x.addr x.reg s.phys).2
        data := (E.bus.read x.addr x.reg s.phys).1.setWidth 32
        flight := none }
  | some val => { s with phys := E.bus.write x.addr x.reg val s.phys, flight := none }

/-- The PHYs go on for a unit of time. -/
def elapse (s : Smi P) : Smi P :=
  { s with time := s.time + 1, phys := E.drift s.time s.phys }

/-- A unit of time, in which the transaction may come to its end. -/
def pass (s : Smi P) : Smi P :=
  match s.flight with
  | none => E.elapse s
  | some (x, due) => if due ≤ s.time + 1 then E.complete x (E.elapse s) else E.elapse s

/-- An access, which takes a unit of time. -/
def access (o : MacOp) (s : Smi P) : o.Ret × Smi P :=
  let s := E.pass s
  match o with
  | .readl .cmd =>
      (if s.flight.isSome then s.cmd ||| MDIO_CMD_MII_BUSY else s.cmd &&& ~~~MDIO_CMD_MII_BUSY, s)
  | .readl .data => (s.data, s)
  | .writel .cmd v =>
      ((), { s with
        cmd := v
        flight :=
          if v &&& MDIO_CMD_MII_BUSY = 0 then none else some (decode v s.data, s.time + E.duration s.time) })
  | .writel .data v => ((), { s with data := v })
  | .tick => (E.tick s.time, s)
  | .udelay _ => ((), s)

/-- Neither register is written, nor is the value taken, while a transaction is under way. -/
def check : MacOp → Smi P → Bool
  | .writel _ _, s => s.flight.isNone
  | .readl .data, s => s.flight.isNone
  | _, _ => true

/-- From the beginning of a transaction to the poll that sees its end there are fewer ticks than the
driver waits. -/
def Timely : Prop :=
  ∀ t u v, t ≤ u → u ≤ v → v ≤ t + E.duration t + 2 → E.tick v - E.tick u < CONFIG_MDIO_TIMEOUT

/-- The PHYs going on by themselves. -/
def Drift (p p' : P) : Prop := ∃ t, p' = E.drift t p

end Env

/-! ## Commands -/

section Commands

variable {addr reg : U32}

theorem addressed_eq (addr reg : U32) :
    addressed 0 addr reg = setField reg 4 5 ||| setField addr 12 5 := by
  have hreg : MDIO_CMD_MII_PHY_REG_ADDR_MASK = fieldMask 4 5 := rfl
  have haddr : MDIO_CMD_MII_PHY_ADDR_MASK = fieldMask 12 5 := rfl
  have hapart : fieldMask 4 5 &&& ~~~fieldMask 12 5 = fieldMask 4 5 := by decide
  rw [addressed, hreg, haddr]
  simp only [BitVec.ofNat_eq_ofNat, BitVec.zero_and, BitVec.zero_or]
  rw [BitVec.and_assoc, hapart]
  rfl

/-- The bits below and between the fields are clear. -/
theorem addressed_and {m : U32} (hm : fieldMask 4 5 &&& m = 0) (hm' : fieldMask 12 5 &&& m = 0) :
    addressed 0 addr reg &&& m = 0 := by
  have hclear : ∀ x lo, fieldMask lo 5 &&& m = 0 → setField x lo 5 &&& m = 0 := by
    intro x lo h
    rw [setField, BitVec.and_assoc, h]
    exact BitVec.and_zero
  rw [addressed_eq, BitVec.and_or_distrib_right, hclear _ _ hm, hclear _ _ hm']
  rfl

theorem readCmd_eq (addr reg : U32) :
    readCmd addr reg = addressed 0 addr reg ||| MDIO_CMD_MII_BUSY := rfl

theorem readCmd_busy : readCmd addr reg &&& MDIO_CMD_MII_BUSY ≠ 0 := by
  rw [readCmd_eq, BitVec.and_or_distrib_right, addressed_and (by decide) (by decide)]
  decide

theorem writeCmd_busy : writeCmd addr reg &&& MDIO_CMD_MII_BUSY ≠ 0 := by
  rw [writeCmd, BitVec.and_or_distrib_right, BitVec.and_or_distrib_right,
    addressed_and (by decide) (by decide)]
  decide

/-- A busy bit that is set is seen set, whatever the other bits. -/
theorem or_busy_busy (v : U32) : (v ||| MDIO_CMD_MII_BUSY) &&& MDIO_CMD_MII_BUSY ≠ 0 := by
  intro h
  have hbit := congrArg (fun w : U32 => w.getLsbD 0) h
  simp [MDIO_CMD_MII_BUSY] at hbit

/-- The fields of a command are those that were put in, if the bits beside them lie outside both. -/
theorem getField_addressed {m : U32} (haddr : addr.toNat < 32) (hreg : reg.toNat < 32)
    (hm : getField m 4 5 = 0) (hm' : getField m 12 5 = 0) :
    (getField (addressed 0 addr reg ||| m) 12 5).toNat = addr.toNat ∧
      (getField (addressed 0 addr reg ||| m) 4 5).toNat = reg.toNat := by
  have hr : getField (setField reg 4 5) 12 5 = 0 := getField_setField_of_disjoint reg (by decide)
  have ha : getField (setField addr 12 5) 4 5 = 0 := getField_setField_of_disjoint addr (by decide)
  rw [addressed_eq]
  simp only [getField_or, hm, hm', hr, ha, BitVec.ofNat_eq_ofNat, BitVec.or_zero, BitVec.zero_or]
  rw [getField_setField_self _ (by decide), getField_setField_self _ (by decide)]
  exact ⟨Nat.mod_eq_of_lt haddr, Nat.mod_eq_of_lt hreg⟩

theorem decode_readCmd {data : U32} (haddr : addr.toNat < 32) (hreg : reg.toNat < 32) :
    decode (readCmd addr reg) data = ⟨addr.toNat, reg.toNat, none⟩ := by
  have hfields := getField_addressed (m := MDIO_CMD_MII_BUSY) haddr hreg (by decide) (by decide)
  have hwrite : readCmd addr reg &&& MDIO_CMD_MII_WRITE = 0 := by
    rw [readCmd_eq, BitVec.and_or_distrib_right, addressed_and (by decide) (by decide)]
    decide
  rw [decode, hwrite, if_pos rfl, readCmd_eq, hfields.1, hfields.2]

theorem decode_writeCmd {data : U32} (haddr : addr.toNat < 32) (hreg : reg.toNat < 32) :
    decode (writeCmd addr reg) data = ⟨addr.toNat, reg.toNat, some (data.setWidth 16)⟩ := by
  have hfields := getField_addressed (m := MDIO_CMD_MII_WRITE ||| MDIO_CMD_MII_BUSY) haddr hreg
    (by decide) (by decide)
  have hwrite : writeCmd addr reg &&& MDIO_CMD_MII_WRITE ≠ 0 := by
    rw [writeCmd, BitVec.and_or_distrib_right, BitVec.and_or_distrib_right,
      addressed_and (by decide) (by decide)]
    decide
  rw [decode, if_neg hwrite, writeCmd, BitVec.or_assoc, hfields.1, hfields.2]

end Commands

/-! ## One transaction -/

section Transaction

variable {P : Type} {E : Env P} {s : Smi P} {x : Xfer} {t : ℕ} {p : P}

/-- The PHYs have been accessed as `x` says, having been in state `p` before. -/
def Carried (E : Env P) (x : Xfer) (p : P) (s : Smi P) : Prop :=
  ∃ p₁, Relation.ReflTransGen E.Drift p p₁ ∧
    match x.val with
    | none =>
        s.data = (E.bus.read x.addr x.reg p₁).1.setWidth 32 ∧
          Relation.ReflTransGen E.Drift (E.bus.read x.addr x.reg p₁).2 s.phys
    | some val => Relation.ReflTransGen E.Drift (E.bus.write x.addr x.reg val p₁) s.phys

/-- Transaction `x`, begun at time `t`, is under way. -/
structure Flying (E : Env P) (x : Xfer) (t : ℕ) (p : P) (s : Smi P) : Prop where
  flight : s.flight = some (x, t + E.duration t)
  began : t ≤ s.time
  due : s.time ≤ t + E.duration t
  phys : Relation.ReflTransGen E.Drift p s.phys

/-- It is over. -/
structure Landed (E : Env P) (x : Xfer) (p : P) (s : Smi P) : Prop where
  flight : s.flight = none
  carried : Carried E x p s

theorem pass_time : (E.pass s).time = s.time + 1 := by
  unfold Env.pass Env.complete
  split
  · rfl
  · split
    · split <;> rfl
    · rfl

theorem pass_none (h : s.flight = none) : E.pass s = E.elapse s := by
  rw [Env.pass, h]

theorem Landed.pass (h : Landed E x p s) : Landed E x p (E.pass s) := by
  rw [pass_none h.flight]
  refine ⟨h.flight, ?_⟩
  rcases h.carried with ⟨p₁, hp₁, hrest⟩
  refine ⟨p₁, hp₁, ?_⟩
  cases hval : x.val with
  | none =>
      rw [hval] at hrest
      exact ⟨hrest.1, hrest.2.tail ⟨s.time, rfl⟩⟩
  | some val =>
      rw [hval] at hrest
      exact Relation.ReflTransGen.tail hrest ⟨s.time, rfl⟩

/-- A unit of time later the transaction is still under way, or it is over. -/
theorem Flying.pass (h : Flying E x t p s) :
    Flying E x t p (E.pass s) ∨ Landed E x p (E.pass s) := by
  have hdrift : Relation.ReflTransGen E.Drift p (E.drift s.time s.phys) := h.phys.tail ⟨s.time, rfl⟩
  rw [Env.pass, h.flight]
  by_cases hover : t + E.duration t ≤ s.time + 1
  · refine Or.inr ?_
    simp only [if_pos hover]
    refine ⟨?_, _, hdrift, ?_⟩
    · cases hval : x.val <;> simp only [Env.complete, hval]
    · cases hval : x.val with
      | none => exact (by simp only [Env.complete, hval]; exact ⟨rfl, .refl⟩)
      | some val => exact (by simp only [Env.complete, hval]; exact .refl)
  · refine Or.inl ?_
    simp only [if_neg hover]
    have htime : (E.elapse s).time = s.time + 1 := rfl
    exact ⟨h.flight, by have := h.began; omega, by omega, hdrift⟩

/-- A transaction that has been begun. -/
def Begun (E : Env P) (x : Xfer) (t : ℕ) (p : P) (s : Smi P) : Prop :=
  Flying E x t p s ∨ Landed E x p s

theorem Begun.pass (h : Begun E x t p s) : Begun E x t p (E.pass s) := by
  rcases h with hfly | hland
  · exact hfly.pass
  · exact Or.inr hland.pass

/-- The system tick is read in time. -/
theorem getTimer_ends {base : U32} {Q : U32 → Smi P → Prop}
    (h : Q (E.tick (s.time + 1) - base) (E.pass s)) :
    Prog.Ends E.access Env.check (fun _ => getTimer base) Q s := by
  refine Prog.Ends.bind (Prog.Ends.op rfl (Prog.Ends.ret ?_))
  change Q (E.tick (E.pass s).time - base) (E.pass s)
  rwa [pass_time]

theorem waitIdle_ends (hE : E.Timely) {u : ℕ} (hu : t ≤ u) (h : Begun E x t p s) (hus : u ≤ s.time)
    (hs : s.time + 1 ≤ t + E.duration t + 2) :
    Prog.Ends E.access Env.check (fun n => waitIdle n (E.tick u))
      (fun idle s' => idle = true ∧ Landed E x p s') s := by
  -- The induction is on the time that the transaction may still take.
  induction hd : t + E.duration t + 2 - s.time using Nat.strong_induction_on generalizing s with
  | _ d ih =>
      refine Prog.Ends.of_rounds (fun n => rfl) ?_
      refine Prog.Ends.bind (getTimer_ends ?_)
      have hpassed := hE t u (s.time + 1) hu (by omega) hs
      simp only [if_pos hpassed]
      refine Prog.Ends.bind (Prog.Ends.op rfl ?_)
      have htime : (E.pass (E.pass s)).time = s.time + 2 := by rw [pass_time, pass_time]
      change Prog.Ends _ _ _ _ (E.pass (E.pass s))
      rcases h.pass.pass with hfly | hland
      · have hbusy : (E.access (.readl .cmd) (E.pass s)).1 &&& MDIO_CMD_MII_BUSY ≠ 0 := by
          change (if (E.pass (E.pass s)).flight.isSome then _ else _) &&& MDIO_CMD_MII_BUSY ≠ 0
          rw [hfly.flight, Option.isSome_some, if_pos rfl]
          exact or_busy_busy _
        simp only [if_neg hbusy]
        refine Prog.Ends.bind (Prog.Ends.op rfl ?_)
        have hover := hfly.due
        have htime' : (E.pass (E.pass (E.pass s))).time = s.time + 3 := by rw [pass_time, htime]
        change Prog.Ends _ _ _ _ (E.pass (E.pass (E.pass s)))
        exact ih _ (by omega) (Begun.pass (Or.inl hfly)) (by omega) (by omega) rfl
      · have hidle : (E.access (.readl .cmd) (E.pass s)).1 &&& MDIO_CMD_MII_BUSY = 0 := by
          change (if (E.pass (E.pass s)).flight.isSome then _ else _) &&& MDIO_CMD_MII_BUSY = 0
          rw [hland.flight, Option.isSome_none, if_neg Bool.false_ne_true, BitVec.and_assoc]
          exact BitVec.and_zero
        simp only [if_pos hidle]
        exact Prog.Ends.ret ⟨rfl, hland⟩

/-- A transaction that has just been begun is waited for, and then comes what comes after it. -/
theorem begin_ends {α : Type} (hE : E.Timely) (h : Flying E x t p s) (ht : s.time = t)
    {g : ℕ → Bool → MacM α} {Q : α → Smi P → Prop}
    (hrest : ∀ s', Landed E x p s' → Prog.Ends E.access Env.check (fun n => g n true) Q s') :
    Prog.Ends E.access Env.check
      (fun n => getTimer 0 >>= fun start => waitIdle n start >>= fun idle => g n idle) Q s := by
  have hbegun : Begun E x t p (E.pass s) := Begun.pass (Or.inl h)
  have htime : (E.pass s).time = t + 1 := by rw [pass_time, ht]
  refine Prog.Ends.bind (getTimer_ends ?_)
  rw [ht, BitVec.ofNat_eq_ofNat, BitVec.sub_zero]
  have hwait := waitIdle_ends hE (Nat.le_succ t) hbegun (by omega) (by omega)
  refine Prog.Ends.bind (hwait.mono fun idle s' hidle => ?_)
  rcases hidle with ⟨rfl, hland⟩
  exact hrest s' hland

/-- While nothing is under way any access is allowed. -/
theorem check_none (o : MacOp) (h : s.flight = none) : Env.check o s = true := by
  unfold Env.check
  split
  · rw [h]; rfl
  · rw [h]; rfl
  · rfl

/-- A command with its busy bit set begins the transaction that it stands for. -/
theorem writel_cmd_flying {v : U32} (hv : v &&& MDIO_CMD_MII_BUSY ≠ 0) (hs : s.flight = none) :
    Flying E (decode v s.data) (s.time + 1) s.phys (E.access (.writel .cmd v) s).2 := by
  have hpass := pass_none (E := E) hs
  refine ⟨?_, ?_, ?_, ?_⟩
  · change (if v &&& MDIO_CMD_MII_BUSY = 0 then none else _) = _
    rw [if_neg hv, hpass]
    rfl
  · change s.time + 1 ≤ (E.pass s).time
    rw [pass_time]
  · change (E.pass s).time ≤ _
    rw [pass_time]
    exact Nat.le_add_right _ _
  · change Relation.ReflTransGen E.Drift s.phys (E.pass s).phys
    rw [hpass]
    exact .single ⟨s.time, rfl⟩

theorem sun8iMdioRead_ends (hE : E.Timely) {addr reg : ℕ} (haddr : addr < 32) (hreg : reg < 32)
    {devad : ℤ} (hs : s.flight = none) :
    Prog.Ends E.access Env.check (sun8iMdioRead (BitVec.ofNat 32 addr) (BitVec.ofNat 32 reg))
      (fun r s' => s'.flight = none ∧ Sem E.bus E.Drift (.read addr devad reg) s.phys r s'.phys) s := by
  have haddr' : (BitVec.ofNat 32 addr).toNat = addr := Nat.mod_eq_of_lt (by omega)
  have hreg' : (BitVec.ofNat 32 reg).toNat = reg := Nat.mod_eq_of_lt (by omega)
  have hfly := writel_cmd_flying (E := E) (v := readCmd (BitVec.ofNat 32 addr) (BitVec.ofNat 32 reg))
    readCmd_busy hs
  rw [decode_readCmd (by rwa [haddr']) (by rwa [hreg']), haddr', hreg'] at hfly
  refine Prog.Ends.bind (Prog.Ends.op (check_none _ hs) ?_)
  refine begin_ends hE hfly pass_time fun s' hland => ?_
  simp only [if_true]
  refine Prog.Ends.op (check_none _ hland.flight) ?_
  have hland' := hland.pass
  rcases hland'.carried with ⟨p₁, hbefore, hdata, hafter⟩
  refine ⟨hland'.flight, ?_⟩
  have hread : Sem E.bus E.Drift (.read addr devad reg) s.phys _ (E.pass s').phys :=
    .read hbefore hafter
  rwa [← hdata] at hread

theorem sun8iMdioWrite_ends (hE : E.Timely) {addr reg : ℕ} (haddr : addr < 32) (hreg : reg < 32)
    {devad : ℤ} {val : U16} (hs : s.flight = none) :
    Prog.Ends E.access Env.check (sun8iMdioWrite (BitVec.ofNat 32 addr) (BitVec.ofNat 32 reg) val)
      (fun r s' => s'.flight = none ∧ Sem E.bus E.Drift (.write addr devad reg val) s.phys r s'.phys)
      s := by
  have haddr' : (BitVec.ofNat 32 addr).toNat = addr := Nat.mod_eq_of_lt (by omega)
  have hreg' : (BitVec.ofNat 32 reg).toNat = reg := Nat.mod_eq_of_lt (by omega)
  have hs' : (E.pass s).flight = none := by rw [pass_none hs]; exact hs
  refine Prog.Ends.bind (Prog.Ends.op (check_none _ hs) ?_)
  have hfly := writel_cmd_flying (E := E) (s := (E.access (.writel .data (val.setWidth 32)) s).2)
    (v := writeCmd (BitVec.ofNat 32 addr) (BitVec.ofNat 32 reg)) writeCmd_busy hs'
  have hval : (val.setWidth 32).setWidth 16 = val := by
    rw [BitVec.setWidth_setWidth_of_le _ (by decide), BitVec.setWidth_eq]
  have hdata : (E.access (.writel .data (val.setWidth 32)) s).2.data = val.setWidth 32 := rfl
  rw [hdata, decode_writeCmd (by rwa [haddr']) (by rwa [hreg']), haddr', hreg', hval] at hfly
  refine Prog.Ends.bind (Prog.Ends.op (check_none _ hs') ?_)
  refine begin_ends hE hfly pass_time fun s' hland => ?_
  simp only [if_true]
  rcases hland.carried with ⟨p₁, hbefore, hafter⟩
  refine Prog.Ends.ret ⟨hland.flight, ?_⟩
  have hdrift : Relation.ReflTransGen E.Drift s.phys p₁ := by
    have hpass : E.Drift s.phys (E.pass s).phys := by
      rw [pass_none hs]
      exact ⟨s.time, rfl⟩
    exact hbefore.head hpass
  exact .write hdrift hafter

/-- Each access of the library, carried out by the driver. -/
theorem viaMac_ends (hE : E.Timely) {o : Op} (ho : o.Addressed) (hs : s.flight = none) :
    Prog.Ends E.access Env.check (viaMac o)
      (fun r s' => s'.flight = none ∧ Sem E.bus E.Drift o s.phys r s'.phys) s := by
  cases o with
  | read addr devad reg => exact sun8iMdioRead_ends hE ho.1 ho.2 hs
  | write addr devad reg val => exact sun8iMdioWrite_ends hE ho.1 ho.2 hs
  | udelay usec =>
      refine Prog.Ends.op rfl ?_
      have hpass := pass_none (E := E) hs
      have hphys : (E.access (.udelay usec) s).2.phys = E.drift s.time s.phys := by
        change (E.pass s).phys = _
        rw [hpass]
        rfl
      refine ⟨?_, .udelay (.single ⟨s.time, hphys⟩)⟩
      change (E.pass s).flight = none
      rw [hpass]
      exact hs

end Transaction

/-- A routine of the library, run through the registers of the MAC, comes to an end however long the
transactions take and whatever the PHYs do meanwhile; no register is touched out of turn, and what
happens on the bus is a run of the routine. -/
theorem mdio_carries {P α : Type} (E : Env P) (hE : E.Timely) {p : BusM α}
    (hp : Prog.Only Op.Addressed p) {s : Smi P} (hs : s.flight = none) :
    Prog.Ends E.access Env.check (p.carry viaMac)
      (fun a s' => s'.flight = none ∧ Prog.Runs (Sem E.bus E.Drift) p s.phys a s'.phys) s :=
  Prog.Ends.carry Smi.phys (fun s => s.flight = none)
    (fun _ _ ho hs => viaMac_ends hE ho hs) hp hs

/-- PHYs that keep still, transactions of nine units, and a tick in every unit. -/
def nineUnits {P : Type} (bus : Phys P) : Env P where
  bus := bus
  drift := fun _ p => p
  duration := fun _ => 9
  tick := fun t => BitVec.ofNat 32 t

theorem nineUnits_timely {P : Type} (bus : Phys P) : (nineUnits bus).Timely := by
  intro t u v htu huv hv
  change v ≤ t + 9 + 2 at hv
  change BitVec.ofNat 32 v - BitVec.ofNat 32 u < CONFIG_MDIO_TIMEOUT
  rw [BitVec.lt_def, BitVec.toNat_sub, BitVec.toNat_ofNat, BitVec.toNat_ofNat]
  change _ < 3000
  omega

/-- PHYs with one register each. -/
def oneRegister : Phys (ℕ → U16) where
  read := fun addr _ p => (p addr, p)
  write := fun addr _ val p => Function.update p addr val

/-- Restarting the negotiation of PHY 3. -/
def restartThree : BusM U32 := do
  let ctl ← busRead 3 MDIO_DEVAD_NONE 0
  busWrite 3 MDIO_DEVAD_NONE 0 (ctl.setWidth 16 ||| 0x1200)

theorem mdio_carries_restartThree :
    Prog.Ends (nineUnits oneRegister).access Env.check (restartThree.carry viaMac)
      (fun a s' => s'.flight = none ∧
        Prog.Runs (Sem oneRegister (nineUnits oneRegister).Drift) restartThree (fun _ => 0) a s'.phys)
      ⟨fun _ => 0, 0, none, 0, 0⟩ :=
  mdio_carries (nineUnits oneRegister) (nineUnits_timely oneRegister) (p := restartThree)
    (s := ⟨fun _ => 0, 0, none, 0, 0⟩)
    (Prog.Only.bind (Prog.only_op ⟨by decide, by decide⟩) fun _ =>
      Prog.only_op ⟨by decide, by decide⟩) rfl

end Mii

end BspV3s
