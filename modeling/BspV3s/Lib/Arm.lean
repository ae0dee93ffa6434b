import Mathlib.Data.List.FinRange
import BspV3s.Lib.WordMemory

/-!
# Arm — the registers that a context switch moves

An ARMv7-A core in supervisor or IRQ mode: the thirteen registers both modes share, each mode's own
`sp`, `lr` and `spsr`, and the instructions that save, restore and switch them.  Instructions are
functions on the machine and code without branches is a list of them.

The condition flags are not modelled apart: a comparison and the instructions under its condition are
one step here, and the flags that it leaves are overwritten before anything reads them.
-/

namespace BspV3s

namespace Arm

open WordMemory

/-- The literals that number the registers. -/
instance neZero_thirteen : NeZero 13 := ⟨by decide⟩

inductive Reg
  | r (i : Fin 13)
  | sp
  | lr
  deriving DecidableEq

/-- The registers that each mode has of its own. -/
structure Bank where
  sp : Word
  lr : Word
  spsr : Word

structure Machine where
  r : Fin 13 → Word
  svc : Bank
  irq : Bank
  pc : Word
  cpsr : Word
  mem : Memory

def MODE_MASK : Word := 0x1f
def MODE_SVC : Word := 0x13
def MODE_IRQ : Word := 0x12
def T_BIT : Word := 0x20
def F_BIT : Word := 0x40
def I_BIT : Word := 0x80

/-- What `mrs` reads of the status register: the bits of the execution state read as 0. -/
def MRS_MASK : Word := 0xf8ff03df

namespace Machine

def Svc (m : Machine) : Prop := m.cpsr &&& MODE_MASK = MODE_SVC

def Irq (m : Machine) : Prop := m.cpsr &&& MODE_MASK = MODE_IRQ

/-- The bank of the current mode. -/
def bank (m : Machine) : Bank :=
  if m.cpsr &&& MODE_MASK = MODE_IRQ then m.irq else m.svc

def withBank (m : Machine) (b : Bank) : Machine :=
  if m.cpsr &&& MODE_MASK = MODE_IRQ then { m with irq := b } else { m with svc := b }

def get (m : Machine) : Reg → Word
  | .r i => m.r i
  | .sp => m.bank.sp
  | .lr => m.bank.lr

def set (m : Machine) : Reg → Word → Machine
  | .r i, v => { m with r := Function.update m.r i v }
  | .sp, v => m.withBank { m.bank with sp := v }
  | .lr, v => m.withBank { m.bank with lr := v }

/-- Load the registers with the words, in order. -/
def setAll : List Reg → List Word → Machine → Machine
  | r :: rs, w :: ws, m => setAll rs ws (m.set r w)
  | _, _, m => m

end Machine

/-- Where a branch to `a` ends up in the instruction set that `psr` selects. -/
def branchTo (psr a : Word) : Word :=
  if psr &&& T_BIT ≠ 0 then a &&& ~~~1 else a &&& ~~~3

/-! ## Instructions -/

abbrev Instr := Machine → Machine

/-- `mov d, #v`, and `ldr d, =v`. -/
def mov (d : Reg) (v : Word) : Instr := fun m => m.set d v

/-- `mov d, s`. -/
def movr (d s : Reg) : Instr := fun m => m.set d (m.get s)

/-- `add d, s, #v`. -/
def add (d s : Reg) (v : Word) : Instr := fun m => m.set d (m.get s + v)

/-- `sub d, s, #v`. -/
def sub (d s : Reg) (v : Word) : Instr := fun m => m.set d (m.get s - v)

/-- `ldr d, [b]`. -/
def ldr (d b : Reg) : Instr := fun m => m.set d (m.mem (m.get b))

/-- `str s, [b]`. -/
def str (s b : Reg) : Instr := fun m =>
  { m with mem := Function.update m.mem (m.get b) (m.get s) }

/-- `stmfd sp!, {rs}`. -/
def stmfd (rs : List Reg) : Instr := fun m =>
  let a := m.get .sp - BitVec.ofNat 32 (4 * rs.length)
  { m with mem := store m.mem a (rs.map m.get) }.set .sp a

/-- `ldmfd sp!, {rs}`. -/
def ldmfd (rs : List Reg) : Instr := fun m =>
  let a := m.get .sp
  (m.set .sp (a + BitVec.ofNat 32 (4 * rs.length))).setAll rs (load m.mem a rs.length)

/-- `ldmfd b, {rs}`, which leaves `b` to the transfer. -/
def ldmia (b : Reg) (rs : List Reg) : Instr := fun m =>
  m.setAll rs (load m.mem (m.get b) rs.length)

/-- `ldmfd sp!, {rs, pc}^`: also a return from an exception. -/
def ldmfdReturn (rs : List Reg) : Instr := fun m =>
  let a := m.get .sp
  let ws := load m.mem a (rs.length + 1)
  let psr := m.bank.spsr
  { (m.set .sp (a + BitVec.ofNat 32 (4 * (rs.length + 1)))).setAll rs ws with
    pc := branchTo psr (ws.getD rs.length 0)
    cpsr := psr }

/-- `subs pc, lr, #v`, in an exception's mode. -/
def subsPcLr (v : Word) : Instr := fun m =>
  { m with
    pc := branchTo m.bank.spsr (m.get .lr - v)
    cpsr := m.bank.spsr }

/-- `mrs d, cpsr`. -/
def mrsCpsr (d : Reg) : Instr := fun m => m.set d (m.cpsr &&& MRS_MASK)

/-- `mrs d, spsr`. -/
def mrsSpsr (d : Reg) : Instr := fun m => m.set d m.bank.spsr

/-- `msr spsr_cxsf, s`. -/
def msrSpsr (s : Reg) : Instr := fun m => m.withBank { m.bank with spsr := m.get s }

/-- `msr cpsr_c, #v`: the low byte but for the execution state. -/
def msrCpsrC (v : Word) : Instr := fun m =>
  { m with cpsr := (m.cpsr &&& ~~~0xdf) ||| (v &&& 0xdf) }

/-- `tst s, #v` and `orrne d, d, #w`. -/
def tstOrrne (s : Reg) (v : Word) (d : Reg) (w : Word) : Instr := fun m =>
  if m.get s &&& v ≠ 0 then m.set d (m.get d ||| w) else m

def exec (is : List Instr) (m : Machine) : Machine :=
  is.foldl (fun m i => i m) m

/-- The core takes an IRQ: `lr` is 4 past the next instruction, and the handler runs in ARM state with
IRQs masked. -/
def Machine.takeIrq (m : Machine) (vector : Word) : Machine :=
  { m with
    irq := ⟨m.irq.sp, m.pc + 4, m.cpsr⟩
    pc := vector
    cpsr := (m.cpsr &&& MRS_MASK &&& ~~~MODE_MASK) ||| MODE_IRQ ||| I_BIT }

/-- `r0` to `r12`. -/
def lows : List Reg := (List.finRange 13).map .r

/-! ## Rules -/

variable {m : Machine} {is is' : List Instr} {i : Instr}

theorem exec_cons : exec (i :: is) m = exec is (i m) := rfl

theorem exec_append : exec (is ++ is') m = exec is' (exec is m) :=
  List.foldl_append

theorem Machine.Svc.not_irq (h : m.Svc) : ¬ m.cpsr &&& MODE_MASK = MODE_IRQ := by
  have hne : MODE_SVC ≠ MODE_IRQ := by decide
  exact fun hirq => hne (h.symm.trans hirq)

theorem Machine.Svc.bank (h : m.Svc) : m.bank = m.svc := if_neg h.not_irq

theorem Machine.Irq.bank (h : m.Irq) : m.bank = m.irq := if_pos h

theorem Machine.Svc.withBank (h : m.Svc) (b : Bank) : m.withBank b = { m with svc := b } :=
  if_neg h.not_irq

theorem Machine.Irq.withBank (h : m.Irq) (b : Bank) : m.withBank b = { m with irq := b } :=
  if_pos h

theorem Machine.Svc.get_sp (h : m.Svc) : m.get .sp = m.svc.sp := congrArg Bank.sp h.bank

theorem Machine.Irq.get_sp (h : m.Irq) : m.get .sp = m.irq.sp := congrArg Bank.sp h.bank

theorem Machine.Svc.get_lr (h : m.Svc) : m.get .lr = m.svc.lr := congrArg Bank.lr h.bank

theorem Machine.Irq.get_lr (h : m.Irq) : m.get .lr = m.irq.lr := congrArg Bank.lr h.bank

theorem Machine.Svc.set_sp (h : m.Svc) (v : Word) :
    m.set .sp v = { m with svc := ⟨v, m.svc.lr, m.svc.spsr⟩ } := by
  rw [Machine.set, h.bank, h.withBank]

theorem Machine.Irq.set_sp (h : m.Irq) (v : Word) :
    m.set .sp v = { m with irq := ⟨v, m.irq.lr, m.irq.spsr⟩ } := by
  rw [Machine.set, h.bank, h.withBank]

theorem Machine.Svc.set_lr (h : m.Svc) (v : Word) :
    m.set .lr v = { m with svc := ⟨m.svc.sp, v, m.svc.spsr⟩ } := by
  rw [Machine.set, h.bank, h.withBank]

theorem Machine.Irq.set_lr (h : m.Irq) (v : Word) :
    m.set .lr v = { m with irq := ⟨m.irq.sp, v, m.irq.spsr⟩ } := by
  rw [Machine.set, h.bank, h.withBank]

@[simp] theorem length_lows : lows.length = 13 := rfl

theorem map_get_lows (m : Machine) : lows.map m.get = List.ofFn m.r := by
  rw [lows, List.map_map, List.ofFn_eq_map]
  rfl

theorem setAll_append {rs rs' : List Reg} {ws ws' : List Word} (h : rs.length = ws.length)
    (m : Machine) : m.setAll (rs ++ rs') (ws ++ ws') = (m.setAll rs ws).setAll rs' ws' := by
  induction rs generalizing ws m with
  | nil =>
      rw [List.eq_nil_of_length_eq_zero h.symm]
      cases rs' <;> cases ws' <;> rfl
  | cons r rs ih =>
      cases ws with
      | nil => cases h
      | cons w ws => exact ih (Nat.succ.inj h) _

theorem setAll_map_r (l : List (Fin 13)) (f : Fin 13 → Word) (m : Machine) :
    m.setAll (l.map .r) (l.map f) = { m with r := fun j => if j ∈ l then f j else m.r j } := by
  induction l generalizing m with
  | nil => simp [Machine.setAll]
  | cons i l ih =>
      rw [List.map_cons, List.map_cons, Machine.setAll, ih]
      simp only [Machine.set, Machine.mk.injEq, and_true]
      funext j
      by_cases hi : j = i
      · subst hi
        simp
      · simp [hi]

/-- Loading `r0` to `r12`. -/
theorem setAll_lows (f : Fin 13 → Word) (m : Machine) :
    m.setAll lows (List.ofFn f) = { m with r := f } := by
  rw [lows, List.ofFn_eq_map, setAll_map_r]
  simp [List.mem_finRange]

/-- Loading the word at a constant address. -/
theorem exec_mov_ldr (i j : Fin 13) (a : Word) (m : Machine) :
    exec [mov (.r i) a, ldr (.r j) (.r i)] m =
      { m with r := Function.update (Function.update m.r i a) j (m.mem a) } := by
  have hget : (mov (.r i) a m).get (.r i) = a := by
    change Function.update m.r i a i = a
    exact Function.update_self i a m.r
  rw [exec_cons, exec_cons, ldr, hget]
  rfl

/-- Storing a register at a constant address. -/
theorem exec_mov_str {i j : Fin 13} (hij : j ≠ i) (a : Word) (m : Machine) :
    exec [mov (.r i) a, str (.r j) (.r i)] m =
      { m with r := Function.update m.r i a, mem := Function.update m.mem a (m.r j) } := by
  have hbase : (mov (.r i) a m).get (.r i) = a := by
    change Function.update m.r i a i = a
    exact Function.update_self i a m.r
  have hvalue : (mov (.r i) a m).get (.r j) = m.r j := by
    change Function.update m.r i a j = m.r j
    exact Function.update_of_ne hij a m.r
  rw [exec_cons, exec_cons, str, hbase, hvalue]
  rfl

/-! ## Block transfers in a given mode -/

/-- The words pushed on the supervisor stack. -/
def Machine.push (m : Machine) (ws : List Word) : Machine :=
  { m with
    svc := ⟨m.svc.sp - BitVec.ofNat 32 (4 * ws.length), m.svc.lr, m.svc.spsr⟩
    mem := store m.mem (m.svc.sp - BitVec.ofNat 32 (4 * ws.length)) ws }

theorem Machine.push_push (m : Machine) (ws ws' : List Word) :
    (m.push ws).push ws' = m.push (ws' ++ ws) := by
  have hsp : m.svc.sp - BitVec.ofNat 32 (4 * ws.length) - BitVec.ofNat 32 (4 * ws'.length) =
      m.svc.sp - BitVec.ofNat 32 (4 * (ws' ++ ws).length) := by
    rw [List.length_append, Nat.mul_add, Nat.add_comm, BitVec.ofNat_add, BitVec.sub_sub]
  have hmem := store_below m.mem (m.svc.sp - BitVec.ofNat 32 (4 * ws.length)) ws' ws
  rw [hsp] at hmem
  simp only [Machine.push, hsp, hmem]

section Svc

variable (h : m.Svc)
include h

theorem stmfd_svc (rs : List Reg) : stmfd rs m = m.push (rs.map m.get) := by
  simp only [stmfd, h.get_sp, Machine.push, List.length_map]
  rw [Machine.Svc.set_sp]
  exact h

theorem ldmfd_r_svc (i : Fin 13) :
    ldmfd [.r i] m = { m with
      r := Function.update m.r i (m.mem m.svc.sp)
      svc := ⟨m.svc.sp + 4, m.svc.lr, m.svc.spsr⟩ } := by
  simp only [ldmfd, h.get_sp, h.set_sp]
  rfl

theorem msrSpsr_svc (i : Fin 13) :
    msrSpsr (.r i) m = { m with svc := ⟨m.svc.sp, m.svc.lr, m.r i⟩ } := by
  rw [msrSpsr, h.withBank, h.bank]
  rfl

/-- The return to what has been stored as `r0` to `r12`, `lr` and the address `p`. -/
theorem ldmfdReturn_svc {f : Fin 13 → Word} {lr p : Word}
    (hload : load m.mem m.svc.sp 15 = List.ofFn f ++ [lr, p]) :
    ldmfdReturn (lows ++ [.lr]) m = { m with
      r := f
      svc := ⟨m.svc.sp + 60, lr, m.svc.spsr⟩
      pc := branchTo m.svc.spsr p
      cpsr := m.svc.spsr } := by
  have hlast : (List.ofFn f ++ [lr, p]).getD 14 0 = p := rfl
  have hregs : ∀ m' : Machine, m'.Svc → m'.setAll (lows ++ [.lr]) (List.ofFn f ++ [lr, p]) =
      { m' with r := f, svc := ⟨m'.svc.sp, lr, m'.svc.spsr⟩ } := by
    intro m' h'
    rw [setAll_append (by simp), setAll_lows]
    exact Machine.Svc.set_lr (m := { m' with r := f }) h' lr
  simp only [ldmfdReturn, h.get_sp, h.bank, List.length_append, length_lows, List.length_singleton,
    hload, hlast, h.set_sp]
  rw [hregs]
  · rfl
  · exact h

end Svc

section Irq

variable (h : m.Irq)
include h

theorem stmfd_irq (rs : List Reg) :
    stmfd rs m = { m with
      irq := ⟨m.irq.sp - BitVec.ofNat 32 (4 * rs.length), m.irq.lr, m.irq.spsr⟩
      mem := store m.mem (m.irq.sp - BitVec.ofNat 32 (4 * rs.length)) (rs.map m.get) } := by
  simp only [stmfd, h.get_sp]
  rw [Machine.Irq.set_sp]
  exact h

/-- Some of the low registers and `lr`. -/
theorem ldmfd_lr_irq {l : List (Fin 13)} {f : Fin 13 → Word} {x : Word}
    (hload : load m.mem m.irq.sp (l.length + 1) = l.map f ++ [x]) :
    ldmfd (l.map Reg.r ++ [.lr]) m = { m with
      r := fun j => if j ∈ l then f j else m.r j
      irq := ⟨m.irq.sp + BitVec.ofNat 32 (4 * (l.length + 1)), x, m.irq.spsr⟩ } := by
  have hregs : ∀ m' : Machine, m'.Irq → m'.setAll (l.map Reg.r ++ [.lr]) (l.map f ++ [x]) =
      { m' with
        r := fun j => if j ∈ l then f j else m'.r j
        irq := ⟨m'.irq.sp, x, m'.irq.spsr⟩ } := by
    intro m' h'
    rw [setAll_append (by simp), setAll_map_r]
    change Machine.set _ .lr x = _
    rw [Machine.Irq.set_lr]
    exact h'
  simp only [ldmfd, h.get_sp, List.length_append, List.length_map, List.length_singleton, hload,
    h.set_sp]
  rw [hregs]
  exact h

end Irq

/-! ## Changes of mode -/

theorem Machine.takeIrq_irq (m : Machine) (vector : Word) : (m.takeIrq vector).Irq := by
  have hmode : MODE_IRQ &&& MODE_MASK = MODE_IRQ := by decide
  have hmask : I_BIT &&& MODE_MASK = 0 := by decide
  have hclear : m.cpsr &&& MRS_MASK &&& ~~~MODE_MASK &&& MODE_MASK = 0 := by
    rw [BitVec.and_assoc, BitVec.not_and_self]
    exact BitVec.and_zero
  change (m.cpsr &&& MRS_MASK &&& ~~~MODE_MASK ||| MODE_IRQ ||| I_BIT) &&& MODE_MASK = MODE_IRQ
  rw [BitVec.and_or_distrib_right, BitVec.and_or_distrib_right, hclear, hmode, hmask]
  decide

theorem msrCpsrC_svc {v : Word} (hv : v &&& 0xdf &&& MODE_MASK = MODE_SVC) (m : Machine) :
    (msrCpsrC v m).Svc := by
  have hmask : ~~~(0xdf : Word) &&& MODE_MASK = 0 := by decide
  have hclear : m.cpsr &&& ~~~0xdf &&& MODE_MASK = 0 := by
    rw [BitVec.and_assoc, hmask]
    exact BitVec.and_zero
  change (m.cpsr &&& ~~~0xdf ||| v &&& 0xdf) &&& MODE_MASK = MODE_SVC
  rw [BitVec.and_or_distrib_right, hclear, hv]
  exact BitVec.zero_or

end Arm

end BspV3s
