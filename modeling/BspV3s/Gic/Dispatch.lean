import BspV3s.Lib.Program
import BspV3s.Gic.Distributor

/-!
# Dispatch — the interrupt service table

`rt_hw_interrupt_install` fills `isr_table` and `rt_hw_trap_irq` calls what is in it.  Both are
programs over their accesses, so that every index they use shows in their traces; the table has a
cell at every integer, the 160 of `isr_table` and what lies around them.
-/

namespace BspV3s

namespace Gic

/-! ## Accesses -/

inductive IrqOp
  | readHandler (i : ℤ)
  | writeHandler (i : ℤ) (handler : U32)
  | readParam (i : ℤ)
  | writeParam (i : ℤ) (param : U32)
  | writeName (i : ℤ) (name : List Byte)
  | readCounter (i : ℤ)
  | writeCounter (i : ℤ) (counter : U32)
  | readIar
  | writeEoir (v : U32)
  /-- The call of an interrupt service routine. -/
  | isr (handler irq param : U32)
  deriving DecidableEq

abbrev IrqOp.Ret : IrqOp → Type
  | .readHandler _ => U32
  | .readParam _ => U32
  | .readCounter _ => U32
  | .readIar => U32
  | _ => Unit

abbrev IrqM := Prog IrqOp IrqOp.Ret

abbrev IrqEvent := Prog.Event IrqOp IrqOp.Ret

def readHandler (i : ℤ) : IrqM U32 := Prog.op (IrqOp.readHandler i)
def writeHandler (i : ℤ) (handler : U32) : IrqM Unit := Prog.op (IrqOp.writeHandler i handler)
def readParam (i : ℤ) : IrqM U32 := Prog.op (IrqOp.readParam i)
def writeParam (i : ℤ) (param : U32) : IrqM Unit := Prog.op (IrqOp.writeParam i param)
def writeName (i : ℤ) (name : List Byte) : IrqM Unit := Prog.op (IrqOp.writeName i name)
def readCounter (i : ℤ) : IrqM U32 := Prog.op (IrqOp.readCounter i)
def writeCounter (i : ℤ) (counter : U32) : IrqM Unit := Prog.op (IrqOp.writeCounter i counter)
def gicReadIrqAck : IrqM U32 := Prog.op IrqOp.readIar
def gicWriteEndOfIrq (irqID : U32) : IrqM Unit := Prog.op (IrqOp.writeEoir irqID)
def isrFunc (handler irq param : U32) : IrqM Unit := Prog.op (IrqOp.isr handler irq param)

/-! ## The code -/

def MAX_HANDLERS : U32 := 160

/-- The descriptor written when the handler is not `RT_NULL`. -/
def installDesc (vector : ℤ) (handler param : U32) (name : List Byte) : IrqM Unit :=
  if handler ≠ 0 then do
    writeName vector name
    writeCounter vector 0
    writeHandler vector handler
    writeParam vector param
  else
    pure ()

/-- The result is the old handler. -/
def rtHwInterruptInstall (vector handler param : U32) (name : List Byte) : IrqM U32 :=
  -- Both sides are signed.
  if vector.slt MAX_HANDLERS then do
    let oldHandler ← readHandler vector.toInt
    installDesc vector.toInt handler param name
    pure oldHandler
  else
    pure 0

/-- The call of the handler, if there is one. -/
def callHandler (handler irq : U32) : IrqM Unit :=
  if handler ≠ 0 then do
    let param ← readParam irq.toNat
    isrFunc handler irq param
  else
    pure ()

/-- `rt_hw_trap_irq` between the acknowledge and the end of an interrupt. -/
def serve (irq : U32) : IrqM Unit := do
  let handler ← readHandler irq.toNat
  let counter ← readCounter irq.toNat
  writeCounter irq.toNat (counter + 1)
  callHandler handler irq

/-- `rt_hw_trap_irq` once the interrupt is acknowledged. -/
def trapAcked (vectNum : U32) : IrqM Unit :=
  if vectNum &&& 0x0200#32 ≠ 0 then
    gicWriteEndOfIrq vectNum
  else do
    serve (vectNum &&& 0x1FF#32)
    gicWriteEndOfIrq vectNum

def rtHwTrapIrq : IrqM Unit := do
  let vectNum ← gicReadIrqAck
  trapAcked vectNum

def rtHwInterruptMask (vector : U32) (g : Gicd) : Option Gicd :=
  disableInterrupt vector 0 g

def rtHwInterruptUmask (vector : U32) (g : Gicd) : Option Gicd :=
  enableInterrupt vector 0 0 g

/-! ## Calls -/

/-- `isr_table` and its surroundings, the acknowledge register and the distributor. -/
structure Vectors where
  handler : ℤ → U32
  param : ℤ → U32
  name : ℤ → List Byte
  counter : ℤ → U32
  iar : U32
  gicd : Gicd

def irqOutcome : (o : IrqOp) → Vectors → o.Ret × Vectors
  | .readHandler i, w => (w.handler i, w)
  | .writeHandler i v, w => ((), { w with handler := Function.update w.handler i v })
  | .readParam i, w => (w.param i, w)
  | .writeParam i v, w => ((), { w with param := Function.update w.param i v })
  | .writeName i v, w => ((), { w with name := Function.update w.name i v })
  | .readCounter i, w => (w.counter i, w)
  | .writeCounter i v, w => ((), { w with counter := Function.update w.counter i v })
  | .readIar, w => (w.iar, w)
  | .writeEoir _, w => ((), w)
  | .isr _ _ _, w => ((), w)

/-- What may happen: a call by a driver, or an interrupt with an acknowledge value. -/
inductive IrqCall
  | install (vector handler param : U32) (name : List Byte)
  | mask (vector : U32)
  | umask (vector : U32)
  | irq (iar : U32)

def Vectors.exec (w : Vectors) : IrqCall → Vectors
  | .install vector handler param name =>
      ((rtHwInterruptInstall vector handler param name).runOn irqOutcome w).2
  | .mask vector => { w with gicd := (rtHwInterruptMask vector w.gicd).getD w.gicd }
  | .umask vector => { w with gicd := (rtHwInterruptUmask vector w.gicd).getD w.gicd }
  | .irq iar => (rtHwTrapIrq.runOn irqOutcome { w with iar := iar }).2

def Vectors.events (w : Vectors) : IrqCall → List IrqEvent
  | .install vector handler param name =>
      (rtHwInterruptInstall vector handler param name).traceOn irqOutcome w
  | .irq iar => rtHwTrapIrq.traceOn irqOutcome { w with iar := iar }
  | _ => []

/-! ## What the calls should do -/

/-- The index of `isr_table` that an access uses. -/
def IrqOp.index? : IrqOp → Option ℤ
  | .readHandler i => some i
  | .writeHandler i _ => some i
  | .readParam i => some i
  | .writeParam i _ => some i
  | .writeName i _ => some i
  | .readCounter i => some i
  | .writeCounter i _ => some i
  | _ => none

def isrCall? : IrqEvent → Option (U32 × U32 × U32)
  | ⟨.isr handler irq param, _⟩ => some (handler, irq, param)
  | _ => none

def eoir? : IrqEvent → Option U32
  | ⟨.writeEoir v, _⟩ => some v
  | _ => none

/-- The handler and parameter that a call installs for interrupt `irq`. -/
def IrqCall.installs (irq : ℤ) : IrqCall → Option (U32 × U32)
  | .install vector handler param _ =>
      if vector.toInt = irq ∧ irq < 160 ∧ handler ≠ 0 then some (handler, param) else none
  | _ => none

/-- What the calls `past` have last installed for an interrupt. -/
def lastInstalled (past : List IrqCall) (irq : ℤ) : Option (U32 × U32) :=
  past.foldl (fun last c => (c.installs irq).or last) none

/-- The interrupt ID of an acknowledge value. -/
def interruptId (iar : U32) : U32 := iar &&& 0x3FF#32

/-- A call after `past` that leaves the events `ev`. -/
structure CallSafe (past : List IrqCall) (c : IrqCall) (ev : List IrqEvent) : Prop where
  bounds : ∀ e ∈ ev, ∀ i ∈ e.op.index?, 0 ≤ i ∧ i < 160
  called : ∀ iar, c = .irq iar → ev.filterMap isrCall? =
    ((lastInstalled past (interruptId iar).toNat).map fun d =>
      (d.1, interruptId iar, d.2)).toList
  ended : ∀ iar, c = .irq iar → ev.filterMap eoir? = [iar]

/-- Every call is safe, if `past` are those before. -/
def RunSafe : Vectors → List IrqCall → List IrqCall → Prop
  | _, _, [] => True
  | w, past, c :: cs => CallSafe past c (w.events c) ∧ RunSafe (w.exec c) (past ++ [c]) cs

/-- The vector installed to is not negative, and an acknowledged interrupt is spurious or has an
entry in the table. -/
def IrqCall.InRange : IrqCall → Prop
  | .install vector _ _ _ => 0 ≤ vector.toInt
  | .irq iar => iar &&& 0x0200#32 ≠ 0 ∨ (iar &&& 0x1FF#32).toNat < 160
  | _ => True

/-- The table is as `rt_hw_interrupt_init` leaves it. -/
def Cleared (w : Vectors) : Prop :=
  ∀ i, 0 ≤ i → i < 160 → w.handler i = 0 ∧ w.param i = 0

/-- The table holds what was last installed. -/
def Installed (past : List IrqCall) (w : Vectors) : Prop :=
  ∀ i, 0 ≤ i → i < 160 → match lastInstalled past i with
    | none => w.handler i = 0
    | some d => d.1 ≠ 0 ∧ w.handler i = d.1 ∧ w.param i = d.2

/-! ## One call -/

section Calls

variable {past : List IrqCall} {w : Vectors}

theorem lastInstalled_concat (past : List IrqCall) (c : IrqCall) (irq : ℤ) :
    lastInstalled (past ++ [c]) irq = (c.installs irq).or (lastInstalled past irq) := by
  rw [lastInstalled, List.foldl_append]
  rfl

/-- The guard keeps everything from 160 on uninstalled. -/
theorem lastInstalled_of_ge (past : List IrqCall) {irq : ℤ} (hirq : 160 ≤ irq) :
    lastInstalled past irq = none := by
  induction past using List.reverseRecOn with
  | nil => rfl
  | append_singleton past c ih =>
      rw [lastInstalled_concat, ih]
      cases c with
      | install vector handler param name =>
          have hno : ¬ (vector.toInt = irq ∧ irq < 160 ∧ handler ≠ 0) := fun h => by omega
          rw [IrqCall.installs, if_neg hno]
          rfl
      | _ => rfl

/-- A call that installs nothing keeps what is installed. -/
theorem Installed.other (h : Installed past w) {c : IrqCall} {w' : Vectors}
    (hc : ∀ irq, c.installs irq = none) (hhandler : w'.handler = w.handler)
    (hparam : w'.param = w.param) : Installed (past ++ [c]) w' := by
  intro i hlo hhi
  rw [lastInstalled_concat, hc, Option.none_or, hhandler, hparam]
  exact h i hlo hhi

theorem slt_maxHandlers (vector : U32) :
    vector.slt MAX_HANDLERS = true ↔ vector.toInt < 160 := by
  rw [BitVec.slt, decide_eq_true_iff]
  rfl

theorem exec_install_ge {vector handler param : U32} {name : List Byte}
    (h : ¬ vector.toInt < 160) :
    w.exec (.install vector handler param name) = w ∧
      w.events (.install vector handler param name) = [] := by
  have hguard : ¬ vector.slt MAX_HANDLERS = true := fun hslt => h ((slt_maxHandlers _).1 hslt)
  constructor
  · rw [Vectors.exec, rtHwInterruptInstall, if_neg hguard]
    rfl
  · rw [Vectors.events, rtHwInterruptInstall, if_neg hguard]
    rfl

/-- Below the guard the call starts with the old handler, and uses one index throughout. -/
theorem events_install_lt {vector : U32} (handler param : U32) (name : List Byte)
    (h : vector.toInt < 160) :
    (∃ ev, w.events (.install vector handler param name) =
      ⟨.readHandler vector.toInt, w.handler vector.toInt⟩ :: ev) ∧
      ∀ e ∈ w.events (.install vector handler param name), ∀ i ∈ e.op.index?, i = vector.toInt := by
  have hguard := (slt_maxHandlers vector).2 h
  rw [Vectors.events, rtHwInterruptInstall, if_pos hguard]
  refine ⟨⟨_, rfl⟩, ?_⟩
  unfold installDesc
  split
  · simp [Prog.traceOn, readHandler, writeName, writeCounter, writeHandler, writeParam, Prog.op,
      Prog.pure_eq, IrqOp.index?]
  · simp [Prog.traceOn, readHandler, Prog.pure_eq, IrqOp.index?]

theorem exec_install_lt {vector : U32} (handler param : U32) (name : List Byte)
    (h : vector.toInt < 160) :
    (w.exec (.install vector handler param name)).handler =
        (if handler ≠ 0 then Function.update w.handler vector.toInt handler else w.handler) ∧
      (w.exec (.install vector handler param name)).param =
        if handler ≠ 0 then Function.update w.param vector.toInt param else w.param := by
  have hguard := (slt_maxHandlers vector).2 h
  rw [Vectors.exec, rtHwInterruptInstall, if_pos hguard]
  unfold installDesc
  split
  · exact ⟨rfl, rfl⟩
  · exact ⟨rfl, rfl⟩

theorem Installed.install (h : Installed past w) (vector handler param : U32) (name : List Byte) :
    Installed (past ++ [.install vector handler param name])
      (w.exec (.install vector handler param name)) := by
  by_cases hlt : vector.toInt < 160
  · rcases exec_install_lt (w := w) handler param name hlt with ⟨hhandler, hparam⟩
    by_cases hnull : handler ≠ 0
    · rw [if_pos hnull] at hhandler hparam
      intro i hlo hhi
      rw [lastInstalled_concat, IrqCall.installs, hhandler, hparam]
      by_cases hi : i = vector.toInt
      · subst hi
        rw [if_pos ⟨rfl, hhi, hnull⟩, Function.update_self, Function.update_self]
        exact ⟨hnull, rfl, rfl⟩
      · rw [if_neg fun hall => hi hall.1.symm, Function.update_of_ne hi, Function.update_of_ne hi]
        exact h i hlo hhi
    · rw [if_neg hnull] at hhandler hparam
      refine h.other (fun irq => ?_) hhandler hparam
      rw [IrqCall.installs, if_neg fun hall => hnull hall.2.2]
  · rw [(exec_install_ge hlt).1]
    refine h.other (fun irq => ?_) rfl rfl
    have hno : ¬ (vector.toInt = irq ∧ irq < 160 ∧ handler ≠ 0) := fun hall => hlt (by omega)
    rw [IrqCall.installs, if_neg hno]

/-! ## An interrupt -/

/-- What `rt_hw_trap_irq` does about an interrupt that is not spurious. -/
def servedEvents (w : Vectors) (irq : U32) : List IrqEvent :=
  [⟨.readHandler irq.toNat, w.handler irq.toNat⟩, ⟨.readCounter irq.toNat, w.counter irq.toNat⟩,
    ⟨.writeCounter irq.toNat (w.counter irq.toNat + 1), ()⟩] ++
    if w.handler irq.toNat ≠ 0 then
      [⟨.readParam irq.toNat, w.param irq.toNat⟩,
        ⟨.isr (w.handler irq.toNat) irq (w.param irq.toNat), ()⟩]
    else []

theorem traceOn_bind_serve (w : Vectors) (irq : U32) (k : Unit → IrqM Unit) :
    ((serve irq >>= k).traceOn irqOutcome w =
      servedEvents w irq ++ (k ()).traceOn irqOutcome
        { w with counter := Function.update w.counter irq.toNat (w.counter irq.toNat + 1) }) ∧
    (serve irq >>= k).runOn irqOutcome w = (k ()).runOn irqOutcome
        { w with counter := Function.update w.counter irq.toNat (w.counter irq.toNat + 1) } := by
  set w' : Vectors :=
    { w with counter := Function.update w.counter irq.toNat (w.counter irq.toNat + 1) } with hw'
  have htrace : (serve irq >>= k).traceOn irqOutcome w =
      ⟨.readHandler irq.toNat, w.handler irq.toNat⟩ ::
        ⟨.readCounter irq.toNat, w.counter irq.toNat⟩ ::
          ⟨.writeCounter irq.toNat (w.counter irq.toNat + 1), ()⟩ ::
            (callHandler (w.handler irq.toNat) irq >>= k).traceOn irqOutcome w' := rfl
  have hrun : (serve irq >>= k).runOn irqOutcome w =
      (callHandler (w.handler irq.toNat) irq >>= k).runOn irqOutcome w' := rfl
  rw [htrace, hrun, servedEvents, callHandler]
  by_cases hnull : w.handler irq.toNat ≠ 0
  · rw [if_pos hnull, if_pos hnull]
    exact ⟨rfl, rfl⟩
  · rw [if_neg hnull, if_neg hnull]
    exact ⟨rfl, rfl⟩

theorem events_irq (w : Vectors) (iar : U32) :
    w.events (.irq iar) = ⟨.readIar, iar⟩ ::
      ((if iar &&& 0x0200#32 ≠ 0 then [] else servedEvents { w with iar := iar } (iar &&& 0x1FF#32)) ++
        [⟨.writeEoir iar, ()⟩]) := by
  have hack : w.events (.irq iar) =
      ⟨.readIar, iar⟩ :: (trapAcked iar).traceOn irqOutcome { w with iar := iar } := rfl
  rw [hack, trapAcked]
  by_cases hspurious : iar &&& 0x0200#32 ≠ 0
  · rw [if_pos hspurious, if_pos hspurious]
    rfl
  · rw [if_neg hspurious, if_neg hspurious, (traceOn_bind_serve _ _ _).1]
    rfl

theorem exec_irq (w : Vectors) (iar : U32) :
    (w.exec (.irq iar)).handler = w.handler ∧ (w.exec (.irq iar)).param = w.param := by
  have hack : w.exec (.irq iar) = ((trapAcked iar).runOn irqOutcome { w with iar := iar }).2 := rfl
  rw [hack, trapAcked]
  by_cases hspurious : iar &&& 0x0200#32 ≠ 0
  · rw [if_pos hspurious]
    exact ⟨rfl, rfl⟩
  · rw [if_neg hspurious, (traceOn_bind_serve _ _ _).2]
    exact ⟨rfl, rfl⟩

theorem Installed.exec (h : Installed past w) (c : IrqCall) : Installed (past ++ [c]) (w.exec c) := by
  cases c with
  | install vector handler param name => exact h.install vector handler param name
  | mask vector => exact h.other (fun _ => rfl) rfl rfl
  | umask vector => exact h.other (fun _ => rfl) rfl rfl
  | irq iar => exact h.other (fun _ => rfl) (exec_irq w iar).1 (exec_irq w iar).2

theorem interruptId_toNat (iar : U32) : (interruptId iar).toNat = iar.toNat % 1024 := by
  rw [interruptId, BitVec.toNat_and]
  exact Nat.and_two_pow_sub_one_eq_mod _ 10

theorem irqField_toNat (iar : U32) : (iar &&& 0x1FF#32).toNat = iar.toNat % 512 := by
  rw [BitVec.toNat_and]
  exact Nat.and_two_pow_sub_one_eq_mod _ 9

/-- The bit that tells a spurious interrupt is the top one of the ID. -/
theorem spurious_iff (iar : U32) : iar &&& 0x0200#32 ≠ 0 ↔ 512 ≤ iar.toNat % 1024 := by
  have hbit : iar &&& 0x0200#32 ≠ 0 ↔ iar.getLsbD 9 = true := by
    constructor
    · intro h
      by_contra hclear
      refine h (BitVec.eq_of_getLsbD_eq fun i hi => ?_)
      have hmask : ∀ i < 32, (0x0200#32).getLsbD i = true → i = 9 := by decide
      rw [BitVec.getLsbD_and]
      by_cases hm : (0x0200#32).getLsbD i = true
      · rw [hmask i hi hm]
        simpa using hclear
      · simp [hm]
    · intro hset h
      have h9 : (iar &&& 0x0200#32).getLsbD 9 = false := by rw [h]; rfl
      rw [BitVec.getLsbD_and, hset] at h9
      exact absurd h9 (by decide)
  rw [hbit, BitVec.getLsbD, Nat.testBit_eq_decide_div_mod_eq, decide_eq_true_iff]
  omega

/-- An interrupt that is served uses its own index throughout. -/
theorem servedEvents_index (w : Vectors) (irq : U32) :
    ∀ e ∈ servedEvents w irq, ∀ i ∈ e.op.index?, i = irq.toNat := by
  unfold servedEvents
  split
  · simp [IrqOp.index?]
  · simp [IrqOp.index?]

theorem servedEvents_isr (w : Vectors) (irq : U32) :
    (servedEvents w irq).filterMap isrCall? =
      if w.handler irq.toNat ≠ 0 then [(w.handler irq.toNat, irq, w.param irq.toNat)] else [] := by
  unfold servedEvents
  split
  · rfl
  · rfl

theorem servedEvents_eoir (w : Vectors) (irq : U32) :
    (servedEvents w irq).filterMap eoir? = [] := by
  unfold servedEvents
  split
  · rfl
  · rfl

theorem callSafe_install_iff {vector handler param : U32} {name : List Byte} :
    CallSafe past (.install vector handler param name)
      (w.events (.install vector handler param name)) ↔ 0 ≤ vector.toInt := by
  by_cases hlt : vector.toInt < 160
  · rcases events_install_lt (w := w) handler param name hlt with ⟨⟨ev, hev⟩, hindex⟩
    constructor
    · intro h
      exact (h.bounds _ (hev ▸ List.mem_cons_self ..) _ rfl).1
    · intro hpos
      refine ⟨fun e he i hi => ?_, by simp, by simp⟩
      rw [hindex e he i hi]
      exact ⟨hpos, hlt⟩
  · rw [(exec_install_ge hlt).2]
    refine ⟨fun _ => by omega, fun _ => ⟨by simp, by simp, by simp⟩⟩

theorem callSafe_irq_iff (h : Installed past w) {iar : U32} :
    CallSafe past (.irq iar) (w.events (.irq iar)) ↔
      (iar &&& 0x0200#32 ≠ 0 ∨ (iar &&& 0x1FF#32).toNat < 160) := by
  rw [events_irq]
  -- A spurious identifier reaches no entry of the table.
  by_cases hspurious : iar &&& 0x0200#32 ≠ 0
  · have hid : (160 : ℤ) ≤ (interruptId iar).toNat := by
      have hge := (spurious_iff iar).1 hspurious
      rw [interruptId_toNat]
      omega
    rw [if_pos hspurious]
    refine ⟨fun _ => .inl hspurious, fun _ => ⟨by simp [IrqOp.index?], ?_, ?_⟩⟩
    · rintro iar' ⟨⟩
      rw [lastInstalled_of_ge past hid]
      rfl
    · rintro iar' ⟨⟩
      rfl
  · have hid : interruptId iar = iar &&& 0x1FF#32 := by
      have hlt := (spurious_iff iar).not.1 hspurious
      apply BitVec.eq_of_toNat_eq
      rw [interruptId_toNat, irqField_toNat]
      omega
    rw [if_neg hspurious]
    set irq := iar &&& 0x1FF#32 with hirq
    set w' : Vectors := { w with iar := iar } with hw'
    constructor
    · intro hsafe
      -- The handler is read from the table, which a safe call does within it only.
      have hread : ⟨.readHandler irq.toNat, w'.handler irq.toNat⟩ ∈ (⟨.readIar, iar⟩ ::
          (servedEvents w' irq ++ [⟨.writeEoir iar, ()⟩]) : List IrqEvent) := by
        simp [servedEvents]
      have hbound := (hsafe.bounds _ hread _ rfl).2
      exact .inr (by omega)
    · rintro (hbit | hlt)
      · exact absurd hbit hspurious
      · have hcell := h irq.toNat (by omega) (by omega)
        refine ⟨?_, ?_, ?_⟩
        · intro e he i hi
          rcases List.mem_cons.1 he with rfl | he
          · exact absurd hi (by simp [IrqOp.index?])
          · rcases List.mem_append.1 he with he | he
            · rw [servedEvents_index w' irq e he i hi]
              omega
            · rw [List.mem_singleton] at he
              subst he
              exact absurd hi (by simp [IrqOp.index?])
        · rintro iar' ⟨⟩
          show ((servedEvents w' irq) ++ _).filterMap isrCall? = _
          rw [List.filterMap_append, servedEvents_isr, hid]
          -- The entry holds what was installed last, or nothing yet.
          cases hlast : lastInstalled past irq.toNat with
          | none =>
              rw [hlast] at hcell
              have hnull : ¬ w'.handler irq.toNat ≠ 0 := not_not.2 hcell
              rw [if_neg hnull]
              rfl
          | some d =>
              rw [hlast] at hcell
              rcases hcell with ⟨hne, hhandler, hparam⟩
              have hnull : w'.handler irq.toNat ≠ 0 := hhandler ▸ hne
              rw [if_pos hnull]
              show [(w.handler irq.toNat, irq, w.param irq.toNat)] = [(d.1, irq, d.2)]
              rw [hhandler, hparam]
        · rintro iar' ⟨⟩
          show ((servedEvents w' irq) ++ _).filterMap eoir? = _
          rw [List.filterMap_append, servedEvents_eoir]
          rfl

theorem callSafe_iff (h : Installed past w) (c : IrqCall) :
    CallSafe past c (w.events c) ↔ c.InRange := by
  cases c with
  | install vector handler param name => exact callSafe_install_iff
  | mask vector => exact ⟨fun _ => trivial, fun _ => ⟨by simp [Vectors.events], by simp, by simp⟩⟩
  | umask vector => exact ⟨fun _ => trivial, fun _ => ⟨by simp [Vectors.events], by simp, by simp⟩⟩
  | irq iar => exact callSafe_irq_iff h

theorem runSafe_iff (h : Installed past w) (cs : List IrqCall) :
    RunSafe w past cs ↔ ∀ c ∈ cs, c.InRange := by
  induction cs generalizing past w with
  | nil => simp [RunSafe]
  | cons c cs ih => rw [RunSafe, callSafe_iff h, ih (h.exec c), List.forall_mem_cons]

end Calls

/-- From the cleared table on every call is safe exactly if no vector installed to is negative and
no acknowledged interrupt that passes for a real one lies beyond the table. -/
theorem dispatch_safe_iff {w : Vectors} (hw : Cleared w) (cs : List IrqCall) :
    RunSafe w [] cs ↔ ∀ c ∈ cs, c.InRange :=
  runSafe_iff (fun i hlo hhi => (hw i hlo hhi).1) cs

/-- The table after `rt_hw_interrupt_init`, with zeros around it. -/
def Vectors.init : Vectors where
  handler := fun _ => 0
  param := fun _ => 0
  name := fun _ => []
  counter := fun _ => 0
  iar := 0
  gicd := Gicd.reset

theorem cleared_init : Cleared Vectors.init :=
  fun _ _ _ => ⟨rfl, rfl⟩

/-- The MMC controller's interrupt is installed and arrives on CPU 1; a spurious one follows. -/
theorem dispatch_safe_iff_mmc :
    Cleared Vectors.init ∧
      (RunSafe Vectors.init [] [.install 92 0x4000 0 [], .umask 92, .irq 0x45C, .irq 1023] ↔
        ∀ c ∈ [IrqCall.install 92 0x4000 0 [], .umask 92, .irq 0x45C, .irq 1023], c.InRange) :=
  ⟨cleared_init, dispatch_safe_iff cleared_init _⟩

/-- An acknowledged interrupt 160 reads the descriptor behind the table. -/
theorem trapIrq_beyond :
    Cleared Vectors.init ∧
      ⟨.readHandler 160, 0⟩ ∈ Vectors.init.events (.irq 0xA0) ∧
      ¬ RunSafe Vectors.init [] [.irq 0xA0] := by
  have hread : ⟨.readHandler 160, 0⟩ ∈ Vectors.init.events (.irq 0xA0) := by
    rw [events_irq]
    exact List.mem_cons_of_mem _ (List.mem_cons_self ..)
  refine ⟨cleared_init, hread, fun hsafe => ?_⟩
  have hbound := (hsafe.1.bounds _ hread 160 rfl).2
  omega

end Gic

end BspV3s
