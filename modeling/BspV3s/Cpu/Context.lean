import BspV3s.Lib.Arm

/-!
# Context — saving a thread's registers and restoring another's

`rt_hw_context_switch` pushes the running thread's registers on its own stack and
`rt_hw_stack_init` writes the registers that a new thread is to begin with.  Both build the same frame
of 16 words, from low to high `cpsr`, `r0` to `r12`, `lr` and `pc`, and restoring goes by that frame.

* `exec_popFrame`                : popping a frame restores its context;
* `exec_rtHwContextSwitch`       : the caller's context is saved and the other thread's restored;
* `rtHwStackInit_eq`             : a new thread's frame is a saved one.
-/

namespace BspV3s

namespace Cpu

open WordMemory Arm

/-! ## The routines -/

/-- The addresses of `rt_thread_switch_interrupt_flag`, `rt_interrupt_from_thread` and
`rt_interrupt_to_thread`. -/
structure Globals where
  flag : Word
  fromThread : Word
  toThread : Word

/-- The end of every switch: pop a frame. -/
def popFrame : List Instr :=
  [ldmfd [.r 4],
    msrSpsr (.r 4),
    ldmfdReturn (lows ++ [.lr])]

/-- `rt_hw_context_switch_to`. -/
def rtHwContextSwitchTo : List Instr :=
  ldr .sp (.r 0) :: popFrame

/-- `rt_hw_context_switch` up to the store of `sp`. -/
def saveCall : List Instr :=
  [stmfd [.lr],
    stmfd (lows ++ [.lr]),
    mrsCpsr (.r 4),
    tstOrrne .lr 0x01 (.r 4) 0x20,
    stmfd [.r 4]]

/-- `rt_hw_context_switch`. -/
def rtHwContextSwitch : List Instr :=
  saveCall ++
    [str .sp (.r 0),
      ldr .sp (.r 1)] ++
    popFrame

/-- `rt_hw_context_switch_interrupt`. -/
def rtHwContextSwitchInterrupt (G : Globals) (m : Machine) : Machine :=
  let m := exec [mov (.r 2) G.flag, ldr (.r 3) (.r 2)] m
  let m := if m.r 3 = 1 then m else
    exec [mov (.r 12) G.fromThread, mov (.r 3) 1, str (.r 0) (.r 12), str (.r 3) (.r 2)] m
  exec [mov (.r 2) G.toThread, str (.r 1) (.r 2)] m

/-- `*(--stk) = w`. -/
def pushWord (w : Word) (x : Memory × Word) : Memory × Word :=
  (Function.update x.1 (x.2 - 4) w, x.2 - 4)

def SVCMODE : Word := 0x13

/-- `rt_hw_stack_init`: the memory after it, and the stack pointer that it returns. -/
def rtHwStackInit (tentry parameter stackAddr texit : Word) (mem : Memory) : Memory × Word :=
  let x := (Function.update mem stackAddr tentry, stackAddr)
  let x := pushWord texit x
  let x := pushWord 0 x
  let x := pushWord 0 x
  let x := pushWord 0 x
  let x := pushWord 0 x
  let x := pushWord 0 x
  let x := pushWord 0 x
  let x := pushWord 0 x
  let x := pushWord 0 x
  let x := pushWord 0 x
  let x := pushWord 0 x
  let x := pushWord 0 x
  let x := pushWord 0 x
  let x := pushWord parameter x
  if tentry &&& 0x01 ≠ 0 then pushWord (SVCMODE ||| 0x20) x else pushWord SVCMODE x

/-! ## Contexts and frames -/

/-- What a thread sees of the core. -/
structure Ctx where
  r : Fin 13 → Word
  sp : Word
  lr : Word
  pc : Word
  cpsr : Word

/-- The context of a core in supervisor mode. -/
def context (m : Machine) : Ctx := ⟨m.r, m.svc.sp, m.svc.lr, m.pc, m.cpsr⟩

/-- The core after a return to the context. -/
def resume (m : Machine) (c : Ctx) : Machine :=
  { m with
    r := c.r
    svc := ⟨c.sp, c.lr, c.cpsr⟩
    pc := c.pc
    cpsr := c.cpsr }

/-- The words of a frame whose last is `p`. -/
def frameWords (c : Ctx) (p : Word) : List Word :=
  c.cpsr :: (List.ofFn c.r ++ [c.lr, p])

/-- At `a` lies a frame of the context `c`. -/
structure Framed (mem : Memory) (a : Word) (c : Ctx) : Prop where
  words : ∃ p, load mem a 16 = frameWords c p ∧ branchTo c.cpsr p = c.pc
  sp : c.sp = a + 64

/-- The memory once the context is saved: its frame, and the stack pointer in the thread's `sp`. -/
def saveFrame (mem : Memory) (slot : Word) (c : Ctx) (p : Word) : Memory :=
  Function.update (store mem (c.sp - 64) (frameWords c p)) slot (c.sp - 64)

@[simp] theorem length_frameWords (c : Ctx) (p : Word) : (frameWords c p).length = 16 := rfl

theorem Framed.congr {mem mem' : Memory} {a : Word} {c : Ctx} (h : Framed mem a c)
    (hmem : ∀ b ∈ addrs a 16, mem' b = mem b) : Framed mem' a c := by
  rcases h.words with ⟨p, hload, hpc⟩
  exact ⟨⟨p, (load_congr hmem).trans hload, hpc⟩, h.sp⟩

theorem saveFrame_slot (mem : Memory) (slot : Word) (c : Ctx) (p : Word) :
    saveFrame mem slot c p slot = c.sp - 64 :=
  Function.update_self slot _ _

theorem saveFrame_other {mem : Memory} {slot b : Word} {c : Ctx} {p : Word} (hslot : b ≠ slot)
    (hframe : b ∉ addrs (c.sp - 64) 16) : saveFrame mem slot c p b = mem b := by
  rw [saveFrame, Function.update_of_ne hslot, store_outside]
  exact hframe

theorem framed_saveFrame {mem : Memory} {slot : Word} {c : Ctx} {p : Word}
    (hpc : branchTo c.cpsr p = c.pc) (hslot : slot ∉ addrs (c.sp - 64) 16) :
    Framed (saveFrame mem slot c p) (c.sp - 64) c := by
  refine ⟨⟨p, ?_, hpc⟩, (BitVec.sub_add_cancel c.sp 64).symm⟩
  calc load (saveFrame mem slot c p) (c.sp - 64) 16
      = load (store mem (c.sp - 64) (frameWords c p)) (c.sp - 64) 16 :=
        load_update_of_not_mem hslot
    _ = frameWords c p := load_store (by decide : 16 ≤ 2 ^ 30)

/-- Popping a frame restores its context. -/
theorem exec_popFrame {m : Machine} {c : Ctx} (h : m.Svc) (hframe : Framed m.mem m.svc.sp c) :
    exec popFrame m = resume m c := by
  rcases hframe.words with ⟨p, hload, hpc⟩
  have hcpsr : m.mem m.svc.sp = c.cpsr := (List.cons.inj hload).1
  have hrest : load m.mem (m.svc.sp + 4) 15 = List.ofFn c.r ++ [c.lr, p] := (List.cons.inj hload).2
  have hsp : m.svc.sp + 4 + 60 = c.sp := by
    rw [hframe.sp, BitVec.add_assoc]
    rfl
  -- Neither step leaves supervisor mode.
  rw [popFrame, exec_cons, ldmfd_r_svc h, exec_cons, msrSpsr_svc (by exact h), exec_cons,
    ldmfdReturn_svc (by exact h) hrest]
  simp only [Function.update_self, hcpsr, hpc, hsp]
  rfl

/-! ## Saving -/

/-- The status that `rt_hw_context_switch` saves: Thumb as the return address says. -/
def callPsr (m : Machine) : Word :=
  if m.svc.lr &&& 0x01 ≠ 0 then m.cpsr &&& MRS_MASK ||| 0x20 else m.cpsr &&& MRS_MASK

/-- The context in which a thread goes on after `rt_hw_context_switch`. -/
def callContext (m : Machine) : Ctx :=
  ⟨m.r, m.svc.sp, m.svc.lr, branchTo (callPsr m) m.svc.lr, callPsr m⟩

theorem callPsr_step {m : Machine} (h : m.Svc) :
    tstOrrne .lr 0x01 (.r 4) 0x20 (mrsCpsr (.r 4) m) =
      { m with r := Function.update m.r 4 (callPsr m) } := by
  have hlr : (mrsCpsr (.r 4) m).get .lr = m.svc.lr := Machine.Svc.get_lr h
  unfold tstOrrne callPsr
  rw [hlr]
  split
  · simp only [mrsCpsr, Machine.set, Machine.get, Function.update_self, Function.update_idem]
  · rfl

theorem callPsr_svc {m : Machine} (h : m.Svc) : callPsr m &&& MODE_MASK = MODE_SVC := by
  have hmask : MRS_MASK &&& MODE_MASK = MODE_MASK := by decide
  have hthumb : (0x20 : Word) &&& MODE_MASK = 0 := by decide
  have hmode : m.cpsr &&& MRS_MASK &&& MODE_MASK = MODE_SVC := by
    rw [BitVec.and_assoc, hmask]
    exact h
  unfold callPsr
  split
  · rw [BitVec.and_or_distrib_right, hmode, hthumb]
    exact BitVec.or_zero
  · exact hmode

theorem exec_saveCall {m : Machine} (h : m.Svc) :
    exec saveCall m =
      { m with r := Function.update m.r 4 (callPsr m) }.push
        (frameWords (callContext m) m.svc.lr) := by
  have hlr : [Reg.lr].map m.get = [m.svc.lr] := congrArg (· :: []) h.get_lr
  have hregs : ∀ m' : Machine, m'.Svc →
      (lows ++ [Reg.lr]).map m'.get = List.ofFn m'.r ++ [m'.svc.lr] := by
    intro m' h'
    rw [List.map_append, map_get_lows, List.map_singleton, h'.get_lr]
  rw [saveCall, exec_cons, stmfd_svc h, exec_cons, stmfd_svc (by exact h), hlr,
    hregs _ (by exact h), Machine.push_push, exec_cons, exec_cons, callPsr_step (by exact h),
    exec_cons, stmfd_svc (by exact h)]
  exact Machine.push_push { m with r := Function.update m.r 4 (callPsr m) }
    (List.ofFn m.r ++ [m.svc.lr] ++ [m.svc.lr]) [callPsr m]

/-! ## The switches -/

/-- `rt_hw_context_switch_to`. -/
theorem exec_rtHwContextSwitchTo {m : Machine} {c : Ctx} (h : m.Svc)
    (hframe : Framed m.mem (m.mem (m.r 0)) c) : exec rtHwContextSwitchTo m = resume m c := by
  rw [rtHwContextSwitchTo, exec_cons, ldr, h.set_sp]
  exact exec_popFrame (by exact h) hframe

/-- `rt_hw_context_switch` saves the caller's context and restores the one of the thread it is
given. -/
theorem exec_rtHwContextSwitch {m : Machine} {c : Ctx} {mem : Memory} (h : m.Svc)
    (hmem : saveFrame m.mem (m.r 0) (callContext m) m.svc.lr = mem)
    (hframe : Framed mem (mem (m.r 1)) c) :
    exec rtHwContextSwitch m = resume { m with mem := mem } c := by
  have hr : ∀ i, i ≠ 4 → Function.update m.r 4 (callPsr m) i = m.r i := fun i hi =>
    Function.update_of_ne hi _ _
  have hstore : exec [str .sp (.r 0), ldr .sp (.r 1)]
      ({ m with r := Function.update m.r 4 (callPsr m) }.push
        (frameWords (callContext m) m.svc.lr)) =
      { m with
        r := Function.update m.r 4 (callPsr m)
        svc := ⟨mem (m.r 1), m.svc.lr, m.svc.spsr⟩
        mem := mem } := by
    rw [exec_cons, str, Machine.Svc.get_sp (by exact h), exec_cons, ldr, Machine.Svc.set_sp]
    · simp only [Machine.push, Machine.get, length_frameWords, hr 0 (by decide), hr 1 (by decide)]
      rw [← hmem]
      rfl
    · exact h
  rw [rtHwContextSwitch, exec_append, exec_append, exec_saveCall h, hstore,
    exec_popFrame (by exact h) hframe]
  rfl

/-- The first request of an interrupt. -/
theorem rtHwContextSwitchInterrupt_first {G : Globals} {m : Machine} (h : m.mem G.flag ≠ 1) :
    ∃ r, rtHwContextSwitchInterrupt G m = { m with
      r := r
      mem := Function.update (Function.update (Function.update m.mem G.fromThread (m.r 0)) G.flag 1)
        G.toThread (m.r 1) } := by
  let r := Function.update (Function.update m.r 2 G.flag) 3 (m.mem G.flag)
  let r' := Function.update (Function.update r 12 G.fromThread) 3 1
  have hset : exec [mov (.r 12) G.fromThread, mov (.r 3) 1, str (.r 0) (.r 12), str (.r 3) (.r 2)]
      { m with r := r } = { m with
        r := r'
        mem := Function.update (Function.update m.mem G.fromThread (m.r 0)) G.flag 1 } := by
    have hregs : r' 12 = G.fromThread ∧ r' 0 = m.r 0 ∧ r' 2 = G.flag ∧ r' 3 = 1 := by
      simp [r', r]
    calc
      _ = { m with
            r := r'
            mem := Function.update (Function.update m.mem (r' 12) (r' 0)) (r' 2) (r' 3) } := rfl
      _ = _ := by
          rw [hregs.1, hregs.2.1, hregs.2.2.1, hregs.2.2.2]
  have hone : r' 1 = m.r 1 := by
    simp [r', r]
  refine ⟨Function.update r' 2 G.toThread, ?_⟩
  unfold rtHwContextSwitchInterrupt
  rw [exec_mov_ldr]
  simp only [Function.update_self, if_neg h]
  rw [hset, exec_mov_str (by decide), ← hone]

/-- A further one, which leaves `rt_interrupt_from_thread` as it is. -/
theorem rtHwContextSwitchInterrupt_again {G : Globals} {m : Machine} (h : m.mem G.flag = 1) :
    ∃ r, rtHwContextSwitchInterrupt G m = { m with
      r := r
      mem := Function.update m.mem G.toThread (m.r 1) } := by
  let r := Function.update (Function.update m.r 2 G.flag) 3 (m.mem G.flag)
  have hone : r 1 = m.r 1 := by
    simp [r]
  refine ⟨Function.update r 2 G.toThread, ?_⟩
  unfold rtHwContextSwitchInterrupt
  rw [exec_mov_ldr]
  simp only [Function.update_self, if_pos h]
  rw [exec_mov_str (by decide)]
  exact congrArg (fun v => { m with
    r := Function.update r 2 G.toThread
    mem := Function.update m.mem G.toThread v }) hone

/-! ## A new thread -/

/-- The context in which a new thread begins. -/
def initialContext (tentry parameter stackAddr texit : Word) : Ctx :=
  let psr := if tentry &&& 0x01 ≠ 0 then SVCMODE ||| 0x20 else SVCMODE
  ⟨fun i => if i = 0 then parameter else 0, stackAddr + 4, texit, branchTo psr tentry, psr⟩

theorem initialContext_svc (tentry parameter stackAddr texit : Word) :
    (initialContext tentry parameter stackAddr texit).cpsr &&& MODE_MASK = MODE_SVC := by
  unfold initialContext
  dsimp only
  split <;> decide

theorem pushWord_store (w : Word) (mem : Memory) (a : Word) (ws : List Word) :
    pushWord w (store mem a ws, a) = (store mem (a - 4) (w :: ws), a - 4) := by
  rw [pushWord, store, BitVec.sub_add_cancel]

theorem rtHwStackInit_eq (tentry parameter stackAddr texit slot : Word) (mem : Memory) :
    let x := rtHwStackInit tentry parameter stackAddr texit mem
    Function.update x.1 slot x.2 =
      saveFrame mem slot (initialContext tentry parameter stackAddr texit) tentry := by
  have hfirst : (Function.update mem stackAddr tentry, stackAddr) =
      (store mem stackAddr [tentry], stackAddr) := rfl
  have hsp : stackAddr + 4 - 64 = stackAddr - 60 := by bv_omega
  have hinit : rtHwStackInit tentry parameter stackAddr texit mem =
      (store mem (stackAddr - 60)
        (frameWords (initialContext tentry parameter stackAddr texit) tentry), stackAddr - 60) := by
    unfold rtHwStackInit initialContext
    simp only [hfirst, pushWord_store, BitVec.sub_sub]
    split <;> rfl
  simp only [hinit, saveFrame, initialContext, hsp]

end Cpu

end BspV3s
