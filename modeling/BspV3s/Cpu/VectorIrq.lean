import BspV3s.Cpu.Context

/-!
# VectorIrq — interrupts and the switch at their end

`vector_irq` pushes the registers on the IRQ stack.  Only if the interrupt has asked for a switch are
they moved from there to the interrupted thread's own stack, in the frame that
`rt_hw_context_switch` builds too; the low four are fetched through a pointer after the stack has
been popped.

* `exec_vectorIrqEnter`                : what an interrupt leaves on the IRQ stack;
* `vectorIrqExit_return`               : without a request the interrupted context is restored;
* `vectorIrqExit_switch`               : with one it is saved, and the other thread's restored.
-/

namespace BspV3s

namespace Cpu

open WordMemory Arm

/-! ## The routines -/

/-- `r4` to `r12`. -/
def highs : List Reg := ((List.finRange 13).drop 4).map .r

/-- `vector_irq` up to the first of its calls. -/
def vectorIrqEnter : List Instr :=
  [stmfd (lows ++ [.lr])]

/-- `rt_hw_context_switch_interrupt_do` up to the change to supervisor mode. -/
def reloadIrq : List Instr :=
  [mov (.r 1) 0,
    str (.r 1) (.r 0),
    movr (.r 1) .sp,
    add .sp .sp 16,
    ldmfd (highs ++ [.lr]),
    mrsSpsr (.r 0),
    sub (.r 2) .lr 4,
    msrCpsrC (I_BIT ||| F_BIT ||| MODE_SVC)]

/-- `rt_hw_context_switch_interrupt_do` from there up to the store of `sp`. -/
def saveIrq : List Instr :=
  [stmfd [.r 2],
    stmfd (highs ++ [.lr]),
    ldmia (.r 1) [.r 1, .r 2, .r 3, .r 4],
    stmfd [.r 1, .r 2, .r 3, .r 4],
    stmfd [.r 0]]

/-- `rt_hw_context_switch_interrupt_do`. -/
def rtHwContextSwitchInterruptDo (G : Globals) : List Instr :=
  reloadIrq ++ saveIrq ++
    [mov (.r 4) G.fromThread,
      ldr (.r 5) (.r 4),
      str .sp (.r 5),
      mov (.r 6) G.toThread,
      ldr (.r 6) (.r 6),
      ldr .sp (.r 6)] ++
    popFrame

/-- `vector_irq` after its calls. -/
def vectorIrqExit (G : Globals) (m : Machine) : Machine :=
  let m := exec [mov (.r 0) G.flag, ldr (.r 1) (.r 0)] m
  if m.r 1 = 1 then exec (rtHwContextSwitchInterruptDo G) m
  else exec [ldmfd (lows ++ [.lr]), subsPcLr 4] m

/-! ## Entry -/

/-- What `vector_irq` starts from, and what it leaves. -/
theorem exec_vectorIrqEnter (m : Machine) (vector : Word) :
    let m' := exec vectorIrqEnter (m.takeIrq vector)
    m'.Irq ∧ m'.svc = m.svc ∧ m'.irq = ⟨m.irq.sp - 56, m.pc + 4, m.cpsr⟩ ∧
      m'.mem = store m.mem (m.irq.sp - 56) (List.ofFn m.r ++ [m.pc + 4]) := by
  have h := m.takeIrq_irq vector
  have hregs : (lows ++ [Reg.lr]).map (m.takeIrq vector).get = List.ofFn m.r ++ [m.pc + 4] := by
    rw [List.map_append, map_get_lows, List.map_singleton, h.get_lr]
    rfl
  rw [vectorIrqEnter, exec_cons, stmfd_irq h, hregs]
  exact ⟨h, rfl, rfl, rfl⟩

/-! ## The switch -/

/-- What lies on the IRQ stack, taken apart as `rt_hw_context_switch_interrupt_do` does. -/
theorem load_irq_split {mem : Memory} {a : Word} {f : Fin 13 → Word} {x : Word}
    (h : load mem a 14 = List.ofFn f ++ [x]) :
    load mem a 4 = ((List.finRange 13).take 4).map f ∧
      load mem (a + 16) 10 = ((List.finRange 13).drop 4).map f ++ [x] := by
  have hsplit : load mem a 4 ++ load mem (a + 16) 10 =
      ((List.finRange 13).take 4).map f ++ (((List.finRange 13).drop 4).map f ++ [x]) := by
    calc
      _ = load mem a 14 := (load_add mem a 4 10).symm
      _ = List.ofFn f ++ [x] := h
      _ = _ := by
        rw [← List.append_assoc, ← List.map_append, List.take_append_drop, List.ofFn_eq_map]
  exact List.append_inj hsplit (by simp)

/-- The first half of `rt_hw_context_switch_interrupt_do`, with `r0` the address of the flag. -/
theorem exec_reloadIrq {m : Machine} {f : Fin 13 → Word} {x : Word} (h : m.Irq)
    (hload : load m.mem m.irq.sp 14 = List.ofFn f ++ [x]) (hflag : m.r 0 ∉ addrs m.irq.sp 14) :
    ∃ m', exec reloadIrq m = m' ∧ m'.Svc ∧ m'.svc = m.svc ∧ m'.irq = ⟨m.irq.sp + 56, x, m.irq.spsr⟩ ∧
      m'.mem = Function.update m.mem (m.r 0) 0 ∧ m'.r 0 = m.irq.spsr ∧ m'.r 1 = m.irq.sp ∧
      m'.r 2 = x - 4 ∧ ∀ j ∈ (List.finRange 13).drop 4, m'.r j = f j := by
  have hsvc : (I_BIT ||| F_BIT ||| MODE_SVC) &&& 0xdf &&& MODE_MASK = MODE_SVC := by decide
  have hhead : exec [mov (.r 1) 0, str (.r 1) (.r 0), movr (.r 1) .sp, add .sp .sp 16] m =
      { m with
        r := Function.update (Function.update m.r 1 0) 1 m.irq.sp
        irq := ⟨m.irq.sp + 16, m.irq.lr, m.irq.spsr⟩
        mem := Function.update m.mem (m.r 0) 0 } := by
    have hr0 : Function.update m.r 1 0 0 = m.r 0 := Function.update_of_ne (by decide) _ _
    calc exec [mov (.r 1) 0, str (.r 1) (.r 0), movr (.r 1) .sp, add .sp .sp 16] m
        = add .sp .sp 16 (movr (.r 1) .sp { m with
            r := Function.update m.r 1 0
            mem := Function.update m.mem (Function.update m.r 1 0 0) (Function.update m.r 1 0 1) }) :=
          rfl
      _ = add .sp .sp 16 { m with
            r := Function.update (Function.update m.r 1 0) 1 m.irq.sp
            mem := Function.update m.mem (m.r 0) 0 } := by
          rw [movr, Machine.Irq.get_sp (by exact h), hr0, Function.update_self]
          rfl
      _ = _ := by
          rw [add, Machine.Irq.get_sp (by exact h), Machine.Irq.set_sp (by exact h)]
  have hhigh : load (Function.update m.mem (m.r 0) 0) (m.irq.sp + 16) 10 =
      ((List.finRange 13).drop 4).map f ++ [x] :=
    (load_irq_split ((load_update_of_not_mem hflag).trans hload)).2
  have hsplit : reloadIrq = [mov (.r 1) 0, str (.r 1) (.r 0), movr (.r 1) .sp, add .sp .sp 16] ++
      [ldmfd (highs ++ [.lr]), mrsSpsr (.r 0), sub (.r 2) .lr 4,
        msrCpsrC (I_BIT ||| F_BIT ||| MODE_SVC)] := rfl
  have hregs : exec reloadIrq m = msrCpsrC (I_BIT ||| F_BIT ||| MODE_SVC) { m with
      r := Function.update (Function.update (fun j => if j ∈ (List.finRange 13).drop 4 then f j
        else Function.update (Function.update m.r 1 0) 1 m.irq.sp j) 0 m.irq.spsr) 2 (x - 4)
      irq := ⟨m.irq.sp + 16 + 40, x, m.irq.spsr⟩
      mem := Function.update m.mem (m.r 0) 0 } := by
    rw [hsplit, exec_append, hhead, exec_cons, highs, ldmfd_lr_irq (by exact h) hhigh, exec_cons,
      mrsSpsr, Machine.Irq.bank (by exact h), exec_cons, sub, Machine.Irq.get_lr (by exact h)]
    rfl
  have hsp : m.irq.sp + 16 + 40 = m.irq.sp + 56 := BitVec.add_assoc _ _ _
  rw [hsp] at hregs
  -- The change of mode leaves all but the status register as it is.
  refine ⟨_, hregs, msrCpsrC_svc hsvc _, rfl, rfl, rfl, rfl, rfl, rfl, fun j hj => ?_⟩
  have hne : j ≠ 0 ∧ j ≠ 2 := by
    revert j
    decide
  exact (Function.update_of_ne hne.2 _ _).trans
    ((Function.update_of_ne hne.1 _ _).trans (if_pos hj))

/-- The second half: the frame that it leaves on the interrupted thread's stack. -/
theorem exec_saveIrq {m : Machine} {f : Fin 13 → Word} (h : m.Svc)
    (hlow : load m.mem (m.r 1) 4 = ((List.finRange 13).take 4).map f)
    (hhigh : ∀ j ∈ (List.finRange 13).drop 4, m.r j = f j)
    (hdisj : ∀ b ∈ addrs (m.r 1) 4, b ∉ addrs (m.svc.sp - 44) 11) :
    ∃ r, exec saveIrq m =
      { m with r := r }.push (m.r 0 :: (List.ofFn f ++ [m.svc.lr, m.r 2])) := by
  have hhighs : ∀ m' : Machine, m'.Svc → m'.r = m.r → (highs ++ [Reg.lr]).map m'.get =
      ((List.finRange 13).drop 4).map f ++ [m'.svc.lr] := by
    intro m' h' hr
    rw [List.map_append, highs, List.map_map, List.map_singleton, h'.get_lr]
    refine congrArg (· ++ _) (List.map_congr_left fun j hj => ?_)
    exact (congrFun hr j).trans (hhigh j hj)
  have hupper : exec [stmfd [.r 2], stmfd (highs ++ [.lr])] m =
      m.push (((List.finRange 13).drop 4).map f ++ [m.svc.lr, m.r 2]) := by
    have hpush := hhighs (m.push [m.r 2]) (by exact h) rfl
    rw [exec_cons, stmfd_svc h, exec_cons, stmfd_svc (by exact h), List.map_singleton]
    change (m.push [m.r 2]).push ((highs ++ [Reg.lr]).map (m.push [m.r 2]).get) = _
    rw [hpush, Machine.push_push, List.append_assoc]
    rfl
  -- The words that are still on the IRQ stack lie apart from these.
  have hlow' : load (m.push (((List.finRange 13).drop 4).map f ++ [m.svc.lr, m.r 2])).mem
      (m.r 1) 4 = ((List.finRange 13).take 4).map f :=
    (load_store_of_disjoint hdisj).trans hlow
  let r := Function.update (Function.update (Function.update (Function.update m.r 1 (f 0)) 2 (f 1))
    3 (f 2)) 4 (f 3)
  have hmiddle : ldmia (.r 1) [.r 1, .r 2, .r 3, .r 4]
      (m.push (((List.finRange 13).drop 4).map f ++ [m.svc.lr, m.r 2])) =
        { m with r := r }.push (((List.finRange 13).drop 4).map f ++ [m.svc.lr, m.r 2]) :=
    congrArg (Machine.setAll [.r 1, .r 2, .r 3, .r 4] · (m.push _)) hlow'
  have hsplit : saveIrq = [stmfd [.r 2], stmfd (highs ++ [.lr])] ++
      [ldmia (.r 1) [.r 1, .r 2, .r 3, .r 4], stmfd [.r 1, .r 2, .r 3, .r 4], stmfd [.r 0]] := rfl
  refine ⟨r, ?_⟩
  rw [hsplit, exec_append, hupper, exec_cons, hmiddle, exec_cons, stmfd_svc (by exact h), exec_cons,
    stmfd_svc (by exact h), Machine.push_push, Machine.push_push]
  rfl

/-- The change of stacks in `rt_hw_context_switch_interrupt_do`. -/
theorem exec_swapIrq {m : Machine} (G : Globals) (h : m.Svc) {mem : Memory}
    (hmem : Function.update m.mem (m.mem G.fromThread) m.svc.sp = mem) :
    ∃ r, exec [mov (.r 4) G.fromThread, ldr (.r 5) (.r 4), str .sp (.r 5), mov (.r 6) G.toThread,
      ldr (.r 6) (.r 6), ldr .sp (.r 6)] m = { m with
        r := r
        svc := ⟨mem (mem G.toThread), m.svc.lr, m.svc.spsr⟩
        mem := mem } := by
  let r := Function.update (Function.update m.r 4 G.fromThread) 5 (m.mem G.fromThread)
  let r' := Function.update (Function.update r 6 G.toThread) 6 (mem G.toThread)
  have hstore : exec [mov (.r 4) G.fromThread, ldr (.r 5) (.r 4), str .sp (.r 5)] m =
      { m with r := r, mem := mem } := by
    calc
      _ = str .sp (.r 5) (exec [mov (.r 4) G.fromThread, ldr (.r 5) (.r 4)] m) := rfl
      _ = _ := by
          rw [exec_mov_ldr, str, Machine.Svc.get_sp (by exact h), ← hmem]
          rfl
  refine ⟨r', ?_⟩
  calc
    _ = ldr .sp (.r 6) (exec [mov (.r 6) G.toThread, ldr (.r 6) (.r 6)]
          (exec [mov (.r 4) G.fromThread, ldr (.r 5) (.r 4), str .sp (.r 5)] m)) := rfl
    _ = { m with
          r := r'
          svc := ⟨mem (mem G.toThread), m.svc.lr, m.svc.spsr⟩
          mem := mem } := by
        rw [hstore, exec_mov_ldr, ldr, Machine.Svc.set_sp (by exact h)]
        rfl

/-- `rt_hw_context_switch_interrupt_do` saves the interrupted context and restores the one of the
thread that was asked for last. -/
theorem exec_rtHwContextSwitchInterruptDo {G : Globals} {m : Machine} {f : Fin 13 → Word}
    {x pc : Word} {c : Ctx} {mem : Memory} (h : m.Irq) 
    (hload : load m.mem m.irq.sp 14 = List.ofFn f ++ [x]) (hflag : m.r 0 ∉ addrs m.irq.sp 14)
    (hdisj : ∀ b ∈ addrs m.irq.sp 4, b ∉ addrs (m.svc.sp - 64) 16)
    (hfrom : G.fromThread ≠ m.r 0 ∧ G.fromThread ∉ addrs (m.svc.sp - 64) 16)
    (hmem : saveFrame (Function.update m.mem (m.r 0) 0) (m.mem G.fromThread)
      ⟨f, m.svc.sp, m.svc.lr, pc, m.irq.spsr⟩ (x - 4) = mem)
    (hframe : Framed mem (mem (mem G.toThread)) c) :
    ∃ m', exec (rtHwContextSwitchInterruptDo G) m = resume m' c ∧ m'.mem = mem ∧
      m'.irq.sp = m.irq.sp + 56 := by
  rcases exec_reloadIrq h hload hflag with
    ⟨m₁, hexec₁, hsvc₁, hbank₁, hirq₁, hmem₁, hpsr₁, hlow₁, hpc₁, hhigh₁⟩
  have hlow : load m₁.mem (m₁.r 1) 4 = ((List.finRange 13).take 4).map f := by
    rw [hmem₁, hlow₁]
    exact (load_irq_split ((load_update_of_not_mem hflag).trans hload)).1
  have hdisj₁ : ∀ b ∈ addrs (m₁.r 1) 4, b ∉ addrs (m₁.svc.sp - 44) 11 := by
    rw [hlow₁, hbank₁]
    intro b hb hin
    have hbase : m.svc.sp - 64 + BitVec.ofNat 32 (4 * 5) = m.svc.sp - 44 := by bv_omega
    refine hdisj b hb ?_
    rw [addrs_add _ 5 11, hbase]
    exact List.mem_append_right _ hin
  -- The frame on the interrupt stack is moved to that of the thread.
  rcases exec_saveIrq hsvc₁ hlow hhigh₁ hdisj₁ with ⟨r, hexec₂⟩
  rw [hpsr₁, hbank₁, hpc₁] at hexec₂
  let m₂ := { m₁ with r := r, svc := m.svc }.push
    (m.irq.spsr :: (List.ofFn f ++ [m.svc.lr, x - 4]))
  have hmem₂ : Function.update m₂.mem (m₂.mem G.fromThread) m₂.svc.sp = mem := by
    have hfrom₂ : m₂.mem G.fromThread = m.mem G.fromThread := by
      calc m₂.mem G.fromThread
          = m₁.mem G.fromThread := store_outside hfrom.2
        _ = m.mem G.fromThread := by
            rw [hmem₁, Function.update_of_ne hfrom.1]
    rw [hfrom₂, ← hmem, ← hmem₁]
    rfl
  -- From here on the stack is that of the other thread.
  rcases exec_swapIrq G (m := m₂) (by exact hsvc₁) hmem₂ with ⟨r', hexec₃⟩
  refine ⟨{ m₂ with mem := mem }, ?_, rfl, congrArg Bank.sp hirq₁⟩
  rw [rtHwContextSwitchInterruptDo, exec_append, exec_append, exec_append, hexec₁, hexec₂, hexec₃]
  exact exec_popFrame (by exact hsvc₁) hframe

/-! ## Exit -/

/-- Without a request the interrupted thread goes on. -/
theorem vectorIrqExit_return {G : Globals} {m : Machine} {f : Fin 13 → Word} {x : Word} (h : m.Irq)
    (hload : load m.mem m.irq.sp 14 = List.ofFn f ++ [x]) (hflag : m.mem G.flag ≠ 1) :
    vectorIrqExit G m = { m with
      r := f
      irq := ⟨m.irq.sp + 56, x, m.irq.spsr⟩
      pc := branchTo m.irq.spsr (x - 4)
      cpsr := m.irq.spsr } := by
  let m₁ := { m with r := Function.update (Function.update m.r 0 G.flag) 1 (m.mem G.flag) }
  have hload₁ : load m₁.mem m₁.irq.sp ((List.finRange 13).length + 1) =
      (List.finRange 13).map f ++ [x] := by
    rw [← List.ofFn_eq_map]
    exact hload
  have hall : (fun j => if j ∈ List.finRange 13 then f j else m₁.r j) = f := by
    funext j
    exact if_pos (List.mem_finRange j)
  have hpop := ldmfd_lr_irq (m := m₁) h hload₁
  rw [hall] at hpop
  have hexit : vectorIrqExit G m =
      subsPcLr 4 (ldmfd ((List.finRange 13).map Reg.r ++ [.lr]) m₁) := by
    unfold vectorIrqExit
    rw [exec_mov_ldr]
    simp only [Function.update_self, if_neg hflag]
    rfl
  rw [hexit, hpop, subsPcLr, Machine.Irq.bank (by exact h), Machine.Irq.get_lr (by exact h)]
  rfl

/-- With a request the interrupted context `c` is saved and the one of the thread that was asked for
last restored. -/
theorem vectorIrqExit_switch {G : Globals} {m : Machine} {c d : Ctx} {mem : Memory} (h : m.Irq)
    (hc : c.sp = m.svc.sp ∧ c.lr = m.svc.lr ∧ c.cpsr = m.irq.spsr)
    (hload : load m.mem m.irq.sp 14 = List.ofFn c.r ++ [c.pc + 4]) (hflag : m.mem G.flag = 1)
    (hstack : G.flag ∉ addrs m.irq.sp 14)
    (hdisj : ∀ b ∈ addrs m.irq.sp 4, b ∉ addrs (c.sp - 64) 16)
    (hfrom : G.fromThread ≠ G.flag ∧ G.fromThread ∉ addrs (c.sp - 64) 16)
    (hmem : saveFrame (Function.update m.mem G.flag 0) (m.mem G.fromThread) c c.pc = mem)
    (hframe : Framed mem (mem (mem G.toThread)) d) :
    ∃ m', vectorIrqExit G m = resume m' d ∧ m'.mem = mem ∧ m'.irq.sp = m.irq.sp + 56 := by
  let m₁ := { m with r := Function.update (Function.update m.r 0 G.flag) 1 (m.mem G.flag) }
  have hflag₁ : m₁.r 0 = G.flag := by
    change Function.update (Function.update m.r 0 G.flag) 1 (m.mem G.flag) 0 = G.flag
    rw [Function.update_of_ne (by decide), Function.update_self]
  have hexit : vectorIrqExit G m = exec (rtHwContextSwitchInterruptDo G) m₁ := by
    unfold vectorIrqExit
    rw [exec_mov_ldr]
    simp only [Function.update_self, if_pos hflag]
    rfl
  have hc₁ : (⟨c.r, m₁.svc.sp, m₁.svc.lr, c.pc, m₁.irq.spsr⟩ : Ctx) = c := by
    rw [← hc.1, ← hc.2.1, ← hc.2.2]
  rw [hexit]
  refine @exec_rtHwContextSwitchInterruptDo G m₁ c.r (c.pc + 4) c.pc d mem h hload
    ?_ ?_ ?_ ?_ hframe
  · rw [hflag₁]
    exact hstack
  · change ∀ b ∈ addrs m.irq.sp 4, b ∉ addrs (m.svc.sp - 64) 16
    rw [← hc.1]
    exact hdisj
  · rw [hflag₁]
    change _ ∧ G.fromThread ∉ addrs (m.svc.sp - 64) 16
    rw [← hc.1]
    exact hfrom
  · rw [hflag₁, hc₁, BitVec.add_sub_cancel]
    exact hmem

end Cpu

end BspV3s
