import BspV3s.Lib.Runs
import BspV3s.Cpu.VectorIrq

/-!
# Schedule — threads on one core

The core in its three kinds of phase: before the first thread, in a thread, and in an interrupt that
took place in a thread and may have asked for others.  Threads and interrupt handlers do whatever they
do, so long as they leave alone what belongs to the switching: the frames of threads that are not
running, the words that point to them, and the words of an interrupt in progress.

Beside the core stands, for each thread that has been set aside, the context in which it is to go on.
No step reads it.

* `Inv`                     : what holds between the steps;
* `Inv.step`                : every step keeps it;
* `seamless_of_run`         : a resumed thread sees its own context, in every run.
-/

namespace BspV3s

namespace Cpu

open WordMemory Arm

/-! ## The layout of memory -/

/-- To whom a word of memory belongs. -/
inductive Owner (T : Type)
  | flag
  | fromThread
  | toThread
  | sp (t : T)
  | stack (t : T)
  | irqStack
  deriving DecidableEq

/-- Where everything lies, at words of its own: stacks are disjoint because a word has one owner. -/
structure Layout (T : Type) where
  globals : Globals
  sp : T → Word
  irqTop : Word
  owner : Word → Option (Owner T)
  owner_flag : owner globals.flag = some .flag
  owner_fromThread : owner globals.fromThread = some .fromThread
  owner_toThread : owner globals.toThread = some .toThread
  owner_sp : ∀ t, owner (sp t) = some (.sp t)
  owner_irqStack : ∀ b ∈ addrs (irqTop - 56) 14, owner b = some .irqStack

/-- Below `sp` there is room for a frame on the stack of `t`. -/
def Layout.Room {T : Type} (L : Layout T) (t : T) (sp : Word) : Prop :=
  ∀ b ∈ addrs (sp - 64) 16, L.owner b = some (.stack t)

/-! ## The system -/

/-- An interrupt is served in the thread that it interrupted, at a context, and may have asked for
threads; the last of these counts. -/
inductive Phase (T : Type)
  | boot
  | running (t : T)
  | serving (t : T) (c : Ctx) (asked : Option T)

structure Sys (T : Type) where
  m : Machine
  phase : Phase T
  saved : T → Option Ctx

namespace Phase

variable {T : Type}

def Serving : Phase T → Prop
  | .serving _ _ _ => True
  | _ => False

/-- The thread whose registers are in the core, or on the IRQ stack. -/
def current : Phase T → Option T
  | .boot => none
  | .running t => some t
  | .serving t _ _ => some t

end Phase

variable {T : Type} {L : Layout T} {s s' : Sys T} {t u : T} {c d : Ctx}

/-- The context in which each thread is to go on, the current one as if it were left now. -/
def Sys.recorded [DecidableEq T] (s : Sys T) : T → Option Ctx :=
  match s.phase with
  | .boot => s.saved
  | .running t => Function.update s.saved t (some (callContext s.m))
  | .serving t c _ => Function.update s.saved t (some c)

/-- The words that hold a thread set aside. -/
def Protected (L : Layout T) (s : Sys T) (b : Word) : Prop :=
  ∃ u c, s.saved u = some c ∧ (b = L.sp u ∨ b ∈ addrs (c.sp - 64) 16)

inductive Event (T : Type)
  | create (u : T) (tentry parameter stackAddr texit : Word)
  | switchTo (u : T)
  | run
  | switch (u : T)
  | irqEnter
  | isr
  | request (u : T)
  | irqExit

/-- The events that are the routines' own work. -/
def Event.Routine : Event T → Prop
  | .create _ _ _ _ _ => False
  | .run => False
  | .isr => False
  | _ => True

/-- The events at whose end a thread goes on from where it was left. -/
def Event.Resumes : Event T → Prop
  | .switchTo _ => True
  | .switch _ => True
  | .irqExit => True
  | _ => False

/-- A routine is one step, since it runs with interrupts masked. -/
inductive Step [DecidableEq T] (L : Layout T) : Event T → Sys T → Sys T → Prop
  /-- `thread->sp = rt_hw_stack_init(..)`. -/
  | create {s : Sys T} {u : T} {tentry parameter stackAddr texit : Word}
      (hroom : L.Room u (stackAddr + 4)) :
      Step L (.create u tentry parameter stackAddr texit) s
        { m := { s.m with mem :=
            let x := rtHwStackInit tentry parameter stackAddr texit s.m.mem
            Function.update x.1 (L.sp u) x.2 }
          phase := s.phase
          saved := Function.update s.saved u
            (some (initialContext tentry parameter stackAddr texit)) }
  /-- `rt_hw_context_switch_to(&u->sp)`, which gives up what is running. -/
  | switchTo {s : Sys T} {u : T} (hphase : ¬ s.phase.Serving) (hmask : s.m.cpsr &&& I_BIT ≠ 0)
      (hto : s.m.r 0 = L.sp u) (hcurrent : s.phase.current ≠ some u) (hsaved : s.saved u ≠ none) :
      Step L (.switchTo u) s
        { m := exec rtHwContextSwitchTo s.m
          phase := .running u
          saved := Function.update s.saved u none }
  /-- Any code outside interrupts. -/
  | run {s : Sys T} {m : Machine} (hphase : ¬ s.phase.Serving) (hsvc : m.Svc)
      (hirq : m.irq.sp = s.m.irq.sp) (hflag : m.mem L.globals.flag = s.m.mem L.globals.flag)
      (hmem : ∀ b, Protected L s b → m.mem b = s.m.mem b) :
      Step L .run s { s with m := m }
  /-- `rt_hw_context_switch(&t->sp, &u->sp)`, called in `t`. -/
  | switch {s : Sys T} {t u : T} (hphase : s.phase = .running t) (hmask : s.m.cpsr &&& I_BIT ≠ 0)
      (hfrom : s.m.r 0 = L.sp t) (hto : s.m.r 1 = L.sp u) (hroom : L.Room t s.m.svc.sp)
      (hsaved : u = t ∨ s.saved u ≠ none) :
      Step L (.switch u) s
        { m := exec rtHwContextSwitch s.m
          phase := .running u
          saved := Function.update (Function.update s.saved t (some (callContext s.m))) u none }
  /-- An IRQ in `t`, with the program counter at an instruction of the current set. -/
  | irqEnter {s : Sys T} {t : T} {vector : Word} (hphase : s.phase = .running t)
      (hmask : s.m.cpsr &&& I_BIT = 0) (hpc : branchTo s.m.cpsr s.m.pc = s.m.pc) :
      Step L .irqEnter s
        { s with
          m := exec vectorIrqEnter (s.m.takeIrq vector)
          phase := .serving t (context s.m) none }
  /-- Any code that `vector_irq` calls. -/
  | isr {s : Sys T} {t : T} {c : Ctx} {asked : Option T} {m : Machine}
      (hphase : s.phase = .serving t c asked) (hirq : m.Irq)
      (hsvc : m.svc.sp = s.m.svc.sp ∧ m.svc.lr = s.m.svc.lr) (hspsr : m.irq.spsr = s.m.irq.spsr)
      (hglobals : ∀ b ∈ [L.globals.flag, L.globals.fromThread, L.globals.toThread],
        m.mem b = s.m.mem b)
      (hstack : ∀ b ∈ addrs (L.irqTop - 56) 14, m.mem b = s.m.mem b)
      (hmem : ∀ b, Protected L s b → m.mem b = s.m.mem b) :
      Step L .isr s { s with m := m }
  /-- `rt_hw_context_switch_interrupt(from, &u->sp)`, where `from` is what was asked for before. -/
  | request {s : Sys T} {t u : T} {c : Ctx} {asked : Option T} (hphase : s.phase = .serving t c asked)
      (hfrom : s.m.r 0 = L.sp (asked.getD t)) (hto : s.m.r 1 = L.sp u)
      (hsaved : u = t ∨ s.saved u ≠ none) :
      Step L (.request u) s
        { s with
          m := rtHwContextSwitchInterrupt L.globals s.m
          phase := .serving t c (some u) }
  /-- `vector_irq` once its calls have returned. -/
  | irqExit {s : Sys T} {t : T} {c : Ctx} {asked : Option T} (hphase : s.phase = .serving t c asked)
      (hsp : s.m.irq.sp = L.irqTop - 56) (hroom : asked ≠ none → L.Room t c.sp) :
      Step L .irqExit s
        { m := vectorIrqExit L.globals s.m
          phase := .running (asked.getD t)
          saved := Function.update (Function.update s.saved t (some c)) (asked.getD t) none }

/-! ## The invariant -/

/-- The thread `u` is set aside at the context `c`. -/
structure Suspended (L : Layout T) (mem : Memory) (u : T) (c : Ctx) : Prop where
  sp : mem (L.sp u) = c.sp - 64
  framed : Framed mem (c.sp - 64) c
  room : L.Room u c.sp
  svc : c.cpsr &&& MODE_MASK = MODE_SVC

/-- No interrupt is being served. -/
structure Quiet (L : Layout T) (m : Machine) : Prop where
  svc : m.Svc
  irq : m.irq.sp = L.irqTop
  flag : m.mem L.globals.flag = 0

/-- What has been asked for, in the interrupt of `t`. -/
def Requested (L : Layout T) (s : Sys T) (t : T) : Option T → Prop
  | none => s.m.mem L.globals.flag = 0
  | some u => s.m.mem L.globals.flag = 1 ∧ s.m.mem L.globals.fromThread = L.sp t ∧
      s.m.mem L.globals.toThread = L.sp u ∧ (u = t ∨ s.saved u ≠ none)

/-- An interrupt is being served that found a thread at `c`. -/
structure Served (L : Layout T) (m : Machine) (c : Ctx) : Prop where
  irq : m.Irq
  sp : c.sp = m.svc.sp
  lr : c.lr = m.svc.lr
  cpsr : c.cpsr = m.irq.spsr
  words : load m.mem (L.irqTop - 56) 14 = List.ofFn c.r ++ [c.pc + 4]
  pc : branchTo c.cpsr c.pc = c.pc
  svc : c.cpsr &&& MODE_MASK = MODE_SVC

structure Inv (L : Layout T) (s : Sys T) : Prop where
  suspended : ∀ u c, s.saved u = some c → Suspended L s.m.mem u c
  quiet : ¬ s.phase.Serving → Quiet L s.m
  served : ∀ t c asked, s.phase = .serving t c asked → Served L s.m c ∧ Requested L s t asked

/-- What the threads see of a step. -/
structure Seamless [DecidableEq T] (L : Layout T) (e : Event T) (s s' : Sys T) : Prop where
  resumed : e.Resumes → ∀ u, s'.phase = .running u → s.recorded u = some (context s'.m)
  untouched : e.Routine → ∀ u b, s.phase.current ≠ some u → L.owner b = some (.stack u) →
    s'.m.mem b = s.m.mem b
  irq : ¬ s'.phase.Serving → s'.m.irq.sp = L.irqTop
  flag : ¬ s'.phase.Serving → s'.m.mem L.globals.flag = 0

/-! ## Threads set aside -/

theorem Layout.Room.not_mem {b : Word} {a : Word} (h : L.Room t a)
    (hb : L.owner b ≠ some (.stack t)) : b ∉ addrs (a - 64) 16 :=
  fun hin => hb (h b hin)

theorem Suspended.congr {mem mem' : Memory} (h : Suspended L mem u c)
    (hmem : ∀ b, b = L.sp u ∨ b ∈ addrs (c.sp - 64) 16 → mem' b = mem b) :
    Suspended L mem' u c where
  sp := (hmem _ (.inl rfl)).trans h.sp
  framed := h.framed.congr fun b hb => hmem b (.inr hb)
  room := h.room
  svc := h.svc

/-- The words of a thread set aside are those of its own. -/
theorem Suspended.of_owned {mem mem' : Memory} (h : Suspended L mem u c)
    (hmem : ∀ b, L.owner b = some (.sp u) ∨ L.owner b = some (.stack u) → mem' b = mem b) :
    Suspended L mem' u c := by
  refine h.congr fun b hb => hmem b ?_
  rcases hb with rfl | hb
  · exact .inl (L.owner_sp u)
  · exact .inr (h.room b hb)

theorem saveFrame_owned {mem : Memory} {p b : Word} (hroom : L.Room t c.sp)
    (hsp : L.owner b ≠ some (.sp t)) (hstack : L.owner b ≠ some (.stack t)) :
    saveFrame mem (L.sp t) c p b = mem b := by
  refine saveFrame_other ?_ (hroom.not_mem hstack)
  rintro rfl
  exact hsp (L.owner_sp t)

/-! ## Threads and handlers -/

theorem Served.congr {m m' : Machine} (h : Served L m c) (hirq : m'.Irq)
    (hsvc : m'.svc.sp = m.svc.sp ∧ m'.svc.lr = m.svc.lr) (hspsr : m'.irq.spsr = m.irq.spsr)
    (hstack : ∀ b ∈ addrs (L.irqTop - 56) 14, m'.mem b = m.mem b) : Served L m' c where
  irq := hirq
  sp := h.sp.trans hsvc.1.symm
  lr := h.lr.trans hsvc.2.symm
  cpsr := h.cpsr.trans hspsr.symm
  words := (load_congr hstack).trans h.words
  pc := h.pc
  svc := h.svc

theorem Requested.congr {asked : Option T} (h : Requested L s t asked)
    (hglobals : ∀ b ∈ [L.globals.flag, L.globals.fromThread, L.globals.toThread],
      s'.m.mem b = s.m.mem b)
    (hsaved : ∀ u, s.saved u ≠ none → s'.saved u ≠ none) : Requested L s' t asked := by
  simp only [List.mem_cons, List.not_mem_nil, or_false, forall_eq_or_imp, forall_eq] at hglobals
  rcases hglobals with ⟨hflag, hfrom, hto⟩
  cases asked with
  | none => exact hflag.trans h
  | some u =>
      rcases h with ⟨hf, hfr, ht, hu⟩
      exact ⟨hflag.trans hf, hfrom.trans hfr, hto.trans ht, hu.imp_right (hsaved u)⟩

theorem Inv.run (h : Inv L s) {m : Machine} (hphase : ¬ s.phase.Serving) (hsvc : m.Svc)
    (hirq : m.irq.sp = s.m.irq.sp) (hflag : m.mem L.globals.flag = s.m.mem L.globals.flag)
    (hmem : ∀ b, Protected L s b → m.mem b = s.m.mem b) : Inv L { s with m := m } where
  suspended u c hc := (h.suspended u c hc).congr fun b hb => hmem b ⟨u, c, hc, hb⟩
  quiet _ :=
    have hq := h.quiet hphase
    ⟨hsvc, hirq.trans hq.irq, hflag.trans hq.flag⟩
  served t c asked hserving := by
    have hserving' : s.phase = .serving t c asked := hserving
    exact absurd (by rw [hserving']; trivial) hphase

theorem Inv.isr (h : Inv L s) {asked : Option T} {m : Machine}
    (hphase : s.phase = .serving t c asked) (hirq : m.Irq)
    (hsvc : m.svc.sp = s.m.svc.sp ∧ m.svc.lr = s.m.svc.lr) (hspsr : m.irq.spsr = s.m.irq.spsr)
    (hglobals : ∀ b ∈ [L.globals.flag, L.globals.fromThread, L.globals.toThread],
      m.mem b = s.m.mem b)
    (hstack : ∀ b ∈ addrs (L.irqTop - 56) 14, m.mem b = s.m.mem b)
    (hmem : ∀ b, Protected L s b → m.mem b = s.m.mem b) : Inv L { s with m := m } where
  suspended u c hc := (h.suspended u c hc).congr fun b hb => hmem b ⟨u, c, hc, hb⟩
  quiet hquiet := by
    rw [hphase] at hquiet
    exact absurd trivial hquiet
  served t' c' asked' hserving :=
    have hs := h.served t' c' asked' hserving
    ⟨hs.1.congr hirq hsvc hspsr hstack, hs.2.congr hglobals fun _ hu => hu⟩

/-! ## Interrupts: entry and requests -/

theorem Layout.not_mem_irqStack {b : Word} (L : Layout T) (hb : L.owner b ≠ some .irqStack) :
    b ∉ addrs (L.irqTop - 56) 14 :=
  fun hin => hb (L.owner_irqStack b hin)

theorem Layout.not_mem_globals {b : Word} (L : Layout T)
    (hb : (∃ t, L.owner b = some (.sp t) ∨ L.owner b = some (.stack t)) ∨
      L.owner b = some .irqStack) :
    b ∉ [L.globals.flag, L.globals.fromThread, L.globals.toThread] := by
  intro hin
  simp only [List.mem_cons, List.not_mem_nil, or_false] at hin
  rcases hin with rfl | rfl | rfl <;>
    simp [L.owner_flag, L.owner_fromThread, L.owner_toThread] at hb

theorem irqEnter_mem {b : Word} (hq : Quiet L s.m) (hb : L.owner b ≠ some .irqStack)
    (vector : Word) : (exec vectorIrqEnter (s.m.takeIrq vector)).mem b = s.m.mem b := by
  rcases exec_vectorIrqEnter s.m vector with ⟨-, -, -, hmem⟩
  rw [hmem, hq.irq]
  refine store_outside ?_
  rw [List.length_append, List.length_ofFn]
  exact L.not_mem_irqStack hb

theorem Inv.irqEnter (h : Inv L s) (hphase : s.phase = .running t)
    (hpc : branchTo s.m.cpsr s.m.pc = s.m.pc) (vector : Word) :
    Inv L { s with
      m := exec vectorIrqEnter (s.m.takeIrq vector)
      phase := .serving t (context s.m) none } := by
  have hq : Quiet L s.m := h.quiet (by simp [hphase, Phase.Serving])
  rcases exec_vectorIrqEnter s.m vector with ⟨hirq, hsvc, hbank, hmem⟩
  rw [hq.irq] at hmem
  constructor
  · intro u c hc
    refine (h.suspended u c hc).of_owned fun b hb => irqEnter_mem hq ?_ vector
    rcases hb with hb | hb <;> simp [hb]
  · exact fun hquiet => absurd trivial hquiet
  · intro t' c asked hserving
    cases hserving
    constructor
    · refine ⟨hirq, congrArg Bank.sp hsvc.symm, congrArg Bank.lr hsvc.symm,
        (congrArg Bank.spsr hbank).symm, ?_, hpc, hq.svc⟩
      rw [hmem]
      have hlength : (List.ofFn s.m.r ++ [s.m.pc + 4]).length ≤ 2 ^ 30 := by
        rw [List.length_append, List.length_ofFn]
        exact (by decide : 14 ≤ 2 ^ 30)
      exact load_store hlength
    · exact (irqEnter_mem hq (by simp [L.owner_flag]) vector).trans hq.flag

/-- What a request leaves in memory, whether it is the first or a further one. -/
theorem request_mem (h : Inv L s) {asked : Option T} (hphase : s.phase = .serving t c asked)
    (hfrom : s.m.r 0 = L.sp (asked.getD t)) (hto : s.m.r 1 = L.sp u) :
    ∃ r mem, rtHwContextSwitchInterrupt L.globals s.m = { s.m with r := r, mem := mem } ∧
      mem L.globals.flag = 1 ∧ mem L.globals.fromThread = L.sp t ∧
      mem L.globals.toThread = L.sp u ∧
      ∀ b, b ∉ [L.globals.flag, L.globals.fromThread, L.globals.toThread] →
        mem b = s.m.mem b := by
  have hrequested := (h.served t c asked hphase).2
  have hne : L.globals.flag ≠ L.globals.fromThread ∧ L.globals.flag ≠ L.globals.toThread ∧
      L.globals.fromThread ≠ L.globals.toThread := by
    refine ⟨fun heq => ?_, fun heq => ?_, fun heq => ?_⟩
    · simpa [heq, L.owner_fromThread] using L.owner_flag
    · simpa [heq, L.owner_toThread] using L.owner_flag
    · simpa [heq, L.owner_toThread] using L.owner_fromThread
  cases asked with
  -- The first request names both threads and raises the flag.
  | none =>
      have hflag : s.m.mem L.globals.flag ≠ 1 := by
        rw [show s.m.mem L.globals.flag = 0 from hrequested]
        decide
      rcases rtHwContextSwitchInterrupt_first hflag with ⟨r, hr⟩
      refine ⟨r, _, hr, ?_, ?_, ?_, fun b hb => ?_⟩
      · rw [Function.update_of_ne hne.2.1, Function.update_self]
      · rw [Function.update_of_ne hne.2.2, Function.update_of_ne hne.1.symm, Function.update_self]
        exact hfrom
      · rw [Function.update_self]
        exact hto
      · simp only [List.mem_cons, List.not_mem_nil, or_false, not_or] at hb
        rw [Function.update_of_ne hb.2.2, Function.update_of_ne hb.1, Function.update_of_ne hb.2.1]
  -- A later one leaves the thread that is switched from.
  | some v =>
      rcases hrequested with ⟨hflag, hfr, -, -⟩
      rcases rtHwContextSwitchInterrupt_again hflag with ⟨r, hr⟩
      refine ⟨r, _, hr, ?_, ?_, ?_, fun b hb => ?_⟩
      · rw [Function.update_of_ne hne.2.1]
        exact hflag
      · rw [Function.update_of_ne hne.2.2]
        exact hfr
      · rw [Function.update_self]
        exact hto
      · simp only [List.mem_cons, List.not_mem_nil, or_false, not_or] at hb
        rw [Function.update_of_ne hb.2.2]

theorem Inv.request (h : Inv L s) {asked : Option T} (hphase : s.phase = .serving t c asked)
    (hfrom : s.m.r 0 = L.sp (asked.getD t)) (hto : s.m.r 1 = L.sp u)
    (hsaved : u = t ∨ s.saved u ≠ none) :
    Inv L { s with
      m := rtHwContextSwitchInterrupt L.globals s.m
      phase := .serving t c (some u) } := by
  rcases request_mem h hphase hfrom hto with ⟨r, mem, hexec, hflag, hfr, ht, hother⟩
  rw [hexec]
  constructor
  · intro v d hd
    exact (h.suspended v d hd).of_owned fun b hb => hother b (L.not_mem_globals (.inl ⟨v, hb⟩))
  · exact fun hquiet => absurd trivial hquiet
  · intro t' c' asked' hserving
    cases hserving
    have hserved := (h.served t c asked hphase).1
    refine ⟨hserved.congr hserved.irq ⟨rfl, rfl⟩ rfl fun b hb => ?_, hflag, hfr, ht, hsaved⟩
    exact hother b (L.not_mem_globals (.inr (L.owner_irqStack b hb)))

theorem Inv.of_quiet {m : Machine} {saved : T → Option Ctx}
    (h : ∀ u d, saved u = some d → Suspended L m.mem u d) (hq : Quiet L m) :
    Inv L ⟨m, .running u, saved⟩ where
  suspended := h
  quiet _ := hq
  served _ _ _ hphase := nomatch hphase

/-! ## Leaving a thread and going on -/

section

variable [DecidableEq T]

/-- Saving the context of `t` sets it aside and disturbs no other thread. -/
theorem suspended_saveFrame {mem : Memory} {saved : T → Option Ctx} {p : Word}
    (h : ∀ u d, saved u = some d → Suspended L mem u d) (hroom : L.Room t c.sp)
    (hpc : branchTo c.cpsr p = c.pc) (hsvc : c.cpsr &&& MODE_MASK = MODE_SVC) :
    ∀ u d, Function.update saved t (some c) u = some d →
      Suspended L (saveFrame mem (L.sp t) c p) u d := by
  intro u d hd
  by_cases hu : u = t
  · subst hu
    rw [Function.update_self] at hd
    cases hd
    have hslot : L.sp u ∉ addrs (c.sp - 64) 16 := hroom.not_mem (by simp [L.owner_sp])
    exact ⟨saveFrame_slot _ _ _ _, framed_saveFrame hpc hslot, hroom, hsvc⟩
  · rw [Function.update_of_ne hu] at hd
    refine (h u d hd).of_owned fun b hb => saveFrame_owned hroom ?_ ?_
    · rcases hb with hb | hb <;> simp [hb, hu]
    · rcases hb with hb | hb <;> simp [hb, hu]

theorem suspended_update_none {mem : Memory} {saved : T → Option Ctx}
    (h : ∀ u d, saved u = some d → Suspended L mem u d) :
    ∀ u' d, Function.update saved u none u' = some d → Suspended L mem u' d := by
  intro u' d hd
  by_cases hu : u' = u
  · subst hu
    rw [Function.update_self] at hd
    cases hd
  · rw [Function.update_of_ne hu] at hd
    exact h u' d hd

/-- The state once `u` goes on. -/
theorem Inv.of_resume {m : Machine} {saved : T → Option Ctx}
    (h : ∀ u d, saved u = some d → Suspended L m.mem u d) (hc : saved u = some c)
    (hirq : m.irq.sp = L.irqTop) (hflag : m.mem L.globals.flag = 0) :
    Inv L ⟨resume m c, .running u, Function.update saved u none⟩ :=
  .of_quiet (suspended_update_none h) ⟨(h u c hc).svc, hirq, hflag⟩

theorem exists_recorded {saved : T → Option Ctx} (hsaved : u = t ∨ saved u ≠ none) :
    ∃ d, Function.update saved t (some c) u = some d := by
  by_cases hu : u = t
  · exact ⟨c, by rw [hu, Function.update_self]⟩
  · rw [Function.update_of_ne hu]
    exact Option.ne_none_iff_exists'.1 (hsaved.resolve_left hu)

theorem Inv.create (h : Inv L s) {tentry parameter stackAddr texit : Word}
    (hroom : L.Room u (stackAddr + 4)) :
    let x := rtHwStackInit tentry parameter stackAddr texit s.m.mem
    Inv L { m := { s.m with mem := Function.update x.1 (L.sp u) x.2 }
            phase := s.phase
            saved := Function.update s.saved u
              (some (initialContext tentry parameter stackAddr texit)) } := by
  intro x
  have hmem : Function.update x.1 (L.sp u) x.2 =
      saveFrame s.m.mem (L.sp u) (initialContext tentry parameter stackAddr texit) tentry :=
    rtHwStackInit_eq tentry parameter stackAddr texit (L.sp u) s.m.mem
  -- The frame of a new thread lies on its own stack, where nobody else has anything.
  have hother : ∀ b, L.owner b ≠ some (.sp u) → L.owner b ≠ some (.stack u) →
      Function.update x.1 (L.sp u) x.2 b = s.m.mem b := by
    rw [hmem]
    exact fun b => saveFrame_owned hroom
  have hglobals : ∀ b ∈ [L.globals.flag, L.globals.fromThread, L.globals.toThread],
      Function.update x.1 (L.sp u) x.2 b = s.m.mem b := by
    intro b hb
    simp only [List.mem_cons, List.not_mem_nil, or_false] at hb
    apply hother <;> rcases hb with rfl | rfl | rfl <;>
      simp [L.owner_flag, L.owner_fromThread, L.owner_toThread]
  constructor
  · rw [hmem]
    exact suspended_saveFrame h.suspended hroom rfl (initialContext_svc _ _ _ _)
  · intro hphase
    have hq := h.quiet hphase
    exact ⟨hq.svc, hq.irq, (hglobals _ (List.mem_cons_self ..)).trans hq.flag⟩
  · intro t c asked hphase
    rcases h.served t c asked hphase with ⟨hserved, hrequested⟩
    constructor
    · refine hserved.congr hserved.irq ⟨rfl, rfl⟩ rfl fun b hb => hother b ?_ ?_ <;>
        simp [L.owner_irqStack b hb]
    · refine hrequested.congr hglobals fun v hv => ?_
      by_cases hvu : v = u
      · simp [hvu]
      · simpa [hvu] using hv

theorem Inv.switchTo (h : Inv L s) (hphase : ¬ s.phase.Serving) (hto : s.m.r 0 = L.sp u)
    (hc : s.saved u = some c) :
    exec rtHwContextSwitchTo s.m = resume s.m c ∧
      Inv L ⟨resume s.m c, .running u, Function.update s.saved u none⟩ := by
  have hq := h.quiet hphase
  have hs := h.suspended u c hc
  refine ⟨exec_rtHwContextSwitchTo hq.svc ?_, .of_resume h.suspended hc hq.irq hq.flag⟩
  rw [hto, hs.sp]
  exact hs.framed

theorem Inv.switch (h : Inv L s) (hphase : s.phase = .running t) (hfrom : s.m.r 0 = L.sp t)
    (hto : s.m.r 1 = L.sp u) (hroom : L.Room t s.m.svc.sp)
    (hc : Function.update s.saved t (some (callContext s.m)) u = some c) :
    let mem := saveFrame s.m.mem (L.sp t) (callContext s.m) s.m.svc.lr
    exec rtHwContextSwitch s.m = resume { s.m with mem := mem } c ∧
      Inv L ⟨resume { s.m with mem := mem } c, .running u,
        Function.update (Function.update s.saved t (some (callContext s.m))) u none⟩ := by
  intro mem
  have hq : Quiet L s.m := h.quiet (by simp [hphase, Phase.Serving])
  have hsusp := suspended_saveFrame (p := s.m.svc.lr) h.suspended (c := callContext s.m) hroom rfl
    (callPsr_svc hq.svc)
  have hs : Suspended L mem u c := hsusp u c hc
  constructor
  · refine exec_rtHwContextSwitch hq.svc (by rw [hfrom]) ?_
    rw [hto, hs.sp]
    exact hs.framed
  · refine .of_resume hsusp hc hq.irq ?_
    exact (saveFrame_owned hroom (by simp [L.owner_flag]) (by simp [L.owner_flag])).trans hq.flag

/-! ## Interrupts: exit -/

/-- An interrupt that has asked for nothing. -/
theorem Inv.irqReturn (h : Inv L s) (hphase : s.phase = .serving t c none)
    (hsp : s.m.irq.sp = L.irqTop - 56) :
    context (vectorIrqExit L.globals s.m) = c ∧ (vectorIrqExit L.globals s.m).mem = s.m.mem ∧
      Inv L ⟨vectorIrqExit L.globals s.m, .running t, Function.update s.saved t none⟩ := by
  rcases h.served t c none hphase with ⟨hserved, hflag⟩
  have hne : s.m.mem L.globals.flag ≠ 1 := by
    rw [show s.m.mem L.globals.flag = 0 from hflag]
    decide
  have hexit := vectorIrqExit_return hserved.irq (by rw [hsp]; exact hserved.words) hne
  have hcontext : context (vectorIrqExit L.globals s.m) = c := by
    rw [hexit, BitVec.add_sub_cancel, ← hserved.cpsr, hserved.pc]
    change (⟨c.r, s.m.svc.sp, s.m.svc.lr, c.pc, c.cpsr⟩ : Ctx) = c
    rw [← hserved.sp, ← hserved.lr]
  have hmem : (vectorIrqExit L.globals s.m).mem = s.m.mem := by
    rw [hexit]
  have hirq : (vectorIrqExit L.globals s.m).irq.sp = L.irqTop := by
    rw [hexit]
    change s.m.irq.sp + 56 = L.irqTop
    rw [hsp, BitVec.sub_add_cancel]
  have hsvc : (vectorIrqExit L.globals s.m).Svc :=
    (congrArg (Ctx.cpsr · &&& MODE_MASK) hcontext).trans hserved.svc
  refine ⟨hcontext, hmem, .of_quiet ?_ ⟨hsvc, hirq, ?_⟩⟩
  · rw [hmem]
    exact suspended_update_none h.suspended
  · rw [hmem]
    exact hflag

/-- An interrupt that has asked for `u` last. -/
theorem Inv.irqSwitch (h : Inv L s) (hphase : s.phase = .serving t c (some u))
    (hsp : s.m.irq.sp = L.irqTop - 56) (hroom : L.Room t c.sp)
    (hd : Function.update s.saved t (some c) u = some d) :
    ∃ m, vectorIrqExit L.globals s.m = resume m d ∧
      m.mem = saveFrame (Function.update s.m.mem L.globals.flag 0) (L.sp t) c c.pc ∧
      Inv L ⟨resume m d, .running u,
        Function.update (Function.update s.saved t (some c)) u none⟩ := by
  rcases h.served t c (some u) hphase with ⟨hserved, hflag, hfrom, hto, -⟩
  have hclear : ∀ v e, s.saved v = some e →
      Suspended L (Function.update s.m.mem L.globals.flag 0) v e := by
    intro v e he
    refine (h.suspended v e he).of_owned fun b hb => Function.update_of_ne ?_ _ _
    rintro rfl
    simp [L.owner_flag] at hb
  -- The flag is cleared first, and then the frame goes onto the stack of `t`.
  let mem := saveFrame (Function.update s.m.mem L.globals.flag 0) (L.sp t) c c.pc
  have hsusp : ∀ v e, Function.update s.saved t (some c) v = some e → Suspended L mem v e :=
    suspended_saveFrame hclear hroom hserved.pc hserved.svc
  have hne : L.globals.fromThread ≠ L.globals.flag ∧ L.globals.toThread ≠ L.globals.flag := by
    refine ⟨fun heq => ?_, fun heq => ?_⟩
    · simpa [heq, L.owner_flag] using L.owner_fromThread
    · simpa [heq, L.owner_flag] using L.owner_toThread
  have hmemto : mem L.globals.toThread = L.sp u := by
    calc mem L.globals.toThread
        = Function.update s.m.mem L.globals.flag 0 L.globals.toThread :=
          saveFrame_owned hroom (by simp [L.owner_toThread]) (by simp [L.owner_toThread])
      _ = s.m.mem L.globals.toThread := Function.update_of_ne hne.2 _ _
      _ = L.sp u := hto
  have hmemflag : mem L.globals.flag = 0 := by
    calc mem L.globals.flag
        = Function.update s.m.mem L.globals.flag 0 L.globals.flag :=
          saveFrame_owned hroom (by simp [L.owner_flag]) (by simp [L.owner_flag])
      _ = 0 := Function.update_self _ _ _
  -- The four words that are taken from the interrupt stack lie beside the frame.
  have hlow : ∀ b ∈ addrs (L.irqTop - 56) 4, b ∉ addrs (c.sp - 64) 16 := by
    intro b hb
    have hall : b ∈ addrs (L.irqTop - 56) 14 := by
      rw [addrs_add _ 4 10]
      exact List.mem_append_left _ hb
    exact hroom.not_mem (by simp [L.owner_irqStack b hall])
  have hframe : Framed mem (mem (mem L.globals.toThread)) d := by
    have hs := hsusp u d hd
    rw [hmemto, hs.sp]
    exact hs.framed
  rcases vectorIrqExit_switch (G := L.globals) (c := c) hserved.irq
      ⟨hserved.sp, hserved.lr, hserved.cpsr⟩ (by rw [hsp]; exact hserved.words) hflag
      (by rw [hsp]; exact L.not_mem_irqStack (by simp [L.owner_flag])) (by rw [hsp]; exact hlow)
      ⟨hne.1, hroom.not_mem (by simp [L.owner_fromThread])⟩ (by rw [hfrom]) hframe with
    ⟨m, hexit, hm, hirq⟩
  refine ⟨m, hexit, hm, .of_resume (by rw [hm]; exact hsusp) hd ?_ (by rw [hm]; exact hmemflag)⟩
  rw [hirq, hsp, BitVec.sub_add_cancel]

/-! ## Runs -/

theorem Inv.seamless {e : Event T} (h' : Inv L s')
    (hresumed : e.Resumes → ∀ u, s'.phase = .running u → s.recorded u = some (context s'.m))
    (huntouched : e.Routine → ∀ u b, s.phase.current ≠ some u → L.owner b = some (.stack u) →
      s'.m.mem b = s.m.mem b) : Inv L s' ∧ Seamless L e s s' :=
  ⟨h', hresumed, huntouched, fun hphase => (h'.quiet hphase).irq,
    fun hphase => (h'.quiet hphase).flag⟩

theorem recorded_eq_saved (hphase : ¬ s.phase.Serving) (hcurrent : s.phase.current ≠ some u) :
    s.recorded u = s.saved u := by
  unfold Sys.recorded
  cases hs : s.phase with
  | boot => rfl
  | running t =>
      rw [hs] at hcurrent
      refine Function.update_of_ne ?_ _ _
      rintro rfl
      exact hcurrent rfl
  | serving t c asked =>
      rw [hs] at hphase
      exact absurd trivial hphase

theorem recorded_running (hphase : s.phase = .running t) :
    s.recorded = Function.update s.saved t (some (callContext s.m)) := by
  unfold Sys.recorded
  rw [hphase]

theorem recorded_serving {asked : Option T} (hphase : s.phase = .serving t c asked) :
    s.recorded = Function.update s.saved t (some c) := by
  unfold Sys.recorded
  rw [hphase]

theorem Inv.step {e : Event T} (h : Inv L s) (hstep : Step L e s s') :
    Inv L s' ∧ Seamless L e s s' := by
  cases hstep with
  | create hroom => exact (h.create hroom).seamless False.elim False.elim
  | switchTo hphase hmask hto hcurrent hsaved =>
      rcases Option.ne_none_iff_exists'.1 hsaved with ⟨c, hc⟩
      rcases h.switchTo hphase hto hc with ⟨hexec, hinv⟩
      rw [hexec]
      refine hinv.seamless (fun _ v hv => ?_) fun _ _ _ _ _ => rfl
      cases hv
      exact (recorded_eq_saved hphase hcurrent).trans hc
  | run hphase hsvc hirq hflag hmem =>
      exact (h.run hphase hsvc hirq hflag hmem).seamless False.elim False.elim
  | @switch _ t u hphase hmask hfrom hto hroom hsaved =>
      rcases exists_recorded (c := callContext s.m) hsaved with ⟨d, hd⟩
      rcases h.switch hphase hfrom hto hroom hd with ⟨hexec, hinv⟩
      rw [hexec]
      refine hinv.seamless (fun _ v hv => ?_) fun _ v b hv hb => ?_
      · cases hv
        rw [recorded_running hphase]
        exact hd
      · have hne : v ≠ t := by
          rintro rfl
          exact hv (by rw [hphase]; rfl)
        exact saveFrame_owned (c := callContext s.m) hroom (by simp [hb]) (by simp [hb, hne])
  | @irqEnter _ t vector hphase hmask hpc =>
      refine (h.irqEnter hphase hpc vector).seamless False.elim fun _ v b _ hb => ?_
      exact irqEnter_mem (h.quiet (by simp [hphase, Phase.Serving])) (by simp [hb]) vector
  | isr hphase hirq hsvc hspsr hglobals hstack hmem =>
      exact (h.isr hphase hirq hsvc hspsr hglobals hstack hmem).seamless False.elim False.elim
  | request hphase hfrom hto hsaved =>
      refine (h.request hphase hfrom hto hsaved).seamless False.elim fun _ v b _ hb => ?_
      rcases request_mem h hphase hfrom hto with ⟨r, mem, hexec, -, -, -, hother⟩
      rw [hexec]
      exact hother b (L.not_mem_globals (.inl ⟨v, .inr hb⟩))
  | @irqExit _ t c asked hphase hsp hroom =>
      -- Without a request the thread goes on; with one, the thread asked for last does.
      cases asked with
      | none =>
          rcases h.irqReturn hphase hsp with ⟨hcontext, hmem, hinv⟩
          rw [Option.getD_none, Function.update_idem]
          refine hinv.seamless (fun _ v hv => ?_) fun _ v b _ _ => congrFun hmem b
          cases hv
          rw [recorded_serving hphase, Function.update_self, hcontext]
      | some u =>
          rcases h.served t c (some u) hphase with ⟨-, -, -, -, hsaved⟩
          rcases exists_recorded (c := c) hsaved with ⟨d, hd⟩
          have hroom := hroom (Option.some_ne_none u)
          rcases h.irqSwitch hphase hsp hroom hd with ⟨m, hexit, hmem, hinv⟩
          rw [hexit, Option.getD_some]
          refine hinv.seamless (fun _ v hv => ?_) fun _ v b hv hb => ?_
          · cases hv
            rw [recorded_serving hphase]
            exact hd
          · have hne : v ≠ t := by
              rintro rfl
              exact hv (by rw [hphase]; rfl)
            have hflag : b ≠ L.globals.flag := by
              rintro rfl
              simp [L.owner_flag] at hb
            calc (resume m d).mem b
                = saveFrame (Function.update s.m.mem L.globals.flag 0) (L.sp t) c c.pc b :=
                  congrFun hmem b
              _ = Function.update s.m.mem L.globals.flag 0 b :=
                  saveFrame_owned hroom (by simp [hb]) (by simp [hb, hne])
              _ = s.m.mem b := Function.update_of_ne hflag _ _

end

/-- Before the first thread. -/
structure Initial (L : Layout T) (s : Sys T) : Prop where
  boot : s.phase = .boot
  saved : ∀ t, s.saved t = none
  quiet : Quiet L s.m

theorem Initial.inv (h : Initial L s) : Inv L s where
  suspended u c hc := by
    rw [h.saved u] at hc
    cases hc
  quiet _ := h.quiet
  served t c asked hphase := by
    rw [h.boot] at hphase
    cases hphase

/-- In every run a thread goes on, whenever it is resumed, in the context in which it was set aside,
no switch touches the stack of another thread, and outside interrupts the IRQ stack is empty and the
flag cleared. -/
theorem seamless_of_run [DecidableEq T] {s₀ : Sys T} {e : Event T} (hinit : Initial L s₀)
    (hrun : RunUnder (Step L) (fun _ _ => True) s₀ s) (hstep : Step L e s s') :
    Seamless L e s s' := by
  have hinv : Inv L s :=
    hrun.invariant (fun e s s' h _ hstep => (h.step hstep).1) hinit.inv
  exact (hinv.step hstep).2

/-- Two threads, with a page for each stack and one for the IRQ stack. -/
def twoThreadsOwner (b : Word) : Option (Owner Bool) :=
  if b = 0x1000 then some .flag
  else if b = 0x1004 then some .fromThread
  else if b = 0x1008 then some .toThread
  else if b = 0x2000 then some (.sp true)
  else if b = 0x3000 then some (.sp false)
  else if b >>> 12 = 4 then some (.stack true)
  else if b >>> 12 = 5 then some (.stack false)
  else if b >>> 12 = 7 then some .irqStack
  else none

theorem owned_of_all {a : Word} {n : Nat} {o : Owner Bool}
    (h : (addrs a n).all (fun b => decide (twoThreadsOwner b = some o)) = true) :
    ∀ b ∈ addrs a n, twoThreadsOwner b = some o :=
  fun b hb => of_decide_eq_true (List.all_eq_true.1 h b hb)

def twoThreads : Layout Bool where
  globals := ⟨0x1000, 0x1004, 0x1008⟩
  sp t := if t then 0x2000 else 0x3000
  irqTop := 0x8000
  owner := twoThreadsOwner
  owner_flag := by decide
  owner_fromThread := by decide
  owner_toThread := by decide
  owner_sp := by decide
  owner_irqStack := owned_of_all (by decide +kernel)

def twoThreadsBoot : Sys Bool where
  m :=
    { r := fun _ => 0x2000
      svc := ⟨0x9000, 0, 0⟩
      irq := ⟨0x8000, 0, 0⟩
      pc := 0
      cpsr := I_BIT ||| F_BIT ||| MODE_SVC
      mem := fun _ => 0 }
  phase := .boot
  saved := fun _ => none

/-- One thread is started, interrupted, and left for the other. -/
theorem seamless_of_run_preempted : ∃ s s' : Sys Bool,
    RunUnder (Step twoThreads) (fun _ _ => True) twoThreadsBoot s ∧
      Step twoThreads .irqExit s s' ∧ s'.phase = .running false ∧
      Seamless twoThreads .irqExit s s' := by
  have hinit : Initial twoThreads twoThreadsBoot :=
    ⟨rfl, fun _ => rfl, ⟨by unfold Machine.Svc; decide, rfl, rfl⟩⟩
  have hroom : twoThreads.Room false 0x6000 ∧ twoThreads.Room true 0x5000 :=
    ⟨owned_of_all (by decide +kernel), owned_of_all (by decide +kernel)⟩
  let c := initialContext 0xa000 5 0x4ffc 0xb000
  obtain ⟨s₂, hrun₂, hphase₂, hr₂, hcpsr₂, hother₂, hsaved₂⟩ : ∃ s,
      RunUnder (Step twoThreads) (fun _ _ => True) twoThreadsBoot s ∧ s.phase = .boot ∧
        s.m.r = (fun _ => 0x2000) ∧ s.m.cpsr = I_BIT ||| F_BIT ||| MODE_SVC ∧
        s.saved false ≠ none ∧ s.saved true = some c :=
    ⟨_, (RunUnder.refl.tail trivial (@Step.create Bool _ twoThreads twoThreadsBoot false 0xa001 7
        0x5ffc 0xb000 hroom.1)).tail trivial
        (@Step.create Bool _ twoThreads _ true 0xa000 5 0x4ffc 0xb000 hroom.2),
      rfl, rfl, rfl, nofun, rfl⟩
  have hinv₂ : Inv twoThreads s₂ :=
    hrun₂.invariant (fun _ _ _ h _ hstep => (h.step hstep).1) hinit.inv
  -- The first thread begins, and is interrupted at once.
  have hserving : ¬ s₂.phase.Serving := by
    rw [hphase₂]
    exact id
  have hto := Step.switchTo (L := twoThreads) hserving (by rw [hcpsr₂]; decide) (u := true)
    (by rw [hr₂]; rfl) (by rw [hphase₂]; nofun) (by rw [hsaved₂]; nofun)
  have hinv₃ := hinv₂.step hto
  have hcontext : context (exec rtHwContextSwitchTo s₂.m) = c := by
    have hresumed := hinv₃.2.resumed trivial true rfl
    rw [recorded_eq_saved hserving (by rw [hphase₂]; nofun), hsaved₂] at hresumed
    exact (Option.some.inj hresumed).symm
  have hquiet := hinv₃.1.quiet id
  have hcpsr : (exec rtHwContextSwitchTo s₂.m).cpsr = c.cpsr := congrArg Ctx.cpsr hcontext
  have hpc : (exec rtHwContextSwitchTo s₂.m).pc = c.pc := congrArg Ctx.pc hcontext
  have henter := @Step.irqEnter Bool _ twoThreads
    ⟨exec rtHwContextSwitchTo s₂.m, .running true, Function.update s₂.saved true none⟩ true 0x18
    rfl (by rw [hcpsr]; decide) (by rw [hcpsr, hpc]; decide)
  have hinv₄ := (hinv₃.1.step henter).1
  rw [hcontext] at henter hinv₄
  obtain ⟨-, hsvc, hbank, -⟩ := exec_vectorIrqEnter (exec rtHwContextSwitchTo s₂.m) 0x18
  let m₄ := exec vectorIrqEnter ((exec rtHwContextSwitchTo s₂.m).takeIrq 0x18)
  have hirq : m₄.irq.sp = 0x8000 - 56 := by
    rw [hbank, hquiet.irq]
    rfl
  -- The interrupt asks for the other.
  have hisr := Step.isr (L := twoThreads)
    (s := ⟨m₄, .serving true c none, Function.update s₂.saved true none⟩) (t := true)
    (m := { m₄ with r := fun i => if i = 0 then 0x2000 else 0x3000 }) rfl
    (hinv₄.served true c none rfl).1.irq ⟨rfl, rfl⟩ rfl (fun _ _ => rfl) (fun _ _ => rfl)
    fun _ _ => rfl
  have hinv₅ := (hinv₄.step hisr).1
  have hrequest := Step.request (L := twoThreads)
    (s := ⟨{ m₄ with r := fun i => if i = 0 then 0x2000 else 0x3000 }, .serving true c none,
      Function.update s₂.saved true none⟩) (t := true) (u := false) rfl rfl rfl
    (.inr (by simpa using hother₂))
  obtain ⟨r, mem, hmem, -⟩ := request_mem hinv₅ (t := true) (u := false) rfl rfl rfl
  rw [hmem] at hrequest
  have hexit := Step.irqExit (L := twoThreads) (t := true) (c := c)
    (s := ⟨⟨r, m₄.svc, m₄.irq, m₄.pc, m₄.cpsr, mem⟩, .serving true c (some false),
      Function.update s₂.saved true none⟩) rfl hirq fun _ => hroom.2
  have hrun := (((hrun₂.tail trivial hto).tail trivial henter).tail trivial hisr).tail trivial
    hrequest
  exact ⟨_, _, hrun, hexit, rfl, seamless_of_run hinit hrun hexit⟩

end Cpu

end BspV3s
