import Mathlib.Logic.Relation

/-!
# Program — interaction programs and their executions

A driver routine is a sequence of accesses to memory and registers in which every value read
decides what comes next.  `Prog Op Ret α` is the tree of such a routine: `Op` are the accesses,
`Ret o` is what access `o` answers, and `α` is what the routine returns.

One tree has several meanings, and this module defines the three that are used:

* `Exec`   : the routine alone against an arbitrary environment (any answer at all), as a trace;
* `Runs`   : the routine alone on a state, each access given by a relation `Sem`;
* `wp`     : the routine on a state that other agents change between its accesses.

`wp` is a rely/guarantee weakest precondition.  Its rely is indexed by the access that the routine
is about to make, so that a restriction such as "no completion while the status word is about to
be stored" can be said of the routine's control point.
-/

namespace BspV3s

/-- A routine with accesses `Op` answered in `Ret`, returning a value of type `α`. -/
inductive Prog (Op : Type) (Ret : Op → Type) (α : Type) : Type where
  | ret (a : α) : Prog Op Ret α
  | call (o : Op) (k : Ret o → Prog Op Ret α) : Prog Op Ret α

namespace Prog

variable {Op : Type} {Ret : Op → Type} {α β γ σ : Type}

/-! ## Sequencing -/

def bind : Prog Op Ret α → (α → Prog Op Ret β) → Prog Op Ret β
  | .ret a, f => f a
  | .call o k, f => .call o fun r => (k r).bind f

instance : Monad (Prog Op Ret) where
  pure := .ret
  bind := Prog.bind

/-- The routine that makes one access and returns its answer. -/
def op (o : Op) : Prog Op Ret (Ret o) :=
  .call o .ret

/-- The access a routine makes next, if it has not returned. -/
def next : Prog Op Ret α → Option Op
  | .ret _ => none
  | .call o _ => some o

theorem pure_eq (a : α) : (pure a : Prog Op Ret α) = .ret a := rfl

@[simp] theorem ret_bind (a : α) (f : α → Prog Op Ret β) : (Prog.ret a >>= f) = f a := rfl

@[simp] theorem call_bind (o : Op) (k : Ret o → Prog Op Ret α) (f : α → Prog Op Ret β) :
    (Prog.call o k >>= f) = .call o fun r => k r >>= f := rfl

@[simp] theorem op_bind (o : Op) (f : Ret o → Prog Op Ret β) :
    (op o >>= f) = Prog.call o f := rfl

theorem bind_ret (p : Prog Op Ret α) : p >>= (fun a => Prog.ret a) = p := by
  induction p with
  | ret a => rfl
  | call o k ih => simp [ih]

theorem bind_assoc' (p : Prog Op Ret α) (f : α → Prog Op Ret β) (g : β → Prog Op Ret γ) :
    (p >>= f) >>= g = p >>= fun a => f a >>= g := by
  induction p with
  | ret a => rfl
  | call o k ih => simp [ih]

instance : LawfulMonad (Prog Op Ret) :=
  LawfulMonad.mk' _
    bind_ret
    (fun _ _ => rfl)
    bind_assoc'

/-! ## Traces against an arbitrary environment -/

/-- One access together with its answer. -/
structure Event (Op : Type) (Ret : Op → Type) where
  op : Op
  ans : Ret op

/-- `Exec p ev a`: some environment makes `p` perform exactly the events `ev` and return `a`. -/
inductive Exec : Prog Op Ret α → List (Event Op Ret) → α → Prop
  | ret (a : α) : Exec (.ret a) [] a
  | call {o : Op} {k : Ret o → Prog Op Ret α} {r : Ret o} {ev : List (Event Op Ret)} {a : α} :
      Exec (k r) ev a → Exec (.call o k) (⟨o, r⟩ :: ev) a

theorem exec_ret_iff {a b : α} {ev : List (Event Op Ret)} :
    Exec (.ret a) ev b ↔ ev = [] ∧ b = a := by
  constructor
  · intro h
    cases h
    exact ⟨rfl, rfl⟩
  · rintro ⟨rfl, rfl⟩
    exact .ret _

theorem exec_call_iff {o : Op} {k : Ret o → Prog Op Ret α} {ev : List (Event Op Ret)} {a : α} :
    Exec (.call o k) ev a ↔ ∃ r ev', ev = ⟨o, r⟩ :: ev' ∧ Exec (k r) ev' a := by
  constructor
  · intro h
    cases h with
    | call h => exact ⟨_, _, rfl, h⟩
  · rintro ⟨r, ev', rfl, h⟩
    exact .call h

/-- A trace of a sequence is a trace of its first part followed by one of the rest. -/
theorem exec_bind_iff {p : Prog Op Ret α} {f : α → Prog Op Ret β}
    {ev : List (Event Op Ret)} {b : β} :
    Exec (p >>= f) ev b ↔
      ∃ ev₁ ev₂ a, ev = ev₁ ++ ev₂ ∧ Exec p ev₁ a ∧ Exec (f a) ev₂ b := by
  induction p generalizing ev with
  | ret a =>
      constructor
      · intro h
        exact ⟨[], ev, a, rfl, .ret a, h⟩
      · rintro ⟨ev₁, ev₂, a', rfl, h₁, h₂⟩
        rcases exec_ret_iff.1 h₁ with ⟨rfl, rfl⟩
        exact h₂
  | call o k ih =>
      rw [call_bind, exec_call_iff]
      constructor
      · rintro ⟨r, ev', rfl, h⟩
        rcases (ih r).1 h with ⟨ev₁, ev₂, a, rfl, h₁, h₂⟩
        exact ⟨⟨o, r⟩ :: ev₁, ev₂, a, rfl, .call h₁, h₂⟩
      · rintro ⟨ev₁, ev₂, a, rfl, h₁, h₂⟩
        rcases exec_call_iff.1 h₁ with ⟨r, ev', rfl, h⟩
        exact ⟨r, ev' ++ ev₂, rfl, (ih r).2 ⟨ev', ev₂, a, rfl, h, h₂⟩⟩

theorem exec_op_iff {o : Op} {ev : List (Event Op Ret)} {r : Ret o} :
    Exec (op o) ev r ↔ ev = [⟨o, r⟩] := by
  constructor
  · intro h
    rcases exec_call_iff.1 h with ⟨r', ev', rfl, h'⟩
    rcases exec_ret_iff.1 h' with ⟨rfl, rfl⟩
    rfl
  · rintro rfl
    exact .call (.ret r)

theorem exec_op_bind_iff {o : Op} {f : Ret o → Prog Op Ret β} {ev : List (Event Op Ret)} {b : β} :
    Exec (op o >>= f) ev b ↔ ∃ r ev', ev = ⟨o, r⟩ :: ev' ∧ Exec (f r) ev' b :=
  exec_call_iff

theorem exec_pure_iff {a b : α} {ev : List (Event Op Ret)} :
    Exec (pure a) ev b ↔ ev = [] ∧ b = a :=
  exec_ret_iff

/-! ## Footprints -/

/-- Every access that the routine can make satisfies `A`. -/
def Only (A : Op → Prop) : Prog Op Ret α → Prop
  | .ret _ => True
  | .call o k => A o ∧ ∀ r, Only A (k r)

theorem only_pure {A : Op → Prop} (a : α) : Only A (pure a : Prog Op Ret α) :=
  trivial

theorem only_call_iff {A : Op → Prop} {o : Op} {k : Ret o → Prog Op Ret α} :
    Only A (.call o k) ↔ A o ∧ ∀ r, Only A (k r) :=
  Iff.rfl

theorem Only.ite {A : Op → Prop} {c : Prop} [Decidable c] {p q : Prog Op Ret α}
    (hp : Only A p) (hq : Only A q) : Only A (if c then p else q) := by
  split
  · exact hp
  · exact hq

theorem Only.bind {A : Op → Prop} {p : Prog Op Ret α} {f : α → Prog Op Ret β} (hp : Only A p)
    (hf : ∀ a, Only A (f a)) : Only A (p >>= f) := by
  induction p with
  | ret a => exact hf a
  | call o k ih => exact ⟨hp.1, fun r => ih r (hp.2 r)⟩

theorem only_op {A : Op → Prop} {o : Op} (ho : A o) : Only A (op o : Prog Op Ret (Ret o)) :=
  ⟨ho, fun _ => trivial⟩

theorem Only.mono {A B : Op → Prop} (hAB : ∀ o, A o → B o) {p : Prog Op Ret α} (hp : Only A p) :
    Only B p := by
  induction p with
  | ret a => trivial
  | call o k ih => exact ⟨hAB o hp.1, fun r => ih r (hp.2 r)⟩

/-- What a routine leaves in its trace is within its footprint. -/
theorem Only.exec {A : Op → Prop} {p : Prog Op Ret α} {ev : List (Event Op Ret)} {a : α}
    (hp : Only A p) (h : Exec p ev a) : ∀ e ∈ ev, A e.op := by
  induction h with
  | ret a =>
      intro e he
      cases he
  | call _ ih =>
      intro e he
      rcases List.mem_cons.1 he with rfl | he
      · exact hp.1
      · exact ih (hp.2 _) e he

/-! ## Given answers -/

/-- What the routine returns when access `o` is always answered by `env o`. -/
def eval (env : (o : Op) → Ret o) : Prog Op Ret α → α
  | .ret a => a
  | .call o k => (k (env o)).eval env

/-- The trace of that execution. -/
def trace (env : (o : Op) → Ret o) : Prog Op Ret α → List (Event Op Ret)
  | .ret _ => []
  | .call o k => ⟨o, env o⟩ :: (k (env o)).trace env

theorem exec_trace (env : (o : Op) → Ret o) (p : Prog Op Ret α) :
    Exec p (p.trace env) (p.eval env) := by
  induction p with
  | ret a => exact .ret a
  | call o k ih => exact .call (ih (env o))

theorem eval_bind (env : (o : Op) → Ret o) (p : Prog Op Ret α) (f : α → Prog Op Ret β) :
    (p >>= f).eval env = (f (p.eval env)).eval env := by
  induction p with
  | ret a => rfl
  | call o k ih => exact ih (env o)

theorem trace_bind (env : (o : Op) → Ret o) (p : Prog Op Ret α) (f : α → Prog Op Ret β) :
    (p >>= f).trace env = p.trace env ++ (f (p.eval env)).trace env := by
  induction p with
  | ret a => rfl
  | call o k ih => exact congrArg (_ :: ·) (ih (env o))

/-- The answers in `ev` are those of an environment that sees the events made so far. -/
def Follows (env : List (Event Op Ret) → (o : Op) → Ret o) :
    List (Event Op Ret) → List (Event Op Ret) → Prop
  | _, [] => True
  | past, e :: ev => e.ans = env past e.op ∧ Follows env (past ++ [e]) ev

/-- Against every environment a routine ends. -/
theorem exists_exec (env : List (Event Op Ret) → (o : Op) → Ret o) (p : Prog Op Ret α)
    (past : List (Event Op Ret)) : ∃ ev a, Exec p ev a ∧ Follows env past ev := by
  induction p generalizing past with
  | ret a => exact ⟨[], a, .ret a, trivial⟩
  | call o k ih =>
      rcases ih (env past o) (past ++ [⟨o, env past o⟩]) with ⟨ev, a, hex, hfol⟩
      exact ⟨⟨o, env past o⟩ :: ev, a, .call hex, rfl, hfol⟩

/-! ## Runs on a state -/

/-- The meaning of accesses on states: `sem o s r s'` lets `o` answer `r` and lead to `s'`. -/
abbrev Sem (Op : Type) (Ret : Op → Type) (σ : Type) : Type :=
  (o : Op) → σ → Ret o → σ → Prop

/-- `Runs sem p s a s'`: alone, `p` can take state `s` to `s'` and return `a`. -/
inductive Runs (sem : Sem Op Ret σ) : Prog Op Ret α → σ → α → σ → Prop
  | ret (a : α) (s : σ) : Runs sem (.ret a) s a s
  | call {o : Op} {k : Ret o → Prog Op Ret α} {s s' s'' : σ} {r : Ret o} {a : α} :
      sem o s r s' → Runs sem (k r) s' a s'' → Runs sem (.call o k) s a s''

theorem Runs.bind {sem : Sem Op Ret σ} {p : Prog Op Ret α} {f : α → Prog Op Ret β}
    {s s' s'' : σ} {a : α} {b : β} (h₁ : Runs sem p s a s') (h₂ : Runs sem (f a) s' b s'') :
    Runs sem (p >>= f) s b s'' := by
  induction h₁ with
  | ret a s => exact h₂
  | call hsem _ ih => exact .call hsem (ih h₂)

theorem Runs.mono {sem sem' : Sem Op Ret σ} (hsem : ∀ o s r s', sem o s r s' → sem' o s r s')
    {p : Prog Op Ret α} {s s' : σ} {a : α} (h : Runs sem p s a s') : Runs sem' p s a s' := by
  induction h with
  | ret a s => exact .ret a s
  | call hstep _ ih => exact .call (hsem _ _ _ _ hstep) ih

theorem runs_bind_inv {sem : Sem Op Ret σ} {p : Prog Op Ret α} {f : α → Prog Op Ret β}
    {s s'' : σ} {b : β} (h : Runs sem (p >>= f) s b s'') :
    ∃ a s', Runs sem p s a s' ∧ Runs sem (f a) s' b s'' := by
  induction p generalizing s with
  | ret a => exact ⟨a, s, .ret a s, h⟩
  | call o k ih =>
      cases h with
      | call hsem hrest =>
          rcases ih _ hrest with ⟨a, s', h₁, h₂⟩
          exact ⟨a, s', .call hsem h₁, h₂⟩

/-- Where every access has some outcome, every routine can run to its end. -/
theorem exists_runs {sem : Sem Op Ret σ} (hsem : ∀ o s, ∃ r s', sem o s r s')
    (p : Prog Op Ret α) (s : σ) : ∃ a s', Runs sem p s a s' := by
  induction p generalizing s with
  | ret a => exact ⟨a, s, .ret a s⟩
  | call o k ih =>
      rcases hsem o s with ⟨r, s', hstep⟩
      rcases ih r s' with ⟨a, s'', hrun⟩
      exact ⟨a, s'', .call hstep hrun⟩

/-- The run in which `f` chooses every outcome. -/
def runOn (f : (o : Op) → σ → Ret o × σ) : Prog Op Ret α → σ → α × σ
  | .ret a, s => (a, s)
  | .call o k, s => (k (f o s).1).runOn f (f o s).2

theorem runOn_op (f : (o : Op) → σ → Ret o × σ) (o : Op) (s : σ) :
    (op o : Prog Op Ret (Ret o)).runOn f s = f o s := rfl

theorem runOn_bind (f : (o : Op) → σ → Ret o × σ) (p : Prog Op Ret α) (g : α → Prog Op Ret β)
    (s : σ) : (p >>= g).runOn f s = (g (p.runOn f s).1).runOn f (p.runOn f s).2 := by
  induction p generalizing s with
  | ret a => rfl
  | call o k ih => exact ih _ _

/-- The rest of a sequence goes on where its first part has ended. -/
theorem runOn_bind_of {f : (o : Op) → σ → Ret o × σ} {p : Prog Op Ret α} {g : α → Prog Op Ret β}
    {s s' : σ} {a : α} (h : p.runOn f s = (a, s')) :
    (p >>= g).runOn f s = (g a).runOn f s' := by
  rw [runOn_bind, h]

theorem runs_runOn {sem : Sem Op Ret σ} {f : (o : Op) → σ → Ret o × σ}
    (hf : ∀ o s, sem o s (f o s).1 (f o s).2) (p : Prog Op Ret α) (s : σ) :
    Runs sem p s (p.runOn f s).1 (p.runOn f s).2 := by
  induction p generalizing s with
  | ret a => exact .ret a s
  | call o k ih => exact .call (hf o s) (ih _ _)

/-- The trace of that run. -/
def traceOn (f : (o : Op) → σ → Ret o × σ) : Prog Op Ret α → σ → List (Event Op Ret)
  | .ret _, _ => []
  | .call o k, s => ⟨o, (f o s).1⟩ :: (k (f o s).1).traceOn f (f o s).2

/-- Every access of that run is made in a state that passes `check`. -/
def checkOn (f : (o : Op) → σ → Ret o × σ) (check : Op → σ → Bool) : Prog Op Ret α → σ → Bool
  | .ret _, _ => true
  | .call o k, s => check o s && (k (f o s).1).checkOn f check (f o s).2

theorem runs_checkOn {sem : Sem Op Ret σ} {f : (o : Op) → σ → Ret o × σ} {check : Op → σ → Bool}
    (hf : ∀ o s, sem o s (f o s).1 (f o s).2) (p : Prog Op Ret α) (s : σ)
    (h : p.checkOn f check s = true) :
    Runs (fun o s r s' => sem o s r s' ∧ check o s = true) p s (p.runOn f s).1 (p.runOn f s).2 := by
  induction p generalizing s with
  | ret a => exact .ret a s
  | call o k ih =>
      rw [checkOn, Bool.and_eq_true] at h
      exact .call ⟨hf o s, h.1⟩ (ih _ _ h.2)

theorem checkOn_bind (f : (o : Op) → σ → Ret o × σ) (check : Op → σ → Bool) (p : Prog Op Ret α)
    (g : α → Prog Op Ret β) (s : σ) :
    (p >>= g).checkOn f check s =
      (p.checkOn f check s && (g (p.runOn f s).1).checkOn f check (p.runOn f s).2) := by
  induction p generalizing s with
  | ret a => rfl
  | call o k ih =>
      change (check o s && (k (f o s).1 >>= g).checkOn f check (f o s).2) = _
      rw [ih, ← Bool.and_assoc]
      rfl

/-- Where nothing is checked, every run passes. -/
theorem checkOn_true (f : (o : Op) → σ → Ret o × σ) (p : Prog Op Ret α) (s : σ) :
    p.checkOn f (fun _ _ => true) s = true := by
  induction p generalizing s with
  | ret a => rfl
  | call o k ih => exact ih _ _

/-! ## Weakest preconditions under interference -/

/-- What other agents may do while a routine is about to make an access (`none`: has returned). -/
abbrev Rely (Op σ : Type) : Type :=
  Option Op → σ → σ → Prop

/-- `wp sem R G p Q s`: started in `s`, with other agents moving by `R` before every access, each
access of `p` satisfies `G`, and when `p` returns `a` the state satisfies `Q a`. -/
def wp (sem : Sem Op Ret σ) (R : Rely Op σ) (G : Sem Op Ret σ) :
    Prog Op Ret α → (α → σ → Prop) → σ → Prop
  | .ret a, Q, s =>
      ∀ s', Relation.ReflTransGen (R none) s s' → Q a s'
  | .call o k, Q, s =>
      ∀ s', Relation.ReflTransGen (R (some o)) s s' →
        ∀ r s'', sem o s' r s'' → G o s' r s'' ∧ wp sem R G (k r) Q s''

variable {sem G : Sem Op Ret σ} {R : Rely Op σ}

/-- Interference never takes a state out of the weakest precondition. -/
theorem wp_env {p : Prog Op Ret α} {Q : α → σ → Prop} {s s' : σ}
    (h : wp sem R G p Q s) (hR : R p.next s s') : wp sem R G p Q s' := by
  cases p with
  | ret a =>
      intro s'' hs''
      exact h s'' (.head hR hs'')
  | call o k =>
      intro s'' hs''
      exact h s'' (.head hR hs'')

theorem wp_envs {p : Prog Op Ret α} {Q : α → σ → Prop} {s s' : σ} (h : wp sem R G p Q s)
    (hR : Relation.ReflTransGen (R p.next) s s') : wp sem R G p Q s' := by
  induction hR with
  | refl => exact h
  | tail _ hstep ih => exact wp_env ih hstep

/-- One access of the routine keeps its guarantee and the weakest precondition of the rest. -/
theorem wp_step {o : Op} {k : Ret o → Prog Op Ret α} {Q : α → σ → Prop} {s s' : σ} {r : Ret o}
    (h : wp sem R G (.call o k) Q s) (hsem : sem o s r s') :
    G o s r s' ∧ wp sem R G (k r) Q s' :=
  h s .refl r s' hsem

theorem wp_ret {a : α} {Q : α → σ → Prop} {s : σ} (h : wp sem R G (.ret a) Q s) : Q a s :=
  h s .refl

theorem wp_mono {p : Prog Op Ret α} {Q Q' : α → σ → Prop} {s : σ}
    (hQ : ∀ a t, Q a t → Q' a t) (h : wp sem R G p Q s) : wp sem R G p Q' s := by
  induction p generalizing s with
  | ret a =>
      intro s' hs'
      exact hQ _ _ (h s' hs')
  | call o k ih =>
      intro s' hs' r s'' hsem
      rcases h s' hs' r s'' hsem with ⟨hG, hk⟩
      exact ⟨hG, ih r hk⟩

theorem wp_bind {p : Prog Op Ret α} {f : α → Prog Op Ret β} {Q : β → σ → Prop} {s : σ}
    (h : wp sem R G p (fun a t => wp sem R G (f a) Q t) s) : wp sem R G (p >>= f) Q s := by
  induction p generalizing s with
  | ret a => exact h s .refl
  | call o k ih =>
      intro s' hs' r s'' hsem
      rcases h s' hs' r s'' hsem with ⟨hG, hk⟩
      exact ⟨hG, ih r hk⟩

/-- What is proved beside any other guarantee also holds at the end. -/
theorem wp_and {G' : Sem Op Ret σ} {p : Prog Op Ret α} {Q Q' : α → σ → Prop} {s : σ}
    (h : wp sem R G p Q s) (h' : wp sem R G' p Q' s) :
    wp sem R G p (fun a t => Q a t ∧ Q' a t) s := by
  induction p generalizing s with
  | ret a => exact fun s' hs' => ⟨h s' hs', h' s' hs'⟩
  | call o k ih =>
      intro s' hs' r s'' hsem
      rcases h s' hs' r s'' hsem with ⟨hg, hk⟩
      rcases h' s' hs' r s'' hsem with ⟨-, hk'⟩
      exact ⟨hg, ih r hk hk'⟩

/-- An assertion that interference before access `o` cannot falsify. -/
def Stable (R : Rely Op σ) (o : Option Op) (P : σ → Prop) : Prop :=
  ∀ s s', P s → R o s s' → P s'

theorem Stable.closure {o : Option Op} {P : σ → Prop} (h : Stable R o P) {s s' : σ} (hs : P s)
    (hR : Relation.ReflTransGen (R o) s s') : P s' := by
  induction hR with
  | refl => exact hs
  | tail _ hstep ih => exact h _ _ ih hstep

/-- The rule for one access: a stable assertion before it, and the rest after it. -/
theorem wp_call {o : Op} {k : Ret o → Prog Op Ret α} {Q : α → σ → Prop} {P : σ → Prop} {s : σ}
    (hst : Stable R (some o) P) (hs : P s)
    (h : ∀ t r t', P t → sem o t r t' → G o t r t' ∧ wp sem R G (k r) Q t') :
    wp sem R G (.call o k) Q s := by
  intro s' hs' r s'' hsem
  exact h s' r s'' (hst.closure hs hs') hsem

theorem wp_return {a : α} {Q : α → σ → Prop} {P : σ → Prop} {s : σ}
    (hst : Stable R none P) (hs : P s) (h : ∀ t, P t → Q a t) : wp sem R G (.ret a) Q s :=
  fun s' hs' => h s' (hst.closure hs hs')

theorem wp_seq {p : Prog Op Ret α} {f : α → Prog Op Ret β} {P : α → σ → Prop}
    {Q : β → σ → Prop} {s : σ} (hp : wp sem R G p P s)
    (hf : ∀ a t, P a t → wp sem R G (f a) Q t) : wp sem R G (p >>= f) Q s :=
  wp_bind (wp_mono hf hp)

/-- The rule of consequence for what others do and for what the routine promises. -/
theorem wp_weaken {R' : Rely Op σ} {G' : Sem Op Ret σ} (hR : ∀ o s s', R' o s s' → R o s s')
    (hG : ∀ o s r s', G o s r s' → G' o s r s') {p : Prog Op Ret α} {Q : α → σ → Prop} {s : σ}
    (h : wp sem R G p Q s) : wp sem R' G' p Q s := by
  induction p generalizing s with
  | ret a =>
      intro s' hs'
      exact h s' (Relation.ReflTransGen.mono (hR none) _ _ hs')
  | call o k ih =>
      intro s' hs' r s'' hsem
      rcases h s' (Relation.ReflTransGen.mono (hR (some o)) _ _ hs') r s'' hsem with ⟨hg, hk⟩
      exact ⟨hG _ _ _ _ hg, ih r hk⟩

/-- The frame rule: an assertion that neither the others nor the routine's accesses falsify. -/
theorem wp_frame {I : σ → Prop} (hR : ∀ o, Stable R o I)
    (hG : ∀ o s r s', I s → sem o s r s' → G o s r s' → I s') {p : Prog Op Ret α}
    {Q : α → σ → Prop} {s : σ} (hI : I s) (h : wp sem R G p Q s) :
    wp sem R G p (fun a t => I t ∧ Q a t) s := by
  induction p generalizing s with
  | ret a =>
      intro s' hs'
      exact ⟨(hR none).closure hI hs', h s' hs'⟩
  | call o k ih =>
      intro s' hs' r s'' hsem
      rcases h s' hs' r s'' hsem with ⟨hg, hk⟩
      exact ⟨hg, ih r (hG o s' r s'' ((hR _).closure hI hs') hsem hg) hk⟩

/-- The rule for a footprint: an invariant that every access in it keeps. -/
theorem Only.wp {A : Op → Prop} {I : σ → Prop} {p : Prog Op Ret α} {s : σ} (hp : Only A p)
    (hR : ∀ o, Stable R o I)
    (hA : ∀ o s r s', A o → I s → sem o s r s' → G o s r s' ∧ I s') (hs : I s) :
    Prog.wp sem R G p (fun _ => I) s := by
  induction p generalizing s with
  | ret a => exact fun s' hs' => (hR none).closure hs hs'
  | call o k ih =>
      intro s' hs' r s'' hsem
      rcases hA o s' r s'' hp.1 ((hR _).closure hs hs') hsem with ⟨hg, hI⟩
      exact ⟨hg, ih r (hp.2 r) hI⟩

/-- A routine run alone meets its weakest precondition's postcondition. -/
theorem wp_runs {p : Prog Op Ret α} {Q : α → σ → Prop} {s s' : σ} {a : α}
    (h : wp sem R G p Q s) (hrun : Runs sem p s a s') : Q a s' := by
  induction hrun with
  | ret a s => exact wp_ret h
  | call hsem _ ih => exact ih (wp_step h hsem).2

/-- Nobody else moves. -/
def still : Rely Op σ := fun _ _ _ => False

theorem stable_still {o : Option Op} {P : σ → Prop} : Stable still o P :=
  fun _ _ _ hmove => hmove.elim

/-- Alone, a weakest precondition is worked off one access at a time. -/
theorem wp_still_call_iff {o : Op} {k : Ret o → Prog Op Ret α} {Q : α → σ → Prop} {s : σ} :
    wp sem still G (.call o k) Q s ↔
      ∀ r s', sem o s r s' → G o s r s' ∧ wp sem still G (k r) Q s' := by
  constructor
  · exact fun h r s' hsem => wp_step h hsem
  · intro h
    refine wp_call (P := fun t => t = s) stable_still rfl ?_
    rintro t r t' rfl hsem
    exact h r t' hsem

theorem wp_still_ret_iff {a : α} {Q : α → σ → Prop} {s : σ} :
    wp sem still G (.ret a) Q s ↔ Q a s := by
  constructor
  · exact wp_ret
  · intro h
    refine wp_return (P := fun t => t = s) stable_still rfl ?_
    rintro t rfl
    exact h

/-- What holds after every run there is holds after one. -/
theorem wp_exists_runs (hsem : ∀ o s, ∃ r s', sem o s r s') {p : Prog Op Ret α}
    {Q : α → σ → Prop} {s : σ} (h : wp sem R G p Q s) : ∃ a s', Runs sem p s a s' ∧ Q a s' := by
  rcases exists_runs hsem p s with ⟨a, s', hrun⟩
  exact ⟨a, s', hrun, wp_runs h hrun⟩

/-! ## Steps under interference -/

/-- One step of a routine among other agents: they move, or it makes its access. -/
inductive Step (sem : Sem Op Ret σ) (R : Rely Op σ) :
    Prog Op Ret α × σ → Prog Op Ret α × σ → Prop
  | env {p : Prog Op Ret α} {s s' : σ} : R p.next s s' → Step sem R (p, s) (p, s')
  | access {o : Op} {k : Ret o → Prog Op Ret α} {s s' : σ} {r : Ret o} :
      sem o s r s' → Step sem R (.call o k, s) (k r, s')

theorem Step.mono {sem' : Sem Op Ret σ} {R' : Rely Op σ}
    (hsem : ∀ o s r s', sem o s r s' → sem' o s r s') (hR : ∀ o s s', R o s s' → R' o s s')
    {c c' : Prog Op Ret α × σ} (h : Step sem R c c') : Step sem' R' c c' := by
  cases h with
  | env henv => exact .env (hR _ _ _ henv)
  | access hacc => exact .access (hsem _ _ _ _ hacc)

/-- A routine that runs alone also runs among agents that happen not to move. -/
theorem Runs.steps {p : Prog Op Ret α} {s s' : σ} {a : α} (h : Runs sem p s a s') :
    Relation.ReflTransGen (Step sem R) (p, s) (.ret a, s') := by
  induction h with
  | ret a s => exact .refl
  | call hsem _ ih => exact .head (.access hsem) ih

/-- Steps keep the weakest precondition. -/
theorem wp_steps {p p' : Prog Op Ret α} {Q : α → σ → Prop} {s s' : σ} (h : wp sem R G p Q s)
    (hsteps : Relation.ReflTransGen (Step sem R) (p, s) (p', s')) : wp sem R G p' Q s' := by
  generalize hc : (p, s) = c at hsteps
  generalize hc' : (p', s') = c' at hsteps
  induction hsteps generalizing p' s' with
  | refl =>
      cases hc
      cases hc'
      exact h
  | @tail c₁ c₂ _ hstep ih =>
      rcases c₁ with ⟨q, t⟩
      have ht := ih rfl
      cases hstep with
      | env henv =>
          cases hc'
          exact wp_env ht henv
      | access hsem =>
          cases hc'
          exact (wp_step ht hsem).2

/-- A run in which `env` lets the others move before each access. -/
theorem steps_runOn {env : Op → σ → σ} {f : (o : Op) → σ → Ret o × σ}
    (henv : ∀ o s, Relation.ReflTransGen (R (some o)) s (env o s))
    (hf : ∀ o s, sem o s (f o s).1 (f o s).2) (p : Prog Op Ret α) (s : σ) :
    Relation.ReflTransGen (Step sem R) (p, s)
      (.ret (p.runOn (fun o s => f o (env o s)) s).1, (p.runOn (fun o s => f o (env o s)) s).2) := by
  induction p generalizing s with
  | ret a => exact .refl
  | call o k ih =>
      have hothers : ∀ s', Relation.ReflTransGen (R (some o)) s s' →
          Relation.ReflTransGen (Step sem R) (.call o k, s) (.call o k, s') := by
        intro s' hs'
        induction hs' with
        | refl => exact .refl
        | tail _ hR ih => exact ih.tail (.env hR)
      exact ((hothers _ (henv o s)).tail (.access (hf o (env o s)))).trans (ih _ _)

-- From here on only the rules look inside; a loop of a routine is never unfolded by accident.
attribute [irreducible] wp Only

end Prog

end BspV3s
