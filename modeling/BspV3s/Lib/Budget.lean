import Mathlib.Data.Nat.Notation
import BspV3s.Lib.Program

/-!
# Budget — loops that wait

A loop that waits for its environment is a routine with a budget of rounds.  It ends when some budget
is enough: from there on a larger one changes nothing, neither the result nor the accesses made.

* `Ends`           : with enough budget every access passes its check and the end is as stated;
* `Ends.bind`      : sequencing, the two parts sharing one budget;
* `Ends.of_rounds` : one round that leaves the rest to a budget of one less;
* `Ends.wait`      : a loop that polls what is ready again and again;
* `Ends.carry`     : a routine whose accesses are carried out by routines of their own.
-/

namespace BspV3s

namespace Prog

variable {Op : Type} {Ret : Op → Type} {α β σ : Type}

/-- With enough budget the run from `s` passes every check and ends in `Q`. -/
def Ends (f : (o : Op) → σ → Ret o × σ) (check : Op → σ → Bool) (p : ℕ → Prog Op Ret α)
    (Q : α → σ → Prop) (s : σ) : Prop :=
  ∃ a s' n₀, Q a s' ∧ ∀ n, n₀ ≤ n → (p n).runOn f s = (a, s') ∧ (p n).checkOn f check s = true

variable {f : (o : Op) → σ → Ret o × σ} {check : Op → σ → Bool} {s : σ}

theorem Ends.ret {a : α} {Q : α → σ → Prop} (h : Q a s) : Ends f check (fun _ => .ret a) Q s :=
  ⟨a, s, 0, h, fun _ _ => ⟨rfl, rfl⟩⟩

theorem Ends.op {o : Op} {Q : Ret o → σ → Prop} (hcheck : check o s = true)
    (h : Q (f o s).1 (f o s).2) : Ends f check (fun _ => Prog.op o) Q s := by
  refine ⟨_, _, 0, h, fun _ _ => ⟨rfl, ?_⟩⟩
  change (check o s && true) = true
  rw [hcheck]
  rfl

theorem Ends.bind {p : ℕ → Prog Op Ret α} {g : ℕ → α → Prog Op Ret β} {Q : β → σ → Prop}
    (h : Ends f check p (fun a s' => Ends f check (fun n => g n a) Q s') s) :
    Ends f check (fun n => p n >>= g n) Q s := by
  rcases h with ⟨a, s₁, n₁, ⟨b, s₂, n₂, hQ, hrest⟩, hfirst⟩
  refine ⟨b, s₂, max n₁ n₂, hQ, fun n hn => ?_⟩
  rcases hfirst n (Nat.le_trans (Nat.le_max_left _ _) hn) with ⟨hrun, hcheck⟩
  rcases hrest n (Nat.le_trans (Nat.le_max_right _ _) hn) with ⟨hrun', hcheck'⟩
  refine ⟨(runOn_bind_of hrun).trans hrun', ?_⟩
  rw [checkOn_bind, hcheck, hrun]
  exact hcheck'

/-- A routine that does not wait: its run is the run. -/
theorem Ends.of_runOn {p : Prog Op Ret α} {Q : α → σ → Prop} (hcheck : p.checkOn f check s = true)
    (h : Q (p.runOn f s).1 (p.runOn f s).2) : Ends f check (fun _ => p) Q s :=
  ⟨_, _, 0, h, fun _ _ => ⟨rfl, hcheck⟩⟩

theorem Ends.mono {p : ℕ → Prog Op Ret α} {Q Q' : α → σ → Prop} (hQ : ∀ a s', Q a s' → Q' a s')
    (h : Ends f check p Q s) : Ends f check p Q' s := by
  rcases h with ⟨a, s', n₀, hend, hruns⟩
  exact ⟨a, s', n₀, hQ a s' hend, hruns⟩

/-- A round of a loop: the rest has one round less. -/
theorem Ends.of_rounds {p q : ℕ → Prog Op Ret α} {Q : α → σ → Prop} (hp : ∀ n, p (n + 1) = q n)
    (h : Ends f check q Q s) : Ends f check p Q s := by
  rcases h with ⟨a, s', n₀, hend, hruns⟩
  refine ⟨a, s', n₀ + 1, hend, fun n hn => ?_⟩
  rcases Nat.exists_eq_add_of_le' hn with ⟨k, rfl⟩
  rw [← Nat.add_assoc, hp]
  exact hruns _ (Nat.le_add_left _ _)

/-- Polling: while it is not ready, a round leaves `I` standing and takes one unit of time. -/
theorem Ends.wait {p : ℕ → Prog Op Ret α} {Q : α → σ → Prop} (time : σ → ℕ) (I : σ → Prop)
    {ready : ℕ → Prop} (hready : ∀ t, ∃ t', t ≤ t' ∧ ready t')
    (hpoll : ∀ s, I s → (¬ ready (time s) → ∀ s', I s' → time s' = time s + 1 → Ends f check p Q s') →
      Ends f check p Q s) (s : σ) (h : I s) : Ends f check p Q s := by
  rcases hready (time s) with ⟨t', hle, hnext⟩
  rcases Nat.exists_eq_add_of_le hle with ⟨d, rfl⟩
  clear hle
  -- The induction is on the time until it is ready.
  induction d generalizing s with
  | zero => exact hpoll s h fun hnot => absurd hnext hnot
  | succ d ih =>
      refine hpoll s h fun _ s' h' htime => ih s' h' ?_
      rw [htime, Nat.add_assoc, Nat.add_comm 1]
      exact hnext

/-! ## Accesses carried out by routines -/

section Carry

variable {Op' : Type} {Ret' : Op' → Type} {τ : Type}

/-- The routine with `h o` in the place of every access `o`. -/
def carry (h : (o : Op') → ℕ → Prog Op Ret (Ret' o)) : Prog Op' Ret' α → ℕ → Prog Op Ret α
  | .ret a, _ => .ret a
  | .call o k, n => h o n >>= fun r => (k r).carry h n

theorem carry_bind {β : Type} (h : (o : Op') → ℕ → Prog Op Ret (Ret' o)) (p : Prog Op' Ret' α)
    (g : α → Prog Op' Ret' β) (n : ℕ) :
    (p >>= g).carry h n = p.carry h n >>= fun a => (g a).carry h n := by
  induction p with
  | ret a => rfl
  | call o k ih =>
      calc (Prog.call o k >>= g).carry h n
          = h o n >>= fun r => (k r >>= g).carry h n := rfl
        _ = h o n >>= fun r => (k r).carry h n >>= fun a => (g a).carry h n := by simp only [ih]
        _ = (h o n >>= fun r => (k r).carry h n) >>= fun a => (g a).carry h n := by rw [bind_assoc]

/-- Two routines, one after the other. -/
theorem Ends.carry_bind {β : Type} {h : (o : Op') → ℕ → Prog Op Ret (Ret' o)} {p : Prog Op' Ret' α}
    {g : α → Prog Op' Ret' β} {Q : β → σ → Prop}
    (hp : Ends f check (p.carry h) (fun a s' => Ends f check ((g a).carry h) Q s') s) :
    Ends f check ((p >>= g).carry h) Q s := by
  have hsplit : (p >>= g).carry h = fun n => p.carry h n >>= fun a => (g a).carry h n :=
    funext fun n => Prog.carry_bind h p g n
  rw [hsplit]
  exact Ends.bind hp

/-- When each access is carried out as `sem` says, seen through `view`, so is the whole routine. -/
theorem Ends.carry {h : (o : Op') → ℕ → Prog Op Ret (Ret' o)} {sem : Sem Op' Ret' τ} (view : σ → τ)
    (I : σ → Prop) {A : Op' → Prop}
    (hop : ∀ o s, A o → I s →
      Ends f check (h o) (fun r s' => I s' ∧ sem o (view s) r (view s')) s)
    {p : Prog Op' Ret' α} (hp : Only A p) (hs : I s) :
    Ends f check (p.carry h) (fun a s' => I s' ∧ Runs sem p (view s) a (view s')) s := by
  induction p generalizing s with
  | ret a => exact Ends.ret ⟨hs, .ret a _⟩
  | call o k ih =>
      rcases only_call_iff.1 hp with ⟨ho, hk⟩
      refine Ends.bind ((hop o s ho hs).mono fun r s₁ hr => ?_)
      exact (ih r (hk r) hr.1).mono fun a s' ha => ⟨ha.1, .call hr.2 ha.2⟩

end Carry

end Prog

end BspV3s
