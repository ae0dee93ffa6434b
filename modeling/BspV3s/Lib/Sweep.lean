import BspV3s.Lib.Program
import Mathlib.Data.Set.Insert

/-!
# Sweep — loops that count down

`countDown body n` runs `body` at `n`, `n - 1`, …, `0`, and `sweep body a b` nests two such loops.  A
nest visits every pair of its rectangle, whichever of its loops is the outer one: `wp_sweep` is stated
with the set of pairs that are still to be visited, so the order is gone from it.
-/

namespace BspV3s

namespace Prog

variable {Op : Type} {Ret : Op → Type} {σ : Type} {sem G : Sem Op Ret σ} {R : Rely Op σ}

def countDown (body : ℕ → Prog Op Ret Unit) : ℕ → Prog Op Ret Unit
  | 0 => body 0
  | n + 1 => do
      body (n + 1)
      countDown body n

def sweep (body : ℕ → ℕ → Prog Op Ret Unit) (a b : ℕ) : Prog Op Ret Unit :=
  countDown (fun i => countDown (body i) b) a

/-- The rule for a loop that counts down: `J i` is its invariant when `i` rounds are left. -/
theorem wp_countDown {body : ℕ → Prog Op Ret Unit} {n : ℕ} (J : ℕ → σ → Prop)
    (hbody : ∀ i, i ≤ n → ∀ s, J (i + 1) s → wp sem R G (body i) (fun _ => J i) s) {s : σ}
    (hs : J (n + 1) s) : wp sem R G (countDown body n) (fun _ => J 0) s := by
  induction n generalizing s with
  | zero => exact hbody 0 (Nat.le_refl 0) s hs
  | succ n ih =>
      refine wp_seq (hbody (n + 1) (Nat.le_refl _) s hs) fun _ t ht => ?_
      exact ih (fun i hi => hbody i (Nat.le_succ_of_le hi)) ht

/-- The rule for two nested loops: every pair of the rectangle is taken out of the set to be visited. -/
theorem wp_sweep {body : ℕ → ℕ → Prog Op Ret Unit} {a b : ℕ} (J : Set (ℕ × ℕ) → σ → Prop)
    (hbody : ∀ T i j, i ≤ a → j ≤ b → ∀ s, J T s → wp sem R G (body i j) (fun _ => J (T \ {(i, j)})) s)
    {s : σ} (hs : J Set.univ s) :
    wp sem R G (sweep body a b) (fun _ => J {x | ¬ (x.1 ≤ a ∧ x.2 ≤ b)}) s := by
  -- With `i` rows left the rows from `i` on are done.
  have hend : {x : ℕ × ℕ | ¬ (x.1 ≤ a ∧ x.2 ≤ b)} = {x | ¬ (0 ≤ x.1 ∧ x.1 ≤ a ∧ x.2 ≤ b)} := by
    ext x
    simp
  rw [hend]
  refine wp_countDown (fun i => J {x | ¬ (i ≤ x.1 ∧ x.1 ≤ a ∧ x.2 ≤ b)}) ?_ ?_
  · intro i hi t ht
    -- In row `i`, with `j` pairs left those from `j` on are done too.
    have hrow : {x : ℕ × ℕ | ¬ (i ≤ x.1 ∧ x.1 ≤ a ∧ x.2 ≤ b)} =
        {x | ¬ (i + 1 ≤ x.1 ∧ x.1 ≤ a ∧ x.2 ≤ b) ∧ ¬ (x.1 = i ∧ 0 ≤ x.2 ∧ x.2 ≤ b)} := by
      ext x
      simp only [Set.mem_ofPred_eq]
      omega
    rw [hrow]
    refine wp_countDown
      (fun j => J {x | ¬ (i + 1 ≤ x.1 ∧ x.1 ≤ a ∧ x.2 ≤ b) ∧ ¬ (x.1 = i ∧ j ≤ x.2 ∧ x.2 ≤ b)}) ?_ ?_
    · intro j hj u hu
      refine wp_mono (fun _ w hw => ?_) (hbody _ i j hi hj u hu)
      have hset : {x : ℕ × ℕ | ¬ (i + 1 ≤ x.1 ∧ x.1 ≤ a ∧ x.2 ≤ b) ∧ ¬ (x.1 = i ∧ j ≤ x.2 ∧ x.2 ≤ b)} =
          {x | ¬ (i + 1 ≤ x.1 ∧ x.1 ≤ a ∧ x.2 ≤ b) ∧ ¬ (x.1 = i ∧ j + 1 ≤ x.2 ∧ x.2 ≤ b)} \ {(i, j)} := by
        ext x
        simp only [Set.mem_ofPred_eq, Set.mem_sdiff, Set.mem_singleton_iff, Prod.ext_iff]
        omega
      rw [hset]
      exact hw
    · have hset : {x : ℕ × ℕ | ¬ (i + 1 ≤ x.1 ∧ x.1 ≤ a ∧ x.2 ≤ b) ∧
            ¬ (x.1 = i ∧ b + 1 ≤ x.2 ∧ x.2 ≤ b)} = {x | ¬ (i + 1 ≤ x.1 ∧ x.1 ≤ a ∧ x.2 ≤ b)} := by
        ext x
        simp only [Set.mem_ofPred_eq]
        omega
      rw [hset]
      exact ht
  · have hset : {x : ℕ × ℕ | ¬ (a + 1 ≤ x.1 ∧ x.1 ≤ a ∧ x.2 ≤ b)} = Set.univ := by
      ext x
      simp only [Set.mem_ofPred_eq, Set.mem_univ, iff_true]
      omega
    rw [hset]
    exact hs

end Prog

end BspV3s
