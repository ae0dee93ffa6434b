import Mathlib.Data.Nat.Notation
import Mathlib.Tactic.Ring

/-!
# LongDivision — division by shifting and subtracting

`Partway n base rem res k` is the state of a division of `n` by `base` whose next multiple to be
subtracted is `base * 2 ^ k`: `res` times the divisor has been taken off, `rem` is left, and what is left
is less than two of the next multiple.  A round takes the multiple off where it fits, adds its factor
to the quotient and goes on to half of it; after the round for `k = 0` quotient and remainder are there.
-/

namespace BspV3s

/-- A division that has come down to the multiple `base * 2 ^ k`. -/
structure Partway (n base rem res k : ℕ) : Prop where
  sum : res * base + rem = n
  rem_lt : rem < 2 * (base * 2 ^ k)

namespace Partway

variable {n base rem res k : ℕ}

theorem start (h : n < 2 * (base * 2 ^ k)) : Partway n base n 0 k where
  sum := by rw [Nat.zero_mul, Nat.zero_add]
  rem_lt := h

/-- What is left after the round. -/
def leave (base k rem : ℕ) : ℕ := if base * 2 ^ k ≤ rem then rem - base * 2 ^ k else rem

/-- The quotient after the round. -/
def found (base k rem res : ℕ) : ℕ := if base * 2 ^ k ≤ rem then res + 2 ^ k else res

theorem leave_lt (h : Partway n base rem res k) : leave base k rem < base * 2 ^ k := by
  have hlt := h.rem_lt
  unfold leave
  split
  · omega
  · next hsmall => exact Nat.lt_of_not_le hsmall

theorem sum_found (h : Partway n base rem res k) : found base k rem res * base + leave base k rem = n := by
  rw [← h.sum]
  unfold found leave
  split
  · next hle =>
      calc (res + 2 ^ k) * base + (rem - base * 2 ^ k)
          = res * base + (base * 2 ^ k + (rem - base * 2 ^ k)) := by ring
        _ = res * base + rem := by rw [Nat.add_sub_cancel' hle]
  · rfl

/-- A round on the way. -/
theorem round (h : Partway n base rem res (k + 1)) :
    Partway n base (leave base (k + 1) rem) (found base (k + 1) rem res) k where
  sum := h.sum_found
  rem_lt := by
    calc leave base (k + 1) rem < base * 2 ^ (k + 1) := h.leave_lt
      _ = 2 * (base * 2 ^ k) := by ring

/-- The last round. -/
theorem last (h : Partway n base rem res 0) :
    found base 0 rem res = n / base ∧ leave base 0 rem = n % base := by
  have hlt := h.leave_lt
  have hsum := h.sum_found
  rw [Nat.pow_zero, Nat.mul_one] at hlt
  have hdiv : (found base 0 rem res * base + leave base 0 rem) / base = found base 0 rem res := by
    rw [Nat.mul_comm, Nat.mul_add_div (Nat.zero_lt_of_lt hlt), Nat.div_eq_of_lt hlt, Nat.add_zero]
  have hmod : (found base 0 rem res * base + leave base 0 rem) % base = leave base 0 rem := by
    rw [Nat.mul_comm, Nat.mul_add_mod, Nat.mod_eq_of_lt hlt]
  rw [hsum] at hdiv hmod
  exact ⟨hdiv.symm, hmod.symm⟩

/-- No quotient on the way exceeds the one that is found. -/
theorem found_mul_le (h : Partway n base rem res k) : found base k rem res * base ≤ n :=
  Nat.le.intro h.sum_found

end Partway

end BspV3s
