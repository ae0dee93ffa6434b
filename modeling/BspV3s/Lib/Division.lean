import Mathlib.Algebra.Order.Floor.Div
import Mathlib.Algebra.Order.Floor.Semifield
import Mathlib.Algebra.Order.Round
import Mathlib.Data.Rat.Floor
import Mathlib.GroupTheory.GroupAction.Ring
import Mathlib.Tactic.Linarith

/-!
# Division — quotients rounded up and to nearest, and dividers of a power and a factor

Clock dividers are quotients of rates, rounded one way or the other.  Division rounded up composes, so
a divider may be halved, rounding up, any number of times and is still the quotient rounded up once;
and a divider `b ^ n * m` with a bounded factor `m` that is found by dividing by `b` until the factor
fits is the least there is.
-/

namespace BspV3s

/-! ## Division rounded up -/

section CeilDiv

variable {a b d e n m k limit : ℕ}

theorem ceilDiv_ceilDiv (ha : 0 < a) (hb : 0 < b) (d : ℕ) : d ⌈/⌉ a ⌈/⌉ b = d ⌈/⌉ (a * b) := by
  refine eq_of_forall_ge_iff fun c => ?_
  rw [ceilDiv_le_iff_le_mul hb, ceilDiv_le_iff_le_mul ha, ceilDiv_le_iff_le_mul (Nat.mul_pos ha hb),
    Nat.mul_assoc]

theorem ceilDiv_pos (ha : 0 < a) (hd : 0 < d) : 0 < d ⌈/⌉ a := by
  rw [← Nat.not_le, ceilDiv_le_iff_le_mul ha, Nat.mul_zero, Nat.not_le]
  exact hd

/-- The quotient rounded up is the ceiling of the exact quotient. -/
theorem natCeil_div (d : ℕ) (ha : 0 < a) : ⌈(d : ℚ) / a⌉₊ = d ⌈/⌉ a := by
  have hpos : (0 : ℚ) < a := Nat.cast_pos.2 ha
  refine eq_of_forall_ge_iff fun c => ?_
  rw [Nat.ceil_le, ceilDiv_le_iff_le_mul ha, div_le_iff₀ hpos, mul_comm]
  exact_mod_cast Iff.rfl

/-- Dividing and adding one where there is a remainder. -/
theorem div_add_ite (d : ℕ) (ha : 0 < a) :
    (if d % a ≠ 0 then d / a + 1 else d / a) = d ⌈/⌉ a := by
  have hdiv := Nat.div_add_mod d a
  refine eq_of_forall_ge_iff fun c => ?_
  rw [ceilDiv_le_iff_le_mul ha]
  split
  · next hrem =>
      rw [Nat.add_one_le_iff, Nat.div_lt_iff_lt_mul ha, mul_comm c]
      refine ⟨le_of_lt, fun hle => lt_of_le_of_ne hle fun h => hrem ?_⟩
      rw [h, Nat.mul_mod_right]
  · next hrem =>
      have hrem := Decidable.of_not_not hrem
      rw [hrem, Nat.add_zero] at hdiv
      calc d / a ≤ c ↔ a * (d / a) ≤ a * c := (Nat.mul_le_mul_left_iff ha).symm
        _ ↔ d ≤ a * c := by rw [hdiv]

/-! ## A power and a bounded factor -/

/-- Dividing `d` by `b`, rounding up, brings it down to the limit in `k` rounds and not before. -/
structure LeastPower (b limit d k : ℕ) : Prop where
  fits : d ⌈/⌉ b ^ k ≤ limit
  least : ∀ j < k, limit < d ⌈/⌉ b ^ j

theorem LeastPower.zero (h : d ≤ limit) : LeastPower b limit d 0 where
  fits := by rwa [Nat.pow_zero, ceilDiv_one]
  least _ hj := absurd hj (Nat.not_lt_zero _)

theorem LeastPower.succ (hb : 0 < b) (hd : limit < d) (h : LeastPower b limit (d ⌈/⌉ b) k) :
    LeastPower b limit d (k + 1) := by
  have hround : ∀ j, d ⌈/⌉ b ⌈/⌉ b ^ j = d ⌈/⌉ b ^ (j + 1) := by
    intro j
    rw [ceilDiv_ceilDiv hb (Nat.pow_pos hb), ← Nat.pow_succ']
  constructor
  · rw [← hround]
    exact h.fits
  · intro j hj
    cases j with
    | zero => rwa [Nat.pow_zero, ceilDiv_one]
    | succ j =>
        rw [← hround]
        exact h.least j (Nat.lt_of_succ_lt_succ hj)

theorem LeastPower.le_iff (hb : 0 < b) (h : LeastPower b limit d k) :
    k ≤ e ↔ d ≤ b ^ e * limit := by
  rw [← ceilDiv_le_iff_le_mul (Nat.pow_pos hb)]
  constructor
  · intro hle
    -- More rounds only make the factor smaller.
    rw [ceilDiv_le_iff_le_mul (Nat.pow_pos hb)]
    calc d ≤ b ^ k * (d ⌈/⌉ b ^ k) := le_smul_ceilDiv (Nat.pow_pos hb)
      _ ≤ b ^ e * limit := Nat.mul_le_mul (Nat.pow_le_pow_right hb hle) h.fits
  · intro hfits
    exact Nat.le_of_not_lt fun hlt => Nat.not_lt.2 hfits (h.least e hlt)

/-- No divider of this form lies between `d` and the one found. -/
theorem LeastPower.best (hb : 0 < b) (h : LeastPower b limit d k) (hm : m ≤ limit)
    (hd : d ≤ b ^ n * m) : b ^ k * (d ⌈/⌉ b ^ k) ≤ b ^ n * m := by
  have hkn : k ≤ n := (h.le_iff hb).2 (hd.trans (Nat.mul_le_mul_left _ hm))
  have hsplit : b ^ n * m = b ^ k * (b ^ (n - k) * m) := by
    rw [← Nat.mul_assoc, ← Nat.pow_add, Nat.add_sub_cancel' hkn]
  rw [hsplit] at hd ⊢
  exact Nat.mul_le_mul_left _ ((ceilDiv_le_iff_le_mul (Nat.pow_pos hb)).2 hd)

end CeilDiv

/-! ## Division to nearest -/

/-- No integer is nearer to `x`. -/
def Nearest (x : ℚ) (v : ℕ) : Prop := ∀ k : ℤ, |x - v| ≤ |x - k|

theorem nearest_iff_abs_le {x : ℚ} {v : ℕ} : Nearest x v ↔ |x - v| ≤ 1 / 2 := by
  constructor
  · exact fun h => (h (round x)).trans (abs_sub_round x)
  · intro h k
    by_cases hk : k = v
    · rw [hk, Int.cast_natCast]
    · have hone : (1 : ℚ) ≤ |(k : ℚ) - v| := by
        have hint : 1 ≤ |k - (v : ℤ)| := Int.one_le_abs (sub_ne_zero.2 hk)
        exact_mod_cast hint
      have htri : |(k : ℚ) - v| ≤ |x - k| + |x - v| := by
        calc |(k : ℚ) - v| = |(x - v) - (x - k)| := by rw [sub_sub_sub_cancel_left]
          _ ≤ |x - v| + |x - k| := abs_sub _ _
          _ = |x - k| + |x - v| := add_comm _ _
      linarith

/-- The quotients nearest to `n / d`, without division. -/
theorem nearest_div_iff {n d v : ℕ} (hd : 0 < d) :
    Nearest ((n : ℚ) / d) v ↔ 2 * n ≤ (2 * v + 1) * d ∧ 2 * v * d ≤ 2 * n + d := by
  have hpos : (0 : ℚ) < d := Nat.cast_pos.2 hd
  have hupper : (n : ℚ) / d - v ≤ 1 / 2 ↔ 2 * n ≤ (2 * v + 1) * d := by
    rw [sub_le_iff_le_add, div_le_iff₀ hpos]
    constructor
    · intro h
      have hq : (2 * n : ℚ) ≤ (2 * v + 1) * d := by linarith
      exact_mod_cast hq
    · intro h
      have hq : (2 * n : ℚ) ≤ (2 * v + 1) * d := by exact_mod_cast h
      linarith
  have hlower : -(1 / 2) ≤ (n : ℚ) / d - v ↔ 2 * v * d ≤ 2 * n + d := by
    rw [le_sub_iff_add_le, le_div_iff₀ hpos]
    constructor
    · intro h
      have hq : (2 * v * d : ℚ) ≤ 2 * n + d := by linarith
      exact_mod_cast hq
    · intro h
      have hq : (2 * v * d : ℚ) ≤ 2 * n + d := by exact_mod_cast h
      linarith
  rw [nearest_iff_abs_le, abs_le, hupper, hlower, and_comm]

/-- Adding half of the divisor before dividing. -/
theorem nearest_add_half_div (n : ℕ) {d : ℕ} (hd : 0 < d) :
    Nearest ((n : ℚ) / d) ((n + d / 2) / d) := by
  have hle : (n + d / 2) / d * d ≤ n + d / 2 := Nat.div_mul_le_self _ _
  have hlt : n + d / 2 < ((n + d / 2) / d + 1) * d := by
    rw [Nat.add_mul, Nat.one_mul]
    exact Nat.lt_div_mul_add hd
  rw [nearest_div_iff hd]
  generalize (n + d / 2) / d = v at *
  rw [Nat.add_mul, Nat.one_mul] at *
  rw [Nat.mul_assoc]
  omega

end BspV3s
