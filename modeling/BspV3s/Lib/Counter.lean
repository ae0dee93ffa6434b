import Mathlib.Data.Nat.ModEq

/-!
# Counter — elapsed time read off a periodic counter

A polling loop sees a periodic counter only through samples `s % L`.  `credit L a b` is the time
that such a loop credits between two samples `a` and `b`: their difference when the counter has
advanced, and the distance through the rollover otherwise.  Between samples taken at distinct
instants the credit never exceeds the time that has really passed; between samples taken at the
same instant it is a whole period.
-/

namespace BspV3s

namespace Counter

/-- The time credited between successive samples `a` and `b` of a counter of period `L`. -/
def credit (L a b : ℕ) : ℕ :=
  if a < b then b - a else L - a + b

variable {L : ℕ}

theorem credit_pos {a b : ℕ} (ha : a < L) : 0 < credit L a b := by
  unfold credit
  split <;> omega

/-- Distinct instants are never credited with more than lies between them. -/
theorem credit_le_elapsed {s s' : ℕ} (hL : 0 < L) (h : s < s') :
    credit L (s % L) (s' % L) ≤ s' - s := by
  have hs : L * (s / L) + s % L = s := Nat.div_add_mod s L
  have hs' : L * (s' / L) + s' % L = s' := Nat.div_add_mod s' L
  have ha : s % L < L := Nat.mod_lt s hL
  have hb : s' % L < L := Nat.mod_lt s' hL
  have hq : s / L ≤ s' / L := Nat.div_le_div_right h.le
  unfold credit
  split
  · have hmul : L * (s / L) ≤ L * (s' / L) := Nat.mul_le_mul_left L hq
    omega
  · -- The counter has rolled over: the quotients differ by at least one.
    next hge =>
      have hlt : s / L + 1 ≤ s' / L := by
        by_contra hcon
        have heq : s' / L = s / L := by omega
        rw [heq] at hs'
        omega
      have hmul : L * (s / L + 1) ≤ L * (s' / L) := Nat.mul_le_mul_left L hlt
      rw [Nat.mul_add, Nat.mul_one] at hmul
      omega

end Counter

end BspV3s
