import Mathlib.Data.Nat.Find
import Mathlib.Data.Nat.Notation
import Mathlib.Order.Lattice

/-!
# Search — what a loop over numbers has found so far

A loop that stops at the first number that passes, and a loop that keeps the first of the best.  Both
are described by what is true of the numbers already passed, so that one round of the loop is one of
the lemmas here.
-/

namespace BspV3s

/-! ## The first that passes -/

/-- `j` is the first number from `k` on of which `P` holds. -/
structure First (P : ℕ → Prop) (k j : ℕ) : Prop where
  le : k ≤ j
  holds : P j
  before : ∀ i, k ≤ i → i < j → ¬ P i

namespace First

variable {P : ℕ → Prop} {k j j' : ℕ}

theorem here (h : P k) : First P k k :=
  ⟨Nat.le_refl k, h, fun _ hle hlt => absurd hlt (Nat.not_lt.2 hle)⟩

theorem later (hk : ¬ P k) (h : First P (k + 1) j) : First P k j where
  le := Nat.le_of_succ_le h.le
  holds := h.holds
  before i hle hlt := by
    rcases Nat.eq_or_lt_of_le hle with rfl | hgt
    · exact hk
    · exact h.before i hgt hlt

theorem unique (h : First P k j) (h' : First P k j') : j = j' := by
  rcases Nat.lt_trichotomy j j' with hlt | heq | hgt
  · exact absurd h.holds (h'.before j h.le hlt)
  · exact heq
  · exact absurd h'.holds (h.before j' h'.le hgt)

theorem exists_of_exists (h : ∃ j, P j) : ∃ j, First P 0 j := by
  classical
  exact ⟨Nat.find h, Nat.zero_le _, Nat.find_spec h, fun _ _ hlt => Nat.find_min h hlt⟩

end First

/-! ## The first of the best -/

/-- Of the numbers from `lo` on and below `hi` that pass, `m` has the least cost, and is the first that
has it. -/
structure FirstBest {β : Type} [LinearOrder β] (P : ℕ → Prop) (cost : ℕ → β) (lo hi m : ℕ) : Prop where
  le : lo ≤ m
  lt : m < hi
  holds : P m
  best : ∀ j, lo ≤ j → j < hi → P j → cost m ≤ cost j
  first : ∀ j, lo ≤ j → j < m → P j → cost m < cost j

namespace FirstBest

variable {β : Type} [LinearOrder β] {P : ℕ → Prop} {cost : ℕ → β} {lo hi m : ℕ}

/-- The first number that passes is the best so far. -/
theorem found (hlo : lo ≤ hi) (hhi : P hi) (hnone : ∀ j, lo ≤ j → j < hi → ¬ P j) :
    FirstBest P cost lo (hi + 1) hi where
  le := hlo
  lt := Nat.lt_succ_self hi
  holds := hhi
  best j hle hlt hj := by
    rcases Nat.lt_succ_iff_lt_or_eq.1 hlt with hbelow | rfl
    · exact absurd hj (hnone j hle hbelow)
    · exact le_refl _
  first j hle hlt hj := absurd hj (hnone j hle hlt)

/-- A number that does not pass, or is not better, changes nothing. -/
theorem keep (h : FirstBest P cost lo hi m) (hhi : P hi → ¬ cost hi < cost m) :
    FirstBest P cost lo (hi + 1) m where
  le := h.le
  lt := Nat.lt_succ_of_lt h.lt
  holds := h.holds
  best j hle hlt hj := by
    rcases Nat.lt_succ_iff_lt_or_eq.1 hlt with hbelow | rfl
    · exact h.best j hle hbelow hj
    · exact not_lt.1 (hhi hj)
  first := h.first

/-- A better number takes over. -/
theorem improve (h : FirstBest P cost lo hi m) (hhi : P hi) (hbetter : cost hi < cost m) :
    FirstBest P cost lo (hi + 1) hi where
  le := Nat.le_of_lt (Nat.lt_of_le_of_lt h.le h.lt)
  lt := Nat.lt_succ_self hi
  holds := hhi
  best j hle hlt hj := by
    rcases Nat.lt_succ_iff_lt_or_eq.1 hlt with hbelow | rfl
    · exact le_trans (le_of_lt hbetter) (h.best j hle hbelow hj)
    · exact le_refl _
  first j hle hlt hj := lt_of_lt_of_le hbetter (h.best j hle hlt hj)

/-- The same, told by another test and another cost that agree on the numbers searched. -/
theorem congr {P' : ℕ → Prop} {cost' : ℕ → β} (hP : ∀ j, lo ≤ j → j < hi → (P j ↔ P' j))
    (hcost : ∀ j, lo ≤ j → j < hi → cost j = cost' j) (h : FirstBest P cost lo hi m) :
    FirstBest P' cost' lo hi m where
  le := h.le
  lt := h.lt
  holds := (hP m h.le h.lt).1 h.holds
  best j hle hlt hj := by
    rw [← hcost m h.le h.lt, ← hcost j hle hlt]
    exact h.best j hle hlt ((hP j hle hlt).2 hj)
  first j hle hlt hj := by
    have hlt' := Nat.lt_trans hlt h.lt
    rw [← hcost m h.le h.lt, ← hcost j hle hlt']
    exact h.first j hle hlt ((hP j hle hlt').2 hj)

end FirstBest

end BspV3s
