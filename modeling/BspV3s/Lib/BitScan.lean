import Mathlib.Data.BitVec
import BspV3s.Lib.Search

/-!
# BitScan — loops that take the bits of a word off one by one

`while (mask) { i = ffs(mask) - 1; ..; mask &= ~(1 << i); }` visits the bits of `mask` from the lowest
up.  What such a loop has to find is said by `Picked`, and one round of it is one of the lemmas here.

* `ffs_induction` : a property of all words, one bit at a time;
* `Picked`        : the first bit that passes a test, if there is one;
* `Picked.here`, `Picked.later` : the lowest bit passes, or does not.
-/

namespace BspV3s

section Scan

variable {w : ℕ}

/-- One more than the number of the lowest bit that is set, or zero. -/
def ffs (v : BitVec w) : ℕ :=
  match (List.range w).find? fun i => v.getLsbD i with
  | some i => i + 1
  | none => 0

/-- The lowest bit that is set. -/
theorem first_ffs {v : BitVec w} (hv : v ≠ 0) : First (fun i => v.getLsbD i = true) 0 (ffs v - 1) := by
  rw [ffs]
  cases hfind : (List.range w).find? fun i => v.getLsbD i with
  | none =>
      rw [List.find?_range_eq_none] at hfind
      refine absurd (BitVec.eq_of_getLsbD_eq fun i hi => ?_) hv
      have hclear : v.getLsbD i = false := by simpa using hfind i hi
      exact hclear.trans BitVec.getLsbD_zero.symm
  | some i =>
      rcases List.find?_range_eq_some.1 hfind with ⟨hset, -, hlower⟩
      refine ⟨Nat.zero_le _, hset, fun j _ hj => ?_⟩
      exact fun h => absurd (hlower j hj) (by rw [h]; exact Bool.false_ne_true)

theorem ffs_lt {v : BitVec w} (hv : v ≠ 0) : ffs v - 1 < w :=
  BitVec.lt_of_getLsbD (first_ffs hv).holds

/-- `v & ~(1 << i)`. -/
def clearBit (v : BitVec w) (i : ℕ) : BitVec w :=
  v &&& ~~~(1#w <<< i)

theorem getLsbD_one_bit (i j : ℕ) : (1#w <<< i).getLsbD j = (decide (i < w) && decide (i = j)) := by
  rw [← BitVec.twoPow_eq, BitVec.getLsbD_twoPow]

theorem getLsbD_clearBit (v : BitVec w) (i j : ℕ) :
    (clearBit v i).getLsbD j = (v.getLsbD j && decide (j ≠ i)) := by
  rw [clearBit, BitVec.getLsbD_and, BitVec.getLsbD_not, getLsbD_one_bit]
  by_cases hj : j < w
  · by_cases heq : j = i
    · subst heq
      simp [hj]
    · simp [hj, heq, Ne.symm heq]
  · rw [BitVec.getLsbD_of_ge _ _ (Nat.le_of_not_lt hj)]
    rfl

/-- A loop that clears a bit in every round comes to an end. -/
theorem toNat_clearBit_lt {v : BitVec w} {i : ℕ} (hi : v.getLsbD i = true) :
    (clearBit v i).toNat < v.toNat := by
  have hle : (clearBit v i).toNat ≤ v.toNat := by
    rw [clearBit, BitVec.toNat_and]
    exact Nat.and_le_left
  refine lt_of_le_of_ne hle fun heq => ?_
  have hbit := getLsbD_clearBit v i i
  rw [BitVec.eq_of_toNat_eq heq, hi] at hbit
  simp at hbit

theorem toNat_clearBit_ffs_lt {v : BitVec w} (hv : v ≠ 0) :
    (clearBit v (ffs v - 1)).toNat < v.toNat :=
  toNat_clearBit_lt (first_ffs hv).holds

theorem ffs_induction {motive : BitVec w → Prop} (zero : motive 0)
    (step : ∀ v, v ≠ 0 → motive (clearBit v (ffs v - 1)) → motive v) (v : BitVec w) : motive v := by
  induction hn : v.toNat using Nat.strong_induction_on generalizing v with
  | _ n ih =>
      by_cases hv : v = 0
      · exact hv ▸ zero
      · exact step v hv (ih _ (hn ▸ toNat_clearBit_ffs_lt hv) _ rfl)

/-- The lowest bit of `v` of which `Q` holds. -/
def Picked (v : BitVec w) (Q : ℕ → Prop) : Option ℕ → Prop
  | some i => First (fun i => v.getLsbD i = true ∧ Q i) 0 i
  | none => ∀ i, v.getLsbD i = true → ¬ Q i

namespace Picked

variable {v : BitVec w} {Q Q' : ℕ → Prop} {r r' : Option ℕ}

theorem zero : Picked (0 : BitVec w) Q none := by
  intro i hi
  exact absurd (BitVec.getLsbD_zero.symm.trans hi) Bool.false_ne_true

theorem here (hv : v ≠ 0) (hQ : Q (ffs v - 1)) : Picked v Q (some (ffs v - 1)) where
  le := Nat.zero_le _
  holds := ⟨(first_ffs hv).holds, hQ⟩
  before i hle hlt h := (first_ffs hv).before i hle hlt h.1

theorem later (hQ : ¬ Q (ffs v - 1)) (h : Picked (clearBit v (ffs v - 1)) Q r) : Picked v Q r := by
  -- The bit that is gone did not pass.
  have hbits : ∀ i, ((clearBit v (ffs v - 1)).getLsbD i = true ∧ Q i) ↔ (v.getLsbD i = true ∧ Q i) := by
    intro i
    rw [getLsbD_clearBit]
    refine ⟨fun hi => ⟨(Bool.and_eq_true _ _ ▸ hi.1).1, hi.2⟩, fun hi => ⟨?_, hi.2⟩⟩
    rw [hi.1, Bool.true_and, decide_eq_true_eq]
    rintro rfl
    exact hQ hi.2
  cases r with
  | none => exact fun i hi hq => h i ((hbits i).2 ⟨hi, hq⟩).1 hq
  | some i =>
      exact ⟨h.le, (hbits i).1 h.holds, fun j hle hlt hj => h.before j hle hlt ((hbits j).2 hj)⟩

theorem unique (h : Picked v Q r) (h' : Picked v Q r') : r = r' := by
  cases r with
  | none =>
      cases r' with
      | none => rfl
      | some i => exact absurd h'.holds.2 (h i h'.holds.1)
  | some i =>
      cases r' with
      | none => exact absurd h.holds.2 (h' i h.holds.1)
      | some j => rw [First.unique h h']

theorem exists_picked (v : BitVec w) (Q : ℕ → Prop) : ∃ r, Picked v Q r := by
  classical
  by_cases h : ∃ i, v.getLsbD i = true ∧ Q i
  · rcases First.exists_of_exists h with ⟨i, hi⟩
    exact ⟨some i, hi⟩
  · exact ⟨none, fun i hi hq => h ⟨i, hi, hq⟩⟩

theorem lt {i : ℕ} (h : Picked v Q (some i)) : i < w :=
  BitVec.lt_of_getLsbD h.holds.1

/-- One bit is the only one to pick. -/
theorem single {i : ℕ} (hi : i < w) [Decidable (Q i)] :
    Picked (1#w <<< i) Q (if Q i then some i else none) := by
  have hbit : ∀ j, (1#w <<< i).getLsbD j = true ↔ j = i := by
    intro j
    rw [getLsbD_one_bit, decide_eq_true hi, Bool.true_and, decide_eq_true_eq]
    exact eq_comm
  split
  · rename_i hQ
    exact ⟨Nat.zero_le _, ⟨(hbit i).2 rfl, hQ⟩, fun j _ hlt hj => absurd ((hbit j).1 hj.1) (ne_of_lt hlt)⟩
  · rename_i hQ
    intro j hj
    rw [(hbit j).1 hj]
    exact hQ

end Picked

end Scan

end BspV3s
