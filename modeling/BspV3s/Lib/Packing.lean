import BspV3s.Lib.Bits
import Mathlib.Logic.Function.Basic

/-!
# Packing — a map of small values in shared registers

A register file packs a map when every key has a field of its own in some register and the fields do
not overlap.  `Packing` carries that as fields; putting a value that fits into one field then changes
the map at that key only, whatever the other fields of the register hold.
-/

namespace BspV3s

/-- Fields for the keys `K` in 32-bit registers at addresses `A`. -/
structure Packing (K A : Type) where
  addr : K → A
  lo : K → ℕ
  width : K → ℕ
  fits : ∀ k, lo k + width k ≤ 32
  apart : ∀ k l, k ≠ l → addr k = addr l → lo k + width k ≤ lo l ∨ lo l + width l ≤ lo k

namespace Packing

variable {K A : Type} (P : Packing K A)

/-- The map that a register file holds. -/
def get (r : A → BitVec 32) (k : K) : BitVec (P.width k) :=
  (r (P.addr k)).extractLsb' (P.lo k) (P.width k)

/-- The value of a register with the field of `k` cleared and `x` shifted there, unmasked. -/
def put (k : K) (x v : BitVec 32) : BitVec 32 :=
  v &&& ~~~fieldMask (P.lo k) (P.width k) ||| x <<< P.lo k

variable {P} {k l : K} {x v : BitVec 32} {r : A → BitVec 32}

theorem getLsbD_eq_false_of_lt {n i : ℕ} (hx : x.toNat < 2 ^ n) (hi : n ≤ i) :
    x.getLsbD i = false :=
  Nat.testBit_lt_two_pow (lt_of_lt_of_le hx (Nat.pow_le_pow_right (by decide) hi))

theorem getLsbD_put (hx : x.toNat < 2 ^ P.width k) {i : ℕ} (hi : i < 32) :
    (P.put k x v).getLsbD i =
      if P.lo k ≤ i ∧ i < P.lo k + P.width k then x.getLsbD (i - P.lo k) else v.getLsbD i := by
  rw [put, BitVec.getLsbD_or, BitVec.getLsbD_and, BitVec.getLsbD_not, getLsbD_fieldMask,
    BitVec.getLsbD_shiftLeft]
  split
  · rename_i hin
    have hlo : ¬ i < P.lo k := by omega
    simp [hi, hin, hlo]
  · rename_i hout
    have hbit : (!decide (i < P.lo k) && x.getLsbD (i - P.lo k)) = false := by
      by_cases hlo : i < P.lo k
      · simp [hlo]
      · have hwide : P.width k ≤ i - P.lo k := by omega
        rw [getLsbD_eq_false_of_lt hx hwide, Bool.and_false]
    simp [hi, hout, hbit]

theorem extract_put_self (hx : x.toNat < 2 ^ P.width k) :
    (P.put k x v).extractLsb' (P.lo k) (P.width k) = x.setWidth (P.width k) := by
  apply BitVec.eq_of_getLsbD_eq
  intro i hi
  have hfits := P.fits k
  have hin : P.lo k ≤ P.lo k + i ∧ P.lo k + i < P.lo k + P.width k := by omega
  rw [BitVec.getLsbD_extractLsb', getLsbD_put hx (by omega), if_pos hin, BitVec.getLsbD_setWidth,
    Nat.add_sub_cancel_left]

theorem extract_put_of_apart (hx : x.toNat < 2 ^ P.width k)
    (h : P.lo k + P.width k ≤ P.lo l ∨ P.lo l + P.width l ≤ P.lo k) :
    (P.put k x v).extractLsb' (P.lo l) (P.width l) = v.extractLsb' (P.lo l) (P.width l) := by
  apply BitVec.eq_of_getLsbD_eq
  intro i hi
  have hfits := P.fits l
  have hout : ¬ (P.lo k ≤ P.lo l + i ∧ P.lo l + i < P.lo k + P.width k) := by omega
  rw [BitVec.getLsbD_extractLsb', getLsbD_put hx (by omega), if_neg hout,
    BitVec.getLsbD_extractLsb']

/-- The usual getter: shift down and mask. -/
theorem shift_and_mask {lo width : ℕ} (v : BitVec 32) :
    v >>> lo &&& fieldMask 0 width = (v.extractLsb' lo width).setWidth 32 := by
  apply BitVec.eq_of_getLsbD_eq
  intro i hi
  rw [BitVec.getLsbD_and, BitVec.getLsbD_ushiftRight, getLsbD_fieldMask, BitVec.getLsbD_setWidth,
    BitVec.getLsbD_extractLsb']
  by_cases hwidth : i < width
  · simp [hi, hwidth]
  · simp [hwidth]

variable [DecidableEq K] [DecidableEq A]

/-- Putting a value into one field changes the map at its key only. -/
theorem get_put (hx : x.toNat < 2 ^ P.width k) :
    P.get (Function.update r (P.addr k) (P.put k x (r (P.addr k)))) =
      Function.update (P.get r) k (x.setWidth (P.width k)) := by
  funext l
  by_cases hkey : l = k
  · subst hkey
    rw [Function.update_self, get, Function.update_self]
    exact extract_put_self hx
  · rw [Function.update_of_ne hkey]
    unfold get
    by_cases haddr : P.addr l = P.addr k
    · -- The fields share their register.
      rw [haddr, Function.update_self]
      exact extract_put_of_apart hx (P.apart k l (Ne.symm hkey) haddr.symm)
    · rw [Function.update_of_ne haddr]

end Packing

end BspV3s
