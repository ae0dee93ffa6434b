import BspV3s.Lib.LongDivision
import Mathlib.Data.BitVec

/-!
# Div64 — dividing 64 bits by 32

`do_div` divides words of 64 bits for `sun4i_pwm_config`.  Where the upper half is zero the processor
divides; otherwise `__div64_32` takes off what the upper half alone allows, doubles the divisor until it
is not below the rest or has reached the sign bit, and then shifts and subtracts.

* `grow_spec`   : the doubled divisor is the divisor times a power of two, and twice it exceeds the rest;
* `shrink_spec` : the loop that shifts and subtracts ends with quotient and remainder;
* `doDiv_exact` : quotient and remainder, for every dividend and every divisor but zero.
-/

namespace BspV3s

namespace Pwm

namespace Div64

abbrev U32 := BitVec 32
abbrev U64 := BitVec 64

/-! ## The routines -/

theorem lt_of_toInt_pos {b : U64} (h : 0 < b.toInt) : 0 < b.toNat ∧ b.toNat < 2 ^ 63 := by
  rw [BitVec.toInt_eq_toNat_cond] at h
  split at h
  · omega
  · omega

theorem toNat_double {b : U64} (h : b.toNat < 2 ^ 63) : (b + b).toNat = 2 * b.toNat := by
  rw [BitVec.toNat_add]
  omega

theorem toNat_half (d : U64) : (d >>> 1).toNat = d.toNat / 2 := by
  rw [BitVec.toNat_ushiftRight, Nat.shiftRight_eq_div_pow, Nat.pow_one]

/-- The first loop of `__div64_32`. -/
def grow (rem b d : U64) : U64 × U64 :=
  if 0 < b.toInt ∧ b < rem then grow rem (b + b) (d + d) else (b, d)
  termination_by 2 ^ 64 - b.toNat
  decreasing_by
    rename_i h
    have hpos := lt_of_toInt_pos h.1
    rw [toNat_double hpos.2]
    omega

/-- The second loop of `__div64_32`, which runs at least once. -/
def shrink (rem res b d : U64) : U64 × U64 :=
  let rest := if b ≤ rem then rem - b else rem
  let sum := if b ≤ rem then res + d else res
  if d >>> 1 ≠ 0 then shrink rest sum (b >>> 1) (d >>> 1) else (sum, rest)
  termination_by d.toNat
  decreasing_by
    rename_i h
    have hne : (d >>> 1).toNat ≠ 0 := fun hzero => h (BitVec.eq_of_toNat_eq hzero)
    rw [toNat_half] at hne ⊢
    omega

/-- `__div64_32`: the quotient that it stores, and the remainder that it returns. -/
def div6432 (n : U64) (base : U32) : U64 × U32 :=
  let high : U32 := (n >>> 32).setWidth 32
  let reduced : U64 × U64 :=
    if base ≤ high then
      let high := high / base
      (high.setWidth 64 <<< 32, n - (high * base).setWidth 64 <<< 32)
    else (0, n)
  let grown := grow reduced.2 (base.setWidth 64) 1
  let out := shrink reduced.2 reduced.1 grown.1 grown.2
  (out.1, out.2.setWidth 32)

/-- `do_div`: the new value of `n`, and the remainder. -/
def doDiv (n : U64) (base : U32) : U64 × U32 :=
  if n >>> 32 = 0 then ((n.setWidth 32 / base).setWidth 64, n.setWidth 32 % base)
  else div6432 n base

/-! ## The loops -/

variable {n base j k : ℕ} {rem res b d : U64}

theorem grow_spec (rem : U64) (hb : b.toNat = base * 2 ^ j) (hd : d.toNat = 2 ^ j) (hbase : 0 < base) :
    ∃ k, (grow rem b d).1.toNat = base * 2 ^ k ∧ (grow rem b d).2.toNat = 2 ^ k ∧
      rem.toNat < 2 * (base * 2 ^ k) := by
  induction b, d using grow.induct rem generalizing j with
  | case1 b d h ih =>
      rw [grow, if_pos h]
      have hpos := lt_of_toInt_pos h.1
      -- The factor stays below the doubled divisor.
      have hle : 2 ^ j ≤ base * 2 ^ j := Nat.le_mul_of_pos_left _ hbase
      refine ih (j := j + 1) ?_ ?_
      · rw [toNat_double hpos.2, hb]
        ring
      · rw [toNat_double (by omega), hd]
        ring
  | case2 b d h =>
      rw [grow, if_neg h]
      refine ⟨j, hb, hd, ?_⟩
      rw [← hb]
      have hbpos : 0 < b.toNat := by
        rw [hb]
        exact Nat.mul_pos hbase (Nat.two_pow_pos j)
      rw [not_and_or] at h
      rcases h with hsign | hge
      · rw [BitVec.toInt_eq_toNat_cond] at hsign
        have hrem := rem.isLt
        split at hsign
        · omega
        · omega
      · have hge : rem.toNat ≤ b.toNat := Nat.le_of_not_lt hge
        omega

theorem le_iff (hb : b.toNat = base * 2 ^ k) : b ≤ rem ↔ base * 2 ^ k ≤ rem.toNat := by
  rw [BitVec.le_def, hb]

theorem toNat_leave (rem : U64) (hb : b.toNat = base * 2 ^ k) :
    (if b ≤ rem then rem - b else rem).toNat = Partway.leave base k rem.toNat := by
  unfold Partway.leave
  by_cases hfits : base * 2 ^ k ≤ rem.toNat
  · have hle := (le_iff hb).2 hfits
    rw [if_pos hfits, if_pos hle, BitVec.toNat_sub_of_le hle, hb]
  · rw [if_neg hfits, if_neg fun hle => hfits ((le_iff hb).1 hle)]

theorem toNat_found (hb : b.toNat = base * 2 ^ k) (hd : d.toNat = 2 ^ k) (hbase : 0 < base)
    (hn : n < 2 ^ 64) (h : Partway n base rem.toNat res.toNat k) :
    (if b ≤ rem then res + d else res).toNat = Partway.found base k rem.toNat res.toNat := by
  -- The quotient is no larger than the dividend.
  have hbound : Partway.found base k rem.toNat res.toNat < 2 ^ 64 :=
    lt_of_le_of_lt (le_trans (Nat.le_mul_of_pos_right _ hbase) h.found_mul_le) hn
  unfold Partway.found at hbound ⊢
  by_cases hfits : base * 2 ^ k ≤ rem.toNat
  · rw [if_pos hfits] at hbound ⊢
    rw [if_pos ((le_iff hb).2 hfits), BitVec.toNat_add, hd, Nat.mod_eq_of_lt hbound]
  · rw [if_neg hfits, if_neg fun hle => hfits ((le_iff hb).1 hle)]

theorem shrink_spec (hb : b.toNat = base * 2 ^ k) (hd : d.toNat = 2 ^ k) (hbase : 0 < base)
    (hn : n < 2 ^ 64) (h : Partway n base rem.toNat res.toNat k) :
    (shrink rem res b d).1.toNat = n / base ∧ (shrink rem res b d).2.toNat = n % base := by
  have hrest := toNat_leave rem hb
  have hsum := toNat_found hb hd hbase hn h
  induction k generalizing rem res b d with
  | zero =>
      have hlast : d >>> 1 = 0 := BitVec.eq_of_toNat_eq (by rw [toNat_half, hd]; rfl)
      rw [shrink, if_neg (by simp [hlast])]
      dsimp only
      rw [hrest, hsum]
      exact h.last
  | succ k ih =>
      have hbhalf : (b >>> 1).toNat = base * 2 ^ k := by
        rw [toNat_half, hb, Nat.pow_succ, ← Nat.mul_assoc, Nat.mul_div_cancel _ (by decide)]
      have hdhalf : (d >>> 1).toNat = 2 ^ k := by
        rw [toNat_half, hd, Nat.pow_succ, Nat.mul_div_cancel _ (by decide)]
      have hmore : d >>> 1 ≠ 0 := by
        intro hzero
        rw [hzero] at hdhalf
        exact absurd hdhalf (Nat.ne_of_lt (Nat.two_pow_pos k))
      have hround := h.round
      rw [← hrest, ← hsum] at hround
      rw [shrink, if_pos hmore]
      exact ih hbhalf hdhalf hround (toNat_leave _ hbhalf) (toNat_found hbhalf hdhalf hbase hn hround)

/-! ## The division -/

section Division

variable {n : U64} {base : U32}

theorem toNat_upper (x : U32) : (x.setWidth 64 <<< 32 : U64).toNat = x.toNat * 2 ^ 32 := by
  have hx := x.isLt
  have hwide : (x.setWidth 64).toNat = x.toNat := by
    rw [BitVec.toNat_setWidth, Nat.mod_eq_of_lt (lt_trans hx (by decide))]
  rw [BitVec.toNat_shiftLeft, hwide, Nat.shiftLeft_eq, Nat.mod_eq_of_lt (by omega)]

theorem toNat_high (n : U64) : ((n >>> 32).setWidth 32).toNat = n.toNat / 2 ^ 32 := by
  have hn : n.toNat / 2 ^ 32 < 2 ^ 32 := Nat.div_lt_of_lt_mul n.isLt
  rw [BitVec.toNat_setWidth, BitVec.toNat_ushiftRight, Nat.shiftRight_eq_div_pow, Nat.mod_eq_of_lt hn]

/-- What the upper half alone allows is taken off. -/
theorem reduced_sum {high : U32} (hhigh : high.toNat = n.toNat / 2 ^ 32) :
    ((high / base).setWidth 64 <<< 32 : U64).toNat * base.toNat +
      (n - (high / base * base).setWidth 64 <<< 32).toNat = n.toNat := by
  have hmul : (high / base * base).toNat = high.toNat / base.toNat * base.toNat := by
    rw [BitVec.toNat_mul, BitVec.toNat_udiv,
      Nat.mod_eq_of_lt (lt_of_le_of_lt (Nat.div_mul_le_self _ _) high.isLt)]
  have hle : high.toNat / base.toNat * base.toNat * 2 ^ 32 ≤ n.toNat :=
    calc high.toNat / base.toNat * base.toNat * 2 ^ 32
        ≤ high.toNat * 2 ^ 32 := Nat.mul_le_mul_right _ (Nat.div_mul_le_self _ _)
      _ = n.toNat / 2 ^ 32 * 2 ^ 32 := by rw [hhigh]
      _ ≤ n.toNat := Nat.div_mul_le_self _ _
  have hsub : (high / base * base).setWidth 64 <<< 32 ≤ n := by
    rw [BitVec.le_def, toNat_upper, hmul]
    exact hle
  rw [BitVec.toNat_sub_of_le hsub, toNat_upper, toNat_upper, hmul, BitVec.toNat_udiv,
    Nat.mul_right_comm]
  exact Nat.add_sub_cancel' hle

theorem div6432_exact (hbase : base ≠ 0) :
    (div6432 n base).1.toNat = n.toNat / base.toNat ∧
      (div6432 n base).2.toNat = n.toNat % base.toNat := by
  have hpos : 0 < base.toNat := Nat.pos_of_ne_zero fun hzero => hbase (BitVec.eq_of_toNat_eq hzero)
  have hwide : (base.setWidth 64).toNat = base.toNat * 2 ^ 0 := by
    rw [BitVec.toNat_setWidth, Nat.mod_eq_of_lt (lt_trans base.isLt (by decide)), Nat.pow_zero,
      Nat.mul_one]
  -- From any start with the right sum the two loops end with quotient and remainder.
  have hloops : ∀ res rem : U64, res.toNat * base.toNat + rem.toNat = n.toNat →
      let grown := grow rem (base.setWidth 64) 1
      (shrink rem res grown.1 grown.2).1.toNat = n.toNat / base.toNat ∧
        ((shrink rem res grown.1 grown.2).2.setWidth 32).toNat = n.toNat % base.toNat := by
    intro res rem hsum grown
    rcases grow_spec rem hwide (d := 1) rfl hpos with ⟨k, hb, hd, hrem⟩
    have hout := shrink_spec hb hd hpos n.isLt ⟨hsum, hrem⟩
    refine ⟨hout.1, ?_⟩
    have hlt : n.toNat % base.toNat < 2 ^ 32 := lt_trans (Nat.mod_lt _ hpos) base.isLt
    rw [BitVec.toNat_setWidth, hout.2, Nat.mod_eq_of_lt hlt]
  unfold div6432
  dsimp only
  split
  · exact hloops _ _ (reduced_sum (toNat_high n))
  · have hzero : (0 : U64).toNat = 0 := rfl
    exact hloops 0 n (by rw [hzero, Nat.zero_mul, Nat.zero_add])

/-- The quotient of 64 bits, and the remainder, which fits into 32. -/
def divided (n : U64) (base : U32) : U64 × U32 :=
  (n / base.setWidth 64, (n % base.setWidth 64).setWidth 32)

theorem eq_divided {out : U64 × U32} (hbase : base ≠ 0)
    (h : out.1.toNat = n.toNat / base.toNat ∧ out.2.toNat = n.toNat % base.toNat) :
    out = divided n base := by
  have hwide : (base.setWidth 64).toNat = base.toNat := by
    rw [BitVec.toNat_setWidth, Nat.mod_eq_of_lt (lt_trans base.isLt (by decide))]
  have hpos : 0 < base.toNat := Nat.pos_of_ne_zero fun hzero => hbase (BitVec.eq_of_toNat_eq hzero)
  have hlt : n.toNat % base.toNat < 2 ^ 32 := lt_trans (Nat.mod_lt _ hpos) base.isLt
  refine Prod.ext (BitVec.eq_of_toNat_eq ?_) (BitVec.eq_of_toNat_eq ?_)
  · rw [h.1, divided, BitVec.toNat_udiv, hwide]
  · rw [h.2, divided, BitVec.toNat_setWidth, BitVec.toNat_umod, hwide, Nat.mod_eq_of_lt hlt]

/-- A dividend of 32 bits is divided by the processor. -/
theorem doDiv_small (hsmall : n >>> 32 = 0) :
    (doDiv n base).1.toNat = n.toNat / base.toNat ∧ (doDiv n base).2.toNat = n.toNat % base.toNat := by
  have hhigh := congrArg BitVec.toNat hsmall
  rw [BitVec.toNat_ushiftRight, Nat.shiftRight_eq_div_pow] at hhigh
  have hn : n.toNat < 2 ^ 32 := (Nat.div_eq_zero_iff_lt (by decide)).1 hhigh
  have hlow : (n.setWidth 32).toNat = n.toNat := by
    rw [BitVec.toNat_setWidth, Nat.mod_eq_of_lt hn]
  rw [doDiv, if_pos hsmall]
  refine ⟨?_, ?_⟩
  · rw [BitVec.toNat_setWidth, BitVec.toNat_udiv, hlow,
      Nat.mod_eq_of_lt (lt_of_le_of_lt (Nat.div_le_self _ _) n.isLt)]
  · rw [BitVec.toNat_umod, hlow]

/-- For every dividend and every divisor but zero the loops of `__div64_32` end with the quotient and the
remainder, and `do_div` gives the same by either of its ways. -/
theorem doDiv_exact (n : U64) (hbase : base ≠ 0) :
    div6432 n base = divided n base ∧ doDiv n base = divided n base := by
  have hlong := eq_divided hbase (div6432_exact (n := n) hbase)
  refine ⟨hlong, ?_⟩
  by_cases hsmall : n >>> 32 = 0
  · exact eq_divided hbase (doDiv_small hsmall)
  · rw [doDiv, if_neg hsmall, hlong]

/-- A dividend whose upper half is larger than the divisor. -/
theorem doDiv_exact_large :
    div6432 0xffffffffffffffff 1000000000 = (18446744073, 709551615) ∧
      doDiv 0xffffffffffffffff 1000000000 = (18446744073, 709551615) :=
  doDiv_exact _ (by decide)

end Division

end Div64

end Pwm

end BspV3s
