import Mathlib.Data.BitVec
import Mathlib.Data.Finset.Basic
import Mathlib.Data.Fintype.Basic

/-!
# Bits — words as packed maps and packed fields

A bank of 32-bit words packs a map from numbers to bits: number `i` is bit `i % 32` of word
`i / 32`.  Setting or clearing the bit of one number is a masked change of its word; these lemmas say
that it changes the map at that number only.

A word of fields is the bitwise OR of values shifted to their place and masked.  Reading a field back
gives the value modulo the field's size, whatever the fields beside it hold.
-/

namespace BspV3s

/-- A number that fits is not cut off. -/
theorem toNat_ofNat_of_lt {n : ℕ} (h : n < 2 ^ 32) : (BitVec.ofNat 32 n).toNat = n :=
  (BitVec.toNat_ofNat n 32).trans (Nat.mod_eq_of_lt h)

/-- The bit of number `i` in a bank of words. -/
def packedBit (bank : ℕ → BitVec 32) (i : ℕ) : Bool :=
  (bank (i / 32)).getLsbD (i % 32)

/-- The mask of number `i` in its word. -/
def packedMask (i : ℕ) : BitVec 32 :=
  1#32 <<< (i % 32)

theorem getLsbD_packedMask (i j : ℕ) :
    (packedMask i).getLsbD j = decide (j = i % 32) := by
  have hi : i % 32 < 32 := Nat.mod_lt _ (by omega)
  rw [packedMask, BitVec.getLsbD_shiftLeft, BitVec.getLsbD_one]
  by_cases hj : j = i % 32
  · subst hj
    simp [hi]
  · have hne : ¬ (j < 32 ∧ i % 32 ≤ j ∧ j - i % 32 = 0) := by omega
    by_cases hlt : j < i % 32
    · simp [hlt, hj]
    · have hpos : j - i % 32 ≠ 0 := by omega
      simp [hpos, hj]

/-- Numbers in one word differ in their bits. -/
theorem mod_ne_of_div_eq {i j : ℕ} (hdiv : j / 32 = i / 32) (hne : j ≠ i) : j % 32 ≠ i % 32 := by
  omega

section Packed

variable (bank : ℕ → BitVec 32) (i : ℕ)

/-- A masked OR sets one bit of the map. -/
theorem packedBit_set :
    packedBit (Function.update bank (i / 32) (bank (i / 32) ||| packedMask i)) =
      Function.update (packedBit bank) i true := by
  funext j
  unfold packedBit
  by_cases hdiv : j / 32 = i / 32
  · rw [hdiv, Function.update_self, BitVec.getLsbD_or, getLsbD_packedMask]
    by_cases hji : j = i
    · subst hji
      simp
    · rw [Function.update_of_ne hji, hdiv]
      simp [mod_ne_of_div_eq hdiv hji]
  · have hji : j ≠ i := fun h => hdiv (by rw [h])
    rw [Function.update_of_ne hdiv, Function.update_of_ne hji]

/-- A masked AND clears one bit of the map. -/
theorem packedBit_clear :
    packedBit (Function.update bank (i / 32) (bank (i / 32) &&& ~~~packedMask i)) =
      Function.update (packedBit bank) i false := by
  funext j
  have hj : j % 32 < 32 := Nat.mod_lt _ (by omega)
  unfold packedBit
  by_cases hdiv : j / 32 = i / 32
  · rw [hdiv, Function.update_self, BitVec.getLsbD_and, BitVec.getLsbD_not, getLsbD_packedMask]
    by_cases hji : j = i
    · subst hji
      simp
    · rw [Function.update_of_ne hji, hdiv]
      simp [mod_ne_of_div_eq hdiv hji, hj]
  · have hji : j ≠ i := fun h => hdiv (by rw [h])
    rw [Function.update_of_ne hdiv, Function.update_of_ne hji]

end Packed

/-! ## Words of fields -/

/-- The bits `lo, …, lo + width - 1`. -/
def fieldMask (lo width : ℕ) : BitVec 32 :=
  BitVec.ofNat 32 (2 ^ width - 1) <<< lo

def getField (v : BitVec 32) (lo width : ℕ) : BitVec 32 :=
  (v &&& fieldMask lo width) >>> lo

def setField (x : BitVec 32) (lo width : ℕ) : BitVec 32 :=
  x <<< lo &&& fieldMask lo width

section Fields

variable {lo width lo' width' : ℕ}

theorem getLsbD_fieldMask (i : ℕ) :
    (fieldMask lo width).getLsbD i = (decide (i < 32) && decide (lo ≤ i ∧ i < lo + width)) := by
  rw [fieldMask, BitVec.getLsbD_shiftLeft, BitVec.getLsbD_ofNat, Nat.testBit_two_pow_sub_one]
  by_cases hi : i < 32
  · by_cases hlo : i < lo
    · have hnle : ¬ lo ≤ i := by omega
      simp [hi, hlo, hnle]
    · have hlt : i - lo < 32 := by omega
      have hle : lo ≤ i := by omega
      have hiff : i - lo < width ↔ i < lo + width := by omega
      simp [hi, hlt, hle, hlo, hiff]
  · simp [hi]

theorem getField_or (v v' : BitVec 32) :
    getField (v ||| v') lo width = getField v lo width ||| getField v' lo width := by
  unfold getField
  rw [← BitVec.ushiftRight_or_distrib]
  congr 1
  ext i hi
  simp only [BitVec.getElem_and, BitVec.getElem_or, Bool.and_or_distrib_right]

/-- A value put into a field reads back modulo the size of the field. -/
theorem getField_setField_self (x : BitVec 32) (h : lo + width ≤ 32) :
    (getField (setField x lo width) lo width).toNat = x.toNat % 2 ^ width := by
  have hbits : getField (setField x lo width) lo width = x &&& fieldMask 0 width := by
    apply BitVec.eq_of_getLsbD_eq
    intro i hi
    unfold getField setField
    rw [BitVec.getLsbD_ushiftRight, BitVec.getLsbD_and, BitVec.getLsbD_and,
      BitVec.getLsbD_shiftLeft, BitVec.getLsbD_and, getLsbD_fieldMask, getLsbD_fieldMask]
    by_cases hw : i < width
    · have hlt : lo + i < 32 := by omega
      simp [hi, hlt, hw]
    · simp [hw]
  have hmask : fieldMask 0 width = BitVec.ofNat 32 (2 ^ width - 1) := BitVec.shiftLeft_zero _
  have hlt : 2 ^ width - 1 < 2 ^ 32 := by
    have hpow : 2 ^ width ≤ 2 ^ 32 := Nat.pow_le_pow_right (by omega) (by omega)
    omega
  rw [hbits, hmask, BitVec.toNat_and, BitVec.toNat_ofNat, Nat.mod_eq_of_lt hlt,
    Nat.and_two_pow_sub_one_eq_mod]

/-- A value that fits needs no mask. -/
theorem setField_of_lt {x : BitVec 32} (hx : x.toNat < 2 ^ width) :
    setField x lo width = x <<< lo := by
  apply BitVec.eq_of_getLsbD_eq
  intro i hi
  rw [setField, BitVec.getLsbD_and, BitVec.getLsbD_shiftLeft, getLsbD_fieldMask]
  by_cases hlt : i < lo
  · simp [hlt]
  · by_cases hw : i < lo + width
    · have hle : lo ≤ i := Nat.le_of_not_lt hlt
      simp [hi, hle, hw]
    · have hbit : x.getLsbD (i - lo) = false := by
        have hle : width ≤ i - lo := by omega
        exact Nat.testBit_lt_two_pow (lt_of_lt_of_le hx (Nat.pow_le_pow_right (by decide) hle))
      simp [hw, hbit]

/-- A value masked before it is shifted to its place. -/
theorem setField_eq_and_shiftLeft (x : BitVec 32) (lo width : ℕ) :
    (x &&& fieldMask 0 width) <<< lo = setField x lo width := by
  apply BitVec.eq_of_getLsbD_eq
  intro i hi
  rw [setField, BitVec.getLsbD_and, BitVec.getLsbD_shiftLeft, BitVec.getLsbD_shiftLeft,
    BitVec.getLsbD_and, getLsbD_fieldMask, getLsbD_fieldMask]
  by_cases hlt : i < lo
  · simp [hlt]
  · have hle : lo ≤ i := Nat.le_of_not_lt hlt
    have hin : i - lo < 32 := by omega
    have hiff : i - lo < width ↔ i < lo + width := by omega
    simp [hi, hlt, hle, hin, hiff]

/-- Fields that do not overlap do not see each other. -/
theorem getField_setField_of_disjoint (x : BitVec 32)
    (h : lo + width ≤ lo' ∨ lo' + width' ≤ lo) :
    getField (setField x lo' width') lo width = 0#32 := by
  apply BitVec.eq_of_getLsbD_eq
  intro i hi
  unfold getField setField
  rw [BitVec.getLsbD_ushiftRight, BitVec.getLsbD_and, BitVec.getLsbD_and, getLsbD_fieldMask,
    getLsbD_fieldMask, BitVec.getLsbD_zero]
  by_cases hin : lo' ≤ lo + i ∧ lo + i < lo' + width'
  · have hout : ¬ (lo ≤ lo + i ∧ lo + i < lo + width) := by omega
    rw [decide_eq_false hout, Bool.and_false, Bool.and_false]
  · rw [decide_eq_false hin, Bool.and_false, Bool.and_false, Bool.false_and]

theorem getField_lt (v : BitVec 32) (h : lo + width ≤ 32) :
    (getField v lo width).toNat < 2 ^ width := by
  have hle : (v &&& fieldMask lo width).toNat ≤ (fieldMask lo width).toNat := by
    rw [BitVec.toNat_and]
    exact Nat.and_le_right
  have hpos : 0 < 2 ^ lo := Nat.two_pow_pos lo
  have hpow : 2 ^ (lo + width) ≤ 2 ^ 32 := Nat.pow_le_pow_right (by omega) h
  have hmask : (fieldMask lo width).toNat ≤ (2 ^ width - 1) * 2 ^ lo := by
    rw [fieldMask, BitVec.toNat_shiftLeft, BitVec.toNat_ofNat, Nat.shiftLeft_eq]
    exact (Nat.mod_le _ _).trans (Nat.mul_le_mul_right _ (Nat.mod_le _ _))
  have hwidth : 0 < 2 ^ width := Nat.two_pow_pos width
  rw [getField, BitVec.toNat_ushiftRight, Nat.shiftRight_eq_div_pow, Nat.div_lt_iff_lt_mul hpos]
  calc (v &&& fieldMask lo width).toNat
      ≤ (2 ^ width - 1) * 2 ^ lo := hle.trans hmask
    _ < 2 ^ width * 2 ^ lo := Nat.mul_lt_mul_of_pos_right (by omega) hpos

end Fields

/-! ## Words that agree outside a mask -/

/-- The words agree at the bits that the mask leaves out. -/
def AgreeOff (mask v w : BitVec 32) : Prop :=
  v &&& ~~~mask = w &&& ~~~mask

namespace AgreeOff

variable {mask mask' v w x : BitVec 32}

theorem refl (mask v : BitVec 32) : AgreeOff mask v v := rfl

theorem trans (h : AgreeOff mask v w) (h' : AgreeOff mask' w x) : AgreeOff (mask ||| mask') v x := by
  unfold AgreeOff at *
  calc v &&& ~~~(mask ||| mask')
      = v &&& ~~~mask &&& ~~~mask' := by
        rw [BitVec.not_or, BitVec.and_assoc]
    _ = w &&& ~~~mask' &&& ~~~mask := by
        rw [h, BitVec.and_assoc, BitVec.and_comm (~~~mask), ← BitVec.and_assoc]
    _ = x &&& ~~~mask &&& ~~~mask' := by
        rw [h', BitVec.and_assoc, BitVec.and_comm (~~~mask'), ← BitVec.and_assoc]
    _ = x &&& ~~~(mask ||| mask') := by
        rw [BitVec.not_or, BitVec.and_assoc]

theorem getLsbD_eq (h : AgreeOff mask v w) {i : ℕ} (hi : mask.getLsbD i = false) :
    v.getLsbD i = w.getLsbD i := by
  by_cases hwidth : i < 32
  · have hbit := congrArg (BitVec.getLsbD · i) h
    simpa only [BitVec.getLsbD_and, BitVec.getLsbD_not, hi, hwidth, decide_true, Bool.not_false,
      Bool.and_true] using hbit
  · rw [BitVec.getLsbD_of_ge _ _ (Nat.not_lt.1 hwidth), BitVec.getLsbD_of_ge _ _ (Nat.not_lt.1 hwidth)]

/-- Clearing bits of the mask. -/
theorem and_not (mask v : BitVec 32) : AgreeOff mask (v &&& ~~~mask) v := by
  unfold AgreeOff
  rw [BitVec.and_assoc, BitVec.and_self]

/-- Setting bits of the mask. -/
theorem or_of_subset (v : BitVec 32) (h : x &&& ~~~mask = 0) : AgreeOff mask (v ||| x) v := by
  unfold AgreeOff
  rw [BitVec.and_or_distrib_right, h]
  exact BitVec.or_zero

theorem mono (h : AgreeOff mask v w) (hmask : mask &&& ~~~mask' = 0) : AgreeOff mask' v w := by
  have hsub : ∀ y : BitVec 32, y &&& ~~~mask' = y &&& ~~~mask &&& ~~~mask' := by
    intro y
    apply BitVec.eq_of_getLsbD_eq
    intro i hi
    have hbit := congrArg (BitVec.getLsbD · i) hmask
    simp only [BitVec.getLsbD_and, BitVec.getLsbD_not, hi, decide_true, Bool.true_and] at hbit ⊢
    cases hm : mask.getLsbD i <;> simp_all
  unfold AgreeOff at *
  rw [hsub v, h, ← hsub w]

/-- Words that agree more closely may be put in between. -/
theorem absorb (h : AgreeOff mask v w) (h' : AgreeOff (mask' ||| mask) w x) :
    AgreeOff (mask' ||| mask) v x := by
  refine (h.trans h').mono ?_
  apply BitVec.eq_of_getLsbD_eq
  intro i hi
  simp only [BitVec.getLsbD_and, BitVec.getLsbD_or, BitVec.getLsbD_not]
  cases mask.getLsbD i <;> cases mask'.getLsbD i <;> simp

/-- They agree on every mask apart from it. -/
theorem and_eq {k : BitVec 32} (h : AgreeOff mask v w) (hk : k &&& ~~~mask = k) :
    v &&& k = w &&& k := by
  calc v &&& k
      = v &&& ~~~mask &&& k := by
        rw [BitVec.and_assoc, BitVec.and_comm (~~~mask), hk]
    _ = w &&& k := by
        rw [h, BitVec.and_assoc, BitVec.and_comm (~~~mask), hk]

/-- Bits of the mask that have been put back need not be left out. -/
theorem restore {k : BitVec 32} (h : AgreeOff (mask ||| k) v w) (hk : v &&& k = w &&& k) :
    AgreeOff mask v w := by
  apply BitVec.eq_of_getLsbD_eq
  intro i hi
  have hoff := congrArg (BitVec.getLsbD · i) h
  have hon := congrArg (BitVec.getLsbD · i) hk
  simp only [BitVec.getLsbD_and, BitVec.getLsbD_or, BitVec.getLsbD_not, hi, decide_true,
    Bool.true_and] at hoff hon ⊢
  cases hm : k.getLsbD i <;> simp_all

end AgreeOff

/-! ## Bytes as sets -/

/-- The numbers below 8 whose bits are set. -/
def byteSet (b : BitVec 8) : Finset (Fin 8) :=
  Finset.univ.filter fun i => b.getLsbD i = true

theorem mem_byteSet {b : BitVec 8} {i : Fin 8} : i ∈ byteSet b ↔ b.getLsbD i = true := by
  simp [byteSet]

theorem getLsbD_one_shiftLeft (i j : Fin 8) :
    (1#8 <<< (i : ℕ)).getLsbD j = decide (j = i) := by
  revert i j
  decide

theorem byteSet_or (b : BitVec 8) (i : Fin 8) :
    byteSet (b ||| 1#8 <<< (i : ℕ)) = insert i (byteSet b) := by
  ext j
  rw [mem_byteSet, BitVec.getLsbD_or, getLsbD_one_shiftLeft, Finset.mem_insert, mem_byteSet]
  simp [or_comm]

theorem byteSet_and_not (b : BitVec 8) (i : Fin 8) :
    byteSet (b &&& ~~~(1#8 <<< (i : ℕ))) = (byteSet b).erase i := by
  ext j
  rw [mem_byteSet, BitVec.getLsbD_and, BitVec.getLsbD_not, getLsbD_one_shiftLeft, Finset.mem_erase,
    mem_byteSet]
  simp [and_comm]

end BspV3s
