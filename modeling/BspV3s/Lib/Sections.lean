import BspV3s.Lib.Bits

/-!
# Sections — a first-level table of one-megabyte sections

The short descriptors of the ARMv7 architecture, as far as sections go: which physical address a
virtual one is mapped to, and the type of the memory there.  A table whose descriptors are attributes
below bit 20 beside the number of the section itself maps every address to itself.
-/

namespace BspV3s

namespace Sections

abbrev Table := ℕ → BitVec 32

/-- The memory types; `cached` has the outer and the inner policy. -/
inductive Memory
  | stronglyOrdered
  | device
  | writeThrough
  | writeBack
  | nonCacheable
  | writeAllocate
  | cached (outer inner : BitVec 2)
  | reserved
  deriving DecidableEq, Repr

/-- Memory that no cache holds. -/
def Memory.uncached : Memory → Bool
  | .stronglyOrdered => true
  | .device => true
  | .nonCacheable => true
  | .cached outer inner => outer = 0 && inner = 0
  | _ => false

/-- The type behind the bits TEX, C and B. -/
def memoryOf (desc : BitVec 32) : Memory :=
  let c := desc.getLsbD 3
  let b := desc.getLsbD 2
  match (getField desc 12 3).toNat with
  | 0 => if c then (if b then .writeBack else .writeThrough) else (if b then .device else .stronglyOrdered)
  | 1 => if c then (if b then .writeAllocate else .reserved) else (if b then .reserved else .nonCacheable)
  | 2 => if c || b then .reserved else .device
  | 3 => .reserved
  | _ => .cached (desc.extractLsb' 12 2) (desc.extractLsb' 2 2)

/-- Neither a fault, nor a second-level table, nor a supersection. -/
def IsSection (desc : BitVec 32) : Prop :=
  desc &&& 0x40003 = 0x2

instance instDecidableIsSection (desc : BitVec 32) : Decidable (IsSection desc) :=
  inferInstanceAs (Decidable (_ = _))

/-- The physical address of a virtual one, and the memory there. -/
def translate (t : Table) (va : BitVec 32) : Option (BitVec 32 × Memory) :=
  let desc := t (va >>> 20).toNat
  if IsSection desc then
    some (desc &&& 0xfff00000 ||| va &&& 0xfffff, memoryOf desc)
  else
    none

/-! ## Descriptors -/

variable {attr va : BitVec 32} {t : Table}

theorem getLsbD_base (i : ℕ) :
    (0xfff00000 : BitVec 32).getLsbD i = (decide (i < 32) && decide (20 ≤ i ∧ i < 20 + 12)) :=
  (getLsbD_fieldMask i : (fieldMask 20 12).getLsbD i = _)

/-- The number of a section does not reach the attributes. -/
theorem getLsbD_desc (s : BitVec 32) {i : ℕ} (hi : i < 20) :
    (attr ||| s <<< 20).getLsbD i = attr.getLsbD i := by
  rw [BitVec.getLsbD_or, BitVec.getLsbD_shiftLeft]
  simp [hi]

theorem and_desc (s : BitVec 32) {mask : BitVec 32} (hmask : mask &&& 0xfff00000 = 0) :
    (attr ||| s <<< 20) &&& mask = attr &&& mask := by
  apply BitVec.eq_of_getLsbD_eq
  intro i hi
  rw [BitVec.getLsbD_and, BitVec.getLsbD_and]
  by_cases hlow : i < 20
  · rw [getLsbD_desc s hlow]
  · have hhigh : 20 ≤ i ∧ i < 20 + 12 := ⟨Nat.le_of_not_lt hlow, hi⟩
    have hbit : (mask &&& 0xfff00000).getLsbD i = false := by
      rw [hmask]
      exact BitVec.getLsbD_zero
    rw [BitVec.getLsbD_and, getLsbD_base, decide_eq_true hi, decide_eq_true hhigh, Bool.and_true,
      Bool.and_true] at hbit
    rw [hbit, Bool.and_false, Bool.and_false]

theorem memoryOf_desc (s : BitVec 32) : memoryOf (attr ||| s <<< 20) = memoryOf attr := by
  have hextract : ∀ lo, lo + 2 ≤ 20 →
      (attr ||| s <<< 20).extractLsb' lo 2 = attr.extractLsb' lo 2 := by
    intro lo hlo
    apply BitVec.eq_of_getLsbD_eq
    intro i hi
    rw [BitVec.getLsbD_extractLsb', BitVec.getLsbD_extractLsb', getLsbD_desc s (by omega)]
  have hfield : getField (attr ||| s <<< 20) 12 3 = getField attr 12 3 := by
    rw [getField, and_desc s (by decide), getField]
  unfold memoryOf
  rw [hfield, getLsbD_desc s (by decide), getLsbD_desc s (by decide), hextract 12 (by decide),
    hextract 2 (by decide)]

/-- A section that is mapped to itself. -/
theorem translate_desc (hattr : attr &&& 0xfff00000 = 0) (hsection : IsSection attr)
    (hdesc : t (va >>> 20).toNat = attr ||| (va >>> 20) <<< 20) :
    translate t va = some (va, memoryOf attr) := by
  have hdescSection : IsSection (attr ||| (va >>> 20) <<< 20) := by
    rw [IsSection, and_desc _ (by decide)]
    exact hsection
  have haddr : (attr ||| (va >>> 20) <<< 20) &&& 0xfff00000 ||| va &&& 0xfffff = va := by
    have hlow : (0xfffff : BitVec 32) = ~~~0xfff00000 := by decide
    rw [BitVec.and_or_distrib_right, hattr, hlow]
    apply BitVec.eq_of_getLsbD_eq
    intro i hi
    simp only [BitVec.getLsbD_or, BitVec.getLsbD_and, BitVec.getLsbD_not, getLsbD_base,
      BitVec.getLsbD_shiftLeft, BitVec.getLsbD_ushiftRight, hi]
    by_cases hbase : 20 ≤ i
    · have hnot : ¬ i < 20 := Nat.not_lt.2 hbase
      have hback : 20 + (i - 20) = i := Nat.add_sub_cancel' hbase
      simp [hbase, hnot, hback, hi]
    · simp [hbase]
  rw [translate, hdesc, if_pos hdescSection, haddr, memoryOf_desc]

end Sections

end BspV3s
