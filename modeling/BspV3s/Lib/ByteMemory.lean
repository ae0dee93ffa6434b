import Mathlib.Data.List.OfFn
import Mathlib.Order.Interval.Set.Basic

/-!
# ByteMemory — little-endian words and byte strings in memory

Memory is a map from addresses to bytes.  Words of 32 bits are stored with the least significant
byte first.  Besides the accessors this module states the two facts that the drivers' proofs use:
what is read back is what was written, and a read depends only on the bytes it covers.
-/

namespace BspV3s

abbrev Byte : Type := BitVec 8

abbrev Mem : Type := ℕ → Byte

namespace Mem

/-! ## Words -/

def read32 (m : Mem) (a : ℕ) : BitVec 32 :=
  m (a + 3) ++ m (a + 2) ++ m (a + 1) ++ m a

def write32 (m : Mem) (a : ℕ) (v : BitVec 32) : Mem :=
  fun x => if a ≤ x ∧ x < a + 4 then v.extractLsb' (8 * (x - a)) 8 else m x

theorem read32_congr {m m' : Mem} {a : ℕ} (h : Set.EqOn m m' (Set.Ico a (a + 4))) :
    read32 m a = read32 m' a := by
  have h₀ : m a = m' a := h ⟨le_rfl, by omega⟩
  have h₁ : m (a + 1) = m' (a + 1) := h ⟨by omega, by omega⟩
  have h₂ : m (a + 2) = m' (a + 2) := h ⟨by omega, by omega⟩
  have h₃ : m (a + 3) = m' (a + 3) := h ⟨by omega, by omega⟩
  simp only [read32, h₀, h₁, h₂, h₃]

theorem write32_outside {m : Mem} {a x : ℕ} {v : BitVec 32} (h : x < a ∨ a + 4 ≤ x) :
    write32 m a v x = m x :=
  if_neg (by omega)

@[simp] theorem read32_write32 (m : Mem) (a : ℕ) (v : BitVec 32) :
    read32 (write32 m a v) a = v := by
  have hbyte : ∀ i, i < 4 → write32 m a v (a + i) = v.extractLsb' (8 * i) 8 := by
    intro i hi
    have hin : a ≤ a + i ∧ a + i < a + 4 := by omega
    simp only [write32, if_pos hin, Nat.add_sub_cancel_left]
  have h₀ := hbyte 0 (by omega)
  rw [Nat.add_zero] at h₀
  apply BitVec.eq_of_getLsbD_eq
  intro j hj
  simp only [read32, h₀, hbyte 1 (by omega), hbyte 2 (by omega), hbyte 3 (by omega),
    BitVec.getLsbD_append, BitVec.getLsbD_extractLsb']
  -- The byte that bit `j` lies in.
  by_cases h₁ : j < 8
  · simp [h₁]
  · by_cases h₂ : j < 16
    · simp [h₁, show j - 8 < 8 by omega, show 8 + (j - 8) = j by omega]
    · by_cases h₃ : j < 24
      · simp [h₁, show ¬ j - 8 < 8 by omega, show j - 8 - 8 < 8 by omega,
          show 16 + (j - 8 - 8) = j by omega]
      · simp [h₁, show ¬ j - 8 < 8 by omega, show ¬ j - 8 - 8 < 8 by omega,
          show j - 8 - 8 - 8 < 8 by omega, show 24 + (j - 8 - 8 - 8) = j by omega]

theorem read32_write32_of_disjoint {m : Mem} {a b : ℕ} {v : BitVec 32}
    (h : b + 4 ≤ a ∨ a + 4 ≤ b) : read32 (write32 m a v) b = read32 m b := by
  apply read32_congr
  intro x hx
  rcases hx with ⟨hlo, hhi⟩
  exact write32_outside (by omega)

/-! ## Byte strings -/

def readBytes (m : Mem) (a n : ℕ) : List Byte :=
  List.ofFn fun i : Fin n => m (a + i)

def writeBytes (m : Mem) (a : ℕ) (bs : List Byte) : Mem :=
  fun x => if x < a then m x else (bs[x - a]?).getD (m x)

@[simp] theorem length_readBytes (m : Mem) (a n : ℕ) : (readBytes m a n).length = n :=
  List.length_ofFn

theorem readBytes_congr {m m' : Mem} {a n : ℕ} (h : Set.EqOn m m' (Set.Ico a (a + n))) :
    readBytes m a n = readBytes m' a n := by
  apply congrArg List.ofFn
  funext i
  exact h ⟨by omega, by omega⟩

theorem readBytes_eq_iff {m : Mem} {a : ℕ} {bs : List Byte} :
    readBytes m a bs.length = bs ↔ ∀ i (hi : i < bs.length), m (a + i) = bs[i] := by
  constructor
  · intro h i hi
    have hget : (readBytes m a bs.length)[i]? = bs[i]? := by rw [h]
    simpa [readBytes, List.getElem?_ofFn, hi] using hget
  · intro h
    apply List.ext_getElem
    · simp
    · intro i h₁ h₂
      simpa [readBytes] using h i h₂

theorem readBytes_succ (m : Mem) (a n : ℕ) :
    readBytes m a (n + 1) = m a :: readBytes m (a + 1) n := by
  simp [readBytes, List.ofFn_succ, Nat.add_assoc, Nat.add_comm 1]

theorem readBytes_add (m : Mem) (a k n : ℕ) :
    readBytes m a (k + n) = readBytes m a k ++ readBytes m (a + k) n := by
  apply List.ext_getElem
  · simp
  · intro i h₁ h₂
    by_cases hi : i < k
    · rw [List.getElem_append_left (by simpa using hi)]
      simp [readBytes]
    · rw [List.getElem_append_right (by simpa using hi)]
      simp [readBytes, show a + k + (i - k) = a + i by omega]

theorem writeBytes_outside {m : Mem} {a x : ℕ} {bs : List Byte}
    (h : x < a ∨ a + bs.length ≤ x) : writeBytes m a bs x = m x := by
  unfold writeBytes
  split
  · rfl
  · next hge =>
      have hnone : bs[x - a]? = none := List.getElem?_eq_none (by omega)
      rw [hnone]
      rfl

theorem writeBytes_inside {m : Mem} {a i : ℕ} {bs : List Byte} (h : i < bs.length) :
    writeBytes m a bs (a + i) = bs[i] := by
  simp [writeBytes, show ¬ a + i < a by omega, h]

theorem readBytes_writeBytes (m : Mem) (a : ℕ) (bs : List Byte) :
    readBytes (writeBytes m a bs) a bs.length = bs :=
  readBytes_eq_iff.2 fun _ hi => writeBytes_inside hi

theorem writeBytes_nil (m : Mem) (a : ℕ) : writeBytes m a [] = m := by
  funext x
  simp [writeBytes]

/-- Storing a byte string a byte at a time. -/
theorem writeBytes_cons (m : Mem) (a : ℕ) (b : Byte) (bs : List Byte) :
    writeBytes m a (b :: bs) = writeBytes (writeBytes m a [b]) (a + 1) bs := by
  funext x
  rcases lt_trichotomy x a with hlt | rfl | hgt
  · rw [writeBytes_outside (.inl hlt), writeBytes_outside (.inl (by omega)),
      writeBytes_outside (.inl hlt)]
  · rw [writeBytes_outside (x := x) (a := x + 1) (.inl (by omega))]
    simp [writeBytes]
  · have hx : x - a = (x - (a + 1)) + 1 := by omega
    rw [writeBytes, if_neg (by omega), hx, List.getElem?_cons_succ, writeBytes,
      if_neg (by omega), writeBytes_outside (.inr (by simp; omega))]

end Mem

end BspV3s
