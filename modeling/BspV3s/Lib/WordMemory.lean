import Mathlib.Data.BitVec
import Mathlib.Logic.Function.Basic

/-!
# WordMemory — words at consecutive addresses

Memory as word accesses see it: an address stands for the aligned word at it, and what a block
transfer moves are the words at addresses four apart.  `load` and `store` are such transfers, and the
lemmas say how a sequence of stores is one store, and what a load sees of a store.
-/

namespace BspV3s

namespace WordMemory

abbrev Word := BitVec 32

abbrev Memory := Word → Word

/-- The addresses of `n` consecutive words. -/
def addrs (a : Word) : Nat → List Word
  | 0 => []
  | n + 1 => a :: addrs (a + 4) n

def load (mem : Memory) (a : Word) (n : Nat) : List Word :=
  (addrs a n).map mem

def store (mem : Memory) (a : Word) : List Word → Memory
  | [] => mem
  | w :: ws => Function.update (store mem (a + 4) ws) a w

variable {mem mem' : Memory} {a b : Word} {ws ws' : List Word} {m n : Nat}

/-! ## Addresses -/

@[simp] theorem length_addrs (a : Word) (n : Nat) : (addrs a n).length = n := by
  induction n generalizing a with
  | zero => rfl
  | succ n ih => exact congrArg (· + 1) (ih (a + 4))

@[simp] theorem length_load (mem : Memory) (a : Word) (n : Nat) : (load mem a n).length = n := by
  rw [load, List.length_map, length_addrs]

theorem add_four_ofNat (a : Word) (n : Nat) :
    a + 4 + BitVec.ofNat 32 (4 * n) = a + BitVec.ofNat 32 (4 * (n + 1)) := by
  rw [Nat.mul_add, Nat.add_comm, BitVec.ofNat_add, BitVec.add_assoc]
  rfl

theorem mem_addrs_iff : b ∈ addrs a n ↔ ∃ i < n, b = a + BitVec.ofNat 32 (4 * i) := by
  induction n generalizing a with
  | zero => simp [addrs]
  | succ n ih =>
      rw [addrs, List.mem_cons, ih]
      constructor
      · rintro (rfl | ⟨i, hi, rfl⟩)
        · exact ⟨0, Nat.succ_pos n, (BitVec.add_zero b).symm⟩
        · exact ⟨i + 1, Nat.succ_lt_succ hi, add_four_ofNat a i⟩
      · rintro ⟨i, hi, rfl⟩
        cases i with
        | zero => exact .inl (BitVec.add_zero a)
        | succ i => exact .inr ⟨i, Nat.lt_of_succ_lt_succ hi, (add_four_ofNat a i).symm⟩

/-- Fewer than `2 ^ 30` words do not come around to the first. -/
theorem not_mem_addrs (hn : n < 2 ^ 30) : a ∉ addrs (a + 4) n := by
  rw [mem_addrs_iff]
  rintro ⟨i, hi, h⟩
  have hzero : (4 : Word) + BitVec.ofNat 32 (4 * i) = 0 := by
    have hcancel : a + (4 + BitVec.ofNat 32 (4 * i)) = a + 0 := by
      rw [← BitVec.add_assoc, ← h]
      exact (BitVec.add_zero a).symm
    exact (BitVec.add_right_inj a).1 hcancel
  have hnat := congrArg BitVec.toNat hzero
  rw [BitVec.toNat_add, BitVec.toNat_ofNat] at hnat
  have hfour : (4 : Word).toNat = 4 := rfl
  have hnone : (0 : Word).toNat = 0 := rfl
  omega

theorem addrs_add (a : Word) (m n : Nat) :
    addrs a (m + n) = addrs a m ++ addrs (a + BitVec.ofNat 32 (4 * m)) n := by
  induction m generalizing a with
  | zero =>
      rw [Nat.zero_add, Nat.mul_zero, BitVec.add_zero]
      rfl
  | succ m ih =>
      rw [Nat.succ_add, addrs, ih, add_four_ofNat]
      rfl

/-! ## Loads and stores -/

theorem load_add (mem : Memory) (a : Word) (m n : Nat) :
    load mem a (m + n) = load mem a m ++ load mem (a + BitVec.ofNat 32 (4 * m)) n := by
  rw [load, addrs_add, List.map_append]
  rfl

theorem load_congr (h : ∀ b ∈ addrs a n, mem b = mem' b) : load mem a n = load mem' a n :=
  List.map_congr_left h

theorem store_outside (h : b ∉ addrs a ws.length) : store mem a ws b = mem b := by
  induction ws generalizing a with
  | nil => rfl
  | cons w ws ih =>
      rw [List.length_cons, addrs, List.mem_cons, not_or] at h
      rw [store, Function.update_of_ne h.1, ih h.2]

theorem load_store (hws : ws.length ≤ 2 ^ 30) : load (store mem a ws) a ws.length = ws := by
  induction ws generalizing a with
  | nil => rfl
  | cons w ws ih =>
      rw [List.length_cons] at hws
      have hrest : load (Function.update (store mem (a + 4) ws) a w) (a + 4) ws.length = ws := by
        calc load (Function.update (store mem (a + 4) ws) a w) (a + 4) ws.length
            = load (store mem (a + 4) ws) (a + 4) ws.length := by
              refine load_congr fun b hb => Function.update_of_ne ?_ _ _
              rintro rfl
              exact not_mem_addrs (Nat.lt_of_succ_le hws) hb
          _ = ws := ih (Nat.le_of_succ_le hws)
      rw [store, List.length_cons, load, addrs, List.map_cons, Function.update_self]
      exact congrArg (w :: ·) hrest

/-- Storing some words and then the words below them is one store. -/
theorem store_append (mem : Memory) (a : Word) (ws ws' : List Word) :
    store mem a (ws ++ ws') =
      store (store mem (a + BitVec.ofNat 32 (4 * ws.length)) ws') a ws := by
  induction ws generalizing a with
  | nil =>
      rw [List.nil_append, List.length_nil, Nat.mul_zero, BitVec.add_zero]
      rfl
  | cons w ws ih =>
      rw [List.cons_append, store, ih, add_four_ofNat]
      rfl

/-- The same where the words below are stored by an address counted down. -/
theorem store_below (mem : Memory) (a : Word) (ws ws' : List Word) :
    store (store mem a ws') (a - BitVec.ofNat 32 (4 * ws.length)) ws =
      store mem (a - BitVec.ofNat 32 (4 * ws.length)) (ws ++ ws') := by
  rw [store_append, BitVec.sub_add_cancel]

theorem load_store_of_disjoint {d : Word} (h : ∀ b ∈ addrs a n, b ∉ addrs d ws.length) :
    load (store mem d ws) a n = load mem a n :=
  load_congr fun b hb => store_outside (h b hb)

theorem load_update_of_not_mem {v : Word} (h : b ∉ addrs a n) :
    load (Function.update mem b v) a n = load mem a n := by
  refine load_congr fun d hd => Function.update_of_ne ?_ _ _
  rintro rfl
  exact h hd

end WordMemory

end BspV3s
