import BspV3s.Lib.ByteMemory
import Mathlib.Logic.Function.Basic
import Mathlib.Logic.Relation

/-!
# Cache — a write-back cache in front of memory

`CMem` is memory together with a cache of 64-byte lines.  The processor reads and writes through
the cache (`view`, `write`), a bus master uses `mem` and `setMem`, and the cache may at any time
fill an absent line or evict a present one (`Noise`).

Reasoning is done on cells.  A cell is what a quantity held in one line is worth in memory and to
the processor, and whether the line is dirty; `Cell.Drift` is all that `Noise` can do to it.
-/

namespace BspV3s

/-- A cached line.  Only the addresses of the line are ever read from `data`. -/
structure Line where
  data : Mem
  dirty : Bool

structure CMem where
  mem : Mem
  cache : ℕ → Option Line

/-- The addresses of line `l`. -/
def lineSet (l : ℕ) : Set ℕ :=
  {a | a / 64 = l}

@[simp] theorem mem_lineSet {a l : ℕ} : a ∈ lineSet l ↔ a / 64 = l := Iff.rfl

namespace CMem

/-! ## The processor's and the cache's actions -/

/-- What the processor reads. -/
def view (c : CMem) : Mem :=
  fun a =>
    match c.cache (a / 64) with
    | some ln => ln.data a
    | none => c.mem a

def dirty (c : CMem) (l : ℕ) : Bool :=
  match c.cache l with
  | some ln => ln.dirty
  | none => false

def fill (c : CMem) (l : ℕ) : CMem :=
  match c.cache l with
  | some _ => c
  | none => { c with cache := Function.update c.cache l (some ⟨c.mem, false⟩) }

/-- Remove line `l`, writing it back when it is dirty. -/
def evict (c : CMem) (l : ℕ) : CMem where
  mem := fun a => if a / 64 = l ∧ c.dirty l then c.view a else c.mem a
  cache := Function.update c.cache l none

/-- Remove line `l` without writing it back. -/
def drop (c : CMem) (l : ℕ) : CMem :=
  { c with cache := Function.update c.cache l none }

/-- A store by the processor that changes line `l` by `g`. -/
def write (c : CMem) (l : ℕ) (g : Mem → Mem) : CMem :=
  { c with cache := Function.update c.cache l (some ⟨g c.view, true⟩) }

/-- A change of memory by a bus master. -/
def setMem (c : CMem) (m : Mem) : CMem :=
  { c with mem := m }

/-- What a cache may do of its own accord. -/
inductive Noise : CMem → CMem → Prop
  | fill (c : CMem) (l : ℕ) : Noise c (c.fill l)
  | evict (c : CMem) (l : ℕ) : Noise c (c.evict l)

/-! ## What each action does to `mem`, `view` and `dirty` -/

@[simp] theorem mem_fill (c : CMem) (l : ℕ) : (c.fill l).mem = c.mem := by
  unfold fill
  split <;> rfl

@[simp] theorem view_fill (c : CMem) (l : ℕ) : (c.fill l).view = c.view := by
  unfold fill
  split
  · rfl
  · next hnone =>
      funext a
      by_cases ha : a / 64 = l
      · simp [view, ha, hnone]
      · simp [view, ha]

@[simp] theorem dirty_fill (c : CMem) (l l' : ℕ) : (c.fill l).dirty l' = c.dirty l' := by
  unfold fill
  split
  · rfl
  · next hnone =>
      by_cases hl : l' = l
      · simp [dirty, hl, hnone]
      · simp [dirty, hl]

theorem view_evict (c : CMem) (l a : ℕ) :
    (c.evict l).view a = if a / 64 = l then (c.evict l).mem a else c.view a := by
  by_cases ha : a / 64 = l
  · simp [view, evict, ha]
  · simp [view, evict, ha]

theorem dirty_evict (c : CMem) (l l' : ℕ) :
    (c.evict l).dirty l' = if l' = l then false else c.dirty l' := by
  by_cases hl : l' = l
  · simp [dirty, evict, hl]
  · simp [dirty, evict, hl]

theorem view_drop (c : CMem) (l a : ℕ) :
    (c.drop l).view a = if a / 64 = l then c.mem a else c.view a := by
  by_cases ha : a / 64 = l
  · simp [view, drop, ha]
  · simp [view, drop, ha]

theorem dirty_drop (c : CMem) (l l' : ℕ) :
    (c.drop l).dirty l' = if l' = l then false else c.dirty l' := by
  by_cases hl : l' = l
  · simp [dirty, drop, hl]
  · simp [dirty, drop, hl]

theorem view_write (c : CMem) (l a : ℕ) (g : Mem → Mem) :
    (c.write l g).view a = if a / 64 = l then g c.view a else c.view a := by
  by_cases ha : a / 64 = l
  · simp [view, write, ha]
  · simp [view, write, ha]

theorem dirty_write (c : CMem) (l l' : ℕ) (g : Mem → Mem) :
    (c.write l g).dirty l' = if l' = l then true else c.dirty l' := by
  by_cases hl : l' = l
  · simp [dirty, write, hl]
  · simp [dirty, write, hl]

@[simp] theorem dirty_setMem (c : CMem) (m : Mem) (l : ℕ) : (c.setMem m).dirty l = c.dirty l := rfl

theorem view_setMem (c : CMem) (m : Mem) (a : ℕ) :
    (c.setMem m).view a = if (c.cache (a / 64)).isSome then c.view a else m a := by
  unfold view setMem
  cases c.cache (a / 64) <;> simp

/-- Discarding a clean line is evicting it. -/
theorem drop_eq_evict {c : CMem} {l : ℕ} (h : c.dirty l = false) : c.drop l = c.evict l := by
  have hmem : (c.evict l).mem = c.mem := by
    funext a
    simp [evict, h]
  exact congrArg₂ CMem.mk hmem.symm rfl

end CMem

/-! ## Cells -/

/-- A quantity in one line: its value in memory, its value to the processor, and whether the line
is dirty. -/
structure Cell (α : Type) where
  mem : α
  view : α
  dirty : Bool

namespace Cell

variable {α : Type}

/-- The changes that fills and evictions can make. -/
inductive Drift : Cell α → Cell α → Prop
  | same (c : Cell α) : Drift c c
  | refresh (m v : α) : Drift ⟨m, v, false⟩ ⟨m, m, false⟩
  | writeBack (m v : α) : Drift ⟨m, v, true⟩ ⟨v, v, false⟩

/-- After the line has been removed from the cache with its contents kept. -/
def cleaned (c : Cell α) : Cell α :=
  if c.dirty then ⟨c.view, c.view, false⟩ else ⟨c.mem, c.mem, false⟩

/-- After the line has been discarded. -/
def dropped (c : Cell α) : Cell α :=
  ⟨c.mem, c.mem, false⟩

/-- After a store by the processor. -/
def stored (c : Cell α) (v : α) : Cell α :=
  ⟨c.mem, v, true⟩

theorem drift_cleaned (c : Cell α) : Drift c c.cleaned := by
  rcases c with ⟨m, v, d⟩
  cases d
  · exact .refresh m v
  · exact .writeBack m v

/-- A clean cell keeps its memory value and stays clean. -/
theorem Drift.of_clean {c c' : Cell α} (h : Drift c c') (hc : c.dirty = false) :
    c'.dirty = false ∧ c'.mem = c.mem ∧ (c'.view = c.view ∨ c'.view = c.mem) := by
  cases h with
  | same c => exact ⟨hc, rfl, .inl rfl⟩
  | refresh m v => exact ⟨rfl, rfl, .inr rfl⟩
  | writeBack m v => exact absurd hc (by simp)

/-- What the processor sees is what memory holds, or will hold once the line is written back. -/
def Settled (c : Cell α) : Prop :=
  c.dirty = false → c.mem = c.view

theorem settled_stored (c : Cell α) (v : α) : (c.stored v).Settled := by
  intro h
  exact absurd h (by simp [stored])

/-- The processor keeps seeing the same value of a settled cell. -/
theorem Drift.of_settled {c c' : Cell α} (h : Drift c c') (hc : c.Settled) :
    c'.Settled ∧ c'.view = c.view ∧ (c'.mem = c.mem ∨ c'.mem = c.view) := by
  cases h with
  | same c => exact ⟨hc, rfl, .inl rfl⟩
  | refresh m v =>
      have hmv : m = v := hc rfl
      exact ⟨fun _ => rfl, hmv, .inl rfl⟩
  | writeBack m v => exact ⟨fun _ => rfl, rfl, .inr rfl⟩

end Cell

namespace CMem

variable {α : Type}

/-- `f` reads only line `l`. -/
def Local (l : ℕ) (f : Mem → α) : Prop :=
  ∀ m m' : Mem, Set.EqOn m m' (lineSet l) → f m = f m'

def cell (c : CMem) (l : ℕ) (f : Mem → α) : Cell α where
  mem := f c.mem
  view := f c.view
  dirty := c.dirty l

theorem local_byte (a : ℕ) : Local (a / 64) fun m : Mem => m a :=
  fun _ _ h => h rfl

variable {c c' : CMem} {l l' : ℕ} {f : Mem → α}

@[simp] theorem cell_fill : (c.fill l').cell l f = c.cell l f := by
  simp [cell]

theorem cell_evict_same (hf : Local l f) : (c.evict l).cell l f = (c.cell l f).cleaned := by
  have hview : f (c.evict l).view = f (c.evict l).mem := by
    apply hf
    rintro a rfl
    rw [view_evict, if_pos rfl]
  have hmem : f (c.evict l).mem = if c.dirty l then f c.view else f c.mem := by
    cases hd : c.dirty l
    · apply hf
      intro a _
      simp [evict, hd]
    · apply hf
      intro a ha
      simp only [mem_lineSet] at ha
      simp [evict, hd, ha]
  cases hd : c.dirty l <;> simp_all [cell, Cell.cleaned, dirty_evict]

theorem cell_evict_other (hf : Local l f) (hl : l' ≠ l) : (c.evict l').cell l f = c.cell l f := by
  have hne : ∀ a, a ∈ lineSet l → a / 64 ≠ l' := by
    rintro a rfl
    exact fun h => hl h.symm
  have hview : f (c.evict l').view = f c.view := by
    apply hf
    intro a ha
    rw [view_evict, if_neg (hne a ha)]
  have hmem : f (c.evict l').mem = f c.mem := by
    apply hf
    intro a ha
    simp [evict, hne a ha]
  simp [cell, hview, hmem, dirty_evict, Ne.symm hl]

/-- Whatever the cache does of its own accord, a cell only drifts. -/
theorem cell_noise (h : Noise c c') (hf : Local l f) : (c.cell l f).Drift (c'.cell l f) := by
  cases h with
  | fill l' =>
      rw [cell_fill]
      exact .same _
  | evict l' =>
      by_cases hl : l' = l
      · subst hl
        rw [cell_evict_same hf]
        exact Cell.drift_cleaned _
      · rw [cell_evict_other hf hl]
        exact .same _

theorem cell_drop_same (hf : Local l f) : (c.drop l).cell l f = (c.cell l f).dropped := by
  have hview : f (c.drop l).view = f c.mem := by
    apply hf
    rintro a rfl
    rw [view_drop, if_pos rfl]
  simp only [cell, Cell.dropped, hview, dirty_drop, if_pos]
  rfl

theorem cell_write_same {g : Mem → Mem} (hf : Local l f) :
    (c.write l g).cell l f = (c.cell l f).stored (f (g c.view)) := by
  have hview : f (c.write l g).view = f (g c.view) := by
    apply hf
    rintro a rfl
    rw [view_write, if_pos rfl]
  simp only [cell, Cell.stored, hview, dirty_write, if_pos]
  rfl

theorem cell_write_other {g : Mem → Mem} (hf : Local l f) (hl : l' ≠ l) :
    (c.write l' g).cell l f = c.cell l f := by
  have hview : f (c.write l' g).view = f c.view := by
    apply hf
    rintro a rfl
    rw [view_write, if_neg (Ne.symm hl)]
  simp only [cell, hview, dirty_write, if_neg (Ne.symm hl)]
  rfl

/-- A bus master's write elsewhere leaves a cell alone. -/
theorem cell_setMem_other {m : Mem} (hf : Local l f) (hm : Set.EqOn m c.mem (lineSet l)) :
    (c.setMem m).cell l f = c.cell l f := by
  have hview : f (c.setMem m).view = f c.view := by
    apply hf
    rintro a rfl
    rw [view_setMem]
    split
    · rfl
    · next hc =>
        rw [hm rfl]
        simp only [Option.isSome_iff_exists, not_exists] at hc
        unfold view
        split
        · next ln hln => exact absurd hln (hc ln)
        · rfl
  simp only [cell, hview, dirty_setMem]
  exact congrArg (fun x => Cell.mk x _ _) (hf _ _ hm)

/-- After a bus master's write the processor sees the old value (cached) or the new one. -/
theorem cell_setMem (hf : Local l f) (m : Mem) :
    ∃ v, (c.setMem m).cell l f = ⟨f m, v, c.dirty l⟩ ∧ (v = f c.view ∨ v = f m) := by
  refine ⟨f (c.setMem m).view, rfl, ?_⟩
  cases hc : (c.cache l).isSome
  · right
    apply hf
    rintro a rfl
    rw [view_setMem, hc]
    rfl
  · left
    apply hf
    rintro a rfl
    rw [view_setMem, hc, if_pos rfl]

/-! ## Memory without a cache -/

/-- No line is cached. -/
def Uncached (c : CMem) : Prop :=
  c.cache = fun _ => none

theorem Uncached.view (h : Uncached c) : c.view = c.mem := by
  funext a
  simp [CMem.view, show c.cache = fun _ => none from h]

theorem Uncached.dirty (h : Uncached c) (l : ℕ) : c.dirty l = false := by
  simp [CMem.dirty, show c.cache = fun _ => none from h]

theorem Uncached.setMem (h : Uncached c) (m : Mem) : Uncached (c.setMem m) := h

theorem Uncached.evict (h : Uncached c) (l : ℕ) : c.evict l = c := by
  have hmem : (c.evict l).mem = c.mem := by
    funext a
    simp [CMem.evict, h.dirty]
  have hcache : (c.evict l).cache = c.cache := by
    funext l'
    simp [CMem.evict, show c.cache = fun _ => none from h]
  exact congrArg₂ CMem.mk hmem hcache

theorem Uncached.drop (h : Uncached c) (l : ℕ) : c.drop l = c := by
  have hcache : (c.drop l).cache = c.cache := by
    funext l'
    simp [CMem.drop, show c.cache = fun _ => none from h]
  exact congrArg (CMem.mk c.mem) hcache

/-- A fill undone at once. -/
theorem Uncached.evict_fill (h : Uncached c) (l : ℕ) : (c.fill l).evict l = c := by
  have hcache : ((c.fill l).evict l).cache = c.cache := by
    funext l'
    simp [CMem.evict, CMem.fill, show c.cache = fun _ => none from h]
  have hmem : ((c.fill l).evict l).mem = c.mem := by
    funext a
    simp [CMem.evict, h.dirty]
  exact congrArg₂ CMem.mk hmem hcache

/-- A store written back at once. -/
theorem Uncached.evict_write (h : Uncached c) (l : ℕ) (g : Mem → Mem) :
    (c.write l g).evict l = c.setMem fun a => if a / 64 = l then g c.mem a else c.mem a := by
  have hcache : ((c.write l g).evict l).cache = c.cache := by
    funext l'
    by_cases hl : l' = l
    · simp [CMem.evict, hl, show c.cache = fun _ => none from h]
    · simp [CMem.evict, CMem.write, hl]
  have hmem : ((c.write l g).evict l).mem = fun a => if a / 64 = l then g c.mem a else c.mem a := by
    funext a
    by_cases ha : a / 64 = l
    · simp [CMem.evict, ha, dirty_write, view_write, h.view]
    · simp [CMem.evict, ha, CMem.write]
  exact congrArg₂ CMem.mk hmem hcache

end CMem

/-- How the processor's accesses reach memory. -/
structure MemSys where
  view : CMem → Mem
  touch : CMem → ℕ → CMem
  write : CMem → ℕ → (Mem → Mem) → CMem
  clean : CMem → ℕ → CMem
  drop : CMem → ℕ → CMem

/-- Through the cache: a load fills the line, a store fills and dirties it. -/
def cached : MemSys where
  view := CMem.view
  touch := CMem.fill
  write := CMem.write
  clean := CMem.evict
  drop := CMem.drop

/-- Straight to memory; maintenance does nothing.  `g` changes line `l` only. -/
def direct : MemSys where
  view := CMem.mem
  touch c _ := c
  write c l g := c.setMem fun a => if a / 64 = l then g c.mem a else c.mem a
  clean c _ := c
  drop c _ := c

end BspV3s
