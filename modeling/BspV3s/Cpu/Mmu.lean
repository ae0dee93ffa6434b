import BspV3s.Lcd.Slots
import BspV3s.Lib.Program
import BspV3s.Lib.Sections

/-!
# Mmu — the page table

`rt_hw_mmu_setmtt` fills a range of the first-level table with sections, and `rt_hw_mmu_init` calls it
four times, each call overwriting some of what the calls before have filled.  Where the physical start
of a call is its virtual start, an entry that the call fills maps its section to itself.

* `fill_rtHwMmuSetmtt` : the entries of one call;
* `fill_rtHwMmuInit`   : the table that the four calls leave;
* `mmu_identity`       : both, and what the table means.
-/

namespace BspV3s

namespace Mmu

open Prog Sections

abbrev U32 := BitVec 32

/-! ## Attributes -/

def DESC_SEC : U32 := 0x2
def CB : U32 := 3 <<< 2
def NCNB : U32 := 0 <<< 2
def AP_RW : U32 := 3 <<< 10
def XN : U32 := 1 <<< 4
def DOMAIN0 : U32 := 0x0 <<< 5
def TEX_MEM : U32 := 1 <<< 12

def RW_CB : U32 := AP_RW ||| DOMAIN0 ||| CB ||| DESC_SEC ||| XN
def RW_NCNB : U32 := AP_RW ||| DOMAIN0 ||| NCNB ||| DESC_SEC ||| XN

/-! ## The routines -/

/-- What `rt_hw_mmu_init` does beside the table. -/
inductive Cp15
  | dcacheDisable
  | icacheDisable
  | mmuDisable
  | tlbSet
  | setDomainRegister (domainVal : U32)
  | alignCheckDisable
  | mmuEnable
  | icacheEnable
  | dcacheEnable

/-- A store to the word at a number from the table's base on, or a call for the coprocessor. -/
inductive Op
  | store (entry : ℕ) (v : U32)
  | cp15 (c : Cp15)

abbrev Op.Ret : Op → Type := fun _ => Unit

abbrev MmuM := Prog Op Op.Ret

/-- `n` rounds are left, from the `i`-th on. -/
def setmttLoop (paddrStart attr : U32) : (n : ℕ) → (i : U32) → (pTT : ℕ) → MmuM Unit
  | 0, _, _ => pure ()
  | n + 1, i, pTT => do
      Prog.op (Op.store pTT (attr ||| ((paddrStart >>> 20) + i) <<< 20))
      setmttLoop paddrStart attr n (i + 1) (pTT + 1)

/-- `rt_hw_mmu_setmtt`; the number of rounds is a signed difference. -/
def rtHwMmuSetmtt (vaddrStart vaddrEnd paddrStart attr : U32) : MmuM Unit :=
  let pTT := (vaddrStart >>> 20).toNat
  let nSec := ((vaddrEnd >>> 20) - (vaddrStart >>> 20)).toInt
  setmttLoop paddrStart attr (nSec + 1).toNat 0 pTT

/-- `rt_hw_mmu_init`. -/
def rtHwMmuInit : MmuM Unit := do
  Prog.op (.cp15 .dcacheDisable)
  Prog.op (.cp15 .icacheDisable)
  Prog.op (.cp15 .mmuDisable)
  let dmaNocache := Lcd.RT_HW_HEAP_END
  rtHwMmuSetmtt 0x00000000 0xFFFFFFFF 0x00000000 RW_NCNB
  rtHwMmuSetmtt 0x40000000 (dmaNocache - 1) 0x40000000 RW_CB
  rtHwMmuSetmtt 0x00000000 0x000FFFFF 0x00000000 (RW_NCNB ||| TEX_MEM)
  rtHwMmuSetmtt dmaNocache 0x43FFFFFF dmaNocache (RW_NCNB ||| TEX_MEM)
  Prog.op (.cp15 .tlbSet)
  Prog.op (.cp15 (.setDomainRegister 0xFFFFFFFF))
  Prog.op (.cp15 .alignCheckDisable)
  Prog.op (.cp15 .mmuEnable)
  Prog.op (.cp15 .icacheEnable)
  Prog.op (.cp15 .dcacheEnable)

def access (o : Op) (t : Table) : Op.Ret o × Table :=
  match o with
  | .store entry v => ((), Function.update t entry v)
  | .cp15 _ => ((), t)

/-- The table that a routine leaves. -/
def fill (p : MmuM Unit) (t : Table) : Table := (p.runOn access t).2

theorem fill_bind (p q : MmuM Unit) (t : Table) : fill (p >>= fun _ => q) t = fill q (fill p t) :=
  congrArg Prod.snd (runOn_bind access p (fun _ => q) t)

theorem fill_cp15 (c : Cp15) (t : Table) : fill (Prog.op (.cp15 c)) t = t :=
  congrArg Prod.snd (runOn_op access (.cp15 c) t)

/-! ## One call -/

variable {paddrStart attr vaddrStart vaddrEnd : U32}

theorem fill_setmttLoop (paddrStart attr : U32) (n : ℕ) (i : U32) (pTT : ℕ) (t : Table) (e : ℕ) :
    fill (setmttLoop paddrStart attr n i pTT) t e =
      if pTT ≤ e ∧ e < pTT + n then
        attr ||| ((paddrStart >>> 20) + (i + BitVec.ofNat 32 (e - pTT))) <<< 20
      else t e := by
  induction n generalizing i pTT t with
  | zero =>
      have hnone : ¬ (pTT ≤ e ∧ e < pTT + 0) := fun h => absurd h.2 (Nat.not_lt.2 h.1)
      rw [if_neg hnone]
      rfl
  | succ n ih =>
      have hstep : fill (setmttLoop paddrStart attr (n + 1) i pTT) t =
          fill (setmttLoop paddrStart attr n (i + 1) (pTT + 1))
            (Function.update t pTT (attr ||| ((paddrStart >>> 20) + i) <<< 20)) := rfl
      rw [hstep, ih]
      rcases Nat.lt_trichotomy e pTT with hlt | rfl | hgt
      · -- An entry below the range.
        have hrest : ¬ (pTT + 1 ≤ e ∧ e < pTT + 1 + n) := by omega
        have hall : ¬ (pTT ≤ e ∧ e < pTT + (n + 1)) := by omega
        rw [if_neg hrest, if_neg hall, Function.update_of_ne (Nat.ne_of_lt hlt)]
      · -- The entry of this round, which the later ones leave alone.
        have hrest : ¬ (e + 1 ≤ e ∧ e < e + 1 + n) := by omega
        have hall : e ≤ e ∧ e < e + (n + 1) := by omega
        rw [if_neg hrest, if_pos hall, Function.update_self, Nat.sub_self, BitVec.add_zero]
      · have hiff : pTT + 1 ≤ e ∧ e < pTT + 1 + n ↔ pTT ≤ e ∧ e < pTT + (n + 1) := by omega
        have hnext : i + 1 + BitVec.ofNat 32 (e - (pTT + 1)) = i + BitVec.ofNat 32 (e - pTT) := by
          have hsucc : e - pTT = 1 + (e - (pTT + 1)) := by omega
          rw [hsucc, BitVec.ofNat_add]
          exact BitVec.add_assoc i 1 _
        rw [Function.update_of_ne (Nat.ne_of_gt hgt), hnext]
        simp only [hiff]

theorem only_setmttLoop (paddrStart attr : U32) (n : ℕ) (i : U32) (pTT : ℕ) :
    Only (fun o => ∃ e v, o = .store e v ∧ pTT ≤ e ∧ e < pTT + n)
      (setmttLoop paddrStart attr n i pTT) := by
  induction n generalizing i pTT with
  | zero => exact only_pure ()
  | succ n ih =>
      refine Only.bind (only_op ⟨pTT, _, rfl, le_refl _, Nat.lt_add_of_pos_right n.succ_pos⟩) fun _ => ?_
      refine Only.mono ?_ (ih (i + 1) (pTT + 1))
      rintro _ ⟨e, v, rfl, hlow, hhigh⟩
      exact ⟨e, v, rfl, Nat.le_of_succ_le hlow, by omega⟩

theorem section_lt (va : U32) : (va >>> 20).toNat < 4096 := by
  rw [BitVec.toNat_ushiftRight, Nat.shiftRight_eq_div_pow]
  exact Nat.div_lt_of_lt_mul va.isLt

/-- The number of rounds: both ends are filled. -/
theorem rounds (h : vaddrStart >>> 20 ≤ vaddrEnd >>> 20) :
    (((vaddrEnd >>> 20) - (vaddrStart >>> 20)).toInt + 1).toNat =
      (vaddrEnd >>> 20).toNat - (vaddrStart >>> 20).toNat + 1 := by
  have hend := section_lt vaddrEnd
  have hsub := BitVec.toNat_sub_of_le h
  have hsmall : 2 * ((vaddrEnd >>> 20) - (vaddrStart >>> 20)).toNat < 2 ^ 32 := by omega
  rw [BitVec.toInt_eq_toNat_of_lt hsmall, hsub]
  rfl

/-- The entries that a call sets, with both ends. -/
def InRange (vaddrStart vaddrEnd : U32) (e : ℕ) : Prop :=
  (vaddrStart >>> 20).toNat ≤ e ∧ e ≤ (vaddrEnd >>> 20).toNat

instance instDecidableInRange (vaddrStart vaddrEnd : U32) (e : ℕ) :
    Decidable (InRange vaddrStart vaddrEnd e) :=
  inferInstanceAs (Decidable (_ ∧ _))

theorem inRange_iff (h : vaddrStart >>> 20 ≤ vaddrEnd >>> 20) (e : ℕ) :
    (vaddrStart >>> 20).toNat ≤ e ∧ e < (vaddrStart >>> 20).toNat +
        ((vaddrEnd >>> 20).toNat - (vaddrStart >>> 20).toNat + 1) ↔
      InRange vaddrStart vaddrEnd e := by
  have hle : (vaddrStart >>> 20).toNat ≤ (vaddrEnd >>> 20).toNat := h
  unfold InRange
  omega

theorem fill_rtHwMmuSetmtt (h : vaddrStart >>> 20 ≤ vaddrEnd >>> 20) (paddrStart attr : U32)
    (t : Table) (e : ℕ) :
    fill (rtHwMmuSetmtt vaddrStart vaddrEnd paddrStart attr) t e =
      if InRange vaddrStart vaddrEnd e then
        attr ||| ((paddrStart >>> 20) + BitVec.ofNat 32 (e - (vaddrStart >>> 20).toNat)) <<< 20
      else t e := by
  have hzero : ∀ x : U32, 0 + x = x := BitVec.zero_add
  rw [rtHwMmuSetmtt, rounds h, fill_setmttLoop, hzero]
  simp only [inRange_iff h]

theorem only_rtHwMmuSetmtt (h : vaddrStart >>> 20 ≤ vaddrEnd >>> 20) (paddrStart attr : U32) :
    Only (fun o => ∃ e v, o = .store e v ∧ InRange vaddrStart vaddrEnd e ∧ e < 4096)
      (rtHwMmuSetmtt vaddrStart vaddrEnd paddrStart attr) := by
  rw [rtHwMmuSetmtt, rounds h]
  refine Only.mono ?_ (only_setmttLoop _ _ _ _ _)
  rintro _ ⟨e, v, rfl, he⟩
  rw [inRange_iff h] at he
  exact ⟨e, v, rfl, he, lt_of_le_of_lt he.2 (section_lt vaddrEnd)⟩

/-! ## The whole table -/

/-- A call that maps its range to itself. -/
theorem fill_identity (h : vaddrStart >>> 20 ≤ vaddrEnd >>> 20) (attr : U32) (t : Table) (va : U32) :
    fill (rtHwMmuSetmtt vaddrStart vaddrEnd vaddrStart attr) t (va >>> 20).toNat =
      if InRange vaddrStart vaddrEnd (va >>> 20).toNat then attr ||| (va >>> 20) <<< 20
      else t (va >>> 20).toNat := by
  rw [fill_rtHwMmuSetmtt h]
  split
  · next hin =>
      have hsection : (vaddrStart >>> 20) +
          BitVec.ofNat 32 ((va >>> 20).toNat - (vaddrStart >>> 20).toNat) = va >>> 20 := by
        apply BitVec.eq_of_toNat_eq
        have hlow := hin.1
        have hlt := section_lt va
        rw [BitVec.toNat_add, BitVec.toNat_ofNat]
        omega
      rw [hsection]
  · rfl

/-- The attributes that the last of the calls to fill a section has given it. -/
def attrOf (va : U32) : U32 :=
  if InRange Lcd.RT_HW_HEAP_END 0x43FFFFFF (va >>> 20).toNat then RW_NCNB ||| TEX_MEM
  else if InRange 0x00000000 0x000FFFFF (va >>> 20).toNat then RW_NCNB ||| TEX_MEM
  else if InRange 0x40000000 (Lcd.RT_HW_HEAP_END - 1) (va >>> 20).toNat then RW_CB
  else RW_NCNB

theorem fill_rtHwMmuInit (t : Table) (va : U32) :
    fill rtHwMmuInit t (va >>> 20).toNat = attrOf va ||| (va >>> 20) <<< 20 := by
  have hcalls : fill rtHwMmuInit t =
      fill (rtHwMmuSetmtt Lcd.RT_HW_HEAP_END 0x43FFFFFF Lcd.RT_HW_HEAP_END (RW_NCNB ||| TEX_MEM))
        (fill (rtHwMmuSetmtt 0x00000000 0x000FFFFF 0x00000000 (RW_NCNB ||| TEX_MEM))
          (fill (rtHwMmuSetmtt 0x40000000 (Lcd.RT_HW_HEAP_END - 1) 0x40000000 RW_CB)
            (fill (rtHwMmuSetmtt 0x00000000 0xFFFFFFFF 0x00000000 RW_NCNB) t))) := by
    rw [rtHwMmuInit]
    simp only [fill_bind, fill_cp15]
  have hall : InRange 0x00000000 0xFFFFFFFF (va >>> 20).toNat :=
    ⟨Nat.zero_le _, Nat.le_of_lt_succ (section_lt va)⟩
  rw [hcalls, fill_identity (by decide), fill_identity (by decide), fill_identity (by decide),
    fill_identity (by decide), if_pos hall, attrOf]
  repeat' split
  all_goals rfl

/-- The cacheable part of the address space. -/
def InHeap (va : U32) : Prop :=
  0x40000000 ≤ va ∧ va < Lcd.RT_HW_HEAP_END

instance instDecidableInHeap (va : U32) : Decidable (InHeap va) :=
  inferInstanceAs (Decidable (_ ∧ _))

/-- The bytes of the two frame buffers. -/
def InFrameBuffer (va : U32) : Prop :=
  ∃ fb, (fb = Lcd.fbAddresses.1 ∨ fb = Lcd.fbAddresses.2) ∧ ∃ i < Lcd.SLOT_SIZE, va = fb + i

theorem toNat_section (va : U32) : (va >>> 20).toNat = va.toNat / 2 ^ 20 := by
  rw [BitVec.toNat_ushiftRight, Nat.shiftRight_eq_div_pow]

theorem memoryOf_attrOf_heap {va : U32} (h : InHeap va) : memoryOf (attrOf va) = .writeBack := by
  have hlow : 0x40000000 ≤ va.toNat := h.1
  have hhigh : va.toNat < 0x43800000 := h.2
  have hbuffers : ¬ InRange Lcd.RT_HW_HEAP_END 0x43FFFFFF (va >>> 20).toNat := by
    rintro ⟨hle, -⟩
    have hle : 0x438 ≤ (va >>> 20).toNat := hle
    rw [toNat_section] at hle
    omega
  have hvectors : ¬ InRange 0x00000000 0x000FFFFF (va >>> 20).toNat := by
    rintro ⟨-, hle⟩
    have hle : (va >>> 20).toNat ≤ 0 := hle
    rw [toNat_section] at hle
    omega
  have hheap : InRange 0x40000000 (Lcd.RT_HW_HEAP_END - 1) (va >>> 20).toNat := by
    change 0x400 ≤ (va >>> 20).toNat ∧ (va >>> 20).toNat ≤ 0x437
    rw [toNat_section]
    omega
  rw [attrOf, if_neg hbuffers, if_neg hvectors, if_pos hheap]
  decide

theorem memoryOf_attrOf_outside {va : U32} (h : ¬ InHeap va) :
    (memoryOf (attrOf va)).uncached = true := by
  have hheap : ¬ InRange 0x40000000 (Lcd.RT_HW_HEAP_END - 1) (va >>> 20).toNat := by
    rintro ⟨hlow, hhigh⟩
    have hlow : 0x400 ≤ (va >>> 20).toNat := hlow
    have hhigh : (va >>> 20).toNat ≤ 0x437 := hhigh
    rw [toNat_section] at hlow hhigh
    refine h ⟨?_, ?_⟩
    · change 0x40000000 ≤ va.toNat
      omega
    · change va.toNat < 0x43800000
      omega
  rw [attrOf, if_neg hheap]
  repeat' split
  all_goals decide

/-- The frame buffers lie above the heap, in the last of the four ranges. -/
theorem memoryOf_attrOf_frameBuffer {va : U32} (h : InFrameBuffer va) :
    ¬ InHeap va ∧ memoryOf (attrOf va) = .nonCacheable := by
  rcases h with ⟨fb, hfb, i, hi, rfl⟩
  have hi : i.toNat < 0x400000 := hi
  have hfb : fb.toNat = 0x43800000 ∨ fb.toNat = 0x43C00000 := by
    rcases hfb with rfl | rfl
    · exact .inl rfl
    · exact .inr rfl
  have hva : (fb + i).toNat = fb.toNat + i.toNat := BitVec.toNat_add_of_lt (by omega)
  have hrange : InRange Lcd.RT_HW_HEAP_END 0x43FFFFFF ((fb + i) >>> 20).toNat := by
    change 0x438 ≤ ((fb + i) >>> 20).toNat ∧ ((fb + i) >>> 20).toNat ≤ 0x43F
    rw [toNat_section, hva]
    omega
  constructor
  · rintro ⟨-, hhigh⟩
    have hhigh : (fb + i).toNat < 0x43800000 := hhigh
    omega
  · rw [attrOf, if_pos hrange]
    decide

/-- The page table.  Whatever the table holds before: one call of `rt_hw_mmu_setmtt` stores the
sections of its range, to entries of the table only, and leaves the others alone; and the calls of
`rt_hw_mmu_init` map every address to itself, write-back exactly in the heap and uncached elsewhere,
the frame buffers as ordinary memory. -/
theorem mmu_identity :
    (∀ (vaddrStart vaddrEnd paddrStart attr : U32) (t : Table),
      vaddrStart >>> 20 ≤ vaddrEnd >>> 20 →
        (∀ e, fill (rtHwMmuSetmtt vaddrStart vaddrEnd paddrStart attr) t e =
          if InRange vaddrStart vaddrEnd e then
            attr ||| ((paddrStart >>> 20) + BitVec.ofNat 32 (e - (vaddrStart >>> 20).toNat)) <<< 20
          else t e) ∧
        Only (fun o => ∃ e v, o = .store e v ∧ InRange vaddrStart vaddrEnd e ∧ e < 4096)
          (rtHwMmuSetmtt vaddrStart vaddrEnd paddrStart attr)) ∧
    ∀ (t : Table) (va : U32), ∃ mem, translate (fill rtHwMmuInit t) va = some (va, mem) ∧
      (mem = .writeBack ↔ InHeap va) ∧ (mem.uncached = true ↔ ¬ InHeap va) ∧
      (InFrameBuffer va → ¬ InHeap va ∧ mem = .nonCacheable) := by
  refine ⟨fun vaddrStart vaddrEnd paddrStart attr t h =>
    ⟨fill_rtHwMmuSetmtt h paddrStart attr t, only_rtHwMmuSetmtt h paddrStart attr⟩,
    fun t va => ⟨memoryOf (attrOf va), ?_, ?_, ?_, memoryOf_attrOf_frameBuffer⟩⟩
  · have hattr : attrOf va &&& 0xfff00000 = 0 ∧ IsSection (attrOf va) := by
      unfold attrOf
      repeat' split
      all_goals decide
    exact translate_desc hattr.1 hattr.2 (fill_rtHwMmuInit t va)
  · refine ⟨fun hmem => Decidable.by_contra fun hout => ?_, memoryOf_attrOf_heap⟩
    have huncached := memoryOf_attrOf_outside hout
    rw [hmem] at huncached
    cases huncached
  · refine ⟨fun huncached hin => ?_, memoryOf_attrOf_outside⟩
    rw [memoryOf_attrOf_heap hin] at huncached
    cases huncached

/-- The last section of the heap, and the second frame buffer. -/
theorem mmu_identity_boundary :
    fill (rtHwMmuSetmtt 0x40000000 0x437FFFFF 0x40000000 RW_CB) (fun _ => 0) 0x437 = 0x43700C1E ∧
      translate (fill rtHwMmuInit fun _ => 0) 0x43C00000 = some (0x43C00000, .nonCacheable) := by
  constructor
  · exact ((mmu_identity.1 0x40000000 0x437FFFFF 0x40000000 RW_CB (fun _ => 0) (by decide)).1 0x437).trans
      (by decide)
  · rcases mmu_identity.2 (fun _ => 0) 0x43C00000 with ⟨mem, htranslate, -, -, hbuffer⟩
    rw [htranslate, (hbuffer ⟨0x43C00000, .inr rfl, 0, by decide, rfl⟩).2]

end Mmu

end BspV3s
