import BspV3s.Lib.Bits
import BspV3s.Lib.Hierarchy
import BspV3s.Lib.Sweep
import Mathlib.Data.Nat.Log
import Mathlib.Tactic.Ring

/-!
# SetWay — maintenance of whole caches

`v7_flush_dcache_all`, `v7_invalidate_dcache_all` and `rt_cpu_dcache_clean_flush` read from the processor
how many levels of cache it has and how large each is, and name every slot of every level once in an
operation by set and way.  They differ in the operation, in which of the two loops over a level is the
outer one, and in how many bits of the number of sets they keep.

* `decode`                : an operation names the way and the set that its loops have counted to;
* `wp_flushLevel`         : a round names every slot that it counts through;
* `flush_cleans`          : the flushes leave memory holding what the processor has been seeing, and the
  shorter mask of `rt_cpu_dcache_clean_flush` is enough exactly for at most 2048 sets;
* `v7_invalidate_empties` : without allocation the invalidation leaves the processor reading memory.
-/

namespace BspV3s

namespace SetWay

open Prog

abbrev U32 := BitVec 32

/-! ## The routines -/

/-- The operations by set and way: clean and invalidate, and invalidate only. -/
inductive SetWayOp
  | dccisw
  | dcisw

inductive Op
  | dmb
  | dsb
  | isb
  | readClidr
  | writeCsselr (v : U32)
  | readCcsidr
  | setWay (c : SetWayOp) (v : U32)

abbrev Op.Ret : Op → Type
  | .readClidr | .readCcsidr => U32
  | _ => Unit

abbrev M := Prog Op Op.Ret

/-- Which of the two loops over a level is the outer one. -/
inductive Nest
  | ways
  | indices

/-- `body way index` for both from their maximum down to 0. -/
def Nest.sweep (nest : Nest) (body : ℕ → ℕ → M Unit) (maxWay maxIndex : ℕ) : M Unit :=
  match nest with
  | .ways => Prog.sweep body maxWay maxIndex
  | .indices => Prog.sweep (fun index way => body way index) maxIndex maxWay

/-- One round of `flush_levels`, with the cache number in `r10`.  The counts are masked fields, so that
`subs` and `bge` count down to 0. -/
def flushLevel (nest : Nest) (maxIndexMask : U32) (c : SetWayOp) (clidr r10 : U32) : M Unit := do
  let r2 := r10 + r10 >>> 1
  let r1 := clidr >>> r2 &&& 7
  if r1 < 2 then
    pure ()
  else
    Prog.op (Op.writeCsselr r10)
    Prog.op Op.isb
    let r1 : U32 ← Prog.op Op.readCcsidr
    let r2 := (r1 &&& 7) + 4
    let r4 := (0x3ff : U32) &&& r1 >>> 3
    let r5 := r4.clz
    let r7 := maxIndexMask &&& r1 >>> 13
    nest.sweep
      (fun way index =>
        Prog.op (Op.setWay c
          (r10 ||| BitVec.ofNat 32 way <<< r5 ||| BitVec.ofNat 32 index <<< r2)))
      r4.toNat r7.toNat

/-- The loop over the levels: `n` rounds are left. -/
def flushLevels (level : U32 → M Unit) : (n : ℕ) → (r10 : U32) → M Unit
  | 0, _ => pure ()
  | n + 1, r10 => do
      level r10
      flushLevels level n (r10 + 2)

/-- `__v7_flush_dcache_all` and `__v7_invalidate_dcache_all`, which is a copy of it; `r3` is twice the
level of coherence, and the cache number goes up by two from 0 while it is below `r3`. -/
def v7DcacheAll (c : SetWayOp) : M Unit := do
  Prog.op Op.dmb
  let r0 : U32 ← Prog.op Op.readClidr
  let r3 := r0 >>> 23 &&& (7 : U32) <<< 1
  flushLevels (flushLevel .ways 0x7fff c r0) (r3.toNat / 2) 0
  Prog.op (Op.writeCsselr 0)
  Prog.op Op.dsb
  Prog.op Op.isb

def v7FlushDcacheAll : M Unit := v7DcacheAll .dccisw

def v7InvalidateDcacheAll : M Unit := v7DcacheAll .dcisw

def FLD_MAX_IDX : U32 := 0x7ff

def rtCpuDcacheCleanFlush : M Unit := do
  Prog.op Op.dmb
  let r0 : U32 ← Prog.op Op.readClidr
  let r3 := (r0 &&& (0x7000000 : U32)) >>> 23
  flushLevels (flushLevel .indices FLD_MAX_IDX .dccisw r0) (r3.toNat / 2) 0
  Prog.op Op.dsb
  Prog.op Op.isb

/-! ## The processor -/

/-- The identification registers: `ccsidr` is indexed by the value that selects a cache. -/
structure Hw where
  clidr : U32
  ccsidr : U32 → U32

/-- The value of `csselr` that selects the data or unified cache of level `k`. -/
def select (k : ℕ) : U32 := BitVec.ofNat 32 (2 * k)

namespace Hw

variable (hw : Hw)

/-- The levels above the point of coherence. -/
def loc : ℕ := hw.clidr.toNat / 2 ^ 24 % 8

/-- The type of cache at level `k`, from 0. -/
def ctype (k : ℕ) : ℕ := hw.clidr.toNat / 2 ^ (3 * k) % 8

/-- Level `k` holds data. -/
def HasData (k : ℕ) : Prop := 2 ≤ hw.ctype k

instance instDecidableHasData (k : ℕ) : Decidable (hw.HasData k) :=
  inferInstanceAs (Decidable (2 ≤ _))

def lineBits (k : ℕ) : ℕ := (hw.ccsidr (select k)).toNat % 2 ^ 3 + 4

def ways (k : ℕ) : ℕ := (hw.ccsidr (select k)).toNat / 2 ^ 3 % 2 ^ 10 + 1

def sets (k : ℕ) : ℕ := (hw.ccsidr (select k)).toNat / 2 ^ 13 % 2 ^ 15 + 1

/-- The slots of level `k`, each a way and a set. -/
def slots (k : ℕ) : Set (ℕ × ℕ) :=
  {t | hw.HasData k ∧ t.1 < hw.ways k ∧ t.2 < hw.sets k}

/-- The fields of an operand by set and way do not overlap. -/
def Encodable : Prop :=
  ∀ k, k < hw.loc → hw.HasData k →
    hw.lineBits k + Nat.clog 2 (hw.sets k) + Nat.clog 2 (hw.ways k) ≤ 32

/-- The level that an operand names. -/
def levelOf (v : U32) : ℕ := v.toNat / 2 % 8

/-- The way and the set that an operand names: the ways have the highest bits, the sets those above the
bytes of a line. -/
def slotOf (v : U32) : ℕ × ℕ :=
  (v.toNat / 2 ^ (32 - Nat.clog 2 (hw.ways (levelOf v))),
    v.toNat / 2 ^ hw.lineBits (levelOf v) % 2 ^ Nat.clog 2 (hw.sets (levelOf v)))

/-- What an operation does to slot `t` of level `k`, at all addresses. -/
def Maintain {A V : Type} (c : SetWayOp) (k : ℕ) (t : ℕ × ℕ) (m m' : A → Chain (ℕ × ℕ) V) : Prop :=
  match c with
  | .dccisw => ∀ a, Chain.Flush hw.slots k t 0 (m a) (m' a)
  | .dcisw => ∀ a, m' a = (m a).discard k t 0

end Hw

/-- The cache selection register, whether an instruction barrier has followed the last write to it, and
what the levels above the point of coherence hold for each address. -/
structure St (A V : Type) where
  csselr : U32
  synced : Bool
  caches : A → Chain (ℕ × ℕ) V

variable {A V : Type}

/-- The size register answers for the selected cache once a barrier has followed the selection. -/
def sem (hw : Hw) : Sem Op Op.Ret (St A V) :=
  fun o s r s' =>
    match o with
    | .dmb | .dsb => s' = s
    | .isb => s' = { s with synced := true }
    | .readClidr => r = hw.clidr ∧ s' = s
    | .writeCsselr v => s' = { s with csselr := v, synced := false }
    | .readCcsidr => (s.synced = true → r = hw.ccsidr s.csselr) ∧ s' = s
    | .setWay c v =>
        s'.csselr = s.csselr ∧ s'.synced = s.synced ∧
          hw.Maintain c (Hw.levelOf v) (hw.slotOf v) s.caches s'.caches

/-- The caches move of their own accord, at any time. -/
def stirring (hw : Hw) (fills : Prop) : Rely Op (St A V) :=
  fun _ s s' => s'.csselr = s.csselr ∧ s'.synced = s.synced ∧
    Chain.Stir hw.slots fills s.caches s'.caches

/-- Nothing is promised at the single accesses. -/
def anyhow : Sem Op Op.Ret (St A V) := fun _ _ _ _ => True

/-! ## The fields of the registers -/

section Fields

theorem toNat_mask (v : U32) (lo width : ℕ) (m : U32) (hm : m.toNat = 2 ^ width - 1) :
    (m &&& v >>> lo).toNat = v.toNat / 2 ^ lo % 2 ^ width := by
  rw [BitVec.toNat_and, hm, BitVec.toNat_ushiftRight, Nat.shiftRight_eq_div_pow, Nat.and_comm,
    Nat.and_two_pow_sub_one_eq_mod]

/-- The bits that are left above the leading zeros number those up to a power of two. -/
theorem clog_succ (x : U32) : Nat.clog 2 (x.toNat + 1) = 32 - x.clz.toNat := by
  apply Nat.le_antisymm
  · rw [Nat.clog_le_iff_le_pow (by decide)]
    exact BitVec.toNat_lt_two_pow_sub_clz
  · by_cases hx : x = 0
    · subst hx
      decide
    · have hlow := BitVec.two_pow_sub_clz_le_toNat_of_ne_zero (by decide : 0 < 32) hx
      have hlt : 32 - 1 - x.clz.toNat < Nat.clog 2 (x.toNat + 1) := by
        rw [Nat.lt_clog_iff_pow_lt (by decide)]
        exact Nat.lt_succ_of_le hlow
      omega

variable {hw : Hw} {k : ℕ}

theorem toNat_select (hk : k < 8) : (select k).toNat = 2 * k :=
  toNat_ofNat_of_lt (by omega)

theorem select_succ (k : ℕ) : select k + 2 = select (k + 1) := by
  unfold select
  rw [Nat.mul_add, BitVec.ofNat_add]
  rfl

/-- `r2` in the first instruction of a round. -/
theorem toNat_triple (hk : k < 8) : (select k + select k >>> 1).toNat = 3 * k := by
  have hhalf : (select k >>> 1).toNat = k := by
    rw [BitVec.toNat_ushiftRight, toNat_select hk, Nat.shiftRight_eq_div_pow]
    omega
  rw [BitVec.toNat_add, hhalf, toNat_select hk]
  omega

theorem lt_two_iff (hk : k < 8) :
    hw.clidr >>> (select k + select k >>> 1) &&& 7 < 2 ↔ ¬ hw.HasData k := by
  have hfield : (hw.clidr >>> (select k + select k >>> 1) &&& 7).toNat = hw.ctype k := by
    rw [BitVec.and_comm, BitVec.ushiftRight_eq', toNat_triple hk, toNat_mask _ _ 3 7 rfl]
    rfl
  rw [BitVec.lt_def, hfield]
  exact Nat.not_le.symm

theorem toNat_length (v : U32) : ((v &&& 7) + 4).toNat = v.toNat % 2 ^ 3 + 4 := by
  have hmask := toNat_mask v 0 3 7 rfl
  rw [BitVec.ushiftRight_zero, BitVec.and_comm, Nat.pow_zero, Nat.div_one] at hmask
  have hlt := Nat.mod_lt v.toNat (by decide : 0 < 2 ^ 3)
  rw [BitVec.toNat_add, hmask]
  exact Nat.mod_eq_of_lt (by change _ + 4 < _; omega)

theorem loc_lt (hw : Hw) : hw.loc < 8 :=
  Nat.mod_lt _ (by decide)

theorem half_eq_loc (hw : Hw) {r3 : U32} (h : r3 >>> 1 = (7 : U32) &&& hw.clidr >>> 24) :
    r3.toNat / 2 = hw.loc := by
  have hhalf := congrArg BitVec.toNat h
  rw [BitVec.toNat_ushiftRight, Nat.shiftRight_eq_div_pow, toNat_mask _ _ 3 7 rfl] at hhalf
  exact hhalf

theorem r3_v7 (hw : Hw) : (hw.clidr >>> 23 &&& (7 : U32) <<< 1).toNat / 2 = hw.loc := by
  apply half_eq_loc
  rw [BitVec.ushiftRight_and_distrib, ← BitVec.shiftRight_add, BitVec.and_comm]
  rfl

theorem r3_cp15 (hw : Hw) : ((hw.clidr &&& (0x7000000 : U32)) >>> 23).toNat / 2 = hw.loc := by
  apply half_eq_loc
  rw [← BitVec.shiftRight_add, BitVec.ushiftRight_and_distrib, BitVec.and_comm]
  rfl

end Fields

/-! ## Operands -/

section Operands

variable {hw : Hw} {k way index : ℕ}

theorem toNat_ofNat_shiftLeft {n L : ℕ} {r : U32} (hr : r.toNat = L) (h : 2 ^ L * n < 2 ^ 32) :
    (BitVec.ofNat 32 n <<< r).toNat = 2 ^ L * n := by
  have hn : n < 2 ^ 32 := lt_of_le_of_lt (Nat.le_mul_of_pos_left n (Nat.two_pow_pos L)) h
  rw [BitVec.shiftLeft_eq', hr, BitVec.toNat_shiftLeft, toNat_ofNat_of_lt hn, Nat.shiftLeft_eq,
    Nat.mul_comm n, Nat.mod_eq_of_lt h]

/-- Three fields that do not overlap add up. -/
theorem toNat_operand {L B : ℕ} {r2 r5 : U32} (hk : k < 8) (hr2 : r2.toNat = L) (hr5 : r5.toNat = B)
    (hL : 4 ≤ L) (hindex : 2 ^ L * index + 2 * k < 2 ^ B) (hway : 2 ^ B * (way + 1) ≤ 2 ^ 32) :
    (select k ||| BitVec.ofNat 32 way <<< r5 ||| BitVec.ofNat 32 index <<< r2).toNat =
      2 ^ B * way + (2 ^ L * index + 2 * k) := by
  have hlow : 2 * k < 2 ^ L := lt_of_lt_of_le (by omega) (Nat.pow_le_pow_right (by decide) hL)
  have hB : 2 ^ B * way + 2 ^ B ≤ 2 ^ 32 := hway
  have hBpos := Nat.two_pow_pos B
  rw [BitVec.toNat_or, BitVec.toNat_or, toNat_select hk, toNat_ofNat_shiftLeft hr5 (by omega),
    toNat_ofNat_shiftLeft hr2 (by omega), Nat.or_assoc, Nat.or_comm (2 * k), Nat.or_assoc,
    ← Nat.two_pow_add_eq_or_of_lt hlow, ← Nat.two_pow_add_eq_or_of_lt hindex]

theorem level_of_fields {L B n : ℕ} (hk : k < 8) (hL : 4 ≤ L) (hLB : L ≤ B)
    (hn : n = 2 ^ B * way + (2 ^ L * index + 2 * k)) : n / 2 % 8 = k := by
  obtain ⟨L, rfl⟩ := Nat.exists_eq_add_of_le hL
  obtain ⟨B, rfl⟩ := Nat.exists_eq_add_of_le hLB
  have hfactor : n = 16 * (2 ^ L * (2 ^ B * way + index)) + 2 * k := by
    rw [hn, Nat.pow_add _ (4 + L), Nat.pow_add]
    ring
  omega

theorem way_of_fields {L B n : ℕ} (hindex : 2 ^ L * index + 2 * k < 2 ^ B)
    (hn : n = 2 ^ B * way + (2 ^ L * index + 2 * k)) : n / 2 ^ B = way := by
  rw [hn, Nat.mul_add_div (Nat.two_pow_pos B), Nat.div_eq_of_lt hindex, Nat.add_zero]

theorem index_of_fields {L B S n : ℕ} (hlow : 2 * k < 2 ^ L) (hS : L + S ≤ B) (hindex : index < 2 ^ S)
    (hn : n = 2 ^ B * way + (2 ^ L * index + 2 * k)) : n / 2 ^ L % 2 ^ S = index := by
  obtain ⟨T, rfl⟩ := Nat.exists_eq_add_of_le hS
  have hfactor : n = 2 ^ L * (2 ^ S * (2 ^ T * way) + index) + 2 * k := by
    rw [hn, Nat.pow_add _ (L + S), Nat.pow_add]
    ring
  rw [hfactor, Nat.mul_add_div (Nat.two_pow_pos L), Nat.div_eq_of_lt hlow, Nat.add_zero,
    Nat.mul_add_mod, Nat.mod_eq_of_lt hindex]

/-- What the loops of a round pass to the operation names the way and the set that they are at. -/
theorem decode (hfit : hw.Encodable) (hk : k < hw.loc) (hdata : hw.HasData k) (hway : way < hw.ways k)
    (hindex : index < hw.sets k) {r1 v : U32} (hr1 : r1 = hw.ccsidr (select k))
    (hv : v = select k ||| BitVec.ofNat 32 way <<< (((0x3ff : U32) &&& r1 >>> 3).clz) |||
      BitVec.ofNat 32 index <<< ((r1 &&& 7) + 4)) :
    Hw.levelOf v = k ∧ hw.slotOf v = (way, index) := by
  have hk8 : k < 8 := Nat.lt_trans hk (loc_lt hw)
  have hfields := hfit k hk hdata
  have hL : ((r1 &&& 7) + 4).toNat = hw.lineBits k := by
    rw [toNat_length, hr1]
    rfl
  have hways : ((0x3ff : U32) &&& r1 >>> 3).toNat + 1 = hw.ways k := by
    rw [toNat_mask _ _ 10 0x3ff rfl, hr1]
    rfl
  have hB : ((0x3ff : U32) &&& r1 >>> 3).clz.toNat = 32 - Nat.clog 2 (hw.ways k) := by
    have hclz := BitVec.clz_le (x := (0x3ff : U32) &&& r1 >>> 3)
    have hclz : ((0x3ff : U32) &&& r1 >>> 3).clz.toNat ≤ 32 := hclz
    rw [← hways, clog_succ]
    omega
  have hL4 : 4 ≤ hw.lineBits k := Nat.le_add_left 4 _
  generalize hLdef : hw.lineBits k = L at hL hL4 hfields
  generalize hAdef : Nat.clog 2 (hw.ways k) = A at hB hfields
  generalize hSdef : Nat.clog 2 (hw.sets k) = S at hfields
  have hindexS : index < 2 ^ S := by
    rw [← hSdef]
    exact lt_of_lt_of_le hindex (Nat.le_pow_clog (by decide) _)
  have hwayA : way + 1 ≤ 2 ^ A := by
    rw [← hAdef]
    exact le_trans hway (Nat.le_pow_clog (by decide) _)
  have hlow : 2 * k < 2 ^ L := lt_of_lt_of_le (by omega) (Nat.pow_le_pow_right (by decide) hL4)
  have hindexB : 2 ^ L * index + 2 * k < 2 ^ (32 - A) :=
    calc 2 ^ L * index + 2 * k < 2 ^ L * index + 2 ^ L := Nat.add_lt_add_left hlow _
      _ ≤ 2 ^ L * 2 ^ S := Nat.mul_le_mul_left _ hindexS
      _ = 2 ^ (L + S) := (Nat.pow_add 2 L S).symm
      _ ≤ 2 ^ (32 - A) := Nat.pow_le_pow_right (by decide) (by omega)
  have hwayB : 2 ^ (32 - A) * (way + 1) ≤ 2 ^ 32 :=
    calc 2 ^ (32 - A) * (way + 1) ≤ 2 ^ (32 - A) * 2 ^ A := Nat.mul_le_mul_left _ hwayA
      _ = 2 ^ (32 - A + A) := (Nat.pow_add 2 _ _).symm
      _ = 2 ^ 32 := by rw [Nat.sub_add_cancel (by omega)]
  have hn := toNat_operand hk8 hL hB hL4 hindexB hwayB
  rw [← hv] at hn
  have hlevel : Hw.levelOf v = k := level_of_fields hk8 hL4 (by omega) hn
  refine ⟨hlevel, ?_⟩
  rw [Hw.slotOf, hlevel, hLdef, hAdef, hSdef, way_of_fields hindexB hn,
    index_of_fields hlow (by omega) hindexS hn]

end Operands

/-! ## One level -/

/-- Either nest visits every pair of its rectangle. -/
theorem wp_nest (nest : Nest) {σ : Type} {sem G : Sem Op Op.Ret σ} {R : Rely Op σ}
    {body : ℕ → ℕ → M Unit} {a b : ℕ} (J : Set (ℕ × ℕ) → σ → Prop)
    (hbody : ∀ T way index, way ≤ a → index ≤ b → ∀ s, J T s →
      wp sem R G (body way index) (fun _ => J (T \ {(way, index)})) s)
    {s : σ} (hs : J Set.univ s) :
    wp sem R G (nest.sweep body a b) (fun _ => J {x | ¬ (x.1 ≤ a ∧ x.2 ≤ b)}) s := by
  cases nest with
  | ways => exact wp_sweep J hbody hs
  | indices =>
      have hend : {x : ℕ × ℕ | ¬ (x.1 ≤ a ∧ x.2 ≤ b)} =
          Set.preimage Prod.swap {x : ℕ × ℕ | ¬ (x.1 ≤ b ∧ x.2 ≤ a)} := by
        ext x
        exact not_congr and_comm
      rw [hend]
      refine wp_sweep (fun T => J (Set.preimage Prod.swap T)) ?_ hs
      intro T index way hindex hway t ht
      refine wp_mono (fun _ u hu => ?_) (hbody _ way index hway hindex t ht)
      have hset : Set.preimage Prod.swap (T \ {(index, way)}) =
          Set.preimage Prod.swap T \ {(way, index)} := by
        ext x
        simp only [Set.mem_preimage, Set.mem_sdiff, Set.mem_singleton_iff, Prod.ext_iff, Prod.fst_swap,
          Prod.snd_swap, and_comm]
      rw [hset]
      exact hu

section Level

variable {hw : Hw} {k : ℕ} {c : SetWayOp} {maxIndexMask : U32} {s : St A V} {R : Rely Op (St A V)}

/-- The sets that a round with a mask of that many bits counts through. -/
def Hw.counted (hw : Hw) (width k : ℕ) : ℕ := (hw.sets k - 1) % 2 ^ width + 1

theorem counted_le (hw : Hw) (width k : ℕ) : hw.counted width k ≤ hw.sets k :=
  Nat.succ_le_of_lt (lt_of_le_of_lt (Nat.mod_le _ _) (Nat.sub_lt (Nat.succ_pos _) Nat.one_pos))

theorem counted_eq_iff (hw : Hw) (width k : ℕ) :
    hw.counted width k = hw.sets k ↔ hw.sets k ≤ 2 ^ width := by
  have hpos : 0 < hw.sets k := Nat.succ_pos _
  have hmod := Nat.mod_lt (hw.sets k - 1) (Nat.two_pow_pos width)
  constructor
  · intro h
    unfold Hw.counted at h
    omega
  · intro h
    rw [Hw.counted, Nat.mod_eq_of_lt (by omega)]
    omega

/-- A round on a level that holds data: an assertion on the caches that is indexed by the slots still to
be named loses every slot that the round counts through. -/
theorem wp_flushLevel (nest : Nest) (width : ℕ) (hfit : hw.Encodable) (hk : k < hw.loc)
    (hdata : hw.HasData k) (hmask : maxIndexMask.toNat = 2 ^ width - 1) (hwidth : width ≤ 15)
    (J : Set (ℕ × ℕ) → (A → Chain (ℕ × ℕ) V) → Prop)
    (hR : ∀ T o t t', J T t.caches → R o t t' →
      t'.csselr = t.csselr ∧ t'.synced = t.synced ∧ J T t'.caches)
    (hop : ∀ T way index m m', way < hw.ways k → index < hw.counted width k → J T m →
      hw.Maintain c k (way, index) m m' → J (T \ {(way, index)}) m')
    (hs : J Set.univ s.caches) :
    wp (sem hw) R anyhow (flushLevel nest maxIndexMask c hw.clidr (select k))
      (fun _ t => J {x | ¬ (x.1 < hw.ways k ∧ x.2 < hw.counted width k)} t.caches) s := by
  have hk8 : k < 8 := Nat.lt_trans hk (loc_lt hw)
  rw [flushLevel, if_neg fun hlt => (lt_two_iff hk8).1 hlt hdata]
  refine wp_call (P := fun t => J Set.univ t.caches) (fun t t' ht hmove => (hR _ _ t t' ht hmove).2.2)
    hs ?_
  rintro t r t' ht rfl
  refine ⟨trivial, wp_call (P := fun t => t.csselr = select k ∧ J Set.univ t.caches) ?_ ⟨rfl, ht⟩ ?_⟩
  · rintro t t' ⟨hsel, ht⟩ hmove
    have hkeep := hR _ _ t t' ht hmove
    exact ⟨hkeep.1.trans hsel, hkeep.2.2⟩
  rintro t r t' ⟨hsel, ht⟩ rfl
  refine ⟨trivial, wp_call
    (P := fun t => t.csselr = select k ∧ t.synced = true ∧ J Set.univ t.caches) ?_ ⟨hsel, rfl, ht⟩ ?_⟩
  · rintro t t' ⟨hsel, hsynced, ht⟩ hmove
    have hkeep := hR _ _ t t' ht hmove
    exact ⟨hkeep.1.trans hsel, hkeep.2.1.trans hsynced, hkeep.2.2⟩
  rintro t r1 t' ⟨hsel, hsynced, ht⟩ ⟨hr1, rfl⟩
  have hr1 := hr1 hsynced
  rw [hsel] at hr1
  -- The maxima that the loops start from.
  have hways : ((0x3ff : U32) &&& r1 >>> 3).toNat + 1 = hw.ways k := by
    rw [toNat_mask _ _ 10 0x3ff rfl, hr1]
    rfl
  have hsets : (maxIndexMask &&& r1 >>> 13).toNat + 1 = hw.counted width k := by
    rw [toNat_mask _ _ width _ hmask, hr1, Hw.counted, Hw.sets, Nat.add_sub_cancel,
      Nat.mod_mod_of_dvd _ (pow_dvd_pow 2 hwidth)]
  refine ⟨trivial, ?_⟩
  rw [← hways, ← hsets]
  simp only [Nat.lt_succ_iff]
  refine wp_nest nest (fun T (t : St A V) => J T t.caches) ?_ ht
  intro T way index hway hindex u hu
  have hway : way < hw.ways k := by omega
  have hindex : index < hw.counted width k := by omega
  refine wp_call (P := fun t => J T t.caches) (fun t t' ht hmove => (hR _ _ t t' ht hmove).2.2) hu ?_
  rintro u _ u' hu ⟨-, -, hmaintain⟩
  rcases decode hfit hk hdata hway (lt_of_lt_of_le hindex (counted_le hw width k)) hr1 rfl with
    ⟨hlevel, hslot⟩
  rw [hlevel, hslot] at hmaintain
  refine ⟨trivial, wp_return (P := fun t => J (T \ {(way, index)}) t.caches)
    (fun t t' ht hmove => (hR _ _ t t' ht hmove).2.2) (hop T way index _ _ hway hindex hu hmaintain)
    fun _ ht => ht⟩

end Level

/-! ## All levels -/

section Levels

variable {hw : Hw} {k : ℕ} {c : SetWayOp} {s : St A V} {R : Rely Op (St A V)} {fills : Prop}

theorem wp_flushLevels {level : U32 → M Unit} (J : ℕ → (A → Chain (ℕ × ℕ) V) → Prop)
    (hR : ∀ o t t', J hw.loc t.caches → R o t t' → J hw.loc t'.caches)
    (hlevel : ∀ k, k < hw.loc → ∀ t : St A V, J k t.caches →
      wp (sem hw) R anyhow (level (select k)) (fun _ t => J (k + 1) t.caches) t)
    {n k : ℕ} (hn : k + n = hw.loc) (hs : J k s.caches) :
    wp (sem hw) R anyhow (flushLevels level n (select k)) (fun _ t => J hw.loc t.caches) s := by
  induction n generalizing k s with
  | zero =>
      obtain rfl : k = hw.loc := hn
      exact wp_return (P := fun t => J hw.loc t.caches) (fun t t' => hR none t t') hs fun _ ht => ht
  | succ n ih =>
      refine wp_seq (hlevel k (by omega) s hs) fun _ t ht => ?_
      rw [select_succ]
      exact ih (by omega) ht

/-- An operation on a slot makes no copy outside `T`, and none in the slot. -/
theorem maintain_within {q : Copy (ℕ × ℕ) V → Prop} {T : ℕ → ℕ × ℕ → Prop} {t : ℕ × ℕ}
    {m m' : A → Chain (ℕ × ℕ) V} (hdirty : ∀ x, x.dirty = true → q x)
    (hT : Chain.Move.Sinks hw.slots T) (hop : hw.Maintain c k t m m') {a : A}
    (hplaced : Chain.Placed hw.slots 0 (m a)) (hm : Chain.Within q T 0 (m a)) :
    Chain.Within q (fun i u => T i u ∧ ¬ (i = k ∧ u = t)) 0 (m' a) := by
  cases c with
  | dccisw =>
      have hkept : Chain.Within q T 0 (m' a) := by
        rcases (hop a).move False with heq | hmove
        · rw [heq]
          exact hm
        · exact hmove.within False.elim hdirty hT hplaced hm
      exact (hkept.and (hop a).empty).mono (fun _ hqx => ⟨hqx, trivial⟩) fun _ _ _ _ hplace => hplace
  | dcisw =>
      rw [hop a]
      exact hm.discard k t

theorem maintain_placed {t : ℕ × ℕ} {m m' : A → Chain (ℕ × ℕ) V} (hop : hw.Maintain c k t m m') {a : A}
    (hplaced : Chain.Placed hw.slots 0 (m a)) : Chain.Placed hw.slots 0 (m' a) :=
  (maintain_within (fun _ _ => trivial) (Chain.sinks_slots hw.slots) hop hplaced hplaced).mono
    (fun _ hqx => hqx) fun _ _ _ _ hplace => hplace.1

theorem maintain_depth {t : ℕ × ℕ} {m m' : A → Chain (ℕ × ℕ) V} (hop : hw.Maintain c k t m m') (a : A) :
    (m' a).depth = (m a).depth := by
  cases c with
  | dccisw =>
      rcases (hop a).move False with heq | hmove
      · rw [heq]
      · exact hmove.depth
  | dcisw =>
      rw [hop a]
      exact Chain.depth_discard k t 0 (m a)

/-- What the loop over the levels achieves is what the routine achieves. -/
theorem wp_rtCpuDcacheCleanFlush {P Q : (A → Chain (ℕ × ℕ) V) → Prop}
    (hP : ∀ o, Stable R o fun t => P t.caches) (hQ : ∀ o, Stable R o fun t => Q t.caches)
    (hlevels : ∀ t : St A V, P t.caches → wp (sem hw) R anyhow
      (flushLevels (flushLevel .indices FLD_MAX_IDX .dccisw hw.clidr) hw.loc 0) (fun _ t => Q t.caches) t)
    (hs : P s.caches) : wp (sem hw) R anyhow rtCpuDcacheCleanFlush (fun _ t => Q t.caches) s := by
  rw [rtCpuDcacheCleanFlush]
  refine wp_call (hP _) hs ?_
  rintro t _ t' ht rfl
  refine ⟨trivial, wp_call (hP _) ht ?_⟩
  rintro t r0 t' ht ⟨rfl, rfl⟩
  refine ⟨trivial, ?_⟩
  change wp _ _ _ (flushLevels _ (((hw.clidr &&& (0x7000000 : U32)) >>> 23).toNat / 2) 0 >>= fun _ => _) _ _
  rw [r3_cp15]
  refine wp_seq (hlevels _ ht) fun _ u hu => ?_
  refine wp_call (hQ _) hu ?_
  rintro u _ u' hu rfl
  refine ⟨trivial, wp_call (hQ _) hu ?_⟩
  rintro u _ u' hu rfl
  exact ⟨trivial, wp_return (hQ none) hu fun _ hv => hv⟩

/-- A sweep by operation `c` gets rid of the copies with `q`: `I` is what the caches and the operation keep
of the chain over an address, a fill makes no copy with `q`, and only such copies are written back. -/
structure Sweeps (hw : Hw) (fills : Prop) (c : SetWayOp) (I : A → Chain (ℕ × ℕ) V → Prop)
    (q : Copy (ℕ × ℕ) V → Prop) : Prop where
  placed : ∀ a d, I a d → Chain.Placed hw.slots 0 d
  depth : ∀ a d, I a d → d.depth = hw.loc
  move : ∀ a d d', I a d → Chain.Move hw.slots fills 0 d d' → I a d'
  op : ∀ k t m m', hw.Maintain c k t m m' → ∀ a, I a (m a) → I a (m' a)
  fill : fills → ∀ t w, ¬ q ⟨t, false, w⟩
  dirty : ∀ x, x.dirty = true → q x

namespace Sweeps

variable {I : A → Chain (ℕ × ℕ) V → Prop} {q : Copy (ℕ × ℕ) V → Prop} {T : ℕ → ℕ × ℕ → Prop}

/-- `I` holds of every chain, and the copies with `q` are in the places `T`. -/
def Left (I : A → Chain (ℕ × ℕ) V → Prop) (q : Copy (ℕ × ℕ) V → Prop) (T : ℕ → ℕ × ℕ → Prop)
    (m : A → Chain (ℕ × ℕ) V) : Prop :=
  ∀ a, I a (m a) ∧ Chain.Within q T 0 (m a)

theorem stir (h : Sweeps hw fills c I q) (hT : Chain.Move.Sinks hw.slots T)
    {m m' : A → Chain (ℕ × ℕ) V} (hmoves : Chain.Stir hw.slots fills m m') (hm : Left I q T m) :
    Left I q T m' := by
  refine hmoves.forall (I := fun a d => I a d ∧ Chain.Within q T 0 d) ?_ hm
  rintro a d d' ⟨hI, hwithin⟩ hd
  exact ⟨h.move a d d' hI hd, hd.within h.fill h.dirty hT (h.placed a d hI) hwithin⟩

theorem stable (h : Sweeps hw fills c I q) (hT : Chain.Move.Sinks hw.slots T) (o : Option Op) :
    Stable (stirring hw fills) o fun t : St A V => Left I q T t.caches :=
  fun _ _ ht hmoves => h.stir hT hmoves.2.2 ht

theorem sinks_from (hw : Hw) (k : ℕ) : Chain.Move.Sinks hw.slots fun i _ => k ≤ i :=
  fun _ _ hki _ _ hij _ => Nat.le_trans hki (Nat.le_of_lt hij)

theorem sinks_nowhere (hw : Hw) : Chain.Move.Sinks hw.slots fun _ _ => False :=
  fun _ _ hplace _ _ _ _ => hplace

/-- A round on a level with data leaves copies with `q` on lower levels only. -/
theorem wp_dataLevel (h : Sweeps hw fills c I q) (hfit : hw.Encodable) (nest : Nest) (width : ℕ)
    {maxIndexMask : U32} (hmask : maxIndexMask.toNat = 2 ^ width - 1) (hwidth : width ≤ 15) (hk : k < hw.loc)
    (hdata : hw.HasData k) (hsets : hw.sets k ≤ 2 ^ width)
    (hs : Left I q (fun i _ => k ≤ i) s.caches) :
    wp (sem hw) (stirring hw fills) anyhow (flushLevel nest maxIndexMask c hw.clidr (select k))
      (fun _ t => Left I q (fun i _ => k + 1 ≤ i) t.caches) s := by
  have hround := wp_flushLevel (c := c) (s := s) (R := stirring hw fills) nest width hfit hk hdata
    hmask hwidth (fun T => Left I q (Chain.Front k T)) ?_ ?_ ?_
  · refine wp_mono (fun _ u hu a => ⟨(hu a).1, ?_⟩) hround
    refine (hu a).2.front_done (h.placed a _ (hu a).1) ?_
    rintro x ⟨-, hway, hset⟩ hleft
    rw [(counted_eq_iff hw width k).2 hsets] at hleft
    exact hleft ⟨hway, hset⟩
  · exact fun T o u u' hu hmoves =>
      ⟨hmoves.1, hmoves.2.1, h.stir (Chain.sinks_front hw.slots k T) hmoves.2.2 hu⟩
  · intro T way index m m' _ _ hm hmaintain a
    have hwithin := maintain_within h.dirty (Chain.sinks_front hw.slots k T) hmaintain
      (h.placed a _ (hm a).1) (hm a).2
    exact ⟨h.op k _ m m' hmaintain a (hm a).1, hwithin.front_diff⟩
  · exact fun a => ⟨(hs a).1, (hs a).2.front_univ⟩

/-- A level that is skipped has no slot that could hold a copy. -/
theorem wp_skippedLevel (h : Sweeps hw fills c I q) (nest : Nest) (maxIndexMask : U32) (hk : k < hw.loc)
    (hdata : ¬ hw.HasData k) (hs : Left I q (fun i _ => k ≤ i) s.caches) :
    wp (sem hw) (stirring hw fills) anyhow (flushLevel nest maxIndexMask c hw.clidr (select k))
      (fun _ t => Left I q (fun i _ => k + 1 ≤ i) t.caches) s := by
  have hskip : flushLevel nest maxIndexMask c hw.clidr (select k) = pure () := by
    rw [flushLevel, if_pos ((lt_two_iff (Nat.lt_trans hk (loc_lt hw))).2 hdata)]
  rw [hskip]
  refine wp_return (h.stable (sinks_from hw (k + 1)) none) (fun a => ⟨(hs a).1, ?_⟩) fun _ hu => hu
  exact (hs a).2.front_univ.front_done (h.placed a _ (hs a).1) fun x hx => absurd hx.1 hdata

theorem wp_allLevels (h : Sweeps hw fills c I q) (hfit : hw.Encodable) (nest : Nest) (width : ℕ)
    {maxIndexMask : U32} (hmask : maxIndexMask.toNat = 2 ^ width - 1) (hwidth : width ≤ 15)
    (hsets : ∀ k, k < hw.loc → hw.HasData k → hw.sets k ≤ 2 ^ width) (hs : ∀ a, I a (s.caches a)) :
    wp (sem hw) (stirring hw fills) anyhow
      (flushLevels (flushLevel nest maxIndexMask c hw.clidr) hw.loc 0)
      (fun _ t => Left I q (fun _ _ => False) t.caches) s := by
  have hall : wp (sem hw) (stirring hw fills) anyhow
      (flushLevels (flushLevel nest maxIndexMask c hw.clidr) hw.loc (select 0))
      (fun _ t => Left I q (fun i _ => hw.loc ≤ i) t.caches) s := by
    refine wp_flushLevels (fun k => Left I q fun i _ => k ≤ i)
      (fun o => h.stable (sinks_from hw hw.loc) o) ?_ (Nat.zero_add hw.loc) ?_
    · intro k hk t ht
      by_cases hdata : hw.HasData k
      · exact h.wp_dataLevel hfit nest width hmask hwidth hk hdata (hsets k hk hdata) ht
      · exact h.wp_skippedLevel nest maxIndexMask hk hdata ht
    · exact fun a => ⟨hs a, Chain.Within.of_forall fun i _ _ => Nat.zero_le i⟩
  refine wp_mono (fun _ t ht a => ⟨(ht a).1, ?_⟩) hall
  have hleft := (ht a).2
  rw [← h.depth a _ (ht a).1] at hleft
  exact hleft.below_depth

theorem sets_le (hw : Hw) (k : ℕ) : hw.sets k ≤ 2 ^ 15 :=
  Nat.succ_le_of_lt (Nat.mod_lt _ (Nat.two_pow_pos 15))

/-- The sweep of `v7_flush_dcache_all` and `v7_invalidate_dcache_all`. -/
theorem wp_v7DcacheAll (h : Sweeps hw fills c I q) (hfit : hw.Encodable) (hs : ∀ a, I a (s.caches a)) :
    wp (sem hw) (stirring hw fills) anyhow (v7DcacheAll c)
      (fun _ t => t.csselr = 0 ∧ Left I q (fun _ _ => False) t.caches) s := by
  have hkept : ∀ o, Stable (stirring hw fills) o fun t : St A V => ∀ a, I a (t.caches a) := by
    intro o t t' ht hmoves
    exact hmoves.2.2.forall (fun a d d' => h.move a d d') ht
  have hdone : ∀ o, Stable (stirring hw fills) o fun t : St A V =>
      t.csselr = 0 ∧ Left I q (fun _ _ => False) t.caches := by
    rintro o t t' ⟨hsel, ht⟩ hmoves
    exact ⟨hmoves.1.trans hsel, h.stir (sinks_nowhere hw) hmoves.2.2 ht⟩
  rw [v7DcacheAll]
  refine wp_call (hkept _) hs ?_
  rintro t _ t' ht rfl
  refine ⟨trivial, wp_call (hkept _) ht ?_⟩
  rintro t r0 t' ht ⟨rfl, rfl⟩
  refine ⟨trivial, ?_⟩
  change wp _ _ _ (flushLevels _ ((hw.clidr >>> 23 &&& (7 : U32) <<< 1).toNat / 2) 0 >>= fun _ => _) _ _
  rw [r3_v7]
  refine wp_seq (h.wp_allLevels hfit .ways 15 rfl (le_refl 15)
    (fun k _ _ => sets_le hw k) ht) fun _ u hu => ?_
  refine wp_call (h.stable (sinks_nowhere hw) _) hu ?_
  rintro u _ u' hu rfl
  refine ⟨trivial, wp_call (hdone _) ⟨rfl, hu⟩ ?_⟩
  rintro u _ u' hu rfl
  refine ⟨trivial, wp_call (hdone _) hu ?_⟩
  rintro u _ u' hu rfl
  exact ⟨trivial, wp_return (hdone none) hu fun _ hv => hv⟩

theorem wp_cleanFlush (h : Sweeps hw fills .dccisw I q) (hfit : hw.Encodable)
    (hsets : ∀ k, k < hw.loc → hw.HasData k → hw.sets k ≤ 2 ^ 11) (hs : ∀ a, I a (s.caches a)) :
    wp (sem hw) (stirring hw fills) anyhow rtCpuDcacheCleanFlush
      (fun _ t => Left I q (fun _ _ => False) t.caches) s := by
  refine wp_rtCpuDcacheCleanFlush (P := fun m => ∀ a, I a (m a)) ?_ (h.stable (sinks_nowhere hw)) ?_ hs
  · exact fun o t t' ht hmoves => hmoves.2.2.forall (fun a d d' => h.move a d d') ht
  · exact fun t ht => h.wp_allLevels hfit .indices 11 rfl (by decide) hsets ht

end Sweeps

end Levels

/-! ## What the routines achieve -/

section Results

variable {hw : Hw} {fills : Prop}

/-- The caches hold slots that exist and clean copies that are worth what is below them. -/
structure Sound (hw : Hw) (d : Chain (ℕ × ℕ) V) : Prop where
  placed : Chain.Placed hw.slots 0 d
  depth : d.depth = hw.loc
  coherent : d.Coherent

/-- Memory holds what the processor saw and sees, and no cache will ever write to it. -/
def Cleaned (s s' : St A V) : Prop :=
  ∀ a, (s'.caches a).Clean ∧ (s'.caches a).mem = (s.caches a).view ∧
    (s'.caches a).view = (s.caches a).view

theorem Sound.move {d d' : Chain (ℕ × ℕ) V} (hd : Sound hw d) (h : Chain.Move hw.slots fills 0 d d') :
    Sound hw d' where
  placed := h.placed hd.placed
  depth := h.depth.trans hd.depth
  coherent := h.coherent hd.coherent

theorem sweeps_flush (hw : Hw) (fills : Prop) (v : A → V) :
    Sweeps hw fills .dccisw (fun a d => Sound hw d ∧ d.view = v a) fun x => x.dirty = true where
  placed _ _ hd := hd.1.placed
  depth _ _ hd := hd.1.depth
  move _ _ _ hd h := ⟨hd.1.move h, (h.view hd.1.coherent).trans hd.2⟩
  op _ _ _ _ hop a hd := by
    rcases (hop a).move False with heq | hmove
    · rw [heq]
      exact hd
    · exact ⟨hd.1.move hmove, (hmove.view hd.1.coherent).trans hd.2⟩
  fill _ _ _ := nofun
  dirty _ hx := hx

theorem sweeps_invalidate (hw : Hw) (W : A → Set V) :
    Sweeps hw False .dcisw
      (fun a d => Chain.Placed hw.slots 0 d ∧ d.depth = hw.loc ∧ d.Values (W a)) fun _ => True where
  placed _ _ hd := hd.1
  depth _ _ hd := hd.2.1
  move _ _ _ hd h := ⟨h.placed hd.1, h.depth.trans hd.2.1, h.values hd.2.2⟩
  op k t _ _ hop a hd := by
    refine ⟨maintain_placed hop hd.1, (maintain_depth hop a).trans hd.2.1, ?_⟩
    rw [hop a]
    exact Chain.values_discard k t 0 hd.2.2
  fill hfills := hfills.elim
  dirty _ _ := trivial

theorem cleaned_of_left {s t : St A V}
    (h : Sweeps.Left (fun a d => Sound hw d ∧ d.view = (s.caches a).view) (fun x => x.dirty = true)
      (fun _ _ => False) t.caches) : Cleaned s t :=
  fun a => ⟨(h a).2, ((h a).1.1.coherent.view_eq_mem (h a).2).symm.trans (h a).1.2, (h a).1.2⟩

/-- Every access has an outcome. -/
theorem sem_total (hw : Hw) (o : Op) (s : St A V) : ∃ r s', sem hw o s r s' := by
  cases o with
  | dmb => exact ⟨(), s, rfl⟩
  | dsb => exact ⟨(), s, rfl⟩
  | isb => exact ⟨(), _, rfl⟩
  | readClidr => exact ⟨_, s, rfl, rfl⟩
  | writeCsselr v => exact ⟨(), _, rfl⟩
  | readCcsidr => exact ⟨_, s, fun _ => rfl, rfl⟩
  | setWay c v =>
      cases c with
      | dccisw =>
          choose m hm using fun a => Chain.Flush.exists_flush hw.slots (Hw.levelOf v) (hw.slotOf v) 0
            (s.caches a)
          exact ⟨(), ⟨s.csselr, s.synced, m⟩, rfl, rfl, hm⟩
      | dcisw =>
          let m := fun a => (s.caches a).discard (Hw.levelOf v) (hw.slotOf v) 0
          exact ⟨(), ⟨s.csselr, s.synced, m⟩, rfl, rfl, fun _ => rfl⟩

/-- A run of a routine among the caches' own moves, to its end. -/
def Ends (hw : Hw) (fills : Prop) (p : M Unit) (s s' : St A V) : Prop :=
  Relation.ReflTransGen (Step (sem hw) (stirring hw fills)) (p, s) (.ret (), s')

theorem Ends.post {p : M Unit} {s s' : St A V} {Q : Unit → St A V → Prop} (h : Ends hw fills p s s')
    (hwp : wp (sem hw) (stirring hw fills) anyhow p Q s) : Q () s' :=
  wp_ret (wp_steps hwp h)

/-! ### The mask of `rt_cpu_dcache_clean_flush` -/

/-- A copy that no operation names stays where it is. -/
theorem exists_ends_stuck (fills : Prop) (hfit : hw.Encodable) {d : Chain (ℕ × ℕ) V}
    (hd : ∀ k way index, k < hw.loc → hw.HasData k → way < hw.ways k → index < hw.counted 11 k →
      Chain.Within (fun _ => True) (fun i u => ¬ (i = k ∧ u = (way, index))) 0 d) (s : St A V)
    (hs : ∀ a, s.caches a = d) :
    ∃ s', Ends hw fills rtCpuDcacheCleanFlush s s' ∧ ∀ a, s'.caches a = d := by
  have hall : wp (sem hw) still anyhow rtCpuDcacheCleanFlush (fun _ t => ∀ a, t.caches a = d) s := by
    refine wp_rtCpuDcacheCleanFlush (P := fun m => ∀ a, m a = d) (Q := fun m => ∀ a, m a = d)
      (fun _ => stable_still) (fun _ => stable_still) ?_ hs
    intro t ht
    refine wp_flushLevels (fun _ m => ∀ a, m a = d) (fun _ _ _ _ => False.elim) ?_ (k := 0)
      (Nat.zero_add _) ht
    intro k hk u hu
    by_cases hdata : hw.HasData k
    · refine wp_flushLevel .indices 11 hfit hk hdata rfl (by decide) (fun _ m => ∀ a, m a = d)
        (fun _ _ _ _ _ => False.elim) ?_ hu
      intro T way index m m' hway hindex hm hop a
      have hflush := hop a
      rw [hm a] at hflush
      exact hflush.eq_of_empty (hd k way index hk hdata hway hindex)
    · rw [flushLevel, if_pos ((lt_two_iff (Nat.lt_trans hk (loc_lt hw))).2 hdata)]
      exact wp_still_ret_iff.2 hu
  rcases wp_exists_runs (sem_total hw) hall with ⟨_, s', hrun, hs'⟩
  exact ⟨s', hrun.steps, hs'⟩

/-- A set beyond the mask is never named. -/
theorem not_cleaned_of_large [Nonempty A] [Nonempty V] (fills : Prop) (hfit : hw.Encodable) {k : ℕ}
    (hk : k < hw.loc) (hdata : hw.HasData k) (hlarge : 2 ^ 11 < hw.sets k) :
    ∃ s s' : St A V, (∀ a, Sound hw (s.caches a)) ∧ Ends hw fills rtCpuDcacheCleanFlush s s' ∧
      ¬ Cleaned s s' := by
  obtain ⟨a⟩ := ‹Nonempty A›
  obtain ⟨v⟩ := ‹Nonempty V›
  let x : Copy (ℕ × ℕ) V := ⟨(0, 2 ^ 11), true, v⟩
  let d := Chain.lone x v (hw.loc - (k + 1)) k
  have hsound : Sound hw d := by
    refine ⟨Chain.within_lone_iff.2 fun _ => ?_, ?_, Chain.coherent_lone rfl⟩
    · rw [Nat.zero_add]
      exact ⟨hdata, Nat.succ_pos _, hlarge⟩
    · rw [Chain.depth_lone]
      omega
  have hunnamed : ∀ i way index, i < hw.loc → hw.HasData i → way < hw.ways i →
      index < hw.counted 11 i →
        Chain.Within (fun _ => True) (fun j u => ¬ (j = i ∧ u = (way, index))) 0 d := by
    intro i way index _ _ _ hindex
    refine Chain.within_lone_iff.2 fun _ hplace => ?_
    have hset : 2 ^ 11 = index := congrArg Prod.snd hplace.2
    have hcounted : hw.counted 11 i ≤ 2 ^ 11 := Nat.succ_le_of_lt (Nat.mod_lt _ (Nat.two_pow_pos 11))
    omega
  rcases exists_ends_stuck fills hfit hunnamed (⟨0, false, fun _ => d⟩ : St A V) fun _ => rfl
    with ⟨s', hends, hs'⟩
  refine ⟨⟨0, false, fun _ => d⟩, s', fun _ => hsound, hends, fun hcleaned => ?_⟩
  have hclean := (hcleaned a).1
  rw [hs' a] at hclean
  exact Chain.within_lone_iff.1 hclean rfl

/-- The two flushes, among whatever moves of the caches.  `v7_flush_dcache_all` leaves in memory, at
every address, what the processor has been seeing there, and no copy that could still be written over it;
`rt_cpu_dcache_clean_flush` is sure to do so exactly when no level above the point of coherence has more
than 2048 sets. -/
theorem flush_cleans [Nonempty A] [Nonempty V] (fills : Prop) (hfit : hw.Encodable) :
    (∀ s s' : St A V, (∀ a, Sound hw (s.caches a)) → Ends hw fills v7FlushDcacheAll s s' →
      Cleaned s s' ∧ s'.csselr = 0) ∧
    ((∀ s s' : St A V, (∀ a, Sound hw (s.caches a)) → Ends hw fills rtCpuDcacheCleanFlush s s' →
        Cleaned s s') ↔
      ∀ k, k < hw.loc → hw.HasData k → hw.sets k ≤ 2048) := by
  refine ⟨fun s s' hs hends => ?_, fun h k hk hdata => ?_, fun hsets s s' hs hends => ?_⟩
  · have hpost := hends.post ((sweeps_flush hw fills fun a => (s.caches a).view).wp_v7DcacheAll hfit
      fun a => ⟨hs a, rfl⟩)
    exact ⟨cleaned_of_left hpost.2, hpost.1⟩
  · by_contra hlarge
    rcases not_cleaned_of_large (A := A) (V := V) fills hfit hk hdata (not_le.1 hlarge) with
      ⟨s, s', hs, hends, hnot⟩
    exact hnot (h s s' hs hends)
  · exact cleaned_of_left (hends.post ((sweeps_flush hw fills fun a => (s.caches a).view).wp_cleanFlush
      hfit hsets fun a => ⟨hs a, rfl⟩))

theorem exists_ends (hw : Hw) (fills : Prop) (p : M Unit) (s : St A V) : ∃ s', Ends hw fills p s s' := by
  rcases exists_runs (sem_total hw) p s with ⟨_, s', hrun⟩
  exact ⟨s', hrun.steps⟩

/-- Separate first-level caches of four ways and 128 sets, and a unified second level of eight ways and
256 sets. -/
def twoLevels : Hw where
  clidr := 0x0a200023
  ccsidr v := if v = 0 then 0x700fe01a else 0x701fe03a

theorem encodable_twoLevels : twoLevels.Encodable := by
  have hall : ∀ k, k < 2 → twoLevels.lineBits k + Nat.clog 2 (twoLevels.sets k) +
      Nat.clog 2 (twoLevels.ways k) ≤ 32 := by decide
  exact fun k hk _ => hall k hk

/-- Memory holds 3, the first level a newer 5. -/
def newer : St Unit ℕ where
  csselr := 2
  synced := true
  caches _ := .level (some ⟨(3, 127), true, 5⟩) (.level none (.memory 3))

theorem placed_newer (a : Unit) : Chain.Placed twoLevels.slots 0 (newer.caches a) := by
  refine ⟨?_, nofun, trivial⟩
  rintro x ⟨⟩ -
  exact ⟨by decide, by decide, by decide⟩

theorem sound_newer (a : Unit) : Sound twoLevels (newer.caches a) where
  placed := placed_newer a
  depth := rfl
  coherent := by
    refine ⟨?_, nofun, trivial⟩
    rintro x ⟨⟩ hx
    cases hx

/-- Both flushes write the newer value back. -/
theorem flush_cleans_newer :
    (∃ s', Ends twoLevels True v7FlushDcacheAll newer s' ∧ (s'.caches ()).mem = 5) ∧
      ∃ s', Ends twoLevels True rtCpuDcacheCleanFlush newer s' ∧ (s'.caches ()).mem = 5 := by
  rcases exists_ends twoLevels True v7FlushDcacheAll newer with ⟨s', hends⟩
  rcases exists_ends twoLevels True rtCpuDcacheCleanFlush newer with ⟨s'', hends'⟩
  have hflush := flush_cleans (A := Unit) (V := ℕ) True encodable_twoLevels
  have hsets : ∀ k, k < 2 → twoLevels.sets k ≤ 2048 := by decide
  refine ⟨⟨s', hends, ?_⟩, s'', hends', ?_⟩
  · exact ((hflush.1 newer s' sound_newer hends).1 ()).2.1
  · exact ((hflush.2.2 fun k hk _ => hsets k hk) newer s'' sound_newer hends' ()).2.1

/-- `v7_invalidate_dcache_all` while the caches allocate nothing: afterwards no level holds a copy, so
that the processor reads memory, and nothing has got there but what a dirty copy held before. -/
theorem v7_invalidate_empties (hfit : hw.Encodable) {s s' : St A V}
    (hs : ∀ a, Chain.Placed hw.slots 0 (s.caches a) ∧ (s.caches a).depth = hw.loc)
    (hends : Ends hw False v7InvalidateDcacheAll s s') :
    s'.csselr = 0 ∧ (∀ a, (s'.caches a).Empty ∧ (s'.caches a).view = (s'.caches a).mem) ∧
      ∀ W : A → Set V, (∀ a, (s.caches a).Values (W a)) → ∀ a, (s'.caches a).mem ∈ W a := by
  have hpost : ∀ W : A → Set V, (∀ a, (s.caches a).Values (W a)) → _ := fun W hW =>
    hends.post ((sweeps_invalidate hw W).wp_v7DcacheAll hfit fun a => ⟨(hs a).1, (hs a).2, hW a⟩)
  have hall := hpost (fun _ => Set.univ) fun a => Chain.values_univ _
  refine ⟨hall.1, fun a => ⟨(hall.2 a).2, Chain.view_eq_mem_of_empty (hall.2 a).2⟩, fun W hW a => ?_⟩
  exact ((hpost W hW).2 a).1.2.2.mem

/-- The newer value is lost, or written back before the invalidation reaches it. -/
theorem v7_invalidate_empties_newer :
    ∃ s', Ends twoLevels False v7InvalidateDcacheAll newer s' ∧ (s'.caches ()).Empty ∧
      (s'.caches ()).mem ∈ ({3, 5} : Set ℕ) := by
  rcases exists_ends twoLevels False v7InvalidateDcacheAll newer with ⟨s', hends⟩
  have hempty := v7_invalidate_empties encodable_twoLevels (fun a => ⟨placed_newer a, rfl⟩) hends
  refine ⟨s', hends, (hempty.2.1 ()).1, hempty.2.2 (fun _ => {3, 5}) (fun _ => ⟨?_, nofun, .inl rfl⟩) ()⟩
  rintro x ⟨⟩ -
  exact .inr rfl

end Results

end SetWay

end BspV3s
