import BspV3s.Emac.ReceiveCall
import BspV3s.Emac.TransmitCall

/-!
# Init — the descriptor tables

Both initialisation routines fill a chain of 32 descriptors one after the other, link its end to
its start, and flush it.  The first part of this module follows that for any chain; the other two
derive the rings that `rx_descs_init` and `tx_descs_init` leave behind.

While the receive chain is filled, somebody may still set own bits in it (`Change`).
-/

namespace BspV3s

namespace Emac

/-! ## A chain of descriptors -/

section Chain

variable {S : U32 → Prop} {c c' : Cell DmaDesc} {P : DmaDesc → Prop}

/-- What happens to a descriptor that is being filled in: besides drifting, its status word may be
set, in memory, to a value in `S`. -/
inductive Change (S : U32 → Prop) : Cell DmaDesc → Cell DmaDesc → Prop
  | drift {c c' : Cell DmaDesc} : c.Drift c' → Change S c c'
  | status (d : DmaDesc) (v : U32) : S v →
      Change S ⟨d, d, false⟩ ⟨{ d with status := v }, { d with status := v }, false⟩

/-- A property of descriptors that survives such a change. -/
def Closed (S : U32 → Prop) (P : DmaDesc → Prop) : Prop :=
  ∀ d v, P d → S v → P { d with status := v }

theorem Change.settled (hc : Change S c c') (hP : Closed S P) (h : c.Settled ∧ P c.view) :
    c'.Settled ∧ P c'.view := by
  cases hc with
  | drift hd =>
      rcases hd.of_settled h.1 with ⟨hsettled, hview, -⟩
      exact ⟨hsettled, hview ▸ h.2⟩
  | status d v hv => exact ⟨fun _ => rfl, hP d v h.2 hv⟩

theorem Change.clean (hc : Change S c c') (h : c.dirty = false) : c'.dirty = false := by
  cases hc with
  | drift hd => exact (hd.of_clean h).1
  | status d v _ => rfl

/-- The first `n` descriptors of the chain at `a` are filled in as `M` says. -/
def Table (a n : ℕ) (M : ℕ → DmaDesc → Prop) (w : World) : Prop :=
  ∀ i < n, (w.descCell (a + 64 * i)).Settled ∧ M i (w.descCell (a + 64 * i)).view

/-- Besides, descriptor `n` satisfies `Q` so far. -/
def Entry (a n : ℕ) (M : ℕ → DmaDesc → Prop) (Q : DmaDesc → Prop) (w : World) : Prop :=
  Table a n M w ∧ (w.descCell (a + 64 * n)).Settled ∧ Q (w.descCell (a + 64 * n)).view

/-- Besides, the lines of the first `j` descriptors have been written back. -/
def Flushed (a : ℕ) (M : ℕ → DmaDesc → Prop) (j : ℕ) (w : World) : Prop :=
  Table a 32 M w ∧ ∀ i < j, (w.descCell (a + 64 * i)).dirty = false

variable {a n : ℕ} {M : ℕ → DmaDesc → Prop} {Q T : DmaDesc → Prop} {w w' : World}
  {R : Prog.Rely Op World} {G : Prog.Sem Op Op.Ret World} {canFail : Prop} {J : World → Prop}

theorem table_store (ha : a % 64 = 0) {k : ℕ} {v : U32} {g : DmaDesc → DmaDesc} (hk : k < 64)
    (hg : ∀ mem : Mem, descAt (a + 64 * n) (mem.write32 (a + 64 * n + k) v) =
      g (descAt (a + 64 * n) mem))
    (hw : Table a n M w) (hQ : T (g (w.descCell (a + 64 * n)).view)) :
    Entry a n M T (w.write ((a + 64 * n + k) / 64) fun mem => mem.write32 (a + 64 * n + k) v) := by
  have hline : (a + 64 * n + k) / 64 = (a + 64 * n) / 64 := by omega
  rw [hline]
  refine ⟨?_, ?_⟩
  · intro i hi
    rw [descCell_write_of_ne (by omega) (by omega)]
    exact hw i hi
  · rw [descCell_write_self (by omega)]
    refine ⟨Cell.settled_stored _ _, ?_⟩
    show T (descAt (a + 64 * n) (w.m.view.write32 (a + 64 * n + k) v))
    rw [hg]
    exact hQ

/-- The interference changes the chain at `a` as `Change S` allows. -/
def Changes (S : U32 → Prop) (a : ℕ) (R : Prog.Rely Op World) : Prop :=
  ∀ o t t', R o t t' → ∀ i < 32, Change S (t.descCell (a + 64 * i)) (t'.descCell (a + 64 * i))

theorem steady_table (hR : Changes S a R) (hM : ∀ i, Closed S (M i)) (hn : n ≤ 32) :
    Steady R (Table a n M) :=
  fun o t t' ht hR' i hi => (hR o t t' hR' i (by omega)).settled (hM i) (ht i hi)

theorem steady_entry (hR : Changes S a R) (hM : ∀ i, Closed S (M i)) (hQ : Closed S Q)
    (hn : n < 32) : Steady R (Entry a n M Q) :=
  fun o t t' ht hR' =>
    ⟨steady_table hR hM (by omega) o t t' ht.1 hR', (hR o t t' hR' n hn).settled hQ ht.2⟩

theorem steady_flushed (hR : Changes S a R) (hM : ∀ i, Closed S (M i)) {j : ℕ} (hj : j ≤ 32) :
    Steady R (Flushed a M j) :=
  fun o t t' ht hR' =>
    ⟨steady_table hR hM le_rfl o t t' ht.1 hR',
      fun i hi => (hR o t t' hR' i (by omega)).clean (ht.2 i hi)⟩

/-- An assertion about something else than the chain at `a`: it survives interference, and the
routine's own stores to the chain. -/
structure Aside (R : Prog.Rely Op World) (a : ℕ) (J : World → Prop) : Prop where
  steady : Steady R J
  store : ∀ t i k v, i < 32 → k < 64 → J t →
    J (t.write ((a + 64 * i + k) / 64) fun mem => mem.write32 (a + 64 * i + k) v)

/-- The accesses with which a chain is filled in. -/
structure FillOk (a : ℕ) (G : Prog.Sem Op Op.Ret World) : Prop where
  load : ∀ x t r t', G (.load x) t r t'
  store : ∀ i k v, i < 32 → k < 64 → ∀ t r t', G (.store (a + 64 * i + k) v) t r t'
  clean : ∀ x t r t', G (.dccimvac x) t r t'

variable {α : Type} {Post : α → World → Prop}

/-- The store of a field of descriptor `n`. -/
theorem wp_field {P : World → Prop} {f : Unit → EmacM α} {k : ℕ} {v : U32} {g : DmaDesc → DmaDesc}
    (ha : a % 64 = 0) (hJ : Aside R a J) (hok : FillOk a G) (hn : n < 32) (hk : k < 64)
    (hg : ∀ mem : Mem, descAt (a + 64 * n) (mem.write32 (a + 64 * n + k) v) =
      g (descAt (a + 64 * n) mem))
    (hP : Steady R P) (hw : P w ∧ J w)
    (hstep : ∀ t, P t → Table a n M t ∧ T (g (t.descCell (a + 64 * n)).view))
    (h : ∀ t, Entry a n M T t ∧ J t → Prog.wp (access cached canFail) R G (f ()) Post t) :
    Prog.wp (access cached canFail) R G (store (a + 64 * n + k) v >>= f) Post w := by
  refine wp_act (fun t => t.write ((a + 64 * n + k) / 64)
      fun mem => mem.write32 (a + 64 * n + k) v)
    (fun t r t' hacc => hacc) (hP.and hJ.steady _) hw (fun t r _ => hok.store n k v hn hk t r _) ?_
  intro t _ ht
  rcases hstep t ht.1 with ⟨htable, hQ⟩
  exact h _ ⟨table_store ha hk hg htable hQ, hJ.store t n k v hn hk ht.2⟩

/-- `st |= b` in descriptor `n`. -/
theorem wp_fieldBit {f : Unit → EmacM α} {b : U32} (ha : a % 64 = 0) (hR : Changes S a R)
    (hnoisy : Noisy R) (hM : ∀ i, Closed S (M i)) (hQ : Closed S Q) (hJ : Aside R a J)
    (hok : FillOk a G) (hn : n < 32) (hst : ∀ d v, Q d → Q { d with st := v })
    (hw : Entry a n M Q w ∧ J w)
    (h : ∀ t, Entry a n M Q t ∧ J t → Prog.wp (access cached canFail) R G (f ()) Post t) :
    Prog.wp (access cached canFail) R G (setBit (a + 64 * n + 4) b >>= f) Post w := by
  rw [setBit, bind_assoc]
  refine wp_load ((steady_entry hR hM hQ hn).and hJ.steady) hnoisy hw
    (fun t t' _ => hok.load _ _ _ _) ?_
  intro t ht
  exact wp_field (g := fun d => { d with st := _ }) ha hJ hok hn (by omega)
    (fun mem => descAt_write_st mem _ _) (steady_entry hR hM hQ hn) ht
    (fun t ht => ⟨ht.1, hst _ _ ht.2.2⟩) h

/-- The loop over the chain, given its body. -/
theorem wp_forIdx {body : ℕ → EmacM Unit} (hR : Changes S a R) (hM : ∀ i, Closed S (M i))
    (hJ : Aside R a J)
    (hbody : ∀ n w, n < 32 → Table a n M w ∧ J w →
      Prog.wp (access cached canFail) R G (body n) (fun _ t => Table a (n + 1) M t ∧ J t) w)
    (n : ℕ) (hn : n ≤ 32) (hw : J w) :
    Prog.wp (access cached canFail) R G (forIdx body n) (fun _ t => Table a n M t ∧ J t) w := by
  induction n with
  | zero =>
      refine wp_pure ((steady_table (n := 0) hR hM (by omega)).and hJ.steady) ⟨?_, hw⟩
        fun t ht => ht
      intro i hi
      omega
  | succ n ih =>
      exact Prog.wp_seq (ih (by omega)) fun _ t ht => hbody n t hn ht

theorem Flushed.of_eq {j : ℕ} (hf : Flushed a M j w) (hm : w'.m = w.m) : Flushed a M j w' := by
  have hcell : ∀ d, w'.descCell d = w.descCell d := fun d => by rw [World.descCell, hm, World.descCell]
  refine ⟨fun i hi => ?_, fun i hi => ?_⟩
  · rw [hcell]
    exact hf.1 i hi
  · rw [hcell]
    exact hf.2 i hi

theorem Entry.table (he : Entry a n M Q w) (hQ : ∀ d, Q d → M n d) : Table a (n + 1) M w := by
  intro i hi
  by_cases hin : i = n
  · subst hin
    exact ⟨he.2.1, hQ _ he.2.2⟩
  · exact he.1 i (by omega)

/-- The flush of the chain. -/
theorem wp_flushChain (hR : Changes S a R) (hnoisy : Noisy R)
    (hM : ∀ i, Closed S (M i)) (hJ : Aside R a J) (hok : FillOk a G) (k j : ℕ) (hk : j + k ≤ 32)
    (hw : Flushed a M j w ∧ J w) :
    Prog.wp (access cached canFail) R G (eachLine dccimvac (a + 64 * j) k)
      (fun _ t => Flushed a M (j + k) t ∧ J t) w := by
  induction k generalizing j w with
  | zero => exact wp_pure ((steady_flushed hR hM (by omega)).and hJ.steady) hw fun t ht => ht
  | succ k ih =>
      refine wp_act (fun t => t.evict ((a + 64 * j) / 64)) (fun t r t' hacc => hacc)
        ((steady_flushed hR hM (by omega)).and hJ.steady _) hw (fun t r _ => hok.clean _ _ _ _) ?_
      intro t r ht
      have hkeep := (steady_flushed hR hM (by omega)).and hJ.steady none _ _ ht
        (hnoisy _ _ _ (t.noise_evict ((a + 64 * j) / 64)))
      have hnext : Flushed a M (j + 1) (t.evict ((a + 64 * j) / 64)) := by
        refine ⟨hkeep.1.1, ?_⟩
        intro i hi
        by_cases hij : i = j
        · subst hij
          exact (CMem.dirty_evict _ _ _).trans (if_pos rfl)
        · exact hkeep.1.2 i (by omega)
      have hrest := ih (j + 1) (by omega) ⟨hnext, hkeep.2⟩
      rw [show j + 1 + k = j + (k + 1) by omega] at hrest
      exact hrest

end Chain

/-! ## `rx_descs_init` -/

section Rx

variable {D : Indev} {w w' : World} {canFail : Prop} {i : ℕ} {d : DmaDesc}

/-- What may happen while the receive chain is filled: a call of `_emac_rx` that is still under way
may set own bits and the ring index. -/
inductive RxInitEnv (D : Indev) : World → World → Prop
  | noise {w w' : World} : World.Noise w w' → RxInitEnv D w w'
  | other {w w' : World} : RxSame D w w' → RxInitEnv D w w'
  | setOwn {w : World} (i : ℕ) (v : U32) : w.m.Uncached → i < 32 → own v = true →
      RxInitEnv D w { w with m := w.m.setMem (w.m.mem.write32 (D.rxChain i) v) }
  | setCur {w : World} (v : U32) : RxInitEnv D w { w with rxCur := v }

def rxInitRely (D : Indev) : Prog.Rely Op World :=
  fun _ => RxInitEnv D

/-- The initialisation of the receive chain leaves the indices alone, and of the registers writes
the ring's address only. -/
def rxInitGuarantee : Prog.Sem Op Op.Ret World
  | .setRxCurrdescnum _, _, _, _ => False
  | .setTxCurrdescnum _, _, _, _ => False
  | .writel r _, _, _, _ => r = .rxDmaDesc
  | _, _, _, _ => True

theorem noisy_rxInitRely : Noisy (rxInitRely D) :=
  fun _ _ _ hn => .noise hn

theorem fillOk_rxInit (a : ℕ) : FillOk a rxInitGuarantee :=
  ⟨fun _ _ _ _ => trivial, fun _ _ _ _ _ _ _ _ => trivial, fun _ _ _ _ => trivial⟩

theorem changes_rxInitRely : Changes (fun v => own v = true) D.base (rxInitRely D) := by
  intro o t t' ht i hi
  have halign : (D.base + 64 * i) % 64 = 0 := Indev.rxChain_aligned
  cases ht with
  | noise hn => exact .drift (hn.descCell halign)
  | other hs =>
      have hcell : t'.descCell (D.base + 64 * i) = t.descCell (D.base + 64 * i) := hs.rxCell hi
      rw [hcell]
      exact .drift (.same _)
  | setCur v => exact .drift (.same _)
  -- Only a descriptor that is handed over changes, and the others lie in other lines.
  | setOwn j v hun hj hv =>
      by_cases hij : i = j
      · subst hij
        have hbefore : t.descCell (D.base + 64 * i) =
            ⟨descAt (D.rxChain i) t.m.mem, descAt (D.rxChain i) t.m.mem, false⟩ := by
          simp only [World.descCell, CMem.cell, hun.view, hun.dirty]
          rfl
        have hafter : World.descCell { t with m := t.m.setMem (t.m.mem.write32 (D.rxChain i) v) }
            (D.base + 64 * i) =
            ⟨{ descAt (D.rxChain i) t.m.mem with status := v },
              { descAt (D.rxChain i) t.m.mem with status := v }, false⟩ := by
          have hview := (hun.setMem (t.m.mem.write32 (D.rxChain i) v)).view
          have hmem : descAt (D.base + 64 * i) (t.m.mem.write32 (D.rxChain i) v) =
              { descAt (D.rxChain i) t.m.mem with status := v } := descAt_write_status _ _ _
          simp only [World.descCell, CMem.cell, hview, CMem.dirty_setMem, hun.dirty]
          exact congrArg₂ (fun x y => Cell.mk x y false) hmem hmem
        rw [hbefore, hafter]
        exact .status _ v hv
      · have hcell : World.descCell { t with m := t.m.setMem (t.m.mem.write32 (D.rxChain j) v) }
            (D.base + 64 * i) = t.descCell (D.base + 64 * i) := by
          apply CMem.cell_setMem_other (local_descAt halign)
          intro x hx
          rw [mem_lineSet] at hx
          apply Mem.write32_outside
          have := D.aligned
          simp only [Indev.rxChain]
          omega
        rw [hcell]
        exact .drift (.same _)

/-- A descriptor as the loop of `rx_descs_init` leaves it. -/
def RxMade (D : Indev) (i : ℕ) (d : DmaDesc) : Prop :=
  (d.bufAddr = BitVec.ofNat 32 (D.rxBuf i) ∧ d.next = BitVec.ofNat 32 (D.rxChain (i + 1))) ∧
    own d.status = true

/-- A descriptor as `rx_descs_init` leaves it. -/
def RxReady (D : Indev) (i : ℕ) (d : DmaDesc) : Prop :=
  RxLinked D i d ∧ own d.status = true

theorem closed_rxMade (i : ℕ) : Closed (fun v => own v = true) (RxMade D i) :=
  fun _ _ hd hv => ⟨hd.1, hv⟩

theorem closed_rxReady (i : ℕ) : Closed (fun v => own v = true) (RxReady D i) :=
  fun _ _ hd hv => ⟨hd.1, hv⟩

/-- The lines of the first `n` bytes of the receive buffers are clean. -/
def RxBufClean (D : Indev) (n : ℕ) (w : World) : Prop :=
  ∀ x, D.rxBuf 0 ≤ x → x < D.rxBuf 0 + n → w.m.dirty (x / 64) = false

theorem steady_rxBufClean {n : ℕ} (hn : n ≤ 65536) : Steady (rxInitRely D) (RxBufClean D n) := by
  intro o t t' ht he x hlo hhi
  have hclean := ht x hlo hhi
  cases he with
  | noise hn => exact (hn.byte hclean).1
  | other hs =>
      rw [hs.dirty x (.inr ⟨hlo, by simp only [Indev.rxBuf] at *; omega⟩)]
      exact hclean
  | setOwn i v _ _ _ => exact hclean
  | setCur v => exact hclean

theorem aside_rxBufClean : Aside (rxInitRely D) D.base (RxBufClean D 65536) := by
  refine ⟨steady_rxBufClean le_rfl, ?_⟩
  intro t i k v hi hk ht x hlo hhi
  have hne : x / 64 ≠ (D.base + 64 * i + k) / 64 := by
    have := D.aligned
    simp only [Indev.rxBuf] at hlo
    omega
  rw [World.dirty_write, if_neg hne]
  exact ht x hlo hhi

/-- The flush of the receive buffers from line `j` on. -/
theorem wp_flushRxBufs (k j : ℕ) {n x : ℕ} (hn : n = 64 * (j + k)) (hx : x = D.rxBuf 0 + 64 * j)
    (hle : n ≤ 65536) (hw : RxBufClean D (64 * j) w) :
    Prog.wp (access cached canFail) (rxInitRely D) rxInitGuarantee (eachLine dccimvac x k)
      (fun _ t => RxBufClean D n t) w := by
  subst hx
  induction k generalizing j w with
  | zero => exact wp_pure (steady_rxBufClean hle) (hn ▸ hw) fun t ht => ht
  | succ k ih =>
      refine wp_act (fun t => t.evict ((D.rxBuf 0 + 64 * j) / 64)) (fun t r t' hacc => hacc)
        (steady_rxBufClean (by omega) _) hw (fun _ _ _ => trivial) ?_
      intro t r ht
      refine ih (j + 1) (by omega) ?_
      intro y hlo hhi
      by_cases hy : y < D.rxBuf 0 + 64 * j
      · exact steady_rxBufClean (by omega) none _ _ ht (.noise (t.noise_evict _)) y hlo hy
      · have halign := Indev.rxBuf_aligned (D := D) (i := 0)
        exact (CMem.dirty_evict _ _ _).trans (if_pos (by omega))

theorem rxDescInit_spec {n : ℕ} (hn : n < 32)
    (hw : Table D.base n (RxMade D) w ∧ RxBufClean D 65536 w) :
    Prog.wp (access cached canFail) (rxInitRely D) rxInitGuarantee (rxDescInit D n)
      (fun _ t => Table D.base (n + 1) (RxMade D) t ∧ RxBufClean D 65536 t) w := by
  have hR := changes_rxInitRely (D := D)
  have hM := closed_rxMade (D := D)
  have hJ := aside_rxBufClean (D := D)
  have hok := fillOk_rxInit D.base
  refine wp_field (T := fun d => d.bufAddr = BitVec.ofNat 32 (D.rxBuf n))
    (g := fun d => { d with bufAddr := BitVec.ofNat 32 (D.rxBuf n) }) D.aligned hJ hok hn
    (k := 8) (by omega) (fun mem => descAt_write_bufAddr mem _ _) (steady_table hR hM (by omega)) hw
    (fun t ht => ⟨ht, rfl⟩) ?_
  intro t ht
  refine wp_field (T := fun d => d.bufAddr = BitVec.ofNat 32 (D.rxBuf n) ∧
      d.next = BitVec.ofNat 32 (D.rxChain (n + 1)))
    (g := fun d => { d with next := BitVec.ofNat 32 (D.rxChain (n + 1)) }) D.aligned hJ hok hn
    (k := 12) (by omega) (fun mem => descAt_write_next mem _ _)
    (steady_entry hR hM (fun d v hd _ => hd) hn) ht (fun t ht => ⟨ht.1, ht.2.2, rfl⟩) ?_
  intro t ht
  refine wp_fieldBit D.aligned hR noisy_rxInitRely hM (fun d v hd _ => hd) hJ hok hn
    (fun d v hd => hd) ht ?_
  intro t ht
  rw [← bind_pure (store _ _)]
  refine wp_field (T := RxMade D n) (g := fun d => { d with status := bit 31 }) D.aligned hJ hok hn
    (k := 0) (by omega) (fun mem => descAt_write_status mem _ _)
    (steady_entry hR hM (fun d v hd _ => hd) hn) ht (fun t ht => ⟨ht.1, ht.2.2, own_bit31⟩) ?_
  intro t ht
  refine wp_pure ((steady_table hR hM (n := n + 1) (by omega)).and hJ.steady) ⟨?_, ht.2⟩
    fun t ht => ht
  exact ht.1.table fun d hd => hd

/-- The chain that `rx_descs_init` hands to the DMA. -/
structure RxTable (D : Indev) (w : World) : Prop where
  chain : Flushed D.base (RxReady D) 32 w
  clean : RxBufClean D 65536 w
  dma : w.rxDma = D.rxChain 0
  delivered : w.delivered = []

theorem steady_rxTable : Steady (rxInitRely D) (RxTable D) := by
  intro o t t' ht he
  refine ⟨steady_flushed changes_rxInitRely closed_rxReady le_rfl o _ _ ht.chain he,
    steady_rxBufClean le_rfl o _ _ ht.clean he, ?_, ?_⟩
  · cases he with
    | noise hn =>
        rcases hn with ⟨c, -, rfl⟩
        exact ht.dma
    | other hs => exact hs.rxDma.trans ht.dma
    | setOwn i v _ _ _ => exact ht.dma
    | setCur v => exact ht.dma
  · cases he with
    | noise hn => exact hn.delivered.trans ht.delivered
    | other hs => exact hs.delivered.trans ht.delivered
    | setOwn i v _ _ _ => exact ht.delivered
    | setCur v => exact ht.delivered

/-- It is the empty ring. -/
theorem RxTable.ring (ht : RxTable D w) : RxRing D 0 w := by
  have hcell : ∀ k, k < 32 → RxCell D k (w.rxCell D k) ∧ own (w.rxCell D k).mem.status = true := by
    intro k hk
    have hclean : (w.rxCell D k).dirty = false := ht.chain.2 k hk
    rcases ht.chain.1 k hk with ⟨hsettled, hlinked, hown⟩
    have hmem : (w.rxCell D k).mem = (w.rxCell D k).view := hsettled hclean
    exact ⟨⟨hclean, hmem ▸ hlinked, hlinked, fun _ => by rw [hmem]⟩, hmem ▸ hown⟩
  have hslot : ∀ k, k < 32 → RxSlot D w.delivered k (w.rxCell D (k % 32)) := by
    intro k hk
    rw [ht.delivered]
    refine ⟨(hcell _ (Nat.mod_lt _ (by omega))).1, by simp, fun _ => ?_⟩
    exact (hcell _ (Nat.mod_lt _ (by omega))).2
  have hlen : w.delivered.length = 0 := by rw [ht.delivered]; rfl
  refine ⟨⟨⟨Nat.zero_le _, by omega, ?_, ?_, ?_, ?_, ?_⟩, ?_, (hcell 0 (by omega)).1.mem⟩,
    hslot 0 (by omega)⟩
  · rw [hlen]
    exact ht.dma
  · intro k _ hk
    exact hslot k (by omega)
  · intro k f _ hf
    rw [ht.delivered] at hf
    exact absurd hf (by simp)
  · intro i x hi hlo hhi
    refine ht.clean x ?_ ?_ <;> simp only [Indev.rxBuf] at * <;> omega
  · rw [ht.delivered]
    simp
  · intro hlt
    omega

/-- The receive chain is filled in, flushed and given to the DMA. -/
theorem rxTableInit_spec (w : World) :
    Prog.wp (access cached canFail) (rxInitRely D) rxInitGuarantee (rxTableInit D)
      (fun _ t => RxTable D t) w := by
  have hR := changes_rxInitRely (D := D)
  have hJ := aside_rxBufClean (D := D)
  have hok := fillOk_rxInit D.base
  have hbufs : RxBufClean D (64 * 0) w := by
    intro x hlo hhi
    omega
  -- The counts are kept as variables so that the loops stay folded.
  obtain ⟨k, hk⟩ : ∃ k, k = 1024 := ⟨_, rfl⟩
  obtain ⟨n, hn⟩ : ∃ n, n = CONFIG_RX_DESCR_NUM := ⟨_, rfl⟩
  have hn' : n = 32 := hn
  rw [rxTableInit, show RX_TOTAL_BUFSIZE = 64 * 1024 from rfl, ← hk, ← hn,
    flushDcacheRange_lines k Indev.rxBuf_aligned, flushDcacheRange_lines n Indev.rxChain_aligned]
  refine Prog.wp_seq (wp_flushRxBufs (n := 65536) k 0 (by omega) rfl le_rfl hbufs) ?_
  intro _ t ht
  refine Prog.wp_seq (wp_forIdx hR closed_rxMade hJ (fun n w hn hw => rxDescInit_spec hn hw) n
    (by omega) ht) ?_
  intro _ t ht
  rw [hn'] at ht
  -- The last descriptor is linked to the first.
  refine wp_field (a := D.base) (n := 31) (k := 12) (M := RxReady D) (T := RxReady D 31)
    (P := Table D.base 32 (RxMade D))
    (g := fun d => { d with next := BitVec.ofNat 32 (D.rxChain 0) }) D.aligned hJ hok (by omega)
    (by omega) (fun mem => descAt_write_next mem _ _) (steady_table hR closed_rxMade le_rfl) ht ?_ ?_
  · intro t ht
    refine ⟨?_, ⟨⟨(ht 31 (by omega)).2.1.1, rfl⟩, (ht 31 (by omega)).2.2⟩⟩
    intro i hi
    rcases ht i (by omega) with ⟨hsettled, ⟨hbuf, hnext⟩, hown⟩
    refine ⟨hsettled, ⟨hbuf, ?_⟩, hown⟩
    rw [hnext, show (i + 1) % 32 = i + 1 by omega]
  intro t ht
  have hflushed : Flushed D.base (RxReady D) 0 t ∧ RxBufClean D 65536 t :=
    ⟨⟨ht.1.table fun d hd => hd, fun i hi => by omega⟩, ht.2⟩
  refine Prog.wp_seq (wp_flushChain hR noisy_rxInitRely closed_rxReady hJ hok n 0 (by omega) hflushed)
    ?_
  intro _ t ht
  rw [Nat.zero_add, hn'] at ht
  rw [← bind_pure (writel _ _)]
  refine wp_act (fun t => t.writel (BitVec.ofNat 32 (D.rxChain 0)) .rxDmaDesc)
    (fun t r t' hacc => hacc)
    ((steady_flushed hR closed_rxReady le_rfl).and hJ.steady _) ht (fun _ _ _ => rfl) ?_
  intro t _ ht
  refine wp_pure steady_rxTable ⟨ht.1.of_eq (t.m_writel _ _), ?_, Indev.toNat_rxChain (by omega), rfl⟩
    fun t ht => ht
  exact ht.2

end Rx

/-! ## `tx_descs_init` -/

section Tx

variable {D : Indev} {w w' : World} {canFail : Prop} {i : ℕ} {d : DmaDesc}

/-- What may happen while the transmit chain is filled. -/
inductive TxInitEnv (D : Indev) : World → World → Prop
  | noise {w w' : World} : World.Noise w w' → TxInitEnv D w w'
  | other {w w' : World} : TxSame D w w' → TxInitEnv D w w'

def txInitRely (D : Indev) : Prog.Rely Op World :=
  fun _ => TxInitEnv D

/-- The initialisation of the transmit chain stores to that chain only. -/
def txInitGuarantee (D : Indev) : Prog.Sem Op Op.Ret World
  | .store a _, _, _, _ => ∃ i < 32, a / 64 = D.txChain i / 64
  | .store8 _ _, _, _, _ => False
  | .dcimvac _, _, _, _ => False
  | .setRxCurrdescnum _, _, _, _ => False
  | .setTxCurrdescnum _, _, _, _ => False
  | .writel r _, _, _, _ => r = .txDmaDesc
  | _, _, _, _ => True

theorem noisy_txInitRely : Noisy (txInitRely D) :=
  fun _ _ _ hn => .noise hn

theorem fillOk_txInit : FillOk (D.base + 2048) (txInitGuarantee D) := by
  refine ⟨fun _ _ _ _ => trivial, ?_, fun _ _ _ _ => trivial⟩
  intro i k v hi hk t r t'
  refine ⟨i, hi, ?_⟩
  have := D.aligned
  simp only [Indev.txChain]
  omega

theorem changes_txInitRely : Changes (fun _ => False) (D.base + 2048) (txInitRely D) := by
  intro o t t' ht i hi
  have halign : (D.base + 2048 + 64 * i) % 64 = 0 := Indev.txChain_aligned
  cases ht with
  | noise hn => exact .drift (hn.descCell halign)
  | other hs =>
      have hcell : t'.descCell (D.base + 2048 + 64 * i) = t.descCell (D.base + 2048 + 64 * i) :=
        hs.txCell hi
      rw [hcell]
      exact .drift (.same _)

/-- A descriptor as the loop of `tx_descs_init` leaves it: the DMA owns it, but nothing is in it. -/
def TxMade (D : Indev) (i : ℕ) (d : DmaDesc) : Prop :=
  (d.bufAddr = BitVec.ofNat 32 (D.txBuf i) ∧ d.next = BitVec.ofNat 32 (D.txChain (i + 1))) ∧
    d.status = bit 31 ∧ d.st = 0

/-- A descriptor as `tx_descs_init` leaves it. -/
def TxReady (D : Indev) (i : ℕ) (d : DmaDesc) : Prop :=
  TxLinked D i d ∧ d.status = bit 31 ∧ d.st = 0

theorem closed_false {P : DmaDesc → Prop} : Closed (fun _ => False) P :=
  fun _ _ _ hv => hv.elim

theorem aside_true {R : Prog.Rely Op World} {a : ℕ} : Aside R a fun _ => True :=
  ⟨fun _ _ _ _ _ => trivial, fun _ _ _ _ _ _ _ => trivial⟩

theorem txDescInit_spec {n : ℕ} (hn : n < 32)
    (hw : Table (D.base + 2048) n (TxMade D) w ∧ True) :
    Prog.wp (access cached canFail) (txInitRely D) (txInitGuarantee D) (txDescInit D n)
      (fun _ t => Table (D.base + 2048) (n + 1) (TxMade D) t ∧ True) w := by
  have hR := changes_txInitRely (D := D)
  have hM : ∀ i, Closed (fun _ => False) (TxMade D i) := fun i => closed_false
  have hJ := aside_true (R := txInitRely D) (a := D.base + 2048)
  have hok := fillOk_txInit (D := D)
  have halign : (D.base + 2048) % 64 = 0 := Indev.txChain_aligned (i := 0)
  refine wp_field (T := fun d => d.bufAddr = BitVec.ofNat 32 (D.txBuf n))
    (g := fun d => { d with bufAddr := BitVec.ofNat 32 (D.txBuf n) }) halign hJ hok hn
    (k := 8) (by omega) (fun mem => descAt_write_bufAddr mem _ _) (steady_table hR hM (by omega)) hw
    (fun t ht => ⟨ht, rfl⟩) ?_
  intro t ht
  refine wp_field (T := fun d => d.bufAddr = BitVec.ofNat 32 (D.txBuf n) ∧
      d.next = BitVec.ofNat 32 (D.txChain (n + 1)))
    (g := fun d => { d with next := BitVec.ofNat 32 (D.txChain (n + 1)) }) halign hJ hok hn
    (k := 12) (by omega) (fun mem => descAt_write_next mem _ _)
    (steady_entry hR hM closed_false hn) ht (fun t ht => ⟨ht.1, ht.2.2, rfl⟩) ?_
  intro t ht
  refine wp_field (T := fun d => (d.bufAddr = BitVec.ofNat 32 (D.txBuf n) ∧
      d.next = BitVec.ofNat 32 (D.txChain (n + 1))) ∧ d.status = bit 31)
    (g := fun d => { d with status := bit 31 }) halign hJ hok hn
    (k := 0) (by omega) (fun mem => descAt_write_status mem _ _)
    (steady_entry hR hM closed_false hn) ht (fun t ht => ⟨ht.1, ht.2.2, rfl⟩) ?_
  intro t ht
  rw [← bind_pure (store _ _)]
  refine wp_field (T := TxMade D n) (g := fun d => { d with st := 0 }) halign hJ hok hn
    (k := 4) (by omega) (fun mem => descAt_write_st mem _ _)
    (steady_entry hR hM closed_false hn) ht (fun t ht => ⟨ht.1, ht.2.2.1, ht.2.2.2, rfl⟩) ?_
  intro t ht
  refine wp_pure ((steady_table hR hM (n := n + 1) (by omega)).and hJ.steady) ⟨?_, trivial⟩
    fun t ht => ht
  exact ht.1.table fun d hd => hd

/-- The chain that `tx_descs_init` hands to the DMA. -/
structure TxTable (D : Indev) (w : World) : Prop where
  chain : Flushed (D.base + 2048) (TxReady D) 32 w
  dma : w.txDma = D.txChain 0
  sent : w.sent = []

theorem steady_txTable : Steady (txInitRely D) (TxTable D) := by
  intro o t t' ht he
  refine ⟨steady_flushed changes_txInitRely (fun i => closed_false) le_rfl o _ _ ht.chain he, ?_, ?_⟩
  · cases he with
    | noise hn => exact (hn.txDrift D).txDma.trans ht.dma
    | other hs => exact hs.txDma.trans ht.dma
  · cases he with
    | noise hn => exact (hn.txDrift D).sent.trans ht.sent
    | other hs => exact hs.sent.trans ht.sent

/-- It is the empty ring. -/
theorem TxTable.ring (ht : TxTable D w) : TxRing D [] ∅ w := by
  have hslot : ∀ k, TxSlot D [] k w := by
    intro k
    have hmod : k % 32 < 32 := Nat.mod_lt _ (by omega)
    have hclean : (w.txCell D (k % 32)).dirty = false := ht.chain.2 _ hmod
    rcases ht.chain.1 _ hmod with ⟨hsettled, hlinked, -, hst⟩
    have hmem : (w.txCell D (k % 32)).mem = (w.txCell D (k % 32)).view := hsettled hclean
    refine ⟨hclean, hmem ▸ hlinked, hlinked, by simp, fun _ => ?_⟩
    have hst' : (w.txCell D (k % 32)).mem.st = 0 := hmem ▸ hst
    rw [armed, hst']
    exact Bool.and_false _
  refine ⟨ht.sent ▸ List.prefix_rfl, Nat.zero_le _, ?_, fun k _ _ _ => hslot k⟩
  rw [ht.sent]
  exact ht.dma

/-- The transmit chain is filled in, flushed and given to the DMA. -/
theorem txTableInit_spec (w : World) :
    Prog.wp (access cached canFail) (txInitRely D) (txInitGuarantee D) (txTableInit D)
      (fun _ t => TxTable D t) w := by
  have hR := changes_txInitRely (D := D)
  have hM : ∀ i, Closed (fun _ => False) (TxMade D i) := fun i => closed_false
  have hM' : ∀ i, Closed (fun _ => False) (TxReady D i) := fun i => closed_false
  have hJ := aside_true (R := txInitRely D) (a := D.base + 2048)
  have hok := fillOk_txInit (D := D)
  have halign : (D.base + 2048) % 64 = 0 := Indev.txChain_aligned (i := 0)
  obtain ⟨n, hn⟩ : ∃ n, n = CONFIG_TX_DESCR_NUM := ⟨_, rfl⟩
  have hn' : n = 32 := hn
  rw [txTableInit, ← hn, flushDcacheRange_lines n Indev.txChain_aligned]
  refine Prog.wp_seq (wp_forIdx hR hM hJ (fun n w hn hw => txDescInit_spec hn hw) n (by omega)
    trivial) ?_
  intro _ t ht
  rw [hn'] at ht
  -- The link of the last descriptor is bent back to the first.
  refine wp_field (a := D.base + 2048) (n := 31) (k := 12) (M := TxReady D) (T := TxReady D 31)
    (P := Table (D.base + 2048) 32 (TxMade D))
    (g := fun d => { d with next := BitVec.ofNat 32 (D.txChain 0) }) halign hJ hok (by omega)
    (by omega) (fun mem => descAt_write_next mem _ _) (steady_table hR hM le_rfl) ht ?_ ?_
  · intro t ht
    refine ⟨?_, ⟨⟨(ht 31 (by omega)).2.1.1, rfl⟩, (ht 31 (by omega)).2.2⟩⟩
    intro i hi
    rcases ht i (by omega) with ⟨hsettled, ⟨hbuf, hnext⟩, hst⟩
    refine ⟨hsettled, ⟨hbuf, ?_⟩, hst⟩
    rw [hnext, show (i + 1) % 32 = i + 1 by omega]
  intro t ht
  -- Only when the table is complete is it flushed and given to the DMA.
  have hflushed : Flushed (D.base + 2048) (TxReady D) 0 t ∧ True :=
    ⟨⟨ht.1.table fun d hd => hd, fun i hi => by omega⟩, trivial⟩
  refine Prog.wp_seq (wp_flushChain hR noisy_txInitRely hM' hJ hok n 0 (by omega) hflushed) ?_
  intro _ t ht
  rw [Nat.zero_add, hn'] at ht
  rw [← bind_pure (writel _ _)]
  refine wp_act (fun t => t.writel (BitVec.ofNat 32 (D.txChain 0)) .txDmaDesc)
    (fun t r t' hacc => hacc) ((steady_flushed hR hM' le_rfl).and hJ.steady _) ht
    (fun _ _ _ => rfl) ?_
  intro t _ ht
  exact wp_pure steady_txTable ⟨ht.1.of_eq (t.m_writel _ _), Indev.toNat_txChain (by omega), rfl⟩ fun t ht => ht

end Tx

end Emac

end BspV3s
