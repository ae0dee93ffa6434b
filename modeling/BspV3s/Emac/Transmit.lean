import BspV3s.Emac.Machine
import Mathlib.Tactic.Set

/-!
# Transmit — the transmit ring

`TxIdle D acc w` is the ring between calls: `acc` are the frames that have been accepted, the DMA
has sent a prefix of them, the others lie in ring order with own, first and last set, and no other
descriptor is armed.  As on the receive side it speaks of cached memory; the lines of queued frames
are clean.

`TxEnv` is what may happen besides the calls of `_emac_tx`.  The DMA may complete a descriptor at
any time, except while its line is dirty or its status word is about to be stored.
-/

namespace BspV3s

namespace Emac

variable {D : Indev} {w w' : World} {i k : ℕ} {acc : List TxFrame} {f : TxFrame}

/-! ## Cells -/

/-- Descriptor `i` of the transmit chain points at its buffer and at its successor. -/
def TxLinked (D : Indev) (i : ℕ) (d : DmaDesc) : Prop :=
  d.bufAddr = BitVec.ofNat 32 (D.txBuf i) ∧ d.next = BitVec.ofNat 32 (D.txChain ((i + 1) % 32))

def World.txCell (w : World) (D : Indev) (i : ℕ) : Cell DmaDesc :=
  w.m.cell (D.txChain i / 64) (descAt (D.txChain i))

def World.byteCell (w : World) (x : ℕ) : Cell Byte :=
  w.m.cell (x / 64) fun m => m x

/-- Frame `f` in memory, ready for the DMA at descriptor `i`. -/
structure TxQueued (D : Indev) (i : ℕ) (f : TxFrame) (w : World) : Prop where
  armed : armed (w.txCell D i).mem = true
  length : txLength (w.txCell D i).mem.st = f.length
  fits : f.length ≤ 2047
  data : ∀ j b, f[j]? = some b →
    (w.byteCell (D.txBuf i + j)).dirty = false ∧ (w.byteCell (D.txBuf i + j)).mem = b

/-- The descriptor of frame `k`, `acc` being the frames accepted so far. -/
structure TxSlot (D : Indev) (acc : List TxFrame) (k : ℕ) (w : World) : Prop where
  clean : (w.txCell D (k % 32)).dirty = false
  mem : TxLinked D (k % 32) (w.txCell D (k % 32)).mem
  view : TxLinked D (k % 32) (w.txCell D (k % 32)).view
  queued : ∀ f, acc[k]? = some f → TxQueued D (k % 32) f w
  free : acc[k]? = none → armed (w.txCell D (k % 32)).mem = false

/-- The ring, apart from the descriptors of the frames in `skip`; `acc` are the frames that have
been queued. -/
structure TxRing (D : Indev) (acc : List TxFrame) (skip : Set ℕ) (w : World) : Prop where
  log : w.sent <+: acc
  room : acc.length ≤ w.sent.length + 32
  dma : w.txDma = D.txChain (w.sent.length % 32)
  slots : ∀ k, w.sent.length ≤ k → k < w.sent.length + 32 → k ∉ skip → TxSlot D acc k w

/-- The ring between two calls. -/
structure TxIdle (D : Indev) (acc : List TxFrame) (w : World) : Prop where
  ring : TxRing D acc ∅ w
  cur : w.txCur.toNat = acc.length % 32

/-! ## Interference -/

/-- Nothing about the transmit ring changes. -/
structure TxSame (D : Indev) (w w' : World) : Prop where
  txCur : w'.txCur = w.txCur
  txDma : w'.txDma = w.txDma
  sent : w'.sent = w.sent
  mem : ∀ x, D.InTx x → w'.m.mem x = w.m.mem x
  view : ∀ x, D.InTx x → w'.m.view x = w.m.view x
  dirty : ∀ x, D.InTx x → w'.m.dirty (x / 64) = w.m.dirty (x / 64)

/-- With the memory nothing in it has changed. -/
theorem TxSame.of_memory {w w' : World} (hcur : w'.txCur = w.txCur) (hdma : w'.txDma = w.txDma)
    (hsent : w'.sent = w.sent) (hm : w'.m = w.m) : TxSame D w w' where
  txCur := hcur
  txDma := hdma
  sent := hsent
  mem := fun x _ => congrArg (·.mem x) hm
  view := fun x _ => congrArg (·.view x) hm
  dirty := fun x _ => congrArg (·.dirty (x / 64)) hm

/-- The DMA step that the driver can cope with: the line of the descriptor is not dirty and its
status word is not about to be stored. -/
structure Untouched (o : Option Op) (w : World) : Prop where
  clean : w.m.dirty (w.txDma / 64) = false
  next : ∀ v, o ≠ some (.store w.txDma v)

/-- What may happen to the ring besides the calls of `_emac_tx`. -/
inductive TxEnv (D : Indev) (o : Option Op) : World → World → Prop
  | noise {w w' : World} : World.Noise w w' → TxEnv D o w w'
  | complete {w : World} (status : U32) : CanComplete w status → Untouched o w →
      TxEnv D o w (w.complete status)
  | other {w w' : World} : TxSame D w w' → TxEnv D o w w'

/-- Each cell of the ring drifts. -/
structure TxDrift (D : Indev) (w w' : World) : Prop where
  cell : ∀ i < 32, (w.txCell D i).Drift (w'.txCell D i)
  byte : ∀ i < 32, ∀ j < 2048, (w.byteCell (D.txBuf i + j)).Drift (w'.byteCell (D.txBuf i + j))
  txCur : w'.txCur = w.txCur
  txDma : w'.txDma = w.txDma
  sent : w'.sent = w.sent

theorem World.Noise.txDrift (hn : World.Noise w w') (D : Indev) : TxDrift D w w' := by
  rcases hn with ⟨c, hc, rfl⟩
  exact ⟨fun i _ => CMem.cell_noise hc (local_descAt Indev.txChain_aligned),
    fun i _ j _ => CMem.cell_noise hc (CMem.local_byte _), rfl, rfl, rfl⟩

theorem TxSame.txCell (hs : TxSame D w w') (hi : i < 32) : w'.txCell D i = w.txCell D i := by
  have hloc := local_descAt (Indev.txChain_aligned (D := D) (i := i))
  have hmem : descAt (D.txChain i) w'.m.mem = descAt (D.txChain i) w.m.mem :=
    hloc _ _ fun x hx => hs.mem x (Indev.inTx_of_line hi hx)
  have hview : descAt (D.txChain i) w'.m.view = descAt (D.txChain i) w.m.view :=
    hloc _ _ fun x hx => hs.view x (Indev.inTx_of_line hi hx)
  have hdirty : w'.m.dirty (D.txChain i / 64) = w.m.dirty (D.txChain i / 64) :=
    hs.dirty _ (Indev.inTx_of_line hi rfl)
  simp only [World.txCell, CMem.cell, hmem, hview, hdirty]

theorem TxSame.byteCell (hs : TxSame D w w') {x : ℕ} (hx : D.InTx x) :
    w'.byteCell x = w.byteCell x := by
  simp only [World.byteCell, CMem.cell, hs.mem x hx, hs.view x hx, hs.dirty x hx]

theorem TxSame.txDrift (hs : TxSame D w w') : TxDrift D w w' := by
  refine ⟨?_, ?_, hs.txCur, hs.txDma, hs.sent⟩
  · intro i hi
    rw [hs.txCell hi]
    exact .same _
  · intro i hi j hj
    rw [hs.byteCell (Indev.inTx_of_buf hi (by omega) (by omega))]
    exact .same _

/-! ## The ring under drift -/

theorem TxQueued.drift (hq : TxQueued D i f w) (hi : i < 32) (hclean : (w.txCell D i).dirty = false)
    (hd : TxDrift D w w') : TxQueued D i f w' := by
  have hmem := ((hd.cell i hi).of_clean hclean).2.1
  refine ⟨hmem ▸ hq.armed, hmem ▸ hq.length, hq.fits, ?_⟩
  intro j b hj
  have hlt : j < f.length := (List.getElem?_eq_some_iff.1 hj).1
  have hfit := hq.fits
  rcases hq.data j b hj with ⟨hdirty, hval⟩
  rcases (hd.byte i hi j (by omega)).of_clean hdirty with ⟨hdirty', hmem', -⟩
  exact ⟨hdirty', hmem'.trans hval⟩

theorem TxSlot.drift (hs : TxSlot D acc k w) (hd : TxDrift D w w') : TxSlot D acc k w' := by
  have hmod : k % 32 < 32 := Nat.mod_lt _ (by omega)
  rcases (hd.cell _ hmod).of_clean hs.clean with ⟨hclean, hmem, hview⟩
  refine ⟨hclean, hmem ▸ hs.mem, ?_, ?_, ?_⟩
  · rcases hview with hv | hv
    · exact hv ▸ hs.view
    · exact hv ▸ hs.mem
  · intro f hf
    exact (hs.queued f hf).drift hmod hs.clean hd
  · intro hnone
    rw [hmem]
    exact hs.free hnone

theorem TxRing.drift {skip : Set ℕ} (hr : TxRing D acc skip w) (hd : TxDrift D w w') :
    TxRing D acc skip w' := by
  refine ⟨hd.sent ▸ hr.log, hd.sent ▸ hr.room, ?_, ?_⟩
  · rw [hd.txDma, hd.sent]
    exact hr.dma
  · rw [hd.sent]
    intro k hlo hhi hne
    exact (hr.slots k hlo hhi hne).drift hd

/-! ## Completions -/

section Complete

variable {j : ℕ} {status : U32}

/-- A completion changes the status word of the descriptor that the DMA points at, no more. -/
theorem complete_txCell_of_ne (hdma : w.txDma = D.txChain j) (hij : i ≠ j) :
    (w.complete status).txCell D i = w.txCell D i := by
  apply CMem.cell_setMem_other (local_descAt Indev.txChain_aligned)
  intro x hx
  rw [mem_lineSet] at hx
  rw [hdma]
  apply Mem.write32_outside
  have := D.aligned
  simp only [Indev.txChain] at *
  omega

theorem complete_txCell_self (status : U32) (hdma : w.txDma = D.txChain j) :
    ∃ v, (w.complete status).txCell D j =
        ⟨{ (w.txCell D j).mem with status := status }, v, (w.txCell D j).dirty⟩ ∧
      (v = (w.txCell D j).view ∨ v = { (w.txCell D j).mem with status := status }) := by
  have hmem : descAt (D.txChain j) (w.m.mem.write32 w.txDma status) =
      { (w.txCell D j).mem with status := status } := by
    rw [hdma, descAt_write_status]
    rfl
  rcases CMem.cell_setMem (c := w.m) (local_descAt (Indev.txChain_aligned (D := D) (i := j)))
    (w.m.mem.write32 w.txDma status) with ⟨v, hcell, hv⟩
  rw [hmem] at hcell hv
  exact ⟨v, hcell, hv⟩

theorem complete_byteCell (hdma : w.txDma = D.txChain j) (hj : j < 32) {x : ℕ}
    (hx : D.txBuf 0 ≤ x) : (w.complete status).byteCell x = w.byteCell x := by
  apply CMem.cell_setMem_other (CMem.local_byte x)
  intro y hy
  rw [mem_lineSet] at hy
  rw [hdma]
  apply Mem.write32_outside
  have := D.aligned
  simp only [Indev.txChain, Indev.txBuf] at *
  omega

theorem TxQueued.complete_of_ne (hq : TxQueued D i f w) (hdma : w.txDma = D.txChain j)
    (hj : j < 32) (hij : i ≠ j) : TxQueued D i f (w.complete status) := by
  have hcell : (w.complete status).txCell D i = w.txCell D i := complete_txCell_of_ne hdma hij
  refine ⟨hcell ▸ hq.armed, hcell ▸ hq.length, hq.fits, ?_⟩
  intro n b hn
  rw [complete_byteCell hdma hj (by simp only [Indev.txBuf]; omega)]
  exact hq.data n b hn

theorem TxSlot.complete_of_ne (hs : TxSlot D acc k w) (hdma : w.txDma = D.txChain j)
    (hj : j < 32) (hkj : k % 32 ≠ j) : TxSlot D acc k (w.complete status) := by
  have hcell : (w.complete status).txCell D (k % 32) = w.txCell D (k % 32) :=
    complete_txCell_of_ne hdma hkj
  exact ⟨hcell ▸ hs.clean, hcell ▸ hs.mem, hcell ▸ hs.view,
    fun f hf => (hs.queued f hf).complete_of_ne hdma hj hkj, fun hnone => hcell ▸ hs.free hnone⟩

/-- What the DMA transmits from a queued descriptor. -/
theorem TxQueued.frame (hq : TxQueued D i f w) (hi : i < 32)
    (hlink : TxLinked D i (w.txCell D i).mem) : txFrameAt w.m.mem (D.txChain i) = f := by
  have haddr : (descAt (D.txChain i) w.m.mem).bufAddr.toNat = D.txBuf i :=
    hlink.1 ▸ Indev.toNat_txBuf hi
  have hlen : txLength (descAt (D.txChain i) w.m.mem).st = f.length := hq.length
  rw [txFrameAt, haddr, hlen, Mem.readBytes_eq_iff]
  intro j hj
  exact (hq.data j _ (List.getElem?_eq_getElem hj)).2

/-- The descriptor of a completed frame is free for the frame one revolution later. -/
theorem TxSlot.completed (hs : TxSlot D acc k w) (hdma : w.txDma = D.txChain (k % 32))
    (hrel : own status = false) (hnone : acc[k + 32]? = none) :
    TxSlot D acc (k + 32) (w.complete status) := by
  have hmod : (k + 32) % 32 = k % 32 := by omega
  rcases complete_txCell_self status hdma with ⟨v, hcell, hv⟩
  refine ⟨?_, ?_, ?_, ?_, ?_⟩
  · rw [hmod, hcell]
    exact hs.clean
  · rw [hmod, hcell]
    exact hs.mem
  · rw [hmod, hcell]
    rcases hv with rfl | rfl
    · exact hs.view
    · exact hs.mem
  · intro f hf
    rw [hnone] at hf
    exact absurd hf (by simp)
  · intro _
    rw [hmod, hcell]
    simp [armed, hrel]

theorem World.length_sent_complete : (w.complete status).sent.length = w.sent.length + 1 := by
  simp [World.complete]

/-- A completion outside `skip` sends the next accepted frame. -/
theorem TxRing.complete {skip : Set ℕ} (hr : TxRing D acc skip w) (hc : CanComplete w status)
    (hs : w.sent.length ∉ skip) : TxRing D acc skip (w.complete status) := by
  have hmod : w.sent.length % 32 < 32 := Nat.mod_lt _ (by omega)
  have hslot := hr.slots _ le_rfl (by omega) hs
  have harmed := hc.armed
  rw [hr.dma] at harmed
  -- An armed descriptor holds a frame: a free one would not be armed.
  have hsome : ∃ f, acc[w.sent.length]? = some f := by
    by_contra hnone
    rw [not_exists, ← Option.eq_none_iff_forall_ne_some] at hnone
    have hfree : armed (descAt (D.txChain (w.sent.length % 32)) w.m.mem) = false :=
      hslot.free hnone
    rw [hfree] at harmed
    exact absurd harmed (by decide)
  rcases hsome with ⟨f, hf⟩
  have hframe : txFrameAt w.m.mem w.txDma = f := by
    rw [hr.dma]
    exact (hslot.queued f hf).frame hmod hslot.mem
  refine ⟨?_, ?_, ?_, ?_⟩
  · show w.sent ++ [txFrameAt w.m.mem w.txDma] <+: acc
    rw [hframe]
    exact concat_isPrefix hr.log hf
  · have := hr.room
    rw [World.length_sent_complete]
    omega
  -- The DMA follows the link to the next descriptor of the ring.
  · have hnext : (w.txCell D (w.sent.length % 32)).mem.next.toNat =
        D.txChain ((w.sent.length % 32 + 1) % 32) := by
      rw [hslot.mem.2]
      exact Indev.toNat_txChain (by omega)
    have hmod' : (w.sent.length % 32 + 1) % 32 = (w.sent.length + 1) % 32 := by omega
    rw [World.length_sent_complete, ← hmod', ← hnext]
    show (descAt w.txDma w.m.mem).next.toNat = _
    rw [hr.dma]
    rfl
  · rw [World.length_sent_complete]
    intro k hlo hhi hne
    -- The slot that has become free is that of the frame 32 places on.
    by_cases hk : k = w.sent.length + 32
    · subst hk
      refine hslot.completed hr.dma hc.released (List.getElem?_eq_none ?_)
      exact hr.room
    · exact (hr.slots k (by omega) (by omega) hne).complete_of_ne hr.dma hmod (by omega)

end Complete

end Emac

end BspV3s
