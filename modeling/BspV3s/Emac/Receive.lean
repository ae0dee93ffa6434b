import BspV3s.Emac.Machine
import Mathlib.Tactic.Set

/-!
# Receive — the receive ring and one call of `_emac_rx`

`RxIdle D h w` is the ring between calls: `h` frames have been handed up, the frames from `h` on
lie in ring order in the descriptors from `h % 32` on with their own bits clear, and every other
descriptor belongs to the DMA, which fills the first of these next.  It speaks of cached memory:
every line of the ring is clean, and a descriptor whose own bit the processor sees clear is seen
with the status word that is in memory.

The main result, `emacRx_spec`, is what one call does to the ring while the DMA delivers frames
and the cache fills and evicts lines between any two of its accesses.
-/

namespace BspV3s

namespace Emac

variable {D : Indev} {w w' : World} {h i k : ℕ} {f : RxFrame}

/-! ## The cells of the ring -/

/-- Descriptor `i` of the receive chain points at its buffer and at its successor. -/
def RxLinked (D : Indev) (i : ℕ) (d : DmaDesc) : Prop :=
  d.bufAddr = BitVec.ofNat 32 (D.rxBuf i) ∧ d.next = BitVec.ofNat 32 (D.rxChain ((i + 1) % 32))

def World.rxCell (w : World) (D : Indev) (i : ℕ) : Cell DmaDesc :=
  w.m.cell (D.rxChain i / 64) (descAt (D.rxChain i))

/-- A clean receive descriptor.  A copy in the cache may be older than memory, but then it shows
the own bit. -/
structure RxCell (D : Indev) (i : ℕ) (c : Cell DmaDesc) : Prop where
  clean : c.dirty = false
  mem : RxLinked D i c.mem
  view : RxLinked D i c.view
  coherent : own c.view.status = false → c.view.status = c.mem.status

theorem RxCell.drift {c c' : Cell DmaDesc} (hc : RxCell D i c) (hd : c.Drift c') :
    RxCell D i c' ∧ c'.mem = c.mem := by
  rcases hd.of_clean hc.clean with ⟨hclean, hmem, hview⟩
  refine ⟨⟨hclean, hmem ▸ hc.mem, ?_, ?_⟩, hmem⟩
  · rcases hview with hv | hv
    · exact hv ▸ hc.view
    · exact hv ▸ hc.mem
  · rcases hview with hv | hv
    · rw [hv, hmem]
      exact hc.coherent
    · intro _
      rw [hv, hmem]

/-- The descriptor that frame `k` has or will have, given the frames delivered so far. -/
structure RxSlot (D : Indev) (delivered : List RxFrame) (k : ℕ) (c : Cell DmaDesc) : Prop where
  cell : RxCell D (k % 32) c
  full : ∀ f, delivered[k]? = some f → c.mem.status = f.status
  empty : delivered[k]? = none → own c.mem.status = true

theorem RxSlot.drift {dl : List RxFrame} {c c' : Cell DmaDesc} (hc : RxSlot D dl k c)
    (hd : c.Drift c') : RxSlot D dl k c' := by
  rcases hc.cell.drift hd with ⟨hcell, hmem⟩
  refine ⟨hcell, ?_, ?_⟩
  · rw [hmem]
    exact hc.full
  · rw [hmem]
    exact hc.empty

/-! ## The ring -/

/-- The ring apart from the descriptor of frame `h`. -/
structure RxTail (D : Indev) (h : ℕ) (w : World) : Prop where
  low : h ≤ w.delivered.length
  high : w.delivered.length ≤ h + 32
  dma : w.rxDma = D.rxChain (w.delivered.length % 32)
  rest : ∀ k, h < k → k < h + 32 → RxSlot D w.delivered k (w.rxCell D (k % 32))
  data : ∀ k f, h ≤ k → w.delivered[k]? = some f →
    w.m.mem.readBytes (D.rxBuf (k % 32)) f.bytes.length = f.bytes
  clean : ∀ i x, i < 32 → D.rxBuf i ≤ x → x < D.rxBuf i + 2048 → w.m.dirty (x / 64) = false
  frames : ∀ f ∈ w.delivered, own f.status = false ∧ f.bytes.length ≤ CONFIG_ETH_RXSIZE

/-- Besides, the DMA does not own the descriptor of frame `h` while it holds a frame. -/
structure RxRest (D : Indev) (h : ℕ) (w : World) : Prop extends RxTail D h w where
  held : h < w.delivered.length → own (w.rxCell D (h % 32)).mem.status = false
  linked : RxLinked D (h % 32) (w.rxCell D (h % 32)).mem

/-- The ring with `h` frames handed up. -/
structure RxRing (D : Indev) (h : ℕ) (w : World) : Prop where
  ring : RxRest D h w
  slot : RxSlot D w.delivered h (w.rxCell D (h % 32))

/-- The ring between two calls. -/
structure RxIdle (D : Indev) (h : ℕ) (w : World) : Prop where
  ring : RxRing D h w
  cur : w.rxCur.toNat = h % 32

/-! ## Interference -/

/-- Nothing about the receive ring changes. -/
structure RxSame (D : Indev) (w w' : World) : Prop where
  rxCur : w'.rxCur = w.rxCur
  rxDma : w'.rxDma = w.rxDma
  delivered : w'.delivered = w.delivered
  mem : ∀ x, D.InRx x → w'.m.mem x = w.m.mem x
  view : ∀ x, D.InRx x → w'.m.view x = w.m.view x
  dirty : ∀ x, D.InRx x → w'.m.dirty (x / 64) = w.m.dirty (x / 64)

/-- With the memory nothing in it has changed. -/
theorem RxSame.of_memory {w w' : World} (hcur : w'.rxCur = w.rxCur) (hdma : w'.rxDma = w.rxDma)
    (hdelivered : w'.delivered = w.delivered) (hm : w'.m = w.m) : RxSame D w w' where
  rxCur := hcur
  rxDma := hdma
  delivered := hdelivered
  mem := fun x _ => congrArg (·.mem x) hm
  view := fun x _ => congrArg (·.view x) hm
  dirty := fun x _ => congrArg (·.dirty (x / 64)) hm

/-- What may happen to the ring besides the calls of `_emac_rx`. -/
inductive RxEnv (D : Indev) : World → World → Prop
  | noise {w w' : World} : World.Noise w w' → RxEnv D w w'
  | deliver {w : World} (f : RxFrame) : CanDeliver w f → RxEnv D w (w.deliver f)
  | other {w w' : World} : RxSame D w w' → RxEnv D w w'

theorem World.Noise.rxCell (hn : World.Noise w w') (D : Indev) (i : ℕ) :
    (w.rxCell D i).Drift (w'.rxCell D i) := by
  rcases hn with ⟨c, hc, rfl⟩
  exact CMem.cell_noise hc (local_descAt Indev.rxChain_aligned)

/-- Noise leaves the bytes of a clean line alone; the processor sees them as before or as they
are in memory. -/
theorem World.Noise.byte (hn : World.Noise w w') {x : ℕ} (hx : w.m.dirty (x / 64) = false) :
    w'.m.dirty (x / 64) = false ∧ w'.m.mem x = w.m.mem x ∧
      (w'.m.view x = w.m.view x ∨ w'.m.view x = w.m.mem x) := by
  rcases hn with ⟨c, hc, rfl⟩
  exact (CMem.cell_noise hc (CMem.local_byte x)).of_clean hx

theorem RxSame.rxCell (hs : RxSame D w w') (hi : i < 32) : w'.rxCell D i = w.rxCell D i := by
  have hloc := local_descAt (Indev.rxChain_aligned (D := D) (i := i))
  have hmem : descAt (D.rxChain i) w'.m.mem = descAt (D.rxChain i) w.m.mem :=
    hloc _ _ fun x hx => hs.mem x (Indev.inRx_of_line hi hx)
  have hview : descAt (D.rxChain i) w'.m.view = descAt (D.rxChain i) w.m.view :=
    hloc _ _ fun x hx => hs.view x (Indev.inRx_of_line hi hx)
  have hdirty : w'.m.dirty (D.rxChain i / 64) = w.m.dirty (D.rxChain i / 64) :=
    hs.dirty _ (Indev.inRx_of_line hi rfl)
  simp only [World.rxCell, CMem.cell, hmem, hview, hdirty]

theorem RxSame.readBytes (hs : RxSame D w w') (hi : i < 32) {n : ℕ} (hn : n ≤ 2048) :
    w'.m.mem.readBytes (D.rxBuf i) n = w.m.mem.readBytes (D.rxBuf i) n := by
  apply Mem.readBytes_congr
  rintro x ⟨hlo, hhi⟩
  exact hs.mem x (Indev.inRx_of_buf hi hlo (by omega))

/-! ## Deliveries -/

section Deliver

variable {j : ℕ}

theorem dma_bufAddr (hj : j < 32) (hdma : w.rxDma = D.rxChain j)
    (hbuf : RxLinked D j (w.rxCell D j).mem) :
    (descAt w.rxDma w.m.mem).bufAddr.toNat = D.rxBuf j := by
  rw [hdma]
  exact hbuf.1 ▸ Indev.toNat_rxBuf hj

/-- The DMA writes into the descriptor it points at and into that descriptor's buffer only. -/
theorem rxWritten_outside (hj : j < 32) (hdma : w.rxDma = D.rxChain j)
    (hbuf : RxLinked D j (w.rxCell D j).mem) (hfit : f.bytes.length ≤ 2048) {x : ℕ}
    (hchain : x < D.rxChain j ∨ D.rxChain j + 4 ≤ x)
    (hdata : x < D.rxBuf j ∨ D.rxBuf j + 2048 ≤ x) : rxWritten w f x = w.m.mem x := by
  rw [rxWritten, dma_bufAddr hj hdma hbuf, Mem.write32_outside (by omega), Mem.writeBytes_outside (by omega)]

theorem deliver_rxCell_of_ne (hj : j < 32) (hdma : w.rxDma = D.rxChain j)
    (hbuf : RxLinked D j (w.rxCell D j).mem) (hfit : f.bytes.length ≤ 2048) (hi : i < 32)
    (hij : i ≠ j) : (w.deliver f).rxCell D i = w.rxCell D i := by
  apply CMem.cell_setMem_other (local_descAt Indev.rxChain_aligned)
  intro x hx
  rw [mem_lineSet] at hx
  have := D.aligned
  apply rxWritten_outside hj hdma hbuf hfit <;> simp only [Indev.rxChain, Indev.rxBuf] at * <;> omega

theorem deliver_rxCell_self (hj : j < 32) (hdma : w.rxDma = D.rxChain j)
    (hbuf : RxLinked D j (w.rxCell D j).mem) (hfit : f.bytes.length ≤ 2048) :
    ∃ v, (w.deliver f).rxCell D j =
        ⟨{ (w.rxCell D j).mem with status := f.status }, v, (w.rxCell D j).dirty⟩ ∧
      (v = (w.rxCell D j).view ∨ v = { (w.rxCell D j).mem with status := f.status }) := by
  have hmem : descAt (D.rxChain j) (rxWritten w f) =
      { (w.rxCell D j).mem with status := f.status } := by
    have hdesc : descAt (D.rxChain j) (w.m.mem.writeBytes (D.rxBuf j) f.bytes) =
        (w.rxCell D j).mem := by
      apply descAt_congr
      rintro x ⟨hlo, hhi⟩
      apply Mem.writeBytes_outside
      simp only [Indev.rxChain, Indev.rxBuf] at *
      omega
    rw [rxWritten, dma_bufAddr hj hdma hbuf, hdma, descAt_write_status, hdesc]
  rcases CMem.cell_setMem (c := w.m) (local_descAt Indev.rxChain_aligned) (rxWritten w f) with
    ⟨v, hcell, hv⟩
  rw [hmem] at hcell hv
  exact ⟨v, hcell, hv⟩

theorem deliver_readBytes_of_ne (hj : j < 32) (hdma : w.rxDma = D.rxChain j)
    (hbuf : RxLinked D j (w.rxCell D j).mem) (hfit : f.bytes.length ≤ 2048) (hij : i ≠ j)
    {n : ℕ} (hn : n ≤ 2048) :
    (w.deliver f).m.mem.readBytes (D.rxBuf i) n = w.m.mem.readBytes (D.rxBuf i) n := by
  apply Mem.readBytes_congr
  rintro x ⟨hlo, hhi⟩
  apply rxWritten_outside hj hdma hbuf hfit <;> simp only [Indev.rxChain, Indev.rxBuf] at * <;> omega

theorem deliver_readBytes_self (hj : j < 32) (hdma : w.rxDma = D.rxChain j)
    (hbuf : RxLinked D j (w.rxCell D j).mem) :
    (w.deliver f).m.mem.readBytes (D.rxBuf j) f.bytes.length = f.bytes := by
  have hwrite : ∀ x, D.rxBuf j ≤ x →
      (w.deliver f).m.mem x = w.m.mem.writeBytes (D.rxBuf j) f.bytes x := by
    intro x hx
    show rxWritten w f x = _
    rw [rxWritten, dma_bufAddr hj hdma hbuf, hdma]
    apply Mem.write32_outside
    simp only [Indev.rxChain, Indev.rxBuf] at *
    omega
  rw [Mem.readBytes_congr fun x hx => hwrite x hx.1]
  exact Mem.readBytes_writeBytes _ _ _

theorem deliver_byte_of_ne (hj : j < 32) (hdma : w.rxDma = D.rxChain j)
    (hbuf : RxLinked D j (w.rxCell D j).mem) (hfit : f.bytes.length ≤ 2048) (hij : i ≠ j) {x : ℕ}
    (hlo : D.rxBuf i ≤ x) (hhi : x < D.rxBuf i + 2048) :
    (w.deliver f).m.mem x = w.m.mem x ∧ (w.deliver f).m.view x = w.m.view x := by
  have hcell : (w.deliver f).m.cell (x / 64) (fun m : Mem => m x) = w.m.cell (x / 64) fun m => m x := by
    apply CMem.cell_setMem_other (CMem.local_byte x)
    intro y hy
    rw [mem_lineSet] at hy
    have := D.aligned
    apply rxWritten_outside hj hdma hbuf hfit <;> simp only [Indev.rxChain, Indev.rxBuf] at * <;>
      omega
  exact ⟨congrArg Cell.mem hcell, congrArg Cell.view hcell⟩

end Deliver

/-! ## The ring under interference -/

theorem mod_ne_mod {h k n : ℕ} (hk : h ≤ k) (hk' : k < h + 32) (hn : h ≤ n) (hn' : n < h + 32)
    (hne : k ≠ n) : k % 32 ≠ n % 32 := by
  omega

theorem RxTail.noise (hr : RxTail D h w) (hn : World.Noise w w') : RxTail D h w' := by
  have hbyte : ∀ i x, i < 32 → D.rxBuf i ≤ x → x < D.rxBuf i + 2048 →
      w'.m.dirty (x / 64) = false ∧ w'.m.mem x = w.m.mem x := by
    intro i x hi hlo hhi
    rcases hn.byte (hr.clean i x hi hlo hhi) with ⟨hclean, hmem, -⟩
    exact ⟨hclean, hmem⟩
  have hdrift := fun i => hn.rxCell D i
  rcases hn with ⟨c, -, rfl⟩
  refine ⟨hr.low, hr.high, hr.dma, ?_, ?_, ?_, hr.frames⟩
  · intro k hlo hhi
    exact (hr.rest k hlo hhi).drift (hdrift _)
  · intro k f hk hf
    have hlen := (hr.frames f (List.mem_of_getElem? hf)).2
    simp only [CONFIG_ETH_RXSIZE] at hlen
    refine (Mem.readBytes_congr ?_).trans (hr.data k f hk hf)
    rintro x ⟨hlo, hhi⟩
    exact (hbyte _ x (Nat.mod_lt _ (by omega)) hlo (by omega)).2
  · intro i x hi hlo hhi
    exact (hbyte i x hi hlo hhi).1

theorem World.Noise.delivered (hn : World.Noise w w') : w'.delivered = w.delivered := by
  rcases hn with ⟨c, -, rfl⟩
  rfl

theorem RxRest.noise (hr : RxRest D h w) (hn : World.Noise w w')
    (hcur : (w'.rxCell D (h % 32)).mem = (w.rxCell D (h % 32)).mem) : RxRest D h w' := by
  refine ⟨hr.toRxTail.noise hn, ?_, ?_⟩
  · rw [hcur, hn.delivered]
    exact hr.held
  · rw [hcur]
    exact hr.linked

theorem RxRest.same (hr : RxRest D h w) (hs : RxSame D w w') : RxRest D h w' := by
  have hcell : ∀ k, w'.rxCell D (k % 32) = w.rxCell D (k % 32) :=
    fun k => hs.rxCell (Nat.mod_lt _ (by omega))
  refine ⟨⟨?_, ?_, ?_, ?_, ?_, ?_, ?_⟩, ?_, ?_⟩
  · rw [hs.delivered]
    exact hr.low
  · rw [hs.delivered]
    exact hr.high
  · rw [hs.rxDma, hs.delivered]
    exact hr.dma
  · intro k hlo hhi
    rw [hs.delivered, hcell]
    exact hr.rest k hlo hhi
  · intro k f hk hf
    rw [hs.delivered] at hf
    have hlen := (hr.frames f (List.mem_of_getElem? hf)).2
    simp only [CONFIG_ETH_RXSIZE] at hlen
    rw [hs.readBytes (Nat.mod_lt _ (by omega)) (by omega)]
    exact hr.data k f hk hf
  · intro i x hi hlo hhi
    rw [hs.dirty x (Indev.inRx_of_buf hi hlo hhi)]
    exact hr.clean i x hi hlo hhi
  · rw [hs.delivered]
    exact hr.frames
  · rw [hs.delivered, hcell]
    exact hr.held
  · rw [hcell]
    exact hr.linked

/-- A frame has been put into the descriptor that was waiting for it. -/
theorem RxSlot.fill {dl : List RxFrame} {c : Cell DmaDesc} {v : DmaDesc}
    (hc : RxSlot D dl k c) (hnone : dl[k]? = none) (hsome : (dl ++ [f])[k]? = some f)
    (hv : v = c.view ∨ v = { c.mem with status := f.status }) :
    RxSlot D (dl ++ [f]) k ⟨{ c.mem with status := f.status }, v, c.dirty⟩ := by
  refine ⟨⟨hc.cell.clean, hc.cell.mem, ?_, ?_⟩, ?_, ?_⟩
  · rcases hv with rfl | rfl
    · exact hc.cell.view
    · exact hc.cell.mem
  · rcases hv with rfl | rfl
    · -- The old copy shows the own bit, as the DMA has just used it.
      intro hclear
      have hold := hc.empty hnone
      rw [← hc.cell.coherent hclear] at hold
      exact absurd hold (by rw [hclear]; decide)
    · intro _
      rfl
  · intro g hg
    rw [hsome] at hg
    exact congrArg RxFrame.status (Option.some.inj hg)
  · intro hg
    rw [hsome] at hg
    exact absurd hg (by simp)

/-- Facts about a delivery into the ring: it goes to descriptor `n % 32`, where `n` frames have
been delivered before, and there is room for it. -/
theorem RxRest.room (hr : RxRest D h w) (hd : CanDeliver w f) :
    w.delivered.length < h + 32 := by
  have hle := hr.high
  by_contra hge
  have hn : w.delivered.length = h + 32 := by omega
  have hslot : w.rxDma = D.rxChain (h % 32) := by
    rw [hr.dma, hn]
    simp
  have hown : own (w.rxCell D (h % 32)).mem.status = true := by
    have := hd.owned
    rw [hslot] at this
    exact this
  rw [hr.held (by omega)] at hown
  exact absurd hown (by decide)

theorem RxRest.linked_dma (hr : RxRest D h w) (hroom : w.delivered.length < h + 32) :
    RxLinked D (w.delivered.length % 32) (w.rxCell D (w.delivered.length % 32)).mem := by
  rcases Nat.lt_or_eq_of_le hr.low with hlt | heq
  · exact (hr.rest _ hlt hroom).cell.mem
  · rw [← heq]
    exact hr.linked

theorem RxRest.deliver (hr : RxRest D h w) (hd : CanDeliver w f) : RxRest D h (w.deliver f) := by
  have hroom := hr.room hd
  have hfit : f.bytes.length ≤ 2048 := by
    have := hd.fits
    simp only [CONFIG_ETH_RXSIZE] at this
    omega
  have hj : w.delivered.length % 32 < 32 := Nat.mod_lt _ (by omega)
  have hlink := hr.linked_dma hroom
  have hlen : (w.deliver f).delivered.length = w.delivered.length + 1 := by
    simp [World.deliver]
  -- The DMA fills one descriptor; the others of the window are as they were.
  rcases deliver_rxCell_self hj hr.dma hlink hfit with ⟨v, hself, hv⟩
  have hother : ∀ k, h ≤ k → k < h + 32 → k ≠ w.delivered.length →
      (w.deliver f).rxCell D (k % 32) = w.rxCell D (k % 32) := by
    intro k hlo hhi hne
    exact deliver_rxCell_of_ne hj hr.dma hlink hfit (Nat.mod_lt _ (by omega))
      (mod_ne_mod hlo hhi hr.low hroom hne)
  refine ⟨⟨?_, ?_, ?_, ?_, ?_, ?_, ?_⟩, ?_, ?_⟩
  · have := hr.low
    omega
  · omega
  -- The DMA goes on to the descriptor that the filled one links to.
  · have hnext : (w.rxCell D (w.delivered.length % 32)).mem.next.toNat =
        D.rxChain ((w.delivered.length % 32 + 1) % 32) := by
      rw [hlink.2]
      exact Indev.toNat_rxChain (by omega)
    have hmod : (w.delivered.length % 32 + 1) % 32 = (w.delivered.length + 1) % 32 := by omega
    rw [hlen, ← hmod, ← hnext]
    show (descAt w.rxDma w.m.mem).next.toNat = _
    rw [hr.dma]
    rfl
  · intro k hlo hhi
    -- The frame that has arrived, and those before it.
    by_cases hk : k = w.delivered.length
    · subst hk
      rw [hself]
      exact (hr.rest _ hlo hhi).fill (by simp) (by simp) hv
    · rw [hother k (by omega) hhi hk]
      have hslot := hr.rest k hlo hhi
      have hget : (w.deliver f).delivered[k]? = w.delivered[k]? := getElem?_append_ne hk
      exact ⟨hslot.cell, hget ▸ hslot.full, hget ▸ hslot.empty⟩
  · intro k g hk hg
    by_cases hk' : k = w.delivered.length
    · subst hk'
      have hgf : g = f := by simpa [World.deliver] using hg.symm
      subst hgf
      exact deliver_readBytes_self hj hr.dma hlink
    · have hget : (w.deliver f).delivered[k]? = w.delivered[k]? := getElem?_append_ne hk'
      rw [hget] at hg
      have hlt : k < w.delivered.length := (List.getElem?_eq_some_iff.1 hg).1
      have hlen := (hr.frames g (List.mem_of_getElem? hg)).2
      simp only [CONFIG_ETH_RXSIZE] at hlen
      rw [deliver_readBytes_of_ne hj hr.dma hlink hfit
        (mod_ne_mod hk (by omega) hr.low hroom hk') (by omega)]
      exact hr.data k g hk hg
  · exact hr.clean
  · intro g hg
    rcases List.mem_append.1 hg with hg | hg
    · exact hr.frames g hg
    · rw [List.mem_singleton.1 hg]
      exact ⟨hd.released, hd.fits⟩
  · intro _
    rcases Nat.lt_or_eq_of_le hr.low with hlt | heq
    · rw [hother h le_rfl (by omega) (by omega)]
      exact hr.held hlt
    · rw [heq, hself]
      exact hd.released
  · rcases Nat.lt_or_eq_of_le hr.low with hlt | heq
    · rw [hother h le_rfl (by omega) (by omega)]
      exact hr.linked
    · rw [heq, hself]
      exact hlink

theorem RxRing.deliver (hr : RxRing D h w) (hd : CanDeliver w f) : RxRing D h (w.deliver f) := by
  refine ⟨hr.ring.deliver hd, ?_⟩
  have hroom := hr.ring.room hd
  have hfit : f.bytes.length ≤ 2048 := by
    have := hd.fits
    simp only [CONFIG_ETH_RXSIZE] at this
    omega
  have hj : w.delivered.length % 32 < 32 := Nat.mod_lt _ (by omega)
  have hlink := hr.ring.linked_dma hroom
  by_cases heq : h = w.delivered.length
  · subst heq
    rcases deliver_rxCell_self hj hr.ring.dma hlink hfit with ⟨v, hself, hv⟩
    rw [hself]
    exact hr.slot.fill (by simp) (by simp) hv
  · rw [deliver_rxCell_of_ne hj hr.ring.dma hlink hfit (Nat.mod_lt _ (by omega))
      (mod_ne_mod le_rfl (by omega) hr.ring.low hroom heq)]
    have hget : (w.deliver f).delivered[h]? = w.delivered[h]? := getElem?_append_ne heq
    exact ⟨hr.slot.cell, hget ▸ hr.slot.full, hget ▸ hr.slot.empty⟩

/-- The ring is a matter of memory and of the DMA alone. -/
theorem RxRing.of_eq (hr : RxRing D h w) (hm : w'.m = w.m) (hdma : w'.rxDma = w.rxDma)
    (hdl : w'.delivered = w.delivered) : RxRing D h w' := by
  rcases w with ⟨m, rxCur, txCur, rxDma, txDma, rxRun, txRun, dl, sent⟩
  rcases w' with ⟨m', rxCur', txCur', rxDma', txDma', rxRun', txRun', dl', sent'⟩
  cases hm
  cases hdma
  cases hdl
  rcases hr with ⟨⟨⟨hlow, hhigh, hdma, hrest, hdata, hclean, hframes⟩, hheld, hlinked⟩, hslot⟩
  exact ⟨⟨⟨hlow, hhigh, hdma, hrest, hdata, hclean, hframes⟩, hheld, hlinked⟩, hslot⟩

/-- Interference keeps the ring and what it has delivered. -/
theorem RxRing.env (hr : RxRing D h w) (he : RxEnv D w w') : RxRing D h w' := by
  cases he with
  | noise hn =>
      have hdrift := hn.rxCell D (h % 32)
      refine ⟨hr.ring.noise hn (hr.slot.cell.drift hdrift).2, ?_⟩
      rcases hn with ⟨c, -, rfl⟩
      exact hr.slot.drift hdrift
  | deliver f hd => exact hr.deliver hd
  | other hs =>
      refine ⟨hr.ring.same hs, ?_⟩
      rw [hs.delivered, hs.rxCell (Nat.mod_lt _ (by omega))]
      exact hr.slot

theorem RxEnv.rxCur (he : RxEnv D w w') : w'.rxCur = w.rxCur := by
  cases he with
  | noise hn =>
      rcases hn with ⟨c, -, rfl⟩
      rfl
  | deliver f hd => rfl
  | other hs => exact hs.rxCur

theorem RxEnv.delivered (he : RxEnv D w w') : w.delivered <+: w'.delivered := by
  cases he with
  | noise hn =>
      rcases hn with ⟨c, -, rfl⟩
      exact List.prefix_rfl
  | deliver f hd => exact List.prefix_append _ _
  | other hs => exact hs.delivered ▸ List.prefix_rfl

theorem RxEnv.getElem? (he : RxEnv D w w') (hf : w.delivered[k]? = some f) :
    w'.delivered[k]? = some f := by
  rcases he.delivered with ⟨l, hl⟩
  rw [← hl, List.getElem?_append_left (List.getElem?_eq_some_iff.1 hf).1]
  exact hf

theorem RxIdle.env (hr : RxIdle D h w) (he : RxEnv D w w') : RxIdle D h w' :=
  ⟨hr.ring.env he, he.rxCur ▸ hr.cur⟩

/-- The descriptor of a frame not yet handed up is left alone, but for refreshed copies. -/
theorem RxRing.env_cell (hr : RxRing D h w) (he : RxEnv D w w')
    (hf : w.delivered[h]? = some f) :
    (w.rxCell D (h % 32)).Drift (w'.rxCell D (h % 32)) := by
  have hlt : h < w.delivered.length := (List.getElem?_eq_some_iff.1 hf).1
  cases he with
  | noise hn => exact hn.rxCell D _
  | deliver g hd =>
      have hfit : g.bytes.length ≤ 2048 := by
        have := hd.fits
        simp only [CONFIG_ETH_RXSIZE] at this
        omega
      have hroom := hr.ring.room hd
      rw [deliver_rxCell_of_ne (Nat.mod_lt _ (by omega)) hr.ring.dma (hr.ring.linked_dma hroom) hfit
        (Nat.mod_lt _ (by omega)) (mod_ne_mod le_rfl (by omega) hr.ring.low hroom (by omega))]
      exact .same _
  | other hs =>
      rw [hs.rxCell (Nat.mod_lt _ (by omega))]
      exact .same _

/-- So is its buffer. -/
theorem RxRing.env_byte (hr : RxRing D h w) (he : RxEnv D w w') (hf : w.delivered[h]? = some f)
    {x : ℕ} (hlo : D.rxBuf (h % 32) ≤ x) (hhi : x < D.rxBuf (h % 32) + 2048) :
    w'.m.mem x = w.m.mem x ∧ (w'.m.view x = w.m.view x ∨ w'.m.view x = w.m.mem x) := by
  have hlt : h < w.delivered.length := (List.getElem?_eq_some_iff.1 hf).1
  have hmod : h % 32 < 32 := Nat.mod_lt _ (by omega)
  cases he with
  | noise hn => exact (hn.byte (hr.ring.clean _ x hmod hlo hhi)).2
  | deliver g hd =>
      have hfit : g.bytes.length ≤ 2048 := by
        have := hd.fits
        simp only [CONFIG_ETH_RXSIZE] at this
        omega
      have hroom := hr.ring.room hd
      have hbyte := deliver_byte_of_ne (Nat.mod_lt _ (by omega)) hr.ring.dma
        (hr.ring.linked_dma hroom) hfit
        (mod_ne_mod le_rfl (by omega) hr.ring.low hroom (by omega)) hlo hhi
      exact ⟨hbyte.1, .inl hbyte.2⟩
  | other hs =>
      have hin := Indev.inRx_of_buf hmod hlo hhi
      exact ⟨hs.mem x hin, .inl (hs.view x hin)⟩

/-! ## The phases of a call -/

/-- The call has seen that the oldest descriptor holds frame `f`. -/
structure RxFound (D : Indev) (h : ℕ) (f : RxFrame) (w : World) : Prop where
  idle : RxIdle D h w
  frame : w.delivered[h]? = some f
  seen : (w.rxCell D (h % 32)).view.status = f.status

/-- Besides, the processor sees the first `n` bytes of the frame's buffer as they are in memory. -/
structure RxRead (D : Indev) (h : ℕ) (f : RxFrame) (n : ℕ) (w : World) : Prop where
  found : RxFound D h f w
  bytes : ∀ x, D.rxBuf (h % 32) ≤ x → x < D.rxBuf (h % 32) + min n 2048 →
    w.m.view x = w.m.mem x

/-- The own bit of the oldest descriptor has been set again, but not yet in memory. -/
structure RxFreeing (D : Indev) (h : ℕ) (w : World) : Prop where
  rest : RxRest D h w
  low : h < w.delivered.length
  dirty : (w.rxCell D (h % 32)).dirty = true
  linked : RxLinked D (h % 32) (w.rxCell D (h % 32)).view
  owned : own (w.rxCell D (h % 32)).view.status = true

/-- The oldest descriptor has been given back, or will be when its line is written back. -/
structure RxFreed (D : Indev) (h : ℕ) (f : RxFrame) (w : World) : Prop where
  state : RxFreeing D h w ∨ RxRing D (h + 1) w
  cur : w.rxCur.toNat = h % 32
  frame : w.delivered[h]? = some f

/-- The ring moves on when the oldest descriptor belongs to the DMA again. -/
theorem RxTail.advance (hr : RxTail D h w) (hlt : h < w.delivered.length)
    (hc : RxCell D (h % 32) (w.rxCell D (h % 32)))
    (hown : own (w.rxCell D (h % 32)).mem.status = true) : RxRing D (h + 1) w := by
  have hnext : RxSlot D w.delivered (h + 1) (w.rxCell D ((h + 1) % 32)) :=
    hr.rest (h + 1) (by omega) (by omega)
  refine ⟨⟨⟨hlt, ?_, hr.dma, ?_, ?_, hr.clean, hr.frames⟩, ?_, hnext.cell.mem⟩, hnext⟩
  · have := hr.high
    omega
  · intro k hlo hhi
    -- The slot at the end of the new window is the one just freed.
    by_cases hk : k < h + 32
    · exact hr.rest k (by omega) hk
    · have hk' : k = h + 32 := by omega
      have hmod : k % 32 = h % 32 := by omega
      have hnone : w.delivered[k]? = none := by
        have := hr.high
        exact List.getElem?_eq_none (by omega)
      refine ⟨hmod ▸ hc, ?_, ?_⟩
      · intro f hf
        rw [hnone] at hf
        exact absurd hf (by simp)
      · intro _
        rw [hmod]
        exact hown
  · intro k f hk hf
    exact hr.data k f (by omega) hf
  · intro hlt'
    have hget := List.getElem?_eq_getElem hlt'
    rw [hnext.full _ hget]
    exact (hr.frames _ (List.mem_of_getElem? hget)).1

theorem RxFreeing.noise (hr : RxFreeing D h w) (hn : World.Noise w w') :
    RxFreeing D h w' ∨ RxRing D (h + 1) w' := by
  have hdrift := hn.rxCell D (h % 32)
  have hdl := hn.delivered
  have hdirty := hr.dirty
  have hlinked := hr.linked
  have howned := hr.owned
  generalize hc : w.rxCell D (h % 32) = c at hdrift hdirty hlinked howned
  generalize hc' : w'.rxCell D (h % 32) = c' at hdrift
  cases hdrift with
  | same =>
      left
      refine ⟨hr.rest.noise hn (by rw [hc, hc']), hdl ▸ hr.low, ?_, ?_, ?_⟩
      · exact hc' ▸ hdirty
      · exact hc' ▸ hlinked
      · exact hc' ▸ howned
  | refresh m v => exact absurd hdirty (by simp)
  | writeBack m v =>
      right
      refine (hr.rest.toRxTail.noise hn).advance (hdl ▸ hr.low) ?_ ?_
      · rw [hc']
        exact ⟨rfl, hlinked, hlinked, fun _ => rfl⟩
      · rw [hc']
        exact howned

theorem RxFreeing.env (hr : RxFreeing D h w) (he : RxEnv D w w') :
    RxFreeing D h w' ∨ RxRing D (h + 1) w' := by
  cases he with
  | noise hn => exact hr.noise hn
  | deliver f hd =>
      left
      have hfit : f.bytes.length ≤ 2048 := by
        have := hd.fits
        simp only [CONFIG_ETH_RXSIZE] at this
        omega
      have hroom := hr.rest.room hd
      have hcell := deliver_rxCell_of_ne (Nat.mod_lt _ (by omega)) hr.rest.dma
        (hr.rest.linked_dma hroom) hfit (Nat.mod_lt _ (by omega))
        (mod_ne_mod le_rfl (by omega) hr.rest.low hroom (by have := hr.low; omega))
      refine ⟨hr.rest.deliver hd, ?_, hcell ▸ hr.dirty, hcell ▸ hr.linked, hcell ▸ hr.owned⟩
      have := hr.low
      simp only [World.deliver, List.length_append, List.length_singleton]
      omega
  | other hs =>
      left
      have hcell := hs.rxCell (i := h % 32) (Nat.mod_lt _ (by omega))
      exact ⟨hr.rest.same hs, hs.delivered ▸ hr.low, hcell ▸ hr.dirty, hcell ▸ hr.linked,
        hcell ▸ hr.owned⟩

/-! ## What a call of `_emac_rx` may rely on and what it guarantees -/

def rxRely (D : Indev) : Prog.Rely Op World :=
  fun _ => RxEnv D

/-- What an access of `_emac_rx` in state `w` is like: a status word seen with the own bit clear
is that of frame `h`, and it and the bytes of a frame are as they are in memory; the only store sets
an own bit; a line is discarded only when it is a clean line of the ring, or when the length of a
delivered frame reaches beyond its buffer. -/
def rxAccess (D : Indev) (h : ℕ) : Prog.Sem Op Op.Ret World
  | .load a, w, r, _ => ∀ i < 32, a = D.rxChain i → own r = false →
      r = w.m.mem.read32 a ∧ ∃ f, w.delivered[h]? = some f ∧ r = f.status
  | .load8 a, w, r, _ => D.rxBuf 0 ≤ a → r = w.m.mem a
  | .store a v, _, _, _ => (∃ i < 32, a = D.rxChain i) ∧ own v = true
  | .dcimvac a, w, _, _ =>
      (∃ x, D.InRx x ∧ x / 64 = a / 64) ∧ w.m.dirty (a / 64) = false ∨
        ∃ f ∈ w.delivered, 2048 < rxLength f.status
  | .setRxCurrdescnum v, _, _, _ => v.toNat < 32
  | .store8 _ _, _, _, _ => False
  | .setTxCurrdescnum _, _, _, _ => False
  | .writel _ _, _, _, _ => False
  | _, _, _, _ => True

/-- During a call the index still designates the descriptor of the frame in hand. -/
structure RxBusy (D : Indev) (h : ℕ) (w : World) : Prop where
  cur : w.rxCur.toNat = h % 32
  low : h ≤ w.delivered.length
  dma : w.rxDma = D.rxChain (w.delivered.length % 32)
  target : ∀ f, CanDeliver w f →
    RxLinked D (w.delivered.length % 32) (w.rxCell D (w.delivered.length % 32)).mem

theorem RxIdle.busy (hr : RxIdle D h w) : RxBusy D h w :=
  ⟨hr.cur, hr.ring.ring.low, hr.ring.ring.dma,
    fun _ hd => hr.ring.ring.linked_dma (hr.ring.ring.room hd)⟩

theorem RxFreed.busy (hr : RxFreed D h f w) : RxBusy D h w := by
  have hlow := (List.getElem?_eq_some_iff.1 hr.frame).1.le
  rcases hr.state with hs | hs
  · exact ⟨hr.cur, hlow, hs.rest.dma, fun _ hd => hs.rest.linked_dma (hs.rest.room hd)⟩
  · exact ⟨hr.cur, hlow, hs.ring.dma, fun _ hd => hs.ring.linked_dma (hs.ring.room hd)⟩

def rxGuarantee (D : Indev) (h : ℕ) : Prog.Sem Op Op.Ret World :=
  fun o w r w' => RxBusy D h w ∧ rxAccess D h o w r w'

theorem noisy_rxRely : Noisy (rxRely D) :=
  fun _ _ _ hn => .noise hn

theorem steady_rxIdle : Steady (rxRely D) (RxIdle D h) :=
  fun _ _ _ hr he => hr.env he

theorem RxFound.env (hr : RxFound D h f w) (he : RxEnv D w w') : RxFound D h f w' := by
  refine ⟨hr.idle.env he, he.getElem? hr.frame, ?_⟩
  have hdrift := hr.idle.ring.env_cell he hr.frame
  rcases (hdrift.of_clean hr.idle.ring.slot.cell.clean).2.2 with hv | hv
  · rw [hv]
    exact hr.seen
  · rw [hv]
    exact hr.idle.ring.slot.full f hr.frame

theorem RxRead.env {n : ℕ} (hr : RxRead D h f n w) (he : RxEnv D w w') : RxRead D h f n w' := by
  refine ⟨hr.found.env he, ?_⟩
  intro x hlo hhi
  have hbyte := hr.found.idle.ring.env_byte he hr.found.frame hlo (by omega)
  rcases hbyte.2 with hv | hv
  · rw [hv, hbyte.1]
    exact hr.bytes x hlo hhi
  · rw [hv, hbyte.1]

theorem RxFreed.env (hr : RxFreed D h f w) (he : RxEnv D w w') : RxFreed D h f w' := by
  refine ⟨?_, he.rxCur ▸ hr.cur, he.getElem? hr.frame⟩
  rcases hr.state with hs | hs
  · exact hs.env he
  · exact .inr (hs.env he)

theorem steady_rxFound : Steady (rxRely D) (RxFound D h f) :=
  fun _ _ _ hr he => hr.env he

theorem steady_rxRead {n : ℕ} : Steady (rxRely D) (RxRead D h f n) :=
  fun _ _ _ hr he => hr.env he

theorem steady_rxFreed : Steady (rxRely D) (RxFreed D h f) :=
  fun _ _ _ hr he => hr.env he

theorem steady_delivered {dl : List RxFrame} :
    Steady (rxRely D) fun w => dl <+: w.delivered :=
  fun _ _ _ hr he => hr.trans (RxEnv.delivered he)

end Emac

end BspV3s
