import BspV3s.Lib.Cache
import Mathlib.Tactic.NormNum

/-!
# Layout — the descriptor rings and buffers of the Ethernet controller

`struct emac_eth_dev` begins with two chains of 32 descriptors, each descriptor padded to a cache
line, followed by the 32 receive and the 32 transmit buffers of 2048 bytes.  The one instance
`indev` is a static object, so its address is the only parameter.
-/

namespace BspV3s

namespace Emac

abbrev U32 : Type := BitVec 32

/-- `ARCH_DMA_MINALIGN`. -/
def ARCH_DMA_MINALIGN : ℕ := 64

def CONFIG_TX_DESCR_NUM : ℕ := 32

def CONFIG_RX_DESCR_NUM : ℕ := 32

def CONFIG_ETH_BUFSIZE : ℕ := 2048

def CONFIG_ETH_RXSIZE : ℕ := 2044

def TX_TOTAL_BUFSIZE : ℕ := CONFIG_ETH_BUFSIZE * CONFIG_TX_DESCR_NUM

def RX_TOTAL_BUFSIZE : ℕ := CONFIG_ETH_BUFSIZE * CONFIG_RX_DESCR_NUM

/-- `struct emac_dma_desc`. -/
@[ext]
structure DmaDesc where
  status : U32
  st : U32
  bufAddr : U32
  next : U32
  deriving DecidableEq

/-- The descriptor stored at address `d`. -/
def descAt (d : ℕ) (m : Mem) : DmaDesc where
  status := m.read32 d
  st := m.read32 (d + 4)
  bufAddr := m.read32 (d + 8)
  next := m.read32 (d + 12)

/-- Where the static object `indev` lies. -/
structure Indev where
  base : ℕ
  aligned : base % 64 = 0
  fits : base + 135168 ≤ 2 ^ 32

/-! ## Addresses -/

namespace Indev

/-- `indev` at the start of the board's memory. -/
def sdram : Indev where
  base := 0x40000000
  aligned := by norm_num
  fits := by norm_num

variable (D : Indev)

def rxChain (i : ℕ) : ℕ := D.base + 64 * i

def txChain (i : ℕ) : ℕ := D.base + 2048 + 64 * i

/-- `&priv->rxbuffer[i * CONFIG_ETH_BUFSIZE]`. -/
def rxBuf (i : ℕ) : ℕ := D.base + 4096 + 2048 * i

/-- `&priv->txbuffer[i * CONFIG_ETH_BUFSIZE]`. -/
def txBuf (i : ℕ) : ℕ := D.base + 69632 + 2048 * i

/-- The bytes of the receive chain and of the receive buffers. -/
def InRx (x : ℕ) : Prop :=
  D.rxChain 0 ≤ x ∧ x < D.rxChain 32 ∨ D.rxBuf 0 ≤ x ∧ x < D.rxBuf 32

/-- The bytes of the transmit chain and of the transmit buffers. -/
def InTx (x : ℕ) : Prop :=
  D.txChain 0 ≤ x ∧ x < D.txChain 32 ∨ D.txBuf 0 ≤ x ∧ x < D.txBuf 32

variable {D} {i : ℕ}

theorem rxChain_aligned : D.rxChain i % 64 = 0 := by
  have := D.aligned
  simp only [rxChain]
  omega

theorem txChain_aligned : D.txChain i % 64 = 0 := by
  have := D.aligned
  simp only [txChain]
  omega

theorem rxBuf_aligned : D.rxBuf i % 64 = 0 := by
  have := D.aligned
  simp only [rxBuf]
  omega

theorem txBuf_aligned : D.txBuf i % 64 = 0 := by
  have := D.aligned
  simp only [txBuf]
  omega

theorem toNat_rxChain (hi : i ≤ 32) : (BitVec.ofNat 32 (D.rxChain i)).toNat = D.rxChain i := by
  have := D.fits
  simp only [rxChain, BitVec.toNat_ofNat]
  omega

theorem toNat_txChain (hi : i ≤ 32) : (BitVec.ofNat 32 (D.txChain i)).toNat = D.txChain i := by
  have := D.fits
  simp only [txChain, BitVec.toNat_ofNat]
  omega

theorem toNat_rxBuf (hi : i < 32) : (BitVec.ofNat 32 (D.rxBuf i)).toNat = D.rxBuf i := by
  have := D.fits
  simp only [rxBuf, BitVec.toNat_ofNat]
  omega

theorem toNat_txBuf (hi : i < 32) : (BitVec.ofNat 32 (D.txBuf i)).toNat = D.txBuf i := by
  have := D.fits
  simp only [txBuf, BitVec.toNat_ofNat]
  omega

theorem inRx_of_line {x : ℕ} (hi : i < 32) (hx : x / 64 = D.rxChain i / 64) : D.InRx x := by
  have := D.aligned
  simp only [InRx, rxChain, rxBuf] at *
  omega

theorem inTx_of_line {x : ℕ} (hi : i < 32) (hx : x / 64 = D.txChain i / 64) : D.InTx x := by
  have := D.aligned
  simp only [InTx, txChain, txBuf] at *
  omega

theorem inRx_of_buf {x : ℕ} (hi : i < 32) (hlo : D.rxBuf i ≤ x) (hhi : x < D.rxBuf i + 2048) :
    D.InRx x := by
  simp only [InRx, rxChain, rxBuf] at *
  omega

theorem inTx_of_buf {x : ℕ} (hi : i < 32) (hlo : D.txBuf i ≤ x) (hhi : x < D.txBuf i + 2048) :
    D.InTx x := by
  simp only [InTx, txChain, txBuf] at *
  omega

end Indev

/-! ## Descriptors and lines -/

theorem local_read32 {a : ℕ} (ha : a % 4 = 0) {d : ℕ} (hd : a / 64 = d / 64) :
    CMem.Local (d / 64) fun m : Mem => m.read32 a := by
  intro m m' h
  apply Mem.read32_congr
  intro x hx
  rcases hx with ⟨hlo, hhi⟩
  apply h
  rw [mem_lineSet]
  omega

theorem local_descAt {d : ℕ} (hd : d % 64 = 0) : CMem.Local (d / 64) (descAt d) := by
  intro m m' h
  have h₀ := local_read32 (a := d) (d := d) (by omega) (by omega) m m' h
  have h₁ := local_read32 (a := d + 4) (d := d) (by omega) (by omega) m m' h
  have h₂ := local_read32 (a := d + 8) (d := d) (by omega) (by omega) m m' h
  have h₃ := local_read32 (a := d + 12) (d := d) (by omega) (by omega) m m' h
  simp only [descAt, h₀, h₁, h₂, h₃]

theorem descAt_congr {d : ℕ} {m m' : Mem} (h : Set.EqOn m m' (Set.Ico d (d + 16))) :
    descAt d m = descAt d m' := by
  have hword : ∀ k, k ≤ 12 → m.read32 (d + k) = m'.read32 (d + k) := by
    intro k hk
    apply Mem.read32_congr
    intro x hx
    rcases hx with ⟨hlo, hhi⟩
    exact h ⟨by omega, by omega⟩
  simp only [descAt, hword 4 (by omega), hword 8 (by omega), hword 12 (by omega)]
  have h₀ := hword 0 (by omega)
  rw [Nat.add_zero] at h₀
  rw [h₀]

@[simp] theorem descAt_write_status (m : Mem) (d : ℕ) (v : U32) :
    descAt d (m.write32 d v) = { descAt d m with status := v } := by
  simp [descAt, Mem.read32_write32_of_disjoint]

@[simp] theorem descAt_write_st (m : Mem) (d : ℕ) (v : U32) :
    descAt d (m.write32 (d + 4) v) = { descAt d m with st := v } := by
  simp [descAt, Mem.read32_write32_of_disjoint]

@[simp] theorem descAt_write_bufAddr (m : Mem) (d : ℕ) (v : U32) :
    descAt d (m.write32 (d + 8) v) = { descAt d m with bufAddr := v } := by
  simp [descAt, Mem.read32_write32_of_disjoint]

@[simp] theorem descAt_write_next (m : Mem) (d : ℕ) (v : U32) :
    descAt d (m.write32 (d + 12) v) = { descAt d m with next := v } := by
  simp [descAt, Mem.read32_write32_of_disjoint]

/-- `BIT(31)` of a status word: the descriptor belongs to the DMA. -/
def own (w : U32) : Bool := w.getLsbD 31

/-- The 14-bit length field of a receive status word. -/
def rxLength (w : U32) : ℕ := ((w >>> 16) &&& 0x3FFF#32).toNat

/-- `BIT(30)` and `BIT(29)`: last and first segment of a frame. -/
def firstLast (st : U32) : Bool := st.getLsbD 30 && st.getLsbD 29

/-- The 11-bit length field of a transmit descriptor. -/
def txLength (st : U32) : ℕ := (st &&& 0x7FF#32).toNat

/-- `BIT(n)`. -/
def bit (n : ℕ) : U32 := 1#32 <<< n

theorem own_bit31 : own (bit 31) = true := by decide

theorem own_or_bit31 (w : U32) : own (w ||| bit 31) = true := by
  have h : (bit 31).getLsbD 31 = true := by decide
  simp [own, h]

end Emac

end BspV3s
