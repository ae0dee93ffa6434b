import BspV3s.Lib.Program
import BspV3s.Emac.Layout

/-!
# Driver — the sun8i Ethernet driver and its RT-Thread glue

The routines of the driver as programs over their accesses: words and bytes of memory, the two
ring indices, cache maintenance by line, the controller's registers, the PHY's registers, and the
calls into the rest of the system that matter here.

The driver's data structures are loads and stores; a pbuf is the list of its segments, and a
segment is the list of its bytes.
-/

namespace BspV3s

namespace Emac

/-! ## Accesses -/

/-- The registers of the controller that the driver uses. -/
inductive Reg
  | ctl0
  | ctl1
  | intSta
  | intEn
  | txCtl0
  | txCtl1
  | txDmaDesc
  | rxCtl0
  | rxCtl1
  | rxDmaDesc
  | addr0High
  | addr0Low
  deriving DecidableEq, Repr

/-- The registers of the PHY that the driver uses. -/
inductive PhyReg
  | bmcr
  | bmsr
  | advertise
  | lpa
  | ctrl1000
  | stat1000
  | estatus
  deriving DecidableEq, Repr

inductive Op
  | load (a : ℕ)
  | store (a : ℕ) (v : U32)
  | load8 (a : ℕ)
  | store8 (a : ℕ) (b : Byte)
  /-- Clean and invalidate a line of the data cache. -/
  | dccimvac (mva : ℕ)
  /-- Invalidate a line of the data cache. -/
  | dcimvac (mva : ℕ)
  | rxCurrdescnum
  | setRxCurrdescnum (v : U32)
  | txCurrdescnum
  | setTxCurrdescnum (v : U32)
  | readl (r : Reg)
  | writel (r : Reg) (v : U32)
  /-- `bus->read`: the register's value, or a negative number after a timeout. -/
  | phyRead (r : PhyReg)
  /-- `pbuf_alloc`: nothing, or the lengths of the segments of the new pbuf. -/
  | pbufAlloc (length : ℕ)
  | linkchange (up : ℤ)
  | threadDelay
  deriving DecidableEq, Repr

abbrev Op.Ret : Op → Type
  | .load _ => U32
  | .load8 _ => Byte
  | .rxCurrdescnum => U32
  | .txCurrdescnum => U32
  | .readl _ => U32
  | .phyRead _ => U32
  | .pbufAlloc _ => Option (List ℕ)
  | _ => Unit

abbrev EmacM := Prog Op Op.Ret

abbrev Pbuf : Type := List (List Byte)

def load (a : ℕ) : EmacM U32 := Prog.op (Op.load a)
def store (a : ℕ) (v : U32) : EmacM Unit := Prog.op (Op.store a v)
def load8 (a : ℕ) : EmacM Byte := Prog.op (Op.load8 a)
def store8 (a : ℕ) (b : Byte) : EmacM Unit := Prog.op (Op.store8 a b)
def dccimvac (mva : ℕ) : EmacM Unit := Prog.op (Op.dccimvac mva)
def dcimvac (mva : ℕ) : EmacM Unit := Prog.op (Op.dcimvac mva)
def rxCurrdescnum : EmacM U32 := Prog.op Op.rxCurrdescnum
def setRxCurrdescnum (v : U32) : EmacM Unit := Prog.op (Op.setRxCurrdescnum v)
def txCurrdescnum : EmacM U32 := Prog.op Op.txCurrdescnum
def setTxCurrdescnum (v : U32) : EmacM Unit := Prog.op (Op.setTxCurrdescnum v)
def readl (r : Reg) : EmacM U32 := Prog.op (Op.readl r)
def writel (r : Reg) (v : U32) : EmacM Unit := Prog.op (Op.writel r v)
def phyRead (r : PhyReg) : EmacM U32 := Prog.op (Op.phyRead r)
def pbufAlloc (length : ℕ) : EmacM (Option (List ℕ)) := Prog.op (Op.pbufAlloc length)
def ethDeviceLinkchange (up : ℤ) : EmacM Unit := Prog.op (Op.linkchange up)
def rtThreadDelay : EmacM Unit := Prog.op Op.threadDelay

/-- The error codes are the C library's; the driver only looks at their sign. -/
def EAGAIN : ℤ := 11

def EMSGSIZE : ℤ := 90

def roundup (x y : ℕ) : ℕ := (x + (y - 1)) / y * y

def rounddown (x y : ℕ) : ℕ := x - x % y

/-! ## Cache maintenance -/

/-- The number of lines that `for (mva = start; mva < stop; mva += line_len)` visits. -/
def lineCount (start stop : ℕ) : ℕ :=
  (stop - start + 63) / 64

def eachLine (f : ℕ → EmacM Unit) : ℕ → ℕ → EmacM Unit
  | _, 0 => pure ()
  | mva, n + 1 => do
      f mva
      eachLine f (mva + 64) n

/-- `check_cache_range`; the warning it prints is left out. -/
def checkCacheRange (start stop : ℕ) : Bool :=
  start % 64 = 0 && stop % 64 = 0

def flushDcacheRange (start stop : ℕ) : EmacM Unit :=
  eachLine dccimvac (start - start % 64) (lineCount (start - start % 64) stop)

def invalidateDcacheRange (start stop : ℕ) : EmacM Unit :=
  if checkCacheRange start stop then eachLine dcimvac start (lineCount start stop) else pure ()

theorem flushDcacheRange_line {a : ℕ} (ha : a % 64 = 0) :
    flushDcacheRange a (a + 64) = (do dccimvac a; pure ()) := by
  have hcount : lineCount a (a + 64) = 1 := by
    unfold lineCount
    omega
  rw [flushDcacheRange, ha, Nat.sub_zero, hcount]
  rfl

theorem invalidateDcacheRange_line {a : ℕ} (ha : a % 64 = 0) :
    invalidateDcacheRange a (a + 64) = (do dcimvac a; pure ()) := by
  have hcount : lineCount a (a + 64) = 1 := by
    unfold lineCount
    omega
  have hcheck : checkCacheRange a (a + 64) = true := by
    simp [checkCacheRange, ha]
  rw [invalidateDcacheRange, hcheck, hcount]
  rfl

theorem flushDcacheRange_lines {a : ℕ} (n : ℕ) (ha : a % 64 = 0) :
    flushDcacheRange a (a + 64 * n) = eachLine dccimvac a n := by
  have hcount : lineCount a (a + 64 * n) = n := by
    unfold lineCount
    omega
  rw [flushDcacheRange, ha, Nat.sub_zero, hcount]

theorem flushDcacheRange_buffer {a len : ℕ} (ha : a % 64 = 0) :
    flushDcacheRange a (a + roundup len ARCH_DMA_MINALIGN) =
      eachLine dccimvac a ((len + 63) / 64) := by
  have hcount : lineCount a (a + roundup len ARCH_DMA_MINALIGN) = (len + 63) / 64 := by
    simp only [lineCount, roundup, ARCH_DMA_MINALIGN]
    omega
  rw [flushDcacheRange, ha, Nat.sub_zero, hcount]

/-- The lines that hold `len` bytes of a buffer that starts on a line. -/
theorem invalidateDcacheRange_buffer {a len : ℕ} (ha : a % 64 = 0) :
    invalidateDcacheRange (rounddown a ARCH_DMA_MINALIGN) (roundup (a + len) ARCH_DMA_MINALIGN) =
      eachLine dcimvac a ((len + 63) / 64) := by
  have hstart : rounddown a ARCH_DMA_MINALIGN = a := by
    simp only [rounddown, ARCH_DMA_MINALIGN]
    omega
  have hcheck : checkCacheRange a (roundup (a + len) ARCH_DMA_MINALIGN) = true := by
    simp [checkCacheRange, roundup, ARCH_DMA_MINALIGN, ha]
  have hcount : lineCount a (roundup (a + len) ARCH_DMA_MINALIGN) = (len + 63) / 64 := by
    simp only [lineCount, roundup, ARCH_DMA_MINALIGN]
    omega
  rw [hstart, invalidateDcacheRange, hcheck, if_pos rfl, hcount]

/-! ## Reception -/

/-- The branch of `_sun8i_eth_recv` for a descriptor whose own bit is clear. -/
def recvReleased (descP dataStart : ℕ) : EmacM (ℤ × ℕ) := do
  let status ← load descP
  let length := rxLength status
  invalidateDcacheRange (rounddown dataStart ARCH_DMA_MINALIGN)
    (roundup (dataStart + length) ARCH_DMA_MINALIGN)
  -- A runt is reported with its length, but without setting `*packetp`.
  if length < 0x40 then
    pure (length, 0)
  else if CONFIG_ETH_RXSIZE < length then
    pure (-EMSGSIZE, 0)
  else do
    let bufAddr ← load (descP + 8)
    pure (length, bufAddr.toNat)

/-- `_sun8i_eth_recv`: the length or an error, and the value left in `*packetp`, which the caller
has set to `NULL`. -/
def sun8iEthRecv (D : Indev) : EmacM (ℤ × ℕ) := do
  let descNum ← rxCurrdescnum
  let descP := D.rxChain descNum.toNat
  let dataStart ← load (descP + 8)
  invalidateDcacheRange descP (descP + roundup 16 ARCH_DMA_MINALIGN)
  let status ← load descP
  if own status then pure (-EAGAIN, 0) else recvReleased descP dataStart.toNat

/-- `if (++desc_num >= CONFIG_RX_DESCR_NUM) desc_num = 0`. -/
def nextDescNum (descNum : U32) : U32 :=
  if 32#32 ≤ descNum + 1#32 then 0#32 else descNum + 1#32

theorem nextDescNum_toNat {h : ℕ} {v : U32} (hv : v.toNat = h % 32) :
    (nextDescNum v).toNat = (h + 1) % 32 := by
  have hadd : (v + 1#32).toNat = h % 32 + 1 := by
    rw [BitVec.toNat_add, hv]
    show (h % 32 + 1) % 2 ^ 32 = h % 32 + 1
    omega
  have hbound : (32#32).toNat = 32 := rfl
  unfold nextDescNum
  by_cases hge : 32#32 ≤ v + 1#32
  · rw [if_pos hge]
    rw [BitVec.le_def, hadd, hbound] at hge
    show 0 = (h + 1) % 32
    omega
  · rw [if_neg hge, hadd]
    rw [BitVec.le_def, hadd, hbound] at hge
    omega

def sun8iFreePkt (D : Indev) : EmacM Unit := do
  let descNum ← rxCurrdescnum
  let descP := D.rxChain descNum.toNat
  let status ← load descP
  store descP (status ||| bit 31)
  flushDcacheRange descP (descP + roundup 4 ARCH_DMA_MINALIGN)
  setRxCurrdescnum (nextDescNum descNum)

/-- `memcpy` out of the frame. -/
def copyOut : ℕ → ℕ → EmacM (List Byte)
  | _, 0 => pure []
  | a, n + 1 => do
      let b ← load8 a
      let bs ← copyOut (a + 1) n
      pure (b :: bs)

/-- The loop over the segments of the new pbuf. -/
def copyPbuf : ℕ → List ℕ → EmacM Pbuf
  | _, [] => pure []
  | framepack, len :: lens => do
      let payload ← copyOut framepack len
      let rest ← copyPbuf (framepack + len) lens
      pure (payload :: rest)

def emacRx (D : Indev) : EmacM (Option Pbuf) := do
  let recv ← sun8iEthRecv D
  if recv.1 ≤ 0 then
    pure none
  else do
    let p ← pbufAlloc recv.1.toNat
    match p with
    | none => pure none
    | some lens => do
        let p ← copyPbuf recv.2 lens
        sun8iFreePkt D
        pure (some p)

/-! ## Transmission -/

/-- `memcpy` into the transmit buffer. -/
def copyIn : ℕ → List Byte → EmacM Unit
  | _, [] => pure ()
  | a, b :: bs => do
      store8 a b
      copyIn (a + 1) bs

/-- A bit set in a word of memory. -/
def setBit (a : ℕ) (b : U32) : EmacM Unit := do
  let v ← load a
  store a (v ||| b)

/-- `_sun8i_emac_eth_send` of a segment that is not the last. -/
def sendFragment (D : Indev) (packet : List Byte) (offs : ℕ) : EmacM Unit := do
  let descNum ← txCurrdescnum
  let bufAddr ← load (D.txChain descNum.toNat + 8)
  copyIn (bufAddr.toNat + (offs &&& 0xffff)) packet

/-- `_sun8i_emac_eth_send` of the last segment: the descriptor is handed to the DMA. -/
def sendLast (D : Indev) (packet : List Byte) (offs : ℕ) : EmacM Unit := do
  let descNum ← txCurrdescnum
  let descP := D.txChain descNum.toNat
  let dataStart ← load (descP + 8)
  invalidateDcacheRange descP (descP + roundup 16 ARCH_DMA_MINALIGN)
  store (descP + 4) (BitVec.ofNat 32 (offs + packet.length))
  setBit (descP + 4) (bit 24)
  copyIn (dataStart.toNat + offs) packet
  flushDcacheRange dataStart.toNat
    (dataStart.toNat + roundup (offs + packet.length) ARCH_DMA_MINALIGN)
  setBit (descP + 4) (bit 30)
  setBit (descP + 4) (bit 31)
  setBit (descP + 4) (bit 29)
  store descP (bit 31)
  flushDcacheRange descP (descP + roundup 16 ARCH_DMA_MINALIGN)
  setTxCurrdescnum (nextDescNum descNum)
  let v ← readl .txCtl1
  writel .txCtl1 (v ||| bit 31 ||| bit 30)

def sun8iEmacEthSend (D : Indev) (packet : List Byte) (offs : ℕ) : EmacM Unit :=
  if 0x10000 ≤ offs then sendFragment D packet offs else sendLast D packet offs

/-- The loop of `_emac_tx` from a segment on; `offset` is what has been sent before it. -/
def emacTxFrom (D : Indev) : ℕ → Pbuf → EmacM Unit
  | _, [] => pure ()
  | offset, q :: qs => do
      sun8iEmacEthSend D q (offset ||| if qs.isEmpty then 0x0 else 0x10000)
      emacTxFrom D (offset + q.length) qs

def emacTx (D : Indev) (p : Pbuf) : EmacM Unit :=
  emacTxFrom D 0 p

/-! ## Initialisation -/

def rxDescInit (D : Indev) (idx : ℕ) : EmacM Unit := do
  let descP := D.rxChain idx
  store (descP + 8) (BitVec.ofNat 32 (D.rxBuf idx))
  store (descP + 12) (BitVec.ofNat 32 (D.rxChain (idx + 1)))
  setBit (descP + 4) (BitVec.ofNat 32 CONFIG_ETH_RXSIZE)
  store descP (bit 31)

def txDescInit (D : Indev) (idx : ℕ) : EmacM Unit := do
  let descP := D.txChain idx
  store (descP + 8) (BitVec.ofNat 32 (D.txBuf idx))
  store (descP + 12) (BitVec.ofNat 32 (D.txChain (idx + 1)))
  store descP (bit 31)
  store (descP + 4) 0

/-- `for (idx = 0; idx < n; idx++)`. -/
def forIdx (body : ℕ → EmacM Unit) : ℕ → EmacM Unit
  | 0 => pure ()
  | n + 1 => do
      forIdx body n
      body n

/-- `rx_descs_init` up to the ring index. -/
def rxTableInit (D : Indev) : EmacM Unit := do
  flushDcacheRange (D.rxBuf 0) (D.rxBuf 0 + RX_TOTAL_BUFSIZE)
  forIdx (rxDescInit D) CONFIG_RX_DESCR_NUM
  store (D.rxChain 31 + 12) (BitVec.ofNat 32 (D.rxChain 0))
  flushDcacheRange (D.rxChain 0) (D.rxChain 0 + 64 * CONFIG_RX_DESCR_NUM)
  writel .rxDmaDesc (BitVec.ofNat 32 (D.rxChain 0))

def rxDescsInit (D : Indev) : EmacM Unit := do
  rxTableInit D
  setRxCurrdescnum 0

/-- `tx_descs_init` up to the ring index. -/
def txTableInit (D : Indev) : EmacM Unit := do
  forIdx (txDescInit D) CONFIG_TX_DESCR_NUM
  store (D.txChain 31 + 12) (BitVec.ofNat 32 (D.txChain 0))
  flushDcacheRange (D.txChain 0) (D.txChain 0 + 64 * CONFIG_TX_DESCR_NUM)
  writel .txDmaDesc (BitVec.ofNat 32 (D.txChain 0))

def txDescsInit (D : Indev) : EmacM Unit := do
  txTableInit D
  setTxCurrdescnum 0

/-- The part of `struct phy_device` that decides the speed and the duplex mode. -/
structure PhyDevice where
  autoneg : ℕ
  supported : U32
  speed : ℕ
  duplex : ℕ
  deriving DecidableEq, Repr

def SPEED_10 : ℕ := 10
def SPEED_100 : ℕ := 100
def SPEED_1000 : ℕ := 1000
def DUPLEX_HALF : ℕ := 0
def DUPLEX_FULL : ℕ := 1
def AUTONEG_ENABLE : ℕ := 1

/-- Some bit of `mask` is set in `v`. -/
def testBits (v mask : U32) : Bool := v &&& mask ≠ 0

/-- `sun8i_adjust_link`'s change of `EMAC_CTL0`. -/
def adjustCtl0 (phydev : PhyDevice) (v : U32) : U32 :=
  let v := if phydev.duplex ≠ 0 then v ||| bit 0 else v &&& ~~~bit 0
  let v := v &&& ~~~0x0C#32
  if phydev.speed = 1000 then v
  else if phydev.speed = 100 then v ||| bit 2 ||| bit 3
  else if phydev.speed = 10 then v ||| bit 3
  else v

def sun8iAdjustLink (phydev : PhyDevice) : EmacM Unit := do
  let v ← readl .ctl0
  writel .ctl0 (adjustCtl0 phydev v)

/-- The gigabit abilities that both ends share, when this end may have any. -/
def gigabitAbility (phydev : PhyDevice) : EmacM U32 :=
  -- SUPPORTED_1000baseT_Full | SUPPORTED_1000baseT_Half
  if testBits phydev.supported (bit 5 ||| bit 4) then do
    let gblpa ← phyRead .stat1000
    let ctrl ← phyRead .ctrl1000
    pure ((if gblpa.slt 0 then 0 else gblpa) &&& (ctrl <<< 2))
  else
    pure 0

/-- Speed and duplex of the best 10/100 mode in `lpa`. -/
def resolveLpa (phydev : PhyDevice) (lpa : U32) : PhyDevice :=
  if testBits lpa (0x0100#32 ||| 0x0080#32) then
    { phydev with
      speed := SPEED_100
      duplex := if testBits lpa 0x0100#32 then DUPLEX_FULL else DUPLEX_HALF }
  else
    { phydev with
      speed := SPEED_10
      duplex := if testBits lpa 0x0040#32 then DUPLEX_FULL else DUPLEX_HALF }

/-- The extended status, read only when the 1000BASE-T registers are missing. -/
def readEstatus (miiReg : U32) : EmacM U32 :=
  if testBits miiReg 0x0100#32 && !testBits miiReg 0x0001#32 then phyRead .estatus else pure 0

def resolveEstatus (phydev : PhyDevice) (estatus : U32) : PhyDevice :=
  if testBits estatus (0x8000#32 ||| 0x4000#32 ||| 0x2000#32 ||| 0x1000#32) then
    { phydev with
      speed := SPEED_1000
      duplex := if testBits estatus (0x8000#32 ||| 0x2000#32) then DUPLEX_FULL else phydev.duplex }
  else
    phydev

/-- `PHY_1000BTSR_1000FD | PHY_1000BTSR_1000HD` decide a gigabit link. -/
def resolveGigabit (phydev : PhyDevice) (gblpa : U32) : PhyDevice :=
  { phydev with
    speed := SPEED_1000
    duplex := if testBits gblpa 0x0800#32 then DUPLEX_FULL else DUPLEX_HALF }

/-- The link settings forced by the control register. -/
def resolveBmcr (phydev : PhyDevice) (bmcr : U32) : PhyDevice :=
  { phydev with
    speed :=
      if testBits bmcr 0x0040#32 then SPEED_1000
      else if testBits bmcr 0x2000#32 then SPEED_100
      else SPEED_10
    duplex := if testBits bmcr 0x0100#32 then DUPLEX_FULL else DUPLEX_HALF }

def genphyParseLink (phydev : PhyDevice) : EmacM PhyDevice := do
  let miiReg ← phyRead .bmsr
  if phydev.autoneg = AUTONEG_ENABLE then do
    let gblpa ← gigabitAbility phydev
    if testBits gblpa (0x0800#32 ||| 0x0400#32) then
      pure (resolveGigabit phydev gblpa)
    else do
      let advertise ← phyRead .advertise
      let lpa ← phyRead .lpa
      let estatus ← readEstatus miiReg
      pure (resolveEstatus (resolveLpa phydev (advertise &&& lpa)) estatus)
  else do
    let bmcr ← phyRead .bmcr
    pure (resolveBmcr phydev bmcr)

/-- `do { reg = readl(EMAC_CTL1) } while ((reg & 1) && --timeout)`. -/
def pollReset : ℕ → EmacM Bool
  | 0 => pure false
  | timeout + 1 => do
      let reg ← readl .ctl1
      if testBits reg 0x1#32 then pollReset timeout else pure true

def setbits (r : Reg) (b : U32) : EmacM Unit := do
  let v ← readl r
  writel r (v ||| b)

def softReset : EmacM Bool := do
  let reg ← readl .ctl1
  if testBits reg 0x1#32 then
    pure true
  else do
    setbits .ctl1 0x1#32
    pollReset 100

def sun8iWriteHwaddr (macId : ℕ → Byte) : EmacM Unit := do
  writel .addr0High ((macId 4).setWidth 32 + (macId 5).setWidth 32 <<< 8)
  writel .addr0Low ((macId 0).setWidth 32 + (macId 1).setWidth 32 <<< 8 +
    (macId 2).setWidth 32 <<< 16 + (macId 3).setWidth 32 <<< 24)

/-- `_sun8i_emac_eth_init` up to the rings. -/
def macInit (macId : ℕ → Byte) : EmacM Unit := do
  sun8iWriteHwaddr macId
  setbits .txCtl1 (bit 1)
  setbits .rxCtl1 (bit 1)
  writel .ctl1 (8#32 <<< 24)

/-- `_sun8i_emac_eth_init` from the start of the DMA on. -/
def startDma : EmacM Unit := do
  setbits .rxCtl1 (bit 30)
  setbits .txCtl1 (bit 30)
  setbits .rxCtl0 (bit 31)
  setbits .txCtl0 (bit 31)
  setbits .intEn (bit 8)

/-- What `_sun8i_emac_eth_init` works on. -/
structure EthDev where
  indev : Indev
  phydev : PhyDevice
  devAddr : ℕ → Byte

def sun8iEmacEthInit (E : EthDev) : EmacM ℤ := do
  let ok ← softReset
  if ok then do
    macInit E.devAddr
    rxDescsInit E.indev
    txDescsInit E.indev
    let phydev ← genphyParseLink E.phydev
    sun8iAdjustLink phydev
    startDma
    pure 0
  else
    pure (-1)

/-- `_emac_init`: the result of the initialisation is dropped. -/
def emacInit (E : EthDev) : EmacM ℤ := do
  let _ ← sun8iEmacEthInit E
  pure 0

/-! ## The PHY thread -/

/-- `miiphy_read`: nothing when the bus reports an error. -/
def miiphyRead (r : PhyReg) : EmacM (Option (BitVec 16)) := do
  let ret ← phyRead r
  pure (if ret.slt 0 then none else some (ret.setWidth 16))

def miiphyLink : EmacM ℤ := do
  -- The first read is a dummy one, for PHYs that latch the bit.
  let _ ← miiphyRead .bmsr
  let reg ← miiphyRead .bmsr
  match reg with
  | none => pure 0
  | some reg => pure (if reg &&& 0x0004#16 ≠ 0 then 1 else 0)

/-- The announcement of a changed link state; the value is the new `initlink`. -/
def reportLink (link initlink : ℤ) : EmacM ℤ :=
  if link ≠ initlink then do
    ethDeviceLinkchange link
    pure link
  else
    pure initlink

/-- The DMA-error branch of `phy_thread_entry`. -/
def restart (E : EthDev) : EmacM Unit := do
  writel .intSta 0xffff#32
  ethDeviceLinkchange 0
  let _ ← emacInit E
  rtThreadDelay

/-- One iteration of the loop of `phy_thread_entry`, from one `initlink` to the next. -/
def phyThreadIter (E : EthDev) (initlink : ℤ) : EmacM ℤ := do
  let link ← miiphyLink
  let initlink ← reportLink link initlink
  let status ← readl .intSta
  if testBits status 0x40#32 then restart E else pure ()
  rtThreadDelay
  pure initlink

end Emac

end BspV3s
