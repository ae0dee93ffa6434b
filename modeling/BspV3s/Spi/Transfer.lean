import BspV3s.Spi.Controller

/-!
# Transfer — bursts of 63 bytes as one exchange

`sunxi_spi_xfer` cuts a transfer into bursts that fit the FIFOs.  Each burst fills the transmit FIFO,
starts the controller, waits until the replies are there and empties the receive FIFO.  The buffers, the
slave and the wires end up as if all the bytes had been exchanged at once.

* `meets_start`    : a burst is loaded and started;
* `meets_xferLoop` : the bursts of a transfer;
* `xfer_exchange`  : the whole call, with the chip select around it.
-/

namespace BspV3s

namespace Spi

open Prog Env

/-! ## The driver -/

def SPI_XFER_BEGIN : U32 := 1 <<< 0
def SPI_XFER_END : U32 := 1 <<< 1

/-- The delays of `struct sunxi_spi_priv`. -/
structure Priv where
  activateDelayUs : U32
  deactivateDelayUs : U32
  lastTransactionUs : U32

def setbitsLe32 (r : Reg) (set : U32) : SpiM Unit := do
  let v ← readl r
  writel (v ||| set) r

/-- If it is too soon to perform another transaction, wait. -/
def waitTransaction (priv : Priv) : SpiM Unit :=
  if priv.deactivateDelayUs ≠ 0 ∧ priv.lastTransactionUs ≠ 0 then do
    let now ← timerGetUs
    let delayUs := now - priv.lastTransactionUs
    if delayUs < priv.deactivateDelayUs then udelay (priv.deactivateDelayUs - delayUs) else pure ()
  else pure ()

def sunxiSpiCsActivate (priv : Priv) (cs : U32) : SpiM Unit := do
  waitTransaction priv
  let reg ← readl .xferCtl
  let reg := reg &&& ~~~(SUNXI_SPI_CTL_CS_MASK ||| SUNXI_SPI_CTL_CS_LEVEL)
  let reg := reg ||| SUNXI_SPI_CTL_CS cs
  writel reg .xferCtl
  if priv.activateDelayUs ≠ 0 then udelay priv.activateDelayUs else pure ()

def sunxiSpiCsDeactivate (priv : Priv) : SpiM Priv := do
  let reg ← readl .xferCtl
  let reg := reg &&& ~~~SUNXI_SPI_CTL_CS_MASK
  let reg := reg ||| SUNXI_SPI_CTL_CS_LEVEL
  writel reg .xferCtl
  if priv.deactivateDelayUs ≠ 0 then do
    let now ← timerGetUs
    pure { priv with lastTransactionUs := now }
  else pure priv

/-- The loop of `sunxi_spi_write`; a buffer at 0 is none. -/
def writeLoop : ℕ → ℕ → SpiM Unit
  | 0, _ => pure ()
  | n + 1, txBuf =>
      if txBuf ≠ 0 then do
        let byte ← load txBuf
        writeb byte .txData
        writeLoop n (txBuf + 1)
      else do
        writeb 0 .txData
        writeLoop n txBuf

def sunxiSpiWrite (txBuf nbytes : ℕ) : SpiM Unit := do
  let nbytes := if txBuf = 0 then 0 else nbytes
  writel (SUNXI_SPI_XMIT_CNT (BitVec.ofNat 32 nbytes)) .xmitCnt
  -- CONFIG_SUNXI_GEN_SUN6I is set.
  writel (SUNXI_SPI_BURST_CNT (BitVec.ofNat 32 nbytes)) .burstCtl
  writeLoop nbytes txBuf

/-- The wait for the replies, with a budget of polls; whether they have come. -/
def waitReplies : (polls nbytes : ℕ) → SpiM Bool
  | 0, _ => pure false
  | polls + 1, nbytes => do
      let sta ← readl .fifoSta
      if (sta &&& SUNXI_SPI_FIFO_RF_CNT_MASK) >>> SUNXI_SPI_FIFO_RF_CNT_BITS <
          BitVec.ofNat 32 nbytes then waitReplies polls nbytes
      else pure true

/-- The loop over the receive FIFO; returns `rx_buf`. -/
def readLoop : ℕ → ℕ → SpiM ℕ
  | 0, rxBuf => pure rxBuf
  | n + 1, rxBuf => do
      let byte ← readb .rxData
      if rxBuf ≠ 0 then do
        store rxBuf byte
        readLoop n (rxBuf + 1)
      else readLoop n rxBuf

/-- The bursts of `sunxi_spi_xfer`; whether the last of them has come to its end. -/
def xferLoop (polls len txBuf rxBuf : ℕ) : SpiM Bool :=
  if _h : len = 0 then pure true else do
    let nbytes := min len (64 - 1)
    writel (SUNXI_SPI_BURST_CNT (BitVec.ofNat 32 nbytes)) .burstCnt
    sunxiSpiWrite txBuf nbytes
    setbitsLe32 .xferCtl SUNXI_SPI_CTL_XCH
    let received ← waitReplies polls nbytes
    if received then do
      let rxBuf ← readLoop nbytes rxBuf
      xferLoop polls (len - nbytes) (if txBuf ≠ 0 then txBuf + nbytes else txBuf) rxBuf
    else pure false
termination_by len
decreasing_by omega

/-- `sunxi_spi_xfer`, with a budget of polls for each burst; `none` if one of them has run out. -/
def sunxiSpiXfer (polls : ℕ) (priv : Priv) (bitlen cs : U32) (dout din : ℕ) (flags : U32) :
    SpiM (Option (Int × Priv)) :=
  if bitlen % 8 ≠ 0 then pure (some (-1, priv))
  else do
    (if flags &&& SPI_XFER_BEGIN ≠ 0 then sunxiSpiCsActivate priv cs else pure () : SpiM Unit)
    let done ← xferLoop polls (bitlen / 8).toNat dout din
    if done then
      if flags &&& SPI_XFER_END ≠ 0 then do
        let priv ← sunxiSpiCsDeactivate priv
        pure (some (0, priv))
      else pure (some (0, priv))
    else pure none

/-- The fields of `struct rt_spi_message` that a transfer uses. -/
structure Message where
  sendBuf : ℕ
  recvBuf : ℕ
  length : U32
  csTake : Bool
  csRelease : Bool

/-- `spi_xfer` of the SPI bus. -/
def spiXfer (polls : ℕ) (priv : Priv) (cs : U32) (message : Message) :
    SpiM (Option (U32 × Priv)) := do
  let flag : U32 := if message.csTake then 0x01 else 0
  let flag := if message.csRelease then flag ||| 0x02 else flag
  let done ← sunxiSpiXfer polls priv (message.length * 8) cs message.sendBuf message.recvBuf flag
  pure (done.map fun r => (message.length, r.2))

/-! ## One exchange -/

/-- The bytes that go out: those of the buffer, or zeros where there is none. -/
def sent (dout n : ℕ) (mem : Mem) : List Byte :=
  if dout = 0 then List.replicate n 0 else mem.readBytes dout n

/-- Where the replies go: into the buffer, or nowhere. -/
def received (din : ℕ) (replies : List Byte) (mem : Mem) : Mem :=
  if din = 0 then mem else mem.writeBytes din replies

/-- The buffers of a transfer of `n` bytes: either may be missing; two that are there are the same or
have nothing in common. -/
def Buffers (dout din n : ℕ) : Prop :=
  dout = 0 ∨ din = 0 ∨ dout = din ∨ dout + n ≤ din ∨ din + n ≤ dout

/-- A buffer after its first `k` bytes. -/
def advance (p k : ℕ) : ℕ := if p = 0 then 0 else p + k

variable {S : Type} {env : Env S} {b b' b'' : Bus S}

/-- `out` has been exchanged for the replies of the slave; the chip select has not been touched. -/
structure Exchange (M : Mealy S Byte Byte) (out : List Byte) (din : ℕ) (b b' : Bus S) : Prop where
  idle : b'.Idle
  cs : csLine (b'.reg .xferCtl) = csLine (b.reg .xferCtl)
  slave : b'.slave = M.after b.slave out
  wire : b'.wire = b.wire ++ (M.exchanges b.slave out).map .byte
  mem : b'.mem = received din (M.replies b.slave out) b.mem

theorem advance_pos {p k : ℕ} (hp : p ≠ 0) : advance p k = p + k := if_neg hp

theorem length_sent (dout n : ℕ) (mem : Mem) : (sent dout n mem).length = n := by
  unfold sent
  split
  · exact List.length_replicate
  · exact Mem.length_readBytes _ _ _

theorem sent_add (dout k n : ℕ) (mem : Mem) :
    sent dout (k + n) mem = sent dout k mem ++ sent (advance dout k) n mem := by
  unfold sent advance
  by_cases hdout : dout = 0
  · simp only [hdout, if_true]
    exact (List.replicate_append_replicate).symm
  · have hnext : dout + k ≠ 0 := fun h => hdout (Nat.eq_zero_of_add_eq_zero_right h)
    simp only [hdout, if_false, hnext]
    exact Mem.readBytes_add mem dout k n

/-- Replies that are stored one after the other. -/
theorem received_append (din : ℕ) (bs bs' : List Byte) (mem : Mem) :
    received din (bs ++ bs') mem = received (advance din bs.length) bs' (received din bs mem) := by
  unfold received advance
  by_cases hdin : din = 0
  · simp only [hdin, if_true]
  · have hnext : din + bs.length ≠ 0 := fun h => hdin (Nat.eq_zero_of_add_eq_zero_right h)
    simp only [hdin, if_false, hnext]
    funext x
    by_cases hlt : x < din
    · rw [Mem.writeBytes_outside (.inl hlt), Mem.writeBytes_outside (.inl (by omega)),
        Mem.writeBytes_outside (.inl hlt)]
    · rcases Nat.exists_eq_add_of_le (Nat.le_of_not_lt hlt) with ⟨i, rfl⟩
      unfold Mem.writeBytes
      by_cases hi : i < bs.length
      · have hbefore : din + i < din + bs.length := Nat.add_lt_add_left hi din
        simp only [hlt, hbefore, if_true, if_false, Nat.add_sub_cancel_left]
        rw [List.getElem?_append_left hi]
      · have hafter : ¬ din + i < din + bs.length := by omega
        have hindex : din + i - (din + bs.length) = i - bs.length := Nat.add_sub_add_left _ _ _
        have hnone : bs[i]? = none := List.getElem?_eq_none (Nat.le_of_not_lt hi)
        simp only [hlt, hafter, if_false, Nat.add_sub_cancel_left, hindex, hnone,
          Option.getD_none]
        rw [List.getElem?_append_right (Nat.le_of_not_lt hi)]

/-- The replies to the first bytes of a transfer are not stored on bytes that are still to go out. -/
theorem sent_received {dout din n k : ℕ} (hbuf : Buffers dout din n) (hk : k ≤ n) {bs : List Byte}
    (hbs : bs.length = k) (mem : Mem) :
    sent (advance dout k) (n - k) (received din bs mem) = sent (advance dout k) (n - k) mem := by
  unfold received
  by_cases hdin : din = 0
  · rw [if_pos hdin]
  · rw [if_neg hdin]
    unfold sent advance
    by_cases hdout : dout = 0
    · simp only [hdout, if_true]
    · have hnext : dout + k ≠ 0 := fun h => hdout (Nat.eq_zero_of_add_eq_zero_right h)
      simp only [hdout, if_false, hnext]
      refine Mem.readBytes_congr fun x hx => Mem.writeBytes_outside ?_
      rcases hx with ⟨hlo, hhi⟩
      rcases hbuf.resolve_left hdout |>.resolve_left hdin with heq | hle | hle <;> omega

theorem Buffers.advance {dout din n k : ℕ} (h : Buffers dout din n) (hk : k ≤ n) :
    Buffers (advance dout k) (advance din k) (n - k) := by
  unfold Buffers Spi.advance at *
  by_cases hdout : dout = 0
  · exact .inl (if_pos hdout)
  · by_cases hdin : din = 0
    · exact .inr (.inl (if_pos hdin))
    · rw [if_neg hdout, if_neg hdin]
      omega

theorem Exchange.append {M : Mealy S Byte Byte} {out out' : List Byte} {din : ℕ}
    (h : Exchange M out din b b') (h' : Exchange M out' (advance din out.length) b' b'') :
    Exchange M (out ++ out') din b b'' where
  idle := h'.idle
  cs := h'.cs.trans h.cs
  slave := by rw [h'.slave, h.slave, Mealy.after_append]
  wire := by
    rw [h'.wire, h.wire, h.slave, Mealy.exchanges_append, List.map_append, List.append_assoc]
  mem := by
    rw [h'.mem, h.mem, h.slave, Mealy.replies_append, received_append, Mealy.length_replies]

/-! ## Filling, waiting, emptying -/

/-- Bytes put into the transmit FIFO. -/
theorem meets_writeLoop {n txBuf : ℕ} (hbuf : txBuf ≠ 0) (hleft : b.left = 0)
    (htx : b.tx.length + n ≤ 64) (hrx : b.rx.length ≤ 64) :
    env.Meets (fun _ => writeLoop n txBuf)
      (fun _ b' => b' = { b with tx := b.tx ++ b.mem.readBytes txBuf n }) b := by
  induction n generalizing txBuf b with
  | zero =>
      refine Meets.ret ?_
      change b = { b with tx := b.tx ++ [] }
      rw [List.append_nil]
  | succ n ih =>
      simp only [writeLoop, if_pos hbuf]
      have hwithin : b.Within := ⟨by omega, hrx⟩
      refine Meets.op_bind hleft hwithin (.inl rfl) fun _ => ?_
      refine Meets.op_bind hleft hwithin (.inl rfl) fun _ => ?_
      -- The rest of the buffer goes behind the byte.
      refine (ih (b := { b with tx := b.tx ++ [b.mem txBuf] }) (Nat.succ_ne_zero txBuf) hleft ?_
        hrx).mono ?_
      · change (b.tx ++ [b.mem txBuf]).length + n ≤ 64
        rw [List.length_append, List.length_singleton]
        omega
      · rintro _ _ rfl
        change ({ b with tx := b.tx ++ [b.mem txBuf] ++ b.mem.readBytes (txBuf + 1) n } : Bus S) = _
        rw [List.append_assoc, Mem.readBytes_succ]
        rfl

/-- Bytes taken out of the receive FIFO. -/
theorem meets_readLoop {bs : List Byte} {rxBuf : ℕ} (hleft : b.left = 0) (htx : b.tx = [])
    (hrx : b.rx = bs) (hbs : bs.length ≤ 64) :
    env.Meets (fun _ => readLoop bs.length rxBuf)
      (fun r b' => r = advance rxBuf bs.length ∧
        b' = { b with rx := [], mem := received rxBuf bs b.mem }) b := by
  induction bs generalizing rxBuf b with
  | nil =>
      refine Meets.ret ⟨?_, ?_⟩
      · unfold advance
        split
        · next h => exact h
        · rfl
      · rw [received, Mem.writeBytes_nil, ite_self, ← hrx]
  | cons x bs ih =>
      have hwithin : b.Within := by
        refine ⟨?_, ?_⟩
        · rw [htx]
          exact Nat.zero_le 64
        · rw [hrx]
          exact hbs
      have hshort : bs.length ≤ 64 := (Nat.le_succ _).trans hbs
      have hhead : b.rx.headD 0 = x := by rw [hrx, List.headD_cons]
      have htail : b.rx.tail = bs := by rw [hrx, List.tail_cons]
      rw [List.length_cons]
      simp only [readLoop]
      refine Meets.op_bind hleft hwithin (.inl rfl) fun _ => ?_
      -- A missing buffer takes no bytes, but the FIFO is emptied.
      by_cases hbuf : rxBuf = 0
      · simp only [hbuf, ne_eq, not_true_eq_false, if_false]
        refine (ih (b := { b with rx := b.rx.tail }) hleft htx htail hshort).mono ?_
        rintro _ _ ⟨rfl, rfl⟩
        exact ⟨rfl, rfl⟩
      · simp only [ne_eq, hbuf, not_false_eq_true, if_true]
        have hwithin' : ({ b with rx := b.rx.tail } : Bus S).Within := by
          refine ⟨hwithin.1, ?_⟩
          change b.rx.tail.length ≤ 64
          rw [htail]
          exact hshort
        refine Meets.op_bind hleft hwithin' (.inl rfl) fun _ => ?_
        refine (ih (b := { b with
          rx := b.rx.tail
          mem := b.mem.writeBytes rxBuf [b.rx.headD 0] }) hleft htx htail hshort).mono ?_
        rintro _ _ ⟨rfl, rfl⟩
        have hstore : received (rxBuf + 1) bs (b.mem.writeBytes rxBuf [b.rx.headD 0]) =
            received rxBuf (x :: bs) b.mem := by
          unfold received
          rw [if_neg hbuf, if_neg (Nat.succ_ne_zero rxBuf), hhead, ← Mem.writeBytes_cons]
        refine ⟨?_, ?_⟩
        · rw [advance_pos hbuf, advance_pos (Nat.succ_ne_zero rxBuf)]
          exact Nat.succ_add_eq_add_succ rxBuf bs.length
        · exact congrArg (fun mem => ({ b with rx := [], mem := mem } : Bus S)) hstore

/-- The count of the receive FIFO as the driver compares it. -/
theorem fifoSta_lt_iff {n : ℕ} (hrx : b.rx.length ≤ 64) (hn : n ≤ 64) :
    (b.fifoSta &&& SUNXI_SPI_FIFO_RF_CNT_MASK) >>> SUNXI_SPI_FIFO_RF_CNT_BITS < BitVec.ofNat 32 n ↔
      b.rx.length < n := by
  have hcount : (getField b.fifoSta 0 7).toNat = b.rx.length := by
    unfold Bus.fifoSta
    have hother : getField (setField (BitVec.ofNat 32 b.tx.length) 16 7) 0 7 = 0#32 :=
      getField_setField_of_disjoint _ (.inl (by decide))
    rw [getField_or, hother, BitVec.or_zero, getField_setField_self _ (by decide),
      BitVec.toNat_ofNat]
    omega
  have hmask : SUNXI_SPI_FIFO_RF_CNT_MASK = fieldMask 0 7 := by decide
  have hn' : (BitVec.ofNat 32 n).toNat = n := toNat_ofNat_of_lt (by omega)
  rw [BitVec.lt_def, hn', hmask]
  change (getField b.fifoSta 0 7).toNat < n ↔ _
  rw [hcount]

/-- One poll, at whatever point the burst has come to. -/
theorem ends_poll {n t : ℕ} {Q : Bool → World S → Prop} (hloaded : b.Loaded)
    (hsum : b.rx.length + b.left = n) (hn : n ≤ 64)
    (hover : ((Bus.shift env.slave)^[env.shifts t] b).left = 0 →
      Q true ⟨(Bus.shift env.slave)^[env.shifts t] b, t + 1⟩)
    (hmore : ((Bus.shift env.slave)^[env.shifts t] b).left ≠ 0 →
      Ends env.exec env.check (fun polls => waitReplies polls n) Q
        ⟨(Bus.shift env.slave)^[env.shifts t] b, t + 1⟩) :
    Ends env.exec env.check (fun polls => waitReplies polls n) Q ⟨b, t⟩ := by
  have hwithin : ∀ k, ((Bus.shift env.slave)^[k] b).Within := by
    intro k
    rcases Bus.iterate_spec (M := env.slave) hloaded k with ⟨-, htx, hrx, -⟩
    have hle := hloaded.le
    exact ⟨by omega, by omega⟩
  have hrx := (Bus.iterate_spec (M := env.slave) hloaded (env.shifts t)).2.2.1
  have hiff := fifoSta_lt_iff (hwithin (env.shifts t)).2 hn
  refine Ends.of_rounds (fun _ => rfl) (Ends.bind (Ends.op ?_ ?_))
  · rw [check, Bool.and_eq_true]
    exact ⟨decide_eq_true fun k _ => hwithin k, rfl⟩
  · have hexec : env.exec (Op.readl .fifoSta) ⟨b, t⟩ =
        (((Bus.shift env.slave)^[env.shifts t] b).fifoSta,
          ⟨(Bus.shift env.slave)^[env.shifts t] b, t + 1⟩) := rfl
    rw [hexec]
    dsimp only
    -- Nothing is left to shift just when all the replies are there.
    by_cases hleft : ((Bus.shift env.slave)^[env.shifts t] b).left = 0
    · have hdone : ¬ ((Bus.shift env.slave)^[env.shifts t] b).rx.length < n := by omega
      simp only [hiff, hdone, if_false]
      exact Ends.ret (hover hleft)
    · have hwait : ((Bus.shift env.slave)^[env.shifts t] b).rx.length < n := by omega
      simp only [hiff, hwait, if_true]
      exact hmore hleft

/-- Polling goes on until the burst is over.  The induction is on what is left of the burst and, while
the controller stands still, on the time to its next byte. -/
theorem meets_waitReplies (hcompletes : env.Completes) {n : ℕ} (hloaded : b.Loaded)
    (hsum : b.rx.length + b.left = n) (hn : n ≤ 64) :
    env.Meets (fun polls => waitReplies polls n)
      (fun ok b' => ok = true ∧ b' = Bus.drain env.slave b) b := by
  generalize hleft : b.left = l
  induction l using Nat.strong_induction_on generalizing b with
  | _ l ih =>
      intro t
      -- A poll before which the controller has moved.
      have hmoved : ∀ t, 0 < env.shifts t →
          Ends env.exec env.check (fun polls => waitReplies polls n)
            (fun ok w => ok = true ∧ w.bus = Bus.drain env.slave b) ⟨b, t⟩ := by
        intro t hpos
        rcases Bus.iterate_spec (M := env.slave) hloaded (env.shifts t) with
          ⟨hloaded', -, hsum', hleft'⟩
        have hsame := Bus.drain_iterate (M := env.slave) hloaded (env.shifts t)
        refine ends_poll hloaded hsum hn (fun hzero => ⟨rfl, ?_⟩) fun hmore => ?_
        · rw [← hsame, Bus.drain, hzero, Function.iterate_zero_apply]
        · rw [← hsame]
          exact ih _ (by omega) hloaded' (hsum'.trans hsum) hleft' (t + 1)
      refine Ends.wait World.time (fun w => w.bus = b) hcompletes ?_ ⟨b, t⟩ rfl
      rintro ⟨b', t⟩ hbus hnext
      have hbus : b = b' := hbus.symm
      subst hbus
      rcases Nat.eq_zero_or_pos (env.shifts t) with hstill | hpos
      · have hsame : (Bus.shift env.slave)^[env.shifts t] b = b := by
          rw [hstill, Function.iterate_zero_apply]
        refine ends_poll hloaded hsum hn (fun hzero => ⟨rfl, ?_⟩) fun _ => ?_
        · rw [hsame] at hzero ⊢
          rw [Bus.drain, hzero, Function.iterate_zero_apply]
        · rw [hsame]
          exact hnext (Nat.not_lt.2 hstill.le) ⟨b, t + 1⟩ rfl rfl
      · exact hmoved t hpos

/-! ## Bursts -/

theorem Bus.Idle.within (h : b.Idle) : b.Within := by
  rw [Bus.Within, h.tx, h.rx]
  exact ⟨Nat.zero_le _, Nat.zero_le _⟩

/-- The control register with the start bit set: the chip select stays. -/
theorem csLine_start (v : U32) :
    csLine (v &&& ~~~SUNXI_SPI_CTL_XCH ||| SUNXI_SPI_CTL_XCH) = csLine v := by
  have hapart : ~~~SUNXI_SPI_CTL_XCH &&& (SUNXI_SPI_CTL_CS_MASK ||| SUNXI_SPI_CTL_CS_LEVEL) =
      SUNXI_SPI_CTL_CS_MASK ||| SUNXI_SPI_CTL_CS_LEVEL := by decide
  have hnone : SUNXI_SPI_CTL_XCH &&& (SUNXI_SPI_CTL_CS_MASK ||| SUNXI_SPI_CTL_CS_LEVEL) = 0#32 := by
    decide
  unfold csLine
  rw [BitVec.and_or_distrib_right, BitVec.and_assoc, hapart, hnone, BitVec.or_zero]

theorem start_set (v : U32) :
    (v &&& ~~~SUNXI_SPI_CTL_XCH ||| SUNXI_SPI_CTL_XCH) &&& SUNXI_SPI_CTL_XCH ≠ 0 := by
  have hoff : ~~~SUNXI_SPI_CTL_XCH &&& SUNXI_SPI_CTL_XCH = 0#32 := by decide
  rw [BitVec.and_or_distrib_right, BitVec.and_assoc, hoff, BitVec.and_zero, BitVec.zero_or,
    BitVec.and_self]
  decide

theorem moves_self (line : U32) : moves line line = [] := if_pos rfl

/-- The count of a burst is not cut off. -/
theorem toNat_burstCnt {n : ℕ} (hn : n ≤ 63) :
    (SUNXI_SPI_BURST_CNT (BitVec.ofNat 32 n)).toNat = n := by
  have hmask : (0xffffff : U32).toNat = 2 ^ 24 - 1 := rfl
  rw [SUNXI_SPI_BURST_CNT, BitVec.toNat_and, BitVec.toNat_ofNat, hmask,
    Nat.and_two_pow_sub_one_eq_mod]
  omega

/-- A burst of `n` bytes has been set going. -/
structure Started (dout n : ℕ) (b b' : Bus S) : Prop where
  loaded : b'.Loaded
  left : b'.left = n
  rx : b'.rx = []
  out : b'.out = sent dout n b.mem
  cs : csLine (b'.reg .xferCtl) = csLine (b.reg .xferCtl)
  slave : b'.slave = b.slave
  wire : b'.wire = b.wire
  mem : b'.mem = b.mem

/-- The bytes that `sunxi_spi_write` puts into the transmit FIFO. -/
def filled (dout n : ℕ) (mem : Mem) : List Byte := if dout = 0 then [] else mem.readBytes dout n

theorem length_filled (dout n : ℕ) (mem : Mem) :
    (filled dout n mem).length = if dout = 0 then 0 else n := by
  unfold filled
  split
  · rfl
  · exact Mem.length_readBytes _ _ _

theorem length_filled_le (dout n : ℕ) (mem : Mem) : (filled dout n mem).length ≤ n := by
  rw [length_filled]
  split
  · exact Nat.zero_le n
  · exact le_refl n

/-- The controller makes up for a missing buffer with zeros. -/
theorem out_filled (dout n : ℕ) (mem : Mem) :
    filled dout n mem ++ List.replicate (n - (filled dout n mem).length) 0 = sent dout n mem := by
  rw [length_filled]
  unfold filled sent
  split
  · rw [Nat.sub_zero, List.nil_append]
  · rw [Nat.sub_self, List.replicate_zero, List.append_nil]

theorem meets_sunxiSpiWrite {dout n : ℕ} (hidle : b.Idle) (hn : n ≤ 63) :
    env.Meets (fun _ => sunxiSpiWrite dout n)
      (fun _ b' => ∃ reg : Reg → U32, b' = { b with reg := reg, tx := filled dout n b.mem } ∧
        reg .xferCtl = b.reg .xferCtl ∧ reg .burstCnt = b.reg .burstCnt ∧
        (reg .xmitCnt).toNat = (filled dout n b.mem).length ∧
        (reg .burstCtl).toNat = (filled dout n b.mem).length) b := by
  rw [length_filled]
  unfold sunxiSpiWrite
  generalize hk : (if dout = 0 then 0 else n) = k
  have hcount : (SUNXI_SPI_BURST_CNT (BitVec.ofNat 32 k)).toNat = k := by
    refine toNat_burstCnt ?_
    rw [← hk]
    split
    · exact Nat.zero_le 63
    · exact hn
  -- Both counters hold the bytes of the FIFO.
  let reg := Function.update
    (Function.update b.reg .xmitCnt (SUNXI_SPI_XMIT_CNT (BitVec.ofNat 32 k)))
    .burstCtl (SUNXI_SPI_BURST_CNT (BitVec.ofNat 32 k))
  refine Meets.op_bind hidle.left hidle.within (.inl rfl) fun _ => ?_
  refine Meets.op_bind hidle.left hidle.within (.inl rfl) fun _ => ?_
  change env.Meets (fun _ => writeLoop k dout) _ { b with reg := reg }
  by_cases hdout : dout = 0
  · have hzero : k = 0 := by rw [← hk, if_pos hdout]
    subst hzero
    refine Meets.ret ⟨reg, ?_, rfl, rfl, hcount, hcount⟩
    rw [filled, if_pos hdout, ← hidle.tx]
  · have hall : k = n := by rw [← hk, if_neg hdout]
    subst hall
    have htx : b.tx.length + k ≤ 64 := by
      rw [hidle.tx]
      exact (Nat.zero_add k).le.trans (hn.trans (by decide))
    refine (meets_writeLoop (b := { b with reg := reg }) hdout hidle.left htx
      hidle.within.2).mono ?_
    rintro _ _ rfl
    refine ⟨reg, ?_, rfl, rfl, hcount, hcount⟩
    rw [filled, if_neg hdout, hidle.tx]
    rfl

theorem meets_start {α : Type} {dout n : ℕ} {g : ℕ → SpiM α} {Q : α → Bus S → Prop}
    (hidle : b.Idle) (hn : n ≤ 63) (hg : ∀ b', Started dout n b b' → env.Meets g Q b') :
    env.Meets (fun polls => do
      writel (SUNXI_SPI_BURST_CNT (BitVec.ofNat 32 n)) .burstCnt
      sunxiSpiWrite dout n
      setbitsLe32 .xferCtl SUNXI_SPI_CTL_XCH
      g polls) Q b := by
  refine Meets.op_bind hidle.left hidle.within (.inr hidle.rx) fun _ => ?_
  refine Meets.seq (meets_sunxiSpiWrite (b := { b with
    reg := Function.update b.reg .burstCnt (SUNXI_SPI_BURST_CNT (BitVec.ofNat 32 n)) })
    ⟨hidle.left, hidle.tx, hidle.rx⟩ hn) ?_
  rintro _ _ ⟨reg, rfl, hctl, hburst, hxmit, hsingle⟩
  let b₁ : Bus S := { b with reg := reg, tx := filled dout n b.mem }
  let val := reg .xferCtl &&& ~~~SUNXI_SPI_CTL_XCH ||| SUNXI_SPI_CTL_XCH
  have hfilled := length_filled_le dout n b.mem
  have hwithin : b₁.Within := ⟨hfilled.trans (hn.trans (by decide)), hidle.within.2⟩
  -- The burst that the write of the start bit sets going.
  have hstart : b₁.writeCtl val =
      { b₁ with
        reg := Function.update reg .xferCtl val
        left := n
        pending := (filled dout n b.mem).length } := by
    have hcount : (b₁.reg .burstCnt).toNat = n := by
      rw [← toNat_burstCnt hn]
      exact congrArg BitVec.toNat hburst
    have hline : csLine val = csLine (b₁.reg .xferCtl) := csLine_start _
    unfold Bus.writeCtl
    rw [if_pos ⟨start_set _, hidle.left⟩, hline, moves_self, List.append_nil, hcount]
    change { b₁ with reg := _, left := n, pending := min (reg .xmitCnt).toNat _ } = _
    rw [hxmit, hsingle, min_self]
  refine Meets.bind ?_
  unfold setbitsLe32
  refine Meets.op_bind hidle.left hwithin (.inl rfl) fun clock => ?_
  refine Meets.op hidle.left hwithin (.inl rfl) fun _ => hg _ ?_
  have hread : (b₁.access clock (Op.readl .xferCtl)).1 = reg .xferCtl &&& ~~~SUNXI_SPI_CTL_XCH :=
    if_pos hidle.left
  change Started dout n b
    (b₁.writeCtl ((b₁.access clock (Op.readl .xferCtl)).1 ||| SUNXI_SPI_CTL_XCH))
  rw [hread, hstart]
  exact {
    loaded := ⟨rfl, hfilled⟩
    left := rfl
    rx := hidle.rx
    out := out_filled dout n b.mem
    cs := (csLine_start _).trans (congrArg csLine hctl)
    slave := rfl
    wire := rfl
    mem := rfl }

/-- A burst that is over and whose replies have been fetched. -/
theorem Started.exchange (M : Mealy S Byte Byte) {dout n : ℕ} (din : ℕ) (h : Started dout n b b') :
    (Bus.drain M b').left = 0 ∧ (Bus.drain M b').tx = [] ∧
      (Bus.drain M b').rx = M.replies b.slave (sent dout n b.mem) ∧
      Exchange M (sent dout n b.mem) din b { Bus.drain M b' with
        rx := []
        mem := received din (M.replies b.slave (sent dout n b.mem)) (Bus.drain M b').mem } := by
  rw [Bus.drain_eq h.loaded, h.out, h.rx, h.slave, h.wire, h.mem]
  exact ⟨rfl, rfl, rfl, ⟨⟨rfl, rfl, rfl⟩, h.cs, rfl, rfl, rfl⟩⟩

theorem exchange_nil {M : Mealy S Byte Byte} {dout din : ℕ} (hidle : b.Idle) :
    Exchange M (sent dout 0 b.mem) din b b := by
  have hnone : sent dout 0 b.mem = [] := List.length_eq_zero_iff.1 (length_sent dout 0 b.mem)
  rw [hnone]
  refine ⟨hidle, rfl, rfl, (List.append_nil _).symm, ?_⟩
  rw [Mealy.replies, received, Mem.writeBytes_nil, ite_self]

/-- The bursts of a transfer, by induction on the bytes that are left: the memory that a later burst
reads its bytes from has only been written behind it. -/
theorem meets_xferLoop (hcompletes : env.Completes) {len dout din : ℕ} (hidle : b.Idle)
    (hbuf : Buffers dout din len) :
    env.Meets (fun polls => xferLoop polls len dout din)
      (fun ok b' => ok = true ∧ Exchange env.slave (sent dout len b.mem) din b b') b := by
  induction len using Nat.strong_induction_on generalizing b dout din with
  | _ len ih =>
      unfold xferLoop
      by_cases hlen : len = 0
      · subst hlen
        exact Meets.ret ⟨rfl, exchange_nil hidle⟩
      · simp only [hlen, dite_false]
        -- One burst: it is set going, waited for and fetched.
        generalize hk : min len (64 - 1) = k
        have hkle : k ≤ len := by omega
        have hkmax : k ≤ 63 := by omega
        refine meets_start hidle hkmax fun b₁ hstarted => ?_
        have hsum : b₁.rx.length + b₁.left = k := by
          rw [hstarted.rx, hstarted.left, List.length_nil, Nat.zero_add]
        refine Meets.seq (meets_waitReplies hcompletes hstarted.loaded hsum (by omega)) ?_
        rintro _ _ ⟨rfl, rfl⟩
        rcases hstarted.exchange env.slave din with ⟨hleft, htx, hrx, hexchange⟩
        have hreplies : (env.slave.replies b.slave (sent dout k b.mem)).length = k := by
          rw [Mealy.length_replies, length_sent]
        have hread := @meets_readLoop S env _ _ din hleft htx hrx (by omega)
        rw [hreplies] at hread
        simp only [if_true]
        refine Meets.seq hread ?_
        rintro _ _ ⟨rfl, rfl⟩
        have hcursor : (if dout ≠ 0 then dout + k else dout) = advance dout k := by
          unfold advance
          split <;> simp_all
        rw [hcursor]
        -- The rest of the transfer, from buffers that have moved on.
        refine (ih (len - k) (by omega) hexchange.idle (hbuf.advance hkle)).mono ?_
        rintro _ b₂ ⟨rfl, hrest⟩
        refine ⟨rfl, ?_⟩
        have hsplit : sent dout len b.mem =
            sent dout k b.mem ++ sent (advance dout k) (len - k) b.mem := by
          rw [← sent_add, Nat.add_sub_cancel' hkle]
        have hunread := sent_received hbuf hkle hreplies b.mem
        rw [hexchange.mem, hunread] at hrest
        rw [hsplit]
        refine hexchange.append ?_
        rw [length_sent]
        exact hrest

/-! ## The chip select -/

theorem csLine_activate (cs v : U32) :
    csLine (v &&& ~~~(SUNXI_SPI_CTL_CS_MASK ||| SUNXI_SPI_CTL_CS_LEVEL) ||| SUNXI_SPI_CTL_CS cs) =
      SUNXI_SPI_CTL_CS cs := by
  have hoff : ~~~(SUNXI_SPI_CTL_CS_MASK ||| SUNXI_SPI_CTL_CS_LEVEL) &&&
      (SUNXI_SPI_CTL_CS_MASK ||| SUNXI_SPI_CTL_CS_LEVEL) = 0#32 := by decide
  have hin : SUNXI_SPI_CTL_CS_MASK &&& (SUNXI_SPI_CTL_CS_MASK ||| SUNXI_SPI_CTL_CS_LEVEL) =
      SUNXI_SPI_CTL_CS_MASK := by decide
  rw [csLine, BitVec.and_or_distrib_right, BitVec.and_assoc, hoff, BitVec.and_zero,
    BitVec.zero_or, SUNXI_SPI_CTL_CS, BitVec.and_assoc, hin]

theorem csLine_deactivate (v : U32) :
    csLine (v &&& ~~~SUNXI_SPI_CTL_CS_MASK ||| SUNXI_SPI_CTL_CS_LEVEL) =
      SUNXI_SPI_CTL_CS_LEVEL := by
  have hlevel : ~~~SUNXI_SPI_CTL_CS_MASK &&& (SUNXI_SPI_CTL_CS_MASK ||| SUNXI_SPI_CTL_CS_LEVEL) =
      SUNXI_SPI_CTL_CS_LEVEL := by decide
  have hin : SUNXI_SPI_CTL_CS_LEVEL &&& (SUNXI_SPI_CTL_CS_MASK ||| SUNXI_SPI_CTL_CS_LEVEL) =
      SUNXI_SPI_CTL_CS_LEVEL := by decide
  rw [csLine, BitVec.and_or_distrib_right, BitVec.and_assoc, hlevel, hin]
  apply BitVec.eq_of_getLsbD_eq
  intro i hi
  rw [BitVec.getLsbD_or, BitVec.getLsbD_and]
  cases SUNXI_SPI_CTL_CS_LEVEL.getLsbD i <;> cases v.getLsbD i <;> rfl

theorem start_clear {v mask set : U32} (hv : v &&& SUNXI_SPI_CTL_XCH = 0)
    (hset : set &&& SUNXI_SPI_CTL_XCH = 0) :
    (v &&& ~~~mask ||| set) &&& SUNXI_SPI_CTL_XCH = 0 := by
  rw [BitVec.and_or_distrib_right, hset, BitVec.and_assoc, BitVec.and_comm (~~~mask),
    ← BitVec.and_assoc, hv]
  change 0#32 &&& ~~~mask ||| 0#32 = 0#32
  rw [BitVec.zero_and, BitVec.or_zero]

/-- The chip select has gone to `line`. -/
structure Selected (line : U32) (b b' : Bus S) : Prop where
  idle : b'.Idle
  cs : csLine (b'.reg .xferCtl) = line
  slave : b'.slave = b.slave
  wire : b'.wire = b.wire ++ moves (csLine (b.reg .xferCtl)) line
  mem : b'.mem = b.mem

theorem selected_self (hidle : b.Idle) : Selected (csLine (b.reg .xferCtl)) b b where
  idle := hidle
  cs := rfl
  slave := rfl
  wire := by rw [moves_self, List.append_nil]
  mem := rfl

/-- A change of the control register that leaves the start bit alone. -/
theorem meets_select {α : Type} {g : ℕ → SpiM α} {Q : α → Bus S → Prop} {line : U32}
    {f : U32 → U32} (hidle : b.Idle) (hline : ∀ v, csLine (f v) = line)
    (hstart : ∀ v, v &&& SUNXI_SPI_CTL_XCH = 0 → f v &&& SUNXI_SPI_CTL_XCH = 0)
    (hg : ∀ b', Selected line b b' → env.Meets g Q b') :
    env.Meets (fun polls => do
      let reg ← readl .xferCtl
      writel (f reg) .xferCtl
      g polls) Q b := by
  refine Meets.op_bind hidle.left hidle.within (.inl rfl) fun clock => ?_
  have hread : (b.access clock (Op.readl .xferCtl)).1 = b.reg .xferCtl &&& ~~~SUNXI_SPI_CTL_XCH :=
    if_pos hidle.left
  refine Meets.op_bind hidle.left hidle.within (.inl rfl) fun _ => hg _ ?_
  change Selected line b (b.writeCtl (f (b.access clock (Op.readl .xferCtl)).1))
  have hoff : ~~~SUNXI_SPI_CTL_XCH &&& SUNXI_SPI_CTL_XCH = 0#32 := by decide
  have hclear : f (b.reg .xferCtl &&& ~~~SUNXI_SPI_CTL_XCH) &&& SUNXI_SPI_CTL_XCH = 0 := by
    refine hstart _ ?_
    rw [BitVec.and_assoc, hoff]
    exact BitVec.and_zero
  rw [hread, Bus.writeCtl, if_neg fun h => h.1 hclear, hline]
  exact ⟨⟨hidle.left, hidle.tx, hidle.rx⟩, hline _, rfl, rfl, rfl⟩

/-- A delay, or none. -/
theorem meets_udelay {c : Prop} [Decidable c] {usec : U32} (hidle : b.Idle) :
    env.Meets (fun _ => if c then udelay usec else pure ()) (fun _ b' => b' = b) b := by
  split
  · exact Meets.op hidle.left hidle.within (.inl rfl) fun _ => rfl
  · exact Meets.ret rfl

theorem meets_waitTransaction {priv : Priv} (hidle : b.Idle) :
    env.Meets (fun _ => waitTransaction priv) (fun _ b' => b' = b) b := by
  unfold waitTransaction
  split
  · exact Meets.op_bind hidle.left hidle.within (.inl rfl) fun _ => meets_udelay hidle
  · exact Meets.ret rfl

theorem meets_sunxiSpiCsActivate {priv : Priv} {cs : U32} (hidle : b.Idle) :
    env.Meets (fun _ => sunxiSpiCsActivate priv cs)
      (fun _ b' => Selected (SUNXI_SPI_CTL_CS cs) b b') b := by
  unfold sunxiSpiCsActivate
  refine Meets.seq (meets_waitTransaction hidle) ?_
  rintro _ _ rfl
  refine meets_select (f := fun reg =>
    reg &&& ~~~(SUNXI_SPI_CTL_CS_MASK ||| SUNXI_SPI_CTL_CS_LEVEL) ||| SUNXI_SPI_CTL_CS cs)
    hidle (csLine_activate cs) (fun v hv => ?_) fun b' hselected => ?_
  · have hnone : SUNXI_SPI_CTL_CS_MASK &&& SUNXI_SPI_CTL_XCH = 0#32 := by decide
    refine start_clear hv ?_
    rw [SUNXI_SPI_CTL_CS, BitVec.and_assoc, hnone]
    exact BitVec.and_zero
  · refine (meets_udelay hselected.idle).mono ?_
    rintro _ _ rfl
    exact hselected

theorem meets_sunxiSpiCsDeactivate {priv : Priv} (hidle : b.Idle) :
    env.Meets (fun _ => sunxiSpiCsDeactivate priv)
      (fun _ b' => Selected SUNXI_SPI_CTL_CS_LEVEL b b') b := by
  unfold sunxiSpiCsDeactivate
  refine meets_select (f := fun reg =>
    reg &&& ~~~SUNXI_SPI_CTL_CS_MASK ||| SUNXI_SPI_CTL_CS_LEVEL) hidle csLine_deactivate
    (fun v hv => start_clear hv (by decide)) fun b' hselected => ?_
  split
  · refine Meets.op_bind hselected.idle.left hselected.idle.within (.inl rfl) fun _ => ?_
    exact Meets.ret hselected
  · exact Meets.ret hselected

/-! ## The call -/

/-- The chip select during a transfer and after it. -/
def lineDuring (cs flags line : U32) : U32 :=
  if flags &&& SPI_XFER_BEGIN ≠ 0 then SUNXI_SPI_CTL_CS cs else line

def lineAfter (flags line : U32) : U32 :=
  if flags &&& SPI_XFER_END ≠ 0 then SUNXI_SPI_CTL_CS_LEVEL else line

/-- One full-duplex exchange of `n` bytes: the chip select is asserted before it if the call begins a
transfer, and released after it if the call ends one. -/
structure Exchanged (M : Mealy S Byte Byte) (cs flags : U32) (dout din n : ℕ) (b b' : Bus S) :
    Prop where
  idle : b'.Idle
  slave : b'.slave = M.after b.slave (sent dout n b.mem)
  wire : b'.wire =
    b.wire ++ moves (csLine (b.reg .xferCtl)) (lineDuring cs flags (csLine (b.reg .xferCtl))) ++
      (M.exchanges b.slave (sent dout n b.mem)).map .byte ++
      moves (lineDuring cs flags (csLine (b.reg .xferCtl)))
        (lineAfter flags (lineDuring cs flags (csLine (b.reg .xferCtl))))
  cs : csLine (b'.reg .xferCtl) =
    lineAfter flags (lineDuring cs flags (csLine (b.reg .xferCtl)))
  mem : b'.mem = received din (M.replies b.slave (sent dout n b.mem)) b.mem

theorem meets_sunxiSpiXfer (hcompletes : env.Completes) (priv : Priv) {bitlen : U32} (cs flags : U32)
    {dout din n : ℕ} (hbitlen : bitlen.toNat = 8 * n) (hbuf : Buffers dout din n) (hidle : b.Idle) :
    env.Meets (fun polls => sunxiSpiXfer polls priv bitlen cs dout din flags)
      (fun r b' => (∃ priv', r = some (0, priv')) ∧
        Exchanged env.slave cs flags dout din n b b') b := by
  have haligned : ¬ bitlen % 8 ≠ 0 := by
    refine not_not.2 (BitVec.eq_of_toNat_eq ?_)
    rw [BitVec.toNat_umod, hbitlen]
    exact Nat.mul_mod_right 8 n
  have hlen : (bitlen / 8).toNat = n := by
    rw [BitVec.toNat_udiv, hbitlen]
    exact Nat.mul_div_cancel_left n (by decide)
  unfold sunxiSpiXfer
  simp only [haligned, if_false, hlen]
  have hbegin : env.Meets
      (fun _ => if flags &&& SPI_XFER_BEGIN ≠ 0 then sunxiSpiCsActivate priv cs else pure ())
      (fun _ b' => Selected (lineDuring cs flags (csLine (b.reg .xferCtl))) b b') b := by
    unfold lineDuring
    split
    · exact meets_sunxiSpiCsActivate hidle
    · exact Meets.ret (selected_self hidle)
  refine Meets.seq hbegin fun _ b₁ hselected => ?_
  refine Meets.seq (meets_xferLoop hcompletes hselected.idle hbuf) ?_
  rintro _ b₂ ⟨rfl, hexchange⟩
  rw [hselected.mem] at hexchange
  have hwire := hexchange.wire
  rw [hselected.wire, hselected.slave] at hwire
  have hslave := hexchange.slave
  rw [hselected.slave] at hslave
  have hmem := hexchange.mem
  rw [hselected.slave, hselected.mem] at hmem
  have hcs := hexchange.cs.trans hselected.cs
  -- What is left is the chip select.
  have hend : ∀ b₃, Selected (lineAfter flags (csLine (b₂.reg .xferCtl))) b₂ b₃ →
      Exchanged env.slave cs flags dout din n b b₃ := by
    intro b₃ hafter
    rw [hcs] at hafter
    refine ⟨hafter.idle, hafter.slave.trans hslave, ?_, hafter.cs, hafter.mem.trans hmem⟩
    rw [hafter.wire, hwire, hcs]
  simp only [if_true]
  unfold lineAfter at hend
  by_cases hflag : flags &&& SPI_XFER_END ≠ 0
  · simp only [if_pos hflag] at hend ⊢
    refine Meets.seq (meets_sunxiSpiCsDeactivate hexchange.idle) fun priv' b₃ hafter => ?_
    exact Meets.ret ⟨⟨priv', rfl⟩, hend b₃ hafter⟩
  · simp only [if_neg hflag] at hend ⊢
    exact Meets.ret ⟨⟨priv, rfl⟩, hend b₂ (selected_self hexchange.idle)⟩

/-- The flags of a message. -/
def Message.flag (message : Message) : U32 :=
  if message.csRelease then (if message.csTake then 0x01 else 0) ||| 0x02
  else if message.csTake then 0x01 else 0

/-- A message of the SPI bus is such an exchange. -/
theorem meets_spiXfer (hcompletes : env.Completes) {priv : Priv} {cs : U32} {message : Message}
    (hlen : message.length.toNat < 2 ^ 29)
    (hbuf : Buffers message.sendBuf message.recvBuf message.length.toNat) (hidle : b.Idle) :
    env.Meets (fun polls => spiXfer polls priv cs message)
      (fun r b' => (∃ priv', r = some (message.length, priv')) ∧
        Exchanged env.slave cs message.flag message.sendBuf message.recvBuf message.length.toNat
          b b') b := by
  have hbitlen : (message.length * 8).toNat = 8 * message.length.toNat := by
    have hsmall : message.length.toNat * 8 < 2 ^ 32 := by omega
    rw [BitVec.toNat_mul]
    change message.length.toNat * 8 % 2 ^ 32 = _
    rw [Nat.mod_eq_of_lt hsmall, Nat.mul_comm]
  refine Meets.seq (meets_sunxiSpiXfer hcompletes priv cs message.flag hbitlen hbuf hidle) ?_
  rintro _ b' ⟨⟨priv', rfl⟩, hexchanged⟩
  exact Meets.ret ⟨⟨priv', rfl⟩, hexchanged⟩

/-- Every call for fewer than `2 ^ 29` bytes ends, as one exchange; on the way neither FIFO overflows,
and nothing is left to receive when a burst is set up. -/
theorem xfer_exchange (hcompletes : env.Completes) (priv : Priv) (cs flags : U32) {n : ℕ}
    (hn : n < 2 ^ 29) {dout din : ℕ} (hbuf : Buffers dout din n) (hidle : b.Idle) (t : ℕ) :
    ∃ priv' b' t' polls₀, Exchanged env.slave cs flags dout din n b b' ∧
      ∀ polls, polls₀ ≤ polls →
        (sunxiSpiXfer polls priv (BitVec.ofNat 32 (8 * n)) cs dout din flags).runOn env.exec ⟨b, t⟩ =
          (some (0, priv'), ⟨b', t'⟩) ∧
        (sunxiSpiXfer polls priv (BitVec.ofNat 32 (8 * n)) cs dout din flags).checkOn env.exec
          env.check ⟨b, t⟩ = true := by
  have hbitlen : (BitVec.ofNat 32 (8 * n)).toNat = 8 * n := toNat_ofNat_of_lt (by omega)
  rcases meets_sunxiSpiXfer hcompletes priv cs flags hbitlen hbuf hidle t with
    ⟨_, ⟨b', t'⟩, polls₀, ⟨⟨priv', rfl⟩, hexchanged⟩, hruns⟩
  exact ⟨priv', b', t', polls₀, hexchanged, hruns⟩

/-- A slave that answers each byte with the one before it, on a controller that shifts one byte between
any two accesses. -/
def echo : Env Byte := ⟨⟨fun s x => (s, x)⟩, fun _ => 1, fun _ => 0⟩

def released : Bus Byte := ⟨fun _ => SUNXI_SPI_CTL_CS_LEVEL, [], [], 0, 0, 0, [], fun _ => 0xff⟩

/-- 100 bytes in two bursts, in place. -/
theorem xfer_exchange_echo :
    ∃ priv' b' t' polls₀, Exchanged echo.slave 0 3 4096 4096 100 released b' ∧
      ∀ polls, polls₀ ≤ polls →
        (sunxiSpiXfer polls ⟨0, 0, 0⟩ (BitVec.ofNat 32 (8 * 100)) 0 4096 4096 3).runOn echo.exec
          ⟨released, 0⟩ = (some (0, priv'), ⟨b', t'⟩) ∧
        (sunxiSpiXfer polls ⟨0, 0, 0⟩ (BitVec.ofNat 32 (8 * 100)) 0 4096 4096 3).checkOn echo.exec
          echo.check ⟨released, 0⟩ = true :=
  xfer_exchange (fun t => ⟨t, le_refl t, Nat.one_pos⟩) ⟨0, 0, 0⟩ 0 3 (by decide)
    (.inr (.inr (.inl rfl))) ⟨rfl, rfl, rfl⟩ 0

end Spi

end BspV3s
