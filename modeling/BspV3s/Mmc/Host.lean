import BspV3s.Lib.Program

/-!
# Host — the sunxi SD/MMC controller driver

The driver talks to its controller only through register accesses and to the request through the
data buffer and the response words, so each routine is a program over those accesses.  The polling
loops count down an unsigned timeout; the countdown is the recursion argument here.
-/

namespace BspV3s

namespace Mmc

abbrev U32 := BitVec 32

/-! ## Registers and accesses -/

/-- The registers of `struct sunxi_mmc` that the driver uses, and those of the clock controller that
it sets the module clock by. -/
inductive Reg
  | gctrl
  | clkcr
  | width
  | blksz
  | bytecnt
  | cmd
  | arg
  | resp0
  | resp1
  | resp2
  | resp3
  | rint
  | status
  | fifo
  | mclkreg
  | pll6Cfg
  deriving DecidableEq, Repr

/-- One access of the driver: a register, a word of the data buffer, a response word of the command, a
delay, or what the request layer does around a command: store the error of the command or of the stop
command, copy its response, store the error count, and complete the request. -/
inductive Op
  | readl (r : Reg)
  | writel (r : Reg) (v : U32)
  | load (a : U32)
  | store (a : U32) (v : U32)
  | setResponse (i : Fin 4) (v : U32)
  | udelay (usec : Nat)
  | setReqErr (stop : Bool) (v : Int)
  | copyResponse (stop : Bool)
  | setErr (n : Nat)
  | reqComplete
  deriving DecidableEq, Repr

abbrev Op.Ret : Op → Type
  | .readl _ => U32
  | .load _ => U32
  | _ => Unit

abbrev MmcM := Prog Op Op.Ret

abbrev Event := Prog.Event Op Op.Ret

def readl (r : Reg) : MmcM U32 := Prog.op (Op.readl r)
def writel (r : Reg) (v : U32) : MmcM Unit := Prog.op (Op.writel r v)
def load (a : U32) : MmcM U32 := Prog.op (Op.load a)
def store (a : U32) (v : U32) : MmcM Unit := Prog.op (Op.store a v)
def setResponse (i : Fin 4) (v : U32) : MmcM Unit := Prog.op (Op.setResponse i v)
def udelay (usec : Nat) : MmcM Unit := Prog.op (Op.udelay usec)
def setReqErr (stop : Bool) (v : Int) : MmcM Unit := Prog.op (Op.setReqErr stop v)
def copyResponse (stop : Bool) : MmcM Unit := Prog.op (Op.copyResponse stop)
def setErr (n : Nat) : MmcM Unit := Prog.op (Op.setErr n)
def reqComplete : MmcM Unit := Prog.op Op.reqComplete

/-! ## Constants -/

def GCTRL_SOFT_RESET : U32 := 0x1 <<< 0
def GCTRL_FIFO_RESET : U32 := 0x1 <<< 1
def GCTRL_DMA_RESET : U32 := 0x1 <<< 2
def GCTRL_RESET : U32 := GCTRL_SOFT_RESET ||| GCTRL_FIFO_RESET ||| GCTRL_DMA_RESET
def GCTRL_ACCESS_BY_AHB : U32 := 0x1 <<< 31

def CMD_RESP_EXPIRE : U32 := 0x1 <<< 6
def CMD_LONG_RESPONSE : U32 := 0x1 <<< 7
def CMD_CHK_RESPONSE_CRC : U32 := 0x1 <<< 8
def CMD_DATA_EXPIRE : U32 := 0x1 <<< 9
def CMD_WRITE : U32 := 0x1 <<< 10
def CMD_AUTO_STOP : U32 := 0x1 <<< 12
def CMD_WAIT_PRE_OVER : U32 := 0x1 <<< 13
def CMD_SEND_INIT_SEQ : U32 := 0x1 <<< 15
def CMD_UPCLK_ONLY : U32 := 0x1 <<< 21
def CMD_START : U32 := 0x1 <<< 31

def RINT_RESP_ERROR : U32 := 0x1 <<< 1
def RINT_COMMAND_DONE : U32 := 0x1 <<< 2
def RINT_DATA_OVER : U32 := 0x1 <<< 3
def RINT_RESP_CRC_ERROR : U32 := 0x1 <<< 6
def RINT_DATA_CRC_ERROR : U32 := 0x1 <<< 7
def RINT_RESP_TIMEOUT : U32 := 0x1 <<< 8
def RINT_DATA_TIMEOUT : U32 := 0x1 <<< 9
def RINT_VOLTAGE_CHANGE_DONE : U32 := 0x1 <<< 10
def RINT_FIFO_RUN_ERROR : U32 := 0x1 <<< 11
def RINT_HARD_WARE_LOCKED : U32 := 0x1 <<< 12
def RINT_START_BIT_ERROR : U32 := 0x1 <<< 13
def RINT_AUTO_COMMAND_DONE : U32 := 0x1 <<< 14
def RINT_END_BIT_ERROR : U32 := 0x1 <<< 15

def RINT_INTERRUPT_ERROR_BIT : U32 :=
  RINT_RESP_ERROR ||| RINT_RESP_CRC_ERROR ||| RINT_DATA_CRC_ERROR ||| RINT_RESP_TIMEOUT |||
    RINT_DATA_TIMEOUT ||| RINT_VOLTAGE_CHANGE_DONE ||| RINT_FIFO_RUN_ERROR |||
    RINT_HARD_WARE_LOCKED ||| RINT_START_BIT_ERROR ||| RINT_END_BIT_ERROR

def STATUS_FIFO_EMPTY : U32 := 0x1 <<< 2
def STATUS_FIFO_FULL : U32 := 0x1 <<< 3
def STATUS_CARD_DATA_BUSY : U32 := 0x1 <<< 9

def MMC_RSP_PRESENT : U32 := 1 <<< 0
def MMC_RSP_136 : U32 := 1 <<< 1
def MMC_RSP_CRC : U32 := 1 <<< 2
def MMC_RSP_BUSY : U32 := 1 <<< 3

def MMC_DATA_READ : U32 := 1
def MMC_DATA_WRITE : U32 := 2

def ETIMEDOUT : Int := 110

/-! ## Requests -/

/-- `struct mmc_cmd`, without the response words: they are written through `setResponse`. -/
structure MmcCmd where
  cmdidx : BitVec 16
  respType : U32
  cmdarg : U32
  deriving DecidableEq, Repr

/-- `struct mmc_data`; `dest` is the address of the buffer, whichever way the data goes. -/
structure MmcData where
  dest : U32
  flags : U32
  blocks : U32
  blocksize : U32
  deriving DecidableEq, Repr

def MmcData.reading (d : MmcData) : Bool := d.flags &&& MMC_DATA_READ ≠ 0

/-- `byte_cnt`. -/
def MmcData.byteCnt (d : MmcData) : U32 := d.blocksize * d.blocks

/-- `status_bit`: the FIFO flag that forbids moving the next word. -/
def MmcData.statusBit (d : MmcData) : U32 :=
  if d.reading then STATUS_FIFO_EMPTY else STATUS_FIFO_FULL

/-- The initial `timeout_usecs` of a transfer. -/
def MmcData.timeoutUsecs (d : MmcData) : U32 :=
  let t := (d.byteCnt >>> 8) * 1000
  if t < 2000000 then 2000000 else t

/-- The interrupt that ends the data phase. -/
def MmcData.doneBit (d : MmcData) : U32 :=
  if d.blocks > 1 then RINT_AUTO_COMMAND_DONE else RINT_DATA_OVER

/-- `cmdval`. -/
def cmdval (cmd : MmcCmd) (data : Option MmcData) : U32 :=
  let v := CMD_START
  let v := if cmd.cmdidx = 0 then v ||| CMD_SEND_INIT_SEQ else v
  let v := if cmd.respType &&& MMC_RSP_PRESENT ≠ 0 then v ||| CMD_RESP_EXPIRE else v
  let v := if cmd.respType &&& MMC_RSP_136 ≠ 0 then v ||| CMD_LONG_RESPONSE else v
  let v := if cmd.respType &&& MMC_RSP_CRC ≠ 0 then v ||| CMD_CHK_RESPONSE_CRC else v
  match data with
  | none => v
  | some d =>
      let v := v ||| (CMD_DATA_EXPIRE ||| CMD_WAIT_PRE_OVER)
      let v := if d.flags &&& MMC_DATA_WRITE ≠ 0 then v ||| CMD_WRITE else v
      if d.blocks > 1 then v ||| CMD_AUTO_STOP else v

/-! ## Polling loops -/

/-- `while (readl(r) & busy) { if (!timeout--) fail; udelay(usec); }`: what is left of the timeout
when the loop ends, `none` when it has run out. -/
def pollWhile (r : Reg) (busy : U32) (usec : Nat) : Nat → MmcM (Option Nat)
  | 0 => do
      let v ← readl r
      if v &&& busy = 0 then pure (some 0) else pure none
  | timeout + 1 => do
      let v ← readl r
      if v &&& busy = 0 then
        pure (some (timeout + 1))
      else do
        udelay usec
        pollWhile r busy usec timeout

/-- `do { v = readl(r); if (!timeout-- || fail) return -ETIMEDOUT; udelay(1000); } while (!done)`. -/
def pollUntil (r : Reg) (fail done : U32 → Bool) : Nat → MmcM Int
  | 0 => do
      let _ ← readl r
      pure (-ETIMEDOUT)
  | timeout + 1 => do
      let v ← readl r
      if fail v then
        pure (-ETIMEDOUT)
      else do
        udelay 1000
        if done v then pure 0 else pollUntil r fail done timeout

/-- `mmc_update_clk`. -/
def mmcUpdateClk : MmcM Int := do
  writel .cmd (CMD_START ||| CMD_UPCLK_ONLY ||| CMD_WAIT_PRE_OVER)
  match ← pollWhile .cmd CMD_START 1000 2000 with
  | none => pure (-1)
  | some _ => do
      let v ← readl .rint
      writel .rint v
      pure 0

/-- Move word `i` of the buffer between memory and the FIFO. -/
def moveWord (d : MmcData) (i : Nat) : MmcM Unit :=
  if d.reading then do
    let v ← readl .fifo
    store (d.dest + BitVec.ofNat 32 (4 * i)) v
  else do
    let v ← load (d.dest + BitVec.ofNat 32 (4 * i))
    writel .fifo v

/-- The outer loop of `mmc_trans_data_by_cpu`: `n` words are left, `i` is the next one. -/
def transWords (d : MmcData) : Nat → Nat → Nat → MmcM Int
  | 0, _, _ => pure 0
  | n + 1, i, timeout => do
      match ← pollWhile .status d.statusBit 1 timeout with
      | none => pure (-1)
      | some timeout' => do
          moveWord d i
          transWords d n (i + 1) timeout'

/-- `mmc_trans_data_by_cpu`. -/
def mmcTransDataByCpu (d : MmcData) : MmcM Int := do
  let g ← readl .gctrl
  writel .gctrl (g ||| GCTRL_ACCESS_BY_AHB)
  transWords d (d.byteCnt >>> 2).toNat 0 d.timeoutUsecs.toNat

/-- `mmc_rint_wait`. -/
def mmcRintWait (doneBit : U32) (timeoutMsecs : Nat) : MmcM Int :=
  pollUntil .rint (fun v => v &&& RINT_INTERRUPT_ERROR_BIT ≠ 0) (fun v => v &&& doneBit ≠ 0)
    timeoutMsecs

/-- The busy loop of `sunxi_mmc_send_cmd`. -/
def busyWait (timeoutMsecs : Nat) : MmcM Int :=
  pollUntil .status (fun _ => false) (fun v => v &&& STATUS_CARD_DATA_BUSY = 0) timeoutMsecs

/-! ## Sending a command -/

/-- The response words of a command that has succeeded. -/
def readResponse (cmd : MmcCmd) : MmcM Unit :=
  if cmd.respType &&& MMC_RSP_136 ≠ 0 then do
    let v ← readl .resp3
    setResponse 0 v
    let v ← readl .resp2
    setResponse 1 v
    let v ← readl .resp1
    setResponse 2 v
    let v ← readl .resp0
    setResponse 3 v
  else do
    let v ← readl .resp0
    setResponse 0 v

/-- Issue the command and move its data; the result is `error` where `goto out` is taken. -/
def sendCmdStart (cmd : MmcCmd) : Option MmcData → MmcM Int
  | none => do
      writel .arg cmd.cmdarg
      writel .cmd (cmdval cmd none ||| cmd.cmdidx.setWidth 32)
      pure 0
  | some d =>
      if d.dest &&& 0x3 ≠ 0 then
        pure (-1)
      else do
        writel .blksz d.blocksize
        writel .bytecnt (d.blocks * d.blocksize)
        writel .arg cmd.cmdarg
        writel .cmd (cmdval cmd (some d) ||| cmd.cmdidx.setWidth 32)
        let ret ← mmcTransDataByCpu d
        if ret ≠ 0 then do
          let _ ← readl .rint
          pure (-ETIMEDOUT)
        else
          pure 0

/-- Wait for the end of the data phase, if there is one. -/
def dataWait : Option MmcData → MmcM Int
  | none => pure 0
  | some d => mmcRintWait d.doneBit 120

/-- Wait for the card, if the response can keep it busy. -/
def readyWait (cmd : MmcCmd) : MmcM Int :=
  if cmd.respType &&& MMC_RSP_BUSY ≠ 0 then busyWait 2000 else pure 0

/-- `sunxi_mmc_send_cmd` between its early returns and the label `out`. -/
def sendCmdBody (cmd : MmcCmd) (data : Option MmcData) : MmcM Int := do
  let error ← sendCmdStart cmd data
  if error ≠ 0 then
    pure error
  else do
    let error ← mmcRintWait RINT_COMMAND_DONE 1000
    if error ≠ 0 then
      pure error
    else do
      let error ← dataWait data
      if error ≠ 0 then
        pure error
      else do
        let error ← readyWait cmd
        if error ≠ 0 then
          pure error
        else do
          readResponse cmd
          pure 0

/-- `sunxi_mmc_send_cmd` from the label `out`. -/
def sendCmdOut (error : Int) : MmcM Int := do
  if error < 0 then do
    writel .gctrl GCTRL_RESET
    let _ ← mmcUpdateClk
  writel .rint 0xffffffff
  let g ← readl .gctrl
  writel .gctrl (g ||| GCTRL_FIFO_RESET)
  pure error

/-- `sunxi_mmc_send_cmd`. -/
def sunxiMmcSendCmd (fatalErr : U32) (cmd : MmcCmd) (data : Option MmcData) : MmcM Int :=
  if fatalErr ≠ 0 then
    pure (-1)
  else if cmd.cmdidx = 12 then
    pure 0
  else do
    let error ← sendCmdBody cmd data
    sendCmdOut error

end Mmc

end BspV3s
