import Mathlib.Data.List.Chain
import BspV3s.Mmc.SendCmd

/-!
# Request — requests of the MMC core and the error count

`mmc_mci_request` hands the command of a request to `sunxi_mmc_send_cmd`, and after it the stop command
if there is one.  `mmc->err` counts the failures since the last success; the monitor takes a count
above 10 for a removed card.  `sunxi_mmc_send_cmd` answers 0 to CMD12 without sending anything, and
such an answer counts as a success.

* `sentCmds_request`     : which commands of a request reach the card;
* `err_counts_failures`  : the count while no command succeeds and none is CMD12;
* `err_reset_by_stop`    : a CMD12 in every request keeps the count at 0.
-/

namespace BspV3s

namespace Mmc

open Prog

/-! ## Requests -/

/-- `struct rt_mmcsd_data`. -/
structure RtData where
  buf : U32
  flags : U32
  blks : U32
  blksize : U32
  deriving DecidableEq, Repr

/-- `struct rt_mmcsd_cmd`; `respType` is `resp_type(cmd)`, four bits of its flags. -/
structure RtCmd where
  cmdCode : U32
  respType : Fin 16
  arg : U32
  data : Option RtData
  deriving DecidableEq, Repr

/-- `struct rt_mmcsd_req`. -/
structure RtReq where
  cmd : RtCmd
  stop : Option RtCmd
  deriving DecidableEq, Repr

def MMC_RSP_OPCODE : U32 := 1 <<< 4
def MMC_RSP_NONE : U32 := 0
def MMC_RSP_R1 : U32 := MMC_RSP_PRESENT ||| MMC_RSP_CRC ||| MMC_RSP_OPCODE
def MMC_RSP_R1b : U32 := MMC_RSP_PRESENT ||| MMC_RSP_CRC ||| MMC_RSP_OPCODE ||| MMC_RSP_BUSY
def MMC_RSP_R2 : U32 := MMC_RSP_PRESENT ||| MMC_RSP_136 ||| MMC_RSP_CRC
def MMC_RSP_R3 : U32 := MMC_RSP_PRESENT
def MMC_RSP_R4 : U32 := MMC_RSP_PRESENT
def MMC_RSP_R5 : U32 := MMC_RSP_PRESENT ||| MMC_RSP_CRC ||| MMC_RSP_OPCODE
def MMC_RSP_R6 : U32 := MMC_RSP_PRESENT ||| MMC_RSP_CRC ||| MMC_RSP_OPCODE
def MMC_RSP_R7 : U32 := MMC_RSP_PRESENT ||| MMC_RSP_CRC ||| MMC_RSP_OPCODE

/-- The rest of the table of 16 entries is 0. -/
def mmcRespIdx (i : Fin 16) : U32 :=
  [MMC_RSP_NONE, MMC_RSP_R1, MMC_RSP_R1b, MMC_RSP_R2, MMC_RSP_R3, MMC_RSP_R4, MMC_RSP_R6, MMC_RSP_R7,
    MMC_RSP_R5].getD i 0

def mmcFlagsIdx (flags : U32) : U32 :=
  [0, MMC_DATA_WRITE, MMC_DATA_READ, MMC_DATA_READ ||| MMC_DATA_WRITE].getD (flags &&& 0x3).toNat 0

/-- `mmc_conv_reqtommc`, and the data that is passed on when the command has some. -/
def mmcConvReqtommc (req : RtCmd) : MmcCmd × Option MmcData :=
  (⟨req.cmdCode.setWidth 16, mmcRespIdx req.respType, req.arg⟩,
    req.data.map fun d => ⟨d.buf, mmcFlagsIdx d.flags, d.blks, d.blksize⟩)

/-- One half of `mmc_mci_request`: send a command, keep its error, and count. -/
def mmcMciSend (fatalErr : U32) (stop : Bool) (req : RtCmd) (err : Nat) : MmcM Nat := do
  let (cmd, data) := mmcConvReqtommc req
  let ret ← sunxiMmcSendCmd fatalErr cmd data
  setReqErr stop ret
  if ret = 0 then do
    copyResponse stop
    setErr 0
    pure 0
  else do
    setErr (err + 1)
    pure (err + 1)

/-- `mmc_mci_request`, from and to a value of `mmc->err`. -/
def mmcMciRequest (fatalErr : U32) (req : RtReq) (err : Nat) : MmcM Nat := do
  let err ← mmcMciSend fatalErr false req.cmd err
  let err ← (match req.stop with
    | none => pure err
    | some stop => mmcMciSend fatalErr true stop err : MmcM Nat)
  reqComplete
  pure err

/-! ## Commands that reach the card -/

/-- What a store to the command register sends: the index in its low six bits, if the start bit is
set and the bit that only updates the clock is not. -/
def Op.sent : Op → Option (BitVec 6)
  | .writel .cmd v => if v.getLsbD 31 && !v.getLsbD 21 then some (v.setWidth 6) else none
  | _ => none

/-- The commands that a trace sends to the card. -/
def sentCmds (ev : List Event) : List (BitVec 6) :=
  ev.filterMap fun e => e.op.sent

/-- `sunxi_mmc_send_cmd` hands the command to the controller. -/
def Reaches (fatalErr : U32) (c : MmcCmd × Option MmcData) : Prop :=
  fatalErr = 0 ∧ c.1.cmdidx ≠ 12 ∧ ∀ d, c.2 = some d → d.dest &&& 0x3 = 0

instance (fatalErr : U32) (c : MmcCmd × Option MmcData) : Decidable (Reaches fatalErr c) :=
  inferInstanceAs (Decidable (_ ∧ _ ∧ ∀ d, c.2 = some d → d.dest &&& 0x3 = 0))

/-- The commands of a request, in order. -/
def RtReq.cmds (req : RtReq) : List (MmcCmd × Option MmcData) :=
  mmcConvReqtommc req.cmd :: (req.stop.map mmcConvReqtommc).toList

/-- The indices that the card sees of the commands that reach it. -/
def reaching (fatalErr : U32) (cmds : List (MmcCmd × Option MmcData)) : List (BitVec 6) :=
  (cmds.filter fun c => decide (Reaches fatalErr c)).map fun c => c.1.cmdidx.setWidth 6

@[simp] theorem sentCmds_nil : sentCmds [] = [] := rfl

@[simp] theorem sentCmds_append (ev ev' : List Event) :
    sentCmds (ev ++ ev') = sentCmds ev ++ sentCmds ev' :=
  List.filterMap_append

@[simp] theorem reaching_append (f : U32) (cs cs' : List (MmcCmd × Option MmcData)) :
    reaching f (cs ++ cs') = reaching f cs ++ reaching f cs' := by
  unfold reaching
  rw [List.filter_append, List.map_append]

/-- An access of the host driver, not of the request layer. -/
def Op.isHost : Op → Bool
  | .setReqErr _ _ => false
  | .copyResponse _ => false
  | .setErr _ => false
  | .reqComplete => false
  | _ => true

/-- The host driver sends nothing. -/
def Mute {α : Type} (p : MmcM α) : Prop :=
  Prog.Only (fun o => o.sent = none ∧ o.isHost = true) p

theorem Mute.sentCmds {α : Type} {p : MmcM α} {ev : List Event} {a : α} (hp : Mute p)
    (h : Exec p ev a) : sentCmds ev = [] := by
  unfold Mmc.sentCmds
  rw [List.filterMap_eq_nil_iff]
  exact fun e he => (hp.exec h e he).1

/-- A footprint that has room for all that the driver does around the command and its data. -/
structure Aside (A : Op → Prop) : Prop where
  readl : ∀ r, r ≠ .fifo → A (.readl r)
  rint : ∀ v, A (.writel .rint v)
  gctrl : ∀ v, A (.writel .gctrl v)
  upclk : A (.writel .cmd (CMD_START ||| CMD_UPCLK_ONLY ||| CMD_WAIT_PRE_OVER))
  setResponse : ∀ i v, A (.setResponse i v)
  udelay : ∀ usec, A (.udelay usec)

namespace Aside

variable {A : Op → Prop} (hA : Aside A)

include hA

theorem pollWhile (r : Reg) (hr : r ≠ .fifo) (busy : U32) (usec timeout : Nat) :
    Prog.Only A (Mmc.pollWhile r busy usec timeout) := by
  induction timeout with
  | zero =>
      exact Only.bind (only_op (hA.readl r hr)) fun v => Only.ite (only_pure _) (only_pure _)
  | succ timeout ih =>
      refine Only.bind (only_op (hA.readl r hr)) fun v => Only.ite (only_pure _) ?_
      exact Only.bind (only_op (hA.udelay usec)) fun _ => ih

theorem pollUntil (r : Reg) (hr : r ≠ .fifo) (fail done : U32 → Bool) (timeout : Nat) :
    Prog.Only A (Mmc.pollUntil r fail done timeout) := by
  induction timeout with
  | zero => exact Only.bind (only_op (hA.readl r hr)) fun _ => only_pure _
  | succ timeout ih =>
      refine Only.bind (only_op (hA.readl r hr)) fun v => Only.ite (only_pure _) ?_
      exact Only.bind (only_op (hA.udelay 1000)) fun _ => Only.ite (only_pure _) ih

theorem mmcUpdateClk : Prog.Only A Mmc.mmcUpdateClk := by
  refine Only.bind (only_op hA.upclk) fun _ => Only.bind (hA.pollWhile .cmd nofun _ _ _) fun left => ?_
  cases left with
  | none => exact only_pure _
  | some t =>
      refine Only.bind (only_op (hA.readl .rint nofun)) fun v => ?_
      exact Only.bind (only_op (hA.rint v)) fun _ => only_pure _

theorem dataWait (data : Option MmcData) : Prog.Only A (Mmc.dataWait data) := by
  cases data with
  | none => exact only_pure _
  | some d => exact hA.pollUntil .rint nofun _ _ _

theorem readyWait (cmd : MmcCmd) : Prog.Only A (Mmc.readyWait cmd) :=
  Only.ite (hA.pollUntil .status nofun _ _ _) (only_pure _)

theorem readResponse (cmd : MmcCmd) : Prog.Only A (Mmc.readResponse cmd) := by
  have hread : ∀ {α : Type} {r : Reg} (i : Fin 4) {p : MmcM α}, r ≠ .fifo → Prog.Only A p →
      Prog.Only A (Mmc.readl r >>= fun v => Mmc.setResponse i v >>= fun _ => p) :=
    fun i _ hr hp => Only.bind (only_op (hA.readl _ hr)) fun v =>
      Only.bind (only_op (hA.setResponse i v)) fun _ => hp
  have hlast : ∀ {r : Reg} (i : Fin 4), r ≠ .fifo →
      Prog.Only A (Mmc.readl r >>= fun v => Mmc.setResponse i v) :=
    fun i hr => Only.bind (only_op (hA.readl _ hr)) fun v => only_op (hA.setResponse i v)
  refine Only.ite ?_ (hlast 0 nofun)
  exact hread 0 nofun (hread 1 nofun (hread 2 nofun (hlast 3 nofun)))

/-- What follows the start of a command. -/
theorem sendCmdRest (cmd : MmcCmd) (data : Option MmcData) (error : Int) :
    Prog.Only A (if error ≠ 0 then
        pure error
      else do
        let error ← mmcRintWait RINT_COMMAND_DONE 1000
        if error ≠ 0 then
          pure error
        else do
          let error ← Mmc.dataWait data
          if error ≠ 0 then
            pure error
          else do
            let error ← Mmc.readyWait cmd
            if error ≠ 0 then
              pure error
            else do
              Mmc.readResponse cmd
              pure 0) := by
  refine Only.ite (only_pure _) ?_
  refine Only.bind (hA.pollUntil .rint nofun _ _ _) fun e₁ => Only.ite (only_pure _) ?_
  refine Only.bind (hA.dataWait _) fun e₂ => Only.ite (only_pure _) ?_
  refine Only.bind (hA.readyWait _) fun e₃ => Only.ite (only_pure _) ?_
  exact Only.bind (hA.readResponse _) fun _ => only_pure _

theorem sendCmdOut (error : Int) : Prog.Only A (Mmc.sendCmdOut error) := by
  have hclose : Prog.Only A (do
      writel .rint 0xffffffff
      let g ← Mmc.readl .gctrl
      writel .gctrl (g ||| GCTRL_FIFO_RESET)
      pure error) :=
    Only.bind (only_op (hA.rint _)) fun _ => Only.bind (only_op (hA.readl .gctrl nofun)) fun g =>
      Only.bind (only_op (hA.gctrl _)) fun _ => only_pure _
  unfold Mmc.sendCmdOut
  split
  · exact Only.bind (only_op (hA.gctrl _)) fun _ => Only.bind hA.mmcUpdateClk fun _ => hclose
  · exact hclose

end Aside

theorem aside_mute : Aside fun o => o.sent = none ∧ o.isHost = true where
  readl _ _ := ⟨rfl, rfl⟩
  rint _ := ⟨rfl, rfl⟩
  gctrl _ := ⟨rfl, rfl⟩
  upclk := ⟨by decide, rfl⟩
  setResponse _ _ := ⟨rfl, rfl⟩
  udelay _ := ⟨rfl, rfl⟩

theorem mute_moveWord (d : MmcData) (i : Nat) : Mute (moveWord d i) :=
  Only.ite (Only.bind (only_op ⟨rfl, rfl⟩) fun _ => only_op ⟨rfl, rfl⟩)
    (Only.bind (only_op ⟨rfl, rfl⟩) fun _ => only_op ⟨rfl, rfl⟩)

theorem mute_transWords (d : MmcData) (n i timeout : Nat) : Mute (transWords d n i timeout) := by
  induction n generalizing i timeout with
  | zero => exact only_pure _
  | succ n ih =>
      refine Only.bind (aside_mute.pollWhile .status nofun _ _ _) fun left => ?_
      cases left with
      | none => exact only_pure _
      | some t => exact Only.bind (mute_moveWord d i) fun _ => ih _ _

theorem mute_mmcTransDataByCpu (d : MmcData) : Mute (mmcTransDataByCpu d) :=
  Only.bind (only_op ⟨rfl, rfl⟩) fun _ => Only.bind (only_op ⟨rfl, rfl⟩) fun _ => mute_transWords _ _ _ _

/-- Flags that start a command and leave its index alone. -/
structure Starts (v : U32) : Prop where
  start : v.getLsbD 31 = true
  upclk : v.getLsbD 21 = false
  index : ∀ i < 6, v.getLsbD i = false

/-- One more flag outside the index. -/
theorem Starts.flag {v : U32} (h : Starts v) (c : Prop) [Decidable c] {m : U32}
    (hupclk : m.getLsbD 21 = false) (hindex : ∀ i < 6, m.getLsbD i = false) :
    Starts (if c then v ||| m else v) := by
  split
  · refine ⟨?_, ?_, fun i hi => ?_⟩
    · rw [BitVec.getLsbD_or, h.start, Bool.true_or]
    · rw [BitVec.getLsbD_or, h.upclk, hupclk, Bool.or_false]
    · rw [BitVec.getLsbD_or, h.index i hi, hindex i hi, Bool.or_false]
  · exact h

theorem starts_cmdval (cmd : MmcCmd) (data : Option MmcData) : Starts (cmdval cmd data) := by
  have h₀ : Starts CMD_START := ⟨by decide, by decide, by decide⟩
  have h₁ := h₀.flag (cmd.cmdidx = 0) (m := CMD_SEND_INIT_SEQ) (by decide) (by decide)
  have h₂ := h₁.flag (cmd.respType &&& MMC_RSP_PRESENT ≠ 0) (m := CMD_RESP_EXPIRE) (by decide)
    (by decide)
  have h₃ := h₂.flag (cmd.respType &&& MMC_RSP_136 ≠ 0) (m := CMD_LONG_RESPONSE) (by decide)
    (by decide)
  have h₄ := h₃.flag (cmd.respType &&& MMC_RSP_CRC ≠ 0) (m := CMD_CHK_RESPONSE_CRC) (by decide)
    (by decide)
  cases data with
  | none => exact h₄
  | some d =>
      have h₅ := h₄.flag True (m := CMD_DATA_EXPIRE ||| CMD_WAIT_PRE_OVER) (by decide) (by decide)
      rw [if_pos trivial] at h₅
      exact (h₅.flag (d.flags &&& MMC_DATA_WRITE ≠ 0) (m := CMD_WRITE) (by decide)
        (by decide)).flag (d.blocks > 1) (m := CMD_AUTO_STOP) (by decide) (by decide)

theorem sent_cmdval (cmd : MmcCmd) (data : Option MmcData) :
    (Op.writel .cmd (cmdval cmd data ||| cmd.cmdidx.setWidth 32)).sent =
      some (cmd.cmdidx.setWidth 6) := by
  have h := starts_cmdval cmd data
  have hupclk : (cmd.cmdidx.setWidth 32).getLsbD 21 = false := by
    rw [BitVec.getLsbD_setWidth, BitVec.getLsbD_of_ge _ _ (by omega), Bool.and_false]
  have hbits : ((cmdval cmd data ||| cmd.cmdidx.setWidth 32).getLsbD 31 &&
      !(cmdval cmd data ||| cmd.cmdidx.setWidth 32).getLsbD 21) = true := by
    rw [BitVec.getLsbD_or, BitVec.getLsbD_or, h.start, h.upclk, hupclk]
    rfl
  have hindex : (cmdval cmd data ||| cmd.cmdidx.setWidth 32).setWidth 6 =
      cmd.cmdidx.setWidth 6 := by
    apply BitVec.eq_of_getLsbD_eq
    intro i hi
    have hwide : i < 32 := by omega
    rw [BitVec.getLsbD_setWidth, BitVec.getLsbD_or, h.index i hi, Bool.false_or,
      BitVec.getLsbD_setWidth, BitVec.getLsbD_setWidth, decide_eq_true hwide, Bool.true_and]
  rw [Op.sent, if_pos hbits, hindex]

/-! ## One command -/

theorem sentCmds_cons (e : Event) (ev : List Event) :
    sentCmds (e :: ev) = e.op.sent.toList ++ sentCmds ev := by
  unfold sentCmds
  rw [List.filterMap_cons]
  cases e.op.sent <;> rfl

/-- A command is issued with its own index, unless its buffer is misaligned. -/
theorem sentCmds_sendCmdStart {cmd : MmcCmd} {data : Option MmcData} {ev : List Event} {res : Int}
    (h : Exec (sendCmdStart cmd data) ev res) :
    sentCmds ev = if ∀ d, data = some d → d.dest &&& 0x3 = 0 then [cmd.cmdidx.setWidth 6]
      else [] := by
  cases data with
  | none =>
      rcases exec_op_bind_iff.1 h with ⟨_, ev₁, rfl, h₁⟩
      rcases exec_op_bind_iff.1 h₁ with ⟨_, ev₂, rfl, h₂⟩
      rcases exec_pure_iff.1 h₂ with ⟨rfl, rfl⟩
      rw [sentCmds_cons, sentCmds_cons, sent_cmdval, if_pos (by simp)]
      rfl
  | some d =>
      simp only [sendCmdStart] at h
      split at h
      -- A buffer that is not aligned is refused before anything is sent.
      · next hmis =>
          rcases exec_pure_iff.1 h with ⟨rfl, rfl⟩
          rw [if_neg fun hall => hmis (hall d rfl)]
          rfl
      · next hal =>
          rcases exec_op_bind_iff.1 h with ⟨_, ev₁, rfl, h₁⟩
          rcases exec_op_bind_iff.1 h₁ with ⟨_, ev₂, rfl, h₂⟩
          rcases exec_op_bind_iff.1 h₂ with ⟨_, ev₃, rfl, h₃⟩
          rcases exec_op_bind_iff.1 h₃ with ⟨_, ev₄, rfl, h₄⟩
          -- The transfer behind the command sends none.
          have hrest : sentCmds ev₄ = [] := by
            refine Mute.sentCmds (Only.bind (mute_mmcTransDataByCpu d) fun ret => ?_) h₄
            exact Only.ite (Only.bind (only_op ⟨rfl, rfl⟩) fun _ => only_pure _) (only_pure _)
          have hall : ∀ d', some d = some d' → d'.dest &&& 0x3 = 0 := by
            rintro d' ⟨⟩
            exact Decidable.of_not_not hal
          rw [sentCmds_cons, sentCmds_cons, sentCmds_cons, sentCmds_cons, sent_cmdval, hrest,
            if_pos hall]
          rfl

theorem sentCmds_sendCmdBody {cmd : MmcCmd} {data : Option MmcData} {ev : List Event} {res : Int}
    (h : Exec (sendCmdBody cmd data) ev res) :
    sentCmds ev = if ∀ d, data = some d → d.dest &&& 0x3 = 0 then [cmd.cmdidx.setWidth 6]
      else [] := by
  rcases exec_bind_iff.1 h with ⟨ev₁, ev₂, error, rfl, hstart, hrest⟩
  rw [sentCmds_append, sentCmds_sendCmdStart hstart,
    Mute.sentCmds (aside_mute.sendCmdRest cmd data error) hrest, List.append_nil]

/-- The only command that a call sends is its own, and it never sends CMD12. -/
theorem sentCmds_sunxiMmcSendCmd {fatalErr : U32} {cmd : MmcCmd} {data : Option MmcData}
    {ev : List Event} {res : Int} (h : Exec (sunxiMmcSendCmd fatalErr cmd data) ev res) :
    sentCmds ev = reaching fatalErr [(cmd, data)] := by
  unfold sunxiMmcSendCmd at h
  unfold reaching
  split at h
  · next hfatal =>
      rcases exec_pure_iff.1 h with ⟨rfl, rfl⟩
      have hnot : ¬ Reaches fatalErr (cmd, data) := fun hr => hfatal hr.1
      simp [hnot]
  · next hfatal =>
      split at h
      · next hidx =>
          rcases exec_pure_iff.1 h with ⟨rfl, rfl⟩
          have hnot : ¬ Reaches fatalErr (cmd, data) := fun hr => hr.2.1 hidx
          simp [hnot]
      · next hidx =>
          rcases exec_bind_iff.1 h with ⟨ev₁, ev₂, error, rfl, hbody, hout⟩
          rw [sentCmds_append, sentCmds_sendCmdBody hbody,
            Mute.sentCmds (aside_mute.sendCmdOut error) hout, List.append_nil]
          split
          · next hal =>
              have hr : Reaches fatalErr (cmd, data) := ⟨Decidable.of_not_not hfatal, hidx, hal⟩
              simp [hr]
          · next hmis =>
              have hnot : ¬ Reaches fatalErr (cmd, data) := fun hr => hmis hr.2.2
              simp [hnot]

/-- A call keeps to the host. -/
theorem host_sunxiMmcSendCmd (fatalErr : U32) (cmd : MmcCmd) (data : Option MmcData) :
    Prog.Only (fun o => o.isHost = true) (sunxiMmcSendCmd fatalErr cmd data) := by
  have hmute : ∀ {α : Type} {p : MmcM α}, Mute p → Prog.Only (fun o => o.isHost = true) p :=
    fun hp => hp.mono fun _ ho => ho.2
  have hstart : Prog.Only (fun o => o.isHost = true) (sendCmdStart cmd data) := by
    cases data with
    | none => exact Only.bind (only_op rfl) fun _ => Only.bind (only_op rfl) fun _ => only_pure _
    | some d =>
        refine Only.ite (only_pure _) ?_
        refine Only.bind (only_op rfl) fun _ => Only.bind (only_op rfl) fun _ => ?_
        refine Only.bind (only_op rfl) fun _ => Only.bind (only_op rfl) fun _ => ?_
        refine Only.bind (hmute (mute_mmcTransDataByCpu d)) fun ret => ?_
        exact Only.ite (Only.bind (only_op rfl) fun _ => only_pure _) (only_pure _)
  refine Only.ite (only_pure _) (Only.ite (only_pure _) ?_)
  refine Only.bind (Only.bind hstart fun error => ?_) fun error => hmute (aside_mute.sendCmdOut error)
  exact hmute (aside_mute.sendCmdRest cmd data error)

/-- A call answers 0 only to a command that has reached the card, or to CMD12. -/
theorem sunxiMmcSendCmd_zero {fatalErr : U32} {cmd : MmcCmd} {data : Option MmcData}
    {ev : List Event} (h : Exec (sunxiMmcSendCmd fatalErr cmd data) ev 0) :
    Reaches fatalErr (cmd, data) ∨ fatalErr = 0 ∧ cmd.cmdidx = 12 := by
  unfold sunxiMmcSendCmd at h
  split at h
  · have hret := (exec_pure_iff.1 h).2
    omega
  · next hfatal =>
      have hzero : fatalErr = 0 := Decidable.of_not_not hfatal
      split at h
      · next hidx => exact .inr ⟨hzero, hidx⟩
      · next hidx =>
          refine .inl ⟨hzero, hidx, ?_⟩
          rintro d rfl
          by_cases hal : d.dest &&& 0x3 = 0
          · exact hal
          · rcases exec_bind_iff.1 h with ⟨ev₁, ev₂, error, rfl, hbody, hout⟩
            rcases exec_bind_iff.1 hbody with ⟨ev₃, ev₄, error', rfl, hstart, hrest⟩
            have herror' : error' = -1 := by
              simp only [sendCmdStart, if_pos (show d.dest &&& 0x3 ≠ 0 from hal)] at hstart
              exact (exec_pure_iff.1 hstart).2
            rw [herror', if_pos (by decide)] at hrest
            have herror := (exec_pure_iff.1 hrest).2
            have hret := (exec_sendCmdOut hout).1
            omega

/-! ## One request -/

/-- A half of a request is its send, the stores around it, and a new count. -/
theorem exec_mmcMciSend {fatalErr : U32} {stop : Bool} {req : RtCmd} {err err' : Nat}
    {ev : List Event} (h : Exec (mmcMciSend fatalErr stop req err) ev err') :
    ∃ ev₁ ret, Exec (sunxiMmcSendCmd fatalErr (mmcConvReqtommc req).1 (mmcConvReqtommc req).2) ev₁
        ret ∧
      (ret = 0 ∧ err' = 0 ∧ ev = ev₁ ++ [⟨.setReqErr stop ret, ()⟩, ⟨.copyResponse stop, ()⟩,
          ⟨.setErr 0, ()⟩] ∨
        ret ≠ 0 ∧ err' = err + 1 ∧
          ev = ev₁ ++ [⟨.setReqErr stop ret, ()⟩, ⟨.setErr (err + 1), ()⟩]) := by
  rcases exec_bind_iff.1 h with ⟨ev₁, ev₂, ret, rfl, hsend, hrest⟩
  refine ⟨ev₁, ret, hsend, ?_⟩
  rcases exec_op_bind_iff.1 hrest with ⟨_, ev₃, rfl, h₃⟩
  split at h₃
  · next hzero =>
      rcases exec_op_bind_iff.1 h₃ with ⟨_, ev₄, rfl, h₄⟩
      rcases exec_op_bind_iff.1 h₄ with ⟨_, ev₅, rfl, h₅⟩
      rcases exec_pure_iff.1 h₅ with ⟨rfl, rfl⟩
      exact .inl ⟨hzero, rfl, rfl⟩
  · next hfail =>
      rcases exec_op_bind_iff.1 h₃ with ⟨_, ev₄, rfl, h₄⟩
      rcases exec_pure_iff.1 h₄ with ⟨rfl, rfl⟩
      exact .inr ⟨hfail, rfl, rfl⟩

/-- A request is its two halves and the completion. -/
theorem exec_mmcMciRequest {fatalErr : U32} {req : RtReq} {err err' : Nat} {ev : List Event}
    (h : Exec (mmcMciRequest fatalErr req err) ev err') :
    ∃ ev₁ err₁, Exec (mmcMciSend fatalErr false req.cmd err) ev₁ err₁ ∧
      (req.stop = none ∧ err' = err₁ ∧ ev = ev₁ ++ [⟨.reqComplete, ()⟩] ∨
        ∃ stop ev₂, req.stop = some stop ∧ Exec (mmcMciSend fatalErr true stop err₁) ev₂ err' ∧
          ev = ev₁ ++ ev₂ ++ [⟨.reqComplete, ()⟩]) := by
  rcases exec_bind_iff.1 h with ⟨ev₁, ev₂, err₁, rfl, hcmd, hrest⟩
  refine ⟨ev₁, err₁, hcmd, ?_⟩
  rcases exec_bind_iff.1 hrest with ⟨ev₃, ev₄, err₂, rfl, hstop, hend⟩
  rcases exec_op_bind_iff.1 hend with ⟨_, ev₅, rfl, h₅⟩
  rcases exec_pure_iff.1 h₅ with ⟨rfl, rfl⟩
  cases hs : req.stop with
  | none =>
      rw [hs] at hstop
      rcases exec_pure_iff.1 hstop with ⟨rfl, rfl⟩
      exact .inl ⟨rfl, rfl, rfl⟩
  | some stop =>
      rw [hs] at hstop
      exact .inr ⟨stop, ev₃, rfl, hstop, (List.append_assoc ..).symm⟩

theorem sentCmds_send {fatalErr : U32} {stop : Bool} {req : RtCmd} {err err' : Nat}
    {ev : List Event} (h : Exec (mmcMciSend fatalErr stop req err) ev err') :
    sentCmds ev = reaching fatalErr [mmcConvReqtommc req] := by
  rcases exec_mmcMciSend h with ⟨ev₁, ret, hsend, ⟨-, -, rfl⟩ | ⟨-, -, rfl⟩⟩
  · rw [sentCmds_append, sentCmds_sunxiMmcSendCmd hsend]
    exact List.append_nil _
  · rw [sentCmds_append, sentCmds_sunxiMmcSendCmd hsend]
    exact List.append_nil _

/-- What a request sends to the card: those of its commands that reach it. -/
theorem sentCmds_request {fatalErr : U32} {req : RtReq} {err err' : Nat} {ev : List Event}
    (h : Exec (mmcMciRequest fatalErr req err) ev err') :
    sentCmds ev = reaching fatalErr req.cmds := by
  have hcomplete : sentCmds [⟨.reqComplete, ()⟩] = [] := rfl
  rcases exec_mmcMciRequest h with ⟨ev₁, err₁, hcmd, ⟨hs, -, rfl⟩ | ⟨stop, ev₂, hs, hstop, rfl⟩⟩
  · rw [sentCmds_append, sentCmds_send hcmd, hcomplete, List.append_nil, RtReq.cmds, hs]
    rfl
  · have hcmds : req.cmds = [mmcConvReqtommc req.cmd] ++ [mmcConvReqtommc stop] := by
      rw [RtReq.cmds, hs]
      rfl
    rw [sentCmds_append, sentCmds_append, sentCmds_send hcmd, sentCmds_send hstop, hcomplete,
      List.append_nil, hcmds, reaching_append]

/-! ## The error count -/

/-- The values that a trace stores in `mmc->err`. -/
def errStores (ev : List Event) : List Nat :=
  ev.filterMap fun e =>
    match e.op with
    | .setErr n => some n
    | _ => none

/-- The errors that a trace stores for the command of its request, or for the stop command. -/
def reqErrs (stop : Bool) (ev : List Event) : List Int :=
  ev.filterMap fun e =>
    match e.op with
    | .setReqErr s v => if s = stop then some v else none
    | _ => none

/-- Requests one after another, from one value of `mmc->err` to another. -/
inductive RequestRun (fatalErr : U32) : Nat → List (RtReq × List Event) → Nat → Prop
  | nil {err : Nat} : RequestRun fatalErr err [] err
  | cons {err err₁ err' : Nat} {req : RtReq} {ev : List Event} {run : List (RtReq × List Event)} :
      Exec (mmcMciRequest fatalErr req err) ev err₁ → RequestRun fatalErr err₁ run err' →
        RequestRun fatalErr err ((req, ev) :: run) err'

/-- Every command of the request that reaches the hardware fails. -/
def HardwareFails (fatalErr : U32) (req : RtReq) (ev : List Event) : Prop :=
  (Reaches fatalErr (mmcConvReqtommc req.cmd) → ∀ ret ∈ reqErrs false ev, ret ≠ 0) ∧
    ∀ stop, req.stop = some stop → Reaches fatalErr (mmcConvReqtommc stop) →
      ∀ ret ∈ reqErrs true ev, ret ≠ 0

/-- No command of the request is the CMD12 that `sunxi_mmc_send_cmd` answers by itself. -/
def NoCmd12 (fatalErr : U32) (req : RtReq) : Prop :=
  fatalErr = 0 → ∀ c ∈ req.cmds, c.1.cmdidx ≠ 12

theorem isChain_succ {n : Nat} {l : List Nat} (h : ((n + 1) :: l).IsChain (· ≤ ·)) :
    (n :: (n + 1) :: l).IsChain (· ≤ ·) :=
  List.isChain_cons_cons.2 ⟨Nat.le_succ n, h⟩

/-- A half of a request that does not succeed counts one. -/
theorem mmcMciSend_fails {fatalErr : U32} {stop : Bool} {req : RtCmd} {err err' : Nat}
    {ev : List Event} (h : Exec (mmcMciSend fatalErr stop req err) ev err')
    (hfails : Reaches fatalErr (mmcConvReqtommc req) → ∀ ret ∈ reqErrs stop ev, ret ≠ 0)
    (h12 : fatalErr = 0 → (mmcConvReqtommc req).1.cmdidx ≠ 12) :
    err' = err + 1 ∧ errStores ev = [err + 1] := by
  rcases exec_mmcMciSend h with ⟨ev₁, ret, hsend, ⟨hret, -, rfl⟩ | ⟨-, herr, rfl⟩⟩
  · rw [hret] at hsend hfails
    rcases sunxiMmcSendCmd_zero hsend with hreach | ⟨hfatal, hidx⟩
    · exact absurd rfl (hfails hreach 0 (by simp [reqErrs]))
    · exact absurd hidx (h12 hfatal)
  · have hhost : errStores ev₁ = [] := by
      unfold errStores
      rw [List.filterMap_eq_nil_iff]
      intro e he
      have hop := (host_sunxiMmcSendCmd _ _ _).exec hsend e he
      rcases e with ⟨o, r⟩
      cases o <;> first | rfl | exact Bool.noConfusion hop
    refine ⟨herr, ?_⟩
    unfold errStores at hhost ⊢
    rw [List.filterMap_append, hhost]
    rfl

/-- A request none of whose commands succeeds counts upwards. -/
theorem mmcMciRequest_fails {fatalErr : U32} {req : RtReq} {err err' : Nat} {ev : List Event}
    (h : Exec (mmcMciRequest fatalErr req err) ev err') (hfails : HardwareFails fatalErr req ev)
    (h12 : NoCmd12 fatalErr req) :
    err + 1 ≤ err' ∧ ∀ l : List Nat, (err' :: l).IsChain (· ≤ ·) →
      (err :: (errStores ev ++ l)).IsChain (· ≤ ·) := by
  have hcomplete : errStores [⟨.reqComplete, ()⟩] = [] := rfl
  have hmem : ∀ {stop : Bool} {ret : Int} (ev : List Event) {ev' ev'' : List Event},
      ret ∈ reqErrs stop ev' → ret ∈ reqErrs stop (ev ++ ev' ++ ev'') := by
    intro stop ret ev ev' ev'' hret
    unfold reqErrs at hret ⊢
    rw [List.filterMap_append, List.filterMap_append]
    exact List.mem_append_left _ (List.mem_append_right _ hret)
  have happend : ∀ ev ev' : List Event, errStores (ev ++ ev') = errStores ev ++ errStores ev' :=
    fun ev ev' => List.filterMap_append
  -- The request ends behind its command, or behind the stop that follows it.
  rcases exec_mmcMciRequest h with ⟨ev₁, err₁, hcmd, ⟨hs, herr, rfl⟩ | ⟨stop, ev₂, hs, hstop, rfl⟩⟩
  · rcases mmcMciSend_fails hcmd (fun hr ret hret => hfails.1 hr ret (hmem [] hret))
      (fun hf => h12 hf _ (by simp [RtReq.cmds])) with ⟨herr₁, hstores⟩
    rw [herr, herr₁]
    refine ⟨le_rfl, fun l hl => ?_⟩
    rw [happend, hstores, hcomplete]
    exact isChain_succ hl
  · rcases mmcMciSend_fails hcmd
      (fun hr ret hret => hfails.1 hr ret (by rw [List.append_assoc]; exact hmem [] hret))
      (fun hf => h12 hf _ (by simp [RtReq.cmds])) with ⟨herr₁, hstores⟩
    rcases mmcMciSend_fails hstop (fun hr ret hret => hfails.2 stop hs hr ret (hmem _ hret))
      (fun hf => h12 hf _ (by simp [RtReq.cmds, hs])) with ⟨herr₂, hstores₂⟩
    rw [herr₂, herr₁]
    refine ⟨by omega, fun l hl => ?_⟩
    rw [happend, happend, hstores, hstores₂, hcomplete, herr₁]
    exact isChain_succ (isChain_succ hl)

/-- While no command succeeds and none is CMD12, `mmc->err` never goes down, and it has grown by at
least one for each request; after eleven of them the monitor takes the card for removed. -/
theorem err_counts_failures {fatalErr : U32} {err err' : Nat} {run : List (RtReq × List Event)}
    (hrun : RequestRun fatalErr err run err')
    (hfails : ∀ x ∈ run, HardwareFails fatalErr x.1 x.2) (h12 : ∀ x ∈ run, NoCmd12 fatalErr x.1) :
    (err :: run.flatMap fun x => errStores x.2).IsChain (· ≤ ·) ∧ err + run.length ≤ err' ∧
      (11 ≤ run.length → err' > 10) := by
  induction hrun with
  | nil => exact ⟨List.isChain_singleton _, le_rfl, by simp⟩
  | cons hreq _ ih =>
      rcases ih (fun x hx => hfails x (List.mem_cons_of_mem _ hx))
        (fun x hx => h12 x (List.mem_cons_of_mem _ hx)) with ⟨hchain, hle, -⟩
      rcases mmcMciRequest_fails hreq (hfails _ List.mem_cons_self) (h12 _ List.mem_cons_self)
        with ⟨hone, hstores⟩
      simp only [List.flatMap_cons, List.length_cons]
      exact ⟨hstores _ hchain, by omega, by omega⟩

/-! ## A card that never answers -/

/-- The controller reports a response timeout to every command, and takes every clock update. -/
def noResponse : (o : Op) → o.Ret
  | .readl .rint => RINT_RESP_TIMEOUT
  | .readl _ => 0
  | .writel _ _ => ()
  | .load _ => 0
  | .store _ _ => ()
  | .setResponse _ _ => ()
  | .udelay _ => ()
  | .setReqErr _ _ => ()
  | .copyResponse _ => ()
  | .setErr _ => ()
  | .reqComplete => ()

/-- CMD13, followed by `stop`. -/
def statusReq (stop : Option RtCmd) : RtReq := ⟨⟨13, 1, 0, none⟩, stop⟩

def stopCmd : RtCmd := ⟨12, 2, 0, none⟩

/-- The trace of a request to a card that never answers. -/
def unanswered (req : RtReq) (err : Nat) : List Event :=
  (mmcMciRequest 0 req err).trace noResponse

theorem RequestRun.replicate {fatalErr : U32} {req : RtReq} {err : Nat} {ev : List Event}
    (h : Exec (mmcMciRequest fatalErr req err) ev err) (n : Nat) :
    RequestRun fatalErr err (List.replicate n (req, ev)) err := by
  induction n with
  | zero => exact .nil
  | succ n ih => exact .cons h ih

/-- CMD52, with which the driver of an SDIO card stops a transfer. -/
def abortCmd : RtCmd := ⟨52, 8, 0, none⟩

/-- CMD13 once for each of `l`, where it says so with CMD52 behind it, without an answer to either. -/
def unansweredRun : List Bool → Nat → List (RtReq × List Event)
  | [], _ => []
  | false :: l, err => (statusReq none, unanswered (statusReq none) err) :: unansweredRun l (err + 1)
  | true :: l, err =>
      (statusReq (some abortCmd), unanswered (statusReq (some abortCmd)) err) ::
        unansweredRun l (err + 2)

theorem requestRun_unanswered (l : List Bool) (err : Nat) :
    RequestRun 0 err (unansweredRun l err) (err + l.length + l.count true) := by
  induction l generalizing err with
  | nil => exact .nil
  | cons stop l ih =>
      cases stop with
      | false =>
          have hrest := ih (err + 1)
          rw [Nat.add_right_comm err 1] at hrest
          exact .cons (exec_trace noResponse (mmcMciRequest 0 (statusReq none) err)) hrest
      | true =>
          have hrest := ih (err + 2)
          have hcount : err + 2 + l.length + l.count true =
              err + (true :: l).length + (true :: l).count true := by
            rw [List.length_cons, List.count_cons_self]
            omega
          rw [hcount] at hrest
          exact .cons (exec_trace noResponse (mmcMciRequest 0 (statusReq (some abortCmd)) err)) hrest

theorem unansweredRun_fails {l : List Bool} {err : Nat} :
    ∀ x ∈ unansweredRun l err, HardwareFails 0 x.1 x.2 ∧ NoCmd12 0 x.1 := by
  induction l generalizing err with
  | nil => exact fun x hx => absurd hx List.not_mem_nil
  | cons stop l ih =>
      have hanswer : ∀ ret ∈ [-ETIMEDOUT], ret ≠ 0 := by decide
      have hstatus : ∀ c ∈ (statusReq none).cmds, c.1.cmdidx ≠ 12 := by decide
      have habort : ∀ c ∈ (statusReq (some abortCmd)).cmds, c.1.cmdidx ≠ 12 := by decide
      intro x hx
      cases stop with
      | false =>
          rcases List.mem_cons.1 hx with rfl | hx
          · exact ⟨⟨fun _ => hanswer, nofun⟩, fun _ => hstatus⟩
          · exact ih x hx
      | true =>
          rcases List.mem_cons.1 hx with rfl | hx
          · exact ⟨⟨fun _ => hanswer, fun _ _ _ => hanswer⟩, fun _ => habort⟩
          · exact ih x hx

theorem length_unansweredRun (l : List Bool) (err : Nat) : (unansweredRun l err).length = l.length := by
  induction l generalizing err with
  | nil => rfl
  | cons stop l ih =>
      cases stop with
      | false => exact congrArg (· + 1) (ih _)
      | true => exact congrArg (· + 1) (ih _)

/-- Eleven requests without an answer, every third of them with a CMD52 behind it. -/
theorem err_counts_failures_eleven :
    ∃ run err', RequestRun 0 0 run err' ∧ run.length = 11 ∧
      (∃ x ∈ run, x.1.stop = some abortCmd) ∧
      (0 :: run.flatMap fun x => errStores x.2).IsChain (· ≤ ·) ∧ err' > 10 := by
  have hrun := requestRun_unanswered
    [false, false, true, false, false, true, false, false, true, false, false] 0
  have hmain := err_counts_failures hrun (fun x hx => (unansweredRun_fails x hx).1)
    fun x hx => (unansweredRun_fails x hx).2
  refine ⟨_, _, hrun, length_unansweredRun _ _, ?_, hmain.1, hmain.2.2 ?_⟩
  · exact ⟨_, .tail _ (.tail _ (.head _)), rfl⟩
  · rw [length_unansweredRun]
    decide

/-- Eleven times a CMD13 without an answer and the CMD12 that stops it: the count is still 0. -/
theorem err_reset_by_stop :
    ∃ run : List (RtReq × List Event), RequestRun 0 0 run 0 ∧ run.length = 11 ∧
      (∀ x ∈ run, HardwareFails 0 x.1 x.2) ∧ ¬ 0 > 10 ∧
      ¬ (0 :: run.flatMap fun x => errStores x.2).IsChain (· ≤ ·) := by
  have hexec : Exec (mmcMciRequest 0 (statusReq (some stopCmd)) 0)
      (unanswered (statusReq (some stopCmd)) 0) 0 :=
    exec_trace noResponse (mmcMciRequest 0 (statusReq (some stopCmd)) 0)
  refine ⟨_, .replicate hexec 11, List.length_replicate, ?_, by decide, by decide⟩
  intro x hx
  rw [(List.mem_replicate.1 hx).2]
  refine ⟨fun _ => by decide, ?_⟩
  rintro stop ⟨⟩ hreach
  exact absurd rfl hreach.2.1

end Mmc

end BspV3s
