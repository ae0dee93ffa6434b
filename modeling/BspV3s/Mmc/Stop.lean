import BspV3s.Mmc.Request

/-!
# Stop — who stops a transfer that has failed

After a multi-block transfer the card must be sent CMD12.  The controller does it by itself once all the
blocks have gone through, and the core adds a stop command to the request for when they have not; but
`sunxi_mmc_send_cmd` never sends that command.  On the bus between controller and card are the commands
that the driver stores and the CMD12 of the controller; this module says what the card sees after a
transfer that has failed.

* `stopped_iff`          : when a CMD12 comes before any other command;
* `sendStatus_unstopped` : after a read whose data phase never ends, CMD13 does.
-/

namespace BspV3s

namespace Mmc

open Prog

/-! ## The bus -/

/-- An access of the driver, or the controller sending the CMD12 of a transfer with automatic stop. -/
inductive BusEvent
  | access (e : Event)
  | autoStop

def BusEvent.access? : BusEvent → Option Event
  | .access e => some e
  | .autoStop => none

/-- The command that the card sees. -/
def BusEvent.command? : BusEvent → Option (BitVec 6)
  | .access e => e.op.sent
  | .autoStop => some 12

def accesses (bus : List BusEvent) : List Event :=
  bus.filterMap BusEvent.access?

def cardLog (bus : List BusEvent) : List (BitVec 6) :=
  bus.filterMap BusEvent.command?

/-- What follows the first command that the driver sends. -/
def afterCommand : List BusEvent → List BusEvent
  | [] => []
  | .access e :: bus => if e.op.sent.isSome then bus else afterCommand bus
  | .autoStop :: bus => afterCommand bus

/-! ## Automatic stop -/

/-- The value of the byte count register after an access. -/
def bytecntAfter (v : U32) (e : Event) : U32 :=
  match e.op with
  | .writel .bytecnt w => w
  | _ => v

/-- The last command asks for automatic stop. -/
def Event.autoStops (e : Event) : Bool :=
  match e.op with
  | .writel .cmd v => v &&& CMD_AUTO_STOP ≠ 0
  | _ => false

/-- The last command starts a write. -/
def Event.writes (e : Event) : Bool :=
  match e.op with
  | .writel .cmd v => v &&& CMD_WRITE ≠ 0
  | _ => false

/-- What the controller knows of a transfer: the byte count register and, of the last command, whether
it is to be stopped, how many bytes the driver has to hand over before it can be, and how many words the
driver has moved.  A read needs nothing of the driver: its last words may still be in the FIFO when all
the blocks have come from the card. -/
structure Transfer where
  bytecnt : U32
  armed : Bool
  need : Nat
  moved : Nat
  deriving DecidableEq, Repr

def Transfer.idle : Transfer := ⟨0, false, 0, 0⟩

def Transfer.step (t : Transfer) : BusEvent → Transfer
  | .access e =>
      if e.op.sent.isSome then
        ⟨bytecntAfter t.bytecnt e, e.autoStops, if e.writes then t.bytecnt.toNat else 0, 0⟩
      else ⟨bytecntAfter t.bytecnt e, t.armed, t.need, t.moved + if e.isFifo then 1 else 0⟩
  | .autoStop => { t with armed := false }

/-- The controller sends CMD12 only for a transfer that asks for it, and after all its blocks: those of a
write it has to have been given. -/
def Lawful : Transfer → List BusEvent → Prop
  | _, [] => True
  | t, .access e :: bus => Lawful (t.step (.access e)) bus
  | t, .autoStop :: bus => (t.armed = true ∧ t.need ≤ 4 * t.moved) ∧ Lawful (t.step .autoStop) bus

section Lists

variable {bus bus' : List BusEvent}

@[simp] theorem accesses_append : accesses (bus ++ bus') = accesses bus ++ accesses bus' :=
  List.filterMap_append

@[simp] theorem cardLog_append : cardLog (bus ++ bus') = cardLog bus ++ cardLog bus' :=
  List.filterMap_append

theorem lawful_append {t : Transfer} :
    Lawful t (bus ++ bus') ↔ Lawful t bus ∧ Lawful (bus.foldl Transfer.step t) bus' := by
  induction bus generalizing t with
  | nil => exact ⟨fun h => ⟨trivial, h⟩, And.right⟩
  | cons b bus ih =>
      cases b with
      | access e => exact ih
      | autoStop => exact (and_congr_right fun _ => ih).trans and_assoc.symm

/-- A controller that stops nothing is lawful. -/
theorem lawful_accesses (t : Transfer) (ev : List Event) : Lawful t (ev.map .access) := by
  induction ev generalizing t with
  | nil => trivial
  | cons e ev ih => exact ih _

theorem accesses_map (ev : List Event) : accesses (ev.map .access) = ev := by
  induction ev with
  | nil => rfl
  | cons e ev ih => exact congrArg (e :: ·) ih

theorem foldl_bytecnt (t : Transfer) :
    (bus.foldl Transfer.step t).bytecnt = (accesses bus).foldl bytecntAfter t.bytecnt := by
  induction bus generalizing t with
  | nil => rfl
  | cons b bus ih =>
      cases b with
      | access e =>
          have hstep : (t.step (.access e)).bytecnt = bytecntAfter t.bytecnt e := by
            simp only [Transfer.step]
            split <;> rfl
          rw [List.foldl_cons, ih, hstep]
          rfl
      | autoStop => exact ih _

/-- While nothing is sent, the words that are moved are counted. -/
theorem foldl_moved (t : Transfer) (h : cardLog bus = []) :
    (bus.foldl Transfer.step t).need = t.need ∧
      (bus.foldl Transfer.step t).moved = t.moved + fifoWords (accesses bus) := by
  induction bus generalizing t with
  | nil => exact ⟨rfl, rfl⟩
  | cons b bus ih =>
      unfold cardLog at h ih
      cases b with
      | access e =>
          have hnone : e.op.sent = none := by
            by_contra hsome
            rcases Option.ne_none_iff_exists'.1 hsome with ⟨c, hc⟩
            simp [BusEvent.command?, hc] at h
          have hrest : bus.filterMap BusEvent.command? = [] := by
            simpa [BusEvent.command?, hnone] using h
          rcases ih (t.step (.access e)) hrest with ⟨hneed, hmoved⟩
          have hcons : accesses (.access e :: bus) = e :: accesses bus := rfl
          rw [List.foldl_cons, hneed, hmoved, hcons, fifoWords_cons]
          simp only [Transfer.step, hnone, Option.isSome_none, Bool.false_eq_true, if_false]
          exact ⟨trivial, by omega⟩
      | autoStop => simp [BusEvent.command?] at h

/-- The bus up to its first command, that command, and the rest. -/
theorem split_command {i : BitVec 6} {l : List (BitVec 6)} (h : sentCmds (accesses bus) = i :: l) :
    ∃ bus₁ e, bus = bus₁ ++ .access e :: afterCommand bus ∧ sentCmds (accesses bus₁) = [] ∧
      e.op.sent = some i ∧ sentCmds (accesses (afterCommand bus)) = l := by
  induction bus with
  | nil => cases h
  | cons b bus ih =>
      cases b with
      | access e =>
          have hcons : sentCmds (accesses (.access e :: bus)) =
              e.op.sent.toList ++ sentCmds (accesses bus) := sentCmds_cons e _
          rw [hcons] at h
          cases hsent : e.op.sent with
          | none =>
              rw [hsent] at h
              -- An access that sends nothing lies before the command.
              rcases ih h with ⟨bus₁, e', hbus, hnone, he', hl⟩
              have hafter : afterCommand (.access e :: bus) = afterCommand bus := by
                simp [afterCommand, hsent]
              have hcons₁ : sentCmds (accesses (.access e :: bus₁)) =
                  e.op.sent.toList ++ sentCmds (accesses bus₁) := sentCmds_cons e _
              rw [hafter]
              refine ⟨.access e :: bus₁, e', congrArg (_ :: ·) hbus, ?_, he', hl⟩
              rw [hcons₁, hsent, hnone]
              rfl
          | some c =>
              rw [hsent] at h
              -- This access sends it.
              rcases List.cons.inj h with ⟨rfl, hl⟩
              have hafter : afterCommand (.access e :: bus) = bus := by
                simp [afterCommand, hsent]
              rw [hafter]
              exact ⟨[], e, rfl, rfl, hsent, hl⟩
      | autoStop =>
          rcases ih h with ⟨bus₁, e, hbus, hnone, he, hl⟩
          exact ⟨.autoStop :: bus₁, e, congrArg (_ :: ·) hbus, hnone, he, hl⟩

/-- The first command on the bus is the controller's, or the first that the driver sends. -/
theorem head_cardLog (bus : List BusEvent) :
    (∃ bus₁ bus₂, bus = bus₁ ++ .autoStop :: bus₂ ∧ cardLog bus₁ = []) ∧
        (cardLog bus).head? = some 12 ∨
      (¬ ∃ bus₁ bus₂, bus = bus₁ ++ .autoStop :: bus₂ ∧ cardLog bus₁ = []) ∧
        (cardLog bus).head? = (sentCmds (accesses bus)).head? := by
  induction bus with
  | nil => exact .inr ⟨by simp, rfl⟩
  | cons b bus ih =>
      cases b with
      | autoStop => exact .inl ⟨⟨[], bus, rfl, rfl⟩, rfl⟩
      | access e =>
          have hsent : sentCmds (accesses (.access e :: bus)) =
              e.op.sent.toList ++ sentCmds (accesses bus) := sentCmds_cons e _
          cases hs : e.op.sent with
          -- An access that sends nothing moves neither the first command nor the place of the stop.
          | none =>
              have hlog : ∀ bus, cardLog (.access e :: bus) = cardLog bus := by
                intro bus
                simp [cardLog, BusEvent.command?, hs]
              rw [hsent, hs, hlog]
              rcases ih with ⟨⟨bus₁, bus₂, rfl, h₁⟩, hhead⟩ | ⟨hno, hhead⟩
              · exact .inl ⟨⟨.access e :: bus₁, bus₂, rfl, (hlog _).trans h₁⟩, hhead⟩
              · refine .inr ⟨?_, hhead⟩
                rintro ⟨bus₁, bus₂, heq, h₁⟩
                cases bus₁ with
                | nil => cases heq
                | cons b₁ bus₁ =>
                    rcases List.cons.inj heq with ⟨rfl, rfl⟩
                    exact hno ⟨bus₁, bus₂, rfl, (hlog _).symm.trans h₁⟩
          -- A command stands before any stop behind it.
          | some c =>
              have hlog : ∀ bus, cardLog (.access e :: bus) = c :: cardLog bus := by
                intro bus
                simp [cardLog, BusEvent.command?, hs]
              rw [hsent, hs, hlog]
              refine .inr ⟨?_, rfl⟩
              rintro ⟨bus₁, bus₂, heq, h₁⟩
              cases bus₁ with
              | nil => cases heq
              | cons b₁ bus₁ =>
                  rcases List.cons.inj heq with ⟨rfl, rfl⟩
                  rw [hlog] at h₁
                  cases h₁

end Lists

/-! ## Transfers that fail -/

/-- `sunxi_mmc_send_cmd` up to the end of the data phase. -/
def sendCmdData (cmd : MmcCmd) (data : Option MmcData) : MmcM Int := do
  let error ← sendCmdStart cmd data
  if error ≠ 0 then
    pure error
  else do
    let error ← mmcRintWait RINT_COMMAND_DONE 1000
    if error ≠ 0 then
      pure error
    else
      dataWait data

/-- The rest of the call before the label `out`. -/
def sendCmdTail (cmd : MmcCmd) (error : Int) : MmcM Int :=
  if error ≠ 0 then
    pure error
  else do
    let error ← readyWait cmd
    if error ≠ 0 then
      pure error
    else do
      readResponse cmd
      pure 0

theorem sendCmdBody_eq (cmd : MmcCmd) (data : Option MmcData) :
    sendCmdBody cmd data = sendCmdData cmd data >>= sendCmdTail cmd := by
  unfold sendCmdBody sendCmdData sendCmdTail
  rw [bind_assoc]
  refine bind_congr fun error => ?_
  by_cases herror : error = 0
  · simp only [herror, ne_eq, not_true_eq_false, if_false]
    rw [bind_assoc]
    refine bind_congr fun error' => ?_
    by_cases herror' : error' = 0
    · simp only [herror', not_true_eq_false, if_false]
    · simp only [herror', not_false_eq_true, if_true, pure_bind]
  · simp only [herror, ne_eq, not_false_eq_true, if_true, pure_bind]

/-- The request moves several blocks with a command that reaches the card, carries a stop command,
and its data phase fails. -/
structure FailedMultiBlock (fatalErr : U32) (req : RtReq) (d : MmcData) (bus : List BusEvent) :
    Prop where
  data : (mmcConvReqtommc req.cmd).2 = some d
  blocks : d.blocks > 1
  stop : req.stop.isSome
  reaches : Reaches fatalErr (mmcConvReqtommc req.cmd)
  fails : ∃ ev₁ ev₂ error, accesses bus = ev₁ ++ ev₂ ∧
    Exec (sendCmdData (mmcConvReqtommc req.cmd).1 (mmcConvReqtommc req.cmd).2) ev₁ error ∧ error ≠ 0

/-- Requests one after another, each with what is on the bus meanwhile. -/
inductive BusRun (fatalErr : U32) : Nat → List (RtReq × List BusEvent) → Nat → Prop
  | nil {err : Nat} : BusRun fatalErr err [] err
  | cons {err err₁ err' : Nat} {req : RtReq} {bus : List BusEvent}
      {run : List (RtReq × List BusEvent)} :
      Exec (mmcMciRequest fatalErr req err) (accesses bus) err₁ → BusRun fatalErr err₁ run err' →
        BusRun fatalErr err ((req, bus) :: run) err'

/-- The bus of a run. -/
def busOf (run : List (RtReq × List BusEvent)) : List BusEvent :=
  run.flatMap Prod.snd

/-- The commands of a run, in order. -/
def cmdsOf (run : List (RtReq × List BusEvent)) : List (MmcCmd × Option MmcData) :=
  run.flatMap fun x => x.1.cmds

/-- After the command of a request, the card sees no other command before a CMD12. -/
def Stopped (bus later : List BusEvent) : Prop :=
  ∀ i, (cardLog (afterCommand bus ++ later)).head? = some i → i = 12

/-- After the command of a request, the next command that the card sees is the controller's CMD12; all
the bytes of a write have been moved by then. -/
def AutoStopped (d : MmcData) (bus later : List BusEvent) : Prop :=
  ∃ bus₁ bus₂, afterCommand bus ++ later = bus₁ ++ .autoStop :: bus₂ ∧ cardLog bus₁ = [] ∧
    (d.flags &&& MMC_DATA_WRITE ≠ 0 → d.byteCnt.toNat ≤ 4 * fifoWords (accesses bus₁))

section Run

variable {fatalErr : U32} {err err' : Nat} {run run' : List (RtReq × List BusEvent)}

theorem busRun_append_inv (h : BusRun fatalErr err (run ++ run') err') :
    ∃ err₁, BusRun fatalErr err run err₁ ∧ BusRun fatalErr err₁ run' err' := by
  induction run generalizing err with
  | nil => exact ⟨err, .nil, h⟩
  | cons x run ih =>
      cases h with
      | cons hreq hrest =>
          rcases ih hrest with ⟨err₁, h₁, h₂⟩
          exact ⟨err₁, .cons hreq h₁, h₂⟩

/-- What a run sends to the card: those of its commands that reach it. -/
theorem sentCmds_run (h : BusRun fatalErr err run err') :
    sentCmds (accesses (busOf run)) = reaching fatalErr (cmdsOf run) := by
  induction h with
  | nil => rfl
  | cons hreq _ ih =>
      simp only [busOf, cmdsOf, List.flatMap_cons, accesses_append, sentCmds_append,
        reaching_append] at ih ⊢
      rw [sentCmds_request hreq, ih]

/-- There is one way to split a trace at its first command. -/
theorem sent_split_unique {ev ev' ev₁ ev₁' : List Event} {e e' : Event} {i i' : BitVec 6}
    (h : ev ++ e :: ev₁ = ev' ++ e' :: ev₁') (hev : sentCmds ev = []) (hev' : sentCmds ev' = [])
    (he : e.op.sent = some i) (he' : e'.op.sent = some i') : ev = ev' := by
  have hno : ∀ {l : List Event} {x : Event} {c : BitVec 6}, sentCmds (x :: l) = [] →
      ¬ x.op.sent = some c := by
    intro l x c hl hx
    rw [sentCmds_cons, hx] at hl
    cases hl
  induction ev generalizing ev' with
  | nil =>
      cases ev' with
      | nil => rfl
      | cons x ev' =>
          rcases List.cons.inj h with ⟨rfl, -⟩
          exact absurd he (hno hev')
  | cons x ev ih =>
      cases ev' with
      | nil =>
          rcases List.cons.inj h with ⟨rfl, -⟩
          exact absurd he' (hno hev)
      | cons y ev' =>
          rcases List.cons.inj h with ⟨rfl, hrest⟩
          rw [sentCmds_cons] at hev hev'
          rw [ih hrest (List.append_eq_nil_iff.1 hev).2 (List.append_eq_nil_iff.1 hev').2]

/-- The stores of a transfer before its command. -/
theorem sendCmdStart_prefix {cmd : MmcCmd} {d : MmcData} {ev : List Event} {res : Int}
    (hal : d.dest &&& 0x3 = 0) (h : Exec (sendCmdStart cmd (some d)) ev res) :
    ∃ ev', ev = ⟨.writel .blksz d.blocksize, ()⟩ :: ⟨.writel .bytecnt (d.blocks * d.blocksize), ()⟩ ::
      ⟨.writel .arg cmd.cmdarg, ()⟩ ::
        ⟨.writel .cmd (cmdval cmd (some d) ||| cmd.cmdidx.setWidth 32), ()⟩ :: ev' := by
  simp only [sendCmdStart] at h
  rw [if_neg (not_not_intro hal)] at h
  rcases exec_op_bind_iff.1 h with ⟨_, ev₁, rfl, h₁⟩
  rcases exec_op_bind_iff.1 h₁ with ⟨_, ev₂, rfl, h₂⟩
  rcases exec_op_bind_iff.1 h₂ with ⟨_, ev₃, rfl, h₃⟩
  rcases exec_op_bind_iff.1 h₃ with ⟨_, ev₄, rfl, h₄⟩
  exact ⟨ev₄, rfl⟩

variable {req : RtReq} {d : MmcData} {bus later : List BusEvent}

/-- What the driver has stored when the command of a failed transfer is sent, and the command. -/
theorem FailedMultiBlock.command (h : FailedMultiBlock fatalErr req d bus) {bus₁ : List BusEvent}
    {e : Event} (hbus : bus = bus₁ ++ .access e :: afterCommand bus)
    (hnone : sentCmds (accesses bus₁) = []) {i : BitVec 6} (hsent : e.op.sent = some i) :
    accesses bus₁ = [⟨.writel .blksz d.blocksize, ()⟩, ⟨.writel .bytecnt (d.blocks * d.blocksize), ()⟩,
        ⟨.writel .arg (mmcConvReqtommc req.cmd).1.cmdarg, ()⟩] ∧
      e = ⟨.writel .cmd (cmdval (mmcConvReqtommc req.cmd).1 (some d) |||
        (mmcConvReqtommc req.cmd).1.cmdidx.setWidth 32), ()⟩ := by
  rcases h.fails with ⟨ev₁, ev₂, error, hacc, hexec, -⟩
  rw [h.data] at hexec
  rcases exec_bind_iff.1 hexec with ⟨ev₃, ev₄, error', rfl, hstart, -⟩
  have hal : d.dest &&& 0x3 = 0 := h.reaches.2.2 d h.data
  rcases sendCmdStart_prefix hal hstart with ⟨ev₅, rfl⟩
  rw [hbus, accesses_append] at hacc
  have hsplit : accesses bus₁ ++ e :: accesses (afterCommand bus) =
      [⟨.writel .blksz d.blocksize, ()⟩, ⟨.writel .bytecnt (d.blocks * d.blocksize), ()⟩,
        ⟨.writel .arg (mmcConvReqtommc req.cmd).1.cmdarg, ()⟩] ++
      ⟨.writel .cmd (cmdval (mmcConvReqtommc req.cmd).1 (some d) |||
        (mmcConvReqtommc req.cmd).1.cmdidx.setWidth 32), ()⟩ :: (ev₅ ++ ev₄ ++ ev₂) := by
    have hcons : accesses (.access e :: afterCommand bus) = e :: accesses (afterCommand bus) := rfl
    rw [hcons] at hacc
    simpa using hacc
  -- Only the fourth access sends a command, so `bus₁` holds the three before it.
  have hbus₁ := sent_split_unique hsplit hnone rfl hsent (sent_cmdval _ _)
  rw [hbus₁] at hsplit
  exact ⟨hbus₁, (List.cons.inj (List.append_cancel_left hsplit)).1⟩

/-- The byte count register holds the size of the transfer when its command is sent. -/
theorem FailedMultiBlock.bytecnt (h : FailedMultiBlock fatalErr req d bus) {bus₁ : List BusEvent}
    {e : Event} (hbus : bus = bus₁ ++ .access e :: afterCommand bus)
    (hnone : sentCmds (accesses bus₁) = []) {i : BitVec 6} (hsent : e.op.sent = some i)
    (t : Transfer) : (bus₁.foldl Transfer.step t).bytecnt.toNat = d.byteCnt.toNat := by
  rw [foldl_bytecnt, (h.command hbus hnone hsent).1]
  simp only [List.foldl_cons, List.foldl_nil, bytecntAfter, MmcData.byteCnt, BitVec.mul_comm]

theorem cmdval_write {cmd : MmcCmd} {idx : U32} (hwrite : d.flags &&& MMC_DATA_WRITE ≠ 0) :
    (cmdval cmd (some d) ||| idx) &&& CMD_WRITE ≠ 0 := by
  have hbit : ((cmdval cmd (some d) ||| idx) &&& CMD_WRITE).getLsbD 10 = true := by
    have hmask : CMD_WRITE.getLsbD 10 = true := rfl
    rw [BitVec.getLsbD_and, BitVec.getLsbD_or, hmask, Bool.and_true]
    simp only [cmdval, if_pos hwrite]
    split <;> simp [hmask]
  intro hzero
  rw [hzero] at hbit
  exact absurd hbit (by decide)

/-- The bytes of a write have been moved when the controller stops it. -/
theorem FailedMultiBlock.moved (h : FailedMultiBlock fatalErr req d bus) {bus₁ bus₂ bus₃ : List BusEvent}
    {e : Event} (hbus : bus = bus₁ ++ .access e :: afterCommand bus)
    (hnone : sentCmds (accesses bus₁) = []) {i : BitVec 6} (hsent : e.op.sent = some i)
    {t : Transfer} (hlaw : Lawful t (bus ++ later))
    (hafter : afterCommand bus ++ later = bus₂ ++ .autoStop :: bus₃) (hquiet : cardLog bus₂ = [])
    (hwrite : d.flags &&& MMC_DATA_WRITE ≠ 0) :
    d.byteCnt.toNat ≤ 4 * fifoWords (accesses bus₂) := by
  have hwrites : e.writes = true := by
    rw [(h.command hbus hnone hsent).2]
    exact decide_eq_true (cmdval_write hwrite)
  rw [hbus, List.append_assoc, List.cons_append, hafter] at hlaw
  have hcmd := (lawful_append.1 hlaw).2
  have hstop := (lawful_append.1 (show Lawful _ (bus₂ ++ .autoStop :: bus₃) from hcmd)).2.1.2
  have hmoved := foldl_moved ((bus₁.foldl Transfer.step t).step (.access e)) hquiet
  rw [hmoved.1, hmoved.2] at hstop
  simp only [Transfer.step, hsent, Option.isSome_some, if_true, hwrites, Nat.zero_add] at hstop
  rw [h.bytecnt hbus hnone hsent t] at hstop
  exact hstop

/-- After the command of a multi-block request whose data phase has failed, a CMD12 comes before any
other command exactly when the controller has sent it, all the bytes of a write having been moved, or the
next command that reaches the card has an index that the card reads as 12, or there is none. -/
theorem stopped_iff {post : List (RtReq × List BusEvent)}
    (hrun : BusRun fatalErr err (run ++ (req, bus) :: post) err')
    (hlaw : Lawful .idle (busOf (run ++ (req, bus) :: post)))
    (hfail : FailedMultiBlock fatalErr req d bus) :
    Stopped bus (busOf post) ↔ AutoStopped d bus (busOf post) ∨
      ∀ i, (reaching fatalErr ((req.stop.map mmcConvReqtommc).toList ++ cmdsOf post)).head? = some i →
        i = 12 := by
  rcases busRun_append_inv hrun with ⟨err₁, -, htail⟩
  cases htail with
  | cons hreq hpost =>
      -- What the request sends is its command and then, perhaps, its stop command.
      have hsent : sentCmds (accesses bus) = (mmcConvReqtommc req.cmd).1.cmdidx.setWidth 6 ::
          reaching fatalErr (req.stop.map mmcConvReqtommc).toList := by
        rw [sentCmds_request hreq, RtReq.cmds, reaching, List.filter_cons,
          if_pos (decide_eq_true hfail.reaches)]
        rfl
      rcases split_command hsent with ⟨bus₁, e, hbus, hnone, he, hafter⟩
      have hdriver : sentCmds (accesses (afterCommand bus ++ busOf post)) =
          reaching fatalErr ((req.stop.map mmcConvReqtommc).toList ++ cmdsOf post) := by
        rw [accesses_append, sentCmds_append, reaching_append, hafter, sentCmds_run hpost]
      have hlaw' : Lawful ((busOf run).foldl Transfer.step .idle) (bus ++ busOf post) := by
        have hflat : busOf (run ++ (req, bus) :: post) = busOf run ++ (bus ++ busOf post) := by
          simp only [busOf, List.flatMap_append, List.flatMap_cons]
        rw [hflat] at hlaw
        exact (lawful_append.1 hlaw).2
      have hauto : (∃ bus₂ bus₃, afterCommand bus ++ busOf post = bus₂ ++ .autoStop :: bus₃ ∧
          cardLog bus₂ = []) ↔ AutoStopped d bus (busOf post) := by
        constructor
        · rintro ⟨bus₂, bus₃, heq, hquiet⟩
          exact ⟨bus₂, bus₃, heq, hquiet, hfail.moved hbus hnone he hlaw' heq hquiet⟩
        · rintro ⟨bus₂, bus₃, heq, hquiet, -⟩
          exact ⟨bus₂, bus₃, heq, hquiet⟩
      unfold Stopped
      rw [← hauto, ← hdriver]
      rcases head_cardLog (afterCommand bus ++ busOf post) with ⟨hsome, hhead⟩ | ⟨hnot, hhead⟩
      · rw [hhead]
        exact iff_of_true (fun i hi => (Option.some.inj hi).symm) (.inl hsome)
      · rw [hhead]
        exact ⟨.inr, fun h => h.resolve_left hnot⟩

end Run

/-! ## A read that never ends -/

/-- The controller takes every command and every clock update and moves every word, but never reports
the end of a data phase. -/
def neverDone : (o : Op) → o.Ret
  | .readl .rint => RINT_COMMAND_DONE
  | .readl _ => 0
  | .writel _ _ => ()
  | .load _ => 0
  | .store _ _ => ()
  | .setResponse _ _ => ()
  | .udelay _ => ()
  | .setReqErr _ _ => ()
  | .copyResponse _ => ()
  | .setErr _ => ()
  | .reqComplete => ()

/-- CMD18 for two blocks of four bytes, to be stopped by CMD12. -/
def readReq : RtReq :=
  ⟨⟨18, (statusReq none).cmd.respType, 0, some ⟨0x40000000, 2, 2, 4⟩⟩, some stopCmd⟩

/-- The bus of a request when the controller stops nothing. -/
def neverDoneBus (req : RtReq) (err : Nat) : List BusEvent :=
  ((mmcMciRequest 0 req err).trace neverDone).map .access

theorem readReq_fails :
    FailedMultiBlock 0 readReq ⟨0x40000000, MMC_DATA_READ, 2, 4⟩ (neverDoneBus readReq 0) where
  data := rfl
  blocks := by decide
  stop := rfl
  reaches := ⟨rfl, by decide, by rintro d ⟨⟩; decide⟩
  fails := by
    have hbody : ∃ ev₂, (sunxiMmcSendCmd 0 (mmcConvReqtommc readReq.cmd).1
        (mmcConvReqtommc readReq.cmd).2).trace neverDone =
        (sendCmdData (mmcConvReqtommc readReq.cmd).1 (mmcConvReqtommc readReq.cmd).2).trace neverDone ++
          ev₂ := by
      rw [sunxiMmcSendCmd, if_neg (by decide), if_neg (by decide), sendCmdBody_eq, bind_assoc,
        trace_bind]
      exact ⟨_, rfl⟩
    have hreq : ∃ ev₂, (mmcMciRequest 0 readReq 0).trace neverDone =
        (sunxiMmcSendCmd 0 (mmcConvReqtommc readReq.cmd).1 (mmcConvReqtommc readReq.cmd).2).trace
          neverDone ++ ev₂ := by
      rw [mmcMciRequest, trace_bind, mmcMciSend]
      simp only
      rw [trace_bind, List.append_assoc]
      exact ⟨_, rfl⟩
    rcases hbody with ⟨ev₂, hbody⟩
    rcases hreq with ⟨ev₃, hreq⟩
    refine ⟨_, ev₂ ++ ev₃, _, ?_, exec_trace neverDone _, by decide +kernel⟩
    rw [neverDoneBus, accesses_map, hreq, hbody, List.append_assoc]

/-- A failed read is stopped when nothing comes after it. -/
theorem stopped_iff_alone : Stopped (neverDoneBus readReq 0) [] := by
  have hrun : BusRun 0 0 ([] ++ (readReq, neverDoneBus readReq 0) :: [])
      ((mmcMciRequest 0 readReq 0).eval neverDone) := by
    refine .cons ?_ .nil
    rw [neverDoneBus, accesses_map]
    exact exec_trace neverDone _
  have hlaw : Lawful .idle (busOf ([] ++ (readReq, neverDoneBus readReq 0) :: [])) := by
    simp only [busOf, List.nil_append, List.flatMap_cons, List.flatMap_nil, List.append_nil,
      neverDoneBus]
    exact lawful_accesses _ _
  exact (stopped_iff hrun hlaw readReq_fails).2 (.inr (by decide))

/-- The data phase of a read fails, the CMD12 of its request is not sent, and CMD13 is next. -/
theorem sendStatus_unstopped :
    ∃ err', BusRun 0 0 [(readReq, neverDoneBus readReq 0),
        (statusReq none, neverDoneBus (statusReq none) 0)] err' ∧
      Lawful .idle (busOf [(readReq, neverDoneBus readReq 0),
        (statusReq none, neverDoneBus (statusReq none) 0)]) ∧
      FailedMultiBlock 0 readReq ⟨0x40000000, MMC_DATA_READ, 2, 4⟩ (neverDoneBus readReq 0) ∧
      (cardLog (afterCommand (neverDoneBus readReq 0) ++
        neverDoneBus (statusReq none) 0)).head? = some 13 ∧
      ¬ Stopped (neverDoneBus readReq 0) (neverDoneBus (statusReq none) 0) := by
  have hread : Exec (mmcMciRequest 0 readReq 0) (accesses (neverDoneBus readReq 0)) 0 := by
    have hzero : (mmcMciRequest 0 readReq 0).eval neverDone = 0 := by decide +kernel
    have hexec := exec_trace neverDone (mmcMciRequest 0 readReq 0)
    rw [hzero] at hexec
    rw [neverDoneBus, accesses_map]
    exact hexec
  have hstatus : Exec (mmcMciRequest 0 (statusReq none) 0)
      (accesses (neverDoneBus (statusReq none) 0))
      ((mmcMciRequest 0 (statusReq none) 0).eval neverDone) := by
    rw [neverDoneBus, accesses_map]
    exact exec_trace neverDone _
  have hnext : (cardLog (afterCommand (neverDoneBus readReq 0) ++
      neverDoneBus (statusReq none) 0)).head? = some 13 := by
    decide +kernel
  refine ⟨_, .cons hread (.cons hstatus .nil), ?_, readReq_fails, hnext, fun hstop => ?_⟩
  · simp only [busOf, List.flatMap_cons, List.flatMap_nil, List.append_nil, neverDoneBus,
      ← List.map_append]
    exact lawful_accesses _ _
  · exact absurd (hstop 13 hnext) (by decide)

end Mmc

end BspV3s
