import Mathlib.Data.BitVec
import BspV3s.Mmc.Request

/-!
# Transfer — the data of a command

The byte counter announces a number of bytes, the loop of the processor moves words.  What is left
over by the division stays behind.

* `transfer_complete_iff` : which requests have all their bytes moved whenever they succeed.
-/

namespace BspV3s

namespace Mmc

open Prog

/-! ## What a trace moves -/

/-- A word through the FIFO; `true` is a word read from it. -/
def Event.fifo? : Event → Option (Bool × U32)
  | ⟨.readl .fifo, v⟩ => some (true, v)
  | ⟨.writel .fifo v, _⟩ => some (false, v)
  | _ => none

/-- A word of memory with its address; `true` is a word stored. -/
def Event.word? : Event → Option (Bool × U32 × U32)
  | ⟨.store a v, _⟩ => some (true, a, v)
  | ⟨.load a, v⟩ => some (false, a, v)
  | _ => none

def Event.bytecnt? : Event → Option U32
  | ⟨.writel .bytecnt v, _⟩ => some v
  | _ => none

/-- The bytes of the word at `a`. -/
def wordBytes (a : U32) : List U32 := [a, a + 1, a + 2, a + 3]

/-- The bytes of a request. -/
def MmcData.size (d : MmcData) : Nat := d.blocksize.toNat * d.blocks.toNat

/-- The announced bytes are those of the buffer; each of them is touched once, in order, and no other
one; and the words that go through the FIFO are the words of the buffer. -/
structure Complete (d : MmcData) (ev : List Event) : Prop where
  announced : ev.filterMap Event.bytecnt? = [BitVec.ofNat 32 d.size]
  bytes : (ev.filterMap Event.word?).flatMap (fun w => wordBytes w.2.1) =
    (List.range d.size).map fun j => d.dest + BitVec.ofNat 32 j
  words : ev.filterMap Event.fifo? = (ev.filterMap Event.word?).map fun w => (w.1, w.2.2)
  direction : ∀ w ∈ ev.filterMap Event.word?, w.1 = d.reading

/-! ## Words -/

/-- The trace moves the words `i` to `i + n` of the buffer. -/
structure Moved (d : MmcData) (i n : Nat) (ev : List Event) : Prop where
  addrs : (ev.filterMap Event.word?).map (fun w => w.2.1) =
    (List.range' i n).map fun j => d.dest + BitVec.ofNat 32 (4 * j)
  words : ev.filterMap Event.fifo? = (ev.filterMap Event.word?).map fun w => (w.1, w.2.2)
  direction : ∀ w ∈ ev.filterMap Event.word?, w.1 = d.reading

variable {d : MmcData} {i n : Nat} {ev ev' : List Event}

theorem Moved.append {n' : Nat} (h : Moved d i n ev) (h' : Moved d (i + n) n' ev') :
    Moved d i (n + n') (ev ++ ev') := by
  refine ⟨?_, ?_, ?_⟩
  · rw [List.filterMap_append, List.map_append, h.addrs, h'.addrs, ← List.map_append,
      List.range'_append_1]
  · rw [List.filterMap_append, List.filterMap_append, List.map_append, h.words, h'.words]
  · intro w hw
    rw [List.filterMap_append] at hw
    rcases List.mem_append.1 hw with hw | hw
    · exact h.direction w hw
    · exact h'.direction w hw

/-- An access that neither announces nor moves anything. -/
def Op.plain : Op → Bool
  | .readl .fifo => false
  | .writel .fifo _ => false
  | .writel .bytecnt _ => false
  | .load _ => false
  | .store _ _ => false
  | _ => true

/-- A routine that keeps to such accesses. -/
def Plain {α : Type} (p : MmcM α) : Prop := Prog.Only (fun o => o.plain = true) p

theorem aside_plain : Aside fun o => o.plain = true where
  readl r hr := by cases r <;> first | rfl | exact absurd rfl hr
  rint _ := rfl
  gctrl _ := rfl
  upclk := rfl
  setResponse _ _ := rfl
  udelay _ := rfl

theorem not_plain {e : Event} (he : e.op.plain = true) :
    e.fifo? = none ∧ e.word? = none ∧ e.bytecnt? = none := by
  rcases e with ⟨o, r⟩
  cases o with
  | readl reg => cases reg <;> first | exact ⟨rfl, rfl, rfl⟩ | cases he
  | writel reg v => cases reg <;> first | exact ⟨rfl, rfl, rfl⟩ | cases he
  | load a => cases he
  | store a v => cases he
  | _ => exact ⟨rfl, rfl, rfl⟩

section Plain

variable {α : Type} {p : MmcM α} {a : α}

theorem Plain.filterMap (hp : Plain p) (h : Exec p ev a) : ev.filterMap Event.fifo? = [] ∧
    ev.filterMap Event.word? = [] ∧ ev.filterMap Event.bytecnt? = [] := by
  refine ⟨?_, ?_, ?_⟩ <;> rw [List.filterMap_eq_nil_iff] <;> intro e he
  · exact (not_plain (hp.exec h e he)).1
  · exact (not_plain (hp.exec h e he)).2.1
  · exact (not_plain (hp.exec h e he)).2.2

theorem Plain.moved (hp : Plain p) (h : Exec p ev a) (d : MmcData) (i : Nat) : Moved d i 0 ev := by
  rcases hp.filterMap h with ⟨hfifo, hword, -⟩
  refine ⟨?_, ?_, ?_⟩
  · rw [hword]
    rfl
  · rw [hfifo, hword]
    rfl
  · rw [hword]
    intro w hw
    exact absurd hw List.not_mem_nil

end Plain

/-! ## The transfer -/

theorem exec_moveWord_moved {u : Unit} (h : Exec (moveWord d i) ev u) :
    Moved d i 1 ev ∧ ev.filterMap Event.bytecnt? = [] := by
  unfold moveWord at h
  split at h
  · next hreading =>
      rcases exec_op_bind_iff.1 h with ⟨v, ev', rfl, hk⟩
      rw [exec_op_iff.1 hk]
      refine ⟨⟨rfl, rfl, ?_⟩, rfl⟩
      rintro w hw
      rw [List.mem_singleton.1 hw]
      exact hreading.symm
  · next hwriting =>
      rcases exec_op_bind_iff.1 h with ⟨v, ev', rfl, hk⟩
      rw [exec_op_iff.1 hk]
      refine ⟨⟨rfl, rfl, ?_⟩, rfl⟩
      rintro w hw
      rw [List.mem_singleton.1 hw]
      exact (Bool.eq_false_iff.2 hwriting).symm

/-- A transfer that succeeds has moved all its words. -/
theorem exec_transWords_moved {timeout : Nat} (h : Exec (transWords d n i timeout) ev 0) :
    Moved d i n ev ∧ ev.filterMap Event.bytecnt? = [] := by
  induction n generalizing i timeout ev with
  | zero =>
      rcases exec_pure_iff.1 h with ⟨rfl, -⟩
      refine ⟨⟨rfl, rfl, ?_⟩, rfl⟩
      intro w hw
      exact absurd hw List.not_mem_nil
  | succ n ih =>
      rw [transWords] at h
      rcases exec_bind_iff.1 h with ⟨ev₁, ev', left, rfl, hpoll, hk⟩
      have hplain : Plain (pollWhile .status d.statusBit 1 timeout) :=
        aside_plain.pollWhile .status (by decide) _ _ _
      cases left with
      | none => exact absurd (exec_pure_iff.1 hk).2 (by decide)
      | some timeout' =>
          rcases exec_bind_iff.1 hk with ⟨ev₂, ev₃, u, rfl, hmove, hrest⟩
          rcases exec_moveWord_moved hmove with ⟨hmoved, hcnt⟩
          rcases ih hrest with ⟨hmoved', hcnt'⟩
          have hall := (hplain.moved hpoll d i).append (hmoved.append hmoved')
          rw [Nat.zero_add, Nat.add_comm 1] at hall
          refine ⟨hall, ?_⟩
          rw [List.filterMap_append, List.filterMap_append, (hplain.filterMap hpoll).2.2, hcnt, hcnt']
          rfl

/-! ## The command -/

/-- What the trace of a successful command with data shows. -/
structure Transferred (d : MmcData) (ev : List Event) : Prop where
  aligned : d.dest &&& 0x3 = 0
  moved : Moved d 0 (d.byteCnt >>> 2).toNat ev
  announced : ev.filterMap Event.bytecnt? = [d.blocks * d.blocksize]

theorem Transferred.append {α : Type} {p : MmcM α} {a : α} (h : Transferred d ev) (hp : Plain p)
    (hexec : Exec p ev' a) : Transferred d (ev ++ ev') := by
  refine ⟨h.aligned, h.moved.append (hp.moved hexec d _), ?_⟩
  rw [List.filterMap_append, h.announced, (hp.filterMap hexec).2.2]
  rfl

variable {cmd : MmcCmd}

theorem exec_sendCmdStart_transferred (h : Exec (sendCmdStart cmd (some d)) ev 0) :
    Transferred d ev := by
  simp only [sendCmdStart] at h
  split at h
  · exact absurd (exec_pure_iff.1 h).2 (by decide)
  next haligned =>
    rcases exec_op_bind_iff.1 h with ⟨_, ev₁, rfl, h₁⟩
    rcases exec_op_bind_iff.1 h₁ with ⟨_, ev₂, rfl, h₂⟩
    rcases exec_op_bind_iff.1 h₂ with ⟨_, ev₃, rfl, h₃⟩
    rcases exec_op_bind_iff.1 h₃ with ⟨_, ev₄, rfl, h₄⟩
    rcases exec_bind_iff.1 h₄ with ⟨ev₅, ev₆, ret, rfl, htrans, hend⟩
    rcases exec_op_bind_iff.1 htrans with ⟨_, ev₇, rfl, h₇⟩
    rcases exec_op_bind_iff.1 h₇ with ⟨_, ev₈, rfl, h₈⟩
    have hret : ev₆ = [] ∧ ret = 0 := by
      split at hend
      · rcases exec_op_bind_iff.1 hend with ⟨v, ev₉, rfl, h₉⟩
        exact absurd (exec_pure_iff.1 h₉).2 (by decide)
      · next hret => exact ⟨(exec_pure_iff.1 hend).1, Decidable.of_not_not hret⟩
    rcases hret with ⟨rfl, rfl⟩
    rcases exec_transWords_moved h₈ with ⟨hmoved, hcnt⟩
    rw [List.append_nil]
    refine ⟨Decidable.of_not_not haligned, ⟨hmoved.addrs, hmoved.words, hmoved.direction⟩, ?_⟩
    exact congrArg (d.blocks * d.blocksize :: ·) hcnt

/-- A command with data that succeeds, other than CMD12, has moved its words. -/
theorem exec_sunxiMmcSendCmd_transferred {fatalErr : U32} (hidx : cmd.cmdidx ≠ 12)
    (h : Exec (sunxiMmcSendCmd fatalErr cmd (some d)) ev 0) : Transferred d ev := by
  unfold sunxiMmcSendCmd at h
  split at h
  · exact absurd (exec_pure_iff.1 h).2 (by decide)
  rcases exec_bind_iff.1 h with ⟨ev₁, ev₂, error, rfl, hbody, hout⟩
  have herror : (0 : Int) = error := (exec_sendCmdOut hout).1
  subst herror
  refine Transferred.append ?_ (aside_plain.sendCmdOut 0) hout
  rcases exec_bind_iff.1 hbody with ⟨ev₃, ev₄, error, rfl, hstart, hrest⟩
  have hzero : error = 0 := by
    by_contra hne
    rw [if_pos hne] at hrest
    exact hne (exec_pure_iff.1 hrest).2.symm
  subst hzero
  exact (exec_sendCmdStart_transferred hstart).append (aside_plain.sendCmdRest cmd (some d) 0) hrest

/-! ## Bytes -/

theorem wordBytes_range (base : U32) (i n : Nat) :
    ((List.range' i n).map fun j => base + BitVec.ofNat 32 (4 * j)).flatMap wordBytes =
      (List.range' (4 * i) (4 * n)).map fun j => base + BitVec.ofNat 32 j := by
  induction n generalizing i with
  | zero => rfl
  | succ n ih =>
      have hlen : 4 * (n + 1) = 4 * n + 1 + 1 + 1 + 1 := by omega
      have hnext : ∀ k : Nat, BitVec.ofNat 32 (4 * i + k) = BitVec.ofNat 32 (4 * i) +
          BitVec.ofNat 32 k := fun k => BitVec.ofNat_add _ _
      rw [List.range'_succ, List.map_cons, List.flatMap_cons, ih, hlen]
      simp only [List.range'_succ, List.map_cons, Nat.add_assoc, hnext, ← BitVec.add_assoc]
      rfl

theorem byteCnt_words (hsize : d.size < 2 ^ 32) : (d.byteCnt >>> 2).toNat = d.size / 4 := by
  have hcnt : d.byteCnt.toNat = d.size := by
    unfold MmcData.byteCnt MmcData.size at *
    rw [BitVec.toNat_mul, Nat.mod_eq_of_lt hsize]
  rw [BitVec.toNat_ushiftRight, hcnt, Nat.shiftRight_eq_div_pow]

/-- The words of a request cover its bytes unless there is a remainder. -/
theorem Transferred.complete_iff (h : Transferred d ev) (hsize : d.size < 2 ^ 32) :
    Complete d ev ↔ 4 ∣ d.size := by
  have hbytes : (ev.filterMap Event.word?).flatMap (fun w => wordBytes w.2.1) =
      (List.range (4 * (d.size / 4))).map fun j => d.dest + BitVec.ofNat 32 j := by
    rw [← List.flatMap_map (fun w : Bool × U32 × U32 => w.2.1) wordBytes, h.moved.addrs,
      byteCnt_words hsize, wordBytes_range, List.range_eq_range']
  constructor
  · intro hcomplete
    have hlen := congrArg List.length (hbytes.symm.trans hcomplete.bytes)
    rw [List.length_map, List.length_map, List.length_range, List.length_range] at hlen
    exact ⟨d.size / 4, hlen.symm⟩
  · intro hdvd
    rw [Nat.mul_div_cancel' hdvd] at hbytes
    refine ⟨?_, hbytes, h.moved.words, h.moved.direction⟩
    have hmul : d.blocks * d.blocksize = BitVec.ofNat 32 d.size := by
      apply BitVec.eq_of_toNat_eq
      unfold MmcData.size at *
      rw [BitVec.toNat_mul, BitVec.toNat_ofNat, Nat.mul_comm]
    rw [h.announced, hmul]

/-! ## A controller that is always ready -/

/-- Every interrupt that the driver waits for has come, the FIFO has room and the card is idle. -/
def alwaysReady : (o : Op) → o.Ret
  | .readl .rint => RINT_COMMAND_DONE ||| RINT_DATA_OVER ||| RINT_AUTO_COMMAND_DONE
  | .readl _ => 0
  | .writel _ _ => ()
  | .load _ => 0
  | .store _ _ => ()
  | .setResponse _ _ => ()
  | .udelay _ => ()
  | .setReqErr _ _ => ()
  | .copyResponse _ => ()
  | .setErr _ => ()
  | .reqComplete => ()

theorem eval_pollWhile (busy : U32) (usec timeout : Nat) :
    (pollWhile .status busy usec timeout).eval alwaysReady = some timeout := by
  have hclear : (0 : U32) &&& busy = 0 := BitVec.zero_and
  cases timeout with
  | zero => exact congrArg (eval alwaysReady) (if_pos hclear)
  | succ timeout => exact congrArg (eval alwaysReady) (if_pos hclear)

theorem eval_transWords (d : MmcData) (n i timeout : Nat) :
    (transWords d n i timeout).eval alwaysReady = 0 := by
  induction n generalizing i with
  | zero => rfl
  | succ n ih =>
      rw [transWords, eval_bind, eval_pollWhile]
      exact (eval_bind _ _ _).trans (ih (i + 1))

theorem eval_sendCmdStart (haligned : d.dest &&& 0x3 = 0) :
    (sendCmdStart cmd (some d)).eval alwaysReady = 0 := by
  have htrans : (mmcTransDataByCpu d).eval alwaysReady = 0 := eval_transWords d _ _ _
  have hdest : ¬ d.dest &&& 0x3 ≠ 0 := not_not.2 haligned
  simp only [sendCmdStart]
  rw [if_neg hdest, eval_bind, eval_bind, eval_bind, eval_bind, eval_bind, htrans]
  rfl

theorem eval_mmcRintWait {doneBit : U32} {timeout : Nat}
    (hdone : alwaysReady (.readl .rint) &&& doneBit ≠ 0) :
    (mmcRintWait doneBit (timeout + 1)).eval alwaysReady = 0 := by
  have herror : ¬ decide (alwaysReady (.readl .rint) &&& RINT_INTERRUPT_ERROR_BIT ≠ 0) = true := by
    decide
  rw [mmcRintWait, pollUntil, eval_bind]
  show (if decide (alwaysReady (.readl .rint) &&& RINT_INTERRUPT_ERROR_BIT ≠ 0) = true then _
    else _ : MmcM Int).eval alwaysReady = 0
  rw [if_neg herror, eval_bind]
  exact congrArg (eval alwaysReady) (if_pos (decide_eq_true hdone))

theorem eval_dataWait (d : MmcData) : (dataWait (some d)).eval alwaysReady = 0 := by
  have hdone : alwaysReady (.readl .rint) &&& d.doneBit ≠ 0 := by
    unfold MmcData.doneBit
    split
    · decide
    · decide
  exact eval_mmcRintWait hdone

theorem eval_readyWait (cmd : MmcCmd) : (readyWait cmd).eval alwaysReady = 0 := by
  unfold readyWait
  split
  · rfl
  · rfl

/-- Against it a command with data succeeds. -/
theorem exists_exec_zero (hidx : cmd.cmdidx ≠ 12) (haligned : d.dest &&& 0x3 = 0) :
    ∃ ev, Exec (sunxiMmcSendCmd 0 cmd (some d)) ev 0 := by
  have hbody : (sendCmdBody cmd (some d)).eval alwaysReady = 0 := by
    have hzero : ¬ (0 : Int) ≠ 0 := by decide
    have hcmd : (mmcRintWait RINT_COMMAND_DONE 1000).eval alwaysReady = 0 :=
      eval_mmcRintWait (by decide)
    rw [sendCmdBody, eval_bind, eval_sendCmdStart haligned, if_neg hzero, eval_bind, hcmd,
      if_neg hzero, eval_bind, eval_dataWait, if_neg hzero, eval_bind, eval_readyWait,
      if_neg hzero, eval_bind]
    rfl
  have hcall : (sunxiMmcSendCmd 0 cmd (some d)).eval alwaysReady = 0 := by
    rw [sunxiMmcSendCmd, if_neg (by decide), if_neg hidx, eval_bind, hbody]
    rfl
  have hexec := exec_trace alwaysReady (sunxiMmcSendCmd 0 cmd (some d))
  rw [hcall] at hexec
  exact ⟨_, hexec⟩

/-! ## Which requests -/

/-- A request with data has all its bytes moved whenever the call succeeds, unless it is sent with
CMD12 or its bytes are no whole number of words; a call that fails at once is no exception. -/
theorem transfer_complete_iff {fatalErr : U32} (hsize : d.size < 2 ^ 32) :
    (∀ ev, Exec (sunxiMmcSendCmd fatalErr cmd (some d)) ev 0 → Complete d ev) ↔
      fatalErr ≠ 0 ∨ cmd.cmdidx ≠ 12 ∧ (d.dest &&& 0x3 ≠ 0 ∨ 4 ∣ d.size) := by
  constructor
  · intro h
    by_cases hfatal : fatalErr = 0
    · subst hfatal
      by_cases hidx : cmd.cmdidx = 12
      · have hnothing : Exec (sunxiMmcSendCmd 0 cmd (some d)) [] 0 := by
          rw [sunxiMmcSendCmd, if_neg (by decide), if_pos hidx]
          exact .ret 0
        exact absurd (h [] hnothing).announced.symm (List.cons_ne_nil _ _)
      · refine .inr ⟨hidx, ?_⟩
        by_cases haligned : d.dest &&& 0x3 = 0
        · rcases exists_exec_zero hidx haligned with ⟨ev, hexec⟩
          have htransferred := exec_sunxiMmcSendCmd_transferred hidx hexec
          exact .inr ((htransferred.complete_iff hsize).1 (h ev hexec))
        · exact .inl haligned
    · exact .inl hfatal
  · rintro (hfatal | ⟨hidx, hrest⟩) ev hexec
    · rw [sunxiMmcSendCmd, if_pos hfatal] at hexec
      exact absurd (exec_pure_iff.1 hexec).2 (by decide)
    · have htransferred := exec_sunxiMmcSendCmd_transferred hidx hexec
      have haligned : ¬ d.dest &&& 0x3 ≠ 0 := not_not.2 htransferred.aligned
      exact (htransferred.complete_iff hsize).2 (hrest.resolve_left haligned)

/-- One block of 512 bytes read with CMD17. -/
theorem transfer_complete_iff_block : ∃ ev,
    Exec (sunxiMmcSendCmd 0 ⟨17, MMC_RSP_R1, 0⟩ (some ⟨0x40000000, MMC_DATA_READ, 1, 512⟩)) ev 0 ∧
    Complete ⟨0x40000000, MMC_DATA_READ, 1, 512⟩ ev := by
  have hidx : (⟨17, MMC_RSP_R1, 0⟩ : MmcCmd).cmdidx ≠ 12 := by decide
  have haligned : (⟨0x40000000, MMC_DATA_READ, 1, 512⟩ : MmcData).dest &&& 0x3 = 0 := by decide
  rcases exists_exec_zero hidx haligned with ⟨ev, hexec⟩
  exact ⟨ev, hexec, (transfer_complete_iff (by decide)).2 (.inr ⟨hidx, .inr (by decide)⟩) ev hexec⟩

/-- A read of 6 bytes with CMD53 succeeds, and the last two of them stay in the FIFO. -/
theorem exists_not_complete : ∃ ev,
    Exec (sunxiMmcSendCmd 0 ⟨53, MMC_RSP_R5, 0⟩ (some ⟨0x40000000, MMC_DATA_READ, 1, 6⟩)) ev 0 ∧
    ¬ Complete ⟨0x40000000, MMC_DATA_READ, 1, 6⟩ ev := by
  have hidx : (⟨53, MMC_RSP_R5, 0⟩ : MmcCmd).cmdidx ≠ 12 := by decide
  have haligned : (⟨0x40000000, MMC_DATA_READ, 1, 6⟩ : MmcData).dest &&& 0x3 = 0 := by decide
  rcases exists_exec_zero hidx haligned with ⟨ev, hexec⟩
  refine ⟨ev, hexec, fun hcomplete => ?_⟩
  have hdvd := ((exec_sunxiMmcSendCmd_transferred hidx hexec).complete_iff (by decide)).1 hcomplete
  exact absurd hdvd (by decide)

end Mmc

end BspV3s
