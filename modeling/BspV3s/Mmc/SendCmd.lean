import BspV3s.Mmc.Host

/-!
# SendCmd — completion and recovery of an MMC command

The controller may answer every register read with anything.  Over all its traces,
`sunxi_mmc_send_cmd` ends after a bounded number of polls, reports success only on evidence it has
read, and leaves through the same closing accesses.  Each routine of the driver gets one lemma on
its traces, and `sunxiMmcSendCmd_spec` is assembled from them.
-/

namespace BspV3s

namespace Mmc

open Prog

/-! ## What a trace shows -/

/-- The event reads a controller register. -/
def Event.isRead : Event → Bool
  | ⟨.readl _, _⟩ => true
  | _ => false

/-- The event moves a word through the FIFO. -/
def Event.isFifo : Event → Bool
  | ⟨.readl .fifo, _⟩ => true
  | ⟨.writel .fifo _, _⟩ => true
  | _ => false

def Event.isResponse : Event → Bool
  | ⟨.setResponse _ _, _⟩ => true
  | _ => false

def Event.status? : Event → Option U32
  | ⟨.readl .status, v⟩ => some v
  | _ => none

def polls (ev : List Event) : Nat :=
  ev.countP Event.isRead

def fifoWords (ev : List Event) : Nat :=
  ev.countP Event.isFifo

/-- The last STATUS word read. -/
def lastStatus (ev : List Event) : Option U32 :=
  (ev.filterMap Event.status?).getLast?

/-- The STATUS word read since the last FIFO access, after one more event. -/
def statusSeen (st : Option U32) (e : Event) : Option U32 :=
  match e.status? with
  | some v => some v
  | none => if e.isFifo then none else st

/-- Every FIFO access comes after a STATUS read of its own that shows `busy` clear. -/
def FifoGuarded (busy : U32) : Option U32 → List Event → Prop
  | _, [] => True
  | st, e :: ev =>
      (e.isFifo = true → ∃ v, st = some v ∧ v &&& busy = 0) ∧
        FifoGuarded busy (statusSeen st e) ev

theorem fifoGuarded_append {busy : U32} {st : Option U32} {ev ev' : List Event} :
    FifoGuarded busy st (ev ++ ev') ↔
      FifoGuarded busy st ev ∧ FifoGuarded busy (ev.foldl statusSeen st) ev' := by
  induction ev generalizing st with
  | nil => simp [FifoGuarded]
  | cons e ev ih => simp [FifoGuarded, ih, and_assoc]

theorem fifoGuarded_of_no_fifo {busy : U32} {st : Option U32} {ev : List Event}
    (h : fifoWords ev = 0) : FifoGuarded busy st ev := by
  induction ev generalizing st with
  | nil => trivial
  | cons e ev ih =>
      unfold fifoWords at h ih
      rw [List.countP_eq_zero] at h
      refine ⟨fun he => absurd he (h e List.mem_cons_self), ih ?_⟩
      rw [List.countP_eq_zero]
      exact fun e' he' => h e' (List.mem_cons_of_mem e he')

@[simp] theorem polls_nil : polls [] = 0 := rfl

@[simp] theorem polls_append (ev ev' : List Event) : polls (ev ++ ev') = polls ev + polls ev' :=
  List.countP_append

@[simp] theorem polls_cons (e : Event) (ev : List Event) :
    polls (e :: ev) = polls ev + if e.isRead then 1 else 0 :=
  List.countP_cons

@[simp] theorem fifoWords_nil : fifoWords [] = 0 := rfl

@[simp] theorem fifoWords_append (ev ev' : List Event) :
    fifoWords (ev ++ ev') = fifoWords ev + fifoWords ev' :=
  List.countP_append

@[simp] theorem fifoWords_cons (e : Event) (ev : List Event) :
    fifoWords (e :: ev) = fifoWords ev + if e.isFifo then 1 else 0 :=
  List.countP_cons

/-- A trace without FIFO accesses and response words. -/
structure Quiet (ev : List Event) : Prop where
  fifo : fifoWords ev = 0
  response : ∀ e ∈ ev, e.isResponse = false

theorem Quiet.nil : Quiet [] :=
  ⟨rfl, by simp⟩

theorem Quiet.append {ev ev' : List Event} (h : Quiet ev) (h' : Quiet ev') :
    Quiet (ev ++ ev') := by
  refine ⟨by rw [fifoWords_append, h.fifo, h'.fifo], ?_⟩
  intro e he
  rcases List.mem_append.1 he with he | he
  · exact h.response e he
  · exact h'.response e he

theorem Quiet.cons {e : Event} {ev : List Event} (hf : e.isFifo = false)
    (hr : e.isResponse = false) (h : Quiet ev) : Quiet (e :: ev) := by
  refine ⟨by simp [h.fifo, hf], ?_⟩
  intro e' he'
  rcases List.mem_cons.1 he' with rfl | he'
  · exact hr
  · exact h.response e' he'

theorem lastStatus_append_of_some {ev ev' : List Event} {v : U32} (h : lastStatus ev' = some v) :
    lastStatus (ev ++ ev') = some v := by
  unfold lastStatus at h ⊢
  rw [List.filterMap_append, List.getLast?_append, h]
  rfl

theorem lastStatus_append_of_nil {ev ev' : List Event} (h : ev'.filterMap Event.status? = []) :
    lastStatus (ev ++ ev') = lastStatus ev := by
  unfold lastStatus
  rw [List.filterMap_append, h, List.append_nil]

/-! ## Traces of the polling loops -/

/-- Reading a register other than the FIFO and waiting is all that a polling loop does. -/
theorem exec_pollWhile {r : Reg} {busy : U32} {usec : Nat} (hr : r ≠ .fifo) :
    ∀ {timeout : Nat} {ev : List Event} {res : Option Nat},
      Exec (pollWhile r busy usec timeout) ev res →
        Quiet ev ∧ polls ev + res.getD 0 ≤ timeout + 1 ∧
          ∀ t, res = some t →
            ∃ pre v, ev = pre ++ [⟨.readl r, v⟩] ∧ v &&& busy = 0 := by
  have hfifo : ∀ v : U32, Event.isFifo ⟨.readl r, v⟩ = false := by
    intro v
    cases r <;> first | rfl | exact absurd rfl hr
  intro timeout
  induction timeout with
  | zero =>
      intro ev res h
      rw [pollWhile] at h
      rcases exec_op_bind_iff.1 h with ⟨v, ev', rfl, hk⟩
      -- The word is clear at once, or the countdown is at its end.
      split at hk
      · next hv =>
          rcases exec_pure_iff.1 hk with ⟨rfl, rfl⟩
          refine ⟨Quiet.cons (hfifo v) rfl .nil, by simp [Event.isRead], ?_⟩
          intro t ht
          exact ⟨[], v, rfl, hv⟩
      · rcases exec_pure_iff.1 hk with ⟨rfl, rfl⟩
        exact ⟨Quiet.cons (hfifo v) rfl .nil, by simp [Event.isRead], by simp⟩
  | succ timeout ih =>
      intro ev res h
      rw [pollWhile] at h
      rcases exec_op_bind_iff.1 h with ⟨v, ev', rfl, hk⟩
      split at hk
      · next hv =>
          rcases exec_pure_iff.1 hk with ⟨rfl, rfl⟩
          refine ⟨Quiet.cons (hfifo v) rfl .nil, by simp [Event.isRead]; omega, ?_⟩
          intro t ht
          exact ⟨[], v, rfl, hv⟩
      · rcases exec_op_bind_iff.1 hk with ⟨u, ev'', rfl, hrest⟩
        rcases ih hrest with ⟨hq, hp, hlast⟩
        refine ⟨Quiet.cons (hfifo v) rfl (Quiet.cons rfl rfl hq), ?_, ?_⟩
        · simp [Event.isRead]
          omega
        · intro t ht
          rcases hlast t ht with ⟨pre, w, rfl, hw⟩
          exact ⟨⟨.readl r, v⟩ :: ⟨.udelay usec, u⟩ :: pre, w, rfl, hw⟩

theorem exec_pollUntil {r : Reg} {fail done : U32 → Bool} (hr : r ≠ .fifo) :
    ∀ {timeout : Nat} {ev : List Event} {res : Int},
      Exec (pollUntil r fail done timeout) ev res →
        Quiet ev ∧ polls ev ≤ timeout + 1 ∧
          (res = -ETIMEDOUT ∨
            res = 0 ∧ ∃ pre v, ev = pre ++ [⟨.readl r, v⟩, ⟨.udelay 1000, ()⟩] ∧
              fail v = false ∧ done v = true) := by
  have hfifo : ∀ v : U32, Event.isFifo ⟨.readl r, v⟩ = false := by
    intro v
    cases r <;> first | rfl | exact absurd rfl hr
  -- The induction is on the polls that are left; the last one decides nothing.
  intro timeout
  induction timeout with
  | zero =>
      intro ev res h
      rw [pollUntil] at h
      rcases exec_op_bind_iff.1 h with ⟨v, ev', rfl, hk⟩
      rcases exec_pure_iff.1 hk with ⟨rfl, rfl⟩
      exact ⟨Quiet.cons (hfifo v) rfl .nil, by simp [Event.isRead], .inl rfl⟩
  | succ timeout ih =>
      intro ev res h
      rw [pollUntil] at h
      rcases exec_op_bind_iff.1 h with ⟨v, ev', rfl, hk⟩
      split at hk
      · rcases exec_pure_iff.1 hk with ⟨rfl, rfl⟩
        exact ⟨Quiet.cons (hfifo v) rfl .nil, by simp [Event.isRead], .inl rfl⟩
      · next hfail =>
          rcases exec_op_bind_iff.1 hk with ⟨u, ev'', rfl, hrest⟩
          split at hrest
          · next hdone =>
              rcases exec_pure_iff.1 hrest with ⟨rfl, rfl⟩
              refine ⟨Quiet.cons (hfifo v) rfl (Quiet.cons rfl rfl .nil), by simp [Event.isRead],
                .inr ⟨rfl, [], v, rfl, by simpa using hfail, hdone⟩⟩
          · rcases ih hrest with ⟨hq, hp, hres⟩
            refine ⟨Quiet.cons (hfifo v) rfl (Quiet.cons rfl rfl hq), ?_, ?_⟩
            · simp [Event.isRead]
              omega
            · rcases hres with hres | ⟨hres, pre, w, rfl, hw, hw'⟩
              · exact .inl hres
              · exact .inr ⟨hres, ⟨.readl r, v⟩ :: ⟨.udelay 1000, u⟩ :: pre, w, rfl, hw, hw'⟩

/-- `mmc_rint_wait` succeeds only on a RINT word that shows the interrupt and no error. -/
theorem exec_mmcRintWait {doneBit : U32} {timeout : Nat} {ev : List Event} {res : Int}
    (h : Exec (mmcRintWait doneBit timeout) ev res) :
    Quiet ev ∧ polls ev ≤ timeout + 1 ∧
      (res = -ETIMEDOUT ∨
        res = 0 ∧ ∃ v, ⟨.readl .rint, v⟩ ∈ ev ∧ v &&& doneBit ≠ 0 ∧
          v &&& RINT_INTERRUPT_ERROR_BIT = 0) := by
  rcases exec_pollUntil (by decide) h with ⟨hq, hp, hres⟩
  refine ⟨hq, hp, ?_⟩
  rcases hres with hres | ⟨hres, pre, v, rfl, hfail, hdone⟩
  · exact .inl hres
  · exact .inr ⟨hres, v, by simp, by simpa using hdone, by simpa using hfail⟩

/-- The busy loop succeeds only when its last STATUS word shows the card ready. -/
theorem exec_busyWait {timeout : Nat} {ev : List Event} {res : Int}
    (h : Exec (busyWait timeout) ev res) :
    Quiet ev ∧ polls ev ≤ timeout + 1 ∧
      (res = -ETIMEDOUT ∨
        res = 0 ∧ ∃ v, lastStatus ev = some v ∧ v &&& STATUS_CARD_DATA_BUSY = 0) := by
  rcases exec_pollUntil (by decide) h with ⟨hq, hp, hres⟩
  refine ⟨hq, hp, ?_⟩
  rcases hres with hres | ⟨hres, pre, v, rfl, _, hdone⟩
  · exact .inl hres
  · exact .inr ⟨hres, v, by simp [lastStatus, List.filterMap_cons, Event.status?],
      by simpa using hdone⟩

/-! ## Traces of a transfer -/

theorem exec_moveWord {d : MmcData} {i : Nat} {ev : List Event} {u : Unit}
    (h : Exec (moveWord d i) ev u) :
    (∀ busy v, v &&& busy = 0 → FifoGuarded busy (some v) ev) ∧ polls ev ≤ 1 ∧
      fifoWords ev = 1 ∧ ∀ e ∈ ev, e.isResponse = false := by
  unfold moveWord at h
  split at h
  · rcases exec_op_bind_iff.1 h with ⟨w, ev', rfl, hk⟩
    rw [exec_op_iff.1 hk]
    refine ⟨?_, by simp [Event.isRead], by simp [Event.isFifo], by simp [Event.isResponse]⟩
    intro busy v hv
    exact ⟨fun _ => ⟨v, rfl, hv⟩, fun hf => by simp [Event.isFifo] at hf, trivial⟩
  · rcases exec_op_bind_iff.1 h with ⟨w, ev', rfl, hk⟩
    rw [exec_op_iff.1 hk]
    refine ⟨?_, by simp [Event.isRead], by simp [Event.isFifo], by simp [Event.isResponse]⟩
    intro busy v hv
    exact ⟨fun hf => by simp [Event.isFifo] at hf, fun _ => ⟨v, rfl, hv⟩, trivial⟩

theorem exec_transWords {d : MmcData} :
    ∀ {n i timeout : Nat} {ev : List Event} {res : Int},
      Exec (transWords d n i timeout) ev res →
        (∀ st, FifoGuarded d.statusBit st ev) ∧ polls ev ≤ 2 * n + timeout + 1 ∧
          (∀ e ∈ ev, e.isResponse = false) ∧ (res = -1 ∨ res = 0 ∧ fifoWords ev = n) := by
  intro n
  induction n with
  | zero =>
      intro i timeout ev res h
      rcases exec_pure_iff.1 h with ⟨rfl, rfl⟩
      exact ⟨fun _ => trivial, by simp, by simp, .inr ⟨rfl, rfl⟩⟩
  | succ n ih =>
      intro i timeout ev res h
      rw [transWords] at h
      -- One word: the poll, the move, and the words after it.
      rcases exec_bind_iff.1 h with ⟨ev₁, ev', left, rfl, hpoll, hk⟩
      rcases exec_pollWhile (by decide) hpoll with ⟨hq, hp, hlast⟩
      -- The countdown of the poll is handed on to the next word.
      cases left with
      | none =>
          rcases exec_pure_iff.1 hk with ⟨rfl, rfl⟩
          rw [Option.getD_none] at hp
          rw [List.append_nil]
          exact ⟨fun st => fifoGuarded_of_no_fifo hq.fifo, by omega, hq.response, .inl rfl⟩
      | some timeout' =>
          rcases exec_bind_iff.1 hk with ⟨ev₂, ev₃, u, rfl, hmove, hrest⟩
          rcases exec_moveWord hmove with ⟨hguard, hp₂, hfifo₂, hresp₂⟩
          rcases ih hrest with ⟨hguard₃, hp₃, hresp₃, hres⟩
          rcases hlast timeout' rfl with ⟨pre, v, rfl, hv⟩
          simp only [Option.getD_some] at hp
          refine ⟨fun st => ?_, ?_, ?_, ?_⟩
          · -- The poll ends on a STATUS word with the bit clear: that word guards this access.
            have hseen : (pre ++ [(⟨.readl .status, v⟩ : Event)]).foldl statusSeen st = some v := by
              simp [statusSeen, Event.status?]
            refine fifoGuarded_append.2 ⟨fifoGuarded_of_no_fifo hq.fifo, ?_⟩
            rw [hseen]
            exact fifoGuarded_append.2 ⟨hguard _ v hv, hguard₃ _⟩
          · simp only [polls_append] at hp ⊢
            omega
          · intro e he
            rcases List.mem_append.1 he with he | he
            · exact hq.response e he
            · rcases List.mem_append.1 he with he | he
              · exact hresp₂ e he
              · exact hresp₃ e he
          · rcases hres with hres | ⟨hres, hn⟩
            · exact .inl hres
            · refine .inr ⟨hres, ?_⟩
              have hpre := hq.fifo
              simp only [fifoWords_append] at hpre ⊢
              omega

/-- Issuing a command moves all the words of its data, each behind its own STATUS read, or fails. -/
theorem exec_sendCmdStart {cmd : MmcCmd} {data : Option MmcData} {ev : List Event} {res : Int}
    (h : Exec (sendCmdStart cmd data) ev res) :
    (∀ d, data = some d → ∀ st, FifoGuarded d.statusBit st ev) ∧
      polls ev ≤ data.elim 0 (fun d =>
        2 * (d.byteCnt >>> 2).toNat + d.timeoutUsecs.toNat + 3) ∧
      (∀ e ∈ ev, e.isResponse = false) ∧
      (res < 0 ∨ res = 0 ∧ fifoWords ev = data.elim 0 fun d => (d.byteCnt >>> 2).toNat) := by
  cases data with
  | none =>
      rcases exec_op_bind_iff.1 h with ⟨_, ev', rfl, hk⟩
      rcases exec_op_bind_iff.1 hk with ⟨_, ev'', rfl, hk'⟩
      rcases exec_pure_iff.1 hk' with ⟨rfl, rfl⟩
      exact ⟨by simp, by simp [Event.isRead], by simp [Event.isResponse],
        .inr ⟨rfl, by simp [Event.isFifo]⟩⟩
  | some d =>
      simp only [sendCmdStart] at h
      split at h
      · rcases exec_pure_iff.1 h with ⟨rfl, rfl⟩
        exact ⟨fun _ _ _ => trivial, by simp, by simp, .inl (by decide)⟩
      · rcases exec_op_bind_iff.1 h with ⟨_, ev₁, rfl, h₁⟩
        rcases exec_op_bind_iff.1 h₁ with ⟨_, ev₂, rfl, h₂⟩
        rcases exec_op_bind_iff.1 h₂ with ⟨_, ev₃, rfl, h₃⟩
        rcases exec_op_bind_iff.1 h₃ with ⟨_, ev₄, rfl, h₄⟩
        rcases exec_bind_iff.1 h₄ with ⟨ev₅, ev₆, ret, rfl, htrans, hend⟩
        rcases exec_op_bind_iff.1 htrans with ⟨_, ev₇, rfl, h₇⟩
        rcases exec_op_bind_iff.1 h₇ with ⟨_, ev₈, rfl, h₈⟩
        rcases exec_transWords h₈ with ⟨hguard, hp, hresp, hres⟩
        -- A transfer that failed is followed by one read of RINT.
        have hend' : (ev₆ = [] ∧ ret = 0 ∧ res = 0) ∨
            (∃ v, ev₆ = [⟨.readl .rint, v⟩]) ∧ res = -ETIMEDOUT := by
          split at hend
          · rcases exec_op_bind_iff.1 hend with ⟨v, ev₉, rfl, h₉⟩
            rcases exec_pure_iff.1 h₉ with ⟨rfl, rfl⟩
            exact .inr ⟨⟨v, rfl⟩, rfl⟩
          · next hret =>
              rcases exec_pure_iff.1 hend with ⟨rfl, rfl⟩
              exact .inl ⟨rfl, by simpa using hret, rfl⟩
        have hquiet : Quiet ev₆ ∧ polls ev₆ ≤ 1 := by
          rcases hend' with ⟨rfl, _, _⟩ | ⟨⟨v, rfl⟩, _⟩
          · exact ⟨.nil, by simp⟩
          · exact ⟨Quiet.cons rfl rfl .nil, by simp [Event.isRead]⟩
        refine ⟨?_, ?_, ?_, ?_⟩
        · intro d' hd' st
          cases hd'
          simp only [List.cons_append, FifoGuarded, Event.isFifo, fifoGuarded_append]
          simp [hguard, fifoGuarded_of_no_fifo hquiet.1.fifo]
        · have hp₆ := hquiet.2
          simp only [List.cons_append, polls_cons, polls_append, Event.isRead, Option.elim_some,
            Bool.false_eq_true, if_true, if_false]
          omega
        · simp only [List.cons_append, List.mem_cons, List.mem_append]
          rintro e (rfl | rfl | rfl | rfl | rfl | rfl | he | he)
          all_goals try rfl
          · exact hresp e he
          · exact hquiet.1.response e he
        · rcases hend' with ⟨rfl, hret, hz⟩ | ⟨_, hneg⟩
          · rcases hres with hres | ⟨_, hn⟩
            · omega
            · exact .inr ⟨hz, by simp [hn, Event.isFifo]⟩
          · exact .inl (by rw [hneg]; decide)

/-! ## Traces of the whole call -/

theorem exec_dataWait {data : Option MmcData} {ev : List Event} {res : Int}
    (h : Exec (dataWait data) ev res) :
    Quiet ev ∧ polls ev ≤ 121 ∧
      (res = -ETIMEDOUT ∨
        res = 0 ∧ ∀ d, data = some d → ∃ v, ⟨.readl .rint, v⟩ ∈ ev ∧ v &&& d.doneBit ≠ 0 ∧
          v &&& RINT_INTERRUPT_ERROR_BIT = 0) := by
  cases data with
  | none =>
      rcases exec_pure_iff.1 h with ⟨rfl, rfl⟩
      exact ⟨.nil, by simp, .inr ⟨rfl, by simp⟩⟩
  | some d =>
      rcases exec_mmcRintWait h with ⟨hq, hp, hres⟩
      refine ⟨hq, hp, ?_⟩
      rcases hres with hres | ⟨hres, hv⟩
      · exact .inl hres
      · exact .inr ⟨hres, fun d' hd' => by cases hd'; exact hv⟩

theorem exec_readyWait {cmd : MmcCmd} {ev : List Event} {res : Int}
    (h : Exec (readyWait cmd) ev res) :
    Quiet ev ∧ polls ev ≤ 2001 ∧
      (res = -ETIMEDOUT ∨
        res = 0 ∧ (cmd.respType &&& MMC_RSP_BUSY ≠ 0 →
          ∃ v, lastStatus ev = some v ∧ v &&& STATUS_CARD_DATA_BUSY = 0)) := by
  unfold readyWait at h
  split at h
  · rcases exec_busyWait h with ⟨hq, hp, hres⟩
    exact ⟨hq, hp, hres.imp_right fun hr => ⟨hr.1, fun _ => hr.2⟩⟩
  · next hn =>
      rcases exec_pure_iff.1 h with ⟨rfl, rfl⟩
      exact ⟨.nil, by simp, .inr ⟨rfl, fun hb => absurd hb hn⟩⟩

/-- The response words are read without touching the FIFO or STATUS. -/
theorem exec_readResponse {cmd : MmcCmd} {ev : List Event} {u : Unit}
    (h : Exec (readResponse cmd) ev u) :
    fifoWords ev = 0 ∧ polls ev ≤ 4 ∧ ev.filterMap Event.status? = [] := by
  unfold readResponse at h
  split at h
  · rcases exec_op_bind_iff.1 h with ⟨_, ev₁, rfl, h₁⟩
    rcases exec_op_bind_iff.1 h₁ with ⟨_, ev₂, rfl, h₂⟩
    rcases exec_op_bind_iff.1 h₂ with ⟨_, ev₃, rfl, h₃⟩
    rcases exec_op_bind_iff.1 h₃ with ⟨_, ev₄, rfl, h₄⟩
    rcases exec_op_bind_iff.1 h₄ with ⟨_, ev₅, rfl, h₅⟩
    rcases exec_op_bind_iff.1 h₅ with ⟨_, ev₆, rfl, h₆⟩
    rcases exec_op_bind_iff.1 h₆ with ⟨_, ev₇, rfl, h₇⟩
    rw [exec_op_iff.1 h₇]
    exact ⟨by simp [Event.isFifo], by simp [Event.isRead],
      by simp [List.filterMap_cons, Event.status?]⟩
  · rcases exec_op_bind_iff.1 h with ⟨_, ev₁, rfl, h₁⟩
    rw [exec_op_iff.1 h₁]
    exact ⟨by simp [Event.isFifo], by simp [Event.isRead],
      by simp [List.filterMap_cons, Event.status?]⟩

theorem exec_mmcUpdateClk {ev : List Event} {res : Int} (h : Exec mmcUpdateClk ev res) :
    Quiet ev ∧ polls ev ≤ 2002 ∧
      ∃ mid, ev = ⟨.writel .cmd (CMD_START ||| CMD_UPCLK_ONLY ||| CMD_WAIT_PRE_OVER), ()⟩ :: mid := by
  rcases exec_op_bind_iff.1 h with ⟨_, ev₁, rfl, h₁⟩
  rcases exec_bind_iff.1 h₁ with ⟨ev₂, ev₃, left, rfl, hpoll, hk⟩
  rcases exec_pollWhile (by decide) hpoll with ⟨hq, hp, _⟩
  have hend : Quiet ev₃ ∧ polls ev₃ ≤ 1 := by
    cases left with
    | none =>
        rcases exec_pure_iff.1 hk with ⟨rfl, rfl⟩
        exact ⟨.nil, by simp⟩
    | some t =>
        rcases exec_op_bind_iff.1 hk with ⟨_, ev₄, rfl, h₄⟩
        rcases exec_op_bind_iff.1 h₄ with ⟨_, ev₅, rfl, h₅⟩
        rcases exec_pure_iff.1 h₅ with ⟨rfl, rfl⟩
        exact ⟨Quiet.cons rfl rfl (Quiet.cons rfl rfl .nil), by simp [Event.isRead]⟩
  refine ⟨Quiet.cons rfl rfl (hq.append hend.1), ?_, _, rfl⟩
  simp [Event.isRead]
  omega

/-- What the trace of a successful command shows. -/
structure Completed (cmd : MmcCmd) (data : Option MmcData) (ev : List Event) : Prop where
  done : ∃ v, ⟨.readl .rint, v⟩ ∈ ev ∧ v &&& RINT_COMMAND_DONE ≠ 0 ∧
    v &&& RINT_INTERRUPT_ERROR_BIT = 0
  words : fifoWords ev = data.elim 0 fun d => (d.byteCnt >>> 2).toNat
  dataDone : ∀ d, data = some d → ∃ v, ⟨.readl .rint, v⟩ ∈ ev ∧ v &&& d.doneBit ≠ 0 ∧
    v &&& RINT_INTERRUPT_ERROR_BIT = 0
  ready : cmd.respType &&& MMC_RSP_BUSY ≠ 0 →
    ∃ v, lastStatus ev = some v ∧ v &&& STATUS_CARD_DATA_BUSY = 0

theorem exec_sendCmdBody {cmd : MmcCmd} {data : Option MmcData} {ev : List Event} {res : Int}
    (h : Exec (sendCmdBody cmd data) ev res) :
    (∀ d, data = some d → ∀ st, FifoGuarded d.statusBit st ev) ∧
      polls ev ≤ data.elim 0 (fun d =>
        2 * (d.byteCnt >>> 2).toNat + d.timeoutUsecs.toNat + 3) + 3127 ∧
      (res < 0 ∧ (∀ e ∈ ev, e.isResponse = false) ∨ res = 0 ∧ Completed cmd data ev) := by
  have hneg : (-ETIMEDOUT : Int) < 0 := by decide
  rcases exec_bind_iff.1 h with ⟨ev₁, ev₂, error, rfl, hstart, h₂⟩
  rcases exec_sendCmdStart hstart with ⟨hguard, hp₁, hresp₁, hres₁⟩
  -- What follows the transfer moves no words, so the guards stay.
  have hguard' : ∀ ev' : List Event, fifoWords ev' = 0 →
      ∀ d, data = some d → ∀ st, FifoGuarded d.statusBit st (ev₁ ++ ev') :=
    fun ev' h₀ d hd st => fifoGuarded_append.2 ⟨hguard d hd st, fifoGuarded_of_no_fifo h₀⟩
  split at h₂
  · -- `goto out` while issuing the command.
    next hne =>
      rcases exec_pure_iff.1 h₂ with ⟨rfl, rfl⟩
      rw [List.append_nil]
      exact ⟨hguard, by omega, .inl ⟨by omega, hresp₁⟩⟩
  next hz₁ =>
  rcases exec_bind_iff.1 h₂ with ⟨ev₃, ev₄, error₃, rfl, hcmd, h₄⟩
  rcases exec_mmcRintWait hcmd with ⟨hq₃, hp₃, hres₃⟩
  split at h₄
  · -- `goto out` while waiting for the command.
    rcases exec_pure_iff.1 h₄ with ⟨rfl, rfl⟩
    rw [List.append_nil]
    refine ⟨hguard' _ hq₃.fifo, by rw [polls_append]; omega, .inl ⟨by omega, ?_⟩⟩
    simpa [or_imp, forall_and] using ⟨hresp₁, hq₃.response⟩
  next hz₃ =>
  rcases exec_bind_iff.1 h₄ with ⟨ev₅, ev₆, error₅, rfl, hdata, h₆⟩
  rcases exec_dataWait hdata with ⟨hq₅, hp₅, hres₅⟩
  split at h₆
  · -- `goto out` while waiting for the data.
    rcases exec_pure_iff.1 h₆ with ⟨rfl, rfl⟩
    rw [List.append_nil]
    refine ⟨hguard' _ (hq₃.append hq₅).fifo, by rw [polls_append, polls_append]; omega,
      .inl ⟨by omega, ?_⟩⟩
    simpa [or_imp, forall_and] using ⟨hresp₁, hq₃.response, hq₅.response⟩
  next hz₅ =>
  rcases exec_bind_iff.1 h₆ with ⟨ev₇, ev₈, error₇, rfl, hbusy, h₈⟩
  rcases exec_readyWait hbusy with ⟨hq₇, hp₇, hres₇⟩
  split at h₈
  · -- `goto out` while waiting for the card.
    rcases exec_pure_iff.1 h₈ with ⟨rfl, rfl⟩
    rw [List.append_nil]
    refine ⟨hguard' _ (hq₃.append (hq₅.append hq₇)).fifo,
      by rw [polls_append, polls_append, polls_append]; omega, .inl ⟨by omega, ?_⟩⟩
    simpa [or_imp, forall_and] using ⟨hresp₁, hq₃.response, hq₅.response, hq₇.response⟩
  next hz₇ =>
  rcases exec_bind_iff.1 h₈ with ⟨ev₉, ev₁₀, _, rfl, hread, h₁₀⟩
  rcases exec_readResponse hread with ⟨hf₉, hp₉, hs₉⟩
  rcases exec_pure_iff.1 h₁₀ with ⟨rfl, rfl⟩
  rw [List.append_nil]
  -- Only the transfer has touched the FIFO.
  have hquiet : fifoWords (ev₃ ++ (ev₅ ++ (ev₇ ++ ev₉))) = 0 := by
    simp [hq₃.fifo, hq₅.fifo, hq₇.fifo, hf₉]
  refine ⟨hguard' _ hquiet, by simp only [polls_append]; omega, .inr ⟨rfl, ?_, ?_, ?_, ?_⟩⟩
  · rcases hres₃ with hres₃ | ⟨_, v, hv, hbits⟩
    · omega
    · exact ⟨v, by simp [hv], hbits⟩
  · rcases hres₁ with hres₁ | ⟨_, hwords⟩
    · omega
    · rw [fifoWords_append, hquiet, hwords]
      rfl
  · intro d hd
    rcases hres₅ with hres₅ | ⟨_, hv⟩
    · omega
    · rcases hv d hd with ⟨v, hv, hbits⟩
      exact ⟨v, by simp [hv], hbits⟩
  · intro hb
    rcases hres₇ with hres₇ | ⟨_, hv⟩
    · omega
    · rcases hv hb with ⟨v, hlast, hv⟩
      refine ⟨v, ?_, hv⟩
      refine lastStatus_append_of_some (lastStatus_append_of_some (lastStatus_append_of_some ?_))
      rw [lastStatus_append_of_nil hs₉, hlast]

/-! ## The whole call -/

/-- A bound on the register reads of one command: two for each data word, the transfer timeout, and
the countdowns of the other loops. -/
def pollBound (data : Option MmcData) : Nat :=
  data.elim 0 (fun d => 2 * (d.byteCnt >>> 2).toNat + d.timeoutUsecs.toNat + 3) + 5130

/-- The accesses that end every command: clear RINT and reset the FIFO. -/
def closing (g : U32) : List Event :=
  [⟨.writel .rint 0xffffffff, ()⟩, ⟨.readl .gctrl, g⟩,
    ⟨.writel .gctrl (g ||| GCTRL_FIFO_RESET), ()⟩]

/-- The accesses that start the recovery: reset the controller and update its clock. -/
def recovery : List Event :=
  [⟨.writel .gctrl GCTRL_RESET, ()⟩,
    ⟨.writel .cmd (CMD_START ||| CMD_UPCLK_ONLY ||| CMD_WAIT_PRE_OVER), ()⟩]

theorem exec_sendCmdOut {error : Int} {ev : List Event} {res : Int}
    (h : Exec (sendCmdOut error) ev res) :
    res = error ∧ polls ev ≤ 2003 ∧ Quiet ev ∧
      (error < 0 ∧ (∃ mid g, ev = recovery ++ mid ++ closing g) ∨
        0 ≤ error ∧ ∃ g, ev = closing g) := by
  have hclose : ∀ {ev : List Event},
      Exec (do writel .rint 0xffffffff
               let g ← readl .gctrl
               writel .gctrl (g ||| GCTRL_FIFO_RESET)
               pure error) ev res → res = error ∧ ∃ g, ev = closing g := by
    intro ev h
    rcases exec_op_bind_iff.1 h with ⟨_, ev₁, rfl, h₁⟩
    rcases exec_op_bind_iff.1 h₁ with ⟨g, ev₂, rfl, h₂⟩
    rcases exec_op_bind_iff.1 h₂ with ⟨_, ev₃, rfl, h₃⟩
    rcases exec_pure_iff.1 h₃ with ⟨rfl, rfl⟩
    exact ⟨rfl, g, rfl⟩
  have hquiet : ∀ g, Quiet (closing g) :=
    fun g => Quiet.cons rfl rfl (Quiet.cons rfl rfl (Quiet.cons rfl rfl .nil))
  have hpolls : ∀ g, polls (closing g) = 1 := fun g => rfl
  unfold sendCmdOut at h
  split at h
  · next hneg =>
      rcases exec_op_bind_iff.1 h with ⟨_, ev₁, rfl, h₁⟩
      rcases exec_bind_iff.1 h₁ with ⟨ev₂, ev₃, _, rfl, hupd, h₂⟩
      rcases exec_mmcUpdateClk hupd with ⟨hq, hp, mid, rfl⟩
      rcases hclose h₂ with ⟨hres, g, rfl⟩
      refine ⟨hres, ?_, Quiet.cons rfl rfl (hq.append (hquiet g)), .inl ⟨hneg, mid, g, rfl⟩⟩
      rw [polls_cons, polls_append, hpolls]
      simp only [Event.isRead, Bool.false_eq_true, if_false]
      omega
  · next hneg =>
      rcases hclose h with ⟨hres, g, rfl⟩
      exact ⟨hres, by rw [hpolls]; omega, hquiet g, .inr ⟨by omega, g, rfl⟩⟩

/-- One trace of `sunxi_mmc_send_cmd`. -/
structure SendCmdSpec (cmd : MmcCmd) (data : Option MmcData) (ev : List Event) (res : Int) :
    Prop where
  polls : polls ev ≤ pollBound data
  fifo : ∀ d, data = some d → FifoGuarded d.statusBit none ev
  success : res = 0 → Completed cmd data ev
  failure : res ≠ 0 → res < 0 ∧ (∀ e ∈ ev, e.isResponse = false) ∧
    ∃ pre mid g, ev = pre ++ recovery ++ mid ++ closing g
  closing : ∃ pre g, ev = pre ++ closing g

/-- The evidence of a successful body is still there once the call has closed. -/
theorem Completed.append_closing {cmd : MmcCmd} {data : Option MmcData} {ev : List Event} {g : U32}
    (h : Completed cmd data ev) : Completed cmd data (ev ++ Mmc.closing g) := by
  refine ⟨?_, ?_, ?_, ?_⟩
  · rcases h.done with ⟨v, hv, hbits⟩
    exact ⟨v, List.mem_append_left _ hv, hbits⟩
  · rw [fifoWords_append, h.words]
    rfl
  · intro d hd
    rcases h.dataDone d hd with ⟨v, hv, hbits⟩
    exact ⟨v, List.mem_append_left _ hv, hbits⟩
  · intro hb
    rcases h.ready hb with ⟨v, hlast, hv⟩
    exact ⟨v, by rw [lastStatus_append_of_nil rfl, hlast], hv⟩

/-- Whatever the controller answers, a command other than CMD12 on a host without a fatal error
ends, and each of its traces meets `SendCmdSpec`. -/
theorem sunxiMmcSendCmd_spec (cmd : MmcCmd) (data : Option MmcData) (hidx : cmd.cmdidx ≠ 12) :
    (∀ env : List Event → (o : Op) → o.Ret,
        ∃ ev res, Exec (sunxiMmcSendCmd 0 cmd data) ev res ∧ Follows env [] ev) ∧
      ∀ ev res, Exec (sunxiMmcSendCmd 0 cmd data) ev res → SendCmdSpec cmd data ev res := by
  refine ⟨fun env => exists_exec env _ [], ?_⟩
  intro ev res h
  rw [sunxiMmcSendCmd, if_neg (by simp), if_neg hidx] at h
  rcases exec_bind_iff.1 h with ⟨ev₁, ev₂, error, rfl, hbody, hout⟩
  -- The routine is a body and a common way out; each has its own lemma.
  rcases exec_sendCmdBody hbody with ⟨hguard, hp₁, hres₁⟩
  rcases exec_sendCmdOut hout with ⟨rfl, hp₂, hq₂, htail⟩
  refine ⟨?_, ?_, ?_, ?_, ?_⟩
  · rw [polls_append]
    unfold pollBound
    omega
  · intro d hd
    exact fifoGuarded_append.2 ⟨hguard d hd none, fifoGuarded_of_no_fifo hq₂.fifo⟩
  · intro hz
    rcases hres₁ with ⟨hneg, _⟩ | ⟨_, hdone⟩
    · omega
    · rcases htail with ⟨hneg, _⟩ | ⟨_, g, rfl⟩
      · omega
      · exact hdone.append_closing
  · intro hne
    rcases hres₁ with ⟨hneg, hresp⟩ | ⟨hz, _⟩
    · rcases htail with ⟨_, mid, g, rfl⟩ | ⟨hpos, _⟩
      · refine ⟨hneg, ?_, ev₁, mid, g, by simp⟩
        intro e he
        rcases List.mem_append.1 he with he | he
        · exact hresp e he
        · exact hq₂.response e he
      · omega
    · exact absurd hz hne
  · rcases htail with ⟨_, mid, g, rfl⟩ | ⟨_, g, rfl⟩
    · exact ⟨ev₁ ++ (recovery ++ mid), g, by simp⟩
    · exact ⟨ev₁, g, rfl⟩

/-- CMD0 on a controller that raises COMMAND_DONE on the first read of RINT. -/
theorem sunxiMmcSendCmd_spec_cmd0 :
    (⟨0, 0, 0⟩ : MmcCmd).cmdidx ≠ 12 ∧
      SendCmdSpec ⟨0, 0, 0⟩ none
        ([⟨.writel .arg 0, ()⟩, ⟨.writel .cmd 0x80008000, ()⟩, ⟨.readl .rint, 0x4⟩,
          ⟨.udelay 1000, ()⟩, ⟨.readl .resp0, 0⟩, ⟨.setResponse 0 0, ()⟩] ++ closing 0) 0 :=
  ⟨by decide, (sunxiMmcSendCmd_spec ⟨0, 0, 0⟩ none (by decide)).2 _ _
    (.call (.call (.call (.call (.call (.call (.call (.call (.call (.ret 0))))))))))⟩

end Mmc

end BspV3s
