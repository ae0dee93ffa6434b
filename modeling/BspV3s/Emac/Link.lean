import BspV3s.Emac.Driver

/-!
# Link — what the PHY thread announces

A run of `phy_thread_entry` is the list of the traces of its iterations; every register and every
PHY register may answer anything.  From the traces one reads off the link state that an iteration
sampled, whether it saw a DMA error, and what `eth_device_linkchange` was last told.

The thread keeps the last sampled state in `initlink` and announces changes of it only, while the
restart after a DMA error announces "down" behind its back.  So the announcement is silenced from
such an error on until the link really changes, and that is the only way for it to be wrong.
-/

namespace BspV3s

namespace Emac

open Prog

abbrev Trace : Type := List (Prog.Event Op Op.Ret)

/-! ## Reading a trace -/

/-- The link state told last, if `up` was told before the trace. -/
def announcedAfter (up : ℤ) : Trace → ℤ
  | [] => up
  | ⟨.linkchange up', _⟩ :: ev => announcedAfter up' ev
  | _ :: ev => announcedAfter up ev

/-- Before the first announcement the link is down. -/
def announced (ev : Trace) : ℤ := announcedAfter 0 ev

/-- The state that `miiphy_link` makes of the answer to its second read. -/
def linkState (answer : U32) : ℤ :=
  if answer.slt 0 then 0 else if answer.setWidth 16 &&& 0x0004#16 ≠ 0 then 1 else 0

/-- The link state sampled in an iteration. -/
def sampledLink : Trace → ℤ
  | _ :: ⟨.phyRead _, answer⟩ :: _ => linkState answer
  | _ => 0

/-- `EMAC_INT_STA` as the iteration read it. -/
def intStatus : Trace → U32
  | [] => 0
  | ⟨.readl .intSta, status⟩ :: _ => status
  | _ :: ev => intStatus ev

/-- The iteration saw a DMA error. -/
def dmaError (ev : Trace) : Prop := testBits (intStatus ev) 0x40#32 = true

instance (ev : Trace) : Decidable (dmaError ev) := inferInstanceAs (Decidable (_ = _))

theorem announcedAfter_append (up : ℤ) (ev ev' : Trace) :
    announcedAfter up (ev ++ ev') = announcedAfter (announcedAfter up ev) ev' := by
  fun_induction announcedAfter up ev with
  | case1 up => rfl
  | case2 up up' u ev ih => simpa [announcedAfter] using ih
  | case3 up e ev hne ih =>
      rcases e with ⟨o, r⟩
      cases o <;> simp_all [announcedAfter]

/-! ## One iteration -/

/-- Everything but an announcement. -/
def Mute (o : Op) : Prop := ∀ up, o ≠ .linkchange up

theorem announcedAfter_mute (up : ℤ) {ev : Trace} (h : ∀ e ∈ ev, Mute e.op) :
    announcedAfter up ev = up := by
  induction ev with
  | nil => rfl
  | cons e ev ih =>
      rcases e with ⟨o, r⟩
      have htail := ih fun e he => h e (List.mem_cons_of_mem _ he)
      have hhead := h _ (List.mem_cons_self ..)
      cases o <;> simp_all [announcedAfter, Mute]

/-- The accesses of `_emac_init`: neither an announcement nor, outside `sun8i_adjust_link`, a store
to `EMAC_CTL0`. -/
def InitOp : Op → Prop
  | .linkchange _ => False
  | .writel .ctl0 _ => False
  | _ => True

theorem only_eachLine {A : Op → Prop} {f : ℕ → EmacM Unit} (hf : ∀ a, (f a).Only A) (mva n : ℕ) :
    (eachLine f mva n).Only A := by
  induction n generalizing mva with
  | zero => exact Prog.only_pure _
  | succ n ih => exact (hf mva).bind fun _ => ih (mva + 64)

theorem only_forIdx {A : Op → Prop} {body : ℕ → EmacM Unit} (hbody : ∀ i, (body i).Only A) (n : ℕ) :
    (forIdx body n).Only A := by
  induction n with
  | zero => exact Prog.only_pure _
  | succ n ih => exact ih.bind fun _ => hbody n

theorem only_flushDcacheRange (start stop : ℕ) : (flushDcacheRange start stop).Only InitOp :=
  only_eachLine (fun _ => Prog.only_op trivial) _ _

theorem only_store (a : ℕ) (v : U32) : (store a v).Only InitOp :=
  Prog.only_op trivial

theorem only_setBit (a : ℕ) (b : U32) : (setBit a b).Only InitOp :=
  (Prog.only_op trivial).bind fun _ => only_store _ _

theorem only_writel {r : Reg} (hr : r ≠ .ctl0) (v : U32) : (writel r v).Only InitOp := by
  refine Prog.only_op ?_
  cases r <;> trivial

theorem only_setbits {r : Reg} (hr : r ≠ .ctl0) (b : U32) : (setbits r b).Only InitOp :=
  (Prog.only_op trivial).bind fun _ => only_writel hr _

theorem only_pollReset (timeout : ℕ) : (pollReset timeout).Only InitOp := by
  induction timeout with
  | zero => exact Prog.only_pure _
  | succ n ih =>
      refine (Prog.only_op trivial).bind fun reg => ?_
      split
      · exact ih
      · exact Prog.only_pure _

theorem only_softReset : softReset.Only InitOp := by
  refine (Prog.only_op trivial).bind fun reg => ?_
  split
  · exact Prog.only_pure _
  · exact (only_setbits (by simp) _).bind fun _ => only_pollReset 100

theorem only_macInit (macId : ℕ → Byte) : (macInit macId).Only InitOp := by
  have haddr : (sun8iWriteHwaddr macId).Only InitOp :=
    (only_writel (by simp) _).bind fun _ => only_writel (by simp) _
  exact haddr.bind fun _ => (only_setbits (by simp) _).bind fun _ =>
    (only_setbits (by simp) _).bind fun _ => only_writel (by simp) _

theorem only_rxDescsInit (D : Indev) : (rxDescsInit D).Only InitOp := by
  have hdesc : ∀ i, (rxDescInit D i).Only InitOp := fun i =>
    (only_store _ _).bind fun _ => (only_store _ _).bind fun _ =>
      (only_setBit _ _).bind fun _ => only_store _ _
  have htable : (rxTableInit D).Only InitOp :=
    (only_flushDcacheRange _ _).bind fun _ => (only_forIdx hdesc _).bind fun _ =>
      (only_store _ _).bind fun _ => (only_flushDcacheRange _ _).bind fun _ =>
        only_writel (by simp) _
  exact htable.bind fun _ => Prog.only_op trivial

theorem only_txDescsInit (D : Indev) : (txDescsInit D).Only InitOp := by
  have hdesc : ∀ i, (txDescInit D i).Only InitOp := fun i =>
    (only_store _ _).bind fun _ => (only_store _ _).bind fun _ =>
      (only_store _ _).bind fun _ => only_store _ _
  have htable : (txTableInit D).Only InitOp :=
    (only_forIdx hdesc _).bind fun _ => (only_store _ _).bind fun _ =>
      (only_flushDcacheRange _ _).bind fun _ => only_writel (by simp) _
  exact htable.bind fun _ => Prog.only_op trivial

theorem only_phyRead (r : PhyReg) : (phyRead r).Only InitOp :=
  Prog.only_op trivial

theorem only_genphyParseLink (phydev : PhyDevice) : (genphyParseLink phydev).Only InitOp := by
  have hgigabit : (gigabitAbility phydev).Only InitOp := by
    unfold gigabitAbility
    split
    · exact (only_phyRead _).bind fun _ => (only_phyRead _).bind fun _ => Prog.only_pure _
    · exact Prog.only_pure _
  have hestatus : ∀ miiReg, (readEstatus miiReg).Only InitOp := by
    intro miiReg
    unfold readEstatus
    split
    · exact only_phyRead _
    · exact Prog.only_pure _
  refine (only_phyRead _).bind fun miiReg => ?_
  split
  · refine hgigabit.bind fun gblpa => ?_
    split
    · exact Prog.only_pure _
    · exact (only_phyRead _).bind fun _ => (only_phyRead _).bind fun _ =>
        (hestatus miiReg).bind fun _ => Prog.only_pure _
  · exact (only_phyRead _).bind fun _ => Prog.only_pure _

theorem only_startDma : startDma.Only InitOp :=
  (only_setbits (by simp) _).bind fun _ => (only_setbits (by simp) _).bind fun _ =>
    (only_setbits (by simp) _).bind fun _ => (only_setbits (by simp) _).bind fun _ =>
      only_setbits (by simp) _

theorem InitOp.mute {o : Op} (ho : InitOp o) : Mute o := by
  rintro up rfl
  exact ho

/-- `_emac_init` announces nothing. -/
theorem only_emacInit (E : EthDev) : (emacInit E).Only Mute := by
  have hadjust : ∀ phydev, (sun8iAdjustLink phydev).Only Mute := fun phydev =>
    (Prog.only_op (by rintro _ ⟨⟩)).bind fun _ => Prog.only_op (by rintro _ ⟨⟩)
  refine Prog.Only.bind ?_ fun _ => Prog.only_pure _
  refine (only_softReset.mono fun _ => InitOp.mute).bind fun ok => ?_
  split
  · refine ((only_macInit _).mono fun _ => InitOp.mute).bind fun _ => ?_
    refine ((only_rxDescsInit _).mono fun _ => InitOp.mute).bind fun _ => ?_
    refine ((only_txDescsInit _).mono fun _ => InitOp.mute).bind fun _ => ?_
    refine ((only_genphyParseLink _).mono fun _ => InitOp.mute).bind fun phydev => ?_
    refine (hadjust phydev).bind fun _ => ?_
    exact (only_startDma.mono fun _ => InitOp.mute).bind fun _ => Prog.only_pure _
  · exact Prog.only_pure _

theorem exec_miiphyLink {ev : Trace} {link : ℤ} (h : Exec miiphyLink ev link) :
    ∃ v w, ev = [⟨.phyRead .bmsr, v⟩, ⟨.phyRead .bmsr, w⟩] ∧ link = linkState w := by
  rcases exec_bind_iff.1 h with ⟨ev₁, ev₂, a, rfl, h₁, h₂⟩
  rcases exec_op_bind_iff.1 h₁ with ⟨v, ev₃, rfl, h₃⟩
  rcases exec_pure_iff.1 h₃ with ⟨rfl, rfl⟩
  rcases exec_bind_iff.1 h₂ with ⟨ev₄, ev₅, b, rfl, h₄, h₅⟩
  rcases exec_op_bind_iff.1 h₄ with ⟨w, ev₆, rfl, h₆⟩
  rcases exec_pure_iff.1 h₆ with ⟨rfl, rfl⟩
  refine ⟨v, w, ?_⟩
  unfold linkState
  by_cases hneg : w.slt 0 = true
  · rw [if_pos hneg] at h₅ ⊢
    rcases exec_pure_iff.1 h₅ with ⟨rfl, rfl⟩
    exact ⟨rfl, rfl⟩
  · rw [if_neg hneg] at h₅ ⊢
    rcases exec_pure_iff.1 h₅ with ⟨rfl, rfl⟩
    exact ⟨rfl, rfl⟩

theorem linkState_zero_or_one (answer : U32) : linkState answer = 0 ∨ linkState answer = 1 := by
  unfold linkState
  split
  · exact .inl rfl
  · split
    · exact .inr rfl
    · exact .inl rfl

theorem exec_reportLink {link initlink initlink' : ℤ} {ev : Trace} (up : ℤ)
    (h : Exec (reportLink link initlink) ev initlink') :
    initlink' = link ∧ (∀ e ∈ ev, ∃ x, e.op = .linkchange x) ∧
      announcedAfter up ev = if link ≠ initlink then link else up := by
  unfold reportLink at h
  by_cases hne : link ≠ initlink
  · rw [if_pos hne] at h ⊢
    rcases exec_op_bind_iff.1 h with ⟨_, ev₁, rfl, h₁⟩
    rcases exec_pure_iff.1 h₁ with ⟨rfl, rfl⟩
    exact ⟨rfl, by simp, rfl⟩
  · rw [if_neg hne] at h ⊢
    rcases exec_pure_iff.1 h with ⟨rfl, rfl⟩
    exact ⟨(not_not.1 hne).symm, by simp, rfl⟩

/-- The restart ends with the link announced as down. -/
theorem exec_restart {E : EthDev} {up : ℤ} {ev : Trace} {u : Unit} (h : Exec (restart E) ev u) :
    announcedAfter up ev = 0 := by
  rcases exec_op_bind_iff.1 h with ⟨_, ev₁, rfl, h₁⟩
  rcases exec_op_bind_iff.1 h₁ with ⟨_, ev₂, rfl, h₂⟩
  rcases exec_bind_iff.1 h₂ with ⟨ev₃, ev₄, _, rfl, h₃, h₄⟩
  rcases exec_op_iff.1 h₄ with rfl
  have hmute := announcedAfter_mute 0 ((only_emacInit E).exec h₃)
  show announcedAfter 0 (ev₃ ++ _) = 0
  rw [announcedAfter_append, hmute]
  rfl

theorem intStatus_append {ev ev' : Trace} (h : ∀ e ∈ ev, ∃ x, e.op = .linkchange x) :
    intStatus (ev ++ ev') = intStatus ev' := by
  induction ev with
  | nil => rfl
  | cons e ev ih =>
      rcases e with ⟨o, r⟩
      rcases h _ (List.mem_cons_self ..) with ⟨x, rfl⟩
      exact ih fun e he => h e (List.mem_cons_of_mem _ he)

/-- An iteration leaves the sampled state in `initlink`.  It announces a changed state, and after a
DMA error "down" whatever it has sampled. -/
theorem exec_phyThreadIter {E : EthDev} {initlink initlink' : ℤ} {ev : Trace} (up : ℤ)
    (h : Exec (phyThreadIter E initlink) ev initlink') :
    initlink' = sampledLink ev ∧ (sampledLink ev = 0 ∨ sampledLink ev = 1) ∧
      announcedAfter up ev =
        if dmaError ev then 0 else if sampledLink ev ≠ initlink then sampledLink ev else up := by
  rcases exec_bind_iff.1 h with ⟨ev₁, ev₂, link, rfl, h₁, h₂⟩
  rcases exec_miiphyLink h₁ with ⟨v, w, rfl, rfl⟩
  rcases exec_bind_iff.1 h₂ with ⟨ev₃, ev₄, il, rfl, h₃, h₄⟩
  rcases exec_reportLink up h₃ with ⟨rfl, hev₃, hann⟩
  rcases exec_op_bind_iff.1 h₄ with ⟨status, ev₅, rfl, h₅⟩
  -- The interrupt status of the round is the one that it reads after the report.
  have herror : dmaError ([⟨.phyRead .bmsr, v⟩, ⟨.phyRead .bmsr, w⟩] ++
      (ev₃ ++ ⟨.readl .intSta, status⟩ :: ev₅)) ↔ testBits status 0x40#32 = true := by
    have hstatus : intStatus (ev₃ ++ ⟨.readl .intSta, status⟩ :: ev₅) = status :=
      intStatus_append hev₃
    show testBits (intStatus (ev₃ ++ _)) _ = true ↔ _
    rw [hstatus]
  -- Neither way out announces anything more.
  have hdelay : ∀ ev', Exec (do rtThreadDelay; pure (linkState w)) ev' initlink' →
      initlink' = linkState w ∧ ∀ x, announcedAfter x ev' = x := by
    intro ev' h
    rcases exec_op_bind_iff.1 h with ⟨_, ev₈, rfl, h₈⟩
    rcases exec_pure_iff.1 h₈ with ⟨rfl, rfl⟩
    exact ⟨rfl, fun x => rfl⟩
  have hafter : announcedAfter up ([⟨.phyRead .bmsr, v⟩, ⟨.phyRead .bmsr, w⟩] ++
      (ev₃ ++ ⟨.readl .intSta, status⟩ :: ev₅)) =
        announcedAfter (if linkState w ≠ initlink then linkState w else up) ev₅ := by
    show announcedAfter up (ev₃ ++ ⟨.readl .intSta, status⟩ :: ev₅) = _
    rw [announcedAfter_append, hann]
    rfl
  show initlink' = linkState w ∧ (linkState w = 0 ∨ linkState w = 1) ∧ _ =
    if dmaError _ then 0 else if linkState w ≠ initlink then linkState w else up
  rw [hafter]
  -- A restart announces that the link is down, whatever has been sampled.
  by_cases herr : testBits status 0x40#32 = true
  · rw [if_pos herr] at h₅
    rw [if_pos (herror.2 herr)]
    rcases exec_bind_iff.1 h₅ with ⟨ev₆, ev₇, _, rfl, h₆, h₇⟩
    rcases hdelay ev₇ h₇ with ⟨rfl, hquiet⟩
    refine ⟨rfl, linkState_zero_or_one w, ?_⟩
    rw [announcedAfter_append, exec_restart h₆, hquiet]
  · rw [if_neg herr] at h₅
    rw [if_neg fun h => herr (herror.1 h)]
    rcases hdelay ev₅ h₅ with ⟨rfl, hquiet⟩
    exact ⟨rfl, linkState_zero_or_one w, hquiet _⟩

/-! ## Runs -/

/-- `PhyRun E its initlink`: after its first delay the thread has made the iterations `its`. -/
inductive PhyRun (E : EthDev) : List Trace → ℤ → Prop
  | start : PhyRun E [] 0
  | iterate {its : List Trace} {initlink initlink' : ℤ} {ev : Trace} :
      PhyRun E its initlink → Exec (phyThreadIter E initlink) ev initlink' →
      PhyRun E (its ++ [ev]) initlink'

/-- An iteration saw a DMA error, and from it on the link was always sampled up. -/
def Silenced (its : List Trace) : Prop :=
  ∃ before err since, its = before ++ err :: since ∧ dmaError err ∧
    ∀ ev ∈ err :: since, sampledLink ev = 1

theorem not_silenced_nil : ¬ Silenced [] := by
  rintro ⟨before, err, since, hits, -⟩
  exact absurd hits (by simp)

/-- One more iteration keeps the announcement silenced as long as the link stays up. -/
theorem silenced_concat_iff {its : List Trace} {ev : Trace} :
    Silenced (its ++ [ev]) ↔ sampledLink ev = 1 ∧ (dmaError ev ∨ Silenced its) := by
  constructor
  · rintro ⟨before, err, since, hits, herr, hup⟩
    rcases List.eq_nil_or_concat since with rfl | ⟨since', last, rfl⟩
    · rcases List.append_inj' hits rfl with ⟨rfl, hev⟩
      cases hev
      exact ⟨hup _ (by simp), .inl herr⟩
    · have hits' : its ++ [ev] = (before ++ err :: since') ++ [last] := by simpa using hits
      rcases List.append_inj' hits' rfl with ⟨rfl, hev⟩
      cases hev
      refine ⟨hup _ (by simp), .inr ⟨before, err, since', rfl, herr, fun x hx => hup x ?_⟩⟩
      simp only [List.mem_cons, List.concat_eq_append, List.mem_append] at hx ⊢
      tauto
  · rintro ⟨hlink, herr | ⟨before, err, since, rfl, herr, hup⟩⟩
    · exact ⟨its, ev, [], rfl, herr, by simpa using hlink⟩
    · refine ⟨before, err, since ++ [ev], by simp, herr, fun x hx => ?_⟩
      rw [← List.cons_append, List.mem_append, List.mem_singleton] at hx
      rcases hx with hx | rfl
      · exact hup x hx
      · exact hlink

/-- What the thread knows, and what it has told the others. -/
structure PhyInv (its : List Trace) (initlink : ℤ) : Prop where
  state : initlink = 0 ∨ initlink = 1
  up : Silenced its → initlink = 1
  silent : Silenced its → announced its.flatten = 0
  told : ¬ Silenced its → announced its.flatten = initlink

theorem PhyInv.iterate {E : EthDev} {its : List Trace} {initlink initlink' : ℤ} {ev : Trace}
    (hs : PhyInv its initlink) (h : Exec (phyThreadIter E initlink) ev initlink') :
    PhyInv (its ++ [ev]) initlink' := by
  rcases exec_phyThreadIter (announced its.flatten) h with ⟨rfl, hstate, hann⟩
  have htold : announced (its ++ [ev]).flatten =
      announcedAfter (announced its.flatten) ev := by
    rw [List.flatten_append, List.flatten_singleton]
    exact announcedAfter_append 0 _ _
  rw [hann] at htold
  refine ⟨hstate, fun hsil => (silenced_concat_iff.1 hsil).1, ?_, ?_⟩
  · intro hsil
    rcases silenced_concat_iff.1 hsil with ⟨hup, herr | hsil⟩
    · rw [htold, if_pos herr]
    · rw [htold, hup, hs.up hsil, hs.silent hsil]
      simp
  · intro hsil
    rw [silenced_concat_iff] at hsil
    rw [htold]
    by_cases herr : dmaError ev
    · have hdown : sampledLink ev = 0 := hstate.resolve_right fun hup => hsil ⟨hup, .inl herr⟩
      rw [if_pos herr, hdown]
    · rw [if_neg herr]
      by_cases hne : sampledLink ev = initlink
      · rw [if_neg (not_not.2 hne), hne]
        -- Were the announcement silenced before, the link would have been up then as it is now.
        exact hs.told fun hbefore => hsil ⟨hne.trans (hs.up hbefore), .inr hbefore⟩
      · rw [if_pos hne]

theorem PhyRun.inv {E : EthDev} {its : List Trace} {initlink : ℤ} (h : PhyRun E its initlink) :
    PhyInv its initlink := by
  induction h with
  | start =>
      exact ⟨.inl rfl, fun hs => absurd hs not_silenced_nil, fun hs => absurd hs not_silenced_nil,
        fun _ => rfl⟩
  | iterate _ hiter ih => exact ih.iterate hiter

/-- After an iteration the link state told last is the one just sampled, unless the announcement is
silenced. -/
theorem announced_eq_sampledLink_iff {E : EthDev} {its : List Trace} {ev : Trace} {initlink : ℤ}
    (h : PhyRun E (its ++ [ev]) initlink) :
    announced (its ++ [ev]).flatten = sampledLink ev ↔ ¬ Silenced (its ++ [ev]) := by
  have hinv := h.inv
  have hlink : initlink = sampledLink ev := by
    generalize hits : its ++ [ev] = its' at h
    cases h with
    | start => exact absurd hits (by simp)
    | iterate _ hiter =>
        rcases List.append_inj' hits rfl with ⟨rfl, hev⟩
        cases hev
        exact (exec_phyThreadIter 0 hiter).1
  constructor
  · intro htold hsil
    have hup := hinv.up hsil
    rw [hinv.silent hsil, ← hlink, hup] at htold
    exact absurd htold (by omega)
  · intro hsil
    rw [hinv.told hsil, hlink]

/-! ## The failing run -/

/-- `_emac` on a board with a 10/100 PHY. -/
def boardDev : EthDev where
  indev := Indev.sdram
  phydev := ⟨AUTONEG_ENABLE, 0, SPEED_10, DUPLEX_HALF⟩
  devAddr := fun i => if i = 0 then 0 else BitVec.ofNat 8 (0x11 * i)

/-- Answers by a PHY that holds `phy` and a controller that holds `status` in `EMAC_INT_STA`. -/
def answers (phy : PhyReg → U32) (status : U32) : (o : Op) → o.Ret
  | .phyRead r => phy r
  | .readl .intSta => status
  | .readl _ => 0
  | .load _ => 0
  | .load8 _ => 0
  | .rxCurrdescnum => 0
  | .txCurrdescnum => 0
  | .pbufAlloc _ => none
  | .store _ _ => ()
  | .store8 _ _ => ()
  | .dccimvac _ => ()
  | .dcimvac _ => ()
  | .setRxCurrdescnum _ => ()
  | .setTxCurrdescnum _ => ()
  | .writel _ _ => ()
  | .linkchange _ => ()
  | .threadDelay => ()

/-- Answers in which the link is up. -/
def upAnswers : U32 → (o : Op) → o.Ret :=
  answers fun _ => 0x0004

/-- The trace of an iteration with these answers. -/
def upTrace (status : U32) (initlink : ℤ) : Trace :=
  (phyThreadIter boardDev initlink).trace (upAnswers status)

theorem phyRun_up (status : U32) (its : List Trace) {initlink : ℤ}
    (h : PhyRun boardDev its initlink) :
    PhyRun boardDev (its ++ [upTrace status initlink])
      ((phyThreadIter boardDev initlink).eval (upAnswers status)) :=
  h.iterate (exec_trace _ _)

theorem announced_eq_sampledLink_iff_up :
    PhyRun boardDev ([] ++ [upTrace 0 0]) ((phyThreadIter boardDev 0).eval (upAnswers 0)) ∧
      (announced ([] ++ [upTrace 0 0]).flatten = sampledLink (upTrace 0 0) ↔
        ¬ Silenced ([] ++ [upTrace 0 0])) :=
  ⟨phyRun_up 0 [] .start, announced_eq_sampledLink_iff (phyRun_up 0 [] .start)⟩

/-- The link is up throughout and the first iteration sees a DMA error: after the second the others
still take it to be down. -/
theorem phyThread_silenced :
    PhyRun boardDev [upTrace 0x40 0, upTrace 0 1] 1 ∧
      ¬ dmaError (upTrace 0 1) ∧ sampledLink (upTrace 0 1) = 1 ∧
      announced [upTrace 0x40 0, upTrace 0 1].flatten = 0 := by
  have hfirst : (phyThreadIter boardDev 0).eval (upAnswers 0x40) = 1 := by decide +kernel
  have hsecond : (phyThreadIter boardDev 1).eval (upAnswers 0) = 1 := by decide +kernel
  have hrun := phyRun_up 0x40 [] .start
  rw [hfirst] at hrun
  have hrun' := phyRun_up 0 _ hrun
  rw [hsecond] at hrun'
  exact ⟨hrun', by decide +kernel, by decide +kernel, by decide +kernel⟩

end Emac

end BspV3s
