import BspV3s.Emac.Agreement
import BspV3s.Emac.Restart

/-!
# RestartRuns — the restart over whole runs

The restart is followed access by access among the network threads: up to the reset both rings are
in order; while both channels are stopped the receive chain is replaced, then the transmit chain;
after that the rings are in order again.  `emac_restart_agrees` is what this says of whole runs.
-/

namespace BspV3s

namespace Emac

variable {D : Indev} {E : EthDev} {w w' : World} {t t' : Traffic} {α β : Type}

/-! ## The restart among its peers -/

def trafficRely (D : Indev) : Prog.Rely Op Traffic :=
  fun _ t t' => ∃ a, PeerMeets D a t ∧ PeerStep D a t t'

abbrev trafficWp (D : Indev) (p : EmacM α) (Q : α → Traffic → Prop) (t : Traffic) : Prop :=
  Prog.wp trafficAccess (trafficRely D) (fun _ _ _ _ => True) p Q t

/-- An assertion that the others keep. -/
def Lasting (D : Indev) (P : Traffic → Prop) : Prop :=
  ∀ o, Prog.Stable (trafficRely D) o P

theorem lasting_sound : Lasting D (Sound D) := by
  rintro o t t' hs ⟨a, hmeets, hstep⟩
  exact hs.peer hmeets hstep

theorem lasting_shut : Lasting D (Shut D) := by
  rintro o t t' hs ⟨a, hmeets, hstep⟩
  exact hs.peer hmeets hstep

theorem lasting_halted : Lasting D (Halted D) := by
  rintro o t t' hs ⟨a, hmeets, hstep⟩
  exact hs.peer hmeets hstep

theorem Lasting.and {P P' : Traffic → Prop} (hP : Lasting D P) (hP' : Lasting D P') :
    Lasting D fun t => P t ∧ P' t :=
  fun o t t' ht hR => ⟨hP o t t' ht.1 hR, hP' o t t' ht.2 hR⟩

section Rules

variable {P : Traffic → Prop} {Q : β → Traffic → Prop}

/-- The rule for one access. -/
theorem wp_traffic {o : Op} {f : o.Ret → EmacM β} (hP : Lasting D P) (ht : P t)
    (h : ∀ t r w', P t → access direct True o t.w r w' → trafficWp D (f r) Q (t.after w' o)) :
    trafficWp D (Prog.op o >>= f) Q t := by
  refine Prog.wp_call (hP _) ht ?_
  rintro t r _ ht ⟨w', hacc, rfl⟩
  exact ⟨trivial, h t r w' ht hacc⟩

theorem wp_end {b : β} (hP : Lasting D P) (ht : P t) (h : ∀ t, P t → Q b t) :
    trafficWp D (pure b) Q t :=
  Prog.wp_return (hP none) ht h

/-- The rule for a routine all of whose accesses keep an assertion. -/
theorem wp_keeps {A : Op → Prop} {p : EmacM β} (hp : p.Only A) (hP : Lasting D P)
    (hA : ∀ o t r w', A o → P t → access direct True o t.w r w' → P (t.after w' o)) (ht : P t) :
    trafficWp D p (fun _ => P) t := by
  refine hp.wp hP ?_ ht
  rintro o t r _ ho ht ⟨w', hacc, rfl⟩
  exact ⟨trivial, hA o t r w' ho ht hacc⟩

end Rules

/-! ## Accesses to registers -/

/-- Neither memory, nor an index, nor a channel's position. -/
def Calm : Op → Prop
  | .readl _ => True
  | .writel r _ => r ≠ .rxDmaDesc ∧ r ≠ .txDmaDesc
  | .phyRead _ => True
  | .linkchange _ => True
  | .threadDelay => True
  | _ => False

/-- Besides, the start bits stay as they are. -/
def Idle : Op → Prop
  | .writel r v => (r ≠ .rxDmaDesc ∧ r ≠ .txDmaDesc) ∧ r ≠ .rxCtl1 ∧ r ≠ .txCtl1 ∧
      (r = .ctl1 → v.getLsbD 0 = false)
  | o => Calm o

theorem Idle.calm {o : Op} (ho : Idle o) : Calm o := by
  cases o with
  | writel r v => exact ho.1
  | _ => exact ho

theorem Calm.outcome {o : Op} {r : o.Ret} (ho : Calm o) (hacc : access direct True o w r w') :
    ∃ rx tx, w' = { w with rxRun := rx, txRun := tx } := by
  cases o with
  | writel reg v =>
      cases hacc
      rcases ho with ⟨hrx, htx⟩
      cases reg <;> first | exact ⟨_, _, rfl⟩ | exact absurd rfl hrx | exact absurd rfl htx | skip
      simp only [World.writel]
      split
      · exact ⟨_, _, rfl⟩
      · exact ⟨_, _, rfl⟩
  | readl reg => exact ⟨_, _, hacc.2⟩
  | phyRead reg => exact ⟨_, _, hacc⟩
  | linkchange up => exact ⟨_, _, hacc⟩
  | threadDelay => exact ⟨_, _, hacc⟩
  | _ => exact ho.elim

theorem Idle.outcome {o : Op} {r : o.Ret} (ho : Idle o) (hacc : access direct True o w r w') :
    w' = w := by
  cases o with
  | writel reg v =>
      cases hacc
      rcases ho with ⟨⟨hrx, htx⟩, hrxCtl, htxCtl, hctl⟩
      cases reg <;> first | rfl | exact absurd rfl ‹_› | skip
      simp only [World.writel, hctl rfl]
      rfl
  | readl reg => exact hacc.2
  | phyRead reg => exact hacc
  | linkchange up => exact hacc
  | threadDelay => exact hacc
  | _ => exact ho.elim

theorem Calm.after {o : Op} (ho : Calm o) (t : Traffic) (w' : World) :
    t.after w' o = { t with w := w' } := by
  cases o <;> first | rfl | exact ho.elim

theorem Sound.calm {o : Op} {r : o.Ret} (hs : Sound D t) (ho : Calm o)
    (hacc : access direct True o t.w r w') : Sound D (t.after w' o) := by
  rw [ho.after]
  rcases ho.outcome hacc with ⟨rx, tx, rfl⟩
  have hrx : RxSame D t.w { t.w with rxRun := rx, txRun := tx } :=
    .of_memory rfl rfl rfl rfl
  have htx : TxSame D t.w { t.w with rxRun := rx, txRun := tx } :=
    .of_memory rfl rfl rfl rfl
  rcases hs.txRing with ⟨acc, hsince, hth⟩
  exact ⟨⟨hs.memory, hs.index, hs.rx, hs.fresh⟩, hs.rxRing.env (.single (.other hrx)),
    acc, hsince, hth.env (.other htx)⟩

theorem Shut.calm {o : Op} (hs : Shut D t) (ho : Calm o) (w' : World) :
    Shut D (t.after w' o) := by
  rw [ho.after]
  exact ⟨hs.window, hs.since, hs.tx⟩

theorem Halted.idle {o : Op} {r : o.Ret} (hs : Halted D t) (ho : Idle o)
    (hacc : access direct True o t.w r w') : Halted D (t.after w' o) := by
  rw [ho.calm.after, ho.outcome hacc]
  exact hs

/-! ## The reset -/

theorem getLsbD_of_testBits {v : U32} (h : testBits v 0x1#32 = true) : v.getLsbD 0 = true := by
  by_contra hclear
  refine absurd h ?_
  have hzero : v &&& 0x1#32 = 0 := by
    ext i hi
    by_cases hi0 : i = 0
    · subst hi0
      simpa using hclear
    · simp [hi0]
  simp [testBits, hzero]

/-- The soft reset stops both channels, whether or not it is found under way. -/
theorem softReset_traffic (ht : Sound D t ∧ Shut D t) :
    trafficWp D softReset (fun _ t => Sound D t ∧ Halted D t) t := by
  have hopen : Lasting D fun t => Sound D t ∧ Shut D t := lasting_sound.and lasting_shut
  have hboth : Lasting D fun t => Sound D t ∧ Halted D t := lasting_sound.and lasting_halted
  refine wp_traffic hopen ht ?_
  rintro t reg w' ⟨hs, hshut⟩ ⟨hread, rfl⟩
  split
  · next hreset =>
      -- A reset under way has stopped them.
      have hstopped : Stopped t.w := hread (getLsbD_of_testBits hreset)
      exact wp_end hboth ⟨hs, hs.toHeld, hshut, hstopped⟩ fun t ht => ht
  · unfold setbits
    rw [bind_assoc]
    refine wp_traffic hopen ⟨hs, hshut⟩ ?_
    rintro t v w' ⟨hs, hshut⟩ ⟨-, rfl⟩
    refine wp_traffic hopen ⟨hs, hshut⟩ ?_
    rintro t _ w' ⟨hs, hshut⟩ hacc
    -- This store stops them, and the wait for the end of the reset touches neither.
    have hcalm : Calm (.writel .ctl1 (v ||| 0x1#32)) := ⟨by simp, by simp⟩
    have hs' := hs.calm hcalm hacc
    have hbit : (v ||| 0x1#32).getLsbD 0 = true := by simp
    have hstopped : Stopped w' := by
      cases hacc
      simp only [World.writel, if_pos hbit]
      exact ⟨rfl, rfl⟩
    refine wp_keeps (A := Idle) (P := fun t => Sound D t ∧ Halted D t) ?_ hboth ?_
      ⟨hs', hs'.toHeld, hshut.calm hcalm w', hstopped⟩
    · generalize 100 = timeout
      induction timeout with
      | zero => exact Prog.only_pure false
      | succ n ih => exact (Prog.only_op trivial).bind fun _ => .ite ih (Prog.only_pure true)
    · rintro o t r w' ho ⟨hs, hhalted⟩ hacc
      exact ⟨hs.calm ho.calm hacc, hhalted.idle ho hacc⟩

theorem halted_keeps {p : EmacM β} (hp : p.Only Idle) (ht : Halted D t) :
    trafficWp D p (fun _ => Halted D) t :=
  wp_keeps hp lasting_halted (fun _ _ _ _ ho ht hacc => ht.idle ho hacc) ht

/-- A bit besides the start bit is set while the channels are stopped. -/
theorem halted_setbits {reg : Reg} {b : U32} (hreg : reg = .rxCtl1 ∨ reg = .txCtl1)
    (hb : b.getLsbD 30 = false) (ht : Halted D t) :
    trafficWp D (setbits reg b) (fun _ => Halted D) t := by
  refine wp_traffic lasting_halted ht ?_
  rintro t v w' ht ⟨hread, rfl⟩
  have hstart : v.getLsbD 30 = false := by
    rcases hreg with rfl | rfl
    · exact hread.trans ht.stopped.1
    · exact hread.trans ht.stopped.2
  rw [← bind_pure (writel _ _)]
  refine wp_traffic lasting_halted ht ?_
  rintro u _ w' hu hacc
  have hcalm : Calm (.writel reg (v ||| b)) := by
    rcases hreg with rfl | rfl
    · exact ⟨by simp, by simp⟩
    · exact ⟨by simp, by simp⟩
  have hbit : (v ||| b).getLsbD 30 = false := by
    rw [BitVec.getLsbD_or, hstart, hb]
    rfl
  have hsame : w' = u.w := by
    cases hacc
    rcases hreg with rfl | rfl
    · simp only [World.writel, hbit, ← hu.stopped.1]
    · simp only [World.writel, hbit, ← hu.stopped.2]
  rw [hcalm.after, hsame]
  exact wp_end lasting_halted hu fun _ h => h

theorem macInit_traffic (macId : ℕ → Byte) (ht : Halted D t) :
    trafficWp D (macInit macId) (fun _ => Halted D) t := by
  have haddr : (sun8iWriteHwaddr macId).Only Idle :=
    (Prog.only_op ⟨⟨by simp, by simp⟩, by simp, by simp, by simp⟩).bind fun _ =>
      Prog.only_op ⟨⟨by simp, by simp⟩, by simp, by simp, by simp⟩
  refine Prog.wp_seq (halted_keeps haddr ht) fun _ t ht => ?_
  refine Prog.wp_seq (halted_setbits (.inr rfl) (by decide) ht) fun _ t ht => ?_
  refine Prog.wp_seq (halted_setbits (.inl rfl) (by decide) ht) fun _ t ht => ?_
  exact halted_keeps (Prog.only_op ⟨⟨by simp, by simp⟩, by simp, by simp, fun _ => by decide⟩) ht

/-! ## The tables -/

@[simp] theorem Traffic.w_after (t : Traffic) (w' : World) (o : Op) : (t.after w' o).w = w' := by
  cases o <;> rfl

/-- A routine verified over cached memory by itself, as a part of the restart; `I` is what holds of
the others meanwhile. -/
theorem wp_lift {I : Traffic → Prop} {R : Prog.Rely Op World} {G : Prog.Sem Op Op.Ret World}
    {p : EmacM α} {Q : α → World → Prop} (hnoisy : Noisy R)
    (hmem : ∀ t, I t → t.w.m.Uncached)
    (hpeer : ∀ a t t', I t → PeerMeets D a t → PeerStep D a t t' → I t' ∧ ∀ o, R o t.w t'.w)
    (hacc : ∀ o t r u w', I t → access cached True o t.w r u → G o t.w r u →
      Relation.ReflTransGen World.Noise u w' → access direct True o t.w r w' → w'.m.Uncached →
      I (t.after w' o))
    (ht : I t) (h : Prog.wp (access cached True) R G p Q t.w) :
    trafficWp D p (fun a t => I t ∧ Q a t.w) t := by
  have hlasting : ∀ q : EmacM α,
      Lasting D fun t => I t ∧ Prog.wp (access cached True) R G q Q t.w := by
    rintro q o t t' ⟨ht, hq⟩ ⟨a, hmeets, hstep⟩
    rcases hpeer a t t' ht hmeets hstep with ⟨ht', hR⟩
    exact ⟨ht', Prog.wp_env hq (hR _)⟩
  induction p generalizing t with
  | ret a =>
      exact Prog.wp_return (hlasting _ none) ⟨ht, h⟩ fun t ht => ⟨ht.1, Prog.wp_ret ht.2⟩
  | call o k ih =>
      refine Prog.wp_call (hlasting _ _) ⟨ht, h⟩ ?_
      rintro t r _ ⟨ht, h⟩ ⟨w', hdirect, rfl⟩
      rcases simulated_direct.step (hmem t ht) hdirect with ⟨u, hcached, hnoise, hw'⟩
      rcases Prog.wp_step h hcached with ⟨hg, hk⟩
      refine ⟨trivial, ih r (hacc o t r u w' ht hcached hg hnoise hdirect hw') ?_⟩
      rw [Traffic.w_after]
      exact Prog.wp_envs hk (Relation.ReflTransGen.mono (hnoisy _) _ _ hnoise)

/-- The accesses that fill in a chain and give it to the DMA. -/
def Fills : Op → Prop
  | .writel r _ => r = .rxDmaDesc ∨ r = .txDmaDesc
  | .setRxCurrdescnum _ => False
  | .setTxCurrdescnum _ => False
  | _ => True

theorem Fills.after {o : Op} (ho : Fills o) (t : Traffic) (w' : World) :
    t.after w' o = { t with w := w' } := by
  cases o <;> first | rfl | exact ho.elim

theorem Fills.outcome {o : Op} {r : o.Ret} (ho : Fills o) (hacc : access direct True o w r w') :
    w'.rxCur = w.rxCur ∧ w'.rxRun = w.rxRun ∧ w'.txRun = w.txRun := by
  cases hacts : o.acts with
  | false =>
      rw [access_passive_direct hacts hacc]
      exact ⟨rfl, rfl, rfl⟩
  | true =>
      cases o with
      | writel reg v =>
          cases hacc
          rcases ho with rfl | rfl
          · exact ⟨rfl, rfl, rfl⟩
          · exact ⟨rfl, rfl, rfl⟩
      | store a v =>
          cases hacc
          exact ⟨rfl, rfl, rfl⟩
      | store8 a b =>
          cases hacc
          exact ⟨rfl, rfl, rfl⟩
      | dcimvac a =>
          cases hacc
          exact ⟨rfl, rfl, rfl⟩
      | setRxCurrdescnum v => exact ho.elim
      | setTxCurrdescnum v => exact ho.elim
      | _ => exact absurd hacts (by simp [Op.acts])

theorem Halted.fill {o : Op} {r : o.Ret} (hs : Halted D t) (ho : Fills o)
    (hacc : access direct True o t.w r w') (hw' : w'.m.Uncached) : Halted D (t.after w' o) := by
  rcases ho.outcome hacc with ⟨hcur, hrx, htx⟩
  rw [ho.after]
  exact ⟨⟨hw', hcur ▸ hs.index, hs.rx, hs.fresh⟩, ⟨hs.shut.window, hs.shut.since, hs.shut.tx⟩,
    hrx.trans hs.stopped.1, htx.trans hs.stopped.2⟩

theorem rxTableInit_traffic (ht : Halted D t) :
    trafficWp D (rxTableInit D) (fun _ t => Halted D t ∧ RxTable D t.w) t := by
  refine wp_lift (I := Halted D) noisy_rxInitRely (fun t ht => ht.memory) ?_ ?_ ht
    (rxTableInit_spec t.w)
  · exact fun a t t' ht hmeets hstep =>
      ⟨ht.peer hmeets hstep, fun _ => (ht.moved hmeets hstep).rxInit⟩
  · intro o t r u w' ht _ hg _ hdirect hw'
    have ho : Fills o := by
      cases o with
      | writel reg v => exact .inl hg
      | setRxCurrdescnum v => exact hg.elim
      | setTxCurrdescnum v => exact hg.elim
      | _ => exact trivial
    exact ht.fill ho hdirect hw'

/-- A call of `_emac_rx` that has made an access is stale from here on. -/
theorem rxDescsInit_traffic (ht : Halted D t) :
    trafficWp D (rxDescsInit D) (fun _ t => Halted D t ∧ RxOk D t) t := by
  have htable : Lasting D fun t => Halted D t ∧ RxTable D t.w := by
    rintro o t t' ⟨hs, htable⟩ ⟨a, hmeets, hstep⟩
    exact ⟨hs.peer hmeets hstep,
      steady_rxTable none _ _ htable (hs.moved hmeets hstep).rxInit⟩
  have hring : Lasting D fun t => Halted D t ∧ RxOk D t := by
    rintro o t t' ⟨hs, hr⟩ ⟨a, hmeets, hstep⟩
    exact ⟨hs.peer hmeets hstep, hr.peer hs.toHeld hmeets hstep (hs.far hmeets hstep)⟩
  refine Prog.wp_seq (rxTableInit_traffic ht) fun _ t ht => ?_
  rw [← bind_pure (setRxCurrdescnum _)]
  refine wp_traffic htable ht ?_
  rintro t _ w' ⟨hs, htable⟩ rfl
  -- With its index the ring is a new one, for every call that has not looked at the old one.
  have hidle : RxIdle D 0 { t.w with rxCur := 0 } := ⟨htable.ring.of_eq rfl rfl rfl, rfl⟩
  refine wp_end hring ⟨⟨⟨hs.memory, Nat.succ_pos 31, hs.rx, ?_⟩, ⟨hs.shut.window, hs.shut.since,
    hs.shut.tx⟩, hs.stopped⟩, 0, ?_⟩ fun t ht => ht
  · intro hage
    refine hs.fresh ?_
    rcases t with ⟨_, _, age, _⟩
    cases age <;> first | rfl | exact absurd hage (by simp [Traffic.after, Age.overtaken])
  · by_cases hage : t.age = .fresh
    · have hfresh : (t.after { t.w with rxCur := 0 } (.setRxCurrdescnum 0)).age ≠ .stale := by
        simp [Traffic.after, hage, Age.overtaken]
      rw [if_neg hfresh]
      show RxThread D True 0 t.rx _
      rcases hrx : t.rx with - | p
      · exact hidle
      · rw [hs.fresh hage p hrx]
        exact RxThread.call hidle
    · have hstale : (t.after { t.w with rxCur := 0 } (.setRxCurrdescnum 0)).age = .stale := by
        rcases t with ⟨_, _, age, _⟩
        cases age <;> first | rfl | exact absurd rfl hage
      rw [if_pos hstale]
      exact hidle

theorem txTableInit_traffic (ht : Halted D t ∧ RxOk D t) :
    trafficWp D (txTableInit D) (fun _ t => (Halted D t ∧ RxOk D t) ∧ TxTable D t.w) t := by
  refine wp_lift (I := fun t => Halted D t ∧ RxOk D t) noisy_txInitRely (fun t ht => ht.1.memory)
    ?_ ?_ ht (txTableInit_spec t.w)
  · rintro a t t' ⟨hs, hr⟩ hmeets hstep
    exact ⟨⟨hs.peer hmeets hstep, hr.peer hs.toHeld hmeets hstep (hs.far hmeets hstep)⟩,
      fun _ => .other (hs.moved hmeets hstep).txSame⟩
  · rintro o t r u w' ⟨hs, hr⟩ hcached hg hnoise hdirect hw'
    have ho : Fills o := by
      cases o with
      | writel reg v => exact .inr hg
      | setRxCurrdescnum v => exact hg.elim
      | setTxCurrdescnum v => exact hg.elim
      | _ => exact trivial
    have hquiet : RxEnv D t.w u := (hg.quiet hcached).env
    have henv : Relation.ReflTransGen (RxEnv D) t.w w' :=
      .head hquiet (Relation.ReflTransGen.mono (fun _ _ hn => .noise hn) _ _ hnoise)
    refine ⟨hs.fill ho hdirect hw', ?_⟩
    rw [ho.after]
    exact hr.env henv

/-- The calls of `_emac_tx` that wait for the restart find the empty ring. -/
theorem txDescsInit_traffic (ht : Halted D t ∧ RxOk D t) :
    trafficWp D (txDescsInit D) (fun _ => Sound D) t := by
  have htable : Lasting D fun t => (Halted D t ∧ RxOk D t) ∧ TxTable D t.w := by
    rintro o t t' ⟨⟨hs, hr⟩, htable⟩ ⟨a, hmeets, hstep⟩
    exact ⟨⟨hs.peer hmeets hstep, hr.peer hs.toHeld hmeets hstep (hs.far hmeets hstep)⟩,
      steady_txTable none _ _ htable (.other (hs.moved hmeets hstep).txSame)⟩
  refine Prog.wp_seq (txTableInit_traffic ht) fun _ t ht => ?_
  rw [← bind_pure (setTxCurrdescnum _)]
  refine wp_traffic htable ht ?_
  rintro t _ w' ⟨⟨hs, hr⟩, htable⟩ rfl
  have hidle : TxIdle D [] { t.w with txCur := 0 } := ⟨htable.ring.of_eq rfl rfl rfl, rfl⟩
  have hsame : RxSame D t.w { t.w with txCur := 0 } :=
    .of_memory rfl rfl rfl rfl
  refine wp_end lasting_sound ⟨⟨hs.memory, hs.index, hs.rx, hs.fresh⟩,
    hr.env (.single (.other hsame)), [], hs.shut.since ▸ List.suffix_rfl, ?_⟩ fun t ht => ht
  show TxThread D True [] t.tx _
  rcases htx : t.tx with - | ⟨f, p⟩
  · exact hidle
  · rcases hs.shut.tx f p htx with ⟨q, hq, hfit, rfl, rfl⟩
    exact TxThread.call hidle hq hfit (Nat.add_pos_right _ (by omega))

/-! ## The whole restart -/

theorem sound_keeps {p : EmacM β} (hp : p.Only Calm) (ht : Sound D t) :
    trafficWp D p (fun _ => Sound D) t :=
  wp_keeps hp lasting_sound (fun _ _ _ _ ho ht hacc => ht.calm ho hacc) ht

theorem calm_setbits {reg : Reg} {b : U32} (hrx : reg ≠ .rxDmaDesc) (htx : reg ≠ .txDmaDesc) :
    (setbits reg b).Only Calm :=
  (Prog.only_op trivial).bind fun _ => Prog.only_op ⟨hrx, htx⟩

theorem calm_genphyParseLink (phydev : PhyDevice) : (genphyParseLink phydev).Only Calm := by
  refine (readsOnce_genphyParseLink phydev).only.mono ?_
  rintro o ⟨r, -, rfl⟩
  trivial

theorem calm_adjustLink (phydev : PhyDevice) : (sun8iAdjustLink phydev).Only Calm :=
  (Prog.only_op trivial).bind fun _ => Prog.only_op ⟨by simp, by simp⟩

theorem calm_startDma : startDma.Only Calm :=
  (calm_setbits (by simp) (by simp)).bind fun _ => (calm_setbits (by simp) (by simp)).bind fun _ =>
    (calm_setbits (by simp) (by simp)).bind fun _ =>
      (calm_setbits (by simp) (by simp)).bind fun _ => calm_setbits (by simp) (by simp)

/-- The initialisation gives up after the reset, or replaces both rings. -/
theorem emacInit_traffic (ht : Sound E.indev t ∧ Shut E.indev t) :
    trafficWp E.indev (emacInit E) (fun _ => Sound E.indev) t := by
  refine Prog.wp_seq ?_ fun _ t ht => wp_end lasting_sound ht fun t ht => ht
  refine Prog.wp_seq (softReset_traffic ht) fun ok t ht => ?_
  split
  · refine Prog.wp_seq (macInit_traffic _ ht.2) fun _ t ht => ?_
    refine Prog.wp_seq (rxDescsInit_traffic ht) fun _ t ht => ?_
    refine Prog.wp_seq (txDescsInit_traffic ht) fun _ t ht => ?_
    refine Prog.wp_seq (sound_keeps (calm_genphyParseLink _) ht) fun phydev t ht => ?_
    refine Prog.wp_seq (sound_keeps (calm_adjustLink phydev) ht) fun _ t ht => ?_
    refine Prog.wp_seq (sound_keeps calm_startDma ht) fun _ t ht => ?_
    exact wp_end lasting_sound ht fun t ht => ht
  · exact wp_end lasting_sound ht.1 fun t ht => ht

theorem restart_traffic (ht : Sound E.indev t ∧ Shut E.indev t) :
    trafficWp E.indev (restart E) (fun _ => Sound E.indev) t := by
  have hopen : Lasting E.indev fun t => Sound E.indev t ∧ Shut E.indev t :=
    lasting_sound.and lasting_shut
  have hcalm : ∀ {o : Op}, Calm o → ∀ (t : Traffic) (r : o.Ret) (w' : World),
      Sound E.indev t ∧ Shut E.indev t → access direct True o t.w r w' →
      Sound E.indev (t.after w' o) ∧ Shut E.indev (t.after w' o) :=
    fun ho t r w' ht hacc => ⟨ht.1.calm ho hacc, ht.2.calm ho w'⟩
  refine wp_traffic hopen ht fun t r w' ht hacc => ?_
  refine wp_traffic hopen (hcalm (o := .writel .intSta 0xffff#32) ⟨by simp, by simp⟩ t r w' ht hacc)
    fun t r w' ht hacc => ?_
  refine Prog.wp_seq (emacInit_traffic (hcalm (o := .linkchange 0) trivial t r w' ht hacc))
    fun _ t ht => ?_
  exact sound_keeps (Prog.only_op trivial) ht

/-! ## Runs -/

/-- Every state of a run: the restart, if one is under way, is within its verified part. -/
structure RestartInv (E : EthDev) (s : RestartSys) : Prop where
  idle : s.init = none → Sound E.indev s.t
  busy : ∀ p, s.init = some p → trafficWp E.indev p (fun _ => Sound E.indev) s.t

variable {s₀ s s' : RestartSys} {a : RestartAct}

theorem ringsInit_direct {w₀ : World} (hw₀ : w₀.m.Uncached)
    (hrun : Prog.Runs (access direct True) (ringsInit D) w₀ () w) :
    w.m.Uncached ∧ RxIdle D 0 w ∧ TxIdle D [] w := by
  rcases cached_steps hw₀ hrun with ⟨hw, hsteps⟩
  rcases ringsInit_runs hsteps with ⟨⟨hrx, -⟩, htx, -⟩
  exact ⟨hw, hrx, htx⟩

theorem RestartStart.inv (hs : RestartStart E s) : RestartInv E s := by
  rcases hs.rings with ⟨w₀, hw₀, hrun⟩
  rcases ringsInit_direct hw₀ hrun with ⟨hw, hrx, htx⟩
  have hnone : ∀ p, s.t.rx ≠ some p := by simp [hs.rx]
  refine ⟨fun _ => ⟨⟨hw, ?_, fun p hp => absurd hp (hnone p), fun _ p hp => absurd hp (hnone p)⟩,
    ⟨0, ?_⟩, [], ?_, ?_⟩, fun p hp => absurd hp (by simp [hs.init])⟩
  · rw [hrx.cur]
    omega
  · rw [hs.rx]
    split_ifs
    · exact hrx
    · exact hrx
  · exact hs.since ▸ List.suffix_rfl
  · rw [hs.tx]
    exact htx

theorem RestartInv.step (hs : RestartInv E s) (hmeets : RestartMeets E.indev a s)
    (hstep : RestartStep E a s s') : RestartInv E s' := by
  cases hstep with
  | peer hstep =>
      exact ⟨fun h => (hs.idle h).peer hmeets hstep,
        fun p hp => Prog.wp_env (hs.busy p hp) ⟨_, hmeets, hstep⟩⟩
  | restart hnone =>
      have hsound := hs.idle hnone
      rcases hsound.txRing with ⟨acc, -, hth⟩
      refine ⟨fun h => absurd h (by simp), ?_⟩
      rintro p ⟨⟩
      refine restart_traffic ⟨⟨⟨hsound.memory, hsound.index, hsound.rx, hsound.fresh⟩,
        hsound.rxRing, acc, List.nil_suffix, hth⟩, rfl, rfl, hmeets⟩
  | access hcall hacc =>
      refine ⟨fun h => absurd h (by simp), ?_⟩
      rintro p ⟨⟩
      exact (Prog.wp_step (hs.busy _ hcall) hacc).2
  | done hret =>
      have hsound := Prog.wp_ret (hs.busy _ hret)
      exact ⟨fun _ => ⟨⟨hsound.memory, hsound.index, hsound.rx, hsound.fresh⟩, hsound.rxRing,
        hsound.txRing⟩, fun p hp => absurd hp (by simp)⟩

theorem RestartStart.run (hstart : RestartStart E s₀)
    (hrun : RunUnder (RestartStep E) (RestartMeets E.indev) s₀ s) : RestartInv E s :=
  RunUnder.invariant (fun _ _ _ hs hmeets hstep => hs.step hmeets hstep) hstart.inv hrun

/-- No restart and no call is under way. -/
structure RestartSys.Quiet (s : RestartSys) : Prop where
  init : s.init = none
  rx : s.t.rx = none
  tx : s.t.tx = none

theorem RestartInv.agreed (hs : RestartInv E s) (hquiet : s.Quiet) : Agreed E.indev s.t := by
  have hsound := hs.idle hquiet.init
  rcases hsound.rxRing.idle hquiet.rx with ⟨h, hrx⟩
  rcases hsound.txRing with ⟨acc, hsince, htx⟩
  rw [hquiet.tx] at htx
  have hidle : TxIdle E.indev acc s.t.w := htx
  exact ⟨⟨h, hrx.agreed⟩, acc, hsince, hidle.agreed⟩

/-- In every run that meets the condition, whenever no restart and no call is under way, the ring
positions agree and no frame accepted since the last restart began is lost. -/
theorem emac_restart_agrees (hstart : RestartStart E s₀)
    (hrun : RunUnder (RestartStep E) (RestartMeets E.indev) s₀ s) (hquiet : s.Quiet) :
    Agreed E.indev s.t :=
  (hstart.run hrun).agreed hquiet

/-! ## Two runs -/

/-- A machine whose rings have just been initialised. -/
def started (w : World) : RestartSys :=
  ⟨⟨w, none, .fresh, none, [], false⟩, none⟩

theorem exists_started (E : EthDev) : ∃ w, w.m.Uncached ∧ RestartStart E (started w) := by
  rcases exists_netStart E.indev with ⟨w₀, w, hw₀, hrun, -⟩
  exact ⟨w, (ringsInit_direct hw₀ hrun).1, ⟨w₀, hw₀, hrun⟩, rfl, rfl, rfl, rfl⟩

/-- A restart that nobody disturbs, as part of a run. -/
theorem runUnder_restart {C : RestartAct → RestartSys → Prop} (hC : ∀ s, C .access s)
    {p : EmacM Unit} {u : Unit} (hrun : Prog.Runs (access direct True) p w u w') (hw : t.w = w) :
    ∃ t', RunUnder (RestartStep E) C ⟨t, some p⟩ ⟨t', some (.ret u)⟩ ∧ t'.w = w' ∧ t'.rx = t.rx ∧
      t'.tx = t.tx ∧ t'.since = t.since := by
  induction hrun generalizing t with
  | ret u s => exact ⟨t, .refl, hw, rfl, rfl, rfl⟩
  | @call o k s s' s'' r a hacc _ ih =>
      subst hw
      rcases ih (Traffic.w_after t s' o) with ⟨t', hsteps, hw', hrx, htx, hsince⟩
      have hafter : (t.after s' o).rx = t.rx ∧ (t.after s' o).tx = t.tx ∧
          (t.after s' o).since = t.since := by
        cases o <;> exact ⟨rfl, rfl, rfl⟩
      refine ⟨t', .head (l := .access) (hC _) (.access rfl ⟨s', hacc, rfl⟩) hsteps, hw',
        hrx.trans hafter.1, htx.trans hafter.2.1, hsince.trans hafter.2.2⟩

/-- A call of `_emac_tx` that nobody disturbs. -/
theorem runUnder_txCall {C : RestartAct → RestartSys → Prop} {p : EmacM Unit} {f : TxFrame}
    {u : Unit} {i : Option (EmacM Unit)}
    (hC : ∀ w th, C (.peer .txAccess) ⟨{ t with w := w, tx := th }, i⟩)
    (hrun : Prog.Runs (access direct True) p w u w') :
    RunUnder (RestartStep E) C ⟨{ t with w := w, tx := some (f, p) }, i⟩
      ⟨{ t with w := w', tx := some (f, .ret u) }, i⟩ := by
  induction hrun with
  | ret u s => exact .refl
  | call hacc _ ih =>
      exact .head (l := .peer .txAccess) (hC _ _) (.peer (.txAccess rfl hacc)) ih

theorem runs_uncached {p : EmacM α} {b : α} (hw : w.m.Uncached)
    (hrun : Prog.Runs (access direct True) p w b w') : w'.m.Uncached :=
  (cached_steps hw hrun).1

theorem calm_runs {p : EmacM α} {b : α} (hp : p.Only Calm)
    (hrun : Prog.Runs (access direct True) p w b w') :
    ∃ rx tx, w' = { w with rxRun := rx, txRun := tx } := by
  induction hrun with
  | ret b s => exact ⟨_, _, rfl⟩
  | call hacc _ ih =>
      rcases Prog.only_call_iff.1 hp with ⟨ho, hk⟩
      rcases ho.outcome hacc with ⟨rx, tx, rfl⟩
      rcases ih (hk _) with ⟨rx', tx', rfl⟩
      exact ⟨rx', tx', rfl⟩

/-- A reset that is over at once. -/
theorem exists_softReset (w : World) : ∃ w', Prog.Runs (access direct True) softReset w true w' ∧
    w'.m = w.m := by
  have hread : ∀ t : World, Prog.Runs (access direct True) (readl .ctl1) t (0 : U32) t :=
    fun t => .call ⟨fun h => absurd h (by decide), rfl⟩ (.ret _ _)
  have hwrite : ∀ t : World, Prog.Runs (access direct True) (setbits .ctl1 0x1#32) t ()
      (t.writel (0 ||| 0x1#32) .ctl1) :=
    fun t => (hread t).bind (.call (r := ()) rfl (.ret _ _))
  have hclear : ¬ testBits (0 : U32) 0x1#32 = true := by decide
  refine ⟨w.writel (0 ||| 0x1#32) .ctl1, (hread w).bind ?_, World.m_writel _ _ _⟩
  rw [if_neg hclear]
  refine (hwrite w).bind ((hread _).bind ?_)
  rw [if_neg hclear]
  exact .ret _ _

/-- A restart that leaves both rings empty. -/
theorem exists_restart_runs (hw : w.m.Uncached) :
    ∃ w', Prog.Runs (access direct True) (restart E) w () w' ∧ TxIdle E.indev [] w' ∧
      w'.sent = [] := by
  have hany : ∀ {γ : Type} (p : EmacM γ) (t : World),
      ∃ c t', Prog.Runs (access direct True) p t c t' :=
    fun p t => Prog.exists_runs (exists_access direct True) p t
  have haddr : (macInit E.devAddr).Only Calm :=
    ((Prog.only_op ⟨by simp, by simp⟩).bind fun _ => Prog.only_op ⟨by simp, by simp⟩).bind fun _ =>
      (calm_setbits (by simp) (by simp)).bind fun _ =>
        (calm_setbits (by simp) (by simp)).bind fun _ => Prog.only_op ⟨by simp, by simp⟩
  have hrest : ((genphyParseLink E.phydev >>= sun8iAdjustLink) >>= fun _ => startDma).Only Calm :=
    ((calm_genphyParseLink _).bind fun _ => calm_adjustLink _).bind fun _ => calm_startDma
  -- The phases of the initialisation, one after the other.
  rcases exists_softReset w with ⟨w₁, hreset, hw₁⟩
  rcases hany (macInit E.devAddr) w₁ with ⟨_, w₂, hmac⟩
  rcases calm_runs haddr hmac with ⟨rx, tx, hw₂⟩
  have hun : w₂.m.Uncached := by
    rw [hw₂]
    exact hw₁.symm ▸ hw
  rcases hany (rxDescsInit E.indev) w₂ with ⟨_, w₃, hrx⟩
  rcases hany (txDescsInit E.indev) w₃ with ⟨_, w₄, htx⟩
  rcases txDescsInit_runs (rxDescsInit_runs hun hrx).1 htx with ⟨-, hidle, hsent⟩
  rcases hany _ w₄ with ⟨_, w₅, hrun⟩
  rcases calm_runs hrest hrun with ⟨rx', tx', rfl⟩
  have hsame : TxSame E.indev w₄ { w₄ with rxRun := rx', txRun := tx' } :=
    .of_memory rfl rfl rfl rfl
  refine ⟨_, ?_, steady_txIdle none _ _ hidle (.other hsame), hsent⟩
  -- The routine is their sequence.
  have hinit : Prog.Runs (access direct True) (sun8iEmacEthInit E) w 0
      { w₄ with rxRun := rx', txRun := tx' } := by
    refine hreset.bind (hmac.bind (hrx.bind (htx.bind ?_)))
    rw [bind_assoc] at hrun
    rcases Prog.runs_bind_inv hrun with ⟨phydev, w₆, hparse, hrun⟩
    rcases Prog.runs_bind_inv hrun with ⟨_, w₇, hadjust, hstart⟩
    exact hparse.bind (hadjust.bind (hstart.bind (.ret _ _)))
  refine .call (r := ()) rfl (.call (r := ()) rfl ?_)
  have hdelay : ∀ u : World, Prog.Runs (access direct True) rtThreadDelay u () u :=
    fun u => .call (r := ()) rfl (.ret _ _)
  have hemac : Prog.Runs (access direct True) (emacInit E) w 0
      { w₄ with rxRun := rx', txRun := tx' } := hinit.bind (.ret _ _)
  exact Prog.Runs.bind (f := fun _ => rtThreadDelay) hemac (hdelay _)

/-- Between restarts a ring with room accepts a frame. -/
theorem exists_accepted {acc : List TxFrame} {p : Pbuf} (hw : t.w.m.Uncached)
    (hidle : TxIdle E.indev acc t.w) (htx : t.tx = none) (hwindow : t.window = false)
    (hp : p ≠ []) (hfit : p.flatten.length ≤ 2047) (hroom : acc.length < t.w.sent.length + 32) :
    ∃ w', w'.m.Uncached ∧ RunUnder (RestartStep E) (RestartMeets E.indev) ⟨t, none⟩
      ⟨{ t with w := w', since := t.since ++ [p.flatten] }, none⟩ := by
  rcases t with ⟨w, rx, age, tx, since, window⟩
  cases htx
  cases hwindow
  rcases Prog.exists_runs (exists_access direct True) (emacTx E.indev p) w with ⟨u, w', hrun⟩
  -- Behind the accepted frames lies a descriptor that is not armed.
  have hfree : armed (descAt (E.indev.txChain w.txCur.toNat) w.m.mem) = false := by
    rw [hidle.cur]
    exact (hidle.ring.slots acc.length hidle.ring.log.length_le hroom (Set.notMem_empty _)).free
      (List.getElem?_eq_none le_rfl)
  have hcall : RestartStep E (.peer .txCall) ⟨⟨w, rx, age, none, since, false⟩, none⟩
      ⟨⟨w, rx, age, some (p.flatten, emacTx E.indev p), since, false⟩, none⟩ :=
    .peer (.txCall p rfl hp hfit)
  have hmeets : RestartMeets E.indev (.peer .txCall) ⟨⟨w, rx, age, none, since, false⟩, none⟩ := hfree
  have hsteps := runUnder_txCall (E := E) (C := RestartMeets E.indev) (f := p.flatten) (i := none)
    (t := ⟨w, rx, age, none, since, false⟩) (fun _ _ => rfl) hrun
  exact ⟨w', runs_uncached hw hrun, (RunUnder.head hmeets hcall hsteps).tail
    (l := RestartAct.peer .txDone) trivial (.peer (.txDone rfl))⟩

/-- A frame is accepted before a restart and another one after it. -/
theorem emac_restart_agrees_traffic : ∃ s : RestartSys, s.Quiet ∧ s.t.since = [[2]] ∧
    Agreed boardDev.indev s.t := by
  rcases exists_started boardDev with ⟨w, hw, hstart⟩
  rcases hstart.rings with ⟨w₀, hw₀, hinit⟩
  rcases exists_accepted (E := boardDev) (t := (started w).t) (p := [[1]]) hw
    (ringsInit_direct hw₀ hinit).2.2 rfl rfl (by simp) (by simp) (by simp) with ⟨w₁, hw₁, hfirst⟩
  -- The restart drops the first frame and forgets it.
  rcases exists_restart_runs (E := boardDev) hw₁ with ⟨w₂, hrun, hidle, -⟩
  rcases runUnder_restart (E := boardDev) (C := RestartMeets boardDev.indev) (fun _ => trivial)
    (t := ⟨w₁, none, .fresh, none, [], true⟩) hrun rfl with ⟨t', hsteps, hw₂, hrx, htx, hsince⟩
  have hfresh : RestartMeets boardDev.indev .restart ⟨⟨w₁, none, .fresh, none, [[1]], false⟩, none⟩ :=
    fun f p hp => absurd hp (by simp)
  have hrestart := (RunUnder.head hfresh (.restart rfl) hsteps).tail (l := RestartAct.done) trivial
    (.done rfl)
  rcases exists_accepted (E := boardDev) (t := { t' with window := false }) (p := [[2]])
    (hw₂ ▸ runs_uncached hw₁ hrun) (hw₂ ▸ hidle) htx rfl (by simp) (by simp) (by simp) with
    ⟨w₃, -, hsecond⟩
  have hquiet : RestartSys.Quiet ⟨{ t' with w := w₃, since := t'.since ++ [[2]], window := false }, none⟩ :=
    ⟨rfl, hrx, htx⟩
  exact ⟨_, hquiet, by rw [hsince]; rfl,
    emac_restart_agrees hstart ((hfirst.trans hrestart).trans hsecond) hquiet⟩

/-- A frame that is accepted while the restart has not reached the transmit ring yet is lost. -/
theorem emac_restart_loses : ∃ s₀ s, RestartStart boardDev s₀ ∧
    RunUnder (RestartStep boardDev) (fun _ _ => True) s₀ s ∧ s.Quiet ∧ s.t.since = [[0]] ∧
      ¬ Agreed boardDev.indev s.t := by
  rcases exists_started boardDev with ⟨w, hw, hstart⟩
  rcases Prog.exists_runs (exists_access direct True) (emacTx Indev.sdram [[0]]) w with
    ⟨u, w₁, hcall⟩
  rcases exists_restart_runs (E := boardDev) (runs_uncached hw hcall) with ⟨w₂, hrestart, hidle, hsent⟩
  rcases runUnder_restart (E := boardDev) (C := fun _ _ => True) (fun _ => trivial)
    (t := ⟨w₁, none, .fresh, none, [[0]], true⟩) hrestart rfl with
    ⟨t', hsteps, hw₂, hrx, htx, hsince⟩
  have htxCall := runUnder_txCall (E := boardDev) (C := fun _ _ => True)
    (t := ⟨w, none, .fresh, none, [], true⟩) (f := [0]) (i := some (restart boardDev))
    (fun _ _ => trivial) hcall
  have hbegun : RunUnder (RestartStep boardDev) (fun _ _ => True) (started w)
      ⟨⟨w, none, .fresh, some ([0], emacTx Indev.sdram [[0]]), [], true⟩,
        some (restart boardDev)⟩ :=
    (RunUnder.refl.tail (l := .restart) trivial (.restart rfl)).tail (l := .peer .txCall) trivial
      (.peer (.txCall [[0]] rfl (by simp) (by simp)))
  have haccepted := (hbegun.trans htxCall).tail (l := .peer .txDone) trivial (.peer (.txDone rfl))
  have hall := (haccepted.trans hsteps).tail (l := .done) trivial (.done rfl)
  refine ⟨_, _, hstart, hall, ⟨rfl, hrx, htx⟩, hsince, ?_⟩
  rintro ⟨-, acc, hsuffix, hagreed⟩
  -- 32 frames would have to be queued, but no descriptor is armed.
  have hsent' : t'.w.sent = [] := hw₂ ▸ hsent
  have hidle' : TxIdle Indev.sdram [] t'.w := hw₂ ▸ hidle
  rw [hsince] at hsuffix
  have hlen : 1 ≤ acc.length := hsuffix.length_le
  have hcur := hagreed.cur.symm.trans hidle'.cur
  have harmed := (hagreed.queued 0 acc[0] (by simp [hsent']) (List.getElem?_eq_getElem hlen)).1
  have hfree := (hidle'.ring.slots 0 (by simp [hsent']) (by omega) (Set.notMem_empty _)).free rfl
  exact absurd (hfree.symm.trans harmed) (by decide)

end Emac

end BspV3s
