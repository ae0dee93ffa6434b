import BspV3s.Lib.Runs
import BspV3s.Emac.Link

/-!
# Agreement — the controller's speed and the PHY's

`_emac_init` resolves speed and duplex from the PHY once and writes them to `EMAC_CTL0`; the PHY
thread polls the link and calls `_emac_init` again only after a DMA error.  `LinkWorld` is the PHY,
`EMAC_CTL0` and what was announced, with a record of which PHY registers were read when.  The PHY may
change at any step.
-/

namespace BspV3s

namespace Emac

/-! ## The machine -/

structure LinkWorld where
  /-- What the PHY's registers hold. -/
  phy : PhyReg → U32
  ctl0 : U32
  announced : ℤ
  /-- What each PHY register held when it was read last. -/
  seen : PhyReg → U32
  /-- What the PHY held when `BMSR` was read last. -/
  sampled : PhyReg → U32
  /-- The registers from which the last complete `_emac_init` resolved the link. -/
  adjusted : Option (PhyReg → U32)
  /-- What the PHY held when the announced state was sampled. -/
  announcedOn : PhyReg → U32

/-- A soft reset of the controller leaves anything in `EMAC_CTL0`. -/
def linkAccess : Prog.Sem Op Op.Ret LinkWorld
  | .phyRead r, w, v, w' =>
      v = w.phy r ∧ w' = { w with
        seen := Function.update w.seen r v
        sampled := if r = .bmsr then w.phy else w.sampled }
  | .readl .ctl0, w, v, w' => v = w.ctl0 ∧ w' = w
  | .writel .ctl0 v, w, _, w' => w' = { w with ctl0 := v, adjusted := some w.seen }
  | .writel .ctl1 v, w, _, w' =>
      if v.getLsbD 0 then ∃ c, w' = { w with ctl0 := c, adjusted := none } else w' = w
  | .linkchange up, w, _, w' => w' = { w with announced := up, announcedOn := w.sampled }
  | _, w, _, w' => w' = w

/-- The speed and duplex bits of `EMAC_CTL0`. -/
def linkBits (v : U32) : U32 := v &&& 0x0D#32

/-- What `genphy_parse_link` resolves from PHY registers that hold `regs`. -/
def parsed (phydev : PhyDevice) (regs : PhyReg → U32) : PhyDevice :=
  (genphyParseLink phydev).eval (answers regs 0)

/-- How `sun8i_adjust_link` encodes what `genphy_parse_link` resolves from `regs`. -/
def encoding (E : EthDev) (regs : PhyReg → U32) : U32 :=
  linkBits (adjustCtl0 (parsed E.phydev regs) 0)

/-- While the link is announced as up, the controller is set to the speed and duplex that the PHY
held when that was sampled. -/
def Agrees (E : EthDev) (w : LinkWorld) : Prop :=
  w.announced ≠ 0 → linkBits w.ctl0 = encoding E w.announcedOn

/-- `sun8i_adjust_link` decides all of these bits, whatever the register held. -/
theorem linkBits_adjustCtl0 (phydev : PhyDevice) (v : U32) :
    linkBits (adjustCtl0 phydev v) = linkBits (adjustCtl0 phydev 0) := by
  have hmask : ∀ i < 32, (0x0D#32).getLsbD i = true → i = 0 ∨ i = 2 ∨ i = 3 := by decide
  apply BitVec.eq_of_getLsbD_eq
  intro i hi
  rw [linkBits, linkBits, BitVec.getLsbD_and, BitVec.getLsbD_and]
  by_cases hbit : (0x0D#32).getLsbD i = true
  · unfold adjustCtl0 bit
    rcases hmask i hi hbit with rfl | rfl | rfl <;> split_ifs <;> simp
  · simp [hbit]

/-! ## The thread among changes of the PHY -/

structure LinkSys where
  w : LinkWorld
  th : EmacM ℤ

inductive LinkAct
  | phy
  | access (o : Op)
  | iterate

/-- The PHY changes, the thread makes an access, or it begins its next iteration. -/
inductive LinkStep (E : EthDev) : LinkAct → LinkSys → LinkSys → Prop
  | phy {w : LinkWorld} {th : EmacM ℤ} (regs : PhyReg → U32) :
      LinkStep E .phy ⟨w, th⟩ ⟨{ w with phy := regs }, th⟩
  | access {w w' : LinkWorld} {o : Op} {k : o.Ret → EmacM ℤ} {r : o.Ret} :
      linkAccess o w r w' → LinkStep E (.access o) ⟨w, .call o k⟩ ⟨w', k r⟩
  | iterate {w : LinkWorld} {initlink : ℤ} :
      LinkStep E .iterate ⟨w, .ret initlink⟩ ⟨w, phyThreadIter E initlink⟩

/-- The device's first `_emac_init`, and the delay with which the PHY thread waits for it. -/
def phyThreadStart (E : EthDev) : EmacM ℤ := do
  let _ ← emacInit E
  rtThreadDelay
  pure 0

/-- Nothing has been announced or initialised. -/
structure LinkStart (E : EthDev) (s : LinkSys) : Prop where
  announced : s.w.announced = 0
  adjusted : s.w.adjusted = none
  th : s.th = phyThreadStart E

/-- A link is announced as up only when what the PHY held at its sample resolves as what the last
complete `_emac_init` read. -/
def LinkMeets (E : EthDev) : LinkAct → LinkSys → Prop
  | .access (.linkchange up), s =>
      up ≠ 0 → ∃ regs ∈ s.w.adjusted, encoding E regs = encoding E s.w.sampled
  | _, _ => True

/-! ## What each access keeps -/

/-- The controller is set as `_emac_init` last resolved. -/
def Resolved (E : EthDev) (w : LinkWorld) : Prop :=
  ∀ regs ∈ w.adjusted, linkBits w.ctl0 = encoding E regs

def phyRely : Prog.Rely Op LinkWorld :=
  fun _ w w' => ∃ regs, w' = { w with phy := regs }

def linkGuarantee (E : EthDev) : Prog.Sem Op Op.Ret LinkWorld :=
  fun o w _ w' => (Resolved E w → Resolved E w') ∧
    ∀ th, LinkMeets E (.access o) ⟨w, th⟩ → Resolved E w → Agrees E w → Agrees E w'

/-- Accesses that leave `EMAC_CTL0` and the announcement alone. -/
def Aloof : Op → Prop
  | .linkchange _ => False
  | .writel .ctl0 _ => False
  | .writel .ctl1 _ => False
  | _ => True

theorem aloof_guarantee {E : EthDev} {o : Op} {w w' : LinkWorld} {r : o.Ret} (ho : Aloof o)
    (hacc : linkAccess o w r w') :
    linkGuarantee E o w r w' ∧ w'.announced = w.announced := by
  have hsame : w'.ctl0 = w.ctl0 ∧ w'.adjusted = w.adjusted ∧ w'.announced = w.announced ∧
      w'.announcedOn = w.announcedOn := by
    cases o with
    | phyRead reg =>
        rcases hacc with ⟨-, rfl⟩
        exact ⟨rfl, rfl, rfl, rfl⟩
    | readl reg => cases reg <;> simp_all [linkAccess]
    | writel reg v => cases reg <;> simp_all [linkAccess, Aloof]
    | linkchange up => exact ho.elim
    | _ =>
        cases hacc
        exact ⟨rfl, rfl, rfl, rfl⟩
  rcases hsame with ⟨hctl, hadj, hann, hon⟩
  refine ⟨⟨?_, ?_⟩, hann⟩
  · intro h regs hregs
    rw [hctl]
    exact h regs (hadj ▸ hregs)
  · intro _ _ _ h hup
    rw [hctl, hon]
    exact h (hann ▸ hup)

/-- While nothing is announced as up, an initialisation may also reset the controller. -/
theorem init_guarantee {E : EthDev} {o : Op} {w w' : LinkWorld} {r : o.Ret} (ho : InitOp o)
    (hw : w.announced = 0) (hacc : linkAccess o w r w') :
    linkGuarantee E o w r w' ∧ w'.announced = 0 := by
  by_cases haloof : Aloof o
  · rcases aloof_guarantee (E := E) haloof hacc with ⟨hg, hann⟩
    exact ⟨hg, hann.trans hw⟩
  · cases o with
    | writel reg v =>
        cases reg <;> first | exact (ho : False).elim | exact absurd trivial haloof | skip
        simp only [linkAccess] at hacc
        split at hacc
        · rcases hacc with ⟨c, rfl⟩
          exact ⟨⟨fun _ regs hregs => absurd hregs (by simp), fun _ _ _ _ hup => absurd hw hup⟩, hw⟩
        · subst hacc
          exact ⟨⟨id, fun _ _ _ h => h⟩, hw⟩
    | linkchange up => exact (ho : False).elim
    | _ => exact absurd trivial haloof

section Rules

variable {E : EthDev} {w : LinkWorld}

theorem steady_announced (o : Option Op) :
    Prog.Stable phyRely o fun w : LinkWorld => w.announced = 0 := by
  rintro w w' hw ⟨regs, rfl⟩
  exact hw

theorem wp_initOp {α : Type} {p : EmacM α} (hp : p.Only InitOp) (hw : w.announced = 0) :
    Prog.wp linkAccess phyRely (linkGuarantee E) p (fun _ t => t.announced = 0) w :=
  hp.wp steady_announced (fun _ _ _ _ ho hs hacc => init_guarantee ho hs hacc) hw

theorem wp_aloof {α : Type} {p : EmacM α} (hp : p.Only Aloof) :
    Prog.wp linkAccess phyRely (linkGuarantee E) p (fun _ _ => True) w :=
  hp.wp (fun _ _ _ _ _ => trivial)
    (fun _ _ _ _ ho _ hacc => ⟨(aloof_guarantee ho hacc).1, trivial⟩) trivial

/-! ## What `genphy_parse_link` has read -/

/-- The routine only reads PHY registers, each at most once and none of those in `past`. -/
def ReadsOnce {α : Type} : List PhyReg → EmacM α → Prop
  | _, .ret _ => True
  | past, .call (.phyRead r) k => r ∉ past ∧ ∀ v, ReadsOnce (r :: past) (k v)
  | _, .call _ _ => False

theorem ReadsOnce.only {α : Type} {past : List PhyReg} {p : EmacM α} (hp : ReadsOnce past p) :
    p.Only fun o => ∃ r ∉ past, o = .phyRead r := by
  induction p generalizing past with
  | ret a => exact Prog.only_pure a
  | call o k ih =>
      cases o with
      | phyRead r =>
          refine Prog.only_call_iff.2 ⟨⟨r, hp.1, rfl⟩, fun v => (ih v (hp.2 v)).mono ?_⟩
          rintro o ⟨r', hr', rfl⟩
          exact ⟨r', fun h => hr' (List.mem_cons_of_mem _ h), rfl⟩
      | _ => exact (hp : False).elim

theorem ReadsOnce.ite {α : Type} {past : List PhyReg} {c : Prop} [Decidable c] {p q : EmacM α}
    (hp : ReadsOnce past p) (hq : ReadsOnce past q) : ReadsOnce past (if c then p else q) := by
  split
  · exact hp
  · exact hq

/-- Such a routine returns what it would return if the PHY held what it has last read, for nothing
that it has read is read again. -/
theorem wp_readsOnce {α : Type} {past : List PhyReg} {p : EmacM α} (hp : ReadsOnce past p) :
    Prog.wp linkAccess phyRely (fun _ _ _ _ => True) p
      (fun a t => a = p.eval (answers t.seen 0)) w := by
  induction p generalizing past w with
  | ret a =>
      exact Prog.wp_return (P := fun _ => True) (fun _ _ _ _ => trivial) trivial fun _ _ => rfl
  | call o k ih =>
      cases o with
      | phyRead r =>
          refine Prog.wp_call (P := fun _ => True) (fun _ _ _ _ => trivial) trivial ?_
          rintro t v t' - ⟨-, ht'⟩
          refine ⟨trivial, ?_⟩
          have hseen : t'.seen r = v := by
            rw [ht']
            exact Function.update_self ..
          have hkeep : Prog.wp linkAccess phyRely (fun _ _ _ _ => True) (k v)
              (fun _ (t : LinkWorld) => t.seen r = v) t' := by
            refine (hp.2 v).only.wp (I := fun t : LinkWorld => t.seen r = v) ?_ ?_ hseen
            · rintro o u u' hu ⟨regs, rfl⟩
              exact hu
            · rintro _ u a u' ⟨r', hr', rfl⟩ hu ⟨-, rfl⟩
              have hne : r ≠ r' := fun h => hr' (h ▸ List.mem_cons_self ..)
              exact ⟨trivial, (Function.update_of_ne hne _ _).trans hu⟩
          refine Prog.wp_mono ?_ (Prog.wp_and (ih v (hp.2 v)) hkeep)
          rintro a u ⟨rfl, hu⟩
          rw [Prog.eval, answers, hu]
      | _ => exact (hp : False).elim

theorem readsOnce_genphyParseLink (phydev : PhyDevice) :
    ReadsOnce [] (genphyParseLink phydev) := by
  have hrest : ∀ past (miiReg gblpa : U32), .advertise ∉ past → .lpa ∉ past → .estatus ∉ past →
      ReadsOnce past (if testBits gblpa (0x0800#32 ||| 0x0400#32) then
        pure (resolveGigabit phydev gblpa) else do
          let advertise ← phyRead .advertise
          let lpa ← phyRead .lpa
          let estatus ← readEstatus miiReg
          pure (resolveEstatus (resolveLpa phydev (advertise &&& lpa)) estatus)) := by
    intro past miiReg gblpa hadv hlpa hest
    refine .ite trivial ⟨hadv, fun advertise => ⟨by simp [hlpa], fun lpa => ?_⟩⟩
    show ReadsOnce _ (readEstatus miiReg >>= _)
    unfold readEstatus
    split
    · exact ⟨by simp [hest], fun _ => trivial⟩
    · trivial
  refine ⟨by simp, fun miiReg => .ite ?_ ⟨by simp, fun _ => trivial⟩⟩
  unfold gigabitAbility
  split
  · exact ⟨by simp, fun _ => ⟨by simp, fun _ => hrest _ _ _ (by decide) (by decide) (by decide)⟩⟩
  · exact hrest [.bmsr] miiReg 0 (by decide) (by decide) (by decide)

/-! ## The routines -/

theorem adjustLink_link {phydev : PhyDevice} (hw : w.announced = 0)
    (hparsed : phydev = parsed E.phydev w.seen) :
    Prog.wp linkAccess phyRely (linkGuarantee E) (sun8iAdjustLink phydev)
      (fun _ t => t.announced = 0) w := by
  have hsteady : ∀ o, Prog.Stable phyRely o fun t : LinkWorld =>
      t.announced = 0 ∧ phydev = parsed E.phydev t.seen := by
    rintro o t t' ht ⟨regs, rfl⟩
    exact ht
  refine Prog.wp_call (hsteady _) ⟨hw, hparsed⟩ ?_
  rintro t v t' ht hread
  rcases (hread : v = t.ctl0 ∧ t' = t) with ⟨rfl, rfl⟩
  refine ⟨⟨id, fun _ _ _ h => h⟩, ?_⟩
  refine Prog.wp_call (hsteady _) ht ?_
  rintro u r u' ⟨hu, hphydev⟩ rfl
  refine ⟨⟨?_, fun _ _ _ _ hup => absurd hu hup⟩, ?_⟩
  · rintro - regs ⟨⟩
    show linkBits (adjustCtl0 phydev t'.ctl0) = _
    rw [linkBits_adjustCtl0, hphydev]
    rfl
  · exact Prog.wp_return (steady_announced _) hu fun _ h => h

/-- `_emac_init` while nothing is announced as up. -/
theorem emacInit_link (hw : w.announced = 0) :
    Prog.wp linkAccess phyRely (linkGuarantee E) (emacInit E) (fun _ t => t.announced = 0) w := by
  refine Prog.wp_seq ?_ fun _ t ht => Prog.wp_return (steady_announced _) ht fun _ h => h
  refine Prog.wp_seq (wp_initOp only_softReset hw) fun ok t ht => ?_
  split
  · refine Prog.wp_seq (wp_initOp (only_macInit _) ht) fun _ t ht => ?_
    refine Prog.wp_seq (wp_initOp (only_rxDescsInit _) ht) fun _ t ht => ?_
    refine Prog.wp_seq (wp_initOp (only_txDescsInit _) ht) fun _ t ht => ?_
    refine Prog.wp_seq (Prog.wp_and (wp_initOp (only_genphyParseLink _) ht)
      (wp_readsOnce (readsOnce_genphyParseLink _))) ?_
    rintro phydev t ⟨ht, hparsed⟩
    refine Prog.wp_seq (adjustLink_link ht hparsed) fun _ t ht => ?_
    refine Prog.wp_seq (wp_initOp only_startDma ht) fun _ t ht => ?_
    exact Prog.wp_return (steady_announced _) ht fun _ h => h
  · exact Prog.wp_return (steady_announced _) ht fun _ h => h

section

variable {α β : Type} {Q : β → LinkWorld → Prop}

theorem wp_quiet {p : EmacM α} {f : α → EmacM β} (hp : p.Only Aloof)
    (hf : ∀ a t, Prog.wp linkAccess phyRely (linkGuarantee E) (f a) Q t) :
    Prog.wp linkAccess phyRely (linkGuarantee E) (p >>= f) Q w :=
  Prog.wp_seq (wp_aloof hp) fun a t _ => hf a t

/-- An announcement agrees with the controller if it meets the condition. -/
theorem wp_linkchange (up : ℤ) {f : Unit → EmacM β}
    (hf : ∀ t : LinkWorld, t.announced = up →
      Prog.wp linkAccess phyRely (linkGuarantee E) (f ()) Q t) :
    Prog.wp linkAccess phyRely (linkGuarantee E) (ethDeviceLinkchange up >>= f) Q w := by
  refine Prog.wp_call (P := fun _ => True) (fun _ _ _ _ => trivial) trivial ?_
  rintro t r t' - rfl
  refine ⟨⟨id, fun th hmeets hres _ hup => ?_⟩, hf _ rfl⟩
  rcases hmeets hup with ⟨regs, hregs, henc⟩
  exact (hres regs hregs).trans henc

end

theorem wp_done {α : Type} (a : α) :
    Prog.wp linkAccess phyRely (linkGuarantee E) (pure a) (fun _ _ => True) w :=
  wp_aloof (Prog.only_pure a)

theorem only_delay : rtThreadDelay.Only Aloof :=
  Prog.only_op trivial

/-- The restart announces "down" before it touches the controller. -/
theorem restart_link :
    Prog.wp linkAccess phyRely (linkGuarantee E) (restart E) (fun _ _ => True) w := by
  refine wp_quiet (Prog.only_op trivial) fun _ t => ?_
  refine wp_linkchange 0 fun t ht => ?_
  refine Prog.wp_seq (emacInit_link ht) fun _ t _ => ?_
  exact wp_aloof only_delay

theorem only_miiphyLink : miiphyLink.Only Aloof := by
  have hread : ∀ r, (miiphyRead r).Only Aloof := fun r =>
    (Prog.only_op trivial).bind fun _ => Prog.only_pure _
  refine (hread _).bind fun _ => (hread _).bind fun reg => ?_
  cases reg with
  | none => exact Prog.only_pure _
  | some reg => exact Prog.only_pure _

/-- An iteration, whatever was announced before it. -/
theorem phyThreadIter_link (initlink : ℤ) :
    Prog.wp linkAccess phyRely (linkGuarantee E) (phyThreadIter E initlink) (fun _ _ => True) w := by
  have hend : ∀ (u : Unit) (a : ℤ) t, Prog.wp linkAccess phyRely (linkGuarantee E)
      (do rtThreadDelay; pure a) (fun _ _ => True) t :=
    fun _ a _ => wp_quiet only_delay fun _ _ => wp_done a
  have hstatus : ∀ (a : ℤ) t, Prog.wp linkAccess phyRely (linkGuarantee E)
      (do
        let status ← readl .intSta
        if testBits status 0x40#32 then restart E else pure ()
        rtThreadDelay
        pure a) (fun _ _ => True) t := by
    intro a t
    refine wp_quiet (Prog.only_op trivial) fun status t => ?_
    split
    · exact Prog.wp_seq restart_link fun u t _ => hend u a t
    · exact hend () a t
  refine wp_quiet only_miiphyLink fun link t => ?_
  refine Prog.wp_seq ?_ fun a t (_ : True) => hstatus a t
  unfold reportLink
  split
  · exact wp_linkchange link fun t _ => wp_done link
  · exact wp_done initlink

theorem phyThreadStart_link (hw : w.announced = 0) :
    Prog.wp linkAccess phyRely (linkGuarantee E) (phyThreadStart E) (fun _ _ => True) w :=
  Prog.wp_seq (emacInit_link hw) fun _ _ _ => wp_quiet only_delay fun _ _ => wp_done 0

end Rules

/-! ## Runs -/

structure LinkInv (E : EthDev) (s : LinkSys) : Prop where
  resolved : Resolved E s.w
  thread : Prog.wp linkAccess phyRely (linkGuarantee E) s.th (fun _ _ => True) s.w

section Runs

variable {E : EthDev} {s s' : LinkSys} {a : LinkAct}

theorem LinkStart.inv (hs : LinkStart E s) : LinkInv E s ∧ Agrees E s.w := by
  refine ⟨⟨?_, ?_⟩, fun hup => absurd hs.announced hup⟩
  · intro regs hregs
    rw [hs.adjusted] at hregs
    exact absurd hregs (by simp)
  · rw [hs.th]
    exact phyThreadStart_link hs.announced

theorem LinkInv.step (hs : LinkInv E s) (hstep : LinkStep E a s s') :
    LinkInv E s' ∧ (LinkMeets E a s → Agrees E s.w → Agrees E s'.w) := by
  rcases hs with ⟨hres, hth⟩
  cases hstep with
  | phy regs => exact ⟨⟨hres, Prog.wp_env hth ⟨regs, rfl⟩⟩, fun _ h => h⟩
  | access hacc =>
      rcases Prog.wp_step hth hacc with ⟨⟨hkeep, hagree⟩, hk⟩
      exact ⟨⟨hkeep hres, hk⟩, fun hmeets => hagree _ hmeets hres⟩
  | iterate => exact ⟨⟨hres, phyThreadIter_link _⟩, fun _ h => h⟩

theorem LinkStart.run (hs : LinkStart E s) (hrun : RunUnder (LinkStep E) (fun _ _ => True) s s') :
    LinkInv E s' :=
  hrun.invariant (fun _ _ _ h _ hstep => (h.step hstep).1) hs.inv.1

end Runs

/-- The controller agrees with the PHY in every state of a run whose announcements all meet the
condition.  Without it, they agree exactly while what the last `_emac_init` resolved is encoded as
what the announced sample resolves to. -/
theorem emac_agrees {E : EthDev} {s₀ : LinkSys} (hs : LinkStart E s₀) :
    (∀ s, RunUnder (LinkStep E) (LinkMeets E) s₀ s → Agrees E s.w) ∧
      ∀ s, RunUnder (LinkStep E) (fun _ _ => True) s₀ s → ∀ regs ∈ s.w.adjusted,
        (Agrees E s.w ↔ (s.w.announced ≠ 0 → encoding E regs = encoding E s.w.announcedOn)) := by
  constructor
  · intro s hrun
    have hinv : LinkInv E s ∧ Agrees E s.w := by
      refine hrun.invariant (I := fun s => LinkInv E s ∧ Agrees E s.w) ?_ hs.inv
      rintro a t t' ⟨hinv, hagree⟩ hmeets hstep
      rcases hinv.step hstep with ⟨hinv', hkeep⟩
      exact ⟨hinv', hkeep hmeets hagree⟩
    exact hinv.2
  · intro s hrun regs hregs
    have hres := (hs.run hrun).resolved regs hregs
    unfold Agrees
    rw [hres]

/-! ## Two runs -/

/-- Accesses answered by the PHY and by a controller whose reset clears `EMAC_CTL0`. -/
def linkOutcome : (o : Op) → LinkWorld → o.Ret × LinkWorld
  | .phyRead r, w =>
      (w.phy r, { w with
        seen := Function.update w.seen r (w.phy r)
        sampled := if r = .bmsr then w.phy else w.sampled })
  | .readl .ctl0, w => (w.ctl0, w)
  | .writel .ctl0 v, w => ((), { w with ctl0 := v, adjusted := some w.seen })
  | .writel .ctl1 v, w =>
      ((), if v.getLsbD 0 then { w with ctl0 := 0, adjusted := none } else w)
  | .linkchange up, w => ((), { w with announced := up, announcedOn := w.sampled })
  | o, w => (answers w.phy 0 o, w)

theorem linkAccess_outcome (o : Op) (w : LinkWorld) :
    linkAccess o w (linkOutcome o w).1 (linkOutcome o w).2 := by
  cases o with
  | phyRead r => exact ⟨rfl, rfl⟩
  | readl reg => cases reg <;> first | rfl | exact ⟨rfl, rfl⟩
  | writel reg v =>
      cases reg <;> try rfl
      simp only [linkAccess, linkOutcome]
      split
      · exact ⟨0, rfl⟩
      · rfl
  | _ => rfl

/-- The condition on an access, for `boardDev`. -/
def meets : Op → LinkWorld → Bool
  | .linkchange up, w =>
      up = 0 || w.adjusted.any fun regs => encoding boardDev regs = encoding boardDev w.sampled
  | _, _ => true

theorem LinkMeets.of_meets {o : Op} {s : LinkSys} (h : meets o s.w = true) :
    LinkMeets boardDev (.access o) s := by
  cases o with
  | linkchange up =>
      intro hup
      rcases hadj : s.w.adjusted with - | regs
      · simp [meets, hup, hadj] at h
      · exact ⟨regs, rfl, by simpa [meets, hup, hadj] using h⟩
  | _ => trivial

theorem runUnder_runs {E : EthDev} {C : LinkAct → LinkSys → Prop} {check : Op → LinkWorld → Bool}
    (hC : ∀ o s, check o s.w = true → C (.access o) s) {p : EmacM ℤ} {w w' : LinkWorld} {a : ℤ}
    (h : Prog.Runs (fun o w r w' => linkAccess o w r w' ∧ check o w = true) p w a w') :
    RunUnder (LinkStep E) C ⟨w, p⟩ ⟨w', .ret a⟩ := by
  induction h with
  | ret a w => exact .refl
  | call hacc _ ih => exact .head (hC _ _ hacc.2) (.access hacc.1) ih

/-- A machine on which nothing has happened yet, with a PHY that holds `phy`. -/
def linkReset (phy : U32) : LinkWorld where
  phy := fun _ => phy
  ctl0 := 0
  announced := 0
  seen := fun _ => 0
  sampled := fun _ => 0
  adjusted := none
  announcedOn := fun _ => 0

/-- After the first initialisation, made while the PHY held `before`, the PHY holds `since`. -/
def linkChanged (before since : U32) : LinkWorld :=
  { ((phyThreadStart boardDev).runOn linkOutcome (linkReset before)).2 with phy := fun _ => since }

/-- After the first iteration besides. -/
def linkIterated (before since : U32) : LinkWorld :=
  ((phyThreadIter boardDev 0).runOn linkOutcome (linkChanged before since)).2

theorem runUnder_linkIterated {C : LinkAct → LinkSys → Prop} (check : Op → LinkWorld → Bool)
    (hC : ∀ o s, check o s.w = true → C (.access o) s) (hphy : ∀ s, C .phy s)
    (hiter : ∀ s, C .iterate s) (before since : U32)
    (hinit : (phyThreadStart boardDev).checkOn linkOutcome check (linkReset before) = true)
    (hnext : (phyThreadIter boardDev 0).checkOn linkOutcome check (linkChanged before since) =
      true) :
    ∃ a, RunUnder (LinkStep boardDev) C ⟨linkReset before, phyThreadStart boardDev⟩
      ⟨linkIterated before since, .ret a⟩ := by
  have hzero : ((phyThreadStart boardDev).runOn linkOutcome (linkReset before)).1 = 0 := by
    rw [phyThreadStart, Prog.runOn_bind]
    rfl
  have hfirst := runUnder_runs (E := boardDev) hC
    (Prog.runs_checkOn linkAccess_outcome _ _ hinit)
  rw [hzero] at hfirst
  have hsecond := runUnder_runs (E := boardDev) hC
    (Prog.runs_checkOn linkAccess_outcome _ _ hnext)
  exact ⟨_, ((hfirst.tail (hphy _) (.phy fun _ => since)).tail (hiter _) .iterate).trans hsecond⟩

theorem linkStart_reset (phy : U32) :
    LinkStart boardDev ⟨linkReset phy, phyThreadStart boardDev⟩ :=
  ⟨rfl, rfl, rfl⟩

/-- A 100 Mbit/s full duplex link that is up all the time is announced and agrees. -/
theorem emac_agrees_up : ∃ s₀ s, LinkStart boardDev s₀ ∧
    RunUnder (LinkStep boardDev) (LinkMeets boardDev) s₀ s ∧ s.w.announced = 1 ∧
      Agrees boardDev s.w := by
  have hmeets : ∀ o s, meets o s.w = true → LinkMeets boardDev (.access o) s :=
    fun _ _ h => LinkMeets.of_meets h
  rcases runUnder_linkIterated meets hmeets (fun _ => trivial) (fun _ => trivial) 0x0104 0x0104
    (by decide +kernel) (by decide +kernel) with ⟨a, hrun⟩
  have hup : (linkIterated 0x0104 0x0104).announced = 1 := by decide +kernel
  exact ⟨_, _, linkStart_reset _, hrun, hup,
    (emac_agrees (linkStart_reset _)).1 _ hrun⟩

/-- The link is down at initialisation and comes up as 100 Mbit/s full duplex: the controller stays
at 10 Mbit/s half duplex. -/
theorem emac_disagrees : ∃ s₀ s, LinkStart boardDev s₀ ∧
    RunUnder (LinkStep boardDev) (fun _ _ => True) s₀ s ∧ s.w.announced = 1 ∧
      linkBits s.w.ctl0 = 0x08#32 ∧ encoding boardDev s.w.announcedOn = 0x0D#32 := by
  rcases runUnder_linkIterated (C := fun _ _ => True) (fun _ _ => true) (fun _ _ _ => trivial)
    (fun _ => trivial) (fun _ => trivial) 0 0x0104 (Prog.checkOn_true _ _ _)
    (Prog.checkOn_true _ _ _) with ⟨a, hrun⟩
  have hend : (linkIterated 0 0x0104).announced = 1 ∧
      linkBits (linkIterated 0 0x0104).ctl0 = 0x08#32 ∧
        encoding boardDev (linkIterated 0 0x0104).announcedOn = 0x0D#32 := by
    decide +kernel
  exact ⟨_, _, linkStart_reset _, hrun, hend⟩

end Emac

end BspV3s
