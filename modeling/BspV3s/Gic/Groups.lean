import BspV3s.Gic.Distributor

/-!
# Groups — what the group bit says about security

`gic_init` makes every interrupt secure by clearing its group bit; `gic_set_irq_security` makes one
secure by setting it.  The two encodings are compared over every sequence of calls.
-/

namespace BspV3s

namespace Gic

/-- The security that a call asks for. -/
def Call.request : Call → Option Bool
  | .security _ isSecure => some isSecure
  | .enable _ _ _ => some false
  | .disable _ _ => none

/-- The most recent request for an interrupt, if `last` was the one before the calls. -/
def lastRequest (last : Option Bool) : List Call → ℕ → Option Bool
  | [], _ => last
  | c :: cs, irq => lastRequest (if c.irq = irq then c.request.or last else last) cs irq

/-- `gic_init` counts as a request that the interrupt be secure. -/
def isSecure (cs : List Call) (irq : ℕ) : Bool :=
  (lastRequest none cs irq).getD true

/-- The group bit that `gic_init` gives to a secure interrupt. -/
def secureGroup (g₀ : Gicd × Gicc) (irq : ℕ) : Bool :=
  (attr (gicInit g₀).1 irq).group

/-- Every interrupt has the group bit of the security last asked for. -/
def Consistent (g₀ : Gicd × Gicc) (cs : List Call) (g : Gicd) : Prop :=
  ∀ irq < 256, (attr g irq).group =
    if isSecure cs irq then secureGroup g₀ irq else !secureGroup g₀ irq

theorem forRegs_igroupr (g : Gicd) (n i : ℕ) :
    (forRegs (fun i g => { g with igroupr := Function.update g.igroupr i 0 }) n g).igroupr i =
      if i < n then 0 else g.igroupr i := by
  induction n with
  | zero => rfl
  | succ n ih =>
      show Function.update _ n 0 i = _
      by_cases hin : i = n
      · subst hin
        rw [Function.update_self, if_pos (Nat.lt_succ_self i)]
      · rw [Function.update_of_ne hin, ih]
        by_cases hlt : i < n
        · rw [if_pos hlt, if_pos (by omega)]
        · rw [if_neg hlt, if_neg (by omega)]

theorem secureGroup_eq (g₀ : Gicd × Gicc) {irq : ℕ} (hirq : irq < 256) :
    secureGroup g₀ irq = false := by
  have hword : (gicInit g₀).1.igroupr (irq / 32) = 0 := by
    have hcleared := forRegs_igroupr
      (forRegs (fun i g => g.icpendr i 0xffffffff#32) 32 (gicEnable false g₀.1)) 8 (irq / 32)
    rw [if_pos (by omega)] at hcleared
    exact hcleared
  show packedBit _ irq = false
  rw [packedBit, hword]
  exact BitVec.getLsbD_zero

/-- The calls leave in the group bit what they last asked for. -/
theorem group_absRun (m : ℕ → IrqAttr) (cs : List Call) (irq : ℕ) :
    (absRun m cs irq).group = (lastRequest (some (m irq).group) cs irq).getD false := by
  induction cs generalizing m with
  | nil => rfl
  | cons c cs ih =>
      rw [absRun, ih, lastRequest]
      by_cases hirq : c.irq = irq
      · subst hirq
        rw [alter_self, if_pos rfl]
        cases c <;> rfl
      · rw [alter_of_ne (Ne.symm hirq), if_neg hirq]

/-- Without a request for it the state of an interrupt stands; otherwise the request decides. -/
theorem lastRequest_or (last : Option Bool) (cs : List Call) (irq : ℕ) :
    lastRequest last cs irq = (lastRequest none cs irq).or last := by
  induction cs generalizing last with
  | nil => simp [lastRequest]
  | cons c cs ih =>
      rw [lastRequest, lastRequest]
      by_cases hirq : c.irq = irq
      · rw [if_pos hirq, if_pos hirq, ih, ih (c.request.or none)]
        cases lastRequest none cs irq <;> simp
      · rw [if_neg hirq, if_neg hirq, ih]

theorem lastRequest_eq_none_iff {cs : List Call} {irq : ℕ} :
    lastRequest none cs irq = none ↔ ∀ c ∈ cs, c.irq = irq → c.request = none := by
  induction cs with
  | nil => simp [lastRequest]
  | cons c cs ih =>
      rw [lastRequest, lastRequest_or, Option.or_eq_none_iff, ih]
      constructor
      · rintro ⟨hcs, hc⟩ c' hc' hirq
        rcases List.mem_cons.1 hc' with rfl | hc'
        · simpa [hirq] using hc
        · exact hcs c' hc' hirq
      · intro h
        refine ⟨fun c' hc' => h c' (List.mem_cons_of_mem _ hc'), ?_⟩
        by_cases hirq : c.irq = irq
        · simp [hirq, h c (List.mem_cons_self ..) hirq]
        · simp [hirq]

/-- The group bits are consistent exactly as long as no call has asked for a security. -/
theorem groups_consistent_iff (g₀ : Gicd × Gicc) {cs : List Call} (hcs : ∀ c ∈ cs, c.Valid) :
    ∃ g, (gicInit g₀).1.run cs = some g ∧
      (Consistent g₀ cs g ↔ ∀ c ∈ cs, c.request = none) := by
  rcases (gicInit g₀).1.run_attr hcs with ⟨g, hrun, hattr⟩
  refine ⟨g, hrun, ?_⟩
  have hgroup : ∀ irq < 256, ((attr g irq).group =
      if isSecure cs irq then secureGroup g₀ irq else !secureGroup g₀ irq) ↔
        lastRequest none cs irq = none := by
    intro irq hirq
    have hzero := secureGroup_eq g₀ hirq
    have hinit : (attr (gicInit g₀).1 irq).group = false := hzero
    rw [hattr, group_absRun, hinit, hzero, lastRequest_or, isSecure]
    cases lastRequest none cs irq with
    | none => simp
    | some b => cases b <;> simp
  constructor
  · intro h c hc
    have hvalid : c.irq < 256 := by
      have hv := hcs c hc
      cases c with
      | security irqID isSecure => exact hv
      | enable irqId cpuId priority => exact hv.1
      | disable irqId cpuId => exact hv.1
    exact lastRequest_eq_none_iff.1 ((hgroup c.irq hvalid).1 (h c.irq hvalid)) c hc rfl
  · intro h irq hirq
    exact (hgroup irq hirq).2 (lastRequest_eq_none_iff.2 fun c hc _ => h c hc)

/-- Two interrupts that are only disabled keep the group that they were given at the start; one that is
made secure loses it. -/
theorem groups_consistent_iff_disable :
    (∃ g, (gicInit (Gicd.reset, Gicc.reset)).1.run [.disable 34 0, .disable 60 1] = some g ∧
        Consistent (Gicd.reset, Gicc.reset) [.disable 34 0, .disable 60 1] g) ∧
      ∃ g, (gicInit (Gicd.reset, Gicc.reset)).1.run [.disable 60 1, .security 34 true] = some g ∧
        ¬ Consistent (Gicd.reset, Gicc.reset) [.disable 60 1, .security 34 true] g := by
  have hdisable : ∀ c ∈ [Call.disable 34 0, .disable 60 1], c.Valid := by
    simp [Call.Valid]
  have hsecure : ∀ c ∈ [Call.disable 60 1, .security 34 true], c.Valid := by
    simp [Call.Valid]
  obtain ⟨g, hrun, hiff⟩ := groups_consistent_iff (Gicd.reset, Gicc.reset) hdisable
  obtain ⟨g', hrun', hiff'⟩ := groups_consistent_iff (Gicd.reset, Gicc.reset) hsecure
  refine ⟨⟨g, hrun, hiff.2 (by simp [Call.request])⟩, g', hrun', fun hconsistent => ?_⟩
  exact absurd (hiff'.1 hconsistent (.security 34 true) (by simp)) (by simp [Call.request])

/-- An interrupt made secure gets the group bit that `gic_init` gives to no secure interrupt. -/
theorem gicSetIrqSecurity_inverted :
    (Call.security 34 true).Valid ∧ isSecure [.security 34 true] 34 = true ∧
      secureGroup (Gicd.reset, Gicc.reset) 34 = false ∧
      ∃ g, (gicInit (Gicd.reset, Gicc.reset)).1.run [.security 34 true] = some g ∧
        (attr g 34).group = true := by
  refine ⟨by simp [Call.Valid], rfl, secureGroup_eq _ (by omega), _, rfl, ?_⟩
  rw [attr_gicSetIrqSecurity]
  rfl

end Gic

end BspV3s
