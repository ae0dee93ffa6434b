import BspV3s.Lib.Program

/-!
# Monitor — mounting the card

`rt_hw_tf_init` asks the MMC core once for a card and starts `sd_thread_entry`, which asks again while
no card is registered and mounts a card when the wait for it answers "plugged".  The core's own thread
sets and clears `host->card` at any moment and requests of other threads change the error count, so
both are moves between the accesses of the monitor.

A pass that asks for a card mounts it only if the wait of that very pass reports it.  A card that the
core registers later finds `host->card` set at the next check, and no branch of the loop is taken.

* `settled_of_run`   : a registered card has been mounted at the top of the loop unless it came late;
* `mounted_of_run`   : no card comes late when cards are registered within a pass that reports them;
* `late_unmounted`   : a card that is registered after a wait has timed out is never mounted.
-/

namespace BspV3s

namespace Monitor

/-! ## Accesses -/

/-- What `mmcsd_wait_cd_changed` answers. -/
inductive Plug
  | pluged
  | unpluged
  | error (code : Int)
  deriving DecidableEq, Repr

/-- The messages, by the event they report. -/
inductive Msg
  | allocFailed
  | probeFailed
  | cardDetected
  | noCard
  | mountOk
  | mountFailed
  | unmountOk
  | unmountFailed
  deriving DecidableEq, Repr

/-- Calls of the MMC core and the file system, and accesses to what other threads share: `card` reads
whether `host->card` is set, `err` reads `mmc->err`.  `mmc->plug` belongs to this thread alone and is
passed on. -/
inductive Op
  | allocHost
  | gpioSetMode (pf : Nat)
  | probe
  | mmcsdChange
  | waitCdChanged (timeout : Nat)
  | dfsMount
  | card
  | err
  | setErr (n : Nat)
  | printf (msg : Msg)
  | threadDelay
  deriving DecidableEq, Repr

abbrev Op.Ret : Op → Type
  | .allocHost => Bool
  | .probe => Bool
  | .waitCdChanged _ => Plug
  | .dfsMount => Int
  | .card => Bool
  | .err => Nat
  | _ => Unit

abbrev MonM := Prog Op Op.Ret

def mmcsdAllocHost : MonM Bool := Prog.op Op.allocHost
def gpioSetMode (pf : Nat) : MonM Unit := Prog.op (Op.gpioSetMode pf)
def sunxiMmcProbe : MonM Bool := Prog.op Op.probe
def mmcsdChange : MonM Unit := Prog.op Op.mmcsdChange
def mmcsdWaitCdChanged (timeout : Nat) : MonM Plug := Prog.op (Op.waitCdChanged timeout)
def dfsMount : MonM Int := Prog.op Op.dfsMount
def card : MonM Bool := Prog.op Op.card
def err : MonM Nat := Prog.op Op.err
def setErr (n : Nat) : MonM Unit := Prog.op (Op.setErr n)
def printf (msg : Msg) : MonM Unit := Prog.op (Op.printf msg)
def rtThreadDelay : MonM Unit := Prog.op Op.threadDelay

/-! ## The routines -/

/-- What follows a wait that has answered "plugged". -/
def cardDetected : MonM Unit := do
  printf .cardDetected
  let ret ← dfsMount
  if ret = 0 then printf .mountOk else printf .mountFailed

/-- `rt_hw_tf_init`, without the constants of the host; `none` where it fails, otherwise the value of
`mmc->plug` with which the monitor is started. -/
def rtHwTfInit : MonM (Option Plug) := do
  let host ← mmcsdAllocHost
  if host = false then do
    printf .allocFailed
    pure none
  else do
    gpioSetMode 0
    gpioSetMode 1
    gpioSetMode 2
    gpioSetMode 3
    gpioSetMode 4
    gpioSetMode 5
    let dev ← sunxiMmcProbe
    if dev = false then do
      printf .probeFailed
      pure none
    else do
      mmcsdChange
      let plug ← mmcsdWaitCdChanged 5000
      if plug = .pluged then cardDetected else printf .noCard
      pure (some plug)

/-- `sd_thread_entry` up to its loop, after `rt_hw_tf_init`. -/
def sdThreadStart : MonM (Option Plug) := do
  match ← rtHwTfInit with
  | none => pure none
  | some plug => do
      rtThreadDelay
      pure (some plug)

/-- The branch for a status other than plugged and no card. -/
def askForCard (status : Plug) : MonM Plug := do
  mmcsdChange
  let plug ← mmcsdWaitCdChanged 5000
  if plug = .pluged then do
    cardDetected
    pure plug
  else
    pure status

/-- The branch for errors of a registered card. -/
def giveUpCard : MonM Plug := do
  printf .noCard
  mmcsdChange
  let plug ← mmcsdWaitCdChanged 5000
  let present ← card
  if present = false then printf .unmountOk else printf .unmountFailed
  setErr 0
  pure plug

/-- One iteration of the loop in `sd_thread_entry`, from and to a value of `status`. -/
def sdThreadIter (status : Plug) : MonM Plug := do
  let absent ← (if status ≠ .pluged then do
      let present ← card
      pure (!present)
    else pure false : MonM Bool)
  let status ← (if absent then askForCard status else do
      let n ← err
      let failing ← (if n > 10 then card else pure false : MonM Bool)
      if failing then giveUpCard else pure status : MonM Plug)
  rtThreadDelay
  pure status

/-! ## The machine -/

/-- What the threads share, and a record of what has become of the registered card. -/
structure World where
  /-- `host->card` is set. -/
  card : Bool
  err : Nat
  /-- What the monitor found when it last looked at `host->card`. -/
  found : Bool
  /-- The card has been announced as plugged since it was registered. -/
  announced : Bool
  /-- `dfs_mount` has been called since the card was registered. -/
  mounted : Bool
  /-- The card was registered outside a pass that asks for one, or its pass did not report it. -/
  late : Bool
  /-- Since the iteration began the same card has been registered and no command has failed. -/
  clean : Bool
  deriving DecidableEq, Repr

namespace World

/-- The core registers a card. -/
def register (w : World) (timely : Bool) : World :=
  { w with card := true, announced := false, mounted := false, late := !timely, clean := false }

/-- The core clears `host->card`. -/
def clear (w : World) : World :=
  { w with card := false, clean := false }

/-- A request leaves the error count at `n`. -/
def count (w : World) (n : Nat) : World :=
  { w with err := n, clean := w.clean && n = 0 }

/-- An iteration begins. -/
def iterate (w : World) : World :=
  { w with clean := w.card && w.err = 0 }

end World

/-- The accesses that a pass which asks for a card makes before it has announced one. -/
def Op.early : Op → Bool
  | .allocHost => true
  | .gpioSetMode _ => true
  | .probe => true
  | .mmcsdChange => true
  | .waitCdChanged _ => true
  | .printf .cardDetected => true
  | _ => false

/-- The monitor has found no card, has begun a pass that asks for one, and has not announced one. -/
def World.asking (w : World) (next : Option Op) : Bool :=
  !w.found && next.any Op.early

def access : Prog.Sem Op Op.Ret World
  | .waitCdChanged _, w, plug, w' =>
      w' = if !w.found && w.card && plug ≠ .pluged then { w with late := true } else w
  | .dfsMount, w, _, w' => w' = { w with mounted := true }
  | .card, w, present, w' => present = w.card ∧ w' = { w with found := present }
  | .err, w, n, w' => n = w.err ∧ w' = w
  | .setErr n, w, _, w' => w' = { w with err := n }
  | .printf .cardDetected, w, _, w' => w' = { w with announced := true }
  | _, w, _, w' => w' = w

/-- What the others may do: register a card, clear it, change the error count. -/
def core : Prog.Rely Op World :=
  fun next w w' => w' = w.register (w.asking next) ∨ w' = w.clear ∨ ∃ n, w' = w.count n

structure Sys where
  w : World
  th : MonM (Option Plug)

/-- The monitor makes an access or the others move; at the top of the loop an iteration begins. -/
inductive Step (sem : Prog.Sem Op Op.Ret World) (R : Prog.Rely Op World) : Sys → Sys → Prop
  | thread {w w' : World} {th th' : MonM (Option Plug)} :
      Prog.Step sem R (th, w) (th', w') → Step sem R ⟨w, th⟩ ⟨w', th'⟩
  | iterate {w : World} {status : Plug} :
      Step sem R ⟨w, pure (some status)⟩ ⟨w.iterate, some <$> sdThreadIter status⟩

abbrev Run (sem : Prog.Sem Op Op.Ret World) (R : Prog.Rely Op World) : Sys → Sys → Prop :=
  Relation.ReflTransGen (Step sem R)

/-- No host is there yet. -/
def start : Sys where
  w := ⟨false, 0, false, false, false, false, false⟩
  th := sdThreadStart

/-- The monitor stands at the top of its loop. -/
def Sys.AtTop (s : Sys) : Prop :=
  ∃ status, s.th = pure (some status)

/-! ## The condition -/

/-- The wait of a pass that asks for a card answers "plugged" if one has been registered. -/
def reporting : Prog.Sem Op Op.Ret World
  | .waitCdChanged t, w, plug, w' =>
      access (.waitCdChanged t) w plug w' ∧ (w.found = false → w.card = true → plug = .pluged)
  | o, w, r, w' => access o w r w'

/-- A card is registered only in a pass that asks for one, before it has announced one. -/
def timely : Prog.Rely Op World :=
  fun next w w' => (w.asking next = true ∧ w' = w.register true) ∨ w' = w.clear ∨
    ∃ n, w' = w.count n

/-! ## What holds along a pass -/

/-- A registered card has been announced and mounted exactly if it did not come late. -/
def Settled (w : World) : Prop :=
  w.card = true → (w.announced = true ∧ w.mounted = true ↔ w.late = false)

/-- In a pass before its announcement: a registered card has come in time and is not yet announced. -/
structure Pending (w : World) : Prop where
  found : w.found = false
  timely : w.card = true → w.late = false
  silent : w.card = true → w.announced = false

/-- In a pass between announcement and mount: a card that came after the announcement is late. -/
def Told (w : World) : Prop :=
  w.card = true → (w.announced = true ↔ w.late = false)

section Stability

variable {o : Op} {next : Option Op}

theorem stable_pending (ho : o.early = true) : Prog.Stable core (some o) Pending := by
  have hasking : ∀ w : World, w.found = false → w.asking (some o) = true := by
    intro w hfound
    rw [World.asking, hfound, Option.any_some, ho]
    rfl
  rintro w w' hw (rfl | rfl | ⟨n, rfl⟩)
  · rw [hasking w hw.found]
    exact ⟨hw.found, fun _ => rfl, fun _ => rfl⟩
  · have hgone : ¬ w.clear.card = true := Bool.false_ne_true
    exact ⟨hw.found, fun hcard => absurd hcard hgone, fun hcard => absurd hcard hgone⟩
  · exact ⟨hw.found, hw.timely, hw.silent⟩

/-- A card that is registered when the monitor is not asking for one is late. -/
theorem core_settled {w w' : World} (hasking : w.asking next = false) (hw : Settled w)
    (h : core next w w') : Settled w' := by
  rcases h with rfl | rfl | ⟨n, rfl⟩
  · rw [hasking]
    intro _
    exact ⟨fun h => absurd h.1 Bool.false_ne_true, fun h => absurd h Bool.false_ne_true.symm⟩
  · exact fun hcard => absurd hcard Bool.false_ne_true
  · exact hw

theorem stable_settled (hnext : next.any Op.early = false) : Prog.Stable core next Settled := by
  intro w w' hw h
  refine core_settled ?_ hw h
  rw [World.asking, hnext, Bool.and_false]

/-- In the branch for errors the monitor has found a card, so nothing it does there counts as asking. -/
theorem stable_settled_found : Prog.Stable core next fun w => Settled w ∧ w.found = true := by
  rintro w w' ⟨hw, hfound⟩ h
  refine ⟨core_settled ?_ hw h, ?_⟩
  · rw [World.asking, hfound]
    rfl
  · rcases h with rfl | rfl | ⟨n, rfl⟩ <;> exact hfound

theorem stable_told (ho : o.early = false) : Prog.Stable core (some o) Told := by
  have hasking : ∀ w : World, w.asking (some o) = false := by
    intro w
    rw [World.asking, Option.any_some, ho, Bool.and_false]
  rintro w w' hw (rfl | rfl | ⟨n, rfl⟩)
  · rw [hasking w]
    intro _
    exact ⟨fun h => absurd h Bool.false_ne_true, fun h => absurd h Bool.false_ne_true.symm⟩
  · exact fun hcard => absurd hcard Bool.false_ne_true
  · exact hw

end Stability

/-! ## The routines -/

section Rules

variable {α : Type} {o : Op} {k : o.Ret → MonM α} {P : World → Prop} {Q : α → World → Prop}
  {w : World}

/-- Every access is allowed: what is shown here is the state at the top of the loop. -/
abbrev anyAccess : Prog.Sem Op Op.Ret World := fun _ _ _ _ => True

/-- The rule for one access, with the assertion that it establishes. -/
theorem wp_access {T : o.Ret → World → Prop} (hst : Prog.Stable core (some o) P) (hw : P w)
    (hacc : ∀ t r t', P t → access o t r t' → T r t')
    (hk : ∀ r t, T r t → Prog.wp access core anyAccess (k r) Q t) :
    Prog.wp access core anyAccess (Prog.op o >>= k) Q w :=
  Prog.wp_call hst hw fun t r t' ht h => ⟨trivial, hk r t' (hacc t r t' ht h)⟩

/-- An access that changes nothing. -/
theorem wp_skip (hst : Prog.Stable core (some o) P) (hw : P w)
    (hacc : ∀ t r t', access o t r t' → t' = t)
    (hk : ∀ r t, P t → Prog.wp access core anyAccess (k r) Q t) :
    Prog.wp access core anyAccess (Prog.op o >>= k) Q w :=
  wp_access (T := fun _ => P) hst hw (fun t r t' ht h => hacc t r t' h ▸ ht) hk

theorem wp_settled_return (a : α) (hw : Settled w) :
    Prog.wp access core anyAccess (pure a) (fun _ => Settled) w :=
  Prog.wp_return (stable_settled rfl) hw fun _ h => h

/-- A message of which the record takes no notice. -/
theorem printf_settled {msg : Msg} (hmsg : (Op.printf msg).early = false) (hw : Settled w) :
    Prog.wp access core anyAccess (printf msg) (fun _ => Settled) w := by
  have hskip : ∀ t r t', access (.printf msg) t r t' → t' = t := by
    intro t r t' h
    cases msg <;> first | exact absurd hmsg (by decide) | exact h
  rw [← bind_pure (printf msg)]
  exact wp_skip (stable_settled hmsg) hw hskip fun r _ ht => wp_settled_return r ht

/-- Announcing and mounting a card settles the record. -/
theorem cardDetected_settled (hw : Pending w) :
    Prog.wp access core anyAccess cardDetected (fun _ => Settled) w := by
  have htold : ∀ t r t', Pending t → access (.printf .cardDetected) t r t' → Told t' := by
    rintro t r t' ht rfl hcard
    exact ⟨fun _ => ht.timely hcard, fun _ => rfl⟩
  have hmounted : ∀ t r t', Told t → access .dfsMount t r t' → Settled t' := by
    rintro t r t' htold rfl hcard
    exact (and_iff_left rfl).trans (htold hcard)
  refine wp_access (T := fun _ => Told) (stable_pending rfl) hw htold fun _ t ht => ?_
  refine wp_access (T := fun _ => Settled) (stable_told rfl) ht hmounted fun ret t ht => ?_
  split
  · exact printf_settled rfl ht
  · exact printf_settled rfl ht

/-- What the wait of a pass establishes: a card that it does not report is late. -/
def AfterWait (plug : Plug) (w : World) : Prop :=
  if plug = .pluged then Pending w else Settled w

theorem access_afterWait {timeout : Nat} {plug : Plug} {w' : World} (hw : Pending w)
    (h : access (.waitCdChanged timeout) w plug w') : AfterWait plug w' := by
  unfold AfterWait
  by_cases hplug : plug = .pluged
  · have hsame : w' = w := by simpa [access, hplug] using h
    rw [if_pos hplug, hsame]
    exact hw
  · rw [if_neg hplug]
    intro hcard
    cases hin : w.card with
    | true =>
        have hlate : w' = { w with late := true } := by simpa [access, hplug, hin, hw.found] using h
        rw [hlate]
        -- Not announced either, so neither side holds.
        have hsilent : ¬ w.announced = true := by simp [hw.silent hin]
        exact ⟨fun h => absurd h.1 hsilent, fun h => absurd h Bool.false_ne_true.symm⟩
    | false =>
        have hsame : w' = w := by simpa [access, hin] using h
        rw [hsame, hin] at hcard
        exact absurd hcard Bool.false_ne_true

/-- A pass: ask, wait, and announce and mount what the wait reports. -/
theorem pass_settled {f : Plug → MonM α} (hw : Pending w)
    (hdetected : ∀ t, Pending t → Prog.wp access core anyAccess (f .pluged) Q t)
    (hrest : ∀ plug t, plug ≠ .pluged → Settled t → Prog.wp access core anyAccess (f plug) Q t) :
    Prog.wp access core anyAccess (do mmcsdChange; let plug ← mmcsdWaitCdChanged 5000; f plug)
      Q w := by
  refine wp_skip (stable_pending rfl) hw (fun _ _ _ h => h) fun _ t ht => ?_
  refine wp_access (T := AfterWait) (stable_pending rfl) ht (fun _ _ _ => access_afterWait) ?_
  intro plug t ht
  by_cases hplug : plug = .pluged
  · rw [AfterWait, if_pos hplug] at ht
    rw [hplug]
    exact hdetected t ht
  · rw [AfterWait, if_neg hplug] at ht
    exact hrest plug t hplug ht

theorem askForCard_settled (status : Plug) (hw : Pending w) :
    Prog.wp access core anyAccess (askForCard status) (fun _ => Settled) w := by
  refine pass_settled hw (fun t ht => ?_) fun plug t hplug ht => ?_
  · rw [if_pos rfl]
    exact Prog.wp_seq (cardDetected_settled ht) fun _ _ ht => wp_settled_return _ ht
  · rw [if_neg hplug]
    exact wp_settled_return status ht

/-- After the monitor has found a card, nothing that it does makes a difference to the record. -/
theorem giveUpCard_settled (hw : Settled w) (hfound : w.found = true) :
    Prog.wp access core anyAccess giveUpCard (fun _ => Settled) w := by
  have hwait : ∀ t plug t', Settled t ∧ t.found = true → access (.waitCdChanged 5000) t plug t' →
      Settled t' := by
    rintro t plug t' ⟨ht, hfound⟩ h
    have hsame : t' = t := by simpa [access, hfound] using h
    exact hsame ▸ ht
  have hlook : ∀ t r t', Settled t → access .card t r t' → Settled t' := by
    rintro t r t' ht ⟨-, rfl⟩
    exact ht
  have hreset : ∀ t r t', Settled t → access (.setErr 0) t r t' → Settled t' := by
    rintro t r t' ht rfl
    exact ht
  refine wp_skip stable_settled_found ⟨hw, hfound⟩ (fun _ _ _ h => h) fun _ t ht => ?_
  refine wp_skip stable_settled_found ht (fun _ _ _ h => h) fun _ t ht => ?_
  refine wp_access (T := fun _ => Settled) stable_settled_found ht hwait fun plug t ht => ?_
  refine wp_access (T := fun _ => Settled) (stable_settled rfl) ht hlook fun present t ht => ?_
  have hclose : ∀ t, Settled t → Prog.wp access core anyAccess (do setErr 0; pure plug)
      (fun _ => Settled) t := fun t ht =>
    wp_access (T := fun _ => Settled) (stable_settled rfl) ht hreset fun _ _ ht =>
      wp_settled_return plug ht
  split
  · exact Prog.wp_seq (printf_settled rfl ht) fun _ t ht => hclose t ht
  · exact Prog.wp_seq (printf_settled rfl ht) fun _ t ht => hclose t ht

theorem delay_settled (a : α) (hw : Settled w) :
    Prog.wp access core anyAccess (do rtThreadDelay; pure a) (fun _ => Settled) w :=
  wp_skip (stable_settled rfl) hw (fun _ _ _ h => h) fun _ _ ht => wp_settled_return a ht

/-- The check for errors, where there is a card or the status is plugged. -/
theorem checkErr_settled (status : Plug) (hw : Settled w) :
    Prog.wp access core anyAccess (do
      let n ← err
      let failing ← (if n > 10 then card else pure false : MonM Bool)
      if failing then giveUpCard else pure status) (fun _ => Settled) w := by
  have hskip : ∀ t n t', access .err t n t' → t' = t := fun _ _ _ h => h.2
  have hlook : ∀ t present t', Settled t → access .card t present t' →
      Settled t' ∧ (present = true → t'.found = true) := by
    rintro t present t' ht ⟨-, rfl⟩
    exact ⟨ht, id⟩
  refine wp_skip (stable_settled rfl) hw hskip fun n t ht => ?_
  have hfailing : Prog.wp access core anyAccess (if n > 10 then card else pure false : MonM Bool)
      (fun failing t => Settled t ∧ (failing = true → t.found = true)) t := by
    split
    · rw [← bind_pure card]
      refine wp_access (T := fun present t => Settled t ∧ (present = true → t.found = true))
        (stable_settled rfl) ht hlook fun present t ht => ?_
      cases present with
      | true =>
          exact Prog.wp_return stable_settled_found ⟨ht.1, ht.2 rfl⟩ fun _ h => ⟨h.1, fun _ => h.2⟩
      | false => exact Prog.wp_return (stable_settled rfl) ht.1 fun _ h => ⟨h, nofun⟩
    · exact Prog.wp_return (stable_settled rfl) ht fun _ h => ⟨h, nofun⟩
  refine Prog.wp_seq hfailing fun failing t ht => ?_
  split
  · next hfail => exact giveUpCard_settled ht.1 (ht.2 hfail)
  · exact wp_settled_return status ht.1

/-- An iteration, whichever branch it takes. -/
theorem sdThreadIter_settled (status : Plug) (hw : Settled w) :
    Prog.wp access core anyAccess (sdThreadIter status) (fun _ => Settled) w := by
  have hlook : ∀ t present t', Settled t → access .card t present t' →
      if present = true then Settled t' else Pending t' := by
    rintro t present t' ht ⟨rfl, rfl⟩
    split
    · exact ht
    · next hcard =>
        have hgone : t.card = false := by simpa using hcard
        exact ⟨hgone, fun h => absurd h hcard, fun h => absurd h hcard⟩
  unfold sdThreadIter
  by_cases hplug : status ≠ .pluged
  · rw [if_pos hplug, bind_assoc]
    refine wp_access (T := fun present t => if present = true then Settled t else Pending t)
      (stable_settled rfl) hw hlook fun present t ht => ?_
    rw [pure_bind]
    cases present with
    | true =>
        exact Prog.wp_seq (checkErr_settled status ht) fun status _ ht => delay_settled status ht
    | false =>
        exact Prog.wp_seq (askForCard_settled status ht) fun status _ ht => delay_settled status ht
  · rw [if_neg hplug, pure_bind]
    exact Prog.wp_seq (checkErr_settled status hw) fun status _ ht => delay_settled status ht

/-- Where the monitor is not started nothing is to be shown. -/
theorem wp_failed (w : World) :
    Prog.wp access core anyAccess (pure none : MonM (Option Plug))
      (fun plug t => plug ≠ none → Settled t) w :=
  Prog.wp_return (P := fun _ => True) (fun _ _ _ _ => trivial) trivial fun _ _ h => absurd rfl h

theorem failed_settled (msg : Msg) :
    Prog.wp access core anyAccess (do printf msg; pure none : MonM (Option Plug))
      (fun plug t => plug ≠ none → Settled t) w :=
  wp_access (P := fun _ => True) (T := fun _ _ => True) (fun _ _ _ _ => trivial) trivial
    (fun _ _ _ _ _ => trivial) fun _ t _ => wp_failed t

/-- The pass of the initialisation. -/
theorem initPass_settled (hw : Pending w) :
    Prog.wp access core anyAccess (do
      mmcsdChange
      let plug ← mmcsdWaitCdChanged 5000
      if plug = .pluged then cardDetected else printf .noCard
      pure (some plug) : MonM (Option Plug)) (fun _ => Settled) w := by
  refine pass_settled hw (fun t ht => ?_) fun plug t hplug ht => ?_
  · rw [if_pos rfl]
    exact Prog.wp_seq (cardDetected_settled ht) fun _ _ ht => wp_settled_return _ ht
  · rw [if_neg hplug]
    exact Prog.wp_seq (printf_settled rfl ht) fun _ _ ht => wp_settled_return _ ht

theorem rtHwTfInit_settled (hw : Pending w) :
    Prog.wp access core anyAccess rtHwTfInit (fun plug t => plug ≠ none → Settled t) w := by
  have hgpio : ∀ pf {k : Unit → MonM (Option Plug)} {Q : Option Plug → World → Prop} {t : World},
      Pending t → (∀ t, Pending t → Prog.wp access core anyAccess (k ()) Q t) →
      Prog.wp access core anyAccess (gpioSetMode pf >>= k) Q t := fun pf _ _ _ ht hk =>
    wp_skip (o := .gpioSetMode pf) (stable_pending rfl) ht (fun _ _ _ h => h) fun _ t ht => hk t ht
  have hhost : ∀ t r t', access .allocHost t r t' → t' = t := fun _ _ _ h => h
  have hprobe : ∀ t r t', access .probe t r t' → t' = t := fun _ _ _ h => h
  refine wp_skip (stable_pending rfl) hw hhost fun host t ht => ?_
  split
  · exact failed_settled _
  · refine hgpio 0 ht fun t ht => hgpio 1 ht fun t ht => hgpio 2 ht fun t ht => ?_
    refine hgpio 3 ht fun t ht => hgpio 4 ht fun t ht => hgpio 5 ht fun t ht => ?_
    refine wp_skip (stable_pending rfl) ht hprobe fun dev t ht => ?_
    split
    · exact failed_settled _
    · exact Prog.wp_mono (fun _ _ h _ => h) (initPass_settled ht)

/-- From a machine without a host to the top of the loop, or to a failure. -/
theorem sdThreadStart_settled (hw : Pending w) :
    Prog.wp access core anyAccess sdThreadStart (fun plug t => plug ≠ none → Settled t) w := by
  refine Prog.wp_seq (rtHwTfInit_settled hw) fun plug t ht => ?_
  cases plug with
  | none => exact wp_failed t
  | some plug => exact Prog.wp_mono (fun _ _ h _ => h) (delay_settled (some plug) (ht nofun))

end Rules

/-! ## Runs -/

/-- What every reachable state of the system satisfies. -/
structure SysInv (s : Sys) : Prop where
  thread : Prog.wp access core anyAccess s.th (fun plug t => plug ≠ none → Settled t) s.w
  clean : s.w.clean = true → s.w.card = true

theorem SysInv.start : SysInv start :=
  ⟨sdThreadStart_settled ⟨rfl, nofun, nofun⟩, nofun⟩

/-- The record is clean only of a card that is still there. -/
theorem clean_step {w w' : World} {th th' : MonM (Option Plug)}
    (hw : w.clean = true → w.card = true)
    (hstep : Prog.Step access core (th, w) (th', w')) : w'.clean = true → w'.card = true := by
  cases hstep with
  | env h =>
      rcases h with rfl | rfl | ⟨n, rfl⟩
      · exact fun _ => rfl
      · exact nofun
      · intro hclean
        exact hw (Bool.and_eq_true_iff.1 hclean).1
  | @access o k _ _ r h =>
      have hsame : w'.clean = w.clean ∧ w'.card = w.card := by
        cases o with
        | waitCdChanged timeout =>
            simp only [Monitor.access] at h
            split at h <;> exact h ▸ ⟨rfl, rfl⟩
        | card =>
            rcases h with ⟨-, rfl⟩
            exact ⟨rfl, rfl⟩
        | err =>
            rcases h with ⟨-, rfl⟩
            exact ⟨rfl, rfl⟩
        | printf msg => cases msg <;> exact (h : w' = _) ▸ ⟨rfl, rfl⟩
        | _ => exact (h : w' = _) ▸ ⟨rfl, rfl⟩
      rw [hsame.1, hsame.2]
      exact hw

theorem SysInv.step {s s' : Sys} (hs : SysInv s) (hstep : Step access core s s') : SysInv s' := by
  cases hstep with
  | thread h => exact ⟨Prog.wp_steps hs.thread (.single h), clean_step hs.clean h⟩
  | @iterate w status =>
      have htop : Settled w := Prog.wp_ret hs.thread nofun
      have hiter : Settled w.iterate := htop
      refine ⟨?_, fun hclean => (Bool.and_eq_true_iff.1 hclean).1⟩
      exact Prog.wp_seq (sdThreadIter_settled status hiter) fun status _ ht =>
        Prog.wp_mono (fun _ _ h _ => h) (wp_settled_return (some status) ht)

theorem Run.inv {s : Sys} (h : Run access core start s) : SysInv s := by
  induction h with
  | refl => exact .start
  | tail _ hstep ih => exact ih.step hstep

theorem access_of_reporting (o : Op) (w : World) (r : o.Ret) (w' : World)
    (h : reporting o w r w') : access o w r w' := by
  cases o with
  | waitCdChanged timeout => exact h.1
  | _ => exact h

theorem core_of_timely (next : Option Op) (w w' : World) (h : timely next w w') :
    core next w w' := by
  rcases h with ⟨hasking, rfl⟩ | hothers
  · exact .inl (congrArg w.register hasking.symm)
  · exact .inr hothers

/-- A run that meets the condition is a run. -/
theorem Run.free {s s' : Sys} (h : Run reporting timely s s') : Run access core s s' := by
  refine Relation.ReflTransGen.mono ?_ _ _ h
  rintro s s' hstep
  cases hstep with
  | thread h => exact .thread (h.mono access_of_reporting core_of_timely)
  | iterate => exact .iterate

/-- Under the condition no step makes a card late. -/
theorem late_step {w w' : World} {th th' : MonM (Option Plug)} (hw : w.late = false)
    (hstep : Prog.Step reporting timely (th, w) (th', w')) : w'.late = false := by
  cases hstep with
  | env h => rcases h with ⟨-, rfl⟩ | rfl | ⟨n, rfl⟩ <;> first | exact hw | rfl
  | @access o k _ _ r h =>
      cases o with
      | waitCdChanged timeout =>
          rcases h with ⟨hacc, hreport⟩
          simp only [Monitor.access] at hacc
          split at hacc
          · next hmissed =>
              simp only [Bool.and_eq_true, Bool.not_eq_true', decide_eq_true_eq] at hmissed
              exact absurd (hreport hmissed.1.1 hmissed.1.2) hmissed.2
          · exact hacc ▸ hw
      | card => exact (h : _ ∧ _).2 ▸ hw
      | err => exact (h : _ ∧ _).2 ▸ hw
      | printf msg => cases msg <;> exact (h : w' = _) ▸ hw
      | _ => exact (h : w' = _) ▸ hw

/-- No card is late in such a run. -/
theorem Run.not_late {s : Sys} (h : Run reporting timely start s) : s.w.late = false := by
  induction h with
  | refl => rfl
  | tail _ hstep ih =>
      cases hstep with
      | thread h => exact late_step ih h
      | iterate => exact ih

/-- In every run: at the top of the loop a registered card has been announced and mounted, unless it
came late. -/
theorem settled_of_run {s : Sys} (hrun : Run access core start s) (htop : s.AtTop) :
    s.w.card = true → (s.w.announced = true ∧ s.w.mounted = true ↔ s.w.late = false) := by
  rcases htop with ⟨status, hth⟩
  have hthread := hrun.inv.thread
  rw [hth] at hthread
  exact Prog.wp_ret hthread nofun

/-- In every run whose cards are registered in passes that report them: at the top of the loop after
an iteration with a card and without errors, the card has been announced and mounted. -/
theorem mounted_of_run {s : Sys} (hrun : Run reporting timely start s) (htop : s.AtTop)
    (hclean : s.w.clean = true) : s.w.announced = true ∧ s.w.mounted = true :=
  (settled_of_run hrun.free htop (hrun.free.inv.clean hclean)).2 hrun.not_late

/-! ## Two runs -/

/-- Accesses on a working board on which every wait answers `plug`. -/
def outcome (plug : Plug) : (o : Op) → World → o.Ret × World
  | .allocHost, w => (true, w)
  | .gpioSetMode _, w => ((), w)
  | .probe, w => (true, w)
  | .mmcsdChange, w => ((), w)
  | .waitCdChanged _, w =>
      (plug, if !w.found && w.card && plug ≠ .pluged then { w with late := true } else w)
  | .dfsMount, w => (0, { w with mounted := true })
  | .card, w => (w.card, { w with found := w.card })
  | .err, w => (w.err, w)
  | .setErr n, w => ((), { w with err := n })
  | .printf .cardDetected, w => ((), { w with announced := true })
  | .printf _, w => ((), w)
  | .threadDelay, w => ((), w)

theorem access_outcome (plug : Plug) (o : Op) (w : World) :
    access o w (outcome plug o w).1 (outcome plug o w).2 := by
  cases o with
  | card => exact ⟨rfl, rfl⟩
  | err => exact ⟨rfl, rfl⟩
  | printf msg => cases msg <;> rfl
  | _ => rfl

theorem reporting_outcome (o : Op) (w : World) :
    reporting o w (outcome .pluged o w).1 (outcome .pluged o w).2 := by
  have h := access_outcome .pluged o w
  cases o with
  | waitCdChanged timeout => exact ⟨h, fun _ _ => rfl⟩
  | _ => exact h

/-- The core registers a card while the monitor waits for one. -/
def insert (o : Op) (w : World) : World :=
  if w.asking (some o) = true ∧ o = .waitCdChanged 5000 ∧ w.card = false then w.register true else w

theorem timely_insert (o : Op) (w : World) :
    Relation.ReflTransGen (timely (some o)) w (insert o w) := by
  unfold insert
  split
  · next h => exact .single (.inl ⟨h.1, rfl⟩)
  · exact .refl

theorem Run.of_steps {sem : Prog.Sem Op Op.Ret World} {R : Prog.Rely Op World}
    {c c' : MonM (Option Plug) × World} (h : Relation.ReflTransGen (Prog.Step sem R) c c') :
    Run sem R ⟨c.2, c.1⟩ ⟨c'.2, c'.1⟩ :=
  h.lift (fun c => (⟨c.2, c.1⟩ : Sys)) fun _ _ h => .thread h

/-- The wait of the initialisation reports the card that the core registers in it. -/
def inTime : Option Plug × World :=
  sdThreadStart.runOn (fun o w => outcome .pluged o (insert o w)) start.w

/-- An iteration with that card. -/
def inTimeIter : Option Plug × World :=
  (some <$> sdThreadIter .pluged).runOn (fun o w => outcome .pluged o (insert o w)) inTime.2.iterate

/-- Such a card has been announced and mounted. -/
theorem mounted_of_run_inTime :
    Run reporting timely start ⟨inTimeIter.2, pure inTimeIter.1⟩ ∧ inTimeIter.2.clean = true ∧
      inTimeIter.2.announced = true ∧ inTimeIter.2.mounted = true := by
  have hstart : Run reporting timely start ⟨inTime.2, pure inTime.1⟩ :=
    .of_steps (Prog.steps_runOn timely_insert reporting_outcome sdThreadStart start.w)
  have hiter : Run reporting timely ⟨inTime.2.iterate, some <$> sdThreadIter .pluged⟩
      ⟨inTimeIter.2, pure inTimeIter.1⟩ :=
    .of_steps (Prog.steps_runOn timely_insert reporting_outcome _ inTime.2.iterate)
  have hplug : inTime.1 = some .pluged := by decide
  rw [hplug] at hstart
  have hrun : Run reporting timely start ⟨inTimeIter.2, pure inTimeIter.1⟩ :=
    (hstart.tail .iterate).trans hiter
  have hclean : inTimeIter.2.clean = true := by decide
  have htop : inTimeIter.1 = some .pluged := by decide
  exact ⟨hrun, hclean, mounted_of_run hrun ⟨.pluged, congrArg pure htop⟩ hclean⟩

/-- The wait of the initialisation times out, and then the core registers a card. -/
def tooLate : Option Plug × World :=
  sdThreadStart.runOn (outcome (.error (-2))) start.w

/-- An iteration with that card. -/
def tooLateIter : Option Plug × World :=
  (some <$> sdThreadIter (.error (-2))).runOn (outcome (.error (-2)))
    (tooLate.2.register false).iterate

/-- The iteration finds the card, sees no error, and neither announces nor mounts it. -/
theorem late_unmounted :
    ∃ s, Run access core start s ∧ s.AtTop ∧ s.w.clean = true ∧
      s.w.announced = false ∧ s.w.mounted = false := by
  have hstill : ∀ o w, Relation.ReflTransGen (core (some o)) w w := fun _ _ => .refl
  have hstart : Run access core start ⟨tooLate.2, pure tooLate.1⟩ :=
    .of_steps (Prog.steps_runOn hstill (access_outcome (.error (-2))) sdThreadStart start.w)
  have hiter : Run access core
      ⟨(tooLate.2.register false).iterate, some <$> sdThreadIter (.error (-2))⟩
      ⟨tooLateIter.2, pure tooLateIter.1⟩ :=
    .of_steps (Prog.steps_runOn hstill (access_outcome (.error (-2))) _
      (tooLate.2.register false).iterate)
  have hplug : tooLate.1 = some (.error (-2)) := by decide
  rw [hplug] at hstart
  have hregister : Step access core ⟨tooLate.2, pure (some (.error (-2)))⟩
      ⟨tooLate.2.register false, pure (some (.error (-2)))⟩ := by
    refine .thread (.env (.inl ?_))
    rw [World.asking, Prog.pure_eq, Prog.next, Option.any_none, Bool.and_false]
  have hrun : Run access core start ⟨tooLateIter.2, pure tooLateIter.1⟩ :=
    ((hstart.tail hregister).tail .iterate).trans hiter
  have htop : tooLateIter.1 = some (.error (-2)) := by decide
  exact ⟨_, hrun, ⟨.error (-2), congrArg pure htop⟩, by decide, by decide, by decide⟩

end Monitor

end BspV3s
