import BspV3s.Emac.Separation

/-!
# Coherence — both rings behind the cache

The receive thread and the transmit thread run together on cached memory, with both DMA channels,
the cache fills and evicts lines whenever it likes, and the rest of the system may do anything that
leaves both rings alone.  Calls of `_emac_tx` are made while fewer
than 32 frames are outstanding.

`emac_coherent` says what each side sees of the other in the runs in which no completion falls
between the two stores that arm a descriptor; `emacTx_rearmed`, in the next module, is a run in
which one does.
-/

namespace BspV3s

namespace Emac

variable {D : Indev} {w w' : World}

/-! ## The system -/

/-- Both threads, the world they share, and what they have returned and accepted. -/
structure Net where
  w : World
  rx : Option (EmacM (Option Pbuf))
  tx : Option (TxFrame × EmacM Unit)
  returned : List Pbuf
  accepted : List TxFrame

inductive NetAct
  | noise
  | other
  | deliver
  | complete
  | rxCall
  | rxAccess
  | rxDone
  | txCall
  | txAccess
  | txDone
  deriving DecidableEq

inductive NetStep (D : Indev) : NetAct → Net → Net → Prop
  | noise {s : Net} {w' : World} : World.Noise s.w w' → NetStep D .noise s { s with w := w' }
  | other {s : Net} {w' : World} : RxSame D s.w w' → TxSame D s.w w' →
      NetStep D .other s { s with w := w' }
  | deliver {s : Net} (f : RxFrame) : CanDeliver s.w f → Plain f →
      NetStep D .deliver s { s with w := s.w.deliver f }
  | complete {s : Net} (status : U32) : CanComplete s.w status →
      NetStep D .complete s { s with w := s.w.complete status }
  | rxCall {s : Net} : s.rx = none → NetStep D .rxCall s { s with rx := some (emacRx D) }
  | rxAccess {s : Net} {o : Op} {k : o.Ret → EmacM (Option Pbuf)} {r : o.Ret} {w' : World} :
      s.rx = some (.call o k) → access cached True o s.w r w' →
      NetStep D .rxAccess s { s with w := w', rx := some (k r) }
  | rxDone {s : Net} {p : Option Pbuf} : s.rx = some (.ret p) →
      NetStep D .rxDone s { s with rx := none, returned := s.returned ++ p.toList }
  | txCall {s : Net} (p : Pbuf) : s.tx = none → p ≠ [] → p.flatten.length ≤ 2047 →
      NetStep D .txCall s { s with tx := some (p.flatten, emacTx D p) }
  | txAccess {s : Net} {f : TxFrame} {o : Op} {k : o.Ret → EmacM Unit} {r : o.Ret} {w' : World} :
      s.tx = some (f, .call o k) → access cached True o s.w r w' →
      NetStep D .txAccess s { s with w := w', tx := some (f, k r) }
  | txDone {s : Net} {f : TxFrame} : s.tx = some (f, .ret ()) →
      NetStep D .txDone s { s with tx := none, accepted := s.accepted ++ [f] }

/-- The initialisation of both rings. -/
def ringsInit (D : Indev) : EmacM Unit := do
  rxDescsInit D
  txDescsInit D

/-- Both rings have just been initialised, whatever the cache held before. -/
structure NetStart (D : Indev) (s : Net) : Prop where
  init : ∃ w₀, Relation.ReflTransGen (Prog.Step (access cached True) fun _ => World.Noise)
    (ringsInit D, w₀) (.ret (), s.w)
  rx : s.rx = none
  tx : s.tx = none
  returned : s.returned = []
  accepted : s.accepted = []

/-- Fewer than 32 frames are outstanding. -/
def NetAssumed : NetAct → Net → Prop
  | .txCall, s => s.accepted.length < s.w.sent.length + 32
  | _, _ => True

/-- Besides, the DMA does not complete a descriptor while its line is dirty or its status word is
about to be stored. -/
def NetMeets : NetAct → Net → Prop
  | .complete, s => Untouched (nextTx s.tx) s.w
  | a, s => NetAssumed a s

/-! ## Initialisation -/

theorem ringsInit_runs {w₀ : World}
    (hsteps : Relation.ReflTransGen (Prog.Step (access cached True) fun _ => World.Noise)
      (ringsInit D, w₀) (.ret (), w)) :
    (RxIdle D 0 w ∧ w.delivered = []) ∧ TxIdle D [] w ∧ w.sent = [] := by
  set R : Prog.Rely Op World := fun _ => World.Noise with hR
  set G : Prog.Sem Op Op.Ret World := fun _ _ _ _ => True with hG
  have hnoisy : Noisy R := fun _ _ _ hn => hn
  have hrx : ∀ t, Prog.wp (access cached True) R G (rxTableInit D) (fun _ t => RxTable D t) t :=
    fun t => Prog.wp_weaken (fun _ _ _ hn => .noise hn) (fun _ _ _ _ _ => trivial)
      (rxTableInit_spec t)
  -- What `tx_descs_init` does leaves the receive ring idle.
  have hframe : ∀ t, RxIdle D 0 t ∧ t.delivered = [] →
      Prog.wp (access cached True) R G (txTableInit D)
        (fun _ t => (RxIdle D 0 t ∧ t.delivered = []) ∧ TxTable D t) t := by
    intro t ht
    have hquiet : ∀ s s' : World, RxIdle D 0 s ∧ s.delivered = [] → RxQuiet D s s' →
        RxIdle D 0 s' ∧ s'.delivered = [] :=
      fun s s' hs hq => ⟨hs.1.env hq.env, hq.delivered.trans hs.2⟩
    refine Prog.wp_weaken (fun _ _ _ hn => hn) (fun _ _ _ _ _ => trivial)
      (Prog.wp_frame (G := txInitGuarantee D) ?_ ?_ ht
        (Prog.wp_weaken (fun _ _ _ hn => .noise hn) (fun _ _ _ _ hg => hg) (txTableInit_spec t)))
    · exact fun o s s' hs hn => hquiet s s' hs (.inl hn)
    · exact fun o s r s' hs hacc hg => hquiet s s' hs (hg.quiet hacc)
  have hwp : Prog.wp (access cached True) R G (ringsInit D)
      (fun _ t => (RxIdle D 0 t ∧ t.delivered = []) ∧ TxIdle D [] t ∧ t.sent = []) w₀ := by
    have hsteady : ∀ {P : World → Prop}, (∀ s s', P s → World.Noise s s' → P s') → Steady R P :=
      fun hP o s s' hs hn => hP s s' hs hn
    rw [ringsInit, rxDescsInit, txDescsInit, bind_assoc]
    refine Prog.wp_seq (hrx w₀) ?_
    intro _ t ht
    refine wp_act (P := RxTable D) (fun t => { t with rxCur := 0 }) (fun t r t' hacc => hacc)
      (fun s s' hs hn => steady_rxTable none s s' hs (.noise hn)) ht (fun _ _ _ => trivial) ?_
    intro t _ ht
    refine Prog.wp_seq (hframe _ ⟨⟨ht.ring.of_eq rfl rfl rfl, rfl⟩, ht.delivered⟩) ?_
    intro _ t ht
    rw [← bind_pure (setTxCurrdescnum _)]
    refine wp_act (P := fun t => (RxIdle D 0 t ∧ t.delivered = []) ∧ TxTable D t)
      (fun t => { t with txCur := 0 }) (fun t r t' hacc => hacc) ?_ ht (fun _ _ _ => trivial) ?_
    · intro s s' hs hn
      exact ⟨⟨hs.1.1.env (.noise hn), hn.delivered.trans hs.1.2⟩,
        steady_txTable none s s' hs.2 (.noise hn)⟩
    intro t _ ht
    refine wp_pure (P := fun t => (RxIdle D 0 t ∧ t.delivered = []) ∧ TxIdle D [] t ∧ t.sent = [])
      (hsteady ?_) ⟨⟨⟨ht.1.1.ring.of_eq rfl rfl rfl, ht.1.1.cur⟩, ht.1.2⟩,
        ⟨ht.2.ring.of_eq rfl rfl rfl, rfl⟩, ht.2.sent⟩ fun t ht => ht
    intro s s' hs hn
    exact ⟨⟨hs.1.1.env (.noise hn), hn.delivered.trans hs.1.2⟩,
      steady_txIdle none s s' hs.2.1 (.noise hn), (hn.txDrift D).sent.trans hs.2.2⟩
  have hret := simulated_cached.steps hnoisy (fun _ _ _ _ hn => ⟨trivial, hn⟩) trivial hwp hsteps
  have hdone := Prog.wp_ret hret.2
  exact hdone

/-! ## Runs -/

/-- Every state of a run: each thread is within its verified call, whatever the other does. -/
structure NetInv (D : Indev) (s : Net) : Prop where
  rx : RxThread D True s.returned.length s.rx s.w
  tx : TxThread D True s.accepted s.tx s.w
  order : RxOrder ⟨s.w, s.rx, s.returned⟩

variable {s₀ s s' : Net} {a : NetAct}

theorem RxOrder.of_delivered {th th' : Option (EmacM (Option Pbuf))} {rs : List Pbuf}
    (hs : RxOrder ⟨w, th, rs⟩) (hdl : w'.delivered = w.delivered) : RxOrder ⟨w', th', rs⟩ := by
  refine ⟨?_, ?_⟩
  · rw [hdl]
    exact hs.plain
  · rw [hdl]
    exact hs.fifo

/-- With frames of at most 2044 bytes no call discards a dirty line. -/
theorem RxOrder.clean {th : Option (EmacM (Option Pbuf))} {rs : List Pbuf} {h : ℕ} {o : Op}
    {r : o.Ret} (hs : RxOrder ⟨w, th, rs⟩) (hg : rxAccess D h o w r w') :
    ∀ a, o = .dcimvac a → w.m.dirty (a / 64) = false := by
  rintro a rfl
  rcases hg with ⟨-, hclean⟩ | ⟨f, hf, hlong⟩
  · exact hclean
  · have hplain := hs.plain f hf
    have hlen := hplain.length
    have hhigh := hplain.high
    omega

theorem NetStart.inv (hs : NetStart D s) : NetInv D s ∧ s.w.sent = [] := by
  rcases s with ⟨w, rx, tx, returned, accepted⟩
  rcases hs with ⟨⟨w₀, hsteps⟩, rfl, rfl, rfl, rfl⟩
  rcases ringsInit_runs hsteps with ⟨⟨hrx, hdl⟩, htx, hsent⟩
  dsimp only at hdl hsent
  refine ⟨⟨hrx, htx, ⟨?_, List.nil_prefix⟩⟩, hsent⟩
  intro f hf
  rw [hdl] at hf
  exact absurd hf (by simp)

theorem NetInv.step (hs : NetInv D s) (hmeets : NetMeets a s) (hstep : NetStep D a s s') :
    NetInv D s' := by
  have hmod : s.accepted.length % 32 < 32 := Nat.mod_lt _ (by omega)
  cases hstep with
  | noise hn =>
      exact ⟨hs.rx.env (.noise hn), hs.tx.env (.noise hn), hs.order.of_delivered hn.delivered⟩
  | other hrx htx =>
      exact ⟨hs.rx.env (.other hrx), hs.tx.env (.other htx), hs.order.of_delivered hrx.delivered⟩
  -- A delivery appends to what the other side has to account for.
  | deliver f hd hf =>
      refine ⟨hs.rx.env (.deliver f hd), hs.tx.env (.other (hs.rx.deliver_txSame hd)), ?_, ?_⟩
      · intro g hg
        rcases List.mem_append.1 hg with hg | hg
        · exact hs.order.plain g hg
        · exact List.mem_singleton.1 hg ▸ hf
      · exact hs.order.fifo.trans ((List.prefix_append _ _).map _)
  | complete status hc =>
      exact ⟨hs.rx.env (.other hs.tx.complete_rxSame), hs.tx.env (.complete status hc hmeets),
        hs.order.of_delivered rfl⟩
  | rxCall hth =>
      have hidle := hs.rx
      rw [hth] at hidle
      exact ⟨hidle.call, hs.tx, hs.order.of_delivered rfl⟩
  -- An access of one half is noise to the other.
  | rxAccess hth hacc =>
      have hcall := hs.rx
      rw [hth] at hcall
      rcases hcall.access simulated_cached trivial hacc with ⟨-, ⟨t, -, hg⟩, hnext⟩
      have hquiet := hg.quiet (hs.order.clean hg) hacc
      exact ⟨hnext, hs.tx.env hquiet.env, hs.order.of_delivered (hg.logs hacc).2⟩
  | rxDone hth =>
      have hret := hs.rx
      rw [hth] at hret
      rcases hs.order.concat hret with ⟨hfifo, hidle⟩
      exact ⟨hidle, hs.tx, hs.order.plain, hfifo⟩
  | txCall p hth hp hfit =>
      have hidle := hs.tx
      rw [hth] at hidle
      exact ⟨hs.rx, hidle.call hp hfit hmeets, hs.order⟩
  | txAccess hth hacc =>
      have hcall := hs.tx
      rw [hth] at hcall
      rcases hcall.access simulated_cached trivial hacc with ⟨-, -, ho, hnext⟩
      have hquiet : RxQuiet D _ _ := ho.quiet hmod hacc
      exact ⟨hs.rx.env hquiet.env, hnext, hs.order.of_delivered hquiet.delivered⟩
  | txDone hth =>
      have hret := hs.tx
      rw [hth] at hret
      exact ⟨hs.rx, hret.done, hs.order⟩

theorem NetInv.run (hstart : NetStart D s₀) (hrun : RunUnder (NetStep D) NetMeets s₀ s) :
    NetInv D s :=
  RunUnder.invariant (fun _ _ _ hs hmeets hstep => hs.step hmeets hstep) hstart.inv.1 hrun

/-! ## What each side sees of the other -/

/-- The access that the receive thread makes next. -/
def Net.nextRx (s : Net) : Option Op :=
  s.rx.bind Prog.next

/-- The frames that `_emac_tx` has been given. -/
def Net.given (s : Net) : List TxFrame :=
  s.accepted ++ (s.tx.map Prod.fst).toList

structure Coherent (D : Indev) (s : Net) : Prop where
  /-- A status word that is read with the own bit clear is the one in memory, and that of the
  oldest frame not yet returned. -/
  status : ∀ i < 32, s.nextRx = some (.load (D.rxChain i)) →
    own (s.w.m.view.read32 (D.rxChain i)) = false →
    s.w.m.view.read32 (D.rxChain i) = s.w.m.mem.read32 (D.rxChain i) ∧
      ∃ f, s.w.delivered[s.returned.length]? = some f ∧
        s.w.m.view.read32 (D.rxChain i) = f.status
  /-- The bytes read from the buffers are those in memory, -/
  payload : ∀ x, D.rxBuf 0 ≤ x → s.nextRx = some (.load8 x) → s.w.m.view x = s.w.m.mem x
  /-- and make up the delivered frames. -/
  returned : s.returned.map List.flatten <+: s.w.delivered.map RxFrame.bytes
  /-- A transmit descriptor that is armed in memory has the length and the bytes of a frame that
  was given for it. -/
  visible : Visible D s.given s.w
  /-- No invalidate discards a dirty line. -/
  discard : ∀ x, s.nextRx = some (.dcimvac x) ∨ nextTx s.tx = some (.dcimvac x) →
    s.w.m.dirty (x / 64) = false

/-- What the receive thread is about to do keeps to the guarantee of `_emac_rx`. -/
theorem NetInv.next_rx {o : Op} {r : o.Ret} (hs : NetInv D s) (ho : s.nextRx = some o)
    (hacc : access cached True o s.w r w') : rxAccess D s.returned.length o s.w r w' := by
  have hth := hs.rx
  rcases hrx : s.rx with - | p
  · rw [Net.nextRx, hrx] at ho
    exact absurd ho (by simp)
  · cases p with
    | ret p =>
        rw [Net.nextRx, hrx] at ho
        exact absurd ho (by simp [Prog.next])
    | call o' k =>
        have hoo : o' = o := by simpa [Net.nextRx, hrx, Prog.next] using ho
        subst hoo
        rw [hrx] at hth
        exact (hth.guarantee hacc).2

theorem NetInv.visible (hs : NetInv D s) : Visible D s.given s.w := by
  have hth := hs.tx
  rcases htx : s.tx with - | ⟨f, p⟩
  · rw [htx] at hth
    have hidle : TxIdle D s.accepted s.w := hth
    simpa [Net.given, htx] using hidle.ring.visible
  · rw [htx] at hth
    have hgiven : s.given = s.accepted ++ [f] := by simp [Net.given, htx]
    rw [hgiven]
    cases p with
    | call o k => exact hth.guarantee.1.visible
    | ret u => exact (TxThread.done hth : TxIdle D (s.accepted ++ [f]) s.w).ring.visible

theorem NetInv.coherent (hs : NetInv D s) : Coherent D s := by
  refine ⟨?_, ?_, hs.order.fifo, hs.visible, ?_⟩
  · intro i hi hnext hown
    have hg := hs.next_rx hnext (show access cached True _ _ _ _ from ⟨rfl, rfl⟩)
    exact hg i hi rfl hown
  · intro x hx hnext
    have hg := hs.next_rx hnext (show access cached True _ _ _ _ from ⟨rfl, rfl⟩)
    exact hg hx
  · rintro x (hnext | hnext)
    · have hg := hs.next_rx (r := ()) hnext (show access cached True _ _ _ _ from rfl)
      exact hs.order.clean hg x rfl
    · have hth := hs.tx
      rcases htx : s.tx with - | ⟨f, p⟩
      · rw [htx] at hnext
        exact absurd hnext (by simp [nextTx])
      · rw [htx] at hth hnext
        cases p with
        | ret u => exact absurd hnext (by simp [nextTx, Prog.next])
        | call o k =>
            have ho : o = .dcimvac x := by simpa [nextTx, Prog.next] using hnext
            subst ho
            exact hth.guarantee.2.2

/-- In every run in which no completion falls between the two stores that arm its descriptor, the
rings are coherent. -/
theorem emac_coherent (hstart : NetStart D s₀) (hrun : RunUnder (NetStep D) NetMeets s₀ s) :
    Coherent D s :=
  (NetInv.run hstart hrun).coherent

/-! ## Undisturbed runs -/

section Alone

variable {α : Type} {C : NetAct → Net → Prop} {rx : Option (EmacM (Option Pbuf))}
  {tx : Option (TxFrame × EmacM Unit)} {rs : List Pbuf} {acc : List TxFrame}

theorem noise_steps {s : Net} (hnoise : ∀ s, C .noise s)
    (h : Relation.ReflTransGen World.Noise s.w w') :
    RunUnder (NetStep D) C s { s with w := w' } := by
  induction h with
  | refl => exact .refl
  | tail _ hn ih => exact ih.tail (l := .noise) (hnoise _) (.noise hn)

/-- A part of a call of `_emac_tx`, on memory that is written back at once. -/
theorem net_runs {p : EmacM α} {a : α} {K : α → EmacM Unit} {f : TxFrame}
    (hnoise : ∀ s, C .noise s) (haccess : ∀ s, C .txAccess s) (hw : w.m.Uncached)
    (hrun : Prog.Runs (access direct True) p w a w') :
    RunUnder (NetStep D) C ⟨w, rx, some (f, p >>= K), rs, acc⟩
      ⟨w', rx, some (f, K a), rs, acc⟩ := by
  induction hrun with
  | ret a s => exact .refl
  | call hacc _ ih =>
      rcases simulated_direct.step hw hacc with ⟨t, hcached, hquiet, hun⟩
      exact .head (l := .txAccess) (haccess _) (.txAccess rfl hcached)
        ((noise_steps hnoise hquiet).trans (ih hun))

/-- A call of `_emac_rx`, likewise. -/
theorem net_runs_rx {q : EmacM (Option Pbuf)} {p : Option Pbuf}
    (hnoise : ∀ s, C .noise s) (haccess : ∀ s, C .rxAccess s) (hw : w.m.Uncached)
    (hrun : Prog.Runs (access direct True) q w p w') :
    RunUnder (NetStep D) C ⟨w, some q, tx, rs, acc⟩ ⟨w', some (.ret p), tx, rs, acc⟩ := by
  induction hrun with
  | ret p s => exact .refl
  | call hacc _ ih =>
      rcases simulated_direct.step hw hacc with ⟨t, hcached, hquiet, hun⟩
      exact .head (l := .rxAccess) (haccess _) (.rxAccess rfl hcached)
        ((noise_steps hnoise hquiet).trans (ih hun))

end Alone

theorem noise_env {α : Type} {p : EmacM α} (h : Relation.ReflTransGen World.Noise w w') :
    Relation.ReflTransGen (Prog.Step (access cached True) fun _ => World.Noise) (p, w) (p, w') := by
  induction h with
  | refl => exact .refl
  | tail _ hn ih => exact ih.tail (.env hn)

/-- A routine that runs alone on direct memory, on cached memory whose cache writes everything back
at once. -/
theorem cached_steps {α : Type} {p : EmacM α} {a : α} (hw : w.m.Uncached)
    (hrun : Prog.Runs (access direct True) p w a w') :
    w'.m.Uncached ∧ Relation.ReflTransGen (Prog.Step (access cached True) fun _ => World.Noise)
      (p, w) (.ret a, w') := by
  induction hrun with
  | ret a s => exact ⟨hw, .refl⟩
  | call hacc _ ih =>
      rcases simulated_direct.step hw hacc with ⟨t, hcached, hnoise, hun⟩
      rcases ih hun with ⟨hun', hrest⟩
      exact ⟨hun', .head (.access hcached) ((noise_env hnoise).trans hrest)⟩

theorem exists_netStart (D : Indev) : ∃ w₀ w, w₀.m.Uncached ∧
    Prog.Runs (access direct True) (ringsInit D) w₀ () w ∧ NetStart D ⟨w, none, none, [], []⟩ := by
  rcases Prog.exists_runs (exists_access direct True) (ringsInit D) World.reset with ⟨_, w, hrun⟩
  have hreset : World.reset.m.Uncached := rfl
  exact ⟨_, w, hreset, hrun, ⟨_, (cached_steps hreset hrun).2⟩, rfl, rfl, rfl, rfl⟩

/-- A call of `_emac_tx` that nobody disturbs. -/
theorem NetInv.exists_send {rx : Option (EmacM (Option Pbuf))} {rs : List Pbuf}
    {acc : List TxFrame} {p : Pbuf} (hs : NetInv D ⟨w, rx, none, rs, acc⟩) (hw : w.m.Uncached)
    (hp : p ≠ []) (hfit : p.flatten.length ≤ 2047) (hroom : acc.length < w.sent.length + 32) :
    ∃ w', RunUnder (NetStep D) NetMeets ⟨w, rx, none, rs, acc⟩
        ⟨w', rx, none, rs, acc ++ [p.flatten]⟩ ∧
      w'.m.Uncached ∧ w'.sent = w.sent ∧ w'.delivered = w.delivered := by
  rcases Prog.exists_runs (exists_access direct True) (emacTx D p) w with ⟨u, w', hrun⟩
  have hcalled : TxThread D True acc (some (p.flatten, emacTx D p)) w := hs.tx.call hp hfit hroom
  have hlogs := hcalled.runs_logs hw hrun
  have hsteps : RunUnder (NetStep D) NetMeets
      ⟨w, rx, some (p.flatten, emacTx D p >>= .ret), rs, acc⟩
      ⟨w', rx, some (p.flatten, .ret u), rs, acc⟩ :=
    net_runs (fun _ => trivial) (fun _ => trivial) hw hrun
  rw [Prog.bind_ret] at hsteps
  have hcall : NetStep D .txCall ⟨w, rx, none, rs, acc⟩
      ⟨w, rx, some (p.flatten, emacTx D p), rs, acc⟩ := .txCall p rfl hp hfit
  have hmeets : NetMeets .txCall ⟨w, rx, none, rs, acc⟩ := hroom
  have hsent := RunUnder.head hmeets hcall hsteps
  exact ⟨w', hsent.tail (l := NetAct.txDone) trivial (.txDone rfl), (cached_steps hw hrun).1, hlogs⟩

/-- A frame that has been accepted is sent. -/
theorem NetInv.exists_complete {rx : Option (EmacM (Option Pbuf))} {rs : List Pbuf} {f : TxFrame}
    (hs : NetInv D ⟨w, rx, none, rs, [f]⟩) (hw : w.m.Uncached) (hsent : w.sent = [])
    (htxRun : w.txRun = true) :
    RunUnder (NetStep D) NetMeets ⟨w, rx, none, rs, [f]⟩ ⟨w.complete 0, rx, none, rs, [f]⟩ ∧
      (w.complete 0).sent = [f] := by
  have hidle : TxIdle D [f] w := hs.tx
  -- The channel stands at the descriptor of the frame, which is armed and whose line is clean.
  have hslot := hidle.ring.slots 0 (by simp [hsent]) (by omega) (Set.notMem_empty _)
  have hdma : w.txDma = D.txChain 0 := by
    rw [hidle.ring.dma, hsent]
    rfl
  have hcan : CanComplete w 0 := ⟨htxRun, hdma ▸ (hslot.queued f rfl).armed, by decide⟩
  have hmeets : NetMeets .complete ⟨w, rx, none, rs, [f]⟩ :=
    show Untouched (nextTx none) w from ⟨hw.dirty _, fun v => by simp [nextTx]⟩
  have hstep : NetStep D .complete ⟨w, rx, none, rs, [f]⟩ ⟨w.complete 0, rx, none, rs, [f]⟩ :=
    .complete 0 hcan
  have hidle' : TxIdle D [f] (w.complete 0) := (hs.step hmeets hstep).tx
  have hlen : (w.complete 0).sent.length = [f].length := by simp [World.complete, hsent]
  exact ⟨RunUnder.refl.tail hmeets hstep, hidle'.ring.log.eq_of_length hlen⟩

/-- One frame is sent and another received, each through a whole call. -/
theorem emac_coherent_exchange : ∃ w p, Coherent Indev.sdram ⟨w, none, none, [p], [[7]]⟩ ∧
    w.sent = [[7]] ∧ w.delivered = [⟨0x00400000, List.replicate 64 8⟩] ∧
      p.flatten = List.replicate 64 8 := by
  set g : RxFrame := ⟨0x00400000, List.replicate 64 8⟩
  rcases exists_netStart Indev.sdram with ⟨w₀, w, hw₀, hinit, hstart⟩
  have hw := (cached_steps hw₀ hinit).1
  have hdl : w.delivered = [] := (ringsInit_runs (cached_steps hw₀ hinit).2).1.2
  have hsent : w.sent = [] := hstart.inv.2
  rcases hstart.inv.1.exists_send (p := [[7]]) hw (by simp) (by simp) (by simp) with
    ⟨w₁, hsend, hw₁, hsent₁, hdl₁⟩
  -- Both channels run by now, and each takes its descriptor.
  set w₂ : World := { w₁ with rxRun := true, txRun := true }
  have hother : NetStep Indev.sdram .other ⟨w₁, none, none, [], [[7]]⟩ ⟨w₂, none, none, [], [[7]]⟩ :=
    .other (.of_memory rfl rfl rfl rfl) (.of_memory rfl rfl rfl rfl)
  have hreach₂ := hsend.tail (l := NetAct.other) trivial hother
  rcases (NetInv.run hstart hreach₂).exists_complete hw₁ (hsent₁.trans hsent) rfl with
    ⟨hcomplete, hsent₃⟩
  have hreach₃ := hreach₂.trans hcomplete
  have hidle₃ : RxIdle Indev.sdram 0 (w₂.complete 0) := (NetInv.run hstart hreach₃).rx
  have hdl₃ : (w₂.complete 0).delivered = [] := hdl₁.trans hdl
  have hcan : CanDeliver (w₂.complete 0) g :=
    hidle₃.canDeliver rfl (by rw [hdl₃]; simp) (by decide) (by decide)
  have hplain : Plain g := ⟨by decide, by decide, by decide⟩
  set w₄ := (w₂.complete 0).deliver g
  have hw₄ : w₄.m.Uncached := hw₁
  have hreach₄ := hreach₃.tail (l := NetAct.deliver) trivial (.deliver g hcan hplain)
  have hdl₄ : w₄.delivered = [g] := congrArg (· ++ [g]) hdl₃
  -- The call returns what has been delivered.
  have hidle₄ : RxIdle Indev.sdram 0 w₄ := (NetInv.run hstart hreach₄).rx
  rcases exists_rxReturn (f := g) hw₄ hidle₄ (by rw [hdl₄]; rfl) (by decide)
    with ⟨p, w₅, hreturn, hsent₅, hlog⟩
  have hcall : NetStep Indev.sdram .rxCall ⟨w₄, none, none, [], [[7]]⟩
      ⟨w₄, some (emacRx Indev.sdram), none, [], [[7]]⟩ := .rxCall rfl
  have hreceive : RunUnder (NetStep Indev.sdram) NetMeets
      ⟨w₄, some (emacRx Indev.sdram), none, [], [[7]]⟩ ⟨w₅, some (.ret (some p)), none, [], [[7]]⟩ :=
    net_runs_rx (fun _ => trivial) (fun _ => trivial) hw₄ hreturn
  have hcoherent := emac_coherent hstart (((hreach₄.tail (l := NetAct.rxCall) trivial hcall).trans
    hreceive).tail (l := NetAct.rxDone) trivial (.rxDone rfl))
  refine ⟨w₅, p, hcoherent, hsent₅.trans hsent₃, hlog.trans hdl₄, ?_⟩
  have hreturned := hcoherent.returned
  rw [hlog, hdl₄] at hreturned
  exact (List.cons_prefix_cons.1 hreturned).1

end Emac

end BspV3s
