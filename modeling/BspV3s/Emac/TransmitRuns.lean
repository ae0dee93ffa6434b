import BspV3s.Lib.Runs
import BspV3s.Emac.Init

/-!
# TransmitRuns — the transmit ring over whole runs

One thread calls `_emac_tx` again and again.  Between any two accesses of a call the DMA may
complete descriptors, and the rest of the system may do what it likes outside the transmit ring.

The code neither looks whether the descriptor it is about to use has been sent, nor keeps the DMA
from taking a descriptor before its status word is stored.  `emacTx_order` is what holds in the runs
in which neither matters, and `emacTx_overwrites` a run in which the first does.
-/

namespace BspV3s

namespace Emac

variable {D : Indev} {canFail : Prop} {w w' : World} {acc : List TxFrame} {f : TxFrame} {i c : ℕ}

/-! ## The transmit thread -/

/-- The transmit thread between two calls, or inside the call that sends a frame. -/
def TxThread (D : Indev) (canFail : Prop) (acc : List TxFrame) :
    Option (TxFrame × EmacM Unit) → World → Prop
  | none, w => TxIdle D acc w
  | some (f, p), w => txWp D acc f canFail p (fun _ t => TxIdle D (acc ++ [f]) t) w

/-- The access that the transmit thread makes next. -/
def nextTx (th : Option (TxFrame × EmacM Unit)) : Option Op :=
  th.bind fun t => t.2.next

theorem TxThread.env {th : Option (TxFrame × EmacM Unit)} (hth : TxThread D canFail acc th w)
    (he : TxEnv D (nextTx th) w w') : TxThread D canFail acc th w' := by
  rcases th with - | ⟨f, p⟩
  · exact steady_txIdle none _ _ hth he
  · exact Prog.wp_env hth he

theorem TxThread.call {p : Pbuf} (hth : TxThread D canFail acc none w) (hp : p ≠ [])
    (hfit : p.flatten.length ≤ 2047) (hroom : acc.length < w.sent.length + 32) :
    TxThread D canFail acc (some (p.flatten, emacTx D p)) w :=
  emacTx_spec hp hfit hroom hth

theorem TxThread.done (hth : TxThread D canFail acc (some (f, .ret ())) w) :
    TxThread D canFail (acc ++ [f]) none w := by
  have hret : Prog.wp _ _ _ (Prog.ret ()) (fun _ t => TxIdle D (acc ++ [f]) t) w := hth
  have hidle := Prog.wp_ret hret
  exact hidle

section Access

variable {M : MemSys} {ok : CMem → Prop} {o : Op} {k : o.Ret → EmacM Unit} {r : o.Ret}

theorem TxThread.access (hM : Simulated M ok) (hok : ok w.m)
    (hth : TxThread D canFail acc (some (f, .call o k)) w) (hacc : access M canFail o w r w') :
    ok w'.m ∧ TxSafe D acc f w ∧ txAccess D (acc.length % 32) o w ∧
      TxThread D canFail acc (some (f, k r)) w' := by
  rcases hM.wp noisy_txRely hok hth hacc with ⟨hok', ⟨t, hsafe, ho⟩, hk⟩
  exact ⟨hok', hsafe, ho, hk⟩

theorem TxThread.guarantee (hth : TxThread D canFail acc (some (f, .call o k)) w) :
    TxSafe D acc f w ∧ txAccess D (acc.length % 32) o w := by
  rcases exists_access cached canFail o w with ⟨r, t, hacc⟩
  exact (Prog.wp_step hth hacc).1

/-- A call touches neither log. -/
theorem txAccess.logs (ho : txAccess D c o w) (hacc : Emac.access M canFail o w r w') :
    w'.sent = w.sent ∧ w'.delivered = w.delivered := by
  cases hacts : o.acts with
  | false =>
      rcases access_passive hacts hacc with ⟨m, rfl, -⟩
      exact ⟨rfl, rfl⟩
  | true =>
      cases o with
      | writel reg v =>
          rcases ho with ⟨rfl, -⟩
          cases hacc
          exact ⟨rfl, rfl⟩
      | store a v => cases hacc; exact ⟨rfl, rfl⟩
      | store8 a b => cases hacc; exact ⟨rfl, rfl⟩
      | dcimvac a => cases hacc; exact ⟨rfl, rfl⟩
      | setRxCurrdescnum v => cases hacc; exact ⟨rfl, rfl⟩
      | setTxCurrdescnum v => cases hacc; exact ⟨rfl, rfl⟩
      | _ => exact absurd hacts (by simp [Op.acts])

/-- Alone, a call sends nothing and delivers nothing. -/
theorem TxThread.runs_logs {p : EmacM Unit} {u : Unit} (hw : w.m.Uncached)
    (hth : TxThread D canFail acc (some (f, p)) w)
    (hrun : Prog.Runs (Emac.access direct canFail) p w u w') :
    w'.sent = w.sent ∧ w'.delivered = w.delivered := by
  induction hrun with
  | ret => exact ⟨rfl, rfl⟩
  | call hacc _ ih =>
      rcases hth.access simulated_direct hw hacc with ⟨hw', -, ho, hth'⟩
      rcases ih hw' hth' with ⟨hsent, hdl⟩
      rcases ho.logs hacc with ⟨hsent₀, hdl₀⟩
      exact ⟨hsent.trans hsent₀, hdl.trans hdl₀⟩

/-- Address `x` belongs to the descriptor or to the buffer with index `i`. -/
def OfSlot (D : Indev) (i x : ℕ) : Prop :=
  D.txChain i ≤ x ∧ x < D.txChain i + 16 ∨ D.txBuf i ≤ x ∧ x < D.txBuf i + 2048

/-- A call that works on descriptor `c` changes no other descriptor and no other buffer. -/
theorem txAccess.mem (ho : txAccess D c o w) (hacc : Emac.access direct canFail o w r w')
    (hi : i < 32) (hc : c < 32) (hic : i ≠ c) {x : ℕ} (hx : OfSlot D i x) :
    w'.m.mem x = w.m.mem x := by
  have halign := D.aligned
  have hline : ∀ (a : ℕ) (g : Mem → Mem), x / 64 ≠ a / 64 →
      ({ w with m := direct.write w.m (a / 64) g } : World).m.mem x = w.m.mem x :=
    fun a g hne => if_neg hne
  cases hacts : o.acts with
  | false => rw [access_passive_direct hacts hacc]
  | true =>
      -- Two accesses store, and both into the lines of the slot `c`.
      cases o with
      | store a v =>
          cases hacc
          have ha : a / 64 = D.txChain c / 64 := ho
          refine hline a (fun m => m.write32 a v) ?_
          rw [ha]
          rcases hx with ⟨hlo, hhi⟩ | ⟨hlo, hhi⟩ <;> simp only [Indev.txChain, Indev.txBuf] at * <;>
            omega
      | store8 a b =>
          cases hacc
          have ha : D.txBuf c ≤ a ∧ a < D.txBuf c + 2048 := ho
          refine hline a (fun m => m.writeBytes a [b]) ?_
          rcases hx with ⟨hlo, hhi⟩ | ⟨hlo, hhi⟩ <;> simp only [Indev.txChain, Indev.txBuf] at * <;>
            omega
      | writel reg v =>
          cases hacc
          rw [World.m_writel]
      | dcimvac a => cases hacc; rfl
      | setRxCurrdescnum v => cases hacc; rfl
      | setTxCurrdescnum v => cases hacc; rfl
      | _ => exact absurd hacts (by simp [Op.acts])

end Access

/-- `tx_descs_init` leaves the empty ring. -/
theorem txDescsInit_runs (hw : w.m.Uncached)
    (hrun : Prog.Runs (access direct canFail) (txDescsInit D) w () w') :
    w'.m.Uncached ∧ TxIdle D [] w' ∧ w'.sent = [] := by
  rcases Prog.runs_bind_inv hrun with ⟨_, t, htable, hcur⟩
  rcases simulated_direct.runs noisy_txInitRely hw (txTableInit_spec w) htable with ⟨hun, ht⟩
  cases hcur with
  | call hacc hret =>
      cases hacc
      cases hret
      exact ⟨hun, ⟨ht.ring.of_eq rfl rfl rfl, rfl⟩, ht.sent⟩

/-! ## Runs -/

/-- The transmit thread, the world it works in, and the frames that its calls have accepted. -/
structure TxSys where
  w : World
  thread : Option (TxFrame × EmacM Unit)
  accepted : List TxFrame

/-- Who moves. -/
inductive TxAct
  | complete
  | other
  | call
  | access
  | done
  deriving DecidableEq

inductive TxStep (D : Indev) : TxAct → TxSys → TxSys → Prop
  | complete {w : World} {th : Option (TxFrame × EmacM Unit)} {acc : List TxFrame} (status : U32) :
      CanComplete w status → TxStep D .complete ⟨w, th, acc⟩ ⟨w.complete status, th, acc⟩
  | other {w w' : World} {th : Option (TxFrame × EmacM Unit)} {acc : List TxFrame} :
      TxSame D w w' → w'.m.Uncached → TxStep D .other ⟨w, th, acc⟩ ⟨w', th, acc⟩
  | call {w : World} {acc : List TxFrame} (p : Pbuf) : p ≠ [] → p.flatten.length ≤ 2047 →
      TxStep D .call ⟨w, none, acc⟩ ⟨w, some (p.flatten, emacTx D p), acc⟩
  | access {w w' : World} {o : Op} {k : o.Ret → EmacM Unit} {r : o.Ret} {f : TxFrame}
      {acc : List TxFrame} : access direct True o w r w' →
      TxStep D .access ⟨w, some (f, .call o k), acc⟩ ⟨w', some (f, k r), acc⟩
  | done {w : World} {f : TxFrame} {acc : List TxFrame} :
      TxStep D .done ⟨w, some (f, .ret ()), acc⟩ ⟨w, none, acc ++ [f]⟩

/-- `tx_descs_init` has just run, on memory that is not cached. -/
structure TxStart (D : Indev) (s : TxSys) : Prop where
  init : ∃ w₀, w₀.m.Uncached ∧ Prog.Runs (access direct True) (txDescsInit D) w₀ () s.w
  thread : s.thread = none
  accepted : s.accepted = []

/-- Calls are made while fewer than 32 accepted frames are unsent, and the DMA does not complete a
descriptor whose status word the thread is just about to store. -/
def TxMeets : TxAct → TxSys → Prop
  | .call, s => s.accepted.length < s.w.sent.length + 32
  | .complete, s => ∀ v, nextTx s.thread ≠ some (.store s.w.txDma v)
  | _, _ => True

/-- Every state of such a run. -/
structure TxInv (D : Indev) (s : TxSys) : Prop where
  memory : s.w.m.Uncached
  thread : TxThread D True s.accepted s.thread s.w

variable {s₀ s s' : TxSys}

theorem TxStart.inv (hs : TxStart D s) : TxInv D s ∧ s.w.sent = [] := by
  rcases s with ⟨w, th, acc⟩
  rcases hs with ⟨⟨w₀, hw, hrun⟩, rfl, rfl⟩
  rcases txDescsInit_runs hw hrun with ⟨hun, hidle, hsent⟩
  exact ⟨⟨hun, hidle⟩, hsent⟩

theorem TxInv.step {a : TxAct} (hs : TxInv D s) (hmeets : TxMeets a s) (hstep : TxStep D a s s') :
    TxInv D s' := by
  cases hstep with
  | complete status hc =>
      have huntouched : Untouched (nextTx _) _ := ⟨hs.memory.dirty _, hmeets⟩
      exact ⟨hs.memory.setMem _, hs.thread.env (.complete status hc huntouched)⟩
  | other hsame hun => exact ⟨hun, hs.thread.env (.other hsame)⟩
  | call p hp hfit => exact ⟨hs.memory, hs.thread.call hp hfit hmeets⟩
  | access hacc =>
      rcases hs.thread.access simulated_direct hs.memory hacc with ⟨hun, -, -, hth⟩
      exact ⟨hun, hth⟩
  | done => exact ⟨hs.memory, hs.thread.done⟩

theorem TxInv.run (hstart : TxStart D s₀) (hrun : RunUnder (TxStep D) TxMeets s₀ s) : TxInv D s :=
  RunUnder.invariant (fun _ _ _ hs hmeets hstep => hs.step hmeets hstep) hstart.inv.1 hrun

/-- The frame in hand. -/
def TxSys.inHand (s : TxSys) : List TxFrame :=
  (s.thread.map Prod.fst).toList

/-- No queued frame is overwritten, and the frames are sent in the order of acceptance. -/
structure TxOrder (D : Indev) (s : TxSys) : Prop where
  sent : s.w.sent <+: s.accepted ++ s.inHand
  kept : ∀ s', TxStep D .access s s' → ∀ k, s.w.sent.length ≤ k → k < s.accepted.length →
    ∀ x, OfSlot D (k % 32) x → s'.w.m.mem x = s.w.m.mem x

theorem TxInv.order (hs : TxInv D s) : TxOrder D s := by
  rcases s with ⟨w, th, acc⟩
  refine ⟨?_, ?_⟩
  · rcases th with - | ⟨f, p⟩
    · have hidle : TxIdle D acc w := hs.thread
      simpa [TxSys.inHand] using hidle.ring.log
    · cases p with
      | ret u => exact (TxThread.done hs.thread : TxIdle D (acc ++ [f]) w).ring.log
      | call o k => exact hs.thread.guarantee.1.log
  · intro s' hstep k hlo hhi x hx
    cases hstep with
    | access hacc =>
        rcases hs.thread.access simulated_direct hs.memory hacc with ⟨-, hsafe, ho, -⟩
        have hroom := hsafe.room
        dsimp only at hlo hhi hroom
        have hne : k % 32 ≠ acc.length % 32 := by
          omega
        exact ho.mem hacc (Nat.mod_lt _ (by omega)) (Nat.mod_lt _ (by omega)) hne hx

/-- In every run in which calls are made while the ring has room and no completion falls just before
the store of its status word, no queued frame is overwritten and the frames are sent in order. -/
theorem emacTx_order (hstart : TxStart D s₀) (hrun : RunUnder (TxStep D) TxMeets s₀ s) :
    TxOrder D s :=
  (TxInv.run hstart hrun).order

/-! ## A full ring -/

/-- A call that nobody disturbs, as part of a run. -/
theorem runUnder_call {p : EmacM Unit} {u : Unit}
    (hrun : Prog.Runs (access direct True) p w u w') :
    RunUnder (TxStep D) TxMeets ⟨w, some (f, p), acc⟩ ⟨w', some (f, .ret ()), acc⟩ := by
  induction hrun with
  | ret u s => exact .refl
  | call hacc _ ih => exact .head (l := .access) trivial (.access hacc) ih

theorem TxInv.exists_call {p : Pbuf} (hs : TxInv D ⟨w, none, acc⟩) (hp : p ≠ [])
    (hfit : p.flatten.length ≤ 2047) (hroom : acc.length < w.sent.length + 32) :
    ∃ w', RunUnder (TxStep D) TxMeets ⟨w, none, acc⟩ ⟨w', none, acc ++ [p.flatten]⟩ ∧
      w'.sent = w.sent := by
  rcases Prog.exists_runs (exists_access direct True) (emacTx D p) w with ⟨u, w', hrun⟩
  have hcalled := hs.step (a := .call) hroom (.call p hp hfit)
  have hsent := (hcalled.thread.runs_logs hs.memory hrun).1
  refine ⟨w', ?_, hsent⟩
  exact (RunUnder.head (l := .call) hroom (.call p hp hfit) (runUnder_call hrun)).tail (l := .done)
    trivial .done

/-- Up to 32 frames of one byte can be accepted before any is sent. -/
theorem exists_txQueued (D : Indev) {n : ℕ} (hn : n ≤ 32) :
    ∃ s₀ w, TxStart D s₀ ∧
      RunUnder (TxStep D) TxMeets s₀ ⟨w, none, List.replicate n [0]⟩ ∧ w.sent = [] := by
  induction n with
  | zero =>
      rcases Prog.exists_runs (exists_access direct True) (txDescsInit D) World.reset with
        ⟨_, w, hrun⟩
      have hreset : World.reset.m.Uncached := rfl
      exact ⟨⟨w, none, []⟩, w, ⟨⟨_, hreset, hrun⟩, rfl, rfl⟩, .refl,
        (txDescsInit_runs hreset hrun).2.2⟩
  | succ n ih =>
      rcases ih (by omega) with ⟨s₀, w, hstart, hrun, hsent⟩
      have hroom : (List.replicate n ([0] : TxFrame)).length < w.sent.length + 32 := by
        rw [List.length_replicate, hsent]
        simp
        omega
      rcases (TxInv.run hstart hrun).exists_call (p := [[0]]) (by simp) (by simp) hroom with
        ⟨w', hcall, hsent'⟩
      refine ⟨s₀, w', hstart, ?_, hsent'.trans hsent⟩
      rw [List.replicate_succ']
      exact hrun.trans hcall

/-- The run that fills the ring. -/
theorem emacTx_order_full : ∃ w, w.sent = [] ∧
    TxOrder Indev.sdram ⟨w, none, List.replicate 32 [0]⟩ := by
  rcases exists_txQueued Indev.sdram le_rfl with ⟨s₀, w, hstart, hrun, hsent⟩
  exact ⟨w, hsent, emacTx_order hstart hrun⟩

/-- The first accesses of a call for a frame in one segment. -/
theorem emacTx_opening (D : Indev) (packet : List Byte) :
    ∃ K : U32 → U32 → Unit → EmacM Unit, emacTx D [packet] =
      .call .txCurrdescnum fun descNum =>
      .call (.load (D.txChain descNum.toNat + 8)) fun dataStart =>
      .call (.dcimvac (D.txChain descNum.toNat)) fun _ =>
      .call (.store (D.txChain descNum.toNat + 4) (BitVec.ofNat 32 packet.length))
        (K descNum dataStart) := by
  have hline : ∀ n, invalidateDcacheRange (D.txChain n) (D.txChain n + roundup 16 ARCH_DMA_MINALIGN) =
      (do dcimvac (D.txChain n); pure ()) := fun n => invalidateDcacheRange_line Indev.txChain_aligned
  simp only [emacTx, emacTxFrom, sun8iEmacEthSend, List.isEmpty_nil, if_true, Nat.or_self,
    if_neg (show ¬ 0x10000 ≤ 0 by decide), sendLast, hline, Nat.zero_add, bind_assoc, pure_bind]
  exact ⟨_, rfl⟩

/-- A descriptor that comes to differ differs in one of its bytes. -/
theorem exists_ofSlot {m m' : Mem} (h : descAt (D.txChain i) m ≠ descAt (D.txChain i) m') :
    ∃ x, OfSlot D i x ∧ m x ≠ m' x := by
  by_contra hsame
  refine h (descAt_congr ?_)
  intro x hx
  by_contra hne
  exact hsame ⟨x, .inl hx, hne⟩

/-- With 32 frames accepted and none of them sent, the next call overwrites the descriptor of the
first. -/
theorem emacTx_overwrites : ∃ s₀ s s', TxStart Indev.sdram s₀ ∧
    RunUnder (TxStep Indev.sdram) (fun _ _ => True) s₀ s ∧ TxStep Indev.sdram .access s s' ∧
    s.accepted = List.replicate 32 [0] ∧ s.w.sent = [] ∧
    ∃ x, OfSlot Indev.sdram 0 x ∧ s'.w.m.mem x ≠ s.w.m.mem x := by
  rcases exists_txQueued Indev.sdram le_rfl with ⟨s₀, w, hstart, hrun, hsent⟩
  have hinv := TxInv.run hstart hrun
  have hidle : TxIdle Indev.sdram (List.replicate 32 [0]) w := hinv.thread
  have hcur : w.txCur.toNat = 0 := hidle.cur
  rcases emacTx_opening Indev.sdram [0, 0] with ⟨K, hopening⟩
  -- Two accesses that read, and a discarded line, lead up to the store of the length.
  have hcall : RunUnder (TxStep Indev.sdram) (fun _ _ => True) ⟨w, none, List.replicate 32 [0]⟩
      ⟨w, some ([0, 0], .call (.store (Indev.sdram.txChain 0 + 4) 2#32)
        (K w.txCur (w.m.mem.read32 (Indev.sdram.txChain 0 + 8)))), List.replicate 32 [0]⟩ := by
    have hstep : TxStep Indev.sdram .call ⟨w, none, List.replicate 32 [0]⟩
        ⟨w, some ([0, 0], emacTx Indev.sdram [[0, 0]]), List.replicate 32 [0]⟩ :=
      .call [[0, 0]] (by simp) (by simp)
    rw [hopening] at hstep
    have hread : ∀ {o : Op} {k : o.Ret → EmacM Unit} {r : o.Ret} {t : TxSys},
        access direct True o w r w →
        RunUnder (TxStep Indev.sdram) (fun _ _ => True)
          ⟨w, some ([0, 0], k r), List.replicate 32 [0]⟩ t →
        RunUnder (TxStep Indev.sdram) (fun _ _ => True)
          ⟨w, some ([0, 0], .call o k), List.replicate 32 [0]⟩ t :=
      fun hacc hrest => .head (l := .access) trivial (.access hacc) hrest
    refine .head (l := .call) trivial hstep ?_
    refine hread ⟨rfl, rfl⟩ ?_
    rw [hcur]
    exact hread ⟨rfl, rfl⟩ (hread (r := ()) rfl .refl)
  refine ⟨s₀, _, _, hstart, (hrun.mono fun _ _ _ => trivial).trans hcall, .access (r := ()) rfl, rfl,
    hsent, exists_ofSlot ?_⟩
  have hslot := hidle.ring.slots 0 (by rw [hsent]; exact Nat.zero_le _) (by omega)
    (Set.notMem_empty _)
  have hlen : txLength (descAt (Indev.sdram.txChain 0) w.m.mem).st = 1 :=
    (hslot.queued [0] rfl).length
  have hstored : descAt (Indev.sdram.txChain 0)
      (direct.write w.m ((Indev.sdram.txChain 0 + 4) / 64)
        fun m => m.write32 (Indev.sdram.txChain 0 + 4) 2#32).mem =
      { descAt (Indev.sdram.txChain 0) w.m.mem with st := 2#32 } := by
    rw [← descAt_write_st]
    apply local_descAt Indev.txChain_aligned
    intro x hx
    have hline : x / 64 = (Indev.sdram.txChain 0 + 4) / 64 := hx
    exact if_pos hline
  intro heq
  have hst := congrArg (fun d => txLength d.st) (hstored.symm.trans heq)
  dsimp only at hst
  rw [hlen] at hst
  exact absurd hst (by decide)

end Emac

end BspV3s
