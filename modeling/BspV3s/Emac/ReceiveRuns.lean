import BspV3s.Emac.Init

/-!
# ReceiveRuns — the receive ring over whole runs

One thread calls `_emac_rx` again and again.  Between any two accesses of a call the DMA may deliver
frames, and the rest of the system may do what it likes outside the receive ring.

* `emacRx_fifo`     : what the calls return is what the DMA delivered, in order;
* `emacRx_progress` : exactly when a call hands the oldest descriptor back to the DMA.
-/

namespace BspV3s

namespace Emac

variable {D : Indev} {canFail : Prop} {w w' : World} {h : ℕ}

/-! ## The receive thread -/

/-- The receive thread between two calls or inside one, `h` frames having been handed up. -/
def RxThread (D : Indev) (canFail : Prop) (h : ℕ) : Option (EmacM (Option Pbuf)) → World → Prop
  | none, w => RxIdle D h w
  | some p, w => ∃ dl, rxWp D h canFail p (RxDone D canFail h dl) w

theorem RxThread.env {th : Option (EmacM (Option Pbuf))} (hth : RxThread D canFail h th w)
    (he : RxEnv D w w') : RxThread D canFail h th w' := by
  cases th with
  | none => exact RxIdle.env hth he
  | some p =>
      rcases hth with ⟨dl, hp⟩
      exact ⟨dl, Prog.wp_env hp he⟩

theorem RxThread.call (hth : RxThread D canFail h none w) :
    RxThread D canFail h (some (emacRx D)) w :=
  ⟨w.delivered, emacRx_spec hth⟩

theorem RxThread.done {p : Option Pbuf} (hth : RxThread D canFail h (some (.ret p)) w) :
    RxIdle D (h + p.toList.length) w := by
  rcases hth with ⟨dl, hp⟩
  have hdone := Prog.wp_ret hp
  cases hdone with
  | none hidle _ => exact hidle
  | some hidle _ _ _ _ => exact hidle

section Access

variable {M : MemSys} {ok : CMem → Prop} {o : Op} {k : o.Ret → EmacM (Option Pbuf)} {r : o.Ret}

theorem RxThread.access (hM : Simulated M ok) (hok : ok w.m)
    (hth : RxThread D canFail h (some (.call o k)) w) (hacc : access M canFail o w r w') :
    ok w'.m ∧ (∃ t, rxGuarantee D h o w r t) ∧ RxThread D canFail h (some (k r)) w' := by
  rcases hth with ⟨dl, hp⟩
  rcases hM.wp noisy_rxRely hok hp hacc with ⟨hok', hg, hk⟩
  exact ⟨hok', hg, dl, hk⟩

theorem RxThread.guarantee (hth : RxThread D canFail h (some (.call o k)) w)
    (hacc : Emac.access cached canFail o w r w') : rxGuarantee D h o w r w' := by
  rcases hth with ⟨dl, hp⟩
  exact (Prog.wp_step hp hacc).1

/-- At every access of a call the index designates the descriptor of the frame in hand. -/
theorem RxThread.busy (hth : RxThread D canFail h (some (.call o k)) w) : RxBusy D h w := by
  rcases exists_access cached canFail o w with ⟨r, t, hacc⟩
  exact (hth.guarantee hacc).1

/-- A call touches neither log. -/
theorem rxAccess.logs {t : World} (hg : rxAccess D h o w r t)
    (hacc : Emac.access M canFail o w r w') :
    w'.sent = w.sent ∧ w'.delivered = w.delivered := by
  cases hacts : o.acts with
  | false =>
      rcases access_passive hacts hacc with ⟨m, rfl, -⟩
      exact ⟨rfl, rfl⟩
  | true =>
      cases o with
      | writel reg v => exact hg.elim
      | store a v => cases hacc; exact ⟨rfl, rfl⟩
      | store8 a b => cases hacc; exact ⟨rfl, rfl⟩
      | dcimvac a => cases hacc; exact ⟨rfl, rfl⟩
      | setRxCurrdescnum v => cases hacc; exact ⟨rfl, rfl⟩
      | setTxCurrdescnum v => cases hacc; exact ⟨rfl, rfl⟩
      | _ => exact absurd hacts (by simp [Op.acts])

end Access

/-! ## The start -/

/-- `rx_descs_init` leaves the empty ring. -/
theorem rxDescsInit_runs (hw : w.m.Uncached)
    (hrun : Prog.Runs (access direct canFail) (rxDescsInit D) w () w') :
    w'.m.Uncached ∧ RxIdle D 0 w' ∧ w'.delivered = [] := by
  rcases Prog.runs_bind_inv hrun with ⟨_, t, htable, hcur⟩
  rcases simulated_direct.runs noisy_rxInitRely hw (rxTableInit_spec w) htable with ⟨hun, ht⟩
  cases hcur with
  | call hacc hret =>
      cases hacc
      cases hret
      exact ⟨hun, ⟨ht.ring.of_eq rfl rfl rfl, rfl⟩, ht.delivered⟩

/-! ## Runs -/

/-- The receive thread, the world it works in, and what its calls have returned. -/
structure RxSys where
  w : World
  thread : Option (EmacM (Option Pbuf))
  returned : List Pbuf

/-- What happens to the world without the receive thread: the DMA delivers a frame in `Ok`, or
something leaves the receive ring alone. -/
inductive RxPeer (D : Indev) (Ok : RxFrame → Prop) : World → World → Prop
  | deliver {w : World} (f : RxFrame) : CanDeliver w f → Ok f → RxPeer D Ok w (w.deliver f)
  | other {w w' : World} : RxSame D w w' → w'.m.Uncached → RxPeer D Ok w w'

inductive RxStep (D : Indev) (Ok : RxFrame → Prop) : RxSys → RxSys → Prop
  | peer {w w' : World} {th : Option (EmacM (Option Pbuf))} {rs : List Pbuf} :
      RxPeer D Ok w w' → RxStep D Ok ⟨w, th, rs⟩ ⟨w', th, rs⟩
  | call {w : World} {rs : List Pbuf} : RxStep D Ok ⟨w, none, rs⟩ ⟨w, some (emacRx D), rs⟩
  | access {w w' : World} {o : Op} {k : o.Ret → EmacM (Option Pbuf)} {r : o.Ret} {rs : List Pbuf} :
      access direct True o w r w' → RxStep D Ok ⟨w, some (.call o k), rs⟩ ⟨w', some (k r), rs⟩
  | done {w : World} {p : Option Pbuf} {rs : List Pbuf} :
      RxStep D Ok ⟨w, some (.ret p), rs⟩ ⟨w, none, rs ++ p.toList⟩

/-- `rx_descs_init` has just run, on memory that is not cached. -/
structure RxStart (D : Indev) (s : RxSys) : Prop where
  init : ∃ w₀, w₀.m.Uncached ∧ Prog.Runs (access direct True) (rxDescsInit D) w₀ () s.w
  thread : s.thread = none
  returned : s.returned = []

/-- Every state of a run. -/
structure RxInv (D : Indev) (s : RxSys) : Prop where
  memory : s.w.m.Uncached
  thread : RxThread D True s.returned.length s.thread s.w

variable {Ok : RxFrame → Prop} {s₀ s s' : RxSys}

theorem RxStart.inv (hs : RxStart D s) : RxInv D s ∧ s.w.delivered = [] := by
  rcases s with ⟨w, th, rs⟩
  rcases hs with ⟨⟨w₀, hw, hrun⟩, rfl, rfl⟩
  rcases rxDescsInit_runs hw hrun with ⟨hun, hidle, hdl⟩
  exact ⟨⟨hun, hidle⟩, hdl⟩

theorem RxPeer.env (hp : RxPeer D Ok w w') (hw : w.m.Uncached) : w'.m.Uncached ∧ RxEnv D w w' := by
  cases hp with
  | deliver f hd _ => exact ⟨hw.setMem _, .deliver f hd⟩
  | other hs hun => exact ⟨hun, .other hs⟩

theorem RxInv.step (hs : RxInv D s) (hstep : RxStep D Ok s s') : RxInv D s' := by
  cases hstep with
  | peer hp =>
      rcases hp.env hs.memory with ⟨hun, he⟩
      exact ⟨hun, hs.thread.env he⟩
  | call => exact ⟨hs.memory, hs.thread.call⟩
  | access hacc =>
      rcases hs.thread.access simulated_direct hs.memory hacc with ⟨hun, -, hth⟩
      exact ⟨hun, hth⟩
  | @done w p rs =>
      have hidle : RxIdle D (rs.length + p.toList.length) w := hs.thread.done
      rw [← List.length_append] at hidle
      exact ⟨hs.memory, hidle⟩

theorem RxInv.run (hstart : RxStart D s₀) (hrun : Relation.ReflTransGen (RxStep D Ok) s₀ s) :
    RxInv D s := by
  induction hrun with
  | refl => exact hstart.inv.1
  | tail _ hstep ih => exact ih.step hstep

/-- A call that nothing interrupts. -/
theorem steps_of_runs {q : EmacM (Option Pbuf)} {p : Option Pbuf} {rs : List Pbuf}
    (hrun : Prog.Runs (access direct True) q w p w') :
    Relation.ReflTransGen (RxStep D Ok) ⟨w, some q, rs⟩ ⟨w', some (.ret p), rs⟩ := by
  induction hrun with
  | ret => exact .refl
  | call hacc _ ih => exact .head (.access hacc) ih

/-- A frame fits where the oldest of 32 has been handed up. -/
theorem RxIdle.canDeliver (hidle : RxIdle D h w) (hrxRun : w.rxRun = true)
    (hroom : w.delivered.length < h + 32) {f : RxFrame} (hrel : own f.status = false)
    (hfits : f.bytes.length ≤ CONFIG_ETH_RXSIZE) : CanDeliver w f := by
  have hslot : RxSlot D w.delivered w.delivered.length (w.rxCell D (w.delivered.length % 32)) := by
    rcases hidle.ring.ring.low.eq_or_lt with heq | hlt
    · exact heq ▸ hidle.ring.slot
    · exact hidle.ring.ring.rest _ hlt hroom
  refine ⟨hrxRun, ?_, hrel, hfits⟩
  rw [hidle.ring.ring.dma]
  exact hslot.empty (List.getElem?_eq_none le_rfl)

theorem exists_deliveries {fs : List RxFrame} (rs : List Pbuf) (hun : w.m.Uncached)
    (hidle : RxIdle D h w) (hrxRun : w.rxRun = true) (hroom : w.delivered.length + fs.length ≤ h + 32)
    (hfs : ∀ f ∈ fs, Ok f ∧ own f.status = false ∧ f.bytes.length ≤ CONFIG_ETH_RXSIZE) :
    ∃ w', Relation.ReflTransGen (RxStep D Ok) ⟨w, none, rs⟩ ⟨w', none, rs⟩ ∧
      w'.delivered = w.delivered ++ fs := by
  induction fs generalizing w with
  | nil => exact ⟨w, .refl, (List.append_nil _).symm⟩
  | cons f fs ih =>
      rw [List.length_cons] at hroom
      obtain ⟨hok, hrel, hfits⟩ := hfs f List.mem_cons_self
      have hcan := hidle.canDeliver hrxRun (by omega) hrel hfits
      have hpeer : RxPeer D Ok w (w.deliver f) := .deliver f hcan hok
      obtain ⟨hun', henv⟩ := hpeer.env hun
      have hlog : (w.deliver f).delivered = w.delivered ++ [f] := rfl
      obtain ⟨w', hrun, hdl⟩ := ih hun' (hidle.env henv) hrxRun
        (by rw [hlog, List.length_append, List.length_singleton]; omega)
        fun g hg => hfs g (List.mem_cons_of_mem _ hg)
      refine ⟨w', .head (.peer hpeer) hrun, ?_⟩
      rw [hdl, hlog, List.append_assoc]
      rfl

/-- From the start the DMA can deliver up to 32 frames that fit. -/
theorem exists_rxWaiting (D : Indev) (Ok : RxFrame → Prop) (fs : List RxFrame) (hlen : fs.length ≤ 32)
    (hfs : ∀ f ∈ fs, Ok f ∧ own f.status = false ∧ f.bytes.length ≤ CONFIG_ETH_RXSIZE) :
    ∃ s₀ w, RxStart D s₀ ∧ Relation.ReflTransGen (RxStep D Ok) s₀ ⟨w, none, []⟩ ∧
      w.delivered = fs := by
  rcases Prog.exists_runs (exists_access direct True) (rxDescsInit D) World.reset with ⟨_, w, hrun⟩
  have hreset : World.reset.m.Uncached := rfl
  rcases rxDescsInit_runs hreset hrun with ⟨hun, hidle, hdl⟩
  have hother : RxPeer D Ok w { w with rxRun := true } :=
    .other (.of_memory rfl rfl rfl rfl) hun
  obtain ⟨w', hsteps, hlog⟩ := exists_deliveries (w := { w with rxRun := true }) []
    hun (hidle.env (hother.env hun).2) rfl
    (show w.delivered.length + fs.length ≤ 0 + 32 by rw [hdl, List.length_nil]; omega) hfs
  refine ⟨⟨w, none, []⟩, w', ⟨⟨_, hreset, hrun⟩, rfl, rfl⟩, .head (.peer hother) hsteps, ?_⟩
  rw [hlog, show ({ w with rxRun := true } : World).delivered = [] from hdl]
  rfl

/-! ## First in, first out -/

/-- A frame of 64 to 2044 bytes whose length the DMA reports. -/
structure Plain (f : RxFrame) : Prop where
  low : 64 ≤ f.bytes.length
  high : f.bytes.length ≤ 2044
  length : rxLength f.status = f.bytes.length

/-- What the calls have returned, with what a call is about to return when that is all it has left
to do. -/
def RxSys.handed (s : RxSys) : List Pbuf :=
  match s.thread with
  | some (.ret p) => s.returned ++ p.toList
  | _ => s.returned

/-- What has been returned is what has been delivered, in order. -/
structure RxOrder (s : RxSys) : Prop where
  plain : ∀ f ∈ s.w.delivered, Plain f
  fifo : s.returned.map List.flatten <+: s.w.delivered.map RxFrame.bytes

theorem RxPeer.delivered (hp : RxPeer D Ok w w') :
    w.delivered <+: w'.delivered ∧ ∀ f ∈ w'.delivered, f ∈ w.delivered ∨ Ok f := by
  cases hp with
  | deliver f _ hf =>
      refine ⟨List.prefix_append _ _, ?_⟩
      intro g hg
      rcases List.mem_append.1 hg with hg | hg
      · exact .inl hg
      · exact .inr (List.mem_singleton.1 hg ▸ hf)
  | other hs _ =>
      rw [hs.delivered]
      exact ⟨List.prefix_rfl, fun f hf => .inl hf⟩

/-- A call that is about to return hands up the frame that was next. -/
theorem RxOrder.concat {th : Option (EmacM (Option Pbuf))} {p : Option Pbuf} {rs : List Pbuf}
    (hs : RxOrder ⟨w, th, rs⟩) (hth : RxThread D canFail rs.length (some (.ret p)) w) :
    (rs ++ p.toList).map List.flatten <+: w.delivered.map RxFrame.bytes ∧
      RxIdle D (rs ++ p.toList).length w := by
  rcases hth with ⟨dl, hp⟩
  have hdone := Prog.wp_ret hp
  cases hdone with
  | none hidle _ => simpa using ⟨hs.fifo, hidle⟩
  | @some _ f p hidle hf hpos hle hbytes =>
      have hplain := hs.plain f (List.mem_of_getElem? hf)
      have hlow := hplain.low
      have hlen := hplain.length
      have hflat := hbytes (by omega) hlen.symm
      refine ⟨?_, by simpa using hidle⟩
      rw [List.map_append]
      refine concat_isPrefix hs.fifo ?_
      rw [List.length_map, List.getElem?_map, hf, hflat]
      rfl

theorem RxOrder.step (hs : RxOrder s) (hinv : RxInv D s) (hstep : RxStep D Plain s s') :
    RxOrder s' := by
  cases hstep with
  | peer hp =>
      rcases hp.delivered with ⟨hgrow, hnew⟩
      refine ⟨?_, hs.fifo.trans (hgrow.map _)⟩
      intro f hf
      rcases hnew f hf with hold | hplain
      · exact hs.plain f hold
      · exact hplain
  | call => exact ⟨hs.plain, hs.fifo⟩
  | access hacc =>
      rcases hinv.thread.access simulated_direct hinv.memory hacc with ⟨-, ⟨t, -, hg⟩, -⟩
      have hdl := (hg.logs hacc).2
      refine ⟨?_, ?_⟩
      · rw [hdl]
        exact hs.plain
      · rw [hdl]
        exact hs.fifo
  | done => exact ⟨hs.plain, (hs.concat hinv.thread).1⟩

theorem RxOrder.run (hstart : RxStart D s₀) (hrun : Relation.ReflTransGen (RxStep D Plain) s₀ s) :
    RxOrder s := by
  induction hrun with
  | refl =>
      have hdl := hstart.inv.2
      refine ⟨by simp [hdl], ?_⟩
      rw [hstart.returned]
      exact List.nil_prefix
  | tail hrun hstep ih => exact ih.step (RxInv.run hstart hrun) hstep

/-- The ring is first in, first out. -/
structure RxFifo (D : Indev) (s : RxSys) : Prop where
  returned : s.returned.map List.flatten <+: s.w.delivered.map RxFrame.bytes
  handed : s.handed.map List.flatten <+: s.w.delivered.map RxFrame.bytes
  /-- The DMA fills the descriptors in turn, -/
  dma : s.w.rxDma = D.rxChain (s.w.delivered.length % 32)
  /-- and the index designates the descriptor of the oldest frame not yet handed up, -/
  cur : s.w.rxCur.toNat = s.handed.length % 32
  /-- which holds that frame whenever no call is under way, -/
  oldest : s.thread = none → ∀ f, s.w.delivered[s.handed.length]? = some f →
    s.w.m.mem.read32 (D.rxChain s.w.rxCur.toNat) = f.status ∧
      s.w.m.mem.readBytes (D.rxBuf s.w.rxCur.toNat) f.bytes.length = f.bytes
  /-- or, when every frame has been handed up, the descriptor that the DMA fills next. -/
  next : s.w.delivered.length = s.handed.length → s.w.rxDma = D.rxChain s.w.rxCur.toNat

/-- What has to be shown of a state, given how many frames have been handed up. -/
theorem RxFifo.of_busy {n : ℕ} (hs : RxOrder s) (hb : RxBusy D n s.w) (hn : s.handed.length = n)
    (hhanded : s.handed.map List.flatten <+: s.w.delivered.map RxFrame.bytes)
    (hidle : s.thread = none → RxIdle D n s.w) : RxFifo D s := by
  refine ⟨hs.fifo, hhanded, hb.dma, hn ▸ hb.cur, ?_, ?_⟩
  · intro hth f hf
    rw [hn] at hf
    have hring := hidle hth
    rw [hb.cur]
    exact ⟨hring.ring.slot.full f hf, hring.ring.ring.data n f le_rfl hf⟩
  · intro hlen
    rw [hb.dma, hlen, hn, hb.cur]

/-- Whatever the interleaving of deliveries with calls of `_emac_rx`, and whichever allocations
fail, the ring is first in, first out. -/
theorem emacRx_fifo (hstart : RxStart D s₀)
    (hrun : Relation.ReflTransGen (RxStep D Plain) s₀ s) : RxFifo D s := by
  have hinv := RxInv.run hstart hrun
  have horder := RxOrder.run hstart hrun
  rcases s with ⟨w, th, rs⟩
  cases th with
  | none => exact .of_busy horder (RxIdle.busy hinv.thread) rfl horder.fifo fun _ => hinv.thread
  | some p =>
      cases p with
      | call o k => exact .of_busy horder hinv.thread.busy rfl horder.fifo (by simp)
      | ret p =>
          rcases horder.concat hinv.thread with ⟨hfifo, hidle⟩
          exact .of_busy horder hidle.busy rfl hfifo (by simp)

/-- Alone, a call sends nothing and delivers nothing. -/
theorem RxThread.runs_logs {q : EmacM (Option Pbuf)} {p : Option Pbuf} (hw : w.m.Uncached)
    (hth : RxThread D canFail h (some q) w)
    (hrun : Prog.Runs (Emac.access direct canFail) q w p w') :
    w'.sent = w.sent ∧ w'.delivered = w.delivered := by
  induction hrun with
  | ret => exact ⟨rfl, rfl⟩
  | call hacc _ ih =>
      obtain ⟨hw', ⟨t, -, hg⟩, hth'⟩ := hth.access simulated_direct hw hacc
      obtain ⟨hsent, hdl⟩ := ih hw' hth'
      obtain ⟨hsent₀, hdl₀⟩ := hg.logs hacc
      exact ⟨hsent.trans hsent₀, hdl.trans hdl₀⟩

/-- A call that gets memory returns the oldest frame. -/
theorem exists_rxReturn {f : RxFrame} (hw : w.m.Uncached) (hidle : RxIdle D h w)
    (hf : w.delivered[h]? = some f) (hlen : 1 ≤ rxLength f.status ∧ rxLength f.status ≤ 2044) :
    ∃ p w', Prog.Runs (access direct True) (emacRx D) w (some p) w' ∧
      w'.sent = w.sent ∧ w'.delivered = w.delivered := by
  obtain ⟨p, w', hrun⟩ := Prog.exists_runs (exists_access direct False) (emacRx D) w
  have hthread : RxThread D False h none w := hidle
  obtain ⟨hsent, hdl⟩ := RxThread.runs_logs hw hthread.call hrun
  obtain ⟨-, hdone⟩ := simulated_direct.runs noisy_rxRely hw (emacRx_spec hidle) hrun
  -- A run in which no allocation fails is one of those in which any may.
  have hruns : Prog.Runs (access direct True) (emacRx D) w p w' :=
    hrun.mono fun o t r t' hacc => by
      cases o with
      | pbufAlloc n => exact ⟨fun _ => trivial, hacc.2⟩
      | _ => exact hacc
  have hlt : h < w.delivered.length := (List.getElem?_eq_some_iff.1 hf).1
  cases hdone with
  | none _ hwhy =>
      rcases hwhy with hempty | hfail | ⟨g, hg, hbad⟩
      · omega
      · exact hfail.elim
      · rw [hdl, hf] at hg
        cases hg
        exact absurd hlen hbad
  | some _ _ _ _ _ => exact ⟨_, w', hruns, hsent, hdl⟩

/-- Two frames of different lengths are delivered, and a call returns the first of them. -/
theorem emacRx_fifo_two : ∃ w p, RxFifo Indev.sdram ⟨w, none, [p]⟩ ∧ w.delivered.length = 2 ∧
    p.flatten = List.replicate 64 7 ∧ w.rxCur = 1 := by
  set f : RxFrame := ⟨0x00400000, List.replicate 64 7⟩
  set g : RxFrame := ⟨0x00640000, List.replicate 100 8⟩
  have hplain : ∀ x ∈ [f, g], Plain x ∧ own x.status = false ∧ x.bytes.length ≤ CONFIG_ETH_RXSIZE := by
    intro x hx
    rw [List.mem_cons, List.mem_singleton] at hx
    rcases hx with rfl | rfl
    · exact ⟨⟨by decide, by decide, by decide⟩, by decide, by decide⟩
    · exact ⟨⟨by decide, by decide, by decide⟩, by decide, by decide⟩
  obtain ⟨s₀, w, hstart, hrun, hdl⟩ := exists_rxWaiting Indev.sdram Plain [f, g] (by decide) hplain
  have hinv := RxInv.run hstart hrun
  obtain ⟨p, w', hruns, -, hlog⟩ := exists_rxReturn (f := f) hinv.memory hinv.thread
    (by rw [hdl]; rfl) (by decide)
  have hcall : Relation.ReflTransGen (RxStep Indev.sdram Plain) ⟨w, none, []⟩ ⟨w', none, [p]⟩ :=
    .head .call ((steps_of_runs hruns).tail .done)
  rw [hdl] at hlog
  -- What has been returned is a prefix of what has been delivered, so it is the first frame.
  have hfifo := emacRx_fifo hstart (hrun.trans hcall)
  have hreturned := hfifo.returned
  have hcur := hfifo.cur
  refine ⟨w', p, hfifo, by rw [hlog]; rfl, ?_, BitVec.eq_of_toNat_eq hcur⟩
  rw [hlog] at hreturned
  exact (List.cons_prefix_cons.1 hreturned).1

/-! ## Progress -/

/-- The call that ended in `w'` has handed the oldest descriptor, `cur` before the call, back to
the DMA, which may have put another frame into it since: the frame after the `n` that had been
handed up before the call and the 32 that follow them. -/
structure HandedBack (D : Indev) (cur : U32) (n : ℕ) (w' : World) : Prop where
  owned : own (w'.m.mem.read32 (D.rxChain cur.toNat)) = true ∨ n + 32 < w'.delivered.length
  cur : w'.rxCur.toNat = (cur.toNat + 1) % 32

/-- A call among deliveries and whatever else goes on, with memory for its pbuf. -/
def RxCall (D : Indev) (w : World) (p : Option Pbuf) (w' : World) : Prop :=
  Relation.ReflTransGen (Prog.Step (access direct False) fun _ => RxPeer D fun _ => True)
    (emacRx D, w) (.ret p, w')

theorem RxCall.done {p : Option Pbuf} (hcall : RxCall D w p w') (hw : w.m.Uncached)
    (hidle : RxIdle D h w) : RxDone D False h w.delivered p w' := by
  have hsteps := simulated_direct.steps noisy_rxRely (fun _ _ _ hun hp => hp.env hun) hw
    (emacRx_spec hidle) hcall
  exact Prog.wp_ret hsteps.2

/-- What has been delivered before a call stays delivered. -/
theorem RxCall.delivered {p : Option Pbuf} (hcall : RxCall D w p w') (hw : w.m.Uncached)
    (hidle : RxIdle D h w) : w.delivered <+: w'.delivered := by
  have hlog : ∀ c, Relation.ReflTransGen
      (Prog.Step (access direct False) fun _ => RxPeer D fun _ => True) (emacRx D, w) c →
      w.delivered <+: c.2.delivered := by
    intro c hc
    induction hc with
    | refl => exact List.prefix_rfl
    | @tail c c' hsteps hstep ih =>
        have hspec : rxWp D h False (emacRx D) (RxDone D False h w.delivered) w :=
          emacRx_spec hidle
        have hwp := simulated_direct.steps noisy_rxRely (fun _ _ _ hun hp => hp.env hun) hw
          hspec hsteps
        refine ih.trans ?_
        cases hstep with
        | env hp => exact hp.delivered.1
        | access hacc =>
            rcases simulated_direct.wp noisy_rxRely hwp.1 hwp.2 hacc with ⟨-, ⟨t, -, hg⟩, -⟩
            exact (hg.logs hacc).2 ▸ List.prefix_rfl
  exact hlog _ hcall

theorem exists_rxCall (w : World) : ∃ p w', RxCall D w p w' := by
  rcases Prog.exists_runs (exists_access direct False) (emacRx D) w with ⟨p, w', hrun⟩
  exact ⟨p, w', hrun.steps⟩

/-- The frame in the descriptor that the index designates. -/
theorem RxIdle.current (hidle : RxIdle D h w)
    (hown : own (w.m.mem.read32 (D.rxChain w.rxCur.toNat)) = false) :
    ∃ f, w.delivered[h]? = some f ∧ w.m.mem.read32 (D.rxChain w.rxCur.toNat) = f.status := by
  rw [hidle.cur] at hown ⊢
  cases hget : w.delivered[h]? with
  | some f => exact ⟨f, rfl, hidle.ring.slot.full f hget⟩
  | none =>
      have hset : own (w.m.mem.read32 (D.rxChain (h % 32))) = true := hidle.ring.slot.empty hget
      rw [hset] at hown
      exact absurd hown (by decide)

/-- A call drains a frame whose length is neither zero nor too big. -/
theorem RxIdle.drains {f : RxFrame} (hidle : RxIdle D h w) (hw : w.m.Uncached)
    (hf : w.delivered[h]? = some f) (hlen : 1 ≤ rxLength f.status ∧ rxLength f.status ≤ 2044)
    {p : Option Pbuf} (hcall : RxCall D w p w') : HandedBack D w.rxCur h w' := by
  have hlt : h < w.delivered.length := (List.getElem?_eq_some_iff.1 hf).1
  have hdone := hcall.done hw hidle
  cases hdone with
  | none _ hwhy =>
      rcases hwhy with hempty | hfail | ⟨g, hg, hbad⟩
      · omega
      · exact hfail.elim
      · rcases hcall.delivered hw hidle with ⟨l, hl⟩
        rw [← hl, List.getElem?_append_left hlt, hf] at hg
        cases hg
        exact absurd hlen hbad
  | some hidle' _ _ _ _ =>
      refine ⟨?_, ?_⟩
      · rw [hidle.cur]
        rcases Nat.lt_or_ge (h + 32) w'.delivered.length with hmore | hless
        · exact .inr hmore
        · left
          have hslot := hidle'.ring.ring.rest (h + 32) (by omega) (by omega)
          rw [show (h + 32) % 32 = h % 32 by omega] at hslot
          exact hslot.empty (List.getElem?_eq_none hless)
      · rw [hidle'.cur, hidle.cur]
        omega

/-- No call drains any other frame. -/
theorem RxIdle.stuck {f : RxFrame} (hidle : RxIdle D h w) (hw : w.m.Uncached)
    (hf : w.delivered[h]? = some f) (hlen : ¬ (1 ≤ rxLength f.status ∧ rxLength f.status ≤ 2044))
    {p : Option Pbuf} (hcall : RxCall D w p w') : w'.rxCur = w.rxCur := by
  have hlt : h < w.delivered.length := (List.getElem?_eq_some_iff.1 hf).1
  have hdone := hcall.done hw hidle
  cases hdone with
  | none hidle' _ => exact BitVec.eq_of_toNat_eq (hidle'.cur.trans hidle.cur.symm)
  | some _ hg hpos hle _ =>
      rcases hcall.delivered hw hidle with ⟨l, hl⟩
      rw [← hl, List.getElem?_append_left hlt, hf] at hg
      cases hg
      exact absurd ⟨hpos, hle⟩ hlen

/-- In every state of the ring in which the oldest descriptor holds a frame, the calls that get
memory for their pbuf hand it back if and only if the length in its status word is at least 1 and
at most 2044. -/
theorem emacRx_progress (hstart : RxStart D s₀)
    (hrun : Relation.ReflTransGen (RxStep D fun _ => True) s₀ s) (hth : s.thread = none)
    (hown : own (s.w.m.mem.read32 (D.rxChain s.w.rxCur.toNat)) = false) :
    (∀ p w', RxCall D s.w p w' → HandedBack D s.w.rxCur s.returned.length w') ↔
      1 ≤ rxLength (s.w.m.mem.read32 (D.rxChain s.w.rxCur.toNat)) ∧
        rxLength (s.w.m.mem.read32 (D.rxChain s.w.rxCur.toNat)) ≤ 2044 := by
  have hinv := RxInv.run hstart hrun
  have hidle : RxIdle D s.returned.length s.w := by
    have hthread := hinv.thread
    rw [hth] at hthread
    exact hthread
  rcases hidle.current hown with ⟨f, hf, hstatus⟩
  rw [hstatus]
  constructor
  · intro hback
    by_contra hlen
    rcases exists_rxCall s.w with ⟨p, w', hcall⟩
    have hcur := (hback p w' hcall).cur
    rw [hidle.stuck hinv.memory hf hlen hcall, hidle.cur] at hcur
    omega
  · intro hlen p w' hcall
    exact hidle.drains hinv.memory hf hlen hcall

/-- A frame of 64 bytes is drained. -/
theorem emacRx_progress_one : ∃ w, w.delivered.length = 1 ∧
    ∀ p w', RxCall Indev.sdram w p w' → HandedBack Indev.sdram w.rxCur 0 w' := by
  rcases exists_rxWaiting Indev.sdram (fun _ => True) [⟨0x00400000, List.replicate 64 0⟩]
    (by decide) (by simpa [CONFIG_ETH_RXSIZE] using by decide) with ⟨s₀, w, hstart, hrun, hdl⟩
  have hstatus : w.m.mem.read32 (Indev.sdram.rxChain w.rxCur.toNat) = 0x00400000 := by
    have hidle : RxIdle Indev.sdram 0 w := (RxInv.run hstart hrun).thread
    rw [hidle.cur]
    exact hidle.ring.slot.full _ (by rw [hdl]; rfl)
  refine ⟨w, by rw [hdl]; rfl, ?_⟩
  refine (emacRx_progress hstart hrun rfl ?_).2 ?_
  · rw [hstatus]
    decide
  · rw [hstatus]
    decide

/-- A status word with neither the own bit nor a length is never drained, however often
`_emac_rx` is called. -/
theorem emacRx_blocked : ∃ s₀ s, RxStart Indev.sdram s₀ ∧
    Relation.ReflTransGen (RxStep Indev.sdram fun _ => True) s₀ s ∧ s.thread = none ∧
    s.w.m.mem.read32 (Indev.sdram.rxChain s.w.rxCur.toNat) = 0 ∧
    ¬ ∀ p w', RxCall Indev.sdram s.w p w' →
        HandedBack Indev.sdram s.w.rxCur s.returned.length w' := by
  rcases exists_rxWaiting Indev.sdram (fun _ => True) [⟨0, []⟩] (by decide)
    (by simpa using by decide) with ⟨s₀, w, hstart, hrun, hdl⟩
  have hinv := RxInv.run hstart hrun
  have hidle : RxIdle Indev.sdram 0 w := hinv.thread
  have hf : w.delivered[0]? = some ⟨0, []⟩ := by rw [hdl]; rfl
  refine ⟨s₀, ⟨w, none, []⟩, hstart, hrun, rfl, ?_, ?_⟩
  · show w.m.mem.read32 (Indev.sdram.rxChain w.rxCur.toNat) = 0
    rw [hidle.cur]
    exact hidle.ring.slot.full _ hf
  · intro hback
    rcases exists_rxCall (D := Indev.sdram) w with ⟨p, w', hcall⟩
    have hcur := (hback p w' hcall).cur
    have hstuck : w'.rxCur = w.rxCur := hidle.stuck hinv.memory hf (by decide) hcall
    rw [hstuck, hidle.cur] at hcur
    exact absurd hcur (by decide)

end Emac

end BspV3s
