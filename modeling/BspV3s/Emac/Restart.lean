import BspV3s.Emac.Coherence
import BspV3s.Emac.Link

/-!
# Restart — the rings while the controller is restarted

After a DMA error the PHY thread initialises both rings again, without a lock, while the network
threads may be inside `_emac_rx` and `_emac_tx`.  This module is the system of these three threads,
and what the two network threads and the DMA do to the rings in each phase of a restart; the next
module follows the restart itself.

Every store reaches memory at once here.
-/

namespace BspV3s

namespace Emac

variable {D : Indev} {E : EthDev} {w w' : World} {α β : Type}

/-! ## The system -/

/-- How far the last call of `_emac_rx` had come when `rx_currdescnum` was last reset. -/
inductive Age
  /-- It has made no access yet. -/
  | fresh
  | entered
  /-- The index was reset after its first access. -/
  | stale
  deriving DecidableEq, Repr

def Age.enter : Age → Age
  | .fresh => .entered
  | age => age

def Age.overtaken : Age → Age
  | .fresh => .fresh
  | _ => .stale

/-- The network threads and the world they share with the restart. -/
structure Traffic where
  w : World
  rx : Option (EmacM (Option Pbuf))
  age : Age
  tx : Option (TxFrame × EmacM Unit)
  /-- The frames accepted since the last restart began. -/
  since : List TxFrame
  /-- A restart is under way that has not stored `tx_currdescnum` yet. -/
  window : Bool

inductive PeerAct
  | other
  | deliver
  | complete
  | rxCall
  | rxAccess (o : Op)
  | rxDone
  | txCall
  | txAccess
  | txDone

/-- A step of anybody but the PHY thread. -/
inductive PeerStep (D : Indev) : PeerAct → Traffic → Traffic → Prop
  | other {t : Traffic} {w' : World} : RxSame D t.w w' → TxSame D t.w w' →
      w'.rxRun = t.w.rxRun → w'.txRun = t.w.txRun → w'.m.Uncached →
      PeerStep D .other t { t with w := w' }
  | deliver {t : Traffic} (f : RxFrame) : CanDeliver t.w f →
      PeerStep D .deliver t { t with w := t.w.deliver f }
  | complete {t : Traffic} (status : U32) : CanComplete t.w status →
      PeerStep D .complete t { t with w := t.w.complete status }
  | rxCall {t : Traffic} : t.rx = none →
      PeerStep D .rxCall t { t with rx := some (emacRx D), age := .fresh }
  | rxAccess {t : Traffic} {o : Op} {k : o.Ret → EmacM (Option Pbuf)} {r : o.Ret} {w' : World} :
      t.rx = some (.call o k) → access direct True o t.w r w' →
      PeerStep D (.rxAccess o) t { t with w := w', rx := some (k r), age := t.age.enter }
  | rxDone {t : Traffic} {p : Option Pbuf} : t.rx = some (.ret p) →
      PeerStep D .rxDone t { t with rx := none }
  | txCall {t : Traffic} (p : Pbuf) : t.tx = none → p ≠ [] → p.flatten.length ≤ 2047 →
      PeerStep D .txCall t { t with tx := some (p.flatten, emacTx D p) }
  | txAccess {t : Traffic} {f : TxFrame} {o : Op} {k : o.Ret → EmacM Unit} {r : o.Ret}
      {w' : World} : t.tx = some (f, .call o k) → access direct True o t.w r w' →
      PeerStep D .txAccess t { t with w := w', tx := some (f, k r) }
  | txDone {t : Traffic} {f : TxFrame} : t.tx = some (f, .ret ()) →
      PeerStep D .txDone t { t with tx := none, since := t.since ++ [f] }

/-- What an access of the restart leaves behind, given the world after it. -/
def Traffic.after (t : Traffic) (w' : World) : Op → Traffic
  | .setRxCurrdescnum _ => { t with w := w', age := t.age.overtaken }
  | .setTxCurrdescnum _ => { t with w := w', window := false }
  | _ => { t with w := w' }

def trafficAccess : Prog.Sem Op Op.Ret Traffic :=
  fun o t r t' => ∃ w', access direct True o t.w r w' ∧ t' = t.after w' o

structure RestartSys where
  t : Traffic
  init : Option (EmacM Unit)

inductive RestartAct
  | peer (a : PeerAct)
  | restart
  | access
  | done

inductive RestartStep (E : EthDev) : RestartAct → RestartSys → RestartSys → Prop
  | peer {s : RestartSys} {a : PeerAct} {t' : Traffic} : PeerStep E.indev a s.t t' →
      RestartStep E (.peer a) s { s with t := t' }
  | restart {s : RestartSys} : s.init = none →
      RestartStep E .restart s
        { t := { s.t with since := [], window := true }, init := some (Emac.restart E) }
  | access {s : RestartSys} {o : Op} {k : o.Ret → EmacM Unit} {r : o.Ret} {t' : Traffic} :
      s.init = some (.call o k) → trafficAccess o s.t r t' →
      RestartStep E .access s { t := t', init := some (k r) }
  | done {s : RestartSys} : s.init = some (.ret ()) →
      RestartStep E .done s { t := { s.t with window := false }, init := none }

/-- Both rings have just been initialised, and no thread is inside a call. -/
structure RestartStart (E : EthDev) (s : RestartSys) : Prop where
  rings : ∃ w₀, w₀.m.Uncached ∧ Prog.Runs (access direct True) (ringsInit E.indev) w₀ () s.t.w
  rx : s.t.rx = none
  tx : s.t.tx = none
  since : s.t.since = []
  init : s.init = none

/-! ## The condition -/

/-- No call of `_emac_tx` has made an access. -/
def TxFresh (D : Indev) (t : Traffic) : Prop :=
  ∀ f p, t.tx = some (f, p) →
    ∃ q : Pbuf, q ≠ [] ∧ q.flatten.length ≤ 2047 ∧ f = q.flatten ∧ p = emacTx D q

/-- The accesses with which `_emac_rx` hands a descriptor back. -/
def Op.handsBack : Op → Bool
  | .store _ _ => true
  | .setRxCurrdescnum _ => true
  | _ => false

/-- A call of `_emac_rx` during which the index was reset does not hand a descriptor back, no call
of `_emac_tx` works on the ring that is about to be replaced, and, as ever, a call finds its
descriptor free and is not overtaken by the DMA in front of the store of the status word. -/
def PeerMeets (D : Indev) : PeerAct → Traffic → Prop
  | .complete, t => ∀ v, nextTx t.tx ≠ some (.store t.w.txDma v)
  | .rxAccess o, t => t.age = .stale → o.handsBack = false
  | .txCall, t => armed (descAt (D.txChain t.w.txCur.toNat) t.w.m.mem) = false
  | .txAccess, t => t.window = false
  | _, _ => True

def RestartMeets (D : Indev) : RestartAct → RestartSys → Prop
  | .peer a, s => PeerMeets D a s.t
  | .restart, s => TxFresh D s.t
  | _, _ => True

/-! ## What the index and the DMA's position agree on -/

/-- `h` frames have been handed up since the receive ring was initialised. -/
structure RxAgreed (D : Indev) (h : ℕ) (w : World) : Prop where
  low : h ≤ w.delivered.length
  high : w.delivered.length ≤ h + 32
  cur : w.rxCur.toNat = h % 32
  dma : w.rxDma = D.rxChain (w.delivered.length % 32)
  /-- From the index on lie the frames that have not been handed up, -/
  filled : ∀ k f, h ≤ k → w.delivered[k]? = some f →
    w.m.mem.read32 (D.rxChain (k % 32)) = f.status ∧ own f.status = false
  /-- and then the descriptors that the DMA fills. -/
  free : ∀ k, w.delivered.length ≤ k → k < h + 32 →
    own (w.m.mem.read32 (D.rxChain (k % 32))) = true

/-- `acc` has been accepted since the transmit ring was initialised. -/
structure TxAgreed (D : Indev) (acc : List TxFrame) (w : World) : Prop where
  log : w.sent <+: acc
  room : acc.length ≤ w.sent.length + 32
  cur : w.txCur.toNat = acc.length % 32
  dma : w.txDma = D.txChain (w.sent.length % 32)
  /-- The DMA takes the descriptors in turn, -/
  next : ∀ k, w.sent.length ≤ k → k < w.sent.length + 32 →
    (descAt (D.txChain (k % 32)) w.m.mem).next.toNat = D.txChain ((k + 1) % 32)
  /-- and the unsent frames are in those it comes to. -/
  queued : ∀ k f, w.sent.length ≤ k → acc[k]? = some f →
    armed (descAt (D.txChain (k % 32)) w.m.mem) = true ∧
      txFrameAt w.m.mem (D.txChain (k % 32)) = f

/-- The ring positions agree, and the frames accepted since the restart began are among those that
have been sent from the ring or are queued in it. -/
structure Agreed (D : Indev) (t : Traffic) : Prop where
  rx : ∃ h, RxAgreed D h t.w
  tx : ∃ acc, t.since <:+ acc ∧ TxAgreed D acc t.w

theorem RxIdle.agreed {h : ℕ} (hr : RxIdle D h w) : RxAgreed D h w := by
  have hslot : ∀ k, h ≤ k → k < h + 32 → RxSlot D w.delivered k (w.rxCell D (k % 32)) := by
    intro k hlo hhi
    rcases Nat.eq_or_lt_of_le hlo with rfl | hlt
    · exact hr.ring.slot
    · exact hr.ring.ring.rest k hlt hhi
  refine ⟨hr.ring.ring.low, hr.ring.ring.high, hr.cur, hr.ring.ring.dma, ?_, ?_⟩
  · intro k f hlo hf
    have hlt : k < w.delivered.length := (List.getElem?_eq_some_iff.1 hf).1
    have hhigh := hr.ring.ring.high
    exact ⟨(hslot k hlo (by omega)).full f hf,
      (hr.ring.ring.frames f (List.mem_of_getElem? hf)).1⟩
  · intro k hlo hhi
    have hlow := hr.ring.ring.low
    exact (hslot k (by omega) hhi).empty (List.getElem?_eq_none hlo)

theorem TxIdle.agreed {acc : List TxFrame} (ht : TxIdle D acc w) : TxAgreed D acc w := by
  have hslot : ∀ k, w.sent.length ≤ k → k < w.sent.length + 32 → TxSlot D acc k w :=
    fun k hlo hhi => ht.ring.slots k hlo hhi (Set.notMem_empty k)
  refine ⟨ht.ring.log, ht.ring.room, ht.cur, ht.ring.dma, ?_, ?_⟩
  · intro k hlo hhi
    have hnext : (descAt (D.txChain (k % 32)) w.m.mem).next =
        BitVec.ofNat 32 (D.txChain ((k % 32 + 1) % 32)) := (hslot k hlo hhi).mem.2
    rw [hnext, Indev.toNat_txChain (by omega), show (k % 32 + 1) % 32 = (k + 1) % 32 by omega]
  · intro k f hlo hf
    have hlt : k < acc.length := (List.getElem?_eq_some_iff.1 hf).1
    have hroom := ht.ring.room
    have hk := hslot k hlo (by omega)
    have hq := hk.queued f hf
    exact ⟨hq.armed, hq.frame (Nat.mod_lt _ (by omega)) hk.mem⟩

/-! ## `_emac_rx` on a ring in any state -/

/-- The answers that count here: the index is that of a descriptor. -/
def inRange : Prog.Sem Op Op.Ret Unit
  | .rxCurrdescnum, _, v, _ => v.toNat < 32
  | _, _, _, _ => True

/-- What `_emac_rx` changes: own bits that it sets, and the index. -/
def Frees (D : Indev) : Op → Prop
  | .store a v => (∃ i < 32, a = D.rxChain i) ∧ own v = true
  | .setRxCurrdescnum v => v.toNat < 32
  | .store8 _ _ => False
  | .setTxCurrdescnum _ => False
  | .writel _ _ => False
  | _ => True

/-- A routine that changes no more than that, whatever the memory holds. -/
def Freeing (D : Indev) (p : EmacM α) : Prop :=
  Prog.wp inRange Prog.still (fun o _ _ _ => Frees D o) p (fun _ _ => True) ()

/-- The accesses that change nothing. -/
def Looks : Op → Prop
  | .store _ _ => False
  | .setRxCurrdescnum _ => False
  | o => Frees Indev.sdram o

theorem Looks.frees {o : Op} (ho : Looks o) : Frees D o := by
  cases o <;> first | exact trivial | exact ho.elim

theorem freeing_of_looks {p : EmacM α} (hp : p.Only Looks) : Freeing D p :=
  hp.wp (I := fun _ => True) (fun _ => Prog.stable_still)
    (fun _ _ _ _ ho _ _ => ⟨ho.frees, trivial⟩) trivial

theorem Freeing.bind {p : EmacM α} {f : α → EmacM β} (hp : Freeing D p)
    (hf : ∀ a, Freeing D (f a)) : Freeing D (p >>= f) :=
  Prog.wp_seq hp fun a _ _ => hf a

theorem freeing_call_iff {o : Op} {k : o.Ret → EmacM α} :
    Freeing D (.call o k) ↔ ∀ r, inRange o () r () → Frees D o ∧ Freeing D (k r) :=
  Prog.wp_still_call_iff.trans ⟨fun h r hr => h r () hr, fun h r _ hr => h r hr⟩

theorem looks_invalidate (start stop : ℕ) : (invalidateDcacheRange start stop).Only Looks := by
  unfold invalidateDcacheRange
  exact .ite (only_eachLine (fun _ => Prog.only_op trivial) _ _) (Prog.only_pure ())

theorem looks_recv (D : Indev) : (sun8iEthRecv D).Only Looks := by
  have hreleased : ∀ descP dataStart, (recvReleased descP dataStart).Only Looks := by
    intro descP dataStart
    refine (Prog.only_op trivial).bind fun _ => (looks_invalidate _ _).bind fun _ => ?_
    refine .ite (Prog.only_pure _) (.ite (Prog.only_pure _) ?_)
    exact (Prog.only_op trivial).bind fun _ => Prog.only_pure _
  refine (Prog.only_op trivial).bind fun _ => (Prog.only_op trivial).bind fun _ => ?_
  refine (looks_invalidate _ _).bind fun _ => (Prog.only_op trivial).bind fun _ => ?_
  exact .ite (Prog.only_pure _) (hreleased _ _)

theorem looks_copyOut (a n : ℕ) : (copyOut a n).Only Looks := by
  induction n generalizing a with
  | zero => exact Prog.only_pure []
  | succ n ih =>
      exact (Prog.only_op trivial).bind fun _ => (ih (a + 1)).bind fun _ => Prog.only_pure _

theorem looks_copyPbuf (a : ℕ) (lens : List ℕ) : (copyPbuf a lens).Only Looks := by
  induction lens generalizing a with
  | nil => exact Prog.only_pure []
  | cons len lens ih =>
      exact (looks_copyOut a len).bind fun _ => (ih (a + len)).bind fun _ => Prog.only_pure _

theorem freeing_freePkt (D : Indev) : Freeing D (sun8iFreePkt D) := by
  refine freeing_call_iff.2 fun descNum hcur => ⟨trivial, ?_⟩
  have hnext : (nextDescNum descNum).toNat < 32 := by
    have hsucc := nextDescNum_toNat (h := descNum.toNat) (Nat.mod_eq_of_lt hcur).symm
    omega
  refine freeing_call_iff.2 fun status _ => ⟨trivial, ?_⟩
  refine freeing_call_iff.2 fun _ _ => ⟨⟨⟨_, hcur, rfl⟩, own_or_bit31 status⟩, ?_⟩
  refine (freeing_of_looks (only_eachLine (fun _ => Prog.only_op trivial) _ _)).bind fun _ => ?_
  have hlast : ∀ v : U32, v.toNat < 32 → Freeing D (.call (.setRxCurrdescnum v) .ret) :=
    fun v hv => freeing_call_iff.2 fun _ _ => ⟨hv, freeing_of_looks (Prog.only_pure ())⟩
  exact hlast _ hnext

theorem freeing_emacRx (D : Indev) : Freeing D (emacRx D) := by
  refine (freeing_of_looks (looks_recv D)).bind fun recv => ?_
  split
  · exact freeing_of_looks (Prog.only_pure none)
  · refine freeing_call_iff.2 fun p _ => ⟨trivial, ?_⟩
    cases p with
    | none => exact freeing_of_looks (Prog.only_pure none)
    | some lens =>
        refine (freeing_of_looks (looks_copyPbuf _ _)).bind fun p => ?_
        exact (freeing_freePkt D).bind fun _ => freeing_of_looks (Prog.only_pure (some p))

/-! ## What a step does to the world -/

/-- Of the receive ring a step changes own bits and the index at most, of the transmit ring and the
start bits nothing. -/
inductive Moved (D : Indev) : World → World → Prop
  | other {w w' : World} : RxSame D w w' → TxSame D w w' → w'.rxRun = w.rxRun →
      w'.txRun = w.txRun → w'.m.Uncached → Moved D w w'
  | setOwn {w : World} (i : ℕ) (v : U32) : w.m.Uncached → i < 32 → own v = true →
      Moved D w { w with m := w.m.setMem (w.m.mem.write32 (D.rxChain i) v) }
  | setCur {w : World} (v : U32) : w.m.Uncached → v.toNat < 32 → Moved D w { w with rxCur := v }

namespace Moved

theorem refl (hw : w.m.Uncached) : Moved D w w :=
  .other (.refl w) (.refl w) rfl rfl hw

theorem memory (h : Moved D w w') : w'.m.Uncached := by
  cases h with
  | other _ _ _ _ hw => exact hw
  | setOwn i v hw _ _ => exact hw.setMem _
  | setCur v hw _ => exact hw

theorem index (h : Moved D w w') (hw : w.rxCur.toNat < 32) : w'.rxCur.toNat < 32 := by
  cases h with
  | other hrx _ _ _ _ => exact hrx.rxCur ▸ hw
  | setOwn i v _ _ _ => exact hw
  | setCur v _ hv => exact hv

theorem stopped (h : Moved D w w') : w'.rxRun = w.rxRun ∧ w'.txRun = w.txRun := by
  cases h with
  | other _ _ hrx htx _ => exact ⟨hrx, htx⟩
  | setOwn i v _ _ _ => exact ⟨rfl, rfl⟩
  | setCur v _ _ => exact ⟨rfl, rfl⟩

theorem txSame (h : Moved D w w') : TxSame D w w' := by
  cases h with
  | other _ htx _ _ _ => exact htx
  | setCur v _ _ => exact .of_memory rfl rfl rfl rfl
  | setOwn i v hw hi _ =>
      have hmem : ∀ x, D.InTx x → w.m.mem.write32 (D.rxChain i) v x = w.m.mem x := by
        intro x hx
        have hne := rxLine_ne hi x hx
        have halign := Indev.rxChain_aligned (D := D) (i := i)
        exact Mem.write32_outside (by omega)
      refine ⟨rfl, rfl, rfl, hmem, ?_, fun _ _ => rfl⟩
      intro x hx
      rw [(hw.setMem _).view, hw.view]
      exact hmem x hx

theorem rxInit (h : Moved D w w') : RxInitEnv D w w' := by
  cases h with
  | other hrx _ _ _ _ => exact .other hrx
  | setOwn i v hw hi hv => exact .setOwn i v hw hi hv
  | setCur v _ _ => exact .setCur v

end Moved

theorem direct_write32 (c : CMem) {a : ℕ} (ha : a % 64 ≤ 60) (v : U32) :
    direct.write c (a / 64) (fun m => m.write32 a v) = c.setMem (c.mem.write32 a v) := by
  refine congrArg c.setMem (funext fun x => ?_)
  by_cases hline : x / 64 = a / 64
  · exact if_pos hline
  · exact (if_neg hline).trans (Mem.write32_outside (by omega)).symm

theorem Frees.moved {o : Op} {r : o.Ret} (ho : Frees D o) (hw : w.m.Uncached)
    (hacc : access direct True o w r w') : Moved D w w' := by
  cases hacts : o.acts with
  | false =>
      rw [access_passive_direct hacts hacc]
      exact .refl hw
  | true =>
      cases o with
      | store a v =>
          cases hacc
          rcases ho with ⟨⟨i, hi, rfl⟩, hv⟩
          have halign := Indev.rxChain_aligned (D := D) (i := i)
          rw [direct_write32 w.m (by omega) v]
          exact .setOwn i v hw hi hv
      | dcimvac a =>
          cases hacc
          exact .refl hw
      | setRxCurrdescnum v =>
          cases hacc
          exact .setCur v hw ho
      | store8 a b => exact ho.elim
      | setTxCurrdescnum v => exact ho.elim
      | writel reg v => exact ho.elim
      | _ => exact absurd hacts (by simp [Op.acts])

/-- Without the accesses that hand a descriptor back, nothing changes. -/
theorem Frees.still {o : Op} {r : o.Ret} (ho : Frees D o) (hback : o.handsBack = false)
    (hacc : access direct True o w r w') : w' = w := by
  cases hacts : o.acts with
  | false => exact access_passive_direct hacts hacc
  | true =>
      cases o with
      | store a v => exact absurd hback (by simp [Op.handsBack])
      | setRxCurrdescnum v => exact absurd hback (by simp [Op.handsBack])
      | dcimvac a => exact hacc
      | store8 a b => exact ho.elim
      | setTxCurrdescnum v => exact ho.elim
      | writel reg v => exact ho.elim
      | _ => exact absurd hacts (by simp [Op.acts])

/-- On direct memory, what an access does when its cached counterpart is seen as `F`. -/
theorem direct_seen {F : World → World → Prop} {o : Op} {r : o.Ret}
    (hnoise : ∀ t t', World.Noise t t' → F t t') (hw : w.m.Uncached)
    (hacc : access direct True o w r w') (hF : ∀ t, access cached True o w r t → F w t) :
    w'.m.Uncached ∧ Relation.ReflTransGen F w w' := by
  rcases simulated_direct.step hw hacc with ⟨t, hcached, hn, hw'⟩
  exact ⟨hw', .head (hF t hcached) (Relation.ReflTransGen.mono hnoise _ _ hn)⟩

/-! ## Invariants -/

/-- What holds of the receive thread in every phase of a restart. -/
structure Held (D : Indev) (t : Traffic) : Prop where
  memory : t.w.m.Uncached
  index : t.w.rxCur.toNat < 32
  rx : ∀ p, t.rx = some p → Freeing D p
  fresh : t.age = .fresh → ∀ p, t.rx = some p → p = emacRx D

/-- The receive ring is in order; a stale call is not going to change it. -/
def RxOk (D : Indev) (t : Traffic) : Prop :=
  ∃ h, if t.age = .stale then RxIdle D h t.w else RxThread D True h t.rx t.w

/-- The transmit ring is in order and holds what has been accepted since the restart began. -/
def TxOk (D : Indev) (t : Traffic) : Prop :=
  ∃ acc, t.since <:+ acc ∧ TxThread D True acc t.tx t.w

/-- Outside the part of a restart in which it replaces the rings, both are in order. -/
structure Sound (D : Indev) (t : Traffic) : Prop extends Held D t where
  rxRing : RxOk D t
  txRing : TxOk D t

/-- No frame has been accepted since the restart began, nor is any about to be. -/
structure Shut (D : Indev) (t : Traffic) : Prop where
  window : t.window = true
  since : t.since = []
  tx : TxFresh D t

/-- Neither channel runs. -/
def Stopped (w : World) : Prop := w.rxRun = false ∧ w.txRun = false

/-- Neither channel runs, and nothing is being transmitted: the part of a restart in which it
replaces the rings. -/
structure Halted (D : Indev) (t : Traffic) : Prop extends Held D t where
  shut : Shut D t
  stopped : Stopped t.w

variable {t t' : Traffic} {a : PeerAct}

/-! ## The receive ring among its peers -/

theorem Held.rxAccess {o : Op} {k : o.Ret → EmacM (Option Pbuf)} {r : o.Ret} (hs : Held D t)
    (hrx : t.rx = some (.call o k)) (hacc : access direct True o t.w r w') :
    Frees D o ∧ Moved D t.w w' ∧ Freeing D (k r) := by
  have hrange : inRange o () r () := by
    cases o with
    | rxCurrdescnum =>
        rcases hacc with ⟨rfl, -⟩
        exact hs.index
    | _ => trivial
  rcases freeing_call_iff.1 (hs.rx _ hrx) r hrange with ⟨ho, hk⟩
  exact ⟨ho, ho.moved hs.memory hacc, hk⟩

theorem rxCur_of_env (h : Relation.ReflTransGen (RxEnv D) w w') : w'.rxCur = w.rxCur := by
  induction h with
  | refl => rfl
  | tail _ he ih => exact he.rxCur.trans ih

/-- The steps on the transmit side are given by what they do to the receive ring. -/
theorem Held.peer (hs : Held D t) (hstep : PeerStep D a t t')
    (hfar : a = .complete ∨ a = .txAccess →
      t'.w.m.Uncached ∧ Relation.ReflTransGen (RxEnv D) t.w t'.w) : Held D t' := by
  cases hstep with
  | other hrx _ _ _ hw => exact ⟨hw, hrx.rxCur ▸ hs.index, hs.rx, hs.fresh⟩
  | deliver f _ => exact ⟨hs.memory.setMem _, hs.index, hs.rx, hs.fresh⟩
  | complete status _ => exact ⟨hs.memory.setMem _, hs.index, hs.rx, hs.fresh⟩
  | rxCall _ =>
      refine ⟨hs.memory, hs.index, ?_, ?_⟩
      · rintro p ⟨⟩
        exact freeing_emacRx D
      · rintro _ p ⟨⟩
        rfl
  | rxAccess hrx hacc =>
      rcases hs.rxAccess hrx hacc with ⟨-, hmoved, hk⟩
      refine ⟨hmoved.memory, hmoved.index hs.index, ?_, ?_⟩
      · rintro p ⟨⟩
        exact hk
      · intro hage
        rcases t with ⟨_, _, age, _⟩
        cases age <;> exact absurd hage (by simp [Age.enter])
  | rxDone _ => exact ⟨hs.memory, hs.index, fun p hp => absurd hp (by simp),
      fun _ p hp => absurd hp (by simp)⟩
  | txCall p _ _ _ => exact ⟨hs.memory, hs.index, hs.rx, hs.fresh⟩
  -- An access of the other half may reach memory, and is noise for this one.
  | txAccess _ _ =>
      rcases hfar (.inr rfl) with ⟨hw, henv⟩
      exact ⟨hw, (rxCur_of_env henv).symm ▸ hs.index, hs.rx, hs.fresh⟩
  | txDone _ => exact ⟨hs.memory, hs.index, hs.rx, hs.fresh⟩

theorem RxOk.env (hr : RxOk D t) (henv : Relation.ReflTransGen (RxEnv D) t.w w') :
    RxOk D { t with w := w' } := by
  induction henv with
  | refl => exact hr
  | tail _ he ih =>
      rcases ih with ⟨h, ih⟩
      refine ⟨h, ?_⟩
      dsimp only at ih ⊢
      split_ifs at ih ⊢
      · exact ih.env he
      · exact RxThread.env ih he

/-- Between two calls. -/
theorem RxOk.idle (hr : RxOk D t) (hrx : t.rx = none) : ∃ h, RxIdle D h t.w := by
  rcases hr with ⟨h, hr⟩
  rw [hrx] at hr
  split_ifs at hr
  · exact ⟨h, hr⟩
  · exact ⟨h, hr⟩

theorem RxOk.deliver_txSame {f : RxFrame} (hr : RxOk D t) (hd : CanDeliver t.w f) :
    TxSame D t.w (t.w.deliver f) := by
  rcases hr with ⟨h, hr⟩
  split_ifs at hr
  · exact hr.busy.deliver_txSame hd
  · exact RxThread.deliver_txSame hr hd

theorem RxOk.rxAccess {o : Op} {k : o.Ret → EmacM (Option Pbuf)} {r : o.Ret} (hr : RxOk D t)
    (hs : Held D t) (hmeets : t.age = .stale → o.handsBack = false)
    (hrx : t.rx = some (.call o k)) (hacc : access direct True o t.w r w') :
    RxOk D { t with w := w', rx := some (k r), age := t.age.enter } := by
  rcases hr with ⟨h, hr⟩
  refine ⟨h, ?_⟩
  by_cases hage : t.age = .stale
  · have hstill : w' = t.w := (hs.rxAccess hrx hacc).1.still (hmeets hage) hacc
    rw [if_pos hage] at hr
    have henter : t.age.enter = .stale := by
      rw [hage]
      rfl
    rw [if_pos henter, hstill]
    exact hr
  · rw [if_neg hage, hrx] at hr
    have henter : t.age.enter ≠ .stale := by
      intro hstale
      rcases t with ⟨_, _, age, _⟩
      cases age <;> simp_all [Age.enter]
    rw [if_neg henter]
    exact (hr.access simulated_direct hs.memory hacc).2.2

theorem RxOk.rxDone {p : Option Pbuf} (hr : RxOk D t) (hrx : t.rx = some (.ret p)) :
    RxOk D { t with rx := none } := by
  rcases hr with ⟨h, hr⟩
  by_cases hage : t.age = .stale
  · rw [if_pos hage] at hr
    refine ⟨h, ?_⟩
    rw [if_pos hage]
    exact hr
  · rw [if_neg hage, hrx] at hr
    refine ⟨h + p.toList.length, ?_⟩
    rw [if_neg hage]
    exact RxThread.done hr

theorem RxOk.peer (hr : RxOk D t) (hs : Held D t) (hmeets : PeerMeets D a t)
    (hstep : PeerStep D a t t')
    (hfar : a = .complete ∨ a = .txAccess →
      t'.w.m.Uncached ∧ Relation.ReflTransGen (RxEnv D) t.w t'.w) : RxOk D t' := by
  cases hstep with
  | other hrx _ _ _ _ => exact hr.env (.single (.other hrx))
  | deliver f hd => exact hr.env (.single (.deliver f hd))
  | complete status _ => exact hr.env (hfar (.inl rfl)).2
  | rxCall hrx =>
      rcases hr.idle hrx with ⟨h, hidle⟩
      exact ⟨h, RxThread.call hidle⟩
  | rxAccess hrx hacc => exact hr.rxAccess hs hmeets hrx hacc
  | rxDone hrx => exact hr.rxDone hrx
  | txCall p _ _ _ => exact hr
  | txAccess _ _ => exact hr.env (hfar (.inr rfl)).2
  | txDone _ => exact hr

/-! ## The transmit ring among its peers -/

/-- A descriptor that is not armed is free. -/
theorem TxIdle.room {acc : List TxFrame} (ht : TxIdle D acc w)
    (hfree : armed (descAt (D.txChain w.txCur.toNat) w.m.mem) = false) :
    acc.length < w.sent.length + 32 := by
  by_contra hfull
  have hroom := ht.ring.room
  have hlt : w.sent.length < acc.length := by omega
  have hslot := ht.ring.slots _ le_rfl (by omega) (Set.notMem_empty _)
  have harmed : armed (descAt (D.txChain (w.sent.length % 32)) w.m.mem) = true :=
    (hslot.queued _ (List.getElem?_eq_getElem hlt)).armed
  rw [ht.cur, show acc.length % 32 = w.sent.length % 32 by omega, harmed] at hfree
  exact absurd hfree (by decide)

/-- What the transmit side does to the receive ring. -/
theorem TxOk.far (ht : TxOk D t) (hw : t.w.m.Uncached) (hstep : PeerStep D a t t')
    (ha : a = .complete ∨ a = .txAccess) :
    t'.w.m.Uncached ∧ Relation.ReflTransGen (RxEnv D) t.w t'.w := by
  rcases ht with ⟨acc, -, hth⟩
  cases hstep with
  | complete status _ => exact ⟨hw.setMem _, .single (.other hth.complete_rxSame)⟩
  | txAccess htx hacc =>
      rw [htx] at hth
      rcases hth.access simulated_direct hw hacc with ⟨-, -, ho, -⟩
      refine direct_seen (fun _ _ hn => .noise hn) hw hacc fun _ hcached => ?_
      exact (ho.quiet (Nat.mod_lt _ (by omega)) hcached).env
  | _ => simp at ha

theorem TxOk.peer (ht : TxOk D t) (hs : Held D t) (hr : RxOk D t) (hmeets : PeerMeets D a t)
    (hstep : PeerStep D a t t') : TxOk D t' := by
  rcases ht with ⟨acc, hsince, hth⟩
  cases hstep with
  | other _ htx _ _ _ => exact ⟨acc, hsince, hth.env (.other htx)⟩
  | deliver f hd => exact ⟨acc, hsince, hth.env (.other (hr.deliver_txSame hd))⟩
  | complete status hc =>
      exact ⟨acc, hsince, hth.env (.complete status hc ⟨hs.memory.dirty _, hmeets⟩)⟩
  | rxCall _ => exact ⟨acc, hsince, hth⟩
  | rxAccess hrx hacc =>
      exact ⟨acc, hsince, hth.env (.other (hs.rxAccess hrx hacc).2.1.txSame)⟩
  | rxDone _ => exact ⟨acc, hsince, hth⟩
  | txCall p htx hp hfit =>
      rw [htx] at hth
      exact ⟨acc, hsince, hth.call hp hfit (TxIdle.room hth hmeets)⟩
  | txAccess htx hacc =>
      rw [htx] at hth
      exact ⟨acc, hsince, (hth.access simulated_direct hs.memory hacc).2.2.2⟩
  | @txDone _ f htx =>
      rw [htx] at hth
      rcases hsince with ⟨before, rfl⟩
      exact ⟨before ++ t.since ++ [f], ⟨before, (List.append_assoc ..).symm⟩, hth.done⟩

/-! ## The phases -/

theorem Sound.peer (hs : Sound D t) (hmeets : PeerMeets D a t) (hstep : PeerStep D a t t') :
    Sound D t' :=
  have hfar := hs.txRing.far hs.memory hstep
  ⟨hs.toHeld.peer hstep hfar, hs.rxRing.peer hs.toHeld hmeets hstep hfar,
    hs.txRing.peer hs.toHeld hs.rxRing hmeets hstep⟩

theorem emacTx_ne_ret {p : Pbuf} (hp : p ≠ []) : emacTx D p ≠ .ret () := by
  cases p with
  | nil => exact absurd rfl hp
  | cons q qs =>
      intro hret
      unfold emacTx emacTxFrom sun8iEmacEthSend at hret
      split_ifs at hret <;> cases hret

/-- While calls of `_emac_tx` make no access, none is accepted. -/
theorem Shut.peer (hs : Shut D t) (hmeets : PeerMeets D a t) (hstep : PeerStep D a t t') :
    Shut D t' := by
  rcases hs with ⟨hwindow, hsince, htx⟩
  cases hstep with
  | txCall p _ hp hfit =>
      refine ⟨hwindow, hsince, ?_⟩
      rintro f q ⟨⟩
      exact ⟨p, hp, hfit, rfl, rfl⟩
  | txAccess _ _ => exact absurd (hwindow.symm.trans hmeets) (by simp)
  | txDone hret =>
      rcases htx _ _ hret with ⟨p, hp, -, -, hcall⟩
      exact absurd hcall.symm (emacTx_ne_ret hp)
  | _ => exact ⟨hwindow, hsince, htx⟩

/-- While both channels are stopped, the others at most set own bits and the receive index. -/
theorem Halted.moved (hs : Halted D t) (hmeets : PeerMeets D a t)
    (hstep : PeerStep D a t t') : Moved D t.w t'.w := by
  cases hstep with
  | other hrx htx hrxRun htxRun hw => exact .other hrx htx hrxRun htxRun hw
  | deliver f hd => exact absurd (hs.stopped.1.symm.trans hd.run) (by simp)
  | complete status hc => exact absurd (hs.stopped.2.symm.trans hc.run) (by simp)
  | rxAccess hrx hacc => exact (hs.rxAccess hrx hacc).2.1
  | txAccess _ _ => exact absurd (hs.shut.window.symm.trans hmeets) (by simp)
  | _ => exact .refl hs.memory

theorem Halted.far (hs : Halted D t) (hmeets : PeerMeets D a t)
    (hstep : PeerStep D a t t') (ha : a = .complete ∨ a = .txAccess) :
    t'.w.m.Uncached ∧ Relation.ReflTransGen (RxEnv D) t.w t'.w := by
  cases hstep with
  | complete status hc => exact absurd (hs.stopped.2.symm.trans hc.run) (by simp)
  | txAccess _ _ => exact absurd (hs.shut.window.symm.trans hmeets) (by simp)
  | _ => simp at ha

theorem Halted.peer (hs : Halted D t) (hmeets : PeerMeets D a t)
    (hstep : PeerStep D a t t') : Halted D t' := by
  rcases (hs.moved hmeets hstep).stopped with ⟨hrx, htx⟩
  exact ⟨hs.toHeld.peer hstep (hs.far hmeets hstep), hs.shut.peer hmeets hstep,
    hrx.trans hs.stopped.1, htx.trans hs.stopped.2⟩

end Emac

end BspV3s
