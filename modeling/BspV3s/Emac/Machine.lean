import BspV3s.Emac.Driver

/-!
# Machine — memory, ring indices and the two DMA channels

`World` is what the driver and the controller share, together with a log of the frames that each
DMA channel has moved since it was last pointed at its ring.  `access` is the meaning of the
driver's accesses, `deliver` and `complete` are the steps of the two channels: each walks its ring
along the `next` fields and touches a descriptor only while its own bit is set.

The meaning is given over a `MemSys`, so the same driver runs on cached and on direct memory; the
second is simulated by the first.
-/

namespace BspV3s

namespace Emac

/-- A received frame: the status word that the DMA stores and the bytes it puts in the buffer. -/
structure RxFrame where
  status : U32
  bytes : List Byte

abbrev TxFrame : Type := List Byte

theorem concat_isPrefix {α : Type} {l m : List α} {a : α} (hl : l <+: m)
    (ha : m[l.length]? = some a) : l ++ [a] <+: m := by
  rcases hl with ⟨t, rfl⟩
  rw [List.getElem?_append_right le_rfl, Nat.sub_self] at ha
  rcases t with - | ⟨b, t⟩
  · exact absurd ha (by simp)
  · have hb : b = a := by simpa using ha
    exact ⟨t, by simp [hb]⟩

theorem getElem?_append_ne {α : Type} {l : List α} {a : α} {k : ℕ} (hk : k ≠ l.length) :
    (l ++ [a])[k]? = l[k]? := by
  rcases Nat.lt_or_gt_of_ne hk with hlt | hgt
  · exact List.getElem?_append_left hlt
  · rw [List.getElem?_eq_none (by simp; omega), List.getElem?_eq_none (by omega)]

structure World where
  m : CMem
  rxCur : U32
  txCur : U32
  rxDma : ℕ
  txDma : ℕ
  rxRun : Bool
  txRun : Bool
  delivered : List RxFrame
  sent : List TxFrame

/-- A machine before anything has been initialised. -/
def World.reset : World where
  m := ⟨fun _ => 0, fun _ => none⟩
  rxCur := 0
  txCur := 0
  rxDma := 0
  txDma := 0
  rxRun := false
  txRun := false
  delivered := []
  sent := []

/-! ## The controller's registers -/

/-- The values that a register read may give.  The start bits read back what was written, and
while the soft reset lasts no channel runs. -/
def readable (w : World) (v : U32) : Reg → Prop
  | .ctl1 => v.getLsbD 0 = true → w.rxRun = false ∧ w.txRun = false
  | .rxCtl1 => v.getLsbD 30 = w.rxRun
  | .txCtl1 => v.getLsbD 30 = w.txRun
  | _ => True

/-- The effect of a register write on the channels. -/
def World.writel (w : World) (v : U32) : Reg → World
  | .ctl1 => if v.getLsbD 0 then { w with rxRun := false, txRun := false } else w
  | .rxCtl1 => { w with rxRun := v.getLsbD 30 }
  | .txCtl1 => { w with txRun := v.getLsbD 30 }
  | .rxDmaDesc => { w with rxDma := v.toNat, delivered := [] }
  | .txDmaDesc => { w with txDma := v.toNat, sent := [] }
  | _ => w

@[simp] theorem World.m_writel (w : World) (v : U32) (r : Reg) : (w.writel v r).m = w.m := by
  cases r <;> simp only [World.writel]
  split <;> rfl

/-! ## Accesses -/

/-- The meaning of an access over memory system `M`; an allocation may fail only if `canFail`. -/
def access (M : MemSys) (canFail : Prop) : Prog.Sem Op Op.Ret World
  | .load a, w, r, w' =>
      r = (M.view w.m).read32 a ∧ w' = { w with m := M.touch w.m (a / 64) }
  | .store a v, w, _, w' =>
      w' = { w with m := M.write w.m (a / 64) fun m => m.write32 a v }
  | .load8 a, w, r, w' =>
      r = M.view w.m a ∧ w' = { w with m := M.touch w.m (a / 64) }
  | .store8 a b, w, _, w' =>
      w' = { w with m := M.write w.m (a / 64) fun m => m.writeBytes a [b] }
  | .dccimvac mva, w, _, w' => w' = { w with m := M.clean w.m (mva / 64) }
  | .dcimvac mva, w, _, w' => w' = { w with m := M.drop w.m (mva / 64) }
  | .rxCurrdescnum, w, r, w' => r = w.rxCur ∧ w' = w
  | .setRxCurrdescnum v, w, _, w' => w' = { w with rxCur := v }
  | .txCurrdescnum, w, r, w' => r = w.txCur ∧ w' = w
  | .setTxCurrdescnum v, w, _, w' => w' = { w with txCur := v }
  | .readl reg, w, r, w' => readable w r reg ∧ w' = w
  | .writel reg v, w, _, w' => w' = w.writel v reg
  | .phyRead _, w, _, w' => w' = w
  | .pbufAlloc length, w, r, w' =>
      (r = none → canFail) ∧ (∀ lens ∈ r, lens.sum = length) ∧ w' = w
  | .linkchange _, w, _, w' => w' = w
  | .threadDelay, w, _, w' => w' = w

/-- Every access has an outcome. -/
theorem exists_access (M : MemSys) (canFail : Prop) (o : Op) (w : World) :
    ∃ r w', access M canFail o w r w' := by
  cases o with
  | load a => exact ⟨_, _, rfl, rfl⟩
  | load8 a => exact ⟨_, _, rfl, rfl⟩
  | rxCurrdescnum => exact ⟨_, _, rfl, rfl⟩
  | txCurrdescnum => exact ⟨_, _, rfl, rfl⟩
  | phyRead r => exact ⟨0, _, rfl⟩
  | pbufAlloc n => exact ⟨some [n], w, by simp [access]⟩
  | readl r =>
      refine ⟨if r = .rxCtl1 ∧ w.rxRun ∨ r = .txCtl1 ∧ w.txRun then bit 30 else 0, w, ?_, rfl⟩
      have hbit : (bit 30).getLsbD 30 = true := by decide
      cases r <;> simp [readable]
      case rxCtl1 => cases w.rxRun <;> simp [hbit]
      case txCtl1 => cases w.txRun <;> simp [hbit]
  | _ => exact ⟨(), _, rfl⟩

/-- The accesses with an effect of their own, beyond what a cache does anyway. -/
def Op.acts : Op → Bool
  | .store _ _ => true
  | .store8 _ _ => true
  | .dcimvac _ => true
  | .setRxCurrdescnum _ => true
  | .setTxCurrdescnum _ => true
  | .writel _ _ => true
  | _ => false

/-- The other accesses at most touch or clean a line. -/
theorem access_passive {M : MemSys} {canFail : Prop} {o : Op} {w w' : World} {r : o.Ret}
    (ho : o.acts = false) (hacc : access M canFail o w r w') :
    ∃ m, w' = { w with m := m } ∧ (m = w.m ∨ ∃ l, m = M.touch w.m l ∨ m = M.clean w.m l) := by
  cases o with
  | load a =>
      rcases hacc with ⟨-, rfl⟩
      exact ⟨_, rfl, .inr ⟨_, .inl rfl⟩⟩
  | load8 a =>
      rcases hacc with ⟨-, rfl⟩
      exact ⟨_, rfl, .inr ⟨_, .inl rfl⟩⟩
  | dccimvac a => exact ⟨_, hacc, .inr ⟨_, .inr rfl⟩⟩
  | rxCurrdescnum => exact ⟨_, hacc.2, .inl rfl⟩
  | txCurrdescnum => exact ⟨_, hacc.2, .inl rfl⟩
  | readl reg => exact ⟨_, hacc.2, .inl rfl⟩
  | pbufAlloc n => exact ⟨_, hacc.2.2, .inl rfl⟩
  | phyRead reg => exact ⟨_, hacc, .inl rfl⟩
  | linkchange n => exact ⟨_, hacc, .inl rfl⟩
  | threadDelay => exact ⟨_, hacc, .inl rfl⟩
  | _ => exact absurd ho (by simp [Op.acts])

/-! ## The DMA -/

/-- The receive channel can put `f` into the next descriptor. -/
structure CanDeliver (w : World) (f : RxFrame) : Prop where
  run : w.rxRun = true
  owned : own (w.m.mem.read32 w.rxDma) = true
  released : own f.status = false
  fits : f.bytes.length ≤ CONFIG_ETH_RXSIZE

/-- Memory after the receive channel has put `f` into the next descriptor. -/
def rxWritten (w : World) (f : RxFrame) : Mem :=
  (w.m.mem.writeBytes (descAt w.rxDma w.m.mem).bufAddr.toNat f.bytes).write32 w.rxDma f.status

def World.deliver (w : World) (f : RxFrame) : World :=
  { w with
    m := w.m.setMem (rxWritten w f)
    rxDma := (descAt w.rxDma w.m.mem).next.toNat
    delivered := w.delivered ++ [f] }

/-- The frame in the transmit descriptor at `d`. -/
def txFrameAt (m : Mem) (d : ℕ) : TxFrame :=
  m.readBytes (descAt d m).bufAddr.toNat (txLength (descAt d m).st)

/-- The transmit descriptor has own, first and last set. -/
def armed (d : DmaDesc) : Bool := own d.status && firstLast d.st

/-- The transmit channel can take the next descriptor, and will leave `status` in it. -/
structure CanComplete (w : World) (status : U32) : Prop where
  run : w.txRun = true
  armed : armed (descAt w.txDma w.m.mem) = true
  released : own status = false

def World.complete (w : World) (status : U32) : World :=
  { w with
    m := w.m.setMem (w.m.mem.write32 w.txDma status)
    txDma := (descAt w.txDma w.m.mem).next.toNat
    sent := w.sent ++ [txFrameAt w.m.mem w.txDma] }

/-- A store that changes line `l` by `g`. -/
def World.write (w : World) (l : ℕ) (g : Mem → Mem) : World :=
  { w with m := w.m.write l g }

theorem World.dirty_write (w : World) (l l' : ℕ) (g : Mem → Mem) :
    (w.write l g).m.dirty l' = if l' = l then true else w.m.dirty l' :=
  CMem.dirty_write w.m l l' g

def World.evict (w : World) (l : ℕ) : World :=
  { w with m := w.m.evict l }

def World.drop (w : World) (l : ℕ) : World :=
  { w with m := w.m.drop l }

/-- Fills and evictions. -/
def World.Noise (w w' : World) : Prop :=
  ∃ c, CMem.Noise w.m c ∧ w' = { w with m := c }

theorem World.noise_evict (w : World) (l : ℕ) : World.Noise w (w.evict l) :=
  ⟨_, .evict _ l, rfl⟩

/-- Discarding a clean line is something the cache may do by itself. -/
theorem World.noise_drop {w : World} {l : ℕ} (hl : w.m.dirty l = false) :
    World.Noise w (w.drop l) :=
  ⟨_, .evict _ l, by rw [World.drop, CMem.drop_eq_evict hl]⟩

theorem access_passive_cached {canFail : Prop} {o : Op} {w w' : World} {r : o.Ret}
    (ho : o.acts = false) (hacc : access cached canFail o w r w') : World.Noise w w' ∨ w' = w := by
  rcases access_passive ho hacc with ⟨m, rfl, rfl | ⟨l, rfl | rfl⟩⟩
  · exact .inr rfl
  · exact .inl ⟨_, .fill _ l, rfl⟩
  · exact .inl ⟨_, .evict _ l, rfl⟩

theorem access_passive_direct {canFail : Prop} {o : Op} {w w' : World} {r : o.Ret}
    (ho : o.acts = false) (hacc : access direct canFail o w r w') : w' = w := by
  rcases access_passive ho hacc with ⟨m, rfl, rfl | ⟨l, rfl | rfl⟩⟩ <;> rfl

/-- The descriptor at `d` as memory and the processor have it. -/
def World.descCell (w : World) (d : ℕ) : Cell DmaDesc :=
  w.m.cell (d / 64) (descAt d)

theorem World.Noise.descCell {w w' : World} (hn : World.Noise w w') {d : ℕ} (hd : d % 64 = 0) :
    (w.descCell d).Drift (w'.descCell d) := by
  rcases hn with ⟨c, hc, rfl⟩
  exact CMem.cell_noise hc (local_descAt hd)

theorem descCell_write_of_ne {w : World} {l d : ℕ} {g : Mem → Mem} (hd : d % 64 = 0)
    (h : l ≠ d / 64) : (w.write l g).descCell d = w.descCell d := by
  unfold World.descCell World.write
  exact CMem.cell_write_other (local_descAt hd) h

theorem descCell_write_self {w : World} {d : ℕ} {g : Mem → Mem} (hd : d % 64 = 0) :
    (w.write (d / 64) g).descCell d = (w.descCell d).stored (descAt d (g w.m.view)) := by
  unfold World.descCell World.write
  exact CMem.cell_write_same (local_descAt hd)

/-! ## Direct memory is simulated by cached memory -/

/-- An access to direct memory is the cached access followed by evictions. -/
theorem access_direct {canFail : Prop} {o : Op} {w w' : World} {r : o.Ret}
    (hw : w.m.Uncached) (h : access direct canFail o w r w') :
    ∃ t, access cached canFail o w r t ∧ Relation.ReflTransGen World.Noise t w' ∧
      w'.m.Uncached := by
  have hevict : ∀ (c c' : CMem) (l : ℕ), c.evict l = c' →
      Relation.ReflTransGen World.Noise { w with m := c } { w with m := c' } := by
    rintro c c' l rfl
    exact .single ⟨_, .evict c l, rfl⟩
  have hself : ∀ c : CMem, c = w.m → ({ w with m := c } : World) = w := by
    rintro c rfl
    rfl
  -- A load leaves a line behind and a store a dirty one; the eviction takes both away.
  cases o with
  | load a =>
      rcases h with ⟨rfl, rfl⟩
      exact ⟨_, ⟨by simp [direct, cached, hw.view], rfl⟩, hevict _ _ _ (hw.evict_fill _), hw⟩
  | load8 a =>
      rcases h with ⟨rfl, rfl⟩
      exact ⟨_, ⟨by simp [direct, cached, hw.view], rfl⟩, hevict _ _ _ (hw.evict_fill _), hw⟩
  | store a v =>
      cases h
      exact ⟨_, rfl, hevict _ _ _ (hw.evict_write (a / 64) fun m => m.write32 a v), hw.setMem _⟩
  | store8 a b =>
      cases h
      exact ⟨_, rfl, hevict _ _ _ (hw.evict_write (a / 64) fun m => m.writeBytes a [b]),
        hw.setMem _⟩
  | dccimvac a =>
      cases h
      exact ⟨_, (hself _ (hw.evict _)).symm, .refl, hw⟩
  | dcimvac a =>
      cases h
      exact ⟨_, (hself _ (hw.drop _)).symm, .refl, hw⟩
  | writel reg v =>
      cases h
      refine ⟨_, rfl, .refl, ?_⟩
      cases reg <;> simp only [World.writel] <;> first | exact hw | (split <;> exact hw)
  | rxCurrdescnum => exact ⟨w', h, .refl, by rcases h with ⟨-, rfl⟩; exact hw⟩
  | txCurrdescnum => exact ⟨w', h, .refl, by rcases h with ⟨-, rfl⟩; exact hw⟩
  | readl r => exact ⟨w', h, .refl, by rcases h with ⟨-, rfl⟩; exact hw⟩
  | pbufAlloc n => exact ⟨w', h, .refl, by rcases h with ⟨-, -, rfl⟩; exact hw⟩
  | setRxCurrdescnum v => exact ⟨w', h, .refl, by cases h; exact hw⟩
  | setTxCurrdescnum v => exact ⟨w', h, .refl, by cases h; exact hw⟩
  | phyRead r => exact ⟨w', h, .refl, by cases h; exact hw⟩
  | linkchange n => exact ⟨w', h, .refl, by cases h; exact hw⟩
  | threadDelay => exact ⟨w', h, .refl, by cases h; exact hw⟩

/-- A memory system whose accesses are those of the cached one, as far as noise can tell; `ok`
holds of its memory throughout. -/
structure Simulated (M : MemSys) (ok : CMem → Prop) : Prop where
  step : ∀ {canFail : Prop} {o : Op} {w w' : World} {r : o.Ret}, ok w.m →
    access M canFail o w r w' →
    ∃ t, access cached canFail o w r t ∧ Relation.ReflTransGen World.Noise t w' ∧ ok w'.m

theorem simulated_cached : Simulated cached fun _ => True :=
  ⟨fun _ hacc => ⟨_, hacc, .refl, trivial⟩⟩

theorem simulated_direct : Simulated direct CMem.Uncached :=
  ⟨fun hw hacc => access_direct hw hacc⟩

/-! ## Rules for the accesses -/

section Rules

variable {α β : Type} {canFail : Prop} {R : Prog.Rely Op World} {G : Prog.Sem Op Op.Ret World}
  {P : World → Prop} {Q : β → World → Prop} {w : World}

/-- Assertions that survive interference before every access. -/
def Steady (R : Prog.Rely Op World) (P : World → Prop) : Prop :=
  ∀ o, Prog.Stable R o P

/-- The interference includes what the cache does of its own accord. -/
def Noisy (R : Prog.Rely Op World) : Prop :=
  ∀ o w w', World.Noise w w' → R o w w'

theorem Steady.fill (hP : Steady R P) (hR : Noisy R) (h : P w) (l : ℕ) :
    P { w with m := w.m.fill l } :=
  hP none _ _ h (hR _ _ _ ⟨_, .fill _ _, rfl⟩)

theorem Steady.and {P' : World → Prop} (hP : Steady R P) (hP' : Steady R P') :
    Steady R fun t => P t ∧ P' t :=
  fun o s s' h hstep => ⟨hP o s s' h.1 hstep, hP' o s s' h.2 hstep⟩

theorem wp_load {a : ℕ} {f : U32 → EmacM β} (hP : Steady R P) (hR : Noisy R) (hw : P w)
    (hG : ∀ t t', P t → G (.load a) t (t.m.view.read32 a) t')
    (h : ∀ t, P t → Prog.wp (access cached canFail) R G (f (t.m.view.read32 a)) Q t) :
    Prog.wp (access cached canFail) R G (load a >>= f) Q w := by
  refine Prog.wp_call (hP _) hw ?_
  rintro t r t' ht ⟨rfl, rfl⟩
  have hfill := h _ (hP.fill hR ht (a / 64))
  rw [CMem.view_fill] at hfill
  exact ⟨hG _ _ ht, hfill⟩

theorem wp_load8 {a : ℕ} {f : Byte → EmacM β} (hP : Steady R P) (hR : Noisy R) (hw : P w)
    (hG : ∀ t t', P t → G (.load8 a) t (t.m.view a) t')
    (h : ∀ t, P t → Prog.wp (access cached canFail) R G (f (t.m.view a)) Q t) :
    Prog.wp (access cached canFail) R G (load8 a >>= f) Q w := by
  refine Prog.wp_call (hP _) hw ?_
  rintro t r t' ht ⟨rfl, rfl⟩
  have hfill := h _ (hP.fill hR ht (a / 64))
  rw [CMem.view_fill] at hfill
  exact ⟨hG _ _ ht, hfill⟩

/-- The rule for an access whose effect is a function of the state: stores, maintenance, writes
to registers and to the ring indices. -/
theorem wp_act {o : Op} {f : o.Ret → EmacM β} (g : World → World)
    (hact : ∀ t r t', access cached canFail o t r t' → t' = g t)
    (hP : Prog.Stable R (some o) P) (hw : P w) (hG : ∀ t r, P t → G o t r (g t))
    (h : ∀ t r, P t → Prog.wp (access cached canFail) R G (f r) Q (g t)) :
    Prog.wp (access cached canFail) R G (Prog.op o >>= f) Q w := by
  refine Prog.wp_call hP hw ?_
  intro t r t' ht hacc
  rw [hact t r t' hacc]
  exact ⟨hG t r ht, h t r ht⟩

/-- The rule for an access that leaves the state alone and answers as `A` says. -/
theorem wp_ask {o : Op} {f : o.Ret → EmacM β} {A : World → o.Ret → Prop}
    (hask : ∀ t r t', access cached canFail o t r t' → A t r ∧ t' = t)
    (hP : Steady R P) (hw : P w) (hG : ∀ t r, P t → A t r → G o t r t)
    (h : ∀ t r, P t → A t r → Prog.wp (access cached canFail) R G (f r) Q t) :
    Prog.wp (access cached canFail) R G (Prog.op o >>= f) Q w := by
  refine Prog.wp_call (hP _) hw ?_
  intro t r t' ht hacc
  rcases hask t r t' hacc with ⟨hA, rfl⟩
  exact ⟨hG t' r ht hA, h t' r ht hA⟩

theorem wp_pure {a : β} (hP : Steady R P) (hw : P w) (h : ∀ t, P t → Q a t) :
    Prog.wp (access cached canFail) R G (pure a) Q w :=
  Prog.wp_return (hP none) hw h

/-- A routine verified over cached memory, one access later over another memory system. -/
theorem Simulated.wp {M : MemSys} {ok : CMem → Prop} {o : Op} {k : o.Ret → EmacM β} {w' : World}
    {r : o.Ret} (hM : Simulated M ok) (hR : Noisy R) (hok : ok w.m)
    (h : Prog.wp (access cached canFail) R G (.call o k) Q w) (hacc : access M canFail o w r w') :
    ok w'.m ∧ (∃ t, G o w r t) ∧ Prog.wp (access cached canFail) R G (k r) Q w' := by
  rcases hM.step hok hacc with ⟨t, hcached, hnoise, hok'⟩
  rcases Prog.wp_step h hcached with ⟨hg, hk⟩
  exact ⟨hok', ⟨t, hg⟩, Prog.wp_envs hk (Relation.ReflTransGen.mono (hR _) _ _ hnoise)⟩

/-- A routine verified over cached memory, run among other agents over another memory system. -/
theorem Simulated.steps {M : MemSys} {ok : CMem → Prop} {R' : Prog.Rely Op World}
    (hM : Simulated M ok) (hR : Noisy R) (hR' : ∀ o t t', ok t.m → R' o t t' → ok t'.m ∧ R o t t')
    {p p' : EmacM β} {w' : World} (hok : ok w.m)
    (h : Prog.wp (access cached canFail) R G p Q w)
    (hsteps : Relation.ReflTransGen (Prog.Step (access M canFail) R') (p, w) (p', w')) :
    ok w'.m ∧ Prog.wp (access cached canFail) R G p' Q w' := by
  generalize hc : (p, w) = c at hsteps
  generalize hc' : (p', w') = c' at hsteps
  induction hsteps generalizing p' w' with
  | refl =>
      cases hc
      cases hc'
      exact ⟨hok, h⟩
  | @tail c₁ c₂ _ hstep ih =>
      rcases c₁ with ⟨q, t⟩
      rcases ih rfl with ⟨hokt, ht⟩
      cases hstep with
      | env henv =>
          cases hc'
          rcases hR' _ _ _ hokt henv with ⟨hok', henv'⟩
          exact ⟨hok', Prog.wp_env ht henv'⟩
      | access hacc =>
          cases hc'
          rcases hM.wp hR hokt ht hacc with ⟨hok', -, hk⟩
          exact ⟨hok', hk⟩

/-- The same for a routine that runs alone. -/
theorem Simulated.runs {M : MemSys} {ok : CMem → Prop} (hM : Simulated M ok) (hR : Noisy R)
    {p : EmacM β} {a : β} {w' : World} (hok : ok w.m)
    (h : Prog.wp (access cached canFail) R G p Q w)
    (hrun : Prog.Runs (access M canFail) p w a w') : ok w'.m ∧ Q a w' := by
  have hsteps := hrun.steps (R := fun _ _ _ => False)
  rcases hM.steps hR (fun _ _ _ _ hfalse => hfalse.elim) hok h hsteps with ⟨hok', hret⟩
  exact ⟨hok', Prog.wp_ret hret⟩

end Rules

end Emac

end BspV3s
