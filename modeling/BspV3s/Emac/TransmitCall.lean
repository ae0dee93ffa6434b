import BspV3s.Emac.Transmit

/-!
# TransmitCall — one call of `_emac_tx`

`emacTx_spec` follows a call that sends frame `f` while `acc` frames have been accepted and fewer
than 32 of them are unsent.  The descriptor that it works on passes through four stages: `Open`
while fragments are copied, `Prep` while its word `st` is built, `Exposed` between the store of the
first-segment bit and that of the status word, `Published` after that.
-/

namespace BspV3s

namespace Emac

variable {D : Indev} {canFail : Prop} {w w' : World} {acc : List TxFrame} {f : TxFrame} {n m : ℕ}

/-! ## What a call guarantees -/

/-- Whatever descriptor is armed in memory holds a frame that has not been sent, in full. -/
def Visible (D : Indev) (frames : List TxFrame) (w : World) : Prop :=
  ∀ i < 32, armed (descAt (D.txChain i) w.m.mem) = true →
    ∃ k f, k % 32 = i ∧ w.sent.length ≤ k ∧ frames[k]? = some f ∧
      txFrameAt w.m.mem (D.txChain i) = f

/-- What holds throughout a call that sends `f` after `acc`. -/
structure TxSafe (D : Indev) (acc : List TxFrame) (f : TxFrame) (w : World) : Prop where
  log : w.sent <+: acc ++ [f]
  room : acc.length < w.sent.length + 32
  dma : w.txDma = D.txChain (w.sent.length % 32)
  visible : Visible D (acc ++ [f]) w

/-- What an access of a call that works on descriptor `c` is like. -/
def txAccess (D : Indev) (c : ℕ) : Op → World → Prop
  | .store a _, _ => a / 64 = D.txChain c / 64
  | .store8 a _, _ => D.txBuf c ≤ a ∧ a < D.txBuf c + 2048
  | .dcimvac a, w => a / 64 = D.txChain c / 64 ∧ w.m.dirty (a / 64) = false
  | .setTxCurrdescnum v, _ => v.toNat = (c + 1) % 32
  | .writel r v, _ => r = .txCtl1 ∧ v.getLsbD 30 = true
  | .setRxCurrdescnum _, _ => False
  | _, _ => True

def txGuarantee (D : Indev) (acc : List TxFrame) (f : TxFrame) : Prog.Sem Op Op.Ret World :=
  fun o w _ _ => TxSafe D acc f w ∧ txAccess D (acc.length % 32) o w

def txRely (D : Indev) : Prog.Rely Op World :=
  fun o => TxEnv D o

abbrev txWp (D : Indev) (acc : List TxFrame) (f : TxFrame) (canFail : Prop) {α : Type}
    (p : EmacM α) (Q : α → World → Prop) (w : World) : Prop :=
  Prog.wp (access cached canFail) (txRely D) (txGuarantee D acc f) p Q w

theorem noisy_txRely : Noisy (txRely D) :=
  fun _ _ _ hn => .noise hn

/-! ## The state of a call -/

/-- The call has room for its frame, and works on the descriptor that the index designates. -/
structure TxCall (D : Indev) (acc : List TxFrame) (w : World) : Prop where
  ring : TxRing D acc {acc.length} w
  room : acc.length < w.sent.length + 32
  cur : w.txCur.toNat = acc.length % 32

/-- The call's descriptor satisfies `C`, the first `n` bytes of `f` have been copied, and the first
`m` of them are in memory. -/
structure TxWork (D : Indev) (acc : List TxFrame) (f : TxFrame) (C : Cell DmaDesc → Prop)
    (n m : ℕ) (w : World) : Prop where
  call : TxCall D acc w
  cell : C (w.txCell D (acc.length % 32))
  copied : ∀ j b, j < n → f[j]? = some b →
    (w.byteCell (D.txBuf (acc.length % 32) + j)).Settled ∧
      (w.byteCell (D.txBuf (acc.length % 32) + j)).view = b
  flushed : ∀ j b, j < m → f[j]? = some b →
    (w.byteCell (D.txBuf (acc.length % 32) + j)).dirty = false ∧
      (w.byteCell (D.txBuf (acc.length % 32) + j)).mem = b

/-- Before the descriptor has been touched. -/
structure Open (D : Indev) (i : ℕ) (c : Cell DmaDesc) : Prop where
  clean : c.dirty = false
  mem : TxLinked D i c.mem
  view : TxLinked D i c.view
  idle : armed c.mem = false

/-- While `st`, which is `v` to the processor, is being built. -/
structure Prep (D : Indev) (i : ℕ) (v : U32) (c : Cell DmaDesc) : Prop where
  settled : c.Settled
  mem : TxLinked D i c.mem
  view : TxLinked D i c.view
  idle : armed c.mem = false
  hidden : armed c.view = false
  st : c.view.st = v

/-- When `st` is complete: the descriptor may show up armed in memory. -/
structure Exposed (D : Indev) (i : ℕ) (v : U32) (c : Cell DmaDesc) : Prop where
  settled : c.Settled
  mem : TxLinked D i c.mem
  view : TxLinked D i c.view
  shown : armed c.mem = true → c.mem.st = v
  st : c.view.st = v

/-- After the store of the status word. -/
structure Published (D : Indev) (i : ℕ) (v : U32) (c : Cell DmaDesc) : Prop where
  exposed : Exposed D i v c
  status : c.view.status = bit 31

variable {C : Cell DmaDesc → Prop} {i : ℕ} {v : U32} {c c' : Cell DmaDesc}

theorem Open.drift (hc : Open D i c) (hd : c.Drift c') : Open D i c' := by
  rcases hd.of_clean hc.clean with ⟨hclean, hmem, hview⟩
  refine ⟨hclean, hmem ▸ hc.mem, ?_, hmem ▸ hc.idle⟩
  rcases hview with hv | hv
  · exact hv ▸ hc.view
  · exact hv ▸ hc.mem

theorem Prep.drift (hc : Prep D i v c) (hd : c.Drift c') : Prep D i v c' := by
  rcases hd.of_settled hc.settled with ⟨hsettled, hview, hmem⟩
  refine ⟨hsettled, ?_, hview ▸ hc.view, ?_, hview ▸ hc.hidden, hview ▸ hc.st⟩
  · rcases hmem with hm | hm
    · exact hm ▸ hc.mem
    · exact hm ▸ hc.view
  · rcases hmem with hm | hm
    · exact hm ▸ hc.idle
    · exact hm ▸ hc.hidden

theorem Exposed.drift (hc : Exposed D i v c) (hd : c.Drift c') : Exposed D i v c' := by
  rcases hd.of_settled hc.settled with ⟨hsettled, hview, hmem⟩
  refine ⟨hsettled, ?_, hview ▸ hc.view, ?_, hview ▸ hc.st⟩
  · rcases hmem with hm | hm
    · exact hm ▸ hc.mem
    · exact hm ▸ hc.view
  · rcases hmem with hm | hm
    · exact hm ▸ hc.shown
    · intro _
      exact hm ▸ hc.st

theorem Published.drift (hc : Published D i v c) (hd : c.Drift c') : Published D i v c' := by
  rcases hd.of_settled hc.exposed.settled with ⟨-, hview, -⟩
  exact ⟨hc.exposed.drift hd, hview ▸ hc.status⟩

/-! ## Interference during a call -/

theorem armed_of_canComplete {status : U32} (hr : TxRing D acc {acc.length} w)
    (hs : w.sent.length = acc.length) (hc : CanComplete w status) :
    armed (w.txCell D (acc.length % 32)).mem = true := by
  have harmed := hc.armed
  rw [hr.dma, hs] at harmed
  exact harmed

/-- As long as the DMA does not take the call's own descriptor, the call's state only drifts. -/
theorem TxWork.env {o : Option Op} (hC : ∀ x x', C x → x.Drift x' → C x') (hn : n ≤ 2048)
    (hm : m ≤ 2048) (hw : TxWork D acc f C n m w) (he : TxEnv D o w w')
    (hno : ∀ status, CanComplete w status → Untouched o w → w.sent.length ≠ acc.length) :
    TxWork D acc f C n m w' := by
  have hmod : acc.length % 32 < 32 := Nat.mod_lt _ (by omega)
  have hdrift : TxDrift D w w' → TxWork D acc f C n m w' := by
    intro hd
    refine ⟨⟨hw.call.ring.drift hd, hd.sent ▸ hw.call.room, hd.txCur ▸ hw.call.cur⟩,
      hC _ _ hw.cell (hd.cell _ hmod), ?_, ?_⟩
    · intro j b hj hb
      rcases hw.copied j b hj hb with ⟨hsettled, hview⟩
      rcases (hd.byte _ hmod j (by omega)).of_settled hsettled with ⟨hsettled', hview', -⟩
      exact ⟨hsettled', hview'.trans hview⟩
    · intro j b hj hb
      rcases hw.flushed j b hj hb with ⟨hdirty, hmem⟩
      rcases (hd.byte _ hmod j (by omega)).of_clean hdirty with ⟨hdirty', hmem', -⟩
      exact ⟨hdirty', hmem'.trans hmem⟩
  cases he with
  | noise hnoise => exact hdrift (hnoise.txDrift D)
  | other hs => exact hdrift hs.txDrift
  -- The DMA works at an older descriptor, whose cell and buffer are not those of the call.
  | complete status hc hu =>
      have hne := hno status hc hu
      have hlog := hw.call.ring.log.length_le
      have hroom := hw.call.room
      have hdma := hw.call.ring.dma
      have hcell : (w.complete status).txCell D (acc.length % 32) =
          w.txCell D (acc.length % 32) := complete_txCell_of_ne hdma (by omega)
      have hbyte : ∀ j, (w.complete status).byteCell (D.txBuf (acc.length % 32) + j) =
          w.byteCell (D.txBuf (acc.length % 32) + j) := by
        intro j
        refine complete_byteCell hdma (Nat.mod_lt _ (by omega)) ?_
        simp only [Indev.txBuf]
        omega
      refine ⟨⟨hw.call.ring.complete hc hne, ?_, hw.call.cur⟩, ?_, ?_, ?_⟩
      · rw [World.length_sent_complete]
        omega
      · rw [hcell]
        exact hw.cell
      · intro j b hj hb
        rw [hbyte]
        exact hw.copied j b hj hb
      · intro j b hj hb
        rw [hbyte]
        exact hw.flushed j b hj hb

/-- While the call's descriptor is not armed in memory, the call's state is steady. -/
theorem steady_txWork (hC : ∀ x x', C x → x.Drift x' → C x') (hidle : ∀ x, C x → armed x.mem = false)
    (hn : n ≤ 2048) (hm : m ≤ 2048) : Steady (txRely D) (TxWork D acc f C n m) := by
  intro o s s' hs he
  refine hs.env hC hn hm he ?_
  intro status hc _ heq
  have harmed := armed_of_canComplete hs.call.ring heq hc
  rw [hidle _ hs.cell] at harmed
  exact absurd harmed (by decide)

theorem steady_open (hn : n ≤ 2048) (hm : m ≤ 2048) :
    Steady (txRely D) (TxWork D acc f (Open D i) n m) :=
  steady_txWork (fun _ _ => Open.drift) (fun _ hc => hc.idle) hn hm

theorem steady_prep (hn : n ≤ 2048) (hm : m ≤ 2048) :
    Steady (txRely D) (TxWork D acc f (Prep D i v) n m) :=
  steady_txWork (fun _ _ => Prep.drift) (fun _ hc => hc.idle) hn hm

/-- The descriptor is not taken while its status word is about to be stored. -/
theorem stable_exposed {x : U32} (hn : n ≤ 2048) (hm : m ≤ 2048) :
    Prog.Stable (txRely D) (some (.store (D.txChain (acc.length % 32)) x))
      (TxWork D acc f (Exposed D i v) n m) := by
  intro s s' hs he
  refine hs.env (fun _ _ => Exposed.drift) hn hm he ?_
  intro status hc hu heq
  refine hu.next x ?_
  rw [hs.call.ring.dma, heq]

/-! ## The published frame -/

/-- A complete word `st` for a frame of `n` bytes. -/
structure Final (n : ℕ) (v : U32) : Prop where
  length : txLength v = n
  firstLast : firstLast v = true

theorem TxSlot.of_getElem? {acc' : List TxFrame} {k : ℕ} (hs : TxSlot D acc k w)
    (h : acc'[k]? = acc[k]?) : TxSlot D acc' k w :=
  ⟨hs.clean, hs.mem, hs.view, fun f hf => hs.queued f (h ▸ hf), fun hnone => hs.free (h ▸ hnone)⟩

/-- A published frame whose line has left the cache is queued. -/
theorem TxWork.queue (hfit : f.length ≤ 2047) (hv : Final f.length v)
    (hw : TxWork D acc f (Published D (acc.length % 32) v) f.length f.length w)
    (hclean : (w.txCell D (acc.length % 32)).dirty = false) : TxRing D (acc ++ [f]) ∅ w := by
  have hroom := hw.call.room
  refine ⟨hw.call.ring.log.trans (List.prefix_append _ _), ?_, hw.call.ring.dma, ?_⟩
  · simp only [List.length_append, List.length_singleton]
    omega
  · intro k hlo hhi _
    by_cases hk : k = acc.length
    · subst hk
      have hmem := hw.cell.exposed.settled hclean
      have hget : (acc ++ [f])[acc.length]? = some f := by simp
      refine ⟨hclean, hw.cell.exposed.mem, hw.cell.exposed.view, ?_, ?_⟩
      · intro g hg
        rw [hget] at hg
        obtain rfl := Option.some.inj hg
        refine ⟨?_, ?_, hfit, ?_⟩
        · rw [hmem, armed, hw.cell.status, hw.cell.exposed.st, hv.firstLast, own_bit31]
          rfl
        · rw [hmem, hw.cell.exposed.st]
          exact hv.length
        · intro j b hj
          exact hw.flushed j b (List.getElem?_eq_some_iff.1 hj).1 hj
      · intro hnone
        rw [hget] at hnone
        exact absurd hnone (by simp)
    · exact (hw.call.ring.slots k hlo hhi (by simpa using hk)).of_getElem? (getElem?_append_ne hk)

/-- The frame is published: its line is still in the cache, or it is queued. -/
structure TxPublished (D : Indev) (acc : List TxFrame) (f : TxFrame) (v : U32) (w : World) :
    Prop where
  state : TxWork D acc f (Published D (acc.length % 32) v) f.length f.length w ∨
    TxRing D (acc ++ [f]) ∅ w
  cur : w.txCur.toNat = acc.length % 32

theorem TxRing.env {o : Option Op} (hr : TxRing D acc ∅ w) (he : TxEnv D o w w') :
    TxRing D acc ∅ w' := by
  cases he with
  | noise hn => exact hr.drift (hn.txDrift D)
  | other hs => exact hr.drift hs.txDrift
  | complete status hc _ => exact hr.complete hc (Set.notMem_empty _)

theorem TxEnv.txCur {o : Option Op} (he : TxEnv D o w w') : w'.txCur = w.txCur := by
  cases he with
  | noise hn => exact (hn.txDrift D).txCur
  | other hs => exact hs.txCur
  | complete status _ _ => rfl

theorem TxPublished.env {o : Option Op} (hfit : f.length ≤ 2047) (hv : Final f.length v)
    (hw : TxPublished D acc f v w) (he : TxEnv D o w w') : TxPublished D acc f v w' := by
  refine ⟨?_, he.txCur ▸ hw.cur⟩
  rcases hw.state with hs | hs
  · by_cases htaken : ∃ status, CanComplete w status ∧ Untouched o w ∧
        w.sent.length = acc.length
    · -- The DMA takes the frame, so its line has been written back.
      rcases htaken with ⟨_, _, hu, heq⟩
      have hclean : (w.txCell D (acc.length % 32)).dirty = false := by
        have := hu.clean
        rw [hs.call.ring.dma, heq] at this
        exact this
      exact .inr ((hs.queue hfit hv hclean).env he)
    · left
      refine hs.env (fun _ _ => Published.drift) (by omega) (by omega) he ?_
      intro status hc hu heq
      exact htaken ⟨status, hc, hu, heq⟩
  · exact .inr (hs.env he)

theorem steady_published (hfit : f.length ≤ 2047) (hv : Final f.length v) :
    Steady (txRely D) (TxPublished D acc f v) :=
  fun _ _ _ hw he => hw.env hfit hv he

theorem steady_txIdle : Steady (txRely D) (TxIdle D acc) :=
  fun _ _ _ hw he => ⟨hw.ring.env he, (TxEnv.txCur he) ▸ hw.cur⟩

/-! ## Nothing else is armed -/

theorem TxRing.visible (hr : TxRing D acc ∅ w) : Visible D acc w := by
  intro i hi harmed
  -- The frame whose descriptor this is.
  have hk : ∃ k, w.sent.length ≤ k ∧ k < w.sent.length + 32 ∧ k % 32 = i :=
    ⟨w.sent.length + (i + 32 - w.sent.length % 32) % 32, by omega, by omega, by omega⟩
  rcases hk with ⟨k, hlo, hhi, rfl⟩
  have hslot := hr.slots k hlo hhi (Set.notMem_empty _)
  cases hget : acc[k]? with
  | none =>
      have hfree : armed (descAt (D.txChain (k % 32)) w.m.mem) = false := hslot.free hget
      rw [hfree] at harmed
      exact absurd harmed (by decide)
  | some f => exact ⟨k, f, rfl, hlo, hget, (hslot.queued f hget).frame hi hslot.mem⟩

/-- During a call the call's own descriptor may be armed too, and then it holds `f`. -/
theorem TxWork.visible (hw : TxWork D acc f C n m w)
    (hC : armed (w.txCell D (acc.length % 32)).mem = true →
      txFrameAt w.m.mem (D.txChain (acc.length % 32)) = f) : Visible D (acc ++ [f]) w := by
  intro i hi harmed
  have hk : ∃ k, w.sent.length ≤ k ∧ k < w.sent.length + 32 ∧ k % 32 = i :=
    ⟨w.sent.length + (i + 32 - w.sent.length % 32) % 32, by omega, by omega, by omega⟩
  rcases hk with ⟨k, hlo, hhi, rfl⟩
  by_cases hka : k = acc.length
  · subst hka
    exact ⟨acc.length, f, rfl, hlo, by simp, hC harmed⟩
  · have hslot := hw.call.ring.slots k hlo hhi (by simpa using hka)
    have happ : (acc ++ [f])[k]? = acc[k]? := getElem?_append_ne hka
    cases hget : acc[k]? with
    | none =>
        have hfree : armed (descAt (D.txChain (k % 32)) w.m.mem) = false := hslot.free hget
        rw [hfree] at harmed
        exact absurd harmed (by decide)
    | some g =>
        exact ⟨k, g, rfl, hlo, by rw [happ, hget], (hslot.queued g hget).frame hi hslot.mem⟩

theorem TxWork.safe (hw : TxWork D acc f C n m w)
    (hC : armed (w.txCell D (acc.length % 32)).mem = true →
      txFrameAt w.m.mem (D.txChain (acc.length % 32)) = f) : TxSafe D acc f w :=
  ⟨hw.call.ring.log.trans (List.prefix_append _ _), hw.call.room, hw.call.ring.dma, hw.visible hC⟩

theorem TxWork.safe_of_idle (hw : TxWork D acc f C n m w)
    (hidle : armed (w.txCell D (acc.length % 32)).mem = false) : TxSafe D acc f w := by
  refine hw.safe ?_
  intro harmed
  rw [hidle] at harmed
  exact absurd harmed (by decide)

theorem TxWork.safe_of_exposed (hfit : f.length ≤ 2047) (hv : Final f.length v)
    (hw : TxWork D acc f C f.length f.length w)
    (hc : Exposed D (acc.length % 32) v (w.txCell D (acc.length % 32))) : TxSafe D acc f w := by
  refine hw.safe ?_
  intro harmed
  have hq : TxQueued D (acc.length % 32) f w := by
    refine ⟨harmed, ?_, hfit, ?_⟩
    · rw [hc.shown harmed]
      exact hv.length
    · intro j b hj
      exact hw.flushed j b (List.getElem?_eq_some_iff.1 hj).1 hj
  exact hq.frame (Nat.mod_lt _ (by omega)) hc.mem

theorem TxRing.safe (hr : TxRing D (acc ++ [f]) ∅ w) : TxSafe D acc f w := by
  have hroom := hr.room
  simp only [List.length_append, List.length_singleton] at hroom
  exact ⟨hr.log, by omega, hr.dma, hr.visible⟩

theorem TxPublished.safe (hfit : f.length ≤ 2047) (hv : Final f.length v)
    (hw : TxPublished D acc f v w) : TxSafe D acc f w := by
  rcases hw.state with hs | hs
  · exact hs.safe_of_exposed hfit hv hs.cell.exposed
  · exact hs.safe

/-! ## The call's own stores -/

/-- Only descriptor `i` and its buffer change. -/
structure TxLocal (D : Indev) (i : ℕ) (w w' : World) : Prop where
  cell : ∀ k < 32, k ≠ i → w'.txCell D k = w.txCell D k
  byte : ∀ k < 32, k ≠ i → ∀ j < 2048, w'.byteCell (D.txBuf k + j) = w.byteCell (D.txBuf k + j)
  txCur : w'.txCur = w.txCur
  txDma : w'.txDma = w.txDma
  sent : w'.sent = w.sent

theorem TxCall.local (hw : TxCall D acc w) (hl : TxLocal D (acc.length % 32) w w') :
    TxCall D acc w' := by
  have hlog := hw.ring.log.length_le
  have hroom := hw.room
  refine ⟨⟨hl.sent ▸ hw.ring.log, hl.sent ▸ hw.ring.room, ?_, ?_⟩, hl.sent ▸ hroom,
    hl.txCur ▸ hw.cur⟩
  · rw [hl.txDma, hl.sent]
    exact hw.ring.dma
  · rw [hl.sent]
    intro k hlo hhi hk
    have hmod : k % 32 < 32 := Nat.mod_lt _ (by omega)
    have hne : k % 32 ≠ acc.length % 32 := by
      have : k ≠ acc.length := by simpa using hk
      omega
    have hslot := hw.ring.slots k hlo hhi hk
    have hcell := hl.cell _ hmod hne
    refine ⟨hcell ▸ hslot.clean, hcell ▸ hslot.mem, hcell ▸ hslot.view, ?_,
      fun hnone => hcell ▸ hslot.free hnone⟩
    intro g hg
    have hq := hslot.queued g hg
    refine ⟨hcell ▸ hq.armed, hcell ▸ hq.length, hq.fits, ?_⟩
    intro j b hj
    have hlt : j < g.length := (List.getElem?_eq_some_iff.1 hj).1
    have hfit := hq.fits
    rw [hl.byte _ hmod hne j (by omega)]
    exact hq.data j b hj

section Stores

variable {l x : ℕ} {g : Mem → Mem}

theorem txCell_write_of_ne (h : l ≠ D.txChain i / 64) : (w.write l g).txCell D i = w.txCell D i := by
  unfold World.txCell World.write
  exact CMem.cell_write_other (local_descAt Indev.txChain_aligned) h

theorem byteCell_write_of_ne (h : l ≠ x / 64) : (w.write l g).byteCell x = w.byteCell x := by
  unfold World.byteCell World.write
  exact CMem.cell_write_other (CMem.local_byte x) h

theorem byteCell_write_self : (w.write (x / 64) g).byteCell x =
    (w.byteCell x).stored (g w.m.view x) := by
  unfold World.byteCell World.write
  exact CMem.cell_write_same (f := fun m : Mem => m x) (g := g) (CMem.local_byte x)

theorem txChain_line_ne (j : ℕ) (hi : i < 32) (k : ℕ) :
    D.txChain i / 64 ≠ (D.txBuf k + j) / 64 := by
  have := D.aligned
  simp only [Indev.txChain, Indev.txBuf]
  omega

/-- A store to a word of the call's descriptor. -/
theorem TxWork.store_desc {C' : Cell DmaDesc → Prop} {k : ℕ} {u : U32} {g : DmaDesc → DmaDesc}
    (hw : TxWork D acc f C n m w) (hk : k < 64)
    (hg : ∀ mem : Mem, descAt (D.txChain (acc.length % 32))
        (mem.write32 (D.txChain (acc.length % 32) + k) u) =
      g (descAt (D.txChain (acc.length % 32)) mem))
    (hC : ∀ y, C y → C' (y.stored (g y.view))) :
    TxWork D acc f C' n m (w.write ((D.txChain (acc.length % 32) + k) / 64)
      fun mem => mem.write32 (D.txChain (acc.length % 32) + k) u) := by
  have hmod : acc.length % 32 < 32 := Nat.mod_lt _ (by omega)
  have hline : (D.txChain (acc.length % 32) + k) / 64 = D.txChain (acc.length % 32) / 64 := by
    have := Indev.txChain_aligned (D := D) (i := acc.length % 32)
    omega
  rw [hline]
  set i := acc.length % 32 with hi
  refine ⟨hw.call.local ⟨?_, ?_, rfl, rfl, rfl⟩, ?_, ?_, ?_⟩
  · intro k' hk' hne
    apply txCell_write_of_ne
    have := D.aligned
    simp only [Indev.txChain]
    omega
  · intro k' _ _ j _
    exact byteCell_write_of_ne (txChain_line_ne j hmod k')
  · have hcell : World.txCell (w.write (D.txChain i / 64)
          fun mem => mem.write32 (D.txChain i + k) u) D i =
        (w.txCell D i).stored (g (w.txCell D i).view) := by
      unfold World.txCell World.write
      exact (CMem.cell_write_same (local_descAt Indev.txChain_aligned)).trans
        (congrArg (Cell.stored _) (hg _))
    rw [hcell]
    exact hC _ hw.cell
  · intro j b hj hb
    rw [byteCell_write_of_ne (txChain_line_ne j hmod i)]
    exact hw.copied j b hj hb
  · intro j b hj hb
    rw [byteCell_write_of_ne (txChain_line_ne j hmod i)]
    exact hw.flushed j b hj hb

/-- The next byte of the frame is copied. -/
theorem TxWork.store_byte {b : Byte} (hw : TxWork D acc f C n 0 w) (hn : n < 2048)
    (hb : f[n]? = some b) :
    TxWork D acc f C (n + 1) 0 (w.write ((D.txBuf (acc.length % 32) + n) / 64)
      fun mem => mem.writeBytes (D.txBuf (acc.length % 32) + n) [b]) := by
  have hmod : acc.length % 32 < 32 := Nat.mod_lt _ (by omega)
  set i := acc.length % 32 with hi
  have hcells : ∀ k' < 32, World.txCell (w.write ((D.txBuf i + n) / 64)
      fun mem => mem.writeBytes (D.txBuf i + n) [b]) D k' = w.txCell D k' :=
    fun k' hk' => txCell_write_of_ne (txChain_line_ne n hk' i).symm
  refine ⟨hw.call.local ⟨fun k' hk' _ => hcells k' hk', ?_, rfl, rfl, rfl⟩, ?_, ?_, ?_⟩
  · intro k' _ hne j hj
    apply byteCell_write_of_ne
    have := D.aligned
    simp only [Indev.txBuf]
    omega
  · rw [hcells i hmod]
    exact hw.cell
  · intro j b' hj hb'
    -- The byte may share its line with others that have been copied before.
    by_cases hline : (D.txBuf i + n) / 64 = (D.txBuf i + j) / 64
    · rw [hline, byteCell_write_self]
      refine ⟨Cell.settled_stored _ _, ?_⟩
      show w.m.view.writeBytes (D.txBuf i + n) [b] (D.txBuf i + j) = b'
      by_cases hjn : j = n
      · subst hjn
        rw [hb] at hb'
        rw [← Option.some.inj hb']
        exact Mem.writeBytes_inside (i := 0) (by simp)
      · rw [Mem.writeBytes_outside (by simp only [List.length_singleton]; omega)]
        exact (hw.copied j b' (by omega) hb').2
    · rw [byteCell_write_of_ne hline]
      have hjn : j ≠ n := by
        rintro rfl
        exact hline rfl
      exact hw.copied j b' (by omega) hb'
  · intro j b' hj _
    omega

end Stores

/-! ## The words of `st` -/

theorem getLsbD_ofNat_of_le (hn : n ≤ 2047) (k : ℕ) (hk : 11 ≤ k) :
    (BitVec.ofNat 32 n).getLsbD k = false := by
  have hlt : n < 2 ^ k := lt_of_lt_of_le (by omega) (Nat.pow_le_pow_right (by omega) hk)
  rw [BitVec.getLsbD_ofNat, Nat.testBit_lt_two_pow hlt, Bool.and_false]

theorem firstLast_len (hn : n ≤ 2047) : firstLast (BitVec.ofNat 32 n) = false := by
  rw [firstLast, getLsbD_ofNat_of_le hn 29 (by omega), Bool.and_false]

theorem firstLast_or (v u : U32) (hv : v.getLsbD 29 = false) (hu : u.getLsbD 29 = false) :
    firstLast (v ||| u) = false := by
  rw [firstLast, BitVec.getLsbD_or, BitVec.getLsbD_or, hv, hu, Bool.or_false, Bool.and_false]

/-- The word that `_sun8i_emac_eth_send` builds for a frame of `n` bytes, before the first-segment
bit. -/
def lastWord (n : ℕ) : U32 :=
  BitVec.ofNat 32 n ||| bit 24 ||| bit 30 ||| bit 31

theorem final_lastWord (hn : n ≤ 2047) : Final n (lastWord n ||| bit 29) := by
  refine ⟨?_, ?_⟩
  · have hmask : (lastWord n ||| bit 29) &&& 0x7FF#32 = BitVec.ofNat 32 n &&& 0x7FF#32 := by
      apply BitVec.eq_of_getLsbD_eq
      intro k hk
      by_cases hlow : k < 11
      · have hbit : ∀ j, 11 ≤ j → j < 32 → (bit j).getLsbD k = false := by
          intro j hj hj'
          simp only [bit, BitVec.getLsbD_shiftLeft, BitVec.getLsbD_one]
          simp
          omega
        simp [lastWord, hbit]
      · have hmask : (0x7FF#32).getLsbD k = false := by
          rw [show (0x7FF#32) = BitVec.ofNat 32 2047 from rfl]
          exact getLsbD_ofNat_of_le le_rfl k (by omega)
        simp [hmask]
    have hlt : n < 2 ^ 32 := by omega
    have hand : n &&& 2047 = n := by
      rw [show 2047 = 2 ^ 11 - 1 from rfl, Nat.and_two_pow_sub_one_eq_mod]
      omega
    simp only [txLength]
    rw [hmask, BitVec.toNat_and, BitVec.toNat_ofNat, Nat.mod_eq_of_lt hlt]
    exact hand
  · have h₃₀ : (bit 30).getLsbD 30 = true := by decide
    have h₂₉ : (bit 29).getLsbD 29 = true := by decide
    simp only [firstLast, lastWord, BitVec.getLsbD_or, h₃₀, h₂₉, Bool.or_true, Bool.true_or,
      Bool.and_true]

/-! ## The copy of a segment -/

/-- `memcpy` of the part of the frame that begins at byte `n`. -/
theorem copyIn_spec (hC : ∀ x x', C x → x.Drift x' → C x') (hidle : ∀ x, C x → armed x.mem = false)
    (bs : List Byte) (n : ℕ) (hfit : n + bs.length ≤ 2047)
    (hbs : ∀ j b, bs[j]? = some b → f[n + j]? = some b) (hw : TxWork D acc f C n 0 w) :
    txWp D acc f canFail (copyIn (D.txBuf (acc.length % 32) + n) bs)
      (fun _ t => TxWork D acc f C (n + bs.length) 0 t) w := by
  induction bs generalizing n w with
  | nil => exact wp_pure (steady_txWork hC hidle (by omega) (by omega)) hw fun t ht => ht
  | cons b bs ih =>
      rw [List.length_cons] at hfit
      refine wp_act (fun t => t.write ((D.txBuf (acc.length % 32) + n) / 64)
          fun mem => mem.writeBytes (D.txBuf (acc.length % 32) + n) [b])
        (fun t r t' hacc => hacc) (steady_txWork hC hidle (by omega) (by omega) _) hw ?_ ?_
      · intro t r ht
        exact ⟨ht.safe_of_idle (hidle _ ht.cell), Nat.le_add_right _ _, by omega⟩
      · intro t r ht
        have hstep := ht.store_byte (by omega) (hbs 0 b rfl)
        have hrest := ih (n + 1) (by omega) (fun j b' hj => by
          have := hbs (j + 1) b' hj
          rwa [show n + (j + 1) = n + 1 + j by omega] at this) hstep
        rw [show n + 1 + bs.length = n + (b :: bs).length by rw [List.length_cons]; omega] at hrest
        exact hrest

theorem offs_lt {n : ℕ} (hn : n ≤ 2047) : ¬ 0x10000 ≤ n ||| 0x0 := by
  rw [Nat.or_zero]
  omega

theorem offs_or {n : ℕ} (hn : n ≤ 2047) :
    0x10000 ≤ n ||| 0x10000 ∧ (n ||| 0x10000) &&& 0xffff = n := by
  have hor : n ||| 0x10000 = 2 ^ 16 * 1 + n := by
    rw [Nat.or_comm, show 0x10000 = 2 ^ 16 * 1 from rfl]
    exact (Nat.two_pow_add_eq_or_of_lt (by omega) 1).symm
  have hand : (2 ^ 16 * 1 + n) &&& 0xffff = n := by
    rw [show 0xffff = 2 ^ 16 - 1 from rfl, Nat.and_two_pow_sub_one_eq_mod]
    omega
  rw [hor]
  exact ⟨by omega, hand⟩

/-- The offset carries the flag of `_sun8i_emac_eth_send`: more segments follow. -/
theorem emacEthSend_fragment (q : List Byte) {n : ℕ} (hn : n ≤ 2047) :
    sun8iEmacEthSend D q (n ||| 0x10000) = sendFragment D q (n ||| 0x10000) :=
  if_pos (offs_or hn).1

theorem emacEthSend_last (q : List Byte) {n : ℕ} (hn : n ≤ 2047) :
    sun8iEmacEthSend D q (n ||| 0x0) = sendLast D q (n ||| 0x0) :=
  if_neg (offs_lt hn)

/-- Where the segments of a chain lie in the frame `f` from byte `n` on. -/
theorem segments_of_flatten {q : List Byte} {qs : Pbuf} {n : ℕ}
    (hbs : ∀ j b, (q :: qs).flatten[j]? = some b → f[n + j]? = some b) :
    (∀ j b, q[j]? = some b → f[n + j]? = some b) ∧
      ∀ j b, qs.flatten[j]? = some b → f[n + q.length + j]? = some b := by
  rw [List.flatten_cons] at hbs
  constructor
  · intro j b hj
    refine hbs j b ?_
    rw [List.getElem?_append_left (List.getElem?_eq_some_iff.1 hj).1]
    exact hj
  · intro j b hj
    rw [Nat.add_assoc]
    refine hbs (q.length + j) b ?_
    rw [List.getElem?_append_right (Nat.le_add_right _ _), Nat.add_sub_cancel_left]
    exact hj

/-- A segment that is not the last is only copied. -/
theorem sendFragment_spec (bs : List Byte) (n : ℕ) (hfit : n + bs.length ≤ 2047)
    (hbs : ∀ j b, bs[j]? = some b → f[n + j]? = some b)
    (hw : TxWork D acc f (Open D (acc.length % 32)) n 0 w) :
    txWp D acc f canFail (sendFragment D bs (n ||| 0x10000))
      (fun _ t => TxWork D acc f (Open D (acc.length % 32)) (n + bs.length) 0 t) w := by
  have hmod : acc.length % 32 < 32 := Nat.mod_lt _ (by omega)
  have hsteady : Steady (txRely D) (TxWork D acc f (Open D (acc.length % 32)) n 0) :=
    steady_open (by omega) (by omega)
  refine wp_ask (A := fun t r => r = t.txCur) (fun t r t' hacc => hacc) hsteady hw
    (fun t r ht _ => ⟨ht.safe_of_idle ht.cell.idle, trivial⟩) ?_
  rintro t r ht rfl
  rw [ht.call.cur]
  refine wp_load hsteady noisy_txRely ht (fun t t' ht => ⟨ht.safe_of_idle ht.cell.idle, trivial⟩) ?_
  intro t ht
  have hbuf : t.m.view.read32 (D.txChain (acc.length % 32) + 8) =
      BitVec.ofNat 32 (D.txBuf (acc.length % 32)) := ht.cell.view.1
  rw [hbuf, Indev.toNat_txBuf hmod, (offs_or (by omega)).2]
  exact copyIn_spec (fun _ _ => Open.drift) (fun _ hc => hc.idle) bs n hfit hbs ht

/-! ## The handover -/

/-- `st |= b`: a load and a store, between which the descriptor is as `Prep` says. -/
theorem wp_setSt {α : Type} {E : Cell DmaDesc → Prop} {b : U32} {k : Unit → EmacM α}
    {Q : α → World → Prop} (hn : n ≤ 2048) (hm : m ≤ 2048)
    (hC : ∀ y, Prep D (acc.length % 32) v y → E (y.stored { y.view with st := v ||| b }))
    (hw : TxWork D acc f (Prep D (acc.length % 32) v) n m w)
    (h : ∀ t, TxWork D acc f E n m t → txWp D acc f canFail (k ()) Q t) :
    txWp D acc f canFail (setBit (D.txChain (acc.length % 32) + 4) b >>= k) Q w := by
  have hsteady : Steady (txRely D) (TxWork D acc f (Prep D (acc.length % 32) v) n m) :=
    steady_prep hn hm
  rw [setBit, bind_assoc]
  refine wp_load hsteady noisy_txRely hw (fun t t' ht => ⟨ht.safe_of_idle ht.cell.idle, trivial⟩) ?_
  intro t ht
  have hst : t.m.view.read32 (D.txChain (acc.length % 32) + 4) = v := ht.cell.st
  rw [hst]
  refine wp_act (fun t => t.write ((D.txChain (acc.length % 32) + 4) / 64)
      fun mem => mem.write32 (D.txChain (acc.length % 32) + 4) (v ||| b))
    (fun t r t' hacc => hacc) (hsteady _) ht ?_ ?_
  · intro t r ht
    refine ⟨ht.safe_of_idle ht.cell.idle, ?_⟩
    have := Indev.txChain_aligned (D := D) (i := acc.length % 32)
    show (D.txChain (acc.length % 32) + 4) / 64 = _
    omega
  · intro t r ht
    exact h _ (ht.store_desc (g := fun d => { d with st := v ||| b }) (by omega)
      (fun mem => descAt_write_st mem _ _) hC)

/-- A store to `st` that leaves the descriptor hidden. -/
theorem Prep.stored {y : Cell DmaDesc} {u : U32} (hy : Prep D i v y) (hu : firstLast u = false) :
    Prep D i u (y.stored { y.view with st := u }) := by
  refine ⟨Cell.settled_stored _ _, hy.mem, hy.view, hy.idle, ?_, rfl⟩
  simp [Cell.stored, armed, hu]

theorem Prep.exposed {y : Cell DmaDesc} {u : U32} (hy : Prep D i v y) :
    Exposed D i u (y.stored { y.view with st := u }) := by
  refine ⟨Cell.settled_stored _ _, hy.mem, hy.view, ?_, rfl⟩
  intro harmed
  have hidle : armed (y.stored { y.view with st := u }).mem = false := hy.idle
  rw [hidle] at harmed
  exact absurd harmed (by decide)

theorem Exposed.publish {y : Cell DmaDesc} (hy : Exposed D i v y) :
    Published D i v (y.stored { y.view with status := bit 31 }) :=
  ⟨⟨Cell.settled_stored _ _, hy.mem, hy.view, hy.shown, hy.st⟩, rfl⟩

/-- Discarding the processor's copy of the descriptor. -/
theorem TxWork.drop_desc (hn : n ≤ 2048) (hm : m ≤ 2048)
    (hw : TxWork D acc f (Open D (acc.length % 32)) n m w) :
    ∃ v, TxWork D acc f (Prep D (acc.length % 32) v) n m
      (w.drop (D.txChain (acc.length % 32) / 64)) := by
  have hdrop : TxWork D acc f (Open D (acc.length % 32)) n m
      (w.drop (D.txChain (acc.length % 32) / 64)) :=
    steady_open hn hm none _ _ hw (.noise (World.noise_drop hw.cell.clean))
  have hcell := CMem.cell_drop_same (c := w.m)
    (local_descAt (Indev.txChain_aligned (D := D) (i := acc.length % 32)))
  have hfresh : (World.txCell (w.drop (D.txChain (acc.length % 32) / 64)) D
      (acc.length % 32)).view = (World.txCell (w.drop (D.txChain (acc.length % 32) / 64)) D
      (acc.length % 32)).mem :=
    (congrArg Cell.view hcell).trans (congrArg Cell.mem hcell).symm
  have hc := hdrop.cell
  exact ⟨_, hdrop.call, ⟨fun _ => hfresh.symm, hc.mem, hc.view, hc.idle, hfresh ▸ hc.idle, rfl⟩,
    hdrop.copied, hdrop.flushed⟩

/-- Writing back line `j` of the buffer. -/
theorem TxWork.evict_line {j : ℕ} (hC : ∀ x x', C x → x.Drift x' → C x')
    (hidle : ∀ x, C x → armed x.mem = false) (hfit : f.length ≤ 2047) (hj : 64 * (j + 1) ≤ 2048)
    (hw : TxWork D acc f C f.length (64 * j) w) :
    TxWork D acc f C f.length (64 * (j + 1))
      (w.evict ((D.txBuf (acc.length % 32) + 64 * j) / 64)) := by
  have hkeep := steady_txWork hC hidle (by omega) (by omega) none _ _ hw
    (.noise (w.noise_evict ((D.txBuf (acc.length % 32) + 64 * j) / 64)))
  refine ⟨hkeep.call, hkeep.cell, hkeep.copied, ?_⟩
  intro k b hk hb
  by_cases hold : k < 64 * j
  · exact hkeep.flushed k b hold hb
  · have halign := Indev.txBuf_aligned (D := D) (i := acc.length % 32)
    have hline : (D.txBuf (acc.length % 32) + k) / 64 = (D.txBuf (acc.length % 32) + 64 * j) / 64 := by
      omega
    rcases hkeep.copied k b (List.getElem?_eq_some_iff.1 hb).1 hb with ⟨hsettled, hview⟩
    have hclean : (World.byteCell (w.evict ((D.txBuf (acc.length % 32) + 64 * j) / 64))
        (D.txBuf (acc.length % 32) + k)).dirty = false :=
      (CMem.dirty_evict _ _ _).trans (if_pos hline)
    exact ⟨hclean, (hsettled hclean).trans hview⟩

theorem flushBuffer_spec (hC : ∀ x x', C x → x.Drift x' → C x')
    (hidle : ∀ x, C x → armed x.mem = false) (hfit : f.length ≤ 2047) (k j : ℕ)
    (hk : 64 * (j + k) ≤ 2048) (hw : TxWork D acc f C f.length (64 * j) w) :
    txWp D acc f canFail (eachLine dccimvac (D.txBuf (acc.length % 32) + 64 * j) k)
      (fun _ t => TxWork D acc f C f.length (64 * (j + k)) t) w := by
  induction k generalizing j w with
  | zero => exact wp_pure (steady_txWork hC hidle (by omega) (by omega)) hw fun t ht => ht
  | succ k ih =>
      refine wp_act (fun t => t.evict ((D.txBuf (acc.length % 32) + 64 * j) / 64))
        (fun t r t' hacc => hacc) (steady_txWork hC hidle (by omega) (by omega) _) hw
        (fun t r ht => ⟨ht.safe_of_idle (hidle _ ht.cell), trivial⟩) ?_
      intro t r ht
      have hrest := ih (j + 1) (by omega) (ht.evict_line hC hidle hfit (by omega))
      rw [show j + 1 + k = j + (k + 1) by omega] at hrest
      exact hrest

/-- From the store of the status word to the flush of the descriptor. -/
theorem TxPublished.evict (hfit : f.length ≤ 2047) (hv : Final f.length v)
    (hw : TxPublished D acc f v w) :
    TxRing D (acc ++ [f]) ∅ (w.evict (D.txChain (acc.length % 32) / 64)) := by
  have hkeep := hw.env hfit hv (o := none) (.noise (w.noise_evict (D.txChain (acc.length % 32) / 64)))
  rcases hkeep.state with hs | hs
  · exact hs.queue hfit hv ((CMem.dirty_evict _ _ _).trans (if_pos rfl))
  · exact hs

/-- The ring is a matter of memory and of the DMA alone. -/
theorem TxRing.of_eq {skip : Set ℕ} (hr : TxRing D acc skip w) (hm : w'.m = w.m)
    (hdma : w'.txDma = w.txDma) (hsent : w'.sent = w.sent) : TxRing D acc skip w' := by
  rcases w with ⟨m, rxCur, txCur, rxDma, txDma, rxRun, txRun, dl, sent⟩
  rcases w' with ⟨m', rxCur', txCur', rxDma', txDma', rxRun', txRun', dl', sent'⟩
  cases hm
  cases hdma
  cases hsent
  rcases hr with ⟨hlog, hroom, hdma, hslots⟩
  refine ⟨hlog, hroom, hdma, ?_⟩
  intro k hlo hhi hk
  rcases hslots k hlo hhi hk with ⟨hclean, hmem, hview, hqueued, hfree⟩
  refine ⟨hclean, hmem, hview, ?_, hfree⟩
  intro f hf
  rcases hqueued f hf with ⟨harmed, hlen, hfit, hdata⟩
  exact ⟨harmed, hlen, hfit, hdata⟩

/-- The end of a call: the index moves on and the channel is started. -/
theorem wp_finish {cur : U32} (hcur : cur.toNat = acc.length % 32)
    (hw : TxRing D (acc ++ [f]) ∅ w) :
    txWp D acc f canFail
      (do
        setTxCurrdescnum (nextDescNum cur)
        let v ← readl .txCtl1
        writel .txCtl1 (v ||| bit 31 ||| bit 30))
      (fun _ t => TxIdle D (acc ++ [f]) t) w := by
  have hnext := nextDescNum_toNat hcur
  refine wp_act (fun t => { t with txCur := nextDescNum cur }) (fun t r t' hacc => hacc)
    (P := TxRing D (acc ++ [f]) ∅) (fun _ _ hr he => hr.env he) hw ?_ ?_
  · intro t r ht
    refine ⟨ht.safe, ?_⟩
    show (nextDescNum cur).toNat = (acc.length % 32 + 1) % 32
    omega
  · intro t r ht
    -- The ring is idle as soon as the index has moved; starting the DMA changes nothing in it.
    have hidle : TxIdle D (acc ++ [f]) { t with txCur := nextDescNum cur } := by
      refine ⟨ht.of_eq rfl rfl rfl, ?_⟩
      rw [List.length_append, List.length_singleton]
      exact hnext
    refine wp_ask (A := fun _ _ => True) (fun t r t' hacc => ⟨trivial, hacc.2⟩) steady_txIdle hidle
      (fun t r ht _ => ⟨ht.ring.safe, trivial⟩) ?_
    intro t r ht _
    rw [← bind_pure (writel _ _)]
    refine wp_act (fun t => t.writel (r ||| bit 31 ||| bit 30) .txCtl1) (fun t r t' hacc => hacc)
      (steady_txIdle _) ht ?_ ?_
    · intro t _ ht
      have hbit : (bit 30).getLsbD 30 = true := by decide
      refine ⟨ht.ring.safe, rfl, ?_⟩
      rw [BitVec.getLsbD_or, hbit, Bool.or_true]
    · intro t _ ht
      have hidle : TxIdle D (acc ++ [f]) (t.writel (r ||| bit 31 ||| bit 30) .txCtl1) :=
        ⟨ht.ring.of_eq rfl rfl rfl, ht.cur⟩
      exact wp_pure steady_txIdle hidle fun t ht => ht

theorem getLsbD_29_word (hn : n ≤ 2047) :
    (BitVec.ofNat 32 n ||| bit 24 ||| bit 30).getLsbD 29 = false := by
  have h₂₄ : (bit 24).getLsbD 29 = false := by decide
  have h₃₀ : (bit 30).getLsbD 29 = false := by decide
  rw [BitVec.getLsbD_or, BitVec.getLsbD_or, h₂₄, h₃₀, getLsbD_ofNat_of_le hn 29 (by omega)]
  rfl

/-- From the flush of the data on: the last bits of `st`, the status word, and the handover. -/
theorem wp_publish {cur : U32} (hfit : f.length ≤ 2047) (hcur : cur.toNat = acc.length % 32)
    (hw : TxWork D acc f (Prep D (acc.length % 32) (BitVec.ofNat 32 f.length ||| bit 24))
      f.length f.length w) :
    txWp D acc f canFail
      (do
        setBit (D.txChain (acc.length % 32) + 4) (bit 30)
        setBit (D.txChain (acc.length % 32) + 4) (bit 31)
        setBit (D.txChain (acc.length % 32) + 4) (bit 29)
        store (D.txChain (acc.length % 32)) (bit 31)
        flushDcacheRange (D.txChain (acc.length % 32)) (D.txChain (acc.length % 32) + 64)
        setTxCurrdescnum (nextDescNum cur)
        let v ← readl .txCtl1
        writel .txCtl1 (v ||| bit 31 ||| bit 30))
      (fun _ t => TxIdle D (acc ++ [f]) t) w := by
  have halign := Indev.txChain_aligned (D := D) (i := acc.length % 32)
  have hv := final_lastWord hfit
  have hword := getLsbD_29_word hfit
  refine wp_setSt (E := Prep D (acc.length % 32) (BitVec.ofNat 32 f.length ||| bit 24 ||| bit 30))
    (by omega) (by omega) (fun y hy => hy.stored ?_) hw ?_
  · rw [firstLast, hword, Bool.and_false]
  intro t ht
  refine wp_setSt (E := Prep D (acc.length % 32) (lastWord f.length))
    (by omega) (by omega) (fun y hy => hy.stored ?_) ht ?_
  · exact firstLast_or _ _ hword (by decide)
  intro t ht
  refine wp_setSt (E := Exposed D (acc.length % 32) (lastWord f.length ||| bit 29))
    (by omega) (by omega) (fun y hy => hy.exposed) ht ?_
  intro t ht
  -- The DMA does not take the descriptor before its status word has been stored.
  refine wp_act (fun t => t.write (D.txChain (acc.length % 32) / 64)
      fun mem => mem.write32 (D.txChain (acc.length % 32)) (bit 31))
    (fun t r t' hacc => hacc) (stable_exposed (by omega) (by omega)) ht
    (fun t r ht => ⟨ht.safe_of_exposed hfit hv ht.cell, rfl⟩) ?_
  intro t r ht
  have hpub : TxPublished D acc f (lastWord f.length ||| bit 29)
      (t.write (D.txChain (acc.length % 32) / 64)
        fun mem => mem.write32 (D.txChain (acc.length % 32)) (bit 31)) :=
    ⟨.inl (ht.store_desc (k := 0) (g := fun d => { d with status := bit 31 }) (by omega)
      (fun mem => descAt_write_status mem _ _) fun y hy => hy.publish), ht.call.cur⟩
  rw [flushDcacheRange_line halign, bind_assoc]
  refine wp_act (fun t => t.evict (D.txChain (acc.length % 32) / 64)) (fun t r t' hacc => hacc)
    (steady_published hfit hv _) hpub (fun t r ht => ⟨ht.safe hfit hv, trivial⟩) ?_
  intro t r ht
  rw [pure_bind]
  exact wp_finish hcur (ht.evict hfit hv)

theorem TxWork.mono {k : ℕ} (hw : TxWork D acc f C n m w) (hk : k ≤ m) :
    TxWork D acc f C n k w :=
  ⟨hw.call, hw.cell, hw.copied, fun j b hj => hw.flushed j b (by omega)⟩

/-- The last segment: the descriptor is filled in, published, and handed over. -/
theorem sendLast_spec (bs : List Byte) (n : ℕ) (hlen : f.length = n + bs.length)
    (hfit : f.length ≤ 2047) (hbs : ∀ j b, bs[j]? = some b → f[n + j]? = some b)
    (hw : TxWork D acc f (Open D (acc.length % 32)) n 0 w) :
    txWp D acc f canFail (sendLast D bs (n ||| 0x0)) (fun _ t => TxIdle D (acc ++ [f]) t) w := by
  have hmod : acc.length % 32 < 32 := Nat.mod_lt _ (by omega)
  have halign := Indev.txChain_aligned (D := D) (i := acc.length % 32)
  have hsteady : Steady (txRely D) (TxWork D acc f (Open D (acc.length % 32)) n 0) :=
    steady_open (by omega) (by omega)
  rw [Nat.or_zero]
  refine wp_ask (A := fun t r => r = t.txCur) (fun t r t' hacc => hacc) hsteady hw
    (fun t r ht _ => ⟨ht.safe_of_idle ht.cell.idle, trivial⟩) ?_
  rintro t r ht rfl
  have hcur := ht.call.cur
  generalize t.txCur = cur at hcur
  rw [hcur]
  -- The address of the buffer, and the descriptor fetched anew.
  refine wp_load hsteady noisy_txRely ht (fun t t' ht => ⟨ht.safe_of_idle ht.cell.idle, trivial⟩) ?_
  intro t ht
  have hbuf : t.m.view.read32 (D.txChain (acc.length % 32) + 8) =
      BitVec.ofNat 32 (D.txBuf (acc.length % 32)) := ht.cell.view.1
  rw [hbuf, Indev.toNat_txBuf hmod, show roundup 16 ARCH_DMA_MINALIGN = 64 from rfl,
    invalidateDcacheRange_line halign, bind_assoc]
  refine wp_act (fun t => t.drop (D.txChain (acc.length % 32) / 64)) (fun t r t' hacc => hacc)
    (hsteady _) ht (fun t r ht => ⟨ht.safe_of_idle ht.cell.idle, rfl, ht.cell.clean⟩) ?_
  intro t r ht
  rw [pure_bind]
  rcases ht.drop_desc (by omega) (by omega) with ⟨v, ht⟩
  refine wp_act (fun t => t.write ((D.txChain (acc.length % 32) + 4) / 64)
      fun mem => mem.write32 (D.txChain (acc.length % 32) + 4) (BitVec.ofNat 32 (n + bs.length)))
    (fun t r t' hacc => hacc) (steady_prep (by omega) (by omega) _) ht ?_ ?_
  · intro t r ht
    refine ⟨ht.safe_of_idle ht.cell.idle, ?_⟩
    show (D.txChain (acc.length % 32) + 4) / 64 = _
    omega
  intro t r ht
  rw [← hlen]
  -- The length goes in first, and the other bits are added to it one by one.
  have hst : TxWork D acc f (Prep D (acc.length % 32) (BitVec.ofNat 32 f.length)) n 0
      (t.write ((D.txChain (acc.length % 32) + 4) / 64)
        fun mem => mem.write32 (D.txChain (acc.length % 32) + 4) (BitVec.ofNat 32 f.length)) :=
    ht.store_desc (g := fun d => { d with st := BitVec.ofNat 32 f.length }) (by omega)
      (fun mem => descAt_write_st mem _ _) fun y hy => hy.stored (firstLast_len hfit)
  refine wp_setSt (E := Prep D (acc.length % 32) (BitVec.ofNat 32 f.length ||| bit 24))
    (by omega) (by omega) (fun y hy => hy.stored ?_) hst ?_
  · exact firstLast_or _ _ (getLsbD_ofNat_of_le hfit 29 (by omega)) (by decide)
  intro t ht
  -- The data reaches memory before the descriptor is handed over.
  refine Prog.wp_seq (copyIn_spec (fun _ _ => Prep.drift) (fun _ hc => hc.idle) bs n (by omega) hbs ht)
    ?_
  intro _ t ht
  rw [← hlen] at ht
  rw [flushDcacheRange_buffer Indev.txBuf_aligned]
  refine Prog.wp_seq (flushBuffer_spec (fun _ _ => Prep.drift) (fun _ hc => hc.idle) hfit
    ((f.length + 63) / 64) 0 (by omega) ht) ?_
  intro _ t ht
  exact wp_publish hfit hcur (ht.mono (by omega))

/-! ## The whole call -/

theorem emacTxFrom_spec (hfit : f.length ≤ 2047) (p : Pbuf) (n : ℕ) (hp : p ≠ [])
    (hlen : f.length = n + p.flatten.length)
    (hbs : ∀ j b, p.flatten[j]? = some b → f[n + j]? = some b)
    (hw : TxWork D acc f (Open D (acc.length % 32)) n 0 w) :
    txWp D acc f canFail (emacTxFrom D n p) (fun _ t => TxIdle D (acc ++ [f]) t) w := by
  induction p generalizing n w with
  | nil => exact absurd rfl hp
  | cons q qs ih =>
      rw [List.flatten_cons, List.length_append] at hlen
      obtain ⟨hq, hqs⟩ := segments_of_flatten hbs
      -- The last segment of the chain is sent without the flag.
      cases qs with
      | nil =>
          show txWp D acc f canFail (sun8iEmacEthSend D q (n ||| 0x0) >>= fun _ => pure ()) _ w
          rw [emacEthSend_last q (by omega), bind_pure]
          refine sendLast_spec q n ?_ hfit hq hw
          simpa using hlen
      | cons q' qs =>
          show txWp D acc f canFail
            (sun8iEmacEthSend D q (n ||| 0x10000) >>= fun _ =>
              emacTxFrom D (n + q.length) (q' :: qs)) _ w
          rw [emacEthSend_fragment q (by omega)]
          refine Prog.wp_seq (sendFragment_spec q n (by omega) hq hw) ?_
          intro _ t ht
          exact ih (n + q.length) (by simp) (by omega) hqs ht

/-- One call of `_emac_tx`: with room in the ring, its frame is queued behind the others. -/
theorem emacTx_spec {p : Pbuf} (hp : p ≠ []) (hfit : p.flatten.length ≤ 2047)
    (hroom : acc.length < w.sent.length + 32) (hw : TxIdle D acc w) :
    txWp D acc p.flatten canFail (emacTx D p) (fun _ t => TxIdle D (acc ++ [p.flatten]) t) w := by
  have hlog := hw.ring.log.length_le
  have hslot := hw.ring.slots acc.length hlog hroom (Set.notMem_empty _)
  refine emacTxFrom_spec hfit p 0 hp (by omega) (fun j b hj => by rwa [Nat.zero_add]) ?_
  refine ⟨⟨⟨hw.ring.log, hw.ring.room, hw.ring.dma, ?_⟩, hroom, hw.cur⟩,
    ⟨hslot.clean, hslot.mem, hslot.view, hslot.free (by simp)⟩, ?_, ?_⟩
  · intro k hlo hhi _
    exact hw.ring.slots k hlo hhi (Set.notMem_empty _)
  · intro j b hj
    omega
  · intro j b hj
    omega

end Emac

end BspV3s
