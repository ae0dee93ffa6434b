import BspV3s.Emac.Coherence

/-!
# Rearm — a completion between the two stores that arm a descriptor

`tx_descs_init` leaves the own bit set in every descriptor, so a descriptor is armed as soon as
`st |= BIT(29)` reaches memory.  When the DMA completes it before `status = BIT(31)` is stored, that
store arms the descriptor once more, and one revolution of the ring later a frame is copied under an
armed descriptor.  This module runs the driver through that.

Every store reaches memory at once here, so the accesses are those of direct memory.
-/

namespace BspV3s

namespace Emac

variable {D : Indev} {w w' : World} {c : ℕ} {d : DmaDesc}

/-! ## Stores to direct memory -/

/-- A word stored. -/
def World.poke32 (w : World) (a : ℕ) (v : U32) : World :=
  { w with m := direct.write w.m (a / 64) fun m => m.write32 a v }

/-- A bit set in a word. -/
def World.pokeOr (w : World) (a : ℕ) (b : U32) : World :=
  w.poke32 a (w.m.mem.read32 a ||| b)

/-- A byte stored. -/
def World.poke8 (w : World) (a : ℕ) (b : Byte) : World :=
  { w with m := direct.write w.m (a / 64) fun m => m.writeBytes a [b] }

/-- An access that changes nothing. -/
theorem runs_still {o : Op} {r : o.Ret} (h : access direct True o w r w) :
    Prog.Runs (access direct True) (Prog.op o) w r w :=
  .call h (.ret _ _)

theorem runs_load {a : ℕ} {v : U32} (h : v = w.m.mem.read32 a) :
    Prog.Runs (access direct True) (load a) w v w :=
  runs_still ⟨h, rfl⟩

theorem runs_dccimvac (a : ℕ) : Prog.Runs (access direct True) (dccimvac a) w () w :=
  runs_still (o := .dccimvac a) (r := ()) rfl

theorem runs_dcimvac (a : ℕ) : Prog.Runs (access direct True) (dcimvac a) w () w :=
  runs_still (o := .dcimvac a) (r := ()) rfl

theorem runs_store (a : ℕ) (v : U32) :
    Prog.Runs (access direct True) (store a v) w () (w.poke32 a v) :=
  .call (r := ()) rfl (.ret _ _)

theorem runs_setBit (a : ℕ) (b : U32) :
    Prog.Runs (access direct True) (setBit a b) w () (w.pokeOr a b) :=
  (runs_load rfl).bind (runs_store _ _)

theorem runs_eachLine (a n : ℕ) : Prog.Runs (access direct True) (eachLine dccimvac a n) w () w := by
  induction n generalizing a with
  | zero => exact .ret _ _
  | succ n ih => exact (runs_dccimvac a).bind (ih (a + 64))

theorem runs_copyIn_one (a : ℕ) (b : Byte) :
    Prog.Runs (access direct True) (copyIn a [b]) w () (w.poke8 a b) :=
  .call (r := ()) rfl (.ret _ _)

/-! ## What a call does to the slot it works on -/

/-- Address `x` is in the line of descriptor `c` or in buffer `c`. -/
def InSlot (D : Indev) (c x : ℕ) : Prop :=
  x / 64 = D.txChain c / 64 ∨ D.txBuf c ≤ x ∧ x < D.txBuf c + 2048

/-- From `w` to `w'` only slot `c` has changed, and its descriptor is now `d`. -/
structure At (D : Indev) (c : ℕ) (d : DmaDesc) (w w' : World) : Prop where
  memory : w'.m.Uncached
  same : w' = { w with m := w'.m }
  outside : ∀ x, ¬ InSlot D c x → w'.m.mem x = w.m.mem x
  desc : descAt (D.txChain c) w'.m.mem = d

theorem At.refl (hw : w.m.Uncached) : At D c (descAt (D.txChain c) w.m.mem) w w :=
  ⟨hw, rfl, fun _ _ => rfl, rfl⟩

/-- The store of a field of the descriptor. -/
theorem At.field {k : ℕ} {v : U32} {g : DmaDesc → DmaDesc} (h : At D c d w w') (hk : k < 64)
    (hg : ∀ mem : Mem, descAt (D.txChain c) (mem.write32 (D.txChain c + k) v) =
      g (descAt (D.txChain c) mem)) :
    At D c (g d) w (w'.poke32 (D.txChain c + k) v) := by
  have halign := Indev.txChain_aligned (D := D) (i := c)
  have hline : (D.txChain c + k) / 64 = D.txChain c / 64 := by omega
  refine ⟨h.memory.setMem _, ?_, ?_, ?_⟩
  · rw [World.poke32, h.same]
  · intro x hx
    have hne : x / 64 ≠ (D.txChain c + k) / 64 := fun heq => hx (.inl (heq.trans hline))
    exact (if_neg hne).trans (h.outside x hx)
  · rw [← h.desc, ← hg]
    apply local_descAt halign
    intro x hx
    have hin : x / 64 = (D.txChain c + k) / 64 := (mem_lineSet.1 hx).trans hline.symm
    exact if_pos hin

/-- The store of a byte of the buffer. -/
theorem At.byte {j : ℕ} {b : Byte} (h : At D c d w w') (hc : c < 32) (hj : j < 2048) :
    At D c d w (w'.poke8 (D.txBuf c + j) b) ∧
      (w'.poke8 (D.txBuf c + j) b).m.mem (D.txBuf c + j) = b := by
  have halign := D.aligned
  refine ⟨⟨h.memory.setMem _, ?_, ?_, ?_⟩, ?_⟩
  · rw [World.poke8, h.same]
  · intro x hx
    refine Eq.trans ?_ (h.outside x hx)
    by_cases hline : x / 64 = (D.txBuf c + j) / 64
    · refine (if_pos hline).trans (Mem.writeBytes_outside ?_)
      have hout : ¬ (D.txBuf c ≤ x ∧ x < D.txBuf c + 2048) := fun hin => hx (.inr hin)
      simp only [List.length_singleton, Indev.txBuf] at *
      omega
    · exact if_neg hline
  · rw [← h.desc]
    apply local_descAt Indev.txChain_aligned
    intro x hx
    have hne : x / 64 ≠ (D.txBuf c + j) / 64 := by
      rw [mem_lineSet] at hx
      simp only [Indev.txChain, Indev.txBuf] at *
      omega
    exact if_neg hne
  · refine (if_pos rfl).trans ?_
    have hread : w'.m.mem.writeBytes (D.txBuf c + j) [b] (D.txBuf c + j + 0) = b :=
      Mem.writeBytes_inside (by simp)
    exact hread

/-! ## A call for a frame of one byte, in two parts -/

/-- `_emac_tx` up to the store of the status word. -/
def sendArm (D : Indev) (packet : List Byte) : EmacM U32 := do
  let descNum ← txCurrdescnum
  let descP := D.txChain descNum.toNat
  let dataStart ← load (descP + 8)
  invalidateDcacheRange descP (descP + roundup 16 ARCH_DMA_MINALIGN)
  store (descP + 4) (BitVec.ofNat 32 packet.length)
  setBit (descP + 4) (bit 24)
  copyIn dataStart.toNat packet
  flushDcacheRange dataStart.toNat
    (dataStart.toNat + roundup packet.length ARCH_DMA_MINALIGN)
  setBit (descP + 4) (bit 30)
  setBit (descP + 4) (bit 31)
  setBit (descP + 4) (bit 29)
  pure descNum

/-- The rest of it. -/
def sendPublish (D : Indev) (descNum : U32) : EmacM Unit := do
  let descP := D.txChain descNum.toNat
  store descP (bit 31)
  flushDcacheRange descP (descP + roundup 16 ARCH_DMA_MINALIGN)
  setTxCurrdescnum (nextDescNum descNum)
  let v ← readl .txCtl1
  writel .txCtl1 (v ||| bit 31 ||| bit 30)

theorem emacTx_split (D : Indev) (packet : List Byte) :
    emacTx D [packet] = sendArm D packet >>= sendPublish D := by
  simp only [emacTx, emacTxFrom, sun8iEmacEthSend, List.isEmpty_nil, if_true, Nat.or_self,
    if_neg (show ¬ 0x10000 ≤ 0 by decide), sendLast, sendArm, sendPublish, Nat.zero_add,
    Nat.add_zero, bind_assoc, pure_bind, bind_pure_unit]

/-- The word that hands over a frame of one byte. -/
def oneByteWord : U32 := 1#32 ||| bit 24 ||| bit 30 ||| bit 31 ||| bit 29

theorem firstLast_oneByteWord : firstLast oneByteWord = true := by decide

theorem txLength_oneByteWord : txLength oneByteWord = 1 := by decide

/-- The descriptor `c` is reached through the index. -/
structure Reached (D : Indev) (c : ℕ) (w : World) : Prop where
  memory : w.m.Uncached
  index : c < 32
  cur : w.txCur.toNat = c
  linked : (descAt (D.txChain c) w.m.mem).bufAddr = BitVec.ofNat 32 (D.txBuf c)

theorem read32_st (a : ℕ) (m : Mem) : m.read32 (a + 4) = (descAt a m).st := rfl

theorem At.setBit (h : At D c d w w') (b : U32) :
    At D c { d with st := d.st ||| b } w (w'.pokeOr (D.txChain c + 4) b) := by
  rw [World.pokeOr, read32_st, h.desc]
  exact h.field (g := fun e => { e with st := d.st ||| b }) (by omega)
    (fun mem => descAt_write_st mem _ _)

theorem poke32_buf {x k : ℕ} {v : U32} (hk : k < 64) (hx : D.txBuf 0 ≤ x) (hc : c < 32) :
    (w.poke32 (D.txChain c + k) v).m.mem x = w.m.mem x := by
  have halign := D.aligned
  refine if_neg ?_
  simp only [Indev.txChain, Indev.txBuf] at *
  omega

theorem exists_sendArm (hw : Reached D c w) (b : Byte) :
    ∃ w', Prog.Runs (access direct True) (sendArm D [b]) w w.txCur w' ∧
      At D c { descAt (D.txChain c) w.m.mem with st := oneByteWord } w w' ∧
      w'.m.mem (D.txBuf c) = b := by
  have hc := hw.index
  have hbuf : D.txBuf 0 ≤ D.txBuf c := by
    simp only [Indev.txBuf]
    omega
  -- The six writes of the routine, in its order.
  set w₁ := w.poke32 (D.txChain c + 4) 1#32 with h₁
  set w₂ := w₁.pokeOr (D.txChain c + 4) (bit 24) with h₂
  set w₃ := w₂.poke8 (D.txBuf c + 0) b with h₃
  set w₄ := w₃.pokeOr (D.txChain c + 4) (bit 30) with h₄
  set w₅ := w₄.pokeOr (D.txChain c + 4) (bit 31) with h₅
  set w₆ := w₅.pokeOr (D.txChain c + 4) (bit 29) with h₆
  have hat₁ : At D c { descAt (D.txChain c) w.m.mem with st := 1#32 } w w₁ :=
    (At.refl hw.memory).field (g := fun e => { e with st := 1#32 }) (by omega)
      (fun mem => descAt_write_st mem _ _)
  have hbyte := (hat₁.setBit (bit 24)).byte (j := 0) (b := b) hc (by omega)
  have hat₆ := ((hbyte.1.setBit (bit 30)).setBit (bit 31)).setBit (bit 29)
  refine ⟨w₆, ?_, hat₆, ?_⟩
  · refine Prog.Runs.bind (runs_still ⟨rfl, rfl⟩ : Prog.Runs _ txCurrdescnum w w.txCur w) ?_
    rw [hw.cur]
    refine Prog.Runs.bind (runs_load hw.linked.symm) ?_
    rw [Indev.toNat_txBuf hc, show roundup 16 ARCH_DMA_MINALIGN = 64 from rfl,
      invalidateDcacheRange_line Indev.txChain_aligned,
      flushDcacheRange_buffer Indev.txBuf_aligned]
    refine Prog.Runs.bind (runs_dcimvac _) ?_
    refine Prog.Runs.bind (runs_store _ _) ?_
    refine Prog.Runs.bind (runs_setBit _ _) ?_
    refine Prog.Runs.bind (runs_copyIn_one _ _) ?_
    refine Prog.Runs.bind (runs_eachLine _ _) ?_
    refine Prog.Runs.bind (runs_setBit _ _) ?_
    refine Prog.Runs.bind (runs_setBit _ _) ?_
    refine Prog.Runs.bind (runs_setBit _ _) ?_
    exact .ret _ _
  · rw [h₆, World.pokeOr, poke32_buf (by omega) hbuf hc, h₅, World.pokeOr,
      poke32_buf (by omega) hbuf hc, h₄, World.pokeOr, poke32_buf (by omega) hbuf hc]
    exact hbyte.2

theorem exists_sendPublish {descNum : U32} (hw : w.m.Uncached) (hc : c < 32)
    (hcur : descNum.toNat = c) :
    ∃ t, At D c { descAt (D.txChain c) w.m.mem with status := bit 31 } w t ∧
      (∀ x, D.txBuf 0 ≤ x → t.m.mem x = w.m.mem x) ∧
      Prog.Runs (access direct True) (sendPublish D descNum) w ()
        { t with txCur := nextDescNum descNum, txRun := true } := by
  have hat : At D c { descAt (D.txChain c) w.m.mem with status := bit 31 } w
      (w.poke32 (D.txChain c + 0) (bit 31)) :=
    (At.refl hw).field (g := fun e => { e with status := bit 31 }) (by omega)
      (fun mem => descAt_write_status mem _ _)
  refine ⟨_, hat, fun x hx => poke32_buf (by omega) hx hc, ?_⟩
  set t := w.poke32 (D.txChain c + 0) (bit 31) with ht
  rcases exists_access direct True (.readl .txCtl1) { t with txCur := nextDescNum descNum } with
    ⟨v, t', hread⟩
  rw [sendPublish, hcur]
  refine Prog.Runs.bind (runs_store _ _) ?_
  rw [show roundup 16 ARCH_DMA_MINALIGN = 64 from rfl, flushDcacheRange_line Indev.txChain_aligned]
  refine Prog.Runs.bind (runs_dccimvac _) ?_
  refine Prog.Runs.bind (show Prog.Runs _ _ t _ { t with txCur := nextDescNum descNum } from
    .call (r := ()) rfl (.ret _ _)) ?_
  refine Prog.Runs.bind (.call hread (.ret _ _)) ?_
  rw [hread.2]
  refine .call (r := ()) ?_ (.ret _ _)
  have hbit : (bit 30).getLsbD 30 = true := by decide
  show _ = World.writel _ _ _
  rw [World.writel, BitVec.getLsbD_or, hbit, Bool.or_true]

/-! ## The run -/

/-- The transmit ring as `tx_descs_init` leaves it: every descriptor has its own bit set. -/
structure Fresh (D : Indev) (w : World) : Prop where
  memory : w.m.Uncached
  cur : w.txCur.toNat = 0
  desc : ∀ i < 32, TxReady D i (descAt (D.txChain i) w.m.mem)
  dma : w.txDma = D.txChain 0
  sent : w.sent = []

theorem exists_fresh (D : Indev) : ∃ w, NetStart D ⟨w, none, none, [], []⟩ ∧ Fresh D w := by
  rcases exists_netStart D with ⟨w₀, w, hw₀, hrun, hstart⟩
  refine ⟨w, hstart, ?_⟩
  rcases Prog.runs_bind_inv hrun with ⟨_, w₁, hrx, htx⟩
  rcases Prog.runs_bind_inv htx with ⟨_, w₂, htable, hcur⟩
  rcases simulated_direct.runs noisy_txInitRely (rxDescsInit_runs hw₀ hrx).1 (txTableInit_spec w₁)
    htable with ⟨hun, ht⟩
  cases hcur with
  | call hacc hret =>
      cases hacc
      cases hret
      refine ⟨hun, rfl, ?_, ht.dma, ht.sent⟩
      intro i hi
      have hcell := ht.chain.1 i hi
      have hview : (w₂.descCell (D.base + 2048 + 64 * i)).view = descAt (D.txChain i) w₂.m.mem := by
        show descAt (D.txChain i) w₂.m.view = _
        rw [hun.view]
      exact hview ▸ hcell.2

/-- Frame `[0]` has been sent, but its descriptor is armed again; `n` frames have been accepted. -/
structure Stale (D : Indev) (n : ℕ) (w : World) : Prop where
  memory : w.m.Uncached
  cur : w.txCur.toNat = n % 32
  linked : ∀ i < 32, (descAt (D.txChain i) w.m.mem).bufAddr = BitVec.ofNat 32 (D.txBuf i)
  sent : w.sent = [[0]]
  armed : armed (descAt (D.txChain 0) w.m.mem) = true
  length : txLength (descAt (D.txChain 0) w.m.mem).st = 1
  byte : w.m.mem (D.txBuf 0) = 0

theorem At.desc_ne {i : ℕ} (h : At D c d w w') (hc : c < 32) (hi : i < 32) (hic : i ≠ c) :
    descAt (D.txChain i) w'.m.mem = descAt (D.txChain i) w.m.mem := by
  apply descAt_congr
  rintro x ⟨hlo, hhi⟩
  apply h.outside
  have := D.aligned
  simp only [InSlot, Indev.txChain, Indev.txBuf] at *
  omega

theorem At.buf_ne {i : ℕ} (h : At D c d w w') (hc : c < 32) (hi : i < 32) (hic : i ≠ c) :
    w'.m.mem (D.txBuf i) = w.m.mem (D.txBuf i) := by
  apply h.outside
  have := D.aligned
  simp only [InSlot, Indev.txChain, Indev.txBuf] at *
  omega

theorem At.linked (h : At D c d w w') (hc : c < 32) (hd : d.bufAddr = BitVec.ofNat 32 (D.txBuf c))
    (hw : ∀ i < 32, (descAt (D.txChain i) w.m.mem).bufAddr = BitVec.ofNat 32 (D.txBuf i)) :
    ∀ i < 32, (descAt (D.txChain i) w'.m.mem).bufAddr = BitVec.ofNat 32 (D.txBuf i) := by
  intro i hi
  by_cases hic : i = c
  · subst hic
    rw [h.desc]
    exact hd
  · rw [h.desc_ne hc hi hic]
    exact hw i hi

theorem sendPublish_runs {descNum : U32} {f : TxFrame} {acc : List TxFrame} (hw : w.m.Uncached)
    (hrun : Prog.Runs (access direct True) (sendPublish D descNum) w () w') :
    RunUnder (NetStep D) NetAssumed ⟨w, none, some (f, sendPublish D descNum), [], acc⟩
      ⟨w', none, none, [], acc ++ [f]⟩ := by
  have hsteps : RunUnder (NetStep D) NetAssumed
      ⟨w, none, some (f, sendPublish D descNum >>= .ret), [], acc⟩
      ⟨w', none, some (f, .ret ()), [], acc⟩ := net_runs (fun _ => trivial) (fun _ => trivial) hw hrun
  rw [Prog.bind_ret] at hsteps
  exact hsteps.tail (l := .txDone) trivial (.txDone rfl)

/-- The call for the first frame, with the completion before the store of the status word. -/
theorem Fresh.race (hw : Fresh D w) : ∃ w',
    RunUnder (NetStep D) NetAssumed ⟨w, none, none, [], []⟩ ⟨w', none, none, [], [[0]]⟩ ∧
      Stale D 1 w' := by
  set w₀ : World := { w with txRun := true } with h₀
  have hready := hw.desc 0 (by omega)
  have hreached : Reached D 0 w₀ := ⟨hw.memory, by omega, hw.cur, hready.1.1⟩
  rcases exists_sendArm hreached 0 with ⟨w₁, harm, hat₁, hbyte₁⟩
  have hdma₁ : w₁.txDma = D.txChain 0 := by
    rw [hat₁.same]
    exact hw.dma
  have hdesc₁ := hat₁.desc
  -- The own bit is still the one that `tx_descs_init` has set.
  have hcan : CanComplete w₁ 0 := by
    refine ⟨by rw [hat₁.same], ?_, by decide⟩
    rw [hdma₁, hdesc₁]
    show (own (descAt (D.txChain 0) w.m.mem).status && firstLast oneByteWord) = true
    rw [hready.2.1]
    decide
  set w₂ := w₁.complete 0 with h₂
  have hun₂ : w₂.m.Uncached := hat₁.memory.setMem _
  have hdesc₂ : descAt (D.txChain 0) w₂.m.mem = { descAt (D.txChain 0) w₁.m.mem with status := 0 } := by
    show descAt (D.txChain 0) (w₁.m.mem.write32 w₁.txDma 0) = _
    rw [hdma₁, descAt_write_status]
  have hlinked₁ := hat₁.linked (by omega) hready.1.1 fun i hi => (hw.desc i hi).1.1
  have hlinked₂ : ∀ i < 32, (descAt (D.txChain i) w₂.m.mem).bufAddr = BitVec.ofNat 32 (D.txBuf i) := by
    intro i hi
    by_cases hi0 : i = 0
    · subst hi0
      rw [hdesc₂]
      exact hlinked₁ 0 hi
    · have hcell := congrArg Cell.mem (complete_txCell_of_ne hdma₁ hi0 : (w₁.complete 0).txCell D i = _)
      rw [← hlinked₁ i hi]
      exact congrArg DmaDesc.bufAddr hcell
  have hbyte₂ : w₂.m.mem (D.txBuf 0) = 0 := by
    have hcell := congrArg Cell.mem
      (complete_byteCell hdma₁ (by omega) le_rfl : (w₁.complete 0).byteCell (D.txBuf 0) = _)
    exact hcell.trans hbyte₁
  have hsent₂ : w₂.sent = [[0]] := by
    have hframe : txFrameAt w₁.m.mem w₁.txDma = [0] := by
      rw [hdma₁, txFrameAt, hdesc₁, txLength_oneByteWord]
      show w₁.m.mem.readBytes (descAt (D.txChain 0) w.m.mem).bufAddr.toNat 1 = [0]
      rw [hready.1.1, Indev.toNat_txBuf (by omega), Mem.readBytes_succ, hbyte₁]
      rfl
    show w₁.sent ++ [txFrameAt w₁.m.mem w₁.txDma] = [[0]]
    rw [hframe, hat₁.same]
    show w.sent ++ [[0]] = [[0]]
    rw [hw.sent]
    rfl
  have hcur₀ : w₀.txCur.toNat = 0 := hw.cur
  rcases exists_sendPublish (D := D) hun₂ (by omega) hcur₀ with ⟨t, hat, hbuf, hpublish⟩
  refine ⟨{ t with txCur := nextDescNum w₀.txCur, txRun := true }, ?_, ⟨hat.memory,
    nextDescNum_toNat (h := 0) hcur₀, ?_, ?_, ?_, ?_, ?_⟩⟩
  · have hother : NetStep D .other ⟨w, none, none, [], []⟩ ⟨w₀, none, none, [], []⟩ :=
      .other (.of_memory rfl rfl rfl rfl) (.of_memory rfl rfl rfl rfl)
    have hcall : NetStep D .txCall ⟨w₀, none, none, [], []⟩
        ⟨w₀, none, some ([0], sendArm D [0] >>= sendPublish D), [], []⟩ := by
      rw [← emacTx_split]
      exact .txCall [[0]] rfl (by simp) (by simp)
    have hroom : NetAssumed .txCall ⟨w₀, none, none, [], []⟩ :=
      show 0 < w₀.sent.length + 32 by omega
    refine .head (l := .other) trivial hother (.head hroom hcall ?_)
    refine (net_runs (fun _ => trivial) (fun _ => trivial) hreached.memory harm).trans ?_
    exact .head (l := .complete) trivial (.complete 0 hcan) (sendPublish_runs hun₂ hpublish)
  · exact hat.linked (by omega) (hlinked₂ 0 (by omega)) hlinked₂
  · show t.sent = _
    rw [hat.same]
    exact hsent₂
  · show armed (descAt (D.txChain 0) t.m.mem) = true
    rw [hat.desc, hdesc₂, hdesc₁, armed, firstLast_oneByteWord, own_bit31]
    rfl
  · show txLength (descAt (D.txChain 0) t.m.mem).st = 1
    rw [hat.desc, hdesc₂, hdesc₁, txLength_oneByteWord]
  · exact (hbuf _ le_rfl).trans hbyte₂

/-- A call for one more frame leaves the stale descriptor as it is. -/
theorem Stale.call {n : ℕ} (hw : Stale D n w) (hlo : 1 ≤ n) (hhi : n < 32) : ∃ w',
    RunUnder (NetStep D) NetAssumed ⟨w, none, none, [], List.replicate n [0]⟩
      ⟨w', none, none, [], List.replicate (n + 1) [0]⟩ ∧ Stale D (n + 1) w' := by
  have hmod : n % 32 = n := Nat.mod_eq_of_lt hhi
  have hcur : w.txCur.toNat = n := hw.cur.trans hmod
  have hreached : Reached D n w := ⟨hw.memory, hhi, hcur, hw.linked n hhi⟩
  rcases exists_sendArm hreached 0 with ⟨w₁, harm, hat₁, -⟩
  rcases exists_sendPublish (D := D) hat₁.memory hhi hcur with ⟨t, hat, -, hpublish⟩
  have hne : (0 : ℕ) ≠ n := by omega
  have hdesc : descAt (D.txChain 0) t.m.mem = descAt (D.txChain 0) w.m.mem :=
    (hat.desc_ne hhi (by omega) hne).trans (hat₁.desc_ne hhi (by omega) hne)
  have hlinked₁ := hat₁.linked hhi (hw.linked n hhi) hw.linked
  refine ⟨{ t with txCur := nextDescNum w.txCur, txRun := true }, ?_, ⟨hat.memory,
    nextDescNum_toNat hw.cur, hat.linked hhi (hlinked₁ n hhi) hlinked₁, ?_, ?_, ?_, ?_⟩⟩
  · have hcall : NetStep D .txCall ⟨w, none, none, [], List.replicate n [0]⟩
        ⟨w, none, some ([0], sendArm D [0] >>= sendPublish D), [], List.replicate n [0]⟩ := by
      rw [← emacTx_split]
      exact .txCall [[0]] rfl (by simp) (by simp)
    have hroom : NetAssumed .txCall ⟨w, none, none, [], List.replicate n [0]⟩ := by
      show (List.replicate n ([0] : TxFrame)).length < w.sent.length + 32
      rw [List.length_replicate]
      omega
    rw [List.replicate_succ']
    exact .head hroom hcall ((net_runs (fun _ => trivial) (fun _ => trivial) hw.memory harm).trans
      (sendPublish_runs hat₁.memory hpublish))
  · show t.sent = _
    rw [hat.same, hat₁.same]
    exact hw.sent
  · exact hdesc ▸ hw.armed
  · exact hdesc ▸ hw.length
  · exact ((hat.buf_ne hhi (by omega) hne).trans (hat₁.buf_ne hhi (by omega) hne)).trans hw.byte

/-- The first frame has been sent and 31 more are outstanding. -/
theorem exists_stale (D : Indev) {n : ℕ} (hlo : 1 ≤ n) (hhi : n ≤ 32) : ∃ s₀ w, NetStart D s₀ ∧
    RunUnder (NetStep D) NetAssumed s₀ ⟨w, none, none, [], List.replicate n [0]⟩ ∧ Stale D n w := by
  induction n with
  | zero => omega
  | succ n ih =>
      by_cases hn : n = 0
      · subst hn
        rcases exists_fresh D with ⟨w, hstart, hfresh⟩
        rcases hfresh.race with ⟨w', hrun, hstale⟩
        exact ⟨_, w', hstart, hrun, hstale⟩
      · rcases ih (by omega) (by omega) with ⟨s₀, w, hstart, hrun, hstale⟩
        rcases hstale.call (by omega) (by omega) with ⟨w', hcall, hstale'⟩
        exact ⟨s₀, w', hstart, hrun.trans hcall, hstale'⟩

/-- A frame in two segments is copied under the armed descriptor of the first frame: in memory that
descriptor now has neither the bytes of the frame that it was armed for nor of any other. -/
theorem emacTx_rearmed : ∃ s₀ s, NetStart Indev.sdram s₀ ∧
    RunUnder (NetStep Indev.sdram) NetAssumed s₀ s ∧
    armed (descAt (Indev.sdram.txChain 0) s.w.m.mem) = true ∧
    ∀ f ∈ s.given, txFrameAt s.w.m.mem (Indev.sdram.txChain 0) ≠ f := by
  rcases exists_stale Indev.sdram (n := 32) (by omega) le_rfl with ⟨s₀, w, hstart, hrun, hw⟩
  have hcur : w.txCur.toNat = 0 := hw.cur
  set buf := Indev.sdram.txBuf 0 with hbuf
  -- The call copies its first piece over the frame that is still armed.
  have hfragment : Prog.Runs (access direct True) (sendFragment Indev.sdram [1] 0x10000) w ()
      (w.poke8 (buf + 0) 1) := by
    refine Prog.Runs.bind (runs_still ⟨rfl, rfl⟩ : Prog.Runs _ txCurrdescnum w w.txCur w) ?_
    rw [hcur]
    refine Prog.Runs.bind (runs_load (hw.linked 0 (by omega)).symm) ?_
    rw [Indev.toNat_txBuf (by omega)]
    exact runs_copyIn_one _ _
  have hat := (At.refl (D := Indev.sdram) (c := 0) hw.memory).byte (j := 0) (b := 1) (by omega)
    (by omega)
  have hcall : NetStep Indev.sdram .txCall ⟨w, none, none, [], List.replicate 32 [0]⟩
      ⟨w, none, some ([1, 1], sendFragment Indev.sdram [1] 0x10000 >>=
        fun _ => emacTxFrom Indev.sdram 1 [[1]]), [], List.replicate 32 [0]⟩ :=
    .txCall [[1], [1]] rfl (by simp) (by simp)
  have hroom : NetAssumed .txCall ⟨w, none, none, [], List.replicate 32 [0]⟩ := by
    show (List.replicate 32 ([0] : TxFrame)).length < w.sent.length + 32
    rw [hw.sent]
    simp
  refine ⟨s₀, _, hstart, hrun.trans (.head hroom hcall
    (net_runs (fun _ => trivial) (fun _ => trivial) hw.memory hfragment)), ?_, ?_⟩
  · show armed (descAt _ (w.poke8 (buf + 0) 1).m.mem) = true
    rw [hat.1.desc]
    exact hw.armed
  -- What the DMA would send is that piece, with the length of the old frame.
  · intro f hf
    have hframe : txFrameAt (w.poke8 (buf + 0) 1).m.mem (Indev.sdram.txChain 0) = [1] := by
      rw [txFrameAt, hat.1.desc, hw.length, hw.linked 0 (by omega), Indev.toNat_txBuf (by omega),
        Mem.readBytes_succ]
      exact congrArg₂ List.cons hat.2 rfl
    show txFrameAt (w.poke8 (buf + 0) 1).m.mem (Indev.sdram.txChain 0) ≠ f
    rw [hframe]
    rcases List.mem_append.1 hf with hold | hnew
    · rw [List.eq_of_mem_replicate hold]
      decide
    · rw [List.mem_singleton.1 hnew]
      decide

end Emac

end BspV3s
