import BspV3s.Emac.Receive

/-!
# ReceiveCall — one call of `_emac_rx`

`emacRx_spec` follows a call access by access through the phases of `Receive`.  The call hands up
the oldest frame, byte for byte when the length that the DMA reported is right, or leaves the ring
as it found it; which of the two happens is decided by the length and by `pbuf_alloc`.
-/

namespace BspV3s

namespace Emac

variable {D : Indev} {canFail : Prop} {w w' : World} {h : ℕ} {f : RxFrame} {dl : List RxFrame}

abbrev rxWp (D : Indev) (h : ℕ) (canFail : Prop) {α : Type} (p : EmacM α)
    (Q : α → World → Prop) (w : World) : Prop :=
  Prog.wp (access cached canFail) (rxRely D) (rxGuarantee D h) p Q w

/-! ## `_sun8i_eth_recv` -/

/-- The call has discarded its copy of the oldest descriptor; `dl` had been delivered before. -/
structure RxFresh (D : Indev) (h : ℕ) (dl : List RxFrame) (w : World) : Prop where
  idle : RxIdle D h w
  before : dl <+: w.delivered
  fresh : h < dl.length → (w.rxCell D (h % 32)).view.status = (w.rxCell D (h % 32)).mem.status

theorem RxFresh.env (hr : RxFresh D h dl w) (he : RxEnv D w w') : RxFresh D h dl w' := by
  refine ⟨hr.idle.env he, hr.before.trans he.delivered, ?_⟩
  intro hlt
  have hlt' : h < w.delivered.length := lt_of_lt_of_le hlt hr.before.length_le
  have hdrift := hr.idle.ring.env_cell he (List.getElem?_eq_getElem hlt')
  rcases hdrift.of_clean hr.idle.ring.slot.cell.clean with ⟨-, hmem, hv | hv⟩
  · rw [hv, hmem]
    exact hr.fresh hlt
  · rw [hv, hmem]

theorem steady_rxFresh : Steady (rxRely D) (RxFresh D h dl) :=
  fun _ _ _ hr he => hr.env he

theorem RxIdle.drop_desc (hr : RxIdle D h w) (hdl : dl <+: w.delivered) :
    RxFresh D h dl (w.drop (D.rxChain (h % 32) / 64)) := by
  have hclean : w.m.dirty (D.rxChain (h % 32) / 64) = false := hr.ring.slot.cell.clean
  refine ⟨hr.env (.noise (World.noise_drop hclean)), hdl, ?_⟩
  intro _
  have hcell := CMem.cell_drop_same (c := w.m)
    (local_descAt (Indev.rxChain_aligned (D := D) (i := h % 32)))
  exact congrArg DmaDesc.status
    ((congrArg Cell.view hcell).trans (congrArg Cell.mem hcell).symm)

/-- What `_sun8i_eth_recv` has found when it returns. -/
inductive Received (D : Indev) (h : ℕ) (dl : List RxFrame) : ℤ × ℕ → World → Prop
  | empty {t : World} : RxIdle D h t → dl.length ≤ h → Received D h dl (-EAGAIN, 0) t
  | runt {t : World} {f : RxFrame} : RxFound D h f t → rxLength f.status < 0x40 →
      Received D h dl (rxLength f.status, 0) t
  | tooBig {t : World} {f : RxFrame} : RxFound D h f t → CONFIG_ETH_RXSIZE < rxLength f.status →
      Received D h dl (-EMSGSIZE, 0) t
  | frame {t : World} {f : RxFrame} : RxRead D h f (rxLength f.status) t →
      0x40 ≤ rxLength f.status → rxLength f.status ≤ CONFIG_ETH_RXSIZE →
      Received D h dl (rxLength f.status, D.rxBuf (h % 32)) t

/-- A word of a descriptor other than its status is read without any promise. -/
theorem rxGuarantee_field {i k : ℕ} {t t' : World} {r : U32} (ht : RxBusy D h t) (hk : 0 < k)
    (hk' : k < 64) : rxGuarantee D h (.load (D.rxChain i + k)) t r t' := by
  refine ⟨ht, ?_⟩
  intro i' _ heq
  simp only [Indev.rxChain] at heq
  omega

/-- The status word seen with the own bit clear is that of a delivered frame. -/
theorem RxIdle.found (hr : RxIdle D h w)
    (hown : own (w.m.view.read32 (D.rxChain (h % 32))) = false) : ∃ f, RxFound D h f w := by
  have hseen := hr.ring.slot.cell.coherent hown
  have hmem : own (w.rxCell D (h % 32)).mem.status = false := by
    rw [← hseen]
    exact hown
  cases hget : w.delivered[h]? with
  | none =>
      rw [hr.ring.slot.empty hget] at hmem
      exact absurd hmem (by decide)
  | some f => exact ⟨f, hr, hget, by rw [hseen]; exact hr.ring.slot.full f hget⟩

theorem rxGuarantee_status {t t' : World} (ht : RxIdle D h t) :
    rxGuarantee D h (.load (D.rxChain (h % 32))) t (t.m.view.read32 (D.rxChain (h % 32))) t' := by
  refine ⟨ht.busy, fun _ _ _ hown => ⟨ht.ring.slot.cell.coherent hown, ?_⟩⟩
  rcases ht.found hown with ⟨f, hf⟩
  exact ⟨f, hf.frame, hf.seen⟩

/-- Discarding line `j` of the frame's buffer: a line of the ring is clean, and a line beyond the
buffer does not matter. -/
theorem RxRead.drop_line {j : ℕ} (hr : RxRead D h f (64 * j) w) :
    RxRead D h f (64 * (j + 1)) (w.drop ((D.rxBuf (h % 32) + 64 * j) / 64)) := by
  have hmod : h % 32 < 32 := Nat.mod_lt _ (by omega)
  have halign := Indev.rxBuf_aligned (D := D) (i := h % 32)
  set l := (D.rxBuf (h % 32) + 64 * j) / 64 with hl
  have henv : RxEnv D w (w.drop l) := by
    cases hd : w.m.dirty l with
    | false => exact .noise (World.noise_drop hd)
    | true =>
        -- A dirty line is none of the ring's.
        have hne : ∀ x, D.InRx x → x / 64 ≠ l := by
          intro x hx heq
          rcases hx with ⟨-, hhi⟩ | ⟨hlo, hhi⟩
          · simp only [Indev.rxChain, Indev.rxBuf] at *
            omega
          · have hclean := hr.found.idle.ring.ring.clean ((x - D.rxBuf 0) / 2048) x
              (by simp only [Indev.rxBuf] at *; omega) (by simp only [Indev.rxBuf] at *; omega)
              (by simp only [Indev.rxBuf] at *; omega)
            rw [heq, hd] at hclean
            exact absurd hclean (by decide)
        refine .other ⟨rfl, rfl, rfl, fun _ _ => rfl, ?_, ?_⟩
        · intro x hx
          exact (CMem.view_drop _ _ _).trans (if_neg (hne x hx))
        · intro x hx
          exact (CMem.dirty_drop _ _ _).trans (if_neg (hne x hx))
  have hold := hr.env henv
  refine ⟨hold.found, ?_⟩
  intro x hlo hhi
  by_cases hx : x < D.rxBuf (h % 32) + min (64 * j) 2048
  · exact hold.bytes x hlo hx
  · exact (CMem.view_drop _ _ _).trans (if_pos (by omega))

/-- Discarding the lines of the frame's buffer one by one. -/
theorem wp_dropBuffer (n j : ℕ) (hlen : j + n ≤ (rxLength f.status + 63) / 64)
    (hw : RxRead D h f (64 * j) w) :
    rxWp D h canFail (eachLine dcimvac (D.rxBuf (h % 32) + 64 * j) n)
      (fun _ t => RxRead D h f (64 * (j + n)) t) w := by
  induction n generalizing j w with
  | zero => exact wp_pure steady_rxRead hw fun t ht => ht
  | succ n ih =>
      have hmod : h % 32 < 32 := Nat.mod_lt _ (by omega)
      refine wp_act (fun t => t.drop ((D.rxBuf (h % 32) + 64 * j) / 64))
        (fun t r t' hacc => hacc) (steady_rxRead _) hw ?_ ?_
      · intro t r ht
        by_cases hj : 64 * j < 2048
        · refine ⟨ht.found.idle.busy, .inl ?_⟩
          exact ⟨⟨_, Indev.inRx_of_buf hmod (Nat.le_add_right _ _) (by omega), rfl⟩,
            ht.found.idle.ring.ring.clean _ _ hmod (Nat.le_add_right _ _) (by omega)⟩
        · exact ⟨ht.found.idle.busy, .inr ⟨f, List.mem_of_getElem? ht.found.frame, by omega⟩⟩
      · intro t r ht
        have hrest := ih (j + 1) (by omega) ht.drop_line
        rw [show j + 1 + n = j + (n + 1) by omega] at hrest
        exact hrest

theorem recvReleased_spec (hw : RxFound D h f w) :
    rxWp D h canFail (recvReleased (D.rxChain (h % 32)) (D.rxBuf (h % 32))) (Received D h dl) w := by
  have hmod : h % 32 < 32 := Nat.mod_lt _ (by omega)
  refine wp_load steady_rxFound noisy_rxRely hw (fun t t' ht => rxGuarantee_status ht.idle) ?_
  intro t ht
  have hlen : t.m.view.read32 (D.rxChain (h % 32)) = f.status := ht.seen
  rw [hlen]
  dsimp only
  rw [invalidateDcacheRange_buffer Indev.rxBuf_aligned]
  -- Dropping the lines of the buffer makes the frame visible, line by line.
  have hread : RxRead D h f (64 * 0) t := by
    refine ⟨ht, ?_⟩
    intro x hlo hhi
    omega
  refine Prog.wp_seq (wp_dropBuffer _ 0 (by omega) hread) ?_
  intro _ t ht
  have hcover : RxRead D h f (rxLength f.status) t := by
    refine ⟨ht.found, ?_⟩
    intro x hlo hhi
    exact ht.bytes x hlo (by omega)
  -- A frame that is refused is not copied; what is copied has a length within the buffer.
  by_cases hrunt : rxLength f.status < 0x40
  · simp only [hrunt, if_true]
    exact wp_pure steady_rxFound hcover.found fun t ht => .runt ht hrunt
  · by_cases hbig : CONFIG_ETH_RXSIZE < rxLength f.status
    · simp only [hrunt, hbig, if_true, if_false]
      exact wp_pure steady_rxFound hcover.found fun t ht => .tooBig ht hbig
    · simp only [hrunt, hbig, if_false]
      refine wp_load steady_rxRead noisy_rxRely hcover
        (fun _ _ ht => rxGuarantee_field ht.found.idle.busy (by omega) (by omega)) ?_
      intro t ht
      have hbuf : t.m.view.read32 (D.rxChain (h % 32) + 8) = BitVec.ofNat 32 (D.rxBuf (h % 32)) :=
        ht.found.idle.ring.slot.cell.view.1
      rw [hbuf, Indev.toNat_rxBuf hmod]
      exact wp_pure steady_rxRead ht fun t ht => .frame ht (by omega) (by omega)

/-- `_sun8i_eth_recv` finds nothing only if no frame was waiting when it was called. -/
theorem sun8iEthRecv_spec (hw : RxIdle D h w) :
    rxWp D h canFail (sun8iEthRecv D) (Received D h w.delivered) w := by
  have hmod : h % 32 < 32 := Nat.mod_lt _ (by omega)
  set dl := w.delivered with hdl
  have hstart : RxIdle D h w ∧ dl <+: w.delivered := ⟨hw, hdl ▸ List.prefix_rfl⟩
  have hsteady : Steady (rxRely D) fun t => RxIdle D h t ∧ dl <+: t.delivered :=
    steady_rxIdle.and steady_delivered
  refine wp_ask (A := fun t r => r = t.rxCur) (fun t r t' hacc => hacc) hsteady hstart
    (fun _ _ ht _ => ⟨ht.1.busy, trivial⟩) ?_
  rintro t r ht rfl
  rw [ht.1.cur]
  refine wp_load hsteady noisy_rxRely ht
    (fun _ _ ht => rxGuarantee_field ht.1.busy (by omega) (by omega)) ?_
  intro t ht
  have hbuf : t.m.view.read32 (D.rxChain (h % 32) + 8) = BitVec.ofNat 32 (D.rxBuf (h % 32)) :=
    ht.1.ring.slot.cell.view.1
  rw [hbuf, Indev.toNat_rxBuf hmod, show roundup 16 ARCH_DMA_MINALIGN = 64 from rfl,
    invalidateDcacheRange_line Indev.rxChain_aligned, bind_assoc]
  -- The descriptor is read afresh from here on.
  refine wp_act (fun t => t.drop (D.rxChain (h % 32) / 64))
    (fun t r t' hacc => hacc) (hsteady _) ht ?_ ?_
  · intro t r ht
    exact ⟨ht.1.busy, .inl ⟨⟨_, Indev.inRx_of_line hmod rfl, rfl⟩, ht.1.ring.slot.cell.clean⟩⟩
  · intro t _ ht
    rw [pure_bind]
    refine wp_load steady_rxFresh noisy_rxRely (ht.1.drop_desc ht.2)
      (fun t t' ht => rxGuarantee_status ht.idle) ?_
    intro t ht
    cases hown : own (t.m.view.read32 (D.rxChain (h % 32))) with
    | true =>
        simp only [if_true]
        refine wp_pure (steady_rxIdle (h := h)) ht.idle fun t' ht' => .empty ht' ?_
        by_contra hlt
        have hlt' : h < dl.length := by omega
        have hget := List.getElem?_eq_getElem (lt_of_lt_of_le hlt' ht.before.length_le)
        have hmem : own (t.rxCell D (h % 32)).mem.status = true := by
          rw [← ht.fresh hlt']
          exact hown
        rw [ht.idle.ring.slot.full _ hget] at hmem
        have hclear := (ht.idle.ring.ring.frames _ (List.mem_of_getElem? hget)).1
        rw [hclear] at hmem
        exact absurd hmem (by decide)
    | false =>
        rcases ht.idle.found hown with ⟨f, hf⟩
        exact recvReleased_spec hf

/-! ## `_sun8i_free_pkt` -/

/-- Setting the own bit of the oldest descriptor through the cache. -/
theorem RxFound.store (hr : RxFound D h f w) {v : U32} (hv : own v = true) :
    RxFreed D h f
      (w.write (D.rxChain (h % 32) / 64) fun m => m.write32 (D.rxChain (h % 32)) v) := by
  have hmod : h % 32 < 32 := Nat.mod_lt _ (by omega)
  have hlt : h < w.delivered.length := (List.getElem?_eq_some_iff.1 hr.frame).1
  set l := D.rxChain (h % 32) / 64 with hl
  set t : World := w.write l fun m => m.write32 (D.rxChain (h % 32)) v with ht
  -- The descriptor lies in a line of its own, so that no other cell changes.
  have hself : t.rxCell D (h % 32) = (w.rxCell D (h % 32)).stored
      { (w.rxCell D (h % 32)).view with status := v } := by
    refine (CMem.cell_write_same (local_descAt Indev.rxChain_aligned)).trans ?_
    rw [descAt_write_status]
    rfl
  have hline : ∀ i, i < 32 → i ≠ h % 32 → l ≠ D.rxChain i / 64 := by
    intro i _ hne
    have := D.aligned
    simp only [hl, Indev.rxChain]
    omega
  have hother : ∀ k, h < k → k < h + 32 → t.rxCell D (k % 32) = w.rxCell D (k % 32) := by
    intro k hlo hhi
    exact CMem.cell_write_other (local_descAt Indev.rxChain_aligned)
      (hline _ (Nat.mod_lt _ (by omega)) (by omega))
  have hring := hr.idle.ring.ring
  refine ⟨.inl ⟨⟨⟨hring.low, hring.high, hring.dma, ?_, hring.data, ?_, hring.frames⟩, ?_, ?_⟩, hlt,
    ?_, ?_, ?_⟩, hr.idle.cur, hr.frame⟩
  · intro k hlo hhi
    rw [hother k hlo hhi]
    exact hring.rest k hlo hhi
  · intro i x hi hlo hhi
    have hne : x / 64 ≠ l := by
      simp only [hl, Indev.rxChain, Indev.rxBuf] at *
      omega
    exact (CMem.dirty_write w.m l (x / 64) fun m => m.write32 (D.rxChain (h % 32)) v).trans
      ((if_neg hne).trans (hring.clean i x hi hlo hhi))
  · rw [hself]
    exact hring.held
  · rw [hself]
    exact hring.linked
  · rw [hself]
    rfl
  · rw [hself]
    exact hr.idle.ring.slot.cell.view
  · rw [hself]
    exact hv

/-- Writing back the line of the descriptor. -/
theorem RxFreed.evict (hr : RxFreed D h f w) :
    RxRing D (h + 1) (w.evict (D.rxChain (h % 32) / 64)) := by
  have hnoise := w.noise_evict (D.rxChain (h % 32) / 64)
  rcases hr.state with hs | hs
  · rcases hs.noise hnoise with hs' | hs'
    · -- The line is no longer dirty.
      have hclean := CMem.dirty_evict w.m (D.rxChain (h % 32) / 64) (D.rxChain (h % 32) / 64)
      rw [if_pos rfl] at hclean
      exact absurd (hs'.dirty.symm.trans hclean) (by decide)
    · exact hs'
  · exact hs.env (.noise hnoise)

theorem sun8iFreePkt_spec (hw : RxFound D h f w) :
    rxWp D h canFail (sun8iFreePkt D)
      (fun _ t => RxIdle D (h + 1) t ∧ t.delivered[h]? = some f) w := by
  have hmod : h % 32 < 32 := Nat.mod_lt _ (by omega)
  refine wp_ask (A := fun t r => r = t.rxCur) (fun t r t' hacc => hacc) steady_rxFound hw
    (fun _ _ ht _ => ⟨ht.idle.busy, trivial⟩) ?_
  rintro t r ht rfl
  have hcur := ht.idle.cur
  rw [hcur]
  generalize t.rxCur = cur at hcur
  refine wp_load steady_rxFound noisy_rxRely ht (fun t t' ht => rxGuarantee_status ht.idle) ?_
  intro t ht
  -- The status word is written back with the owner bit, whatever it was.
  have hown := own_or_bit31 (t.m.view.read32 (D.rxChain (h % 32)))
  generalize t.m.view.read32 (D.rxChain (h % 32)) ||| bit 31 = v at hown
  refine wp_act
    (fun t => t.write (D.rxChain (h % 32) / 64) fun m => m.write32 (D.rxChain (h % 32)) v)
    (fun t r t' hacc => hacc) (steady_rxFound _) ht
    (fun _ _ ht => ⟨ht.idle.busy, ⟨_, hmod, rfl⟩, hown⟩) ?_
  intro t _ ht
  rw [show roundup 4 ARCH_DMA_MINALIGN = 64 from rfl,
    flushDcacheRange_line Indev.rxChain_aligned, bind_assoc]
  refine wp_act (fun t => t.evict (D.rxChain (h % 32) / 64))
    (fun t r t' hacc => hacc) (steady_rxFreed _) (ht.store hown)
    (fun _ _ ht => ⟨ht.busy, trivial⟩) ?_
  intro t _ ht
  rw [pure_bind]
  -- The descriptor belongs to the DMA again; the index follows.
  have hfreed : RxRing D (h + 1) (t.evict (D.rxChain (h % 32) / 64)) ∧
      t.delivered[h]? = some f ∧ t.rxCur.toNat = h % 32 :=
    ⟨ht.evict, ht.frame, ht.cur⟩
  have hsteady : Steady (rxRely D)
      fun t => RxRing D (h + 1) t ∧ t.delivered[h]? = some f ∧ t.rxCur.toNat = h % 32 :=
    fun _ _ _ hr he => ⟨hr.1.env he, he.getElem? hr.2.1, he.rxCur ▸ hr.2.2⟩
  have hbound := nextDescNum_toNat hcur
  rw [← bind_pure (setRxCurrdescnum _)]
  refine wp_act (fun t => { t with rxCur := nextDescNum cur }) (fun t r t' hacc => hacc)
    (hsteady _) hfreed ?_ ?_
  · intro t _ ht
    have hbusy : RxBusy D h t := RxFreed.busy ⟨.inr ht.1, ht.2.2, ht.2.1⟩
    refine ⟨hbusy, ?_⟩
    show (nextDescNum cur).toNat < 32
    omega
  · intro t _ ht
    refine wp_pure (P := fun t => RxIdle D (h + 1) t ∧ t.delivered[h]? = some f)
      (fun _ _ _ hr he => ⟨hr.1.env he, he.getElem? hr.2⟩) ?_ fun t ht => ht
    exact ⟨⟨ht.1.of_eq rfl rfl rfl, hbound⟩, ht.2.1⟩

/-! ## The copy and the whole call -/

section Copy

variable {P : World → Prop} {B : ℕ → Byte → Prop}

/-- A copy of `n` bytes whose values satisfy `B` as long as `P` holds. -/
theorem copyOut_spec (hP : Steady (rxRely D) P) (n a : ℕ)
    (hG : ∀ t t' x, P t → a ≤ x → x < a + n → rxGuarantee D h (.load8 x) t (t.m.view x) t')
    (hB : ∀ t x, P t → a ≤ x → x < a + n → B x (t.m.view x)) (hw : P w) :
    rxWp D h canFail (copyOut a n)
      (fun bs t => P t ∧ bs.length = n ∧ ∀ i b, bs[i]? = some b → B (a + i) b) w := by
  induction n generalizing a w with
  | zero => exact wp_pure hP hw fun t ht => ⟨ht, rfl, by simp⟩
  | succ n ih =>
      refine wp_load8 hP noisy_rxRely hw (fun t t' ht => hG t t' a ht le_rfl (by omega)) ?_
      intro t ht
      have hb : B a (t.m.view a) := hB t a ht le_rfl (by omega)
      generalize t.m.view a = b at hb
      refine Prog.wp_seq (ih (a + 1)
        (fun t t' x ht hlo hhi => hG t t' x ht (by omega) (by omega))
        (fun t x ht hlo hhi => hB t x ht (by omega) (by omega)) ht) ?_
      rintro bs t ⟨ht, hlen, hall⟩
      refine wp_pure hP ht fun t ht => ⟨ht, by simp [hlen], ?_⟩
      intro i b' hi
      cases i with
      | zero =>
          simp only [List.getElem?_cons_zero, Option.some.injEq] at hi
          exact hi ▸ hb
      | succ i =>
          rw [List.getElem?_cons_succ] at hi
          have := hall i b' hi
          rwa [Nat.add_assoc, Nat.add_comm 1 i] at this

theorem copyPbuf_spec (hP : Steady (rxRely D) P) (lens : List ℕ) (a : ℕ)
    (hG : ∀ t t' x, P t → a ≤ x → x < a + lens.sum → rxGuarantee D h (.load8 x) t (t.m.view x) t')
    (hB : ∀ t x, P t → a ≤ x → x < a + lens.sum → B x (t.m.view x)) (hw : P w) :
    rxWp D h canFail (copyPbuf a lens)
      (fun p t => P t ∧ p.flatten.length = lens.sum ∧
        ∀ i b, p.flatten[i]? = some b → B (a + i) b) w := by
  induction lens generalizing a w with
  | nil => exact wp_pure hP hw fun t ht => ⟨ht, rfl, by simp⟩
  | cons len lens ih =>
      have hsum : (len :: lens).sum = len + lens.sum := List.sum_cons
      refine Prog.wp_seq (copyOut_spec hP len a
        (fun t t' x ht hlo hhi => hG t t' x ht hlo (by omega))
        (fun t x ht hlo hhi => hB t x ht hlo (by omega)) hw) ?_
      rintro bs t ⟨ht, hlen, hall⟩
      refine Prog.wp_seq (ih (a + len)
        (fun t t' x ht hlo hhi => hG t t' x ht (by omega) (by omega))
        (fun t x ht hlo hhi => hB t x ht (by omega) (by omega)) ht) ?_
      rintro p t ⟨ht, hlen', hall'⟩
      refine wp_pure hP ht fun t ht => ⟨ht, by simp [hlen, hlen'], ?_⟩
      intro i b hi
      rw [List.flatten_cons] at hi
      by_cases hlt : i < bs.length
      · rw [List.getElem?_append_left hlt] at hi
        exact hall i b hi
      · rw [List.getElem?_append_right (by omega)] at hi
        have := hall' _ b hi
        rwa [show a + len + (i - bs.length) = a + i by omega] at this

end Copy

/-- What a call of `_emac_rx` has done when it returns, `dl` having been delivered before it. -/
inductive RxDone (D : Indev) (canFail : Prop) (h : ℕ) (dl : List RxFrame) :
    Option Pbuf → World → Prop
  | none {t : World} : RxIdle D h t →
      (dl.length ≤ h ∨ canFail ∨ ∃ f, t.delivered[h]? = some f ∧
        ¬ (0 < rxLength f.status ∧ rxLength f.status ≤ CONFIG_ETH_RXSIZE)) →
      RxDone D canFail h dl none t
  | some {t : World} {f : RxFrame} {p : Pbuf} : RxIdle D (h + 1) t → t.delivered[h]? = some f →
      0 < rxLength f.status → rxLength f.status ≤ CONFIG_ETH_RXSIZE →
      (0x40 ≤ rxLength f.status → f.bytes.length = rxLength f.status → p.flatten = f.bytes) →
      RxDone D canFail h dl (some p) t

/-- From `pbuf_alloc` on: `a` is where the frame is copied from. -/
theorem wp_allocCopy {P : World → Prop} (hP : Steady (rxRely D) P) {a : ℕ}
    (hfound : ∀ t, P t → RxFound D h f t)
    (hpos : 0 < rxLength f.status) (hle : rxLength f.status ≤ CONFIG_ETH_RXSIZE)
    (hG : ∀ t t' x, P t → a ≤ x → x < a + rxLength f.status →
      rxGuarantee D h (.load8 x) t (t.m.view x) t')
    (hB : ∀ t x, P t → a ≤ x → x < a + rxLength f.status → 0x40 ≤ rxLength f.status →
      f.bytes.length = rxLength f.status → f.bytes[x - a]? = some (t.m.view x)) (hw : P w) :
    rxWp D h canFail
      (do
        let p ← pbufAlloc (rxLength f.status)
        match p with
        -- Without a buffer the frame stays where it is, and the call ends.
        | none => pure none
        | some lens => do
            let p ← copyPbuf a lens
            sun8iFreePkt D
            pure (some p))
      (RxDone D canFail h dl) w := by
  refine wp_ask (A := fun _ r => (r = none → canFail) ∧ ∀ lens ∈ r, lens.sum = rxLength f.status)
    (fun t r t' hacc => ⟨⟨hacc.1, hacc.2.1⟩, hacc.2.2⟩) hP hw
    (fun t _ ht _ => ⟨(hfound t ht).idle.busy, trivial⟩) ?_
  rintro t r ht ⟨hfail, hsum⟩
  cases r with
  | none =>
      exact wp_pure hP ht fun t ht => .none (hfound t ht).idle (.inr (.inl (hfail rfl)))
  | some lens =>
      have hlens : lens.sum = rxLength f.status := hsum lens rfl
      refine Prog.wp_seq (copyPbuf_spec (B := fun x b => 0x40 ≤ rxLength f.status →
        f.bytes.length = rxLength f.status → f.bytes[x - a]? = some b) hP lens a
        (fun t t' x ht hlo hhi => hG t t' x ht hlo (by omega))
        (fun t x ht hlo hhi => hB t x ht hlo (by omega)) ht) ?_
      rintro p t ⟨ht, hlen, hall⟩
      refine Prog.wp_seq (sun8iFreePkt_spec (hfound t ht)) ?_
      rintro _ t ⟨ht, hf⟩
      refine wp_pure (P := fun t => RxIdle D (h + 1) t ∧ t.delivered[h]? = some f)
        (fun _ _ _ hr he => ⟨hr.1.env he, he.getElem? hr.2⟩) ⟨ht, hf⟩
        fun t ht => .some ht.1 ht.2 hpos hle ?_
      -- The copy is compared with the frame byte by byte.
      intro hlong hgood
      apply List.ext_getElem?
      intro i
      by_cases hi : i < p.flatten.length
      · have hget := List.getElem?_eq_getElem hi
        have := hall i _ hget hlong hgood
        rw [Nat.add_sub_cancel_left] at this
        rw [hget, this]
      · rw [List.getElem?_eq_none (by omega), List.getElem?_eq_none (by omega)]

/-- The bytes of a well-delivered frame, as the processor reads them. -/
theorem RxRead.view_byte (hr : RxRead D h f (rxLength f.status) w)
    (hle : rxLength f.status ≤ CONFIG_ETH_RXSIZE) (hgood : f.bytes.length = rxLength f.status)
    {x : ℕ} (hlo : D.rxBuf (h % 32) ≤ x) (hhi : x < D.rxBuf (h % 32) + rxLength f.status) :
    f.bytes[x - D.rxBuf (h % 32)]? = some (w.m.view x) := by
  simp only [CONFIG_ETH_RXSIZE] at hle
  have hdata := hr.found.idle.ring.ring.data h f le_rfl hr.found.frame
  have hlt : x - D.rxBuf (h % 32) < f.bytes.length := by omega
  have hbyte := Mem.readBytes_eq_iff.1 hdata _ hlt
  rw [Nat.add_sub_cancel' hlo] at hbyte
  rw [List.getElem?_eq_getElem hlt, ← hbyte, hr.bytes x hlo (by omega)]

theorem emacRx_spec (hw : RxIdle D h w) :
    rxWp D h canFail (emacRx D) (RxDone D canFail h w.delivered) w := by
  refine Prog.wp_seq (sun8iEthRecv_spec hw) ?_
  intro r t hr
  cases hr with
  | empty ht hle =>
      exact wp_pure steady_rxIdle ht fun t ht => .none ht (.inl hle)
  | @tooBig t f ht hbig =>
      refine wp_pure steady_rxFound ht fun t ht => .none ht.idle (.inr (.inr ⟨f, ht.frame, ?_⟩))
      omega
  | @runt t f ht hrunt =>
      by_cases hzero : rxLength f.status = 0
      · rw [if_pos (by simp [hzero])]
        refine wp_pure steady_rxFound ht fun t ht => .none ht.idle (.inr (.inr ⟨f, ht.frame, ?_⟩))
        omega
      · rw [if_neg (by simp; omega)]
        -- The bytes are read from address 0 on.
        refine wp_allocCopy steady_rxFound (fun _ ht => ht) (by omega)
          (by simp only [CONFIG_ETH_RXSIZE]; omega) ?_ ?_ ht
        · intro t t' x ht _ hhi
          refine ⟨ht.idle.busy, fun hin => ?_⟩
          simp only [Indev.rxBuf] at hin
          omega
        · intro t x _ _ _ hlong
          omega
  | @frame t f ht hlo hhi =>
      rw [if_neg (by simp; omega)]
      refine wp_allocCopy steady_rxRead (fun _ ht => ht.found) (by omega) hhi ?_ ?_ ht
      · intro t t' x ht hlo' hhi'
        simp only [CONFIG_ETH_RXSIZE] at hhi
        exact ⟨ht.found.idle.busy, fun _ => ht.bytes x hlo' (by omega)⟩
      · intro t x ht hlo' hhi' _ hgood
        exact ht.view_byte hhi hgood hlo' hhi'

end Emac

end BspV3s
