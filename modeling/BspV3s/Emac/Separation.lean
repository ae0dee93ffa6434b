import BspV3s.Emac.ReceiveRuns
import BspV3s.Emac.TransmitRuns

/-!
# Separation — the two rings do not meet

What one thread or one DMA channel does to its own ring is, seen from the other ring, nothing at all
or noise of the cache.
-/

namespace BspV3s

namespace Emac

variable {D : Indev} {canFail : Prop} {w w' t : World} {h c l : ℕ} {o : Op} {r : o.Ret}

theorem not_inTx_of_inRx {x : ℕ} (hx : D.InRx x) : ¬ D.InTx x := by
  simp only [Indev.InRx, Indev.InTx, Indev.rxChain, Indev.txChain, Indev.rxBuf, Indev.txBuf] at *
  omega

/-! ## Lines -/

theorem txSame_write {g : Mem → Mem} (hl : ∀ x, D.InTx x → x / 64 ≠ l) :
    TxSame D w (w.write l g) := by
  refine ⟨rfl, rfl, rfl, fun _ _ => rfl, ?_, ?_⟩
  · intro x hx
    exact (CMem.view_write _ _ _ _).trans (if_neg (hl x hx))
  · intro x hx
    exact (World.dirty_write _ _ _ _).trans (if_neg (hl x hx))

theorem rxSame_write {g : Mem → Mem} (hl : ∀ x, D.InRx x → x / 64 ≠ l) :
    RxSame D w (w.write l g) := by
  refine ⟨rfl, rfl, rfl, fun _ _ => rfl, ?_, ?_⟩
  · intro x hx
    exact (CMem.view_write _ _ _ _).trans (if_neg (hl x hx))
  · intro x hx
    exact (World.dirty_write _ _ _ _).trans (if_neg (hl x hx))

theorem TxSame.refl (w : World) : TxSame D w w :=
  .of_memory rfl rfl rfl rfl

theorem RxSame.refl (w : World) : RxSame D w w :=
  .of_memory rfl rfl rfl rfl

theorem rxLine_ne (hc : c < 32) : ∀ x, D.InTx x → x / 64 ≠ D.rxChain c / 64 :=
  fun _ hx hline => not_inTx_of_inRx (Indev.inRx_of_line hc hline) hx

theorem txLine_ne (hc : c < 32) : ∀ x, D.InRx x → x / 64 ≠ D.txChain c / 64 :=
  fun _ hx hline => not_inTx_of_inRx hx (Indev.inTx_of_line hc hline)

theorem txBufLine_ne (hc : c < 32) {a : ℕ} (hlo : D.txBuf c ≤ a) (hhi : a < D.txBuf c + 2048) :
    ∀ x, D.InRx x → x / 64 ≠ a / 64 := by
  intro x hx
  have := D.aligned
  simp only [Indev.InRx, Indev.rxChain, Indev.rxBuf, Indev.txBuf] at *
  omega

/-! ## Threads -/

/-- Seen from the receive ring: noise, or nothing at all. -/
def RxQuiet (D : Indev) (w w' : World) : Prop :=
  World.Noise w w' ∨ RxSame D w w'

/-- Seen from the transmit ring: noise, or nothing at all. -/
def TxQuiet (D : Indev) (w w' : World) : Prop :=
  World.Noise w w' ∨ TxSame D w w'

theorem RxQuiet.env (hq : RxQuiet D w w') : RxEnv D w w' := by
  rcases hq with hn | hs
  · exact .noise hn
  · exact .other hs

theorem TxQuiet.env {n : Option Op} (hq : TxQuiet D w w') : TxEnv D n w w' := by
  rcases hq with hn | hs
  · exact .noise hn
  · exact .other hs

theorem RxQuiet.delivered (hq : RxQuiet D w w') : w'.delivered = w.delivered := by
  rcases hq with hn | hs
  · exact hn.delivered
  · exact hs.delivered

theorem rxQuiet_passive (ho : o.acts = false) (hacc : access cached canFail o w r w') :
    RxQuiet D w w' := by
  rcases access_passive_cached ho hacc with hn | rfl
  · exact .inl hn
  · exact .inr (.refl _)

theorem txQuiet_passive (ho : o.acts = false) (hacc : access cached canFail o w r w') :
    TxQuiet D w w' := by
  rcases access_passive_cached ho hacc with hn | rfl
  · exact .inl hn
  · exact .inr (.refl _)

/-- What an access of `_emac_rx` is to the transmit ring. -/
theorem rxAccess.quiet (hg : rxAccess D h o w r t)
    (hclean : ∀ a, o = .dcimvac a → w.m.dirty (a / 64) = false)
    (hacc : access cached canFail o w r w') : TxQuiet D w w' := by
  cases hacts : o.acts with
  | false => exact txQuiet_passive hacts hacc
  | true =>
      cases o with
      | store a v =>
          cases hacc
          rcases hg with ⟨⟨i, hi, rfl⟩, -⟩
          have hsame : TxSame D w
              (w.write (D.rxChain i / 64) fun m => m.write32 (D.rxChain i) v) :=
            txSame_write (rxLine_ne hi)
          exact .inr hsame
      | dcimvac a =>
          cases hacc
          exact .inl (World.noise_drop (hclean a rfl))
      | setRxCurrdescnum v =>
          cases hacc
          exact .inr (.of_memory rfl rfl rfl rfl)
      | store8 a b => exact hg.elim
      | setTxCurrdescnum v => exact hg.elim
      | writel reg v => exact hg.elim
      | _ => exact absurd hacts (by simp [Op.acts])

/-- What an access of `_emac_tx` is to the receive ring. -/
theorem txAccess.quiet (hc : c < 32) (ho : txAccess D c o w)
    (hacc : access cached canFail o w r w') : RxQuiet D w w' := by
  cases hacts : o.acts with
  | false => exact rxQuiet_passive hacts hacc
  | true =>
      cases o with
      | store a v =>
          cases hacc
          have hline : a / 64 = D.txChain c / 64 := ho
          have hsame : RxSame D w (w.write (a / 64) fun m => m.write32 a v) :=
            rxSame_write (hline ▸ txLine_ne hc)
          exact .inr hsame
      | store8 a b =>
          cases hacc
          have hsame : RxSame D w (w.write (a / 64) fun m => m.writeBytes a [b]) :=
            rxSame_write (txBufLine_ne hc ho.1 ho.2)
          exact .inr hsame
      | dcimvac a =>
          cases hacc
          exact .inl (World.noise_drop ho.2)
      | setTxCurrdescnum v =>
          cases hacc
          exact .inr (.of_memory rfl rfl rfl rfl)
      | writel reg v =>
          rcases ho with ⟨rfl, -⟩
          cases hacc
          exact .inr (.of_memory rfl rfl rfl rfl)
      | setRxCurrdescnum v => exact ho.elim
      | _ => exact absurd hacts (by simp [Op.acts])

/-- What an access of `tx_descs_init` is to the receive ring. -/
theorem txInitGuarantee.quiet (hg : txInitGuarantee D o w r t)
    (hacc : access cached canFail o w r w') : RxQuiet D w w' := by
  cases hacts : o.acts with
  | false => exact rxQuiet_passive hacts hacc
  | true =>
      cases o with
      | store a v =>
          cases hacc
          rcases hg with ⟨i, hi, hline⟩
          have hsame : RxSame D w (w.write (a / 64) fun m => m.write32 a v) :=
            rxSame_write (hline ▸ txLine_ne hi)
          exact .inr hsame
      | writel reg v =>
          have hreg : reg = .txDmaDesc := hg
          subst hreg
          cases hacc
          exact .inr (.of_memory rfl rfl rfl rfl)
      | store8 a b => exact hg.elim
      | dcimvac a => exact hg.elim
      | setRxCurrdescnum v => exact hg.elim
      | setTxCurrdescnum v => exact hg.elim
      | _ => exact absurd hacts (by simp [Op.acts])

/-! ## Channels -/

/-- A bus master's write elsewhere, as the processor sees it. -/
theorem setMem_byte {m : Mem} {x : ℕ} (hx : ∀ y, y / 64 = x / 64 → m y = w.m.mem y) :
    (w.m.setMem m).mem x = w.m.mem x ∧ (w.m.setMem m).view x = w.m.view x := by
  have hcell := CMem.cell_setMem_other (c := w.m) (CMem.local_byte x) fun y hy => hx y hy
  exact ⟨congrArg Cell.mem hcell, congrArg Cell.view hcell⟩

/-- A delivery leaves the transmit ring alone. -/
theorem RxBusy.deliver_txSame {f : RxFrame} (hb : RxBusy D h w) (hd : CanDeliver w f) :
    TxSame D w (w.deliver f) := by
  have hfit : f.bytes.length ≤ 2048 := by
    have := hd.fits
    simp only [CONFIG_ETH_RXSIZE] at this
    omega
  have hmod : w.delivered.length % 32 < 32 := Nat.mod_lt _ (by omega)
  have hbyte : ∀ x, D.InTx x → (w.deliver f).m.mem x = w.m.mem x ∧
      (w.deliver f).m.view x = w.m.view x := by
    intro x hx
    refine setMem_byte (fun y hy => ?_)
    have := D.aligned
    apply rxWritten_outside hmod hb.dma (hb.target f hd) hfit <;>
      simp only [Indev.InTx, Indev.txChain, Indev.txBuf, Indev.rxChain, Indev.rxBuf] at * <;> omega
  exact ⟨rfl, rfl, rfl, fun x hx => (hbyte x hx).1, fun x hx => (hbyte x hx).2, fun _ _ => rfl⟩

/-- A completion leaves the receive ring alone. -/
theorem complete_rxSame {status : U32} (hc : c < 32) (hdma : w.txDma = D.txChain c) :
    RxSame D w (w.complete status) := by
  have hbyte : ∀ x, D.InRx x → (w.complete status).m.mem x = w.m.mem x ∧
      (w.complete status).m.view x = w.m.view x := by
    intro x hx
    refine setMem_byte (fun y hy => ?_)
    have := D.aligned
    rw [hdma]
    apply Mem.write32_outside
    simp only [Indev.InRx, Indev.rxChain, Indev.rxBuf, Indev.txChain] at *
    omega
  exact ⟨rfl, rfl, rfl, fun x hx => (hbyte x hx).1, fun x hx => (hbyte x hx).2, fun _ _ => rfl⟩

/-! ## The two threads together -/

variable {acc : List TxFrame} {thRx : Option (EmacM (Option Pbuf))}
  {thTx : Option (TxFrame × EmacM Unit)}

/-- Wherever the receive thread is, the DMA delivers into the receive ring. -/
theorem RxThread.deliver_txSame {f : RxFrame} (hth : RxThread D canFail h thRx w)
    (hd : CanDeliver w f) : TxSame D w (w.deliver f) := by
  rcases thRx with - | p
  · exact RxBusy.deliver_txSame (RxIdle.busy hth) hd
  · cases p with
    | call o k => exact (RxThread.busy hth).deliver_txSame hd
    | ret p => exact (RxThread.done hth).busy.deliver_txSame hd

/-- Wherever the transmit thread is, the DMA completes descriptors of the transmit ring. -/
theorem TxThread.complete_rxSame {status : U32} (hth : TxThread D canFail acc thTx w) :
    RxSame D w (w.complete status) := by
  have hmod : w.sent.length % 32 < 32 := Nat.mod_lt _ (by omega)
  rcases thTx with - | ⟨f, p⟩
  · have hidle : TxIdle D acc w := hth
    exact Emac.complete_rxSame hmod hidle.ring.dma
  · cases p with
    | call o k => exact Emac.complete_rxSame hmod hth.guarantee.1.dma
    | ret u =>
        have hidle : TxIdle D (acc ++ [f]) w := TxThread.done hth
        exact Emac.complete_rxSame hmod hidle.ring.dma

end Emac

end BspV3s
