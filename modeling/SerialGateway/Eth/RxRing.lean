import SerialGateway.Eth.Rx

/-!
This module contains what an undisturbed run of `ETH_IRQHandler` does to a ring whose descriptors hold
arbitrary status words.
-/

open Ring Transition

namespace SerialGateway

def Serviceable (status : BitVec 32) : Prop := WholeFrame status ∧ frameLength status ≠ 0

namespace EthRx

theorem ethGetRxPktSize_ne_zero_iff (e : EthRx)
    : e.ethGetRxPktSize ≠ 0 ↔ e.HandedOver e.dmaRxDescToGet ∧ Serviceable e.head.status := by
  unfold ethGetRxPktSize Serviceable
  split
  . next h => simp [h]
  . next h =>
    simp only [ne_eq, not_true_eq_false, false_iff]
    rintro ⟨hover, hwhole, -⟩
    apply h
    exact ⟨hover, hwhole⟩

@[simp]
theorem resumeReception_dmaRxDscrTab (e : EthRx)
    : e.resumeReception.dmaRxDscrTab = e.dmaRxDscrTab := by
  unfold resumeReception
  split <;> rfl

@[simp]
theorem resumeReception_dmaRxDescToGet (e : EthRx)
    : e.resumeReception.dmaRxDescToGet = e.dmaRxDescToGet := by
  unfold resumeReception
  split <;> rfl

@[simp]
theorem resumeReception_rxBuff (e : EthRx) : e.resumeReception.rxBuff = e.rxBuff := by
  unfold resumeReception
  split <;> rfl

theorem giveBack_of_ne (e : EthRx) {i j : Fin ethRxBufNb} (h : j ≠ i)
    : (e.giveBack i).dmaRxDscrTab j = e.dmaRxDscrTab j :=
  Function.update_of_ne h _ _

theorem not_handedOver_giveBack (e : EthRx) (i : Fin ethRxBufNb)
    : ¬ (e.giveBack i).HandedOver i := by
  change (Function.update e.dmaRxDscrTab i _ i).status &&& dmaRxDescOwn ≠ 0
  rw [Function.update_self]
  exact (by decide : dmaRxDescOwn &&& dmaRxDescOwn ≠ 0)

theorem chained_giveBack {e : EthRx} (h : Chained e.dmaRxDscrTab) (i : Fin ethRxBufNb)
    : Chained (e.giveBack i).dmaRxDscrTab := by
  intro j
  by_cases hj : j = i
  . subst hj
    change (Function.update e.dmaRxDscrTab j _ j).buffer1Addr = _
      ∧ (Function.update e.dmaRxDscrTab j _ j).buffer2NextDescAddr = _
    rw [Function.update_self]
    exact h j
  . rw [giveBack_of_ne e hj]
    exact h j

theorem ethRxPktChainMode_eq {e : EthRx} (hchained : Chained e.dmaRxDscrTab)
    (hover : e.HandedOver e.dmaRxDescToGet) (hwhole : WholeFrame e.head.status)
    : e.ethRxPktChainMode =
        ({ e with dmaRxDescToGet := nextDesc e.dmaRxDescToGet },
          { length := frameLength e.head.status - 4
            buffer := some (e.dmaRxDescToGet.val * ethMaxPacketSize)
            descriptor := some e.dmaRxDescToGet }) := by
  have hstatic := hchained e.dmaRxDescToGet
  rw [head] at hwhole
  simp only [ethRxPktChainMode, hover, not_true_eq_false, ↓reduceIte, head, hwhole, hstatic]

end EthRx

structure Drained (e₀ : EthRx) (lo₀ lo hi : Nat) (e : EthRx) : Prop where
  chained : Chained e.dmaRxDscrTab
  window : Window e₀.HandedOver lo₀ hi
  le : lo₀ ≤ lo
  le_hi : lo ≤ hi
  todo : ∀ j, lo ≤ j → j < lo₀ + ethRxBufNb →
    e.dmaRxDscrTab (slot _ j) = e₀.dmaRxDscrTab (slot _ j)
  done : ∀ j, lo₀ ≤ j → j < lo →
    ¬ e.HandedOver (slot _ j) ∧ Serviceable (e₀.dmaRxDscrTab (slot _ j)).status

namespace Drained

variable {e₀ e e' : EthRx} {lo₀ lo hi : Nat}

theorem congr (h : Drained e₀ lo₀ lo hi e) (htab : e'.dmaRxDscrTab = e.dmaRxDscrTab)
    : Drained e₀ lo₀ lo hi e' := by
  refine ⟨htab ▸ h.chained, h.window, h.le, h.le_hi, htab ▸ h.todo, ?_⟩
  intro j hj hj'
  unfold EthRx.HandedOver
  rw [htab]
  exact h.done j hj hj'

theorem head_eq (h : Drained e₀ lo₀ lo hi e) (hlt : lo < hi)
    : e.dmaRxDscrTab (slot _ lo) = e₀.dmaRxDscrTab (slot _ lo) :=
  h.todo lo (Nat.le_refl lo) (Nat.lt_of_lt_of_le hlt h.window.bound)

theorem handedOver_iff (h : Drained e₀ lo₀ lo hi e) : e.HandedOver (slot _ lo) ↔ lo < hi := by
  by_cases hlt : lo < lo₀ + ethRxBufNb
  . unfold EthRx.HandedOver
    rw [h.todo lo (Nat.le_refl lo) hlt]
    exact h.window.full_iff lo h.le hlt
  . -- a whole round has been given back, the head is the first descriptor again
    have hbound := h.window.bound
    have hle := h.le_hi
    have heq : lo = lo₀ + ethRxBufNb := by omega
    have hpos : 0 < ethRxBufNb := Nat.pos_of_neZero _
    have hfirst := (h.done lo₀ (Nat.le_refl lo₀) (by omega)).1
    rw [heq, slot_add_self]
    simp only [hfirst, false_iff]
    omega

theorem giveBack (h : Drained e₀ lo₀ lo hi e) (hlt : lo < hi)
    (hserviceable : Serviceable (e₀.dmaRxDscrTab (slot _ lo)).status)
    : Drained e₀ lo₀ (lo + 1) hi (e.giveBack (slot _ lo)) := by
  have hle := h.le
  have hbound := h.window.bound
  refine ⟨e.chained_giveBack h.chained _, h.window, by omega, hlt, ?_, ?_⟩
  . intro j hj hj'
    have hne : slot ethRxBufNb j ≠ slot _ lo := by
      intro heq
      have := slot_inj (show lo₀ ≤ j by omega) hj' hle (by omega) heq
      omega
    rw [e.giveBack_of_ne hne]
    apply h.todo j
    . omega
    . exact hj'
  . intro j hj hj'
    by_cases heq : j = lo
    . subst heq
      exact ⟨e.not_handedOver_giveBack _, hserviceable⟩
    . have hne : slot ethRxBufNb j ≠ slot _ lo := by
        intro hslot
        apply heq
        exact slot_inj hj (by omega) hle (by omega) hslot
      have hdone := h.done j hj (by omega)
      unfold EthRx.HandedOver at hdone ⊢
      rw [e.giveBack_of_ne hne]
      exact hdone

end Drained

def RxPc.handled (pc : RxPc) (lo : Nat) : Nat :=
  match pc with
  | .giveBack _ _ => lo + 1
  | _ => lo

def RxPc.distance : RxPc → Nat × Nat
  | .resume _ => (9, 0)
  | .input _ => (8, 0)
  | .test => (7, 0)
  | .rxPkt => (6, 0)
  | .alloc _ => (5, 0)
  | .memcpy _ _ todo _ => (4, todo.length)
  | .giveBack _ _ => (3, 0)
  | .clearR => (2, 0)
  | .clearNis => (1, 0)
  | .idle => (0, 0)

def RxAct.OfHandler : RxAct → Prop
  | .cpu _ _ => True
  | _ => False

def EthRx.RingKept (e₀ e : EthRx) : Prop :=
  (∀ i, e₀.HandedOver i → ¬ e.HandedOver i) ∧ ¬ e.HandedOver e.dmaRxDescToGet

instance (e₀ e : EthRx) : Decidable (e₀.RingKept e) := inferInstanceAs (Decidable (_ ∧ _))

namespace Rx

def Draining (e₀ : EthRx) (lo hi : Nat) (s : Rx) : Prop :=
  match s.pc with
  | .test | .resume _ | .input _ => s.eth.dmaRxDescToGet = slot _ lo
  | .rxPkt =>
    s.eth.dmaRxDescToGet = slot _ lo ∧ lo < hi ∧ Serviceable (e₀.dmaRxDscrTab (slot _ lo)).status
  | .alloc frame | .memcpy frame _ _ _ | .giveBack frame _ =>
    s.eth.dmaRxDescToGet = slot _ (lo + 1) ∧ lo < hi
      ∧ Serviceable (e₀.dmaRxDscrTab (slot _ lo)).status ∧ frame.descriptor = some (slot _ lo)
  | .clearR | .clearNis | .idle =>
    s.eth.dmaRxDescToGet = slot _ lo
      ∧ ¬ (s.eth.HandedOver (slot _ lo) ∧ Serviceable (s.eth.dmaRxDscrTab (slot _ lo)).status)

variable {e₀ : EthRx} {lo₀ lo hi : Nat} {s s' t : Rx} {p : Option (List Pbuf)} {err : ErrT}

theorem drained_cpu (h : Drained e₀ lo₀ lo hi s.eth) (hpc : s.Draining e₀ lo hi)
    (hstep : s.cpu p err = some s')
    : Drained e₀ lo₀ (s.pc.handled lo) hi s'.eth ∧ s'.Draining e₀ (s.pc.handled lo) hi := by
  cases cpuStep_of_cpu hstep with
  | testFrame hpc' hsize =>
    simp only [Draining, hpc'] at hpc
    rcases s.eth.ethGetRxPktSize_ne_zero_iff.mp hsize with ⟨hover, hserviceable⟩
    rw [hpc] at hover
    rw [EthRx.head, hpc] at hserviceable
    have hlt := h.handedOver_iff.mp hover
    rw [h.head_eq hlt] at hserviceable
    rw [hpc']
    exact ⟨h, hpc, hlt, hserviceable⟩
  | testDone hpc' hsize =>
    simp only [Draining, hpc'] at hpc
    have hstopped := mt s.eth.ethGetRxPktSize_ne_zero_iff.mpr (not_not_intro hsize)
    rw [EthRx.head, hpc] at hstopped
    rw [hpc']
    exact ⟨h, hpc, hstopped⟩
  | rxPkt hpc' =>
    simp only [Draining, hpc'] at hpc
    rcases hpc with ⟨hhead, hlt, hserviceable⟩
    have hover : s.eth.HandedOver s.eth.dmaRxDescToGet := hhead ▸ h.handedOver_iff.mpr hlt
    have hwhole : WholeFrame s.eth.head.status := by
      rw [EthRx.head, hhead, h.head_eq hlt]
      exact hserviceable.1
    rw [hpc', EthRx.ethRxPktChainMode_eq h.chained hover hwhole]
    refine ⟨h.congr rfl, ?_, hlt, hserviceable, congrArg some hhead⟩
    rw [hhead, nextDesc_slot]
    rfl
  | giveBack frame chain i hpc' hdesc =>
    -- the only statement that moves `lo`
    simp only [Draining, hpc'] at hpc
    rcases hpc with ⟨hhead, hlt, hserviceable, hdesc'⟩
    rw [hdesc, Option.some.injEq] at hdesc'
    rw [hpc', hdesc']
    exact ⟨h.giveBack hlt hserviceable, hhead⟩
  | resume chain hpc' =>
    simp only [Draining, hpc'] at hpc
    rw [hpc']
    refine ⟨h.congr s.eth.resumeReception_dmaRxDscrTab, ?_⟩
    rw [← s.eth.resumeReception_dmaRxDescToGet] at hpc
    exact hpc
  | allocNull frame hpc' | alloc frame segs hpc' hsum | memcpyDone frame copied l hpc'
  | memcpy frame copied q todo l hpc' | inputNull hpc' | input segs hpc' | clearR hpc'
  | clearNis hpc' =>
    simp only [Draining, hpc'] at hpc
    rw [hpc']
    exact ⟨h.congr rfl, hpc⟩

theorem distance_cpu (hpc : s.Draining e₀ lo hi) (hstep : s.cpu p err = some s')
    : Prod.Lex (· < ·) (Prod.Lex (· < ·) (· < ·))
        (hi - s.pc.handled lo, s'.pc.distance) (hi - lo, s.pc.distance) := by
  cases cpuStep_of_cpu hstep with
  | giveBack frame chain i hpc' hdesc =>
    -- one descriptor less to give back, so the distance may grow again
    simp only [Draining, hpc'] at hpc
    rw [hpc']
    apply Prod.Lex.left
    apply Nat.sub_lt_sub_left
    . exact hpc.2.1
    . exact Nat.lt_succ_self lo
  | memcpy frame copied q todo l hpc' =>
    rw [hpc']
    apply Prod.Lex.right
    apply Prod.Lex.right
    apply Nat.lt_succ_self
  | testFrame hpc' hsize | testDone hpc' hsize | rxPkt hpc' | allocNull frame hpc'
  | alloc frame segs hpc' hsum | memcpyDone frame copied l hpc' | resume chain hpc' | inputNull hpc'
  | input segs hpc' | clearR hpc' | clearNis hpc' =>
    rw [hpc']
    apply Prod.Lex.right
    apply Prod.Lex.left
    simp

theorem enabled_cpu (hpc : s.Draining e₀ lo hi) (hidle : s.pc ≠ .idle)
    : (s.cpu none .ok).isSome := by
  rcases s with ⟨eth, dmaDesc, pc, arrivals, log, late⟩
  cases pc with
  | idle => contradiction
  | memcpy frame copied todo l => cases todo <;> rfl
  | giveBack frame chain =>
    rcases hpc with ⟨-, -, -, hdesc⟩
    simp [cpu, hdesc]
  | input chain => cases chain <;> rfl
  | test | rxPkt | alloc frame | resume chain | clearR | clearNis => rfl

theorem ringKept_iff_of_drained (h : Drained e₀ lo₀ lo hi s.eth) (hpc : s.Draining e₀ lo hi)
    (hidle : s.pc = .idle)
    : e₀.RingKept s.eth
        ↔ ∀ i, e₀.HandedOver i → Serviceable (e₀.dmaRxDscrTab i).status := by
  rw [Draining, hidle] at hpc
  rcases hpc with ⟨hhead, hstopped⟩
  have hbound := h.window.bound
  have hle := h.le_hi
  rw [EthRx.RingKept, hhead, h.handedOver_iff]
  constructor
  . rintro ⟨-, hall⟩ i hi
    rcases exists_slot lo₀ i with ⟨j, hj, hj', rfl⟩
    have hlt := (h.window.full_iff j hj hj').mp hi
    exact (h.done j hj (by omega)).2
  . intro hserviceable
    -- a head the driver still owned would be serviceable, and the loop would have gone on
    have hall : ¬ lo < hi := by
      intro hlt
      have hover := h.handedOver_iff.mpr hlt
      refine hstopped ⟨hover, ?_⟩
      unfold EthRx.HandedOver at hover
      rw [h.head_eq hlt] at hover ⊢
      exact hserviceable _ hover
    refine ⟨?_, hall⟩
    intro i hi
    rcases exists_slot lo₀ i with ⟨j, hj, hj', rfl⟩
    have hlt := (h.window.full_iff j hj hj').mp hi
    exact (h.done j hj (by omega)).1

theorem returns_of_draining (h : Drained e₀ lo₀ lo hi s.eth) (hpc : s.Draining e₀ lo hi)
    : Inevitably step (fun _ a => a.OfHandler)
        (fun t => t.pc = .idle ∧ ∃ lo', Drained e₀ lo₀ lo' hi t.eth ∧ t.Draining e₀ lo' hi) s := by
  let inv (c : Nat × Nat × Nat) (t : Rx) : Prop :=
    ∃ lo', c = (hi - lo', t.pc.distance) ∧ Drained e₀ lo₀ lo' hi t.eth ∧ t.Draining e₀ lo' hi
  have hwf := (Prod.lex Nat.lt_wfRel (Prod.lex Nat.lt_wfRel Nat.lt_wfRel)).wf
  refine Inevitably.of_variant (I := inv) hwf ?_ ?_ ⟨lo, rfl, h, hpc⟩
  . rintro c t ⟨lo', -, h, hpc⟩
    by_cases hidle : t.pc = .idle
    . exact .inl ⟨hidle, lo', h, hpc⟩
    . exact .inr ⟨.cpu none .ok, trivial, enabled_cpu hpc hidle⟩
  . rintro c t a t' ⟨lo', rfl, h, hpc⟩ hok hstep
    cases a with
    | cpu p err =>
      rcases drained_cpu h hpc hstep with ⟨h', hpc'⟩
      exact ⟨_, distance_cpu hpc hstep, t.pc.handled lo', rfl, h', hpc'⟩
    | dma | rbu | irq => contradiction

theorem drained_self (hchained : Chained s.eth.dmaRxDscrTab) (hwindow : Window s.eth.HandedOver lo hi)
    : Drained s.eth lo lo hi s.eth := by
  refine ⟨hchained, hwindow, Nat.le_refl lo, hwindow.le, fun _ _ _ => rfl, ?_⟩
  intro j hj hj'
  omega

theorem ringKept_iff {s : Rx} {lo hi : Nat} (hchained : Chained s.eth.dmaRxDscrTab)
    (hwindow : Window s.eth.HandedOver lo hi) (hhead : s.eth.dmaRxDescToGet = slot _ lo)
    (hpc : s.pc = .test)
    : Inevitably step (fun _ a => a.OfHandler)
        (fun t => t.pc = .idle
          ∧ (s.eth.RingKept t.eth
              ↔ ∀ i, s.eth.HandedOver i → Serviceable (s.eth.dmaRxDscrTab i).status)) s := by
  have hdraining : s.Draining s.eth lo hi := by
    rw [Draining, hpc]
    exact hhead
  refine (returns_of_draining (drained_self hchained hwindow) hdraining).mono ?_
  rintro t ⟨hidle, lo', h, hpc⟩
  exact ⟨hidle, ringKept_iff_of_drained h hpc hidle⟩

def oversizeFrame : Rx :=
  { powerOn with
    eth := { powerOn.eth with
      dmaRxDscrTab := fun i =>
        { dmaRxDescChainInit i with
          status :=
            if i.val = 0 then dmaRxDescFs
            else if i.val = 1 then dmaRxDescLs ||| 0x06440000
            else dmaRxDescOwn }
      dmasr := dmasrR ||| dmasrNis }
    pc := .test }

theorem window_oversizeFrame : Window oversizeFrame.eth.HandedOver 0 2 := by
  have hfull : ∀ k < ethRxBufNb, oversizeFrame.eth.HandedOver (slot _ k) ↔ k < 2 := by decide
  refine ⟨by decide, by decide, fun k _ hk => hfull k ?_⟩
  rwa [Nat.zero_add] at hk

theorem ringKept_iff_oversizeFrame
    : Inevitably step (fun _ a => a.OfHandler)
        (fun t => t.pc = .idle
          ∧ (oversizeFrame.eth.RingKept t.eth
              ↔ ∀ i, oversizeFrame.eth.HandedOver i →
                Serviceable (oversizeFrame.eth.dmaRxDscrTab i).status)) oversizeFrame :=
  ringKept_iff (by decide) window_oversizeFrame rfl rfl

theorem not_ringKept_oversizeFrame
    : Chained oversizeFrame.eth.dmaRxDscrTab ∧ Window oversizeFrame.eth.HandedOver 0 2
      ∧ oversizeFrame.eth.dmaRxDescToGet = slot _ 0 ∧ oversizeFrame.pc = .test
      ∧ ∃ t, run step oversizeFrame [.cpu none .ok, .cpu none .ok, .cpu none .ok] = some t
          ∧ t.pc = .idle ∧ ¬ oversizeFrame.eth.RingKept t.eth :=
  ⟨by decide, window_oversizeFrame, rfl, rfl, _, rfl, rfl, by decide⟩

end Rx

end SerialGateway
