import SerialGateway.Eth.RxFifo

/-!
This module contains when the handler can return with a frame in the ring and no interrupt pending.
-/

open Ring Transition

namespace SerialGateway

theorem or_and_dmasrR {mask : BitVec 32} (dmasr : BitVec 32) (h : mask &&& dmasrR = 0)
    : (dmasr ||| mask) &&& dmasrR = dmasr &&& dmasrR := by
  rw [BitVec.and_or_distrib_right, h]
  simp

theorem clearDmasr_and_dmasrR {mask : BitVec 32} (dmasr : BitVec 32)
    (h : ~~~mask &&& dmasrR = dmasrR)
    : clearDmasr dmasr mask &&& dmasrR = dmasr &&& dmasrR := by
  rw [clearDmasr, BitVec.and_assoc, h]

theorem clearDmasr_dmasrR_and_dmasrR (dmasr : BitVec 32)
    : clearDmasr dmasr dmasrR &&& dmasrR = 0 := by
  rw [clearDmasr, BitVec.and_assoc, (by decide : ~~~dmasrR &&& dmasrR = 0)]
  simp

namespace Rx

def Waiting (s : Rx) : Prop := s.eth.HandedOver s.eth.dmaRxDescToGet

instance (s : Rx) : Decidable s.Waiting := inferInstanceAs (Decidable (s.eth.HandedOver _))

def Acknowledged (s : Rx) : Prop :=
  match s.pc with
  | .clearR => s.late = true ↔ s.Waiting
  | .clearNis | .idle => (s.late = true → s.Waiting ∧ ¬ s.Pending) ∧
    (s.late = false → s.Pending ∨ ¬ s.Waiting)
  | _ => s.late = false

theorem pending_dma {s s' : Rx} {status : BitVec 32} {data : Nat → UInt8}
    (hstep : s.dma status data = some s')
    : s'.Pending := by
  rw [dma, Option.ite_none_left_eq_some, Option.some.injEq] at hstep
  rcases hstep with ⟨-, rfl⟩
  unfold Pending
  rw [or_and_dmasrR _ (by decide), BitVec.and_or_distrib_right, BitVec.and_self]
  intro hzero
  have := (BitVec.or_eq_zero_iff.mp hzero).2
  contradiction

end Rx

namespace Fifo

variable {outcomes : List Outcome} {s s' : Rx}

theorem waiting_iff (h : Fifo outcomes s) (hbusy : ¬ s.pc.Busy)
    : s.Waiting ↔ outcomes.length < s.arrivals.length := by
  have htoGet := h.toGet
  have hfull := h.filled.window.full_lo_iff
  rw [RxPc.taken_of_not_busy hbusy] at htoGet
  rw [RxPc.returned_of_not_busy hbusy] at hfull
  rw [Rx.Waiting, htoGet, hfull]

end Fifo

namespace Rx

variable {outcomes : List Outcome} {s s' t : Rx} {as : List RxAct}

theorem acknowledged_dma {status : BitVec 32} {data : Nat → UInt8} (hfifo : Fifo outcomes s)
    (hgood : GoodFrame status) (hstep : s.dma status data = some s')
    : s'.Acknowledged := by
  have hwaiting := (hfifo.dma hgood hstep).waiting_iff
  have hpending := pending_dma hstep
  have hle := Nat.lt_succ_of_le hfifo.le
  rcases s with ⟨eth, dmaDesc, pc, arrivals, log, late⟩
  rw [dma, Option.ite_none_left_eq_some, Option.some.injEq] at hstep
  rcases hstep with ⟨-, rfl⟩
  simp only [List.length_append, List.length_singleton] at hwaiting
  cases pc with
  | clearR => exact iff_of_true rfl ((hwaiting not_false).mpr hle)
  | clearNis | idle => exact ⟨fun hlate => Bool.noConfusion hlate, fun _ => .inl hpending⟩
  | _ => rfl

theorem acknowledged_cpu {p : Option (List Pbuf)} {err : ErrT} (hfifo : Fifo outcomes s)
    (h : s.Acknowledged) (hstep : s.cpu p err = some s')
    : s'.Acknowledged := by
  cases cpuStep_of_cpu hstep with
  | testFrame hpc hsize | rxPkt hpc | allocNull frame hpc | alloc frame segs hpc hsum
  | memcpyDone frame copied l hpc | memcpy frame copied q todo l hpc
  | giveBack frame chain i hpc hdesc | resume chain hpc | inputNull hpc | input segs hpc =>
    rw [Acknowledged, hpc] at h
    exact h
  | testDone hpc hsize =>
    have hwaiting := hfifo.waiting_iff (hpc ▸ not_false)
    have htest := mt (hfifo.ethGetRxPktSize_ne_zero_iff hpc).mpr (not_not_intro hsize)
    rw [Acknowledged, hpc] at h
    apply iff_of_false
    . exact Bool.eq_false_iff.mp h
    . exact mt hwaiting.mp htest
  | clearR hpc =>
    -- the cleared bit may have been that of a frame the last test has not seen
    rw [Acknowledged, hpc] at h
    refine ⟨fun hlate => ⟨h.mp hlate, ?_⟩, fun hlate => .inr ?_⟩
    . apply not_not_intro
      exact clearDmasr_dmasrR_and_dmasrR s.eth.dmasr
    . apply mt
      . exact h.mpr
      . exact Bool.eq_false_iff.mp hlate
  | clearNis hpc =>
    simp only [Acknowledged, Pending, hpc] at h ⊢
    rw [clearDmasr_and_dmasrR _ (by decide)]
    exact h

theorem acknowledged_step {a : RxAct} (hfifo : Fifo outcomes s) (h : s.Acknowledged) (hgood : a.Good)
    (hstep : s.step a = some s')
    : s'.Acknowledged := by
  cases a with
  | dma status data => exact acknowledged_dma hfifo hgood hstep
  | rbu =>
    cases hstep
    unfold Acknowledged Pending at h ⊢
    rw [or_and_dmasrR _ (by decide)]
    exact h
  | irq =>
    rcases s with ⟨eth, dmaDesc, pc, arrivals, log, late⟩
    cases pc with
    | idle =>
      rw [step, Option.ite_none_right_eq_some] at hstep
      rcases hstep with ⟨hpending, ⟨⟩⟩
      exact Bool.eq_false_iff.mpr fun hlate => (h.1 hlate).2 hpending
    | _ => contradiction
  | cpu p err => exact acknowledged_cpu hfifo h hstep

def LastInTime (s : Rx) (as : List RxAct) : Prop :=
  ∀ bs status data cs u, as = bs ++ .dma status data :: cs → cs.filterMap RxAct.arrival = [] →
    run step s bs = some u → u.pc ≠ .clearR

theorem late_step {a : RxAct} (ha : a.arrival = none) (hstep : s.step a = some s')
    : s'.late = s.late := by
  cases a with
  | dma status data => contradiction
  | rbu =>
    cases hstep
    rfl
  | irq =>
    rw [step] at hstep
    split at hstep
    . rw [Option.ite_none_right_eq_some] at hstep
      rcases hstep with ⟨-, ⟨⟩⟩
      rfl
    . contradiction
  | cpu p err => exact (arrivals_cpu hstep).2

theorem late_dma {status : BitVec 32} {data : Nat → UInt8} (hstep : s.dma status data = some s')
    : s'.late = false ↔ s.pc ≠ .clearR := by
  rw [dma, Option.ite_none_left_eq_some, Option.some.injEq] at hstep
  rcases hstep with ⟨-, rfl⟩
  cases s.pc <;> simp

theorem lastInTime_cons {a : RxAct} (hstep : s.step a = some s')
    : LastInTime s (a :: as)
        ↔ (a.arrival ≠ none → as.filterMap RxAct.arrival = [] → s.pc ≠ .clearR)
          ∧ LastInTime s' as := by
  constructor
  . intro h
    constructor
    . intro ha hlast
      cases a with
      | dma status data => exact h [] status data as s rfl hlast rfl
      | rbu | irq | cpu p err => contradiction
    . intro bs status data cs u has hlast hrun
      refine h (a :: bs) status data cs u (congrArg (a :: ·) has) hlast ?_
      apply run_cons_eq_some.mpr
      exact ⟨s', hstep, hrun⟩
  . rintro ⟨hfirst, hrest⟩ bs status data cs u has hlast hrun
    cases bs with
    | nil =>
      rw [List.nil_append, List.cons.injEq] at has
      rcases has with ⟨rfl, rfl⟩
      rw [run_nil, Option.some.injEq] at hrun
      exact hrun ▸ hfirst (Option.some_ne_none _) hlast
    | cons b bs =>
      rw [List.cons_append, List.cons.injEq] at has
      rcases has with ⟨rfl, has⟩
      rcases run_cons_eq_some.mp hrun with ⟨s'', hs'', hrun'⟩
      rw [hstep, Option.some.injEq] at hs''
      exact hrest bs status data cs u has hlast (hs'' ▸ hrun')

theorem late_iff (hrun : run step s as = some t)
    : t.late = false
        ↔ LastInTime s as ∧ (as.filterMap RxAct.arrival = [] → s.late = false) := by
  induction as generalizing s with
  | nil =>
    rw [run_nil, Option.some.injEq] at hrun
    have hnil : LastInTime s [] := by
      intro bs status data cs u has
      simp at has
    simp [hrun, hrun ▸ hnil]
  | cons a as ih =>
    rcases run_cons_eq_some.mp hrun with ⟨s', hstep, hrun'⟩
    rw [ih hrun', lastInTime_cons hstep]
    cases ha : a.arrival with
    | none => simp [ha, late_step ha hstep]
    | some frame =>
      cases a with
      | dma status data => simp [ha, late_dma hstep, and_comm]
      | rbu | irq | cpu p err => contradiction

theorem acknowledged_run (hgood : ∀ a ∈ as, a.Good) (hrun : run step powerOn as = some t)
    : t.Acknowledged := by
  have hrun' := run_invariant (I := fun s => (∃ outcomes, Fifo outcomes s) ∧ s.Acknowledged) ?_
    ⟨⟨[], .powerOn⟩, Bool.noConfusion, fun _ => .inr (by decide)⟩ (along_of_forall hgood _) hrun
  . exact hrun'.2
  . rintro s a s' ⟨⟨outcomes, hfifo⟩, h⟩ hok hstep
    rcases hfifo.step hok hstep with ⟨outcomes', -, hfifo'⟩
    exact ⟨⟨outcomes', hfifo'⟩, acknowledged_step hfifo h hok hstep⟩

theorem wakeUp_iff_lastInTime (hgood : ∀ a ∈ as, a.Good) (hrun : run step powerOn as = some t)
    (hpc : t.pc = .idle)
    : ¬ t.Waiting ∨ t.Pending ↔ LastInTime powerOn as := by
  have h := acknowledged_run hgood hrun
  rw [Acknowledged, hpc] at h
  rcases h with ⟨hlate, htime⟩
  have hpowerOn : t.late = false ↔ LastInTime powerOn as :=
    (late_iff hrun).trans (and_iff_left fun _ => rfl)
  rw [← hpowerOn]
  constructor
  . intro hkept
    apply Bool.eq_false_iff.mpr
    intro hlost
    rcases hlate hlost with ⟨hwaiting, hpending⟩
    exact hkept.elim (fun h => h hwaiting) hpending
  . intro hlate
    exact (htime hlate).symm

theorem wakeUp_iff_lastInTime_twoFrames
    : ¬ twoFramesDone.Waiting ∨ twoFramesDone.Pending ↔ LastInTime powerOn twoFrames :=
  wakeUp_iff_lastInTime (by decide) (Option.some_get _).symm rfl

def lateFrame : List RxAct :=
  let next := RxAct.cpu none .ok
  [.dma 0x00060300 fun _ => 0, .irq, next, next, next, next, next, next, next,
    .dma 0x00060300 fun _ => 0, next, next]

theorem not_wakeUp_lateFrame
    : (∀ a ∈ lateFrame, a.Good)
      ∧ ∃ t, run step powerOn lateFrame = some t ∧ t.pc = .idle ∧ t.Waiting ∧ ¬ t.Pending :=
  ⟨by decide, _, rfl, rfl, by decide⟩

end Rx

end SerialGateway
