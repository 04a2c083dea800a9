import Mathlib.Data.List.GetD
import SerialGateway.Eth.RxRing

/-!
This module contains what the handler passes to lwIP when the DMA hands over nothing but error-free
frames of one descriptor, in any interleaving of the two.
-/

open Ring Transition

namespace SerialGateway

def GoodFrame (status : BitVec 32) : Prop :=
  status &&& dmaRxDescOwn = 0 ∧ WholeFrame status ∧ 4 < (frameLength status).toNat
    ∧ (frameLength status).toNat ≤ ethMaxPacketSize

instance (status : BitVec 32) : Decidable (GoodFrame status) :=
  inferInstanceAs (Decidable (_ ∧ _ ∧ _ ∧ _))

def RxAct.Good : RxAct → Prop
  | .dma status _ => GoodFrame status
  | _ => True

instance : ∀ a : RxAct, Decidable a.Good
  | .dma status _ => inferInstanceAs (Decidable (GoodFrame status))
  | .rbu => .isTrue trivial
  | .irq => .isTrue trivial
  | .cpu _ _ => .isTrue trivial

def RxAct.arrival : RxAct → Option (List UInt8)
  | .dma status data => some (Rx.payload status data)
  | _ => none

inductive Outcome where
  | noPbuf
  | input (err : ErrT)
  deriving DecidableEq

def Rx.outcome (s : Rx) : RxAct → Option Outcome
  | .cpu p err =>
    match s.pc, p with
    | .alloc _, none => some .noPbuf
    | .input (some _), _ => some (.input err)
    | _, _ => none
  | _ => none

def Rx.outcomes (s : Rx) : List RxAct → List Outcome
  | [] => []
  | a :: as =>
    match s.step a with
    | some s' => (s.outcome a).toList ++ Rx.outcomes s' as
    | none => []

def frameLog (k : Nat) (data : List UInt8) : Outcome → List RxEvent
  | .noPbuf => [.pbufAlloc data.length false, .giveBack (slot _ k)]
  | .input err =>
    [.pbufAlloc data.length true, .copied data, .giveBack (slot _ k), .input data err]
      ++ if err ≠ .ok then [.pbufFree data] else []

def framesLog (k : Nat) : List (List UInt8) → List Outcome → List RxEvent
  | data :: frames, outcome :: outcomes =>
    frameLog k data outcome ++ framesLog (k + 1) frames outcomes
  | _, _ => []

theorem framesLog_append_frames {frames outcomes} (frames') (k : Nat)
    (h : outcomes.length ≤ frames.length)
    : framesLog k (frames ++ frames') outcomes = framesLog k frames outcomes := by
  induction outcomes generalizing k frames with
  | nil => cases frames <;> cases frames' <;> rfl
  | cons outcome outcomes ih =>
    cases frames with
    | nil => contradiction
    | cons data frames =>
      simp only [List.cons_append, framesLog]
      rw [ih _ (Nat.le_of_succ_le_succ h)]

theorem framesLog_concat {frames outcomes} (outcome : Outcome) (k : Nat)
    (h : outcomes.length < frames.length)
    : framesLog k frames (outcomes ++ [outcome]) =
        framesLog k frames outcomes
          ++ frameLog (k + outcomes.length) (frames.getD outcomes.length []) outcome := by
  induction outcomes generalizing k frames with
  | nil =>
    cases frames with
    | nil => contradiction
    | cons data frames => simp [framesLog]
  | cons o outcomes ih =>
    cases frames with
    | nil => contradiction
    | cons data frames =>
      have hk : k + 1 + outcomes.length = k + (outcomes.length + 1) := by omega
      simp only [List.cons_append, framesLog, List.append_assoc]
      rw [ih _ (Nat.lt_of_succ_lt_succ h), hk]
      rfl

theorem GoodFrame.serviceable {status : BitVec 32} (h : GoodFrame status) : Serviceable status := by
  rcases h with ⟨-, hwhole, hlt, -⟩
  refine ⟨hwhole, ?_⟩
  intro hzero
  rw [hzero] at hlt
  contradiction

theorem GoodFrame.toNat_len {status : BitVec 32} (h : GoodFrame status)
    : ((frameLength status - 4).setWidth 16).toNat = (frameLength status).toNat - 4 := by
  rcases h with ⟨-, -, hlt, hle⟩
  have hmax : ethMaxPacketSize = 1520 := rfl
  have hsub : (frameLength status - 4).toNat = (frameLength status).toNat - 4 :=
    BitVec.toNat_sub_of_le (BitVec.le_def.mpr (Nat.le_of_lt hlt))
  rw [BitVec.toNat_setWidth, hsub, Nat.mod_eq_of_lt (by omega)]

def EthRx.Holds (e : EthRx) (k : Nat) (data : List UInt8) : Prop :=
  GoodFrame (e.dmaRxDscrTab (slot _ k)).status
    ∧ Rx.payload (e.dmaRxDscrTab (slot _ k)).status
        (fun l => e.rxBuff ((slot ethRxBufNb k).val * ethMaxPacketSize + l)) = data

structure Filled (lo : Nat) (e : EthRx) (dmaDesc : Fin ethRxBufNb) (arrivals : List (List UInt8))
    : Prop where
  chained : Chained e.dmaRxDscrTab
  window : Window e.HandedOver lo arrivals.length
  dmaDesc_eq : dmaDesc = slot _ arrivals.length
  holds : ∀ k data, lo ≤ k → arrivals[k]? = some data → e.Holds k data

namespace Filled

variable {lo : Nat} {e e' : EthRx} {dmaDesc : Fin ethRxBufNb} {arrivals : List (List UInt8)}

theorem congr (h : Filled lo e dmaDesc arrivals) (htab : e'.dmaRxDscrTab = e.dmaRxDscrTab)
    (hbuff : e'.rxBuff = e.rxBuff)
    : Filled lo e' dmaDesc arrivals := by
  rcases e with ⟨tab, toGet, dmasr, rxBuff⟩
  rcases e' with ⟨tab', toGet', dmasr', rxBuff'⟩
  simp only at htab hbuff
  subst htab hbuff
  exact ⟨h.chained, h.window, h.dmaDesc_eq, h.holds⟩

theorem giveBack (h : Filled lo e dmaDesc arrivals) (hlt : lo < arrivals.length)
    : Filled (lo + 1) (e.giveBack (slot _ lo)) dmaDesc arrivals := by
  refine ⟨e.chained_giveBack h.chained _, ?_, h.dmaDesc_eq, ?_⟩
  . refine h.window.consume hlt (e.not_handedOver_giveBack _) fun i hi => ?_
    unfold EthRx.HandedOver
    rw [e.giveBack_of_ne hi]
  . intro k data hk hdata
    rcases List.getElem?_eq_some_iff.mp hdata with ⟨hk', -⟩
    have hbound := h.window.bound
    have hne := h.window.slot_ne (i := k) (j := lo) (by omega) hk' (by omega) (by omega) (by omega)
    have hholds := h.holds k data (by omega) hdata
    unfold EthRx.Holds at hholds ⊢
    rw [e.giveBack_of_ne hne]
    exact hholds

theorem disjoint_of_ne {i j : Fin ethRxBufNb} {l : Nat} (hl : l < ethMaxPacketSize) (hne : i ≠ j)
    : ¬ (j.val * ethMaxPacketSize ≤ i.val * ethMaxPacketSize + l
        ∧ i.val * ethMaxPacketSize + l < j.val * ethMaxPacketSize + ethMaxPacketSize) := by
  have hval : i.val ≠ j.val := mt Fin.ext hne
  simp only [ethMaxPacketSize] at hl ⊢
  omega

theorem dma {s s' : Rx} {status : BitVec 32} {data : Nat → UInt8}
    (h : Filled lo s.eth s.dmaDesc s.arrivals) (hgood : GoodFrame status)
    (hstep : s.dma status data = some s')
    : Filled lo s'.eth s'.dmaDesc s'.arrivals := by
  rw [Rx.dma, Option.ite_none_left_eq_some, Option.some.injEq] at hstep
  rcases hstep with ⟨hempty, rfl⟩
  rcases s with ⟨⟨tab, toGet, dmasr, rxBuff⟩, dmaDesc, pc, arrivals, log, late⟩
  rcases h with ⟨hchained, hwindow, hdesc, hholds⟩
  simp only at hchained hwindow hdesc hholds hempty
  subst hdesc
  rcases hchained (slot _ arrivals.length) with ⟨hbuffer, hnext⟩
  refine ⟨?_, ?_, ?_, ?_⟩
  . intro i
    by_cases hi : i = slot _ arrivals.length
    . subst hi
      simp only [Function.update_self]
      exact ⟨hbuffer, hnext⟩
    . simp only [Function.update_of_ne hi]
      exact hchained i
  . simp only [List.length_append, List.length_singleton]
    refine hwindow.produce hempty ?_ fun i hi => ?_
    . simp only [EthRx.HandedOver, Function.update_self]
      exact hgood.1
    . simp only [EthRx.HandedOver, Function.update_of_ne hi]
  . simp only [List.length_append, List.length_singleton, hnext, nextDesc_slot]
  . intro k frame hk hframe
    by_cases heq : k = arrivals.length
    . subst heq
      simp only [List.getElem?_concat_length, Option.some.injEq] at hframe
      subst hframe
      simp only [EthRx.Holds, Function.update_self, hbuffer]
      refine ⟨hgood, List.map_congr_left ?_⟩
      intro l hl
      have hlt := List.mem_range.mp hl
      have hle := hgood.2.2.2
      have hmax : l < ethMaxPacketSize := by omega
      rw [if_pos ⟨Nat.le_add_right _ _, Nat.add_lt_add_left hmax _⟩, Nat.add_sub_cancel_left]
    . rcases List.getElem?_eq_some_iff.mp hframe with ⟨hk', -⟩
      simp only [List.length_append, List.length_singleton] at hk'
      have hlt : k < arrivals.length := by omega
      rw [List.getElem?_append_left hlt] at hframe
      have hlt' : arrivals.length < lo + ethRxBufNb := by
        have hne := mt hwindow.full_hi_iff.mpr hempty
        have hbound := hwindow.bound
        omega
      -- the DMA fills an empty descriptor, so it leaves the buffers of the waiting frames alone
      have hne := hwindow.slot_ne hk hlt hwindow.le hlt' heq
      rcases hholds k frame hk hframe with ⟨hstatus, hdata⟩
      simp only at hstatus hdata
      simp only [EthRx.Holds, Function.update_of_ne hne, hbuffer]
      refine ⟨hstatus, ?_⟩
      rw [← hdata]
      apply List.map_congr_left
      intro l hl
      have hlt := List.mem_range.mp hl
      have hle := hstatus.2.2.2
      apply if_neg
      exact disjoint_of_ne (by omega) hne

end Filled

structure FrameTypeDef.Of (frame : FrameTypeDef) (n : Nat) (data : List UInt8) : Prop where
  length : (frame.length.setWidth 16).toNat = data.length
  buffer : frame.buffer = some ((slot ethRxBufNb n).val * ethMaxPacketSize)
  descriptor : frame.descriptor = some (slot _ n)

namespace RxPc

def returned (pc : RxPc) (n : Nat) : Nat :=
  match pc with
  | .resume _ | .input _ => n + 1
  | _ => n

def taken (pc : RxPc) (n : Nat) : Nat :=
  match pc with
  | .idle | .test | .rxPkt | .clearR | .clearNis => n
  | _ => n + 1

def Busy : RxPc → Prop
  | .idle | .test | .clearR | .clearNis => False
  | _ => True

def soFar (n : Nat) (data : List UInt8) : RxPc → List RxEvent
  | .memcpy _ _ _ _ => [.pbufAlloc data.length true]
  | .giveBack _ none => [.pbufAlloc data.length false]
  | .giveBack _ (some _) => [.pbufAlloc data.length true, .copied data]
  | .resume none | .input none => [.pbufAlloc data.length false, .giveBack (slot _ n)]
  | .resume (some _) | .input (some _) =>
    [.pbufAlloc data.length true, .copied data, .giveBack (slot _ n)]
  | _ => []

def settled : RxPc → List Outcome
  | .giveBack _ none | .resume none | .input none => [.noPbuf]
  | _ => []

def finished (err : ErrT) : RxPc → List Outcome
  | .input none => [.noPbuf]
  | .input (some _) => [.input err]
  | _ => []

def Serves (n : Nat) (data : List UInt8) : RxPc → Prop
  | .alloc frame => frame.Of n data
  | .memcpy frame copied todo l =>
    frame.Of n data ∧ chainData copied = data.take l
      ∧ l + (todo.map (·.len.toNat)).sum = data.length
  | .giveBack frame p => frame.Of n data ∧ ∀ segs ∈ p, chainData segs = data
  | .resume p | .input p => ∀ segs ∈ p, chainData segs = data
  | _ => True

variable {pc : RxPc} {n : Nat}

theorem soFar_of_not_busy (h : ¬ pc.Busy) (data : List UInt8) : pc.soFar n data = [] := by
  cases pc <;> first | rfl | exact absurd trivial h

theorem serves_of_not_busy (h : ¬ pc.Busy) (data : List UInt8) : pc.Serves n data := by
  cases pc <;> first | trivial | exact absurd trivial h

theorem returned_of_not_busy (h : ¬ pc.Busy) : pc.returned n = n := by
  cases pc <;> first | rfl | exact absurd trivial h

theorem taken_of_not_busy (h : ¬ pc.Busy) : pc.taken n = n := by
  cases pc <;> first | rfl | exact absurd trivial h

theorem le_returned : n ≤ pc.returned n := by
  cases pc <;> simp [returned]

end RxPc

theorem Rx.settled_cpu {s s' : Rx} {p : Option (List Pbuf)} {err : ErrT} (hstep : s.cpu p err = some s')
    : s.pc.finished err ++ s'.pc.settled = s.pc.settled ++ (s.outcome (.cpu p err)).toList := by
  cases Rx.cpuStep_of_cpu hstep with
  | allocNull frame hpc hp | alloc frame segs hpc hsum hp =>
    simp [hpc, hp, RxPc.finished, RxPc.settled, Rx.outcome]
  | giveBack frame chain i hpc hdesc | resume chain hpc =>
    cases chain <;> simp [hpc, RxPc.finished, RxPc.settled, Rx.outcome]
  | testFrame hpc hsize | testDone hpc hsize | rxPkt hpc | memcpyDone frame copied l hpc
  | memcpy frame copied q todo l hpc | inputNull hpc | input segs hpc | clearR hpc | clearNis hpc =>
    simp [hpc, RxPc.finished, RxPc.settled, Rx.outcome]

theorem take_add_of_holds {e : EthRx} {frame : FrameTypeDef} {n l m : Nat} {data : List UInt8}
    (hholds : e.Holds n data) (hframe : frame.Of n data) (hle : l + m ≤ data.length)
    : data.take (l + m) =
        data.take l ++ (List.range m).map fun i => e.bufferAt frame.buffer (l + i) := by
  rcases hholds with ⟨-, rfl⟩
  rw [Rx.payload, List.length_map, List.length_range] at hle
  rw [Rx.payload, ← List.map_take, ← List.map_take, List.take_range, List.take_range,
    Nat.min_eq_left hle, Nat.min_eq_left (by omega), List.range_add, List.map_append, List.map_map,
    hframe.buffer]
  rfl

structure Fifo (outcomes : List Outcome) (s : Rx) : Prop where
  filled : Filled (s.pc.returned outcomes.length) s.eth s.dmaDesc s.arrivals
  toGet : s.eth.dmaRxDescToGet = slot _ (s.pc.taken outcomes.length)
  busy : s.pc.Busy → outcomes.length < s.arrivals.length
  serves : s.pc.Serves outcomes.length (s.arrivals.getD outcomes.length [])
  log : s.log = framesLog 0 s.arrivals outcomes
    ++ s.pc.soFar outcomes.length (s.arrivals.getD outcomes.length [])

namespace Fifo

variable {outcomes : List Outcome} {s s' : Rx}

theorem le (h : Fifo outcomes s) : outcomes.length ≤ s.arrivals.length :=
  Nat.le_trans RxPc.le_returned h.filled.window.le

theorem holds (h : Fifo outcomes s) (hreturned : s.pc.returned outcomes.length = outcomes.length)
    (hlt : outcomes.length < s.arrivals.length)
    : s.eth.Holds outcomes.length (s.arrivals.getD outcomes.length []) := by
  apply h.filled.holds _ _ (Nat.le_of_eq hreturned)
  rw [List.getElem?_eq_getElem hlt, List.getD_eq_getElem _ _ hlt]

theorem dma {status : BitVec 32} {data : Nat → UInt8} (h : Fifo outcomes s)
    (hgood : GoodFrame status) (hstep : s.dma status data = some s')
    : Fifo outcomes s' := by
  have hfilled := h.filled.dma hgood hstep
  have hle := h.le
  rw [Rx.dma, Option.ite_none_left_eq_some, Option.some.injEq] at hstep
  rcases hstep with ⟨-, rfl⟩
  refine ⟨hfilled, h.toGet, ?_, ?_, ?_⟩
  . intro hbusy
    have hlt := h.busy hbusy
    simp only [List.length_append]
    omega
  . by_cases hbusy : s.pc.Busy
    . rw [List.getD_append _ _ _ _ (h.busy hbusy)]
      exact h.serves
    . apply RxPc.serves_of_not_busy hbusy
  . rw [framesLog_append_frames _ _ hle]
    by_cases hbusy : s.pc.Busy
    . rw [List.getD_append _ _ _ _ (h.busy hbusy)]
      exact h.log
    . have hlog := h.log
      rw [RxPc.soFar_of_not_busy hbusy] at hlog ⊢
      exact hlog

theorem ethGetRxPktSize_ne_zero_iff (h : Fifo outcomes s) (hpc : s.pc = .test)
    : s.eth.ethGetRxPktSize ≠ 0 ↔ outcomes.length < s.arrivals.length := by
  have hreturned : s.pc.returned outcomes.length = outcomes.length := by rw [hpc]; rfl
  have htoGet := h.toGet
  rw [hpc, RxPc.taken] at htoGet
  have hfull := h.filled.window.full_lo_iff
  rw [hreturned] at hfull
  rw [EthRx.ethGetRxPktSize_ne_zero_iff, EthRx.head, htoGet, hfull]
  refine ⟨And.left, fun hlt => ⟨hlt, ?_⟩⟩
  exact (h.holds hreturned hlt).1.serviceable

theorem cpu {p : Option (List Pbuf)} {err : ErrT} (h : Fifo outcomes s)
    (hstep : s.cpu p err = some s')
    : ∃ outcomes', outcomes' = outcomes ++ s.pc.finished err ∧ Fifo outcomes' s' := by
  have hfinished : ∀ {pc}, s.pc = pc → pc.finished err = [] → outcomes = outcomes ++ s.pc.finished err := by
    intro pc hpc hnil
    rw [hpc, hnil, List.append_nil]
  have htest := h.ethGetRxPktSize_ne_zero_iff
  have hholds := h.holds
  rcases h with ⟨hfilled, htoGet, hbusy, hserves, hlog⟩
  cases Rx.cpuStep_of_cpu hstep with
  | testFrame hpc hsize =>
    rw [hpc] at hfilled htoGet hlog
    exact ⟨outcomes, hfinished hpc rfl, hfilled, htoGet, fun _ => (htest hpc).mp hsize, trivial, hlog⟩
  | testDone hpc hsize =>
    rw [hpc] at hfilled htoGet hlog
    exact ⟨outcomes, hfinished hpc rfl, hfilled, htoGet, False.elim, trivial, hlog⟩
  | rxPkt hpc =>
    rw [hpc] at hfilled htoGet hbusy hholds hlog
    have hlt := hbusy trivial
    rcases hholds rfl hlt with ⟨hgood, hdata⟩
    have hover := hfilled.window.full_lo_iff.mpr hlt
    have hwhole : WholeFrame s.eth.head.status := by
      rw [EthRx.head, htoGet]
      exact hgood.2.1
    rw [RxPc.taken] at htoGet
    rw [EthRx.ethRxPktChainMode_eq hfilled.chained (htoGet ▸ hover) hwhole]
    refine ⟨outcomes, hfinished hpc rfl, hfilled.congr rfl rfl, ?_, hbusy, ⟨?_, ?_, ?_⟩, hlog⟩
    . simp only [htoGet, nextDesc_slot]
      rfl
    . simp only [EthRx.head, htoGet, hgood.toNat_len, ← hdata, Rx.payload, List.length_map,
        List.length_range]
    . simp only [htoGet]
    . simp only [htoGet]
  | allocNull frame hpc =>
    rw [hpc] at hfilled htoGet hbusy hserves hlog
    refine ⟨outcomes, hfinished hpc rfl, hfilled, htoGet, hbusy, ⟨hserves, ?_⟩, ?_⟩
    . intro segs hsegs
      contradiction
    . simp only [hlog, hserves.length, RxPc.soFar, List.append_nil]
  | alloc frame segs hpc hsum =>
    rw [hpc] at hfilled htoGet hbusy hserves hlog
    rw [hserves.length] at hsum
    refine ⟨outcomes, hfinished hpc rfl, hfilled, htoGet, hbusy, ⟨hserves, rfl, ?_⟩, ?_⟩
    . rw [Nat.zero_add]
      exact hsum
    . simp only [hlog, hserves.length, RxPc.soFar, List.append_nil]
  | memcpyDone frame copied l hpc =>
    rw [hpc] at hfilled htoGet hbusy hserves hlog
    rcases hserves with ⟨hframe, hcopied, hsum⟩
    simp only [List.map_nil, List.sum_nil, Nat.add_zero] at hsum
    refine ⟨outcomes, hfinished hpc rfl, hfilled, htoGet, hbusy, ⟨hframe, ?_⟩, ?_⟩
    . rintro segs ⟨⟩
      rw [hcopied, hsum, List.take_length]
    . simp only [hlog, hcopied, hsum, List.take_length, RxPc.soFar, List.append_assoc,
        List.cons_append, List.nil_append]
  | memcpy frame copied q todo l hpc =>
    rw [hpc] at hfilled htoGet hbusy hholds hserves hlog
    rcases hserves with ⟨hframe, hcopied, hsum⟩
    simp only [List.map_cons, List.sum_cons] at hsum
    have hle : l + q.len.toNat ≤ (s.arrivals.getD outcomes.length []).length := by omega
    have htake := take_add_of_holds (hholds rfl (hbusy trivial)) hframe hle
    refine ⟨outcomes, hfinished hpc rfl, hfilled, htoGet, hbusy, ⟨hframe, ?_, ?_⟩, hlog⟩
    . simp only [htake, ← hcopied, chainData, List.flatMap_append, List.flatMap_cons,
        List.flatMap_nil, List.append_nil, Pbuf.data_memcpy]
    . rw [Nat.add_assoc]
      exact hsum
  | giveBack frame chain i hpc hdesc =>
    rw [hpc] at hfilled htoGet hbusy hserves hlog
    rcases hserves with ⟨hframe, hchain⟩
    have hi : i = slot _ outcomes.length := Option.some.inj (hdesc.symm.trans hframe.descriptor)
    rw [hi]
    refine ⟨outcomes, hfinished hpc rfl, hfilled.giveBack (hbusy trivial), htoGet, hbusy, hchain, ?_⟩
    cases chain <;>
      simp only [hlog, RxPc.soFar, List.append_assoc, List.cons_append, List.nil_append]
  | resume chain hpc =>
    rw [hpc] at hfilled htoGet hbusy hserves hlog
    refine ⟨outcomes, hfinished hpc rfl, hfilled.congr (by simp) (by simp), ?_, hbusy, hserves, ?_⟩
    . rw [EthRx.resumeReception_dmaRxDescToGet]
      exact htoGet
    . cases chain <;> exact hlog
  | inputNull hpc =>
    rw [hpc] at hfilled htoGet hbusy hlog
    refine ⟨outcomes ++ [.noPbuf], by rw [hpc]; rfl, ?_, ?_, False.elim, trivial, ?_⟩
    . rw [List.length_append]
      exact hfilled
    . rw [List.length_append]
      exact htoGet
    . simp only [hlog, RxPc.soFar, framesLog_concat _ _ (hbusy trivial), frameLog, Nat.zero_add,
        List.append_nil]
  | input segs hpc =>
    rw [hpc] at hfilled htoGet hbusy hserves hlog
    refine ⟨outcomes ++ [.input err], by rw [hpc]; rfl, ?_, ?_, False.elim, trivial, ?_⟩
    . rw [List.length_append]
      exact hfilled
    . rw [List.length_append]
      exact htoGet
    . simp only [hlog, hserves segs rfl, RxPc.soFar, framesLog_concat _ _ (hbusy trivial), frameLog,
        Nat.zero_add, List.append_nil, List.append_assoc, List.cons_append, List.nil_append]
  | clearR hpc =>
    rw [hpc] at hfilled htoGet hlog
    exact ⟨outcomes, hfinished hpc rfl, hfilled.congr rfl rfl, htoGet, False.elim, trivial, hlog⟩
  | clearNis hpc =>
    rw [hpc] at hfilled htoGet hlog
    exact ⟨outcomes, hfinished hpc rfl, hfilled.congr rfl rfl, htoGet, False.elim, trivial, hlog⟩

theorem step {a : RxAct} (h : Fifo outcomes s) (hgood : a.Good) (hstep : s.step a = some s')
    : ∃ outcomes', outcomes' ++ s'.pc.settled = outcomes ++ s.pc.settled ++ (s.outcome a).toList
        ∧ Fifo outcomes' s' := by
  cases a with
  | dma status data =>
    have hpc : s'.pc = s.pc := by
      simp only [Rx.step, Rx.dma, Option.ite_none_left_eq_some, Option.some.injEq] at hstep
      rw [← hstep.2]
    exact ⟨outcomes, by simp [hpc, Rx.outcome], h.dma hgood hstep⟩
  | rbu =>
    simp only [Rx.step, Option.some.injEq] at hstep
    subst hstep
    exact ⟨outcomes, by simp [Rx.outcome], h.filled.congr rfl rfl, h.toGet, h.busy, h.serves, h.log⟩
  | irq =>
    rcases s with ⟨eth, dmaDesc, pc, arrivals, log, late⟩
    cases pc with
    | idle =>
      rw [Rx.step, Option.ite_none_right_eq_some, Option.some.injEq] at hstep
      rcases hstep with ⟨-, rfl⟩
      exact ⟨outcomes, by simp [Rx.outcome, RxPc.settled], h.filled, h.toGet, h.busy, h.serves, h.log⟩
    | _ => contradiction
  | cpu p err =>
    rcases h.cpu hstep with ⟨outcomes', heq, h'⟩
    refine ⟨outcomes', ?_, h'⟩
    rw [heq, List.append_assoc, List.append_assoc, Rx.settled_cpu hstep]

theorem run {t : Rx} {as : List RxAct} (h : Fifo outcomes s) (hgood : ∀ a ∈ as, a.Good)
    (hrun : Transition.run Rx.step s as = some t)
    : ∃ outcomes', outcomes' ++ t.pc.settled = outcomes ++ s.pc.settled ++ s.outcomes as
        ∧ Fifo outcomes' t := by
  induction as generalizing outcomes s with
  | nil =>
    rw [run_nil, Option.some.injEq] at hrun
    exact ⟨outcomes, by simp [hrun, Rx.outcomes], hrun ▸ h⟩
  | cons a as ih =>
    rcases run_cons_eq_some.mp hrun with ⟨s', hstep, hrun'⟩
    rcases List.forall_mem_cons.mp hgood with ⟨ha, has⟩
    rcases h.step ha hstep with ⟨outcomes', heq, h'⟩
    rcases ih h' has hrun' with ⟨outcomes'', heq', h''⟩
    refine ⟨outcomes'', ?_, h''⟩
    simp only [heq', heq, Rx.outcomes, hstep, List.append_assoc]

theorem powerOn : Fifo [] Rx.powerOn := by
  have hempty : ∀ i, ¬ Rx.powerOn.eth.HandedOver i := by decide
  refine ⟨⟨by decide, ⟨Nat.le_refl 0, Nat.zero_le _, ?_⟩, rfl, ?_⟩, rfl, False.elim, trivial, rfl⟩
  . intro k _ _
    apply iff_of_false
    . exact hempty _
    . exact Nat.not_lt_zero k
  . intro k data _ hdata
    contradiction

end Fifo

namespace Rx

theorem arrivals_cpu {s s' : Rx} {p : Option (List Pbuf)} {err : ErrT}
    (hstep : s.cpu p err = some s')
    : s'.arrivals = s.arrivals ∧ s'.late = s.late := by
  cases cpuStep_of_cpu hstep <;> exact ⟨rfl, rfl⟩

theorem arrivals_step {s s' : Rx} {a : RxAct} (hstep : s.step a = some s')
    : s'.arrivals = s.arrivals ++ a.arrival.toList := by
  cases a with
  | dma status data =>
    rw [step, dma, Option.ite_none_left_eq_some, Option.some.injEq] at hstep
    rcases hstep with ⟨-, rfl⟩
    rfl
  | rbu =>
    cases hstep
    exact (List.append_nil _).symm
  | irq =>
    rw [step] at hstep
    split at hstep
    . rw [Option.ite_none_right_eq_some] at hstep
      rcases hstep with ⟨-, ⟨⟩⟩
      exact (List.append_nil _).symm
    . contradiction
  | cpu p err => simp [(arrivals_cpu hstep).1, RxAct.arrival]

theorem arrivals_run {s t : Rx} {as : List RxAct} (hrun : run step s as = some t)
    : t.arrivals = s.arrivals ++ as.filterMap RxAct.arrival := by
  induction as generalizing s with
  | nil =>
    rw [run_nil, Option.some.injEq] at hrun
    simp [hrun]
  | cons a as ih =>
    rcases run_cons_eq_some.mp hrun with ⟨s', hs', hrun'⟩
    rw [ih hrun', arrivals_step hs', List.append_assoc]
    cases ha : a.arrival <;> simp [ha]

theorem exists_fifo {t : Rx} {as : List RxAct} (hgood : ∀ a ∈ as, a.Good)
    (hrun : run step powerOn as = some t)
    : ∃ outcomes, outcomes ++ t.pc.settled = powerOn.outcomes as ∧ Fifo outcomes t :=
  Fifo.powerOn.run hgood hrun

/--
The handler has done, in arrival order, what `frameLog` says for the frames that are done and the first
part of it for the frame it is working on. The descriptors of these frames are the DMA's again, up to that
of the frame it is working on, and `DMARxDescToGet` is behind them. `low_level_input` starts with a
descriptor of the driver's and writes to it at the end. The handler leaves its loop when no frame is left.
-/
structure InOrder (done : List Outcome) (s : Rx) : Prop where
  log : s.log = framesLog 0 s.arrivals done ++ s.pc.soFar done.length (s.arrivals.getD done.length [])
  window : Window s.eth.HandedOver (s.pc.returned done.length) s.arrivals.length
  toGet : s.eth.dmaRxDescToGet = slot _ (s.pc.taken done.length)
  test : s.pc = .test → (s.eth.ethGetRxPktSize ≠ 0 ↔ done.length < s.arrivals.length)
  rxPkt : s.pc = .rxPkt → s.eth.HandedOver s.eth.dmaRxDescToGet
  giveBack : ∀ frame p, s.pc = .giveBack frame p → frame.descriptor = some (slot _ done.length)
  leaves : ∀ p err s', s.cpu p err = some s' → s'.pc = .clearR → done.length = s.arrivals.length

theorem inOrder_of_fifo {s : Rx} {done : List Outcome} (h : Fifo done s) : InOrder done s := by
  refine ⟨h.log, h.filled.window, h.toGet, h.ethGetRxPktSize_ne_zero_iff, ?_, ?_, ?_⟩
  . intro hpc
    have htoGet := h.toGet
    have hfull := h.filled.window.full_lo_iff
    have hlt := h.busy (hpc ▸ trivial)
    rw [hpc] at htoGet hfull
    rw [htoGet]
    exact hfull.mpr hlt
  . intro frame p hpc
    have hserves := h.serves
    rw [hpc] at hserves
    exact hserves.1.descriptor
  . intro p err s' hstep hpc'
    cases cpuStep_of_cpu hstep with
    | testDone hpc hsize =>
      have hdone := mt (h.ethGetRxPktSize_ne_zero_iff hpc).mpr (not_not_intro hsize)
      exact Nat.le_antisymm h.le (Nat.le_of_not_lt hdone)
    | _ => cases hpc'

theorem draining_of_fifo {s : Rx} {done : List Outcome} (h : Fifo done s)
    (hR : s.pc ≠ .clearR) (hNis : s.pc ≠ .clearNis) (hidle : s.pc ≠ .idle)
    : s.Draining s.eth (s.pc.returned done.length) s.arrivals.length := by
  have hholds := h.holds
  have htoGet := h.toGet
  have hbusy := h.busy
  have hserves := h.serves
  unfold Draining
  cases hpc : s.pc with
  | clearR | clearNis | idle => contradiction
  | test | resume chain | input chain =>
    rw [hpc] at htoGet
    exact htoGet
  | rxPkt =>
    rw [hpc] at htoGet hbusy hholds
    have hlt := hbusy trivial
    exact ⟨htoGet, hlt, (hholds rfl hlt).1.serviceable⟩
  | alloc frame =>
    rw [hpc] at htoGet hbusy hholds hserves
    have hlt := hbusy trivial
    exact ⟨htoGet, hlt, (hholds rfl hlt).1.serviceable, hserves.descriptor⟩
  | memcpy frame copied todo l | giveBack frame chain =>
    rw [hpc] at htoGet hbusy hholds hserves
    have hlt := hbusy trivial
    exact ⟨htoGet, hlt, (hholds rfl hlt).1.serviceable, hserves.1.descriptor⟩

theorem inevitably_of_cpu {goal : Rx → Prop} {s s' : Rx} (hcpu : ∀ p err, s.cpu p err = some s')
    (h : Inevitably step (fun _ a => a.OfHandler) goal s')
    : Inevitably step (fun _ a => a.OfHandler) goal s := by
  refine .later ⟨.cpu none .ok, trivial, by simp [step, hcpu]⟩ ?_
  rintro (_ | _ | _ | ⟨p, err⟩) t hok hstep
  . contradiction
  . contradiction
  . contradiction
  . rw [step, hcpu, Option.some.injEq] at hstep
    exact hstep ▸ h

theorem returns_of_clearNis {s : Rx} (hpc : s.pc = .clearNis)
    : Inevitably step (fun _ a => a.OfHandler) (fun t => t.pc = .idle) s :=
  inevitably_of_cpu (fun _ _ => by rw [cpu, hpc]) (.now rfl)

theorem returns_of_clearR {s : Rx} (hpc : s.pc = .clearR)
    : Inevitably step (fun _ a => a.OfHandler) (fun t => t.pc = .idle) s :=
  inevitably_of_cpu (fun _ _ => by rw [cpu, hpc]) (returns_of_clearNis rfl)

theorem returns_of_fifo {s : Rx} {done : List Outcome} (h : Fifo done s)
    : Inevitably step (fun _ a => a.OfHandler) (fun t => t.pc = .idle) s := by
  by_cases hR : s.pc = .clearR
  . exact returns_of_clearR hR
  by_cases hNis : s.pc = .clearNis
  . exact returns_of_clearNis hNis
  by_cases hidle : s.pc = .idle
  . exact .now hidle
  have hdrained := drained_self h.filled.chained h.filled.window
  exact (returns_of_draining hdrained (draining_of_fifo h hR hNis hidle)).mono fun _ => And.left

def twoFrames : List RxAct :=
  let seg : Pbuf := { payload := fun _ => 0, totLen := 1, len := 1 }
  let next := RxAct.cpu none .ok
  [.dma 0x00060300 fun l => UInt8.ofNat l, .irq, next, next, next, next, next, next,
    .dma 0x00060300 fun _ => 0xA5, next, next, .cpu (some [seg, seg]) .ok, next, next, next, next,
    next, .cpu none .mem, next, next, next]

def twoFramesDone : Rx := (run step powerOn twoFrames).get (by decide)

-- The first frame finds no chain, and `netif->input` refuses the second one.
example : powerOn.outcomes twoFrames = [.noPbuf, .input .mem] := by decide

example : twoFramesDone.log = framesLog 0 [[0, 1], [0xA5, 0xA5]] [.noPbuf, .input .mem] := by decide

end Rx

end SerialGateway
