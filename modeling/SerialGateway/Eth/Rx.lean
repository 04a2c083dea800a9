import Mathlib.Logic.Function.Basic
import SerialGateway.Eth.Descriptor
import SerialGateway.Lib.Transition
import SerialGateway.Lwip.Pbuf

/-!
This module contains the receive path of the Ethernet driver, from `ETH_IRQHandler` down to
`ETH_RxPkt_ChainMode`, as single statements between which the DMA can complete further frames.
-/

open Ring

namespace SerialGateway

/--
What the DMA shares with the driver, and the driver's position in the ring. `rxBuff` is the memory
from `Rx_Buff` on.
-/
structure EthRx where
  dmaRxDscrTab : Fin ethRxBufNb → DmaDesc ethRxBufNb
  dmaRxDescToGet : Fin ethRxBufNb
  dmasr : BitVec 32
  rxBuff : Nat → UInt8

structure FrameTypeDef where
  length : BitVec 32
  buffer : Option Nat
  descriptor : Option (Fin ethRxBufNb)

def WholeFrame (status : BitVec 32) : Prop :=
  status &&& dmaRxDescEs = 0 ∧ status &&& dmaRxDescLs ≠ 0 ∧ status &&& dmaRxDescFs ≠ 0

instance (status : BitVec 32) : Decidable (WholeFrame status) :=
  inferInstanceAs (Decidable (_ ∧ _ ∧ _))

def frameLength (status : BitVec 32) : BitVec 32 :=
  (status &&& dmaRxDescFl) >>> dmaRxDescFrameLengthShift

namespace EthRx

def head (e : EthRx) : DmaDesc ethRxBufNb := e.dmaRxDscrTab e.dmaRxDescToGet

def HandedOver (e : EthRx) (i : Fin ethRxBufNb) : Prop :=
  (e.dmaRxDscrTab i).status &&& dmaRxDescOwn = 0

instance (e : EthRx) (i : Fin ethRxBufNb) : Decidable (e.HandedOver i) :=
  inferInstanceAs (Decidable (_ = _))

def ethGetRxPktSize (e : EthRx) : BitVec 32 :=
  if e.HandedOver e.dmaRxDescToGet ∧ WholeFrame e.head.status then
    frameLength e.head.status
  else
    0

def resumeReception (e : EthRx) : EthRx :=
  -- the poll demand written along with it only resumes a suspended DMA
  if e.dmasr &&& dmasrRbus ≠ 0 then
    { e with dmasr := clearDmasr e.dmasr dmasrRbus }
  else
    e

def ethRxPktChainMode (e : EthRx) : EthRx × FrameTypeDef :=
  if ¬ e.HandedOver e.dmaRxDescToGet then
    (e.resumeReception, { length := ethError, buffer := none, descriptor := none })
  else
    let frame : FrameTypeDef :=
      if WholeFrame e.head.status then
        { length := frameLength e.head.status - 4
          buffer := some e.head.buffer1Addr
          descriptor := some e.dmaRxDescToGet }
      else
        { length := ethError, buffer := none, descriptor := some e.dmaRxDescToGet }
    ({ e with dmaRxDescToGet := e.head.buffer2NextDescAddr }, frame)

def bufferAt (e : EthRx) (buffer : Option Nat) (l : Nat) : UInt8 :=
  match buffer with
  | some addr => e.rxBuff (addr + l)
  | none => 0

def giveBack (e : EthRx) (i : Fin ethRxBufNb) : EthRx :=
  { e with
    dmaRxDscrTab := Function.update e.dmaRxDscrTab i
      { e.dmaRxDscrTab i with status := dmaRxDescOwn } }

end EthRx

/--
The next statement of the handler. From `alloc` to `resume` it is in `low_level_input`; `p` is the
chain, `none` if `pbuf_alloc` returned `NULL`, and `l` the bytes copied so far.
-/
inductive RxPc where
  | idle
  | test
  | rxPkt
  | alloc (frame : FrameTypeDef)
  | memcpy (frame : FrameTypeDef) (copied todo : List Pbuf) (l : Nat)
  | giveBack (frame : FrameTypeDef) (p : Option (List Pbuf))
  | resume (p : Option (List Pbuf))
  | input (p : Option (List Pbuf))
  | clearR
  | clearNis

inductive RxEvent where
  | pbufAlloc (len : Nat) (ok : Bool)
  | copied (data : List UInt8)
  | giveBack (i : Fin ethRxBufNb)
  | input (data : List UInt8) (err : ErrT)
  | pbufFree (data : List UInt8)
  deriving DecidableEq

/--
`dmaDesc` is the descriptor the DMA fills next, `arrivals` are the frames it completed, without their
checksums, and `late` tells that it completed the last one after the handler's last test and before
the clearing of the receive bit.
-/
structure Rx where
  eth : EthRx
  dmaDesc : Fin ethRxBufNb
  pc : RxPc
  arrivals : List (List UInt8)
  log : List RxEvent
  late : Bool

/--
`dma` completes a frame, `rbu` finds no descriptor for one, `irq` enters the handler. `cpu` is the
handler's next statement with the outcomes of `pbuf_alloc` and `netif->input`, which only matter where
it calls them.
-/
inductive RxAct where
  | dma (status : BitVec 32) (data : Nat → UInt8)
  | rbu
  | irq
  | cpu (p : Option (List Pbuf)) (err : ErrT)

namespace Rx

def powerOn : Rx where
  eth :=
    { dmaRxDscrTab := dmaRxDescChainInit
      dmaRxDescToGet := slot _ 0
      dmasr := 0
      rxBuff := fun _ => 0 }
  dmaDesc := slot _ 0
  pc := .idle
  arrivals := []
  log := []
  late := false

def payload (status : BitVec 32) (data : Nat → UInt8) : List UInt8 :=
  (List.range ((frameLength status).toNat - 4)).map data

def dma (s : Rx) (status : BitVec 32) (data : Nat → UInt8) : Option Rx :=
  let desc := s.eth.dmaRxDscrTab s.dmaDesc
  if s.eth.HandedOver s.dmaDesc then
    none
  else
    some { s with
      eth := { s.eth with
        dmaRxDscrTab := Function.update s.eth.dmaRxDscrTab s.dmaDesc { desc with status := status }
        rxBuff := fun a =>
          if desc.buffer1Addr ≤ a ∧ a < desc.buffer1Addr + ethMaxPacketSize then
            data (a - desc.buffer1Addr)
          else
            s.eth.rxBuff a
        dmasr := s.eth.dmasr ||| dmasrR ||| dmasrNis }
      dmaDesc := desc.buffer2NextDescAddr
      arrivals := s.arrivals ++ [payload status data]
      late := s.pc matches .clearR }

def cpu (s : Rx) (p : Option (List Pbuf)) (err : ErrT) : Option Rx :=
  match s.pc with
  | .idle => none
  | .test => some { s with pc := if s.eth.ethGetRxPktSize ≠ 0 then .rxPkt else .clearR }
  | .rxPkt =>
    let (eth, frame) := s.eth.ethRxPktChainMode
    some { s with eth := eth, pc := .alloc frame }
  | .alloc frame =>
    -- `len` is an `uint16_t`
    let len := (frame.length.setWidth 16).toNat
    match p with
    | none => some { s with pc := .giveBack frame none, log := s.log ++ [.pbufAlloc len false] }
    | some segs =>
      if (segs.map (·.len.toNat)).sum = len then
        some { s with pc := .memcpy frame [] segs 0, log := s.log ++ [.pbufAlloc len true] }
      else
        none
  | .memcpy frame copied [] _ =>
    some { s with
      pc := .giveBack frame (some copied), log := s.log ++ [.copied (chainData copied)] }
  | .memcpy frame copied (q :: todo) l =>
    let q := q.memcpy fun i => s.eth.bufferAt frame.buffer (l + i)
    some { s with pc := .memcpy frame (copied ++ [q]) todo (l + q.len.toNat) }
  | .giveBack frame p =>
    match frame.descriptor with
    -- a write through the null pointer
    | none => none
    | some i =>
      some { s with eth := s.eth.giveBack i, pc := .resume p, log := s.log ++ [.giveBack i] }
  | .resume p => some { s with eth := s.eth.resumeReception, pc := .input p }
  | .input none => some { s with pc := .test }
  | .input (some segs) =>
    let data := chainData segs
    some { s with
      pc := .test
      log := s.log ++ [.input data err] ++ if err ≠ .ok then [.pbufFree data] else [] }
  | .clearR =>
    some { s with eth := { s.eth with dmasr := clearDmasr s.eth.dmasr dmasrR }, pc := .clearNis }
  | .clearNis =>
    some { s with eth := { s.eth with dmasr := clearDmasr s.eth.dmasr dmasrNis }, pc := .idle }

def Pending (s : Rx) : Prop := s.eth.dmasr &&& dmasrR ≠ 0

instance (s : Rx) : Decidable s.Pending := inferInstanceAs (Decidable (_ ≠ _))

def step (s : Rx) : RxAct → Option Rx
  | .dma status data => s.dma status data
  | .rbu => some { s with eth := { s.eth with dmasr := s.eth.dmasr ||| dmasrRbus } }
  | .irq =>
    match s.pc with
    | .idle => if s.Pending then some { s with pc := .test } else none
    | _ => none
  | .cpu p err => s.cpu p err

end Rx

inductive CpuStep (p : Option (List Pbuf)) (err : ErrT) (s : Rx) : Rx → Prop where
  | testFrame (hpc : s.pc = .test) (hsize : s.eth.ethGetRxPktSize ≠ 0)
      : CpuStep p err s { s with pc := .rxPkt }
  | testDone (hpc : s.pc = .test) (hsize : s.eth.ethGetRxPktSize = 0)
      : CpuStep p err s { s with pc := .clearR }
  | rxPkt (hpc : s.pc = .rxPkt)
      : CpuStep p err s { s with
          eth := s.eth.ethRxPktChainMode.1, pc := .alloc s.eth.ethRxPktChainMode.2 }
  | allocNull (frame : FrameTypeDef) (hpc : s.pc = .alloc frame) (hp : p = none)
      : CpuStep p err s { s with
          pc := .giveBack frame none
          log := s.log ++ [.pbufAlloc (frame.length.setWidth 16).toNat false] }
  | alloc (frame : FrameTypeDef) (segs : List Pbuf) (hpc : s.pc = .alloc frame)
      (hsum : (segs.map (·.len.toNat)).sum = (frame.length.setWidth 16).toNat) (hp : p = some segs)
      : CpuStep p err s { s with
          pc := .memcpy frame [] segs 0
          log := s.log ++ [.pbufAlloc (frame.length.setWidth 16).toNat true] }
  | memcpyDone (frame : FrameTypeDef) (copied : List Pbuf) (l : Nat)
      (hpc : s.pc = .memcpy frame copied [] l)
      : CpuStep p err s { s with
          pc := .giveBack frame (some copied), log := s.log ++ [.copied (chainData copied)] }
  | memcpy (frame : FrameTypeDef) (copied : List Pbuf) (q : Pbuf) (todo : List Pbuf) (l : Nat)
      (hpc : s.pc = .memcpy frame copied (q :: todo) l)
      : CpuStep p err s { s with
          pc := .memcpy frame
            (copied ++ [q.memcpy fun i => s.eth.bufferAt frame.buffer (l + i)]) todo
            (l + q.len.toNat) }
  | giveBack (frame : FrameTypeDef) (chain : Option (List Pbuf)) (i : Fin ethRxBufNb)
      (hpc : s.pc = .giveBack frame chain) (hdesc : frame.descriptor = some i)
      : CpuStep p err s { s with
          eth := s.eth.giveBack i, pc := .resume chain, log := s.log ++ [.giveBack i] }
  | resume (chain : Option (List Pbuf)) (hpc : s.pc = .resume chain)
      : CpuStep p err s { s with eth := s.eth.resumeReception, pc := .input chain }
  | inputNull (hpc : s.pc = .input none)
      : CpuStep p err s { s with pc := .test }
  | input (segs : List Pbuf) (hpc : s.pc = .input (some segs))
      : CpuStep p err s { s with
          pc := .test
          log := s.log ++ [.input (chainData segs) err]
            ++ if err ≠ .ok then [.pbufFree (chainData segs)] else [] }
  | clearR (hpc : s.pc = .clearR)
      : CpuStep p err s { s with
          eth := { s.eth with dmasr := clearDmasr s.eth.dmasr dmasrR }, pc := .clearNis }
  | clearNis (hpc : s.pc = .clearNis)
      : CpuStep p err s { s with
          eth := { s.eth with dmasr := clearDmasr s.eth.dmasr dmasrNis }, pc := .idle }

namespace Rx

theorem cpuStep_of_cpu {s s' : Rx} {p : Option (List Pbuf)} {err : ErrT}
    (h : s.cpu p err = some s')
    : CpuStep p err s s' := by
  unfold cpu at h
  split at h
  . cases h
  . next hpc =>
    by_cases hsize : s.eth.ethGetRxPktSize = 0
    . simp only [hsize, ne_eq, not_true_eq_false, ↓reduceIte, Option.some.injEq] at h
      subst h
      exact .testDone hpc hsize
    . simp only [ne_eq, hsize, not_false_eq_true, ↓reduceIte, Option.some.injEq] at h
      subst h
      exact .testFrame hpc hsize
  . next hpc =>
    cases h
    exact .rxPkt hpc
  . next frame hpc =>
    cases p with
    | none =>
      cases h
      exact .allocNull frame hpc rfl
    | some segs =>
      rw [Option.ite_none_right_eq_some] at h
      rcases h with ⟨hsum, ⟨⟩⟩
      exact .alloc frame segs hpc hsum rfl
  . next frame copied l hpc =>
    cases h
    exact .memcpyDone frame copied l hpc
  . next frame copied q todo l hpc =>
    cases h
    exact .memcpy frame copied q todo l hpc
  . next frame chain hpc =>
    cases hdesc : frame.descriptor with
    | none => simp [hdesc] at h
    | some i =>
      simp only [hdesc, Option.some.injEq] at h
      subst h
      exact .giveBack frame chain i hpc hdesc
  . next chain hpc =>
    cases h
    exact .resume chain hpc
  . next hpc =>
    cases h
    exact .inputNull hpc
  . next segs hpc =>
    cases h
    exact .input segs hpc
  . next hpc =>
    cases h
    exact .clearR hpc
  . next hpc =>
    cases h
    exact .clearNis hpc

end Rx

end SerialGateway
