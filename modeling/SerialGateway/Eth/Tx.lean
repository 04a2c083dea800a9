import Mathlib.Logic.Function.Basic
import SerialGateway.Eth.Descriptor
import SerialGateway.Lib.Transition
import SerialGateway.Lwip.Pbuf

/-!
This module contains the transmit path of the Ethernet driver, `low_level_output` and what it calls, as
single statements between which the DMA can finish descriptors.
-/

open Ring

namespace SerialGateway

structure EthTx where
  dmaTxDscrTab : Fin ethTxBufNb → DmaDesc ethTxBufNb
  dmaTxDescToSet : Fin ethTxBufNb
  dmasr : BitVec 32
  txBuff : Nat → UInt8

namespace EthTx

def Owned (e : EthTx) (i : Fin ethTxBufNb) : Prop :=
  (e.dmaTxDscrTab i).status &&& dmaTxDescOwn ≠ 0

instance (e : EthTx) (i : Fin ethTxBufNb) : Decidable (e.Owned i) :=
  inferInstanceAs (Decidable (_ ≠ _))

def frame (e : EthTx) (i : Fin ethTxBufNb) : List UInt8 :=
  let desc := e.dmaTxDscrTab i
  (List.range (desc.controlBufferSize &&& dmaTxDescTbs1).toNat).map fun l =>
    e.txBuff (desc.buffer1Addr + l)

def ethGetCurrentTxBuffer (e : EthTx) : Nat := (e.dmaTxDscrTab e.dmaTxDescToSet).buffer1Addr

def memcpy (e : EthTx) (addr : Nat) (q : Pbuf) : EthTx :=
  { e with
    txBuff := fun a =>
      if addr ≤ a ∧ a < addr + q.len.toNat then q.payload (a - addr) else e.txBuff a }

def Overwrites (e : EthTx) (addr len : Nat) : Prop :=
  0 < len ∧ ∃ i, e.Owned i ∧ addr < (e.dmaTxDscrTab i).buffer1Addr + ethMaxPacketSize
    ∧ (e.dmaTxDscrTab i).buffer1Addr < addr + len

instance (e : EthTx) (addr len : Nat) : Decidable (e.Overwrites addr len) :=
  inferInstanceAs (Decidable (_ ∧ ∃ _, _))

def ethTxPktChainMode (e : EthTx) (frameLength : BitVec 16) : EthTx × BitVec 32 :=
  let desc := e.dmaTxDscrTab e.dmaTxDescToSet
  if e.Owned e.dmaTxDescToSet then
    (e, ethError)
  else
    let desc :=
      { desc with
        controlBufferSize := frameLength.setWidth 32 &&& dmaTxDescTbs1
        status := desc.status ||| (dmaTxDescLs ||| dmaTxDescFs) ||| dmaTxDescOwn }
    ({ e with
        dmaTxDscrTab := Function.update e.dmaTxDscrTab e.dmaTxDescToSet desc
        dmasr :=
          -- the poll demand written along with it only resumes a suspended DMA
          if e.dmasr &&& dmasrTbus ≠ 0 then clearDmasr e.dmasr dmasrTbus else e.dmasr
        dmaTxDescToSet := desc.buffer2NextDescAddr },
      ethSuccess)

end EthTx

inductive TxPc where
  | idle
  | getBuffer (p : List Pbuf)
  | memcpy (p : List Pbuf) (buffer : Nat) (todo : List Pbuf) (l : Nat)
  | txPkt (p : List Pbuf) (l : Nat)

/--
`dmaDesc` is the descriptor the DMA transmits next, `sent` are the frames it has transmitted, `returned`
the calls of `low_level_output` that have returned, and `overwrote` tells that one of them has written into
a buffer of the DMA's.
-/
structure Tx where
  eth : EthTx
  dmaDesc : Fin ethTxBufNb
  pc : TxPc
  sent : List (List UInt8)
  returned : List (List UInt8 × ErrT)
  overwrote : Bool

/--
`call` enters `low_level_output`, which disables the interrupts, so that the calls do not overlap, and
`cpu` is its next statement. `dma` transmits a frame and hands its descriptor back with the given status
word, `tbu` finds none to transmit.
-/
inductive TxAct where
  | call (p : List Pbuf)
  | cpu
  | dma (status : BitVec 32)
  | tbu

namespace Tx

def powerOn : Tx where
  eth :=
    { dmaTxDscrTab := fun i => dmaTxDescChainInit
        { status := 0, controlBufferSize := 0, buffer1Addr := 0, buffer2NextDescAddr := slot _ 0 } i
      dmaTxDescToSet := slot _ 0
      dmasr := 0
      txBuff := fun _ => 0 }
  dmaDesc := slot _ 0
  pc := .idle
  sent := []
  returned := []
  overwrote := false

def dma (s : Tx) (status : BitVec 32) : Option Tx :=
  let desc := s.eth.dmaTxDscrTab s.dmaDesc
  if s.eth.Owned s.dmaDesc ∧ status &&& dmaTxDescOwn = 0 then
    some { s with
      eth := { s.eth with
        dmaTxDscrTab := Function.update s.eth.dmaTxDscrTab s.dmaDesc { desc with status := status } }
      dmaDesc := desc.buffer2NextDescAddr
      sent := s.sent ++ [s.eth.frame s.dmaDesc] }
  else
    none

def cpu (s : Tx) : Option Tx :=
  match s.pc with
  | .idle => none
  | .getBuffer p => some { s with pc := .memcpy p s.eth.ethGetCurrentTxBuffer p 0 }
  | .memcpy p _ [] l => some { s with pc := .txPkt p l }
  | .memcpy p buffer (q :: todo) l =>
    some { s with
      eth := s.eth.memcpy (buffer + l) q
      pc := .memcpy p buffer todo (l + q.len.toNat)
      overwrote := s.overwrote || s.eth.Overwrites (buffer + l) q.len.toNat }
  | .txPkt p l =>
    -- the result is dropped, `ERR_OK` is returned in any case
    let (eth, _) := s.eth.ethTxPktChainMode (BitVec.ofNat 16 l)
    some { s with eth := eth, pc := .idle, returned := s.returned ++ [(chainData p, .ok)] }

def step (s : Tx) : TxAct → Option Tx
  | .call p =>
    match s.pc with
    | .idle => some { s with pc := .getBuffer p }
    | _ => none
  | .cpu => s.cpu
  | .dma status => s.dma status
  | .tbu => some { s with eth := { s.eth with dmasr := s.eth.dmasr ||| dmasrTbus } }

def accepted (returned : List (List UInt8 × ErrT)) : List (List UInt8) :=
  returned.filterMap fun (data, err) => if err = .ok then some data else none

def inFlight (s : Tx) : List (List UInt8) :=
  let slots := (List.range ethTxBufNb).map fun k => slot _ (s.dmaDesc.val + k)
  (slots.takeWhile fun i => s.eth.Owned i).map s.eth.frame

end Tx

end SerialGateway
