import SerialGateway.Tcp.SenderQueue

/-!
This module contains the receiving half of a TCP connection: what `tcp_receive` takes from the segments that
arrive (`tcp_in.c`), how `tcp_input` and `tcp_fasttmr` hand it to the application, and the window that is
announced to the peer (`tcp.c`).
-/

open SerialNumber

namespace SerialGateway

def tcpSeqGt (a b : SeqNo) : Bool := diff a b > 0

/--
A segment without SYN and RST that gets to `tcp_receive`.
-/
structure InSeg where
  seqno : SeqNo
  data : List UInt8
  fin : Bool
  deriving DecidableEq

namespace InSeg

def tcpTcplen (seg : InSeg) : Nat := seg.data.length + if seg.fin then 1 else 0

def items (seg : InSeg) : List SeqItem := ({ fin := seg.fin } : TcpFlags).items seg.data

end InSeg

structure Announcement where
  ackno : SeqNo
  wnd : UInt16
  pos : Nat
  deriving DecidableEq

/--
The fields of `struct tcp_pcb` that receiving uses. No step reads `irs`, the number `rcvd` of items that
were taken, the data `taken` that the application accepted, the number `eof` of ends of file it was told,
`annEdge`, the position of `rcv_ann_right_edge`, and the list `sent` of what was announced.
-/
structure TcpReceiver where
  mss : UInt16
  rcvNxt : SeqNo
  rcvWnd : UInt16
  rcvAnnWnd : UInt16
  rcvAnnRightEdge : SeqNo
  refusedData : Option (List UInt8)
  irs : SeqNo
  rcvd : Nat
  taken : List UInt8
  eof : Nat
  annEdge : Nat
  sent : List Announcement

def tcpWnd : UInt16 := 2920

/--
What a callback of the application does with data: `recved` is its call of `tcp_recved`.
-/
structure Reply where
  accept : Bool
  recved : Option UInt16

namespace TcpReceiver

def start (mss : UInt16) (irs : SeqNo) : TcpReceiver where
  mss
  rcvNxt := irs + 1
  rcvWnd := tcpWnd
  rcvAnnWnd := tcpWnd
  rcvAnnRightEdge := irs + 1
  refusedData := none
  irs
  rcvd := 1
  taken := []
  eof := 0
  annEdge := 1
  sent := []

def tcpUpdateRcvAnnWnd (s : TcpReceiver) : TcpReceiver × SeqNo :=
  let newRightEdge := s.rcvNxt + BitVec.ofNat 32 s.rcvWnd.toNat
  let step := min (tcpWnd.toNat / 2) s.mss.toNat
  if tcpSeqGeq newRightEdge (s.rcvAnnRightEdge + BitVec.ofNat 32 step) then
    ({ s with rcvAnnWnd := s.rcvWnd }, newRightEdge - s.rcvAnnRightEdge)
  else if tcpSeqGt s.rcvNxt s.rcvAnnRightEdge then
    ({ s with rcvAnnWnd := 0 }, 0)
  else
    ({ s with rcvAnnWnd := UInt16.ofNat (s.rcvAnnRightEdge - s.rcvNxt).toNat }, 0)

def announce (s : TcpReceiver) : TcpReceiver :=
  { s with
    rcvAnnRightEdge := s.rcvNxt + BitVec.ofNat 32 s.rcvAnnWnd.toNat
    annEdge := s.rcvd + s.rcvAnnWnd.toNat
    sent := s.sent ++ [⟨s.rcvNxt, s.rcvAnnWnd, s.rcvd⟩] }

/--
`tcp_recved` up to the ACK that it may send.
-/
def tcpRecved (s : TcpReceiver) (len : UInt16) : TcpReceiver :=
  let rcvWnd := s.rcvWnd + len
  let rcvWnd := if rcvWnd > tcpWnd then tcpWnd else rcvWnd
  ({ s with rcvWnd } : TcpReceiver).tcpUpdateRcvAnnWnd.1

def trimFront (s : TcpReceiver) (seg : InSeg) : InSeg :=
  if tcpSeqBetween s.rcvNxt (seg.seqno + 1) (seg.seqno + BitVec.ofNat 32 seg.tcpTcplen - 1) then
    { seg with seqno := s.rcvNxt, data := seg.data.drop (s.rcvNxt - seg.seqno).toNat }
  else
    seg

def trimWnd (s : TcpReceiver) (seg : InSeg) : InSeg :=
  if seg.tcpTcplen > s.rcvWnd.toNat then { seg with data := seg.data.take s.rcvWnd.toNat, fin := false } else seg

def inWindow (s : TcpReceiver) (seqno : SeqNo) : Bool :=
  tcpSeqBetween seqno s.rcvNxt (s.rcvNxt + BitVec.ofNat 32 s.rcvWnd.toNat - 1)

def take (s : TcpReceiver) (seg : InSeg) : TcpReceiver :=
  ({ s with
    rcvNxt := seg.seqno + BitVec.ofNat 32 seg.tcpTcplen
    rcvWnd := s.rcvWnd - UInt16.ofNat seg.tcpTcplen
    rcvd := s.rcvd + seg.tcpTcplen } : TcpReceiver).tcpUpdateRcvAnnWnd.1

/--
The part of `tcp_receive` for data, up to `recv_data` and `TF_GOT_FIN`. Segments that are out of sequence
are not queued.
-/
def tcpReceive (s : TcpReceiver) (seg : InSeg) : TcpReceiver × List UInt8 × Bool :=
  if seg.tcpTcplen > 0 then
    let seg := s.trimFront seg
    if s.inWindow seg.seqno then
      if s.rcvNxt = seg.seqno then
        let seg := s.trimWnd seg
        (s.take seg, seg.data, seg.fin)
      else
        -- `tcp_send_empty_ack`
        (s.announce, [], false)
    else
      (s.announce, [], false)
  else
    (s, [], false)

def eventRecv (s : TcpReceiver) (p : List UInt8) (reply : Reply) : TcpReceiver :=
  let s :=
    match reply.recved with
    | some len => s.tcpRecved len
    | none => s
  if reply.accept then { s with taken := s.taken ++ p, refusedData := none } else { s with refusedData := some p }

def notifyRefused (s : TcpReceiver) (reply : Reply) : TcpReceiver :=
  match s.refusedData with
  | some p => s.eventRecv p reply
  | none => s

def tcpInput (s : TcpReceiver) (seg : InSeg) (refused new : Reply) : TcpReceiver :=
  let s := s.notifyRefused refused
  if s.refusedData.isSome then
    s
  else
    let (s, recvData, gotFin) := s.tcpReceive seg
    let s := if recvData = [] then s else s.eventRecv recvData new
    if gotFin then { s with eof := s.eof + 1 } else s

end TcpReceiver

inductive RecvAct where
  | input (seg : InSeg) (refused new : Reply)
  | recved (len : UInt16)
  | fasttmr (reply : Reply)
  | mssOption (mss : UInt16)
  | sent

namespace TcpReceiver

def step (s : TcpReceiver) : RecvAct → Option TcpReceiver
  | .input seg refused new => some (s.tcpInput seg refused new)
  | .recved len => some (s.tcpRecved len)
  | .fasttmr reply => some (s.notifyRefused reply)
  | .mssOption mss => some { s with mss := TcpSender.parseMss mss }
  | .sent => some s.announce

end TcpReceiver

end SerialGateway
