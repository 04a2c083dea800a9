import SerialGateway.Lib.SerialNumber
import SerialGateway.Lib.Slices
import SerialGateway.Tcp.Pcb

/-!
This module contains the sending half of a TCP connection: the queues of segments with their data
(`tcp_out.c`), what the ACKs of the peer do to them (`tcp_process` and `tcp_receive` of `tcp_in.c`) and the
retransmission (`tcp_slowtmr` of `tcp.c`).
-/

open SerialNumber

namespace SerialGateway

abbrev SeqNo : Type := BitVec 32

def tcpSeqLt (a b : SeqNo) : Bool := diff a b < 0

def tcpSeqLeq (a b : SeqNo) : Bool := diff a b ≤ 0

def tcpSeqGeq (a b : SeqNo) : Bool := diff a b ≥ 0

def tcpSeqBetween (a b c : SeqNo) : Bool := tcpSeqGeq a b && tcpSeqLeq a c

inductive SeqItem where
  | syn
  | byte (b : UInt8)
  | fin
  deriving DecidableEq, Repr

structure TcpFlags where
  fin : Bool := false
  syn : Bool := false
  psh : Bool := false
  ack : Bool := false
  deriving DecidableEq, Repr

def TcpFlags.items (flags : TcpFlags) (data : List UInt8) : List SeqItem :=
  (if flags.syn then [.syn] else []) ++ data.map .byte ++ if flags.fin then [.fin] else []

/--
`struct tcp_seg` with its data and the number of its pbufs. No step reads `pos`, the position of its first
item in what was given to the connection for sending.
-/
structure SendSeg where
  seqno : SeqNo
  data : List UInt8
  flags : TcpFlags
  optflags : UInt8
  clen : UInt16
  pos : Nat
  deriving DecidableEq, Repr

namespace SendSeg

def tcpTcplen (seg : SendSeg) : Nat := seg.data.length + if seg.flags.syn || seg.flags.fin then 1 else 0

def items (seg : SendSeg) : List SeqItem := seg.flags.items seg.data

def slice (seg : SendSeg) : Slice SeqItem := ⟨seg.pos, seg.items⟩

end SendSeg

/--
The fields of `struct tcp_pcb` that sending uses. `rtime` tells whether the retransmission timer runs
(`rtime >= 0`), `persist` whether the persist timer does (`persist_backoff > 0`). No step reads `iss`,
`written` (the items that were enqueued), `wire` (the segments that were sent) and `synProbes` (those that
were sent as probes of a SYN).
-/
structure TcpSender where
  state : TcpState
  mss : UInt16
  tfAckDelay : Bool
  tfAckNow : Bool
  tfInfr : Bool
  tfFin : Bool
  tfNodelay : Bool
  tfNagleMemErr : Bool
  sndBuf : UInt16
  sndQueuelen : UInt16
  sndWnd : UInt16
  sndWl1 : SeqNo
  sndWl2 : SeqNo
  sndLbb : SeqNo
  sndNxt : SeqNo
  lastack : SeqNo
  acked : UInt16
  cwnd : UInt16
  ssthresh : UInt16
  dupacks : UInt8
  rtime : Bool
  persist : Bool
  unsent : List SendSeg
  unacked : List SendSeg
  iss : SeqNo
  written : List SeqItem
  wire : List SendSeg
  synProbes : List SendSeg

def tcpMss : UInt16 := 1460

def lwipTcpOptLength (optflags : UInt8) : Nat :=
  (if optflags &&& 1 ≠ 0 then 4 else 0) + if optflags &&& 2 ≠ 0 then 12 else 0

/--
The loop of `tcp_enqueue` that breaks the data up into segments of at most `maxlen` bytes. `segs` is the
number of segments for which there is memory; `none` stands for `goto memerr`.
-/
def SendSeg.enqueue (maxlen : Nat) (flags : TcpFlags) (copy : Bool) (optflags : UInt8)
    : Nat → List UInt8 → SeqNo → Nat → UInt16 → Option (List SendSeg × UInt16)
  | 0, _, _, _, _ => none
  | segs + 1, left, seqno, pos, queuelen =>
    let seglen := if left.length > maxlen then maxlen else left.length
    -- without `TCP_WRITE_FLAG_COPY` the data has a pbuf of its own
    let clen := if !copy && left.length > 0 then 2 else 1
    let queuelen := queuelen + clen
    if queuelen > tcpSndQueuelen then
      none
    else
      let seg := { seqno, data := left.take seglen, flags, optflags, clen, pos }
      match left.drop seglen with
      | [] => some ([seg], queuelen)
      | left =>
        match enqueue maxlen flags copy optflags segs left (seqno + BitVec.ofNat 32 seglen)
          (pos + seglen) queuelen with
        | none => none
        | some (queue, queuelen) => some (seg :: queue, queuelen)

def SendSeg.chains (useg queue : SendSeg) (flags : TcpFlags) (mss : UInt16) : Bool :=
  useg.tcpTcplen != 0
    && !(useg.flags.syn || useg.flags.fin)
    && (!(flags.syn || flags.fin) || flags == { fin := true })
    && useg.data.length + queue.data.length ≤ mss.toNat
    && useg.optflags == queue.optflags
    && useg.seqno + BitVec.ofNat 32 useg.data.length == queue.seqno

def SendSeg.chain (unsent : List SendSeg) (flags : TcpFlags) (copy : Bool) (mss : UInt16) (queue : SendSeg)
    (rest : List SendSeg) (queuelen : UInt16)
    : List SendSeg × UInt16 :=
  match unsent.getLast? with
  | none => (queue :: rest, queuelen)
  | some useg =>
    if useg.chains queue flags mss then
      -- the first pbuf of the segment goes if it held the header only
      let old := if !copy || queue.data.isEmpty then 1 else 0
      if flags.fin then
        (unsent.dropLast ++ [{ useg with flags := { useg.flags with fin := true } }], queuelen - old)
      else
        (unsent.dropLast
          ++ { useg with data := useg.data ++ queue.data, clen := useg.clen + (queue.clen - old) } :: rest,
          queuelen - old)
    else
      (unsent ++ queue :: rest, queuelen)

def SendSeg.setPsh : List SendSeg → List SendSeg
  | [] => []
  | [seg] => [if seg.data.length > 0 then { seg with flags := { seg.flags with psh := true } } else seg]
  | seg :: next :: rest => seg :: setPsh (next :: rest)

def SendSeg.insert (seg : SendSeg) : List SendSeg → List SendSeg
  | [] => [seg]
  | cur :: next => if tcpSeqLt cur.seqno seg.seqno then cur :: insert seg next else seg :: cur :: next

namespace TcpSender

def tcpEnqueue (s : TcpSender) (arg : List UInt8) (flags : TcpFlags) (copy more : Bool) (optflags : UInt8)
    (segs : Nat)
    : TcpSender × ErrT :=
  if arg = [] ∧ optflags = 0 ∧ ¬ (flags.syn || flags.fin) then
    (s, .arg)
  else if arg.length > s.sndBuf.toNat then
    ({ s with tfNagleMemErr := true }, .mem)
  else if s.sndQueuelen ≥ tcpSndQueuelen then
    ({ s with tfNagleMemErr := true }, .mem)
  else if s.mss.toNat < lwipTcpOptLength optflags then
    -- `seglen` is the low half of a negative number and the loop goes on until the queue is too long
    ({ s with tfNagleMemErr := true }, .mem)
  else
    match SendSeg.enqueue (s.mss.toNat - lwipTcpOptLength optflags) flags copy optflags segs arg s.sndLbb
      s.written.length s.sndQueuelen with
    | none | some ([], _) => ({ s with tfNagleMemErr := true }, .mem)
    | some (queue :: rest, queuelen) =>
      let (unsent, queuelen) := SendSeg.chain s.unsent flags copy s.mss queue rest queuelen
      let len := if flags.syn || flags.fin then arg.length + 1 else arg.length
      ({ s with
          unsent := if more then unsent else SendSeg.setPsh unsent
          tfFin := s.tfFin || flags.fin
          sndLbb := s.sndLbb + BitVec.ofNat 32 len
          sndBuf := s.sndBuf - UInt16.ofNat len
          sndQueuelen := queuelen
          written := s.written ++ flags.items arg },
        .ok)

def tcpWrite (s : TcpSender) (data : List UInt8) (copy more : Bool) (segs : Nat) : TcpSender × ErrT :=
  match s.state with
  | .established | .closeWait | .synSent | .synRcvd =>
    if data.length > 0 then s.tcpEnqueue data {} copy more 0 segs else (s, .ok)
  | _ => (s, .conn)

def tcpSendCtrl (s : TcpSender) (flags : TcpFlags) (segs : Nat) : TcpSender × ErrT :=
  s.tcpEnqueue [] flags true false 0 segs

/--
`tcp_close` of a connection that has a peer, without the call of `tcp_output` at its end.
-/
def tcpClose (s : TcpSender) (segs : Nat) : TcpSender × ErrT :=
  match s.state with
  | .synRcvd | .established =>
    match s.tcpSendCtrl { fin := true } segs with
    | (s, .ok) => ({ s with state := .finWait1 }, .ok)
    | (s, err) => (s, err)
  | .closeWait =>
    match s.tcpSendCtrl { fin := true } segs with
    | (s, .ok) => ({ s with state := .lastAck }, .ok)
    | (s, err) => (s, err)
  | _ => (s, .ok)

def effwnd (s : TcpSender) (seg : SendSeg) : Nat :=
  (seg.seqno - s.lastack + BitVec.ofNat 32 seg.data.length).toNat

/--
`tcp_do_output_nagle` for a connection whose unsent queue is `seg :: next`.
-/
def tcpDoOutputNagle (s : TcpSender) (seg : SendSeg) (next : List SendSeg) : Bool :=
  s.unacked.isEmpty || s.tfNodelay || s.tfInfr || !next.isEmpty || seg.data.length ≥ s.mss.toNat

def putUnacked (unacked : List SendSeg) (seg : SendSeg) : List SendSeg :=
  if seg.tcpTcplen > 0 then
    match unacked.getLast? with
    | none => [seg]
    | some useg => if tcpSeqLt seg.seqno useg.seqno then seg.insert unacked else unacked ++ [seg]
  else
    unacked

def send (s : TcpSender) (seg : SendSeg) (next : List SendSeg) : TcpSender :=
  let synSent := s.state = .synSent
  let seg := if synSent then seg else { seg with flags := { seg.flags with ack := true } }
  let sndNxt := seg.seqno + BitVec.ofNat 32 seg.tcpTcplen
  { s with
    unsent := next
    tfAckDelay := synSent && s.tfAckDelay
    tfAckNow := synSent && s.tfAckNow
    rtime := true
    wire := s.wire ++ [seg]
    sndNxt := if tcpSeqLt s.sndNxt sndNxt then sndNxt else s.sndNxt
    unacked := putUnacked s.unacked seg }

def outputLoop (wnd : Nat) : List SendSeg → TcpSender → TcpSender
  | [], s => s
  | seg :: next, s =>
    if s.effwnd seg ≤ wnd ∧ (s.tcpDoOutputNagle seg next || s.tfNagleMemErr || s.tfFin) then
      outputLoop wnd next (s.send seg next)
    else
      s

def wnd (s : TcpSender) : Nat := min s.sndWnd.toNat s.cwnd.toNat

/--
`tcp_output`, called outside of `tcp_input`.
-/
def tcpOutput (s : TcpSender) : TcpSender :=
  if s.tfAckNow ∧ s.unsent.head?.all fun seg => s.effwnd seg > s.wnd then
    -- `tcp_send_empty_ack`
    { s with tfAckDelay := false, tfAckNow := false }
  else
    let s := outputLoop s.wnd s.unsent s
    { s with
      persist := s.persist || s.unsent.head?.any fun seg => s.effwnd seg > s.sndWnd.toNat
      tfNagleMemErr := false }

def tcpRexmitRto (s : TcpSender) : TcpSender :=
  match s.unacked with
  | [] => s
  | _ => tcpOutput { s with unsent := s.unacked ++ s.unsent, unacked := [] }

def tcpRexmit (s : TcpSender) : TcpSender :=
  match s.unacked with
  | [] => s
  | seg :: unacked => { s with unacked, unsent := seg.insert s.unsent }

def tcpRexmitFast (s : TcpSender) : TcpSender :=
  if ¬ s.unacked.isEmpty ∧ ¬ s.tfInfr then
    let s := s.tcpRexmit
    let ssthresh := if s.cwnd > s.sndWnd then s.sndWnd / 2 else s.cwnd / 2
    let ssthresh := if ssthresh.toNat < 2 * s.mss.toNat then 2 * s.mss else ssthresh
    { s with ssthresh, cwnd := ssthresh + 3 * s.mss, tfInfr := true }
  else
    s

def slowtmrRexmit (s : TcpSender) : TcpSender :=
  let ssthresh := min s.cwnd s.sndWnd >>> 1
  tcpRexmitRto
    { s with
      rtime := true
      ssthresh := if ssthresh < s.mss then s.mss * 2 else ssthresh
      cwnd := s.mss }

/--
`tcp_zero_window_probe`. The byte behind `seg->dataptr` is the first one of the data, but `tcp_enqueue` leaves
the `dataptr` of a SYN as it is, and what stands there is `dataptr`.
-/
def tcpZeroWindowProbe (s : TcpSender) (dataptr : UInt8) : TcpSender :=
  match s.unacked ++ s.unsent with
  | [] => s
  | seg :: _ =>
    let isFin := seg.flags.fin && seg.data.isEmpty
    let flags : TcpFlags := { fin := isFin, ack := true }
    if seg.flags.syn then
      { s with synProbes := s.synProbes ++ [{ seg with data := [dataptr], flags }] }
    else
      { s with wire := s.wire ++ [{ seg with data := seg.data.take 1, flags }] }

def segFree (s : TcpSender) (next : SendSeg) : TcpSender :=
  { s with
    acked := if s.acked ≠ 0 ∧ next.flags.fin then s.acked - 1 else s.acked
    sndQueuelen := s.sndQueuelen - next.clen }

def segsFree (s : TcpSender) (segs : List SendSeg) : TcpSender := segs.foldl segFree s

def grownCwnd (s : TcpSender) : UInt16 :=
  match s.state with
  | .closed | .listen | .synSent | .synRcvd => s.cwnd
  | _ =>
    if s.cwnd < s.ssthresh then
      if s.cwnd + s.mss > s.cwnd then s.cwnd + s.mss else s.cwnd
    else
      let newCwnd := UInt16.ofNat (s.cwnd.toNat + s.mss.toNat * s.mss.toNat / s.cwnd.toNat)
      if newCwnd > s.cwnd then newCwnd else s.cwnd

/--
The fields of an incoming segment that `tcp_process` reads for the sending half. `gotFin` tells whether
the receiving half has taken a FIN from it.
-/
structure Arrival where
  ack : Bool
  seqno : SeqNo
  ackno : SeqNo
  wnd : UInt16
  tcplen : Nat
  gotFin : Bool

def updateWindow (s : TcpSender) (a : Arrival) : TcpSender :=
  if tcpSeqLt s.sndWl1 a.seqno
    || s.sndWl1 == a.seqno && tcpSeqLt s.sndWl2 a.ackno
    || s.sndWl2 == a.ackno && a.wnd > s.sndWnd then
    { s with
      sndWnd := a.wnd
      sndWl1 := a.seqno
      sndWl2 := a.ackno
      persist := if a.wnd > 0 then false else s.persist }
  else
    s

def duplicateAck (s : TcpSender) (a : Arrival) (rightWndEdge : SeqNo) : TcpSender :=
  let s := { s with acked := 0 }
  if a.tcplen = 0 ∧ s.sndWl2 + BitVec.ofNat 32 s.sndWnd.toNat = rightWndEdge ∧ s.rtime
    ∧ s.lastack = a.ackno then
    -- the test `dupacks + 1 > dupacks` is one of integers and always true
    let s := { s with dupacks := s.dupacks + 1 }
    if s.dupacks > 3 then
      if s.cwnd + s.mss > s.cwnd then { s with cwnd := s.cwnd + s.mss } else s
    else if s.dupacks = 3 then
      s.tcpRexmitFast
    else
      s
  else
    { s with dupacks := 0 }

def newAck (s : TcpSender) (a : Arrival) : TcpSender :=
  let s := if s.tfInfr then { s with tfInfr := false, cwnd := s.ssthresh } else s
  let acked := UInt16.ofNat (a.ackno - s.lastack).toNat
  let s := { s with acked, sndBuf := s.sndBuf + acked, dupacks := 0, lastack := a.ackno }
  let covered := fun next : SendSeg => tcpSeqLeq (next.seqno + BitVec.ofNat 32 next.tcpTcplen) a.ackno
  let s := { s with cwnd := s.grownCwnd, unacked := s.unacked.dropWhile covered }.segsFree
    (s.unacked.takeWhile covered)
  { s with rtime := ¬ s.unacked.isEmpty }

def freeUnsent (s : TcpSender) (ackno : SeqNo) : TcpSender :=
  let covered := fun next : SendSeg =>
    tcpSeqBetween ackno (next.seqno + BitVec.ofNat 32 next.tcpTcplen) s.sndNxt
  { s with unsent := s.unsent.dropWhile covered }.segsFree (s.unsent.takeWhile covered)

def tcpReceive (s : TcpSender) (a : Arrival) : TcpSender :=
  if a.ack then
    let rightWndEdge := BitVec.ofNat 32 s.sndWnd.toNat + s.sndWl2
    let s := s.updateWindow a
    let s :=
      if tcpSeqLeq a.ackno s.lastack then
        s.duplicateAck a rightWndEdge
      else if tcpSeqBetween a.ackno (s.lastack + 1) s.sndNxt then
        s.newAck a
      else
        { s with acked := 0 }
    s.freeUnsent a.ackno
  else
    s

def purge (s : TcpSender) (state : TcpState) : TcpSender := { s with state, unsent := [], unacked := [] }

/--
`tcp_process` for a segment without RST and SYN; for the peer of a server there is no `SYN_SENT`.
-/
def tcpProcess (s : TcpSender) (a : Arrival) : TcpSender :=
  match s.state with
  | .synRcvd =>
    if a.ack ∧ tcpSeqBetween a.ackno (s.lastack + 1) s.sndNxt then
      let oldCwnd := s.cwnd
      let s := { s with state := .established }.tcpReceive a
      { s with
        acked := if s.acked ≠ 0 then s.acked - 1 else s.acked
        cwnd := if oldCwnd = 1 then s.mss * 2 else s.mss
        state := if a.gotFin then .closeWait else s.state }
    else
      s
  | .closeWait | .established =>
    let s := s.tcpReceive a
    if a.gotFin then { s with state := .closeWait } else s
  | .finWait1 =>
    let s := s.tcpReceive a
    if a.gotFin then
      if a.ack ∧ a.ackno = s.sndNxt then s.purge .timeWait else { s with state := .closing }
    else if a.ack ∧ a.ackno = s.sndNxt then
      { s with state := .finWait2 }
    else
      s
  | .finWait2 =>
    let s := s.tcpReceive a
    if a.gotFin then s.purge .timeWait else s
  | .closing =>
    let s := s.tcpReceive a
    if a.ack ∧ a.ackno = s.sndNxt then s.purge .timeWait else s
  | .lastAck =>
    let s := s.tcpReceive a
    -- `TF_CLOSED`
    if a.ack ∧ a.ackno = s.sndNxt then s.purge .closed else s
  | _ => s

def parseMss (mss : UInt16) : UInt16 := if mss > tcpMss ∨ mss = 0 then tcpMss else mss

/--
The connection that `tcp_alloc` and `tcp_listen_input` set up for a SYN that advertises the window
`tcphdrWnd`, up to the SYN of the server.
-/
def alloc (iss : SeqNo) (option : Option UInt16) (seqno : SeqNo) (tcphdrWnd : UInt16) : TcpSender where
  state := .synRcvd
  mss := (option.map parseMss).getD 536
  tfAckDelay := false
  tfAckNow := false
  tfInfr := false
  tfFin := false
  tfNodelay := false
  tfNagleMemErr := false
  sndBuf := tcpSndBuf
  sndQueuelen := 0
  sndWnd := tcphdrWnd
  sndWl1 := seqno - 1
  sndWl2 := iss
  sndLbb := iss
  sndNxt := iss
  lastack := iss
  acked := 0
  cwnd := 1
  ssthresh := tcphdrWnd
  dupacks := 0
  rtime := false
  persist := false
  unsent := []
  unacked := []
  iss
  written := []
  wire := []
  synProbes := []

def tcpListenInput (iss : SeqNo) (option : Option UInt16) (seqno : SeqNo) (tcphdrWnd : UInt16) (segs : Nat)
    : Option TcpSender :=
  match (alloc iss option seqno tcphdrWnd).tcpEnqueue [] { syn := true, ack := true } false false 1 segs with
  | (s, .ok) => some s.tcpOutput
  | _ => none

end TcpSender

inductive SendAct where
  | write (data : List UInt8) (copy more : Bool) (segs : Nat)
  | close (segs : Nat)
  | output
  | arrive (a : TcpSender.Arrival)
  | duplicateSyn
  | rexmit
  | probe (dataptr : UInt8)
  | mssOption (mss : UInt16)
  | ackFlags (delay now : Bool)
  | remove

namespace TcpSender

/--
The calls that change the sending half. `ackFlags` stands for what the receiving half does with the two
flags, `remove` for the connection being aborted, reset or given up.
-/
def step (s : TcpSender) : SendAct → Option TcpSender
  | .write data copy more segs => some (s.tcpWrite data copy more segs).1
  | .close segs => some (s.tcpClose segs).1
  | .output => some s.tcpOutput
  | .arrive a => some (s.tcpProcess a)
  | .duplicateSyn => if s.state = .synRcvd then some s.tcpRexmit else none
  | .rexmit => if ¬ s.persist ∧ s.unacked ≠ [] ∧ s.rtime then some s.slowtmrRexmit else none
  | .probe dataptr => if s.persist then some (s.tcpZeroWindowProbe dataptr) else none
  | .mssOption mss => some { s with mss := parseMss mss }
  | .ackFlags delay now => some { s with tfAckDelay := delay, tfAckNow := now }
  | .remove => some (s.purge .closed)

end TcpSender

end SerialGateway
