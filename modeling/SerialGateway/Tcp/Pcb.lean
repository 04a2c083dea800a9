import SerialGateway.Lwip.Pbuf
import SerialGateway.Serial.Gateway

/-!
This module contains the connections of lwIP as far as sending and closing them goes (`tcp_enqueue` and
`tcp_write` of `tcp_out.c`, `tcp_close` of `tcp.c`).
-/

namespace SerialGateway

inductive TcpState where
  | closed
  | listen
  | synSent
  | synRcvd
  | established
  | finWait1
  | finWait2
  | closeWait
  | closing
  | lastAck
  | timeWait
  deriving DecidableEq, Repr

/--
A segment on one of the queues of a connection. `clen` is the number of pbufs it is made of.
-/
structure TcpSeg where
  seqno : UInt32
  len : UInt16
  syn : Bool
  fin : Bool
  flags : UInt8
  clen : UInt16
  deriving DecidableEq, Repr

/--
A connection. `accept` and `recv` tell the server whose callbacks are registered (for `recv`, `none` is
`tcp_recv_null`), `poll` is the address of the poll callback.
-/
structure TcpPcb where
  state : TcpState
  prio : UInt8
  accept : PortId
  recv : Option PortId
  poll : Option Nat
  mss : UInt16
  sndBuf : UInt16
  sndQueuelen : UInt16
  sndLbb : UInt32
  unsent : List TcpSeg
  unacked : List TcpSeg
  nagleMemErr : Bool
  deriving DecidableEq

def tcpSndQueuelen : UInt16 := 24

def tcpSndBuf : UInt16 := 5840

def TcpSeg.tcpLen (seg : TcpSeg) : UInt16 := if seg.syn || seg.fin then seg.len + 1 else seg.len

/--
The loop of `tcp_enqueue` that breaks the data up into segments, with `TCP_WRITE_FLAG_COPY` and without
options. `segs` and `pbufs` tell how many segments and pbufs can be allocated before the memory runs out;
`none` stands for `goto memerr`.
-/
def enqueueSegs (mss : UInt16) (fin : Bool)
    : Nat → Nat → UInt16 → UInt32 → UInt16 → Option (List TcpSeg × UInt16)
  | 0, _, _, _, _ => none
  | _ + 1, 0, _, _, _ => none
  | segs + 1, pbufs + 1, left, seqno, queuelen =>
    let seglen := if left > mss then mss else left
    let queuelen := queuelen + 1
    if queuelen > tcpSndQueuelen then
      none
    else
      let seg := { seqno, len := seglen, syn := false, fin, flags := 0, clen := 1 }
      if left - seglen > 0 then
        match enqueueSegs mss fin segs pbufs (left - seglen) (seqno + seglen.toUInt32) queuelen with
        | none => none
        | some (queue, queuelen) => some (seg :: queue, queuelen)
      else
        some ([seg], queuelen)

def TcpSeg.chains (useg queue : TcpSeg) (mss : UInt16) : Bool :=
  useg.tcpLen != 0
    && !(useg.syn || useg.fin)
    && useg.len.toNat + queue.len.toNat ≤ mss.toNat
    && useg.flags == queue.flags
    && useg.seqno + useg.len.toUInt32 == queue.seqno

namespace TcpPcb

def chainSegs (pcb : TcpPcb) (fin : Bool) (queue : TcpSeg) (rest : List TcpSeg) (queuelen : UInt16)
    : List TcpSeg × UInt16 :=
  match pcb.unsent.getLast? with
  | none => (queue :: rest, queuelen)
  | some useg =>
    if useg.chains queue pcb.mss then
      -- a pbuf that held the header only is freed
      let queuelen := if queue.len = 0 then queuelen - 1 else queuelen
      if fin then
        (pcb.unsent.dropLast ++ [{ useg with fin := true }], queuelen)
      else
        (pcb.unsent.dropLast
          ++ { useg with len := useg.len + queue.len, clen := useg.clen + queue.clen } :: rest,
          queuelen)
    else
      (pcb.unsent ++ queue :: rest, queuelen)

/--
`tcp_enqueue` for data without a flag or for the flag `TCP_FIN` without data, with
`TCP_WRITE_FLAG_COPY`.
-/
def tcpEnqueue (pcb : TcpPcb) (len : UInt16) (fin : Bool) (segs pbufs : Nat) : TcpPcb × ErrT :=
  if len = 0 ∧ ¬ fin then
    (pcb, .arg)
  else if len > pcb.sndBuf then
    ({ pcb with nagleMemErr := true }, .mem)
  else if pcb.sndQueuelen ≥ tcpSndQueuelen then
    ({ pcb with nagleMemErr := true }, .mem)
  else
    match enqueueSegs pcb.mss fin segs pbufs len pcb.sndLbb pcb.sndQueuelen with
    | none | some ([], _) => ({ pcb with nagleMemErr := true }, .mem)
    | some (queue :: rest, queuelen) =>
      let (unsent, queuelen) := pcb.chainSegs fin queue rest queuelen
      let len := if fin then len + 1 else len
      ({ pcb with
          unsent
          sndLbb := pcb.sndLbb + len.toUInt32
          sndBuf := pcb.sndBuf - len
          sndQueuelen := queuelen },
        .ok)

def tcpWrite (pcb : TcpPcb) (len : UInt16) (segs pbufs : Nat) : TcpPcb × ErrT :=
  match pcb.state with
  | .established | .closeWait | .synSent | .synRcvd =>
    if len > 0 then pcb.tcpEnqueue len false segs pbufs else (pcb, .ok)
  | _ => (pcb, .conn)

def tcpSendCtrlFin (pcb : TcpPcb) (segs pbufs : Nat) : TcpPcb × ErrT :=
  pcb.tcpEnqueue 0 true segs pbufs

/--
`tcp_close` for a connection on the list of active ones; `none` if it frees the connection. The segments
are sent by a later step.
-/
def tcpClose (pcb : TcpPcb) (segs pbufs : Nat) : Option TcpPcb × ErrT :=
  match pcb.state with
  | .closed | .listen | .synSent => (none, .ok)
  | .synRcvd | .established =>
    match pcb.tcpSendCtrlFin segs pbufs with
    | (pcb, .ok) => (some { pcb with state := .finWait1 }, .ok)
    | (pcb, err) => (some pcb, err)
  | .closeWait =>
    match pcb.tcpSendCtrlFin segs pbufs with
    | (pcb, .ok) => (some { pcb with state := .lastAck }, .ok)
    | (pcb, err) => (some pcb, err)
  | _ => (some pcb, .ok)

/--
`tcp_output` moves the first `n` unsent segments to the other queue.
-/
def tcpOutput (pcb : TcpPcb) (n : Nat) : TcpPcb :=
  { pcb with unsent := pcb.unsent.drop n, unacked := pcb.unacked ++ pcb.unsent.take n }

def tcpRexmitRto (pcb : TcpPcb) : TcpPcb :=
  { pcb with unsent := pcb.unacked ++ pcb.unsent, unacked := [] }

/--
The part of `tcp_receive` for an ACK of `acked` bytes, which covers the first `n` segments that were sent
and the first `m` ones that wait to be sent again.
-/
def tcpReceiveAck (pcb : TcpPcb) (acked : UInt16) (n m : Nat) : TcpPcb :=
  { pcb with
    unacked := pcb.unacked.drop n
    unsent := pcb.unsent.drop m
    sndBuf := pcb.sndBuf + acked
    sndQueuelen := (pcb.unacked.take n ++ pcb.unsent.take m).foldl
      (fun queuelen next => queuelen - next.clen) pcb.sndQueuelen }

def gotFin (pcb : TcpPcb) (acksFin : Bool) : TcpPcb :=
  { pcb with
    state := match pcb.state with
      | .synRcvd | .established | .closeWait => .closeWait
      | .finWait1 => if acksFin then .timeWait else .closing
      | .finWait2 => .timeWait
      | state => state }

def FinFits (pcb : TcpPcb) (segs pbufs : Nat) : Prop :=
  pcb.sndQueuelen < tcpSndQueuelen ∧ 0 < segs ∧ 0 < pbufs

variable {pcb : TcpPcb} {segs pbufs : Nat}

theorem enqueueSegs_fin {mss : UInt16} {seqno : UInt32} {queuelen : UInt16}
    (hroom : queuelen < tcpSndQueuelen)
    : enqueueSegs mss true (segs + 1) (pbufs + 1) 0 seqno queuelen =
        some ([{ seqno, len := 0, syn := false, fin := true, flags := 0, clen := 1 }],
          queuelen + 1) := by
  have hle : ¬ queuelen + 1 > tcpSndQueuelen := by
    rw [UInt16.lt_iff_toNat_lt] at hroom
    rw [gt_iff_lt, UInt16.lt_iff_toNat_lt, UInt16.toNat_add]
    simp only [tcpSndQueuelen, UInt16.reduceToNat] at hroom ⊢
    omega
  unfold enqueueSegs
  simp [hle]

theorem enqueueSegs_no_memory {mss left queuelen : UInt16} {fin : Bool} {seqno : UInt32}
    (h : segs = 0 ∨ pbufs = 0)
    : enqueueSegs mss fin segs pbufs left seqno queuelen = none := by
  cases segs with
  | zero => rfl
  | succ segs =>
    cases pbufs with
    | zero => rfl
    | succ pbufs => simp at h

theorem tcpSendCtrlFin_of_fits (h : pcb.FinFits segs pbufs)
    : (pcb.tcpSendCtrlFin segs pbufs).2 = .ok := by
  rcases h with ⟨hroom, hsegs, hpbufs⟩
  have hfull : ¬ pcb.sndQueuelen ≥ tcpSndQueuelen := UInt16.not_le.mpr hroom
  cases segs with
  | zero => contradiction
  | succ segs =>
    cases pbufs with
    | zero => contradiction
    | succ pbufs =>
      unfold tcpSendCtrlFin tcpEnqueue
      rw [enqueueSegs_fin hroom]
      simp [hfull]

theorem tcpSendCtrlFin_of_not_fits (h : ¬ pcb.FinFits segs pbufs)
    : pcb.tcpSendCtrlFin segs pbufs = ({ pcb with nagleMemErr := true }, .mem) := by
  unfold tcpSendCtrlFin tcpEnqueue
  by_cases hfull : pcb.sndQueuelen ≥ tcpSndQueuelen
  . simp [hfull]
  . have hmem : segs = 0 ∨ pbufs = 0 := by
      have hroom := UInt16.not_le.mp hfull
      rcases Nat.eq_zero_or_pos segs with hsegs | hsegs
      . exact .inl hsegs
      . rcases Nat.eq_zero_or_pos pbufs with hpbufs | hpbufs
        . exact .inr hpbufs
        . exact absurd ⟨hroom, hsegs, hpbufs⟩ h
    rw [enqueueSegs_no_memory hmem]
    simp [hfull]

theorem tcpEnqueue_keeps (pcb : TcpPcb) (len : UInt16) (fin : Bool) (segs pbufs : Nat)
    : (pcb.tcpEnqueue len fin segs pbufs).1.state = pcb.state
        ∧ (pcb.tcpEnqueue len fin segs pbufs).1.poll = pcb.poll := by
  unfold tcpEnqueue
  split
  . exact ⟨rfl, rfl⟩
  . split
    . exact ⟨rfl, rfl⟩
    . split
      . exact ⟨rfl, rfl⟩
      . split <;> exact ⟨rfl, rfl⟩

theorem tcpWrite_keeps (pcb : TcpPcb) (len : UInt16) (segs pbufs : Nat)
    : (pcb.tcpWrite len segs pbufs).1.state = pcb.state
        ∧ (pcb.tcpWrite len segs pbufs).1.poll = pcb.poll := by
  unfold tcpWrite
  split
  . split
    . apply tcpEnqueue_keeps
    . exact ⟨rfl, rfl⟩
  . split
    . apply tcpEnqueue_keeps
    . exact ⟨rfl, rfl⟩
  . split
    . apply tcpEnqueue_keeps
    . exact ⟨rfl, rfl⟩
  . split
    . apply tcpEnqueue_keeps
    . exact ⟨rfl, rfl⟩
  . exact ⟨rfl, rfl⟩

theorem tcpClose_closeWait (segs pbufs : Nat) (h : pcb.state = .closeWait)
    : ∃ pcb', (pcb.tcpClose segs pbufs).1 = some pcb' ∧ pcb'.poll = pcb.poll
        ∧ (pcb'.state = .closeWait ↔ ¬ pcb.FinFits segs pbufs) := by
  have hkeeps := pcb.tcpEnqueue_keeps 0 true segs pbufs
  by_cases hfits : pcb.FinFits segs pbufs
  . have hok := tcpSendCtrlFin_of_fits hfits
    cases hsend : pcb.tcpSendCtrlFin segs pbufs with
    | mk pcb' err =>
      rw [hsend] at hok
      subst hok
      have hpoll : pcb'.poll = pcb.poll := by
        have := hkeeps.2
        unfold tcpSendCtrlFin at hsend
        rwa [hsend] at this
      refine ⟨{ pcb' with state := .lastAck }, ?_, hpoll, by simp [hfits]⟩
      unfold tcpClose
      simp only [h, hsend]
  . refine ⟨{ pcb with nagleMemErr := true }, ?_, rfl, by simp [h, hfits]⟩
    unfold tcpClose
    simp only [h, tcpSendCtrlFin_of_not_fits hfits]

theorem closed_keeps {sent : TcpPcb × ErrT} {state : TcpState} {pcb' : TcpPcb}
    (hkeeps : sent.1.state = pcb.state ∧ sent.1.poll = pcb.poll) (hne : state ≠ .closeWait)
    (hclose : (match sent with
        | (pcb, .ok) => (some { pcb with state }, ErrT.ok)
        | (pcb, err) => (some pcb, err)).1 = some pcb')
    : pcb'.poll = pcb.poll ∧ (pcb.state ≠ .closeWait → pcb'.state ≠ .closeWait) := by
  split at hclose
  . cases hclose
    exact ⟨hkeeps.2, fun _ => hne⟩
  . cases hclose
    exact ⟨hkeeps.2, fun h => hkeeps.1 ▸ h⟩

theorem tcpClose_keeps {pcb' : TcpPcb} (hclose : (pcb.tcpClose segs pbufs).1 = some pcb')
    : pcb'.poll = pcb.poll ∧ (pcb.state ≠ .closeWait → pcb'.state ≠ .closeWait) := by
  have hkeeps := pcb.tcpEnqueue_keeps 0 true segs pbufs
  unfold tcpClose tcpSendCtrlFin at hclose
  split at hclose
  . cases hclose
  . cases hclose
  . cases hclose
  . apply closed_keeps hkeeps _ hclose
    simp
  . apply closed_keeps hkeeps _ hclose
    simp
  . apply closed_keeps hkeeps _ hclose
    simp
  . cases hclose
    exact ⟨rfl, fun h => h⟩

end TcpPcb

end SerialGateway
