import SerialGateway.Tcp.SenderSteps

/-!
This module contains the invariant of a sender and that enqueuing, sending and retransmission keep it.
-/

open SerialNumber

namespace SerialGateway

open SendSeg

def TcpState.Open : TcpState → Prop
  | .synRcvd | .established | .closeWait => True
  | _ => False

def TcpState.Alive : TcpState → Prop
  | .synRcvd | .established | .closeWait | .finWait1 | .finWait2 | .closing | .lastAck => True
  | _ => False

theorem TcpState.Open.alive {state : TcpState} (h : state.Open) : state.Alive := by
  cases state <;> first | exact h | trivial

structure InStream (iss : SeqNo) (written : List SeqItem) (seg : SendSeg) : Prop where
  seqno : seg.seqno = ofPos iss seg.pos
  slice : seg.slice.Of written
  pos : seg.pos ≤ written.length
  short : seg.data.length ≤ tcpMss.toNat

theorem Queues.inStream {iss : SeqNo} {written : List SeqItem} {acked sent : Nat} {unacked unsent : List SendSeg}
    {seg : SendSeg} (h : Queues iss written acked sent unacked unsent) (hseg : seg ∈ unacked ++ unsent)
    : InStream iss written seg where
  seqno := h.seqno seg hseg
  slice := h.carries.slice _ (List.mem_map_of_mem hseg)
  pos := Nat.le_trans (Nat.le_of_lt (h.pos_lt_stop hseg)) (h.stop_le hseg)
  short := (h.wellFormed seg hseg).short

structure SynProbe (iss : SeqNo) (written : List SeqItem) (seg : SendSeg) : Prop where
  seqno : seg.seqno = ofPos iss seg.pos
  syn : Slice.Of ⟨seg.pos, [.syn]⟩ written
  flags : seg.flags = { ack := true }
  data : seg.data.length = 1

theorem SynProbe.pos_eq_zero {iss : SeqNo} {written : List SeqItem} {seg : SendSeg}
    (h : SynProbe iss written seg) (hno : .syn ∉ written.tail)
    : seg.pos = 0 := by
  cases hpos : seg.pos with
  | zero => rfl
  | succ n =>
    have hsyn := h.syn
    rw [Slice.Of, hpos, ← List.drop_tail] at hsyn
    have hmem := List.mem_of_mem_drop (hsyn.subset (List.mem_singleton_self _))
    exact absurd hmem hno

namespace TcpSender

def WireOk (s : TcpSender) : Prop := ∀ seg ∈ s.wire, InStream s.iss s.written seg

def ProbesOk (s : TcpSender) : Prop := ∀ seg ∈ s.synProbes, SynProbe s.iss s.written seg

structure Sound (s : TcpSender) (acked sent : Nat) : Prop where
  queues : Queues s.iss s.written acked sent s.unacked s.unsent
  lastack : s.lastack = ofPos s.iss acked
  sndNxt : s.sndNxt = ofPos s.iss sent
  sndLbb : s.sndLbb = ofPos s.iss s.written.length
  sndBuf : (s.sndBuf.toNat + (s.written.length - acked)) % 65536 = tcpSndBuf.toNat
  queuelen : s.sndQueuelen.toNat = pbufs s.unacked + pbufs s.unsent
  queuelen_le : s.sndQueuelen ≤ tcpSndQueuelen
  mss : 0 < s.mss.toNat ∧ s.mss ≤ tcpMss
  timer : s.unacked ≠ [] → s.rtime
  wire : s.WireOk
  synProbes : s.ProbesOk

structure Live (s : TcpSender) (acked sent : Nat) : Prop extends Sound s acked sent where
  room : s.state.Open → s.written.length ≤ acked + tcpSndBuf.toNat

variable {s s' : TcpSender} {acked sent : Nat}

theorem Live.sndBuf_eq (h : s.Live acked sent) (hopen : s.state.Open)
    : s.sndBuf.toNat + (s.written.length - acked) = tcpSndBuf.toNat := by
  have hmod := h.sndBuf
  have hroom := h.room hopen
  have := s.sndBuf.toNat_lt
  simp only [tcpSndBuf, UInt16.reduceToNat] at hmod hroom ⊢
  omega

theorem WireOk.append (h : s.WireOk) {items : List SeqItem} (hiss : s'.iss = s.iss) (hwire : s'.wire = s.wire)
    (hwritten : s'.written = s.written ++ items)
    : s'.WireOk := by
  intro seg hseg
  rw [hwire] at hseg
  rcases h seg hseg with ⟨hseqno, hslice, hpos, hshort⟩
  rw [hiss, hwritten]
  refine ⟨hseqno, hslice.append items, ?_, hshort⟩
  rw [List.length_append]
  exact Nat.le_add_right_of_le hpos

theorem ProbesOk.append (h : s.ProbesOk) {items : List SeqItem} (hiss : s'.iss = s.iss)
    (hprobes : s'.synProbes = s.synProbes) (hwritten : s'.written = s.written ++ items)
    : s'.ProbesOk := by
  intro seg hseg
  rw [hprobes] at hseg
  rcases h seg hseg with ⟨hseqno, hsyn, hflags, hdata⟩
  rw [hiss, hwritten]
  exact ⟨hseqno, hsyn.append items, hflags, hdata⟩

section Enqueue

variable {arg : List UInt8} {flags : TcpFlags} {copy more : Bool} {optflags : UInt8} {segs : Nat}

def Enqueueable (arg : List UInt8) (flags : TcpFlags) (optflags : UInt8) : Prop :=
  arg ≠ [] ∧ flags.syn = false ∧ flags.fin = false ∧ optflags = 0 ∨ arg = [] ∧ flags.syn = !flags.fin

theorem Enqueueable.length_items (h : Enqueueable arg flags optflags)
    : (flags.items arg).length = if flags.syn || flags.fin then arg.length + 1 else arg.length := by
  unfold TcpFlags.items
  rcases h with ⟨-, hsyn, hfin, -⟩ | ⟨rfl, hone⟩
  . simp [hsyn, hfin]
  . cases hfin : flags.fin <;> simp [hone, hfin]

theorem tcpEnqueue_error (h : (s.tcpEnqueue arg flags copy more optflags segs).2 ≠ .ok)
    : ∃ err, (s.tcpEnqueue arg flags copy more optflags segs).1 = { s with tfNagleMemErr := err } := by
  unfold tcpEnqueue at h ⊢
  split
  case isTrue => exact ⟨s.tfNagleMemErr, rfl⟩
  case isFalse harg =>
    rw [if_neg harg] at h
    split
    case isTrue => exact ⟨true, rfl⟩
    case isFalse hbuf =>
      rw [if_neg hbuf] at h
      split
      case isTrue => exact ⟨true, rfl⟩
      case isFalse hlen =>
        rw [if_neg hlen] at h
        split
        case isTrue => exact ⟨true, rfl⟩
        case isFalse hmss =>
          rw [if_neg hmss] at h
          split
          case h_1 => exact ⟨true, rfl⟩
          case h_2 => exact ⟨true, rfl⟩
          case h_3 heq =>
            rw [heq] at h
            exact absurd rfl h

structure Enqueued (s : TcpSender) (arg : List UInt8) (flags : TcpFlags) (acked sent : Nat) (s' : TcpSender)
    : Prop where
  state : s'.state = s.state
  iss : s'.iss = s.iss
  lastack : s'.lastack = s.lastack
  wire : s'.wire = s.wire
  written : s'.written = s.written ++ flags.items arg
  fits : arg.length ≤ s.sndBuf.toNat
  sound : s'.Sound acked sent

theorem Live.chained (h : s.Live acked sent) (hopen : s.state.Open) (hkind : Enqueueable arg flags optflags)
    (hbuf : arg.length ≤ s.sndBuf.toNat) (hlen : s.sndQueuelen ≤ tcpSndQueuelen) {queue : SendSeg}
    {rest : List SendSeg} {queuelen : UInt16}
    (henq : SendSeg.enqueue (s.mss.toNat - lwipTcpOptLength optflags) flags copy optflags segs arg s.sndLbb
      s.written.length s.sndQueuelen = some (queue :: rest, queuelen))
    : let chained := chain s.unsent flags copy s.mss queue rest queuelen
      Queues s.iss (s.written ++ flags.items arg) acked sent s.unacked chained.1
        ∧ chained.2.toNat = pbufs s.unacked + pbufs chained.1 ∧ chained.2 ≤ tcpSndQueuelen := by
  have hbufeq := h.sndBuf_eq hopen
  have hacked := Nat.le_trans h.queues.acked_le h.queues.sent_le
  rw [h.sndLbb] at henq
  rcases hkind with ⟨hne, hsyn, hfin, rfl⟩ | ⟨rfl, hone⟩
  . have hopt : lwipTcpOptLength 0 = 0 := by decide
    have hitems : flags.items arg = arg.map .byte := by simp [TcpFlags.items, hsyn, hfin]
    rw [hopt, Nat.sub_zero] at henq
    rw [hitems]
    apply h.queues.chainData h.mss.1 h.mss.2 hsyn hfin hne h.queuelen hlen _ henq
    rw [List.length_append, List.length_map]
    simp only [maxOutstanding, tcpSndBuf, UInt16.reduceToNat] at hbufeq ⊢
    omega
  . apply h.queues.chainCtrl hone h.queuelen hlen _ henq
    have hroom := h.room hopen
    simp only [maxOutstanding, tcpSndBuf, UInt16.reduceToNat] at hroom ⊢
    omega

theorem Live.enqueued (h : s.Live acked sent) (hkind : Enqueueable arg flags optflags)
    (hbufeq : s.sndBuf.toNat + (s.written.length - acked) = tcpSndBuf.toNat)
    {unsent : List SendSeg} {queuelen : UInt16}
    (hchained : Queues s.iss (s.written ++ flags.items arg) acked sent s.unacked unsent
      ∧ queuelen.toNat = pbufs s.unacked + pbufs unsent ∧ queuelen ≤ tcpSndQueuelen)
    : let len := if flags.syn || flags.fin then arg.length + 1 else arg.length
      ({ s with
        unsent := if more then unsent else setPsh unsent
        tfFin := s.tfFin || flags.fin
        sndLbb := s.sndLbb + BitVec.ofNat 32 len
        sndBuf := s.sndBuf - UInt16.ofNat len
        sndQueuelen := queuelen
        written := s.written ++ flags.items arg } : TcpSender).Sound acked sent := by
  intro len
  have hlen : (flags.items arg).length = len := hkind.length_items
  have hle : len ≤ arg.length + 1 := by
    simp only [len]
    split <;> omega
  rcases hchained with ⟨hqueues, hpbufs, hroom⟩
  constructor
  case queues =>
    simp only
    split
    . exact hqueues
    . exact hqueues.setPsh
  case lastack => exact h.lastack
  case sndNxt => exact h.sndNxt
  case sndLbb =>
    simp only
    rw [h.sndLbb, ofPos_add, List.length_append, hlen]
  case sndBuf =>
    have hacked := Nat.le_trans h.queues.acked_le h.queues.sent_le
    simp only [List.length_append, hlen, UInt16.toNat_sub, UInt16.toNat_ofNat', tcpSndBuf, UInt16.reduceToNat]
      at hbufeq ⊢
    omega
  case queuelen =>
    simp only
    split
    . exact hpbufs
    . rw [pbufs_setPsh]
      exact hpbufs
  case queuelen_le => exact hroom
  case mss => exact h.mss
  case timer => exact h.timer
  case wire => exact h.wire.append rfl rfl rfl
  case synProbes => exact h.synProbes.append rfl rfl rfl

theorem Live.tcpEnqueue_ok (h : s.Live acked sent) (hopen : s.state.Open)
    (hkind : Enqueueable arg flags optflags)
    (hok : (s.tcpEnqueue arg flags copy more optflags segs).2 = .ok)
    : Enqueued s arg flags acked sent (s.tcpEnqueue arg flags copy more optflags segs).1 := by
  have hbufeq := h.sndBuf_eq hopen
  unfold tcpEnqueue at hok ⊢
  split at hok
  case isTrue => cases hok
  case isFalse harg =>
    rw [if_neg harg]
    split at hok
    case isTrue => cases hok
    case isFalse hbuf =>
      rw [if_neg hbuf]
      split at hok
      case isTrue => cases hok
      case isFalse hlen =>
        rw [if_neg hlen]
        split at hok
        case isTrue => cases hok
        case isFalse hmss =>
          rw [if_neg hmss]
          split at hok
          case h_1 => cases hok
          case h_2 => cases hok
          case h_3 queue rest queuelen henq =>
            have hle := Nat.le_of_not_lt hbuf
            have hchained := h.chained hopen hkind hle (UInt16.le_of_lt (UInt16.not_le.mp hlen)) henq
            simp only at hchained
            generalize chain s.unsent flags copy s.mss queue rest queuelen = chained at hchained
            exact ⟨rfl, rfl, rfl, rfl, rfl, hle, h.enqueued hkind hbufeq hchained⟩

end Enqueue

section Output

theorem wnd_le (s : TcpSender) : s.wnd ≤ 65535 := by
  have := s.cwnd.toNat_lt
  unfold wnd
  omega

variable {seg : SendSeg} {next : List SendSeg} {w : Nat}

theorem Sound.effwnd_le (h : s.Sound acked sent) (hseg : seg ∈ s.unacked ++ s.unsent) (hw : w ≤ 65535)
    : s.effwnd seg ≤ w ↔ acked ≤ seg.pos + seg.data.length ∧ seg.pos + seg.data.length ≤ acked + w := by
  have hnear := h.queues.near hseg
  have hstop : seg.pos + seg.data.length ≤ seg.stop := by
    unfold SendSeg.stop SendSeg.tcpTcplen
    omega
  simp only [maxOutstanding] at hnear
  have heq : s.effwnd seg = (ofPos s.iss (seg.pos + seg.data.length) - ofPos s.iss acked).toNat := by
    rw [effwnd, h.queues.seqno seg hseg, h.lastack, ← ofPos_add, BitVec.sub_eq_add_neg, BitVec.sub_eq_add_neg,
      BitVec.add_assoc, BitVec.add_comm (-_), ← BitVec.add_assoc]
  rw [heq]
  rcases Nat.lt_or_ge (seg.pos + seg.data.length) acked with hlt | hge
  . rw [toNat_sub_ofPos_of_lt _ hlt (by omega)]
    omega
  . rw [toNat_sub_ofPos _ hge (by omega)]
    omega

structure Sends (acked w : Nat) (s s' : TcpSender) : Prop where
  wnd : s'.wnd = w
  state : s'.state = s.state
  iss : s'.iss = s.iss
  written : s'.written = s.written
  lastack : s'.lastack = s.lastack
  wire : ∃ out, s'.wire = s.wire ++ out
    ∧ ∀ seg ∈ out, acked ≤ seg.pos + seg.data.length ∧ seg.pos + seg.data.length ≤ acked + w

theorem Sends.refl (hw : s.wnd = w) : Sends acked w s s where
  wnd := hw
  state := rfl
  iss := rfl
  written := rfl
  lastack := rfl
  wire := ⟨[], by simp⟩

theorem Sends.trans {s'' : TcpSender} (h : Sends acked w s s') (h' : Sends acked w s' s'')
    : Sends acked w s s'' where
  wnd := h'.wnd
  state := h'.state.trans h.state
  iss := h'.iss.trans h.iss
  written := h'.written.trans h.written
  lastack := h'.lastack.trans h.lastack
  wire := by
    rcases h.wire with ⟨out, hout, hle⟩
    rcases h'.wire with ⟨out', hout', hle'⟩
    refine ⟨out ++ out', by rw [hout', hout, List.append_assoc], ?_⟩
    intro seg hseg
    rcases List.mem_append.mp hseg with hseg | hseg
    . exact hle seg hseg
    . exact hle' seg hseg

theorem Live.send (h : s.Live acked sent) (hunsent : s.unsent = seg :: next) (hw : s.wnd = w)
    (hwnd : s.effwnd seg ≤ w)
    : ∃ sent', sent ≤ sent' ∧ (s.send seg next).Live acked sent' ∧ Sends acked w s (s.send seg next) := by
  have hqueues := h.queues
  rw [hunsent] at hqueues
  have hmem : seg ∈ s.unacked ++ s.unsent := by simp [hunsent]
  have hpos := (h.effwnd_le hmem (hw ▸ s.wnd_le)).mp hwnd
  dsimp only [TcpSender.send]
  generalize hseg' : (if s.state = .synSent then seg else { seg with flags := { seg.flags with ack := true } })
    = seg'
  have hsame : Same seg' seg := by
    rw [← hseg']
    split <;> constructor <;> rfl
  have hclen : seg'.clen = seg.clen := by
    rw [← hseg']
    split <;> rfl
  rw [← List.nil_append (seg :: next)] at hqueues
  have hqueues' := hqueues.same hsame
  rw [List.nil_append] at hqueues'
  have hmem' : seg' ∈ s.unacked ++ seg' :: next := by simp
  have hstop : acked ≤ seg'.stop := by
    rw [hsame.stop]
    unfold SendSeg.stop SendSeg.tcpTcplen
    omega
  have hput := hqueues'.put hstop
  have hnear := hqueues'.near hmem'
  have hsent := Nat.le_trans h.queues.sent_le h.queues.window
  have hacked := h.queues.acked_le
  simp only [maxOutstanding] at hnear hsent
  have hnxt : seg'.seqno + BitVec.ofNat 32 seg'.tcpTcplen = ofPos s.iss seg'.stop := by
    rw [hqueues'.seqno seg' hmem', ofPos_add, SendSeg.stop]
  refine ⟨max sent seg'.stop, Nat.le_max_left _ _, ?_, ?_⟩
  . constructor
    . constructor
      case queues => exact hput
      case lastack => exact h.lastack
      case sndNxt =>
        simp only [hnxt, h.sndNxt]
        rw [tcpSeqLt_ofPos (by omega) (by omega)]
        simp only [decide_eq_true_eq]
        split
        . rw [Nat.max_eq_right (by omega)]
        . rw [Nat.max_eq_left (by omega)]
      case sndLbb => exact h.sndLbb
      case sndBuf => exact h.sndBuf
      case queuelen =>
        rcases hqueues'.putUnacked_split with ⟨pre, post, hsplit, hputEq, -, -⟩
        have hlen := h.queuelen
        rw [hunsent, hsplit] at hlen
        rw [hputEq]
        simp only [pbufs_append, pbufs, hclen] at hlen ⊢
        omega
      case queuelen_le => exact h.queuelen_le
      case mss => exact h.mss
      case timer => exact fun _ => rfl
      case wire =>
        intro g hg
        rcases List.mem_append.mp hg with hg | hg
        . exact h.wire g hg
        . rw [List.mem_singleton.mp hg]
          exact hqueues'.inStream hmem'
      case synProbes => exact h.synProbes
    . exact h.room
  . constructor
    case wire =>
      refine ⟨[seg'], rfl, ?_⟩
      intro g hg
      rw [List.mem_singleton.mp hg, hsame.pos, hsame.data]
      exact hpos
    case wnd => exact hw
    all_goals rfl

theorem Live.outputLoop {unsent : List SendSeg}
    : ∀ {s : TcpSender} {sent : Nat}, s.wnd = w → s.unsent = unsent → s.Live acked sent →
        ∃ sent', sent ≤ sent' ∧ (outputLoop w unsent s).Live acked sent'
          ∧ Sends acked w s (outputLoop w unsent s) := by
  induction unsent with
  | nil => exact fun hw _ h => ⟨_, Nat.le_refl _, h, Sends.refl hw⟩
  | cons seg next ih =>
    intro s sent hw hunsent h
    rw [TcpSender.outputLoop]
    split
    case isTrue hgo =>
      rcases h.send hunsent hw hgo.1 with ⟨sent₁, hle, hlive, hsends⟩
      rcases ih hsends.wnd rfl hlive with ⟨sent₂, hle', hlive', hsends'⟩
      exact ⟨sent₂, Nat.le_trans hle hle', hlive', hsends.trans hsends'⟩
    case isFalse => exact ⟨sent, Nat.le_refl _, h, Sends.refl hw⟩

theorem Live.tcpOutput (h : s.Live acked sent)
    : ∃ sent', sent ≤ sent' ∧ s.tcpOutput.Live acked sent' ∧ Sends acked s.wnd s s.tcpOutput := by
  unfold TcpSender.tcpOutput
  split
  case isTrue =>
    refine ⟨sent, Nat.le_refl _, ⟨{ h with }, h.room⟩, ?_⟩
    exact ⟨rfl, rfl, rfl, rfl, rfl, [], by simp⟩
  case isFalse =>
    rcases Live.outputLoop rfl rfl h with ⟨sent', hle, hlive, hsends⟩
    refine ⟨sent', hle, ⟨{ hlive with }, hlive.room⟩, ?_⟩
    exact ⟨hsends.wnd, hsends.state, hsends.iss, hsends.written, hsends.lastack, hsends.wire⟩

end Output

section Rexmit

theorem pbufs_insert (seg : SendSeg) (l : List SendSeg) : pbufs (seg.insert l) = seg.clen.toNat + pbufs l := by
  induction l with
  | nil => rfl
  | cons cur next ih =>
    rw [SendSeg.insert]
    split
    . simp only [pbufs, ih]
      omega
    . rfl

theorem Live.tcpRexmit (h : s.Live acked sent) : s.tcpRexmit.Live acked sent := by
  unfold TcpSender.tcpRexmit
  split
  . exact h
  . next seg unacked hunacked =>
    have hqueues := h.queues
    have hlen := h.queuelen
    rw [hunacked] at hqueues hlen
    refine ⟨{ h with queues := hqueues.rexmit, queuelen := ?_, timer := fun _ => h.timer (by simp [hunacked]) },
      h.room⟩
    simp only [pbufs, pbufs_insert] at hlen ⊢
    omega

theorem tcpRexmit_eq (s : TcpSender)
    : ∃ unacked unsent, s.tcpRexmit = { s with unacked, unsent } := by
  unfold tcpRexmit
  split
  . exact ⟨s.unacked, s.unsent, rfl⟩
  . exact ⟨_, _, rfl⟩

theorem Live.tcpRexmitFast (h : s.Live acked sent) : s.tcpRexmitFast.Live acked sent := by
  unfold TcpSender.tcpRexmitFast
  split
  . have hlive := h.tcpRexmit
    exact ⟨{ hlive with }, hlive.room⟩
  . exact h

theorem tcpRexmitFast_eq (s : TcpSender)
    : ∃ unacked unsent ssthresh cwnd tfInfr,
        s.tcpRexmitFast = { s with unacked, unsent, ssthresh, cwnd, tfInfr } := by
  unfold tcpRexmitFast
  split
  . rcases tcpRexmit_eq s with ⟨unacked, unsent, heq⟩
    rw [heq]
    exact ⟨_, _, _, _, _, rfl⟩
  . exact ⟨_, _, _, _, _, rfl⟩

theorem Live.tcpRexmitRto (h : s.Live acked sent)
    : ∃ sent', sent ≤ sent' ∧ s.tcpRexmitRto.Live acked sent' ∧ Sends acked s.wnd s s.tcpRexmitRto := by
  unfold TcpSender.tcpRexmitRto
  split
  . exact ⟨sent, Nat.le_refl _, h, Sends.refl rfl⟩
  . have hlive : ({ s with unsent := s.unacked ++ s.unsent, unacked := [] } : TcpSender).Live acked sent := by
      refine ⟨{ h with queues := h.queues.rexmitRto, queuelen := ?_, timer := fun hne => absurd rfl hne }, h.room⟩
      simp only [pbufs, pbufs_append, Nat.zero_add]
      exact h.queuelen
    rcases hlive.tcpOutput with ⟨sent', hle, hlive', hsends⟩
    exact ⟨sent', hle, hlive', hsends.wnd, hsends.state, hsends.iss, hsends.written, hsends.lastack,
      hsends.wire⟩

theorem Live.slowtmrRexmit (h : s.Live acked sent)
    : ∃ sent', sent ≤ sent' ∧ s.slowtmrRexmit.Live acked sent'
        ∧ Sends acked (min s.sndWnd.toNat s.mss.toNat) s s.slowtmrRexmit := by
  unfold TcpSender.slowtmrRexmit
  dsimp only
  generalize (if min s.cwnd s.sndWnd >>> 1 < s.mss then s.mss * 2 else min s.cwnd s.sndWnd >>> 1) = ssthresh
  have hlive : ({ s with rtime := true, ssthresh, cwnd := s.mss } : TcpSender).Live acked sent :=
    ⟨{ h with timer := fun _ => rfl }, h.room⟩
  rcases hlive.tcpRexmitRto with ⟨sent', hle, hlive', hsends⟩
  exact ⟨sent', hle, hlive', hsends.wnd, hsends.state, hsends.iss, hsends.written, hsends.lastack,
    hsends.wire⟩

end Rexmit

end TcpSender

end SerialGateway
