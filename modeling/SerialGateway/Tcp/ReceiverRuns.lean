import SerialGateway.Lib.Transition
import SerialGateway.Tcp.Receiver

/-!
This module contains what holds of the receiving half of a connection over whole runs: the application gets
the stream of the peer in order, without gaps and once, and the announced window does not shrink.
-/

open SerialNumber

namespace SerialGateway

def SeqItem.byte? : SeqItem → Option UInt8
  | .byte b => some b
  | _ => none

def bytes (items : List SeqItem) : List UInt8 := items.filterMap SeqItem.byte?

def fins (items : List SeqItem) : Nat := items.count .fin

theorem bytes_append (a b : List SeqItem) : bytes (a ++ b) = bytes a ++ bytes b := List.filterMap_append

theorem fins_append (a b : List SeqItem) : fins (a ++ b) = fins a + fins b := List.count_append

theorem bytes_map_byte (data : List UInt8) : bytes (data.map .byte) = data := by
  induction data with
  | nil => rfl
  | cons b data ih => exact congrArg (b :: ·) ih

theorem fins_map_byte (data : List UInt8) : fins (data.map .byte) = 0 := by
  induction data with
  | nil => rfl
  | cons b data ih => exact ih

theorem ofPos_succ_sub_one (base : SeqNo) (n : Nat) : ofPos base (n + 1) - 1 = ofPos base n := by
  rw [← ofPos_add]
  exact BitVec.add_sub_cancel _ _

theorem tcpSeqBetween_ofPos {base : SeqNo} {a b c : Nat} (hab : a ≤ b + 2000000000) (hba : b ≤ a + 2000000000)
    (hac : a ≤ c + 2000000000) (hca : c ≤ a + 2000000000)
    : tcpSeqBetween (ofPos base a) (ofPos base b) (ofPos base c) = decide (b ≤ a ∧ a ≤ c) := by
  rw [tcpSeqBetween, tcpSeqGeq, tcpSeqLeq, diff_ofPos (by omega) (by omega), diff_ofPos (by omega) (by omega),
    Bool.decide_and]
  congr 1
  . apply decide_eq_decide.mpr
    omega
  . apply decide_eq_decide.mpr
    omega

namespace InSeg

variable {seg : InSeg}

theorem length_items (seg : InSeg) : seg.items.length = seg.tcpTcplen := by
  unfold items TcpFlags.items tcpTcplen
  cases seg.fin <;> simp

theorem bytes_items (seg : InSeg) : bytes seg.items = seg.data := by
  have hnone : bytes [] = [] ∧ bytes [.fin] = [] := ⟨rfl, rfl⟩
  unfold items TcpFlags.items
  cases seg.fin <;> simp [bytes_append, bytes_map_byte, hnone]

theorem fins_items (seg : InSeg) : fins seg.items = if seg.fin then 1 else 0 := by
  have hnone : fins [] = 0 ∧ fins [.fin] = 1 := ⟨rfl, rfl⟩
  unfold items TcpFlags.items
  cases seg.fin <;> simp [fins_append, fins_map_byte, hnone]

theorem items_drop {k : Nat} (hk : k ≤ seg.data.length) (seqno : SeqNo)
    : ({ seg with seqno, data := seg.data.drop k } : InSeg).items = seg.items.drop k := by
  unfold items TcpFlags.items
  simp [List.drop_append_of_le_length, hk]

theorem items_take (seg : InSeg) (k : Nat)
    : ({ seg with data := seg.data.take k, fin := false } : InSeg).items <+: seg.items := by
  unfold items TcpFlags.items
  simp only [Bool.false_eq_true, if_false, List.append_nil, List.nil_append, List.map_take]
  exact (List.take_prefix _ _).trans (List.prefix_append _ _)

end InSeg

namespace TcpReceiver

variable {s s' : TcpReceiver} {seg : InSeg} {stream : List SeqItem} {pos : Nat}

structure Sync (s : TcpReceiver) : Prop where
  rcvNxt : s.rcvNxt = ofPos s.irs s.rcvd
  pos : 1 ≤ s.rcvd
  rcvWnd : s.rcvWnd ≤ tcpWnd
  sent : ∀ a ∈ s.sent, a.ackno = ofPos s.irs a.pos ∧ a.pos ≤ s.rcvd

structure Arrives (stream : List SeqItem) (s : TcpReceiver) (seg : InSeg) (pos : Nat) : Prop where
  seqno : seg.seqno = ofPos s.irs pos
  slice : s.rcvd < pos + seg.tcpTcplen → Slice.Of ⟨pos, seg.items⟩ stream
  old : s.rcvd ≤ pos + 1073741824
  new : pos ≤ s.rcvd + 1073741824
  short : seg.data.length ≤ 65535

theorem tcpUpdateRcvAnnWnd_eq (s : TcpReceiver)
    : ∃ rcvAnnWnd, s.tcpUpdateRcvAnnWnd.1 = { s with rcvAnnWnd } := by
  unfold tcpUpdateRcvAnnWnd
  dsimp only
  split
  . exact ⟨_, rfl⟩
  . split
    . exact ⟨_, rfl⟩
    . exact ⟨_, rfl⟩

theorem trimFront_cases (h : s.Sync) (harr : Arrives stream s seg pos) (hlen : seg.tcpTcplen > 0)
    : s.trimFront seg = seg ∧ ¬ (pos < s.rcvd ∧ s.rcvd < pos + seg.tcpTcplen)
      ∨ pos < s.rcvd ∧ s.rcvd < pos + seg.tcpTcplen
        ∧ s.trimFront seg = { seg with seqno := s.rcvNxt, data := seg.data.drop (s.rcvd - pos) } := by
  have hshort := harr.short
  have hold := harr.old
  have hnew := harr.new
  have htcplen : seg.tcpTcplen ≤ 65536 := by
    unfold InSeg.tcpTcplen
    split <;> omega
  have hlast : seg.seqno + BitVec.ofNat 32 seg.tcpTcplen - 1 = ofPos s.irs (pos + seg.tcpTcplen - 1) := by
    have hsucc : pos + seg.tcpTcplen = pos + seg.tcpTcplen - 1 + 1 := by omega
    rw [harr.seqno, ofPos_add, hsucc]
    exact ofPos_succ_sub_one _ _
  have hfirst : seg.seqno + 1 = ofPos s.irs (pos + 1) := by
    rw [harr.seqno]
    exact ofPos_add _ _ 1
  unfold trimFront
  rw [hlast, hfirst, h.rcvNxt, tcpSeqBetween_ofPos (by omega) (by omega) (by omega) (by omega)]
  simp only [decide_eq_true_eq]
  split
  case isTrue hin =>
    right
    refine ⟨by omega, by omega, ?_⟩
    rw [harr.seqno, toNat_sub_ofPos _ (by omega) (by omega)]
  case isFalse hout =>
    left
    refine ⟨rfl, ?_⟩
    omega

theorem trimWnd_items (s : TcpReceiver) (seg : InSeg)
    : (s.trimWnd seg).items <+: seg.items ∧ (s.trimWnd seg).seqno = seg.seqno
      ∧ (s.trimWnd seg).tcpTcplen ≤ s.rcvWnd.toNat := by
  unfold trimWnd
  split
  case isTrue =>
    refine ⟨seg.items_take _, rfl, ?_⟩
    simp only [InSeg.tcpTcplen, List.length_take, Bool.false_eq_true, if_false]
    omega
  case isFalse hle => exact ⟨List.prefix_rfl, rfl, Nat.le_of_not_lt hle⟩

theorem trimFront_left (h : s.Sync) (harr : Arrives stream s seg pos) (hlen : seg.tcpTcplen > 0)
    (hseq : s.rcvNxt = (s.trimFront seg).seqno)
    : (s.trimFront seg).items = seg.items.drop (s.rcvd - pos) ∧ pos ≤ s.rcvd
      ∧ s.rcvd < pos + seg.tcpTcplen := by
  rcases trimFront_cases h harr hlen with ⟨heq, hout⟩ | ⟨hlt, hgt, heq⟩
  . rw [heq] at hseq ⊢
    have hold := harr.old
    have hnew := harr.new
    have hpos : s.rcvd = pos := by
      rw [h.rcvNxt, harr.seqno] at hseq
      exact (ofPos_inj (by omega) (by omega)).mp hseq
    subst hpos
    rw [Nat.sub_self, List.drop_zero]
    exact ⟨rfl, Nat.le_refl _, by omega⟩
  . rw [heq]
    refine ⟨InSeg.items_drop ?_ _, Nat.le_of_lt hlt, hgt⟩
    unfold InSeg.tcpTcplen at hgt
    split at hgt <;> omega

theorem tcpReceive_cases (h : s.Sync) (harr : Arrives stream s seg pos)
    : (s.tcpReceive seg = (s, [], false) ∨ s.tcpReceive seg = (s.announce, [], false))
      ∨ ∃ seg' : InSeg, s.tcpReceive seg = (s.take seg', seg'.data, seg'.fin) ∧ seg'.seqno = s.rcvNxt
        ∧ seg'.items <+: stream.drop s.rcvd ∧ seg'.tcpTcplen ≤ s.rcvWnd.toNat := by
  unfold tcpReceive
  split
  case isFalse => exact .inl (.inl rfl)
  case isTrue hlen =>
    dsimp only
    split
    case isFalse => exact .inl (.inr rfl)
    case isTrue =>
      split
      case isFalse => exact .inl (.inr rfl)
      case isTrue hseq =>
        rcases trimFront_left h harr hlen hseq with ⟨hitems, hle, hlt⟩
        rcases trimWnd_items s (s.trimFront seg) with ⟨hpre, hseqno, hroom⟩
        refine .inr ⟨_, rfl, hseqno.trans hseq.symm, hpre.trans ?_, hroom⟩
        rw [hitems]
        exact (harr.slice hlt).drop hle

section Stream

structure Took (stream : List SeqItem) (s : TcpReceiver) : Prop where
  le : s.rcvd ≤ stream.length
  data : s.taken ++ s.refusedData.getD [] = bytes (stream.take s.rcvd)
  eof : s.eof = fins (stream.take s.rcvd)

theorem Took.append (h : Took stream s) (items : List SeqItem) : Took (stream ++ items) s where
  le := by
    rw [List.length_append]
    exact Nat.le_add_right_of_le h.le
  data := by
    rw [List.take_append_of_le_length h.le]
    exact h.data
  eof := by
    rw [List.take_append_of_le_length h.le]
    exact h.eof

theorem Sync.announce (h : s.Sync) : s.announce.Sync where
  rcvNxt := h.rcvNxt
  pos := h.pos
  rcvWnd := h.rcvWnd
  sent := by
    intro a ha
    rcases List.mem_append.mp ha with ha | ha
    . exact h.sent a ha
    . rw [List.mem_singleton.mp ha]
      exact ⟨h.rcvNxt, Nat.le_refl _⟩

theorem Sync.tcpUpdateRcvAnnWnd (h : s.Sync) : s.tcpUpdateRcvAnnWnd.1.Sync := by
  rcases tcpUpdateRcvAnnWnd_eq s with ⟨rcvAnnWnd, heq⟩
  rw [heq]
  exact { h with }

theorem Sync.tcpRecved (h : s.Sync) (len : UInt16) : (s.tcpRecved len).Sync := by
  unfold TcpReceiver.tcpRecved
  dsimp only
  apply Sync.tcpUpdateRcvAnnWnd
  refine { h with rcvWnd := ?_ }
  dsimp only
  split
  case isTrue => exact UInt16.le_refl _
  case isFalse hle => exact UInt16.not_lt.mp hle

theorem Sync.taken (h : s.Sync) (hseqno : seg.seqno = s.rcvNxt) (hroom : seg.tcpTcplen ≤ s.rcvWnd.toNat)
    : ({ s with
        rcvNxt := seg.seqno + BitVec.ofNat 32 seg.tcpTcplen
        rcvWnd := s.rcvWnd - UInt16.ofNat seg.tcpTcplen
        rcvd := s.rcvd + seg.tcpTcplen } : TcpReceiver).Sync := by
  have hwnd := UInt16.le_iff_toNat_le.mp h.rcvWnd
  simp only [tcpWnd, UInt16.reduceToNat] at hwnd
  constructor
  case rcvNxt =>
    dsimp only
    rw [hseqno, h.rcvNxt, ofPos_add]
  case pos => exact Nat.le_add_right_of_le h.pos
  case rcvWnd =>
    apply UInt16.le_iff_toNat_le.mpr
    simp only [UInt16.toNat_sub, UInt16.toNat_ofNat', tcpWnd, UInt16.reduceToNat]
    omega
  case sent =>
    intro a ha
    exact ⟨(h.sent a ha).1, Nat.le_add_right_of_le (h.sent a ha).2⟩

theorem Sync.take (h : s.Sync) (hseqno : seg.seqno = s.rcvNxt) (hroom : seg.tcpTcplen ≤ s.rcvWnd.toNat)
    : (s.take seg).Sync := (h.taken hseqno hroom).tcpUpdateRcvAnnWnd

theorem tcpRecved_eq (s : TcpReceiver) (len : UInt16)
    : ∃ rcvWnd rcvAnnWnd, s.tcpRecved len = { s with rcvWnd, rcvAnnWnd } := by
  unfold tcpRecved
  dsimp only
  rcases tcpUpdateRcvAnnWnd_eq { s with rcvWnd := if s.rcvWnd + len > tcpWnd then tcpWnd else s.rcvWnd + len } with
    ⟨rcvAnnWnd, heq⟩
  exact ⟨_, rcvAnnWnd, heq⟩

theorem eventRecv_eq (s : TcpReceiver) (p : List UInt8) (reply : Reply)
    : ∃ rcvWnd rcvAnnWnd, s.eventRecv p reply =
        { s with
          rcvWnd, rcvAnnWnd
          taken := if reply.accept then s.taken ++ p else s.taken
          refusedData := if reply.accept then none else some p } := by
  rcases reply with ⟨accept, recved⟩
  unfold eventRecv
  cases recved with
  | none =>
    refine ⟨s.rcvWnd, s.rcvAnnWnd, ?_⟩
    cases accept <;> rfl
  | some len =>
    rcases tcpRecved_eq s len with ⟨rcvWnd, rcvAnnWnd, heq⟩
    refine ⟨rcvWnd, rcvAnnWnd, ?_⟩
    dsimp only
    rw [heq]
    cases accept <;> rfl

theorem Sync.eventRecv (h : s.Sync) (p : List UInt8) (reply : Reply) : (s.eventRecv p reply).Sync := by
  unfold TcpReceiver.eventRecv
  cases reply.recved with
  | some len =>
    have hrecved := h.tcpRecved len
    dsimp only
    split
    . exact { hrecved with }
    . exact { hrecved with }
  | none =>
    dsimp only
    split
    . exact { h with }
    . exact { h with }

theorem Took.notifyRefused (h : Took stream s) (reply : Reply) : Took stream (s.notifyRefused reply) := by
  unfold TcpReceiver.notifyRefused
  split
  case h_2 => exact h
  case h_1 p hp =>
    rcases eventRecv_eq s p reply with ⟨rcvWnd, rcvAnnWnd, heq⟩
    have hdata := h.data
    rw [hp, Option.getD_some] at hdata
    rw [heq]
    refine ⟨h.le, ?_, h.eof⟩
    cases reply.accept
    . exact hdata
    . simpa using hdata

theorem notifyRefused_eq (s : TcpReceiver) (reply : Reply)
    : ∃ rcvWnd rcvAnnWnd taken refusedData,
        s.notifyRefused reply = { s with rcvWnd, rcvAnnWnd, taken, refusedData } := by
  unfold notifyRefused
  split
  . rcases eventRecv_eq s _ reply with ⟨rcvWnd, rcvAnnWnd, heq⟩
    exact ⟨_, _, _, _, heq⟩
  . exact ⟨_, _, _, _, rfl⟩

theorem Sync.notifyRefused (h : s.Sync) (reply : Reply) : (s.notifyRefused reply).Sync := by
  unfold TcpReceiver.notifyRefused
  split
  . exact h.eventRecv _ reply
  . exact h

theorem take_eq (s : TcpReceiver) (seg : InSeg)
    : ∃ rcvWnd rcvAnnWnd,
        s.take seg =
          { s with
            rcvNxt := seg.seqno + BitVec.ofNat 32 seg.tcpTcplen
            rcvWnd, rcvAnnWnd
            rcvd := s.rcvd + seg.tcpTcplen } := by
  unfold take
  rcases tcpUpdateRcvAnnWnd_eq { s with
      rcvNxt := seg.seqno + BitVec.ofNat 32 seg.tcpTcplen
      rcvWnd := s.rcvWnd - UInt16.ofNat seg.tcpTcplen
      rcvd := s.rcvd + seg.tcpTcplen } with ⟨rcvAnnWnd, heq⟩
  exact ⟨_, rcvAnnWnd, heq⟩

theorem Took.hand (h : Took stream s) (hnone : s.refusedData = none) (hitems : seg.items <+: stream.drop s.rcvd)
    (reply : Reply)
    : let s₁ := if seg.data = [] then s.take seg else (s.take seg).eventRecv seg.data reply
      Took stream (if seg.fin then { s₁ with eof := s₁.eof + 1 } else s₁) := by
  have hsplit : stream.take (s.rcvd + seg.tcpTcplen) = stream.take s.rcvd ++ seg.items := by
    rw [← seg.length_items, List.take_add, ← List.prefix_iff_eq_take.mp hitems]
  have hle : s.rcvd + seg.tcpTcplen ≤ stream.length := by
    have hlen := hitems.length_le
    have := h.le
    rw [List.length_drop, seg.length_items] at hlen
    omega
  have hdata : s.taken ++ seg.data = bytes (stream.take (s.rcvd + seg.tcpTcplen)) := by
    have hold := h.data
    rw [hnone, Option.getD_none, List.append_nil] at hold
    rw [hsplit, bytes_append, seg.bytes_items, hold]
  have heof : s.eof + (if seg.fin then 1 else 0) = fins (stream.take (s.rcvd + seg.tcpTcplen)) := by
    rw [hsplit, fins_append, seg.fins_items, h.eof]
  rcases take_eq s seg with ⟨rcvWnd, rcvAnnWnd, heq⟩
  rw [heq]
  intro s₁
  have hs₁ : s₁.rcvd = s.rcvd + seg.tcpTcplen ∧ s₁.eof = s.eof
      ∧ s₁.taken ++ s₁.refusedData.getD [] = s.taken ++ seg.data := by
    simp only [s₁]
    split
    case isTrue hnil => simp [hnone, hnil]
    case isFalse =>
      rcases eventRecv_eq { s with
          rcvNxt := seg.seqno + BitVec.ofNat 32 seg.tcpTcplen
          rcvWnd, rcvAnnWnd
          rcvd := s.rcvd + seg.tcpTcplen } seg.data reply with ⟨_, _, hevent⟩
      rw [hevent]
      refine ⟨rfl, rfl, ?_⟩
      cases reply.accept <;> simp
  rcases hs₁ with ⟨hrcvd, hs₁eof, hs₁data⟩
  have htook (eof : Nat) (h : eof = fins (stream.take (s.rcvd + seg.tcpTcplen)))
      : Took stream { s₁ with eof } := by
    constructor
    case le => exact hrcvd ▸ hle
    case data => exact (hs₁data.trans hdata).trans (by rw [hrcvd])
    case eof => exact h.trans (by rw [hrcvd])
  cases hfin : seg.fin <;> rw [hfin] at heof
  . exact htook s₁.eof (hs₁eof.trans heof)
  . exact htook (s₁.eof + 1) ((congrArg (· + 1) hs₁eof).trans heof)

theorem Arrives.notifyRefused (h : Arrives stream s seg pos) (reply : Reply)
    : Arrives stream (s.notifyRefused reply) seg pos := by
  rcases notifyRefused_eq s reply with ⟨_, _, _, _, heq⟩
  rw [heq]
  exact { h with }

theorem Took.tcpInput (h : Took stream s) (hsync : s.Sync) (harr : Arrives stream s seg pos) (refused new : Reply)
    : Took stream (s.tcpInput seg refused new) ∧ (s.tcpInput seg refused new).Sync := by
  unfold TcpReceiver.tcpInput
  have h₁ := h.notifyRefused refused
  have hsync₁ := hsync.notifyRefused refused
  have harr₁ := harr.notifyRefused refused
  generalize s.notifyRefused refused = s₁ at h₁ hsync₁ harr₁
  dsimp only
  split
  case isTrue => exact ⟨h₁, hsync₁⟩
  case isFalse hnone =>
    have hnone : s₁.refusedData = none := by simpa using hnone
    rcases tcpReceive_cases hsync₁ harr₁ with (heq | heq) | ⟨seg', heq, hseqno, hitems, hroom⟩
    . rw [heq]
      exact ⟨h₁, hsync₁⟩
    . rw [heq]
      exact ⟨{ h₁ with }, hsync₁.announce⟩
    . rw [heq]
      refine ⟨h₁.hand hnone hitems new, ?_⟩
      have htake := hsync₁.take hseqno hroom
      have hevent : (if seg'.data = [] then s₁.take seg' else (s₁.take seg').eventRecv seg'.data new).Sync := by
        split
        . exact htake
        . exact htake.eventRecv _ _
      dsimp only
      split
      . exact { hevent with }
      . exact hevent

end Stream

section Window

structure Window (s : TcpReceiver) : Prop where
  edge : s.rcvAnnRightEdge = ofPos s.irs s.annEdge
  le : s.annEdge ≤ s.rcvd + s.rcvAnnWnd.toNat
  wnd : s.rcvAnnWnd ≤ s.rcvWnd
  sent : ∀ a ∈ s.sent, a.pos + a.wnd.toNat ≤ s.annEdge
  sorted : s.sent.Pairwise fun a b => a.pos + a.wnd.toNat ≤ b.pos + b.wnd.toNat

theorem Window.le_rcvWnd (h : Window s) : s.annEdge ≤ s.rcvd + s.rcvWnd.toNat := by
  have hle := h.le
  have hwnd := UInt16.le_iff_toNat_le.mp h.wnd
  omega

theorem window_tcpUpdateRcvAnnWnd (hsync : s.Sync) (hedge : s.rcvAnnRightEdge = ofPos s.irs s.annEdge)
    (hle : s.annEdge ≤ s.rcvd + s.rcvWnd.toNat) (hrecent : s.rcvd ≤ s.annEdge + 2000000000)
    (hsent : ∀ a ∈ s.sent, a.pos + a.wnd.toNat ≤ s.annEdge)
    (hsorted : s.sent.Pairwise fun a b => a.pos + a.wnd.toNat ≤ b.pos + b.wnd.toNat)
    : Window s.tcpUpdateRcvAnnWnd.1 := by
  have hwnd := UInt16.le_iff_toNat_le.mp hsync.rcvWnd
  simp only [tcpWnd, UInt16.reduceToNat] at hwnd
  have hgeq : tcpSeqGeq (s.rcvNxt + BitVec.ofNat 32 s.rcvWnd.toNat)
      (s.rcvAnnRightEdge + BitVec.ofNat 32 (min (tcpWnd.toNat / 2) s.mss.toNat))
        = decide (s.annEdge + min (tcpWnd.toNat / 2) s.mss.toNat ≤ s.rcvd + s.rcvWnd.toNat) := by
    have hstep : min (tcpWnd.toNat / 2) s.mss.toNat ≤ 1460 := Nat.min_le_left _ _
    rw [hsync.rcvNxt, hedge, ofPos_add, ofPos_add, tcpSeqGeq, diff_ofPos (by omega) (by omega)]
    apply decide_eq_decide.mpr
    omega
  have hgt : tcpSeqGt s.rcvNxt s.rcvAnnRightEdge = decide (s.annEdge < s.rcvd) := by
    rw [hsync.rcvNxt, hedge, tcpSeqGt, diff_ofPos (by omega) (by omega)]
    apply decide_eq_decide.mpr
    omega
  unfold tcpUpdateRcvAnnWnd
  dsimp only
  rw [hgeq, hgt]
  simp only [decide_eq_true_eq]
  split
  . exact ⟨hedge, hle, UInt16.le_refl _, hsent, hsorted⟩
  . split
    case isTrue hover =>
      refine ⟨hedge, ?_, UInt16.zero_le, hsent, hsorted⟩
      dsimp only
      omega
    case isFalse hnot =>
      have hsub : (s.rcvAnnRightEdge - s.rcvNxt).toNat = s.annEdge - s.rcvd := by
        rw [hsync.rcvNxt, hedge]
        exact toNat_sub_ofPos _ (by omega) (by omega)
      have hofNat : (UInt16.ofNat (s.annEdge - s.rcvd)).toNat = s.annEdge - s.rcvd := by
        rw [UInt16.toNat_ofNat', Nat.mod_eq_of_lt]
        omega
      rw [hsub]
      refine ⟨hedge, ?_, ?_, hsent, hsorted⟩
      . dsimp only
        omega
      . apply UInt16.le_iff_toNat_le.mpr
        dsimp only
        omega

theorem Window.announce (h : Window s) (hsync : s.Sync) : Window s.announce where
  edge := by
    unfold TcpReceiver.announce
    dsimp only
    rw [hsync.rcvNxt, ofPos_add]
  le := Nat.le_refl _
  wnd := h.wnd
  sent := by
    intro a ha
    rcases List.mem_append.mp ha with ha | ha
    . exact Nat.le_trans (h.sent a ha) h.le
    . rw [List.mem_singleton.mp ha]
      exact Nat.le_refl _
  sorted := by
    apply List.pairwise_append.mpr
    refine ⟨h.sorted, List.pairwise_singleton _ _, ?_⟩
    intro a ha b hb
    rw [List.mem_singleton.mp hb]
    exact Nat.le_trans (h.sent a ha) h.le

theorem Window.tcpRecved (h : Window s) (hsync : s.Sync) (hrecent : s.rcvd ≤ s.annEdge + 2000000000)
    {len : UInt16} (hlen : len.toNat ≤ 65535 - s.rcvWnd.toNat)
    : Window (s.tcpRecved len) := by
  have hle := h.le_rcvWnd
  have hwnd := UInt16.le_iff_toNat_le.mp hsync.rcvWnd
  have hrcvWnd := s.rcvWnd.toNat_lt
  have hadd : (s.rcvWnd + len).toNat = s.rcvWnd.toNat + len.toNat := by
    rw [UInt16.toNat_add, Nat.mod_eq_of_lt]
    omega
  have hmore : s.rcvWnd.toNat ≤ (if s.rcvWnd + len > tcpWnd then tcpWnd else s.rcvWnd + len).toNat
      ∧ (if s.rcvWnd + len > tcpWnd then tcpWnd else s.rcvWnd + len) ≤ tcpWnd := by
    split
    case isTrue => exact ⟨hwnd, UInt16.le_refl _⟩
    case isFalse hnot => exact ⟨by omega, UInt16.not_lt.mp hnot⟩
  unfold TcpReceiver.tcpRecved
  dsimp only
  apply window_tcpUpdateRcvAnnWnd
  case hsync => exact { hsync with rcvWnd := hmore.2 }
  case hedge => exact h.edge
  case hle => exact Nat.le_trans hle (Nat.add_le_add_left hmore.1 _)
  case hrecent => exact hrecent
  case hsent => exact h.sent
  case hsorted => exact h.sorted

theorem Window.take (h : Window s) (hsync : s.Sync) (hrecent : s.rcvd ≤ s.annEdge + 1073741824)
    (hseqno : seg.seqno = s.rcvNxt) (hroom : seg.tcpTcplen ≤ s.rcvWnd.toNat)
    : Window (s.take seg) := by
  have hle := h.le_rcvWnd
  have hwnd := UInt16.le_iff_toNat_le.mp hsync.rcvWnd
  simp only [tcpWnd, UInt16.reduceToNat] at hwnd
  have hsub : (s.rcvWnd - UInt16.ofNat seg.tcpTcplen).toNat = s.rcvWnd.toNat - seg.tcpTcplen := by
    have hofNat : (UInt16.ofNat seg.tcpTcplen).toNat = seg.tcpTcplen := by
      rw [UInt16.toNat_ofNat', Nat.mod_eq_of_lt]
      omega
    rw [UInt16.toNat_sub_of_le, hofNat]
    apply UInt16.le_iff_toNat_le.mpr
    omega
  unfold TcpReceiver.take
  apply window_tcpUpdateRcvAnnWnd
  case hsync => exact hsync.taken hseqno hroom
  case hedge => exact h.edge
  case hle =>
    dsimp only
    omega
  case hrecent =>
    dsimp only
    omega
  case hsent => exact h.sent
  case hsorted => exact h.sorted

def Fits (s : TcpReceiver) (reply : Reply) : Prop := ∀ len ∈ reply.recved, len.toNat ≤ 65535 - s.rcvWnd.toNat

theorem Window.eventRecv (h : Window s) (hsync : s.Sync) (hrecent : s.rcvd ≤ s.annEdge + 2000000000)
    (p : List UInt8) {reply : Reply} (hfits : s.Fits reply)
    : Window (s.eventRecv p reply) := by
  unfold TcpReceiver.eventRecv
  cases hlen : reply.recved with
  | some len =>
    have hrecved := h.tcpRecved hsync hrecent (hfits len hlen)
    dsimp only
    split
    . exact { hrecved with }
    . exact { hrecved with }
  | none =>
    dsimp only
    split
    . exact { h with }
    . exact { h with }

theorem Window.notifyRefused (h : Window s) (hsync : s.Sync) (hrecent : s.rcvd ≤ s.annEdge + 2000000000)
    {reply : Reply} (hfits : s.Fits reply)
    : Window (s.notifyRefused reply) := by
  unfold TcpReceiver.notifyRefused
  split
  . exact h.eventRecv hsync hrecent _ hfits
  . exact h

theorem Window.tcpInput (h : Window s) (hsync : s.Sync) (hrecent : s.rcvd ≤ s.annEdge + 1073741824)
    (harr : Arrives stream s seg pos) {refused new : Reply} (hrefused : s.Fits refused)
    (hnew : ((s.notifyRefused refused).tcpReceive seg).1.Fits new)
    : Window (s.tcpInput seg refused new) := by
  unfold TcpReceiver.tcpInput
  have h₁ := h.notifyRefused hsync (by omega) hrefused
  have hsync₁ := hsync.notifyRefused refused
  have harr₁ := harr.notifyRefused refused
  have hrecent₁ : (s.notifyRefused refused).rcvd ≤ (s.notifyRefused refused).annEdge + 1073741824 := by
    rcases notifyRefused_eq s refused with ⟨_, _, _, _, heq⟩
    rw [heq]
    exact hrecent
  generalize s.notifyRefused refused = s₁ at h₁ hsync₁ harr₁ hrecent₁ hnew
  dsimp only
  split
  case isTrue => exact h₁
  case isFalse =>
    rcases tcpReceive_cases hsync₁ harr₁ with (heq | heq) | ⟨seg', heq, hseqno, -, hroom⟩
    . rw [heq]
      exact h₁
    . rw [heq]
      exact h₁.announce hsync₁
    . rw [heq]
      rw [heq] at hnew
      have htake := h₁.take hsync₁ hrecent₁ hseqno hroom
      have hrecent₂ : (s₁.take seg').rcvd ≤ (s₁.take seg').annEdge + 2000000000 := by
        have hwnd := UInt16.le_iff_toNat_le.mp hsync₁.rcvWnd
        simp only [tcpWnd, UInt16.reduceToNat] at hwnd
        rcases take_eq s₁ seg' with ⟨_, _, htake⟩
        rw [htake]
        dsimp only
        omega
      have hevent : Window (if seg'.data = [] then s₁.take seg' else (s₁.take seg').eventRecv seg'.data new) := by
        split
        . exact htake
        . exact htake.eventRecv (hsync₁.take hseqno hroom) hrecent₂ _ hnew
      dsimp only
      split
      . exact { hevent with }
      . exact hevent

end Window

section Run

variable {act : RecvAct} {acts : List RecvAct} {mss : UInt16} {irs : SeqNo}

def FromStream (stream : List SeqItem) (s : TcpReceiver) : RecvAct → Prop
  | .input seg _ _ => ∃ pos, Arrives stream s seg pos
  | _ => True

def Reports (s : TcpReceiver) (act : RecvAct) : Prop :=
  s.rcvd ≤ s.annEdge + 1073741824
    ∧ match act with
      | .input seg refused new => s.Fits refused ∧ ((s.notifyRefused refused).tcpReceive seg).1.Fits new
      | .recved len => len.toNat ≤ 65535 - s.rcvWnd.toNat
      | .fasttmr reply => s.Fits reply
      | _ => True

theorem tcpReceive_rcvd (s : TcpReceiver) (seg : InSeg)
    : s.rcvd ≤ (s.tcpReceive seg).1.rcvd ∧ (s.tcpReceive seg).1.irs = s.irs := by
  unfold tcpReceive
  dsimp only
  split
  . split
    . split
      . rcases take_eq s (s.trimWnd (s.trimFront seg)) with ⟨_, _, heq⟩
        rw [heq]
        exact ⟨Nat.le_add_right _ _, rfl⟩
      . exact ⟨Nat.le_refl _, rfl⟩
    . exact ⟨Nat.le_refl _, rfl⟩
  . exact ⟨Nat.le_refl _, rfl⟩

theorem tcpInput_rcvd (s : TcpReceiver) (seg : InSeg) (refused new : Reply)
    : s.rcvd ≤ (s.tcpInput seg refused new).rcvd ∧ (s.tcpInput seg refused new).irs = s.irs := by
  have hrefused : (s.notifyRefused refused).rcvd = s.rcvd ∧ (s.notifyRefused refused).irs = s.irs := by
    rcases notifyRefused_eq s refused with ⟨_, _, _, _, heq⟩
    rw [heq]
    exact ⟨rfl, rfl⟩
  unfold tcpInput
  generalize s.notifyRefused refused = s₁ at hrefused
  have hreceive := tcpReceive_rcvd s₁ seg
  rcases hrefused with ⟨hrcvd, hirs⟩
  rw [hrcvd, hirs] at hreceive
  dsimp only
  split
  . exact ⟨Nat.le_of_eq hrcvd.symm, hirs⟩
  . generalize s₁.tcpReceive seg = received at hreceive
    rcases received with ⟨s₂, recvData, gotFin⟩
    rcases eventRecv_eq s₂ recvData new with ⟨_, _, heq⟩
    dsimp only at hreceive ⊢
    rw [heq]
    split <;> split <;> exact hreceive

theorem step_rcvd (hstep : s.step act = some s') : s.rcvd ≤ s'.rcvd ∧ s'.irs = s.irs := by
  cases act with
  | input seg refused new =>
    cases hstep
    exact tcpInput_rcvd s seg refused new
  | recved len =>
    cases hstep
    rcases tcpRecved_eq s len with ⟨_, _, heq⟩
    rw [heq]
    exact ⟨Nat.le_refl _, rfl⟩
  | fasttmr reply =>
    cases hstep
    rcases notifyRefused_eq s reply with ⟨_, _, _, _, heq⟩
    rw [heq]
    exact ⟨Nat.le_refl _, rfl⟩
  | mssOption mss =>
    cases hstep
    exact ⟨Nat.le_refl _, rfl⟩
  | sent =>
    cases hstep
    exact ⟨Nat.le_refl _, rfl⟩

instance (s : TcpReceiver) (reply : Reply) : Decidable (s.Fits reply) :=
  Option.decidableForallMem reply.recved

instance (s : TcpReceiver) : (act : RecvAct) → Decidable (s.Reports act)
  | .input _ _ _ => inferInstanceAs (Decidable (_ ∧ Fits _ _ ∧ Fits _ _))
  | .recved _ => inferInstanceAs (Decidable (_ ∧ _ ≤ _))
  | .fasttmr _ => inferInstanceAs (Decidable (_ ∧ Fits _ _))
  | .mssOption _ | .sent => inferInstanceAs (Decidable (_ ∧ True))

theorem Took.step (h : Took stream s) (hsync : s.Sync) (hfrom : FromStream stream s act)
    (hstep : s.step act = some s')
    : Took stream s' ∧ s'.Sync := by
  cases act with
  | input seg refused new =>
    cases hstep
    rcases hfrom with ⟨pos, harr⟩
    exact h.tcpInput hsync harr refused new
  | recved len =>
    cases hstep
    refine ⟨?_, hsync.tcpRecved len⟩
    rcases tcpRecved_eq s len with ⟨_, _, heq⟩
    rw [heq]
    exact { h with }
  | fasttmr reply =>
    cases hstep
    exact ⟨h.notifyRefused reply, hsync.notifyRefused reply⟩
  | mssOption mss =>
    cases hstep
    exact ⟨{ h with }, { hsync with }⟩
  | sent =>
    cases hstep
    exact ⟨{ h with }, hsync.announce⟩

theorem Window.step (h : Window s) (hsync : s.Sync) (hfrom : FromStream stream s act) (hok : s.Reports act)
    (hstep : s.step act = some s')
    : Window s' := by
  rcases hok with ⟨hrecent, hok⟩
  cases act with
  | input seg refused new =>
    cases hstep
    rcases hfrom with ⟨pos, harr⟩
    exact h.tcpInput hsync hrecent harr hok.1 hok.2
  | recved len =>
    cases hstep
    exact h.tcpRecved hsync (by omega) hok
  | fasttmr reply =>
    cases hstep
    exact h.notifyRefused hsync (by omega) hok
  | mssOption mss =>
    cases hstep
    exact { h with }
  | sent =>
    cases hstep
    exact h.announce hsync

theorem start_sync (mss : UInt16) (irs : SeqNo) : (start mss irs).Sync where
  rcvNxt := rfl
  pos := Nat.le_refl _
  rcvWnd := UInt16.le_refl _
  sent := by simp [start]

theorem start_took (mss : UInt16) (irs : SeqNo) (hsyn : stream.head? = some .syn)
    : Took stream (start mss irs) := by
  cases stream with
  | nil => cases hsyn
  | cons item rest =>
    cases hsyn
    exact ⟨Nat.succ_pos _, rfl, rfl⟩

theorem start_window (mss : UInt16) (irs : SeqNo) : Window (start mss irs) where
  edge := rfl
  le := Nat.le_add_right _ _
  wnd := UInt16.le_refl _
  sent := by simp [start]
  sorted := List.Pairwise.nil

theorem Took.run (h : Took stream s) (hsync : s.Sync)
    (hfrom : Transition.Along TcpReceiver.step (FromStream stream) s acts)
    (hrun : Transition.run TcpReceiver.step s acts = some s')
    : Took stream s' ∧ s'.Sync := by
  apply Transition.run_invariant (I := fun s => Took stream s ∧ s.Sync) _ ⟨h, hsync⟩ hfrom hrun
  intro s a s' hs hok hstep
  exact hs.1.step hs.2 hok hstep

theorem taken_in_order (hsyn : stream.head? = some .syn)
    (hrun : Transition.run step (start mss irs) acts = some s)
    (hfrom : Transition.Along step (FromStream stream) (start mss irs) acts)
    : s.rcvd ≤ stream.length ∧ s.rcvNxt = ofPos s.irs s.rcvd
        ∧ s.taken ++ s.refusedData.getD [] = bytes (stream.take s.rcvd)
        ∧ s.eof = fins (stream.take s.rcvd) := by
  rcases (start_took mss irs hsyn).run (start_sync mss irs) hfrom hrun with ⟨htook, hsync⟩
  exact ⟨htook.le, hsync.rcvNxt, htook.data, htook.eof⟩

def refusedActs : List RecvAct :=
  [.sent, .input ⟨1#32, [12, 13], true⟩ ⟨true, none⟩ ⟨true, none⟩,
    .input ⟨0xffffffff#32, [10, 11], false⟩ ⟨true, none⟩ ⟨false, none⟩,
    .input ⟨0#32, [11, 12, 13], true⟩ ⟨true, some 2⟩ ⟨true, some 2⟩]

theorem refusedActs_fromStream
    : Transition.Along step (FromStream [.syn, .byte 10, .byte 11, .byte 12, .byte 13, .fin])
        (start 1460 0xfffffffe#32) refusedActs := by
  refine ⟨trivial, ?_⟩
  rintro _ ⟨⟩
  refine ⟨⟨3, ?_⟩, ?_⟩
  . constructor <;> decide
  rintro _ ⟨⟩
  refine ⟨⟨1, ?_⟩, ?_⟩
  . constructor <;> decide
  rintro _ ⟨⟩
  refine ⟨⟨2, ?_⟩, ?_⟩
  . constructor <;> decide
  rintro _ ⟨⟩
  trivial

theorem taken_in_order_of_refused
    : ∃ s, Transition.run step (start 1460 0xfffffffe#32) refusedActs = some s ∧ s.rcvd = 6
        ∧ s.taken ++ s.refusedData.getD [] = [10, 11, 12, 13] := by
  have hrun : Transition.run step (start 1460 0xfffffffe#32) refusedActs = some _ := rfl
  exact ⟨_, hrun, rfl, (taken_in_order rfl hrun refusedActs_fromStream).2.2.1⟩

theorem window_run (hsyn : stream.head? = some .syn) (hrun : Transition.run step (start mss irs) acts = some s)
    (hfrom : Transition.Along step (FromStream stream) (start mss irs) acts)
    (hok : Transition.Along step Reports (start mss irs) acts)
    : Window s ∧ s.Sync := by
  have hstart : Window (start mss irs) ∧ Took stream (start mss irs) ∧ (start mss irs).Sync :=
    ⟨start_window mss irs, start_took mss irs hsyn, start_sync mss irs⟩
  have hinv : Window s ∧ Took stream s ∧ s.Sync := by
    apply Transition.run_invariant (I := fun s => Window s ∧ Took stream s ∧ s.Sync) _ hstart (hfrom.and hok)
      hrun
    intro s a s' hs hok hstep
    exact ⟨hs.1.step hs.2.2 hok.1 hok.2 hstep, hs.2.1.step hs.2.2 hok.1 hstep⟩
  exact ⟨hinv.1, hinv.2.2⟩

theorem window_never_shrinks (hsyn : stream.head? = some .syn)
    (hrun : Transition.run step (start mss irs) acts = some s)
    (hfrom : Transition.Along step (FromStream stream) (start mss irs) acts)
    (hok : Transition.Along step Reports (start mss irs) acts)
    : (∀ a ∈ s.sent, a.ackno = ofPos s.irs a.pos ∧ a.pos ≤ s.rcvd
          ∧ a.pos + a.wnd.toNat ≤ s.rcvd + s.rcvWnd.toNat)
        ∧ s.sent.Pairwise (fun a b => a.pos + a.wnd.toNat ≤ b.pos + b.wnd.toNat)
        ∧ s.rcvWnd ≤ tcpWnd := by
  rcases window_run hsyn hrun hfrom hok with ⟨hwindow, hsync⟩
  refine ⟨?_, hwindow.sorted, hsync.rcvWnd⟩
  intro a ha
  exact ⟨(hsync.sent a ha).1, (hsync.sent a ha).2, Nat.le_trans (hwindow.sent a ha) hwindow.le_rcvWnd⟩

theorem window_never_shrinks_of_refused
    : ∃ s, Transition.run step (start 1460 0xfffffffe#32) refusedActs = some s
        ∧ s.sent.Pairwise fun a b => a.pos + a.wnd.toNat ≤ b.pos + b.wnd.toNat := by
  have hrun : Transition.run step (start 1460 0xfffffffe#32) refusedActs = some _ := rfl
  have hok : Transition.Along step Reports (start 1460 0xfffffffe#32) refusedActs := by decide
  exact ⟨_, hrun, (window_never_shrinks rfl hrun refusedActs_fromStream hok).2.1⟩

theorem Sync.inWindow (h : s.Sync) (hroom : 1 ≤ s.rcvWnd.toNat) : s.inWindow s.rcvNxt := by
  have hwnd := UInt16.le_iff_toNat_le.mp h.rcvWnd
  simp only [tcpWnd, UInt16.reduceToNat] at hwnd
  have hlast : s.rcvNxt + BitVec.ofNat 32 s.rcvWnd.toNat - 1 = ofPos s.irs (s.rcvd + s.rcvWnd.toNat - 1) := by
    have hsucc : s.rcvd + s.rcvWnd.toNat = s.rcvd + s.rcvWnd.toNat - 1 + 1 := by omega
    rw [h.rcvNxt, ofPos_add, hsucc]
    exact ofPos_succ_sub_one _ _
  unfold TcpReceiver.inWindow
  rw [hlast, h.rcvNxt, tcpSeqBetween_ofPos (by omega) (by omega) (by omega) (by omega)]
  apply decide_eq_true
  omega

theorem announced_taken (hsyn : stream.head? = some .syn)
    (hrun : Transition.run step (start mss irs) acts = some s)
    (hfrom : Transition.Along step (FromStream stream) (start mss irs) acts)
    (hok : Transition.Along step Reports (start mss irs) acts)
    (harr : Arrives stream s seg pos) {a : Announcement} (ha : a ∈ s.sent) (hle : pos ≤ s.rcvd)
    (hlt : s.rcvd < pos + seg.tcpTcplen) (hin : pos + seg.tcpTcplen ≤ a.pos + a.wnd.toNat)
    : (s.tcpReceive seg).1.rcvNxt = seg.seqno + BitVec.ofNat 32 seg.tcpTcplen
        ∧ (s.tcpReceive seg).1.rcvd = pos + seg.tcpTcplen
        ∧ (s.tcpReceive seg).2 = (seg.data.drop (s.rcvd - pos), seg.fin) := by
  rcases window_run hsyn hrun hfrom hok with ⟨hwindow, hsync⟩
  have hedge := Nat.le_trans (hwindow.sent a ha) hwindow.le_rcvWnd
  have hlen : seg.tcpTcplen > 0 := by omega
  have htrim : s.trimFront seg = { seg with seqno := s.rcvNxt, data := seg.data.drop (s.rcvd - pos) } := by
    rcases trimFront_cases hsync harr hlen with ⟨heq, hout⟩ | ⟨-, -, heq⟩
    . have hpos : s.rcvd = pos := by omega
      have hseqno : seg.seqno = s.rcvNxt := by rw [hsync.rcvNxt, harr.seqno, hpos]
      rw [heq, hpos, Nat.sub_self, List.drop_zero, ← hseqno]
    . exact heq
  have hrest : (s.trimFront seg).tcpTcplen = pos + seg.tcpTcplen - s.rcvd := by
    rw [htrim]
    simp only [InSeg.tcpTcplen, List.length_drop] at hlt ⊢
    split at hlt <;> omega
  have hfits : s.trimWnd (s.trimFront seg) = s.trimFront seg := by
    unfold trimWnd
    rw [if_neg (by omega)]
  have hseq : (s.trimFront seg).seqno = s.rcvNxt := by rw [htrim]
  have hwin : s.inWindow (s.trimFront seg).seqno := hseq ▸ hsync.inWindow (by omega)
  have hnxt : s.rcvNxt + BitVec.ofNat 32 (pos + seg.tcpTcplen - s.rcvd) =
      seg.seqno + BitVec.ofNat 32 seg.tcpTcplen := by
    rw [hsync.rcvNxt, harr.seqno, ofPos_add, ofPos_add, Nat.add_sub_of_le (Nat.le_of_lt hlt)]
  rcases take_eq s (s.trimFront seg) with ⟨_, _, htake⟩
  unfold tcpReceive
  dsimp only
  rw [if_pos hlen, if_pos hwin, if_pos hseq.symm, hfits, htake]
  refine ⟨?_, ?_, ?_⟩
  . rw [hseq, hrest]
    exact hnxt
  . dsimp only
    omega
  . rw [htrim]

theorem announced_taken_of_refused
    : ∃ s, Transition.run step (start 1460 0xfffffffe#32) (refusedActs.take 3) = some s
        ∧ (s.tcpReceive ⟨0#32, [11, 12, 13], true⟩).1.rcvNxt = 4#32 := by
  have hrun : Transition.run step (start 1460 0xfffffffe#32) (refusedActs.take 3) = some _ := rfl
  have happ : refusedActs = refusedActs.take 3 ++ refusedActs.drop 3 := rfl
  have hfrom := refusedActs_fromStream
  rw [happ] at hfrom
  have hok : Transition.Along step Reports (start 1460 0xfffffffe#32) (refusedActs.take 3) := by decide
  refine ⟨_, hrun, (announced_taken rfl hrun ((Transition.along_append hrun).mp hfrom).1 hok
    (?_ : Arrives _ _ _ 2) List.mem_cons_self (by decide) (by decide) (by decide)).1⟩
  constructor <;> decide

end Run

end TcpReceiver

end SerialGateway
