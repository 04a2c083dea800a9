import SerialGateway.Tcp.ReceiverRuns
import SerialGateway.Tcp.SenderRuns

/-!
This module contains the two ends of a connection and the network between them, which may lose, repeat,
delay and reorder the segments: what one end sends comes out at the other end as it was written.
-/

open SerialNumber

namespace SerialGateway

structure TcpConn where
  snd : TcpSender
  rcv : TcpReceiver

/--
`deliver`, `deliverSynProbe` and `ack` bring the segment with the given number that one end has sent to the
other end. What the ACK holds besides belongs to the opposite direction.
-/
inductive ConnAct where
  | send (act : SendAct)
  | receive (act : RecvAct)
  | deliver (i : Nat) (refused new : Reply)
  | deliverSynProbe (i : Nat) (refused new : Reply)
  | ack (i : Nat) (seqno : SeqNo) (tcplen : Nat) (gotFin : Bool)

namespace TcpConn

def step (c : TcpConn) : ConnAct → Option TcpConn
  | .send (.arrive _) => none
  | .send act => (c.snd.step act).map fun snd => { c with snd }
  | .receive (.input _ _ _) => none
  | .receive act => (c.rcv.step act).map fun rcv => { c with rcv }
  | .deliver i refused new =>
    match c.snd.wire[i]? with
    | some seg =>
      -- a SYN is answered before `tcp_receive`
      if seg.flags.syn then
        some c
      else
        some { c with rcv := c.rcv.tcpInput ⟨seg.seqno, seg.data, seg.flags.fin⟩ refused new }
    | none => none
  | .deliverSynProbe i refused new =>
    match c.snd.synProbes[i]? with
    | some seg => some { c with rcv := c.rcv.tcpInput ⟨seg.seqno, seg.data, seg.flags.fin⟩ refused new }
    | none => none
  | .ack i seqno tcplen gotFin =>
    match c.rcv.sent[i]? with
    | some a => some { c with snd := c.snd.tcpProcess ⟨true, seqno, a.ackno, a.wnd, tcplen, gotFin⟩ }
    | none => none

/--
What arrives is not older than a quarter of the sequence numbers.
-/
def Fresh (c : TcpConn) : ConnAct → Prop
  | .deliver i _ _ => ∀ seg ∈ c.snd.wire[i]?, c.rcv.rcvd ≤ seg.pos + 1073741824
  | .deliverSynProbe i _ _ => ∀ seg ∈ c.snd.synProbes[i]?, c.rcv.rcvd ≤ seg.pos + 1073741824
  | .ack i _ _ _ => ∀ a ∈ c.rcv.sent[i]?, c.rcv.rcvd ≤ a.pos + 1073741824
  | _ => True

instance (c : TcpConn) : (act : ConnAct) → Decidable (c.Fresh act)
  | .deliver i _ _ => inferInstanceAs (Decidable (∀ seg ∈ c.snd.wire[i]?, c.rcv.rcvd ≤ seg.pos + 1073741824))
  | .deliverSynProbe i _ _ =>
    inferInstanceAs (Decidable (∀ seg ∈ c.snd.synProbes[i]?, c.rcv.rcvd ≤ seg.pos + 1073741824))
  | .ack i _ _ _ => inferInstanceAs (Decidable (∀ a ∈ c.rcv.sent[i]?, c.rcv.rcvd ≤ a.pos + 1073741824))
  | .send _ | .receive _ => inferInstanceAs (Decidable True)

def accepted (c : TcpConn) : ConnAct → List SeqItem
  | .send act => c.snd.accepted act
  | _ => []

def acceptedAlong (c : TcpConn) : List ConnAct → List SeqItem
  | [] => []
  | act :: acts => c.accepted act ++ ((c.step act).map fun c' => c'.acceptedAlong acts).getD []

def FinLast (s : TcpSender) : Prop :=
  .fin ∉ s.written ∨ ¬ s.state.Open ∧ ∃ items, .fin ∉ items ∧ s.written = items ++ [.fin]

structure Inv (c : TcpConn) : Prop where
  irs : c.rcv.irs = c.snd.iss
  snd : TcpSender.Onward (· ≤ c.rcv.rcvd) 0 c.snd
  near : c.snd.written.length ≤ c.rcv.rcvd + maxOutstanding
  took : TcpReceiver.Took c.snd.written c.rcv
  sync : c.rcv.Sync
  fin : FinLast c.snd
  syn : .syn ∉ c.snd.written.tail

variable {c c' : TcpConn} {act : ConnAct} {acts : List ConnAct}

section Send

variable {s s' : TcpSender} {act : SendAct} {r : Nat}

theorem accepted_closed (hopen : ¬ s.state.Open) (hne : s.state ≠ .synSent) : s.accepted act = [] := by
  cases act with
  | write data copy more segs =>
    rw [TcpSender.accepted_write, TcpSender.tcpWrite_conn hopen hne]
    rfl
  | close segs => exact TcpSender.accepted_close_done hopen segs
  | output | arrive | duplicateSyn | rexmit | probe | mssOption | ackFlags | remove => rfl

theorem onward_ne_synSent {ok : Nat → Prop} {sent : Nat} (h : TcpSender.Onward ok sent s) : s.state ≠ .synSent := by
  intro hstate
  rcases h with ⟨halive, -⟩ | hgone
  . rw [hstate] at halive
    exact halive
  . rcases hgone.state with heq | heq <;> rw [hstate] at heq <;> cases heq

theorem accepted_fin (hstep : s.step act = some s') (hfin : .fin ∈ s.accepted act)
    : s.accepted act = [.fin] ∧ s.state.Open ∧ ¬ s'.state.Open := by
  cases act with
  | write data copy more segs =>
    rw [TcpSender.accepted_write] at hfin
    split at hfin <;> simp at hfin
  | close segs =>
    cases hstep
    by_cases hopen : s.state.Open
    . rcases TcpSender.tcpClose_open hopen segs with ⟨state, hclosed, -, heq⟩
      rw [TcpSender.accepted_close_open hopen, heq] at hfin ⊢
      by_cases hok : (s.tcpSendCtrl { fin := true } segs).2 = .ok
      . rw [if_pos hok]
        exact ⟨rfl, hopen, hclosed⟩
      . simp [hok] at hfin
    . rw [TcpSender.accepted_close_done hopen] at hfin
      cases hfin
  | output | arrive | duplicateSyn | rexmit | probe | mssOption | ackFlags | remove => cases hfin

theorem FinLast.step (h : FinLast s) (hne : s.state ≠ .synSent) (hgrows : TcpSender.Grows (s.accepted act) s s')
    (hstep : s.step act = some s')
    : FinLast s' := by
  by_cases hopen : s.state.Open
  . have hno : .fin ∉ s.written := by
      rcases h with hno | ⟨hclosed, -⟩
      . exact hno
      . exact absurd hopen hclosed
    by_cases hfin : .fin ∈ s.accepted act
    . rcases accepted_fin hstep hfin with ⟨heq, -, hclosed⟩
      exact .inr ⟨hclosed, s.written, hno, heq ▸ hgrows.written⟩
    . left
      rw [hgrows.written, List.mem_append]
      exact not_or.mpr ⟨hno, hfin⟩
  . have hwritten := hgrows.written
    rw [accepted_closed hopen hne, List.append_nil] at hwritten
    have hclosed := fun h => hopen (hgrows.closed h)
    rcases h with hno | ⟨-, hlast⟩
    . exact .inl (hwritten ▸ hno)
    . exact .inr ⟨hclosed, hwritten ▸ hlast⟩

theorem onward_step {P : Nat → Prop} (h : TcpSender.Onward P 0 s)
    (hnear : ∀ n m, P n → s.Live n m → s.AcksNear act)
    (hby : ∀ n m n', P n → s.Live n m → s.AckedBy n act n' → P n')
    (hstep : s.step act = some s')
    : TcpSender.Grows (s.accepted act) s s' ∧ TcpSender.Onward P 0 s' := by
  rcases h with ⟨halive, n, m, hn, -, hlive⟩ | hgone
  . rcases hlive.step halive (hnear n m hn hlive) hstep with ⟨hgrows, hon⟩
    exact ⟨hgrows, hon.mono (fun n' hn' => hby n m n' hn hlive hn') (Nat.zero_le _)⟩
  . rcases hgone.step hstep with ⟨hgrows, hgone'⟩
    exact ⟨hgrows, .inr hgone'⟩

theorem written_le {P : Nat → Prop} (h : TcpSender.Onward P 0 s) (hP : ∀ n, P n → n ≤ r)
    (hnear : ∀ n m, P n → s.Live n m → s.AcksNear act) (hlen : s.written.length ≤ r + maxOutstanding)
    (hstep : s.step act = some s')
    : s'.written.length ≤ r + maxOutstanding := by
  rcases h with ⟨halive, n, m, hn, -, hlive⟩ | hgone
  . have hle := hlive.written_le halive (hnear n m hn hlive) hstep
    have := hP n hn
    omega
  . have hgrows := (hgone.step hstep).1
    have hwritten := hgrows.written
    have hclosed : ¬ s.state.Open := by
      rcases hgone.state with heq | heq <;> rw [heq] <;> exact id
    rw [accepted_closed hclosed (hgone.ne (by decide)), List.append_nil] at hwritten
    rw [hwritten]
    exact hlen

end Send

theorem Inv.arrives (h : c.Inv) {i : Nat} {seg : SendSeg} (hseg : c.snd.wire[i]? = some seg)
    (hfresh : c.rcv.rcvd ≤ seg.pos + 1073741824) (hsyn : seg.flags.syn = false)
    : TcpReceiver.Arrives c.snd.written c.rcv ⟨seg.seqno, seg.data, seg.flags.fin⟩ seg.pos := by
  have hwire : c.snd.WireOk := by
    rcases h.snd with ⟨-, n, m, -, -, hlive⟩ | hgone
    . exact hlive.wire
    . exact hgone.wire
  have hin := hwire seg (List.mem_of_getElem? hseg)
  have hitems : (⟨seg.seqno, seg.data, seg.flags.fin⟩ : InSeg).items = seg.items := by
    simp [InSeg.items, SendSeg.items, TcpFlags.items, hsyn]
  constructor
  case seqno => exact h.irs ▸ hin.seqno
  case slice =>
    intro _
    rw [hitems]
    exact hin.slice
  case old => exact hfresh
  case new =>
    have hpos := hin.pos
    have hnear := h.near
    simp only [maxOutstanding] at hnear
    omega
  case short =>
    have hshort := hin.short
    simp only [tcpMss, UInt16.reduceToNat] at hshort
    dsimp only
    omega

theorem Inv.arrives_synProbe (h : c.Inv) {i : Nat} {seg : SendSeg} (hseg : c.snd.synProbes[i]? = some seg)
    (hfresh : c.rcv.rcvd ≤ seg.pos + 1073741824)
    : TcpReceiver.Arrives c.snd.written c.rcv ⟨seg.seqno, seg.data, seg.flags.fin⟩ seg.pos := by
  have hprobes : c.snd.ProbesOk := by
    rcases h.snd with ⟨-, n, m, -, -, hlive⟩ | hgone
    . exact hlive.synProbes
    . exact hgone.synProbes
  have hprobe := hprobes seg (List.mem_of_getElem? hseg)
  have hpos := hprobe.pos_eq_zero h.syn
  have hdata := hprobe.data
  constructor
  case seqno => exact h.irs ▸ hprobe.seqno
  case slice =>
    intro hlt
    have hsync := h.sync.pos
    have htcplen : InSeg.tcpTcplen ⟨seg.seqno, seg.data, seg.flags.fin⟩ = 1 := by
      simp [InSeg.tcpTcplen, hprobe.flags, hdata]
    rw [htcplen, hpos] at hlt
    omega
  case old => exact hfresh
  case new => omega
  case short =>
    dsimp only
    omega

theorem Inv.received (h : c.Inv) {rcv : TcpReceiver} (hle : c.rcv.rcvd ≤ rcv.rcvd) (hirs : rcv.irs = c.rcv.irs)
    (htook : TcpReceiver.Took c.snd.written rcv) (hsync : rcv.Sync)
    : ({ c with rcv } : TcpConn).Inv where
  irs := hirs.trans h.irs
  snd := h.snd.mono (fun _ hn => Nat.le_trans hn hle) (Nat.le_refl _)
  near := Nat.le_trans h.near (Nat.add_le_add_right hle _)
  took := htook
  sync := hsync
  fin := h.fin
  syn := h.syn

theorem Inv.input (h : c.Inv) {seg : InSeg} {pos : Nat} (harr : TcpReceiver.Arrives c.snd.written c.rcv seg pos)
    (refused new : Reply)
    : ({ c with rcv := c.rcv.tcpInput seg refused new } : TcpConn).Inv := by
  rcases TcpReceiver.tcpInput_rcvd c.rcv seg refused new with ⟨hle, hirs⟩
  rcases h.took.tcpInput h.sync harr refused new with ⟨htook, hsync⟩
  exact h.received hle hirs htook hsync

theorem Inv.sent (h : c.Inv) (act : SendAct) {snd : TcpSender} (hstep : c.snd.step act = some snd)
    (hnear : ∀ n m, n ≤ c.rcv.rcvd → c.snd.Live n m → c.snd.AcksNear act)
    (hby : ∀ n m n', n ≤ c.rcv.rcvd → c.snd.Live n m → c.snd.AckedBy n act n' → n' ≤ c.rcv.rcvd)
    : TcpSender.Grows (c.snd.accepted act) c.snd snd ∧ ({ c with snd } : TcpConn).Inv := by
  rcases onward_step h.snd hnear hby hstep with ⟨hgrows, hon⟩
  refine ⟨hgrows, ?_⟩
  constructor
  case irs => exact h.irs.trans hgrows.iss.symm
  case snd => exact hon
  case near => exact written_le h.snd (fun _ hn => hn) hnear h.near hstep
  case took =>
    dsimp only
    rw [hgrows.written]
    exact h.took.append _
  case sync => exact h.sync
  case fin => exact h.fin.step (onward_ne_synSent h.snd) hgrows hstep
  case syn =>
    intro hsyn
    have hnew := TcpSender.accepted_noSyn c.snd act
    rw [hgrows.written] at hsyn
    cases hold : c.snd.written with
    | nil =>
      rw [hold] at hsyn
      exact hnew (List.mem_of_mem_tail hsyn)
    | cons item written =>
      rw [hold, List.cons_append, List.tail_cons] at hsyn
      have hno := h.syn
      rw [hold] at hno
      exact (List.mem_append.mp hsyn).elim hno hnew

theorem Inv.deliver (h : c.Inv) {i : Nat} {refused new : Reply} (hfresh : c.Fresh (.deliver i refused new))
    (hstep : c.step (.deliver i refused new) = some c')
    : c'.snd = c.snd ∧ c'.Inv := by
  simp only [TcpConn.step] at hstep
  split at hstep
  case h_2 => cases hstep
  case h_1 seg hseg =>
    split at hstep
    case isTrue =>
      cases hstep
      exact ⟨rfl, h⟩
    case isFalse hsyn =>
      cases hstep
      have harr := h.arrives hseg (hfresh seg hseg) (Bool.not_eq_true _ ▸ hsyn)
      exact ⟨rfl, h.input harr refused new⟩

theorem Inv.deliverSynProbe (h : c.Inv) {i : Nat} {refused new : Reply}
    (hfresh : c.Fresh (.deliverSynProbe i refused new)) (hstep : c.step (.deliverSynProbe i refused new) = some c')
    : c'.snd = c.snd ∧ c'.Inv := by
  simp only [TcpConn.step] at hstep
  split at hstep
  case h_2 => cases hstep
  case h_1 seg hseg =>
    cases hstep
    exact ⟨rfl, h.input (h.arrives_synProbe hseg (hfresh seg hseg)) refused new⟩

theorem step_receive {act : RecvAct} (hstep : c.step (.receive act) = some c')
    : (∀ seg refused new, act ≠ .input seg refused new)
        ∧ ∃ rcv, c.rcv.step act = some rcv ∧ c' = { c with rcv } := by
  cases act with
  | input => cases hstep
  | recved | fasttmr | mssOption | sent =>
    cases hstep
    exact ⟨by simp, _, rfl, rfl⟩

theorem Inv.receive (h : c.Inv) {act : RecvAct} (hstep : c.step (.receive act) = some c')
    : c'.snd = c.snd ∧ c'.Inv := by
  rcases step_receive hstep with ⟨hno, rcv, hrcv, rfl⟩
  have hfrom : TcpReceiver.FromStream c.snd.written c.rcv act := by
    cases act with
    | input seg refused new => exact absurd rfl (hno seg refused new)
    | recved | fasttmr | mssOption | sent => trivial
  rcases TcpReceiver.step_rcvd hrcv with ⟨hle, hirs⟩
  rcases h.took.step h.sync hfrom hrcv with ⟨htook, hsync⟩
  exact ⟨rfl, h.received hle hirs htook hsync⟩

theorem step_send {act : SendAct} (hstep : c.step (.send act) = some c')
    : (∀ a, act ≠ .arrive a) ∧ ∃ snd, c.snd.step act = some snd ∧ c' = { c with snd } := by
  have hmap (h : (c.snd.step act).map (fun snd => { c with snd }) = some c')
      : ∃ snd, c.snd.step act = some snd ∧ c' = { c with snd } := by
    rcases Option.map_eq_some_iff.mp h with ⟨snd, hsnd, heq⟩
    exact ⟨snd, hsnd, heq.symm⟩
  cases act with
  | arrive => cases hstep
  | write | close | output | duplicateSyn | rexmit | probe | mssOption | ackFlags | remove =>
    exact ⟨by simp, hmap hstep⟩

theorem Inv.send (h : c.Inv) {act : SendAct} (hstep : c.step (.send act) = some c')
    : TcpSender.Grows (c.snd.accepted act) c.snd c'.snd ∧ c'.Inv := by
  rcases step_send hstep with ⟨hno, snd, hsnd, rfl⟩
  apply h.sent act hsnd
  case hnear =>
    intro n m _ _
    cases act with
    | arrive a => exact absurd rfl (hno a)
    | write | close | output | duplicateSyn | rexmit | probe | mssOption | ackFlags | remove => trivial
  case hby =>
    intro n m n' hn _ hby
    rcases hby with rfl | ⟨-, a, ha, -⟩
    . exact hn
    . exact absurd ha (hno a)

theorem Inv.ack (h : c.Inv) {i : Nat} {seqno : SeqNo} {tcplen : Nat} {gotFin : Bool}
    (hfresh : c.Fresh (.ack i seqno tcplen gotFin)) (hstep : c.step (.ack i seqno tcplen gotFin) = some c')
    : TcpSender.Grows [] c.snd c'.snd ∧ c'.Inv := by
  simp only [TcpConn.step] at hstep
  split at hstep
  case h_2 => cases hstep
  case h_1 a ha =>
    cases hstep
    rcases h.sync.sent a (List.mem_of_getElem? ha) with ⟨hackno, hle⟩
    have hold := hfresh a ha
    have hdiff (n m : Nat) (hn : n ≤ c.rcv.rcvd) (hlive : c.snd.Live n m)
        : diff a.ackno c.snd.lastack = a.pos - n := by
      have hwindow := hlive.queues.window
      have htook := h.took.le
      simp only [maxOutstanding] at hwindow
      rw [hackno, hlive.lastack, h.irs]
      apply diff_ofPos
      . omega
      . omega
    apply h.sent (.arrive ⟨true, seqno, a.ackno, a.wnd, tcplen, gotFin⟩) rfl
    . intro n m hn hlive _
      have hwindow := hlive.queues.window
      have htook := h.took.le
      simp only [maxOutstanding] at hwindow
      have heq := hdiff n m hn hlive
      unfold AckNear
      dsimp only
      omega
    . intro n m n' hn hlive hby
      have heq := hdiff n m hn hlive
      rcases hby with rfl | ⟨-, b, hb, -, hn'⟩
      . exact hn
      . cases hb
        dsimp only at hn'
        omega

section Run

variable {iss : SeqNo} {option : Option UInt16} {seqno : SeqNo} {tcphdrWnd mss : UInt16} {segs : Nat}
variable {snd₀ : TcpSender}

theorem Inv.step (h : c.Inv) (hfresh : c.Fresh act) (hstep : c.step act = some c')
    : TcpSender.Grows (c.accepted act) c.snd c'.snd ∧ c'.Inv := by
  cases act with
  | send act => exact h.send hstep
  | receive act =>
    rcases h.receive hstep with ⟨heq, hinv⟩
    exact ⟨heq ▸ TcpSender.Grows.refl _, hinv⟩
  | deliver i refused new =>
    rcases h.deliver hfresh hstep with ⟨heq, hinv⟩
    exact ⟨heq ▸ TcpSender.Grows.refl _, hinv⟩
  | deliverSynProbe i refused new =>
    rcases h.deliverSynProbe hfresh hstep with ⟨heq, hinv⟩
    exact ⟨heq ▸ TcpSender.Grows.refl _, hinv⟩
  | ack i seqno tcplen gotFin => exact h.ack hfresh hstep

theorem Inv.run (h : c.Inv) (hfresh : Transition.Along TcpConn.step Fresh c acts)
    (hrun : Transition.run TcpConn.step c acts = some c')
    : TcpSender.Grows (c.acceptedAlong acts) c.snd c'.snd ∧ c'.Inv := by
  induction acts generalizing c with
  | nil =>
    cases hrun
    exact ⟨TcpSender.Grows.refl _, h⟩
  | cons act acts ih =>
    rcases Transition.run_cons_eq_some.mp hrun with ⟨c₁, hstep, hrun'⟩
    rcases h.step hfresh.1 hstep with ⟨hgrows, hinv⟩
    rcases ih hinv (hfresh.2 c₁ hstep) hrun' with ⟨hgrows', hinv'⟩
    rw [acceptedAlong, hstep]
    exact ⟨hgrows.trans hgrows', hinv'⟩

theorem start_inv (hinit : TcpSender.tcpListenInput iss option seqno tcphdrWnd segs = some snd₀) (mss : UInt16)
    : Inv ⟨snd₀, TcpReceiver.start mss iss⟩ := by
  rcases TcpSender.tcpListenInput_live hinit with ⟨hiss, hwritten, hon⟩
  constructor
  case irs => exact hiss.symm
  case snd =>
    rcases hon with ⟨halive, n, m, -, hm, hlive⟩ | hgone
    . refine .inl ⟨halive, n, m, ?_, hm, hlive⟩
      have hle := Nat.le_trans hlive.queues.acked_le hlive.queues.sent_le
      rw [hwritten] at hle
      exact hle
    . exact .inr hgone
  case near =>
    dsimp only
    rw [hwritten]
    exact Nat.le_add_right _ _
  case took =>
    dsimp only
    rw [hwritten]
    exact TcpReceiver.start_took mss iss rfl
  case sync => exact TcpReceiver.start_sync mss iss
  case fin =>
    left
    dsimp only
    rw [hwritten]
    decide
  case syn =>
    dsimp only
    rw [hwritten]
    decide

theorem run_inv (hinit : TcpSender.tcpListenInput iss option seqno tcphdrWnd segs = some snd₀)
    (hrun : Transition.run step ⟨snd₀, TcpReceiver.start mss iss⟩ acts = some c)
    (hfresh : Transition.Along step Fresh ⟨snd₀, TcpReceiver.start mss iss⟩ acts)
    : c.snd.iss = iss ∧ c.snd.written = .syn :: acceptedAlong ⟨snd₀, TcpReceiver.start mss iss⟩ acts ∧ c.Inv := by
  rcases TcpSender.tcpListenInput_live hinit with ⟨hiss, hwritten, -⟩
  rcases (start_inv hinit mss).run hfresh hrun with ⟨hgrows, hinv⟩
  exact ⟨hgrows.iss.trans hiss, by rw [hgrows.written, hwritten]; rfl, hinv⟩

theorem Inv.complete (h : c.Inv) (heof : 0 < c.rcv.eof) : c.rcv.rcvd = c.snd.written.length := by
  rw [h.took.eof] at heof
  have hmem : .fin ∈ c.snd.written.take c.rcv.rcvd := List.count_pos_iff.mp heof
  rcases h.fin with hno | ⟨-, items, hno, hwritten⟩
  . exact absurd (List.mem_of_mem_take hmem) hno
  . have hle := h.took.le
    rw [hwritten] at hmem hle ⊢
    rw [List.length_append, List.length_singleton] at hle ⊢
    by_contra hne
    rw [List.take_append_of_le_length (by omega)] at hmem
    exact hno (List.mem_of_mem_take hmem)

theorem delivered_in_order (hinit : TcpSender.tcpListenInput iss option seqno tcphdrWnd segs = some snd₀)
    (hrun : Transition.run step ⟨snd₀, TcpReceiver.start mss iss⟩ acts = some c)
    (hfresh : Transition.Along step Fresh ⟨snd₀, TcpReceiver.start mss iss⟩ acts)
    : let accepted := acceptedAlong ⟨snd₀, TcpReceiver.start mss iss⟩ acts
      c.rcv.taken ++ c.rcv.refusedData.getD [] <+: bytes accepted
        ∧ (0 < c.rcv.eof → .fin ∈ accepted ∧ c.rcv.taken ++ c.rcv.refusedData.getD [] = bytes accepted) := by
  rcases run_inv hinit hrun hfresh with ⟨-, hwritten, hinv⟩
  intro accepted
  have hbytes : bytes c.snd.written = bytes accepted := by
    rw [hwritten]
    rfl
  rw [hinv.took.data, ← hbytes]
  refine ⟨(List.take_prefix _ _).filterMap _, ?_⟩
  intro heof
  rw [hinv.complete heof, List.take_length]
  refine ⟨?_, rfl⟩
  have hmem : .fin ∈ c.snd.written := by
    rw [hinv.took.eof] at heof
    exact List.mem_of_mem_take (List.count_pos_iff.mp heof)
  rw [hwritten] at hmem
  exact (List.mem_cons.mp hmem).resolve_left (by decide)

def repeatedActs : List ConnAct :=
  [.receive .sent, .ack 0 1001#32 0 false, .send (.write [1, 2, 3, 4, 5, 6, 7] true false 2), .send .output,
    .send .rexmit, .deliver 1 ⟨true, none⟩ ⟨false, none⟩, .deliver 2 ⟨true, some 4⟩ ⟨true, none⟩,
    .ack 1 1001#32 0 false, .send .output, .send (.close 1), .send .output,
    .deliver 3 ⟨true, none⟩ ⟨true, none⟩, .deliver 4 ⟨true, none⟩ ⟨true, none⟩]

theorem delivered_in_order_of_repeated
    : ∃ c, Transition.run step ⟨TcpSender.rexmitConn, TcpReceiver.start 4 0xfffffffe#32⟩ repeatedActs = some c
        ∧ c.rcv.eof = 1 ∧ c.rcv.taken ++ c.rcv.refusedData.getD [] = [1, 2, 3, 4, 5, 6, 7] := by
  have hinit : TcpSender.tcpListenInput 0xfffffffe#32 (some 4) 1000#32 8000 5 = some TcpSender.rexmitConn := rfl
  have hrun : Transition.run step ⟨TcpSender.rexmitConn, TcpReceiver.start 4 0xfffffffe#32⟩ repeatedActs
      = some _ := rfl
  exact ⟨_, hrun, rfl, ((delivered_in_order hinit hrun (by decide)).2 (by decide)).2⟩

theorem acked_was_taken (hinit : TcpSender.tcpListenInput iss option seqno tcphdrWnd segs = some snd₀)
    (hrun : Transition.run step ⟨snd₀, TcpReceiver.start mss iss⟩ acts = some c)
    (hfresh : Transition.Along step Fresh ⟨snd₀, TcpReceiver.start mss iss⟩ acts) (halive : c.snd.state.Alive)
    : ∃ acked sent, acked ≤ sent ∧ sent ≤ c.snd.written.length
        ∧ acked ≤ c.rcv.rcvd ∧ c.rcv.rcvd ≤ c.snd.written.length
        ∧ c.snd.lastack = ofPos iss acked ∧ c.snd.sndNxt = ofPos iss sent ∧ c.rcv.rcvNxt = ofPos iss c.rcv.rcvd := by
  rcases run_inv hinit hrun hfresh with ⟨hiss, -, hinv⟩
  rcases hinv.snd with ⟨-, n, m, hn, -, hlive⟩ | hgone
  . have hrcvNxt := hinv.sync.rcvNxt
    rw [hinv.irs, hiss] at hrcvNxt
    exact ⟨n, m, hlive.queues.acked_le, hlive.queues.sent_le, hn, hinv.took.le, hiss ▸ hlive.lastack,
      hiss ▸ hlive.sndNxt, hrcvNxt⟩
  . rcases hgone.state with heq | heq <;> rw [heq] at halive <;> exact halive.elim

theorem acked_was_taken_of_repeated
    : ∃ c, Transition.run step ⟨TcpSender.rexmitConn, TcpReceiver.start 4 0xfffffffe#32⟩ repeatedActs = some c
        ∧ ∃ acked, c.snd.lastack = ofPos 0xfffffffe#32 acked ∧ acked ≤ c.rcv.rcvd := by
  have hinit : TcpSender.tcpListenInput 0xfffffffe#32 (some 4) 1000#32 8000 5 = some TcpSender.rexmitConn := rfl
  have hrun : Transition.run step ⟨TcpSender.rexmitConn, TcpReceiver.start 4 0xfffffffe#32⟩ repeatedActs
      = some _ := rfl
  rcases acked_was_taken hinit hrun (by decide) trivial with ⟨acked, -, -, -, hle, -, hlastack, -, -⟩
  exact ⟨_, hrun, acked, hlastack, hle⟩

end Run

end TcpConn

end SerialGateway
