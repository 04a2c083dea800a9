import SerialGateway.Lib.Transition
import SerialGateway.Tcp.SenderAcks

/-!
This module contains what holds of a sender over whole runs: nothing that was enqueued is lost, sent twice
over or sent under a wrong sequence number, and the peer's windows are kept.
-/

open SerialNumber

namespace SerialGateway

open SendSeg

namespace TcpSender

variable {s s' : TcpSender} {acked sent : Nat} {act : SendAct} {acts : List SendAct}

def accepted (s : TcpSender) : SendAct → List SeqItem
  | .write data copy more segs => if (s.tcpWrite data copy more segs).2 = .ok then data.map .byte else []
  | .close segs =>
    match s.state with
    | .synRcvd | .established | .closeWait => if (s.tcpClose segs).2 = .ok then [.fin] else []
    | _ => []
  | _ => []

def acceptedAlong (s : TcpSender) : List SendAct → List SeqItem
  | [] => []
  | act :: acts => s.accepted act ++ ((s.step act).map fun s' => s'.acceptedAlong acts).getD []

theorem accepted_noSyn (s : TcpSender) (act : SendAct) : .syn ∉ s.accepted act := by
  cases act with
  | write data copy more segs =>
    simp only [accepted]
    split <;> simp
  | close segs =>
    simp only [accepted]
    split
    . split <;> simp
    . split <;> simp
    . split <;> simp
    . simp
  | output | arrive | duplicateSyn | rexmit | probe | mssOption | ackFlags | remove => simp [accepted]

theorem acceptedAlong_noSyn (acts : List SendAct) : ∀ s : TcpSender, .syn ∉ s.acceptedAlong acts := by
  induction acts with
  | nil => simp [acceptedAlong]
  | cons act acts ih =>
    intro s
    rw [acceptedAlong, List.mem_append]
    rintro (hsyn | hsyn)
    . exact accepted_noSyn s act hsyn
    . cases hstep : s.step act with
      | none => simp [hstep] at hsyn
      | some s' =>
        rw [hstep] at hsyn
        exact ih s' hsyn

def AcksNear (s : TcpSender) : SendAct → Prop
  | .arrive a => a.ack → AckNear a.ackno s.lastack
  | _ => True

instance (ackno lastack : SeqNo) : Decidable (AckNear ackno lastack) := inferInstanceAs (Decidable (_ ∧ _))

instance (s : TcpSender) : (act : SendAct) → Decidable (s.AcksNear act)
  | .arrive a => inferInstanceAs (Decidable (a.ack → AckNear a.ackno s.lastack))
  | .write .. | .close .. | .output | .duplicateSyn | .rexmit | .probe _ | .mssOption .. | .ackFlags .. | .remove =>
    inferInstanceAs (Decidable True)

structure Grows (items : List SeqItem) (s s' : TcpSender) : Prop where
  closed : s'.state.Open → s.state.Open
  iss : s'.iss = s.iss
  written : s'.written = s.written ++ items
  wire : s.wire <+: s'.wire

theorem Grows.refl (s : TcpSender) : Grows [] s s where
  closed := id
  iss := rfl
  written := by simp
  wire := List.prefix_rfl

theorem Sends.grows {w : Nat} (h : Sends acked w s s') : Grows [] s s' where
  closed := fun hopen => h.state ▸ hopen
  iss := h.iss
  written := by rw [h.written, List.append_nil]
  wire := by
    rcases h.wire with ⟨out, hout, -⟩
    exact ⟨out, hout.symm⟩

theorem SameStream.grows (h : SameStream s s') : Grows [] s s' where
  closed := fun hopen => h.state ▸ hopen
  iss := h.iss
  written := by rw [h.written, List.append_nil]
  wire := h.wire ▸ List.prefix_rfl

theorem Enqueued.grows {arg : List UInt8} {flags : TcpFlags} (h : Enqueued s arg flags acked sent s')
    : Grows (flags.items arg) s s' where
  closed := fun hopen => h.state ▸ hopen
  iss := h.iss
  written := h.written
  wire := h.wire ▸ List.prefix_rfl

structure Gone (s : TcpSender) : Prop where
  state : s.state = .timeWait ∨ s.state = .closed
  unsent : s.unsent = []
  unacked : s.unacked = []
  wire : s.WireOk
  synProbes : s.ProbesOk

theorem Live.purge (h : s.Live acked sent) {state : TcpState} (hstate : state = .timeWait ∨ state = .closed)
    : Gone (s.purge state) where
  state := hstate
  unsent := rfl
  unacked := rfl
  wire := h.wire
  synProbes := h.synProbes

def Onward (ok : Nat → Prop) (sent : Nat) (s : TcpSender) : Prop :=
  (s.state.Alive ∧ ∃ acked sent', ok acked ∧ sent ≤ sent' ∧ s.Live acked sent') ∨ Gone s

theorem Live.onward (h : s.Live acked sent) (halive : s.state.Alive) : Onward (· = acked) sent s :=
  .inl ⟨halive, acked, sent, rfl, Nat.le_refl _, h⟩

theorem Onward.mono {ok ok' : Nat → Prop} {sent' : Nat} (hok : ∀ n, ok n → ok' n) (hsent : sent ≤ sent')
    (h : Onward ok sent' s)
    : Onward ok' sent s := by
  rcases h with ⟨halive, n, m, hn, hm, hlive⟩ | hgone
  . exact .inl ⟨halive, n, m, hok n hn, Nat.le_trans hsent hm, hlive⟩
  . exact .inr hgone

def AckedBy (s : TcpSender) (acked : Nat) (act : SendAct) (n : Nat) : Prop :=
  n = acked ∨ acked ≤ n ∧ ∃ a, act = .arrive a ∧ a.ack ∧ n = acked + diff a.ackno s.lastack

theorem Onward.stay (h : Onward (· = acked) sent s') (s : TcpSender) (act : SendAct)
    : Onward (s.AckedBy acked act) sent s' :=
  h.mono (fun _ hn => .inl hn) (Nat.le_refl _)

theorem AckedBy.le {n : Nat} (h : s.AckedBy acked act n) : acked ≤ n := by
  rcases h with rfl | h
  . exact Nat.le_refl _
  . exact h.1

section Calls

theorem tcpWrite_open (hopen : s.state.Open) (data : List UInt8) (copy more : Bool) (segs : Nat)
    : s.tcpWrite data copy more segs =
        if data.length > 0 then s.tcpEnqueue data {} copy more 0 segs else (s, .ok) := by
  unfold tcpWrite
  cases hstate : s.state <;> rw [hstate] at hopen <;> first | rfl | exact hopen.elim

theorem tcpWrite_conn (hopen : ¬ s.state.Open) (halive : s.state ≠ .synSent) (data : List UInt8)
    (copy more : Bool) (segs : Nat)
    : s.tcpWrite data copy more segs = (s, .conn) := by
  unfold tcpWrite
  cases hstate : s.state <;> rw [hstate] at hopen halive <;>
    first | rfl | exact absurd trivial hopen | exact absurd rfl halive

theorem Live.failed (h : s.Live acked sent) (halive : s.state.Alive) {err : Bool}
    (hs' : s' = { s with tfNagleMemErr := err })
    : Grows [] s s' ∧ s'.state.Alive ∧ s'.Live acked sent := by
  have hlive : s'.Live acked sent := by
    rw [hs']
    exact ⟨{ h with }, h.room⟩
  rw [hs'] at hlive ⊢
  exact ⟨⟨id, rfl, by simp, List.prefix_rfl⟩, halive, hlive⟩

theorem accepted_write (s : TcpSender) (data : List UInt8) (copy more : Bool) (segs : Nat)
    : s.accepted (.write data copy more segs) =
        if (s.tcpWrite data copy more segs).2 = .ok then data.map .byte else [] := rfl

theorem Live.tcpWrite (h : s.Live acked sent) (halive : s.state.Alive) (data : List UInt8) (copy more : Bool)
    (segs : Nat)
    : Grows (s.accepted (.write data copy more segs)) s (s.tcpWrite data copy more segs).1
        ∧ (s.tcpWrite data copy more segs).1.state.Alive ∧ (s.tcpWrite data copy more segs).1.Live acked sent := by
  rw [accepted_write]
  by_cases hopen : s.state.Open
  . rw [tcpWrite_open hopen]
    cases data with
    | nil => exact ⟨Grows.refl s, halive, h⟩
    | cons b data =>
      have hpos : (b :: data).length > 0 := Nat.succ_pos _
      rw [if_pos hpos]
      by_cases hok : (s.tcpEnqueue (b :: data) {} copy more 0 segs).2 = .ok
      . have henq := h.tcpEnqueue_ok hopen (.inl ⟨List.cons_ne_nil _ _, rfl, rfl, rfl⟩) hok
        have hgrows := henq.grows
        have hitems : ({} : TcpFlags).items (b :: data) = (b :: data).map SeqItem.byte := by
          simp [TcpFlags.items]
        rw [hitems] at hgrows
        rw [if_pos hok]
        have hlive : (s.tcpEnqueue (b :: data) {} copy more 0 segs).1.Live acked sent := by
          refine ⟨henq.sound, fun _ => ?_⟩
          have hbuf := h.sndBuf_eq hopen
          have hfits := henq.fits
          rw [henq.written, hitems, List.length_append, List.length_map]
          omega
        exact ⟨hgrows, henq.state ▸ halive, hlive⟩
      . rcases tcpEnqueue_error hok with ⟨err, heq⟩
        rw [if_neg hok]
        exact h.failed halive heq
  . have hne : s.state ≠ .synSent := by
      intro hstate
      rw [hstate] at halive
      exact halive
    rw [tcpWrite_conn hopen hne]
    exact ⟨Grows.refl s, halive, h⟩

theorem tcpClose_open (hopen : s.state.Open) (segs : Nat)
    : ∃ state : TcpState, ¬ state.Open ∧ state.Alive
        ∧ s.tcpClose segs =
          if (s.tcpSendCtrl { fin := true } segs).2 = .ok then
            ({ (s.tcpSendCtrl { fin := true } segs).1 with state }, .ok)
          else
            s.tcpSendCtrl { fin := true } segs := by
  rcases hctrl : s.tcpSendCtrl { fin := true } segs with ⟨s', err⟩
  unfold tcpClose
  cases hstate : s.state <;> rw [hstate] at hopen <;> first | exact hopen.elim | skip
  case closeWait =>
    refine ⟨.lastAck, id, trivial, ?_⟩
    rw [hctrl]
    cases err <;> rfl
  all_goals
    refine ⟨.finWait1, id, trivial, ?_⟩
    rw [hctrl]
    cases err <;> rfl

theorem tcpClose_done (hopen : ¬ s.state.Open) (segs : Nat) : s.tcpClose segs = (s, .ok) := by
  unfold tcpClose
  cases hstate : s.state <;> rw [hstate] at hopen <;> first | rfl | exact absurd trivial hopen

theorem accepted_close_open (hopen : s.state.Open) (segs : Nat)
    : s.accepted (.close segs) = if (s.tcpClose segs).2 = .ok then [.fin] else [] := by
  unfold accepted
  cases hstate : s.state <;> rw [hstate] at hopen <;> first | rfl | exact hopen.elim

theorem accepted_close_done (hopen : ¬ s.state.Open) (segs : Nat) : s.accepted (.close segs) = [] := by
  unfold accepted
  cases hstate : s.state <;> rw [hstate] at hopen <;> first | rfl | exact absurd trivial hopen

theorem Live.tcpClose (h : s.Live acked sent) (halive : s.state.Alive) (segs : Nat)
    : Grows (s.accepted (.close segs)) s (s.tcpClose segs).1 ∧ (s.tcpClose segs).1.state.Alive
        ∧ (s.tcpClose segs).1.Live acked sent := by
  by_cases hopen : s.state.Open
  . rw [accepted_close_open hopen]
    rcases tcpClose_open hopen segs with ⟨state, hclosed, halive', heq⟩
    rw [heq]
    by_cases hok : (s.tcpSendCtrl { fin := true } segs).2 = .ok
    . simp only [if_pos hok, if_true]
      have henq : Enqueued s [] { fin := true } acked sent (s.tcpSendCtrl { fin := true } segs).1 :=
        h.tcpEnqueue_ok hopen (.inr ⟨rfl, rfl⟩) hok
      have hgrows := henq.grows
      have hsound := henq.sound
      generalize (s.tcpSendCtrl { fin := true } segs).1 = s₁ at hgrows hsound
      have hlive : ({ s₁ with state } : TcpSender).Live acked sent :=
        ⟨{ hsound with }, fun h => absurd h hclosed⟩
      exact ⟨{ hgrows with closed := fun _ => hopen }, halive', hlive⟩
    . simp only [if_neg hok]
      rcases tcpEnqueue_error hok with ⟨err, heq'⟩
      exact h.failed halive heq'
  . rw [accepted_close_done hopen, tcpClose_done hopen]
    exact ⟨Grows.refl s, halive, h⟩

end Calls

section Timers

theorem parseMss_range (mss : UInt16) : 0 < (parseMss mss).toNat ∧ parseMss mss ≤ tcpMss := by
  unfold parseMss
  split
  case isTrue => decide
  case isFalse h =>
    rcases not_or.mp h with ⟨hle, hne⟩
    refine ⟨Nat.pos_of_ne_zero fun hzero => hne ?_, UInt16.not_lt.mp hle⟩
    exact UInt16.toNat_inj.mp hzero

theorem probe_items {seg : SendSeg} (hsyn : seg.flags.syn = false)
    : ({ fin := seg.flags.fin && seg.data.isEmpty, ack := true } : TcpFlags).items (seg.data.take 1)
        <+: seg.items := by
  unfold SendSeg.items TcpFlags.items
  cases hdata : seg.data with
  | nil => simp [hsyn]
  | cons b data => simp [hsyn]

theorem synProbe_of_mem {iss : SeqNo} {written : List SeqItem} {seg : SendSeg} (hin : InStream iss written seg)
    (hok : seg.WellFormed) (hsyn : seg.flags.syn = true) (dataptr : UInt8)
    : SynProbe iss written
        { seg with data := [dataptr], flags := { fin := seg.flags.fin && seg.data.isEmpty, ack := true } } := by
  have hfin : seg.flags.fin = false := by simpa [hsyn] using hok.flags
  have hdata := hok.syn hsyn
  have hitems : seg.items = [.syn] := by simp [SendSeg.items, TcpFlags.items, hsyn, hfin, hdata]
  constructor
  case seqno => exact hin.seqno
  case syn => exact hitems ▸ hin.slice
  case flags => simp [hfin]
  case data => rfl

theorem Live.tcpZeroWindowProbe (h : s.Live acked sent) (halive : s.state.Alive) (dataptr : UInt8)
    : Grows [] s (s.tcpZeroWindowProbe dataptr) ∧ Onward (· = acked) sent (s.tcpZeroWindowProbe dataptr) := by
  unfold TcpSender.tcpZeroWindowProbe
  split
  case h_1 => exact ⟨Grows.refl s, h.onward halive⟩
  case h_2 seg rest hhead =>
    have hmem : seg ∈ s.unacked ++ s.unsent := by simp [hhead]
    have hin := h.queues.inStream hmem
    dsimp only
    split
    case isTrue hsyn =>
      have hprobe := synProbe_of_mem hin (h.queues.wellFormed seg hmem) hsyn dataptr
      refine ⟨⟨id, rfl, by simp, List.prefix_rfl⟩, Live.onward ⟨{ h with synProbes := ?_ }, h.room⟩ halive⟩
      intro g hg
      rcases List.mem_append.mp hg with hg | hg
      . exact h.synProbes g hg
      . rw [List.mem_singleton.mp hg]
        exact hprobe
    case isFalse hsyn =>
      refine ⟨⟨id, rfl, by simp, List.prefix_append _ _⟩, Live.onward ⟨{ h with wire := ?_ }, h.room⟩ halive⟩
      intro g hg
      rcases List.mem_append.mp hg with hg | hg
      . exact h.wire g hg
      . rw [List.mem_singleton.mp hg]
        refine ⟨hin.seqno, (probe_items (Bool.not_eq_true _ ▸ hsyn)).trans hin.slice, hin.pos, ?_⟩
        exact Nat.le_trans (List.length_take_le' _ _) hin.short

end Timers

section Process

variable {a : Arrival}

theorem Live.received {n : Nat} {ok : Nat → Prop} (state : TcpState) (h : s'.Live n sent) (hok : ok n)
    (hgrows : Grows [] s s') (halive : state.Alive) (hroom : state.Open → s'.state.Open) (acked' cwnd : UInt16)
    : Grows [] s { s' with state, acked := acked', cwnd }
        ∧ Onward ok sent { s' with state, acked := acked', cwnd } := by
  refine ⟨{ hgrows with closed := fun hopen => hgrows.closed (hroom hopen) }, .inl ⟨halive, n, sent, hok,
    Nat.le_refl _, ?_⟩⟩
  exact ⟨{ h with }, fun hopen => h.room (hroom hopen)⟩

theorem Live.closed {n : Nat} {ok : Nat → Prop} (h : s'.Live n sent) (hgrows : Grows [] s s')
    {state : TcpState} (hstate : state = .timeWait ∨ state = .closed)
    : Grows [] s (s'.purge state) ∧ Onward ok sent (s'.purge state) := by
  refine ⟨{ hgrows with closed := fun hopen => ?_ }, .inr (h.purge hstate)⟩
  rcases hstate with rfl | rfl <;> exact hopen.elim

theorem Live.tcpProcess (h : s.Live acked sent) (halive : s.state.Alive) (hnear : s.AcksNear (.arrive a))
    : Grows [] s (s.tcpProcess a) ∧ Onward (s.AckedBy acked (.arrive a)) sent (s.tcpProcess a) := by
  have hby (n : Nat) (hle : acked ≤ n) (hn : n = acked ∨ a.ack ∧ n = acked + diff a.ackno s.lastack)
      : s.AckedBy acked (.arrive a) n := by
    rcases hn with hn | hn
    . exact .inl hn
    . exact .inr ⟨hle, a, rfl, hn⟩
  rcases h.tcpReceive hnear with ⟨n, hle, -, hlive, hsame, hn⟩
  have hok := hby n hle hn
  have hgrows := hsame.grows
  have hsame := hsame.state
  unfold TcpSender.tcpProcess
  cases hstate : s.state <;> dsimp only
  case synRcvd =>
    have hest : ({ s with state := .established } : TcpSender).Live acked sent :=
      ⟨{ h with }, fun _ => h.room (hstate ▸ trivial)⟩
    split
    case isFalse => exact ⟨Grows.refl s, (h.onward halive).stay s _⟩
    case isTrue =>
      rcases hest.tcpReceive hnear with ⟨n, hle, -, hlive, hsame, hn⟩
      have hgrows : Grows [] s ({ s with state := .established }.tcpReceive a) :=
        { hsame.grows with closed := fun _ => hstate ▸ trivial }
      have hopen : ({ s with state := .established }.tcpReceive a).state.Open := by
        rw [hsame.state]
        trivial
      apply Live.received _ hlive (hby n hle hn) hgrows
      case halive =>
        split
        . trivial
        . exact hopen.alive
      case hroom => exact fun _ => hopen
  case closed | listen | synSent | timeWait =>
    rw [hstate] at halive
    exact halive.elim
  all_goals rw [hstate] at hsame
  case established | closeWait =>
    have hopen : (s.tcpReceive a).state.Open := by
      rw [hsame]
      trivial
    split
    . exact Live.received .closeWait hlive hok hgrows trivial (fun _ => hopen) _ _
    . exact Live.received _ hlive hok hgrows hopen.alive id _ _
  case finWait1 =>
    have hsame : (s.tcpReceive a).state.Alive := by
      rw [hsame]
      trivial
    split
    . split
      . exact hlive.closed hgrows (.inl rfl)
      . exact Live.received .closing hlive hok hgrows trivial False.elim _ _
    . split
      . exact Live.received .finWait2 hlive hok hgrows trivial False.elim _ _
      . exact Live.received _ hlive hok hgrows hsame id _ _
  case finWait2 | closing =>
    have hsame : (s.tcpReceive a).state.Alive := by
      rw [hsame]
      trivial
    split
    . exact hlive.closed hgrows (.inl rfl)
    . exact Live.received _ hlive hok hgrows hsame id _ _
  case lastAck =>
    have hsame : (s.tcpReceive a).state.Alive := by
      rw [hsame]
      trivial
    split
    . exact hlive.closed hgrows (.inr rfl)
    . exact Live.received _ hlive hok hgrows hsame id _ _

end Process

section Run

theorem Live.step (h : s.Live acked sent) (halive : s.state.Alive) (hnear : s.AcksNear act)
    (hstep : s.step act = some s')
    : Grows (s.accepted act) s s' ∧ Onward (s.AckedBy acked act) sent s' := by
  cases act with
  | write data copy more segs =>
    cases hstep
    rcases h.tcpWrite halive data copy more segs with ⟨hgrows, halive', hlive⟩
    exact ⟨hgrows, (hlive.onward halive').stay s _⟩
  | close segs =>
    cases hstep
    rcases h.tcpClose halive segs with ⟨hgrows, halive', hlive⟩
    exact ⟨hgrows, (hlive.onward halive').stay s _⟩
  | output =>
    cases hstep
    rcases h.tcpOutput with ⟨sent', hle, hlive, hsends⟩
    exact ⟨hsends.grows, .inl ⟨hsends.state ▸ halive, acked, sent', .inl rfl, hle, hlive⟩⟩
  | arrive a =>
    cases hstep
    exact h.tcpProcess halive hnear
  | duplicateSyn =>
    simp only [TcpSender.step, Option.ite_none_right_eq_some, Option.some.injEq] at hstep
    rcases hstep with ⟨-, rfl⟩
    have hlive := h.tcpRexmit
    rcases tcpRexmit_eq s with ⟨unacked, unsent, heq⟩
    rw [heq] at hlive ⊢
    exact ⟨⟨id, rfl, by simp [accepted], List.prefix_rfl⟩, (hlive.onward halive).stay s _⟩
  | rexmit =>
    simp only [TcpSender.step, Option.ite_none_right_eq_some, Option.some.injEq] at hstep
    rcases hstep with ⟨-, rfl⟩
    rcases h.slowtmrRexmit with ⟨sent', hle, hlive, hsends⟩
    exact ⟨hsends.grows, .inl ⟨hsends.state ▸ halive, acked, sent', .inl rfl, hle, hlive⟩⟩
  | probe dataptr =>
    simp only [TcpSender.step, Option.ite_none_right_eq_some, Option.some.injEq] at hstep
    rcases hstep with ⟨-, rfl⟩
    exact (h.tcpZeroWindowProbe halive dataptr).imp_right fun hon => hon.stay s _
  | mssOption mss =>
    cases hstep
    have hlive : ({ s with mss := parseMss mss } : TcpSender).Live acked sent :=
      ⟨{ h with mss := parseMss_range mss }, h.room⟩
    exact ⟨⟨id, rfl, by simp [accepted], List.prefix_rfl⟩, (hlive.onward halive).stay s _⟩
  | ackFlags delay now =>
    cases hstep
    have hlive : ({ s with tfAckDelay := delay, tfAckNow := now } : TcpSender).Live acked sent :=
      ⟨{ h with }, h.room⟩
    exact ⟨⟨id, rfl, by simp [accepted], List.prefix_rfl⟩, (hlive.onward halive).stay s _⟩
  | remove =>
    cases hstep
    exact ⟨⟨False.elim, rfl, by simp [accepted, TcpSender.purge], List.prefix_rfl⟩, .inr (h.purge (.inr rfl))⟩

theorem Live.written_le (h : s.Live acked sent) (halive : s.state.Alive) (hnear : s.AcksNear act)
    (hstep : s.step act = some s')
    : s'.written.length ≤ acked + maxOutstanding := by
  have hnone (hnil : s.accepted act = []) : s'.written.length ≤ acked + maxOutstanding := by
    have hwritten := (h.step halive hnear hstep).1.written
    rw [hnil, List.append_nil] at hwritten
    rw [hwritten]
    exact h.queues.window
  cases act with
  | write data copy more segs =>
    cases hstep
    exact (h.tcpWrite halive data copy more segs).2.2.queues.window
  | close segs =>
    cases hstep
    exact (h.tcpClose halive segs).2.2.queues.window
  | output | arrive | duplicateSyn | rexmit | probe | mssOption | ackFlags | remove => exact hnone rfl

theorem Gone.ne {state : TcpState} (h : Gone s) (hstate : state ≠ .timeWait ∧ state ≠ .closed)
    : s.state ≠ state := by
  rintro rfl
  rcases h.state with heq | heq
  . exact hstate.1 heq
  . exact hstate.2 heq

theorem Gone.tcpOutput (h : Gone s) : Grows [] s s.tcpOutput ∧ Gone s.tcpOutput := by
  unfold TcpSender.tcpOutput
  split
  . exact ⟨⟨id, rfl, by simp, List.prefix_rfl⟩, ⟨h.state, h.unsent, h.unacked, h.wire, h.synProbes⟩⟩
  . have hloop : outputLoop s.wnd s.unsent s = s := by rw [h.unsent, outputLoop]
    rw [hloop]
    exact ⟨⟨id, rfl, by simp, List.prefix_rfl⟩, ⟨h.state, h.unsent, h.unacked, h.wire, h.synProbes⟩⟩

theorem Gone.tcpProcess (h : Gone s) (a : Arrival) : s.tcpProcess a = s := by
  unfold TcpSender.tcpProcess
  rcases h.state with heq | heq <;> simp only [heq]

theorem Gone.step (h : Gone s) (hstep : s.step act = some s') : Grows (s.accepted act) s s' ∧ Gone s' := by
  have hopen : ¬ s.state.Open := by
    rcases h.state with heq | heq <;> rw [heq] <;> exact id
  cases act with
  | write data copy more segs =>
    cases hstep
    rw [accepted_write, tcpWrite_conn hopen (h.ne (by decide))]
    exact ⟨Grows.refl s, h⟩
  | close segs =>
    cases hstep
    rw [accepted_close_done hopen, tcpClose_done hopen]
    exact ⟨Grows.refl s, h⟩
  | output =>
    cases hstep
    exact h.tcpOutput
  | arrive a =>
    cases hstep
    rw [h.tcpProcess]
    exact ⟨Grows.refl s, h⟩
  | duplicateSyn =>
    simp only [TcpSender.step, Option.ite_none_right_eq_some] at hstep
    exact absurd hstep.1 (h.ne (by decide))
  | rexmit =>
    simp only [TcpSender.step, Option.ite_none_right_eq_some] at hstep
    exact absurd h.unacked hstep.1.2.1
  | probe =>
    simp only [TcpSender.step, Option.ite_none_right_eq_some, Option.some.injEq] at hstep
    rcases hstep with ⟨-, rfl⟩
    unfold TcpSender.tcpZeroWindowProbe
    rw [h.unsent, h.unacked]
    exact ⟨Grows.refl s, h⟩
  | mssOption mss =>
    cases hstep
    exact ⟨⟨id, rfl, by simp [accepted], List.prefix_rfl⟩, ⟨h.state, h.unsent, h.unacked, h.wire, h.synProbes⟩⟩
  | ackFlags delay now =>
    cases hstep
    exact ⟨⟨id, rfl, by simp [accepted], List.prefix_rfl⟩, ⟨h.state, h.unsent, h.unacked, h.wire, h.synProbes⟩⟩
  | remove =>
    cases hstep
    refine ⟨⟨False.elim, rfl, ?_, List.prefix_rfl⟩, ⟨.inr rfl, rfl, rfl, h.wire, h.synProbes⟩⟩
    simp [accepted, TcpSender.purge]

theorem Grows.trans {s'' : TcpSender} {items items' : List SeqItem} (h : Grows items s s')
    (h' : Grows items' s' s'')
    : Grows (items ++ items') s s'' where
  closed := fun hopen => h.closed (h'.closed hopen)
  iss := h'.iss.trans h.iss
  written := by rw [h'.written, h.written, List.append_assoc]
  wire := h.wire.trans h'.wire

theorem Onward.step (h : Onward (acked ≤ ·) sent s) (hnear : s.AcksNear act) (hstep : s.step act = some s')
    : Grows (s.accepted act) s s' ∧ Onward (acked ≤ ·) sent s' := by
  rcases h with ⟨halive, n, m, hn, hm, hlive⟩ | hgone
  . rcases hlive.step halive hnear hstep with ⟨hgrows, hon⟩
    exact ⟨hgrows, hon.mono (fun _ hby => Nat.le_trans hn hby.le) hm⟩
  . rcases hgone.step hstep with ⟨hgrows, hgone'⟩
    exact ⟨hgrows, .inr hgone'⟩

theorem Onward.run (h : Onward (acked ≤ ·) sent s) (hnear : Transition.Along TcpSender.step AcksNear s acts)
    (hrun : Transition.run TcpSender.step s acts = some s')
    : Grows (s.acceptedAlong acts) s s' ∧ Onward (acked ≤ ·) sent s' := by
  induction acts generalizing s with
  | nil =>
    cases hrun
    exact ⟨Grows.refl _, h⟩
  | cons act acts ih =>
    rcases Transition.run_cons_eq_some.mp hrun with ⟨s₁, hstep, hrun'⟩
    rcases h.step hnear.1 hstep with ⟨hgrows, hon⟩
    rcases ih hon (hnear.2 s₁ hstep) hrun' with ⟨hgrows', hon'⟩
    rw [acceptedAlong, hstep]
    exact ⟨hgrows.trans hgrows', hon'⟩

end Run

section Init

variable {iss : SeqNo} {option : Option UInt16} {seqno : SeqNo} {tcphdrWnd : UInt16} {segs : Nat}

theorem alloc_live (iss : SeqNo) (option : Option UInt16) (seqno : SeqNo) (tcphdrWnd : UInt16)
    : (alloc iss option seqno tcphdrWnd).Live 0 0 := by
  have hzero : iss = ofPos iss 0 := (BitVec.add_zero iss).symm
  constructor
  . constructor
    case queues => exact Queues.nil iss
    case lastack => exact hzero
    case sndNxt => exact hzero
    case sndLbb => exact hzero
    case sndBuf => rfl
    case queuelen => rfl
    case queuelen_le => exact UInt16.zero_le
    case mss =>
      cases option with
      | none =>
        change 0 < (536 : UInt16).toNat ∧ (536 : UInt16) ≤ tcpMss
        decide
      | some mss => exact parseMss_range mss
    case timer => exact fun hne => absurd rfl hne
    case wire => simp [WireOk, alloc]
    case synProbes => simp [ProbesOk, alloc]
  . intro _
    exact Nat.zero_le _

theorem tcpListenInput_live (h : tcpListenInput iss option seqno tcphdrWnd segs = some s)
    : s.iss = iss ∧ s.written = [.syn] ∧ Onward (0 ≤ ·) 0 s := by
  unfold tcpListenInput at h
  split at h
  case h_1 s₀ heq =>
    cases h
    have hok : ((alloc iss option seqno tcphdrWnd).tcpEnqueue [] { syn := true, ack := true } false false 1 segs).2
        = .ok := by rw [heq]
    have henq := (alloc_live iss option seqno tcphdrWnd).tcpEnqueue_ok trivial (.inr ⟨rfl, rfl⟩) hok
    rw [heq] at henq
    have hlive : s₀.Live 0 0 := by
      refine ⟨henq.sound, fun _ => ?_⟩
      rw [henq.written]
      exact Nat.succ_pos _
    rcases hlive.tcpOutput with ⟨sent, -, hlive', hsends⟩
    refine ⟨hsends.iss.trans henq.iss, hsends.written.trans henq.written, .inl ⟨?_, 0, sent, ?_⟩⟩
    . rw [hsends.state, henq.state]
      trivial
    . exact ⟨Nat.le_refl _, Nat.zero_le _, hlive'⟩
  case h_2 => cases h

end Init

section Safety

variable {iss : SeqNo} {option : Option UInt16} {seqno : SeqNo} {tcphdrWnd : UInt16} {segs : Nat} {s₀ : TcpSender}

theorem run_onward (hinit : tcpListenInput iss option seqno tcphdrWnd segs = some s₀)
    (hrun : Transition.run step s₀ acts = some s) (hnear : Transition.Along step AcksNear s₀ acts)
    : s.iss = iss ∧ s.written = .syn :: s₀.acceptedAlong acts ∧ Onward (0 ≤ ·) 0 s := by
  rcases tcpListenInput_live hinit with ⟨hiss, hwritten, hon⟩
  rcases hon.run hnear hrun with ⟨hgrows, hon'⟩
  exact ⟨hgrows.iss.trans hiss, by rw [hgrows.written, hwritten]; rfl, hon'⟩

theorem run_live (hinit : tcpListenInput iss option seqno tcphdrWnd segs = some s₀)
    (hrun : Transition.run step s₀ acts = some s) (hnear : Transition.Along step AcksNear s₀ acts)
    (halive : s.state.Alive)
    : ∃ acked sent, s.Live acked sent := by
  rcases run_onward hinit hrun hnear with ⟨-, -, ⟨-, acked, sent, -, -, hlive⟩ | hgone⟩
  . exact ⟨acked, sent, hlive⟩
  . rcases hgone.state with heq | heq <;> rw [heq] at halive <;> exact halive.elim

theorem unacked_queued_once (hinit : tcpListenInput iss option seqno tcphdrWnd segs = some s₀)
    (hrun : Transition.run step s₀ acts = some s) (hnear : Transition.Along step AcksNear s₀ acts)
    (halive : s.state.Alive)
    : ∃ acked sent, acked ≤ sent ∧ sent ≤ s.written.length
        ∧ s.lastack = ofPos iss acked ∧ s.sndNxt = ofPos iss sent ∧ s.sndLbb = ofPos iss s.written.length
        ∧ s.written = .syn :: s₀.acceptedAlong acts
        ∧ (∀ seg ∈ s.unacked ++ s.unsent, seg.seqno = ofPos iss seg.pos ∧ seg.slice.Of s.written)
        ∧ ∀ p, acked ≤ p → p < s.written.length →
          Slice.cover ((s.unacked ++ s.unsent).map SendSeg.slice) p = 1 := by
  rcases run_onward hinit hrun hnear with ⟨hiss, hwritten, -⟩
  rcases run_live hinit hrun hnear halive with ⟨acked, sent, hlive⟩
  have hqueues := hlive.queues
  rw [← hiss]
  refine ⟨acked, sent, hqueues.acked_le, hqueues.sent_le, hlive.lastack, hlive.sndNxt, hlive.sndLbb,
    hwritten, ?_, hqueues.carries.once⟩
  intro seg hseg
  exact ⟨(hqueues.inStream hseg).seqno, (hqueues.inStream hseg).slice⟩

def rexmitConn : TcpSender := (tcpListenInput 0xfffffffe#32 (some 4) 1000#32 8000 5).get rfl

def rexmitCalls : List SendAct :=
  [.arrive ⟨true, 1001#32, 0xffffffff#32, 8000, 0, false⟩, .write [1, 2, 3, 4, 5, 6, 7] true false 2, .output,
    .rexmit, .close 1]

theorem unacked_queued_once_of_rexmit
    : ∃ s, Transition.run step rexmitConn rexmitCalls = some s
        ∧ ∃ acked, s.lastack = ofPos 0xfffffffe#32 acked
          ∧ ∀ p, acked ≤ p → p < s.written.length →
            Slice.cover ((s.unacked ++ s.unsent).map SendSeg.slice) p = 1 := by
  have hinit : tcpListenInput 0xfffffffe#32 (some 4) 1000#32 8000 5 = some rexmitConn := rfl
  have hrun : Transition.run step rexmitConn rexmitCalls = some _ := rfl
  rcases unacked_queued_once hinit hrun (by decide) trivial with
    ⟨acked, sent, -, -, hlastack, -, -, -, -, honce⟩
  exact ⟨_, hrun, acked, hlastack, honce⟩

theorem sent_in_stream (hinit : tcpListenInput iss option seqno tcphdrWnd segs = some s₀)
    (hrun : Transition.run step s₀ acts = some s) (hnear : Transition.Along step AcksNear s₀ acts)
    : (∀ seg ∈ s.wire, seg.seqno = ofPos iss seg.pos ∧ seg.slice.Of (.syn :: s₀.acceptedAlong acts))
        ∧ ∀ seg ∈ s.synProbes, seg.seqno = iss ∧ seg.flags = { ack := true } ∧ seg.data.length = 1 := by
  rcases run_onward hinit hrun hnear with ⟨hiss, hwritten, hon⟩
  have hsent : s.WireOk ∧ s.ProbesOk := by
    rcases hon with ⟨-, acked, sent, -, -, hlive⟩ | hgone
    . exact ⟨hlive.wire, hlive.synProbes⟩
    . exact ⟨hgone.wire, hgone.synProbes⟩
  rw [← hiss, ← hwritten]
  constructor
  . intro seg hseg
    exact ⟨(hsent.1 seg hseg).seqno, (hsent.1 seg hseg).slice⟩
  . intro seg hseg
    have hprobe := hsent.2 seg hseg
    have hpos := hprobe.pos_eq_zero (by
      rw [hwritten]
      exact acceptedAlong_noSyn acts s₀)
    refine ⟨?_, hprobe.flags, hprobe.data⟩
    rw [hprobe.seqno, hpos]
    exact BitVec.add_zero _

def probeConn : TcpSender := (tcpListenInput 0xfffffffe#32 (some 4) 1000#32 0 5).get rfl

def probeCalls : List SendAct :=
  [.write [1, 2, 3] true false 2, .output, .probe 0x5a, .arrive ⟨true, 1001#32, 0xffffffff#32, 0, 0, false⟩,
    .probe 0x5a]

theorem sent_in_stream_of_probes
    : ∃ s, Transition.run step probeConn probeCalls = some s ∧ s.wire.length = 2 ∧ s.synProbes.length = 1
        ∧ (∀ seg ∈ s.wire, seg.seqno = ofPos 0xfffffffe#32 seg.pos
          ∧ seg.slice.Of (.syn :: probeConn.acceptedAlong probeCalls))
        ∧ ∀ seg ∈ s.synProbes, seg.seqno = 0xfffffffe#32 ∧ seg.flags = { ack := true } ∧ seg.data.length = 1 := by
  have hinit : tcpListenInput 0xfffffffe#32 (some 4) 1000#32 0 5 = some probeConn := rfl
  have hrun : Transition.run step probeConn probeCalls = some _ := rfl
  exact ⟨_, hrun, rfl, rfl, sent_in_stream hinit hrun (by decide)⟩

theorem pbufs_eq_zero {l : List SendSeg} (hok : ∀ seg ∈ l, seg.WellFormed) : pbufs l = 0 ↔ l = [] := by
  cases l with
  | nil => exact iff_of_true rfl rfl
  | cons seg next =>
    have := (hok seg List.mem_cons_self).clen
    simp only [pbufs, reduceCtorEq, iff_false]
    omega

theorem buffers_accounted (hinit : tcpListenInput iss option seqno tcphdrWnd segs = some s₀)
    (hrun : Transition.run step s₀ acts = some s) (hnear : Transition.Along step AcksNear s₀ acts)
    (halive : s.state.Alive)
    : s.sndQueuelen.toNat = pbufs (s.unacked ++ s.unsent) ∧ s.sndQueuelen ≤ tcpSndQueuelen
        ∧ (s.sndQueuelen = 0 ↔ s.unacked = [] ∧ s.unsent = [])
        ∧ (s.state.Open → s.sndBuf.toNat + (s.sndLbb - s.lastack).toNat = tcpSndBuf.toNat) := by
  rcases run_live hinit hrun hnear halive with ⟨acked, sent, hlive⟩
  have hlen : s.sndQueuelen.toNat = pbufs (s.unacked ++ s.unsent) := by
    rw [pbufs_append]
    exact hlive.queuelen
  refine ⟨hlen, hlive.queuelen_le, ?_, ?_⟩
  . rw [← List.append_eq_nil_iff, ← pbufs_eq_zero hlive.queues.wellFormed, ← hlen]
    exact UInt16.toNat_inj.symm
  . intro hopen
    have hle := Nat.le_trans hlive.queues.acked_le hlive.queues.sent_le
    have hwindow := hlive.queues.window
    simp only [maxOutstanding] at hwindow
    rw [hlive.sndLbb, hlive.lastack, toNat_sub_ofPos _ hle (by omega)]
    exact hlive.sndBuf_eq hopen

theorem buffers_accounted_of_rexmit
    : ∃ s, Transition.run step rexmitConn rexmitCalls = some s
        ∧ s.sndQueuelen.toNat = pbufs (s.unacked ++ s.unsent) := by
  have hinit : tcpListenInput 0xfffffffe#32 (some 4) 1000#32 8000 5 = some rexmitConn := rfl
  have hrun : Transition.run step rexmitConn rexmitCalls = some _ := rfl
  exact ⟨_, hrun, (buffers_accounted hinit hrun (by decide) trivial).1⟩

theorem sends_within_window (hinit : tcpListenInput iss option seqno tcphdrWnd segs = some s₀)
    (hrun : Transition.run step s₀ acts = some s) (hnear : Transition.Along step AcksNear s₀ acts)
    (halive : s.state.Alive) (hact : act = .output ∨ act = .rexmit) (hstep : step s act = some s')
    : ∃ out, s'.wire = s.wire ++ out
        ∧ ∀ seg ∈ out, (seg.seqno + BitVec.ofNat 32 seg.data.length - s.lastack).toNat
          ≤ min s.sndWnd.toNat (match act with | .output => s.cwnd | _ => s.mss).toNat := by
  rcases run_live hinit hrun hnear halive with ⟨acked, sent, hlive⟩
  have hwithin {w : Nat} (hw : w ≤ 65535) (hs' : ∃ sent', s'.Live acked sent') (hsends : Sends acked w s s')
      : ∃ out, s'.wire = s.wire ++ out
          ∧ ∀ seg ∈ out, (seg.seqno + BitVec.ofNat 32 seg.data.length - s.lastack).toNat ≤ w := by
    rcases hs' with ⟨sent', hlive'⟩
    rcases hsends.wire with ⟨out, hout, hle⟩
    refine ⟨out, hout, ?_⟩
    intro seg hseg
    have hmem : seg ∈ s'.wire := by
      rw [hout]
      exact List.mem_append_right _ hseg
    have hends := hle seg hseg
    rw [(hlive'.wire seg hmem).1, hsends.iss, hlive.lastack, ofPos_add, toNat_sub_ofPos _ hends.1 (by omega)]
    omega
  rcases hact with rfl | rfl
  . cases hstep
    rcases hlive.tcpOutput with ⟨sent', -, hlive', hsends⟩
    exact hwithin s.wnd_le ⟨sent', hlive'⟩ hsends
  . simp only [step, Option.ite_none_right_eq_some, Option.some.injEq] at hstep
    rcases hstep with ⟨-, rfl⟩
    rcases hlive.slowtmrRexmit with ⟨sent', -, hlive', hsends⟩
    have hmss := s.mss.toNat_lt
    have hw : min s.sndWnd.toNat s.mss.toNat ≤ 65535 := by omega
    exact hwithin hw ⟨sent', hlive'⟩ hsends

theorem sends_within_window_of_rexmit
    : ∃ s s', Transition.run step rexmitConn rexmitCalls = some s ∧ step s .rexmit = some s'
        ∧ ∃ out, s'.wire = s.wire ++ out
          ∧ ∀ seg ∈ out, (seg.seqno + BitVec.ofNat 32 seg.data.length - s.lastack).toNat ≤ 4 := by
  have hinit : tcpListenInput 0xfffffffe#32 (some 4) 1000#32 8000 5 = some rexmitConn := rfl
  have hrun : Transition.run step rexmitConn rexmitCalls = some _ := rfl
  exact ⟨_, _, hrun, rfl, sends_within_window hinit hrun (by decide) trivial (.inr rfl) rfl⟩

theorem outputLoop_head {w : Nat} {seg : SendSeg} {next unsent : List SendSeg}
    : ∀ {s : TcpSender}, s.unsent = unsent → (outputLoop w unsent s).unsent = seg :: next →
        (outputLoop w unsent s).effwnd seg > w ∨ (outputLoop w unsent s).unacked ≠ [] := by
  induction unsent with
  | nil =>
    intro s hunsent h
    rw [outputLoop, hunsent] at h
    cases h
  | cons first rest ih =>
    intro s hunsent h
    rw [outputLoop] at h ⊢
    split at h
    case isTrue hgo =>
      rw [if_pos hgo]
      exact ih rfl h
    case isFalse hstop =>
      rw [if_neg hstop]
      rw [hunsent] at h
      injection h with hfirst hrest
      subst hfirst hrest
      by_contra hnot
      rcases not_or.mp hnot with ⟨hfits, hempty⟩
      apply hstop
      refine ⟨Nat.le_of_not_lt hfits, ?_⟩
      unfold tcpDoOutputNagle
      rw [not_not.mp hempty]
      rfl

theorem outputLoop_sndWnd {w : Nat} (unsent : List SendSeg)
    : ∀ s : TcpSender, (outputLoop w unsent s).sndWnd = s.sndWnd := by
  induction unsent with
  | nil => exact fun _ => rfl
  | cons seg next ih =>
    intro s
    rw [outputLoop]
    split
    . exact ih (s.send seg next)
    . rfl

theorem timers_run (hinit : tcpListenInput iss option seqno tcphdrWnd segs = some s₀)
    (hrun : Transition.run step s₀ acts = some s) (hnear : Transition.Along step AcksNear s₀ acts)
    (halive : s.state.Alive)
    : (s.unacked ≠ [] → s.rtime)
        ∧ ∀ seg next, ¬ (s.tfAckNow ∧ s.unsent.head?.all fun seg => s.effwnd seg > s.wnd) →
          s.tcpOutput.unsent = seg :: next →
          s.tcpOutput.rtime ∨ s.tcpOutput.persist ∨ s.cwnd.toNat < s.tcpOutput.effwnd seg := by
  rcases run_live hinit hrun hnear halive with ⟨acked, sent, hlive⟩
  refine ⟨hlive.timer, ?_⟩
  intro seg next hack hunsent
  rcases hlive.tcpOutput with ⟨sent', -, hlive', -⟩
  have htimer := hlive'.timer
  unfold tcpOutput at hunsent htimer ⊢
  rw [if_neg hack] at hunsent htimer ⊢
  dsimp only at hunsent htimer ⊢
  rcases outputLoop_head rfl hunsent with hbig | hne
  . have hsndWnd := outputLoop_sndWnd (w := s.wnd) s.unsent s
    rcases Nat.lt_or_ge s.sndWnd.toNat ((outputLoop s.wnd s.unsent s).effwnd seg) with hlt | hge
    . right
      left
      rw [hunsent, hsndWnd, List.head?_cons, Option.any_some, decide_eq_true hlt, Bool.or_true]
    . right
      right
      have hwnd : s.wnd = min s.sndWnd.toNat s.cwnd.toNat := rfl
      change _ < (outputLoop s.wnd s.unsent s).effwnd seg
      omega
  . exact .inl (htimer hne)

def halfSentCalls : List SendAct :=
  [.arrive ⟨true, 1001#32, 0xffffffff#32, 5, 0, false⟩, .write [1, 2, 3, 4, 5, 6, 7] true false 2,
    .ackFlags false true]

theorem timers_run_of_halfSent
    : ∃ s seg next, Transition.run step rexmitConn halfSentCalls = some s ∧ s.tfAckNow
        ∧ s.tcpOutput.unsent = seg :: next
        ∧ (s.tcpOutput.rtime ∨ s.tcpOutput.persist ∨ s.cwnd.toNat < s.tcpOutput.effwnd seg) := by
  have hinit : tcpListenInput 0xfffffffe#32 (some 4) 1000#32 8000 5 = some rexmitConn := rfl
  have hrun : Transition.run step rexmitConn halfSentCalls = some _ := rfl
  exact ⟨_, _, _, hrun, rfl, rfl, (timers_run hinit hrun (by decide) trivial).2 _ _ (by decide) rfl⟩

end Safety

end TcpSender

end SerialGateway
