import Mathlib.Data.List.TakeWhile
import SerialGateway.Tcp.SenderLive

/-!
This module contains what an ACK does to a sender: it frees the segments it covers and no others.
-/

open SerialNumber

namespace SerialGateway

open SendSeg

def AckAt (iss : SeqNo) (acked : Nat) (ackno : SeqNo) (j : Int) : Prop :=
  ∀ p : Nat, acked ≤ p + 100000 → p ≤ acked + 100000 →
    diff (ofPos iss p) ackno = p - j ∧ diff ackno (ofPos iss p) = j - p

def AckNear (ackno lastack : SeqNo) : Prop :=
  -2147383648 < diff ackno lastack ∧ diff ackno lastack < 2147383648

namespace AckAt

variable {iss ackno : SeqNo} {acked p q : Nat} {j : Int}

theorem of_near (h : AckNear ackno (ofPos iss acked))
    : AckAt iss acked ackno (acked + diff ackno (ofPos iss acked)) := by
  intro p hap hpa
  have hnear := diff_ofPos_of_near iss hap hpa
  rcases h with ⟨hlo, hhi⟩
  have heq : diff ackno (ofPos iss p) = diff ackno (ofPos iss acked) + (acked - p) := by
    rw [← hnear]
    apply diff_trans
    . rw [hnear]
      omega
    . rw [hnear]
      omega
  constructor
  . rw [diff_comm, heq]
    . omega
    . rw [heq]
      omega
  . rw [heq]
    omega

theorem leq (h : AckAt iss acked ackno j) (hap : acked ≤ p + 100000) (hpa : p ≤ acked + 100000)
    : tcpSeqLeq (ofPos iss p) ackno = decide (p ≤ j) := by
  rw [tcpSeqLeq, (h p hap hpa).1]
  apply decide_eq_decide.mpr
  omega

theorem geq (h : AckAt iss acked ackno j) (hap : acked ≤ p + 100000) (hpa : p ≤ acked + 100000)
    : tcpSeqGeq ackno (ofPos iss p) = decide (p ≤ j) := by
  rw [tcpSeqGeq, (h p hap hpa).2]
  apply decide_eq_decide.mpr
  omega

theorem leq' (h : AckAt iss acked ackno j) (hap : acked ≤ p + 100000) (hpa : p ≤ acked + 100000)
    : tcpSeqLeq ackno (ofPos iss p) = decide (j ≤ p) := by
  rw [tcpSeqLeq, (h p hap hpa).2]
  apply decide_eq_decide.mpr
  omega

theorem between (h : AckAt iss acked ackno j) (hap : acked ≤ p + 100000) (hpa : p ≤ acked + 100000)
    (haq : acked ≤ q + 100000) (hqa : q ≤ acked + 100000)
    : tcpSeqBetween ackno (ofPos iss p) (ofPos iss q) = decide (p ≤ j ∧ j ≤ q) := by
  rw [tcpSeqBetween, h.geq hap hpa, h.leq' haq hqa, Bool.decide_and]

theorem eq_ofPos (h : AckAt iss acked ackno p) (hap : acked ≤ p + 100000) (hpa : p ≤ acked + 100000)
    : ackno = ofPos iss p := by
  apply eq_of_diff_eq_zero
  rw [(h p hap hpa).2]
  omega

end AckAt

namespace Queues

variable {iss ackno : SeqNo} {written : List SeqItem} {acked sent : Nat} {unacked unsent : List SendSeg}
variable {j : Int}

theorem covered_iff (h : Queues iss written acked sent unacked unsent) (hack : AckAt iss acked ackno j)
    {seg : SendSeg} (hseg : seg ∈ unacked ++ unsent)
    : tcpSeqLeq (seg.seqno + BitVec.ofNat 32 seg.tcpTcplen) ackno = decide (seg.stop ≤ j) := by
  have hnear := h.near hseg
  have hpos := h.pos_lt_stop hseg
  simp only [maxOutstanding] at hnear
  rw [h.seqno seg hseg, ofPos_add]
  exact hack.leq (p := seg.stop) (by omega) (by omega)

theorem coveredUnsent_iff (h : Queues iss written acked sent unacked unsent) (hack : AckAt iss acked ackno j)
    {seg : SendSeg} (hseg : seg ∈ unacked ++ unsent)
    : tcpSeqBetween ackno (seg.seqno + BitVec.ofNat 32 seg.tcpTcplen) (ofPos iss sent)
        = decide (seg.stop ≤ j ∧ j ≤ sent) := by
  have hnear := h.near hseg
  have hpos := h.pos_lt_stop hseg
  have hsent := Nat.le_trans h.sent_le h.window
  have hacked := h.acked_le
  simp only [maxOutstanding] at hnear hsent
  rw [h.seqno seg hseg, ofPos_add]
  exact hack.between (p := seg.stop) (by omega) (by omega) (by omega) (by omega)

theorem stop_le_pos_of_lt (h : Queues iss written acked sent unacked unsent) {a b : SendSeg}
    (ha : a ∈ unacked ++ unsent) (hb : b ∈ unacked ++ unsent) (hlt : a.pos < b.pos)
    : a.stop ≤ b.pos := by
  have hne : b ≠ a := by
    rintro rfl
    omega
  have hpos := h.pos_lt_stop hb
  rcases h.disjoint (List.perm_cons_erase ha) (List.mem_erase_of_ne hne |>.mpr hb) with hle | hle
  . exact hle
  . omega

theorem mem_takeWhile {c : SendSeg → Bool} {l : List SendSeg} {seg : SendSeg} (h : seg ∈ l.takeWhile c)
    : seg ∈ l ∧ c seg := ⟨List.takeWhile_subset c h, List.mem_takeWhile_imp h⟩

theorem not_head_dropWhile {c : SendSeg → Bool} {l : List SendSeg} {seg : SendSeg} {rest : List SendSeg}
    (h : l.dropWhile c = seg :: rest)
    : c seg = false := by
  have := List.head_dropWhile_not c (l := l) (by rw [h]; simp)
  simpa [h] using this

theorem newAck (h : Queues iss written acked sent unacked unsent) {n : Nat} (hle : acked ≤ n) (hn : n ≤ sent)
    {c c' : SendSeg → Bool} (hc : ∀ seg ∈ unacked ++ unsent, c seg = decide (seg.stop ≤ n))
    (hc' : ∀ seg ∈ unacked ++ unsent, c' seg = decide (seg.stop ≤ n))
    : Queues iss written n sent (unacked.dropWhile c) (unsent.dropWhile c') := by
  have hsplit : Queues iss written acked sent (unacked.takeWhile c ++ unacked.dropWhile c)
      (unsent.takeWhile c' ++ unsent.dropWhile c') := by
    rw [List.takeWhile_append_dropWhile, List.takeWhile_append_dropWhile]
    exact h
  have hmem (seg : SendSeg) (hseg : seg ∈ unacked.dropWhile c) : seg ∈ unacked :=
    List.dropWhile_sublist c |>.mem hseg
  have hmem' (seg : SendSeg) (hseg : seg ∈ unsent.dropWhile c') : seg ∈ unsent :=
    List.dropWhile_sublist c' |>.mem hseg
  apply hsplit.forget hle hn
  case hpre =>
    intro seg hseg
    rcases mem_takeWhile hseg with ⟨hseg, hcov⟩
    rw [hc seg (List.mem_append_left _ hseg)] at hcov
    exact of_decide_eq_true hcov
  case hpost =>
    intro seg hseg
    rcases mem_takeWhile hseg with ⟨hseg, hcov⟩
    rw [hc' seg (List.mem_append_right _ hseg)] at hcov
    exact of_decide_eq_true hcov
  case hfresh =>
    intro seg hseg
    have hsorted := h.sorted.sublist (List.dropWhile_sublist c)
    generalize hrest : unacked.dropWhile c = rest at hseg hsorted hmem
    cases rest with
    | nil => cases hseg
    | cons first rest =>
      have hfirst := not_head_dropWhile hrest
      rw [hc first (List.mem_append_left _ (hmem first List.mem_cons_self))] at hfirst
      have hfirst' := of_decide_eq_false hfirst
      rcases List.mem_cons.mp hseg with rfl | hseg'
      . omega
      . -- the later segments of the sorted queue end behind the first
        have hlt := (List.pairwise_cons.mp hsorted).1 seg hseg'
        have hstop := h.stop_le_pos_of_lt (List.mem_append_left _ (hmem first List.mem_cons_self))
          (List.mem_append_left _ (hmem seg hseg)) hlt
        have := h.pos_lt_stop (List.mem_append_left unsent (hmem seg hseg))
        omega
  case hrecent =>
    intro seg hseg
    have hspread := h.spread.sublist (List.dropWhile_sublist c')
    generalize hrest : unsent.dropWhile c' = rest at hseg hspread hmem'
    cases rest with
    | nil => cases hseg
    | cons first rest =>
      have hfirst := not_head_dropWhile hrest
      rw [hc' first (List.mem_append_right _ (hmem' first List.mem_cons_self))] at hfirst
      have hfirst' := of_decide_eq_false hfirst
      rcases List.mem_cons.mp hseg with rfl | hseg'
      . omega
      . have := (List.pairwise_cons.mp hspread).1 seg hseg'
        omega

theorem oldAck (h : Queues iss written acked sent unacked unsent) {c : SendSeg → Bool}
    (hc : ∀ seg ∈ unacked ++ unsent, c seg = decide (seg.stop ≤ j ∧ j ≤ sent)) (hj : j ≤ acked ∨ sent < j)
    : Queues iss written acked sent unacked (unsent.dropWhile c) := by
  have hsplit : Queues iss written acked sent ([] ++ unacked)
      (unsent.takeWhile c ++ unsent.dropWhile c) := by
    rwa [List.nil_append, List.takeWhile_append_dropWhile]
  apply hsplit.forget (Nat.le_refl _) h.acked_le
  case hpre => simp
  case hpost =>
    intro seg hseg
    rcases mem_takeWhile hseg with ⟨hseg, hcov⟩
    rw [hc seg (List.mem_append_right _ hseg)] at hcov
    have := of_decide_eq_true hcov
    omega
  case hfresh => exact fun seg hseg => (h.fresh seg hseg).1
  case hrecent =>
    intro seg hseg
    exact h.recent seg (List.mem_append_right _ (List.dropWhile_sublist c |>.mem hseg))

end Queues

namespace TcpSender

variable {s s' : TcpSender} {acked sent : Nat} {a : Arrival}

theorem segsFree_eq (segs : List SendSeg)
    : ∀ s : TcpSender, pbufs segs ≤ s.sndQueuelen.toNat →
        ∃ acked sndQueuelen, s.segsFree segs = { s with acked, sndQueuelen }
          ∧ sndQueuelen.toNat + pbufs segs = s.sndQueuelen.toNat := by
  induction segs with
  | nil => exact fun _ _ => ⟨_, _, rfl, rfl⟩
  | cons next segs ih =>
    intro s hle
    simp only [pbufs] at hle
    have hsub : (s.sndQueuelen - next.clen).toNat = s.sndQueuelen.toNat - next.clen.toNat :=
      UInt16.toNat_sub_of_le _ _ (UInt16.le_iff_toNat_le.mpr (by omega))
    rcases ih (s.segFree next) (by simp only [segFree, hsub]; omega) with ⟨acked, queuelen, heq, hlen⟩
    refine ⟨acked, queuelen, ?_, ?_⟩
    . rw [segsFree, List.foldl_cons, ← segsFree, heq]
      rfl
    . simp only [segFree, hsub] at hlen
      rw [pbufs]
      omega

theorem pbufs_takeWhile (c : SendSeg → Bool) (l : List SendSeg)
    : pbufs (l.takeWhile c) + pbufs (l.dropWhile c) = pbufs l := by
  rw [← pbufs_append, List.takeWhile_append_dropWhile]

structure SameStream (s s' : TcpSender) : Prop where
  state : s'.state = s.state
  iss : s'.iss = s.iss
  written : s'.written = s.written
  wire : s'.wire = s.wire
  sndNxt : s'.sndNxt = s.sndNxt

theorem SameStream.trans {s'' : TcpSender} (h : SameStream s s') (h' : SameStream s' s'') : SameStream s s'' where
  state := h'.state.trans h.state
  iss := h'.iss.trans h.iss
  written := h'.written.trans h.written
  wire := h'.wire.trans h.wire
  sndNxt := h'.sndNxt.trans h.sndNxt

theorem updateWindow_eq (s : TcpSender) (a : Arrival)
    : ∃ sndWnd sndWl1 sndWl2 persist, s.updateWindow a = { s with sndWnd, sndWl1, sndWl2, persist } := by
  unfold updateWindow
  split
  . exact ⟨_, _, _, _, rfl⟩
  . exact ⟨_, _, _, _, rfl⟩

theorem Live.updateWindow (h : s.Live acked sent) (a : Arrival) : (s.updateWindow a).Live acked sent := by
  rcases updateWindow_eq s a with ⟨sndWnd, sndWl1, sndWl2, persist, heq⟩
  rw [heq]
  exact ⟨{ h with }, h.room⟩

theorem Live.duplicateAck (h : s.Live acked sent) (a : Arrival) (edge : SeqNo)
    : (s.duplicateAck a edge).Live acked sent ∧ SameStream s (s.duplicateAck a edge) := by
  unfold TcpSender.duplicateAck
  dsimp only
  split
  . split
    . split
      . exact ⟨⟨{ h with }, h.room⟩, ⟨rfl, rfl, rfl, rfl, rfl⟩⟩
      . exact ⟨⟨{ h with }, h.room⟩, ⟨rfl, rfl, rfl, rfl, rfl⟩⟩
    . split
      . have hlive : ({ s with acked := 0, dupacks := s.dupacks + 1 } : TcpSender).Live acked sent :=
          ⟨{ h with }, h.room⟩
        rcases tcpRexmitFast_eq { s with acked := 0, dupacks := s.dupacks + 1 } with ⟨_, _, _, _, _, heq⟩
        refine ⟨hlive.tcpRexmitFast, ?_⟩
        rw [heq]
        exact ⟨rfl, rfl, rfl, rfl, rfl⟩
      . exact ⟨⟨{ h with }, h.room⟩, ⟨rfl, rfl, rfl, rfl, rfl⟩⟩
  . exact ⟨⟨{ h with }, h.room⟩, ⟨rfl, rfl, rfl, rfl, rfl⟩⟩

theorem Live.freeUnsent (h : s.Live acked sent) {ackno : SeqNo} {j : Int} (hack : AckAt s.iss acked ackno j)
    (hj : j ≤ acked ∨ sent < j)
    : (s.freeUnsent ackno).Live acked sent ∧ SameStream s (s.freeUnsent ackno) := by
  unfold TcpSender.freeUnsent
  dsimp only
  generalize hc : (fun next : SendSeg =>
    tcpSeqBetween ackno (next.seqno + BitVec.ofNat 32 next.tcpTcplen) s.sndNxt) = c
  have hcov (seg : SendSeg) (hseg : seg ∈ s.unacked ++ s.unsent) : c seg = decide (seg.stop ≤ j ∧ j ≤ sent) := by
    rw [← hc, h.sndNxt]
    exact h.queues.coveredUnsent_iff hack hseg
  have hpbufs := pbufs_takeWhile c s.unsent
  have hlen := h.queuelen
  rcases segsFree_eq (s.unsent.takeWhile c) { s with unsent := s.unsent.dropWhile c }
    (by dsimp only; omega) with ⟨acked', queuelen, heq, hlen'⟩
  rw [heq]
  dsimp only at hlen'
  refine ⟨⟨?_, h.room⟩, ⟨rfl, rfl, rfl, rfl, rfl⟩⟩
  refine { h with queues := h.queues.oldAck hcov hj, queuelen := ?_, queuelen_le := ?_ }
  . dsimp only
    omega
  . have := UInt16.le_iff_toNat_le.mp h.queuelen_le
    apply UInt16.le_iff_toNat_le.mpr
    dsimp only
    omega

theorem newAck_eq (s : TcpSender) (a : Arrival)
    : ∃ tfInfr cwnd,
        let covered := fun next : SendSeg => tcpSeqLeq (next.seqno + BitVec.ofNat 32 next.tcpTcplen) a.ackno
        let acked := UInt16.ofNat (a.ackno - s.lastack).toNat
        let freed :=
          ({ s with
            tfInfr, cwnd, acked
            sndBuf := s.sndBuf + acked
            dupacks := 0
            lastack := a.ackno
            unacked := s.unacked.dropWhile covered } : TcpSender).segsFree (s.unacked.takeWhile covered)
        s.newAck a = { freed with rtime := ¬ freed.unacked.isEmpty } := by
  unfold newAck
  by_cases hinfr : s.tfInfr
  . simp only [hinfr, if_true]
    exact ⟨_, _, rfl⟩
  . simp only [hinfr]
    exact ⟨_, _, rfl⟩

theorem Live.newAck (h : s.Live acked sent) {n : Nat} (hack : AckAt s.iss acked a.ackno n) (hlt : acked < n)
    (hn : n ≤ sent)
    : ((s.newAck a).freeUnsent a.ackno).Live n sent ∧ SameStream s ((s.newAck a).freeUnsent a.ackno) := by
  have hsent := Nat.le_trans h.queues.sent_le h.queues.window
  simp only [maxOutstanding] at hsent
  have hackno : a.ackno = ofPos s.iss n := hack.eq_ofPos (by omega) (by omega)
  have hdiff : (a.ackno - s.lastack).toNat = n - acked := by
    rw [hackno, h.lastack]
    exact toNat_sub_ofPos _ (Nat.le_of_lt hlt) (by omega)
  rcases newAck_eq s a with ⟨tfInfr, cwnd, heq⟩
  dsimp only at heq
  generalize hc : (fun next : SendSeg => tcpSeqLeq (next.seqno + BitVec.ofNat 32 next.tcpTcplen) a.ackno) = c
    at heq
  have hcov (seg : SendSeg) (hseg : seg ∈ s.unacked ++ s.unsent) : c seg = decide (seg.stop ≤ n) := by
    have hiff := h.queues.covered_iff hack hseg
    rw [← hc]
    simp only [hiff, Int.ofNat_le]
  have hpbufs := pbufs_takeWhile c s.unacked
  have hlen := h.queuelen
  rcases segsFree_eq (s.unacked.takeWhile c) { s with
      tfInfr, cwnd
      acked := UInt16.ofNat (a.ackno - s.lastack).toNat
      sndBuf := s.sndBuf + UInt16.ofNat (a.ackno - s.lastack).toNat
      dupacks := 0
      lastack := a.ackno
      unacked := s.unacked.dropWhile c }
    (by dsimp only; omega) with ⟨acked₁, queuelen₁, heq₁, hlen₁⟩
  rw [heq₁] at heq
  dsimp only at hlen₁
  rw [heq]
  unfold TcpSender.freeUnsent
  dsimp only
  generalize hc' : (fun next : SendSeg =>
    tcpSeqBetween a.ackno (next.seqno + BitVec.ofNat 32 next.tcpTcplen) s.sndNxt) = c'
  have hcov' (seg : SendSeg) (hseg : seg ∈ s.unacked ++ s.unsent) : c' seg = decide (seg.stop ≤ n) := by
    have hiff := h.queues.coveredUnsent_iff hack hseg
    rw [← hc', h.sndNxt]
    simp only [hiff, Int.ofNat_le, hn, and_true]
  have hpbufs' := pbufs_takeWhile c' s.unsent
  rcases segsFree_eq (s.unsent.takeWhile c') { s with
      tfInfr, cwnd
      rtime := ¬ (s.unacked.dropWhile c).isEmpty
      acked := acked₁
      sndQueuelen := queuelen₁
      sndBuf := s.sndBuf + UInt16.ofNat (a.ackno - s.lastack).toNat
      dupacks := 0
      lastack := a.ackno
      unacked := s.unacked.dropWhile c
      unsent := s.unsent.dropWhile c' }
    (by dsimp only; omega) with ⟨acked₂, queuelen₂, heq₂, hlen₂⟩
  rw [heq₂]
  dsimp only at hlen₂
  refine ⟨⟨?_, ?_⟩, ⟨rfl, rfl, rfl, rfl, rfl⟩⟩
  . constructor
    case queues => exact h.queues.newAck (Nat.le_of_lt hlt) hn hcov hcov'
    case lastack => exact hackno
    case sndNxt => exact h.sndNxt
    case sndLbb => exact h.sndLbb
    case sndBuf =>
      have hbuf := h.sndBuf
      have hle := h.queues.sent_le
      simp only [hdiff, UInt16.toNat_add, UInt16.toNat_ofNat', tcpSndBuf, UInt16.reduceToNat] at hbuf ⊢
      omega
    case queuelen =>
      dsimp only
      omega
    case queuelen_le =>
      have := UInt16.le_iff_toNat_le.mp h.queuelen_le
      apply UInt16.le_iff_toNat_le.mpr
      dsimp only
      omega
    case mss => exact h.mss
    case timer =>
      intro hne
      simpa using hne
    case wire => exact h.wire
    case synProbes => exact h.synProbes
  . intro hopen
    have := h.room hopen
    dsimp only
    omega

theorem Live.tcpReceive (h : s.Live acked sent) (hnear : a.ack → AckNear a.ackno s.lastack)
    : ∃ n, acked ≤ n ∧ n ≤ sent ∧ (s.tcpReceive a).Live n sent ∧ SameStream s (s.tcpReceive a)
        ∧ (n = acked ∨ a.ack ∧ n = acked + diff a.ackno s.lastack) := by
  have hsent := Nat.le_trans h.queues.sent_le h.queues.window
  have hle := h.queues.acked_le
  simp only [maxOutstanding] at hsent
  unfold TcpSender.tcpReceive
  split
  case isFalse hno =>
    exact ⟨acked, Nat.le_refl _, hle, h, ⟨rfl, rfl, rfl, rfl, rfl⟩, .inl rfl⟩
  case isTrue hyes =>
    have hat : AckAt s.iss acked a.ackno (acked + diff a.ackno (ofPos s.iss acked)) :=
      AckAt.of_near (h.lastack ▸ hnear hyes)
    generalize hj : (acked : Int) + diff a.ackno (ofPos s.iss acked) = j at hat
    rcases updateWindow_eq s a with ⟨sndWnd, sndWl1, sndWl2, persist, heq⟩
    have hlive := h.updateWindow a
    have hsame : SameStream s (s.updateWindow a) := by
      rw [heq]
      exact ⟨rfl, rfl, rfl, rfl, rfl⟩
    generalize s.updateWindow a = s₁ at hlive hsame
    rw [← hsame.iss] at hat
    have hleq : tcpSeqLeq a.ackno s₁.lastack = decide (j ≤ acked) := by
      rw [hlive.lastack]
      exact hat.leq' (by omega) (by omega)
    have hbetween : tcpSeqBetween a.ackno (s₁.lastack + 1) s₁.sndNxt = decide (acked + 1 ≤ j ∧ j ≤ sent) := by
      have hnext : s₁.lastack + 1 = ofPos s₁.iss (acked + 1) := by
        rw [hlive.lastack]
        exact ofPos_add s₁.iss acked 1
      rw [hnext, hlive.sndNxt]
      exact hat.between (p := acked + 1) (by omega) (by omega) (by omega) (by omega)
    dsimp only
    rw [hleq, hbetween]
    simp only [decide_eq_true_eq]
    split
    case isTrue hold =>
      rcases hlive.duplicateAck a (BitVec.ofNat 32 s.sndWnd.toNat + s.sndWl2) with ⟨hdup, hsame'⟩
      rw [← hsame'.iss] at hat
      rcases hdup.freeUnsent hat (.inl hold) with ⟨hfree, hsame''⟩
      exact ⟨acked, Nat.le_refl _, hle, hfree, (hsame.trans hsame').trans hsame'', .inl rfl⟩
    case isFalse hnew =>
      split
      case isTrue hgot =>
        obtain ⟨n, rfl⟩ : ∃ n : Nat, j = n := ⟨j.toNat, by omega⟩
        rcases hlive.newAck hat (by omega) (by omega) with ⟨hfree, hsame'⟩
        exact ⟨n, by omega, by omega, hfree, hsame.trans hsame', .inr ⟨hyes, by rw [← hj, h.lastack]⟩⟩
      case isFalse habove =>
        have hzero : ({ s₁ with acked := 0 } : TcpSender).Live acked sent := ⟨{ hlive with }, hlive.room⟩
        rcases hzero.freeUnsent hat (.inr (by omega)) with ⟨hfree, hsame'⟩
        exact ⟨acked, Nat.le_refl _, hle, hfree, hsame.trans ⟨hsame'.state, hsame'.iss, hsame'.written,
          hsame'.wire, hsame'.sndNxt⟩, .inl rfl⟩

end TcpSender

end SerialGateway
