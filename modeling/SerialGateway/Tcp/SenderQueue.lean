import Mathlib.Tactic.Tauto
import SerialGateway.Tcp.Sender

/-!
This module contains what holds of the two queues of a sender: together they carry everything that was
enqueued and is not acknowledged, once, under its sequence numbers.
-/

open SerialNumber

namespace SerialGateway

def maxOutstanding : Nat := 5841

theorem diff_ofPos_of_near (iss : SeqNo) {p q : Nat} (hpq : p ≤ q + 100000) (hqp : q ≤ p + 100000)
    : diff (ofPos iss p) (ofPos iss q) = p - q := by
  apply diff_ofPos
  . omega
  . omega

theorem tcpSeqLt_ofPos {iss : SeqNo} {p q : Nat} (hpq : p ≤ q + 100000) (hqp : q ≤ p + 100000)
    : tcpSeqLt (ofPos iss p) (ofPos iss q) = decide (p < q) := by
  rw [tcpSeqLt, diff_ofPos_of_near iss hpq hqp]
  apply decide_eq_decide.mpr
  omega

namespace SendSeg

def stop (seg : SendSeg) : Nat := seg.pos + seg.tcpTcplen

structure WellFormed (seg : SendSeg) : Prop where
  flags : ¬ (seg.flags.syn ∧ seg.flags.fin)
  syn : seg.flags.syn → seg.data = []
  short : seg.data.length ≤ tcpMss.toNat
  clen : 0 < seg.clen.toNat

structure Same (a b : SendSeg) : Prop where
  seqno : a.seqno = b.seqno
  pos : a.pos = b.pos
  data : a.data = b.data
  clen : a.clen = b.clen
  syn : a.flags.syn = b.flags.syn
  fin : a.flags.fin = b.flags.fin

variable {a b seg : SendSeg}

theorem length_items (h : ¬ (seg.flags.syn ∧ seg.flags.fin)) : seg.items.length = seg.tcpTcplen := by
  unfold items TcpFlags.items tcpTcplen
  cases hsyn : seg.flags.syn <;> cases hfin : seg.flags.fin <;> simp_all

theorem slice_stop (h : ¬ (seg.flags.syn ∧ seg.flags.fin)) : seg.slice.stop = seg.stop := by
  rw [Slice.stop, slice, length_items h, stop]

theorem Same.slice (h : Same a b) : a.slice = b.slice := by
  simp only [SendSeg.slice, items, TcpFlags.items, h.pos, h.data, h.syn, h.fin]

theorem Same.wellFormed (h : Same a b) (hb : b.WellFormed) : a.WellFormed where
  flags := by
    rw [h.syn, h.fin]
    exact hb.flags
  syn := by
    rw [h.syn, h.data]
    exact hb.syn
  short := by
    rw [h.data]
    exact hb.short
  clen := by
    rw [h.clen]
    exact hb.clen

theorem Same.stop (h : Same a b) : a.stop = b.stop := by
  simp only [SendSeg.stop, tcpTcplen, h.pos, h.data, h.syn, h.fin]

end SendSeg

/--
The queues of a connection that has enqueued `written`, whose items before `acked` are acknowledged and
whose items before `sent` have been sent. The order of the unsent queue may be lost, but not by much.
-/
structure Queues (iss : SeqNo) (written : List SeqItem) (acked sent : Nat) (unacked unsent : List SendSeg)
    : Prop where
  seqno : ∀ seg ∈ unacked ++ unsent, seg.seqno = ofPos iss seg.pos
  wellFormed : ∀ seg ∈ unacked ++ unsent, seg.WellFormed
  carries : Slice.Carries written acked ((unacked ++ unsent).map SendSeg.slice)
  acked_le : acked ≤ sent
  sent_le : sent ≤ written.length
  window : written.length ≤ acked + maxOutstanding
  sorted : unacked.Pairwise fun a b => a.pos < b.pos
  fresh : ∀ seg ∈ unacked, acked ≤ seg.stop ∧ seg.stop ≤ sent
  recent : ∀ seg ∈ unacked ++ unsent, acked ≤ seg.stop + maxOutstanding
  spread : unsent.Pairwise fun a b => a.stop ≤ b.stop + maxOutstanding
  cross : ∀ a ∈ unacked, ∀ b ∈ unsent, a.stop ≤ b.stop + maxOutstanding

namespace Queues

variable {iss : SeqNo} {written : List SeqItem} {acked sent : Nat} {unacked unsent : List SendSeg}
variable {seg : SendSeg}

theorem nil (iss : SeqNo) : Queues iss [] 0 0 [] [] where
  carries := Slice.Carries.nil []
  acked_le := Nat.le_refl _
  sent_le := Nat.le_refl _
  window := Nat.zero_le _
  seqno := by simp
  wellFormed := by simp
  sorted := List.Pairwise.nil
  fresh := by simp
  recent := by simp
  spread := List.Pairwise.nil
  cross := by simp

theorem flags (h : Queues iss written acked sent unacked unsent)
    : ∀ seg ∈ unacked ++ unsent, ¬ (seg.flags.syn ∧ seg.flags.fin) :=
  fun seg hseg => (h.wellFormed seg hseg).flags

theorem stop_le (h : Queues iss written acked sent unacked unsent) (hseg : seg ∈ unacked ++ unsent)
    : seg.stop ≤ written.length := by
  rw [← SendSeg.slice_stop (h.flags seg hseg)]
  exact h.carries.stop_le (List.mem_map_of_mem hseg)

theorem pos_lt_stop (h : Queues iss written acked sent unacked unsent) (hseg : seg ∈ unacked ++ unsent)
    : seg.pos < seg.stop := by
  have hne := h.carries.nonempty _ (List.mem_map_of_mem hseg)
  have hlen := List.length_pos_iff.mpr hne
  rw [SendSeg.slice, SendSeg.length_items (h.flags seg hseg)] at hlen
  unfold SendSeg.stop
  omega

theorem stop_le_pos (h : Queues iss written acked sent unacked unsent) (hseg : seg ∈ unacked ++ unsent)
    : seg.stop ≤ seg.pos + 1461 := by
  have hshort := (h.wellFormed seg hseg).short
  simp only [tcpMss, UInt16.reduceToNat] at hshort
  unfold SendSeg.stop SendSeg.tcpTcplen
  split <;> omega

theorem near (h : Queues iss written acked sent unacked unsent) (hseg : seg ∈ unacked ++ unsent)
    : acked ≤ seg.pos + 7302 ∧ seg.stop ≤ acked + maxOutstanding := by
  have hrecent := h.recent seg hseg
  have hpos := h.stop_le_pos hseg
  have hstop := h.stop_le hseg
  have hwindow := h.window
  simp only [maxOutstanding] at hrecent hwindow ⊢
  omega

theorem tcpSeqLt_iff (h : Queues iss written acked sent unacked unsent) {a b : SendSeg}
    (ha : a ∈ unacked ++ unsent) (hb : b ∈ unacked ++ unsent)
    : tcpSeqLt a.seqno b.seqno = decide (a.pos < b.pos) := by
  have hneara := h.near ha
  have hnearb := h.near hb
  have hpa := h.pos_lt_stop ha
  have hpb := h.pos_lt_stop hb
  simp only [maxOutstanding] at hneara hnearb
  rw [h.seqno a ha, h.seqno b hb]
  apply tcpSeqLt_ofPos
  . omega
  . omega

variable {unacked' unsent' pre post : List SendSeg} {acked' sent' : Nat} {a b : SendSeg}

theorem rearrange (h : Queues iss written acked sent unacked unsent)
    (hperm : (unacked ++ unsent).Perm (unacked' ++ unsent')) (hsent : sent ≤ sent')
    (hle : sent' ≤ written.length) (hsorted : unacked'.Pairwise fun a b => a.pos < b.pos)
    (hfresh : ∀ seg ∈ unacked', acked ≤ seg.stop ∧ seg.stop ≤ sent')
    (hspread : unsent'.Pairwise fun a b => a.stop ≤ b.stop + maxOutstanding)
    (hcross : ∀ a ∈ unacked', ∀ b ∈ unsent', a.stop ≤ b.stop + maxOutstanding)
    : Queues iss written acked sent' unacked' unsent' where
  seqno := fun seg hseg => h.seqno seg (hperm.mem_iff.mpr hseg)
  wellFormed := fun seg hseg => h.wellFormed seg (hperm.mem_iff.mpr hseg)
  carries := h.carries.perm (hperm.map _)
  acked_le := Nat.le_trans h.acked_le hsent
  sent_le := hle
  window := h.window
  sorted := hsorted
  fresh := hfresh
  recent := fun seg hseg => h.recent seg (hperm.mem_iff.mpr hseg)
  spread := hspread
  cross := hcross

theorem stop_le_of_fresh (h : Queues iss written acked sent unacked unsent) (ha : a ∈ unacked ++ unsent)
    (hb : acked ≤ b.stop)
    : a.stop ≤ b.stop + maxOutstanding := by
  have hstop := h.stop_le ha
  have hwindow := h.window
  omega

theorem disjoint (h : Queues iss written acked sent unacked unsent)
    (hperm : (unacked ++ unsent).Perm (a :: pre)) (hb : b ∈ pre)
    : a.stop ≤ b.pos ∨ b.stop ≤ a.pos := by
  have hcarries := h.carries.perm (hperm.map SendSeg.slice)
  have hdis := hcarries.disjoint (List.mem_map_of_mem hb)
  rw [SendSeg.slice_stop (h.flags a (hperm.mem_iff.mpr List.mem_cons_self)),
    SendSeg.slice_stop (h.flags b (hperm.mem_iff.mpr (List.mem_cons_of_mem _ hb)))] at hdis
  exact hdis

theorem same (h : Queues iss written acked sent unacked (pre ++ a :: post)) (hsame : SendSeg.Same b a)
    : Queues iss written acked sent unacked (pre ++ b :: post) := by
  have hmem (seg : SendSeg) (hseg : seg ∈ unacked ++ (pre ++ b :: post))
      : seg = b ∨ seg ∈ unacked ++ (pre ++ a :: post) := by
    simp only [List.mem_append, List.mem_cons] at hseg ⊢
    tauto
  have ha : a ∈ unacked ++ (pre ++ a :: post) := by simp
  constructor
  case seqno =>
    intro seg hseg
    rcases hmem seg hseg with rfl | hseg
    . rw [hsame.seqno, hsame.pos, h.seqno a ha]
    . exact h.seqno seg hseg
  case wellFormed =>
    intro seg hseg
    rcases hmem seg hseg with rfl | hseg
    . exact hsame.wellFormed (h.wellFormed a ha)
    . exact h.wellFormed seg hseg
  case carries =>
    have hcarries := h.carries
    simp only [List.map_append, List.map_cons] at hcarries ⊢
    rwa [hsame.slice]
  case acked_le => exact h.acked_le
  case sent_le => exact h.sent_le
  case window => exact h.window
  case sorted => exact h.sorted
  case fresh => exact h.fresh
  case recent =>
    intro seg hseg
    rcases hmem seg hseg with rfl | hseg
    . rw [hsame.stop]
      exact h.recent a ha
    . exact h.recent seg hseg
  case spread =>
    have hspread := h.spread
    simp only [List.pairwise_append, List.pairwise_cons, List.mem_cons, forall_eq_or_imp] at hspread ⊢
    rwa [hsame.stop]
  case cross =>
    intro u hu seg hseg
    rcases hmem seg (List.mem_append_right _ hseg) with rfl | hseg'
    . rw [hsame.stop]
      exact h.cross u hu a (by simp)
    . rcases List.mem_append.mp hseg with hpre | hpost
      . exact h.cross u hu seg (List.mem_append_left _ hpre)
      . rcases List.mem_cons.mp hpost with rfl | hpost
        . rw [hsame.stop]
          exact h.cross u hu a (by simp)
        . exact h.cross u hu seg (by simp [hpost])

theorem pos_ne (h : Queues iss written acked sent unacked unsent)
    (hperm : (unacked ++ unsent).Perm (a :: pre)) (hb : b ∈ pre)
    : a.pos ≠ b.pos := by
  have ha := h.pos_lt_stop (hperm.mem_iff.mpr List.mem_cons_self)
  have hb' := h.pos_lt_stop (hperm.mem_iff.mpr (List.mem_cons_of_mem _ hb))
  rcases h.disjoint hperm hb with hle | hle
  . omega
  . omega

theorem insert_split (seg : SendSeg) (l : List SendSeg)
    (hlt : ∀ cur ∈ l, tcpSeqLt cur.seqno seg.seqno = decide (cur.pos < seg.pos))
    : ∃ pre post, l = pre ++ post ∧ seg.insert l = pre ++ seg :: post ∧ (∀ a ∈ pre, a.pos < seg.pos)
        ∧ ∀ b ∈ post.head?, seg.pos ≤ b.pos := by
  induction l with
  | nil => exact ⟨[], [], rfl, rfl, by simp, by simp⟩
  | cons cur next ih =>
    have hcur := hlt cur List.mem_cons_self
    by_cases hpos : cur.pos < seg.pos
    . rcases ih (fun c hc => hlt c (List.mem_cons_of_mem _ hc)) with ⟨pre, post, rfl, hins, hpre, hpost⟩
      refine ⟨cur :: pre, post, rfl, ?_, ?_, hpost⟩
      . rw [SendSeg.insert, if_pos (by rw [hcur, decide_eq_true hpos]), hins]
        rfl
      . intro a ha
        rcases List.mem_cons.mp ha with rfl | ha
        . exact hpos
        . exact hpre a ha
    . refine ⟨[], cur :: next, rfl, ?_, by simp, ?_⟩
      . rw [SendSeg.insert, if_neg (by rw [hcur, decide_eq_false hpos]; decide)]
        rfl
      . intro b hb
        cases hb
        exact Nat.le_of_not_lt hpos

theorem putUnacked_split (h : Queues iss written acked sent unacked (seg :: unsent))
    : ∃ pre post, unacked = pre ++ post ∧ TcpSender.putUnacked unacked seg = pre ++ seg :: post
        ∧ (∀ a ∈ pre, a.pos < seg.pos) ∧ ∀ b ∈ post, seg.pos < b.pos := by
  have hseg : seg ∈ unacked ++ seg :: unsent := by simp
  have hne (b : SendSeg) (hb : b ∈ unacked) : seg.pos ≠ b.pos :=
    h.pos_ne List.perm_middle (List.mem_append_left _ hb)
  have hlen : seg.tcpTcplen > 0 := by
    have := h.pos_lt_stop hseg
    unfold SendSeg.stop at this
    omega
  rw [TcpSender.putUnacked, if_pos hlen]
  rcases List.eq_nil_or_concat' unacked with rfl | ⟨init, useg, rfl⟩
  . exact ⟨[], [], rfl, rfl, by simp, by simp⟩
  . have huseg : useg ∈ (init ++ [useg]) ++ seg :: unsent := by simp
    have hsorted := h.sorted
    rw [List.getLast?_concat]
    simp only [h.tcpSeqLt_iff hseg huseg, decide_eq_true_eq]
    split
    . rcases insert_split seg (init ++ [useg]) (fun cur hcur =>
        h.tcpSeqLt_iff (List.mem_append_left _ hcur) hseg) with ⟨pre, post, hsplit, hins, hpre, hpost⟩
      refine ⟨pre, post, hsplit, hins, hpre, ?_⟩
      rw [hsplit] at hsorted hne
      intro b hb
      cases post with
      | nil => cases hb
      | cons c post =>
        have hc := hpost c rfl
        have hne := hne b (List.mem_append_right _ hb)
        rcases List.mem_cons.mp hb with rfl | hb
        . omega
        . have := (List.pairwise_cons.mp (List.pairwise_append.mp hsorted).2.1).1 b hb
          omega
    . refine ⟨init ++ [useg], [], by simp, by simp, ?_, by simp⟩
      intro a ha
      have hne := hne a ha
      rcases List.mem_append.mp ha with ha | ha
      . have := (List.pairwise_append.mp hsorted).2.2 a ha useg (List.mem_singleton_self _)
        omega
      . rw [List.mem_singleton.mp ha] at hne ⊢
        omega

theorem put (h : Queues iss written acked sent unacked (seg :: unsent)) (hfresh : acked ≤ seg.stop)
    : Queues iss written acked (max sent seg.stop) (TcpSender.putUnacked unacked seg) unsent := by
  rcases h.putUnacked_split with ⟨pre, post, rfl, hput, hpre, hpost⟩
  have hsorted := List.pairwise_append.mp h.sorted
  have hspread := List.pairwise_cons.mp h.spread
  rw [hput]
  apply h.rearrange
  case hperm =>
    rw [List.append_assoc, List.append_assoc, List.cons_append]
    exact List.Perm.append_left _ List.perm_middle
  case hsent => exact Nat.le_max_left _ _
  case hle => exact Nat.max_le.mpr ⟨h.sent_le, h.stop_le (by simp)⟩
  case hsorted =>
    apply List.pairwise_append.mpr
    refine ⟨hsorted.1, List.pairwise_cons.mpr ⟨hpost, hsorted.2.1⟩, ?_⟩
    intro a ha b hb
    rcases List.mem_cons.mp hb with rfl | hb
    . exact hpre a ha
    . exact hsorted.2.2 a ha b hb
  case hfresh =>
    intro b hb
    rcases List.perm_middle.mem_iff.mp hb |> List.mem_cons.mp with rfl | hb
    . exact ⟨hfresh, Nat.le_max_right _ _⟩
    . have := h.fresh b hb
      exact ⟨this.1, Nat.le_trans this.2 (Nat.le_max_left _ _)⟩
  case hspread => exact hspread.2
  case hcross =>
    intro a ha b hb
    rcases List.perm_middle.mem_iff.mp ha |> List.mem_cons.mp with rfl | ha
    . exact hspread.1 b hb
    . exact h.cross a ha b (List.mem_cons_of_mem _ hb)

theorem rexmitRto (h : Queues iss written acked sent unacked unsent)
    : Queues iss written acked sent [] (unacked ++ unsent) := by
  apply h.rearrange
  case hperm => exact List.Perm.refl _
  case hsent => exact Nat.le_refl _
  case hle => exact h.sent_le
  case hsorted => exact List.Pairwise.nil
  case hfresh => simp
  case hspread =>
    apply List.pairwise_append.mpr
    refine ⟨?_, h.spread, h.cross⟩
    apply h.sorted.imp_of_mem
    intro a b ha hb _
    exact h.stop_le_of_fresh (List.mem_append_left _ ha) (h.fresh b hb).1
  case hcross => simp

theorem rexmit (h : Queues iss written acked sent (seg :: unacked) unsent)
    : Queues iss written acked sent unacked (seg.insert unsent) := by
  have hseg : seg ∈ seg :: unacked ++ unsent := by simp
  have hfresh := h.fresh seg List.mem_cons_self
  rcases insert_split seg unsent (fun cur hcur =>
    h.tcpSeqLt_iff (List.mem_append_right _ hcur) hseg) with ⟨pre, post, rfl, hins, -, -⟩
  have hspread := List.pairwise_append.mp h.spread
  rw [hins]
  apply h.rearrange
  case hperm =>
    rw [List.cons_append, ← List.append_assoc, ← List.append_assoc]
    exact List.perm_middle.symm
  case hsent => exact Nat.le_refl _
  case hle => exact h.sent_le
  case hsorted => exact (List.pairwise_cons.mp h.sorted).2
  case hfresh => exact fun b hb => h.fresh b (List.mem_cons_of_mem _ hb)
  case hspread =>
    apply List.pairwise_append.mpr
    refine ⟨hspread.1, List.pairwise_cons.mpr ⟨?_, hspread.2.1⟩, ?_⟩
    . exact fun b hb => h.cross seg List.mem_cons_self b (List.mem_append_right _ hb)
    . intro a ha b hb
      rcases List.mem_cons.mp hb with rfl | hb
      . exact h.stop_le_of_fresh (by simp [ha]) hfresh.1
      . exact hspread.2.2 a ha b hb
  case hcross =>
    intro a ha b hb
    rcases List.perm_middle.mem_iff.mp hb |> List.mem_cons.mp with rfl | hb
    . exact h.stop_le_of_fresh (by simp [ha]) hfresh.1
    . exact h.cross a (List.mem_cons_of_mem _ ha) b hb

theorem forget (h : Queues iss written acked sent (pre ++ unacked) (post ++ unsent)) (hle : acked ≤ acked')
    (hsent : acked' ≤ sent) (hpre : ∀ a ∈ pre, a.stop ≤ acked') (hpost : ∀ a ∈ post, a.stop ≤ acked')
    (hfresh : ∀ seg ∈ unacked, acked' ≤ seg.stop)
    (hrecent : ∀ seg ∈ unsent, acked' ≤ seg.stop + maxOutstanding)
    : Queues iss written acked' sent unacked unsent := by
  have hmem (seg : SendSeg) (hseg : seg ∈ unacked ++ unsent) : seg ∈ pre ++ unacked ++ (post ++ unsent) := by
    simp only [List.mem_append] at hseg ⊢
    tauto
  have hperm : (pre ++ unacked ++ (post ++ unsent)).Perm ((pre ++ post) ++ (unacked ++ unsent)) := by
    rw [List.append_assoc, List.append_assoc]
    exact List.Perm.append_left _ (List.perm_append_comm_assoc _ _ _)
  constructor
  case seqno => exact fun seg hseg => h.seqno seg (hmem seg hseg)
  case wellFormed => exact fun seg hseg => h.wellFormed seg (hmem seg hseg)
  case carries =>
    have hcarries := h.carries.perm (hperm.map SendSeg.slice)
    rw [List.map_append] at hcarries
    apply hcarries.forget hle
    intro t ht
    rcases List.mem_map.mp ht with ⟨a, ha, rfl⟩
    rw [SendSeg.slice_stop (h.flags a (hperm.mem_iff.mpr (List.mem_append_left _ ha)))]
    rcases List.mem_append.mp ha with ha | ha
    . exact hpre a ha
    . exact hpost a ha
  case acked_le => exact hsent
  case sent_le => exact h.sent_le
  case window => exact Nat.le_trans h.window (Nat.add_le_add_right hle _)
  case sorted => exact (List.pairwise_append.mp h.sorted).2.1
  case fresh => exact fun seg hseg => ⟨hfresh seg hseg, (h.fresh seg (List.mem_append_right _ hseg)).2⟩
  case recent =>
    intro seg hseg
    rcases List.mem_append.mp hseg with hseg | hseg
    . exact Nat.le_add_right_of_le (hfresh seg hseg)
    . exact hrecent seg hseg
  case spread => exact (List.pairwise_append.mp h.spread).2.1
  case cross => exact fun a ha b hb => h.cross a (List.mem_append_right _ ha) b (List.mem_append_right _ hb)

theorem grow (h : Queues iss written acked sent unacked (pre ++ [a])) (hstop : a.stop = written.length)
    {items : List SeqItem} (hseqno : b.seqno = a.seqno) (hpos : b.pos = a.pos)
    (hitems : b.items = a.items ++ items) (hok : b.WellFormed)
    (hwindow : (written ++ items).length ≤ acked + maxOutstanding)
    : Queues iss (written ++ items) acked sent unacked (pre ++ [b]) := by
  have hmem (seg : SendSeg) (hseg : seg ∈ unacked ++ (pre ++ [b]))
      : seg = b ∨ seg ∈ unacked ++ (pre ++ [a]) := by
    simp only [List.mem_append, List.mem_singleton] at hseg ⊢
    tauto
  have ha : a ∈ unacked ++ (pre ++ [a]) := by simp
  have hb : a.stop ≤ b.stop := by
    unfold SendSeg.stop
    rw [← SendSeg.length_items (h.flags a ha), ← SendSeg.length_items hok.flags, hitems, hpos, List.length_append]
    omega
  have hsplit {c : SendSeg} : (unacked ++ (pre ++ [c])).Perm (c :: (unacked ++ pre)) := by
    rw [← List.append_assoc]
    exact List.perm_append_singleton _ _
  constructor
  case seqno =>
    intro seg hseg
    rcases hmem seg hseg with rfl | hseg
    . rw [hseqno, hpos, h.seqno a ha]
    . exact h.seqno seg hseg
  case wellFormed =>
    intro seg hseg
    rcases hmem seg hseg with rfl | hseg
    . exact hok
    . exact h.wellFormed seg hseg
  case carries =>
    have hcarries := h.carries.perm (hsplit.map SendSeg.slice)
    have hgrow := hcarries.grow (by rw [SendSeg.slice_stop (h.flags a ha), hstop]) items
    have hslice : (⟨a.slice.pos, a.slice.items ++ items⟩ : Slice SeqItem) = b.slice := by
      simp only [SendSeg.slice, hpos, hitems]
    rw [hslice] at hgrow
    exact hgrow.perm (hsplit.map SendSeg.slice).symm
  case acked_le => exact h.acked_le
  case sent_le => exact Nat.le_trans h.sent_le (by simp)
  case window => exact hwindow
  case sorted => exact h.sorted
  case fresh => exact h.fresh
  case recent =>
    intro seg hseg
    rcases hmem seg hseg with rfl | hseg
    . have := h.recent a ha
      omega
    . exact h.recent seg hseg
  case spread =>
    have hspread := List.pairwise_append.mp h.spread
    apply List.pairwise_append.mpr
    refine ⟨hspread.1, List.pairwise_singleton _ _, ?_⟩
    intro c hc d hd
    rw [List.mem_singleton.mp hd]
    have := hspread.2.2 c hc a (List.mem_singleton_self _)
    omega
  case cross =>
    intro c hc d hd
    rcases List.mem_append.mp hd with hd | hd
    . exact h.cross c hc d (List.mem_append_left _ hd)
    . rw [List.mem_singleton.mp hd]
      have := h.cross c hc a (by simp)
      omega

theorem snoc (h : Queues iss written acked sent unacked unsent) (hseqno : b.seqno = ofPos iss written.length)
    (hpos : b.pos = written.length) (hne : b.items ≠ []) (hok : b.WellFormed)
    (hwindow : (written ++ b.items).length ≤ acked + maxOutstanding)
    : Queues iss (written ++ b.items) acked sent unacked (unsent ++ [b]) := by
  have hmem (seg : SendSeg) (hseg : seg ∈ unacked ++ (unsent ++ [b]))
      : seg = b ∨ seg ∈ unacked ++ unsent := by
    simp only [List.mem_append, List.mem_singleton] at hseg ⊢
    tauto
  have hlen : written.length ≤ b.stop := by
    unfold SendSeg.stop
    omega
  constructor
  case seqno =>
    intro seg hseg
    rcases hmem seg hseg with rfl | hseg
    . rw [hseqno, hpos]
    . exact h.seqno seg hseg
  case wellFormed =>
    intro seg hseg
    rcases hmem seg hseg with rfl | hseg
    . exact hok
    . exact h.wellFormed seg hseg
  case carries =>
    have hsnoc := h.carries.snoc hne
    have hslice : (⟨written.length, b.items⟩ : Slice SeqItem) = b.slice := by
      rw [SendSeg.slice, hpos]
    rwa [hslice, ← List.map_singleton, ← List.map_append, List.append_assoc] at hsnoc
  case acked_le => exact h.acked_le
  case sent_le => exact Nat.le_trans h.sent_le (by simp)
  case window => exact hwindow
  case sorted => exact h.sorted
  case fresh => exact h.fresh
  case recent =>
    intro seg hseg
    rcases hmem seg hseg with rfl | hseg
    . have := h.acked_le
      have := h.sent_le
      omega
    . exact h.recent seg hseg
  case spread =>
    apply List.pairwise_append.mpr
    refine ⟨h.spread, List.pairwise_singleton _ _, ?_⟩
    intro c hc d hd
    rw [List.mem_singleton.mp hd]
    have := h.stop_le (List.mem_append_right _ hc)
    omega
  case cross =>
    intro c hc d hd
    rcases List.mem_append.mp hd with hd | hd
    . exact h.cross c hc d hd
    . rw [List.mem_singleton.mp hd]
      have := h.stop_le (List.mem_append_left unsent hc)
      omega

end Queues

end SerialGateway
