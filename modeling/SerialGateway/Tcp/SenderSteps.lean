import Mathlib.Data.List.Induction
import Mathlib.Tactic.Tauto
import SerialGateway.Tcp.SenderQueue

/-!
This module contains what each function of the sender does to a connection whose queues are in order.
-/

open SerialNumber

namespace SerialGateway

namespace SendSeg

def pbufs : List SendSeg → Nat
  | [] => 0
  | seg :: next => seg.clen.toNat + pbufs next

@[simp]
theorem pbufs_append (a b : List SendSeg) : pbufs (a ++ b) = pbufs a + pbufs b := by
  induction a with
  | nil => simp [pbufs]
  | cons seg next ih =>
    simp only [List.cons_append, pbufs, ih]
    omega

end SendSeg

theorem uint16_add_sub_one {a b : UInt16} (hb : b.toNat = 1) : a + b - 1 = a := by
  have : b = 1 := UInt16.toNat_inj.mp hb
  rw [this, UInt16.add_sub_cancel]

open SendSeg

structure SendSeg.Enqueued (maxlen : Nat) (flags : TcpFlags) (copy : Bool) (optflags : UInt8)
    (left : List UInt8) (seqno : SeqNo) (pos : Nat) (queuelen : UInt16) (seg : SendSeg) : Prop where
  seqno : seg.seqno = seqno
  pos : seg.pos = pos
  data : seg.data = left.take maxlen
  flags : seg.flags = flags
  optflags : seg.optflags = optflags
  clen : seg.clen = if !copy && decide (left.length > 0) then 2 else 1
  room : queuelen + seg.clen ≤ tcpSndQueuelen

theorem SendSeg.enqueue_cases {maxlen : Nat} {flags : TcpFlags} {copy : Bool} {optflags : UInt8} {segs : Nat}
    {left : List UInt8} {seqno : SeqNo} {pos : Nat} {queuelen queuelen' : UInt16} {queue : List SendSeg}
    (h : enqueue maxlen flags copy optflags segs left seqno pos queuelen = some (queue, queuelen'))
    : ∃ segs' seg rest, segs = segs' + 1 ∧ queue = seg :: rest
        ∧ Enqueued maxlen flags copy optflags left seqno pos queuelen seg
        ∧ (left.drop maxlen = [] ∧ rest = [] ∧ queuelen' = queuelen + seg.clen
          ∨ left.drop maxlen ≠ []
            ∧ enqueue maxlen flags copy optflags segs' (left.drop maxlen)
                (seqno + BitVec.ofNat 32 seg.data.length) (pos + seg.data.length) (queuelen + seg.clen)
              = some (rest, queuelen')) := by
  cases segs with
  | zero => cases h
  | succ segs =>
    rw [enqueue] at h
    have hseglen : (if left.length > maxlen then maxlen else left.length) = min maxlen left.length := by
      split <;> omega
    have htake : left.take (min maxlen left.length) = left.take maxlen := List.take_eq_take_min.symm
    have hdrop : left.drop (min maxlen left.length) = left.drop maxlen := by
      rcases Nat.le_total maxlen left.length with hle | hle
      . rw [Nat.min_eq_left hle]
      . rw [Nat.min_eq_right hle, List.drop_length, List.drop_eq_nil_of_le hle]
    have hlen : (left.take maxlen).length = min maxlen left.length := List.length_take
    simp only [hseglen, htake, hdrop] at h
    generalize hclen : (if !copy && decide (left.length > 0) then 2 else 1 : UInt16) = clen at h
    split at h
    case isTrue => cases h
    case isFalse hroom =>
      generalize hseg : (⟨seqno, left.take maxlen, flags, optflags, clen, pos⟩ : SendSeg) = seg at h
      have hdata : seg.data.length = min maxlen left.length := by rw [← hseg, hlen]
      have hseglen : clen = seg.clen := by rw [← hseg]
      subst hseglen
      have henq : Enqueued maxlen flags copy optflags left seqno pos queuelen seg := by
        constructor
        case clen => exact hclen.symm
        case room => exact UInt16.not_lt.mp hroom
        all_goals rw [← hseg]
      split at h
      case h_1 hnil =>
        injection h with h
        injection h with hqueue hql
        exact ⟨segs, seg, [], rfl, hqueue.symm, henq, .inl ⟨hnil, rfl, hql.symm⟩⟩
      case h_2 hne =>
        split at h
        case h_1 => cases h
        case h_2 rest ql hrec =>
          injection h with h
          injection h with hqueue hql
          refine ⟨segs, seg, rest, rfl, hqueue.symm, henq, .inr ⟨fun hnil => hne hnil, ?_⟩⟩
          rw [hdata, hrec, hql]

theorem SendSeg.Enqueued.clen_pos {maxlen : Nat} {flags : TcpFlags} {copy : Bool} {optflags : UInt8}
    {left : List UInt8} {seqno : SeqNo} {pos : Nat} {queuelen : UInt16} {seg : SendSeg}
    (h : Enqueued maxlen flags copy optflags left seqno pos queuelen seg)
    : 0 < seg.clen.toNat := by
  rw [h.clen]
  split <;> decide

theorem SendSeg.Enqueued.queuelen {maxlen : Nat} {flags : TcpFlags} {copy : Bool} {optflags : UInt8}
    {left : List UInt8} {seqno : SeqNo} {pos : Nat} {queuelen : UInt16} {seg : SendSeg}
    (h : Enqueued maxlen flags copy optflags left seqno pos queuelen seg) (hle : queuelen ≤ tcpSndQueuelen)
    : (queuelen + seg.clen).toNat = queuelen.toNat + seg.clen.toNat := by
  have hclen : seg.clen.toNat ≤ 2 := by
    rw [h.clen]
    split <;> decide
  have := UInt16.le_iff_toNat_le.mp hle
  simp only [tcpSndQueuelen, UInt16.reduceToNat] at this
  rw [UInt16.toNat_add]
  omega

theorem SendSeg.chain_cases (unsent : List SendSeg) (flags : TcpFlags) (copy : Bool) (mss : UInt16)
    (queue : SendSeg) (rest : List SendSeg) (queuelen : UInt16)
    : chain unsent flags copy mss queue rest queuelen = (unsent ++ queue :: rest, queuelen)
      ∨ ∃ init useg, unsent = init ++ [useg] ∧ useg.chains queue flags mss
        ∧ chain unsent flags copy mss queue rest queuelen =
          let old := if !copy || queue.data.isEmpty then 1 else 0
          if flags.fin then
            (init ++ [{ useg with flags := { useg.flags with fin := true } }], queuelen - old)
          else
            (init ++ { useg with data := useg.data ++ queue.data, clen := useg.clen + (queue.clen - old) } :: rest,
              queuelen - old) := by
  rcases List.eq_nil_or_concat' unsent with rfl | ⟨init, useg, rfl⟩
  . exact .inl rfl
  . rw [chain, List.getLast?_concat]
    by_cases hchains : useg.chains queue flags mss
    . refine .inr ⟨init, useg, rfl, hchains, ?_⟩
      simp only [hchains, if_true, List.dropLast_concat]
    . left
      simp only [hchains]
      rfl

theorem SendSeg.chains_iff {useg queue : SendSeg} {flags : TcpFlags} {mss : UInt16}
    (h : useg.chains queue flags mss)
    : useg.flags.syn = false ∧ useg.flags.fin = false
      ∧ (flags.syn = false ∧ flags.fin = false ∨ flags = { fin := true })
      ∧ useg.data.length + queue.data.length ≤ mss.toNat
      ∧ useg.seqno + BitVec.ofNat 32 useg.data.length = queue.seqno := by
  simp only [chains, Bool.and_eq_true, Bool.or_eq_true, bne_iff_ne, Bool.not_eq_true', Bool.or_eq_false_iff,
    decide_eq_true_eq, beq_iff_eq] at h
  tauto

theorem SendSeg.pbufs_setPsh (unsent : List SendSeg) : pbufs (setPsh unsent) = pbufs unsent := by
  induction unsent with
  | nil => rfl
  | cons seg next ih =>
    cases next with
    | nil =>
      simp only [setPsh, pbufs]
      split <;> rfl
    | cons next rest =>
      rw [setPsh, pbufs, ih]
      rfl

namespace Queues

variable {iss : SeqNo} {written : List SeqItem} {acked sent : Nat} {unacked unsent : List SendSeg}

theorem enqueue {maxlen : Nat} {flags : TcpFlags} {copy : Bool} {optflags : UInt8} (hmax : 0 < maxlen)
    (hle : maxlen ≤ tcpMss.toNat) (hsyn : flags.syn = false) (hfin : flags.fin = false) {segs : Nat}
    : ∀ {left : List UInt8} {queuelen queuelen' : UInt16} {written : List SeqItem} {unsent queue : List SendSeg},
        Queues iss written acked sent unacked unsent → left ≠ [] → queuelen ≤ tcpSndQueuelen →
        (written ++ left.map SeqItem.byte).length ≤ acked + maxOutstanding →
        SendSeg.enqueue maxlen flags copy optflags segs left (ofPos iss written.length) written.length queuelen
          = some (queue, queuelen') →
        Queues iss (written ++ left.map .byte) acked sent unacked (unsent ++ queue)
          ∧ queuelen'.toNat = queuelen.toNat + pbufs queue ∧ queuelen' ≤ tcpSndQueuelen := by
  induction segs with
  | zero =>
    intro left queuelen queuelen' written unsent queue _ _ _ _ h
    cases h
  | succ segs ih =>
    intro left queuelen queuelen' written unsent queue hq hleft hlen hwindow h
    rcases SendSeg.enqueue_cases h with ⟨segs', seg, rest, hsegs, rfl, henq, hrest⟩
    cases hsegs
    have hitems : seg.items = (left.take maxlen).map SeqItem.byte := by
      simp [items, TcpFlags.items, henq.flags, hsyn, hfin, henq.data]
    have hsplit : written ++ left.map SeqItem.byte
        = written ++ seg.items ++ (left.drop maxlen).map SeqItem.byte := by
      rw [hitems, List.append_assoc, ← List.map_append, List.take_append_drop]
    have hpos : written.length + seg.data.length = (written ++ seg.items).length := by
      rw [hitems, henq.data, List.length_append, List.length_map]
    have hsnoc : Queues iss (written ++ seg.items) acked sent unacked (unsent ++ [seg]) := by
      apply hq.snoc henq.seqno henq.pos
      case hne =>
        rw [hitems]
        apply List.ne_nil_of_length_pos
        rw [List.length_map, List.length_take]
        have := List.length_pos_iff.mpr hleft
        omega
      case hok =>
        constructor
        case flags => simp [henq.flags, hsyn]
        case syn => simp [henq.flags, hsyn]
        case short =>
          rw [henq.data, List.length_take]
          omega
        case clen => exact henq.clen_pos
      case hwindow =>
        rw [hsplit, List.length_append] at hwindow
        omega
    have hql := henq.queuelen hlen
    rcases hrest with ⟨hdrop, rfl, rfl⟩ | ⟨hdrop, hrec⟩
    . rw [hsplit, hdrop, List.map_nil, List.append_nil]
      refine ⟨hsnoc, ?_, henq.room⟩
      rw [hql]
      rfl
    . rw [ofPos_add, hpos] at hrec
      rw [hsplit] at hwindow ⊢
      rcases ih hsnoc hdrop henq.room hwindow hrec with ⟨hqueues, hlen', hle'⟩
      have happ : unsent ++ [seg] ++ rest = unsent ++ seg :: rest := by simp
      refine ⟨happ ▸ hqueues, ?_, hle'⟩
      rw [hlen', hql, pbufs]
      omega

theorem stop_eq (h : Queues iss written acked sent unacked unsent) {useg : SendSeg}
    (huseg : useg ∈ unacked ++ unsent) (hsyn : useg.flags.syn = false) (hfin : useg.flags.fin = false)
    (hseqno : useg.seqno + BitVec.ofNat 32 useg.data.length = ofPos iss written.length)
    : useg.stop = written.length := by
  have hstop : useg.stop = useg.pos + useg.data.length := by
    simp [stop, tcpTcplen, hsyn, hfin]
  have hle := h.stop_le huseg
  have hwindow := h.window
  have hrecent := h.recent useg huseg
  simp only [maxOutstanding] at hwindow hrecent
  rw [h.seqno useg huseg, ofPos_add, ← hstop] at hseqno
  apply (ofPos_inj _ _).mp hseqno
  . omega
  . omega

theorem setPsh (h : Queues iss written acked sent unacked unsent)
    : Queues iss written acked sent unacked (SendSeg.setPsh unsent) := by
  have hsplit (unsent : List SendSeg)
      : SendSeg.setPsh unsent = unsent ∨ ∃ pre a b, unsent = pre ++ [a] ∧ SendSeg.setPsh unsent = pre ++ [b]
        ∧ Same b a := by
    induction unsent with
    | nil => exact .inl rfl
    | cons seg next ih =>
      cases next with
      | nil =>
        right
        refine ⟨[], seg, _, rfl, rfl, ?_⟩
        split <;> constructor <;> rfl
      | cons next rest =>
        rcases ih with heq | ⟨pre, a, b, heq, hset, hsame⟩
        . left
          rw [SendSeg.setPsh, heq]
        . right
          exact ⟨seg :: pre, a, b, by rw [heq]; rfl, by rw [SendSeg.setPsh, hset]; rfl, hsame⟩
  rcases hsplit unsent with heq | ⟨pre, a, b, rfl, hset, hsame⟩
  . rwa [heq]
  . rw [hset]
    exact h.same hsame

theorem chainData (h : Queues iss written acked sent unacked unsent) {mss : UInt16} {flags : TcpFlags}
    {copy : Bool} {optflags : UInt8} (hmss : 0 < mss.toNat) (hle : mss ≤ tcpMss) (hsyn : flags.syn = false)
    (hfin : flags.fin = false) {segs : Nat} {left : List UInt8} {queuelen queuelen' : UInt16}
    {queue : SendSeg} {rest : List SendSeg} {n : Nat} (hleft : left ≠ [])
    (hqueuelen : queuelen.toNat = n + pbufs unsent) (hroom : queuelen ≤ tcpSndQueuelen)
    (hwindow : (written ++ left.map SeqItem.byte).length ≤ acked + maxOutstanding)
    (henq : SendSeg.enqueue mss.toNat flags copy optflags segs left (ofPos iss written.length) written.length
      queuelen = some (queue :: rest, queuelen'))
    : let chained := chain unsent flags copy mss queue rest queuelen'
      Queues iss (written ++ left.map .byte) acked sent unacked chained.1
        ∧ chained.2.toNat = n + pbufs chained.1 ∧ chained.2 ≤ tcpSndQueuelen := by
  have hmax : mss.toNat ≤ tcpMss.toNat := UInt16.le_iff_toNat_le.mp hle
  have happended := h.enqueue hmss hmax hsyn hfin hleft hroom hwindow henq
  intro chained
  rcases chain_cases unsent flags copy mss queue rest queuelen' with heq | ⟨init, useg, rfl, hchains, heq⟩
  . simp only [chained, heq]
    refine ⟨happended.1, ?_, happended.2.2⟩
    rw [happended.2.1, pbufs_append, hqueuelen]
    omega
  . rcases SendSeg.enqueue_cases henq with ⟨segs', seg, rest', rfl, hcons, hpass, hrest⟩
    injection hcons with hseg hrest'
    subst hseg hrest'
    rcases chains_iff hchains with ⟨husyn, hufin, -, hfits, hseqno⟩
    simp only [hfin, Bool.false_eq_true, if_false] at heq
    generalize hold : (if (!copy || queue.data.isEmpty) = true then 1 else 0 : UInt16) = old at heq
    have hold₁ : old.toNat ≤ 1 := by
      rw [← hold]
      split <;> decide
    have hclen : 1 ≤ queue.clen.toNat ∧ queue.clen.toNat ≤ 2 := by
      rw [hpass.clen]
      split <;> decide
    have hql := hpass.queuelen hroom
    have huseg : useg ∈ unacked ++ (init ++ [useg]) := by simp
    have hstop := h.stop_eq huseg husyn hufin (hseqno.trans hpass.seqno)
    have hdata : queue.data.map SeqItem.byte = (left.take mss.toNat).map SeqItem.byte := by rw [hpass.data]
    have hsplit : written ++ left.map SeqItem.byte
        = written ++ queue.data.map SeqItem.byte ++ (left.drop mss.toNat).map SeqItem.byte := by
      rw [hdata, List.append_assoc, ← List.map_append, List.take_append_drop]
    generalize hb : ({ useg with
      data := useg.data ++ queue.data, clen := useg.clen + (queue.clen - old) } : SendSeg) = b at heq
    have hbclen : b.clen.toNat = useg.clen.toNat + (queue.clen.toNat - old.toNat) := by
      have hroom' := UInt16.le_iff_toNat_le.mp happended.2.2
      have hlen := happended.2.1
      simp only [pbufs_append, pbufs, tcpSndQueuelen, UInt16.reduceToNat] at hlen hroom' hqueuelen
      have hsub : (queue.clen - old).toNat = queue.clen.toNat - old.toNat :=
        UInt16.toNat_sub_of_le _ _ (UInt16.le_iff_toNat_le.mpr (by omega))
      rw [← hb, UInt16.toNat_add, hsub]
      omega
    have hgrow : Queues iss (written ++ queue.data.map SeqItem.byte) acked sent unacked (init ++ [b]) := by
      apply h.grow hstop
      case hseqno => rw [← hb]
      case hpos => rw [← hb]
      case hitems => simp [← hb, items, TcpFlags.items, husyn, hufin]
      case hok =>
        constructor
        case flags => simp [← hb, husyn]
        case syn => simp [← hb, husyn]
        case short =>
          rw [← hb, List.length_append]
          omega
        case clen =>
          have := (h.wellFormed useg huseg).clen
          omega
      case hwindow =>
        rw [hsplit, List.length_append] at hwindow
        omega
    have hqueues : Queues iss (written ++ left.map SeqItem.byte) acked sent unacked (init ++ b :: rest) := by
      rcases hrest with ⟨hdrop, rfl, -⟩ | ⟨hdrop, hrec⟩
      . rwa [hsplit, hdrop, List.map_nil, List.append_nil]
      . have hpos : written.length + queue.data.length = (written ++ queue.data.map SeqItem.byte).length := by
          rw [List.length_append, List.length_map]
        have happ : init ++ [b] ++ rest = init ++ b :: rest := by simp
        rw [ofPos_add, hpos] at hrec
        rw [hsplit] at hwindow ⊢
        exact happ ▸ (hgrow.enqueue hmss hmax hsyn hfin hdrop hpass.room hwindow hrec).1
    have hlen := happended.2.1
    have hsub : (queuelen' - old).toNat = queuelen'.toNat - old.toNat := by
      apply UInt16.toNat_sub_of_le
      apply UInt16.le_iff_toNat_le.mpr
      simp only [pbufs] at hlen
      omega
    simp only [chained, heq]
    refine ⟨hqueues, ?_, ?_⟩
    . simp only [pbufs_append, pbufs] at hlen hqueuelen ⊢
      omega
    . have hroom' := UInt16.le_iff_toNat_le.mp happended.2.2
      apply UInt16.le_iff_toNat_le.mpr
      omega

theorem chainCtrl (h : Queues iss written acked sent unacked unsent) {mss : UInt16} {flags : TcpFlags}
    {copy : Bool} {optflags : UInt8} {maxlen : Nat} (hone : flags.syn = !flags.fin) {segs : Nat}
    {queuelen queuelen' : UInt16} {queue : SendSeg} {rest : List SendSeg} {n : Nat}
    (hqueuelen : queuelen.toNat = n + pbufs unsent) (hroom : queuelen ≤ tcpSndQueuelen)
    (hwindow : written.length + 1 ≤ acked + maxOutstanding)
    (henq : SendSeg.enqueue maxlen flags copy optflags segs [] (ofPos iss written.length) written.length queuelen
      = some (queue :: rest, queuelen'))
    : let chained := chain unsent flags copy mss queue rest queuelen'
      Queues iss (written ++ flags.items []) acked sent unacked chained.1
        ∧ chained.2.toNat = n + pbufs chained.1 ∧ chained.2 ≤ tcpSndQueuelen := by
  rcases SendSeg.enqueue_cases henq with ⟨segs', seg, rest', rfl, hcons, hpass, hrest⟩
  injection hcons with hseg hrest'
  subst hseg hrest'
  rcases hrest with ⟨-, rfl, rfl⟩ | ⟨hne, -⟩
  . have hdata : queue.data = [] := by rw [hpass.data, List.take_nil]
    have hclen : queue.clen.toNat = 1 := by
      rw [hpass.clen]
      simp
    have hitems : (flags.items []).length = 1 := by
      unfold TcpFlags.items
      cases hfin : flags.fin <;> simp [hone, hfin]
    have hql := hpass.queuelen hroom
    intro chained
    rcases chain_cases unsent flags copy mss queue [] (queuelen + queue.clen) with
      heq | ⟨init, useg, rfl, hchains, heq⟩
    . have hqueue : queue.items = flags.items [] := by rw [items, hpass.flags, hdata]
      simp only [chained, heq]
      refine ⟨?_, ?_, hpass.room⟩
      . rw [← hqueue]
        apply h.snoc hpass.seqno hpass.pos
        case hne =>
          apply List.ne_nil_of_length_pos
          rw [hqueue, hitems]
          decide
        case hok =>
          constructor
          case flags =>
            rw [hpass.flags, hone]
            cases flags.fin <;> simp
          case syn => exact fun _ => hdata
          case short => simp [hdata]
          case clen => exact hpass.clen_pos
        case hwindow =>
          rw [hqueue, List.length_append, hitems]
          exact hwindow
      . rw [hql, pbufs_append, hqueuelen, pbufs, pbufs]
        omega
    . rcases chains_iff hchains with ⟨husyn, hufin, hplain | rfl, -, hseqno⟩
      . rw [hplain.1, hplain.2] at hone
        cases hone
      . simp only [hdata, List.isEmpty_nil, Bool.or_true, if_true] at heq
        simp only [chained, heq]
        have hstop := h.stop_eq (by simp) husyn hufin (hseqno.trans hpass.seqno)
        refine ⟨?_, ?_, ?_⟩
        . apply h.grow hstop
          case hseqno => rfl
          case hpos => rfl
          case hitems => simp [items, TcpFlags.items, husyn, hufin]
          case hok =>
            constructor
            case flags => simp [husyn]
            case syn => simp [husyn]
            case short => exact (h.wellFormed useg (by simp)).short
            case clen => exact (h.wellFormed useg (by simp)).clen
          case hwindow =>
            rw [List.length_append, hitems]
            exact hwindow
        . rw [uint16_add_sub_one hclen, hqueuelen]
          simp only [pbufs_append, pbufs]
        . rwa [uint16_add_sub_one hclen]
  . simp at hne

end Queues

end SerialGateway
