import SerialGateway.Eth.Tx

/-!
This module contains when the DMA transmits exactly the chains that `low_level_output` has accepted.
-/

open Ring Transition

namespace SerialGateway

def TxAct.Short : TxAct → Prop
  | .call p => (chainData p).length ≤ ethMaxPacketSize
  | _ => True

instance : ∀ a : TxAct, Decidable a.Short
  | .call p => inferInstanceAs (Decidable ((chainData p).length ≤ _))
  | .cpu | .dma _ | .tbu => .isTrue trivial

namespace EthTx

variable {e : EthTx} {i j : Fin ethTxBufNb}

def Holds (e : EthTx) (addr : Nat) (data : List UInt8) : Prop :=
  (List.range data.length).map (fun l => e.txBuff (addr + l)) = data

theorem holds_memcpy {addr : Nat} {data : List UInt8} (h : e.Holds addr data) (q : Pbuf)
    : (e.memcpy (addr + data.length) q).Holds addr (data ++ q.data) := by
  rw [Holds, List.length_append, Pbuf.length_data, List.range_add, List.map_append, List.map_map]
  congr 1
  . refine Eq.trans (List.map_congr_left ?_) h
    intro l hl
    have hlt := List.mem_range.mp hl
    apply if_neg
    omega
  . apply List.map_congr_left
    intro l hl
    have hlt := List.mem_range.mp hl
    have hsub : addr + (data.length + l) - (addr + data.length) = l := by omega
    simp only [memcpy, Function.comp_apply]
    rw [if_pos (by omega), hsub]

theorem length_frame_memcpy (addr : Nat) (q : Pbuf)
    : ((e.memcpy addr q).frame i).length = (e.frame i).length := by
  simp [frame, memcpy]

theorem frame_memcpy (hchained : Chained e.dmaTxDscrTab) {q : Pbuf} {l : Nat}
    (hframe : (e.frame i).length ≤ ethMaxPacketSize) (hle : l + q.len.toNat ≤ ethMaxPacketSize)
    (hij : i ≠ j ∨ q.len.toNat = 0)
    : (e.memcpy (j.val * ethMaxPacketSize + l) q).frame i = e.frame i := by
  apply List.map_congr_left
  intro m hm
  have hlt := List.mem_range.mp hm
  rw [frame, List.length_map, List.length_range] at hframe
  have hmax : m < ethMaxPacketSize := Nat.lt_of_lt_of_le hlt hframe
  simp only [memcpy, (hchained i).1]
  apply if_neg
  rcases hij with hne | hzero
  . have hval : i.val ≠ j.val := mt Fin.ext hne
    simp only [ethMaxPacketSize] at hmax hle ⊢
    omega
  . omega

theorem overwrites_iff (hchained : Chained e.dmaTxDscrTab) {l len : Nat}
    (hle : l + len ≤ ethMaxPacketSize)
    : e.Overwrites (j.val * ethMaxPacketSize + l) len ↔ 0 < len ∧ e.Owned j := by
  constructor
  . rintro ⟨hpos, i, howned, hlo, hhi⟩
    rw [(hchained i).1] at hlo hhi
    have hval : i.val = j.val := by
      simp only [ethMaxPacketSize] at hle hlo hhi
      omega
    exact ⟨hpos, Fin.ext hval ▸ howned⟩
  . rintro ⟨hpos, howned⟩
    refine ⟨hpos, j, howned, ?_, ?_⟩ <;>
    . rw [(hchained j).1]
      omega

theorem frame_congr {e' : EthTx} (hbuff : e'.txBuff = e.txBuff)
    (hsize : (e'.dmaTxDscrTab i).controlBufferSize = (e.dmaTxDscrTab i).controlBufferSize)
    (haddr : (e'.dmaTxDscrTab i).buffer1Addr = (e.dmaTxDscrTab i).buffer1Addr)
    : e'.frame i = e.frame i := by
  simp only [frame, hbuff, hsize, haddr]

theorem toNat_frameLength {l : Nat} (hle : l ≤ ethMaxPacketSize)
    : ((BitVec.ofNat 16 l).setWidth 32 &&& dmaTxDescTbs1 &&& dmaTxDescTbs1).toNat = l := by
  have hmask : dmaTxDescTbs1.toNat = 2 ^ 13 - 1 := rfl
  have hmax : ethMaxPacketSize = 1520 := rfl
  rw [BitVec.and_assoc, BitVec.and_self, BitVec.toNat_and, hmask, Nat.and_two_pow_sub_one_eq_mod,
    BitVec.toNat_setWidth, BitVec.toNat_ofNat]
  omega

theorem or_own_and_own (status : BitVec 32) : (status ||| dmaTxDescOwn) &&& dmaTxDescOwn ≠ 0 := by
  rw [BitVec.and_or_distrib_right, BitVec.and_self]
  intro hzero
  have := (BitVec.or_eq_zero_iff.mp hzero).2
  contradiction

theorem ethTxPktChainMode_of_free {l : Nat} (hchained : Chained e.dmaTxDscrTab)
    (hfree : ¬ e.Owned e.dmaTxDescToSet) (hle : l ≤ ethMaxPacketSize)
    : ∃ e', e.ethTxPktChainMode (BitVec.ofNat 16 l) = (e', ethSuccess)
        ∧ Chained e'.dmaTxDscrTab
        ∧ e'.dmaTxDescToSet = nextDesc e.dmaTxDescToSet
        ∧ e'.Owned e.dmaTxDescToSet
        ∧ e'.frame e.dmaTxDescToSet =
            (List.range l).map (fun a =>
              e.txBuff (e.dmaTxDescToSet.val * ethMaxPacketSize + a))
        ∧ ∀ i, i ≠ e.dmaTxDescToSet → (e'.Owned i ↔ e.Owned i) ∧ e'.frame i = e.frame i := by
  refine ⟨_, if_neg hfree, ?_, ?_, ?_, ?_, ?_⟩
  . intro i
    by_cases hi : i = e.dmaTxDescToSet
    . subst hi
      simp only [Function.update_self]
      apply hchained
    . simp only [Function.update_of_ne hi]
      exact hchained i
  . exact (hchained _).2
  . simp only [Owned, Function.update_self]
    apply or_own_and_own
  . simp only [frame, Function.update_self, toNat_frameLength hle, (hchained _).1]
  . intro i hi
    refine ⟨?_, frame_congr rfl ?_ ?_⟩
    . simp only [Owned, Function.update_of_ne hi]
    . simp only [Function.update_of_ne hi]
    . simp only [Function.update_of_ne hi]

end EthTx

namespace Tx

def Filling (e : EthTx) (addr : Nat) : TxPc → Prop
  | .idle => True
  | .getBuffer p => (chainData p).length ≤ ethMaxPacketSize
  | .memcpy p buffer todo l =>
    (chainData p).length ≤ ethMaxPacketSize ∧ buffer = addr
      ∧ ∃ copied, p = copied ++ todo ∧ l = (chainData copied).length
        ∧ e.Holds addr (chainData copied)
  | .txPkt p l =>
    (chainData p).length ≤ ethMaxPacketSize ∧ l = (chainData p).length
      ∧ e.Holds addr (chainData p)

structure Queued (lo hi : Nat) (s : Tx) : Prop where
  chained : Chained s.eth.dmaTxDscrTab
  window : Window s.eth.Owned lo hi
  dmaDesc_eq : s.dmaDesc = slot _ lo
  toSet : s.eth.dmaTxDescToSet = slot _ hi
  fits : ∀ i, (s.eth.frame i).length ≤ ethMaxPacketSize
  filling : Filling s.eth ((slot ethTxBufNb hi).val * ethMaxPacketSize) s.pc
  sent_length : s.sent.length = lo
  le : hi ≤ (accepted s.returned).length
  frames : s.overwrote = false → hi = (accepted s.returned).length →
    s.sent ++ (List.range (hi - lo)).map (fun k => s.eth.frame (slot _ (lo + k))) = accepted s.returned

def Clean (hi : Nat) (s : Tx) : Prop := s.overwrote = false ∧ hi = (accepted s.returned).length

def Faithful (s : Tx) : Prop := s.sent ++ s.inFlight = accepted s.returned ∧ s.overwrote = false

instance (s : Tx) : Decidable s.Faithful := inferInstanceAs (Decidable (_ ∧ _))

def Writes (s : Tx) : Prop :=
  match s.pc with
  | .memcpy _ _ (q :: _) _ => 0 < q.len.toNat
  | .txPkt _ _ => True
  | _ => False

def InTime (s : Tx) : TxAct → Prop
  | .cpu => s.Writes → ∃ i, ¬ s.eth.Owned i
  | _ => True

variable {lo hi : Nat} {s s' t : Tx}

namespace Queued

theorem accepted_concat (returned : List (List UInt8 × ErrT)) (data : List UInt8)
    : accepted (returned ++ [(data, .ok)]) = accepted returned ++ [data] := by
  simp [accepted]

theorem inFlight_eq (h : Queued lo hi s)
    : s.inFlight = (List.range (hi - lo)).map fun k => s.eth.frame (slot _ (lo + k)) := by
  simp only [inFlight, h.dmaDesc_eq, slot_val_add, h.window.takeWhile_full, List.map_map]
  rfl

theorem faithful_iff (h : Queued lo hi s) : s.Faithful ↔ s.Clean hi := by
  have hle := h.window.le
  have hlo := h.sent_length
  rw [Faithful, h.inFlight_eq, Clean]
  constructor
  . rintro ⟨hframes, hover⟩
    have hlength := congrArg List.length hframes
    rw [List.length_append, List.length_map, List.length_range] at hlength
    exact ⟨hover, by omega⟩
  . rintro ⟨hover, hall⟩
    exact ⟨h.frames hover hall, hover⟩

theorem dma {status : BitVec 32} (h : Queued lo hi s) (hstep : s.dma status = some s')
    : Queued (lo + 1) hi s' := by
  rw [Tx.dma, Option.ite_none_right_eq_some, Option.some.injEq] at hstep
  rcases hstep with ⟨⟨howned, hstatus⟩, rfl⟩
  rcases s with ⟨e, dmaDesc, pc, sent, returned, overwrote⟩
  rcases h with ⟨hchained, hwindow, hdesc, htoSet, hfits, hfilling, hlength, hle, hframes⟩
  simp only at hchained hwindow hdesc htoSet hfits hfilling hlength hframes howned
  subst hdesc
  have hlt := hwindow.full_lo_iff.mp howned
  have hframe : ∀ i, EthTx.frame { e with
      dmaTxDscrTab := Function.update e.dmaTxDscrTab (slot _ lo)
        { e.dmaTxDscrTab (slot _ lo) with status := status } } i = e.frame i := by
    intro i
    by_cases hi : i = slot _ lo
    . subst hi
      apply EthTx.frame_congr
      . rfl
      . simp
      . simp
    . apply EthTx.frame_congr
      . rfl
      . simp [hi]
      . simp [hi]
  refine ⟨?_, ?_, ?_, htoSet, ?_, hfilling, ?_, hle, ?_⟩
  . intro i
    by_cases hi : i = slot _ lo
    . subst hi
      simp only [Function.update_self]
      apply hchained
    . simp only [Function.update_of_ne hi]
      exact hchained i
  . refine hwindow.consume hlt ?_ fun i hi => ?_
    . simp only [EthTx.Owned, Function.update_self]
      exact not_not_intro hstatus
    . simp only [EthTx.Owned, Function.update_of_ne hi]
  . simp only [(hchained _).2, nextDesc_slot]
  . intro i
    rw [hframe]
    exact hfits i
  . rw [List.length_append, hlength]
    rfl
  . intro hover hall
    have hcount : hi - lo = hi - (lo + 1) + 1 := by omega
    have hshift : ∀ k, lo + 1 + k = lo + (k + 1) := by omega
    have hframes := hframes hover hall
    rw [hcount, List.range_succ_eq_map] at hframes
    simp only [hframe, hshift]
    simpa [Function.comp_def] using hframes

theorem memcpy {p todo : List Pbuf} {q : Pbuf} {buffer l : Nat} (h : Queued lo hi s)
    (hpc : s.pc = .memcpy p buffer (q :: todo) l) (hstep : s.cpu = some s')
    : Queued lo hi s' ∧ (s'.Clean hi ↔ s.Clean hi ∧ s.InTime .cpu) := by
  have hempty := h.window.exists_empty_iff
  rcases s with ⟨e, dmaDesc, pc, sent, returned, overwrote⟩
  simp only at hpc
  subst hpc
  rcases h with ⟨hchained, hwindow, hdesc, htoSet, hfits, hfilling, hlength, hle, hframes⟩
  simp only at hchained hwindow hdesc htoSet hfits hlength hframes hempty
  rcases hfilling with ⟨hshort, rfl, copied, rfl, rfl, hholds⟩
  have hroom : (chainData copied).length + q.len.toNat ≤ ethMaxPacketSize := by
    simp only [chainData, List.flatMap_append, List.flatMap_cons, List.length_append,
      Pbuf.length_data] at hshort ⊢
    omega
  have hoverwrites := EthTx.overwrites_iff (j := slot _ hi) hchained hroom
  simp only [cpu, Option.some.injEq] at hstep
  subst hstep
  refine ⟨⟨hchained, hwindow, hdesc, htoSet, ?_, ⟨hshort, rfl, copied ++ [q], ?_, ?_, ?_⟩,
    hlength, hle, ?_⟩, ?_⟩
  . intro i
    rw [EthTx.length_frame_memcpy]
    exact hfits i
  . rw [List.append_assoc]
    rfl
  . simp [chainData]
  . have hdata : chainData (copied ++ [q]) = chainData copied ++ q.data := by simp [chainData]
    rw [hdata]
    exact EthTx.holds_memcpy hholds q
  . intro hover hall
    rw [Bool.or_eq_false_iff, decide_eq_false_iff_not, hoverwrites] at hover
    rcases hover with ⟨hover, hfree⟩
    refine Eq.trans (congrArg (sent ++ ·) (List.map_congr_left ?_)) (hframes hover hall)
    intro k hk
    have hlt := List.mem_range.mp hk
    refine EthTx.frame_memcpy hchained (hfits _) hroom ?_
    by_cases hzero : q.len.toNat = 0
    . exact .inr hzero
    . -- the DMA does not own the buffer, so it is that of none of the frames in the ring
      have hbound := hwindow.bound
      have hne := mt hwindow.full_hi_iff.mpr (fun howned => hfree ⟨by omega, howned⟩)
      exact .inl (hwindow.slot_ne (by omega) (by omega) hwindow.le (by omega) (by omega))
  . simp only [Clean, InTime, Writes, Bool.or_eq_false_iff, decide_eq_false_iff_not, hoverwrites,
      hempty]
    constructor
    . rintro ⟨⟨hover, hfree⟩, hall⟩
      exact ⟨⟨hover, hall⟩, fun hpos howned => hfree ⟨hpos, howned⟩⟩
    . rintro ⟨⟨hover, hall⟩, hfree⟩
      exact ⟨⟨hover, fun howned => hfree howned.1 howned.2⟩, hall⟩

theorem txPkt {p : List Pbuf} {l : Nat} (h : Queued lo hi s) (hpc : s.pc = .txPkt p l)
    (hstep : s.cpu = some s')
    : ∃ hi', Queued lo hi' s' ∧ (s'.Clean hi' ↔ s.Clean hi ∧ s.InTime .cpu) := by
  have hempty := h.window.exists_empty_iff
  rcases s with ⟨e, dmaDesc, pc, sent, returned, overwrote⟩
  simp only at hpc
  subst hpc
  rcases h with ⟨hchained, hwindow, hdesc, htoSet, hfits, hfilling, hlength, hle, hframes⟩
  simp only at hchained hwindow hdesc htoSet hfits hlength hle hframes hempty
  rcases hfilling with ⟨hshort, rfl, hholds⟩
  by_cases howned : e.Owned (slot _ hi)
  . -- the call returns `ERR_OK` all the same
    have hrefused : e.Owned e.dmaTxDescToSet := htoSet ▸ howned
    simp only [cpu, EthTx.ethTxPktChainMode, hrefused, ↓reduceIte, Option.some.injEq] at hstep
    subst hstep
    refine ⟨hi, ⟨hchained, hwindow, hdesc, htoSet, hfits, trivial, hlength, ?_, ?_⟩, ?_⟩
    . rw [accepted_concat, List.length_append]
      exact Nat.le_succ_of_le hle
    . intro hover hall
      rw [accepted_concat, List.length_append] at hall
      exact absurd hall (Nat.ne_of_lt (Nat.lt_succ_of_le hle))
    . simp only [Clean, accepted_concat, List.length_append, List.length_singleton, InTime, Writes,
        hempty, howned]
      simp only [not_true_eq_false, imp_false, and_false, iff_false, not_and]
      omega
  . have hbound := hwindow.bound
    have hroom := mt hwindow.full_hi_iff.mpr howned
    rcases EthTx.ethTxPktChainMode_of_free hchained (htoSet ▸ howned) hshort with
      ⟨e', heq, hchained', htoSet', howned', hframe', hother⟩
    rw [htoSet] at htoSet' howned' hframe' hother
    simp only [cpu, heq, Option.some.injEq] at hstep
    subst hstep
    refine ⟨hi + 1, ⟨hchained', ?_, hdesc, ?_, ?_, trivial, hlength, ?_, ?_⟩, ?_⟩
    . exact hwindow.produce howned howned' fun i hi => (hother i hi).1
    . rw [htoSet', nextDesc_slot]
    . intro i
      by_cases hi : i = slot _ hi
      . rw [hi, hframe', hholds]
        exact hshort
      . rw [(hother i hi).2]
        exact hfits i
    . rw [accepted_concat, List.length_append]
      exact Nat.succ_le_succ hle
    . intro hover hall
      rw [accepted_concat, List.length_append] at hall
      have hcount : hi + 1 - lo = (hi - lo) + 1 := Nat.succ_sub hwindow.le
      have hlast : lo + (hi - lo) = hi := Nat.add_sub_cancel' hwindow.le
      have hold : (List.range (hi - lo)).map (fun k => e'.frame (slot _ (lo + k))) =
          (List.range (hi - lo)).map (fun k => e.frame (slot _ (lo + k))) := by
        apply List.map_congr_left
        intro k hk
        have hlt := List.mem_range.mp hk
        exact (hother _ (hwindow.slot_ne (by omega) (by omega) hwindow.le (by omega) (by omega))).2
      rw [accepted_concat, hcount, List.range_succ, List.map_append, hold, ← List.append_assoc,
        hframes hover (Nat.succ_inj.mp hall), List.map_singleton, hlast, hframe', hholds]
    . simp only [Clean, accepted_concat, List.length_append, List.length_singleton, InTime, Writes,
        hempty, howned]
      simp

theorem step {a : TxAct} (h : Queued lo hi s) (hshort : a.Short) (hstep : s.step a = some s')
    : ∃ lo' hi', Queued lo' hi' s' ∧ (s'.Clean hi' ↔ s.Clean hi ∧ s.InTime a) := by
  cases a with
  | dma status =>
    refine ⟨lo + 1, hi, h.dma hstep, ?_⟩
    rw [Tx.step, Tx.dma, Option.ite_none_right_eq_some, Option.some.injEq] at hstep
    rcases hstep with ⟨-, rfl⟩
    simp [Clean, InTime]
  | tbu =>
    rw [Tx.step, Option.some.injEq] at hstep
    subst hstep
    refine ⟨lo, hi, ⟨h.chained, h.window, h.dmaDesc_eq, h.toSet, h.fits, ?_, h.sent_length, h.le,
      h.frames⟩, by simp [Clean, InTime]⟩
    have hfilling := h.filling
    cases hpc : s.pc <;> rw [hpc] at hfilling <;> exact hfilling
  | call p =>
    rcases s with ⟨e, dmaDesc, pc, sent, returned, overwrote⟩
    cases pc with
    | idle =>
      cases hstep
      exact ⟨lo, hi, ⟨h.chained, h.window, h.dmaDesc_eq, h.toSet, h.fits, hshort, h.sent_length, h.le,
        h.frames⟩, by simp [Clean, InTime]⟩
    | _ => contradiction
  | cpu =>
    cases hpc : s.pc with
    | idle => simp [Tx.step, Tx.cpu, hpc] at hstep
    | getBuffer p =>
      have hfilling := h.filling
      rw [hpc] at hfilling
      simp only [Tx.step, Tx.cpu, hpc, Option.some.injEq] at hstep
      subst hstep
      refine ⟨lo, hi, ⟨h.chained, h.window, h.dmaDesc_eq, h.toSet, h.fits, ?_, h.sent_length, h.le,
        h.frames⟩, by simp [Clean, InTime, Writes, hpc]⟩
      refine ⟨hfilling, ?_, [], rfl, rfl, rfl⟩
      rw [EthTx.ethGetCurrentTxBuffer, h.toSet, (h.chained _).1]
    | memcpy p buffer todo l =>
      cases todo with
      | nil =>
        have hfilling := h.filling
        rw [hpc] at hfilling
        rcases hfilling with ⟨hshort, -, copied, rfl, hlength, hholds⟩
        rw [List.append_nil] at hshort
        simp only [Tx.step, Tx.cpu, hpc, List.append_nil, Option.some.injEq] at hstep
        subst hstep
        exact ⟨lo, hi, ⟨h.chained, h.window, h.dmaDesc_eq, h.toSet, h.fits, ⟨hshort, hlength, hholds⟩,
          h.sent_length, h.le, h.frames⟩, by simp [Clean, InTime, Writes, hpc]⟩
      | cons q todo => exact ⟨lo, hi, h.memcpy hpc hstep⟩
    | txPkt p l =>
      rcases h.txPkt hpc hstep with ⟨hi', h', hclean⟩
      exact ⟨lo, hi', h', hclean⟩

theorem run {as : List TxAct} (h : Queued lo hi s) (hshort : ∀ a ∈ as, a.Short)
    (hrun : Transition.run Tx.step s as = some t)
    : ∃ lo' hi', Queued lo' hi' t ∧ (t.Clean hi' ↔ s.Clean hi ∧ Along Tx.step InTime s as) := by
  induction as generalizing s lo hi with
  | nil =>
    rw [run_nil, Option.some.injEq] at hrun
    subst hrun
    exact ⟨lo, hi, h, (and_iff_left trivial).symm⟩
  | cons a as ih =>
    rcases List.forall_mem_cons.mp hshort with ⟨hfirst, hrest⟩
    rcases run_cons_eq_some.mp hrun with ⟨s', hstep, hrun'⟩
    rcases h.step hfirst hstep with ⟨lo', hi', h', hclean⟩
    rcases ih h' hrest hrun' with ⟨lo'', hi'', h'', hclean'⟩
    refine ⟨lo'', hi'', h'', ?_⟩
    rw [hclean', hclean, along_cons, and_assoc, hstep]
    simp

theorem powerOn : Queued 0 0 Tx.powerOn := by
  have hempty : ∀ i, ¬ Tx.powerOn.eth.Owned i := by decide
  refine ⟨by decide, ⟨Nat.le_refl 0, Nat.zero_le _, ?_⟩, rfl, rfl, by decide, trivial, rfl,
    Nat.le_refl 0, fun _ _ => rfl⟩
  intro k _ _
  apply iff_of_false
  . exact hempty _
  . exact Nat.not_lt_zero k

end Queued

def output (byte : UInt8) : List TxAct :=
  [.call [{ payload := fun _ => byte, totLen := 1, len := 1 }], .cpu, .cpu, .cpu, .cpu]

def threeFrames : List TxAct :=
  output 0x61 ++ output 0x62 ++ [.dma 0] ++ output 0x63 ++ [.dma 0, .dma 0]

def threeFramesSent : Tx := (run step powerOn threeFrames).get (by decide)

example : threeFramesSent.sent = [[0x61], [0x62], [0x63]] := by decide

def burst : List TxAct :=
  output 0x61 ++ output 0x62 ++ output 0x63 ++ [.dma 0, .dma 0]

end Tx

end SerialGateway
