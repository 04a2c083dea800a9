import SerialGateway.Lib.Circular
import SerialGateway.Os.Queue

/-!
This module contains how messages pass through a queue of uC/OS-II (`OSQPost` and `OSQPend` of
`os_q.c`, `OS_EventTaskRdy` and `OSTimeTick` of `os_core.c`) with one task that pends on it.
-/

namespace SerialGateway

variable {α : Type}

namespace OsQ

def put (pq : OsQ) (mem : Nat → α) (pmsg : α) : OsQ × (Nat → α) :=
  let osqIn := pq.osqIn + 1
  ({ pq with
      osqIn := if osqIn = pq.osqEnd then pq.osqStart else osqIn
      osqEntries := pq.osqEntries + 1 },
    Function.update mem pq.osqIn pmsg)

def take (pq : OsQ) (mem : Nat → α) : α × OsQ :=
  let osqOut := pq.osqOut + 1
  (mem pq.osqOut,
    { pq with
      osqOut := if osqOut = pq.osqEnd then pq.osqStart else osqOut
      osqEntries := pq.osqEntries - 1 })

def contents (pq : OsQ) (mem : Nat → α) : List α :=
  (List.range pq.osqEntries.toNat).map fun i =>
    mem (Circular.cell pq.osqStart pq.osqSize.toNat pq.osqOut i)

structure Holds (pq : OsQ) (mem : Nat → α) (msgs : List α) : Prop where
  circular : Circular.Holds mem pq.osqStart pq.osqSize.toNat pq.osqOut msgs
  osqEnd : pq.osqEnd = pq.osqStart + pq.osqSize.toNat
  osqEntries : pq.osqEntries.toNat = msgs.length
  osqIn : pq.osqIn = Circular.cell pq.osqStart pq.osqSize.toNat pq.osqOut msgs.length

variable {pq : OsQ} {mem : Nat → α} {msgs : List α} {pmsg : α}

theorem holds_create (start : Nat) (size : UInt16) (mem : Nat → α)
    : (OsQ.create start size).Holds mem [] := by
  have hholds : Circular.Holds mem start size.toNat start ([] : List α) := Circular.holds_nil
  constructor
  . exact hholds
  . rfl
  . rfl
  . exact hholds.cell_zero.symm

theorem Holds.contents_eq (h : pq.Holds mem msgs) : pq.contents mem = msgs := by
  unfold contents
  rw [h.osqEntries]
  apply List.ext_getElem
  . simp
  . intro i hi hi'
    simp only [List.getElem_map, List.getElem_range]
    exact h.circular.item i hi'

theorem Holds.entries_lt_iff (h : pq.Holds mem msgs)
    : pq.osqEntries ≥ pq.osqSize ↔ msgs.length = pq.osqSize.toNat := by
  rw [ge_iff_le, UInt16.le_iff_toNat_le, h.osqEntries]
  have := h.circular.bound
  omega

theorem Holds.entries_pos_iff (h : pq.Holds mem msgs) : pq.osqEntries > 0 ↔ msgs ≠ [] := by
  rw [gt_iff_lt, UInt16.lt_iff_toNat_lt, h.osqEntries]
  exact List.length_pos_iff

theorem Holds.put (h : pq.Holds mem msgs) (hroom : msgs.length < pq.osqSize.toNat) (pmsg : α)
    : (pq.put mem pmsg).1.Holds (pq.put mem pmsg).2 (msgs ++ [pmsg]) := by
  have hlt := pq.osqSize.toNat_lt
  constructor
  . have hpush := h.circular.push hroom pmsg
    rw [← h.osqIn] at hpush
    exact hpush
  . exact h.osqEnd
  . have hentries := h.osqEntries
    simp only [OsQ.put, List.length_append, List.length_singleton, UInt16.toNat_add,
      UInt16.reduceToNat]
    omega
  . have hsucc := h.circular.cell_succ hroom
    simp only [OsQ.put, List.length_append, List.length_singleton]
    rw [hsucc, h.osqEnd, h.osqIn]

theorem Holds.take (h : pq.Holds mem (pmsg :: msgs))
    : (pq.take mem).1 = pmsg ∧ (pq.take mem).2.Holds mem msgs := by
  rcases h.circular.pop with ⟨hmsg, hrest⟩
  have hbound := h.circular.bound
  have hentries := h.osqEntries
  rw [List.length_cons] at hbound hentries
  have hout : (pq.take mem).2.osqOut = Circular.cell pq.osqStart pq.osqSize.toNat pq.osqOut 1 := by
    have hsucc := h.circular.cell_succ (i := 0) (by omega)
    rw [h.circular.cell_zero, ← h.osqEnd] at hsucc
    exact hsucc.symm
  constructor
  . exact hmsg
  . constructor
    . rw [hout]
      exact hrest
    . exact h.osqEnd
    . simp only [OsQ.take]
      rw [UInt16.toNat_sub_of_le]
      . simp only [UInt16.reduceToNat]
        omega
      . apply UInt16.le_iff_toNat_le.mpr
        simp only [UInt16.reduceToNat]
        omega
    . rw [hout]
      have hin := h.osqIn
      rw [List.length_cons] at hin
      have hlt : pq.osqOut < pq.osqStart + pq.osqSize.toNat := by
        have := h.circular.lt
        omega
      exact hin.trans (Circular.cell_cell_one h.circular.le hlt hbound).symm

end OsQ

inductive PendStat where
  | ok
  | to
  | abort
  deriving DecidableEq, Repr

/--
The part of a task control block that pending on a queue uses. `osTcbStatQ` is the bit `OS_STAT_Q` of
`OSTCBStat`.
-/
structure OsTcb (α : Type) where
  osTcbDly : UInt32
  osTcbStatQ : Bool
  osTcbStatPend : PendStat
  osTcbMsg : Option α

/--
A queue with the cells that hold its messages and the one task that pends on it. A message is a pointer,
`none` is the null pointer. `osEventGrp` tells whether the task is on the wait list.
-/
structure MsgQueue (α : Type) where
  pq : OsQ
  mem : Nat → Option α
  osEventGrp : Bool
  tcb : OsTcb α

namespace MsgQueue

def create (start : Nat) (size : UInt16) (mem : Nat → Option α) : MsgQueue α :=
  { pq := .create start size
    mem
    osEventGrp := false
    tcb := { osTcbDly := 0, osTcbStatQ := false, osTcbStatPend := .ok, osTcbMsg := none } }

/--
`OS_EventTaskRdy`, called with `OS_STAT_Q` and `OS_STAT_PEND_OK`.
-/
def osEventTaskRdy (k : MsgQueue α) (pmsg : Option α) : MsgQueue α :=
  { k with
    osEventGrp := false
    tcb := { osTcbDly := 0, osTcbStatQ := false, osTcbStatPend := .ok, osTcbMsg := pmsg } }

def osqPost (k : MsgQueue α) (pmsg : Option α) : MsgQueue α × OsqErr :=
  if k.osEventGrp then
    (k.osEventTaskRdy pmsg, .none)
  else if k.pq.osqEntries ≥ k.pq.osqSize then
    (k, .qFull)
  else
    let (pq, mem) := k.pq.put k.mem pmsg
    ({ k with pq, mem }, .none)

def osqPend (k : MsgQueue α) (timeout : UInt16) : MsgQueue α × Option (Option α) :=
  if k.pq.osqEntries > 0 then
    let (pmsg, pq) := k.pq.take k.mem
    ({ k with pq }, some pmsg)
  else
    ({ k with
        osEventGrp := true
        tcb := { k.tcb with
          osTcbStatQ := true
          osTcbStatPend := .ok
          osTcbDly := timeout.toUInt32 } },
      none)

def osqPendResume (k : MsgQueue α) : MsgQueue α × Option α × PendErr :=
  let tcb := { k.tcb with osTcbStatQ := false, osTcbStatPend := .ok, osTcbMsg := none }
  match k.tcb.osTcbStatPend with
  | .ok => ({ k with tcb }, k.tcb.osTcbMsg, .none)
  | .abort => ({ k with tcb }, none, .pendAbort)
  | .to => ({ k with tcb, osEventGrp := false }, none, .timeout)

def osTimeTick (k : MsgQueue α) : MsgQueue α :=
  if k.tcb.osTcbDly ≠ 0 then
    let tcb := { k.tcb with osTcbDly := k.tcb.osTcbDly - 1 }
    if tcb.osTcbDly = 0 then
      if tcb.osTcbStatQ then
        { k with tcb := { tcb with osTcbStatQ := false, osTcbStatPend := .to } }
      else
        { k with tcb := { tcb with osTcbStatPend := .ok } }
    else
      { k with tcb }
  else
    k

structure Inv (k : MsgQueue α) (suspended : Bool) (msgs : List (Option α)) : Prop where
  holds : k.pq.Holds k.mem msgs
  waiting : k.osEventGrp = true → suspended = true ∧ msgs = []
      ∧ (k.tcb.osTcbStatQ = true ∧ k.tcb.osTcbStatPend = .ok
        ∨ k.tcb.osTcbStatQ = false ∧ k.tcb.osTcbStatPend = .to ∧ k.tcb.osTcbDly = 0)
  ready : k.osEventGrp = false →
      k.tcb.osTcbDly = 0 ∧ k.tcb.osTcbStatQ = false ∧ k.tcb.osTcbStatPend = .ok

def handed (k : MsgQueue α) (suspended : Bool) : List (Option α) :=
  if suspended ∧ k.osEventGrp = false then [k.tcb.osTcbMsg] else []

variable {k k' : MsgQueue α} {suspended : Bool} {msgs : List (Option α)} {pmsg : Option α}

theorem inv_create (start : Nat) (size : UInt16) (mem : Nat → Option α)
    : (create start size mem).Inv false [] where
  holds := OsQ.holds_create start size mem
  waiting := by simp [create]
  ready := by simp [create]

theorem handed_running (k : MsgQueue α) : k.handed false = [] := by
  simp [handed]

theorem handed_waiting (h : k.osEventGrp = true) : k.handed suspended = [] := by
  simp [handed, h]

theorem Inv.osqPost (h : k.Inv suspended msgs) (hpost : k.osqPost pmsg = (k', .none))
    : ∃ msgs', k'.Inv suspended msgs'
        ∧ k'.handed suspended ++ msgs' = k.handed suspended ++ msgs ++ [pmsg] := by
  unfold MsgQueue.osqPost at hpost
  split at hpost
  . next hgrp =>
    rcases h.waiting hgrp with ⟨hsuspended, hmsgs, -⟩
    cases hpost
    refine ⟨[], ?_, ?_⟩
    . constructor
      . rw [← hmsgs]
        exact h.holds
      . simp [osEventTaskRdy]
      . simp [osEventTaskRdy]
    . rw [handed_waiting hgrp, hmsgs]
      simp [handed, osEventTaskRdy, hsuspended]
  . next hgrp =>
    split at hpost
    . cases hpost
    . next hfull =>
      rw [h.holds.entries_lt_iff] at hfull
      have hroom : msgs.length < k.pq.osqSize.toNat := by
        have := h.holds.circular.bound
        omega
      cases hpost
      refine ⟨msgs ++ [pmsg], ?_, ?_⟩
      . constructor
        . exact h.holds.put hroom pmsg
        . intro hgrp'
          exact absurd hgrp' hgrp
        . exact h.ready
      . rw [List.append_assoc]
        rfl

theorem osqPost_full (pmsg : Option α) (h : (k.osqPost pmsg).2 ≠ .none) : (k.osqPost pmsg).1 = k := by
  unfold osqPost at h ⊢
  split
  . next hgrp => simp [hgrp] at h
  . next hgrp =>
    split
    . rfl
    . next hfull => simp [hgrp, hfull] at h

theorem Inv.osqPend_some {timeout : UInt16} (h : k.Inv false msgs)
    (hpend : k.osqPend timeout = (k', some pmsg))
    : ∃ msgs', msgs = pmsg :: msgs' ∧ k'.Inv false msgs' := by
  unfold osqPend at hpend
  split at hpend
  . next hpos =>
    rw [h.holds.entries_pos_iff] at hpos
    cases msgs with
    | nil => contradiction
    | cons msg msgs =>
      rcases h.holds.take with ⟨hmsg, hrest⟩
      cases hpend
      refine ⟨msgs, ?_, ?_⟩
      . exact congrArg (· :: msgs) hmsg.symm
      . constructor
        . exact hrest
        . intro hgrp
          cases (h.waiting hgrp).1
        . exact h.ready
  . cases hpend

theorem Inv.osqPend_none {timeout : UInt16} (h : k.Inv false msgs)
    (hpend : k.osqPend timeout = (k', none))
    : msgs = [] ∧ k'.Inv true [] ∧ k'.handed true = [] := by
  unfold osqPend at hpend
  split at hpend
  . cases hpend
  . next hpos =>
    rw [h.holds.entries_pos_iff, not_not] at hpos
    subst hpos
    cases hpend
    refine ⟨rfl, ?_, ?_⟩
    . constructor
      . exact h.holds
      . simp
      . simp
    . apply handed_waiting
      rfl

theorem Inv.osqPendResume {err : PendErr} (h : k.Inv true msgs) (hready : k.tcb.osTcbStatQ = false)
    (hresume : k.osqPendResume = (k', pmsg, err))
    : k'.Inv false msgs
        ∧ (err = .none ∧ k.handed true = [pmsg] ∨ err = .timeout ∧ k.handed true = []) := by
  cases hgrp : k.osEventGrp with
  | true =>
    rcases h.waiting hgrp with ⟨-, hmsgs, hstat⟩
    have hto : k.tcb.osTcbStatPend = .to ∧ k.tcb.osTcbDly = 0 := by
      simpa [hready] using hstat
    simp only [MsgQueue.osqPendResume, hto.1] at hresume
    cases hresume
    constructor
    . constructor
      . exact h.holds
      . simp
      . simp [hto.2]
    . exact .inr ⟨rfl, handed_waiting hgrp⟩
  | false =>
    rcases h.ready hgrp with ⟨hdly, -, hpend⟩
    simp only [MsgQueue.osqPendResume, hpend] at hresume
    cases hresume
    constructor
    . constructor
      . exact h.holds
      . simp [hgrp]
      . simp [hdly]
    . left
      simp [handed, hgrp]

theorem Inv.osTimeTick (h : k.Inv suspended msgs)
    : k.osTimeTick.Inv suspended msgs ∧ k.osTimeTick.handed suspended = k.handed suspended := by
  cases hgrp : k.osEventGrp with
  | false =>
    have htick : k.osTimeTick = k := by
      simp [MsgQueue.osTimeTick, (h.ready hgrp).1]
    rw [htick]
    exact ⟨h, rfl⟩
  | true =>
    rcases h.waiting hgrp with ⟨hsuspended, hmsgs, hstat⟩
    unfold MsgQueue.osTimeTick
    split
    . next hdly =>
      have hstat' : k.tcb.osTcbStatQ = true ∧ k.tcb.osTcbStatPend = .ok := by
        simpa [hdly] using hstat
      dsimp only
      split
      . next hlast =>
        rw [if_pos hstat'.1]
        constructor
        . constructor
          . exact h.holds
          . simp [hsuspended, hmsgs, hlast]
          . simp [hgrp]
        . simp [handed, hgrp]
      . constructor
        . constructor
          . exact h.holds
          . simp [hsuspended, hmsgs, hstat']
          . simp [hgrp]
        . simp [handed, hgrp]
    . exact ⟨h, rfl⟩

end MsgQueue

end SerialGateway
