import Mathlib.Logic.Function.Basic
import SerialGateway.Lib.Transition
import SerialGateway.Tcp.Pcb
import SerialGateway.Tcp.ServerRecv

/-!
This module contains what becomes of the connections of the two TCP servers when their peers have sent a
FIN.
-/

open Transition

namespace SerialGateway

def tcpPrioMin : UInt8 := 1

def tcp232ServerAccept (pcb : TcpPcb) : TcpPcb × ErrT :=
  ({ pcb with prio := tcpPrioMin + 1, recv := some .rs232 }, .ok)

def tcp485ServerAccept (pcb : TcpPcb) : TcpPcb × ErrT :=
  ({ pcb with prio := tcpPrioMin, recv := some .rs485 }, .ok)

def PortId.serverAccept : PortId → TcpPcb → TcpPcb × ErrT
  | .rs232 => tcp232ServerAccept
  | .rs485 => tcp485ServerAccept

structure Servers where
  pcbs : Nat → Option TcpPcb
  err : ErrT

namespace Servers

def start : Servers := { pcbs := fun _ => none, err := .ok }

def set (s : Servers) (c : Nat) (pcb : Option TcpPcb) : Servers :=
  { s with pcbs := Function.update s.pcbs c pcb }

def tcpListenInput (id : PortId) (prio : UInt8) (mss : UInt16) (iss : UInt32) : TcpPcb :=
  { state := .synRcvd
    prio
    accept := id
    recv := none
    poll := none
    mss
    sndBuf := tcpSndBuf - 1
    sndQueuelen := 1
    sndLbb := iss + 1
    unsent := [{ seqno := iss, len := 0, syn := true, fin := false, flags := 1, clen := 1 }]
    unacked := []
    nagleMemErr := false }

def runEffect (segs pbufs : Nat) (s : Servers) : RecvEffect Nat → Servers
  | .tcpClose c =>
    match s.pcbs c with
    | none => s
    | some pcb => s.set c (pcb.tcpClose segs pbufs).1
  | _ => s

def tcpEventRecv (s : Servers) (id : PortId) (c : Nat) (p : List Pbuf) (segs pbufs : Nat) : Servers :=
  let (effects, err) := id.serverRecv c p
  { effects.foldl (runEffect segs pbufs) s with err }

/--
What happens to the connections. `segs` and `pbufs` are the segments and pbufs that can be allocated at
that time.
-/
inductive Act where
  | syn (c : Nat) (id : PortId) (prio : UInt8) (mss : UInt16) (iss : UInt32)
  | accept (c : Nat)
  | write (c : Nat) (len : UInt16) (segs pbufs : Nat)
  | output (c : Nat) (n : Nat)
  | rexmit (c : Nat)
  | ack (c : Nat) (acked : UInt16) (n m : Nat)
  | segment (c : Nat) (p : List Pbuf) (fin acksFin : Bool) (segs pbufs : Nat)
  | remove (c : Nat)

def segment (s : Servers) (id : PortId) (c : Nat) (pcb : TcpPcb) (p : List Pbuf)
    (fin acksFin : Bool) (segs pbufs : Nat)
    : Servers :=
  let s := if fin then s.set c (some (pcb.gotFin acksFin)) else s
  let s := if p ≠ [] then s.tcpEventRecv id c p segs pbufs else s
  -- what the callback returns is not looked at
  if fin then s.tcpEventRecv id c [] segs pbufs else s

def step (s : Servers) : Act → Option Servers
  | .syn c id prio mss iss =>
    match s.pcbs c with
    | none => some (s.set c (some (tcpListenInput id prio mss iss)))
    | some _ => none
  | .accept c =>
    match s.pcbs c with
    | none => none
    | some pcb =>
      if pcb.state = .synRcvd then
        match pcb.accept.serverAccept { pcb with state := .established } with
        | (pcb, .ok) => some (s.set c (some pcb))
        -- `tcp_abort`
        | _ => some (s.set c none)
      else
        none
  | .write c len segs pbufs =>
    match s.pcbs c with
    | none => none
    | some pcb => some (s.set c (some (pcb.tcpWrite len segs pbufs).1))
  | .output c n =>
    match s.pcbs c with
    | none => none
    | some pcb => some (s.set c (some (pcb.tcpOutput n)))
  | .rexmit c =>
    match s.pcbs c with
    | none => none
    | some pcb => some (s.set c (some pcb.tcpRexmitRto))
  | .ack c acked n m =>
    match s.pcbs c with
    | none => none
    | some pcb => some (s.set c (some (pcb.tcpReceiveAck acked n m)))
  | .segment c p fin acksFin segs pbufs =>
    match s.pcbs c with
    | none => none
    | some pcb =>
      match pcb.recv with
      | none => none
      | some id =>
        if pcb.state = .timeWait then none else some (s.segment id c pcb p fin acksFin segs pbufs)
  | .remove c =>
    match s.pcbs c with
    | none => none
    | some _ => some (s.set c none)

def Finishes (s : Servers) : Act → Prop
  | .segment c p true acksFin segs pbufs =>
    ∀ s', step s (.segment c p true acksFin segs pbufs) = some s' →
      ∀ pcb, s'.pcbs c = some pcb → pcb.state ≠ .closeWait ∨ pcb.poll ≠ none ∨ s'.err ≠ .ok
  | _ => True

def FinFits (s : Servers) : Act → Prop
  | .segment c _ true acksFin segs pbufs =>
    ∀ pcb, s.pcbs c = some pcb → (pcb.gotFin acksFin).state = .closeWait → pcb.FinFits segs pbufs
  | _ => True

variable {s s' : Servers} {c : Nat} {pcb pcb' : TcpPcb} {id : PortId} {segs pbufs : Nat}

@[simp]
theorem set_pcbs (s : Servers) (c : Nat) (pcb : Option TcpPcb)
    : (s.set c pcb).pcbs = Function.update s.pcbs c pcb := rfl

theorem foldl_runEffect_of_no_close {effects : List (RecvEffect Nat)}
    (h : ∀ c, .tcpClose c ∉ effects)
    : effects.foldl (runEffect segs pbufs) s = s := by
  induction effects with
  | nil => rfl
  | cons effect effects ih =>
    have hrest := ih fun c hmem => h c (List.mem_cons_of_mem _ hmem)
    rw [List.foldl_cons]
    cases effect with
    | tcpClose c => exact absurd List.mem_cons_self (h c)
    | _ => exact hrest

theorem tcpClose_notMem_sendLoop (data : Nat → UInt8) (i len c : Nat)
    : .tcpClose c ∉ (sendLoop data i len : List (RecvEffect Nat)) := by
  induction len generalizing i with
  | zero => simp [sendLoop]
  | succ len ih => simp [sendLoop, ih]

theorem tcpClose_notMem_serverRecv (id : PortId) (c c' : Nat) (p : Pbuf) (next : List Pbuf)
    : .tcpClose c' ∉ (id.serverRecv c (p :: next)).1 := by
  cases id with
  | rs232 =>
    simp [PortId.serverRecv, tcp232ServerRecv, serverRecv, rs232SendData, tcpClose_notMem_sendLoop]
  | rs485 =>
    simp [PortId.serverRecv, tcp485ServerRecv, serverRecv, rs485SendData, tcpClose_notMem_sendLoop]

theorem tcpEventRecv_data (id : PortId) (c : Nat) (p : Pbuf) (next : List Pbuf)
    : (s.tcpEventRecv id c (p :: next) segs pbufs).pcbs = s.pcbs := by
  unfold tcpEventRecv
  dsimp only
  rw [foldl_runEffect_of_no_close]
  intro c'
  apply tcpClose_notMem_serverRecv

theorem tcpEventRecv_null (pcb : TcpPcb) (h : s.pcbs c = some pcb)
    : s.tcpEventRecv id c [] segs pbufs =
        { pcbs := Function.update s.pcbs c (pcb.tcpClose segs pbufs).1, err := .ok } := by
  have heffects : id.serverRecv c [] = ([.setPcb c, .tcpClose c], .ok) := by
    cases id <;> rfl
  unfold tcpEventRecv
  rw [heffects]
  simp [runEffect, h, set]

theorem segment_fin (id : PortId) (c : Nat) (pcb : TcpPcb) (p : List Pbuf) (acksFin : Bool)
    : s.segment id c pcb p true acksFin segs pbufs =
        { pcbs := Function.update s.pcbs c ((pcb.gotFin acksFin).tcpClose segs pbufs).1, err := .ok } := by
  unfold segment
  simp only [↓reduceIte]
  cases p with
  | nil =>
    rw [if_neg (by simp), tcpEventRecv_null (pcb.gotFin acksFin) (by simp)]
    simp
  | cons p next =>
    rw [if_pos (by simp), tcpEventRecv_null (pcb.gotFin acksFin)]
    . rw [tcpEventRecv_data]
      simp
    . rw [tcpEventRecv_data]
      simp

theorem segment_data (id : PortId) (c : Nat) (pcb : TcpPcb) (p : List Pbuf) (acksFin : Bool)
    : (s.segment id c pcb p false acksFin segs pbufs).pcbs = s.pcbs := by
  unfold segment
  simp only [Bool.false_eq_true, ↓reduceIte]
  cases p with
  | nil => simp
  | cons p next =>
    rw [if_pos (by simp)]
    apply tcpEventRecv_data

theorem serverAccept_keeps (id : PortId) (pcb : TcpPcb)
    : (id.serverAccept pcb).1.state = pcb.state ∧ (id.serverAccept pcb).1.poll = pcb.poll := by
  cases id <;> exact ⟨rfl, rfl⟩

def Act.Ends (c : Nat) : Act → Prop
  | .segment c' _ fin _ _ _ => c' = c ∧ fin = true
  | .remove c' => c' = c
  | _ => False

structure Changes (a : Act) (c : Nat) (old new : Option TcpPcb) : Prop where
  poll : ∀ pcb', new = some pcb' → pcb'.poll = none ∨ ∃ pcb, old = some pcb ∧ pcb'.poll = pcb.poll
  closeWait : ¬ a.Ends c → ∀ pcb, old = some pcb → pcb.state = .closeWait →
    ∃ pcb', new = some pcb' ∧ pcb'.state = .closeWait

theorem Changes.refl (a : Act) (c : Nat) (old : Option TcpPcb) : Changes a c old old := by
  constructor
  . intro pcb hpcb
    exact .inr ⟨pcb, hpcb, rfl⟩
  . intro _ pcb hpcb hstate
    exact ⟨pcb, hpcb, hstate⟩

theorem Changes.of_keeps {a : Act} (hpoll : pcb'.poll = pcb.poll)
    (hstate : pcb.state = .closeWait → pcb'.state = .closeWait)
    : Changes a c (some pcb) (some pcb') := by
  constructor
  . rintro _ ⟨⟩
    exact .inr ⟨pcb, rfl, hpoll⟩
  . rintro _ _ ⟨⟩ hclose
    exact ⟨pcb', rfl, hstate hclose⟩

theorem changes_of_keeps {a : Act} {f : TcpPcb → TcpPcb}
    (hstep : (match s.pcbs c with
      | none => none
      | some pcb => some (s.set c (some (f pcb)))) = some s')
    (hpoll : ∀ pcb, (f pcb).poll = pcb.poll) (hstate : ∀ pcb, (f pcb).state = pcb.state)
    : ∃ c new, s'.pcbs = Function.update s.pcbs c new ∧ Changes a c (s.pcbs c) new := by
  split at hstep
  . cases hstep
  . next pcb hpcb =>
    cases hstep
    refine ⟨c, _, rfl, ?_⟩
    rw [hpcb]
    apply Changes.of_keeps
    . exact hpoll pcb
    . exact (hstate pcb).trans

theorem accept_changes (hstep : step s (.accept c) = some s')
    : ∃ new, s'.pcbs = Function.update s.pcbs c new ∧ Changes (.accept c) c (s.pcbs c) new := by
  simp only [step] at hstep
  split at hstep
  . cases hstep
  . next pcb hpcb =>
    split at hstep
    . next hsyn =>
      have hkeeps := serverAccept_keeps pcb.accept { pcb with state := .established }
      split at hstep
      . next pcb' haccept =>
        cases hstep
        rw [haccept] at hkeeps
        refine ⟨_, rfl, ?_⟩
        rw [hpcb]
        apply Changes.of_keeps
        . exact hkeeps.2
        . simp [hsyn]
      . cases hstep
        refine ⟨_, rfl, ?_⟩
        rw [hpcb]
        constructor
        . simp
        . simp [hsyn]
    . cases hstep

theorem segment_changes {p : List Pbuf} {fin acksFin : Bool}
    (hstep : step s (.segment c p fin acksFin segs pbufs) = some s')
    : ∃ new, s'.pcbs = Function.update s.pcbs c new
        ∧ Changes (.segment c p fin acksFin segs pbufs) c (s.pcbs c) new := by
  simp only [step] at hstep
  split at hstep
  . cases hstep
  . next pcb hpcb =>
    split at hstep
    . cases hstep
    . next id hrecv =>
      split at hstep
      . cases hstep
      . cases hstep
        cases fin with
        | false =>
          refine ⟨s.pcbs c, ?_, .refl _ _ _⟩
          rw [segment_data, Function.update_eq_self]
        | true =>
          rw [segment_fin]
          refine ⟨_, rfl, ?_⟩
          rw [hpcb]
          constructor
          . intro pcb' hclose
            exact .inr ⟨pcb, rfl, (TcpPcb.tcpClose_keeps hclose).1⟩
          . intro hends
            exact absurd ⟨rfl, rfl⟩ hends

theorem step_changes {a : Act} (hstep : step s a = some s')
    : ∃ c new, s'.pcbs = Function.update s.pcbs c new ∧ Changes a c (s.pcbs c) new := by
  cases a with
  | syn c id prio mss iss =>
    simp only [step] at hstep
    split at hstep
    . next hfree =>
      cases hstep
      refine ⟨c, _, rfl, ?_⟩
      rw [hfree]
      constructor
      . rintro _ ⟨⟩
        exact .inl rfl
      . simp
    . cases hstep
  | accept c => exact ⟨c, accept_changes hstep⟩
  | write c len segs pbufs =>
    apply changes_of_keeps (f := fun pcb => (pcb.tcpWrite len segs pbufs).1) hstep
    . intro pcb
      exact (pcb.tcpWrite_keeps len segs pbufs).2
    . intro pcb
      exact (pcb.tcpWrite_keeps len segs pbufs).1
  | output c n =>
    apply changes_of_keeps (f := fun pcb => pcb.tcpOutput n) hstep
    . intro pcb
      rfl
    . intro pcb
      rfl
  | rexmit c =>
    apply changes_of_keeps (f := fun pcb => pcb.tcpRexmitRto) hstep
    . intro pcb
      rfl
    . intro pcb
      rfl
  | ack c acked n m =>
    apply changes_of_keeps (f := fun pcb => pcb.tcpReceiveAck acked n m) hstep
    . intro pcb
      rfl
    . intro pcb
      rfl
  | segment c p fin acksFin segs pbufs => exact ⟨c, segment_changes hstep⟩
  | remove c =>
    simp only [step] at hstep
    split at hstep
    . cases hstep
    . cases hstep
      refine ⟨c, _, rfl, ?_⟩
      constructor
      . simp
      . intro hends
        exact absurd rfl hends

def NoPoll (s : Servers) : Prop := ∀ c pcb, s.pcbs c = some pcb → pcb.poll = none

theorem NoPoll.step (h : s.NoPoll) {a : Act} (hstep : Servers.step s a = some s') : s'.NoPoll := by
  rcases step_changes hstep with ⟨c, new, hpcbs, hchanges⟩
  intro c' pcb hpcb
  rw [hpcbs] at hpcb
  by_cases heq : c' = c
  . rw [heq, Function.update_self] at hpcb
    rcases hchanges.poll pcb hpcb with hnone | ⟨pcb', hold, hpoll⟩
    . exact hnone
    . apply hpoll.trans
      exact h c pcb' hold
  . rw [Function.update_of_ne heq] at hpcb
    exact h c' pcb hpcb

theorem closeWait_of_run {acts : List Act} (hrun : run step s acts = some s')
    (hacts : ∀ a ∈ acts, ¬ a.Ends c) (hopen : ∃ pcb, s.pcbs c = some pcb ∧ pcb.state = .closeWait)
    : ∃ pcb, s'.pcbs c = some pcb ∧ pcb.state = .closeWait := by
  apply run_invariant (I := fun s => ∃ pcb, s.pcbs c = some pcb ∧ pcb.state = .closeWait)
    _ hopen (along_of_forall hacts s) hrun
  rintro s a s' ⟨pcb, hpcb, hstate⟩ hends hstep
  rcases step_changes hstep with ⟨c', new, hpcbs, hchanges⟩
  rw [hpcbs]
  by_cases heq : c = c'
  . subst heq
    rw [Function.update_self]
    exact hchanges.closeWait hends pcb hpcb hstate
  . rw [Function.update_of_ne heq]
    exact ⟨pcb, hpcb, hstate⟩

theorem finishes_iff_finFits (h : s.NoPoll) {a : Act} (hstep : step s a = some s')
    : s.Finishes a ↔ s.FinFits a := by
  cases a with
  | segment c p fin acksFin segs pbufs =>
    cases fin with
    | false => exact Iff.rfl
    | true =>
      unfold Finishes FinFits
      simp only [hstep, Option.some.injEq, forall_eq']
      simp only [step] at hstep
      split at hstep
      . cases hstep
      . next pcb hpcb =>
        split at hstep
        . cases hstep
        . next id hrecv =>
          split at hstep
          . cases hstep
          . cases hstep
            rw [segment_fin]
            simp only [Function.update_self, hpcb, Option.some.injEq, forall_eq', ne_eq,
              not_true_eq_false, or_false]
            by_cases hstate : (pcb.gotFin acksFin).state = .closeWait
            . rcases TcpPcb.tcpClose_closeWait segs pbufs hstate with
                ⟨pcb', hclose, hpoll, hiff⟩
              have hnone : pcb'.poll = none := hpoll.trans (h c pcb hpcb)
              simp only [hclose, Option.some.injEq, forall_eq', hnone, not_true_eq_false, or_false,
                hstate, forall_const]
              rw [hiff, not_not]
              exact Iff.rfl
            . simp only [hstate, false_imp_iff, iff_true]
              intro pcb' hclose
              exact .inl ((TcpPcb.tcpClose_keeps hclose).2 hstate)
  | _ => exact Iff.rfl

def visit : List Act :=
  [.syn 0 .rs232 64 1460 6509, .output 0 1, .accept 0, .ack 0 1 1 0,
    .segment 0 [⟨fun _ => 0x41, 1, 1⟩] false false 0 0, .write 0 3 1 1, .output 0 1,
    .segment 0 [] true false 1 1]

def fillQueue : List Act :=
  [.syn 0 .rs485 64 1460 6509, .output 0 1, .accept 0, .ack 0 1 1 0, .write 0 1 12 12, .output 0 1]
    -- the Nagle algorithm keeps the others on the unsent queue
    ++ List.replicate 23 (.write 0 1 12 12)

end Servers

end SerialGateway
