import SerialGateway.Serial.Gateway
import SerialGateway.Serial.Log

/-!
This module contains the byte stream from a port to a connection under every interleaving of receive
interrupts, ticks and statements of the task.
-/

open Transition

namespace SerialGateway

variable {size : Nat} {Pcb : Type} [DecidableEq Pcb]

namespace PortState

def StreamKept (pcb : Pcb) (s : PortState size Pcb) : Prop :=
  sentTo pcb s.log ++ s.port.bytes s.port.recCounter.toNat = received s.log

instance (pcb : Pcb) (s : PortState size Pcb) : Decidable (s.StreamKept pcb) :=
  inferInstanceAs (Decidable (_ = _))

instance (s : PortState size Pcb) : Decidable s.AtSemPend :=
  inferInstanceAs (Decidable (_ ∨ _))

def CountsOnce (pcb : Pcb) (s : PortState size Pcb) : PortAct Pcb → Prop
  | .rx _ => s.port.recCounter.toNat + 1 < 256
  | .tick => True
  | .task visits => s.pc = .loopInit → visits.count pcb = 1

def owed (pcb : Pcb) (s : PortState size Pcb) : List UInt8 :=
  match s.pc with
  | .resetCounter | .loopInit => s.port.sendData
  | .walk todo => if pcb ∈ todo then s.port.sendData else []
  | _ => []

def waiting (s : PortState size Pcb) : List UInt8 :=
  match s.pc with
  | .resetCounter => []
  | _ => s.port.bytes s.port.recCounter.toNat

end PortState

def Port.KeepsSendData (p : Port size) (dr : UInt8) : Prop :=
  p.tcpSendCounter.toNat ≤ p.recCounter.toNat ∨ p.recBuf[p.recCounter.toNat]? = some dr

instance (p : Port size) (dr : UInt8) : Decidable (p.KeepsSendData dr) :=
  inferInstanceAs (Decidable (_ ∨ _))

theorem Port.sendData_receive (hsize : 256 ≤ size) {p : Port size} {dr : UInt8}
    (h : p.KeepsSendData dr)
    : (p.receive dr).sendData = p.sendData := by
  unfold Port.sendData
  rw [Port.receive_tcpSendCounter hsize, Port.bytes_congr (Port.receive_recBuf hsize p dr)]
  cases h with
  | inl hle => exact Port.bytes_storeByte_of_le p dr hle
  | inr heq => exact Port.bytes_storeByte_of_eq p dr heq

namespace PortState

def stream (pcb : Pcb) (s : PortState size Pcb) : List UInt8 :=
  sentTo pcb s.log ++ s.owed pcb ++ s.waiting

def Once (pcb : Pcb) (s : PortState size Pcb) : Prop :=
  ∀ todo, s.pc = .walk todo → todo.count pcb ≤ 1

/--
No byte arrives between the copy and the reset of the counter, and none that arrives before the pass
has written to `pcb` alters what the pass sends.
-/
def RxSafe (pcb : Pcb) (s : PortState size Pcb) : PortAct Pcb → Prop
  | .rx dr =>
    match s.pc with
    | .resetCounter => False
    | .loopInit => s.port.KeepsSendData dr
    | .walk todo => pcb ∈ todo → s.port.KeepsSendData dr
    | _ => True
  | _ => True

instance (pcb : Pcb) (s : PortState size Pcb) : (b : PortAct Pcb) → Decidable (s.CountsOnce pcb b)
  | .rx _ => inferInstanceAs (Decidable (_ < _))
  | .tick => inferInstanceAs (Decidable True)
  | .task _ => inferInstanceAs (Decidable (_ → _))

instance (pcb : Pcb) (s : PortState size Pcb) : (b : PortAct Pcb) → Decidable (s.RxSafe pcb b)
  | .tick | .task _ => inferInstanceAs (Decidable True)
  | .rx dr =>
    match h : s.pc with
    | .resetCounter => decidable_of_iff False (by simp [RxSafe, h])
    | .loopInit => decidable_of_iff (s.port.KeepsSendData dr) (by simp [RxSafe, h])
    | .walk todo =>
      decidable_of_iff (pcb ∈ todo → s.port.KeepsSendData dr) (by simp [RxSafe, h])
    | .semCreate | .semPend | .pending | .copyCounter =>
      decidable_of_iff True (by simp [RxSafe, h])

theorem streamKept_iff {pcb : Pcb} {s : PortState size Pcb} (hpc : s.AtSemPend)
    : s.StreamKept pcb ↔ s.stream pcb = received s.log := by
  unfold StreamKept stream
  rcases hpc with hpc | hpc <;> simp [owed, waiting, hpc]

theorem PoweredOn.stream {s : PortState size Pcb} (h : s.PoweredOn) (pcb : Pcb)
    : s.stream pcb = received s.log := by
  rcases h with ⟨⟨hcount, -, -, -, -⟩, hpc, hlog⟩
  simp [PortState.stream, owed, waiting, hpc, hlog, hcount]

theorem PoweredOn.once {s : PortState size Pcb} (h : s.PoweredOn) (pcb : Pcb) : s.Once pcb := by
  rcases h with ⟨-, hpc, -⟩
  simp [Once, hpc]

theorem stream_task {pcb : Pcb} {s s' : PortState size Pcb} {visits : List Pcb}
    (honce : s.Once pcb) (hvisit : s.CountsOnce pcb (.task visits))
    (hstep : s.task visits = some s')
    : s'.stream pcb = s.stream pcb ∧ received s'.log = received s.log ∧ s'.Once pcb := by
  cases taskStep_of_task hstep with
  | semCreate hpc => simp [stream, owed, waiting, Once, hpc, Port.bytes]
  | semPendNull hpc hsem => simp [stream, owed, waiting, Once, hpc]
  | semPendTake e hpc hsem hcnt => simp [stream, owed, waiting, Once, hpc, Port.bytes]
  | semPendSuspend e hpc hsem hcnt => simp [stream, owed, waiting, Once, hpc, Port.bytes]
  | semPendResume e hpc hsem hgrp => simp [stream, owed, waiting, Once, hpc]
  | copyCounter hpc =>
    -- what waited for the pass is from here on owed by it
    simp [stream, owed, waiting, Once, hpc, Port.sendData, Port.copyCounter, Port.bytes]
  | resetCounter hpc =>
    simp [stream, owed, waiting, Once, hpc, Port.sendData, Port.resetCount, Port.bytes]
  | loopInit hpc =>
    have hcount : visits.count pcb = 1 := hvisit hpc
    have hmem : pcb ∈ visits := List.count_pos_iff.mp (by omega)
    refine ⟨by simp [stream, owed, waiting, hpc, hmem], rfl, ?_⟩
    intro todo htodo
    cases htodo
    exact Nat.le_of_eq hcount
  | write pcb' todo hpc =>
    have hcount := honce _ hpc
    rw [List.count_cons] at hcount
    refine ⟨?_, received_write _ _ _, ?_⟩
    . unfold stream
      rw [sentTo_write]
      by_cases heq : pcb' = pcb
      . have hnot : pcb ∉ todo := by
          apply List.count_eq_zero.mp
          simp only [heq, BEq.rfl, ↓reduceIte] at hcount
          omega
        simp [owed, waiting, hpc, heq, hnot]
      . have hiff : pcb ∈ pcb' :: todo ↔ pcb ∈ todo := by simp [Ne.symm heq]
        simp [owed, waiting, hpc, heq, hiff]
    . intro todo' htodo
      cases htodo
      omega
  | passDone hpc => simp [stream, owed, waiting, Once, hpc]

theorem stream_tick (pcb : Pcb) (s : PortState size Pcb)
    : s.tick.stream pcb = s.stream pcb ∧ received s.tick.log = received s.log := by
  have hbytes : ∀ n, s.port.timeout.1.bytes n = s.port.bytes n :=
    Port.bytes_congr (Port.timeout_recBuf s.port)
  have howed : s.tick.owed pcb = s.owed pcb := by
    simp [owed, Port.sendData, hbytes, Port.timeout_tcpSendCounter]
  have hwaiting : s.tick.waiting = s.waiting := by
    simp [waiting, hbytes, Port.timeout_recCounter]
  unfold stream
  rw [howed, hwaiting, tick_log]
  split <;> simp

theorem owed_rx (hsize : 256 ≤ size) {pcb : Pcb} {s : PortState size Pcb} {dr : UInt8}
    (hsafe : s.RxSafe pcb (.rx dr))
    : (s.rx dr).owed pcb = s.owed pcb := by
  unfold owed
  rw [rx_pc, rx_port]
  cases hpc : s.pc with
  | resetCounter => simp [RxSafe, hpc] at hsafe
  | loopInit =>
    simp only [RxSafe, hpc] at hsafe
    exact Port.sendData_receive hsize hsafe
  | walk todo =>
    simp only [RxSafe, hpc] at hsafe
    by_cases hmem : pcb ∈ todo
    . simp [hmem, Port.sendData_receive hsize (hsafe hmem)]
    . simp [hmem]
  | _ => rfl

omit [DecidableEq Pcb] in
theorem waiting_rx (hsize : 256 ≤ size) {s : PortState size Pcb} {dr : UInt8}
    (hcount : s.port.recCounter.toNat + 1 < 256) (hpc : s.pc ≠ .resetCounter)
    : (s.rx dr).waiting = s.waiting ++ [dr] := by
  unfold waiting
  rw [rx_pc, rx_port]
  split
  . contradiction
  . exact Port.bytes_receive hsize s.port dr hcount

theorem stream_rx (hsize : 256 ≤ size) {pcb : Pcb} {s : PortState size Pcb} {dr : UInt8}
    (hcount : s.CountsOnce pcb (.rx dr)) (hsafe : s.RxSafe pcb (.rx dr))
    : (s.rx dr).stream pcb = s.stream pcb ++ [dr] := by
  have hpc : s.pc ≠ .resetCounter := by
    intro hpc
    simp [RxSafe, hpc] at hsafe
  unfold stream
  rw [owed_rx hsize hsafe, waiting_rx hsize hcount hpc, rx_log, sentTo_rx, ← List.append_assoc]

theorem stream_rx_resetCounter (hsize : 256 ≤ size) (pcb : Pcb) {s : PortState size Pcb}
    (dr : UInt8) (hpc : s.pc = .resetCounter)
    : ((s.rx dr).stream pcb).length = (s.stream pcb).length := by
  simp [stream, owed, waiting, hpc, Port.sendData, Port.receive_tcpSendCounter hsize, Port.bytes]

theorem length_stream_rx (hsize : 256 ≤ size) {pcb : Pcb} {s : PortState size Pcb} {dr : UInt8}
    (hcount : s.CountsOnce pcb (.rx dr)) (hpc : s.pc ≠ .resetCounter)
    : ((s.rx dr).stream pcb).length = (s.stream pcb).length + 1 := by
  have howed : ((s.rx dr).owed pcb).length = (s.owed pcb).length := by
    have hsend : (s.port.receive dr).sendData.length = s.port.sendData.length := by
      simp [Port.sendData, Port.receive_tcpSendCounter hsize, Port.bytes]
    unfold owed
    rw [rx_pc, rx_port]
    cases hpc' : s.pc <;> simp only [apply_ite List.length, hsend]
  unfold stream
  rw [waiting_rx hsize hcount hpc, rx_log, sentTo_rx]
  simp only [List.length_append, List.length_singleton, howed]
  omega

def Kept (pcb : Pcb) (s : PortState size Pcb) : Prop :=
  s.stream pcb = received s.log ∧ s.Once pcb

theorem Kept.step (hsize : 256 ≤ size) {pcb : Pcb} {s s' : PortState size Pcb} {b : PortAct Pcb}
    (h : s.Kept pcb) (hcount : s.CountsOnce pcb b) (hsafe : s.RxSafe pcb b)
    (hstep : s.step b = some s')
    : s'.Kept pcb := by
  rcases h with ⟨hstream, honce⟩
  cases b with
  | rx dr =>
    cases hstep
    exact ⟨by rw [stream_rx hsize hcount hsafe, hstream, rx_log, received_rx], honce⟩
  | tick =>
    cases hstep
    rcases stream_tick pcb s with ⟨hstream', hreceived⟩
    exact ⟨by rw [hstream', hstream, hreceived], by simpa [Once] using honce⟩
  | task visits =>
    rcases stream_task honce hcount hstep with ⟨hstream', hreceived, honce'⟩
    exact ⟨by rw [hstream', hstream, hreceived], honce'⟩

/-
What an unsafe byte does to the stream is never undone: either the stream falls short of the bytes
received, or a byte of it differs from the one received at its place.
-/

def Short (pcb : Pcb) (s : PortState size Pcb) : Prop :=
  (s.stream pcb).length < (received s.log).length ∧ s.Once pcb

theorem Short.step (hsize : 256 ≤ size) {pcb : Pcb} {s s' : PortState size Pcb} {b : PortAct Pcb}
    (h : s.Short pcb) (hcount : s.CountsOnce pcb b) (hstep : s.step b = some s')
    : s'.Short pcb := by
  rcases h with ⟨hshort, honce⟩
  cases b with
  | rx dr =>
    cases hstep
    refine ⟨?_, honce⟩
    rw [rx_log, received_rx, List.length_append, List.length_singleton]
    by_cases hpc : s.pc = .resetCounter
    . rw [stream_rx_resetCounter hsize pcb dr hpc]
      omega
    . rw [length_stream_rx hsize hcount hpc]
      omega
  | tick =>
    cases hstep
    rcases stream_tick pcb s with ⟨hstream, hreceived⟩
    exact ⟨by rwa [hstream, hreceived], by simpa [Once] using honce⟩
  | task visits =>
    rcases stream_task honce hcount hstep with ⟨hstream, hreceived, honce'⟩
    exact ⟨by rwa [hstream, hreceived], honce'⟩

def Owes (pcb : Pcb) (s : PortState size Pcb) : Prop :=
  s.pc = .loopInit ∨ ∃ todo, s.pc = .walk todo ∧ pcb ∈ todo

def Altered (pcb : Pcb) (s : PortState size Pcb) : Prop :=
  ∃ (i : Nat) (x y : UInt8), (sentTo pcb s.log)[i]? = some x ∧ (received s.log)[i]? = some y ∧ x ≠ y

def Overwritten (pcb : Pcb) (s : PortState size Pcb) : Prop :=
  s.Owes pcb ∧ ∃ (j : Nat) (x y : UInt8), j < s.port.recCounter.toNat ∧ s.port.sendData[j]? = some x
    ∧ (received s.log)[(sentTo pcb s.log).length + j]? = some y ∧ x ≠ y

omit [DecidableEq Pcb] in
theorem log_step {s s' : PortState size Pcb} {b : PortAct Pcb} (hstep : s.step b = some s')
    : s.log <+: s'.log := by
  cases b with
  | rx dr =>
    cases hstep
    apply List.prefix_append
  | tick =>
    cases hstep
    rw [tick_log]
    split
    . apply List.prefix_append
    . apply List.prefix_refl
  | task visits =>
    cases taskStep_of_task hstep <;> simp

theorem Altered.step {pcb : Pcb} {s s' : PortState size Pcb} {b : PortAct Pcb}
    (h : s.Altered pcb) (hstep : s.step b = some s')
    : s'.Altered pcb := by
  rcases h with ⟨i, x, y, hx, hy, hne⟩
  rcases log_step hstep with ⟨new, hlog⟩
  refine ⟨i, x, y, ?_, ?_, hne⟩
  . rw [← hlog, sentTo_append, List.getElem?_append_left (List.getElem?_eq_some_iff.mp hx).1]
    exact hx
  . rw [← hlog, received_append, List.getElem?_append_left (List.getElem?_eq_some_iff.mp hy).1]
    exact hy

theorem Overwritten.rx (hsize : 256 ≤ size) {pcb : Pcb} {s : PortState size Pcb} {dr : UInt8}
    (h : s.Overwritten pcb) (hcount : s.CountsOnce pcb (.rx dr))
    : (s.rx dr).Overwritten pcb := by
  rcases h with ⟨howes, j, x, y, hj, hx, hy, hne⟩
  refine ⟨howes, j, x, y, ?_, ?_, ?_, hne⟩
  . rw [rx_port, Port.receive_recCounter hsize, UInt8.toNat_add]
    have hlt : s.port.recCounter.toNat + 1 < 256 := hcount
    simp only [UInt8.toNat_one]
    omega
  . -- The new byte goes behind position `j`.
    rw [rx_port, Port.sendData, Port.receive_tcpSendCounter hsize,
      Port.bytes_congr (Port.receive_recBuf hsize _ _), Port.bytes, Port.storeByte,
      Vector.toList_setIfInBounds, List.take_set, List.getElem?_set_ne (by omega)]
    exact hx
  . rw [rx_log, sentTo_rx, received_rx,
      List.getElem?_append_left (List.getElem?_eq_some_iff.mp hy).1]
    exact hy

theorem Overwritten.task {pcb : Pcb} {s s' : PortState size Pcb} {visits : List Pcb}
    (h : s.Overwritten pcb) (hvisit : s.CountsOnce pcb (.task visits))
    (hstep : s.task visits = some s')
    : s'.Altered pcb ∨ s'.Overwritten pcb := by
  rcases h with ⟨howes, j, x, y, hj, hx, hy, hne⟩
  cases taskStep_of_task hstep with
  | loopInit hpc =>
    have hcount : visits.count pcb = 1 := hvisit hpc
    have hmem : pcb ∈ visits := List.count_pos_iff.mp (by omega)
    exact .inr ⟨.inr ⟨visits, rfl, hmem⟩, j, x, y, hj, hx, hy, hne⟩
  | write pcb' todo hpc =>
    by_cases heq : pcb' = pcb
    . refine .inl ⟨(sentTo pcb s.log).length + j, x, y, ?_, ?_, hne⟩
      . rw [sentTo_write, if_pos heq, List.getElem?_append_right (Nat.le_add_right _ _),
          Nat.add_sub_cancel_left]
        exact hx
      . simpa using hy
    . have hmem : pcb ∈ todo := by
        rcases howes with hpc' | ⟨todo', hpc', hmem⟩
        . simp [hpc] at hpc'
        . rw [hpc] at hpc'
          cases hpc'
          exact (List.mem_cons.mp hmem).resolve_left (Ne.symm heq)
      refine .inr ⟨.inr ⟨todo, rfl, hmem⟩, j, x, y, hj, hx, ?_, hne⟩
      simpa [sentTo_write, heq] using hy
  | semCreate hpc => simp [Owes, hpc] at howes
  | semPendNull hpc hsem => simp [Owes, hpc] at howes
  | semPendTake e hpc hsem hcnt => simp [Owes, hpc] at howes
  | semPendSuspend e hpc hsem hcnt => simp [Owes, hpc] at howes
  | semPendResume e hpc hsem hgrp => simp [Owes, hpc] at howes
  | copyCounter hpc => simp [Owes, hpc] at howes
  | resetCounter hpc => simp [Owes, hpc] at howes
  | passDone hpc => simp [Owes, hpc] at howes

theorem Overwritten.tick {pcb : Pcb} {s : PortState size Pcb} (h : s.Overwritten pcb)
    : s.tick.Overwritten pcb := by
  rcases h with ⟨howes, j, x, y, hj, hx, hy, hne⟩
  refine ⟨?_, j, x, y, ?_, ?_, ?_, hne⟩
  . simpa [Owes] using howes
  . rwa [tick_port, Port.timeout_recCounter]
  . rwa [tick_port, Port.sendData, Port.timeout_tcpSendCounter,
      Port.bytes_congr (Port.timeout_recBuf _)]
  . rw [tick_log]
    split <;> simpa using hy

def Lost (pcb : Pcb) (s : PortState size Pcb) : Prop :=
  s.Short pcb ∨ s.Altered pcb ∨ s.Overwritten pcb

theorem Lost.step (hsize : 256 ≤ size) {pcb : Pcb} {s s' : PortState size Pcb} {b : PortAct Pcb}
    (h : s.Lost pcb) (hcount : s.CountsOnce pcb b) (hstep : s.step b = some s')
    : s'.Lost pcb := by
  rcases h with hshort | haltered | hover
  . exact .inl (hshort.step hsize hcount hstep)
  . exact .inr (.inl (haltered.step hstep))
  . cases b with
    | rx dr =>
      cases hstep
      exact .inr (.inr (hover.rx hsize hcount))
    | tick =>
      cases hstep
      exact .inr (.inr hover.tick)
    | task visits => exact .inr (hover.task hcount hstep)

theorem Lost.not_streamKept {pcb : Pcb} {s : PortState size Pcb} (h : s.Lost pcb)
    (hpc : s.AtSemPend)
    : ¬ s.StreamKept pcb := by
  intro hkept
  rcases h with ⟨hshort, -⟩ | ⟨i, x, y, hx, hy, hne⟩ | ⟨howes, -⟩
  . rw [(streamKept_iff hpc).mp hkept] at hshort
    exact Nat.lt_irrefl _ hshort
  . have hlt : i < (sentTo pcb s.log).length := (List.getElem?_eq_some_iff.mp hx).1
    rw [← hkept, List.getElem?_append_left hlt, hx] at hy
    apply hne
    exact Option.some.inj hy
  . rcases hpc with hpc | hpc <;> simp [Owes, hpc] at howes

theorem Kept.lost_of_not_rxSafe (hsize : 256 ≤ size) {pcb : Pcb} {s s' : PortState size Pcb}
    {b : PortAct Pcb} (h : s.Kept pcb) (hcount : s.CountsOnce pcb b) (hsafe : ¬ s.RxSafe pcb b)
    (hstep : s.step b = some s')
    : s'.Lost pcb := by
  rcases h with ⟨hstream, honce⟩
  cases b with
  | tick => exact absurd trivial hsafe
  | task visits => exact absurd trivial hsafe
  | rx dr =>
    cases hstep
    by_cases hpc : s.pc = .resetCounter
    . -- the reset drops the byte
      refine .inl ⟨?_, honce⟩
      rw [stream_rx_resetCounter hsize pcb dr hpc, hstream, rx_log, received_rx]
      simp
    . -- the byte takes the place of one that the pass still owes
      have hwrong : s.Owes pcb ∧ ¬ s.port.KeepsSendData dr := by
        cases hpc' : s.pc <;> simp_all [RxSafe, Owes]
      rcases hwrong with ⟨howes, hkeeps⟩
      rcases not_or.mp hkeeps with ⟨hlt, hdr⟩
      have hsend : s.port.recCounter.toNat < s.port.tcpSendCounter.toNat := Nat.not_le.mp hlt
      have hin : s.port.recCounter.toNat < size := by
        have := s.port.recCounter.toNat_lt
        omega
      have howed : s.owed pcb = s.port.sendData := by
        rcases howes with hpc' | ⟨todo, hpc', hmem⟩
        . simp [owed, hpc']
        . simp [owed, hpc', hmem]
      refine .inr (.inr ⟨howes, s.port.recCounter.toNat, dr,
        s.port.recBuf[s.port.recCounter.toNat], ?_, ?_, ?_, ?_⟩)
      . have hwrap : s.port.recCounter.toNat + 1 < 256 := hcount
        rw [rx_port, Port.receive_recCounter hsize, UInt8.toNat_add, UInt8.toNat_one]
        omega
      . rw [rx_port, Port.sendData, Port.receive_tcpSendCounter hsize,
          Port.bytes_congr (Port.receive_recBuf hsize _ _), Port.bytes, Port.storeByte,
          Vector.toList_setIfInBounds, List.getElem?_take_of_lt hsend, List.getElem?_set_self]
        simpa using hin
      . have hold : (s.port.sendData ++ s.waiting)[s.port.recCounter.toNat]?
            = some s.port.recBuf[s.port.recCounter.toNat] := by
          rw [List.getElem?_append_left, Port.sendData, Port.bytes,
            List.getElem?_take_of_lt hsend]
          . simp [hin]
          . have := s.port.tcpSendCounter.toNat_lt
            rw [Port.sendData, Port.length_bytes _ (by omega)]
            exact hsend
        have hnew : (sentTo pcb s.log).length + s.port.recCounter.toNat < (received s.log).length := by
          rw [← hstream, stream, howed, List.append_assoc, List.length_append]
          apply Nat.add_lt_add_left (List.getElem?_eq_some_iff.mp hold).1
        rw [rx_log, sentTo_rx, received_rx, List.getElem?_append_left hnew, ← hstream, stream, howed,
          List.append_assoc, List.getElem?_append_right (Nat.le_add_right _ _),
          Nat.add_sub_cancel_left]
        exact hold
      . intro heq
        apply hdr
        rw [Vector.getElem?_eq_getElem hin, heq]

theorem Lost.run (hsize : 256 ≤ size) {pcb : Pcb} {s t : PortState size Pcb}
    {bs : List (PortAct Pcb)} (h : s.Lost pcb) (hcount : Along PortState.step (CountsOnce pcb) s bs)
    (hrun : Transition.run PortState.step s bs = some t)
    : t.Lost pcb :=
  run_invariant (fun _ _ _ hlost hcount hstep => hlost.step hsize hcount hstep) h hcount hrun

theorem Kept.run (hsize : 256 ≤ size) {pcb : Pcb} {s t : PortState size Pcb}
    {bs : List (PortAct Pcb)} (h : s.Kept pcb) (hcount : Along PortState.step (CountsOnce pcb) s bs)
    (hrun : Transition.run PortState.step s bs = some t)
    : Along PortState.step (RxSafe pcb) s bs ∧ t.Kept pcb
        ∨ ¬ Along PortState.step (RxSafe pcb) s bs ∧ t.Lost pcb := by
  induction bs generalizing s with
  | nil =>
    rw [run_nil, Option.some.injEq] at hrun
    exact .inl ⟨trivial, hrun ▸ h⟩
  | cons b bs ih =>
    rcases run_cons_eq_some.mp hrun with ⟨s', hs', hrun'⟩
    by_cases hsafe : s.RxSafe pcb b
    . have hhead : Along PortState.step (RxSafe pcb) s (b :: bs)
          ↔ Along PortState.step (RxSafe pcb) s' bs := by
        simp [along_cons, hsafe, hs']
      rw [hhead]
      apply ih
      . exact h.step hsize hcount.1 hsafe hs'
      . exact hcount.2 s' hs'
      . exact hrun'
    . refine .inr ⟨fun halong => hsafe halong.1, ?_⟩
      exact (h.lost_of_not_rxSafe hsize hcount.1 hsafe hs').run hsize (hcount.2 s' hs') hrun'

theorem PoweredOn.kept {s : PortState size Pcb} (h : s.PoweredOn) (pcb : Pcb) : s.Kept pcb :=
  ⟨h.stream pcb, h.once pcb⟩

end PortState

namespace Gateway

theorem streamKept_iff_rxSafe (id : PortId) (pcb : Pcb) {acts : List (Act Pcb)} {g : Gateway Pcb}
    (hrun : run step powerOn acts = some g)
    (hcount : Along step (OnPort id (PortState.CountsOnce pcb)) powerOn acts)
    (hpc : (g.port id).AtSemPend)
    : (g.port id).StreamKept pcb
        ↔ Along step (OnPort id (PortState.RxSafe pcb)) powerOn acts := by
  have hkept := ((powerOn_poweredOn id).kept pcb).run id.le_bufSize
    (((projects id).along_iff hrun).mpr hcount) ((projects id).run hrun)
  rw [(projects id).along_iff hrun] at hkept
  rcases hkept with ⟨hsafe, hstream, -⟩ | ⟨hsafe, hlost⟩
  . apply iff_of_true
    . exact (PortState.streamKept_iff hpc).mpr hstream
    . exact hsafe
  . apply iff_of_false
    . exact hlost.not_streamKept hpc
    . exact hsafe

def sendOne : List (Act Nat) :=
  List.replicate 8 (.rs232Task [7]) ++ [.usart2 0x41, .tim2] ++ List.replicate 5 (.rs232Task [7])
    ++ [.usart2 0x42, .rs232Task [7]]

def loseOne : List (Act Nat) :=
  List.replicate 8 (.rs232Task [7]) ++ [.usart2 0x41, .tim2] ++ List.replicate 2 (.rs232Task [7])
    ++ [.usart2 0x42] ++ List.replicate 4 (.rs232Task [7])

theorem streamKept_iff_rxSafe_sendOne
    : ∃ g, run step powerOn sendOne = some g
        ∧ ((g.port .rs232).StreamKept 7
          ↔ Along step (OnPort .rs232 (PortState.RxSafe 7)) powerOn sendOne) := by
  have hrun : ∃ g, run step powerOn sendOne = some g ∧ (g.port .rs232).AtSemPend := by
    refine ⟨(run step powerOn sendOne).get (by decide), (Option.some_get _).symm, by decide⟩
  rcases hrun with ⟨g, hrun, hpc⟩
  exact ⟨g, hrun, streamKept_iff_rxSafe .rs232 7 hrun (by decide) hpc⟩

theorem not_streamKept_loseOne
    : ∃ g, run step powerOn loseOne = some g
        ∧ Along step (OnPort .rs232 (PortState.CountsOnce 7)) powerOn loseOne
        ∧ (g.port .rs232).AtSemPend
        ∧ ¬ (g.port .rs232).StreamKept 7 := by
  refine ⟨(run step powerOn loseOne).get (by decide), (Option.some_get _).symm, ?_, ?_, ?_⟩
  . decide
  . decide
  . decide +kernel

end Gateway

end SerialGateway
