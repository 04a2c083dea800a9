import SerialGateway.Lib.Transition
import SerialGateway.Serial.Port

/-!
This module contains the steps of one serial port in which every interrupt handler runs to its end:
a receive interrupt, a timer interrupt and a statement of the port's task are one step each.
-/

namespace SerialGateway

/--
The statement a serial task executes next. `pending` is the task suspended inside `OSSemPend`, `walk`
the loop over `tcp_active_pcbs` with the connections its cursor has yet to visit.
-/
inductive TaskPc (Pcb : Type) where
  | semCreate
  | semPend
  | pending
  | copyCounter
  | resetCounter
  | loopInit
  | walk (todo : List Pcb)
  deriving DecidableEq

inductive Event (Pcb : Type) where
  | rx (dr : UInt8)
  | closed
  | write (pcb : Pcb) (data : List UInt8)
  | passDone
  deriving DecidableEq

structure PortState (size : Nat) (Pcb : Type) where
  port : Port size
  pc : TaskPc Pcb
  log : List (Event Pcb)
  deriving DecidableEq

/--
`task visits` is the next statement of the task. `visits` only matters where the task enters its
loop: it lists the connections the cursor is going to visit.
-/
inductive PortAct (Pcb : Type) where
  | rx (dr : UInt8)
  | tick
  | task (visits : List Pcb)
  deriving DecidableEq

namespace PortState

variable {size : Nat} {Pcb : Type}

def rx (s : PortState size Pcb) (dr : UInt8) : PortState size Pcb :=
  { s with port := s.port.receive dr, log := s.log ++ [.rx dr] }

def tick (s : PortState size Pcb) : PortState size Pcb :=
  match s.port.timeout with
  | (port, true) => { s with port := port, log := s.log ++ [.closed] }
  | (port, false) => { s with port := port }

def task (s : PortState size Pcb) (visits : List Pcb) : Option (PortState size Pcb) :=
  match s.pc with
  | .semCreate => some { s with port.recSem := some (osSemCreate 1), pc := .semPend }
  | .semPend =>
    match s.port.recSem with
    -- `OSSemPend` refuses a `NULL` event and returns at once.
    | none => some { s with pc := .copyCounter }
    | some e =>
      match osSemPend e with
      | (e, true) => some { s with port.recSem := some e, pc := .copyCounter }
      | (e, false) => some { s with port.recSem := some e, pc := .pending }
  | .pending =>
    match s.port.recSem with
    | none => none
    | some e => if e.osEventGrp then none else some { s with pc := .copyCounter }
  | .copyCounter => some { s with port := s.port.copyCounter, pc := .resetCounter }
  | .resetCounter => some { s with port := s.port.resetCount, pc := .loopInit }
  | .loopInit => some { s with pc := .walk visits }
  | .walk [] => some { s with pc := .semPend, log := s.log ++ [.passDone] }
  | .walk (pcb :: todo) =>
    some { s with pc := .walk todo, log := s.log ++ [.write pcb s.port.sendData] }

def step (s : PortState size Pcb) : PortAct Pcb → Option (PortState size Pcb)
  | .rx dr => some (s.rx dr)
  | .tick => some s.tick
  | .task visits => s.task visits

end PortState

variable {size : Nat} {Pcb : Type}

inductive TaskStep (visits : List Pcb) (s : PortState size Pcb) : PortState size Pcb → Prop where
  | semCreate (hpc : s.pc = .semCreate)
      : TaskStep visits s { s with port.recSem := some (osSemCreate 1), pc := .semPend }
  | semPendNull (hpc : s.pc = .semPend) (hsem : s.port.recSem = none)
      : TaskStep visits s { s with pc := .copyCounter }
  | semPendTake (e : OsEvent) (hpc : s.pc = .semPend) (hsem : s.port.recSem = some e)
      (hcnt : 0 < e.osEventCnt)
      : TaskStep visits s { s with
          port.recSem := some { e with osEventCnt := e.osEventCnt - 1 }, pc := .copyCounter }
  | semPendSuspend (e : OsEvent) (hpc : s.pc = .semPend) (hsem : s.port.recSem = some e)
      (hcnt : e.osEventCnt = 0)
      : TaskStep visits s { s with
          port.recSem := some { e with osEventGrp := true }, pc := .pending }
  | semPendResume (e : OsEvent) (hpc : s.pc = .pending) (hsem : s.port.recSem = some e)
      (hgrp : e.osEventGrp = false)
      : TaskStep visits s { s with pc := .copyCounter }
  | copyCounter (hpc : s.pc = .copyCounter)
      : TaskStep visits s { s with port := s.port.copyCounter, pc := .resetCounter }
  | resetCounter (hpc : s.pc = .resetCounter)
      : TaskStep visits s { s with port := s.port.resetCount, pc := .loopInit }
  | loopInit (hpc : s.pc = .loopInit)
      : TaskStep visits s { s with pc := .walk visits }
  | write (pcb : Pcb) (todo : List Pcb) (hpc : s.pc = .walk (pcb :: todo))
      : TaskStep visits s { s with
          pc := .walk todo, log := s.log ++ [.write pcb s.port.sendData] }
  | passDone (hpc : s.pc = .walk [])
      : TaskStep visits s { s with pc := .semPend, log := s.log ++ [.passDone] }

namespace PortState

theorem taskStep_of_task {s s' : PortState size Pcb} {visits : List Pcb}
    (h : s.task visits = some s')
    : TaskStep visits s s' := by
  unfold task at h
  split at h
  . next hpc =>
    cases h
    exact .semCreate hpc
  . next hpc =>
    split at h
    . next hsem =>
      cases h
      exact .semPendNull hpc hsem
    . next e hsem =>
      by_cases hcnt : 0 < e.osEventCnt
      . rw [osSemPend_of_pos hcnt] at h
        cases h
        exact .semPendTake e hpc hsem hcnt
      . have hzero : e.osEventCnt = 0 := by simpa using hcnt
        rw [osSemPend_of_zero hzero] at h
        cases h
        exact .semPendSuspend e hpc hsem hzero
  . next hpc =>
    split at h
    . cases h
    . next e hsem =>
      split at h
      . cases h
      . next hgrp =>
        cases h
        exact .semPendResume e hpc hsem (by simpa using hgrp)
  . next hpc =>
    cases h
    exact .copyCounter hpc
  . next hpc =>
    cases h
    exact .resetCounter hpc
  . next hpc =>
    cases h
    exact .loopInit hpc
  . next hpc =>
    cases h
    exact .passDone hpc
  . next pcb todo hpc =>
    cases h
    exact .write pcb todo hpc

@[simp]
theorem rx_pc (s : PortState size Pcb) (dr : UInt8) : (s.rx dr).pc = s.pc := rfl

@[simp]
theorem rx_port (s : PortState size Pcb) (dr : UInt8) : (s.rx dr).port = s.port.receive dr := rfl

@[simp]
theorem rx_log (s : PortState size Pcb) (dr : UInt8) : (s.rx dr).log = s.log ++ [.rx dr] := rfl

theorem tick_eq (s : PortState size Pcb)
    : s.tick =
        { s with
          port := s.port.timeout.1
          log := if s.port.timeout.2 then s.log ++ [.closed] else s.log } := by
  unfold tick
  split
  . next h => simp [h]
  . next h => simp [h]

@[simp]
theorem tick_pc (s : PortState size Pcb) : s.tick.pc = s.pc := by
  rw [tick_eq]

@[simp]
theorem tick_port (s : PortState size Pcb) : s.tick.port = s.port.timeout.1 := by
  rw [tick_eq]

theorem tick_log (s : PortState size Pcb)
    : s.tick.log = if s.port.timeout.2 then s.log ++ [.closed] else s.log := by
  rw [tick_eq]

def AtSemPend (s : PortState size Pcb) : Prop := s.pc = .semPend ∨ s.pc = .pending

def PoweredOn (s : PortState size Pcb) : Prop :=
  s.port.PoweredOn ∧ s.pc = .semCreate ∧ s.log = []

def SemOk (s : PortState size Pcb) : Prop :=
  match s.pc with
  | .semCreate => s.port.recSem = none
  | .pending => ∃ e, s.port.recSem = some e ∧ (e.osEventGrp = true → e.osEventCnt = 0)
  | _ => ∃ e, s.port.recSem = some e ∧ e.osEventGrp = false

theorem SemOk.rx (hsize : 256 ≤ size) {s : PortState size Pcb} (h : s.SemOk) (dr : UInt8)
    : (s.rx dr).SemOk := by
  unfold SemOk at *
  rw [rx_pc, rx_port, Port.receive_recSem hsize]
  exact h

theorem SemOk.of_eq {s s' : PortState size Pcb} (h : s.SemOk) (hpc : s'.pc = s.pc)
    (hsem : s'.port.recSem = s.port.recSem)
    : s'.SemOk := by
  unfold SemOk at *
  rw [hpc, hsem]
  exact h

def post (s : PortState size Pcb) : PortState size Pcb :=
  { s with port.recSem := (osSemPost s.port.recSem).1 }

theorem SemOk.post {s : PortState size Pcb} (h : s.SemOk) : s.post.SemOk := by
  unfold SemOk PortState.post at *
  dsimp only
  split
  . next hpc =>
    rw [hpc] at h
    rw [h]
    rfl
  . next hpc =>
    rw [hpc] at h
    rcases h with ⟨e, hsem, -⟩
    rw [hsem]
    cases hgrp : e.osEventGrp with
    | true =>
      rw [osSemPost_of_waiting hgrp]
      exact ⟨_, rfl, by simp⟩
    | false =>
      rcases osSemPost_pos hgrp with ⟨e', he', hgrp', -⟩
      exact ⟨e', he', by simp [hgrp']⟩
  . next hcreate hpending =>
    have hwait : ∃ e, s.port.recSem = some e ∧ e.osEventGrp = false := by
      cases hpc : s.pc <;> simp_all
    rcases hwait with ⟨e, hsem, hgrp⟩
    rw [hsem]
    rcases osSemPost_pos hgrp with ⟨e', he', hgrp', -⟩
    exact ⟨e', he', hgrp'⟩

theorem SemOk.tick {s : PortState size Pcb} (h : s.SemOk) : s.tick.SemOk := by
  have hsem := Port.timeout_recSem s.port
  cases hposts : s.port.timeout.2 with
  | false =>
    rw [hposts] at hsem
    exact h.of_eq s.tick_pc (by simpa using hsem)
  | true =>
    rw [hposts] at hsem
    exact h.post.of_eq s.tick_pc (by simpa [PortState.post] using hsem)

theorem SemOk.task {s s' : PortState size Pcb} {visits : List Pcb} (h : s.SemOk)
    (hstep : s.task visits = some s')
    : s'.SemOk := by
  unfold SemOk at *
  cases taskStep_of_task hstep with
  | semCreate hpc => exact ⟨_, rfl, rfl⟩
  | semPendNull hpc hsem => simp [hpc, hsem] at h
  | semPendTake e hpc hsem hcnt =>
    rw [hpc, hsem] at h
    rcases h with ⟨e', he', hgrp⟩
    cases he'
    exact ⟨_, rfl, hgrp⟩
  | semPendSuspend e hpc hsem hcnt => exact ⟨_, rfl, fun _ => hcnt⟩
  | semPendResume e hpc hsem hgrp => exact ⟨e, hsem, hgrp⟩
  | copyCounter hpc =>
    rw [hpc] at h
    exact h
  | resetCounter hpc =>
    rw [hpc] at h
    exact h
  | loopInit hpc =>
    rw [hpc] at h
    exact h
  | write pcb todo hpc =>
    rw [hpc] at h
    exact h
  | passDone hpc =>
    rw [hpc] at h
    exact h

theorem SemOk.step (hsize : 256 ≤ size) {s s' : PortState size Pcb} {b : PortAct Pcb} (h : s.SemOk)
    (hstep : s.step b = some s')
    : s'.SemOk := by
  cases b with
  | rx dr =>
    cases hstep
    exact h.rx hsize dr
  | tick =>
    cases hstep
    exact h.tick
  | task visits => exact h.task hstep

def Posted (s : PortState size Pcb) : Prop :=
  ∃ e, s.port.recSem = some e ∧ (0 < e.osEventCnt ∨ s.pc = .pending ∧ e.osEventGrp = false)

theorem posted_post {s : PortState size Pcb} (h : s.SemOk) : s.pc = .semCreate ∨ s.post.Posted := by
  unfold SemOk Posted PortState.post at *
  dsimp only
  split at h
  . next hpc => exact .inl hpc
  . next hpc =>
    rcases h with ⟨e, hsem, -⟩
    rw [hsem]
    cases hgrp : e.osEventGrp with
    | true =>
      rw [osSemPost_of_waiting hgrp]
      exact .inr ⟨_, rfl, .inr ⟨hpc, rfl⟩⟩
    | false =>
      rcases osSemPost_pos hgrp with ⟨e', he', -, hcnt⟩
      exact .inr ⟨e', he', .inl hcnt⟩
  . rcases h with ⟨e, hsem, hgrp⟩
    rw [hsem]
    rcases osSemPost_pos hgrp with ⟨e', he', -, hcnt⟩
    exact .inr ⟨e', he', .inl hcnt⟩

theorem posted_tick {s : PortState size Pcb} (h : s.SemOk) (hposts : s.port.timeout.2 = true)
    : s.pc = .semCreate ∨ s.tick.Posted := by
  have hsem := Port.timeout_recSem s.port
  rw [hposts, if_pos rfl] at hsem
  unfold Posted
  rw [tick_pc, tick_port, hsem]
  exact posted_post h

theorem PoweredOn.semOk {s : PortState size Pcb} (h : s.PoweredOn) : s.SemOk := by
  rcases h with ⟨⟨-, -, -, -, hsem⟩, hpc, -⟩
  simp [SemOk, hpc, hsem]

end PortState

end SerialGateway
