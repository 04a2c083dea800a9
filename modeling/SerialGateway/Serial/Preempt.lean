import SerialGateway.Serial.Gateway
import SerialGateway.Serial.Log

/-!
This module contains the gateway with its interrupt handlers cut into statements, so that one handler can
land between any two statements of another one, and the preemption priorities that decide which one does.
-/

open Transition

namespace SerialGateway

/--
The statement of the receive branch a USART handler executes next. The last three before `exit` are
those of the overflow branch.
-/
inductive IsrPc where
  | store (dr : UInt8)
  | count
  | startTimer
  | clearTime
  | test
  | resetCount
  | restartTimer
  | stopTimer
  | exit
  deriving DecidableEq

inductive TimPc where
  | test
  | count
  | compare
  | timeOut
  | stopTimer
  | post
  deriving DecidableEq

structure PreemptState (size : Nat) (Pcb : Type) extends PortState size Pcb where
  isr : Option IsrPc
  tim : Option TimPc
  deriving DecidableEq

inductive PreemptAct (Pcb : Type) where
  | enter (dr : UInt8)
  | isr
  | timEnter
  | tim
  | task (visits : List Pcb)
  deriving DecidableEq

variable {size : Nat} {Pcb : Type}

namespace PreemptState

def isrStep (s : PreemptState size Pcb) (pc : IsrPc) : PreemptState size Pcb :=
  match pc with
  | .store dr =>
    { s with port := s.port.storeByte dr, log := s.log ++ [.rx dr], isr := some .count }
  | .count => { s with port := s.port.countByte, isr := some .startTimer }
  | .startTimer => { s with port := s.port.startTimer, isr := some .clearTime }
  | .clearTime => { s with port := s.port.clearTime, isr := some .test }
  | .test => { s with isr := some (if s.port.overflows then .resetCount else .exit) }
  | .resetCount => { s with port := s.port.resetCount, isr := some .restartTimer }
  | .restartTimer => { s with port := s.port.startTimer, isr := some .stopTimer }
  | .stopTimer => { s with port := s.port.stopTimer, isr := some .exit }
  | .exit => { s with isr := none }

def timStep (s : PreemptState size Pcb) (pc : TimPc) : PreemptState size Pcb :=
  match pc with
  | .test => { s with tim := if s.port.startTimeFlag = 1 then some .count else none }
  | .count => { s with port.recTimeCounter := s.port.recTimeCounter + 1, tim := some .compare }
  | .compare => { s with tim := if s.port.recTimeCounter ≥ 1 then some .timeOut else none }
  | .timeOut => { s with port.timeOutFlag := 1, tim := some .stopTimer }
  | .stopTimer => { s with port := s.port.stopTimer, tim := some .post }
  | .post => { s with port := s.post.port, log := s.log ++ [.closed], tim := none }

def step (s : PreemptState size Pcb) : PreemptAct Pcb → Option (PreemptState size Pcb)
  | .enter dr =>
    match s.isr with
    | none => some { s with isr := some (.store dr) }
    | some _ => none
  | .isr => s.isr.map s.isrStep
  | .timEnter =>
    match s.tim with
    | none => some { s with tim := some .test }
    | some _ => none
  | .tim => s.tim.map s.timStep
  | .task visits =>
    match s.isr, s.tim with
    | none, none => (s.toPortState.task visits).map fun p => { s with toPortState := p }
    | _, _ => none

theorem tim_isr (s : PreemptState size Pcb) (isr : Option IsrPc)
    : step { s with isr := isr } .tim = (s.step .tim).map fun s => { s with isr := isr } := by
  cases htim : s.tim with
  | none => simp [step, htim]
  | some pc => cases pc <;> simp [step, htim, timStep, PortState.post]

theorem run_isr (hsize : 256 ≤ size) (s : PreemptState size Pcb) (dr : UInt8)
    : run step { s with isr := some (.store dr) } (List.replicate 6 .isr)
        = some { s with toPortState := s.toPortState.rx dr, isr := none } := by
  have hdead := Port.overflows_eq_false hsize (((s.port.storeByte dr).countByte).startTimer).clearTime
  simp [run, step, List.replicate, isrStep, hdead, PortState.rx, Port.receive_eq hsize]

theorem run_tim (s : PreemptState size Pcb)
    : ∃ n, run step { s with tim := some .test } (List.replicate n .tim)
        = some { s with toPortState := s.tick, tim := none } := by
  rw [PortState.tick_eq]
  unfold Port.timeout
  by_cases hflag : s.port.startTimeFlag = 1
  . by_cases htime : s.port.recTimeCounter + 1 ≥ 1
    . refine ⟨6, ?_⟩
      simp [run, step, List.replicate, timStep, hflag, htime, Port.stopTimer, PortState.post]
    . refine ⟨3, ?_⟩
      simp [run, step, List.replicate, timStep, hflag, htime]
  . refine ⟨1, ?_⟩
    simp [run, step, List.replicate, timStep, hflag]

def WakeUp (s : PreemptState size Pcb) : Prop :=
  s.port.startTimeFlag = 1 ∨ s.tim = some .post ∨ s.Posted
    ∨ s.pc = .semCreate ∨ s.pc = .copyCounter ∨ s.pc = .resetCounter

def Unarmed (s : PreemptState size Pcb) : Prop :=
  (∃ dr, s.isr = some (.store dr)) ∨ s.isr = some .count ∨ s.isr = some .startTimer

def Overflowed (s : PreemptState size Pcb) : Prop :=
  s.isr = some .resetCount ∨ s.isr = some .restartTimer ∨ s.isr = some .stopTimer

structure Inv (s : PreemptState size Pcb) : Prop where
  semOk : s.SemOk
  passes : s.pc = .semCreate → passes s.log = 0
  live : ¬ s.Overflowed
  wakeUp : s.Unarmed ∨ s.port.recCounter = 0 ∨ s.WakeUp

theorem Inv.enter {s s' : PreemptState size Pcb} {dr : UInt8} (h : s.Inv)
    (hstep : s.step (.enter dr) = some s')
    : s'.Inv := by
  simp only [step] at hstep
  split at hstep
  . cases hstep
    exact ⟨h.semOk, h.passes, by simp [Overflowed], .inl (.inl ⟨dr, rfl⟩)⟩
  . cases hstep

theorem Inv.isr (hsize : 256 ≤ size) {s s' : PreemptState size Pcb} (h : s.Inv)
    (hstep : s.step .isr = some s')
    : s'.Inv := by
  rcases Option.map_eq_some_iff.mp hstep with ⟨pc, hpc, rfl⟩
  have hlive := h.live
  have hwake := h.wakeUp
  simp only [Unarmed, hpc] at hwake
  cases pc with
  | store dr =>
    refine ⟨h.semOk, ?_, by simp [isrStep, Overflowed], .inl (.inr (.inl rfl))⟩
    simpa [isrStep] using h.passes
  | count =>
    exact ⟨h.semOk, h.passes, by simp [isrStep, Overflowed], .inl (.inr (.inr rfl))⟩
  | startTimer =>
    exact ⟨h.semOk, h.passes, by simp [isrStep, Overflowed], .inr (.inr (.inl rfl))⟩
  | clearTime =>
    refine ⟨h.semOk, h.passes, by simp [isrStep, Overflowed], .inr ?_⟩
    apply hwake.resolve_left
    simp
  | test =>
    have hdead := Port.overflows_eq_false hsize s.port
    refine ⟨h.semOk, h.passes, by simp [isrStep, Overflowed, hdead], .inr ?_⟩
    apply hwake.resolve_left
    simp
  | exit =>
    refine ⟨h.semOk, h.passes, by simp [isrStep, Overflowed], .inr ?_⟩
    apply hwake.resolve_left
    simp
  | resetCount => exact absurd (.inl hpc) hlive
  | restartTimer => exact absurd (.inr (.inl hpc)) hlive
  | stopTimer => exact absurd (.inr (.inr hpc)) hlive

theorem Inv.timEnter {s s' : PreemptState size Pcb} (h : s.Inv) (hstep : s.step .timEnter = some s')
    : s'.Inv := by
  simp only [step] at hstep
  split at hstep
  . next htim =>
    cases hstep
    refine ⟨h.semOk, h.passes, h.live, ?_⟩
    have hwake := h.wakeUp
    simp only [WakeUp, htim] at hwake
    simpa [WakeUp, Unarmed, PortState.Posted] using hwake
  . cases hstep

theorem Inv.tim {s s' : PreemptState size Pcb} (h : s.Inv) (hstep : s.step .tim = some s') : s'.Inv := by
  rcases Option.map_eq_some_iff.mp hstep with ⟨pc, hpc, rfl⟩
  have hwake := h.wakeUp
  simp only [WakeUp, hpc] at hwake
  cases pc with
  | test | count | compare | timeOut =>
    refine ⟨h.semOk, h.passes, h.live, ?_⟩
    simpa [timStep, WakeUp, Unarmed, PortState.Posted] using hwake
  | stopTimer => exact ⟨h.semOk, h.passes, h.live, .inr (.inr (.inr (.inl rfl)))⟩
  | post =>
    refine ⟨h.semOk.post, ?_, h.live, .inr (.inr ?_)⟩
    . intro hcreate
      simpa [timStep] using h.passes hcreate
    . rcases PortState.posted_post h.semOk with hcreate | hposted
      . exact .inr (.inr (.inr (.inl hcreate)))
      . exact .inr (.inr (.inl hposted))

theorem WakeUp.task {s : PreemptState size Pcb} {p : PortState size Pcb} {visits : List Pcb}
    (h : s.port.recCounter = 0 ∨ s.WakeUp) (hstep : s.toPortState.task visits = some p)
    : p.port.recCounter = 0 ∨ WakeUp { s with toPortState := p } := by
  unfold WakeUp PortState.Posted at *
  cases PortState.taskStep_of_task hstep with
  | semCreate hpc => exact .inr (.inr (.inr (.inl ⟨_, rfl, .inl (by decide)⟩)))
  | semPendNull hpc hsem => exact .inr (.inr (.inr (.inr (.inr (.inl rfl)))))
  | semPendTake e hpc hsem hcnt => exact .inr (.inr (.inr (.inr (.inr (.inl rfl)))))
  | semPendSuspend e hpc hsem hcnt => simpa [hpc, hsem, hcnt] using h
  | semPendResume e hpc hsem hgrp => exact .inr (.inr (.inr (.inr (.inr (.inl rfl)))))
  | copyCounter hpc => exact .inr (.inr (.inr (.inr (.inr (.inr rfl)))))
  | resetCounter hpc => exact .inl rfl
  | loopInit hpc => simpa [hpc] using h
  | write pcb todo hpc => simpa [hpc] using h
  | passDone hpc => simpa [hpc] using h

theorem Inv.task {s s' : PreemptState size Pcb} {visits : List Pcb} (h : s.Inv)
    (hstep : s.step (.task visits) = some s')
    : s'.Inv := by
  simp only [step] at hstep
  split at hstep
  . next hisr htim =>
    rcases Option.map_eq_some_iff.mp hstep with ⟨p, htask, rfl⟩
    have hwake := h.wakeUp
    simp only [Unarmed, hisr] at hwake
    refine ⟨h.semOk.task htask, ?_, h.live, .inr (WakeUp.task (hwake.resolve_left (by simp)) htask)⟩
    intro hpc
    cases PortState.taskStep_of_task htask <;> cases hpc
  . cases hstep

theorem Inv.step (hsize : 256 ≤ size) {s s' : PreemptState size Pcb} {b : PreemptAct Pcb}
    (h : s.Inv) (hstep : s.step b = some s')
    : s'.Inv := by
  cases b with
  | enter dr => exact h.enter hstep
  | isr => exact h.isr hsize hstep
  | timEnter => exact h.timEnter hstep
  | tim => exact h.tim hstep
  | task visits => exact h.task hstep

def PoweredOn (s : PreemptState size Pcb) : Prop :=
  s.toPortState.PoweredOn ∧ s.isr = none ∧ s.tim = none

theorem PoweredOn.inv {s : PreemptState size Pcb} (h : s.PoweredOn) : s.Inv := by
  rcases h with ⟨hport, hisr, -⟩
  have hsem := hport.semOk
  rcases hport with ⟨⟨hcount, -, -, -, -⟩, -, hlog⟩
  refine ⟨hsem, ?_, by simp [Overflowed, hisr], .inr (.inl hcount)⟩
  intro _
  rw [hlog]
  rfl

def Attended (s : PreemptState size Pcb) : Prop :=
  s.port.recCounter ≠ 0 →
    s.port.startTimeFlag = 1
    ∨ (∃ e, s.port.recSem = some e ∧ 0 < e.osEventCnt)
    ∨ (∃ e, s.port.recSem = some e ∧ s.pc = .pending ∧ e.osEventGrp = false)
    ∨ SerialGateway.passes s.log = 0
    ∨ (s.pc = .copyCounter ∨ s.pc = .resetCounter)
    ∨ s.isr ≠ none

instance [DecidableEq Pcb] (s : PreemptState size Pcb) : Decidable s.Attended :=
  decidable_of_iff
    (s.port.recCounter ≠ 0 →
      s.port.startTimeFlag = 1
      ∨ (s.port.recSem.any fun e => 0 < e.osEventCnt)
      ∨ (s.port.recSem.any fun e => !e.osEventGrp) ∧ s.pc = .pending
      ∨ SerialGateway.passes s.log = 0
      ∨ (s.pc = .copyCounter ∨ s.pc = .resetCounter)
      ∨ s.isr.isSome)
    (by
      have hready : (∃ e, s.port.recSem = some e ∧ s.pc = .pending ∧ e.osEventGrp = false)
          ↔ (∃ e, s.port.recSem = some e ∧ e.osEventGrp = false) ∧ s.pc = .pending := by
        grind
      simp [Attended, Option.any_eq_true, hready, Option.isSome_iff_ne_none])

theorem Inv.attended {s : PreemptState size Pcb} (h : s.Inv) : s.Attended ∨ s.tim = some .post := by
  by_cases hpost : s.tim = some .post
  . exact .inr hpost
  . refine .inl fun hcount => ?_
    rcases h.wakeUp with hunarmed | hzero | hflag | htim | hposted | hpc
    . have hisr : s.isr ≠ none := by
        rcases hunarmed with ⟨dr, hisr⟩ | hisr | hisr <;> simp [hisr]
      exact .inr (.inr (.inr (.inr (.inr hisr))))
    . contradiction
    . exact .inl hflag
    . contradiction
    . rcases hposted with ⟨e, he, hcnt | hready⟩
      . exact .inr (.inl ⟨e, he, hcnt⟩)
      . exact .inr (.inr (.inl ⟨e, he, hready⟩))
    . rcases hpc with hpc | hpc
      . exact .inr (.inr (.inr (.inl (h.passes hpc))))
      . exact .inr (.inr (.inr (.inr (.inl hpc))))

end PreemptState

inductive Irq where
  | usart1
  | usart2
  | tim2
  deriving DecidableEq

def Irq.all : List Irq := [.usart1, .usart2, .tim2]

/--
The byte `NVIC_Init` stores as the priority of an enabled channel, for the register `AIRCR`.
-/
def nvicInit (aircr : UInt32) (preemptionPriority subPriority : UInt8) : UInt8 :=
  let tmppriority := (0x700 - (aircr &&& 0x700)) >>> 0x08
  let tmppre := 0x4 - tmppriority
  let tmpsub := 0x0F >>> tmppriority
  let tmppriority := preemptionPriority.toUInt32 <<< tmppre
  let tmppriority := tmppriority ||| (subPriority.toUInt32 &&& tmpsub)
  let tmppriority := tmppriority <<< 0x04
  tmppriority.toUInt8

def nvicPriorityGroup2 : UInt32 := 0x500

def nvicPreemptionPriority : Irq → UInt8
  | .usart1 => 3
  | .usart2 => 4
  | .tim2 => 1

def nvicSubPriority : Irq → UInt8
  | .usart1 | .usart2 => 0
  | .tim2 => 1

def nvicConfiguration (i : Irq) : UInt8 :=
  nvicInit nvicPriorityGroup2 (nvicPreemptionPriority i) (nvicSubPriority i)

/--
In group 2 the processor takes the upper two bits of the byte as the preemption priority.
-/
def preemptionPriority (i : Irq) : Nat := (nvicConfiguration i >>> 6).toNat

-- The `4` of `USART2` does not fit two bits, and what is left of it is the highest priority.
example : Irq.all.map preemptionPriority = [3, 0, 1] := by decide

structure PreemptGateway (Pcb : Type) where
  rs232 : PreemptState rs232RecBufSize Pcb
  rs485 : PreemptState rs485RecBufSize Pcb
  /-- The port whose branch `TIM2_IRQHandler` is in. -/
  tim2 : Option PortId
  deriving DecidableEq

inductive PreemptGateway.Act (Pcb : Type) where
  | usart1Enter (dr : UInt8)
  | usart1
  | usart2Enter (dr : UInt8)
  | usart2
  | tim2Enter
  | tim2Rs232
  | tim2Next
  | tim2Rs485
  | tim2Exit
  | rs232Task (visits : List Pcb)
  | rs485Task (visits : List Pcb)
  deriving DecidableEq

namespace PreemptGateway

def exec (g : PreemptGateway Pcb) : Act Pcb → Option (PreemptGateway Pcb)
  | .usart1Enter dr => (g.rs485.step (.enter dr)).map fun rs485 => { g with rs485 := rs485 }
  | .usart1 => (g.rs485.step .isr).map fun rs485 => { g with rs485 := rs485 }
  | .usart2Enter dr => (g.rs232.step (.enter dr)).map fun rs232 => { g with rs232 := rs232 }
  | .usart2 => (g.rs232.step .isr).map fun rs232 => { g with rs232 := rs232 }
  | .tim2Enter =>
    if g.tim2 = none then
      (g.rs232.step .timEnter).map fun rs232 => { g with rs232 := rs232, tim2 := some .rs232 }
    else
      none
  | .tim2Rs232 => (g.rs232.step .tim).map fun rs232 => { g with rs232 := rs232 }
  | .tim2Next =>
    if g.tim2 = some .rs232 ∧ g.rs232.tim = none then
      (g.rs485.step .timEnter).map fun rs485 => { g with rs485 := rs485, tim2 := some .rs485 }
    else
      none
  | .tim2Rs485 => (g.rs485.step .tim).map fun rs485 => { g with rs485 := rs485 }
  | .tim2Exit =>
    if g.tim2 = some .rs485 ∧ g.rs485.tim = none then
      some { g with tim2 := none }
    else
      none
  | .rs232Task visits => (g.rs232.step (.task visits)).map fun rs232 => { g with rs232 := rs232 }
  | .rs485Task visits => (g.rs485.step (.task visits)).map fun rs485 => { g with rs485 := rs485 }

def Act.irq : Act Pcb → Option Irq
  | .usart1Enter _ | .usart1 => some .usart1
  | .usart2Enter _ | .usart2 => some .usart2
  | .tim2Enter | .tim2Rs232 | .tim2Next | .tim2Rs485 | .tim2Exit => some .tim2
  | .rs232Task _ | .rs485Task _ => none

def inProgress (g : PreemptGateway Pcb) : Irq → Bool
  | .usart1 => g.rs485.isr.isSome
  | .usart2 => g.rs232.isr.isSome
  | .tim2 => g.tim2.isSome

/--
A handler runs while every other one in progress has a lower preemption priority, which is a greater
number, and a task while none is in progress.
-/
def MayRun (prio : Irq → Nat) (g : PreemptGateway Pcb) (irq : Option Irq) : Prop :=
  ∀ j ∈ Irq.all, g.inProgress j = true → ∃ i ∈ irq, j = i ∨ prio i < prio j

instance (prio : Irq → Nat) (g : PreemptGateway Pcb) : (irq : Option Irq) → Decidable (g.MayRun prio irq)
  | none => decidable_of_iff (∀ j ∈ Irq.all, g.inProgress j = false) (by simp [MayRun])
  | some i =>
    decidable_of_iff (∀ j ∈ Irq.all, g.inProgress j = true → j = i ∨ prio i < prio j) (by simp [MayRun])

def step (prio : Irq → Nat) (g : PreemptGateway Pcb) (a : Act Pcb) : Option (PreemptGateway Pcb) :=
  if g.MayRun prio a.irq then g.exec a else none

def port (g : PreemptGateway Pcb) : (id : PortId) → PreemptState id.bufSize Pcb
  | .rs232 => g.rs232
  | .rs485 => g.rs485

def Act.on (id : PortId) (a : Act Pcb) : Option (PreemptAct Pcb) :=
  match id, a with
  | .rs485, .usart1Enter dr => some (.enter dr)
  | .rs485, .usart1 => some .isr
  | .rs232, .usart2Enter dr => some (.enter dr)
  | .rs232, .usart2 => some .isr
  | .rs232, .tim2Enter => some .timEnter
  | .rs232, .tim2Rs232 => some .tim
  | .rs485, .tim2Next => some .timEnter
  | .rs485, .tim2Rs485 => some .tim
  | .rs232, .rs232Task visits => some (.task visits)
  | .rs485, .rs485Task visits => some (.task visits)
  | _, _ => none

def ofGateway (g : Gateway Pcb) : PreemptGateway Pcb where
  rs232 := { g.rs232 with isr := none, tim := none }
  rs485 := { g.rs485 with isr := none, tim := none }
  tim2 := none

def powerOn : PreemptGateway Pcb := ofGateway Gateway.powerOn

theorem projects (prio : Irq → Nat) (id : PortId)
    : Projects (@step Pcb prio) PreemptState.step (fun g => g.port id) (Act.on id) := by
  intro g a g' h
  have h := (Option.ite_none_right_eq_some.mp h).2
  cases a with
  | usart1Enter dr =>
    rcases Option.map_eq_some_iff.mp h with ⟨rs485, hport, rfl⟩
    cases id with
    | rs232 => rfl
    | rs485 => exact hport
  | usart1 =>
    rcases Option.map_eq_some_iff.mp h with ⟨rs485, hport, rfl⟩
    cases id with
    | rs232 => rfl
    | rs485 => exact hport
  | usart2Enter dr =>
    rcases Option.map_eq_some_iff.mp h with ⟨rs232, hport, rfl⟩
    cases id with
    | rs232 => exact hport
    | rs485 => rfl
  | usart2 =>
    rcases Option.map_eq_some_iff.mp h with ⟨rs232, hport, rfl⟩
    cases id with
    | rs232 => exact hport
    | rs485 => rfl
  | tim2Enter =>
    rcases Option.map_eq_some_iff.mp (Option.ite_none_right_eq_some.mp h).2 with ⟨rs232, hport, rfl⟩
    cases id with
    | rs232 => exact hport
    | rs485 => rfl
  | tim2Rs232 =>
    rcases Option.map_eq_some_iff.mp h with ⟨rs232, hport, rfl⟩
    cases id with
    | rs232 => exact hport
    | rs485 => rfl
  | tim2Next =>
    rcases Option.map_eq_some_iff.mp (Option.ite_none_right_eq_some.mp h).2 with ⟨rs485, hport, rfl⟩
    cases id with
    | rs232 => rfl
    | rs485 => exact hport
  | tim2Rs485 =>
    rcases Option.map_eq_some_iff.mp h with ⟨rs485, hport, rfl⟩
    cases id with
    | rs232 => rfl
    | rs485 => exact hport
  | tim2Exit =>
    rcases Option.ite_none_right_eq_some.mp h with ⟨-, hg'⟩
    cases hg'
    cases id <;> rfl
  | rs232Task visits =>
    rcases Option.map_eq_some_iff.mp h with ⟨rs232, hport, rfl⟩
    cases id with
    | rs232 => exact hport
    | rs485 => rfl
  | rs485Task visits =>
    rcases Option.map_eq_some_iff.mp h with ⟨rs485, hport, rfl⟩
    cases id with
    | rs232 => rfl
    | rs485 => exact hport

def Alone (g : PreemptGateway Pcb) (i : Irq) : Prop := ∀ j, g.inProgress j = true → j = i

theorem step_of_alone (prio : Irq → Nat) {g : PreemptGateway Pcb} {i : Irq} {a : Act Pcb} (h : g.Alone i)
    (ha : a.irq = some i)
    : g.step prio a = g.exec a := by
  have hmay : g.MayRun prio a.irq := by
    intro j _ hj
    exact ⟨i, ha, .inl (h j hj)⟩
  exact if_pos hmay

theorem step_of_quiet (prio : Irq → Nat) {g : PreemptGateway Pcb} {a : Act Pcb}
    (h : ∀ j, g.inProgress j = false)
    : g.step prio a = g.exec a := by
  have hmay : g.MayRun prio a.irq := by
    intro j _ hj
    simp [h j] at hj
  exact if_pos hmay

theorem run_handler {size : Nat} {prio : Irq → Nat} {i : Irq} {a : Act Pcb} {b : PreemptAct Pcb} {n : Nat}
    {s t : PreemptState size Pcb} (put : PreemptState size Pcb → PreemptGateway Pcb)
    (halone : ∀ s, (put s).Alone i) (ha : a.irq = some i)
    (hexec : ∀ s, (put s).exec a = (s.step b).map put)
    (h : run PreemptState.step s (List.replicate n b) = some t)
    : run (step prio) (put s) (List.replicate n a) = some (put t) := by
  have hmap : run (step prio) (put s) ((List.replicate n b).map fun _ => a) = some (put t) := by
    refine run_map put _ ?_ h
    intro b' hb s s' hs
    rw [List.eq_of_mem_replicate hb] at hs
    rw [step_of_alone prio (halone s) ha, hexec, hs]
    rfl
  rw [List.map_replicate] at hmap
  exact hmap

theorem reachable_usart {size : Nat} {prio : Irq → Nat} {i : Irq} {dr : UInt8} (hsize : 256 ≤ size)
    (s : PreemptState size Pcb) (put : PreemptState size Pcb → PreemptGateway Pcb) (enter a : Act Pcb)
    (halone : ∀ s, (put s).Alone i) (henter : enter.irq = some i) (ha : a.irq = some i)
    (hexecEnter : ∀ s, (put s).exec enter = (s.step (.enter dr)).map put)
    (hexec : ∀ s, (put s).exec a = (s.step .isr).map put)
    : Reachable (step prio) (put { s with isr := none })
        (put { s with toPortState := s.toPortState.rx dr, isr := none }) := by
  refine (Reachable.single (t := put { s with isr := some (.store dr) }) enter ?_).trans ⟨List.replicate 6 a, ?_⟩
  . rw [step_of_alone prio (halone _) henter, hexecEnter]
    rfl
  . exact run_handler put halone ha hexec (PreemptState.run_isr hsize s dr)

theorem run_usart1 (prio : Irq → Nat) (g : Gateway Pcb) (dr : UInt8)
    : Reachable (step prio) (ofGateway g) (ofGateway (usart1IRQHandler g dr)) := by
  have halone : ∀ rs485, Alone { ofGateway g with rs485 := rs485 } .usart1 := by
    rintro rs485 (_ | _ | _) <;> simp [inProgress, ofGateway]
  exact reachable_usart PortId.rs485.le_bufSize (ofGateway g).rs485 (fun rs485 => { ofGateway g with rs485 := rs485 })
    (.usart1Enter dr) .usart1 halone rfl rfl (fun _ => rfl) (fun _ => rfl)

theorem run_usart2 (prio : Irq → Nat) (g : Gateway Pcb) (dr : UInt8)
    : Reachable (step prio) (ofGateway g) (ofGateway (usart2IRQHandler g dr)) := by
  have halone : ∀ rs232, Alone { ofGateway g with rs232 := rs232 } .usart2 := by
    rintro rs232 (_ | _ | _) <;> simp [inProgress, ofGateway]
  exact reachable_usart PortId.rs232.le_bufSize (ofGateway g).rs232 (fun rs232 => { ofGateway g with rs232 := rs232 })
    (.usart2Enter dr) .usart2 halone rfl rfl (fun _ => rfl) (fun _ => rfl)

theorem run_tim2Rs232 (prio : Irq → Nat) (g : Gateway Pcb)
    : Reachable (step prio)
        { ofGateway g with rs232 := { (ofGateway g).rs232 with tim := some .test }, tim2 := some .rs232 }
        { ofGateway { g with rs232 := g.rs232.tick } with tim2 := some .rs232 } := by
  rcases PreemptState.run_tim (ofGateway g).rs232 with ⟨n, hport⟩
  refine ⟨List.replicate n .tim2Rs232, ?_⟩
  refine run_handler (i := .tim2)
    (fun s => { ofGateway g with rs232 := { s with isr := none }, tim2 := some .rs232 }) ?_ rfl ?_ hport
  . rintro s (_ | _ | _) <;> simp [inProgress, ofGateway]
  . intro s
    simp [exec, PreemptState.tim_isr, Function.comp_def]

theorem run_tim2Rs485 (prio : Irq → Nat) (g : Gateway Pcb)
    : Reachable (step prio)
        { ofGateway g with rs485 := { (ofGateway g).rs485 with tim := some .test }, tim2 := some .rs485 }
        { ofGateway { g with rs485 := g.rs485.tick } with tim2 := some .rs485 } := by
  rcases PreemptState.run_tim (ofGateway g).rs485 with ⟨n, hport⟩
  refine ⟨List.replicate n .tim2Rs485, ?_⟩
  refine run_handler (i := .tim2)
    (fun s => { ofGateway g with rs485 := { s with isr := none }, tim2 := some .rs485 }) ?_ rfl ?_ hport
  . rintro s (_ | _ | _) <;> simp [inProgress, ofGateway]
  . intro s
    simp [exec, PreemptState.tim_isr, Function.comp_def]

theorem run_tim2 (prio : Irq → Nat) (g : Gateway Pcb)
    : Reachable (step prio) (ofGateway g) (ofGateway (tim2IRQHandler g)) := by
  have halone : ∀ (g : Gateway Pcb) id, Alone { ofGateway g with tim2 := id } .tim2 := by
    rintro g id (_ | _ | _) <;> simp [inProgress, ofGateway]
  have hrs485 := run_tim2Rs485 prio { g with rs232 := g.rs232.tick }
  refine (Reachable.single .tim2Enter ?_).trans ((run_tim2Rs232 prio g).trans
    ((Reachable.single .tim2Next ?_).trans (hrs485.trans (Reachable.single .tim2Exit ?_))))
  . exact (step_of_alone prio (halone g none) rfl).trans rfl
  . exact (step_of_alone prio (halone _ _) rfl).trans rfl
  . exact (step_of_alone prio (halone _ _) rfl).trans rfl

theorem reachable_of_gateway (prio : Irq → Nat) {g g' : Gateway Pcb}
    (h : Reachable Gateway.step g g')
    : Reachable (step prio) (ofGateway g) (ofGateway g') := by
  refine h.simulate ofGateway fun g a g' hstep => ?_
  cases a with
  | usart1 dr =>
    cases hstep
    exact run_usart1 prio g dr
  | usart2 dr =>
    cases hstep
    exact run_usart2 prio g dr
  | tim2 =>
    cases hstep
    exact run_tim2 prio g
  | rs232Task visits =>
    rcases Option.map_eq_some_iff.mp hstep with ⟨rs232, htask, rfl⟩
    apply Reachable.single (.rs232Task visits)
    rw [step_of_quiet prio (by rintro (_ | _ | _) <;> rfl)]
    simp [exec, PreemptState.step, ofGateway, htask]
  | rs485Task visits =>
    rcases Option.map_eq_some_iff.mp hstep with ⟨rs485, htask, rfl⟩
    apply Reachable.single (.rs485Task visits)
    rw [step_of_quiet prio (by rintro (_ | _ | _) <;> rfl)]
    simp [exec, PreemptState.step, ofGateway, htask]

theorem powerOn_poweredOn (id : PortId) : ((@powerOn Pcb).port id).PoweredOn := by
  cases id with
  | rs232 => exact ⟨Gateway.powerOn_poweredOn .rs232, rfl, rfl⟩
  | rs485 => exact ⟨Gateway.powerOn_poweredOn .rs485, rfl, rfl⟩

theorem attended_of_reachable (prio : Irq → Nat) (id : PortId) {g : PreemptGateway Pcb}
    (h : Reachable (step prio) powerOn g)
    : (g.port id).Attended ∨ (g.port id).tim = some .post :=
  (((projects prio id).reachable h).invariant
    (fun _ _ _ hinv hstep => hinv.step id.le_bufSize hstep)
    (powerOn_poweredOn id).inv).attended

def byteInside (dr : UInt8) : List (Act Nat) :=
  List.replicate 8 (.rs232Task [7]) ++ .usart2Enter 0x41 :: List.replicate 6 .usart2
    ++ .tim2Enter :: List.replicate 4 .tim2Rs232
    ++ .usart2Enter dr :: List.replicate 6 .usart2 ++ [.tim2Rs232]

theorem attended_byteInside
    : ∃ g, run (step preemptionPriority) powerOn (byteInside 0x42) = some g
        ∧ (g.port .rs232).port.recCounter = 2
        ∧ ((g.port .rs232).Attended ∨ (g.port .rs232).tim = some .post) := by
  refine ⟨(run (step preemptionPriority) powerOn (byteInside 0x42)).get (by decide), (Option.some_get _).symm,
    ?_, ?_⟩
  . decide
  . apply attended_of_reachable preemptionPriority .rs232
    exact ⟨byteInside 0x42, (Option.some_get _).symm⟩

def beforePost : List (Act Nat) :=
  List.replicate 8 (.rs232Task [7]) ++ .usart2Enter 0x41 :: List.replicate 6 .usart2
    ++ .tim2Enter :: List.replicate 5 .tim2Rs232

-- Between the two statements that disarm the timer and post, the byte has neither a timer nor a post. That
-- holds with the priorities the processor uses and with those that `NVIC_Configuration` asks for.
theorem beforePost_not_attended
    : (∃ g, run (step preemptionPriority) powerOn beforePost = some g
        ∧ (g.port .rs232).isr = none
        ∧ ¬ (g.port .rs232).Attended)
      ∧ ∃ g, run (step fun i => (nvicPreemptionPriority i).toNat) powerOn beforePost = some g
        ∧ (g.port .rs232).isr = none
        ∧ ¬ (g.port .rs232).Attended := by
  constructor
  . exact ⟨(run (step _) powerOn beforePost).get (by decide), (Option.some_get _).symm, by decide, by decide⟩
  . exact ⟨(run (step _) powerOn beforePost).get (by decide), (Option.some_get _).symm, by decide, by decide⟩

end PreemptGateway

end SerialGateway
