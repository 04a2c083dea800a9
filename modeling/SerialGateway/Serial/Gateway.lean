import SerialGateway.Serial.Step

/-!
This module contains the two serial ports of the gateway side by side, with the interrupt handlers
and tasks under their own names and the projection of a run of the gateway onto either port.
-/

open Transition

namespace SerialGateway

def rs232RecBufSize : Nat := 2048

def rs485RecBufSize : Nat := 2048

inductive PortId where
  | rs232
  | rs485
  deriving DecidableEq, Repr

def PortId.bufSize : PortId → Nat
  | .rs232 => rs232RecBufSize
  | .rs485 => rs485RecBufSize

theorem PortId.le_bufSize (id : PortId) : 256 ≤ id.bufSize := by
  cases id with
  | rs232 => decide
  | rs485 => decide

structure Gateway (Pcb : Type) where
  rs232 : PortState rs232RecBufSize Pcb
  rs485 : PortState rs485RecBufSize Pcb
  deriving DecidableEq

variable {Pcb : Type}

inductive Gateway.Act (Pcb : Type) where
  | usart1 (dr : UInt8)
  | usart2 (dr : UInt8)
  | tim2
  | rs232Task (visits : List Pcb)
  | rs485Task (visits : List Pcb)
  deriving DecidableEq

def usart1IRQHandler (g : Gateway Pcb) (dr : UInt8) : Gateway Pcb :=
  { g with rs485 := g.rs485.rx dr }

def usart2IRQHandler (g : Gateway Pcb) (dr : UInt8) : Gateway Pcb :=
  { g with rs232 := g.rs232.rx dr }

def tim2IRQHandler (g : Gateway Pcb) : Gateway Pcb :=
  let g := { g with rs232 := g.rs232.tick }
  { g with rs485 := g.rs485.tick }

def rs232ToTcpTask (g : Gateway Pcb) (visits : List Pcb) : Option (Gateway Pcb) :=
  (g.rs232.task visits).map fun rs232 => { g with rs232 := rs232 }

def rs485ToTcpTask (g : Gateway Pcb) (visits : List Pcb) : Option (Gateway Pcb) :=
  (g.rs485.task visits).map fun rs485 => { g with rs485 := rs485 }

namespace Gateway

def step (g : Gateway Pcb) : Act Pcb → Option (Gateway Pcb)
  | .usart1 dr => some (usart1IRQHandler g dr)
  | .usart2 dr => some (usart2IRQHandler g dr)
  | .tim2 => some (tim2IRQHandler g)
  | .rs232Task visits => rs232ToTcpTask g visits
  | .rs485Task visits => rs485ToTcpTask g visits

def powerOn : Gateway Pcb where
  rs232 :=
    { port :=
        { recBuf := (Vector.replicate rs232RecBufSize 0).setIfInBounds 0 1
          recCounter := 0
          startTimeFlag := 0
          recTimeCounter := 0
          timeOutFlag := 0
          tcpSendCounter := 0
          recSem := none }
      pc := .semCreate
      log := [] }
  rs485 :=
    { port :=
        { recBuf := Vector.replicate rs485RecBufSize 0
          recCounter := 0
          startTimeFlag := 0
          recTimeCounter := 0
          timeOutFlag := 0
          tcpSendCounter := 0
          recSem := none }
      pc := .semCreate
      log := [] }

def port (g : Gateway Pcb) : (id : PortId) → PortState id.bufSize Pcb
  | .rs232 => g.rs232
  | .rs485 => g.rs485

def Act.on (id : PortId) (a : Act Pcb) : Option (PortAct Pcb) :=
  match id, a with
  | .rs485, .usart1 dr => some (.rx dr)
  | .rs232, .usart2 dr => some (.rx dr)
  | _, .tim2 => some .tick
  | .rs232, .rs232Task visits => some (.task visits)
  | .rs485, .rs485Task visits => some (.task visits)
  | _, _ => none

def Act.of (id : PortId) (b : PortAct Pcb) : Act Pcb :=
  match id, b with
  | .rs232, .rx dr => .usart2 dr
  | .rs485, .rx dr => .usart1 dr
  | _, .tick => .tim2
  | .rs232, .task visits => .rs232Task visits
  | .rs485, .task visits => .rs485Task visits

theorem projects (id : PortId)
    : Projects (@step Pcb) PortState.step (fun g => g.port id) (Act.on id) := by
  intro g a g' h
  cases a with
  | usart1 dr =>
    cases h
    cases id <;> rfl
  | usart2 dr =>
    cases h
    cases id <;> rfl
  | tim2 =>
    cases h
    cases id <;> rfl
  | rs232Task visits =>
    rcases Option.map_eq_some_iff.mp h with ⟨rs232, htask, rfl⟩
    cases id with
    | rs232 => exact htask
    | rs485 => rfl
  | rs485Task visits =>
    rcases Option.map_eq_some_iff.mp h with ⟨rs485, htask, rfl⟩
    cases id with
    | rs232 => rfl
    | rs485 => exact htask

def OnPort (id : PortId) (ok : PortState id.bufSize Pcb → PortAct Pcb → Prop) (g : Gateway Pcb)
    (a : Act Pcb)
    : Prop :=
  ∀ b ∈ a.on id, ok (g.port id) b

instance {id : PortId} {ok : PortState id.bufSize Pcb → PortAct Pcb → Prop}
    [∀ s b, Decidable (ok s b)] (g : Gateway Pcb) (a : Act Pcb)
    : Decidable (OnPort id ok g a) :=
  inferInstanceAs (Decidable (∀ b ∈ a.on id, ok (g.port id) b))

theorem powerOn_poweredOn (id : PortId) : ((@powerOn Pcb).port id).PoweredOn := by
  cases id <;> exact ⟨⟨rfl, rfl, rfl, rfl, rfl⟩, rfl, rfl⟩

theorem step_of {g : Gateway Pcb} {id : PortId} {b : PortAct Pcb} {s : PortState id.bufSize Pcb}
    (h : (g.port id).step b = some s)
    : ∃ g', g.step (Act.of id b) = some g' ∧ g'.port id = s := by
  cases id with
  | rs232 =>
    cases b with
    | rx dr => exact ⟨_, rfl, Option.some.inj h⟩
    | tick => exact ⟨_, rfl, Option.some.inj h⟩
    | task visits => exact ⟨{ g with rs232 := s }, Option.map_eq_some_iff.mpr ⟨s, h, rfl⟩, rfl⟩
  | rs485 =>
    cases b with
    | rx dr => exact ⟨_, rfl, Option.some.inj h⟩
    | tick => exact ⟨_, rfl, Option.some.inj h⟩
    | task visits => exact ⟨{ g with rs485 := s }, Option.map_eq_some_iff.mpr ⟨s, h, rfl⟩, rfl⟩

theorem run_of {g : Gateway Pcb} {id : PortId} {bs : List (PortAct Pcb)}
    {s : PortState id.bufSize Pcb} (h : run PortState.step (g.port id) bs = some s)
    : ∃ g', run step g (bs.map (Act.of id)) = some g' ∧ g'.port id = s := by
  induction bs generalizing g with
  | nil => exact ⟨g, rfl, Option.some.inj h⟩
  | cons b bs ih =>
    rcases run_cons_eq_some.mp h with ⟨s', hs', hrun⟩
    rcases step_of hs' with ⟨g', hg', rfl⟩
    rcases ih hrun with ⟨g'', hg'', heq⟩
    exact ⟨g'', run_cons_eq_some.mpr ⟨g', hg', hg''⟩, heq⟩

end Gateway

end SerialGateway
