import Mathlib.Data.List.Induction
import SerialGateway.Serial.Frames

/-!
This module contains how long a port was silent when the timer closes a frame.
-/

open Transition

namespace SerialGateway

variable {Pcb : Type}

theorem PortState.openFrame_task {size : Nat} {s s' : PortState size Pcb} {visits : List Pcb}
    (hstep : s.task visits = some s')
    : openFrame s'.log = openFrame s.log := by
  cases taskStep_of_task hstep with
  | write pcb todo hpc => simp
  | passDone hpc => simp
  | _ => rfl

namespace Gateway

def bytesReceived (id : PortId) (acts : List (Act Pcb)) : List UInt8 :=
  acts.filterMap fun a =>
    match a.on id with
    | some (.rx dr) => some dr
    | _ => none

def sinceTick (id : PortId) (acts : List (Act Pcb)) : List UInt8 :=
  acts.foldl (fun bytes a =>
    match a.on id with
    | some (.rx dr) => bytes ++ [dr]
    | some .tick => []
    | _ => bytes) []

section Concat

variable {id : PortId} {acts : List (Act Pcb)} {a : Act Pcb}

theorem sinceTick_rx {dr : UInt8} (h : a.on id = some (.rx dr))
    : sinceTick id (acts ++ [a]) = sinceTick id acts ++ [dr] := by
  simp [sinceTick, h]

theorem sinceTick_tick (h : a.on id = some .tick) : sinceTick id (acts ++ [a]) = [] := by
  simp [sinceTick, h]

theorem sinceTick_task {visits : List Pcb} (h : a.on id = some (.task visits))
    : sinceTick id (acts ++ [a]) = sinceTick id acts := by
  simp [sinceTick, h]

theorem sinceTick_none (h : a.on id = none)
    : sinceTick id (acts ++ [a]) = sinceTick id acts := by
  simp [sinceTick, h]

theorem bytesReceived_rx {dr : UInt8} (h : a.on id = some (.rx dr))
    : bytesReceived id (acts ++ [a]) = bytesReceived id acts ++ [dr] := by
  simp [bytesReceived, h]

theorem bytesReceived_concat (h : ∀ dr, a.on id ≠ some (.rx dr))
    : bytesReceived id (acts ++ [a]) = bytesReceived id acts := by
  unfold bytesReceived
  rw [List.filterMap_append]
  cases hon : a.on id with
  | none => simp [hon]
  | some b =>
    cases b with
    | rx dr => exact absurd hon (h dr)
    | tick | task visits => simp [hon]

theorem eq_tim2_of_on (h : a.on id = some .tick) : a = .tim2 := by
  cases a with
  | tim2 => rfl
  | usart1 dr | usart2 dr | rs232Task visits | rs485Task visits => cases id <;> cases h

end Concat

def SilentClosings (id : PortId) (acts : List (Act Pcb)) : Prop :=
  ∀ pre g, pre ++ [.tim2] <+: acts → run step powerOn pre = some g →
    (g.port id).port.timeout.2 = true → sinceTick id pre = []

def NoByteBeforeTick (id : PortId) (acts : List (Act Pcb)) : Prop :=
  ∀ pre, pre ++ [.tim2] <+: acts → bytesReceived id pre = []

theorem bytesReceived_eq_nil {id : PortId} {acts : List (Act Pcb)}
    (hticks : ∀ pre, pre ++ [.tim2] <+: acts → sinceTick id pre = [])
    (h : sinceTick id acts = [])
    : bytesReceived id acts = [] := by
  induction acts using List.reverseRecOn with
  | nil => rfl
  | append_singleton acts a ih =>
    have hticks' : ∀ pre, pre ++ [.tim2] <+: acts → sinceTick id pre = [] :=
      fun pre hpre => hticks pre (hpre.trans (List.prefix_append acts [a]))
    cases hon : a.on id with
    | none =>
      rw [sinceTick_none hon] at h
      rw [bytesReceived_concat (by simp [hon])]
      exact ih hticks' h
    | some b =>
      cases b with
      | rx dr => simp [sinceTick_rx hon] at h
      | tick =>
        cases eq_tim2_of_on hon
        rw [bytesReceived_concat (by simp [hon])]
        apply ih
        . exact hticks'
        . exact hticks acts (List.prefix_refl _)
      | task visits =>
        rw [sinceTick_task hon] at h
        rw [bytesReceived_concat (by simp [hon])]
        exact ih hticks' h

theorem sinceTick_suffix (id : PortId) (acts : List (Act Pcb))
    : sinceTick id acts <:+ bytesReceived id acts := by
  induction acts using List.reverseRecOn with
  | nil => exact List.suffix_refl _
  | append_singleton acts a ih =>
    cases hon : a.on id with
    | none =>
      rw [sinceTick_none hon, bytesReceived_concat (by simp [hon])]
      exact ih
    | some b =>
      cases b with
      | rx dr =>
        rw [sinceTick_rx hon, bytesReceived_rx hon]
        rcases ih with ⟨before, hbefore⟩
        exact ⟨before, by rw [← List.append_assoc, hbefore]⟩
      | tick =>
        rw [sinceTick_tick hon]
        exact List.nil_suffix
      | task visits =>
        rw [sinceTick_task hon, bytesReceived_concat (by simp [hon])]
        exact ih

theorem run_concat_eq_some {acts : List (Act Pcb)} {a : Act Pcb} {g₀ g : Gateway Pcb}
    : run step g₀ (acts ++ [a]) = some g
        ↔ ∃ g', run step g₀ acts = some g' ∧ step g' a = some g := by
  rw [run_append, Option.bind_eq_some_iff]
  simp

theorem openFrame_eq_sinceTick (id : PortId) {acts : List (Act Pcb)} {g : Gateway Pcb}
    (hrun : run step powerOn acts = some g)
    : (g.port id).Timed ∧ openFrame (g.port id).log = sinceTick id acts := by
  induction acts using List.reverseRecOn generalizing g with
  | nil =>
    rcases @powerOn_poweredOn Pcb id with ⟨⟨-, hflag, -, -, -⟩, -, hlog⟩
    rw [run_nil, Option.some.injEq] at hrun
    have hopen : openFrame ((@powerOn Pcb).port id).log = [] := by
      rw [hlog]
      rfl
    rw [← hrun]
    exact ⟨.inr ⟨hflag, hopen⟩, hopen⟩
  | append_singleton acts a ih =>
    rcases run_concat_eq_some.mp hrun with ⟨g', hrun', hstep⟩
    rcases ih hrun' with ⟨htimed, hopen⟩
    have hproj := projects id g' a g hstep
    cases hon : a.on id with
    | none =>
      rw [hon] at hproj
      dsimp only at hproj
      rw [hproj, sinceTick_none hon]
      exact ⟨htimed, hopen⟩
    | some b =>
      rw [hon] at hproj
      dsimp only at hproj
      cases b with
      | rx dr =>
        have hrx : g.port id = (g'.port id).rx dr := (Option.some.inj hproj).symm
        rw [hrx, sinceTick_rx hon, PortState.rx_log, openFrame_rx, hopen]
        exact ⟨.rx id.le_bufSize _ dr, rfl⟩
      | tick =>
        have htick : g.port id = (g'.port id).tick := (Option.some.inj hproj).symm
        rw [htick, sinceTick_tick hon, PortState.tick_log]
        refine ⟨htimed.tick, ?_⟩
        split
        . apply openFrame_closed
        . next hposts => simpa using mt htimed.posts_iff.mpr hposts
      | task visits =>
        rw [sinceTick_task hon, ← hopen]
        exact ⟨htimed.task hproj, PortState.openFrame_task hproj⟩

theorem closes_iff (id : PortId) {acts : List (Act Pcb)} {g : Gateway Pcb}
    (hrun : run step powerOn acts = some g)
    : (g.port id).port.timeout.2 = true ↔ sinceTick id acts ≠ [] := by
  rcases openFrame_eq_sinceTick id hrun with ⟨htimed, hopen⟩
  rw [htimed.posts_iff, hopen]

theorem run_prefix {acts pre : List (Act Pcb)} {g : Gateway Pcb}
    (hrun : run step powerOn acts = some g) (hpre : pre ++ [.tim2] <+: acts)
    : ∃ g', run step powerOn pre = some g' := by
  rcases hpre with ⟨post, rfl⟩
  rw [List.append_assoc, run_append, Option.bind_eq_some_iff] at hrun
  rcases hrun with ⟨g', hrun', -⟩
  exact ⟨g', hrun'⟩

theorem silentClosings_iff (id : PortId) {acts : List (Act Pcb)} {g : Gateway Pcb}
    (hrun : run step powerOn acts = some g)
    : SilentClosings id acts ↔ NoByteBeforeTick id acts := by
  constructor
  . intro h
    have hticks : ∀ pre, pre ++ [.tim2] <+: acts → sinceTick id pre = [] := by
      intro pre hpre
      rcases run_prefix hrun hpre with ⟨g', hrun'⟩
      by_contra hbytes
      apply hbytes
      exact h pre g' hpre hrun' ((closes_iff id hrun').mpr hbytes)
    intro pre hpre
    apply bytesReceived_eq_nil
    . intro pre' hpre'
      apply hticks pre'
      exact hpre'.trans ((List.prefix_append _ _).trans hpre)
    . exact hticks pre hpre
  . intro h pre g' hpre hrun' hcloses
    have hsuffix := sinceTick_suffix id pre
    rw [h pre hpre] at hsuffix
    exact List.suffix_nil.mp hsuffix

theorem silentClosings_iff_idle
    : SilentClosings .rs485 [(.tim2 : Act Nat), .usart2 0x41, .usart1 0x42]
        ↔ NoByteBeforeTick .rs485 [(.tim2 : Act Nat), .usart2 0x41, .usart1 0x42] :=
  silentClosings_iff .rs485 (Option.some_get (by decide)).symm

def splitFrame : List (Act Nat) := [.usart2 0x41, .tim2, .usart2 0x42, .tim2]

theorem not_silentClosings_splitFrame
    : (∃ g, run step powerOn splitFrame = some g
        ∧ closedFrames (g.port .rs232).log = [[0x41], [0x42]])
      ∧ ¬ SilentClosings .rs232 splitFrame := by
  refine ⟨⟨(run step powerOn splitFrame).get (by decide), (Option.some_get _).symm, by decide⟩, ?_⟩
  intro h
  have hrun : run step powerOn [.usart2 0x41] = some (usart2IRQHandler (@powerOn Nat) 0x41) := rfl
  have hsilent := h [.usart2 0x41] _ ⟨[.usart2 0x42, .tim2], rfl⟩ hrun (by decide)
  simp [sinceTick, Act.on] at hsilent

end Gateway

end SerialGateway
