import SerialGateway.Os.KernelReady

/-!
This module contains the proof that delays and timeouts of `n` ticks end at the `n`-th tick, whatever the other tasks
and the interrupts do in between.
-/

namespace SerialGateway

def KernelTcb.tick (t : KernelTcb) : KernelTcb :=
  if t.osTcbDly ≠ 0 then
    if t.osTcbDly - 1 = 0 then
      { t with osTcbDly := 0, statSem := false, osTcbStatPend := if t.statSem then .to else .ok }
    else
      { t with osTcbDly := t.osTcbDly - 1 }
  else
    t

theorem KernelTcb.tick_of_lt {t : KernelTcb} (h : 1 < t.osTcbDly)
    : t.tick = { t with osTcbDly := t.osTcbDly - 1 } := by
  unfold tick
  rw [if_pos (by omega), if_neg (by omega)]

theorem KernelTcb.tick_of_eq {t : KernelTcb} (h : t.osTcbDly = 1)
    : t.tick = { t with osTcbDly := 0, statSem := false, osTcbStatPend := if t.statSem then .to else .ok } := by
  unfold tick
  rw [if_pos (by omega), if_pos (by omega)]

/--
What keeps the delay of a task with control block `t` from running its course: `OSTimeDlyResume`, a suspension, or a
post or an abort of the semaphore it waits for.
-/
def KernelAct.Disturbs (p : Nat) (t : KernelTcb) : KernelAct → Prop
  | .call (.timeDlyResume prio) => prio = p
  | .call (.taskSuspend prio) => prio = p
  | .call (.semPost e) => t.osTcbEventPtr = some e
  | .call (.semPendAbort e _) => t.osTcbEventPtr = some e
  | _ => False

namespace Kernel

variable {s s' : Kernel} {p q e : Nat} {t t' : KernelTcb}

theorem tickTcb_osTcbPrioTbl (s : Kernel) (q : Nat)
    : (s.tickTcb q).osTcbPrioTbl =
      Function.update s.osTcbPrioTbl q ((s.osTcbPrioTbl q).map KernelTcb.tick) := by
  unfold tickTcb
  split
  . next hnone => rw [hnone, Option.map_none, ← hnone, Function.update_eq_self]
  . next t ht =>
    rw [ht, Option.map_some]
    unfold KernelTcb.tick
    split
    . split
      . rw [endDly_eq]
      . rfl
    . rw [← ht, Function.update_eq_self]

theorem osTimeTick_osTcbPrioTbl (h : s.Tidy)
    : s.osTimeTick.osTcbPrioTbl p =
      if p = osLowestPrio then s.osTcbPrioTbl p else (s.osTcbPrioTbl p).map KernelTcb.tick := by
  have hfold : ∀ (ps : List Nat) (s : Kernel), ps.Nodup → (ps.foldl tickTcb s).osTcbPrioTbl p =
      if p ∈ ps then (s.osTcbPrioTbl p).map KernelTcb.tick else s.osTcbPrioTbl p := by
    intro ps
    induction ps with
    | nil =>
      intro s _
      rfl
    | cons q ps ih =>
      intro s hnodup
      obtain ⟨hq, hps⟩ := List.nodup_cons.mp hnodup
      rw [List.foldl_cons, ih _ hps, tickTcb_osTcbPrioTbl]
      by_cases heq : p = q
      . subst heq
        rw [if_neg hq, if_pos List.mem_cons_self, Function.update_self]
      . rw [Function.update_of_ne heq]
        simp only [List.mem_cons, heq, false_or]
  unfold osTimeTick
  rw [hfold _ _ h.nodup]
  by_cases hlow : p = osLowestPrio
  . rw [if_pos hlow, if_neg]
    intro hmem
    exact ((h.listed p).mp hmem).1 hlow
  . rw [if_neg hlow]
    split
    . rfl
    . next hout =>
      rw [h.listed] at hout
      cases hp : s.osTcbPrioTbl p with
      | none => rfl
      | some t => exact absurd ⟨hlow, by simp [hp]⟩ hout

theorem Inv.current_dly (h : s.Inv) (hint : s.osIntNesting = 0) (ht : s.osTcbPrioTbl s.osPrioCur = some t)
    : t.osTcbDly = 0 := by
  obtain ⟨u, hu, hbusy⟩ := h.current
  rw [ht, Option.some.injEq] at hu
  subst hu
  by_cases hlock : s.osLockNesting = 0
  . have hmem := TwoLevel.first_mem h.rdy_grp
    rw [← h.cur hint hlock, h.rdy_of_tcb ht] at hmem
    exact hmem.2.2
  . exact (hbusy hlock).2

theorem Inv.ne_current (h : s.Inv) (hint : s.osIntNesting = 0) (ht : s.osTcbPrioTbl p = some t)
    (hdly : t.osTcbDly ≠ 0)
    : p ≠ s.osPrioCur := by
  rintro rfl
  exact hdly (h.current_dly hint ht)

theorem osEventTaskRdy_frame {stat : StatPend} (h : s.Sound) (hgrp : (s.sems e).waiters.grp ≠ 0)
    (ht : s.osTcbPrioTbl p = some t) (hptr : t.osTcbEventPtr ≠ some e)
    : (s.osEventTaskRdy e stat).osTcbPrioTbl p = some t := by
  obtain ⟨u, hu, hwaits, -⟩ := h.waiter hgrp
  rw [osEventTaskRdy_eq hgrp hu]
  dsimp only
  rw [Function.update_of_ne, ht]
  rintro rfl
  rw [ht, Option.some.injEq] at hu
  rw [hu] at hptr
  exact hptr hwaits.1

theorem abortAll_frame (h : s.Sound) (ht : s.osTcbPrioTbl p = some t) (hptr : t.osTcbEventPtr ≠ some e) (fuel : Nat)
    : (abortAll e fuel s).osTcbPrioTbl p = some t := by
  induction fuel generalizing s with
  | zero => exact ht
  | succ fuel ih =>
    unfold abortAll
    split
    . next hgrp =>
      apply ih
      . apply h.osEventTaskRdy hgrp
        simp
      . exact osEventTaskRdy_frame h hgrp ht hptr
    . exact ht

theorem service_frame {c : KernelCall} (h : s.Inv) (hmay : s.MayCall c) (ht : s.osTcbPrioTbl p = some t)
    (hdly : t.osTcbDly ≠ 0) (hsusp : t.statSuspend = false) (hnot : ¬ (KernelAct.call c).Disturbs p t)
    : (s.service c).osTcbPrioTbl p = some t := by
  cases c with
  | schedLock => rw [service, osSchedLock_osTcbPrioTbl, ht]
  | schedUnlock =>
    unfold service osSchedUnlock
    dsimp only
    split
    . rw [osSched_osTcbPrioTbl, ht]
    . exact ht
  | semPend e timeout =>
    unfold service osSemPend
    dsimp only
    split
    . exact ht
    . next hint =>
      have hne := h.ne_current (Nat.eq_zero_of_not_pos hint) ht hdly
      split
      . exact ht
      . split
        . exact ht
        . split
          . exact ht
          . rw [osSched_osTcbPrioTbl]
            exact (Function.update_of_ne hne _ _).trans ht
  | semPost e =>
    unfold service osSemPost
    dsimp only
    split
    . next hgrp =>
      rw [osSched_osTcbPrioTbl]
      exact osEventTaskRdy_frame h.toSound hgrp ht hnot
    . split
      . exact ht
      . exact ht
  | semAccept e =>
    unfold service osSemAccept
    dsimp only
    split
    . exact ht
    . exact ht
  | semPendAbort e broadcast =>
    unfold service osSemPendAbort
    dsimp only
    split
    . next hgrp =>
      split
      . rw [osSched_osTcbPrioTbl]
        exact abortAll_frame h.toSound ht hnot 64
      . rw [osSched_osTcbPrioTbl]
        exact osEventTaskRdy_frame h.toSound hgrp ht hnot
    . exact ht
  | timeDly ticks =>
    unfold service osTimeDly
    dsimp only
    split
    . exact ht
    . next hint =>
      have hne := h.ne_current (Nat.eq_zero_of_not_pos hint) ht hdly
      split
      . exact ht
      . split
        . split
          . exact ht
          . rw [osSched_osTcbPrioTbl]
            exact (Function.update_of_ne hne _ _).trans ht
        . exact ht
  | timeDlyResume prio =>
    have hne : p ≠ prio := fun heq => hnot heq.symm
    unfold service osTimeDlyResume
    dsimp only
    split
    . exact ht
    . split
      . exact ht
      . split
        . exact ht
        . split
          . rw [endDly_eq]
            exact (Function.update_of_ne hne _ _).trans ht
          . rw [osSched_osTcbPrioTbl, endDly_eq]
            exact (Function.update_of_ne hne _ _).trans ht
  | taskSuspend prio =>
    have hne : p ≠ if prio = osPrioSelf then s.osPrioCur else prio := by
      split
      . next hself =>
        by_cases hint : s.osIntNesting = 0
        . exact h.ne_current hint ht hdly
        . unfold MayCall at hmay
          rw [if_pos (by omega), hself] at hmay
          contradiction
      . exact fun heq => hnot heq.symm
    unfold service osTaskSuspend
    dsimp only
    split
    . exact ht
    . split
      . exact ht
      . generalize (if prio = osPrioSelf then s.osPrioCur else prio) = prio' at hne
        split
        . exact ht
        . split
          . rw [osSched_osTcbPrioTbl]
            exact (Function.update_of_ne hne _ _).trans ht
          . exact (Function.update_of_ne hne _ _).trans ht
  | taskResume prio =>
    unfold service osTaskResume
    dsimp only
    split
    . exact ht
    . split
      . exact ht
      . next u hu =>
        split
        . next hsusp' =>
          have hne : p ≠ prio := by
            rintro rfl
            rw [ht, Option.some.injEq] at hu
            rw [← hu, hsusp] at hsusp'
            contradiction
          split
          . rw [osSched_osTcbPrioTbl]
            exact (Function.update_of_ne hne _ _).trans ht
          . exact (Function.update_of_ne hne _ _).trans ht
        . exact ht
  | taskCreate prio =>
    unfold service
    dsimp only
    rcases osTaskCreate_cases s true prio with hsame | ⟨-, hnone, hfree, hnew⟩
    . rw [hsame, ht]
    . have hne : p ≠ prio := by
        rintro rfl
        rw [hnone] at ht
        contradiction
      rw [hnew, if_pos rfl, osSched_osTcbPrioTbl]
      unfold osTcbInit
      rw [if_pos hfree]
      exact (Function.update_of_ne hne _ _).trans ht

theorem step_frame {a : KernelAct} (h : s.Inv) (hstep : s.step a = some s') (ht : s.osTcbPrioTbl p = some t)
    (hdly : t.osTcbDly ≠ 0) (hsusp : t.statSuspend = false) (hnot : ¬ a.Disturbs p t) (htick : a ≠ .timeTick)
    : s'.osTcbPrioTbl p = some t := by
  cases a with
  | intEnter =>
    rw [step, Option.some.injEq] at hstep
    rw [← hstep]
    unfold osIntEnter
    split
    . exact ht
    . exact ht
  | intExit =>
    rw [step, Option.ite_none_right_eq_some, Option.some.injEq] at hstep
    rw [← hstep.2]
    unfold osIntExit
    rw [osSched_osTcbPrioTbl]
    split
    . exact ht
    . exact ht
  | timeTick => contradiction
  | pendReturn =>
    rw [step, Option.ite_none_right_eq_some, Option.map_eq_some_iff] at hstep
    obtain ⟨hint, ⟨s₁, err⟩, hret, rfl⟩ := hstep
    have hne := h.ne_current hint ht hdly
    obtain ⟨u, e, -, -, hcase⟩ := osSemPendReturn_cases hret
    rcases hcase with ⟨-, -, rfl⟩ | ⟨-, -, rfl⟩ | ⟨-, -, rfl⟩
    . exact (Function.update_of_ne hne _ _).trans ht
    . exact (Function.update_of_ne hne _ _).trans ht
    . exact (Function.update_of_ne hne _ _).trans ht
  | call c =>
    rw [step, Option.ite_none_right_eq_some, Option.some.injEq] at hstep
    rw [← hstep.2]
    exact service_frame h hstep.1 ht hdly hsusp hnot

theorem step_tick (h : s.Inv) (hstep : s.step .timeTick = some s') (ht : s.osTcbPrioTbl p = some t)
    (hdly : t.osTcbDly ≠ 0)
    : s'.osTcbPrioTbl p = some t.tick := by
  have hne : p ≠ osLowestPrio := by
    apply h.ne_idle ht (.inl _)
    intro hrun
    exact hdly hrun.2.2
  rw [step, Option.ite_none_right_eq_some, Option.some.injEq] at hstep
  rw [← hstep.2, osTimeTick_osTcbPrioTbl h.toTidy, if_neg hne, ht, Option.map_some]

theorem run_delay {as : List KernelAct} (h : s.Inv) (ht : s.osTcbPrioTbl p = some t) (hsusp : t.statSuspend = false)
    (hnot : ∀ a ∈ as, ¬ a.Disturbs p t) (hrun : Transition.run step s as = some s')
    (hlt : as.count .timeTick < t.osTcbDly)
    : s'.osTcbPrioTbl p = some { t with osTcbDly := t.osTcbDly - as.count .timeTick } := by
  induction as generalizing s t with
  | nil =>
    rw [Transition.run_nil, Option.some.injEq] at hrun
    rw [← hrun, ht]
    rfl
  | cons a as ih =>
    obtain ⟨s₁, hstep, hrun'⟩ := Transition.run_cons_eq_some.mp hrun
    have hnot' : ∀ b ∈ as, ¬ b.Disturbs p t := fun b hb => hnot b (List.mem_cons_of_mem a hb)
    by_cases htick : a = .timeTick
    . subst htick
      rw [List.count_cons_self] at hlt ⊢
      have ht₁ := step_tick h hstep ht (by omega)
      rw [KernelTcb.tick_of_lt (by omega)] at ht₁
      rw [ih (h.step hstep) ht₁ hsusp hnot' hrun']
      . dsimp only
        rw [Nat.sub_sub, Nat.add_comm 1]
      . dsimp only
        omega
    . rw [List.count_cons_of_ne htick] at hlt ⊢
      have ht₁ := step_frame h hstep ht (by omega) hsusp (hnot a List.mem_cons_self) htick
      exact ih (h.step hstep) ht₁ hsusp hnot' hrun' hlt

theorem delay_exact {tcbs : Nat} {cnt : Nat → UInt16} {prios : List Nat} {as : List KernelAct}
    (hreach : Transition.Reachable step (osStart tcbs cnt prios) s) (ht : s.osTcbPrioTbl p = some t)
    (hsusp : t.statSuspend = false) (hnot : ∀ a ∈ as, ¬ a.Disturbs p t)
    (hrun : Transition.run step s as = some s')
    : (as.count .timeTick < t.osTcbDly →
        s'.osTcbPrioTbl p = some { t with osTcbDly := t.osTcbDly - as.count .timeTick } ∧ ¬ p ∈ s'.rdy) ∧
      (as.count .timeTick + 1 = t.osTcbDly → ∀ s'', s'.step .timeTick = some s'' →
        s''.osTcbPrioTbl p = some { t with
          osTcbDly := 0, statSem := false, osTcbStatPend := if t.statSem then .to else .ok } ∧ p ∈ s''.rdy) := by
  have h := inv_reachable hreach
  have h' : s'.Inv := by
    apply Transition.Reachable.invariant _ h ⟨as, hrun⟩
    intro s a s' h hstep
    exact h.step hstep
  constructor
  . intro hlt
    have ht' := run_delay h ht hsusp hnot hrun hlt
    refine ⟨ht', ?_⟩
    rw [h'.rdy_of_tcb ht']
    intro hready
    have hzero := hready.2.2
    dsimp only at hzero
    omega
  . intro hlast s'' hstep
    have ht' := run_delay h ht hsusp hnot hrun (by omega)
    have ht'' := step_tick h' hstep ht' (by dsimp only; omega)
    rw [KernelTcb.tick_of_eq (by dsimp only; omega)] at ht''
    refine ⟨ht'', ?_⟩
    rw [(h'.step hstep).rdy_of_tcb ht'']
    exact ⟨rfl, hsusp, rfl⟩

theorem delay_exact_of_timeout
    : ∃ s t s', Transition.run step (osStart 20 (fun _ => 0) [10, 20]) [.call (.semPend 0 2)] = some s ∧
      s.osTcbPrioTbl 10 = some t ∧
      Transition.run step s [.intEnter, .timeTick, .intExit, .call (.semPost 1), .intEnter] = some s' ∧
      ∀ s'', s'.step .timeTick = some s'' →
        s''.osTcbPrioTbl 10 = some { t with
          osTcbDly := 0, statSem := false, osTcbStatPend := if t.statSem then .to else .ok } ∧ 10 ∈ s''.rdy := by
  have hrun : Transition.run step (osStart 20 (fun _ => 0) [10, 20]) [.call (.semPend 0 2)] = some _ := rfl
  have hrun' : Transition.run step ((osStart 20 (fun _ => 0) [10, 20]).osSemPend 0 2).1
      [.intEnter, .timeTick, .intExit, .call (.semPost 1), .intEnter] = some _ := rfl
  refine ⟨_, _, _, hrun, rfl, hrun', ?_⟩
  refine (delay_exact ⟨_, hrun⟩ rfl rfl ?_ hrun').2 rfl
  intro a ha
  simp only [List.mem_cons, List.not_mem_nil, or_false] at ha
  rcases ha with rfl | rfl | rfl | rfl | rfl
  all_goals simp [KernelAct.Disturbs]

end Kernel

end SerialGateway
