import SerialGateway.Lib.Tally
import SerialGateway.Os.KernelReady

/-!
This module contains the proof that no token of a semaphore is lost or doubled: what was in it at the start and what
has been posted is still in it, handed to a task that has yet to run, or taken.
-/

namespace SerialGateway

def KernelTcb.Granted (t : KernelTcb) (e : Nat) : Prop :=
  t.osTcbEventPtr = some e ∧ t.statSem = false ∧ t.osTcbStatPend = .ok

instance (t : KernelTcb) (e : Nat) : Decidable (t.Granted e) := inferInstanceAs (Decidable (_ ∧ _ ∧ _))

theorem KernelTcb.Waits.not_granted {t : KernelTcb} {e e' : Nat} (h : t.Waits e) : ¬ t.Granted e' := by
  rintro ⟨-, hsem, hok⟩
  rcases h.2 with hsem' | hto
  . rw [hsem] at hsem'
    contradiction
  . rw [hok] at hto
    contradiction

namespace Kernel

def granted (s : Kernel) (e : Nat) : Nat := tally 64 (fun t => t.any (·.Granted e)) s.osTcbPrioTbl

def tokens (s : Kernel) (e : Nat) : Nat := (s.sems e).osEventCnt.toNat + s.granted e + s.log.count (.taken e)

def posted (s : Kernel) (e : Nat) : Nat := s.log.count (.posted e)

def Balanced (s s' : Kernel) : Prop := ∀ e, s'.tokens e + s.posted e = s.tokens e + s'.posted e

variable {s s' s'' : Kernel} {p e : Nat} {t t' : KernelTcb}

theorem Balanced.refl (s : Kernel) : s.Balanced s := fun _ => rfl

theorem Balanced.trans (h : s.Balanced s') (h' : s'.Balanced s'') : s.Balanced s'' := by
  intro e
  have h₁ := h e
  have h₂ := h' e
  omega

theorem Balanced.congr (htcb : s'.osTcbPrioTbl = s.osTcbPrioTbl)
    (hcnt : ∀ e, (s'.sems e).osEventCnt = (s.sems e).osEventCnt)
    (hlog : s'.log = s.log)
    : s.Balanced s' := by
  intro e
  unfold tokens posted granted
  rw [htcb, hcnt, hlog]

theorem granted_change (ht : s.osTcbPrioTbl p = some t) (hp : p < 64)
    (htcb : s'.osTcbPrioTbl = Function.update s.osTcbPrioTbl p (some t')) (e : Nat)
    : s'.granted e + (if t.Granted e then 1 else 0) = s.granted e + if t'.Granted e then 1 else 0 := by
  have h := tally_update (P := fun t => t.any (·.Granted e)) (f := s.osTcbPrioTbl) (v := some t') hp
  unfold granted
  rw [htcb]
  simpa [ht] using h

theorem Balanced.changeTcb (ht : s.osTcbPrioTbl p = some t) (hp : p < 64)
    (htcb : s'.osTcbPrioTbl = Function.update s.osTcbPrioTbl p (some t'))
    (hcnt : ∀ e, (s'.sems e).osEventCnt = (s.sems e).osEventCnt) (hlog : s'.log = s.log)
    (hgrant : ∀ e, t'.Granted e ↔ t.Granted e)
    : s.Balanced s' := by
  intro e
  have h := granted_change ht hp htcb e
  simp only [hgrant] at h
  unfold tokens posted
  rw [hcnt, hlog]
  omega

theorem balanced_osSched (s : Kernel) : s.Balanced (osSched s) := by
  apply Balanced.congr
  . rw [osSched_osTcbPrioTbl]
  . intro e
    rw [osSched_sems]
  . rw [osSched_log]

theorem count_taken (l : List TokenEvent) (e e' : Nat)
    : (l ++ [TokenEvent.taken e]).count (.taken e') = l.count (.taken e') + if e = e' then 1 else 0 := by
  simp [List.count_append, List.count_singleton]

theorem count_posted (l : List TokenEvent) (e e' : Nat)
    : (l ++ [TokenEvent.posted e]).count (.posted e') = l.count (.posted e') + if e = e' then 1 else 0 := by
  simp [List.count_append, List.count_singleton]

theorem count_taken_posted (l : List TokenEvent) (e e' : Nat)
    : (l ++ [TokenEvent.posted e]).count (.taken e') = l.count (.taken e') := by
  simp [List.count_append]

theorem count_posted_taken (l : List TokenEvent) (e e' : Nat)
    : (l ++ [TokenEvent.taken e]).count (.posted e') = l.count (.posted e') := by
  simp [List.count_append]

theorem balanced_take (hcnt : (s.sems e).osEventCnt > 0)
    : s.Balanced { s.setSem e { s.sems e with osEventCnt := (s.sems e).osEventCnt - 1 } with
        log := s.log ++ [.taken e] } := by
  intro e'
  change (Function.update s.sems e _ e').osEventCnt.toNat + s.granted e' +
      (s.log ++ [TokenEvent.taken e]).count (TokenEvent.taken e') + s.log.count (TokenEvent.posted e') =
    (s.sems e').osEventCnt.toNat + s.granted e' + s.log.count (TokenEvent.taken e') +
      (s.log ++ [TokenEvent.taken e]).count (TokenEvent.posted e')
  rw [count_taken, count_posted_taken, Function.update_apply]
  by_cases heq : e' = e
  . subst heq
    have hle : 1 ≤ (s.sems e').osEventCnt := by
      rw [UInt16.le_iff_toNat_le]
      exact UInt16.lt_iff_toNat_lt.mp hcnt
    have hpos := UInt16.le_iff_toNat_le.mp hle
    rw [if_pos rfl, if_pos rfl, UInt16.toNat_sub_of_le _ _ hle]
    simp only [UInt16.toNat_one] at hpos ⊢
    omega
  . rw [if_neg heq, if_neg (Ne.symm heq), Nat.add_zero]

theorem balanced_osSemAccept (s : Kernel) (e : Nat) : s.Balanced (s.osSemAccept e).1 := by
  unfold osSemAccept
  dsimp only
  split
  . next hcnt => exact balanced_take hcnt
  . exact .refl s

theorem tokens_osEventTaskRdy (stat : StatPend) (h : s.Sound) (hgrp : (s.sems e).waiters.grp ≠ 0) (e' : Nat)
    : (s.osEventTaskRdy e stat).tokens e' = s.tokens e' + (if stat = .ok ∧ e = e' then 1 else 0) ∧
      (s.osEventTaskRdy e stat).log = s.log := by
  obtain ⟨t, ht, hwaits, -⟩ := h.waiter hgrp
  have htcb : (s.osEventTaskRdy e stat).osTcbPrioTbl = Function.update s.osTcbPrioTbl (s.sems e).waiters.first
      (some { t with osTcbDly := 0, statSem := false, osTcbStatPend := stat }) := by
    rw [osEventTaskRdy_eq hgrp ht]
  have hgrant := granted_change ht (h.prio _ _ ht) htcb e'
  have hcnt : ((s.osEventTaskRdy e stat).sems e').osEventCnt = (s.sems e').osEventCnt := by
    rw [osEventTaskRdy_eq hgrp ht]
    change (Function.update s.sems e _ e').osEventCnt = _
    rw [Function.update_apply]
    split
    . next heq => rw [heq]
    . rfl
  have hlog : (s.osEventTaskRdy e stat).log = s.log := by rw [osEventTaskRdy_eq hgrp ht]
  have hiff : { t with osTcbDly := 0, statSem := false, osTcbStatPend := stat }.Granted e' ↔ stat = .ok ∧ e = e' := by
    simp [KernelTcb.Granted, hwaits.1, and_comm]
  rw [if_neg hwaits.not_granted] at hgrant
  simp only [hiff] at hgrant
  refine ⟨?_, hlog⟩
  unfold tokens
  rw [hcnt, hlog]
  omega

theorem balanced_osEventTaskRdy_abort (h : s.Sound) (hgrp : (s.sems e).waiters.grp ≠ 0)
    : s.Balanced (s.osEventTaskRdy e .abort) := by
  intro e'
  obtain ⟨htokens, hlog⟩ := tokens_osEventTaskRdy .abort h hgrp e'
  unfold posted
  rw [htokens, hlog]
  simp

theorem balanced_osEventTaskWait (h : s.Sound) {timeout : Nat} (ht : s.osTcbPrioTbl s.osPrioCur = some t)
    (hptr : t.osTcbEventPtr = none)
    : s.Balanced (s.osEventTaskWait { t with statSem := true, osTcbStatPend := .ok, osTcbDly := timeout } e) := by
  refine Balanced.changeTcb ht (h.prio _ _ ht) rfl ?_ ?_ ?_
  . intro e'
    change (Function.update s.sems e _ e').osEventCnt = _
    rw [Function.update_apply]
    split
    . next heq => rw [heq]
    . rfl
  . rfl
  . intro e'
    simp [KernelTcb.Granted, hptr]

theorem balanced_osSemPend {timeout : Nat} (h : s.Inv)
    (hout : s.osIntNesting = 0 → ∀ t, s.osTcbPrioTbl s.osPrioCur = some t → t.osTcbEventPtr = none)
    : s.Balanced (s.osSemPend e timeout).1 := by
  unfold osSemPend
  dsimp only
  split
  . exact .refl s
  . next hint =>
    split
    . exact .refl s
    . split
      . next hcnt => exact balanced_take hcnt
      . obtain ⟨t, ht, -⟩ := h.current
        rw [ht]
        refine .trans ?_ (balanced_osSched _)
        exact balanced_osEventTaskWait h.toSound ht (hout (Nat.eq_zero_of_not_pos hint) t ht)

theorem balanced_osSemPendReturn {err : KernelErr} (h : s.Inv) (hint : s.osIntNesting = 0)
    (hret : s.osSemPendReturn = some (s', err))
    : s.Balanced s' := by
  obtain ⟨t, e, ht, hptr, hcase⟩ := osSemPendReturn_cases hret
  obtain ⟨-, hrun⟩ := h.pending_runnable hint ht (by simp [hptr])
  have hp := h.prio _ _ ht
  have hafter : ∀ e', ¬ t.afterPend.Granted e' := by
    intro e'
    simp [KernelTcb.Granted, KernelTcb.afterPend]
  rcases hcase with ⟨hstat, -, rfl⟩ | ⟨hstat, -, rfl⟩ | ⟨hstat, -, rfl⟩
  . intro e'
    have hgrant := granted_change ht hp (setTcb_osTcbPrioTbl s s.osPrioCur t.afterPend) e'
    change (s.sems e').osEventCnt.toNat + (s.setTcb s.osPrioCur t.afterPend).granted e' +
        (s.log ++ [TokenEvent.taken e]).count (TokenEvent.taken e') + s.log.count (TokenEvent.posted e') =
      (s.sems e').osEventCnt.toNat + s.granted e' + s.log.count (TokenEvent.taken e') +
        (s.log ++ [TokenEvent.taken e]).count (TokenEvent.posted e')
    have hiff : t.Granted e' ↔ e = e' := by simp [KernelTcb.Granted, hptr, hrun.1, hstat]
    simp only [hiff, hafter, if_false] at hgrant
    rw [count_taken, count_posted_taken]
    omega
  . refine Balanced.changeTcb ht hp rfl ?_ ?_ ?_
    . intro e'
      rfl
    . rfl
    . intro e'
      apply iff_of_false (hafter e')
      simp [KernelTcb.Granted, hstat]
  . refine Balanced.changeTcb ht hp rfl ?_ ?_ ?_
    . intro e'
      change (Function.update s.sems e _ e').osEventCnt = _
      rw [Function.update_apply]
      split
      . next heq => rw [heq]
      . rfl
    . rfl
    . intro e'
      apply iff_of_false (hafter e')
      simp [KernelTcb.Granted, hstat]

theorem balanced_osSemPost (h : s.Inv) : s.Balanced (s.osSemPost e).1 := by
  unfold osSemPost
  dsimp only
  split
  . next hgrp =>
    refine .trans ?_ (balanced_osSched _)
    intro e'
    obtain ⟨htokens, hlog⟩ := tokens_osEventTaskRdy .ok h.toSound hgrp e'
    unfold tokens at htokens
    rw [hlog] at htokens
    change ((s.osEventTaskRdy e .ok).sems e').osEventCnt.toNat + (s.osEventTaskRdy e .ok).granted e' +
        (s.log ++ [TokenEvent.posted e]).count (TokenEvent.taken e') + s.log.count (TokenEvent.posted e') =
      (s.sems e').osEventCnt.toNat + s.granted e' + s.log.count (TokenEvent.taken e') +
        (s.log ++ [TokenEvent.posted e]).count (TokenEvent.posted e')
    rw [count_taken_posted, count_posted]
    simp only [true_and] at htokens
    omega
  . split
    . next hlt =>
      intro e'
      change (Function.update s.sems e _ e').osEventCnt.toNat + s.granted e' +
          (s.log ++ [TokenEvent.posted e]).count (TokenEvent.taken e') + s.log.count (TokenEvent.posted e') =
        (s.sems e').osEventCnt.toNat + s.granted e' + s.log.count (TokenEvent.taken e') +
          (s.log ++ [TokenEvent.posted e]).count (TokenEvent.posted e')
      rw [count_taken_posted, count_posted, Function.update_apply]
      by_cases heq : e' = e
      . subst heq
        rw [if_pos rfl, if_pos rfl]
        rw [UInt16.lt_iff_toNat_lt] at hlt
        simp only [UInt16.toNat_add, UInt16.toNat_ofNat] at hlt ⊢
        omega
      . rw [if_neg heq, if_neg (Ne.symm heq), Nat.add_zero]
    . exact .refl s

theorem balanced_abortAll (h : s.Sound) (fuel : Nat) : s.Balanced (abortAll e fuel s) := by
  induction fuel generalizing s with
  | zero => exact .refl s
  | succ fuel ih =>
    unfold abortAll
    split
    . next hgrp =>
      apply (balanced_osEventTaskRdy_abort h hgrp).trans
      apply ih
      apply h.osEventTaskRdy hgrp
      simp
    . exact .refl s

theorem balanced_osSemPendAbort (h : s.Inv) (broadcast : Bool) : s.Balanced (s.osSemPendAbort e broadcast).1 := by
  unfold osSemPendAbort
  split
  . next hgrp =>
    split
    . exact (balanced_abortAll h.toSound 64).trans (balanced_osSched _)
    . exact (balanced_osEventTaskRdy_abort h.toSound hgrp).trans (balanced_osSched _)
  . exact .refl s

theorem balanced_osTimeDly {ticks : Nat} (h : s.Inv) : s.Balanced (s.osTimeDly ticks) := by
  unfold osTimeDly
  split
  . exact .refl s
  . split
    . exact .refl s
    . split
      . obtain ⟨t, ht, -⟩ := h.current
        rw [ht]
        refine .trans ?_ (balanced_osSched _)
        apply Balanced.changeTcb ht (h.prio _ _ ht) rfl
        . intro e
          rfl
        . rfl
        . intro e
          rfl
      . exact .refl s

theorem balanced_endDly (h : s.Sound) (ht : s.osTcbPrioTbl p = some t) (hdly : t.osTcbDly ≠ 0)
    : s.Balanced (s.endDly p t) := by
  rw [endDly_eq]
  refine Balanced.changeTcb ht (h.prio _ _ ht) rfl ?_ ?_ ?_
  . intro e
    rfl
  . rfl
  . intro e
    rcases (h.sane _ _ ht).dly hdly with hsem | hnone
    . simp [KernelTcb.Granted, hsem]
    . simp [KernelTcb.Granted, hnone]

theorem balanced_tickTcb (h : s.Sound) (p : Nat) : s.Balanced (s.tickTcb p) := by
  unfold tickTcb
  split
  . exact .refl s
  . next t ht =>
    split
    . next hdly =>
      split
      . exact balanced_endDly h ht hdly
      . apply Balanced.changeTcb ht (h.prio _ _ ht) rfl
        . intro e
          rfl
        . rfl
        . intro e
          rfl
    . exact .refl s

theorem balanced_osTimeTick (h : s.Sound) : s.Balanced s.osTimeTick := by
  unfold osTimeTick
  generalize s.osTcbList = ps
  induction ps generalizing s with
  | nil => exact .refl s
  | cons p ps ih =>
    apply (balanced_tickTcb h p).trans
    exact ih (h.tickTcb p)

theorem balanced_osTimeDlyResume (h : s.Inv) (p : Nat) : s.Balanced (s.osTimeDlyResume p).1 := by
  unfold osTimeDlyResume
  split
  . exact .refl s
  . split
    . exact .refl s
    . next t ht =>
      split
      . exact .refl s
      . next hdly =>
        have hend := balanced_endDly h.toSound ht hdly
        split
        . exact hend
        . exact hend.trans (balanced_osSched _)

theorem balanced_osTaskSuspend (h : s.Inv) (p : Nat) : s.Balanced (s.osTaskSuspend p).1 := by
  unfold osTaskSuspend
  split
  . exact .refl s
  . split
    . exact .refl s
    . dsimp only
      generalize (if p = osPrioSelf then s.osPrioCur else p) = prio
      split
      . exact .refl s
      . next t ht =>
        have hsusp : s.Balanced { s.setTcb prio { t with statSuspend := true } with rdy := s.rdy.remove prio } := by
          apply Balanced.changeTcb ht (h.prio _ _ ht) rfl
          . intro e
            rfl
          . rfl
          . intro e
            rfl
        split
        . exact hsusp.trans (balanced_osSched _)
        . exact hsusp

theorem balanced_osTaskResume (h : s.Inv) (p : Nat) : s.Balanced (s.osTaskResume p).1 := by
  unfold osTaskResume
  split
  . exact .refl s
  . split
    . exact .refl s
    . next t ht =>
      split
      . have hres : s.Balanced (s.setTcb p { t with statSuspend := false }) := by
          apply Balanced.changeTcb ht (h.prio _ _ ht) rfl
          . intro e
            rfl
          . rfl
          . intro e
            rfl
        dsimp only
        split
        . refine .trans ?_ (balanced_osSched _)
          exact hres
        . exact hres
      . exact .refl s

theorem balanced_osTcbInit (hp : p < 64) (hnone : s.osTcbPrioTbl p = none) : s.Balanced (s.osTcbInit p).1 := by
  by_cases hfree : s.osTcbFree > 0
  . intro e
    have h := tally_update (P := fun t => t.any (·.Granted e)) (f := s.osTcbPrioTbl)
      (v := some { statSem := false, statSuspend := false, osTcbStatPend := .ok, osTcbDly := 0, osTcbEventPtr := none })
      hp
    have hgrant : s.granted e = ((s.osTcbInit p).1).granted e := by
      unfold granted osTcbInit
      rw [if_pos hfree]
      simpa [hnone, KernelTcb.Granted] using h.symm
    unfold tokens posted
    rw [hgrant]
    unfold osTcbInit
    rw [if_pos hfree]
    rfl
  . unfold osTcbInit
    rw [if_neg hfree]
    exact .refl s

theorem balanced_osTaskCreate (s : Kernel) (running : Bool) (p : Nat) : s.Balanced (s.osTaskCreate running p).1 := by
  rcases osTaskCreate_cases s running p with hsame | ⟨hp, hnone, -, hnew⟩
  . rw [hsame]
    exact .refl s
  . rw [hnew]
    split
    . exact (balanced_osTcbInit hp hnone).trans (balanced_osSched _)
    . exact balanced_osTcbInit hp hnone

theorem balanced_service {c : KernelCall} (h : s.Inv) (hmay : s.MayCall c) : s.Balanced (s.service c) := by
  cases c with
  | schedLock =>
    apply Balanced.congr
    . exact osSchedLock_osTcbPrioTbl s
    . intro e
      rw [service, osSchedLock_sems]
    . exact osSchedLock_log s
  | schedUnlock =>
    unfold service osSchedUnlock
    dsimp only
    split
    . refine .trans ?_ (balanced_osSched _)
      exact .congr rfl (fun _ => rfl) rfl
    . exact .refl s
  | semPend e timeout =>
    apply balanced_osSemPend h
    intro hint
    exact (hmay.outside hint).2
  | semPost e => exact balanced_osSemPost h
  | semAccept e => exact balanced_osSemAccept s e
  | semPendAbort e broadcast => exact balanced_osSemPendAbort h broadcast
  | timeDly ticks => exact balanced_osTimeDly h
  | timeDlyResume prio => exact balanced_osTimeDlyResume h prio
  | taskSuspend prio => exact balanced_osTaskSuspend h prio
  | taskResume prio => exact balanced_osTaskResume h prio
  | taskCreate prio => exact balanced_osTaskCreate s true prio

theorem balanced_step {a : KernelAct} (h : s.Inv) (hstep : s.step a = some s') : s.Balanced s' := by
  cases a with
  | intEnter =>
    rw [Kernel.step, Option.some.injEq] at hstep
    rw [← hstep]
    unfold osIntEnter
    split
    . exact .congr rfl (fun _ => rfl) rfl
    . exact .refl s
  | intExit =>
    rw [Kernel.step, Option.ite_none_right_eq_some, Option.some.injEq] at hstep
    rw [← hstep.2]
    unfold osIntExit
    refine .trans ?_ (balanced_osSched _)
    split
    . exact .congr rfl (fun _ => rfl) rfl
    . exact .refl s
  | timeTick =>
    rw [Kernel.step, Option.ite_none_right_eq_some, Option.some.injEq] at hstep
    rw [← hstep.2]
    exact balanced_osTimeTick h.toSound
  | pendReturn =>
    rw [Kernel.step, Option.ite_none_right_eq_some, Option.map_eq_some_iff] at hstep
    obtain ⟨hint, ⟨s₁, err⟩, hret, rfl⟩ := hstep
    exact balanced_osSemPendReturn h hint hret
  | call c =>
    rw [Kernel.step, Option.ite_none_right_eq_some, Option.some.injEq] at hstep
    rw [← hstep.2]
    exact balanced_service h hstep.1

theorem balanced_osStart (tcbs : Nat) (cnt : Nat → UInt16) (prios : List Nat)
    : (osInit tcbs cnt).Balanced (osStart tcbs cnt prios) := by
  unfold osStart
  generalize osInit tcbs cnt = s
  dsimp only
  have hcreate : s.Balanced (prios.foldl (fun s p => (s.osTaskCreate false p).1) s) := by
    induction prios generalizing s with
    | nil => exact .refl s
    | cons p ps ih => exact (balanced_osTaskCreate s false p).trans (ih _)
  apply hcreate.trans
  exact .congr rfl (fun _ => rfl) rfl

theorem tokens_osInit (tcbs : Nat) (cnt : Nat → UInt16) (e : Nat)
    : (osInit tcbs cnt).tokens e = (cnt e).toNat ∧ (osInit tcbs cnt).posted e = 0 := by
  have hgranted : (osInit tcbs cnt).granted e = 0 := by
    unfold granted
    rw [tally_eq_zero_iff]
    intro p _
    unfold osInit
    dsimp only
    rw [Function.update_apply]
    split
    . simp [KernelTcb.Granted]
    . rfl
  unfold tokens posted
  rw [hgranted]
  exact ⟨rfl, rfl⟩

theorem token_conservation {tcbs : Nat} {cnt : Nat → UInt16} {prios : List Nat}
    (hreach : Transition.Reachable step (osStart tcbs cnt prios) s) (e : Nat)
    : (s.sems e).osEventCnt.toNat + s.granted e + s.log.count (.taken e) =
      (cnt e).toNat + s.log.count (.posted e) := by
  have hboth : s.Inv ∧ (osInit tcbs cnt).Balanced s := by
    refine Transition.Reachable.invariant (I := fun s => s.Inv ∧ (osInit tcbs cnt).Balanced s) ?_
      ⟨inv_osStart tcbs cnt prios, balanced_osStart tcbs cnt prios⟩ hreach
    rintro s a s' ⟨hinv, hbal⟩ hstep
    exact ⟨hinv.step hstep, hbal.trans (balanced_step hinv hstep)⟩
  have h := hboth.2 e
  obtain ⟨htokens, hposted⟩ := tokens_osInit tcbs cnt e
  rw [htokens, hposted] at h
  exact h

theorem token_conservation_of_two_posts
    : ∃ s, Transition.run step (osStart 20 (fun _ => 0) [10, 20])
        [.call (.semPend 0 0), .intEnter, .call (.semPost 0), .call (.semPost 0), .intExit] = some s ∧
      (s.sems 0).osEventCnt.toNat + s.granted 0 + s.log.count (.taken 0) =
        (0 : UInt16).toNat + s.log.count (.posted 0) := by
  have hrun : Transition.run step (osStart 20 (fun _ => 0) [10, 20])
      [.call (.semPend 0 0), .intEnter, .call (.semPost 0), .call (.semPost 0), .intExit] = some _ := rfl
  exact ⟨_, hrun, token_conservation ⟨_, hrun⟩ 0⟩

end Kernel

end SerialGateway
