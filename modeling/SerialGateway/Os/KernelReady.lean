import SerialGateway.Os.Kernel

/-!
This module contains the proof that the processor always belongs to the ready task of the highest priority and that
the bitmaps of the kernel tell which tasks are ready and which wait for a semaphore.
-/

namespace SerialGateway

def KernelTcb.Runnable (t : KernelTcb) : Prop :=
  t.statSem = false ∧ t.statSuspend = false ∧ t.osTcbDly = 0

def KernelTcb.Waits (t : KernelTcb) (e : Nat) : Prop :=
  t.osTcbEventPtr = some e ∧ (t.statSem = true ∨ t.osTcbStatPend = .to)

structure KernelTcb.Sane (t : KernelTcb) : Prop where
  sem : t.statSem = true → t.osTcbEventPtr ≠ none ∧ t.osTcbStatPend = .ok
  dly : t.osTcbDly ≠ 0 → t.statSem = true ∨ t.osTcbEventPtr = none

instance (t : KernelTcb) : Decidable t.Runnable := inferInstanceAs (Decidable (_ ∧ _ ∧ _))

instance (t : KernelTcb) (e : Nat) : Decidable (t.Waits e) := inferInstanceAs (Decidable (_ ∧ _))

def KernelTcb.afterPend (t : KernelTcb) : KernelTcb :=
  { t with statSem := false, statSuspend := false, osTcbStatPend := .ok, osTcbEventPtr := none }

namespace Kernel

structure Tidy (s : Kernel) : Prop where
  rdy : ∀ p, p ∈ s.rdy ↔ ∃ t, s.osTcbPrioTbl p = some t ∧ t.Runnable
  wait : ∀ e p, p ∈ (s.sems e).waiters ↔ ∃ t, s.osTcbPrioTbl p = some t ∧ t.Waits e
  prio : ∀ p t, s.osTcbPrioTbl p = some t → p < 64
  nodup : s.osTcbList.Nodup
  listed : ∀ p, p ∈ s.osTcbList ↔ p ≠ osLowestPrio ∧ s.osTcbPrioTbl p ≠ none
  sane : ∀ p t, s.osTcbPrioTbl p = some t → t.Sane
  count : ∀ e p, p ∈ (s.sems e).waiters → (s.sems e).osEventCnt = 0
  idle : ∃ t, s.osTcbPrioTbl osLowestPrio = some t ∧ t.Runnable ∧ t.osTcbEventPtr = none

/--
Between two switches the current task may be no longer ready, but a task that has locked the scheduler neither waits
nor delays itself.
-/
structure Sound (s : Kernel) : Prop extends Tidy s where
  current : ∃ t, s.osTcbPrioTbl s.osPrioCur = some t ∧
    (s.osLockNesting ≠ 0 → t.osTcbEventPtr = none ∧ t.osTcbDly = 0)

structure Inv (s : Kernel) : Prop extends Sound s where
  cur : s.osIntNesting = 0 → s.osLockNesting = 0 → s.osPrioCur = s.rdy.first

variable {s s' : Kernel} {p e : Nat} {t t' : KernelTcb}

theorem Tidy.rdy_of_tcb (h : s.Tidy) (ht : s.osTcbPrioTbl p = some t) : p ∈ s.rdy ↔ t.Runnable := by
  rw [h.rdy, ht]
  simp

theorem Tidy.wait_of_tcb (h : s.Tidy) (ht : s.osTcbPrioTbl p = some t) (e : Nat)
    : p ∈ (s.sems e).waiters ↔ t.Waits e := by
  rw [h.wait, ht]
  simp

theorem Tidy.change (h : s.Tidy) (hp : p < 64)
    (htcb : s'.osTcbPrioTbl = Function.update s.osTcbPrioTbl p (some t'))
    (hrdy : ∀ q, q ∈ s'.rdy ↔ if q = p then t'.Runnable else q ∈ s.rdy)
    (hwait : ∀ e q, q ∈ (s'.sems e).waiters ↔ if q = p then t'.Waits e else q ∈ (s.sems e).waiters)
    (hsane : t'.Sane)
    (hcount : ∀ e q, q ∈ (s'.sems e).waiters → (s'.sems e).osEventCnt = 0)
    (hidle : p = osLowestPrio → t'.Runnable ∧ t'.osTcbEventPtr = none)
    (hnodup : s'.osTcbList.Nodup)
    (hlisted : ∀ q, q ∈ s'.osTcbList ↔ q ≠ osLowestPrio ∧ (q = p ∨ s.osTcbPrioTbl q ≠ none))
    : s'.Tidy := by
  constructor
  . intro q
    rw [hrdy, htcb]
    split
    . next heq =>
      subst heq
      simp
    . next hne => rw [h.rdy, Function.update_of_ne hne]
  . intro e q
    rw [hwait, htcb]
    split
    . next heq =>
      subst heq
      simp
    . next hne => rw [h.wait, Function.update_of_ne hne]
  . intro q u hu
    by_cases heq : q = p
    . rw [heq]
      exact hp
    . rw [htcb, Function.update_of_ne heq] at hu
      exact h.prio q u hu
  . exact hnodup
  . intro q
    rw [hlisted, htcb]
    by_cases heq : q = p
    . rw [heq, Function.update_self]
      simp
    . rw [Function.update_of_ne heq]
      simp [heq]
  . intro q u hu
    by_cases heq : q = p
    . rw [htcb, heq, Function.update_self, Option.some.injEq] at hu
      rw [← hu]
      exact hsane
    . rw [htcb, Function.update_of_ne heq] at hu
      exact h.sane q u hu
  . exact hcount
  . rw [htcb]
    by_cases heq : osLowestPrio = p
    . rw [← heq, Function.update_self]
      exact ⟨t', rfl, hidle heq.symm⟩
    . rw [Function.update_of_ne heq]
      exact h.idle

theorem Tidy.listed_of_tcb (h : s.Tidy) (ht : s.osTcbPrioTbl p = some t) (q : Nat)
    : q ∈ s.osTcbList ↔ q ≠ osLowestPrio ∧ (q = p ∨ s.osTcbPrioTbl q ≠ none) := by
  rw [h.listed]
  by_cases heq : q = p
  . simp [heq, ht]
  . simp [heq]

theorem Sound.change (h : s.Sound) (ht : s.osTcbPrioTbl p = some t)
    (htcb : s'.osTcbPrioTbl = Function.update s.osTcbPrioTbl p (some t'))
    (hcur : s'.osPrioCur = s.osPrioCur) (hlock : s'.osLockNesting = s.osLockNesting)
    (hbusy : s.osLockNesting = 0 ∨ t'.osTcbEventPtr = t.osTcbEventPtr ∧ (t.osTcbDly = 0 → t'.osTcbDly = 0))
    (htidy : s'.Tidy)
    : s'.Sound := by
  refine ⟨htidy, ?_⟩
  obtain ⟨u, hu, hnone⟩ := h.current
  rw [hcur, hlock, htcb]
  by_cases heq : s.osPrioCur = p
  . rw [heq, ht, Option.some.injEq] at hu
    rw [heq, Function.update_self]
    refine ⟨t', rfl, ?_⟩
    intro hne
    obtain ⟨hptr, hdly⟩ := hnone hne
    rw [← hu] at hptr hdly
    rcases hbusy with hzero | ⟨hptr', hdly'⟩
    . contradiction
    . exact ⟨hptr'.trans hptr, hdly' hdly⟩
  . rw [Function.update_of_ne heq]
    exact ⟨u, hu, hnone⟩

theorem Tidy.idle_mem (h : s.Tidy) : osLowestPrio ∈ s.rdy := by
  obtain ⟨t, ht, hrun, -⟩ := h.idle
  rw [h.rdy_of_tcb ht]
  exact hrun

theorem Tidy.rdy_grp (h : s.Tidy) : s.rdy.grp ≠ 0 := TwoLevel.grp_ne_zero h.idle_mem

theorem Tidy.ne_idle (h : s.Tidy) (ht : s.osTcbPrioTbl p = some t) (hne : ¬ t.Runnable ∨ t.osTcbEventPtr ≠ none)
    : p ≠ osLowestPrio := by
  rintro rfl
  obtain ⟨u, hu, hrun, hnone⟩ := h.idle
  rw [ht, Option.some.injEq] at hu
  subst hu
  rcases hne with hne | hne
  . exact hne hrun
  . exact hne hnone

theorem osSched_eq (s : Kernel)
    : osSched s =
      { s with
        osPrioCur := if s.osIntNesting = 0 ∧ s.osLockNesting = 0 then highestPrio s.rdy else s.osPrioCur } := by
  unfold osSched
  split
  . next hint =>
    split
    . next hlock => simp [hint, hlock]
    . next hlock => simp [hlock]
  . next hint => simp [hint]

@[simp] theorem osSched_rdy (s : Kernel) : (osSched s).rdy = s.rdy := by rw [osSched_eq]

@[simp] theorem osSched_osTcbPrioTbl (s : Kernel) : (osSched s).osTcbPrioTbl = s.osTcbPrioTbl := by rw [osSched_eq]

@[simp] theorem osSched_osTcbList (s : Kernel) : (osSched s).osTcbList = s.osTcbList := by rw [osSched_eq]

@[simp] theorem osSched_sems (s : Kernel) : (osSched s).sems = s.sems := by rw [osSched_eq]

@[simp] theorem osSched_osIntNesting (s : Kernel) : (osSched s).osIntNesting = s.osIntNesting := by rw [osSched_eq]

@[simp] theorem osSched_osLockNesting (s : Kernel) : (osSched s).osLockNesting = s.osLockNesting := by rw [osSched_eq]

@[simp] theorem osSched_log (s : Kernel) : (osSched s).log = s.log := by rw [osSched_eq]

theorem Tidy.congr (h : s.Tidy) (hrdy : s'.rdy = s.rdy) (htcb : s'.osTcbPrioTbl = s.osTcbPrioTbl)
    (hsems : s'.sems = s.sems) (hlist : s'.osTcbList = s.osTcbList)
    : s'.Tidy := by
  obtain ⟨h1, h2, h3, h7, h8, h4, h5, h6⟩ := h
  constructor
  . rw [hrdy, htcb]
    exact h1
  . rw [hsems, htcb]
    exact h2
  . rw [htcb]
    exact h3
  . rw [hlist]
    exact h7
  . rw [hlist, htcb]
    exact h8
  . rw [htcb]
    exact h4
  . rw [hsems]
    exact h5
  . rw [htcb]
    exact h6

theorem Sound.osSched (h : s.Sound) : (osSched s).Inv := by
  have htidy : (Kernel.osSched s).Tidy := by
    apply h.toTidy.congr
    . rw [osSched_rdy]
    . rw [osSched_osTcbPrioTbl]
    . rw [osSched_sems]
    . rw [osSched_osTcbList]
  rw [osSched_eq] at htidy ⊢
  by_cases hsw : s.osIntNesting = 0 ∧ s.osLockNesting = 0
  . rw [if_pos hsw] at htidy ⊢
    have hfirst := TwoLevel.first_mem h.rdy_grp
    obtain ⟨t, ht, -⟩ := (h.rdy _).mp hfirst
    refine ⟨⟨htidy, ?_⟩, ?_⟩
    . dsimp only
      rw [highestPrio_eq h.rdy_grp]
      refine ⟨t, ht, ?_⟩
      intro hne
      exact absurd hsw.2 hne
    . intro _ _
      exact highestPrio_eq h.rdy_grp
  . rw [if_neg hsw] at htidy ⊢
    refine ⟨⟨htidy, h.current⟩, ?_⟩
    intro hint hlock
    exact absurd ⟨hint, hlock⟩ hsw

theorem Inv.congr (h : s.Inv) (hrdy : s'.rdy = s.rdy) (htcb : s'.osTcbPrioTbl = s.osTcbPrioTbl)
    (htidy : s'.Tidy) (hcur : s'.osPrioCur = s.osPrioCur) (hint : s'.osIntNesting = s.osIntNesting)
    (hlock : s'.osLockNesting = s.osLockNesting)
    : s'.Inv := by
  refine ⟨⟨htidy, ?_⟩, ?_⟩
  . rw [htcb, hcur, hlock]
    exact h.current
  . rw [hrdy, hcur, hint, hlock]
    exact h.cur

@[simp] theorem setTcb_osTcbPrioTbl (s : Kernel) (prio : Nat) (ptcb : KernelTcb)
    : (s.setTcb prio ptcb).osTcbPrioTbl = Function.update s.osTcbPrioTbl prio (some ptcb) := rfl

@[simp] theorem setSem_sems (s : Kernel) (e : Nat) (pevent : OsSem)
    : (s.setSem e pevent).sems = Function.update s.sems e pevent := rfl

theorem Tidy.setCnt {c : UInt16} (h : s.Tidy) (hc : (s.sems e).waiters.grp = 0)
    : (s.setSem e { s.sems e with osEventCnt := c }).Tidy := by
  have hwaiters : ∀ e', ((s.setSem e { s.sems e with osEventCnt := c }).sems e').waiters = (s.sems e').waiters := by
    intro e'
    rw [setSem_sems, Function.update_apply]
    split
    . next heq => rw [heq]
    . next hne => rfl
  constructor
  . exact h.rdy
  . intro e' p
    rw [hwaiters]
    exact h.wait e' p
  . exact h.prio
  . exact h.nodup
  . exact h.listed
  . exact h.sane
  . intro e' p hp
    rw [hwaiters] at hp
    rw [setSem_sems, Function.update_apply]
    split
    . next heq =>
      subst heq
      exact absurd hp (TwoLevel.grp_eq_zero_iff.mp hc p)
    . next hne => exact h.count e' p hp
  . exact h.idle

theorem Tidy.waiters_grp (h : s.Tidy) (hcnt : (s.sems e).osEventCnt > 0) : (s.sems e).waiters.grp = 0 := by
  rw [TwoLevel.grp_eq_zero_iff]
  intro p hp
  rw [h.count e p hp] at hcnt
  simp at hcnt

theorem Inv.osIntEnter (h : s.Inv) : s.osIntEnter.Inv := by
  unfold Kernel.osIntEnter
  split
  . refine ⟨⟨h.toTidy.congr rfl rfl rfl rfl, h.current⟩, ?_⟩
    intro hint
    simp at hint
  . exact h

theorem Inv.osIntExit (h : s.Inv) : s.osIntExit.Inv := by
  unfold Kernel.osIntExit
  apply Sound.osSched
  split
  . exact ⟨h.toTidy.congr rfl rfl rfl rfl, h.current⟩
  . exact h.toSound

theorem Inv.osSchedLock (h : s.Inv) (hout : s.osIntNesting = 0 → ∀ t, s.osTcbPrioTbl s.osPrioCur = some t →
    t.osTcbEventPtr = none)
    : s.osSchedLock.Inv := by
  unfold Kernel.osSchedLock
  split
  . next hint =>
    split
    . obtain ⟨t, ht, hbusy⟩ := h.current
      refine ⟨⟨h.toTidy.congr rfl rfl rfl rfl, t, ht, ?_⟩, ?_⟩
      . intro _
        refine ⟨hout hint t ht, ?_⟩
        by_cases hlock : s.osLockNesting = 0
        . have hmem := TwoLevel.first_mem h.rdy_grp
          rw [← h.cur hint hlock, h.rdy_of_tcb ht] at hmem
          exact hmem.2.2
        . exact (hbusy hlock).2
      . intro _ hlock
        simp at hlock
    . exact h
  . exact h

@[simp] theorem osSchedLock_osTcbPrioTbl (s : Kernel) : s.osSchedLock.osTcbPrioTbl = s.osTcbPrioTbl := by
  unfold osSchedLock
  split
  . split
    . rfl
    . rfl
  . rfl

@[simp] theorem osSchedLock_sems (s : Kernel) : s.osSchedLock.sems = s.sems := by
  unfold osSchedLock
  split
  . split
    . rfl
    . rfl
  . rfl

@[simp] theorem osSchedLock_log (s : Kernel) : s.osSchedLock.log = s.log := by
  unfold osSchedLock
  split
  . split
    . rfl
    . rfl
  . rfl

theorem Inv.osSchedUnlock (h : s.Inv) : s.osSchedUnlock.Inv := by
  unfold Kernel.osSchedUnlock
  split
  . next hpos =>
    obtain ⟨t, ht, hnone⟩ := h.current
    apply Sound.osSched
    refine ⟨h.toTidy.congr rfl rfl rfl rfl, t, ht, ?_⟩
    intro _
    exact hnone (Nat.ne_of_gt hpos)
  . exact h

theorem Tidy.waiter (h : s.Tidy) (hgrp : (s.sems e).waiters.grp ≠ 0)
    : ∃ t, s.osTcbPrioTbl (s.sems e).waiters.first = some t ∧ t.Waits e ∧ (s.sems e).osEventCnt = 0 := by
  have hmem := TwoLevel.first_mem hgrp
  obtain ⟨t, ht, hwaits⟩ := (h.wait _ _).mp hmem
  exact ⟨t, ht, hwaits, h.count _ _ hmem⟩

theorem osEventTaskRdy_eq {stat : StatPend} (hgrp : (s.sems e).waiters.grp ≠ 0)
    (ht : s.osTcbPrioTbl (s.sems e).waiters.first = some t)
    : s.osEventTaskRdy e stat =
      { s with
        osTcbPrioTbl := Function.update s.osTcbPrioTbl (s.sems e).waiters.first
          (some { t with osTcbDly := 0, statSem := false, osTcbStatPend := stat })
        rdy := if t.statSuspend then s.rdy else s.rdy.insert (s.sems e).waiters.first
        sems := Function.update s.sems e
          { s.sems e with waiters := (s.sems e).waiters.remove (s.sems e).waiters.first } } := by
  unfold osEventTaskRdy
  dsimp only
  rw [highestPrio_eq hgrp, ht]
  dsimp only
  split
  . rfl
  . rfl

theorem Sound.osEventTaskRdy {stat : StatPend} (h : s.Sound) (hgrp : (s.sems e).waiters.grp ≠ 0) (hstat : stat ≠ .to)
    : (s.osEventTaskRdy e stat).Sound := by
  obtain ⟨t, ht, hwaits, hcnt⟩ := h.waiter hgrp
  have hp := h.prio _ _ ht
  rw [osEventTaskRdy_eq hgrp ht]
  refine h.change ht rfl ?_ ?_ ?_ ?_
  . rfl
  . rfl
  . refine .inr ⟨rfl, ?_⟩
    intro _
    rfl
  apply h.toTidy.change hp rfl
  . intro q
    dsimp only
    by_cases heq : q = (s.sems e).waiters.first
    . rw [if_pos heq, heq]
      cases hsusp : t.statSuspend with
      | true =>
        rw [if_pos rfl, h.rdy_of_tcb ht]
        simp [KernelTcb.Runnable, hsusp]
      | false =>
        rw [if_neg (by simp), TwoLevel.mem_insert hp]
        simp [KernelTcb.Runnable]
    . rw [if_neg heq]
      split
      . rfl
      . rw [TwoLevel.mem_insert hp]
        simp [heq]
  . intro e' q
    dsimp only
    rw [Function.update_apply]
    have hno : ¬ { t with osTcbDly := 0, statSem := false, osTcbStatPend := stat }.Waits e' := by
      simp [KernelTcb.Waits, hstat]
    split
    . next heq =>
      subst heq
      rw [TwoLevel.mem_remove hp]
      split
      . next hfst => simp [hfst, hno]
      . next hfst => simp [hfst]
    . next hne =>
      split
      . next hfst =>
        rw [hfst, h.wait_of_tcb ht]
        apply iff_of_false _ hno
        intro hw
        have hptr := hw.1
        rw [hwaits.1, Option.some.injEq] at hptr
        exact hne hptr.symm
      . next hfst => rfl
  . constructor
    . simp
    . simp
  . intro e' q
    dsimp only
    rw [Function.update_apply]
    split
    . next heq =>
      intro _
      exact hcnt
    . next hne => exact h.count e' q
  . intro hidle
    refine absurd hidle (h.ne_idle ht (.inr ?_))
    rw [hwaits.1]
    simp
  . exact h.nodup
  . exact h.listed_of_tcb ht

theorem Sound.changeTcb (h : s.Sound) (ht : s.osTcbPrioTbl p = some t)
    (htcb : s'.osTcbPrioTbl = Function.update s.osTcbPrioTbl p (some t'))
    (hsems : s'.sems = s.sems) (hcur : s'.osPrioCur = s.osPrioCur) (hlock : s'.osLockNesting = s.osLockNesting)
    (hlist : s'.osTcbList = s.osTcbList)
    (hrdy : ∀ q, q ∈ s'.rdy ↔ if q = p then t'.Runnable else q ∈ s.rdy)
    (hptr : t'.osTcbEventPtr = t.osTcbEventPtr)
    (hdly : s.osLockNesting = 0 ∨ (t.osTcbDly = 0 → t'.osTcbDly = 0))
    (hwait : ∀ e, t'.Waits e ↔ t.Waits e)
    (hsane : t'.Sane)
    (hidle : p = osLowestPrio → t'.Runnable)
    : s'.Sound := by
  have hbusy : s.osLockNesting = 0 ∨ t'.osTcbEventPtr = t.osTcbEventPtr ∧ (t.osTcbDly = 0 → t'.osTcbDly = 0) := by
    rcases hdly with hzero | hdly
    . exact .inl hzero
    . exact .inr ⟨hptr, hdly⟩
  apply h.change ht htcb hcur hlock hbusy
  apply h.toTidy.change (h.prio p t ht) htcb hrdy
  . intro e q
    rw [hsems]
    split
    . next heq => rw [heq, h.wait_of_tcb ht, hwait]
    . next hne => rfl
  . exact hsane
  . intro e q
    rw [hsems]
    exact h.count e q
  . intro heq
    obtain ⟨u, hu, -, hnone⟩ := h.idle
    rw [← heq, ht, Option.some.injEq] at hu
    rw [hptr, hu]
    exact ⟨hidle heq, hnone⟩
  . rw [hlist]
    exact h.nodup
  . rw [hlist]
    exact h.listed_of_tcb ht

theorem mem_insert_rdy (hp : p < 64) (hrun : t.Runnable) (q : Nat)
    : q ∈ s.rdy.insert p ↔ if q = p then t.Runnable else q ∈ s.rdy := by
  rw [TwoLevel.mem_insert hp]
  split
  . next heq => simp [heq, hrun]
  . next hne => simp [hne]

theorem mem_remove_rdy (hp : p < 64) (hrun : ¬ t.Runnable) (q : Nat)
    : q ∈ s.rdy.remove p ↔ if q = p then t.Runnable else q ∈ s.rdy := by
  rw [TwoLevel.mem_remove hp]
  split
  . next heq => simp [heq, hrun]
  . next hne => simp [hne]

theorem Tidy.mem_rdy (h : s.Tidy) (ht : s.osTcbPrioTbl p = some t) (hrun : t'.Runnable ↔ t.Runnable) (q : Nat)
    : q ∈ s.rdy ↔ if q = p then t'.Runnable else q ∈ s.rdy := by
  split
  . next heq => rw [heq, h.rdy_of_tcb ht, hrun]
  . next hne => rfl

theorem Sound.osEventTaskWait {timeout : Nat} (h : s.Sound) (ht : s.osTcbPrioTbl s.osPrioCur = some t)
    (hidle : s.osPrioCur ≠ osLowestPrio) (hlock : s.osLockNesting = 0) (hptr : t.osTcbEventPtr = none)
    (hcnt : (s.sems e).osEventCnt = 0)
    : (s.osEventTaskWait { t with statSem := true, osTcbStatPend := .ok, osTcbDly := timeout } e).Sound := by
  have hp := h.prio _ _ ht
  unfold Kernel.osEventTaskWait
  refine h.change ht rfl ?_ ?_ ?_ ?_
  . rfl
  . rfl
  . exact .inl hlock
  apply h.toTidy.change hp rfl
  . apply mem_remove_rdy hp
    simp [KernelTcb.Runnable]
  . intro e' q
    dsimp only [setSem_sems]
    rw [Function.update_apply]
    split
    . next heq =>
      subst heq
      rw [TwoLevel.mem_insert hp]
      change q = s.osPrioCur ∨ q ∈ (s.sems e').waiters ↔ _
      split
      . next hq => simp [hq, KernelTcb.Waits]
      . next hq => simp [hq]
    . next hne =>
      split
      . next hq =>
        have hold := h.wait_of_tcb ht e'
        rw [hq]
        apply iff_of_false
        . change ¬ s.osPrioCur ∈ (s.sems e').waiters
          rw [hold]
          simp [KernelTcb.Waits, hptr]
        . simp [KernelTcb.Waits, Ne.symm hne]
      . next hq => rfl
  . constructor
    . simp
    . simp
  . intro e' q hq
    dsimp only [setSem_sems] at hq ⊢
    rw [Function.update_apply] at hq ⊢
    split
    . next heq => exact hcnt
    . next hne =>
      rw [if_neg hne] at hq
      exact h.count e' q hq
  . intro heq
    exact absurd heq hidle
  . exact h.nodup
  . exact h.listed_of_tcb ht

theorem Inv.setCnt {c : UInt16} (h : s.Inv) (hc : (s.sems e).waiters.grp = 0)
    (hrdy : s'.rdy = s.rdy) (htcb : s'.osTcbPrioTbl = s.osTcbPrioTbl)
    (hsems : s'.sems = Function.update s.sems e { s.sems e with osEventCnt := c })
    (hlist : s'.osTcbList = s.osTcbList)
    (hcur : s'.osPrioCur = s.osPrioCur) (hint : s'.osIntNesting = s.osIntNesting)
    (hlock : s'.osLockNesting = s.osLockNesting)
    : s'.Inv := by
  refine h.congr hrdy htcb ?_ hcur hint hlock
  apply (h.toTidy.setCnt hc).congr
  . exact hrdy
  . exact htcb
  . exact hsems
  . exact hlist

theorem Inv.osSemAccept (h : s.Inv) : (s.osSemAccept e).1.Inv := by
  unfold Kernel.osSemAccept
  dsimp only
  split
  . next hcnt =>
    apply h.setCnt (h.waiters_grp hcnt)
    . rfl
    . rfl
    . rfl
    . rfl
    . rfl
    . rfl
    . rfl
  . exact h

theorem Inv.osSemPend {timeout : Nat} (h : s.Inv)
    (hout : s.osIntNesting = 0 → s.osPrioCur ≠ osLowestPrio ∧ ∀ t, s.osTcbPrioTbl s.osPrioCur = some t →
      t.osTcbEventPtr = none)
    : (s.osSemPend e timeout).1.Inv := by
  unfold Kernel.osSemPend
  dsimp only
  split
  . exact h
  . next hint =>
    split
    . exact h
    . next hlock =>
      split
      . next hcnt =>
        apply h.setCnt (h.waiters_grp hcnt)
        . rfl
        . rfl
        . rfl
        . rfl
        . rfl
        . rfl
        . rfl
      . next hcnt =>
        obtain ⟨t, ht, -⟩ := h.current
        obtain ⟨hidle, hnone⟩ := hout (Nat.eq_zero_of_not_pos hint)
        rw [ht]
        apply Sound.osSched
        apply h.toSound.osEventTaskWait ht hidle
        . exact Nat.eq_zero_of_not_pos hlock
        . exact hnone t ht
        . simpa using hcnt

theorem Inv.osSemPost (h : s.Inv) : (s.osSemPost e).1.Inv := by
  unfold Kernel.osSemPost
  dsimp only
  split
  . next hgrp =>
    apply Sound.osSched
    have hs : (s.osEventTaskRdy e .ok).Sound := by
      apply h.toSound.osEventTaskRdy hgrp
      simp
    exact ⟨hs.toTidy.congr rfl rfl rfl rfl, hs.current⟩
  . next hgrp =>
    split
    . apply h.setCnt (not_not.mp hgrp)
      . rfl
      . rfl
      . rfl
      . rfl
      . rfl
      . rfl
      . rfl
    . exact h

theorem Sound.abortAll (h : s.Sound) (fuel : Nat) : (abortAll e fuel s).Sound := by
  induction fuel generalizing s with
  | zero => exact h
  | succ fuel ih =>
    unfold Kernel.abortAll
    split
    . next hgrp =>
      apply ih
      apply h.osEventTaskRdy hgrp
      simp
    . exact h

theorem Inv.osSemPendAbort (h : s.Inv) (broadcast : Bool) : (s.osSemPendAbort e broadcast).1.Inv := by
  unfold Kernel.osSemPendAbort
  split
  . next hgrp =>
    split
    . apply Sound.osSched
      exact h.toSound.abortAll 64
    . apply Sound.osSched
      apply h.toSound.osEventTaskRdy hgrp
      simp
  . exact h

theorem Inv.osTimeDly {ticks : Nat} (h : s.Inv)
    (hout : s.osIntNesting = 0 → s.osPrioCur ≠ osLowestPrio ∧ ∀ t, s.osTcbPrioTbl s.osPrioCur = some t →
      t.osTcbEventPtr = none)
    : (s.osTimeDly ticks).Inv := by
  unfold Kernel.osTimeDly
  split
  . exact h
  . next hint =>
    split
    . exact h
    . next hlock =>
      split
      . next hpos =>
        obtain ⟨t, ht, -⟩ := h.current
        obtain ⟨hidle, hnone⟩ := hout (Nat.eq_zero_of_not_pos hint)
        rw [ht]
        apply Sound.osSched
        refine h.toSound.changeTcb ht rfl ?_ ?_ ?_ ?_ ?_ ?_ ?_ ?_ ?_ ?_
        . rfl
        . rfl
        . rfl
        . rfl
        . apply mem_remove_rdy (h.prio _ _ ht)
          intro hrun
          exact Nat.ne_of_gt hpos hrun.2.2
        . rfl
        . exact .inl (Nat.eq_zero_of_not_pos hlock)
        . intro e
          rfl
        . refine ⟨(h.sane _ _ ht).sem, ?_⟩
          intro _
          exact .inr (hnone t ht)
        . intro heq
          exact absurd heq hidle
      . exact h

theorem endDly_eq (s : Kernel) (p : Nat) (t : KernelTcb)
    : s.endDly p t =
      { s with
        osTcbPrioTbl := Function.update s.osTcbPrioTbl p
          (some { t with osTcbDly := 0, statSem := false, osTcbStatPend := if t.statSem then .to else .ok })
        rdy := if t.statSuspend then s.rdy else s.rdy.insert p } := by
  obtain ⟨sem, susp, stat, dly, ptr⟩ := t
  cases sem with
  | true =>
    cases susp with
    | true => rfl
    | false => rfl
  | false =>
    cases susp with
    | true => rfl
    | false => rfl

theorem Sound.endDly (h : s.Sound) (ht : s.osTcbPrioTbl p = some t) (hdly : t.osTcbDly ≠ 0) : (s.endDly p t).Sound := by
  have hp := h.prio _ _ ht
  have hrun : ¬ t.Runnable := by
    intro hrun
    exact hdly hrun.2.2
  rw [endDly_eq]
  refine h.changeTcb ht rfl ?_ ?_ ?_ ?_ ?_ ?_ ?_ ?_ ?_ ?_
  . rfl
  . rfl
  . rfl
  . rfl
  . intro q
    dsimp only
    cases hsusp : t.statSuspend with
    | true =>
      rw [if_pos rfl]
      apply h.mem_rdy ht
      apply iff_of_false
      . simp [KernelTcb.Runnable]
      . exact hrun
    | false =>
      rw [if_neg (by simp)]
      apply mem_insert_rdy hp
      simp [KernelTcb.Runnable]
  . rfl
  . refine .inr ?_
    intro _
    rfl
  . intro e
    rcases (h.sane _ _ ht).dly hdly with hsem | hnone
    . simp [KernelTcb.Waits, hsem]
    . simp [KernelTcb.Waits, hnone]
  . constructor
    . simp
    . simp
  . intro hidle
    exact absurd hidle (h.ne_idle ht (.inl hrun))

theorem Sound.tickTcb (h : s.Sound) (p : Nat) : (s.tickTcb p).Sound := by
  unfold Kernel.tickTcb
  split
  . exact h
  . next t ht =>
    split
    . next hdly =>
      have hrun : ¬ t.Runnable := by
        intro hrun
        exact hdly hrun.2.2
      split
      . exact h.endDly ht hdly
      . next hmore =>
        refine h.changeTcb ht rfl ?_ ?_ ?_ ?_ ?_ ?_ ?_ ?_ ?_ ?_
        . rfl
        . rfl
        . rfl
        . rfl
        . apply h.mem_rdy ht
          apply iff_of_false
          . intro hrun'
            exact hmore hrun'.2.2
          . exact hrun
        . rfl
        . refine .inr ?_
          intro hzero
          contradiction
        . intro e
          rfl
        . refine ⟨(h.sane _ _ ht).sem, ?_⟩
          intro _
          exact (h.sane _ _ ht).dly hdly
        . intro hidle
          exact absurd hidle (h.ne_idle ht (.inl hrun))
    . exact h

@[simp] theorem tickTcb_osIntNesting (s : Kernel) (p : Nat) : (s.tickTcb p).osIntNesting = s.osIntNesting := by
  unfold tickTcb
  split
  . rfl
  . split
    . split
      . rw [endDly_eq]
      . rfl
    . rfl

@[simp] theorem osTimeTick_osIntNesting (s : Kernel) : s.osTimeTick.osIntNesting = s.osIntNesting := by
  unfold osTimeTick
  generalize s.osTcbList = ps
  induction ps generalizing s with
  | nil => rfl
  | cons p ps ih => rw [List.foldl_cons, ih, tickTcb_osIntNesting]

theorem Sound.osTimeTick (h : s.Sound) : s.osTimeTick.Sound := by
  unfold Kernel.osTimeTick
  generalize s.osTcbList = ps
  induction ps generalizing s with
  | nil => exact h
  | cons p ps ih =>
    apply ih
    exact h.tickTcb p

theorem Inv.osTimeDlyResume (h : s.Inv) (p : Nat) : (s.osTimeDlyResume p).1.Inv := by
  unfold Kernel.osTimeDlyResume
  split
  . exact h
  . split
    . exact h
    . next t ht =>
      split
      . exact h
      . next hdly =>
        have hs := h.toSound.endDly ht hdly
        split
        . next hsusp =>
          refine ⟨hs, ?_⟩
          rw [endDly_eq, if_pos hsusp]
          exact h.cur
        . exact hs.osSched

theorem Tidy.first_remove (h : s.Tidy) (hp : p < 64) (hne : p ≠ s.rdy.first)
    : (s.rdy.remove p).first = s.rdy.first := by
  have hmem : s.rdy.first ∈ s.rdy.remove p := by
    rw [TwoLevel.mem_remove hp]
    exact ⟨Ne.symm hne, TwoLevel.first_mem h.rdy_grp⟩
  rw [TwoLevel.first_eq_iff (TwoLevel.grp_ne_zero hmem)]
  refine ⟨hmem, ?_⟩
  intro q hq
  rw [TwoLevel.mem_remove hp] at hq
  exact TwoLevel.first_le hq.2

theorem Sound.suspend (h : s.Sound) (ht : s.osTcbPrioTbl p = some t) (hidle : p ≠ osLowestPrio)
    : Sound { s.setTcb p { t with statSuspend := true } with rdy := s.rdy.remove p } := by
  refine h.changeTcb ht rfl ?_ ?_ ?_ ?_ ?_ ?_ ?_ ?_ ?_ ?_
  . rfl
  . rfl
  . rfl
  . rfl
  . apply mem_remove_rdy (h.prio _ _ ht)
    simp [KernelTcb.Runnable]
  . rfl
  . exact .inr id
  . intro e
    rfl
  . exact ⟨(h.sane _ _ ht).sem, (h.sane _ _ ht).dly⟩
  . intro heq
    exact absurd heq hidle

theorem Inv.osTaskSuspend (h : s.Inv) (hself : p = osPrioSelf → s.osPrioCur ≠ osLowestPrio)
    : (s.osTaskSuspend p).1.Inv := by
  unfold Kernel.osTaskSuspend
  split
  . exact h
  . next hidle =>
    split
    . exact h
    . have hne : (if p = osPrioSelf then s.osPrioCur else p) ≠ osLowestPrio := by
        split
        . next heq => exact hself heq
        . exact hidle
      dsimp only
      generalize (if p = osPrioSelf then s.osPrioCur else p) = prio at hne
      split
      . exact h
      . next t ht =>
        have hs := h.toSound.suspend ht hne
        split
        . exact hs.osSched
        . next hother =>
          refine ⟨hs, ?_⟩
          intro hint hlock
          have hcur := h.cur hint hlock
          change s.osPrioCur = (s.rdy.remove prio).first
          rw [h.first_remove (h.prio _ _ ht), hcur]
          rw [← hcur]
          exact hother

theorem Inv.osTaskResume (h : s.Inv) : (s.osTaskResume p).1.Inv := by
  unfold Kernel.osTaskResume
  split
  . exact h
  . next hlt =>
    have hidle : p ≠ osLowestPrio := by
      rintro rfl
      exact hlt (Nat.le_refl _)
    split
    . exact h
    . next t ht =>
      split
      . next hsusp =>
        dsimp only
        have hrun : ¬ t.Runnable := by simp [KernelTcb.Runnable, hsusp]
        split
        . next hfree =>
          apply Sound.osSched
          refine h.toSound.changeTcb ht rfl ?_ ?_ ?_ ?_ ?_ ?_ ?_ ?_ ?_ ?_
          . rfl
          . rfl
          . rfl
          . rfl
          . apply mem_insert_rdy (h.prio _ _ ht)
            exact ⟨hfree.1, rfl, hfree.2⟩
          . rfl
          . exact .inr id
          . intro e
            rfl
          . exact ⟨(h.sane _ _ ht).sem, (h.sane _ _ ht).dly⟩
          . intro heq
            exact absurd heq hidle
        . next hbusy =>
          refine ⟨?_, h.cur⟩
          refine h.toSound.changeTcb ht rfl ?_ ?_ ?_ ?_ ?_ ?_ ?_ ?_ ?_ ?_
          . rfl
          . rfl
          . rfl
          . rfl
          . apply h.mem_rdy ht
            apply iff_of_false
            . intro hrun'
              exact hbusy ⟨hrun'.1, hrun'.2.2⟩
            . exact hrun
          . rfl
          . exact .inr id
          . intro e
            rfl
          . exact ⟨(h.sane _ _ ht).sem, (h.sane _ _ ht).dly⟩
          . intro heq
            exact absurd heq hidle
      . exact h

theorem Tidy.osTcbInit (h : s.Tidy) (hp : p < 64) (hnone : s.osTcbPrioTbl p = none) : (s.osTcbInit p).1.Tidy := by
  unfold Kernel.osTcbInit
  split
  . apply h.change hp rfl
    . apply mem_insert_rdy hp
      simp [KernelTcb.Runnable]
    . intro e q
      split
      . next heq =>
        apply iff_of_false
        . change ¬ q ∈ (s.sems e).waiters
          rw [h.wait, heq, hnone]
          simp
        . simp [KernelTcb.Waits]
      . rfl
    . constructor
      . simp
      . simp
    . exact h.count
    . intro _
      simp [KernelTcb.Runnable]
    . refine List.nodup_cons.mpr ⟨?_, h.nodup⟩
      intro hmem
      exact ((h.listed p).mp hmem).2 hnone
    . intro q
      change q ∈ p :: s.osTcbList ↔ _
      rw [List.mem_cons, h.listed]
      constructor
      . rintro (rfl | ⟨hlow, hsome⟩)
        . refine ⟨?_, .inl rfl⟩
          rintro rfl
          obtain ⟨u, hu, -⟩ := h.idle
          rw [hnone] at hu
          contradiction
        . exact ⟨hlow, .inr hsome⟩
      . rintro ⟨hlow, rfl | hsome⟩
        . exact .inl rfl
        . exact .inr ⟨hlow, hsome⟩
  . exact h

theorem Sound.osTcbInit (h : s.Sound) (hp : p < 64) (hnone : s.osTcbPrioTbl p = none) : (s.osTcbInit p).1.Sound := by
  refine ⟨h.toTidy.osTcbInit hp hnone, ?_⟩
  obtain ⟨t, ht, hlock⟩ := h.current
  unfold Kernel.osTcbInit
  split
  . have hne : s.osPrioCur ≠ p := by
      rintro rfl
      rw [hnone] at ht
      contradiction
    refine ⟨t, ?_, hlock⟩
    change Function.update s.osTcbPrioTbl p _ s.osPrioCur = some t
    rw [Function.update_of_ne hne]
    exact ht
  . exact ⟨t, ht, hlock⟩

theorem osTaskCreate_cases (s : Kernel) (running : Bool) (p : Nat)
    : (s.osTaskCreate running p).1 = s ∨
      (p < 64 ∧ s.osTcbPrioTbl p = none ∧ s.osTcbFree > 0 ∧
        (s.osTaskCreate running p).1 = if running then osSched (s.osTcbInit p).1 else (s.osTcbInit p).1) := by
  unfold Kernel.osTaskCreate
  split
  . exact .inl rfl
  . next hle =>
    split
    . exact .inl rfl
    . split
      . exact .inl rfl
      . next hnone =>
        by_cases hfree : s.osTcbFree > 0
        . have hp : p < 64 := by
            unfold osLowestPrio at hle
            omega
          simp only [Kernel.osTcbInit, if_pos hfree]
          exact .inr ⟨hp, hnone, hfree, trivial⟩
        . simp only [Kernel.osTcbInit, if_neg hfree]
          exact .inl trivial

theorem Inv.osTaskCreate (h : s.Inv) : (s.osTaskCreate true p).1.Inv := by
  rcases osTaskCreate_cases s true p with hsame | ⟨hp, hnone, -, hnew⟩
  . rw [hsame]
    exact h
  . rw [hnew]
    exact (h.toSound.osTcbInit hp hnone).osSched

theorem Inv.pending_runnable (h : s.Inv) (hint : s.osIntNesting = 0) (ht : s.osTcbPrioTbl s.osPrioCur = some t)
    (hptr : t.osTcbEventPtr ≠ none)
    : s.osLockNesting = 0 ∧ t.Runnable := by
  obtain ⟨u, hu, hnone⟩ := h.current
  rw [ht, Option.some.injEq] at hu
  subst hu
  have hlock : s.osLockNesting = 0 := by
    apply Decidable.byContradiction
    intro hne
    exact hptr (hnone hne).1
  refine ⟨hlock, ?_⟩
  rw [← h.rdy_of_tcb ht, h.cur hint hlock]
  exact TwoLevel.first_mem h.rdy_grp

theorem osSemPendReturn_cases {err : KernelErr} (hret : s.osSemPendReturn = some (s', err))
    : ∃ t e, s.osTcbPrioTbl s.osPrioCur = some t ∧ t.osTcbEventPtr = some e ∧
      ((t.osTcbStatPend = .ok ∧ err = .none ∧
          s' = { s.setTcb s.osPrioCur t.afterPend with log := s.log ++ [.taken e] }) ∨
        (t.osTcbStatPend = .abort ∧ err = .pendAbort ∧ s' = s.setTcb s.osPrioCur t.afterPend) ∨
        (t.osTcbStatPend = .to ∧ err = .timeout ∧
          s' = (s.setSem e { s.sems e with waiters := (s.sems e).waiters.remove s.osPrioCur }).setTcb s.osPrioCur
            t.afterPend)) := by
  unfold osSemPendReturn at hret
  split at hret
  . contradiction
  . next t ht =>
    split at hret
    . contradiction
    . next e hptr =>
      refine ⟨t, e, ht, hptr, ?_⟩
      cases hstat : t.osTcbStatPend with
      | ok =>
        simp only [hstat, Option.some.injEq, Prod.mk.injEq] at hret
        exact .inl ⟨rfl, hret.2.symm, hret.1.symm⟩
      | abort =>
        simp only [hstat, Option.some.injEq, Prod.mk.injEq] at hret
        exact .inr (.inl ⟨rfl, hret.2.symm, hret.1.symm⟩)
      | _ =>
        simp only [hstat, Option.some.injEq, Prod.mk.injEq] at hret
        exact .inr (.inr ⟨rfl, hret.2.symm, hret.1.symm⟩)

theorem Inv.afterPend (h : s.Inv) (hint : s.osIntNesting = 0) (ht : s.osTcbPrioTbl s.osPrioCur = some t)
    (hptr : t.osTcbEventPtr ≠ none)
    (htcb : s'.osTcbPrioTbl = Function.update s.osTcbPrioTbl s.osPrioCur (some t.afterPend))
    (hrdy : s'.rdy = s.rdy) (hlist : s'.osTcbList = s.osTcbList) (hcur : s'.osPrioCur = s.osPrioCur)
    (hnest : s'.osIntNesting = s.osIntNesting) (hlock : s'.osLockNesting = s.osLockNesting)
    (hwait : ∀ e q, q ∈ (s'.sems e).waiters ↔ q ≠ s.osPrioCur ∧ q ∈ (s.sems e).waiters)
    (hcnt : ∀ e, (s'.sems e).osEventCnt = (s.sems e).osEventCnt)
    : s'.Inv := by
  obtain ⟨hunlocked, hrun⟩ := h.pending_runnable hint ht hptr
  have hrun' : t.afterPend.Runnable := ⟨rfl, rfl, hrun.2.2⟩
  refine ⟨?_, ?_⟩
  . apply h.toSound.change ht htcb hcur hlock (.inl hunlocked)
    apply h.toTidy.change (h.prio _ _ ht) htcb
    . rw [hrdy]
      apply h.mem_rdy ht
      exact iff_of_true hrun' hrun
    . intro e q
      rw [hwait]
      split
      . next heq => simp [heq, KernelTcb.Waits, KernelTcb.afterPend]
      . next hne => simp [hne]
    . constructor
      . simp [KernelTcb.afterPend]
      . simp [KernelTcb.afterPend]
    . intro e q hq
      rw [hcnt]
      exact h.count e q ((hwait e q).mp hq).2
    . intro _
      exact ⟨hrun', rfl⟩
    . rw [hlist]
      exact h.nodup
    . rw [hlist]
      exact h.listed_of_tcb ht
  . rw [hrdy, hcur, hnest, hlock]
    exact h.cur

theorem Inv.osSemPendReturn {err : KernelErr} (h : s.Inv) (hint : s.osIntNesting = 0)
    (hret : s.osSemPendReturn = some (s', err))
    : s'.Inv := by
  obtain ⟨t, e, ht, hptr, hcase⟩ := osSemPendReturn_cases hret
  have hne : t.osTcbEventPtr ≠ none := by simp [hptr]
  obtain ⟨-, hrun⟩ := h.pending_runnable hint ht hne
  have hout : t.osTcbStatPend ≠ .to → ∀ e q, q ∈ (s.sems e).waiters ↔ q ≠ s.osPrioCur ∧ q ∈ (s.sems e).waiters := by
    intro hto e q
    constructor
    . intro hq
      refine ⟨?_, hq⟩
      rintro rfl
      rw [h.wait_of_tcb ht] at hq
      rcases hq.2 with hsem | hstat
      . rw [hrun.1] at hsem
        contradiction
      . exact hto hstat
    . intro hq
      exact hq.2
  rcases hcase with ⟨hstat, -, rfl⟩ | ⟨hstat, -, rfl⟩ | ⟨hstat, -, rfl⟩
  . refine h.afterPend hint ht hne ?_ ?_ ?_ ?_ ?_ ?_ ?_ ?_
    . rfl
    . rfl
    . rfl
    . rfl
    . rfl
    . rfl
    . apply hout
      simp [hstat]
    . intro e'
      rfl
  . refine h.afterPend hint ht hne ?_ ?_ ?_ ?_ ?_ ?_ ?_ ?_
    . rfl
    . rfl
    . rfl
    . rfl
    . rfl
    . rfl
    . apply hout
      simp [hstat]
    . intro e'
      rfl
  . refine h.afterPend hint ht hne ?_ ?_ ?_ ?_ ?_ ?_ ?_ ?_
    . rfl
    . rfl
    . rfl
    . rfl
    . rfl
    . rfl
    . intro e' q
      change q ∈ (Function.update s.sems e _ e').waiters ↔ _
      rw [Function.update_apply]
      split
      . next heq =>
        subst heq
        rw [TwoLevel.mem_remove (h.prio _ _ ht)]
      . next hother =>
        constructor
        . intro hq
          refine ⟨?_, hq⟩
          rintro rfl
          rw [h.wait_of_tcb ht] at hq
          have heq := hq.1
          rw [hptr, Option.some.injEq] at heq
          exact hother heq.symm
        . intro hq
          exact hq.2
    . intro e'
      change (Function.update s.sems e _ e').osEventCnt = _
      rw [Function.update_apply]
      split
      . next heq => rw [heq]
      . rfl

theorem MayCall.outside {c : KernelCall} (hmay : s.MayCall c) (hint : s.osIntNesting = 0)
    : s.osPrioCur ≠ osLowestPrio ∧ ∀ t, s.osTcbPrioTbl s.osPrioCur = some t → t.osTcbEventPtr = none := by
  unfold MayCall at hmay
  rw [if_neg (by omega)] at hmay
  refine ⟨hmay.1, ?_⟩
  intro t ht
  have hall := hmay.2
  rw [ht] at hall
  simpa using hall

theorem Inv.service (h : s.Inv) {c : KernelCall} (hmay : s.MayCall c) : (s.service c).Inv := by
  have hout := fun hint => hmay.outside hint
  cases c with
  | schedLock => exact h.osSchedLock (fun hint => (hout hint).2)
  | schedUnlock => exact h.osSchedUnlock
  | semPend e timeout => exact h.osSemPend hout
  | semPost e => exact h.osSemPost
  | semAccept e => exact h.osSemAccept
  | semPendAbort e broadcast => exact h.osSemPendAbort broadcast
  | timeDly ticks => exact h.osTimeDly hout
  | timeDlyResume prio => exact h.osTimeDlyResume prio
  | taskSuspend prio =>
    apply h.osTaskSuspend
    intro hself
    by_cases hint : s.osIntNesting = 0
    . exact (hout hint).1
    . unfold MayCall at hmay
      rw [if_pos (by omega), hself] at hmay
      contradiction
  | taskResume prio => exact h.osTaskResume
  | taskCreate prio => exact h.osTaskCreate

theorem Inv.step {a : KernelAct} (h : s.Inv) (hstep : s.step a = some s') : s'.Inv := by
  cases a with
  | intEnter =>
    rw [Kernel.step, Option.some.injEq] at hstep
    rw [← hstep]
    exact h.osIntEnter
  | intExit =>
    rw [Kernel.step, Option.ite_none_right_eq_some, Option.some.injEq] at hstep
    rw [← hstep.2]
    exact h.osIntExit
  | timeTick =>
    rw [Kernel.step, Option.ite_none_right_eq_some, Option.some.injEq] at hstep
    rw [← hstep.2]
    refine ⟨h.toSound.osTimeTick, ?_⟩
    intro hint
    rw [osTimeTick_osIntNesting] at hint
    omega
  | pendReturn =>
    rw [Kernel.step, Option.ite_none_right_eq_some, Option.map_eq_some_iff] at hstep
    obtain ⟨hint, ⟨s₁, err⟩, hret, rfl⟩ := hstep
    exact h.osSemPendReturn hint hret
  | call c =>
    rw [Kernel.step, Option.ite_none_right_eq_some, Option.some.injEq] at hstep
    rw [← hstep.2]
    exact h.service hstep.1

theorem tidy_osInit (tcbs : Nat) (cnt : Nat → UInt16) : (osInit tcbs cnt).Tidy := by
  have hidle : osLowestPrio < 8 * 8 := by decide
  constructor
  . intro p
    unfold osInit
    dsimp only
    rw [TwoLevel.mem_insert hidle, Function.update_apply]
    by_cases hp : p = osLowestPrio
    . simp [hp, KernelTcb.Runnable]
    . simp [hp]
  . intro e p
    unfold osInit
    dsimp only
    rw [Function.update_apply]
    by_cases hp : p = osLowestPrio
    . simp [hp, KernelTcb.Waits]
    . simp [hp]
  . intro p t ht
    unfold osInit at ht
    dsimp only at ht
    rw [Function.update_apply] at ht
    split at ht
    . next hp =>
      rw [hp]
      exact hidle
    . contradiction
  . exact List.nodup_nil
  . intro p
    unfold osInit
    dsimp only
    rw [Function.update_apply]
    by_cases hp : p = osLowestPrio
    . simp [hp]
    . simp [hp]
  . intro p t ht
    unfold osInit at ht
    dsimp only at ht
    rw [Function.update_apply] at ht
    split at ht
    . rw [Option.some.injEq] at ht
      rw [← ht]
      constructor
      . simp
      . simp
    . contradiction
  . intro e p hp
    exact absurd hp TwoLevel.not_mem_empty
  . refine ⟨{ statSem := false, statSuspend := false, osTcbStatPend := .ok, osTcbDly := 0, osTcbEventPtr := none },
      ?_, ?_, rfl⟩
    . simp [osInit]
    . simp [KernelTcb.Runnable]

theorem Tidy.osTaskCreate_before (h : s.Tidy) (p : Nat)
    : (s.osTaskCreate false p).1.Tidy ∧ (s.osTaskCreate false p).1.osLockNesting = s.osLockNesting := by
  rcases osTaskCreate_cases s false p with hsame | ⟨hp, hnone, hfree, hnew⟩
  . rw [hsame]
    exact ⟨h, rfl⟩
  . rw [hnew]
    refine ⟨h.osTcbInit hp hnone, ?_⟩
    unfold Kernel.osTcbInit
    rw [if_pos hfree]
    rfl

theorem inv_osStart (tcbs : Nat) (cnt : Nat → UInt16) (prios : List Nat) : (osStart tcbs cnt prios).Inv := by
  have hcreate : ∀ s : Kernel, s.Tidy → s.osLockNesting = 0 →
      (prios.foldl (fun s p => (s.osTaskCreate false p).1) s).Tidy ∧
        (prios.foldl (fun s p => (s.osTaskCreate false p).1) s).osLockNesting = 0 := by
    induction prios with
    | nil =>
      intro s htidy hlock
      exact ⟨htidy, hlock⟩
    | cons p ps ih =>
      intro s htidy hlock
      obtain ⟨htidy', hlock'⟩ := htidy.osTaskCreate_before p
      exact ih _ htidy' (hlock'.trans hlock)
  obtain ⟨htidy, hlock⟩ := hcreate _ (tidy_osInit tcbs cnt) rfl
  unfold osStart
  dsimp only
  rw [highestPrio_eq htidy.rdy_grp]
  obtain ⟨t, ht, -⟩ := (htidy.rdy _).mp (TwoLevel.first_mem htidy.rdy_grp)
  refine ⟨⟨htidy.congr rfl rfl rfl rfl, t, ht, ?_⟩, ?_⟩
  . intro hne
    exact absurd hlock hne
  . intro _ _
    rfl

theorem inv_reachable {tcbs : Nat} {cnt : Nat → UInt16} {prios : List Nat}
    (hreach : Transition.Reachable step (osStart tcbs cnt prios) s)
    : s.Inv := by
  apply Transition.Reachable.invariant _ (inv_osStart tcbs cnt prios) hreach
  intro s a s' h hstep
  exact h.step hstep

theorem highest_priority_runs {tcbs : Nat} {cnt : Nat → UInt16} {prios : List Nat}
    (hreach : Transition.Reachable step (osStart tcbs cnt prios) s)
    (hint : s.osIntNesting = 0) (hlock : s.osLockNesting = 0)
    : ∃ t, s.osTcbPrioTbl s.osPrioCur = some t ∧ t.Runnable ∧
      ∀ p u, s.osTcbPrioTbl p = some u → u.Runnable → s.osPrioCur ≤ p := by
  have h := inv_reachable hreach
  obtain ⟨t, ht, hrun⟩ := (h.rdy _).mp (TwoLevel.first_mem h.rdy_grp)
  rw [h.cur hint hlock]
  refine ⟨t, ht, hrun, ?_⟩
  intro p u hu hrun'
  apply TwoLevel.first_le
  rw [h.rdy_of_tcb hu]
  exact hrun'

theorem highest_priority_runs_after_post
    : ∃ s, Transition.run step (osStart 20 (fun _ => 0) [10, 20])
        [.call (.semPend 0 0), .intEnter, .call (.semPost 0), .intExit] = some s ∧ s.osPrioCur = 10 ∧
      ∃ t, s.osTcbPrioTbl s.osPrioCur = some t ∧ t.Runnable ∧
        ∀ p u, s.osTcbPrioTbl p = some u → u.Runnable → s.osPrioCur ≤ p := by
  have hrun : Transition.run step (osStart 20 (fun _ => 0) [10, 20])
      [.call (.semPend 0 0), .intEnter, .call (.semPost 0), .intExit] = some _ := rfl
  exact ⟨_, hrun, rfl, highest_priority_runs ⟨_, hrun⟩ rfl rfl⟩

theorem bitmaps_exact {tcbs : Nat} {cnt : Nat → UInt16} {prios : List Nat}
    (hreach : Transition.Reachable step (osStart tcbs cnt prios) s)
    : (∀ p, p ∈ s.rdy ↔ ∃ t, s.osTcbPrioTbl p = some t ∧ t.Runnable) ∧
      (∀ e p, p ∈ (s.sems e).waiters ↔ ∃ t, s.osTcbPrioTbl p = some t ∧ t.Waits e) ∧
      ∀ e p t, (s.sems e).osEventCnt > 0 → s.osTcbPrioTbl p = some t → ¬ t.Waits e := by
  have h := inv_reachable hreach
  refine ⟨h.rdy, h.wait, ?_⟩
  intro e p t hcnt ht
  rw [← h.wait_of_tcb ht]
  exact TwoLevel.grp_eq_zero_iff.mp (h.waiters_grp hcnt) p

theorem bitmaps_exact_of_wait
    : ∃ s, Transition.run step (osStart 20 (fun _ => 0) [10, 20]) [.call (.semPend 0 0)] = some s ∧
      10 ∈ (s.sems 0).waiters ∧ (∀ p, p ∈ s.rdy ↔ ∃ t, s.osTcbPrioTbl p = some t ∧ t.Runnable) ∧
      (∀ e p, p ∈ (s.sems e).waiters ↔ ∃ t, s.osTcbPrioTbl p = some t ∧ t.Waits e) ∧
      ∀ e p t, (s.sems e).osEventCnt > 0 → s.osTcbPrioTbl p = some t → ¬ t.Waits e := by
  have hrun : Transition.run step (osStart 20 (fun _ => 0) [10, 20]) [.call (.semPend 0 0)] = some _ := rfl
  refine ⟨_, hrun, ?_, bitmaps_exact ⟨_, hrun⟩⟩
  decide +kernel

theorem post_wakes_highest {tcbs : Nat} {cnt : Nat → UInt16} {prios : List Nat}
    (hreach : Transition.Reachable step (osStart tcbs cnt prios) s)
    (hwait : ∃ q u, s.osTcbPrioTbl q = some u ∧ u.Waits e)
    : ∃ p t, s.osTcbPrioTbl p = some t ∧ t.Waits e ∧
      (∀ q u, s.osTcbPrioTbl q = some u → u.Waits e → p ≤ q) ∧
      (s.osSemPost e).1.osTcbPrioTbl = Function.update s.osTcbPrioTbl p
        (some { t with osTcbDly := 0, statSem := false, osTcbStatPend := .ok }) ∧
      (p ∈ (s.osSemPost e).1.rdy ↔ t.statSuspend = false) ∧
      (∀ e', ((s.osSemPost e).1.sems e').osEventCnt = (s.sems e').osEventCnt) ∧
      (s.osSemPost e).2 = .none := by
  have h := inv_reachable hreach
  obtain ⟨q, u, hu, hq⟩ := hwait
  have hgrp := TwoLevel.grp_ne_zero ((h.wait e q).mpr ⟨u, hu, hq⟩)
  obtain ⟨t, ht, hwaits, -⟩ := h.waiter hgrp
  have hpost : s.osSemPost e =
      (osSched { s.osEventTaskRdy e .ok with log := s.log ++ [TokenEvent.posted e] }, .none) := by
    unfold osSemPost
    dsimp only
    rw [if_pos hgrp]
  have htcb : (s.osSemPost e).1.osTcbPrioTbl = Function.update s.osTcbPrioTbl (s.sems e).waiters.first
      (some { t with osTcbDly := 0, statSem := false, osTcbStatPend := .ok }) := by
    rw [hpost, osSched_osTcbPrioTbl, osEventTaskRdy_eq hgrp ht]
  refine ⟨_, t, ht, hwaits, ?_, htcb, ?_, ?_, ?_⟩
  . intro q u hu hq
    apply TwoLevel.first_le
    rw [h.wait_of_tcb hu]
    exact hq
  . rw [(h.osSemPost).rdy_of_tcb (t := { t with osTcbDly := 0, statSem := false, osTcbStatPend := .ok })]
    . simp [KernelTcb.Runnable]
    . rw [htcb, Function.update_self]
  . intro e'
    rw [hpost, osSched_sems, osEventTaskRdy_eq hgrp ht]
    change (Function.update s.sems e _ e').osEventCnt = _
    rw [Function.update_apply]
    split
    . next heq => rw [heq]
    . rfl
  . rw [hpost]

theorem post_wakes_highest_of_two
    : ∃ s, Transition.run step (osStart 20 (fun _ => 0) [10, 20])
        [.call (.semPend 0 0), .call (.semPend 0 0), .intEnter] = some s ∧
      ∃ p t, s.osTcbPrioTbl p = some t ∧ t.Waits 0 ∧
        (∀ q u, s.osTcbPrioTbl q = some u → u.Waits 0 → p ≤ q) ∧
        (s.osSemPost 0).1.osTcbPrioTbl = Function.update s.osTcbPrioTbl p
          (some { t with osTcbDly := 0, statSem := false, osTcbStatPend := .ok }) ∧
        (p ∈ (s.osSemPost 0).1.rdy ↔ t.statSuspend = false) ∧
        (∀ e', ((s.osSemPost 0).1.sems e').osEventCnt = (s.sems e').osEventCnt) ∧
        (s.osSemPost 0).2 = .none := by
  have hrun : Transition.run step (osStart 20 (fun _ => 0) [10, 20])
      [.call (.semPend 0 0), .call (.semPend 0 0), .intEnter] = some _ := rfl
  exact ⟨_, hrun, post_wakes_highest ⟨_, hrun⟩ ⟨10, _, rfl, rfl, .inl rfl⟩⟩

end Kernel

end SerialGateway
