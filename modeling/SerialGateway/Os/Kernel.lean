import SerialGateway.Lib.TwoLevel
import SerialGateway.Lib.Transition

/-!
This module contains the scheduler of uC/OS-II (`os_core.c`), its semaphores with any number of tasks (`os_sem.c`),
its delays (`os_time.c`) and the suspension of tasks (`os_task.c`).
-/

namespace SerialGateway

def osLowestPrio : Nat := 63

inductive StatPend where
  | ok
  | to
  | abort
  deriving DecidableEq, Repr

/--
The part of a task control block `OS_TCB` that decides whether the task is ready. `statSem` and `statSuspend` are
the bits `OS_STAT_SEM` and `OS_STAT_SUSPEND` of `OSTCBStat`.
-/
structure KernelTcb where
  statSem : Bool
  statSuspend : Bool
  osTcbStatPend : StatPend
  osTcbDly : Nat
  osTcbEventPtr : Option Nat
  deriving DecidableEq, Repr

structure OsSem where
  osEventCnt : UInt16
  waiters : TwoLevel 8

inductive TokenEvent where
  | posted (e : Nat)
  | taken (e : Nat)
  deriving DecidableEq, Repr

/--
`rdy` are `OSRdyGrp` and `OSRdyTbl`, `osTcbList` is the part of `OSTCBList` in front of the idle task and `osTcbFree`
the length of `OSTCBFreeList`. Tasks go by their priorities.
-/
structure Kernel where
  rdy : TwoLevel 8
  osTcbPrioTbl : Nat → Option KernelTcb
  osTcbList : List Nat
  osTcbFree : Nat
  sems : Nat → OsSem
  osPrioCur : Nat
  osIntNesting : Nat
  osLockNesting : Nat
  log : List TokenEvent

inductive KernelErr where
  | none
  | pendIsr
  | pendLocked
  | pendAbort
  | timeout
  | semOvf
  | prioInvalid
  | prioExist
  | taskCreateIsr
  | taskNoMoreTcb
  | taskNotExist
  | timeNotDly
  | taskSuspendIdle
  | taskSuspendPrio
  | taskResumePrio
  | taskNotSuspended
  deriving DecidableEq, Repr

def osUnMapTbl : List Nat := [
  0, 0, 1, 0, 2, 0, 1, 0, 3, 0, 1, 0, 2, 0, 1, 0,
  4, 0, 1, 0, 2, 0, 1, 0, 3, 0, 1, 0, 2, 0, 1, 0,
  5, 0, 1, 0, 2, 0, 1, 0, 3, 0, 1, 0, 2, 0, 1, 0,
  4, 0, 1, 0, 2, 0, 1, 0, 3, 0, 1, 0, 2, 0, 1, 0,
  6, 0, 1, 0, 2, 0, 1, 0, 3, 0, 1, 0, 2, 0, 1, 0,
  4, 0, 1, 0, 2, 0, 1, 0, 3, 0, 1, 0, 2, 0, 1, 0,
  5, 0, 1, 0, 2, 0, 1, 0, 3, 0, 1, 0, 2, 0, 1, 0,
  4, 0, 1, 0, 2, 0, 1, 0, 3, 0, 1, 0, 2, 0, 1, 0,
  7, 0, 1, 0, 2, 0, 1, 0, 3, 0, 1, 0, 2, 0, 1, 0,
  4, 0, 1, 0, 2, 0, 1, 0, 3, 0, 1, 0, 2, 0, 1, 0,
  5, 0, 1, 0, 2, 0, 1, 0, 3, 0, 1, 0, 2, 0, 1, 0,
  4, 0, 1, 0, 2, 0, 1, 0, 3, 0, 1, 0, 2, 0, 1, 0,
  6, 0, 1, 0, 2, 0, 1, 0, 3, 0, 1, 0, 2, 0, 1, 0,
  4, 0, 1, 0, 2, 0, 1, 0, 3, 0, 1, 0, 2, 0, 1, 0,
  5, 0, 1, 0, 2, 0, 1, 0, 3, 0, 1, 0, 2, 0, 1, 0,
  4, 0, 1, 0, 2, 0, 1, 0, 3, 0, 1, 0, 2, 0, 1, 0]

def osUnMap (v : BitVec 8) : Nat := osUnMapTbl.getD v.toNat 0

def highestPrio (s : TwoLevel 8) : Nat :=
  let y := osUnMap s.grp
  (y <<< 3) + osUnMap (s.tbl y)

theorem osUnMap_eq : ∀ v : BitVec 8, v ≠ 0 → osUnMap v = v.ctz.toNat := by
  decide +kernel

theorem highestPrio_eq {s : TwoLevel 8} (h : s.grp ≠ 0) : highestPrio s = s.first := by
  have hbit := BitVec.getLsbD_true_ctz_of_ne_zero h
  have hrow := (s.grp_iff _ (BitVec.lt_of_getLsbD hbit)).mp hbit
  unfold highestPrio TwoLevel.first
  dsimp only
  rw [osUnMap_eq _ h, osUnMap_eq _ hrow, Nat.shiftLeft_eq]

namespace Kernel

def setTcb (s : Kernel) (prio : Nat) (ptcb : KernelTcb) : Kernel :=
  { s with osTcbPrioTbl := Function.update s.osTcbPrioTbl prio (some ptcb) }

def setSem (s : Kernel) (e : Nat) (pevent : OsSem) : Kernel :=
  { s with sems := Function.update s.sems e pevent }

/--
`OS_Sched`. The context switch is pended by the port and taken as soon as interrupts are enabled again.
-/
def osSched (s : Kernel) : Kernel :=
  if s.osIntNesting = 0 then
    if s.osLockNesting = 0 then
      { s with osPrioCur := highestPrio s.rdy }
    else
      s
  else
    s

def osIntEnter (s : Kernel) : Kernel :=
  if s.osIntNesting < 255 then { s with osIntNesting := s.osIntNesting + 1 } else s

def osIntExit (s : Kernel) : Kernel :=
  osSched (if s.osIntNesting > 0 then { s with osIntNesting := s.osIntNesting - 1 } else s)

def osSchedLock (s : Kernel) : Kernel :=
  if s.osIntNesting = 0 then
    if s.osLockNesting < 255 then { s with osLockNesting := s.osLockNesting + 1 } else s
  else
    s

def osSchedUnlock (s : Kernel) : Kernel :=
  if s.osLockNesting > 0 then
    osSched { s with osLockNesting := s.osLockNesting - 1 }
  else
    s

def osEventTaskRdy (s : Kernel) (e : Nat) (pendStat : StatPend) : Kernel :=
  let pevent := s.sems e
  let prio := highestPrio pevent.waiters
  match s.osTcbPrioTbl prio with
  | none => s
  | some ptcb =>
    let ptcb := { ptcb with osTcbDly := 0, statSem := false, osTcbStatPend := pendStat }
    let s := s.setTcb prio ptcb
    let s := if ptcb.statSuspend then s else { s with rdy := s.rdy.insert prio }
    s.setSem e { pevent with waiters := pevent.waiters.remove prio }

def osEventTaskWait (s : Kernel) (ptcb : KernelTcb) (e : Nat) : Kernel :=
  let pevent := s.sems e
  let s := s.setTcb s.osPrioCur { ptcb with osTcbEventPtr := some e }
  let s := s.setSem e { pevent with waiters := pevent.waiters.insert s.osPrioCur }
  { s with rdy := s.rdy.remove s.osPrioCur }

def osSemAccept (s : Kernel) (e : Nat) : Kernel × UInt16 :=
  let pevent := s.sems e
  if pevent.osEventCnt > 0 then
    ({ s.setSem e { pevent with osEventCnt := pevent.osEventCnt - 1 } with log := s.log ++ [.taken e] },
      pevent.osEventCnt)
  else
    (s, pevent.osEventCnt)

/--
`OSSemPend` up to the point where it returns an error or suspends the current task.
-/
def osSemPend (s : Kernel) (e timeout : Nat) : Kernel × Option KernelErr :=
  let pevent := s.sems e
  if s.osIntNesting > 0 then
    (s, some .pendIsr)
  else if s.osLockNesting > 0 then
    (s, some .pendLocked)
  else if pevent.osEventCnt > 0 then
    ({ s.setSem e { pevent with osEventCnt := pevent.osEventCnt - 1 } with log := s.log ++ [.taken e] },
      some .none)
  else
    match s.osTcbPrioTbl s.osPrioCur with
    | none => (s, none)
    | some ptcb =>
      let ptcb := { ptcb with statSem := true, osTcbStatPend := .ok, osTcbDly := timeout }
      (osSched (s.osEventTaskWait ptcb e), none)

def osSemPendReturn (s : Kernel) : Option (Kernel × KernelErr) :=
  match s.osTcbPrioTbl s.osPrioCur with
  | none => none
  | some ptcb =>
    match ptcb.osTcbEventPtr with
    | none => none
    | some e =>
      let pevent := s.sems e
      let (s, err) := match ptcb.osTcbStatPend with
        | .ok => ({ s with log := s.log ++ [TokenEvent.taken e] }, KernelErr.none)
        | .abort => (s, .pendAbort)
        | .to => (s.setSem e { pevent with waiters := pevent.waiters.remove s.osPrioCur }, .timeout)
      some (s.setTcb s.osPrioCur
        { ptcb with statSem := false, statSuspend := false, osTcbStatPend := .ok, osTcbEventPtr := none }, err)

def osSemPost (s : Kernel) (e : Nat) : Kernel × KernelErr :=
  let pevent := s.sems e
  if pevent.waiters.grp ≠ 0 then
    (osSched { s.osEventTaskRdy e .ok with log := s.log ++ [.posted e] }, .none)
  else if pevent.osEventCnt < 65535 then
    ({ s.setSem e { pevent with osEventCnt := pevent.osEventCnt + 1 } with log := s.log ++ [.posted e] }, .none)
  else
    (s, .semOvf)

/--
The loop that readies all tasks waiting for a semaphore, of which there are not more than 64.
-/
def abortAll (e : Nat) : Nat → Kernel → Kernel
  | 0, s => s
  | fuel + 1, s => if (s.sems e).waiters.grp ≠ 0 then abortAll e fuel (s.osEventTaskRdy e .abort) else s

def osSemPendAbort (s : Kernel) (e : Nat) (broadcast : Bool) : Kernel × KernelErr :=
  if (s.sems e).waiters.grp ≠ 0 then
    if broadcast then
      (osSched (abortAll e 64 s), .pendAbort)
    else
      (osSched (s.osEventTaskRdy e .abort), .pendAbort)
  else
    (s, .none)

def osTimeDly (s : Kernel) (ticks : Nat) : Kernel :=
  if s.osIntNesting > 0 then
    s
  else if s.osLockNesting > 0 then
    s
  else if ticks > 0 then
    match s.osTcbPrioTbl s.osPrioCur with
    | none => s
    | some ptcb =>
      osSched { s.setTcb s.osPrioCur { ptcb with osTcbDly := ticks } with rdy := s.rdy.remove s.osPrioCur }
  else
    s

/--
The end of a delay, in `OSTimeTick` and in `OSTimeDlyResume`.
-/
def endDly (s : Kernel) (prio : Nat) (ptcb : KernelTcb) : Kernel :=
  let ptcb := { ptcb with osTcbDly := 0 }
  let ptcb :=
    if ptcb.statSem then { ptcb with statSem := false, osTcbStatPend := .to } else { ptcb with osTcbStatPend := .ok }
  let s := s.setTcb prio ptcb
  if ptcb.statSuspend then s else { s with rdy := s.rdy.insert prio }

def tickTcb (s : Kernel) (prio : Nat) : Kernel :=
  match s.osTcbPrioTbl prio with
  | none => s
  | some ptcb =>
    if ptcb.osTcbDly ≠ 0 then
      if ptcb.osTcbDly - 1 = 0 then
        s.endDly prio ptcb
      else
        s.setTcb prio { ptcb with osTcbDly := ptcb.osTcbDly - 1 }
    else
      s

def osTimeTick (s : Kernel) : Kernel :=
  s.osTcbList.foldl tickTcb s

def osTimeDlyResume (s : Kernel) (prio : Nat) : Kernel × KernelErr :=
  if prio ≥ osLowestPrio then
    (s, .prioInvalid)
  else
    match s.osTcbPrioTbl prio with
    | none => (s, .taskNotExist)
    | some ptcb =>
      if ptcb.osTcbDly = 0 then
        (s, .timeNotDly)
      else if ptcb.statSuspend then
        (s.endDly prio ptcb, .none)
      else
        (osSched (s.endDly prio ptcb), .none)

def osPrioSelf : Nat := 255

def osTaskSuspend (s : Kernel) (prio : Nat) : Kernel × KernelErr :=
  if prio = osLowestPrio then
    (s, .taskSuspendIdle)
  else if prio ≥ osLowestPrio ∧ prio ≠ osPrioSelf then
    (s, .prioInvalid)
  else
    let prio := if prio = osPrioSelf then s.osPrioCur else prio
    match s.osTcbPrioTbl prio with
    | none => (s, .taskSuspendPrio)
    | some ptcb =>
      let s := { s.setTcb prio { ptcb with statSuspend := true } with rdy := s.rdy.remove prio }
      if prio = s.osPrioCur then (osSched s, .none) else (s, .none)

def osTaskResume (s : Kernel) (prio : Nat) : Kernel × KernelErr :=
  if prio ≥ osLowestPrio then
    (s, .prioInvalid)
  else
    match s.osTcbPrioTbl prio with
    | none => (s, .taskResumePrio)
    | some ptcb =>
      if ptcb.statSuspend then
        let s := s.setTcb prio { ptcb with statSuspend := false }
        if ptcb.statSem = false ∧ ptcb.osTcbDly = 0 then
          (osSched { s with rdy := s.rdy.insert prio }, .none)
        else
          (s, .none)
      else
        (s, .taskNotSuspended)

def osTcbInit (s : Kernel) (prio : Nat) : Kernel × KernelErr :=
  if s.osTcbFree > 0 then
    let s := s.setTcb prio
      { statSem := false, statSuspend := false, osTcbStatPend := .ok, osTcbDly := 0, osTcbEventPtr := none }
    ({ s with
        osTcbFree := s.osTcbFree - 1
        osTcbList := prio :: s.osTcbList
        rdy := s.rdy.insert prio }, .none)
  else
    (s, .taskNoMoreTcb)

/--
`OSTaskCreate` and `OSTaskCreateExt`, before (`running` is false) and after `OSStart`.
-/
def osTaskCreate (s : Kernel) (running : Bool) (prio : Nat) : Kernel × KernelErr :=
  if prio > osLowestPrio then
    (s, .prioInvalid)
  else if s.osIntNesting > 0 then
    (s, .taskCreateIsr)
  else
    match s.osTcbPrioTbl prio with
    | some _ => (s, .prioExist)
    | none =>
      match s.osTcbInit prio with
      | (s, .none) => (if running then osSched s else s, .none)
      | (s, err) => (s, err)

end Kernel

inductive KernelCall where
  | schedLock
  | schedUnlock
  | semPend (e timeout : Nat)
  | semPost (e : Nat)
  | semAccept (e : Nat)
  | semPendAbort (e : Nat) (broadcast : Bool)
  | timeDly (ticks : Nat)
  | timeDlyResume (prio : Nat)
  | taskSuspend (prio : Nat)
  | taskResume (prio : Nat)
  | taskCreate (prio : Nat)
  deriving DecidableEq, Repr

/--
`pendReturn` is the current task going on in `OSSemPend` behind `OS_Sched`.
-/
inductive KernelAct where
  | intEnter
  | intExit
  | timeTick
  | pendReturn
  | call (c : KernelCall)
  deriving DecidableEq, Repr

namespace Kernel

def service (s : Kernel) : KernelCall → Kernel
  | .schedLock => s.osSchedLock
  | .schedUnlock => s.osSchedUnlock
  | .semPend e timeout => (s.osSemPend e timeout).1
  | .semPost e => (s.osSemPost e).1
  | .semAccept e => (s.osSemAccept e).1
  | .semPendAbort e broadcast => (s.osSemPendAbort e broadcast).1
  | .timeDly ticks => s.osTimeDly ticks
  | .timeDlyResume prio => (s.osTimeDlyResume prio).1
  | .taskSuspend prio => (s.osTaskSuspend prio).1
  | .taskResume prio => (s.osTaskResume prio).1
  | .taskCreate prio => (s.osTaskCreate true prio).1

/--
A task calls services when it is neither the idle task nor inside `OSSemPend`. An interrupt handler calls any,
but does not suspend the task that it interrupts as `OS_PRIO_SELF`.
-/
def MayCall (s : Kernel) (c : KernelCall) : Prop :=
  if s.osIntNesting > 0 then
    c ≠ .taskSuspend osPrioSelf
  else
    s.osPrioCur ≠ osLowestPrio ∧ (s.osTcbPrioTbl s.osPrioCur).all (·.osTcbEventPtr = none)

instance (s : Kernel) (c : KernelCall) : Decidable (s.MayCall c) := by
  unfold MayCall
  infer_instance

def step (s : Kernel) : KernelAct → Option Kernel
  | .intEnter => some s.osIntEnter
  | .intExit => if s.osIntNesting > 0 then some s.osIntExit else none
  | .timeTick => if s.osIntNesting > 0 then some s.osTimeTick else none
  | .pendReturn => if s.osIntNesting = 0 then s.osSemPendReturn.map (·.1) else none
  | .call c => if s.MayCall c then some (s.service c) else none

def osInit (tcbs : Nat) (cnt : Nat → UInt16) : Kernel where
  rdy := (TwoLevel.empty 8).insert osLowestPrio
  osTcbPrioTbl := Function.update (fun _ => none) osLowestPrio (some
    { statSem := false, statSuspend := false, osTcbStatPend := .ok, osTcbDly := 0, osTcbEventPtr := none })
  osTcbList := []
  osTcbFree := tcbs
  sems e := { osEventCnt := cnt e, waiters := TwoLevel.empty 8 }
  osPrioCur := 0
  osIntNesting := 0
  osLockNesting := 0
  log := []

def osStart (tcbs : Nat) (cnt : Nat → UInt16) (prios : List Nat) : Kernel :=
  let s := prios.foldl (fun s prio => (s.osTaskCreate false prio).1) (osInit tcbs cnt)
  { s with osPrioCur := highestPrio s.rdy }

end Kernel

end SerialGateway
