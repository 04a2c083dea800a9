import Mathlib.Logic.Function.Basic

/-!
This module contains the timeout lists of lwIP (`sys.c`) with the lookup of the list of a task that
`sys_arch.c` provides, and the tasks that register timeouts, cancel them and wait.
-/

namespace SerialGateway

inductive TimeoutHandler where
  | sswtHandler
  | user (h : Nat)
  deriving DecidableEq, Repr

/--
`struct sys_timeo`. `time` is relative to the entry before it, `id` tells registrations apart.
-/
structure SysTimeo where
  time : UInt32
  h : Option TimeoutHandler
  arg : Nat
  id : Nat
  deriving DecidableEq, Repr

def insertAfter (timeout t : SysTimeo) : List SysTimeo → List SysTimeo
  | [] => [t, { timeout with time := timeout.time - t.time }]
  | n :: rest =>
    let timeout := { timeout with time := timeout.time - t.time }
    if n.time > timeout.time then
      t :: timeout :: { n with time := n.time - timeout.time } :: rest
    else
      t :: insertAfter timeout n rest

def insertTimeout (timeout : SysTimeo) : List SysTimeo → List SysTimeo
  | [] => [timeout]
  | t :: rest =>
    if t.time > timeout.time then
      timeout :: { t with time := t.time - timeout.time } :: rest
    else
      insertAfter timeout t rest

def removeTimeout (h : Option TimeoutHandler) (arg : Nat)
    : List SysTimeo → Option SysTimeo × List SysTimeo
  | [] => (none, [])
  | t :: rest =>
    if t.h = h ∧ t.arg = arg then
      match rest with
      | [] => (some t, [])
      | n :: rest => (some t, { n with time := n.time + t.time } :: rest)
    else
      ((removeTimeout h arg rest).1, t :: (removeTimeout h arg rest).2)

def elapse (timeNeeded : UInt32) : List SysTimeo → List SysTimeo
  | [] => []
  | t :: rest => { t with time := if timeNeeded < t.time then t.time - timeNeeded else 0 } :: rest

def lwipStartPrio : UInt8 := 2

abbrev lwipTaskMax : Nat := 3

def mempNumSysTimeout : Nat := 5

/--
What `sys_arch_timeouts` returns a pointer to: an element of `lwip_timeouts`, or `null_timeouts`.
-/
def timeoutSlot (currPrio : UInt8) : Option (Fin lwipTaskMax) :=
  let ubldx := (currPrio - lwipStartPrio).toInt8
  if ubldx ≥ 0 ∧ ubldx < 3 then some (Fin.ofNat lwipTaskMax ubldx.toNatClampNeg) else none

/--
The calls a task is inside of, the innermost first: the wait of `sys_sem_wait` or `sys_mbox_fetch`
before it looks up the list (`again`) and suspended in the kernel (`blocked`, with the timeout, forever
if there is none), `sys_sem_wait_timeout` with its `sswt_cb`, and a handler that a wait has called.
-/
inductive TimeoutFrame where
  | again
  | blocked (time : Option UInt32)
  | semWaitTimeout (sswtCb : Nat) (timeout : UInt32) (timeflag : Bool)
  | handler
  deriving DecidableEq, Repr

def TimeoutFrame.setTimeflag (sswtCb : Nat) : TimeoutFrame → TimeoutFrame
  | semWaitTimeout cb timeout timeflag => semWaitTimeout cb timeout (timeflag || cb == sswtCb)
  | frame => frame

inductive TimeoutEvent where
  | registered (prio : UInt8) (id : Nat)
  | fired (id : Nat)
  | cancelled (id : Nat)
  deriving DecidableEq, Repr

/--
Tasks are known by their priority. `mempFree` counts the free elements of `MEMP_SYS_TIMEOUT`.
-/
structure TimeoutState where
  lwipTimeouts : Fin lwipTaskMax → List SysTimeo
  nullTimeouts : List SysTimeo
  mempFree : Nat
  frames : UInt8 → List TimeoutFrame
  nextId : Nat
  log : List TimeoutEvent

namespace TimeoutState

def start : TimeoutState :=
  { lwipTimeouts := fun _ => []
    nullTimeouts := []
    mempFree := mempNumSysTimeout
    frames := fun _ => []
    nextId := 0
    log := [] }

/--
`sys_arch_timeouts`, which empties the shared list each time.
-/
def sysArchTimeouts (s : TimeoutState) (prio : UInt8)
    : TimeoutState × Option (Fin lwipTaskMax) :=
  ({ s with nullTimeouts := [] }, timeoutSlot prio)

def timeouts (s : TimeoutState) : Option (Fin lwipTaskMax) → List SysTimeo
  | some i => s.lwipTimeouts i
  | none => s.nullTimeouts

def setTimeouts (s : TimeoutState) (slot : Option (Fin lwipTaskMax)) (list : List SysTimeo)
    : TimeoutState :=
  match slot with
  | some i => { s with lwipTimeouts := Function.update s.lwipTimeouts i list }
  | none => { s with nullTimeouts := list }

def setFrames (s : TimeoutState) (prio : UInt8) (frames : List TimeoutFrame) : TimeoutState :=
  { s with frames := Function.update s.frames prio frames }

def sysTimeout (s : TimeoutState) (prio : UInt8) (msecs : UInt32) (h : Option TimeoutHandler)
    (arg : Nat)
    : TimeoutState :=
  let timeout := { time := msecs, h, arg, id := s.nextId }
  let s := { s with nextId := s.nextId + 1, log := s.log ++ [.registered prio s.nextId] }
  -- `memp_malloc`; the assertion on its result is compiled out
  if s.mempFree = 0 then
    s
  else
    let s := { s with mempFree := s.mempFree - 1 }
    let (s, slot) := s.sysArchTimeouts prio
    s.setTimeouts slot (insertTimeout timeout (s.timeouts slot))

def unlink (s : TimeoutState) (slot : Option (Fin lwipTaskMax)) (list : List SysTimeo)
    (event : TimeoutEvent)
    : TimeoutState :=
  let s := s.setTimeouts slot list
  { s with mempFree := s.mempFree + 1, log := s.log ++ [event] }

def sysUntimeout (s : TimeoutState) (prio : UInt8) (h : Option TimeoutHandler) (arg : Nat)
    : TimeoutState :=
  let (s, slot) := s.sysArchTimeouts prio
  match removeTimeout h arg (s.timeouts slot) with
  | (none, _) => s
  | (some t, list) => s.unlink slot list (.cancelled t.id)

def sswtHandler (s : TimeoutState) (sswtCb : Nat) : TimeoutState :=
  { s with frames := fun prio => (s.frames prio).map (TimeoutFrame.setTimeflag sswtCb) }

def fire (s : TimeoutState) (prio : UInt8) (frames : List TimeoutFrame) : Option TimeoutState :=
  let slot := timeoutSlot prio
  match s.timeouts slot with
  -- the code would read through a null pointer
  | [] => none
  | t :: rest =>
    let s := s.unlink slot rest (.fired t.id)
    match t.h with
    | none => some (s.setFrames prio (.again :: frames))
    | some .sswtHandler => some ((s.setFrames prio (.again :: frames)).sswtHandler t.arg)
    | some (.user _) => some (s.setFrames prio (.handler :: .again :: frames))

def Running : List TimeoutFrame → Bool
  | [] => true
  | .handler :: _ => true
  | _ => false

inductive Act where
  | timeout (prio : UInt8) (msecs : UInt32) (h : Option Nat) (arg : Nat)
  | untimeout (prio : UInt8) (h : Option Nat) (arg : Nat)
  | wait (prio : UInt8)
  | semWaitTimeout (prio : UInt8) (timeout : UInt32)
  | lookup (prio : UInt8)
  | wake (prio : UInt8) (timeNeeded : UInt32)
  | expire (prio : UInt8)
  | finish (prio : UInt8)
  | handlerReturn (prio : UInt8)
  deriving DecidableEq, Repr

def Act.prio : Act → UInt8
  | timeout prio _ _ _ | untimeout prio _ _ | wait prio | semWaitTimeout prio _ | lookup prio
  | wake prio _ | expire prio | finish prio | handlerReturn prio => prio

def step (s : TimeoutState) : Act → Option TimeoutState
  | .timeout prio msecs h arg =>
    if Running (s.frames prio) then some (s.sysTimeout prio msecs (h.map .user) arg) else none
  | .untimeout prio h arg =>
    if Running (s.frames prio) then some (s.sysUntimeout prio (h.map .user) arg) else none
  | .wait prio =>
    if Running (s.frames prio) then some (s.setFrames prio (.again :: s.frames prio)) else none
  | .semWaitTimeout prio timeout =>
    if Running (s.frames prio) then
      -- the address of `sswt_cb` is the number of its timeout
      let sswtCb := s.nextId
      let frames := .again :: .semWaitTimeout sswtCb timeout false :: s.frames prio
      if timeout > 0 then
        some ((s.sysTimeout prio timeout (some .sswtHandler) sswtCb).setFrames prio frames)
      else
        some ({ s with nextId := s.nextId + 1 }.setFrames prio frames)
    else
      none
  | .lookup prio =>
    match s.frames prio with
    | .again :: frames =>
      let (s, slot) := s.sysArchTimeouts prio
      match s.timeouts slot with
      | [] => some (s.setFrames prio (.blocked none :: frames))
      | t :: _ =>
        if t.time > 0 then
          some (s.setFrames prio (.blocked (some t.time) :: frames))
        else
          s.fire prio frames
    | _ => none
  | .wake prio timeNeeded =>
    match s.frames prio with
    | .blocked none :: frames => some (s.setFrames prio frames)
    | .blocked (some _) :: frames =>
      let slot := timeoutSlot prio
      match s.timeouts slot with
      | [] => none
      | list => some ((s.setTimeouts slot (elapse timeNeeded list)).setFrames prio frames)
    | _ => none
  | .expire prio =>
    match s.frames prio with
    | .blocked (some _) :: frames => s.fire prio frames
    | _ => none
  | .finish prio =>
    match s.frames prio with
    | .semWaitTimeout sswtCb _ timeflag :: frames =>
      let s := s.setFrames prio frames
      if timeflag then some s else some (s.sysUntimeout prio (some .sswtHandler) sswtCb)
    | _ => none
  | .handlerReturn prio =>
    match s.frames prio with
    | .handler :: frames => some (s.setFrames prio frames)
    | _ => none

def handed (s : TimeoutState) (prio : UInt8) : List SysTimeo :=
  let (s, slot) := s.sysArchTimeouts prio
  s.timeouts slot

def Live (s : TimeoutState) (prio : UInt8) (id : Nat) : Prop :=
  TimeoutEvent.registered prio id ∈ s.log ∧ TimeoutEvent.fired id ∉ s.log ∧
    TimeoutEvent.cancelled id ∉ s.log

end TimeoutState

end SerialGateway
