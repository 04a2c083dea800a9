import SerialGateway.Os.Semaphore

/-!
This module contains the variables the firmware keeps for a serial port and what the receive
interrupts of `SCI.c`, the timer interrupt of `stm32f107.c` and the task of `uctsk_TCP_client.c` do
to them.
-/

namespace SerialGateway

/--
The variables of one serial port. In the source every name carries the prefix `RS232_` or `RS485_`
(`rs232_`, `rs485_`), `recSem` is `sem_RS232_rec_flag` respectively `sem_RS485_rec_flag`.
-/
structure Port (size : Nat) where
  recBuf : Vector UInt8 size
  recCounter : UInt8
  startTimeFlag : UInt8
  recTimeCounter : UInt32
  timeOutFlag : UInt32
  tcpSendCounter : UInt8
  recSem : Option OsEvent
  deriving DecidableEq

namespace Port

variable {size : Nat}

def bytes (p : Port size) (n : Nat) : List UInt8 := p.recBuf.toList.take n

-- The statements of the receive interrupt, in the order in which it runs them.

def storeByte (p : Port size) (dr : UInt8) : Port size :=
  { p with recBuf := p.recBuf.setIfInBounds p.recCounter.toNat dr }

def countByte (p : Port size) : Port size := { p with recCounter := p.recCounter + 1 }

def startTimer (p : Port size) : Port size := { p with startTimeFlag := 1 }

def clearTime (p : Port size) : Port size := { p with recTimeCounter := 0 }

def overflows (p : Port size) : Bool := p.recCounter.toNat > size

def resetCount (p : Port size) : Port size := { p with recCounter := 0 }

def stopTimer (p : Port size) : Port size := { p with startTimeFlag := 0 }

def receive (p : Port size) (dr : UInt8) : Port size :=
  let p := p.storeByte dr
  let p := p.countByte
  let p := p.startTimer
  let p := p.clearTime
  if p.overflows then
    let p := p.resetCount
    let p := p.startTimer
    p.stopTimer
  else
    p

def timeout (p : Port size) : Port size × Bool :=
  if p.startTimeFlag = 1 then
    let p := { p with recTimeCounter := p.recTimeCounter + 1 }
    if p.recTimeCounter ≥ 1 then
      let p := { p with timeOutFlag := 1, startTimeFlag := 0 }
      ({ p with recSem := (osSemPost p.recSem).1 }, true)
    else
      (p, false)
  else
    (p, false)

def copyCounter (p : Port size) : Port size := { p with tcpSendCounter := p.recCounter }

def sendData (p : Port size) : List UInt8 := p.bytes p.tcpSendCounter.toNat

def PoweredOn (p : Port size) : Prop :=
  p.recCounter = 0 ∧ p.startTimeFlag = 0 ∧ p.recTimeCounter = 0 ∧ p.tcpSendCounter = 0
    ∧ p.recSem = none

@[simp]
theorem bytes_zero (p : Port size) : p.bytes 0 = [] := by
  simp [bytes]

theorem length_bytes {n : Nat} (p : Port size) (h : n ≤ size) : (p.bytes n).length = n := by
  simp [bytes, h]

theorem bytes_congr {p p' : Port size} (h : p'.recBuf = p.recBuf) (n : Nat)
    : p'.bytes n = p.bytes n := by
  simp [bytes, h]

theorem bytes_storeByte_succ (p : Port size) (dr : UInt8) (h : p.recCounter.toNat < size)
    : (p.storeByte dr).bytes (p.recCounter.toNat + 1) = p.bytes p.recCounter.toNat ++ [dr] := by
  simp only [bytes, storeByte, Vector.toList_setIfInBounds]
  rw [List.take_add_one]
  simp [List.take_set_of_le, h]

theorem bytes_storeByte_of_le (p : Port size) (dr : UInt8) {n : Nat} (h : n ≤ p.recCounter.toNat)
    : (p.storeByte dr).bytes n = p.bytes n := by
  simp [bytes, storeByte, List.take_set_of_le, h]

theorem bytes_storeByte_of_eq (p : Port size) (dr : UInt8) {n : Nat}
    (h : p.recBuf[p.recCounter.toNat]? = some dr)
    : (p.storeByte dr).bytes n = p.bytes n := by
  rcases Vector.getElem?_eq_some_iff.mp h with ⟨hlt, heq⟩
  have hself : p.recBuf.toList.set p.recCounter.toNat dr = p.recBuf.toList := by
    rw [← heq, ← Vector.getElem_toList (by simpa using hlt)]
    apply List.set_getElem_self
  simp [bytes, storeByte, hself]

theorem overflows_eq_false (hsize : 256 ≤ size) (p : Port size) : p.overflows = false := by
  have := p.recCounter.toNat_lt
  simp only [overflows, gt_iff_lt, decide_eq_false_iff_not]
  omega

theorem receive_eq (hsize : 256 ≤ size) (p : Port size) (dr : UInt8)
    : p.receive dr = (((p.storeByte dr).countByte).startTimer).clearTime := by
  unfold receive
  simp [overflows_eq_false hsize]

section Receive

variable (hsize : 256 ≤ size) (p : Port size) (dr : UInt8)
include hsize

theorem receive_recBuf : (p.receive dr).recBuf = (p.storeByte dr).recBuf := by
  rw [receive_eq hsize]
  rfl

theorem receive_recCounter : (p.receive dr).recCounter = p.recCounter + 1 := by
  rw [receive_eq hsize]
  rfl

theorem receive_startTimeFlag : (p.receive dr).startTimeFlag = 1 := by
  rw [receive_eq hsize]
  rfl

theorem receive_recTimeCounter : (p.receive dr).recTimeCounter = 0 := by
  rw [receive_eq hsize]
  rfl

theorem receive_tcpSendCounter : (p.receive dr).tcpSendCounter = p.tcpSendCounter := by
  rw [receive_eq hsize]
  rfl

theorem receive_recSem : (p.receive dr).recSem = p.recSem := by
  rw [receive_eq hsize]
  rfl

theorem bytes_receive (h : p.recCounter.toNat + 1 < 256)
    : (p.receive dr).bytes (p.receive dr).recCounter.toNat
        = p.bytes p.recCounter.toNat ++ [dr] := by
  have hcount : (p.receive dr).recCounter.toNat = p.recCounter.toNat + 1 := by
    rw [receive_recCounter hsize, UInt8.toNat_add]
    exact Nat.mod_eq_of_lt h
  rw [hcount, bytes_congr (receive_recBuf hsize p dr)]
  apply bytes_storeByte_succ p dr
  omega

end Receive

section Timeout

variable (p : Port size)

theorem timeout_of_armed (hflag : p.startTimeFlag = 1) (htime : p.recTimeCounter = 0)
    : p.timeout =
        ({ p with
            recTimeCounter := 1
            timeOutFlag := 1
            startTimeFlag := 0
            recSem := (osSemPost p.recSem).1 }, true) := by
  simp [timeout, hflag, htime]

theorem timeout_of_idle (hflag : p.startTimeFlag ≠ 1) : p.timeout = (p, false) := by
  simp [timeout, hflag]

theorem timeout_recBuf : p.timeout.1.recBuf = p.recBuf := by
  unfold timeout
  split
  . dsimp
    split <;> rfl
  . rfl

theorem timeout_recCounter : p.timeout.1.recCounter = p.recCounter := by
  unfold timeout
  split
  . dsimp
    split <;> rfl
  . rfl

theorem timeout_tcpSendCounter : p.timeout.1.tcpSendCounter = p.tcpSendCounter := by
  unfold timeout
  split
  . dsimp
    split <;> rfl
  . rfl

theorem timeout_recSem
    : p.timeout.1.recSem = if p.timeout.2 then (osSemPost p.recSem).1 else p.recSem := by
  unfold timeout
  split
  . dsimp
    split <;> rfl
  . rfl

theorem timeout_startTimeFlag
    : p.timeout.1.startTimeFlag = if p.timeout.2 then 0 else p.startTimeFlag := by
  unfold timeout
  split
  . dsimp
    split <;> rfl
  . rfl

end Timeout

end Port

end SerialGateway
