/-!
This module contains the counting semaphores of uC/OS-II (`os_sem.c`), as far as the interrupt
handlers and the serial tasks use them.
-/

namespace SerialGateway

/--
The part of an event control block a semaphore uses. At most one task pends on each semaphore of the
gateway, so `osEventGrp` (the ready group bitmap of the wait list) is kept as a flag.
-/
structure OsEvent where
  osEventCnt : UInt16
  osEventGrp : Bool
  deriving DecidableEq, Repr

inductive OsErr where
  | none
  | peventNull
  | semOvf
  deriving DecidableEq, Repr

def osSemCreate (cnt : UInt16) : OsEvent :=
  -- the list of free event control blocks does not run out
  { osEventCnt := cnt, osEventGrp := false }

def osSemPost (pevent : Option OsEvent) : Option OsEvent × OsErr :=
  match pevent with
  | .none => (.none, .peventNull)
  | some e =>
    if e.osEventGrp then
      (some { e with osEventGrp := false }, .none)
    else if e.osEventCnt < 65535 then
      (some { e with osEventCnt := e.osEventCnt + 1 }, .none)
    else
      (some e, .semOvf)

/--
`OSSemPend` with timeout `0`, up to the point where it either returns (`true`) or suspends the
calling task (`false`).
-/
def osSemPend (e : OsEvent) : OsEvent × Bool :=
  if e.osEventCnt > 0 then
    ({ e with osEventCnt := e.osEventCnt - 1 }, true)
  else
    ({ e with osEventGrp := true }, false)

theorem osSemPost_of_waiting {e : OsEvent} (h : e.osEventGrp = true)
    : osSemPost (some e) = (some { e with osEventGrp := false }, .none) := by
  simp [osSemPost, h]

theorem osSemPost_of_lt {e : OsEvent} (h : e.osEventGrp = false) (hlt : e.osEventCnt.toNat < 65535)
    : osSemPost (some e) = (some { e with osEventCnt := e.osEventCnt + 1 }, .none) := by
  simp [osSemPost, h, UInt16.lt_iff_toNat_lt, hlt]

theorem osSemPost_pos {e : OsEvent} (h : e.osEventGrp = false)
    : ∃ e', (osSemPost (some e)).1 = some e' ∧ e'.osEventGrp = false ∧ 0 < e'.osEventCnt := by
  unfold osSemPost
  simp only [h, Bool.false_eq_true, ↓reduceIte]
  split
  . next hlt =>
    refine ⟨_, rfl, rfl, ?_⟩
    simp only [UInt16.lt_iff_toNat_lt, UInt16.toNat_add, UInt16.toNat_ofNat] at hlt ⊢
    omega
  . next hge =>
    refine ⟨e, rfl, h, ?_⟩
    simp only [UInt16.lt_iff_toNat_lt, UInt16.toNat_ofNat] at hge ⊢
    omega

theorem osSemPend_of_pos {e : OsEvent} (h : 0 < e.osEventCnt)
    : osSemPend e = ({ e with osEventCnt := e.osEventCnt - 1 }, true) := by
  simp [osSemPend, h]

theorem osSemPend_of_zero {e : OsEvent} (h : e.osEventCnt = 0)
    : osSemPend e = ({ e with osEventGrp := true }, false) := by
  simp [osSemPend, h]

end SerialGateway
