import SerialGateway.Os.Queue

/-!
This module contains how `sys_arch.c` converts between the milliseconds of lwIP and the clock ticks of
uC/OS-II: the timeouts that `sys_arch_mbox_fetch` and `sys_arch_sem_wait` pass to the kernel and the
waiting times they report.
-/

namespace SerialGateway

def osTicksPerSec : UInt32 := 100

def sysArchTimeout : UInt32 := 0xffffffff

def mboxFetchTicks (timeout : UInt32) : UInt16 :=
  let ucosTimeout :=
    if timeout ≠ 0 then
      let ucosTimeout := timeout * osTicksPerSec / 1000
      if ucosTimeout < 1 then
        1
      else if ucosTimeout > 65535 then
        65535
      else
        ucosTimeout
    else
      0
  ucosTimeout.toUInt16

def semWaitTicks (timeout : UInt32) : UInt16 :=
  let ucosTimeout :=
    if timeout ≠ 0 then
      let ucosTimeout := timeout * osTicksPerSec / 1000
      if ucosTimeout < 1 then
        1
      -- the bound of the other function is `65535`
      else if ucosTimeout > 65536 then
        65535
      else
        ucosTimeout
    else
      0
  ucosTimeout.toUInt16

def mboxFetchTime (timeout timeoutNew : UInt32) (ucErr : PendErr) : UInt32 :=
  if ucErr = .timeout then
    sysArchTimeout
  else
    let timeoutNew :=
      if timeoutNew > timeout then
        timeoutNew - timeout
      else
        0xffffffff - timeout + timeoutNew
    timeoutNew * 1000 / osTicksPerSec + 1

def semWaitTime (timeout timeoutNew : UInt32) (ucErr : PendErr) : UInt32 :=
  if ucErr = .timeout then
    sysArchTimeout
  else
    let timeoutNew :=
      if timeoutNew ≥ timeout then
        timeoutNew - timeout
      else
        0xffffffff - timeout + timeoutNew
    timeoutNew * 1000 / osTicksPerSec + 1

/--
The value `sys_arch_mbox_fetch` returns. `osqPend` is the outcome of `OSQPend` for each timeout, `t₀`
and `t₁` are what `OSTimeGet` returns before and after it.
-/
def sysArchMboxFetch (osqPend : UInt16 → PendErr) (timeout t₀ t₁ : UInt32) : UInt32 :=
  mboxFetchTime t₀ t₁ (osqPend (mboxFetchTicks timeout))

def sysArchSemWait (osSemPend : UInt16 → PendErr) (timeout t₀ t₁ : UInt32) : UInt32 :=
  semWaitTime t₀ t₁ (osSemPend (semWaitTicks timeout))

theorem toNat_ticksToMs (ticks : UInt32)
    : (ticks * 1000 / osTicksPerSec + 1).toNat = ticks.toNat * 1000 % 4294967296 / 100 + 1 := by
  simp only [osTicksPerSec, UInt32.toNat_add, UInt32.toNat_div, UInt32.toNat_mul,
    UInt32.reduceToNat, Nat.reducePow]
  omega

theorem ticksToMs_ne_sysArchTimeout (ticks : UInt32)
    : ticks * 1000 / osTicksPerSec + 1 ≠ sysArchTimeout := by
  rw [sysArchTimeout, ne_eq, ← UInt32.toNat_inj, toNat_ticksToMs]
  simp only [UInt32.reduceToNat]
  omega

theorem mboxFetchTime_ne_sysArchTimeout (t₀ t₁ : UInt32) {ucErr : PendErr} (h : ucErr ≠ .timeout)
    : mboxFetchTime t₀ t₁ ucErr ≠ sysArchTimeout := by
  rw [mboxFetchTime, if_neg h]
  apply ticksToMs_ne_sysArchTimeout

theorem semWaitTime_ne_sysArchTimeout (t₀ t₁ : UInt32) {ucErr : PendErr} (h : ucErr ≠ .timeout)
    : semWaitTime t₀ t₁ ucErr ≠ sysArchTimeout := by
  rw [semWaitTime, if_neg h]
  apply ticksToMs_ne_sysArchTimeout

section Elapsed

variable (t₀ : UInt32) (d : UInt16)

def elapsedMs : Nat := d.toNat * 1000 / osTicksPerSec.toNat + 1

theorem toNat_add_toUInt32
    : (t₀ + d.toUInt32).toNat = (t₀.toNat + d.toNat) % 4294967296 := by
  simp

theorem toNat_add_sub_self : (t₀ + d.toUInt32 - t₀).toNat = d.toNat := by
  have ht := t₀.toNat_lt
  have hd := d.toNat_lt
  rw [UInt32.toNat_sub, toNat_add_toUInt32]
  omega

theorem toNat_sub_add_self
    : (0xffffffff - t₀ + (t₀ + d.toUInt32)).toNat = (d.toNat + 4294967295) % 4294967296 := by
  have ht := t₀.toNat_lt
  have hd := d.toNat_lt
  rw [UInt32.toNat_add, UInt32.toNat_sub, toNat_add_toUInt32]
  simp only [UInt32.reduceToNat, Nat.reducePow]
  omega

theorem mboxFetchTime_eq_elapsedMs_iff
    : (mboxFetchTime t₀ (t₀ + d.toUInt32) .none).toNat = elapsedMs d
        ↔ 0 < d.toNat ∧ t₀.toNat + d.toNat < 4294967296 := by
  have ht := t₀.toNat_lt
  have hd := d.toNat_lt
  have ht₁ := toNat_add_toUInt32 t₀ d
  have helapsed : elapsedMs d = d.toNat * 1000 / 100 + 1 := rfl
  rw [mboxFetchTime, if_neg (by decide)]
  dsimp only
  rw [toNat_ticksToMs]
  split
  . next h =>
    rw [gt_iff_lt, UInt32.lt_iff_toNat_lt] at h
    have hticks := toNat_add_sub_self t₀ d
    omega
  . next h =>
    rw [gt_iff_lt, UInt32.lt_iff_toNat_lt] at h
    have hticks := toNat_sub_add_self t₀ d
    omega

theorem semWaitTime_eq_elapsedMs_iff
    : (semWaitTime t₀ (t₀ + d.toUInt32) .none).toNat = elapsedMs d
        ↔ t₀.toNat + d.toNat < 4294967296 := by
  have ht := t₀.toNat_lt
  have hd := d.toNat_lt
  have ht₁ := toNat_add_toUInt32 t₀ d
  have helapsed : elapsedMs d = d.toNat * 1000 / 100 + 1 := rfl
  rw [semWaitTime, if_neg (by decide)]
  dsimp only
  rw [toNat_ticksToMs]
  split
  . next h =>
    rw [ge_iff_le, UInt32.le_iff_toNat_le] at h
    have hticks := toNat_add_sub_self t₀ d
    omega
  . next h =>
    rw [ge_iff_le, UInt32.le_iff_toNat_le] at h
    have hticks := toNat_sub_add_self t₀ d
    omega

structure ElapsedReported (osqPend osSemPend : UInt16 → PendErr) (timeout t₀ : UInt32) (d : UInt16)
    : Prop where
  mboxFetch : (sysArchMboxFetch osqPend timeout t₀ (t₀ + d.toUInt32)).toNat = elapsedMs d
  semWait : (sysArchSemWait osSemPend timeout t₀ (t₀ + d.toUInt32)).toNat = elapsedMs d
  mboxFetch_ne : sysArchMboxFetch osqPend timeout t₀ (t₀ + d.toUInt32) ≠ sysArchTimeout
  semWait_ne : sysArchSemWait osSemPend timeout t₀ (t₀ + d.toUInt32) ≠ sysArchTimeout

variable {osqPend osSemPend : UInt16 → PendErr} {timeout : UInt32}

theorem elapsedReported_iff (hq : osqPend (mboxFetchTicks timeout) = .none)
    (hsem : osSemPend (semWaitTicks timeout) = .none)
    : ElapsedReported osqPend osSemPend timeout t₀ d
        ↔ 0 < d.toNat ∧ t₀.toNat + d.toNat < 4294967296 := by
  have hfetch := mboxFetchTime_eq_elapsedMs_iff t₀ d
  have hwait := semWaitTime_eq_elapsedMs_iff t₀ d
  constructor
  . intro h
    have hms := h.mboxFetch
    rw [sysArchMboxFetch, hq] at hms
    exact hfetch.mp hms
  . intro h
    constructor
    . rw [sysArchMboxFetch, hq]
      exact hfetch.mpr h
    . rw [sysArchSemWait, hsem]
      exact hwait.mpr h.2
    . rw [sysArchMboxFetch, hq]
      apply mboxFetchTime_ne_sysArchTimeout
      decide
    . rw [sysArchSemWait, hsem]
      apply semWaitTime_ne_sysArchTimeout
      decide

theorem elapsedReported_iff_threeTicks
    : ElapsedReported (fun _ => .none) (fun _ => .none) 500 1000 3
        ↔ 0 < (3 : UInt16).toNat ∧ (1000 : UInt32).toNat + (3 : UInt16).toNat < 4294967296 := by
  apply elapsedReported_iff
  . rfl
  . rfl

theorem not_elapsedReported_atOnce
    : sysArchMboxFetch (fun _ => .none) 500 1000 1000 = 42949663
      ∧ sysArchSemWait (fun _ => .none) 500 1000 1000 = 1
      ∧ ¬ ElapsedReported (fun _ => .none) (fun _ => .none) 500 1000 0 := by
  refine ⟨by decide, by decide, fun h => ?_⟩
  exact absurd h.mboxFetch (by decide)

end Elapsed

section Ticks

variable (timeout : UInt32)

def exactTicks : Nat := max 1 (min 65535 (timeout.toNat * osTicksPerSec.toNat / 1000))

def tickProduct : Nat := timeout.toNat * osTicksPerSec.toNat % 4294967296

theorem toNat_tickProduct
    : (timeout * osTicksPerSec / 1000).toNat = tickProduct timeout / 1000 := by
  simp only [tickProduct, osTicksPerSec, UInt32.toNat_div, UInt32.toNat_mul, UInt32.reduceToNat,
    Nat.reducePow]

variable {timeout}

theorem toNat_mboxFetchTicks (h : timeout ≠ 0)
    : (mboxFetchTicks timeout).toNat = max 1 (min 65535 (tickProduct timeout / 1000)) := by
  have hticks := toNat_tickProduct timeout
  rw [mboxFetchTicks, if_pos h]
  dsimp only
  rw [UInt32.toNat_toUInt16, ← hticks]
  simp only [gt_iff_lt, UInt32.lt_iff_toNat_lt, UInt32.reduceToNat]
  split
  . next hzero =>
    simp only [UInt32.reduceToNat]
    omega
  . split
    . next hlarge =>
      simp only [UInt32.reduceToNat]
      omega
    . omega

theorem toNat_semWaitTicks (h : timeout ≠ 0)
    : (semWaitTicks timeout).toNat =
        if tickProduct timeout / 1000 = 65536 then
          0
        else
          max 1 (min 65535 (tickProduct timeout / 1000)) := by
  have hticks := toNat_tickProduct timeout
  rw [semWaitTicks, if_pos h, ← hticks]
  dsimp only
  rw [UInt32.toNat_toUInt16]
  simp only [gt_iff_lt, UInt32.lt_iff_toNat_lt, UInt32.reduceToNat]
  generalize timeout * osTicksPerSec / 1000 = ticks
  by_cases hhole : ticks.toNat = 65536
  . simp [hhole]
  . rw [if_neg hhole]
    split
    . next hzero =>
      simp only [UInt32.reduceToNat]
      omega
    . split
      . next hlarge =>
        simp only [UInt32.reduceToNat]
        omega
      . omega

variable (timeout)

structure TicksExact : Prop where
  mboxFetch : (mboxFetchTicks timeout).toNat = exactTicks timeout
  semWait : (semWaitTicks timeout).toNat = exactTicks timeout
  agree : mboxFetchTicks timeout = semWaitTicks timeout
  ne_zero : mboxFetchTicks timeout ≠ 0
  notLonger : (mboxFetchTicks timeout).toNat * 1000 ≤ timeout.toNat * osTicksPerSec.toNat
    ∨ mboxFetchTicks timeout = 1

/--
The product fits into `32` bits, or what is left of it is still above the largest timeout, and
`sys_arch_sem_wait` does not get the one quotient its bound leaves unclamped.
-/
def ProductFits : Prop :=
  (timeout.toNat * osTicksPerSec.toNat < 4294967296 ∨ 65535000 ≤ tickProduct timeout)
    ∧ ¬ (65536000 ≤ tickProduct timeout ∧ tickProduct timeout < 65537000)

variable {timeout}

theorem exactTicks_eq_iff
    : max 1 (min 65535 (tickProduct timeout / 1000)) = exactTicks timeout
        ↔ timeout.toNat * osTicksPerSec.toNat < 4294967296 ∨ 65535000 ≤ tickProduct timeout := by
  have hticks : osTicksPerSec.toNat = 100 := rfl
  rw [tickProduct, exactTicks, hticks]
  by_cases hlt : timeout.toNat * 100 < 4294967296
  . simp [Nat.mod_eq_of_lt hlt, hlt]
  . omega

theorem ticksExact_iff (h : timeout ≠ 0) : TicksExact timeout ↔ ProductFits timeout := by
  have hfetch := toNat_mboxFetchTicks h
  have hwait := toNat_semWaitTicks h
  have hexact := @exactTicks_eq_iff timeout
  constructor
  . intro hticks
    have hleft := hexact.mp (hfetch.symm.trans hticks.mboxFetch)
    refine ⟨hleft, fun hhole => ?_⟩
    have hzero : (semWaitTicks timeout).toNat = 0 := by
      rw [hwait, if_pos (by omega)]
    apply hticks.ne_zero
    rw [hticks.agree]
    exact UInt16.toNat_inj.mp hzero
  . rintro ⟨hleft, hhole⟩
    have hmax := hexact.mpr hleft
    have hne : tickProduct timeout / 1000 ≠ 65536 := by omega
    rw [if_neg hne] at hwait
    rw [hmax] at hfetch hwait
    constructor
    . exact hfetch
    . exact hwait
    . apply UInt16.toNat_inj.mp
      exact hfetch.trans hwait.symm
    . intro hzero
      rw [hzero, exactTicks, UInt16.toNat_zero] at hfetch
      omega
    . rw [← UInt16.toNat_inj, hfetch, exactTicks, UInt16.toNat_one]
      omega

theorem ticksExact_iff_second : TicksExact 1000 ↔ ProductFits 1000 := by
  apply ticksExact_iff
  decide

theorem not_ticksExact_holes
    : mboxFetchTicks 655360 = 65535 ∧ semWaitTicks 655360 = 0 ∧ ¬ TicksExact 655360
      ∧ mboxFetchTicks 42949673 = 1 ∧ semWaitTicks 42949673 = 1 ∧ ¬ TicksExact 42949673 := by
  refine ⟨by decide, by decide, fun h => ?_, by decide, by decide, fun h => ?_⟩
  . exact absurd h.agree (by decide)
  . exact absurd h.mboxFetch (by decide)

end Ticks

end SerialGateway
