import SerialGateway.Serial.Gateway
import SerialGateway.Serial.Log

/-!
This module contains what becomes of a burst of bytes that is followed by one timer interrupt and one
undisturbed pass of the task.
-/

open Transition

namespace SerialGateway

variable {size : Nat} {Pcb : Type}

namespace PortState

def pass (pc : TaskPc Pcb) (conns : List Pcb) : List (PortAct Pcb) :=
  let pend := if pc matches .semCreate then 2 else 1
  List.replicate pend (.task conns) ++ List.replicate (4 + conns.length) (.task conns)

def CanPass (s : PortState size Pcb) : Prop :=
  match s.pc with
  | .semCreate => True
  | .semPend => ∃ e, s.port.recSem = some e ∧ 0 < e.osEventCnt
  | .pending => ∃ e, s.port.recSem = some e ∧ e.osEventGrp = false
  | _ => False

def burst (s : PortState size Pcb) (bytes : List UInt8) : PortState size Pcb :=
  bytes.foldl rx s

theorem run_burst (s : PortState size Pcb) (bytes : List UInt8)
    : run step s (bytes.map .rx) = some (s.burst bytes) := by
  induction bytes generalizing s with
  | nil => rfl
  | cons dr bytes ih => exact ih (s.rx dr)

@[simp]
theorem burst_pc (s : PortState size Pcb) (bytes : List UInt8) : (s.burst bytes).pc = s.pc := by
  induction bytes generalizing s with
  | nil => rfl
  | cons dr bytes ih => exact ih (s.rx dr)

theorem burst_writes (s : PortState size Pcb) (bytes : List UInt8)
    : writes (s.burst bytes).log = writes s.log := by
  induction bytes generalizing s with
  | nil => rfl
  | cons dr bytes ih =>
    have hrest := ih (s.rx dr)
    rw [rx_log, writes_rx] at hrest
    exact hrest

theorem burst_recCounter (hsize : 256 ≤ size) (s : PortState size Pcb) (bytes : List UInt8)
    : (s.burst bytes).port.recCounter.toNat
        = (s.port.recCounter.toNat + bytes.length) % 256 := by
  induction bytes generalizing s with
  | nil =>
    have := s.port.recCounter.toNat_lt
    simp only [burst, List.foldl_nil, List.length_nil, Nat.add_zero]
    omega
  | cons dr bytes ih =>
    have hrest := ih (s.rx dr)
    have hcount : (s.rx dr).port.recCounter = s.port.recCounter + 1 := by
      rw [rx_port, Port.receive_recCounter hsize]
    rw [hcount, UInt8.toNat_add] at hrest
    simp only [burst, List.foldl_cons, List.length_cons] at hrest ⊢
    rw [hrest]
    simp only [UInt8.toNat_one]
    omega

theorem burst_bytes (hsize : 256 ≤ size) (s : PortState size Pcb) (bytes : List UInt8)
    (hlen : s.port.recCounter.toNat + bytes.length < 256)
    : (s.burst bytes).port.bytes (s.burst bytes).port.recCounter.toNat
        = s.port.bytes s.port.recCounter.toNat ++ bytes := by
  induction bytes generalizing s with
  | nil => simp [burst]
  | cons dr bytes ih =>
    rw [List.length_cons] at hlen
    have hcount : (s.rx dr).port.recCounter.toNat = s.port.recCounter.toNat + 1 := by
      rw [rx_port, Port.receive_recCounter hsize, UInt8.toNat_add]
      apply Nat.mod_eq_of_lt
      simp only [UInt8.toNat_one]
      omega
    have hrest := ih (s.rx dr) (by omega)
    have hstore : (s.rx dr).port.bytes (s.rx dr).port.recCounter.toNat
        = s.port.bytes s.port.recCounter.toNat ++ [dr] :=
      Port.bytes_receive hsize s.port dr (by omega)
    rw [hstore] at hrest
    simpa [burst] using hrest

theorem burst_armed (hsize : 256 ≤ size) (s : PortState size Pcb) (bytes : List UInt8)
    (hpos : 0 < bytes.length)
    : (s.burst bytes).port.startTimeFlag = 1 ∧ (s.burst bytes).port.recTimeCounter = 0 := by
  have hne : bytes ≠ [] := List.length_pos_iff.mp hpos
  rw [burst, ← List.dropLast_concat_getLast hne, List.foldl_append]
  exact ⟨Port.receive_startTimeFlag hsize _ _, Port.receive_recTimeCounter hsize _ _⟩

theorem SemOk.burst (hsize : 256 ≤ size) {s : PortState size Pcb} (h : s.SemOk)
    (bytes : List UInt8)
    : (s.burst bytes).SemOk := by
  induction bytes generalizing s with
  | nil => exact h
  | cons dr bytes ih => exact ih (h.rx hsize dr)

theorem canPass_of_posted {s : PortState size Pcb} (hsem : s.SemOk) (hposted : s.Posted)
    (hpc : s.AtSemPend)
    : s.CanPass := by
  unfold CanPass SemOk at *
  rcases hposted with ⟨e, he, hcnt⟩
  rcases hpc with hpc | hpc
  . rw [hpc] at hcnt ⊢
    exact ⟨e, he, hcnt.resolve_right (by simp)⟩
  . rw [hpc] at hsem ⊢
    rcases hsem with ⟨e', he', hgrp⟩
    rw [he] at he'
    cases he'
    refine ⟨e, he, ?_⟩
    rcases hcnt with hcnt | ⟨-, hready⟩
    . -- A positive count excludes that the task still waits.
      cases hwait : e.osEventGrp with
      | false => rfl
      | true => simp [hgrp hwait] at hcnt
    . exact hready

theorem canPass_tick {s : PortState size Pcb} (hsem : s.SemOk) (hposts : s.port.timeout.2 = true)
    (hpc : s.pc = .semCreate ∨ s.AtSemPend)
    : s.tick.CanPass := by
  rcases posted_tick hsem hposts with hcreate | hposted
  . simp [CanPass, hcreate]
  . rcases hpc with hcreate | hpend
    . simp [CanPass, hcreate]
    . apply canPass_of_posted
      . exact hsem.tick
      . exact hposted
      . simpa [AtSemPend] using hpend

theorem run_walk (s : PortState size Pcb) (conns visits : List Pcb) (hpc : s.pc = .walk conns)
    : run step s (List.replicate (conns.length + 1) (.task visits))
        = some { s with
            pc := .semPend
            log := s.log ++ (conns.map fun pcb => .write pcb s.port.sendData) ++ [.passDone] } := by
  induction conns generalizing s with
  | nil => simp [step, task, hpc]
  | cons pcb conns ih =>
    have hstep : s.step (.task visits) = some { s with
        pc := .walk conns, log := s.log ++ [.write pcb s.port.sendData] } := by
      simp [step, task, hpc]
    rw [List.length_cons, List.replicate_succ, run_cons, hstep, Option.bind_some, ih _ rfl]
    simp

theorem run_body (s : PortState size Pcb) (conns : List Pcb) (hpc : s.pc = .copyCounter)
    : ∃ s', run step s (List.replicate (4 + conns.length) (.task conns)) = some s'
        ∧ s'.pc = .semPend
        ∧ writes s'.log = writes s.log
            ++ conns.map fun pcb => (pcb, s.port.bytes s.port.recCounter.toNat) := by
  let entered : PortState size Pcb :=
    { s with port := s.port.copyCounter.resetCount, pc := .walk conns }
  have henter : run step s (List.replicate 3 (.task conns)) = some entered := by
    simp [List.replicate, run, step, task, hpc, entered]
  have hlen : 4 + conns.length = 3 + (conns.length + 1) := by omega
  have hwalk := run_walk entered conns conns rfl
  rw [← run_append_of_eq_some _ henter, List.replicate_append_replicate, ← hlen] at hwalk
  refine ⟨_, hwalk, rfl, ?_⟩
  have hdata : entered.port.sendData = s.port.bytes s.port.recCounter.toNat := rfl
  rw [writes_passDone, hdata, writes, List.filterMap_append, List.filterMap_map]
  exact congrArg (writes s.log ++ ·) (congrFun List.filterMap_eq_map conns)

theorem run_pend (s : PortState size Pcb) (conns : List Pcb) (h : s.CanPass)
    : ∃ sem, run step s (List.replicate (if s.pc matches .semCreate then 2 else 1) (.task conns))
        = some { s with port.recSem := sem, pc := .copyCounter } := by
  unfold CanPass at h
  split at h
  . next hpc =>
    refine ⟨some { osEventCnt := 0, osEventGrp := false }, ?_⟩
    simp [hpc, step, task, osSemPend, osSemCreate]
  . next hpc =>
    rcases h with ⟨e, hsem, hcnt⟩
    refine ⟨some { e with osEventCnt := e.osEventCnt - 1 }, ?_⟩
    simp [hpc, step, task, hsem, osSemPend_of_pos hcnt]
  . next hpc =>
    rcases h with ⟨e, hsem, hgrp⟩
    refine ⟨s.port.recSem, ?_⟩
    simp only [hpc, Bool.false_eq_true, ↓reduceIte, List.replicate_one, run_cons, step, task, hsem,
      hgrp, run_nil, Option.bind_some]
    rw [← hsem]
  . exact h.elim

theorem run_pass (s : PortState size Pcb) (conns : List Pcb) (h : s.CanPass)
    : ∃ s', run step s (pass s.pc conns) = some s'
        ∧ s'.pc = .semPend
        ∧ writes s'.log = writes s.log
            ++ conns.map fun pcb => (pcb, s.port.bytes s.port.recCounter.toNat) := by
  rcases run_pend s conns h with ⟨sem, hpend⟩
  rcases run_body { s with port.recSem := sem, pc := .copyCounter } conns rfl
    with ⟨s', hbody, hpc, hwrites⟩
  refine ⟨s', ?_, hpc, hwrites⟩
  rw [← hbody]
  exact run_append_of_eq_some _ hpend

theorem run_burst_pass (hsize : 256 ≤ size) (s : PortState size Pcb) (hsem : s.SemOk)
    (hpc : s.pc = .semCreate ∨ s.AtSemPend) (bytes : List UInt8) (hpos : 0 < bytes.length)
    (conns : List Pcb)
    : ∃ s', run step s (bytes.map .rx ++ [.tick] ++ pass s.pc conns) = some s'
        ∧ writes s'.log = writes s.log ++ conns.map fun pcb =>
            (pcb, (s.burst bytes).port.bytes (s.burst bytes).port.recCounter.toNat) := by
  rcases burst_armed hsize s bytes hpos with ⟨hflag, htime⟩
  have hposts : (s.burst bytes).port.timeout.2 = true := by
    rw [Port.timeout_of_armed _ hflag htime]
  have hcan : (s.burst bytes).tick.CanPass := by
    apply canPass_tick (hsem.burst hsize bytes) hposts
    unfold AtSemPend at *
    rwa [burst_pc]
  rcases run_pass _ conns hcan with ⟨s', hpass, -, hwrites⟩
  rw [tick_pc, burst_pc] at hpass
  refine ⟨s', ?_, ?_⟩
  . rw [List.append_assoc, run_append_of_eq_some _ (run_burst s bytes)]
    exact hpass
  . rw [hwrites, tick_log, hposts, tick_port, Port.timeout_recCounter,
      Port.bytes_congr (Port.timeout_recBuf _)]
    simp [burst_writes]

theorem burst_bytes_eq_iff (hsize : 256 ≤ size) (s : PortState size Pcb)
    (hcount : s.port.recCounter = 0) (bytes : List UInt8)
    : (s.burst bytes).port.bytes (s.burst bytes).port.recCounter.toNat = bytes
        ↔ bytes.length < 256 := by
  constructor
  . intro heq
    have hlt := (s.burst bytes).port.recCounter.toNat_lt
    have hlen := congrArg List.length heq
    rw [Port.length_bytes _ (by omega)] at hlen
    omega
  . intro hlen
    rw [burst_bytes hsize s bytes (by simpa [hcount] using hlen), hcount]
    simp

end PortState

namespace Gateway

theorem semOk_of_reachable {g : Gateway Pcb} (h : Reachable step powerOn g) (id : PortId)
    : (g.port id).SemOk :=
  ((projects id).reachable h).invariant
    (fun _ _ _ hsem hstep => hsem.step id.le_bufSize hstep)
    (powerOn_poweredOn id).semOk

def burstAndPass (id : PortId) (g : Gateway Pcb) (bytes : List UInt8) (conns : List Pcb)
    : List (Act Pcb) :=
  List.map (Act.of id)
    (bytes.map PortAct.rx ++ [PortAct.tick] ++ PortState.pass (g.port id).pc conns)

def BurstDelivered (id : PortId) (g : Gateway Pcb) (bytes : List UInt8) (conns : List Pcb) : Prop :=
  ∃ g', run step g (burstAndPass id g bytes conns) = some g'
    ∧ writes (g'.port id).log = writes (g.port id).log ++ conns.map fun pcb => (pcb, bytes)

theorem run_burstAndPass {id : PortId} {g : Gateway Pcb} (hreach : Reachable step powerOn g)
    (hpc : (g.port id).pc = .semCreate ∨ (g.port id).AtSemPend) {bytes : List UInt8}
    (hpos : 0 < bytes.length) (conns : List Pcb)
    : ∃ g', run step g (burstAndPass id g bytes conns) = some g'
        ∧ writes (g'.port id).log = writes (g.port id).log ++ conns.map fun pcb =>
            (pcb, ((g.port id).burst bytes).port.bytes
              ((g.port id).burst bytes).port.recCounter.toNat) := by
  have hsem := semOk_of_reachable hreach id
  rcases PortState.run_burst_pass id.le_bufSize _ hsem hpc bytes hpos conns
    with ⟨s', hrun, hwrites⟩
  rcases run_of hrun with ⟨g', hg', rfl⟩
  exact ⟨g', hg', hwrites⟩

theorem burstDelivered_iff (id : PortId) {g : Gateway Pcb} (hreach : Reachable step powerOn g)
    (hcount : (g.port id).port.recCounter = 0)
    (hpc : (g.port id).pc = .semCreate ∨ (g.port id).AtSemPend) (bytes : List UInt8)
    (hpos : 0 < bytes.length) (conns : List Pcb)
    : BurstDelivered id g bytes conns ↔ bytes.length < 256 ∨ conns = [] := by
  rcases run_burstAndPass hreach hpc hpos conns with ⟨g', hrun, hwrites⟩
  rw [← PortState.burst_bytes_eq_iff id.le_bufSize (g.port id) hcount bytes]
  unfold BurstDelivered
  constructor
  . rintro ⟨g'', hrun', hdelivered⟩
    have hsame : g'' = g' := Option.some.inj (hrun'.symm.trans hrun)
    rw [hsame, hwrites, List.append_cancel_left_eq] at hdelivered
    cases conns with
    | nil => exact .inr rfl
    | cons pcb conns =>
      simp only [List.map_cons, List.cons.injEq, Prod.mk.injEq, true_and] at hdelivered
      exact .inl hdelivered.1
  . rintro (heq | rfl)
    . exact ⟨g', hrun, by rw [hwrites, heq]⟩
    . exact ⟨g', hrun, by simpa using hwrites⟩

theorem burstDelivered_iff_powerOn
    : BurstDelivered .rs485 (@powerOn Nat) [0x01, 0x03] [7, 9]
        ↔ ([0x01, 0x03] : List UInt8).length < 256 ∨ ([7, 9] : List Nat) = [] :=
  burstDelivered_iff .rs485 (Reachable.refl _) rfl (.inl rfl) _ (by decide) _

theorem run_burstAndPass_of_dvd {id : PortId} {g : Gateway Pcb} (hreach : Reachable step powerOn g)
    (hcount : (g.port id).port.recCounter = 0)
    (hpc : (g.port id).pc = .semCreate ∨ (g.port id).AtSemPend) {bytes : List UInt8}
    (hpos : 0 < bytes.length) (hdvd : 256 ∣ bytes.length) (conns : List Pcb)
    : ∃ g', run step g (burstAndPass id g bytes conns) = some g'
        ∧ writes (g'.port id).log = writes (g.port id).log ++ conns.map fun pcb => (pcb, []) := by
  rcases run_burstAndPass hreach hpc hpos conns with ⟨g', hrun, hwrites⟩
  have hzero : ((g.port id).burst bytes).port.recCounter.toNat = 0 := by
    rw [PortState.burst_recCounter id.le_bufSize, hcount]
    simpa using Nat.mod_eq_zero_of_dvd hdvd
  rw [hzero, Port.bytes_zero] at hwrites
  exact ⟨g', hrun, hwrites⟩

theorem not_burstDelivered_256
    : 0 < (List.replicate 256 (0x41 : UInt8)).length
        ∧ (List.replicate 256 (0x41 : UInt8)).length ≤ PortId.rs232.bufSize
        ∧ ((@powerOn Nat).port .rs232).port.recCounter = 0
        ∧ ((@powerOn Nat).port .rs232).pc = .semCreate
        ∧ ¬ BurstDelivered .rs232 (@powerOn Nat) (List.replicate 256 0x41) [7] := by
  have hlen : (List.replicate 256 (0x41 : UInt8)).length = 256 := List.length_replicate
  have hpos : 0 < (List.replicate 256 (0x41 : UInt8)).length := by rw [hlen]; decide
  have hdvd : 256 ∣ (List.replicate 256 (0x41 : UInt8)).length := ⟨1, hlen⟩
  refine ⟨hpos, by rw [hlen]; decide, rfl, rfl, ?_⟩
  have hreach : Reachable step powerOn (@powerOn Nat) := Reachable.refl _
  have hrun := run_burstAndPass_of_dvd hreach (rfl : (powerOn.port .rs232).port.recCounter = 0)
    (.inl rfl) hpos hdvd [7]
  rcases hrun with ⟨g', hrun, hwrites⟩
  rintro ⟨g'', hrun', hdelivered⟩
  have hsame : g'' = g' := Option.some.inj (hrun'.symm.trans hrun)
  rw [hsame, hwrites, List.append_cancel_left_eq] at hdelivered
  have hsame : [] = List.replicate 256 (0x41 : UInt8) :=
    congrArg Prod.snd (List.map_inj_left.mp hdelivered 7 (List.mem_singleton.mpr rfl))
  rw [← hsame] at hlen
  cases hlen

end Gateway

end SerialGateway
