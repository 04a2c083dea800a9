import SerialGateway.Serial.Gateway
import SerialGateway.Serial.Log

/-!
This module contains the relation between the frames the timer closes, the posts the semaphore counts
and what the passes of the task send.
-/

open Transition

namespace SerialGateway

variable {size : Nat} {Pcb : Type}

namespace PortState

def InPass (s : PortState size Pcb) : Prop :=
  match s.pc with
  | .copyCounter | .resetCounter | .loopInit | .walk _ => True
  | _ => False

instance (s : PortState size Pcb) : Decidable s.InPass := by
  unfold InPass
  split <;> infer_instance

/--
The posts that have not led to a completed pass yet: those the semaphore counts, one that has readied
the task and one the running pass has taken.
-/
def posts (s : PortState size Pcb) : Nat :=
  match s.port.recSem with
  | none => 0
  | some e =>
    e.osEventCnt.toNat + match s.pc with
      | .semCreate | .semPend => 0
      | .pending => if e.osEventGrp then 0 else 1
      | _ => 1

def initialPost (s : PortState size Pcb) : Nat :=
  match s.pc with
  | .semCreate => 0
  | _ => if passes s.log = 0 then 1 else 0

structure FramesKept (s : PortState size Pcb) : Prop where
  sameData : ∀ pass ∈ donePasses s.log, ∀ w ∈ pass, w.2 = passData pass
  fifo : ∃ unsent, closedFrames s.log = sentFrames s.log ++ unsent
    ∧ s.posts = unsent.length + s.initialPost

def Undisturbed (s : PortState size Pcb) : PortAct Pcb → Prop
  | .rx _ =>
    ¬ s.InPass ∧ s.port.recCounter.toNat + 1 < 256 ∧ (openFrame s.log).length + 1 < 256
  | _ => True

def KeepsUp (s : PortState size Pcb) : PortAct Pcb → Prop
  | .rx _ => s.AtSemPend ∧ ¬ s.Posted
  | .tick => True
  | .task visits => s.pc = .loopInit → s.port.tcpSendCounter ≠ 0 → visits ≠ []

instance [DecidableEq Pcb] (s : PortState size Pcb) : Decidable s.Posted :=
  match h : s.port.recSem with
  | none => .isFalse (by simp [Posted, h])
  | some e =>
    decidable_of_iff (0 < e.osEventCnt ∨ s.pc = .pending ∧ e.osEventGrp = false)
      (by simp [Posted, h])

instance [DecidableEq Pcb] (s : PortState size Pcb) : (b : PortAct Pcb) → Decidable (s.KeepsUp b)
  | .rx _ => inferInstanceAs (Decidable ((_ ∨ _) ∧ _))
  | .tick => inferInstanceAs (Decidable True)
  | .task _ => inferInstanceAs (Decidable (_ → _ → _))

instance (s : PortState size Pcb) : (b : PortAct Pcb) → Decidable (s.Undisturbed b)
  | .rx _ => inferInstanceAs (Decidable (_ ∧ _))
  | .tick | .task _ => inferInstanceAs (Decidable True)

def Timed (s : PortState size Pcb) : Prop :=
  s.port.startTimeFlag = 1 ∧ s.port.recTimeCounter = 0 ∧ openFrame s.log ≠ []
    ∨ s.port.startTimeFlag = 0 ∧ openFrame s.log = []

theorem Timed.rx (hsize : 256 ≤ size) (s : PortState size Pcb) (dr : UInt8) : (s.rx dr).Timed := by
  refine .inl ⟨?_, ?_, by simp⟩
  . apply Port.receive_startTimeFlag hsize
  . apply Port.receive_recTimeCounter hsize

theorem Timed.posts_iff {s : PortState size Pcb} (h : s.Timed)
    : s.port.timeout.2 = true ↔ openFrame s.log ≠ [] := by
  rcases h with ⟨hflag, htime, hopen⟩ | ⟨hflag, hopen⟩
  . simp [Port.timeout_of_armed _ hflag htime, hopen]
  . have hidle : s.port.startTimeFlag ≠ 1 := by simp [hflag]
    simp [Port.timeout_of_idle _ hidle, hopen]

theorem Timed.tick {s : PortState size Pcb} (h : s.Timed) : s.tick.Timed := by
  have hiff := h.posts_iff
  unfold Timed at *
  rw [tick_port, Port.timeout_startTimeFlag, tick_log]
  cases hposts : s.port.timeout.2 with
  | true => simp
  | false =>
    rw [hposts] at hiff
    have hopen : openFrame s.log = [] := by simpa using hiff
    have hflag : s.port.startTimeFlag = 0 := by simpa [hopen] using h
    simp [hopen, hflag]

theorem Timed.task {s s' : PortState size Pcb} {visits : List Pcb} (h : s.Timed)
    (hstep : s.task visits = some s')
    : s'.Timed := by
  unfold Timed at *
  cases taskStep_of_task hstep with
  | write pcb todo hpc => simpa using h
  | passDone hpc => simpa using h
  | _ => exact h

theorem posts_congr {s s' : PortState size Pcb} (hsem : s'.port.recSem = s.port.recSem)
    (hpc : s'.pc = s.pc)
    : s'.posts = s.posts := by
  simp [posts, hsem, hpc]

theorem initialPost_congr {s s' : PortState size Pcb} (hpc : s'.pc = s.pc)
    (hpasses : passes s'.log = passes s.log)
    : s'.initialPost = s.initialPost := by
  simp [initialPost, hpc, hpasses]

theorem posts_eq_zero {s : PortState size Pcb} (hpc : s.AtSemPend) (h : ¬ s.Posted)
    : s.posts = 0 := by
  unfold posts
  split
  . rfl
  . next e hsem =>
    have hcnt : ¬ 0 < e.osEventCnt := fun hcnt => h ⟨e, hsem, .inl hcnt⟩
    have hzero : e.osEventCnt = 0 := by simpa using hcnt
    rcases hpc with hpc | hpc
    . simp [hpc, hzero]
    . have hgrp : e.osEventGrp = true := by
        cases hgrp : e.osEventGrp with
        | true => rfl
        | false => exact absurd ⟨e, hsem, .inr ⟨hpc, hgrp⟩⟩ h
      simp [hpc, hzero, hgrp]

theorem posts_pos {s : PortState size Pcb} (hsem : s.SemOk) (hpass : s.InPass) : 0 < s.posts := by
  unfold SemOk at hsem
  unfold InPass at hpass
  unfold posts
  cases hpc : s.pc <;> simp only [hpc] at hsem hpass ⊢ <;>
    (rcases hsem with ⟨e, he, -⟩; simp [he])

theorem posts_tick {s : PortState size Pcb} (hsem : s.SemOk) (hpc : s.AtSemPend)
    (hposts : s.port.timeout.2 = true) (hlow : s.posts < 65535)
    : s.tick.posts = s.posts + 1 := by
  have hadd : ∀ cnt : UInt16, cnt.toNat < 65535 → (cnt + 1).toNat = cnt.toNat + 1 := by
    intro cnt hlt
    rw [UInt16.toNat_add]
    apply Nat.mod_eq_of_lt
    simpa using Nat.succ_lt_succ hlt
  unfold SemOk at hsem
  unfold posts at hlow ⊢
  rw [tick_pc, tick_port, Port.timeout_recSem, hposts, if_pos rfl]
  rcases hpc with hpc | hpc
  . rw [hpc] at hsem hlow ⊢
    rcases hsem with ⟨e, hsem, hgrp⟩
    rw [hsem] at hlow ⊢
    simp [osSemPost_of_lt hgrp hlow, hadd _ hlow]
  . rw [hpc] at hsem hlow ⊢
    rcases hsem with ⟨e, hsem, -⟩
    rw [hsem] at hlow ⊢
    cases hgrp : e.osEventGrp with
    | true => simp [osSemPost_of_waiting hgrp, hgrp]
    | false =>
      have hlt : e.osEventCnt.toNat < 65535 := by
        simp only [hgrp] at hlow
        omega
      simp [osSemPost_of_lt hgrp hlt, hadd _ hlt, hgrp]

theorem posts_task {s s' : PortState size Pcb} {visits : List Pcb} (hsem : s.SemOk)
    (hstep : s.task visits = some s')
    : match s.pc with
      | .semCreate => s'.posts = 1
      | .walk [] => s.posts = s'.posts + 1
      | _ => s'.posts = s.posts := by
  unfold SemOk at hsem
  cases taskStep_of_task hstep with
  | semCreate hpc => simp [posts, hpc, osSemCreate]
  | semPendNull hpc hnull => simp [hpc, hnull] at hsem
  | semPendTake e hpc he hcnt =>
    have hpos : 0 < e.osEventCnt.toNat := UInt16.lt_iff_toNat_lt.mp hcnt
    have hsub : (e.osEventCnt - 1).toNat = e.osEventCnt.toNat - 1 :=
      UInt16.toNat_sub_of_le _ _ (UInt16.le_iff_toNat_le.mpr hpos)
    simp only [posts, hpc, he, hsub]
    omega
  | semPendSuspend e hpc he hcnt => simp [posts, hpc, he]
  | semPendResume e hpc he hgrp => simp [posts, hpc, he, hgrp]
  | copyCounter hpc => simp [posts, hpc, Port.copyCounter]
  | resetCounter hpc => simp [posts, hpc, Port.resetCount]
  | loopInit hpc => simp [posts, hpc]
  | write pcb todo hpc => simp [posts, hpc]
  | passDone hpc =>
    simp only [hpc] at hsem
    rcases hsem with ⟨e, he, -⟩
    simp [posts, hpc, he]

def inHand (s : PortState size Pcb) : List UInt8 :=
  match s.pc with
  | .resetCounter | .loopInit | .walk _ => s.port.sendData
  | _ => s.port.bytes s.port.recCounter.toNat

def PassOk (s : PortState size Pcb) : Prop :=
  match s.pc with
  | .loopInit => openPass s.log = [] ∧ s.port.recCounter = 0
  | .walk todo =>
    (∀ w ∈ openPass s.log, w.2 = s.port.sendData)
      ∧ (s.port.sendData ≠ [] → openPass s.log ≠ [] ∨ todo ≠ []) ∧ s.port.recCounter = 0
  | _ => openPass s.log = []

structure Handover (unsent : Option (List UInt8)) (s : PortState size Pcb) : Prop where
  semOk : s.SemOk
  timed : s.Timed
  sameData : ∀ pass ∈ donePasses s.log, ∀ w ∈ pass, w.2 = passData pass
  created : s.pc = .semCreate → passes s.log = 0
  startup : passes s.log = 0 → unsent = none ∧ openFrame s.log = []
  closed : closedFrames s.log = sentFrames s.log ++ unsent.toList
  posts : s.posts = unsent.toList.length + s.initialPost
  nonempty : ∀ f ∈ unsent, f ≠ []
  cut : unsent = none ∨ openFrame s.log = []
  inHand : unsent.getD [] ++ openFrame s.log = s.inHand
  pass : s.PassOk

variable {unsent : Option (List UInt8)}

theorem Handover.framesKept {s : PortState size Pcb} (h : s.Handover unsent) : s.FramesKept :=
  ⟨h.sameData, unsent.toList, h.closed, h.posts⟩

theorem Handover.atSemPend {s : PortState size Pcb} (h : s.Handover unsent)
    (hopen : openFrame s.log ≠ [])
    : s.AtSemPend ∧ unsent = none ∧ s.posts = 0 := by
  have hpasses : passes s.log ≠ 0 := fun hzero => hopen (h.startup hzero).2
  have hnone : unsent = none := h.cut.resolve_right hopen
  have hcreate : s.pc ≠ .semCreate := fun hpc => hpasses (h.created hpc)
  have hinit : s.initialPost = 0 := by
    unfold initialPost
    split
    . rfl
    . rw [if_neg hpasses]
  have hzero : s.posts = 0 := by
    rw [h.posts, hnone, hinit]
    rfl
  refine ⟨?_, hnone, hzero⟩
  have hpass : ¬ s.InPass := fun hpass => by
    have := posts_pos h.semOk hpass
    omega
  unfold AtSemPend
  unfold InPass at hpass
  cases hpc : s.pc <;> simp_all

theorem Handover.openFrame_eq_nil {s : PortState size Pcb} (h : s.Handover unsent)
    (hpass : s.InPass)
    : openFrame s.log = [] := by
  cases hopen : openFrame s.log with
  | nil => rfl
  | cons dr frame =>
    rcases h.atSemPend (by simp [hopen]) with ⟨-, -, hzero⟩
    have := posts_pos h.semOk hpass
    omega

theorem Handover.rx (hsize : 256 ≤ size) {s : PortState size Pcb} {dr : UInt8}
    (h : s.Handover unsent) (hcount : s.Undisturbed (.rx dr)) (hkeeps : s.KeepsUp (.rx dr))
    : (s.rx dr).Handover unsent := by
  rcases hkeeps with ⟨hpc, hposted⟩
  have hzero := posts_eq_zero hpc hposted
  have hposts := h.posts
  have hnone : unsent = none := by
    cases unsent with
    | none => rfl
    | some f =>
      simp only [Option.toList_some, List.length_singleton] at hposts
      omega
  have hpasses : passes s.log ≠ 0 := by
    intro hp
    have hinit : s.initialPost = 1 := by
      rcases hpc with hpc | hpc <;> simp [initialPost, hpc, hp]
    omega
  have hhand : s.inHand = s.port.bytes s.port.recCounter.toNat := by
    rcases hpc with hpc | hpc <;> simp [PortState.inHand, hpc]
  have hhand' : (s.rx dr).inHand = s.inHand ++ [dr] := by
    rw [hhand, ← Port.bytes_receive hsize s.port dr hcount.2.1]
    rcases hpc with hpc | hpc <;> simp [PortState.inHand, hpc]
  exact
    { semOk := h.semOk.rx hsize dr
      timed := Timed.rx hsize s dr
      sameData := by simpa using h.sameData
      created := by simpa using h.created
      startup := fun hp => absurd (by simpa using hp) hpasses
      closed := by simpa [sentFrames] using h.closed
      posts := by
        have hsem : (s.rx dr).port.recSem = s.port.recSem := Port.receive_recSem hsize _ _
        rw [posts_congr hsem (rx_pc s dr), initialPost_congr (rx_pc s dr) (passes_rx _ _)]
        exact hposts
      nonempty := h.nonempty
      cut := .inl hnone
      inHand := by
        rw [hhand', ← h.inHand]
        simp
      pass := by
        have hpass := h.pass
        rcases hpc with hpc | hpc <;> simpa [PassOk, hpc] using hpass }

theorem Handover.tick {s : PortState size Pcb} (h : s.Handover unsent)
    : ∃ unsent, s.tick.Handover unsent := by
  have hbytes : s.tick.inHand = s.inHand := by
    simp [PortState.inHand, Port.sendData, Port.bytes_congr (Port.timeout_recBuf s.port),
      Port.timeout_recCounter, Port.timeout_tcpSendCounter]
  cases hposts : s.port.timeout.2 with
  | false =>
    have hlog : s.tick.log = s.log := by simp [tick_log, hposts]
    refine ⟨unsent,
      { semOk := h.semOk.tick
        timed := h.timed.tick
        sameData := by simpa [hlog] using h.sameData
        created := by simpa [hlog] using h.created
        startup := by simpa [hlog] using h.startup
        closed := by simpa [hlog] using h.closed
        posts := by
          have hsem : s.tick.port.recSem = s.port.recSem := by
            simp [Port.timeout_recSem, hposts]
          rw [posts_congr hsem (tick_pc s), initialPost_congr (tick_pc s) (by rw [hlog])]
          exact h.posts
        nonempty := h.nonempty
        cut := by simpa [hlog] using h.cut
        inHand := by rw [hbytes, hlog, h.inHand]
        pass := by
          have hpass := h.pass
          unfold PassOk at *
          simpa [hlog, Port.sendData, Port.bytes_congr (Port.timeout_recBuf s.port),
            Port.timeout_recCounter, Port.timeout_tcpSendCounter] using hpass }⟩
  | true =>
    have hopen : openFrame s.log ≠ [] := h.timed.posts_iff.mp hposts
    rcases h.atSemPend hopen with ⟨hpc, hnone, hzero⟩
    have hlog : s.tick.log = s.log ++ [.closed] := by simp [tick_log, hposts]
    have hprev := h.posts
    refine ⟨some (openFrame s.log),
      { semOk := h.semOk.tick
        timed := h.timed.tick
        sameData := by simpa [hlog] using h.sameData
        created := by simpa [hlog] using h.created
        startup := fun hp => absurd (h.startup (by simpa [hlog] using hp)).2 hopen
        closed := by
          have hclosed := h.closed
          simpa [hlog, hnone, sentFrames] using hclosed
        posts := by
          rw [posts_tick h.semOk hpc hposts (by omega), hprev, hnone,
            initialPost_congr (tick_pc s) (by simp [hlog])]
          simp [Nat.add_comm]
        nonempty := by simpa using hopen
        cut := by simp [hlog]
        inHand := by
          rw [hbytes, hlog, ← h.inHand, hnone]
          simp
        pass := by
          have hpass := h.pass
          rcases hpc with hpc | hpc <;> simpa [PassOk, hpc, hlog] using hpass }⟩

theorem Handover.passDone {s s' : PortState size Pcb} (h : s.Handover unsent) (hpc : s.pc = .walk [])
    (hs' : s' = { s with pc := .semPend, log := s.log ++ [.passDone] }) (hsem : s'.SemOk) (htimed : s'.Timed)
    (hposts : s.posts = s'.posts + 1)
    : s'.Handover none := by
  subst hs'
  have hprev := h.posts
  have hhand := h.inHand
  have hpass := h.pass
  unfold initialPost at hprev
  unfold PortState.inHand at hhand
  unfold PassOk at hpass
  simp only [hpc] at hprev hhand hpass
  have hopen : openFrame s.log = [] := h.openFrame_eq_nil (by simp [InPass, hpc])
  have hdata : s.port.sendData = unsent.getD [] := by rw [← hhand, hopen, List.append_nil]
  have hpassData : passData (openPass s.log) = unsent.getD [] := by
    rw [← hdata]
    apply passData_eq hpass.1
    by_cases hempty : s.port.sendData = []
    . exact .inr hempty
    . exact .inl ((hpass.2.1 hempty).resolve_right (by simp))
  have hclosed := h.closed
  have hstartup := h.startup
  refine ⟨hsem, htimed, ?_, by simp, by simp, ?_, ?_, by simp, .inl rfl, ?_, by simp [PassOk]⟩
  . simp only [donePasses_passDone, List.forall_mem_append, List.forall_mem_singleton]
    refine ⟨h.sameData, ?_⟩
    rw [hpassData, ← hdata]
    exact hpass.1
  . rw [closedFrames_passDone, sentFrames_passDone, hpassData, hclosed]
    cases hunsent : unsent with
    | none => simp
    | some f => simp [h.nonempty f hunsent]
  . -- The post the pass held was the initial one or that of the frame it sent.
    have hlen : unsent.toList.length ≤ 1 := by cases unsent <;> simp
    have hinit : initialPost { s with pc := .semPend, log := s.log ++ [.passDone] } = 0 := by
      simp [initialPost]
    rw [hinit]
    simp only [Option.toList_none, List.length_nil]
    by_cases hp : passes s.log = 0
    . simp only [(hstartup hp).1, hp, Option.toList_none, List.length_nil, if_pos] at hprev
      omega
    . simp only [hp, if_neg, not_false_eq_true] at hprev
      omega
  . simp [PortState.inHand, hopen, hpass.2.2]

theorem Handover.task {s s' : PortState size Pcb} {visits : List Pcb} (h : s.Handover unsent)
    (hkeeps : s.KeepsUp (.task visits)) (hstep : s.task visits = some s')
    : ∃ unsent, s'.Handover unsent := by
  have hsem := h.semOk.task hstep
  have htimed := h.timed.task hstep
  have hposts := posts_task h.semOk hstep
  have hprev := h.posts
  have hhand := h.inHand
  have hpass := h.pass
  unfold initialPost at hprev
  unfold PortState.inHand at hhand
  unfold PassOk at hpass
  cases taskStep_of_task hstep with
  | semCreate hpc =>
    simp only [hpc] at hprev hhand hpass hposts
    have hzero := h.created hpc
    refine ⟨unsent, hsem, htimed, h.sameData, by simp, h.startup, h.closed, ?_, h.nonempty, h.cut,
      hhand, hpass⟩
    simp [hposts, initialPost, hzero, (h.startup hzero).1]
  | semPendNull hpc hnull =>
    have hsemOk := h.semOk
    simp [SemOk, hpc, hnull] at hsemOk
  | semPendTake e hpc he hcnt =>
    simp only [hpc] at hprev hhand hpass hposts
    exact ⟨unsent, hsem, htimed, h.sameData, by simp, h.startup, h.closed, hposts.trans hprev,
      h.nonempty, h.cut, hhand, hpass⟩
  | semPendSuspend e hpc he hcnt =>
    simp only [hpc] at hprev hhand hpass hposts
    exact ⟨unsent, hsem, htimed, h.sameData, by simp, h.startup, h.closed, hposts.trans hprev,
      h.nonempty, h.cut, hhand, hpass⟩
  | semPendResume e hpc he hgrp =>
    simp only [hpc] at hprev hhand hpass hposts
    exact ⟨unsent, hsem, htimed, h.sameData, by simp, h.startup, h.closed, hposts.trans hprev,
      h.nonempty, h.cut, hhand, hpass⟩
  | copyCounter hpc =>
    simp only [hpc] at hprev hhand hpass hposts
    exact ⟨unsent, hsem, htimed, h.sameData, by simp, h.startup, h.closed, hposts.trans hprev,
      h.nonempty, h.cut, hhand, hpass⟩
  | resetCounter hpc =>
    simp only [hpc] at hprev hhand hpass hposts
    exact ⟨unsent, hsem, htimed, h.sameData, by simp, h.startup, h.closed, hposts.trans hprev,
      h.nonempty, h.cut, hhand, hpass, rfl⟩
  | loopInit hpc =>
    simp only [hpc] at hprev hhand hpass hposts
    refine ⟨unsent, hsem, htimed, h.sameData, by simp, h.startup, h.closed, hposts.trans hprev,
      h.nonempty, h.cut, hhand, ?_, ?_, hpass.2⟩
    . simp [hpass.1]
    . intro hdata
      refine .inr (hkeeps hpc ?_)
      intro hzero
      simp [Port.sendData, hzero] at hdata
  | write pcb todo hpc =>
    simp only [hpc] at hprev hhand hpass hposts
    refine ⟨unsent, hsem, htimed, by simpa using h.sameData, by simp, by simpa using h.startup,
      by simpa [sentFrames] using h.closed, ?_, h.nonempty, by simpa using h.cut,
      by simpa [PortState.inHand] using hhand, ?_, ?_, hpass.2.2⟩
    . simpa [initialPost] using hposts.trans hprev
    . simp only [openPass_write, List.forall_mem_append, List.forall_mem_singleton, and_true]
      exact hpass.1
    . simp
  | passDone hpc =>
    simp only [hpc] at hposts
    exact ⟨none, h.passDone hpc rfl hsem htimed hposts⟩

theorem Handover.step (hsize : 256 ≤ size) {s s' : PortState size Pcb} {b : PortAct Pcb}
    (h : s.Handover unsent) (hcount : s.Undisturbed b) (hkeeps : s.KeepsUp b)
    (hstep : s.step b = some s')
    : ∃ unsent, s'.Handover unsent := by
  cases b with
  | rx dr =>
    cases hstep
    exact ⟨unsent, h.rx hsize hcount hkeeps⟩
  | tick =>
    cases hstep
    exact h.tick
  | task visits => exact h.task hkeeps hstep

theorem Handover.run (hsize : 256 ≤ size) {s t : PortState size Pcb} {bs : List (PortAct Pcb)}
    (h : s.Handover unsent) (hcount : Along PortState.step Undisturbed s bs)
    (hkeeps : Along PortState.step KeepsUp s bs)
    (hrun : Transition.run PortState.step s bs = some t)
    : ∃ unsent, t.Handover unsent := by
  have hinv : ∀ (s : PortState size Pcb) b s', (∃ unsent, s.Handover unsent) →
      s.Undisturbed b ∧ s.KeepsUp b → s.step b = some s' → ∃ unsent, s'.Handover unsent := by
    rintro s b s' ⟨unsent, h⟩ ⟨hcount, hkeeps⟩ hstep
    exact h.step hsize hcount hkeeps hstep
  apply run_invariant hinv
  . exact ⟨unsent, h⟩
  . exact hcount.and hkeeps
  . exact hrun

theorem PoweredOn.handover {s : PortState size Pcb} (h : s.PoweredOn) : s.Handover none := by
  have hsem := h.semOk
  rcases h with ⟨⟨hcount, hflag, -, -, hnull⟩, hpc, hlog⟩
  refine ⟨hsem, .inr ⟨hflag, ?_⟩, ?_, ?_, ?_, ?_, ?_, nofun, .inl rfl, ?_, ?_⟩
  . rw [hlog, openFrame_nil]
  . rw [hlog, donePasses_nil]
    exact nofun
  . intro _
    rw [hlog, passes_nil]
  . intro _
    rw [hlog]
    exact ⟨rfl, rfl⟩
  . rw [hlog]
    rfl
  . simp [posts, initialPost, hnull, hpc]
  . simp [inHand, hlog, hpc, hcount]
  . simp [PassOk, hpc, hlog]

end PortState

namespace Gateway

theorem framesKept_of_keepsUp (id : PortId) {acts : List (Act Pcb)} {g : Gateway Pcb}
    (hrun : run step powerOn acts = some g)
    (hundisturbed : Along step (OnPort id PortState.Undisturbed) powerOn acts)
    (hkeeps : Along step (OnPort id PortState.KeepsUp) powerOn acts)
    : (g.port id).FramesKept := by
  have hstart := (@powerOn_poweredOn Pcb id).handover
  have hproj := (projects id).run hrun
  rcases hstart.run id.le_bufSize (((projects id).along_iff hrun).mpr hundisturbed)
    (((projects id).along_iff hrun).mpr hkeeps) hproj with ⟨unsent, hover⟩
  exact hover.framesKept

def twoFrames : List (Act Nat) :=
  List.replicate 8 (.rs232Task [7]) ++ [.usart2 0x41, .tim2] ++ List.replicate 7 (.rs232Task [7])
    ++ [.usart2 0x42, .tim2]

def mergedFrames : List (Act Nat) :=
  List.replicate 8 (.rs232Task [7]) ++ [.usart2 0x41, .tim2, .usart2 0x42, .tim2]
    ++ List.replicate 6 (.rs232Task [7])

theorem framesKept_of_keepsUp_twoFrames
    : ∃ g, run step powerOn twoFrames = some g
        ∧ closedFrames (g.port .rs232).log = [[0x41], [0x42]]
        ∧ (g.port .rs232).FramesKept := by
  refine ⟨(run step powerOn twoFrames).get (by decide), (Option.some_get _).symm, by decide, ?_⟩
  apply framesKept_of_keepsUp .rs232 (Option.some_get _).symm
  . decide
  . decide

theorem not_framesKept_mergedFrames
    : ∃ g, run step powerOn mergedFrames = some g
        ∧ Along step (OnPort .rs232 PortState.Undisturbed) powerOn mergedFrames
        ∧ (g.port .rs232).pc = .semPend
        ∧ closedFrames (g.port .rs232).log = [[0x41], [0x42]]
        ∧ sentFrames (g.port .rs232).log = [[0x41, 0x42]]
        ∧ (g.port .rs232).posts = 1
        ∧ ¬ (g.port .rs232).FramesKept := by
  refine ⟨(run step powerOn mergedFrames).get (by decide), (Option.some_get _).symm, by decide,
    by decide, by decide, by decide +kernel, by decide, ?_⟩
  rintro ⟨-, unsent, hclosed, -⟩
  have hprefix : sentFrames ((run step powerOn mergedFrames).get (by decide)).rs232.log
      <+: closedFrames ((run step powerOn mergedFrames).get (by decide)).rs232.log :=
    ⟨unsent, hclosed.symm⟩
  revert hprefix
  decide +kernel

end Gateway

end SerialGateway
