import SerialGateway.Lib.Transition
import SerialGateway.Lwip.MboxPool
import SerialGateway.Lwip.Pbuf
import SerialGateway.Lwip.SysTime
import SerialGateway.Os.QueuePost

/-!
This module contains how messages pass through a mailbox of `sys_arch.c`, with any number of tasks that
post to it and one that fetches from it.
-/

open Transition

namespace SerialGateway

variable {M P : Type}

/--
What a mailbox passes to the kernel: the address of `pvNullPointer` or the message.
-/
inductive MboxPtr (M : Type) where
  | pvNullPointer
  | msg (m : M)
  deriving DecidableEq, Repr

namespace MboxPtr

def ofMsg : Option M → Option (MboxPtr M)
  | none => some .pvNullPointer
  | some m => some (.msg m)

def toMsg : Option (MboxPtr M) → Option M
  | some .pvNullPointer => none
  | some (.msg m) => some m
  | none => none

@[simp]
theorem toMsg_ofMsg (msg : Option M) : toMsg (ofMsg msg) = msg := by
  cases msg <;> rfl

end MboxPtr

def sysMboxTrypost (q : MsgQueue (MboxPtr M)) (msg : Option M) : MsgQueue (MboxPtr M) × ErrT :=
  match q.osqPost (MboxPtr.ofMsg msg) with
  | (q, .none) => (q, .ok)
  | (q, _) => (q, .mem)

/--
A task that posts: at the test of the loop in `sys_mbox_post` or inside `OSTimeDly`, with the number of
the call.
-/
inductive Producer (M : Type) where
  | idle
  | loop (call : Nat) (msg : Option M) (i : UInt8)
  | dly (call : Nat) (msg : Option M) (i : UInt8) (ticks : UInt16)
  deriving DecidableEq, Repr

/--
The task that fetches: inside `sys_arch_mbox_fetch` before `OSQPend`, suspended in it or after it. `t₀`
is the time at which the fetch began.
-/
inductive Consumer (M : Type) where
  | idle
  | pend (ticks : UInt16) (t₀ : UInt32)
  | suspended (t₀ : UInt32)
  | fetched (t₀ : UInt32) (temp : Option (MboxPtr M)) (ucErr : PendErr)
  deriving DecidableEq, Repr

/--
`returned` is logged for a `sys_mbox_post` that returns and a `sys_mbox_trypost` that returns `ERR_OK`.
-/
inductive MboxEvent (M : Type) where
  | accepted (call : Nat) (msg : Option M)
  | returned (call : Nat) (msg : Option M)
  | refused (call : Nat) (msg : Option M)
  | fetched (msg : Option M) (ms : UInt32)
  deriving DecidableEq, Repr

structure Mbox (P M : Type) where
  q : MsgQueue (MboxPtr M)
  osTime : UInt32
  producers : P → Producer M
  consumer : Consumer M
  calls : Nat
  log : List (MboxEvent M)

namespace Producer

def call? : Producer M → Option Nat
  | idle => none
  | loop call _ _ | dly call _ _ _ => some call

def osTimeTick : Producer M → Producer M
  | dly call msg i ticks => if ticks - 1 = 0 then loop call msg i else dly call msg i (ticks - 1)
  | p => p

theorem call?_osTimeTick (p : Producer M) : p.osTimeTick.call? = p.call? := by
  cases p with
  | dly call msg i ticks =>
    simp only [osTimeTick]
    split <;> rfl
  | _ => rfl

end Producer

namespace Consumer

def isSuspended : Consumer M → Bool
  | suspended _ => true
  | _ => false

def temp : Consumer M → List (Option (MboxPtr M))
  | fetched _ temp .none => [temp]
  | _ => []

end Consumer

namespace Mbox

inductive Act (P M : Type) where
  | call (p : P) (msg : Option M)
  | post (p : P)
  | trypost (p : P) (msg : Option M)
  | fetch (timeout : UInt32)
  | pend
  | resume
  | ret
  | tick
  deriving DecidableEq, Repr

section Step

variable [DecidableEq P]

def post (s : Mbox P M) (p : P) (call : Nat) (msg : Option M) (i : UInt8) : Mbox P M :=
  if i < 10 then
    match s.q.osqPost (MboxPtr.ofMsg msg) with
    | (q, .none) =>
      { s with
        q
        producers := Function.update s.producers p .idle
        log := s.log ++ [.accepted call msg, .returned call msg] }
    | (q, _) => { s with q, producers := Function.update s.producers p (.dly call msg (i + 1) 5) }
  else
    { s with
      producers := Function.update s.producers p .idle
      log := s.log ++ [.returned call msg] }

def trypost (s : Mbox P M) (msg : Option M) : Mbox P M :=
  match sysMboxTrypost s.q msg with
  | (q, .ok) =>
    { s with
      q
      calls := s.calls + 1
      log := s.log ++ [.accepted s.calls msg, .returned s.calls msg] }
  | (q, _) =>
    { s with
      q
      calls := s.calls + 1
      log := s.log ++ [.refused s.calls msg] }

def step (s : Mbox P M) : Act P M → Option (Mbox P M)
  | .call p msg =>
    match s.producers p with
    | .idle =>
      some { s with
        producers := Function.update s.producers p (.loop s.calls msg 0)
        calls := s.calls + 1 }
    | _ => none
  | .post p =>
    match s.producers p with
    | .loop call msg i => some (s.post p call msg i)
    | _ => none
  | .trypost p msg =>
    match s.producers p with
    | .idle => some (s.trypost msg)
    | _ => none
  | .fetch timeout =>
    match s.consumer with
    | .idle => some { s with consumer := .pend (mboxFetchTicks timeout) s.osTime }
    | _ => none
  | .pend =>
    match s.consumer with
    | .pend ticks t₀ =>
      match s.q.osqPend ticks with
      | (q, some temp) => some { s with q, consumer := .fetched t₀ temp .none }
      | (q, none) => some { s with q, consumer := .suspended t₀ }
    | _ => none
  | .resume =>
    match s.consumer with
    | .suspended t₀ =>
      if s.q.tcb.osTcbStatQ then
        none
      else
        match s.q.osqPendResume with
        | (q, temp, ucErr) => some { s with q, consumer := .fetched t₀ temp ucErr }
    | _ => none
  | .ret =>
    match s.consumer with
    | .fetched t₀ temp ucErr =>
      some { s with
        consumer := .idle
        log := s.log ++ [.fetched (MboxPtr.toMsg temp) (mboxFetchTime t₀ s.osTime ucErr)] }
    | _ => none
  | .tick =>
    some { s with
      q := s.q.osTimeTick
      osTime := s.osTime + 1
      producers := fun p => (s.producers p).osTimeTick }

end Step

def fresh (start : Nat) (size : Int32) (mem : Nat → Option (MboxPtr M)) (osTime : UInt32) : Mbox P M :=
  { q := .create start (mboxSize size) mem
    osTime
    producers := fun _ => .idle
    consumer := .idle
    calls := 0
    log := [] }

def accepted (log : List (MboxEvent M)) : List (Nat × Option M) :=
  log.filterMap fun
    | .accepted call msg => some (call, msg)
    | _ => none

def delivered (log : List (MboxEvent M)) : List (Option M) :=
  log.filterMap fun
    | .fetched msg ms => if ms = sysArchTimeout then none else some msg
    | _ => none

def contents (s : Mbox P M) : List (Option M) :=
  (s.consumer.temp ++ s.q.handed s.consumer.isSuspended ++ s.q.pq.contents s.q.mem).map MboxPtr.toMsg

/--
The messages that were accepted are, in this order, those that were delivered and those in the mailbox;
the message of a call that has returned is one of them, once.
-/
structure Delivers [DecidableEq M] (s : Mbox P M) : Prop where
  order : (accepted s.log).map (·.2) = delivered s.log ++ s.contents
  posted : ∀ call msg, .returned call msg ∈ s.log → (accepted s.log).count (call, msg) = 1

def RefusalKeeps (s : Mbox P M) : Act P M → Prop
  | .trypost _ msg => (sysMboxTrypost s.q msg).2 = .mem → (sysMboxTrypost s.q msg).1 = s.q
  | _ => True

def TriesLeft (s : Mbox P M) : Act P M → Prop
  | .post p => ∀ call msg i, s.producers p = .loop call msg i → i < 10
  | _ => True

structure CallsOk (calls : Nat) (producers : P → Producer M) (log : List (MboxEvent M)) : Prop where
  lt : ∀ e ∈ accepted log, e.1 < calls
  nodup : ((accepted log).map (·.1)).Nodup
  active : ∀ p call, (producers p).call? = some call →
    call < calls ∧ call ∉ (accepted log).map (·.1)
  distinct : ∀ p p' call, (producers p).call? = some call → (producers p').call? = some call → p = p'
  posted : ∀ call msg, .returned call msg ∈ log → (call, msg) ∈ accepted log

namespace CallsOk

variable {calls calls' : Nat} {producers producers' : P → Producer M} {log log' : List (MboxEvent M)}
variable {p : P} {call : Nat} {msg : Option M}

theorem congr (h : CallsOk calls producers log) (hle : calls ≤ calls')
    (hcall : ∀ p, (producers' p).call? = (producers p).call?)
    (haccepted : accepted log' = accepted log)
    (hreturned : ∀ call msg, .returned call msg ∈ log' → .returned call msg ∈ log)
    : CallsOk calls' producers' log' := by
  constructor
  . rw [haccepted]
    intro e he
    apply Nat.lt_of_lt_of_le
    . exact h.lt e he
    . exact hle
  . rw [haccepted]
    exact h.nodup
  . rw [haccepted]
    intro p call hp
    rw [hcall] at hp
    rcases h.active p call hp with ⟨hlt, hnot⟩
    exact ⟨Nat.lt_of_lt_of_le hlt hle, hnot⟩
  . intro p p' call hp hp'
    rw [hcall] at hp hp'
    exact h.distinct p p' call hp hp'
  . rw [haccepted]
    intro call msg hmem
    apply h.posted call msg
    exact hreturned call msg hmem

theorem start [DecidableEq P] (h : CallsOk calls producers log) (i : UInt8)
    : CallsOk (calls + 1) (Function.update producers p (.loop calls msg i)) log := by
  have hids : calls ∉ (accepted log).map (·.1) := by
    intro hmem
    rcases List.mem_map.mp hmem with ⟨e, he, heq⟩
    exact Nat.lt_irrefl calls (heq ▸ h.lt e he)
  have hcall : ∀ p' call, (Function.update producers p (.loop calls msg i) p').call? = some call →
      p' = p ∧ call = calls ∨ p' ≠ p ∧ (producers p').call? = some call := by
    intro p' call hp'
    by_cases heq : p' = p
    . rw [heq, Function.update_self, Producer.call?, Option.some.injEq] at hp'
      exact .inl ⟨heq, hp'.symm⟩
    . rw [Function.update_of_ne heq] at hp'
      exact .inr ⟨heq, hp'⟩
  constructor
  . intro e he
    apply Nat.lt_succ_of_lt
    exact h.lt e he
  . exact h.nodup
  . intro p' call hp'
    rcases hcall p' call hp' with ⟨-, rfl⟩ | ⟨-, hp'⟩
    . exact ⟨Nat.lt_succ_self _, hids⟩
    . rcases h.active p' call hp' with ⟨hlt, hnot⟩
      exact ⟨Nat.lt_succ_of_lt hlt, hnot⟩
  . intro p₁ p₂ call h₁ h₂
    rcases hcall p₁ call h₁ with ⟨hp₁, hc₁⟩ | ⟨hp₁, h₁⟩
    . rcases hcall p₂ call h₂ with ⟨hp₂, -⟩ | ⟨-, h₂⟩
      . exact hp₁.trans hp₂.symm
      . have := (h.active p₂ call h₂).1
        omega
    . rcases hcall p₂ call h₂ with ⟨-, hc₂⟩ | ⟨-, h₂⟩
      . have := (h.active p₁ call h₁).1
        omega
      . exact h.distinct p₁ p₂ call h₁ h₂
  . exact h.posted

theorem accept (h : CallsOk calls producers log) (hle : calls ≤ calls') (hlt : call < calls')
    (hfresh : call ∉ (accepted log).map (·.1))
    (hcall : ∀ p c, (producers' p).call? = some c → (producers p).call? = some c ∧ c ≠ call)
    : CallsOk calls' producers' (log ++ [.accepted call msg, .returned call msg]) := by
  have haccepted : accepted (log ++ [.accepted call msg, .returned call msg])
      = accepted log ++ [(call, msg)] := by
    simp [accepted]
  constructor
  . rw [haccepted]
    intro e he
    rcases List.mem_append.mp he with he | he
    . apply Nat.lt_of_lt_of_le
      . exact h.lt e he
      . exact hle
    . rw [List.mem_singleton] at he
      rw [he]
      exact hlt
  . rw [haccepted, List.map_append]
    apply h.nodup.append
    . simp
    . simpa using hfresh
  . intro p c hp
    rcases hcall p c hp with ⟨hp, hne⟩
    rcases h.active p c hp with ⟨hc, hnot⟩
    rw [haccepted, List.map_append, List.mem_append]
    refine ⟨Nat.lt_of_lt_of_le hc hle, ?_⟩
    rintro (hmem | hmem)
    . exact hnot hmem
    . simp [hne] at hmem
  . intro p₁ p₂ c h₁ h₂
    exact h.distinct p₁ p₂ c (hcall p₁ c h₁).1 (hcall p₂ c h₂).1
  . intro c m hmem
    rw [haccepted, List.mem_append]
    rcases List.mem_append.mp hmem with hmem | hmem
    . exact .inl (h.posted c m hmem)
    . right
      simpa using hmem

theorem accept_active [DecidableEq P] (h : CallsOk calls producers log) (hp : (producers p).call? = some call)
    : CallsOk calls (Function.update producers p .idle)
        (log ++ [.accepted call msg, .returned call msg]) := by
  rcases h.active p call hp with ⟨hlt, hnot⟩
  apply h.accept (Nat.le_refl calls) hlt hnot
  intro p' c hp'
  by_cases heq : p' = p
  . rw [heq, Function.update_self] at hp'
    cases hp'
  . rw [Function.update_of_ne heq] at hp'
    refine ⟨hp', ?_⟩
    rintro rfl
    apply heq
    exact h.distinct p' p c hp' hp

theorem accept_new (h : CallsOk calls producers log)
    : CallsOk (calls + 1) producers (log ++ [.accepted calls msg, .returned calls msg]) := by
  apply h.accept (Nat.le_succ calls) (Nat.lt_succ_self calls)
  . intro hmem
    rcases List.mem_map.mp hmem with ⟨e, he, heq⟩
    exact Nat.lt_irrefl calls (heq ▸ h.lt e he)
  . intro p c hp
    exact ⟨hp, Nat.ne_of_lt (h.active p c hp).1⟩

theorem count_eq_one [DecidableEq M] (h : CallsOk calls producers log)
    (hmem : .returned call msg ∈ log)
    : (accepted log).count (call, msg) = 1 := by
  apply List.count_eq_one_of_mem
  . exact h.nodup.of_map
  . exact h.posted call msg hmem

end CallsOk

structure Inv (s : Mbox P M) (msgs : List (Option (MboxPtr M))) : Prop where
  queue : s.q.Inv s.consumer.isSuspended msgs
  order : (accepted s.log).map (·.2) = delivered s.log
    ++ (s.consumer.temp ++ s.q.handed s.consumer.isSuspended ++ msgs).map MboxPtr.toMsg
  calls : CallsOk s.calls s.producers s.log
  ucErr : ∀ t₀ temp ucErr, s.consumer = .fetched t₀ temp ucErr → ucErr = .none ∨ ucErr = .timeout

variable {s s' : Mbox P M} {msgs : List (Option (MboxPtr M))}

theorem Inv.delivers [DecidableEq M] (h : s.Inv msgs) : s.Delivers := by
  constructor
  . rw [contents, h.queue.holds.contents_eq]
    exact h.order
  . intro call msg hmem
    exact h.calls.count_eq_one hmem

theorem inv_fresh (start : Nat) (size : Int32) (mem : Nat → Option (MboxPtr M)) (osTime : UInt32)
    : (fresh start size mem osTime : Mbox P M).Inv [] where
  queue := MsgQueue.inv_create start (mboxSize size) mem
  order := rfl
  calls := by
    constructor
    . intro e he
      cases he
    . exact List.nodup_nil
    . intro p call hp
      cases hp
    . intro p p' call hp
      cases hp
    . intro call msg hmem
      cases hmem
  ucErr := by
    intro t₀ temp ucErr h
    cases h

theorem Inv.accept (h : s.Inv msgs) {q : MsgQueue (MboxPtr M)} {msg : Option M} {call calls : Nat}
    {producers : P → Producer M} (hpost : s.q.osqPost (MboxPtr.ofMsg msg) = (q, .none))
    (hcalls : CallsOk calls producers (s.log ++ [.accepted call msg, .returned call msg]))
    : ∃ msgs', Inv { s with
        q, calls, producers, log := s.log ++ [.accepted call msg, .returned call msg] } msgs' := by
  rcases h.queue.osqPost hpost with ⟨msgs', hqueue, hmsgs⟩
  refine ⟨msgs', hqueue, ?_, hcalls, h.ucErr⟩
  have haccepted : accepted (s.log ++ [.accepted call msg, .returned call msg])
      = accepted s.log ++ [(call, msg)] := by
    simp [accepted]
  have hdelivered : delivered (s.log ++ [.accepted call msg, .returned call msg])
      = delivered s.log := by
    simp [delivered]
  have hcontents : s.consumer.temp ++ q.handed s.consumer.isSuspended ++ msgs'
      = s.consumer.temp ++ s.q.handed s.consumer.isSuspended ++ msgs ++ [MboxPtr.ofMsg msg] := by
    rw [List.append_assoc, hmsgs]
    simp only [List.append_assoc]
  simp only [haccepted, hdelivered, hcontents]
  rw [List.map_append, h.order]
  simp

theorem Inv.post [DecidableEq P] (h : s.Inv msgs) {p : P} {call : Nat} {msg : Option M}
    {i : UInt8} (hp : s.producers p = .loop call msg i) (hi : i < 10)
    : ∃ msgs', (s.post p call msg i).Inv msgs' := by
  have hcall : (s.producers p).call? = some call := by
    rw [hp]
    rfl
  unfold Mbox.post
  rw [if_pos hi]
  split
  . next q hpost =>
    apply h.accept hpost
    exact h.calls.accept_active hcall
  . next q err herr hpost =>
    have hq : q = s.q := by
      have hfull := MsgQueue.osqPost_full (k := s.q) (MboxPtr.ofMsg msg)
      rw [hpost] at hfull
      exact hfull herr
    rw [hq]
    refine ⟨msgs, h.queue, h.order, ?_, h.ucErr⟩
    apply h.calls.congr (Nat.le_refl _)
    . intro p'
      by_cases heq : p' = p
      . rw [heq, hcall]
        simp [Producer.call?]
      . simp [heq]
    . rfl
    . intro call msg hmem
      exact hmem

theorem sysMboxTrypost_cases (q : MsgQueue (MboxPtr M)) (msg : Option M)
    : (∃ q', q.osqPost (MboxPtr.ofMsg msg) = (q', .none) ∧ sysMboxTrypost q msg = (q', .ok))
      ∨ sysMboxTrypost q msg = (q, .mem) := by
  unfold sysMboxTrypost
  split
  . next q' hpost => exact .inl ⟨q', hpost, rfl⟩
  . next q' err herr hpost =>
    have hq : q' = q := by
      have hfull := MsgQueue.osqPost_full (k := q) (MboxPtr.ofMsg msg)
      rw [hpost] at hfull
      exact hfull herr
    rw [hq]
    exact .inr rfl

theorem refusalKeeps (s : Mbox P M) (a : Act P M) : s.RefusalKeeps a := by
  cases a with
  | trypost p msg =>
    rcases sysMboxTrypost_cases s.q msg with ⟨q', -, heq⟩ | heq
    . intro hmem
      rw [heq] at hmem
      cases hmem
    . intro hmem
      rw [heq]
  | _ => trivial

theorem Inv.trypost (h : s.Inv msgs) (msg : Option M) : ∃ msgs', (s.trypost msg).Inv msgs' := by
  rcases sysMboxTrypost_cases s.q msg with ⟨q', hpost, heq⟩ | heq
  . unfold Mbox.trypost
    rw [heq]
    exact h.accept hpost h.calls.accept_new
  . unfold Mbox.trypost
    rw [heq]
    refine ⟨msgs, h.queue, ?_, ?_, h.ucErr⟩
    . simpa [accepted, delivered] using h.order
    . apply h.calls.congr (Nat.le_succ _)
      . intro p
        rfl
      . simp [accepted]
      . intro call msg hmem
        simpa using hmem

theorem Inv.pend (h : s.Inv msgs) {ticks : UInt16} {t₀ : UInt32}
    (hconsumer : s.consumer = .pend ticks t₀) {q : MsgQueue (MboxPtr M)}
    {temp : Option (Option (MboxPtr M))} (hpend : s.q.osqPend ticks = (q, temp))
    : ∃ msgs', Inv { s with
        q
        consumer := match temp with
          | some temp => .fetched t₀ temp .none
          | none => .suspended t₀ } msgs' := by
  have hqueue := h.queue
  have horder := h.order
  rw [hconsumer] at hqueue horder
  cases temp with
  | some temp =>
    rcases hqueue.osqPend_some hpend with ⟨msgs', rfl, hrest⟩
    refine ⟨msgs', hrest, ?_, h.calls, ?_⟩
    . simpa [Consumer.temp, Consumer.isSuspended, MsgQueue.handed_running] using horder
    . intro t temp' ucErr heq
      cases heq
      exact .inl rfl
  | none =>
    rcases hqueue.osqPend_none hpend with ⟨rfl, hrest, hhanded⟩
    refine ⟨[], hrest, ?_, h.calls, ?_⟩
    . simpa [Consumer.temp, Consumer.isSuspended, MsgQueue.handed_running, hhanded] using horder
    . intro t temp' ucErr heq
      cases heq

theorem Inv.resume (h : s.Inv msgs) {t₀ : UInt32} (hconsumer : s.consumer = .suspended t₀)
    (hready : s.q.tcb.osTcbStatQ = false) {q : MsgQueue (MboxPtr M)} {temp : Option (MboxPtr M)}
    {ucErr : PendErr} (hresume : s.q.osqPendResume = (q, temp, ucErr))
    : Inv { s with q, consumer := .fetched t₀ temp ucErr } msgs := by
  have hqueue := h.queue
  have horder := h.order
  rw [hconsumer] at hqueue horder
  rcases hqueue.osqPendResume hready hresume with ⟨hrest, hgot⟩
  simp only [Consumer.temp, Consumer.isSuspended] at horder
  rcases hgot with ⟨rfl, hhanded⟩ | ⟨rfl, hhanded⟩
  . refine ⟨hrest, ?_, h.calls, ?_⟩
    . simpa [Consumer.temp, Consumer.isSuspended, MsgQueue.handed_running, hhanded] using horder
    . intro t temp' ucErr heq
      cases heq
      exact .inl rfl
  . refine ⟨hrest, ?_, h.calls, ?_⟩
    . simpa [Consumer.temp, Consumer.isSuspended, MsgQueue.handed_running, hhanded] using horder
    . intro t temp' ucErr heq
      cases heq
      exact .inr rfl

theorem Inv.ret (h : s.Inv msgs) {t₀ : UInt32} {temp : Option (MboxPtr M)} {ucErr : PendErr}
    (hconsumer : s.consumer = .fetched t₀ temp ucErr)
    : Inv { s with
        consumer := .idle
        log := s.log ++ [.fetched (MboxPtr.toMsg temp) (mboxFetchTime t₀ s.osTime ucErr)] } msgs := by
  have hqueue := h.queue
  have horder := h.order
  rw [hconsumer] at hqueue horder
  refine ⟨hqueue, ?_, ?_, ?_⟩
  . rcases h.ucErr t₀ temp ucErr hconsumer with rfl | rfl
    . have hms := mboxFetchTime_ne_sysArchTimeout t₀ s.osTime (show PendErr.none ≠ .timeout by decide)
      simpa [accepted, delivered, hms, Consumer.temp, Consumer.isSuspended,
        MsgQueue.handed_running] using horder
    . have hms : mboxFetchTime t₀ s.osTime .timeout = sysArchTimeout := rfl
      simpa [accepted, delivered, hms, Consumer.temp, Consumer.isSuspended,
        MsgQueue.handed_running] using horder
  . apply h.calls.congr (Nat.le_refl _)
    . intro p
      rfl
    . simp [accepted]
    . intro call msg hmem
      simpa using hmem
  . intro t temp' ucErr' heq
    cases heq

theorem Inv.tick (h : s.Inv msgs)
    : Inv { s with
        q := s.q.osTimeTick
        osTime := s.osTime + 1
        producers := fun p => (s.producers p).osTimeTick } msgs := by
  rcases h.queue.osTimeTick with ⟨hqueue, hhanded⟩
  refine ⟨hqueue, ?_, ?_, h.ucErr⟩
  . simp only [hhanded]
    exact h.order
  . apply h.calls.congr (Nat.le_refl _)
    . intro p
      apply Producer.call?_osTimeTick
    . rfl
    . intro call msg hmem
      exact hmem

theorem Inv.step [DecidableEq P] (h : s.Inv msgs) {a : Act P M} (htries : s.TriesLeft a)
    (hstep : Mbox.step s a = some s')
    : ∃ msgs', s'.Inv msgs' := by
  cases a with
  | call p msg =>
    simp only [Mbox.step] at hstep
    split at hstep
    . cases hstep
      exact ⟨msgs, h.queue, h.order, h.calls.start 0, h.ucErr⟩
    . cases hstep
  | post p =>
    simp only [Mbox.step] at hstep
    split at hstep
    . next call msg i hp =>
      cases hstep
      apply h.post
      . exact hp
      . exact htries call msg i hp
    . cases hstep
  | trypost p msg =>
    simp only [Mbox.step] at hstep
    split at hstep
    . cases hstep
      exact h.trypost msg
    . cases hstep
  | fetch timeout =>
    simp only [Mbox.step] at hstep
    split at hstep
    . next hidle =>
      cases hstep
      have hqueue := h.queue
      have horder := h.order
      rw [hidle] at hqueue horder
      refine ⟨msgs, hqueue, horder, h.calls, ?_⟩
      intro t temp ucErr heq
      cases heq
    . cases hstep
  | pend =>
    simp only [Mbox.step] at hstep
    split at hstep
    . next ticks t₀ hconsumer =>
      split at hstep
      . next q temp hpend =>
        cases hstep
        exact h.pend hconsumer hpend
      . next q hpend =>
        cases hstep
        exact h.pend hconsumer hpend
    . cases hstep
  | resume =>
    simp only [Mbox.step] at hstep
    split at hstep
    . next t₀ hconsumer =>
      split at hstep
      . cases hstep
      . next hready =>
        cases hstep
        exact ⟨msgs, h.resume hconsumer (by simpa using hready) rfl⟩
    . cases hstep
  | ret =>
    simp only [Mbox.step] at hstep
    split at hstep
    . next t₀ temp ucErr hconsumer =>
      cases hstep
      exact ⟨msgs, h.ret hconsumer⟩
    . cases hstep
  | tick =>
    cases hstep
    exact ⟨msgs, h.tick⟩

theorem Inv.not_delivers [DecidableEq P] [DecidableEq M] (h : s.Inv msgs) {p : P} {call : Nat}
    {msg : Option M} {i : UInt8} (hp : s.producers p = .loop call msg i) (hi : ¬ i < 10)
    : ¬ (s.post p call msg i).Delivers := by
  intro hdelivers
  have hcall : (s.producers p).call? = some call := by
    rw [hp]
    rfl
  have hcount := hdelivers.posted call msg
  unfold Mbox.post at hcount
  rw [if_neg hi] at hcount
  have hone : (accepted s.log).count (call, msg) = 1 := by
    simpa [accepted] using hcount
  have hmem : (call, msg) ∈ accepted s.log := by
    apply List.count_pos_iff.mp
    omega
  exact (h.calls.active p call hcall).2 (List.mem_map_of_mem hmem)

theorem delivers_iff_triesLeft [DecidableEq P] [DecidableEq M] (h : s.Inv msgs) {a : Act P M}
    (hstep : step s a = some s')
    : s'.Delivers ↔ s.TriesLeft a := by
  constructor
  . intro hdelivers
    cases a with
    | post p =>
      intro call msg i hp
      by_contra hi
      simp only [step, hp] at hstep
      cases hstep
      exact h.not_delivers hp hi hdelivers
    | _ => trivial
  . intro htries
    rcases h.step htries hstep with ⟨msgs', h'⟩
    exact h'.delivers

theorem delivers_iff [DecidableEq P] [DecidableEq M] {start : Nat} {size : Int32}
    {mem : Nat → Option (MboxPtr M)} {osTime : UInt32} {acts : List (Act P M)}
    (hrun : run step (fresh start size mem osTime) acts = some s)
    : ((fresh start size mem osTime : Mbox P M).Delivers ∧
          Along step (fun s a => RefusalKeeps s a ∧ ∀ s', step s a = some s' → s'.Delivers)
            (fresh start size mem osTime) acts)
        ↔ Along step TriesLeft (fresh start size mem osTime) acts := by
  have hfresh : (fresh start size mem osTime : Mbox P M).Inv [] := inv_fresh start size mem osTime
  rw [iff_true_intro hfresh.delivers, true_and]
  apply along_iff_along (I := fun s => ∃ msgs, s.Inv msgs) ?_ ?_ ?_ hrun
  . rintro s a s' ⟨msgs, h⟩ hstep
    rw [← delivers_iff_triesLeft h hstep]
    simp [hstep, refusalKeeps]
  . rintro s a s' ⟨msgs, h⟩ htries hstep
    exact h.step htries hstep
  . exact ⟨[], hfresh⟩

def handOver : List (Act Bool Nat) :=
  [.fetch 0, .pend, .trypost true (some 1), .resume, .ret, .call false none, .post false,
    .trypost true (some 2), .fetch 500, .pend, .ret]

theorem delivers_iff_handOver
    : ((fresh 1 1 (fun _ => none) 0 : Mbox Bool Nat).Delivers ∧
          Along step (fun s a => RefusalKeeps s a ∧ ∀ s', step s a = some s' → s'.Delivers)
            (fresh 1 1 (fun _ => none) 0) handOver)
        ↔ Along step TriesLeft (fresh 1 1 (fun _ => none) 0) handOver :=
  delivers_iff (Option.some_get (by decide)).symm

def giveUp : List (Act Bool Nat) :=
  [.trypost true (some 1), .call false (some 2)]
    ++ (List.replicate 10 [.post false, .tick, .tick, .tick, .tick, .tick]).flatten ++ [.post false]

theorem not_delivers_giveUp
    : ∃ s, run step (fresh 1 1 (fun _ => none) 0) giveUp = some s ∧ ¬ s.Delivers := by
  refine ⟨(run step (fresh 1 1 (fun _ => none) 0) giveUp).get (by decide),
    (Option.some_get _).symm, ?_⟩
  intro h
  have hcount := h.posted 1 (some 2) (by decide)
  exact absurd hcount (by decide)

end Mbox

end SerialGateway
