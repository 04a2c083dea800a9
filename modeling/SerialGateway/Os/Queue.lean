import Mathlib.Data.List.FinRange
import Mathlib.Logic.Function.Basic
import SerialGateway.Lib.FreeList

/-!
This module contains the message queues of uC/OS-II (`os_q.c`): their control blocks, and how queues
are created and deleted.
-/

namespace SerialGateway

/--
A queue control block. Addresses count words of the size of a pointer.
-/
structure OsQ where
  osqStart : Nat
  osqEnd : Nat
  osqIn : Nat
  osqOut : Nat
  osqSize : UInt16
  osqEntries : UInt16
  deriving DecidableEq, Repr

inductive OsqErr where
  | none
  | peventNull
  | eventType
  | taskWaiting
  | qFull
  deriving DecidableEq, Repr

inductive PendErr where
  | none
  | timeout
  | pendAbort
  | eventType
  | peventNull
  | pendIsr
  | pendLocked
  deriving DecidableEq, Repr

abbrev osMaxEvents : Nat := 20

abbrev osMaxQs : Nat := 4

abbrev EcbId : Type := Fin osMaxEvents

abbrev OsqId : Type := Fin osMaxQs

/--
`OSEventType`, with what `OSEventPtr` points to for a queue. The link of an unused block is its place
in `osEventFreeList`.
-/
inductive OsEventType where
  | unused
  | sem
  | q (osEventPtr : OsqId)
  deriving DecidableEq, Repr

/--
An event control block. `osEventTbl` lists the priorities of the tasks that wait for the event;
`OSEventGrp` is zero when there are none.
-/
structure Ecb where
  osEventType : OsEventType
  osEventTbl : List UInt8
  deriving DecidableEq, Repr

structure OsPools where
  osEventFreeList : List EcbId
  osqFreeList : List OsqId
  ecb : EcbId → Ecb
  osq : OsqId → OsQ

namespace OsQ

def create (start : Nat) (size : UInt16) : OsQ :=
  { osqStart := start
    osqEnd := start + size.toNat
    osqIn := start
    osqOut := start
    osqSize := size
    osqEntries := 0 }

def flush (pq : OsQ) : OsQ :=
  { pq with osqIn := pq.osqStart, osqOut := pq.osqStart, osqEntries := 0 }

end OsQ

namespace OsPools

def osInit : OsPools :=
  { osEventFreeList := List.finRange osMaxEvents
    osqFreeList := List.finRange osMaxQs
    ecb := fun _ => { osEventType := .unused, osEventTbl := [] }
    osq := fun _ => .create 0 0 }

def osqCreate (k : OsPools) (start : Nat) (size : UInt16) : Option EcbId × OsPools :=
  match k.osEventFreeList with
  | [] => (none, k)
  | pevent :: events =>
    match k.osqFreeList with
    | [] =>
      -- the event control block goes back to the head of its list
      (none, { k with osEventFreeList := pevent :: events })
    | pq :: qs =>
      (some pevent,
        { osEventFreeList := events
          osqFreeList := qs
          ecb := Function.update k.ecb pevent { osEventType := .q pq, osEventTbl := [] }
          osq := Function.update k.osq pq (.create start size) })

def osqDelNoPend (k : OsPools) (pevent : Option EcbId) : OsPools × OsqErr :=
  match pevent with
  | none => (k, .peventNull)
  | some e =>
    match (k.ecb e).osEventType with
    | .unused | .sem => (k, .eventType)
    | .q pq =>
      if (k.ecb e).osEventTbl ≠ [] then
        (k, .taskWaiting)
      else
        ({ k with
            osEventFreeList := e :: k.osEventFreeList
            osqFreeList := pq :: k.osqFreeList
            ecb := Function.update k.ecb e { osEventType := .unused, osEventTbl := [] } },
          .none)

def osqFlush (k : OsPools) (pevent : Option EcbId) : OsPools × OsqErr :=
  match pevent with
  | none => (k, .peventNull)
  | some e =>
    match (k.ecb e).osEventType with
    | .unused | .sem => (k, .eventType)
    | .q pq => ({ k with osq := Function.update k.osq pq (k.osq pq).flush }, .none)

/--
`OSSemCreate`, as far as it takes an event control block.
-/
def osSemCreate (k : OsPools) : Option EcbId × OsPools :=
  match k.osEventFreeList with
  | [] => (none, k)
  | pevent :: events =>
    (some pevent,
      { k with
        osEventFreeList := events
        ecb := Function.update k.ecb pevent { osEventType := .sem, osEventTbl := [] } })

/--
`OSSemDel` of a semaphore no task waits for.
-/
def osSemDel (k : OsPools) (e : EcbId) : OsPools :=
  { k with
    osEventFreeList := e :: k.osEventFreeList
    ecb := Function.update k.ecb e { osEventType := .unused, osEventTbl := [] } }

def setEventTbl (k : OsPools) (e : EcbId) (tbl : List UInt8) : OsPools :=
  { k with ecb := Function.update k.ecb e { k.ecb e with osEventTbl := tbl } }

def IsQueue (k : OsPools) (e : EcbId) (pq : OsqId) : Prop :=
  (k.ecb e).osEventType = .q pq

structure WellFormed (k : OsPools) : Prop where
  events : FreeList k.osEventFreeList fun e => (k.ecb e).osEventType = .unused
  queues : FreeList k.osqFreeList fun pq => ∀ e, ¬ k.IsQueue e pq
  unique : ∀ e e' pq, k.IsQueue e pq → k.IsQueue e' pq → e = e'

theorem osInit_wellFormed : osInit.WellFormed := by
  constructor
  . constructor
    . apply List.nodup_finRange
    . intro e
      simp [osInit]
  . constructor
    . apply List.nodup_finRange
    . intro pq
      simp [osInit, IsQueue]
  . intro e e' pq h
    cases h

def queueAt (k : OsPools) (e : EcbId) : Option OsQ :=
  match (k.ecb e).osEventType with
  | .q pq => some (k.osq pq)
  | .unused | .sem => none

variable {k k' : OsPools} {e : EcbId} {pq : OsqId}

theorem IsQueue.type_eq (h : k.IsQueue e pq) : (k.ecb e).osEventType = .q pq := h

theorem queueAt_of_not_isQueue (h : ∀ pq, ¬ k.IsQueue e pq) : k.queueAt e = none := by
  unfold queueAt
  split
  . next pq hpq => exact absurd hpq (h pq)
  . rfl
  . rfl

theorem isQueue_of_queueAt {q : OsQ} (h : k.queueAt e = some q)
    : ∃ pq, k.IsQueue e pq ∧ k.osq pq = q := by
  unfold queueAt at h
  split at h
  . next pq hpq => exact ⟨pq, hpq, Option.some.inj h⟩
  . cases h
  . cases h

theorem not_isQueue_of_unused (h : (k.ecb e).osEventType = .unused) (pq : OsqId)
    : ¬ k.IsQueue e pq := by
  intro hq
  rw [IsQueue, h] at hq
  cases hq

theorem queueAt_update_other {ev : Ecb} {events : List EcbId} {qs : List OsqId}
    (h : k.queueAt e = none) (hev : ∀ pq, ev.osEventType ≠ .q pq)
    : queueAt ⟨events, qs, Function.update k.ecb e ev, k.osq⟩ = k.queueAt := by
  funext e'
  by_cases heq : e' = e
  . rw [heq, h]
    apply queueAt_of_not_isQueue
    intro pq
    simpa [IsQueue] using hev pq
  . simp [queueAt, heq]

theorem osqCreate_eq_some {start : Nat} {size : UInt16}
    : k.osqCreate start size = (some e, k') ↔
        ∃ events pq qs, k.osEventFreeList = e :: events ∧ k.osqFreeList = pq :: qs ∧
          k' = ⟨events, qs, Function.update k.ecb e { osEventType := .q pq, osEventTbl := [] },
            Function.update k.osq pq (.create start size)⟩ := by
  unfold osqCreate
  split
  . next hevents => simp [hevents]
  . next e' events hevents =>
    split
    . next hqs => simp [hqs]
    . next pq qs hqs =>
      constructor
      . intro h
        cases h
        exact ⟨events, pq, qs, hevents, hqs, rfl⟩
      . rintro ⟨events', pq', qs', hevents', hqs', rfl⟩
        rw [hevents] at hevents'
        rw [hqs] at hqs'
        cases hevents'
        cases hqs'
        rfl

theorem osqCreate_none {start : Nat} {size : UInt16} (h : (k.osqCreate start size).1 = none)
    : (k.osqCreate start size).2 = k := by
  unfold osqCreate at h ⊢
  split
  . rfl
  . next hevents =>
    split
    . rw [← hevents]
    . next hqs => simp [hevents, hqs] at h

theorem osqCreate_ne_none {start : Nat} {size : UInt16} (hevents : k.osEventFreeList ≠ [])
    (hqs : k.osqFreeList ≠ [])
    : (k.osqCreate start size).1 ≠ none := by
  unfold osqCreate
  split
  . contradiction
  . split
    . contradiction
    . simp

theorem queueAt_osqCreate {start : Nat} {size : UInt16} (hk : k.WellFormed)
    (h : k.osqCreate start size = (some e, k'))
    : k.queueAt e = none ∧
        k'.queueAt = Function.update k.queueAt e (some (.create start size)) := by
  rcases osqCreate_eq_some.mp h with ⟨events, pq, qs, hevents, hqs, rfl⟩
  have hunused := (hevents ▸ hk.events).head_avail
  have hfree := (hqs ▸ hk.queues).head_avail
  constructor
  . apply queueAt_of_not_isQueue
    apply not_isQueue_of_unused hunused
  . funext e'
    by_cases heq : e' = e
    . simp [heq, queueAt]
    . rw [Function.update_of_ne heq]
      unfold queueAt
      simp only [Function.update_of_ne heq]
      split
      . next pq' hpq' =>
        have hne : pq' ≠ pq := fun heq' => hfree e' (heq' ▸ hpq')
        rw [Function.update_of_ne hne]
      . rfl
      . rfl

theorem WellFormed.osqCreate {start : Nat} {size : UInt16} (hk : k.WellFormed)
    (h : k.osqCreate start size = (some e, k'))
    : k'.WellFormed := by
  rcases osqCreate_eq_some.mp h with ⟨events, pq, qs, hevents, hqs, rfl⟩
  have hunused := (hevents ▸ hk.events).head_avail
  have hfree := (hqs ▸ hk.queues).head_avail
  have hqueue : ∀ e' pq', IsQueue ⟨events, qs, Function.update k.ecb e ⟨.q pq, []⟩,
      Function.update k.osq pq (.create start size)⟩ e' pq' ↔
        (e' = e ∧ pq' = pq) ∨ k.IsQueue e' pq' := by
    intro e' pq'
    by_cases heq : e' = e
    . have := not_isQueue_of_unused hunused pq'
      simp [IsQueue, heq] at this ⊢
      simp [this, eq_comm]
    . simp [IsQueue, heq]
  constructor
  . apply (hevents ▸ hk.events).take
    intro e'
    by_cases heq : e' = e
    . simp [heq]
    . simp [heq]
  . apply (hqs ▸ hk.queues).take
    intro pq'
    simp only [hqueue, not_or, forall_and]
    constructor
    . rintro ⟨hne, hnone⟩
      exact ⟨hnone, fun heq => hne e ⟨rfl, heq⟩⟩
    . rintro ⟨hnone, hne⟩
      exact ⟨fun e' h => hne h.2, hnone⟩
  . intro e₁ e₂ pq' h₁ h₂
    rcases (hqueue e₁ pq').mp h₁ with ⟨rfl, rfl⟩ | h₁'
    . rcases (hqueue e₂ _).mp h₂ with ⟨rfl, -⟩ | h₂'
      . rfl
      . exact absurd h₂' (hfree e₂)
    . rcases (hqueue e₂ _).mp h₂ with ⟨rfl, rfl⟩ | h₂'
      . exact absurd h₁' (hfree e₁)
      . exact hk.unique e₁ e₂ pq' h₁' h₂'

theorem WellFormed.congr (hk : k.WellFormed) (hevents : k'.osEventFreeList = k.osEventFreeList)
    (hqs : k'.osqFreeList = k.osqFreeList)
    (htype : ∀ e, (k'.ecb e).osEventType = (k.ecb e).osEventType)
    : k'.WellFormed := by
  have hqueue : ∀ e pq, k'.IsQueue e pq ↔ k.IsQueue e pq := by
    intro e pq
    unfold IsQueue
    rw [htype]
  constructor
  . rw [hevents]
    apply hk.events.congr
    intro e
    rw [htype]
  . rw [hqs]
    apply hk.queues.congr
    intro pq
    simp only [hqueue]
  . intro e e' pq h h'
    apply hk.unique e e' pq
    . exact (hqueue e pq).mp h
    . exact (hqueue e' pq).mp h'

theorem ecb_osqFlush (pevent : Option EcbId) : (k.osqFlush pevent).1.ecb = k.ecb := by
  unfold osqFlush
  split
  . rfl
  . split <;> rfl

theorem WellFormed.osqFlush (hk : k.WellFormed) (pevent : Option EcbId)
    : (k.osqFlush pevent).1.WellFormed := by
  apply hk.congr
  . unfold OsPools.osqFlush
    split
    . rfl
    . split <;> rfl
  . unfold OsPools.osqFlush
    split
    . rfl
    . split <;> rfl
  . intro e
    rw [ecb_osqFlush]

theorem queueAt_osqFlush {q : OsQ} (hk : k.WellFormed) (h : k.queueAt e = some q)
    : (k.osqFlush (some e)).1.queueAt = Function.update k.queueAt e (some q.flush) := by
  rcases isQueue_of_queueAt h with ⟨pq, hpq, rfl⟩
  have hflush : (k.osqFlush (some e)).1 =
      { k with osq := Function.update k.osq pq (k.osq pq).flush } := by
    unfold osqFlush
    simp only [hpq.type_eq]
  rw [hflush]
  funext e'
  by_cases heq : e' = e
  . rw [heq, Function.update_self]
    unfold queueAt
    simp only [hpq.type_eq, Function.update_self]
  . rw [Function.update_of_ne heq]
    unfold queueAt
    simp only
    split
    . next pq' hpq' =>
      have hne : pq' ≠ pq := by
        rintro rfl
        apply heq
        exact hk.unique e' e pq' hpq' hpq
      rw [Function.update_of_ne hne]
    . rfl
    . rfl

theorem osqDelNoPend_of_waiting (h : (k.ecb e).osEventTbl ≠ []) : (k.osqDelNoPend (some e)).1 = k := by
  unfold osqDelNoPend
  simp only
  split <;> simp [h]

theorem osqDelNoPend_of_isQueue (hpq : k.IsQueue e pq) (h : (k.ecb e).osEventTbl = [])
    : (k.osqDelNoPend (some e)).1 =
        { k with
          osEventFreeList := e :: k.osEventFreeList
          osqFreeList := pq :: k.osqFreeList
          ecb := Function.update k.ecb e { osEventType := .unused, osEventTbl := [] } } := by
  unfold osqDelNoPend
  simp only [hpq.type_eq, h, ne_eq, not_true_eq_false, ↓reduceIte]

theorem queueAt_osqDelNoPend {q : OsQ} (hq : k.queueAt e = some q) (h : (k.ecb e).osEventTbl = [])
    : (k.osqDelNoPend (some e)).1.queueAt = Function.update k.queueAt e none := by
  rcases isQueue_of_queueAt hq with ⟨pq, hpq, -⟩
  rw [osqDelNoPend_of_isQueue hpq h]
  funext e'
  by_cases heq : e' = e
  . simp [heq, queueAt]
  . simp [heq, queueAt]

theorem WellFormed.osqDelNoPend {q : OsQ} (hk : k.WellFormed) (hq : k.queueAt e = some q)
    : (k.osqDelNoPend (some e)).1.WellFormed := by
  by_cases h : (k.ecb e).osEventTbl = []
  . rcases isQueue_of_queueAt hq with ⟨pq, hpq, -⟩
    rw [osqDelNoPend_of_isQueue hpq h]
    have hqueue : ∀ e' pq', IsQueue ⟨e :: k.osEventFreeList, pq :: k.osqFreeList,
        Function.update k.ecb e ⟨.unused, []⟩, k.osq⟩ e' pq' ↔ e' ≠ e ∧ k.IsQueue e' pq' := by
      intro e' pq'
      by_cases heq : e' = e
      . simp [IsQueue, heq]
      . simp [IsQueue, heq]
    constructor
    . apply hk.events.put
      . rw [hpq.type_eq]
        simp
      . intro e'
        by_cases heq : e' = e
        . simp [heq]
        . simp [heq]
    . apply hk.queues.put
      . intro hnone
        exact hnone e hpq
      . intro pq'
        simp only [hqueue]
        constructor
        . intro hnone
          by_cases heq : pq' = pq
          . exact .inr heq
          . refine .inl fun e' h' => hnone e' ⟨?_, h'⟩
            rintro rfl
            rw [IsQueue, hpq.type_eq] at h'
            exact heq (OsEventType.q.inj h').symm
        . rintro (hnone | rfl) e' ⟨hne, h'⟩
          . exact hnone e' h'
          . apply hne
            exact hk.unique e' e pq' h' hpq
    . intro e₁ e₂ pq' h₁ h₂
      exact hk.unique e₁ e₂ pq' ((hqueue e₁ pq').mp h₁).2 ((hqueue e₂ pq').mp h₂).2
  . rw [osqDelNoPend_of_waiting h]
    exact hk

theorem queueAt_setEventTbl (tbl : List UInt8) : (k.setEventTbl e tbl).queueAt = k.queueAt := by
  funext e'
  by_cases heq : e' = e
  . simp [setEventTbl, queueAt, heq]
  . simp [setEventTbl, queueAt, heq]

theorem WellFormed.setEventTbl (hk : k.WellFormed) (e : EcbId) (tbl : List UInt8)
    : (k.setEventTbl e tbl).WellFormed := by
  apply hk.congr
  . rfl
  . rfl
  . intro e'
    by_cases heq : e' = e
    . simp [OsPools.setEventTbl, heq]
    . simp [OsPools.setEventTbl, heq]

theorem WellFormed.queues_update_other {ev : Ecb} {events : List EcbId} (hk : k.WellFormed)
    (he : ∀ pq, ¬ k.IsQueue e pq) (hev : ∀ pq, ev.osEventType ≠ .q pq)
    (hevents : FreeList events fun e' => (Function.update k.ecb e ev e').osEventType = .unused)
    : WellFormed ⟨events, k.osqFreeList, Function.update k.ecb e ev, k.osq⟩ := by
  have hqueue : ∀ e' pq, IsQueue ⟨events, k.osqFreeList, Function.update k.ecb e ev, k.osq⟩ e' pq
      ↔ k.IsQueue e' pq := by
    intro e' pq
    by_cases heq : e' = e
    . have hold := he pq
      have hnew := hev pq
      rw [heq]
      simp [IsQueue] at hold hnew ⊢
      simp [hold, hnew]
    . simp [IsQueue, heq]
  constructor
  . exact hevents
  . apply hk.queues.congr
    intro pq
    simp only [hqueue]
  . intro e₁ e₂ pq h₁ h₂
    apply hk.unique e₁ e₂ pq
    . exact (hqueue e₁ pq).mp h₁
    . exact (hqueue e₂ pq).mp h₂

theorem osSemCreate_keeps (hk : k.WellFormed)
    : k.osSemCreate.2.WellFormed ∧ k.osSemCreate.2.queueAt = k.queueAt := by
  unfold osSemCreate
  split
  . exact ⟨hk, rfl⟩
  . next e events hevents =>
    have hunused := (hevents ▸ hk.events).head_avail
    constructor
    . apply hk.queues_update_other
      . apply not_isQueue_of_unused hunused
      . simp
      . apply (hevents ▸ hk.events).take
        intro e'
        by_cases heq : e' = e
        . simp [heq]
        . simp [heq]
    . apply queueAt_update_other
      . apply queueAt_of_not_isQueue
        apply not_isQueue_of_unused hunused
      . simp

theorem WellFormed.osSemDel (hk : k.WellFormed) (h : (k.ecb e).osEventType = .sem)
    : (k.osSemDel e).WellFormed ∧ (k.osSemDel e).queueAt = k.queueAt := by
  have hnot : ∀ pq, ¬ k.IsQueue e pq := by
    simp [IsQueue, h]
  constructor
  . apply hk.queues_update_other
    . exact hnot
    . simp
    . apply hk.events.put
      . simp [h]
      . intro e'
        by_cases heq : e' = e
        . simp [heq]
        . simp [heq]
  . apply queueAt_update_other
    . apply queueAt_of_not_isQueue hnot
    . simp

end OsPools

end SerialGateway
