import Mathlib.Tactic.Tauto
import SerialGateway.Lib.Transition
import SerialGateway.Lwip.Timeouts

/-!
This module contains when each task keeps the timeouts it has registered.
-/

open Transition

namespace SerialGateway

structure TimeoutKey where
  h : Option TimeoutHandler
  arg : Nat
  id : Nat
  deriving DecidableEq, Repr

def SysTimeo.key (t : SysTimeo) : TimeoutKey := ⟨t.h, t.arg, t.id⟩

theorem insertAfter_perm (timeout t : SysTimeo) (rest : List SysTimeo)
    : ((insertAfter timeout t rest).map SysTimeo.key).Perm
        (timeout.key :: t.key :: rest.map SysTimeo.key) := by
  induction rest generalizing timeout t with
  | nil => exact List.Perm.swap _ _ _
  | cons n rest ih =>
    simp only [insertAfter]
    split
    . apply List.Perm.swap
    . rw [List.map_cons]
      exact ((ih _ n).cons t.key).trans (List.Perm.swap _ _ _)

theorem insertTimeout_perm (timeout : SysTimeo) (list : List SysTimeo)
    : ((insertTimeout timeout list).map SysTimeo.key).Perm
        (timeout.key :: list.map SysTimeo.key) := by
  cases list with
  | nil => exact List.Perm.refl _
  | cons t rest =>
    simp only [insertTimeout]
    split
    . apply List.Perm.refl
    . apply insertAfter_perm

theorem removeTimeout_perm {h : Option TimeoutHandler} {arg : Nat} {t : SysTimeo}
    {list list' : List SysTimeo} (hremove : removeTimeout h arg list = (some t, list'))
    : (list.map SysTimeo.key).Perm (t.key :: list'.map SysTimeo.key) ∧ t.h = h ∧ t.arg = arg := by
  induction list generalizing list' with
  | nil => cases hremove
  | cons t' rest ih =>
    simp only [removeTimeout] at hremove
    split at hremove
    . next hmatch =>
      split at hremove
      . cases hremove
        exact ⟨List.Perm.refl _, hmatch⟩
      . cases hremove
        exact ⟨List.Perm.refl _, hmatch⟩
    . cases hrest : removeTimeout h arg rest with
      | mk found rest' =>
        rw [hrest] at hremove
        cases hremove
        rcases ih hrest with ⟨hperm, hmatch⟩
        refine ⟨?_, hmatch⟩
        rw [List.map_cons, List.map_cons]
        exact (hperm.cons t'.key).trans (List.Perm.swap _ _ _)

theorem map_key_elapse (timeNeeded : UInt32) (list : List SysTimeo)
    : (elapse timeNeeded list).map SysTimeo.key = list.map SysTimeo.key := by
  cases list <;> rfl

theorem timeoutSlot_eq (prio : UInt8)
    : timeoutSlot prio =
        if prio = 2 then some 0 else if prio = 3 then some 1 else if prio = 4 then some 2 else none := by
  have hall : ∀ n : Fin 256, timeoutSlot (UInt8.ofNat n) =
      if UInt8.ofNat n = 2 then some 0
      else if UInt8.ofNat n = 3 then some 1
      else if UInt8.ofNat n = 4 then some 2
      else none := by
    decide +kernel
  have hprio := hall ⟨prio.toNat, prio.toNat_lt⟩
  simpa using hprio

def HasList (prio : UInt8) : Prop := 2 ≤ prio ∧ prio ≤ 4

theorem hasList_iff {prio : UInt8} : HasList prio ↔ (timeoutSlot prio).isSome := by
  have hcases : HasList prio ↔ prio = 2 ∨ prio = 3 ∨ prio = 4 := by
    simp only [HasList, UInt8.le_iff_toNat_le, ← UInt8.toNat_inj, UInt8.reduceToNat]
    omega
  rw [hcases, timeoutSlot_eq]
  split
  . simp_all
  . split
    . simp_all
    . split <;> simp_all

theorem timeoutSlot_inj {prio prio' : UInt8} {i : Fin lwipTaskMax}
    (h : timeoutSlot prio = some i) (h' : timeoutSlot prio' = some i)
    : prio = prio' := by
  rw [timeoutSlot_eq] at h h'
  grind

namespace TimeoutState

variable {s s' : TimeoutState} {prio prio' : UInt8}

def keys (s : TimeoutState) (prio : UInt8) : List TimeoutKey := (s.handed prio).map SysTimeo.key

theorem handed_some {i : Fin lwipTaskMax} (h : timeoutSlot prio = some i)
    : s.handed prio = s.lwipTimeouts i := by
  simp [handed, sysArchTimeouts, h, timeouts]

theorem handed_none (h : timeoutSlot prio = none) : s.handed prio = [] := by
  simp [handed, sysArchTimeouts, h, timeouts]

theorem handed_congr (h : s'.lwipTimeouts = s.lwipTimeouts) : s'.handed prio = s.handed prio := by
  cases hslot : timeoutSlot prio with
  | none => rw [handed_none hslot, handed_none hslot]
  | some i => rw [handed_some hslot, handed_some hslot, h]

theorem keys_congr (h : s'.lwipTimeouts = s.lwipTimeouts) : s'.keys prio = s.keys prio := by
  unfold keys
  rw [handed_congr h]

@[simp]
theorem keys_setFrames (prio : UInt8) (frames : List TimeoutFrame)
    : (s.setFrames prio frames).keys prio' = s.keys prio' :=
  keys_congr rfl

@[simp]
theorem setFrames_frames (frames : List TimeoutFrame)
    : (s.setFrames prio frames).frames = Function.update s.frames prio frames := rfl

theorem handed_setTimeouts_self {i : Fin lwipTaskMax} (hslot : timeoutSlot prio = some i)
    (list : List SysTimeo)
    : (s.setTimeouts (timeoutSlot prio) list).handed prio = list := by
  rw [handed_some hslot, hslot]
  simp [setTimeouts]

theorem handed_setTimeouts_other (hne : prio' ≠ prio) (list : List SysTimeo)
    : (s.setTimeouts (timeoutSlot prio) list).handed prio' = s.handed prio' := by
  cases hslot : timeoutSlot prio with
  | none => exact handed_congr rfl
  | some i =>
    cases hslot' : timeoutSlot prio' with
    | none => rw [handed_none hslot', handed_none hslot']
    | some j =>
      have hij : j ≠ i := by
        rintro rfl
        apply hne
        exact timeoutSlot_inj hslot' hslot
      rw [handed_some hslot', handed_some hslot']
      simp [setTimeouts, hij]

theorem timeouts_eq_handed (hnull : s.nullTimeouts = [])
    : s.timeouts (timeoutSlot prio) = s.handed prio := by
  unfold handed sysArchTimeouts
  cases timeoutSlot prio with
  | none => exact hnull
  | some i => rfl

@[simp]
theorem setTimeouts_frames (slot : Option (Fin lwipTaskMax)) (list : List SysTimeo)
    : (s.setTimeouts slot list).frames = s.frames := by
  cases slot <;> rfl

@[simp]
theorem setTimeouts_nextId (slot : Option (Fin lwipTaskMax)) (list : List SysTimeo)
    : (s.setTimeouts slot list).nextId = s.nextId := by
  cases slot <;> rfl

@[simp]
theorem setTimeouts_log (slot : Option (Fin lwipTaskMax)) (list : List SysTimeo)
    : (s.setTimeouts slot list).log = s.log := by
  cases slot <;> rfl

theorem setTimeouts_null {i : Fin lwipTaskMax} (hslot : timeoutSlot prio = some i)
    (list : List SysTimeo)
    : (s.setTimeouts (timeoutSlot prio) list).nullTimeouts = s.nullTimeouts := by
  rw [hslot]
  rfl

structure TimersOk (s : TimeoutState) : Prop where
  null : s.nullTimeouts = []
  nodup : ∀ prio, ((s.keys prio).map (·.id)).Nodup
  mem_iff : ∀ prio id, id ∈ (s.keys prio).map (·.id) ↔ s.Live prio id
  registered : ∀ prio id, .registered prio id ∈ s.log → id < s.nextId
  ended : ∀ id, (.fired id ∈ s.log ∨ .cancelled id ∈ s.log) → id < s.nextId
  owner : ∀ prio prio' id, .registered prio id ∈ s.log → .registered prio' id ∈ s.log → prio = prio'

namespace TimersOk

variable {k : TimeoutKey}

theorem congr (h : s.TimersOk) (hnull : s'.nullTimeouts = []) (hkeys : ∀ prio, s'.keys prio = s.keys prio)
    (hlog : s'.log = s.log) (hnext : s.nextId ≤ s'.nextId)
    : s'.TimersOk := by
  constructor
  . exact hnull
  . intro prio
    rw [hkeys]
    exact h.nodup prio
  . intro prio id
    rw [hkeys, h.mem_iff]
    unfold Live
    rw [hlog]
  . rw [hlog]
    intro prio id hmem
    apply Nat.lt_of_lt_of_le
    . exact h.registered prio id hmem
    . exact hnext
  . rw [hlog]
    intro id hmem
    apply Nat.lt_of_lt_of_le
    . exact h.ended id hmem
    . exact hnext
  . rw [hlog]
    exact h.owner

theorem clear (h : s.TimersOk) : { s with nullTimeouts := [] } = s := by
  rw [← h.null]

theorem not_live_nextId (h : s.TimersOk) (prio : UInt8) : ¬ s.Live prio s.nextId := by
  intro hlive
  apply Nat.lt_irrefl
  exact h.registered prio s.nextId hlive.1

theorem live_register (h : s.TimersOk) (hlog : s'.log = s.log ++ [.registered prio s.nextId])
    (prio' : UInt8) (id : Nat)
    : s'.Live prio' id ↔ s.Live prio' id ∨ prio' = prio ∧ id = s.nextId := by
  have hended := h.ended id
  unfold Live
  rw [hlog]
  simp only [List.mem_append, List.mem_singleton, TimeoutEvent.registered.injEq, reduceCtorEq,
    or_false]
  constructor
  . rintro ⟨hreg | hnew, hfired, hcancelled⟩
    . exact .inl ⟨hreg, hfired, hcancelled⟩
    . exact .inr hnew
  . rintro (⟨hreg, hfired, hcancelled⟩ | ⟨rfl, rfl⟩)
    . exact ⟨.inl hreg, hfired, hcancelled⟩
    . refine ⟨.inr ⟨rfl, rfl⟩, ?_, ?_⟩
      . intro hmem
        apply Nat.lt_irrefl
        exact hended (.inl hmem)
      . intro hmem
        apply Nat.lt_irrefl
        exact hended (.inr hmem)

theorem register (h : s.TimersOk) (prio : UInt8) (k : TimeoutKey) (hnull : s'.nullTimeouts = [])
    (hlog : s'.log = s.log ++ [.registered prio s.nextId]) (hnext : s'.nextId = s.nextId + 1)
    (hself : (s'.keys prio).Perm (k :: s.keys prio)) (hid : k.id = s.nextId)
    (hother : ∀ prio', prio' ≠ prio → s'.keys prio' = s.keys prio')
    : s'.TimersOk := by
  have hids : ((s'.keys prio).map (·.id)).Perm (s.nextId :: (s.keys prio).map (·.id)) := by
    have hmap := hself.map (·.id)
    rw [List.map_cons, hid] at hmap
    exact hmap
  constructor
  . exact hnull
  . intro prio'
    by_cases heq : prio' = prio
    . rw [heq, hids.nodup_iff]
      apply List.nodup_cons.mpr
      rw [h.mem_iff]
      exact ⟨h.not_live_nextId prio, h.nodup prio⟩
    . rw [hother prio' heq]
      exact h.nodup prio'
  . intro prio' id
    rw [h.live_register hlog]
    by_cases heq : prio' = prio
    . rw [heq, hids.mem_iff, List.mem_cons, h.mem_iff]
      simp [or_comm]
    . rw [hother prio' heq, h.mem_iff]
      simp [heq]
  . rw [hlog, hnext]
    intro prio' id hmem
    rcases List.mem_append.mp hmem with hmem | hmem
    . apply Nat.lt_succ_of_lt
      exact h.registered prio' id hmem
    . simp only [List.mem_singleton, TimeoutEvent.registered.injEq] at hmem
      omega
  . rw [hlog, hnext]
    intro id hmem
    simp only [List.mem_append, List.mem_singleton, reduceCtorEq, or_false] at hmem
    apply Nat.lt_succ_of_lt
    exact h.ended id hmem
  . rw [hlog]
    intro p p' id hp hp'
    simp only [List.mem_append, List.mem_singleton, TimeoutEvent.registered.injEq] at hp hp'
    rcases hp with hp | ⟨rfl, rfl⟩
    . rcases hp' with hp' | ⟨rfl, rfl⟩
      . exact h.owner p p' id hp hp'
      . exact absurd (h.registered p _ hp) (Nat.lt_irrefl _)
    . rcases hp' with hp' | ⟨rfl, -⟩
      . exact absurd (h.registered p' _ hp') (Nat.lt_irrefl _)
      . rfl

theorem remove (h : s.TimersOk) (prio : UInt8) (k : TimeoutKey) (event : TimeoutEvent)
    (hnull : s'.nullTimeouts = [])
    (hevent : event = .fired k.id ∨ event = .cancelled k.id)
    (hlog : s'.log = s.log ++ [event]) (hnext : s'.nextId = s.nextId)
    (hself : (s.keys prio).Perm (k :: s'.keys prio))
    (hother : ∀ prio', prio' ≠ prio → s'.keys prio' = s.keys prio')
    : s'.TimersOk := by
  have hids : ((s.keys prio).map (·.id)).Perm (k.id :: (s'.keys prio).map (·.id)) :=
    hself.map (·.id)
  have hnodup := hids.nodup_iff.mp (h.nodup prio)
  have hk : s.Live prio k.id := (h.mem_iff prio k.id).mp (hids.mem_iff.mpr List.mem_cons_self)
  have hreg : ∀ prio id, .registered prio id ∈ s'.log ↔ .registered prio id ∈ s.log := by
    intro prio id
    rw [hlog]
    rcases hevent with rfl | rfl <;> simp
  have hended : ∀ id, (.fired id ∈ s'.log ∨ .cancelled id ∈ s'.log) ↔
      (.fired id ∈ s.log ∨ .cancelled id ∈ s.log) ∨ id = k.id := by
    intro id
    rw [hlog]
    rcases hevent with rfl | rfl
    . simp only [List.mem_append, List.mem_singleton, TimeoutEvent.fired.injEq, reduceCtorEq]
      tauto
    . simp only [List.mem_append, List.mem_singleton, TimeoutEvent.cancelled.injEq, reduceCtorEq]
      tauto
  have hlive : ∀ prio' id, s'.Live prio' id ↔ s.Live prio' id ∧ id ≠ k.id := by
    intro prio' id
    have := hended id
    unfold Live
    rw [hreg]
    tauto
  constructor
  . exact hnull
  . intro prio'
    by_cases heq : prio' = prio
    . rw [heq]
      exact (List.nodup_cons.mp hnodup).2
    . rw [hother prio' heq]
      exact h.nodup prio'
  . intro prio' id
    rw [hlive, ← h.mem_iff]
    by_cases heq : prio' = prio
    . rw [heq, hids.mem_iff, List.mem_cons]
      constructor
      . intro hmem
        refine ⟨.inr hmem, ?_⟩
        rintro rfl
        exact (List.nodup_cons.mp hnodup).1 hmem
      . rintro ⟨hid | hmem, hne⟩
        . exact absurd hid hne
        . exact hmem
    . rw [hother prio' heq]
      constructor
      . intro hmem
        refine ⟨hmem, ?_⟩
        rintro rfl
        apply heq
        exact h.owner prio' prio _ ((h.mem_iff prio' _).mp hmem).1 hk.1
      . intro hmem
        exact hmem.1
  . intro prio' id hmem
    rw [hnext]
    apply h.registered prio' id
    exact (hreg prio' id).mp hmem
  . intro id hmem
    rw [hnext]
    rcases (hended id).mp hmem with hmem | rfl
    . exact h.ended id hmem
    . exact h.registered prio k.id hk.1
  . intro p p' id hp hp'
    apply h.owner p p' id
    . exact (hreg p id).mp hp
    . exact (hreg p' id).mp hp'

end TimersOk

theorem handed_sysTimeout_other (hne : prio' ≠ prio) (msecs : UInt32) (h : Option TimeoutHandler)
    (arg : Nat)
    : (s.sysTimeout prio msecs h arg).handed prio' = s.handed prio' := by
  unfold sysTimeout
  dsimp only
  split
  . exact handed_congr rfl
  . dsimp only [sysArchTimeouts]
    rw [handed_setTimeouts_other hne]
    exact handed_congr rfl

theorem handed_unlink_other (hne : prio' ≠ prio) (list : List SysTimeo) (event : TimeoutEvent)
    : (s.unlink (timeoutSlot prio) list event).handed prio' = s.handed prio' := by
  have hset : (s.unlink (timeoutSlot prio) list event).handed prio' =
      (s.setTimeouts (timeoutSlot prio) list).handed prio' :=
    handed_congr rfl
  rw [hset, handed_setTimeouts_other hne]

theorem handed_unlink_self {i : Fin lwipTaskMax} (hslot : timeoutSlot prio = some i)
    (list : List SysTimeo) (event : TimeoutEvent)
    : (s.unlink (timeoutSlot prio) list event).handed prio = list := by
  have hset : (s.unlink (timeoutSlot prio) list event).handed prio =
      (s.setTimeouts (timeoutSlot prio) list).handed prio :=
    handed_congr rfl
  rw [hset, handed_setTimeouts_self hslot]

theorem handed_sysUntimeout_other (hne : prio' ≠ prio) (h : Option TimeoutHandler) (arg : Nat)
    : (s.sysUntimeout prio h arg).handed prio' = s.handed prio' := by
  unfold sysUntimeout
  dsimp only [sysArchTimeouts]
  split
  . exact handed_congr rfl
  . rw [handed_unlink_other hne]
    exact handed_congr rfl

theorem handed_fire_other (hne : prio' ≠ prio) {frames : List TimeoutFrame}
    (hfire : s.fire prio frames = some s')
    : s'.handed prio' = s.handed prio' := by
  unfold fire at hfire
  dsimp only at hfire
  split at hfire
  . cases hfire
  . next t rest hlist =>
    rw [← handed_unlink_other (s := s) hne rest (.fired t.id)]
    split at hfire
    . cases hfire
      exact handed_congr rfl
    . cases hfire
      exact handed_congr rfl
    . cases hfire
      exact handed_congr rfl

theorem handed_step_other {a : Act} (hne : prio' ≠ a.prio) (hstep : step s a = some s')
    : s'.handed prio' = s.handed prio' := by
  cases a with
  | timeout prio msecs h arg =>
    simp only [step, Option.ite_none_right_eq_some, Option.some.injEq] at hstep
    rcases hstep with ⟨-, rfl⟩
    exact handed_sysTimeout_other hne msecs _ arg
  | untimeout prio h arg =>
    simp only [step, Option.ite_none_right_eq_some, Option.some.injEq] at hstep
    rcases hstep with ⟨-, rfl⟩
    exact handed_sysUntimeout_other hne _ arg
  | wait prio =>
    simp only [step, Option.ite_none_right_eq_some, Option.some.injEq] at hstep
    rcases hstep with ⟨-, rfl⟩
    exact handed_congr rfl
  | semWaitTimeout prio timeout =>
    simp only [step, Option.ite_none_right_eq_some] at hstep
    rcases hstep with ⟨-, hstep⟩
    split at hstep
    . cases hstep
      exact (handed_congr rfl).trans (handed_sysTimeout_other hne timeout _ _)
    . cases hstep
      exact handed_congr rfl
  | lookup prio =>
    simp only [step, sysArchTimeouts] at hstep
    split at hstep
    . split at hstep
      . cases hstep
        exact handed_congr rfl
      . split at hstep
        . cases hstep
          exact handed_congr rfl
        . exact (handed_fire_other hne hstep).trans (handed_congr rfl)
    . cases hstep
  | wake prio timeNeeded =>
    simp only [step] at hstep
    split at hstep
    . cases hstep
      exact handed_congr rfl
    . split at hstep
      . cases hstep
      . cases hstep
        exact (handed_congr rfl).trans (handed_setTimeouts_other hne _)
    . cases hstep
  | expire prio =>
    simp only [step] at hstep
    split at hstep
    . exact handed_fire_other hne hstep
    . cases hstep
  | finish prio =>
    simp only [step] at hstep
    split at hstep
    . split at hstep
      . cases hstep
        exact handed_congr rfl
      . cases hstep
        exact (handed_sysUntimeout_other hne _ _).trans (handed_congr rfl)
    . cases hstep
  | handlerReturn prio =>
    simp only [step] at hstep
    split at hstep
    . cases hstep
      exact handed_congr rfl
    . cases hstep

section Register

variable (msecs : UInt32) (h : Option TimeoutHandler) (arg : Nat)

theorem sysTimeout_frames : (s.sysTimeout prio msecs h arg).frames = s.frames := by
  unfold sysTimeout
  dsimp only [sysArchTimeouts]
  split <;> simp

theorem sysTimeout_nextId : (s.sysTimeout prio msecs h arg).nextId = s.nextId + 1 := by
  unfold sysTimeout
  dsimp only [sysArchTimeouts]
  split <;> simp

theorem sysTimeout_log
    : (s.sysTimeout prio msecs h arg).log = s.log ++ [.registered prio s.nextId] := by
  unfold sysTimeout
  dsimp only [sysArchTimeouts]
  split <;> simp

theorem sysTimeout_null (hnull : s.nullTimeouts = []) (hlist : HasList prio)
    : (s.sysTimeout prio msecs h arg).nullTimeouts = [] := by
  rcases Option.isSome_iff_exists.mp (hasList_iff.mp hlist) with ⟨i, hslot⟩
  unfold sysTimeout
  dsimp only [sysArchTimeouts]
  split
  . exact hnull
  . rw [setTimeouts_null hslot]

theorem keys_sysTimeout (hlist : HasList prio) (hfree : s.mempFree ≠ 0)
    : ((s.sysTimeout prio msecs h arg).keys prio).Perm (⟨h, arg, s.nextId⟩ :: s.keys prio) := by
  rcases Option.isSome_iff_exists.mp (hasList_iff.mp hlist) with ⟨i, hslot⟩
  unfold sysTimeout keys
  rw [if_neg hfree]
  dsimp only [sysArchTimeouts]
  rw [handed_setTimeouts_self hslot, timeouts_eq_handed rfl]
  apply insertTimeout_perm

theorem keys_sysTimeout_lost (hlost : ¬ (HasList prio ∧ s.mempFree ≠ 0))
    : (s.sysTimeout prio msecs h arg).keys prio = s.keys prio := by
  by_cases hlist : HasList prio
  . have hfree : s.mempFree = 0 := by
      by_contra hne
      apply hlost
      exact ⟨hlist, hne⟩
    unfold sysTimeout
    rw [if_pos hfree]
    exact keys_congr rfl
  . rw [hasList_iff, Option.not_isSome_iff_eq_none] at hlist
    unfold keys
    rw [handed_none hlist, handed_none hlist]

theorem TimersOk.sysTimeout (hs : s.TimersOk) (hlist : HasList prio) (hfree : s.mempFree ≠ 0)
    : (s.sysTimeout prio msecs h arg).TimersOk := by
  apply hs.register prio ⟨h, arg, s.nextId⟩
  . exact sysTimeout_null msecs h arg hs.null hlist
  . apply sysTimeout_log
  . apply sysTimeout_nextId
  . exact keys_sysTimeout msecs h arg hlist hfree
  . rfl
  . intro prio' hne
    unfold keys
    rw [handed_sysTimeout_other hne]

end Register

theorem TimersOk.unlink (hs : s.TimersOk) {t : SysTimeo} {list : List SysTimeo} {event : TimeoutEvent}
    (hevent : event = .fired t.id ∨ event = .cancelled t.id)
    (hperm : ((s.handed prio).map SysTimeo.key).Perm (t.key :: list.map SysTimeo.key))
    : (s.unlink (timeoutSlot prio) list event).TimersOk
        ∧ (s.keys prio).Perm (t.key :: (s.unlink (timeoutSlot prio) list event).keys prio) := by
  cases hslot : timeoutSlot prio with
  | none =>
    rw [handed_none hslot] at hperm
    cases hperm.nil_eq
  | some i =>
    have hkeys : (s.unlink (timeoutSlot prio) list event).keys prio = list.map SysTimeo.key := by
      unfold keys
      rw [handed_unlink_self hslot]
    rw [← hslot, hkeys]
    refine ⟨?_, hperm⟩
    apply hs.remove prio t.key event
    . exact (setTimeouts_null hslot list).trans hs.null
    . exact hevent
    . unfold TimeoutState.unlink
      simp
    . unfold TimeoutState.unlink
      simp
    . rw [hkeys]
      exact hperm
    . intro prio' hne
      unfold keys
      rw [handed_unlink_other hne]

theorem TimersOk.sysUntimeout (hs : s.TimersOk) (prio : UInt8) (h : Option TimeoutHandler)
    (arg : Nat)
    : (s.sysUntimeout prio h arg).TimersOk
        ∧ (s.sysUntimeout prio h arg).frames = s.frames
        ∧ (s.sysUntimeout prio h arg).nextId = s.nextId
        ∧ ∀ k ∈ s.keys prio, ¬ (k.h = h ∧ k.arg = arg) → k ∈ (s.sysUntimeout prio h arg).keys prio := by
  unfold TimeoutState.sysUntimeout
  dsimp only [sysArchTimeouts]
  rw [hs.clear, timeouts_eq_handed hs.null]
  split
  . exact ⟨hs, rfl, rfl, fun k hk _ => hk⟩
  . next t list hremove =>
    rcases removeTimeout_perm hremove with ⟨hperm, hh, harg⟩
    rcases hs.unlink (.inr rfl) hperm with ⟨hs', hkeys⟩
    refine ⟨hs', setTimeouts_frames _ _, setTimeouts_nextId _ _, ?_⟩
    intro k hk hne
    rcases List.mem_cons.mp (hkeys.mem_iff.mp hk) with rfl | hk
    . exact absurd ⟨hh, harg⟩ hne
    . exact hk

theorem TimersOk.fire (hs : s.TimersOk) {frames : List TimeoutFrame}
    (hfire : s.fire prio frames = some s')
    : s'.TimersOk ∧ s'.nextId = s.nextId ∧ ∃ t : SysTimeo, ∃ s₁ : TimeoutState,
        s₁.frames = s.frames
        ∧ (∀ k ∈ s.keys prio, k ≠ t.key → k ∈ s'.keys prio)
        ∧ (t.h = none ∧ s' = s₁.setFrames prio (.again :: frames)
          ∨ t.h = some .sswtHandler
            ∧ s' = (s₁.setFrames prio (.again :: frames)).sswtHandler t.arg
          ∨ ∃ h, t.h = some (.user h) ∧ s' = s₁.setFrames prio (.handler :: .again :: frames)) := by
  unfold TimeoutState.fire at hfire
  dsimp only at hfire
  rw [timeouts_eq_handed hs.null] at hfire
  split at hfire
  . cases hfire
  . next t rest hlist =>
    have hperm : ((s.handed prio).map SysTimeo.key).Perm (t.key :: rest.map SysTimeo.key) := by
      rw [hlist]
      apply List.Perm.refl
    rcases hs.unlink (.inl rfl) hperm with ⟨hs', hkeys⟩
    have hkeep : ∀ k ∈ s.keys prio, k ≠ t.key →
        k ∈ (s.unlink (timeoutSlot prio) rest (.fired t.id)).keys prio := by
      intro k hk hne
      rcases List.mem_cons.mp (hkeys.mem_iff.mp hk) with rfl | hk
      . exact absurd rfl hne
      . exact hk
    have hframes : (s.unlink (timeoutSlot prio) rest (.fired t.id)).frames = s.frames :=
      setTimeouts_frames _ _
    have hnext : (s.unlink (timeoutSlot prio) rest (.fired t.id)).nextId = s.nextId :=
      setTimeouts_nextId _ _
    split at hfire
    . next hh =>
      cases hfire
      refine ⟨hs'.congr hs'.null (fun _ => keys_congr rfl) rfl (Nat.le_refl _), hnext, t, _, hframes,
        ?_, .inl ⟨hh, rfl⟩⟩
      intro k hk hne
      rw [keys_congr rfl]
      exact hkeep k hk hne
    . next hh =>
      cases hfire
      refine ⟨hs'.congr hs'.null (fun _ => keys_congr rfl) rfl (Nat.le_refl _), hnext, t, _, hframes,
        ?_, .inr (.inl ⟨hh, rfl⟩)⟩
      intro k hk hne
      rw [keys_congr rfl]
      exact hkeep k hk hne
    . next h hh =>
      cases hfire
      refine ⟨hs'.congr hs'.null (fun _ => keys_congr rfl) rfl (Nat.le_refl _), hnext, t, _, hframes,
        ?_, .inr (.inr ⟨h, hh, rfl⟩)⟩
      intro k hk hne
      rw [keys_congr rfl]
      exact hkeep k hk hne

structure SswtCall where
  sswtCb : Nat
  timeout : UInt32
  timeflag : Bool
  deriving DecidableEq, Repr

def sswtCalls (frames : List TimeoutFrame) : List SswtCall :=
  frames.filterMap fun
    | .semWaitTimeout sswtCb timeout timeflag => some ⟨sswtCb, timeout, timeflag⟩
    | _ => none

structure FramesOk (s : TimeoutState) : Prop where
  nodup : ∀ prio, ((sswtCalls (s.frames prio)).map (·.sswtCb)).Nodup
  lt : ∀ prio, ∀ c ∈ sswtCalls (s.frames prio), c.sswtCb < s.nextId
  waiting : ∀ prio, ∀ c ∈ sswtCalls (s.frames prio), c.timeflag = false → c.timeout > 0 →
    ∃ k ∈ s.keys prio, k.h = some .sswtHandler ∧ k.arg = c.sswtCb

namespace FramesOk

theorem of_sublist (h : s.FramesOk) (hnext : s.nextId ≤ s'.nextId)
    (hsub : ∀ prio, ((sswtCalls (s'.frames prio)).map (·.sswtCb)).Sublist
      ((sswtCalls (s.frames prio)).map (·.sswtCb)))
    (hwait : ∀ prio, ∀ c ∈ sswtCalls (s'.frames prio), c.timeflag = false →
      c ∈ sswtCalls (s.frames prio) ∧
        ∀ k ∈ s.keys prio, k.h = some .sswtHandler → k.arg = c.sswtCb → k ∈ s'.keys prio)
    : s'.FramesOk := by
  constructor
  . intro prio
    exact (h.nodup prio).sublist (hsub prio)
  . intro prio c hc
    have hmem := (hsub prio).subset (List.mem_map_of_mem hc)
    rcases List.mem_map.mp hmem with ⟨c', hc', heq⟩
    have hlt := h.lt prio c' hc'
    omega
  . intro prio c hc hflag htimeout
    rcases hwait prio c hc hflag with ⟨hc', hkeep⟩
    rcases h.waiting prio c hc' hflag htimeout with ⟨k, hk, hh, harg⟩
    exact ⟨k, hkeep k hk hh harg, hh, harg⟩

theorem congr (h : s.FramesOk) (hnext : s.nextId ≤ s'.nextId)
    (hcalls : ∀ prio, sswtCalls (s'.frames prio) = sswtCalls (s.frames prio))
    (hkeys : ∀ prio, ∀ k ∈ s.keys prio, k.h = some .sswtHandler → k ∈ s'.keys prio)
    : s'.FramesOk := by
  apply h.of_sublist hnext
  . intro prio
    simp only [hcalls, List.Sublist.refl]
  . intro prio c hc _
    rw [hcalls] at hc
    exact ⟨hc, fun k hk hh _ => hkeys prio k hk hh⟩

end FramesOk

theorem sswtCalls_setFrames {frames : List TimeoutFrame}
    (h : sswtCalls frames = sswtCalls (s.frames prio)) (prio' : UInt8)
    : sswtCalls ((s.setFrames prio frames).frames prio') = sswtCalls (s.frames prio') := by
  by_cases heq : prio' = prio
  . rw [heq, ← h]
    simp [setFrames]
  . simp [setFrames, heq]

theorem FramesOk.setFrames (h : s.FramesOk) {frames : List TimeoutFrame}
    (hcalls : sswtCalls frames = sswtCalls (s.frames prio))
    : (s.setFrames prio frames).FramesOk := by
  have hnext : s.nextId ≤ (s.setFrames prio frames).nextId := Nat.le_refl _
  apply h.congr hnext
  . exact sswtCalls_setFrames hcalls
  . intro prio' k hk _
    rw [keys_congr rfl]
    exact hk

theorem TimersOk.setFrames (hs : s.TimersOk) (prio : UInt8) (frames : List TimeoutFrame)
    : (s.setFrames prio frames).TimersOk := by
  apply hs.congr
  . exact hs.null
  . intro prio'
    exact keys_congr rfl
  . rfl
  . apply Nat.le_refl

theorem sswtCalls_setTimeflag (sswtCb : Nat) (frames : List TimeoutFrame)
    : sswtCalls (frames.map (TimeoutFrame.setTimeflag sswtCb)) =
        (sswtCalls frames).map fun c =>
          { c with timeflag := c.timeflag || c.sswtCb == sswtCb } := by
  induction frames with
  | nil => rfl
  | cons frame frames ih =>
    cases frame with
    | semWaitTimeout cb timeout timeflag => exact congrArg (_ :: ·) ih
    | again | blocked time | handler => exact ih

theorem FramesOk.fire (h : s.FramesOk) (hs : s.TimersOk) {frames : List TimeoutFrame}
    (hcalls : sswtCalls frames = sswtCalls (s.frames prio)) (hfire : s.fire prio frames = some s')
    : s'.FramesOk := by
  have hother : ∀ prio', prio' ≠ prio → s'.keys prio' = s.keys prio' := by
    intro prio' hne
    unfold keys
    rw [handed_fire_other hne hfire]
  rcases hs.fire hfire with ⟨-, hnext, t, s₁, hframes, hkeep, hcases⟩
  have hkeep' : ∀ prio', ∀ k ∈ s.keys prio', k ≠ t.key → k ∈ s'.keys prio' := by
    intro prio' k hk hne
    by_cases heq : prio' = prio
    . rw [heq] at hk ⊢
      exact hkeep k hk hne
    . rw [hother prio' heq]
      exact hk
  have huser : t.h ≠ some .sswtHandler → ∀ prio', ∀ k ∈ s.keys prio', k.h = some .sswtHandler →
      k ∈ s'.keys prio' := by
    intro hh prio' k hk hsswt
    apply hkeep' prio' k hk
    rintro rfl
    exact hh hsswt
  have hagain : ∀ prio', sswtCalls ((s₁.setFrames prio (.again :: frames)).frames prio')
      = sswtCalls (s.frames prio') := by
    intro prio'
    rw [sswtCalls_setFrames, hframes]
    rw [hframes, ← hcalls]
    rfl
  rcases hcases with ⟨hh, heq⟩ | ⟨hh, heq⟩ | ⟨u, hh, heq⟩
  . apply h.congr (Nat.le_of_eq hnext.symm)
    . intro prio'
      rw [heq, hagain]
    . apply huser
      simp [hh]
  . have hset : ∀ prio', sswtCalls (s'.frames prio') = (sswtCalls (s.frames prio')).map fun c =>
        { c with timeflag := c.timeflag || c.sswtCb == t.arg } := by
      intro prio'
      rw [heq, ← hagain]
      apply sswtCalls_setTimeflag
    apply h.of_sublist (Nat.le_of_eq hnext.symm)
    . intro prio'
      rw [hset, List.map_map]
      apply List.Sublist.refl
    . intro prio' c hc hflag
      rw [hset] at hc
      rcases List.mem_map.mp hc with ⟨c', hc', rfl⟩
      simp only [Bool.or_eq_false_iff, beq_eq_false_iff_ne] at hflag
      rcases hflag with ⟨hflag, hne⟩
      constructor
      . have hsame : (c'.timeflag || c'.sswtCb == t.arg) = c'.timeflag := by
          simp [hne]
        rw [hsame]
        exact hc'
      . intro k hk hsswt harg
        apply hkeep' prio' k hk
        rintro rfl
        exact hne harg.symm
  . apply h.congr (Nat.le_of_eq hnext.symm)
    . intro prio'
      rw [heq, sswtCalls_setFrames, hframes]
      rw [hframes, ← hcalls]
      rfl
    . apply huser
      simp [hh]

theorem FramesOk.sysTimeout (h : s.FramesOk) (hlist : HasList prio) (hfree : s.mempFree ≠ 0)
    (msecs : UInt32) (hd : Option TimeoutHandler) (arg : Nat)
    : (s.sysTimeout prio msecs hd arg).FramesOk := by
  apply h.congr
  . rw [sysTimeout_nextId]
    apply Nat.le_succ
  . intro prio'
    rw [sysTimeout_frames]
  . intro prio' k hk _
    by_cases heq : prio' = prio
    . rw [heq] at hk ⊢
      rw [(keys_sysTimeout msecs hd arg hlist hfree).mem_iff]
      exact List.mem_cons_of_mem _ hk
    . unfold keys
      rw [handed_sysTimeout_other heq]
      exact hk

theorem FramesOk.call (h : s.FramesOk) {timeout : UInt32} {frames : List TimeoutFrame}
    (hcalls : sswtCalls frames = ⟨s.nextId, timeout, false⟩ :: sswtCalls (s.frames prio))
    (hframes : s'.frames = Function.update s.frames prio frames)
    (hnext : s'.nextId = s.nextId + 1)
    (hkeys : ∀ prio', ∀ k ∈ s.keys prio', k ∈ s'.keys prio')
    (hnew : timeout > 0 → ∃ k ∈ s'.keys prio, k.h = some .sswtHandler ∧ k.arg = s.nextId)
    : s'.FramesOk := by
  have hself : sswtCalls (s'.frames prio) = ⟨s.nextId, timeout, false⟩ :: sswtCalls (s.frames prio) := by
    rw [hframes, Function.update_self, hcalls]
  have hother : ∀ prio', prio' ≠ prio → s'.frames prio' = s.frames prio' := by
    intro prio' hne
    rw [hframes, Function.update_of_ne hne]
  constructor
  . intro prio'
    by_cases heq : prio' = prio
    . rw [heq, hself, List.map_cons]
      apply List.nodup_cons.mpr
      constructor
      . intro hmem
        rcases List.mem_map.mp hmem with ⟨c, hc, hcb⟩
        have hlt := h.lt prio c hc
        dsimp only at hcb
        omega
      . exact h.nodup prio
    . rw [hother prio' heq]
      exact h.nodup prio'
  . intro prio' c hc
    rw [hnext]
    by_cases heq : prio' = prio
    . rw [heq, hself] at hc
      rcases List.mem_cons.mp hc with rfl | hc
      . apply Nat.lt_succ_self
      . apply Nat.lt_succ_of_lt
        exact h.lt prio c hc
    . rw [hother prio' heq] at hc
      apply Nat.lt_succ_of_lt
      exact h.lt prio' c hc
  . intro prio' c hc hflag htimeout
    by_cases heq : prio' = prio
    . rw [heq, hself] at hc
      rcases List.mem_cons.mp hc with rfl | hc
      . rw [heq]
        exact hnew htimeout
      . rcases h.waiting prio c hc hflag htimeout with ⟨k, hk, hh, harg⟩
        rw [heq]
        exact ⟨k, hkeys prio k hk, hh, harg⟩
    . rw [hother prio' heq] at hc
      rcases h.waiting prio' c hc hflag htimeout with ⟨k, hk, hh, harg⟩
      exact ⟨k, hkeys prio' k hk, hh, harg⟩

theorem FramesOk.finish (h : s.FramesOk) {c : SswtCall} {frames : List TimeoutFrame}
    (hcalls : sswtCalls (s.frames prio) = c :: sswtCalls frames)
    (hframes : s'.frames = Function.update s.frames prio frames)
    (hnext : s'.nextId = s.nextId)
    (hkeys : ∀ prio', ∀ k ∈ s.keys prio', (prio' = prio → k.arg ≠ c.sswtCb) → k ∈ s'.keys prio')
    : s'.FramesOk := by
  have hself : sswtCalls (s'.frames prio) = sswtCalls frames := by
    rw [hframes, Function.update_self]
  have hother : ∀ prio', prio' ≠ prio → s'.frames prio' = s.frames prio' := by
    intro prio' hne
    rw [hframes, Function.update_of_ne hne]
  have hnodup := h.nodup prio
  rw [hcalls, List.map_cons, List.nodup_cons] at hnodup
  apply h.of_sublist (Nat.le_of_eq hnext.symm)
  . intro prio'
    by_cases heq : prio' = prio
    . rw [heq, hself, hcalls]
      apply List.sublist_cons_self
    . simp only [hother prio' heq, List.Sublist.refl]
  . intro prio' c' hc' _
    by_cases heq : prio' = prio
    . rw [heq, hself] at hc'
      rw [heq, hcalls]
      refine ⟨List.mem_cons_of_mem c hc', ?_⟩
      intro k hk _ harg
      apply hkeys prio k hk
      intro _ harg'
      apply hnodup.1
      rw [← harg', harg]
      exact List.mem_map_of_mem hc'
    . rw [hother prio' heq] at hc'
      exact ⟨hc', fun k hk _ _ => hkeys prio' k hk (absurd · heq)⟩

structure Kept (s : TimeoutState) : Prop where
  nodup : ∀ prio, ((s.handed prio).map (·.id)).Nodup
  mem_iff : ∀ prio id, id ∈ (s.handed prio).map (·.id) ↔ s.Live prio id
  waiting : ∀ prio sswtCb timeout, .semWaitTimeout sswtCb timeout false ∈ s.frames prio →
    timeout > 0 → ∃ t ∈ s.handed prio, t.h = some .sswtHandler ∧ t.arg = sswtCb

def Registers (s : TimeoutState) : Act → Prop
  | .timeout prio _ _ _ => HasList prio ∧ s.mempFree ≠ 0
  | .semWaitTimeout prio timeout => timeout > 0 → HasList prio ∧ s.mempFree ≠ 0
  | _ => True

theorem map_id_keys (s : TimeoutState) (prio : UInt8)
    : (s.keys prio).map (·.id) = (s.handed prio).map (·.id) := by
  unfold keys
  rw [List.map_map]
  rfl

theorem kept_of_ok (hs : s.TimersOk) (h : s.FramesOk) : s.Kept := by
  constructor
  . intro prio
    rw [← map_id_keys]
    exact hs.nodup prio
  . intro prio id
    rw [← map_id_keys]
    exact hs.mem_iff prio id
  . intro prio sswtCb timeout hmem htimeout
    have hcall : ⟨sswtCb, timeout, false⟩ ∈ sswtCalls (s.frames prio) :=
      List.mem_filterMap.mpr ⟨_, hmem, rfl⟩
    rcases h.waiting prio _ hcall rfl htimeout with ⟨k, hk, hh, harg⟩
    rcases List.mem_map.mp hk with ⟨t, ht, rfl⟩
    exact ⟨t, ht, hh, harg⟩

theorem not_kept (hs : s.TimersOk) (prio : UInt8) (hlog : s'.log = s.log ++ [.registered prio s.nextId])
    (hkeys : s'.keys prio = s.keys prio)
    : ¬ s'.Kept := by
  intro hkept
  have hlive : s'.Live prio s.nextId := (hs.live_register hlog prio s.nextId).mpr (.inr ⟨rfl, rfl⟩)
  have hmem := (hkept.mem_iff prio s.nextId).mpr hlive
  rw [← map_id_keys, hkeys, hs.mem_iff] at hmem
  exact hs.not_live_nextId prio hmem

structure Inv (s : TimeoutState) : Prop where
  timers : s.TimersOk
  frames : s.FramesOk

theorem Inv.kept (h : s.Inv) : s.Kept := kept_of_ok h.timers h.frames

theorem start_inv : start.Inv := by
  have hkeys : ∀ prio, start.keys prio = [] := by
    intro prio
    unfold keys
    cases hslot : timeoutSlot prio with
    | none => rw [handed_none hslot, List.map_nil]
    | some i =>
      rw [handed_some hslot]
      rfl
  constructor
  . constructor
    . rfl
    . simp [hkeys]
    . intro prio id
      rw [hkeys]
      simp [Live, start]
    . simp [start]
    . simp [start]
    . simp [start]
  . constructor
    . simp [start, sswtCalls]
    . simp [start, sswtCalls]
    . simp [start, sswtCalls]

theorem Inv.setFrames (h : s.Inv) {frames : List TimeoutFrame}
    (hcalls : sswtCalls frames = sswtCalls (s.frames prio))
    : (s.setFrames prio frames).Inv :=
  ⟨h.timers.setFrames prio frames, h.frames.setFrames hcalls⟩

theorem Inv.fire (h : s.Inv) {frames : List TimeoutFrame}
    (hcalls : sswtCalls frames = sswtCalls (s.frames prio)) (hfire : s.fire prio frames = some s')
    : s'.Inv :=
  ⟨(h.timers.fire hfire).1, h.frames.fire h.timers hcalls hfire⟩

theorem Inv.elapse (h : s.Inv) (timeNeeded : UInt32)
    : (s.setTimeouts (timeoutSlot prio) (elapse timeNeeded (s.handed prio))).Inv := by
  cases hslot : timeoutSlot prio with
  | none =>
    rw [handed_none hslot]
    have hsame : s.setTimeouts none (SerialGateway.elapse timeNeeded []) = s := h.timers.clear
    rw [hsame]
    exact h
  | some i =>
    rw [← hslot]
    have hkeys : ∀ prio', (s.setTimeouts (timeoutSlot prio)
        (SerialGateway.elapse timeNeeded (s.handed prio))).keys prio' = s.keys prio' := by
      intro prio'
      unfold keys
      by_cases heq : prio' = prio
      . rw [heq, handed_setTimeouts_self hslot, map_key_elapse]
      . rw [handed_setTimeouts_other heq]
    constructor
    . apply h.timers.congr
      . exact (setTimeouts_null hslot _).trans h.timers.null
      . exact hkeys
      . simp
      . simp
    . apply h.frames.congr
      . simp
      . simp
      . intro prio' k hk _
        rw [hkeys]
        exact hk

theorem Inv.semWaitTimeout (h : s.Inv) {timeout : UInt32} (hregisters : s.Registers
      (.semWaitTimeout prio timeout))
    (hstep : step s (.semWaitTimeout prio timeout) = some s')
    : s'.Inv := by
  have hcall : sswtCalls (.again :: .semWaitTimeout s.nextId timeout false :: s.frames prio) =
      ⟨s.nextId, timeout, false⟩ :: sswtCalls (s.frames prio) := rfl
  simp only [step, Option.ite_none_right_eq_some] at hstep
  rcases hstep with ⟨-, hstep⟩
  split at hstep
  . next htimeout =>
    rcases hregisters htimeout with ⟨hlist, hfree⟩
    cases hstep
    have hs := h.timers.sysTimeout timeout (some .sswtHandler) s.nextId hlist hfree
    have hkeys := keys_sysTimeout timeout (some .sswtHandler) s.nextId hlist hfree
    constructor
    . apply hs.setFrames
    . apply h.frames.call hcall
      . rw [setFrames_frames, sysTimeout_frames]
      . apply sysTimeout_nextId timeout
      . intro prio' k hk
        rw [keys_setFrames]
        by_cases heq : prio' = prio
        . rw [heq] at hk ⊢
          rw [hkeys.mem_iff]
          exact List.mem_cons_of_mem _ hk
        . unfold keys
          rw [handed_sysTimeout_other heq]
          exact hk
      . intro _
        rw [keys_setFrames]
        exact ⟨_, hkeys.mem_iff.mpr List.mem_cons_self, rfl, rfl⟩
  . next htimeout =>
    cases hstep
    constructor
    . apply h.timers.congr
      . exact h.timers.null
      . intro prio'
        exact keys_congr rfl
      . rfl
      . apply Nat.le_succ
    . apply h.frames.call hcall
      . rfl
      . rfl
      . intro prio' k hk
        rw [keys_setFrames, keys_congr rfl]
        exact hk
      . intro hpos
        exact absurd hpos htimeout

theorem Inv.sysUntimeout_user (h : s.Inv) (prio : UInt8) (u : Option Nat) (arg : Nat)
    : (s.sysUntimeout prio (u.map .user) arg).Inv := by
  rcases h.timers.sysUntimeout prio (u.map .user) arg with ⟨hs, hframes, hnext, hkeep⟩
  constructor
  . exact hs
  . apply h.frames.congr (Nat.le_of_eq hnext.symm)
    . intro prio'
      rw [hframes]
    . intro prio' k hk hsswt
      by_cases heq : prio' = prio
      . rw [heq] at hk ⊢
        apply hkeep k hk
        rintro ⟨hu, -⟩
        rw [hsswt] at hu
        cases u <;> cases hu
      . unfold keys
        rw [handed_sysUntimeout_other heq]
        exact hk

theorem Inv.finish (h : s.Inv) (hstep : step s (.finish prio) = some s')
    : s'.Inv := by
  simp only [step] at hstep
  split at hstep
  . next sswtCb timeout timeflag frames hframes =>
    have hs := h.timers.setFrames prio frames
    have hcalls : sswtCalls (s.frames prio) = ⟨sswtCb, timeout, timeflag⟩ :: sswtCalls frames := by
      rw [hframes]
      rfl
    split at hstep
    . cases hstep
      refine ⟨hs, ?_⟩
      apply h.frames.finish hcalls
      . rfl
      . rfl
      . intro prio' k hk _
        rw [keys_setFrames]
        exact hk
    . cases hstep
      rcases hs.sysUntimeout prio (some .sswtHandler) sswtCb with ⟨hs', hframes', hnext, hkeep⟩
      refine ⟨hs', ?_⟩
      apply h.frames.finish hcalls
      . exact hframes'
      . exact hnext
      . intro prio' k hk hne
        rw [← keys_setFrames prio frames] at hk
        by_cases heq : prio' = prio
        . rw [heq] at hk ⊢
          apply hkeep k hk
          intro hmatch
          exact hne heq hmatch.2
        . unfold keys
          rw [handed_sysUntimeout_other heq]
          exact hk
  . cases hstep

theorem Inv.step (h : s.Inv) {a : Act} (hregisters : s.Registers a)
    (hstep : TimeoutState.step s a = some s')
    : s'.Inv := by
  cases a with
  | timeout prio msecs u arg =>
    simp only [TimeoutState.step, Option.ite_none_right_eq_some, Option.some.injEq] at hstep
    rcases hstep with ⟨-, rfl⟩
    rcases hregisters with ⟨hlist, hfree⟩
    constructor
    . exact h.timers.sysTimeout msecs _ arg hlist hfree
    . exact h.frames.sysTimeout hlist hfree msecs _ arg
  | untimeout prio u arg =>
    simp only [TimeoutState.step, Option.ite_none_right_eq_some, Option.some.injEq] at hstep
    rcases hstep with ⟨-, rfl⟩
    exact h.sysUntimeout_user prio u arg
  | wait prio =>
    simp only [TimeoutState.step, Option.ite_none_right_eq_some, Option.some.injEq] at hstep
    rcases hstep with ⟨-, rfl⟩
    apply h.setFrames
    rfl
  | semWaitTimeout prio timeout => exact h.semWaitTimeout hregisters hstep
  | lookup prio =>
    simp only [TimeoutState.step, sysArchTimeouts, h.timers.clear] at hstep
    split at hstep
    . next frames hframes =>
      have hcalls : sswtCalls frames = sswtCalls (s.frames prio) := by
        rw [hframes]
        rfl
      split at hstep
      . cases hstep
        exact h.setFrames hcalls
      . split at hstep
        . cases hstep
          exact h.setFrames hcalls
        . exact h.fire hcalls hstep
    . cases hstep
  | wake prio timeNeeded =>
    simp only [TimeoutState.step, timeouts_eq_handed h.timers.null] at hstep
    split at hstep
    . next frames hframes =>
      cases hstep
      apply h.setFrames
      rw [hframes]
      rfl
    . next time frames hframes =>
      split at hstep
      . cases hstep
      . cases hstep
        apply (h.elapse timeNeeded).setFrames
        rw [setTimeouts_frames, hframes]
        rfl
    . cases hstep
  | expire prio =>
    simp only [TimeoutState.step] at hstep
    split at hstep
    . next time frames hframes =>
      apply h.fire _ hstep
      rw [hframes]
      rfl
    . cases hstep
  | finish prio => exact h.finish hstep
  | handlerReturn prio =>
    simp only [TimeoutState.step] at hstep
    split at hstep
    . next frames hframes =>
      cases hstep
      apply h.setFrames
      rw [hframes]
      rfl
    . cases hstep

theorem kept_step_iff (h : s.Inv) {a : Act} (hstep : step s a = some s')
    : s'.Kept ↔ s.Registers a := by
  constructor
  . intro hkept
    cases a with
    | timeout prio msecs u arg =>
      simp only [step, Option.ite_none_right_eq_some, Option.some.injEq] at hstep
      rcases hstep with ⟨-, rfl⟩
      by_contra hlost
      apply not_kept h.timers _ (sysTimeout_log msecs _ arg) _ hkept
      exact keys_sysTimeout_lost msecs _ arg hlost
    | semWaitTimeout prio timeout =>
      intro htimeout
      simp only [step, Option.ite_none_right_eq_some, if_pos htimeout, Option.some.injEq] at hstep
      rcases hstep with ⟨-, rfl⟩
      by_contra hlost
      refine not_kept h.timers prio ?_ ?_ hkept
      . exact sysTimeout_log timeout (some .sswtHandler) s.nextId
      . rw [keys_setFrames]
        exact keys_sysTimeout_lost timeout _ _ hlost
    | _ => trivial
  . intro hregisters
    exact (h.step hregisters hstep).kept

theorem kept_iff {acts : List Act} (hrun : run step start acts = some s)
    : (start.Kept ∧
          Along step (fun s a => (∀ s', step s a = some s' →
            s'.Kept ∧ ∀ prio, prio ≠ a.prio → s'.handed prio = s.handed prio)) start acts)
        ↔ Along step Registers start acts := by
  rw [iff_true_intro start_inv.kept, true_and]
  apply along_iff_along (I := Inv) ?_ ?_ ?_ hrun
  . intro s a s' h hstep
    rw [← kept_step_iff h hstep]
    constructor
    . intro hall
      exact (hall s' hstep).1
    . intro hkept s'' hstep'
      cases hstep.symm.trans hstep'
      exact ⟨hkept, fun prio hne => handed_step_other hne hstep⟩
  . intro s a s' h hregisters hstep
    exact h.step hregisters hstep
  . exact start_inv

def twoTasks : List Act :=
  [.timeout 2 250 (some 0) 0, .wait 2, .lookup 2, .semWaitTimeout 3 500, .lookup 3, .expire 2, .expire 3,
    .timeout 2 250 (some 0) 0, .handlerReturn 2, .lookup 2]

theorem kept_iff_twoTasks
    : (start.Kept ∧
          Along step (fun s a => (∀ s', step s a = some s' →
            s'.Kept ∧ ∀ prio, prio ≠ a.prio → s'.handed prio = s.handed prio)) start twoTasks)
        ↔ Along step Registers start twoTasks :=
  kept_iff (Option.some_get (by decide)).symm

def waitForever : List Act := [.semWaitTimeout 5 100, .lookup 5]

theorem not_kept_waitForever
    : ∃ s, run step start waitForever = some s
        ∧ s.frames 5 = [.blocked none, .semWaitTimeout 0 100 false] ∧ ¬ s.Kept := by
  refine ⟨(run step start waitForever).get (by decide), (Option.some_get _).symm, by decide, ?_⟩
  intro hkept
  have hwaits : TimeoutFrame.semWaitTimeout 0 100 false ∈
      ((run step start waitForever).get (by decide)).frames 5 := by
    decide
  rcases hkept.waiting 5 0 100 hwaits (by decide) with ⟨t, ht, -, -⟩
  rw [handed_none (by decide)] at ht
  cases ht

end TimeoutState

end SerialGateway
