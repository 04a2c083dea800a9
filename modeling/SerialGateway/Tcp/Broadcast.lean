import SerialGateway.Lwip.PcbList
import SerialGateway.Serial.Burst

/-!
This module contains the loop in which a serial task writes the bytes of a pass to every active
connection, interleaved with steps of the lwIP thread that change the list under its cursor.
-/

open Transition Linked

namespace SerialGateway

/--
The statements of the loop, `cpcb = tcp_active_pcbs` excepted, with which a pass starts.
-/
inductive WalkPc where
  | test
  | tcpWrite
  | tcpOutput
  | next
  | done
  deriving DecidableEq

structure Walk (Pcb : Type) where
  lists : PcbLists Pcb
  pc : WalkPc
  cpcb : Option Pcb
  data : List UInt8
  writes : List (Pcb × List UInt8)

inductive WalkAct (Pcb : Type) where
  | task
  | tcpInput (k : Nat)
  | tcpReg (npcb : Pcb)
  | unlink (how : PcbLists.Unlink) (k : Nat)
  deriving DecidableEq

namespace Walk

variable {Pcb : Type}

def start (lists : PcbLists Pcb) (data : List UInt8) : Walk Pcb where
  lists := lists
  pc := .test
  cpcb := lists.tcpActivePcbs
  data := data
  writes := []

def task (s : Walk Pcb) : Option (Walk Pcb) :=
  match s.pc with
  | .test =>
    match s.cpcb with
    | none => some { s with pc := .done }
    | some _ => some { s with pc := .tcpWrite }
  | .tcpWrite =>
    s.cpcb.map fun cpcb => { s with pc := .tcpOutput, writes := s.writes ++ [(cpcb, s.data)] }
  | .tcpOutput => some { s with pc := .next }
  | .next => s.cpcb.map fun cpcb => { s with pc := .test, cpcb := s.lists.next cpcb }
  | .done => none

structure Inv (behind route : List Pcb) (s : Walk Pcb) : Prop where
  active : s.lists.Active (behind ++ route)
  place : match s.pc with
    | .test | .tcpWrite => s.cpcb = route.head?
    | .tcpOutput | .next =>
      ∃ c, s.cpcb = some c
        ∧ ((∃ b, behind = b ++ [c]) ∨ c ∉ behind ++ route ∧ s.lists.next c = route.head?)
    | .done => route = []
  deref : s.pc = .tcpWrite → s.cpcb ≠ none

variable {behind route : List Pcb}

def remaining (s : Walk Pcb) (route : List Pcb) : Nat :=
  match s.pc with
  | .test => 4 * route.length + 1
  | .tcpWrite => 4 * route.length
  | .tcpOutput => 4 * route.length + 3
  | .next => 4 * route.length + 2
  | .done => 0

theorem split_behind {pre post : List Pcb} {x : Pcb} (h : behind ++ route = pre ++ x :: post)
    (hlt : pre.length < behind.length)
    : ∃ mid, behind = pre ++ x :: mid ∧ post = mid ++ route := by
  rcases List.append_eq_append_iff.mp h with ⟨mid, hpre, -⟩ | ⟨mid, hbehind, hpost⟩
  . rw [hpre, List.length_append] at hlt
    omega
  . cases mid with
    | nil =>
      rw [hbehind, List.append_nil] at hlt
      omega
    | cons y mid =>
      rw [List.cons_append, List.cons.injEq] at hpost
      exact ⟨mid, by rw [hbehind, hpost.1], hpost.2⟩

theorem split_route {pre post : List Pcb} {x : Pcb} (h : behind ++ route = pre ++ x :: post)
    (hge : behind.length ≤ pre.length)
    : ∃ mid, pre = behind ++ mid ∧ route = mid ++ x :: post := by
  rcases List.append_eq_append_iff.mp h with ⟨mid, hpre, hroute⟩ | ⟨mid, hbehind, hpost⟩
  . exact ⟨mid, hpre, hroute⟩
  . have hnil : mid = [] := by
      apply List.eq_nil_of_length_eq_zero
      rw [hbehind, List.length_append] at hge
      omega
    subst hnil
    exact ⟨[], by simpa using hbehind.symm, by simpa using hpost.symm⟩

theorem Inv.nth_behind {s : Walk Pcb} (h : s.Inv behind route)
    : nth s.lists.next behind.length s.lists.tcpActivePcbs = route.head? := by
  rw [h.active.list.nth_eq, List.getElem?_append_right (Nat.le_refl _), Nat.sub_self]
  exact List.head?_eq_getElem?.symm

theorem Inv.done {s : Walk Pcb} (h : s.Inv behind route) (hpc : s.pc = .done) : route = [] := by
  have hplace := h.place
  simpa only [hpc] using hplace

theorem Inv.next_cpcb {s : Walk Pcb} (h : s.Inv behind route)
    (hpc : s.pc = .tcpOutput ∨ s.pc = .next)
    : ∃ c, s.cpcb = some c ∧ s.lists.next c = route.head? := by
  have hplace := h.place
  have hpos : ∃ c, s.cpcb = some c
      ∧ ((∃ b, behind = b ++ [c]) ∨ c ∉ behind ++ route ∧ s.lists.next c = route.head?) := by
    rcases hpc with hpc | hpc <;> simpa only [hpc] using hplace
  rcases hpos with ⟨c, hc, ⟨b, rfl⟩ | ⟨-, hnext⟩⟩
  . have hlist := h.active.list
    rw [List.append_assoc, List.singleton_append] at hlist
    exact ⟨c, hc, hlist.next_eq⟩
  . exact ⟨c, hc, hnext⟩

theorem Inv.task {s s' : Walk Pcb} (h : s.Inv behind route) (hstep : s.task = some s')
    : ∃ behind' route', s'.Inv behind' route' ∧ behind' ++ route' = behind ++ route
        ∧ s.remaining route = s'.remaining route' + 1 ∧ s'.data = s.data
        ∧ (s.pc = .tcpWrite ∧ (∃ c, s.cpcb = some c ∧ route = c :: route'
            ∧ s'.writes = s.writes ++ [(c, s.data)])
          ∨ s.pc ≠ .tcpWrite ∧ route' = route ∧ s'.writes = s.writes) := by
  have hplace := h.place
  unfold Walk.task at hstep
  split at hstep
  . next hpc =>
    rw [hpc] at hplace
    split at hstep
    . next hnull =>
      cases hstep
      have hroute : route = [] := List.head?_eq_none_iff.mp (hplace.symm.trans hnull)
      refine ⟨behind, route, ⟨h.active, hroute, nofun⟩, rfl, ?_, rfl, .inr ⟨by simp [hpc], rfl, rfl⟩⟩
      simp [remaining, hpc, hroute]
    . next c hc =>
      cases hstep
      refine ⟨behind, route, ⟨h.active, hplace, by simp [hc]⟩, rfl, ?_, rfl,
        .inr ⟨by simp [hpc], rfl, rfl⟩⟩
      simp [remaining, hpc]
  . next hpc =>
    rw [hpc] at hplace
    rcases Option.map_eq_some_iff.mp hstep with ⟨c, hc, rfl⟩
    rcases List.head?_eq_some_iff.mp (hplace.symm.trans hc) with ⟨route', rfl⟩
    have hlist : behind ++ c :: route' = (behind ++ [c]) ++ route' := by simp
    refine ⟨behind ++ [c], route', ⟨hlist ▸ h.active, ⟨c, hc, .inl ⟨behind, rfl⟩⟩, nofun⟩, hlist.symm, ?_,
      rfl, .inl ⟨hpc, c, hc, rfl, rfl⟩⟩
    simp only [remaining, hpc, List.length_cons]
    omega
  . next hpc =>
    cases hstep
    rw [hpc] at hplace
    refine ⟨behind, route, ⟨h.active, hplace, nofun⟩, rfl, ?_, rfl, .inr ⟨by simp [hpc], rfl, rfl⟩⟩
    simp [remaining, hpc]
  . next hpc =>
    rcases Option.map_eq_some_iff.mp hstep with ⟨c, hc, rfl⟩
    rcases h.next_cpcb (.inr hpc) with ⟨c', hc', hnext⟩
    rw [hc] at hc'
    cases hc'
    refine ⟨behind, route, ⟨h.active, hnext, nofun⟩, rfl, ?_, rfl, .inr ⟨by simp [hpc], rfl, rfl⟩⟩
    simp [remaining, hpc]
  . cases hstep

variable [DecidableEq Pcb]

def step (s : Walk Pcb) : WalkAct Pcb → Option (Walk Pcb)
  | .task => s.task
  | .tcpInput k => (s.lists.tcpInput k).map fun lists => { s with lists := lists }
  | .tcpReg npcb => (s.lists.tcpReg npcb).map fun lists => { s with lists := lists }
  | .unlink how k => (s.lists.unlink how k).map fun lists => { s with lists := lists }

/--
The lwIP thread leaves the cursor's surroundings alone. Before the write to `cpcb` it neither unlinks
`cpcb` nor moves it or a connection behind it to the front. After the write the same holds, except
that `cpcb` may be unlinked if its `next` field keeps its value; from then on its successor has to
stay where it is.
-/
def Spares (s : Walk Pcb) : WalkAct Pcb → Prop
  | .task => True
  | .tcpInput k =>
    match s.pc with
    | .test | .tcpWrite =>
      k = 0 ∨ ∀ j ≤ k, nth s.lists.next j s.lists.tcpActivePcbs ≠ s.cpcb
    | .tcpOutput | .next =>
      k = 0 ∨ ∀ j ≤ k, nth s.lists.next j s.lists.tcpActivePcbs ≠ s.cpcb
        ∧ nth s.lists.next j s.lists.tcpActivePcbs ≠ s.cpcb.bind s.lists.next
    | .done => True
  | .tcpReg npcb =>
    match s.pc with
    | .tcpOutput | .next => s.cpcb ≠ some npcb
    | _ => True
  | .unlink how k =>
    match s.pc with
    | .test | .tcpWrite => nth s.lists.next k s.lists.tcpActivePcbs ≠ s.cpcb
    | .tcpOutput | .next =>
      if nth s.lists.next k s.lists.tcpActivePcbs = s.cpcb then
        s.cpcb.bind (s.lists.leftNext how) = s.cpcb.bind s.lists.next
      else
        nth s.lists.next k s.lists.tcpActivePcbs = s.cpcb.bind s.lists.next →
          0 < k ∧ nth s.lists.next (k - 1) s.lists.tcpActivePcbs = s.cpcb
    | .done => True

instance (s : Walk Pcb) : (a : WalkAct Pcb) → Decidable (s.Spares a)
  | .task => inferInstanceAs (Decidable True)
  | .tcpInput k => by unfold Spares; dsimp only; split <;> infer_instance
  | .tcpReg npcb => by unfold Spares; dsimp only; split <;> infer_instance
  | .unlink how k => by unfold Spares; dsimp only; split <;> infer_instance

def Tally (x : Pcb) (s : Walk Pcb) (route : List Pcb) : Prop :=
  s.writes.filter (·.1 = x) = if x ∈ route then [] else [(x, s.data)]

def Undisturbed (behind route behind' route' : List Pcb) : Prop :=
  route'.length ≤ route.length
    ∧ ∀ x ∈ behind ++ route, x ∈ behind' ++ route' → (x ∈ route' ↔ x ∈ route)

omit [DecidableEq Pcb] in
theorem Inv.relist {s : Walk Pcb} {lists : PcbLists Pcb} {behind' route' : List Pcb}
    (h : s.Inv behind route) (hact : lists.Active (behind' ++ route'))
    (hbefore : s.pc = .test ∨ s.pc = .tcpWrite → route'.head? = route.head?)
    (hafter : s.pc = .tcpOutput ∨ s.pc = .next → ∀ c, s.cpcb = some c →
      (∃ b, behind = b ++ [c]) ∨ c ∉ behind ++ route ∧ s.lists.next c = route.head? →
      (∃ b, behind' = b ++ [c]) ∨ c ∉ behind' ++ route' ∧ lists.next c = route'.head?)
    (hdone : s.pc = .done → route' = [])
    : Inv behind' route' { s with lists := lists } := by
  refine ⟨hact, ?_, h.deref⟩
  have hplace := h.place
  cases hpc : s.pc with
  | test =>
    simp only [hpc] at hplace ⊢
    rw [hbefore (.inl hpc), hplace]
  | tcpWrite =>
    simp only [hpc] at hplace ⊢
    rw [hbefore (.inr hpc), hplace]
  | tcpOutput =>
    simp only [hpc] at hplace ⊢
    rcases hplace with ⟨c, hc, hpos⟩
    exact ⟨c, hc, hafter (.inl hpc) c hc hpos⟩
  | next =>
    simp only [hpc] at hplace ⊢
    rcases hplace with ⟨c, hc, hpos⟩
    exact ⟨c, hc, hafter (.inr hpc) c hc hpos⟩
  | done => exact hdone hpc

theorem Inv.tcpInput_lt {s : Walk Pcb} {k : Nat} (h : s.Inv behind route)
    (hspares : s.Spares (.tcpInput k)) (hk : k ≠ 0) (hlt : k < (behind ++ route).length)
    : k < behind.length := by
  apply Nat.lt_of_not_le
  intro hge
  have hnth := h.nth_behind
  have hplace := h.place
  unfold Spares at hspares
  cases hpc : s.pc with
  | test =>
    simp only [hpc, hk, false_or] at hspares hplace
    apply hspares behind.length
    . exact hge
    . exact hnth.trans hplace.symm
  | tcpWrite =>
    simp only [hpc, hk, false_or] at hspares hplace
    apply hspares behind.length
    . exact hge
    . exact hnth.trans hplace.symm
  | tcpOutput =>
    simp only [hpc, hk, false_or] at hspares
    rcases h.next_cpcb (.inl hpc) with ⟨c, hc, hnext⟩
    apply (hspares behind.length hge).2
    rw [hnth, hc, Option.bind_some, hnext]
  | next =>
    simp only [hpc, hk, false_or] at hspares
    rcases h.next_cpcb (.inr hpc) with ⟨c, hc, hnext⟩
    apply (hspares behind.length hge).2
    rw [hnth, hc, Option.bind_some, hnext]
  | done =>
    simp only [hpc] at hplace
    rw [hplace, List.append_nil] at hlt
    omega

theorem Spares.ne_cpcb {s : Walk Pcb} {k : Nat} (h : s.Spares (.tcpInput k))
    (hpc : s.pc = .tcpOutput ∨ s.pc = .next) (hk : k ≠ 0)
    : nth s.lists.next k s.lists.tcpActivePcbs ≠ s.cpcb := by
  unfold Spares at h
  rcases hpc with hpc | hpc
  . simp only [hpc, hk, false_or] at h
    exact (h k (Nat.le_refl _)).1
  . simp only [hpc, hk, false_or] at h
    exact (h k (Nat.le_refl _)).1

omit [DecidableEq Pcb] in
theorem last_of_split {pre mid b : List Pcb} {x c : Pcb} (hne : x ≠ c)
    (h : pre ++ x :: mid = b ++ [c])
    : ∃ m, mid = m ++ [c] := by
  rcases List.eq_nil_or_concat mid with rfl | ⟨m, y, rfl⟩
  . exact absurd (by simpa using (List.append_inj' h rfl).2) hne
  . rw [List.concat_eq_append, ← List.cons_append, ← List.append_assoc] at h
    have hy : y = c := by simpa using (List.append_inj' h rfl).2
    exact ⟨m, by rw [List.concat_eq_append, hy]⟩

theorem Inv.tcpInput {s s' : Walk Pcb} {k : Nat} (h : s.Inv behind route)
    (hspares : s.Spares (.tcpInput k)) (hstep : s.step (.tcpInput k) = some s')
    : ∃ behind', s'.Inv behind' route ∧ Undisturbed behind route behind' route := by
  rcases Option.map_eq_some_iff.mp hstep with ⟨lists, hlists, rfl⟩
  rcases h.active.tcpInput hlists with ⟨pre, x, post, hsplit, rfl, hact, hframe⟩
  cases hpre : pre with
  | nil =>
    rw [hpre, List.nil_append] at hsplit hact
    rw [← hsplit] at hact
    refine ⟨behind, h.relist hact (fun _ => rfl) ?_ ?_, Nat.le_refl _, fun _ _ _ => Iff.rfl⟩
    . rintro - c hc (hon | ⟨hoff, hhead⟩)
      . exact .inl hon
      . exact .inr ⟨hoff, (hframe c hoff).trans hhead⟩
    . exact h.done
  | cons y pre' =>
    have hk : pre.length ≠ 0 := by simp [hpre]
    have hlt : pre.length < behind.length := by
      apply h.tcpInput_lt hspares hk
      rw [hsplit]
      simp
    rcases split_behind hsplit hlt with ⟨mid, hbehind, hpost⟩
    have hlist : x :: (pre ++ post) = (x :: (pre ++ mid)) ++ route := by simp [hpost]
    refine ⟨x :: (pre ++ mid), h.relist (hlist ▸ hact) (fun _ => rfl) ?_ ?_, Nat.le_refl _,
      fun _ _ _ => Iff.rfl⟩
    . rintro hpc c hc (⟨b, hb⟩ | ⟨hoff, hhead⟩)
      . have hne : x ≠ c := by
          rintro rfl
          apply hspares.ne_cpcb hpc hk
          rw [h.active.list.nth_eq, hsplit, hc]
          simp
        rcases last_of_split hne (hbehind.symm.trans hb) with ⟨m, rfl⟩
        exact .inl ⟨x :: (pre ++ m), by simp⟩
      . refine .inr ⟨?_, (hframe c hoff).trans hhead⟩
        rw [hsplit] at hoff
        rw [← hlist]
        simpa [or_left_comm] using hoff
    . exact h.done

theorem Inv.tcpReg {s s' : Walk Pcb} {npcb : Pcb} (h : s.Inv behind route)
    (hspares : s.Spares (.tcpReg npcb)) (hstep : s.step (.tcpReg npcb) = some s')
    : ∃ behind', s'.Inv behind' route ∧ Undisturbed behind route behind' route := by
  rcases Option.map_eq_some_iff.mp hstep with ⟨lists, hlists, rfl⟩
  rcases h.active.tcpReg hlists with ⟨hnew, hact, hframe⟩
  refine ⟨npcb :: behind, h.relist hact (fun _ => rfl) ?_ h.done, Nat.le_refl _,
    fun _ _ _ => Iff.rfl⟩
  rintro hpc c hc (⟨b, hb⟩ | ⟨hoff, hhead⟩)
  . exact .inl ⟨npcb :: b, by rw [hb, List.cons_append]⟩
  . have hne : c ≠ npcb := by
      rintro rfl
      unfold Spares at hspares
      rcases hpc with hpc | hpc
      . simp only [hpc] at hspares
        exact hspares hc
      . simp only [hpc] at hspares
        exact hspares hc
    refine .inr ⟨?_, (hframe c hne).trans hhead⟩
    rw [List.cons_append, List.mem_cons, not_or]
    exact ⟨hne, hoff⟩

theorem Spares.unlink_next {s : Walk Pcb} {how : PcbLists.Unlink} {k : Nat}
    (h : s.Spares (.unlink how k)) (hpc : s.pc = .tcpOutput ∨ s.pc = .next)
    : if nth s.lists.next k s.lists.tcpActivePcbs = s.cpcb then
        s.cpcb.bind (s.lists.leftNext how) = s.cpcb.bind s.lists.next
      else
        nth s.lists.next k s.lists.tcpActivePcbs = s.cpcb.bind s.lists.next →
          0 < k ∧ nth s.lists.next (k - 1) s.lists.tcpActivePcbs = s.cpcb := by
  unfold Spares at h
  rcases hpc with hpc | hpc
  . simpa only [hpc] using h
  . simpa only [hpc] using h

theorem Spares.unlink_ne {s : Walk Pcb} {how : PcbLists.Unlink} {k : Nat}
    (h : s.Spares (.unlink how k)) (hpc : s.pc = .test ∨ s.pc = .tcpWrite)
    : nth s.lists.next k s.lists.tcpActivePcbs ≠ s.cpcb := by
  unfold Spares at h
  rcases hpc with hpc | hpc
  . simpa only [hpc] using h
  . simpa only [hpc] using h

theorem Inv.unlink {s s' : Walk Pcb} {how : PcbLists.Unlink} {k : Nat} (h : s.Inv behind route)
    (hspares : s.Spares (.unlink how k)) (hstep : s.step (.unlink how k) = some s')
    : ∃ behind' route', s'.Inv behind' route' ∧ Undisturbed behind route behind' route' := by
  rcases Option.map_eq_some_iff.mp hstep with ⟨lists, hlists, rfl⟩
  rcases h.active.unlink hlists with ⟨pre, x, post, hsplit, rfl, hact, hnext, hframe⟩
  have hnth : nth s.lists.next pre.length s.lists.tcpActivePcbs = some x := by
    rw [h.active.list.nth_eq, hsplit]
    simp
  have hnodup := h.active.nodup
  rw [hsplit] at hnodup
  have hgone := (List.nodup_cons.mp (List.nodup_middle.mp hnodup)).1
  have hsub : ∀ y ∈ pre ++ post, y ∈ behind ++ route := by
    intro y hy
    rw [hsplit]
    apply List.perm_middle.mem_iff.mpr
    exact List.mem_cons_of_mem _ hy
  rcases Nat.lt_or_ge pre.length behind.length with hlt | hge
  . rcases split_behind hsplit hlt with ⟨mid, hbehind, hpost⟩
    have hlist : pre ++ post = (pre ++ mid) ++ route := by rw [hpost, List.append_assoc]
    rw [hlist] at hact hgone hsub
    refine ⟨pre ++ mid, route, h.relist hact (fun _ => rfl) ?_ h.done, Nat.le_refl _,
      fun _ _ _ => Iff.rfl⟩
    rintro hpc c hc (⟨b, hb⟩ | ⟨hoff, hhead⟩)
    . by_cases hxc : x = c
      . -- `cpcb` itself is unlinked.
        subst hxc
        have hkeeps := hspares.unlink_next hpc
        rw [hnth, hc, if_pos rfl, Option.bind_some, Option.bind_some] at hkeeps
        rcases h.next_cpcb hpc with ⟨c, hc', hhead⟩
        rw [hc] at hc'
        cases hc'
        exact .inr ⟨hgone, by rw [hnext, hkeeps, hhead]⟩
      . rcases last_of_split hxc (hbehind.symm.trans hb) with ⟨m, rfl⟩
        exact .inl ⟨pre ++ m, by simp⟩
    . exact .inr ⟨fun hmem => hoff (hsub c hmem), (hframe c hoff).trans hhead⟩
  . rcases split_route hsplit hge with ⟨mid, hpre, hroute⟩
    have hlist : pre ++ post = behind ++ (mid ++ post) := by rw [hpre, List.append_assoc]
    rw [hlist] at hact hgone hsub
    -- The first connection on the route stays as long as it is not the one unlinked.
    have hhead : some x ≠ route.head? → (mid ++ post).head? = route.head? := by
      intro hne
      cases mid with
      | nil => exact absurd (by rw [hroute]; rfl) hne
      | cons y mid => rw [hroute]; rfl
    refine ⟨behind, mid ++ post, h.relist hact ?_ ?_ ?_, ?_, ?_⟩
    . intro hpc
      have hne := hspares.unlink_ne hpc
      have hplace : s.cpcb = route.head? := by
        have hplace := h.place
        rcases hpc with hpc | hpc <;> simpa only [hpc] using hplace
      rw [hnth, hplace] at hne
      exact hhead hne
    . rintro hpc c hc (hon | ⟨hoff, hnextc⟩)
      . exact .inl hon
      . refine .inr ⟨fun hmem => hoff (hsub c hmem), ?_⟩
        rw [hframe c hoff, hnextc]
        refine (hhead ?_).symm
        intro hfirst
        have hkeeps := hspares.unlink_next hpc
        have hne : ¬ some x = some c := by
          intro heq
          rw [hsplit, ← Option.some.inj heq] at hoff
          simp at hoff
        rw [hnth, hc, if_neg hne, Option.bind_some, hnextc] at hkeeps
        apply hoff
        exact h.active.onActive_iff.mp ⟨_, (hkeeps hfirst).2⟩
    . intro hpc
      rw [h.done hpc] at hroute
      simp at hroute
    . rw [hroute]
      simp
    . intro y _ hy
      have hne : y ≠ x := by
        rintro rfl
        exact hgone hy
      rw [hroute]
      simp [hne]

omit [DecidableEq Pcb] in
theorem Inv.task_isSome {s : Walk Pcb} (h : s.Inv behind route) (hpc : s.pc ≠ .done)
    : ∃ s', s.task = some s' := by
  unfold Walk.task
  cases hpc' : s.pc with
  | test => cases s.cpcb <;> exact ⟨_, rfl⟩
  | tcpWrite =>
    rcases Option.ne_none_iff_exists'.mp (h.deref hpc') with ⟨c, hc⟩
    simp only [hc, Option.map_some]
    exact ⟨_, rfl⟩
  | tcpOutput => exact ⟨_, rfl⟩
  | next =>
    rcases h.next_cpcb (.inr hpc') with ⟨c, hc, -⟩
    simp only [hc, Option.map_some]
    exact ⟨_, rfl⟩
  | done => exact absurd hpc' hpc

def WritesActive (s : Walk Pcb) (a : WalkAct Pcb) : Prop :=
  a = .task → s.pc = .tcpWrite → ∀ c ∈ s.cpcb, s.lists.OnActive c

omit [DecidableEq Pcb] in
theorem Inv.writesActive {s : Walk Pcb} (h : s.Inv behind route) (a : WalkAct Pcb)
    : s.WritesActive a := by
  rintro - hpc c hc
  have hplace := h.place
  simp only [hpc] at hplace
  rw [hplace] at hc
  rw [h.active.onActive_iff]
  apply List.mem_append_right
  exact List.mem_of_head? hc

theorem Inv.lwip {s s' : Walk Pcb} {a : WalkAct Pcb} (h : s.Inv behind route) (ha : a ≠ .task)
    (hspares : s.Spares a) (hstep : s.step a = some s')
    : ∃ behind' route', s'.Inv behind' route' ∧ Undisturbed behind route behind' route'
        ∧ s'.pc = s.pc ∧ s'.data = s.data ∧ s'.writes = s.writes := by
  cases a with
  | task => exact absurd rfl ha
  | tcpInput k =>
    rcases h.tcpInput hspares hstep with ⟨behind', hinv, hund⟩
    rcases Option.map_eq_some_iff.mp hstep with ⟨lists, -, rfl⟩
    exact ⟨behind', route, hinv, hund, rfl, rfl, rfl⟩
  | tcpReg npcb =>
    rcases h.tcpReg hspares hstep with ⟨behind', hinv, hund⟩
    rcases Option.map_eq_some_iff.mp hstep with ⟨lists, -, rfl⟩
    exact ⟨behind', route, hinv, hund, rfl, rfl, rfl⟩
  | unlink how k =>
    rcases h.unlink hspares hstep with ⟨behind', route', hinv, hund⟩
    rcases Option.map_eq_some_iff.mp hstep with ⟨lists, -, rfl⟩
    exact ⟨behind', route', hinv, hund, rfl, rfl, rfl⟩

theorem Inv.step {s s' : Walk Pcb} {a : WalkAct Pcb} (h : s.Inv behind route)
    (hspares : s.Spares a) (hstep : s.step a = some s')
    : ∃ behind' route', s'.Inv behind' route' ∧ s'.data = s.data
        ∧ s'.remaining route' + (if a = .task then 1 else 0) ≤ s.remaining route
        ∧ ∀ x, s.lists.OnActive x → s'.lists.OnActive x → s.Tally x route → s'.Tally x route' := by
  by_cases ha : a = .task
  . subst ha
    rcases h.task hstep with ⟨behind', route', hinv, hlist, hrem, hdata, hwrites⟩
    refine ⟨behind', route', hinv, hdata, by simp [hrem], ?_⟩
    intro x hx _ htally
    unfold Tally at *
    rcases hwrites with ⟨-, c, -, rfl, hwrites⟩ | ⟨-, rfl, hwrites⟩
    . have hnodup := (List.nodup_append.mp h.active.nodup).2.1
      rw [hwrites, List.filter_append, htally, hdata]
      by_cases hcx : c = x
      . subst hcx
        simp [(List.nodup_cons.mp hnodup).1]
      . simp [hcx, Ne.symm hcx]
    . rw [hwrites, htally, hdata]
  . rcases h.lwip ha hspares hstep with ⟨behind', route', hinv, ⟨hlen, hkeep⟩, hpc, hdata, hwrites⟩
    refine ⟨behind', route', hinv, hdata, ?_, ?_⟩
    . rw [if_neg ha]
      unfold remaining
      rw [hpc]
      split <;> omega
    . intro x hx hx' htally
      unfold Tally at *
      rw [h.active.onActive_iff] at hx
      rw [hinv.active.onActive_iff] at hx'
      simp only [hwrites, hdata, hkeep x hx hx', htally]

theorem Inv.run {s t : Walk Pcb} {acts : List (WalkAct Pcb)} (h : s.Inv behind route)
    (hspares : Along Walk.step Spares s acts) (hrun : Transition.run Walk.step s acts = some t)
    : ∃ behind' route', t.Inv behind' route' ∧ t.data = s.data
        ∧ t.remaining route' + acts.count .task ≤ s.remaining route
        ∧ Along Walk.step WritesActive s acts
        ∧ ∀ x, Along Walk.step (fun s _ => s.lists.OnActive x) s acts → t.lists.OnActive x →
            s.Tally x route → t.Tally x route' := by
  induction acts generalizing s behind route with
  | nil =>
    cases hrun
    exact ⟨behind, route, h, rfl, Nat.le_refl _, trivial, fun _ _ _ htally => htally⟩
  | cons a acts ih =>
    rcases run_cons_eq_some.mp hrun with ⟨s', hs', hrun'⟩
    rcases h.step hspares.1 hs' with ⟨behind₁, route₁, hinv₁, hdata₁, hrem₁, htally₁⟩
    rcases ih hinv₁ (hspares.2 s' hs') hrun'
      with ⟨behind₂, route₂, hinv₂, hdata₂, hrem₂, hwrites₂, htally₂⟩
    refine ⟨behind₂, route₂, hinv₂, hdata₂.trans hdata₁, ?_, ⟨h.writesActive a, ?_⟩, ?_⟩
    . rw [List.count_cons]
      simp only [beq_iff_eq]
      omega
    . intro s'' hs''
      rw [hs', Option.some.injEq] at hs''
      exact hs'' ▸ hwrites₂
    . intro x halong ht htally
      have hrest := halong.2 s' hs'
      have hx : s'.lists.OnActive x := by
        cases acts with
        | nil =>
          cases hrun'
          exact ht
        | cons b acts => exact hrest.1
      apply htally₂ x
      . exact hrest
      . exact ht
      . exact htally₁ x halong.1 hx htally

omit [DecidableEq Pcb] in
theorem start_inv {lists : PcbLists Pcb} {pcbs : List Pcb} (h : lists.Active pcbs)
    (data : List UInt8)
    : (start lists data).Inv [] pcbs :=
  ⟨h, h.list.head, nofun⟩

theorem broadcast_once {lists : PcbLists Pcb} {pcbs : List Pcb} (h : lists.Active pcbs)
    (data : List UInt8) {acts : List (WalkAct Pcb)} {s : Walk Pcb}
    (hrun : run step (start lists data) acts = some s)
    (hspares : Along step Spares (start lists data) acts)
    : Along step WritesActive (start lists data) acts
      ∧ acts.count .task ≤ 4 * pcbs.length + 1
      ∧ (s.pc ≠ .done → ∃ s', s.step .task = some s')
      ∧ (s.pc = .done → ∀ x,
          Along step (fun s _ => s.lists.OnActive x) (start lists data) acts →
          s.lists.OnActive x → s.writes.filter (·.1 = x) = [(x, data)]) := by
  rcases (start_inv h data).run hspares hrun with ⟨behind, route, hinv, hdata, hrem, hwrites, htally⟩
  refine ⟨hwrites, ?_, ?_, ?_⟩
  . simp only [remaining, start] at hrem
    omega
  . exact hinv.task_isSome
  . intro hdone x halong hx
    have hmem : x ∈ pcbs := by
      cases acts with
      | nil =>
        cases hrun
        cases hdone
      | cons a acts => exact h.onActive_iff.mp halong.1
    have hend := htally x halong hx (by simp [Tally, start, hmem])
    unfold Tally at hend
    rw [hend, hinv.done hdone, hdata]
    rfl

def visits (s : Walk Pcb) : List Pcb := s.writes.map Prod.fst

def SameData (data : List UInt8) (s : Walk Pcb) : Prop :=
  s.data = data ∧ s.writes = s.visits.map fun pcb => (pcb, data)

theorem SameData.step {data : List UInt8} {s s' : Walk Pcb} {a : WalkAct Pcb} (h : s.SameData data)
    (hstep : s.step a = some s')
    : s'.SameData data := by
  rcases h with ⟨hdata, hwrites⟩
  cases a with
  | task =>
    simp only [Walk.step, Walk.task] at hstep
    split at hstep
    . split at hstep <;> (cases hstep; exact ⟨hdata, hwrites⟩)
    . rcases Option.map_eq_some_iff.mp hstep with ⟨c, -, rfl⟩
      refine ⟨hdata, ?_⟩
      simp only [visits, List.map_append, List.map_cons, List.map_nil, hdata] at hwrites ⊢
      rw [← hwrites]
    . cases hstep
      exact ⟨hdata, hwrites⟩
    . rcases Option.map_eq_some_iff.mp hstep with ⟨c, -, rfl⟩
      exact ⟨hdata, hwrites⟩
    . cases hstep
  | tcpInput k =>
    rcases Option.map_eq_some_iff.mp hstep with ⟨lists, -, rfl⟩
    exact ⟨hdata, hwrites⟩
  | tcpReg npcb =>
    rcases Option.map_eq_some_iff.mp hstep with ⟨lists, -, rfl⟩
    exact ⟨hdata, hwrites⟩
  | unlink how k =>
    rcases Option.map_eq_some_iff.mp hstep with ⟨lists, -, rfl⟩
    exact ⟨hdata, hwrites⟩

theorem port_pass {size : Nat} {lists : PcbLists Pcb} {acts : List (WalkAct Pcb)} {s : Walk Pcb}
    {p : PortState size Pcb} (hrun : run step (start lists p.port.sendData) acts = some s)
    (hpc : p.pc = .walk s.visits)
    : ∃ p', run PortState.step p (List.replicate (s.visits.length + 1) (.task s.visits)) = some p'
        ∧ p'.pc = .semPend ∧ SerialGateway.writes p'.log = SerialGateway.writes p.log ++ s.writes := by
  have hsame : s.SameData p.port.sendData :=
    Reachable.invariant (fun _ _ _ h hstep => h.step hstep) ⟨rfl, rfl⟩ ⟨acts, hrun⟩
  refine ⟨_, PortState.run_walk p s.visits s.visits hpc, rfl, ?_⟩
  rw [writes_passDone, hsame.2]
  simp [SerialGateway.writes]

def twoConnections : PcbLists Nat where
  next
    | 0 => some 1
    | _ => none
  tcpActivePcbs := some 0
  tcpTwPcbs := none
  spare := [2]

theorem twoConnections_active : twoConnections.Active [0, 1] :=
  ⟨⟨rfl, rfl, rfl⟩, by decide, by decide⟩

def sparedPass : List (WalkAct Nat) :=
  [.task, .task, .tcpReg 2, .task, .task, .unlink .remove 1, .tcpInput 0, .task, .task, .task, .task,
    .task]

def missedPass : List (WalkAct Nat) :=
  [.task, .task, .tcpInput 1, .task, .task, .task]

theorem broadcast_once_sparedPass
    : ∃ s, run step (start twoConnections [0x41]) sparedPass = some s
        ∧ s.pc = .done ∧ s.writes.filter (·.1 = 1) = [(1, [0x41])] := by
  let s := (run step (start twoConnections [0x41]) sparedPass).get (by decide)
  have hrun : run step (start twoConnections [0x41]) sparedPass = some s :=
    (Option.some_get _).symm
  have halong : Along step (fun s _ => s.lists.OnActive 1) (start twoConnections [0x41])
      sparedPass := by
    refine Along.mono (fun s _ h => PcbLists.onActive_of_within 3 h) ?_
    decide
  have hend : s.lists.OnActive 1 := PcbLists.onActive_of_within 3 (by decide)
  rcases broadcast_once twoConnections_active [0x41] hrun (by decide) with ⟨-, -, -, honce⟩
  exact ⟨s, hrun, by decide, honce (by decide) 1 halong hend⟩

theorem not_broadcast_once_missedPass
    : ∃ s, run step (start twoConnections [0x41]) missedPass = some s
        ∧ s.pc = .done
        ∧ Along step (fun s _ => s.lists.OnActive 1) (start twoConnections [0x41]) missedPass
        ∧ s.lists.OnActive 1
        ∧ ¬ s.writes.filter (·.1 = 1) = [(1, [0x41])] := by
  refine ⟨(run step (start twoConnections [0x41]) missedPass).get (by decide),
    (Option.some_get _).symm, by decide, ?_, PcbLists.onActive_of_within 2 (by decide), by decide⟩
  refine Along.mono (fun s _ h => PcbLists.onActive_of_within 2 h) ?_
  decide

end Walk

end SerialGateway
