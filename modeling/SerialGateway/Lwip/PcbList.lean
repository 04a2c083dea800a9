import Mathlib.Data.List.Nodup
import SerialGateway.Lib.Linked

/-!
This module contains the list of active connections of lwIP and what the lwIP thread does to it: the
reordering of `tcp_input`, `TCP_REG`, `TCP_RMV` and the removal in `tcp_slowtmr`.
-/

open Linked

namespace SerialGateway

/--
The `next` fields of the connections and the heads of the two lists. `spare` are the connections that
are on neither list.
-/
structure PcbLists (Pcb : Type) where
  next : Pcb → Option Pcb
  tcpActivePcbs : Option Pcb
  tcpTwPcbs : Option Pcb
  spare : List Pcb

namespace PcbLists

variable {Pcb : Type} [DecidableEq Pcb]

/--
`tcp_input` for a segment of the active connection that has `k` others in front of it.
-/
def tcpInput (h : PcbLists Pcb) (k : Nat) : Option (PcbLists Pcb) :=
  match find h.next k none h.tcpActivePcbs with
  | none => none
  -- the connection is at the front already
  | some (none, _) => some h
  | some (some prev, pcb) =>
    let next := Function.update h.next prev (h.next pcb)
    let next := Function.update next pcb h.tcpActivePcbs
    some { h with next := next, tcpActivePcbs := some pcb }

def tcpReg (h : PcbLists Pcb) (npcb : Pcb) : Option (PcbLists Pcb) :=
  if npcb ∈ h.spare then
    some { h with
      next := Function.update h.next npcb h.tcpActivePcbs
      tcpActivePcbs := some npcb
      spare := h.spare.filter (· ≠ npcb) }
  else
    none

/--
The first half of `TCP_RMV(&tcp_active_pcbs, npcb)` and the removal in `tcp_slowtmr`: the pointer to
the connection is replaced by its successor.
-/
def bypass (h : PcbLists Pcb) (prev : Option Pcb) (npcb : Pcb) : PcbLists Pcb :=
  match prev with
  | none => { h with tcpActivePcbs := h.next npcb }
  | some prev => { h with next := Function.update h.next prev (h.next npcb) }

def tcpRmv (h : PcbLists Pcb) (k : Nat) : Option (Pcb × PcbLists Pcb) :=
  match find h.next k none h.tcpActivePcbs with
  | none => none
  | some (prev, npcb) =>
    let h := h.bypass prev npcb
    some (npcb, { h with next := Function.update h.next npcb none })

def remove (h : PcbLists Pcb) (k : Nat) : Option (PcbLists Pcb) :=
  (h.tcpRmv k).map fun (npcb, h) => { h with spare := npcb :: h.spare }

def timeWait (h : PcbLists Pcb) (k : Nat) : Option (PcbLists Pcb) :=
  (h.tcpRmv k).map fun (npcb, h) =>
    { h with next := Function.update h.next npcb h.tcpTwPcbs, tcpTwPcbs := some npcb }

def slowtmr (h : PcbLists Pcb) (k : Nat) : Option (PcbLists Pcb) :=
  match find h.next k none h.tcpActivePcbs with
  | none => none
  | some (prev, npcb) =>
    let h := h.bypass prev npcb
    -- the `next` field keeps its value
    some { h with spare := npcb :: h.spare }

inductive Unlink where
  | remove
  | timeWait
  | slowtmr
  deriving DecidableEq

def unlink (h : PcbLists Pcb) : Unlink → Nat → Option (PcbLists Pcb)
  | .remove => h.remove
  | .timeWait => h.timeWait
  | .slowtmr => h.slowtmr

def leftNext (h : PcbLists Pcb) (how : Unlink) (x : Pcb) : Option Pcb :=
  match how with
  | .remove => none
  | .timeWait => h.tcpTwPcbs
  | .slowtmr => h.next x

def OnActive (h : PcbLists Pcb) (x : Pcb) : Prop := ∃ k, nth h.next k h.tcpActivePcbs = some x

structure Active (h : PcbLists Pcb) (pcbs : List Pcb) : Prop where
  list : IsList h.next h.tcpActivePcbs pcbs
  nodup : pcbs.Nodup
  spare : ∀ x ∈ h.spare, x ∉ pcbs

variable {h h' : PcbLists Pcb} {pcbs : List Pcb}

omit [DecidableEq Pcb] in
theorem Active.onActive_iff (hact : h.Active pcbs) {x : Pcb} : h.OnActive x ↔ x ∈ pcbs := by
  simp only [OnActive, hact.list.nth_eq, List.mem_iff_getElem?]

omit [DecidableEq Pcb] in
theorem Active.spare_middle {pre post : List Pcb} {x : Pcb} (hact : h.Active (pre ++ x :: post))
    : ∀ y ∈ h.spare, y ∉ pre ++ post := by
  intro y hy hmem
  apply hact.spare y
  . exact hy
  . exact List.perm_middle.mem_iff.mpr (List.mem_cons_of_mem _ hmem)

@[simp]
theorem bypass_spare (h : PcbLists Pcb) (prev : Option Pcb) (x : Pcb)
    : (h.bypass prev x).spare = h.spare := by
  cases prev <;> rfl

@[simp]
theorem bypass_tcpTwPcbs (h : PcbLists Pcb) (prev : Option Pcb) (x : Pcb)
    : (h.bypass prev x).tcpTwPcbs = h.tcpTwPcbs := by
  cases prev <;> rfl

omit [DecidableEq Pcb] in
theorem onActive_of_within {x : Pcb} (n : Nat)
    (hwithin : ∃ k < n, nth h.next k h.tcpActivePcbs = some x)
    : h.OnActive x := by
  rcases hwithin with ⟨k, -, hk⟩
  exact ⟨k, hk⟩

theorem Active.bypass {pre post : List Pcb} {x : Pcb} (hact : h.Active (pre ++ x :: post))
    : IsList (h.bypass pre.getLast? x).next (h.bypass pre.getLast? x).tcpActivePcbs (pre ++ post)
        ∧ ∀ c, c ∉ pre → (h.bypass pre.getLast? x).next c = h.next c := by
  rcases List.eq_nil_or_concat pre with rfl | ⟨b, q, rfl⟩
  . exact ⟨hact.list.2, fun _ _ => rfl⟩
  . have hlist := hact.list
    have hnodup := hact.nodup
    rw [List.concat_eq_append, List.append_assoc, List.singleton_append] at hlist hnodup
    simp only [List.concat_eq_append, List.getLast?_concat, List.append_assoc,
      List.singleton_append, PcbLists.bypass]
    refine ⟨hlist.unlink hnodup, ?_⟩
    intro c hc
    apply Function.update_of_ne
    rintro rfl
    simp at hc

theorem Active.tcpInput (hact : h.Active pcbs) {k : Nat} (hstep : h.tcpInput k = some h')
    : ∃ pre x post, pcbs = pre ++ x :: post ∧ pre.length = k
        ∧ h'.Active (x :: (pre ++ post))
        ∧ ∀ c, c ∉ pcbs → h'.next c = h.next c := by
  unfold PcbLists.tcpInput at hstep
  split at hstep
  . cases hstep
  . next x hfind =>
    cases hstep
    rcases hact.list.find_eq_some hfind with ⟨pre, post, rfl, hlen, hprev⟩
    have hpre : pre = [] := by
      cases pre with
      | nil => rfl
      | cons y pre => simp [List.getLast?_cons] at hprev
    subst hpre
    exact ⟨[], x, post, rfl, hlen, hact, fun _ _ => rfl⟩
  . next prev x hfind =>
    cases hstep
    rcases hact.list.find_eq_some hfind with ⟨pre, post, rfl, hlen, hprev⟩
    rw [Option.or_none] at hprev
    rcases List.nodup_cons.mp (List.nodup_middle.mp hact.nodup) with ⟨hnew, hnodup⟩
    rcases hact.bypass with ⟨hlist, hnext⟩
    rw [← hprev] at hlist hnext
    refine ⟨pre, x, post, rfl, hlen, ⟨hlist.push hnew, List.nodup_cons.mpr ⟨hnew, hnodup⟩, ?_⟩, ?_⟩
    . intro y hy hmem
      apply hact.spare y
      . exact hy
      . exact List.perm_middle.mem_iff.mpr hmem
    . intro c hc
      have hcx : c ≠ x := by
        rintro rfl
        simp at hc
      have hcpre : c ∉ pre := fun hmem => hc (List.mem_append_left _ hmem)
      calc Function.update (h.bypass (some prev) x).next x h.tcpActivePcbs c
          = (h.bypass (some prev) x).next c := Function.update_of_ne hcx _ _
        _ = h.next c := hnext c hcpre

theorem Active.tcpReg (hact : h.Active pcbs) {npcb : Pcb} (hstep : h.tcpReg npcb = some h')
    : npcb ∉ pcbs ∧ h'.Active (npcb :: pcbs) ∧ ∀ c, c ≠ npcb → h'.next c = h.next c := by
  unfold PcbLists.tcpReg at hstep
  split at hstep
  . next hspare =>
    cases hstep
    have hnew := hact.spare npcb hspare
    refine ⟨hnew, ⟨hact.list.push hnew, List.nodup_cons.mpr ⟨hnew, hact.nodup⟩, ?_⟩, ?_⟩
    . intro x hx
      simp only [List.mem_filter, decide_eq_true_eq] at hx
      simp only [List.mem_cons, not_or]
      exact ⟨hx.2, hact.spare x hx.1⟩
    . intro c hc
      apply Function.update_of_ne hc
  . cases hstep

theorem Active.tcpRmv (hact : h.Active pcbs) {k : Nat} {x : Pcb}
    (hstep : h.tcpRmv k = some (x, h'))
    : ∃ pre post, pcbs = pre ++ x :: post ∧ pre.length = k
        ∧ h'.Active (pre ++ post) ∧ h'.next x = none ∧ h'.tcpTwPcbs = h.tcpTwPcbs
        ∧ ∀ c, c ∉ pcbs → h'.next c = h.next c := by
  unfold PcbLists.tcpRmv at hstep
  split at hstep
  . cases hstep
  . next prev y hfind =>
    cases hstep
    rcases hact.list.find_eq_some hfind with ⟨pre, post, rfl, hlen, hprev⟩
    rw [Option.or_none] at hprev
    subst hprev
    rcases List.nodup_cons.mp (List.nodup_middle.mp hact.nodup) with ⟨hgone, hnodup⟩
    rcases hact.bypass with ⟨hlist, hnext⟩
    refine ⟨pre, post, rfl, hlen, ⟨hlist.update hgone none, hnodup, ?_⟩, ?_, by simp, ?_⟩
    . rw [bypass_spare]
      exact hact.spare_middle
    . apply Function.update_self
    . intro c hc
      simp only [List.mem_append, List.mem_cons, not_or] at hc
      calc Function.update (h.bypass pre.getLast? x).next x none c
          = (h.bypass pre.getLast? x).next c := Function.update_of_ne hc.2.1 _ _
        _ = h.next c := hnext c hc.1

theorem Active.unlink (hact : h.Active pcbs) {how : Unlink} {k : Nat}
    (hstep : h.unlink how k = some h')
    : ∃ pre x post, pcbs = pre ++ x :: post ∧ pre.length = k
        ∧ h'.Active (pre ++ post) ∧ h'.next x = h.leftNext how x
        ∧ ∀ c, c ∉ pcbs → h'.next c = h.next c := by
  cases how with
  | remove =>
    rcases Option.map_eq_some_iff.mp hstep with ⟨⟨x, h''⟩, hrmv, rfl⟩
    rcases hact.tcpRmv hrmv with ⟨pre, post, rfl, hlen, hact', hnext, -, hframe⟩
    rcases List.nodup_cons.mp (List.nodup_middle.mp hact.nodup) with ⟨hgone, -⟩
    refine ⟨pre, x, post, rfl, hlen, ⟨hact'.list, hact'.nodup, ?_⟩, hnext, hframe⟩
    exact List.forall_mem_cons.mpr ⟨hgone, hact'.spare⟩
  | timeWait =>
    rcases Option.map_eq_some_iff.mp hstep with ⟨⟨x, h''⟩, hrmv, rfl⟩
    rcases hact.tcpRmv hrmv with ⟨pre, post, rfl, hlen, hact', -, htw, hframe⟩
    rcases List.nodup_cons.mp (List.nodup_middle.mp hact.nodup) with ⟨hgone, -⟩
    refine ⟨pre, x, post, rfl, hlen, ⟨hact'.list.update hgone _, hact'.nodup, hact'.spare⟩, ?_, ?_⟩
    . rw [leftNext, ← htw]
      apply Function.update_self
    . intro c hc
      have hcx : c ≠ x := by
        rintro rfl
        simp at hc
      rw [← hframe c hc]
      apply Function.update_of_ne hcx
  | slowtmr =>
    simp only [PcbLists.unlink, PcbLists.slowtmr] at hstep
    split at hstep
    . cases hstep
    . next prev x hfind =>
      cases hstep
      rcases hact.list.find_eq_some hfind with ⟨pre, post, rfl, hlen, hprev⟩
      rw [Option.or_none] at hprev
      subst hprev
      rcases List.nodup_cons.mp (List.nodup_middle.mp hact.nodup) with ⟨hgone, hnodup⟩
      rcases hact.bypass with ⟨hlist, hnext⟩
      refine ⟨pre, x, post, rfl, hlen, ⟨hlist, hnodup, ?_⟩, ?_, ?_⟩
      . rw [bypass_spare]
        exact List.forall_mem_cons.mpr ⟨hgone, hact.spare_middle⟩
      . exact hnext x fun hmem => hgone (List.mem_append_left _ hmem)
      . intro c hc
        exact hnext c fun hmem => hc (List.mem_append_left _ hmem)

end PcbLists

end SerialGateway
