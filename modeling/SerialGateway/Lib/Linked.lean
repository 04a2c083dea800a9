import Mathlib.Logic.Function.Basic

/-!
This module contains singly linked lists in a heap that maps each node to its successor: the sequence
of nodes a pointer leads to, the search loop that carries the previous node along, and what inserting
and unlinking a node does to the sequence.
-/

namespace Linked

variable {α : Type u}

def IsList (next : α → Option α) : Option α → List α → Prop
  | p, [] => p = none
  | p, x :: xs => p = some x ∧ IsList next (next x) xs

def nth (next : α → Option α) : Nat → Option α → Option α
  | _, none => none
  | 0, some x => some x
  | k + 1, some x => nth next k (next x)

def find (next : α → Option α) : Nat → Option α → Option α → Option (Option α × α)
  | _, _, none => none
  | 0, prev, some x => some (prev, x)
  | k + 1, _, some x => find next k (some x) (next x)

variable {next : α → Option α} {p : Option α} {x q : α} {xs ys : List α}

theorem IsList.head (h : IsList next p xs) : p = xs.head? := by
  cases xs with
  | nil => exact h
  | cons x xs => exact h.1

theorem IsList.append (h : IsList next p (xs ++ ys)) : IsList next ys.head? ys := by
  induction xs generalizing p with
  | nil =>
    have hhead := h.head
    rw [List.nil_append] at hhead
    exact hhead ▸ h
  | cons x xs ih => exact ih h.2

theorem IsList.next_eq (h : IsList next p (xs ++ x :: ys)) : next x = ys.head? :=
  (h.append).2.head

theorem IsList.nth_eq (h : IsList next p xs) (k : Nat) : nth next k p = xs[k]? := by
  induction xs generalizing p k with
  | nil =>
    rw [h]
    cases k <;> rfl
  | cons x xs ih =>
    rw [h.1]
    cases k with
    | zero => rfl
    | succ k => exact ih h.2 k

theorem IsList.find_eq_some (h : IsList next p xs) {k : Nat} {prev prev' : Option α}
    (hfind : find next k prev p = some (prev', x))
    : ∃ pre post, xs = pre ++ x :: post ∧ pre.length = k ∧ prev' = pre.getLast?.or prev := by
  induction xs generalizing p k prev with
  | nil =>
    rw [h] at hfind
    cases k <;> simp [find] at hfind
  | cons y xs ih =>
    rw [h.1] at hfind
    cases k with
    | zero =>
      simp only [find, Option.some.injEq, Prod.mk.injEq] at hfind
      exact ⟨[], xs, by simp [hfind.2], rfl, by simp [hfind.1]⟩
    | succ k =>
      rcases ih h.2 hfind with ⟨pre, post, hxs, hlen, hprev⟩
      refine ⟨y :: pre, post, by simp [hxs], by simp [hlen], ?_⟩
      rw [hprev, List.getLast?_cons]
      cases pre.getLast? <;> simp

variable [DecidableEq α]

theorem IsList.update (h : IsList next p xs) (hx : x ∉ xs) (v : Option α)
    : IsList (Function.update next x v) p xs := by
  induction xs generalizing p with
  | nil => exact h
  | cons y xs ih =>
    rw [List.mem_cons, not_or] at hx
    refine ⟨h.1, ?_⟩
    rw [Function.update_of_ne (Ne.symm hx.1)]
    exact ih h.2 hx.2

theorem IsList.push (h : IsList next p xs) (hx : x ∉ xs)
    : IsList (Function.update next x p) (some x) (x :: xs) := by
  refine ⟨rfl, ?_⟩
  rw [Function.update_self]
  exact h.update hx p

theorem IsList.unlink (h : IsList next p (xs ++ q :: x :: ys)) (hnodup : (xs ++ q :: x :: ys).Nodup)
    : IsList (Function.update next q (next x)) p (xs ++ q :: ys) := by
  induction xs generalizing p with
  | nil =>
    simp only [List.nil_append, List.nodup_cons, List.mem_cons, not_or] at hnodup
    refine ⟨h.1, ?_⟩
    rw [Function.update_self]
    apply h.2.2.update hnodup.1.2
  | cons y xs ih =>
    simp only [List.cons_append, List.nodup_cons] at hnodup
    have hne : y ≠ q := by
      rintro rfl
      apply hnodup.1
      simp
    refine ⟨h.1, ?_⟩
    rw [Function.update_of_ne hne]
    exact ih h.2 hnodup.2

end Linked
