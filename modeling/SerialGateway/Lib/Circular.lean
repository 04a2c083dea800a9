import Mathlib.Logic.Function.Basic

/-!
This module contains circular buffers: a first in, first out list kept in the `size` cells from `start`
on, with the oldest item at `out`.
-/

namespace Circular

variable {α : Type u}

def cell (start size out i : Nat) : Nat :=
  if out + i < start + size then out + i else out + i - size

structure Holds (mem : Nat → α) (start size out : Nat) (items : List α) : Prop where
  le : start ≤ out
  lt : out < start + size ∨ size = 0 ∧ out = start
  bound : items.length ≤ size
  item : ∀ i (hi : i < items.length), mem (cell start size out i) = items[i]

variable {mem : Nat → α} {start size out : Nat} {items : List α} {x : α}

theorem holds_nil : Holds mem start size start [] := by
  constructor
  . omega
  . omega
  . simp
  . intro i hi
    cases hi

theorem Holds.cell_zero (h : Holds mem start size out items) : cell start size out 0 = out := by
  have hle := h.le
  have hlt := h.lt
  unfold cell
  split <;> omega

theorem Holds.cell_succ (h : Holds mem start size out items) {i : Nat} (hi : i < size)
    : cell start size out (i + 1) =
        if cell start size out i + 1 = start + size then start else cell start size out i + 1 := by
  have hle := h.le
  have hlt := h.lt
  unfold cell
  split <;> split <;> split <;> omega

theorem cell_cell_one (hle : start ≤ out) (hlt : out < start + size) {i : Nat} (hi : i + 1 ≤ size)
    : cell start size (cell start size out 1) i = cell start size out (i + 1) := by
  unfold cell
  split <;> split <;> split <;> omega

theorem cell_inj {i j : Nat} (hi : i < size) (hj : j < size)
    (h : cell start size out i = cell start size out j)
    : i = j := by
  unfold cell at h
  split at h <;> split at h <;> omega

theorem Holds.push (h : Holds mem start size out items) (hroom : items.length < size) (x : α)
    : Holds (Function.update mem (cell start size out items.length) x) start size out
        (items ++ [x]) := by
  have hle := h.le
  have hlt : out < start + size := by
    have := h.lt
    omega
  constructor
  . exact hle
  . exact .inl hlt
  . simp only [List.length_append, List.length_singleton]
    omega
  . intro i hi
    rw [List.length_append, List.length_singleton] at hi
    by_cases heq : i = items.length
    . subst heq
      simp
    . have hi' : i < items.length := by omega
      rw [List.getElem_append_left hi', Function.update_of_ne]
      . exact h.item i hi'
      . intro hcell
        apply heq
        exact cell_inj (by omega) hroom hcell

theorem Holds.pop (h : Holds mem start size out (x :: items))
    : mem out = x ∧ Holds mem start size (cell start size out 1) items := by
  have hle := h.le
  have hbound := h.bound
  rw [List.length_cons] at hbound
  have hlt : out < start + size := by
    have := h.lt
    omega
  constructor
  . have hitem := h.item 0 (by simp)
    rw [h.cell_zero] at hitem
    exact hitem
  . constructor
    . unfold cell
      split <;> omega
    . left
      unfold cell
      split <;> omega
    . omega
    . intro i hi
      rw [cell_cell_one hle hlt (by omega)]
      apply h.item (i + 1)
      simpa using hi

end Circular
