import Mathlib.Data.List.Nodup

/-!
This module contains free lists: the elements of a pool that are available, each listed once.
-/

structure FreeList {α : Type u} (free : List α) (avail : α → Prop) : Prop where
  nodup : free.Nodup
  mem_iff : ∀ x, x ∈ free ↔ avail x

namespace FreeList

variable {α : Type u} {free : List α} {avail avail' : α → Prop} {x : α}

theorem congr (h : FreeList free avail) (havail : ∀ y, avail' y ↔ avail y)
    : FreeList free avail' := by
  constructor
  . exact h.nodup
  . intro y
    rw [h.mem_iff, havail]

theorem head_avail (h : FreeList (x :: free) avail) : avail x :=
  (h.mem_iff x).mp List.mem_cons_self

theorem take (h : FreeList (x :: free) avail) (havail : ∀ y, avail' y ↔ avail y ∧ y ≠ x)
    : FreeList free avail' := by
  rcases List.nodup_cons.mp h.nodup with ⟨hx, hfree⟩
  constructor
  . exact hfree
  . intro y
    rw [havail, ← h.mem_iff, List.mem_cons]
    constructor
    . intro hy
      exact ⟨.inr hy, fun heq => hx (heq ▸ hy)⟩
    . rintro ⟨heq | hy, hne⟩
      . exact absurd heq hne
      . exact hy

theorem put (h : FreeList free avail) (hx : ¬ avail x) (havail : ∀ y, avail' y ↔ avail y ∨ y = x)
    : FreeList (x :: free) avail' := by
  constructor
  . apply List.nodup_cons.mpr
    rw [h.mem_iff]
    exact ⟨hx, h.nodup⟩
  . intro y
    rw [havail, List.mem_cons, h.mem_iff, or_comm]

theorem count_add_count [DecidableEq α] {used : List α} (h : FreeList free (· ∉ used))
    (hused : used.Nodup) (y : α)
    : free.count y + used.count y = 1 := by
  rw [h.nodup.count, hused.count]
  have := h.mem_iff y
  split <;> split <;> simp_all

end FreeList
