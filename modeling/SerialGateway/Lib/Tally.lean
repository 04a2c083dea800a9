import Mathlib.Logic.Function.Basic

/-!
This module contains the number of indices below a bound at which a function has a property.
-/

def tally (n : Nat) (P : α → Bool) (f : Nat → α) : Nat := (List.range n).countP fun i => P (f i)

variable {n : Nat} {P : α → Bool} {f g : Nat → α}

@[simp]
theorem tally_zero : tally 0 P f = 0 := rfl

theorem tally_succ : tally (n + 1) P f = tally n P f + if P (f n) then 1 else 0 := by
  simp [tally, List.range_succ, List.countP_append, List.countP_singleton]

theorem tally_congr (h : ∀ i, i < n → P (f i) = P (g i)) : tally n P f = tally n P g := by
  induction n with
  | zero => rfl
  | succ n ih =>
    rw [tally_succ, tally_succ, h n (Nat.lt_succ_self n), ih]
    intro i hi
    exact h i (Nat.lt_succ_of_lt hi)

theorem tally_update {i : Nat} {v : α} (hi : i < n)
    : tally n P (Function.update f i v) + (if P (f i) then 1 else 0) = tally n P f + if P v then 1 else 0 := by
  induction n with
  | zero => contradiction
  | succ n ih =>
    rw [tally_succ, tally_succ]
    by_cases heq : i = n
    . subst heq
      rw [Function.update_self, tally_congr (f := Function.update f i v) (g := f)]
      . omega
      . intro j hj
        rw [Function.update_of_ne (Nat.ne_of_lt hj)]
    . rw [Function.update_of_ne (Ne.symm heq)]
      have hrest := ih (Nat.lt_of_le_of_ne (Nat.le_of_lt_succ hi) heq)
      omega

theorem tally_eq_zero_iff : tally n P f = 0 ↔ ∀ i, i < n → P (f i) = false := by
  unfold tally
  rw [List.countP_eq_zero]
  simp
