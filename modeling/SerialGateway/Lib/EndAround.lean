import Mathlib.Data.Nat.ModEq
import Mathlib.Data.Nat.Digits.Defs

/-!
This module contains sums with end-around carry. A sum of words below `m + 1` that adds each carry back in at
the low end is known up to a multiple of `m`, and whether it is zero is known too: that is all about it that
does not depend on the order in which words and carries are added.
-/

namespace EndAround

def Same (m a b : Nat) : Prop := a ≡ b [MOD m] ∧ (a = 0 ↔ b = 0)

variable {m n a b c d : Nat}

theorem Same.refl (m a : Nat) : Same m a a := ⟨rfl, Iff.rfl⟩

theorem Same.symm (h : Same m a b) : Same m b a := ⟨h.1.symm, h.2.symm⟩

theorem Same.trans (h : Same m a b) (h' : Same m b c) : Same m a c := ⟨h.1.trans h'.1, h.2.trans h'.2⟩

theorem Same.add (h : Same m a b) (h' : Same m c d) : Same m (a + c) (b + d) := by
  refine ⟨h.1.add h'.1, ?_⟩
  rw [Nat.add_eq_zero_iff, Nat.add_eq_zero_iff, h.2, h'.2]

theorem Same.mul_left (h : Same m a b) (k : Nat) : Same m (k * a) (k * b) := by
  refine ⟨h.1.mul_left k, ?_⟩
  rw [Nat.mul_eq_zero, Nat.mul_eq_zero, h.2]

theorem Same.of_dvd (h : Same m a b) (hdvd : n ∣ m) : Same n a b := ⟨h.1.of_dvd hdvd, h.2⟩

theorem Same.eq (h : Same m a b) (ha : a ≤ m) (hb : b ≤ m) : a = b := by
  rcases h with ⟨hmod, hzero⟩
  unfold Nat.ModEq at hmod
  rcases Nat.lt_or_eq_of_le ha with hlt | heq
  . rcases Nat.lt_or_eq_of_le hb with hlt' | heq'
    . rwa [Nat.mod_eq_of_lt hlt, Nat.mod_eq_of_lt hlt'] at hmod
    . rw [heq', Nat.mod_self, Nat.mod_eq_of_lt hlt] at hmod
      rw [hzero.mp hmod, hmod]
  . rcases Nat.lt_or_eq_of_le hb with hlt' | heq'
    . rw [heq, Nat.mod_self, Nat.mod_eq_of_lt hlt'] at hmod
      rw [hzero.mpr hmod.symm, hmod.symm]
    . rw [heq, heq']

theorem same_fold (m x : Nat) : Same m (x / (m + 1) + x % (m + 1)) x := by
  have hdiv := Nat.div_add_mod x (m + 1)
  constructor
  . have hmod : (m + 1) * (x / (m + 1)) + x % (m + 1) ≡ 1 * (x / (m + 1)) + x % (m + 1) [MOD m] := by
      apply Nat.ModEq.add_right
      apply Nat.ModEq.mul_right
      exact Nat.add_modEq_left
    rw [hdiv, Nat.one_mul] at hmod
    exact hmod.symm
  . constructor
    . intro hzero
      rw [Nat.add_eq_zero_iff] at hzero
      rwa [hzero.1, hzero.2, Nat.mul_zero, Nat.add_zero, eq_comm] at hdiv
    . intro hzero
      rw [hzero, Nat.zero_div, Nat.zero_mod]

theorem same_carry (ha : a ≤ m) (hb : b ≤ m)
    : Same m (if (a + b) % (m + 1) < a then (a + b) % (m + 1) + 1 else (a + b) % (m + 1)) (a + b) := by
  have hfold := same_fold m (a + b)
  rcases Nat.lt_or_ge (a + b) (m + 1) with hlt | hge
  . rw [Nat.mod_eq_of_lt hlt, if_neg (Nat.not_lt.mpr (Nat.le_add_right a b))]
    exact Same.refl m _
  . have hdiv : (a + b) / (m + 1) = 1 := Nat.div_eq_of_lt_le (by omega) (by omega)
    have hmod : (a + b) % (m + 1) = a + b - (m + 1) := by
      rw [Nat.mod_eq_sub_mod hge, Nat.mod_eq_of_lt (by omega)]
    rw [if_pos (by omega), Nat.add_comm]
    rwa [hdiv] at hfold

theorem Same.add_sub (h : Same m a c) (hc : c ≤ m) (hm : 0 < m) : Same m (a + (m - c)) m := by
  constructor
  . have hadd := h.1.add_right (m - c)
    rwa [Nat.add_sub_cancel' hc] at hadd
  . constructor
    . intro hzero
      have hc0 := h.2.mp (Nat.eq_zero_of_add_eq_zero_right hzero)
      omega
    . intro hzero
      omega

section Digits

variable (hbase : m + 1 = n * n)

include hbase

theorem same_mul_mul (x : Nat) : Same m (n * (n * x)) x := by
  rw [← Nat.mul_assoc, ← hbase]
  refine ⟨?_, ?_⟩
  . have hmod : (m + 1) * x ≡ 1 * x [MOD m] := Nat.ModEq.mul_right x Nat.add_modEq_left
    rwa [Nat.one_mul] at hmod
  . rw [Nat.mul_eq_zero]
    omega

theorem same_pow (k x : Nat) : Same m (n ^ k * x) (if k % 2 = 0 then x else n * x) := by
  induction k using Nat.twoStepInduction with
  | zero => rw [Nat.pow_zero, Nat.one_mul]; exact Same.refl m x
  | one => rw [Nat.pow_one]; exact Same.refl m _
  | more k ih =>
    have hpow : n ^ (k + 2) * x = n * (n * (n ^ k * x)) := by
      rw [Nat.pow_add, Nat.pow_two]
      ac_rfl
    rw [hpow, Nat.add_mod_right]
    exact (same_mul_mul hbase _).trans ih

theorem same_pow_of_parity {j k : Nat} (h : j % 2 = k % 2) (x : Nat) : Same m (n ^ j * x) (n ^ k * x) := by
  have hj := same_pow hbase j x
  rw [h] at hj
  exact hj.trans (same_pow hbase k x).symm

theorem same_swap (x : Nat) : Same m (x % n * n + x / n) (n * x) := by
  have hn : 0 < n := Nat.pos_of_ne_zero (by rintro rfl; omega)
  have hfold := same_fold m (n * x)
  rw [hbase, Nat.mul_div_mul_left x n hn, Nat.mul_mod_mul_left, Nat.mul_comm n (x % n), Nat.add_comm] at hfold
  exact hfold

end Digits

end EndAround
