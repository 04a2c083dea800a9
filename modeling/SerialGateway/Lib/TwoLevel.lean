import Mathlib.Logic.Function.Basic

/-!
This module contains sets of the numbers below `w * w` as bitmaps of two levels: a row of `w` bits for each `w`
numbers and a group of `w` bits that tells which rows are not empty.
-/

structure TwoLevel (w : Nat) where
  grp : BitVec w
  tbl : Nat → BitVec w
  grp_iff : ∀ y, y < w → (grp.getLsbD y = true ↔ tbl y ≠ 0)

namespace TwoLevel

theorem getLsbD_bit (w i j : Nat) : (1#w <<< i).getLsbD j = (decide (i < w) && decide (i = j)) := by
  rw [← BitVec.twoPow_eq, BitVec.getLsbD_twoPow]

theorem ne_zero_iff_exists {w : Nat} {v : BitVec w} : v ≠ 0 ↔ ∃ i, i < w ∧ v.getLsbD i = true := by
  constructor
  . intro h
    have hbit := BitVec.getLsbD_true_ctz_of_ne_zero h
    exact ⟨v.ctz.toNat, BitVec.lt_of_getLsbD hbit, hbit⟩
  . rintro ⟨i, hi, hbit⟩ rfl
    simp at hbit

variable {w : Nat} {s : TwoLevel w} {p q : Nat}

instance : Membership Nat (TwoLevel w) where
  mem s p := p < w * w ∧ (s.tbl (p / w)).getLsbD (p % w) = true

theorem mem_def : p ∈ s ↔ p < w * w ∧ (s.tbl (p / w)).getLsbD (p % w) = true := Iff.rfl

instance : Decidable (p ∈ s) := inferInstanceAs (Decidable (_ ∧ _))

def empty (w : Nat) : TwoLevel w where
  grp := 0
  tbl _ := 0
  grp_iff := by simp

def insert (s : TwoLevel w) (p : Nat) : TwoLevel w where
  grp := s.grp ||| 1#w <<< (p / w)
  tbl := Function.update s.tbl (p / w) (s.tbl (p / w) ||| 1#w <<< (p % w))
  grp_iff := by
    intro y hy
    rw [BitVec.getLsbD_or, getLsbD_bit]
    by_cases hrow : p / w = y
    . subst hrow
      have hbit : p % w < w := Nat.mod_lt p (Nat.lt_of_le_of_lt (Nat.zero_le _) hy)
      rw [Function.update_self]
      apply iff_of_true
      . simp [hy]
      . rw [ne_zero_iff_exists]
        refine ⟨p % w, hbit, ?_⟩
        rw [BitVec.getLsbD_or, getLsbD_bit]
        simp [hbit]
    . rw [Function.update_of_ne (Ne.symm hrow), ← s.grp_iff y hy]
      simp [hrow]

def remove (s : TwoLevel w) (p : Nat) : TwoLevel w where
  grp := if s.tbl (p / w) &&& ~~~(1#w <<< (p % w)) = 0 then s.grp &&& ~~~(1#w <<< (p / w)) else s.grp
  tbl := Function.update s.tbl (p / w) (s.tbl (p / w) &&& ~~~(1#w <<< (p % w)))
  grp_iff := by
    intro y hy
    by_cases hrow : p / w = y
    . subst hrow
      rw [Function.update_self]
      split
      . next hempty =>
        apply iff_of_false
        . rw [BitVec.getLsbD_and, BitVec.getLsbD_not, getLsbD_bit]
          simp [hy]
        . exact not_not_intro hempty
      . next hrest =>
        apply iff_of_true _ hrest
        rw [s.grp_iff _ hy]
        intro hzero
        apply hrest
        simp [hzero]
    . rw [Function.update_of_ne (Ne.symm hrow), ← s.grp_iff y hy]
      split
      . rw [BitVec.getLsbD_and, BitVec.getLsbD_not, getLsbD_bit]
        simp [hy, hrow]
      . rfl

def first (s : TwoLevel w) : Nat := s.grp.ctz.toNat * w + (s.tbl s.grp.ctz.toNat).ctz.toNat

@[simp]
theorem not_mem_empty : ¬ p ∈ empty w := by
  simp [mem_def, empty]

theorem div_lt_of_lt (hp : p < w * w) : p / w < w := Nat.div_lt_of_lt_mul hp

theorem mod_lt_of_lt (hp : p < w * w) : p % w < w := by
  apply Nat.mod_lt
  apply Nat.pos_of_ne_zero
  rintro rfl
  omega

theorem div_row {x y : Nat} (hx : x < w) : (y * w + x) / w = y := by
  have hpos : 0 < w := by omega
  rw [Nat.mul_comm, Nat.mul_add_div hpos, Nat.div_eq_of_lt hx, Nat.add_zero]

theorem mod_row {x y : Nat} (hx : x < w) : (y * w + x) % w = x := by
  rw [Nat.mul_add_mod_self_right, Nat.mod_eq_of_lt hx]

theorem row_lt {x y : Nat} (hy : y < w) (hx : x < w) : y * w + x < w * w := by
  calc
    y * w + x < y * w + w := by omega
    _ = (y + 1) * w := by rw [Nat.add_mul, Nat.one_mul]
    _ ≤ w * w := Nat.mul_le_mul_right w hy

theorem eq_of_div_mod (hdiv : p / w = q / w) (hmod : p % w = q % w) : p = q := by
  rw [← Nat.div_add_mod p w, ← Nat.div_add_mod q w, hdiv, hmod]

@[simp]
theorem mem_insert (hp : p < w * w) : q ∈ s.insert p ↔ q = p ∨ q ∈ s := by
  rw [mem_def, mem_def]
  by_cases hrow : q / w = p / w
  . simp only [insert, hrow, Function.update_self, BitVec.getLsbD_or, getLsbD_bit,
      mod_lt_of_lt hp, decide_true, Bool.true_and, Bool.or_eq_true, decide_eq_true_eq]
    constructor
    . rintro ⟨hlt, hbit | hbit⟩
      . exact .inr ⟨hlt, hbit⟩
      . exact .inl (eq_of_div_mod hrow hbit.symm)
    . rintro (rfl | ⟨hlt, hbit⟩)
      . exact ⟨hp, .inr rfl⟩
      . exact ⟨hlt, .inl hbit⟩
  . have hne : q ≠ p := by
      rintro rfl
      contradiction
    simp only [insert, Function.update_of_ne hrow, hne, false_or]

@[simp]
theorem mem_remove (hp : p < w * w) : q ∈ s.remove p ↔ q ≠ p ∧ q ∈ s := by
  rw [mem_def, mem_def]
  by_cases hrow : q / w = p / w
  . simp only [remove, hrow, Function.update_self, BitVec.getLsbD_and, BitVec.getLsbD_not,
      getLsbD_bit, mod_lt_of_lt hp, decide_true, Bool.true_and, Bool.and_eq_true,
      Bool.not_eq_true', decide_eq_false_iff_not, decide_eq_true_eq]
    constructor
    . rintro ⟨hlt, hbit, -, hmod⟩
      refine ⟨?_, hlt, hbit⟩
      rintro rfl
      exact hmod rfl
    . rintro ⟨hne, hlt, hbit⟩
      refine ⟨hlt, hbit, mod_lt_of_lt hlt, ?_⟩
      intro hmod
      exact hne (eq_of_div_mod hrow hmod.symm)
  . have hne : q ≠ p := by
      rintro rfl
      contradiction
    simp only [remove, Function.update_of_ne hrow, ne_eq, hne, not_false_eq_true, true_and]

theorem grp_eq_zero_iff : s.grp = 0 ↔ ∀ p, ¬ p ∈ s := by
  constructor
  . intro hgrp p hp
    have hrow := div_lt_of_lt hp.1
    have hbit : s.grp.getLsbD (p / w) = true := by
      rw [s.grp_iff _ hrow, ne_zero_iff_exists]
      exact ⟨p % w, mod_lt_of_lt hp.1, hp.2⟩
    rw [hgrp] at hbit
    simp at hbit
  . intro hempty
    apply Decidable.byContradiction
    intro hgrp
    obtain ⟨y, hy, hbit⟩ := ne_zero_iff_exists.mp hgrp
    obtain ⟨x, hx, hrow⟩ := ne_zero_iff_exists.mp ((s.grp_iff y hy).mp hbit)
    apply hempty (y * w + x)
    rw [mem_def, div_row hx, mod_row hx]
    exact ⟨row_lt hy hx, hrow⟩

theorem grp_ne_zero (hp : p ∈ s) : s.grp ≠ 0 := by
  intro hgrp
  exact grp_eq_zero_iff.mp hgrp p hp

theorem first_mem (h : s.grp ≠ 0) : s.first ∈ s := by
  have hbit := BitVec.getLsbD_true_ctz_of_ne_zero h
  have hy := BitVec.lt_of_getLsbD hbit
  have hrow := (s.grp_iff _ hy).mp hbit
  have hbit' := BitVec.getLsbD_true_ctz_of_ne_zero hrow
  have hx := BitVec.lt_of_getLsbD hbit'
  unfold first
  rw [mem_def, div_row hx, mod_row hx]
  exact ⟨row_lt hy hx, hbit'⟩

theorem first_le (hp : p ∈ s) : s.first ≤ p := by
  have hbit : s.grp.getLsbD (p / w) = true := by
    rw [s.grp_iff _ (div_lt_of_lt hp.1), ne_zero_iff_exists]
    exact ⟨p % w, mod_lt_of_lt hp.1, hp.2⟩
  have hy : s.grp.ctz.toNat ≤ p / w := by
    apply Nat.not_lt.mp
    intro hlt
    rw [BitVec.getLsbD_false_of_lt_ctz hlt] at hbit
    contradiction
  have hlow := BitVec.lt_of_getLsbD (BitVec.getLsbD_true_ctz_of_ne_zero (grp_ne_zero hp))
  have hrow := (s.grp_iff _ hlow).mp (BitVec.getLsbD_true_ctz_of_ne_zero (grp_ne_zero hp))
  have hx := BitVec.lt_of_getLsbD (BitVec.getLsbD_true_ctz_of_ne_zero hrow)
  have hdiv := Nat.div_add_mod p w
  unfold first
  rcases Nat.lt_or_eq_of_le hy with hlt | heq
  . have hmul : (s.grp.ctz.toNat + 1) * w ≤ p / w * w := Nat.mul_le_mul_right w hlt
    rw [Nat.add_mul, Nat.one_mul, Nat.mul_comm (p / w)] at hmul
    omega
  . have hxle : (s.tbl s.grp.ctz.toNat).ctz.toNat ≤ p % w := by
      apply Nat.not_lt.mp
      intro hlt
      have hbit' := hp.2
      rw [← heq, BitVec.getLsbD_false_of_lt_ctz hlt] at hbit'
      contradiction
    rw [heq] at hxle ⊢
    rw [Nat.mul_comm]
    omega

theorem first_eq_iff (h : s.grp ≠ 0) : s.first = p ↔ p ∈ s ∧ ∀ q, q ∈ s → p ≤ q := by
  constructor
  . rintro rfl
    exact ⟨first_mem h, fun q hq => first_le hq⟩
  . rintro ⟨hp, hmin⟩
    apply Nat.le_antisymm
    . exact first_le hp
    . exact hmin _ (first_mem h)

end TwoLevel
