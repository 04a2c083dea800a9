import Mathlib.Logic.Function.Iterate
import Mathlib.Tactic.Linarith
import Mathlib.Tactic.Ring

/-!
This module contains the midpoint algorithm for lines. It goes along the major axis and takes a step on the minor
axis whenever its error term is positive.
-/

namespace Midpoint

def step (up straight : Int) (s : Nat × Int) : Nat × Int :=
  if 0 < s.2 then
    (s.1 + 1, s.2 + up)
  else
    (s.1, s.2 + straight)

/--
`minor` goes from the origin to `(a, b)`, at most by one at a time and never a whole unit off the line.
-/
structure Staircase (a b : Nat) (minor : Nat → Nat) : Prop where
  start : minor 0 = 0
  stop : minor a = b
  step : ∀ k, minor (k + 1) = minor k ∨ minor (k + 1) = minor k + 1
  below : ∀ k, k ≤ a → b * k ≤ a * minor k + a
  above : ∀ k, k ≤ a → a * minor k ≤ b * k + a

theorem step_fst (up straight : Int) (s : Nat × Int)
    : (step up straight s).1 = s.1 ∨ (step up straight s).1 = s.1 + 1 := by
  unfold step
  split
  . apply Or.inr
    rfl
  . apply Or.inl
    rfl

theorem Staircase.mono {a b : Nat} {minor : Nat → Nat} (h : Staircase a b minor) : Monotone minor := by
  apply monotone_nat_of_le_succ
  intro k
  rcases h.step k with hstep | hstep
  . exact Nat.le_of_eq hstep.symm
  . rw [hstep]
    apply Nat.le_succ

theorem Staircase.le {a b : Nat} {minor : Nat → Nat} (h : Staircase a b minor) {k : Nat} (hk : k ≤ a)
    : minor k ≤ b := by
  rw [← h.stop]
  apply h.mono hk

theorem staircase_zero (a : Nat) : Staircase a 0 fun _ => 0 where
  start := rfl
  stop := rfl
  step _ := Or.inl rfl
  below := by simp
  above := by simp

section Error

variable {a b : Int} {s : Nat × Int} {k : Nat}

structure Inv (a b : Int) (k : Nat) (s : Nat × Int) : Prop where
  error : s.2 = 2 * (b * (k + 1)) - 2 * (a * s.1) - a
  lower : 2 * b - 2 * a ≤ s.2
  upper : s.2 ≤ 2 * b

theorem inv_zero (ha : 0 ≤ a) : Inv a b 0 (0, 2 * b - a) where
  error := by simp
  lower := by
    show 2 * b - 2 * a ≤ 2 * b - a
    omega
  upper := by
    show 2 * b - a ≤ 2 * b
    omega

theorem Inv.step (hb : 0 ≤ b) (hba : b ≤ a) (h : Inv a b k s)
    : Inv a b (k + 1) (step (2 * b - 2 * a) (2 * b) s) := by
  have herror := h.error
  have hlower := h.lower
  have hupper := h.upper
  unfold Midpoint.step
  split
  . next hpos =>
    constructor
    . dsimp only
      push_cast
      linarith
    . dsimp only
      omega
    . dsimp only
      omega
  . next hneg =>
    constructor
    . dsimp only
      push_cast
      linarith
    . dsimp only
      omega
    . dsimp only
      omega

theorem inv_iterate (hb : 0 ≤ b) (hba : b ≤ a) (k : Nat)
    : Inv a b k ((Midpoint.step (2 * b - 2 * a) (2 * b))^[k] (0, 2 * b - a)) := by
  induction k with
  | zero =>
    apply inv_zero
    omega
  | succ k ih =>
    rw [Function.iterate_succ_apply']
    apply Inv.step hb hba ih

theorem Inv.near (h : Inv a b k s) : b * k ≤ a * s.1 + a ∧ a * s.1 ≤ b * k + a := by
  have herror := h.error
  have hlower := h.lower
  have hupper := h.upper
  have hdist := Int.mul_add b k 1
  omega

theorem Inv.stop {n : Nat} (ha : 0 < a) (hn : a = n) (h : Inv a b n s) : (s.1 : Int) = b := by
  have herror := h.error
  have hlower := h.lower
  have hupper := h.upper
  rw [← hn] at herror
  apply Int.le_antisymm
  . by_contra hlt
    have hmul : a * (b + 1) ≤ a * s.1 := Int.mul_le_mul_of_nonneg_left (by omega) (by omega)
    linarith
  . by_contra hlt
    have hmul : a * (s.1 + 1) ≤ a * b := Int.mul_le_mul_of_nonneg_left (by omega) (by omega)
    linarith

end Error

theorem staircase_midpoint {a b : Nat} (ha : 0 < a) (hba : b ≤ a)
    : Staircase a b fun k => ((step (2 * b - 2 * a) (2 * b))^[k] (0, 2 * b - a)).1 := by
  have hinv : ∀ k, Inv a b k ((step (2 * b - 2 * a) (2 * b))^[k] (0, 2 * b - a)) := by
    apply inv_iterate
    . omega
    . omega
  constructor
  . rfl
  . have hstop := (hinv a).stop (by omega) rfl
    exact Int.ofNat_inj.mp hstop
  . intro k
    rw [Function.iterate_succ_apply']
    apply step_fst
  . intro k _
    have hnear := (hinv k).near.1
    exact_mod_cast hnear
  . intro k _
    have hnear := (hinv k).near.2
    exact_mod_cast hnear

section Growing

variable {up straight : Int}

theorem iterate_of_pos (hup : 0 ≤ up) (m : Nat) {temp : Int} (htemp : 0 < temp) (k : Nat)
    : (step up straight)^[k] (m, temp) = (m + k, temp + k * up) := by
  induction k with
  | zero => simp
  | succ k ih =>
    have hmul : 0 ≤ (k : Int) * up := by
      apply Int.mul_nonneg
      . omega
      . exact hup
    rw [Function.iterate_succ_apply', ih, step, if_pos]
    . push_cast
      rw [Int.add_mul, Int.one_mul, Nat.add_assoc, Int.add_assoc]
    . dsimp only
      omega

theorem iterate_succ_of_nonpos (hup : 0 ≤ up) (m : Nat) {temp : Int} (htemp : temp ≤ 0)
    (hstraight : 0 < temp + straight) (k : Nat)
    : (step up straight)^[k + 1] (m, temp) = (m + k, temp + straight + k * up) := by
  have hfirst : step up straight (m, temp) = (m, temp + straight) := by
    rw [step, if_neg]
    exact Int.not_lt.mpr htemp
  rw [Function.iterate_succ_apply, hfirst]
  apply iterate_of_pos hup m hstraight

end Growing

section Overshoot

variable {a b e : Nat}

theorem iterate_overshoot (hab : a < b) (he : e = 0 ∧ b < 2 * a ∨ e = 1 ∧ 2 * a ≤ b) {k : Nat} (hk : 0 < k)
    : (step (2 * b - 2 * a) (2 * b))^[k] (0, 2 * a - b) =
        (k - e, 2 * (a : Int) - b + 2 * a * e + k * (2 * b - 2 * a)) := by
  have hup : 0 ≤ 2 * (b : Int) - 2 * a := by omega
  rcases he with ⟨rfl, hlt⟩ | ⟨rfl, hle⟩
  . rw [iterate_of_pos hup 0 (by omega)]
    simp
  . obtain ⟨k, rfl⟩ : ∃ j, k = j + 1 := ⟨k - 1, by omega⟩
    rw [iterate_succ_of_nonpos hup 0 (by omega) (by omega)]
    congr 1
    . omega
    . push_cast
      ring

theorem overshoot_bounds (hab : a < b) (he : e = 0 ∧ b < 2 * a ∨ e = 1 ∧ 2 * a ≤ b) {k : Nat}
    (hk : (b - a) * k ≤ a + b + e * b)
    : 2 * (a : Int) - b ≤ ((step (2 * b - 2 * a) (2 * b))^[k] (0, 2 * a - b)).2
        ∧ ((step (2 * b - 2 * a) (2 * b))^[k] (0, 2 * a - b)).2 ≤ 6 * (a : Int) + 3 * b := by
  rcases Nat.eq_zero_or_pos k with rfl | hpos
  . constructor
    . show 2 * (a : Int) - b ≤ 2 * a - b
      omega
    . show 2 * (a : Int) - b ≤ 6 * a + 3 * b
      omega
  . have hnonneg : 0 ≤ (k : Int) * (2 * b - 2 * a) := by
      apply Int.mul_nonneg
      . omega
      . omega
    have hgrown : (k : Int) * (2 * b - 2 * a) ≤ 2 * (a + b + e * b) := by
      have hcast : ((b - a : Nat) : Int) * k ≤ a + b + e * b := by exact_mod_cast hk
      rw [Nat.cast_sub (Nat.le_of_lt hab)] at hcast
      linarith
    rw [iterate_overshoot hab he hpos]
    rcases he with ⟨rfl, hlt⟩ | ⟨rfl, hle⟩
    . constructor
      . omega
      . omega
    . constructor
      . omega
      . omega

theorem exists_astray (ha : 0 < a) (hab : a < b) (hne : ¬ (a = 1 ∧ b = 2))
    (he : e = 0 ∧ b < 2 * a ∨ e = 1 ∧ 2 * a ≤ b)
    : ∃ k, 0 < k ∧ k ≤ b ∧ (∀ j, j < k → (b - a) * j ≤ a + b + e * b)
        ∧ (a < k - e ∨ a * k + a + b < b * (k - e)) := by
  obtain ⟨d, rfl⟩ : ∃ d, b = a + d := ⟨b - a, by omega⟩
  rw [Nat.add_sub_cancel_left]
  have hd : 0 < d := by omega
  have hle := Nat.mul_div_le (a + (a + d) + e * (a + d)) d
  have hlt := Nat.lt_mul_div_succ (a + (a + d) + e * (a + d)) hd
  generalize (a + (a + d) + e * (a + d)) / d = q at hle hlt
  have hsmall : ∀ j, j < q + 1 → d * j ≤ a + (a + d) + e * (a + d) := by
    intro j hj
    have hmul : d * j ≤ d * q := Nat.mul_le_mul_left d (by omega)
    omega
  rcases Nat.lt_or_ge q (a + d) with hend | hend
  . refine ⟨q + 1, Nat.succ_pos q, hend, hsmall, Or.inr ?_⟩
    rcases he with ⟨rfl, -⟩ | ⟨rfl, -⟩
    . rw [Nat.sub_zero, Nat.add_mul]
      omega
    . rw [Nat.add_sub_cancel, Nat.add_mul, Nat.mul_succ]
      rw [Nat.mul_succ] at hlt
      omega
  . -- The walk comes to its end first.
    refine ⟨a + d, by omega, Nat.le_refl _, ?_, Or.inl ?_⟩
    . intro j hj
      apply hsmall
      omega
    . omega

end Overshoot

end Midpoint
