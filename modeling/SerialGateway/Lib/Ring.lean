import Mathlib.Algebra.Ring.Nat

/-!
This module contains rings of `n` slots that a producer fills and a consumer empties in order. Items
are numbered from the start of the run; item `k` lives in slot `k` modulo `n`.
-/

namespace Ring

variable {n : Nat} [NeZero n]

def slot (n : Nat) [NeZero n] (k : Nat) : Fin n := Fin.ofNat n k

@[simp]
theorem val_slot (k : Nat) : (slot n k).val = k % n := rfl

@[simp]
theorem slot_add_self (k : Nat) : slot n (k + n) = slot n k := by
  apply Fin.ext
  simp

@[simp]
theorem slot_val_add (j k : Nat) : slot n ((slot n j).val + k) = slot n (j + k) := by
  apply Fin.ext
  simp

theorem le_of_slot_eq {lo i j : Nat} (hi : lo ≤ i) (hj : j < lo + n) (h : slot n i = slot n j)
    : j ≤ i := by
  have hmod : j % n = i % n := congrArg Fin.val h.symm
  have hdvd : n ∣ j - i := Nat.dvd_of_mod_eq_zero (Nat.sub_mod_eq_zero_of_mod_eq hmod)
  have hzero : j - i = 0 := Nat.eq_zero_of_dvd_of_lt hdvd (by omega)
  omega

theorem slot_inj {lo i j : Nat} (hi : lo ≤ i) (hi' : i < lo + n) (hj : lo ≤ j) (hj' : j < lo + n)
    (h : slot n i = slot n j)
    : i = j :=
  Nat.le_antisymm (le_of_slot_eq hj hi' h.symm) (le_of_slot_eq hi hj' h)

theorem exists_slot (lo : Nat) (i : Fin n) : ∃ j, lo ≤ j ∧ j < lo + n ∧ slot n j = i := by
  have hn := Nat.pos_of_neZero n
  have hlo := Nat.div_add_mod lo n
  have hlt := Nat.mod_lt lo hn
  have hi := i.isLt
  by_cases h : lo % n ≤ i.val
  . refine ⟨n * (lo / n) + i.val, by omega, by omega, Fin.ext ?_⟩
    rw [val_slot, Nat.mul_add_mod, Nat.mod_eq_of_lt hi]
  . have hnext : n * (lo / n + 1) = n * (lo / n) + n := Nat.mul_succ n _
    refine ⟨n * (lo / n + 1) + i.val, by omega, by omega, Fin.ext ?_⟩
    rw [val_slot, Nat.mul_add_mod, Nat.mod_eq_of_lt hi]

structure Window (full : Fin n → Prop) (lo hi : Nat) : Prop where
  le : lo ≤ hi
  bound : hi ≤ lo + n
  full_iff : ∀ k, lo ≤ k → k < lo + n → (full (slot n k) ↔ k < hi)

variable {full full' : Fin n → Prop} {lo hi : Nat}

theorem Window.full_lo_iff (h : Window full lo hi) : full (slot n lo) ↔ lo < hi :=
  h.full_iff lo (Nat.le_refl lo) (Nat.lt_add_of_pos_right (Nat.pos_of_neZero n))

theorem Window.full_hi_iff (h : Window full lo hi) : full (slot n hi) ↔ hi = lo + n := by
  have hn := Nat.pos_of_neZero n
  rcases Nat.lt_or_eq_of_le h.bound with hlt | heq
  . rw [h.full_iff hi h.le hlt]
    omega
  . rw [heq, slot_add_self, h.full_lo_iff]
    omega

theorem Window.exists_empty_iff (h : Window full lo hi) : (∃ i, ¬ full i) ↔ ¬ full (slot n hi) := by
  refine ⟨?_, fun hempty => ⟨_, hempty⟩⟩
  rintro ⟨i, hempty⟩
  rcases exists_slot lo i with ⟨k, hk, hk', rfl⟩
  rw [h.full_iff k hk hk'] at hempty
  rw [h.full_hi_iff]
  omega

theorem Window.takeWhile_full [DecidablePred full] (h : Window full lo hi)
    : ((List.range n).map fun k => slot n (lo + k)).takeWhile (fun i => full i) =
        (List.range (hi - lo)).map fun k => slot n (lo + k) := by
  have hle := h.le
  have hbound := h.bound
  have hsplit : List.range n =
      List.range (hi - lo) ++ (List.range (n - (hi - lo))).map (hi - lo + ·) := by
    rw [← List.range_add, Nat.add_sub_cancel' (by omega)]
  rw [hsplit, List.map_append, List.takeWhile_append_of_pos]
  . cases hrest : n - (hi - lo) with
    | zero => simp
    | succ m =>
      have hhi : lo + (hi - lo) = hi := by omega
      have hempty := mt h.full_hi_iff.mp (show hi ≠ lo + n by omega)
      simp [List.range_succ_eq_map, hhi, hempty]
  . intro i hmem
    rcases List.mem_map.mp hmem with ⟨k, hk, rfl⟩
    have hlt := List.mem_range.mp hk
    have hfull := (h.full_iff (lo + k) (by omega) (by omega)).mpr (by omega)
    exact decide_eq_true hfull

theorem Window.produce (h : Window full lo hi) (hempty : ¬ full (slot n hi))
    (hfull : full' (slot n hi)) (hother : ∀ i, i ≠ slot n hi → (full' i ↔ full i))
    : Window full' lo (hi + 1) := by
  have hlt : hi < lo + n := by
    have hne := mt h.full_hi_iff.mpr hempty
    have := h.bound
    omega
  refine ⟨Nat.le_succ_of_le h.le, hlt, ?_⟩
  intro k hk hk'
  by_cases heq : k = hi
  . simp [heq, hfull]
  . have hslot : slot n k ≠ slot n hi := fun hslot => heq (slot_inj hk hk' h.le hlt hslot)
    rw [hother _ hslot, h.full_iff k hk hk']
    omega

theorem Window.consume (h : Window full lo hi) (hlt : lo < hi) (hempty : ¬ full' (slot n lo))
    (hother : ∀ i, i ≠ slot n lo → (full' i ↔ full i))
    : Window full' (lo + 1) hi := by
  have hn := Nat.pos_of_neZero n
  have hbound := h.bound
  refine ⟨hlt, by omega, ?_⟩
  intro k hk hk'
  by_cases heq : k = lo + n
  . rw [heq, slot_add_self]
    simp only [hempty, false_iff]
    omega
  . have hk'' : k < lo + n := by omega
    have hslot : slot n k ≠ slot n lo := by
      intro hslot
      have := slot_inj (Nat.le_of_succ_le hk) hk'' (Nat.le_refl lo) (by omega) hslot
      omega
    rw [hother _ hslot, h.full_iff k (Nat.le_of_succ_le hk) hk'']

theorem Window.slot_ne (h : Window full lo hi) {i j : Nat} (hi' : lo ≤ i) (hi'' : i < hi)
    (hj : lo ≤ j) (hj' : j < lo + n) (hne : i ≠ j)
    : slot n i ≠ slot n j := by
  have := h.bound
  exact fun hslot => hne (slot_inj hi' (by omega) hj hj' hslot)

end Ring
