import Mathlib.Algebra.Ring.Nat

/-!
This module contains the comparison of serial numbers that wrap around: the sign of their difference. It is
the order of the positions the numbers stand for while these lie less than half of the range apart.
-/

namespace SerialNumber

variable {w : Nat} {base a b c : BitVec w} {i j : Nat}

def diff (a b : BitVec w) : Int := (a - b).toInt

def ofPos (base : BitVec w) (i : Nat) : BitVec w := base + BitVec.ofNat w i

theorem ofPos_add (base : BitVec w) (i k : Nat) : ofPos base i + BitVec.ofNat w k = ofPos base (i + k) := by
  rw [ofPos, ofPos, BitVec.add_assoc, BitVec.ofNat_add]

theorem ofPos_sub_ofPos (base : BitVec w) (i j : Nat)
    : ofPos base i - ofPos base j = BitVec.ofNat w i - BitVec.ofNat w j := by
  apply BitVec.sub_eq_iff_eq_add.mpr
  rw [ofPos, ofPos, BitVec.add_comm base (BitVec.ofNat w j), ← BitVec.add_assoc, BitVec.sub_add_cancel,
    BitVec.add_comm]

theorem diff_ofPos (hij : 2 * i < 2 * j + 2 ^ w) (hji : 2 * j ≤ 2 * i + 2 ^ w)
    : diff (ofPos base i) (ofPos base j) = i - j := by
  rw [diff, ofPos_sub_ofPos, BitVec.toInt_sub, BitVec.toInt_ofNat', BitVec.toInt_ofNat', Int.sub_bmod_bmod,
    Int.bmod_sub_bmod]
  apply Int.bmod_eq_of_le_mul_two
  . omega
  . omega

theorem diff_trans (hlo : -(2 ^ w : Nat) ≤ (diff a b + diff b c) * 2)
    (hhi : (diff a b + diff b c) * 2 < (2 ^ w : Nat))
    : diff a c = diff a b + diff b c := by
  have hsub : a - c = (a - b) + (b - c) := by
    rw [BitVec.sub_eq_iff_eq_add, BitVec.add_assoc, BitVec.sub_add_cancel, BitVec.sub_add_cancel]
  rw [diff, hsub, BitVec.toInt_add]
  exact Int.bmod_eq_of_le_mul_two hlo hhi

theorem diff_comm (h : -(2 ^ w : Nat) < diff a b * 2) : diff b a = -diff a b := by
  have hneg : b - a = -(a - b) := by
    rw [BitVec.neg_sub, BitVec.sub_eq_add_neg, BitVec.add_comm]
  have hlt : diff a b * 2 < (2 ^ w : Nat) := by
    have := BitVec.two_mul_toInt_lt (x := a - b)
    unfold diff
    push_cast
    omega
  rw [diff, hneg, BitVec.toInt_neg]
  apply Int.bmod_eq_of_le_mul_two
  . change -_ ≤ -diff a b * 2
    omega
  . change -diff a b * 2 < _
    omega

theorem eq_of_diff_eq_zero (h : diff a b = 0) : a = b := by
  have hzero : a - b = 0#w := BitVec.toInt_inj.mp (by rw [BitVec.toInt_zero]; exact h)
  rw [BitVec.sub_eq_iff_eq_add.mp hzero, BitVec.zero_add]

theorem toNat_sub_ofPos (base : BitVec w) (hle : j ≤ i) (hlt : i < j + 2 ^ w)
    : (ofPos base i - ofPos base j).toNat = i - j := by
  obtain ⟨k, rfl⟩ : ∃ k, i = j + k := ⟨i - j, by omega⟩
  have hsub : ofPos base (j + k) - ofPos base j = BitVec.ofNat w k := by
    apply BitVec.sub_eq_iff_eq_add.mpr
    rw [BitVec.add_comm, ofPos_add]
  rw [hsub, BitVec.toNat_ofNat, Nat.mod_eq_of_lt]
  . omega
  . omega

theorem toNat_sub_ofPos_of_lt (base : BitVec w) (hlt : i < j) (hle : j < i + 2 ^ w)
    : (ofPos base i - ofPos base j).toNat = 2 ^ w - (j - i) := by
  have hneg : ofPos base i - ofPos base j = -(ofPos base j - ofPos base i) := by
    rw [BitVec.neg_sub, BitVec.sub_eq_add_neg, BitVec.add_comm]
  rw [hneg, BitVec.toNat_neg, toNat_sub_ofPos base (Nat.le_of_lt hlt) hle, Nat.mod_eq_of_lt]
  omega

theorem ofPos_inj (hij : i < j + 2 ^ w) (hji : j < i + 2 ^ w) : ofPos base i = ofPos base j ↔ i = j := by
  constructor
  . intro h
    rcases Nat.le_total j i with hle | hle
    . have hsub := toNat_sub_ofPos base hle hij
      rw [h, BitVec.sub_self, BitVec.toNat_zero] at hsub
      omega
    . have hsub := toNat_sub_ofPos base hle hji
      rw [h, BitVec.sub_self, BitVec.toNat_zero] at hsub
      omega
  . rintro rfl
    rfl

end SerialNumber
