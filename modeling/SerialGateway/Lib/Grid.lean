/-!
This module contains the cells of a grid, numbered row by row and from the last row on to the first one again.
-/

namespace Grid

def col (cols n : Nat) : Nat := n % cols

def row (cols rows n : Nat) : Nat := n / cols % rows

variable {cols rows n c r : Nat}

theorem col_lt (h : 0 < cols) : col cols n < cols := Nat.mod_lt n h

theorem row_lt (h : 0 < rows) : row cols rows n < rows := Nat.mod_lt (n / cols) h

theorem col_cell (hc : c < cols) : col cols (r * cols + c) = c := by
  unfold col
  rw [Nat.mul_add_mod_self_right, Nat.mod_eq_of_lt hc]

theorem row_cell (hc : c < cols) (hr : r < rows) : row cols rows (r * cols + c) = r := by
  have hpos : 0 < cols := by omega
  unfold row
  rw [Nat.mul_comm, Nat.mul_add_div hpos, Nat.div_eq_of_lt hc, Nat.add_zero, Nat.mod_eq_of_lt hr]

theorem eq_mul_add_col (cols n : Nat) : n = n / cols * cols + col cols n := by
  unfold col
  rw [Nat.mul_comm]
  exact (Nat.div_add_mod n cols).symm

theorem col_succ_of_lt (h : col cols n + 1 < cols) : col cols (n + 1) = col cols n + 1 := by
  have hn := eq_mul_add_col cols n
  have hsucc : n + 1 = n / cols * cols + (col cols n + 1) := by omega
  rw [hsucc]
  apply col_cell
  exact h

theorem div_succ_of_lt (h : col cols n + 1 < cols) : (n + 1) / cols = n / cols := by
  have hpos : 0 < cols := by omega
  have hn := eq_mul_add_col cols n
  have hsucc : n + 1 = cols * (n / cols) + (col cols n + 1) := by
    rw [Nat.mul_comm]
    omega
  rw [hsucc, Nat.mul_add_div hpos, Nat.div_eq_of_lt h, Nat.add_zero]

theorem row_succ_of_lt (h : col cols n + 1 < cols) : row cols rows (n + 1) = row cols rows n := by
  unfold row
  rw [div_succ_of_lt h]

theorem succ_of_end (h : col cols n + 1 = cols) : n + 1 = (n / cols + 1) * cols := by
  have hn := eq_mul_add_col cols n
  rw [Nat.add_mul, Nat.one_mul]
  omega

theorem col_succ_of_end (h : col cols n + 1 = cols) : col cols (n + 1) = 0 := by
  rw [succ_of_end h]
  apply Nat.mul_mod_left

theorem row_succ_of_end (hpos : 0 < cols) (h : col cols n + 1 = cols)
    : row cols rows (n + 1) = (row cols rows n + 1) % rows := by
  unfold row
  rw [succ_of_end h, Nat.mul_div_cancel _ hpos, Nat.mod_add_mod]

end Grid
