import Mathlib.Algebra.Order.Field.Rat
import Mathlib.Tactic.Linarith
import Mathlib.Algebra.Order.Ring.Abs
import Mathlib.Algebra.Order.Field.Basic
import Mathlib.Data.List.Range
import Mathlib.Data.Nat.Dist
import SerialGateway.Glcd.Screen
import SerialGateway.Lib.Midpoint

/-!
This module contains the drawing of lines (`LCD_DrawLine` of `GLCD.c`).
-/

namespace SerialGateway

def straightLoop (plot : UInt16 → SetPoint) (stop : UInt16) : Nat → UInt16 → Option (List SetPoint)
  | 0, _ => none
  | fuel + 1, pos =>
    if stop ≥ pos + 1 then
      match straightLoop plot stop fuel (pos + 1) with
      | none => none
      | some points => some (plot pos :: points)
    else
      some [plot pos]

/--
What a pass of Bresenham's loop does to the minor coordinate and `temp`. The sum is an `int` and is cut off by
the assignment.
-/
def lineStep (up straight : Int) (s : UInt16 × Int16) : UInt16 × Int16 :=
  if s.2 > 0 then
    (s.1 + 1, Int16.ofInt (s.2.toInt + up))
  else
    (s.1, Int16.ofInt (s.2.toInt + straight))

def lineLoop (plot : UInt16 → UInt16 → SetPoint) (stop : UInt16) (up straight : Int)
    : Nat → UInt16 → UInt16 × Int16 → Option (List SetPoint)
  | 0, _, _ => none
  | fuel + 1, major, s =>
    if major ≠ stop then
      match lineLoop plot stop up straight fuel (major + 1) (lineStep up straight s) with
      | none => none
      | some points => some (plot major s.1 :: points)
    else
      some [plot major s.1]

def drawLine (x0 y0 x1 y1 color : UInt16) (fuel : Nat) : Option (List SetPoint) :=
  let (x0, x1) := if x0 > x1 then (x1, x0) else (x0, x1)
  let (y0, y1) := if y0 > y1 then (y1, y0) else (y0, y1)
  let dx := Int16.ofInt (x1.toNat - x0.toNat)
  let dy := Int16.ofInt (y1.toNat - y0.toNat)
  if dx = 0 then
    straightLoop (fun y => ⟨x0, y, color⟩) y1 fuel y0
  else if dy = 0 then
    straightLoop (fun x => ⟨x, y0, color⟩) x1 fuel x0
  else if dx > dy then
    let temp := Int16.ofInt (2 * dy.toInt - dx.toInt)
    lineLoop (fun x y => ⟨x, y, color⟩) x1 (2 * dy.toInt - 2 * dx.toInt) (2 * dy.toInt) fuel x0 (y0, temp)
  else
    let temp := Int16.ofInt (2 * dx.toInt - dy.toInt)
    lineLoop (fun y x => ⟨x, y, color⟩) y1 (2 * dy.toInt - 2 * dx.toInt) (2 * dy.toInt) fuel y0 (x0, temp)

def Adjacent (p q : SetPoint) : Prop :=
  p.xpos.toNat ≤ q.xpos.toNat + 1 ∧ q.xpos.toNat ≤ p.xpos.toNat + 1
    ∧ p.ypos.toNat ≤ q.ypos.toNat + 1 ∧ q.ypos.toNat ≤ p.ypos.toNat + 1

def Near (x0 y0 x1 y1 : UInt16) (p : SetPoint) : Prop :=
  ∃ t : ℚ, 0 ≤ t ∧ t ≤ 1
    ∧ ((p.xpos.toNat : ℚ) - (x0.toNat + t * ((x1.toNat : ℚ) - x0.toNat))) ^ 2
      + ((p.ypos.toNat : ℚ) - (y0.toNat + t * ((y1.toNat : ℚ) - y0.toNat))) ^ 2 ≤ 1

structure Draws (x0 y0 x1 y1 : UInt16) (points : List SetPoint) : Prop where
  start : ∃ p ∈ points, p.xpos = x0 ∧ p.ypos = y0
  stop : ∃ p ∈ points, p.xpos = x1 ∧ p.ypos = y1
  inBox : ∀ p ∈ points, (min x0.toNat x1.toNat ≤ p.xpos.toNat ∧ p.xpos.toNat ≤ max x0.toNat x1.toNat)
    ∧ min y0.toNat y1.toNat ≤ p.ypos.toNat ∧ p.ypos.toNat ≤ max y0.toNat y1.toNat
  chain : points.IsChain Adjacent
  near : ∀ p ∈ points, Near x0 y0 x1 y1 p

/--
The lines that `LCD_DrawLine` draws: those along an axis, and those on which both coordinates rise or both fall and
which are not steep, or only one pixel wide and two pixels high.
-/
def Drawable (x0 y0 x1 y1 : UInt16) : Prop :=
  x0 = x1 ∨ y0 = y1
    ∨ ((x0 < x1 ↔ y0 < y1)
      ∧ (Nat.dist y0.toNat y1.toNat ≤ Nat.dist x0.toNat x1.toNat
        ∨ Nat.dist x0.toNat x1.toNat = 1 ∧ Nat.dist y0.toNat y1.toNat = 2))

instance (x0 y0 x1 y1 : UInt16) : Decidable (Drawable x0 y0 x1 y1) :=
  inferInstanceAs (Decidable (_ ∨ _ ∨ _))

def DrawsSegment (x0 y0 x1 y1 color : UInt16) : Prop :=
  ∃ fuel points, drawLine x0 y0 x1 y1 color fuel = some points ∧ Draws x0 y0 x1 y1 points

variable {plot : UInt16 → SetPoint} {plotAt : UInt16 → UInt16 → SetPoint} {stop : UInt16} {up straight : Int}
  {n : Nat}

theorem toNat_succ_of_lt {pos : UInt16} (h : pos.toNat < 65535) : (pos + 1).toNat = pos.toNat + 1 := by
  rw [UInt16.toNat_add]
  show (pos.toNat + 1) % 65536 = _
  omega

theorem map_range_next {α : Type} (plot : UInt16 → Nat → α) (pos : UInt16) (n : Nat)
    : plot pos 0 :: (List.range (n + 1)).map (fun k => plot (pos + 1 + UInt16.ofNat k) (k + 1)) =
        (List.range (n + 1 + 1)).map fun k => plot (pos + UInt16.ofNat k) k := by
  rw [List.range_succ_eq_map (n := n + 1), List.map_cons, List.map_map, List.cons_eq_cons]
  constructor
  . show _ = plot (pos + 0) 0
    rw [UInt16.add_zero]
  . apply List.map_congr_left
    intro k _
    show _ = plot (pos + UInt16.ofNat (k + 1)) (k + 1)
    rw [UInt16.ofNat_add, UInt16.add_assoc, UInt16.add_comm 1]
    rfl

theorem straightLoop_eq {pos : UInt16} (hn : stop.toNat = pos.toNat + n) (hstop : stop.toNat < 65535) (fuel : Nat)
    : straightLoop plot stop fuel pos =
        if n < fuel then
          some ((List.range (n + 1)).map fun k => plot (pos + UInt16.ofNat k))
        else
          none := by
  induction n generalizing pos fuel with
  | zero =>
    cases fuel with
    | zero => rfl
    | succ fuel =>
      have hnext : (pos + 1).toNat = pos.toNat + 1 := toNat_succ_of_lt (by omega)
      have hend : ¬ stop ≥ pos + 1 := by
        rw [ge_iff_le, UInt16.le_iff_toNat_le, hnext]
        omega
      rw [straightLoop, if_neg hend, if_pos (Nat.zero_lt_succ fuel)]
      simp
  | succ n ih =>
    cases fuel with
    | zero => rfl
    | succ fuel =>
      have hnext : (pos + 1).toNat = pos.toNat + 1 := toNat_succ_of_lt (by omega)
      have hmore : stop ≥ pos + 1 := by
        rw [ge_iff_le, UInt16.le_iff_toNat_le, hnext]
        omega
      rw [straightLoop, if_pos hmore, ih (by omega)]
      by_cases hfuel : n < fuel
      . rw [if_pos hfuel, if_pos (Nat.succ_lt_succ hfuel), ← map_range_next fun pos _ => plot pos]
      . rw [if_neg hfuel, if_neg fun h => hfuel (Nat.lt_of_succ_lt_succ h)]

theorem lineLoop_eq {major : UInt16} (hn : stop.toNat = major.toNat + n) (s : UInt16 × Int16) (fuel : Nat)
    : lineLoop plotAt stop up straight fuel major s =
        if n < fuel then
          some ((List.range (n + 1)).map fun k =>
            plotAt (major + UInt16.ofNat k) ((lineStep up straight)^[k] s).1)
        else
          none := by
  induction n generalizing major s fuel with
  | zero =>
    cases fuel with
    | zero => rfl
    | succ fuel =>
      have hend : ¬ major ≠ stop := by
        rw [ne_eq, ← UInt16.toNat_inj]
        omega
      rw [lineLoop, if_neg hend, if_pos (Nat.zero_lt_succ fuel)]
      simp
  | succ n ih =>
    cases fuel with
    | zero => rfl
    | succ fuel =>
      have hstop := stop.toNat_lt
      have hnext : (major + 1).toNat = major.toNat + 1 := toNat_succ_of_lt (by omega)
      have hmore : major ≠ stop := by
        rw [ne_eq, ← UInt16.toNat_inj]
        omega
      rw [lineLoop, if_pos hmore, ih (by omega)]
      by_cases hfuel : n < fuel
      . rw [if_pos hfuel, if_pos (Nat.succ_lt_succ hfuel),
          ← map_range_next fun pos k => plotAt pos ((lineStep up straight)^[k] s).1]
        rfl
      . rw [if_neg hfuel, if_neg fun h => hfuel (Nat.lt_of_succ_lt_succ h)]

section Drawing

variable {x0 y0 x1 y1 x y : UInt16} {a b k m : Nat} {minor : Nat → Nat} {points : List SetPoint} {p : SetPoint}

theorem exists_foot (hk : k ≤ a) (hzero : a = 0 → m = 0) (hbelow : b * k ≤ a * m + a) (habove : a * m ≤ b * k + a)
    : ∃ t : ℚ, 0 ≤ t ∧ t ≤ 1 ∧ t * a = k ∧ ((m : ℚ) - t * b) ^ 2 ≤ 1 := by
  rcases Nat.eq_zero_or_pos a with rfl | ha
  . refine ⟨0, le_refl 0, zero_le_one, ?_, ?_⟩
    . have hk0 : k = 0 := by omega
      simp [hk0]
    . simp [hzero rfl]
  . have hpos : (0 : ℚ) < a := by exact_mod_cast ha
    have hka : (k : ℚ) ≤ a := by exact_mod_cast hk
    have hk0 : (0 : ℚ) ≤ k := by exact_mod_cast Nat.zero_le k
    have hfoot : (k : ℚ) / a * a = k := div_mul_cancel₀ _ hpos.ne'
    refine ⟨k / a, div_nonneg hk0 hpos.le, (div_le_one hpos).mpr hka, hfoot, ?_⟩
    have hbelow' : (b : ℚ) * k ≤ a * m + a := by exact_mod_cast hbelow
    have habove' : (a : ℚ) * m ≤ b * k + a := by exact_mod_cast habove
    have hdist : (a : ℚ) * ((m : ℚ) - k / a * b) = a * m - b * k := by
      rw [mul_sub, ← mul_assoc, mul_comm (a : ℚ) (k / a), hfoot, mul_comm (k : ℚ)]
    apply (sq_le_one_iff_abs_le_one _).mpr
    apply abs_le.mpr
    constructor
    . apply le_of_mul_le_mul_left _ hpos
      linarith
    . apply le_of_mul_le_mul_left _ hpos
      linarith

theorem toNat_add_ofNat (h : x.toNat + k < 65536) : (x + UInt16.ofNat k).toNat = x.toNat + k := by
  rw [UInt16.toNat_add, UInt16.toNat_ofNat']
  omega

theorem coord_sub {c d : UInt16} {pos i : Nat} {t : ℚ} (hd : d.toNat = c.toNat + a) (hpos : pos = c.toNat + i)
    : (pos : ℚ) - (c.toNat + t * ((d.toNat : ℚ) - c.toNat)) = i - t * a := by
  rw [hpos, hd]
  push_cast
  ring

theorem near_staircase (h : Midpoint.Staircase a b minor) (hx : x1.toNat = x0.toNat + a)
    (hy : y1.toNat = y0.toNat + b) (hk : k ≤ a) (hxpos : p.xpos.toNat = x0.toNat + k)
    (hypos : p.ypos.toNat = y0.toNat + minor k)
    : Near x0 y0 x1 y1 p := by
  have hzero : a = 0 → minor k = 0 := by
    intro ha
    have hk0 : k = 0 := by omega
    rw [hk0]
    exact h.start
  obtain ⟨t, ht0, ht1, hmajor, hminor⟩ := exists_foot hk hzero (h.below k hk) (h.above k hk)
  refine ⟨t, ht0, ht1, ?_⟩
  rw [coord_sub hx hxpos, coord_sub hy hypos, hmajor, sub_self]
  linarith

theorem draws_staircase (h : Midpoint.Staircase a b minor) (hx : x1.toNat = x0.toNat + a)
    (hy : y1.toNat = y0.toNat + b) (color : UInt16)
    : Draws x0 y0 x1 y1 ((List.range (a + 1)).map fun k =>
        ⟨x0 + UInt16.ofNat k, y0 + UInt16.ofNat (minor k), color⟩) := by
  have hx1 := x1.toNat_lt
  have hy1 := y1.toNat_lt
  have hxpos : ∀ k, k ≤ a → (x0 + UInt16.ofNat k).toNat = x0.toNat + k := by
    intro k hk
    apply toNat_add_ofNat
    omega
  have hypos : ∀ k, k ≤ a → (y0 + UInt16.ofNat (minor k)).toNat = y0.toNat + minor k := by
    intro k hk
    have hle := h.le hk
    apply toNat_add_ofNat
    omega
  constructor
  . refine ⟨_, List.mem_map_of_mem (List.mem_range.mpr (Nat.succ_pos a)), ?_, ?_⟩
    . show x0 + 0 = x0
      rw [UInt16.add_zero]
    . show y0 + UInt16.ofNat (minor 0) = y0
      rw [h.start]
      show y0 + 0 = y0
      rw [UInt16.add_zero]
  . refine ⟨_, List.mem_map_of_mem (List.mem_range.mpr (Nat.lt_succ_self a)), ?_, ?_⟩
    . apply UInt16.toNat_inj.mp
      rw [hxpos a (Nat.le_refl a), hx]
    . apply UInt16.toNat_inj.mp
      rw [hypos a (Nat.le_refl a), hy, h.stop]
  . intro p hp
    rw [List.mem_map] at hp
    obtain ⟨k, hk, rfl⟩ := hp
    rw [List.mem_range, Nat.lt_succ_iff] at hk
    have hle := h.le hk
    have hxk := hxpos k hk
    have hyk := hypos k hk
    rw [hxk, hyk, hx, hy]
    omega
  . rw [List.isChain_map, List.isChain_range_succ]
    intro k hk
    have hstep := h.step k
    unfold Adjacent
    rw [hxpos k (by omega), hxpos (k + 1) hk, hypos k (by omega), hypos (k + 1) hk]
    omega
  . intro p hp
    rw [List.mem_map] at hp
    obtain ⟨k, hk, rfl⟩ := hp
    rw [List.mem_range, Nat.lt_succ_iff] at hk
    apply near_staircase h hx hy hk
    . exact hxpos k hk
    . exact hypos k hk

def SetPoint.swap (p : SetPoint) : SetPoint :=
  { p with xpos := p.ypos, ypos := p.xpos }

theorem Near.swap (h : Near x0 y0 x1 y1 p) : Near y0 x0 y1 x1 p.swap := by
  obtain ⟨t, ht0, ht1, hdist⟩ := h
  refine ⟨t, ht0, ht1, ?_⟩
  rw [add_comm]
  exact hdist

theorem Near.symm (h : Near x0 y0 x1 y1 p) : Near x1 y1 x0 y0 p := by
  obtain ⟨t, ht0, ht1, hdist⟩ := h
  refine ⟨1 - t, by linarith, by linarith, ?_⟩
  have hfoot : ∀ c d : ℚ, d + (1 - t) * (c - d) = c + t * (d - c) := by
    intro c d
    ring
  rw [hfoot, hfoot]
  exact hdist

theorem Draws.swap (h : Draws x0 y0 x1 y1 points) : Draws y0 x0 y1 x1 (points.map SetPoint.swap) := by
  constructor
  . obtain ⟨p, hp, hx, hy⟩ := h.start
    exact ⟨p.swap, List.mem_map_of_mem hp, hy, hx⟩
  . obtain ⟨p, hp, hx, hy⟩ := h.stop
    exact ⟨p.swap, List.mem_map_of_mem hp, hy, hx⟩
  . intro p hp
    rw [List.mem_map] at hp
    obtain ⟨q, hq, rfl⟩ := hp
    have hbox := h.inBox q hq
    exact ⟨hbox.2, hbox.1⟩
  . rw [List.isChain_map]
    apply h.chain.imp
    rintro q r ⟨hx, hx', hy, hy'⟩
    exact ⟨hy, hy', hx, hx'⟩
  . intro p hp
    rw [List.mem_map] at hp
    obtain ⟨q, hq, rfl⟩ := hp
    exact (h.near q hq).swap

theorem Draws.symm (h : Draws x0 y0 x1 y1 points) : Draws x1 y1 x0 y0 points := by
  constructor
  . exact h.stop
  . exact h.start
  . intro p hp
    have hbox := h.inBox p hp
    omega
  . exact h.chain
  . intro p hp
    exact (h.near p hp).symm

theorem sort_comm (c d : UInt16) : (if d > c then (c, d) else (d, c)) = if c > d then (d, c) else (c, d) := by
  split
  . next hlt =>
    rw [if_neg]
    apply UInt16.not_lt.mpr
    exact UInt16.le_of_lt hlt
  . next hge =>
    split
    . rfl
    . next hge' =>
      have heq : c = d := UInt16.le_antisymm (UInt16.not_lt.mp hge') (UInt16.not_lt.mp hge)
      rw [heq]

theorem drawLine_comm_xpos (x0 y0 x1 y1 color : UInt16) (fuel : Nat)
    : drawLine x1 y0 x0 y1 color fuel = drawLine x0 y0 x1 y1 color fuel := by
  unfold drawLine
  rw [sort_comm x0 x1]

theorem drawLine_comm_ypos (x0 y0 x1 y1 color : UInt16) (fuel : Nat)
    : drawLine x0 y1 x1 y0 color fuel = drawLine x0 y0 x1 y1 color fuel := by
  unfold drawLine
  rw [sort_comm y0 y1]

theorem drawsSegment_symm (x0 y0 x1 y1 color : UInt16)
    : DrawsSegment x1 y1 x0 y0 color ↔ DrawsSegment x0 y0 x1 y1 color := by
  have hsame : ∀ fuel, drawLine x1 y1 x0 y0 color fuel = drawLine x0 y0 x1 y1 color fuel := by
    intro fuel
    rw [drawLine_comm_xpos, drawLine_comm_ypos]
  constructor
  . rintro ⟨fuel, points, hrun, hdraws⟩
    rw [hsame] at hrun
    exact ⟨fuel, points, hrun, hdraws.symm⟩
  . rintro ⟨fuel, points, hrun, hdraws⟩
    rw [← hsame] at hrun
    exact ⟨fuel, points, hrun, hdraws.symm⟩

theorem toInt_ofInt_sub (hx : x1.toNat = x0.toNat + a) (ha : a < 32768)
    : (Int16.ofInt (x1.toNat - x0.toNat)).toInt = a := by
  have hsub : (x1.toNat : Int) - x0.toNat = a := by omega
  rw [hsub, Int16.toInt_ofInt_of_le]
  . omega
  . omega

theorem toInt_eq_natCast_zero {c : Int16} (h : c.toInt = a) : c = 0 ↔ a = 0 := by
  rw [← Int16.toInt_inj, h, Int16.toInt_zero]
  omega

theorem drawLine_sorted (hx : x1.toNat = x0.toNat + a) (hy : y1.toNat = y0.toNat + b) (ha : a < 32768)
    (hb : b < 32768) (color : UInt16) (fuel : Nat)
    : drawLine x0 y0 x1 y1 color fuel =
        if a = 0 then
          straightLoop (fun y => ⟨x0, y, color⟩) y1 fuel y0
        else if b = 0 then
          straightLoop (fun x => ⟨x, y0, color⟩) x1 fuel x0
        else if b < a then
          lineLoop (fun x y => ⟨x, y, color⟩) x1 (2 * b - 2 * a) (2 * b) fuel x0
            (y0, Int16.ofInt (2 * b - a))
        else
          lineLoop (fun y x => ⟨x, y, color⟩) y1 (2 * b - 2 * a) (2 * b) fuel y0
            (x0, Int16.ofInt (2 * a - b)) := by
  have hdx := toInt_ofInt_sub hx ha
  have hdy := toInt_ofInt_sub hy hb
  have hxle : ¬ x0 > x1 := by
    rw [gt_iff_lt, UInt16.lt_iff_toNat_lt]
    omega
  have hyle : ¬ y0 > y1 := by
    rw [gt_iff_lt, UInt16.lt_iff_toNat_lt]
    omega
  have hlt : Int16.ofInt (x1.toNat - x0.toNat) > Int16.ofInt (y1.toNat - y0.toNat) ↔ b < a := by
    rw [gt_iff_lt, Int16.lt_iff_toInt_lt, hdx, hdy]
    omega
  unfold drawLine
  rw [if_neg hxle, if_neg hyle]
  simp only [hdx, hdy, hlt, toInt_eq_natCast_zero hdx, toInt_eq_natCast_zero hdy]

end Drawing

def FitsShort (temp : Int) : Prop := -32768 ≤ temp ∧ temp < 32768

theorem lineStep_eq {x : UInt16} {m : Nat} {temp : Int} (h : FitsShort temp)
    : lineStep up straight (x + UInt16.ofNat m, Int16.ofInt temp) =
        (x + UInt16.ofNat (Midpoint.step up straight (m, temp)).1,
          Int16.ofInt (Midpoint.step up straight (m, temp)).2) := by
  have htemp : (Int16.ofInt temp).toInt = temp := Int16.toInt_ofInt_of_le h.1 h.2
  have hpos : Int16.ofInt temp > 0 ↔ 0 < temp := by
    rw [gt_iff_lt, Int16.lt_iff_toInt_lt, htemp, Int16.toInt_zero]
  unfold lineStep Midpoint.step
  simp only [hpos, htemp]
  split
  . rw [UInt16.ofNat_add, UInt16.add_assoc]
    rfl
  . rfl

theorem lineStep_iterate {x : UInt16} {temp : Int} {k : Nat}
    (h : ∀ j, j < k → FitsShort ((Midpoint.step up straight)^[j] (0, temp)).2)
    : (lineStep up straight)^[k] (x, Int16.ofInt temp) =
        (x + UInt16.ofNat ((Midpoint.step up straight)^[k] (0, temp)).1,
          Int16.ofInt ((Midpoint.step up straight)^[k] (0, temp)).2) := by
  induction k with
  | zero =>
    show _ = (x + 0, _)
    rw [UInt16.add_zero]
    rfl
  | succ k ih =>
    have hprev : ∀ j, j < k → FitsShort ((Midpoint.step up straight)^[j] (0, temp)).2 := by
      intro j hj
      apply h
      omega
    rw [Function.iterate_succ_apply', ih hprev, lineStep_eq (h k (Nat.lt_succ_self k)),
      Function.iterate_succ_apply']

section Sorted

variable {x0 y0 x1 y1 : UInt16} {a b : Nat}

theorem lineLoop_midpoint {major minor : UInt16} (hn : stop.toNat = major.toNat + a) (hba : b ≤ a) (ha : a < 16384)
    : lineLoop plotAt stop (2 * b - 2 * a) (2 * b) (a + 1) major (minor, Int16.ofInt (2 * b - a)) =
        some ((List.range (a + 1)).map fun k => plotAt (major + UInt16.ofNat k)
          (minor + UInt16.ofNat ((Midpoint.step (2 * b - 2 * a) (2 * b))^[k] (0, 2 * b - a)).1)) := by
  have hfits : ∀ j, FitsShort ((Midpoint.step (2 * b - 2 * a) (2 * b))^[j] (0, 2 * (b : Int) - a)).2 := by
    intro j
    have hinv := Midpoint.inv_iterate (a := (a : Int)) (b := b) (by omega) (by omega) j
    have hlower := hinv.lower
    have hupper := hinv.upper
    constructor
    . omega
    . omega
  rw [lineLoop_eq hn, if_pos (Nat.lt_succ_self a)]
  congr 1
  apply List.map_congr_left
  intro k _
  rw [lineStep_iterate fun j _ => hfits j]

theorem drawsSegment_shallow (hx : x1.toNat = x0.toNat + a) (hy : y1.toNat = y0.toNat + b) (hb0 : 0 < b)
    (hba : b < a) (ha : a < 16384) (color : UInt16)
    : DrawsSegment x0 y0 x1 y1 color := by
  refine ⟨a + 1, _, ?_, draws_staircase (Midpoint.staircase_midpoint (by omega) (Nat.le_of_lt hba)) hx hy color⟩
  rw [drawLine_sorted hx hy (by omega) (by omega), if_neg (by omega), if_neg (by omega), if_pos hba,
    lineLoop_midpoint hx (Nat.le_of_lt hba) ha]

theorem drawsSegment_diagonal (hx : x1.toNat = x0.toNat + a) (hy : y1.toNat = y0.toNat + a) (ha0 : 0 < a)
    (ha : a < 16384) (color : UInt16)
    : DrawsSegment x0 y0 x1 y1 color := by
  refine ⟨a + 1, _, ?_,
    (draws_staircase (Midpoint.staircase_midpoint ha0 (Nat.le_refl a)) hy hx color).swap⟩
  rw [drawLine_sorted hx hy (by omega) (by omega), if_neg (by omega), if_neg (by omega), if_neg (by omega),
    lineLoop_midpoint hy (Nat.le_refl a) ha, List.map_map]
  rfl

theorem drawsSegment_horizontal (hx : x1.toNat = x0.toNat + a) (hy : y1.toNat = y0.toNat) (ha0 : 0 < a)
    (ha : a < 16384) (hx1 : x1.toNat < 65535) (color : UInt16)
    : DrawsSegment x0 y0 x1 y1 color := by
  have hb : y1.toNat = y0.toNat + 0 := hy
  refine ⟨a + 1, _, ?_, draws_staircase (Midpoint.staircase_zero a) hx hb color⟩
  rw [drawLine_sorted hx hb (by omega) (by omega), if_neg (by omega), if_pos rfl,
    straightLoop_eq hx hx1, if_pos (Nat.lt_succ_self a)]
  congr 1
  apply List.map_congr_left
  intro k _
  show _ = SetPoint.mk _ (y0 + 0) _
  rw [UInt16.add_zero]

theorem drawsSegment_vertical (hx : x1.toNat = x0.toNat) (hy : y1.toNat = y0.toNat + b) (hb : b < 16384)
    (hy1 : y1.toNat < 65535) (color : UInt16)
    : DrawsSegment x0 y0 x1 y1 color := by
  have ha : x1.toNat = x0.toNat + 0 := hx
  refine ⟨b + 1, _, ?_, (draws_staircase (Midpoint.staircase_zero b) hy ha color).swap⟩
  rw [drawLine_sorted ha hy (by omega) (by omega), if_pos rfl, straightLoop_eq hy hy1,
    if_pos (Nat.lt_succ_self b), List.map_map]
  congr 1
  apply List.map_congr_left
  intro k _
  show _ = SetPoint.mk (x0 + 0) _ _
  rw [UInt16.add_zero]

theorem staircase_oneTwo : Midpoint.Staircase 2 1 fun k => ((Midpoint.step 2 4)^[k] (0, 0)).1 where
  start := rfl
  stop := rfl
  step k := by
    rw [Function.iterate_succ_apply']
    apply Midpoint.step_fst
  below := by decide
  above := by decide

theorem drawsSegment_oneTwo (hx : x1.toNat = x0.toNat + 1) (hy : y1.toNat = y0.toNat + 2) (color : UInt16)
    : DrawsSegment x0 y0 x1 y1 color := by
  have hfits : ∀ j, j < 2 → FitsShort ((Midpoint.step 2 4)^[j] (0, 0)).2 := by
    unfold FitsShort
    decide
  refine ⟨3, _, ?_, (draws_staircase staircase_oneTwo hy hx color).swap⟩
  rw [drawLine_sorted hx hy (by omega) (by omega), if_neg (by omega), if_neg (by omega), if_neg (by omega),
    lineLoop_eq hy, if_pos (Nat.lt_succ_self 2), List.map_map]
  congr 1
  apply List.map_congr_left
  intro k hk
  rw [List.mem_range] at hk
  show SetPoint.mk ((lineStep 2 4)^[k] (x0, Int16.ofInt 0)).1 _ _ = _
  rw [lineStep_iterate fun j hj => hfits j (by omega)]
  rfl

theorem lineLoop_points {major : UInt16} {s : UInt16 × Int16} {fuel n : Nat} {points : List SetPoint}
    (hn : stop.toNat = major.toNat + n)
    (hrun : lineLoop plotAt stop up straight fuel major s = some points)
    : points = (List.range (n + 1)).map fun k =>
        plotAt (major + UInt16.ofNat k) ((lineStep up straight)^[k] s).1 := by
  rw [lineLoop_eq hn] at hrun
  split at hrun
  . cases hrun
    rfl
  . cases hrun

theorem eq_zero_of_add_ofNat {x : UInt16} {k : Nat} (hk : k < 65536) (h : x + UInt16.ofNat k = x) : k = 0 := by
  have hmod := congrArg UInt16.toNat h
  rw [UInt16.toNat_add, UInt16.toNat_ofNat'] at hmod
  have hx := x.toNat_lt
  omega

/--
The loop goes from the corner with the smallest coordinates, which is not on a line that falls.
-/
theorem not_drawsSegment_falling (hx : x1.toNat = x0.toNat + a) (hy : y0.toNat = y1.toNat + b) (ha0 : 0 < a)
    (hb0 : 0 < b) (ha : a < 32768) (hb : b < 32768) (color : UInt16)
    : ¬ DrawsSegment x0 y0 x1 y1 color := by
  rintro ⟨fuel, points, hrun, hdraws⟩
  rw [← drawLine_comm_ypos, drawLine_sorted hx hy ha hb, if_neg (by omega), if_neg (by omega)] at hrun
  split at hrun
  . obtain ⟨p, hp, hxpos, hypos⟩ := hdraws.start
    rw [lineLoop_points hx hrun, List.mem_map] at hp
    obtain ⟨k, hk, rfl⟩ := hp
    rw [List.mem_range] at hk
    have hk0 : k = 0 := eq_zero_of_add_ofNat (by omega) hxpos
    subst hk0
    have hsame : y1 = y0 := hypos
    rw [hsame] at hy
    omega
  . obtain ⟨p, hp, hxpos, hypos⟩ := hdraws.stop
    rw [lineLoop_points hy hrun, List.mem_map] at hp
    obtain ⟨k, hk, rfl⟩ := hp
    rw [List.mem_range] at hk
    have hk0 : k = 0 := eq_zero_of_add_ofNat (by omega) hypos
    subst hk0
    have hsame : x0 = x1 := hxpos
    rw [hsame] at hx
    omega

theorem Near.cross {p : SetPoint} {i j : Nat} (h : Near x0 y0 x1 y1 p) (hx : x1.toNat = x0.toNat + a)
    (hy : y1.toNat = y0.toNat + b) (hxpos : p.xpos.toNat = x0.toNat + i) (hypos : p.ypos.toNat = y0.toNat + j)
    : b * i ≤ a * j + a + b := by
  obtain ⟨t, -, -, hdist⟩ := h
  rw [coord_sub hx hxpos, coord_sub hy hypos] at hdist
  have hi : (i : ℚ) - t * a ≤ 1 := by
    have hsq := sq_nonneg ((j : ℚ) - t * b)
    apply le_of_abs_le
    apply (sq_le_one_iff_abs_le_one _).mp
    linarith
  have hj : -1 ≤ (j : ℚ) - t * b := by
    have hsq := sq_nonneg ((i : ℚ) - t * a)
    apply neg_le_of_abs_le
    apply (sq_le_one_iff_abs_le_one _).mp
    linarith
  have ha : (0 : ℚ) ≤ a := by exact_mod_cast Nat.zero_le a
  have hb : (0 : ℚ) ≤ b := by exact_mod_cast Nat.zero_le b
  have hbi := mul_le_mul_of_nonneg_left hi hb
  have haj := mul_le_mul_of_nonneg_left hj ha
  have hcross : (b : ℚ) * i ≤ a * j + a + b := by linarith
  exact_mod_cast hcross

theorem steepLoop_mem {e fuel k : Nat} {color : UInt16} {points : List SetPoint} (hab : a < b)
    (he : e = 0 ∧ b < 2 * a ∨ e = 1 ∧ 2 * a ≤ b) (hy : y1.toNat = y0.toNat + b) (hb : b < 320)
    (hrun : lineLoop (fun y x => ⟨x, y, color⟩) y1 (2 * b - 2 * a) (2 * b) fuel y0
      (x0, Int16.ofInt (2 * a - b)) = some points)
    (hk0 : 0 < k) (hkb : k ≤ b) (hsmall : ∀ j, j < k → (b - a) * j ≤ a + b + e * b)
    : SetPoint.mk (x0 + UInt16.ofNat (k - e)) (y0 + UInt16.ofNat k) color ∈ points := by
  have hfits : ∀ j, j < k →
      FitsShort ((Midpoint.step (2 * b - 2 * a) (2 * b))^[j] (0, 2 * (a : Int) - b)).2 := by
    intro j hj
    have hbounds := Midpoint.overshoot_bounds hab he (hsmall j hj)
    constructor
    . omega
    . omega
  have hminor : ((lineStep (2 * b - 2 * a) (2 * b))^[k] (x0, Int16.ofInt (2 * a - b))).1 =
      x0 + UInt16.ofNat (k - e) := by
    rw [lineStep_iterate hfits, Midpoint.iterate_overshoot hab he hk0]
  rw [lineLoop_points hy hrun, List.mem_map]
  refine ⟨k, ?_, ?_⟩
  . apply List.mem_range.mpr
    omega
  . rw [hminor]

theorem not_drawsSegment_steep (hx : x1.toNat = x0.toNat + a) (hy : y1.toNat = y0.toNat + b) (ha0 : 0 < a)
    (hab : a < b) (hne : ¬ (a = 1 ∧ b = 2)) (hx1 : x1.toNat < 320) (hb : b < 320) (color : UInt16)
    : ¬ DrawsSegment x0 y0 x1 y1 color := by
  rintro ⟨fuel, points, hrun, hdraws⟩
  obtain ⟨e, he⟩ : ∃ e, e = 0 ∧ b < 2 * a ∨ e = 1 ∧ 2 * a ≤ b := by
    rcases Nat.lt_or_ge b (2 * a) with hlt | hge
    . exact ⟨0, Or.inl ⟨rfl, hlt⟩⟩
    . exact ⟨1, Or.inr ⟨rfl, hge⟩⟩
  obtain ⟨k, hk0, hkb, hsmall, hastray⟩ := Midpoint.exists_astray ha0 hab hne he
  rw [drawLine_sorted hx hy (by omega) (by omega), if_neg (by omega), if_neg (by omega), if_neg (by omega)] at hrun
  have hp := steepLoop_mem hab he hy hb hrun hk0 hkb hsmall
  have hxlt : x0.toNat + (k - e) < 65536 := by omega
  have hylt : y0.toNat + k < 65536 := by
    have hlt := y1.toNat_lt
    omega
  rcases hastray with hout | hfar
  . have hbox := (hdraws.inBox _ hp).1.2
    rw [toNat_add_ofNat hxlt] at hbox
    omega
  . have hcross := (hdraws.near _ hp).cross hx hy (toNat_add_ofNat hxlt) (toNat_add_ofNat hylt)
    omega

theorem drawable_symm (x0 y0 x1 y1 : UInt16) : Drawable x1 y1 x0 y0 ↔ Drawable x0 y0 x1 y1 := by
  simp only [Drawable, UInt16.lt_iff_toNat_lt, ← UInt16.toNat_inj, Nat.dist]
  omega

theorem drawsSegment_iff_of_le (hle : x0.toNat ≤ x1.toNat) (hx1 : x1.toNat < 320) (hy0 : y0.toNat < 320)
    (hy1 : y1.toNat < 320) (color : UInt16)
    : DrawsSegment x0 y0 x1 y1 color ↔ Drawable x0 y0 x1 y1 := by
  simp only [Drawable, UInt16.lt_iff_toNat_lt, ← UInt16.toNat_inj, Nat.dist]
  obtain ⟨a, hx⟩ : ∃ a, x1.toNat = x0.toNat + a := ⟨x1.toNat - x0.toNat, by omega⟩
  rcases Nat.eq_zero_or_pos a with rfl | ha
  . -- A vertical line.
    apply iff_of_true _ (Or.inl (by omega))
    rcases Nat.le_total y0.toNat y1.toNat with hup | hdown
    . obtain ⟨b, hy⟩ : ∃ b, y1.toNat = y0.toNat + b := ⟨y1.toNat - y0.toNat, by omega⟩
      apply drawsSegment_vertical hx hy (by omega) (by omega)
    . obtain ⟨b, hy⟩ : ∃ b, y0.toNat = y1.toNat + b := ⟨y0.toNat - y1.toNat, by omega⟩
      rw [← drawsSegment_symm]
      apply drawsSegment_vertical hx.symm hy (by omega) (by omega)
  . rcases Nat.lt_trichotomy y0.toNat y1.toNat with hup | hlevel | hdown
    . obtain ⟨b, hy⟩ : ∃ b, y1.toNat = y0.toNat + b := ⟨y1.toNat - y0.toNat, by omega⟩
      rcases Nat.lt_trichotomy b a with hshallow | rfl | hsteep
      . apply iff_of_true _ (by omega)
        apply drawsSegment_shallow hx hy (by omega) hshallow (by omega)
      . apply iff_of_true _ (by omega)
        apply drawsSegment_diagonal hx hy ha (by omega)
      . by_cases hone : a = 1 ∧ b = 2
        . obtain ⟨rfl, rfl⟩ := hone
          apply iff_of_true _ (by omega)
          apply drawsSegment_oneTwo hx hy
        . apply iff_of_false _ (by omega)
          apply not_drawsSegment_steep hx hy ha hsteep hone hx1 (by omega)
    . apply iff_of_true _ (by omega)
      apply drawsSegment_horizontal hx hlevel.symm ha (by omega) (by omega)
    . obtain ⟨b, hy⟩ : ∃ b, y0.toNat = y1.toNat + b := ⟨y0.toNat - y1.toNat, by omega⟩
      apply iff_of_false _ (by omega)
      apply not_drawsSegment_falling hx hy ha (by omega) (by omega) (by omega)

theorem drawsSegment_iff_drawable (hx0 : x0 < maxX) (hx1 : x1 < maxX) (hy0 : y0 < maxY) (hy1 : y1 < maxY)
    (color : UInt16)
    : (DrawsSegment x0 y0 x1 y1 color
        ∧ (DrawsSegment x1 y1 x0 y0 color ↔ DrawsSegment x0 y0 x1 y1 color))
      ↔ Drawable x0 y0 x1 y1 := by
  rw [and_iff_left (drawsSegment_symm x0 y0 x1 y1 color)]
  have hx0' : x0.toNat < 240 := UInt16.lt_iff_toNat_lt.mp hx0
  have hx1' : x1.toNat < 240 := UInt16.lt_iff_toNat_lt.mp hx1
  have hy0' : y0.toNat < 320 := UInt16.lt_iff_toNat_lt.mp hy0
  have hy1' : y1.toNat < 320 := UInt16.lt_iff_toNat_lt.mp hy1
  rcases Nat.le_total x0.toNat x1.toNat with hle | hge
  . apply drawsSegment_iff_of_le hle (by omega) hy0' hy1'
  . rw [← drawsSegment_symm, ← drawable_symm]
    apply drawsSegment_iff_of_le hge (by omega) hy1' hy0'

theorem drawsSegment_iff_drawable_shallow
    : DrawsSegment 200 30 20 10 1 ∧ (DrawsSegment 20 10 200 30 1 ↔ DrawsSegment 200 30 20 10 1) := by
  apply (drawsSegment_iff_drawable (by decide) (by decide) (by decide) (by decide) 1).mpr
  decide

theorem falling_and_steep_not_drawn : ¬ DrawsSegment 0 10 10 0 1 ∧ ¬ DrawsSegment 0 0 10 40 1 := by
  constructor
  . apply not_drawsSegment_falling (a := 10) (b := 10)
    . rfl
    . rfl
    . decide
    . decide
    . decide
    . decide
  . apply not_drawsSegment_steep (a := 10) (b := 40)
    . rfl
    . rfl
    . decide
    . decide
    . decide
    . decide
    . decide

end Sorted

end SerialGateway
