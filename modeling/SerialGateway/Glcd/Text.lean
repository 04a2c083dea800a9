import SerialGateway.Glcd.Screen
import SerialGateway.Lib.Grid

/-!
This module contains the output of strings on the screen (`GUI_Text` and `GUI_Chinese` of `GLCD.c`).
-/

namespace SerialGateway

/--
`GetASCIICode`. The font is a table of rows of bytes, and the index is not checked.
-/
def getAsciiCode (asciiLib : Int → Nat → UInt8) (ascii : UInt8) : Nat → UInt8 :=
  asciiLib ((ascii.toNat : Int) - 32)

def getGbkCode (hzLib : Int → Nat → UInt8) (high8bit low8bit : UInt8) : Nat → UInt8 :=
  hzLib ((((high8bit.toNat : Int) - 0xb0) * 94 + low8bit.toNat - 0xa1) * 2)

def putChar (asciiLib : Int → Nat → UInt8) (xpos ypos : UInt16) (asci : UInt8)
    (charColor bkColor : UInt16)
    : List SetPoint :=
  (List.range 16).flatMap fun i =>
    let tmpChar := getAsciiCode asciiLib asci i
    (List.range 8).map fun j =>
      { xpos := xpos + UInt16.ofNat j
        ypos := ypos + UInt16.ofNat i
        point := if tmpChar >>> UInt8.ofNat (7 - j) &&& 1 ≠ 0 then charColor else bkColor }

def putChinese (hzLib : Int → Nat → UInt8) (xpos ypos : UInt16) (high8bit low8bit : UInt8)
    (color bkColor : UInt16)
    : List SetPoint :=
  (List.range 16).flatMap fun i =>
    let buffer := getGbkCode hzLib high8bit low8bit
    let tmpChar := (buffer (2 * i)).toUInt16 <<< 8 ||| (buffer (2 * i + 1)).toUInt16
    (List.range 16).map fun j =>
      { xpos := xpos + UInt16.ofNat j
        ypos := ypos + UInt16.ofNat i
        point := if tmpChar >>> UInt16.ofNat (15 - j) &&& 1 ≠ 0 then color else bkColor }

structure TextRun where
  glyphs : List (List SetPoint)
  reads : List Nat
  deriving DecidableEq, Repr

def moveCursor (width xpos ypos : UInt16) : UInt16 × UInt16 :=
  if xpos < maxX - width then
    (xpos + width, ypos)
  else if ypos < maxY - 16 then
    (0, ypos + 16)
  else
    (0, 0)

section Loop

variable (str : Nat → UInt8) (width : UInt16) (bytes : Nat)
  (put : UInt16 → UInt16 → Nat → List SetPoint)

/--
The loop of the two functions, for as many glyphs as there is fuel. `put` draws the character of `bytes` bytes
at a position of the string.
-/
def textLoop : Nat → UInt16 → UInt16 → Nat → Option TextRun
  | 0, _, _, _ => none
  | fuel + 1, xpos, ypos, i =>
    let glyph := put xpos ypos i
    let reads := List.range' i bytes ++ [i + bytes]
    let (xpos, ypos) := moveCursor width xpos ypos
    if str (i + bytes) ≠ 0 then
      match textLoop fuel xpos ypos (i + bytes) with
      | none => none
      | some run => some { glyphs := glyph :: run.glyphs, reads := reads ++ run.reads }
    else
      some { glyphs := [glyph], reads }

end Loop

def guiText (asciiLib : Int → Nat → UInt8) (xpos ypos : UInt16) (str : Nat → UInt8)
    (color bkColor : UInt16) (fuel : Nat)
    : Option TextRun :=
  textLoop str 8 1 (fun xpos ypos i => putChar asciiLib xpos ypos (str i) color bkColor) fuel xpos ypos 0

def guiChinese (hzLib : Int → Nat → UInt8) (xpos ypos : UInt16) (str : Nat → UInt8)
    (color bkColor : UInt16) (fuel : Nat)
    : Option TextRun :=
  textLoop str 16 2
    (fun xpos ypos i => putChinese hzLib xpos ypos (str i) (str (i + 1)) color bkColor) fuel xpos ypos 0

def IsString (str : Nat → UInt8) (len : Nat) : Prop := (∀ i, i < len → str i ≠ 0) ∧ str len = 0

def byteString (bytes : List UInt8) : Nat → UInt8 := fun i => bytes.getD i 0

theorem isString_byteString (bytes : List UInt8) (h : ∀ b ∈ bytes, b ≠ 0)
    : IsString (byteString bytes) bytes.length := by
  constructor
  . intro i hi
    show bytes.getD i 0 ≠ 0
    rw [List.getD_eq_getElem?_getD, List.getElem?_eq_getElem hi, Option.getD_some]
    apply h
    apply List.getElem_mem
  . show bytes.getD bytes.length 0 = 0
    rw [List.getD_eq_getElem?_getD, List.getElem?_eq_none (Nat.le_refl _), Option.getD_none]

structure OnGrid (width xpos ypos : UInt16) : Prop where
  col : xpos.toNat % width.toNat = 0
  row : ypos.toNat % 16 = 0
  right : xpos.toNat + width.toNat ≤ maxX.toNat
  bottom : ypos.toNat + 16 ≤ maxY.toNat

def cellXpos (width : UInt16) (n : Nat) : UInt16 :=
  UInt16.ofNat (width.toNat * Grid.col (maxX.toNat / width.toNat) n)

def cellYpos (width : UInt16) (n : Nat) : UInt16 :=
  UInt16.ofNat (16 * Grid.row (maxX.toNat / width.toNat) (maxY.toNat / 16) n)

def cellOf (width xpos ypos : UInt16) : Nat :=
  ypos.toNat / 16 * (maxX.toNat / width.toNat) + xpos.toNat / width.toNat

/--
The string is shown: nothing behind its `NUL` has been read, there is a glyph for each character, in the cells
from the start on, and every glyph is on the screen as a whole.
-/
structure Shows (width xpos ypos : UInt16) (bytes : Nat) (put : UInt16 → UInt16 → Nat → List SetPoint)
    (len : Nat) (run : TextRun) : Prop where
  inside : ∀ a ∈ run.reads, a ≤ len
  glyphs : run.glyphs = (List.range (len / bytes)).map fun k =>
    put (cellXpos width (cellOf width xpos ypos + k)) (cellYpos width (cellOf width xpos ypos + k))
      (k * bytes)
  onScreen : ∀ glyph ∈ run.glyphs, ∀ p ∈ glyph, p.OnScreen

variable {str : Nat → UInt8} {width xpos ypos : UInt16} {bytes len i n : Nat}
  {put : UInt16 → UInt16 → Nat → List SetPoint} {run : TextRun} {fuel : Nat}

theorem cellXpos_toNat (hwidth : width = 8 ∨ width = 16) (n : Nat)
    : (cellXpos width n).toNat = width.toNat * Grid.col (maxX.toNat / width.toNat) n := by
  unfold cellXpos
  rw [UInt16.toNat_ofNat', Nat.mod_eq_of_lt]
  rcases hwidth with rfl | rfl
  . have hlt : Grid.col 30 n < 30 := Grid.col_lt (by decide)
    show 8 * Grid.col 30 n < 65536
    omega
  . have hlt : Grid.col 15 n < 15 := Grid.col_lt (by decide)
    show 16 * Grid.col 15 n < 65536
    omega

theorem cellYpos_toNat (width : UInt16) (n : Nat)
    : (cellYpos width n).toNat = 16 * Grid.row (maxX.toNat / width.toNat) (maxY.toNat / 16) n := by
  have hlt : Grid.row (maxX.toNat / width.toNat) (maxY.toNat / 16) n < 20 := Grid.row_lt (by decide)
  unfold cellYpos
  rw [UInt16.toNat_ofNat', Nat.mod_eq_of_lt]
  omega

theorem cellXpos_lt_iff (hwidth : width = 8 ∨ width = 16) (n : Nat)
    : cellXpos width n < maxX - width
        ↔ Grid.col (maxX.toNat / width.toNat) n + 1 < maxX.toNat / width.toNat := by
  have hpos : 0 < width.toNat := by
    rcases hwidth with rfl | rfl <;> decide
  have hcols : width.toNat * (maxX.toNat / width.toNat) = 240 := by
    rcases hwidth with rfl | rfl <;> decide
  have hlast : (maxX - width).toNat = 240 - width.toNat := by
    rcases hwidth with rfl | rfl <;> decide
  have hscale := Nat.mul_lt_mul_left hpos (b := Grid.col (maxX.toNat / width.toNat) n + 1)
    (c := maxX.toNat / width.toNat)
  rw [UInt16.lt_iff_toNat_lt, cellXpos_toNat hwidth, hlast, ← hscale, hcols, Nat.mul_add, Nat.mul_one]
  omega

theorem cellYpos_lt_iff (width : UInt16) (n : Nat)
    : cellYpos width n < maxY - 16
        ↔ Grid.row (maxX.toNat / width.toNat) (maxY.toNat / 16) n + 1 < maxY.toNat / 16 := by
  rw [UInt16.lt_iff_toNat_lt, cellYpos_toNat]
  show _ < 304 ↔ _ < 20
  omega

theorem moveCursor_cell (hwidth : width = 8 ∨ width = 16) (n : Nat)
    : moveCursor width (cellXpos width n) (cellYpos width n) =
        (cellXpos width (n + 1), cellYpos width (n + 1)) := by
  have hcol : Grid.col (maxX.toNat / width.toNat) n < maxX.toNat / width.toNat := by
    apply Grid.col_lt
    rcases hwidth with rfl | rfl <;> decide
  have hrow : Grid.row (maxX.toNat / width.toNat) (maxY.toNat / 16) n < maxY.toNat / 16 :=
    Grid.row_lt (by decide)
  unfold moveCursor
  split
  . next hlt =>
    rw [cellXpos_lt_iff hwidth] at hlt
    have hxpos : cellXpos width (n + 1) = cellXpos width n + width := by
      unfold cellXpos
      rw [Grid.col_succ_of_lt hlt, Nat.mul_add, Nat.mul_one, UInt16.ofNat_add, UInt16.ofNat_toNat]
    have hypos : cellYpos width (n + 1) = cellYpos width n := by
      unfold cellYpos
      rw [Grid.row_succ_of_lt hlt]
    rw [hxpos, hypos]
  . next hge =>
    rw [cellXpos_lt_iff hwidth] at hge
    have hend : Grid.col (maxX.toNat / width.toNat) n + 1 = maxX.toNat / width.toNat := by omega
    have hxpos : cellXpos width (n + 1) = 0 := by
      unfold cellXpos
      rw [Grid.col_succ_of_end hend]
      rfl
    have hpos : 0 < maxX.toNat / width.toNat := by omega
    have hnext : Grid.row (maxX.toNat / width.toNat) (maxY.toNat / 16) (n + 1) =
        (Grid.row (maxX.toNat / width.toNat) (maxY.toNat / 16) n + 1) % (maxY.toNat / 16) :=
      Grid.row_succ_of_end hpos hend
    rw [hxpos]
    split
    . next hlt =>
      rw [cellYpos_lt_iff] at hlt
      have hypos : cellYpos width (n + 1) = cellYpos width n + 16 := by
        unfold cellYpos
        rw [hnext, Nat.mod_eq_of_lt hlt, Nat.mul_add, Nat.mul_one, UInt16.ofNat_add]
        rfl
      rw [hypos]
    . next hge' =>
      rw [cellYpos_lt_iff] at hge'
      have hlast : Grid.row (maxX.toNat / width.toNat) (maxY.toNat / 16) n + 1 = maxY.toNat / 16 := by
        omega
      have hypos : cellYpos width (n + 1) = 0 := by
        unfold cellYpos
        rw [hnext, hlast, Nat.mod_self]
        rfl
      rw [hypos]

theorem OnGrid.col_lt (hwidth : width = 8 ∨ width = 16) (h : OnGrid width xpos ypos)
    : xpos.toNat / width.toNat < maxX.toNat / width.toNat := by
  have hright := h.right
  rcases hwidth with rfl | rfl
  . show xpos.toNat / 8 < 30
    change xpos.toNat + 8 ≤ 240 at hright
    omega
  . show xpos.toNat / 16 < 15
    change xpos.toNat + 16 ≤ 240 at hright
    omega

theorem OnGrid.cellXpos_eq (hwidth : width = 8 ∨ width = 16) (h : OnGrid width xpos ypos)
    : cellXpos width (cellOf width xpos ypos) = xpos := by
  have hmul : width.toNat * (xpos.toNat / width.toNat) = xpos.toNat := by
    apply Nat.mul_div_cancel'
    apply Nat.dvd_of_mod_eq_zero
    exact h.col
  have hcol := h.col_lt hwidth
  unfold cellXpos cellOf
  rw [Grid.col_cell hcol, hmul, UInt16.ofNat_toNat]

theorem OnGrid.cellYpos_eq (hwidth : width = 8 ∨ width = 16) (h : OnGrid width xpos ypos)
    : cellYpos width (cellOf width xpos ypos) = ypos := by
  have hmul : 16 * (ypos.toNat / 16) = ypos.toNat := by
    apply Nat.mul_div_cancel'
    apply Nat.dvd_of_mod_eq_zero
    exact h.row
  have hcol := h.col_lt hwidth
  have hrow : ypos.toNat / 16 < maxY.toNat / 16 := by
    have hbottom := h.bottom
    show ypos.toNat / 16 < 20
    change ypos.toNat + 16 ≤ 320 at hbottom
    omega
  unfold cellYpos cellOf
  rw [Grid.row_cell hcol hrow, hmul, UInt16.ofNat_toNat]

theorem textLoop_cell (hwidth : width = 8 ∨ width = 16) (m : Nat)
    : textLoop str width bytes put (fuel + 1) (cellXpos width m) (cellYpos width m) i =
        if str (i + bytes) ≠ 0 then
          (textLoop str width bytes put fuel (cellXpos width (m + 1)) (cellYpos width (m + 1))
            (i + bytes)).map fun run =>
              { glyphs := put (cellXpos width m) (cellYpos width m) i :: run.glyphs
                reads := List.range' i bytes ++ [i + bytes] ++ run.reads }
        else
          some { glyphs := [put (cellXpos width m) (cellYpos width m) i]
                 reads := List.range' i bytes ++ [i + bytes] } := by
  simp only [textLoop, moveCursor_cell hwidth]
  split
  . split
    . next h => rw [h, Option.map_none]
    . next h => rw [h, Option.map_some]
  . rfl

theorem glyph_next (i bytes t : Nat) : i + bytes + (t + 1) * bytes = i + (t + 1 + 1) * bytes := by
  rw [Nat.add_mul (t + 1) 1 bytes]
  omega

theorem more_next (h : ∀ t, t < n + 1 → str (i + (t + 1) * bytes) ≠ 0)
    : str (i + bytes) ≠ 0 ∧ ∀ t, t < n → str (i + bytes + (t + 1) * bytes) ≠ 0 := by
  constructor
  . have hfirst := h 0 (Nat.succ_pos n)
    rw [Nat.zero_add, Nat.one_mul] at hfirst
    exact hfirst
  . intro t ht
    rw [glyph_next]
    apply h
    omega

theorem textLoop_shown (put : UInt16 → UInt16 → Nat → List SetPoint) (hwidth : width = 8 ∨ width = 16)
    (hmore : ∀ t, t < n → str (i + (t + 1) * bytes) ≠ 0) (hend : str (i + (n + 1) * bytes) = 0) (hfuel : n < fuel)
    (m : Nat)
    : ∃ run, textLoop str width bytes put fuel (cellXpos width m) (cellYpos width m) i = some run
        ∧ (∀ a ∈ run.reads, a ≤ i + (n + 1) * bytes)
        ∧ run.glyphs = (List.range (n + 1)).map fun k =>
            put (cellXpos width (m + k)) (cellYpos width (m + k)) (i + k * bytes) := by
  induction n generalizing fuel m i with
  | zero =>
    obtain ⟨fuel, rfl⟩ : ∃ k, fuel = k + 1 := ⟨fuel - 1, by omega⟩
    rw [Nat.zero_add, Nat.one_mul] at hend ⊢
    rw [textLoop_cell hwidth, if_neg (not_not_intro hend)]
    refine ⟨_, rfl, ?_, ?_⟩
    . intro a ha
      simp only [List.mem_append, List.mem_range'_1, List.mem_singleton] at ha
      omega
    . simp [List.range_succ]
  | succ n ih =>
    obtain ⟨fuel, rfl⟩ : ∃ k, fuel = k + 1 := ⟨fuel - 1, by omega⟩
    obtain ⟨hnext, hmore'⟩ := more_next hmore
    rw [← glyph_next] at hend
    have hfuel' : n < fuel := by omega
    obtain ⟨run, hrun, hreads, hglyphs⟩ := ih hmore' hend hfuel' (m + 1)
    rw [textLoop_cell hwidth, if_pos hnext, hrun, Option.map_some]
    refine ⟨_, rfl, ?_, ?_⟩
    . intro a ha
      rw [List.mem_append] at ha
      rcases ha with ha | ha
      . simp only [List.mem_append, List.mem_range'_1, List.mem_singleton] at ha
        rw [← glyph_next]
        omega
      . rw [← glyph_next]
        exact hreads a ha
    . rw [List.range_succ_eq_map, List.map_cons, List.map_map, hglyphs]
      rw [List.cons_eq_cons]
      constructor
      . rw [Nat.add_zero, Nat.zero_mul, Nat.add_zero]
      . apply List.map_congr_left
        intro k _
        show _ = put _ _ (i + (k + 1) * bytes)
        rw [Nat.add_mul, Nat.one_mul, Nat.add_assoc m 1 k, Nat.add_comm 1 k, Nat.add_assoc i bytes,
          Nat.add_comm bytes]

theorem textLoop_inv (hrun : textLoop str width bytes put fuel xpos ypos i = some run)
    : i + bytes ∈ run.reads
        ∧ (str (i + bytes) ≠ 0 → ∃ fuel' xpos' ypos' run',
            textLoop str width bytes put fuel' xpos' ypos' (i + bytes) = some run'
              ∧ ∀ a ∈ run'.reads, a ∈ run.reads) := by
  cases fuel with
  | zero => cases hrun
  | succ fuel =>
    rw [textLoop] at hrun
    generalize moveCursor width xpos ypos = cursor at hrun
    obtain ⟨xpos', ypos'⟩ := cursor
    dsimp only at hrun
    split at hrun
    . next hnext =>
      split at hrun
      . cases hrun
      . next run' hrun' =>
        cases hrun
        constructor
        . simp
        . intro _
          refine ⟨fuel, xpos', ypos', run', hrun', ?_⟩
          intro a ha
          apply List.mem_append_right
          exact ha
    . next hend =>
      cases hrun
      constructor
      . simp
      . intro hnext
        contradiction

theorem textLoop_reads (hrun : textLoop str width bytes put fuel xpos ypos i = some run)
    (hmore : ∀ t, t < n → str (i + (t + 1) * bytes) ≠ 0)
    : i + (n + 1) * bytes ∈ run.reads := by
  obtain ⟨hread, hloop⟩ := textLoop_inv hrun
  induction n generalizing fuel xpos ypos i run with
  | zero =>
    rw [Nat.zero_add, Nat.one_mul]
    exact hread
  | succ n ih =>
    obtain ⟨hnext, hmore'⟩ := more_next hmore
    obtain ⟨fuel', xpos', ypos', run', hrun', hreads⟩ := hloop hnext
    obtain ⟨hread', hloop'⟩ := textLoop_inv hrun'
    rw [← glyph_next]
    apply hreads
    exact ih hrun' hmore' hread' hloop'

theorem onScreen_offset {w i j : Nat} (hright : xpos.toNat + w ≤ maxX.toNat)
    (hbottom : ypos.toNat + 16 ≤ maxY.toNat) (hi : i < 16) (hj : j < w) (point : UInt16)
    : (SetPoint.mk (xpos + UInt16.ofNat j) (ypos + UInt16.ofNat i) point).OnScreen := by
  change xpos.toNat + w ≤ 240 at hright
  change ypos.toNat + 16 ≤ 320 at hbottom
  constructor
  . rw [UInt16.lt_iff_toNat_lt, UInt16.toNat_add, UInt16.toNat_ofNat']
    show _ < 240
    omega
  . rw [UInt16.lt_iff_toNat_lt, UInt16.toNat_add, UInt16.toNat_ofNat']
    show _ < 320
    omega

theorem putChar_onScreen (asciiLib : Int → Nat → UInt8) (asci : UInt8) (charColor bkColor : UInt16)
    (hright : xpos.toNat + 8 ≤ maxX.toNat) (hbottom : ypos.toNat + 16 ≤ maxY.toNat)
    : ∀ p ∈ putChar asciiLib xpos ypos asci charColor bkColor, p.OnScreen := by
  intro p hp
  simp only [putChar, List.mem_flatMap, List.mem_map, List.mem_range] at hp
  obtain ⟨i, hi, j, hj, rfl⟩ := hp
  apply onScreen_offset hright hbottom hi hj

theorem putChinese_onScreen (hzLib : Int → Nat → UInt8) (high8bit low8bit : UInt8) (color bkColor : UInt16)
    (hright : xpos.toNat + 16 ≤ maxX.toNat) (hbottom : ypos.toNat + 16 ≤ maxY.toNat)
    : ∀ p ∈ putChinese hzLib xpos ypos high8bit low8bit color bkColor, p.OnScreen := by
  intro p hp
  simp only [putChinese, List.mem_flatMap, List.mem_map, List.mem_range] at hp
  obtain ⟨i, hi, j, hj, rfl⟩ := hp
  apply onScreen_offset hright hbottom hi hj

theorem cellXpos_right (hwidth : width = 8 ∨ width = 16) (n : Nat)
    : (cellXpos width n).toNat + width.toNat ≤ maxX.toNat := by
  rw [cellXpos_toNat hwidth]
  rcases hwidth with rfl | rfl
  . have hlt : Grid.col 30 n < 30 := Grid.col_lt (by decide)
    show 8 * Grid.col 30 n + 8 ≤ 240
    omega
  . have hlt : Grid.col 15 n < 15 := Grid.col_lt (by decide)
    show 16 * Grid.col 15 n + 16 ≤ 240
    omega

theorem cellYpos_bottom (width : UInt16) (n : Nat) : (cellYpos width n).toNat + 16 ≤ maxY.toNat := by
  have hlt : Grid.row (maxX.toNat / width.toNat) (maxY.toNat / 16) n < 20 := Grid.row_lt (by decide)
  rw [cellYpos_toNat]
  show _ ≤ 320
  omega

theorem whole_of_shows (hbytes : 0 < bytes) (hstr : IsString str len)
    (hrun : textLoop str width bytes put fuel xpos ypos 0 = some run)
    (hshows : Shows width xpos ypos bytes put len run)
    : len ≠ 0 ∧ len % bytes = 0 := by
  have hlen := Nat.div_add_mod len bytes
  have hmod := Nat.mod_lt len hbytes
  rw [Nat.mul_comm] at hlen
  apply Decidable.byContradiction
  intro hbad
  have hmore : ∀ t, t < len / bytes → str (0 + (t + 1) * bytes) ≠ 0 := by
    intro t ht
    have hle : (t + 1) * bytes ≤ len / bytes * bytes := by
      apply Nat.mul_le_mul_right
      exact ht
    have hne : len ≠ 0 := by
      rintro rfl
      rw [Nat.zero_div] at ht
      omega
    rw [Nat.zero_add]
    apply hstr.1
    omega
  have hread := hshows.inside _ (textLoop_reads hrun hmore)
  rw [Nat.zero_add, Nat.add_mul, Nat.one_mul] at hread
  omega

theorem shows_of_whole (hwidth : width = 8 ∨ width = 16) (hbytes : 0 < bytes)
    (hput : ∀ xpos ypos i, xpos.toNat + width.toNat ≤ maxX.toNat → ypos.toNat + 16 ≤ maxY.toNat →
      ∀ p ∈ put xpos ypos i, p.OnScreen)
    (hstr : IsString str len) (hgrid : OnGrid width xpos ypos) (hn : len = (n + 1) * bytes)
    : ∃ run, textLoop str width bytes put (n + 1) xpos ypos 0 = some run
        ∧ Shows width xpos ypos bytes put len run := by
  have hend : 0 + (n + 1) * bytes = len := by
    rw [Nat.zero_add]
    exact hn.symm
  have hmore : ∀ t, t < n → str (0 + (t + 1) * bytes) ≠ 0 := by
    intro t ht
    apply hstr.1
    rw [← hend]
    apply Nat.add_lt_add_left
    apply Nat.mul_lt_mul_of_pos_right _ hbytes
    omega
  have hnul : str (0 + (n + 1) * bytes) = 0 := by
    rw [hend]
    exact hstr.2
  obtain ⟨run, hrun, hreads, hglyphs⟩ :=
    textLoop_shown put hwidth hmore hnul (Nat.lt_succ_self n) (cellOf width xpos ypos)
  rw [hgrid.cellXpos_eq hwidth, hgrid.cellYpos_eq hwidth] at hrun
  refine ⟨run, hrun, ?_, ?_, ?_⟩
  . rw [hend] at hreads
    exact hreads
  . rw [hglyphs, hn, Nat.mul_div_cancel _ hbytes]
    simp only [Nat.zero_add]
  . intro glyph hglyph
    rw [hglyphs, List.mem_map] at hglyph
    obtain ⟨k, -, rfl⟩ := hglyph
    apply hput
    . apply cellXpos_right hwidth
    . apply cellYpos_bottom

theorem textLoop_shows_iff (hwidth : width = 8 ∨ width = 16) (hbytes : 0 < bytes)
    (hput : ∀ xpos ypos i, xpos.toNat + width.toNat ≤ maxX.toNat → ypos.toNat + 16 ≤ maxY.toNat →
      ∀ p ∈ put xpos ypos i, p.OnScreen)
    (hstr : IsString str len) (hgrid : OnGrid width xpos ypos)
    : (∃ fuel run, textLoop str width bytes put fuel xpos ypos 0 = some run
          ∧ Shows width xpos ypos bytes put len run)
        ↔ len ≠ 0 ∧ len % bytes = 0 := by
  constructor
  . rintro ⟨fuel, run, hrun, hshows⟩
    apply whole_of_shows hbytes hstr hrun hshows
  . rintro ⟨hne, hwhole⟩
    have hlen := Nat.div_add_mod len bytes
    rw [hwhole, Nat.add_zero, Nat.mul_comm] at hlen
    cases hq : len / bytes with
    | zero =>
      rw [hq, Nat.zero_mul] at hlen
      exact absurd hlen.symm hne
    | succ n =>
      rw [hq] at hlen
      refine ⟨n + 1, ?_⟩
      apply shows_of_whole hwidth hbytes hput hstr hgrid hlen.symm

theorem textShown_iff (asciiLib hzLib : Int → Nat → UInt8) (xpos ypos : UInt16) (str : Nat → UInt8)
    (len : Nat) (color bkColor : UInt16) (hstr : IsString str len)
    : (OnGrid 8 xpos ypos →
        ((∃ fuel run, guiText asciiLib xpos ypos str color bkColor fuel = some run
            ∧ Shows 8 xpos ypos 1
                (fun xpos ypos i => putChar asciiLib xpos ypos (str i) color bkColor) len run)
          ↔ len ≠ 0))
      ∧ (OnGrid 16 xpos ypos →
        ((∃ fuel run, guiChinese hzLib xpos ypos str color bkColor fuel = some run
            ∧ Shows 16 xpos ypos 2
                (fun xpos ypos i => putChinese hzLib xpos ypos (str i) (str (i + 1)) color bkColor) len run)
          ↔ len ≠ 0 ∧ len % 2 = 0)) := by
  constructor
  . intro hgrid
    have hput : ∀ xpos ypos i, xpos.toNat + (8 : UInt16).toNat ≤ maxX.toNat → ypos.toNat + 16 ≤ maxY.toNat →
        ∀ p ∈ putChar asciiLib xpos ypos (str i) color bkColor, p.OnScreen := by
      intro xpos ypos i hright hbottom
      apply putChar_onScreen asciiLib _ _ _ hright hbottom
    have hiff := textLoop_shows_iff (Or.inl rfl) Nat.one_pos hput hstr hgrid
    rw [Nat.mod_one, and_iff_left rfl] at hiff
    exact hiff
  . intro hgrid
    apply textLoop_shows_iff (Or.inr rfl) Nat.two_pos _ hstr hgrid
    intro xpos ypos i hright hbottom
    apply putChinese_onScreen hzLib _ _ _ _ hright hbottom

theorem textShown_iff_twoBytes
    : (∃ fuel run, guiText (fun _ _ => 0) 232 304 (byteString [0x48, 0x69]) 1 0 fuel = some run
          ∧ Shows 8 232 304 1
              (fun xpos ypos i => putChar (fun _ _ => 0) xpos ypos (byteString [0x48, 0x69] i) 1 0) 2 run)
      ∧ ∃ fuel run, guiChinese (fun _ _ => 0) 224 304 (byteString [0xB0, 0xA1]) 1 0 fuel = some run
          ∧ Shows 16 224 304 2
              (fun xpos ypos i => putChinese (fun _ _ => 0) xpos ypos (byteString [0xB0, 0xA1] i)
                (byteString [0xB0, 0xA1] (i + 1)) 1 0) 2 run := by
  constructor
  . apply (textShown_iff (fun _ _ => 0) (fun _ _ => 0) 232 304 (byteString [0x48, 0x69]) 2 1 0
      (isString_byteString [0x48, 0x69] (by simp))).1 ⟨by decide, by decide, by decide, by decide⟩ |>.mpr
    decide
  . apply (textShown_iff (fun _ _ => 0) (fun _ _ => 0) 224 304 (byteString [0xB0, 0xA1]) 2 1 0
      (isString_byteString [0xB0, 0xA1] (by simp))).2 ⟨by decide, by decide, by decide, by decide⟩ |>.mpr
    decide

theorem emptyText_not_shown
    : (IsString (byteString []) 0 ∧ OnGrid 8 0 0 ∧ OnGrid 16 0 0
        ∧ (¬ ∃ fuel run, guiText (fun _ _ => 0) 0 0 (byteString []) 1 0 fuel = some run
            ∧ Shows 8 0 0 1 (fun xpos ypos i => putChar (fun _ _ => 0) xpos ypos (byteString [] i) 1 0) 0 run)
        ∧ ¬ ∃ fuel run, guiChinese (fun _ _ => 0) 0 0 (byteString []) 1 0 fuel = some run
            ∧ Shows 16 0 0 2 (fun xpos ypos i =>
                putChinese (fun _ _ => 0) xpos ypos (byteString [] i) (byteString [] (i + 1)) 1 0) 0 run)
      ∧ IsString (byteString [0xD6]) 1
        ∧ ¬ ∃ fuel run, guiChinese (fun _ _ => 0) 0 0 (byteString [0xD6]) 1 0 fuel = some run
            ∧ Shows 16 0 0 2 (fun xpos ypos i =>
                putChinese (fun _ _ => 0) xpos ypos (byteString [0xD6] i) (byteString [0xD6] (i + 1)) 1 0) 1 run := by
  have hempty := isString_byteString [] (by simp)
  have hone := isString_byteString [0xD6] (by simp)
  have hnever : ∀ t, t < 0 → ∀ str : Nat → UInt8, ∀ bytes, str (0 + (t + 1) * bytes) ≠ 0 := by
    intro t ht
    contradiction
  refine ⟨⟨hempty, ⟨by decide, by decide, by decide, by decide⟩, ⟨by decide, by decide, by decide, by decide⟩,
    ?_, ?_⟩, hone, ?_⟩
  all_goals
    rintro ⟨fuel, run, hrun, hshows⟩
    have hread := hshows.inside _ (textLoop_reads hrun fun t ht => hnever t ht _ _)
    omega

end SerialGateway
