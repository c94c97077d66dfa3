import Vajra.PaneInterference

/-!
# What a pane shows of a text (`hal/x86_64/console.c`)

`win_scroll` copies each row of a pane over the one above it, cell by cell and in place, and
blanks the last one: `scrollCells_cell` says what a cell holds afterwards.  `layout` is the text
as rows, with no screen in it.  `Displays` relates the two: the cells of a pane are the last
rows of a text, and its cursor stands behind the last character.  A byte of text keeps this
with one row made longer or one row more (`Displays.putchar`), and so a text of any length is
displayed by its last rows (`displays_layout`).
-/

namespace Vajra

open Footprint

/-- The entry of row `r` and column `c` of a pane. -/
def Pane.cell (p : Pane) (r c : Nat) : Int := (p.box.y + r) * vgaCols + (p.box.x + c)

/-- The number of columns and of rows of a pane. -/
def Pane.width (p : Pane) : Nat := p.box.w.toNat
def Pane.height (p : Pane) : Nat := p.box.h.toNat

theorem Pane.width_eq (p : Pane) : (p.width : Int) = p.box.w := by
  cases p with
  | log => rfl
  | shell => rfl

theorem Pane.height_eq (p : Pane) : (p.height : Int) = p.box.h := by
  cases p with
  | log => rfl
  | shell => rfl

theorem Pane.width_fits (p : Pane) : (p.width : Int) < vgaCols := by
  cases p with
  | log => decide
  | shell => decide

theorem Pane.height_pos (p : Pane) : 0 < p.height := by
  cases p with
  | log => decide
  | shell => decide

theorem Pane.width_pos (p : Pane) : 0 < p.width := by
  cases p with
  | log => decide
  | shell => decide

/-- Rows are shorter than the screen, so no two cells of a pane share an entry. -/
theorem Pane.cell_inj (p : Pane) {r c r' c' : Nat} (hc : c < p.width) (hc' : c' < p.width) :
    p.cell r c = p.cell r' c' ↔ r = r' ∧ c = c' := by
  have hfits := p.width_fits
  constructor
  · intro h
    simp only [Pane.cell, vgaCols] at h hfits
    omega
  · rintro ⟨rfl, rfl⟩
    rfl

theorem Pane.cell_mem (p : Pane) {r c : Nat} (hr : r < p.height) (hc : c < p.width) :
    p.cell r c ∈ p.cells := by
  have hw := p.width_eq
  have hh := p.height_eq
  exact mem_cells p (by omega) (by omega) (by omega) (by omega)

/-- A write to one cell of a pane, read at another. -/
theorem vgaPut_cell (p : Pane) (vga : Vga) (entry : UInt16) {r c r' c' : Nat} (hc : c < p.width)
    (hc' : c' < p.width) :
    vgaPut vga (p.box.y + r) (p.box.x + c) entry (p.cell r' c') =
      if r' = r ∧ c' = c then entry else vga (p.cell r' c') := by
  have haddr : (p.box.y + r) * vgaCols + (p.box.x + c) = p.cell r c := rfl
  rw [vgaPut, haddr, Function.update_apply]
  simp only [Pane.cell_inj p hc' hc]

/-- The inner loop of `win_scroll`: row `r + 1` copied over row `r`. -/
def copyRow (box : Box) (r n : Nat) (vga : Vga) : Vga :=
  (List.range n).foldl (fun vga (c : Nat) =>
    vgaPut vga (box.y + (r + 1) - 1) (box.x + c)
      (vga ((box.y + (r + 1)) * vgaCols + (box.x + c)))) vga

/-- A row blanked in the colour of the screen. -/
def blankRow (box : Box) (r : Int) (n : Nat) (vga : Vga) : Vga :=
  (List.range n).foldl (fun vga (c : Nat) =>
    vgaPut vga r (box.x + c) (vgaEntry 0x20 vgaColor)) vga

theorem copyRow_succ (box : Box) (r n : Nat) (vga : Vga) : copyRow box r (n + 1) vga =
    vgaPut (copyRow box r n vga) (box.y + (r + 1) - 1) (box.x + n)
      (copyRow box r n vga ((box.y + (r + 1)) * vgaCols + (box.x + n))) := by
  simp only [copyRow, List.range_succ, List.foldl_append, List.foldl_cons, List.foldl_nil]

theorem blankRow_succ (box : Box) (r : Int) (n : Nat) (vga : Vga) : blankRow box r (n + 1) vga =
    vgaPut (blankRow box r n vga) r (box.x + n) (vgaEntry 0x20 vgaColor) := by
  simp only [blankRow, List.range_succ, List.foldl_append, List.foldl_cons, List.foldl_nil]

/-- The cells of a row are read before they are overwritten: the copy goes to the row above. -/
theorem copyRow_cell (p : Pane) (r : Nat) (vga : Vga) {n : Nat} (hn : n ≤ p.width) {r' c' : Nat}
    (hc' : c' < p.width) : copyRow p.box r n vga (p.cell r' c') =
      if r' = r ∧ c' < n then vga (p.cell (r + 1) c') else vga (p.cell r' c') := by
  induction n generalizing r' c' with
  | zero => simp [copyRow]
  | succ n ih =>
      have hrow : p.box.y + ((r : Int) + 1) - 1 = p.box.y + r := by ring
      have hsource : (p.box.y + ((r : Int) + 1)) * vgaCols + (p.box.x + n) = p.cell (r + 1) n := by
        simp [Pane.cell]
      have hbelow : copyRow p.box r n vga (p.cell (r + 1) n) = vga (p.cell (r + 1) n) := by
        rw [ih (by omega) hn, if_neg (by omega)]
      rw [copyRow_succ, hrow, hsource, hbelow, vgaPut_cell p _ _ hn hc', ih (by omega) hc']
      by_cases hhere : r' = r ∧ c' = n
      · obtain ⟨rfl, rfl⟩ := hhere
        rw [if_pos ⟨rfl, rfl⟩, if_pos ⟨rfl, Nat.lt_succ_self _⟩]
      · rw [if_neg hhere]
        have hiff : (r' = r ∧ c' < n) ↔ (r' = r ∧ c' < n + 1) := by omega
        simp only [hiff]

theorem blankRow_cell (p : Pane) (r : Nat) (vga : Vga) {n : Nat} (hn : n ≤ p.width) {r' c' : Nat}
    (hc' : c' < p.width) : blankRow p.box (p.box.y + r) n vga (p.cell r' c') =
      if r' = r ∧ c' < n then vgaEntry 0x20 vgaColor else vga (p.cell r' c') := by
  induction n with
  | zero => simp [blankRow]
  | succ n ih =>
      rw [blankRow_succ, vgaPut_cell p _ _ hn hc', ih (by omega)]
      by_cases hhere : r' = r ∧ c' = n
      · obtain ⟨rfl, rfl⟩ := hhere
        rw [if_pos ⟨rfl, rfl⟩, if_pos ⟨rfl, Nat.lt_succ_self _⟩]
      · rw [if_neg hhere]
        have hiff : (r' = r ∧ c' < n) ↔ (r' = r ∧ c' < n + 1) := by omega
        simp only [hiff]

/-- The outer loop of `win_scroll` after `m` rows. -/
theorem copyRows_cell (p : Pane) (m : Nat) (vga : Vga) {r' c' : Nat} (hc' : c' < p.width) :
    (List.range m).foldl (fun vga r => copyRow p.box r p.width vga) vga (p.cell r' c') =
      if r' < m then vga (p.cell (r' + 1) c') else vga (p.cell r' c') := by
  induction m generalizing r' with
  | zero => simp
  | succ m ih =>
      rw [List.range_succ, List.foldl_append, List.foldl_cons, List.foldl_nil,
        copyRow_cell p m _ (Nat.le_refl _) hc', ih, ih, if_neg (by omega : ¬ m + 1 < m)]
      by_cases hhere : r' = m
      · subst hhere
        rw [if_pos ⟨rfl, hc'⟩, if_pos (Nat.lt_succ_self _)]
      · rw [if_neg (fun h => hhere h.1)]
        have hiff : r' < m ↔ r' < m + 1 := by omega
        simp only [hiff]

/-- **What `win_scroll` leaves in a cell.** -/
theorem scrollCells_cell (p : Pane) (vga : Vga) {r c : Nat} (hr : r < p.height)
    (hc : c < p.width) : scrollCells p.box vga (p.cell r c) =
      if r + 1 < p.height then vga (p.cell (r + 1) c) else vgaEntry 0x20 vgaColor := by
  have hh := p.height_eq
  have hlast : p.box.y + p.box.h - 1 = p.box.y + ((p.height - 1 : Nat) : Int) := by omega
  have hrows : (p.box.h - 1).toNat = p.height - 1 := by omega
  have hscroll : scrollCells p.box vga = blankRow p.box (p.box.y + p.box.h - 1) p.width
      ((List.range (p.box.h - 1).toNat).foldl (fun vga r => copyRow p.box r p.width vga) vga) :=
    rfl
  rw [hscroll, hlast, hrows, blankRow_cell p _ _ (Nat.le_refl _) hc, copyRows_cell p _ _ hc]
  by_cases hbottom : r + 1 < p.height
  · rw [if_neg (by omega), if_pos (by omega), if_pos hbottom]
  · rw [if_pos (by omega), if_neg hbottom]

/-- The character of an entry. -/
def entryChar (entry : UInt16) : UInt8 := entry.toUInt8

theorem entryChar_vgaEntry (c color : UInt8) : entryChar (vgaEntry c.toUInt16 color) = c := by
  apply UInt8.toBitVec_inj.mp
  ext i hi
  simp [entryChar, vgaEntry]

/-- A blank cell. -/
theorem entryChar_blank : entryChar (vgaEntry 0x20 vgaColor) = 0x20 := by decide

/-- `hal_console_write` of a string, given by its bytes up to the NUL. -/
def halConsoleWrite (s : Console) (str : List UInt8) : Console := str.foldl halConsolePutchar s

/-- A printable character. -/
def Printable (c : UInt8) : Prop := 0x20 ≤ c ∧ c ≤ 0x7E

instance (c : UInt8) : Decidable (Printable c) := inferInstanceAs (Decidable (_ ∧ _))

/-- A text in rows of width `w`, `row` being the part of the first one already there.  A row ends
at a newline or after its `w`-th character; the last row is the one the cursor is on. -/
def layout (w : Nat) (row : List UInt8) : List UInt8 → List (List UInt8)
  | [] => [row]
  | c :: text =>
      if c = 0x0A then row :: layout w [] text
      else if row.length + 1 = w then (row ++ [c]) :: layout w [] text
      else layout w (row ++ [c]) text

/-- What the cell of row `r` and column `c` has to show when the last `h` of the rows are
displayed from the top on. -/
def lastRowsChar (h : Nat) (rows : List (List UInt8)) (r c : Nat) : UInt8 :=
  ((rows.drop (rows.length - h)).getD r []).getD c 0x20

theorem lastRowsChar_eq (h : Nat) (rows : List (List UInt8)) (r c : Nat) :
    lastRowsChar h rows r c = (rows.getD (rows.length - h + r) []).getD c 0x20 := by
  simp [lastRowsChar, List.getD_eq_getElem?_getD, List.getElem?_drop]

/-- The cells of a pane show the last of the rows. -/
def CellsShow (vga : Vga) (p : Pane) (rows : List (List UInt8)) : Prop :=
  ∀ r < p.height, ∀ c < p.width,
    entryChar (vga (p.cell r c)) = lastRowsChar p.height rows r c

/-- A character printed behind the last row. -/
theorem CellsShow.print {vga : Vga} {p : Pane} {rows : List (List UInt8)} {row : List UInt8}
    (hshow : CellsShow vga p (rows ++ [row])) (hroom : row.length < p.width) (c color : UInt8) :
    CellsShow (vgaPut vga (p.box.y + (min rows.length (p.height - 1) : Nat))
      (p.box.x + row.length) (vgaEntry c.toUInt16 color)) p (rows ++ [row ++ [c]]) := by
  intro r hr k hk
  rw [vgaPut_cell p _ _ hroom hk]
  have hold := hshow r hr k hk
  rw [lastRowsChar_eq, List.length_append, List.length_singleton] at hold ⊢
  by_cases hlast : r = min rows.length (p.height - 1)
  · have hindex : rows.length + 1 - p.height + r = rows.length := by omega
    rw [hindex] at hold ⊢
    simp only [List.getD_eq_getElem?_getD, List.getElem?_concat_length, Option.getD_some] at hold ⊢
    by_cases hhere : k = row.length
    · rw [if_pos ⟨hlast, hhere⟩, hhere, entryChar_vgaEntry]
      simp
    · rw [if_neg fun h => hhere h.2, hold]
      by_cases hleft : k < row.length
      · rw [List.getElem?_append_left hleft]
      · rw [List.getElem?_append_right (by omega), List.getElem?_eq_none (by omega),
          List.getElem?_eq_none (by simp; omega)]
  · have hindex : rows.length + 1 - p.height + r ≠ rows.length := by omega
    rw [if_neg fun h => hlast h.1, hold]
    congr 1
    grind

/-- A new row below, while the pane has room. -/
theorem CellsShow.newRow {vga : Vga} {p : Pane} {rows : List (List UInt8)}
    (hshow : CellsShow vga p rows) (hroom : rows.length < p.height) :
    CellsShow vga p (rows ++ [[]]) := by
  intro r hr k hk
  rw [hshow r hr k hk, lastRowsChar_eq, lastRowsChar_eq, List.length_append,
    List.length_singleton]
  have hall : rows.length - p.height = 0 := by omega
  have hall' : rows.length + 1 - p.height = 0 := by omega
  rw [hall, hall', Nat.zero_add]
  congr 1
  grind

/-- A new row below in a full pane: the rows move up. -/
theorem CellsShow.scroll {vga : Vga} {p : Pane} {rows : List (List UInt8)}
    (hshow : CellsShow vga p rows) (hfull : p.height ≤ rows.length) :
    CellsShow (scrollCells p.box vga) p (rows ++ [[]]) := by
  intro r hr k hk
  rw [scrollCells_cell p vga hr hk, lastRowsChar_eq, List.length_append, List.length_singleton]
  by_cases hbottom : r + 1 < p.height
  · rw [if_pos hbottom, hshow (r + 1) hbottom k hk, lastRowsChar_eq]
    have hindex : rows.length + 1 - p.height + r = rows.length - p.height + (r + 1) := by omega
    have hin : rows.length - p.height + (r + 1) < rows.length := by omega
    rw [hindex]
    simp only [List.getD_eq_getElem?_getD, List.getElem?_append_left hin]
  · have hindex : rows.length + 1 - p.height + r = rows.length := by omega
    rw [if_neg hbottom, hindex, entryChar_blank]
    simp

/-- The console writes a text to the pane: `rows` are complete, and the cursor stands behind
the characters of `row`. -/
structure Displays (s : Console) (p : Pane) (rows : List (List UInt8)) (row : List UInt8) :
    Prop where
  window : s.currentWindow = p
  idle : s.escState = .none
  room : row.length < p.width
  cursor : s.cursors p = ⟨row.length, (min rows.length (p.height - 1) : Nat)⟩
  cells : CellsShow s.vga p (rows ++ [row])

/-- A character of a text is put on the screen. -/
theorem halConsolePutchar_put {s : Console} {c : UInt8} (hidle : s.escState = .none)
    (hesc : c ≠ 0x1B) : Shows s (halConsolePutchar s c) (.put c s.curColor) ∧
      (halConsolePutchar s c).escState = .none := by
  have hbyte : halConsolePutchar s c = putOrdinary { s with serial := c :: s.serial } c := by
    rw [halConsolePutchar, consoleByte]
    dsimp only
    rw [hidle]
    dsimp only
    rw [if_neg hesc]
  rw [hbyte]
  refine ⟨?_, ?_⟩
  · obtain ⟨hvga, hcursors, hwindow⟩ := putOrdinary_shows { s with serial := c :: s.serial } c
    exact ⟨hvga, hcursors, hwindow⟩
  · exact (putOrdinary_keeps _ c).1.trans hidle

/-- The last row ends: the cursor goes to a new one, and the pane scrolls if it was full. -/
theorem Displays.endRow {s' : Console} {p : Pane} {rows : List (List UInt8)} {row : List UInt8}
    {vga : Vga} (hcells : CellsShow vga p (rows ++ [row])) (hwindow : s'.currentWindow = p)
    (hidle : s'.escState = .none)
    (hvga : s'.vga = if p.height ≤ rows.length + 1 then scrollCells p.box vga else vga)
    (hcursor : s'.cursors p = ⟨0, (min (rows.length + 1) (p.height - 1) : Nat)⟩) :
    Displays s' p (rows ++ [row]) [] where
  window := hwindow
  idle := hidle
  room := p.width_pos
  cursor := by simpa using hcursor
  cells := by
    rw [hvga]
    split
    · exact hcells.scroll (by simpa using ‹_›)
    · exact hcells.newRow (by simp; omega)

/-- A byte that moves the cursor to the next row. -/
theorem Displays.putchar_endRow {s : Console} {p : Pane} {rows : List (List UInt8)}
    {row row' : List UInt8} {c : UInt8} (hd : Displays s p rows row) (hesc : c ≠ 0x1B)
    (hnext : advance p.box (s.cursors p) c = ⟨0, (s.cursors p).cy + 1⟩)
    (hcells : CellsShow (printCell p.box (s.cursors p) c s.curColor s.vga) p (rows ++ [row'])) :
    Displays (halConsolePutchar s c) p (rows ++ [row']) [] := by
  obtain ⟨⟨hvga, hcursors, hwindow⟩, hidle⟩ := halConsolePutchar_put hd.idle hesc
  rw [hd.window] at hvga hcursors hwindow
  have hh := p.height_eq
  have hpos := p.height_pos
  have hcy : (s.cursors p).cy = (min rows.length (p.height - 1) : Nat) := by rw [hd.cursor]
  have hscroll : (s.cursors p).cy + 1 ≥ p.box.h ↔ p.height ≤ rows.length + 1 := by omega
  refine Displays.endRow hcells hwindow hidle ?_ ?_
  · rw [hvga, perform, hnext]
    dsimp only
    by_cases hfull : p.height ≤ rows.length + 1
    · rw [if_pos (hscroll.mpr hfull), if_pos hfull]
    · rw [if_neg (mt hscroll.mp hfull), if_neg hfull]
  · rw [hcursors, Function.update_self, perform, hnext]
    dsimp only
    by_cases hfull : p.height ≤ rows.length + 1
    · rw [if_pos (hscroll.mpr hfull)]
      have hbottom : p.box.h - 1 = (min (rows.length + 1) (p.height - 1) : Nat) := by omega
      rw [hbottom]
    · rw [if_neg (mt hscroll.mp hfull)]
      have hbelow : (s.cursors p).cy + 1 = (min (rows.length + 1) (p.height - 1) : Nat) := by omega
      rw [hbelow]

theorem Displays.newline {s : Console} {p : Pane} {rows : List (List UInt8)} {row : List UInt8}
    (hd : Displays s p rows row) :
    Displays (halConsolePutchar s 0x0A) p (rows ++ [row]) [] := by
  refine hd.putchar_endRow (by decide) ?_ ?_
  · rw [advance, if_pos rfl]
  · rw [printCell, if_pos (Or.inl rfl)]
    exact hd.cells

theorem Printable.ne_esc {c : UInt8} (hc : Printable c) : c ≠ 0x1B := by
  rintro rfl
  exact absurd hc (by decide)

theorem Printable.plain {c : UInt8} (hc : Printable c) : ¬ (c = 0x0A ∨ c = 0x08) := by
  rintro (rfl | rfl)
  · exact absurd hc (by decide)
  · exact absurd hc (by decide)

/-- The cells after a printable character. -/
theorem Displays.printCell {s : Console} {p : Pane} {rows : List (List UInt8)} {row : List UInt8}
    {c : UInt8} (hd : Displays s p rows row) (hc : Printable c) :
    CellsShow (Vajra.printCell p.box (s.cursors p) c s.curColor s.vga) p
      (rows ++ [row ++ [c]]) := by
  rw [Vajra.printCell, if_neg hc.plain, hd.cursor]
  exact hd.cells.print hd.room c s.curColor

theorem advance_printable {box : Box} {cur : Cursor} {c : UInt8} (hc : Printable c) :
    advance box cur c = if cur.cx + 1 ≥ box.w then ⟨0, cur.cy + 1⟩ else ⟨cur.cx + 1, cur.cy⟩ := by
  obtain ⟨hnewline, hback⟩ := not_or.mp hc.plain
  rw [advance, if_neg hnewline, if_neg hback]

/-- The last character of a row. -/
theorem Displays.wrap {s : Console} {p : Pane} {rows : List (List UInt8)} {row : List UInt8}
    {c : UInt8} (hd : Displays s p rows row) (hc : Printable c) (hlast : row.length + 1 = p.width) :
    Displays (halConsolePutchar s c) p (rows ++ [row ++ [c]]) [] := by
  have hw := p.width_eq
  have hcx : (s.cursors p).cx = row.length := by rw [hd.cursor]
  refine hd.putchar_endRow hc.ne_esc ?_ (hd.printCell hc)
  rw [advance_printable hc, if_pos (by omega)]

/-- A character inside a row. -/
theorem Displays.print {s : Console} {p : Pane} {rows : List (List UInt8)} {row : List UInt8}
    {c : UInt8} (hd : Displays s p rows row) (hc : Printable c) (hinner : row.length + 1 ≠ p.width) :
    Displays (halConsolePutchar s c) p rows (row ++ [c]) := by
  obtain ⟨⟨hvga, hcursors, hwindow⟩, hidle⟩ := halConsolePutchar_put hd.idle hc.ne_esc
  rw [hd.window] at hvga hcursors hwindow
  have hw := p.width_eq
  have hh := p.height_eq
  have hpos := p.height_pos
  have hroom := hd.room
  have hcx : (s.cursors p).cx = row.length := by rw [hd.cursor]
  have hcy : (s.cursors p).cy = (min rows.length (p.height - 1) : Nat) := by rw [hd.cursor]
  have hnext : advance p.box (s.cursors p) c = ⟨(s.cursors p).cx + 1, (s.cursors p).cy⟩ := by
    rw [advance_printable hc, if_neg (by omega)]
  have hstay : ¬ (s.cursors p).cy ≥ p.box.h := by omega
  rw [perform, hnext, if_neg hstay] at hvga hcursors
  constructor
  · exact hwindow
  · exact hidle
  · simp
    omega
  · rw [hcursors, Function.update_self, hcx, hcy]
    simp
  · rw [hvga]
    exact hd.printCell hc

/-- **A text of any length**, written from a row already begun. -/
theorem displays_layout {p : Pane} {text : List UInt8}
    (htext : ∀ c ∈ text, Printable c ∨ c = 0x0A) {s : Console} {rows : List (List UInt8)}
    {row : List UInt8} (hd : Displays s p rows row) :
    CellsShow (halConsoleWrite s text).vga p (rows ++ layout p.width row text) := by
  -- The row the cursor is on is the only one that can still change, so it is kept apart.
  induction text generalizing s rows row with
  | nil => exact hd.cells
  | cons c text ih =>
      have hrest : ∀ c ∈ text, Printable c ∨ c = 0x0A := fun c' hc' =>
        htext c' (List.mem_cons_of_mem c hc')
      have hwrite : halConsoleWrite s (c :: text) =
          halConsoleWrite (halConsolePutchar s c) text := rfl
      rw [hwrite, layout]
      by_cases hnewline : c = 0x0A
      · subst hnewline
        rw [if_pos rfl]
        have hnext := ih hrest hd.newline
        rwa [List.append_assoc, List.singleton_append] at hnext
      · have hc : Printable c := (htext c List.mem_cons_self).resolve_right hnewline
        rw [if_neg hnewline]
        by_cases hlast : row.length + 1 = p.width
        · rw [if_pos hlast]
          have hnext := ih hrest (hd.wrap hc hlast)
          rwa [List.append_assoc, List.singleton_append] at hnext
        · rw [if_neg hlast]
          exact ih hrest (hd.print hc hlast)

/-- The borders of the panes. -/
structure IsBorder (top bottom row col : Int) : Prop where
  box : (top = 1 ∧ bottom = 15) ∨ (top = 17 ∧ bottom = 24)
  column : 0 ≤ col ∧ col ≤ 79
  edge : row = top ∨ row = bottom ∨ (top < row ∧ row < bottom ∧ (col = 0 ∨ col = 79))

theorem IsBorder.not_cell {top bottom row col : Int} (h : IsBorder top bottom row col) (p : Pane) :
    row * vgaCols + col ∉ p.cells := by
  obtain ⟨hbox, hcol, hedge⟩ := h
  intro hin
  cases p with
  | log =>
      simp only [Pane.cells, Pane.box, vgaCols, Set.mem_ofPred_eq] at hin
      omega
  | shell =>
      simp only [Pane.cells, Pane.box, vgaCols, Set.mem_ofPred_eq] at hin
      omega

theorem IsBorder.within {top bottom row col : Int} (h : IsBorder top bottom row col) (p : Pane)
    (entry : UInt16) : Within p.cellsᶜ (fun vga : Vga => vgaPut vga row col entry) :=
  Within.update (h.not_cell p) fun _ _ _ => rfl

/-- `draw_box` writes on the border. -/
theorem drawBox_within (p : Pane) (title : List UInt8) {top bottom : Int}
    (hbox : (top = 1 ∧ bottom = 15) ∨ (top = 17 ∧ bottom = 24)) :
    Within p.cellsᶜ (fun vga : Vga => drawBox vga top bottom 0 79 title) := by
  have hput : ∀ row col entry, (0 ≤ col ∧ col ≤ 79) →
      (row = top ∨ row = bottom ∨ (top < row ∧ row < bottom ∧ (col = 0 ∨ col = 79))) →
      Within p.cellsᶜ (fun vga : Vga => vgaPut vga row col entry) :=
    fun row col entry hcol hedge => IsBorder.within ⟨hbox, hcol, hedge⟩ p entry
  have hhorizontal : Within p.cellsᶜ (fun vga : Vga =>
      (List.range (79 - 0 - 1 : Int).toNat).foldl (fun vga (c : Nat) =>
        vgaPut (vgaPut vga top (0 + 1 + c) (vgaEntry 0xC4 vgaColor))
          bottom (0 + 1 + c) (vgaEntry 0xC4 vgaColor)) vga) := by
    refine Within.foldl fun c hc => ?_
    have hc : c < 78 := List.mem_range.mp hc
    exact (hput bottom _ _ (by omega) (by omega)).comp (hput top _ _ (by omega) (by omega))
  have hsides : Within p.cellsᶜ (fun vga : Vga =>
      (List.range (bottom - top - 1).toNat).foldl (fun vga (r : Nat) =>
        vgaPut (vgaPut vga (top + 1 + r) 0 (vgaEntry 0xB3 vgaColor))
          (top + 1 + r) 79 (vgaEntry 0xB3 vgaColor)) vga) := by
    refine Within.foldl fun r hr => ?_
    rw [List.mem_range] at hr
    exact (hput _ 79 _ (by omega) (by omega)).comp (hput _ 0 _ (by omega) (by omega))
  have hcorners : Within p.cellsᶜ (fun vga : Vga => vgaPut (vgaPut (vgaPut (vgaPut vga
      top 0 (vgaEntry 0xDA vgaColor)) top 79 (vgaEntry 0xBF vgaColor))
      bottom 0 (vgaEntry 0xC0 vgaColor)) bottom 79 (vgaEntry 0xD9 vgaColor)) := by
    have htop := (hput top 79 (vgaEntry 0xBF vgaColor) (by omega) (by omega)).comp
      (hput top 0 (vgaEntry 0xDA vgaColor) (by omega) (by omega))
    have hleft := (hput bottom 0 (vgaEntry 0xC0 vgaColor) (by omega) (by omega)).comp htop
    exact (hput bottom 79 (vgaEntry 0xD9 vgaColor) (by omega) (by omega)).comp hleft
  have htitle : Within p.cellsᶜ (fun vga : Vga =>
      (List.range title.length).foldl (fun vga (i : Nat) =>
        if (0 : Int) + 2 + i < 79 - 1 then
          vgaPut vga top (0 + 2 + i) (vgaEntry (title.getD i 0).toUInt16 vgaColor)
        else vga) vga) := by
    refine Within.foldl fun i _ => ?_
    split
    · exact hput top _ _ (by omega) (by omega)
    · exact Within.id
  exact htitle.comp (hcorners.comp (hsides.comp hhorizontal))

/-- The loop of `hal_console_init` that blanks the text buffer. -/
theorem blankScreen_cell (n : Nat) (vga : Vga) {i : Int} (hi : 0 ≤ i) (hin : i < n) :
    (List.range n).foldl (fun vga (i : Nat) =>
      Function.update vga (i : Int) (vgaEntry 0x20 vgaColor)) vga i = vgaEntry 0x20 vgaColor := by
  induction n with
  | zero => omega
  | succ n ih =>
      rw [List.range_succ, List.foldl_append, List.foldl_cons, List.foldl_nil,
        Function.update_apply]
      split
      · rfl
      · exact ih (by omega)

/-- `hal_console_init` leaves the panes blank: the banner and the boxes are drawn outside. -/
theorem halConsoleInit_blank (s : Console) {p : Pane} {i : Int} (hi : i ∈ p.cells) :
    (halConsoleInit s).vga i = vgaEntry 0x20 vgaColor := by
  have hout : i ∉ p.cellsᶜ := fun h => h hi
  obtain ⟨-, -, -, -, -, -, -, hfirst, hlast⟩ := cells_interior hi
  have hbanner : Within p.cellsᶜ (fun vga : Vga =>
      (List.range (asciiBytes "VAJRA OS -- type in the Shell pane below").length).foldl
        (fun vga (i : Nat) => if (i : Int) < vgaCols then vgaPut vga 0 i (vgaEntry
          ((asciiBytes "VAJRA OS -- type in the Shell pane below").getD i 0).toUInt16 vgaColor)
        else vga) vga) := by
    refine Within.foldl fun k _ => ?_
    split
    · have hrow : (0 : Int) * vgaCols + k ∈ p.cellsᶜ := by
        intro hin
        obtain ⟨-, -, -, -, -, -, -, hfirst, -⟩ := cells_interior hin
        omega
      exact Within.update hrow fun _ _ _ => rfl
    · exact Within.id
  have hlog := drawBox_within p (asciiBytes " System Log ") (Or.inl ⟨rfl, rfl⟩)
  have hshell := drawBox_within p (asciiBytes " Shell ") (Or.inr ⟨rfl, rfl⟩)
  have hframe := (hshell.comp (hlog.comp hbanner)).frame
    ((List.range (vgaCols * vgaRows).toNat).foldl (fun vga (i : Nat) =>
      Function.update vga (i : Int) (vgaEntry 0x20 vgaColor)) s.vga) i hout
  refine hframe.trans (blankScreen_cell _ _ ?_ ?_)
  · simp only [vgaCols] at hfirst
    omega
  · exact hlast

/-- The console after `hal_console_init`, with the pane selected. -/
def freshPane (start : Console) (p : Pane) : Console :=
  halConsoleSetWindow (halConsoleInit start) p.index

theorem freshPane_displays (start : Console) (p : Pane) : Displays (freshPane start p) p [] [] := by
  have hselect : freshPane start p = { halConsoleInit start with currentWindow := p } := by
    cases p with
    | log => rfl
    | shell => rfl
  rw [hselect]
  constructor
  · rfl
  · rfl
  · exact p.width_pos
  · simp [halConsoleInit]
  · intro r hr c hc
    dsimp only
    have hempty : ∀ k, ([[]] : List (List UInt8)).getD k [] = [] := by
      intro k
      cases k with
      | zero => rfl
      | succ k => rfl
    rw [halConsoleInit_blank start (p.cell_mem hr hc), entryChar_blank, lastRowsChar_eq,
      List.nil_append, hempty]
    rfl

/-- **Scrolling shows the tail of the text.**  A text of printable characters and newlines
written to a fresh pane is displayed by the last of its rows, from the top of the pane on, and
the other cells are blank. -/
theorem pane_shows_last_rows (start : Console) (p : Pane) (text : List UInt8)
    (htext : ∀ c ∈ text, Printable c ∨ c = 0x0A) {r c : Nat} (hr : r < p.height)
    (hc : c < p.width) :
    entryChar ((halConsoleWrite (freshPane start p) text).vga (p.cell r c)) =
      lastRowsChar p.height (layout p.width [] text) r c := by
  have hcells := displays_layout htext (freshPane_displays start p)
  rw [List.nil_append] at hcells
  exact hcells r hr c hc

/-- Seven lines in the six rows of the shell's pane: the second one is at the top. -/
theorem pane_shows_last_rows_seven :
    (∀ c ∈ asciiBytes "a\nb\nc\nd\ne\nf\ng", Printable c ∨ c = 0x0A) ∧
      entryChar ((halConsoleWrite (freshPane (bootConsole fun _ => 0) .shell)
        (asciiBytes "a\nb\nc\nd\ne\nf\ng")).vga (Pane.shell.cell 0 0)) = 0x62 := by
  have htext : ∀ c ∈ asciiBytes "a\nb\nc\nd\ne\nf\ng", Printable c ∨ c = 0x0A := by decide +kernel
  have hshown : lastRowsChar Pane.shell.height
      (layout Pane.shell.width [] (asciiBytes "a\nb\nc\nd\ne\nf\ng")) 0 0 = 0x62 := by decide +kernel
  refine ⟨htext, ?_⟩
  rw [pane_shows_last_rows _ .shell _ htext (by decide +kernel) (by decide +kernel)]
  exact hshown

end Vajra
