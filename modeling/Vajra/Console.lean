import Mathlib.Tactic
import Vajra.Footprint

/-!
# The text console (`hal/x86_64/console.c`)

The VGA text buffer is split into two panes, each with a cursor of its own.  One parser of
escape sequences, with its parameters and the current colour, serves both panes.

`halConsolePutchar` is the source's function.  `action` reads off what a byte does to the
screen and `perform` does it to the cells and the cursor of one pane: `consoleByte_shows` says
that this is all the screen sees of a byte, and `perform_within` that nothing outside the pane
is written or read.
-/

namespace Vajra

open Footprint

/-- The text buffer at `VGA_BASE`: the entry of row `r` and column `c` is at `r * 80 + c`. -/
abbrev Vga := Int → UInt16

def vgaCols : Int := 80
def vgaRows : Int := 25
/-- `VGA_COLOR`: green on black. -/
def vgaColor : UInt8 := 0x0A

def vgaEntry (c : UInt16) (color : UInt8) : UInt16 := c ||| (color.toUInt16 <<< 8)

def vgaPut (vga : Vga) (row col : Int) (entry : UInt16) : Vga :=
  Function.update vga (row * vgaCols + col) entry

/-- `CONSOLE_WIN_LOG` and `CONSOLE_WIN_SHELL`. -/
inductive Pane where
  | log
  | shell
  deriving DecidableEq

/-- The value of the `CONSOLE_WIN_` constant. -/
def Pane.index : Pane → Int
  | .log => 0
  | .shell => 1

/-- The fields of `struct console_window` that no function changes. -/
structure Box where
  x : Int
  y : Int
  w : Int
  h : Int

/-- The interiors of the panes, as `windows` is initialised. -/
def Pane.box : Pane → Box
  | .log => ⟨1, 2, 78, 13⟩
  | .shell => ⟨1, 18, 78, 6⟩

/-- The local cursor of a window. -/
structure Cursor where
  cx : Int
  cy : Int
  deriving DecidableEq

/-- `esc_state_t`. -/
inductive EscState where
  | none
  | gotEsc
  | inSeq
  deriving DecidableEq

/-- The statics of `console.c`, the text buffer and the bytes mirrored to COM1, newest first. -/
structure Console where
  vga : Vga
  serial : List UInt8
  cursors : Pane → Cursor
  currentWindow : Pane
  escState : EscState
  escParams : Nat → Int
  escParamCount : Nat
  escCurParam : Int
  curColor : UInt8

/-- The value of an `int` whose arithmetic wraps. -/
def wrapInt (x : Int) : Int := x.bmod (2 ^ 32)

/-- `ansi_to_vga`. -/
def ansiToVga (n : Int) : UInt8 := ([0, 4, 2, 6, 1, 5, 3, 7] : List UInt8).getD n.toNat 0

/-- The cells of the interior blanked in the current colour, row by row. -/
def clearCells (box : Box) (color : UInt8) (vga : Vga) : Vga :=
  (List.range box.h.toNat).foldl (fun vga (r : Nat) =>
    (List.range box.w.toNat).foldl (fun vga (c : Nat) =>
      vgaPut vga (box.y + r) (box.x + c) (vgaEntry 0x20 color)) vga) vga

/-- `win_clear_and_home`. -/
def winClearAndHome (s : Console) (p : Pane) : Console :=
  { s with
    vga := clearCells p.box s.curColor s.vga
    cursors := Function.update s.cursors p ⟨0, 0⟩ }

/-- One parameter of `ESC[..m`. -/
def sgrColor (color : UInt8) (n : Int) : UInt8 :=
  if n = 0 then vgaColor
  else if 30 ≤ n ∧ n ≤ 37 then (color &&& (0xF0 : UInt8)) ||| ansiToVga (n - 30)
  else if 40 ≤ n ∧ n ≤ 47 then (color &&& (0x0F : UInt8)) ||| (ansiToVga (n - 40) <<< 4)
  else color

/-- `apply_sgr`. -/
def applySgr (s : Console) : Console :=
  { s with
    curColor :=
      if s.escParamCount = 0 then vgaColor
      else (List.range s.escParamCount).foldl (fun color i => sgrColor color (s.escParams i))
        s.curColor }

/-- The rows of the interior shifted up by one, and the last one blanked. -/
def scrollCells (box : Box) (vga : Vga) : Vga :=
  let shifted := (List.range (box.h - 1).toNat).foldl (fun vga (r : Nat) =>
    (List.range box.w.toNat).foldl (fun vga (c : Nat) =>
      vgaPut vga (box.y + (r + 1) - 1) (box.x + c)
        (vga ((box.y + (r + 1)) * vgaCols + (box.x + c)))) vga) vga
  (List.range box.w.toNat).foldl (fun vga (c : Nat) =>
    vgaPut vga (box.y + box.h - 1) (box.x + c) (vgaEntry 0x20 vgaColor)) shifted

/-- `win_scroll`. -/
def winScroll (s : Console) (p : Pane) : Console :=
  { s with
    vga := scrollCells p.box s.vga
    cursors := Function.update s.cursors p { s.cursors p with cy := p.box.h - 1 } }

/-- `draw_box`. -/
def drawBox (vga : Vga) (top bottom left right : Int) (title : List UInt8) : Vga :=
  let horizontal := (List.range (right - left - 1).toNat).foldl (fun vga (c : Nat) =>
    vgaPut (vgaPut vga top (left + 1 + c) (vgaEntry 0xC4 vgaColor))
      bottom (left + 1 + c) (vgaEntry 0xC4 vgaColor)) vga
  let sides := (List.range (bottom - top - 1).toNat).foldl (fun vga (r : Nat) =>
    vgaPut (vgaPut vga (top + 1 + r) left (vgaEntry 0xB3 vgaColor))
      (top + 1 + r) right (vgaEntry 0xB3 vgaColor)) horizontal
  let corners := vgaPut (vgaPut (vgaPut (vgaPut sides
    top left (vgaEntry 0xDA vgaColor)) top right (vgaEntry 0xBF vgaColor))
    bottom left (vgaEntry 0xC0 vgaColor)) bottom right (vgaEntry 0xD9 vgaColor)
  (List.range title.length).foldl (fun vga (i : Nat) =>
    if left + 2 + i < right - 1 then
      vgaPut vga top (left + 2 + i) (vgaEntry (title.getD i 0).toUInt16 vgaColor)
    else vga) corners

/-- The bytes of a string literal. -/
def asciiBytes (text : String) : List UInt8 := text.toList.map fun c => UInt8.ofNat c.toNat

/-- `hal_console_init`. -/
def halConsoleInit (s : Console) : Console :=
  let blank := (List.range (vgaCols * vgaRows).toNat).foldl (fun vga (i : Nat) =>
    Function.update vga (i : Int) (vgaEntry 0x20 vgaColor)) s.vga
  let banner := asciiBytes "VAJRA OS -- type in the Shell pane below"
  let titled := (List.range banner.length).foldl (fun vga (i : Nat) =>
    if i < vgaCols then vgaPut vga 0 i (vgaEntry (banner.getD i 0).toUInt16 vgaColor)
    else vga) blank
  { s with
    vga := drawBox (drawBox titled 1 15 0 79 (asciiBytes " System Log "))
      17 24 0 79 (asciiBytes " Shell ")
    cursors := fun _ => ⟨0, 0⟩
    currentWindow := .log
    curColor := vgaColor
    escState := .none }

/-- `hal_console_set_window`. -/
def halConsoleSetWindow (s : Console) (win : Int) : Console :=
  if win = Pane.log.index then { s with currentWindow := .log }
  else if win = Pane.shell.index then { s with currentWindow := .shell }
  else s

/-- A parameter of an escape sequence is complete; a fifth one is dropped. -/
def pushParam (s : Console) : Console :=
  if s.escParamCount < 4 then
    { s with
      escParams := Function.update s.escParams s.escParamCount s.escCurParam
      escParamCount := s.escParamCount + 1 }
  else s

/-- The window-relative, 1-based position of `ESC[row;colH`, clipped to the pane. -/
def homeCursor (s : Console) (box : Box) : Cursor :=
  let row := if 1 ≤ s.escParamCount ∧ 0 < s.escParams 0 then s.escParams 0 - 1 else 0
  let col := if 2 ≤ s.escParamCount ∧ 0 < s.escParams 1 then s.escParams 1 - 1 else 0
  ⟨if col ≥ box.w then box.w - 1 else col, if row ≥ box.h then box.h - 1 else row⟩

/-- The final byte of an escape sequence. -/
def finalByte (s : Console) (c : UInt8) : Console :=
  if c = 0x4A then winClearAndHome s s.currentWindow
  else if c = 0x48 then
    let home := homeCursor s s.currentWindow.box
    { s with cursors := Function.update s.cursors s.currentWindow home }
  else if c = 0x6D then applySgr s
  else s

/-- Where an ordinary byte moves the cursor, before the scroll. -/
def advance (box : Box) (cur : Cursor) (c : UInt8) : Cursor :=
  if c = 0x0A then ⟨0, cur.cy + 1⟩
  else if c = 0x08 then
    if cur.cx > 0 then ⟨cur.cx - 1, cur.cy⟩
    else if cur.cy > 0 then ⟨box.w - 1, cur.cy - 1⟩
    else cur
  else if cur.cx + 1 ≥ box.w then ⟨0, cur.cy + 1⟩
  else ⟨cur.cx + 1, cur.cy⟩

/-- The cell an ordinary byte writes, unless it is a newline or a backspace. -/
def printCell (box : Box) (cur : Cursor) (c color : UInt8) (vga : Vga) : Vga :=
  if c = 0x0A ∨ c = 0x08 then vga
  else vgaPut vga (box.y + cur.cy) (box.x + cur.cx) (vgaEntry c.toUInt16 color)

/-- A byte outside any escape sequence. -/
def putOrdinary (s : Console) (c : UInt8) : Console :=
  let p := s.currentWindow
  let cur := advance p.box (s.cursors p) c
  let s := { s with
    vga := printCell p.box (s.cursors p) c s.curColor s.vga
    cursors := Function.update s.cursors p cur }
  if cur.cy ≥ p.box.h then winScroll s p else s

/-- The body of `hal_console_putchar` after the mirror to COM1. -/
def consoleByte (s : Console) (c : UInt8) : Console :=
  match s.escState with
  | .none => if c = 0x1B then { s with escState := .gotEsc } else putOrdinary s c
  | .gotEsc =>
      if c = 0x5B then { s with escState := .inSeq, escParamCount := 0, escCurParam := 0 }
      else { s with escState := .none }
  | .inSeq =>
      if 0x30 ≤ c ∧ c ≤ 0x39 then
        { s with escCurParam := wrapInt (s.escCurParam * 10 + (c.toNat - 0x30)) }
      else if c = 0x3B then { pushParam s with escCurParam := 0 }
      else { finalByte (pushParam s) c with escState := .none }

/-- `hal_console_putchar`. -/
def halConsolePutchar (s : Console) (c : UInt8) : Console :=
  consoleByte { s with serial := c :: s.serial } c

/-- What a byte does to the screen. -/
inductive Action where
  | ignore
  | clear (color : UInt8)
  | move (cur : Cursor)
  | put (c color : UInt8)
  deriving DecidableEq

/-- What the final byte of a sequence does to the screen. -/
def finalAction (s : Console) (c : UInt8) : Action :=
  if c = 0x4A then .clear s.curColor
  else if c = 0x48 then .move (homeCursor s s.currentWindow.box)
  else .ignore

def action (s : Console) (c : UInt8) : Action :=
  match s.escState with
  | .none => if c = 0x1B then .ignore else .put c s.curColor
  | .gotEsc => .ignore
  | .inSeq =>
      if 0x30 ≤ c ∧ c ≤ 0x39 then .ignore
      else if c = 0x3B then .ignore
      else finalAction (pushParam s) c

/-- An action on a pane with cursor `cur`: the new cursor and the change of the cells. -/
def perform (box : Box) (cur : Cursor) : Action → Cursor × (Vga → Vga)
  | .ignore => (cur, fun vga => vga)
  | .clear color => (⟨0, 0⟩, clearCells box color)
  | .move target => (target, fun vga => vga)
  | .put c color =>
      let next := advance box cur c
      if next.cy ≥ box.h then
        (⟨next.cx, box.h - 1⟩, fun vga => scrollCells box (printCell box cur c color vga))
      else (next, printCell box cur c color)

/-- The cells and the cursors after a byte. -/
structure Shows (s s' : Console) (a : Action) : Prop where
  vga : s'.vga = (perform s.currentWindow.box (s.cursors s.currentWindow) a).2 s.vga
  cursors : s'.cursors = Function.update s.cursors s.currentWindow
    (perform s.currentWindow.box (s.cursors s.currentWindow) a).1
  currentWindow : s'.currentWindow = s.currentWindow

/-- A step that leaves the cells and the cursors alone. -/
theorem Shows.ignore {s s' : Console} (hvga : s'.vga = s.vga) (hcursors : s'.cursors = s.cursors)
    (hwindow : s'.currentWindow = s.currentWindow) : Shows s s' .ignore where
  vga := hvga
  cursors := by rw [hcursors]; exact (Function.update_eq_self _ _).symm
  currentWindow := hwindow

theorem putOrdinary_shows (s : Console) (c : UInt8) :
    Shows s (putOrdinary s c) (.put c s.curColor) := by
  by_cases hscroll : (advance s.currentWindow.box (s.cursors s.currentWindow) c).cy ≥
      s.currentWindow.box.h
  · constructor
    · simp [putOrdinary, perform, winScroll, hscroll]
    · simp [putOrdinary, perform, winScroll, hscroll]
    · simp [putOrdinary, winScroll, hscroll]
  · constructor
    · simp [putOrdinary, perform, hscroll]
    · simp [putOrdinary, perform, hscroll]
    · simp [putOrdinary, hscroll]

theorem finalByte_shows (s : Console) (c : UInt8) : Shows s (finalByte s c) (finalAction s c) := by
  rw [finalByte, finalAction]
  by_cases hclear : c = 0x4A
  · rw [if_pos hclear, if_pos hclear]
    exact ⟨rfl, rfl, rfl⟩
  · rw [if_neg hclear, if_neg hclear]
    by_cases hmove : c = 0x48
    · rw [if_pos hmove, if_pos hmove]
      exact ⟨rfl, rfl, rfl⟩
    · rw [if_neg hmove, if_neg hmove]
      split
      · exact Shows.ignore rfl rfl rfl
      · exact Shows.ignore rfl rfl rfl

theorem pushParam_screen (s : Console) : (pushParam s).vga = s.vga ∧
    (pushParam s).cursors = s.cursors ∧ (pushParam s).currentWindow = s.currentWindow ∧
    (pushParam s).curColor = s.curColor := by
  rw [pushParam]
  split
  · exact ⟨rfl, rfl, rfl, rfl⟩
  · exact ⟨rfl, rfl, rfl, rfl⟩

theorem pushParam_state (s : Console) : (pushParam s).escState = s.escState := by
  rw [pushParam]
  split
  · rfl
  · rfl

/-- **What the screen sees of a byte.** -/
theorem consoleByte_shows (s : Console) (c : UInt8) : Shows s (consoleByte s c) (action s c) := by
  obtain ⟨hvga, hcursors, hwindow, -⟩ := pushParam_screen s
  unfold consoleByte action
  cases s.escState with
  | none =>
      dsimp only
      split
      · exact Shows.ignore rfl rfl rfl
      · exact putOrdinary_shows s c
  | gotEsc =>
      dsimp only
      split
      · exact Shows.ignore rfl rfl rfl
      · exact Shows.ignore rfl rfl rfl
  | inSeq =>
      dsimp only
      split
      · exact Shows.ignore rfl rfl rfl
      · split
        · exact Shows.ignore hvga hcursors hwindow
        · have h := finalByte_shows (pushParam s) c
          constructor
          · rw [← hvga, ← hcursors, ← hwindow]
            exact h.vga
          · rw [← hcursors, ← hwindow]
            exact h.cursors
          · rw [← hwindow]
            exact h.currentWindow

/-- The interior cells of a pane. -/
def Pane.cells (p : Pane) : Set Int :=
  { i | p.box.y ≤ i / vgaCols ∧ i / vgaCols < p.box.y + p.box.h ∧
    p.box.x ≤ i % vgaCols ∧ i % vgaCols < p.box.x + p.box.w }

/-- The panes do not overlap. -/
theorem cells_disjoint {p q : Pane} (hpq : p ≠ q) {i : Int} (hi : i ∈ p.cells) : i ∉ q.cells := by
  intro hq
  cases p with
  | log =>
      cases q with
      | log => exact hpq rfl
      | shell =>
          simp only [Pane.cells, Pane.box, vgaCols, Set.mem_ofPred_eq] at hi hq
          omega
  | shell =>
      cases q with
      | log =>
          simp only [Pane.cells, Pane.box, vgaCols, Set.mem_ofPred_eq] at hi hq
          omega
      | shell => exact hpq rfl

/-- The entry of a local position is a cell of the pane. -/
theorem mem_cells (p : Pane) {r c : Int} (hr : 0 ≤ r) (hrh : r < p.box.h) (hc : 0 ≤ c)
    (hcw : c < p.box.w) : (p.box.y + r) * vgaCols + (p.box.x + c) ∈ p.cells := by
  cases p with
  | log =>
      simp only [Pane.cells, Pane.box, vgaCols, Set.mem_ofPred_eq] at *
      omega
  | shell =>
      simp only [Pane.cells, Pane.box, vgaCols, Set.mem_ofPred_eq] at *
      omega

/-- The cursor is on a cell of the pane. -/
structure Cursor.Inside (cur : Cursor) (box : Box) : Prop where
  left : 0 ≤ cur.cx
  right : cur.cx < box.w
  top : 0 ≤ cur.cy
  bottom : cur.cy < box.h

theorem clearCells_within (p : Pane) (color : UInt8) : Within p.cells (clearCells p.box color) := by
  refine Within.foldl fun r hr => Within.foldl fun c hc => ?_
  rw [List.mem_range] at hr hc
  exact Within.update (mem_cells p (by omega) (by omega) (by omega) (by omega)) fun _ _ _ => rfl

theorem scrollCells_within (p : Pane) : Within p.cells (scrollCells p.box) := by
  have hlast : Within p.cells (fun vga : Vga =>
      (List.range p.box.w.toNat).foldl (fun vga (c : Nat) =>
        vgaPut vga (p.box.y + p.box.h - 1) (p.box.x + c) (vgaEntry 0x20 vgaColor)) vga) := by
    refine Within.foldl fun c hc => ?_
    rw [List.mem_range] at hc
    have hcell := mem_cells p (r := p.box.h - 1) (c := c) (by cases p <;> decide) (by omega)
      (by omega) (by omega)
    rw [← add_sub_assoc] at hcell
    exact Within.update hcell fun _ _ _ => rfl
  refine hlast.comp (Within.foldl fun r hr => Within.foldl fun c hc => ?_)
  rw [List.mem_range] at hr hc
  have hto := mem_cells p (r := r) (c := c) (by omega) (by omega) (by omega) (by omega)
  have hfrom := mem_cells p (r := r + 1) (c := c) (by omega) (by omega) (by omega) (by omega)
  rw [show p.box.y + (r : Int) = p.box.y + (r + 1) - 1 by ring] at hto
  exact Within.update hto fun m m' h => h hfrom

theorem printCell_within (p : Pane) {cur : Cursor} (hcur : cur.Inside p.box) (c color : UInt8) :
    Within p.cells (printCell p.box cur c color) := by
  unfold printCell
  split
  · exact Within.id
  · exact Within.update (mem_cells p hcur.top hcur.bottom hcur.left hcur.right) fun _ _ _ => rfl

/-- An action works within the cells of its pane. -/
theorem perform_within (p : Pane) {cur : Cursor} (hcur : cur.Inside p.box) (a : Action) :
    Within p.cells (perform p.box cur a).2 := by
  cases a with
  | ignore => exact Within.id
  | clear color => exact clearCells_within p color
  | move target => exact Within.id
  | put c color =>
      have hprint := printCell_within p hcur c color
      unfold perform
      dsimp only
      split
      · exact (scrollCells_within p).comp hprint
      · exact hprint

theorem homeCursor_inside (s : Console) (p : Pane) : (homeCursor s p.box).Inside p.box := by
  have hrow : 0 ≤ if 1 ≤ s.escParamCount ∧ 0 < s.escParams 0 then s.escParams 0 - 1 else 0 := by
    split <;> omega
  have hcol : 0 ≤ if 2 ≤ s.escParamCount ∧ 0 < s.escParams 1 then s.escParams 1 - 1 else 0 := by
    split <;> omega
  have hw : 0 < p.box.w := by cases p <;> decide
  have hh : 0 < p.box.h := by cases p <;> decide
  unfold homeCursor
  constructor
  · dsimp only
    split <;> omega
  · dsimp only
    split <;> omega
  · dsimp only
    split <;> omega
  · dsimp only
    split <;> omega

/-- A byte of the current pane leaves the cursor on a cell of the pane. -/
theorem perform_inside (s : Console) (c : UInt8) {cur : Cursor}
    (hcur : cur.Inside s.currentWindow.box) :
    (perform s.currentWindow.box cur (action s c)).1.Inside s.currentWindow.box := by
  generalize hp : s.currentWindow = p at *
  have hw : 0 < p.box.w := by cases p <;> decide
  have hh : 0 < p.box.h := by cases p <;> decide
  have hmove : ∀ target, action s c = .move target → target.Inside p.box := by
    intro target htarget
    unfold action finalAction at htarget
    split at htarget
    · split at htarget <;> cases htarget
    · cases htarget
    · split_ifs at htarget
      cases htarget
      rw [(pushParam_screen s).2.2.1, hp]
      exact homeCursor_inside _ p
  cases ha : action s c with
  | ignore => exact hcur
  | clear color => exact ⟨Int.le_refl 0, hw, Int.le_refl 0, hh⟩
  | move target => exact hmove target ha
  | put c color =>
      obtain ⟨hleft, hright, htop, hbottom⟩ := hcur
      have hadvance : 0 ≤ (advance p.box cur c).cx ∧ (advance p.box cur c).cx < p.box.w ∧
          0 ≤ (advance p.box cur c).cy := by
        grind [advance]
      unfold perform
      dsimp only
      split
      · exact ⟨hadvance.1, hadvance.2.1, by dsimp only; omega, by dsimp only; omega⟩
      · rename_i hscroll
        exact ⟨hadvance.1, hadvance.2.1, hadvance.2.2, Int.lt_of_not_ge hscroll⟩

/-- Both cursors are on cells of their panes. -/
def CursorsInside (s : Console) : Prop := ∀ p, (s.cursors p).Inside p.box

/-- A byte leaves the cells and the cursor of the other pane alone, and both cursors inside. -/
theorem Shows.frame {s s' : Console} {c : UInt8} (hshows : Shows s s' (action s c))
    (hin : CursorsInside s) : CursorsInside s' ∧
      (∀ i, i ∉ s.currentWindow.cells → s'.vga i = s.vga i) ∧
      ∀ p, p ≠ s.currentWindow → s'.cursors p = s.cursors p := by
  refine ⟨fun p => ?_, fun i hi => ?_, fun p hp => ?_⟩
  · rw [hshows.cursors]
    by_cases hp : p = s.currentWindow
    · subst hp
      rw [Function.update_self]
      exact perform_inside s c (hin _)
    · rw [Function.update_of_ne hp]
      exact hin p
  · rw [hshows.vga]
    exact (perform_within _ (hin _) _).frame _ i hi
  · rw [hshows.cursors, Function.update_of_ne hp]

/-- The calls that reach the console. -/
inductive ConsoleCall where
  | setWindow (win : Int)
  | putchar (c : UInt8)

def consoleCall (s : Console) : ConsoleCall → Console
  | .setWindow win => halConsoleSetWindow s win
  | .putchar c => halConsolePutchar s c

theorem halConsoleInit_inside (s : Console) : CursorsInside (halConsoleInit s) := by
  intro p
  have hhome : (halConsoleInit s).cursors p = ⟨0, 0⟩ := rfl
  rw [hhome]
  cases p with
  | log => exact ⟨by decide, by decide, by decide, by decide⟩
  | shell => exact ⟨by decide, by decide, by decide, by decide⟩

theorem halConsoleSetWindow_cursors (s : Console) (win : Int) :
    (halConsoleSetWindow s win).cursors = s.cursors := by
  unfold halConsoleSetWindow
  split
  · rfl
  · split
    · rfl
    · rfl

theorem halConsolePutchar_frame {s : Console} (c : UInt8) (hin : CursorsInside s) :
    CursorsInside (halConsolePutchar s c) ∧
      (∀ i, i ∉ s.currentWindow.cells → (halConsolePutchar s c).vga i = s.vga i) ∧
      ∀ p, p ≠ s.currentWindow → (halConsolePutchar s c).cursors p = s.cursors p :=
  (consoleByte_shows { s with serial := c :: s.serial } c).frame hin

theorem consoleCalls_inside {s : Console} (calls : List ConsoleCall) (hin : CursorsInside s) :
    CursorsInside (calls.foldl consoleCall s) := by
  induction calls generalizing s with
  | nil => exact hin
  | cons call calls ih =>
      refine ih ?_
      cases call with
      | setWindow win =>
          intro p
          rw [consoleCall, halConsoleSetWindow_cursors]
          exact hin p
      | putchar c => exact (halConsolePutchar_frame c hin).1

/-- A cell of a pane is in the text buffer, off its first row, and on no border. -/
theorem cells_interior {p : Pane} {i : Int} (hi : i ∈ p.cells) :
    ∃ r c, 0 ≤ r ∧ r < p.box.h ∧ 0 ≤ c ∧ c < p.box.w ∧
      i = (p.box.y + r) * vgaCols + (p.box.x + c) ∧ vgaCols ≤ i ∧ i < vgaCols * vgaRows := by
  obtain ⟨htop, hbottom, hleft, hright⟩ := hi
  have hsplit := Int.mul_ediv_add_emod i vgaCols
  refine ⟨i / vgaCols - p.box.y, i % vgaCols - p.box.x, by omega, by omega, by omega, by omega,
    ?_, ?_⟩
  · rw [add_sub_cancel, add_sub_cancel, mul_comm]
    exact hsplit.symm
  · cases p with
    | log =>
        simp only [Pane.box, vgaCols, vgaRows] at *
        omega
    | shell =>
        simp only [Pane.box, vgaCols, vgaRows] at *
        omega

/-- The console after `hal_console_init` and some calls. -/
def consoleAfter (start : Console) (calls : List ConsoleCall) : Console :=
  calls.foldl consoleCall (halConsoleInit start)

/-- The byte in state `s` changes only cells of the interior of the current pane, leaves the
cursor of the other pane where it is, and both cursors inside. -/
structure StaysInPane (s s' : Console) : Prop where
  cells : ∀ i, s'.vga i ≠ s.vga i → ∃ row col, 0 ≤ row ∧ row < s.currentWindow.box.h ∧
    0 ≤ col ∧ col < s.currentWindow.box.w ∧
    i = (s.currentWindow.box.y + row) * vgaCols + (s.currentWindow.box.x + col) ∧
    vgaCols ≤ i ∧ i < vgaCols * vgaRows
  other : ∀ p, p ≠ s.currentWindow → (∀ i ∈ p.cells, s'.vga i = s.vga i) ∧
    s'.cursors p = s.cursors p
  inside : ∀ p, (0 ≤ (s'.cursors p).cx ∧ (s'.cursors p).cx < p.box.w) ∧
    0 ≤ (s'.cursors p).cy ∧ (s'.cursors p).cy < p.box.h

/-- **Console writes stay in their pane**, after any calls and for any byte. -/
theorem putchar_stays_in_pane (start : Console) (calls : List ConsoleCall) (c : UInt8) :
    StaysInPane (consoleAfter start calls) (halConsolePutchar (consoleAfter start calls) c) := by
  have hin : CursorsInside (consoleAfter start calls) :=
    consoleCalls_inside calls (halConsoleInit_inside start)
  obtain ⟨hin', hcells, hcursors⟩ := halConsolePutchar_frame c hin
  constructor
  · intro i hi
    exact cells_interior (not_not.mp fun hout => hi (hcells i hout))
  · intro p hp
    exact ⟨fun i hi => hcells i (cells_disjoint hp hi), hcursors p hp⟩
  · intro p
    obtain ⟨hleft, hright, htop, hbottom⟩ := hin' p
    exact ⟨⟨hleft, hright⟩, htop, hbottom⟩

end Vajra
