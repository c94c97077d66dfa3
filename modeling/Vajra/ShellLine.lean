import Vajra.PaneText

/-!
# The line editor of the shell (`core/main.c`, `shell_read_line`)

The shell keeps the line in a buffer and echoes each key to its pane, so the line exists twice:
in the buffer, where the commands are read from, and in the row of the prompt, where the user
reads it.  `edit` is the line editor with neither: a printable key appends, backspace deletes
the last character.

`LineShown` says what the row of the prompt shows and where the cursor is in it.  Printing and
the back-space-back of an erased character keep it (`LineShown.print`, `LineShown.erase`), and
whatever the other actors write to the log pane in the meantime does too (`LineShown.others`),
as long as they leave no escape sequence open.
-/

namespace Vajra

/-- `SYS_WRITE`: the pane of the calling actor is selected and the string written. -/
def sysWrite (s : Console) (p : Pane) (str : List UInt8) : Console :=
  halConsoleWrite (halConsoleSetWindow s p.index) str

/-- `SHELL_LINE_MAX`. -/
def shellLineMax : Nat := 64

/-- The prompt, and the characters of it that are shown. -/
def shellPrompt : List UInt8 := asciiBytes "\x1b[36mvajra> \x1b[0m"
def promptText : List UInt8 := asciiBytes "vajra> "

/-- One turn of the loop: what the other actors write to the log pane after the shell has
polled the keyboard, and the byte of the key, if there was one. -/
structure Poll where
  key : Option UInt8
  others : List UInt8

/-- The buffer and the length of `shell_read_line`, and the console. -/
structure ReadLine where
  console : Console
  buf : Nat → UInt8
  len : Nat

/-- The key is Enter. -/
def IsEnter (c : UInt8) : Prop := c = 0x0A ∨ c = 0x0D

instance (c : UInt8) : Decidable (IsEnter c) := inferInstanceAs (Decidable (_ ∨ _))

/-- The key is backspace or DEL. -/
def IsErase (c : UInt8) : Prop := c = 0x08 ∨ c = 0x7F

instance (c : UInt8) : Decidable (IsErase c) := inferInstanceAs (Decidable (_ ∨ _))

/-- What `shell_read_line` does with a key other than Enter. -/
def readKey (s : ReadLine) (c : UInt8) : ReadLine :=
  if IsErase c then
    if s.len > 0 then
      { s with
        len := s.len - 1
        console := sysWrite s.console .shell (asciiBytes "\x08 \x08") }
    else s
  else if s.len < shellLineMax - 1 ∧ c ≥ 0x20 ∧ c < 0x7F then
    { buf := Function.update s.buf s.len c
      len := s.len + 1
      console := sysWrite s.console .shell [c] }
  else s

/-- `shell_read_line` over the polls so far: the state it is in, and the length it has
returned, if Enter was read. -/
def shellReadLine (s : ReadLine) : List Poll → ReadLine × Option Nat
  | [] => (s, none)
  | ⟨key, others⟩ :: polls =>
      let s := { s with console := sysWrite s.console .log others }
      match key with
      | none => shellReadLine s polls
      | some c =>
          if IsEnter c then
            ({ s with
              console := sysWrite s.console .shell (asciiBytes "\n")
              buf := Function.update s.buf s.len 0 }, some s.len)
          else shellReadLine (readKey s c) polls

/-- The editor without buffer and screen. -/
def edit (line : List UInt8) (c : UInt8) : List UInt8 :=
  if IsErase c then line.dropLast
  else if Printable c ∧ line.length < 63 then line ++ [c]
  else line

/-- The line after the keys of the polls. -/
def editedLine (polls : List Poll) : List UInt8 := (polls.filterMap Poll.key).foldl edit []

/-- How the state of the parser follows the bytes. -/
def escNext (state : EscState) (c : UInt8) : EscState :=
  match state with
  | .none => if c = 0x1B then .gotEsc else .none
  | .gotEsc => if c = 0x5B then .inSeq else .none
  | .inSeq => if (0x30 ≤ c ∧ c ≤ 0x39) ∨ c = 0x3B then .inSeq else .none

/-- Every escape sequence of the text is complete. -/
def ClosedText (text : List UInt8) : Prop := text.foldl escNext .none = .none

instance (text : List UInt8) : Decidable (ClosedText text) :=
  inferInstanceAs (Decidable (_ = _))

theorem halConsolePutchar_state (s : Console) (c : UInt8) :
    (halConsolePutchar s c).escState = escNext s.escState c := by
  unfold halConsolePutchar consoleByte escNext
  dsimp only
  cases hs : s.escState with
  | none =>
      dsimp only
      split
      · rfl
      · exact (putOrdinary_keeps _ c).1
  | gotEsc =>
      dsimp only
      split
      · rfl
      · rfl
  | inSeq =>
      dsimp only
      by_cases hdigit : 0x30 ≤ c ∧ c ≤ 0x39
      · rw [if_pos hdigit, if_pos (Or.inl hdigit)]
      · rw [if_neg hdigit]
        by_cases hsemi : c = 0x3B
        · rw [if_pos hsemi, if_pos (Or.inr hsemi)]
          exact pushParam_state _
        · rw [if_neg hsemi, if_neg (not_or.mpr ⟨hdigit, hsemi⟩)]

theorem halConsoleWrite_state (s : Console) (text : List UInt8) :
    (halConsoleWrite s text).escState = text.foldl escNext s.escState := by
  induction text generalizing s with
  | nil => rfl
  | cons c text ih =>
      have hnext := ih (halConsolePutchar s c)
      rw [halConsolePutchar_state] at hnext
      exact hnext

/-- The bytes of one pane leave the cells and the cursor of the other one alone. -/
theorem halConsoleWrite_frame {s : Console} (hin : CursorsInside s) (text : List UInt8) :
    CursorsInside (halConsoleWrite s text) ∧
      (∀ i, i ∉ s.currentWindow.cells → (halConsoleWrite s text).vga i = s.vga i) ∧
      ∀ p, p ≠ s.currentWindow → (halConsoleWrite s text).cursors p = s.cursors p := by
  induction text generalizing s with
  | nil => exact ⟨hin, fun _ _ => rfl, fun _ _ => rfl⟩
  | cons c text ih =>
      obtain ⟨hin', hvga', hcursors'⟩ := halConsolePutchar_frame c hin
      have hwindow : (halConsolePutchar s c).currentWindow = s.currentWindow :=
        (consoleByte_shows { s with serial := c :: s.serial } c).currentWindow
      obtain ⟨hin'', hvga'', hcursors''⟩ := ih hin'
      rw [hwindow] at hvga'' hcursors''
      refine ⟨hin'', fun i hi => ?_, fun p hp => ?_⟩
      · exact (hvga'' i hi).trans (hvga' i hi)
      · exact (hcursors'' p hp).trans (hcursors' p hp)

theorem halConsoleSetWindow_index (s : Console) (p : Pane) :
    halConsoleSetWindow s p.index = { s with currentWindow := p } := by
  cases p with
  | log => rfl
  | shell => rfl

/-- Row `cy` of the shell's pane shows `row` and blanks, and the cursor is in column `cx` of
it. -/
structure LineShown (s : Console) (cy cx : Nat) (row : List UInt8) : Prop where
  inside : CursorsInside s
  idle : s.escState = .none
  cursor : s.cursors .shell = ⟨cx, cy⟩
  cells : ∀ c < Pane.shell.width, entryChar (s.vga (Pane.shell.cell cy c)) = row.getD c 0x20

section

variable {s : Console} {cy cx : Nat} {row : List UInt8}

theorem LineShown.row_lt (h : LineShown s cy cx row) : cy < Pane.shell.height := by
  have hbottom := (h.inside .shell).bottom
  rw [h.cursor] at hbottom
  exact Int.ofNat_lt.mp hbottom

theorem LineShown.select (h : LineShown s cy cx row) (p : Pane) :
    LineShown (halConsoleSetWindow s p.index) cy cx row := by
  rw [halConsoleSetWindow_index]
  exact ⟨h.inside, h.idle, h.cursor, h.cells⟩

/-- A write of complete escape sequences to the log pane. -/
theorem LineShown.others (h : LineShown s cy cx row) {text : List UInt8}
    (htext : ClosedText text) : LineShown (sysWrite s .log text) cy cx row := by
  have hselect := h.select .log
  have hlog : (halConsoleSetWindow s Pane.log.index).currentWindow = .log := by
    rw [halConsoleSetWindow_index]
  obtain ⟨hin, hvga, hcursors⟩ := halConsoleWrite_frame hselect.inside text
  rw [hlog] at hvga hcursors
  constructor
  · exact hin
  · rw [sysWrite, halConsoleWrite_state, hselect.idle]
    exact htext
  · rw [sysWrite, hcursors .shell (by decide)]
    exact hselect.cursor
  · intro c hc
    have hcell := cells_disjoint (p := .shell) (q := .log) (by decide)
      (Pane.cell_mem .shell h.row_lt hc)
    rw [sysWrite, hvga _ hcell]
    exact hselect.cells c hc

/-- A byte that is put on the screen and leaves the cursor in the row. -/
theorem LineShown.put (h : LineShown s cy cx row) (hwindow : s.currentWindow = .shell) {c : UInt8}
    (hesc : c ≠ 0x1B) {cx' : Nat} {row' : List UInt8}
    (hnext : advance Pane.shell.box ⟨cx, cy⟩ c = ⟨cx', cy⟩)
    (hcells : ∀ k < Pane.shell.width,
      entryChar (printCell Pane.shell.box ⟨cx, cy⟩ c s.curColor s.vga (Pane.shell.cell cy k)) =
        row'.getD k 0x20) :
    LineShown (halConsolePutchar s c) cy cx' row' ∧
      (halConsolePutchar s c).currentWindow = .shell := by
  obtain ⟨⟨hvga, hcursors, hwindow'⟩, hidle⟩ := halConsolePutchar_put h.idle hesc
  rw [hwindow, h.cursor] at hvga hcursors
  have hheight : (Pane.shell.height : Int) = Pane.shell.box.h := Pane.shell.height_eq
  have hcy := h.row_lt
  have hstay : ¬ (cy : Int) ≥ Pane.shell.box.h := by omega
  rw [perform, hnext, if_neg hstay] at hvga hcursors
  refine ⟨⟨(halConsolePutchar_frame c h.inside).1, hidle, ?_, ?_⟩, hwindow'.trans hwindow⟩
  · rw [hcursors, Function.update_self]
  · rw [hvga]
    exact hcells

/-- The cells of the row after a character is printed in it. -/
theorem LineShown.printCell (h : LineShown s cy cx row) {c : UInt8} (hc : Printable c)
    (hcx : cx < Pane.shell.width) {k : Nat} (hk : k < Pane.shell.width) :
    entryChar (Vajra.printCell Pane.shell.box ⟨cx, cy⟩ c s.curColor s.vga (Pane.shell.cell cy k)) =
      if k = cx then c else row.getD k 0x20 := by
  rw [Vajra.printCell, if_neg hc.plain, vgaPut_cell .shell _ _ hcx hk]
  by_cases hhere : k = cx
  · rw [if_pos ⟨rfl, hhere⟩, if_pos hhere, entryChar_vgaEntry]
  · rw [if_neg fun h => hhere h.2, if_neg hhere, h.cells k hk]

theorem advance_inner {c : UInt8} (hc : Printable c) (hroom : cx + 1 < Pane.shell.width) :
    advance Pane.shell.box ⟨cx, cy⟩ c = ⟨(cx + 1 : Nat), cy⟩ := by
  have hwidth : (Pane.shell.width : Int) = Pane.shell.box.w := Pane.shell.width_eq
  rw [advance_printable hc, if_neg (by dsimp only; omega)]
  rfl

/-- A printable character behind the row. -/
theorem LineShown.print (h : LineShown s cy row.length row) (hwindow : s.currentWindow = .shell)
    {c : UInt8} (hc : Printable c) (hroom : row.length + 1 < Pane.shell.width) :
    LineShown (halConsolePutchar s c) cy (row ++ [c]).length (row ++ [c]) ∧
      (halConsolePutchar s c).currentWindow = .shell := by
  rw [List.length_append, List.length_singleton]
  refine h.put hwindow hc.ne_esc (advance_inner hc hroom) fun k hk => ?_
  rw [h.printCell hc (by omega) hk]
  by_cases hhere : k = row.length
  · subst hhere
    simp
  · rw [if_neg hhere]
    grind

/-- A backspace inside the row only moves the cursor. -/
theorem LineShown.back (h : LineShown s cy (cx + 1) row) (hwindow : s.currentWindow = .shell) :
    LineShown (halConsolePutchar s 0x08) cy cx row ∧
      (halConsolePutchar s 0x08).currentWindow = .shell := by
  refine h.put hwindow (by decide) ?_ fun k hk => ?_
  · rw [advance, if_neg (by decide), if_pos rfl, if_pos (by dsimp only; omega)]
    simp
  · rw [Vajra.printCell, if_pos (Or.inr rfl)]
    exact h.cells k hk

/-- A blank over the last character of the row. -/
theorem LineShown.blank {c : UInt8} (h : LineShown s cy row.length (row ++ [c]))
    (hwindow : s.currentWindow = .shell) (hroom : row.length + 1 < Pane.shell.width) :
    LineShown (halConsolePutchar s 0x20) cy (row.length + 1) row ∧
      (halConsolePutchar s 0x20).currentWindow = .shell := by
  have hspace : Printable 0x20 := by decide
  refine h.put hwindow (by decide) (advance_inner hspace hroom) fun k hk => ?_
  rw [h.printCell hspace (by omega) hk]
  by_cases hhere : k = row.length
  · subst hhere
    simp
  · rw [if_neg hhere]
    grind

/-- The back-space-back of `shell_read_line` erases the last character. -/
theorem LineShown.erase {c : UInt8} (h : LineShown s cy (row ++ [c]).length (row ++ [c]))
    (hroom : row.length + 1 < Pane.shell.width) :
    LineShown (sysWrite s .shell (asciiBytes "\x08 \x08")) cy row.length row := by
  rw [List.length_append, List.length_singleton] at h
  have hshell : (halConsoleSetWindow s Pane.shell.index).currentWindow = .shell := by
    rw [halConsoleSetWindow_index]
  obtain ⟨hback, hwindow⟩ := (h.select .shell).back hshell
  obtain ⟨hblank, hwindow'⟩ := hback.blank hwindow hroom
  exact (hblank.back hwindow').1

/-- The echo of a printable character. -/
theorem LineShown.echo (h : LineShown s cy row.length row) {c : UInt8} (hc : Printable c)
    (hroom : row.length + 1 < Pane.shell.width) :
    LineShown (sysWrite s .shell [c]) cy (row ++ [c]).length (row ++ [c]) := by
  have hshell : (halConsoleSetWindow s Pane.shell.index).currentWindow = .shell := by
    rw [halConsoleSetWindow_index]
  exact ((h.select .shell).print hshell hc hroom).1

end

/-- The cells, the cursors and the selected pane are the same. -/
structure SameScreen (s s' : Console) : Prop where
  vga : s'.vga = s.vga
  cursors : s'.cursors = s.cursors
  currentWindow : s'.currentWindow = s.currentWindow

theorem SameScreen.trans {s s' s'' : Console} (h : SameScreen s s') (h' : SameScreen s' s'') :
    SameScreen s s'' :=
  ⟨h'.vga.trans h.vga, h'.cursors.trans h.cursors, h'.currentWindow.trans h.currentWindow⟩

/-- A byte of an escape sequence that is not its end, or that ends a colour. -/
theorem halConsolePutchar_quiet {s : Console} {c : UInt8} (h : action s c = .ignore) :
    SameScreen s (halConsolePutchar s c) := by
  obtain ⟨hvga, hcursors, hwindow⟩ := consoleByte_shows { s with serial := c :: s.serial } c
  have hagree : ParserAgree { s with serial := c :: s.serial } s :=
    ⟨rfl, rfl, fun _ => ⟨rfl, rfl, fun _ _ => rfl⟩⟩
  rw [action_congr hagree rfl, h] at hvga hcursors
  refine ⟨hvga, ?_, hwindow⟩
  rw [halConsolePutchar, hcursors]
  exact Function.update_eq_self _ _

/-- The parameter of a colour sequence, and its final byte. -/
theorem halConsoleWrite_digits {s : Console} {digits : List UInt8} (hseq : s.escState = .inSeq)
    (hdigits : ∀ c ∈ digits, 0x30 ≤ c ∧ c ≤ 0x39) :
    SameScreen s (halConsoleWrite s (digits ++ [0x6D])) := by
  induction digits generalizing s with
  | nil =>
      have hfinal : action s 0x6D = .ignore := by
        rw [action, hseq]
        rfl
      exact halConsolePutchar_quiet hfinal
  | cons c digits ih =>
      have hc := hdigits c List.mem_cons_self
      have hdigit : action s c = .ignore := by
        rw [action, hseq]
        dsimp only
        rw [if_pos hc]
      have hstate : (halConsolePutchar s c).escState = .inSeq := by
        rw [halConsolePutchar_state, hseq, escNext, if_pos (Or.inl hc)]
      exact (halConsolePutchar_quiet hdigit).trans
        (ih hstate fun c' hc' => hdigits c' (List.mem_cons_of_mem c hc'))

/-- `ESC[..m` with one parameter. -/
def colorSequence (digits : List UInt8) : List UInt8 := [0x1B, 0x5B] ++ (digits ++ [0x6D])

/-- A colour sequence shows nothing. -/
theorem halConsoleWrite_color {s : Console} (digits : List UInt8) (hidle : s.escState = .none)
    (hdigits : ∀ c ∈ digits, 0x30 ≤ c ∧ c ≤ 0x39) :
    SameScreen s (halConsoleWrite s (colorSequence digits)) := by
  have hesc : action s 0x1B = .ignore := by
    rw [action, hidle]
    rfl
  have hstate : (halConsolePutchar s 0x1B).escState = .gotEsc := by
    rw [halConsolePutchar_state, hidle]
    rfl
  have hbracket : action (halConsolePutchar s 0x1B) 0x5B = .ignore := by
    rw [action, hstate]
  have hstate' : (halConsolePutchar (halConsolePutchar s 0x1B) 0x5B).escState = .inSeq := by
    rw [halConsolePutchar_state, hstate]
    rfl
  exact ((halConsolePutchar_quiet hesc).trans (halConsolePutchar_quiet hbracket)).trans
    (halConsoleWrite_digits hstate' hdigits)

theorem halConsoleWrite_append (s : Console) (text text' : List UInt8) :
    halConsoleWrite s (text ++ text') = halConsoleWrite (halConsoleWrite s text) text' :=
  List.foldl_append

theorem LineShown.color {s : Console} {cy cx : Nat} {row : List UInt8}
    (h : LineShown s cy cx row) (digits : List UInt8) (hdigits : ∀ c ∈ digits, 0x30 ≤ c ∧ c ≤ 0x39)
    (hclosed : ClosedText (colorSequence digits)) :
    LineShown (halConsoleWrite s (colorSequence digits)) cy cx row := by
  obtain ⟨hvga, hcursors, hwindow⟩ := halConsoleWrite_color digits h.idle hdigits
  constructor
  · intro p
    rw [hcursors]
    exact h.inside p
  · rw [halConsoleWrite_state, h.idle]
    exact hclosed
  · rw [hcursors]
    exact h.cursor
  · rw [hvga]
    exact h.cells

/-- Printable characters behind the row. -/
theorem LineShown.text {s : Console} {cy : Nat} {row : List UInt8}
    (h : LineShown s cy row.length row) (hwindow : s.currentWindow = .shell) (text : List UInt8)
    (htext : ∀ c ∈ text, Printable c) (hroom : row.length + text.length < Pane.shell.width) :
    LineShown (halConsoleWrite s text) cy (row ++ text).length (row ++ text) := by
  induction text generalizing s row with
  | nil =>
      rw [List.append_nil]
      exact h
  | cons c text ih =>
      rw [List.length_cons] at hroom
      obtain ⟨hprint, hwindow'⟩ := h.print hwindow (htext c List.mem_cons_self) (by omega)
      have hrest := ih hprint hwindow' (fun c' hc' => htext c' (List.mem_cons_of_mem c hc'))
        (by simp; omega)
      rwa [List.append_assoc, List.singleton_append] at hrest

/-- The prompt at the start of a blank row. -/
theorem LineShown.prompt {s : Console} {cy : Nat} (h : LineShown s cy 0 []) :
    LineShown (sysWrite s .shell shellPrompt) cy promptText.length promptText := by
  have hparts : shellPrompt = colorSequence [0x33, 0x36] ++ (promptText ++ colorSequence [0x30]) :=
    by decide +kernel
  have hselect : (halConsoleSetWindow s Pane.shell.index).currentWindow = .shell := by
    rw [halConsoleSetWindow_index]
  have hcyan : LineShown _ cy ([] : List UInt8).length [] :=
    (h.select .shell).color [0x33, 0x36] (by decide +kernel) (by decide +kernel)
  have hwindow := (halConsoleWrite_color [0x33, 0x36] (h.select .shell).idle
    (by decide +kernel)).currentWindow.trans hselect
  have htext := LineShown.text hcyan hwindow promptText (by decide +kernel) (by decide +kernel)
  rw [sysWrite, hparts, halConsoleWrite_append, halConsoleWrite_append]
  exact htext.color [0x30] (by decide +kernel) (by decide +kernel)

/-- The line in the buffer. -/
def bufferedLine (s : ReadLine) : List UInt8 := (List.range s.len).map s.buf

/-- The buffer and the row of the prompt hold the same line. -/
structure InStep (s : ReadLine) (cy : Nat) (line : List UInt8) : Prop where
  short : line.length < shellLineMax
  buffered : bufferedLine s = line
  shown : LineShown s.console cy (promptText ++ line).length (promptText ++ line)

theorem InStep.len {s : ReadLine} {cy : Nat} {line : List UInt8} (h : InStep s cy line) :
    s.len = line.length := by
  have hlen := congrArg List.length h.buffered
  rwa [bufferedLine, List.length_map, List.length_range] at hlen

theorem bufferedLine_append {s : ReadLine} (console : Console) (c : UInt8) :
    bufferedLine ⟨console, Function.update s.buf s.len c, s.len + 1⟩ = bufferedLine s ++ [c] := by
  have hold : ∀ i ∈ List.range s.len, Function.update s.buf s.len c i = s.buf i := by
    intro i hi
    rw [List.mem_range] at hi
    exact Function.update_of_ne (by omega) _ _
  rw [bufferedLine, List.range_succ, List.map_append, List.map_congr_left hold]
  simp [bufferedLine]

theorem bufferedLine_dropLast (s : ReadLine) (console : Console) :
    bufferedLine ⟨console, s.buf, s.len - 1⟩ = (bufferedLine s).dropLast := by
  rw [bufferedLine, bufferedLine]
  cases hlen : s.len with
  | zero => rfl
  | succ n => simp [List.range_succ]

/-- A key other than Enter edits the buffer and the row alike. -/
theorem InStep.readKey {s : ReadLine} {cy : Nat} {line : List UInt8} (h : InStep s cy line)
    (c : UInt8) : InStep (readKey s c) cy (edit line c) := by
  have hlen := h.len
  have hshort : line.length < 64 := h.short
  have hwidth : Pane.shell.width = 78 := rfl
  have hprompt : promptText.length = 7 := rfl
  have hcode : (s.len < shellLineMax - 1 ∧ c ≥ 0x20 ∧ c < 0x7F) ↔
      Printable c ∧ line.length < 63 := by
    have hdel : c ≤ 0x7E ↔ c < 0x7F := by
      rw [UInt8.le_iff_toNat_le, UInt8.lt_iff_toNat_lt]
      exact Nat.lt_succ_iff.symm
    rw [hlen, Printable, hdel, and_comm]
    exact Iff.rfl
  rw [Vajra.readKey, edit]
  by_cases herase : IsErase c
  · rw [if_pos herase, if_pos herase]
    -- The character the cursor stands behind is the last one of the line, if there is one.
    rcases List.eq_nil_or_concat' line with rfl | ⟨front, last, rfl⟩
    · rw [if_neg (by rw [hlen]; exact Nat.lt_irrefl 0)]
      exact h
    · rw [List.length_append, List.length_singleton] at hlen hshort
      rw [if_pos (by omega), List.dropLast_concat]
      refine ⟨Nat.lt_of_succ_lt hshort, ?_, ?_⟩
      · rw [bufferedLine_dropLast, h.buffered, List.dropLast_concat]
      · have hshown := h.shown
        rw [← List.append_assoc] at hshown
        exact hshown.erase (by rw [List.length_append]; omega)
  · rw [if_neg herase, if_neg herase]
    by_cases hfits : Printable c ∧ line.length < 63
    · rw [if_pos hfits, if_pos (hcode.mpr hfits)]
      refine ⟨?_, ?_, ?_⟩
      · rw [List.length_append, List.length_singleton, shellLineMax]
        omega
      · rw [bufferedLine_append, h.buffered]
      · rw [← List.append_assoc]
        exact h.shown.echo hfits.1 (by rw [List.length_append]; omega)
    · rw [if_neg hfits, if_neg (mt hcode.mp hfits)]
      exact h

theorem InStep.others {s : ReadLine} {cy : Nat} {line : List UInt8} (h : InStep s cy line)
    {text : List UInt8} (htext : ClosedText text) :
    InStep { s with console := sysWrite s.console .log text } cy line :=
  ⟨h.short, h.buffered, h.shown.others htext⟩

/-- The polls before Enter: no key of them is Enter, and the other actors leave no escape
sequence open. -/
def BeforeEnter (polls : List Poll) : Prop :=
  ∀ poll ∈ polls, (∀ c ∈ poll.key, ¬ IsEnter c) ∧ ClosedText poll.others

/-- The loop of `shell_read_line` over polls without Enter. -/
theorem InStep.run {cy : Nat} {polls : List Poll} (hpolls : BeforeEnter polls) {s : ReadLine}
    {line : List UInt8} (h : InStep s cy line) :
    ∃ s', InStep s' cy ((polls.filterMap Poll.key).foldl edit line) ∧
      ∀ rest, shellReadLine s (polls ++ rest) = shellReadLine s' rest := by
  induction polls generalizing s line with
  | nil => exact ⟨s, h, fun _ => rfl⟩
  | cons poll polls ih =>
      obtain ⟨key, others⟩ := poll
      obtain ⟨hkey, hothers⟩ := hpolls ⟨key, others⟩ List.mem_cons_self
      have hrest : BeforeEnter polls := fun poll hpoll => hpolls poll (List.mem_cons_of_mem _ hpoll)
      have hwrite := h.others hothers
      cases key with
      | none =>
          obtain ⟨s', hs', hrun⟩ := ih hrest hwrite
          exact ⟨s', hs', hrun⟩
      | some c =>
          obtain ⟨s', hs', hrun⟩ := ih hrest (hwrite.readKey c)
          refine ⟨s', hs', fun rest => ?_⟩
          rw [List.cons_append, shellReadLine]
          dsimp only
          rw [if_neg (hkey c rfl)]
          exact hrun rest

/-- The shell has written its prompt and calls `shell_read_line`. -/
def prompted (s : Console) (buf : Nat → UInt8) : ReadLine :=
  ⟨sysWrite s .shell shellPrompt, buf, 0⟩

theorem prompted_inStep {s : Console} {cy : Nat} (h : LineShown s cy 0 []) (buf : Nat → UInt8) :
    InStep (prompted s buf) cy [] := by
  refine ⟨by decide, rfl, ?_⟩
  rw [List.append_nil]
  exact h.prompt

/-- The row of the shell's cursor shows the prompt, the line and blanks, and the buffer holds
the line. -/
structure ShowsLine (s : ReadLine) (line : List UInt8) : Prop where
  shown : ∀ c < Pane.shell.width,
    entryChar (s.console.vga (Pane.shell.cell (s.console.cursors .shell).cy.toNat c)) =
      (promptText ++ line).getD c 0x20
  buffered : bufferedLine s = line

/-- `shell_read_line` has returned the line, NUL-terminated within the buffer. -/
structure ReturnsLine (result : ReadLine × Option Nat) (line : List UInt8) : Prop where
  returned : result.2 = some line.length
  bytes : ∀ i < line.length, result.1.buf i = line.getD i 0
  terminated : result.1.buf line.length = 0
  short : line.length < shellLineMax

/-- **What the shell shows is what it runs.** -/
theorem shell_shows_what_it_runs (start : Console) (calls : List ConsoleCall) (cy : Nat)
    (hidle : (consoleAfter start calls).escState = .none)
    (hcursor : (consoleAfter start calls).cursors .shell = ⟨0, cy⟩)
    (hblank : ∀ c < Pane.shell.width,
      entryChar ((consoleAfter start calls).vga (Pane.shell.cell cy c)) = 0x20)
    (buf : Nat → UInt8) (polls : List Poll) (hpolls : BeforeEnter polls) :
    (shellReadLine (prompted (consoleAfter start calls) buf) polls).2 = none ∧
      ShowsLine (shellReadLine (prompted (consoleAfter start calls) buf) polls).1
        (editedLine polls) ∧
      ∀ enter others rest, IsEnter enter →
        ReturnsLine (shellReadLine (prompted (consoleAfter start calls) buf)
          (polls ++ ⟨some enter, others⟩ :: rest)) (editedLine polls) := by
  have hrow : LineShown (consoleAfter start calls) cy 0 [] :=
    ⟨consoleCalls_inside calls (halConsoleInit_inside start), hidle, hcursor, hblank⟩
  obtain ⟨s, hs, hrun⟩ := (prompted_inStep hrow buf).run hpolls
  have hnow := hrun []
  rw [List.append_nil] at hnow
  rw [hnow]
  refine ⟨rfl, ⟨fun c hc => ?_, hs.buffered⟩, fun enter others rest henter => ?_⟩
  · have hcy : ((s.console.cursors .shell).cy).toNat = cy := by
      rw [hs.shown.cursor]
      rfl
    rw [shellReadLine, hcy]
    exact hs.shown.cells c hc
  · rw [hrun, shellReadLine]
    dsimp only
    rw [if_pos henter]
    have hlen : s.len = (editedLine polls).length := hs.len
    refine ⟨congrArg some hlen, fun i hi => ?_, ?_, hs.short⟩
    · have hget : (bufferedLine s)[i]? = some (s.buf i) := by
        rw [bufferedLine, List.getElem?_map, List.getElem?_range (by omega)]
        rfl
      have hbuffered : bufferedLine s = editedLine polls := hs.buffered
      rw [hbuffered] at hget
      dsimp only
      rw [Function.update_of_ne (by omega), List.getD_eq_getElem?_getD, hget]
      rfl
    · dsimp only
      rw [← hlen, Function.update_self]

/-- The keys `l`, `x`, DEL and `s`, with output of another actor before the last one. -/
def typedPolls : List Poll :=
  [⟨some 0x6C, []⟩, ⟨some 0x78, []⟩, ⟨none, []⟩, ⟨some 0x7F, []⟩,
    ⟨some 0x73, asciiBytes "\x1b[31mtick\n\x1b[0m"⟩]

theorem shell_shows_what_it_runs_typed :
    BeforeEnter typedPolls ∧ editedLine typedPolls = asciiBytes "ls" ∧
      ReturnsLine (shellReadLine (prompted (consoleAfter (bootConsole fun _ => 0) []) fun _ => 0xFF)
        (typedPolls ++ [⟨some 0x0D, []⟩])) (asciiBytes "ls") := by
  have hpolls : BeforeEnter typedPolls := by
    unfold BeforeEnter
    decide +kernel
  have hline : editedLine typedPolls = asciiBytes "ls" := by decide +kernel
  have hblank : ∀ c < Pane.shell.width,
      entryChar ((consoleAfter (bootConsole fun _ => 0) []).vga (Pane.shell.cell 0 c)) = 0x20 := by
    intro c hc
    have hcell := halConsoleInit_blank (bootConsole fun _ => 0)
      (Pane.cell_mem .shell Pane.shell.height_pos hc)
    exact (congrArg entryChar hcell).trans entryChar_blank
  obtain ⟨-, -, hreturns⟩ := shell_shows_what_it_runs (bootConsole fun _ => 0) [] 0 rfl rfl hblank
    (fun _ => 0xFF) typedPolls hpolls
  have henter := hreturns 0x0D [] [] (Or.inr rfl)
  rw [hline] at henter
  exact ⟨hpolls, hline, henter⟩

end Vajra
