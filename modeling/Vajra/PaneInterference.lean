import Vajra.Console

/-!
# What one pane shows of the other (`hal/x86_64/console.c`)

Cells and cursors belong to one pane each, and a byte written to one pane never touches those
of the other (`Shows.frame`).  The parser of escape sequences and the current colour belong to
both: a sequence left open in one pane swallows the next bytes of the other, and a colour set
in one pane colours the other.

`Undisturbed` is the condition under which this does not show: every byte written to a pane
finds the parser and the colour as the pane's own previous byte left them.  Then the pane is
that of the run in which only its own bytes are written (`writes_solo`), whatever was written
to the other pane and when.
-/

namespace Vajra

open Footprint

/-- The parser and the colour are the same, as far as a later byte can read them: the
parameters count only inside a sequence, and only those complete so far. -/
def ParserAgree (s t : Console) : Prop :=
  s.escState = t.escState ∧ s.curColor = t.curColor ∧
    (s.escState = .inSeq → s.escParamCount = t.escParamCount ∧ s.escCurParam = t.escCurParam ∧
      ∀ i < s.escParamCount, s.escParams i = t.escParams i)

instance (s t : Console) : Decidable (ParserAgree s t) := inferInstanceAs (Decidable (_ ∧ _ ∧ _))

theorem ParserAgree.refl (s : Console) : ParserAgree s s :=
  ⟨rfl, rfl, fun _ => ⟨rfl, rfl, fun _ _ => rfl⟩⟩

theorem ParserAgree.symm {s t : Console} (h : ParserAgree s t) : ParserAgree t s := by
  obtain ⟨hstate, hcolor, hseq⟩ := h
  refine ⟨hstate.symm, hcolor.symm, fun ht => ?_⟩
  obtain ⟨hcount, hcur, hparams⟩ := hseq (hstate.trans ht)
  exact ⟨hcount.symm, hcur.symm, fun i hi => (hparams i (hcount ▸ hi)).symm⟩

theorem ParserAgree.trans {s t u : Console} (h : ParserAgree s t) (h' : ParserAgree t u) :
    ParserAgree s u := by
  obtain ⟨hstate, hcolor, hseq⟩ := h
  obtain ⟨hstate', hcolor', hseq'⟩ := h'
  refine ⟨hstate.trans hstate', hcolor.trans hcolor', fun hs => ?_⟩
  obtain ⟨hcount, hcur, hparams⟩ := hseq hs
  obtain ⟨hcount', hcur', hparams'⟩ := hseq' (hstate ▸ hs)
  exact ⟨hcount.trans hcount', hcur.trans hcur',
    fun i hi => (hparams i hi).trans (hparams' i (hcount ▸ hi))⟩

/-- The complete parameters are the same after one more. -/
theorem pushParam_agree {s t : Console} (hcount : s.escParamCount = t.escParamCount)
    (hcur : s.escCurParam = t.escCurParam)
    (hparams : ∀ i < s.escParamCount, s.escParams i = t.escParams i) :
    (pushParam s).escParamCount = (pushParam t).escParamCount ∧
      ∀ i < (pushParam s).escParamCount, (pushParam s).escParams i = (pushParam t).escParams i := by
  by_cases hfour : s.escParamCount < 4
  · have hfour' : t.escParamCount < 4 := hcount ▸ hfour
    rw [pushParam, if_pos hfour, pushParam, if_pos hfour']
    refine ⟨by simp [hcount], fun i hi => ?_⟩
    by_cases hlast : i = t.escParamCount
    · simp [hcount, hlast, hcur]
    · have hlt : i < s.escParamCount := by
        have hi : i < s.escParamCount + 1 := hi
        omega
      simp [hcount, Function.update_of_ne hlast, hparams i hlt]
  · have hfour' : ¬ t.escParamCount < 4 := hcount ▸ hfour
    rw [pushParam, if_neg hfour, pushParam, if_neg hfour']
    exact ⟨hcount, hparams⟩

/-- The position of `ESC[..H` depends on the complete parameters. -/
theorem homeCursor_congr {s t : Console} (hcount : s.escParamCount = t.escParamCount)
    (hparams : ∀ i < s.escParamCount, s.escParams i = t.escParams i) (box : Box) :
    homeCursor s box = homeCursor t box := by
  have hrow : (1 ≤ s.escParamCount → s.escParams 0 = t.escParams 0) := fun h => hparams 0 h
  have hcol : (2 ≤ s.escParamCount → s.escParams 1 = t.escParams 1) := fun h => hparams 1 h
  unfold homeCursor
  grind

/-- The colour of `ESC[..m` depends on the complete parameters and the colour before. -/
theorem applySgr_congr {s t : Console} (hcolor : s.curColor = t.curColor)
    (hcount : s.escParamCount = t.escParamCount)
    (hparams : ∀ i < s.escParamCount, s.escParams i = t.escParams i) :
    (applySgr s).curColor = (applySgr t).curColor := by
  have hfold : (List.range t.escParamCount).foldl (fun color i => sgrColor color (s.escParams i))
      t.curColor = (List.range t.escParamCount).foldl
        (fun color i => sgrColor color (t.escParams i)) t.curColor := by
    refine List.foldl_ext _ _ _ fun color i hi => ?_
    rw [hparams i (hcount ▸ List.mem_range.mp hi)]
  simp only [applySgr, hcolor, hcount, hfold]

/-- The same parser does the same thing with a byte. -/
theorem action_congr {s t : Console} (h : ParserAgree s t)
    (hwindow : s.currentWindow = t.currentWindow) (c : UInt8) : action s c = action t c := by
  obtain ⟨hstate, hcolor, hseq⟩ := h
  unfold action
  rw [← hstate, ← hcolor]
  cases hs : s.escState with
  | none => rfl
  | gotEsc => rfl
  | inSeq =>
      obtain ⟨hcount, hcur, hparams⟩ := hseq hs
      obtain ⟨hcount', hparams'⟩ := pushParam_agree hcount hcur hparams
      have hfinal : finalAction (pushParam s) c = finalAction (pushParam t) c := by
        rw [finalAction, finalAction, (pushParam_screen s).2.2.2, (pushParam_screen t).2.2.2,
          (pushParam_screen s).2.2.1, (pushParam_screen t).2.2.1, hcolor, hwindow,
          homeCursor_congr hcount' hparams']
      dsimp only
      rw [hfinal]

/-- A byte outside a sequence leaves the parser and the colour alone. -/
theorem putOrdinary_keeps (s : Console) (c : UInt8) : (putOrdinary s c).escState = s.escState ∧
    (putOrdinary s c).curColor = s.curColor := by
  unfold putOrdinary winScroll
  dsimp only
  split
  · exact ⟨rfl, rfl⟩
  · exact ⟨rfl, rfl⟩

/-- The final byte leaves the same colour. -/
theorem finalByte_color {s t : Console} (hcolor : s.curColor = t.curColor)
    (hcount : s.escParamCount = t.escParamCount)
    (hparams : ∀ i < s.escParamCount, s.escParams i = t.escParams i) (c : UInt8) :
    (finalByte s c).curColor = (finalByte t c).curColor := by
  unfold finalByte
  split
  · exact hcolor
  · split
    · exact hcolor
    · split
      · exact applySgr_congr hcolor hcount hparams
      · exact hcolor

/-- The same parser is the same after the same byte. -/
theorem consoleByte_agree {s t : Console} (h : ParserAgree s t) (c : UInt8) :
    ParserAgree (consoleByte s c) (consoleByte t c) := by
  obtain ⟨hstate, hcolor, hseq⟩ := h
  unfold consoleByte
  rw [← hstate]
  cases hs : s.escState with
  | none =>
      dsimp only
      split
      · exact ⟨rfl, hcolor, fun hin => by cases hin⟩
      · obtain ⟨hs', hcs⟩ := putOrdinary_keeps s c
        obtain ⟨ht', hct⟩ := putOrdinary_keeps t c
        refine ⟨by rw [hs', ht', hstate], by rw [hcs, hct, hcolor], fun hin => ?_⟩
        rw [hs', hs] at hin
        cases hin
  | gotEsc =>
      dsimp only
      split
      · exact ⟨rfl, hcolor, fun _ => ⟨rfl, rfl, fun i hi => absurd hi (Nat.not_lt_zero i)⟩⟩
      · exact ⟨rfl, hcolor, fun hin => by cases hin⟩
  | inSeq =>
      obtain ⟨hcount, hcur, hparams⟩ := hseq hs
      obtain ⟨hcount', hparams'⟩ := pushParam_agree hcount hcur hparams
      obtain ⟨-, -, -, hcs⟩ := pushParam_screen s
      obtain ⟨-, -, -, hct⟩ := pushParam_screen t
      have hcolor' : (pushParam s).curColor = (pushParam t).curColor := by rw [hcs, hct, hcolor]
      dsimp only
      split
      · exact ⟨rfl, hcolor, fun _ => ⟨hcount, by rw [hcur], hparams⟩⟩
      · split
        · exact ⟨by rw [pushParam_state, pushParam_state, hstate], hcolor',
            fun _ => ⟨hcount', rfl, hparams'⟩⟩
        · exact ⟨rfl, finalByte_color hcolor' hcount' hparams' c, fun hin => by cases hin⟩

/-- A byte and the pane it is written to. -/
abbrev Write := Pane × UInt8

/-- `hal_console_set_window`, then `hal_console_putchar`. -/
def putByte (s : Console) (w : Write) : Console :=
  halConsolePutchar (halConsoleSetWindow s w.1.index) w.2

/-- A sequence of writes. -/
def writes (s : Console) (ws : List Write) : Console := ws.foldl putByte s

/-- The statics of `console.c` at boot. -/
def bootConsole (vga : Vga) : Console :=
  ⟨vga, [], fun _ => ⟨0, 0⟩, .log, .none, fun _ => 0, 0, 0, vgaColor⟩

/-- The console after `hal_console_init`. -/
def startConsole (vga : Vga) : Console := halConsoleInit (bootConsole vga)

/-- The cells of the pane, characters and colours, and its cursor are the same. -/
def SamePane (p : Pane) (s t : Console) : Prop :=
  s.cursors p = t.cursors p ∧ Set.EqOn s.vga t.vga p.cells

theorem SamePane.symm {p : Pane} {s t : Console} (h : SamePane p s t) : SamePane p t s :=
  ⟨h.1.symm, h.2.symm⟩

theorem SamePane.trans {p : Pane} {s t u : Console} (h : SamePane p s t) (h' : SamePane p t u) :
    SamePane p s u :=
  ⟨h.1.trans h'.1, h.2.trans h'.2⟩

/-- What a write does to the screen. -/
theorem putByte_eq (s : Console) (w : Write) :
    putByte s w = consoleByte { s with currentWindow := w.1, serial := w.2 :: s.serial } w.2 := by
  obtain ⟨p, c⟩ := w
  cases p with
  | log => rfl
  | shell => rfl

/-- A write leaves the cursors inside, and the other pane as it was. -/
theorem putByte_frame {s : Console} (w : Write) (hin : CursorsInside s) :
    CursorsInside (putByte s w) ∧ ∀ p, p ≠ w.1 → SamePane p (putByte s w) s := by
  rw [putByte_eq]
  obtain ⟨hin', hcells, hcursor⟩ := (consoleByte_shows
    { s with currentWindow := w.1, serial := w.2 :: s.serial } w.2).frame hin
  exact ⟨hin', fun p hp => ⟨hcursor p hp, fun i hi => hcells i (cells_disjoint hp hi)⟩⟩

/-- A write to the pane, on consoles with the same parser. -/
theorem putByte_own {p : Pane} {s t : Console} (c : UInt8) (ht : CursorsInside t)
    (hsame : SamePane p s t) (hparser : ParserAgree s t) :
    SamePane p (putByte s (p, c)) (putByte t (p, c)) ∧
      ParserAgree (putByte s (p, c)) (putByte t (p, c)) := by
  rw [putByte_eq, putByte_eq]
  generalize hs' : ({ s with currentWindow := p, serial := c :: s.serial } : Console) = s'
  generalize ht' : ({ t with currentWindow := p, serial := c :: t.serial } : Console) = t'
  have hagree : ParserAgree s' t' := by
    subst hs' ht'
    exact hparser
  refine ⟨?_, consoleByte_agree hagree c⟩
  have hshows := consoleByte_shows s' c
  have hshows' := consoleByte_shows t' c
  rw [← action_congr hagree (by subst hs' ht'; rfl) c] at hshows'
  subst hs' ht'
  obtain ⟨hvga, hcursors, -⟩ := hshows
  obtain ⟨hvga', hcursors', -⟩ := hshows'
  constructor
  · rw [hcursors, hcursors']
    simp only [Function.update_self, hsame.1]
  · rw [hvga, hvga']
    dsimp only
    rw [hsame.1]
    exact (perform_within p (ht p) _).reads _ _ hsame.2

/-- Every byte written to pane `p` finds the parser and the colour as in `last`, the console
the pane's previous byte left. -/
def Undisturbed (p : Pane) : Console → Console → List Write → Prop
  | _, _, [] => True
  | last, s, w :: ws =>
      if w.1 = p then ParserAgree last s ∧ Undisturbed p (putByte s w) (putByte s w) ws
      else Undisturbed p last (putByte s w) ws

instance decidableUndisturbed (p : Pane) : (last s : Console) → (ws : List Write) →
    Decidable (Undisturbed p last s ws)
  | _, _, [] => isTrue trivial
  | last, s, w :: ws =>
      have := decidableUndisturbed p (putByte s w) (putByte s w) ws
      have := decidableUndisturbed p last (putByte s w) ws
      inferInstanceAs (Decidable (if w.1 = p then
        ParserAgree last s ∧ Undisturbed p (putByte s w) (putByte s w) ws
        else Undisturbed p last (putByte s w) ws))

/-- The writes to one pane. -/
def writesTo (p : Pane) (ws : List Write) : List Write := ws.filter fun w => w.1 = p

/-- An undisturbed pane is the one of the run with its own bytes only. -/
theorem writes_solo {p : Pane} {last s t : Console} {ws : List Write}
    (hquiet : Undisturbed p last s ws) (hs : CursorsInside s) (ht : CursorsInside t)
    (hsame : SamePane p s t) (hparser : ParserAgree last t) :
    SamePane p (writes s ws) (writes t (writesTo p ws)) := by
  induction ws generalizing last s t with
  | nil => exact hsame
  | cons w ws ih =>
      obtain ⟨hs', hframe⟩ := putByte_frame w hs
      by_cases hw : w.1 = p
      · rw [Undisturbed, if_pos hw] at hquiet
        obtain ⟨hlast, hrest⟩ := hquiet
        obtain ⟨q, c⟩ := w
        subst hw
        obtain ⟨hsame', hparser'⟩ := putByte_own c ht hsame (hlast.symm.trans hparser)
        rw [writesTo, List.filter_cons_of_pos (by simp)]
        exact ih hrest hs' (putByte_frame (q, c) ht).1 hsame' hparser'
      · rw [Undisturbed, if_neg hw] at hquiet
        rw [writesTo, List.filter_cons_of_neg (by simpa using hw)]
        exact ih hquiet hs' ht ((hframe p (Ne.symm hw)).trans hsame) hparser

theorem startConsole_inside (vga : Vga) : CursorsInside (startConsole vga) :=
  halConsoleInit_inside (bootConsole vga)

/-- **Panes do not interfere, undisturbed.**  After two sequences of writes that agree on the
bytes written to a pane, whose bytes are undisturbed in both, the pane is the same. -/
theorem panes_isolated (vga : Vga) (p : Pane) (ws ws' : List Write)
    (hagree : writesTo p ws = writesTo p ws')
    (hquiet : Undisturbed p (startConsole vga) (startConsole vga) ws)
    (hquiet' : Undisturbed p (startConsole vga) (startConsole vga) ws') :
    SamePane p (writes (startConsole vga) ws) (writes (startConsole vga) ws') := by
  have hin := startConsole_inside vga
  have hself : SamePane p (startConsole vga) (startConsole vga) := ⟨rfl, fun _ _ => rfl⟩
  have hsolo := writes_solo hquiet hin hin hself (ParserAgree.refl _)
  have hsolo' := writes_solo hquiet' hin hin hself (ParserAgree.refl _)
  rw [hagree] at hsolo
  exact hsolo.trans hsolo'.symm

/-- The log sets the colour red, writes a letter and resets the colour; the shell writes. -/
def resetLog : List Write :=
  (asciiBytes "\x1b[31mx\x1b[0m").map (fun c => (.log, c)) ++ [(.shell, 0x41)]

theorem panes_isolated_reset : writesTo .shell resetLog = [(.shell, 0x41)] ∧
    SamePane .shell (writes (startConsole fun _ => 0) resetLog)
      (writes (startConsole fun _ => 0) [(.shell, 0x41)]) :=
  ⟨by decide +kernel, panes_isolated (fun _ => 0) .shell resetLog [(.shell, 0x41)]
    (by decide +kernel) (by decide +kernel) (by decide +kernel)⟩

/-- The log sets the colour red, and the shell writes. -/
def redLog : List Write :=
  (asciiBytes "\x1b[31m").map (fun c => (.log, c)) ++ [(.shell, 0x41)]

theorem shell_letter_turns_red : writesTo .shell redLog = writesTo .shell [(.shell, 0x41)] ∧
    ¬ SamePane .shell (writes (startConsole fun _ => 0) redLog)
      (writes (startConsole fun _ => 0) [(.shell, 0x41)]) := by
  refine ⟨by decide +kernel, fun hsame => ?_⟩
  have hcell : (18 * 80 + 1 : Int) ∈ Pane.shell.cells := by
    simp only [Pane.cells, Pane.box, vgaCols, Set.mem_ofPred_eq]
    omega
  have hred : (writes (startConsole fun _ => 0) redLog).vga (18 * 80 + 1) ≠
      (writes (startConsole fun _ => 0) [(.shell, 0x41)]).vga (18 * 80 + 1) := by
    decide +kernel
  exact hred (hsame.2 hcell)

/-- Bytes written to one pane. -/
def bytesTo (p : Pane) (bytes : List UInt8) : List Write := bytes.map fun c => (p, c)

theorem writes_bytesTo_cons (s : Console) (p : Pane) (c : UInt8) (bytes : List UInt8) :
    writes s (bytesTo p (c :: bytes)) = writes (putByte s (p, c)) (bytesTo p bytes) := rfl

/-- What a write does to the cells and the cursor of its pane. -/
theorem putByte_shows (s : Console) (p : Pane) (c : UInt8) :
    ∃ s' : Console, ParserAgree s' s ∧ (putByte s (p, c)).cursors p =
      (perform p.box (s.cursors p) (action s' c)).1 ∧
      (putByte s (p, c)).vga = (perform p.box (s.cursors p) (action s' c)).2 s.vga := by
  rw [putByte_eq]
  have h := consoleByte_shows { s with currentWindow := p, serial := c :: s.serial } c
  refine ⟨{ s with currentWindow := p, serial := c :: s.serial }, ParserAgree.refl s, ?_, h.vga⟩
  rw [h.cursors]
  exact Function.update_self _ _ _

/-- A letter moves the cursor. -/
theorem perform_put_ne {box : Box} {cur : Cursor} (hcur : cur.Inside box) (hw : 1 < box.w)
    (color : UInt8) : (perform box cur (.put 0x41 color)).1 ≠ cur := by
  intro heq
  have hcx := congrArg Cursor.cx heq
  obtain ⟨hleft, hright, -, -⟩ := hcur
  grind [perform, advance]

/-- Outside a sequence a letter is shown, inside one it is not. -/
theorem idle_ne_busy {p : Pane} {s t : Console} (hs : (s.cursors p).Inside p.box)
    (hcursor : s.cursors p = t.cursors p) (hidle : s.escState = .none) (hbusy : t.escState ≠ .none) :
    (putByte s (p, 0x41)).cursors p ≠ (putByte t (p, 0x41)).cursors p := by
  obtain ⟨s', hs', hcs, -⟩ := putByte_shows s p 0x41
  obtain ⟨t', ht', hct, -⟩ := putByte_shows t p 0x41
  have hput : action s' 0x41 = .put 0x41 s'.curColor := by
    simp [action, hs'.1.trans hidle]
  have hignore : action t' 0x41 = .ignore := by
    cases hstate : t'.escState with
    | none => exact absurd (ht'.1.symm.trans hstate) hbusy
    | gotEsc => simp [action, hstate]
    | inSeq => simp [action, finalAction, hstate]
  rw [hcs, hct, hput, hignore, ← hcursor]
  exact perform_put_ne hs (by cases p <;> decide) s'.curColor

/-- The colour of an entry can be read back. -/
theorem vgaEntry_color {a b : UInt8} (h : vgaEntry 0x41 a = vgaEntry 0x41 b) : a = b := by
  have hread : ∀ n : Fin 256, (vgaEntry 0x41 (UInt8.ofNat n) >>> 8).toUInt8 = UInt8.ofNat n := by
    decide +kernel
  have hback : ∀ c : UInt8, (vgaEntry 0x41 c >>> 8).toUInt8 = c := by
    intro c
    simpa using hread ⟨c.toNat, c.toNat_lt⟩
  rw [← hback a, ← hback b, h]

/-- A letter written after `ESC[H` is in the corner of the pane, in the current colour. -/
theorem letter_at_home {s : Console} (p : Pane) (hidle : s.escState = .none) :
    (writes s (bytesTo p [0x1B, 0x5B, 0x48, 0x41])).vga (p.box.y * vgaCols + p.box.x) =
      vgaEntry 0x41 s.curColor := by
  cases p <;> simp [writes, bytesTo, putByte_eq, consoleByte, hidle, pushParam, finalByte,
    homeCursor, putOrdinary, advance, printCell, vgaPut, Pane.box, vgaCols]

/-- A byte that is no part of a sequence ends it, without effect on the pane. -/
theorem putByte_closes {p : Pane} (s : Console) (hbusy : s.escState ≠ .none) :
    (putByte s (p, 0x78)).escState = .none ∧ (putByte s (p, 0x78)).curColor = s.curColor := by
  rw [putByte_eq]
  cases hstate : s.escState with
  | none => exact absurd hstate hbusy
  | gotEsc => simp [consoleByte]
  | inSeq => simp [consoleByte, finalByte, (pushParam_screen _).2.2.2]

/-- `[` opens a sequence after `ESC` and closes one that is open; the pane sees neither. -/
theorem putByte_bracket {p : Pane} (s : Console) (hbusy : s.escState ≠ .none) :
    (putByte s (p, 0x5B)).cursors p = s.cursors p ∧
      ((putByte s (p, 0x5B)).escState = .none ↔ s.escState = .inSeq) := by
  rw [putByte_eq]
  cases hstate : s.escState with
  | none => exact absurd hstate hbusy
  | gotEsc => simp [consoleByte]
  | inSeq => simp [consoleByte, finalByte, (pushParam_screen _).2.1]

/-- Two idle parsers with different colours. -/
theorem colors_show {p : Pane} {s t : Console} (hs : s.escState = .none) (ht : t.escState = .none)
    (hcolor : s.curColor ≠ t.curColor) :
    ¬ SamePane p (writes s (bytesTo p [0x1B, 0x5B, 0x48, 0x41]))
      (writes t (bytesTo p [0x1B, 0x5B, 0x48, 0x41])) := by
  intro hsame
  have hcell : p.box.y * vgaCols + p.box.x ∈ p.cells := by
    have h := mem_cells p (r := 0) (c := 0) (Int.le_refl 0) (by cases p <;> decide)
      (Int.le_refl 0) (by cases p <;> decide)
    simpa using h
  have heq := hsame.2 hcell
  rw [letter_at_home p hs, letter_at_home p ht] at heq
  exact hcolor (vgaEntry_color heq)

/-- Two parsers in different states. -/
theorem states_show {p : Pane} {s t : Console} (hs : (s.cursors p).Inside p.box)
    (hcursor : s.cursors p = t.cursors p) (hstate : s.escState ≠ t.escState) :
    ∃ bytes, ¬ SamePane p (writes s (bytesTo p bytes)) (writes t (bytesTo p bytes)) := by
  have ht : (t.cursors p).Inside p.box := hcursor ▸ hs
  by_cases hidle : s.escState = .none
  · refine ⟨[0x41], fun hsame => idle_ne_busy hs hcursor hidle (fun h => ?_) hsame.1⟩
    exact hstate (hidle.trans h.symm)
  · by_cases hidle' : t.escState = .none
    · exact ⟨[0x41], fun hsame => idle_ne_busy ht hcursor.symm hidle' hidle hsame.1.symm⟩
    · -- one parser waits for `[`, the other is inside a sequence
      obtain ⟨hcs, hopen⟩ := putByte_bracket (p := p) s hidle
      obtain ⟨hct, hopen'⟩ := putByte_bracket (p := p) t hidle'
      refine ⟨[0x5B, 0x41], fun hsame => ?_⟩
      have hcur : (putByte s (p, 0x5B)).cursors p = (putByte t (p, 0x5B)).cursors p := by
        rw [hcs, hct, hcursor]
      cases hst : s.escState with
      | none => exact hidle hst
      | gotEsc =>
          have hin : t.escState = .inSeq := by
            cases htt : t.escState with
            | none => exact absurd htt hidle'
            | gotEsc => exact absurd (hst.trans htt.symm) hstate
            | inSeq => rfl
          refine idle_ne_busy (hct ▸ ht) hcur.symm (hopen'.mpr hin) (fun h => ?_) hsame.1.symm
          rw [hopen.mp h] at hst
          cases hst
      | inSeq =>
          refine idle_ne_busy (hcs ▸ hs) hcur (hopen.mpr hst) (fun h => ?_) hsame.1
          exact hstate (hst.trans (hopen'.mp h).symm)

/-- **A disturbance can be seen.**  If two consoles show the same pane but their parsers are in
different states, or their colours differ, some bytes written to the pane show it. -/
theorem disturbed_shows {p : Pane} {s t : Console} (hs : (s.cursors p).Inside p.box)
    (hcursor : s.cursors p = t.cursors p)
    (hdiff : s.escState ≠ t.escState ∨ s.curColor ≠ t.curColor) :
    ∃ bytes, ¬ SamePane p (writes s (bytesTo p bytes)) (writes t (bytesTo p bytes)) := by
  by_cases hstate : s.escState = t.escState
  · have hcolor := hdiff.resolve_left (fun h => h hstate)
    by_cases hidle : s.escState = .none
    · exact ⟨_, colors_show hidle (hstate ▸ hidle) hcolor⟩
    · obtain ⟨hs', hcs⟩ := putByte_closes (p := p) s hidle
      obtain ⟨ht', hct⟩ := putByte_closes (p := p) t (hstate ▸ hidle)
      rw [← hcs, ← hct] at hcolor
      refine ⟨0x78 :: [0x1B, 0x5B, 0x48, 0x41], ?_⟩
      rw [writes_bytesTo_cons s, writes_bytesTo_cons t]
      exact colors_show hs' ht' hcolor
  · exact states_show hs hcursor hstate

theorem writes_inside {s : Console} (ws : List Write) (hin : CursorsInside s) :
    CursorsInside (writes s ws) := by
  induction ws generalizing s with
  | nil => exact hin
  | cons w ws ih => exact ih (putByte_frame w hin).1

/-- Once the bytes of the other pane have left the parser in another state, or another colour,
than the pane's own bytes, the runs that go on with some bytes of the pane tell the difference. -/
theorem disturbed_runs_differ (vga : Vga) (p : Pane) (ws : List Write)
    (hquiet : Undisturbed p (startConsole vga) (startConsole vga) ws)
    (hdiff : (writes (startConsole vga) ws).escState ≠
        (writes (startConsole vga) (writesTo p ws)).escState ∨
      (writes (startConsole vga) ws).curColor ≠
        (writes (startConsole vga) (writesTo p ws)).curColor) :
    ∃ bytes, writesTo p (ws ++ bytesTo p bytes) = writesTo p (writesTo p ws ++ bytesTo p bytes) ∧
      ¬ SamePane p (writes (startConsole vga) (ws ++ bytesTo p bytes))
        (writes (startConsole vga) (writesTo p ws ++ bytesTo p bytes)) := by
  have hin := startConsole_inside vga
  have hsolo := writes_solo hquiet hin hin ⟨rfl, fun _ _ => rfl⟩ (ParserAgree.refl _)
  obtain ⟨bytes, hbytes⟩ := disturbed_shows (writes_inside ws hin p) hsolo.1 hdiff
  refine ⟨bytes, ?_, ?_⟩
  · simp [writesTo, List.filter_append]
  · rw [writes, writes, List.foldl_append, List.foldl_append]
    exact hbytes

end Vajra
