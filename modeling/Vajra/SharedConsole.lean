import Vajra.LockedSections
import Vajra.PaneInterference

/-!
# The console on two cores (`spinlock.h`, `hal/x86_64/console.c`, `smp.c`)

The second core writes to the console while the first runs the actors.  `hal_console_putchar` holds
`console_lock` from its first access to the last; `hal_console_set_window` stores to `current_window`
without it.

`halConsolePutcharCode` is the body of `hal_console_putchar` load by load and store by store.  Run
alone it is the function of the console model (`halConsolePutcharCode_run`).  It loads
`current_window` once and never stores to it, so a byte takes effect at that load, and any number of
cores that write and switch windows in any interleaving leave a console that one core alone could
have left (`console_serial`).
-/

namespace Vajra

open LockedSections LockedSections.Code TransitionTrace

/-! ## `hal_console_putchar`, one access at a time -/

def vgaStore (row col : Int) (entry : UInt16) : Code Console Unit :=
  store fun s => { s with vga := vgaPut s.vga row col entry }

def cxStore (p : Pane) (v : Int) : Code Console Unit :=
  store fun s => { s with cursors := Function.update s.cursors p { s.cursors p with cx := v } }

def cyStore (p : Pane) (v : Int) : Code Console Unit :=
  store fun s => { s with cursors := Function.update s.cursors p { s.cursors p with cy := v } }

def escStateStore (st : EscState) : Code Console Unit := store fun s => { s with escState := st }

def winClearAndHomeCode (p : Pane) : Code Console Unit := do
  (List.range p.box.h.toNat).forM fun r =>
    (List.range p.box.w.toNat).forM fun c => do
      let color ← load fun s => s.curColor
      vgaStore (p.box.y + r) (p.box.x + c) (vgaEntry 0x20 color)
  cxStore p 0
  cyStore p 0

def applySgrCode : Code Console Unit := do
  let count ← load fun s => s.escParamCount
  if count = 0 then store fun s => { s with curColor := vgaColor }
  else
    (List.range count).forM fun i => do
      let n ← load fun s => s.escParams i
      let color ← load fun s => s.curColor
      store fun s => { s with curColor := sgrColor color n }

def winScrollCode (p : Pane) : Code Console Unit := do
  (List.range (p.box.h - 1).toNat).forM fun r =>
    (List.range p.box.w.toNat).forM fun c => do
      let entry ← load fun s => s.vga ((p.box.y + (r + 1)) * vgaCols + (p.box.x + c))
      vgaStore (p.box.y + (r + 1) - 1) (p.box.x + c) entry
  (List.range p.box.w.toNat).forM fun c =>
    vgaStore (p.box.y + p.box.h - 1) (p.box.x + c) (vgaEntry 0x20 vgaColor)
  cyStore p (p.box.h - 1)

def pushParamCode : Code Console Unit := do
  let count ← load fun s => s.escParamCount
  if count < 4 then
    let param ← load fun s => s.escCurParam
    store fun s => { s with escParams := Function.update s.escParams count param }
    store fun s => { s with escParamCount := count + 1 }

/-- The branch of `ESC[row;colH`. -/
def homeCode (p : Pane) : Code Console Unit := do
  let count ← load fun s => s.escParamCount
  let first ← load fun s => s.escParams 0
  let second ← load fun s => s.escParams 1
  let row := if 1 ≤ count ∧ 0 < first then first - 1 else 0
  let col := if 2 ≤ count ∧ 0 < second then second - 1 else 0
  cyStore p (if row ≥ p.box.h then p.box.h - 1 else row)
  cxStore p (if col ≥ p.box.w then p.box.w - 1 else col)

def finalByteCode (p : Pane) (c : UInt8) : Code Console Unit :=
  if c = 0x4A then winClearAndHomeCode p
  else if c = 0x48 then homeCode p
  else if c = 0x6D then applySgrCode
  else pure ()

/-- A newline, a backspace or a character, up to the scroll. -/
def advanceCode (p : Pane) (c : UInt8) : Code Console Unit := do
  if c = 0x0A then
    cxStore p 0
    let cy ← load fun s => (s.cursors p).cy
    cyStore p (cy + 1)
  else if c = 0x08 then
    let cx ← load fun s => (s.cursors p).cx
    if cx > 0 then cxStore p (cx - 1)
    else
      let cy ← load fun s => (s.cursors p).cy
      if cy > 0 then
        cyStore p (cy - 1)
        cxStore p (p.box.w - 1)
  else
    let cy ← load fun s => (s.cursors p).cy
    let cx ← load fun s => (s.cursors p).cx
    let color ← load fun s => s.curColor
    vgaStore (p.box.y + cy) (p.box.x + cx) (vgaEntry c.toUInt16 color)
    cxStore p (cx + 1)
    if cx + 1 ≥ p.box.w then
      cxStore p 0
      cyStore p (cy + 1)

/-- Everything after the escape sequences. -/
def putOrdinaryCode (p : Pane) (c : UInt8) : Code Console Unit := do
  advanceCode p c
  let cy ← load fun s => (s.cursors p).cy
  if cy ≥ p.box.h then winScrollCode p

/-- `hal_console_putchar` after the mirror to COM1. -/
def consoleByteCode (c : UInt8) : Code Console Unit := do
  let p ← commitLoad fun s => s.currentWindow
  let esc ← load fun s => s.escState
  match esc with
  | .none => if c = 0x1B then escStateStore .gotEsc else putOrdinaryCode p c
  | .gotEsc =>
      if c = 0x5B then
        escStateStore .inSeq
        store fun s => { s with escParamCount := 0 }
        store fun s => { s with escCurParam := 0 }
      else escStateStore .none
  | .inSeq =>
      if 0x30 ≤ c ∧ c ≤ 0x39 then
        let param ← load fun s => s.escCurParam
        store fun s => { s with escCurParam := wrapInt (param * 10 + (c.toNat - 0x30)) }
      else if c = 0x3B then
        pushParamCode
        store fun s => { s with escCurParam := 0 }
      else
        pushParamCode
        finalByteCode p c
        escStateStore .none

/-- `hal_console_putchar` between lock and unlock. -/
def halConsolePutcharCode (c : UInt8) : Code Console Unit := do
  store fun s => { s with serial := c :: s.serial }
  consoleByteCode c

/-! ## On one core -/

/-- Code that, run alone while the colour is `color`, changes the text buffer by `f` and nothing else. -/
def Draws (color : UInt8) (m : Code Console Unit) (f : Vga → Vga) : Prop :=
  ∀ s : Console, s.curColor = color → m.run s = ({ s with vga := f s.vga }, ())

theorem Draws.forM {α : Type} {color : UInt8} {body : α → Code Console Unit} {f : Vga → α → Vga}
    (h : ∀ a, Draws color (body a) fun vga => f vga a) (l : List α) :
    Draws color (l.forM body) fun vga => l.foldl f vga := by
  induction l with
  | nil => exact fun s _ => rfl
  | cons a l ih =>
      intro s hs
      change (body a >>= fun _ => l.forM body).run s = _
      rw [run_bind, h a s hs]
      exact ih _ hs

theorem draws_vgaStore (color : UInt8) (row col : Int) (entry : UInt16) :
    Draws color (vgaStore row col entry) fun vga => vgaPut vga row col entry :=
  fun _ _ => rfl

theorem winClearAndHomeCode_run (s : Console) (p : Pane) :
    (winClearAndHomeCode p).run s = (winClearAndHome s p, ()) := by
  have hcells : Draws s.curColor ((List.range p.box.h.toNat).forM fun r =>
      (List.range p.box.w.toNat).forM fun c => do
        let color ← load fun s => s.curColor
        vgaStore (p.box.y + r) (p.box.x + c) (vgaEntry 0x20 color)) (clearCells p.box s.curColor) := by
    refine Draws.forM (fun r => Draws.forM (fun c => ?_) _) _
    intro s' hs'
    rw [run_bind, run_load, ← hs']
    rfl
  rw [winClearAndHomeCode, run_bind, hcells s rfl]
  simp [cxStore, cyStore, winClearAndHome]

theorem winScrollCode_run (s : Console) (p : Pane) : (winScrollCode p).run s = (winScroll s p, ()) := by
  have hshift : Draws s.curColor ((List.range (p.box.h - 1).toNat).forM fun (r : Nat) =>
      (List.range p.box.w.toNat).forM fun (c : Nat) => do
        let entry ← load fun s => s.vga ((p.box.y + (r + 1)) * vgaCols + (p.box.x + c))
        vgaStore (p.box.y + (r + 1) - 1) (p.box.x + c) entry)
      fun vga => (List.range (p.box.h - 1).toNat).foldl (fun vga (r : Nat) =>
        (List.range p.box.w.toNat).foldl (fun vga (c : Nat) =>
          vgaPut vga (p.box.y + (r + 1) - 1) (p.box.x + c)
            (vga ((p.box.y + (r + 1)) * vgaCols + (p.box.x + c)))) vga) vga :=
    Draws.forM (fun r => Draws.forM (fun c s' _ => rfl) _) _
  have hblank : Draws s.curColor ((List.range p.box.w.toNat).forM fun (c : Nat) =>
      vgaStore (p.box.y + p.box.h - 1) (p.box.x + c) (vgaEntry 0x20 vgaColor))
      fun vga => (List.range p.box.w.toNat).foldl (fun vga (c : Nat) =>
        vgaPut vga (p.box.y + p.box.h - 1) (p.box.x + c) (vgaEntry 0x20 vgaColor)) vga :=
    Draws.forM (fun c => draws_vgaStore _ _ _ _) _
  rw [winScrollCode, run_bind, hshift s rfl, run_bind, hblank]
  · rfl
  · rfl

theorem applySgrCode_run (s : Console) : applySgrCode.run s = (applySgr s, ()) := by
  have hloop : ∀ (l : List Nat) (s : Console), (l.forM fun i => (do
      let n ← load fun s => s.escParams i
      let color ← load fun s => s.curColor
      store fun s => { s with curColor := sgrColor color n } : Code Console Unit)).run s =
      ({ s with curColor := l.foldl (fun color i => sgrColor color (s.escParams i)) s.curColor }, ()) := by
    intro l
    induction l with
    | nil => exact fun _ => rfl
    | cons i l ih => exact fun s => ih { s with curColor := sgrColor s.curColor (s.escParams i) }
  rw [applySgrCode, run_bind, run_load]
  by_cases hzero : s.escParamCount = 0
  · simp [applySgr, hzero]
  · simp only [applySgr, hzero, if_false]
    exact hloop _ s

theorem pushParamCode_run (s : Console) : pushParamCode.run s = (pushParam s, ()) := by
  rw [pushParamCode, run_bind, run_load, pushParam]
  by_cases hfour : s.escParamCount < 4
  · simp [hfour]
  · simp [hfour]

theorem finalByteCode_run (s : Console) (c : UInt8) :
    (finalByteCode s.currentWindow c).run s = (finalByte s c, ()) := by
  unfold finalByteCode finalByte
  by_cases hclear : c = 0x4A
  · rw [if_pos hclear, if_pos hclear]
    exact winClearAndHomeCode_run s _
  rw [if_neg hclear, if_neg hclear]
  by_cases hhome : c = 0x48
  · rw [if_pos hhome, if_pos hhome]
    simp only [homeCode, cyStore, cxStore, run_bind, run_load, run_store, Function.update_idem,
      Function.update_self]
    rfl
  rw [if_neg hhome, if_neg hhome]
  by_cases hsgr : c = 0x6D
  · rw [if_pos hsgr, if_pos hsgr]
    exact applySgrCode_run s
  · rw [if_neg hsgr, if_neg hsgr]
    rfl

theorem advanceCode_run (s : Console) (p : Pane) (c : UInt8) :
    (advanceCode p c).run s =
      ({ s with
        vga := printCell p.box (s.cursors p) c s.curColor s.vga
        cursors := Function.update s.cursors p (advance p.box (s.cursors p) c) }, ()) := by
  unfold advanceCode advance printCell
  by_cases hnewline : c = 0x0A
  · simp [hnewline, cxStore, cyStore]
  by_cases hback : c = 0x08
  · by_cases hcx : (s.cursors p).cx > 0
    · simp [hback, hcx, cxStore]
    · by_cases hcy : (s.cursors p).cy > 0
      · simp [hback, hcx, hcy, cxStore, cyStore]
      · simp [hback, hcx, hcy]
  · by_cases hwrap : (s.cursors p).cx + 1 ≥ p.box.w
    · simp [hnewline, hback, hwrap, cxStore, cyStore, vgaStore]
    · simp [hnewline, hback, hwrap, cxStore, vgaStore]

theorem putOrdinaryCode_run (s : Console) (c : UInt8) :
    (putOrdinaryCode s.currentWindow c).run s = (putOrdinary s c, ()) := by
  simp only [putOrdinaryCode, putOrdinary, run_bind, run_load, advanceCode_run, Function.update_self]
  split
  · exact winScrollCode_run _ _
  · rfl

theorem consoleByteCode_run (s : Console) (c : UInt8) :
    (consoleByteCode c).run s = (consoleByte s c, ()) := by
  unfold consoleByteCode consoleByte
  simp only [run_bind, run_commitLoad, run_load]
  cases hstate : s.escState with
  | none =>
      dsimp only
      split
      · rfl
      · exact putOrdinaryCode_run s c
  | gotEsc =>
      dsimp only
      split
      · rfl
      · rfl
  | inSeq =>
      dsimp only
      split
      · simp [hstate]
      split
      · simp [pushParamCode_run]
      · have hwin : (pushParam s).currentWindow = s.currentWindow := (pushParam_screen s).2.2.1
        simp only [run_bind, pushParamCode_run]
        rw [← hwin, finalByteCode_run]
        rfl

/-- **Run alone, the accesses are `hal_console_putchar`.** -/
theorem halConsolePutcharCode_run (s : Console) (c : UInt8) :
    (halConsolePutcharCode c).run s = (halConsolePutchar s c, ()) := by
  rw [halConsolePutcharCode, run_bind, run_store, halConsolePutchar]
  exact consoleByteCode_run _ c

/-! ## Against a store to `current_window` -/

/-- The window current after `hal_console_set_window`. -/
def windowAfter (win : Int) (p : Pane) : Pane :=
  if win = Pane.log.index then .log else if win = Pane.shell.index then .shell else p

theorem halConsoleSetWindow_eq (s : Console) (win : Int) :
    halConsoleSetWindow s win = { s with currentWindow := windowAfter win s.currentWindow } := by
  unfold halConsoleSetWindow windowAfter
  split
  · rfl
  · split
    · rfl
    · rfl

/-- What other cores do without the lock. -/
def setWindowOutside (win : Int) (s : Console) : Console := halConsoleSetWindow s win

theorem quiet_store {f : Console → Console}
    (hf : ∀ s p, f { s with currentWindow := p } = { f s with currentWindow := p })
    (hp : ∀ s, (f s).currentWindow = s.currentWindow) : LockedSections.Quiet setWindowOutside (store f) := by
  refine LockedSections.Quiet.store fun win s => ?_
  rw [setWindowOutside, setWindowOutside, halConsoleSetWindow_eq, halConsoleSetWindow_eq, hf, hp]

theorem quiet_load {α : Type} {g : Console → α} (hg : ∀ s p, g { s with currentWindow := p } = g s) :
    LockedSections.Quiet setWindowOutside (load g) := by
  refine LockedSections.Quiet.load fun win s => ?_
  rw [setWindowOutside, halConsoleSetWindow_eq, hg]

theorem quiet_vgaStore (row col : Int) (entry : UInt16) :
    LockedSections.Quiet setWindowOutside (vgaStore row col entry) :=
  quiet_store (fun _ _ => rfl) fun _ => rfl

theorem quiet_cxStore (p : Pane) (v : Int) : LockedSections.Quiet setWindowOutside (cxStore p v) :=
  quiet_store (fun _ _ => rfl) fun _ => rfl

theorem quiet_cyStore (p : Pane) (v : Int) : LockedSections.Quiet setWindowOutside (cyStore p v) :=
  quiet_store (fun _ _ => rfl) fun _ => rfl

theorem quiet_escStateStore (st : EscState) : LockedSections.Quiet setWindowOutside (escStateStore st) :=
  quiet_store (fun _ _ => rfl) fun _ => rfl

theorem quiet_winClearAndHomeCode (p : Pane) : LockedSections.Quiet setWindowOutside (winClearAndHomeCode p) := by
  refine LockedSections.Quiet.bind (LockedSections.Quiet.forM fun r _ => LockedSections.Quiet.forM fun c _ => ?_) fun _ => ?_
  · exact (quiet_load fun _ _ => rfl).bind fun color => quiet_vgaStore _ _ _
  · exact (quiet_cxStore p 0).bind fun _ => quiet_cyStore p 0

theorem quiet_winScrollCode (p : Pane) : LockedSections.Quiet setWindowOutside (winScrollCode p) := by
  refine LockedSections.Quiet.bind (LockedSections.Quiet.forM fun r _ => LockedSections.Quiet.forM fun c _ => ?_) fun _ => ?_
  · exact (quiet_load fun _ _ => rfl).bind fun entry => quiet_vgaStore _ _ _
  · exact (LockedSections.Quiet.forM fun c _ => quiet_vgaStore _ _ _).bind fun _ => quiet_cyStore p _

theorem quiet_applySgrCode : LockedSections.Quiet setWindowOutside applySgrCode := by
  refine (quiet_load fun _ _ => rfl).bind fun count => ?_
  split
  · exact quiet_store (fun _ _ => rfl) fun _ => rfl
  · refine LockedSections.Quiet.forM fun i _ => ?_
    refine (quiet_load fun _ _ => rfl).bind fun n => (quiet_load fun _ _ => rfl).bind fun color => ?_
    exact quiet_store (fun _ _ => rfl) fun _ => rfl

theorem quiet_pushParamCode : LockedSections.Quiet setWindowOutside pushParamCode := by
  refine (quiet_load fun _ _ => rfl).bind fun count => ?_
  split
  · refine (quiet_load fun _ _ => rfl).bind fun param => LockedSections.Quiet.bind ?_ fun _ => ?_
    · exact quiet_store (fun _ _ => rfl) fun _ => rfl
    · exact quiet_store (fun _ _ => rfl) fun _ => rfl
  · exact LockedSections.Quiet.pure _

theorem quiet_finalByteCode (p : Pane) (c : UInt8) : LockedSections.Quiet setWindowOutside (finalByteCode p c) := by
  unfold finalByteCode
  split
  · exact quiet_winClearAndHomeCode p
  split
  · refine (quiet_load fun _ _ => rfl).bind fun count => (quiet_load fun _ _ => rfl).bind fun first => ?_
    refine (quiet_load fun _ _ => rfl).bind fun second => ?_
    exact (quiet_cyStore p _).bind fun _ => quiet_cxStore p _
  split
  · exact quiet_applySgrCode
  · exact LockedSections.Quiet.pure _

theorem quiet_advanceCode (p : Pane) (c : UInt8) : LockedSections.Quiet setWindowOutside (advanceCode p c) := by
  unfold advanceCode
  split
  · refine (quiet_cxStore p 0).bind fun _ => (quiet_load fun _ _ => rfl).bind fun cy => ?_
    exact quiet_cyStore p _
  split
  · refine (quiet_load fun _ _ => rfl).bind fun cx => ?_
    split
    · exact quiet_cxStore p _
    refine (quiet_load fun _ _ => rfl).bind fun cy => ?_
    split
    · exact (quiet_cyStore p _).bind fun _ => quiet_cxStore p _
    · exact LockedSections.Quiet.pure _
  · refine (quiet_load fun _ _ => rfl).bind fun cy => (quiet_load fun _ _ => rfl).bind fun cx => ?_
    refine (quiet_load fun _ _ => rfl).bind fun color => (quiet_vgaStore _ _ _).bind fun _ => ?_
    refine (quiet_cxStore p _).bind fun _ => ?_
    split
    · exact (quiet_cxStore p _).bind fun _ => quiet_cyStore p _
    · exact LockedSections.Quiet.pure _

theorem quiet_putOrdinaryCode (p : Pane) (c : UInt8) :
    LockedSections.Quiet setWindowOutside (putOrdinaryCode p c) := by
  refine (quiet_advanceCode p c).bind fun _ => (quiet_load fun _ _ => rfl).bind fun cy => ?_
  split
  · exact quiet_winScrollCode p
  · exact LockedSections.Quiet.pure _

/-- **A byte takes effect at its load of `current_window`.** -/
theorem once_halConsolePutcharCode (c : UInt8) :
    Once setWindowOutside (halConsolePutcharCode c) := by
  refine Once.bind_right (quiet_store (fun _ _ => rfl) fun _ => rfl) fun _ => ?_
  refine (Once.commitLoad fun s : Console => s.currentWindow).bind_left fun p => ?_
  refine (quiet_load fun _ _ => rfl).bind fun esc => ?_
  cases esc with
  | none =>
      dsimp only
      split
      · exact quiet_escStateStore _
      · exact quiet_putOrdinaryCode p c
  | gotEsc =>
      dsimp only
      split
      · refine (quiet_escStateStore _).bind fun _ => LockedSections.Quiet.bind ?_ fun _ => ?_
        · exact quiet_store (fun _ _ => rfl) fun _ => rfl
        · exact quiet_store (fun _ _ => rfl) fun _ => rfl
      · exact quiet_escStateStore _
  | inSeq =>
      dsimp only
      split
      · exact (quiet_load fun _ _ => rfl).bind fun param => quiet_store (fun _ _ => rfl) fun _ => rfl
      split
      · exact quiet_pushParamCode.bind fun _ => quiet_store (fun _ _ => rfl) fun _ => rfl
      · exact quiet_pushParamCode.bind fun _ => (quiet_finalByteCode p c).bind fun _ =>
          quiet_escStateStore _

/-! ## On any number of cores -/

/-- A call of one core as a call of the console. -/
def toConsoleCall : UInt8 ⊕ Int → ConsoleCall
  | .inl c => .putchar c
  | .inr win => .setWindow win

/-- The bytes of calls, in their order. -/
def putBytes (calls : List ConsoleCall) : List UInt8 :=
  calls.filterMap fun
    | .putchar c => some c
    | .setWindow _ => none

theorem pushParam_serial (s : Console) : (pushParam s).serial = s.serial := by
  rw [pushParam]
  split
  · rfl
  · rfl

theorem consoleByte_serial (s : Console) (c : UInt8) : (consoleByte s c).serial = s.serial := by
  unfold consoleByte
  cases s.escState with
  | none =>
      dsimp only
      split
      · rfl
      · unfold putOrdinary
        dsimp only
        split
        · rfl
        · rfl
  | gotEsc =>
      dsimp only
      split
      · rfl
      · rfl
  | inSeq =>
      dsimp only
      split
      · rfl
      split
      · exact pushParam_serial s
      · rw [← pushParam_serial s]
        unfold finalByte
        split
        · rfl
        split
        · rfl
        split
        · rfl
        · rfl

/-- The COM1 mirror has every byte, in order. -/
theorem foldl_consoleCall_serial (s : Console) (calls : List ConsoleCall) :
    (calls.foldl consoleCall s).serial = (putBytes calls).reverse ++ s.serial := by
  induction calls generalizing s with
  | nil => rfl
  | cons call calls ih =>
      rw [List.foldl_cons, ih]
      cases call with
      | setWindow win =>
          rw [consoleCall, halConsoleSetWindow_eq]
          rfl
      | putchar c =>
          rw [consoleCall, halConsolePutchar, consoleByte_serial]
          simp [putBytes]

theorem serial_eq_foldl {ι : Type} (s : Console) (calls : List (ι × (UInt8 ⊕ Int))) :
    serial halConsolePutcharCode setWindowOutside s calls =
      (calls.map fun c => toConsoleCall c.2).foldl consoleCall s := by
  induction calls generalizing s with
  | nil => rfl
  | cons call calls ih =>
      have hcall : applyCall halConsolePutcharCode setWindowOutside s call =
          consoleCall s (toConsoleCall call.2) := by
        obtain ⟨i, c | win⟩ := call
        · exact congrArg Prod.fst (halConsolePutcharCode_run s c)
        · rfl
      rw [List.map_cons, List.foldl_cons, ← ih, ← hcall]
      rfl

/-- **The console under any interleaving.**  However many cores write bytes and switch windows, no two
of them are between lock and unlock; and while the lock is free the console is the one a single core
would have left with the same calls in the order in which they took effect, each core's own in the
order in which they returned to it: the COM1 mirror has every byte once, and both cursors are inside
their panes. -/
theorem console_serial {ι : Type} [DecidableEq ι] (start : Console)
    {tr : List (LockedSections.Record ι Console UInt8 Int)} {s : State ι Console UInt8}
    (hrun : LockedSections.Run halConsolePutcharCode setWindowOutside (halConsoleInit start) tr s) :
    (∀ i j k k' rest rest', s.stage i = .inside k rest → s.stage j = .inside k' rest' → i = j) ∧
    (s.lock = 0 →
      s.data = consoleAfter start ((committed tr).map fun c => toConsoleCall c.2) ∧
      (∀ i, own i (committed tr) = own i (returned tr)) ∧
      s.data.serial = (putBytes ((committed tr).map fun c => toConsoleCall c.2)).reverse ++
        start.serial ∧
      CursorsInside s.data) := by
  refine ⟨(LockedSections.Run.exclusive once_halConsolePutcharCode hrun).2.2, fun hfree => ?_⟩
  obtain ⟨hdata, hown⟩ := LockedSections.Run.serial once_halConsolePutcharCode hrun hfree
  rw [serial_eq_foldl] at hdata
  refine ⟨hdata, hown, ?_, ?_⟩
  · rw [hdata, foldl_consoleCall_serial]
    rfl
  · rw [hdata]
    exact consoleCalls_inside _ (halConsoleInit_inside start)

set_option maxRecDepth 100000 in
/-- Core 0 writes `A` and core 1, which has to spin, writes `B`; core 2 switches to the shell's window
while core 0 has the lock but has not loaded the window yet. -/
theorem console_serial_three_cores :
    ∃ tr s, LockedSections.Run halConsolePutcharCode setWindowOutside (startConsole fun _ => 0) tr s ∧
      tr.length = 26 ∧ committed tr = [((2 : Fin 3), .inr 1), (0, .inl 0x41), (1, .inl 0x42)] ∧
      s.data = consoleAfter (bootConsole fun _ => 0) [.setWindow 1, .putchar 0x41, .putchar 0x42] ∧
      s.data.serial = [0x42, 0x41] := by
  have hrun : (runTrace (LockedSections.step halConsolePutcharCode setWindowOutside) []
      (start (startConsole fun _ => 0)) ([.call (0 : Fin 3) 0x41, .call 1 0x42, .run 0, .run 1, .run 0,
        .outside 2 1] ++ List.replicate 9 (.run 0) ++ List.replicate 11 (.run 1))).map
      (fun r => (r.1.length, r.2.lock, committed r.1)) =
      some (26, 0, [((2 : Fin 3), .inr 1), (0, .inl 0x41), (1, .inl 0x42)]) := by
    decide +kernel
  obtain ⟨tr, s, htrace, hview⟩ := exists_trace_of_runTrace hrun
  simp only [Prod.mk.injEq] at hview
  obtain ⟨hlength, hfree, hcommitted⟩ := hview
  obtain ⟨hdata, _, hserial, _⟩ := (console_serial (bootConsole fun _ => 0) htrace).2 hfree
  rw [hcommitted] at hdata hserial
  exact ⟨tr, s, htrace, hlength, hcommitted, hdata, hserial⟩

end Vajra
