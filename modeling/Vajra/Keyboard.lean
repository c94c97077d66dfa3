import Vajra.Console
import Vajra.RingQueue
import Vajra.TransitionTrace

/-!
# The keyboard (`hal/x86_64/keyboard.c`)

The interrupt handler decodes a scancode and puts the character into a ring of 32 cells, and
`hal_keyboard_poll` takes one out.  The handler moves the head and the poll the tail, and one
cell stays free to tell a full ring from an empty one.

`pollStep` cuts the poll at its accesses to what it shares with the handler, and an interrupt
may come in between any two of them.  That is finer than the machine, where a poll is part of a
system call and so not interrupted (`poll_uninterrupted`); the ring does not need it.
-/

namespace Vajra

open RingQueue TransitionTrace

def kbdBufSize : Nat := 32

/-- The statics of `keyboard.c`. -/
structure Keyboard where
  buf : Nat → UInt8
  head : Nat
  tail : Nat
  shiftHeld : Bool

def scancodeLower : List UInt8 :=
  [0, 27] ++ asciiBytes "1234567890-=\x08\tqwertyuiop[]\n" ++ [0] ++
    asciiBytes "asdfghjkl;'`" ++ [0] ++ asciiBytes "\\zxcvbnm,./" ++ [0] ++ asciiBytes "*" ++
    [0] ++ asciiBytes " "

def scancodeUpper : List UInt8 :=
  [0, 27] ++ asciiBytes "!@#$%^&*()_+\x08\tQWERTYUIOP\x7b\x7d\n" ++ [0] ++
    asciiBytes "ASDFGHJKL:\"~" ++ [0] ++ asciiBytes "|ZXCVBNM<>?" ++ [0] ++ asciiBytes "*" ++
    [0] ++ asciiBytes " "

example : scancodeLower.length = 0x3A ∧ scancodeUpper.length = 0x3A := by decide +kernel

def scancodeLshift : UInt8 := 0x2A
def scancodeRshift : UInt8 := 0x36

/-- The character of a scancode, or 0. -/
def scancodeChar (shiftHeld : Bool) (sc : UInt8) : UInt8 :=
  (if shiftHeld then scancodeUpper else scancodeLower).getD sc.toNat 0

/-- The first part of `hal_keyboard_irq_handler`: the shift state and the decoded character. -/
def decodeScancode (shiftHeld : Bool) (sc : UInt8) : Bool × Option UInt8 :=
  if sc = scancodeLshift ∨ sc = scancodeRshift then (true, none)
  else if sc = scancodeLshift ||| 0x80 ∨ sc = scancodeRshift ||| 0x80 then (false, none)
  else if sc &&& 0x80 ≠ 0 then (shiftHeld, none)
  else if sc.toNat ≥ scancodeLower.length then (shiftHeld, none)
  else
    let c := scancodeChar shiftHeld sc
    if c = 0 then (shiftHeld, none) else (shiftHeld, some c)

/-- What becomes of a scancode. -/
inductive Keystroke where
  | none
  | accepted (c : UInt8)
  | dropped (c : UInt8)
  deriving DecidableEq

/-- The character handed to the ring, whether there is room for it or not. -/
def Keystroke.char : Keystroke → Option UInt8
  | .none => Option.none
  | .accepted c | .dropped c => some c

/-- `hal_keyboard_irq_handler`. -/
def halKeyboardIrqHandler (k : Keyboard) (sc : UInt8) : Keyboard × Keystroke :=
  match decodeScancode k.shiftHeld sc with
  | (shiftHeld, none) => ({ k with shiftHeld := shiftHeld }, .none)
  | (shiftHeld, some c) =>
      let next := (k.head + 1) % kbdBufSize
      if next ≠ k.tail then
        ({ k with buf := Function.update k.buf k.head c, head := next, shiftHeld := shiftHeld },
          .accepted c)
      else ({ k with shiftHeld := shiftHeld }, .dropped c)

/-- The handler decodes, whatever the ring is like. -/
theorem irqHandler_decodes (k : Keyboard) (sc : UInt8) :
    ((halKeyboardIrqHandler k sc).1.shiftHeld, (halKeyboardIrqHandler k sc).2.char) =
      decodeScancode k.shiftHeld sc := by
  unfold halKeyboardIrqHandler
  rcases decodeScancode k.shiftHeld sc with ⟨shiftHeld, _ | c⟩
  · rfl
  · dsimp only
    split
    · rfl
    · rfl

/-- `hal_keyboard_poll`. -/
def halKeyboardPoll (k : Keyboard) : Keyboard × Int :=
  if k.head = k.tail then (k, -1)
  else
    let c := k.buf k.tail
    ({ k with tail := (k.tail + 1) % kbdBufSize }, c.toNat)

/-- Where a poll is: not begun, found a character, or has it. -/
inductive PollPhase where
  | idle
  | found
  | taken (c : UInt8)
  deriving DecidableEq

/-- The keyboard and the poll in progress. -/
structure Polled where
  kbd : Keyboard
  phase : PollPhase

/-- An interrupt with its scancode, or the next access of the poll. -/
inductive KeyboardEvent where
  | irq (sc : UInt8)
  | poll
  deriving DecidableEq

/-- What an event does: what becomes of the scancode, or what the poll returns, if it does. -/
inductive KeyboardOutcome where
  | key (stroke : Keystroke)
  | polling
  | returned (value : Int)
  deriving DecidableEq

/-- The accesses of `hal_keyboard_poll`: the comparison, the cell, the tail. -/
def pollStep (s : Polled) : Polled × KeyboardOutcome :=
  match s.phase with
  | .idle => if s.kbd.head = s.kbd.tail then (s, .returned (-1)) else (⟨s.kbd, .found⟩, .polling)
  | .found => (⟨s.kbd, .taken (s.kbd.buf s.kbd.tail)⟩, .polling)
  | .taken c =>
      (⟨{ s.kbd with tail := (s.kbd.tail + 1) % kbdBufSize }, .idle⟩, .returned c.toNat)

def keyboardStep (s : Polled) : KeyboardEvent → Option (Polled × KeyboardOutcome)
  | .irq sc =>
      let r := halKeyboardIrqHandler s.kbd sc
      some (⟨r.1, s.phase⟩, .key r.2)
  | .poll => some (pollStep s)

/-- The statics at boot. -/
def keyboardAtBoot : Polled := ⟨⟨fun _ => 0, 0, 0, false⟩, .idle⟩

abbrev KeyRecord := Transition Polled KeyboardEvent KeyboardOutcome

/-- The character that was accepted, or polled, in a step. -/
def acceptedKey (t : KeyRecord) : Option UInt8 :=
  match t.outcome with
  | .key (.accepted c) => some c
  | _ => none

def polledKey (t : KeyRecord) : Option Int :=
  match t.outcome with
  | .returned value => if value = -1 then none else some value
  | _ => none

/-- The accepted characters, and what the polls returned other than -1, in order. -/
def acceptedKeys (tr : List KeyRecord) : List UInt8 := observed acceptedKey tr
def polledKeys (tr : List KeyRecord) : List Int := observed polledKey tr

/-- The number of accepted characters that have not been polled. -/
def unreadKeys (tr : List KeyRecord) : Nat := (acceptedKeys tr).length - (polledKeys tr).length

/-- The characters in the ring. -/
def Keyboard.queue (k : Keyboard) : List UInt8 :=
  contents kbdBufSize k.buf k.tail (used kbdBufSize k.tail k.head)

/-- What a poll in progress relies on. -/
def PollPhase.Holds (k : Keyboard) : PollPhase → Prop
  | .idle => True
  | .found => k.head ≠ k.tail
  | .taken c => k.head ≠ k.tail ∧ c = k.buf k.tail

/-- The characters accepted are those polled, followed by those in the ring. -/
structure KeyboardInv (tr : List KeyRecord) (s : Polled) : Prop where
  head_lt : s.kbd.head < kbdBufSize
  tail_lt : s.kbd.tail < kbdBufSize
  exact : (acceptedKeys tr).map (fun c => (c.toNat : Int)) =
    polledKeys tr ++ s.kbd.queue.map fun c => (c.toNat : Int)
  phase : s.phase.Holds s.kbd

/-- A poll that no interrupt comes into. -/
theorem poll_uninterrupted (k : Keyboard) :
    (k.head = k.tail ∧ pollStep ⟨k, .idle⟩ = (⟨(halKeyboardPoll k).1, .idle⟩,
      .returned (halKeyboardPoll k).2)) ∨
    (k.head ≠ k.tail ∧ pollStep (pollStep (pollStep ⟨k, .idle⟩).1).1 =
      (⟨(halKeyboardPoll k).1, .idle⟩, .returned (halKeyboardPoll k).2)) := by
  by_cases h : k.head = k.tail
  · refine Or.inl ⟨h, ?_⟩
    simp [pollStep, halKeyboardPoll, h]
  · refine Or.inr ⟨h, ?_⟩
    simp [pollStep, halKeyboardPoll, h]

/-! ### One event -/

section

variable {k : Keyboard} (hhead : k.head < kbdBufSize) (htail : k.tail < kbdBufSize)

include hhead htail

theorem queue_eq_nil_iff : k.queue = [] ↔ k.head = k.tail := by
  rw [← used_eq_zero_iff htail hhead, Keyboard.queue, ← List.length_eq_zero_iff, contents_length]

/-- A character joins at the end. -/
theorem queue_accept (hroom : (k.head + 1) % kbdBufSize ≠ k.tail) (c : UInt8) (shiftHeld : Bool) :
    (⟨Function.update k.buf k.head c, (k.head + 1) % kbdBufSize, k.tail, shiftHeld⟩ :
      Keyboard).queue = k.queue ++ [c] := by
  have hlt : used kbdBufSize k.tail k.head < kbdBufSize := Nat.mod_lt _ (by decide)
  have hne : used kbdBufSize k.tail k.head + 1 ≠ kbdBufSize := fun hfull =>
    hroom ((succ_eq_iff_full htail hhead).mpr hfull)
  have hcell : k.head = (k.tail + used kbdBufSize k.tail k.head) % kbdBufSize :=
    (head_eq htail hhead).symm
  rw [Keyboard.queue, Keyboard.queue]
  dsimp only
  rw [used_succ_head htail hhead (by omega)]
  nth_rewrite 1 [hcell]
  exact contents_enqueue hlt

/-- The oldest character leaves. -/
theorem queue_advance (hne : k.head ≠ k.tail) :
    k.queue = k.buf k.tail ::
      ({ k with tail := (k.tail + 1) % kbdBufSize } : Keyboard).queue := by
  have hpos : 0 < used kbdBufSize k.tail k.head := by
    rw [Nat.pos_iff_ne_zero, ne_eq, used_eq_zero_iff htail hhead]
    exact hne
  rw [Keyboard.queue, Keyboard.queue]
  dsimp only
  rw [used_succ_tail htail hhead hne]
  exact contents_dequeue htail hpos

/-- The ring is full when it holds 31 characters. -/
theorem full_iff : (k.head + 1) % kbdBufSize = k.tail ↔ k.queue.length = 31 := by
  rw [succ_eq_iff_full htail hhead, Keyboard.queue, contents_length]
  change _ + 1 = 32 ↔ _
  omega

end

/-- Of the characters accepted, as many are unread as the ring holds. -/
theorem KeyboardInv.unread {tr : List KeyRecord} {s : Polled} (h : KeyboardInv tr s) :
    unreadKeys tr = s.kbd.queue.length := by
  have hlength := congrArg List.length h.exact
  rw [List.length_map, List.length_append, List.length_map] at hlength
  rw [unreadKeys]
  omega

theorem KeyboardInv.init : KeyboardInv [] keyboardAtBoot :=
  ⟨by decide, by decide, rfl, trivial⟩

/-- An event that accepts nothing, completes no poll and leaves the ring alone. -/
theorem KeyboardInv.quiet {tr : List KeyRecord} {s s' : Polled} (h : KeyboardInv tr s)
    {e : KeyboardEvent} {o : KeyboardOutcome} (haccepted : acceptedKey ⟨s, e, o, s'⟩ = none)
    (hpolled : polledKey ⟨s, e, o, s'⟩ = none) (hbuf : s'.kbd.buf = s.kbd.buf)
    (hhead : s'.kbd.head = s.kbd.head) (htail : s'.kbd.tail = s.kbd.tail)
    (hphase : s'.phase.Holds s.kbd) : KeyboardInv (⟨s, e, o, s'⟩ :: tr) s' := by
  have hqueue : s'.kbd.queue = s.kbd.queue := by
    rw [Keyboard.queue, hbuf, hhead, htail, Keyboard.queue]
  refine ⟨by rw [hhead]; exact h.head_lt, by rw [htail]; exact h.tail_lt, ?_, ?_⟩
  · rw [acceptedKeys, polledKeys, observed_cons, observed_cons, haccepted, hpolled, hqueue,
      Option.toList_none, Option.toList_none, List.append_nil, List.append_nil]
    exact h.exact
  · cases hs : s'.phase with
    | idle => trivial
    | found =>
        rw [hs] at hphase
        rw [PollPhase.Holds, hhead, htail]
        exact hphase
    | taken c =>
        rw [hs] at hphase
        rw [PollPhase.Holds, hhead, htail, hbuf]
        exact hphase

/-- **The interrupt.** -/
theorem KeyboardInv.irq {tr : List KeyRecord} {s : Polled} (h : KeyboardInv tr s) (sc : UInt8) :
    KeyboardInv (⟨s, .irq sc, .key (halKeyboardIrqHandler s.kbd sc).2,
      ⟨(halKeyboardIrqHandler s.kbd sc).1, s.phase⟩⟩ :: tr)
      ⟨(halKeyboardIrqHandler s.kbd sc).1, s.phase⟩ := by
  unfold halKeyboardIrqHandler
  rcases decodeScancode s.kbd.shiftHeld sc with ⟨shiftHeld, _ | c⟩
  · exact h.quiet rfl rfl rfl rfl rfl h.phase
  dsimp only
  by_cases hroom : (s.kbd.head + 1) % kbdBufSize ≠ s.kbd.tail
  · rw [if_pos hroom]
    refine ⟨Nat.mod_lt _ (by decide), h.tail_lt, ?_, ?_⟩
    · have hexact := h.exact
      rw [acceptedKeys, polledKeys] at hexact
      rw [acceptedKeys, polledKeys, observed_cons, observed_cons,
        queue_accept h.head_lt h.tail_lt hroom]
      simp [acceptedKey, polledKey, hexact]
    · -- the head moves away from the tail, and the cell of the tail is not written
      have hphase := h.phase
      cases hs : s.phase with
      | idle => trivial
      | found => exact hroom
      | taken c' =>
          rw [hs] at hphase
          refine ⟨hroom, hphase.2.trans ?_⟩
          exact (Function.update_of_ne hphase.1.symm _ _).symm
  · rw [if_neg hroom]
    exact h.quiet rfl rfl rfl rfl rfl h.phase

/-- **An access of the poll.** -/
theorem KeyboardInv.poll {tr : List KeyRecord} {s : Polled} (h : KeyboardInv tr s) :
    KeyboardInv (⟨s, .poll, (pollStep s).2, (pollStep s).1⟩ :: tr) (pollStep s).1 := by
  have hphase := h.phase
  unfold pollStep
  cases hs : s.phase with
  | idle =>
      dsimp only
      by_cases hempty : s.kbd.head = s.kbd.tail
      · rw [if_pos hempty]
        exact h.quiet rfl rfl rfl rfl rfl h.phase
      · rw [if_neg hempty]
        exact h.quiet rfl rfl rfl rfl rfl hempty
  | found =>
      rw [hs] at hphase
      exact h.quiet rfl rfl rfl rfl rfl ⟨hphase, rfl⟩
  | taken c =>
      rw [hs] at hphase
      refine ⟨h.head_lt, Nat.mod_lt _ (by decide), ?_, trivial⟩
      have hvalue : ¬ (c.toNat : Int) = -1 := by omega
      have hexact := h.exact
      rw [queue_advance h.head_lt h.tail_lt hphase.1, ← hphase.2] at hexact
      rw [acceptedKeys, polledKeys] at hexact ⊢
      rw [observed_cons, observed_cons]
      simp [acceptedKey, polledKey, hvalue, hexact]

/-- **Every run.** -/
theorem keyboardInv_run {tr : List KeyRecord} {s : Polled}
    (htrace : Trace keyboardStep keyboardAtBoot tr s) : KeyboardInv tr s := by
  refine htrace.history_invariant KeyboardInv .init ?_
  intro tr s e o s' _ hinv hstep
  cases e with
  | irq sc =>
      obtain ⟨rfl, rfl⟩ := Prod.mk.inj (Option.some.inj hstep)
      exact hinv.irq sc
  | poll =>
      obtain ⟨hs', ho⟩ := Prod.mk.inj (Option.some.inj hstep)
      rw [← hs', ← ho]
      exact hinv.poll

/-- The keyboard after a run is a bounded queue. -/
structure KeyboardFifo (tr : List KeyRecord) (s : Polled) : Prop where
  /-- What has been polled is the beginning of what has been accepted. -/
  order : polledKeys tr <+: (acceptedKeys tr).map fun c => (c.toNat : Int)
  /-- A decoded character is dropped exactly when 31 characters are unread. -/
  drop : ∀ sc c s' o, (decodeScancode s.kbd.shiftHeld sc).2 = some c →
    keyboardStep s (.irq sc) = some (s', o) →
      o = .key (if unreadKeys tr = 31 then .dropped c else .accepted c)
  /-- A poll returns -1 exactly when it begins with no character unread. -/
  empty : ∀ s' o, keyboardStep s .poll = some (s', o) →
    (o = .returned (-1) ↔ s.phase = .idle ∧ unreadKeys tr = 0)
  head_lt : s.kbd.head < 32
  tail_lt : s.kbd.tail < 32

/-- **The keyboard buffer is a bounded queue**, whatever the interrupts and the polls. -/
theorem keyboard_fifo {tr : List KeyRecord} {s : Polled}
    (htrace : Trace keyboardStep keyboardAtBoot tr s) : KeyboardFifo tr s := by
  have h := keyboardInv_run htrace
  refine ⟨⟨_, h.exact.symm⟩, fun sc c s' o hdecode hstep => ?_, fun s' o hstep => ?_,
    h.head_lt, h.tail_lt⟩
  · obtain ⟨-, ho⟩ := Prod.mk.inj (Option.some.inj hstep)
    rw [← ho, h.unread, halKeyboardIrqHandler]
    rcases hboth : decodeScancode s.kbd.shiftHeld sc with ⟨shiftHeld, decoded⟩
    rw [hboth] at hdecode
    simp only at hdecode
    subst hdecode
    dsimp only
    by_cases hfull : (s.kbd.head + 1) % kbdBufSize = s.kbd.tail
    · rw [if_neg (not_not.mpr hfull), if_pos ((full_iff h.head_lt h.tail_lt).mp hfull)]
    · rw [if_pos hfull, if_neg fun hlen => hfull ((full_iff h.head_lt h.tail_lt).mpr hlen)]
  · obtain ⟨-, ho⟩ := Prod.mk.inj (Option.some.inj hstep)
    rw [← ho, h.unread, List.length_eq_zero_iff, queue_eq_nil_iff h.head_lt h.tail_lt]
    cases hs : s.phase with
    | idle =>
        dsimp only
        by_cases hempty : s.kbd.head = s.kbd.tail
        · simp [hempty]
        · simp [hempty]
    | found => simp
    | taken c =>
        have hvalue : ¬ (c.toNat : Int) = -1 := by omega
        simp [hvalue]

/-- Shift and `a`, a poll cut in two by `b`, and a poll of the empty ring. -/
def typedEvents : List KeyboardEvent :=
  [.irq 0x2A, .irq 0x1E, .poll, .poll, .irq 0xAA, .irq 0x30, .poll, .poll, .poll, .poll, .poll]

theorem keyboard_fifo_typed : ∃ tr s, Trace keyboardStep keyboardAtBoot tr s ∧
    acceptedKeys tr = [0x41, 0x62] ∧ polledKeys tr = [0x41, 0x62] ∧ KeyboardFifo tr s := by
  have hrun : (runTrace keyboardStep [] keyboardAtBoot typedEvents).map (fun r =>
      (acceptedKeys r.1, polledKeys r.1)) = some ([0x41, 0x62], [0x41, 0x62]) := by decide +kernel
  obtain ⟨tr, s, htrace, hview⟩ := exists_trace_of_runTrace hrun
  obtain ⟨haccepted, hpolled⟩ := Prod.mk.inj hview
  exact ⟨tr, s, htrace, haccepted, hpolled, keyboard_fifo htrace⟩

end Vajra
