import Vajra.Keyboard

/-!
# What the keys of a keyboard are decoded to

The keys as they are pressed and released, and the Set 1 codes they send: `KeyEvent.bytes`.
`handed` is what the interrupt handler makes of the codes.  `Contributes` says what an event
should add to it: a press of a mapped key its character, shifted if one of the shift keys is
down, a press of an extended key at most a character of its own, anything else nothing.

The handler has one flag for the two shift keys and takes no notice of the prefix 0xE0.  So the
flag is set if the last shift code was a make, whether it came from either shift key or was a
fake one sent with an extended key, and the second byte of an extended key is decoded like the
key that sends it without the prefix.  `decodes_iff` says when this makes no difference.
-/

namespace Vajra

open TransitionTrace

inductive ShiftKey where
  | left
  | right
  deriving DecidableEq

/-- The code of a key that is not a shift key. -/
structure KeyCode where
  code : UInt8
  make : code < 0x80
  not_left : code ≠ scancodeLshift
  not_right : code ≠ scancodeRshift

/-- The keys; an extended key sends its code with the prefix 0xE0. -/
inductive Key where
  | shift (side : ShiftKey)
  | ordinary (key : KeyCode)
  | extended (key : KeyCode)

/-- A key is pressed or released, or the keyboard sends a fake shift code around an extended
key. -/
inductive KeyEvent where
  | press (key : Key)
  | release (key : Key)
  | fakeShift (side : ShiftKey) (down : Bool)

/-- `SCANCODE_LSHIFT` and `SCANCODE_RSHIFT`. -/
def ShiftKey.code : ShiftKey → UInt8
  | .left => scancodeLshift
  | .right => scancodeRshift

/-- The Set 1 codes of an event. -/
def KeyEvent.bytes : KeyEvent → List UInt8
  | .press (.shift side) => [side.code]
  | .release (.shift side) => [side.code ||| 0x80]
  | .press (.ordinary key) => [key.code]
  | .release (.ordinary key) => [key.code ||| 0x80]
  | .press (.extended key) => [0xE0, key.code]
  | .release (.extended key) => [0xE0, key.code ||| 0x80]
  | .fakeShift side down => [0xE0, if down then side.code else side.code ||| 0x80]

/-- The interrupt handler on a sequence of codes: the flag, and the characters it hands to the
ring. -/
def decodeAll (shiftHeld : Bool) : List UInt8 → Bool × List UInt8
  | [] => (shiftHeld, [])
  | sc :: scs =>
      let r := decodeScancode shiftHeld sc
      let rest := decodeAll r.1 scs
      (rest.1, r.2.toList ++ rest.2)

/-- The characters handed to the ring for the events, from boot on. -/
def handed (events : List KeyEvent) : List UInt8 :=
  (decodeAll false (events.flatMap KeyEvent.bytes)).2

/-- The latest value of an observation of the events. -/
def latest (observe : KeyEvent → Option Bool) (events : List KeyEvent) : Bool :=
  (events.reverse.findSome? observe).getD false

/-- A shift key is pressed or released. -/
def shiftKeyMoves (side : ShiftKey) : KeyEvent → Option Bool
  | .press (.shift side') => if side' = side then some true else none
  | .release (.shift side') => if side' = side then some false else none
  | _ => none

/-- A shift code is sent, by either key or as a fake: a make or a break. -/
def shiftCodeSent : KeyEvent → Option Bool
  | .press (.shift _) => some true
  | .release (.shift _) => some false
  | .fakeShift _ down => some down
  | _ => none

/-- One of the shift keys is down. -/
def ShiftDown (events : List KeyEvent) : Prop :=
  latest (shiftKeyMoves .left) events = true ∨ latest (shiftKeyMoves .right) events = true

instance (events : List KeyEvent) : Decidable (ShiftDown events) :=
  inferInstanceAs (Decidable (_ ∨ _))

/-- The character an extended key has of its own: keypad Enter and keypad slash. -/
def ownChar (key : KeyCode) : Option UInt8 :=
  if key.code = 0x1C then some 0x0A
  else if key.code = 0x35 then some 0x2F
  else none

/-- What an event may add to the characters. -/
def Contributes (before : List KeyEvent) (chars : List UInt8) : KeyEvent → Prop
  | .press (.ordinary key) =>
      let c := scancodeChar (decide (ShiftDown before)) key.code
      chars = if c = 0 then [] else [c]
  | .press (.extended key) => chars = [] ∨ ∃ c, ownChar key = some c ∧ chars = [c]
  | _ => chars = []

/-- Every event contributes what it should. -/
def Decodes (events : List KeyEvent) : Prop :=
  ∀ before event, before ++ [event] <+: events →
    ∃ chars, handed (before ++ [event]) = handed before ++ chars ∧ Contributes before chars event

/-- The one flag and the missing prefix make no difference to an event: the press of a key whose
character depends on shift comes when the last shift code agrees with the shift keys; an
extended key sends the code of no mapped key, or it is keypad Enter, or keypad slash after a
break. -/
def Harmless (before : List KeyEvent) : KeyEvent → Prop
  | .press (.ordinary key) =>
      scancodeChar false key.code ≠ scancodeChar true key.code →
        (latest shiftCodeSent before = true ↔ ShiftDown before)
  | .press (.extended key) =>
      scancodeChar false key.code = 0 ∨ key.code = 0x1C ∨
        (key.code = 0x35 ∧ latest shiftCodeSent before = false)
  | _ => True

/-! ### One code -/

theorem latest_snoc (observe : KeyEvent → Option Bool) (events : List KeyEvent)
    (event : KeyEvent) :
    latest observe (events ++ [event]) = (observe event).getD (latest observe events) := by
  rw [latest, List.reverse_append, List.reverse_singleton, List.singleton_append,
    List.findSome?_cons]
  cases observe event with
  | none => rfl
  | some b => rfl

theorem decodeAll_append (shiftHeld : Bool) (scs more : List UInt8) :
    decodeAll shiftHeld (scs ++ more) =
      ((decodeAll (decodeAll shiftHeld scs).1 more).1,
        (decodeAll shiftHeld scs).2 ++ (decodeAll (decodeAll shiftHeld scs).1 more).2) := by
  induction scs generalizing shiftHeld with
  | nil => rfl
  | cons sc scs ih =>
      rw [List.cons_append, decodeAll, ih]
      simp only [decodeAll, List.append_assoc]

/-- The code of an interrupt, and the character it hands to the ring. -/
def irqCode (t : KeyRecord) : Option UInt8 :=
  match t.event with
  | .irq sc => some sc
  | .poll => none

def irqChar (t : KeyRecord) : Option UInt8 :=
  match t.outcome with
  | .key stroke => stroke.char
  | _ => none

/-- **The keyboard hands over what its interrupts are decoded to**, whatever polls come in
between. -/
theorem run_decodes {tr : List KeyRecord} {s : Polled}
    (htrace : Trace keyboardStep keyboardAtBoot tr s) :
    decodeAll false (observed irqCode tr) = (s.kbd.shiftHeld, observed irqChar tr) := by
  refine htrace.history_invariant (fun tr s =>
    decodeAll false (observed irqCode tr) = (s.kbd.shiftHeld, observed irqChar tr)) rfl ?_
  intro tr s e o s' _ ih hstep
  rw [observed_cons, observed_cons, decodeAll_append, ih]
  cases e with
  | irq sc =>
      obtain ⟨rfl, rfl⟩ := Prod.mk.inj (Option.some.inj hstep)
      have hdecode := irqHandler_decodes s.kbd sc
      simp only [irqCode, irqChar, Option.toList_some, decodeAll, ← hdecode, List.append_nil]
  | poll =>
      obtain ⟨hs', ho⟩ := Prod.mk.inj (Option.some.inj hstep)
      have hkept : s'.kbd.shiftHeld = s.kbd.shiftHeld ∧
          irqChar ⟨s, .poll, o, s'⟩ = none := by
        rw [← hs', ← ho]
        cases s.phase with
        | idle =>
            dsimp only
            split
            · exact ⟨rfl, rfl⟩
            · exact ⟨rfl, rfl⟩
        | found => exact ⟨rfl, rfl⟩
        | taken c => exact ⟨rfl, rfl⟩
      rw [hkept.1, hkept.2]
      simp [irqCode, decodeAll]

/-- A key code, as a number below 128. -/
theorem KeyCode.toNat_lt (key : KeyCode) : key.code.toNat < 128 := UInt8.lt_iff_toNat_lt.mp key.make

theorem KeyCode.ofNat_toNat (key : KeyCode) : UInt8.ofNat key.code.toNat = key.code :=
  UInt8.ofNat_toNat

/-- The make code of a key that is not a shift key. -/
theorem decodeScancode_make (shiftHeld : Bool) (key : KeyCode) :
    decodeScancode shiftHeld key.code =
      (shiftHeld, if scancodeChar shiftHeld key.code = 0 then none
        else some (scancodeChar shiftHeld key.code)) := by
  have htable : ∀ shiftHeld : Bool, ∀ n < 128, UInt8.ofNat n ≠ scancodeLshift →
      UInt8.ofNat n ≠ scancodeRshift → decodeScancode shiftHeld (UInt8.ofNat n) =
        (shiftHeld, if scancodeChar shiftHeld (UInt8.ofNat n) = 0 then none
          else some (scancodeChar shiftHeld (UInt8.ofNat n))) := by decide +kernel
  have h := htable shiftHeld key.code.toNat key.toNat_lt
  rw [key.ofNat_toNat] at h
  exact h key.not_left key.not_right

/-- The break code of one. -/
theorem decodeScancode_break (shiftHeld : Bool) (key : KeyCode) :
    decodeScancode shiftHeld (key.code ||| 0x80) = (shiftHeld, none) := by
  have htable : ∀ shiftHeld : Bool, ∀ n < 128, UInt8.ofNat n ≠ scancodeLshift →
      UInt8.ofNat n ≠ scancodeRshift →
        decodeScancode shiftHeld (UInt8.ofNat n ||| 0x80) = (shiftHeld, none) := by decide +kernel
  have h := htable shiftHeld key.code.toNat key.toNat_lt
  rw [key.ofNat_toNat] at h
  exact h key.not_left key.not_right

/-- The prefix is ignored. -/
theorem decodeScancode_extended (shiftHeld : Bool) :
    decodeScancode shiftHeld 0xE0 = (shiftHeld, none) := by
  cases shiftHeld with
  | false => rfl
  | true => rfl

theorem decodeScancode_shift (shiftHeld : Bool) (side : ShiftKey) :
    decodeScancode shiftHeld side.code = (true, none) ∧
      decodeScancode shiftHeld (side.code ||| 0x80) = (false, none) := by
  cases side with
  | left => exact ⟨rfl, rfl⟩
  | right => exact ⟨rfl, rfl⟩

/-! ### One event -/

/-- The character of a code, unless it has none. -/
def charOf (shiftHeld : Bool) (key : KeyCode) : List UInt8 :=
  if scancodeChar shiftHeld key.code = 0 then [] else [scancodeChar shiftHeld key.code]

/-- What the handler makes of an event. -/
def KeyEvent.chars (shiftHeld : Bool) : KeyEvent → List UInt8
  | .press (.ordinary key) | .press (.extended key) => charOf shiftHeld key
  | _ => []

theorem toList_make (shiftHeld : Bool) (key : KeyCode) :
    (decodeScancode shiftHeld key.code).2.toList = charOf shiftHeld key := by
  rw [decodeScancode_make, charOf]
  split
  · rfl
  · rfl

/-- **One event**: the flag follows the shift codes. -/
theorem decodeAll_bytes (shiftHeld : Bool) (event : KeyEvent) :
    decodeAll shiftHeld event.bytes =
      ((shiftCodeSent event).getD shiftHeld, event.chars shiftHeld) := by
  cases event with
  | press key =>
      cases key with
      | shift side => simp [KeyEvent.bytes, decodeAll, decodeScancode_shift, shiftCodeSent,
          KeyEvent.chars]
      | ordinary key =>
          have hchar := toList_make shiftHeld key
          have hflag : (decodeScancode shiftHeld key.code).1 = shiftHeld := by
            rw [decodeScancode_make]
          simp [KeyEvent.bytes, decodeAll, shiftCodeSent, KeyEvent.chars, hchar, hflag]
      | extended key =>
          have hchar := toList_make shiftHeld key
          have hflag : (decodeScancode shiftHeld key.code).1 = shiftHeld := by
            rw [decodeScancode_make]
          simp [KeyEvent.bytes, decodeAll, decodeScancode_extended, shiftCodeSent,
            KeyEvent.chars, hchar, hflag]
  | release key =>
      cases key with
      | shift side => simp [KeyEvent.bytes, decodeAll, decodeScancode_shift, shiftCodeSent,
          KeyEvent.chars]
      | ordinary key => simp [KeyEvent.bytes, decodeAll, decodeScancode_break, shiftCodeSent,
          KeyEvent.chars]
      | extended key => simp [KeyEvent.bytes, decodeAll, decodeScancode_extended,
          decodeScancode_break, shiftCodeSent, KeyEvent.chars]
  | fakeShift side down =>
      cases down with
      | true => simp [KeyEvent.bytes, decodeAll, decodeScancode_extended, decodeScancode_shift,
          shiftCodeSent, KeyEvent.chars]
      | false => simp [KeyEvent.bytes, decodeAll, decodeScancode_extended, decodeScancode_shift,
          shiftCodeSent, KeyEvent.chars]

/-- The flag after the events: the last shift code was a make. -/
theorem flag_eq_latest (events : List KeyEvent) :
    (decodeAll false (events.flatMap KeyEvent.bytes)).1 = latest shiftCodeSent events := by
  induction events using List.reverseRecOn with
  | nil => rfl
  | append_singleton events event ih =>
      rw [List.flatMap_append, List.flatMap_singleton, decodeAll_append, ih, decodeAll_bytes,
        latest_snoc]

theorem handed_snoc (before : List KeyEvent) (event : KeyEvent) :
    handed (before ++ [event]) =
      handed before ++ event.chars (latest shiftCodeSent before) := by
  rw [handed, List.flatMap_append, List.flatMap_singleton, decodeAll_append, flag_eq_latest,
    decodeAll_bytes, handed]

/-! ### When it is right -/

/-- A code is mapped in both tables or in neither. -/
theorem scancodeChar_zero_iff (shiftHeld : Bool) (key : KeyCode) :
    scancodeChar shiftHeld key.code = 0 ↔ scancodeChar false key.code = 0 := by
  have htable : ∀ shiftHeld : Bool, ∀ n < 128, scancodeChar shiftHeld (UInt8.ofNat n) = 0 ↔
      scancodeChar false (UInt8.ofNat n) = 0 := by decide +kernel
  have h := htable shiftHeld key.code.toNat key.toNat_lt
  rwa [key.ofNat_toNat] at h

theorem charOf_eq_iff (a b : Bool) (key : KeyCode) : charOf a key = charOf b key ↔
    (scancodeChar false key.code ≠ scancodeChar true key.code → a = b) := by
  have hchars : charOf a key = charOf b key ↔
      scancodeChar a key.code = scancodeChar b key.code := by
    have ha := scancodeChar_zero_iff a key
    have hb := scancodeChar_zero_iff b key
    unfold charOf
    by_cases hzero : scancodeChar false key.code = 0
    · rw [if_pos (ha.mpr hzero), if_pos (hb.mpr hzero), ha.mpr hzero, hb.mpr hzero]
      simp
    · rw [if_neg fun h => hzero (ha.mp h), if_neg fun h => hzero (hb.mp h)]
      simp
  rw [hchars]
  cases a with
  | false => cases b <;> simp
  | true => cases b <;> simp [eq_comm]

/-- What an extended key may contribute. -/
theorem extended_contributes_iff (shiftHeld : Bool) (key : KeyCode) :
    (charOf shiftHeld key = [] ∨ ∃ c, ownChar key = some c ∧ charOf shiftHeld key = [c]) ↔
      scancodeChar false key.code = 0 ∨ key.code = 0x1C ∨
        (key.code = 0x35 ∧ shiftHeld = false) := by
  have hempty : charOf shiftHeld key = [] ↔ scancodeChar false key.code = 0 := by
    rw [← scancodeChar_zero_iff shiftHeld key, charOf]
    split
    · simp_all
    · simp_all
  rw [hempty]
  refine or_congr_right ?_
  unfold ownChar charOf
  by_cases henter : key.code = 0x1C
  · rw [henter]
    cases shiftHeld with
    | false => decide +kernel
    | true => decide +kernel
  · by_cases hslash : key.code = 0x35
    · rw [hslash]
      cases shiftHeld with
      | false => decide +kernel
      | true => decide +kernel
    · simp [henter, hslash]

/-- **One event is decoded right exactly when it is harmless.** -/
theorem contributes_iff (before : List KeyEvent) (event : KeyEvent) :
    Contributes before (event.chars (latest shiftCodeSent before)) event ↔
      Harmless before event := by
  cases event with
  | press key =>
      cases key with
      | shift side => simp [Contributes, Harmless, KeyEvent.chars]
      | ordinary key =>
          change charOf _ key = charOf (decide (ShiftDown before)) key ↔ _
          rw [charOf_eq_iff]
          refine imp_congr_right fun _ => ?_
          rw [Bool.eq_iff_iff, decide_eq_true_iff]
      | extended key => exact extended_contributes_iff _ key
  | release key => cases key <;> simp [Contributes, Harmless, KeyEvent.chars]
  | fakeShift side down => simp [Contributes, Harmless, KeyEvent.chars]

/-- **When the keys are decoded right.** -/
theorem decodes_iff (events : List KeyEvent) :
    Decodes events ↔ ∀ before event, before ++ [event] <+: events → Harmless before event := by
  unfold Decodes
  refine forall_congr' fun before => forall_congr' fun event => imp_congr_right fun _ => ?_
  rw [← contributes_iff, handed_snoc]
  constructor
  · rintro ⟨chars, hchars, hright⟩
    rwa [List.append_cancel_left hchars]
  · intro hright
    exact ⟨_, rfl, hright⟩

/-- The key `A`. -/
def keyA : KeyCode := ⟨0x1E, by decide, by decide, by decide⟩

/-- Both shift keys are pressed, the right one is released, and `A` is pressed. -/
def oneShiftReleased : List KeyEvent :=
  [.press (.shift .left), .press (.shift .right), .release (.shift .right),
    .press (.ordinary keyA)]

/-- It is decoded to a small letter. -/
theorem one_shift_released : handed oneShiftReleased = [0x61] ∧ ¬ Decodes oneShiftReleased := by
  have hhanded : handed oneShiftReleased = [0x61] := by decide +kernel
  refine ⟨hhanded, fun h => ?_⟩
  obtain ⟨chars, hchars, hright⟩ := h [.press (.shift .left), .press (.shift .right),
    .release (.shift .right)] (.press (.ordinary keyA)) List.prefix_rfl
  have hbefore : handed [.press (.shift .left), .press (.shift .right),
      .release (.shift .right)] = [] := by decide +kernel
  rw [hbefore, List.nil_append] at hchars
  have hcapital : chars = [0x41] := hright
  rw [hcapital] at hchars
  exact absurd (hhanded.symm.trans hchars) (by decide)

end Vajra
