import Vajra.ShellCommands

/-!
# The parameters of an escape sequence (`hal/x86_64/console.c`)

`esc_cur_param` accumulates the digits of a parameter in an `int`, over as many writes of as
many actors as it takes, and no byte but `[` and `;` resets it.  `paramDigits` collects those
digits beside it.  A byte keeps the parameter at their value unless the accumulation overflows
(`ParamsHold.putchar`), and it overflows exactly when that value leaves the range of `int`
(`accumulates_iff`).
-/

namespace Vajra

open DecimalNumerals

/-- The state of the parser, and the digits it has read since the last `[` or `;`. -/
abbrev ParamReader := EscState × List Nat

/-- What one byte does to the digits. -/
def readParam (r : ParamReader) (c : UInt8) : ParamReader :=
  (escNext r.1 c,
    match r.1 with
    | .none => r.2
    | .gotEsc => if c = 0x5B then [] else r.2
    | .inSeq =>
        if IsDigit c then r.2 ++ [c.toNat - 0x30]
        else if c = 0x3B then []
        else r.2)

def readParamCall (r : ParamReader) : ConsoleCall → ParamReader
  | .setWindow _ => r
  | .putchar c => readParam r c

/-- The digits read since the last separator. -/
def paramReader (calls : List ConsoleCall) : ParamReader := calls.foldl readParamCall (.none, [])
def paramDigits (calls : List ConsoleCall) : List Nat := (paramReader calls).2

/-- The accumulation of the byte, if it is one, stays in the range of `int`. -/
def Accumulates (s : Console) (c : UInt8) : Prop :=
  s.escState = .inSeq → IsDigit c → intValue (s.escCurParam * 10 + (c.toNat - 0x30)) ≠ none

/-- The console of the boot, with `params` in `esc_params` and in the memory behind it. -/
def consoleWithParams (vga : Vga) (params : Nat → Int) : Console :=
  { bootConsole vga with escParams := params }

/-- The arithmetic of the parameters is safe in every state the calls lead through. -/
structure ParamsSafe (start : Console) (calls : List ConsoleCall) : Prop where
  noOverflow : ∀ before c, before ++ [.putchar c] <+: calls →
    Accumulates (consoleAfter start before) c
  exact : ∀ before, before <+: calls →
    (consoleAfter start before).escCurParam = value (paramDigits before)
  inRange : ∀ before, before <+: calls →
    -2 ^ 31 ≤ (consoleAfter start before).escCurParam ∧
      (consoleAfter start before).escCurParam < 2 ^ 31
  count : ∀ before, before <+: calls → (consoleAfter start before).escParamCount ≤ 4
  /-- Nothing is stored behind the four parameters. -/
  stores : ∀ before, before <+: calls → ∀ i, 4 ≤ i →
    (consoleAfter start before).escParams i = start.escParams i

/-! ### What a byte does to the parameters -/

/-- The parameters and their count. -/
def stored (s : Console) : (Nat → Int) × Nat := (s.escParams, s.escParamCount)

theorem putOrdinary_params (s : Console) (c : UInt8) :
    stored (putOrdinary s c) = stored s ∧ (putOrdinary s c).escCurParam = s.escCurParam := by
  unfold putOrdinary
  dsimp only
  split
  · exact ⟨rfl, rfl⟩
  · exact ⟨rfl, rfl⟩

theorem finalByte_params (s : Console) (c : UInt8) :
    stored (finalByte s c) = stored s ∧ (finalByte s c).escCurParam = s.escCurParam := by
  unfold finalByte
  split_ifs
  · exact ⟨rfl, rfl⟩
  · exact ⟨rfl, rfl⟩
  · exact ⟨rfl, rfl⟩
  · exact ⟨rfl, rfl⟩

/-- A parameter is stored among the four, if at all. -/
theorem pushParam_params {s : Console} (hcount : s.escParamCount ≤ 4) :
    (pushParam s).escParamCount ≤ 4 ∧
      (∀ i, 4 ≤ i → (pushParam s).escParams i = s.escParams i) ∧
      (pushParam s).escCurParam = s.escCurParam := by
  unfold pushParam
  split
  · refine ⟨by dsimp only; omega, fun i hi => ?_, rfl⟩
    exact Function.update_of_ne (by omega) _ _
  · exact ⟨hcount, fun _ _ => rfl, rfl⟩

/-- What holds of the parser beside the digits it has read. -/
structure ParamsHold (params : Nat → Int) (s : Console) (r : ParamReader) : Prop where
  state : s.escState = r.1
  cur : s.escCurParam = value r.2
  fits : value r.2 < 2 ^ 31
  count : s.escParamCount ≤ 4
  stores : ∀ i, 4 ≤ i → s.escParams i = params i

section

variable {params : Nat → Int} {s : Console} {r : ParamReader}

theorem ParamsHold.start (vga : Vga) (params : Nat → Int) :
    ParamsHold params (consoleAfter (consoleWithParams vga params) []) (.none, []) :=
  ⟨rfl, rfl, by norm_num, Nat.zero_le 4, fun _ _ => rfl⟩

/-- The digit that is added. -/
theorem value_readParam_digit {c : UInt8} (hseq : r.1 = .inSeq) (hc : IsDigit c) :
    value (readParam r c).2 = value r.2 * 10 + (c.toNat - 0x30) := by
  simp only [readParam, hseq]
  rw [if_pos hc, value_snoc]

/-- A byte that is not accumulated leaves no more than there was. -/
theorem value_readParam_le {c : UInt8} (h : ¬ (r.1 = .inSeq ∧ IsDigit c)) :
    value (readParam r c).2 ≤ value r.2 := by
  unfold readParam
  cases hstate : r.1 with
  | none => exact le_rfl
  | gotEsc =>
      dsimp only
      split
      · exact Nat.zero_le _
      · exact le_rfl
  | inSeq =>
      have hc : ¬ IsDigit c := fun hc => h ⟨hstate, hc⟩
      dsimp only
      rw [if_neg hc]
      split
      · exact Nat.zero_le _
      · exact le_rfl

/-- **When the accumulation overflows.** -/
theorem ParamsHold.accumulates_iff (h : ParamsHold params s r) (c : UInt8) :
    Accumulates s c ↔ value (readParam r c).2 < 2 ^ 31 := by
  unfold Accumulates
  rw [h.state, h.cur]
  by_cases hdigit : r.1 = .inSeq ∧ IsDigit c
  · obtain ⟨hseq, hc⟩ := hdigit
    have hbounds := hc.toNat_bounds
    rw [value_readParam_digit hseq hc]
    simp only [hseq, hc, true_implies, intValue, ne_eq, ite_eq_right_iff, reduceCtorEq, imp_false,
      not_not]
    omega
  · have hfits := h.fits
    have hle := value_readParam_le hdigit
    constructor
    · intro _
      omega
    · intro _ hseq hc
      exact absurd ⟨hseq, hc⟩ hdigit

/-- A byte outside a sequence, or between `ESC` and `[`, does not store a parameter. -/
theorem ParamsHold.keep {s' : Console} {r' : ParamReader} (h : ParamsHold params s r)
    (hstate : s'.escState = r'.1) (hdigits : r'.2 = r.2) (hstored : stored s' = stored s)
    (hcur : s'.escCurParam = s.escCurParam) : ParamsHold params s' r' := by
  obtain ⟨hparams, hcount⟩ := Prod.mk.inj hstored
  refine ⟨hstate, ?_, ?_, ?_, fun i hi => ?_⟩
  · rw [hcur, h.cur, hdigits]
  · rw [hdigits]
    exact h.fits
  · rw [hcount]
    exact h.count
  · rw [hparams]
    exact h.stores i hi

theorem ParamsHold.nextState (h : ParamsHold params s r) (c : UInt8) :
    (halConsolePutchar s c).escState = (readParam r c).1 := by
  rw [halConsolePutchar_state, h.state]
  rfl

/-- A byte outside any sequence. -/
theorem ParamsHold.ordinary (h : ParamsHold params s r) (hs : s.escState = .none) (c : UInt8) :
    ParamsHold params (halConsolePutchar s c) (readParam r c) := by
  have hr : r.1 = .none := h.state ▸ hs
  have hdigits : (readParam r c).2 = r.2 := by rw [readParam, hr]
  have hsame : stored (halConsolePutchar s c) = stored s ∧
      (halConsolePutchar s c).escCurParam = s.escCurParam := by
    simp only [halConsolePutchar, consoleByte, hs]
    split
    · exact ⟨rfl, rfl⟩
    · exact putOrdinary_params _ c
  exact h.keep (h.nextState c) hdigits hsame.1 hsame.2

/-- The byte after `ESC`. -/
theorem ParamsHold.afterEsc (h : ParamsHold params s r) (hs : s.escState = .gotEsc) (c : UInt8) :
    ParamsHold params (halConsolePutchar s c) (readParam r c) := by
  have hr : r.1 = .gotEsc := h.state ▸ hs
  by_cases hc : c = 0x5B
  · have hdigits : (readParam r c).2 = [] := by simp only [readParam, hr, if_pos hc]
    have hnext : halConsolePutchar s c =
        { s with serial := c :: s.serial, escState := .inSeq, escParamCount := 0,
                 escCurParam := 0 } := by
      simp only [halConsolePutchar, consoleByte, hs, if_pos hc]
    refine ⟨h.nextState c, ?_, ?_, ?_, fun i hi => ?_⟩
    · rw [hnext, hdigits]
      rfl
    · rw [hdigits]
      norm_num
    · rw [hnext]
      exact Nat.zero_le _
    · rw [hnext]
      exact h.stores i hi
  · have hdigits : (readParam r c).2 = r.2 := by simp only [readParam, hr, if_neg hc]
    have hnext : halConsolePutchar s c =
        { s with serial := c :: s.serial, escState := .none } := by
      simp only [halConsolePutchar, consoleByte, hs, if_neg hc]
    exact h.keep (h.nextState c) hdigits (by rw [hnext]; rfl) (by rw [hnext])

/-- A digit of a parameter. -/
theorem ParamsHold.digit (h : ParamsHold params s r) (hs : s.escState = .inSeq) {c : UInt8}
    (hc : IsDigit c) (hfits : value (readParam r c).2 < 2 ^ 31) :
    ParamsHold params (halConsolePutchar s c) (readParam r c) := by
  have hvalue := value_readParam_digit (h.state ▸ hs : r.1 = .inSeq) hc
  have hbounds := hc.toNat_bounds
  have hnext : halConsolePutchar s c =
      { s with serial := c :: s.serial,
               escCurParam := wrapInt (s.escCurParam * 10 + (c.toNat - 0x30)) } := by
    simp only [halConsolePutchar, consoleByte, hs]
    rw [if_pos (show 0x30 ≤ c ∧ c ≤ 0x39 from hc)]
  have hwrap : wrapInt (s.escCurParam * 10 + (c.toNat - 0x30)) = value (readParam r c).2 := by
    rw [h.cur, wrapInt, Int.bmod_eq_of_le (by omega) (by omega), hvalue]
    omega
  refine ⟨h.nextState c, ?_, hfits, ?_, fun i hi => ?_⟩
  · rw [hnext]
    exact hwrap
  · rw [hnext]
    exact h.count
  · rw [hnext]
    exact h.stores i hi

/-- A byte that ends a parameter: `;`, or the final byte of the sequence. -/
theorem ParamsHold.endParam (h : ParamsHold params s r) (hs : s.escState = .inSeq) {c : UInt8}
    (hc : ¬ IsDigit c) : ParamsHold params (halConsolePutchar s c) (readParam r c) := by
  have hr : r.1 = .inSeq := h.state ▸ hs
  have hsmall : { s with serial := c :: s.serial : Console }.escParamCount ≤ 4 := h.count
  obtain ⟨hcount, hstores, hcur⟩ := pushParam_params hsmall
  by_cases hsep : c = 0x3B
  · have hdigits : (readParam r c).2 = [] := by simp only [readParam, hr, if_neg hc, if_pos hsep]
    have hnext : halConsolePutchar s c =
        { pushParam { s with serial := c :: s.serial } with escCurParam := 0 } := by
      simp only [halConsolePutchar, consoleByte, hs]
      rw [if_neg (show ¬ (0x30 ≤ c ∧ c ≤ 0x39) from hc), if_pos hsep]
    refine ⟨h.nextState c, ?_, ?_, ?_, fun i hi => ?_⟩
    · rw [hnext, hdigits]
      rfl
    · rw [hdigits]
      norm_num
    · rw [hnext]
      exact hcount
    · rw [hnext]
      exact (hstores i hi).trans (h.stores i hi)
  · have hdigits : (readParam r c).2 = r.2 := by simp only [readParam, hr, if_neg hc, if_neg hsep]
    have hnext : halConsolePutchar s c =
        { finalByte (pushParam { s with serial := c :: s.serial }) c with escState := .none } := by
      simp only [halConsolePutchar, consoleByte, hs]
      rw [if_neg (show ¬ (0x30 ≤ c ∧ c ≤ 0x39) from hc), if_neg hsep]
    obtain ⟨hfinal, hfinalCur⟩ :=
      finalByte_params (pushParam { s with serial := c :: s.serial }) c
    obtain ⟨hfinalParams, hfinalCount⟩ := Prod.mk.inj hfinal
    refine ⟨h.nextState c, ?_, ?_, ?_, fun i hi => ?_⟩
    · rw [hnext, hdigits, ← h.cur]
      exact hfinalCur.trans hcur
    · rw [hdigits]
      exact h.fits
    · rw [hnext]
      exact hfinalCount.trans_le hcount
    · rw [hnext]
      exact (congrFun hfinalParams i).trans ((hstores i hi).trans (h.stores i hi))

/-- **One byte.** -/
theorem ParamsHold.putchar (h : ParamsHold params s r) {c : UInt8}
    (hfits : value (readParam r c).2 < 2 ^ 31) :
    ParamsHold params (halConsolePutchar s c) (readParam r c) := by
  cases hs : s.escState with
  | none => exact h.ordinary hs c
  | gotEsc => exact h.afterEsc hs c
  | inSeq =>
      by_cases hc : IsDigit c
      · exact h.digit hs hc hfits
      · exact h.endParam hs hc

theorem ParamsHold.call (h : ParamsHold params s r) (call : ConsoleCall)
    (hfits : value (readParamCall r call).2 < 2 ^ 31) :
    ParamsHold params (consoleCall s call) (readParamCall r call) := by
  cases call with
  | setWindow win =>
      rw [consoleCall, halConsoleSetWindow]
      split_ifs
      · exact ⟨h.state, h.cur, h.fits, h.count, h.stores⟩
      · exact ⟨h.state, h.cur, h.fits, h.count, h.stores⟩
      · exact h
  | putchar c => exact h.putchar hfits

end

theorem consoleAfter_snoc (start : Console) (calls : List ConsoleCall) (call : ConsoleCall) :
    consoleAfter start (calls ++ [call]) = consoleCall (consoleAfter start calls) call := by
  rw [consoleAfter, List.foldl_append]
  rfl

theorem paramReader_snoc (calls : List ConsoleCall) (call : ConsoleCall) :
    paramReader (calls ++ [call]) = readParamCall (paramReader calls) call := by
  rw [paramReader, List.foldl_append]
  rfl

/-- The parser holds the value of the digits as long as no parameter has grown too large. -/
theorem paramsHold_after (vga : Vga) (params : Nat → Int) {calls : List ConsoleCall}
    (hsmall : ∀ before, before <+: calls → value (paramDigits before) < 2 ^ 31) :
    ParamsHold params (consoleAfter (consoleWithParams vga params) calls) (paramReader calls) := by
  induction calls using List.reverseRecOn with
  | nil => exact .start vga params
  | append_singleton calls call ih =>
      have hbefore := ih fun before hbegin => hsmall before (hbegin.trans (List.prefix_append _ _))
      rw [consoleAfter_snoc, paramReader_snoc]
      refine hbefore.call call ?_
      rw [← paramReader_snoc]
      exact hsmall _ List.prefix_rfl

/-- **When the parameters of the escape sequences are safe.** -/
theorem escape_params_safe_iff (vga : Vga) (params : Nat → Int) (calls : List ConsoleCall) :
    ParamsSafe (consoleWithParams vga params) calls ↔
      ∀ before, before <+: calls → value (paramDigits before) < 2 ^ 31 := by
  constructor
  · intro h before hbegin
    have hrange := (h.inRange before hbegin).2
    rw [h.exact before hbegin] at hrange
    exact_mod_cast hrange
  · intro hsmall
    have hhold : ∀ before, before <+: calls →
        ParamsHold params (consoleAfter (consoleWithParams vga params) before)
          (paramReader before) := fun before hbegin =>
      paramsHold_after vga params fun earlier h => hsmall earlier (h.trans hbegin)
    refine ⟨fun before c hbegin => ?_, fun before hbegin => (hhold before hbegin).cur,
      fun before hbegin => ?_, fun before hbegin => (hhold before hbegin).count,
      fun before hbegin => (hhold before hbegin).stores⟩
    · have hnow := hhold before ((List.prefix_append _ _).trans hbegin)
      rw [hnow.accumulates_iff c]
      have hnext := hsmall _ hbegin
      rwa [paramDigits, paramReader_snoc] at hnext
    · have hnow := hhold before hbegin
      have hfits := hnow.fits
      rw [hnow.cur]
      omega

/-- The bytes of a text, as calls. -/
def putAll (text : List UInt8) : List ConsoleCall := text.map .putchar

/-- A parameter of ten digits: the accumulation of the tenth overflows. -/
theorem tenth_digit_overflows :
    ¬ ParamsSafe (consoleWithParams (fun _ => 0) fun _ => 0)
      (putAll (asciiBytes "\x1b[9999999999")) := by
  intro h
  have hsplit : putAll (asciiBytes "\x1b[9999999999") =
      putAll (asciiBytes "\x1b[999999999") ++ [.putchar 0x39] := rfl
  have hstate : (consoleAfter (consoleWithParams (fun _ => 0) fun _ => 0)
      (putAll (asciiBytes "\x1b[999999999"))).escState = .inSeq := by decide +kernel
  have hcur : (consoleAfter (consoleWithParams (fun _ => 0) fun _ => 0)
      (putAll (asciiBytes "\x1b[999999999"))).escCurParam = 999999999 := by decide +kernel
  have hfits := h.noOverflow _ 0x39 (by rw [← hsplit]) hstate (by decide)
  rw [hcur] at hfits
  exact hfits rfl

end Vajra
