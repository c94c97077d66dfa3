import Mathlib.Data.List.TakeWhile
import Vajra.DecimalNumerals
import Vajra.KernelSteps
import Vajra.ShellLine

/-!
# The commands of the shell that name a slot (`core/main.c`, `actor_shell`)

`shellSplit` cuts the line into the command and its argument, both NUL-terminated, and
`shellCommand` is the chain of tests of `actor_shell`.  `stop` and `kill` read their argument
with `shellParseInt` and pass the slot on to `SYS_SEND` and `SYS_TERMINATE`.

`shellParseInt` stops at the first byte that is not a digit and has no way to say so: it reads
the number that the leading digits spell, and its `int` overflows from 2 ^ 31 on
(`shellParseInt_eq`).
-/

namespace Vajra

open DecimalNumerals

/-- The value of an `int` expression, unless it overflows. -/
def intValue (x : Int) : Option Int := if -2 ^ 31 ≤ x ∧ x < 2 ^ 31 then some x else none

/-- The byte is a decimal digit. -/
def IsDigit (c : UInt8) : Prop := 0x30 ≤ c ∧ c ≤ 0x39

instance (c : UInt8) : Decidable (IsDigit c) := inferInstanceAs (Decidable (_ ∧ _))

/-- The loop of `shell_parse_int` over the bytes before the NUL, from `v` on. -/
def parseIntFrom (v : Int) : List UInt8 → Option Int
  | [] => some v
  | c :: s =>
      if IsDigit c then do
        let shifted ← intValue (v * 10)
        let v ← intValue (shifted + (c.toNat - 0x30))
        parseIntFrom v s
      else some v

/-- `shell_parse_int`: `none` if the accumulation overflows. -/
def shellParseInt (s : List UInt8) : Option Int := parseIntFrom 0 s

/-- `shell_split`: the command and the argument. -/
def shellSplit (line : List UInt8) : List UInt8 × List UInt8 :=
  let line := line.dropWhile (· = 0x20)
  let cmd := (line.takeWhile fun c => c ≠ 0 ∧ c ≠ 0x20).take (shellLineMax - 1)
  let line := (line.drop cmd.length).dropWhile (· = 0x20)
  (cmd, (line.takeWhile (· ≠ 0)).take (shellLineMax - 1))

/-- The comparisons of `shell_cmd_is`, with what is left of the command. -/
def cmdMatches (cmd : List UInt8) : List UInt8 → Bool
  | [] => cmd.headD 0 = 0
  | c :: chars =>
      if cmd.headD 0 ≠ c then false
      else if c = 0 then true
      else cmdMatches cmd.tail chars

/-- `shell_cmd_is`. -/
def shellCmdIs (cmd : List UInt8) (c0 c1 c2 c3 c4 c5 : UInt8) : Bool :=
  cmdMatches cmd [c0, c1, c2, c3, c4, c5]

/-- The branches of `actor_shell`. -/
inductive ShellCommand where
  | empty
  | help
  | clear
  | echo
  | date
  | ls
  | run
  | count
  | pipe
  | jobs
  | stop
  | kill
  | exit
  | unknown
  deriving DecidableEq

/-- The tests of `actor_shell` on the command. -/
def shellCommand (cmd : List UInt8) : ShellCommand :=
  if cmd.headD 0 = 0 then .empty
  else if shellCmdIs cmd 0x68 0x65 0x6C 0x70 0 0 then .help
  else if shellCmdIs cmd 0x63 0x6C 0x65 0x61 0x72 0 then .clear
  else if shellCmdIs cmd 0x65 0x63 0x68 0x6F 0 0 then .echo
  else if shellCmdIs cmd 0x64 0x61 0x74 0x65 0 0 then .date
  else if shellCmdIs cmd 0x6C 0x73 0 0 0 0 then .ls
  else if shellCmdIs cmd 0x72 0x75 0x6E 0 0 0 then .run
  else if shellCmdIs cmd 0x63 0x6F 0x75 0x6E 0x74 0 then .count
  else if shellCmdIs cmd 0x70 0x69 0x70 0x65 0 0 then .pipe
  else if shellCmdIs cmd 0x6A 0x6F 0x62 0x73 0 0 then .jobs
  else if shellCmdIs cmd 0x73 0x74 0x6F 0x70 0 0 then .stop
  else if shellCmdIs cmd 0x6B 0x69 0x6C 0x6C 0 0 then .kill
  else if shellCmdIs cmd 0x65 0x78 0x69 0x74 0 0 then .exit
  else .unknown

def msgPleaseStop : Word := 22

/-- `user_send` and `user_terminate`: the call they make. -/
def userSend (dest : Int) (type data : Word) (residue : Nat → UInt8) : Call :=
  ⟨4, cRet dest, type, data, residue⟩

def userTerminate (target : Int) (residue : Nat → UInt8) : Call :=
  ⟨8, cRet target, 0, 0, residue⟩

/-- The call of the branches for `stop` and `kill`, with the slot they have read. -/
def slotCall (slot : Int) (residue : Nat → UInt8) : ShellCommand → Option Call
  | .stop => some (userSend slot msgPleaseStop 0 residue)
  | .kill => some (userTerminate slot residue)
  | _ => none

/-- The command of the line, and the text of its argument. -/
def lineCommand (line : List UInt8) : ShellCommand := shellCommand (shellSplit line).1
def lineArgument (line : List UInt8) : List UInt8 := (shellSplit line).2

/-- The line is a `stop` or a `kill`. -/
def NamesSlot (line : List UInt8) : Prop := lineCommand line = .stop ∨ lineCommand line = .kill

/-- The line is a `stop` or a `kill` that makes this call. -/
def Issues (line : List UInt8) (call : Call) : Prop :=
  ∃ slot, shellParseInt (lineArgument line) = some slot ∧
    slotCall slot call.residue (lineCommand line) = some call

/-- A number as text. -/
def decimalText (n : Nat) : List UInt8 := (numeral n).map fun d => UInt8.ofNat (0x30 + d)

/-- `stop` and `kill` act only on the slot that is typed. -/
structure ActsAsTyped (line : List UInt8) : Prop where
  noOverflow : NamesSlot line → shellParseInt (lineArgument line) ≠ none
  typed : ∀ call, Issues line call →
    ∃ n : Nat, cInt call.a1 = n ∧ lineArgument line = decimalText n
  /-- An argument that is not the number of a slot has no effect on any actor, or on anything
  else in the kernel. -/
  refused : (∀ s : Slot, lineArgument line ≠ decimalText s) → ∀ call, Issues line call →
    ∀ (D : Type) (L : Layout) (hal : Hal D) (k : Kernel D) (c : Slot),
      (syscallHandler L hal k c call).kernel = k

/-! ### What is read -/

/-- The digits before the first byte that is not one. -/
def leadingDigits (s : List UInt8) : List Nat :=
  (s.takeWhile fun c => IsDigit c).map fun c => c.toNat - 0x30

theorem IsDigit.toNat_bounds {c : UInt8} (hc : IsDigit c) : 0x30 ≤ c.toNat ∧ c.toNat ≤ 0x39 :=
  ⟨UInt8.le_iff_toNat_le.mp hc.1, UInt8.le_iff_toNat_le.mp hc.2⟩

/-- One turn of the loop. -/
theorem accumulate_digit {c : UInt8} (hc : IsDigit c) (v : Nat) :
    ((intValue ((v : Int) * 10)).bind fun shifted => intValue (shifted + (c.toNat - 0x30))) =
      (push (2 ^ 31) v (c.toNat - 0x30)).map Nat.cast := by
  have hbounds := hc.toNat_bounds
  unfold push intValue
  by_cases hsmall : v * 10 + (c.toNat - 0x30) < 2 ^ 31
  · rw [if_pos hsmall, if_pos (by omega), Option.bind_some, if_pos (by omega), Option.map_some]
    congr 1
    omega
  · rw [if_neg hsmall, Option.map_none]
    by_cases hshift : -2 ^ 31 ≤ (v : Int) * 10 ∧ (v : Int) * 10 < 2 ^ 31
    · rw [if_pos hshift, Option.bind_some, if_neg (by omega)]
    · rw [if_neg hshift, Option.bind_none]

theorem parseIntFrom_eq (v : Nat) (s : List UInt8) :
    parseIntFrom v s = ((leadingDigits s).foldlM (push (2 ^ 31)) v).map Nat.cast := by
  induction s generalizing v with
  | nil => rfl
  | cons c s ih =>
      unfold parseIntFrom
      by_cases hc : IsDigit c
      · have hdigits : leadingDigits (c :: s) = (c.toNat - 0x30) :: leadingDigits s := by
          simp [leadingDigits, hc]
        have hstep := accumulate_digit hc v
        rw [if_pos hc, hdigits, List.foldlM_cons]
        change ((intValue ((v : Int) * 10)).bind fun shifted =>
          (intValue (shifted + (c.toNat - 0x30))).bind fun v => parseIntFrom v s) = _
        rw [← Option.bind_assoc, hstep]
        cases push (2 ^ 31) v (c.toNat - 0x30) with
        | none => rfl
        | some v' => exact ih v'
      · have hdigits : leadingDigits (c :: s) = [] := by simp [leadingDigits, hc]
        rw [if_neg hc, hdigits]
        rfl

/-- **What `shell_parse_int` reads**: the number of the leading digits, unless it overflows. -/
theorem shellParseInt_eq (s : List UInt8) :
    shellParseInt s =
      if value (leadingDigits s) < 2 ^ 31 then some (value (leadingDigits s) : Int) else none := by
  have hparse := parseIntFrom_eq 0 s
  rw [foldlM_push (by norm_num)] at hparse
  rw [shellParseInt]
  refine hparse.trans ?_
  split
  · rfl
  · rfl

theorem digitByte {d : Nat} (hd : d < 10) :
    IsDigit (UInt8.ofNat (0x30 + d)) ∧ (UInt8.ofNat (0x30 + d)).toNat - 0x30 = d := by
  have hbyte : (UInt8.ofNat (0x30 + d)).toNat = 0x30 + d := by
    rw [UInt8.toNat_ofNat']
    omega
  refine ⟨⟨?_, ?_⟩, ?_⟩
  · rw [UInt8.le_iff_toNat_le, hbyte]
    simp
  · rw [UInt8.le_iff_toNat_le, hbyte]
    simp
    omega
  · omega

theorem leadingDigits_decimalText (n : Nat) : leadingDigits (decimalText n) = numeral n := by
  have hall : ∀ c ∈ decimalText n, IsDigit c := by
    intro c hc
    obtain ⟨d, hd, rfl⟩ := List.mem_map.mp hc
    exact (digitByte (numeral_lt_ten hd)).1
  have htake : (decimalText n).takeWhile (fun c => IsDigit c) = decimalText n := by
    rw [List.takeWhile_eq_self_iff]
    simpa using hall
  rw [leadingDigits, htake, decimalText, List.map_map]
  refine (List.map_congr_left fun d hd => ?_).trans (List.map_id _)
  exact (digitByte (numeral_lt_ten hd)).2

/-! ### Which branch is taken -/

theorem shellSplit_command (line : List UInt8) : 0 ∉ (shellSplit line).1 := fun hzero => by
  have hmem := List.mem_takeWhile_imp (List.mem_of_mem_take hzero)
  simp at hmem

/-- A name of fewer than six characters is compared whole. -/
theorem cmdMatches_iff (name pad : List UInt8) (hname : 0 ∉ name) {cmd : List UInt8}
    (hcmd : 0 ∉ cmd) : cmdMatches cmd (name ++ 0 :: pad) = true ↔ cmd = name := by
  induction name generalizing cmd with
  | nil =>
      cases cmd with
      | nil => simp [cmdMatches]
      | cons c cmd =>
          have hc : c ≠ 0 := fun h => hcmd (h ▸ List.mem_cons_self)
          simp [cmdMatches, hc]
  | cons n name ih =>
      have hn : n ≠ 0 := fun h => hname (h ▸ List.mem_cons_self)
      have hrest : 0 ∉ name := fun h => hname (List.mem_cons_of_mem _ h)
      cases cmd with
      | nil => simp [cmdMatches, hn.symm]
      | cons c cmd =>
          have hcmd' : 0 ∉ cmd := fun h => hcmd (List.mem_cons_of_mem _ h)
          by_cases hc : c = n
          · simp [cmdMatches, hc, hn, ih hrest hcmd']
          · simp [cmdMatches, hc]

/-- A test of the chain that selects another branch has failed. -/
theorem test_failed {p : Prop} [Decidable p] {a b branch : ShellCommand}
    (h : (if p then a else b) = branch) (hother : a ≠ branch) : b = branch := by
  by_cases hp : p
  · rw [if_pos hp] at h
    exact absurd h hother
  · rw [if_neg hp] at h
    exact h

theorem shellCommand_eq_stop {cmd : List UInt8} (hcmd : 0 ∉ cmd) :
    shellCommand cmd = .stop ↔ cmd = [0x73, 0x74, 0x6F, 0x70] := by
  constructor
  · intro h
    unfold shellCommand at h
    -- the ten tests before the one for "stop", and the two after it
    iterate 10 replace h := test_failed h (by decide)
    by_contra hne
    have hmiss : ¬ shellCmdIs cmd 0x73 0x74 0x6F 0x70 0 0 = true := fun hmatch =>
      hne ((cmdMatches_iff [0x73, 0x74, 0x6F, 0x70] [0] (by decide) hcmd).mp hmatch)
    rw [if_neg hmiss] at h
    replace h := test_failed h (by decide)
    replace h := test_failed h (by decide)
    cases h
  · rintro rfl
    decide

theorem shellCommand_eq_kill {cmd : List UInt8} (hcmd : 0 ∉ cmd) :
    shellCommand cmd = .kill ↔ cmd = [0x6B, 0x69, 0x6C, 0x6C] := by
  constructor
  · intro h
    unfold shellCommand at h
    -- the eleven tests before the one for "kill", and the one after it
    iterate 11 replace h := test_failed h (by decide)
    by_contra hne
    have hmiss : ¬ shellCmdIs cmd 0x6B 0x69 0x6C 0x6C 0 0 = true := fun hmatch =>
      hne ((cmdMatches_iff [0x6B, 0x69, 0x6C, 0x6C] [0] (by decide) hcmd).mp hmatch)
    rw [if_neg hmiss] at h
    replace h := test_failed h (by decide)
    cases h
  · rintro rfl
    decide

/-! ### What is acted on -/

/-- Both calls have the slot in the first argument. -/
theorem slotCall_eq {slot : Int} {command : ShellCommand} {call : Call}
    (h : slotCall slot call.residue command = some call) :
    call.a1 = cRet slot ∧
      (Syscall.decode call.num = some .send ∨ Syscall.decode call.num = some .terminate) := by
  cases command with
  | stop =>
      rw [slotCall, Option.some_inj] at h
      have hdecode : Syscall.decode 4 = some .send := by decide
      rw [← h]
      exact ⟨rfl, Or.inl hdecode⟩
  | kill =>
      rw [slotCall, Option.some_inj] at h
      have hdecode : Syscall.decode 8 = some .terminate := by decide
      rw [← h]
      exact ⟨rfl, Or.inr hdecode⟩
  | _ => simp [slotCall] at h

/-- A line that names a slot makes a call. -/
theorem issues_of_parsed {line : List UInt8} {slot : Int} (hline : NamesSlot line)
    (hslot : shellParseInt (lineArgument line) = some slot) :
    ∃ call, Issues line call ∧ call.a1 = cRet slot := by
  rcases hline with hstop | hkill
  · exact ⟨userSend slot msgPleaseStop 0 fun _ => 0, ⟨slot, hslot, by rw [hstop]; rfl⟩, rfl⟩
  · exact ⟨userTerminate slot fun _ => 0, ⟨slot, hslot, by rw [hkill]; rfl⟩, rfl⟩

theorem Issues.namesSlot {line : List UInt8} {call : Call} (h : Issues line call) :
    NamesSlot line := by
  obtain ⟨slot, -, hcall⟩ := h
  unfold NamesSlot
  cases hcommand : lineCommand line with
  | stop => exact Or.inl rfl
  | kill => exact Or.inr rfl
  | _ => simp [hcommand, slotCall] at hcall

/-- The kernel refuses a number that is not a slot. -/
theorem slotCall_out_of_range {D : Type} (L : Layout) (hal : Hal D) (k : Kernel D) (c : Slot)
    {call : Call} (hslot : slotOf (cInt call.a1) = none)
    (hcall : Syscall.decode call.num = some .send ∨ Syscall.decode call.num = some .terminate) :
    (syscallHandler L hal k c call).kernel = k := by
  rcases hcall with hsend | hterminate
  · simp [syscallHandler, hsend, syscallDispatch, actorSend, hslot, SysResult.value]
  · simp [syscallHandler, hterminate, syscallDispatch, actorTerminate, hslot, SysResult.value]

/-- A number typed in decimal is read as it is typed. -/
theorem shellParseInt_decimalText {n : Nat} (hn : n < 2 ^ 31) :
    shellParseInt (decimalText n) = some (n : Int) := by
  rw [shellParseInt_eq, leadingDigits_decimalText, value_numeral, if_pos hn]

theorem actsAsTyped_of_decimalText {line : List UInt8} {n : Nat} (hn : n < 2 ^ 31)
    (harg : lineArgument line = decimalText n) : ActsAsTyped line := by
  have hparse : shellParseInt (lineArgument line) = some (n : Int) := by
    rw [harg, shellParseInt_decimalText hn]
  have hregister : ∀ call, Issues line call → cInt call.a1 = n := by
    rintro call ⟨slot, hslot, hcall⟩
    rw [hparse, Option.some_inj] at hslot
    rw [(slotCall_eq hcall).1, ← hslot, cInt_cRet (by omega) (by omega)]
  refine ⟨fun _ => by rw [hparse]; simp, fun call hcall => ⟨n, hregister call hcall, harg⟩, ?_⟩
  intro hnone call hcall D L hal k c
  obtain ⟨slot, -, hslotCall⟩ := id hcall
  refine slotCall_out_of_range L hal k c ?_ (slotCall_eq hslotCall).2
  rw [hregister call hcall]
  -- the number is not the one of a slot, since no slot's number is spelled like it
  cases hslot : slotOf (n : Int) with
  | none => rfl
  | some s =>
      have hval : n = (s : Nat) := by exact_mod_cast slotOf_eq_some.mp hslot
      exact absurd (hval ▸ harg) (hnone s)

theorem actsAsTyped_of_other {line : List UInt8} (hline : ¬ NamesSlot line) : ActsAsTyped line :=
  ⟨fun h => absurd h hline, fun _ h => absurd h.namesSlot hline,
    fun _ _ h => absurd h.namesSlot hline⟩

/-- **What `stop` and `kill` act on.** -/
theorem stop_kill_act_as_typed_iff (line : List UInt8) :
    ActsAsTyped line ↔
      ((shellSplit line).1 ≠ asciiBytes "stop" ∧ (shellSplit line).1 ≠ asciiBytes "kill") ∨
        ∃ n < 2 ^ 31, (shellSplit line).2 = decimalText n := by
  have hstop : asciiBytes "stop" = [0x73, 0x74, 0x6F, 0x70] := by decide +kernel
  have hkill : asciiBytes "kill" = [0x6B, 0x69, 0x6C, 0x6C] := by decide +kernel
  have hnames : NamesSlot line ↔
      (shellSplit line).1 = asciiBytes "stop" ∨ (shellSplit line).1 = asciiBytes "kill" := by
    rw [hstop, hkill, ← shellCommand_eq_stop (shellSplit_command line),
      ← shellCommand_eq_kill (shellSplit_command line)]
    rfl
  rw [← not_or, ← hnames]
  constructor
  · intro h
    by_cases hline : NamesSlot line
    · right
      cases hparse : shellParseInt (lineArgument line) with
      | none => exact absurd hparse (h.noOverflow hline)
      | some slot =>
          obtain ⟨call, hissues, hregister⟩ := issues_of_parsed hline hparse
          obtain ⟨n, hn, harg⟩ := h.typed call hissues
          rw [shellParseInt_eq] at hparse
          split at hparse
          · rename_i hvalue
            rw [Option.some_inj] at hparse
            rw [hregister, ← hparse, cInt_cRet (by omega) (by omega)] at hn
            exact ⟨n, by omega, harg⟩
          · cases hparse
    · exact Or.inl hline
  · rintro (hline | ⟨n, hn, harg⟩)
    · exact actsAsTyped_of_other hline
    · exact actsAsTyped_of_decimalText hn harg

/-- `kill 3x` terminates actor 3. -/
theorem kill_with_trailing_garbage : ¬ ActsAsTyped (asciiBytes "kill 3x") := by
  intro h
  have hcommand : lineCommand (asciiBytes "kill 3x") = .kill := by decide +kernel
  have hissues : Issues (asciiBytes "kill 3x") (userTerminate 3 fun _ => 0) :=
    ⟨3, by decide +kernel, by rw [hcommand]; rfl⟩
  obtain ⟨n, -, harg⟩ := h.typed _ hissues
  have hlast : (0x78 : UInt8) ∈ decimalText n := by
    rw [← harg]
    decide +kernel
  obtain ⟨d, hd, hbyte⟩ := List.mem_map.mp hlast
  have hdigit := (digitByte (numeral_lt_ten hd)).1
  rw [hbyte] at hdigit
  exact absurd hdigit (by decide)

end Vajra
