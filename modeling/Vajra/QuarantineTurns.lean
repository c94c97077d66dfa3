import Vajra.QuarantineObjects

/-!
# The invariant of the quarantine pipeline

The history of a verdict is a chain of four steps, with nothing in between that would break it:
Scanner spawns an Inspector for an object (`SpawnedFor`), the Inspector reads it (`ReadBy`) and
reports to Scanner (`ReportedBy`), and Scanner takes the report for a verdict (`Judged`).

What holds in between depends on where Scanner is (`ScannerOk`).  While it works on object `i`,
Downloader waits for its acknowledgement, or has nothing left to say; every Inspector but
Scanner's present one has finished; and the present one answers Scanner only if it was Scanner
that gave it the task.  So Scanner's mailbox holds at most the message it is waiting for.
A report in Reader's mailbox is about an object that nobody will write or grade again
(`Settled`).

Downloader, Scanner and the Inspectors need not be alive.  A slot that has been turned over
counts as one whose Downloader has finished.
-/

namespace Vajra

open EntryTables TransitionTrace

variable {D : Type} {L : Layout} {hal : Hal D} {b : Boot D}

/-- How far Downloader is. -/
def DownloaderPc.stage : DownloaderPc → Nat
  | .writingPayload => 0
  | .signallingPayload => 1
  | .awaitingAck => 2
  | .writingSuspicious => 3
  | .signallingSuspicious => 4
  | .exiting => 5

def Program.stage : Program → Nat
  | .downloader pc => pc.stage
  | _ => 5

/-- The stage of the Downloader that `kernel_main` has started. -/
def PipelineState.stage (s : PipelineState D) : Nat := (s.program downloaderHome).stage

/-- The messages that wait in a mailbox. -/
def PipelineState.mail (s : PipelineState D) (d : Slot) : List Message := (s.kernel.actors d).queue

/-- The occupant of a slot that has been turned over is of this kind, or else it is none of the
pipeline's. -/
def Role.child : Role → Bool
  | .other | .inspector => true
  | _ => false

/-- The number of objects that Scanner will not grade any more. -/
def ScannerPc.graded : ScannerPc → Nat
  | .receiving i | .spawning i _ | .granting i _ _ | .tasking i _ _ | .judging i _ _ => i
  | .rejecting i _ | .promoting i _ _ => i
  | .reporting i _ | .acking i _ => i + 1
  | .exiting => 2

/-- The trust that a verdict leads to. -/
def gradeOf (verdict : Word) : Nat := if verdict = msgCheckFail then objRejected else objTrusted

section Histories

/-- Object `id` is written. -/
def WritesObject (id : Int) (t : PipelineRecord D) : Prop :=
  ∃ c call, t.pre.kernel.current = some c ∧ IsCall t.event .objectWrite call ∧
    cInt call.a1 = id ∧ ⟨capWriteObject, id⟩ ∈ t.pre.kernel.tables c

/-- Slot `w` gets a new occupant. -/
def TurnsOver (L : Layout) (w : Slot) (t : PipelineRecord D) : Prop :=
  spawnedInto L (kernelRecord t) = some w

/-- Scanner spawns an Inspector for object `id` into slot `w`. -/
def SpawnsInspector (id : Int) (w : Slot) (t : PipelineRecord D) : Prop :=
  ∃ c i ret, t.pre.kernel.current = some c ∧ t.pre.program c = .scanner (.spawning i id) ∧
    Made t .spawn ∧ t.outcome.ret = some ret ∧ cInt ret = (w : Nat)

/-- The occupant of slot `w` reads `bytes` of object `id`. -/
def ReadsObject (id : Int) (w : Slot) (bytes : List UInt8) (t : PipelineRecord D) : Prop :=
  t.pre.kernel.current = some w ∧ bytes = t.outcome.out.map Prod.snd ∧
    ∃ call ret, IsCall t.event .objectRead call ∧ cInt call.a1 = id ∧
      t.outcome.ret = some ret ∧ 0 ≤ cInt ret

/-- Slot `c` runs Scanner, which waits for a verdict on object `id` and is handed message `m`. -/
def TakesVerdict (id : Int) (w : Slot) (m : Message) (t : PipelineRecord D) : Prop :=
  ∃ c i, t.pre.kernel.current = some c ∧ t.pre.program c = .scanner (.judging i id (w : Nat)) ∧
    t.outcome.msg = some m

/-- The occupant of slot `w` is the Inspector that Scanner spawned for object `id`. -/
def SpawnedFor (L : Layout) (id : Int) (w : Slot) : List (PipelineRecord D) → Prop :=
  Since (fun t _ => SpawnsInspector id w t) fun t => ¬ TurnsOver L w t

/-- It has read `bytes` of the object, which has not been written since. -/
def ReadBy (L : Layout) (id : Int) (w : Slot) (bytes : List UInt8) :
    List (PipelineRecord D) → Prop :=
  Since (fun t tr => SpawnedFor L id w tr ∧ ReadsObject id w bytes t)
    fun t => ¬ TurnsOver L w t ∧ ¬ WritesObject id t

/-- It has sent Scanner its verdict on what it read, and the object has not been written since. -/
def ReportedBy (L : Layout) (id : Int) (w : Slot) (verdict : Word) :
    List (PipelineRecord D) → Prop :=
  Since (fun t tr => (∃ bytes, ReadBy L id w bytes tr ∧ verdict = verdictOn bytes) ∧ ¬ WritesObject id t ∧
      acceptedBy (kernelRecord t) scannerHome = some ⟨verdict, BitVec.ofNat 64 w, cRet id⟩)
    fun t => ¬ WritesObject id t

/-- Scanner has taken this for the verdict, and the object has not been written since. -/
def Judged (L : Layout) (id : Int) (w : Slot) (verdict : Word) : List (PipelineRecord D) → Prop :=
  Since (fun t tr => ReportedBy L id w verdict tr ∧ ¬ WritesObject id t ∧
      TakesVerdict id w ⟨verdict, BitVec.ofNat 64 w, cRet id⟩ t)
    fun t => ¬ WritesObject id t

end Histories

section Invariant

variable (L : Layout) (tr : List (PipelineRecord D)) (s : PipelineState D)

/-- Scanner waits for the signal for object `i`. -/
structure Awaiting (i : Nat) : Prop where
  turn : i < 2
  early : 3 * i ≤ s.stage + 1
  late : s.stage ≤ 3 * i + 2 ∨ s.stage = 5
  silent : i = 0 → (s.program downloaderHome).role = .downloader → s.mail downloaderHome = []
  written : s.stage = 3 * i + 1 → s.kernel.trust i = objUntrusted
  signal : s.mail scannerHome = [] ∨
    s.mail scannerHome = [⟨msgDownloadDone, BitVec.ofNat 64 downloaderHome, cRet i⟩] ∧
      (s.stage = 3 * i + 2 ∨ s.stage = 5) ∧ s.kernel.trust i = objUntrusted

/-- Scanner works on object `id`, the `i`-th. -/
structure Scanning (i : Nat) (id : Int) : Prop where
  turn : i < 2
  object : id = i
  waits : s.stage = 3 * i + 2 ∨ s.stage = 5
  silent : i = 0 → (s.program downloaderHome).role = .downloader → s.mail downloaderHome = []

/-- Every Inspector but the one in slot `w` has finished. -/
def Spent (w : Option Slot) : Prop :=
  ∀ d pc, s.kernel.Live d → s.program d = .inspector pc → w = some d ∨ pc = .exiting

/-- Where the Inspector of object `id` can be, given whether it has its task from Scanner. -/
def InspectorOk (id : Int) (d : Slot) (tasked : Bool) : InspectorPc → Prop
  | .receiving => ∀ m ∈ s.mail d, cInt m.sender = scannerSlot → tasked = true ∧ m.data = cRet id
  | .reading id' sender => cInt sender = scannerSlot → tasked = true ∧ id' = id
  | .sending id' sender verdict => cInt sender = scannerSlot → tasked = true ∧ id' = id ∧
      ∃ bytes, ReadBy L id d bytes tr ∧ verdict = verdictOn bytes
  | .exiting => True

/-- The Inspector in slot `d`, if it is still there, is Scanner's present one. -/
structure Serving (id : Int) (d : Slot) (granted tasked : Bool) : Prop where
  child : (s.program d).role.child = true
  place : ∀ pc, s.kernel.Live d → s.program d = .inspector pc →
    InspectorOk L tr s id d tasked pc
  spawned : ∀ pc, s.kernel.Live d → s.program d = .inspector pc → SpawnedFor L id d tr
  reads : ∀ pc, s.kernel.Live d → s.program d = .inspector pc → granted = true →
    ⟨capReadObject, id⟩ ∈ s.kernel.tables d

/-- What holds while Scanner is at this place. -/
def ScannerOk : ScannerPc → Prop
  | .receiving i => Awaiting s i ∧ Spent s none
  | .spawning i id => Scanning s i id ∧ s.mail scannerHome = [] ∧
      s.kernel.trust i = objUntrusted ∧ Spent s none
  | .granting i id w => Scanning s i id ∧ s.mail scannerHome = [] ∧
      s.kernel.trust i = objUntrusted ∧
      ∃ d : Slot, w = (d : Nat) ∧ Spent s (some d) ∧ Serving L tr s id d false false
  | .tasking i id w => Scanning s i id ∧ s.mail scannerHome = [] ∧
      s.kernel.trust i = objUntrusted ∧
      ∃ d : Slot, w = (d : Nat) ∧ Spent s (some d) ∧ Serving L tr s id d true false
  | .judging i id w => Scanning s i id ∧ s.kernel.trust i = objUntrusted ∧
      ∃ d : Slot, w = (d : Nat) ∧
        ((s.mail scannerHome = [] ∧ Spent s (some d) ∧ Serving L tr s id d true true) ∨
          ∃ verdict, s.mail scannerHome = [⟨verdict, BitVec.ofNat 64 d, cRet id⟩] ∧
            ReportedBy L id d verdict tr ∧ Spent s none)
  | .rejecting i id => Scanning s i id ∧ s.mail scannerHome = [] ∧
      s.kernel.trust i = objUntrusted ∧ Spent s none ∧ ∃ d, Judged L id d msgCheckFail tr
  | .promoting i id j => Scanning s i id ∧ s.mail scannerHome = [] ∧ j < 3 ∧
      s.kernel.trust i = j ∧ Spent s none ∧ ∃ d, Judged L id d msgCheckPass tr
  | .reporting i id => Scanning s i id ∧ s.mail scannerHome = [] ∧ Spent s none ∧
      ∃ d verdict, Judged L id d verdict tr ∧ s.kernel.trust i = gradeOf verdict
  | .acking i id => Scanning s i id ∧ s.mail scannerHome = [] ∧ Spent s none
  | .exiting => True

/-- Object `j` has its grade for good. -/
structure Settled (j : Nat) : Prop where
  object : j < 2
  written : 3 * j < s.stage
  graded : ∀ pc, s.program scannerHome = .scanner pc → j < pc.graded
  verdict : ∃ d verdict, Judged L j d verdict tr ∧ s.kernel.trust j = gradeOf verdict

/-- The invariant. -/
structure Pipeline : Prop where
  turn : ∀ pc, s.program scannerHome = .scanner pc → ScannerOk L tr s pc
  reports : (s.program readerHome).role = .reader → ∀ m ∈ s.mail readerHome,
    ∃ j : Nat, m.data = cRet j ∧ Settled L tr s j

end Invariant

end Vajra
