import Vajra.BootObjects
import Vajra.MailboxFifo

/-!
# The actors of the quarantine pipeline (`core/main.c`)

Downloader writes an object and signals Scanner, Scanner hands it to an Inspector it spawns
for it and grades it by the verdict, and Reader is told the object's id when that is done.
The four bodies are straight-line code between system calls, so each is the place its
occupant has reached (`Program`): the call it makes there (`Request`) and where the answer
takes it.

`pipelineStep` is `step` with the slots of the pipeline bound to their bodies.  The other
actors of `kernel_main` make any calls at all, in particular those of their own bodies, and
so do the actors they spawn; only `SYS_GRANT` is kept to the two places that call it, the one
delegation of `actor_mailbox_sender` and the one of the shell's `pipe` after its two spawns.
Console output may come in anywhere.
-/

namespace Vajra

open TransitionTrace

def msgDownloadDone : Word := 1
def msgScanDone : Word := 2
def taskInspect : Word := 3
def msgCheckPass : Word := 4
def msgCheckFail : Word := 5

/-- A system call of an actor's body, with the arguments that are not pointers. -/
inductive Request where
  | receive
  | send (dest : Int) (type data : Word)
  | grant (dest op target : Int)
  | spawn
  | objectRead (id : Int) (len : Nat)
  | objectWrite (id : Int) (len : Nat)
  | objectPromote (id : Int)
  | objectReject (id : Int)
  | exit
  deriving DecidableEq

@[simp] def Request.syscall : Request → Syscall
  | .receive => .receive
  | .send .. => .send
  | .grant .. => .grant
  | .spawn => .spawn
  | .objectRead .. => .objectRead
  | .objectWrite .. => .objectWrite
  | .objectPromote _ => .objectPromote
  | .objectReject _ => .objectReject
  | .exit => .exit

/-- The registers hold the arguments, as far as the kernel looks at them. -/
def Request.Passes (call : Call) : Request → Prop
  | .receive | .spawn | .exit => True
  | .send dest type data => cInt call.a1 = dest ∧ call.a2 = type ∧ call.a3 = data
  | .grant dest op target => cInt call.a1 = dest ∧ cInt call.a2 = op ∧ cInt call.a3 = target
  | .objectRead id len | .objectWrite id len => cInt call.a1 = id ∧ cUint call.a3 = len
  | .objectPromote id | .objectReject id => cInt call.a1 = id

instance (call : Call) : (r : Request) → Decidable (r.Passes call)
  | .receive | .spawn | .exit => inferInstanceAs (Decidable True)
  | .send .. | .grant .. => inferInstanceAs (Decidable (_ ∧ _ ∧ _))
  | .objectRead .. | .objectWrite .. => inferInstanceAs (Decidable (_ ∧ _))
  | .objectPromote _ | .objectReject _ => inferInstanceAs (Decidable (_ = _))

/-- `actor_downloader`. -/
inductive DownloaderPc where
  | writingPayload
  | signallingPayload
  | awaitingAck
  | writingSuspicious
  | signallingSuspicious
  | exiting
  deriving DecidableEq

@[simp] def DownloaderPc.request : DownloaderPc → Request
  | .writingPayload => .objectWrite payloadObjectId 17
  | .signallingPayload => .send scannerSlot msgDownloadDone (cRet payloadObjectId)
  | .awaitingAck => .receive
  | .writingSuspicious => .objectWrite suspiciousObjectId 16
  | .signallingSuspicious => .send scannerSlot msgDownloadDone (cRet suspiciousObjectId)
  | .exiting => .exit

def DownloaderPc.answer : DownloaderPc → DownloaderPc
  | .writingPayload => .signallingPayload
  | .signallingPayload => .awaitingAck
  | .awaitingAck => .writingSuspicious
  | .writingSuspicious => .signallingSuspicious
  | .signallingSuspicious => .exiting
  | .exiting => .exiting

/-- The loop of `actor_inspector` over its buffer: `"BAD"` stands before the first NUL. -/
def marked : List UInt8 → Bool
  | a :: b :: c :: rest =>
      if a = 0 ∨ b = 0 ∨ c = 0 then false
      else if a = 0x42 ∧ b = 0x41 ∧ c = 0x44 then true
      else marked (b :: c :: rest)
  | _ => false

/-- The verdict of `actor_inspector` on the bytes it read. -/
def verdictOn (bytes : List UInt8) : Word :=
  if marked bytes then msgCheckFail else msgCheckPass

/-- `actor_inspector`: `id` and `sender` are of the task, `verdict` is what it will say. -/
inductive InspectorPc where
  | receiving
  | reading (id : Int) (sender : Word)
  | sending (id : Int) (sender : Word) (verdict : Word)
  | exiting
  deriving DecidableEq

@[simp] def InspectorPc.request : InspectorPc → Request
  | .receiving => .receive
  | .reading id _ => .objectRead id 31
  | .sending id sender verdict => .send (cInt sender) verdict (cRet id)
  | .exiting => .exit

/-- A read that fails leaves an empty string in the buffer, and no bytes in `o.out`. -/
def InspectorPc.answer (o : Outcome) : InspectorPc → InspectorPc
  | .receiving =>
      match o.msg with
      | some task => .reading (cInt task.data) task.sender
      | none => .receiving
  | .reading id sender => .sending id sender (verdictOn (o.out.map Prod.snd))
  | .sending _ _ _ => .exiting
  | .exiting => .exiting

/-- `actor_scanner` in the `i`-th turn of its loop; from `spawning` on it is in
`actor_scan_object(id)`, with `w` its Inspector's slot and `j` the promotions made. -/
inductive ScannerPc where
  | receiving (i : Nat)
  | spawning (i : Nat) (id : Int)
  | granting (i : Nat) (id w : Int)
  | tasking (i : Nat) (id w : Int)
  | judging (i : Nat) (id w : Int)
  | rejecting (i : Nat) (id : Int)
  | promoting (i : Nat) (id : Int) (j : Nat)
  | reporting (i : Nat) (id : Int)
  | acking (i : Nat) (id : Int)
  | exiting
  deriving DecidableEq

@[simp] def ScannerPc.request : ScannerPc → Request
  | .receiving _ => .receive
  | .spawning _ _ => .spawn
  | .granting _ id w => .grant w capReadObject id
  | .tasking _ id w => .send w taskInspect (cRet id)
  | .judging _ _ _ => .receive
  | .rejecting _ id => .objectReject id
  | .promoting _ id _ => .objectPromote id
  | .reporting _ id => .send readerSlot msgScanDone (cRet id)
  | .acking _ id => .send downloaderSlot msgScanDone (cRet id)
  | .exiting => .exit

/-- The end of the `i`-th turn. -/
def ScannerPc.turn (i : Nat) : ScannerPc := if i + 1 < 2 then .receiving (i + 1) else .exiting

def ScannerPc.answer (o : Outcome) (ret : Word) : ScannerPc → ScannerPc
  | .receiving i =>
      match o.msg with
      | some m => .spawning i (cInt m.data)
      | none => .receiving i
  | .spawning i id => if cInt ret < 0 then .turn i else .granting i id (cInt ret)
  | .granting i id w => .tasking i id w
  | .tasking i id w => .judging i id w
  | .judging i id w =>
      match o.msg with
      | some verdict =>
          if verdict.type = msgCheckFail then .rejecting i id else .promoting i id 0
      | none => .judging i id w
  | .rejecting i id => .reporting i id
  | .promoting i id j => if j + 1 < 3 then .promoting i id (j + 1) else .reporting i id
  | .reporting i id => .acking i id
  | .acking i _ => .turn i
  | .exiting => .exiting

/-- `actor_reader` in the `i`-th turn of its loop. -/
inductive ReaderPc where
  | receiving (i : Nat)
  | reading (i : Nat) (id : Int)
  | exiting
  deriving DecidableEq

def ReaderPc.request : ReaderPc → Request
  | .receiving _ => .receive
  | .reading _ id => .objectRead id 31
  | .exiting => .exit

def ReaderPc.answer (o : Outcome) : ReaderPc → ReaderPc
  | .receiving i =>
      match o.msg with
      | some m => .reading i (cInt m.data)
      | none => .receiving i
  | .reading i _ => if i + 1 < 2 then .receiving (i + 1) else .exiting
  | .exiting => .exiting

/-- What the occupant of a slot runs, and how far it is.  Of `actor_mailbox_sender` and of the
shell it says what they have before them of `SYS_GRANT`: the one delegates once, the other
after every two of the `spawned` actors at the most. -/
inductive Program where
  | other
  | sender
  | shell (spawned : Nat)
  | downloader (pc : DownloaderPc)
  | inspector (pc : InspectorPc)
  | scanner (pc : ScannerPc)
  | reader (pc : ReaderPc)
  deriving DecidableEq

/-- The next call of the body, if the body is one of the four. -/
def Program.request : Program → Option Request
  | .other | .sender | .shell _ => none
  | .downloader pc => some pc.request
  | .inspector pc => some pc.request
  | .scanner pc => some pc.request
  | .reader pc => some pc.request

variable {D : Type}

/-- The registers of a call hold the request. -/
def Request.Matches (r : Request) (call : Call) : Prop :=
  Syscall.decode call.num = some r.syscall ∧ r.Passes call

instance (r : Request) (call : Call) : Decidable (r.Matches call) :=
  inferInstanceAs (Decidable (_ ∧ _))

/-- Whether the body can come to a `SYS_GRANT` next, if it is not one of the four. -/
def Program.grants : Program → Bool
  | .sender => true
  | .shell spawned => 2 ≤ spawned
  | _ => false

/-- The body lets its actor do this: the calls are its own, or print. -/
def Program.Allows (p : Program) : Event D → Prop
  | .syscall call =>
      match p.request with
      | none => Syscall.decode call.num = some .grant → p.grants = true
      | some r => Syscall.decode call.num = some .write ∨ r.Matches call
  | _ => True

instance (p : Program) : (e : Event D) → Decidable (p.Allows e)
  | .syscall call =>
      match h : p.request with
      | none =>
          decidable_of_iff (Syscall.decode call.num = some .grant → p.grants = true)
            (by simp [Program.Allows, h])
      | some r =>
          decidable_of_iff (Syscall.decode call.num = some .write ∨ r.Matches call)
            (by simp [Program.Allows, h])
  | .tick | .resume | .store .. | .device .. | .fault => isTrue trivial

/-- The event is this system call. -/
def Event.calls (sys : Syscall) : Event D → Bool
  | .syscall call => Syscall.decode call.num = some sys
  | _ => false

/-- The next call has returned `ret`. -/
def Program.answer (e : Event D) (o : Outcome) (ret : Word) : Program → Program
  | .other => .other
  | .sender => if e.calls .grant then .other else .sender
  | .shell spawned =>
      if e.calls .grant then .shell (spawned - 2)
      else if e.calls .spawn ∧ 0 ≤ cInt ret then .shell (spawned + 1)
      else .shell spawned
  | .downloader pc => .downloader pc.answer
  | .inspector pc => .inspector (pc.answer o)
  | .scanner pc => .scanner (pc.answer o ret)
  | .reader pc => .reader (pc.answer o)

/-- The body goes on when its call returns; a call to receive may return at a later turn of
the loop in `actor_receive`. -/
def Program.after (p : Program) (e : Event D) (o : Outcome) : Program :=
  match o.ret with
  | none => p
  | some ret => if e.calls .write then p else p.answer e o ret

/-- What runs in the slot an actor spawns into: Scanner spawns `actor_inspector`. -/
def Program.child : Program → Program
  | .scanner _ => .inspector .receiving
  | _ => .other

/-- The machine together with what runs in its slots. -/
structure PipelineState (D : Type) where
  kernel : Kernel D
  program : Slot → Program

/-- What runs in the slots after an event of the current actor `c`. -/
def nextProgram (L : Layout) (s : PipelineState D) (c : Slot) (e : Event D) (o : Outcome) :
    Slot → Program :=
  let moved := Function.update s.program c ((s.program c).after e o)
  match takenSlot L s.kernel c e with
  | none => moved
  | some i => Function.update moved i (s.program c).child

/-- One event of the machine, if the body of the current actor allows it. -/
def pipelineStep (L : Layout) (hal : Hal D) (s : PipelineState D) (e : Event D) :
    Option (PipelineState D × Outcome) :=
  match s.kernel.current with
  | none => none
  | some c =>
      if (s.program c).Allows e then
        match step L hal s.kernel e with
        | none => none
        | some (k, o) => some (⟨k, nextProgram L s c e o⟩, o)
      else none

/-- What an actor of `kernel_main` runs. -/
def DemoActor.program : DemoActor → Program
  | .mailboxSender => .sender
  | .shell => .shell 0
  | .downloader => .downloader .writingPayload
  | .scanner => .scanner (.receiving 0)
  | .reader => .reader (.receiving 0)
  | _ => .other

/-- The spawns of `kernel_main` put the bodies in the slots they find. -/
def loadPrograms (L : Layout) (b : Boot D) :
    List DemoActor → Kernel D → (Slot → Program) → Slot → Program
  | [], _, program => program
  | a :: rest, k, program =>
      match actorSpawn L k (b.entryPoint a) with
      | (k, none) => loadPrograms L b rest k program
      | (k, some i) => loadPrograms L b rest k (Function.update program i a.program)

/-- The first state of the run. -/
def pipelineBoot (L : Layout) (b : Boot D) : PipelineState D where
  kernel := bootState L b
  program := loadPrograms L b demoActors (powerOn b) fun _ => .other

abbrev PipelineRecord (D : Type) := Transition (PipelineState D) (Event D) Outcome

/-- A run of `kernel_main`'s actors, the four of the pipeline as coded. -/
abbrev PipelineRun (L : Layout) (hal : Hal D) (b : Boot D) (tr : List (PipelineRecord D))
    (s : PipelineState D) : Prop :=
  Trace (pipelineStep L hal) (pipelineBoot L b) tr s

variable {L : Layout} {hal : Hal D} {b : Boot D}

/-- **Inversion of `pipelineStep`.** -/
theorem pipelineStep_cases {s s' : PipelineState D} {e : Event D} {o : Outcome}
    (h : pipelineStep L hal s e = some (s', o)) :
    ∃ c, s.kernel.current = some c ∧ (s.program c).Allows e ∧
      step L hal s.kernel e = some (s'.kernel, o) ∧ s'.program = nextProgram L s c e o := by
  unfold pipelineStep at h
  split at h
  · cases h
  rename_i c hcur
  split at h
  swap
  · cases h
  rename_i hallows
  split at h
  · cases h
  rename_i k o' hstep
  cases h
  exact ⟨c, hcur, hallows, hstep, rfl⟩

/-- The step of the machine in a step of the pipeline. -/
abbrev kernelRecord (t : PipelineRecord D) : Record D := t.map PipelineState.kernel

/-- A run of the pipeline is a run of the machine. -/
theorem PipelineRun.kernelRun {tr : List (PipelineRecord D)} {s : PipelineState D}
    (h : PipelineRun L hal b tr s) : Run L hal b (tr.map kernelRecord) s.kernel := by
  have hstep : ∀ s e o s', pipelineStep L hal s e = some (s', o) →
      step L hal s.kernel e = some (s'.kernel, o) := by
    intro s e o s' hstep
    obtain ⟨_, _, _, hkernel, _⟩ := pipelineStep_cases hstep
    exact hkernel
  have hboot : (pipelineBoot L b).kernel = bootState L b := by rw [pipelineBoot]
  rw [Run, ← hboot]
  exact Trace.map (f := PipelineState.kernel) hstep h

section Waiting

variable {k k' : Kernel D} {c s : Slot} {e : Event D} {o : Outcome} {out : Word}

theorem scheduleNext_receiving (h : ((scheduleNext k).actors s).context = .receiving out) :
    (k.actors s).context = .receiving out := by
  obtain ⟨page, st, ctx, heq, -, hctx⟩ := scheduleNext_actor k s
  rw [heq] at h
  rcases hctx with rfl | rfl
  · exact h
  · cases h

/-- A checked spawn leaves nobody waiting who was not. -/
theorem ChildSpawn.receiving {taken result : Option Slot} (h : ChildSpawn k c k' taken result)
    (hs : (k'.actors s).context = .receiving out) :
    taken ≠ some s ∧ (k.actors s).context = .receiving out := by
  cases h with
  | refused h =>
      rw [h] at hs
      exact ⟨by simp, hs⟩
  | aborted i cr3 page entry _ _ h =>
      rw [h] at hs
      by_cases hsi : s = i
      · subst hsi
        simp [freshActor] at hs
      · rw [Function.update_of_ne hsi] at hs
        exact ⟨by simp [Ne.symm hsi], hs⟩
  | spawned i cr3 page entry _ _ hchild hspawner hother =>
      by_cases hsi : s = i
      · subst hsi
        rw [hchild] at hs
        cases hs
      · refine ⟨by simp [Ne.symm hsi], ?_⟩
        by_cases hsc : s = c
        · subst hsc
          rwa [hspawner] at hs
        · rwa [hother s hsi hsc] at hs

/-- Rewriting a record without moving its owner leaves nobody waiting who was not. -/
theorem update_receiving {i : Slot} {a : Actor} (h : k'.actors = Function.update k.actors i a)
    (ha : a.context = (k.actors i).context) (hs : (k'.actors s).context = .receiving out) :
    (k.actors s).context = .receiving out := by
  rw [h] at hs
  by_cases hsi : s = i
  · subst hsi
    simpa [ha] using hs
  · simpa [hsi] using hs

/-- **Who waits in `actor_receive` after a step** waited there before or has just called it,
and is not the occupant a spawn has put there. -/
theorem Stepped.receiving (h : Stepped L hal k c e k' o) (hlive : k.Live c)
    (hs : (k'.actors s).context = .receiving out) :
    takenSlot L k c e ≠ some s ∧
      ((k.actors s).context = .receiving out ∨ (s = c ∧ ∃ call, IsCall e .receive call)) := by
  have hyield : ∀ st, ((scheduleNext (k.setState c st)).actors s).context = .receiving out →
      (k.actors s).context = .receiving out := by
    intro st hctx
    exact update_receiving rfl (by rfl) (scheduleNext_receiving hctx)
  cases h with
  | tick => exact ⟨by simp [takenSlot], Or.inl (hyield _ hs)⟩
  | yield hcall | exit hcall =>
      refine ⟨?_, Or.inl (hyield _ hs)⟩
      rw [takenSlot_of_call hcall (by simp) (by simp)]
      simp
  | @send _ call hcall =>
      rw [takenSlot_of_call hcall (by simp) (by simp)]
      refine ⟨by simp, Or.inl ?_⟩
      rcases actorSend_cases k c (cInt call.a1) call.a2 call.a3 with heq | ⟨d, _, _, _, _, heq⟩
      · rwa [heq] at hs
      · rw [heq] at hs
        exact update_receiving rfl (by rfl) hs
  | receive out' hcall =>
      have htaken : takenSlot L k c e = none := by
        rcases hcall with ⟨call, hcall, _⟩ | ⟨rfl, _⟩
        · exact takenSlot_of_call hcall (by simp) (by simp)
        · rfl
      rw [htaken]
      refine ⟨by simp, ?_⟩
      rcases sysReceive_cases k c out' with ⟨_, heq⟩ | ⟨_, heq⟩
      · rw [heq] at hs
        have hblocked := scheduleNext_receiving hs
        by_cases hsc : s = c
        · subst hsc
          rcases hcall with ⟨call, hcall, _⟩ | ⟨rfl, hctx⟩
          · exact Or.inr ⟨rfl, call, hcall⟩
          · simp only [setActor_actors, Function.update_self] at hblocked
            exact Or.inl (hctx.trans hblocked)
        · exact Or.inl (by simpa [hsc] using hblocked)
      · rw [heq] at hs
        by_cases hsc : s = c
        · subst hsc
          simp [dequeue] at hs
        · exact Or.inl (by simpa [hsc] using hs)
  | @grant _ call hcall =>
      rw [takenSlot_of_call hcall (by simp) (by simp)]
      refine ⟨by simp, Or.inl ?_⟩
      rcases actorDelegate_cases k c (cInt call.a1) (cInt call.a2) (cInt call.a3) with
        heq | ⟨d, _, _, heq⟩
      · rwa [heq] at hs
      · rw [heq, actorAddCap_fst] at hs
        exact update_receiving rfl (by rfl) hs
  | @spawn _ call hcall =>
      obtain ⟨rfl, hdecode⟩ := hcall
      obtain ⟨htaken, hctx⟩ := (actorSpawnChild_spec L k hlive call.a1.toNat).1.receiving hs
      exact ⟨by simpa [takenSlot, hdecode] using htaken, Or.inl hctx⟩
  | @spawnProgram _ call hcall hcap =>
      obtain ⟨rfl, hdecode⟩ := hcall
      obtain ⟨htaken, hctx⟩ := (loaderSpawnProgram_spec L k hlive (cInt call.a1)).1.receiving hs
      exact ⟨by simpa [takenSlot, hdecode, hcap] using htaken, Or.inl hctx⟩
  | @terminate _ call hcall =>
      rw [takenSlot_of_call hcall (by simp) (by simp)]
      refine ⟨by simp, Or.inl ?_⟩
      rcases actorTerminate_cases k c (cInt call.a1) with heq | ⟨d, _, _, _, heq⟩
      · rwa [heq] at hs
      · rw [heq] at hs
        exact update_receiving rfl (by rfl) hs
  | @createName _ call hcall hcap =>
      rw [takenSlot_of_call hcall (by simp) (by simp)]
      refine ⟨by simp, Or.inl ?_⟩
      rcases sysCreateName_cases k c (userBytes k c call.a1) with ⟨_, heq⟩ | ⟨_, heq⟩
      · rw [heq] at hs
        exact hs
      · rw [heq] at hs
        exact update_receiving rfl (by rfl) hs
  | programDenied hcall hcap | createDenied hcall hcap =>
      obtain ⟨rfl, hdecode⟩ := hcall
      exact ⟨by simp [takenSlot, hdecode, hcap], Or.inl hs⟩
  | quietCall hcall hquiet hstep =>
      rw [hstep.actors] at hs
      rw [takenSlot_of_call hcall (Syscall.ne_of_quiet hquiet rfl)
        (Syscall.ne_of_quiet hquiet rfl)]
      exact ⟨by simp, Or.inl hs⟩
  | unknown hdecode => exact ⟨by simp [takenSlot, hdecode], Or.inl hs⟩
  | store | device | fault => exact ⟨by simp [takenSlot], Or.inl hs⟩

end Waiting

end Vajra
