import Vajra.SyscallGate
import Vajra.TransitionTrace

/-!
# Booting and running the machine (`core/main.c`, `hal/x86_64/interrupts.c`)

`kernelMain` is `kernel_main` as the list of the setup operations it performs,
from the state that `memory_init`, `net_init`, `storage_init` and
`scheduler_init` leave.  `step` is one event of the running machine: a timer
tick, a system call of the current actor, a turn of the receive loop it was
suspended in, a ring-3 store, a change of some device, or a fault.

A step is a stretch of code that runs with interrupts disabled.  Interrupts are
enabled in ring 3, on the way out of a system call, and between two turns of
the loop in `actor_receive`; those are the states between steps, and a tick is
possible in each of them.

Bytes a system call stores through a pointer of its caller land in the caller's
own user-writable memory here; a pointer to anything else stores nothing.
-/

namespace Vajra

open ByteMemory TransitionTrace

/-- The actors `kernel_main` spawns, in its order. -/
inductive DemoActor where
  | one
  | two
  | three
  | greedy
  | mailboxReceiver
  | mailboxSender
  | intruder
  | coordinator
  | downloader
  | scanner
  | reader
  | networkPeer
  | programLoader
  | namer
  | shell
  deriving DecidableEq

def mailboxReceiverSlot : Int := 4
def mailboxSenderSlot : Int := 5
def intruderSlot : Int := 6
def coordinatorSlot : Int := 7
def downloaderSlot : Int := 8
def scannerSlot : Int := 9
def readerSlot : Int := 10
def networkPeerSlot : Int := 11
def programLoaderSlot : Int := 12
def namespaceDemoSlot : Int := 13
def shellSlot : Int := 14

def payloadObjectId : Int := 0
def suspiciousObjectId : Int := 1
def helloProgramObjectId : Int := 2

/-- `"payload.bin"`. -/
def payloadName : Nat → UInt8 :=
  cstring [0x70, 0x61, 0x79, 0x6c, 0x6f, 0x61, 0x64, 0x2e, 0x62, 0x69, 0x6e]

/-- `"suspicious.bin"`. -/
def suspiciousName : Nat → UInt8 :=
  cstring [0x73, 0x75, 0x73, 0x70, 0x69, 0x63, 0x69, 0x6f, 0x75, 0x73, 0x2e, 0x62, 0x69, 0x6e]

/-- `"hello.bin"`. -/
def helloName : Nat → UInt8 :=
  cstring [0x68, 0x65, 0x6c, 0x6c, 0x6f, 0x2e, 0x62, 0x69, 0x6e]

/-- What the machine finds when it is switched on. -/
structure Boot (D : Type) where
  /-- the firmware's memory map -/
  memoryMap : Option (List E820Entry)
  ram : Mem
  disk : Disk
  /-- the page counts `hal_net_init` asks for, none without a network card -/
  netBuffers : List Int
  net : Net
  dev : D
  /-- the addresses of the actors' entry points in `.user_text` -/
  entryPoint : DemoActor → Nat
  helloBlob : List UInt8
  /-- the memory behind `storage.c`'s staging buffer -/
  scratch : Nat → UInt8

/-- One call of `kernel_main`. -/
inductive SetupOp where
  | spawn (entry : Nat)
  | createObject (name : Nat → UInt8)
  | seedObject (name : Nat → UInt8) (bytes : List UInt8)
  | grant (dest op target : Int)
  | setSpawnQuota (slot quota : Int)
  | setWindow (slot win : Int)

variable {D : Type}

/-- The order of `kernel_main`'s spawns. -/
def demoActors : List DemoActor :=
  [.one, .two, .three, .greedy, .mailboxReceiver, .mailboxSender, .intruder, .coordinator,
   .downloader, .scanner, .reader, .networkPeer, .programLoader, .namer, .shell]

/-- The grants of `kernel_main`, as `(dest, op, target)`. -/
def kernelMainGrants : List (Int × Int × Int) :=
  [(mailboxSenderSlot, capSend, mailboxReceiverSlot),
   (coordinatorSlot, capSpawn, 0),
   (downloaderSlot, capWriteObject, payloadObjectId),
   (downloaderSlot, capWriteObject, suspiciousObjectId),
   (downloaderSlot, capSend, scannerSlot),
   (scannerSlot, capReadObject, payloadObjectId),
   (scannerSlot, capReadObject, suspiciousObjectId),
   (scannerSlot, capPromoteObject, 0),
   (scannerSlot, capSpawn, 0),
   (scannerSlot, capSend, readerSlot),
   (scannerSlot, capSend, downloaderSlot),
   (readerSlot, capReadObject, payloadObjectId),
   (readerSlot, capReadObject, suspiciousObjectId),
   (networkPeerSlot, capNet, 0),
   (programLoaderSlot, capSpawn, 0),
   (programLoaderSlot, capReadObject, helloProgramObjectId),
   (namespaceDemoSlot, capListNames, 0),
   (namespaceDemoSlot, capCreateObject, 0),
   (shellSlot, capConsole, 0),
   (shellSlot, capSpawn, 0),
   (shellSlot, capListNames, 0),
   (shellSlot, capReadObject, helloProgramObjectId)]

/-- `kernel_main` from its first `actor_spawn` to its last line of setup. -/
def kernelMainOps (b : Boot D) : List SetupOp :=
  demoActors.map (fun a => .spawn (b.entryPoint a)) ++
    [.createObject payloadName, .createObject suspiciousName,
     .seedObject helloName b.helloBlob] ++
    kernelMainGrants.map (fun g => .grant g.1 g.2.1 g.2.2) ++
    [.setSpawnQuota shellSlot 6, .setWindow shellSlot consoleWinShell]

/-- Perform one call of `kernel_main`. -/
def setupStep (L : Layout) (k : Kernel D) : SetupOp → Kernel D
  | .spawn entry => (actorSpawn L k entry).1
  | .createObject name => { k with store := (storageCreateObject k.store name).1 }
  | .seedObject name bytes =>
      match storageCreateObject k.store name with
      | (st, id) =>
          { k with store := (storageWrite st id (cstring bytes) (bytes.length % 2 ^ 32)).1 }
  | .grant dest op target => (actorGrant k dest op target).1
  | .setSpawnQuota slot quota => actorSetSpawnQuota k slot quota
  | .setWindow slot win => actorSetWindow k slot win

/-- The machine when `kernel_main` reaches its first `actor_spawn`: the statics
are zero, `boot.asm` has left its page directory, and `memory_init`,
`hal_net_init`, `storage_init` and `scheduler_init` have run. -/
def powerOn (b : Boot D) : Kernel D :=
  let memory := memoryInit (halGetMemoryMap b.memoryMap 32) (bootPageDirectory b.ram)
  let memory := b.netBuffers.foldl (fun m n => (allocDmaPages m n).1) memory
  let blank : Object := { inUse := 0, name := fun _ => 0, lba := 0, sizeBytes := 0, trust := 0 }
  schedulerInit
    { actors := fun _ => deadActor
      current := none
      memory := memory
      pool := { owner := fun _ => 0, initDone := false }
      store := storageInit
        { objects := fun _ => blank, objectCount := 0, scratch := b.scratch, disk := b.disk }
      net := b.net
      dev := b.dev
      mode := .running }

/-- `kernel_main` after its first `n` setup calls. -/
def setupState (L : Layout) (b : Boot D) (n : Nat) : Kernel D :=
  ((kernelMainOps b).take n).foldl (setupStep L) (powerOn b)

/-- The state `kernel_main` leaves. -/
def kernelMain (L : Layout) (b : Boot D) : Kernel D :=
  (kernelMainOps b).foldl (setupStep L) (powerOn b)

/-- The first state of the run: `kernel_main` hands over to `scheduler_start`. -/
def bootState (L : Layout) (b : Boot D) : Kernel D := schedulerStart (kernelMain L b)

/-- One event of the running machine. -/
inductive Event (D : Type) where
  | tick
  | syscall (call : Call)
  | resume
  | store (va : Nat) (byte : UInt8)
  | device (dev : D)
  | fault

/-- What a step hands to the actor it ran for. -/
structure Outcome where
  ret : Option Word
  out : List (Nat × UInt8)
  msg : Option Message

/-- Nothing is handed over. -/
def Outcome.silent : Outcome := ⟨none, [], none⟩

/-- Store the bytes of a call's result in the memory of its caller. -/
def commitOut (k : Kernel D) (c : Slot) (out : List (Nat × UInt8)) : Kernel D :=
  let ram := out.foldl (fun ram b => pokeUser ram (k.actors c).cr3 b.1 b.2) k.memory.ram
  { k with memory := { k.memory with ram := ram } }

/-- The step a call's result amounts to. -/
def SysResult.finish (r : SysResult D) (c : Slot) : Kernel D × Outcome :=
  (commitOut r.kernel c r.out, ⟨r.ret, r.out, r.msg⟩)

/-- One event for the current actor `c`, in the context it is in. -/
def actorStep (L : Layout) (hal : Hal D) (k : Kernel D) (c : Slot) :
    Event D → Context → Option (Kernel D × Outcome)
  | .tick, _ => some (actorYield k c, .silent)
  | .syscall call, .user => some ((syscallHandler L hal k c call).finish c)
  | .resume, .receiving out => some ((sysReceive k c out).finish c)
  | .store va byte, .user =>
      some (commitOut k c [(va, byte)], .silent)
  | .device dev, _ => some ({ k with dev := dev }, .silent)
  | .fault, _ => some ({ k with mode := .panicked }, .silent)
  | _, _ => none

/-- One event of the machine; nothing happens once it has halted. -/
def step (L : Layout) (hal : Hal D) (k : Kernel D) (e : Event D) :
    Option (Kernel D × Outcome) :=
  if k.mode = .running then
    match k.current with
    | none => none
    | some c => actorStep L hal k c e (k.actors c).context
  else none

/-- A recorded step of the machine. -/
abbrev Record (D : Type) := Transition (Kernel D) (Event D) Outcome

/-- A run from the state `kernel_main` leaves. -/
abbrev Run (L : Layout) (hal : Hal D) (b : Boot D) (tr : List (Record D)) (k : Kernel D) :
    Prop :=
  Trace (step L hal) (bootState L b) tr k

/-- Every state of the machine, from the first call of `kernel_main` on. -/
inductive Reached (L : Layout) (hal : Hal D) (b : Boot D) : Kernel D → Prop
  | setup (n : Nat) : Reached L hal b (setupState L b n)
  | run {tr : List (Record D)} {k : Kernel D} (h : Run L hal b tr k) : Reached L hal b k

section SampleMachine

/-- The tables one after the other, the four of a slot together. -/
def tableIndex : TableId → Nat
  | .pml4 s => 4 * s
  | .pdpt s => 4 * s + 1
  | .pd s => 4 * s + 2
  | .pt0 s => 4 * s + 3
  | .pt1 i => 4 * maxActors + i

theorem tableIndex_lt (t : TableId) : tableIndex t < 70 := by
  cases t with
  | pml4 s | pdpt s | pd s | pt0 s | pt1 s =>
      have hs := s.isLt
      simp only [tableIndex, maxActors, programPoolSize] at *
      omega

theorem tableIndex_injective : Function.Injective tableIndex := by
  intro s t h
  cases s <;> cases t <;>
    simp only [tableIndex, TableId.pml4.injEq, TableId.pdpt.injEq, TableId.pd.injEq,
      TableId.pt0.injEq, TableId.pt1.injEq, Fin.ext_iff, reduceCtorEq] at *
  all_goals
    rename_i a b
    have ha := a.isLt
    have hb := b.isLt
    simp only [maxActors, programPoolSize] at *
    omega

/-- A kernel image with its ring-3 code at 128KB and its tables behind it. -/
def sampleLayout : Layout where
  table t := 0x30000 + pageSize * tableIndex t
  userTextStart := 0x20000
  userTextEnd := 0x24000
  table_aligned t := by simp only [pageSize]; omega
  table_low t := by have := tableIndex_lt t; simp only [pageSize, commonsEnd]; omega
  table_injective s t h := by
    apply tableIndex_injective
    simp only [pageSize] at h
    omega
  table_not_text t := by simp only [pageSize]; omega
  table_not_boot t := by
    have := tableIndex_lt t
    simp only [pageSize, pageDirPhysBase]
    omega
  text_start_aligned := by decide
  text_end_aligned := by decide
  text_low := by decide
  text_not_boot := by decide

/-- Devices without keys, frames or network. -/
def silentHal : Hal Unit where
  consoleWrite d _ _ := d
  keyboardPoll d := (d, -1)
  rtcRead d := (d, ⟨0, 0, 0, 1, 1, 2026⟩)
  netSend d _ := (d, -1)
  netPollReceive d _ _ := (d, 0, fun _ => 0)

/-- A machine with 32 free pages above 1MB and an empty disk. -/
def sampleBoot : Boot Unit where
  memoryMap := some [⟨0x100000, 0x20000, 1⟩]
  ram := fun _ => 0
  disk := { sector := fun _ _ => 0, outcome := fun _ => .ok, requests := 0 }
  netBuffers := []
  net := { online := false, myMac := List.replicate 6 0, nextSeq := 1 }
  dev := ()
  entryPoint := fun _ => 0x20000
  helloBlob := []
  scratch := fun _ => 0

/-- A call of the current actor. -/
def sampleCall (num a1 a2 a3 : Word) : Event Unit := .syscall ⟨num, a1, a2, a3, fun _ => 0⟩

/-- The sample machine after a list of events. -/
def sampleRun (events : List (Event Unit)) : Option (List (Record Unit) × Kernel Unit) :=
  runTrace (step sampleLayout silentHal) [] (bootState sampleLayout sampleBoot) events

end SampleMachine

end Vajra
