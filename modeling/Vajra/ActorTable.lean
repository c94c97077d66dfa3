import Vajra.AddressSpace
import Vajra.NetMessage
import Vajra.ObjectStore

/-!
# Actors, capabilities, mailboxes and the scheduler (`core/actor.c`)

The actor table is a map from slots to records.  A saved stack pointer is
modelled by what a switch to it resumes (`Context`): the spawn-time fake frame,
ring-3 code, or the waiting loop inside `actor_receive`.  `current` is
`current_actor`, with `none` for `-1`.

Each function runs with interrupts disabled from its first to its last access
to shared state, so each is one function on the kernel state.  The one place
where a call is suspended in its middle is the loop of `actor_receive`, and
`Context.receiving` is exactly that point.
-/

namespace Vajra

open ByteMemory

def mailboxCapacity : Nat := 8
def maxCapsPerActor : Nat := 20
def maxSpawnsPerActor : Int := 2
def actorStackSize : Nat := 4096
def consoleWinLog : Int := 0
def consoleWinShell : Int := 1

def capSend : Int := 1
def capSpawn : Int := 2
def capTerminate : Int := 3
def capReadObject : Int := 4
def capWriteObject : Int := 5
def capPromoteObject : Int := 6
def capNet : Int := 7
def capListNames : Int := 8
def capCreateObject : Int := 9
def capRenameObject : Int := 10
def capDeleteObject : Int := 11
def capConsole : Int := 12

/-- `actor_state_t`. -/
inductive ActorState where
  | dead
  | ready
  | running
  | blocked
  deriving DecidableEq

/-- `struct capability`; operation 0 marks an empty entry. -/
structure Capability where
  op : Int
  target : Int
  deriving DecidableEq

/-- The empty table entry. -/
def Capability.empty : Capability := ⟨0, 0⟩

/-- `struct message`. -/
structure Message where
  type : Word
  sender : Word
  data : Word
  deriving DecidableEq

/-- What switching to a saved stack pointer resumes. -/
inductive Context where
  | trampoline
  | user
  | receiving (out : Word)
  deriving DecidableEq

/-- `struct actor`. -/
structure Actor where
  context : Context
  cr3 : Nat
  state : ActorState
  stackPage : Option Nat
  entry : Nat
  mailbox : Nat → Message
  mailboxHead : Nat
  mailboxCount : Nat
  caps : List Capability
  spawnCount : Int
  spawnQuota : Int
  window : Int

/-- Whether the machine runs, sits in `schedule_next`'s final halt, or has
panicked on an exception. -/
inductive Mode where
  | running
  | halted
  | panicked
  deriving DecidableEq

/-- The whole kernel: the statics of every modelled file. -/
structure Kernel (D : Type) where
  actors : Slot → Actor
  current : Option Slot
  memory : Memory
  pool : ProgramPool
  store : Store
  net : Net
  dev : D
  mode : Mode

/-- A slot number given as a C `int`, if it is in range. -/
def slotOf (i : Int) : Option Slot :=
  if h : 0 ≤ i ∧ i < maxActors then some ⟨i.toNat, by omega⟩ else none

/-- `actor_has_cap`'s loop over one table. -/
def hasCap (caps : List Capability) (op target : Int) : Bool :=
  caps.any fun c => c.op = op ∧ c.target = target

/-- `actor_add_cap`'s loop over one table: fill the first empty entry. -/
def addCap (caps : List Capability) (op target : Int) : Option (List Capability) :=
  match caps.findIdx? fun c => c.op = 0 with
  | some i => some (caps.set i ⟨op, target⟩)
  | none => none

variable {D : Type}

/-- Overwrite one record of the actor table. -/
def Kernel.setActor (k : Kernel D) (s : Slot) (a : Actor) : Kernel D :=
  { k with actors := Function.update k.actors s a }

def Kernel.setState (k : Kernel D) (s : Slot) (st : ActorState) : Kernel D :=
  k.setActor s { k.actors s with state := st }

/-- An actor that has not exited or been terminated. -/
def Kernel.Live (k : Kernel D) (s : Slot) : Prop := (k.actors s).state ≠ .dead

instance (k : Kernel D) (s : Slot) : Decidable (k.Live s) :=
  inferInstanceAs (Decidable (_ ≠ _))

/-- `actor_has_cap`. -/
def actorHasCap (k : Kernel D) (s : Slot) (op target : Int) : Bool :=
  hasCap (k.actors s).caps op target

/-- `actor_add_cap`. -/
def actorAddCap (k : Kernel D) (s : Slot) (op target : Int) : Kernel D × Int :=
  match addCap (k.actors s).caps op target with
  | some caps => (k.setActor s { k.actors s with caps := caps }, 0)
  | none => (k, -1)

/-- `actor_grant`. -/
def actorGrant (k : Kernel D) (dest op target : Int) : Kernel D × Int :=
  match slotOf dest with
  | none => (k, -1)
  | some d => actorAddCap k d op target

/-- `actor_set_spawn_quota`. -/
def actorSetSpawnQuota (k : Kernel D) (slot quota : Int) : Kernel D :=
  match slotOf slot with
  | none => k
  | some s => k.setActor s { k.actors s with spawnQuota := quota }

/-- `actor_set_window`. -/
def actorSetWindow (k : Kernel D) (slot win : Int) : Kernel D :=
  match slotOf slot with
  | none => k
  | some s => k.setActor s { k.actors s with window := win }

/-- The record every slot starts from. -/
def deadActor : Actor where
  context := .trampoline
  cr3 := 0
  state := .dead
  stackPage := none
  entry := 0
  mailbox := fun _ => ⟨0, 0, 0⟩
  mailboxHead := 0
  mailboxCount := 0
  caps := List.replicate maxCapsPerActor .empty
  spawnCount := 0
  spawnQuota := maxSpawnsPerActor
  window := consoleWinLog

/-- `scheduler_init`. -/
def schedulerInit (k : Kernel D) : Kernel D :=
  { k with actors := fun _ => deadActor, current := none }

/-- `actor_delegate`, called by `c`. -/
def actorDelegate (k : Kernel D) (c : Slot) (dest op target : Int) : Kernel D × Int :=
  match slotOf dest with
  | none => (k, -1)
  | some d =>
      if actorHasCap k c op target then actorAddCap k d op target
      else (k, -1)

/-- The first dead slot. -/
def freeSlot (k : Kernel D) : Option Slot :=
  (List.finRange maxActors).find? fun i => (k.actors i).state = .dead

/-- The record of a fresh occupant.  The mailbox cells keep their old bytes;
only the head and the count are reset. -/
def freshActor (old : Actor) (cr3 stackPage entry : Nat) : Actor where
  context := .trampoline
  cr3 := cr3
  state := .ready
  stackPage := some stackPage
  entry := entry
  mailbox := old.mailbox
  mailboxHead := 0
  mailboxCount := 0
  caps := List.replicate maxCapsPerActor .empty
  spawnCount := 0
  spawnQuota := maxSpawnsPerActor
  window := consoleWinLog

/-- `actor_spawn`: the new slot, or nothing for `-1`. -/
def actorSpawn (L : Layout) (k : Kernel D) (entry : Nat) : Kernel D × Option Slot :=
  match freeSlot k with
  | none => (k, none)
  | some i =>
      match allocPage k.memory with
      | (mem, none) => ({ k with memory := mem }, none)
      | (mem, some page) =>
          match halAddressSpaceCreate L mem.ram i page actorStackSize with
          | (ram, none) => ({ k with memory := freePage { mem with ram := ram } page }, none)
          | (ram, some cr3) =>
              (({ k with memory := { mem with ram := ram } } : Kernel D).setActor i
                (freshActor (k.actors i) cr3 page entry), some i)

/-- `actor_spawn_program`. -/
def actorSpawnProgram (L : Layout) (k : Kernel D) (physBase physSize entryOffset : Nat) :
    Kernel D × Option Slot :=
  match actorSpawn L k (programVbase + entryOffset) with
  | (k, none) => (k, none)
  | (k, some slot) =>
      match halAddressSpaceMapProgram L k.memory.ram k.pool slot physBase physSize with
      | (ram, pool, rc) =>
          let k := { k with memory := { k.memory with ram := ram }, pool := pool }
          if rc ≠ 0 then (k.setState slot .dead, none) else (k, some slot)

/-- The tail shared by the two checked spawns: count the child and hand out the
parent/child capabilities.  A full table is not a failure. -/
def adoptChild (k : Kernel D) (spawner child : Slot) : Kernel D :=
  let counted := k.setActor spawner
    { k.actors spawner with spawnCount := (k.actors spawner).spawnCount + 1 }
  let sendable := (actorAddCap counted spawner capSend (child : Int)).1
  let owned := (actorAddCap sendable spawner capTerminate (child : Int)).1
  (actorAddCap owned child capSend (spawner : Int)).1

/-- The check both checked spawns make before they do anything. -/
def MaySpawn (k : Kernel D) (c : Slot) : Prop :=
  actorHasCap k c capSpawn 0 = true ∧ (k.actors c).spawnCount < (k.actors c).spawnQuota

instance (k : Kernel D) (c : Slot) : Decidable (MaySpawn k c) :=
  inferInstanceAs (Decidable (_ ∧ _))

/-- `actor_spawn_child`, called by `c`. -/
def actorSpawnChild (L : Layout) (k : Kernel D) (c : Slot) (entry : Nat) :
    Kernel D × Option Slot :=
  if ¬ MaySpawn k c then (k, none)
  else
    match actorSpawn L k entry with
    | (k, none) => (k, none)
    | (k, some child) => (adoptChild k c child, some child)

/-- `actor_spawn_program_child`, called by `c`. -/
def actorSpawnProgramChild (L : Layout) (k : Kernel D) (c : Slot)
    (physBase physSize entryOffset : Nat) : Kernel D × Option Slot :=
  if ¬ MaySpawn k c then (k, none)
  else
    match actorSpawnProgram L k physBase physSize entryOffset with
    | (k, none) => (k, none)
    | (k, some child) => (adoptChild k c child, some child)

/-- `actor_terminate`, called by `c`. -/
def actorTerminate (k : Kernel D) (c : Slot) (target : Int) : Kernel D × Int :=
  match slotOf target with
  | none => (k, -1)
  | some t =>
      if t = c then (k, -1)
      else if actorHasCap k c capTerminate target then (k.setState t .dead, 0)
      else (k, -1)

/-- One turn of `reap_dead_actors`. -/
def reapActor (k : Kernel D) (i : Slot) : Kernel D :=
  if k.current = some i then k
  else
    match (k.actors i).state, (k.actors i).stackPage with
    | .dead, some page =>
        ({ k with memory := freePage k.memory page } : Kernel D).setActor i
          { k.actors i with stackPage := none }
    | _, _ => k

/-- `reap_dead_actors`. -/
def reapDeadActors (k : Kernel D) : Kernel D :=
  (List.finRange maxActors).foldl reapActor k

/-- The slot `i` places behind `start`, round robin. -/
def slotAfter (start : Slot) (i : Nat) : Slot :=
  ⟨(start + i) % maxActors, Nat.mod_lt _ (by decide)⟩

/-- A slot `schedule_next` may pick. -/
def Runnable (a : Actor) : Prop := a.state = .ready ∨ a.state = .running

instance (a : Actor) : Decidable (Runnable a) := inferInstanceAs (Decidable (_ ∨ _))

/-- The first runnable slot after `start`, with `start` itself last. -/
def nextRunnable (k : Kernel D) (start : Slot) : Option Slot :=
  ((List.range maxActors).map fun i => slotAfter start (i + 1)).find? fun s =>
    Runnable (k.actors s)

/-- Switch to `s`.  A first switch lands in `actor_trampoline`, which drops to
ring 3 before interrupts are enabled again. -/
def dispatch (k : Kernel D) (s : Slot) : Kernel D :=
  let a := k.actors s
  { k.setActor s { a with
      state := .running
      context := if a.context = .trampoline then .user else a.context } with
    current := some s }

/-- The end of `schedule_next`: halt, carry on with the caller when it is the only
runnable actor, or switch. -/
def switchTo (k : Kernel D) : Option Slot → Kernel D
  | none => { k with mode := .halted }
  | some next => if k.current = some next then k.setState next .running else dispatch k next

/-- `schedule_next`. -/
def scheduleNext (k : Kernel D) : Kernel D :=
  let reaped := reapDeadActors k
  switchTo reaped (nextRunnable reaped (reaped.current.getD 0))

/-- `actor_yield`, by the timer or by the current actor `c`. -/
def actorYield (k : Kernel D) (c : Slot) : Kernel D := scheduleNext (k.setState c .ready)

/-- `actor_exit`. -/
def actorExit (k : Kernel D) (c : Slot) : Kernel D := scheduleNext (k.setState c .dead)

/-- Store a message behind the last one of a mailbox and wake its owner. -/
def enqueue (a : Actor) (msg : Message) : Actor :=
  { a with
    mailbox := Function.update a.mailbox
      ((a.mailboxHead + a.mailboxCount) % mailboxCapacity) msg
    mailboxCount := a.mailboxCount + 1
    state := if a.state = .blocked then .ready else a.state }

/-- `actor_send`, called by `c`. -/
def actorSend (k : Kernel D) (c : Slot) (dest : Int) (type data : Word) : Kernel D × Int :=
  match slotOf dest with
  | none => (k, -1)
  | some d =>
      if ¬ actorHasCap k c capSend dest then (k, -1)
      else if (k.actors d).state = .dead then (k, -1)
      else if mailboxCapacity ≤ (k.actors d).mailboxCount then (k, -1)
      else (k.setActor d (enqueue (k.actors d) ⟨type, BitVec.ofNat 64 c, data⟩), 0)

/-- Take the oldest message out of a mailbox and leave the kernel. -/
def dequeue (a : Actor) : Actor :=
  { a with
    context := .user
    mailboxHead := (a.mailboxHead + 1) % mailboxCapacity
    mailboxCount := a.mailboxCount - 1 }

/-- `actor_receive` from its loop test on, called or resumed by `c`: hand over
the oldest message, or block and switch away until the next turn of the loop. -/
def actorReceive (k : Kernel D) (c : Slot) (out : Word) : Kernel D × Option Message :=
  let a := k.actors c
  if a.mailboxCount = 0 then
    (scheduleNext (k.setActor c { a with state := .blocked, context := .receiving out }), none)
  else (k.setActor c (dequeue a), some (a.mailbox a.mailboxHead))

/-- `scheduler_start`. -/
def schedulerStart (k : Kernel D) : Kernel D := scheduleNext k

end Vajra
