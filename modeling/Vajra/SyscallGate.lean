import Vajra.ActorTable

/-!
# The program loader and the syscall gate (`core/loader.c`, `hal/x86_64/syscall.c`)

`syscallHandler` is the kernel side of `int 0x80`: a number, three arguments and
the slot that made the call.  Its result is the new kernel, the value for RAX if
the call returns now, and the bytes it stores through the caller's pointers.

Pointers the kernel only reads are read through the caller's own page tables
(`peek`).  `residue` is what the kernel stack held before the call, where the
handler reads a local it has not fully written.
-/

namespace Vajra

open ByteMemory

/-- C's `(int)` of a 64-bit argument. -/
def cInt (a : Word) : Int := (a.setWidth 32).toInt

/-- C's `(uint32_t)` of a 64-bit argument. -/
def cUint (a : Word) : Nat := a.toNat % 2 ^ 32

/-- C's `(uint64_t)(int64_t)` of a signed result. -/
def cRet (i : Int) : Word := BitVec.ofInt 64 i

/-- An `int` survives the trip through a register. -/
theorem cInt_cRet {i : Int} (hlow : -2 ^ 31 ≤ i) (hhigh : i < 2 ^ 31) : cInt (cRet i) = i := by
  have hpow : (((2 : Nat) ^ 64 : Nat) : Int) = 2 ^ 64 := by norm_num
  rw [cInt, cRet, BitVec.toInt_setWidth, BitVec.toNat_ofInt,
    Int.toNat_of_nonneg (Int.emod_nonneg _ (by decide)), hpow, Int.bmod_def]
  omega

/-- A slot or `-1`. -/
def slotRet (s : Option Slot) : Word :=
  match s with
  | some i => cRet (i : Int)
  | none => cRet (-1)

/-- The system calls of `hal.h`. -/
inductive Syscall where
  | write
  | yield
  | exit
  | send
  | receive
  | grant
  | spawn
  | terminate
  | objectRead
  | objectWrite
  | objectPromote
  | objectReject
  | netSend
  | netReceive
  | netSendTo
  | netSendReliable
  | spawnProgram
  | lookupName
  | listObjects
  | createName
  | renameObject
  | deleteName
  | keyRead
  | rtcRead
  deriving DecidableEq

/-- The calls in the order of their numbers, from `SYS_WRITE` = 1 on. -/
def Syscall.all : List Syscall :=
  [.write, .yield, .exit, .send, .receive, .grant, .spawn, .terminate, .objectRead,
   .objectWrite, .objectPromote, .objectReject, .netSend, .netReceive, .netSendTo,
   .netSendReliable, .spawnProgram, .lookupName, .listObjects, .createName, .renameObject,
   .deleteName, .keyRead, .rtcRead]

/-- The call a number selects, if it is known. -/
def Syscall.decode (num : Word) : Option Syscall :=
  if num.toNat = 0 then none else Syscall.all[num.toNat - 1]?

/-- One `int 0x80`: RAX, RDI, RSI, RDX, and the stale kernel stack. -/
structure Call where
  num : Word
  a1 : Word
  a2 : Word
  a3 : Word
  residue : Nat → UInt8

/-- What a call does. -/
structure SysResult (D : Type) where
  kernel : Kernel D
  /-- RAX, unless the call has been suspended or never returns. -/
  ret : Option Word
  /-- The bytes stored through the caller's pointer, by virtual address. -/
  out : List (Nat × UInt8)
  /-- The message `actor_receive` handed over. -/
  msg : Option Message

variable {D : Type}

/-- A call that returns `v` and stores nothing. -/
def SysResult.value (k : Kernel D) (v : Word) : SysResult D := ⟨k, some v, [], none⟩

/-- A call that switches away. -/
def SysResult.switched (k : Kernel D) : SysResult D := ⟨k, none, [], none⟩

/-- The result of an operation on the object store. -/
def SysResult.stored (k : Kernel D) (r : Store × Int) : SysResult D :=
  .value { k with store := r.1 } (cRet r.2)

/-- The result of an operation on a device. -/
def SysResult.device (k : Kernel D) (r : D × Int) : SysResult D :=
  .value { k with dev := r.1 } (cRet r.2)

/-- Bytes stored from `p + off` on. -/
def outAt (p : Word) (off : Nat) (bytes : List UInt8) : List (Nat × UInt8) :=
  bytes.zipIdx.map fun b => ((p.toNat + off + b.2) % 2 ^ 64, b.1)

/-- The bytes at a pointer argument, as the kernel reads them. -/
def userBytes (k : Kernel D) (c : Slot) (p : Word) : Nat → UInt8 :=
  fun i => peek k.memory.ram (k.actors c).cr3 ((p.toNat + i) % 2 ^ 64)

/-- The low four bytes of a C `int` or `uint32_t`. -/
def intBytes (i : Int) : List UInt8 := (List.range 4).map (leByte (BitVec.ofInt 32 i).toNat)

/-- `*out = message`. -/
def messageBytes (p : Word) (m : Message) : List (Nat × UInt8) :=
  outAt p 0 (wordBytes m.type ++ wordBytes m.sender ++ wordBytes m.data)

/-- `*out` of `hal_rtc_read`; the padding byte at offset 5 is not written. -/
def rtcBytes (p : Word) (t : RtcTime) : List (Nat × UInt8) :=
  outAt p 0 [t.seconds, t.minutes, t.hours, t.day, t.month] ++
    outAt p 6 [leByte t.year.toNat 0, leByte t.year.toNat 1]

/-- `*out` of `SYS_NET_RECEIVE`. -/
def netMessageBytes (p : Word) (m : RawMessage) : List (Nat × UInt8) :=
  outAt p 0 (wordBytes m.type ++ wordBytes m.data ++ wordBytes m.senderActor ++ m.senderMac)

/-- `*out` of `SYS_LIST_OBJECTS`. -/
def objectInfoBytes (p : Word) (o : ObjectInfo) : List (Nat × UInt8) :=
  outAt p 0 (intBytes o.id ++ intBytes o.trust ++ intBytes o.sizeBytes ++
    (List.range 16).map o.name)

def programMagic : Nat := 0x524A4156
def programHeaderSize : Nat := 12

/-- A validated program image: what follows the header, and where it starts. -/
structure ProgramImage where
  entryOffset : Nat
  code : List UInt8

/-- The checks of `loader_spawn_program` on the bytes it read. -/
def parseProgram (bytes : List UInt8) : Option ProgramImage :=
  let scratch : Nat → UInt8 := fun i => bytes.getD i 0
  let magic := readLE scratch 0 4
  let entryOffset := readLE scratch 4 4
  let codeSize := readLE scratch 8 4
  if bytes.length < programHeaderSize then none
  else if magic ≠ programMagic then none
  else if codeSize = 0 ∨ programWindowMax < codeSize then none
  else if bytes.length < programHeaderSize + codeSize then none
  else if codeSize ≤ entryOffset then none
  else some ⟨entryOffset, (bytes.drop programHeaderSize).take codeSize⟩

/-- The pages a program needs. -/
def ProgramImage.pages (p : ProgramImage) : Nat := (p.code.length + 4095) / 4096

/-- The first half of `loader_spawn_program`: read, validate, allocate and copy.
The result is where the program was put. -/
def loaderStage (k : Kernel D) (objectId : Int) : Kernel D × Option (Nat × ProgramImage) :=
  match storageRead k.store objectId objectMaxBytes with
  | (st, none) => ({ k with store := st }, none)
  | (st, some bytes) =>
      let k := { k with store := st }
      match parseProgram bytes with
      | none => (k, none)
      | some image =>
          match allocDmaPages k.memory image.pages with
          | (mem, none) => ({ k with memory := mem }, none)
          | (mem, some phys) =>
              let ram := writeBytes mem.ram (image.code.zipIdx.map fun b => (phys + b.2, b.1))
              ({ k with memory := { mem with ram := ram } }, some (phys, image))

/-- `loader_spawn_program`, called by `c`. -/
def loaderSpawnProgram (L : Layout) (k : Kernel D) (c : Slot) (objectId : Int) :
    Kernel D × Option Slot :=
  match loaderStage k objectId with
  | (k, none) => (k, none)
  | (k, some (phys, image)) =>
      actorSpawnProgramChild L k c phys (image.pages * 4096) image.entryOffset

/-- The four grants a creator gets from `SYS_CREATE_NAME`. -/
def grantCreator (k : Kernel D) (c : Slot) (id : Int) : Kernel D :=
  [capReadObject, capWriteObject, capRenameObject, capDeleteObject].foldl
    (fun k op => (actorGrant k (c : Int) op id).1) k

/-- `SYS_RECEIVE`, at its call and at every later turn of its loop. -/
def sysReceive (k : Kernel D) (c : Slot) (out : Word) : SysResult D :=
  match actorReceive k c out with
  | (k, none) => .switched k
  | (k, some m) => ⟨k, some 0, messageBytes out m, some m⟩

/-- `SYS_OBJECT_READ`, behind its capability check. -/
def sysObjectRead (k : Kernel D) (id : Int) (buf : Word) (len : Nat) : SysResult D :=
  match storageRead k.store id len with
  | (st, none) => .value { k with store := st } (cRet (-1))
  | (st, some bytes) =>
      ⟨{ k with store := st }, some (cRet bytes.length), outAt buf 0 bytes, none⟩

/-- `SYS_CREATE_NAME`, behind its capability check. -/
def sysCreateName (k : Kernel D) (c : Slot) (name : Nat → UInt8) : SysResult D :=
  match storageCreateNamed k.store name with
  | (st, id) =>
      let k := { k with store := st }
      if id < 0 then .value k (cRet (-1)) else .value (grantCreator k c id) (cRet id)

/-- `SYS_LIST_OBJECTS`, behind its capability check. -/
def sysListObjects (k : Kernel D) (index : Int) (out : Word) (residue : Nat → UInt8) :
    SysResult D :=
  match storageGetByIndex k.store index residue with
  | none => .value k 0
  | some info => ⟨k, some 1, objectInfoBytes out info, none⟩

variable (L : Layout) (hal : Hal D)

/-- `SYS_NET_RECEIVE`, behind its capability check. -/
def sysNetReceive (k : Kernel D) (c : Slot) (out : Word) (maxSpins : Nat) : SysResult D :=
  match netPollReceiveMessage hal k.net k.dev (BitVec.ofNat 64 c) maxSpins with
  | (dev, rc, none) => .value { k with dev := dev } (cRet rc)
  | (dev, rc, some m) => ⟨{ k with dev := dev }, some (cRet rc), netMessageBytes out m, none⟩

/-- `SYS_NET_SEND_RELIABLE`, behind its capability check. -/
def sysNetSendReliable (k : Kernel D) (c : Slot) (a1 a2 a3 : Word) : SysResult D :=
  match netSendMessageReliableTo hal k.net k.dev (BitVec.ofNat 64 c) (unpackMac a3) a1 a2 with
  | (net, dev, rc) => .value { k with net := net, dev := dev } (cRet rc)

/-- A call that is refused with `-1` unless the caller holds `(op, target)`. -/
def guarded (k : Kernel D) (c : Slot) (op target : Int) (r : SysResult D) : SysResult D :=
  if actorHasCap k c op target then r else .value k (cRet (-1))

/-- `syscall_handler`, for a known call made by the current actor `c`. -/
def syscallDispatch (k : Kernel D) (c : Slot) (call : Call) : Syscall → SysResult D
  | .write =>
      let dev := hal.consoleWrite k.dev (k.actors c).window (userBytes k c call.a1)
      .value { k with dev := dev } 0
  | .yield => .switched (actorYield k c)
  | .exit => .switched (actorExit k c)
  | .send =>
      let r := actorSend k c (cInt call.a1) call.a2 call.a3
      .value r.1 (cRet r.2)
  | .receive => sysReceive k c call.a1
  | .grant =>
      let r := actorDelegate k c (cInt call.a1) (cInt call.a2) (cInt call.a3)
      .value r.1 (cRet r.2)
  | .spawn =>
      let r := actorSpawnChild L k c call.a1.toNat
      .value r.1 (slotRet r.2)
  | .terminate =>
      let r := actorTerminate k c (cInt call.a1)
      .value r.1 (cRet r.2)
  | .objectRead =>
      guarded k c capReadObject (cInt call.a1)
        (sysObjectRead k (cInt call.a1) call.a2 (cUint call.a3))
  | .objectWrite =>
      guarded k c capWriteObject (cInt call.a1)
        (.stored k (storageWrite k.store (cInt call.a1) (userBytes k c call.a2)
          (cUint call.a3)))
  | .objectPromote =>
      guarded k c capPromoteObject 0 (.stored k (storagePromote k.store (cInt call.a1)))
  | .objectReject =>
      guarded k c capPromoteObject 0 (.stored k (storageReject k.store (cInt call.a1)))
  | .netSend =>
      guarded k c capNet 0
        (.device k (netSendMessage hal k.net k.dev (BitVec.ofNat 64 c) call.a1 call.a2))
  | .netReceive =>
      guarded k c capNet 0 (sysNetReceive hal k c call.a1 (cUint call.a2))
  | .netSendTo =>
      guarded k c capNet 0
        (.device k (netSendMessageTo hal k.net k.dev (BitVec.ofNat 64 c) (unpackMac call.a3)
          call.a1 call.a2))
  | .netSendReliable =>
      guarded k c capNet 0 (sysNetSendReliable hal k c call.a1 call.a2 call.a3)
  | .spawnProgram =>
      guarded k c capReadObject (cInt call.a1)
        (let r := loaderSpawnProgram L k c (cInt call.a1)
         .value r.1 (slotRet r.2))
  | .lookupName =>
      .value k (cRet (storageLookupByName k.store (userBytes k c call.a1)))
  | .listObjects =>
      guarded k c capListNames 0 (sysListObjects k (cInt call.a1) call.a2 call.residue)
  | .createName =>
      guarded k c capCreateObject 0 (sysCreateName k c (userBytes k c call.a1))
  | .renameObject =>
      guarded k c capRenameObject (cInt call.a1)
        (.stored k (storageRename k.store (cInt call.a1) (userBytes k c call.a2)))
  | .deleteName =>
      guarded k c capDeleteObject (cInt call.a1)
        (.stored k (storageDelete k.store (cInt call.a1)))
  | .keyRead =>
      guarded k c capConsole 0 (.device k (hal.keyboardPoll k.dev))
  | .rtcRead =>
      let r := hal.rtcRead k.dev
      ⟨{ k with dev := r.1 }, some 0, rtcBytes call.a1 r.2, none⟩

/-- `syscall_handler`: an unknown number returns `-1`. -/
def syscallHandler (k : Kernel D) (c : Slot) (call : Call) : SysResult D :=
  match Syscall.decode call.num with
  | none => .value k (cRet (-1))
  | some call' => syscallDispatch L hal k c call call'

end Vajra
