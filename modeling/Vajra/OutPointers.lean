import Vajra.FreshOccupant
import Vajra.StoreOperations

/-!
# Pointers the kernel stores through

Five system calls store through a pointer of their caller, at CPL 0 and unchecked.  Here
physical memory holds the kernel's own tables (`physical`), a call's bytes go wherever the
caller's page tables lead at CPL 0 (`rawMemory`), and the machine with such stores is
`rawStep`.

A call's stores are confined to the caller's own user-writable memory exactly when the
buffer it fills, known from its arguments and the state before it (`outAddresses`), lies in
`.user_text`, in the caller's stack page or in its program (`OwnBuffer`).  As long as all
calls keep to that, the raw machine is the machine of the other files
(`rawRun_run`); the first that does not can overwrite a page table
(`rtc_read_overwrites_page_table`).
-/

namespace Vajra

open ByteMemory TransitionTrace

variable {D : Type}

def actorRecordSize : Nat := 416
def objectRecordSize : Nat := 40

/-- Byte `i` of a C `int`. -/
def intByte (v : Int) (i : Nat) : UInt8 := leByte (BitVec.ofInt 32 v).toNat i

def actorStateNumber : ActorState → Nat
  | .dead => 0
  | .ready => 1
  | .running => 2
  | .blocked => 3

/-- Byte `off` of a `struct message`. -/
def messageByte (m : Message) (off : Nat) : UInt8 :=
  if off < 8 then leByte m.type.toNat off
  else if off < 16 then leByte m.sender.toNat (off - 8)
  else leByte m.data.toNat (off - 16)

/-- Byte `off` of a `struct capability`. -/
def capabilityByte (c : Capability) (off : Nat) : UInt8 :=
  if off < 4 then intByte c.op off else intByte c.target (off - 4)

/-- Byte `off` of a `struct actor`; the saved stack pointer and the padding are not
modelled as numbers. -/
def actorByte (a : Actor) (off : Nat) : Option UInt8 :=
  if off < 8 then none
  else if off < 16 then some (leByte a.cr3 (off - 8))
  else if off < 20 then some (leByte (actorStateNumber a.state) (off - 16))
  else if off < 24 then none
  else if off < 32 then some (leByte (a.stackPage.getD 0) (off - 24))
  else if off < 40 then some (leByte a.entry (off - 32))
  else if off < 232 then some (messageByte (a.mailbox ((off - 40) / 24)) ((off - 40) % 24))
  else if off < 236 then some (leByte a.mailboxHead (off - 232))
  else if off < 240 then some (leByte a.mailboxCount (off - 236))
  else if off < 400 then
    some (capabilityByte (a.caps.getD ((off - 240) / 8) .empty) ((off - 240) % 8))
  else if off < 404 then some (intByte a.spawnCount (off - 400))
  else if off < 408 then some (intByte a.spawnQuota (off - 404))
  else if off < 412 then some (intByte a.window (off - 408))
  else none

/-- Byte `off` of a `struct object`. -/
def objectByte (obj : Object) (off : Nat) : Option UInt8 :=
  if off < 4 then some (leByte obj.inUse off)
  else if off < 20 then some (obj.name (off - 4))
  else if off < 24 then none
  else if off < 32 then some (leByte obj.lba (off - 24))
  else if off < 36 then some (leByte obj.sizeBytes (off - 32))
  else some (leByte obj.trust (off - 36))

/-- Where the linker puts `actors` and `objects`: in the kernel image, below 1MB and not in
`.user_text`. -/
structure Statics (L : Layout) where
  actors : Nat
  objects : Nat
  actors_low : actors + maxActors * actorRecordSize ≤ commonsEnd
  objects_low : objects + maxObjects * objectRecordSize ≤ commonsEnd
  actors_not_text : ∀ x, actors ≤ x → x < actors + maxActors * actorRecordSize →
    ¬ IsUserText L x
  objects_not_text : ∀ x, objects ≤ x → x < objects + maxObjects * objectRecordSize →
    ¬ IsUserText L x

variable {L : Layout}

/-- A byte of the actor table, capability tables included. -/
def Statics.InActors (S : Statics L) (x : Nat) : Prop :=
  S.actors ≤ x ∧ x < S.actors + maxActors * actorRecordSize

/-- A byte of the object table. -/
def Statics.InObjects (S : Statics L) (x : Nat) : Prop :=
  S.objects ≤ x ∧ x < S.objects + maxObjects * objectRecordSize

instance (S : Statics L) (x : Nat) : Decidable (S.InActors x) :=
  inferInstanceAs (Decidable (_ ∧ _))
instance (S : Statics L) (x : Nat) : Decidable (S.InObjects x) :=
  inferInstanceAs (Decidable (_ ∧ _))

/-- A byte of the actor table, the object table or a page table. -/
def Statics.TableByte (S : Statics L) (x : Nat) : Prop :=
  S.InActors x ∨ S.InObjects x ∨ ∃ t, L.table t ≤ x ∧ x < L.table t + pageSize

/-- The slot of record `i` of the actor table. -/
def slotAt (i : Nat) : Slot := ⟨i % maxActors, Nat.mod_lt i (by decide)⟩

/-- Physical memory with the kernel's tables in it. -/
def physical (S : Statics L) (k : Kernel D) : Mem := fun x =>
  if S.InActors x then
    (actorByte (k.actors (slotAt ((x - S.actors) / actorRecordSize)))
      ((x - S.actors) % actorRecordSize)).getD (k.memory.ram x)
  else if S.InObjects x then
    (objectByte (k.store.objects ((x - S.objects) / objectRecordSize))
      ((x - S.objects) % objectRecordSize)).getD (k.memory.ram x)
  else k.memory.ram x

/-- The physical address of a store at CPL 0: any mapping will do. -/
def storedAt (ram : Mem) (cr3 va : Nat) : Option Nat :=
  (walk ram cr3 va).map fun leaf => leaf.page + va % pageSize

/-- The physical stores of a call, up to the first that faults. -/
def rawStores (ram : Mem) (cr3 : Nat) : List (Nat × UInt8) → List (Nat × UInt8)
  | [] => []
  | b :: rest =>
      match storedAt ram cr3 b.1 with
      | none => []
      | some p => (p, b.2) :: rawStores ram cr3 rest

/-- What an event of `c` hands back: the result of the system call it makes or resumes. -/
def eventResult (L : Layout) (hal : Hal D) (k : Kernel D) (c : Slot) : Event D → SysResult D
  | .syscall call => syscallHandler L hal k c call
  | .resume =>
      match (k.actors c).context with
      | .receiving out => sysReceive k c out
      | _ => .switched k
  | _ => .switched k

/-- Physical memory after an event: its effect on the kernel, and its stores. -/
def rawMemory (S : Statics L) (k : Kernel D) (c : Slot) (r : SysResult D) : Mem :=
  writeBytes (physical S r.kernel) (rawStores k.memory.ram (k.actors c).cr3 r.out)

/-- The stores of an event are confined: each goes to memory that is open to the caller for
writing, and the tables are as the effect of the event leaves them. -/
structure OutConfined (S : Statics L) (k : Kernel D) (c : Slot) (r : SysResult D) : Prop where
  writable : ∀ b ∈ r.out, ∃ page, UserWritable k.memory.ram (k.actors c).cr3 b.1 page
  tables : ∀ x, S.TableByte x → rawMemory S k c r x = physical S r.kernel x

/-- The addresses of a buffer of `n` bytes. -/
def buffer (p : Word) (off n : Nat) : List Nat :=
  (List.range n).map fun i => (p.toNat + off + i) % 2 ^ 64

/-- The message `SYS_RECEIVE` stores, if there is one. -/
def receiveBuffer (k : Kernel D) (c : Slot) (out : Word) : List Nat :=
  if (k.actors c).mailboxCount = 0 then [] else buffer out 0 24

/-- The addresses an event of `c` stores to, from its arguments and the state before it. -/
def outAddresses (hal : Hal D) (k : Kernel D) (c : Slot) : Event D → List Nat
  | .syscall call =>
      match Syscall.decode call.num with
      | some .receive => receiveBuffer k c call.a1
      | some .objectRead =>
          if actorHasCap k c capReadObject (cInt call.a1) ∧ k.store.Readable (cInt call.a1) ∧
              k.store.disk.outcome k.store.disk.requests = .ok then
            buffer call.a2 0
              (min (k.store.objects (cInt call.a1).toNat).sizeBytes (cUint call.a3))
          else []
      | some .netReceive =>
          if actorHasCap k c capNet 0 ∧ (netPollReceiveMessage hal k.net k.dev (BitVec.ofNat 64 c)
              (cUint call.a2)).2.2.isSome then
            buffer call.a1 0 30
          else []
      | some .listObjects =>
          if actorHasCap k c capListNames 0 ∧
              (storageGetByIndex k.store (cInt call.a1) call.residue).isSome then
            buffer call.a2 0 28
          else []
      | some .rtcRead => buffer call.a1 0 5 ++ buffer call.a1 6 2
      | _ => []
  | .resume =>
      match (k.actors c).context with
      | .receiving out => receiveBuffer k c out
      | _ => []
  | _ => []

/-- An address of `.user_text`, of the actor's stack page or of its program. -/
def OwnAddress (L : Layout) (a : Actor) (prog : Option (Nat × Nat)) (va : Nat) : Prop :=
  IsUserText L va ∨
  (∃ page, a.stackPage = some page ∧ page ≤ va ∧ va < page + pageSize) ∨
  ∃ phys size, prog = some (phys, size) ∧ programVbase ≤ va ∧ va < programVbase + size

/-- The buffer an event fills is the caller's own memory; `tr` is the run so far. -/
def OwnBuffer (L : Layout) (hal : Hal D) (tr : List (Record D)) (k : Kernel D) (c : Slot)
    (e : Event D) : Prop :=
  ∀ va ∈ outAddresses hal k c e, OwnAddress L (k.actors c) (programOf L tr c) va

/-- Every step of a run fills buffers of its caller only. -/
def OwnBuffers (L : Layout) (hal : Hal D) : List (Record D) → Prop
  | [] => True
  | t :: tr =>
      (∀ c, t.pre.current = some c → OwnBuffer L hal tr t.pre c t.event) ∧ OwnBuffers L hal tr

/-- Store the bytes of a call's result at CPL 0; a store that is not mapped is a fault. -/
def rawCommit (k : Kernel D) (c : Slot) (out : List (Nat × UInt8)) : Kernel D :=
  let ram := writeBytes k.memory.ram (rawStores k.memory.ram (k.actors c).cr3 out)
  { k with
    memory := { k.memory with ram := ram }
    mode := if ∀ b ∈ out, (storedAt k.memory.ram (k.actors c).cr3 b.1).isSome then k.mode
            else .panicked }

/-- One event of the machine whose calls store unchecked.  Stores to page tables take effect
for the steps that follow; what a store does to the actor and object tables shows in
`rawMemory`. -/
def rawStep (L : Layout) (hal : Hal D) (k : Kernel D) (e : Event D) :
    Option (Kernel D × Outcome) :=
  match k.current, e with
  | some c, .syscall _ | some c, .resume =>
      (step L hal k e).map fun r =>
        (rawCommit (eventResult L hal k c e).kernel c (eventResult L hal k c e).out, r.2)
  | _, _ => step L hal k e

/-- A run of the machine whose calls store unchecked. -/
abbrev RawRun (L : Layout) (hal : Hal D) (b : Boot D) (tr : List (Record D)) (k : Kernel D) :
    Prop :=
  Trace (rawStep L hal) (bootState L b) tr k

theorem outAt_addresses (p : Word) (off : Nat) (bytes : List UInt8) :
    (outAt p off bytes).map Prod.fst = buffer p off bytes.length := by
  have hidx : bytes.zipIdx.map Prod.snd = List.range bytes.length := by
    rw [List.zipIdx_map_snd, List.range_eq_range']
  rw [buffer, ← hidx, outAt, List.map_map, List.map_map]
  rfl

theorem sysReceive_addresses (k : Kernel D) (c : Slot) (out : Word) :
    (sysReceive k c out).out.map Prod.fst = receiveBuffer k c out := by
  unfold sysReceive actorReceive receiveBuffer
  by_cases hempty : (k.actors c).mailboxCount = 0
  · simp only [hempty, if_true]
    rfl
  · simp only [hempty, if_false, messageBytes]
    rw [outAt_addresses]
    rfl

/-- Every message the network hands over has a six-byte address. -/
theorem netPollReceiveMessage_mac (hal : Hal D) {net : Net} {dev : D} {slot : Word} {spins : Nat}
    {m : RawMessage} (h : (netPollReceiveMessage hal net dev slot spins).2.2 = some m) :
    m.senderMac.length = 6 := by
  unfold netPollReceiveMessage at h
  split at h
  · cases h
  · rename_i dev' rc raw hraw
    split at h
    · cases h
    · cases h
      unfold netPollReceiveRaw at hraw
      split at hraw
      · cases hraw
      · dsimp only at hraw
        split at hraw
        · cases hraw
        · split at hraw
          · cases hraw
          · simp only [Prod.mk.injEq, Option.some.injEq] at hraw
            simp [← hraw.2.2, decodeFrame]

/-- A guarded call stores nothing when it is refused. -/
theorem guarded_addresses (k : Kernel D) (c : Slot) (op target : Int) (r : SysResult D) :
    (guarded k c op target r).out.map Prod.fst =
      if actorHasCap k c op target then r.out.map Prod.fst else [] := by
  unfold guarded
  split
  · rfl
  · rfl

theorem sysObjectRead_addresses (k : Kernel D) (id : Int) (buf : Word) (len : Nat) :
    (sysObjectRead k id buf len).out.map Prod.fst =
      if k.store.Readable id ∧ k.store.disk.outcome k.store.disk.requests = .ok then
        buffer buf 0 (min (k.store.objects id.toNat).sizeBytes len)
      else [] := by
  unfold sysObjectRead
  by_cases hread : k.store.Readable id
  swap
  · rw [storageRead_refused hread, if_neg (fun h => hread h.1)]
    rfl
  rw [storageRead_readable hread]
  by_cases hok : k.store.disk.outcome k.store.disk.requests = .ok
  · rw [if_pos hok, if_pos ⟨hread, hok⟩]
    dsimp only
    rw [outAt_addresses]
    simp
  · rw [if_neg hok, if_neg (fun h => hok h.2)]
    rfl

theorem sysListObjects_addresses (k : Kernel D) (index : Int) (out : Word)
    (residue : Nat → UInt8) :
    (sysListObjects k index out residue).out.map Prod.fst =
      if (storageGetByIndex k.store index residue).isSome then buffer out 0 28 else [] := by
  unfold sysListObjects
  cases storageGetByIndex k.store index residue with
  | none => rfl
  | some info =>
      simp only [objectInfoBytes, Option.isSome_some, if_true]
      rw [outAt_addresses]
      simp [intBytes]

theorem sysNetReceive_addresses (hal : Hal D) (k : Kernel D) (c : Slot) (out : Word)
    (spins : Nat) :
    (sysNetReceive hal k c out spins).out.map Prod.fst =
      if (netPollReceiveMessage hal k.net k.dev (BitVec.ofNat 64 c) spins).2.2.isSome then
        buffer out 0 30
      else [] := by
  unfold sysNetReceive
  have hmac := @netPollReceiveMessage_mac D hal k.net k.dev (BitVec.ofNat 64 c) spins
  generalize netPollReceiveMessage hal k.net k.dev (BitVec.ofNat 64 c) spins = r at hmac
  obtain ⟨dev, rc, m⟩ := r
  cases m with
  | none => rfl
  | some m =>
      simp only [netMessageBytes, Option.isSome_some, if_true]
      rw [outAt_addresses]
      simp [wordBytes, hmac rfl]

/-- **The stores of a call are known before it.** -/
theorem eventResult_addresses (L : Layout) (hal : Hal D) (k : Kernel D) (c : Slot) (e : Event D) :
    (eventResult L hal k c e).out.map Prod.fst = outAddresses hal k c e := by
  cases e with
  | tick | store | device | fault => rfl
  | resume =>
      simp only [eventResult, outAddresses]
      cases (k.actors c).context with
      | trampoline | user => rfl
      | receiving out => exact sysReceive_addresses k c out
  | syscall call =>
      simp only [eventResult, outAddresses, syscallHandler]
      cases Syscall.decode call.num with
      | none => rfl
      | some sys =>
          cases sys with
          | receive => exact sysReceive_addresses k c call.a1
          | objectRead =>
              simp only [syscallDispatch, guarded_addresses, sysObjectRead_addresses]
              rw [← ite_and]
          | listObjects =>
              simp only [syscallDispatch, guarded_addresses, sysListObjects_addresses]
              rw [← ite_and]
          | netReceive =>
              simp only [syscallDispatch, guarded_addresses, sysNetReceive_addresses]
              rw [← ite_and]
          | rtcRead =>
              simp only [syscallDispatch, rtcBytes, List.map_append, outAt_addresses]
              rfl
          | write | yield | exit | send | grant | spawn | terminate | lookupName => rfl
          | objectWrite | objectPromote | objectReject | netSend | netSendTo | netSendReliable
          | spawnProgram | renameObject | deleteName | keyRead =>
              simp only [syscallDispatch, guarded_addresses]
              exact ite_self _
          | createName =>
              have hout : ∀ name, (sysCreateName k c name).out = [] := by
                intro name
                rcases sysCreateName_cases k c name with ⟨_, heq⟩ | ⟨_, heq⟩
                · rw [heq, SysResult.value]
                · rw [heq, SysResult.value]
              simp only [syscallDispatch, guarded_addresses, hout]
              exact ite_self _

/-- A call that stores leaves the page tables and the caller's root alone. -/
theorem eventResult_space (L : Layout) (hal : Hal D) (k : Kernel D) (c : Slot) (e : Event D) :
    (eventResult L hal k c e).out = [] ∨
    ((eventResult L hal k c e).kernel.memory = k.memory ∧
      ((eventResult L hal k c e).kernel.actors c).cr3 = (k.actors c).cr3) := by
  have hreceive : ∀ out, (sysReceive k c out).out = [] ∨
      ((sysReceive k c out).kernel.memory = k.memory ∧
        ((sysReceive k c out).kernel.actors c).cr3 = (k.actors c).cr3) := by
    intro out
    unfold sysReceive actorReceive
    by_cases hempty : (k.actors c).mailboxCount = 0
    · simp only [hempty, if_true]
      exact Or.inl rfl
    · simp only [hempty, if_false]
      exact Or.inr ⟨rfl, by simp [dequeue]⟩
  by_cases hnone : (eventResult L hal k c e).out = []
  · exact Or.inl hnone
  refine Or.inr ?_
  cases e with
  | tick | store | device | fault => exact absurd rfl hnone
  | resume =>
      simp only [eventResult] at hnone ⊢
      split at hnone
      · rename_i out _
        exact (hreceive out).resolve_left hnone
      · exact absurd rfl hnone
  | syscall call =>
      simp only [eventResult, syscallHandler] at hnone ⊢
      cases hdecode : Syscall.decode call.num with
      | none => exact ⟨rfl, rfl⟩
      | some sys =>
          rw [hdecode] at hnone
          dsimp only at hnone ⊢
          by_cases hquiet : sys.quiet = true
          · have hsame := syscallDispatch_untouched L hal k c call hquiet
            exact ⟨hsame.memory, by rw [hsame.actors]⟩
          · have haddr := eventResult_addresses L hal k c (.syscall call)
            simp only [eventResult, syscallHandler, outAddresses, hdecode] at haddr
            cases sys with
            | receive => exact (hreceive call.a1).resolve_left hnone
            | yield | exit | send | grant | spawn | terminate | spawnProgram | createName =>
                exact absurd (List.map_eq_nil_iff.mp haddr) hnone
            | _ => exact absurd rfl hquiet

/-- The memory an actor may store to is its own. -/
theorem MemInv.ownAddress_iff {prog : Slot → Option (Nat × Nat)} {k : Kernel D}
    (h : MemInv L prog k) {c : Slot} (hs : k.Live c) (va : Nat) :
    (∃ page, UserWritable k.memory.ram (k.actors c).cr3 va page) ↔
      OwnAddress L (k.actors c) (prog c) va := by
  obtain ⟨page, hspace⟩ := h.space c hs
  constructor
  · rintro ⟨p, hp⟩
    have hvisible := (h.userWritable_iff hs hspace va p).mp hp
    generalize hprog : prog c = pr at hvisible
    cases hvisible with
    | text htext => exact Or.inl htext
    | stack h1 h2 => exact Or.inr (Or.inl ⟨page, hspace.stack, h1, h2⟩)
    | program h1 h2 => exact Or.inr (Or.inr ⟨_, _, rfl, h1, h2⟩)
  · rintro (htext | ⟨page', hpage, h1, h2⟩ | ⟨phys, size, hprog, h1, h2⟩)
    · exact ⟨_, (h.userWritable_iff hs hspace va _).mpr (.text htext)⟩
    · rw [hspace.stack, Option.some.injEq] at hpage
      subst hpage
      exact ⟨_, (h.userWritable_iff hs hspace va _).mpr (.stack h1 h2)⟩
    · refine ⟨phys + (va - programVbase) / pageSize * pageSize,
        (h.userWritable_iff hs hspace va _).mpr ?_⟩
      rw [hprog]
      exact .program h1 h2

theorem storedAt_of_userWritable {ram : Mem} {cr3 va page : Nat}
    (h : UserWritable ram cr3 va page) : storedAt ram cr3 va = some (page + va % pageSize) := by
  obtain ⟨leaf, hleaf, _, _, rfl⟩ := h
  rw [storedAt, hleaf]
  rfl

/-- Every byte of a table is a kernel byte. -/
theorem Statics.TableByte.kernelByte {S : Statics L} {x : Nat} (h : S.TableByte x) :
    KernelByte L x := by
  rcases h with ⟨h1, h2⟩ | ⟨h1, h2⟩ | ⟨t, h1, h2⟩
  · exact ⟨Nat.lt_of_lt_of_le h2 S.actors_low, S.actors_not_text x h1 h2⟩
  · exact ⟨Nat.lt_of_lt_of_le h2 S.objects_low, S.objects_not_text x h1 h2⟩
  · exact table_kernelByte L t h1 h2

/-- What an actor may store to is no kernel byte. -/
theorem MemInv.userWritable_not_kernelByte {prog : Slot → Option (Nat × Nat)} {k : Kernel D}
    (h : MemInv L prog k) {c : Slot} (hs : k.Live c) {va page : Nat}
    (hw : UserWritable k.memory.ram (k.actors c).cr3 va page) :
    ¬ KernelByte L (page + va % pageSize) := by
  obtain ⟨stack, hspace⟩ := h.space c hs
  have hvisible := (h.userWritable_iff hs hspace va page).mp hw
  refine hvisible.not_kernelByte (h.stack c stack hspace.stack).2.1 ?_
  intro phys size hprog
  exact Nat.le_trans (by decide) (h.pages c hs phys size hprog).high

/-- The stores of a call whose buffers are the caller's own miss every kernel byte. -/
theorem MemInv.rawStores_not_kernelByte {prog : Slot → Option (Nat × Nat)} {k : Kernel D}
    (h : MemInv L prog k) {c : Slot} (hs : k.Live c) {out : List (Nat × UInt8)}
    (hown : ∀ b ∈ out, ∃ page, UserWritable k.memory.ram (k.actors c).cr3 b.1 page)
    {b : Nat × UInt8} (hb : b ∈ rawStores k.memory.ram (k.actors c).cr3 out) :
    ¬ KernelByte L b.1 := by
  induction out with
  | nil => cases hb
  | cons first rest ih =>
      obtain ⟨page, hpage⟩ := hown first List.mem_cons_self
      rw [rawStores, storedAt_of_userWritable hpage] at hb
      rcases List.mem_cons.mp hb with rfl | hb
      · exact h.userWritable_not_kernelByte hs hpage
      · exact ih (fun b hb => hown b (List.mem_cons_of_mem _ hb)) hb

/-- **A call is confined exactly when it fills buffers of its caller.** -/
theorem MemInv.outConfined_iff (S : Statics L) (hal : Hal D) {tr : List (Record D)} {k : Kernel D}
    (h : MemInv L (programOf L tr) k) {c : Slot} (hs : k.Live c) (e : Event D) :
    OutConfined S k c (eventResult L hal k c e) ↔ OwnBuffer L hal tr k c e := by
  have haddr := eventResult_addresses L hal k c e
  constructor
  · intro hconfined va hva
    rw [← haddr, List.mem_map] at hva
    obtain ⟨b, hb, rfl⟩ := hva
    exact (h.ownAddress_iff hs b.1).mp (hconfined.writable b hb)
  · intro hown
    have hwritable : ∀ b ∈ (eventResult L hal k c e).out,
        ∃ page, UserWritable k.memory.ram (k.actors c).cr3 b.1 page := by
      intro b hb
      refine (h.ownAddress_iff hs b.1).mpr (hown b.1 ?_)
      rw [← haddr]
      exact List.mem_map_of_mem hb
    refine ⟨hwritable, fun x hx => writeBytes_outside fun b hb heq => ?_⟩
    exact h.rawStores_not_kernelByte hs hwritable hb (heq ▸ hx.kernelByte)

/-- Stores to the caller's own memory go where they went before another of them. -/
theorem MemInv.rawStores_congr {prog : Slot → Option (Nat × Nat)} {k : Kernel D}
    (h : MemInv L prog k) {c : Slot} (hs : k.Live c) {out : List (Nat × UInt8)}
    (hown : ∀ b ∈ out, OwnAddress L (k.actors c) (prog c) b.1) {ram : Mem}
    (hram : SameKernel L k.memory.ram ram) :
    rawStores ram (k.actors c).cr3 out = rawStores k.memory.ram (k.actors c).cr3 out := by
  obtain ⟨stack, hspace⟩ := h.space c hs
  have hnew := h.withRam hram
  obtain ⟨stack', hspace'⟩ := hnew.space c hs
  have heq : stack' = stack := Option.some.inj (hspace'.stack.symm.trans hspace.stack)
  subst heq
  induction out with
  | nil => rfl
  | cons b rest ih =>
      obtain ⟨page, hpage⟩ := (h.ownAddress_iff hs b.1).mpr (hown b List.mem_cons_self)
      have hpage' : UserWritable ram (k.actors c).cr3 b.1 page :=
        (hnew.userWritable_iff hs hspace' b.1 page).mpr
          ((h.userWritable_iff hs hspace b.1 page).mp hpage)
      rw [rawStores, rawStores, storedAt_of_userWritable hpage, storedAt_of_userWritable hpage']
      dsimp only
      rw [ih fun b hb => hown b (List.mem_cons_of_mem _ hb)]

/-- Stores to the caller's own memory are the ones ring 3 could make itself. -/
theorem commitOut_eq_writeBytes {prog : Slot → Option (Nat × Nat)} {k : Kernel D}
    (h : MemInv L prog k) {c : Slot} (hs : k.Live c) {out : List (Nat × UInt8)}
    (hown : ∀ b ∈ out, OwnAddress L (k.actors c) (prog c) b.1) :
    (commitOut k c out).memory.ram =
      writeBytes k.memory.ram (rawStores k.memory.ram (k.actors c).cr3 out) := by
  induction out generalizing k with
  | nil => rfl
  | cons b rest ih =>
      have hrest : ∀ b ∈ rest, OwnAddress L (k.actors c) (prog c) b.1 :=
        fun b hb => hown b (List.mem_cons_of_mem _ hb)
      obtain ⟨page, hpage⟩ := (h.ownAddress_iff hs b.1).mpr (hown b List.mem_cons_self)
      have hfirst := h.pokeUser hs b.1 b.2
      have hpoke : pokeUser k.memory.ram (k.actors c).cr3 b.1 b.2 =
          Function.update k.memory.ram (page + b.1 % pageSize) b.2 := by
        obtain ⟨leaf, hleaf, huser, hwritable, rfl⟩ := hpage
        simp [pokeUser, hleaf, huser, hwritable]
      rw [hpoke] at hfirst
      have hnext := ih (h.withRam hfirst) hs hrest
      dsimp only at hnext
      rw [h.rawStores_congr hs hrest hfirst] at hnext
      rw [rawStores, storedAt_of_userWritable hpage]
      simp only [writeBytes, List.foldl_cons] at hnext ⊢
      rw [← hnext]
      simp only [commitOut, List.foldl_cons, hpoke]

/-- A call that keeps to the caller's own memory does on the raw machine what it does on
the checked one; `k1` is what the call has made of `k` before it stores. -/
theorem rawCommit_eq_commitOut {prog : Slot → Option (Nat × Nat)} {k k1 : Kernel D}
    (h : MemInv L prog k) {c : Slot} (hs : k.Live c) {out : List (Nat × UInt8)}
    (hown : ∀ b ∈ out, OwnAddress L (k.actors c) (prog c) b.1) (hmem : k1.memory = k.memory)
    (hroot : (k1.actors c).cr3 = (k.actors c).cr3) :
    rawCommit k1 c out = commitOut k1 c out := by
  have hmapped : ∀ b ∈ out, (storedAt k.memory.ram (k.actors c).cr3 b.1).isSome = true := by
    intro b hb
    obtain ⟨page, hpage⟩ := (h.ownAddress_iff hs b.1).mpr (hown b hb)
    rw [storedAt_of_userWritable hpage]
    rfl
  have hram := commitOut_eq_writeBytes h hs hown
  simp only [rawCommit, commitOut, hmem, hroot] at hram ⊢
  rw [if_pos hmapped, hram]

/-- A system call that is made or resumed ends with its result. -/
theorem step_eq_finish {hal : Hal D} {k k' : Kernel D} {c : Slot} {e : Event D} {o : Outcome}
    (hcur : k.current = some c) (he : e = .resume ∨ ∃ call, e = .syscall call)
    (h : step L hal k e = some (k', o)) : (eventResult L hal k c e).finish c = (k', o) := by
  unfold step at h
  split at h
  swap
  · cases h
  rw [hcur] at h
  dsimp only at h
  rcases he with rfl | ⟨call, rfl⟩
  · cases hctx : (k.actors c).context with
    | receiving out => simpa [hctx, actorStep, eventResult] using h
    | trampoline | user => simp [hctx, actorStep] at h
  · cases hctx : (k.actors c).context with
    | user => simpa [hctx, actorStep, eventResult] using h
    | trampoline | receiving out => simp [hctx, actorStep] at h

/-- **A step that fills buffers of its caller is a step of the checked machine.** -/
theorem step_of_rawStep {hal : Hal D} {tr : List (Record D)} {k k' : Kernel D} {e : Event D}
    {o : Outcome} (h : MemInv L (programOf L tr) k)
    (hlive : ∀ c, k.mode = .running → k.current = some c → k.Live c)
    (hown : ∀ c, k.current = some c → OwnBuffer L hal tr k c e)
    (hstep : rawStep L hal k e = some (k', o)) : step L hal k e = some (k', o) := by
  -- What the raw machine does for a call it makes or resumes.
  have hcall : ∀ c, k.current = some c → (e = .resume ∨ ∃ call, e = .syscall call) →
      (step L hal k e).map (fun r =>
        (rawCommit (eventResult L hal k c e).kernel c (eventResult L hal k c e).out, r.2)) =
        some (k', o) → step L hal k e = some (k', o) := by
    intro c hcur he hmap
    obtain ⟨⟨k1, o1⟩, hk1, heq⟩ := Option.map_eq_some_iff.mp hmap
    obtain ⟨c', hmode, _, _⟩ := step_stepped hk1
    have hfinish := step_eq_finish hcur he hk1
    have hbytes : ∀ b ∈ (eventResult L hal k c e).out,
        OwnAddress L (k.actors c) (programOf L tr c) b.1 := by
      intro b hb
      apply hown c hcur
      rw [← eventResult_addresses L hal k c e]
      exact List.mem_map_of_mem hb
    have hcommit : rawCommit (eventResult L hal k c e).kernel c (eventResult L hal k c e).out =
        commitOut (eventResult L hal k c e).kernel c (eventResult L hal k c e).out := by
      rcases eventResult_space L hal k c e with hnone | ⟨hmem, hroot⟩
      · rw [hnone]
        simp [rawCommit, rawStores, writeBytes]
      · exact rawCommit_eq_commitOut h (hlive c hmode hcur) hbytes hmem hroot
    rw [hk1]
    rw [hcommit] at heq
    simp only [SysResult.finish, Prod.mk.injEq] at hfinish heq
    rw [← hfinish.1, heq.1, ← heq.2]
  unfold rawStep at hstep
  split at hstep
  · rename_i c call hcur
    exact hcall c hcur (Or.inr ⟨call, rfl⟩) hstep
  · rename_i c hcur
    exact hcall c hcur (Or.inl rfl) hstep
  · exact hstep

/-- **While every call fills buffers of its caller, a run of the raw machine is a run of
the checked one.** -/
theorem rawRun_run {hal : Hal D} {b : Boot D} {tr : List (Record D)} {k : Kernel D}
    (hrun : RawRun L hal b tr k) (hown : OwnBuffers L hal tr) : Run L hal b tr k := by
  induction hrun with
  | nil => exact Trace.nil
  | snoc before hstep ih =>
      have hbefore := ih hown.2
      exact Trace.snoc hbefore (step_of_rawStep (run_mem hbefore)
        (fun c hmode hcur => (run_sched hbefore).current_live hmode hcur) hown.1 hstep)

/-- **Out-pointer confinement while the callers keep to it.**  In every run of the machine
whose calls store unchecked: if every call so far filled a buffer of its caller's own memory,
each of them stored to memory open to its caller for writing only, and left the actor table,
the capability tables, the object table and the page tables as its effect on the kernel
leaves them; and the next event will be confined in the same way exactly when it, too, fills
a buffer of its caller's own memory. -/
theorem out_pointers_confined (S : Statics L) {hal : Hal D} {b : Boot D} {tr : List (Record D)}
    {k : Kernel D} (hrun : RawRun L hal b tr k) (hown : OwnBuffers L hal tr) :
    (∀ t ∈ tr, ∀ c, t.pre.current = some c →
      OutConfined S t.pre c (eventResult L hal t.pre c t.event)) ∧
    ∀ c e, k.mode = .running → k.current = some c →
      (OutConfined S k c (eventResult L hal k c e) ↔ OwnBuffer L hal tr k c e) := by
  have hnext : ∀ {tr : List (Record D)} {k : Kernel D}, Run L hal b tr k → ∀ c e,
      k.mode = .running → k.current = some c →
      (OutConfined S k c (eventResult L hal k c e) ↔ OwnBuffer L hal tr k c e) := by
    intro tr k hrun c e hmode hcur
    exact (run_mem hrun).outConfined_iff S hal ((run_sched hrun).current_live hmode hcur) e
  refine ⟨?_, hnext (rawRun_run hrun hown)⟩
  induction hrun with
  | nil => simp
  | @snoc tr k k' e o before hstep ih =>
      intro t ht c hcur
      rcases List.mem_cons.mp ht with rfl | hold
      · have hbefore := rawRun_run before hown.2
        have hstep' := step_of_rawStep (run_mem hbefore)
          (fun c hmode hcur => (run_sched hbefore).current_live hmode hcur) hown.1 hstep
        obtain ⟨_, hmode, _, _⟩ := step_stepped hstep'
        exact (hnext hbefore c e hmode hcur).mpr (hown.1 c hcur)
      · exact ih hown.2 t hold c hcur

theorem sampleLayout_not_text {x : Nat} (h : 0x24000 ≤ x) : ¬ IsUserText sampleLayout x := by
  simp only [IsUserText, sampleLayout]
  omega

/-- The sample image has its actor and object tables behind its ring-3 code. -/
def sampleStatics : Statics sampleLayout where
  actors := 0x24000
  objects := 0x28000
  actors_low := by decide
  objects_low := by decide
  actors_not_text _ h _ := sampleLayout_not_text h
  objects_not_text _ h _ := sampleLayout_not_text (Nat.le_trans (by decide) h)

set_option maxRecDepth 100000 in
/-- The first actor to run reads the clock into its own stack page. -/
theorem out_pointers_confined_own_stack :
    ∃ tr k, RawRun sampleLayout silentHal sampleBoot tr k ∧ OwnBuffers sampleLayout silentHal tr ∧
      ∃ t ∈ tr, t.pre.current = some 1 ∧
        outAddresses silentHal t.pre 1 t.event = buffer 0x101000 0 5 ++ buffer 0x101000 6 2 ∧
        OutConfined sampleStatics t.pre 1 (eventResult sampleLayout silentHal t.pre 1 t.event) := by
  have hrun : (runTrace (rawStep sampleLayout silentHal) [] (bootState sampleLayout sampleBoot)
      [sampleCall 24 0x101000 0 0]).map
      (fun r => r.1.map fun t => (t.pre.current, outAddresses silentHal t.pre 1 t.event,
        (t.pre.actors 1).stackPage)) =
      some [(some 1, buffer 0x101000 0 5 ++ buffer 0x101000 6 2, some 0x101000)] := by
    decide +kernel
  obtain ⟨tr, k, htrace, hview⟩ := exists_trace_of_runTrace hrun
  obtain ⟨t, rfl, ht⟩ := List.map_eq_singleton_iff.mp hview
  simp only [Prod.mk.injEq] at ht
  obtain ⟨hcur, haddr, hstack⟩ := ht
  have hown : OwnBuffers sampleLayout silentHal [t] := by
    refine ⟨fun c hc => ?_, trivial⟩
    rw [hcur, Option.some.injEq] at hc
    subst hc
    intro va hva
    rw [haddr] at hva
    have hrange : ∀ va ∈ buffer 0x101000 0 5 ++ buffer 0x101000 6 2,
        0x101000 ≤ va ∧ va < 0x101000 + pageSize := by
      decide
    exact Or.inr (Or.inl ⟨0x101000, hstack, hrange va hva⟩)
  exact ⟨[t], k, htrace, hown, t, List.mem_singleton_self t, hcur, haddr,
    (out_pointers_confined sampleStatics htrace hown).1 t (List.mem_singleton_self t) 1 hcur⟩

set_option maxRecDepth 100000 in
/-- The same actor reads the clock into its own top-level page table, whose first entry is
lost: the one that leads to all of its memory. -/
theorem rtc_read_overwrites_page_table :
    ∃ k, RawRun sampleLayout silentHal sampleBoot [] k ∧ k.current = some 1 ∧
      sampleLayout.table (.pml4 1) = 0x34000 ∧
      physical sampleStatics (eventResult sampleLayout silentHal k 1
        (sampleCall 24 0x34000 0 0)).kernel 0x34000 = 7 ∧
      rawMemory sampleStatics k 1 (eventResult sampleLayout silentHal k 1
        (sampleCall 24 0x34000 0 0)) 0x34000 = 0 ∧
      ¬ OutConfined sampleStatics k 1 (eventResult sampleLayout silentHal k 1
        (sampleCall 24 0x34000 0 0)) := by
  have hbytes : physical sampleStatics (eventResult sampleLayout silentHal
        (bootState sampleLayout sampleBoot) 1 (sampleCall 24 0x34000 0 0)).kernel 0x34000 = 7 ∧
      rawMemory sampleStatics (bootState sampleLayout sampleBoot) 1 (eventResult sampleLayout
        silentHal (bootState sampleLayout sampleBoot) 1 (sampleCall 24 0x34000 0 0)) 0x34000 =
        0 := by
    decide +kernel
  have hcur : (bootState sampleLayout sampleBoot).current = some 1 := by decide +kernel
  refine ⟨_, Trace.nil, hcur, by decide, hbytes.1, hbytes.2, fun hconfined => ?_⟩
  have htable : sampleStatics.TableByte 0x34000 :=
    Or.inr (Or.inr ⟨.pml4 1, by decide, by decide⟩)
  have hsame := hconfined.tables 0x34000 htable
  rw [hbytes.1, hbytes.2] at hsame
  exact absurd hsame (by decide)

end Vajra
