import Mathlib.Data.Fintype.Basic
import Vajra.PhysicalMemory

/-!
# Per-actor address spaces (`hal/x86_64/paging.c`)

Every actor slot owns four statically reserved page tables, and a shared pool
of two more serves the program windows.  All of them live in physical memory at
the addresses the linker gave them (`Layout`), and building an address space is
a sequence of 64-bit stores into that memory.

`walk` is the processor's side: the four-level translation of a virtual address,
with 2MB directory entries as leaves and permissions that are the conjunction
over every level.  `UserMapped` and `UserWritable` are what a ring-3 access is
allowed, and `peek` is what the kernel reads at ring 0 through the same tables.
-/

namespace Vajra

open ByteMemory

abbrev maxActors : Nat := 17
abbrev programPoolSize : Nat := 2
def pageDirPhysBase : Nat := 0x92000
def pageSize2M : Nat := 0x200000
def ptEntries : Nat := 512
/-- `COMMONS_END`, which must match `memBase`. -/
def commonsEnd : Nat := 0x100000
def programVbase : Nat := 0x10000000
def programWindowMax : Nat := 0x200000

/-- An index into the actor table. -/
abbrev Slot := Fin maxActors

/-- The statically reserved page tables of `paging.c`. -/
inductive TableId where
  | pml4 (slot : Slot)
  | pdpt (slot : Slot)
  | pd (slot : Slot)
  | pt0 (slot : Slot)
  | pt1 (index : Fin programPoolSize)
  deriving DecidableEq

/-- Where the linker put the tables and the ring-3 code.  Every table is its own
page of the kernel image below 1MB (`__attribute__((aligned(4096)))`), apart from
`.user_text` and from the page directory `boot.asm` left behind. -/
structure Layout where
  table : TableId → Nat
  userTextStart : Nat
  userTextEnd : Nat
  table_aligned : ∀ t, table t % pageSize = 0
  table_low : ∀ t, table t < commonsEnd
  table_injective : Function.Injective table
  table_not_text : ∀ t, ¬ (userTextStart ≤ table t ∧ table t < userTextEnd)
  table_not_boot : ∀ t, table t ≠ pageDirPhysBase
  text_start_aligned : userTextStart % pageSize = 0
  text_end_aligned : userTextEnd % pageSize = 0
  text_low : userTextEnd ≤ commonsEnd
  text_not_boot : ¬ (userTextStart ≤ pageDirPhysBase ∧ pageDirPhysBase < userTextEnd)

/-- The boot page directory: 128 supervisor 2MB entries, then nothing. -/
def bootDirEntry (i : Nat) : Nat := if i < 128 then i * pageSize2M + 0x83 else 0

/-- `boot.asm`'s `.map_pd_loop`, over the page it has just cleared. -/
def bootPageDirectory (ram : Mem) : Mem :=
  writeArray ram pageDirPhysBase ptEntries bootDirEntry

/-- Entry `i` of the table at `base`. -/
def tableEntry (ram : Mem) (base i : Nat) : Nat := read64 ram (base + 8 * i)

/-- The loop `for (i = 0; i < 512; i++) table[i] = 0`. -/
def clearTable (ram : Mem) (base : Nat) : Mem :=
  writeArray ram base ptEntries fun _ => 0

/-- `is_user_text`. -/
def IsUserText (L : Layout) (addr : Nat) : Prop :=
  L.userTextStart ≤ addr ∧ addr < L.userTextEnd

instance (L : Layout) (addr : Nat) : Decidable (IsUserText L addr) :=
  inferInstanceAs (Decidable (_ ∧ _))

/-- A commons entry: supervisor-only unless the page is `.user_text`. -/
def commonsEntry (L : Layout) (addr : Nat) : Nat :=
  addr ||| (if IsUserText L addr then 0x7 else 0x3)

/-- The turns of `for (off = 0; off < size; off += PAGE_SIZE_4K)`. -/
def pageCount (size : Nat) : Nat := (size + (pageSize - 1)) / pageSize

/-- The values of `off` in those turns. -/
def pageOffsets (size : Nat) : List Nat := (List.range (pageCount size)).map fun i => i * pageSize

/-- `hal_address_space_create`: rebuild slot's four tables from scratch and
return the address of its PML4, or nothing when the private range is outside
1MB-2MB.  A `Slot` is in range by its type. -/
def halAddressSpaceCreate (L : Layout) (ram : Mem) (slot : Slot)
    (privateBase privateSize : Nat) : Mem × Option Nat :=
  if privateBase < commonsEnd ∨ privateWindowEnd < (privateBase + privateSize) % 2 ^ 64 then
    (ram, none)
  else
    let pml4 := L.table (.pml4 slot)
    let pdpt := L.table (.pdpt slot)
    let pd := L.table (.pd slot)
    let pt0 := L.table (.pt0 slot)
    let cleared := clearTable (clearTable (clearTable (clearTable ram pml4) pdpt) pd) pt0
    -- 0-1MB: the kernel commons, one 4KB page at a time
    let commons := writeArray cleared pt0 (commonsEnd / pageSize) fun i =>
      commonsEntry L (i * pageSize)
    -- 1MB-2MB: this actor's own pages and nothing else
    let stacked := writeWords commons ((pageOffsets privateSize).map fun off =>
      (pt0 + 8 * ((privateBase + off) / pageSize), (privateBase + off) ||| 0x7))
    let rooted := writeWords stacked [(pd, pt0 ||| 0x7)]
    -- 2MB and up: the boot directory's own descriptors
    let copied := writeArray rooted (pd + 8) (ptEntries - 1) fun i =>
      tableEntry rooted pageDirPhysBase (i + 1)
    (writeWords copied [(pdpt, pd ||| 0x7), (pml4, pdpt ||| 0x7)], some pml4)

/-- `as_pt1_owner` and `as_pt1_pool_init_done`: which slot each program table
belongs to, `-1` for none, once the first call has initialised the pool. -/
structure ProgramPool where
  owner : Fin programPoolSize → Int
  initDone : Bool

/-- The pool as the first call to `hal_address_space_map_program` sees it. -/
def ProgramPool.ready (p : ProgramPool) : ProgramPool :=
  if p.initDone then p else { owner := fun _ => -1, initDone := true }

/-- The first pool entry that is the slot's own or free. -/
def ProgramPool.pick (p : ProgramPool) (slot : Slot) : Option (Fin programPoolSize) :=
  (List.finRange programPoolSize).find? fun i => p.owner i = (slot : Int) ∨ p.owner i = -1

/-- `hal_address_space_map_program`: map the program's pages at `programVbase`.
The result is `0` or `-1`; the CR3 reload at the end only flushes the TLB. -/
def halAddressSpaceMapProgram (L : Layout) (ram : Mem) (pool : ProgramPool) (slot : Slot)
    (physBase size : Nat) : Mem × ProgramPool × Int :=
  if size = 0 ∨ programWindowMax < size then (ram, pool, -1)
  else
    let pool := pool.ready
    match pool.pick slot with
    | none => (ram, pool, -1)
    | some index =>
        let pt1 := L.table (.pt1 index)
        let pd := L.table (.pd slot)
        let cleared := clearTable ram pt1
        let mapped := writeArray cleared pt1 (pageCount size) fun i =>
          (physBase + i * pageSize) ||| 0x7
        (writeWords mapped [(pd + 8 * (programVbase / pageSize2M), pt1 ||| 0x7)],
          { pool with owner := Function.update pool.owner index (slot : Int) }, 0)

def Present (entry : Nat) : Prop := entry % 2 = 1
def Writable (entry : Nat) : Prop := entry / 2 % 2 = 1
def User (entry : Nat) : Prop := entry / 4 % 2 = 1
def Huge (entry : Nat) : Prop := entry / 128 % 2 = 1

instance (e : Nat) : Decidable (Present e) := inferInstanceAs (Decidable (_ = _))
instance (e : Nat) : Decidable (Writable e) := inferInstanceAs (Decidable (_ = _))
instance (e : Nat) : Decidable (User e) := inferInstanceAs (Decidable (_ = _))
instance (e : Nat) : Decidable (Huge e) := inferInstanceAs (Decidable (_ = _))

/-- The physical page an entry points at (bits 12 to 51). -/
def entryPage (entry : Nat) : Nat := entry / pageSize % 2 ^ 40 * pageSize

/-- The 2MB frame a huge entry points at (bits 21 to 51). -/
def entryFrame2M (entry : Nat) : Nat := entry / pageSize2M % 2 ^ 31 * pageSize2M

/-- A successful translation: the physical 4KB page and what ring 3 may do. -/
structure Leaf where
  page : Nat
  user : Bool
  writable : Bool
  deriving DecidableEq

/-- An address the processor accepts at all: bits 48 to 63 copy bit 47. -/
def Canonical (va : Nat) : Prop := va < 2 ^ 47 ∨ (2 ^ 64 - 2 ^ 47 ≤ va ∧ va < 2 ^ 64)

instance (va : Nat) : Decidable (Canonical va) := inferInstanceAs (Decidable (_ ∨ _))

/-- The processor's four-level walk from `cr3`. -/
def walk (ram : Mem) (cr3 va : Nat) : Option Leaf :=
  let e4 := tableEntry ram (entryPage cr3) (va / 2 ^ 39 % 512)
  let e3 := tableEntry ram (entryPage e4) (va / 2 ^ 30 % 512)
  let e2 := tableEntry ram (entryPage e3) (va / 2 ^ 21 % 512)
  let e1 := tableEntry ram (entryPage e2) (va / 2 ^ 12 % 512)
  if ¬ Canonical va then none
  else if ¬ Present e4 then none
  else if ¬ Present e3 then none
  else if ¬ Present e2 then none
  else if Huge e2 then
    some { page := entryFrame2M e2 + va / pageSize % 512 * pageSize
           user := User e4 ∧ User e3 ∧ User e2
           writable := Writable e4 ∧ Writable e3 ∧ Writable e2 }
  else if ¬ Present e1 then none
  else
    some { page := entryPage e1
           user := User e4 ∧ User e3 ∧ User e2 ∧ User e1
           writable := Writable e4 ∧ Writable e3 ∧ Writable e2 ∧ Writable e1 }

/-- Ring 3 can reach the physical page `page` at `va`. -/
def UserMapped (ram : Mem) (cr3 va page : Nat) : Prop :=
  ∃ leaf, walk ram cr3 va = some leaf ∧ leaf.user = true ∧ leaf.page = page

/-- Ring 3 can store to the physical page `page` at `va`. -/
def UserWritable (ram : Mem) (cr3 va page : Nat) : Prop :=
  ∃ leaf, walk ram cr3 va = some leaf ∧ leaf.user = true ∧ leaf.writable = true ∧
    leaf.page = page

/-- The byte the kernel reads through `cr3` at `va`.  An access to an address
that is not mapped at all is a kernel page fault, which the machine models as
its own event, so the value read here does not matter. -/
def peek (ram : Mem) (cr3 va : Nat) : UInt8 :=
  match walk ram cr3 va with
  | none => 0
  | some leaf => ram (leaf.page + va % pageSize)

/-- Store one byte from ring 3: a store that the tables do not allow faults and
changes nothing. -/
def pokeUser (ram : Mem) (cr3 va : Nat) (b : UInt8) : Mem :=
  match walk ram cr3 va with
  | none => ram
  | some leaf =>
      if leaf.user ∧ leaf.writable then Function.update ram (leaf.page + va % pageSize) b
      else ram

end Vajra
