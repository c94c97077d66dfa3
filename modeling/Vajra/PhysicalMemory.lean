import Vajra.ByteMemory

/-!
# The physical page allocator (`core/memory.c`, `hal/x86_64/e820.c`)

Every page defaults to "used" in the bitmap and only whole pages inside a
usable region are cleared.  `allocPage` takes the page freed last, or else bumps
`nextFreePage` over the bitmap; `freePage` pushes on a list of at most 32
entries and leaves the bitmap bit set; the contiguous allocators scan the same
bitmap from their own start.  Every page handed out is zeroed in `ram`, the
physical memory itself.

The C statics and the physical memory are one record, `Memory`.  Addresses are
naturals; the two sums that can wrap on a hostile memory map are taken modulo
`2 ^ 64` as the C code's `uint64_t` does.
-/

namespace Vajra

open ByteMemory

def memBase : Nat := 0x100000
def memCap : Nat := 0x10000000
def pageSize : Nat := 4096
def fallbackTop : Nat := 0x1000000
def freeListCapacity : Nat := 32
/-- `PRIVATE_WINDOW_END`: the actor-private window is 1MB-2MB. -/
def privateWindowEnd : Nat := 0x200000

/-- One entry of the BIOS memory map. -/
structure E820Entry where
  base : Nat
  length : Nat
  type : Nat

/-- `struct hal_memory_region`. -/
structure Region where
  base : Nat
  length : Nat

/-- `hal_get_memory_map`: the usable entries in order, at most `maxRegions` of
them, or none at all when the firmware left no valid map. -/
def halGetMemoryMap (entries : Option (List E820Entry)) (maxRegions : Nat) : List Region :=
  match entries with
  | none => []
  | some es =>
      ((es.filter fun e => e.type = 1).take maxRegions).map fun e => ⟨e.base, e.length⟩

/-- The statics of `memory.c` and the physical memory they manage.  `bitmap i`
is true when page `i` above `memBase` is used; the head of `freeList` is the
entry pushed last. -/
structure Memory where
  bitmap : Nat → Bool
  nextFreePage : Nat
  memTop : Nat
  freeList : List Nat
  ram : Mem

/-- The bitmap index of an address. -/
def pageIndex (addr : Nat) : Nat := (addr - memBase) / pageSize

def alignUp (addr : Nat) : Nat := (addr + (pageSize - 1)) % 2 ^ 64 / pageSize * pageSize

def alignDown (addr : Nat) : Nat := addr / pageSize * pageSize

/-- `mark_range_free`: clear the bit of every whole page in `[base, top)`. -/
def markRangeFree (bitmap : Nat → Bool) (base top : Nat) : Nat → Bool :=
  let first := alignUp base
  let last := alignDown top
  if first ≥ last then bitmap
  else (List.range ((last - first) / pageSize)).foldl
    (fun bm k => Function.update bm (pageIndex (first + k * pageSize)) false) bitmap

/-- One turn of `memory_init`'s loop: clip a region to `[memBase, memCap)`, free
its whole pages and remember the highest end seen. -/
def addRegion (acc : (Nat → Bool) × Nat) (r : Region) : (Nat → Bool) × Nat :=
  let base := max r.base memBase
  let top := min ((r.base + r.length) % 2 ^ 64) memCap
  if base ≥ top then acc
  else (markRangeFree acc.1 base top, max acc.2 top)

/-- `memory_init`. -/
def memoryInit (regions : List Region) (ram : Mem) : Memory :=
  let unusable : Nat → Bool := fun _ => true
  match regions with
  | [] =>
      { bitmap := markRangeFree unusable memBase fallbackTop
        nextFreePage := memBase, memTop := fallbackTop, freeList := [], ram := ram }
  | _ =>
      let acc := regions.foldl addRegion (unusable, 0)
      if acc.2 ≤ memBase then
        { bitmap := markRangeFree acc.1 memBase fallbackTop
          nextFreePage := memBase, memTop := fallbackTop, freeList := [], ram := ram }
      else
        { bitmap := acc.1
          nextFreePage := memBase, memTop := acc.2, freeList := [], ram := ram }

/-- `hal_zero_page`: the CR3 switch around the loop only makes the page
addressable, so the effect is on the physical memory alone. -/
def halZeroPage (ram : Mem) (addr : Nat) : Mem := zeroRange ram addr pageSize

/-- `alloc_page`'s bump loop.  `fuel` bounds the pages left to look at. -/
def bumpScan : Nat → Memory → Memory × Option Nat
  | 0, m => (m, none)
  | fuel+1, m =>
      if m.nextFreePage < m.memTop then
        if m.bitmap (pageIndex m.nextFreePage) then
          bumpScan fuel { m with nextFreePage := m.nextFreePage + pageSize }
        else
          ({ m with
              bitmap := Function.update m.bitmap (pageIndex m.nextFreePage) true
              nextFreePage := m.nextFreePage + pageSize
              ram := halZeroPage m.ram m.nextFreePage },
            some m.nextFreePage)
      else (m, none)

/-- `alloc_page`; `none` is the null pointer. -/
def allocPage (m : Memory) : Memory × Option Nat :=
  match m.freeList with
  | addr :: rest => ({ m with freeList := rest, ram := halZeroPage m.ram addr }, some addr)
  | [] => bumpScan ((m.memTop - m.nextFreePage) / pageSize + 1) m

/-- `free_page`: a page that finds the list full is dropped. -/
def freePage (m : Memory) (addr : Nat) : Memory :=
  if m.freeList.length < freeListCapacity then { m with freeList := addr :: m.freeList } else m

/-- The scan of `find_and_claim_contig` for `count` consecutive free pages. -/
def contigScan (count : Nat) : Nat → Nat → Memory → Memory × Option Nat
  | 0, _, m => (m, none)
  | fuel+1, start, m =>
      if start + count * pageSize ≤ m.memTop then
        if (List.range count).all fun i => !m.bitmap (pageIndex start + i) then
          ({ m with
              bitmap := (List.range count).foldl
                (fun bm i => Function.update bm (pageIndex start + i) true) m.bitmap
              ram := (List.range count).foldl
                (fun ram i => halZeroPage ram (start + i * pageSize)) m.ram },
            some start)
        else contigScan count fuel (start + pageSize) m
      else (m, none)

/-- `find_and_claim_contig`. -/
def findAndClaimContig (m : Memory) (searchStart : Nat) (count : Int) : Memory × Option Nat :=
  if count ≤ 0 then (m, none)
  else contigScan count.toNat ((m.memTop - searchStart) / pageSize + 1) searchStart m

/-- `alloc_pages_contig`. -/
def allocPagesContig (m : Memory) (count : Int) : Memory × Option Nat :=
  findAndClaimContig m memBase count

/-- `alloc_dma_pages`: the search starts above the actor-private window. -/
def allocDmaPages (m : Memory) (count : Int) : Memory × Option Nat :=
  findAndClaimContig m privateWindowEnd count

end Vajra
