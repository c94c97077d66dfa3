import Vajra.PageAllocator

/-!
# The bitmap of the page allocator is never left

`memory.c` computes its bitmap indices in `uint64_t` and uses them unchecked on an array of
8192 bytes.  Here the same loops are written down once more so that they stop at the first
index outside the array (`none`).  They never stop: from `memory_init` on, each of them gives
the result of the plain loop.
-/

namespace Vajra

open ByteMemory

/-- The bits of `bitmap[BITMAP_SIZE]`. -/
def bitmapBits : Nat := 8192 * 8

/-- `(addr - MEM_BASE) / PAGE_SIZE + i` in `uint64_t`, if it is an index of the bitmap. -/
def bitIndex (addr i : Nat) : Option Nat :=
  let index := ((addr + (2 ^ 64 - memBase)) % 2 ^ 64 / pageSize + i) % 2 ^ 64
  if index < bitmapBits then some index else none

/-- `mark_range_free`. -/
def markRangeFreeChecked (bitmap : Nat → Bool) (base top : Nat) : Option (Nat → Bool) :=
  let first := alignUp base
  let last := alignDown top
  if first ≥ last then some bitmap
  else (List.range ((last - first) / pageSize)).foldlM
    (fun bm k => (bitIndex (first + k * pageSize) 0).map fun j => Function.update bm j false) bitmap

/-- One turn of the loop of `memory_init`. -/
def addRegionChecked (acc : (Nat → Bool) × Nat) (r : Region) : Option ((Nat → Bool) × Nat) :=
  let base := max r.base memBase
  let top := min ((r.base + r.length) % 2 ^ 64) memCap
  if base ≥ top then some acc
  else (markRangeFreeChecked acc.1 base top).map fun bm => (bm, max acc.2 top)

/-- The bitmap `memory_init` leaves. -/
def memoryInitChecked (regions : List Region) : Option (Nat → Bool) :=
  let unusable : Nat → Bool := fun _ => true
  match regions with
  | [] => markRangeFreeChecked unusable memBase fallbackTop
  | _ =>
      (regions.foldlM addRegionChecked (unusable, 0)).bind fun acc =>
        if acc.2 ≤ memBase then markRangeFreeChecked acc.1 memBase fallbackTop else some acc.1

/-- The loop of `alloc_page`. -/
def bumpScanChecked : Nat → Memory → Option (Memory × Option Nat)
  | 0, m => some (m, none)
  | fuel+1, m =>
      if m.nextFreePage < m.memTop then
        (bitIndex m.nextFreePage 0).bind fun j =>
          if m.bitmap j then
            bumpScanChecked fuel { m with nextFreePage := m.nextFreePage + pageSize }
          else
            some ({ m with
                bitmap := Function.update m.bitmap j true
                nextFreePage := m.nextFreePage + pageSize
                ram := halZeroPage m.ram m.nextFreePage },
              some m.nextFreePage)
      else some (m, none)

/-- `alloc_page`. -/
def allocPageChecked (m : Memory) : Option (Memory × Option Nat) :=
  match m.freeList with
  | _ :: _ => some (allocPage m)
  | [] => bumpScanChecked ((m.memTop - m.nextFreePage) / pageSize + 1) m

/-- The loop that looks for a used page among those from `start` on, and stops at one. -/
def allFreeChecked (bitmap : Nat → Bool) (start : Nat) : List Nat → Option Bool
  | [] => some true
  | i :: rest =>
      (bitIndex start i).bind fun j =>
        if bitmap j then some false else allFreeChecked bitmap start rest

/-- The scan of `find_and_claim_contig`. -/
def contigScanChecked (count : Nat) : Nat → Nat → Memory → Option (Memory × Option Nat)
  | 0, _, m => some (m, none)
  | fuel+1, start, m =>
      if start + count * pageSize ≤ m.memTop then
        (allFreeChecked m.bitmap start (List.range count)).bind fun free =>
          if free then
            ((List.range count).foldlM
              (fun bm i => (bitIndex start i).map fun j => Function.update bm j true)
              m.bitmap).map fun bm =>
                ({ m with
                    bitmap := bm
                    ram := (List.range count).foldl
                      (fun ram i => halZeroPage ram (start + i * pageSize)) m.ram },
                  some start)
          else contigScanChecked count fuel (start + pageSize) m
      else some (m, none)

/-- `find_and_claim_contig`. -/
def findAndClaimContigChecked (m : Memory) (searchStart : Nat) (count : Int) :
    Option (Memory × Option Nat) :=
  if count ≤ 0 then some (m, none)
  else contigScanChecked count.toNat ((m.memTop - searchStart) / pageSize + 1) searchStart m

/-- A page below the cap has its bit in the bitmap. -/
theorem bitIndex_eq {addr i : Nat} (hbase : memBase ≤ addr)
    (hcap : addr + i * pageSize < memCap) : bitIndex addr i = some (pageIndex addr + i) := by
  have hsub : (addr + (2 ^ 64 - memBase)) % 2 ^ 64 = addr - memBase := by
    simp only [memBase, memCap, pageSize] at *
    omega
  have hlt : pageIndex addr + i < bitmapBits := by
    simp only [pageIndex, bitmapBits, memBase, memCap, pageSize] at *
    omega
  have hmod : (pageIndex addr + i) % 2 ^ 64 = pageIndex addr + i := by
    apply Nat.mod_eq_of_lt
    simp only [bitmapBits] at hlt
    omega
  unfold bitIndex
  rw [hsub]
  dsimp only
  rw [show (addr - memBase) / pageSize = pageIndex addr from rfl, hmod, if_pos hlt]

/-- A fold whose steps all succeed. -/
theorem foldlM_some {α β : Type} {f : β → α → Option β} {g : β → α → β} {l : List α}
    (h : ∀ a ∈ l, ∀ b, f b a = some (g b a)) (b : β) : l.foldlM f b = some (l.foldl g b) := by
  induction l generalizing b with
  | nil => rfl
  | cons a rest ih =>
      rw [List.foldlM_cons, h a List.mem_cons_self b]
      exact ih (fun a' ha' => h a' (List.mem_cons_of_mem a ha')) (g b a)

/-- Below the cap, aligning upwards does not wrap. -/
theorem alignUp_spec {base : Nat} (h : base < memCap) :
    base ≤ alignUp base ∧ alignUp base % pageSize = 0 := by
  unfold alignUp
  simp only [memCap, pageSize] at *
  omega

/-- The pages of a range that has been clipped to memory the bitmap covers. -/
theorem markRangeFree_page {base top k : Nat} (hlt : base < top) (htop : top ≤ memCap) (hk : k < (alignDown top - alignUp base) / pageSize) :
    base ≤ alignUp base + k * pageSize ∧ alignUp base + k * pageSize + pageSize ≤ top ∧
      (alignUp base + k * pageSize) % pageSize = 0 := by
  obtain ⟨hup, haligned⟩ := alignUp_spec (Nat.lt_of_lt_of_le hlt htop)
  generalize alignUp base = first at *
  unfold alignDown at hk
  simp only [pageSize] at *
  omega

/-- `mark_range_free` on a range that has been clipped. -/
theorem markRangeFreeChecked_eq (bitmap : Nat → Bool) {base top : Nat} (hbase : memBase ≤ base)
    (hlt : base < top) (htop : top ≤ memCap) :
    markRangeFreeChecked bitmap base top = some (markRangeFree bitmap base top) := by
  unfold markRangeFreeChecked markRangeFree
  dsimp only
  split
  · rfl
  · refine foldlM_some (fun k hk bm => ?_) bitmap
    obtain ⟨hlow, hhigh, -⟩ := markRangeFree_page hlt htop (List.mem_range.mp hk)
    have hcap : alignUp base + k * pageSize + 0 * pageSize < memCap := by
      simp only [pageSize] at *
      omega
    rw [bitIndex_eq (Nat.le_trans hbase hlow) hcap, Nat.add_zero, Option.map_some]

theorem addRegionChecked_eq (acc : (Nat → Bool) × Nat) (r : Region) :
    addRegionChecked acc r = some (addRegion acc r) := by
  unfold addRegionChecked addRegion
  dsimp only
  split
  · rfl
  · rename_i hlt
    rw [markRangeFreeChecked_eq acc.1 (Nat.le_max_right _ _) (Nat.lt_of_not_le hlt)
      (Nat.min_le_right _ _)]
    rfl

/-- **`memory_init` stays in the bitmap**, whatever the memory map. -/
theorem memoryInitChecked_eq (regions : List Region) (ram : Mem) :
    memoryInitChecked regions = some (memoryInit regions ram).bitmap := by
  have hfallback : ∀ bm, markRangeFreeChecked bm memBase fallbackTop =
      some (markRangeFree bm memBase fallbackTop) :=
    fun bm => markRangeFreeChecked_eq bm (Nat.le_refl _) (by decide) (by decide)
  cases regions with
  | nil =>
      simp only [memoryInitChecked, memoryInit]
      rw [hfallback]
  | cons r rest =>
      simp only [memoryInitChecked, memoryInit]
      rw [foldlM_some fun r _ acc => addRegionChecked_eq acc r]
      dsimp only [Option.bind_some]
      split
      · rw [hfallback]
      · rfl

theorem bumpScanChecked_eq {fuel : Nat} {m : Memory} (h : AllocInv m) :
    bumpScanChecked fuel m = some (bumpScan fuel m) := by
  induction fuel generalizing m with
  | zero => rfl
  | succ fuel ih =>
      unfold bumpScanChecked bumpScan
      split
      swap
      · rfl
      rename_i hlt
      have htop := h.top
      rw [bitIndex_eq h.next.2 (by omega), Nat.add_zero]
      dsimp only [Option.bind_some]
      split
      · refine ih ⟨h.top, ?_, h.free, h.nodup⟩
        have hnext := h.next
        simp only [pageSize] at *
        omega
      · rfl

theorem allocPageChecked_eq {m : Memory} (h : AllocInv m) :
    allocPageChecked m = some (allocPage m) := by
  unfold allocPageChecked
  split
  · rfl
  · rename_i hempty
    rw [bumpScanChecked_eq h]
    unfold allocPage
    rw [hempty]

theorem allFreeChecked_eq (bitmap : Nat → Bool) {start : Nat} {l : List Nat}
    (h : ∀ i ∈ l, bitIndex start i = some (pageIndex start + i)) :
    allFreeChecked bitmap start l = some (l.all fun i => !bitmap (pageIndex start + i)) := by
  induction l with
  | nil => rfl
  | cons i rest ih =>
      rw [allFreeChecked, h i List.mem_cons_self]
      dsimp only [Option.bind_some]
      rw [List.all_cons]
      cases hbit : bitmap (pageIndex start + i) with
      | true => rfl
      | false => exact ih fun j hj => h j (List.mem_cons_of_mem i hj)

theorem contigScanChecked_eq (count fuel : Nat) {start : Nat} {m : Memory} (h : AllocInv m)
    (hstart : memBase ≤ start) :
    contigScanChecked count fuel start m = some (contigScan count fuel start m) := by
  induction fuel generalizing start with
  | zero => rfl
  | succ fuel ih =>
      unfold contigScanChecked contigScan
      split
      swap
      · rfl
      rename_i hfits
      have hindex : ∀ i ∈ List.range count, bitIndex start i = some (pageIndex start + i) := by
        intro i hi
        have htop := h.top
        have hlt : (i + 1) * pageSize ≤ count * pageSize :=
          Nat.mul_le_mul_right _ (List.mem_range.mp hi)
        refine bitIndex_eq hstart ?_
        simp only [Nat.add_mul, pageSize] at *
        omega
      rw [allFreeChecked_eq m.bitmap hindex]
      dsimp only [Option.bind_some]
      split
      · have hset : ∀ i ∈ List.range count, ∀ bm : Nat → Bool,
            ((bitIndex start i).map fun j => Function.update bm j true) =
              some (Function.update bm (pageIndex start + i) true) := by
          intro i hi bm
          rw [hindex i hi]
          rfl
        rw [foldlM_some hset m.bitmap]
        rfl
      · exact ih (Nat.le_trans hstart (Nat.le_add_right _ _))

/-- **The contiguous allocators stay in the bitmap**, for every count. -/
theorem findAndClaimContigChecked_eq {m : Memory} (h : AllocInv m) {searchStart : Nat}
    (hstart : memBase ≤ searchStart) (count : Int) :
    findAndClaimContigChecked m searchStart count =
      some (findAndClaimContig m searchStart count) := by
  unfold findAndClaimContigChecked findAndClaimContig
  split
  · rfl
  · exact contigScanChecked_eq _ _ h hstart

end Vajra
