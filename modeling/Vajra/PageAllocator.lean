import Vajra.PhysicalMemory

/-!
# What the page allocator hands out

A page is taken when its bitmap bit is set and it is not on the free list.  Both
allocators hand out pages that were not taken, leave them taken and zeroed, and
keep everything taken that was taken before (`Allocated`, `Claimed`).  So pages in
use are never handed out twice, whatever is allocated and freed in between.
-/

namespace Vajra

open ByteMemory

/-- The address of a page the allocator may hand out. -/
structure IsPage (p : Nat) : Prop where
  aligned : p % pageSize = 0
  base : memBase ≤ p
  cap : p < memCap

/-- A page that has been handed out and not been freed since. -/
structure Memory.Taken (m : Memory) (p : Nat) : Prop where
  page : IsPage p
  used : m.bitmap (pageIndex p) = true
  notFree : p ∉ m.freeList

/-- The allocator's own invariant. -/
structure AllocInv (m : Memory) : Prop where
  top : m.memTop ≤ memCap
  next : m.nextFreePage % pageSize = 0 ∧ memBase ≤ m.nextFreePage
  free : ∀ p ∈ m.freeList, IsPage p ∧ m.bitmap (pageIndex p) = true
  nodup : m.freeList.Nodup

/-- The effect of handing out the page `p`. -/
structure Allocated (m m' : Memory) (p : Nat) : Prop where
  inv : AllocInv m'
  taken : m'.Taken p
  fresh : ¬ m.Taken p
  kept : ∀ q, m.Taken q → m'.Taken q
  ram : m'.ram = halZeroPage m.ram p

/-- `alloc_page`'s bump loop. -/
theorem bumpScan_spec {fuel : Nat} {m : Memory} (h : AllocInv m) (hempty : m.freeList = []) :
    ((bumpScan fuel m).2 = none ∧ ∃ n, (bumpScan fuel m).1 = { m with nextFreePage := n } ∧
      AllocInv (bumpScan fuel m).1) ∨
    ∃ p, (bumpScan fuel m).2 = some p ∧ Allocated m (bumpScan fuel m).1 p := by
  induction fuel generalizing m with
  | zero => exact Or.inl ⟨rfl, m.nextFreePage, rfl, h⟩
  | succ fuel ih =>
      have hnext : (m.nextFreePage + pageSize) % pageSize = 0 ∧
          memBase ≤ m.nextFreePage + pageSize := by
        have := h.next
        simp only [pageSize] at *
        omega
      unfold bumpScan
      split
      swap
      · exact Or.inl ⟨rfl, m.nextFreePage, rfl, h⟩
      rename_i hlt
      split
      · -- the page is used: the scan moves on
        have hmoved : AllocInv { m with nextFreePage := m.nextFreePage + pageSize } :=
          ⟨h.top, hnext, h.free, h.nodup⟩
        rcases ih hmoved hempty with ⟨hnone, n, heq, hinv⟩ | ⟨p, hsome, halloc⟩
        · exact Or.inl ⟨hnone, n, heq, hinv⟩
        · refine Or.inr ⟨p, hsome, halloc.inv, halloc.taken, ?_, ?_, halloc.ram⟩
          · exact fun htaken => halloc.fresh ⟨htaken.page, htaken.used, htaken.notFree⟩
          · exact fun q hq => halloc.kept q ⟨hq.page, hq.used, hq.notFree⟩
      · rename_i hunused
        refine Or.inr ⟨m.nextFreePage, rfl, ⟨h.top, hnext, ?_, h.nodup⟩, ?_, ?_, ?_, rfl⟩
        · simp [hempty]
        · refine ⟨⟨h.next.1, h.next.2, Nat.lt_of_lt_of_le hlt h.top⟩, by simp, by simp [hempty]⟩
        · exact fun htaken => hunused htaken.used
        · intro q hq
          refine ⟨hq.page, ?_, by simp [hempty]⟩
          by_cases hidx : pageIndex q = pageIndex m.nextFreePage
          · simp [hidx]
          · simpa [hidx] using hq.used

/-- **`alloc_page`** fails without touching anything but its cursor, or hands out a
page nobody holds. -/
theorem allocPage_spec {m : Memory} (h : AllocInv m) :
    ((allocPage m).2 = none ∧ ∃ n, (allocPage m).1 = { m with nextFreePage := n } ∧
      AllocInv (allocPage m).1) ∨
    ∃ p, (allocPage m).2 = some p ∧ Allocated m (allocPage m).1 p := by
  unfold allocPage
  split
  · rename_i p rest hlist
    have hp := h.free p (by rw [hlist]; exact List.mem_cons_self)
    have hnodup := h.nodup
    rw [hlist, List.nodup_cons] at hnodup
    refine Or.inr ⟨p, rfl, ⟨h.top, h.next, ?_, hnodup.2⟩, ⟨hp.1, hp.2, hnodup.1⟩, ?_, ?_, rfl⟩
    · intro q hq
      exact h.free q (by rw [hlist]; exact List.mem_cons_of_mem p hq)
    · intro htaken
      exact htaken.notFree (by rw [hlist]; exact List.mem_cons_self)
    · intro q hq
      refine ⟨hq.page, hq.used, fun hmem => hq.notFree ?_⟩
      rw [hlist]
      exact List.mem_cons_of_mem p hmem
  · rename_i hlist
    exact bumpScan_spec h hlist

/-- `free_page` of a taken page. -/
theorem freePage_spec {m : Memory} {p : Nat} (h : AllocInv m) (hp : m.Taken p) :
    AllocInv (freePage m p) ∧ ∀ q, q ≠ p → m.Taken q → (freePage m p).Taken q := by
  unfold freePage
  split
  · refine ⟨⟨h.top, h.next, ?_, List.nodup_cons.mpr ⟨hp.notFree, h.nodup⟩⟩, ?_⟩
    · intro q hq
      rcases List.mem_cons.mp hq with rfl | hold
      · exact ⟨hp.page, hp.used⟩
      · exact h.free q hold
    · intro q hne hq
      refine ⟨hq.page, hq.used, ?_⟩
      rw [List.mem_cons, not_or]
      exact ⟨hne, hq.notFree⟩
  · exact ⟨h, fun q _ hq => hq⟩

@[simp] theorem freePage_ram (m : Memory) (p : Nat) : (freePage m p).ram = m.ram := by
  unfold freePage
  split
  · rfl
  · rfl

/-- The effect of handing out `count` consecutive pages from `start` on. -/
structure Claimed (m m' : Memory) (start count : Nat) : Prop where
  inv : AllocInv m'
  taken : ∀ i < count, m'.Taken (start + i * pageSize)
  fresh : ∀ i < count, ¬ m.Taken (start + i * pageSize)
  kept : ∀ q, m.Taken q → m'.Taken q
  cap : start + count * pageSize ≤ memCap
  ram : ∀ x, x < start ∨ start + count * pageSize ≤ x → m'.ram x = m.ram x

/-- Setting the bits of a run of pages. -/
theorem foldl_setBits (bitmap : Nat → Bool) (first count j : Nat) :
    (List.range count).foldl (fun bm i => Function.update bm (first + i) true) bitmap j =
      if first ≤ j ∧ j < first + count then true else bitmap j := by
  induction count with
  | zero =>
      rw [if_neg (by omega)]
      rfl
  | succ count ih =>
      rw [List.range_succ, List.foldl_append, List.foldl_cons, List.foldl_nil]
      by_cases hj : j = first + count
      · subst hj
        simp
      · rw [Function.update_of_ne hj, ih]
        by_cases hin : first ≤ j ∧ j < first + count
        · rw [if_pos hin, if_pos (by omega)]
        · rw [if_neg hin, if_neg (by omega)]

/-- Zeroing a run of pages leaves everything else alone. -/
theorem foldl_zeroPage_outside (ram : Mem) (start count x : Nat)
    (h : x < start ∨ start + count * pageSize ≤ x) :
    (List.range count).foldl (fun ram i => halZeroPage ram (start + i * pageSize)) ram x =
      ram x := by
  induction count with
  | zero => rfl
  | succ count ih =>
      rw [Nat.succ_mul] at h
      have hpage : x < start + count * pageSize ∨ start + count * pageSize + pageSize ≤ x := by
        omega
      rw [List.range_succ, List.foldl_append, List.foldl_cons, List.foldl_nil]
      exact (zeroRange_outside hpage).trans (ih (by omega))

/-- The bits of consecutive pages are consecutive. -/
theorem pageIndex_add {start i : Nat} (h : memBase ≤ start) :
    pageIndex (start + i * pageSize) = pageIndex start + i := by
  simp only [pageIndex, pageSize, memBase] at *
  omega

/-- The scan of `find_and_claim_contig`. -/
theorem contigScan_spec (count fuel : Nat) {start : Nat} {m : Memory} (h : AllocInv m)
    (hstart : start % pageSize = 0 ∧ memBase ≤ start) :
    ((contigScan count fuel start m).2 = none ∧ (contigScan count fuel start m).1 = m) ∨
    ∃ p, (contigScan count fuel start m).2 = some p ∧ start ≤ p ∧
      Claimed m (contigScan count fuel start m).1 p count := by
  induction fuel generalizing start with
  | zero => exact Or.inl ⟨rfl, rfl⟩
  | succ fuel ih =>
      unfold contigScan
      split
      swap
      · exact Or.inl ⟨rfl, rfl⟩
      rename_i htop
      split
      swap
      · have hnext : (start + pageSize) % pageSize = 0 ∧ memBase ≤ start + pageSize := by
          simp only [pageSize] at *
          omega
        rcases ih hnext with hnone | ⟨p, hsome, hle, hclaim⟩
        · exact Or.inl hnone
        · exact Or.inr ⟨p, hsome, Nat.le_trans (Nat.le_add_right _ _) hle, hclaim⟩
      rename_i hall
      have hunused : ∀ i < count, m.bitmap (pageIndex start + i) = false := by
        intro i hi
        have hbit := List.all_eq_true.mp hall i (List.mem_range.mpr hi)
        simpa using hbit
      have hpage : ∀ i < count, IsPage (start + i * pageSize) := by
        intro i hi
        have htop' := h.top
        have hlt : (i + 1) * pageSize ≤ count * pageSize := Nat.mul_le_mul_right _ hi
        refine ⟨?_, ?_, ?_⟩
        · rw [Nat.add_mul_mod_self_right]
          exact hstart.1
        · exact Nat.le_trans hstart.2 (Nat.le_add_right _ _)
        · simp only [Nat.add_mul, pageSize] at *
          omega
      have hlisted : ∀ i < count, start + i * pageSize ∉ m.freeList := by
        intro i hi hmem
        have hused := (h.free _ hmem).2
        rw [pageIndex_add hstart.2, hunused i hi] at hused
        cases hused
      refine Or.inr ⟨start, rfl, Nat.le_refl _, ⟨h.top, h.next, ?_, h.nodup⟩, ?_, ?_, ?_, ?_, ?_⟩
      · intro q hq
        refine ⟨(h.free q hq).1, ?_⟩
        dsimp only
        rw [foldl_setBits, (h.free q hq).2]
        simp
      · intro i hi
        refine ⟨hpage i hi, ?_, hlisted i hi⟩
        dsimp only
        rw [foldl_setBits, pageIndex_add hstart.2, if_pos (by omega)]
      · intro i hi htaken
        have hused := htaken.used
        rw [pageIndex_add hstart.2, hunused i hi] at hused
        cases hused
      · intro q hq
        refine ⟨hq.page, ?_, hq.notFree⟩
        dsimp only
        rw [foldl_setBits, hq.used]
        simp
      · exact Nat.le_trans htop h.top
      · intro x hx
        exact foldl_zeroPage_outside m.ram start count x hx

/-- **`alloc_dma_pages`** fails without any effect, or hands out consecutive pages
above the private window that nobody holds. -/
theorem allocDmaPages_spec {m : Memory} (count : Int) (h : AllocInv m) :
    ((allocDmaPages m count).2 = none ∧ (allocDmaPages m count).1 = m) ∨
    ∃ p, (allocDmaPages m count).2 = some p ∧ privateWindowEnd ≤ p ∧ 0 < count ∧
      Claimed m (allocDmaPages m count).1 p count.toNat := by
  unfold allocDmaPages findAndClaimContig
  split
  · exact Or.inl ⟨rfl, rfl⟩
  · rename_i hpos
    rcases contigScan_spec count.toNat ((m.memTop - privateWindowEnd) / pageSize + 1) h
        (show privateWindowEnd % pageSize = 0 ∧ memBase ≤ privateWindowEnd by decide) with
      hnone | ⟨p, hsome, hle, hclaim⟩
    · exact Or.inl hnone
    · exact Or.inr ⟨p, hsome, hle, by omega, hclaim⟩

theorem contigScan_freeList (count fuel start : Nat) (m : Memory) :
    (contigScan count fuel start m).1.freeList = m.freeList := by
  induction fuel generalizing start with
  | zero => rfl
  | succ fuel ih =>
      unfold contigScan
      split
      · split
        · rfl
        · exact ih _
      · rfl

/-- The contiguous allocators neither look at the free list nor change it. -/
theorem allocDmaPages_freeList (m : Memory) (count : Int) :
    (allocDmaPages m count).1.freeList = m.freeList := by
  unfold allocDmaPages findAndClaimContig
  split
  · rfl
  · exact contigScan_freeList _ _ _ _

/-- `memory_init` never looks above `memCap`. -/
theorem foldl_addRegion_top (regions : List Region) (acc : (Nat → Bool) × Nat)
    (h : acc.2 ≤ memCap) : (regions.foldl addRegion acc).2 ≤ memCap := by
  induction regions generalizing acc with
  | nil => exact h
  | cons r rest ih =>
      apply ih
      unfold addRegion
      dsimp only
      split
      · exact h
      · exact Nat.max_le.mpr ⟨h, Nat.min_le_right _ _⟩

theorem memoryInit_freeList (regions : List Region) (ram : Mem) :
    (memoryInit regions ram).freeList = [] := by
  unfold memoryInit
  split
  · rfl
  · dsimp only
    split
    · rfl
    · rfl

/-- **`memory_init`** establishes the invariant and stores nothing. -/
theorem memoryInit_spec (regions : List Region) (ram : Mem) :
    AllocInv (memoryInit regions ram) ∧ (memoryInit regions ram).ram = ram := by
  have hbase : memBase % pageSize = 0 ∧ memBase ≤ memBase := by decide
  have hfallback : fallbackTop ≤ memCap := by decide
  unfold memoryInit
  split
  · exact ⟨⟨hfallback, hbase, by simp, by simp⟩, rfl⟩
  · dsimp only
    split
    · exact ⟨⟨hfallback, hbase, by simp, by simp⟩, rfl⟩
    · exact ⟨⟨foldl_addRegion_top _ _ (by decide), hbase, by simp, by simp⟩, rfl⟩

end Vajra
