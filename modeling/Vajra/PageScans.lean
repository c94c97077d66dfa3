import Mathlib.Order.Bounds.Basic
import Vajra.AllocatorRuns

/-!
# What the scans of the page allocator find

The sweep of `alloc_page` stops at the first page from its cursor on whose bit is clear, and
the scan of `find_and_claim_contig` at the lowest gap from its start on; when they find nothing
there is nothing up to the top.  `memory_init` clears no bit above the top it sets.
-/

namespace Vajra

/-- The bit of a page is clear. -/
structure Memory.Clear (m : Memory) (p : Nat) : Prop where
  page : IsPage p
  unused : m.bitmap (pageIndex p) = false

theorem clear_congr {m m' : Memory} (h : m.bitmap = m'.bitmap) (p : Nat) :
    m.Clear p ↔ m'.Clear p := by
  constructor
  · intro hp
    refine ⟨hp.page, ?_⟩
    rw [← h]
    exact hp.unused
  · intro hp
    refine ⟨hp.page, ?_⟩
    rw [h]
    exact hp.unused

/-- Consecutive pages, none of them used, below the top. -/
structure Memory.Gap (m : Memory) (count start : Nat) : Prop where
  aligned : start % pageSize = 0
  top : start + count * pageSize ≤ m.memTop
  unused : ∀ i < count, m.bitmap (pageIndex start + i) = false

/-- **The sweep of `alloc_page`**: every page it passes is used, and it stops at the first
that is not or at the top. -/
theorem bumpScan_sweep {fuel : Nat} {m : Memory} (haligned : m.nextFreePage % pageSize = 0)
    (hfuel : m.memTop ≤ m.nextFreePage + fuel * pageSize) :
    ∃ next, next % pageSize = 0 ∧ m.nextFreePage ≤ next ∧
      (∀ p, p % pageSize = 0 → m.nextFreePage ≤ p → p < next → m.bitmap (pageIndex p) = true) ∧
      ((m.memTop ≤ next ∧ bumpScan fuel m = ({ m with nextFreePage := next }, none)) ∨
        (next < m.memTop ∧ m.bitmap (pageIndex next) = false ∧
          bumpScan fuel m = ({ m with
            bitmap := Function.update m.bitmap (pageIndex next) true
            nextFreePage := next + pageSize
            ram := halZeroPage m.ram next }, some next))) := by
  induction fuel generalizing m with
  | zero =>
      rw [Nat.zero_mul, Nat.add_zero] at hfuel
      exact ⟨m.nextFreePage, haligned, Nat.le_refl _,
        fun p _ hle hlt => absurd hlt (Nat.not_lt_of_le hle), Or.inl ⟨hfuel, rfl⟩⟩
  | succ fuel ih =>
      unfold bumpScan
      by_cases hlt : m.nextFreePage < m.memTop
      swap
      · rw [if_neg hlt]
        exact ⟨m.nextFreePage, haligned, Nat.le_refl _,
          fun p _ hle hlt => absurd hlt (Nat.not_lt_of_le hle), Or.inl ⟨Nat.le_of_not_lt hlt, rfl⟩⟩
      rw [if_pos hlt]
      by_cases hused : m.bitmap (pageIndex m.nextFreePage) = true
      swap
      · rw [if_neg hused]
        exact ⟨m.nextFreePage, haligned, Nat.le_refl _,
          fun p _ hle hlt => absurd hlt (Nat.not_lt_of_le hle), Or.inr ⟨hlt, by simpa using hused, rfl⟩⟩
      rw [if_pos hused]
      have haligned' : (m.nextFreePage + pageSize) % pageSize = 0 := by
        rw [Nat.add_mod_right]
        exact haligned
      have hfuel' : m.memTop ≤ m.nextFreePage + pageSize + fuel * pageSize := by
        rw [Nat.succ_mul] at hfuel
        omega
      obtain ⟨next, hnext, hle, hpassed, hend⟩ :=
        ih (m := { m with nextFreePage := m.nextFreePage + pageSize }) haligned' hfuel'
      refine ⟨next, hnext, Nat.le_trans (Nat.le_add_right _ _) hle, fun p hp hlow hhigh => ?_, hend⟩
      by_cases hfirst : p = m.nextFreePage
      · subst hfirst
        exact hused
      · refine hpassed p hp ?_ hhigh
        dsimp only
        simp only [pageSize] at *
        omega

/-- **First fit**: the scan of `find_and_claim_contig` fails exactly when there is no gap, and
otherwise claims the lowest one. -/
theorem contigScan_first {count fuel start : Nat} {m : Memory} (haligned : start % pageSize = 0)
    (hpos : 0 < count) (hfuel : m.memTop ≤ start + fuel * pageSize) :
    ((∀ q, start ≤ q → ¬ m.Gap count q) ∧ contigScan count fuel start m = (m, none)) ∨
    ∃ p, IsLeast {q | start ≤ q ∧ m.Gap count q} p ∧ (contigScan count fuel start m).2 = some p ∧
      (contigScan count fuel start m).1 = { m with
        bitmap := (List.range count).foldl
          (fun bm i => Function.update bm (pageIndex p + i) true) m.bitmap
        ram := (contigScan count fuel start m).1.ram } := by
  have hone : 1 * pageSize ≤ count * pageSize := Nat.mul_le_mul_right _ hpos
  have hsize : 0 < pageSize := by decide
  induction fuel generalizing start with
  | zero =>
      refine Or.inl ⟨fun q hq hgap => ?_, rfl⟩
      have htop := hgap.top
      omega
  | succ fuel ih =>
      unfold contigScan
      by_cases htop : start + count * pageSize ≤ m.memTop
      swap
      · rw [if_neg htop]
        refine Or.inl ⟨fun q hq hgap => htop ?_, rfl⟩
        exact Nat.le_trans (Nat.add_le_add_right hq _) hgap.top
      rw [if_pos htop]
      by_cases hall : ((List.range count).all fun i => !m.bitmap (pageIndex start + i)) = true
      · rw [if_pos hall]
        have hunused : ∀ i < count, m.bitmap (pageIndex start + i) = false := by
          intro i hi
          have hbit := List.all_eq_true.mp hall i (List.mem_range.mpr hi)
          simpa using hbit
        exact Or.inr ⟨start, ⟨⟨Nat.le_refl _, haligned, htop, hunused⟩, fun q hq => hq.1⟩, rfl, rfl⟩
      rw [if_neg hall]
      have hnot : ¬ m.Gap count start := by
        intro hgap
        apply hall
        rw [List.all_eq_true]
        intro i hi
        rw [hgap.unused i (List.mem_range.mp hi)]
        rfl
      have haligned' : (start + pageSize) % pageSize = 0 := by
        rw [Nat.add_mod_right]
        exact haligned
      have hfuel' : m.memTop ≤ start + pageSize + fuel * pageSize := by
        rw [Nat.succ_mul] at hfuel
        omega
      -- A gap above `start` is at the next page or above it.
      have hlater : ∀ q, start ≤ q → m.Gap count q → start + pageSize ≤ q := by
        intro q hq hgap
        have hne : q ≠ start := by
          rintro rfl
          exact hnot hgap
        have hq0 := hgap.aligned
        simp only [pageSize] at *
        omega
      rcases ih haligned' hfuel' with ⟨hnone, heq⟩ | ⟨p, hleast, hsome, heq⟩
      · exact Or.inl ⟨fun q hq hgap => hnone q (hlater q hq hgap) hgap, heq⟩
      · refine Or.inr ⟨p, ⟨⟨?_, hleast.1.2⟩, fun q hq => ?_⟩, hsome, heq⟩
        · exact Nat.le_trans (Nat.le_add_right _ _) hleast.1.1
        · exact hleast.2 ⟨hlater q hq.1 hq.2, hq.2⟩

/-- A page of a region lies below the highest end. -/
theorem foldl_addRegion_below {regions : List Region} {acc : (Nat → Bool) × Nat} {p : Nat}
    (hp : IsPage p) (hacc : acc.1 (pageIndex p) = false → p + pageSize ≤ acc.2)
    (h : (regions.foldl addRegion acc).1 (pageIndex p) = false) :
    p + pageSize ≤ (regions.foldl addRegion acc).2 := by
  induction regions generalizing acc with
  | nil => exact hacc h
  | cons r rest ih =>
      refine ih ?_ h
      intro hone
      unfold addRegion at hone ⊢
      dsimp only at hone ⊢
      split at hone
      · rename_i hskip
        rw [if_pos hskip]
        exact hacc hone
      · rename_i hlt
        rw [if_neg hlt]
        dsimp only
        rcases markRangeFree_clear hp (Nat.le_max_right _ _) (Nat.lt_of_not_le hlt)
          (Nat.min_le_right _ _) hone with hold | ⟨-, hhigh⟩
        · exact Nat.le_trans (hacc hold) (Nat.le_max_left _ _)
        · exact Nat.le_trans hhigh (Nat.le_max_right _ _)

/-- Every page that `memory_init` finds lies below the top. -/
theorem memoryInit_below {regions : List Region} {ram : ByteMemory.Mem} {p : Nat}
    (h : (memoryInit regions ram).Clear p) : p + pageSize ≤ (memoryInit regions ram).memTop := by
  have hp := h.page
  have hclear := h.unused
  have hfallback : ∀ {bm : Nat → Bool}, markRangeFree bm memBase fallbackTop (pageIndex p) = false →
      bm (pageIndex p) = false ∨ p + pageSize ≤ fallbackTop := by
    intro bm hbit
    rcases markRangeFree_clear hp (Nat.le_refl _) (by decide) (by decide) hbit with hold | ⟨-, hhigh⟩
    · exact Or.inl hold
    · exact Or.inr hhigh
  cases regions with
  | nil =>
      simp only [memoryInit] at hclear ⊢
      rcases hfallback hclear with hused | hhigh
      · cases hused
      · exact hhigh
  | cons r rest =>
      have hmap : ((r :: rest).foldl addRegion (fun _ => true, 0)).1 (pageIndex p) = false →
          p + pageSize ≤ ((r :: rest).foldl addRegion (fun _ => true, 0)).2 :=
        foldl_addRegion_below hp fun hused => by cases hused
      simp only [memoryInit] at hclear ⊢
      split at hclear
      · rename_i hnone
        rw [if_pos hnone]
        dsimp only at hclear ⊢
        rcases hfallback hclear with hbit | hhigh
        · -- nothing was found above 1MB, so no bit was clear before
          have hlow := hmap hbit
          have hbase := hp.base
          have hsize : 0 < pageSize := by decide
          omega
        · exact hhigh
      · rename_i hsome
        rw [if_neg hsome]
        exact hmap hclear

/-- A page that `memory_init` has found usable. -/
def Found (regions : List Region) (p : Nat) : Prop := (memoryInit regions fun _ => 0).Clear p

/-- The statics do not depend on what the memory holds. -/
theorem memoryInit_found {regions : List Region} {ram : ByteMemory.Mem} {p : Nat} :
    (memoryInit regions ram).Clear p ↔ Found regions p := by
  refine clear_congr ?_ p
  cases regions with
  | nil => rfl
  | cons r rest =>
      simp only [memoryInit]
      split
      · rfl
      · rfl

end Vajra
