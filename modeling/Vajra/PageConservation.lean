import Mathlib.Data.List.Nodup
import Vajra.PageScans

/-!
# No page is lost

What `memory_init` has found usable is handed out by three paths: the list of freed pages,
the sweep of `alloc_page` and the first fit of the contiguous allocators.  The sweep never
looks back and the first fit looks at bits only.  Together they lose no page: every bit
below `next_free_page` is set, and a bit is clear exactly when its page was found usable and
never handed out (`Conserved`).  The list holds all freed pages as long as no more than 32
are pending.
-/

namespace Vajra

open TransitionTrace

/-- The pages from `start` on. -/
def pagesFrom (start count : Nat) : List Nat :=
  (List.range count).map fun i => start + i * pageSize

theorem mem_pagesFrom {start count p : Nat} :
    p ∈ pagesFrom start count ↔ ∃ i < count, start + i * pageSize = p := by
  simp [pagesFrom]

theorem pagesFrom_one (p : Nat) : pagesFrom p 1 = [p] := by simp [pagesFrom]

theorem pagesFrom_nodup (start count : Nat) : (pagesFrom start count).Nodup := by
  refine List.Nodup.map ?_ List.nodup_range
  intro i j hij
  simp only [pageSize] at hij
  omega

/-- The allocator with what has become of its pages: those that are live, those freed and not
handed out since, and all that were ever handed out. -/
structure PageState where
  memory : Memory
  live : List Nat
  pending : List Nat
  handed : List Nat

/-- Note an answer of an allocator. -/
def PageState.note (s : PageState) (count : Nat) : Memory × Option Nat → PageState × Option Nat
  | (m, none) => ({ s with memory := m }, none)
  | (m, some p) =>
      (⟨m, pagesFrom p count ++ s.live, s.pending.filter (· ∉ pagesFrom p count),
        pagesFrom p count ++ s.handed⟩, some p)

/-- One call; only a live page is freed, and a null pointer changes nothing. -/
def pageStep (s : PageState) : AllocOp → Option (PageState × Option Nat)
  | .allocPage => some (s.note 1 (allocPage s.memory))
  | .allocPagesContig count => some (s.note count.toNat (allocPagesContig s.memory count))
  | .allocDmaPages count => some (s.note count.toNat (allocDmaPages s.memory count))
  | .freePage addr =>
      if addr = 0 then some (s, none)
      else if addr ∈ s.live then
        some (⟨freePage s.memory addr, s.live.erase addr, addr :: s.pending, s.handed⟩, none)
      else none
  | .use ram => some ({ s with memory := { s.memory with ram := ram } }, none)

/-- The allocator after `memory_init`. -/
def pageInit (regions : List Region) (ram : ByteMemory.Mem) : PageState :=
  ⟨memoryInit regions ram, [], [], []⟩

/-- A run of the allocator. -/
abbrev PageRun (regions : List Region) (ram : ByteMemory.Mem)
    (tr : List (Transition PageState AllocOp (Option Nat))) (s : PageState) : Prop :=
  Trace pageStep (pageInit regions ram) tr s

/-- Never handed out, with a clear bit the sweep has not passed. -/
def PageState.Untouched (s : PageState) (p : Nat) : Prop :=
  p ∉ s.handed ∧ s.memory.bitmap (pageIndex p) = false ∧ s.memory.nextFreePage ≤ p

/-- In exactly one place. -/
def PageState.Placed (s : PageState) (p : Nat) : Prop :=
  (p ∈ s.live ∨ p ∈ s.memory.freeList ∨ s.Untouched p) ∧
    ¬ (p ∈ s.live ∧ p ∈ s.memory.freeList) ∧ ¬ (p ∈ s.live ∧ s.Untouched p) ∧
    ¬ (p ∈ s.memory.freeList ∧ s.Untouched p)

/-- Consecutive pages found usable and never handed out. -/
def PageState.Unspent (regions : List Region) (s : PageState) (count start : Nat) : Prop :=
  ∀ p ∈ pagesFrom start count, Found regions p ∧ p ∉ s.handed

/-- No answer exactly when there is no run from `floor` on, and otherwise the lowest. -/
def FirstFit (run : Nat → Prop) (floor : Nat) (answer : Option Nat) : Prop :=
  (answer = none ↔ ∀ q, floor ≤ q → ¬ run q) ∧
    ∀ p, answer = some p → IsLeast {q | floor ≤ q ∧ run q} p

/-- **The invariant**: a bit is clear exactly when its page was found usable and never handed
out, no clear bit lies below the sweep, and what was handed out is live or on the list. -/
structure Conserved (regions : List Region) (s : PageState) : Prop where
  inv : AllocInv s.memory
  below : ∀ p, Found regions p → p + pageSize ≤ s.memory.memTop
  swept : ∀ p, IsPage p → p < s.memory.nextFreePage → s.memory.bitmap (pageIndex p) = true
  clear : ∀ p, s.memory.Clear p ↔ Found regions p ∧ p ∉ s.handed
  found : ∀ p ∈ s.handed, Found regions p
  handed : ∀ p, p ∈ s.handed ↔ p ∈ s.live ∨ p ∈ s.pending
  listed : s.memory.freeList = s.pending
  once : (s.live ++ s.pending).Nodup

theorem pageInit_conserved (regions : List Region) (ram : ByteMemory.Mem) :
    Conserved regions (pageInit regions ram) where
  inv := (memoryInit_spec regions ram).1
  below := fun p hp => memoryInit_below (memoryInit_found.mpr hp)
  swept := by
    intro p hp hlt
    have hnext : (memoryInit regions ram).nextFreePage = memBase := by
      cases regions with
      | nil => rfl
      | cons r rest =>
          simp only [memoryInit]
          split
          · rfl
          · rfl
    have hlt' : p < (memoryInit regions ram).nextFreePage := hlt
    rw [hnext] at hlt'
    exact absurd hp.base (Nat.not_le_of_lt hlt')
  clear := by
    intro p
    exact memoryInit_found.trans ⟨fun h => ⟨h, List.not_mem_nil⟩, fun h => h.1⟩
  found := by
    intro p hp
    cases hp
  handed := by
    intro p
    simp [pageInit]
  listed := memoryInit_freeList regions ram
  once := List.nodup_nil

section Steps

variable {regions : List Region} {s : PageState}

/-- A page that was handed out has its bit set. -/
theorem Conserved.used (h : Conserved regions s) {p : Nat} (hp : p ∈ s.handed) :
    IsPage p ∧ s.memory.bitmap (pageIndex p) = true := by
  have hpage := (h.found p hp).page
  refine ⟨hpage, ?_⟩
  by_contra hclear
  exact ((h.clear p).mp ⟨hpage, by simpa using hclear⟩).2 hp

theorem Conserved.placed (h : Conserved regions s) {p : Nat} (hp : Found regions p) :
    s.Placed p := by
  have hused := h.used (p := p)
  unfold PageState.Placed
  rw [h.listed]
  refine ⟨?_, fun hboth => ?_, fun hboth => ?_, fun hboth => ?_⟩
  · by_cases hhanded : p ∈ s.handed
    · rcases (h.handed p).mp hhanded with hlive | hpending
      · exact Or.inl hlive
      · exact Or.inr (Or.inl hpending)
    · have hclear := (h.clear p).mpr ⟨hp, hhanded⟩
      refine Or.inr (Or.inr ⟨hhanded, hclear.unused, ?_⟩)
      by_contra hlow
      have hset := h.swept p hp.page (Nat.lt_of_not_le hlow)
      rw [hclear.unused] at hset
      cases hset
  · exact (List.disjoint_of_nodup_append h.once) hboth.1 hboth.2
  · exact hboth.2.1 ((h.handed p).mpr (Or.inl hboth.1))
  · exact hboth.2.1 ((h.handed p).mpr (Or.inr hboth.1))

/-- **Pages with clear bits are handed out.** -/
theorem Conserved.claim (h : Conserved regions s) {m : Memory} {start count : Nat}
    (hinv : AllocInv m) (htop : m.memTop = s.memory.memTop)
    (hlist : m.freeList = s.memory.freeList)
    (hclear : ∀ p ∈ pagesFrom start count, s.memory.Clear p)
    (hbits : ∀ p, IsPage p → (m.bitmap (pageIndex p) = true ↔
      s.memory.bitmap (pageIndex p) = true ∨ p ∈ pagesFrom start count))
    (hswept : ∀ p, IsPage p → p < m.nextFreePage → m.bitmap (pageIndex p) = true) :
    Conserved regions (s.note count (m, some start)).1 := by
  have hnew : ∀ p ∈ pagesFrom start count, Found regions p ∧ p ∉ s.handed :=
    fun p hp => (h.clear p).mp (hclear p hp)
  have hpending : s.pending.filter (· ∉ pagesFrom start count) = s.pending := by
    refine List.filter_eq_self.mpr fun p hp => ?_
    have hnot : p ∉ pagesFrom start count :=
      fun hmem => (hnew p hmem).2 ((h.handed p).mpr (Or.inr hp))
    simpa using hnot
  unfold PageState.note
  dsimp only
  rw [hpending]
  constructor
  · exact hinv
  · intro p hp
    rw [htop]
    exact h.below p hp
  · exact hswept
  · intro p
    dsimp only
    rw [List.mem_append, not_or]
    constructor
    · intro hp
      have hnot := (hbits p hp.page).not.mp (by rw [hp.unused]; simp)
      rw [not_or] at hnot
      obtain ⟨hfound, hold⟩ := (h.clear p).mp ⟨hp.page, by simpa using hnot.1⟩
      exact ⟨hfound, hnot.2, hold⟩
    · rintro ⟨hfound, hnot, hold⟩
      have hpage := hfound.page
      have hunused := ((h.clear p).mpr ⟨hfound, hold⟩).unused
      refine ⟨hpage, ?_⟩
      by_contra hset
      rcases (hbits p hpage).mp (by simpa using hset) with hbefore | hmem
      · rw [hunused] at hbefore
        cases hbefore
      · exact hnot hmem
  · intro p hp
    rcases List.mem_append.mp hp with hmem | hold
    · exact (hnew p hmem).1
    · exact h.found p hold
  · intro p
    dsimp only
    rw [List.mem_append, List.mem_append, h.handed p, or_assoc]
  · exact hlist.trans h.listed
  · dsimp only
    rw [List.append_assoc]
    refine List.nodup_append'.mpr ⟨pagesFrom_nodup start count, h.once, fun p hmem hold => ?_⟩
    exact (hnew p hmem).2 ((h.handed p).mpr (List.mem_append.mp hold))

/-- The page freed last is handed out. -/
theorem Conserved.pop (h : Conserved regions s) {m : Memory} {p : Nat} {rest : List Nat}
    (hlist : s.memory.freeList = p :: rest) (hinv : AllocInv m)
    (hsame : m.bitmap = s.memory.bitmap ∧ m.nextFreePage = s.memory.nextFreePage ∧
      m.memTop = s.memory.memTop) (hrest : m.freeList = rest) :
    Conserved regions (s.note 1 (m, some p)).1 := by
  obtain ⟨hbitmap, hnext, htop⟩ := hsame
  have hpending : s.pending = p :: rest := h.listed.symm.trans hlist
  have honce := h.once
  rw [hpending] at honce
  have hperm : (p :: (s.live ++ rest)).Nodup := (List.perm_middle.nodup_iff).mp honce
  have hfilter : s.pending.filter (· ∉ pagesFrom p 1) = rest := by
    have hnot : p ∉ rest := fun hmem =>
      (List.nodup_cons.mp hperm).1 (List.mem_append_right _ hmem)
    rw [hpending, pagesFrom_one, List.filter_cons_of_neg (by simp)]
    refine List.filter_eq_self.mpr fun q hq => ?_
    have hne : q ≠ p := by
      rintro rfl
      exact hnot hq
    simpa using hne
  have hp : p ∈ s.handed := (h.handed p).mpr (Or.inr (by rw [hpending]; exact List.mem_cons_self))
  unfold PageState.note
  dsimp only
  rw [hfilter, pagesFrom_one, List.singleton_append, List.singleton_append]
  constructor
  · exact hinv
  · intro q hq
    rw [htop]
    exact h.below q hq
  · intro q hq hlt
    dsimp only at hlt ⊢
    rw [hnext] at hlt
    rw [hbitmap]
    exact h.swept q hq hlt
  · intro q
    rw [clear_congr hbitmap q, h.clear q, List.mem_cons, not_or]
    refine and_congr_right fun _ => ⟨fun hold => ⟨?_, hold⟩, fun hold => hold.2⟩
    rintro rfl
    exact hold hp
  · intro q hq
    rcases List.mem_cons.mp hq with rfl | hold
    · exact h.found _ hp
    · exact h.found q hold
  · intro q
    dsimp only
    rw [List.mem_cons, List.mem_cons, h.handed q, hpending, List.mem_cons]
    tauto
  · exact hrest
  · exact hperm

/-- The sweep moves on without finding anything. -/
theorem Conserved.moved (h : Conserved regions s) {m : Memory} (hinv : AllocInv m)
    (hbitmap : m.bitmap = s.memory.bitmap) (htop : m.memTop = s.memory.memTop)
    (hlist : m.freeList = s.memory.freeList)
    (hswept : ∀ p, IsPage p → p < m.nextFreePage → m.bitmap (pageIndex p) = true) :
    Conserved regions { s with memory := m } where
  inv := hinv
  below := fun p hp => by
    rw [htop]
    exact h.below p hp
  swept := hswept
  clear := fun p => (clear_congr hbitmap p).trans (h.clear p)
  found := h.found
  handed := h.handed
  listed := hlist.trans h.listed
  once := h.once

/-- A live page is freed while the list has room. -/
theorem Conserved.free (h : Conserved regions s) {p : Nat} (hlive : p ∈ s.live)
    (hroom : (p :: s.pending).length ≤ freeListCapacity) :
    Conserved regions ⟨freePage s.memory p, s.live.erase p, p :: s.pending, s.handed⟩ := by
  have hhanded := (h.handed p).mpr (Or.inl hlive)
  have hnot : p ∉ s.memory.freeList := by
    rw [h.listed]
    exact fun hpending => (List.disjoint_of_nodup_append h.once) hlive hpending
  have hlt : s.memory.freeList.length < freeListCapacity := by
    rw [h.listed]
    exact hroom
  have hinv := (freePage_spec h.inv ⟨(h.used hhanded).1, (h.used hhanded).2, hnot⟩).1
  have hpush : freePage s.memory p = { s.memory with freeList := p :: s.memory.freeList } := by
    unfold freePage
    rw [if_pos hlt]
  have hperm : (p :: s.live.erase p).Perm s.live := (List.perm_cons_erase hlive).symm
  have hclear : ∀ q, (freePage s.memory p).Clear q ↔ s.memory.Clear q :=
    clear_congr (by rw [hpush])
  rw [hpush] at hinv hclear ⊢
  constructor
  · exact hinv
  · exact h.below
  · exact h.swept
  · exact fun q => (hclear q).trans (h.clear q)
  · exact h.found
  · intro q
    dsimp only
    rw [h.handed q, ← hperm.mem_iff, List.mem_cons, List.mem_cons]
    tauto
  · dsimp only
    rw [h.listed]
  · refine List.perm_middle.nodup_iff.mpr ?_
    exact ((hperm.append_right s.pending).nodup_iff).mpr h.once

/-- The sweep takes the first page it finds, and its cursor goes behind it. -/
theorem Conserved.takeNext (h : Conserved regions s) {next : Nat} {ram : ByteMemory.Mem}
    (hclear : s.memory.Clear next)
    (hswept : ∀ p, IsPage p → p < next → s.memory.bitmap (pageIndex p) = true)
    (hinv : AllocInv { s.memory with
      bitmap := Function.update s.memory.bitmap (pageIndex next) true
      nextFreePage := next + pageSize
      ram := ram }) :
    Conserved regions (s.note 1 ({ s.memory with
      bitmap := Function.update s.memory.bitmap (pageIndex next) true
      nextFreePage := next + pageSize
      ram := ram }, some next)).1 := by
  have hbit : ∀ p, IsPage p → (Function.update s.memory.bitmap (pageIndex next) true
      (pageIndex p) = true ↔ s.memory.bitmap (pageIndex p) = true ∨ p = next) := by
    intro p hp
    by_cases hsame : p = next
    · subst hsame
      simp
    · have hidx : pageIndex p ≠ pageIndex next :=
        fun hidx => hsame (pageIndex_inj hp hclear.page.aligned hclear.page.base hidx)
      rw [Function.update_of_ne hidx]
      simp [hsame]
  refine h.claim hinv rfl rfl (fun p hp => ?_) (fun p hp => ?_) (fun p hp hlt => ?_)
  · rw [pagesFrom_one, List.mem_singleton] at hp
    rw [hp]
    exact hclear
  · rw [pagesFrom_one, List.mem_singleton]
    exact hbit p hp
  · refine (hbit p hp).mpr ?_
    by_cases hsame : p = next
    · exact Or.inr hsame
    · refine Or.inl (hswept p hp ?_)
      have hp0 := hp.aligned
      have hnext0 := hclear.page.aligned
      simp only [pageSize] at *
      omega

/-- **`alloc_page`** hands out the page freed last, else the first one not used from the
cursor on, and nothing only if there is neither. -/
theorem Conserved.onePage (h : Conserved regions s) :
    Conserved regions (s.note 1 (allocPage s.memory)).1 ∧
    ((allocPage s.memory).2 = none ↔
      ∀ p, p ∉ s.memory.freeList ∧ ¬ (Found regions p ∧ s.Untouched p)) := by
  have hinv : AllocInv (allocPage s.memory).1 := by
    rcases allocPage_spec h.inv with ⟨-, n, -, hinv⟩ | ⟨p, -, hout⟩
    · exact hinv
    · exact hout.inv
  cases hlist : s.memory.freeList with
  | cons p rest =>
      have heq : allocPage s.memory =
          ({ s.memory with freeList := rest, ram := halZeroPage s.memory.ram p }, some p) := by
        unfold allocPage
        rw [hlist]
      rw [heq] at hinv ⊢
      refine ⟨h.pop hlist hinv ⟨rfl, rfl, rfl⟩ rfl, ?_⟩
      constructor
      · intro hnone
        cases hnone
      · intro hall
        exact absurd List.mem_cons_self (hall p).1
  | nil =>
      have hscan : allocPage s.memory =
          bumpScan ((s.memory.memTop - s.memory.nextFreePage) / pageSize + 1) s.memory := by
        unfold allocPage
        rw [hlist]
      have hfuel : s.memory.memTop ≤ s.memory.nextFreePage +
          ((s.memory.memTop - s.memory.nextFreePage) / pageSize + 1) * pageSize := by
        simp only [pageSize]
        omega
      obtain ⟨next, haligned, hle, hpassed, hend⟩ := bumpScan_sweep h.inv.next.1 hfuel
      rw [← hscan] at hend
      have hswept : ∀ q, IsPage q → q < next → s.memory.bitmap (pageIndex q) = true := by
        intro q hq hlt
        by_cases hold : q < s.memory.nextFreePage
        · exact h.swept q hq hold
        · exact hpassed q hq.aligned (Nat.le_of_not_lt hold) hlt
      rcases hend with ⟨htop, heq⟩ | ⟨htop, hunused, heq⟩
      · rw [heq] at hinv ⊢
        refine ⟨h.moved hinv rfl rfl rfl hswept, fun _ p => ⟨List.not_mem_nil, ?_⟩, fun _ => rfl⟩
        rintro ⟨hfound, -, hclear, -⟩
        have hsize : 0 < pageSize := by decide
        have hset := hswept p hfound.page
          (Nat.lt_of_lt_of_le (Nat.lt_of_lt_of_le (Nat.lt_add_of_pos_right hsize)
            (h.below p hfound)) htop)
        rw [hclear] at hset
        cases hset
      · have hpage : IsPage next :=
          ⟨haligned, Nat.le_trans h.inv.next.2 hle, Nat.lt_of_lt_of_le htop h.inv.top⟩
        have hclear : s.memory.Clear next := ⟨hpage, hunused⟩
        rw [heq] at hinv ⊢
        refine ⟨h.takeNext hclear hswept hinv, ?_⟩
        constructor
        · intro hnone
          cases hnone
        · intro hall
          obtain ⟨hfound, hfresh⟩ := (h.clear next).mp hclear
          exact absurd ⟨hfound, hfresh, hunused, hle⟩ (hall next).2

/-- The bits of consecutive pages. -/
theorem mem_pagesFrom_iff_index {start count p : Nat} (haligned : start % pageSize = 0)
    (hbase : memBase ≤ start) (hp : IsPage p) :
    p ∈ pagesFrom start count ↔
      pageIndex start ≤ pageIndex p ∧ pageIndex p < pageIndex start + count := by
  rw [mem_pagesFrom]
  constructor
  · rintro ⟨i, hi, rfl⟩
    rw [pageIndex_add hbase]
    omega
  · rintro ⟨hlow, hhigh⟩
    refine ⟨pageIndex p - pageIndex start, by omega, ?_⟩
    refine (pageIndex_inj hp ?_ ?_ ?_).symm
    · rw [Nat.add_mul_mod_self_right]
      exact haligned
    · exact Nat.le_trans hbase (Nat.le_add_right _ _)
    · rw [pageIndex_add hbase]
      omega

/-- A gap of the bitmap is a run of pages never handed out. -/
theorem Conserved.gap_iff (h : Conserved regions s) {count start : Nat} (hpos : 0 < count)
    (hbase : memBase ≤ start) :
    s.memory.Gap count start ↔ s.Unspent regions count start := by
  constructor
  · intro hgap p hp
    obtain ⟨i, hi, rfl⟩ := mem_pagesFrom.mp hp
    refine (h.clear _).mp ⟨⟨?_, ?_, ?_⟩, ?_⟩
    · rw [Nat.add_mul_mod_self_right]
      exact hgap.aligned
    · exact Nat.le_trans hbase (Nat.le_add_right _ _)
    · have hmul : (i + 1) * pageSize ≤ count * pageSize := Nat.mul_le_mul_right _ hi
      have htop := hgap.top
      have hcap := h.inv.top
      have hsize : 0 < pageSize := by decide
      rw [Nat.succ_mul] at hmul
      omega
    · rw [pageIndex_add hbase]
      exact hgap.unused i hi
  · intro hrun
    have hclear : ∀ i < count, s.memory.Clear (start + i * pageSize) :=
      fun i hi => (h.clear _).mpr (hrun _ (mem_pagesFrom.mpr ⟨i, hi, rfl⟩))
    refine ⟨?_, ?_, fun i hi => ?_⟩
    · have hfirst := (hclear 0 hpos).page.aligned
      rw [Nat.zero_mul, Nat.add_zero] at hfirst
      exact hfirst
    · have hlast := h.below _ (hrun _ (mem_pagesFrom.mpr ⟨count - 1, by omega, rfl⟩)).1
      have hcount : count * pageSize = (count - 1) * pageSize + pageSize := by
        rw [← Nat.succ_mul]
        congr 1
        omega
      omega
    · rw [← pageIndex_add hbase]
      exact (hclear i hi).unused

/-- **`find_and_claim_contig`** hands out the lowest run of pages never handed out. -/
theorem Conserved.contig (h : Conserved regions s) (searchStart : Nat)
    (hstart : searchStart % pageSize = 0 ∧ memBase ≤ searchStart) (count : Int) :
    Conserved regions (s.note count.toNat (findAndClaimContig s.memory searchStart count)).1 ∧
    (0 < count → FirstFit (s.Unspent regions count.toNat) searchStart
      (findAndClaimContig s.memory searchStart count).2) := by
  have hinv : AllocInv (findAndClaimContig s.memory searchStart count).1 := by
    rcases findAndClaimContig_handsOut h.inv hstart count with ⟨-, hsame⟩ | ⟨p, -, -, hout⟩
    · rw [hsame]
      exact h.inv
    · exact hout.inv
  unfold findAndClaimContig at hinv ⊢
  by_cases hcount : count ≤ 0
  · rw [if_pos hcount]
    exact ⟨h, fun hpos => absurd hcount (not_le_of_gt hpos)⟩
  rw [if_neg hcount] at hinv ⊢
  have hpos : 0 < count.toNat := by omega
  have hfuel : s.memory.memTop ≤ searchStart +
      ((s.memory.memTop - searchStart) / pageSize + 1) * pageSize := by
    simp only [pageSize]
    omega
  have hgap : ∀ q, searchStart ≤ q →
      (s.memory.Gap count.toNat q ↔ s.Unspent regions count.toNat q) :=
    fun q hq => h.gap_iff hpos (Nat.le_trans hstart.2 hq)
  have hruns : {q | searchStart ≤ q ∧ s.memory.Gap count.toNat q} =
      {q | searchStart ≤ q ∧ s.Unspent regions count.toNat q} := by
    ext q
    exact and_congr_right (hgap q)
  rcases contigScan_first hstart.1 hpos hfuel with ⟨hnone, heq⟩ | ⟨p, hleast, hsome, heq⟩
  · rw [heq]
    refine ⟨h, fun _ => ⟨⟨fun _ q hq hrun => ?_, fun _ => rfl⟩, fun p hp => by cases hp⟩⟩
    exact hnone q hq ((hgap q hq).mpr hrun)
  · generalize contigScan count.toNat ((s.memory.memTop - searchStart) / pageSize + 1) searchStart
      s.memory = r at *
    obtain ⟨m, answer⟩ := r
    dsimp only at hinv hsome heq ⊢
    subst hsome
    have hbase : memBase ≤ p := Nat.le_trans hstart.2 hleast.1.1
    have haligned : p % pageSize = 0 := hleast.1.2.aligned
    have hrun : s.Unspent regions count.toNat p := (hgap p hleast.1.1).mp hleast.1.2
    have hset : ∀ q, IsPage q → (m.bitmap (pageIndex q) = true ↔
        s.memory.bitmap (pageIndex q) = true ∨ q ∈ pagesFrom p count.toNat) := by
      intro q hq
      rw [heq, mem_pagesFrom_iff_index haligned hbase hq]
      dsimp only
      rw [foldl_setBits]
      split
      · rename_i hin
        simp [hin]
      · rename_i hout
        simp [hout]
    rw [hruns] at hleast
    constructor
    · refine h.claim hinv ?_ ?_ (fun q hq => (h.clear q).mpr (hrun q hq)) hset ?_
      · rw [heq]
      · rw [heq]
      · intro q hq hlt
        rw [heq] at hlt
        exact (hset q hq).mpr (Or.inl (h.swept q hq hlt))
    · intro _
      refine ⟨⟨fun hnone => ?_, fun hnone => ?_⟩, fun q hq => ?_⟩
      · cases hnone
      · exact absurd hrun (hnone p hleast.1.1)
      · cases hq
        exact hleast

/-- **What one call preserves.** -/
theorem Conserved.step (h : Conserved regions s) {op : AllocOp} {s' : PageState}
    {answer : Option Nat} (hstep : pageStep s op = some (s', answer))
    (hpending : s'.pending.length ≤ freeListCapacity) : Conserved regions s' := by
  cases op with
  | allocPage =>
      have hnext := h.onePage.1
      rw [show s.note 1 (allocPage s.memory) = (s', answer) from Option.some.inj hstep]
        at hnext
      exact hnext
  | allocPagesContig count =>
      have hnext := (h.contig memBase (by decide) count).1
      rw [show s.note count.toNat (findAndClaimContig s.memory memBase count) = (s', answer) from
        Option.some.inj hstep] at hnext
      exact hnext
  | allocDmaPages count =>
      have hnext := (h.contig privateWindowEnd (by decide) count).1
      rw [show s.note count.toNat (findAndClaimContig s.memory privateWindowEnd count) =
        (s', answer) from Option.some.inj hstep] at hnext
      exact hnext
  | freePage addr =>
      simp only [pageStep] at hstep
      split at hstep
      · cases hstep
        exact h
      · split at hstep
        · rename_i hlive
          cases hstep
          exact h.free hlive hpending
        · cases hstep
  | use ram =>
      cases hstep
      exact h.moved ⟨h.inv.top, h.inv.next, h.inv.free, h.inv.nodup⟩ rfl rfl rfl h.swept

end Steps

section Runs

variable {regions : List Region} {ram : ByteMemory.Mem}
  {tr : List (Transition PageState AllocOp (Option Nat))} {s : PageState}

/-- The invariant holds along every run in which the list has room for all freed pages. -/
theorem PageRun.conserved (hrun : PageRun regions ram tr s)
    (hpending : ∀ t ∈ tr, t.post.pending.length ≤ freeListCapacity) : Conserved regions s := by
  refine hrun.history_invariant (fun tr s =>
    (∀ t ∈ tr, t.post.pending.length ≤ freeListCapacity) → Conserved regions s) ?_ ?_ hpending
  · intro _
    exact pageInit_conserved regions ram
  · intro tr s op answer s' _ hold hstep hall
    exact (hold fun t ht => hall t (List.mem_cons_of_mem _ ht)).step hstep
      (hall _ List.mem_cons_self)

/-- **The allocator loses no page.**  For every memory map and every run in which no more than
32 freed pages are pending at once: every page found usable is live, on the list or never
handed out and ahead of the sweep, and only one of these; `alloc_page` fails exactly when no
page is on the list or never handed out; and the contiguous allocators are first fit over the
pages never handed out. -/
theorem allocator_conserves_pages (hrun : PageRun regions ram tr s)
    (hpending : ∀ t ∈ tr, t.post.pending.length ≤ freeListCapacity) :
    (∀ p, Found regions p → s.Placed p) ∧
    ((allocPage s.memory).2 = none ↔
      ∀ p, p ∉ s.memory.freeList ∧ ¬ (Found regions p ∧ s.Untouched p)) ∧
    ∀ count : Int, 0 < count →
      FirstFit (s.Unspent regions count.toNat) memBase (allocPagesContig s.memory count).2 ∧
      FirstFit (s.Unspent regions count.toNat) privateWindowEnd
        (allocDmaPages s.memory count).2 := by
  have hall := PageRun.conserved hrun hpending
  refine ⟨fun p => hall.placed, hall.onePage.2, fun count hpos => ⟨?_, ?_⟩⟩
  · exact (hall.contig memBase (by decide) count).2 hpos
  · exact (hall.contig privateWindowEnd (by decide) count).2 hpos

end Runs

set_option maxRecDepth 100000 in
/-- A page of a run of two is freed while the other one stays live. -/
theorem allocator_conserves_pages_sample :
    ∃ tr s, PageRun sampleRegions (fun _ => 0xFF) tr s ∧
      (∀ t ∈ tr, t.post.pending.length ≤ freeListCapacity) ∧
      s.live = [0x200000, 0x101000] ∧ s.Placed 0x201000 ∧
      (allocPage s.memory).2 ≠ none := by
  have hrun : (runTrace pageStep [] (pageInit sampleRegions fun _ => 0xFF)
      [.allocPage, .allocDmaPages 2, .freePage 0x201000]).map
      (fun r => (decide (∀ t ∈ r.1, t.post.pending.length ≤ freeListCapacity), r.2.live,
        r.2.memory.freeList)) = some (true, [0x200000, 0x101000], [0x201000]) := by
    decide +kernel
  obtain ⟨tr, s, htrace, hview⟩ := exists_trace_of_runTrace hrun
  simp only [Prod.mk.injEq, decide_eq_true_eq] at hview
  obtain ⟨hpending, hlive, hfree⟩ := hview
  have hfound : Found sampleRegions 0x201000 :=
    ⟨⟨by decide, by decide, by decide⟩, by decide +kernel⟩
  have hall := allocator_conserves_pages htrace hpending
  refine ⟨tr, s, htrace, hpending, hlive, hall.1 _ hfound, fun hnone => ?_⟩
  have hnot := (hall.2.1.mp hnone 0x201000).1
  rw [hfree] at hnot
  exact hnot List.mem_cons_self

end Vajra
