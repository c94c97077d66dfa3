import Vajra.BitmapBounds
import Vajra.TransitionTrace

/-!
# Runs of the page allocator

`alloc_page`, `alloc_pages_contig` and `alloc_dma_pages` in any order, with pages of
`alloc_page` freed in between and memory written by their owners.  A ghost list keeps what
is live.  The three paths share the bitmap, a freed page has its bit set and is on the list
only; all of it is said by `Memory.Taken`: what is live is taken, what is handed out was
not, and what is not taken lies in a usable region (`AllocatorOk`).
-/

namespace Vajra

open ByteMemory TransitionTrace

/-- The page at `p` lies wholly inside a region. -/
def Region.Holds (r : Region) (p : Nat) : Prop := r.base ≤ p ∧ p + pageSize ≤ r.base + r.length

/-- `memory_init` finds nothing usable above 1MB and falls back to 1MB-16MB. -/
def FallbackTaken (regions : List Region) : Prop :=
  (regions.foldl addRegion (fun _ => true, 0)).2 ≤ memBase

/-- A page the allocator may hand out, given the memory map. -/
def Usable (regions : List Region) (p : Nat) : Prop :=
  (∃ r ∈ regions, r.Holds p) ∨
    (FallbackTaken regions ∧ memBase ≤ p ∧ p + pageSize ≤ fallbackTop)

/-- The fields of a region are `uint64_t`. -/
def Region.Word (r : Region) : Prop := r.base < 2 ^ 64 ∧ r.length < 2 ^ 64

theorem pageIndex_inj {p q : Nat} (hp : IsPage p) (haligned : q % pageSize = 0)
    (hbase : memBase ≤ q) (h : pageIndex p = pageIndex q) : p = q := by
  have hp1 := hp.aligned
  have hp2 := hp.base
  simp only [pageIndex, pageSize, memBase] at *
  omega

/-- A bit cleared in a loop over pages was clear before or is that of one of them. -/
theorem foldl_clearBits {bitmap : Nat → Bool} {f : Nat → Nat} {n j : Nat}
    (h : (List.range n).foldl (fun bm k => Function.update bm (f k) false) bitmap j = false) :
    bitmap j = false ∨ ∃ k < n, j = f k := by
  induction n with
  | zero => exact Or.inl h
  | succ n ih =>
      rw [List.range_succ, List.foldl_append, List.foldl_cons, List.foldl_nil] at h
      by_cases hj : j = f n
      · exact Or.inr ⟨n, Nat.lt_succ_self n, hj⟩
      · rw [Function.update_of_ne hj] at h
        rcases ih h with hold | ⟨k, hk, heq⟩
        · exact Or.inl hold
        · exact Or.inr ⟨k, Nat.lt_succ_of_lt hk, heq⟩

/-- **`mark_range_free`** clears the bits of whole pages of the range. -/
theorem markRangeFree_clear {bitmap : Nat → Bool} {base top p : Nat} (hp : IsPage p)
    (hbase : memBase ≤ base) (hlt : base < top) (htop : top ≤ memCap)
    (h : markRangeFree bitmap base top (pageIndex p) = false) :
    bitmap (pageIndex p) = false ∨ (base ≤ p ∧ p + pageSize ≤ top) := by
  unfold markRangeFree at h
  split at h
  · exact Or.inl h
  · rcases foldl_clearBits h with hold | ⟨k, hk, heq⟩
    · exact Or.inl hold
    · obtain ⟨hlow, hhigh, haligned⟩ := markRangeFree_page hlt htop hk
      obtain rfl := pageIndex_inj hp haligned (Nat.le_trans hbase hlow) heq
      exact Or.inr ⟨hlow, hhigh⟩

/-- A region whose end wraps around is passed over; of any other, whole pages are freed. -/
theorem addRegion_clear {acc : (Nat → Bool) × Nat} {r : Region} {p : Nat} (hp : IsPage p)
    (hword : r.Word) (h : (addRegion acc r).1 (pageIndex p) = false) :
    acc.1 (pageIndex p) = false ∨ r.Holds p := by
  unfold addRegion at h
  dsimp only at h
  split at h
  · exact Or.inl h
  · rename_i hlt
    have hlt' := Nat.lt_of_not_le hlt
    rcases markRangeFree_clear hp (Nat.le_max_right _ _) hlt' (Nat.min_le_right _ _) h with
      hold | ⟨hlow, hhigh⟩
    · exact Or.inl hold
    · refine Or.inr ⟨by omega, ?_⟩
      have hbase := hword.1
      have hlength := hword.2
      omega

theorem foldl_addRegion_clear {regions : List Region} (hword : ∀ r ∈ regions, r.Word)
    {acc : (Nat → Bool) × Nat} {p : Nat} (hp : IsPage p)
    (h : (regions.foldl addRegion acc).1 (pageIndex p) = false) :
    acc.1 (pageIndex p) = false ∨ ∃ r ∈ regions, r.Holds p := by
  induction regions generalizing acc with
  | nil => exact Or.inl h
  | cons r rest ih =>
      rcases ih (fun r' hr' => hword r' (List.mem_cons_of_mem r hr')) h with hacc | ⟨r', hr', hin⟩
      · rcases addRegion_clear hp (hword r List.mem_cons_self) hacc with hold | hin
        · exact Or.inl hold
        · exact Or.inr ⟨r, List.mem_cons_self, hin⟩
      · exact Or.inr ⟨r', List.mem_cons_of_mem r hr', hin⟩

/-- **After `memory_init`** every page that is not taken is usable. -/
theorem memoryInit_usable {regions : List Region} (hword : ∀ r ∈ regions, r.Word) (ram : Mem)
    {p : Nat} (hp : IsPage p) (h : ¬ (memoryInit regions ram).Taken p) : Usable regions p := by
  have hfallback : ∀ {bm : Nat → Bool}, markRangeFree bm memBase fallbackTop (pageIndex p) = false →
      bm (pageIndex p) = false ∨ (memBase ≤ p ∧ p + pageSize ≤ fallbackTop) :=
    markRangeFree_clear hp (Nat.le_refl _) (by decide) (by decide)
  have hlist := memoryInit_freeList regions ram
  have hclear : (memoryInit regions ram).bitmap (pageIndex p) = false := by
    by_contra hused
    exact h ⟨hp, by simpa using hused, by rw [hlist]; exact List.not_mem_nil⟩
  cases regions with
  | nil =>
      simp only [memoryInit] at hclear
      rcases hfallback hclear with hused | hin
      · cases hused
      · exact Or.inr ⟨Nat.zero_le _, hin⟩
  | cons r rest =>
      simp only [memoryInit] at hclear
      have hmap : ((r :: rest).foldl addRegion (fun _ => true, 0)).1 (pageIndex p) = false →
          Usable (r :: rest) p := by
        intro hbit
        rcases foldl_addRegion_clear hword hp hbit with hused | hin
        · cases hused
        · exact Or.inl hin
      split at hclear
      · rename_i hnone
        dsimp only at hclear
        rcases hfallback hclear with hbit | hin
        · exact hmap hbit
        · exact Or.inr ⟨hnone, hin⟩
      · exact hmap hclear

/-- An allocation that has not been freed: `count` pages from `start` on.  Those of
`alloc_page` are marked, since only these can be freed. -/
structure Block where
  start : Nat
  count : Nat
  single : Bool
  deriving DecidableEq

/-- No byte is in both. -/
def Block.Disjoint (b b' : Block) : Prop :=
  b.start + b.count * pageSize ≤ b'.start ∨ b'.start + b'.count * pageSize ≤ b.start

instance (b b' : Block) : Decidable (b.Disjoint b') := inferInstanceAs (Decidable (_ ∨ _))

theorem Block.Disjoint.symm {b b' : Block} (h : b.Disjoint b') : b'.Disjoint b := Or.symm h

/-- The address of the `i`-th page. -/
def Block.page (b : Block) (i : Nat) : Nat := b.start + i * pageSize

/-- Blocks of whole pages without a page in common share no byte. -/
theorem Block.disjoint_of_pages {b b' : Block} (hb : b.start % pageSize = 0)
    (hb' : b'.start % pageSize = 0) (hpos : 0 < b.count) (hpos' : 0 < b'.count)
    (h : ∀ i < b.count, ∀ j < b'.count, b.page i ≠ b'.page j) : b.Disjoint b' := by
  unfold Block.Disjoint
  by_contra hover
  rw [not_or] at hover
  rcases Nat.le_total b.start b'.start with hle | hle
  · refine h ((b'.start - b.start) / pageSize) ?_ 0 hpos' ?_
    · simp only [pageSize] at *
      omega
    · simp only [Block.page, pageSize] at *
      omega
  · refine h 0 hpos ((b.start - b'.start) / pageSize) ?_ ?_
    · simp only [pageSize] at *
      omega
    · simp only [Block.page, pageSize] at *
      omega

/-- A call of `memory.c`, or a change of the memory by its users. -/
inductive AllocOp where
  | allocPage
  | allocPagesContig (count : Int)
  | allocDmaPages (count : Int)
  | freePage (addr : Nat)
  | use (ram : Mem)

/-- The pages asked for. -/
def AllocOp.count : AllocOp → Nat
  | .allocPage => 1
  | .allocPagesContig count | .allocDmaPages count => count.toNat
  | .freePage _ | .use _ => 0

/-- The lowest address that may be handed out. -/
def AllocOp.floor : AllocOp → Nat
  | .allocDmaPages _ => privateWindowEnd
  | _ => memBase

/-- The allocator with the list of what is live. -/
structure AllocState where
  memory : Memory
  live : List Block

/-- Note an answer of an allocator. -/
def AllocState.note (s : AllocState) (single : Bool) (count : Nat) :
    Memory × Option Nat → AllocState × Option Nat
  | (m, none) => (⟨m, s.live⟩, none)
  | (m, some p) => (⟨m, ⟨p, count, single⟩ :: s.live⟩, some p)

/-- One event; only a live page of `alloc_page` is freed. -/
def allocStep (s : AllocState) : AllocOp → Option (AllocState × Option Nat)
  | .allocPage => some (s.note true 1 (allocPage s.memory))
  | .allocPagesContig count => some (s.note false count.toNat (allocPagesContig s.memory count))
  | .allocDmaPages count => some (s.note false count.toNat (allocDmaPages s.memory count))
  | .freePage addr =>
      if ⟨addr, 1, true⟩ ∈ s.live then
        some (⟨freePage s.memory addr, s.live.erase ⟨addr, 1, true⟩⟩, none)
      else none
  | .use ram => some (⟨{ s.memory with ram := ram }, s.live⟩, none)

/-- The allocator after `memory_init`. -/
def allocInit (regions : List Region) (ram : Mem) : AllocState := ⟨memoryInit regions ram, []⟩

/-- A run of the allocator. -/
abbrev AllocRun (regions : List Region) (ram : Mem)
    (tr : List (Transition AllocState AllocOp (Option Nat))) (s : AllocState) : Prop :=
  Trace allocStep (allocInit regions ram) tr s

/-- **The invariant**: what is live is taken and usable, blocks are disjoint, and what is not
taken is usable. -/
structure AllocatorOk (regions : List Region) (s : AllocState) : Prop where
  inv : AllocInv s.memory
  usable : ∀ p, IsPage p → ¬ s.memory.Taken p → Usable regions p
  live : ∀ b ∈ s.live, 0 < b.count ∧
    ∀ i < b.count, s.memory.Taken (b.page i) ∧ Usable regions (b.page i)
  disjoint : s.live.Pairwise Block.Disjoint

/-- What every allocator does: the pages were not taken, and now they are, with zeros in
them. -/
structure HandsOut (m m' : Memory) (start count : Nat) : Prop where
  inv : AllocInv m'
  pos : 0 < count
  taken : ∀ i < count, m'.Taken (start + i * pageSize)
  fresh : ∀ i < count, ¬ m.Taken (start + i * pageSize)
  kept : ∀ q, m.Taken q → m'.Taken q
  zero : ∀ x, start ≤ x → x < start + count * pageSize → m'.ram x = 0

theorem Allocated.handsOut {m m' : Memory} {p : Nat} (h : Allocated m m' p) :
    HandsOut m m' p 1 := by
  have hfirst : ∀ i < 1, p + i * pageSize = p := by
    intro i hi
    obtain rfl : i = 0 := by omega
    rw [Nat.zero_mul, Nat.add_zero]
  refine ⟨h.inv, Nat.one_pos, fun i hi => ?_, fun i hi => ?_, h.kept, fun x hlow hhigh => ?_⟩
  · rw [hfirst i hi]
    exact h.taken
  · rw [hfirst i hi]
    exact h.fresh
  · rw [h.ram]
    exact zeroRange_inside hlow (by omega)

/-- Zeroing a run of pages. -/
theorem foldl_zeroPage_inside (ram : Mem) {start count x : Nat} (hlow : start ≤ x)
    (hhigh : x < start + count * pageSize) :
    (List.range count).foldl (fun ram i => halZeroPage ram (start + i * pageSize)) ram x = 0 := by
  induction count with
  | zero => omega
  | succ count ih =>
      rw [List.range_succ, List.foldl_append, List.foldl_cons, List.foldl_nil]
      rw [Nat.succ_mul] at hhigh
      by_cases hlast : start + count * pageSize ≤ x
      · exact zeroRange_inside hlast (by omega)
      · exact (zeroRange_outside (Or.inl (Nat.lt_of_not_le hlast))).trans (ih (by omega))

theorem contigScan_zero {count fuel start p : Nat} {m : Memory}
    (h : (contigScan count fuel start m).2 = some p) {x : Nat} (hlow : p ≤ x)
    (hhigh : x < p + count * pageSize) : (contigScan count fuel start m).1.ram x = 0 := by
  induction fuel generalizing start with
  | zero => cases h
  | succ fuel ih =>
      unfold contigScan at h ⊢
      by_cases hfits : start + count * pageSize ≤ m.memTop
      swap
      · rw [if_neg hfits] at h
        cases h
      rw [if_pos hfits] at h ⊢
      by_cases hfree : ((List.range count).all fun i => !m.bitmap (pageIndex start + i)) = true
      · rw [if_pos hfree] at h ⊢
        cases h
        exact foldl_zeroPage_inside m.ram hlow hhigh
      · rw [if_neg hfree] at h ⊢
        exact ih h

/-- **`find_and_claim_contig`** hands out pages from its start on, or does nothing. -/
theorem findAndClaimContig_handsOut {m : Memory} (h : AllocInv m) {searchStart : Nat}
    (hstart : searchStart % pageSize = 0 ∧ memBase ≤ searchStart) (count : Int) :
    ((findAndClaimContig m searchStart count).2 = none ∧
      (findAndClaimContig m searchStart count).1 = m) ∨
    ∃ p, (findAndClaimContig m searchStart count).2 = some p ∧ searchStart ≤ p ∧
      HandsOut m (findAndClaimContig m searchStart count).1 p count.toNat := by
  unfold findAndClaimContig
  split
  · exact Or.inl ⟨rfl, rfl⟩
  · rename_i hpos
    rcases contigScan_spec count.toNat ((m.memTop - searchStart) / pageSize + 1) h hstart with
      hnone | ⟨p, hsome, hle, hclaim⟩
    · exact Or.inl hnone
    · refine Or.inr ⟨p, hsome, hle, hclaim.inv, by omega, hclaim.taken, hclaim.fresh, hclaim.kept, ?_⟩
      exact fun x hlow hhigh => contigScan_zero hsome hlow hhigh

/-- A page that is handed out is one of those that are usable. -/
theorem AllocatorOk.usable_of_handsOut {regions : List Region} {s : AllocState} {m : Memory}
    {p count : Nat} (h : AllocatorOk regions s) (hout : HandsOut s.memory m p count) {i : Nat}
    (hi : i < count) : Usable regions (p + i * pageSize) :=
  h.usable _ (hout.taken i hi).page (hout.fresh i hi)

/-- **Handing out pages keeps the invariant.** -/
theorem AllocatorOk.handOut {regions : List Region} {s : AllocState} {m : Memory} {p count : Nat}
    (h : AllocatorOk regions s) (hout : HandsOut s.memory m p count) (single : Bool) :
    AllocatorOk regions ⟨m, ⟨p, count, single⟩ :: s.live⟩ := by
  refine ⟨hout.inv, fun q hq hfree => h.usable q hq fun htaken => hfree (hout.kept q htaken), ?_, ?_⟩
  · intro b hb
    rcases List.mem_cons.mp hb with rfl | hold
    · exact ⟨hout.pos, fun i hi => ⟨hout.taken i hi, h.usable_of_handsOut hout hi⟩⟩
    · obtain ⟨hpos, hpages⟩ := h.live b hold
      exact ⟨hpos, fun i hi => ⟨hout.kept _ (hpages i hi).1, (hpages i hi).2⟩⟩
  · refine List.pairwise_cons.mpr ⟨fun b hb => ?_, h.disjoint⟩
    obtain ⟨hpos, hpages⟩ := h.live b hb
    have haligned : ∀ {q : Nat}, IsPage (q + 0 * pageSize) → q % pageSize = 0 := by
      intro q hq
      have hq' := hq.aligned
      rw [Nat.zero_mul, Nat.add_zero] at hq'
      exact hq'
    refine Block.disjoint_of_pages (haligned (hout.taken 0 hout.pos).page)
      (haligned (hpages 0 hpos).1.page) hout.pos hpos ?_
    intro i hi j hj heq
    apply hout.fresh i hi
    have hsame : p + i * pageSize = b.page j := heq
    rw [hsame]
    exact (hpages j hj).1

/-- **Freeing a live page keeps the invariant.** -/
theorem AllocatorOk.free {regions : List Region} {s : AllocState} {p : Nat}
    (h : AllocatorOk regions s) (hlive : ⟨p, 1, true⟩ ∈ s.live) :
    AllocatorOk regions ⟨freePage s.memory p, s.live.erase ⟨p, 1, true⟩⟩ := by
  obtain ⟨-, hpages⟩ := h.live _ hlive
  have hfirst : (⟨p, 1, true⟩ : Block).page 0 = p := by
    simp [Block.page]
  obtain ⟨htaken, husable⟩ := hpages 0 Nat.one_pos
  rw [hfirst] at htaken husable
  obtain ⟨hinv, hkept⟩ := freePage_spec h.inv htaken
  have hothers := ((List.perm_cons_erase hlive).pairwise_iff fun hd => Block.Disjoint.symm hd).mp
    h.disjoint
  rw [List.pairwise_cons] at hothers
  refine ⟨hinv, fun q hq hfree => ?_, fun b hb => ?_, hothers.2⟩
  · by_cases hqp : q = p
    · rw [hqp]
      exact husable
    · exact h.usable q hq fun hq' => hfree (hkept q hqp hq')
  · obtain ⟨hpos, hbpages⟩ := h.live b (List.mem_of_mem_erase hb)
    refine ⟨hpos, fun i hi => ⟨hkept _ ?_ (hbpages i hi).1, (hbpages i hi).2⟩⟩
    intro heq
    have hmul : (i + 1) * pageSize ≤ b.count * pageSize := Nat.mul_le_mul_right _ hi
    have hdisj := hothers.1 b hb
    simp only [Block.Disjoint, Block.page, Nat.add_mul, pageSize] at *
    omega

/-- The bitmap and the free list decide everything but the cursor. -/
theorem AllocatorOk.moved {regions : List Region} {s : AllocState} {m : Memory}
    (h : AllocatorOk regions s) (hinv : AllocInv m) (hbitmap : m.bitmap = s.memory.bitmap)
    (hlist : m.freeList = s.memory.freeList) : AllocatorOk regions ⟨m, s.live⟩ := by
  have htaken : ∀ p, m.Taken p ↔ s.memory.Taken p := by
    intro p
    constructor
    · exact fun ht => ⟨ht.page, by rw [← hbitmap]; exact ht.used, by rw [← hlist]; exact ht.notFree⟩
    · exact fun ht => ⟨ht.page, by rw [hbitmap]; exact ht.used, by rw [hlist]; exact ht.notFree⟩
  refine ⟨hinv, fun p hp hfree => ?_, fun b hb => ?_, h.disjoint⟩
  · exact h.usable p hp fun ht => hfree ((htaken p).mpr ht)
  · obtain ⟨hpos, hpages⟩ := h.live b hb
    exact ⟨hpos, fun i hi => ⟨(htaken _).mpr (hpages i hi).1, (hpages i hi).2⟩⟩

theorem note_none (s : AllocState) (single : Bool) (count : Nat) {x : Memory × Option Nat}
    (h : x.2 = none) : s.note single count x = (⟨x.1, s.live⟩, none) := by
  obtain ⟨m, answer⟩ := x
  cases h
  rfl

theorem note_some (s : AllocState) (single : Bool) (count : Nat) {x : Memory × Option Nat} {p : Nat}
    (h : x.2 = some p) :
    s.note single count x = (⟨x.1, ⟨p, count, single⟩ :: s.live⟩, some p) := by
  obtain ⟨m, answer⟩ := x
  cases h
  rfl

/-- **Every event keeps the invariant**, and what it returns it has handed out. -/
theorem AllocatorOk.step {regions : List Region} {s s' : AllocState} {op : AllocOp}
    {o : Option Nat} (h : AllocatorOk regions s) (hstep : allocStep s op = some (s', o)) :
    AllocatorOk regions s' ∧
      ∀ p, o = some p → op.floor ≤ p ∧ HandsOut s.memory s'.memory p op.count := by
  have hcontig : ∀ {searchStart : Nat} {count : Int}, searchStart % pageSize = 0 →
      memBase ≤ searchStart →
      s.note false count.toNat (findAndClaimContig s.memory searchStart count) = (s', o) →
      AllocatorOk regions s' ∧
        ∀ p, o = some p → searchStart ≤ p ∧ HandsOut s.memory s'.memory p count.toNat := by
    intro searchStart count haligned hbase heq
    rcases findAndClaimContig_handsOut h.inv ⟨haligned, hbase⟩ count with
      ⟨hnone, hsame⟩ | ⟨p, hsome, hle, hout⟩
    · rw [note_none s _ _ hnone, hsame] at heq
      cases heq
      exact ⟨h, fun p hp => by cases hp⟩
    · rw [note_some s _ _ hsome] at heq
      cases heq
      refine ⟨h.handOut hout false, fun q hq => ?_⟩
      cases hq
      exact ⟨hle, hout⟩
  cases op with
  | allocPage =>
      have heq := Option.some.inj hstep
      rcases allocPage_spec h.inv with ⟨hnone, n, hsame, hinv⟩ | ⟨p, hsome, halloc⟩
      · rw [note_none s _ _ hnone] at heq
        cases heq
        refine ⟨h.moved hinv ?_ ?_, fun p hp => by cases hp⟩
        · rw [hsame]
        · rw [hsame]
      · rw [note_some s _ _ hsome] at heq
        cases heq
        have hout := halloc.handsOut
        refine ⟨h.handOut hout true, fun q hq => ?_⟩
        cases hq
        exact ⟨halloc.taken.page.base, hout⟩
  | allocPagesContig count =>
      have haligned : memBase % pageSize = 0 := by decide
      exact hcontig haligned (Nat.le_refl _) (Option.some.inj hstep)
  | allocDmaPages count =>
      have haligned : privateWindowEnd % pageSize = 0 := by decide
      have hbase : memBase ≤ privateWindowEnd := by decide
      exact hcontig haligned hbase (Option.some.inj hstep)
  | freePage addr =>
      simp only [allocStep] at hstep
      split at hstep
      · rename_i hlive
        cases hstep
        exact ⟨h.free hlive, fun p hp => by cases hp⟩
      · cases hstep
  | use ram =>
      cases hstep
      exact ⟨h.moved ⟨h.inv.top, h.inv.next, h.inv.free, h.inv.nodup⟩ rfl rfl,
        fun p hp => by cases hp⟩

section Runs

variable {regions : List Region} {ram : Mem} {tr : List (Transition AllocState AllocOp (Option Nat))}
  {s : AllocState}

/-- **The invariant of the allocator.** -/
theorem AllocRun.ok (hword : ∀ r ∈ regions, r.Word) (hrun : AllocRun regions ram tr s) :
    AllocatorOk regions s := by
  refine hrun.invariant ?_ fun s op o s' hok hstep => (hok.step hstep).1
  refine ⟨(memoryInit_spec regions ram).1, fun p hp hfree => memoryInit_usable hword ram hp hfree,
    fun b hb => ?_, List.Pairwise.nil⟩
  cases hb

/-- **Page allocator safety.**  For every memory map and every run: live allocations are
disjoint; every page of an answer is aligned, zero, above the floor of the call and below
256MB, and inside one usable region, or inside 1MB-16MB if the fallback was taken; and no
loop leaves the bitmap. -/
theorem page_allocator_safe (hword : ∀ r ∈ regions, r.Word) (hrun : AllocRun regions ram tr s) :
    s.live.Pairwise Block.Disjoint ∧
    (∀ op s' p, allocStep s op = some (s', some p) → ∀ i < op.count,
      (p + i * pageSize) % pageSize = 0 ∧
      op.floor ≤ p + i * pageSize ∧ p + i * pageSize + pageSize ≤ memCap ∧
      (∀ x, p + i * pageSize ≤ x → x < p + i * pageSize + pageSize → s'.memory.ram x = 0) ∧
      Usable regions (p + i * pageSize)) ∧
    memoryInitChecked regions = some (memoryInit regions ram).bitmap ∧
    allocPageChecked s.memory = some (allocPage s.memory) ∧
    ∀ count,
      findAndClaimContigChecked s.memory memBase count =
        some (allocPagesContig s.memory count) ∧
      findAndClaimContigChecked s.memory privateWindowEnd count =
        some (allocDmaPages s.memory count) := by
  have hok := AllocRun.ok hword hrun
  refine ⟨hok.disjoint, ?_, memoryInitChecked_eq regions ram, allocPageChecked_eq hok.inv,
    fun count => ⟨findAndClaimContigChecked_eq hok.inv (Nat.le_refl _) count,
      findAndClaimContigChecked_eq hok.inv (by decide) count⟩⟩
  intro op s' p hstep i hi
  obtain ⟨hfloor, hout⟩ := (hok.step hstep).2 p rfl
  have hpage := (hout.taken i hi).page
  have hmul : (i + 1) * pageSize ≤ op.count * pageSize := Nat.mul_le_mul_right _ hi
  have hcap := hpage.cap
  have haligned := hpage.aligned
  refine ⟨haligned, by omega, ?_, fun x hlow hhigh => ?_, hok.usable_of_handsOut hout hi⟩
  · generalize p + i * pageSize = q at *
    simp only [memCap, pageSize] at *
    omega
  · rw [Nat.succ_mul] at hmul
    exact hout.zero x (by omega) (by omega)

end Runs

/-- An unaligned region with two whole pages, and one above the private window. -/
def sampleRegions : List Region := [⟨0x100800, 0x3000⟩, ⟨0x200000, 0x4000⟩]

set_option maxRecDepth 100000 in
/-- Two pages are taken, one is given back, and two are taken for a device. -/
theorem page_allocator_safe_sample :
    ∃ tr s, (∀ r ∈ sampleRegions, r.Word) ∧ AllocRun sampleRegions (fun _ => 0xFF) tr s ∧
      s.live = [⟨0x200000, 2, false⟩, ⟨0x102000, 1, true⟩] ∧ s.live.Pairwise Block.Disjoint := by
  have hword : ∀ r ∈ sampleRegions, r.Word := by
    intro r hr
    simp only [sampleRegions, List.mem_cons, List.not_mem_nil, or_false] at hr
    rcases hr with rfl | rfl
    · exact ⟨by decide, by decide⟩
    · exact ⟨by decide, by decide⟩
  have hrun : (runTrace allocStep [] (allocInit sampleRegions fun _ => 0xFF)
      [.allocPage, .allocPage, .freePage 0x101000, .allocDmaPages 2]).map (fun r => r.2.live) =
        some [⟨0x200000, 2, false⟩, ⟨0x102000, 1, true⟩] := by
    decide +kernel
  obtain ⟨tr, s, htrace, hlive⟩ := exists_trace_of_runTrace hrun
  exact ⟨tr, s, hword, htrace, hlive, (page_allocator_safe hword htrace).1⟩

end Vajra
