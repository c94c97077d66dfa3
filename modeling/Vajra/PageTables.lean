import Vajra.AddressSpace

/-!
# What the page tables say

`Built` lists the entries that `hal_address_space_create` leaves in the four tables
of a slot, and `ProgramMapped` those of its program window.  From the entries alone
`userMapped_iff` computes the whole ring-3 view: `.user_text`, one stack page, and the
pages of a loaded program.

Every table lies in the part of the first megabyte that is not `.user_text`
(`KernelByte`), so a store anywhere else leaves every address space as it was.
-/

namespace Vajra

open ByteMemory

/-- `.user_text` is made of whole pages. -/
theorem isUserText_page (L : Layout) (va : Nat) :
    IsUserText L (va / pageSize * pageSize) ↔ IsUserText L va := by
  have hstart := L.text_start_aligned
  have hend := L.text_end_aligned
  simp only [IsUserText, pageSize] at *
  omega

/-- A byte of the first megabyte that ring 3 cannot reach. -/
def KernelByte (L : Layout) (x : Nat) : Prop := x < commonsEnd ∧ ¬ IsUserText L x

/-- Two memories with the same kernel bytes. -/
def SameKernel (L : Layout) (ram ram' : Mem) : Prop := ∀ x, KernelByte L x → ram' x = ram x

theorem SameKernel.refl (L : Layout) (ram : Mem) : SameKernel L ram ram := fun _ _ => rfl

theorem SameKernel.trans {L : Layout} {ram ram' ram'' : Mem} (h : SameKernel L ram ram')
    (h' : SameKernel L ram' ram'') : SameKernel L ram ram'' :=
  fun x hx => (h' x hx).trans (h x hx)

/-- A table entry depends on its own eight bytes. -/
theorem tableEntry_congr {ram ram' : Mem} {base i : Nat}
    (h : ∀ x, base + 8 * i ≤ x → x < base + 8 * i + 8 → ram' x = ram x) :
    tableEntry ram' base i = tableEntry ram base i :=
  readLE_congr h

section LayoutFacts

variable (L : Layout)

/-- Every byte of every table is a kernel byte. -/
theorem table_kernelByte (t : TableId) {x : Nat} (h1 : L.table t ≤ x)
    (h2 : x < L.table t + pageSize) : KernelByte L x := by
  have haligned := L.table_aligned t
  have hlow := L.table_low t
  have hnot := L.table_not_text t
  have hstart := L.text_start_aligned
  have hend := L.text_end_aligned
  simp only [KernelByte, IsUserText, commonsEnd, pageSize] at *
  omega

/-- Every byte of the boot page directory is a kernel byte. -/
theorem boot_kernelByte {x : Nat} (h1 : pageDirPhysBase ≤ x) (h2 : x < pageDirPhysBase + pageSize) :
    KernelByte L x := by
  have hnot := L.text_not_boot
  have hstart := L.text_start_aligned
  have hend := L.text_end_aligned
  simp only [KernelByte, IsUserText, commonsEnd, pageSize, pageDirPhysBase] at *
  omega

/-- Different tables are different pages. -/
theorem table_disjoint {t u : TableId} (h : t ≠ u) :
    L.table t + pageSize ≤ L.table u ∨ L.table u + pageSize ≤ L.table t := by
  have hne : L.table t ≠ L.table u := fun heq => h (L.table_injective heq)
  have ht := L.table_aligned t
  have hu := L.table_aligned u
  simp only [pageSize] at *
  omega

/-- No table is the boot page directory. -/
theorem table_disjoint_boot (t : TableId) :
    L.table t + pageSize ≤ pageDirPhysBase ∨ pageDirPhysBase + pageSize ≤ L.table t := by
  have hne := L.table_not_boot t
  have ht := L.table_aligned t
  simp only [pageSize, pageDirPhysBase] at *
  omega

end LayoutFacts

theorem SameKernel.tableEntry {L : Layout} {ram ram' : Mem} (h : SameKernel L ram ram')
    (t : TableId) {i : Nat} (hi : i < 512) :
    tableEntry ram' (L.table t) i = tableEntry ram (L.table t) i := by
  apply tableEntry_congr
  intro x h1 h2
  apply h
  apply table_kernelByte L t
  · omega
  · simp only [pageSize]
    omega

/-- The boot directory is as `boot.asm` wrote it. -/
def BootDir (ram : Mem) : Prop :=
  ∀ i < 512, tableEntry ram pageDirPhysBase i = bootDirEntry i

theorem SameKernel.bootDir {L : Layout} {ram ram' : Mem} (h : SameKernel L ram ram')
    (hboot : BootDir ram) : BootDir ram' := by
  intro i hi
  rw [← hboot i hi]
  apply tableEntry_congr
  intro x h1 h2
  apply h
  apply boot_kernelByte L
  · omega
  · simp only [pageSize]
    omega

/-- The entries of the tables of slot `s`, up to the program window. -/
structure Built (L : Layout) (ram : Mem) (s : Slot) (page : Nat) : Prop where
  pml4 : ∀ i < 512, tableEntry ram (L.table (.pml4 s)) i =
    if i = 0 then L.table (.pdpt s) + 7 else 0
  pdpt : ∀ i < 512, tableEntry ram (L.table (.pdpt s)) i =
    if i = 0 then L.table (.pd s) + 7 else 0
  pd : ∀ i < 512, i ≠ 128 → tableEntry ram (L.table (.pd s)) i =
    if i = 0 then L.table (.pt0 s) + 7 else bootDirEntry i
  pt0 : ∀ i < 512, tableEntry ram (L.table (.pt0 s)) i =
    if i < 256 then i * pageSize + (if IsUserText L (i * pageSize) then 7 else 3)
    else if i * pageSize = page then page + 7 else 0

/-- The program window of slot `s`: empty, or the pages of a program, through a pool
table that belongs to the slot. -/
def ProgramMapped (L : Layout) (ram : Mem) (pool : ProgramPool) (s : Slot) :
    Option (Nat × Nat) → Prop
  | none => tableEntry ram (L.table (.pd s)) 128 = 0
  | some (phys, size) => ∃ index, pool.initDone = true ∧ pool.owner index = ((s : Nat) : Int) ∧
      tableEntry ram (L.table (.pd s)) 128 = L.table (.pt1 index) + 7 ∧
      ∀ i < 512, tableEntry ram (L.table (.pt1 index)) i =
        if i < size / pageSize then phys + i * pageSize + 7 else 0

theorem Built.of_sameKernel {L : Layout} {ram ram' : Mem} {s : Slot} {page : Nat}
    (h : Built L ram s page) (hsame : SameKernel L ram ram') : Built L ram' s page where
  pml4 i hi := by rw [hsame.tableEntry _ hi, h.pml4 i hi]
  pdpt i hi := by rw [hsame.tableEntry _ hi, h.pdpt i hi]
  pd i hi hne := by rw [hsame.tableEntry _ hi, h.pd i hi hne]
  pt0 i hi := by rw [hsame.tableEntry _ hi, h.pt0 i hi]

theorem ProgramMapped.of_sameKernel {L : Layout} {ram ram' : Mem} {pool : ProgramPool} {s : Slot}
    {prog : Option (Nat × Nat)} (h : ProgramMapped L ram pool s prog)
    (hsame : SameKernel L ram ram') : ProgramMapped L ram' pool s prog := by
  match prog, h with
  | none, h =>
      rw [ProgramMapped, hsame.tableEntry _ (by decide)]
      exact h
  | some (phys, size), ⟨index, hinit, howner, hpd, hpt1⟩ =>
      refine ⟨index, hinit, howner, ?_, ?_⟩
      · rw [hsame.tableEntry _ (by decide)]
        exact hpd
      · intro i hi
        rw [hsame.tableEntry _ hi]
        exact hpt1 i hi

section Entries

/-- A page-aligned address with the low flag bits set. -/
theorem or_flags {x : Nat} (h : x % pageSize = 0) {f : Nat} (hf : f < 8) : x ||| f = x + f := by
  obtain ⟨k, rfl⟩ : ∃ k, x = 2 ^ 12 * k := by
    refine ⟨x / 4096, ?_⟩
    simp only [pageSize] at h
    omega
  exact (Nat.two_pow_add_eq_or_of_lt (by omega) k).symm

variable {x : Nat}

theorem entryPage_flags (h : x % pageSize = 0) (hx : x < 2 ^ 52) {f : Nat} (hf : f < 8) :
    entryPage (x + f) = x := by
  simp only [entryPage, pageSize] at *
  omega

theorem present_seven (h : x % pageSize = 0) : Present (x + 7) := by
  simp only [Present, pageSize] at *
  omega

theorem writable_seven (h : x % pageSize = 0) : Writable (x + 7) := by
  simp only [Writable, pageSize] at *
  omega

theorem user_seven (h : x % pageSize = 0) : User (x + 7) := by
  simp only [User, pageSize] at *
  omega

theorem not_huge_seven (h : x % pageSize = 0) : ¬ Huge (x + 7) := by
  simp only [Huge, pageSize] at *
  omega

theorem not_user_three (h : x % pageSize = 0) : ¬ User (x + 3) := by
  simp only [User, pageSize] at *
  omega

theorem not_present_zero : ¬ Present 0 := by decide

/-- The boot directory grants ring 3 nothing. -/
theorem not_user_bootDirEntry (i : Nat) : ¬ User (bootDirEntry i) := by
  unfold bootDirEntry
  split
  · simp only [User, pageSize2M]
    omega
  · decide

/-- A present entry of the boot directory is a leaf. -/
theorem huge_bootDirEntry {i : Nat} (h : Present (bootDirEntry i)) : Huge (bootDirEntry i) := by
  unfold bootDirEntry at *
  split
  · simp only [Huge, pageSize2M]
    omega
  · rename_i hi
    rw [if_neg hi] at h
    exact absurd h not_present_zero

end Entries

section View

variable {L : Layout} {ram : Mem} {pool : ProgramPool} {s : Slot} {page : Nat}
  {prog : Option (Nat × Nat)}

/-- A table as an entry, with all three permissions. -/
theorem table_lt (L : Layout) (t : TableId) : L.table t < 2 ^ 52 := by
  have := L.table_low t
  simp only [commonsEnd] at this
  omega

/-- The walk from the page directory on, for an address in the first gigabyte. -/
def walkDir (ram : Mem) (dir va : Nat) : Option Leaf :=
  let e2 := tableEntry ram dir (va / 2 ^ 21)
  let e1 := tableEntry ram (entryPage e2) (va / 2 ^ 12 % 512)
  if ¬ Present e2 then none
  else if Huge e2 then
    some { page := entryFrame2M e2 + va / pageSize % 512 * pageSize
           user := User e2
           writable := Writable e2 }
  else if ¬ Present e1 then none
  else some { page := entryPage e1, user := User e2 ∧ User e1, writable := Writable e2 ∧ Writable e1 }

/-- Only the first gigabyte is mapped, and its directory decides everything. -/
theorem Built.walk_eq (h : Built L ram s page) (va : Nat) :
    walk ram (L.table (.pml4 s)) va =
      if va < 2 ^ 30 then walkDir ram (L.table (.pd s)) va else none := by
  have hroot : entryPage (L.table (.pml4 s)) = L.table (.pml4 s) :=
    entryPage_flags (f := 0) (L.table_aligned _) (table_lt L _) (by decide)
  have hpdpt := L.table_aligned (.pdpt s)
  have hpd := L.table_aligned (.pd s)
  unfold walk
  dsimp only
  rw [hroot, h.pml4 _ (Nat.mod_lt _ (by decide))]
  by_cases h4 : va / 2 ^ 39 % 512 = 0
  swap
  · have hhigh : ¬ va < 2 ^ 30 := by omega
    rw [if_neg h4, if_neg hhigh]
    simp [not_present_zero]
  rw [if_pos h4, entryPage_flags hpdpt (table_lt L _) (by decide),
    h.pdpt _ (Nat.mod_lt _ (by decide))]
  by_cases h3 : va / 2 ^ 30 % 512 = 0
  swap
  · have hhigh : ¬ va < 2 ^ 30 := by omega
    rw [if_neg h3, if_neg hhigh]
    simp [not_present_zero]
  rw [if_pos h3, entryPage_flags hpd (table_lt L _) (by decide)]
  by_cases hcanon : Canonical va
  swap
  · have hhigh : ¬ va < 2 ^ 30 := by
      intro hlow
      exact hcanon (Or.inl (by omega))
    rw [if_neg hhigh, if_pos hcanon]
  have hlow : va < 2 ^ 30 := by
    simp only [Canonical] at hcanon
    omega
  have h2 : va / 2 ^ 21 % 512 = va / 2 ^ 21 := by omega
  rw [if_pos hlow, h2]
  simp [walkDir, hcanon, present_seven hpdpt, present_seven hpd, user_seven hpdpt, user_seven hpd,
    writable_seven hpdpt, writable_seven hpd]

/-- What the placement of a program has to satisfy. -/
structure Placed (phys size : Nat) : Prop where
  base : phys % pageSize = 0
  whole : size % pageSize = 0
  small : size ≤ programWindowMax
  cap : phys + size ≤ memCap

/-- The pages ring 3 is meant to see in the address space of an actor with the stack
page `page` and the program `prog`: virtual address and physical page. -/
inductive Visible (L : Layout) (page : Nat) : Option (Nat × Nat) → Nat → Nat → Prop
  | text {prog : Option (Nat × Nat)} {va : Nat} (h : IsUserText L va) :
      Visible L page prog va (va / pageSize * pageSize)
  | stack {prog : Option (Nat × Nat)} {va : Nat} (h1 : page ≤ va) (h2 : va < page + pageSize) :
      Visible L page prog va page
  | program {phys size va : Nat} (h1 : programVbase ≤ va) (h2 : va < programVbase + size) :
      Visible L page (some (phys, size)) va (phys + (va - programVbase) / pageSize * pageSize)

/-- A walk that goes through a 4KB table. -/
theorem walkDir_table {dir table va : Nat} (hentry : tableEntry ram dir (va / 2 ^ 21) = table + 7)
    (haligned : table % pageSize = 0) (hlt : table < 2 ^ 52) :
    walkDir ram dir va =
      if Present (tableEntry ram table (va / 2 ^ 12 % 512)) then
        some ⟨entryPage (tableEntry ram table (va / 2 ^ 12 % 512)),
          User (tableEntry ram table (va / 2 ^ 12 % 512)),
          Writable (tableEntry ram table (va / 2 ^ 12 % 512))⟩
      else none := by
  simp only [walkDir, hentry, entryPage_flags haligned hlt (show 7 < 8 by decide)]
  simp [present_seven haligned, not_huge_seven haligned, user_seven haligned,
    writable_seven haligned]

/-- 0-1MB: the identity, open to ring 3 in `.user_text` only. -/
theorem Built.walkDir_commons (h : Built L ram s page) {va : Nat} (hva : va < 2 ^ 20) :
    walkDir ram (L.table (.pd s)) va = some ⟨va / pageSize * pageSize, IsUserText L va, true⟩ := by
  have hdir : tableEntry ram (L.table (.pd s)) (va / 2 ^ 21) = L.table (.pt0 s) + 7 := by
    rw [show va / 2 ^ 21 = 0 by omega, h.pd 0 (by decide) (by decide), if_pos rfl]
  have hidx : va / 2 ^ 12 % 512 = va / pageSize := by
    simp only [pageSize]
    omega
  have hsmall : va / pageSize < 256 := by
    simp only [pageSize]
    omega
  have haligned : va / pageSize * pageSize % pageSize = 0 := Nat.mul_mod_left _ _
  have hlt : va / pageSize * pageSize < 2 ^ 52 := by
    simp only [pageSize]
    omega
  have htext := isUserText_page L va
  rw [walkDir_table hdir (L.table_aligned _) (table_lt L _), hidx, h.pt0 _ (by omega),
    if_pos hsmall]
  by_cases hin : IsUserText L va
  · rw [if_pos (htext.mpr hin), if_pos (present_seven haligned),
      entryPage_flags haligned hlt (by decide)]
    simp [user_seven haligned, writable_seven haligned, hin]
  · have hpresent : Present (va / pageSize * pageSize + 3) := by
      simp only [Present, pageSize]
      omega
    have hwritable : Writable (va / pageSize * pageSize + 3) := by
      simp only [Writable, pageSize]
      omega
    rw [if_neg (fun hin' => hin (htext.mp hin')), if_pos hpresent,
      entryPage_flags haligned hlt (by decide)]
    simp [not_user_three haligned, hwritable, hin]

/-- 1MB-2MB: the stack page and nothing else. -/
theorem Built.walkDir_private (h : Built L ram s page) (haligned : page % pageSize = 0)
    {va : Nat} (hlow : 2 ^ 20 ≤ va) (hva : va < 2 ^ 21) :
    walkDir ram (L.table (.pd s)) va =
      if page ≤ va ∧ va < page + pageSize then some ⟨page, true, true⟩ else none := by
  have hdir : tableEntry ram (L.table (.pd s)) (va / 2 ^ 21) = L.table (.pt0 s) + 7 := by
    rw [show va / 2 ^ 21 = 0 by omega, h.pd 0 (by decide) (by decide), if_pos rfl]
  have hidx : va / 2 ^ 12 % 512 = va / pageSize := by
    simp only [pageSize]
    omega
  have hlarge : ¬ va / pageSize < 256 := by
    simp only [pageSize]
    omega
  have hpage : va / pageSize * pageSize = page ↔ (page ≤ va ∧ va < page + pageSize) := by
    simp only [pageSize] at *
    omega
  rw [walkDir_table hdir (L.table_aligned _) (table_lt L _), hidx,
    h.pt0 _ (by simp only [pageSize]; omega), if_neg hlarge]
  by_cases hin : page ≤ va ∧ va < page + pageSize
  · have hlt : page < 2 ^ 52 := by omega
    rw [if_pos (hpage.mpr hin), if_pos hin, if_pos (present_seven haligned),
      entryPage_flags haligned hlt (by decide)]
    simp [user_seven haligned, writable_seven haligned]
  · rw [if_neg (fun heq => hin (hpage.mp heq)), if_neg hin, if_neg not_present_zero]

/-- 2MB-1GB outside the program window: nothing for ring 3. -/
theorem Built.walkDir_boot (h : Built L ram s page) {va : Nat} (hlow : 2 ^ 21 ≤ va)
    (hva : va < 2 ^ 30) (hwindow : va / 2 ^ 21 ≠ 128) {leaf : Leaf}
    (hleaf : walkDir ram (L.table (.pd s)) va = some leaf) : leaf.user = false := by
  have hentry := h.pd (va / 2 ^ 21) (by omega) hwindow
  rw [if_neg (by omega)] at hentry
  by_cases hpresent : Present (bootDirEntry (va / 2 ^ 21))
  · have hhuge := huge_bootDirEntry hpresent
    simp only [walkDir, hentry, hpresent, hhuge, not_true, if_false, if_true,
      Option.some.injEq] at hleaf
    rw [← hleaf]
    exact decide_eq_false (not_user_bootDirEntry _)
  · simp only [walkDir, hentry, hpresent, not_false_eq_true, if_true, reduceCtorEq] at hleaf

/-- The program window of an actor without a program. -/
theorem ProgramMapped.walkDir_none (h : ProgramMapped L ram pool s none) {va : Nat}
    (hwindow : va / 2 ^ 21 = 128) : walkDir ram (L.table (.pd s)) va = none := by
  have hentry : tableEntry ram (L.table (.pd s)) (va / 2 ^ 21) = 0 := by
    rw [hwindow]
    exact h
  simp only [walkDir, hentry, not_present_zero, not_false_eq_true, if_true]

/-- The program window of an actor with a program. -/
theorem ProgramMapped.walkDir_some {phys size : Nat}
    (h : ProgramMapped L ram pool s (some (phys, size))) (hplaced : Placed phys size) {va : Nat}
    (hwindow : va / 2 ^ 21 = 128) :
    walkDir ram (L.table (.pd s)) va =
      if va < programVbase + size then
        some ⟨phys + (va - programVbase) / pageSize * pageSize, true, true⟩
      else none := by
  obtain ⟨index, _, _, hpd, hpt1⟩ := h
  obtain ⟨hbase, hwhole, hsmall, hcap⟩ := hplaced
  have hdir : tableEntry ram (L.table (.pd s)) (va / 2 ^ 21) = L.table (.pt1 index) + 7 := by
    rw [hwindow]
    exact hpd
  have hidx : va / 2 ^ 12 % 512 = (va - programVbase) / pageSize := by
    simp only [pageSize, programVbase]
    omega
  have hin : (va - programVbase) / pageSize < size / pageSize ↔ va < programVbase + size := by
    simp only [pageSize, programVbase] at *
    omega
  rw [walkDir_table hdir (L.table_aligned _) (table_lt L _), hidx,
    hpt1 _ (by rw [← hidx]; exact Nat.mod_lt _ (by decide))]
  by_cases hmapped : va < programVbase + size
  · have haligned : (phys + (va - programVbase) / pageSize * pageSize) % pageSize = 0 := by
      simp only [pageSize] at *
      omega
    have hlt : phys + (va - programVbase) / pageSize * pageSize < 2 ^ 52 := by
      simp only [pageSize, programVbase, memCap, programWindowMax] at *
      omega
    rw [if_pos (hin.mpr hmapped), if_pos hmapped, if_pos (present_seven haligned),
      entryPage_flags haligned hlt (by decide)]
    simp [user_seven haligned, writable_seven haligned]
  · rw [if_neg (fun hlt => hmapped (hin.mp hlt)), if_neg hmapped, if_neg not_present_zero]

/-- Where the three kinds of visible pages lie. -/
theorem Visible.range {va p : Nat} (h : Visible L page prog va p)
    (hplaced : ∀ phys size, prog = some (phys, size) → Placed phys size) :
    (va < 2 ^ 20 ∧ IsUserText L va ∧ p = va / pageSize * pageSize) ∨
    (page ≤ va ∧ va < page + pageSize ∧ p = page) ∨
    (va / 2 ^ 21 = 128 ∧ ∃ phys size, prog = some (phys, size) ∧ va < programVbase + size ∧
      p = phys + (va - programVbase) / pageSize * pageSize) := by
  cases h with
  | text h =>
      have hlow := L.text_low
      refine Or.inl ⟨?_, h, rfl⟩
      simp only [IsUserText, commonsEnd] at *
      omega
  | stack h1 h2 => exact Or.inr (Or.inl ⟨h1, h2, rfl⟩)
  | @program phys size _ h1 h2 =>
      have hsmall := (hplaced phys size rfl).small
      refine Or.inr (Or.inr ⟨?_, phys, size, rfl, h2, rfl⟩)
      simp only [programVbase, programWindowMax] at *
      omega

/-- **The exact ring-3 view.**  A translation open to ring 3 is one of the pages meant
to be visible, and every one of these is writable. -/
theorem Built.user_leaf_iff (h : Built L ram s page) (hprog : ProgramMapped L ram pool s prog)
    (haligned : page % pageSize = 0) (hlow : commonsEnd ≤ page)
    (hhigh : page + pageSize ≤ privateWindowEnd)
    (hplaced : ∀ phys size, prog = some (phys, size) → Placed phys size) (va : Nat) (leaf : Leaf) :
    (walk ram (L.table (.pml4 s)) va = some leaf ∧ leaf.user = true) ↔
      Visible L page prog va leaf.page ∧ leaf = ⟨leaf.page, true, true⟩ := by
  rw [h.walk_eq]
  have hlow' : 2 ^ 20 ≤ page := hlow
  have hhigh' : page + pageSize ≤ 2 ^ 21 := hhigh
  by_cases hgig : va < 2 ^ 30
  swap
  · rw [if_neg hgig]
    refine iff_of_false (by simp) (fun hvis => ?_)
    rcases hvis.1.range hplaced with ⟨hva, _⟩ | ⟨_, hva, _⟩ | ⟨hva, _⟩
    · omega
    · omega
    · omega
  rw [if_pos hgig]
  by_cases hcommons : va < 2 ^ 20
  · rw [h.walkDir_commons hcommons]
    constructor
    · rintro ⟨hleaf, huser⟩
      cases hleaf
      have hin : IsUserText L va := by simpa using huser
      exact ⟨.text hin, by simp [hin]⟩
    · rintro ⟨hvis, heq⟩
      rcases hvis.range hplaced with ⟨_, hin, hp⟩ | ⟨hva, _⟩ | ⟨hva, _⟩
      · rw [heq, hp]
        simp [hin]
      · omega
      · omega
  by_cases hprivate : va < 2 ^ 21
  · rw [h.walkDir_private haligned (by omega) hprivate]
    constructor
    · rintro ⟨hleaf, _⟩
      split at hleaf
      · rename_i hin
        cases hleaf
        exact ⟨.stack hin.1 hin.2, rfl⟩
      · cases hleaf
    · rintro ⟨hvis, heq⟩
      rcases hvis.range hplaced with ⟨hva, _⟩ | ⟨h1, h2, hp⟩ | ⟨hva, _⟩
      · omega
      · rw [heq, hp, if_pos ⟨h1, h2⟩]
        simp
      · omega
  by_cases hwindow : va / 2 ^ 21 = 128
  · match prog, hprog, hplaced with
    | none, hprog, hplaced =>
        rw [hprog.walkDir_none hwindow]
        refine iff_of_false (by simp) (fun hvis => ?_)
        rcases hvis.1.range hplaced with ⟨hva, _⟩ | ⟨_, hva, _⟩ | ⟨_, phys, size, hnone, _⟩
        · omega
        · omega
        · cases hnone
    | some (phys, size), hprog, hplaced =>
        rw [hprog.walkDir_some (hplaced phys size rfl) hwindow]
        constructor
        · rintro ⟨hleaf, _⟩
          split at hleaf
          · rename_i hin
            cases hleaf
            refine ⟨.program ?_ hin, rfl⟩
            simp only [programVbase]
            omega
          · cases hleaf
        · rintro ⟨hvis, heq⟩
          rcases hvis.range hplaced with ⟨hva, _⟩ | ⟨_, hva, _⟩ | ⟨_, phys', size', hsome, hin, hp⟩
          · omega
          · omega
          · cases hsome
            rw [heq, hp, if_pos hin]
            simp
  · refine iff_of_false ?_ (fun hvis => ?_)
    · rintro ⟨hleaf, huser⟩
      rw [h.walkDir_boot (by omega) hgig hwindow hleaf] at huser
      cases huser
    · rcases hvis.1.range hplaced with ⟨hva, _⟩ | ⟨_, hva, _⟩ | ⟨hva, _⟩
      · omega
      · omega
      · exact hwindow hva

end View

end Vajra
