import Vajra.ActorTable
import Vajra.PageTables

/-!
# Building an address space

What `hal_address_space_create` and `hal_address_space_map_program` leave in memory:
the entries of the tables they own, and everything else as it was.
-/

namespace Vajra

open ByteMemory

/-- The tables a slot owns for itself. -/
def ownTables (s : Slot) : List TableId := [.pml4 s, .pdpt s, .pd s, .pt0 s]

/-- A byte outside all the tables of a list. -/
def Apart (L : Layout) (ts : List TableId) (x : Nat) : Prop :=
  ∀ t ∈ ts, x < L.table t ∨ L.table t + pageSize ≤ x

/-- The memory `hal_address_space_create` leaves when it succeeds, for a private range of
one page. -/
def createdRam (L : Layout) (ram : Mem) (s : Slot) (page : Nat) : Mem :=
  let pml4 := L.table (.pml4 s)
  let pdpt := L.table (.pdpt s)
  let pd := L.table (.pd s)
  let pt0 := L.table (.pt0 s)
  let cleared := clearTable (clearTable (clearTable (clearTable ram pml4) pdpt) pd) pt0
  let commons := writeArray cleared pt0 256 fun i => commonsEntry L (i * pageSize)
  let stacked := write64 commons (pt0 + 8 * (page / pageSize)) (page ||| 0x7)
  let rooted := write64 stacked pd (pt0 ||| 0x7)
  let copied := writeArray rooted (pd + 8) 511 fun i => tableEntry rooted pageDirPhysBase (i + 1)
  write64 (write64 copied pdpt (pd ||| 0x7)) pml4 (pdpt ||| 0x7)

theorem halAddressSpaceCreate_eq (L : Layout) (ram : Mem) (s : Slot) (page : Nat) :
    halAddressSpaceCreate L ram s page actorStackSize =
      if page < commonsEnd ∨ privateWindowEnd < (page + actorStackSize) % 2 ^ 64 then (ram, none)
      else (createdRam L ram s page, some (L.table (.pml4 s))) := by
  have hcommons : commonsEnd / pageSize = 256 := by decide
  have hcopied : ptEntries - 1 = 511 := by decide
  have hoffsets : pageOffsets actorStackSize = [0] := by decide
  simp only [halAddressSpaceCreate, createdRam, hcommons, hcopied, hoffsets, List.map_cons,
    List.map_nil, writeWords_cons, writeWords_nil, Nat.add_zero]

section Create

variable (L : Layout) (ram : Mem) (s : Slot) (page : Nat)

/-- The four own tables of a slot are four different pages. -/
theorem ownTables_disjoint :
    let pml4 := L.table (.pml4 s)
    let pdpt := L.table (.pdpt s)
    let pd := L.table (.pd s)
    let pt0 := L.table (.pt0 s)
    (pml4 + 4096 ≤ pdpt ∨ pdpt + 4096 ≤ pml4) ∧ (pml4 + 4096 ≤ pd ∨ pd + 4096 ≤ pml4) ∧
      (pml4 + 4096 ≤ pt0 ∨ pt0 + 4096 ≤ pml4) ∧ (pdpt + 4096 ≤ pd ∨ pd + 4096 ≤ pdpt) ∧
      (pdpt + 4096 ≤ pt0 ∨ pt0 + 4096 ≤ pdpt) ∧ (pd + 4096 ≤ pt0 ∨ pt0 + 4096 ≤ pd) :=
  ⟨table_disjoint L (by simp), table_disjoint L (by simp), table_disjoint L (by simp),
    table_disjoint L (by simp), table_disjoint L (by simp), table_disjoint L (by simp)⟩

/-- A table address with its flag bits fits a 64-bit entry. -/
theorem table_entry_value (t : TableId) : (L.table t ||| 0x7) % 2 ^ 64 = L.table t + 7 := by
  have hlt := table_lt L t
  rw [or_flags (L.table_aligned t) (by decide)]
  exact Nat.mod_eq_of_lt (by omega)

theorem createdRam_pml4 (hpage : page < 2 ^ 21) {i : Nat} (hi : i < 512) :
    tableEntry (createdRam L ram s page) (L.table (.pml4 s)) i =
      if i = 0 then L.table (.pdpt s) + 7 else 0 := by
  obtain ⟨h1, h2, h3, h4, h5, h6⟩ := ownTables_disjoint L s
  have hidx : page / pageSize < 512 := by
    simp only [pageSize]
    omega
  simp only [createdRam, tableEntry, clearTable, ptEntries]
  by_cases h0 : i = 0
  · subst h0
    rw [if_pos rfl, ← table_entry_value]
    exact read64_write64_same _ _ _
  · rw [if_neg h0, read64_write64_disjoint (by omega), read64_write64_disjoint (by omega),
      read64_writeArray_disjoint (by omega), read64_write64_disjoint (by omega),
      read64_write64_disjoint (by omega), read64_writeArray_disjoint (by omega),
      read64_writeArray_disjoint (by omega), read64_writeArray_disjoint (by omega),
      read64_writeArray_disjoint (by omega), read64_writeArray hi, Nat.zero_mod]

theorem createdRam_pdpt (hpage : page < 2 ^ 21) {i : Nat} (hi : i < 512) :
    tableEntry (createdRam L ram s page) (L.table (.pdpt s)) i =
      if i = 0 then L.table (.pd s) + 7 else 0 := by
  obtain ⟨h1, h2, h3, h4, h5, h6⟩ := ownTables_disjoint L s
  have hidx : page / pageSize < 512 := by
    simp only [pageSize]
    omega
  simp only [createdRam, tableEntry, clearTable, ptEntries]
  rw [read64_write64_disjoint (by omega)]
  by_cases h0 : i = 0
  · subst h0
    rw [if_pos rfl, ← table_entry_value]
    exact read64_write64_same _ _ _
  · rw [if_neg h0, read64_write64_disjoint (by omega), read64_writeArray_disjoint (by omega),
      read64_write64_disjoint (by omega), read64_write64_disjoint (by omega),
      read64_writeArray_disjoint (by omega), read64_writeArray_disjoint (by omega),
      read64_writeArray_disjoint (by omega), read64_writeArray hi, Nat.zero_mod]

theorem createdRam_pt0 (hlow : 2 ^ 20 ≤ page) (hpage : page < 2 ^ 21)
    (haligned : page % pageSize = 0) {i : Nat} (hi : i < 512) :
    tableEntry (createdRam L ram s page) (L.table (.pt0 s)) i =
      if i < 256 then i * pageSize + (if IsUserText L (i * pageSize) then 7 else 3)
      else if i * pageSize = page then page + 7 else 0 := by
  obtain ⟨h1, h2, h3, h4, h5, h6⟩ := ownTables_disjoint L s
  have hidx : 256 ≤ page / pageSize ∧ page / pageSize < 512 := by
    simp only [pageSize]
    omega
  have hsame : i * pageSize = page ↔ i = page / pageSize := by
    simp only [pageSize] at *
    omega
  simp only [createdRam, tableEntry, clearTable, ptEntries]
  rw [read64_write64_disjoint (by omega), read64_write64_disjoint (by omega),
    read64_writeArray_disjoint (by omega), read64_write64_disjoint (by omega)]
  by_cases hcommons : i < 256
  · rw [if_pos hcommons, read64_write64_disjoint (by omega), read64_writeArray hcommons,
      commonsEntry]
    have hmult : i * pageSize % pageSize = 0 := Nat.mul_mod_left _ _
    by_cases hin : IsUserText L (i * pageSize)
    · rw [if_pos hin, or_flags hmult (by decide)]
      exact Nat.mod_eq_of_lt (by simp only [pageSize]; omega)
    · rw [if_neg hin, or_flags hmult (by decide)]
      exact Nat.mod_eq_of_lt (by simp only [pageSize]; omega)
  · rw [if_neg hcommons]
    by_cases hstack : i = page / pageSize
    · rw [if_pos (hsame.mpr hstack), hstack, read64_write64_same, or_flags haligned (by decide)]
      exact Nat.mod_eq_of_lt (by omega)
    · rw [if_neg (fun heq => hstack (hsame.mp heq)), read64_write64_disjoint (by omega),
        read64_writeArray_disjoint (by omega), read64_writeArray hi, Nat.zero_mod]

theorem createdRam_pd (hpage : page < 2 ^ 21) (hboot : BootDir ram) {i : Nat} (hi : i < 512) :
    tableEntry (createdRam L ram s page) (L.table (.pd s)) i =
      if i = 0 then L.table (.pt0 s) + 7 else bootDirEntry i := by
  obtain ⟨h1, h2, h3, h4, h5, h6⟩ := ownTables_disjoint L s
  have b1 := table_disjoint_boot L (.pml4 s)
  have b2 := table_disjoint_boot L (.pdpt s)
  have b3 := table_disjoint_boot L (.pd s)
  have b4 := table_disjoint_boot L (.pt0 s)
  have hidx : page / pageSize < 512 := by
    simp only [pageSize]
    omega
  simp only [pageSize] at b1 b2 b3 b4
  simp only [createdRam, tableEntry, clearTable, ptEntries]
  rw [read64_write64_disjoint (by omega), read64_write64_disjoint (by omega)]
  by_cases h0 : i = 0
  · subst h0
    rw [if_pos rfl, read64_writeArray_disjoint (by omega), ← table_entry_value]
    exact read64_write64_same _ _ _
  · obtain ⟨j, rfl⟩ : ∃ j, i = j + 1 := ⟨i - 1, by omega⟩
    rw [if_neg h0, show L.table (.pd s) + 8 * (j + 1) = L.table (.pd s) + 8 + 8 * j by omega,
      read64_writeArray (by omega), read64_write64_disjoint (by omega),
      read64_write64_disjoint (by omega), read64_writeArray_disjoint (by omega),
      read64_writeArray_disjoint (by omega), read64_writeArray_disjoint (by omega),
      read64_writeArray_disjoint (by omega), read64_writeArray_disjoint (by omega)]
    have hentry := hboot (j + 1) hi
    rw [tableEntry] at hentry
    rw [hentry]
    refine Nat.mod_eq_of_lt ?_
    unfold bootDirEntry
    split
    · simp only [pageSize2M]
      omega
    · decide

theorem createdRam_apart (hpage : page < 2 ^ 21) {x : Nat} (hx : Apart L (ownTables s) x) :
    createdRam L ram s page x = ram x := by
  simp only [Apart, ownTables, List.mem_cons, List.not_mem_nil, or_false, forall_eq_or_imp,
    forall_eq, pageSize] at hx
  obtain ⟨h1, h2, h3, h4⟩ := hx
  have hidx : page / pageSize < 512 := by
    simp only [pageSize]
    omega
  simp only [createdRam, clearTable, ptEntries]
  rw [write64_outside (by omega), write64_outside (by omega), writeArray_outside (by omega),
    write64_outside (by omega), write64_outside (by omega), writeArray_outside (by omega),
    writeArray_outside (by omega), writeArray_outside (by omega), writeArray_outside (by omega),
    writeArray_outside (by omega)]

end Create

/-- **`hal_address_space_create`** refuses without any effect, or builds the tables of
the slot with one stack page and an empty program window. -/
theorem halAddressSpaceCreate_spec (L : Layout) {ram : Mem} (pool : ProgramPool) (s : Slot)
    {page : Nat} (hboot : BootDir ram) (hpage : page % pageSize = 0) (hcap : page < memCap) :
    halAddressSpaceCreate L ram s page actorStackSize = (ram, none) ∨
    ∃ ram', halAddressSpaceCreate L ram s page actorStackSize =
        (ram', some (L.table (.pml4 s))) ∧
      commonsEnd ≤ page ∧ page + pageSize ≤ privateWindowEnd ∧ Built L ram' s page ∧
      ProgramMapped L ram' pool s none ∧ ∀ x, Apart L (ownTables s) x → ram' x = ram x := by
  rw [halAddressSpaceCreate_eq]
  by_cases hrange : page < commonsEnd ∨ privateWindowEnd < (page + actorStackSize) % 2 ^ 64
  · exact Or.inl (if_pos hrange)
  · have hlow : 2 ^ 20 ≤ page := by
      simp only [commonsEnd] at hrange
      omega
    have hhigh : page + pageSize ≤ privateWindowEnd := by
      simp only [memCap, privateWindowEnd, actorStackSize, pageSize] at *
      omega
    have hlt : page < 2 ^ 21 := by
      simp only [privateWindowEnd, pageSize] at hhigh
      omega
    refine Or.inr ⟨_, if_neg hrange, hlow, hhigh, ?_, ?_, ?_⟩
    · exact ⟨fun i hi => createdRam_pml4 L ram s page hlt hi,
        fun i hi => createdRam_pdpt L ram s page hlt hi,
        fun i hi _ => createdRam_pd L ram s page hlt hboot hi,
        fun i hi => createdRam_pt0 L ram s page hlow hlt hpage hi⟩
    · exact createdRam_pd L ram s page hlt hboot (i := 128) (by decide)
    · exact fun x hx => createdRam_apart L ram s page hlt hx

/-- The pool after one of its tables has been given to a slot. -/
theorem ProgramPool.pick_spec {pool : ProgramPool} {s : Slot} {index : Fin programPoolSize}
    (h : pool.pick s = some index) :
    pool.owner index = ((s : Nat) : Int) ∨ pool.owner index = -1 := by
  have hfound := List.find?_some h
  simpa using hfound

/-- A table that belonged to a slot still does in the pool as the first call sees
it. -/
theorem ProgramPool.ready_of_initDone {pool : ProgramPool} (h : pool.initDone = true) :
    pool.ready = pool := by
  rw [ProgramPool.ready, if_pos h]

theorem ProgramPool.ready_initDone (pool : ProgramPool) : pool.ready.initDone = true := by
  unfold ProgramPool.ready
  split
  · assumption
  · rfl

/-- **`hal_address_space_map_program`** refuses without touching memory, or maps the
program through a pool table that was the slot's own or nobody's. -/
theorem halAddressSpaceMapProgram_spec (L : Layout) {ram : Mem} (pool : ProgramPool) (s : Slot)
    {page phys size : Nat} (hbuilt : Built L ram s page) (hbase : phys % pageSize = 0)
    (hwhole : size % pageSize = 0) (hcap : phys + size ≤ memCap) :
    (halAddressSpaceMapProgram L ram pool s phys size = (ram, pool, -1) ∨
      halAddressSpaceMapProgram L ram pool s phys size = (ram, pool.ready, -1)) ∨
    ∃ ram' index, (pool.ready.owner index = ((s : Nat) : Int) ∨ pool.ready.owner index = -1) ∧
      halAddressSpaceMapProgram L ram pool s phys size =
        (ram', { pool.ready with
          owner := Function.update pool.ready.owner index ((s : Nat) : Int) }, 0) ∧
      Placed phys size ∧ Built L ram' s page ∧
      ProgramMapped L ram' { pool.ready with
        owner := Function.update pool.ready.owner index ((s : Nat) : Int) } s (some (phys, size)) ∧
      ∀ x, Apart L [.pd s, .pt1 index] x → ram' x = ram x := by
  unfold halAddressSpaceMapProgram
  split
  · exact Or.inl (Or.inl rfl)
  rename_i hsize
  dsimp only
  split
  · exact Or.inl (Or.inr rfl)
  rename_i index hpick
  have hcount : pageCount size = size / pageSize := by
    simp only [pageCount, pageSize] at *
    omega
  have hpages : size / pageSize ≤ 512 := by
    simp only [pageSize, programWindowMax] at *
    omega
  have hdir : programVbase / pageSize2M = 128 := by decide
  have d1 : L.table (.pml4 s) + 4096 ≤ L.table (.pd s) ∨ L.table (.pd s) + 4096 ≤ L.table (.pml4 s) :=
    table_disjoint L (by simp)
  have d2 : L.table (.pdpt s) + 4096 ≤ L.table (.pd s) ∨ L.table (.pd s) + 4096 ≤ L.table (.pdpt s) :=
    table_disjoint L (by simp)
  have d3 : L.table (.pt0 s) + 4096 ≤ L.table (.pd s) ∨ L.table (.pd s) + 4096 ≤ L.table (.pt0 s) :=
    table_disjoint L (by simp)
  have e1 : L.table (.pml4 s) + 4096 ≤ L.table (.pt1 index) ∨
      L.table (.pt1 index) + 4096 ≤ L.table (.pml4 s) := table_disjoint L (by simp)
  have e2 : L.table (.pdpt s) + 4096 ≤ L.table (.pt1 index) ∨
      L.table (.pt1 index) + 4096 ≤ L.table (.pdpt s) := table_disjoint L (by simp)
  have e3 : L.table (.pt0 s) + 4096 ≤ L.table (.pt1 index) ∨
      L.table (.pt1 index) + 4096 ≤ L.table (.pt0 s) := table_disjoint L (by simp)
  have e4 : L.table (.pd s) + 4096 ≤ L.table (.pt1 index) ∨
      L.table (.pt1 index) + 4096 ≤ L.table (.pd s) := table_disjoint L (by simp)
  simp only [clearTable, ptEntries, hcount, hdir, writeWords_cons, writeWords_nil]
  refine Or.inr ⟨_, index, pool.ready.pick_spec hpick, rfl, ⟨hbase, hwhole, by omega, hcap⟩, ?_, ?_, ?_⟩
  · refine ⟨fun i hi => ?_, fun i hi => ?_, fun i hi hne => ?_, fun i hi => ?_⟩
    · rw [tableEntry, read64_write64_disjoint (by omega), read64_writeArray_disjoint (by omega),
        read64_writeArray_disjoint (by omega)]
      exact hbuilt.pml4 i hi
    · rw [tableEntry, read64_write64_disjoint (by omega), read64_writeArray_disjoint (by omega),
        read64_writeArray_disjoint (by omega)]
      exact hbuilt.pdpt i hi
    · rw [tableEntry, read64_write64_disjoint (by omega), read64_writeArray_disjoint (by omega),
        read64_writeArray_disjoint (by omega)]
      exact hbuilt.pd i hi hne
    · rw [tableEntry, read64_write64_disjoint (by omega), read64_writeArray_disjoint (by omega),
        read64_writeArray_disjoint (by omega)]
      exact hbuilt.pt0 i hi
  · refine ⟨index, pool.ready_initDone, by simp, ?_, fun i hi => ?_⟩
    · rw [tableEntry, read64_write64_same, table_entry_value]
    · rw [tableEntry, read64_write64_disjoint (by omega)]
      by_cases hmapped : i < size / pageSize
      · have haligned : (phys + i * pageSize) % pageSize = 0 := by
          rw [Nat.add_mul_mod_self_right]
          exact hbase
        have hlt : phys + i * pageSize < memCap := by
          simp only [pageSize] at *
          omega
        rw [if_pos hmapped, read64_writeArray hmapped, or_flags haligned (by decide)]
        refine Nat.mod_eq_of_lt ?_
        simp only [memCap] at hlt
        omega
      · rw [if_neg hmapped, read64_writeArray_disjoint (by omega), read64_writeArray hi,
          Nat.zero_mod]
  · intro x hx
    simp only [Apart, List.mem_cons, List.not_mem_nil, or_false, forall_eq_or_imp, forall_eq,
      pageSize] at hx
    rw [write64_outside (by omega), writeArray_outside (by omega), writeArray_outside (by omega)]

end Vajra
