import Vajra.MemoryInvariant

/-!
# Spawning and the memory invariant

The parts of a spawn: a page is taken, the tables of the slot are built, and for a
program its pages are claimed, filled and mapped.  Each keeps the memory invariant, and
so does each of the failures in between.
-/

namespace Vajra

open ByteMemory TransitionTrace

variable {D : Type}

/-- Two slots have no own table in common. -/
theorem apart_ownTables {L : Layout} {s i : Slot} (hne : s ≠ i) {t : TableId}
    (ht : t ∈ ownTables s ∨ ∃ index, t = .pt1 index) {x : Nat} (h1 : L.table t ≤ x)
    (h2 : x < L.table t + pageSize) : Apart L (ownTables i) x := by
  intro u hu
  have hne' : t ≠ u := by
    rintro rfl
    simp only [ownTables, List.mem_cons, List.not_mem_nil, or_false] at ht hu
    rcases hu with rfl | rfl | rfl | rfl <;> simp [hne.symm] at ht
  rcases table_disjoint L hne' with h | h
  · exact Or.inl (by omega)
  · exact Or.inr (by omega)

/-- An entry of a table is kept when its whole table is. -/
theorem tableEntry_of_page {ram ram' : Mem} {base i : Nat} (hi : i < 512)
    (h : ∀ x, base ≤ x → x < base + pageSize → ram' x = ram x) :
    tableEntry ram' base i = tableEntry ram base i := by
  apply tableEntry_congr
  intro x h1 h2
  refine h x (by omega) ?_
  simp only [pageSize]
  omega

/-- The tables of a slot are kept when every byte of its tables is. -/
theorem Built.of_tables {L : Layout} {ram ram' : Mem} {s : Slot} {page : Nat}
    (h : Built L ram s page)
    (hsame : ∀ t ∈ ownTables s, ∀ x, L.table t ≤ x → x < L.table t + pageSize → ram' x = ram x) :
    Built L ram' s page where
  pml4 i hi := by
    rw [tableEntry_of_page hi (hsame _ (by simp [ownTables])), h.pml4 i hi]
  pdpt i hi := by
    rw [tableEntry_of_page hi (hsame _ (by simp [ownTables])), h.pdpt i hi]
  pd i hi hne := by
    rw [tableEntry_of_page hi (hsame _ (by simp [ownTables])), h.pd i hi hne]
  pt0 i hi := by
    rw [tableEntry_of_page hi (hsame _ (by simp [ownTables])), h.pt0 i hi]

/-- A program window is kept when the directory and the slot's pool tables are. -/
theorem ProgramMapped.of_tables {L : Layout} {ram ram' : Mem} {pool pool' : ProgramPool} {s : Slot}
    {prog : Option (Nat × Nat)} (h : ProgramMapped L ram pool s prog)
    (hpool : pool.initDone = true → pool'.initDone = true ∧
      ∀ index, pool.owner index = ((s : Nat) : Int) → pool'.owner index = ((s : Nat) : Int))
    (hdir : ∀ x, L.table (.pd s) ≤ x → x < L.table (.pd s) + pageSize → ram' x = ram x)
    (htable : pool.initDone = true → ∀ index, pool.owner index = ((s : Nat) : Int) →
      ∀ x, L.table (.pt1 index) ≤ x → x < L.table (.pt1 index) + pageSize → ram' x = ram x) :
    ProgramMapped L ram' pool' s prog := by
  match prog, h with
  | none, h =>
      rw [ProgramMapped, tableEntry_of_page (by decide) hdir]
      exact h
  | some (phys, size), ⟨index, hinit, howner, hpd, hpt1⟩ =>
      refine ⟨index, (hpool hinit).1, (hpool hinit).2 index howner, ?_, fun i hi => ?_⟩
      · rw [tableEntry_of_page (by decide) hdir]
        exact hpd
      · rw [tableEntry_of_page hi (htable hinit index howner)]
        exact hpt1 i hi

/-- The stack page of slot `i` holds zeros. -/
def ZeroStack (k : Kernel D) (i : Slot) : Prop :=
  ∃ p, (k.actors i).stackPage = some p ∧ ∀ x, p ≤ x → x < p + pageSize → k.memory.ram x = 0

/-- What a spawn does for memory: the invariant holds with an occupant of slot `i` that
has no program, whose stack page is zero, and everything taken stays taken. -/
structure SpawnMem (L : Layout) (prog : Slot → Option (Nat × Nat)) (k k' : Kernel D) (i : Slot) :
    Prop where
  inv : MemInv L (Function.update prog i none) k'
  dead : ¬ k.Live i
  live : ∀ s, k'.Live s ↔ k.Live s ∨ s = i
  kept : ∀ q, k.memory.Taken q → k'.memory.Taken q
  zero : ZeroStack k' i

/-- A memory whose allocator has handed out more pages and whose kernel bytes are the
same. -/
theorem MemInv.grown {L : Layout} {prog : Slot → Option (Nat × Nat)} {k : Kernel D} {m : Memory}
    (h : MemInv L prog k) (halloc : AllocInv m) (hkept : ∀ q, k.memory.Taken q → m.Taken q)
    (hsame : SameKernel L k.memory.ram m.ram) : MemInv L prog { k with memory := m } where
  alloc := halloc
  boot := hsame.bootDir h.boot
  stack s p hp := ⟨hkept p (h.stack s p hp).1, (h.stack s p hp).2⟩
  owner := h.owner
  space s hs := by
    obtain ⟨p, hspace⟩ := h.space s hs
    exact ⟨p, hspace.stack, hspace.root, hspace.built.of_sameKernel hsame,
      hspace.program.of_sameKernel hsame⟩
  pages s hs phys size hprog := (h.pages s hs phys size hprog).mono hkept
  apart := h.apart

/-- The tables of a new occupant have been built: the invariant for the table with the new
record in it. -/
theorem MemInv.occupied {L : Layout} {prog : Slot → Option (Nat × Nat)} {k : Kernel D} {i : Slot}
    {page : Nat} {ram : Mem} {a : Actor} (h : MemInv L prog k) (hdead : ¬ k.Live i)
    (htaken : k.memory.Taken page) (hfresh : ∀ s, (k.actors s).stackPage ≠ some page)
    (hlow : commonsEnd ≤ page) (hhigh : page + pageSize ≤ privateWindowEnd)
    (hstack : a.stackPage = some page) (hroot : a.cr3 = L.table (.pml4 i))
    (hbuilt : Built L ram i page) (hprogram : ProgramMapped L ram k.pool i none)
    (hapart : ∀ x, Apart L (ownTables i) x → ram x = k.memory.ram x) :
    MemInv L (Function.update prog i none)
      (({ k with memory := { k.memory with ram := ram } } : Kernel D).setActor i a) := by
  have hothers : ∀ s, s ≠ i → (({ k with memory := { k.memory with ram := ram } } :
      Kernel D).setActor i a).Live s → k.Live s := by
    intro s hs hlive
    simpa [Kernel.Live, hs] using hlive
  refine ⟨⟨h.alloc.top, h.alloc.next, h.alloc.free, h.alloc.nodup⟩, ?_, ?_, ?_, ?_, ?_, ?_⟩
  · intro j hj
    rw [← h.boot j hj]
    refine tableEntry_of_page hj fun x h1 h2 => hapart x fun t _ => ?_
    rcases table_disjoint_boot L t with hd | hd
    · exact Or.inr (by omega)
    · exact Or.inl (by omega)
  · intro s p hp
    by_cases hs : s = i
    · subst hs
      simp only [setActor_actors, Function.update_self, hstack, Option.some.injEq] at hp
      subst hp
      exact ⟨⟨htaken.page, htaken.used, htaken.notFree⟩, hlow, hhigh⟩
    · simp only [setActor_actors, Function.update_of_ne hs] at hp
      obtain ⟨ht, hrange⟩ := h.stack s p hp
      exact ⟨⟨ht.page, ht.used, ht.notFree⟩, hrange⟩
  · intro s t p hs ht
    by_cases hsi : s = i
    · by_cases hti : t = i
      · rw [hsi, hti]
      · subst hsi
        simp only [setActor_actors, Function.update_self, hstack, Option.some.injEq] at hs
        simp only [setActor_actors, Function.update_of_ne hti] at ht
        exact absurd ht (hs ▸ hfresh t)
    · simp only [setActor_actors, Function.update_of_ne hsi] at hs
      by_cases hti : t = i
      · subst hti
        simp only [setActor_actors, Function.update_self, hstack, Option.some.injEq] at ht
        exact absurd hs (ht ▸ hfresh s)
      · simp only [setActor_actors, Function.update_of_ne hti] at ht
        exact h.owner s t p hs ht
  · intro s hs
    by_cases hsi : s = i
    · subst hsi
      rw [Function.update_self]
      exact ⟨page, by simpa using hstack, by simpa using hroot, hbuilt, hprogram⟩
    · rw [Function.update_of_ne hsi]
      obtain ⟨p, hspace⟩ := h.space s (hothers s hsi hs)
      refine ⟨p, by simpa [hsi] using hspace.stack, by simpa [hsi] using hspace.root, ?_, ?_⟩
      · exact hspace.built.of_tables fun t ht x h1 h2 =>
          hapart x (apart_ownTables hsi (Or.inl ht) h1 h2)
      · refine hspace.program.of_tables (fun hinit => ⟨hinit, fun _ ho => ho⟩) ?_ ?_
        · exact fun x h1 h2 => hapart x (apart_ownTables hsi (Or.inl (by simp [ownTables])) h1 h2)
        · exact fun _ index _ x h1 h2 =>
            hapart x (apart_ownTables hsi (Or.inr ⟨index, rfl⟩) h1 h2)
  · intro s hs phys size hprog
    by_cases hsi : s = i
    · subst hsi
      simp at hprog
    · rw [Function.update_of_ne hsi] at hprog
      exact (h.pages s (hothers s hsi hs) phys size hprog).mono
        fun q hq => ⟨hq.page, hq.used, hq.notFree⟩
  · intro s t hs ht hne phys size phys' size' hprog hprog'
    by_cases hsi : s = i
    · subst hsi
      simp at hprog
    by_cases hti : t = i
    · subst hti
      simp at hprog'
    rw [Function.update_of_ne hsi] at hprog
    rw [Function.update_of_ne hti] at hprog'
    exact h.apart s t (hothers s hsi hs) (hothers t hti ht) hne phys size phys' size' hprog hprog'

/-- A byte above the first megabyte is in no table. -/
theorem apart_of_high (L : Layout) (ts : List TableId) {x : Nat} (hx : commonsEnd ≤ x) :
    Apart L ts x := by
  intro t _
  have haligned := L.table_aligned t
  have hlow := L.table_low t
  simp only [commonsEnd, pageSize] at *
  omega

/-- **`actor_spawn`** keeps the memory invariant. -/
theorem actorSpawn_mem {L : Layout} {prog : Slot → Option (Nat × Nat)} {k : Kernel D}
    (h : MemInv L prog k) (entry : Nat) :
    ((actorSpawn L k entry).2 = none ∧ MemInv L prog (actorSpawn L k entry).1 ∧
      ∀ q, k.memory.Taken q → (actorSpawn L k entry).1.memory.Taken q) ∨
    ∃ i, (actorSpawn L k entry).2 = some i ∧ SpawnMem L prog k (actorSpawn L k entry).1 i := by
  unfold actorSpawn
  cases hfree : freeSlot k with
  | none => exact Or.inl ⟨rfl, h, fun q hq => hq⟩
  | some i =>
      have hdead : ¬ k.Live i := not_not.mpr (freeSlot_dead hfree)
      dsimp only
      rcases allocPage_spec h.alloc with ⟨hnone, n, heq, hinv⟩ | ⟨p, hsome, halloc⟩
      · have hkept : ∀ q, k.memory.Taken q → (allocPage k.memory).1.Taken q := by
          intro q hq
          rw [heq]
          exact ⟨hq.page, hq.used, hq.notFree⟩
        have hsame : SameKernel L k.memory.ram (allocPage k.memory).1.ram := by
          rw [heq]
          exact SameKernel.refl L _
        have hgrown := h.grown hinv hkept hsame
        rw [show allocPage k.memory = ((allocPage k.memory).1, none) from Prod.ext rfl hnone]
        exact Or.inl ⟨rfl, hgrown, hkept⟩
      generalize hm : (allocPage k.memory).1 = m at halloc
      rw [show allocPage k.memory = (m, some p) from Prod.ext hm hsome]
      dsimp only
      have hpage := halloc.taken.page
      have hsame : SameKernel L k.memory.ram m.ram := by
        rw [halloc.ram]
        exact halZeroPage_sameKernel L _ hpage
      have hgrown := h.grown halloc.inv halloc.kept hsame
      rcases halAddressSpaceCreate_spec L k.pool i hgrown.boot hpage.aligned hpage.cap with
        heq | ⟨ram, heq, hlow, hhigh, hbuilt, hprogram, hapart⟩
      · -- the page is outside the window and goes straight back
        obtain ⟨hinv, hback⟩ := freePage_spec halloc.inv halloc.taken
        have hkept : ∀ q, k.memory.Taken q → (freePage m p).Taken q := by
          intro q hq
          refine hback q ?_ (halloc.kept q hq)
          rintro rfl
          exact halloc.fresh hq
        rw [heq]
        exact Or.inl ⟨rfl, h.grown hinv hkept (by rw [freePage_ram]; exact hsame), hkept⟩
      · rw [heq]
        have hfresh : ∀ s, (k.actors s).stackPage ≠ some p := by
          intro s hs
          exact halloc.fresh (h.stack s p hs).1
        refine Or.inr ⟨i, rfl, ?_, hdead, ?_, ?_, p, by simp [freshActor], ?_⟩
        · exact hgrown.occupied (a := freshActor (k.actors i) (L.table (.pml4 i)) p entry) hdead
            halloc.taken hfresh hlow hhigh rfl rfl hbuilt hprogram hapart
        · intro s
          by_cases hs : s = i
          · subst hs
            simp [Kernel.Live, freshActor]
          · simp [Kernel.Live, hs]
        · intro q hq
          have hq' := halloc.kept q hq
          exact ⟨hq'.page, hq'.used, hq'.notFree⟩
        · intro x h1 h2
          have hzero : m.ram x = 0 := by
            rw [halloc.ram]
            exact zeroRange_inside h1 h2
          rw [← hzero]
          exact hapart x (apart_of_high L _ (Nat.le_trans hlow h1))

/-- The invariant after a program has been mapped for the live slot `i`. -/
theorem MemInv.mapped {L : Layout} {prog : Slot → Option (Nat × Nat)} {k : Kernel D} {i : Slot}
    {page phys size : Nat} {ram : Mem} {index : Fin programPoolSize}
    (h : MemInv L (Function.update prog i none) k) (hspace : Space L none k i page)
    (hindex : k.pool.ready.owner index = ((i : Nat) : Int) ∨ k.pool.ready.owner index = -1)
    (hpages : ProgramPages k.memory phys size)
    (hfree : ∀ s, k.Live s → s ≠ i → ∀ phys' size', prog s = some (phys', size') →
      ∀ a < size / pageSize, ∀ b < size' / pageSize,
        phys + a * pageSize ≠ phys' + b * pageSize)
    (hbuilt : Built L ram i page)
    (hprogram : ProgramMapped L ram { k.pool.ready with
      owner := Function.update k.pool.ready.owner index ((i : Nat) : Int) } i (some (phys, size)))
    (hapart : ∀ x, Apart L [.pd i, .pt1 index] x → ram x = k.memory.ram x) :
    MemInv L (Function.update prog i (some (phys, size)))
      { k with
        memory := { k.memory with ram := ram }
        pool := { k.pool.ready with
          owner := Function.update k.pool.ready.owner index ((i : Nat) : Int) } } := by
  have htaken : ∀ q, k.memory.Taken q → ({ k.memory with ram := ram } : Memory).Taken q :=
    fun q hq => ⟨hq.page, hq.used, hq.notFree⟩
  refine ⟨⟨h.alloc.top, h.alloc.next, h.alloc.free, h.alloc.nodup⟩, ?_, ?_, h.owner, ?_, ?_, ?_⟩
  · intro j hj
    rw [← h.boot j hj]
    refine tableEntry_of_page hj fun x h1 h2 => hapart x fun t _ => ?_
    rcases table_disjoint_boot L t with hd | hd
    · exact Or.inr (by omega)
    · exact Or.inl (by omega)
  · intro s p hp
    exact ⟨htaken p (h.stack s p hp).1, (h.stack s p hp).2⟩
  · intro s hs
    by_cases hsi : s = i
    · subst hsi
      rw [Function.update_self]
      exact ⟨page, hspace.stack, hspace.root, hbuilt, hprogram⟩
    · rw [Function.update_of_ne hsi]
      obtain ⟨p, hother⟩ := h.space s hs
      rw [Function.update_of_ne hsi] at hother
      have hne : ∀ t ∈ ownTables s, ∀ u ∈ [TableId.pd i, .pt1 index], t ≠ u := by
        intro t ht u hu
        simp only [ownTables, List.mem_cons, List.not_mem_nil, or_false] at ht hu
        rcases ht with rfl | rfl | rfl | rfl <;> rcases hu with rfl | rfl <;> simp [hsi]
      have hown : ∀ t ∈ ownTables s, ∀ x, L.table t ≤ x → x < L.table t + pageSize →
          ram x = k.memory.ram x := by
        intro t ht x h1 h2
        refine hapart x fun u hu => ?_
        rcases table_disjoint L (hne t ht u hu) with hd | hd
        · exact Or.inl (by omega)
        · exact Or.inr (by omega)
      refine ⟨p, hother.stack, hother.root, hother.built.of_tables hown, ?_⟩
      have hready : k.pool.initDone = true → ∀ j, k.pool.owner j = ((s : Nat) : Int) →
          j ≠ index := by
        rintro hinit j howner rfl
        rw [ProgramPool.ready_of_initDone hinit, howner] at hindex
        rcases hindex with heq | heq
        · exact hsi (Fin.ext (by omega))
        · omega
      refine hother.program.of_tables ?_ (hown _ (by simp [ownTables])) ?_
      · intro hinit
        refine ⟨k.pool.ready_initDone, fun j howner => ?_⟩
        dsimp only
        rw [Function.update_of_ne (hready hinit j howner), ProgramPool.ready_of_initDone hinit]
        exact howner
      · intro hinit j howner x h1 h2
        refine hapart x fun u hu => ?_
        have hju : TableId.pt1 j ≠ u := by
          simp only [List.mem_cons, List.not_mem_nil, or_false] at hu
          rcases hu with rfl | rfl
          · simp
          · simpa using hready hinit j howner
        rcases table_disjoint L hju with hd | hd
        · exact Or.inl (by omega)
        · exact Or.inr (by omega)
  · intro s hs phys' size' hprog
    by_cases hsi : s = i
    · subst hsi
      simp only [Function.update_self, Option.some.injEq, Prod.mk.injEq] at hprog
      obtain ⟨rfl, rfl⟩ := hprog
      exact hpages.mono htaken
    · rw [Function.update_of_ne hsi] at hprog
      exact (h.pages s hs phys' size' (by rw [Function.update_of_ne hsi]; exact hprog)).mono htaken
  · intro s t hs ht hne phys1 size1 phys2 size2 hprog1 hprog2 a ha b hb
    by_cases hsi : s = i
    · subst hsi
      rw [Function.update_of_ne hne.symm] at hprog2
      simp only [Function.update_self, Option.some.injEq, Prod.mk.injEq] at hprog1
      obtain ⟨rfl, rfl⟩ := hprog1
      exact hfree t ht hne.symm phys2 size2 hprog2 a ha b hb
    · rw [Function.update_of_ne hsi] at hprog1
      by_cases hti : t = i
      · subst hti
        simp only [Function.update_self, Option.some.injEq, Prod.mk.injEq] at hprog2
        obtain ⟨rfl, rfl⟩ := hprog2
        exact (hfree s hs hsi phys1 size1 hprog1 b hb a ha).symm
      · rw [Function.update_of_ne hti] at hprog2
        exact h.apart s t hs ht hne phys1 size1 phys2 size2
          (by rw [Function.update_of_ne hsi]; exact hprog1)
          (by rw [Function.update_of_ne hti]; exact hprog2) a ha b hb

/-- Initialising the pool changes no mapping. -/
theorem MemInv.poolReady {L : Layout} {prog : Slot → Option (Nat × Nat)} {k : Kernel D}
    (h : MemInv L prog k) : MemInv L prog { k with pool := k.pool.ready } := by
  refine ⟨h.alloc, h.boot, h.stack, h.owner, fun s hs => ?_, h.pages, h.apart⟩
  obtain ⟨p, hspace⟩ := h.space s hs
  refine ⟨p, hspace.stack, hspace.root, hspace.built, ?_⟩
  refine hspace.program.of_tables (fun hinit => ?_) (fun _ _ _ => rfl) (fun _ _ _ _ _ _ => rfl)
  rw [ProgramPool.ready_of_initDone hinit]
  exact ⟨hinit, fun _ howner => howner⟩

/-- Killing a slot keeps the invariant. -/
theorem MemInv.killed {L : Layout} {prog : Slot → Option (Nat × Nat)} {k : Kernel D}
    (h : MemInv L prog k) (i : Slot) : MemInv L prog (k.setState i .dead) := by
  refine h.frame (fun s hs => ?_) (fun s => ?_) rfl rfl (SameKernel.refl L _)
  · by_cases hsi : s = i
    · subst hsi
      simp [Kernel.Live] at hs
    · simpa [Kernel.Live, hsi] using hs
  · by_cases hsi : s = i
    · subst hsi
      simp
    · simp [hsi]

/-- The pages of a program share nothing with the programs of live actors. -/
def PagesUnshared (prog : Slot → Option (Nat × Nat)) (k : Kernel D) (phys size : Nat) : Prop :=
  ∀ s, k.Live s → ∀ phys' size', prog s = some (phys', size') →
    ∀ a < size / pageSize, ∀ b < size' / pageSize, phys + a * pageSize ≠ phys' + b * pageSize

/-- **`actor_spawn_program`** keeps the memory invariant: it fails, or the new occupant has
the program in its window. -/
theorem actorSpawnProgram_mem {L : Layout} {prog : Slot → Option (Nat × Nat)} {k : Kernel D}
    (h : MemInv L prog k) {phys size : Nat} (hpages : ProgramPages k.memory phys size)
    (hfree : PagesUnshared prog k phys size) (off : Nat) :
    ((actorSpawnProgram L k phys size off).2 = none ∧
      MemInv L prog (actorSpawnProgram L k phys size off).1) ∨
    ∃ i, (actorSpawnProgram L k phys size off).2 = some i ∧ ¬ k.Live i ∧
      MemInv L (Function.update prog i (some (phys, size)))
        (actorSpawnProgram L k phys size off).1 ∧
      ZeroStack (actorSpawnProgram L k phys size off).1 i := by
  have hspawned := actorSpawn_mem h (programVbase + off)
  unfold actorSpawnProgram
  generalize hk1 : actorSpawn L k (programVbase + off) = r at hspawned
  obtain ⟨k1, result⟩ := r
  rcases hspawned with ⟨hnone, hinv, _⟩ | ⟨i, hsome, hspawn⟩
  · cases hnone
    exact Or.inl ⟨rfl, hinv⟩
  cases hsome
  dsimp only
  obtain ⟨p, hspace⟩ := hspawn.inv.space i ((hspawn.live i).mpr (Or.inr rfl))
  rw [Function.update_self] at hspace
  have hpages1 := hpages.mono hspawn.kept
  have hfailed : ∀ k2 : Kernel D, MemInv L (Function.update prog i none) k2 →
      MemInv L prog (k2.setState i .dead) := by
    intro k2 hinv
    refine (hinv.killed i).congr_prog fun s hs => ?_
    have hsi : s ≠ i := by
      rintro rfl
      simp [Kernel.Live] at hs
    rw [Function.update_of_ne hsi]
  rcases halAddressSpaceMapProgram_spec L k1.pool i hspace.built hpages.placed.base
      hpages.placed.whole hpages.placed.cap with
    (heq | heq) | ⟨ram, index, hindex, heq, _, hbuilt, hprogram, hapart⟩
  · rw [heq]
    exact Or.inl ⟨rfl, hfailed k1 hspawn.inv⟩
  · rw [heq]
    exact Or.inl ⟨rfl, hfailed { k1 with pool := k1.pool.ready } hspawn.inv.poolReady⟩
  · rw [heq]
    obtain ⟨p', hp', hzero⟩ := hspawn.zero
    refine Or.inr ⟨i, rfl, hspawn.dead, ?_, p', hp', ?_⟩
    · refine hspawn.inv.mapped hspace hindex hpages1 ?_ hbuilt hprogram hapart
      intro s hs hsi phys' size' hprog
      exact hfree s (((hspawn.live s).mp hs).resolve_right hsi) phys' size' hprog
    · intro x h1 h2
      rw [← hzero x h1 h2]
      refine hapart x (apart_of_high L _ ?_)
      exact Nat.le_trans (hspawn.inv.stack i p' hp').2.1 h1

/-- The parent/child grants leave the states and address spaces of all slots alone. -/
theorem adoptChild_spaces (k : Kernel D) {c i : Slot} (hne : c ≠ i) (s : Slot) :
    ((adoptChild k c i).actors s).state = (k.actors s).state ∧
      ((adoptChild k c i).actors s).stackPage = (k.actors s).stackPage ∧
      ((adoptChild k c i).actors s).cr3 = (k.actors s).cr3 := by
  obtain ⟨hchild, hspawner, hother⟩ := adoptChild_actors k hne
  by_cases hsi : s = i
  · subst hsi
    rw [hchild]
    exact ⟨rfl, rfl, rfl⟩
  by_cases hsc : s = c
  · subst hsc
    rw [hspawner]
    exact ⟨rfl, rfl, rfl⟩
  rw [hother s hsi hsc]
  exact ⟨rfl, rfl, rfl⟩

theorem adoptChild_memory (k : Kernel D) (c i : Slot) :
    (adoptChild k c i).memory = k.memory ∧ (adoptChild k c i).pool = k.pool := by
  simp only [adoptChild, actorAddCap_fst]
  exact ⟨rfl, rfl⟩

theorem MemInv.adoptChild {L : Layout} {prog : Slot → Option (Nat × Nat)} {k : Kernel D}
    (h : MemInv L prog k) {c i : Slot} (hne : c ≠ i) : MemInv L prog (adoptChild k c i) := by
  obtain ⟨hmemory, hpool⟩ := adoptChild_memory k c i
  refine h.frame (fun s hs => ?_) (fun s => (adoptChild_spaces k hne s).2) hpool
    hmemory (SameKernel.refl L k.memory.ram)
  rw [Kernel.Live, (adoptChild_spaces k hne s).1] at hs
  exact hs

theorem ZeroStack.adoptChild {k : Kernel D} {i : Slot} (h : ZeroStack k i) {c : Slot}
    (hne : c ≠ i) : ZeroStack (adoptChild k c i) i := by
  obtain ⟨p, hp, hzero⟩ := h
  refine ⟨p, ?_, ?_⟩
  · rw [(adoptChild_spaces k hne i).2.1]
    exact hp
  · rw [(adoptChild_memory k c i).1]
    exact hzero

/-- What the loader's checks guarantee about an image. -/
theorem parseProgram_bounds {bytes : List UInt8} {image : ProgramImage}
    (h : parseProgram bytes = some image) :
    0 < image.code.length ∧ image.code.length ≤ programWindowMax := by
  unfold parseProgram at h
  dsimp only at h
  repeat' split at h
  all_goals cases h
  rename_i hsize hlong _
  simp only [List.length_take, List.length_drop]
  omega

/-- The size of the window a loader maps. -/
theorem ProgramImage.pages_spec {image : ProgramImage} (hpos : 0 < image.code.length)
    (hmax : image.code.length ≤ programWindowMax) :
    0 < image.pages ∧ image.pages * 4096 ≤ programWindowMax ∧
      image.code.length ≤ image.pages * 4096 := by
  simp only [ProgramImage.pages, programWindowMax] at *
  omega

/-- **The first half of `loader_spawn_program`** keeps the invariant, and what it staged
is a program of its own. -/
theorem loaderStage_mem {L : Layout} {prog : Slot → Option (Nat × Nat)} {k : Kernel D}
    (h : MemInv L prog k) (id : Int) :
    MemInv L prog (loaderStage k id).1 ∧
    ∀ phys image, (loaderStage k id).2 = some (phys, image) →
      ProgramPages (loaderStage k id).1.memory phys (image.pages * 4096) ∧
      PagesUnshared prog (loaderStage k id).1 phys (image.pages * 4096) := by
  unfold loaderStage
  split
  · exact ⟨h.frame (fun _ hs => hs) (fun _ => ⟨rfl, rfl⟩) rfl rfl (SameKernel.refl L _), by simp⟩
  rename_i st bytes hread
  have hst : MemInv L prog { k with store := st } :=
    h.frame (fun _ hs => hs) (fun _ => ⟨rfl, rfl⟩) rfl rfl (SameKernel.refl L _)
  dsimp only
  cases himage : parseProgram bytes with
  | none => exact ⟨hst, by simp⟩
  | some image =>
      obtain ⟨hpos, hmax⟩ := parseProgram_bounds himage
      obtain ⟨hpages, hsize, hfits⟩ := ProgramImage.pages_spec hpos hmax
      dsimp only
      rcases allocDmaPages_spec image.pages h.alloc with ⟨hnone, hsame⟩ | ⟨p, hsome, hhigh, _, hclaim⟩
      · rw [show allocDmaPages k.memory image.pages = (k.memory, none) from Prod.ext hsame hnone]
        exact ⟨hst, by simp⟩
      generalize hm : (allocDmaPages k.memory image.pages).1 = m at hclaim
      rw [show allocDmaPages k.memory image.pages = (m, some p) from Prod.ext hm hsome]
      dsimp only
      have hcount : (image.pages : Int).toNat = image.pages := Int.toNat_natCast _
      rw [hcount] at hclaim
      have hramlow : ∀ x, x < p → writeBytes m.ram (image.code.zipIdx.map fun b => (p + b.2, b.1)) x =
          k.memory.ram x := by
        intro x hx
        rw [writeBytes_outside, hclaim.ram x (Or.inl hx)]
        intro b hb
        obtain ⟨c, _, rfl⟩ := List.mem_map.mp hb
        dsimp only
        omega
      have hkernel : SameKernel L k.memory.ram
          (writeBytes m.ram (image.code.zipIdx.map fun b => (p + b.2, b.1))) := by
        intro x hx
        refine hramlow x (Nat.lt_of_lt_of_le hx.1 (Nat.le_trans (by decide) hhigh))
      have htaken : ∀ q, m.Taken q → ({ m with
          ram := writeBytes m.ram (image.code.zipIdx.map fun b => (p + b.2, b.1)) } :
            Memory).Taken q :=
        fun q hq => ⟨hq.page, hq.used, hq.notFree⟩
      have hunit : image.pages * 4096 / pageSize = image.pages := Nat.mul_div_cancel _ (by decide)
      refine ⟨hst.grown ⟨hclaim.inv.top, hclaim.inv.next, hclaim.inv.free, hclaim.inv.nodup⟩
        (fun q hq => htaken q (hclaim.kept q hq)) hkernel, ?_⟩
      intro phys image' heq
      simp only [Option.some.injEq, Prod.mk.injEq] at heq
      obtain ⟨rfl, rfl⟩ := heq
      refine ⟨⟨⟨?_, Nat.mul_mod_left _ _, hsize, hclaim.cap⟩, hhigh, ?_⟩, ?_⟩
      · have hfirst := (hclaim.taken 0 hpages).page.aligned
        simpa using hfirst
      · intro j hj
        rw [hunit] at hj
        exact htaken _ (hclaim.taken j hj)
      · intro s hs phys' size' hprog a ha b hb heq
        rw [hunit] at ha
        have htak := (h.pages s hs phys' size' hprog).taken b hb
        rw [← heq] at htak
        exact hclaim.fresh a ha htak

end Vajra
