import Vajra.ObjectSecrecy
import Vajra.ProgramImages

/-!
# Program loads that fail (`core/loader.c`, `core/actor.c`)

`loader_spawn_program` takes the pages of a program before it knows whether the actor can be
spawned, and nothing gives them back.  `Stageable` says when pages are taken and `SpawnReady` when
the spawn behind it goes through, both in terms of the state before the call: the pages that were
taken are all above the private window, so they do not change which stack page comes next
(`stackReady_staged`).  A load that fails with its pages taken leaves them unallocatable for good.
-/

namespace Vajra

open ByteMemory TransitionTrace

/-- A page some allocation can still return: it is on the free list, or its bit is clear. -/
def Memory.Allocatable (m : Memory) (p : Nat) : Prop :=
  p ∈ m.freeList ∨ (IsPage p ∧ p < m.memTop ∧ m.bitmap (pageIndex p) = false)

/-- A page that is in nobody's hands is allocatable. -/
theorem Memory.allocatable_of_not_taken {m : Memory} {p : Nat} (hpage : IsPage p)
    (htop : p < m.memTop) (h : ¬ m.Taken p) : m.Allocatable p := by
  by_cases hused : m.bitmap (pageIndex p) = true
  · left
    by_contra hlisted
    exact h ⟨hpage, hused, hlisted⟩
  · exact Or.inr ⟨hpage, htop, Bool.eq_false_iff.mpr hused⟩

theorem Memory.Taken.not_allocatable {m : Memory} {p : Nat} (h : m.Taken p) : ¬ m.Allocatable p := by
  rintro (hlisted | ⟨-, -, hfree⟩)
  · exact h.notFree hlisted
  · rw [h.used] at hfree
    cases hfree

/-- Two memories whose allocators look alike from below the end of the private window. -/
structure SameBelow (m m' : Memory) : Prop where
  freeList : m'.freeList = m.freeList
  next : m'.nextFreePage = m.nextFreePage
  top : m'.memTop = m.memTop
  bitmap : ∀ j < pageIndex privateWindowEnd, m'.bitmap j = m.bitmap j

/-- The contiguous scan marks only pages from its start on, and they end below the top. -/
theorem contigScan_below (count fuel : Nat) {start : Nat} (hstart : privateWindowEnd ≤ start)
    (m : Memory) :
    SameBelow m (contigScan count fuel start m).1 ∧
      ∀ p, (contigScan count fuel start m).2 = some p → p + count * pageSize ≤ m.memTop := by
  induction fuel generalizing start with
  | zero => exact ⟨⟨rfl, rfl, rfl, fun _ _ => rfl⟩, fun p hp => by cases hp⟩
  | succ fuel ih =>
      unfold contigScan
      split
      swap
      · exact ⟨⟨rfl, rfl, rfl, fun _ _ => rfl⟩, fun p hp => by cases hp⟩
      rename_i hfits
      split
      swap
      · exact ih (Nat.le_trans hstart (Nat.le_add_right _ _))
      refine ⟨⟨rfl, rfl, rfl, fun j hj => ?_⟩, fun p hp => ?_⟩
      · have hfirst : pageIndex privateWindowEnd ≤ pageIndex start := by
          simp only [pageIndex]
          exact Nat.div_le_div_right (Nat.sub_le_sub_right hstart _)
        dsimp only
        rw [foldl_setBits, if_neg (by omega)]
      · cases hp
        exact hfits

theorem allocDmaPages_below (m : Memory) (count : Nat) :
    SameBelow m (allocDmaPages m count).1 ∧
      ∀ p, (allocDmaPages m count).2 = some p → p + count * pageSize ≤ m.memTop := by
  unfold allocDmaPages findAndClaimContig
  split
  · exact ⟨⟨rfl, rfl, rfl, fun _ _ => rfl⟩, fun p hp => by cases hp⟩
  · exact contigScan_below _ _ (Nat.le_refl _) m

/-- The bump loop never returns a page below where it starts. -/
theorem bumpScan_le {fuel : Nat} {m : Memory} {p : Nat} (h : (bumpScan fuel m).2 = some p) :
    m.nextFreePage ≤ p := by
  induction fuel generalizing m with
  | zero => cases h
  | succ fuel ih =>
      unfold bumpScan at h
      split at h
      swap
      · cases h
      split at h
      · exact Nat.le_trans (Nat.le_add_right _ _) (ih h)
      · cases h
        exact Nat.le_refl _

/-- A page of the private window comes out of the bump loop whatever is taken above it. -/
theorem bumpScan_below {fuel : Nat} {m m' : Memory} (hsame : SameBelow m m') {p : Nat}
    (hp : p < privateWindowEnd) (h : (bumpScan fuel m).2 = some p) :
    (bumpScan fuel m').2 = some p := by
  induction fuel generalizing m m' with
  | zero => cases h
  | succ fuel ih =>
      have hlow := bumpScan_le h
      have hindex : pageIndex m.nextFreePage < pageIndex privateWindowEnd := by
        simp only [pageIndex, memBase, pageSize, privateWindowEnd] at *
        omega
      unfold bumpScan at h ⊢
      rw [hsame.next, hsame.top, hsame.bitmap _ hindex]
      split at h
      swap
      · cases h
      rename_i htop
      rw [if_pos htop]
      split at h
      · rename_i hused
        rw [if_pos hused]
        exact ih (m := { m with nextFreePage := m.nextFreePage + pageSize })
          ⟨hsame.freeList, rfl, rfl, hsame.bitmap⟩ h
      · rename_i hfree
        rw [if_neg hfree]
        cases h
        rfl

theorem SameBelow.symm {m m' : Memory} (h : SameBelow m m') : SameBelow m' m :=
  ⟨h.freeList.symm, h.next.symm, h.top.symm, fun j hj => (h.bitmap j hj).symm⟩

/-- `alloc_page` has a page of the private window for a stack. -/
def StackReady (m : Memory) : Prop :=
  ∃ p, (allocPage m).2 = some p ∧ commonsEnd ≤ p ∧ p + pageSize ≤ privateWindowEnd

theorem StackReady.of_below {m m' : Memory} (h : StackReady m) (hsame : SameBelow m m') :
    StackReady m' := by
  obtain ⟨p, hp, hlow, hhigh⟩ := h
  refine ⟨p, ?_, hlow, hhigh⟩
  have hwindow : p < privateWindowEnd := by
    simp only [pageSize] at hhigh
    omega
  unfold allocPage at hp ⊢
  rw [hsame.freeList]
  cases hlist : m.freeList with
  | cons addr rest =>
      rw [hlist] at hp
      exact hp
  | nil =>
      rw [hlist] at hp
      dsimp only at hp ⊢
      rw [hsame.next, hsame.top]
      exact bumpScan_below hsame hwindow hp

section

variable {D : Type} {L : Layout}

/-- The bytes `storage_read` delivers to the loader when the disk answers. -/
def loaderBytes (st : Store) (id : Int) : List UInt8 :=
  (List.range (min (st.objects id.toNat).sizeBytes objectMaxBytes)).map
    (st.disk.bytes (st.objects id.toNat).lba)

/-- A program is staged for object `id`: it can be read, it is an image, and there are pages for
it. -/
structure Stageable (k : Kernel D) (id : Int) (image : ProgramImage) : Prop where
  readable : k.store.Readable id
  answers : k.store.disk.Answers
  valid : parseProgram (loaderBytes k.store id) = some image
  pages : (allocDmaPages k.memory image.pages).2 ≠ none

/-- The spawn of the loader goes through: `c` may spawn, a slot is dead and a program table is
its own or nobody's, and there is a page for the stack. -/
structure SpawnReady (k : Kernel D) (c : Slot) : Prop where
  may : MaySpawn k c
  slot : ∃ i, freeSlot k = some i ∧ k.pool.ready.pick i ≠ none
  stack : StackReady k.memory

/-- Pages taken above the private window do not matter for the spawn. -/
theorem SpawnReady.congr {k k' : Kernel D} {c : Slot} (h : SpawnReady k c)
    (hactors : k'.actors = k.actors) (hpool : k'.pool = k.pool)
    (hbelow : SameBelow k.memory k'.memory) : SpawnReady k' c := by
  obtain ⟨hmay, ⟨i, hslot, hpick⟩, hstack⟩ := h
  refine ⟨?_, ⟨i, ?_, ?_⟩, hstack.of_below hbelow⟩
  · simp only [MaySpawn, actorHasCap, hactors]
    exact hmay
  · simp only [freeSlot, hactors]
    exact hslot
  · rw [hpool]
    exact hpick

/-- What `storage_read` delivers to the loader. -/
theorem storageRead_loaderBytes {st : Store} {id : Int} (hreadable : st.Readable id)
    (hanswers : st.disk.Answers) :
    (storageRead st id objectMaxBytes).2 = some (loaderBytes st id) := by
  have hanswer : st.disk.outcome st.disk.requests = .ok := hanswers
  rw [storageRead_readable hreadable, if_pos hanswer]
  refine congrArg some (List.map_congr_left fun i hi => ?_)
  have hlt := List.mem_range.mp hi
  rw [Store.staged, if_pos (by omega)]

theorem storageRead_refused_loader {st : Store} {id : Int}
    (h : ¬ (st.Readable id ∧ st.disk.Answers)) : (storageRead st id objectMaxBytes).2 = none := by
  by_cases hreadable : st.Readable id
  · have hanswer : ¬ st.disk.outcome st.disk.requests = .ok := fun hgood => h ⟨hreadable, hgood⟩
    rw [storageRead_readable hreadable, if_neg hanswer]
  · rw [storageRead_refused hreadable]

/-- **The first half of `loader_spawn_program`** takes pages exactly when the program is
stageable, and changes nothing but the store otherwise. -/
theorem loaderStage_cases {k : Kernel D} (h : AllocInv k.memory) (id : Int) :
    ((∃ st, loaderStage k id = (k.withStore st, none)) ∧ ∀ image, ¬ Stageable k id image) ∨
    ∃ k1 phys image, loaderStage k id = (k1, some (phys, image)) ∧ Stageable k id image ∧
      SameBelow k.memory k1.memory ∧ phys < k.memory.memTop ∧ ¬ k.memory.Taken phys := by
  by_cases hread : k.store.Readable id ∧ k.store.disk.Answers
  swap
  · have hnone := storageRead_refused_loader hread
    refine Or.inl ⟨⟨(storageRead k.store id objectMaxBytes).1, ?_⟩, fun image hstage => ?_⟩
    · rw [loaderStage, show storageRead k.store id objectMaxBytes =
        ((storageRead k.store id objectMaxBytes).1, none) from Prod.ext rfl hnone]
      rfl
    · exact hread ⟨hstage.readable, hstage.answers⟩
  have hsome := storageRead_loaderBytes hread.1 hread.2
  generalize hst : (storageRead k.store id objectMaxBytes).1 = st
  have hpair : storageRead k.store id objectMaxBytes = (st, some (loaderBytes k.store id)) :=
    Prod.ext hst hsome
  cases hparse : parseProgram (loaderBytes k.store id) with
  | none =>
      refine Or.inl ⟨⟨st, ?_⟩, fun image hstage => ?_⟩
      · rw [loaderStage, hpair]
        dsimp only
        rw [hparse]
        rfl
      · rw [hstage.valid] at hparse
        cases hparse
  | some image =>
      obtain ⟨hbelow, htop⟩ := allocDmaPages_below k.memory image.pages
      rcases allocDmaPages_spec image.pages h with ⟨hnone, hsame⟩ | ⟨p, hp, -, hpos, hclaim⟩
      · refine Or.inl ⟨⟨st, ?_⟩, fun image' hstage => ?_⟩
        · rw [loaderStage, hpair]
          dsimp only
          rw [hparse]
          dsimp only
          rw [show allocDmaPages k.memory image.pages = (k.memory, none) from Prod.ext hsame hnone]
          rfl
        · rw [hstage.valid] at hparse
          cases hparse
          exact hstage.pages hnone
      · have hstage : Stageable k id image :=
          ⟨hread.1, hread.2, hparse, by rw [hp]; exact Option.some_ne_none p⟩
        generalize hm : (allocDmaPages k.memory image.pages).1 = m at hbelow hclaim
        have hstaged : loaderStage k id = ({ k with
            store := st
            memory := { m with
              ram := writeBytes m.ram (image.code.zipIdx.map fun b => (p + b.2, b.1)) } },
            some (p, image)) := by
          rw [loaderStage, hpair]
          dsimp only
          rw [hparse]
          dsimp only
          rw [show allocDmaPages k.memory image.pages = (m, some p) from Prod.ext hm hp]
        refine Or.inr ⟨_, p, image, hstaged, hstage, ⟨hbelow.freeList, hbelow.next, hbelow.top,
          hbelow.bitmap⟩, ?_, ?_⟩
        · have hfits := htop p hp
          have hcount : 0 < image.pages := Int.natCast_pos.mp hpos
          have hpage : pageSize ≤ image.pages * pageSize := Nat.le_mul_of_pos_left _ hcount
          simp only [pageSize] at *
          omega
        · have hfresh := hclaim.fresh 0 (by omega)
          rwa [Nat.zero_mul, Nat.add_zero] at hfresh

/-- `actor_spawn` goes through exactly when a slot is dead and there is a page for the stack. -/
theorem actorSpawn_some_iff {k : Kernel D} (h : AllocInv k.memory) (entry : Nat) (i : Slot) :
    (actorSpawn L k entry).2 = some i ↔ freeSlot k = some i ∧ StackReady k.memory := by
  unfold actorSpawn
  cases hfree : freeSlot k with
  | none => simp
  | some j =>
      dsimp only
      rcases allocPage_spec h with ⟨hnone, -⟩ | ⟨p, hsome, halloc⟩
      · rw [show allocPage k.memory = ((allocPage k.memory).1, none) from Prod.ext rfl hnone]
        have hready : ¬ StackReady k.memory := by
          rintro ⟨p, hp, -⟩
          rw [hnone] at hp
          cases hp
        simp [hready]
      · rw [show allocPage k.memory = ((allocPage k.memory).1, some p) from Prod.ext rfl hsome]
        have hcap := halloc.taken.page.cap
        have hready : StackReady k.memory ↔
            ¬ (p < commonsEnd ∨ privateWindowEnd < (p + actorStackSize) % 2 ^ 64) := by
          have hsum : (p + actorStackSize) % 2 ^ 64 = p + pageSize := by
            simp only [memCap, actorStackSize, pageSize] at *
            omega
          rw [hsum]
          constructor
          · rintro ⟨q, hq, hlow, hhigh⟩
            rw [hsome] at hq
            cases hq
            omega
          · intro hrange
            exact ⟨p, hsome, by omega, by omega⟩
        dsimp only
        rw [halAddressSpaceCreate_eq]
        by_cases hrange : p < commonsEnd ∨ privateWindowEnd < (p + actorStackSize) % 2 ^ 64
        · have hnot : ¬ StackReady k.memory := fun hstack => hready.mp hstack hrange
          rw [if_pos hrange]
          simp [hnot]
        · have hstack : StackReady k.memory := hready.mpr hrange
          rw [if_neg hrange]
          simp [hstack]

/-- The result of `hal_address_space_map_program` for a program that fits the window. -/
theorem halAddressSpaceMapProgram_rc (ram : Mem) (pool : ProgramPool) (slot : Slot) (phys : Nat)
    {size : Nat} (hsize : ¬ (size = 0 ∨ programWindowMax < size)) :
    (halAddressSpaceMapProgram L ram pool slot phys size).2.2 =
      if pool.ready.pick slot = none then -1 else 0 := by
  rw [halAddressSpaceMapProgram, if_neg hsize]
  dsimp only
  split
  · rename_i hpick
    rw [if_pos hpick]
  · rename_i index hpick
    rw [if_neg (by rw [hpick]; exact Option.some_ne_none index)]

/-- `actor_spawn_program_child` goes through exactly when the spawn is ready. -/
theorem actorSpawnProgramChild_none_iff {k : Kernel D} (h : AllocInv k.memory) {c : Slot}
    {phys size off : Nat} (hsize : ¬ (size = 0 ∨ programWindowMax < size)) :
    (actorSpawnProgramChild L k c phys size off).2 = none ↔ ¬ SpawnReady k c := by
  have hpool := (actorSpawn_frame L k (programVbase + off)).2
  have hiff := actorSpawn_some_iff (L := L) h (programVbase + off)
  unfold actorSpawnProgramChild
  by_cases hmay : MaySpawn k c
  swap
  · rw [if_pos hmay]
    simp only [true_iff]
    exact fun hready => hmay hready.may
  rw [if_neg (not_not.mpr hmay)]
  unfold actorSpawnProgram
  generalize actorSpawn L k (programVbase + off) = r at hpool hiff
  obtain ⟨k1, result⟩ := r
  cases result with
  | none =>
      simp only [true_iff]
      rintro ⟨-, ⟨i, hslot, -⟩, hstack⟩
      exact absurd ((hiff i).mpr ⟨hslot, hstack⟩) (Option.some_ne_none i).symm
  | some i =>
      obtain ⟨hslot, hstack⟩ := (hiff i).mp rfl
      have hready : SpawnReady k c ↔ k.pool.ready.pick i ≠ none := by
        constructor
        · rintro ⟨-, ⟨j, hj, hpick⟩, -⟩
          rw [hslot] at hj
          cases hj
          exact hpick
        · exact fun hpick => ⟨hmay, ⟨i, hslot, hpick⟩, hstack⟩
      dsimp only at hpool ⊢
      have hrc := halAddressSpaceMapProgram_rc (L := L) k1.memory.ram k1.pool i phys hsize
      rw [hpool] at hrc ⊢
      rw [hready, hrc]
      by_cases hpick : k.pool.ready.pick i = none
      · rw [if_pos hpick, if_pos (by decide)]
        simp [hpick]
      · rw [if_neg hpick, if_neg (by decide)]
        simp [hpick]

/-- Nothing that was taken is given back by a program spawn. -/
theorem actorSpawnProgramChild_kept {prog : Slot → Option (Nat × Nat)} {k : Kernel D}
    (h : MemInv L prog k) {c : Slot} {phys size off q : Nat} (hq : k.memory.Taken q) :
    (actorSpawnProgramChild L k c phys size off).1.memory.Taken q := by
  have hspawned := actorSpawn_mem h (programVbase + off)
  unfold actorSpawnProgramChild
  split
  · exact hq
  unfold actorSpawnProgram
  generalize actorSpawn L k (programVbase + off) = r at hspawned
  obtain ⟨k1, result⟩ := r
  have hkept : k1.memory.Taken q := by
    rcases hspawned with ⟨-, -, hkept⟩ | ⟨i, -, hspawn⟩
    · exact hkept q hq
    · exact hspawn.kept q hq
  have hram : ∀ ram, ({ k1.memory with ram := ram } : Memory).Taken q :=
    fun ram => ⟨hkept.page, hkept.used, hkept.notFree⟩
  cases result with
  | none => exact hkept
  | some i =>
      dsimp only
      by_cases hrc : (halAddressSpaceMapProgram L k1.memory.ram k1.pool i phys size).2.2 ≠ 0
      · rw [if_pos hrc]
        exact hram _
      · rw [if_neg hrc]
        dsimp only
        rw [(adoptChild_memory _ c i).1]
        exact hram _

/-- Reaping gives back stack pages only. -/
theorem MemInv.reap_taken {prog : Slot → Option (Nat × Nat)} {k : Kernel D} (h : MemInv L prog k)
    {p : Nat} (hp : privateWindowEnd ≤ p) (htaken : k.memory.Taken p) :
    (Vajra.reapDeadActors k).memory.Taken p := by
  unfold Vajra.reapDeadActors
  generalize List.finRange maxActors = slots
  induction slots generalizing k with
  | nil => exact htaken
  | cons i rest ih =>
      refine ih (h.reapActor i) ?_
      rcases reapActor_cases k i with heq | ⟨page, -, -, hpage, heq⟩
      · rw [heq]
        exact htaken
      · obtain ⟨hpageTaken, -, hhigh⟩ := h.stack i page hpage
        have hne : p ≠ page := by
          simp only [pageSize] at hhigh
          omega
        rw [heq]
        exact (freePage_spec h.alloc hpageTaken).2 p hne htaken

/-- Reaping takes no page away. -/
theorem reapDeadActors_allocatable {k : Kernel D} {p : Nat} (h : k.memory.Allocatable p) :
    (reapDeadActors k).memory.Allocatable p := by
  unfold reapDeadActors
  generalize List.finRange maxActors = slots
  induction slots generalizing k with
  | nil => exact h
  | cons i rest ih =>
      refine ih ?_
      rcases reapActor_cases k i with heq | ⟨page, -, -, -, heq⟩
      · rw [heq]
        exact h
      · rw [heq, setActor_memory]
        unfold freePage
        split
        · rcases h with hlisted | hfree
          · exact Or.inl (List.mem_cons_of_mem page hlisted)
          · exact Or.inr hfree
        · exact h

/-- A load that fails leaves the pages that can be allocated, once dead slots have been reaped,
and the spawner's count and capabilities as they were. -/
def FailsCleanly (L : Layout) (k : Kernel D) (c : Slot) (id : Int) : Prop :=
  (loaderSpawnProgram L k c id).2 = none →
    (∀ p, (reapDeadActors (loaderSpawnProgram L k c id).1).memory.Allocatable p ↔
      (reapDeadActors k).memory.Allocatable p) ∧
    ((loaderSpawnProgram L k c id).1.actors c).spawnCount = (k.actors c).spawnCount ∧
    ((loaderSpawnProgram L k c id).1.actors c).caps = (k.actors c).caps

/-- Pages are taken for a program whose spawn then fails. -/
def AbandonsPages (k : Kernel D) (c : Slot) (id : Int) : Prop :=
  (∃ image, Stageable k id image) ∧ ¬ SpawnReady k c

/-- The first page of an abandoned program is lost. -/
theorem abandoned_page_lost {prog : Slot → Option (Nat × Nat)} {k k1 : Kernel D}
    (h : MemInv L prog k) {c : Slot} {id : Int} {phys : Nat} {image : ProgramImage}
    (hstage : loaderStage k id = (k1, some (phys, image))) (htop : phys < k.memory.memTop)
    (hfresh : ¬ k.memory.Taken phys) (hlive : k.Live c)
    (hnone : (loaderSpawnProgram L k c id).2 = none) :
    (reapDeadActors k).memory.Allocatable phys ∧
      ¬ (reapDeadActors (loaderSpawnProgram L k c id).1).memory.Allocatable phys := by
  obtain ⟨hstageInv, hprogram⟩ := loaderStage_mem h id
  rw [hstage] at hstageInv hprogram
  obtain ⟨hpages, -⟩ := hprogram phys image rfl
  have hpositive : 0 < image.pages * 4096 / pageSize := by
    obtain ⟨bytes, -, hparse⟩ := loaderStage_parsed hstage
    obtain ⟨hpos, hmax⟩ := parseProgram_bounds hparse
    have hcount := (ProgramImage.pages_spec hpos hmax).1
    simp only [pageSize]
    omega
  have htaken : k1.memory.Taken phys := by
    have hfirst := hpages.taken 0 hpositive
    rwa [Nat.zero_mul, Nat.add_zero] at hfirst
  constructor
  · exact reapDeadActors_allocatable (Memory.allocatable_of_not_taken htaken.page htop hfresh)
  · have hload : (loaderSpawnProgram L k c id).1 =
        (actorSpawnProgramChild L k1 c phys (image.pages * 4096) image.entryOffset).1 := by
      rw [loaderSpawnProgram, hstage]
    have hkept : (loaderSpawnProgram L k c id).1.memory.Taken phys := by
      rw [hload]
      exact actorSpawnProgramChild_kept hstageInv htaken
    rcases loaderSpawnProgram_mem h hlive id with ⟨-, hinv⟩ | ⟨i, r, hsome, -⟩
    · exact (hinv.reap_taken hpages.high hkept).not_allocatable
    · rw [hnone] at hsome
      cases hsome

/-- **When a failed program load leaves no trace.** -/
theorem failed_load_clean_iff {hal : Hal D} {b : Boot D} {k : Kernel D} (h : Reached L hal b k)
    {c : Slot} (hmode : k.mode = .running) (hcur : k.current = some c) (id : Int) :
    FailsCleanly L k c id ↔ ¬ AbandonsPages k c id := by
  obtain ⟨prog, hinv⟩ := h.mem
  have hlive := h.current_live hmode hcur
  rcases loaderStage_cases hinv.alloc id with
    ⟨⟨st, hstage⟩, hnot⟩ | ⟨k1, phys, image, hstage, hstageable, hbelow, htop, hfresh⟩
  · -- nothing was taken
    have hload : loaderSpawnProgram L k c id = (k.withStore st, none) := by
      rw [loaderSpawnProgram, hstage]
    have hclean : FailsCleanly L k c id := by
      intro _
      rw [hload]
      dsimp only
      rw [reapDeadActors_withStore]
      exact ⟨fun p => Iff.rfl, rfl, rfl⟩
    refine iff_of_true hclean ?_
    rintro ⟨⟨image, hstageable⟩, -⟩
    exact hnot image hstageable
  · have hstaged := loaderStage_staged k id
    rw [hstage] at hstaged
    dsimp only at hstaged
    have hready : SpawnReady k1 c ↔ SpawnReady k c :=
      ⟨fun hspawn => hspawn.congr hstaged.actors.symm hstaged.pool.symm hbelow.symm,
        fun hspawn => hspawn.congr hstaged.actors hstaged.pool hbelow⟩
    have hsize : ¬ (image.pages * 4096 = 0 ∨ programWindowMax < image.pages * 4096) := by
      obtain ⟨hpos, hmax⟩ := parseProgram_bounds hstageable.valid
      obtain ⟨hcount, hfits, -⟩ := ProgramImage.pages_spec hpos hmax
      omega
    have hnone : (loaderSpawnProgram L k c id).2 = none ↔ ¬ SpawnReady k c := by
      have halloc : AllocInv k1.memory := by
        have hstageInv := (loaderStage_mem hinv id).1
        rw [hstage] at hstageInv
        exact hstageInv.alloc
      rw [loaderSpawnProgram, hstage, ← hready]
      exact actorSpawnProgramChild_none_iff halloc hsize
    by_cases hspawn : SpawnReady k c
    · have hclean : FailsCleanly L k c id := fun hfailed => absurd hspawn (hnone.mp hfailed)
      exact iff_of_true hclean fun habandons => habandons.2 hspawn
    · have hlost := abandoned_page_lost hinv hstage htop hfresh hlive (hnone.mpr hspawn)
      refine iff_of_false (fun hclean => ?_) (not_not.mpr ⟨⟨image, hstageable⟩, hspawn⟩)
      exact hlost.2 (((hclean (hnone.mpr hspawn)).1 phys).mpr hlost.1)

end

/-- The program loader of `kernel_main` has started two programs and has no quota left. -/
def thirdLoadEvents : List (Event Unit) :=
  List.replicate 11 .tick ++ [sampleCall 17 2 0 0, sampleCall 17 2 0 0]

set_option maxRecDepth 100000 in
/-- The first program of a boot: a table, a page for the stack and the quota are there. -/
theorem failed_load_clean_first :
    ∃ tr k, Run sampleLayout silentHal programBoot tr k ∧ k.mode = .running ∧
      k.current = some 12 ∧ FailsCleanly sampleLayout k 12 2 := by
  have hrun : (runTrace (step sampleLayout silentHal) [] (bootState sampleLayout programBoot)
      (List.replicate 11 .tick)).map
      (fun r => ((r.2.mode, r.2.current, decide (MaySpawn r.2 12)), freeSlot r.2,
        r.2.pool.ready.pick 15, (allocPage r.2.memory).2)) =
      some ((Mode.running, some 12, true), some 15, some 0, some 0x10F000) := by
    decide +kernel
  obtain ⟨tr, k, htrace, hview⟩ := exists_trace_of_runTrace hrun
  simp only [Prod.mk.injEq, decide_eq_true_eq] at hview
  obtain ⟨⟨hmode, hcur, hmay⟩, hslot, hpick, hpage⟩ := hview
  have hready : SpawnReady k 12 := by
    refine ⟨hmay, ⟨15, hslot, ?_⟩, 0x10F000, hpage, by decide, by decide⟩
    rw [hpick]
    exact Option.some_ne_none 0
  exact ⟨tr, k, htrace, hmode, hcur,
    (failed_load_clean_iff (.run htrace) hmode hcur 2).mpr fun habandons => habandons.2 hready⟩

set_option maxRecDepth 100000 in
/-- The third program of the program loader: the call fails on the quota, and the page at
`0x202000` is gone. -/
theorem failed_load_leaks :
    ∃ tr k, Run sampleLayout silentHal programBoot tr k ∧ k.mode = .running ∧
      k.current = some 12 ∧ ¬ FailsCleanly sampleLayout k 12 2 := by
  have hrun : (runTrace (step sampleLayout silentHal) [] (bootState sampleLayout programBoot)
      thirdLoadEvents).map
      (fun r => ((r.2.mode, r.2.current, (loaderSpawnProgram sampleLayout r.2 12 2).2),
        (decide (0x202000 < (reapDeadActors r.2).memory.memTop),
          (reapDeadActors r.2).memory.bitmap (pageIndex 0x202000)),
        (reapDeadActors (loaderSpawnProgram sampleLayout r.2 12 2).1).memory.freeList,
        (reapDeadActors (loaderSpawnProgram sampleLayout r.2 12 2).1).memory.bitmap
          (pageIndex 0x202000))) =
      some ((Mode.running, some 12, none), (true, false), [], true) := by
    decide +kernel
  obtain ⟨tr, k, htrace, hview⟩ := exists_trace_of_runTrace hrun
  simp only [Prod.mk.injEq, decide_eq_true_eq] at hview
  obtain ⟨⟨hmode, hcur, hnone⟩, ⟨htop, hbefore⟩, hlist, hafter⟩ := hview
  refine ⟨tr, k, htrace, hmode, hcur, fun hclean => ?_⟩
  have hpage : IsPage 0x202000 := ⟨by decide, by decide, by decide⟩
  rcases ((hclean hnone).1 0x202000).mpr (Or.inr ⟨hpage, htop, hbefore⟩) with
    hlisted | ⟨-, -, hfree⟩
  · rw [hlist] at hlisted
    cases hlisted
  · rw [hafter] at hfree
    cases hfree

end Vajra
