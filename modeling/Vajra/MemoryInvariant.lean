import Vajra.AddressSpaceBuild
import Vajra.PageAllocator
import Vajra.SchedulerInvariant

/-!
# The memory invariant

`MemInv` ties the allocator, the stack pages in the actor table, the page tables in
memory and the program pool together.  `prog` says which program each slot's present
occupant was loaded with, as its physical base and size.

A store that leaves the kernel bytes alone keeps every address space, so most steps
keep the invariant by `MemInv.frame`; that a store from ring 3 is one of these is itself a
consequence of the invariant (`MemInv.pokeUser`).
-/

namespace Vajra

open ByteMemory TransitionTrace

variable {D : Type}

/-- The pages of a loaded program: above the private window, and taken. -/
structure ProgramPages (m : Memory) (phys size : Nat) : Prop where
  placed : Placed phys size
  high : privateWindowEnd ≤ phys
  taken : ∀ i < size / pageSize, m.Taken (phys + i * pageSize)

/-- The address space of slot `s`. -/
structure Space (L : Layout) (prog : Option (Nat × Nat)) (k : Kernel D) (s : Slot) (page : Nat) :
    Prop where
  stack : (k.actors s).stackPage = some page
  root : (k.actors s).cr3 = L.table (.pml4 s)
  built : Built L k.memory.ram s page
  program : ProgramMapped L k.memory.ram k.pool s prog

/-- The memory invariant. -/
structure MemInv (L : Layout) (prog : Slot → Option (Nat × Nat)) (k : Kernel D) : Prop where
  alloc : AllocInv k.memory
  boot : BootDir k.memory.ram
  stack : ∀ s p, (k.actors s).stackPage = some p →
    k.memory.Taken p ∧ commonsEnd ≤ p ∧ p + pageSize ≤ privateWindowEnd
  owner : ∀ s t p, (k.actors s).stackPage = some p → (k.actors t).stackPage = some p → s = t
  space : ∀ s, k.Live s → ∃ p, Space L (prog s) k s p
  pages : ∀ s, k.Live s → ∀ phys size, prog s = some (phys, size) →
    ProgramPages k.memory phys size
  apart : ∀ s t, k.Live s → k.Live t → s ≠ t → ∀ phys size phys' size',
    prog s = some (phys, size) → prog t = some (phys', size') →
    ∀ i < size / pageSize, ∀ j < size' / pageSize,
      phys + i * pageSize ≠ phys' + j * pageSize

theorem ProgramPages.mono {m m' : Memory} {phys size : Nat} (h : ProgramPages m phys size)
    (hkept : ∀ q, m.Taken q → m'.Taken q) : ProgramPages m' phys size :=
  ⟨h.placed, h.high, fun i hi => hkept _ (h.taken i hi)⟩

/-- Only the programs of live actors matter. -/
theorem MemInv.congr_prog {L : Layout} {prog prog' : Slot → Option (Nat × Nat)} {k : Kernel D}
    (h : MemInv L prog k) (hprog : ∀ s, k.Live s → prog' s = prog s) : MemInv L prog' k where
  alloc := h.alloc
  boot := h.boot
  stack := h.stack
  owner := h.owner
  space s hs := by
    rw [hprog s hs]
    exact h.space s hs
  pages s hs := by
    rw [hprog s hs]
    exact h.pages s hs
  apart s t hs ht hne := by
    rw [hprog s hs, hprog t ht]
    exact h.apart s t hs ht hne

/-- **Frame rule.**  Nothing is revived, no stack page or root changes, and memory
changes outside the kernel bytes only. -/
theorem MemInv.frame {L : Layout} {prog : Slot → Option (Nat × Nat)} {k k' : Kernel D}
    (h : MemInv L prog k) (hlive : ∀ s, k'.Live s → k.Live s)
    (hactor : ∀ s, (k'.actors s).stackPage = (k.actors s).stackPage ∧
      (k'.actors s).cr3 = (k.actors s).cr3)
    (hpool : k'.pool = k.pool) {ram : Mem} (hmem : k'.memory = { k.memory with ram := ram })
    (hsame : SameKernel L k.memory.ram ram) : MemInv L prog k' := by
  have hram : k'.memory.ram = ram := by rw [hmem]
  have htaken : ∀ p, k.memory.Taken p → k'.memory.Taken p := by
    intro p hp
    rw [hmem]
    exact ⟨hp.page, hp.used, hp.notFree⟩
  refine ⟨?_, ?_, ?_, ?_, ?_, ?_, ?_⟩
  · rw [hmem]
    exact ⟨h.alloc.top, h.alloc.next, h.alloc.free, h.alloc.nodup⟩
  · rw [hram]
    exact hsame.bootDir h.boot
  · intro s p hp
    rw [(hactor s).1] at hp
    exact ⟨htaken p (h.stack s p hp).1, (h.stack s p hp).2⟩
  · intro s t p hs ht
    rw [(hactor s).1] at hs
    rw [(hactor t).1] at ht
    exact h.owner s t p hs ht
  · intro s hs
    obtain ⟨p, hspace⟩ := h.space s (hlive s hs)
    refine ⟨p, ?_, ?_, ?_, ?_⟩
    · rw [(hactor s).1]
      exact hspace.stack
    · rw [(hactor s).2]
      exact hspace.root
    · rw [hram]
      exact hspace.built.of_sameKernel hsame
    · rw [hram, hpool]
      exact hspace.program.of_sameKernel hsame
  · intro s hs phys size hprog
    exact (h.pages s (hlive s hs) phys size hprog).mono htaken
  · intro s t hs ht
    exact h.apart s t (hlive s hs) (hlive t ht)

/-- One turn of the reaping loop keeps the invariant. -/
theorem MemInv.reapActor {L : Layout} {prog : Slot → Option (Nat × Nat)} {k : Kernel D}
    (h : MemInv L prog k) (i : Slot) : MemInv L prog (reapActor k i) := by
  rcases reapActor_cases k i with heq | ⟨page, _, hdead, hpage, heq⟩
  · rw [heq]
    exact h
  rw [heq]
  obtain ⟨htaken, _⟩ := h.stack i page hpage
  obtain ⟨halloc, hkept⟩ := freePage_spec h.alloc htaken
  -- No other slot has the page that is freed, and no program does.
  have hother : ∀ s, s ≠ i → ∀ p, (k.actors s).stackPage = some p → p ≠ page := by
    rintro s hs p hp rfl
    exact hs (h.owner s i p hp hpage)
  have hlive : ∀ s, (({ k with memory := freePage k.memory page } : Kernel D).setActor i
      { k.actors i with stackPage := none }).Live s → s ≠ i ∧ k.Live s := by
    intro s hs
    have hsi : s ≠ i := by
      rintro rfl
      simp [Kernel.Live, hdead] at hs
    refine ⟨hsi, ?_⟩
    simpa [Kernel.Live, hsi] using hs
  refine ⟨halloc, ?_, ?_, ?_, ?_, ?_, ?_⟩
  · simpa using h.boot
  · intro s p hp
    by_cases hs : s = i
    · subst hs
      simp at hp
    · simp only [setActor_actors, Function.update_of_ne hs] at hp
      obtain ⟨ht, hrange⟩ := h.stack s p hp
      exact ⟨hkept p (hother s hs p hp) ht, hrange⟩
  · intro s t p hs ht
    by_cases hsi : s = i
    · subst hsi
      simp at hs
    by_cases hti : t = i
    · subst hti
      simp at ht
    simp only [setActor_actors, Function.update_of_ne hsi] at hs
    simp only [setActor_actors, Function.update_of_ne hti] at ht
    exact h.owner s t p hs ht
  · intro s hs
    obtain ⟨hsi, hs⟩ := hlive s hs
    obtain ⟨p, hspace⟩ := h.space s hs
    refine ⟨p, ?_, ?_, ?_, ?_⟩
    · simpa [hsi] using hspace.stack
    · simpa [hsi] using hspace.root
    · simpa using hspace.built
    · simpa using hspace.program
  · intro s hs phys size hprog
    obtain ⟨_, hs⟩ := hlive s hs
    have hpages := h.pages s hs phys size hprog
    refine ⟨hpages.placed, hpages.high, fun j hj => hkept _ ?_ (hpages.taken j hj)⟩
    have hhigh := hpages.high
    have hwindow := (h.stack i page hpage).2.2
    simp only [privateWindowEnd, pageSize] at *
    omega
  · intro s t hs ht
    exact h.apart s t (hlive s hs).2 (hlive t ht).2

theorem MemInv.reapDeadActors {L : Layout} {prog : Slot → Option (Nat × Nat)} {k : Kernel D}
    (h : MemInv L prog k) : MemInv L prog (reapDeadActors k) := by
  unfold Vajra.reapDeadActors
  generalize List.finRange maxActors = slots
  induction slots generalizing k with
  | nil => exact h
  | cons i rest ih => exact ih (h.reapActor i)

/-- `schedule_next` keeps the invariant. -/
theorem MemInv.scheduleNext {L : Layout} {prog : Slot → Option (Nat × Nat)} {k : Kernel D}
    (h : MemInv L prog k) : MemInv L prog (scheduleNext k) := by
  have hreaped := h.reapDeadActors
  rcases scheduleNext_cases k with ⟨heq, _⟩ | ⟨next, a, hrun, ⟨ctx, rfl, _⟩, heq⟩
  · rw [heq]
    exact hreaped.frame (fun s hs => hs) (fun s => ⟨rfl, rfl⟩) rfl rfl (SameKernel.refl L _)
  · rw [heq]
    refine hreaped.frame (fun s hs => ?_) (fun s => ?_) rfl rfl (SameKernel.refl L _)
    · by_cases hsn : s = next
      · subst hsn
        rw [Kernel.Live, (reapDeadActors_reaped k).state]
        rcases hrun with hr | hr <;> simp [hr]
      · simpa [Kernel.Live, hsn] using hs
    · by_cases hsn : s = next
      · subst hsn
        simp
      · simp [hsn]

/-- The exact ring-3 view of a live actor. -/
theorem MemInv.user_leaf_iff {L : Layout} {prog : Slot → Option (Nat × Nat)} {k : Kernel D}
    (h : MemInv L prog k) {s : Slot} {page : Nat} (hs : k.Live s)
    (hspace : Space L (prog s) k s page) (va : Nat) (leaf : Leaf) :
    (walk k.memory.ram (k.actors s).cr3 va = some leaf ∧ leaf.user = true) ↔
      Visible L page (prog s) va leaf.page ∧ leaf = ⟨leaf.page, true, true⟩ := by
  obtain ⟨htaken, hlow, hhigh⟩ := h.stack s page hspace.stack
  rw [hspace.root]
  exact hspace.built.user_leaf_iff hspace.program htaken.page.aligned hlow hhigh
    (fun phys size hprog => (h.pages s hs phys size hprog).placed) va leaf

/-- A visible physical byte is not a kernel byte. -/
theorem Visible.not_kernelByte {L : Layout} {page va p : Nat} {prog : Option (Nat × Nat)}
    (h : Visible L page prog va p) (hpage : commonsEnd ≤ page)
    (hprog : ∀ phys size, prog = some (phys, size) → commonsEnd ≤ phys) :
    ¬ KernelByte L (p + va % pageSize) := by
  rintro ⟨hlow, hnot⟩
  cases h with
  | text h =>
      rw [Nat.div_add_mod'] at hnot
      exact hnot h
  | stack => omega
  | program =>
      have := hprog _ _ rfl
      omega

/-- A store from ring 3 leaves the kernel bytes alone. -/
theorem MemInv.pokeUser {L : Layout} {prog : Slot → Option (Nat × Nat)} {k : Kernel D}
    (h : MemInv L prog k) {s : Slot} (hs : k.Live s) (va : Nat) (b : UInt8) :
    SameKernel L k.memory.ram (pokeUser k.memory.ram (k.actors s).cr3 va b) := by
  obtain ⟨page, hspace⟩ := h.space s hs
  unfold Vajra.pokeUser
  split
  · exact SameKernel.refl L _
  rename_i leaf hleaf
  split
  swap
  · exact SameKernel.refl L _
  rename_i hperm
  intro x hx
  refine Function.update_of_ne ?_ _ _
  rintro rfl
  have hvisible := ((h.user_leaf_iff hs hspace va leaf).mp ⟨hleaf, hperm.1⟩).1
  refine hvisible.not_kernelByte (h.stack s page hspace.stack).2.1 ?_ hx
  intro phys size hprog
  exact Nat.le_trans (by decide) (h.pages s hs phys size hprog).high

/-- The memory of a kernel replaced by one with the same kernel bytes. -/
theorem MemInv.withRam {L : Layout} {prog : Slot → Option (Nat × Nat)} {k : Kernel D}
    (h : MemInv L prog k) {ram : Mem} (hsame : SameKernel L k.memory.ram ram) :
    MemInv L prog { k with memory := { k.memory with ram := ram } } :=
  h.frame (fun _ hs => hs) (fun _ => ⟨rfl, rfl⟩) rfl rfl hsame

/-- The bytes of a call's result leave the kernel bytes alone. -/
theorem MemInv.commitOut_sameKernel {L : Layout} {prog : Slot → Option (Nat × Nat)}
    {k : Kernel D} (h : MemInv L prog k) {s : Slot} (hs : k.Live s) (out : List (Nat × UInt8)) :
    SameKernel L k.memory.ram (commitOut k s out).memory.ram := by
  induction out generalizing k with
  | nil => exact SameKernel.refl L _
  | cons b rest ih =>
      have hfirst := h.pokeUser hs b.1 b.2
      have hrest := ih (k := { k with memory := { k.memory with
        ram := Vajra.pokeUser k.memory.ram (k.actors s).cr3 b.1 b.2 } }) (h.withRam hfirst) hs
      exact hfirst.trans hrest

theorem MemInv.commitOut {L : Layout} {prog : Slot → Option (Nat × Nat)} {k : Kernel D}
    (h : MemInv L prog k) {s : Slot} (hs : k.Live s) (out : List (Nat × UInt8)) :
    MemInv L prog (commitOut k s out) :=
  h.frame (fun _ hs => hs) (fun _ => ⟨rfl, rfl⟩) rfl rfl (h.commitOut_sameKernel hs out)

/-- Zeroing a page the allocator manages leaves the kernel bytes alone. -/
theorem halZeroPage_sameKernel (L : Layout) (ram : Mem) {p : Nat} (hp : IsPage p) :
    SameKernel L ram (halZeroPage ram p) := by
  intro x hx
  have hbase := hp.base
  have hlow := hx.1
  refine zeroRange_outside (Or.inl ?_)
  simp only [memBase, commonsEnd] at *
  omega

end Vajra
