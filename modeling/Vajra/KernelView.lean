import Vajra.OutPointers

/-!
# What the kernel reaches (`hal/x86_64/paging.c`)

The kernel runs on the page tables of whichever actor it works for, so it depends on them for its
own code, data and stacks and for the pages it is about to hand out.  `ring0View` is the whole
translation of a live actor's address space, for every virtual address: the first megabyte and
2MB-256MB to themselves, one page of 1MB-2MB, the program, and nothing else
(`live_ring0_view`).
-/

namespace Vajra

open ByteMemory TransitionTrace

/-- The physical byte behind a virtual address. -/
def translation (ram : Mem) (cr3 va : Nat) : Option Nat :=
  (walk ram cr3 va).map fun leaf => leaf.page + va % pageSize

/-- The translation of an address space with the stack page `page` and the program `prog`. -/
def ring0View (page : Nat) (prog : Option (Nat × Nat)) (va : Nat) : Option Nat :=
  if va < commonsEnd then some va
  else if va < privateWindowEnd then
    if page ≤ va ∧ va < page + pageSize then some va else none
  else if va < memCap then some va
  else
    match prog with
    | none => none
    | some (phys, size) =>
        if va < programVbase + size then some (phys + (va - programVbase)) else none

section View

variable {L : Layout} {ram : Mem} {pool : ProgramPool} {s : Slot} {page : Nat}
  {prog : Option (Nat × Nat)}

/-- A page and the offset in it. -/
theorem page_offset (va : Nat) : va / pageSize * pageSize + va % pageSize = va := by
  rw [Nat.mul_comm]
  exact Nat.div_add_mod va pageSize

/-- The boot directory maps a 2MB frame to itself. -/
theorem entryFrame2M_boot {i : Nat} (hi : i < 128) : entryFrame2M (bootDirEntry i) = i * pageSize2M := by
  rw [bootDirEntry, if_pos hi]
  simp only [entryFrame2M, pageSize2M]
  omega

theorem present_boot_iff (i : Nat) : Present (bootDirEntry i) ↔ i < 128 := by
  unfold bootDirEntry
  by_cases hi : i < 128
  · simp only [hi, if_true, iff_true, Present, pageSize2M]
    omega
  · simp only [hi, if_false, iff_false]
    exact not_present_zero

theorem writable_bootDirEntry {i : Nat} (h : Present (bootDirEntry i)) : Writable (bootDirEntry i) := by
  rw [bootDirEntry, if_pos ((present_boot_iff i).mp h)]
  simp only [Writable, pageSize2M]
  omega

/-- Below 256MB the boot directory has a huge page, which maps an address to itself. -/
theorem bootDirEntry_leaf {va : Nat} (hva : va < memCap) :
    Present (bootDirEntry (va / 2 ^ 21)) ∧ Huge (bootDirEntry (va / 2 ^ 21)) ∧
      entryFrame2M (bootDirEntry (va / 2 ^ 21)) + va / pageSize % 512 * pageSize
        = va / pageSize * pageSize := by
  have hindex : va / 2 ^ 21 < 128 := by
    simp only [memCap] at hva
    omega
  have hpresent := (present_boot_iff _).mpr hindex
  refine ⟨hpresent, huge_bootDirEntry hpresent, ?_⟩
  rw [entryFrame2M_boot hindex]
  simp only [pageSize, pageSize2M]
  omega

/-- A walk through an entry of the boot directory. -/
theorem walkDir_bootDirEntry {dir va : Nat}
    (hentry : tableEntry ram dir (va / 2 ^ 21) = bootDirEntry (va / 2 ^ 21)) :
    walkDir ram dir va =
      if va < memCap then some ⟨va / pageSize * pageSize, false, true⟩ else none := by
  by_cases hva : va < memCap
  · obtain ⟨hpresent, hhuge, hpage⟩ := bootDirEntry_leaf hva
    have hwritable := writable_bootDirEntry hpresent
    have huser := not_user_bootDirEntry (va / 2 ^ 21)
    simp only [walkDir, hentry, hpresent, hhuge, hwritable, huser, hpage, hva, not_true, if_false,
      if_true, decide_false, decide_true]
  · have habsent : ¬ Present (bootDirEntry (va / 2 ^ 21)) := by
      rw [present_boot_iff]
      simp only [memCap] at hva
      omega
    simp only [walkDir, hentry, habsent, hva, not_false_eq_true, if_true, if_false]

/-- **The whole translation of an address space.** -/
theorem Built.translation_eq (h : Built L ram s page) (hprog : ProgramMapped L ram pool s prog)
    (haligned : page % pageSize = 0) (hplaced : ∀ phys size, prog = some (phys, size) → Placed phys size)
    (va : Nat) : translation ram (L.table (.pml4 s)) va = ring0View page prog va := by
  unfold translation ring0View
  rw [h.walk_eq]
  by_cases hcommons : va < commonsEnd
  · have hgig : va < 2 ^ 30 := by
      simp only [commonsEnd] at hcommons
      omega
    rw [if_pos hgig, if_pos hcommons, h.walkDir_commons hcommons, Option.map_some, page_offset]
  rw [if_neg hcommons]
  by_cases hprivate : va < privateWindowEnd
  · have hgig : va < 2 ^ 30 := by
      simp only [privateWindowEnd] at hprivate
      omega
    rw [if_pos hgig, if_pos hprivate,
      h.walkDir_private haligned (Nat.le_of_not_lt hcommons) hprivate]
    by_cases hin : page ≤ va ∧ va < page + pageSize
    · have hoffset : page + va % pageSize = va := by
        simp only [pageSize] at *
        omega
      rw [if_pos hin, if_pos hin, Option.map_some, hoffset]
    · rw [if_neg hin, if_neg hin, Option.map_none]
  rw [if_neg hprivate]
  by_cases hgig : va < 2 ^ 30
  swap
  · have hcap : ¬ va < memCap := by
      simp only [memCap]
      omega
    rw [if_neg hgig, if_neg hcap]
    cases prog with
    | none => rfl
    | some p =>
        obtain ⟨phys, size⟩ := p
        have hsmall := (hplaced phys size rfl).small
        simp only [programWindowMax] at hsmall
        have hout : ¬ va < programVbase + size := by
          simp only [programVbase]
          omega
        simp only [Option.map_none, if_neg hout]
  rw [if_pos hgig]
  by_cases hwindow : va / 2 ^ 21 = 128
  · have hcap : ¬ va < memCap := by
      simp only [memCap]
      omega
    rw [if_neg hcap]
    cases prog with
    | none => rw [hprog.walkDir_none hwindow, Option.map_none]
    | some p =>
        obtain ⟨phys, size⟩ := p
        rw [hprog.walkDir_some (hplaced phys size rfl) hwindow]
        by_cases hin : va < programVbase + size
        · have hoffset : phys + (va - programVbase) / pageSize * pageSize + va % pageSize
              = phys + (va - programVbase) := by
            simp only [pageSize, programVbase, memCap] at *
            omega
          simp only [if_pos hin, Option.map_some, hoffset]
        · simp only [if_neg hin, Option.map_none]
  · have hentry : tableEntry ram (L.table (.pd s)) (va / 2 ^ 21) = bootDirEntry (va / 2 ^ 21) := by
      simp only [privateWindowEnd] at hprivate
      rw [h.pd _ (by omega) hwindow, if_neg (by omega)]
    rw [walkDir_bootDirEntry hentry]
    by_cases hcap : va < memCap
    · rw [if_pos hcap, if_pos hcap, Option.map_some, page_offset]
    · rw [if_neg hcap, if_neg hcap, Option.map_none]
      cases prog with
      | none => rfl
      | some p =>
          obtain ⟨phys, size⟩ := p
          have hsmall := (hplaced phys size rfl).small
          simp only [programWindowMax] at hsmall
          have hout : ¬ va < programVbase + size := by
            simp only [memCap, programVbase] at *
            omega
          simp only [if_neg hout]

end View

variable {D : Type}

/-- The address space of a live actor, under the memory invariant. -/
theorem MemInv.ring0_view {L : Layout} {prog : Slot → Option (Nat × Nat)} {k : Kernel D}
    (h : MemInv L prog k) {s : Slot} (hlive : k.Live s) :
    ∃ page, (k.actors s).stackPage = some page ∧ commonsEnd ≤ page ∧
      page + pageSize ≤ privateWindowEnd ∧
      ∀ va, translation k.memory.ram (k.actors s).cr3 va = ring0View page (prog s) va := by
  obtain ⟨page, hspace⟩ := h.space s hlive
  obtain ⟨htaken, hlow, hhigh⟩ := h.stack s page hspace.stack
  refine ⟨page, hspace.stack, hlow, hhigh, ?_⟩
  rw [hspace.root]
  exact hspace.built.translation_eq hspace.program htaken.page.aligned
    fun phys size hprog => (h.pages s hlive phys size hprog).placed

/-- Everything an address space leads to is memory the machine has. -/
theorem MemInv.ring0_cap {L : Layout} {prog : Slot → Option (Nat × Nat)} {k : Kernel D}
    (h : MemInv L prog k) {s : Slot} (hlive : k.Live s) {va p : Nat}
    (hp : translation k.memory.ram (k.actors s).cr3 va = some p) : p < memCap := by
  obtain ⟨page, _, _, hhigh, hview⟩ := h.ring0_view hlive
  rw [hview] at hp
  unfold ring0View at hp
  split at hp
  · cases hp
    rename_i hva
    simp only [commonsEnd, memCap] at *
    omega
  split at hp
  · split at hp
    · cases hp
      rename_i hva _
      simp only [privateWindowEnd, memCap] at *
      omega
    · cases hp
  split at hp
  · cases hp
    assumption
  split at hp
  · cases hp
  · rename_i phys size hprog
    have hcap := (h.pages s hlive phys size hprog).placed.cap
    split at hp
    · have hpva := Option.some.inj hp
      simp only [programVbase, memCap] at *
      omega
    · cases hp

/-- **The kernel's view of the live actors' address spaces.**  In every run in which the system
calls fill buffers of their callers, and for each live actor: the translation of every virtual
address at CPL 0. -/
theorem live_ring0_view {L : Layout} {hal : Hal D} {b : Boot D} {tr : List (Record D)} {k : Kernel D}
    (hrun : RawRun L hal b tr k) (hown : OwnBuffers L hal tr) {s : Slot} (hlive : k.Live s) :
    ∃ page, (k.actors s).stackPage = some page ∧ commonsEnd ≤ page ∧
      page + pageSize ≤ privateWindowEnd ∧
      ∀ va, translation k.memory.ram (k.actors s).cr3 va = ring0View page (programOf L tr s) va :=
  (run_mem (rawRun_run hrun hown)).ring0_view hlive

/-- Events that fill no buffer. -/
def storesNothing (hal : Hal D) (t : Record D) : Bool :=
  match t.pre.current with
  | none => true
  | some c => (outAddresses hal t.pre c t.event).isEmpty

theorem ownBuffers_of_storesNothing {L : Layout} {hal : Hal D} {tr : List (Record D)}
    (h : tr.all (storesNothing hal) = true) : OwnBuffers L hal tr := by
  induction tr with
  | nil => trivial
  | cons t rest ih =>
      rw [List.all_cons, Bool.and_eq_true] at h
      refine ⟨fun c hc va hva => ?_, ih h.2⟩
      have hempty := h.1
      simp only [storesNothing, hc, List.isEmpty_iff] at hempty
      rw [hempty] at hva
      cases hva

set_option maxRecDepth 100000 in
/-- The program loader of `kernel_main` has started its program: ring 0 sees it at 256MB. -/
theorem live_ring0_view_program :
    ∃ tr k, RawRun sampleLayout silentHal programBoot tr k ∧ OwnBuffers sampleLayout silentHal tr ∧
      k.Live 15 ∧ ∃ page, (k.actors 15).stackPage = some page ∧
        ∀ va, translation k.memory.ram (k.actors 15).cr3 va
          = ring0View page (some (0x200000, 0x1000)) va := by
  have hrun : (runTrace (rawStep sampleLayout silentHal) [] (bootState sampleLayout programBoot)
      (List.replicate 11 .tick ++ [sampleCall 17 2 0 0])).map
      (fun r => (decide (r.2.Live 15), programOf sampleLayout r.1 15,
        r.1.all (storesNothing silentHal))) = some (true, some (0x200000, 0x1000), true) := by
    decide +kernel
  obtain ⟨tr, k, htrace, hview⟩ := exists_trace_of_runTrace hrun
  simp only [Prod.mk.injEq, decide_eq_true_eq] at hview
  obtain ⟨hlive, hprog, hquiet⟩ := hview
  have hown : OwnBuffers sampleLayout silentHal tr := ownBuffers_of_storesNothing hquiet
  obtain ⟨page, hstack, _, _, hall⟩ := live_ring0_view htrace hown hlive
  rw [hprog] at hall
  exact ⟨tr, k, htrace, hown, hlive, page, hstack, hall⟩

end Vajra
