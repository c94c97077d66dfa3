import Vajra.KernelView
import Vajra.ProgramImages
import Vajra.StepStores

/-!
# The second core (`hal/x86_64/smp.c`, `paging.c`, `ap_trampoline.asm`)

`hal_smp_boot_ap` adds the registers of the local APIC to the tables `boot.asm` built, copies the
trampoline to 0x96000 and leaves the address of `ap_entry_c` beside it.  From then on the second
core runs on those tables while the first runs the actors; the trampoline's comment says that they
are never written again.

`Fixed` says that two memories agree on the first megabyte outside `.user_text` and the actors' page
tables.  Every step of the first core keeps it (`Stepped.fixed`), so a second core that wakes at any
time finds what was left for it (`second_core_view`).
-/

namespace Vajra

open ByteMemory TransitionTrace

def bootPml4PhysBase : Nat := 0x90000
def bootPdptPhysBase : Nat := 0x91000
def lapicMmioPhys : Nat := 0xFEE00000

/-- `boot.asm`: twelve kilobytes cleared, two 32-bit entries, and the page directory. -/
def bootTables (ram : Mem) : Mem :=
  let cleared := zeroRange ram bootPml4PhysBase 12288
  let rooted := writeLE cleared bootPml4PhysBase 4 0x91003
  bootPageDirectory (writeLE rooted bootPdptPhysBase 4 0x92003)

/-- `hal_map_lapic_mmio`, with `lapic_pd` and `lapic_pt` at `pd` and `pt`. -/
def halMapLapicMmio (pd pt : Nat) (ram : Mem) : Mem :=
  let cleared := clearTable (clearTable ram pd) pt
  let leafed := write64 cleared (pt + 8 * (lapicMmioPhys % pageSize2M / pageSize))
    (lapicMmioPhys ||| 0x3)
  let listed := write64 leafed (pd + 8 * (lapicMmioPhys % (pageSize2M * ptEntries) / pageSize2M))
    (pt ||| 0x3)
  write64 listed (bootPdptPhysBase + 8 * (lapicMmioPhys / (pageSize2M * ptEntries))) (pd ||| 0x3)

def apTrampolineAddr : Nat := 0x96000
def apBootFlagAddr : Nat := 0x96FF0
def apEntryPtrAddr : Nat := 0x96FF8

/-- What `hal_smp_boot_ap` has stored when it sends INIT and SIPI: `blob` is the trampoline, and
`entry` the address of `ap_entry_c`. -/
def halSmpBootAp (pd pt : Nat) (blob : List UInt8) (entry : Nat) (ram : Mem) : Mem :=
  let copied := writeBytes (halMapLapicMmio pd pt ram)
    (blob.zipIdx.map fun b => (apTrampolineAddr + b.2, b.1))
  write64 (write64 copied apBootFlagAddr 0) apEntryPtrAddr entry

/-- The kernel image, `lapic_pd` at `pd` and `lapic_pt` at `pt` included, ends below the boot tables,
and the trampoline below its two cells. -/
structure SmpLayout (L : Layout) (pd pt : Nat) (blob : List UInt8) : Prop where
  tables_low : ∀ t, L.table t + pageSize ≤ bootPml4PhysBase
  text_low : L.userTextEnd ≤ bootPml4PhysBase
  pd_aligned : pd % pageSize = 0
  pt_aligned : pt % pageSize = 0
  pd_low : pd + pageSize ≤ bootPml4PhysBase
  pt_low : pt + pageSize ≤ bootPml4PhysBase
  distinct : pd ≠ pt
  pd_own : ∀ t, L.table t ≠ pd
  pt_own : ∀ t, L.table t ≠ pt
  pd_not_text : ¬ IsUserText L pd
  pt_not_text : ¬ IsUserText L pt
  blob_short : apTrampolineAddr + blob.length ≤ apBootFlagAddr

/-- The entries that lead to the boot page directory and to the registers. -/
structure LapicMapped (pd pt : Nat) (ram : Mem) : Prop where
  pml4 : ∀ i < 512, tableEntry ram bootPml4PhysBase i = if i = 0 then 0x91003 else 0
  pdpt : ∀ i < 512, tableEntry ram bootPdptPhysBase i =
    if i = 0 then 0x92003 else if i = 3 then pd + 3 else 0
  boot : BootDir ram
  pd : ∀ i < 512, tableEntry ram pd i = if i = 503 then pt + 3 else 0
  pt : ∀ i < 512, tableEntry ram pt i = if i = 0 then lapicMmioPhys + 3 else 0

/-- A 32-bit entry in a cleared table. -/
theorem tableEntry_mov {ram : Mem} {base v i : Nat} (hv : v < 2 ^ 32)
    (hzero : ∀ x, base ≤ x → x < base + pageSize → ram x = 0) (hi : i < 512) :
    tableEntry (writeLE ram base 4 v) base i = if i = 0 then v else 0 := by
  have hbytes : ∀ j, j < 8 → writeLE ram base 4 v (base + 8 * i + j)
      = leByte (if i = 0 then v else 0) j := by
    intro j hj
    have hz : ram (base + 8 * i + j) = 0 := hzero _ (by omega) (by simp only [pageSize]; omega)
    by_cases hin : base ≤ base + 8 * i + j ∧ base + 8 * i + j < base + 4
    · have hi0 : i = 0 := by omega
      subst hi0
      rw [writeLE, if_pos hin, if_pos rfl]
      congr 1
      omega
    · rw [writeLE, if_neg hin, hz]
      by_cases hi0 : i = 0
      · subst hi0
        have hbig : 2 ^ 32 ≤ 256 ^ j := by
          calc (2 : Nat) ^ 32 = 256 ^ 4 := by norm_num
            _ ≤ 256 ^ j := Nat.pow_le_pow_right (by decide) (by omega)
        rw [if_pos rfl, leByte, Nat.div_eq_of_lt (by omega)]
        rfl
      · rw [if_neg hi0, leByte, Nat.zero_div]
        rfl
  rw [tableEntry, read64, readLE_of_bytes hbytes]
  split
  · exact Nat.mod_eq_of_lt (by omega)
  · rfl

theorem writeLE_outside {m : Mem} {a n v x : Nat} (h : x < a ∨ a + n ≤ x) :
    writeLE m a n v x = m x := by
  have hout : ¬ (a ≤ x ∧ x < a + n) := by omega
  rw [writeLE, if_neg hout]

theorem bootTables_pml4 (ram : Mem) {i : Nat} (hi : i < 512) :
    tableEntry (bootTables ram) bootPml4PhysBase i = if i = 0 then 0x91003 else 0 := by
  have hlast : tableEntry (bootTables ram) bootPml4PhysBase i =
      tableEntry (writeLE (zeroRange ram bootPml4PhysBase 12288) bootPml4PhysBase 4 0x91003)
        bootPml4PhysBase i := by
    apply tableEntry_congr
    intro x h1 h2
    simp only [bootPml4PhysBase] at h1 h2
    rw [bootTables, bootPageDirectory, writeArray_outside, writeLE_outside]
    · simp only [bootPdptPhysBase]
      omega
    · simp only [pageDirPhysBase]
      omega
  rw [hlast]
  refine tableEntry_mov (by omega) (fun x h1 h2 => ?_) hi
  simp only [pageSize, bootPml4PhysBase] at h1 h2
  exact zeroRange_inside (by simp only [bootPml4PhysBase]; omega)
    (by simp only [bootPml4PhysBase]; omega)

theorem bootTables_pdpt (ram : Mem) {i : Nat} (hi : i < 512) :
    tableEntry (bootTables ram) bootPdptPhysBase i = if i = 0 then 0x92003 else 0 := by
  have hlast : tableEntry (bootTables ram) bootPdptPhysBase i =
      tableEntry (writeLE (writeLE (zeroRange ram bootPml4PhysBase 12288) bootPml4PhysBase 4 0x91003)
        bootPdptPhysBase 4 0x92003) bootPdptPhysBase i := by
    apply tableEntry_congr
    intro x h1 h2
    simp only [bootPdptPhysBase] at h1 h2
    rw [bootTables, bootPageDirectory, writeArray_outside]
    simp only [pageDirPhysBase]
    omega
  rw [hlast]
  refine tableEntry_mov (by omega) (fun x h1 h2 => ?_) hi
  simp only [pageSize, bootPdptPhysBase] at h1 h2
  rw [writeLE_outside (by simp only [bootPml4PhysBase]; omega)]
  exact zeroRange_inside (by simp only [bootPml4PhysBase]; omega)
    (by simp only [bootPml4PhysBase]; omega)

/-- What `hal_map_lapic_mmio` writes lies in its own two pages and in one entry of the boot PDPT. -/
theorem halMapLapicMmio_outside {pd pt : Nat} {ram : Mem} {x : Nat}
    (hpd : x < pd ∨ pd + pageSize ≤ x) (hpt : x < pt ∨ pt + pageSize ≤ x)
    (hpdpt : x < bootPdptPhysBase + 24 ∨ bootPdptPhysBase + 32 ≤ x) :
    halMapLapicMmio pd pt ram x = ram x := by
  simp only [pageSize] at hpd hpt
  simp only [halMapLapicMmio, clearTable, lapicMmioPhys, pageSize2M, pageSize, ptEntries]
  rw [write64_outside (by omega), write64_outside (by omega), write64_outside (by omega),
    writeArray_outside (by omega), writeArray_outside (by omega)]

/-- **The entries after `hal_map_lapic_mmio`.** -/
theorem halMapLapicMmio_mapped {L : Layout} {pd pt : Nat} {blob : List UInt8}
    (h : SmpLayout L pd pt blob) (ram : Mem) :
    LapicMapped pd pt (halMapLapicMmio pd pt (bootTables ram)) := by
  have hpda := h.pd_aligned
  have hpta := h.pt_aligned
  have hpda' := hpda
  have hpta' := hpta
  have hpdl := h.pd_low
  have hptl := h.pt_low
  have hne := h.distinct
  simp only [pageSize, bootPml4PhysBase] at hpda hpta hpdl hptl
  constructor
  · intro i hi
    rw [← bootTables_pml4 ram hi]
    apply tableEntry_congr
    intro x h1 h2
    simp only [bootPml4PhysBase] at h1 h2
    exact halMapLapicMmio_outside (by simp only [pageSize]; omega) (by simp only [pageSize]; omega)
      (by simp only [bootPdptPhysBase]; omega)
  · intro i hi
    by_cases h3 : i = 3
    · subst h3
      have hvalue : (pd ||| 0x3) % 2 ^ 64 = pd + 3 := by
        rw [or_flags hpda' (by decide)]
        omega
      exact (read64_write64_same _ _ _).trans hvalue
    · rw [if_neg h3, ← bootTables_pdpt ram hi]
      apply tableEntry_congr
      intro x h1 h2
      simp only [bootPdptPhysBase] at h1 h2
      exact halMapLapicMmio_outside (by simp only [pageSize]; omega)
        (by simp only [pageSize]; omega) (by simp only [bootPdptPhysBase]; omega)
  · intro i hi
    rw [← bootPageDirectory_bootDir _ i hi]
    apply tableEntry_congr
    intro x h1 h2
    simp only [pageDirPhysBase] at h1 h2
    exact halMapLapicMmio_outside (by simp only [pageSize]; omega) (by simp only [pageSize]; omega)
      (by simp only [bootPdptPhysBase]; omega)
  · intro i hi
    have hlast : tableEntry (halMapLapicMmio pd pt (bootTables ram)) pd i =
        tableEntry (write64 (write64 (clearTable (clearTable (bootTables ram) pd) pt) pt
          (lapicMmioPhys ||| 0x3)) (pd + 8 * 503) (pt ||| 0x3)) pd i := by
      apply tableEntry_congr
      intro x h1 h2
      exact write64_outside (by simp only [bootPdptPhysBase, lapicMmioPhys, pageSize2M, ptEntries]; omega)
    rw [hlast, tableEntry]
    by_cases h503 : i = 503
    · subst h503
      rw [if_pos rfl, read64_write64_same, or_flags hpta' (by decide)]
      omega
    · rw [if_neg h503, read64_write64_disjoint (by omega), read64_write64_disjoint (by omega),
        clearTable, clearTable, read64_writeArray_disjoint (by simp only [ptEntries]; omega), ptEntries,
        read64_writeArray hi]
      rfl
  · intro i hi
    have hlast : tableEntry (halMapLapicMmio pd pt (bootTables ram)) pt i =
        tableEntry (write64 (clearTable (clearTable (bootTables ram) pd) pt) pt
          (lapicMmioPhys ||| 0x3)) pt i := by
      apply tableEntry_congr
      intro x h1 h2
      rw [halMapLapicMmio, write64_outside, write64_outside]
      · rfl
      · simp only [lapicMmioPhys, pageSize2M, ptEntries]
        omega
      · simp only [bootPdptPhysBase, lapicMmioPhys, pageSize2M, ptEntries]
        omega
    rw [hlast, tableEntry]
    by_cases h0 : i = 0
    · subst h0
      rw [if_pos rfl]
      exact read64_write64_same _ _ _
    · rw [if_neg h0, read64_write64_disjoint (by omega), clearTable, ptEntries,
        read64_writeArray hi]
      rfl


/-! ## What the first core leaves alone -/

/-- A byte of the first megabyte outside `.user_text` and the actors' page tables. -/
structure FixedByte (L : Layout) (x : Nat) : Prop where
  kernel : KernelByte L x
  apart : ∀ t, x < L.table t ∨ L.table t + pageSize ≤ x

/-- The memories agree on the fixed bytes. -/
def Fixed (L : Layout) (ram ram' : Mem) : Prop := ∀ x, FixedByte L x → ram' x = ram x

theorem Fixed.refl (L : Layout) (ram : Mem) : Fixed L ram ram := fun _ _ => rfl

theorem Fixed.trans {L : Layout} {ram ram' ram'' : Mem} (h : Fixed L ram ram')
    (h' : Fixed L ram' ram'') : Fixed L ram ram'' :=
  fun x hx => (h' x hx).trans (h x hx)

theorem SameKernel.fixed {L : Layout} {ram ram' : Mem} (h : SameKernel L ram ram') :
    Fixed L ram ram' :=
  fun x hx => h x hx.kernel

variable {D : Type} {L : Layout}

/-- A page above the first megabyte, or a table, has no fixed byte. -/
theorem Grows.fixed {m m' : Memory} (h : Grows L m m') : Fixed L m.ram m'.ram := by
  intro x hx
  rcases h.stores x with hsame | ⟨t, h1, h2⟩ | ⟨q, hq, _, h1, _⟩
  · exact hsame
  · have := hx.apart t
    omega
  · have hlow := hx.kernel.1
    have hbase := hq.base
    simp only [memBase, commonsEnd] at *
    omega

/-- Ring 3 of an actor reaches no kernel byte. -/
theorem MemInv.reach_not_kernelByte {prog : Slot → Option (Nat × Nat)} {k : Kernel D}
    (h : MemInv L prog k) {c : Slot} (hc : k.Live c) {x : Nat} (hx : InReach k c x) :
    ¬ KernelByte L x := by
  obtain ⟨va, p, hmapped, rfl⟩ := hx
  obtain ⟨page, hspace⟩ := h.space c hc
  refine ((h.userMapped_iff hc hspace va p).mp hmapped).not_kernelByte
    (h.stack c page hspace.stack).2.1 fun phys size hprog => ?_
  exact Nat.le_trans (by decide) (h.pages c hc phys size hprog).high

/-- **Every step leaves the fixed bytes alone.** -/
theorem Stepped.fixed {hal : Hal D} {k k' : Kernel D} {c : Slot} {e : Event D} {o : Outcome}
    {prog : Slot → Option (Nat × Nat)} (hstep : Stepped L hal k c e k' o) (hlive : k.Live c)
    (h : MemInv L prog k) : Fixed L k.memory.ram k'.memory.ram := by
  intro x hx
  rcases hstep.stores hlive h x with hsame | ⟨t, h1, h2⟩ | ⟨q, hq, _, h1, _⟩ | hreach
  · exact hsame
  · have := hx.apart t
    omega
  · have hlow := hx.kernel.1
    have hbase := hq.base
    simp only [memBase, commonsEnd] at *
    omega
  · exact absurd hx.kernel (h.reach_not_kernelByte hlive hreach)

/-- So does every call of `kernel_main`. -/
theorem setupState_fixed (L : Layout) (b : Boot D) (n : Nat) :
    Fixed L (powerOn b).memory.ram (setupState L b n).memory.ram := by
  refine (setupState_induction (P := fun k => MemInv L (fun _ => none) k ∧
    Fixed L (powerOn b).memory.ram k.memory.ram) ⟨powerOn_mem L b, Fixed.refl L _⟩ ?_ n).2
  intro k op _ ⟨hk, hfixed⟩
  rcases setupStep_cases L k op with ⟨entry, _, heq⟩ | ⟨st, heq⟩ | ⟨d, right, target, _, heq⟩ |
    ⟨s, quota, win, heq⟩
  · rw [heq]
    refine ⟨?_, hfixed.trans (actorSpawn_grows hk entry).fixed⟩
    rcases actorSpawn_mem hk entry with ⟨_, hinv, _⟩ | ⟨i, _, hspawn⟩
    · exact hinv
    · have hinv := hspawn.inv
      rw [Function.update_eq_self i (fun _ : Slot => (none : Option (Nat × Nat)))] at hinv
      exact hinv
  · rw [heq]
    exact ⟨hk.frame (fun _ hs => hs) (fun _ => ⟨rfl, rfl⟩) rfl rfl (SameKernel.refl L _), hfixed⟩
  · rw [heq]
    exact ⟨hk.setActor rfl rfl id, hfixed⟩
  · rw [heq]
    exact ⟨hk.setActor rfl rfl id, hfixed⟩

/-- **The first core never stores to a fixed byte**, from the moment it is switched on. -/
theorem run_fixed {hal : Hal D} {b : Boot D} {tr : List (Record D)} {k : Kernel D}
    (hrun : Run L hal b tr k) : Fixed L (bootPageDirectory b.ram) k.memory.ram := by
  obtain ⟨hinit, hram⟩ := memoryInit_spec (halGetMemoryMap b.memoryMap 32) (bootPageDirectory b.ram)
  have hpower : Fixed L (bootPageDirectory b.ram) (powerOn b).memory.ram := by
    have hbuffers := (netBuffers_spec L b.netBuffers hinit).2.fixed
    rw [hram] at hbuffers
    exact hbuffers
  refine hpower.trans ?_
  refine hrun.history_invariant (fun _ k => Fixed L (powerOn b).memory.ram k.memory.ram) ?_ ?_
  · have hsetup := setupState_fixed L b (kernelMainOps b).length
    rw [← kernelMain_eq_setupState] at hsetup
    rw [bootState, schedulerStart, scheduleNext_ram]
    exact hsetup
  · intro tr k e o k' hbefore hfixed hstep
    obtain ⟨c, _, _, hlive, hstepped⟩ := Run.stepped hbefore hstep
    exact hfixed.trans (hstepped.fixed hlive (run_mem hbefore))

/-! ## The second core -/

/-- What lies above the kernel image is fixed. -/
theorem SmpLayout.fixedByte {pd pt : Nat} {blob : List UInt8} (h : SmpLayout L pd pt blob) {x : Nat}
    (hx : bootPml4PhysBase ≤ x) (hlow : x < commonsEnd) : FixedByte L x := by
  refine ⟨⟨hlow, fun htext => ?_⟩, fun t => Or.inr (Nat.le_trans (h.tables_low t) hx)⟩
  have := h.text_low
  have := htext.2
  omega

/-- A page of the kernel image that is no table and no ring-3 code. -/
theorem fixedByte_page {q x : Nat} (haligned : q % pageSize = 0) (hlow : q < commonsEnd)
    (htables : ∀ t, L.table t ≠ q) (htext : ¬ IsUserText L q) (h1 : q ≤ x) (h2 : x < q + pageSize) :
    FixedByte L x := by
  have hstart := L.text_start_aligned
  have hend := L.text_end_aligned
  refine ⟨⟨?_, fun hin => htext ?_⟩, fun t => ?_⟩
  · simp only [pageSize, commonsEnd] at *
    omega
  · simp only [IsUserText, pageSize] at *
    omega
  · have hne := htables t
    have hat := L.table_aligned t
    simp only [pageSize] at *
    omega

/-- The five pages of the boot tables. -/
def BootTablePage (pd pt q : Nat) : Prop :=
  q = bootPml4PhysBase ∨ q = bootPdptPhysBase ∨ q = pageDirPhysBase ∨ q = pd ∨ q = pt

theorem LapicMapped.congr {pd pt : Nat} {ram ram' : Mem} (h : LapicMapped pd pt ram)
    (hsame : ∀ q, BootTablePage pd pt q → ∀ i < 512, tableEntry ram' q i = tableEntry ram q i) :
    LapicMapped pd pt ram' where
  pml4 i hi := (hsame _ (.inl rfl) i hi).trans (h.pml4 i hi)
  pdpt i hi := (hsame _ (.inr (.inl rfl)) i hi).trans (h.pdpt i hi)
  boot i hi := (hsame _ (.inr (.inr (.inl rfl))) i hi).trans (h.boot i hi)
  pd i hi := (hsame _ (.inr (.inr (.inr (.inl rfl)))) i hi).trans (h.pd i hi)
  pt i hi := (hsame _ (.inr (.inr (.inr (.inr rfl)))) i hi).trans (h.pt i hi)

/-- The boot tables are fixed. -/
theorem SmpLayout.bootTablePage_fixed {pd pt : Nat} {blob : List UInt8} (h : SmpLayout L pd pt blob)
    {q : Nat} (hq : BootTablePage pd pt q) {x : Nat} (h1 : q ≤ x) (h2 : x < q + pageSize) :
    FixedByte L x := by
  have hpd := h.pd_low
  have hpt := h.pt_low
  simp only [bootPml4PhysBase, pageSize] at hpd hpt
  rcases hq with rfl | rfl | rfl | rfl | rfl
  · simp only [bootPml4PhysBase, pageSize] at h1 h2
    exact h.fixedByte h1 (by simp only [commonsEnd]; omega)
  · simp only [bootPdptPhysBase, pageSize] at h1 h2
    exact h.fixedByte (by simp only [bootPml4PhysBase]; omega) (by simp only [commonsEnd]; omega)
  · simp only [pageDirPhysBase, pageSize] at h1 h2
    exact h.fixedByte (by simp only [bootPml4PhysBase]; omega) (by simp only [commonsEnd]; omega)
  · exact fixedByte_page h.pd_aligned (by simp only [commonsEnd]; omega) h.pd_own h.pd_not_text h1 h2
  · exact fixedByte_page h.pt_aligned (by simp only [commonsEnd]; omega) h.pt_own h.pt_not_text h1 h2

/-- The flags of the boot tables: present, writable, supervisor. -/
theorem flags_three {x : Nat} (h : x % pageSize = 0) :
    Present (x + 3) ∧ Writable (x + 3) ∧ ¬ User (x + 3) ∧ ¬ Huge (x + 3) := by
  simp only [Present, Writable, User, Huge, pageSize] at *
  omega

/-- The processor's walk through the boot tables. -/
theorem LapicMapped.walk_eq {pd pt : Nat} {ram : Mem} (h : LapicMapped pd pt ram)
    (hpd : pd % pageSize = 0) (hpt : pt % pageSize = 0) (hpdl : pd < 2 ^ 52) (hptl : pt < 2 ^ 52)
    (va : Nat) :
    walk ram bootPml4PhysBase va =
      if va < memCap then some ⟨va / pageSize * pageSize, false, true⟩
      else if va / pageSize * pageSize = lapicMmioPhys then some ⟨lapicMmioPhys, false, true⟩
      else none := by
  have hroot : entryPage bootPml4PhysBase = bootPml4PhysBase := by decide
  have habove : 2 ^ 30 ≤ va → ¬ va < memCap := by
    simp only [memCap]
    omega
  have hnotLapic : va / 2 ^ 30 ≠ 3 → ¬ va / pageSize * pageSize = lapicMmioPhys := by
    simp only [lapicMmioPhys, pageSize]
    omega
  unfold walk
  dsimp only
  rw [hroot, h.pml4 _ (Nat.mod_lt _ (by decide))]
  by_cases h4 : va / 2 ^ 39 % 512 = 0
  swap
  · rw [if_neg h4, if_neg (habove (by omega)), if_neg (hnotLapic (by omega)),
      if_pos not_present_zero, ite_self]
  have hpdpt : entryPage 0x91003 = bootPdptPhysBase := by decide
  have hflags4 : Present 0x91003 ∧ Writable 0x91003 ∧ ¬ User 0x91003 := by decide
  rw [if_pos h4, hpdpt, h.pdpt _ (Nat.mod_lt _ (by decide))]
  by_cases hcanon : Canonical va
  swap
  · have hhigh : 2 ^ 47 ≤ va := by
      simp only [Canonical] at hcanon
      omega
    rw [if_pos hcanon, if_neg (habove (by omega)), if_neg (hnotLapic (by omega))]
  have hlow : va < 2 ^ 39 := by
    simp only [Canonical] at hcanon
    omega
  rw [if_neg (not_not.mpr hcanon), if_neg (not_not.mpr hflags4.1)]
  by_cases h0 : va / 2 ^ 30 % 512 = 0
  · -- the first gigabyte
    have hdir : entryPage 0x92003 = pageDirPhysBase := by decide
    have hflags3 : Present 0x92003 ∧ Writable 0x92003 ∧ ¬ User 0x92003 := by decide
    have hindex : va / 2 ^ 21 % 512 = va / 2 ^ 21 := by omega
    rw [if_pos h0, hdir, hindex, if_neg (not_not.mpr hflags3.1), if_neg (hnotLapic (by omega)),
      h.boot _ (by omega)]
    by_cases hva : va < memCap
    · obtain ⟨hpresent, hhuge, hpage⟩ := bootDirEntry_leaf hva
      rw [if_neg (not_not.mpr hpresent), if_pos hhuge, if_pos hva, hpage]
      simpa [hflags4, hflags3] using writable_bootDirEntry hpresent
    · have habsent : ¬ Present (bootDirEntry (va / 2 ^ 21)) := by
        rw [present_boot_iff]
        simp only [memCap] at hva
        omega
      rw [if_pos habsent, if_neg hva]
  rw [if_neg h0, if_neg (habove (by omega))]
  by_cases h3 : va / 2 ^ 30 % 512 = 3
  swap
  · rw [if_neg h3, if_neg (hnotLapic (by omega)), if_pos not_present_zero]
  -- the fourth gigabyte, where `lapic_pd` and `lapic_pt` have one entry each
  obtain ⟨hpresent3, hwritable3, huser3, _⟩ := flags_three hpd
  rw [if_pos h3, if_neg (not_not.mpr hpresent3), entryPage_flags hpd hpdl (by decide),
    h.pd _ (Nat.mod_lt _ (by decide))]
  by_cases h503 : va / 2 ^ 21 % 512 = 503
  swap
  · have hout : ¬ va / pageSize * pageSize = lapicMmioPhys := by
      simp only [lapicMmioPhys, pageSize]
      omega
    rw [if_neg h503, if_pos not_present_zero, if_neg hout]
  obtain ⟨hpresent2, hwritable2, _, hhuge2⟩ := flags_three hpt
  rw [if_pos h503, if_neg (not_not.mpr hpresent2), if_neg hhuge2, entryPage_flags hpt hptl (by decide),
    h.pt _ (Nat.mod_lt _ (by decide))]
  have hhit : va / 2 ^ 12 % 512 = 0 ↔ va / pageSize * pageSize = lapicMmioPhys := by
    simp only [lapicMmioPhys, pageSize]
    omega
  by_cases hin : va / 2 ^ 12 % 512 = 0
  · have hlapic : lapicMmioPhys % pageSize = 0 := by decide
    obtain ⟨hpresent1, hwritable1, _, _⟩ := flags_three hlapic
    rw [if_pos hin, if_neg (not_not.mpr hpresent1), if_pos (hhit.mp hin),
      entryPage_flags hlapic (by decide) (by decide)]
    simp [hflags4, hwritable3, hwritable2, hwritable1]
  · rw [if_neg hin, if_pos not_present_zero, if_neg fun heq => hin (hhit.mpr heq)]

/-- The boot tables are as `hal_smp_boot_ap` left them. -/
theorem halSmpBootAp_mapped {pd pt : Nat} {blob : List UInt8} (h : SmpLayout L pd pt blob) (entry : Nat)
    (ram : Mem) : LapicMapped pd pt (bootPageDirectory (halSmpBootAp pd pt blob entry (bootTables ram))) := by
  have hmapped := halMapLapicMmio_mapped h ram
  have hshort := h.blob_short
  have hpd := h.pd_low
  have hpt := h.pt_low
  simp only [apTrampolineAddr, apBootFlagAddr] at hshort
  simp only [bootPml4PhysBase, pageSize] at hpd hpt
  -- Nothing below the trampoline changes after `hal_map_lapic_mmio`, but for the directory.
  have hbelow : ∀ x, x < apTrampolineAddr → halSmpBootAp pd pt blob entry (bootTables ram) x
      = halMapLapicMmio pd pt (bootTables ram) x := by
    intro x hx
    simp only [apTrampolineAddr] at hx
    simp only [halSmpBootAp]
    rw [write64_outside (by simp only [apEntryPtrAddr]; omega),
      write64_outside (by simp only [apBootFlagAddr]; omega), writeBytes_outside]
    intro b hb
    obtain ⟨c, _, rfl⟩ := List.mem_map.mp hb
    simp only [apTrampolineAddr]
    omega
  refine hmapped.congr fun q hq i hi => ?_
  by_cases hdir : q = pageDirPhysBase
  · subst hdir
    rw [bootPageDirectory_bootDir _ i hi, hmapped.boot i hi]
  apply tableEntry_congr
  intro x h1 h2
  rcases hq with rfl | rfl | rfl | rfl | rfl
  · simp only [bootPml4PhysBase] at h1 h2
    rw [bootPageDirectory, writeArray_outside (by simp only [pageDirPhysBase, ptEntries]; omega),
      hbelow x (by simp only [apTrampolineAddr]; omega)]
  · simp only [bootPdptPhysBase] at h1 h2
    rw [bootPageDirectory, writeArray_outside (by simp only [pageDirPhysBase, ptEntries]; omega),
      hbelow x (by simp only [apTrampolineAddr]; omega)]
  · exact absurd rfl hdir
  · rw [bootPageDirectory, writeArray_outside (by simp only [pageDirPhysBase, ptEntries]; omega),
      hbelow x (by simp only [apTrampolineAddr]; omega)]
  · rw [bootPageDirectory, writeArray_outside (by simp only [pageDirPhysBase, ptEntries]; omega),
      hbelow x (by simp only [apTrampolineAddr]; omega)]

/-- The trampoline and its entry pointer, as `hal_smp_boot_ap` left them. -/
theorem halSmpBootAp_trampoline (pd pt : Nat) {blob : List UInt8} (entry : Nat) (ram : Mem)
    (hshort : apTrampolineAddr + blob.length ≤ apBootFlagAddr) :
    (∀ i < blob.length, halSmpBootAp pd pt blob entry ram (apTrampolineAddr + i) = blob.getD i 0) ∧
      read64 (halSmpBootAp pd pt blob entry ram) apEntryPtrAddr = entry % 2 ^ 64 := by
  refine ⟨fun i hi => ?_, read64_write64_same _ _ _⟩
  simp only [halSmpBootAp]
  rw [write64_outside (by simp only [apEntryPtrAddr, apBootFlagAddr] at *; omega),
    write64_outside (by omega), writeBytes_zipIdx, if_pos (by omega), Nat.sub_zero]

/-- **What the second core runs on.**  However far the first core has come with the actors, the
boot tables still map 0-256MB and the registers of the local APIC, for ring 0, and nothing else; the
trampoline and the address it calls are there; and no actor's address space leads to those
registers or to anything else beyond 256MB. -/
theorem second_core_view {pd pt entry : Nat} {blob : List UInt8} {ram : Mem}
    (hlay : SmpLayout L pd pt blob) {hal : Hal D} {b : Boot D}
    (hboot : b.ram = halSmpBootAp pd pt blob entry (bootTables ram)) {tr : List (Record D)}
    {k : Kernel D} (hrun : RawRun L hal b tr k) (hown : OwnBuffers L hal tr) :
    (∀ va, walk k.memory.ram bootPml4PhysBase va =
      if va < memCap then some ⟨va / pageSize * pageSize, false, true⟩
      else if va / pageSize * pageSize = lapicMmioPhys then some ⟨lapicMmioPhys, false, true⟩
      else none) ∧
    (∀ i < blob.length, k.memory.ram (apTrampolineAddr + i) = blob.getD i 0) ∧
    read64 k.memory.ram apEntryPtrAddr = entry % 2 ^ 64 ∧
    ∀ s, k.Live s → ∀ va p, translation k.memory.ram (k.actors s).cr3 va = some p → p < memCap := by
  have hrun' := rawRun_run hrun hown
  have hfixed := run_fixed hrun'
  rw [hboot] at hfixed
  obtain ⟨hblob, hentry⟩ := halSmpBootAp_trampoline pd pt entry (bootTables ram) hlay.blob_short
  -- The trampoline's page is fixed, and above the page directory.
  have hpage : ∀ x, apTrampolineAddr ≤ x → x < apTrampolineAddr + pageSize →
      k.memory.ram x = halSmpBootAp pd pt blob entry (bootTables ram) x := by
    intro x h1 h2
    simp only [apTrampolineAddr, pageSize] at h1 h2
    rw [hfixed x (hlay.fixedByte (by simp only [bootPml4PhysBase]; omega)
      (by simp only [commonsEnd]; omega)), bootPageDirectory, writeArray_outside]
    simp only [pageDirPhysBase, ptEntries]
    omega
  have hshort := hlay.blob_short
  simp only [apBootFlagAddr, apTrampolineAddr] at hshort
  refine ⟨?_, fun i hi => ?_, ?_, fun s hs va p hp => (run_mem hrun').ring0_cap hs hp⟩
  · have hpd := hlay.pd_low
    have hpt := hlay.pt_low
    simp only [bootPml4PhysBase, pageSize] at hpd hpt
    have hmapped : LapicMapped pd pt k.memory.ram := by
      refine (halSmpBootAp_mapped hlay entry ram).congr fun q hq i hi => ?_
      apply tableEntry_congr
      intro x h1 h2
      exact hfixed x (hlay.bootTablePage_fixed hq (by omega) (by simp only [pageSize]; omega))
    exact hmapped.walk_eq hlay.pd_aligned hlay.pt_aligned (by omega) (by omega)
  · rw [hpage _ (by omega) (by simp only [pageSize]; omega)]
    exact hblob i hi
  · rw [← hentry]
    refine readLE_congr fun x h1 h2 => hpage x ?_ ?_
    · simp only [apEntryPtrAddr, apTrampolineAddr] at *
      omega
    · simp only [apEntryPtrAddr, apTrampolineAddr, pageSize] at *
      omega

/-- The sample machine after `hal_smp_boot_ap`, with a trampoline of two bytes. -/
def smpBoot : Boot Unit :=
  { sampleBoot with
    ram := halSmpBootAp 0x80000 0x81000 [0xFA, 0xF4] 0x25000 (bootTables fun _ => 0) }

theorem sampleLayout_smp : SmpLayout sampleLayout 0x80000 0x81000 [0xFA, 0xF4] where
  tables_low t := by
    have := tableIndex_lt t
    simp only [sampleLayout, pageSize, bootPml4PhysBase]
    omega
  text_low := by decide
  pd_aligned := by decide
  pt_aligned := by decide
  pd_low := by decide
  pt_low := by decide
  distinct := by decide
  pd_own t := by
    have := tableIndex_lt t
    simp only [sampleLayout, pageSize]
    omega
  pt_own t := by
    have := tableIndex_lt t
    simp only [sampleLayout, pageSize]
    omega
  pd_not_text := sampleLayout_not_text (by decide)
  pt_not_text := sampleLayout_not_text (by decide)
  blob_short := by decide

set_option maxRecDepth 100000 in
/-- After two ticks the boot tables lead to the local APIC, and to nothing at 1GB. -/
theorem second_core_view_two_ticks :
    ∃ tr k, RawRun sampleLayout silentHal smpBoot tr k ∧ OwnBuffers sampleLayout silentHal tr ∧
      tr.length = 2 ∧ walk k.memory.ram bootPml4PhysBase 0xFEE00020 = some ⟨lapicMmioPhys, false, true⟩ ∧
      walk k.memory.ram bootPml4PhysBase 0x40000000 = none ∧
      read64 k.memory.ram apEntryPtrAddr = 0x25000 := by
  have hrun : (runTrace (rawStep sampleLayout silentHal) [] (bootState sampleLayout smpBoot)
      [.tick, .tick]).map (fun r => (r.1.length, r.1.all (storesNothing silentHal))) =
      some (2, true) := by
    decide +kernel
  obtain ⟨tr, k, htrace, hview⟩ := exists_trace_of_runTrace hrun
  simp only [Prod.mk.injEq] at hview
  have hown : OwnBuffers sampleLayout silentHal tr := ownBuffers_of_storesNothing hview.2
  obtain ⟨hwalk, _, hentry, _⟩ := second_core_view sampleLayout_smp rfl htrace hown
  refine ⟨tr, k, htrace, hown, hview.1, ?_, ?_, hentry⟩
  · rw [hwalk]
    decide
  · rw [hwalk]
    decide

end Vajra
