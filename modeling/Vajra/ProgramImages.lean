import Vajra.AllocatorRuns
import Vajra.FreshOccupant
import Vajra.ReadYourWrites

/-!
# Program images (`core/loader.c`)

`ValidImage` says which contents of an object are a program, in terms of the three little-endian
fields of the header, and `parseProgram_iff` that the checks of `loader_spawn_program` accept
these and no others.

A program goes from the disk through the staging buffer into freshly zeroed pages above the
private window, and from there into the new actor's window by way of the page tables.  Everything
the spawn stores after the copy is below the end of the private window (`actorSpawnProgram_high`),
so what the new actor finds at `programVbase` is what was copied.
-/

namespace Vajra

open ByteMemory TransitionTrace

/-- The fields of `struct program_header`, little-endian. -/
def headerMagic (content : List UInt8) : Nat := readLE (fun i => content.getD i 0) 0 4
def headerEntry (content : List UInt8) : Nat := readLE (fun i => content.getD i 0) 4 4
def headerCodeSize (content : List UInt8) : Nat := readLE (fun i => content.getD i 0) 8 4

/-- The contents of an object that is a program. -/
structure ValidImage (content : List UInt8) : Prop where
  header : 12 ≤ content.length
  magic : headerMagic content = 0x524A4156
  nonempty : 0 < headerCodeSize content
  whole : headerCodeSize content ≤ content.length - 12
  entry : headerEntry content < headerCodeSize content

/-- What the loader takes from a valid image. -/
def imageOf (content : List UInt8) : ProgramImage :=
  ⟨headerEntry content, (content.drop programHeaderSize).take (headerCodeSize content)⟩

theorem ValidImage.code_length {content : List UInt8} (h : ValidImage content) :
    (imageOf content).code.length = headerCodeSize content := by
  have hwhole := h.whole
  simp only [imageOf, List.length_take, List.length_drop, programHeaderSize]
  omega

/-- The checks of `loader_spawn_program` on an object that fits its staging buffer. -/
theorem parseProgram_iff {content : List UInt8} (hsize : content.length ≤ objectMaxBytes)
    (image : ProgramImage) :
    parseProgram content = some image ↔ ValidImage content ∧ image = imageOf content := by
  have hmax : objectMaxBytes = 2048 := rfl
  have hparse : parseProgram content =
      if content.length < programHeaderSize then none
      else if headerMagic content ≠ programMagic then none
      else if headerCodeSize content = 0 ∨ programWindowMax < headerCodeSize content then none
      else if content.length < programHeaderSize + headerCodeSize content then none
      else if headerCodeSize content ≤ headerEntry content then none
      else some (imageOf content) := rfl
  rw [hparse]
  constructor
  · intro h
    split_ifs at h with hshort hmagic hcode hlong hentry
    cases h
    simp only [programHeaderSize] at hshort hlong
    refine ⟨⟨by omega, not_not.mp hmagic, by omega, by omega, by omega⟩, rfl⟩
  · rintro ⟨⟨hheader, hmagic, hnonempty, hwhole, hentry⟩, rfl⟩
    have hlarge : ¬ (headerCodeSize content = 0 ∨ programWindowMax < headerCodeSize content) := by
      simp only [programWindowMax]
      omega
    have hlong : ¬ content.length < programHeaderSize + headerCodeSize content := by
      simp only [programHeaderSize]
      omega
    have hshort : ¬ content.length < programHeaderSize := Nat.not_lt.mpr hheader
    have hprogram : headerMagic content = programMagic := hmagic
    rw [if_neg hshort, if_neg (not_not.mpr hprogram), if_neg hlarge, if_neg hlong,
      if_neg (Nat.not_le.mpr hentry)]

/-- A loop of byte stores from `p` on, read back. -/
theorem writeBytes_zipIdx (m : Mem) (p : Nat) (code : List UInt8) (n j : Nat) :
    writeBytes m ((code.zipIdx n).map fun b => (p + b.2, b.1)) (p + j) =
      if n ≤ j ∧ j < n + code.length then code.getD (j - n) 0 else m (p + j) := by
  induction code generalizing m n with
  | nil =>
      rw [if_neg (by simp)]
      rfl
  | cons b code ih =>
      have hstep : writeBytes m (((b :: code).zipIdx n).map fun b => (p + b.2, b.1)) =
          writeBytes (Function.update m (p + n) b)
            ((code.zipIdx (n + 1)).map fun b => (p + b.2, b.1)) := rfl
      rw [hstep, ih, List.length_cons]
      by_cases hfirst : j = n
      · subst hfirst
        rw [if_neg (by omega), if_pos (by omega), Function.update_self, Nat.sub_self]
        rfl
      · rw [Function.update_of_ne (by omega)]
        by_cases hlater : n + 1 ≤ j ∧ j < n + 1 + code.length
        · obtain ⟨i, rfl⟩ : ∃ i, j = n + 1 + i := ⟨j - (n + 1), by omega⟩
          have hindex : n + 1 + i - n = i + 1 := by omega
          rw [if_pos hlater, if_pos (by omega), hindex, Nat.add_sub_cancel_left]
          rfl
        · rw [if_neg hlater, if_neg (by omega)]

section

variable {D : Type} {L : Layout}

/-- The bytes a staged program has in physical memory: the code, and zeros up to the end of its
last page. -/
structure StagedBytes (ram : Mem) (phys : Nat) (image : ProgramImage) : Prop where
  code : ∀ j < image.code.length, ram (phys + j) = image.code.getD j 0
  zero : ∀ j, image.code.length ≤ j → j < image.pages * 4096 → ram (phys + j) = 0

/-- What `loader_spawn_program` has put into the pages it took. -/
theorem loaderStage_bytes {prog : Slot → Option (Nat × Nat)} {k k1 : Kernel D}
    (h : MemInv L prog k) {id : Int} {phys : Nat} {image : ProgramImage}
    (hstage : loaderStage k id = (k1, some (phys, image))) :
    StagedBytes k1.memory.ram phys image := by
  unfold loaderStage at hstage
  split at hstage
  · cases hstage
  dsimp only at hstage
  split at hstage
  · cases hstage
  rename_i image' _
  split at hstage
  · cases hstage
  rename_i m p hdma
  cases hstage
  have hzero : ∀ x, phys ≤ x → x < phys + image.pages * pageSize → m.ram x = 0 := by
    have hstart : privateWindowEnd % pageSize = 0 ∧ memBase ≤ privateWindowEnd := by decide
    rcases findAndClaimContig_handsOut h.alloc hstart (image.pages : Int) with
      ⟨hnone, -⟩ | ⟨p, hsome, -, hout⟩
    · rw [allocDmaPages] at hdma
      rw [hdma] at hnone
      cases hnone
    · rw [allocDmaPages] at hdma
      rw [hdma] at hsome hout
      cases hsome
      have hcount : (image.pages : Int).toNat = image.pages := Int.toNat_natCast _
      rw [hcount] at hout
      exact hout.zero
  constructor
  · intro j hj
    dsimp only
    rw [writeBytes_zipIdx, if_pos (by omega), Nat.sub_zero]
  · intro j hlow hhigh
    dsimp only
    rw [writeBytes_zipIdx, if_neg (by omega)]
    exact hzero _ (by omega) (by simp only [pageSize]; omega)

/-- What was staged passed the checks. -/
theorem loaderStage_parsed {k k1 : Kernel D} {id : Int} {phys : Nat} {image : ProgramImage}
    (hstage : loaderStage k id = (k1, some (phys, image))) :
    ∃ bytes, (storageRead k.store id objectMaxBytes).2 = some bytes ∧
      parseProgram bytes = some image := by
  unfold loaderStage at hstage
  split at hstage
  · cases hstage
  rename_i st bytes hread
  dsimp only at hstage
  split at hstage
  · cases hstage
  rename_i image' hparse
  split at hstage
  · cases hstage
  cases hstage
  exact ⟨bytes, by rw [hread], hparse⟩

/-- What `actor_spawn` stores is below the end of the private window: a stack page and page
tables. -/
theorem actorSpawn_high {prog : Slot → Option (Nat × Nat)} {k k' : Kernel D} (h : MemInv L prog k)
    {entry : Nat} {i : Slot} (hspawn : actorSpawn L k entry = (k', some i)) {x : Nat}
    (hx : privateWindowEnd ≤ x) : k'.memory.ram x = k.memory.ram x := by
  unfold actorSpawn at hspawn
  split at hspawn
  · cases hspawn
  rename_i j _
  split at hspawn
  · cases hspawn
  rename_i m p hpage
  have halloc : Allocated k.memory m p := by
    rcases allocPage_spec h.alloc with ⟨hnone, -⟩ | ⟨p, hsome, halloc⟩
    · rw [hpage] at hnone
      cases hnone
    · rw [hpage] at hsome halloc
      cases hsome
      exact halloc
  have hboot : BootDir m.ram := by
    have hsame : SameKernel L k.memory.ram m.ram := by
      rw [halloc.ram]
      exact halZeroPage_sameKernel L _ halloc.taken.page
    exact hsame.bootDir h.boot
  rcases halAddressSpaceCreate_spec L k.pool j hboot halloc.taken.page.aligned
      halloc.taken.page.cap with heq | ⟨ram, heq, hlow, hhigh, -, -, hapart⟩
  · rw [heq] at hspawn
    cases hspawn
  · rw [heq] at hspawn
    cases hspawn
    have htables : commonsEnd ≤ x := Nat.le_trans (by decide) hx
    have hzero : m.ram x = k.memory.ram x := by
      rw [halloc.ram]
      exact zeroRange_outside (Or.inr (Nat.le_trans hhigh hx))
    exact (hapart x (apart_of_high L _ htables)).trans hzero

/-- The window of the new actor is set up without a store to the program's pages. -/
theorem actorSpawnProgram_high {prog : Slot → Option (Nat × Nat)} {k k' : Kernel D}
    (h : MemInv L prog k) {phys size off : Nat} {i : Slot} (hplaced : Placed phys size)
    (hspawn : actorSpawnProgram L k phys size off = (k', some i)) :
    (∀ x, privateWindowEnd ≤ x → k'.memory.ram x = k.memory.ram x) ∧
      (k'.actors i).entry = programVbase + off := by
  have hmem := actorSpawn_mem h (programVbase + off)
  have hactors := actorSpawn_actors L k (programVbase + off)
  unfold actorSpawnProgram at hspawn
  split at hspawn
  · cases hspawn
  rename_i k1 j hk1
  rw [hk1] at hmem hactors
  rcases hmem with ⟨hnone, -⟩ | ⟨j', hsome, hspawned⟩
  · cases hnone
  cases hsome
  have hentry : (k1.actors j).entry = programVbase + off := by
    rcases hactors with ⟨hnone, -⟩ | ⟨j', cr3, page, hsome, -, hset⟩
    · cases hnone
    · cases hsome
      rw [hset, Function.update_self]
      rfl
  obtain ⟨p, hspace⟩ := hspawned.inv.space j ((hspawned.live j).mpr (Or.inr rfl))
  dsimp only at hspawn
  rcases halAddressSpaceMapProgram_spec L k1.pool j hspace.built hplaced.base hplaced.whole
      hplaced.cap with (heq | heq) | ⟨ram, index, -, heq, -, -, -, hapart⟩
  · rw [heq] at hspawn
    cases hspawn
  · rw [heq] at hspawn
    cases hspawn
  · rw [heq] at hspawn
    cases hspawn
    refine ⟨fun x hx => ?_, hentry⟩
    have htables : commonsEnd ≤ x := Nat.le_trans (by decide) hx
    exact (hapart x (apart_of_high L _ htables)).trans (actorSpawn_high h hk1 hx)

/-- What `actor_spawn_program_child` does when it succeeds. -/
theorem actorSpawnProgramChild_some {k k' : Kernel D} {c i : Slot} {phys size off : Nat}
    (hlive : k.Live c) (hspawn : actorSpawnProgramChild L k c phys size off = (k', some i)) :
    ∃ k1, actorSpawnProgram L k phys size off = (k1, some i) ∧ k1.Live i ∧ c ≠ i ∧
      k' = adoptChild k1 c i := by
  have hraw := actorSpawnProgram_raw L k phys size off
  unfold actorSpawnProgramChild at hspawn
  split at hspawn
  · cases hspawn
  split at hspawn
  · cases hspawn
  rename_i k1 j hk1
  cases hspawn
  rw [hk1] at hraw
  generalize (actorSpawn L k (programVbase + off)).2 = taken at hraw
  cases hraw with
  | spawned _ cr3 page entry hdead hset =>
      refine ⟨k1, hk1, ?_, ?_, rfl⟩
      · rw [Kernel.Live, hset, Function.update_self]
        exact fun h => by cases h
      · rintro rfl
        exact hlive hdead

/-- **A successful load**: the program was staged, the new actor's window maps its pages, and
its bytes are there. -/
theorem loaderSpawnProgram_loaded {prog : Slot → Option (Nat × Nat)} {k k' : Kernel D} {c i : Slot}
    {id : Int} (h : MemInv L prog k) (hlive : k.Live c)
    (hload : loaderSpawnProgram L k c id = (k', some i)) :
    ∃ k1 phys image, loaderStage k id = (k1, some (phys, image)) ∧
      StagedBytes k'.memory.ram phys image ∧
      MemInv L (Function.update prog i (some (phys, image.pages * 4096))) k' ∧ k'.Live i ∧
      (k'.actors i).entry = programVbase + image.entryOffset := by
  have hmem := loaderSpawnProgram_mem h hlive id
  have hstageActors := (loaderStage_staged k id).actors
  rw [hload] at hmem
  rcases hmem with ⟨hnone, -⟩ | ⟨i', r, hsome, hstaged, hinv, -⟩
  · cases hnone
  cases hsome
  obtain ⟨phys, image⟩ := r
  have hstage : loaderStage k id = ((loaderStage k id).1, some (phys, image)) :=
    Prod.ext rfl hstaged
  obtain ⟨hstageInv, hpages⟩ := loaderStage_mem h id
  obtain ⟨hprogram, -⟩ := hpages phys image hstaged
  have hbytes := loaderStage_bytes h hstage
  generalize (loaderStage k id).1 = k1 at hstage hstageInv hprogram hbytes hstageActors
  have hlive1 : k1.Live c := by
    rw [Kernel.Live, hstageActors]
    exact hlive
  rw [loaderSpawnProgram, hstage] at hload
  obtain ⟨k2, hspawn, hlive2, hne, rfl⟩ := actorSpawnProgramChild_some hlive1 hload
  obtain ⟨hhigh, hentry⟩ := actorSpawnProgram_high hstageInv hprogram.placed hspawn
  obtain ⟨hchild, -, -⟩ := adoptChild_actors k2 hne
  have hsame : ∀ j, (adoptChild k2 c i).memory.ram (phys + j) = k1.memory.ram (phys + j) := by
    intro j
    rw [(adoptChild_memory k2 c i).1]
    exact hhigh _ (Nat.le_trans hprogram.high (Nat.le_add_right _ _))
  refine ⟨k1, phys, image, hstage, ⟨fun j hj => ?_, fun j hlow hlt => ?_⟩, hinv, ?_, ?_⟩
  · rw [hsame]
    exact hbytes.code j hj
  · rw [hsame]
    exact hbytes.zero j hlow hlt
  · rw [Kernel.Live, hchild]
    exact hlive2
  · rw [hchild]
    exact hentry

/-- The program window of a live actor, as the processor walks it. -/
theorem MemInv.walk_window {prog : Slot → Option (Nat × Nat)} {k : Kernel D} {i : Slot}
    {phys size : Nat} (h : MemInv L prog k) (hlive : k.Live i) (hprog : prog i = some (phys, size))
    {j : Nat} (hj : j < programWindowMax) :
    walk k.memory.ram (k.actors i).cr3 (programVbase + j) =
      if j < size then some ⟨phys + j / pageSize * pageSize, true, true⟩ else none := by
  obtain ⟨page, hspace⟩ := h.space i hlive
  have hplaced := (h.pages i hlive phys size hprog).placed
  have hmapped := hspace.program
  rw [hprog] at hmapped
  have hwindow : (programVbase + j) / 2 ^ 21 = 128 := by
    simp only [programVbase, programWindowMax] at *
    omega
  have hgigabyte : programVbase + j < 2 ^ 30 := by
    simp only [programVbase, programWindowMax] at *
    omega
  rw [hspace.root, hspace.built.walk_eq, if_pos hgigabyte, hmapped.walkDir_some hplaced hwindow,
    Nat.add_sub_cancel_left]
  simp only [Nat.add_lt_add_iff_left]

/-- What the actor of slot `i` finds in its program window: the code of the object, zeros up to
the end of the last page, and nothing mapped behind it; and it starts inside the code. -/
structure LoadedImage (k : Kernel D) (i : Slot) (content : List UInt8) : Prop where
  code : ∀ j < headerCodeSize content,
    ∃ leaf, walk k.memory.ram (k.actors i).cr3 (programVbase + j) = some leaf ∧
      leaf.user = true ∧
      k.memory.ram (leaf.page + (programVbase + j) % pageSize) = content.getD (12 + j) 0
  zero : ∀ j, headerCodeSize content ≤ j → j < pageCount (headerCodeSize content) * pageSize →
    ∃ leaf, walk k.memory.ram (k.actors i).cr3 (programVbase + j) = some leaf ∧
      leaf.user = true ∧ k.memory.ram (leaf.page + (programVbase + j) % pageSize) = 0
  unmapped : ∀ j, pageCount (headerCodeSize content) * pageSize ≤ j → j < programWindowMax →
    walk k.memory.ram (k.actors i).cr3 (programVbase + j) = none
  entry : programVbase ≤ (k.actors i).entry ∧
    (k.actors i).entry < programVbase + headerCodeSize content

theorem StagedBytes.loadedImage {prog : Slot → Option (Nat × Nat)} {k : Kernel D} {i : Slot}
    {phys : Nat} {content : List UInt8} (hvalid : ValidImage content)
    (hsize : content.length ≤ objectMaxBytes)
    (hbytes : StagedBytes k.memory.ram phys (imageOf content)) (hinv : MemInv L prog k)
    (hlive : k.Live i) (hprog : prog i = some (phys, (imageOf content).pages * 4096))
    (hentry : (k.actors i).entry = programVbase + headerEntry content) :
    LoadedImage k i content := by
  have hmax : objectMaxBytes = 2048 := rfl
  have hwhole := hvalid.whole
  have hlength := hvalid.code_length
  have hpages : (imageOf content).pages = pageCount (headerCodeSize content) := by
    rw [ProgramImage.pages, hlength]
    rfl
  have hwindow : pageCount (headerCodeSize content) * 4096 ≤ programWindowMax := by
    simp only [pageCount, pageSize, programWindowMax]
    omega
  have hfits : headerCodeSize content ≤ pageCount (headerCodeSize content) * 4096 := by
    simp only [pageCount, pageSize]
    omega
  have hoffset : ∀ j, phys + j / pageSize * pageSize + (programVbase + j) % pageSize = phys + j := by
    intro j
    simp only [pageSize, programVbase]
    omega
  rw [hpages] at hprog
  constructor
  · intro j hj
    refine ⟨⟨phys + j / pageSize * pageSize, true, true⟩, ?_, rfl, ?_⟩
    · rw [hinv.walk_window hlive hprog (by omega), if_pos (by omega)]
    · dsimp only
      rw [hoffset, hbytes.code j (by omega)]
      simp [imageOf, List.getD_eq_getElem?_getD, programHeaderSize, hj]
  · intro j hlow hhigh
    have hmapped : j < pageCount (headerCodeSize content) * 4096 := hhigh
    refine ⟨⟨phys + j / pageSize * pageSize, true, true⟩, ?_, rfl, ?_⟩
    · rw [hinv.walk_window hlive hprog (Nat.lt_of_lt_of_le hmapped hwindow), if_pos hmapped]
    · dsimp only
      rw [hoffset, hbytes.zero j (by omega) (by rw [hpages]; exact hmapped)]
  · intro j hlow hhigh
    have hbehind : ¬ j < pageCount (headerCodeSize content) * 4096 := Nat.not_lt.mpr hlow
    rw [hinv.walk_window hlive hprog hhigh, if_neg hbehind]
  · have hinside := hvalid.entry
    rw [hentry]
    omega

/-- `loader_spawn_program` gets past its checks on the object `id`: `storage_read` delivered
bytes, and they were accepted. -/
def PassesValidation (k : Kernel D) (id : Int) : Prop :=
  ∃ bytes image, (storageRead k.store id objectMaxBytes).2 = some bytes ∧
    parseProgram bytes = some image

/-- The disk answers its next request. -/
def Disk.Answers (d : Disk) : Prop := d.outcome d.requests = .ok

/-- On a disk that answers, `storage_read` delivers the object. -/
theorem storageRead_contents {st : Store} {id : Int} (hinv : StoreInv st)
    (hreadable : st.Readable id) (hgood : st.disk.Answers)
    (hsize : (st.objects id.toNat).sizeBytes ≤ objectMaxBytes) :
    (storageRead st id objectMaxBytes).2 = some (st.contents id.toNat) := by
  have hanswer : st.disk.outcome st.disk.requests = .ok := hgood
  rw [storageRead_readable hreadable, if_pos hanswer, Nat.min_eq_left hsize]
  refine congrArg some (List.map_congr_left fun i hi => ?_)
  have hlt := List.mem_range.mp hi
  rw [Store.staged, if_pos (by omega), hreadable.1.lba hinv]

/-- **The loader accepts exactly the valid images and loads them faithfully**, in every state of
the machine whose disk answers. -/
theorem loader_accepts_and_loads {hal : Hal D} {b : Boot D} {k : Kernel D} (h : Reached L hal b k)
    {c : Slot} (hmode : k.mode = .running) (hcur : k.current = some c) {id : Int}
    (hreadable : k.store.Readable id) (hgood : k.store.disk.Answers)
    (hsize : (k.store.objects id.toNat).sizeBytes ≤ 2048) :
    (PassesValidation k id ↔ ValidImage (k.store.contents id.toNat)) ∧
      ∀ k' i, loaderSpawnProgram L k c id = (k', some i) →
        LoadedImage k' i (k.store.contents id.toNat) := by
  obtain ⟨prog, hinv⟩ := h.mem
  have hlive := h.current_live hmode hcur
  have hstore : StoreInv k.store := by
    cases h with
    | setup n => exact setupState_storeInv L b n
    | run hrun => exact run_storeInv hrun
  have hread := storageRead_contents hstore hreadable hgood hsize
  have hlength : (k.store.contents id.toNat).length ≤ objectMaxBytes := by
    rw [Store.contents, List.length_map, List.length_range]
    exact hsize
  refine ⟨⟨?_, ?_⟩, ?_⟩
  · rintro ⟨bytes, image, hbytes, hparse⟩
    rw [hread] at hbytes
    cases hbytes
    exact ((parseProgram_iff hlength image).mp hparse).1
  · intro hvalid
    exact ⟨_, _, hread, (parseProgram_iff hlength _).mpr ⟨hvalid, rfl⟩⟩
  · intro k' i hload
    obtain ⟨k1, phys, image, hstage, hbytes, hinv', hlive', hentry⟩ :=
      loaderSpawnProgram_loaded hinv hlive hload
    have hparse : parseProgram (k.store.contents id.toNat) = some image := by
      obtain ⟨bytes, hbytes, hparse⟩ := loaderStage_parsed hstage
      rw [hread] at hbytes
      cases hbytes
      exact hparse
    obtain ⟨hvalid, rfl⟩ := (parseProgram_iff hlength image).mp hparse
    exact hbytes.loadedImage hvalid hlength hinv' hlive' (Function.update_self _ _ _) hentry

end

set_option maxRecDepth 100000 in
/-- The program loader of `kernel_main` starts its one-byte program in slot 15. -/
theorem loader_loads_hello :
    ∃ tr k k', Run sampleLayout silentHal programBoot tr k ∧ k.mode = .running ∧
      k.current = some 12 ∧ k.store.Readable 2 ∧ k.store.disk.Answers ∧
      (k.store.objects 2).sizeBytes ≤ 2048 ∧ PassesValidation k 2 ∧
      loaderSpawnProgram sampleLayout k 12 2 = (k', some 15) ∧
      LoadedImage k' 15 (k.store.contents 2) := by
  have hrun : (runTrace (step sampleLayout silentHal) [] (bootState sampleLayout programBoot)
      (List.replicate 11 .tick)).map
      (fun r => ((r.2.mode, r.2.current, decide (r.2.store.Readable 2),
        r.2.store.disk.outcome r.2.store.disk.requests), (r.2.store.objects 2).sizeBytes,
        r.2.store.contents 2, (loaderSpawnProgram sampleLayout r.2 12 2).2)) =
      some ((.running, some 12, true, .ok), 13, programBoot.helloBlob, some 15) := by
    decide +kernel
  obtain ⟨tr, k, htrace, hview⟩ := exists_trace_of_runTrace hrun
  simp only [Prod.mk.injEq, decide_eq_true_eq] at hview
  obtain ⟨⟨hmode, hcur, hreadable, hgood⟩, hbytes, hcontents, hslot⟩ := hview
  have hsize : (k.store.objects 2).sizeBytes ≤ 2048 := by
    rw [hbytes]
    decide
  have hload : loaderSpawnProgram sampleLayout k 12 2 =
      ((loaderSpawnProgram sampleLayout k 12 2).1, some 15) := Prod.ext rfl hslot
  obtain ⟨haccepts, hloads⟩ := loader_accepts_and_loads (.run htrace) hmode hcur
    hreadable hgood hsize
  have hvalid : ValidImage (k.store.contents (2 : Int).toNat) := by
    have himage : k.store.contents (2 : Int).toNat = programBoot.helloBlob := hcontents
    rw [himage]
    exact ⟨by decide, by decide, by decide, by decide, by decide⟩
  exact ⟨tr, k, _, htrace, hmode, hcur, hreadable, hgood, hsize, haccepts.mpr hvalid, hload,
    hloads _ _ hload⟩

end Vajra
