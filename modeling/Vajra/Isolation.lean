import Vajra.SpawnMemory

/-!
# Isolation of address spaces

The memory invariant holds in every state of every run, for the programs that the run
itself says were loaded (`programOf`).  It gives the exact ring-3 view of every live actor
and the separation of any two of them.

The one thing two live actors share is `.user_text`, and `hal_address_space_create` maps
it writable.  So writable memory is unshared exactly when there is no `.user_text` or no
second live actor (`noSharedWritable_iff`).
-/

namespace Vajra

open ByteMemory TransitionTrace

variable {D : Type}

/-- The program a `SYS_SPAWN_PROGRAM` places in memory: its physical base and size. -/
def stagedProgram (t : Record D) : Option (Nat × Nat) :=
  match t.event with
  | .syscall call =>
      if Syscall.decode call.num = some .spawnProgram then
        (loaderStage t.pre (cInt call.a1)).2.map fun r => (r.1, r.2.pages * 4096)
      else none
  | _ => none

/-- The program the present occupant of a slot was spawned with, none if it was not
spawned by `actor_spawn_program`. -/
def programOf (L : Layout) : List (Record D) → Slot → Option (Nat × Nat)
  | [], _ => none
  | t :: tr, s => if spawnedInto L t = some s then stagedProgram t else programOf L tr s

theorem programOf_none {L : Layout} {tr : List (Record D)} {t : Record D}
    (h : spawnedInto L t = none) : programOf L (t :: tr) = programOf L tr := by
  funext s
  simp [programOf, h]

theorem programOf_some {L : Layout} {tr : List (Record D)} {t : Record D} {i : Slot}
    (h : spawnedInto L t = some i) :
    programOf L (t :: tr) = Function.update (programOf L tr) i (stagedProgram t) := by
  funext s
  by_cases hs : s = i
  · subst hs
    simp [programOf, h]
  · simp [programOf, h, hs, Ne.symm hs]

/-- `actor_spawn_child` keeps the memory invariant. -/
theorem actorSpawnChild_mem {L : Layout} {prog : Slot → Option (Nat × Nat)} {k : Kernel D}
    (h : MemInv L prog k) {c : Slot} (hlive : k.Live c) (entry : Nat) :
    (childTaken L k c entry = none ∧ MemInv L prog (actorSpawnChild L k c entry).1) ∨
    ∃ i, childTaken L k c entry = some i ∧
      MemInv L (Function.update prog i none) (actorSpawnChild L k c entry).1 ∧
      ZeroStack (actorSpawnChild L k c entry).1 i := by
  unfold childTaken actorSpawnChild
  by_cases hmay : MaySpawn k c
  swap
  · exact Or.inl ⟨if_neg hmay, by simpa [hmay] using h⟩
  rw [if_pos hmay, if_neg (not_not.mpr hmay)]
  have hspawned := actorSpawn_mem h entry
  generalize actorSpawn L k entry = r at hspawned
  obtain ⟨k1, result⟩ := r
  rcases hspawned with ⟨hnone, hinv, _⟩ | ⟨i, hsome, hspawn⟩
  · cases hnone
    exact Or.inl ⟨rfl, hinv⟩
  · cases hsome
    have hne : c ≠ i := by
      rintro rfl
      exact hspawn.dead hlive
    exact Or.inr ⟨i, rfl, hspawn.inv.adoptChild hne, hspawn.zero.adoptChild hne⟩

/-- `loader_spawn_program` keeps the memory invariant. -/
theorem loaderSpawnProgram_mem {L : Layout} {prog : Slot → Option (Nat × Nat)} {k : Kernel D}
    (h : MemInv L prog k) {c : Slot} (hlive : k.Live c) (id : Int) :
    ((loaderSpawnProgram L k c id).2 = none ∧ MemInv L prog (loaderSpawnProgram L k c id).1) ∨
    ∃ i r, (loaderSpawnProgram L k c id).2 = some i ∧ (loaderStage k id).2 = some r ∧
      MemInv L (Function.update prog i (some (r.1, r.2.pages * 4096)))
        (loaderSpawnProgram L k c id).1 ∧
      ZeroStack (loaderSpawnProgram L k c id).1 i := by
  obtain ⟨hstage, hprogram⟩ := loaderStage_mem h id
  have hstaged := loaderStage_staged k id
  unfold loaderSpawnProgram
  generalize loaderStage k id = r at hstage hprogram hstaged
  obtain ⟨k1, result⟩ := r
  cases result with
  | none => exact Or.inl ⟨rfl, hstage⟩
  | some r =>
      obtain ⟨phys, image⟩ := r
      obtain ⟨hpages, hunshared⟩ := hprogram phys image rfl
      have hlive1 : k1.Live c := by
        rw [Kernel.Live, hstaged.actors]
        exact hlive
      dsimp only
      unfold actorSpawnProgramChild
      by_cases hmay : MaySpawn k1 c
      swap
      · rw [if_pos hmay]
        exact Or.inl ⟨rfl, hstage⟩
      rw [if_neg (not_not.mpr hmay)]
      have hspawned := actorSpawnProgram_mem hstage hpages hunshared image.entryOffset
      generalize actorSpawnProgram L k1 phys (image.pages * 4096) image.entryOffset = r at hspawned
      obtain ⟨k2, result⟩ := r
      rcases hspawned with ⟨hnone, hinv⟩ | ⟨i, hsome, hdead, hinv, hzero⟩
      · cases hnone
        exact Or.inl ⟨rfl, hinv⟩
      · cases hsome
        have hne : c ≠ i := by
          rintro rfl
          exact hdead hlive1
        exact Or.inr ⟨i, (phys, image), rfl, rfl, hinv.adoptChild hne, hzero.adoptChild hne⟩

/-- Rewriting a record without touching its address space or reviving it. -/
theorem MemInv.setActor {L : Layout} {prog : Slot → Option (Nat × Nat)} {k : Kernel D}
    (h : MemInv L prog k) {i : Slot} {a : Actor} (hstack : a.stackPage = (k.actors i).stackPage)
    (hroot : a.cr3 = (k.actors i).cr3) (hlive : a.state ≠ .dead → k.Live i) :
    MemInv L prog (k.setActor i a) := by
  refine h.frame (fun s hs => ?_) (fun s => ?_) rfl rfl (SameKernel.refl L _)
  · by_cases hsi : s = i
    · subst hsi
      exact hlive (by simpa [Kernel.Live] using hs)
    · simpa [Kernel.Live, hsi] using hs
  · by_cases hsi : s = i
    · subst hsi
      simpa using ⟨hstack, hroot⟩
    · simp [hsi]

/-- **Every step keeps the memory invariant.** -/
theorem Stepped.mem {L : Layout} {hal : Hal D} {k k' : Kernel D} {c : Slot} {e : Event D}
    {o : Outcome} {tr : List (Record D)} (hstep : Stepped L hal k c e k' o)
    (hcur : k.current = some c) (hlive : k.Live c) (h : MemInv L (programOf L tr) k) :
    MemInv L (programOf L (⟨k, e, o, k'⟩ :: tr)) k' := by
  -- A step without a spawn leaves the programs of all slots alone.
  have hquiet : takenSlot L k c e = none → MemInv L (programOf L tr) k' →
      MemInv L (programOf L (⟨k, e, o, k'⟩ :: tr)) k' := by
    intro hnone hinv
    rw [programOf_none (by simp [spawnedInto, hcur, hnone])]
    exact hinv
  cases hstep with
  | tick =>
      exact hquiet rfl (MemInv.scheduleNext (h.setActor rfl rfl (fun _ => hlive)))
  | yield hcall | exit hcall =>
      exact hquiet (takenSlot_of_call hcall (by simp) (by simp))
        (MemInv.scheduleNext (h.setActor rfl rfl (fun _ => hlive)))
  | @send _ call hcall =>
      refine hquiet (takenSlot_of_call hcall (by simp) (by simp)) ?_
      rcases actorSend_cases k c (cInt call.a1) call.a2 call.a3 with
        heq | ⟨d, _, _, hlived, _, heq⟩
      · rw [heq]
        exact h
      · rw [heq]
        exact h.setActor rfl rfl (fun _ => hlived)
  | receive out hcall =>
      have hnone : takenSlot L k c e = none := by
        rcases hcall with ⟨call, hcall, _⟩ | ⟨rfl, _⟩
        · exact takenSlot_of_call hcall (by simp) (by simp)
        · rfl
      refine hquiet hnone ?_
      rcases sysReceive_cases k c out with ⟨_, heq⟩ | ⟨_, heq⟩
      · rw [heq]
        exact MemInv.scheduleNext (h.setActor rfl rfl (fun _ => hlive))
      · rw [heq]
        have htaken : MemInv L (programOf L tr) (k.setActor c (dequeue (k.actors c))) :=
          h.setActor rfl rfl (fun _ => hlive)
        exact htaken.commitOut (by simpa [Kernel.Live, dequeue] using hlive) _
  | @grant _ call hcall =>
      refine hquiet (takenSlot_of_call hcall (by simp) (by simp)) ?_
      rcases actorDelegate_cases k c (cInt call.a1) (cInt call.a2) (cInt call.a3) with
        heq | ⟨d, _, _, heq⟩
      · rw [heq]
        exact h
      · rw [heq, actorAddCap_fst]
        exact h.setActor rfl rfl id
  | @spawn _ call hcall =>
      obtain ⟨rfl, hdecode⟩ := hcall
      have htaken : ∀ o k', spawnedInto L (⟨k, .syscall call, o, k'⟩ : Record D) =
          childTaken L k c call.a1.toNat := by
        intro o k'
        simp [spawnedInto, hcur, takenSlot, hdecode]
      rcases actorSpawnChild_mem h hlive call.a1.toNat with ⟨hnone, hinv⟩ | ⟨i, hsome, hinv, _⟩
      · rw [programOf_none ((htaken _ _).trans hnone)]
        exact hinv
      · rw [programOf_some ((htaken _ _).trans hsome)]
        simpa [stagedProgram, hdecode] using hinv
  | @spawnProgram _ call hcall hcap =>
      obtain ⟨rfl, hdecode⟩ := hcall
      have htaken : ∀ o k', spawnedInto L (⟨k, .syscall call, o, k'⟩ : Record D) =
          loaderTaken L k c (cInt call.a1) := by
        intro o k'
        simp [spawnedInto, hcur, takenSlot, hdecode, hcap]
      obtain ⟨hspawn, _⟩ := loaderSpawnProgram_spec L k hlive (cInt call.a1)
      rcases loaderSpawnProgram_mem h hlive (cInt call.a1) with
        ⟨hnone, hinv⟩ | ⟨i, r, hsome, hr, hinv, _⟩
      · rw [hnone] at hspawn
        generalize htk : loaderTaken L k c (cInt call.a1) = taken at hspawn
        cases hspawn with
        | refused =>
            rw [programOf_none ((htaken _ _).trans htk)]
            exact hinv
        | aborted i cr3 page entry _ _ hactors =>
            rw [programOf_some ((htaken _ _).trans htk)]
            refine hinv.congr_prog fun s hs => Function.update_of_ne ?_ _ _
            rintro rfl
            simp [Kernel.Live, hactors] at hs
      · rw [hsome] at hspawn
        generalize htk : loaderTaken L k c (cInt call.a1) = taken at hspawn
        cases hspawn with
        | spawned =>
            rw [programOf_some ((htaken _ _).trans htk)]
            simp only [stagedProgram, hdecode, if_true, hr, Option.map_some]
            exact hinv
  | @terminate _ call hcall =>
      refine hquiet (takenSlot_of_call hcall (by simp) (by simp)) ?_
      rcases actorTerminate_cases k c (cInt call.a1) with heq | ⟨t, _, _, _, heq⟩
      · rw [heq]
        exact h
      · rw [heq]
        exact h.killed t
  | @createName _ call hcall hcap =>
      refine hquiet (takenSlot_of_call hcall (by simp) (by simp)) ?_
      have hstore : ∀ st, MemInv L (programOf L tr) { k with store := st } := fun st =>
        h.frame (fun _ hs => hs) (fun _ => ⟨rfl, rfl⟩) rfl rfl (SameKernel.refl L _)
      rcases sysCreateName_cases k c (userBytes k c call.a1) with ⟨_, heq⟩ | ⟨_, heq⟩
      · rw [heq]
        exact hstore _
      · rw [heq]
        exact (hstore _).setActor rfl rfl id
  | programDenied hcall hcap =>
      refine hquiet ?_ h
      obtain ⟨rfl, hdecode⟩ := hcall
      simp [takenSlot, hdecode, hcap]
  | createDenied hcall => exact hquiet (takenSlot_of_call hcall (by simp) (by simp)) h
  | @quietCall _ call sys hcall hq hstep =>
      have hne : ∀ {loud : Syscall}, loud.quiet = false → sys ≠ loud :=
        Syscall.ne_of_quiet hq
      refine hquiet (takenSlot_of_call hcall (hne rfl) (hne rfl)) ?_
      refine h.frame (fun s hs => ?_) (fun s => ?_) hstep.pool hstep.memory
        (h.commitOut_sameKernel hlive _)
      · rw [Kernel.Live, hstep.actors] at hs
        exact hs
      · rw [hstep.actors]
        exact ⟨rfl, rfl⟩
  | unknown hdecode => exact hquiet (by simp [takenSlot, hdecode]) h
  | store va byte => exact hquiet rfl (h.commitOut hlive _)
  | device | fault =>
      exact hquiet rfl
        (h.frame (fun _ hs => hs) (fun _ => ⟨rfl, rfl⟩) rfl rfl (SameKernel.refl L _))

/-- `hal_net_init`'s buffers come out of the allocator. -/
theorem netBuffers_spec (L : Layout) (counts : List Int) {m : Memory} (h : AllocInv m) :
    AllocInv (counts.foldl (fun m n => (allocDmaPages m n).1) m) ∧
      SameKernel L m.ram (counts.foldl (fun m n => (allocDmaPages m n).1) m).ram := by
  induction counts generalizing m with
  | nil => exact ⟨h, SameKernel.refl L _⟩
  | cons n rest ih =>
      rw [List.foldl_cons]
      rcases allocDmaPages_spec n h with ⟨_, hsame⟩ | ⟨p, _, hhigh, _, hclaim⟩
      · rw [hsame]
        exact ih h
      · obtain ⟨hinv, hram⟩ := ih hclaim.inv
        refine ⟨hinv, SameKernel.trans (fun x hx => hclaim.ram x (Or.inl ?_)) hram⟩
        exact Nat.lt_of_lt_of_le hx.1 (Nat.le_trans (by decide) hhigh)

/-- `boot.asm` leaves its directory. -/
theorem bootPageDirectory_bootDir (ram : Mem) : BootDir (bootPageDirectory ram) := by
  intro i hi
  rw [tableEntry, bootPageDirectory, ptEntries, read64_writeArray hi]
  refine Nat.mod_eq_of_lt ?_
  unfold bootDirEntry
  split
  · simp only [pageSize2M]
    omega
  · decide

/-- Nothing has been spawned when the machine has been switched on. -/
theorem powerOn_mem (L : Layout) (b : Boot D) : MemInv L (fun _ => none) (powerOn b) := by
  obtain ⟨hinit, hram⟩ := memoryInit_spec (halGetMemoryMap b.memoryMap 32)
    (bootPageDirectory b.ram)
  obtain ⟨halloc, hkernel⟩ := netBuffers_spec L b.netBuffers hinit
  have hboot := bootPageDirectory_bootDir b.ram
  rw [← hram] at hboot
  have hdead : ∀ s, ¬ (powerOn b).Live s := fun s => not_not.mpr rfl
  refine ⟨halloc, hkernel.bootDir hboot, ?_, ?_, ?_, ?_, ?_⟩
  · intro s p hp
    cases hp
  · intro s t p hp
    cases hp
  · exact fun s hs => absurd hs (hdead s)
  · exact fun s hs => absurd hs (hdead s)
  · exact fun s t hs => absurd hs (hdead s)

/-- Every call of `kernel_main` keeps the memory invariant. -/
theorem setupState_mem (L : Layout) (b : Boot D) (n : Nat) :
    MemInv L (fun _ => none) (setupState L b n) := by
  refine setupState_induction (P := MemInv L fun _ => none) (powerOn_mem L b) ?_ n
  intro k op _ hk
  rcases setupStep_cases L k op with ⟨entry, _, heq⟩ | ⟨st, heq⟩ | ⟨d, right, target, _, heq⟩ |
    ⟨s, quota, win, heq⟩
  · rw [heq]
    rcases actorSpawn_mem hk entry with ⟨_, hinv, _⟩ | ⟨i, _, hspawn⟩
    · exact hinv
    · have hnone : Function.update (fun _ : Slot => (none : Option (Nat × Nat))) i none =
          fun _ => none := Function.update_eq_self i _
      have hinv := hspawn.inv
      rw [hnone] at hinv
      exact hinv
  · rw [heq]
    exact hk.frame (fun _ hs => hs) (fun _ => ⟨rfl, rfl⟩) rfl rfl (SameKernel.refl L _)
  · rw [heq]
    exact hk.setActor rfl rfl id
  · rw [heq]
    exact hk.setActor rfl rfl id

/-- **The memory invariant holds in every state of every run.** -/
theorem run_mem {L : Layout} {hal : Hal D} {b : Boot D} {tr : List (Record D)} {k : Kernel D}
    (h : Run L hal b tr k) : MemInv L (programOf L tr) k := by
  refine h.history_invariant (fun tr k => MemInv L (programOf L tr) k) ?_ ?_
  · have hsetup := setupState_mem L b (kernelMainOps b).length
    rw [← kernelMain_eq_setupState] at hsetup
    rw [bootState, schedulerStart]
    generalize kernelMain L b = k at hsetup
    exact MemInv.scheduleNext hsetup
  · intro tr k e o k' hrun hinv hstep
    obtain ⟨c, _, hcur, hlive, hstepped⟩ := Run.stepped hrun hstep
    exact hstepped.mem hcur hlive hinv

/-- The isolation of the live actors: the exact ring-3 view of each, and that two of them
reach the same physical page through `.user_text` only. -/
structure Isolated (L : Layout) (prog : Slot → Option (Nat × Nat)) (k : Kernel D) : Prop where
  view : ∀ s, k.Live s → ∃ page, (k.actors s).stackPage = some page ∧ page % pageSize = 0 ∧
    ∀ va p, UserMapped k.memory.ram (k.actors s).cr3 va p ↔ Visible L page (prog s) va p
  apart : ∀ s t, k.Live s → k.Live t → s ≠ t → ∀ va va' p,
    UserMapped k.memory.ram (k.actors s).cr3 va p →
    UserMapped k.memory.ram (k.actors t).cr3 va' p → IsUserText L va ∧ IsUserText L va'

theorem MemInv.userMapped_iff {L : Layout} {prog : Slot → Option (Nat × Nat)} {k : Kernel D}
    (h : MemInv L prog k) {s : Slot} {page : Nat} (hs : k.Live s)
    (hspace : Space L (prog s) k s page) (va p : Nat) :
    UserMapped k.memory.ram (k.actors s).cr3 va p ↔ Visible L page (prog s) va p := by
  constructor
  · rintro ⟨leaf, hleaf, huser, rfl⟩
    exact ((h.user_leaf_iff hs hspace va leaf).mp ⟨hleaf, huser⟩).1
  · intro hvisible
    obtain ⟨hleaf, huser⟩ := (h.user_leaf_iff hs hspace va ⟨p, true, true⟩).mpr ⟨hvisible, rfl⟩
    exact ⟨_, hleaf, huser, rfl⟩

/-- Ring 3 may store to everything it may reach. -/
theorem MemInv.userWritable_iff {L : Layout} {prog : Slot → Option (Nat × Nat)} {k : Kernel D}
    (h : MemInv L prog k) {s : Slot} {page : Nat} (hs : k.Live s)
    (hspace : Space L (prog s) k s page) (va p : Nat) :
    UserWritable k.memory.ram (k.actors s).cr3 va p ↔ Visible L page (prog s) va p := by
  rw [← h.userMapped_iff hs hspace va p]
  constructor
  · rintro ⟨leaf, hleaf, huser, _, hp⟩
    exact ⟨leaf, hleaf, huser, hp⟩
  · rintro ⟨leaf, hleaf, huser, hp⟩
    have hfull := ((h.user_leaf_iff hs hspace va leaf).mp ⟨hleaf, huser⟩).2
    exact ⟨leaf, hleaf, huser, by rw [hfull], hp⟩

/-- Where the physical pages of an actor's own memory lie. -/
theorem MemInv.visible_pages {L : Layout} {prog : Slot → Option (Nat × Nat)} {k : Kernel D}
    (h : MemInv L prog k) {s : Slot} {page : Nat} (hs : k.Live s)
    (hspace : Space L (prog s) k s page) {va p : Nat} (hvisible : Visible L page (prog s) va p) :
    (IsUserText L va ∧ p < commonsEnd) ∨
    (p = page ∧ commonsEnd ≤ p ∧ p < privateWindowEnd) ∨
    ∃ phys size i, prog s = some (phys, size) ∧ i < size / pageSize ∧
      p = phys + i * pageSize ∧ privateWindowEnd ≤ p := by
  obtain ⟨_, hlow, hhigh⟩ := h.stack s page hspace.stack
  rcases hvisible.range fun phys size hprog => (h.pages s hs phys size hprog).placed with
    ⟨hva, htext, rfl⟩ | ⟨_, _, rfl⟩ | ⟨_, phys, size, hprog, hin, rfl⟩
  · refine Or.inl ⟨htext, ?_⟩
    simp only [pageSize, commonsEnd]
    omega
  · refine Or.inr (Or.inl ⟨rfl, hlow, ?_⟩)
    simp only [pageSize] at hhigh
    omega
  · have hpages := h.pages s hs phys size hprog
    refine Or.inr (Or.inr ⟨phys, size, (va - programVbase) / pageSize, hprog, ?_, rfl,
      Nat.le_trans hpages.high (Nat.le_add_right _ _)⟩)
    have hwhole := hpages.placed.whole
    simp only [pageSize, programVbase] at *
    omega

/-- **The memory invariant isolates.** -/
theorem MemInv.isolated {L : Layout} {prog : Slot → Option (Nat × Nat)} {k : Kernel D}
    (h : MemInv L prog k) : Isolated L prog k := by
  refine ⟨fun s hs => ?_, ?_⟩
  · obtain ⟨page, hspace⟩ := h.space s hs
    exact ⟨page, hspace.stack, (h.stack s page hspace.stack).1.page.aligned,
      h.userMapped_iff hs hspace⟩
  · intro s t hs ht hne va va' p hmapped hmapped'
    obtain ⟨page, hspace⟩ := h.space s hs
    obtain ⟨page', hspace'⟩ := h.space t ht
    rcases h.visible_pages hs hspace ((h.userMapped_iff hs hspace va p).mp hmapped) with
      ⟨htext, hp⟩ | ⟨rfl, hp, hp2⟩ | ⟨phys, size, i, hprog, hi, hpi, hp⟩
    · rcases h.visible_pages ht hspace' ((h.userMapped_iff ht hspace' va' p).mp hmapped') with
        ⟨htext', _⟩ | ⟨_, hp', _⟩ | ⟨_, _, _, _, _, _, hp'⟩
      · exact ⟨htext, htext'⟩
      · omega
      · simp only [commonsEnd, privateWindowEnd] at hp hp'
        omega
    · rcases h.visible_pages ht hspace' ((h.userMapped_iff ht hspace' va' p).mp hmapped') with
        ⟨_, hp'⟩ | ⟨rfl, _, _⟩ | ⟨_, _, _, _, _, _, hp'⟩
      · omega
      · exact absurd (h.owner s t p hspace.stack hspace'.stack) hne
      · omega
    · rcases h.visible_pages ht hspace' ((h.userMapped_iff ht hspace' va' p).mp hmapped') with
        ⟨_, hp'⟩ | ⟨_, _, hp'⟩ | ⟨phys', size', j, hprog', hj, hpj, _⟩
      · simp only [commonsEnd, privateWindowEnd] at hp hp'
        omega
      · omega
      · exact absurd (hpi.symm.trans hpj)
          (h.apart s t hs ht hne phys size phys' size' hprog hprog' i hi j hj)

/-- **Exact user view and physical isolation**, during the setup and in every state of
every run. -/
theorem address_spaces_isolated (L : Layout) (hal : Hal D) (b : Boot D) :
    (∀ n, Isolated L (fun _ => none) (setupState L b n)) ∧
    ∀ tr k, Run L hal b tr k → Isolated L (programOf L tr) k :=
  ⟨fun n => (setupState_mem L b n).isolated, fun _ _ hrun => (run_mem hrun).isolated⟩

/-- A machine with memory above the private window and a program of one byte. -/
def programBoot : Boot Unit :=
  { sampleBoot with
    memoryMap := some [⟨0x100000, 0x200000, 1⟩]
    helloBlob := [0x56, 0x41, 0x4A, 0x52, 0, 0, 0, 0, 1, 0, 0, 0, 0xF4] }

set_option maxRecDepth 100000 in
/-- The program loader of `kernel_main` starts its program in slot 15. -/
theorem address_spaces_isolated_program :
    ∃ tr k, Run sampleLayout silentHal programBoot tr k ∧ k.Live 15 ∧
      programOf sampleLayout tr 15 = some (0x200000, 0x1000) ∧
      Isolated sampleLayout (programOf sampleLayout tr) k := by
  have hrun : (runTrace (step sampleLayout silentHal) [] (bootState sampleLayout programBoot)
      (List.replicate 11 .tick ++ [sampleCall 17 2 0 0])).map
      (fun r => (decide (r.2.Live 15), programOf sampleLayout r.1 15)) =
      some (true, some (0x200000, 0x1000)) := by
    decide +kernel
  obtain ⟨tr, k, htrace, hview⟩ := exists_trace_of_runTrace hrun
  simp only [Prod.mk.injEq, decide_eq_true_eq] at hview
  exact ⟨tr, k, htrace, hview.1, hview.2,
    (address_spaces_isolated sampleLayout silentHal programBoot).2 tr k htrace⟩

/-- No physical page that one live actor can store to can be reached by another. -/
def NoSharedWritable (k : Kernel D) : Prop :=
  ∀ i j, k.Live i → k.Live j → i ≠ j → ∀ va va' p,
    UserWritable k.memory.ram (k.actors i).cr3 va p →
    ¬ UserMapped k.memory.ram (k.actors j).cr3 va' p

/-- Writable memory is unshared exactly when there is no `.user_text` or no second live
actor. -/
theorem MemInv.noSharedWritable_iff {L : Layout} {prog : Slot → Option (Nat × Nat)}
    {k : Kernel D} (h : MemInv L prog k) :
    NoSharedWritable k ↔
      L.userTextEnd ≤ L.userTextStart ∨ ∀ i j, k.Live i → k.Live j → i = j := by
  constructor
  · intro hunshared
    by_contra hneither
    push Not at hneither
    obtain ⟨htext, i, j, hi, hj, hne⟩ := hneither
    obtain ⟨page, hspace⟩ := h.space i hi
    obtain ⟨page', hspace'⟩ := h.space j hj
    have hin : IsUserText L L.userTextStart := ⟨Nat.le_refl _, htext⟩
    exact hunshared i j hi hj hne L.userTextStart L.userTextStart _
      ((h.userWritable_iff hi hspace _ _).mpr (.text hin))
      ((h.userMapped_iff hj hspace' _ _).mpr (.text hin))
  · intro hcond i j hi hj hne va va' p hwritable hmapped
    obtain ⟨page, hspace⟩ := h.space i hi
    have hmapped' := (h.userMapped_iff hi hspace va p).mpr
      ((h.userWritable_iff hi hspace va p).mp hwritable)
    have htext := (h.isolated.apart i j hi hj hne va va' p hmapped' hmapped).1
    rcases hcond with hempty | hsingle
    · simp only [IsUserText] at htext
      omega
    · exact hne (hsingle i j hi hj)

/-- **When no writable memory is shared.**  During the setup and in every state of every
run: exactly if `.user_text` is empty or at most one actor is alive. -/
theorem no_shared_writable_iff (L : Layout) (hal : Hal D) (b : Boot D) :
    (∀ n, NoSharedWritable (setupState L b n) ↔
      L.userTextEnd ≤ L.userTextStart ∨
        ∀ i j, (setupState L b n).Live i → (setupState L b n).Live j → i = j) ∧
    ∀ tr k, Run L hal b tr k →
      (NoSharedWritable k ↔
        L.userTextEnd ≤ L.userTextStart ∨ ∀ i j, k.Live i → k.Live j → i = j) :=
  ⟨fun n => (setupState_mem L b n).noSharedWritable_iff,
    fun _ _ hrun => (run_mem hrun).noSharedWritable_iff⟩

set_option maxRecDepth 100000 in
/-- Nothing is shared while the first actor of `kernel_main` is the only one. -/
theorem no_shared_writable_first_actor :
    (setupState sampleLayout sampleBoot 1).Live 0 ∧
      NoSharedWritable (setupState sampleLayout sampleBoot 1) := by
  have hfirst : (setupState sampleLayout sampleBoot 1).Live 0 ∧
      ∀ s, (setupState sampleLayout sampleBoot 1).Live s → s = 0 := by
    decide +kernel
  refine ⟨hfirst.1, ((no_shared_writable_iff sampleLayout silentHal sampleBoot).1 1).mpr ?_⟩
  exact Or.inr fun i j hi hj => (hfirst.2 i hi).trans (hfirst.2 j hj).symm

set_option maxRecDepth 100000 in
/-- The sample machine shares its `.user_text` writable as soon as it runs. -/
theorem user_text_shared_at_boot : ¬ NoSharedWritable (bootState sampleLayout sampleBoot) := by
  have hinv : MemInv sampleLayout (programOf sampleLayout []) (bootState sampleLayout sampleBoot) :=
    @run_mem Unit sampleLayout silentHal sampleBoot [] _ Trace.nil
  rw [hinv.noSharedWritable_iff]
  rintro (hempty | hsingle)
  · revert hempty
    decide
  · have hlive : (bootState sampleLayout sampleBoot).Live 0 ∧
        (bootState sampleLayout sampleBoot).Live 1 := by
      decide +kernel
    exact absurd (hsingle 0 1 hlive.1 hlive.2) (by decide)

end Vajra
