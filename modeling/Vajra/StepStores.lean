import Vajra.OutPointers

/-!
# Where a step stores

`Stepped.stores` says once what each event of the machine may do to physical memory: it stores to the
actors' page tables, to pages that were not taken before it, and where ring 3 of the actor it ran for
may store.  The frame properties of memory follow from it.
-/

namespace Vajra

open ByteMemory TransitionTrace

variable {D : Type} {L : Layout} {prog : Slot → Option (Nat × Nat)} {k : Kernel D}

/-- A byte of an actor's page table. -/
def InTables (L : Layout) (x : Nat) : Prop := ∃ t, L.table t ≤ x ∧ x < L.table t + pageSize

/-- A byte of a page that has not been handed out. -/
def InFreshPage (m : Memory) (x : Nat) : Prop :=
  ∃ q, IsPage q ∧ ¬ m.Taken q ∧ q ≤ x ∧ x < q + pageSize

/-- A byte that ring 3 of actor `c` reaches. -/
def InReach (k : Kernel D) (c : Slot) (x : Nat) : Prop :=
  ∃ va p, UserMapped k.memory.ram (k.actors c).cr3 va p ∧ x = p + va % pageSize

/-- From `m` to `m'` pages have been handed out, and those and page tables have been stored to. -/
structure Grows (L : Layout) (m m' : Memory) : Prop where
  stores : ∀ x, m'.ram x = m.ram x ∨ InTables L x ∨ InFreshPage m x
  kept : ∀ q, m.Taken q → m'.Taken q

theorem Grows.same {m m' : Memory} (hram : m'.ram = m.ram) (hkept : ∀ q, m.Taken q → m'.Taken q) :
    Grows L m m' :=
  ⟨fun x => .inl (congrFun hram x), hkept⟩

theorem Grows.refl (L : Layout) (m : Memory) : Grows L m m := .same rfl fun _ hq => hq

/-- A page that is fresh later was fresh before. -/
theorem Grows.trans {m m' m'' : Memory} (h : Grows L m m') (h' : Grows L m' m'') : Grows L m m'' := by
  refine ⟨fun x => ?_, fun q hq => h'.kept q (h.kept q hq)⟩
  rcases h'.stores x with hsame | htable | ⟨q, hq, hfresh, hx⟩
  · rw [hsame]
    exact h.stores x
  · exact .inr (.inl htable)
  · exact .inr (.inr ⟨q, hq, fun htaken => hfresh (h.kept q htaken), hx⟩)

theorem Allocated.grows {m m' : Memory} {p : Nat} (h : Allocated m m' p) : Grows L m m' := by
  refine ⟨fun x => ?_, h.kept⟩
  by_cases hin : p ≤ x ∧ x < p + pageSize
  · exact .inr (.inr ⟨p, h.taken.page, h.fresh, hin⟩)
  · refine .inl ?_
    rw [h.ram]
    exact zeroRange_outside (by omega)

/-- Stores to some of the tables. -/
theorem grows_of_apart {ts : List TableId} {m : Memory} {ram : Mem}
    (h : ∀ x, Apart L ts x → ram x = m.ram x) : Grows L m { m with ram := ram } := by
  refine ⟨fun x => ?_, fun q hq => ⟨hq.page, hq.used, hq.notFree⟩⟩
  by_cases hin : InTables L x
  · exact .inr (.inl hin)
  · refine .inl (h x fun t _ => ?_)
    have hout := not_exists.mp hin t
    omega

/-- The claimed pages are filled from the first on. -/
theorem Claimed.grows {m m' : Memory} {start count : Nat} (h : Claimed m m' start count)
    {writes : List (Nat × UInt8)}
    (hwrites : ∀ b ∈ writes, start ≤ b.1 ∧ b.1 < start + count * pageSize) :
    Grows L m { m' with ram := writeBytes m'.ram writes } := by
  refine ⟨fun x => ?_, fun q hq => ?_⟩
  · by_cases hin : start ≤ x ∧ x < start + count * pageSize
    · have hlt : (x - start) / pageSize < count := by
        simp only [pageSize] at *
        omega
      refine .inr (.inr ⟨_, (h.taken _ hlt).page, h.fresh _ hlt, ?_⟩)
      simp only [pageSize] at *
      omega
    · refine .inl ?_
      dsimp only
      rw [writeBytes_outside, h.ram x (by omega)]
      rintro b hb rfl
      exact hin (hwrites b hb)
  · have hq' := h.kept q hq
    exact ⟨hq'.page, hq'.used, hq'.notFree⟩

/-- `actor_spawn` zeroes the new stack page and builds the tables of the slot. -/
theorem actorSpawn_grows (h : MemInv L prog k) (entry : Nat) :
    Grows L k.memory (actorSpawn L k entry).1.memory := by
  unfold actorSpawn
  cases hfree : freeSlot k with
  | none => exact Grows.refl L _
  | some i =>
      dsimp only
      rcases allocPage_spec h.alloc with ⟨hnone, n, heq, hinv⟩ | ⟨p, hsome, halloc⟩
      · rw [show allocPage k.memory = ((allocPage k.memory).1, none) from Prod.ext rfl hnone]
        dsimp only
        rw [heq]
        exact .same rfl fun q hq => ⟨hq.page, hq.used, hq.notFree⟩
      generalize hm : (allocPage k.memory).1 = m at halloc
      rw [show allocPage k.memory = (m, some p) from Prod.ext hm hsome]
      dsimp only
      have hpage := halloc.taken.page
      have hsame : SameKernel L k.memory.ram m.ram := by
        rw [halloc.ram]
        exact halZeroPage_sameKernel L _ hpage
      have hboot := (h.grown halloc.inv halloc.kept hsame).boot
      rcases halAddressSpaceCreate_spec L k.pool i hboot hpage.aligned hpage.cap with
        heq | ⟨ram, heq, _, _, _, _, hapart⟩
      · -- The page goes straight back.
        rw [heq]
        obtain ⟨_, hback⟩ := freePage_spec halloc.inv halloc.taken
        have hgrows : Grows L k.memory m := halloc.grows
        refine ⟨fun x => ?_, fun q hq => hback q ?_ (halloc.kept q hq)⟩
        · dsimp only
          rw [freePage_ram]
          exact hgrows.stores x
        · rintro rfl
          exact halloc.fresh hq
      · rw [heq]
        exact Grows.trans halloc.grows (grows_of_apart hapart)

/-- `actor_spawn_program` stores, beyond that, in its page directory and in a table of the pool. -/
theorem actorSpawnProgram_grows (h : MemInv L prog k) {phys size : Nat}
    (hpages : ProgramPages k.memory phys size) (off : Nat) :
    Grows L k.memory (actorSpawnProgram L k phys size off).1.memory := by
  have hspawned := actorSpawn_mem h (programVbase + off)
  have hgrows := actorSpawn_grows h (programVbase + off)
  unfold actorSpawnProgram
  generalize actorSpawn L k (programVbase + off) = r at hspawned hgrows
  obtain ⟨k1, result⟩ := r
  rcases hspawned with ⟨hnone, _, _⟩ | ⟨i, hsome, hspawn⟩
  · cases hnone
    exact hgrows
  cases hsome
  dsimp only at hgrows ⊢
  obtain ⟨p, hspace⟩ := hspawn.inv.space i ((hspawn.live i).mpr (Or.inr rfl))
  rcases halAddressSpaceMapProgram_spec L k1.pool i hspace.built hpages.placed.base
      hpages.placed.whole hpages.placed.cap with
    (heq | heq) | ⟨ram, index, _, heq, _, _, _, hapart⟩
  · rw [heq]
    exact hgrows
  · rw [heq]
    exact hgrows
  · rw [heq]
    exact hgrows.trans (grows_of_apart hapart)

/-- Staging a program fills its new pages. -/
theorem loaderStage_grows (h : MemInv L prog k) (id : Int) :
    Grows L k.memory (loaderStage k id).1.memory := by
  unfold loaderStage
  split
  · exact Grows.refl L _
  rename_i st bytes hread
  dsimp only
  cases himage : parseProgram bytes with
  | none => exact Grows.refl L _
  | some image =>
      obtain ⟨hpos, hmax⟩ := parseProgram_bounds himage
      obtain ⟨_, _, hfits⟩ := ProgramImage.pages_spec hpos hmax
      dsimp only
      rcases allocDmaPages_spec image.pages h.alloc with ⟨hnone, hsame⟩ | ⟨p, hsome, _, _, hclaim⟩
      · rw [show allocDmaPages k.memory image.pages = (k.memory, none) from Prod.ext hsame hnone]
        exact Grows.refl L _
      generalize hm : (allocDmaPages k.memory image.pages).1 = m at hclaim
      rw [show allocDmaPages k.memory image.pages = (m, some p) from Prod.ext hm hsome]
      dsimp only
      have hcount : (image.pages : Int).toNat = image.pages := Int.toNat_natCast _
      rw [hcount] at hclaim
      refine hclaim.grows fun b hb => ?_
      obtain ⟨byte, hbyte, rfl⟩ := List.mem_map.mp hb
      have hlt := (List.mem_zipIdx hbyte).2.1
      simp only [pageSize]
      omega

theorem actorSpawnChild_grows (h : MemInv L prog k) (c : Slot) (entry : Nat) :
    Grows L k.memory (actorSpawnChild L k c entry).1.memory := by
  have hgrows := actorSpawn_grows h entry
  unfold actorSpawnChild
  split
  · exact Grows.refl L _
  generalize actorSpawn L k entry = r at hgrows
  obtain ⟨k1, result⟩ := r
  cases result with
  | none => exact hgrows
  | some i =>
      dsimp only
      rw [(adoptChild_memory k1 c i).1]
      exact hgrows

theorem loaderSpawnProgram_grows (h : MemInv L prog k) (c : Slot) (id : Int) :
    Grows L k.memory (loaderSpawnProgram L k c id).1.memory := by
  obtain ⟨hstage, hprogram⟩ := loaderStage_mem h id
  have hgrows := loaderStage_grows h id
  unfold loaderSpawnProgram
  generalize loaderStage k id = r at hstage hprogram hgrows
  obtain ⟨k1, result⟩ := r
  cases result with
  | none => exact hgrows
  | some r =>
      obtain ⟨phys, image⟩ := r
      have hmore := actorSpawnProgram_grows hstage (hprogram phys image rfl).1 image.entryOffset
      dsimp only at hgrows hmore ⊢
      unfold actorSpawnProgramChild
      split
      · exact hgrows
      generalize actorSpawnProgram L k1 phys (image.pages * 4096) image.entryOffset = r at hmore
      obtain ⟨k2, result⟩ := r
      cases result with
      | none => exact hgrows.trans hmore
      | some i =>
          dsimp only
          rw [(adoptChild_memory k2 c i).1]
          exact hgrows.trans hmore

/-- Reaping and switching store nothing. -/
theorem scheduleNext_ram (k : Kernel D) : (scheduleNext k).memory.ram = k.memory.ram := by
  have hreap : (reapDeadActors k).memory.ram = k.memory.ram := by
    obtain ⟨fl, hfl⟩ := (reapDeadActors_reaped k).memory
    rw [hfl]
  rcases scheduleNext_cases k with ⟨heq, _⟩ | ⟨next, a, _, _, heq⟩
  · rw [heq]
    exact hreap
  · rw [heq]
    exact hreap

theorem pokeUser_stores (k : Kernel D) (c : Slot) (va : Nat) (b : UInt8) (x : Nat) :
    pokeUser k.memory.ram (k.actors c).cr3 va b x = k.memory.ram x ∨ InReach k c x := by
  rw [pokeUser]
  cases hwalk : walk k.memory.ram (k.actors c).cr3 va with
  | none => exact .inl rfl
  | some leaf =>
      dsimp only
      split
      swap
      · exact .inl rfl
      rename_i hperm
      by_cases hx : x = leaf.page + va % pageSize
      · exact .inr ⟨va, leaf.page, ⟨leaf, hwalk, hperm.1, rfl⟩, hx⟩
      · exact .inl (Function.update_of_ne hx _ _)

/-- The bytes of a call's result go where ring 3 of the caller may store. -/
theorem MemInv.commitOut_stores (h : MemInv L prog k) {c : Slot} (hc : k.Live c)
    (out : List (Nat × UInt8)) (x : Nat) :
    (Vajra.commitOut k c out).memory.ram x = k.memory.ram x ∨ InReach k c x := by
  induction out generalizing k with
  | nil => exact .inl rfl
  | cons b rest ih =>
      have hinv := h.withRam (h.pokeUser hc b.1 b.2)
      have hrest := ih hinv hc
      generalize hram : Vajra.pokeUser k.memory.ram (k.actors c).cr3 b.1 b.2 = ram at hinv hrest
      have hview : ∀ va p, UserMapped ram (k.actors c).cr3 va p →
          UserMapped k.memory.ram (k.actors c).cr3 va p := by
        intro va p hp
        obtain ⟨page, hspace⟩ := h.space c hc
        obtain ⟨page', hspace'⟩ := hinv.space c hc
        have hpage : page' = page := Option.some.inj (hspace'.stack.symm.trans hspace.stack)
        subst hpage
        exact (h.userMapped_iff hc hspace va p).mpr ((hinv.userMapped_iff hc hspace' va p).mp hp)
      have hcommit : Vajra.commitOut k c (b :: rest) =
          Vajra.commitOut { k with memory := { k.memory with ram := ram } } c rest := by
        subst hram
        rfl
      rw [hcommit]
      rcases hrest with hsame | ⟨va, p, hp, rfl⟩
      · rw [hsame]
        dsimp only
        subst hram
        exact pokeUser_stores k c b.1 b.2 x
      · exact .inr ⟨va, p, hview va p hp, rfl⟩

/-- **Where a step of the actor `c` stores.** -/
theorem Stepped.stores {hal : Hal D} {k' : Kernel D} {c : Slot} {e : Event D} {o : Outcome}
    (hstep : Stepped L hal k c e k' o) (hlive : k.Live c) (h : MemInv L prog k) (x : Nat) :
    k'.memory.ram x = k.memory.ram x ∨ InTables L x ∨ InFreshPage k.memory x ∨ InReach k c x := by
  have hgrows : ∀ {m : Memory}, Grows L k.memory m →
      m.ram x = k.memory.ram x ∨ InTables L x ∨ InFreshPage k.memory x ∨ InReach k c x := by
    intro m hm
    rcases hm.stores x with hsame | htable | hfresh
    · exact .inl hsame
    · exact .inr (.inl htable)
    · exact .inr (.inr (.inl hfresh))
  have hsched : ∀ k1 : Kernel D, k1.memory.ram = k.memory.ram →
      (scheduleNext k1).memory.ram x = k.memory.ram x := by
    intro k1 heq
    rw [scheduleNext_ram, heq]
  cases hstep with
  | tick | yield | exit => exact .inl (hsched _ rfl)
  | @send _ call =>
      rcases actorSend_cases k c (cInt call.a1) call.a2 call.a3 with heq | ⟨d, _, _, _, _, heq⟩
      · rw [heq]
        exact .inl rfl
      · rw [heq]
        exact .inl rfl
  | receive out =>
      rcases sysReceive_cases k c out with ⟨_, heq⟩ | ⟨_, heq⟩
      · rw [heq]
        exact .inl (hsched _ rfl)
      · rw [heq]
        have htaken : MemInv L prog (k.setActor c (dequeue (k.actors c))) :=
          h.setActor rfl rfl (fun _ => hlive)
        have hlive' : (k.setActor c (dequeue (k.actors c))).Live c := by
          simpa [Kernel.Live, dequeue] using hlive
        rcases htaken.commitOut_stores hlive' (messageBytes out
          ((k.actors c).mailbox (k.actors c).mailboxHead)) x with hsame | ⟨va, p, hp, rfl⟩
        · exact .inl hsame
        · refine .inr (.inr (.inr ⟨va, p, ?_, rfl⟩))
          simpa [dequeue] using hp
  | @grant _ call =>
      rcases actorDelegate_cases k c (cInt call.a1) (cInt call.a2) (cInt call.a3) with
        heq | ⟨d, _, _, heq⟩
      · rw [heq]
        exact .inl rfl
      · rw [heq, actorAddCap_fst]
        exact .inl rfl
  | spawn => exact hgrows (actorSpawnChild_grows h c _)
  | spawnProgram => exact hgrows (loaderSpawnProgram_grows h c _)
  | @terminate _ call =>
      rcases actorTerminate_cases k c (cInt call.a1) with heq | ⟨t, _, _, _, heq⟩
      · rw [heq]
        exact .inl rfl
      · rw [heq]
        exact .inl rfl
  | @createName _ call =>
      rcases sysCreateName_cases k c (userBytes k c call.a1) with ⟨_, heq⟩ | ⟨_, heq⟩
      · rw [heq]
        exact .inl rfl
      · rw [heq]
        exact .inl rfl
  | programDenied | createDenied | unknown | device | fault => exact .inl rfl
  | quietCall _ _ hquiet =>
      rw [hquiet.memory]
      exact (h.commitOut_stores hlive _ x).imp_right fun hr => .inr (.inr hr)
  | store va byte => exact (h.commitOut_stores hlive _ x).imp_right fun hr => .inr (.inr hr)

end Vajra
