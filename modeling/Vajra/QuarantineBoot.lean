import Vajra.QuarantineSteps
import Vajra.StackPages

/-!
# Where `kernel_main` puts its actors

`kernel_main` addresses its actors by slot numbers that it never checks: the `i`-th
`actor_spawn` is taken to have returned `i`.  It has, if it returned a slot at all
(`pipelineBoot_program`): every spawn takes the first dead slot, and after one that fails for
want of memory all later ones fail as well, since a page that lies outside the private window
goes back to the free list and comes out again (`actorSpawn_stuck`).

The capability tables at the end of the setup are those of the grants (`bootState_tables`).
-/

namespace Vajra

open EntryTables TransitionTrace

variable {D : Type} {L : Layout} {b : Boot D}

/-- The bump allocator fails only at the top of memory. -/
theorem bumpScan_exhausted {fuel : Nat} {m : Memory}
    (hfuel : m.memTop ≤ m.nextFreePage + fuel * pageSize) (h : (bumpScan fuel m).2 = none) :
    (bumpScan fuel m).1.memTop ≤ (bumpScan fuel m).1.nextFreePage := by
  induction fuel generalizing m with
  | zero => simpa [bumpScan] using hfuel
  | succ fuel ih =>
      unfold bumpScan at h ⊢
      by_cases hroom : m.nextFreePage < m.memTop
      · rw [if_pos hroom] at h ⊢
        by_cases hused : m.bitmap (pageIndex m.nextFreePage) = true
        · rw [if_pos hused] at h ⊢
          refine ih ?_ h
          dsimp only
          rw [Nat.succ_mul] at hfuel
          omega
        · rw [if_neg hused] at h
          cases h
      · rw [if_neg hroom]
        exact Nat.le_of_not_lt hroom

theorem bumpScan_top {fuel : Nat} {m : Memory} (h : m.memTop ≤ m.nextFreePage) :
    bumpScan fuel m = (m, none) := by
  cases fuel with
  | zero => rfl
  | succ fuel => rw [bumpScan, if_neg (Nat.not_lt.mpr h)]

/-- `alloc_page` goes on failing. -/
theorem allocPage_exhausted {m : Memory} (h : (allocPage m).2 = none) :
    (allocPage (allocPage m).1).2 = none := by
  have hlist : m.freeList = [] := by
    cases hlist : m.freeList with
    | nil => rfl
    | cons addr rest => simp [allocPage, hlist] at h
  have hscan : allocPage m = bumpScan ((m.memTop - m.nextFreePage) / pageSize + 1) m := by
    rw [allocPage, hlist]
  rw [hscan] at h ⊢
  have hfuel : m.memTop ≤ m.nextFreePage + ((m.memTop - m.nextFreePage) / pageSize + 1) * pageSize := by
    have hdiv := Nat.div_add_mod (m.memTop - m.nextFreePage) pageSize
    have hmod := Nat.mod_lt (m.memTop - m.nextFreePage) (show 0 < pageSize by decide)
    rw [Nat.succ_mul, Nat.mul_comm]
    omega
  have htop := bumpScan_exhausted hfuel h
  have hkept := bumpScan_freeList ((m.memTop - m.nextFreePage) / pageSize + 1) m
  generalize bumpScan ((m.memTop - m.nextFreePage) / pageSize + 1) m = r at htop hkept ⊢
  rw [allocPage, hkept, hlist]
  dsimp only
  rw [bumpScan_top htop]

/-- During the setup the free list holds no more than the page of the last failed spawn. -/
def Sparse (k : Kernel D) : Prop := k.memory.freeList.length ≤ 1

/-- What `actor_spawn` does when it has a slot: it gets no page, or gives it back because it
lies outside the private window, or makes an actor. -/
theorem actorSpawn_sparse_cases {k : Kernel D} {i : Slot} (hsparse : Sparse k)
    (hfree : freeSlot k = some i) (entry : Nat) :
    (∃ mem, allocPage k.memory = (mem, none) ∧
      actorSpawn L k entry = ({ k with memory := mem }, none)) ∨
    (∃ mem page, mem.freeList = [page] ∧
      (page < commonsEnd ∨ privateWindowEnd < (page + actorStackSize) % 2 ^ 64) ∧
      actorSpawn L k entry = ({ k with memory := mem }, none)) ∨
    ((actorSpawn L k entry).2 = some i ∧ (actorSpawn L k entry).1.memory.freeList = []) := by
  unfold actorSpawn
  rw [hfree]
  dsimp only
  cases halloc : allocPage k.memory with
  | mk mem answer =>
      cases answer with
      | none => exact Or.inl ⟨mem, rfl, rfl⟩
      | some page =>
          have hrest : mem.freeList = [] := by
            rcases allocPage_popped halloc with hcons | ⟨_, hnil⟩
            · rw [Sparse, hcons, List.length_cons] at hsparse
              exact List.eq_nil_of_length_eq_zero (by omega)
            · exact hnil
          right
          dsimp only
          rw [halAddressSpaceCreate_eq]
          by_cases hout : page < commonsEnd ∨ privateWindowEnd < (page + actorStackSize) % 2 ^ 64
          · rw [if_pos hout]
            refine Or.inl ⟨freePage { mem with ram := mem.ram } page, page, ?_, hout, rfl⟩
            rw [freePage_freeList, pushFree, hrest]
            rfl
          · rw [if_neg hout]
            exact Or.inr ⟨rfl, hrest⟩

theorem actorSpawn_sparse {k : Kernel D} (hsparse : Sparse k) (entry : Nat) :
    Sparse (actorSpawn L k entry).1 := by
  cases hfree : freeSlot k with
  | none =>
      rw [actorSpawn, hfree]
      exact hsparse
  | some i =>
      rcases actorSpawn_sparse_cases (L := L) hsparse hfree entry with
        ⟨mem, halloc, heq⟩ | ⟨mem, page, hlist, _, heq⟩ | ⟨_, hlist⟩
      · rw [heq, Sparse, allocPage_failed halloc]
        exact hsparse
      · rw [heq, Sparse, hlist]
        exact Nat.le_refl 1
      · rw [Sparse, hlist]
        exact Nat.zero_le 1

/-- **After a spawn that failed, every spawn fails.** -/
theorem actorSpawn_stuck {k : Kernel D} {entry : Nat} (hsparse : Sparse k)
    (h : (actorSpawn L k entry).2 = none) (entry' : Nat) :
    (actorSpawn L (actorSpawn L k entry).1 entry').2 = none := by
  cases hfree : freeSlot k with
  | none => simp [actorSpawn, hfree]
  | some i =>
      rcases actorSpawn_sparse_cases (L := L) hsparse hfree entry with
        ⟨mem, halloc, heq⟩ | ⟨mem, page, hlist, hout, heq⟩ | ⟨hsome, _⟩
      · have hagain := allocPage_exhausted (m := k.memory) (by rw [halloc])
        rw [halloc] at hagain
        have hfree' : freeSlot ({ k with memory := mem } : Kernel D) = some i := hfree
        rw [heq, actorSpawn, hfree']
        dsimp only at hagain ⊢
        generalize allocPage mem = r at hagain ⊢
        obtain ⟨mem', answer⟩ := r
        cases hagain
        rfl
      · have hfree' : freeSlot ({ k with memory := mem } : Kernel D) = some i := hfree
        rw [heq, actorSpawn, hfree']
        dsimp only
        rw [allocPage, hlist]
        dsimp only
        rw [halAddressSpaceCreate_eq, if_pos hout]
      · rw [h] at hsome
        cases hsome

/-- What `kernel_main` means to run in a slot. -/
def slotProgram (s : Slot) : Program := (demoActors[(s : Nat)]?.map DemoActor.program).getD .other

/-- After `n` spawns, of which the first `m` succeeded. -/
structure SlotsLoaded (L : Layout) (n m : Nat) (k : Kernel D) (program : Slot → Program) : Prop where
  le : m ≤ n
  live : ∀ s : Slot, k.Live s ↔ (s : Nat) < m
  program : ∀ s : Slot, program s = if (s : Nat) < m then slotProgram s else .other
  stuck : m = n ∨ ∀ entry, (actorSpawn L k entry).2 = none
  sparse : Sparse k

/-- The first dead slot comes behind the live ones. -/
theorem freeSlot_eq {k : Kernel D} {m : Nat} {i : Slot} (hlive : ∀ s : Slot, k.Live s ↔ (s : Nat) < m)
    (h : freeSlot k = some i) : (i : Nat) = m := by
  have hge : ¬ (i : Nat) < m := fun hlt => (hlive i).mpr hlt (freeSlot_dead h)
  by_contra hne
  obtain ⟨_, j, hj, hji, hbefore⟩ := List.find?_eq_some_iff_getElem.mp h
  rw [List.getElem_finRange] at hji
  have hmi : m < (i : Nat) := by omega
  have hji' : j = (i : Nat) := congrArg Fin.val hji
  have hdead := hbefore m (by omega)
  rw [List.getElem_finRange] at hdead
  have hstate : k.Live ⟨m, by omega⟩ := by simpa [Kernel.Live] using hdead
  exact absurd ((hlive _).mp hstate) (Nat.lt_irrefl m)

/-- One more spawn. -/
theorem SlotsLoaded.spawn {n m entry : Nat} {k k' : Kernel D} {program : Slot → Program} {a : DemoActor}
    {answer : Option Slot} (h : SlotsLoaded L n m k program) (ha : demoActors[n]? = some a)
    (hspawn : actorSpawn L k entry = (k', answer)) :
    ∃ m', SlotsLoaded L (n + 1) m' k'
      (answer.elim program fun i => Function.update program i a.program) := by
  have hsparse := actorSpawn_sparse (L := L) h.sparse entry
  have hactors := actorSpawn_actors L k entry
  have hstuck : (actorSpawn L k entry).2 = none →
      ∀ entry', (actorSpawn L (actorSpawn L k entry).1 entry').2 = none := actorSpawn_stuck h.sparse
  rw [hspawn] at hsparse hactors hstuck
  cases answer with
  | none =>
      refine ⟨m, Nat.le_succ_of_le h.le, fun s => ?_, h.program, Or.inr (hstuck rfl), hsparse⟩
      rcases hactors with ⟨_, hsame⟩ | ⟨_, _, _, hsome, _⟩
      · rw [Kernel.Live, hsame]
        exact h.live s
      · cases hsome
  | some i =>
      rcases hactors with ⟨hnone, _⟩ | ⟨j, cr3, page, hj, _, hset⟩
      · cases hnone
      cases hj
      have hmn : m = n := by
        rcases h.stuck with heq | hnone
        · exact heq
        · have := hnone entry
          rw [hspawn] at this
          cases this
      subst hmn
      have hfree : freeSlot k = some i := by
        unfold actorSpawn at hspawn
        split at hspawn
        · cases hspawn
        · rename_i i' hfree
          split at hspawn
          · cases hspawn
          · split at hspawn
            · cases hspawn
            · cases hspawn
              exact hfree
      have hi := freeSlot_eq h.live hfree
      refine ⟨m + 1, Nat.le_refl _, fun s => ?_, fun s => ?_, Or.inl rfl, hsparse⟩
      · dsimp only at hset
        rw [Kernel.Live, hset]
        by_cases hs : s = i
        · subst hs
          rw [Function.update_self]
          exact iff_of_true (fun hdead => ActorState.noConfusion hdead) (by omega)
        · have hne : (s : Nat) ≠ i := fun heq => hs (Fin.ext heq)
          rw [Function.update_of_ne hs]
          refine (h.live s).trans ?_
          omega
      · dsimp only [Option.elim]
        by_cases hs : s = i
        · subst hs
          rw [Function.update_self, if_pos (by omega), slotProgram, hi, ha]
          rfl
        · have hne : (s : Nat) ≠ i := fun heq => hs (Fin.ext heq)
          rw [Function.update_of_ne hs, h.program s]
          by_cases hlt : (s : Nat) < m
          · rw [if_pos hlt, if_pos (by omega)]
          · rw [if_neg hlt, if_neg (by omega)]

/-- All spawns that are left. -/
theorem SlotsLoaded.rest {rest : List DemoActor} {n m : Nat} {k : Kernel D} {program : Slot → Program}
    (h : SlotsLoaded L n m k program) (hrest : demoActors.drop n = rest) :
    ∃ m', SlotsLoaded L (n + rest.length) m'
      ((rest.map fun a => SetupOp.spawn (b.entryPoint a)).foldl (setupStep L) k)
      (loadPrograms L b rest k program) := by
  induction rest generalizing n m k program with
  | nil => exact ⟨m, h⟩
  | cons a rest ih =>
      have ha : demoActors[n]? = some a := by
        rw [← List.head?_drop, hrest]
        rfl
      have hdrop : demoActors.drop (n + 1) = rest := by
        rw [← List.tail_drop, hrest]
        rfl
      rw [List.length_cons, show n + (rest.length + 1) = n + 1 + rest.length by omega,
        List.map_cons, List.foldl_cons, loadPrograms]
      simp only [setupStep]
      cases hspawn : actorSpawn L k (b.entryPoint a) with
      | mk k' answer =>
          obtain ⟨m', hnext⟩ := h.spawn ha hspawn
          cases answer with
          | none => exact ih hnext hdrop
          | some i => exact ih hnext hdrop

/-- A call of `kernel_main` that spawns nobody. -/
def SetupOp.NoSpawn : SetupOp → Prop
  | .spawn _ => False
  | _ => True

theorem setupStep_live {k : Kernel D} {op : SetupOp} (h : op.NoSpawn) (s : Slot) :
    (setupStep L k op).Live s ↔ k.Live s := by
  have hset : ∀ {i : Slot} {a : Actor}, a.state = (k.actors i).state →
      ((k.setActor i a).Live s ↔ k.Live s) := by
    intro i a ha
    by_cases hs : s = i
    · subst hs
      simp [Kernel.Live, ha]
    · simp [Kernel.Live, hs]
  rcases setupStep_cases L k op with ⟨entry, rfl, _⟩ | ⟨st, heq⟩ | ⟨i, right, target, _, heq⟩ |
    ⟨i, quota, win, heq⟩
  · exact h.elim
  · rw [heq]
    exact Iff.rfl
  · rw [heq]
    exact hset rfl
  · rw [heq]
    exact hset rfl

theorem foldl_setupStep_live {ops : List SetupOp} {k : Kernel D} (h : ∀ op ∈ ops, op.NoSpawn)
    (s : Slot) : (ops.foldl (setupStep L) k).Live s ↔ k.Live s := by
  induction ops generalizing k with
  | nil => exact Iff.rfl
  | cons op rest ih =>
      exact (ih fun o ho => h o (List.mem_cons_of_mem _ ho)).trans
        (setupStep_live (h op List.mem_cons_self) s)

/-- What `kernel_main` does after its spawns. -/
def settingUp (b : Boot D) : List SetupOp :=
  [.createObject payloadName, .createObject suspiciousName, .seedObject helloName b.helloBlob] ++
    kernelMainGrants.map (fun g => .grant g.1 g.2.1 g.2.2) ++
    [.setSpawnQuota shellSlot 6, .setWindow shellSlot consoleWinShell]

theorem settingUp_noSpawn (b : Boot D) : ∀ op ∈ settingUp b, op.NoSpawn := by
  intro op hop
  simp only [settingUp, List.mem_append, List.mem_cons, List.mem_map, List.not_mem_nil,
    or_false] at hop
  rcases hop with ((rfl | rfl | rfl) | ⟨g, _, rfl⟩) | rfl | rfl
  all_goals trivial

theorem kernelMain_eq (L : Layout) (b : Boot D) :
    kernelMain L b = (settingUp b).foldl (setupStep L)
      ((demoActors.map fun a => SetupOp.spawn (b.entryPoint a)).foldl (setupStep L) (powerOn b)) := by
  rw [kernelMain, kernelMainOps, settingUp, ← List.foldl_append]
  simp only [List.append_assoc]

/-- **Every live slot runs what `kernel_main` means it to.** -/
theorem pipelineBoot_program (L : Layout) (b : Boot D) (s : Slot) :
    (pipelineBoot L b).program s =
      if (bootState L b).Live s then slotProgram s else .other := by
  have hstart : SlotsLoaded L 0 0 (powerOn b) fun _ => .other := by
    refine ⟨Nat.le_refl 0, fun s => ?_, fun s => ?_, Or.inl rfl, ?_⟩
    · exact iff_of_false (fun h => h rfl) (Nat.not_lt_zero _)
    · rw [if_neg (Nat.not_lt_zero _)]
    · rw [Sparse, powerOn_free]
      exact Nat.zero_le 1
  have hspawns : demoActors.drop 0 = demoActors := List.drop_zero
  obtain ⟨m, hloaded⟩ := hstart.rest (b := b) hspawns
  have hlive : (bootState L b).Live s ↔ (s : Nat) < m := by
    rw [bootState, schedulerStart, scheduleNext_live, kernelMain_eq,
      foldl_setupStep_live (settingUp_noSpawn b)]
    exact hloaded.live s
  have hprogram : (pipelineBoot L b).program =
      loadPrograms L b demoActors (powerOn b) fun _ => .other := by
    rw [pipelineBoot]
  rw [hprogram, hloaded.program s]
  by_cases hs : (s : Nat) < m
  · rw [if_pos hs, if_pos (hlive.mpr hs)]
  · rw [if_neg hs, if_neg fun h => hs (hlive.mp h)]

theorem pipelineBoot_program_cases (L : Layout) (b : Boot D) (s : Slot) :
    (pipelineBoot L b).program s = slotProgram s ∨ (pipelineBoot L b).program s = .other := by
  rw [pipelineBoot_program]
  split
  · exact Or.inl rfl
  · exact Or.inr rfl

/-- A grant of `kernel_main`, as a change of the tables. -/
def grantChange (g : Int × Int × Int) : Option (Change Slot Capability) :=
  (slotOf g.1).map fun d => .put d ⟨g.2.1, g.2.2⟩

/-- The tables the grants of `kernel_main` make of blank ones. -/
def grantedTables : Slot → List Capability :=
  changeTables (fun _ => blankTable) (kernelMainGrants.filterMap grantChange)

/-- A call that neither grants nor turns a slot over to somebody with more than nothing. -/
theorem setupStep_blank {k : Kernel D} (h : ∀ s, k.tables s = blankTable) {op : SetupOp}
    (hop : ∀ d right target, op ≠ .grant d right target) (s : Slot) :
    (setupStep L k op).tables s = blankTable := by
  rcases setupStep_cases L k op with ⟨entry, _, heq⟩ | ⟨st, heq⟩ | ⟨i, right, target, hgrant, _⟩ |
    ⟨i, quota, win, heq⟩
  · rw [heq, Kernel.tables]
    rcases actorSpawn_actors L k entry with ⟨_, hkeep⟩ | ⟨i, cr3, page, _, _, hset⟩
    · rw [hkeep]
      exact h s
    · rw [hset]
      by_cases hs : s = i
      · subst hs
        rw [Function.update_self]
        rfl
      · rw [Function.update_of_ne hs]
        exact h s
  · rw [heq]
    exact h s
  · exact absurd hgrant (hop _ _ _)
  · rw [heq, setActor_tables]
    by_cases hs : s = i
    · subst hs
      rw [Function.update_self]
      exact h s
    · rw [Function.update_of_ne hs]
      exact h s

theorem foldl_setupStep_blank {ops : List SetupOp} {k : Kernel D} (h : ∀ s, k.tables s = blankTable)
    (hops : ∀ op ∈ ops, ∀ d right target, op ≠ .grant d right target) (s : Slot) :
    (ops.foldl (setupStep L) k).tables s = blankTable := by
  induction ops generalizing k with
  | nil => exact h s
  | cons op rest ih =>
      exact ih (setupStep_blank h (hops op List.mem_cons_self))
        fun o ho => hops o (List.mem_cons_of_mem _ ho)

theorem foldl_grant_tables (L : Layout) (gs : List (Int × Int × Int)) (k : Kernel D) :
    ((gs.map fun g => SetupOp.grant g.1 g.2.1 g.2.2).foldl (setupStep L) k).tables =
      changeTables k.tables (gs.filterMap grantChange) := by
  induction gs generalizing k with
  | nil => rfl
  | cons g rest ih =>
      rw [List.map_cons, List.foldl_cons, ih]
      simp only [setupStep, actorGrant]
      cases hslot : slotOf g.1 with
      | none => rw [List.filterMap_cons_none (by rw [grantChange, hslot]; rfl)]
      | some d =>
          rw [List.filterMap_cons_some (b := .put d ⟨g.2.1, g.2.2⟩) (by rw [grantChange, hslot]; rfl),
            actorAddCap_fst, setActor_tables]
          rfl

/-- **The tables at the end of the setup** are those of the grants. -/
theorem bootState_tables (L : Layout) (b : Boot D) : (bootState L b).tables = grantedTables := by
  have hblank : ∀ s, (([.createObject payloadName, .createObject suspiciousName,
      .seedObject helloName b.helloBlob] : List SetupOp).foldl (setupStep L)
      ((demoActors.map fun a => SetupOp.spawn (b.entryPoint a)).foldl (setupStep L)
        (powerOn b))).tables s = blankTable := by
    refine foldl_setupStep_blank (foldl_setupStep_blank (fun s => rfl) ?_) ?_
    · intro op hop
      obtain ⟨a, _, rfl⟩ := List.mem_map.mp hop
      simp
    · intro op hop
      simp only [List.mem_cons, List.not_mem_nil, or_false] at hop
      rcases hop with rfl | rfl | rfl
      all_goals simp
  have hkept : ∀ (k : Kernel D) (op : SetupOp), (∃ slot n, op = .setSpawnQuota slot n ∨
      op = .setWindow slot n) → (setupStep L k op).tables = k.tables := by
    rintro k op ⟨slot, n, rfl | rfl⟩
    all_goals
      simp only [setupStep, actorSetSpawnQuota, actorSetWindow]
      cases slotOf slot with
      | none => rfl
      | some s =>
          rw [setActor_tables]
          exact Function.update_eq_self s k.tables
  rw [bootState, schedulerStart, scheduleNext_tables, kernelMain_eq, settingUp, List.foldl_append,
    List.foldl_append, List.foldl_cons, List.foldl_cons, List.foldl_nil,
    hkept _ _ ⟨_, _, Or.inr rfl⟩, hkept _ _ ⟨_, _, Or.inl rfl⟩, foldl_grant_tables,
    funext hblank]
  rfl

end Vajra
