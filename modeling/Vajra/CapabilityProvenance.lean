import Vajra.CapabilityTables

/-!
# Where capabilities come from

`Derived o tr s x` is a chain of successful delegations in the run `tr` that ends
with the pair `x` in the table of slot `s`.  Each link is made by an actor that
holds the pair at that moment, and the chain starts at a grant of `kernel_main`,
at the pairs a successful spawn hands out, or at the pairs of a new object's
creator.  `capability_sound` says that every pair in every table has such a chain,
and that the blanket rights have one from `kernel_main` only.
-/

namespace Vajra

open EntryTables TransitionTrace

variable {D : Type}

/-- A successful `SYS_GRANT` by `c`, who holds the pair, to `d`. -/
structure Delegates (t : Record D) (c d : Slot) (x : Capability) : Prop where
  current : t.pre.current = some c
  call : ∃ call, IsCall t.event .grant call ∧ slotOf (cInt call.a1) = some d ∧
    x = ⟨cInt call.a2, cInt call.a3⟩
  success : t.outcome.ret = some (cRet 0)
  held : x ∈ t.pre.tables c

/-- A successful `SYS_SPAWN` or `SYS_SPAWN_PROGRAM` by `c` that made `i`. -/
structure Spawns (t : Record D) (c i : Slot) : Prop where
  current : t.pre.current = some c
  call : ∃ call, IsCall t.event .spawn call ∨ IsCall t.event .spawnProgram call
  success : t.outcome.ret = some (slotRet (some i))

/-- A successful `SYS_CREATE_NAME` by `c` that made object `id`. -/
structure Creates (t : Record D) (c : Slot) (id : Int) : Prop where
  current : t.pre.current = some c
  call : ∃ call, IsCall t.event .createName call
  nonneg : 0 ≤ id
  success : t.outcome.ret = some (cRet id)

/-- Where a chain of delegations starts. -/
inductive Origin where
  | kernelMain
  | spawn
  | create
  deriving DecidableEq

/-- The rights a creator gets over its object. -/
def creatorOps : List Int := [capReadObject, capWriteObject, capRenameObject, capDeleteObject]

/-- The rights that name no particular target. -/
def blanketOps : List Int :=
  [capSpawn, capPromoteObject, capNet, capListNames, capCreateObject, capConsole]

/-- A chain of delegations that ends with `x` in the table of a slot.  A slot that
is spawned into starts with no chains. -/
inductive Derived (L : Layout) : Origin → List (Record D) → Slot → Capability → Prop
  | kernelGrant {d : Slot} {x : Capability}
      (h : (((d : Nat) : Int), x.op, x.target) ∈ kernelMainGrants) :
      Derived L .kernelMain [] d x
  | toSpawner {t : Record D} {tr : List (Record D)} {c i : Slot} (h : Spawns t c i) {op : Int}
      (hop : op = capSend ∨ op = capTerminate) : Derived L .spawn (t :: tr) c ⟨op, (i : Nat)⟩
  | toChild {t : Record D} {tr : List (Record D)} {c i : Slot} (h : Spawns t c i) :
      Derived L .spawn (t :: tr) i ⟨capSend, (c : Nat)⟩
  | toCreator {t : Record D} {tr : List (Record D)} {c : Slot} {id op : Int}
      (h : Creates t c id) (hop : op ∈ creatorOps) : Derived L .create (t :: tr) c ⟨op, id⟩
  | delegated {o : Origin} {t : Record D} {tr : List (Record D)} {c d : Slot} {x : Capability}
      (h : Delegates t c d x) (hc : Derived L o tr c x) : Derived L o (t :: tr) d x
  | kept {o : Origin} {t : Record D} {tr : List (Record D)} {s : Slot} {x : Capability}
      (h : spawnedInto L t ≠ some s) (hs : Derived L o tr s x) : Derived L o (t :: tr) s x

/-- A chain for the pairs a spawn puts in tables. -/
theorem derived_of_spawn {L : Layout} {t : Record D} {tr : List (Record D)} {k' : Kernel D}
    {c s : Slot} {taken result : Option Slot} {x : Capability} (hcur : t.pre.current = some c)
    (hcall : ∃ call, IsCall t.event .spawn call ∨ IsCall t.event .spawnProgram call)
    (hret : t.outcome.ret = some (slotRet result)) (h : ChildSpawn t.pre c k' taken result)
    (hput : Change.put s x ∈ spawnChanges c taken result) :
    Derived L .spawn (t :: tr) s x := by
  obtain ⟨i, rfl, ⟨rfl, rfl | rfl⟩ | ⟨rfl, rfl⟩⟩ := put_mem_spawnChanges h hput
  · exact .toSpawner ⟨hcur, hcall, hret⟩ (Or.inl rfl)
  · exact .toSpawner ⟨hcur, hcall, hret⟩ (Or.inr rfl)
  · exact .toChild ⟨hcur, hcall, hret⟩

/-- **Every pair a step puts in a table has a chain**, if the pairs of the caller
have one. -/
theorem derived_of_put {L : Layout} {hal : Hal D} {k k' : Kernel D} {e : Event D} {o : Outcome}
    {c s : Slot} {x : Capability} {tr : List (Record D)} (hcur : k.current = some c)
    (hlive : k.Live c) (hstep : step L hal k e = some (k', o))
    (hold : ∀ y ∈ k.tables c, y.op ≠ 0 → ∃ orig, Derived L orig tr c y) (hop : x.op ≠ 0)
    (hput : Change.put s x ∈ recordChanges L ⟨k, e, o, k'⟩) :
    ∃ orig, Derived L orig (⟨k, e, o, k'⟩ :: tr) s x := by
  simp only [recordChanges, hcur] at hput
  unfold capChanges at hput
  split at hput
  swap
  · simp at hput
  rename_i call
  split at hput
  · rename_i hdecode
    have hresult := step_syscall hcur hdecode hstep
    simp only [syscallDispatch, SysResult.finish, SysResult.value, Prod.mk.injEq] at hresult
    obtain ⟨_, hout⟩ := hresult
    unfold grantChanges at hput
    split at hput
    · simp at hput
    rename_i d hdest
    split at hput
    swap
    · simp at hput
    rename_i hzero
    simp only [List.mem_singleton, Change.put.injEq] at hput
    obtain ⟨rfl, rfl⟩ := hput
    rcases actorDelegate_cases k c (cInt call.a1) (cInt call.a2) (cInt call.a3) with
      heq | ⟨_, _, hcap, _⟩
    · rw [heq] at hzero
      cases hzero
    · have hheld := hasCap_iff.mp hcap
      obtain ⟨orig, hchain⟩ := hold _ hheld hop
      refine ⟨orig, .delegated (c := c) ⟨hcur, ⟨call, ⟨rfl, hdecode⟩, hdest, rfl⟩, ?_, hheld⟩
        hchain⟩
      rw [← hout, hzero]
  · rename_i hdecode
    have hresult := step_syscall hcur hdecode hstep
    simp only [syscallDispatch, SysResult.finish, SysResult.value, Prod.mk.injEq] at hresult
    exact ⟨.spawn, derived_of_spawn hcur ⟨call, Or.inl ⟨rfl, hdecode⟩⟩ (by rw [← hresult.2])
      (actorSpawnChild_spec L k hlive call.a1.toNat).1 hput⟩
  · rename_i hdecode
    split at hput
    swap
    · simp at hput
    rename_i hcap
    have hresult := step_syscall hcur hdecode hstep
    simp only [syscallDispatch, guarded, if_pos hcap, SysResult.finish, SysResult.value,
      Prod.mk.injEq] at hresult
    exact ⟨.spawn, derived_of_spawn hcur ⟨call, Or.inr ⟨rfl, hdecode⟩⟩ (by rw [← hresult.2])
      (loaderSpawnProgram_spec L k hlive (cInt call.a1)).1 hput⟩
  · rename_i hdecode
    split at hput
    swap
    · simp at hput
    rename_i hcap
    have hresult := step_syscall hcur hdecode hstep
    simp only [syscallDispatch, guarded, if_pos hcap, SysResult.finish] at hresult
    unfold createChanges at hput
    split at hput
    · simp at hput
    rename_i hid
    rcases sysCreateName_cases k c (userBytes k c call.a1) with ⟨hneg, _⟩ | ⟨hpos, heq⟩
    · exact absurd hneg hid
    · rw [heq] at hresult
      have hcreates : Creates (⟨k, .syscall call, o, k'⟩ : Record D) c
          (storageCreateNamed k.store (userBytes k c call.a1)).2 :=
        ⟨hcur, ⟨call, rfl, hdecode⟩, hpos, by rw [← (Prod.mk.inj hresult).2]; rfl⟩
      simp only [List.mem_cons, Change.put.injEq, List.not_mem_nil, or_false] at hput
      rcases hput with ⟨rfl, rfl⟩ | ⟨rfl, rfl⟩ | ⟨rfl, rfl⟩ | ⟨rfl, rfl⟩
      all_goals exact ⟨.create, .toCreator hcreates (by simp [creatorOps])⟩
  · simp at hput

/-- The tables `kernel_main` leaves hold its grants and nothing else. -/
theorem setupState_granted (L : Layout) (b : Boot D) (n : Nat) :
    ∀ s, ∀ x ∈ (setupState L b n).tables s, x.op ≠ 0 →
      (((s : Nat) : Int), x.op, x.target) ∈ kernelMainGrants := by
  refine setupState_induction (P := fun k => ∀ s, ∀ x ∈ k.tables s, x.op ≠ 0 →
    (((s : Nat) : Int), x.op, x.target) ∈ kernelMainGrants) ?_ ?_ n
  · intro s x hx hop
    exact absurd (op_of_mem_blankTable hx) hop
  · intro k op hmem hk s x hx hop
    rcases setupStep_cases L k op with ⟨entry, _, heq⟩ | ⟨st, heq⟩ | ⟨d, right, target, rfl, heq⟩ |
      ⟨d, quota, win, heq⟩
    · rw [heq] at hx
      rcases actorSpawn_actors L k entry with ⟨_, hkeep⟩ | ⟨i, cr3, page, _, _, hupd⟩
      · rw [Kernel.tables, hkeep] at hx
        exact hk s x hx hop
      · rw [Kernel.tables, hupd] at hx
        by_cases hs : s = i
        · subst hs
          rw [Function.update_self] at hx
          exact absurd (op_of_mem_blankTable hx) hop
        · rw [Function.update_of_ne hs] at hx
          exact hk s x hx hop
    · rw [heq] at hx
      exact hk s x hx hop
    · rw [heq, setActor_tables] at hx
      by_cases hs : s = d
      · subst hs
        rw [Function.update_self] at hx
        rcases mem_fill hx with hold | rfl
        · exact hk s x hold hop
        · simpa [kernelMainOps] using hmem
      · rw [Function.update_of_ne hs] at hx
        exact hk s x hx hop
    · rw [heq, setActor_tables] at hx
      by_cases hs : s = d
      · subst hs
        rw [Function.update_self] at hx
        exact hk s x hx hop
      · rw [Function.update_of_ne hs] at hx
        exact hk s x hx hop

theorem minted_not_blanket : ∀ op ∈ capSend :: capTerminate :: creatorOps, op ∉ blanketOps := by
  decide

/-- A blanket right is never handed out by a spawn or a creation. -/
theorem Derived.blanket {L : Layout} {o : Origin} {tr : List (Record D)} {s : Slot}
    {x : Capability} (h : Derived L o tr s x) (hx : x.op ∈ blanketOps) : o = .kernelMain := by
  induction h with
  | kernelGrant => rfl
  | toSpawner _ hop =>
      rcases hop with rfl | rfl
      · exact absurd hx (minted_not_blanket _ (by simp))
      · exact absurd hx (minted_not_blanket _ (by simp))
  | toChild => exact absurd hx (minted_not_blanket _ (by simp))
  | toCreator _ hop => exact absurd hx (minted_not_blanket _ (by simp [hop]))
  | delegated _ _ ih | kept _ _ ih => exact ih hx

/-- **Capability soundness.**  In every state of every run, every pair with a
nonzero operation in any table is at the end of a chain of successful
delegations, and for a blanket right every such chain starts at a grant of
`kernel_main`. -/
theorem capability_sound {L : Layout} {hal : Hal D} {b : Boot D} {tr : List (Record D)}
    {k : Kernel D} (hrun : Run L hal b tr k) (s : Slot) (op target : Int)
    (hx : ⟨op, target⟩ ∈ (k.actors s).caps) (hop : op ≠ 0) :
    (∃ o, Derived L o tr s ⟨op, target⟩) ∧
      (op ∈ blanketOps → ∀ o, Derived L o tr s ⟨op, target⟩ → o = .kernelMain) := by
  have hall : ∀ s, ∀ x ∈ k.tables s, x.op ≠ 0 → ∃ o, Derived L o tr s x := by
    refine hrun.history_invariant
      (fun tr k => ∀ s, ∀ x ∈ k.tables s, x.op ≠ 0 → ∃ o, Derived L o tr s x) ?_ ?_
    · intro s x hx hop
      rw [bootState, schedulerStart, scheduleNext_tables, kernelMain_eq_setupState] at hx
      exact ⟨.kernelMain, .kernelGrant (setupState_granted L b _ s x hx hop)⟩
    · intro tr k e o k' hrun hold hstep s x hx hop
      obtain ⟨c, _, hcur, hlive, _⟩ := Run.stepped hrun hstep
      rw [Run.tables hrun hstep] at hx
      rcases mem_applyAll hx with ⟨hmem, hclear⟩ | hblank | hput
      · obtain ⟨orig, hchain⟩ := hold s x hmem hop
        refine ⟨orig, .kept (fun hinto => hclear ?_) hchain⟩
        exact (clear_mem_recordChanges L _ s).mpr hinto
      · exact absurd (op_of_mem_blankTable hblank) hop
      · exact derived_of_put hcur hlive hstep (hold c) hop hput
  exact ⟨hall s _ hx hop, fun hblanket o hchain => hchain.blanket hblanket⟩

set_option maxRecDepth 100000 in
/-- The coordinator hands its right to spawn to slot 3. -/
theorem capability_sound_delegated :
    ∃ tr k, Run sampleLayout silentHal sampleBoot tr k ∧
      ⟨capSpawn, 0⟩ ∈ (k.actors 3).caps ∧
      ∃ o, Derived sampleLayout o tr 3 ⟨capSpawn, 0⟩ := by
  have hrun : (sampleRun (List.replicate 6 .tick ++ [sampleCall 6 3 2 0])).map
      (fun r => decide (⟨capSpawn, 0⟩ ∈ (r.2.actors 3).caps)) = some true := by
    decide +kernel
  obtain ⟨tr, k, htrace, hview⟩ := exists_trace_of_runTrace hrun
  have hheld : ⟨capSpawn, 0⟩ ∈ (k.actors 3).caps := by simpa using hview
  exact ⟨tr, k, htrace, hheld, (capability_sound htrace 3 capSpawn 0 hheld (by decide)).1⟩

end Vajra
