import Vajra.SchedulerInvariant

/-!
# How capability tables change

Every step changes the capability tables by a short list of changes that can be
read off the state before it (`capChanges`): a delegation puts one pair in one
table, a spawn blanks the child's table and puts three pairs, a creation puts
four.  `Stepped.tables` says that nothing else ever happens to a table.
-/

namespace Vajra

open EntryTables TransitionTrace

variable {D : Type}

/-- The capability tables of all slots. -/
def Kernel.tables (k : Kernel D) (s : Slot) : List Capability := (k.actors s).caps

/-- The table `actor_spawn` gives a fresh occupant. -/
def blankTable : List Capability := List.replicate maxCapsPerActor .empty

theorem op_of_mem_blankTable {x : Capability} (h : x ∈ blankTable) : x.op = 0 := by
  rw [List.eq_of_mem_replicate h]
  rfl

/-- Perform a list of changes on capability tables. -/
def changeTables (tables : Slot → List Capability) (changes : List (Change Slot Capability)) :
    Slot → List Capability :=
  applyAll Capability.vacant blankTable tables changes

/-- The changes a checked spawn by `c` makes, given the slot its inner
`actor_spawn` took and the slot it returned. -/
def spawnChanges (c : Slot) : Option Slot → Option Slot → List (Change Slot Capability)
  | none, _ => []
  | some i, none => [.clear i]
  | some i, some _ =>
      [.clear i, .put c ⟨capSend, i⟩, .put c ⟨capTerminate, i⟩, .put i ⟨capSend, c⟩]

/-- The changes `SYS_CREATE_NAME` makes, given the answer of the store. -/
def createChanges (c : Slot) (id : Int) : List (Change Slot Capability) :=
  if id < 0 then []
  else [.put c ⟨capReadObject, id⟩, .put c ⟨capWriteObject, id⟩, .put c ⟨capRenameObject, id⟩,
    .put c ⟨capDeleteObject, id⟩]

/-- The changes `SYS_GRANT` makes. -/
def grantChanges (k : Kernel D) (c : Slot) (dest op target : Int) :
    List (Change Slot Capability) :=
  match slotOf dest with
  | none => []
  | some d => if (actorDelegate k c dest op target).2 = 0 then [.put d ⟨op, target⟩] else []

/-- The changes an event of the current actor `c` makes. -/
def capChanges (L : Layout) (k : Kernel D) (c : Slot) : Event D → List (Change Slot Capability)
  | .syscall call =>
      match Syscall.decode call.num with
      | some .grant => grantChanges k c (cInt call.a1) (cInt call.a2) (cInt call.a3)
      | some .spawn =>
          spawnChanges c (childTaken L k c call.a1.toNat) (actorSpawnChild L k c call.a1.toNat).2
      | some .spawnProgram =>
          if actorHasCap k c capReadObject (cInt call.a1) then
            spawnChanges c (loaderTaken L k c (cInt call.a1))
              (loaderSpawnProgram L k c (cInt call.a1)).2
          else []
      | some .createName =>
          if actorHasCap k c capCreateObject 0 then
            createChanges c (storageCreateNamed k.store (userBytes k c call.a1)).2
          else []
      | _ => []
  | _ => []

/-- The changes of a recorded step. -/
def recordChanges (L : Layout) (t : Record D) : List (Change Slot Capability) :=
  match t.pre.current with
  | none => []
  | some c => capChanges L t.pre c t.event

theorem scheduleNext_tables (k : Kernel D) : (scheduleNext k).tables = k.tables := by
  funext s
  obtain ⟨page, st, ctx, heq, -, -⟩ := scheduleNext_actor k s
  rw [Kernel.tables, heq]
  rfl

/-- Rewriting a record changes only its own table. -/
theorem setActor_tables (k : Kernel D) (s : Slot) (a : Actor) :
    (k.setActor s a).tables = Function.update k.tables s a.caps := by
  funext t
  by_cases ht : t = s
  · subst ht
    simp [Kernel.tables]
  · simp [Kernel.tables, ht]

theorem setState_tables (k : Kernel D) (s : Slot) (st : ActorState) :
    (k.setState s st).tables = k.tables := by
  rw [Kernel.setState, setActor_tables]
  exact Function.update_eq_self s k.tables

theorem ChildSpawn.tables {k k' : Kernel D} {c : Slot} {taken result : Option Slot}
    (h : ChildSpawn k c k' taken result) (hlive : k.Live c) :
    k'.tables = changeTables k.tables (spawnChanges c taken result) := by
  funext s
  cases h with
  | refused h => simp [Kernel.tables, h, changeTables, spawnChanges, applyAll]
  | aborted i cr3 page entry _ _ h =>
      by_cases hs : s = i
      · subst hs
        simp [Kernel.tables, h, changeTables, spawnChanges, applyAll, apply, freshActor, blankTable]
      · simp [Kernel.tables, h, changeTables, spawnChanges, applyAll, apply, hs]
  | spawned i cr3 page entry _ hdead hchild hspawner hother =>
      have hne : c ≠ i := by
        rintro rfl
        exact hlive hdead
      simp only [changeTables, spawnChanges, applyAll, List.foldl_cons, List.foldl_nil, apply]
      by_cases hs : s = i
      · subst hs
        rw [Function.update_self, Function.update_of_ne hne.symm, Function.update_of_ne hne.symm,
          Function.update_self, Kernel.tables, hchild]
        exact (addCapIfRoom_fresh capSend c).symm
      · rw [Function.update_of_ne hs]
        by_cases hc : s = c
        · subst hc
          simp only [Function.update_self, Function.update_of_ne hne, Kernel.tables, hspawner]
          rfl
        · simp only [Function.update_of_ne hc, Function.update_of_ne hs, Kernel.tables,
            hother s hs hc]

/-- The pairs a spawn puts in tables. -/
theorem put_mem_spawnChanges {k k' : Kernel D} {c s : Slot} {taken result : Option Slot}
    {x : Capability} (h : ChildSpawn k c k' taken result)
    (hput : Change.put s x ∈ spawnChanges c taken result) :
    ∃ i, result = some i ∧
      ((s = c ∧ (x = ⟨capSend, (i : Nat)⟩ ∨ x = ⟨capTerminate, (i : Nat)⟩)) ∨
        (s = i ∧ x = ⟨capSend, (c : Nat)⟩)) := by
  cases h with
  | refused | aborted => simp [spawnChanges] at hput
  | spawned i =>
      refine ⟨i, rfl, ?_⟩
      simp only [spawnChanges, List.mem_cons, reduceCtorEq, Change.put.injEq, false_or,
        List.not_mem_nil, or_false] at hput
      tauto

theorem grant_tables (k : Kernel D) (c : Slot) (dest op target : Int) :
    (actorDelegate k c dest op target).1.tables =
      changeTables k.tables (grantChanges k c dest op target) := by
  rcases actorDelegate_cases k c dest op target with heq | ⟨d, hdest, _, heq⟩
  · have hnone : grantChanges k c dest op target = [] := by
      unfold grantChanges
      rw [heq]
      cases slotOf dest with
      | none => rfl
      | some d => rfl
    rw [heq, hnone]
    rfl
  · unfold grantChanges
    rw [hdest, heq]
    dsimp only
    by_cases hret : (actorAddCap k d op target).2 = 0
    · rw [if_pos hret, actorAddCap_fst, setActor_tables]
      rfl
    · rw [if_neg hret, actorAddCap_full hret]
      rfl

theorem create_tables (k : Kernel D) (c : Slot) (name : Nat → UInt8) :
    (sysCreateName k c name).kernel.tables =
      changeTables k.tables (createChanges c (storageCreateNamed k.store name).2) := by
  rcases sysCreateName_cases k c name with ⟨hneg, heq⟩ | ⟨hpos, heq⟩
  · rw [heq, createChanges, if_pos hneg]
    rfl
  · rw [heq, createChanges, if_neg (by omega)]
    simp only [SysResult.value, setActor_tables]
    simp only [changeTables, applyAll, List.foldl_cons, List.foldl_nil, apply,
      Function.update_self, Function.update_idem]
    rfl

/-- A call that is none of the four changes no table. -/
theorem capChanges_of_call {L : Layout} {k : Kernel D} {c : Slot} {e : Event D} {sys : Syscall}
    {call : Call} (h : IsCall e sys call) (hgrant : sys ≠ .grant) (hspawn : sys ≠ .spawn)
    (hprogram : sys ≠ .spawnProgram) (hcreate : sys ≠ .createName) :
    capChanges L k c e = [] := by
  obtain ⟨rfl, hdecode⟩ := h
  cases sys <;> simp_all [capChanges]

/-- **Every step changes the tables by its `capChanges` and in no other way.** -/
theorem Stepped.tables {L : Layout} {hal : Hal D} {k k' : Kernel D} {c : Slot} {e : Event D}
    {o : Outcome} (h : Stepped L hal k c e k' o) (hlive : k.Live c) :
    k'.tables = changeTables k.tables (capChanges L k c e) := by
  cases h with
  | tick => exact (scheduleNext_tables _).trans (setState_tables k c _)
  | yield hcall | exit hcall =>
      rw [capChanges_of_call hcall (by simp) (by simp) (by simp) (by simp)]
      exact (scheduleNext_tables _).trans (setState_tables k c _)
  | @send _ call hcall =>
      rw [capChanges_of_call hcall (by simp) (by simp) (by simp) (by simp)]
      rcases actorSend_cases k c (cInt call.a1) call.a2 call.a3 with heq | ⟨d, _, _, _, _, heq⟩
      · rw [heq]
        rfl
      · rw [heq, setActor_tables]
        exact Function.update_eq_self d k.tables
  | receive out hcall =>
      have hnone : capChanges L k c e = [] := by
        rcases hcall with ⟨call, hcall, _⟩ | ⟨rfl, _⟩
        · exact capChanges_of_call hcall (by simp) (by simp) (by simp) (by simp)
        · rfl
      rw [hnone]
      rcases sysReceive_cases k c out with ⟨_, heq⟩ | ⟨_, heq⟩
      · rw [heq, scheduleNext_tables, setActor_tables]
        exact Function.update_eq_self c k.tables
      · rw [heq]
        exact (setActor_tables k c _).trans (Function.update_eq_self c k.tables)
  | @grant _ call hcall =>
      obtain ⟨rfl, hdecode⟩ := hcall
      rw [grant_tables]
      simp [capChanges, hdecode]
  | @spawn _ call hcall =>
      obtain ⟨rfl, hdecode⟩ := hcall
      rw [(actorSpawnChild_spec L k hlive call.a1.toNat).1.tables hlive]
      simp [capChanges, hdecode]
  | @spawnProgram _ call hcall hcap =>
      obtain ⟨rfl, hdecode⟩ := hcall
      rw [(loaderSpawnProgram_spec L k hlive (cInt call.a1)).1.tables hlive]
      simp [capChanges, hdecode, hcap]
  | @terminate _ call hcall =>
      rw [capChanges_of_call hcall (by simp) (by simp) (by simp) (by simp)]
      rcases actorTerminate_cases k c (cInt call.a1) with heq | ⟨t, _, _, _, heq⟩
      · rw [heq]
        rfl
      · rw [heq]
        exact setState_tables k t .dead
  | @createName _ call hcall hcap =>
      obtain ⟨rfl, hdecode⟩ := hcall
      rw [create_tables]
      simp [capChanges, hdecode, hcap]
  | programDenied hcall hcap | createDenied hcall hcap =>
      obtain ⟨rfl, hdecode⟩ := hcall
      simp [capChanges, hdecode, hcap, changeTables, applyAll]
  | @quietCall _ call sys hcall hquiet hstep =>
      have hne : ∀ {loud : Syscall}, loud.quiet = false → sys ≠ loud :=
        Syscall.ne_of_quiet hquiet
      rw [capChanges_of_call hcall (hne rfl) (hne rfl) (hne rfl) (hne rfl)]
      funext s
      rw [Kernel.tables, hstep.actors]
      rfl
  | unknown hdecode => simp [capChanges, hdecode, changeTables, applyAll]
  | store | device | fault => rfl

/-- The step of a run changes the tables by its recorded changes. -/
theorem Run.tables {L : Layout} {hal : Hal D} {b : Boot D} {tr : List (Record D)}
    {k k' : Kernel D} {e : Event D} {o : Outcome} (h : Run L hal b tr k)
    (hstep : step L hal k e = some (k', o)) :
    k'.tables = changeTables k.tables (recordChanges L ⟨k, e, o, k'⟩) := by
  obtain ⟨c, _, hcur, hlive, hstepped⟩ := Run.stepped h hstep
  rw [hstepped.tables hlive, recordChanges, hcur]

/-- A table is blanked exactly when an `actor_spawn` takes its slot. -/
theorem clear_mem_recordChanges (L : Layout) (t : Record D) (s : Slot) :
    Change.clear s ∈ recordChanges L t ↔ spawnedInto L t = some s := by
  have hspawn : ∀ c taken result, Change.clear s ∈ spawnChanges c taken result ↔
      taken = some s := by
    intro c taken result
    cases taken <;> cases result <;> simp [spawnChanges, eq_comm]
  unfold recordChanges spawnedInto
  cases t.pre.current with
  | none => simp
  | some c =>
      simp only [Option.bind_some]
      unfold capChanges takenSlot
      cases t.event with
      | syscall call =>
          dsimp only
          cases Syscall.decode call.num with
          | none => simp
          | some sys =>
              cases sys with
              | grant =>
                  simp only [grantChanges, reduceCtorEq, iff_false]
                  split
                  · simp
                  · split <;> simp
              | spawn => exact hspawn _ _ _
              | spawnProgram =>
                  dsimp only
                  split
                  · exact hspawn _ _ _
                  · simp
              | createName =>
                  dsimp only
                  split
                  · unfold createChanges
                    split <;> simp
                  · simp
              | _ => simp
      | _ => simp

end Vajra
