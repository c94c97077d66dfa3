import Vajra.StackPages

/-!
# The free list does not overflow

`free_page` drops a page that finds 32 others on the list, and nothing in the code keeps the
list shorter.  `free_page` has two callers: `reap_dead_actors` and the path of `actor_spawn`
that gets no address space.  Here both run with a `free_page` that stops where it would drop
a page, and in every state that actor operations can reach, in any order, neither stops:
the pages on the list and the pages noted in slots are at most `MAX_ACTORS + 1`.
-/

namespace Vajra

open TransitionTrace

variable {D : Type}

/-- `free_page`, stopping where it would drop the page. -/
def freePageChecked (m : Memory) (addr : Nat) : Option Memory :=
  if m.freeList.length < freeListCapacity then some { m with freeList := addr :: m.freeList }
  else none

/-- One turn of `reap_dead_actors`. -/
def reapActorChecked (k : Kernel D) (i : Slot) : Option (Kernel D) :=
  if k.current = some i then some k
  else
    match (k.actors i).state, (k.actors i).stackPage with
    | .dead, some page =>
        (freePageChecked k.memory page).map fun mem =>
          ({ k with memory := mem } : Kernel D).setActor i { k.actors i with stackPage := none }
    | _, _ => some k

/-- `reap_dead_actors`. -/
def reapDeadActorsChecked (k : Kernel D) : Option (Kernel D) :=
  (List.finRange maxActors).foldlM reapActorChecked k

/-- `actor_spawn`. -/
def actorSpawnChecked (L : Layout) (k : Kernel D) (entry : Nat) : Option (Kernel D × Option Slot) :=
  match freeSlot k with
  | none => some (k, none)
  | some i =>
      match allocPage k.memory with
      | (mem, none) => some ({ k with memory := mem }, none)
      | (mem, some page) =>
          match halAddressSpaceCreate L mem.ram i page actorStackSize with
          | (ram, none) =>
              (freePageChecked { mem with ram := ram } page).map fun mem =>
                ({ k with memory := mem }, none)
          | (ram, some cr3) =>
              some (({ k with memory := { mem with ram := ram } } : Kernel D).setActor i
                (freshActor (k.actors i) cr3 page entry), some i)

/-- **One operation on the actors**: `actor_spawn`, whether it succeeds or fails, a slot that
exits, is terminated or is woken, `reap_dead_actors`, or anything that leaves the free list
and the noted stack pages alone. -/
inductive ActorStep (L : Layout) (k : Kernel D) : Kernel D → Prop
  | spawn (entry : Nat) : ActorStep L k (actorSpawn L k entry).1
  | mark (s : Slot) (st : ActorState) : ActorStep L k (k.setState s st)
  | reap : ActorStep L k (reapDeadActors k)
  | elsewhere {k' : Kernel D} (h : k'.stacks = k.stacks) : ActorStep L k k'

/-- Operations one after the other, in any order. -/
abbrev Operates (L : Layout) : Kernel D → Kernel D → Prop := Relation.ReflTransGen (ActorStep L)

theorem freePageChecked_eq {m : Memory} (addr : Nat) (h : m.freeList.length < freeListCapacity) :
    freePageChecked m addr = some (freePage m addr) := by
  unfold freePageChecked freePage
  rw [if_pos h, if_pos h]

section Steps

variable {L : Layout} {k k' : Kernel D}

theorem Circulating.room (h : Circulating k.stacks) : k.memory.freeList.length < freeListCapacity := by
  have hle : k.stacks.free.length ≤ 18 := Nat.le_trans (Nat.le_add_right _ _) h
  exact Nat.lt_of_le_of_lt hle (by decide)

theorem reapActorChecked_eq (h : Circulating k.stacks) (i : Slot) :
    reapActorChecked k i = some (reapActor k i) := by
  unfold reapActorChecked reapActor
  split
  · rfl
  · cases (k.actors i).state with
    | dead =>
        cases (k.actors i).stackPage with
        | none => rfl
        | some page =>
            dsimp only
            rw [freePageChecked_eq page h.room, Option.map_some]
    | ready | running | blocked => rfl

/-- **`reap_dead_actors` drops no page**: each turn finds room for the page of its slot. -/
theorem reapDeadActorsChecked_eq (h : Circulating k.stacks) :
    reapDeadActorsChecked k = some (reapDeadActors k) := by
  unfold reapDeadActorsChecked reapDeadActors
  generalize List.finRange maxActors = slots
  induction slots generalizing k with
  | nil => rfl
  | cons i rest ih =>
      rw [List.foldlM_cons, reapActorChecked_eq h i, List.foldl_cons]
      exact ih (h.reaps (reapActor_reaps k i))

/-- **`actor_spawn` drops no page**: the one it gives back came off the list, or the list is
empty. -/
theorem actorSpawnChecked_eq (h : Circulating k.stacks) (L : Layout) (entry : Nat) :
    actorSpawnChecked L k entry = some (actorSpawn L k entry) := by
  unfold actorSpawnChecked actorSpawn
  cases freeSlot k with
  | none => rfl
  | some i =>
      dsimp only
      cases halloc : allocPage k.memory with
      | mk mem answer =>
          cases answer with
          | none => rfl
          | some page =>
              dsimp only
              cases halAddressSpaceCreate L mem.ram i page actorStackSize with
              | mk ram cr3 =>
                  cases cr3 with
                  | none =>
                      have hroom := h.room
                      have hrest : mem.freeList.length < freeListCapacity := by
                        rcases (allocPage_popped halloc).length with hlen | hlen
                        · omega
                        · rw [hlen]
                          decide
                      dsimp only
                      rw [freePageChecked_eq (m := { mem with ram := ram }) page hrest,
                        Option.map_some]
                  | some cr3 => rfl

/-- `actor_spawn` keeps the pages in circulation, also over a page still noted. -/
theorem Circulating.spawn (h : Circulating k.stacks) (L : Layout) (entry : Nat) :
    Circulating (actorSpawn L k entry).1.stacks := by
  unfold actorSpawn
  cases freeSlot k with
  | none => exact h
  | some i =>
      dsimp only
      cases halloc : allocPage k.memory with
      | mk mem answer =>
          cases answer with
          | none =>
              dsimp only
              rw [show ({ k with memory := mem } : Kernel D).stacks = k.stacks from
                congrArg (Stacks.mk k.stacks.page) (allocPage_failed halloc)]
              exact h
          | some p =>
              have hpop : Popped k.stacks.free p mem.freeList := allocPage_popped halloc
              dsimp only
              cases halAddressSpaceCreate L mem.ram i p actorStackSize with
              | mk ram cr3 =>
                  cases cr3 with
                  | none =>
                      have hback := h.refunded hpop
                      rw [← freePage_freeList { mem with ram := ram } p] at hback
                      exact hback
                  | some cr3 =>
                      dsimp only
                      rw [setActor_stacks]
                      exact h.taken hpop

/-- **What one operation preserves.** -/
theorem ActorStep.circulating (hstep : ActorStep L k k') (h : Circulating k.stacks) :
    Circulating k'.stacks := by
  cases hstep with
  | spawn entry => exact h.spawn L entry
  | mark s st =>
      rw [setState_stacks]
      exact h
  | reap => exact h.reaps (reapDeadActors_reaps k)
  | elsewhere hsame =>
      rw [hsame]
      exact h

theorem Operates.circulating (hops : Operates L k k') (h : Circulating k.stacks) :
    Circulating k'.stacks := by
  induction hops with
  | refl => exact h
  | tail _ hlast ih => exact hlast.circulating ih

theorem Operates.elsewhere (h : k'.stacks = k.stacks) : Operates L k k' := .single (.elsewhere h)

theorem Operates.thenElsewhere {k1 : Kernel D} (hops : Operates L k k1)
    (h : k'.stacks = k1.stacks) : Operates L k k' :=
  .tail hops (.elsewhere h)

end Steps

section Machine

variable {L : Layout}

/-- `schedule_next` reaps, then switches. -/
theorem scheduleNext_operates (L : Layout) (k : Kernel D) : Operates L k (scheduleNext k) :=
  Operates.thenElsewhere (.single .reap) (scheduleNext_stacks k)

theorem actorSpawnProgram_operates (L : Layout) (k : Kernel D)
    (physBase physSize entryOffset : Nat) :
    Operates L k (actorSpawnProgram L k physBase physSize entryOffset).1 := by
  have hspawn : Operates L k (actorSpawn L k (programVbase + entryOffset)).1 := .single (.spawn _)
  unfold actorSpawnProgram
  generalize actorSpawn L k (programVbase + entryOffset) = r at hspawn ⊢
  obtain ⟨k1, result⟩ := r
  cases result with
  | none => exact hspawn
  | some slot =>
      dsimp only
      generalize halAddressSpaceMapProgram L k1.memory.ram k1.pool slot physBase physSize = mapped
      obtain ⟨ram, pool, rc⟩ := mapped
      dsimp only
      split
      · refine hspawn.thenElsewhere ?_
        rw [setState_stacks]
        rfl
      · exact hspawn.thenElsewhere rfl

/-- The tail of both checked spawns. -/
theorem Operates.checked {k k1 : Kernel D} {result : Option Slot} {c : Slot}
    (h : Operates L k k1) :
    Operates L k
      (match (k1, result) with
        | (k, none) => (k, none)
        | (k, some child) => (adoptChild k c child, some child) : Kernel D × Option Slot).1 := by
  cases result with
  | none => exact h
  | some child => exact h.thenElsewhere (adoptChild_stacks k1 c child)

theorem actorSpawnChild_operates (L : Layout) (k : Kernel D) (c : Slot) (entry : Nat) :
    Operates L k (actorSpawnChild L k c entry).1 := by
  have hspawn : Operates L k (actorSpawn L k entry).1 := .single (.spawn entry)
  unfold actorSpawnChild
  split
  · exact .refl
  · exact hspawn.checked

theorem loaderSpawnProgram_operates (L : Layout) (k : Kernel D) (c : Slot) (id : Int) :
    Operates L k (loaderSpawnProgram L k c id).1 := by
  have hstage : Operates L k (loaderStage k id).1 := .elsewhere (loaderStage_stacks k id)
  unfold loaderSpawnProgram
  generalize loaderStage k id = r at hstage ⊢
  obtain ⟨k1, result⟩ := r
  cases result with
  | none => exact hstage
  | some staged =>
      obtain ⟨phys, image⟩ := staged
      dsimp only
      unfold actorSpawnProgramChild
      split
      · exact hstage
      · exact Operates.checked
          (hstage.trans (actorSpawnProgram_operates L k1 phys (image.pages * 4096) image.entryOffset))

/-- **A step of the kernel is a sequence of operations.** -/
theorem Stepped.operates {hal : Hal D} {k k' : Kernel D} {c : Slot} {e : Event D} {o : Outcome}
    (h : Stepped L hal k c e k' o) : Operates L k k' := by
  have hmark : ∀ st, Operates L k (scheduleNext (k.setState c st)) :=
    fun st => .head (.mark c st) (scheduleNext_operates L _)
  cases h with
  | tick => exact hmark .ready
  | yield => exact hmark .ready
  | exit => exact hmark .dead
  | send => exact .elsewhere (actorSend_stacks k c _ _ _)
  | receive out =>
      rcases sysReceive_stacks k c out with hkept | ⟨waiting, hwaiting, heq⟩
      · exact .elsewhere hkept
      · rw [heq]
        exact .head (.elsewhere hwaiting) (scheduleNext_operates L waiting)
  | grant => exact .elsewhere (actorDelegate_stacks k c _ _ _)
  | @spawn _ call => exact actorSpawnChild_operates L k c call.a1.toNat
  | @terminate _ call =>
      rcases actorTerminate_cases k c (cInt call.a1) with heq | ⟨t, _, _, _, heq⟩
      · rw [heq]
      · rw [heq]
        exact .single (.mark t .dead)
  | @spawnProgram _ call => exact loaderSpawnProgram_operates L k c (cInt call.a1)
  | createName => exact .elsewhere (sysCreateName_stacks k c _)
  | programDenied | createDenied | unknown => exact .refl
  | quietCall _ _ hstep => exact .elsewhere hstep.stacks
  | store | device | fault => exact .elsewhere rfl

theorem setupState_operates (L : Layout) (b : Boot D) (n : Nat) :
    Operates L (powerOn b) (setupState L b n) := by
  induction n with
  | zero => exact .refl
  | succ n ih =>
      rw [setupState_succ]
      cases (kernelMainOps b)[n]? with
      | none => exact ih
      | some op =>
          cases op with
          | spawn entry => exact .tail ih (.spawn entry)
          | createObject | seedObject | grant | setSpawnQuota | setWindow =>
              exact ih.thenElsewhere (setupStep_stacks L _ (by simp))

/-- **The states of the kernel are among those the operations reach**: during `kernel_main`
and in every run. -/
theorem Reached.operates {hal : Hal D} {b : Boot D} {k : Kernel D} (h : Reached L hal b k) :
    Operates L (powerOn b) k := by
  cases h with
  | setup n => exact setupState_operates L b n
  | run hrun =>
      refine hrun.history_invariant (fun _ k => Operates L (powerOn b) k) ?_ ?_
      · unfold bootState
        rw [kernelMain_eq_setupState]
        exact (setupState_operates L b _).trans (scheduleNext_operates L _)
      · intro tr k e o k' _ hops hstep
        obtain ⟨c, _, _, hstepped⟩ := step_stepped hstep
        exact hops.trans hstepped.operates

/-- **The free list never overflows.**  In every state that actor operations reach from
power-on, in any order, the free list and the slots with a page noted count at most
`MAX_ACTORS + 1`, and neither caller of `free_page` drops a page there.  The states of the
kernel, and those inside its steps, are such states. -/
theorem free_list_never_overflows (L : Layout) (hal : Hal D) (b : Boot D) :
    (∀ k, Operates L (powerOn b) k →
      k.memory.freeList.length + k.stacks.held.card ≤ maxActors + 1 ∧
      reapDeadActorsChecked k = some (reapDeadActors k) ∧
      ∀ entry, actorSpawnChecked L k entry = some (actorSpawn L k entry)) ∧
    (∀ k, Reached L hal b k → Operates L (powerOn b) k) ∧
    ∀ k e k' o, step L hal k e = some (k', o) → Operates L k k' := by
  refine ⟨fun k hops => ?_, fun k => Reached.operates, fun k e k' o hstep => ?_⟩
  · have hcirc := Operates.circulating hops (powerOn_circulating b)
    exact ⟨hcirc, reapDeadActorsChecked_eq hcirc, actorSpawnChecked_eq hcirc L⟩
  · obtain ⟨c, _, _, hstepped⟩ := step_stepped hstep
    exact hstepped.operates

end Machine

set_option maxRecDepth 100000 in
/-- The coordinator spawns a worker and terminates it; the next tick reaps its page. -/
theorem free_list_never_overflows_reaped :
    ∃ k, Operates sampleLayout (powerOn sampleBoot) k ∧ k.memory.freeList = [0x10F000] ∧
      k.memory.freeList.length + k.stacks.held.card ≤ maxActors + 1 := by
  have hrun : (sampleRun (List.replicate 6 .tick ++
      [sampleCall 7 0x20000 0 0, sampleCall 8 15 0 0, .tick])).map
      (fun r => r.2.memory.freeList) = some [0x10F000] := by
    decide +kernel
  obtain ⟨tr, k, htrace, hfree⟩ := exists_trace_of_runTrace hrun
  have hall := free_list_never_overflows sampleLayout silentHal sampleBoot
  have hops := hall.2.1 k (.run htrace)
  exact ⟨k, hops, hfree, (hall.1 k hops).1⟩

end Vajra
