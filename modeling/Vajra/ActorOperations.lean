import Vajra.EntryTables
import Vajra.KernelSteps

/-!
# One specification for each operation on the actor table

Each operation of `core/actor.c` is described by what it leaves in the actor
table, so that the invariants never look inside it.  The longest are the two
checked spawns: `ChildSpawn` lists their three possible ends (nothing happened,
a program could not be mapped, a child was made) with the exact records of the
child and of its spawner in the last one.
-/

namespace Vajra

open ByteMemory

variable {D : Type}

/-- An entry `actor_add_cap` may overwrite. -/
def Capability.vacant (c : Capability) : Bool := c.op = 0

/-- `actor_add_cap` when its result is ignored: a full table stays as it is. -/
def addCapIfRoom (caps : List Capability) (op target : Int) : List Capability :=
  EntryTables.fill Capability.vacant caps ⟨op, target⟩

theorem hasCap_iff {caps : List Capability} {op target : Int} :
    hasCap caps op target = true ↔ ⟨op, target⟩ ∈ caps := by
  unfold hasCap
  rw [List.any_eq_true]
  constructor
  · rintro ⟨⟨o, t⟩, hmem, heq⟩
    simp only [decide_eq_true_eq] at heq
    obtain ⟨rfl, rfl⟩ := heq
    exact hmem
  · intro hmem
    exact ⟨⟨op, target⟩, hmem, by simp⟩

/-- The table of a fresh actor after one addition. -/
theorem addCapIfRoom_fresh (op target : Int) :
    addCapIfRoom (List.replicate maxCapsPerActor .empty) op target =
      ⟨op, target⟩ :: List.replicate (maxCapsPerActor - 1) .empty := by
  rfl

/-- `actor_add_cap` rewrites one table. -/
theorem actorAddCap_fst (k : Kernel D) (s : Slot) (op target : Int) :
    (actorAddCap k s op target).1 =
      k.setActor s { k.actors s with caps := addCapIfRoom (k.actors s).caps op target } := by
  unfold actorAddCap addCapIfRoom EntryTables.fill addCap Capability.vacant
  cases (k.actors s).caps.findIdx? (fun c => decide (c.op = 0)) with
  | none => simp [Kernel.setActor]
  | some i => rfl

/-- `actor_add_cap` fails only on a full table, which it leaves as it is. -/
theorem actorAddCap_full {k : Kernel D} {s : Slot} {op target : Int}
    (h : (actorAddCap k s op target).2 ≠ 0) : (actorAddCap k s op target).1 = k := by
  unfold actorAddCap at h ⊢
  cases hadd : addCap (k.actors s).caps op target with
  | none => rfl
  | some caps => simp [hadd] at h

/-- `actor_delegate`: refused without the pair or with a slot out of range, and
otherwise one addition to the destination's table. -/
theorem actorDelegate_cases (k : Kernel D) (c : Slot) (dest op target : Int) :
    actorDelegate k c dest op target = (k, -1) ∨
    ∃ d, slotOf dest = some d ∧ actorHasCap k c op target = true ∧
      actorDelegate k c dest op target = actorAddCap k d op target := by
  unfold actorDelegate
  cases hdest : slotOf dest with
  | none => exact Or.inl rfl
  | some d =>
      by_cases hcap : actorHasCap k c op target = true
      · exact Or.inr ⟨d, rfl, hcap, by simp [hcap]⟩
      · exact Or.inl (by simp [hcap])

/-- `actor_terminate`: refused, or the target's slot becomes dead. -/
theorem actorTerminate_cases (k : Kernel D) (c : Slot) (target : Int) :
    actorTerminate k c target = (k, -1) ∨
    ∃ t, slotOf target = some t ∧ t ≠ c ∧ actorHasCap k c capTerminate target = true ∧
      actorTerminate k c target = (k.setState t .dead, 0) := by
  unfold actorTerminate
  cases htarget : slotOf target with
  | none => exact Or.inl rfl
  | some t =>
      by_cases hself : t = c
      · exact Or.inl (by simp [hself])
      · by_cases hcap : actorHasCap k c capTerminate target = true
        · exact Or.inr ⟨t, rfl, hself, hcap, by simp [hself, hcap]⟩
        · exact Or.inl (by simp [hself, hcap])

/-- `actor_send`: refused, or one message is queued for a live actor with room. -/
theorem actorSend_cases (k : Kernel D) (c : Slot) (dest : Int) (type data : Word) :
    actorSend k c dest type data = (k, -1) ∨
    ∃ d, slotOf dest = some d ∧ actorHasCap k c capSend dest = true ∧ k.Live d ∧
      (k.actors d).mailboxCount < mailboxCapacity ∧
      actorSend k c dest type data =
        (k.setActor d (enqueue (k.actors d) ⟨type, BitVec.ofNat 64 c, data⟩), 0) := by
  unfold actorSend
  cases hdest : slotOf dest with
  | none => exact Or.inl rfl
  | some d =>
      by_cases hcap : actorHasCap k c capSend dest = true
      swap
      · exact Or.inl (by simp [hcap])
      by_cases hlive : (k.actors d).state = .dead
      · exact Or.inl (by simp [hlive])
      by_cases hroom : mailboxCapacity ≤ (k.actors d).mailboxCount
      · exact Or.inl (by simp [hroom])
      · exact Or.inr ⟨d, rfl, hcap, hlive, Nat.lt_of_not_le hroom, by simp [hcap, hlive, hroom]⟩

/-- The slot a spawn takes is dead. -/
theorem freeSlot_dead {k : Kernel D} {i : Slot} (h : freeSlot k = some i) :
    (k.actors i).state = .dead := by
  have := List.find?_some h
  simpa using this

/-- How `actor_spawn` and `actor_spawn_program` can end, for the actor table:
the slot the inner `actor_spawn` took, and the slot that was returned. -/
inductive RawSpawn (k k' : Kernel D) : Option Slot → Option Slot → Prop
  | refused (h : k'.actors = k.actors) : RawSpawn k k' none none
  | aborted (i : Slot) (cr3 page entry : Nat) (hdead : (k.actors i).state = .dead)
      (h : k'.actors = Function.update k.actors i
        { freshActor (k.actors i) cr3 page entry with state := .dead }) :
      RawSpawn k k' (some i) none
  | spawned (i : Slot) (cr3 page entry : Nat) (hdead : (k.actors i).state = .dead)
      (h : k'.actors = Function.update k.actors i (freshActor (k.actors i) cr3 page entry)) :
      RawSpawn k k' (some i) (some i)

/-- What no spawn touches. -/
structure SpawnFrame (k k' : Kernel D) : Prop where
  current : k'.current = k.current
  mode : k'.mode = k.mode
  store : k'.store = k.store

theorem actorSpawn_frame (L : Layout) (k : Kernel D) (entry : Nat) :
    SpawnFrame k (actorSpawn L k entry).1 ∧ (actorSpawn L k entry).1.pool = k.pool := by
  unfold actorSpawn
  split
  · exact ⟨⟨rfl, rfl, rfl⟩, rfl⟩
  · split
    · exact ⟨⟨rfl, rfl, rfl⟩, rfl⟩
    · split
      · exact ⟨⟨rfl, rfl, rfl⟩, rfl⟩
      · exact ⟨⟨rfl, rfl, rfl⟩, rfl⟩

/-- `actor_spawn` is refused or makes a fresh occupant; it never aborts. -/
theorem actorSpawn_actors (L : Layout) (k : Kernel D) (entry : Nat) :
    ((actorSpawn L k entry).2 = none ∧ (actorSpawn L k entry).1.actors = k.actors) ∨
    ∃ i cr3 page, (actorSpawn L k entry).2 = some i ∧ (k.actors i).state = .dead ∧
      (actorSpawn L k entry).1.actors =
        Function.update k.actors i (freshActor (k.actors i) cr3 page entry) := by
  unfold actorSpawn
  split
  · exact Or.inl ⟨rfl, rfl⟩
  · rename_i i hfree
    split
    · exact Or.inl ⟨rfl, rfl⟩
    · split
      · exact Or.inl ⟨rfl, rfl⟩
      · exact Or.inr ⟨i, _, _, rfl, freeSlot_dead hfree, rfl⟩

theorem actorSpawn_raw (L : Layout) (k : Kernel D) (entry : Nat) :
    RawSpawn k (actorSpawn L k entry).1 (actorSpawn L k entry).2 (actorSpawn L k entry).2 := by
  rcases actorSpawn_actors L k entry with ⟨hnone, hsame⟩ | ⟨i, cr3, page, hsome, hdead, hset⟩
  · rw [hnone]
    exact .refused hsame
  · rw [hsome]
    exact .spawned i cr3 page entry hdead hset

theorem actorSpawnProgram_frame (L : Layout) (k : Kernel D) (physBase physSize off : Nat) :
    SpawnFrame k (actorSpawnProgram L k physBase physSize off).1 := by
  have hspawn := (actorSpawn_frame L k (programVbase + off)).1
  unfold actorSpawnProgram
  split
  · rename_i k1 hk1
    rw [hk1] at hspawn
    exact hspawn
  · rename_i k1 slot hk1
    rw [hk1] at hspawn
    dsimp only
    split
    · exact ⟨hspawn.current, hspawn.mode, hspawn.store⟩
    · exact ⟨hspawn.current, hspawn.mode, hspawn.store⟩

theorem actorSpawnProgram_raw (L : Layout) (k : Kernel D) (physBase physSize off : Nat) :
    RawSpawn k (actorSpawnProgram L k physBase physSize off).1
      (actorSpawn L k (programVbase + off)).2 (actorSpawnProgram L k physBase physSize off).2 := by
  have hspawn := actorSpawn_actors L k (programVbase + off)
  unfold actorSpawnProgram
  split
  · rename_i k1 hk1
    rw [hk1] at hspawn ⊢
    rcases hspawn with ⟨_, hsame⟩ | ⟨_, _, _, hsome, _⟩
    · exact .refused hsame
    · cases hsome
  · rename_i k1 slot hk1
    rw [hk1] at hspawn ⊢
    rcases hspawn with ⟨hnone, _⟩ | ⟨i, cr3, page, hsome, hdead, hset⟩
    · cases hnone
    · cases hsome
      dsimp only at hset ⊢
      split
      · refine .aborted slot cr3 page (programVbase + off) hdead ?_
        simp [hset]
      · exact .spawned slot cr3 page _ hdead hset

/-- How a checked spawn by `c` can end, for the actor table: the slot the inner
`actor_spawn` took, and the slot that was returned. -/
inductive ChildSpawn (k : Kernel D) (c : Slot) (k' : Kernel D) :
    Option Slot → Option Slot → Prop
  | refused (h : k'.actors = k.actors) : ChildSpawn k c k' none none
  | aborted (i : Slot) (cr3 page entry : Nat) (hmay : MaySpawn k c)
      (hdead : (k.actors i).state = .dead)
      (h : k'.actors = Function.update k.actors i
        { freshActor (k.actors i) cr3 page entry with state := .dead }) :
      ChildSpawn k c k' (some i) none
  | spawned (i : Slot) (cr3 page entry : Nat) (hmay : MaySpawn k c)
      (hdead : (k.actors i).state = .dead)
      (hchild : k'.actors i = { freshActor (k.actors i) cr3 page entry with
        caps := ⟨capSend, c⟩ :: List.replicate (maxCapsPerActor - 1) .empty })
      (hspawner : k'.actors c = { k.actors c with
        spawnCount := (k.actors c).spawnCount + 1
        caps := addCapIfRoom (addCapIfRoom (k.actors c).caps capSend i) capTerminate i })
      (hother : ∀ s, s ≠ i → s ≠ c → k'.actors s = k.actors s) :
      ChildSpawn k c k' (some i) (some i)

theorem adoptChild_frame (k : Kernel D) (c i : Slot) : SpawnFrame k (adoptChild k c i) := by
  simp only [adoptChild, actorAddCap_fst]
  exact ⟨rfl, rfl, rfl⟩

/-- The parent/child grants, on the table. -/
theorem adoptChild_actors (k : Kernel D) {c i : Slot} (hne : c ≠ i) :
    (adoptChild k c i).actors i =
      { k.actors i with caps := addCapIfRoom (k.actors i).caps capSend c } ∧
    (adoptChild k c i).actors c =
      { k.actors c with
        spawnCount := (k.actors c).spawnCount + 1
        caps := addCapIfRoom (addCapIfRoom (k.actors c).caps capSend i) capTerminate i } ∧
    ∀ s, s ≠ i → s ≠ c → (adoptChild k c i).actors s = k.actors s := by
  simp only [adoptChild, actorAddCap_fst]
  refine ⟨?_, ?_, ?_⟩
  · simp [hne.symm]
  · simp [hne]
  · intro s hi hc
    simp [hi, hc]

/-- A raw spawn followed by the parent/child grants. -/
theorem RawSpawn.adopted {k k' : Kernel D} {c i : Slot} {taken : Option Slot}
    (h : RawSpawn k k' taken (some i)) (hlive : k.Live c) (hmay : MaySpawn k c) :
    ChildSpawn k c (adoptChild k' c i) taken (some i) := by
  cases h with
  | spawned _ cr3 page entry hdead h =>
      have hne : c ≠ i := by
        rintro rfl
        exact hlive hdead
      obtain ⟨hchild, hspawner, hother⟩ := adoptChild_actors k' hne
      refine .spawned i cr3 page entry hmay hdead ?_ ?_ ?_
      · rw [hchild, h]
        simp only [Function.update_self]
        rw [freshActor, addCapIfRoom_fresh]
      · rw [hspawner, h, Function.update_of_ne hne]
      · intro s hi hc
        rw [hother s hi hc, h, Function.update_of_ne hi]

/-- The slot the `actor_spawn` inside `actor_spawn_child` takes. -/
def childTaken (L : Layout) (k : Kernel D) (c : Slot) (entry : Nat) : Option Slot :=
  if MaySpawn k c then (actorSpawn L k entry).2 else none

/-- A raw spawn behind the check both checked spawns make. -/
theorem RawSpawn.checked {k k' : Kernel D} {c : Slot} {taken result : Option Slot}
    (h : RawSpawn k k' taken result) (hlive : k.Live c) (hmay : MaySpawn k c)
    {r : Kernel D × Option Slot}
    (hr : r = match (k', result) with
      | (k, none) => (k, none)
      | (k, some child) => (adoptChild k c child, some child)) :
    ChildSpawn k c r.1 taken r.2 := by
  subst hr
  cases hres : result with
  | none =>
      rw [hres] at h
      cases h with
      | refused h => exact .refused h
      | aborted i cr3 page entry hdead h => exact .aborted i cr3 page entry hmay hdead h
  | some i =>
      rw [hres] at h
      exact h.adopted hlive hmay

/-- The frame of a raw spawn and of the grants behind it. -/
theorem SpawnFrame.checked {k k' : Kernel D} {c : Slot} {result : Option Slot}
    (h : SpawnFrame k k') {r : Kernel D × Option Slot}
    (hr : r = match (k', result) with
      | (k, none) => (k, none)
      | (k, some child) => (adoptChild k c child, some child)) :
    SpawnFrame k r.1 := by
  subst hr
  cases result with
  | none => exact h
  | some i =>
      have hadopt := adoptChild_frame k' c i
      exact ⟨hadopt.current.trans h.current, hadopt.mode.trans h.mode,
        hadopt.store.trans h.store⟩

/-- `actor_spawn_child`. -/
theorem actorSpawnChild_spec (L : Layout) (k : Kernel D) {c : Slot} (hlive : k.Live c)
    (entry : Nat) :
    ChildSpawn k c (actorSpawnChild L k c entry).1 (childTaken L k c entry)
      (actorSpawnChild L k c entry).2 ∧
    SpawnFrame k (actorSpawnChild L k c entry).1 := by
  by_cases hmay : MaySpawn k c
  · have hr : actorSpawnChild L k c entry =
        match ((actorSpawn L k entry).1, (actorSpawn L k entry).2) with
        | (k, none) => (k, none)
        | (k, some child) => (adoptChild k c child, some child) :=
      if_neg (not_not.mpr hmay)
    rw [childTaken, if_pos hmay]
    exact ⟨(actorSpawn_raw L k entry).checked hlive hmay hr,
      (actorSpawn_frame L k entry).1.checked hr⟩
  · rw [childTaken, if_neg hmay, actorSpawnChild, if_pos hmay]
    exact ⟨.refused rfl, rfl, rfl, rfl⟩

/-- `actor_spawn_program_child`. -/
theorem actorSpawnProgramChild_spec (L : Layout) (k : Kernel D) {c : Slot} (hlive : k.Live c)
    (physBase physSize off : Nat) :
    ChildSpawn k c (actorSpawnProgramChild L k c physBase physSize off).1
      (childTaken L k c (programVbase + off))
      (actorSpawnProgramChild L k c physBase physSize off).2 ∧
    SpawnFrame k (actorSpawnProgramChild L k c physBase physSize off).1 := by
  by_cases hmay : MaySpawn k c
  · have hr : actorSpawnProgramChild L k c physBase physSize off =
        match ((actorSpawnProgram L k physBase physSize off).1,
          (actorSpawnProgram L k physBase physSize off).2) with
        | (k, none) => (k, none)
        | (k, some child) => (adoptChild k c child, some child) :=
      if_neg (not_not.mpr hmay)
    rw [childTaken, if_pos hmay]
    exact ⟨(actorSpawnProgram_raw L k physBase physSize off).checked hlive hmay hr,
      (actorSpawnProgram_frame L k physBase physSize off).checked hr⟩
  · rw [childTaken, if_neg hmay, actorSpawnProgramChild, if_pos hmay]
    exact ⟨.refused rfl, rfl, rfl, rfl⟩

/-- What `loader_spawn_program` has done before it spawns: it has read the disk
and placed a copy of the program, and the actor table is as it was. -/
structure Staged (k k' : Kernel D) : Prop where
  actors : k'.actors = k.actors
  current : k'.current = k.current
  mode : k'.mode = k.mode
  pool : k'.pool = k.pool

theorem loaderStage_staged (k : Kernel D) (id : Int) : Staged k (loaderStage k id).1 := by
  unfold loaderStage
  split
  · exact ⟨rfl, rfl, rfl, rfl⟩
  · dsimp only
    split
    · exact ⟨rfl, rfl, rfl, rfl⟩
    · split
      · exact ⟨rfl, rfl, rfl, rfl⟩
      · exact ⟨rfl, rfl, rfl, rfl⟩

/-- The slot the `actor_spawn` inside `loader_spawn_program` takes. -/
def loaderTaken (L : Layout) (k : Kernel D) (c : Slot) (id : Int) : Option Slot :=
  match loaderStage k id with
  | (_, none) => none
  | (k, some (_, image)) => childTaken L k c (programVbase + image.entryOffset)

/-- How a spawn ends depends on the state before only through the actor table. -/
theorem ChildSpawn.of_actors {k k1 k' : Kernel D} {c : Slot} {taken result : Option Slot}
    (hactors : k1.actors = k.actors) (h : ChildSpawn k1 c k' taken result) :
    ChildSpawn k c k' taken result := by
  have hmay : MaySpawn k1 c → MaySpawn k c := by
    simp only [MaySpawn, actorHasCap, hactors]
    exact id
  cases h with
  | refused h => exact .refused (h.trans hactors)
  | aborted i cr3 page entry hm hdead h =>
      rw [hactors] at hdead h
      exact .aborted i cr3 page entry (hmay hm) hdead h
  | spawned i cr3 page entry hm hdead hchild hspawner hother =>
      rw [hactors] at hdead hchild hspawner hother
      exact .spawned i cr3 page entry (hmay hm) hdead hchild hspawner hother

/-- `loader_spawn_program`. -/
theorem loaderSpawnProgram_spec (L : Layout) (k : Kernel D) {c : Slot} (hlive : k.Live c)
    (id : Int) :
    ChildSpawn k c (loaderSpawnProgram L k c id).1 (loaderTaken L k c id)
      (loaderSpawnProgram L k c id).2 ∧
    (loaderSpawnProgram L k c id).1.current = k.current ∧
    (loaderSpawnProgram L k c id).1.mode = k.mode := by
  have hstaged := loaderStage_staged k id
  unfold loaderSpawnProgram loaderTaken
  generalize loaderStage k id = r at hstaged ⊢
  obtain ⟨k1, staged⟩ := r
  cases staged with
  | none => exact ⟨.refused hstaged.actors, hstaged.current, hstaged.mode⟩
  | some staged =>
      obtain ⟨phys, image⟩ := staged
      have hlive1 : k1.Live c := by
        rw [Kernel.Live, hstaged.actors]
        exact hlive
      obtain ⟨hspawn, hframe⟩ := actorSpawnProgramChild_spec L k1 hlive1 phys
        (image.pages * 4096) image.entryOffset
      exact ⟨hspawn.of_actors hstaged.actors, hframe.current.trans hstaged.current,
        hframe.mode.trans hstaged.mode⟩

/-- The slot a system call fills, if it gets as far as a successful
`actor_spawn`. -/
def takenSlot (L : Layout) (k : Kernel D) (c : Slot) : Event D → Option Slot
  | .syscall call =>
      match Syscall.decode call.num with
      | some .spawn => childTaken L k c call.a1.toNat
      | some .spawnProgram =>
          if actorHasCap k c capReadObject (cInt call.a1) then loaderTaken L k c (cInt call.a1)
          else none
      | _ => none
  | _ => none

theorem takenSlot_of_call {L : Layout} {k : Kernel D} {c : Slot} {e : Event D} {sys : Syscall}
    {call : Call} (h : IsCall e sys call) (hs : sys ≠ .spawn) (hp : sys ≠ .spawnProgram) :
    takenSlot L k c e = none := by
  obtain ⟨rfl, hdecode⟩ := h
  cases sys <;> simp_all [takenSlot]

/-- The slot a recorded step put a new occupant in. -/
def spawnedInto (L : Layout) (t : Record D) : Option Slot :=
  t.pre.current.bind fun c => takenSlot L t.pre c t.event

/-- The table of a creator after the four grants of `SYS_CREATE_NAME`. -/
def creatorCaps (caps : List Capability) (id : Int) : List Capability :=
  [capReadObject, capWriteObject, capRenameObject, capDeleteObject].foldl
    (fun caps op => addCapIfRoom caps op id) caps

theorem grantCreator_eq (k : Kernel D) (c : Slot) (id : Int) :
    grantCreator k c id =
      k.setActor c { k.actors c with caps := creatorCaps (k.actors c).caps id } := by
  have hgrant : ∀ (k : Kernel D) op, (actorGrant k (c : Int) op id).1 =
      k.setActor c { k.actors c with caps := addCapIfRoom (k.actors c).caps op id } := by
    intro k op
    unfold actorGrant
    rw [show slotOf ((c : Nat) : Int) = some c from slotOf_val c]
    exact actorAddCap_fst k c op id
  simp [grantCreator, creatorCaps, hgrant, Kernel.setActor]

/-- `SYS_CREATE_NAME`: the store's answer, and on success four additions to the
creator's table. -/
theorem sysCreateName_cases (k : Kernel D) (c : Slot) (name : Nat → UInt8) :
    ((storageCreateNamed k.store name).2 < 0 ∧
      sysCreateName k c name = .value { k with store := (storageCreateNamed k.store name).1 }
        (cRet (-1))) ∨
    (0 ≤ (storageCreateNamed k.store name).2 ∧
      sysCreateName k c name = .value
        (({ k with store := (storageCreateNamed k.store name).1 } : Kernel D).setActor c
          { k.actors c with
            caps := creatorCaps (k.actors c).caps (storageCreateNamed k.store name).2 })
        (cRet (storageCreateNamed k.store name).2)) := by
  unfold sysCreateName
  dsimp only
  split
  · rename_i hneg
    exact Or.inl ⟨hneg, rfl⟩
  · rename_i hneg
    refine Or.inr ⟨by omega, ?_⟩
    rw [grantCreator_eq]

/-- `SYS_RECEIVE`: the caller blocks and another actor runs, or it takes its
oldest message. -/
theorem sysReceive_cases (k : Kernel D) (c : Slot) (out : Word) :
    ((k.actors c).mailboxCount = 0 ∧
      (sysReceive k c out).finish c =
        (scheduleNext (k.setActor c
          { k.actors c with state := .blocked, context := .receiving out }), .silent)) ∨
    ((k.actors c).mailboxCount ≠ 0 ∧
      (sysReceive k c out).finish c =
        (commitOut (k.setActor c (dequeue (k.actors c))) c
          (messageBytes out ((k.actors c).mailbox (k.actors c).mailboxHead)),
        ⟨some 0, messageBytes out ((k.actors c).mailbox (k.actors c).mailboxHead),
          some ((k.actors c).mailbox (k.actors c).mailboxHead)⟩)) := by
  by_cases hempty : (k.actors c).mailboxCount = 0
  · refine Or.inl ⟨hempty, ?_⟩
    simp [sysReceive, actorReceive, hempty, SysResult.switched, SysResult.finish, Outcome.silent]
  · refine Or.inr ⟨hempty, ?_⟩
    simp [sysReceive, actorReceive, hempty, SysResult.finish]

/-- The scheduler neither kills nor revives. -/
theorem scheduleNext_live (k : Kernel D) (s : Slot) : (scheduleNext k).Live s ↔ k.Live s := by
  obtain ⟨page, st, ctx, heq, hst, -⟩ := scheduleNext_actor k s
  rw [Kernel.Live, heq]
  rcases hst with rfl | ⟨hrun, rfl⟩
  · exact Iff.rfl
  · have hlive : k.Live s := by
      rcases hrun with hr | hr <;> simp [Kernel.Live, hr]
    exact iff_of_true (by simp) hlive

/-- Whoever is alive after a checked spawn was alive before it or is its child. -/
theorem ChildSpawn.live {k k' : Kernel D} {c : Slot} {taken result : Option Slot}
    (h : ChildSpawn k c k' taken result) {s : Slot} (hs : k'.Live s) :
    k.Live s ∨ taken = some s := by
  cases h with
  | refused h =>
      rw [Kernel.Live, h] at hs
      exact Or.inl hs
  | aborted i cr3 page entry _ hdead h =>
      by_cases hsi : s = i
      · exact Or.inr (by rw [hsi])
      · rw [Kernel.Live, h, Function.update_of_ne hsi] at hs
        exact Or.inl hs
  | spawned i cr3 page entry _ hdead hchild hspawner hother =>
      by_cases hsi : s = i
      · exact Or.inr (by rw [hsi])
      · by_cases hsc : s = c
        · subst hsc
          rw [Kernel.Live, hspawner] at hs
          exact Or.inl hs
        · rw [Kernel.Live, hother s hsi hsc] at hs
          exact Or.inl hs

/-- **Only a spawn revives a slot.** -/
theorem Stepped.live {L : Layout} {hal : Hal D} {k k' : Kernel D} {c : Slot} {e : Event D}
    {o : Outcome} (h : Stepped L hal k c e k' o) (hc : k.Live c) {s : Slot} (hs : k'.Live s) :
    k.Live s ∨ takenSlot L k c e = some s := by
  have hset : ∀ {k1 : Kernel D} {i : Slot} {a : Actor},
      k1.actors = Function.update k.actors i a → (a.state = (k.actors i).state ∨ k.Live i) →
      k1.Live s → k.Live s := by
    intro k1 i a hk1 hi hlive
    rw [Kernel.Live, hk1] at hlive
    by_cases hsi : s = i
    · subst hsi
      rw [Function.update_self] at hlive
      rcases hi with hi | hi
      · rwa [hi] at hlive
      · exact hi
    · rwa [Function.update_of_ne hsi] at hlive
  cases h with
  | tick | yield | exit =>
      exact Or.inl (hset rfl (Or.inr hc) ((scheduleNext_live _ s).mp hs))
  | @send _ call hcall =>
      rcases actorSend_cases k c (cInt call.a1) call.a2 call.a3 with
        heq | ⟨d, _, _, hlive, _, heq⟩
      · rw [heq] at hs
        exact Or.inl hs
      · rw [heq] at hs
        exact Or.inl (hset rfl (Or.inr hlive) hs)
  | receive out _ =>
      rcases sysReceive_cases k c out with ⟨_, heq⟩ | ⟨_, heq⟩
      · rw [heq] at hs
        exact Or.inl (hset rfl (Or.inr hc) ((scheduleNext_live _ s).mp hs))
      · rw [heq] at hs
        exact Or.inl (hset rfl (Or.inr hc) hs)
  | @grant _ call hcall =>
      rcases actorDelegate_cases k c (cInt call.a1) (cInt call.a2) (cInt call.a3) with
        heq | ⟨d, _, _, heq⟩
      · rw [heq] at hs
        exact Or.inl hs
      · rw [heq, actorAddCap_fst] at hs
        exact Or.inl (hset rfl (Or.inl (by rfl)) hs)
  | @spawn _ call hcall =>
      rcases (actorSpawnChild_spec L k hc call.a1.toNat).1.live hs with h | h
      · exact Or.inl h
      · obtain ⟨rfl, hdecode⟩ := hcall
        exact Or.inr (by simpa [takenSlot, hdecode] using h)
  | @spawnProgram _ call hcall hcap =>
      rcases (loaderSpawnProgram_spec L k hc (cInt call.a1)).1.live hs with h | h
      · exact Or.inl h
      · obtain ⟨rfl, hdecode⟩ := hcall
        exact Or.inr (by simpa [takenSlot, hdecode, hcap] using h)
  | @terminate _ call hcall =>
      rcases actorTerminate_cases k c (cInt call.a1) with heq | ⟨t, _, _, _, heq⟩
      · rw [heq] at hs
        exact Or.inl hs
      · rw [heq] at hs
        by_cases hst : s = t
        · subst hst
          simp [Kernel.Live] at hs
        · simp only [Kernel.Live, setState_actors, Function.update_of_ne hst] at hs
          exact Or.inl hs
  | @createName _ call hcall hcap =>
      rcases sysCreateName_cases k c (userBytes k c call.a1) with ⟨_, heq⟩ | ⟨_, heq⟩
      · rw [heq] at hs
        exact Or.inl hs
      · rw [heq] at hs
        exact Or.inl (hset rfl (Or.inr hc) hs)
  | quietCall _ _ hquiet =>
      rw [Kernel.Live, hquiet.actors] at hs
      exact Or.inl hs
  | programDenied | createDenied | unknown | store | device | fault => exact Or.inl hs

/-- **What a call of `kernel_main` does**: it spawns, changes the object store,
grants, or sets a quota or a window. -/
theorem setupStep_cases (L : Layout) (k : Kernel D) (op : SetupOp) :
    (∃ entry, op = .spawn entry ∧ setupStep L k op = (actorSpawn L k entry).1) ∨
    (∃ st, setupStep L k op = { k with store := st }) ∨
    (∃ d : Slot, ∃ right target, op = .grant (d : Nat) right target ∧ setupStep L k op =
      k.setActor d { k.actors d with
        caps := addCapIfRoom (k.actors d).caps right target }) ∨
    (∃ s quota win, setupStep L k op =
      k.setActor s { k.actors s with spawnQuota := quota, window := win }) := by
  cases op with
  | spawn entry => exact Or.inl ⟨entry, rfl, rfl⟩
  | createObject name => exact Or.inr (Or.inl ⟨_, rfl⟩)
  | seedObject name bytes => exact Or.inr (Or.inl ⟨_, rfl⟩)
  | grant dest right target =>
      cases hdest : slotOf dest with
      | none => exact Or.inr (Or.inl ⟨k.store, by simp [setupStep, actorGrant, hdest]⟩)
      | some d =>
          refine Or.inr (Or.inr (Or.inl ⟨d, right, target, ?_, ?_⟩))
          · rw [slotOf_eq_some.mp hdest]
          · simp only [setupStep, actorGrant, hdest]
            exact actorAddCap_fst k d right target
  | setSpawnQuota slot quota =>
      cases hslot : slotOf slot with
      | none => exact Or.inr (Or.inl ⟨k.store, by simp [setupStep, actorSetSpawnQuota, hslot]⟩)
      | some s =>
          exact Or.inr (Or.inr (Or.inr ⟨s, quota, (k.actors s).window,
            by simp [setupStep, actorSetSpawnQuota, hslot]⟩))
  | setWindow slot win =>
      cases hslot : slotOf slot with
      | none => exact Or.inr (Or.inl ⟨k.store, by simp [setupStep, actorSetWindow, hslot]⟩)
      | some s =>
          exact Or.inr (Or.inr (Or.inr ⟨s, (k.actors s).spawnQuota, win,
            by simp [setupStep, actorSetWindow, hslot]⟩))

/-- The induction rule for the setup. -/
theorem setupState_induction {L : Layout} {b : Boot D} {P : Kernel D → Prop}
    (hstart : P (powerOn b))
    (hnext : ∀ k op, op ∈ kernelMainOps b → P k → P (setupStep L k op)) (n : Nat) :
    P (setupState L b n) := by
  have hfold : ∀ (ops : List SetupOp) (k : Kernel D), (∀ op ∈ ops, op ∈ kernelMainOps b) → P k →
      P (ops.foldl (setupStep L) k) := by
    intro ops
    induction ops with
    | nil =>
        intro k _ hk
        exact hk
    | cons op rest ih =>
        intro k hmem hk
        exact ih _ (fun o ho => hmem o (List.mem_cons_of_mem _ ho))
          (hnext k op (hmem op List.mem_cons_self) hk)
  exact hfold _ _ (fun op hop => List.mem_of_mem_take hop) hstart

theorem setupState_succ (L : Layout) (b : Boot D) (n : Nat) :
    setupState L b (n + 1) =
      match (kernelMainOps b)[n]? with
      | none => setupState L b n
      | some op => setupStep L (setupState L b n) op := by
  unfold setupState
  rw [List.take_add_one, List.foldl_append]
  cases (kernelMainOps b)[n]? with
  | none => rfl
  | some op => rfl

/-- The state `kernel_main` leaves is the last state of the setup. -/
theorem kernelMain_eq_setupState (L : Layout) (b : Boot D) :
    kernelMain L b = setupState L b (kernelMainOps b).length := by
  rw [kernelMain, setupState, List.take_length]

end Vajra
