import Vajra.StoreOperations

/-!
# The bytes of an object

Two machines that differ in the data sectors of one object only (`Alike`; what the staging
buffer holds from earlier requests may differ too) answer every event alike, and go on
differing in those places only, unless the current actor may read the object and it is not
rejected.  So nothing of the object reaches that actor, its memory or a program it spawns.
Pointers the kernel reads through lead to `memory`, which holds neither the disk nor the
staging buffer: a caller that points the kernel at the staging buffer itself is not covered.

Every operation of `core/actor.c` commutes with the replacement of the store
(`Kernel.withStore`); the operations of `core/storage.c` are looked at one by one.
-/

namespace Vajra

open ByteMemory TransitionTrace

variable {D : Type}

/-- Two disks that differ at most in the data sectors of object `id`. -/
structure DiskAlike (id : Nat) (d d' : Disk) : Prop where
  outcome : d'.outcome = d.outcome
  requests : d'.requests = d.requests
  data : ∀ s, ¬ DataSector id s → d'.sector s = d.sector s

/-- Two stores that differ at most in the data sectors of object `id` and in the staging
buffer. -/
structure Alike (id : Nat) (st st' : Store) : Prop where
  objects : st'.objects = st.objects
  count : st'.objectCount = st.objectCount
  scratch : ∀ i, objectMaxBytes ≤ i → st'.scratch i = st.scratch i
  disk : DiskAlike id st.disk st'.disk

/-- An operation gives the same answer on both stores and leaves them alike. -/
def AnswersAlike {α : Type} (id : Nat) (r r' : Store × α) : Prop :=
  Alike id r.1 r'.1 ∧ r'.2 = r.2

variable {id : Nat} {st st' : Store}

theorem Alike.live (h : Alike id st st') (j : Nat) : st'.Live j ↔ st.Live j := by
  rw [Store.Live, Store.Live, h.objects]

theorem Alike.valid (h : Alike id st st') (j : Int) : st'.Valid j ↔ st.Valid j := by
  rw [Store.Valid, Store.Valid, h.live]

theorem Alike.named (h : Alike id st st') (j : Int) : st'.Named j ↔ st.Named j := by
  rw [Store.Named, Store.Named, h.live, h.count]

theorem Alike.findByName (h : Alike id st st') (name : Nat → UInt8) :
    findByName st' name = findByName st name := by
  obtain ⟨_, _, scratch', disk'⟩ := st'
  obtain ⟨rfl, rfl, _, _⟩ := h
  rfl

/-- The same request ends the same way on both disks. -/
theorem halDiskWrite_alike {d d' : Disk} (h : DiskAlike id d d') (lba count : Nat)
    (buf : Nat → UInt8) :
    DiskAlike id (halDiskWrite d lba count buf).1 (halDiskWrite d' lba count buf).1 ∧
      (halDiskWrite d' lba count buf).2 = (halDiskWrite d lba count buf).2 := by
  have hput : ∀ n s, ¬ DataSector id s → d'.put lba n buf s = d.put lba n buf s := by
    intro n s hs
    funext i
    simp only [Disk.put, h.data s hs]
  unfold halDiskWrite
  rw [h.outcome, h.requests]
  split
  · exact ⟨h, rfl⟩
  · split
    · exact ⟨⟨rfl, rfl, hput _⟩, rfl⟩
    · exact ⟨⟨rfl, rfl, hput _⟩, rfl⟩

theorem directorySave_alike (h : Alike id st st') :
    Alike id (directorySave st) (directorySave st') := by
  have hbyte : directoryByte st' = directoryByte st := by
    funext off
    simp only [directoryByte, h.objects, h.count]
  refine ⟨h.objects, h.count, h.scratch, ?_⟩
  unfold directorySave
  rw [hbyte]
  exact (halDiskWrite_alike h.disk _ _ _).1

theorem modify_alike (h : Alike id st st') (j : Nat) (f : Object → Object) :
    Alike id (st.modify j f) (st'.modify j f) := by
  refine ⟨?_, h.count, h.scratch, h.disk⟩
  simp only [Store.modify, h.objects]

/-- A read that does not concern the object. -/
theorem storageRead_alike (hinv : StoreInv st) (h : Alike id st st') {j : Int} (len : Nat)
    (hj : j = id → ¬ st.Readable j) :
    AnswersAlike id (storageRead st j len) (storageRead st' j len) := by
  have hreadable : st'.Readable j ↔ st.Readable j := by
    rw [Store.Readable, Store.Readable, h.valid, h.objects]
  by_cases hread : st.Readable j
  swap
  · rw [storageRead_refused hread, storageRead_refused (hreadable.not.mpr hread)]
    exact ⟨h, rfl⟩
  have hne : j.toNat ≠ id := by
    intro heq
    have hnonneg := hread.1.1
    exact hj (by omega) hread
  -- The four sectors that are read belong to another object.
  have hstaged : st'.staged j.toNat = st.staged j.toNat := by
    funext i
    unfold Store.staged
    by_cases hi : i < objectMaxBytes
    · rw [if_pos hi, if_pos hi, h.objects, hread.1.lba hinv, Disk.bytes, Disk.bytes, h.disk.data]
      exact fun hin => hne ((dataSector_of_byte j.toNat hi).unique hin)
    · rw [if_neg hi, if_neg hi, h.scratch i (Nat.le_of_not_lt hi)]
  have hcounted : DiskAlike id { st.disk with requests := st.disk.requests + 1 }
      { st'.disk with requests := st'.disk.requests + 1 } :=
    ⟨h.disk.outcome, by rw [h.disk.requests], h.disk.data⟩
  have hsize : (st'.objects j.toNat).sizeBytes = (st.objects j.toNat).sizeBytes := by
    rw [h.objects]
  have hend : st'.disk.outcome st'.disk.requests = st.disk.outcome st.disk.requests := by
    rw [h.disk.outcome, h.disk.requests]
  rw [storageRead_readable hread, storageRead_readable (hreadable.mpr hread), hend, hstaged, hsize]
  split
  · exact ⟨⟨h.objects, h.count, fun _ _ => rfl, hcounted⟩, rfl⟩
  · exact ⟨⟨h.objects, h.count, h.scratch, hcounted⟩, rfl⟩

theorem storageWrite_alike (h : Alike id st st') (j : Int) (buf : Nat → UInt8) (len : Nat) :
    AnswersAlike id (storageWrite st j buf len) (storageWrite st' j buf len) := by
  obtain ⟨_, _, scratch', disk'⟩ := st'
  obtain ⟨rfl, rfl, hold, hdisk⟩ := h
  dsimp only at hold hdisk
  have hscratch : (fun i => if i < objectMaxBytes then (if i < len then buf i else 0)
        else scratch' i) =
      fun i => if i < objectMaxBytes then (if i < len then buf i else 0) else st.scratch i := by
    funext i
    by_cases hi : i < objectMaxBytes
    · rw [if_pos hi, if_pos hi]
    · rw [if_neg hi, if_neg hi, hold i (Nat.le_of_not_lt hi)]
  unfold storageWrite
  simp only [Store.Valid, Store.Live, hscratch]
  split
  · exact ⟨⟨rfl, rfl, hold, hdisk⟩, rfl⟩
  split
  · exact ⟨⟨rfl, rfl, hold, hdisk⟩, rfl⟩
  generalize (fun i => if i < objectMaxBytes then (if i < len then buf i else 0)
    else st.scratch i) = scratch
  obtain ⟨hdisk', hrc⟩ := halDiskWrite_alike hdisk (st.objects j.toNat).lba sectorsPerObject scratch
  have hstaged : Alike id
      ⟨st.objects, st.objectCount, scratch,
        (halDiskWrite st.disk (st.objects j.toNat).lba sectorsPerObject scratch).1⟩
      ⟨st.objects, st.objectCount, scratch,
        (halDiskWrite disk' (st.objects j.toNat).lba sectorsPerObject scratch).1⟩ :=
    ⟨rfl, rfl, fun _ _ => rfl, hdisk'⟩
  rw [hrc]
  split
  · exact ⟨hstaged, rfl⟩
  · exact ⟨directorySave_alike (modify_alike hstaged _ _), rfl⟩

theorem storagePromote_alike (h : Alike id st st') (j : Int) :
    AnswersAlike id (storagePromote st j) (storagePromote st' j) := by
  have hsaved := directorySave_alike
    (modify_alike h j.toNat fun obj => { obj with trust := obj.trust + 1 })
  unfold storagePromote
  simp only [h.valid, h.objects]
  split
  · exact ⟨h, rfl⟩
  split
  · exact ⟨h, rfl⟩
  · exact ⟨hsaved, rfl⟩

theorem storageReject_alike (h : Alike id st st') (j : Int) :
    AnswersAlike id (storageReject st j) (storageReject st' j) := by
  have hsaved := directorySave_alike
    (modify_alike h j.toNat fun obj => { obj with trust := objRejected })
  unfold storageReject
  simp only [h.valid]
  split
  · exact ⟨h, rfl⟩
  · exact ⟨hsaved, rfl⟩

theorem storageRename_alike (h : Alike id st st') (j : Int) (newName : Nat → UInt8) :
    AnswersAlike id (storageRename st j newName) (storageRename st' j newName) := by
  have hsaved := directorySave_alike
    (modify_alike h j.toNat fun obj => { obj with name := copyName newName obj.name })
  unfold storageRename
  simp only [h.named, h.findByName]
  split
  · exact ⟨h, rfl⟩
  split
  · split
    · exact ⟨h, rfl⟩
    · exact ⟨hsaved, rfl⟩
  · exact ⟨hsaved, rfl⟩

theorem storageDelete_alike (h : Alike id st st') (j : Int) :
    AnswersAlike id (storageDelete st j) (storageDelete st' j) := by
  have hsaved := directorySave_alike
    (modify_alike h j.toNat fun obj =>
      { obj with inUse := 0, name := Function.update obj.name 0 0, sizeBytes := 0,
                 trust := objUntrusted })
  unfold storageDelete
  simp only [h.named]
  split
  · exact ⟨h, rfl⟩
  · exact ⟨hsaved, rfl⟩

theorem storageCreateNamed_alike (h : Alike id st st') (name : Nat → UInt8) :
    AnswersAlike id (storageCreateNamed st name) (storageCreateNamed st' name) := by
  have hpick : pickObject st' = pickObject st := by
    obtain ⟨_, _, scratch', disk'⟩ := st'
    obtain ⟨rfl, rfl, _, _⟩ := h
    rfl
  unfold storageCreateNamed
  rw [h.findByName]
  split
  · exact ⟨h, rfl⟩
  unfold allocObject
  rw [hpick]
  split
  · exact ⟨h, rfl⟩
  · rename_i j _
    have hgrown : Alike id { st with objectCount := max st.objectCount (j + 1) }
        { st' with objectCount := max st'.objectCount (j + 1) } :=
      ⟨h.objects, by rw [h.count], h.scratch, h.disk⟩
    exact ⟨directorySave_alike (modify_alike hgrown _ _), rfl⟩

/-- The same kernel with another object store. -/
def Kernel.withStore (k : Kernel D) (st : Store) : Kernel D := { k with store := st }

section WithStore

variable (k : Kernel D) (st : Store)

@[simp] theorem withStore_actors : (k.withStore st).actors = k.actors := rfl
@[simp] theorem withStore_current : (k.withStore st).current = k.current := rfl
@[simp] theorem withStore_memory : (k.withStore st).memory = k.memory := rfl
@[simp] theorem withStore_pool : (k.withStore st).pool = k.pool := rfl
@[simp] theorem withStore_store : (k.withStore st).store = st := rfl
@[simp] theorem withStore_mode : (k.withStore st).mode = k.mode := rfl
@[simp] theorem withStore_setActor (s : Slot) (a : Actor) :
    (k.withStore st).setActor s a = (k.setActor s a).withStore st := rfl
@[simp] theorem withStore_setState (s : Slot) (state : ActorState) :
    (k.withStore st).setState s state = (k.setState s state).withStore st := rfl

theorem reapActor_withStore (i : Slot) :
    reapActor (k.withStore st) i = (reapActor k i).withStore st := by
  by_cases hcur : k.current = some i
  · simp [reapActor, hcur]
  · simp only [reapActor, withStore_current, hcur, if_false, withStore_actors, withStore_memory]
    split <;> rfl

theorem reapDeadActors_withStore :
    reapDeadActors (k.withStore st) = (reapDeadActors k).withStore st := by
  unfold reapDeadActors
  generalize List.finRange maxActors = slots
  induction slots generalizing k with
  | nil => rfl
  | cons i rest ih => rw [List.foldl_cons, List.foldl_cons, reapActor_withStore, ih]

theorem scheduleNext_withStore :
    scheduleNext (k.withStore st) = (scheduleNext k).withStore st := by
  unfold scheduleNext
  rw [reapDeadActors_withStore]
  generalize reapDeadActors k = reaped
  have hnext : nextRunnable (reaped.withStore st) ((reaped.withStore st).current.getD 0) =
      nextRunnable reaped (reaped.current.getD 0) := rfl
  dsimp only
  rw [hnext]
  cases nextRunnable reaped (reaped.current.getD 0) with
  | none => rfl
  | some next =>
      by_cases hcur : reaped.current = some next
      · simp only [switchTo, withStore_current, hcur, if_true]
        rfl
      · simp only [switchTo, withStore_current, hcur, if_false]
        rfl

theorem actorYield_withStore (c : Slot) :
    actorYield (k.withStore st) c = (actorYield k c).withStore st :=
  scheduleNext_withStore (k.setState c .ready) st

theorem actorExit_withStore (c : Slot) :
    actorExit (k.withStore st) c = (actorExit k c).withStore st :=
  scheduleNext_withStore (k.setState c .dead) st

theorem actorSend_withStore (c : Slot) (dest : Int) (type data : Word) :
    actorSend (k.withStore st) c dest type data =
      ((actorSend k c dest type data).1.withStore st, (actorSend k c dest type data).2) := by
  unfold actorSend
  cases slotOf dest with
  | none => rfl
  | some d =>
      by_cases hcap : actorHasCap k c capSend dest = true
      swap
      · have hcap' : ¬ actorHasCap (k.withStore st) c capSend dest = true := hcap
        simp [hcap, hcap']
      have hcap' : actorHasCap (k.withStore st) c capSend dest = true := hcap
      by_cases hdead : (k.actors d).state = .dead
      · simp [hcap, hcap', hdead]
      by_cases hfull : mailboxCapacity ≤ (k.actors d).mailboxCount
      · simp [hcap, hcap', hdead, hfull]
      · simp [hcap, hcap', hdead, hfull]

theorem actorReceive_withStore (c : Slot) (out : Word) :
    actorReceive (k.withStore st) c out =
      ((actorReceive k c out).1.withStore st, (actorReceive k c out).2) := by
  unfold actorReceive
  by_cases hempty : (k.actors c).mailboxCount = 0
  · simp [hempty, scheduleNext_withStore]
  · simp [hempty]

theorem actorAddCap_withStore (s : Slot) (op target : Int) :
    actorAddCap (k.withStore st) s op target =
      ((actorAddCap k s op target).1.withStore st, (actorAddCap k s op target).2) := by
  unfold actorAddCap
  simp only [withStore_actors]
  split <;> rfl

theorem actorDelegate_withStore (c : Slot) (dest op target : Int) :
    actorDelegate (k.withStore st) c dest op target =
      ((actorDelegate k c dest op target).1.withStore st,
        (actorDelegate k c dest op target).2) := by
  unfold actorDelegate
  cases slotOf dest with
  | none => rfl
  | some d =>
      by_cases hcap : actorHasCap k c op target = true
      · have hcap' : actorHasCap (k.withStore st) c op target = true := hcap
        simp only [hcap, hcap', if_true]
        exact actorAddCap_withStore k st d op target
      · have hcap' : ¬ actorHasCap (k.withStore st) c op target = true := hcap
        simp [hcap, hcap']

theorem actorTerminate_withStore (c : Slot) (target : Int) :
    actorTerminate (k.withStore st) c target =
      ((actorTerminate k c target).1.withStore st, (actorTerminate k c target).2) := by
  unfold actorTerminate
  cases slotOf target with
  | none => rfl
  | some t =>
      by_cases hself : t = c
      · simp [hself]
      by_cases hcap : actorHasCap k c capTerminate target = true
      · have hcap' : actorHasCap (k.withStore st) c capTerminate target = true := hcap
        simp [hself, hcap, hcap']
      · have hcap' : ¬ actorHasCap (k.withStore st) c capTerminate target = true := hcap
        simp [hself, hcap, hcap']

theorem actorSpawn_withStore (L : Layout) (entry : Nat) :
    actorSpawn L (k.withStore st) entry =
      ((actorSpawn L k entry).1.withStore st, (actorSpawn L k entry).2) := by
  have hfree : freeSlot (k.withStore st) = freeSlot k := rfl
  unfold actorSpawn
  rw [hfree]
  simp only [withStore_actors, withStore_memory]
  split
  · rfl
  · split
    · rfl
    · split <;> rfl

theorem adoptChild_withStore (c i : Slot) :
    adoptChild (k.withStore st) c i = (adoptChild k c i).withStore st := by
  simp only [adoptChild, actorAddCap_fst]
  rfl

theorem actorSpawnProgram_withStore (L : Layout) (physBase physSize off : Nat) :
    actorSpawnProgram L (k.withStore st) physBase physSize off =
      ((actorSpawnProgram L k physBase physSize off).1.withStore st,
        (actorSpawnProgram L k physBase physSize off).2) := by
  unfold actorSpawnProgram
  rw [actorSpawn_withStore]
  generalize actorSpawn L k (programVbase + off) = r
  obtain ⟨k1, slot⟩ := r
  cases slot with
  | none => rfl
  | some slot =>
      have hmap : halAddressSpaceMapProgram L (k1.withStore st).memory.ram (k1.withStore st).pool
          slot physBase physSize =
          halAddressSpaceMapProgram L k1.memory.ram k1.pool slot physBase physSize := rfl
      dsimp only
      rw [hmap]
      generalize halAddressSpaceMapProgram L k1.memory.ram k1.pool slot physBase physSize = r
      obtain ⟨ram, pool, rc⟩ := r
      dsimp only
      by_cases hrc : rc ≠ 0
      · rw [if_pos hrc, if_pos hrc]
        rfl
      · rw [if_neg hrc, if_neg hrc]
        rfl

/-- The check and the grants around a spawn commute with the replacement. -/
theorem checkedSpawn_withStore (c : Slot) (r : Kernel D × Option Slot) :
    (match (r.1.withStore st, r.2) with
      | (k, none) => (k, none)
      | (k, some child) => (adoptChild k c child, some child)) =
    ((match r with
      | (k, none) => (k, none)
      | (k, some child) => (adoptChild k c child, some child) : Kernel D × Option Slot).1.withStore
        st,
     (match r with
      | (k, none) => (k, none)
      | (k, some child) => (adoptChild k c child, some child) : Kernel D × Option Slot).2) := by
  obtain ⟨k1, slot⟩ := r
  cases slot with
  | none => rfl
  | some child => exact Prod.ext (adoptChild_withStore k1 st c child) rfl

theorem actorSpawnChild_withStore (L : Layout) (c : Slot) (entry : Nat) :
    actorSpawnChild L (k.withStore st) c entry =
      ((actorSpawnChild L k c entry).1.withStore st, (actorSpawnChild L k c entry).2) := by
  have hmay : MaySpawn (k.withStore st) c ↔ MaySpawn k c := Iff.rfl
  unfold actorSpawnChild
  simp only [hmay]
  split
  · rfl
  · rw [actorSpawn_withStore]
    exact checkedSpawn_withStore st c _

theorem actorSpawnProgramChild_withStore (L : Layout) (c : Slot) (physBase physSize off : Nat) :
    actorSpawnProgramChild L (k.withStore st) c physBase physSize off =
      ((actorSpawnProgramChild L k c physBase physSize off).1.withStore st,
        (actorSpawnProgramChild L k c physBase physSize off).2) := by
  have hmay : MaySpawn (k.withStore st) c ↔ MaySpawn k c := Iff.rfl
  unfold actorSpawnProgramChild
  simp only [hmay]
  split
  · rfl
  · rw [actorSpawnProgram_withStore]
    exact checkedSpawn_withStore st c _

theorem grantCreator_withStore (c : Slot) (id : Int) :
    grantCreator (k.withStore st) c id = (grantCreator k c id).withStore st := by
  rw [grantCreator_eq, grantCreator_eq]
  rfl

end WithStore

/-- Two results that differ in the object store only, and there alike. -/
def ResultsAlike (id : Nat) (r r' : SysResult D) : Prop :=
  ∃ st', Alike id r.kernel.store st' ∧ r' = { r with kernel := r.kernel.withStore st' }

variable {k : Kernel D}

theorem ResultsAlike.stored {id : Nat} {st : Store} {r r' : Store × Int}
    (h : AnswersAlike id r r') :
    ResultsAlike id (SysResult.stored k r) (SysResult.stored (k.withStore st) r') := by
  refine ⟨r'.1, h.1, ?_⟩
  rw [SysResult.stored, h.2]
  rfl

theorem ResultsAlike.guarded {id : Nat} {st : Store} {c : Slot} {op target : Int}
    {r r' : SysResult D} (hst : Alike id k.store st)
    (h : actorHasCap k c op target = true → ResultsAlike id r r') :
    ResultsAlike id (guarded k c op target r) (guarded (k.withStore st) c op target r') := by
  have hsame : actorHasCap (k.withStore st) c op target = actorHasCap k c op target := rfl
  unfold Vajra.guarded
  rw [hsame]
  split
  · rename_i hcap
    exact h hcap
  · exact ⟨st, hst, rfl⟩

theorem sysReceive_withStore (k : Kernel D) (st : Store) (c : Slot) (out : Word) :
    sysReceive (k.withStore st) c out =
      { sysReceive k c out with kernel := (sysReceive k c out).kernel.withStore st } := by
  unfold sysReceive
  rw [actorReceive_withStore]
  generalize actorReceive k c out = r
  obtain ⟨k1, m⟩ := r
  cases m with
  | none => rfl
  | some m => rfl

theorem sysReceive_store (k : Kernel D) (c : Slot) (out : Word) :
    (sysReceive k c out).kernel.store = k.store := by
  unfold sysReceive actorReceive
  by_cases hempty : (k.actors c).mailboxCount = 0
  · simp only [hempty, if_true, SysResult.switched]
    exact scheduleNext_store _
  · simp only [hempty, if_false]
    rfl

theorem sysNetReceive_alike {id : Nat} {st : Store} (hal : Hal D) (hst : Alike id k.store st)
    (c : Slot) (out : Word) (maxSpins : Nat) :
    ResultsAlike id (sysNetReceive hal k c out maxSpins)
      (sysNetReceive hal (k.withStore st) c out maxSpins) := by
  have hpoll : netPollReceiveMessage hal (k.withStore st).net (k.withStore st).dev
      (BitVec.ofNat 64 c) maxSpins =
      netPollReceiveMessage hal k.net k.dev (BitVec.ofNat 64 c) maxSpins := rfl
  unfold sysNetReceive
  rw [hpoll]
  generalize netPollReceiveMessage hal k.net k.dev (BitVec.ofNat 64 c) maxSpins = r
  obtain ⟨dev, rc, m⟩ := r
  cases m with
  | none => exact ⟨st, hst, rfl⟩
  | some m => exact ⟨st, hst, rfl⟩

theorem sysObjectRead_alike {id : Nat} {st : Store} (hinv : StoreInv k.store)
    (hst : Alike id k.store st) {j : Int} (buf : Word) (len : Nat)
    (hj : j = id → ¬ k.store.Readable j) :
    ResultsAlike id (sysObjectRead k j buf len) (sysObjectRead (k.withStore st) j buf len) := by
  obtain ⟨halike, hsame⟩ := storageRead_alike hinv hst len hj
  unfold sysObjectRead
  rw [withStore_store]
  generalize storageRead st j len = r' at halike hsame
  generalize storageRead k.store j len = r at halike hsame
  obtain ⟨st1, bytes⟩ := r
  obtain ⟨st2, bytes'⟩ := r'
  cases hsame
  cases bytes with
  | none => exact ⟨st2, halike, rfl⟩
  | some bytes => exact ⟨st2, halike, rfl⟩

theorem sysCreateName_alike {id : Nat} {st : Store} (hst : Alike id k.store st) (c : Slot)
    (name : Nat → UInt8) :
    ResultsAlike id (sysCreateName k c name) (sysCreateName (k.withStore st) c name) := by
  obtain ⟨halike, hsame⟩ := storageCreateNamed_alike hst name
  unfold sysCreateName
  rw [withStore_store]
  generalize storageCreateNamed st name = r' at halike hsame
  generalize storageCreateNamed k.store name = r at halike hsame
  obtain ⟨st1, j⟩ := r
  obtain ⟨st2, j'⟩ := r'
  cases hsame
  dsimp only at halike ⊢
  split
  · exact ⟨st2, halike, rfl⟩
  · refine ⟨st2, ?_, ?_⟩
    · rw [SysResult.value, grantCreator_eq]
      exact halike
    · simp only [SysResult.value, ← grantCreator_withStore]
      rfl

theorem sysListObjects_alike {id : Nat} {st : Store} (hst : Alike id k.store st) (index : Int)
    (out : Word) (residue : Nat → UInt8) :
    ResultsAlike id (sysListObjects k index out residue)
      (sysListObjects (k.withStore st) index out residue) := by
  have hsame : storageGetByIndex st index residue = storageGetByIndex k.store index residue := by
    obtain ⟨_, _, scratch', disk'⟩ := st
    obtain ⟨hobjects, hcount, _, _⟩ := hst
    dsimp only at hobjects hcount
    subst hobjects hcount
    rfl
  unfold sysListObjects
  rw [withStore_store, hsame]
  split
  · exact ⟨st, hst, rfl⟩
  · exact ⟨st, hst, rfl⟩

theorem loaderSpawnProgram_alike {L : Layout} {id : Nat} {st : Store} (hinv : StoreInv k.store)
    (hst : Alike id k.store st) {j : Int} (c : Slot) (hlive : k.Live c)
    (hj : j = id → ¬ k.store.Readable j) :
    ∃ st', Alike id (loaderSpawnProgram L k c j).1.store st' ∧
      loaderSpawnProgram L (k.withStore st) c j =
        ((loaderSpawnProgram L k c j).1.withStore st', (loaderSpawnProgram L k c j).2) := by
  obtain ⟨halike, hsame⟩ := storageRead_alike hinv hst objectMaxBytes hj
  refine ⟨(storageRead st j objectMaxBytes).1, ?_, ?_⟩
  · rw [loaderSpawnProgram_store L k hlive j]
    exact halike
  have hstage : loaderStage (k.withStore st) j =
      ((loaderStage k j).1.withStore (storageRead st j objectMaxBytes).1,
        (loaderStage k j).2) := by
    unfold loaderStage
    rw [withStore_store]
    generalize storageRead st j objectMaxBytes = r' at hsame
    generalize storageRead k.store j objectMaxBytes = r at hsame
    obtain ⟨st1, bytes⟩ := r
    obtain ⟨st2, bytes'⟩ := r'
    cases hsame
    cases bytes with
    | none => rfl
    | some bytes =>
        dsimp only
        cases parseProgram bytes with
        | none => rfl
        | some image =>
            dsimp only [withStore_memory]
            generalize allocDmaPages k.memory image.pages = m
            obtain ⟨m1, phys⟩ := m
            cases phys with
            | none => rfl
            | some phys => rfl
  unfold loaderSpawnProgram
  rw [hstage]
  generalize loaderStage k j = r
  obtain ⟨k1, staged⟩ := r
  cases staged with
  | none => rfl
  | some staged => exact actorSpawnProgramChild_withStore k1 _ L c _ _ _

/-- Every system call answers alike, if it is not made by a reader of the object. -/
theorem syscallDispatch_alike (L : Layout) (hal : Hal D) {id : Nat} {st : Store} {c : Slot}
    (hinv : StoreInv k.store) (hst : Alike id k.store st) (hlive : k.Live c)
    (hsecret : actorHasCap k c capReadObject id = true → ¬ k.store.Readable id) (call : Call)
    (sys : Syscall) :
    ResultsAlike id (syscallDispatch L hal k c call sys)
      (syscallDispatch L hal (k.withStore st) c call sys) := by
  have hread : ∀ j, actorHasCap k c capReadObject j = true → j = (id : Int) →
      ¬ k.store.Readable j := by
    rintro j hcap rfl
    exact hsecret hcap
  cases sys with
  | write | rtcRead => exact ⟨st, hst, rfl⟩
  | yield =>
      simp only [syscallDispatch, actorYield_withStore]
      refine ⟨st, ?_, rfl⟩
      rw [SysResult.switched, actorYield, scheduleNext_store]
      exact hst
  | exit =>
      simp only [syscallDispatch, actorExit_withStore]
      refine ⟨st, ?_, rfl⟩
      rw [SysResult.switched, actorExit, scheduleNext_store]
      exact hst
  | send =>
      simp only [syscallDispatch, actorSend_withStore]
      refine ⟨st, ?_, rfl⟩
      rcases actorSend_cases k c (cInt call.a1) call.a2 call.a3 with heq | ⟨_, _, _, _, _, heq⟩
      · rw [heq]
        exact hst
      · rw [heq]
        exact hst
  | receive =>
      simp only [syscallDispatch, sysReceive_withStore]
      refine ⟨st, ?_, rfl⟩
      rw [sysReceive_store]
      exact hst
  | grant =>
      simp only [syscallDispatch, actorDelegate_withStore]
      refine ⟨st, ?_, rfl⟩
      rcases actorDelegate_cases k c (cInt call.a1) (cInt call.a2) (cInt call.a3) with
        heq | ⟨_, _, _, heq⟩
      · rw [heq]
        exact hst
      · rw [heq, actorAddCap_fst]
        exact hst
  | spawn =>
      simp only [syscallDispatch, actorSpawnChild_withStore]
      refine ⟨st, ?_, rfl⟩
      rw [SysResult.value, (actorSpawnChild_spec L k hlive call.a1.toNat).2.store]
      exact hst
  | terminate =>
      simp only [syscallDispatch, actorTerminate_withStore]
      refine ⟨st, ?_, rfl⟩
      rcases actorTerminate_cases k c (cInt call.a1) with heq | ⟨_, _, _, _, heq⟩
      · rw [heq]
        exact hst
      · rw [heq]
        exact hst
  | objectRead =>
      exact .guarded hst fun hcap => sysObjectRead_alike hinv hst _ _ (hread _ hcap)
  | objectWrite => exact .guarded hst fun _ => .stored (storageWrite_alike hst _ _ _)
  | objectPromote => exact .guarded hst fun _ => .stored (storagePromote_alike hst _)
  | objectReject => exact .guarded hst fun _ => .stored (storageReject_alike hst _)
  | renameObject => exact .guarded hst fun _ => .stored (storageRename_alike hst _ _)
  | deleteName => exact .guarded hst fun _ => .stored (storageDelete_alike hst _)
  | netSend | netSendTo | netSendReliable | keyRead =>
      exact .guarded hst fun _ => ⟨st, hst, rfl⟩
  | netReceive => exact .guarded hst fun _ => sysNetReceive_alike hal hst _ _ _
  | spawnProgram =>
      refine .guarded hst fun hcap => ?_
      obtain ⟨st', halike, heq⟩ := loaderSpawnProgram_alike (L := L) hinv hst c hlive (hread _ hcap)
      refine ⟨st', halike, ?_⟩
      rw [heq]
      rfl
  | lookupName =>
      refine ⟨st, hst, ?_⟩
      simp only [syscallDispatch, storageLookupByName, withStore_store, hst.findByName]
      rfl
  | listObjects => exact .guarded hst fun _ => sysListObjects_alike hst _ _ _
  | createName => exact .guarded hst fun _ => sysCreateName_alike hst _ _

theorem ResultsAlike.finish {id : Nat} {r r' : SysResult D} (h : ResultsAlike id r r')
    (c : Slot) :
    ∃ st', Alike id (r.finish c).1.store st' ∧
      r'.finish c = ((r.finish c).1.withStore st', (r.finish c).2) := by
  obtain ⟨st', halike, rfl⟩ := h
  exact ⟨st', halike, rfl⟩

/-- **Nothing of an object reaches an actor that may not read it.**  Two machines that
differ in its data sectors only go through the same step with the same outcome, and still
differ in those only. -/
theorem step_alike {L : Layout} {hal : Hal D} {k' : Kernel D} {c : Slot} {e : Event D} {o : Outcome}
    {id : Nat} {st : Store} (hinv : StoreInv k.store) (hst : Alike id k.store st)
    (hcur : k.current = some c) (hlive : k.Live c)
    (hsecret : actorHasCap k c capReadObject id = true → ¬ k.store.Readable id)
    (hstep : step L hal k e = some (k', o)) :
    ∃ st', Alike id k'.store st' ∧ step L hal (k.withStore st) e = some (k'.withStore st', o) := by
  unfold step at hstep ⊢
  split at hstep
  swap
  · cases hstep
  rename_i hmode
  rw [if_pos (show (k.withStore st).mode = .running from hmode), withStore_current, withStore_actors]
  rw [hcur] at hstep ⊢
  dsimp only at hstep ⊢
  generalize (k.actors c).context = ctx at hstep ⊢
  unfold actorStep at hstep
  split at hstep
  · cases hstep
    refine ⟨st, ?_, by rw [actorStep, actorYield_withStore]⟩
    rw [actorYield, scheduleNext_store]
    exact hst
  · rename_i call
    have hcall : ResultsAlike id (syscallHandler L hal k c call)
        (syscallHandler L hal (k.withStore st) c call) := by
      unfold syscallHandler
      cases Syscall.decode call.num with
      | none => exact ⟨st, hst, rfl⟩
      | some sys => exact syscallDispatch_alike L hal hinv hst hlive hsecret call sys
    obtain ⟨st', halike, heq⟩ := hcall.finish c
    rw [Option.some.injEq] at hstep
    rw [hstep] at halike heq
    exact ⟨st', halike, by rw [actorStep, heq]⟩
  · rename_i out
    have hreceive : ResultsAlike id (sysReceive k c out) (sysReceive (k.withStore st) c out) := by
      refine ⟨st, ?_, sysReceive_withStore k st c out⟩
      rw [sysReceive_store]
      exact hst
    obtain ⟨st', halike, heq⟩ := hreceive.finish c
    rw [Option.some.injEq] at hstep
    rw [hstep] at halike heq
    exact ⟨st', halike, by rw [actorStep, heq]⟩
  · cases hstep
    exact ⟨st, hst, rfl⟩
  · cases hstep
    exact ⟨st, hst, rfl⟩
  · cases hstep
    exact ⟨st, hst, rfl⟩
  · cases hstep

end Vajra
