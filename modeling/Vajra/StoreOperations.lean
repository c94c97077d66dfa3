import Vajra.SchedulerInvariant

/-!
# One specification for each operation on the object store

A step changes the object store by one of seven operations, each behind its capability
(`StoreChange`), and every operation concerns one object: `Recorded` says that the
records and the data sectors of all others are untouched.

The four data sectors of an object are its own because `lba` is computed from the id and
never changes (`StoreInv`).
-/

namespace Vajra

open ByteMemory TransitionTrace

variable {D : Type}

/-- Sector `s` holds data of object `id`. -/
def DataSector (id s : Nat) : Prop :=
  objectDataBaseLba + id * sectorsPerObject ≤ s ∧
    s < objectDataBaseLba + id * sectorsPerObject + sectorsPerObject

theorem DataSector.unique {i j s : Nat} (hi : DataSector i s) (hj : DataSector j s) : i = j := by
  simp only [DataSector, objectDataBaseLba, sectorsPerObject] at hi hj
  omega

theorem DataSector.not_directory {id s : Nat} (h : DataSector id s) : s ≠ directoryLba := by
  simp only [DataSector, objectDataBaseLba, directoryLba] at *
  omega

/-- The sector of a byte of the object. -/
theorem dataSector_of_byte (id : Nat) {i : Nat} (hi : i < objectMaxBytes) :
    DataSector id (objectDataBaseLba + id * sectorsPerObject + i / 512) := by
  unfold objectMaxBytes at hi
  unfold DataSector
  omega

/-- The table of objects is well formed: nothing behind the count is in use, the count fits
the table, and an object in use has the sectors of its id. -/
structure StoreInv (st : Store) : Prop where
  count : st.objectCount ≤ maxObjects
  unused : ∀ id, st.objectCount ≤ id → ¬ st.Live id
  lba : ∀ id, st.Live id → (st.objects id).lba = objectDataBaseLba + id * sectorsPerObject

theorem Store.Valid.lba {st : Store} {id : Int} (h : st.Valid id) (hinv : StoreInv st) :
    (st.objects id.toNat).lba = objectDataBaseLba + id.toNat * sectorsPerObject :=
  hinv.lba _ h.2.2

/-- A write to some sectors leaves the others as they are. -/
theorem halDiskWrite_sector (d : Disk) {lba count s : Nat} (buf : Nat → UInt8)
    (h : s < lba ∨ lba + count ≤ s) : (halDiskWrite d lba count buf).1.sector s = d.sector s := by
  have hput : ∀ n ≤ count, d.put lba n buf s = d.sector s := by
    intro n hn
    funext i
    rw [Disk.put, if_neg (by omega)]
  unfold halDiskWrite
  split
  · rfl
  · split
    · exact hput count (Nat.le_refl _)
    · exact hput _ (Nat.min_le_right _ _)

/-- The directory is no object's data. -/
theorem directorySave_sector (st : Store) {id s : Nat} (hs : DataSector id s) :
    (directorySave st).disk.sector s = st.disk.sector s := by
  have hne := hs.not_directory
  exact halDiskWrite_sector st.disk (directoryByte st) (by omega)

/-- The table of objects is as it was, and so are all data sectors. -/
structure SameObjects (st st' : Store) : Prop where
  objects : st'.objects = st.objects
  count : st'.objectCount = st.objectCount
  data : ∀ j s, DataSector j s → st'.disk.sector s = st.disk.sector s

theorem SameObjects.refl (st : Store) : SameObjects st st := ⟨rfl, rfl, fun _ _ _ => rfl⟩

/-- One record has been replaced, and no data sector has changed. -/
structure Recorded (st st' : Store) (id : Nat) (obj : Object) : Prop where
  objects : st'.objects = Function.update st.objects id obj
  data : ∀ j s, DataSector j s → st'.disk.sector s = st.disk.sector s

theorem directorySave_modify (st : Store) (id : Nat) (f : Object → Object) :
    Recorded st (directorySave (st.modify id f)) id (f (st.objects id)) :=
  ⟨rfl, fun _ _ hs => directorySave_sector _ hs⟩

/-- An object `storage_read` reads: valid and not rejected. -/
def Store.Readable (st : Store) (id : Int) : Prop :=
  st.Valid id ∧ (st.objects id.toNat).trust ≠ objRejected

instance (st : Store) (id : Int) : Decidable (st.Readable id) :=
  inferInstanceAs (Decidable (_ ∧ _))

/-- The staging buffer after the sectors of object `id` have been read. -/
def Store.staged (st : Store) (id : Nat) : Nat → UInt8 :=
  fun i => if i < objectMaxBytes then st.disk.bytes (st.objects id).lba i else st.scratch i

theorem storageRead_refused {st : Store} {id : Int} (h : ¬ st.Readable id) (len : Nat) :
    storageRead st id len = (st, none) := by
  unfold storageRead
  by_cases hvalid : st.Valid id
  · rw [if_neg (not_not.mpr hvalid), if_pos (by simpa [Store.Readable, hvalid] using h)]
  · rw [if_pos hvalid]

theorem storageRead_readable {st : Store} {id : Int} (h : st.Readable id) (len : Nat) :
    storageRead st id len =
      if st.disk.outcome st.disk.requests = .ok then
        ({ st with disk := { st.disk with requests := st.disk.requests + 1 }
                   scratch := st.staged id.toNat },
          some ((List.range (min (st.objects id.toNat).sizeBytes len)).map (st.staged id.toNat)))
      else ({ st with disk := { st.disk with requests := st.disk.requests + 1 } }, none) := by
  rw [storageRead, if_neg (not_not.mpr h.1), if_neg h.2, halDiskRead, if_neg (by decide)]
  cases st.disk.outcome st.disk.requests with
  | ok => rfl
  | fail n => rfl

/-- `storage_read` changes no object. -/
theorem storageRead_same (st : Store) (id : Int) (len : Nat) :
    SameObjects st (storageRead st id len).1 := by
  by_cases h : st.Readable id
  · rw [storageRead_readable h]
    split
    · exact ⟨rfl, rfl, fun _ _ _ => rfl⟩
    · exact ⟨rfl, rfl, fun _ _ _ => rfl⟩
  · rw [storageRead_refused h]
    exact SameObjects.refl st

/-- `storage_write`: refused, or only this object's data, size and trust change. -/
theorem storageWrite_cases {st : Store} (hinv : StoreInv st) (id : Int) (buf : Nat → UInt8)
    (len : Nat) :
    (storageWrite st id buf len).1 = st ∨
    (st.Valid id ∧ (storageWrite st id buf len).1.objectCount = st.objectCount ∧
      (∀ j, j ≠ id.toNat → ∀ s, DataSector j s →
        (storageWrite st id buf len).1.disk.sector s = st.disk.sector s) ∧
      ∃ size trust, (storageWrite st id buf len).1.objects = Function.update st.objects id.toNat
        { st.objects id.toNat with sizeBytes := size, trust := trust }) := by
  unfold storageWrite
  split
  · exact Or.inl rfl
  rename_i hvalid
  rw [not_not] at hvalid
  split
  · exact Or.inl rfl
  refine Or.inr ⟨hvalid, ?_⟩
  dsimp only
  generalize hbuf : (fun i => if i < objectMaxBytes then (if i < len then buf i else 0)
    else st.scratch i) = scratch
  have hsector : ∀ j, j ≠ id.toNat → ∀ s, DataSector j s →
      (halDiskWrite st.disk (st.objects id.toNat).lba sectorsPerObject scratch).1.sector s =
        st.disk.sector s := by
    intro j hj s hs
    refine halDiskWrite_sector st.disk scratch ?_
    rw [hvalid.lba hinv]
    by_contra hin
    exact hj (hs.unique ⟨by omega, by omega⟩)
  split
  · refine ⟨rfl, hsector, (st.objects id.toNat).sizeBytes, (st.objects id.toNat).trust, ?_⟩
    exact (Function.update_eq_self id.toNat st.objects).symm
  · refine ⟨rfl, fun j hj s hs => ?_, len, objUntrusted, rfl⟩
    exact (directorySave_sector _ hs).trans (hsector j hj s hs)

/-- `storage_promote` and `storage_reject`: refused, or only this object's trust changes. -/
theorem storagePromote_cases (st : Store) (id : Int) :
    (storagePromote st id).1 = st ∨
    (st.Valid id ∧ (storagePromote st id).1.objectCount = st.objectCount ∧
      ∃ trust, Recorded st (storagePromote st id).1 id.toNat
        { st.objects id.toNat with trust := trust }) := by
  unfold storagePromote
  split
  · exact Or.inl rfl
  rename_i hvalid
  rw [not_not] at hvalid
  split
  · exact Or.inl rfl
  · exact Or.inr ⟨hvalid, rfl, _, directorySave_modify st id.toNat _⟩

theorem storageReject_cases (st : Store) (id : Int) :
    (storageReject st id).1 = st ∨
    (st.Valid id ∧ (storageReject st id).1.objectCount = st.objectCount ∧
      ∃ trust, Recorded st (storageReject st id).1 id.toNat
        { st.objects id.toNat with trust := trust }) := by
  unfold storageReject
  split
  · exact Or.inl rfl
  · rename_i hvalid
    rw [not_not] at hvalid
    exact Or.inr ⟨hvalid, rfl, _, directorySave_modify st id.toNat _⟩

/-- `storage_rename`: refused, or only this object's name changes. -/
theorem storageRename_cases (st : Store) (id : Int) (newName : Nat → UInt8) :
    (storageRename st id newName).1 = st ∨
    (st.Named id ∧ (storageRename st id newName).1.objectCount = st.objectCount ∧
      ∃ name, Recorded st (storageRename st id newName).1 id.toNat
        { st.objects id.toNat with name := name }) := by
  unfold storageRename
  split
  · exact Or.inl rfl
  rename_i hnamed
  rw [not_not] at hnamed
  split
  · split
    · exact Or.inl rfl
    · exact Or.inr ⟨hnamed, rfl, _, directorySave_modify st id.toNat _⟩
  · exact Or.inr ⟨hnamed, rfl, _, directorySave_modify st id.toNat _⟩

/-- `storage_delete`: refused, or this object is no longer in use. -/
theorem storageDelete_cases (st : Store) (id : Int) :
    (storageDelete st id).1 = st ∨
    (st.Named id ∧ (storageDelete st id).1.objectCount = st.objectCount ∧
      ∃ name, Recorded st (storageDelete st id).1 id.toNat
        { st.objects id.toNat with
          inUse := 0, name := name, sizeBytes := 0, trust := objUntrusted }) := by
  unfold storageDelete
  split
  · exact Or.inl rfl
  · rename_i hnamed
    rw [not_not] at hnamed
    exact Or.inr ⟨hnamed, rfl, _, directorySave_modify st id.toNat _⟩

/-- `alloc_object` stays inside the table. -/
theorem pickObject_lt {st : Store} (hcount : st.objectCount ≤ maxObjects) {id : Nat}
    (h : pickObject st = some id) : id < maxObjects := by
  unfold pickObject at h
  split at h
  · rename_i i hfind
    cases h
    have hmem := List.mem_range.mp (List.mem_of_find?_eq_some hfind)
    omega
  · split at h
    · cases h
    · cases h
      omega

/-- `alloc_object` takes an id that is not in use. -/
theorem pickObject_spec {st : Store} (hinv : StoreInv st) {id : Nat}
    (h : pickObject st = some id) : ¬ st.Live id ∧ id < maxObjects := by
  refine ⟨?_, pickObject_lt hinv.count h⟩
  unfold pickObject at h
  split at h
  · rename_i i hfind
    cases h
    have hdead := List.find?_some hfind
    simpa using hdead
  · split at h
    · cases h
    · cases h
      exact hinv.unused _ (Nat.le_refl _)

theorem allocObject_cases {st : Store} (hinv : StoreInv st) (name : Nat → UInt8) :
    allocObject st name = (st, -1) ∨
    ∃ id name', ¬ st.Live id ∧ id < maxObjects ∧ (allocObject st name).2 = (id : Nat) ∧
      (allocObject st name).1.objectCount = max st.objectCount (id + 1) ∧
      Recorded st (allocObject st name).1 id
        { inUse := 1, name := name', lba := objectDataBaseLba + id * sectorsPerObject,
          sizeBytes := 0, trust := objUntrusted } := by
  unfold allocObject
  cases hpick : pickObject st with
  | none => exact Or.inl rfl
  | some id =>
      obtain ⟨hdead, hlt⟩ := pickObject_spec hinv hpick
      exact Or.inr ⟨id, _, hdead, hlt, rfl, rfl, rfl, fun _ _ hs => directorySave_sector _ hs⟩

theorem storageCreateNamed_cases (st : Store) (name : Nat → UInt8) :
    storageCreateNamed st name = (st, -1) ∨ storageCreateNamed st name = allocObject st name := by
  unfold storageCreateNamed
  split
  · exact Or.inl rfl
  · exact Or.inr rfl

/-- A change to one record that keeps its sectors and does not bring it into use. -/
theorem StoreInv.recorded {st st' : Store} (h : StoreInv st) {id : Nat} {obj : Object}
    (hcount : st'.objectCount = st.objectCount)
    (hobjects : st'.objects = Function.update st.objects id obj)
    (hlba : obj.lba = (st.objects id).lba) (huse : obj.inUse ≠ 0 → st.Live id) :
    StoreInv st' := by
  have hlive : ∀ j, st'.Live j → st.Live j ∧ (st'.objects j).lba = (st.objects j).lba := by
    intro j hj
    rw [Store.Live, hobjects] at hj
    rw [hobjects]
    by_cases hjid : j = id
    · subst hjid
      rw [Function.update_self] at hj ⊢
      exact ⟨huse hj, hlba⟩
    · rw [Function.update_of_ne hjid] at hj ⊢
      exact ⟨hj, rfl⟩
  refine ⟨by rw [hcount]; exact h.count, fun j hj hused => ?_, fun j hj => ?_⟩
  · rw [hcount] at hj
    exact h.unused j hj (hlive j hused).1
  · rw [(hlive j hj).2]
    exact h.lba j (hlive j hj).1

theorem StoreInv.same {st st' : Store} (h : StoreInv st) (hsame : SameObjects st st') :
    StoreInv st' := by
  have hobjects : st'.objects = Function.update st.objects 0 (st.objects 0) := by
    rw [hsame.objects, Function.update_eq_self]
  exact h.recorded hsame.count hobjects rfl id

theorem StoreInv.allocObject {st : Store} (h : StoreInv st) (name : Nat → UInt8) :
    StoreInv (allocObject st name).1 := by
  rcases allocObject_cases h name with heq | ⟨id, name', _, hlt, _, hcount, hrec⟩
  · rw [heq]
    exact h
  have hobject : ∀ j, j ≠ id →
      (Vajra.allocObject st name).1.objects j = st.objects j := by
    intro j hj
    rw [hrec.objects, Function.update_of_ne hj]
  refine ⟨?_, fun j hj hused => ?_, fun j hj => ?_⟩
  · rw [hcount]
    have := h.count
    omega
  · rw [hcount] at hj
    rw [Store.Live, hobject j (by omega)] at hused
    exact h.unused j (by omega) hused
  · by_cases hjid : j = id
    · subst hjid
      rw [hrec.objects, Function.update_self]
    · rw [Store.Live, hobject j hjid] at hj
      rw [hobject j hjid]
      exact h.lba j hj

theorem StoreInv.storageWrite {st : Store} (h : StoreInv st) (id : Int) (buf : Nat → UInt8)
    (len : Nat) : StoreInv (storageWrite st id buf len).1 := by
  rcases storageWrite_cases h id buf len with heq | ⟨hvalid, hcount, _, size, trust, hobjects⟩
  · rw [heq]
    exact h
  · exact h.recorded hcount hobjects rfl (fun _ => hvalid.2.2)

/-- What a step of `c` does to the object store: one operation, made with the capability
it asks for. -/
inductive StoreChange (k : Kernel D) (c : Slot) : Store → Prop
  | none : StoreChange k c k.store
  | read (id : Int) (len : Nat) (hcap : actorHasCap k c capReadObject id = true) :
      StoreChange k c (storageRead k.store id len).1
  | write (id : Int) (buf : Nat → UInt8) (len : Nat)
      (hcap : actorHasCap k c capWriteObject id = true) :
      StoreChange k c (storageWrite k.store id buf len).1
  | promote (id : Int) (hcap : actorHasCap k c capPromoteObject 0 = true) :
      StoreChange k c (storagePromote k.store id).1
  | reject (id : Int) (hcap : actorHasCap k c capPromoteObject 0 = true) :
      StoreChange k c (storageReject k.store id).1
  | create (name : Nat → UInt8) (hcap : actorHasCap k c capCreateObject 0 = true) :
      StoreChange k c (storageCreateNamed k.store name).1
  | rename (id : Int) (name : Nat → UInt8) (hcap : actorHasCap k c capRenameObject id = true) :
      StoreChange k c (storageRename k.store id name).1
  | delete (id : Int) (hcap : actorHasCap k c capDeleteObject id = true) :
      StoreChange k c (storageDelete k.store id).1

theorem scheduleNext_store (k : Kernel D) : (scheduleNext k).store = k.store := by
  rcases scheduleNext_cases k with ⟨heq, _⟩ | ⟨next, a, _, _, heq⟩
  · rw [heq]
    exact (reapDeadActors_reaped k).store
  · rw [heq]
    exact (reapDeadActors_reaped k).store

/-- `loader_spawn_program` reads one object. -/
theorem loaderSpawnProgram_store (L : Layout) (k : Kernel D) {c : Slot} (hlive : k.Live c)
    (id : Int) :
    (loaderSpawnProgram L k c id).1.store = (storageRead k.store id objectMaxBytes).1 := by
  have hstage : (loaderStage k id).1.store = (storageRead k.store id objectMaxBytes).1 := by
    unfold loaderStage
    split
    · rename_i st hread
      rw [hread]
    · rename_i st bytes hread
      rw [hread]
      dsimp only
      split
      · rfl
      · split <;> rfl
  have hstaged := loaderStage_staged k id
  unfold loaderSpawnProgram
  split
  · rename_i k1 hk1
    rw [hk1] at hstage
    exact hstage
  · rename_i k1 phys image hk1
    rw [hk1] at hstage hstaged
    have hlive1 : k1.Live c := by
      rw [Kernel.Live, hstaged.actors]
      exact hlive
    exact (actorSpawnProgramChild_spec L k1 hlive1 _ _ _).2.store.trans hstage

/-- A guarded operation on the store was made with its capability, or was not made. -/
theorem StoreChange.guarded {k : Kernel D} {c : Slot} {op target : Int} {r : SysResult D}
    (h : actorHasCap k c op target = true → StoreChange k c r.kernel.store) :
    StoreChange k c (guarded k c op target r).kernel.store := by
  unfold Vajra.guarded
  split
  · rename_i hcap
    exact h hcap
  · exact .none

/-- A call that leaves the actor table alone changes the store by one operation. -/
theorem syscallDispatch_storeChange (L : Layout) (hal : Hal D) (k : Kernel D) (c : Slot)
    (call : Call) {sys : Syscall} (hquiet : sys.quiet = true) :
    StoreChange k c (syscallDispatch L hal k c call sys).kernel.store := by
  have hread : ∀ id buf len, (sysObjectRead k id buf len).kernel.store =
      (storageRead k.store id len).1 := by
    intro id buf len
    unfold sysObjectRead
    split
    · rename_i st hread
      rw [hread]
      rfl
    · rename_i st bytes hread
      rw [hread]
  cases sys with
  | yield | exit | send | receive | grant | spawn | terminate | spawnProgram | createName =>
      simp [Syscall.quiet] at hquiet
  | write | lookupName | rtcRead => exact .none
  | objectRead =>
      refine StoreChange.guarded fun hcap => ?_
      rw [hread]
      exact .read _ _ hcap
  | objectWrite => exact StoreChange.guarded fun hcap => .write _ _ _ hcap
  | objectPromote => exact StoreChange.guarded fun hcap => .promote _ hcap
  | objectReject => exact StoreChange.guarded fun hcap => .reject _ hcap
  | renameObject => exact StoreChange.guarded fun hcap => .rename _ _ hcap
  | deleteName => exact StoreChange.guarded fun hcap => .delete _ hcap
  | listObjects =>
      refine StoreChange.guarded fun _ => ?_
      unfold sysListObjects
      split <;> exact .none
  | netReceive =>
      refine StoreChange.guarded fun _ => ?_
      unfold sysNetReceive
      split <;> exact .none
  | netSend | netSendTo | netSendReliable | keyRead =>
      exact StoreChange.guarded fun _ => .none

/-- **Every step changes the object store by one operation**, behind its capability. -/
theorem Stepped.storeChange {L : Layout} {hal : Hal D} {k k' : Kernel D} {c : Slot} {e : Event D}
    {o : Outcome} (h : Stepped L hal k c e k' o) (hlive : k.Live c) :
    StoreChange k c k'.store := by
  cases h with
  | tick | yield =>
      rw [actorYield, scheduleNext_store]
      exact .none
  | exit =>
      rw [actorExit, scheduleNext_store]
      exact .none
  | @send _ call hcall =>
      rcases actorSend_cases k c (cInt call.a1) call.a2 call.a3 with heq | ⟨d, _, _, _, _, heq⟩
      · rw [heq]
        exact .none
      · rw [heq]
        exact .none
  | receive out hcall =>
      rcases sysReceive_cases k c out with ⟨_, heq⟩ | ⟨_, heq⟩
      · rw [heq, scheduleNext_store]
        exact .none
      · rw [heq]
        exact .none
  | @grant _ call hcall =>
      rcases actorDelegate_cases k c (cInt call.a1) (cInt call.a2) (cInt call.a3) with
        heq | ⟨d, _, _, heq⟩
      · rw [heq]
        exact .none
      · rw [heq, actorAddCap_fst]
        exact .none
  | @spawn _ call hcall =>
      rw [(actorSpawnChild_spec L k hlive call.a1.toNat).2.store]
      exact .none
  | @spawnProgram _ call hcall hcap =>
      rw [loaderSpawnProgram_store L k hlive (cInt call.a1)]
      exact .read _ _ hcap
  | @terminate _ call hcall =>
      rcases actorTerminate_cases k c (cInt call.a1) with heq | ⟨t, _, _, _, heq⟩
      · rw [heq]
        exact .none
      · rw [heq]
        exact .none
  | @createName _ call hcall hcap =>
      rcases sysCreateName_cases k c (userBytes k c call.a1) with ⟨_, heq⟩ | ⟨_, heq⟩
      · rw [heq]
        exact .create _ hcap
      · rw [heq]
        exact .create _ hcap
  | @quietCall _ call sys hcall hquiet hstep =>
      exact syscallDispatch_storeChange L hal k c call hquiet
  | programDenied | createDenied | unknown | store | device | fault => exact .none

/-- Every operation keeps the table of objects well formed. -/
theorem StoreChange.inv {k : Kernel D} {c : Slot} {st : Store} (h : StoreChange k c st)
    (hinv : StoreInv k.store) : StoreInv st := by
  cases h with
  | none => exact hinv
  | read id len hcap => exact hinv.same (storageRead_same k.store id len)
  | write id buf len hcap => exact hinv.storageWrite id buf len
  | promote id hcap =>
      rcases storagePromote_cases k.store id with heq | ⟨hvalid, hcount, trust, hrec⟩
      · rw [heq]
        exact hinv
      · exact hinv.recorded hcount hrec.objects rfl (fun _ => hvalid.2.2)
  | reject id hcap =>
      rcases storageReject_cases k.store id with heq | ⟨hvalid, hcount, trust, hrec⟩
      · rw [heq]
        exact hinv
      · exact hinv.recorded hcount hrec.objects rfl (fun _ => hvalid.2.2)
  | create name hcap =>
      rcases storageCreateNamed_cases k.store name with heq | heq
      · rw [heq]
        exact hinv
      · rw [heq]
        exact hinv.allocObject name
  | rename id name hcap =>
      rcases storageRename_cases k.store id name with heq | ⟨hnamed, hcount, name', hrec⟩
      · rw [heq]
        exact hinv
      · exact hinv.recorded hcount hrec.objects rfl (fun _ => hnamed.2.2)
  | delete id hcap =>
      rcases storageDelete_cases k.store id with heq | ⟨hnamed, hcount, name', hrec⟩
      · rw [heq]
        exact hinv
      · exact hinv.recorded hcount hrec.objects rfl (fun _ => hnamed.2.2)

/-- `storage_init` leaves a well-formed table, whatever is on the disk. -/
theorem storageInit_inv (st : Store) : StoreInv (storageInit st) := by
  unfold storageInit
  generalize hst : ({ st with
    objects := fun id => { inUse := 0, name := Function.update (st.objects id).name 0 0, lba := 0,
                           sizeBytes := 0, trust := objUntrusted }
    objectCount := 0 } : Store) = zeroed
  have hdead : ∀ id, ¬ zeroed.Live id := by
    intro id
    rw [← hst]
    exact not_not.mpr rfl
  have hcount : zeroed.objectCount = 0 := by rw [← hst]
  unfold directoryLoad
  split
  · exact ⟨by rw [hcount]; decide, fun id _ => hdead id, fun id h => absurd h (hdead id)⟩
  · rename_i disk dir _
    split
    · exact ⟨by rw [hcount]; decide, fun id _ => hdead id, fun id h => absurd h (hdead id)⟩
    · refine ⟨Nat.min_le_right _ _, fun id hid => ?_, fun id hid => ?_⟩
      · dsimp only at hid
        simpa [Store.Live, Nat.not_lt.mpr hid] using hdead id
      · by_cases hlt : id < min (dir 4).toNat maxObjects
        · simp only [hlt, if_true]
          rfl
        · simp only [Store.Live, hlt, if_false] at hid
          exact absurd hid (hdead id)

/-- Every call of `kernel_main` keeps the table well formed. -/
theorem setupState_storeInv (L : Layout) (b : Boot D) (n : Nat) :
    StoreInv (setupState L b n).store := by
  refine setupState_induction (P := fun k => StoreInv k.store) (storageInit_inv _) ?_ n
  intro k op _ hk
  have hcreate : ∀ name, StoreInv (storageCreateObject k.store name).1 := by
    intro name
    unfold storageCreateObject
    split
    · exact hk
    · exact hk.allocObject name
  cases op with
  | spawn entry =>
      simp only [setupStep]
      rw [(actorSpawn_frame L k entry).1.store]
      exact hk
  | createObject name => exact hcreate name
  | seedObject name bytes => exact (hcreate name).storageWrite _ _ _
  | grant dest op target =>
      simp only [setupStep, actorGrant]
      split
      · exact hk
      · rw [actorAddCap_fst]
        exact hk
  | setSpawnQuota slot quota =>
      simp only [setupStep, actorSetSpawnQuota]
      split <;> exact hk
  | setWindow slot win =>
      simp only [setupStep, actorSetWindow]
      split <;> exact hk

/-- **The table of objects is well formed in every state of every run.** -/
theorem run_storeInv {L : Layout} {hal : Hal D} {b : Boot D} {tr : List (Record D)} {k : Kernel D}
    (h : Run L hal b tr k) : StoreInv k.store := by
  refine h.history_invariant (fun _ k => StoreInv k.store) ?_ ?_
  · rw [bootState, schedulerStart, scheduleNext_store, kernelMain_eq_setupState]
    exact setupState_storeInv L b _
  · intro tr k e o k' hrun hinv hstep
    obtain ⟨c, _, _, hlive, hstepped⟩ := Run.stepped hrun hstep
    exact (hstepped.storeChange hlive).inv hinv

end Vajra
