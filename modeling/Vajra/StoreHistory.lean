import Vajra.DirectoryImage
import Vajra.TransitionTrace

/-!
# Histories of the object store

A history is a list of calls of `core/storage.c` with reboots in between, on one disk that
may fail any request.  `storeCall` dispatches to the operations, `bootStore` is
`storage_init` on zeroed statics, and `storeStep` is one event.

`StoreEffect` says once what a call does to the table and the sectors; every property of
histories is proved from it.  `directory_save` writes one sector, so after it the disk holds
either the directory of the table or the one it held before (`Saved.directory`).
-/

namespace Vajra

open ByteMemory TransitionTrace

/-- A call of `storage.c`; the pure lookups are left out. -/
inductive StoreOp where
  | createObject (name : Nat → UInt8)
  | createNamed (name : Nat → UInt8)
  | read (id : Int) (bufLen : Nat)
  | write (id : Int) (buf : Nat → UInt8) (len : Nat)
  | promote (id : Int)
  | reject (id : Int)
  | rename (id : Int) (newName : Nat → UInt8)
  | delete (id : Int)

/-- The value a call returns and the bytes it copies to its caller. -/
structure StoreReply where
  ret : Int
  bytes : List UInt8
  deriving DecidableEq

/-- `storage_read` returns the number of bytes it copied. -/
def readReply : Option (List UInt8) → StoreReply
  | none => ⟨-1, []⟩
  | some bytes => ⟨bytes.length, bytes⟩

def storeCall (st : Store) : StoreOp → Store × StoreReply
  | .createObject name =>
      ((storageCreateObject st name).1, ⟨(storageCreateObject st name).2, []⟩)
  | .createNamed name =>
      ((storageCreateNamed st name).1, ⟨(storageCreateNamed st name).2, []⟩)
  | .read id bufLen => ((storageRead st id bufLen).1, readReply (storageRead st id bufLen).2)
  | .write id buf len =>
      ((storageWrite st id buf len).1, ⟨(storageWrite st id buf len).2, []⟩)
  | .promote id => ((storagePromote st id).1, ⟨(storagePromote st id).2, []⟩)
  | .reject id => ((storageReject st id).1, ⟨(storageReject st id).2, []⟩)
  | .rename id newName =>
      ((storageRename st id newName).1, ⟨(storageRename st id newName).2, []⟩)
  | .delete id => ((storageDelete st id).1, ⟨(storageDelete st id).2, []⟩)

/-- `storage_init` after a reset: the statics are zero, the staging buffer holds anything. -/
def bootStore (disk : Disk) (scratch : Nat → UInt8) : Store :=
  storageInit { objects := fun _ => blankObject, objectCount := 0, scratch := scratch, disk := disk }

/-- One event in the life of the store. -/
inductive StoreEvent where
  | call (op : StoreOp)
  | boot (scratch : Nat → UInt8)

def storeStep (st : Store) : StoreEvent → Option (Store × StoreReply)
  | .call op => some (storeCall st op)
  | .boot scratch => some (bootStore st.disk scratch, ⟨0, []⟩)

/-- A recorded event. -/
abbrev StoreRecord := Transition Store StoreEvent StoreReply

/-- A history that starts with `storage_init` on `disk`. -/
abbrev StoreRun (disk : Disk) (scratch : Nat → UInt8) (tr : List StoreRecord) (st : Store) : Prop :=
  Trace storeStep (bootStore disk scratch) tr st

/-- The directory sector has never been written by `directory_save`. -/
def Disk.Blank (d : Disk) : Prop := readLE (d.sector directoryLba) 0 4 ≠ directoryMagic

instance (d : Disk) : Decidable d.Blank := inferInstanceAs (Decidable (_ ≠ _))

/-- The next write of a single sector reaches the disk, whatever it reports. -/
def Disk.Lands (d : Disk) : Prop := d.outcome d.requests ≠ .fail 0

instance (d : Disk) : Decidable d.Lands := inferInstanceAs (Decidable (_ ≠ _))

/-- The directory `storage_init` would find. -/
def Disk.directory (d : Disk) : Directory := imageDirectory (d.sector directoryLba)

/-- The bytes of object `id`. -/
def Store.contents (st : Store) (id : Nat) : List UInt8 :=
  (List.range (st.objects id).sizeBytes).map
    (st.disk.bytes (objectDataBaseLba + id * sectorsPerObject))

/-- The first `size` bytes of the sectors of object `id`. -/
def Disk.object (d : Disk) (id size : Nat) : List UInt8 :=
  (List.range size).map (d.bytes (objectDataBaseLba + id * sectorsPerObject))

/-- The bytes of an object are in its own sectors. -/
theorem object_congr {d d' : Disk} {id size : Nat} (hsize : size ≤ objectMaxBytes)
    (h : ∀ s, DataSector id s → d'.sector s = d.sector s) : d'.object id size = d.object id size := by
  refine List.map_congr_left fun i hi => ?_
  have hlt := List.mem_range.mp hi
  rw [Disk.bytes, Disk.bytes, h _ (dataSector_of_byte id (by omega))]

/-- Neither the table nor a sector has changed. -/
structure Unwritten (st st' : Store) : Prop where
  objects : st'.objects = st.objects
  count : st'.objectCount = st.objectCount
  sector : st'.disk.sector = st.disk.sector
  outcome : st'.disk.outcome = st.disk.outcome

theorem Unwritten.refl (st : Store) : Unwritten st st := ⟨rfl, rfl, rfl, rfl⟩

/-- Record `id` has been replaced and the directory been saved, if the write landed. -/
structure Saved (st st' : Store) (id : Nat) (obj : Object) : Prop where
  objects : st'.objects = Function.update st.objects id obj
  count : st'.objectCount = max st.objectCount (id + 1)
  sector : ∀ s, st'.disk.sector s =
    if s = directoryLba ∧ st.disk.Lands then directoryByte st' else st.disk.sector s
  outcome : st'.disk.outcome = st.disk.outcome
  requests : st'.disk.requests = st.disk.requests + 1

/-- A write of one sector leaves the new bytes or the old ones there. -/
theorem halDiskWrite_one (d : Disk) (lba : Nat) (buf : Nat → UInt8) (s : Nat) :
    (halDiskWrite d lba 1 buf).1.sector s = if s = lba ∧ d.Lands then buf else d.sector s := by
  have hn : ∀ n ≤ 1, d.put lba n buf s = if s = lba ∧ 0 < n then buf else d.sector s := by
    intro n hle
    funext i
    by_cases hs : s = lba ∧ 0 < n
    · obtain ⟨rfl, hpos⟩ := hs
      simp [Disk.put, hpos]
    · rw [if_neg hs, Disk.put, if_neg (by omega)]
  unfold halDiskWrite
  rw [if_neg (by decide)]
  split
  · rename_i hout
    have hlands : d.Lands := by simp [Disk.Lands, hout]
    dsimp only
    rw [hn 1 (Nat.le_refl 1)]
    simp [hlands]
  · rename_i n hout
    have hlands : d.Lands ↔ 0 < min n 1 := by
      rw [Disk.Lands, hout, ne_eq, DiskOutcome.fail.injEq]
      omega
    dsimp only
    rw [hn _ (Nat.min_le_right n 1)]
    simp only [hlands]

theorem halDiskWrite_outcome (d : Disk) (lba count : Nat) (buf : Nat → UInt8) :
    (halDiskWrite d lba count buf).1.outcome = d.outcome := by
  unfold halDiskWrite
  split
  · rfl
  · split <;> rfl

theorem halDiskWrite_requests (d : Disk) (lba : Nat) (buf : Nat → UInt8) :
    (halDiskWrite d lba 1 buf).1.requests = d.requests + 1 := by
  unfold halDiskWrite
  rw [if_neg (by decide)]
  split <;> rfl

/-- `directory_save` after record `id` has been replaced. -/
theorem directorySave_saved {st mid : Store} {id : Nat} {obj : Object}
    (hobjects : mid.objects = Function.update st.objects id obj)
    (hcount : mid.objectCount = max st.objectCount (id + 1)) (hdisk : mid.disk = st.disk) :
    Saved st (directorySave mid) id obj := by
  have hbyte : directoryByte (directorySave mid) = directoryByte mid := rfl
  refine ⟨hobjects, hcount, fun s => ?_, ?_, ?_⟩
  · rw [hbyte, ← hdisk]
    exact halDiskWrite_one mid.disk directoryLba (directoryByte mid) s
  · rw [← hdisk]
    exact halDiskWrite_outcome mid.disk directoryLba 1 (directoryByte mid)
  · rw [← hdisk]
    exact halDiskWrite_requests mid.disk directoryLba (directoryByte mid)

/-- The disk after the first `n` data sectors of an object have been written. -/
def Disk.torn (d : Disk) (lba n : Nat) (buf : Nat → UInt8) : Disk :=
  { d with sector := d.put lba n buf, requests := d.requests + 1 }

theorem halDiskWrite_ok {d : Disk} (h : d.outcome d.requests = .ok) (lba : Nat)
    (buf : Nat → UInt8) :
    halDiskWrite d lba sectorsPerObject buf = (d.torn lba sectorsPerObject buf, 0) := by
  rw [halDiskWrite, if_neg (by decide), h]
  rfl

theorem halDiskWrite_fail {d : Disk} {n : Nat} (h : d.outcome d.requests = .fail n) (lba : Nat)
    (buf : Nat → UInt8) :
    halDiskWrite d lba sectorsPerObject buf = (d.torn lba (min n sectorsPerObject) buf, -1) := by
  rw [halDiskWrite, if_neg (by decide), h]
  rfl

/-- The staging buffer as `storage_write` fills it. -/
def Store.filled (st : Store) (buf : Nat → UInt8) (len : Nat) : Nat → UInt8 :=
  fun i => if i < objectMaxBytes then (if i < len then buf i else 0) else st.scratch i

/-- The first `n` data sectors of object `id` have been written, and nothing else. -/
def Store.partly (st : Store) (id n : Nat) (buf : Nat → UInt8) (len : Nat) : Store :=
  { st with
    disk := st.disk.torn (objectDataBaseLba + id * sectorsPerObject) n (st.filled buf len)
    scratch := st.filled buf len }

/-- **What a call does**, on a well-formed table. -/
inductive StoreEffect (st : Store) : StoreOp → Store → StoreReply → Prop
  | refused {op : StoreOp} {st' : Store} (h : Unwritten st st') : StoreEffect st op st' ⟨-1, []⟩
  | found {name : Nat → UInt8} {id : Nat} (h : findByName st name = some id) :
      StoreEffect st (.createObject name) st ⟨id, []⟩
  | created {op : StoreOp} {name : Nat → UInt8} {id : Nat} {st' : Store}
      (hop : op = .createObject name ∨ op = .createNamed name)
      (hnew : findByName st name = none) (hpick : pickObject st = some id)
      (h : Saved st st' id
        { inUse := 1, name := copyName name (st.objects id).name
          lba := objectDataBaseLba + id * sectorsPerObject, sizeBytes := 0
          trust := objUntrusted }) :
      StoreEffect st op st' ⟨id, []⟩
  | fetched {id : Int} {bufLen : Nat} {st' : Store} (hread : st.Readable id)
      (h : Unwritten st st') :
      StoreEffect st (.read id bufLen) st' (readReply (some ((st.contents id.toNat).take bufLen)))
  | torn {id : Int} {buf : Nat → UInt8} {len n : Nat} (hvalid : st.Valid id)
      (hlen : len ≤ objectMaxBytes) (hout : st.disk.outcome st.disk.requests = .fail n) :
      StoreEffect st (.write id buf len)
        (st.partly id.toNat (min n sectorsPerObject) buf len) ⟨-1, []⟩
  | written {id : Int} {buf : Nat → UInt8} {len : Nat} {st' : Store} (hvalid : st.Valid id)
      (hlen : len ≤ objectMaxBytes) (hout : st.disk.outcome st.disk.requests = .ok)
      (h : Saved (st.partly id.toNat sectorsPerObject buf len) st' id.toNat
        { st.objects id.toNat with sizeBytes := len, trust := objUntrusted }) :
      StoreEffect st (.write id buf len) st' ⟨len, []⟩
  | promoted {id : Int} {st' : Store} (hvalid : st.Valid id)
      (hlevel : (st.objects id.toNat).trust ≠ objTrusted ∧
        (st.objects id.toNat).trust ≠ objRejected)
      (h : Saved st st' id.toNat
        { st.objects id.toNat with trust := (st.objects id.toNat).trust + 1 }) :
      StoreEffect st (.promote id) st' ⟨(st.objects id.toNat).trust + 1, []⟩
  | rejected {id : Int} {st' : Store} (hvalid : st.Valid id)
      (h : Saved st st' id.toNat { st.objects id.toNat with trust := objRejected }) :
      StoreEffect st (.reject id) st' ⟨0, []⟩
  | renamed {id : Int} {newName : Nat → UInt8} {st' : Store} (hnamed : st.Named id)
      (hfree : ∀ j, findByName st newName = some j → j = id.toNat)
      (h : Saved st st' id.toNat
        { st.objects id.toNat with name := copyName newName (st.objects id.toNat).name }) :
      StoreEffect st (.rename id newName) st' ⟨0, []⟩
  | deleted {id : Int} {st' : Store} (hnamed : st.Named id)
      (h : Saved st st' id.toNat
        { st.objects id.toNat with
          inUse := 0, name := Function.update (st.objects id.toNat).name 0 0, sizeBytes := 0
          trust := objUntrusted }) :
      StoreEffect st (.delete id) st' ⟨0, []⟩

/-- A live object has a place in the table. -/
theorem StoreInv.lt_count {st : Store} (h : StoreInv st) {id : Nat} (hlive : st.Live id) :
    id < st.objectCount := by
  by_contra hge
  exact h.unused id (Nat.le_of_not_lt hge) hlive

/-- Replacing the record of a live object does not move the count. -/
theorem StoreInv.max_count {st : Store} (h : StoreInv st) {id : Nat} (hlive : st.Live id) :
    st.objectCount = max st.objectCount (id + 1) :=
  (Nat.max_eq_left (h.lt_count hlive)).symm

/-- What `storage_read` copies: the contents, as far as the buffer reaches. -/
theorem staged_eq_contents {st : Store} (h : TableOk st) {id : Int} (hread : st.Readable id)
    (bufLen : Nat) :
    (List.range (min (st.objects id.toNat).sizeBytes bufLen)).map (st.staged id.toNat) =
      (st.contents id.toNat).take bufLen := by
  rw [Store.contents, ← List.map_take, List.take_range, Nat.min_comm]
  refine List.map_congr_left fun i hi => ?_
  have hlt := List.mem_range.mp hi
  have hsize := (h.object id.toNat).size
  rw [Store.staged, if_pos (by omega), hread.1.lba h.toStoreInv]

theorem storageWrite_effect {st : Store} (h : TableOk st) (id : Int) (buf : Nat → UInt8)
    (len : Nat) :
    StoreEffect st (.write id buf len) (storageWrite st id buf len).1
      ⟨(storageWrite st id buf len).2, []⟩ := by
  unfold storageWrite
  by_cases hvalid : st.Valid id
  swap
  · rw [if_pos hvalid]
    exact .refused (Unwritten.refl st)
  by_cases hlen : objectMaxBytes < len
  · rw [if_neg (not_not.mpr hvalid), if_pos hlen]
    exact .refused (Unwritten.refl st)
  rw [if_neg (not_not.mpr hvalid), if_neg hlen]
  have hlen' : len ≤ objectMaxBytes := Nat.le_of_not_lt hlen
  have hlba := hvalid.lba h.toStoreInv
  cases hout : st.disk.outcome st.disk.requests with
  | ok =>
      dsimp only
      rw [halDiskWrite_ok hout, if_neg (not_not.mpr rfl), hlba]
      exact .written hvalid hlen' hout (directorySave_saved rfl (h.max_count hvalid.2.2) rfl)
  | fail n =>
      dsimp only
      rw [halDiskWrite_fail hout, if_pos (show (-1 : Int) ≠ 0 by decide), hlba]
      exact .torn hvalid hlen' hout

/-- **Every call has one of these effects.** -/
theorem storeCall_effect {st : Store} (h : TableOk st) (op : StoreOp) :
    StoreEffect st op (storeCall st op).1 (storeCall st op).2 := by
  have halloc : ∀ name op, op = .createObject name ∨ op = .createNamed name →
      findByName st name = none →
      StoreEffect st op (allocObject st name).1 ⟨(allocObject st name).2, []⟩ := by
    intro name op hop hnew
    unfold allocObject
    cases hpick : pickObject st with
    | none => exact .refused (Unwritten.refl st)
    | some id => exact .created hop hnew hpick (directorySave_saved rfl rfl rfl)
  cases op with
  | createObject name =>
      simp only [storeCall, storageCreateObject]
      split
      · rename_i id hfound
        exact .found hfound
      · rename_i hnew
        exact halloc name _ (Or.inl rfl) hnew
  | createNamed name =>
      simp only [storeCall, storageCreateNamed]
      split
      · exact .refused (Unwritten.refl st)
      · rename_i hnew
        exact halloc name _ (Or.inr rfl) hnew
  | read id bufLen =>
      simp only [storeCall]
      by_cases hread : st.Readable id
      swap
      · rw [storageRead_refused hread]
        exact .refused (Unwritten.refl st)
      rw [storageRead_readable hread]
      by_cases hok : st.disk.outcome st.disk.requests = .ok
      · rw [if_pos hok, staged_eq_contents h hread]
        exact .fetched hread ⟨rfl, rfl, rfl, rfl⟩
      · rw [if_neg hok]
        exact .refused ⟨rfl, rfl, rfl, rfl⟩
  | write id buf len => exact storageWrite_effect h id buf len
  | promote id =>
      simp only [storeCall, storagePromote]
      by_cases hvalid : st.Valid id
      swap
      · rw [if_pos hvalid]
        exact .refused (Unwritten.refl st)
      rw [if_neg (not_not.mpr hvalid)]
      split
      · exact .refused (Unwritten.refl st)
      · rename_i hlevel
        rw [not_or] at hlevel
        exact .promoted hvalid hlevel (directorySave_saved rfl (h.max_count hvalid.2.2) rfl)
  | reject id =>
      simp only [storeCall, storageReject]
      by_cases hvalid : st.Valid id
      · rw [if_neg (not_not.mpr hvalid)]
        exact .rejected hvalid (directorySave_saved rfl (h.max_count hvalid.2.2) rfl)
      · rw [if_pos hvalid]
        exact .refused (Unwritten.refl st)
  | rename id newName =>
      simp only [storeCall, storageRename]
      by_cases hnamed : st.Named id
      swap
      · rw [if_pos hnamed]
        exact .refused (Unwritten.refl st)
      rw [if_neg (not_not.mpr hnamed)]
      have hsaved : Saved st (directorySave (st.modify id.toNat fun obj =>
          { obj with name := copyName newName obj.name })) id.toNat
          { st.objects id.toNat with name := copyName newName (st.objects id.toNat).name } :=
        directorySave_saved rfl (h.max_count hnamed.2.2) rfl
      cases hfind : findByName st newName with
      | none => exact .renamed hnamed (fun j hj => by rw [hfind] at hj; cases hj) hsaved
      | some existing =>
          dsimp only
          by_cases hself : existing = id.toNat
          · rw [if_neg (not_not.mpr hself)]
            refine .renamed hnamed (fun j hj => ?_) hsaved
            rw [hfind, Option.some.injEq] at hj
            rw [← hj, hself]
          · rw [if_pos hself]
            exact .refused (Unwritten.refl st)
  | delete id =>
      simp only [storeCall, storageDelete]
      by_cases hnamed : st.Named id
      · rw [if_neg (not_not.mpr hnamed)]
        exact .deleted hnamed (directorySave_saved rfl (h.max_count hnamed.2.2) rfl)
      · rw [if_pos hnamed]
        exact .refused (Unwritten.refl st)

theorem storeStep_effect {st st' : Store} {op : StoreOp} {r : StoreReply} (hok : TableOk st)
    (h : storeStep st (.call op) = some (st', r)) : StoreEffect st op st' r := by
  have heffect := storeCall_effect hok op
  have hcall : storeCall st op = (st', r) := Option.some.inj h
  rw [hcall] at heffect
  exact heffect

/-- The table is well formed and the disk holds no directory or that of such a table. -/
structure StoreOk (st : Store) : Prop where
  table : TableOk st
  image : ImageOk (st.disk.sector directoryLba)

theorem Unwritten.tableOk {st st' : Store} (h : Unwritten st st') (hok : TableOk st) :
    TableOk st' := by
  refine ⟨⟨?_, fun id hid => ?_, fun id hlive => ?_⟩, fun id => ?_⟩
  · rw [h.count]
    exact hok.count
  · rw [Store.Live, h.objects]
    exact hok.unused id (by rw [← h.count]; exact hid)
  · rw [Store.Live, h.objects] at hlive
    rw [h.objects]
    exact hok.lba id hlive
  · rw [h.objects]
    exact hok.object id

theorem Unwritten.directory {st st' : Store} (h : Unwritten st st') :
    st'.directory = st.directory := by
  unfold Store.directory
  rw [h.objects]

theorem Unwritten.diskDirectory {st st' : Store} (h : Unwritten st st') :
    st'.disk.directory = st.disk.directory := by
  unfold Disk.directory
  rw [h.sector]

section Saving

variable {st st' : Store} {id : Nat} {obj : Object}

theorem Saved.directory (h : Saved st st' id obj) :
    st'.directory = Function.update st.directory id obj.entry := by
  funext j
  unfold Store.directory
  rw [h.objects]
  by_cases hj : j = id
  · subst hj
    rw [Function.update_self, Function.update_self]
  · rw [Function.update_of_ne hj, Function.update_of_ne hj]

/-- A saved record keeps the table well formed. -/
theorem Saved.tableOk (h : Saved st st' id obj) (hok : TableOk st) (hid : id < maxObjects)
    (hobj : ObjectOk obj)
    (hlba : obj.inUse ≠ 0 → obj.lba = objectDataBaseLba + id * sectorsPerObject) :
    TableOk st' := by
  have hother : ∀ j, j ≠ id → st'.objects j = st.objects j := by
    intro j hj
    rw [h.objects, Function.update_of_ne hj]
  have hself : st'.objects id = obj := by rw [h.objects, Function.update_self]
  refine ⟨⟨?_, fun j hj => ?_, fun j hlive => ?_⟩, fun j => ?_⟩
  · rw [h.count]
    exact Nat.max_le.mpr ⟨hok.count, hid⟩
  · rw [h.count] at hj
    rw [Store.Live, hother j (by omega)]
    exact hok.unused j (by omega)
  · by_cases hj : j = id
    · subst hj
      rw [Store.Live, hself] at hlive
      rw [hself]
      exact hlba hlive
    · rw [Store.Live, hother j hj] at hlive
      rw [hother j hj]
      exact hok.lba j hlive
  · by_cases hj : j = id
    · subst hj
      rw [hself]
      exact hobj
    · rw [hother j hj]
      exact hok.object j

/-- **The directory sector after a save**: the directory of the table, or what it held. -/
theorem Saved.diskDirectory (h : Saved st st' id obj) (hok : TableOk st') :
    st'.disk.directory = if st.disk.Lands then st'.directory else st.disk.directory := by
  unfold Disk.directory
  rw [h.sector directoryLba]
  by_cases hlands : st.disk.Lands
  · rw [if_pos ⟨rfl, hlands⟩, if_pos hlands, imageDirectory_directoryByte hok]
  · rw [if_neg fun hin => hlands hin.2, if_neg hlands]

theorem Saved.imageOk (h : Saved st st' id obj) (hok : TableOk st')
    (himage : ImageOk (st.disk.sector directoryLba)) : ImageOk (st'.disk.sector directoryLba) := by
  rw [h.sector directoryLba]
  by_cases hlands : st.disk.Lands
  · rw [if_pos ⟨rfl, hlands⟩]
    exact fun _ => ⟨st', hok, fun _ _ => rfl⟩
  · rw [if_neg fun hin => hlands hin.2]
    exact himage

end Saving

/-- Data sectors are not the directory. -/
theorem partly_directorySector (st : Store) (id : Nat) {n : Nat} (buf : Nat → UInt8) (len : Nat) :
    (st.partly id n buf len).disk.sector directoryLba = st.disk.sector directoryLba := by
  funext i
  simp only [Store.partly, Disk.torn, Disk.put]
  rw [if_neg]
  simp only [objectDataBaseLba, directoryLba]
  omega

/-- Only the sectors of object `id` are written. -/
theorem partly_sector (st : Store) {id j s : Nat} (hj : j ≠ id) (hs : DataSector j s) {n : Nat}
    (hn : n ≤ sectorsPerObject) (buf : Nat → UInt8) (len : Nat) :
    (st.partly id n buf len).disk.sector s = st.disk.sector s := by
  funext i
  simp only [Store.partly, Disk.torn, Disk.put]
  rw [if_neg]
  rintro ⟨hlow, hhigh⟩
  exact hj (hs.unique ⟨hlow, by omega⟩)

theorem partly_tableOk {st : Store} (h : TableOk st) (id n : Nat) (buf : Nat → UInt8) (len : Nat) :
    TableOk (st.partly id n buf len) :=
  ⟨⟨h.count, h.unused, h.lba⟩, h.object⟩

/-- A record that only the operations of `storage.c` have touched stays so. -/
theorem ObjectOk.trusted {obj : Object} (h : ObjectOk obj) {trust : Nat} (ht : trust ≤ objRejected) :
    ObjectOk { obj with trust := trust } := ⟨h.inUse, ht, h.size, h.name⟩

/-- **Every call keeps the table and the directory well formed.** -/
theorem StoreEffect.storeOk {st st' : Store} {op : StoreOp} {r : StoreReply}
    (h : StoreEffect st op st' r) (hok : StoreOk st) : StoreOk st' := by
  have hsaved : ∀ {mid : Store} {id : Nat} {obj : Object}, Saved mid st' id obj → StoreOk mid →
      id < maxObjects → ObjectOk obj →
      (obj.inUse ≠ 0 → obj.lba = objectDataBaseLba + id * sectorsPerObject) → StoreOk st' := by
    intro mid id obj hsave hmid hid hobj hlba
    have htable := hsave.tableOk hmid.table hid hobj hlba
    exact ⟨htable, hsave.imageOk htable hmid.image⟩
  have hpartly : ∀ id n buf len, StoreOk (st.partly id n buf len) := by
    intro id n buf len
    refine ⟨partly_tableOk hok.table id n buf len, ?_⟩
    rw [partly_directorySector]
    exact hok.image
  have hvalidId : ∀ {id : Int}, st.Valid id → id.toNat < maxObjects := by
    intro id hvalid
    have hlt := hvalid.2.1
    have hnonneg := hvalid.1
    omega
  have hlba : ∀ {id : Int}, st.Live id.toNat →
      (st.objects id.toNat).lba = objectDataBaseLba + id.toNat * sectorsPerObject :=
    fun hlive => hok.table.lba _ hlive
  have hnamedId : ∀ {id : Int}, st.Named id → id.toNat < maxObjects := by
    intro id hnamed
    have hlt := hnamed.2.1
    have hnonneg := hnamed.1
    have hcount := hok.table.count
    omega
  cases h with
  | refused hsame | fetched _ hsame =>
      refine ⟨hsame.tableOk hok.table, ?_⟩
      rw [hsame.sector]
      exact hok.image
  | found => exact hok
  | created _ _ hpick hsave =>
      refine hsaved hsave hok (pickObject_spec hok.table.toStoreInv hpick).2 ?_ fun _ => rfl
      exact ⟨Nat.le_refl 1, Nat.zero_le _, Nat.zero_le _, shortName_copyName _ _⟩
  | torn => exact hpartly _ _ _ _
  | @written id _ _ _ hvalid hlen _ hsave =>
      have hobj := hok.table.object id.toNat
      exact hsaved hsave (hpartly _ _ _ _) (hvalidId hvalid)
        ⟨hobj.inUse, Nat.zero_le _, hlen, hobj.name⟩ fun _ => hlba hvalid.2.2
  | @promoted id _ hvalid hlevel hsave =>
      have hobj := hok.table.object id.toNat
      refine hsaved hsave hok (hvalidId hvalid) (hobj.trusted ?_) fun _ => hlba hvalid.2.2
      exact Nat.lt_of_le_of_ne hobj.trust hlevel.2
  | rejected hvalid hsave =>
      exact hsaved hsave hok (hvalidId hvalid) ((hok.table.object _).trusted (Nat.le_refl _))
        fun _ => hlba hvalid.2.2
  | @renamed id _ _ hnamed _ hsave =>
      have hobj := hok.table.object id.toNat
      exact hsaved hsave hok (hnamedId hnamed)
        ⟨hobj.inUse, hobj.trust, hobj.size, shortName_copyName _ _⟩ fun _ => hlba hnamed.2.2
  | deleted hnamed hsave =>
      exact hsaved hsave hok (hnamedId hnamed)
        ⟨Nat.zero_le _, Nat.zero_le _, Nat.zero_le _, shortName_cleared _⟩
        fun hlive => absurd rfl hlive

theorem partly_diskDirectory (st : Store) (id n : Nat) (buf : Nat → UInt8) (len : Nat) :
    (st.partly id n buf len).disk.directory = st.disk.directory := by
  unfold Disk.directory
  rw [partly_directorySector]

/-- **The directory on the disk after a call** is that of the table, or the one before. -/
theorem StoreEffect.diskDirectory {st st' : Store} {op : StoreOp} {r : StoreReply}
    (h : StoreEffect st op st' r) (hok : StoreOk st) :
    st'.disk.directory = st'.directory ∨ st'.disk.directory = st.disk.directory := by
  have htable := (h.storeOk hok).table
  have hsaved : ∀ {mid : Store} {id : Nat} {obj : Object}, Saved mid st' id obj →
      mid.disk.directory = st.disk.directory →
      st'.disk.directory = st'.directory ∨ st'.disk.directory = st.disk.directory := by
    intro mid id obj hsave hmid
    have hdisk := hsave.diskDirectory htable
    split at hdisk
    · exact Or.inl hdisk
    · exact Or.inr (hdisk.trans hmid)
  cases h with
  | refused hsame | fetched _ hsame => exact Or.inr hsame.diskDirectory
  | found => exact Or.inr rfl
  | torn => exact Or.inr (partly_diskDirectory _ _ _ _ _)
  | written _ _ _ hsave => exact hsaved hsave (partly_diskDirectory _ _ _ _ _)
  | created _ _ _ hsave | promoted _ _ hsave | rejected _ hsave | renamed _ _ hsave
  | deleted _ hsave => exact hsaved hsave rfl

/-- The first sector of what `hal_disk_read` returns. -/
theorem bytes_directory (d : Disk) {i : Nat} (hi : i < 512) :
    d.bytes directoryLba i = d.sector directoryLba i := by
  rw [Disk.bytes, Nat.div_eq_of_lt hi, Nat.mod_eq_of_lt hi, Nat.add_zero]

/-- A boot reads one sector. -/
theorem bootStore_disk (d : Disk) (scratch : Nat → UInt8) :
    (bootStore d scratch).disk = { d with requests := d.requests + 1 } := by
  unfold bootStore storageInit directoryLoad halDiskRead
  rw [if_neg (by decide)]
  dsimp only
  split
  · rename_i hread
    split at hread
    · cases hread
    · cases hread
      rfl
  · rename_i hread
    split at hread
    · cases hread
      split
      · rfl
      · rfl
    · cases hread

/-- `storage_init` finds a directory: the sector can be read and has the magic. -/
def Disk.Loads (d : Disk) : Prop :=
  d.outcome d.requests = .ok ∧ readLE (d.sector directoryLba) 0 4 = directoryMagic

instance (d : Disk) : Decidable d.Loads := inferInstanceAs (Decidable (_ ∧ _))

/-- A record as the loop of `storage_init` clears it. -/
def clearedObject (obj : Object) : Object :=
  { inUse := 0, name := Function.update obj.name 0 0, lba := 0, sizeBytes := 0,
    trust := objUntrusted }

/-- The number of records in a directory sector. -/
def imageCount (dir : Nat → UInt8) : Nat := min (dir 4).toNat maxObjects

/-- **What `storage_init` makes of the sector**: the records below the count are loaded over
cleared ones, the others are only cleared. -/
theorem storageInit_spec (st : Store) :
    (storageInit st).objectCount =
      (if st.disk.Loads then imageCount (st.disk.sector directoryLba) else 0) ∧
    ∀ id, (storageInit st).objects id =
      if st.disk.Loads ∧ id < imageCount (st.disk.sector directoryLba) then
        loadObject (st.disk.sector directoryLba) id (clearedObject (st.objects id))
      else clearedObject (st.objects id) := by
  have hbytes : ∀ i < 512, st.disk.bytes directoryLba i = st.disk.sector directoryLba i :=
    fun i hi => bytes_directory st.disk hi
  unfold storageInit directoryLoad halDiskRead
  rw [if_neg (by decide)]
  dsimp only
  cases hout : st.disk.outcome st.disk.requests with
  | fail n =>
      have hno : ¬ st.disk.Loads := by simp [Disk.Loads, hout]
      rw [if_neg hno]
      exact ⟨rfl, fun id => (if_neg fun h => hno h.1).symm⟩
  | ok =>
      dsimp only
      rw [magic_congr hbytes, hbytes 4 (by decide)]
      by_cases hmagic : readLE (st.disk.sector directoryLba) 0 4 = directoryMagic
      · have hyes : st.disk.Loads := ⟨hout, hmagic⟩
        rw [if_neg (not_not.mpr hmagic), if_pos hyes]
        refine ⟨rfl, fun id => ?_⟩
        simp only [hyes, true_and]
        by_cases hid : id < imageCount (st.disk.sector directoryLba)
        · have hlt : id < maxObjects := Nat.lt_of_lt_of_le hid (Nat.min_le_right _ _)
          rw [if_pos hid, ← loadObject_congr hbytes hlt]
          exact if_pos hid
        · rw [if_neg hid]
          exact if_neg hid
      · have hno : ¬ st.disk.Loads := fun h => hmagic h.2
        rw [if_pos hmagic, if_neg hno]
        exact ⟨rfl, fun id => (if_neg fun h => hno h.1).symm⟩

/-- The record of every id after `storage_init`. -/
theorem bootStore_object (d : Disk) (scratch : Nat → UInt8) (id : Nat) :
    ∃ old : Object, old.inUse = 0 ∧ ObjectOk old ∧
      (bootStore d scratch).objects id =
        if d.outcome d.requests = .ok ∧ readLE (d.sector directoryLba) 0 4 = directoryMagic ∧
            id < min (d.sector directoryLba 4).toNat maxObjects then
          loadObject (d.sector directoryLba) id old
        else old := by
  refine ⟨clearedObject blankObject, rfl, ⟨Nat.zero_le _, Nat.zero_le _, Nat.zero_le _,
    shortName_cleared _⟩, ?_⟩
  unfold bootStore
  rw [(storageInit_spec _).2 id]
  simp only [Disk.Loads, imageCount, and_assoc]

/-- **The directory after a boot**: that of the disk, or none if it cannot be read. -/
theorem bootStore_directory (d : Disk) (scratch : Nat → UInt8) :
    (bootStore d scratch).directory =
      if d.outcome d.requests = .ok then d.directory else fun _ => none := by
  funext id
  obtain ⟨old, hdead, -, hobject⟩ := bootStore_object d scratch id
  unfold Store.directory
  rw [hobject]
  by_cases hok : d.outcome d.requests = .ok
  · rw [if_pos hok, Disk.directory, imageDirectory]
    by_cases hin : readLE (d.sector directoryLba) 0 4 = directoryMagic ∧
        id < min (d.sector directoryLba 4).toNat maxObjects
    · rw [if_pos ⟨hok, hin⟩, if_pos hin]
      simp [loadObject, Object.entry]
    · rw [if_neg fun h => hin h.2, if_neg hin, entry_of_dead hdead]
  · rw [if_neg hok, if_neg fun h => hok h.1, entry_of_dead hdead]

/-- A boot leaves a well-formed table. -/
theorem bootStore_storeOk {d : Disk} (scratch : Nat → UInt8)
    (himage : ImageOk (d.sector directoryLba)) : StoreOk (bootStore d scratch) := by
  refine ⟨⟨storageInit_inv _, fun id => ?_⟩, ?_⟩
  · obtain ⟨old, -, hold, hobject⟩ := bootStore_object d scratch id
    rw [hobject]
    split
    · rename_i hin
      obtain ⟨st, hok, hbytes⟩ := himage hin.2.1
      have hcount : (d.sector directoryLba 4).toNat = st.objectCount := by
        rw [hbytes 4 (by decide), directoryByte_count hok.count]
      have hid : id < st.objectCount := by
        rw [← hcount]
        exact Nat.lt_of_lt_of_le hin.2.2 (Nat.min_le_left _ _)
      have hobj := hok.object id
      rw [loadObject_congr hbytes (Nat.lt_of_lt_of_le hin.2.2 (Nat.min_le_right _ _)),
        loadObject_directoryByte hok hid]
      exact ⟨hobj.inUse, hobj.trust, hobj.size, shortName_copyName _ _⟩
    · exact hold
  · rw [bootStore_disk]
    exact himage

/-- **The table is well formed in every history.** -/
theorem StoreRun.storeOk {d : Disk} {scratch : Nat → UInt8} {tr : List StoreRecord} {st : Store}
    (hblank : d.Blank) (hrun : StoreRun d scratch tr st) : StoreOk st := by
  refine hrun.invariant (bootStore_storeOk scratch fun hmagic => absurd hmagic hblank) ?_
  intro st e o st' hok hstep
  cases e with
  | call op => exact (storeStep_effect hok.table hstep).storeOk hok
  | boot scratch =>
      cases hstep
      exact bootStore_storeOk scratch hok.image

/-- A blank disk holds no objects. -/
theorem Disk.Blank.directory {d : Disk} (h : d.Blank) : d.directory = fun _ => none := by
  funext id
  rw [Disk.directory, imageDirectory, if_neg fun hmagic => h hmagic.1]

/-- **The rule for directories.**  What holds of the empty directory and is kept by the
calls of a history holds of the table and of the disk at its end. -/
theorem StoreRun.directories {P : Directory → Prop} {Q : StoreOp → Prop} {d : Disk}
    {scratch : Nat → UInt8} {tr : List StoreRecord} {st : Store} (hempty : P fun _ => none)
    (hcall : ∀ {st st' : Store} {op : StoreOp} {r : StoreReply}, StoreOk st → P st.directory →
      Q op → StoreEffect st op st' r → P st'.directory)
    (hblank : d.Blank) (hrun : StoreRun d scratch tr st)
    (hops : ∀ t ∈ tr, ∀ op, t.event = .call op → Q op) : P st.directory ∧ P st.disk.directory := by
  have hboot : ∀ {d : Disk} {scratch : Nat → UInt8}, P d.directory →
      P (bootStore d scratch).directory ∧ P (bootStore d scratch).disk.directory := by
    intro d scratch hdisk
    rw [bootStore_directory, bootStore_disk]
    refine ⟨?_, hdisk⟩
    split
    · exact hdisk
    · exact hempty
  have hall := hrun.history_invariant
    (fun tr st => (∀ t ∈ tr, ∀ op, t.event = .call op → Q op) →
      P st.directory ∧ P st.disk.directory) ?_ ?_
  · exact hall hops
  · intro _
    apply hboot
    rw [hblank.directory]
    exact hempty
  · intro tr st e o st' hrun hold hstep hops
    have hbefore := hold fun t ht => hops t (List.mem_cons_of_mem _ ht)
    have hok := StoreRun.storeOk hblank hrun
    cases e with
    | call op =>
        have heffect := storeStep_effect hok.table hstep
        have hnext := hcall hok hbefore.1 (hops _ List.mem_cons_self op rfl) heffect
        refine ⟨hnext, ?_⟩
        rcases heffect.diskDirectory hok with hdisk | hdisk
        · rw [hdisk]
          exact hnext
        · rw [hdisk]
          exact hbefore.2
    | boot scratch =>
        cases hstep
        exact hboot hbefore.2

/-- A disk of zeros that answers every request. -/
def zeroDisk : Disk := { sector := fun _ _ => 0, outcome := fun _ => .ok, requests := 0 }

/-- A list of events from the first boot of a blank disk on. -/
def storeHistory (disk : Disk) (events : List StoreEvent) : Option (List StoreRecord × Store) :=
  runTrace storeStep [] (bootStore disk fun _ => 0) events

end Vajra
