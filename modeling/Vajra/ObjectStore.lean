import Vajra.ByteMemory

/-!
# The object store and its disk (`core/storage.c`, `hal/x86_64/ata.c`)

Eight object slots, each backed by four disk sectors of its own, and one
directory sector that is rewritten after every change.  A name is the C array
`char name[16]`, read up to its first NUL; a name argument is whatever bytes
follow the pointer passed in.

The disk is its sectors together with the outcome of every request it will ever
be sent: a request completes, or fails after some of its sectors have been
transferred.  A disk that never fails is one whose outcomes are all `ok`.
-/

namespace Vajra

open ByteMemory

def maxObjects : Nat := 8
def sectorsPerObject : Nat := 4
def objectMaxBytes : Nat := sectorsPerObject * 512
def objectDataBaseLba : Nat := 130
def directoryLba : Nat := 125
def directoryMagic : Nat := 0x52494456

-- `obj_trust_t` is loaded unchecked from a directory byte, so it is the number
-- itself and not a five-element type.
def objUntrusted : Nat := 0
def objQuarantined : Nat := 1
def objAnalyzed : Nat := 2
def objTrusted : Nat := 3
def objRejected : Nat := 4

/-- How a disk request ends. -/
inductive DiskOutcome where
  | ok
  | fail (transferred : Nat)
  deriving DecidableEq

structure Disk where
  sector : Nat → Nat → UInt8
  outcome : Nat → DiskOutcome
  requests : Nat

/-- Sectors `lba`, `lba + 1`, … as one buffer. -/
def Disk.bytes (d : Disk) (lba : Nat) : Nat → UInt8 :=
  fun i => d.sector (lba + i / 512) (i % 512)

/-- The sectors after `n` of them have been written from `buf` at `lba`. -/
def Disk.put (d : Disk) (lba n : Nat) (buf : Nat → UInt8) : Nat → Nat → UInt8 :=
  fun s i => if lba ≤ s ∧ s < lba + n then buf ((s - lba) * 512 + i) else d.sector s i

/-- `hal_disk_read`: the data, or nothing on any failure. -/
def halDiskRead (d : Disk) (lba count : Nat) : Disk × Option (Nat → UInt8) :=
  if count = 0 ∨ 255 < count then (d, none)
  else
    match d.outcome d.requests with
    | .ok => ({ d with requests := d.requests + 1 }, some (d.bytes lba))
    | .fail _ => ({ d with requests := d.requests + 1 }, none)

/-- `hal_disk_write`: `0`, or `-1` with the first sectors possibly written. -/
def halDiskWrite (d : Disk) (lba count : Nat) (buf : Nat → UInt8) : Disk × Int :=
  if count = 0 ∨ 255 < count then (d, -1)
  else
    match d.outcome d.requests with
    | .ok => ({ d with sector := d.put lba count buf, requests := d.requests + 1 }, 0)
    | .fail n =>
        ({ d with sector := d.put lba (min n count) buf, requests := d.requests + 1 }, -1)

/-- `struct object`. -/
structure Object where
  inUse : Nat
  name : Nat → UInt8
  lba : Nat
  sizeBytes : Nat
  trust : Nat

/-- The statics of `storage.c` and the disk behind them.  `scratch` is the
staging buffer and whatever memory the linker put behind it. -/
structure Store where
  objects : Nat → Object
  objectCount : Nat
  scratch : Nat → UInt8
  disk : Disk

/-- Object `id` exists. -/
def Store.Live (st : Store) (id : Nat) : Prop := (st.objects id).inUse ≠ 0

instance (st : Store) (id : Nat) : Decidable (st.Live id) :=
  inferInstanceAs (Decidable (_ ≠ _))

def Store.modify (st : Store) (id : Nat) (f : Object → Object) : Store :=
  { st with objects := Function.update st.objects id (f (st.objects id)) }

/-- Where the copy loops `for (; i < 15 && src[i]; i++)` stop. -/
def nameLength (src : Nat → UInt8) : Nat :=
  ((List.range 15).find? fun i => src i = 0).getD 15

/-- Copy a name and terminate it; the bytes behind the NUL keep their value. -/
def copyName (src dst : Nat → UInt8) : Nat → UInt8 :=
  fun i => if i < nameLength src then src i else if i = nameLength src then 0 else dst i

/-- The loop of `name_eq` from index `16 - fuel` on. -/
def nameEqFrom (stored given : Nat → UInt8) : Nat → Nat → Bool
  | 0, _ => true
  | fuel+1, i =>
      if stored i ≠ given i then false
      else if stored i = 0 then true
      else nameEqFrom stored given fuel (i+1)

/-- `name_eq`. -/
def nameEq (stored given : Nat → UInt8) : Bool := nameEqFrom stored given 16 0

/-- `find_by_name`. -/
def findByName (st : Store) (name : Nat → UInt8) : Option Nat :=
  (List.range st.objectCount).find? fun id =>
    st.Live id ∧ nameEq (st.objects id).name name

/-- One byte of the directory image `directory_save` builds in `dir_buf`: the
magic, the count, and a 32-byte entry for each id below `object_count`. -/
def directoryByte (st : Store) (off : Nat) : UInt8 :=
  let id := (off - 8) / 32
  let field := (off - 8) % 32
  let obj := st.objects id
  if off < 4 then leByte directoryMagic off
  else if off = 4 then UInt8.ofNat st.objectCount
  else if off < 8 ∨ st.objectCount ≤ id then 0
  else if field = 0 then UInt8.ofNat obj.inUse
  else if field = 1 then UInt8.ofNat obj.trust
  else if 4 ≤ field ∧ field < 8 then leByte obj.sizeBytes (field - 4)
  else if 8 ≤ field ∧ field - 8 < nameLength obj.name then obj.name (field - 8)
  else 0

/-- `directory_save`; the outcome of its write is ignored. -/
def directorySave (st : Store) : Store :=
  { st with disk := (halDiskWrite st.disk directoryLba 1 (directoryByte st)).1 }

/-- One entry of `directory_load`'s loop. -/
def loadObject (dir : Nat → UInt8) (id : Nat) (old : Object) : Object :=
  let off := 8 + id * 32
  { inUse := (dir off).toNat
    trust := (dir (off + 1)).toNat
    sizeBytes := readLE dir (off + 4) 4
    name := copyName (fun j => dir (off + 8 + j)) old.name
    lba := objectDataBaseLba + id * sectorsPerObject }

/-- `directory_load`. -/
def directoryLoad (st : Store) : Store :=
  match halDiskRead st.disk directoryLba 1 with
  | (disk, none) => { st with disk := disk }
  | (disk, some dir) =>
      if readLE dir 0 4 ≠ directoryMagic then { st with disk := disk }
      else
        let count := min (dir 4).toNat maxObjects
        { st with
          objects := fun id =>
            if id < count then loadObject dir id (st.objects id) else st.objects id
          objectCount := count
          disk := disk }

/-- `storage_init`. -/
def storageInit (st : Store) : Store :=
  directoryLoad
    { st with
      objects := fun id =>
        { inUse := 0, name := Function.update (st.objects id).name 0 0, lba := 0,
          sizeBytes := 0, trust := objUntrusted }
      objectCount := 0 }

/-- The slot `alloc_object` picks: a freed one before it grows the count. -/
def pickObject (st : Store) : Option Nat :=
  match (List.range st.objectCount).find? fun i => ¬ st.Live i with
  | some i => some i
  | none => if maxObjects ≤ st.objectCount then none else some st.objectCount

/-- `alloc_object`. -/
def allocObject (st : Store) (name : Nat → UInt8) : Store × Int :=
  match pickObject st with
  | none => (st, -1)
  | some id =>
      let grown := { st with objectCount := max st.objectCount (id + 1) }
      (directorySave (grown.modify id fun obj =>
        { inUse := 1, name := copyName name obj.name,
          lba := objectDataBaseLba + id * sectorsPerObject, sizeBytes := 0,
          trust := objUntrusted }), id)

/-- `storage_create_object`: idempotent by name. -/
def storageCreateObject (st : Store) (name : Nat → UInt8) : Store × Int :=
  match findByName st name with
  | some id => (st, id)
  | none => allocObject st name

/-- `storage_create_named`: strict, refuses a name that is taken. -/
def storageCreateNamed (st : Store) (name : Nat → UInt8) : Store × Int :=
  match findByName st name with
  | some _ => (st, -1)
  | none => allocObject st name

/-- `storage_lookup_by_name`. -/
def storageLookupByName (st : Store) (name : Nat → UInt8) : Int :=
  match findByName st name with
  | some id => id
  | none => -1

/-- The check of `storage_rename` and `storage_delete`. -/
def Store.Named (st : Store) (id : Int) : Prop :=
  0 ≤ id ∧ id < st.objectCount ∧ st.Live id.toNat

/-- The check of the remaining operations, against `MAX_OBJECTS`. -/
def Store.Valid (st : Store) (id : Int) : Prop :=
  0 ≤ id ∧ id < maxObjects ∧ st.Live id.toNat

instance (st : Store) (id : Int) : Decidable (st.Named id) :=
  inferInstanceAs (Decidable (_ ∧ _))
instance (st : Store) (id : Int) : Decidable (st.Valid id) :=
  inferInstanceAs (Decidable (_ ∧ _))

/-- What `storage_get_by_index` hands back, with `name_buf`'s final bytes. -/
structure ObjectInfo where
  id : Nat
  trust : Nat
  sizeBytes : Nat
  name : Nat → UInt8

/-- `storage_get_by_index`: the `nth` live object in id order.  `nameBuf` is
what the caller's buffer held before. -/
def storageGetByIndex (st : Store) (nth : Int) (nameBuf : Nat → UInt8) : Option ObjectInfo :=
  let live := (List.range st.objectCount).filter fun id => st.Live id
  if nth < 0 then none
  else
    match live[nth.toNat]? with
    | none => none
    | some id =>
        let obj := st.objects id
        some { id := id, trust := obj.trust, sizeBytes := obj.sizeBytes,
               name := copyName obj.name nameBuf }

/-- `storage_rename`. -/
def storageRename (st : Store) (id : Int) (newName : Nat → UInt8) : Store × Int :=
  if ¬ st.Named id then (st, -1)
  else
    match findByName st newName with
    | some existing =>
        if existing ≠ id.toNat then (st, -1)
        else (directorySave (st.modify id.toNat fun obj =>
          { obj with name := copyName newName obj.name }), 0)
    | none => (directorySave (st.modify id.toNat fun obj =>
        { obj with name := copyName newName obj.name }), 0)

/-- `storage_delete`. -/
def storageDelete (st : Store) (id : Int) : Store × Int :=
  if ¬ st.Named id then (st, -1)
  else
    (directorySave (st.modify id.toNat fun obj =>
      { obj with inUse := 0, name := Function.update obj.name 0 0, sizeBytes := 0,
                 trust := objUntrusted }), 0)

/-- `storage_read`: the bytes copied to the caller's buffer, or nothing for
`-1`.  The copy runs to `size_bytes` and is not limited to the staging buffer. -/
def storageRead (st : Store) (id : Int) (bufLen : Nat) : Store × Option (List UInt8) :=
  if ¬ st.Valid id then (st, none)
  else if (st.objects id.toNat).trust = objRejected then (st, none)
  else
    match halDiskRead st.disk (st.objects id.toNat).lba sectorsPerObject with
    | (disk, none) => ({ st with disk := disk }, none)
    | (disk, some data) =>
        let scratch := fun i => if i < objectMaxBytes then data i else st.scratch i
        ({ st with disk := disk, scratch := scratch },
          some ((List.range (min (st.objects id.toNat).sizeBytes bufLen)).map scratch))

/-- `storage_write`. -/
def storageWrite (st : Store) (id : Int) (buf : Nat → UInt8) (len : Nat) : Store × Int :=
  if ¬ st.Valid id then (st, -1)
  else if objectMaxBytes < len then (st, -1)
  else
    let scratch := fun i =>
      if i < objectMaxBytes then (if i < len then buf i else 0) else st.scratch i
    match halDiskWrite st.disk (st.objects id.toNat).lba sectorsPerObject scratch with
    | (disk, rc) =>
        if rc ≠ 0 then ({ st with disk := disk, scratch := scratch }, -1)
        else
          let written := { st with disk := disk, scratch := scratch }
          (directorySave (written.modify id.toNat fun obj =>
            { obj with sizeBytes := len, trust := objUntrusted }), len)

/-- `storage_promote`. -/
def storagePromote (st : Store) (id : Int) : Store × Int :=
  if ¬ st.Valid id then (st, -1)
  else if (st.objects id.toNat).trust = objTrusted ∨
      (st.objects id.toNat).trust = objRejected then (st, -1)
  else
    (directorySave (st.modify id.toNat fun obj => { obj with trust := obj.trust + 1 }),
      (st.objects id.toNat).trust + 1)

/-- `storage_reject`. -/
def storageReject (st : Store) (id : Int) : Store × Int :=
  if ¬ st.Valid id then (st, -1)
  else (directorySave (st.modify id.toNat fun obj => { obj with trust := objRejected }), 0)

/-- `storage_get_trust`. -/
def storageGetTrust (st : Store) (id : Int) : Int :=
  if ¬ st.Valid id then -1 else (st.objects id.toNat).trust

/-- A NUL-terminated string of the kernel image. -/
def cstring (s : List UInt8) : Nat → UInt8 := fun i => s.getD i 0

end Vajra
