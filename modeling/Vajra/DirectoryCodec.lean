import Vajra.StoreHistory

/-!
# The directory sector as a format

`directory_save` and `directory_load` are inverse to each other on the tables the format is
made for (`directory_codec_round_trip`): eight records of 32 bytes behind a magic and a
count, with sizes of 32 bits and names of at most 15 bytes.

A sector that did not come from `directory_save` is checked for its count and its names are
terminated, but a size or a trust level is taken as it stands.  `SoundDirectory` is what
that leaves open, and `corrupt_directory_iff` says that it is exactly what `storage_init`
and every later `storage_read` need.
-/

namespace Vajra

open ByteMemory

/-- A table the format can hold. -/
structure Encodable (st : Store) : Prop where
  count : st.objectCount ≤ maxObjects
  inUse : ∀ id < st.objectCount, (st.objects id).inUse ≤ 1
  trust : ∀ id < st.objectCount, (st.objects id).trust ≤ objRejected
  size : ∀ id < st.objectCount, (st.objects id).sizeBytes < 2 ^ 32
  name : ∀ id < st.objectCount, ShortName (st.objects id).name

/-- The records of `st` have been restored in `st'`. -/
structure Restored (st st' : Store) : Prop where
  count : st'.objectCount = st.objectCount
  inUse : ∀ id < st.objectCount, (st'.objects id).inUse = (st.objects id).inUse
  trust : ∀ id < st.objectCount, (st'.objects id).trust = (st.objects id).trust
  size : ∀ id < st.objectCount, (st'.objects id).sizeBytes = (st.objects id).sizeBytes
  name : ∀ id < st.objectCount, ShortName (st'.objects id).name ∧
    nameString (st'.objects id).name = nameString (st.objects id).name
  lba : ∀ id < st.objectCount,
    (st'.objects id).lba = objectDataBaseLba + id * sectorsPerObject
  unused : ∀ id, st.objectCount ≤ id → ¬ st'.Live id

/-- `directory_save` in `st` reached the disk, and `pre` can read the sector it wrote. -/
structure SavedFor (st pre : Store) : Prop where
  landed : st.disk.Lands
  sector : ∀ i < 512,
    pre.disk.sector directoryLba i = (directorySave st).disk.sector directoryLba i
  readable : pre.disk.outcome pre.disk.requests = .ok

/-- The sector after `directory_save`. -/
theorem directorySave_image {st : Store} (h : st.disk.Lands) :
    (directorySave st).disk.sector directoryLba = directoryByte st := by
  have hwrite := halDiskWrite_one st.disk directoryLba (directoryByte st) directoryLba
  rw [if_pos ⟨rfl, h⟩] at hwrite
  exact hwrite

theorem imageCount_directoryByte {st : Store} (h : st.objectCount ≤ maxObjects) :
    imageCount (directoryByte st) = st.objectCount := by
  rw [imageCount, directoryByte_count h, Nat.min_eq_left h]

section Saved

variable {st pre : Store}

theorem SavedFor.image (h : SavedFor st pre) :
    ∀ i < 512, pre.disk.sector directoryLba i = directoryByte st i := by
  intro i hi
  rw [h.sector i hi, directorySave_image h.landed]

theorem SavedFor.loads (h : SavedFor st pre) : pre.disk.Loads := by
  refine ⟨h.readable, ?_⟩
  rw [magic_congr h.image]
  exact directoryByte_magic st

theorem SavedFor.imageCount (h : SavedFor st pre) (hcount : st.objectCount ≤ maxObjects) :
    imageCount (pre.disk.sector directoryLba) = st.objectCount := by
  rw [← imageCount_directoryByte hcount]
  unfold Vajra.imageCount
  rw [h.image 4 (by decide)]

/-- The count `storage_init` restores. -/
theorem SavedFor.objectCount (h : SavedFor st pre) (hcount : st.objectCount ≤ maxObjects) :
    (storageInit pre).objectCount = st.objectCount := by
  rw [(storageInit_spec pre).1, if_pos h.loads, h.imageCount hcount]

/-- The record `storage_init` restores. -/
theorem SavedFor.object (h : SavedFor st pre) (hcount : st.objectCount ≤ maxObjects) {id : Nat}
    (hid : id < st.objectCount) :
    (storageInit pre).objects id =
      { inUse := (st.objects id).inUse % 2 ^ 8
        trust := (st.objects id).trust % 2 ^ 8
        sizeBytes := (st.objects id).sizeBytes % 2 ^ 32
        name := copyName (st.objects id).name (clearedObject (pre.objects id)).name
        lba := objectDataBaseLba + id * sectorsPerObject } := by
  rw [(storageInit_spec pre).2 id, h.imageCount hcount, if_pos ⟨h.loads, hid⟩,
    loadObject_congr h.image (Nat.lt_of_lt_of_le hid hcount), loadObject_image hid]

theorem SavedFor.restored (h : SavedFor st pre) (hst : Encodable st) :
    Restored st (storageInit pre) := by
  have hobject : ∀ id < st.objectCount, _ := fun id hid => h.object hst.count hid
  refine ⟨h.objectCount hst.count, fun id hid => ?_, fun id hid => ?_, fun id hid => ?_,
    fun id hid => ?_, fun id hid => ?_, fun id hid => ?_⟩
  · rw [hobject id hid]
    exact Nat.mod_eq_of_lt (Nat.lt_of_le_of_lt (hst.inUse id hid) (by decide))
  · rw [hobject id hid]
    exact Nat.mod_eq_of_lt (Nat.lt_of_le_of_lt (hst.trust id hid) (by decide))
  · rw [hobject id hid]
    exact Nat.mod_eq_of_lt (hst.size id hid)
  · rw [hobject id hid]
    exact ⟨shortName_copyName _ _, nameString_copyName _ _⟩
  · rw [hobject id hid]
  · rw [Store.Live, (storageInit_spec pre).2 id, h.imageCount hst.count,
      if_neg fun hin => absurd hin.2 (Nat.not_lt.mpr hid)]
    exact not_not.mpr rfl

end Saved

/-- Only the low 32 bits of a size reach the sector. -/
theorem leByte_mod (v : Nat) {i : Nat} (hi : i < 4) : leByte (v % 2 ^ 32) i = leByte v i := by
  apply UInt8.toNat_inj.mp
  rw [leByte_toNat, leByte_toNat]
  rcases (by omega : i = 0 ∨ i = 1 ∨ i = 2 ∨ i = 3) with rfl | rfl | rfl | rfl <;> omega

theorem ofNat_mod (n : Nat) : UInt8.ofNat (n % 2 ^ 8) = UInt8.ofNat n := by
  apply UInt8.toNat_inj.mp
  rw [UInt8.toNat_ofNat', UInt8.toNat_ofNat']
  exact Nat.mod_mod n (2 ^ 8)

/-- **The image depends on the low bytes of the numbers and on the names up to their NUL.** -/
theorem directoryByte_congr {st st' : Store} (hcount : st'.objectCount = st.objectCount)
    (hobject : ∀ id < st.objectCount,
      (st'.objects id).inUse = (st.objects id).inUse % 2 ^ 8 ∧
      (st'.objects id).trust = (st.objects id).trust % 2 ^ 8 ∧
      (st'.objects id).sizeBytes = (st.objects id).sizeBytes % 2 ^ 32 ∧
      ∃ old, (st'.objects id).name = copyName (st.objects id).name old) :
    directoryByte st' = directoryByte st := by
  funext off
  by_cases hin : off < 8 ∨ st.objectCount ≤ (off - 8) / 32
  · unfold directoryByte
    simp only [hcount, hin, if_true]
  · obtain ⟨id, field, hfield, rfl⟩ : ∃ id field, field < 32 ∧ off = 8 + id * 32 + field :=
      ⟨(off - 8) / 32, (off - 8) % 32, Nat.mod_lt _ (by decide), by omega⟩
    have hid : id < st.objectCount := by omega
    obtain ⟨huse, htrust, hsize, old, hname⟩ := hobject id hid
    rw [directoryByte_entry st hid hfield, directoryByte_entry st' (hcount ▸ hid) hfield, huse,
      htrust, hsize, hname, nameLength_copyName, ofNat_mod, ofNat_mod]
    split
    · rfl
    · split
      · rfl
      · split
        · exact leByte_mod _ (by omega)
        · split
          · exact if_pos (by omega)
          · rfl

/-- **The codec of the directory.**  For every table the format can hold, `storage_init` on
the sector that `directory_save` wrote restores the count and, below it, every record with
the sectors of its id, and leaves every other slot unused, whatever the statics held before.
Conversely, a sector that `directory_save` wrote from any table at all is written again byte
for byte when it is loaded and saved. -/
theorem directory_codec_round_trip :
    (∀ st pre : Store, Encodable st → SavedFor st pre → Restored st (storageInit pre)) ∧
    ∀ st pre : Store, st.objectCount ≤ maxObjects → SavedFor st pre →
      (storageInit pre).disk.Lands → ∀ i < 512,
        (directorySave (storageInit pre)).disk.sector directoryLba i =
          pre.disk.sector directoryLba i := by
  refine ⟨fun st pre hst hsaved => hsaved.restored hst, ?_⟩
  intro st pre hcount hsaved hlands i hi
  have hsame : directoryByte (storageInit pre) = directoryByte st := by
    refine directoryByte_congr (hsaved.objectCount hcount) fun id hid => ?_
    rw [hsaved.object hcount hid]
    exact ⟨rfl, rfl, rfl, _, rfl⟩
  rw [directorySave_image hlands, hsame, hsaved.image i hi]

/-- A deleted object and one with a name of fifteen letters, both with sizes of 32 bits. -/
def sampleTable : Store :=
  { objects := fun id =>
      { inUse := id, name := cstring (List.replicate (15 * id) 0x61), lba := 0,
        sizeBytes := 2 ^ 32 - 1, trust := 4 * id }
    objectCount := 2
    scratch := fun _ => 0
    disk := zeroDisk }

/-- The statics are as they were, and the disk holds the directory. -/
def sampleReset : Store := { sampleTable with disk := (directorySave sampleTable).disk }

theorem directory_codec_round_trip_sample :
    Restored sampleTable (storageInit sampleReset) ∧
      ∀ i < 512, (directorySave (storageInit sampleReset)).disk.sector directoryLba i =
        sampleReset.disk.sector directoryLba i := by
  have hst : Encodable sampleTable :=
    ⟨by decide, by decide, by decide, by decide, by decide⟩
  have hsaved : SavedFor sampleTable sampleReset := ⟨by decide, fun _ _ => rfl, by decide⟩
  exact ⟨directory_codec_round_trip.1 _ _ hst hsaved,
    directory_codec_round_trip.2 _ _ hst.count hsaved (by decide)⟩

/-- What every object of the store is meant to satisfy. -/
structure SoundObject (obj : Object) : Prop where
  size : obj.sizeBytes ≤ objectMaxBytes
  trust : obj.trust ≤ objRejected
  name : ShortName obj.name

/-- All eight slots are sound, in use or not. -/
def SoundTable (st : Store) : Prop :=
  st.objectCount ≤ maxObjects ∧ ∀ id < maxObjects, SoundObject (st.objects id)

/-- All objects in use are sound. -/
def SoundLive (st : Store) : Prop :=
  st.objectCount ≤ maxObjects ∧ ∀ id < maxObjects, st.Live id → SoundObject (st.objects id)

/-- The record of `id` in a directory sector has a size and a trust level of the store. -/
def SoundRecord (dir : Nat → UInt8) (id : Nat) : Prop :=
  readLE dir (8 + id * 32 + 4) 4 ≤ objectMaxBytes ∧ (dir (8 + id * 32 + 1)).toNat ≤ objRejected

/-- The state after some calls of `storage.c`. -/
def storeCalls (st : Store) (ops : List StoreOp) : Store :=
  ops.foldl (fun st op => (storeCall st op).1) st

/-- The indices at which the copy loop of `storage_read` reads the staging buffer. -/
def scratchIndices : Option (List UInt8) → List Nat
  | none => []
  | some bytes => List.range bytes.length

/-- The value of `storage_read`, `(int)n` for the unsigned count `n`. -/
def readValue : Option (List UInt8) → Int
  | none => -1
  | some bytes => (bytes.length : Int).bmod (2 ^ 32)

/-- Every `storage_read` stays inside the staging buffer and returns `-1` or a count. -/
def ReadsInBounds (st : Store) : Prop :=
  ∀ id : Int, ∀ bufLen < 2 ^ 32,
    (∀ i ∈ scratchIndices (storageRead st id bufLen).2, i < objectMaxBytes) ∧
    (readValue (storageRead st id bufLen).2 = -1 ∨
      0 ≤ readValue (storageRead st id bufLen).2 ∧
        readValue (storageRead st id bufLen).2 ≤ objectMaxBytes)

theorem SoundTable.live {st : Store} (h : SoundTable st) : SoundLive st :=
  ⟨h.1, fun id hid _ => h.2 id hid⟩

/-- A count below 2³¹ is returned as it is. -/
theorem readValue_some {bytes : List UInt8} (h : bytes.length < 2 ^ 31) :
    readValue (some bytes) = bytes.length := by
  unfold readValue
  exact Int.bmod_eq_of_le (by omega) (by omega)

/-- `storage_read` copies nothing, or as much of an object in use as the caller takes. -/
theorem storageRead_length (st : Store) (id : Int) (bufLen : Nat) :
    (storageRead st id bufLen).2 = none ∨
    st.Valid id ∧ ∃ bytes, (storageRead st id bufLen).2 = some bytes ∧
      bytes.length = min (st.objects id.toNat).sizeBytes bufLen := by
  by_cases hread : st.Readable id
  swap
  · rw [storageRead_refused hread]
    exact Or.inl rfl
  rw [storageRead_readable hread]
  split
  · exact Or.inr ⟨hread.1, _, rfl, by rw [List.length_map, List.length_range]⟩
  · exact Or.inl rfl

/-- **Sound objects are read in bounds.** -/
theorem SoundLive.readsInBounds {st : Store} (h : SoundLive st) : ReadsInBounds st := by
  intro id bufLen _
  rcases storageRead_length st id bufLen with hnone | ⟨⟨_, hlt, hlive⟩, bytes, hsome, hlength⟩
  · rw [hnone]
    exact ⟨fun i hi => absurd hi List.not_mem_nil, Or.inl rfl⟩
  · rw [hsome]
    have hsize := (h.2 id.toNat (by omega) hlive).size
    have hle : bytes.length ≤ 2048 := hlength ▸ Nat.le_trans (Nat.min_le_left _ _) hsize
    rw [readValue_some (by omega)]
    refine ⟨fun i hi => ?_, Or.inr ⟨Int.natCast_nonneg _, Int.ofNat_le.mpr hle⟩⟩
    exact Nat.lt_of_lt_of_le (List.mem_range.mp hi) hle

/-- A call that replaces one record by one that is sound if it is in use. -/
theorem SoundLive.update {st st' : Store} (h : SoundLive st) {id : Nat} {obj : Object}
    (hcount : st'.objectCount ≤ maxObjects) (hobjects : st'.objects = Function.update st.objects id obj)
    (hobj : id < maxObjects → obj.inUse ≠ 0 → SoundObject obj) : SoundLive st' := by
  refine ⟨hcount, fun j hj hlive => ?_⟩
  rw [Store.Live, hobjects] at hlive
  rw [hobjects]
  by_cases heq : j = id
  · subst heq
    rw [Function.update_self] at hlive ⊢
    exact hobj hj hlive
  · rw [Function.update_of_ne heq] at hlive ⊢
    exact h.2 j hj hlive

theorem SoundLive.same {st st' : Store} (h : SoundLive st) (hcount : st'.objectCount = st.objectCount)
    (hobjects : st'.objects = st.objects) : SoundLive st' := by
  unfold SoundLive Store.Live
  rw [hcount, hobjects]
  exact h

theorem SoundLive.allocObject {st : Store} (h : SoundLive st) (name : Nat → UInt8) :
    SoundLive (allocObject st name).1 := by
  unfold Vajra.allocObject
  cases hpick : pickObject st with
  | none => exact h
  | some id =>
      have hid : id < maxObjects := pickObject_lt h.1 hpick
      have hmax : max st.objectCount (id + 1) ≤ maxObjects := Nat.max_le.mpr ⟨h.1, hid⟩
      exact h.update hmax rfl fun _ _ => ⟨Nat.zero_le _, Nat.zero_le _, shortName_copyName _ _⟩

/-- **Every call keeps the objects in use sound**, whatever the disk answers. -/
theorem SoundLive.storeCall {st : Store} (h : SoundLive st) (op : StoreOp) :
    SoundLive (storeCall st op).1 := by
  have hsound : ∀ {id : Int}, id.toNat < maxObjects → st.Live id.toNat →
      SoundObject (st.objects id.toNat) := fun hlt hlive => h.2 _ hlt hlive
  cases op with
  | createObject name =>
      simp only [Vajra.storeCall, storageCreateObject]
      split
      · exact h
      · exact h.allocObject name
  | createNamed name =>
      rcases storageCreateNamed_cases st name with heq | heq
      · simp only [Vajra.storeCall, heq]
        exact h
      · simp only [Vajra.storeCall, heq]
        exact h.allocObject name
  | read id bufLen =>
      have hsame := storageRead_same st id bufLen
      exact h.same hsame.count hsame.objects
  | write id buf len =>
      simp only [Vajra.storeCall, storageWrite]
      split
      · exact h
      rename_i hvalid
      rw [not_not] at hvalid
      split
      · exact h
      rename_i hlen
      split
      · exact h.same rfl rfl
      · refine h.update h.1 rfl fun hlt _ => ?_
        have hobj := hsound hlt hvalid.2.2
        exact ⟨by dsimp only; omega, Nat.zero_le _, hobj.name⟩
  | promote id =>
      simp only [Vajra.storeCall, storagePromote]
      split
      · exact h
      rename_i hvalid
      rw [not_not] at hvalid
      split
      · exact h
      rename_i hend
      refine h.update h.1 rfl fun hlt _ => ?_
      have hobj := hsound hlt hvalid.2.2
      have htrust := hobj.trust
      simp only [objTrusted, objRejected] at hend htrust
      exact ⟨hobj.size, by simp only [objRejected]; omega, hobj.name⟩
  | reject id =>
      simp only [Vajra.storeCall, storageReject]
      split
      · exact h
      rename_i hvalid
      rw [not_not] at hvalid
      refine h.update h.1 rfl fun hlt _ => ?_
      have hobj := hsound hlt hvalid.2.2
      exact ⟨hobj.size, Nat.le_refl _, hobj.name⟩
  | rename id newName =>
      simp only [Vajra.storeCall, storageRename]
      split
      · exact h
      rename_i hnamed
      rw [not_not] at hnamed
      have hrenamed : ∀ disk, SoundLive { st.modify id.toNat fun obj =>
          { obj with name := copyName newName obj.name } with disk := disk } := by
        intro disk
        refine h.update h.1 rfl fun hlt _ => ?_
        have hobj := hsound hlt hnamed.2.2
        exact ⟨hobj.size, hobj.trust, shortName_copyName _ _⟩
      split
      · split
        · exact h
        · exact hrenamed _
      · exact hrenamed _
  | delete id =>
      simp only [Vajra.storeCall, storageDelete]
      split
      · exact h
      · exact h.update h.1 rfl fun _ huse => absurd rfl huse

theorem SoundLive.storeCalls {st : Store} (h : SoundLive st) (ops : List StoreOp) :
    SoundLive (storeCalls st ops) := by
  induction ops generalizing st with
  | nil => exact h
  | cons op ops ih => exact ih (h.storeCall op)

section Init

variable (st : Store)

theorem storageInit_count_le : (storageInit st).objectCount ≤ maxObjects :=
  (storageInit_inv st).count

/-- A record as `storage_init` leaves it is sound but for what it took from the sector. -/
theorem storageInit_soundObject (id : Nat) :
    SoundObject ((storageInit st).objects id) ↔
      (st.disk.Loads → id < imageCount (st.disk.sector directoryLba) →
        SoundRecord (st.disk.sector directoryLba) id) := by
  rw [(storageInit_spec st).2 id]
  by_cases hin : st.disk.Loads ∧ id < imageCount (st.disk.sector directoryLba)
  · rw [if_pos hin]
    constructor
    · intro hobj _ _
      exact ⟨hobj.size, hobj.trust⟩
    · intro hrecord
      obtain ⟨hsize, htrust⟩ := hrecord hin.1 hin.2
      exact ⟨hsize, htrust, shortName_copyName _ _⟩
  · rw [if_neg hin]
    refine iff_of_true ⟨Nat.zero_le _, Nat.zero_le _, shortName_cleared _⟩ ?_
    exact fun hloads hid => absurd ⟨hloads, hid⟩ hin

/-- An object is in use after `storage_init` if the sector says so. -/
theorem storageInit_live (id : Nat) :
    (storageInit st).Live id ↔ st.disk.Loads ∧ id < imageCount (st.disk.sector directoryLba) ∧
      st.disk.sector directoryLba (8 + id * 32) ≠ 0 := by
  rw [Store.Live, (storageInit_spec st).2 id]
  by_cases hin : st.disk.Loads ∧ id < imageCount (st.disk.sector directoryLba)
  · rw [if_pos hin]
    simp only [hin, true_and, loadObject, ne_eq, ← UInt8.toNat_inj]
    rfl
  · rw [if_neg hin]
    refine iff_of_false (not_not.mpr rfl) fun h => hin ⟨h.1, h.2.1⟩

/-- **What a corrupt directory can do.**  For every content of the directory sector: after
`storage_init` all eight slots hold a size, a trust level and a name of the store, and every
later `storage_read` stays inside the staging buffer, exactly when every record below the
count has a size of at most `OBJECT_MAX_BYTES` and one of the five trust levels; and if only
the objects in use are looked at, exactly when the records in use have. -/
theorem corrupt_directory_iff :
    ((SoundTable (storageInit st) ∧ ∀ ops, ReadsInBounds (storeCalls (storageInit st) ops)) ↔
      (st.disk.Loads → ∀ id < imageCount (st.disk.sector directoryLba),
        SoundRecord (st.disk.sector directoryLba) id)) ∧
    ((SoundLive (storageInit st) ∧ ∀ ops, ReadsInBounds (storeCalls (storageInit st) ops)) ↔
      (st.disk.Loads → ∀ id < imageCount (st.disk.sector directoryLba),
        st.disk.sector directoryLba (8 + id * 32) ≠ 0 →
          SoundRecord (st.disk.sector directoryLba) id)) := by
  have hlt : ∀ {id}, id < imageCount (st.disk.sector directoryLba) → id < maxObjects :=
    fun hid => Nat.lt_of_lt_of_le hid (Nat.min_le_right _ _)
  refine ⟨⟨fun h hloads id hid => ?_, fun h => ?_⟩, ⟨fun h hloads id hid huse => ?_, fun h => ?_⟩⟩
  · exact (storageInit_soundObject st id).mp (h.1.2 id (hlt hid)) hloads hid
  · have htable : SoundTable (storageInit st) :=
      ⟨storageInit_count_le st, fun id _ => (storageInit_soundObject st id).mpr
        fun hloads hid => h hloads id hid⟩
    exact ⟨htable, fun ops => (htable.live.storeCalls ops).readsInBounds⟩
  · have hlive := (storageInit_live st id).mpr ⟨hloads, hid, huse⟩
    exact (storageInit_soundObject st id).mp (h.1.2 id (hlt hid) hlive) hloads hid
  · have hsound : SoundLive (storageInit st) := by
      refine ⟨storageInit_count_le st, fun id _ hlive => ?_⟩
      obtain ⟨hloads, hid, huse⟩ := (storageInit_live st id).mp hlive
      exact (storageInit_soundObject st id).mpr fun _ _ => h hloads id hid huse
    exact ⟨hsound, fun ops => (hsound.storeCalls ops).readsInBounds⟩

end Init

/-- A directory of one object in use, named `a`, with a size of 2049 bytes. -/
def oversizeSector : List UInt8 :=
  [0x56, 0x44, 0x49, 0x52, 1, 0, 0, 0, 1, 0, 0, 0, 0x01, 0x08, 0, 0, 0x61]

/-- The machine before `storage_init`, with that directory on its disk. -/
def oversizeStore : Store :=
  { objects := fun _ => blankObject
    objectCount := 0
    scratch := fun _ => 0
    disk := { zeroDisk with
      sector := fun s i => if s = directoryLba then oversizeSector.getD i 0 else 0 } }

/-- The size is taken over, and reading 2049 bytes reads one behind the staging buffer. -/
theorem oversize_object_read :
    ¬ SoundTable (storageInit oversizeStore) ∧ ¬ SoundLive (storageInit oversizeStore) ∧
      2048 ∈ scratchIndices (storageRead (storageInit oversizeStore) 0 2049).2 ∧
      readValue (storageRead (storageInit oversizeStore) 0 2049).2 = 2049 := by
  have hsize : ((storageInit oversizeStore).objects 0).sizeBytes = 2049 := by decide
  have hlive : (storageInit oversizeStore).Live 0 := by decide
  have hlive' : ¬ SoundLive (storageInit oversizeStore) := by
    intro h
    have hle := (h.2 0 (by decide) hlive).size
    rw [hsize] at hle
    exact absurd hle (by decide)
  have hread : (storageInit oversizeStore).Readable 0 := by decide
  have hbytes : ∃ bytes, (storageRead (storageInit oversizeStore) 0 2049).2 = some bytes ∧
      bytes.length = 2049 := by
    have hok : (storageInit oversizeStore).disk.outcome
        (storageInit oversizeStore).disk.requests = .ok := rfl
    rw [storageRead_readable hread, if_pos hok]
    refine ⟨_, rfl, ?_⟩
    rw [List.length_map, List.length_range, Int.toNat_zero, hsize, Nat.min_self]
  obtain ⟨bytes, hsome, hlength⟩ := hbytes
  have hmem : 2048 ∈ scratchIndices (storageRead (storageInit oversizeStore) 0 2049).2 := by
    have hindices : scratchIndices (some bytes) = List.range bytes.length := rfl
    rw [hsome, hindices, List.mem_range]
    omega
  have hvalue : readValue (storageRead (storageInit oversizeStore) 0 2049).2 = 2049 := by
    rw [hsome, readValue_some (by omega)]
    omega
  exact ⟨fun h => hlive' h.live, hlive', hmem, hvalue⟩

end Vajra
