import Vajra.StoreOperations

/-!
# The directory sector

What `directory_save` writes, `directory_load` reads back: the live ids with their names,
trust levels and sizes (`Directory`).  A name is kept as the string before its first NUL,
and a string of more than 15 bytes is cut; `name_eq` compares the caller's uncut string
with the stored one, so a name that was cut equals nothing (`nameEq_iff`).

`imageDirectory` is what `storage_init` makes of a sector, and
`imageDirectory_directoryByte` is the round trip.
-/

namespace Vajra

open ByteMemory

/-- The string a name argument stands for in the table: its bytes before the first NUL, at
most 15 of them. -/
def nameString (name : Nat → UInt8) : List UInt8 := (List.range (nameLength name)).map name

/-- A name of at most 15 bytes, which is stored uncut. -/
def ShortName (name : Nat → UInt8) : Prop := name (nameLength name) = 0

instance (name : Nat → UInt8) : Decidable (ShortName name) := inferInstanceAs (Decidable (_ = _))

theorem nameLength_le (src : Nat → UInt8) : nameLength src ≤ 15 := by
  unfold nameLength
  cases hfind : (List.range 15).find? fun i => src i = 0 with
  | none => exact Nat.le_refl _
  | some n =>
      have hmem := List.mem_range.mp (List.mem_of_find?_eq_some hfind)
      exact Nat.le_of_lt hmem

/-- The copy loops stop at the first NUL, or after 15 bytes. -/
theorem nameLength_eq {src : Nat → UInt8} {n : Nat} (hn : n ≤ 15)
    (hbytes : ∀ i < n, src i ≠ 0) (hstop : n = 15 ∨ src n = 0) : nameLength src = n := by
  unfold nameLength
  rcases Nat.lt_or_eq_of_le hn with hlt | rfl
  · have hzero : src n = 0 := hstop.resolve_left (Nat.ne_of_lt hlt)
    have hfind : (List.range 15).find? (fun i => src i = 0) = some n := by
      rw [List.find?_range_eq_some]
      exact ⟨by simpa using hzero, List.mem_range.mpr hlt, fun i hi => by simpa using hbytes i hi⟩
    rw [hfind]
    rfl
  · have hfind : (List.range 15).find? (fun i => src i = 0) = none := by
      rw [List.find?_eq_none]
      intro i hi
      simpa using hbytes i (List.mem_range.mp hi)
    rw [hfind]
    rfl

theorem ne_zero_of_lt_nameLength {src : Nat → UInt8} {i : Nat} (h : i < nameLength src) :
    src i ≠ 0 := by
  intro hzero
  unfold nameLength at h
  cases hfind : (List.range 15).find? fun i => src i = 0 with
  | none =>
      rw [hfind] at h
      have hnone := List.find?_eq_none.mp hfind i (List.mem_range.mpr h)
      exact hnone (by simpa using hzero)
  | some n =>
      rw [hfind] at h
      rw [List.find?_range_eq_some] at hfind
      have hbefore := hfind.2.2 i h
      simp [hzero] at hbefore

theorem nameLength_stop (src : Nat → UInt8) : nameLength src = 15 ∨ src (nameLength src) = 0 := by
  unfold nameLength
  cases hfind : (List.range 15).find? fun i => src i = 0 with
  | none => exact Or.inl rfl
  | some n => exact Or.inr (by simpa using List.find?_some hfind)

/-- Only the first 15 bytes count. -/
theorem nameLength_congr {src src' : Nat → UInt8} (h : ∀ i < 15, src i = src' i) :
    nameLength src = nameLength src' := by
  have hle := nameLength_le src'
  refine nameLength_eq hle (fun i hi => ?_) ?_
  · rw [h i (by omega)]
    exact ne_zero_of_lt_nameLength hi
  · rcases Nat.lt_or_eq_of_le hle with hlt | heq
    · rw [h _ hlt]
      exact Or.inr ((nameLength_stop src').resolve_left (Nat.ne_of_lt hlt))
    · exact Or.inl heq

theorem nameLength_copyName (src dst : Nat → UInt8) :
    nameLength (copyName src dst) = nameLength src := by
  refine nameLength_eq (nameLength_le src) (fun i hi => ?_) (Or.inr ?_)
  · rw [copyName, if_pos hi]
    exact ne_zero_of_lt_nameLength hi
  · rw [copyName, if_neg (Nat.lt_irrefl _), if_pos rfl]

@[simp] theorem nameString_copyName (src dst : Nat → UInt8) :
    nameString (copyName src dst) = nameString src := by
  unfold nameString
  rw [nameLength_copyName]
  refine List.map_congr_left fun i hi => ?_
  rw [copyName, if_pos (List.mem_range.mp hi)]

/-- A copy is always terminated. -/
theorem shortName_copyName (src dst : Nat → UInt8) : ShortName (copyName src dst) := by
  rw [ShortName, nameLength_copyName, copyName, if_neg (Nat.lt_irrefl _), if_pos rfl]

/-- A name whose first byte has been cleared. -/
theorem shortName_cleared (name : Nat → UInt8) : ShortName (Function.update name 0 0) := by
  have hlen : nameLength (Function.update name 0 0) = 0 :=
    nameLength_eq (Nat.zero_le _) (fun i hi => absurd hi (Nat.not_lt_zero i)) (Or.inr rfl)
  rw [ShortName, hlen, Function.update_self]

/-- `name_eq` compares up to the NUL of the stored name. -/
theorem nameEqFrom_iff {stored given : Nat → UInt8} {fuel i n : Nat} (hzero : stored n = 0)
    (hbytes : ∀ j, i ≤ j → j < n → stored j ≠ 0) (hi : i ≤ n) (hfuel : n < i + fuel) :
    nameEqFrom stored given fuel i = true ↔ ∀ j, i ≤ j → j ≤ n → stored j = given j := by
  induction fuel generalizing i with
  | zero => omega
  | succ fuel ih =>
      unfold nameEqFrom
      by_cases hne : stored i = given i
      swap
      · rw [if_pos hne]
        refine iff_of_false Bool.false_ne_true fun hall => hne (hall i (Nat.le_refl i) hi)
      rw [if_neg (not_not.mpr hne)]
      by_cases hend : i = n
      · subst hend
        rw [if_pos hzero]
        refine iff_of_true rfl fun j hij hjn => ?_
        rw [Nat.le_antisymm hjn hij]
        exact hne
      · rw [if_neg (hbytes i (Nat.le_refl i) (by omega)),
          ih (fun j hj => hbytes j (by omega)) (by omega) (by omega)]
        constructor
        · intro hall j hij hjn
          rcases Nat.lt_or_eq_of_le hij with hlt | rfl
          · exact hall j hlt hjn
          · exact hne
        · exact fun hall j hij hjn => hall j (by omega) hjn

/-- **What `name_eq` decides**: the given name is short and it is the stored string. -/
theorem nameEq_iff {stored given : Nat → UInt8} (h : ShortName stored) :
    nameEq stored given = true ↔ ShortName given ∧ nameString given = nameString stored := by
  have hle := nameLength_le stored
  unfold nameEq
  rw [nameEqFrom_iff h (fun j _ hj => ne_zero_of_lt_nameLength hj) (Nat.zero_le _) (by omega)]
  constructor
  · intro hall
    have hlen : nameLength given = nameLength stored := by
      refine nameLength_eq hle (fun i hi => ?_) (Or.inr ?_)
      · rw [← hall i (Nat.zero_le i) (Nat.le_of_lt hi)]
        exact ne_zero_of_lt_nameLength hi
      · rw [← hall _ (Nat.zero_le _) (Nat.le_refl _)]
        exact h
    refine ⟨?_, ?_⟩
    · rw [ShortName, hlen, ← hall _ (Nat.zero_le _) (Nat.le_refl _)]
      exact h
    · unfold nameString
      rw [hlen]
      refine List.map_congr_left fun i hi => ?_
      exact (hall i (Nat.zero_le i) (Nat.le_of_lt (List.mem_range.mp hi))).symm
  · rintro ⟨hshort, hsame⟩ j - hj
    have hlen : nameLength given = nameLength stored := by
      have hlength := congrArg List.length hsame
      simpa [nameString] using hlength
    rcases Nat.lt_or_eq_of_le hj with hlt | rfl
    · unfold nameString at hsame
      rw [hlen] at hsame
      have hbyte := List.map_inj_left.mp hsame j (List.mem_range.mpr hlt)
      exact hbyte.symm
    · rw [ShortName, hlen] at hshort
      rw [h, hshort]

/-- What the directory keeps of a live object. -/
structure Entry where
  name : List UInt8
  trust : Nat
  size : Nat
  deriving DecidableEq

/-- The live ids with their names, trust levels and sizes. -/
abbrev Directory := Nat → Option Entry

def Object.entry (obj : Object) : Option Entry :=
  if obj.inUse = 0 then none else some ⟨nameString obj.name, obj.trust, obj.sizeBytes⟩

/-- The directory of the table in memory. -/
def Store.directory (st : Store) : Directory := fun id => (st.objects id).entry

/-- A record as the operations of `storage.c` leave it. -/
structure ObjectOk (obj : Object) : Prop where
  inUse : obj.inUse ≤ 1
  trust : obj.trust ≤ objRejected
  size : obj.sizeBytes ≤ objectMaxBytes
  name : ShortName obj.name

/-- A table as the operations of `storage.c` leave it. -/
structure TableOk (st : Store) : Prop extends StoreInv st where
  object : ∀ id, ObjectOk (st.objects id)

/-- The record of an id that was never used. -/
def blankObject : Object := { inUse := 0, name := fun _ => 0, lba := 0, sizeBytes := 0, trust := 0 }

/-- What `storage_init` makes of a directory sector. -/
def imageDirectory (dir : Nat → UInt8) : Directory := fun id =>
  if readLE dir 0 4 = directoryMagic ∧ id < min (dir 4).toNat maxObjects then
    (loadObject dir id blankObject).entry
  else none

/-- The sector holds the image of a well-formed table, or no directory at all. -/
def ImageOk (dir : Nat → UInt8) : Prop :=
  readLE dir 0 4 = directoryMagic → ∃ st, TableOk st ∧ ∀ i < 512, dir i = directoryByte st i

/-- The bytes of the image that describe object `id`. -/
theorem directoryByte_entry (st : Store) {id field : Nat} (hid : id < st.objectCount)
    (hfield : field < 32) :
    directoryByte st (8 + id * 32 + field) =
      if field = 0 then UInt8.ofNat (st.objects id).inUse
      else if field = 1 then UInt8.ofNat (st.objects id).trust
      else if 4 ≤ field ∧ field < 8 then leByte (st.objects id).sizeBytes (field - 4)
      else if 8 ≤ field ∧ field - 8 < nameLength (st.objects id).name then
        (st.objects id).name (field - 8)
      else 0 := by
  have hdiv : (8 + id * 32 + field - 8) / 32 = id := by omega
  have hmod : (8 + id * 32 + field - 8) % 32 = field := by omega
  unfold directoryByte
  simp only [hdiv, hmod]
  rw [if_neg (by omega), if_neg (by omega), if_neg (by omega)]

theorem directoryByte_magic (st : Store) : readLE (directoryByte st) 0 4 = directoryMagic := by
  have hbytes : ∀ i, i < 4 → directoryByte st (0 + i) = leByte directoryMagic i := by
    intro i hi
    unfold directoryByte
    simp only [Nat.zero_add]
    rw [if_pos hi]
  rw [readLE_of_bytes hbytes]
  decide

theorem directoryByte_count {st : Store} (h : st.objectCount ≤ maxObjects) :
    (directoryByte st 4).toNat = st.objectCount := by
  have hbyte : directoryByte st 4 = UInt8.ofNat st.objectCount := rfl
  rw [hbyte, UInt8.toNat_ofNat']
  simp only [maxObjects] at h
  omega

/-- The name in an entry of the image. -/
theorem nameLength_directoryByte (st : Store) {id : Nat} (hid : id < st.objectCount) :
    nameLength (fun j => directoryByte st (8 + id * 32 + 8 + j)) =
      nameLength (st.objects id).name := by
  have hle := nameLength_le (st.objects id).name
  have hbyte : ∀ j < 15, directoryByte st (8 + id * 32 + 8 + j) =
      if j < nameLength (st.objects id).name then (st.objects id).name j else 0 := by
    intro j hj
    rw [Nat.add_assoc (8 + id * 32), directoryByte_entry st hid (by omega), if_neg (by omega),
      if_neg (by omega), if_neg (by omega)]
    simp
  refine nameLength_eq hle (fun i hi => ?_) ?_
  · rw [hbyte i (by omega), if_pos hi]
    exact ne_zero_of_lt_nameLength hi
  · rcases Nat.lt_or_eq_of_le hle with hlt | heq
    · rw [hbyte _ hlt, if_neg (Nat.lt_irrefl _)]
      exact Or.inr rfl
    · exact Or.inl heq

/-- **One record of the image reads back**, each number cut to the width of its field, and
the bytes behind the name as they were in the slot. -/
theorem loadObject_image {st : Store} {id : Nat} (hid : id < st.objectCount) (old : Object) :
    loadObject (directoryByte st) id old =
      { inUse := (st.objects id).inUse % 2 ^ 8
        trust := (st.objects id).trust % 2 ^ 8
        sizeBytes := (st.objects id).sizeBytes % 2 ^ 32
        name := copyName (st.objects id).name old.name
        lba := objectDataBaseLba + id * sectorsPerObject } := by
  have huse : (directoryByte st (8 + id * 32)).toNat = (st.objects id).inUse % 2 ^ 8 := by
    have hbyte := directoryByte_entry st hid (show 0 < 32 by decide)
    rw [if_pos rfl, Nat.add_zero] at hbyte
    rw [hbyte, UInt8.toNat_ofNat']
  have htrust : (directoryByte st (8 + id * 32 + 1)).toNat = (st.objects id).trust % 2 ^ 8 := by
    rw [directoryByte_entry st hid (show 1 < 32 by decide), if_neg (by decide), if_pos rfl,
      UInt8.toNat_ofNat']
  have hsize : readLE (directoryByte st) (8 + id * 32 + 4) 4 =
      (st.objects id).sizeBytes % 2 ^ 32 := by
    have hbytes : ∀ i, i < 4 → directoryByte st (8 + id * 32 + 4 + i) =
        leByte (st.objects id).sizeBytes i := by
      intro i hi
      rw [Nat.add_assoc (8 + id * 32), directoryByte_entry st hid (by omega), if_neg (by omega),
        if_neg (by omega), if_pos (by omega), Nat.add_sub_cancel_left]
    exact readLE_of_bytes hbytes
  have hname : copyName (fun j => directoryByte st (8 + id * 32 + 8 + j)) old.name =
      copyName (st.objects id).name old.name := by
    funext j
    unfold copyName
    rw [nameLength_directoryByte st hid]
    by_cases hj : j < nameLength (st.objects id).name
    · have hle := nameLength_le (st.objects id).name
      rw [if_pos hj, if_pos hj]
      dsimp only
      rw [Nat.add_assoc (8 + id * 32), directoryByte_entry st hid (by omega), if_neg (by omega),
        if_neg (by omega), if_neg (by omega), if_pos (by omega), Nat.add_sub_cancel_left]
    · rw [if_neg hj, if_neg hj]
  unfold loadObject
  simp only [huse, htrust, hsize, hname]

/-- A record of a well-formed table reads back as it was, but for the bytes behind its name. -/
theorem loadObject_directoryByte {st : Store} (h : TableOk st) {id : Nat}
    (hid : id < st.objectCount) (old : Object) :
    loadObject (directoryByte st) id old =
      { inUse := (st.objects id).inUse
        trust := (st.objects id).trust
        sizeBytes := (st.objects id).sizeBytes
        name := copyName (st.objects id).name old.name
        lba := objectDataBaseLba + id * sectorsPerObject } := by
  have huse := (h.object id).inUse
  have htrust := (h.object id).trust
  have hsize := (h.object id).size
  rw [loadObject_image hid, Nat.mod_eq_of_lt (Nat.lt_of_le_of_lt huse (by decide)),
    Nat.mod_eq_of_lt (Nat.lt_of_le_of_lt htrust (by decide)),
    Nat.mod_eq_of_lt (Nat.lt_of_le_of_lt hsize (by decide))]

/-- `directory_load` looks at the first sector of what it reads only. -/
theorem loadObject_congr {dir dir' : Nat → UInt8} (h : ∀ i < 512, dir i = dir' i) {id : Nat}
    (hid : id < maxObjects) (old : Object) : loadObject dir id old = loadObject dir' id old := by
  simp only [maxObjects] at hid
  have hname : ∀ j < 15, dir (8 + id * 32 + 8 + j) = dir' (8 + id * 32 + 8 + j) :=
    fun j hj => h _ (by omega)
  have hcopy : copyName (fun j => dir (8 + id * 32 + 8 + j)) old.name =
      copyName (fun j => dir' (8 + id * 32 + 8 + j)) old.name := by
    have hle := nameLength_le fun j => dir' (8 + id * 32 + 8 + j)
    funext j
    unfold copyName
    rw [nameLength_congr hname]
    by_cases hj : j < nameLength fun j => dir' (8 + id * 32 + 8 + j)
    · rw [if_pos hj, if_pos hj]
      exact hname j (by omega)
    · rw [if_neg hj, if_neg hj]
  have hsize : readLE dir (8 + id * 32 + 4) 4 = readLE dir' (8 + id * 32 + 4) 4 :=
    readLE_congr fun x _ hx => h x (by omega)
  unfold loadObject
  simp only [h (8 + id * 32) (by omega), h (8 + id * 32 + 1) (by omega), hsize, hcopy]

theorem magic_congr {dir dir' : Nat → UInt8} (h : ∀ i < 512, dir i = dir' i) :
    readLE dir 0 4 = readLE dir' 0 4 :=
  readLE_congr fun x _ hx => h x (by omega)

theorem imageDirectory_congr {dir dir' : Nat → UInt8} (h : ∀ i < 512, dir i = dir' i) :
    imageDirectory dir = imageDirectory dir' := by
  funext id
  unfold imageDirectory
  rw [magic_congr h, h 4 (by omega)]
  by_cases hin : readLE dir' 0 4 = directoryMagic ∧ id < min (dir' 4).toNat maxObjects
  · rw [if_pos hin, if_pos hin, loadObject_congr h (by omega)]
  · rw [if_neg hin, if_neg hin]

theorem entry_of_dead {obj : Object} (h : obj.inUse = 0) : obj.entry = none := if_pos h

/-- **The round trip**: `storage_init` finds in the sector that `directory_save` wrote the
directory of the table it was written from. -/
theorem imageDirectory_directoryByte {st : Store} (h : TableOk st) :
    imageDirectory (directoryByte st) = st.directory := by
  funext id
  unfold imageDirectory Store.directory
  rw [directoryByte_magic, directoryByte_count h.count, Nat.min_eq_left h.count]
  by_cases hid : id < st.objectCount
  · rw [if_pos ⟨rfl, hid⟩, loadObject_directoryByte h hid]
    simp [Object.entry]
  · rw [if_neg fun hin => hid hin.2, entry_of_dead]
    exact not_not.mp (h.unused id (Nat.le_of_not_lt hid))

end Vajra
