import Vajra.DurableDirectory

/-!
# Trust and content under disk failures and power cuts

`storage_write` replaces four data sectors first and lowers the trust level afterwards, in
the table and then in the directory.  A write that fails in between, or is cut off by a
reset, leaves the old level over new bytes (`trusted_bytes_replaced`).

`Pins` is the bookkeeping of the property: with each record of the table, and with each
record of the directory sector, the bytes the object held when it was promoted from
`OBJ_UNTRUSTED`.  They agree with the bytes on the disk in every history whose writes to
graded objects run to completion (`trust_bound_to_content`).
-/

namespace Vajra

open ByteMemory TransitionTrace

/-- The disk on which the power fails during the `r`-th request from now, when `n` of its
sectors have been written. -/
def Disk.dying (d : Disk) (r n : Nat) : Disk :=
  { d with
    outcome := fun i =>
      if i < d.requests + r then d.outcome i else if i = d.requests + r then .fail n else .fail 0 }

def Store.dying (st : Store) (r n : Nat) : Store := { st with disk := st.disk.dying r n }

/-- An event of a machine that can be reset at any time: `cut` resets it in the middle of
the call `op`. -/
inductive PowerEvent where
  | whole (e : StoreEvent)
  | cut (op : StoreOp) (r n : Nat) (scratch : Nat → UInt8)

/-- The machine after the power has failed and `storage_init` has run on what is on the
disk. -/
def cutStore (st : Store) (op : StoreOp) (r n : Nat) (scratch : Nat → UInt8) : Store :=
  bootStore { (storeCall (st.dying r n) op).1.disk with outcome := st.disk.outcome } scratch

def powerStep (st : Store) : PowerEvent → Option (Store × StoreReply)
  | .whole e => storeStep st e
  | .cut op r n scratch => some (cutStore st op r n scratch, ⟨0, []⟩)

abbrev PowerRecord := Transition Store PowerEvent StoreReply

/-- A history with resets at any time. -/
abbrev PowerRun (disk : Disk) (scratch : Nat → UInt8) (tr : List PowerRecord) (st : Store) : Prop :=
  Trace powerStep (bootStore disk scratch) tr st

/-- A call that writes the directory sector. -/
def SavesDirectory (st : Store) (op : StoreOp) : Prop :=
  (storeCall st op).2.ret ≠ -1 ∧ SaveLands st op ∧
    match op with
    | .read _ _ => False
    | .createObject name => findByName st name = none
    | _ => True

instance (st : Store) : (op : StoreOp) → Decidable (SavesDirectory st op)
  | .createObject _ => inferInstanceAs (Decidable (_ ∧ _ ∧ _ = _))
  | .read _ _ => inferInstanceAs (Decidable (_ ∧ _ ∧ False))
  | .createNamed _ | .write _ _ _ | .promote _ | .reject _ | .rename _ _ | .delete _ =>
      inferInstanceAs (Decidable (_ ∧ _ ∧ True))

/-- For each id, the bytes its object held when it was promoted from `OBJ_UNTRUSTED`: as far
as the table knows, and as far as the directory sector does. -/
structure Pins where
  table : Nat → Option (List UInt8)
  disk : Nat → Option (List UInt8)

/-- The table's side after a call: a first promotion notes the bytes. -/
def notePromotion (st : Store) (op : StoreOp) (pins : Nat → Option (List UInt8)) :
    Nat → Option (List UInt8) :=
  match op with
  | .promote id =>
      if (storagePromote st id).2 = objQuarantined then
        Function.update pins id.toNat (some (st.contents id.toNat))
      else pins
  | _ => pins

def callPins (st : Store) (op : StoreOp) (p : Pins) : Pins :=
  { table := notePromotion st op p.table
    disk := if SavesDirectory st op then notePromotion st op p.table else p.disk }

/-- A boot takes over what the directory sector knows. -/
def Pins.reload (p : Pins) : Pins := { table := p.disk, disk := p.disk }

def pinsOf : List PowerRecord → Pins
  | [] => { table := fun _ => none, disk := fun _ => none }
  | t :: tr =>
      match t.event with
      | .whole (.call op) => callPins t.pre op (pinsOf tr)
      | .whole (.boot _) => (pinsOf tr).reload
      | .cut op r n _ => (callPins (t.pre.dying r n) op (pinsOf tr)).reload

/-- `OBJ_QUARANTINED`, `OBJ_ANALYZED` or `OBJ_TRUSTED`. -/
def Graded (trust : Nat) : Prop := objQuarantined ≤ trust ∧ trust ≤ objTrusted

instance (trust : Nat) : Decidable (Graded trust) := inferInstanceAs (Decidable (_ ∧ _))

/-- Object `id` is graded in a directory. -/
def Directory.GradedAt (dir : Directory) (id : Nat) : Prop := ∃ e, dir id = some e ∧ Graded e.trust

/-- **Trust is bound to content**: what can be read of a graded object is what it held when
it was promoted. -/
def TrustBound (st : Store) (pins : Nat → Option (List UInt8)) : Prop :=
  ∀ (id bufLen : Nat) bytes, Graded (st.objects id).trust →
    (storageRead st id bufLen).2 = some bytes → ∃ c, pins id = some c ∧ bytes = c.take bufLen

/-- The disk's side of a write: unless nothing is transferred, an object that is graded in
the directory sector has both writes completed. -/
def DiskSafe (st : Store) (id : Int) : Prop :=
  st.disk.outcome st.disk.requests = .fail 0 ∨
    (st.disk.directory.GradedAt id.toNat →
      st.disk.outcome st.disk.requests = .ok ∧ st.disk.outcome (st.disk.requests + 1) ≠ .fail 0)

/-- The table's side: an object that is graded in the table has its data written whole. -/
def TableSafe (st : Store) (id : Int) : Prop :=
  st.disk.outcome st.disk.requests = .fail 0 ∨
    (st.directory.GradedAt id.toNat → st.disk.outcome st.disk.requests = .ok)

/-- No write to a graded object stops half-way in this step.  Writes that are refused before
they reach the disk do not matter. -/
def SafeWrite (t : PowerRecord) : Prop :=
  match t.event with
  | .whole (.call (.write id _ len)) =>
      t.pre.Valid id → len ≤ objectMaxBytes → TableSafe t.pre id ∧ DiskSafe t.pre id
  | .cut (.write id _ len) r n _ =>
      t.pre.Valid id → len ≤ objectMaxBytes → DiskSafe (t.pre.dying r n) id
  | _ => True

/-- Every graded object of a directory has the bytes noted for it. -/
def BoundTo (dir : Directory) (d : Disk) (pins : Nat → Option (List UInt8)) : Prop :=
  ∀ id e, dir id = some e → Graded e.trust → pins id = some (d.object id e.size)

theorem directory_size {st : Store} (hok : TableOk st) {id : Nat} {e : Entry}
    (he : st.directory id = some e) : e.size ≤ objectMaxBytes := by
  obtain ⟨-, rfl⟩ := directory_eq_some he
  exact (hok.object id).size

/-- A directory sector that `directory_save` wrote holds the directory of some table. -/
theorem ImageOk.directory {dir : Nat → UInt8} (h : ImageOk dir) :
    (imageDirectory dir = fun _ => none) ∨
      ∃ st, TableOk st ∧ imageDirectory dir = st.directory := by
  by_cases hmagic : readLE dir 0 4 = directoryMagic
  · obtain ⟨st, hok, hbytes⟩ := h hmagic
    exact Or.inr ⟨st, hok, (imageDirectory_congr hbytes).trans (imageDirectory_directoryByte hok)⟩
  · left
    funext id
    rw [imageDirectory, if_neg fun h => hmagic h.1]

theorem StoreOk.diskDirectory_size {st : Store} (hok : StoreOk st) {id : Nat} {e : Entry}
    (he : st.disk.directory id = some e) : e.size ≤ objectMaxBytes := by
  rcases hok.image.directory with hnone | ⟨st0, hok0, hdir⟩
  · rw [Disk.directory, hnone] at he
    cases he
  · rw [Disk.directory, hdir] at he
    exact directory_size hok0 he

/-- The notes after a record has been replaced and saved. -/
theorem BoundTo.saved {mid st' : Store} {id : Nat} {obj : Object} (hsave : Saved mid st' id obj)
    (hok : TableOk mid) {pins pins' : Nat → Option (List UInt8)}
    (hother : ∀ j e, j ≠ id → mid.directory j = some e → Graded e.trust →
      pins j = some (mid.disk.object j e.size))
    (hpins : ∀ j, j ≠ id → pins' j = pins j)
    (hself : ∀ e, obj.entry = some e → Graded e.trust →
      e.size ≤ objectMaxBytes ∧ pins' id = some (mid.disk.object id e.size)) :
    BoundTo st'.directory st'.disk pins' := by
  have hdata : ∀ j s, DataSector j s → st'.disk.sector s = mid.disk.sector s := by
    intro j s hs
    rw [hsave.sector, if_neg fun h => hs.not_directory h.1]
  intro j e he hgraded
  rw [hsave.directory] at he
  by_cases hj : j = id
  · subst hj
    rw [Function.update_self] at he
    obtain ⟨hsize, hpin⟩ := hself e he hgraded
    rw [hpin, object_congr hsize (hdata j)]
  · rw [Function.update_of_ne hj] at he
    rw [hpins j hj, hother j e hj he hgraded,
      object_congr (directory_size hok he) (hdata j)]

theorem not_graded_untrusted : ¬ Graded objUntrusted := by decide

theorem not_graded_rejected : ¬ Graded objRejected := by decide

/-- The entry of a record that is in use. -/
theorem entry_eq_some {obj : Object} {e : Entry} (h : obj.entry = some e) :
    obj.inUse ≠ 0 ∧ e.trust = obj.trust ∧ e.size = obj.sizeBytes := by
  unfold Object.entry at h
  split at h
  · cases h
  · rename_i hlive
    cases h
    exact ⟨hlive, rfl, rfl⟩

/-- The notes after a record has been replaced by one that is not graded. -/
theorem BoundTo.ungraded {mid st' : Store} {id : Nat} {obj : Object} (hsave : Saved mid st' id obj)
    (hok : TableOk mid) {pins : Nat → Option (List UInt8)}
    (hother : ∀ j e, j ≠ id → mid.directory j = some e → Graded e.trust →
      pins j = some (mid.disk.object j e.size))
    (hobj : obj.inUse = 0 ∨ ¬ Graded obj.trust) : BoundTo st'.directory st'.disk pins := by
  refine BoundTo.saved hsave hok hother (fun _ _ => rfl) fun e he hgraded => ?_
  obtain ⟨hlive, htrust, -⟩ := entry_eq_some he
  rw [htrust] at hgraded
  rcases hobj with hdead | hnot
  · exact absurd hdead hlive
  · exact absurd hgraded hnot

/-- A write that failed before its first sector has left every sector alone. -/
theorem partly_nothing (st : Store) (id : Nat) (buf : Nat → UInt8) (len s : Nat) :
    (st.partly id (min 0 sectorsPerObject) buf len).disk.sector s = st.disk.sector s := by
  funext i
  simp only [Store.partly, Disk.torn, Disk.put, Nat.zero_min]
  rw [if_neg (by omega)]

/-- A call that is not a first promotion notes nothing. -/
theorem notePromotion_of_ne {st : Store} {op : StoreOp} (pins : Nat → Option (List UInt8))
    (h : ∀ id, op = .promote id → (storagePromote st id).2 ≠ objQuarantined) :
    notePromotion st op pins = pins := by
  unfold notePromotion
  split
  · rename_i id
    rw [if_neg (h id rfl)]
  · rfl

/-- **The table's notes after a call.** -/
theorem StoreEffect.boundTable {st : Store} {op : StoreOp} {pins : Nat → Option (List UInt8)}
    (hok : StoreOk st) (hbound : BoundTo st.directory st.disk pins)
    (hsafe : ∀ id buf len, op = .write id buf len → st.Valid id → len ≤ objectMaxBytes →
      TableSafe st id) :
    BoundTo (storeCall st op).1.directory (storeCall st op).1.disk (notePromotion st op pins) := by
  have heffect := storeCall_effect hok.table op
  have hsize : ∀ {id : Nat} {e : Entry}, st.directory id = some e → e.size ≤ objectMaxBytes :=
    directory_size hok.table
  generalize hst' : (storeCall st op).1 = st' at heffect ⊢
  generalize hr : (storeCall st op).2 = r at heffect
  have hquiet : (∀ id, op ≠ .promote id) → notePromotion st op pins = pins :=
    fun hne => notePromotion_of_ne pins fun id hop => absurd hop (hne id)
  have hunwritten : Unwritten st st' → BoundTo st'.directory st'.disk pins := by
    intro hsame id e he hgraded
    rw [hsame.directory] at he
    rw [hbound id e he hgraded, object_congr (hsize he) fun s _ => congrFun hsame.sector s]
  cases heffect with
  | refused hsame =>
      rw [notePromotion_of_ne pins]
      · exact hunwritten hsame
      · rintro id rfl hret
        have hfailed : (storagePromote st id).2 = -1 := congrArg StoreReply.ret hr
        rw [hfailed] at hret
        exact absurd hret (by decide)
  | fetched _ hsame =>
      rw [hquiet (fun id => by simp)]
      exact hunwritten hsame
  | found =>
      rw [hquiet (fun id => by simp)]
      exact hbound
  | @created _ name id _ hop _ _ hsave =>
      rw [hquiet (fun id => by rcases hop with rfl | rfl <;> simp)]
      exact BoundTo.ungraded hsave hok.table (fun j e _ => hbound j e)
        (Or.inr not_graded_untrusted)
  | @torn id buf len n hvalid hlen hout =>
      rw [hquiet (fun id => by simp)]
      intro j e he hgraded
      have hold := hbound j e he hgraded
      by_cases hj : j = id.toNat
      · subst hj
        rcases hsafe id buf len rfl hvalid hlen with hzero | hwhole
        · -- nothing was transferred
          rw [hout, DiskOutcome.fail.injEq] at hzero
          subst hzero
          rw [hold, object_congr (hsize he)]
          exact fun s _ => (partly_nothing st id.toNat buf len s).symm
        · rw [hwhole ⟨e, he, hgraded⟩] at hout
          cases hout
      · rw [hold, object_congr (hsize he)]
        exact fun s hs => (partly_sector st hj hs (Nat.min_le_right _ _) buf len).symm
  | @written id buf len _ hvalid hlen _ hsave =>
      rw [hquiet (fun id => by simp)]
      refine BoundTo.ungraded hsave (partly_tableOk hok.table _ _ _ _) ?_
        (Or.inr not_graded_untrusted)
      intro j e hj he hgraded
      rw [hbound j e he hgraded, object_congr (hsize he)]
      exact fun s hs => (partly_sector st hj hs (Nat.le_refl _) buf len).symm
  | @promoted id _ hvalid _ hsave =>
      have hret : (storagePromote st id).2 = (st.objects id.toNat).trust + 1 :=
        congrArg StoreReply.ret hr
      have hother : ∀ j, j ≠ id.toNat → notePromotion st (.promote id) pins j = pins j := by
        intro j hj
        unfold notePromotion
        dsimp only
        split
        · rw [Function.update_of_ne hj]
        · rfl
      refine BoundTo.saved hsave hok.table (fun j e _ => hbound j e) hother ?_
      intro e he hgraded
      obtain ⟨-, htrust, hlen⟩ := entry_eq_some he
      refine ⟨by rw [hlen]; exact (hok.table.object _).size, ?_⟩
      have hdir := directory_of_live hvalid.2.2
      rw [hlen]
      simp only [notePromotion, hret]
      by_cases hfirst : (st.objects id.toNat).trust = objUntrusted
      · rw [if_pos (by rw [hfirst]; rfl), Function.update_self]
        rfl
      · rw [if_neg]
        · refine hbound id.toNat _ hdir ?_
          rw [htrust] at hgraded
          simp only [Graded, objQuarantined, objTrusted, objUntrusted] at *
          omega
        · simp only [objQuarantined, objUntrusted] at *
          omega
  | @rejected id _ _ hsave =>
      rw [hquiet (fun id => by simp)]
      exact BoundTo.ungraded hsave hok.table (fun j e _ => hbound j e)
        (Or.inr not_graded_rejected)
  | @renamed id newName _ hnamed _ hsave =>
      rw [hquiet (fun id => by simp)]
      refine BoundTo.saved hsave hok.table (fun j e _ => hbound j e) (fun _ _ => rfl) ?_
      intro e he hgraded
      obtain ⟨-, htrust, hlen⟩ := entry_eq_some he
      rw [htrust] at hgraded
      rw [hlen]
      exact ⟨(hok.table.object _).size,
        hbound id.toNat _ (directory_of_live hnamed.2.2) hgraded⟩
  | deleted _ hsave =>
      rw [hquiet (fun id => by simp)]
      exact BoundTo.ungraded hsave hok.table (fun j e _ => hbound j e) (Or.inl rfl)

/-- The directory write of a call that replaces a record. -/
theorem savesDirectory_iff {st : Store} {op : StoreOp} (hret : (storeCall st op).2.ret ≠ -1)
    (hread : ∀ id len, op ≠ .read id len)
    (hfound : ∀ name, op = .createObject name → findByName st name = none) :
    SavesDirectory st op ↔ SaveLands st op := by
  unfold SavesDirectory
  refine ⟨fun h => h.2.1, fun h => ⟨hret, h, ?_⟩⟩
  cases op with
  | read id len => exact absurd rfl (hread id len)
  | createObject name => exact hfound name rfl
  | createNamed | write | promote | reject | rename | delete => trivial

/-- **The disk's notes after a call.** -/
theorem StoreEffect.boundDisk {st : Store} {op : StoreOp} {p : Pins} (hok : StoreOk st)
    (htable : BoundTo st.directory st.disk p.table)
    (hdisk : BoundTo st.disk.directory st.disk p.disk)
    (hsafe : ∀ id buf len, op = .write id buf len → st.Valid id → len ≤ objectMaxBytes →
      DiskSafe st id) :
    BoundTo (storeCall st op).1.disk.directory (storeCall st op).1.disk (callPins st op p).disk := by
  have heffect := storeCall_effect hok.table op
  have hsize : ∀ {id : Nat} {e : Entry}, st.disk.directory id = some e → e.size ≤ objectMaxBytes :=
    hok.diskDirectory_size
  have hnext : (∀ id buf len, op = .write id buf len → st.disk.outcome st.disk.requests = .ok) →
      BoundTo (storeCall st op).1.directory (storeCall st op).1.disk (notePromotion st op p.table) :=
    fun hwhole => StoreEffect.boundTable hok htable
      fun id buf len hop _ _ => Or.inr fun _ => hwhole id buf len hop
  have hok' := (heffect.storeOk hok).table
  unfold callPins
  dsimp only
  generalize hst' : (storeCall st op).1 = st' at heffect hnext hok' ⊢
  generalize hr : (storeCall st op).2 = r at heffect
  have hidle : st'.disk.directory = st.disk.directory →
      (∀ j e, st.disk.directory j = some e → Graded e.trust →
        ∀ s, DataSector j s → st'.disk.sector s = st.disk.sector s) →
      BoundTo st'.disk.directory st'.disk p.disk := by
    intro hdir hdata j e he hgraded
    rw [hdir] at he
    rw [hdisk j e he hgraded, object_congr (hsize he) (hdata j e he hgraded)]
  have hnotSaved : r.ret = -1 → ¬ SavesDirectory st op :=
    fun hfailed hsaves => hsaves.1 (by rw [hr, hfailed])
  have hsaved : ∀ {id : Nat} {obj : Object}, Saved st st' id obj → r.ret ≠ -1 →
      (∀ id len, op ≠ .read id len) → (∀ id buf len, op ≠ .write id buf len) →
      (∀ name, op = .createObject name → findByName st name = none) →
      BoundTo st'.disk.directory st'.disk
        (if SavesDirectory st op then notePromotion st op p.table else p.disk) := by
    intro id obj hsave hret hread hwrite hfound
    have hlands : SaveLands st op ↔ st.disk.Lands := by
      unfold SaveLands StoreOp.saveRequest
      cases op with
      | write id buf len => exact absurd rfl (hwrite id buf len)
      | createObject | createNamed | read | promote | reject | rename | delete => exact Iff.rfl
    have hsaves := (savesDirectory_iff (by rw [hr]; exact hret) hread hfound).trans hlands
    have hdir := hsave.diskDirectory hok'
    by_cases hl : st.disk.Lands
    · rw [if_pos (hsaves.mpr hl)]
      rw [if_pos hl] at hdir
      rw [hdir]
      exact hnext fun id buf len hop => absurd hop (hwrite id buf len)
    · rw [if_neg (mt hsaves.mp hl)]
      rw [if_neg hl] at hdir
      refine hidle hdir fun j e _ _ s hs => ?_
      rw [hsave.sector, if_neg fun h => hl h.2]
  cases heffect with
  | refused hsame =>
      rw [if_neg (hnotSaved rfl)]
      exact hidle hsame.diskDirectory fun _ _ _ _ s _ => congrFun hsame.sector s
  | fetched _ hsame =>
      rw [if_neg fun h => h.2.2]
      exact hidle hsame.diskDirectory fun _ _ _ _ s _ => congrFun hsame.sector s
  | found hfound =>
      rw [if_neg]
      · exact hdisk
      · intro hsaves
        have hnone : findByName st _ = none := hsaves.2.2
        rw [hfound] at hnone
        cases hnone
  | @torn id buf len n hvalid hlen hout =>
      rw [if_neg (hnotSaved rfl)]
      refine hidle (partly_diskDirectory _ _ _ _ _) fun j e he hgraded s hs => ?_
      by_cases hj : j = id.toNat
      · subst hj
        rcases hsafe id buf len rfl hvalid hlen with hzero | hwhole
        · rw [hout, DiskOutcome.fail.injEq] at hzero
          subst hzero
          exact partly_nothing st id.toNat buf len s
        · rw [(hwhole ⟨e, he, hgraded⟩).1] at hout
          cases hout
      · exact partly_sector st hj hs (Nat.min_le_right _ _) buf len
  | @written id buf len _ hvalid hlen hout hsave =>
      have hsaves : SavesDirectory st (.write id buf len) ↔
          (st.partly id.toNat sectorsPerObject buf len).disk.Lands := by
        refine savesDirectory_iff ?_ (fun _ _ => by simp) (fun _ h => by cases h)
        rw [hr]
        dsimp only
        omega
      have hdir := hsave.diskDirectory hok'
      by_cases hl : (st.partly id.toNat sectorsPerObject buf len).disk.Lands
      · rw [if_pos (hsaves.mpr hl)]
        rw [if_pos hl] at hdir
        rw [hdir]
        exact hnext fun _ _ _ _ => hout
      · rw [if_neg (mt hsaves.mp hl)]
        rw [if_neg hl, partly_diskDirectory] at hdir
        refine hidle hdir fun j e he hgraded s hs => ?_
        rw [hsave.sector, if_neg fun h => hl h.2]
        by_cases hj : j = id.toNat
        · subst hj
          rcases hsafe id buf len rfl hvalid hlen with hzero | hwhole
          · rw [hout] at hzero
            cases hzero
          · exact absurd (hwhole ⟨e, he, hgraded⟩).2 hl
        · exact partly_sector st hj hs (Nat.le_refl _) buf len
  | created hop hnew _ hsave =>
      rcases hop with rfl | rfl
      · refine hsaved hsave (by dsimp only; omega) (by simp) (by simp) fun name hname => ?_
        rw [← StoreOp.createObject.inj hname]
        exact hnew
      · exact hsaved hsave (by dsimp only; omega) (by simp) (by simp) (by simp)
  | promoted _ _ hsave => exact hsaved hsave (by dsimp only; omega) (by simp) (by simp) (by simp)
  | rejected _ hsave | renamed _ _ hsave | deleted _ hsave =>
      exact hsaved hsave (by decide) (by simp) (by simp) (by simp)

/-- The invariant of the notes. -/
structure PinsOk (st : Store) (p : Pins) : Prop where
  store : StoreOk st
  table : BoundTo st.directory st.disk p.table
  disk : BoundTo st.disk.directory st.disk p.disk

/-- A boot goes by the directory sector. -/
theorem PinsOk.boot {d : Disk} {p : Pins} (himage : ImageOk (d.sector directoryLba))
    (hdisk : BoundTo d.directory d p.disk) (scratch : Nat → UInt8) :
    PinsOk (bootStore d scratch) p.reload := by
  refine ⟨bootStore_storeOk scratch himage, ?_, ?_⟩
  · rw [bootStore_disk, bootStore_directory]
    split
    · exact hdisk
    · intro id e he
      cases he
  · rw [bootStore_disk]
    exact hdisk

theorem dying_storeOk {st : Store} (h : StoreOk st) (r n : Nat) : StoreOk (st.dying r n) :=
  ⟨⟨⟨h.table.count, h.table.unused, h.table.lba⟩, h.table.object⟩, h.image⟩

/-- **One event keeps the notes right.** -/
theorem PinsOk.next {tr : List PowerRecord} {t : PowerRecord} (h : PinsOk t.pre (pinsOf tr))
    (hstep : powerStep t.pre t.event = some (t.post, t.outcome)) (hsafe : SafeWrite t) :
    PinsOk t.post (pinsOf (t :: tr)) := by
  obtain ⟨st, e, o, st'⟩ := t
  cases e with
  | whole e =>
      cases e with
      | call op =>
          have hcall : storeCall st op = (st', o) := Option.some.inj hstep
          have hst' : (storeCall st op).1 = st' := by rw [hcall]
          rw [← hst']
          have hwrite : ∀ id buf len, op = .write id buf len → st.Valid id →
              len ≤ objectMaxBytes → TableSafe st id ∧ DiskSafe st id := by
            rintro id buf len rfl hvalid hlen
            exact hsafe hvalid hlen
          refine ⟨(storeCall_effect h.store.table op).storeOk h.store, ?_, ?_⟩
          · exact StoreEffect.boundTable h.store h.table
              fun id buf len hop hvalid hlen => (hwrite id buf len hop hvalid hlen).1
          · exact StoreEffect.boundDisk h.store h.table h.disk
              fun id buf len hop hvalid hlen => (hwrite id buf len hop hvalid hlen).2
      | boot scratch =>
          have hboot : bootStore st.disk scratch = st' := congrArg Prod.fst (Option.some.inj hstep)
          rw [← hboot]
          exact PinsOk.boot h.store.image h.disk scratch
  | cut op r n scratch =>
      have hcut : cutStore st op r n scratch = st' := congrArg Prod.fst (Option.some.inj hstep)
      rw [← hcut]
      have hok := dying_storeOk h.store r n
      have hwrite : ∀ id buf len, op = .write id buf len → (st.dying r n).Valid id →
          len ≤ objectMaxBytes → DiskSafe (st.dying r n) id := by
        rintro id buf len rfl hvalid hlen
        exact hsafe hvalid hlen
      exact PinsOk.boot
        (d := { (storeCall (st.dying r n) op).1.disk with outcome := st.disk.outcome })
        ((storeCall_effect hok.table op).storeOk hok).image
        (StoreEffect.boundDisk hok h.table h.disk hwrite) scratch

theorem PowerRun.pinsOk {d : Disk} {scratch : Nat → UInt8} {tr : List PowerRecord} {st : Store}
    (hblank : d.Blank) (hrun : PowerRun d scratch tr st) (hsafe : ∀ t ∈ tr, SafeWrite t) :
    PinsOk st (pinsOf tr) := by
  have hall := hrun.history_invariant
    (fun tr st => (∀ t ∈ tr, SafeWrite t) → PinsOk st (pinsOf tr)) ?_ ?_
  · exact hall hsafe
  · intro _
    refine PinsOk.boot (p := pinsOf []) (fun hmagic => absurd hmagic hblank) ?_ scratch
    intro id e he
    rw [hblank.directory] at he
    cases he
  · intro tr st e o st' _ hold hstep hsafe
    exact PinsOk.next (t := ⟨st, e, o, st'⟩)
      (hold fun t ht => hsafe t (List.mem_cons_of_mem _ ht)) hstep (hsafe _ List.mem_cons_self)

/-- **Trust is bound to content while writes to graded objects run to completion.**  In every
history with disk failures and resets at any time, from a blank disk on, in which no write to
a graded object stops half-way: what `storage_read` returns for a graded object are the bytes
it held when it was promoted from `OBJ_UNTRUSTED`. -/
theorem trust_bound_to_content {d : Disk} {scratch : Nat → UInt8} {tr : List PowerRecord}
    {st : Store} (hblank : d.Blank) (hrun : PowerRun d scratch tr st)
    (hsafe : ∀ t ∈ tr, SafeWrite t) : TrustBound st (pinsOf tr).table := by
  have hpins := PowerRun.pinsOk hblank hrun hsafe
  intro id bufLen bytes hgraded hbytes
  by_cases hread : st.Readable id
  swap
  · rw [storageRead_refused hread] at hbytes
    cases hbytes
  rw [storageRead_readable hread] at hbytes
  split at hbytes
  swap
  · cases hbytes
  simp only [Option.some.injEq] at hbytes
  rw [staged_eq_contents hpins.store.table hread, Int.toNat_natCast] at hbytes
  refine ⟨st.contents id, ?_, hbytes.symm⟩
  exact hpins.table id _ (directory_of_live hread.1.2.2) hgraded

/-- A disk whose request `bad` fails when one of its sectors has been written. -/
def tearingDisk (bad : Nat) : Disk :=
  { zeroDisk with outcome := fun i => if i = bad then .fail 1 else .ok }

/-- An object is created, filled and promoted three times. -/
def trustedEvents : List PowerEvent :=
  [.whole (.call (.createNamed (cstring [0x61]))),
   .whole (.call (.write 0 (fun _ => 1) 1)),
   .whole (.call (.promote 0)), .whole (.call (.promote 0)), .whole (.call (.promote 0))]

/-- A list of events from the first boot of `disk` on. -/
def powerHistory (disk : Disk) (events : List PowerEvent) : Option (List PowerRecord × Store) :=
  runTrace powerStep [] (bootStore disk fun _ => 0) events

/-- A step whose write, if it is one, meets no failure. -/
theorem safeWrite_of_ok {t : PowerRecord}
    (h : match t.event with
      | .whole (.call (.write _ _ _)) => t.pre.disk.outcome t.pre.disk.requests = .ok ∧
          t.pre.disk.outcome (t.pre.disk.requests + 1) = .ok
      | .cut (.write _ _ _) _ _ _ => False
      | _ => True) : SafeWrite t := by
  obtain ⟨st, e, o, st'⟩ := t
  cases e with
  | whole e =>
      cases e with
      | call op =>
          cases op with
          | write id buf len =>
              intro _ _
              have hsave : st.disk.outcome (st.disk.requests + 1) ≠ .fail 0 := by
                rw [h.2]
                exact DiskOutcome.noConfusion
              exact ⟨Or.inr fun _ => h.1, Or.inr fun _ => ⟨h.1, hsave⟩⟩
          | createObject | createNamed | read | promote | reject | rename | delete => trivial
      | boot scratch => trivial
  | cut op r n scratch =>
      cases op with
      | write id buf len => exact h.elim
      | createObject | createNamed | read | promote | reject | rename | delete => trivial

set_option maxRecDepth 100000 in
/-- The object is trusted and holds the byte it was promoted with; the power fails while it
is renamed. -/
theorem trust_bound_to_content_promoted :
    ∃ tr st, zeroDisk.Blank ∧ PowerRun zeroDisk (fun _ => 0) tr st ∧ (∀ t ∈ tr, SafeWrite t) ∧
      (st.objects 0).trust = objTrusted ∧ (pinsOf tr).table 0 = some [1] ∧
      TrustBound st (pinsOf tr).table := by
  have hblank : zeroDisk.Blank := by decide
  have hrun : (powerHistory zeroDisk
      (trustedEvents ++ [.cut (.rename 0 (cstring [0x62])) 0 0 fun _ => 0])).map
      (fun r => (r.1.all fun t => match t.event with
        | .whole (.call (.write _ _ _)) => decide (t.pre.disk.outcome t.pre.disk.requests = .ok ∧
            t.pre.disk.outcome (t.pre.disk.requests + 1) = .ok)
        | .cut (.write _ _ _) _ _ _ => false
        | _ => true, (r.2.objects 0).trust, (pinsOf r.1).table 0)) =
      some (true, objTrusted, some [1]) := by
    decide +kernel
  obtain ⟨tr, st, htrace, hview⟩ := exists_trace_of_runTrace hrun
  simp only [Prod.mk.injEq, List.all_eq_true] at hview
  have hsafe : ∀ t ∈ tr, SafeWrite t := by
    intro t ht
    have hcheck := hview.1 t ht
    apply safeWrite_of_ok
    split
    · rename_i hevent
      rw [hevent] at hcheck
      exact of_decide_eq_true hcheck
    · rename_i hevent
      rw [hevent] at hcheck
      cases hcheck
    · trivial
  exact ⟨tr, st, hblank, htrace, hsafe, hview.2.1, hview.2.2,
    trust_bound_to_content hblank htrace hsafe⟩

set_option maxRecDepth 100000 in
/-- The next write to the trusted object fails after one sector: the object is still trusted
and reads as the new byte. -/
theorem trusted_bytes_replaced :
    ∃ tr st, (tearingDisk 7).Blank ∧ PowerRun (tearingDisk 7) (fun _ => 0) tr st ∧
      (st.objects 0).trust = objTrusted ∧ (pinsOf tr).table 0 = some [1] ∧
      (storageRead st 0 1).2 = some [2] ∧ ¬ TrustBound st (pinsOf tr).table := by
  have hrun : (powerHistory (tearingDisk 7)
      (trustedEvents ++ [.whole (.call (.write 0 (fun _ => 2) 1))])).map
      (fun r => ((r.2.objects 0).trust, (pinsOf r.1).table 0, (storageRead r.2 0 1).2)) =
      some (objTrusted, some [1], some [2]) := by
    decide +kernel
  obtain ⟨tr, st, htrace, hview⟩ := exists_trace_of_runTrace hrun
  simp only [Prod.mk.injEq] at hview
  obtain ⟨htrust, hpin, hread⟩ := hview
  refine ⟨tr, st, by decide, htrace, htrust, hpin, hread, fun hbound => ?_⟩
  obtain ⟨c, hc, hbytes⟩ := hbound 0 1 [2] (by rw [htrust]; decide) hread
  rw [hpin, Option.some.injEq] at hc
  subst hc
  exact absurd hbytes (by decide)

end Vajra
