import Vajra.NameKeys
import Vajra.CapabilityProvenance
import Vajra.RecordedIdentity

/-!
# The objects `kernel_main` creates

The demo actors name `payload.bin`, `suspicious.bin` and `hello.bin` by the ids 0, 1 and 2.
Nothing stores these ids: they come out of the order in which `kernel_main` creates the
objects on a blank disk, and on every later boot out of the directory.  A disk may have been
through any number of boots, each cut short anywhere; what it holds is always a beginning
of the three names, and other objects only behind all three (`InOrder`).  While actors run,
no capability to rename or delete one of the three exists (`NoneMovable`).

A power cut is a disk that answers no request from some point on.
-/

namespace Vajra

open EntryTables TransitionTrace

/-- The name `kernel_main` creates in `i`-th place. -/
def bootName : Nat → Nat → UInt8
  | 0 => payloadName
  | 1 => suspiciousName
  | _ => helloName

/-- The first `n` boot objects are in their places, and unless that is all of them there is
nothing else. -/
structure Seeded (n : Nat) (dir : Directory) : Prop where
  named : ∀ i < n, ∃ e, dir i = some e ∧ e.name = nameString (bootName i)
  rest : n < 3 → ∀ i, n ≤ i → dir i = none

/-- A beginning of the boot objects is in place. -/
def InOrder (dir : Directory) : Prop := ∃ n ≤ 3, Seeded n dir

theorem inOrder_empty : InOrder fun _ => none :=
  ⟨0, Nat.zero_le 3, fun i hi => absurd hi (Nat.not_lt_zero i), fun _ _ _ => rfl⟩

theorem bootName_short : ∀ i < 3, ShortName (bootName i) := by decide

theorem bootName_distinct :
    ∀ i < 3, ∀ j < 3, nameString (bootName i) = nameString (bootName j) → i = j := by decide

section Creation

variable {st : Store} {n i : Nat}

/-- A boot object that is there is found in its place. -/
theorem findByName_bootName (hok : TableOk st) (h : Seeded n st.directory) (hn : n ≤ 3)
    (hi : i < n) : findByName st (bootName i) = some i := by
  have hmatch : ∀ j < n, (st.Live j ∧ nameEq (st.objects j).name (bootName i) = true ↔ j = i) := by
    intro j hj
    obtain ⟨e, he, hname⟩ := h.named j hj
    obtain ⟨hlive, rfl⟩ := directory_eq_some he
    rw [nameEq_iff (hok.object j).name]
    constructor
    · rintro ⟨-, -, hsame⟩
      exact bootName_distinct j (by omega) i (by omega) (hname.symm.trans hsame.symm)
    · rintro rfl
      exact ⟨hlive, bootName_short j (by omega), hname.symm⟩
  unfold findByName
  rw [List.find?_range_eq_some]
  refine ⟨?_, ?_, fun j hj => ?_⟩
  · simpa using (hmatch i hi).mpr rfl
  · exact List.mem_range.mpr (hok.lt_count ((hmatch i hi).mpr rfl).1)
  · have hne : ¬ (st.Live j ∧ nameEq (st.objects j).name (bootName i) = true) :=
      fun hboth => absurd ((hmatch j (by omega)).mp hboth) (by omega)
    rw [Bool.not_eq_true', decide_eq_false_iff_not]
    exact hne

/-- A boot object that is missing has its place free. -/
theorem pickObject_of_seeded (hok : TableOk st) (h : Seeded n st.directory) (hn : n < 3) :
    pickObject st = some n := by
  have hlive : ∀ j < n, st.Live j := by
    intro j hj
    obtain ⟨e, he, -⟩ := h.named j hj
    exact (directory_eq_some he).1
  have hdead : ¬ st.Live n := by
    intro hl
    have hsome := directory_of_live hl
    rw [h.rest hn n (Nat.le_refl n)] at hsome
    cases hsome
  unfold pickObject
  by_cases hcount : n < st.objectCount
  · have hfind : ((List.range st.objectCount).find? fun i => decide (¬ st.Live i)) = some n := by
      rw [List.find?_range_eq_some]
      refine ⟨by simpa using hdead, List.mem_range.mpr hcount, fun j hj => ?_⟩
      simpa using hlive j hj
    rw [hfind]
  · have hle : n ≤ st.objectCount := by
      by_contra hlt
      exact hok.unused st.objectCount (Nat.le_refl _) (hlive _ (by omega))
    have hfind : ((List.range st.objectCount).find? fun i => decide (¬ st.Live i)) = none := by
      rw [List.find?_range_eq_none]
      intro j hj
      simpa using hlive j (by omega)
    rw [hfind]
    dsimp only
    rw [if_neg (by simp only [maxObjects]; omega)]
    congr 1
    omega

theorem findByName_missing (hok : TableOk st) (h : Seeded n st.directory) (hn : n < 3) :
    findByName st (bootName n) = none := by
  cases hfind : findByName st (bootName n) with
  | none => rfl
  | some j =>
      obtain ⟨-, e, he, hname⟩ := findByName_some hok hfind
      by_cases hj : j < n
      · obtain ⟨e', he', hname'⟩ := h.named j hj
        rw [he, Option.some.injEq] at he'
        subst he'
        have hsame := bootName_distinct j (by omega) n hn (hname'.symm.trans hname)
        omega
      · rw [h.rest hn j (by omega)] at he
        cases he

/-- A record with a new name extends the boot objects by one. -/
theorem Seeded.create {st' : Store} {obj : Object} (h : Seeded n st.directory) (hn : n < 3)
    (hsave : Saved st st' n obj) (hlive : obj.inUse ≠ 0)
    (hname : nameString obj.name = nameString (bootName n)) : Seeded (n + 1) st'.directory := by
  rw [hsave.directory]
  constructor
  · intro j hj
    by_cases hjn : j = n
    · subst hjn
      rw [Function.update_self, Object.entry, if_neg hlive]
      exact ⟨_, rfl, hname⟩
    · rw [Function.update_of_ne hjn]
      exact h.named j (by omega)
  · intro _ j hj
    rw [Function.update_of_ne (by omega)]
    exact h.rest hn j (by omega)

/-- **A boot object is created in its place**, or found there. -/
theorem storageCreateObject_bootName (hok : TableOk st) (h : Seeded n st.directory) (hn : n ≤ 3)
    (hi : i ≤ n) (hi3 : i < 3) :
    (storageCreateObject st (bootName i)).2 = i ∧
      ∃ m ≤ 3, i < m ∧ Seeded m (storageCreateObject st (bootName i)).1.directory := by
  unfold storageCreateObject
  by_cases hthere : i < n
  · rw [findByName_bootName hok h hn hthere]
    exact ⟨rfl, n, hn, hthere, h⟩
  · have hin : i = n := by omega
    subst hin
    rw [findByName_missing hok h hi3, allocObject, pickObject_of_seeded hok h hi3]
    refine ⟨rfl, i + 1, by omega, by omega, ?_⟩
    refine h.create hi3 (directorySave_saved rfl rfl rfl) Nat.one_ne_zero ?_
    exact nameString_copyName _ _

end Creation

/-- A call that neither renames nor deletes a boot object. -/
def StoreOp.Spares : StoreOp → Prop
  | .rename id _ | .delete id => 3 ≤ id
  | _ => True

/-- **Once all boot objects are in place, they stay.** -/
theorem StoreEffect.seeded {st st' : Store} {op : StoreOp} {r : StoreReply}
    (heffect : StoreEffect st op st' r) (hok : StoreOk st) (h : Seeded 3 st.directory)
    (hspares : op.Spares) : Seeded 3 st'.directory := by
  have hlive : ∀ i < 3, st.Live i := by
    intro i hi
    obtain ⟨e, he, -⟩ := h.named i hi
    exact (directory_eq_some he).1
  have hbehind : ∀ {mid : Store} {id : Nat} {obj : Object}, Saved mid st' id obj →
      mid.directory = st.directory → (id < 3 → obj.inUse ≠ 0 ∧ obj.name = (st.objects id).name) →
      Seeded 3 st'.directory := by
    intro mid id obj hsave hmid hkept
    refine ⟨fun i hi => ?_, fun hlt => absurd hlt (Nat.lt_irrefl 3)⟩
    obtain ⟨e, he, hname⟩ := h.named i hi
    rw [hsave.directory, hmid]
    by_cases hid : i = id
    · subst hid
      obtain ⟨hin, hsame⟩ := hkept hi
      obtain ⟨-, rfl⟩ := directory_eq_some he
      rw [Function.update_self, Object.entry, if_neg hin, hsame]
      exact ⟨_, rfl, hname⟩
    · rw [Function.update_of_ne hid]
      exact ⟨e, he, hname⟩
  cases heffect with
  | refused hsame | fetched _ hsame =>
      rw [hsame.directory]
      exact h
  | found => exact h
  | created _ _ hpick hsave =>
      refine hbehind hsave rfl fun hid => ?_
      exact absurd (hlive _ hid) (pickObject_spec hok.table.toStoreInv hpick).1
  | torn => exact h
  | written hvalid _ _ hsave => exact hbehind hsave rfl fun _ => ⟨hvalid.2.2, rfl⟩
  | promoted hvalid _ hsave => exact hbehind hsave rfl fun _ => ⟨hvalid.2.2, rfl⟩
  | rejected hvalid hsave => exact hbehind hsave rfl fun _ => ⟨hvalid.2.2, rfl⟩
  | renamed _ _ hsave | deleted _ hsave =>
      simp only [StoreOp.Spares] at hspares
      exact hbehind hsave rfl fun hid => absurd hid (by omega)

/-- A call leaves a beginning of the boot objects on the disk if there was one, and the
table has one. -/
theorem StoreEffect.inOrder {st st' : Store} {op : StoreOp} {r : StoreReply}
    (heffect : StoreEffect st op st' r) (hok : StoreOk st) (hdisk : InOrder st.disk.directory)
    (htable : InOrder st'.directory) : InOrder st'.disk.directory := by
  rcases heffect.diskDirectory hok with heq | heq
  · rw [heq]
    exact htable
  · rw [heq]
    exact hdisk

/-- The store of a machine that has been through at least `n` of the three creations. -/
structure BootStore (n : Nat) (st : Store) : Prop where
  ok : StoreOk st
  disk : InOrder st.disk.directory
  table : ∃ m ≤ 3, n ≤ m ∧ Seeded m st.directory

theorem BootStore.call {st : Store} (h : BootStore 3 st) (op : StoreOp) (hspares : op.Spares) :
    BootStore 3 (storeCall st op).1 := by
  obtain ⟨m, hle, hge, hseeded⟩ := h.table
  obtain rfl : m = 3 := by omega
  have heffect := storeCall_effect h.ok.table op
  have hnext := heffect.seeded h.ok hseeded hspares
  exact ⟨heffect.storeOk h.ok, heffect.inOrder h.ok h.disk ⟨3, Nat.le_refl 3, hnext⟩,
    3, Nat.le_refl 3, Nat.le_refl 3, hnext⟩

/-- The creation of the next boot object. -/
theorem BootStore.create {st : Store} {i : Nat} (h : BootStore i st) (hi : i < 3) :
    (storageCreateObject st (bootName i)).2 = i ∧
      BootStore (i + 1) (storageCreateObject st (bootName i)).1 := by
  obtain ⟨n, hn, hin, hseeded⟩ := h.table
  obtain ⟨hret, m, hm, him, hnext⟩ := storageCreateObject_bootName h.ok.table hseeded hn hin hi
  have heffect := storeCall_effect h.ok.table (.createObject (bootName i))
  refine ⟨hret, heffect.storeOk h.ok, ?_, m, hm, him, hnext⟩
  exact heffect.inOrder h.ok h.disk ⟨m, hm, hnext⟩

/-- `storage_init` on a disk with a beginning of the boot objects. -/
theorem bootStore_bootStore {d : Disk} (scratch : Nat → UInt8)
    (himage : ImageOk (d.sector directoryLba)) (hdisk : InOrder d.directory) :
    BootStore 0 (bootStore d scratch) := by
  refine ⟨bootStore_storeOk scratch himage, by rw [bootStore_disk]; exact hdisk, ?_⟩
  have htable : InOrder (bootStore d scratch).directory := by
    rw [bootStore_directory]
    split
    · exact hdisk
    · exact inOrder_empty
  obtain ⟨m, hm, hseeded⟩ := htable
  exact ⟨m, hm, Nat.zero_le m, hseeded⟩

variable {D : Type}

/-- A call of `kernel_main` that has nothing to do with the store. -/
def SetupOp.Quiet : SetupOp → Prop
  | .createObject _ | .seedObject _ _ => False
  | _ => True

theorem setupStep_store (L : Layout) (k : Kernel D) {op : SetupOp} (h : op.Quiet) :
    (setupStep L k op).store = k.store := by
  cases op with
  | createObject | seedObject => exact h.elim
  | spawn entry => exact (actorSpawn_frame L k entry).1.store
  | grant dest op target =>
      simp only [setupStep, actorGrant]
      split
      · rfl
      · rw [actorAddCap_fst]
        rfl
  | setSpawnQuota slot quota =>
      simp only [setupStep, actorSetSpawnQuota]
      split <;> rfl
  | setWindow slot win =>
      simp only [setupStep, actorSetWindow]
      split <;> rfl

/-- The three creations are the calls 15 to 17 of `kernel_main`. -/
theorem kernelMainOps_get {b : Boot D} {n : Nat} {op : SetupOp}
    (h : (kernelMainOps b)[n]? = some op) :
    (op.Quiet ∧ (n < 15 ∨ 18 ≤ n)) ∨ (n = 15 ∧ op = .createObject payloadName) ∨
      (n = 16 ∧ op = .createObject suspiciousName) ∨
      (n = 17 ∧ op = .seedObject helloName b.helloBlob) := by
  have hspawns : (demoActors.map fun a => SetupOp.spawn (b.entryPoint a)).length = 15 := rfl
  rw [kernelMainOps, List.append_assoc, List.append_assoc] at h
  by_cases hlow : n < 15
  · rw [List.getElem?_append_left (by rw [hspawns]; exact hlow)] at h
    obtain ⟨a, -, rfl⟩ := List.mem_map.mp (List.mem_of_getElem? h)
    exact Or.inl ⟨trivial, Or.inl hlow⟩
  rw [List.getElem?_append_right (by rw [hspawns]; omega), hspawns] at h
  by_cases hhigh : 18 ≤ n
  · rw [List.getElem?_append_right (by simp only [List.length_cons, List.length_nil]; omega)] at h
    rcases List.mem_append.mp (List.mem_of_getElem? h) with hmem | hmem
    · obtain ⟨g, -, rfl⟩ := List.mem_map.mp hmem
      exact Or.inl ⟨trivial, Or.inr hhigh⟩
    · simp only [List.mem_cons, List.not_mem_nil, or_false] at hmem
      rcases hmem with rfl | rfl
      · exact Or.inl ⟨trivial, Or.inr hhigh⟩
      · exact Or.inl ⟨trivial, Or.inr hhigh⟩
  · obtain rfl | rfl | rfl : n = 15 ∨ n = 16 ∨ n = 17 := by omega
    · cases h
      exact Or.inr (Or.inl ⟨rfl, rfl⟩)
    · cases h
      exact Or.inr (Or.inr (Or.inl ⟨rfl, rfl⟩))
    · cases h
      exact Or.inr (Or.inr (Or.inr ⟨rfl, rfl⟩))

theorem kernelMainOps_length (b : Boot D) : (kernelMainOps b).length = 42 := rfl

theorem setupStep_create (L : Layout) {k : Kernel D} {i : Nat} (h : BootStore i k.store)
    (hi : i < 3) : BootStore (i + 1) (setupStep L k (.createObject (bootName i))).store :=
  (h.create hi).2

theorem setupStep_seed (L : Layout) {k : Kernel D} (h : BootStore 2 k.store) (bytes : List UInt8) :
    BootStore 3 (setupStep L k (.seedObject helloName bytes)).store :=
  BootStore.call (h.create (by decide)).2 (.write _ (cstring bytes) _) trivial

/-- **The store during `kernel_main`.** -/
theorem setupState_bootStore (L : Layout) {b : Boot D} (h : BootStore 0 (powerOn b).store) (n : Nat) :
    BootStore (min (n - 15) 3) (setupState L b n).store := by
  induction n with
  | zero => exact h
  | succ n ih =>
      rw [setupState_succ]
      cases hop : (kernelMainOps b)[n]? with
      | none =>
          have hlen := List.getElem?_eq_none_iff.mp hop
          rw [kernelMainOps_length] at hlen
          rw [show min (n + 1 - 15) 3 = min (n - 15) 3 by omega]
          exact ih
      | some op =>
          dsimp only
          have hget := kernelMainOps_get hop
          generalize setupState L b n = k at ih ⊢
          rcases hget with ⟨hquiet, hn⟩ | ⟨rfl, rfl⟩ | ⟨rfl, rfl⟩ | ⟨rfl, rfl⟩
          · rw [setupStep_store L _ hquiet, show min (n + 1 - 15) 3 = min (n - 15) 3 by omega]
            exact ih
          · exact setupStep_create L (i := 0) ih (by decide)
          · exact setupStep_create L (i := 1) ih (by decide)
          · exact setupStep_seed L ih _

/-- No table holds a right to rename or to delete a boot object. -/
def NoneMovable (k : Kernel D) : Prop :=
  ∀ s, ∀ x ∈ k.tables s, x.op = capRenameObject ∨ x.op = capDeleteObject → 3 ≤ x.target

/-- **Where the pairs that an event puts in tables come from**: a delegation copies one, a
spawn connects the two, a creation gives the four rights to what was created. -/
theorem put_mem_capChanges {L : Layout} {k : Kernel D} {c s : Slot} {e : Event D} {x : Capability}
    (hlive : k.Live c) (hput : Change.put s x ∈ capChanges L k c e) :
    (∃ call, IsCall e .grant call ∧ x = ⟨cInt call.a2, cInt call.a3⟩ ∧ x ∈ k.tables c) ∨
    (∃ i, takenSlot L k c e = some i ∧
      ((s = c ∧ (x = ⟨capSend, (i : Nat)⟩ ∨ x = ⟨capTerminate, (i : Nat)⟩)) ∨
        (s = i ∧ x = ⟨capSend, (c : Nat)⟩))) ∨
    (s = c ∧ x.op ∈ creatorOps ∧
      ∃ name, x.target = (storageCreateNamed k.store name).2 ∧ 0 ≤ x.target) := by
  have hspawn : ∀ {k' : Kernel D} {taken result : Option Slot}, ChildSpawn k c k' taken result →
      Change.put s x ∈ spawnChanges c taken result → ∃ i, taken = some i ∧
        ((s = c ∧ (x = ⟨capSend, (i : Nat)⟩ ∨ x = ⟨capTerminate, (i : Nat)⟩)) ∨
          (s = i ∧ x = ⟨capSend, (c : Nat)⟩)) := by
    intro k' taken result hchild hmem
    obtain ⟨i, hresult, hpair⟩ := put_mem_spawnChanges hchild hmem
    cases hchild with
    | refused | aborted => cases hresult
    | spawned =>
        cases hresult
        exact ⟨i, rfl, hpair⟩
  unfold capChanges at hput
  split at hput
  swap
  · simp at hput
  rename_i call
  split at hput
  · rename_i hdecode
    refine Or.inl ⟨call, ⟨rfl, hdecode⟩, ?_⟩
    unfold grantChanges at hput
    rcases actorDelegate_cases k c (cInt call.a1) (cInt call.a2) (cInt call.a3) with
      heq | ⟨d, _, hcap, _⟩
    · rw [heq] at hput
      split at hput <;> simp at hput
    · split at hput
      · simp at hput
      · split at hput
        · simp only [List.mem_cons, Change.put.injEq, List.not_mem_nil, or_false] at hput
          rw [hput.2]
          exact ⟨rfl, hasCap_iff.mp hcap⟩
        · simp at hput
  · rename_i hdecode
    refine Or.inr (Or.inl ?_)
    rw [takenSlot]
    simp only [hdecode]
    exact hspawn (actorSpawnChild_spec L k hlive _).1 hput
  · rename_i hdecode
    split at hput
    · rename_i hcap
      refine Or.inr (Or.inl ?_)
      rw [takenSlot]
      simp only [hdecode, if_pos hcap]
      exact hspawn (loaderSpawnProgram_spec L k hlive _).1 hput
    · simp at hput
  · split at hput
    swap
    · simp at hput
    unfold createChanges at hput
    split at hput
    · simp at hput
    rename_i hid
    simp only [List.mem_cons, Change.put.injEq, List.not_mem_nil, or_false] at hput
    refine Or.inr (Or.inr ?_)
    rcases hput with ⟨rfl, rfl⟩ | ⟨rfl, rfl⟩ | ⟨rfl, rfl⟩ | ⟨rfl, rfl⟩
    all_goals exact ⟨rfl, by simp [creatorOps], userBytes k s call.a1, rfl, Int.not_lt.mp hid⟩
  · simp at hput

/-- What is created while the boot objects are in place gets an id behind them. -/
theorem BootStore.created_behind {st : Store} (h : BootStore 3 st) {name : Nat → UInt8}
    (hpos : 0 ≤ (storageCreateNamed st name).2) : 3 ≤ (storageCreateNamed st name).2 := by
  obtain ⟨m, hle, hge, hseeded⟩ := h.table
  obtain rfl : m = 3 := by omega
  unfold storageCreateNamed allocObject at *
  cases hfind : findByName st name with
  | some id => simp [hfind] at hpos
  | none =>
      cases hpick : pickObject st with
      | none => simp [hfind, hpick] at hpos
      | some id =>
          have hdead := (pickObject_spec h.ok.table.toStoreInv hpick).1
          by_contra hlt
          dsimp only at hlt
          obtain ⟨e, he, -⟩ := hseeded.named id (by omega)
          exact hdead (directory_eq_some he).1

/-- An operation that an actor without such rights makes spares the boot objects. -/
theorem StoreChange.bootStore {k : Kernel D} {c : Slot} {st : Store} (h : StoreChange k c st)
    (hstore : BootStore 3 k.store) (hnone : NoneMovable k) : BootStore 3 st := by
  cases h with
  | none => exact hstore
  | read id len => exact hstore.call (.read id len) trivial
  | write id buf len => exact hstore.call (.write id buf len) trivial
  | promote id => exact hstore.call (.promote id) trivial
  | reject id => exact hstore.call (.reject id) trivial
  | create name => exact hstore.call (.createNamed name) trivial
  | rename id name hcap =>
      have hfree : 3 ≤ id := hnone c _ (hasCap_iff.mp hcap) (Or.inl rfl)
      exact hstore.call (.rename id name) hfree
  | delete id hcap =>
      have hfree : 3 ≤ id := hnone c _ (hasCap_iff.mp hcap) (Or.inr rfl)
      exact hstore.call (.delete id) hfree

theorem kernelMainGrants_spare :
    ∀ g ∈ kernelMainGrants, g.2.1 ≠ capRenameObject ∧ g.2.1 ≠ capDeleteObject := by decide

theorem capRename_ne_zero : ∀ op : Int, op = capRenameObject ∨ op = capDeleteObject → op ≠ 0 := by
  rintro op (rfl | rfl)
  · decide
  · decide

/-- **While actors run**, the boot objects are in place and nobody can move them. -/
theorem run_bootStore {L : Layout} {hal : Hal D} {b : Boot D} {tr : List (Record D)} {k : Kernel D}
    (hboot : BootStore 0 (powerOn b).store) (hrun : Run L hal b tr k) :
    BootStore 3 k.store ∧ NoneMovable k := by
  refine hrun.history_invariant (fun _ k => BootStore 3 k.store ∧ NoneMovable k) ⟨?_, ?_⟩ ?_
  · rw [bootState, schedulerStart, scheduleNext_store, kernelMain_eq_setupState]
    have hsetup := setupState_bootStore L hboot (kernelMainOps b).length
    rw [kernelMainOps_length] at hsetup ⊢
    exact hsetup
  · intro s x hx hmove
    rw [bootState, schedulerStart, scheduleNext_tables, kernelMain_eq_setupState] at hx
    have hgrant := setupState_granted L b _ s x hx (capRename_ne_zero x.op hmove)
    obtain ⟨hrename, hdelete⟩ := kernelMainGrants_spare _ hgrant
    exact hmove.elim (fun h => absurd h hrename) fun h => absurd h hdelete
  · rintro tr k e o k' hrun ⟨hstore, hnone⟩ hstep
    obtain ⟨c, _, hcur, hlive, hstepped⟩ := Run.stepped hrun hstep
    refine ⟨(hstepped.storeChange hlive).bootStore hstore hnone, ?_⟩
    intro s x hx hmove
    rw [Run.tables hrun hstep] at hx
    rcases mem_applyAll hx with ⟨hmem, -⟩ | hblank | hput
    · exact hnone s x hmem hmove
    · exact absurd (op_of_mem_blankTable hblank) (capRename_ne_zero x.op hmove)
    · simp only [recordChanges, hcur] at hput
      rcases put_mem_capChanges hlive hput with
        ⟨_, _, _, hheld⟩ | ⟨i, _, ⟨_, rfl | rfl⟩ | ⟨_, rfl⟩⟩ | ⟨_, _, name, htarget, hpos⟩
      · exact hnone c x hheld hmove
      · exact absurd hmove (by dsimp only; decide)
      · exact absurd hmove (by dsimp only; decide)
      · exact absurd hmove (by dsimp only; decide)
      · rw [htarget] at hpos ⊢
        exact hstore.created_behind hpos

/-- The contents of a disk over its life: the machine is switched on with it, runs to some
state and loses power there.  A disk that stops answering at some request is one whose
power went before that request. -/
inductive DiskLife (L : Layout) (hal : Hal D) (factory : Nat → Nat → UInt8) :
    (Nat → Nat → UInt8) → Prop
  | new : DiskLife L hal factory factory
  | session {b : Boot D} {k : Kernel D} (before : DiskLife L hal factory b.disk.sector)
      (h : Reached L hal b k) : DiskLife L hal factory k.store.disk.sector

/-- **A disk holds a beginning of the boot objects for ever.** -/
theorem DiskLife.inOrder {L : Layout} {hal : Hal D} {factory sector : Nat → Nat → UInt8}
    (hblank : ByteMemory.readLE (factory directoryLba) 0 4 ≠ directoryMagic)
    (h : DiskLife L hal factory sector) :
    ImageOk (sector directoryLba) ∧ InOrder (imageDirectory (sector directoryLba)) := by
  induction h with
  | new =>
      refine ⟨fun hmagic => absurd hmagic hblank, ?_⟩
      have hnone : imageDirectory (factory directoryLba) = fun _ => none := by
        funext id
        rw [imageDirectory, if_neg fun hmagic => hblank hmagic.1]
      rw [hnone]
      exact inOrder_empty
  | @session b k _ hreached ih =>
      have hboot : BootStore 0 (powerOn b).store := bootStore_bootStore b.scratch ih.1 ih.2
      cases hreached with
      | setup n =>
          have hsetup := setupState_bootStore L hboot n
          exact ⟨hsetup.ok.image, hsetup.disk⟩
      | run hrun =>
          have hstore := (run_bootStore hboot hrun).1
          exact ⟨hstore.ok.image, hstore.disk⟩

end Vajra
