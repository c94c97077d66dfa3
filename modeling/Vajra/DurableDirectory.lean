import Vajra.NameKeys

/-!
# What a successful call leaves on the disk

`directory_save` ignores the result of its write.  A call whose directory write is lost
reports success all the same, and the next boot brings the old directory back
(`lost_creation`).  As long as the write of every call that changes the directory reaches
the disk, the table and the disk agree, and the next successful call keeps them so exactly
when its own write reaches the disk or it changes nothing.
-/

namespace Vajra

open TransitionTrace

/-- `storage_init` on the disk as it stands yields the live ids, names, trust levels and
sizes of the table. -/
def Durable (st : Store) : Prop :=
  ∀ scratch, (bootStore { st.disk with outcome := fun _ => .ok } scratch).directory = st.directory

theorem durable_iff (st : Store) : Durable st ↔ st.disk.directory = st.directory := by
  have hboot : ∀ scratch, (bootStore { st.disk with outcome := fun _ => .ok } scratch).directory =
      st.disk.directory := by
    intro scratch
    rw [bootStore_directory, if_pos rfl]
    rfl
  constructor
  · intro h
    rw [← hboot fun _ => 0]
    exact h _
  · intro h scratch
    rw [hboot]
    exact h

/-- The number of the request with which a call saves the directory; `storage_write` writes
the data first. -/
def StoreOp.saveRequest (d : Disk) : StoreOp → Nat
  | .write _ _ _ => d.requests + 1
  | _ => d.requests

/-- The directory write of a call reaches the disk. -/
def SaveLands (st : Store) (op : StoreOp) : Prop :=
  st.disk.outcome (op.saveRequest st.disk) ≠ .fail 0

instance (st : Store) (op : StoreOp) : Decidable (SaveLands st op) :=
  inferInstanceAs (Decidable (_ ≠ _))

/-- A call that, if it succeeds, finds the directory as it would leave it. -/
def Unchanging (st : Store) : StoreOp → Prop
  | .createObject name => findByName st name ≠ none
  | .write id _ len =>
      (st.objects id.toNat).trust = objUntrusted ∧ (st.objects id.toNat).sizeBytes = len
  | .reject id => (st.objects id.toNat).trust = objRejected
  | .rename id newName => nameString (st.objects id.toNat).name = nameString newName
  | .read _ _ => True
  | .createNamed _ | .promote _ | .delete _ => False

/-- A save keeps table and disk in step if it lands, or if there was nothing to save. -/
theorem Saved.durable_iff {st st' : Store} {id : Nat} {obj : Object} (h : Saved st st' id obj)
    (hok : TableOk st') (hdurable : Durable st) :
    Durable st' ↔ st.disk.Lands ∨ obj.entry = st.directory id := by
  rw [Vajra.durable_iff] at hdurable ⊢
  rw [h.diskDirectory hok]
  by_cases hlands : st.disk.Lands
  · rw [if_pos hlands]
    exact iff_of_true rfl (Or.inl hlands)
  · rw [if_neg hlands, hdurable, h.directory]
    constructor
    · intro heq
      right
      rw [heq, Function.update_self]
    · intro hentry
      rw [hentry.resolve_left hlands, Function.update_eq_self]

/-- **When a successful call is durable.** -/
theorem StoreEffect.durable_iff {st st' : Store} {op : StoreOp} {r : StoreReply}
    (h : StoreEffect st op st' r) (hok : StoreOk st) (hdurable : Durable st)
    (hsuccess : r.ret ≠ -1) : Durable st' ↔ SaveLands st op ∨ Unchanging st op := by
  have htable := (h.storeOk hok).table
  have hkept : Durable st' → Unchanging st op →
      (Durable st' ↔ SaveLands st op ∨ Unchanging st op) :=
    fun hd hu => iff_of_true hd (Or.inr hu)
  cases h with
  | refused => exact absurd rfl hsuccess
  | torn => exact absurd rfl hsuccess
  | found hfound => exact hkept hdurable (by rw [Unchanging, hfound]; exact Option.some_ne_none _)
  | fetched _ hsame =>
      refine hkept ?_ trivial
      rw [Vajra.durable_iff] at hdurable ⊢
      rw [hsame.diskDirectory, hdurable, hsame.directory]
  | @created _ name id _ hop hnew hpick hsave =>
      have hdead : st.directory id = none :=
        entry_of_dead (not_not.mp (pickObject_spec hok.table.toStoreInv hpick).1)
      rw [hsave.durable_iff htable hdurable, hdead]
      rcases hop with rfl | rfl
      · exact or_congr Iff.rfl (by simp [Unchanging, hnew, Object.entry])
      · exact or_congr Iff.rfl (by simp [Unchanging, Object.entry])
  | @written id buf len _ hvalid _ _ hsave =>
      have hpartly : Durable (st.partly id.toNat sectorsPerObject buf len) := by
        rw [Vajra.durable_iff] at hdurable ⊢
        rw [partly_diskDirectory, hdurable]
        rfl
      rw [hsave.durable_iff htable hpartly]
      refine or_congr Iff.rfl ?_
      rw [show (st.partly id.toNat sectorsPerObject buf len).directory = st.directory from rfl,
        directory_of_live hvalid.2.2, Object.entry, if_neg hvalid.2.2]
      simp only [Unchanging, Option.some.injEq, Entry.mk.injEq, true_and]
      exact and_congr eq_comm eq_comm
  | @promoted id _ hvalid _ hsave =>
      rw [hsave.durable_iff htable hdurable]
      refine or_congr Iff.rfl ?_
      rw [directory_of_live hvalid.2.2, Object.entry, if_neg hvalid.2.2]
      simp [Unchanging]
  | @rejected id _ hvalid hsave =>
      rw [hsave.durable_iff htable hdurable]
      refine or_congr Iff.rfl ?_
      rw [directory_of_live hvalid.2.2, Object.entry, if_neg hvalid.2.2]
      simp only [Unchanging, Option.some.injEq, Entry.mk.injEq, true_and, and_true]
      exact eq_comm
  | @renamed id newName _ hnamed _ hsave =>
      rw [hsave.durable_iff htable hdurable]
      refine or_congr Iff.rfl ?_
      rw [directory_of_live hnamed.2.2, Object.entry, if_neg hnamed.2.2]
      simp only [Unchanging, nameString_copyName, Option.some.injEq, Entry.mk.injEq, and_true]
      exact eq_comm
  | @deleted id _ hnamed hsave =>
      rw [hsave.durable_iff htable hdurable]
      refine or_congr Iff.rfl ?_
      rw [directory_of_live hnamed.2.2]
      simp [Unchanging, Object.entry]

/-- A call that fails leaves table and disk in step. -/
theorem StoreEffect.durable_of_failed {st st' : Store} {op : StoreOp} {r : StoreReply}
    (h : StoreEffect st op st' r) (hdurable : Durable st) (hfailed : r.ret = -1) :
    Durable st' := by
  rw [Vajra.durable_iff] at hdurable ⊢
  cases h with
  | refused hsame => rw [hsame.diskDirectory, hdurable, hsame.directory]
  | torn =>
      rw [partly_diskDirectory, hdurable]
      rfl
  | fetched _ hsame => rw [hsame.diskDirectory, hdurable, hsame.directory]
  | found => exact hdurable
  | created | written | promoted =>
      dsimp only at hfailed
      omega
  | rejected | renamed | deleted => cases hfailed

/-- A step of a history that keeps table and disk in step: a call fails, or changes nothing,
or its directory write reaches the disk; a boot can read the directory. -/
def Persisted (t : StoreRecord) : Prop :=
  match t.event with
  | .call op => t.outcome.ret = -1 ∨ SaveLands t.pre op ∨ Unchanging t.pre op
  | .boot _ => t.pre.disk.outcome t.pre.disk.requests = .ok

theorem StoreRun.durable {d : Disk} {scratch : Nat → UInt8} {tr : List StoreRecord} {st : Store}
    (hblank : d.Blank) (hrun : StoreRun d scratch tr st) (hsaved : ∀ t ∈ tr, Persisted t) :
    Durable st := by
  have hall := hrun.history_invariant
    (fun tr st => (∀ t ∈ tr, Persisted t) → Durable st) ?_ ?_
  · exact hall hsaved
  · intro _
    rw [durable_iff, bootStore_directory, bootStore_disk]
    split
    · rfl
    · exact hblank.directory
  · intro tr st e o st' hbefore hold hstep hsaved
    have hok := StoreRun.storeOk hblank hbefore
    have hdurable := hold fun t ht => hsaved t (List.mem_cons_of_mem _ ht)
    have hlast := hsaved _ List.mem_cons_self
    cases e with
    | call op =>
        have heffect := storeStep_effect hok.table hstep
        by_cases hfailed : o.ret = -1
        · exact heffect.durable_of_failed hdurable hfailed
        · exact (heffect.durable_iff hok hdurable hfailed).mpr (hlast.resolve_left hfailed)
    | boot scratch =>
        cases hstep
        have hread : st.disk.outcome st.disk.requests = .ok := hlast
        rw [durable_iff, bootStore_directory, bootStore_disk, if_pos hread]
        rfl

/-- **Acknowledged changes are durable while directory writes reach the disk.**  In every
history, from a blank disk on, in which the directory write of every successful call that
changes the directory reaches the disk: table and disk agree after every event, and the next
successful call is durable exactly when its directory write reaches the disk, too, or it
changes nothing that the directory records. -/
theorem acknowledged_changes_durable {d : Disk} {scratch : Nat → UInt8} {tr : List StoreRecord}
    {st : Store} (hblank : d.Blank) (hrun : StoreRun d scratch tr st)
    (hsaved : ∀ t ∈ tr, Persisted t) :
    Durable st ∧ ∀ op, (storeCall st op).2.ret ≠ -1 →
      (Durable (storeCall st op).1 ↔ SaveLands st op ∨ Unchanging st op) := by
  have hok := StoreRun.storeOk hblank hrun
  have hdurable := StoreRun.durable hblank hrun hsaved
  exact ⟨hdurable, fun op hsuccess =>
    (storeCall_effect hok.table op).durable_iff hok hdurable hsuccess⟩

/-- The boot can read the directory, and no later request succeeds. -/
def brokenDisk : Disk :=
  { zeroDisk with outcome := fun i => if i = 0 then .ok else .fail 0 }

set_option maxRecDepth 100000 in
/-- On a good disk the creation of an object survives. -/
theorem acknowledged_changes_durable_creation :
    ∃ tr st, zeroDisk.Blank ∧ StoreRun zeroDisk (fun _ => 0) tr st ∧ (∀ t ∈ tr, Persisted t) ∧
      st.directory 0 = some ⟨[0x61], objUntrusted, 0⟩ ∧ Durable st := by
  have hblank : zeroDisk.Blank := by decide
  have hrun : (storeHistory zeroDisk [.call (.createNamed (cstring [0x61]))]).map
      (fun r => (r.1.all fun t => match t.event with
        | .call op => decide (SaveLands t.pre op)
        | .boot _ => false, r.2.directory 0)) = some (true, some ⟨[0x61], objUntrusted, 0⟩) := by
    decide +kernel
  obtain ⟨tr, st, htrace, hview⟩ := exists_trace_of_runTrace hrun
  simp only [Prod.mk.injEq, List.all_eq_true] at hview
  have hsaved : ∀ t ∈ tr, Persisted t := by
    intro t ht
    have hcheck := hview.1 t ht
    unfold Persisted
    split
    · rename_i op hop
      rw [hop] at hcheck
      exact Or.inr (Or.inl (of_decide_eq_true hcheck))
    · rename_i hboot
      rw [hboot] at hcheck
      cases hcheck
  exact ⟨tr, st, hblank, htrace, hsaved, hview.2,
    (acknowledged_changes_durable hblank htrace hsaved).1⟩

set_option maxRecDepth 100000 in
/-- `storage_create_named` returns id 0 for an object that the next boot does not know. -/
theorem lost_creation :
    ∃ st, brokenDisk.Blank ∧ StoreRun brokenDisk (fun _ => 0) [] st ∧
      (storeCall st (.createNamed (cstring [0x61]))).2.ret = 0 ∧
      ¬ Durable (storeCall st (.createNamed (cstring [0x61]))).1 := by
  refine ⟨_, by decide, Trace.nil, by decide +kernel, fun hdurable => ?_⟩
  rw [durable_iff] at hdurable
  have hdir := congrFun hdurable 0
  revert hdir
  decide +kernel

end Vajra
