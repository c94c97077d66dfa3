import Vajra.DurableDirectory

/-!
# The objects of a store whose disk does not fail

An object is a byte string with a trust level.  What happened to the object of an id is a
log of four kinds of entries (`Touch`), and `replay` is what the log makes of it.  On a disk
that does not fail, `storage.c` with its fixed sectors, its staging buffer and its directory
sector is a refinement of that: every live object is the replay of its log
(`StoreRun.replayed`), through deletion, reuse of the id and reboots.
-/

namespace Vajra

open TransitionTrace

/-- Every request is answered. -/
def Disk.Reliable (d : Disk) : Prop := ∀ i, d.outcome i = .ok

/-- What an object is, apart from its name. -/
structure ObjectState where
  bytes : List UInt8
  trust : Nat
  deriving DecidableEq

/-- What can happen to the object of an id. -/
inductive Touch where
  | created
  | wrote (bytes : List UInt8)
  | promoted
  | rejected
  deriving DecidableEq

def Touch.apply : Touch → ObjectState → ObjectState
  | .created, _ => ⟨[], objUntrusted⟩
  | .wrote bytes, _ => ⟨bytes, objUntrusted⟩
  | .promoted, s => { s with trust := s.trust + 1 }
  | .rejected, s => { s with trust := objRejected }

/-- What a log, newest entry first, makes of an object. -/
def replay : List Touch → ObjectState
  | [] => ⟨[], objUntrusted⟩
  | t :: log => t.apply (replay log)

/-- The entry that a recorded event leaves in the log of object `id`: a successful creation,
write, promotion or rejection of it.  A creation that finds the object there is none. -/
def touch (t : StoreRecord) (id : Nat) : Option Touch :=
  match t.event with
  | .call (.createObject _) | .call (.createNamed _) =>
      if t.outcome.ret = id ∧ ¬ t.pre.Live id then some .created else none
  | .call (.write i buf len) =>
      if i = id ∧ t.outcome.ret ≠ -1 then some (.wrote ((List.range len).map buf)) else none
  | .call (.promote i) => if i = id ∧ t.outcome.ret ≠ -1 then some .promoted else none
  | .call (.reject i) => if i = id ∧ t.outcome.ret ≠ -1 then some .rejected else none
  | .call (.read _ _) | .call (.rename _ _) | .call (.delete _) | .boot _ => none

/-- The log of object `id` in a history. -/
def objectLog (tr : List StoreRecord) (id : Nat) : List Touch := tr.filterMap (touch · id)

/-- The data of the last successful `storage_write` since the object was created. -/
def lastWrite (log : List Touch) : Option (List UInt8) :=
  (log.takeWhile (· ≠ .created)).findSome? fun
    | .wrote bytes => some bytes
    | _ => none

theorem replay_bytes (log : List Touch) : (replay log).bytes = (lastWrite log).getD [] := by
  induction log with
  | nil => rfl
  | cons t log ih =>
      cases t with
      | created => rfl
      | wrote bytes => rfl
      | promoted => exact ih
      | rejected => exact ih

/-- The object of an id as the code keeps it. -/
def Store.state (st : Store) (id : Nat) : ObjectState := ⟨st.contents id, (st.objects id).trust⟩

/-- The call whose record this is. -/
abbrev callRecord (st : Store) (op : StoreOp) (r : StoreReply) (st' : Store) : StoreRecord :=
  ⟨st, .call op, r, st'⟩

/-- What an event makes of a live object, as its entry in the log says. -/
structure Touched (t : StoreRecord) (id : Nat) : Prop where
  state : t.post.state id = (touch t id).elim (t.pre.state id) fun x => x.apply (t.pre.state id)
  live : touch t id = some .created ∨ t.pre.Live id

section Frames

variable {st st' mid : Store} {id : Nat} {obj : Object}

theorem Unwritten.state (h : Unwritten st st') (j : Nat) : st'.state j = st.state j := by
  unfold Store.state Store.contents
  rw [h.objects]
  have hbytes : st'.disk.bytes = st.disk.bytes := by
    funext lba i
    rw [Disk.bytes, Disk.bytes, h.sector]
  rw [hbytes]

theorem Saved.dataSector (h : Saved mid st' id obj) {j s : Nat} (hs : DataSector j s) :
    st'.disk.sector s = mid.disk.sector s := by
  rw [h.sector, if_neg fun hdir => hs.not_directory hdir.1]

/-- The replaced object: its bytes are where they were. -/
theorem Saved.state_self (h : Saved mid st' id obj) (hsize : obj.sizeBytes ≤ objectMaxBytes) :
    st'.state id = ⟨mid.disk.object id obj.sizeBytes, obj.trust⟩ := by
  have hobj : st'.objects id = obj := by rw [h.objects, Function.update_self]
  have hbytes : st'.contents id = st'.disk.object id obj.sizeBytes := by
    rw [Store.contents, hobj, Disk.object]
  rw [Store.state, hbytes, hobj, object_congr hsize fun s hs => h.dataSector hs]

/-- Every other object is as it was. -/
theorem Saved.state_other (h : Saved mid st' id obj) (hok : TableOk mid) {j : Nat} (hj : j ≠ id) :
    st'.state j = mid.state j := by
  have hobj : st'.objects j = mid.objects j := by rw [h.objects, Function.update_of_ne hj]
  have hbytes : st'.contents j = st'.disk.object j (mid.objects j).sizeBytes := by
    rw [Store.contents, hobj, Disk.object]
  rw [Store.state, hbytes, hobj, object_congr (hok.object j).size fun s hs => h.dataSector hs]
  rfl

/-- The data sectors of a written object hold what the staging buffer held. -/
theorem partly_object (st : Store) (id : Nat) (buf : Nat → UInt8) {len : Nat}
    (hlen : len ≤ objectMaxBytes) :
    (st.partly id sectorsPerObject buf len).disk.object id len = (List.range len).map buf := by
  refine List.map_congr_left fun i hi => ?_
  have hlt := List.mem_range.mp hi
  have hmax : i < objectMaxBytes := by omega
  have hsector := dataSector_of_byte id hmax
  unfold DataSector at hsector
  simp only [Store.partly, Disk.torn, Disk.bytes, Disk.put, Store.filled]
  have hindex : (objectDataBaseLba + id * sectorsPerObject + i / 512 -
      (objectDataBaseLba + id * sectorsPerObject)) * 512 + i % 512 = i := by omega
  rw [if_pos hsector, hindex, if_pos hmax, if_pos hlt]

theorem partly_state_other (hok : TableOk st) {j : Nat} (hj : j ≠ id) (buf : Nat → UInt8)
    (len : Nat) : (st.partly id sectorsPerObject buf len).state j = st.state j := by
  have hbytes : (st.partly id sectorsPerObject buf len).contents j = st.contents j :=
    object_congr (hok.object j).size fun s hs => partly_sector st hj hs (Nat.le_refl _) buf len
  rw [Store.state, hbytes]
  rfl

end Frames

/-- The id a call is about; a creation is about the id it returns. -/
def StoreOp.target (r : StoreReply) : StoreOp → Int
  | .createObject _ | .createNamed _ => r.ret
  | .read id _ | .write id _ _ | .promote id | .reject id | .rename id _ | .delete id => id

/-- Nothing has changed but object `i`, its sectors and the directory. -/
structure ConfinedTo (i : Int) (st st' : Store) : Prop where
  object : ∀ j : Nat, (j : Int) ≠ i → st'.objects j = st.objects j ∧ st'.state j = st.state j
  sector : ∀ s, st'.disk.sector s ≠ st.disk.sector s →
    s = directoryLba ∨ ∃ j : Nat, (j : Int) = i ∧ DataSector j s

theorem Unwritten.confined {st st' : Store} (h : Unwritten st st') (i : Int) :
    ConfinedTo i st st' :=
  ⟨fun j _ => ⟨congrFun h.objects j, h.state j⟩, fun s hs => absurd (congrFun h.sector s) hs⟩

theorem Saved.confined {st st' : Store} {id : Nat} {obj : Object} (h : Saved st st' id obj)
    (hok : TableOk st) : ConfinedTo id st st' := by
  constructor
  · intro j hj
    have hne : j ≠ id := fun heq => hj (congrArg Nat.cast heq)
    exact ⟨by rw [h.objects, Function.update_of_ne hne], h.state_other hok hne⟩
  · intro s hs
    rw [h.sector] at hs
    by_cases hdir : s = directoryLba ∧ st.disk.Lands
    · exact Or.inl hdir.1
    · rw [if_neg hdir] at hs
      exact absurd rfl hs

theorem partly_confined {st : Store} (hok : TableOk st) (id : Nat) (buf : Nat → UInt8) (len : Nat) :
    ConfinedTo id st (st.partly id sectorsPerObject buf len) := by
  constructor
  · intro j hj
    have hne : j ≠ id := fun heq => hj (congrArg Nat.cast heq)
    exact ⟨rfl, partly_state_other hok hne buf len⟩
  · intro s hs
    refine Or.inr ⟨id, rfl, ?_⟩
    by_contra hout
    apply hs
    funext i
    exact if_neg hout

theorem ConfinedTo.trans {i : Int} {st mid st' : Store} (h : ConfinedTo i st mid)
    (h' : ConfinedTo i mid st') : ConfinedTo i st st' := by
  constructor
  · intro j hj
    exact ⟨(h'.object j hj).1.trans (h.object j hj).1, (h'.object j hj).2.trans (h.object j hj).2⟩
  · intro s hs
    by_cases hmid : mid.disk.sector s = st.disk.sector s
    · exact h'.sector s (by rw [hmid]; exact hs)
    · exact h.sector s hmid

/-- **A call changes one object.** -/
theorem StoreEffect.confined {st st' : Store} {op : StoreOp} {r : StoreReply}
    (h : StoreEffect st op st' r) (hok : StoreOk st) (hgood : st.disk.Reliable) :
    ConfinedTo (op.target r) st st' := by
  have hsaved : ∀ {id : Int} {obj : Object}, 0 ≤ id → Saved st st' id.toNat obj →
      ConfinedTo id st st' := by
    intro id obj hnonneg hsave
    have hconfined := hsave.confined hok.table
    rw [Int.toNat_of_nonneg hnonneg] at hconfined
    exact hconfined
  cases h with
  | refused hsame | fetched _ hsame => exact hsame.confined _
  | found => exact (Unwritten.refl st).confined _
  | created hop _ _ hsave =>
      rcases hop with rfl | rfl
      · exact hsave.confined hok.table
      · exact hsave.confined hok.table
  | torn _ _ hout =>
      rw [hgood] at hout
      cases hout
  | @written id buf len _ hvalid _ _ hsave =>
      have hdata := partly_confined hok.table id.toNat buf len
      have hconfined := hdata.trans (hsave.confined (partly_tableOk hok.table _ _ _ _))
      rw [Int.toNat_of_nonneg hvalid.1] at hconfined
      exact hconfined
  | promoted hvalid _ hsave => exact hsaved hvalid.1 hsave
  | rejected hvalid hsave => exact hsaved hvalid.1 hsave
  | renamed hnamed _ hsave => exact hsaved hnamed.1 hsave
  | deleted hnamed hsave => exact hsaved hnamed.1 hsave

/-- A call leaves no entry in the logs of other ids. -/
theorem touch_of_ne_target {st st' : Store} {op : StoreOp} {r : StoreReply} {j : Nat}
    (h : (j : Int) ≠ op.target r) : touch (callRecord st op r st') j = none := by
  cases op with
  | createObject | createNamed => exact if_neg fun hc => h hc.1.symm
  | write | promote | reject => exact if_neg fun hc => h hc.1.symm
  | read | rename | delete => rfl

/-- A call that fails leaves no entry. -/
theorem touch_of_failed {st st' : Store} {op : StoreOp} {r : StoreReply} (h : r.ret = -1)
    (j : Nat) : touch (callRecord st op r st') j = none := by
  cases op with
  | createObject | createNamed =>
      refine if_neg fun hc => ?_
      have hret : r.ret = j := hc.1
      omega
  | write | promote | reject => exact if_neg fun hc => hc.2 h
  | read | rename | delete => rfl

/-- An event that leaves no entry and the object as it is. -/
theorem Touched.quiet {t : StoreRecord} {id : Nat} (hquiet : touch t id = none)
    (hstate : t.post.state id = t.pre.state id) (hlive : t.pre.Live id) : Touched t id := by
  refine ⟨?_, Or.inr hlive⟩
  rw [hquiet]
  exact hstate

/-- An entry for an object that was live before. -/
theorem Touched.entry {t : StoreRecord} {id : Nat} {x : Touch} (hentry : touch t id = some x)
    (hstate : t.post.state id = x.apply (t.pre.state id)) (hlive : t.pre.Live id) :
    Touched t id := by
  refine ⟨?_, Or.inr hlive⟩
  rw [hentry]
  exact hstate

/-- **What a call makes of a live object is what its entry says.** -/
theorem StoreEffect.touched {st st' : Store} {op : StoreOp} {r : StoreReply}
    (h : StoreEffect st op st' r) (hok : StoreOk st) (hgood : st.disk.Reliable) {id : Nat}
    (hlive : st'.Live id) : Touched (callRecord st op r st') id := by
  have hconfined := h.confined hok hgood
  by_cases htarget : (id : Int) = op.target r
  swap
  · -- another object
    obtain ⟨hobject, hstate⟩ := hconfined.object id htarget
    refine Touched.quiet (touch_of_ne_target htarget) hstate ?_
    rw [Store.Live, hobject] at hlive
    exact hlive
  have hsize := (hok.table.object id).size
  cases h with
  | refused hsame =>
      refine Touched.quiet (touch_of_failed rfl id) (hsame.state id) ?_
      rw [Store.Live, hsame.objects] at hlive
      exact hlive
  | found => exact Touched.quiet (if_neg fun hc => hc.2 hlive) rfl hlive
  | @created _ name i _ hop _ hpick hsave =>
      have hid : id = i := by
        rcases hop with rfl | rfl
        · exact Int.ofNat.inj htarget
        · exact Int.ofNat.inj htarget
      subst hid
      have hdead := (pickObject_spec hok.table.toStoreInv hpick).1
      have hentry : touch (callRecord st op ⟨id, []⟩ st') id = some .created := by
        rcases hop with rfl | rfl
        · exact if_pos ⟨rfl, hdead⟩
        · exact if_pos ⟨rfl, hdead⟩
      refine ⟨?_, Or.inl hentry⟩
      rw [hentry]
      exact hsave.state_self (Nat.zero_le _)
  | fetched _ hsame =>
      refine Touched.quiet rfl (hsame.state id) ?_
      rw [Store.Live, hsame.objects] at hlive
      exact hlive
  | torn _ _ hout =>
      rw [hgood] at hout
      cases hout
  | @written i buf len _ hvalid hlen _ hsave =>
      have hi : i = id := htarget.symm
      subst hi
      have hret : (len : Int) ≠ -1 := by omega
      have hstate := hsave.state_self hlen
      dsimp only [Int.toNat_natCast] at hstate
      rw [partly_object st id buf hlen] at hstate
      exact Touched.entry (if_pos ⟨rfl, hret⟩) hstate hvalid.2.2
  | @promoted i _ hvalid _ hsave =>
      have hi : i = id := htarget.symm
      subst hi
      have hret : ((st.objects id).trust : Int) + 1 ≠ -1 := by omega
      exact Touched.entry (if_pos ⟨rfl, hret⟩) (hsave.state_self hsize) hvalid.2.2
  | @rejected i _ hvalid hsave =>
      have hi : i = id := htarget.symm
      subst hi
      have hret : (0 : Int) ≠ -1 := by decide
      exact Touched.entry (if_pos ⟨rfl, hret⟩) (hsave.state_self hsize) hvalid.2.2
  | @renamed i newName _ hnamed _ hsave =>
      have hi : i = id := htarget.symm
      subst hi
      exact Touched.quiet rfl (hsave.state_self hsize) hnamed.2.2
  | @deleted i _ _ hsave =>
      have hi : i = id := htarget.symm
      subst hi
      rw [Store.Live, hsave.objects, Int.toNat_natCast, Function.update_self] at hlive
      exact absurd rfl hlive

/-- No event changes the way the disk answers. -/
theorem StoreEffect.outcome {st st' : Store} {op : StoreOp} {r : StoreReply}
    (h : StoreEffect st op st' r) : st'.disk.outcome = st.disk.outcome := by
  cases h with
  | refused hsame | fetched _ hsame => exact hsame.outcome
  | found | torn => rfl
  | written _ _ _ hsave => exact hsave.outcome
  | created _ _ _ hsave | promoted _ _ hsave | rejected _ hsave | renamed _ _ hsave
  | deleted _ hsave => exact hsave.outcome

section Histories

variable {d : Disk} {scratch : Nat → UInt8} {tr : List StoreRecord} {st : Store}

theorem StoreRun.reliable (hblank : d.Blank) (hgood : d.Reliable)
    (hrun : StoreRun d scratch tr st) : st.disk.Reliable := by
  have hall := hrun.history_invariant (fun _ st => st.disk.Reliable) ?_ ?_
  · exact hall
  · rw [bootStore_disk]
    exact hgood
  · intro tr st e o st' hbefore hold hstep
    cases e with
    | call op =>
        have heffect := storeStep_effect (StoreRun.storeOk hblank hbefore).table hstep
        intro i
        rw [heffect.outcome]
        exact hold i
    | boot scratch =>
        cases hstep
        rw [bootStore_disk]
        exact hold

/-- On a disk that does not fail, table and directory sector always agree. -/
theorem StoreRun.durable_of_reliable (hblank : d.Blank) (hgood : d.Reliable)
    (hrun : StoreRun d scratch tr st) : Durable st := by
  refine StoreRun.durable hblank hrun ?_
  have hall := hrun.history_invariant (fun tr _ => ∀ t ∈ tr, Persisted t) ?_ ?_
  · exact hall
  · intro t ht
    cases ht
  · intro tr st e o st' hbefore hold hstep t ht
    have hreliable := StoreRun.reliable hblank hgood hbefore
    rcases List.mem_cons.mp ht with rfl | ht
    · cases e with
      | call op =>
          refine Or.inr (Or.inl ?_)
          rw [SaveLands, hreliable]
          exact DiskOutcome.noConfusion
      | boot scratch => exact hreliable _
    · exact hold t ht

/-- A reboot changes no object. -/
theorem boot_state (hdurable : Durable st) (hgood : st.disk.Reliable) (scratch : Nat → UInt8)
    {id : Nat} (hlive : (bootStore st.disk scratch).Live id) :
    st.Live id ∧ (bootStore st.disk scratch).state id = st.state id := by
  have hdir : (bootStore st.disk scratch).directory id = st.directory id := by
    rw [bootStore_directory, if_pos (hgood _), (durable_iff st).mp hdurable]
  rw [directory_of_live hlive] at hdir
  obtain ⟨hlive', hentry⟩ := directory_eq_some hdir.symm
  obtain ⟨-, htrust, hsize⟩ := Entry.mk.inj hentry
  refine ⟨hlive', ?_⟩
  rw [Store.state, Store.state, Store.contents, Store.contents, htrust, hsize, bootStore_disk]
  rfl

/-- **The store refines its logs**: a live object is what its log makes of it. -/
theorem StoreRun.replayed (hblank : d.Blank) (hgood : d.Reliable)
    (hrun : StoreRun d scratch tr st) {id : Nat} (hlive : st.Live id) :
    st.state id = replay (objectLog tr id) := by
  have hall := hrun.history_invariant
    (fun tr st => ∀ id, st.Live id → st.state id = replay (objectLog tr id)) ?_ ?_
  · exact hall id hlive
  · -- the table is empty at first
    intro id hlive
    have hdir : (bootStore d scratch).directory id = none := by
      rw [bootStore_directory, if_pos (hgood _), hblank.directory]
    rw [directory_of_live hlive] at hdir
    cases hdir
  · intro tr st e o st' hbefore hold hstep id hlive
    have hok := StoreRun.storeOk hblank hbefore
    have hreliable := StoreRun.reliable hblank hgood hbefore
    cases e with
    | call op =>
        obtain ⟨hstate, hbeforeLive⟩ :=
          (storeStep_effect hok.table hstep).touched hok hreliable hlive
        rw [objectLog, List.filterMap_cons]
        cases hentry : touch (callRecord st op o st') id with
        | none =>
            rw [hentry] at hstate hbeforeLive
            have hsame : st'.state id = st.state id := hstate
            rw [hsame]
            exact hold id (hbeforeLive.resolve_left (Option.some_ne_none _).symm)
        | some x =>
            rw [hentry] at hstate hbeforeLive
            have happly : st'.state id = x.apply (st.state id) := hstate
            rw [happly]
            rcases hbeforeLive with hcreated | hbeforeLive
            · cases hcreated
              rfl
            · rw [hold id hbeforeLive]
              rfl
    | boot scratch =>
        cases hstep
        have hdurable := StoreRun.durable_of_reliable hblank hgood hbefore
        obtain ⟨hbeforeLive, hstate⟩ := boot_state hdurable hreliable scratch hlive
        rw [hstate]
        exact hold id hbeforeLive

/-- A call that returns -1 leaves the table and the sectors as they are. -/
theorem StoreEffect.unwritten_of_failed {st st' : Store} {op : StoreOp} {r : StoreReply}
    (h : StoreEffect st op st' r) (hgood : st.disk.Reliable) (hfailed : r.ret = -1) :
    Unwritten st st' := by
  cases h with
  | refused hsame | fetched _ hsame => exact hsame
  | found => exact Unwritten.refl st
  | torn _ _ hout =>
      rw [hgood] at hout
      cases hout
  | created | written | promoted =>
      dsimp only at hfailed
      omega
  | rejected | renamed | deleted => cases hfailed

/-- **Read your writes.**  In every history of a disk that does not fail, from a blank
directory on: `storage_read` returns of a live object that is not rejected what the last
successful `storage_write` since its creation put there, as far as the buffer reaches; a
call leaves every other live object, and every sector but the four of its own object and
the directory, as they are; and a call that returns -1 changes neither table nor disk. -/
theorem read_your_writes (hblank : d.Blank) (hgood : d.Reliable)
    (hrun : StoreRun d scratch tr st) :
    (∀ (id bufLen : Nat), st.Live id → (st.objects id).trust ≠ objRejected →
      (storeCall st (.read id bufLen)).2 =
        readReply (some (((lastWrite (objectLog tr id)).getD []).take bufLen))) ∧
    ∀ op,
      (∀ j : Nat, st.Live j → (j : Int) ≠ op.target (storeCall st op).2 →
        (storeCall st op).1.Live j ∧ (storeCall st op).1.contents j = st.contents j ∧
          ((storeCall st op).1.objects j).sizeBytes = (st.objects j).sizeBytes ∧
          ((storeCall st op).1.objects j).trust = (st.objects j).trust) ∧
      (∀ s, (storeCall st op).1.disk.sector s ≠ st.disk.sector s →
        s = directoryLba ∨
          ∃ j : Nat, (j : Int) = op.target (storeCall st op).2 ∧ DataSector j s) ∧
      ((storeCall st op).2.ret = -1 →
        (storeCall st op).1.objects = st.objects ∧
          (storeCall st op).1.objectCount = st.objectCount ∧
          (storeCall st op).1.disk.sector = st.disk.sector) := by
  have hok := StoreRun.storeOk hblank hrun
  have hreliable := StoreRun.reliable hblank hgood hrun
  constructor
  · intro id bufLen hlive htrust
    have hcount := hok.table.lt_count hlive
    have hmax := hok.table.count
    have hread : st.Readable id := ⟨⟨by omega, by omega, hlive⟩, htrust⟩
    have hstate := StoreRun.replayed hblank hgood hrun hlive
    have hbytes : st.contents id = (lastWrite (objectLog tr id)).getD [] := by
      rw [← replay_bytes, ← hstate]
      rfl
    simp only [storeCall]
    rw [storageRead_readable hread, if_pos (hreliable _), staged_eq_contents hok.table hread,
      Int.toNat_natCast, hbytes]
  · intro op
    have heffect := storeCall_effect hok.table op
    have hconfined := heffect.confined hok hreliable
    refine ⟨fun j hlive hj => ?_, hconfined.sector, fun hfailed => ?_⟩
    · obtain ⟨hobject, hstate⟩ := hconfined.object j hj
      refine ⟨?_, congrArg ObjectState.bytes hstate, congrArg Object.sizeBytes hobject,
        congrArg Object.trust hobject⟩
      rw [Store.Live, hobject]
      exact hlive
    · have hsame := heffect.unwritten_of_failed hreliable hfailed
      exact ⟨hsame.objects, hsame.count, hsame.sector⟩

end Histories

/-- The data of a write of the given bytes. -/
def dataOf (bytes : List UInt8) : Nat → UInt8 := fun i => bytes.getD i 0

set_option maxRecDepth 100000 in
/-- An object that took over the id and the sectors of a deleted one, read after a reboot. -/
theorem read_your_writes_reused_id :
    ∃ tr st, zeroDisk.Blank ∧ zeroDisk.Reliable ∧ StoreRun zeroDisk (fun _ => 0) tr st ∧
      st.Live 0 ∧ (st.objects 0).trust ≠ objRejected ∧
      (storeCall st (.read 0 4)).2 = ⟨1, [7]⟩ := by
  have hblank : zeroDisk.Blank := by decide
  have hgood : zeroDisk.Reliable := fun _ => rfl
  have hrun : (storeHistory zeroDisk
      [.call (.createNamed (cstring [0x61])), .call (.write 0 (dataOf [1, 2, 3]) 3),
        .call (.delete 0), .call (.createNamed (cstring [0x62])),
        .call (.write 0 (dataOf [7]) 1), .boot fun _ => 0]).map
      (fun r => (decide (r.2.Live 0), (r.2.objects 0).trust, lastWrite (objectLog r.1 0))) =
        some (true, objUntrusted, some [7]) := by
    decide +kernel
  obtain ⟨tr, st, htrace, hview⟩ := exists_trace_of_runTrace hrun
  simp only [Prod.mk.injEq, decide_eq_true_eq] at hview
  obtain ⟨hlive, htrust, hlast⟩ := hview
  have htrust' : (st.objects 0).trust ≠ objRejected := by
    rw [htrust]
    decide
  refine ⟨tr, st, hblank, hgood, htrace, hlive, htrust', ?_⟩
  have hread := (read_your_writes hblank hgood htrace).1 0 4 hlive htrust'
  rw [hlast] at hread
  exact hread

end Vajra
