import Vajra.ReadYourWrites

/-!
# Trust levels

The level of an object is decided by what its log says since it was created or last written:
`OBJ_REJECTED` after a rejection, else one step for each promotion.  A promotion is recorded
only below `OBJ_TRUSTED` (`Legal`), so `OBJ_REJECTED`, which the enumeration has above
`OBJ_TRUSTED`, is never reached by promotions and never left by one.
-/

namespace Vajra

open TransitionTrace

/-- The entries since the object got its present bytes. -/
def sinceContent (log : List Touch) : List Touch :=
  log.takeWhile fun
    | .created | .wrote _ => false
    | .promoted | .rejected => true

/-- Every promotion of a log found the object below `OBJ_TRUSTED`. -/
def Legal : List Touch → Prop
  | [] => True
  | t :: log => (t = .promoted → (replay log).trust < objTrusted) ∧ Legal log

/-- The number of promotions of the present bytes. -/
def promotions (log : List Touch) : Nat := (sinceContent log).count .promoted

/-- The present bytes have been rejected. -/
def WasRejected (log : List Touch) : Prop := .rejected ∈ sinceContent log

instance (log : List Touch) : Decidable (WasRejected log) :=
  inferInstanceAs (Decidable (_ ∈ _))

/-- **The level a legal log leads to.** -/
theorem Legal.trust {log : List Touch} (h : Legal log) :
    (replay log).trust = (if WasRejected log then objRejected else promotions log) ∧
      promotions log ≤ objTrusted := by
  induction log with
  | nil => exact ⟨rfl, Nat.zero_le _⟩
  | cons t log ih =>
      obtain ⟨htrust, hle⟩ := ih h.2
      cases t with
      | created | wrote => exact ⟨rfl, Nat.zero_le _⟩
      | promoted =>
          have hlevel := h.1 rfl
          have hnot : ¬ WasRejected log := by
            intro hrejected
            rw [htrust, if_pos hrejected] at hlevel
            exact absurd hlevel (by decide)
          rw [if_neg hnot] at htrust
          have hcount : promotions (.promoted :: log) = promotions log + 1 := List.count_cons_self
          have hnot' : ¬ WasRejected (.promoted :: log) := by
            intro hmem
            rcases List.mem_cons.mp hmem with hhead | htail
            · cases hhead
            · exact hnot htail
          rw [if_neg hnot', hcount]
          refine ⟨congrArg (· + 1) htrust, ?_⟩
          omega
      | rejected =>
          have hcount : promotions (.rejected :: log) = promotions log :=
            List.count_cons_of_ne (by decide)
          rw [if_pos (show WasRejected (.rejected :: log) from List.mem_cons_self), hcount]
          exact ⟨rfl, hle⟩

/-- A promotion is recorded of a live object below `OBJ_TRUSTED`. -/
theorem StoreEffect.promotable {st st' : Store} {op : StoreOp} {r : StoreReply}
    (h : StoreEffect st op st' r) (hok : TableOk st) {id : Nat}
    (hentry : touch (callRecord st op r st') id = some .promoted) :
    st.Live id ∧ (st.objects id).trust < objTrusted := by
  have hop : op = .promote id ∧ r.ret ≠ -1 := by
    unfold touch at hentry
    split at hentry
    all_goals try split at hentry
    all_goals try cases hentry
    rename_i i hevent hsuccess
    cases hevent
    exact ⟨congrArg StoreOp.promote hsuccess.1, hsuccess.2⟩
  obtain ⟨rfl, hsuccess⟩ := hop
  cases h with
  | refused => exact absurd rfl hsuccess
  | created hop => rcases hop with hop | hop <;> cases hop
  | promoted hvalid hlevel =>
      refine ⟨hvalid.2.2, ?_⟩
      have hmax := (hok.object id).trust
      simp only [Int.toNat_natCast, objTrusted, objRejected] at *
      omega

section Histories

variable {d : Disk} {scratch : Nat → UInt8} {tr : List StoreRecord} {st : Store}

/-- Logs are legal, also those of ids that are free at present. -/
theorem StoreRun.legal (hblank : d.Blank) (hgood : d.Reliable) (hrun : StoreRun d scratch tr st)
    (id : Nat) : Legal (objectLog tr id) := by
  have hall := hrun.history_invariant (fun tr _ => Legal (objectLog tr id)) trivial ?_
  · exact hall
  · intro tr st e o st' hbefore hold hstep
    rw [objectLog, List.filterMap_cons]
    cases hentry : touch ⟨st, e, o, st'⟩ id with
    | none => exact hold
    | some x =>
        refine ⟨?_, hold⟩
        rintro rfl
        cases e with
        | call op =>
            have hok := StoreRun.storeOk hblank hbefore
            obtain ⟨hlive, hlevel⟩ := (storeStep_effect hok.table hstep).promotable hok.table hentry
            have hstate := StoreRun.replayed hblank hgood hbefore hlive
            exact (congrArg ObjectState.trust hstate).symm.trans_lt hlevel
        | boot => cases hentry

end Histories

theorem storagePromote_ret {st : Store} {id : Int} (h : st.Valid id) :
    (storagePromote st id).2 =
      if (st.objects id.toNat).trust = objTrusted ∨ (st.objects id.toNat).trust = objRejected then
        -1
      else ((st.objects id.toNat).trust : Int) + 1 := by
  unfold storagePromote
  rw [if_neg (not_not.mpr h)]
  split
  · rfl
  · rfl

section Consumers

variable {D : Type} (L : Layout) (hal : Hal D) {k : Kernel D} {id : Int}

/-- `SYS_OBJECT_READ` of an object that cannot be read fails, whatever its caller holds. -/
theorem objectRead_refused (h : ¬ k.store.Readable id) (c : Slot) {call : Call}
    (hid : cInt call.a1 = id) :
    (syscallDispatch L hal k c call .objectRead).ret = some (cRet (-1)) := by
  simp only [syscallDispatch, guarded, sysObjectRead, hid]
  rw [storageRead_refused h]
  split
  · rfl
  · rfl

theorem loaderSpawnProgram_refused (h : ¬ k.store.Readable id) (c : Slot) :
    (loaderSpawnProgram L k c id).2 = none := by
  have hstage : (loaderStage k id).2 = none := by
    unfold loaderStage
    rw [storageRead_refused h]
  unfold loaderSpawnProgram
  split
  · rfl
  · rename_i hsome
    rw [hsome] at hstage
    cases hstage

end Consumers

/-- **The trust state machine.**  In every history of a disk that does not fail, from a blank
directory on, the level of a live object is `OBJ_REJECTED` if it has been rejected since its
creation or last successful write, and else the number of its promotions since then, which
is at most three.  A promotion succeeds exactly when there have been fewer than three and no
rejection.  Of a rejected object nothing is read and no program started; and a call of the
loader is, for the store, the call of `storage_read` it makes. -/
theorem trust_state_machine {d : Disk} {scratch : Nat → UInt8} {tr : List StoreRecord}
    {st : Store} (hblank : d.Blank) (hgood : d.Reliable) (hrun : StoreRun d scratch tr st)
    {id : Nat} (hlive : st.Live id) :
    ((st.objects id).trust =
        if WasRejected (objectLog tr id) then objRejected else promotions (objectLog tr id)) ∧
    promotions (objectLog tr id) ≤ 3 ∧
    ((storeCall st (.promote id)).2.ret =
        if promotions (objectLog tr id) < 3 ∧ ¬ WasRejected (objectLog tr id) then
          (promotions (objectLog tr id) : Int) + 1
        else -1) ∧
    (WasRejected (objectLog tr id) →
      (∀ bufLen, (storeCall st (.read id bufLen)).2 = ⟨-1, []⟩) ∧
      ∀ {D : Type} (L : Layout) (hal : Hal D) (k : Kernel D) (c : Slot), k.store = st →
        (∀ call : Call, cInt call.a1 = id →
          (syscallDispatch L hal k c call .objectRead).ret = some (cRet (-1))) ∧
        (loaderSpawnProgram L k c id).2 = none) ∧
    ∀ {D : Type} (L : Layout) (k : Kernel D) (c : Slot) (i : Int), k.store = st → k.Live c →
      (loaderSpawnProgram L k c i).1.store = (storeCall st (.read i objectMaxBytes)).1 := by
  have hok := StoreRun.storeOk hblank hrun
  have hstate := StoreRun.replayed hblank hgood hrun hlive
  obtain ⟨htrust, hle⟩ := (StoreRun.legal hblank hgood hrun id).trust
  have hlevel : (st.objects id).trust =
      if WasRejected (objectLog tr id) then objRejected else promotions (objectLog tr id) := by
    rw [← htrust, ← hstate]
    rfl
  have hcount := hok.table.lt_count hlive
  have hmax := hok.table.count
  have hvalid : st.Valid id := ⟨by omega, by omega, hlive⟩
  refine ⟨hlevel, hle, ?_, fun hrejected => ?_, ?_⟩
  · simp only [storeCall]
    rw [storagePromote_ret hvalid, Int.toNat_natCast, hlevel]
    by_cases hrejected : WasRejected (objectLog tr id)
    · simp [hrejected]
    · simp only [hrejected, if_false, not_false_eq_true, and_true, objTrusted, objRejected] at hle ⊢
      split
      · rw [if_neg (by omega)]
      · rw [if_pos (by omega)]
  · have hnot : ¬ st.Readable id := by
      intro hread
      apply hread.2
      rw [Int.toNat_natCast, hlevel, if_pos hrejected]
    refine ⟨fun bufLen => ?_, ?_⟩
    · simp only [storeCall]
      rw [storageRead_refused hnot]
      rfl
    · rintro D L hal k c rfl
      exact ⟨fun call hid => objectRead_refused L hal hnot c hid,
        loaderSpawnProgram_refused L hnot c⟩
  · rintro D L k c i rfl hc
    exact loaderSpawnProgram_store L k hc i

set_option maxRecDepth 100000 in
/-- Promoted twice and rejected, an object stays so through a reboot. -/
theorem trust_state_machine_rejected :
    ∃ tr st, zeroDisk.Blank ∧ zeroDisk.Reliable ∧ StoreRun zeroDisk (fun _ => 0) tr st ∧
      st.Live 0 ∧ promotions (objectLog tr 0) = 2 ∧ (st.objects 0).trust = objRejected ∧
      (storeCall st (.promote 0)).2.ret = -1 ∧ (storeCall st (.read 0 8)).2 = ⟨-1, []⟩ := by
  have hblank : zeroDisk.Blank := by decide
  have hgood : zeroDisk.Reliable := fun _ => rfl
  have hrun : (storeHistory zeroDisk
      [.call (.createNamed (cstring [0x61])), .call (.promote 0), .call (.promote 0),
        .call (.reject 0), .boot fun _ => 0]).map
      (fun r => (decide (r.2.Live 0), promotions (objectLog r.1 0),
        decide (WasRejected (objectLog r.1 0)))) = some (true, 2, true) := by
    decide +kernel
  obtain ⟨tr, st, htrace, hview⟩ := exists_trace_of_runTrace hrun
  simp only [Prod.mk.injEq, decide_eq_true_eq] at hview
  obtain ⟨hlive, hcount, hrejected⟩ := hview
  obtain ⟨hlevel, -, hpromote, hread, -⟩ := trust_state_machine hblank hgood htrace hlive
  rw [if_pos hrejected] at hlevel
  rw [if_neg fun h => h.2 hrejected] at hpromote
  exact ⟨tr, st, hblank, hgood, htrace, hlive, hcount, hlevel, hpromote, (hread hrejected).1 8⟩

end Vajra
