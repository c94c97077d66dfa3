import Vajra.BootObjects

/-!
# What four calls answer

`actor.h` and `hal.h` say when `actor_terminate`, `actor_delegate` and `SYS_CREATE_NAME` succeed
and what they have done then, and `SYS_LIST_OBJECTS` is meant to show the object table and
nothing else.  For each of the four the contract is a definition, and a theorem says exactly
when the call keeps it:

* a terminate of a slot that is dead already is reported as done (`terminate_contract_iff`);
* an empty table entry passes for the held capability `{0, 0}` (`delegate_contract_iff`);
* a creator gets as many of its four rights as its table has room for (`create_contract_iff`);
* the bytes behind the NUL of a name are those of the kernel stack (`listing_determined_iff`).
-/

namespace Vajra

open EntryTables TransitionTrace

variable {D : Type} {k : Kernel D} {c : Slot}

/-- The contract of `actor_terminate`. -/
structure TerminateContract (k : Kernel D) (c : Slot) (target : Int) : Prop where
  answer : (actorTerminate k c target).2 = 0 ↔
    ∃ t, slotOf target = some t ∧ t ≠ c ∧ k.Live t ∧ ⟨capTerminate, target⟩ ∈ k.tables c
  done : (actorTerminate k c target).2 = 0 →
    ∃ t, slotOf target = some t ∧ (actorTerminate k c target).1 = k.setState t .dead
  refused : (actorTerminate k c target).2 ≠ 0 → actorTerminate k c target = (k, -1)

/-- The caller may terminate an actor that is dead. -/
def KillsDead (k : Kernel D) (c : Slot) (target : Int) : Prop :=
  ∃ t, slotOf target = some t ∧ t ≠ c ∧ ¬ k.Live t ∧ ⟨capTerminate, target⟩ ∈ k.tables c

instance (k : Kernel D) (s : Slot) : Decidable (k.Live s) := inferInstanceAs (Decidable (_ ≠ _))

instance (k : Kernel D) (c : Slot) (target : Int) : Decidable (KillsDead k c target) :=
  inferInstanceAs (Decidable (∃ _, _))

/-- A dead target is reported as terminated. -/
theorem KillsDead.breaks {target : Int} (h : KillsDead k c target) :
    ¬ TerminateContract k c target := by
  obtain ⟨t, htarget, hself, hdead, hmem⟩ := h
  have hcap : actorHasCap k c capTerminate target = true := hasCap_iff.mpr hmem
  have hzero : (actorTerminate k c target).2 = 0 := by
    simp [actorTerminate, htarget, hself, hcap]
  intro hcontract
  obtain ⟨t', htarget', _, hlive, _⟩ := hcontract.answer.mp hzero
  rw [htarget, Option.some.injEq] at htarget'
  subst htarget'
  exact hdead hlive

/-- **Terminate reports truthfully unless the target is dead already.** -/
theorem terminate_contract_iff (k : Kernel D) (c : Slot) (target : Int) :
    TerminateContract k c target ↔ ¬ KillsDead k c target := by
  refine ⟨fun hcontract hkills => hkills.breaks hcontract, fun hnot => ?_⟩
  rcases actorTerminate_cases k c target with heq | ⟨t, htarget, hself, hcap, heq⟩
  · -- refused: the target is out of range or the caller, or the capability is missing
    have hneg : (actorTerminate k c target).2 ≠ 0 := by
      rw [heq]
      exact fun h => Int.noConfusion h
    refine ⟨iff_of_false hneg ?_, fun h => absurd h hneg, fun _ => heq⟩
    rintro ⟨t, htarget, hself, _, hmem⟩
    have hcap : actorHasCap k c capTerminate target = true := hasCap_iff.mpr hmem
    exact hneg (by simp [actorTerminate, htarget, hself, hcap])
  · have hmem : (⟨capTerminate, target⟩ : Capability) ∈ k.tables c := hasCap_iff.mp hcap
    have hzero : (actorTerminate k c target).2 = 0 := by rw [heq]
    refine ⟨iff_of_true hzero ⟨t, htarget, hself, ?_, hmem⟩, fun _ => ⟨t, htarget, by rw [heq]⟩,
      fun hne => absurd hzero hne⟩
    exact not_not.mp fun hdead => hnot ⟨t, htarget, hself, hdead, hmem⟩

/-- The coordinator spawns a worker and terminates it twice. -/
def doubleKill : List (Event Unit) :=
  List.replicate 6 .tick ++ [sampleCall 7 0x20000 0 0, sampleCall 8 15 0 0]

/-- Terminating a dead actor is reported as done. -/
theorem terminate_contract_dead : ∃ tr k, Run sampleLayout silentHal sampleBoot tr k ∧
    k.current = some 7 ∧ (actorTerminate k 7 15).2 = 0 ∧ ¬ TerminateContract k 7 15 := by
  have hview : (sampleRun doubleKill).map (fun p =>
      (p.2.current, (actorTerminate p.2 7 15).2, decide (KillsDead p.2 7 15))) =
        some (some 7, 0, true) := by
    decide +kernel
  obtain ⟨tr, k, hrun, hview⟩ := exists_trace_of_runTrace hview
  simp only [Prod.mk.injEq, decide_eq_true_eq] at hview
  obtain ⟨hcur, hret, hkills⟩ := hview
  exact ⟨tr, k, hrun, hcur, hret, hkills.breaks⟩

/-- A table has an entry that `actor_add_cap` may overwrite. -/
def HasRoom (caps : List Capability) : Prop := ∃ x ∈ caps, x.vacant = true

instance (caps : List Capability) : Decidable (HasRoom caps) :=
  inferInstanceAs (Decidable (∃ x ∈ caps, _))

/-- `actor_add_cap` on a table with room. -/
theorem actorAddCap_room {d : Slot} (h : HasRoom (k.tables d)) (op target : Int) :
    ∃ i x, (k.tables d)[i]? = some x ∧ x.vacant = true ∧ actorAddCap k d op target =
      (k.setActor d { k.actors d with caps := (k.tables d).set i ⟨op, target⟩ }, 0) := by
  cases hfind : (k.tables d).findIdx? Capability.vacant with
  | none =>
      obtain ⟨x, hx, hvacant⟩ := h
      have hfull := List.findIdx?_eq_none_iff.mp hfind x hx
      rw [hvacant] at hfull
      cases hfull
  | some i =>
      obtain ⟨hi, hvacant, _⟩ := List.findIdx?_eq_some_iff_getElem.mp hfind
      refine ⟨i, (k.tables d)[i], List.getElem?_eq_getElem hi, hvacant, ?_⟩
      have hadd : addCap (k.actors d).caps op target = some ((k.tables d).set i ⟨op, target⟩) := by
        unfold Kernel.tables Capability.vacant at *
        rw [addCap, hfind]
      rw [actorAddCap, hadd]

theorem actorAddCap_no_room {d : Slot} (h : ¬ HasRoom (k.tables d)) (op target : Int) :
    actorAddCap k d op target = (k, -1) := by
  have hfind : (k.tables d).findIdx? Capability.vacant = none := by
    refine List.findIdx?_eq_none_iff.mpr fun x hx => ?_
    exact Bool.eq_false_iff.mpr fun hvacant => h ⟨x, hx, hvacant⟩
  have hadd : addCap (k.actors d).caps op target = none := by
    unfold Kernel.tables Capability.vacant at *
    rw [addCap, hfind]
  rw [actorAddCap, hadd]

/-- The contract of `actor_delegate`.  The table of the destination gets the pair in place of
an empty entry. -/
structure DelegateContract (k : Kernel D) (c : Slot) (dest op target : Int) : Prop where
  answer : (actorDelegate k c dest op target).2 = 0 ↔
    ∃ d, slotOf dest = some d ∧ (op ≠ 0 ∧ ⟨op, target⟩ ∈ k.tables c) ∧ HasRoom (k.tables d)
  done : (actorDelegate k c dest op target).2 = 0 →
    ∃ d i x, slotOf dest = some d ∧ (k.tables d)[i]? = some x ∧ x.vacant = true ∧
      (actorDelegate k c dest op target).1 =
        k.setActor d { k.actors d with caps := (k.tables d).set i ⟨op, target⟩ } ∧
      ((actorDelegate k c dest op target).1.tables d).count ⟨op, target⟩ =
        (k.tables d).count ⟨op, target⟩ + 1
  refused : (actorDelegate k c dest op target).2 ≠ 0 → actorDelegate k c dest op target = (k, -1)

/-- An empty entry of the caller is taken for the capability that is to be delegated. -/
def DelegatesNothing (k : Kernel D) (c : Slot) (dest op target : Int) : Prop :=
  op = 0 ∧ ⟨op, target⟩ ∈ k.tables c ∧ ∃ d, slotOf dest = some d ∧ HasRoom (k.tables d)

instance (k : Kernel D) (c : Slot) (dest op target : Int) :
    Decidable (DelegatesNothing k c dest op target) :=
  inferInstanceAs (Decidable (_ ∧ _ ∧ ∃ _, _))

/-- When `actor_delegate` answers 0. -/
theorem actorDelegate_zero_iff (k : Kernel D) (c : Slot) (dest op target : Int) :
    (actorDelegate k c dest op target).2 = 0 ↔
      ∃ d, slotOf dest = some d ∧ ⟨op, target⟩ ∈ k.tables c ∧ HasRoom (k.tables d) := by
  rcases actorDelegate_cases k c dest op target with heq | ⟨d, hdest, hcap, heq⟩
  · rw [heq]
    refine iff_of_false (fun h => Int.noConfusion h) ?_
    rintro ⟨d, hdest, hmem, hroom⟩
    have hcap : actorHasCap k c op target = true := hasCap_iff.mpr hmem
    obtain ⟨i, x, _, _, hadd⟩ := actorAddCap_room hroom op target
    rw [actorDelegate, hdest] at heq
    simp only [hcap, if_true] at heq
    rw [hadd] at heq
    exact absurd (congrArg Prod.snd heq) fun h => Int.noConfusion h
  · rw [heq]
    by_cases hroom : HasRoom (k.tables d)
    · obtain ⟨i, x, _, _, hadd⟩ := actorAddCap_room hroom op target
      rw [hadd]
      exact iff_of_true rfl ⟨d, hdest, hasCap_iff.mp hcap, hroom⟩
    · rw [actorAddCap_no_room hroom op target]
      refine iff_of_false (fun h => Int.noConfusion h) ?_
      rintro ⟨d', hdest', _, hroom'⟩
      rw [hdest, Option.some.injEq] at hdest'
      exact hroom (hdest' ▸ hroom')

/-- A delegation of nothing is reported as done. -/
theorem DelegatesNothing.breaks {dest op target : Int} (h : DelegatesNothing k c dest op target) :
    ¬ DelegateContract k c dest op target := by
  obtain ⟨hop, hmem, d, hdest, hroom⟩ := h
  intro hcontract
  have hzero := (actorDelegate_zero_iff k c dest op target).mpr ⟨d, hdest, hmem, hroom⟩
  obtain ⟨_, _, ⟨hne, _⟩, _⟩ := hcontract.answer.mp hzero
  exact hne hop

/-- Taking an empty entry adds one copy. -/
theorem count_set_vacant {caps : List Capability} {i : Nat} {x : Capability} {op target : Int}
    (hx : caps[i]? = some x) (hvacant : x.vacant = true) (hop : op ≠ 0) :
    (caps.set i ⟨op, target⟩).count ⟨op, target⟩ = caps.count ⟨op, target⟩ + 1 := by
  obtain ⟨hi, hget⟩ := List.getElem?_eq_some_iff.mp hx
  have hne : caps[i] ≠ ⟨op, target⟩ := by
    rw [hget]
    rintro rfl
    exact hop (of_decide_eq_true hvacant)
  rw [List.count_set hi]
  simp [hne]

/-- **Delegation reports truthfully unless it is asked to delegate an empty entry.** -/
theorem delegate_contract_iff (k : Kernel D) (c : Slot) (dest op target : Int) :
    DelegateContract k c dest op target ↔ ¬ DelegatesNothing k c dest op target := by
  refine ⟨fun hcontract hnothing => hnothing.breaks hcontract, fun hnot => ?_⟩
  have hzero := actorDelegate_zero_iff k c dest op target
  have hgenuine : ∀ d, slotOf dest = some d → ⟨op, target⟩ ∈ k.tables c → HasRoom (k.tables d) →
      op ≠ 0 := fun d hdest hmem hroom hop => hnot ⟨hop, hmem, d, hdest, hroom⟩
  refine ⟨?_, fun h => ?_, fun h => ?_⟩
  · rw [hzero]
    constructor
    · rintro ⟨d, hdest, hmem, hroom⟩
      exact ⟨d, hdest, ⟨hgenuine d hdest hmem hroom, hmem⟩, hroom⟩
    · rintro ⟨d, hdest, ⟨_, hmem⟩, hroom⟩
      exact ⟨d, hdest, hmem, hroom⟩
  · obtain ⟨d, hdest, hmem, hroom⟩ := hzero.mp h
    have hcap : actorHasCap k c op target = true := hasCap_iff.mpr hmem
    obtain ⟨i, x, hx, hvacant, hadd⟩ := actorAddCap_room hroom op target
    have heq : actorDelegate k c dest op target =
        (k.setActor d { k.actors d with caps := (k.tables d).set i ⟨op, target⟩ }, 0) := by
      rw [actorDelegate, hdest]
      simp only [hcap, if_true]
      exact hadd
    refine ⟨d, i, x, hdest, hx, hvacant, by rw [heq], ?_⟩
    rw [heq, setActor_tables, Function.update_self]
    exact count_set_vacant hx hvacant (hgenuine d hdest hmem hroom)
  · rcases actorDelegate_cases k c dest op target with heq | ⟨d, hdest, hcap, heq⟩
    · exact heq
    · rw [heq] at h ⊢
      by_cases hroom : HasRoom (k.tables d)
      · obtain ⟨i, x, _, _, hadd⟩ := actorAddCap_room hroom op target
        rw [hadd] at h
        exact absurd rfl h
      · exact actorAddCap_no_room hroom op target

/-- The intruder holds nothing and delegates it, successfully, to its neighbour. -/
theorem delegate_contract_empty : ∃ tr k, Run sampleLayout silentHal sampleBoot tr k ∧
    k.current = some 6 ∧ (actorDelegate k 6 7 0 0).2 = 0 ∧ ¬ DelegateContract k 6 7 0 0 := by
  have hview : (sampleRun (List.replicate 5 .tick)).map (fun p =>
      (p.2.current, (actorDelegate p.2 6 7 0 0).2, decide (DelegatesNothing p.2 6 7 0 0))) =
        some (some 6, 0, true) := by
    decide +kernel
  obtain ⟨tr, k, hrun, hview⟩ := exists_trace_of_runTrace hview
  simp only [Prod.mk.injEq, decide_eq_true_eq] at hview
  obtain ⟨hcur, hret, hnothing⟩ := hview
  exact ⟨tr, k, hrun, hcur, hret, hnothing.breaks⟩

variable {L : Layout} {hal : Hal D} {b : Boot D} {tr : List (Record D)} {call : Call}

/-- How a creation can end. -/
theorem storageCreateNamed_ends (st : Store) (name : Nat → UInt8) :
    storageCreateNamed st name = (st, -1) ∨
    ∃ id : Nat, findByName st name = none ∧ pickObject st = some id ∧
      (storageCreateNamed st name).2 = id := by
  unfold storageCreateNamed
  cases hfind : findByName st name with
  | some existing => exact Or.inl rfl
  | none =>
      cases hpick : pickObject st with
      | none =>
          left
          dsimp only
          rw [allocObject, hpick]
      | some id =>
          refine Or.inr ⟨id, rfl, rfl, ?_⟩
          dsimp only
          rw [allocObject, hpick]

/-- The contract of `SYS_CREATE_NAME`. -/
structure CreateContract (L : Layout) (hal : Hal D) (k : Kernel D) (c : Slot) (call : Call) :
    Prop where
  owns : ∀ ret, (syscallDispatch L hal k c call .createName).ret = some ret → 0 ≤ cInt ret →
    ∀ op ∈ creatorOps,
      ⟨op, cInt ret⟩ ∈ (syscallDispatch L hal k c call .createName).kernel.tables c
  refused : (syscallDispatch L hal k c call .createName).ret = some (cRet (-1)) →
    (syscallDispatch L hal k c call .createName).kernel.store = k.store ∧
      (syscallDispatch L hal k c call .createName).kernel.tables c = k.tables c

/-- The creation goes through, and one of the four rights to the first free record neither
finds room in the caller's table nor is there already. -/
def CreatorCrowded (k : Kernel D) (c : Slot) (call : Call) : Prop :=
  actorHasCap k c capCreateObject 0 = true ∧
    findByName k.store (userBytes k c call.a1) = none ∧
    ∃ id ∈ pickObject k.store, ∃ right ∈ creatorOps.zipIdx,
      (k.tables c).countP Capability.vacant ≤ right.2 ∧ ⟨right.1, (id : Nat)⟩ ∉ k.tables c

instance (k : Kernel D) (c : Slot) (call : Call) : Decidable (CreatorCrowded k c call) :=
  inferInstanceAs (Decidable (_ ∧ _ ∧ ∃ id ∈ pickObject k.store, _))

/-- What a creator holds afterwards. -/
theorem mem_creatorCaps {caps : List Capability} {op id : Int} (hop : op ≠ 0) :
    ⟨op, id⟩ ∈ creatorCaps caps id ↔ ⟨op, id⟩ ∈ caps ∨
      ∃ j < caps.countP Capability.vacant, creatorOps[j]? = some op := by
  have hfold : creatorCaps caps id =
      (creatorOps.map fun op => (⟨op, id⟩ : Capability)).foldl (fill Capability.vacant) caps := by
    rw [List.foldl_map]
    rfl
  have hes : ∀ e ∈ creatorOps.map fun op => (⟨op, id⟩ : Capability), e.vacant = false := by
    intro e he
    obtain ⟨o, ho, rfl⟩ := List.mem_map.mp he
    have hne : ∀ o ∈ creatorOps, o ≠ 0 := by decide
    exact decide_eq_false (hne o ho)
  rw [hfold, mem_foldl_fill hes (decide_eq_false hop)]
  have hget : ∀ j : Nat,
      (creatorOps.map fun op => (⟨op, id⟩ : Capability))[j]? = some (⟨op, id⟩ : Capability) ↔
        creatorOps[j]? = some op := by
    intro j
    rw [List.getElem?_map, Option.map_eq_some_iff]
    constructor
    · rintro ⟨o, ho, heq⟩
      rw [ho, (Capability.mk.inj heq).1]
    · exact fun ho => ⟨op, ho, rfl⟩
  simp only [hget]

/-- What `SYS_CREATE_NAME` does: nothing, or it makes the first free record an object and adds
the four rights to the caller's table as far as they fit. -/
theorem createName_ends (L : Layout) (hal : Hal D) (k : Kernel D) (c : Slot) (call : Call) :
    ((syscallDispatch L hal k c call .createName).ret = some (cRet (-1)) ∧
      (syscallDispatch L hal k c call .createName).kernel.store = k.store ∧
      (syscallDispatch L hal k c call .createName).kernel.tables c = k.tables c ∧
      ¬ CreatorCrowded k c call) ∨
    (actorHasCap k c capCreateObject 0 = true ∧
      findByName k.store (userBytes k c call.a1) = none ∧
      ∃ id : Nat, pickObject k.store = some id ∧
        (syscallDispatch L hal k c call .createName).ret = some (cRet id) ∧
        (syscallDispatch L hal k c call .createName).kernel.tables c =
          creatorCaps (k.tables c) id) := by
  simp only [syscallDispatch, guarded]
  by_cases hcap : actorHasCap k c capCreateObject 0 = true
  swap
  · rw [if_neg hcap]
    exact Or.inl ⟨rfl, rfl, rfl, fun h => hcap h.1⟩
  rw [if_pos hcap]
  have hcases := sysCreateName_cases k c (userBytes k c call.a1)
  rcases storageCreateNamed_ends k.store (userBytes k c call.a1) with hfail | ⟨id, hfind, hpick, hid⟩
  · have hend : sysCreateName k c (userBytes k c call.a1) = .value k (cRet (-1)) := by
      rw [sysCreateName, hfail]
      rfl
    rw [hend]
    refine Or.inl ⟨rfl, rfl, rfl, ?_⟩
    rintro ⟨_, hfind, id, hpick, _⟩
    simp [storageCreateNamed, hfind, allocObject, Option.mem_def.mp hpick] at hfail
  · rw [hid] at hcases
    rcases hcases with ⟨hneg, _⟩ | ⟨_, heq⟩
    · omega
    · refine Or.inr ⟨hcap, hfind, id, hpick, ?_⟩
      rw [heq]
      refine ⟨rfl, ?_⟩
      rw [SysResult.value, setActor_tables, Function.update_self]
      rfl

theorem creatorOps_ne_zero : ∀ op ∈ creatorOps, op ≠ 0 := by decide

/-- The right that does not fit is missing. -/
theorem CreatorCrowded.breaks (hrun : Run L hal b tr k) (h : CreatorCrowded k c call) :
    ¬ CreateContract L hal k c call := by
  intro hcontract
  rcases createName_ends L hal k c call with ⟨_, _, _, hnot⟩ | ⟨_, _, id, hpick, hret, htable⟩
  · exact hnot h
  obtain ⟨_, _, id', hpick', ⟨op, j⟩, hright, hcount, hmissing⟩ := h
  rw [Option.mem_def, hpick, Option.some.injEq] at hpick'
  subst hpick'
  have hlt := (pickObject_spec (run_storeInv hrun) hpick).2
  have hid : cInt (cRet id) = id := cInt_cRet (by omega) (by rw [maxObjects] at hlt; omega)
  have hj : creatorOps[j]? = some op := List.mem_zipIdx_iff_getElem?.mp hright
  have hop : op ∈ creatorOps := List.mem_of_getElem? hj
  have hmem := hcontract.owns _ hret (by omega) op hop
  rw [hid, htable, mem_creatorCaps (creatorOps_ne_zero op hop)] at hmem
  rcases hmem with hold | ⟨i, hi, hget⟩
  · exact hmissing hold
  · -- the four rights are different, so the one in question is the one that did not fit
    have hnodup : creatorOps.Nodup := by decide
    have hi4 : i < creatorOps.length := (List.getElem?_eq_some_iff.mp hget).1
    have hij : i = j := (List.getElem?_inj hi4 hnodup).mp (hget.trans hj.symm)
    dsimp only at hcount
    omega

/-- **A creator owns what it creates exactly as far as its table has room.** -/
theorem create_contract_iff (hrun : Run L hal b tr k) (c : Slot) (call : Call) :
    CreateContract L hal k c call ↔ ¬ CreatorCrowded k c call := by
  refine ⟨fun hcontract hcrowded => hcrowded.breaks hrun hcontract, fun hnot => ?_⟩
  rcases createName_ends L hal k c call with
    ⟨hret, hstore, htable, _⟩ | ⟨hcap, hfind, id, hpick, hret, htable⟩
  · refine ⟨fun ret h hpos => ?_, fun _ => ⟨hstore, htable⟩⟩
    rw [hret, Option.some.injEq] at h
    rw [← h, cInt_cRet (by decide) (by decide)] at hpos
    exact absurd hpos (by decide)
  · have hlt := (pickObject_spec (run_storeInv hrun) hpick).2
    have hid : cInt (cRet id) = id := cInt_cRet (by omega) (by rw [maxObjects] at hlt; omega)
    refine ⟨fun ret h _ op hop => ?_, fun h => ?_⟩
    · rw [hret, Option.some.injEq] at h
      rw [← h, hid, htable, mem_creatorCaps (creatorOps_ne_zero op hop)]
      obtain ⟨j, hj, hget⟩ := List.getElem_of_mem hop
      by_cases hroom : j < (k.tables c).countP Capability.vacant
      · exact Or.inr ⟨j, hroom, by rw [List.getElem?_eq_getElem hj, hget]⟩
      · left
        by_contra hmissing
        refine hnot ⟨hcap, hfind, id, hpick, (op, j), ?_, Nat.le_of_not_lt hroom, hmissing⟩
        exact List.mem_zipIdx_iff_getElem?.mpr (by rw [List.getElem?_eq_getElem hj, hget])
    · rw [hret, Option.some.injEq] at h
      have hneg : (id : Int) = -1 := by rw [← hid, h, cInt_cRet (by decide) (by decide)]
      omega

/-- A call of `SYS_CREATE_NAME` for the name at `p`. -/
def createCall (p : Word) : Call := ⟨20, p, 0, 0, fun _ => 0⟩

/-- The namer's first object is wholly its own. -/
theorem create_contract_first : ∃ tr k, Run sampleLayout silentHal sampleBoot tr k ∧
    k.current = some 13 ∧
    (syscallDispatch sampleLayout silentHal k 13 (createCall 0x20000) .createName).ret =
      some (cRet 3) ∧
    CreateContract sampleLayout silentHal k 13 (createCall 0x20000) := by
  have hview : (sampleRun (List.replicate 12 .tick)).map (fun p => (p.2.current,
      (syscallDispatch sampleLayout silentHal p.2 13 (createCall 0x20000) .createName).ret,
      decide (CreatorCrowded p.2 13 (createCall 0x20000)))) =
        some (some 13, some (cRet 3), false) := by
    decide +kernel
  obtain ⟨tr, k, hrun, hview⟩ := exists_trace_of_runTrace hview
  simp only [Prod.mk.injEq, decide_eq_false_iff_not] at hview
  obtain ⟨hcur, hret, hroom⟩ := hview
  exact ⟨tr, k, hrun, hcur, hret, (create_contract_iff hrun 13 _).mpr hroom⟩

/-- The namer stores one more letter of a name on its stack and creates the object. -/
def createNext (letter : UInt8) : List (Event Unit) :=
  [.store 0x10D000 letter, .syscall (createCall 0x10D000)]

/-- The namer creates `a`, `b`, `c` and `d`, and goes on to `e`. -/
def createFive : List (Event Unit) :=
  List.replicate 12 .tick ++ createNext 0x61 ++ createNext 0x62 ++ createNext 0x63 ++
    createNext 0x64 ++ [.store 0x10D000 0x65]

/-- Of its fifth object the namer may neither change the name nor delete it. -/
theorem create_contract_fifth : ∃ tr k, Run sampleLayout silentHal sampleBoot tr k ∧
    k.current = some 13 ∧
    (syscallDispatch sampleLayout silentHal k 13 (createCall 0x10D000) .createName).ret =
      some (cRet 7) ∧
    ¬ CreateContract sampleLayout silentHal k 13 (createCall 0x10D000) := by
  have hview : (sampleRun createFive).map (fun p => (p.2.current,
      (syscallDispatch sampleLayout silentHal p.2 13 (createCall 0x10D000) .createName).ret,
      decide (CreatorCrowded p.2 13 (createCall 0x10D000)))) =
        some (some 13, some (cRet 7), true) := by
    decide +kernel
  obtain ⟨tr, k, hrun, hview⟩ := exists_trace_of_runTrace hview
  simp only [Prod.mk.injEq, decide_eq_true_eq] at hview
  obtain ⟨hcur, hret, hcrowded⟩ := hview
  exact ⟨tr, k, hrun, hcur, hret, hcrowded.breaks hrun⟩

/-- The bytes `SYS_LIST_OBJECTS` writes are a function of the object table: a call with the same
index and pointer on the same table writes the same bytes, whatever else the machine and the
kernel stack hold. -/
def ListingDetermined (L : Layout) (hal : Hal D) (k : Kernel D) (c : Slot) (call : Call) : Prop :=
  ∀ (k' : Kernel D) (c' : Slot) (residue : Nat → UInt8), k'.store.objects = k.store.objects →
    k'.store.objectCount = k.store.objectCount →
    actorHasCap k' c' capListNames 0 = actorHasCap k c capListNames 0 →
    (syscallDispatch L hal k' c' { call with residue := residue } .listObjects).out =
      (syscallDispatch L hal k c call .listObjects).out

/-- The record `storage_get_by_index` finds. -/
def listedObject (st : Store) (index : Int) : Option Nat :=
  if index < 0 then none
  else ((List.range st.objectCount).filter fun id => st.Live id)[index.toNat]?

/-- The call shows an object whose name does not fill its 15 characters. -/
def ListsShortName (k : Kernel D) (c : Slot) (call : Call) : Prop :=
  actorHasCap k c capListNames 0 = true ∧
    ∃ id ∈ listedObject k.store (cInt call.a1), nameLength (k.store.objects id).name < 15

instance (k : Kernel D) (c : Slot) (call : Call) : Decidable (ListsShortName k c call) :=
  inferInstanceAs (Decidable (_ ∧ ∃ id ∈ listedObject _ _, _))

/-- What `SYS_LIST_OBJECTS` writes. -/
theorem listObjects_out (L : Layout) (hal : Hal D) (k : Kernel D) (c : Slot) (call : Call) :
    (syscallDispatch L hal k c call .listObjects).out =
      if actorHasCap k c capListNames 0 = true then
        (listedObject k.store (cInt call.a1)).elim [] fun id =>
          objectInfoBytes call.a2 ⟨id, (k.store.objects id).trust, (k.store.objects id).sizeBytes,
            copyName (k.store.objects id).name call.residue⟩
      else [] := by
  simp only [syscallDispatch, guarded]
  by_cases hcap : actorHasCap k c capListNames 0 = true
  · rw [if_pos hcap, if_pos hcap, sysListObjects, storageGetByIndex, listedObject]
    dsimp only
    by_cases hneg : cInt call.a1 < 0
    · rw [if_pos hneg, if_pos hneg]
      rfl
    · rw [if_neg hneg, if_neg hneg]
      cases ((List.range k.store.objectCount).filter
          fun id => k.store.Live id)[(cInt call.a1).toNat]? with
      | none => rfl
      | some id => rfl
  · rw [if_neg hcap, if_neg hcap]
    rfl

/-- A name of 15 characters leaves nothing of the buffer. -/
theorem copyName_full {src : Nat → UInt8} (h : nameLength src = 15) (dst dst' : Nat → UInt8) :
    (List.range 16).map (copyName src dst) = (List.range 16).map (copyName src dst') := by
  refine List.map_congr_left fun i hi => ?_
  rw [List.mem_range] at hi
  simp only [copyName, h]
  by_cases hlt : i < 15
  · rw [if_pos hlt, if_pos hlt]
  · rw [if_neg hlt, if_neg hlt, if_pos (by omega), if_pos (by omega)]

/-- The bytes that are stored, without their addresses. -/
theorem outAt_bytes (p : Word) (off : Nat) (bytes : List UInt8) :
    (outAt p off bytes).map Prod.snd = bytes := by
  rw [outAt, List.map_map]
  exact List.zipIdx_map_fst 0 bytes

/-- A byte behind the NUL of a shorter name is that of the kernel stack. -/
theorem ListsShortName.breaks (h : ListsShortName k c call) :
    ¬ ListingDetermined L hal k c call := by
  obtain ⟨hcap, id, hlisted, hshort⟩ := h
  intro hdetermined
  have hout := hdetermined k c (fun _ => call.residue 15 + 1) rfl rfl rfl
  rw [listObjects_out, listObjects_out, if_pos hcap, if_pos hcap, Option.mem_def.mp hlisted] at hout
  have hbytes := congrArg (List.map Prod.snd) hout
  simp only [Option.elim, objectInfoBytes, outAt_bytes] at hbytes
  have hname := List.append_cancel_left hbytes
  have hlast := List.map_inj_left.mp hname 15 (List.mem_range.mpr (by decide))
  simp only [copyName] at hlast
  rw [if_neg (by omega), if_neg (by omega), if_neg (by omega), if_neg (by omega)] at hlast
  exact absurd hlast (by simp)

/-- **A listing shows the object table alone exactly when the listed name is a full one.** -/
theorem listing_determined_iff (L : Layout) (hal : Hal D) (k : Kernel D) (c : Slot) (call : Call) :
    ListingDetermined L hal k c call ↔ ¬ ListsShortName k c call := by
  refine ⟨fun hdetermined hshort => hshort.breaks hdetermined, fun hnot => ?_⟩
  intro k' c' residue hobjects hcount hcap
  have hlisted : listedObject k'.store (cInt call.a1) = listedObject k.store (cInt call.a1) := by
    have hlive : ∀ id, k'.store.Live id ↔ k.store.Live id := by
      intro id
      rw [Store.Live, hobjects]
      exact Iff.rfl
    simp only [listedObject, hcount, hlive]
  rw [listObjects_out, listObjects_out, hcap]
  by_cases hholds : actorHasCap k c capListNames 0 = true
  swap
  · rw [if_neg hholds, if_neg hholds]
  rw [if_pos hholds, if_pos hholds]
  dsimp only
  rw [hlisted, hobjects]
  cases hget : listedObject k.store (cInt call.a1) with
  | none => rfl
  | some id =>
      have hfull : nameLength (k.store.objects id).name = 15 := by
        have hle := nameLength_le (k.store.objects id).name
        by_contra hne
        exact hnot ⟨hholds, id, hget, by omega⟩
      simp only [Option.elim, objectInfoBytes]
      rw [copyName_full hfull residue call.residue]

/-- A call of `SYS_LIST_OBJECTS` for the first object, on a kernel stack full of `0x5A`. -/
def listCall : Call := ⟨19, 0, 0x10D000, 0, fun _ => 0x5A⟩

/-- Behind `payload.bin` the namer sees four bytes of the kernel stack. -/
theorem listing_determined_payload : ∃ tr k, Run sampleLayout silentHal sampleBoot tr k ∧
    k.current = some 13 ∧
    (syscallDispatch sampleLayout silentHal k 13 listCall .listObjects).out.map Prod.snd =
      [0, 0, 0, 0, 0, 0, 0, 0, 0, 0, 0, 0, 0x70, 0x61, 0x79, 0x6C, 0x6F, 0x61, 0x64, 0x2E, 0x62,
        0x69, 0x6E, 0, 0x5A, 0x5A, 0x5A, 0x5A] ∧
    ¬ ListingDetermined sampleLayout silentHal k 13 listCall := by
  have hview : (sampleRun (List.replicate 12 .tick)).map (fun p => (p.2.current,
      (syscallDispatch sampleLayout silentHal p.2 13 listCall .listObjects).out.map Prod.snd,
      decide (ListsShortName p.2 13 listCall))) =
        some (some 13, [0, 0, 0, 0, 0, 0, 0, 0, 0, 0, 0, 0, 0x70, 0x61, 0x79, 0x6C, 0x6F, 0x61,
          0x64, 0x2E, 0x62, 0x69, 0x6E, 0, 0x5A, 0x5A, 0x5A, 0x5A], true) := by
    decide +kernel
  obtain ⟨tr, k, hrun, hview⟩ := exists_trace_of_runTrace hview
  simp only [Prod.mk.injEq, decide_eq_true_eq] at hview
  obtain ⟨hcur, hout, hshort⟩ := hview
  exact ⟨tr, k, hrun, hcur, hout, hshort.breaks⟩

end Vajra
