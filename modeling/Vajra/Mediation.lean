import Vajra.CapabilityTables
import Vajra.MailboxFifo
import Vajra.ObjectSecrecy

/-!
# Complete mediation

Whatever a step of the current actor changes outside that actor, the actor held the
capability for it before the step.  `ObjectMediated` lists the effects on one object,
`SlotMediated` those on another slot; `complete_mediation` puts them together with the
secrecy of object contents, for every event in every state of every run.

One effect needs no capability: a spawn puts `CAP_SEND` on the spawner in the table of the
child it has just made, and the spawner need not hold that pair itself.
-/

namespace Vajra

open ByteMemory EntryTables TransitionTrace

variable {D : Type}

/-- Object `id` is created or deleted. -/
def LifeChanged (st st' : Store) (id : Nat) : Prop := ¬ (st'.Live id ↔ st.Live id)

/-- The authority behind every change of object `id`, when `c` turns the object store of
`k` into `st'`. -/
structure ObjectMediated (k : Kernel D) (c : Slot) (st' : Store) (id : Nat) : Prop where
  contents : (∃ s, DataSector id s ∧ st'.disk.sector s ≠ k.store.disk.sector s) ∨
      (st'.objects id).sizeBytes ≠ (k.store.objects id).sizeBytes →
    actorHasCap k c capWriteObject id = true ∨ LifeChanged k.store st' id
  trust : (st'.objects id).trust ≠ (k.store.objects id).trust →
    actorHasCap k c capPromoteObject 0 = true ∨ actorHasCap k c capWriteObject id = true ∨
      LifeChanged k.store st' id
  name : (st'.objects id).name ≠ (k.store.objects id).name ∨ LifeChanged k.store st' id →
    actorHasCap k c capRenameObject id = true ∨ actorHasCap k c capDeleteObject id = true ∨
      (actorHasCap k c capCreateObject 0 = true ∧ ¬ k.store.Live id)

variable {k k' : Kernel D} {c : Slot} {st' : Store} {id : Nat}

/-- Nothing happens to the object. -/
theorem ObjectMediated.untouched (hobject : st'.objects id = k.store.objects id)
    (hdata : ∀ s, DataSector id s → st'.disk.sector s = k.store.disk.sector s) :
    ObjectMediated k c st' id := by
  have hlife : ¬ LifeChanged k.store st' id := by
    rw [LifeChanged, not_not, Store.Live, Store.Live, hobject]
  refine ⟨?_, ?_, ?_⟩
  · rintro (⟨s, hs, hne⟩ | hne)
    · exact absurd (hdata s hs) hne
    · exact absurd (by rw [hobject]) hne
  · intro hne
    exact absurd (by rw [hobject]) hne
  · rintro (hne | hchanged)
    · exact absurd (by rw [hobject]) hne
    · exact absurd hchanged hlife

/-- One record is replaced: nothing happens to the other objects. -/
theorem Recorded.mediated {j : Nat} {obj : Object} (h : Recorded k.store st' j obj)
    (hself : st'.objects j = obj → ObjectMediated k c st' j) : ObjectMediated k c st' id := by
  by_cases hid : id = j
  · subst hid
    exact hself (by rw [h.objects, Function.update_self])
  · refine .untouched ?_ (fun s hs => h.data id s hs)
    rw [h.objects, Function.update_of_ne hid]

theorem same_life (h : (st'.objects id).inUse = (k.store.objects id).inUse) :
    ¬ LifeChanged k.store st' id := by
  rw [LifeChanged, not_not, Store.Live, Store.Live, h]

/-- Only the trust of the object changes. -/
theorem Recorded.mediated_trust {j : Int} {trust : Nat}
    (h : Recorded k.store st' j.toNat { k.store.objects j.toNat with trust := trust })
    (hcap : actorHasCap k c capPromoteObject 0 = true) : ObjectMediated k c st' id := by
  refine h.mediated fun hobj => ⟨?_, fun _ => Or.inl hcap, ?_⟩
  · rintro (⟨s, hs, hne⟩ | hne)
    · exact absurd (h.data _ s hs) hne
    · exact absurd (by rw [hobj]) hne
  · rintro (hne | hchanged)
    · exact absurd (by rw [hobj]) hne
    · exact absurd hchanged (same_life (by rw [hobj]))

/-- **Every change of an object needs its capability.** -/
theorem StoreChange.mediated (h : StoreChange k c st') (hinv : StoreInv k.store) (id : Nat) :
    ObjectMediated k c st' id := by
  have hsame : ∀ {st : Store}, st = k.store → ObjectMediated k c st id := by
    rintro st rfl
    exact .untouched rfl fun _ _ => rfl
  cases h with
  | none => exact hsame rfl
  | read j len hcap =>
      have hread := storageRead_same k.store j len
      exact .untouched (by rw [hread.objects]) (fun s hs => hread.data id s hs)
  | write j buf len hcap =>
      rcases storageWrite_cases hinv j buf len with
        heq | ⟨hvalid, _, hdata, size, trust, hobjects⟩
      · exact hsame heq
      by_cases hid : id = j.toNat
      · have hj : (id : Int) = j := by
          have hnonneg := hvalid.1
          omega
        have hobj : (storageWrite k.store j buf len).1.objects id =
            { k.store.objects id with sizeBytes := size, trust := trust } := by
          rw [hobjects, hid, Function.update_self]
        refine ⟨fun _ => Or.inl (hj ▸ hcap), fun _ => Or.inr (Or.inl (hj ▸ hcap)), ?_⟩
        rintro (hne | hchanged)
        · exact absurd (by rw [hobj]) hne
        · exact absurd hchanged (same_life (by rw [hobj]))
      · refine .untouched ?_ (fun s hs => hdata id hid s hs)
        rw [hobjects, Function.update_of_ne hid]
  | promote j hcap =>
      rcases storagePromote_cases k.store j with heq | ⟨_, _, trust, hrec⟩
      · exact hsame heq
      · exact hrec.mediated_trust hcap
  | reject j hcap =>
      rcases storageReject_cases k.store j with heq | ⟨_, _, trust, hrec⟩
      · exact hsame heq
      · exact hrec.mediated_trust hcap
  | create name hcap =>
      rcases storageCreateNamed_cases k.store name with heq | heq
      · exact hsame (by rw [heq])
      rw [heq]
      rcases allocObject_cases hinv name with heq | ⟨j, name', hdead, _, _, _, hrec⟩
      · exact hsame (by rw [heq])
      refine hrec.mediated fun hobj => ?_
      have hlife : LifeChanged k.store (allocObject k.store name).1 j := by
        intro hiff
        refine hdead (hiff.mp ?_)
        rw [Store.Live, hobj]
        exact Nat.one_ne_zero
      exact ⟨fun _ => Or.inr hlife, fun _ => Or.inr (Or.inr hlife),
        fun _ => Or.inr (Or.inr ⟨hcap, hdead⟩)⟩
  | rename j name hcap =>
      rcases storageRename_cases k.store j name with heq | ⟨hnamed, _, name', hrec⟩
      · exact hsame heq
      refine hrec.mediated fun hobj => ⟨?_, ?_, fun _ => Or.inl ?_⟩
      · rintro (⟨s, hs, hne⟩ | hne)
        · exact absurd (hrec.data _ s hs) hne
        · exact absurd (by rw [hobj]) hne
      · intro hne
        exact absurd (by rw [hobj]) hne
      · rw [Int.toNat_of_nonneg hnamed.1]
        exact hcap
  | delete j hcap =>
      rcases storageDelete_cases k.store j with heq | ⟨hnamed, _, name', hrec⟩
      · exact hsame heq
      refine hrec.mediated fun hobj => ?_
      have hlife : LifeChanged k.store (storageDelete k.store j).1 j.toNat := by
        intro hiff
        refine hiff.mpr hnamed.2.2 ?_
        rw [hobj]
      refine ⟨fun _ => Or.inr hlife, fun _ => Or.inr (Or.inr hlife), fun _ => Or.inr (Or.inl ?_)⟩
      rw [Int.toNat_of_nonneg hnamed.1]
      exact hcap

/-- The authority behind every change of another slot `d`, when a step of `c` leads from
`k` to `k'`. -/
structure SlotMediated (k : Kernel D) (c : Slot) (k' : Kernel D) (d : Slot) : Prop where
  mailbox : (k.actors d).mailboxCount < (k'.actors d).mailboxCount →
    actorHasCap k c capSend d = true
  dead : k.Live d → ¬ k'.Live d → actorHasCap k c capTerminate d = true
  ready : (k.actors d).state = .dead → (k'.actors d).state = .ready →
    actorHasCap k c capSpawn 0 = true ∧ (k.actors c).spawnCount < (k.actors c).spawnQuota
  /-- the table gains a pair `c` holds, or the new child of `c` gets `CAP_SEND(c)` -/
  caps : ∀ x, x.op ≠ 0 → (k.actors d).caps.count x < (k'.actors d).caps.count x →
    x ∈ (k.actors c).caps ∨ (x = ⟨capSend, c⟩ ∧ ¬ k.Live d ∧ k'.Live d)

/-- What a step of `c` can do to the mailbox and the life of another slot. -/
inductive SlotChange (k : Kernel D) (c : Slot) (k' : Kernel D) (d : Slot) : Prop
  | kept (hmail : SameMailbox (k.actors d) (k'.actors d)) (hlive : k'.Live d ↔ k.Live d)
  | sent (hcap : actorHasCap k c capSend d = true) (hbefore : k.Live d) (hafter : k'.Live d)
  | killed (hcap : actorHasCap k c capTerminate d = true)
      (hmail : SameMailbox (k.actors d) (k'.actors d)) (hafter : ¬ k'.Live d)
  | filled (hmay : MaySpawn k c) (hbefore : ¬ k.Live d) (hempty : (k'.actors d).mailboxCount = 0)

variable {L : Layout} {hal : Hal D} {e : Event D} {o : Outcome} {d : Slot}

theorem SlotChange.of_eq (h : k'.actors d = k.actors d) : SlotChange k c k' d :=
  .kept (.of_eq h) (by rw [Kernel.Live, Kernel.Live, h])

/-- A switch away from `c` keeps the other slots. -/
theorem SlotChange.scheduled (hd : d ≠ c) (a : Actor) :
    SlotChange k c (scheduleNext (k.setActor c a)) d := by
  have hactor : (k.setActor c a).actors d = k.actors d := by simp [hd]
  refine .kept ?_ ?_
  · rw [← hactor]
    exact scheduleNext_mailbox _ d
  · rw [scheduleNext_live, Kernel.Live, Kernel.Live, hactor]

theorem ChildSpawn.slotChange {taken result : Option Slot} (h : ChildSpawn k c k' taken result)
    (hd : d ≠ c) : SlotChange k c k' d := by
  cases h with
  | refused h => exact .of_eq (by rw [h])
  | aborted i cr3 page entry hmay hdead h =>
      by_cases hdi : d = i
      · subst hdi
        exact .filled hmay (not_not.mpr hdead) (by simp [h, freshActor])
      · exact .of_eq (by simp [h, hdi])
  | spawned i cr3 page entry hmay hdead hchild hspawner hother =>
      by_cases hdi : d = i
      · subst hdi
        exact .filled hmay (not_not.mpr hdead) (by simp [hchild, freshActor])
      · exact .of_eq (hother d hdi hd)

/-- **What a step does to another slot**, with the capability behind it. -/
theorem Stepped.slotChange (h : Stepped L hal k c e k' o) (hlive : k.Live c) (hd : d ≠ c) :
    SlotChange k c k' d := by
  cases h with
  | tick | yield | exit => exact .scheduled hd _
  | @send _ call hcall =>
      rcases actorSend_cases k c (cInt call.a1) call.a2 call.a3 with
        heq | ⟨t, hdest, hcap, hlivet, _, heq⟩
      · rw [heq]
        exact .of_eq rfl
      rw [heq]
      by_cases hdt : d = t
      · subst hdt
        rw [slotOf_eq_some.mp hdest] at hcap
        refine .sent hcap hlivet ?_
        simp only [Kernel.Live, setActor_actors, Function.update_self, enqueue]
        split
        · simp
        · exact hlivet
      · exact .of_eq (by simp [hdt])
  | receive out hcall =>
      rcases sysReceive_cases k c out with ⟨_, heq⟩ | ⟨_, heq⟩
      · rw [heq]
        exact .scheduled hd _
      · rw [heq]
        exact .of_eq (by simp [hd])
  | @grant _ call hcall =>
      rcases actorDelegate_cases k c (cInt call.a1) (cInt call.a2) (cInt call.a3) with
        heq | ⟨t, _, _, heq⟩
      · rw [heq]
        exact .of_eq rfl
      rw [heq, actorAddCap_fst]
      refine .kept (update_mailbox rfl (by exact ⟨rfl, rfl, rfl⟩) d) ?_
      by_cases hdt : d = t
      · subst hdt
        simp [Kernel.Live]
      · simp [Kernel.Live, hdt]
  | @spawn _ call hcall => exact (actorSpawnChild_spec L k hlive call.a1.toNat).1.slotChange hd
  | @spawnProgram _ call hcall hcap =>
      exact (loaderSpawnProgram_spec L k hlive (cInt call.a1)).1.slotChange hd
  | @terminate _ call hcall =>
      rcases actorTerminate_cases k c (cInt call.a1) with heq | ⟨t, htarget, _, hcap, heq⟩
      · rw [heq]
        exact .of_eq rfl
      rw [heq]
      by_cases hdt : d = t
      · subst hdt
        rw [slotOf_eq_some.mp htarget] at hcap
        exact .killed hcap (update_mailbox rfl (by exact ⟨rfl, rfl, rfl⟩) d) (by simp [Kernel.Live])
      · exact .of_eq (by simp [hdt])
  | @createName _ call hcall hcap =>
      rcases sysCreateName_cases k c (userBytes k c call.a1) with ⟨_, heq⟩ | ⟨_, heq⟩
      · rw [heq]
        exact .of_eq rfl
      · rw [heq]
        exact .of_eq (by simp [SysResult.value, hd])
  | quietCall _ _ hquiet => exact .of_eq (by rw [hquiet.actors])
  | programDenied | createDenied | unknown | store | device | fault => exact .of_eq rfl

/-- The only pair a checked spawn puts in the table of another slot. -/
theorem ChildSpawn.put {taken result : Option Slot} (h : ChildSpawn k c k' taken result)
    (hd : d ≠ c) {x : Capability} (hx : .put d x ∈ spawnChanges c taken result) :
    x = ⟨capSend, c⟩ ∧ ¬ k.Live d ∧ k'.Live d := by
  obtain ⟨i, rfl, ⟨hself, _⟩ | ⟨rfl, rfl⟩⟩ := put_mem_spawnChanges h hx
  · exact absurd hself hd
  cases h with
  | spawned _ cr3 page entry _ hdead hchild =>
      refine ⟨rfl, not_not.mpr hdead, ?_⟩
      rw [Kernel.Live, hchild]
      exact fun hdead => ActorState.noConfusion hdead

/-- **What a step puts in the table of another slot**: a pair `c` holds, or `CAP_SEND(c)`
for the child it has just spawned. -/
theorem Stepped.put (h : Stepped L hal k c e k' o) (hlive : k.Live c) (hd : d ≠ c)
    {x : Capability} (hx : .put d x ∈ capChanges L k c e) :
    x ∈ (k.actors c).caps ∨ (x = ⟨capSend, c⟩ ∧ ¬ k.Live d ∧ k'.Live d) := by
  cases h with
  | @grant _ call hcall =>
      obtain ⟨rfl, hdecode⟩ := hcall
      simp only [capChanges, hdecode] at hx
      unfold grantChanges at hx
      rcases actorDelegate_cases k c (cInt call.a1) (cInt call.a2) (cInt call.a3) with
        heq | ⟨t, hdest, hcap, heq⟩
      · rw [heq] at hx
        split at hx <;> simp at hx
      · rw [hdest] at hx
        dsimp only at hx
        split at hx
        · simp only [List.mem_cons, Change.put.injEq, List.not_mem_nil, or_false] at hx
          rw [hx.2]
          exact Or.inl (hasCap_iff.mp hcap)
        · cases hx
  | @spawn _ call hcall =>
      obtain ⟨rfl, hdecode⟩ := hcall
      simp only [capChanges, hdecode] at hx
      exact Or.inr ((actorSpawnChild_spec L k hlive call.a1.toNat).1.put hd hx)
  | @spawnProgram _ call hcall hcap =>
      obtain ⟨rfl, hdecode⟩ := hcall
      simp only [capChanges, hdecode, hcap, if_true] at hx
      exact Or.inr ((loaderSpawnProgram_spec L k hlive (cInt call.a1)).1.put hd hx)
  | @createName _ call hcall hcap =>
      obtain ⟨rfl, hdecode⟩ := hcall
      simp only [capChanges, hdecode, hcap, if_true, createChanges] at hx
      split at hx
      · cases hx
      · simp [hd] at hx
  | programDenied hcall hcap | createDenied hcall hcap =>
      obtain ⟨rfl, hdecode⟩ := hcall
      simp [capChanges, hdecode, hcap] at hx
  | yield hcall | exit hcall | send hcall | terminate hcall =>
      rw [capChanges_of_call hcall (by simp) (by simp) (by simp) (by simp)] at hx
      cases hx
  | receive out hcall =>
      rcases hcall with ⟨call, hcall, _⟩ | ⟨rfl, _⟩
      · rw [capChanges_of_call hcall (by simp) (by simp) (by simp) (by simp)] at hx
        cases hx
      · cases hx
  | @quietCall _ call sys hcall hquiet hstep =>
      have hne : ∀ {loud : Syscall}, loud.quiet = false → sys ≠ loud :=
        Syscall.ne_of_quiet hquiet
      rw [capChanges_of_call hcall (hne rfl) (hne rfl) (hne rfl) (hne rfl)] at hx
      cases hx
  | unknown hdecode => simp [capChanges, hdecode] at hx
  | tick | store | device | fault => cases hx

/-- **Every change of another slot needs its capability.** -/
theorem Stepped.slotMediated (h : Stepped L hal k c e k' o) (hlive : k.Live c) (hd : d ≠ c) :
    SlotMediated k c k' d := by
  have hcaps : ∀ x, x.op ≠ 0 → (k.actors d).caps.count x < (k'.actors d).caps.count x →
      x ∈ (k.actors c).caps ∨ (x = ⟨capSend, c⟩ ∧ ¬ k.Live d ∧ k'.Live d) := by
    intro x hop hcount
    have htable : (k'.actors d).caps = changeTables k.tables (capChanges L k c e) d :=
      congrFun (h.tables hlive) d
    have hgain : (k.tables d).count x <
        (applyAll Capability.vacant blankTable k.tables (capChanges L k c e) d).count x := by
      rw [htable] at hcount
      exact hcount
    exact h.put hlive hd (put_of_count_lt (fun hmem => hop (op_of_mem_blankTable hmem)) hgain)
  cases h.slotChange hlive hd with
  | kept hmail hlife =>
      refine ⟨fun hlt => ?_, fun hbefore hafter => ?_, fun hbefore hafter => ?_, hcaps⟩
      · rw [hmail.2.2] at hlt
        exact absurd hlt (Nat.lt_irrefl _)
      · exact absurd (hlife.mpr hbefore) hafter
      · exact absurd hbefore (hlife.mp (by simp [Kernel.Live, hafter]))
  | sent hcap hbefore hafter =>
      exact ⟨fun _ => hcap, fun _ hdead => absurd hafter hdead,
        fun hdead _ => absurd hdead hbefore, hcaps⟩
  | killed hcap hmail hafter =>
      refine ⟨fun hlt => ?_, fun _ _ => hcap, fun _ hready => ?_, hcaps⟩
      · rw [hmail.2.2] at hlt
        exact absurd hlt (Nat.lt_irrefl _)
      · exact absurd (by simp [Kernel.Live, hready]) hafter
  | filled hmay hbefore hempty =>
      refine ⟨fun hlt => ?_, fun hlived _ => absurd hlived hbefore, fun _ _ => hmay, hcaps⟩
      rw [hempty] at hlt
      exact absurd hlt (Nat.not_lt_zero _)

/-- **Complete mediation.**  For every state of every run and every event of the current
actor `c`, in particular every system call with every number and every arguments:
* an object changes only with the authority `ObjectMediated` names for the change;
* another slot changes only with the authority `SlotMediated` names for the change;
* the bytes of an object reach `c`, its memory or a program it spawns only if `c` holds
  `CAP_READ_OBJECT` on it and it is not rejected: otherwise a machine with other bytes there
  goes through the same step with the same outcome, to the same state but for those bytes. -/
theorem complete_mediation {b : Boot D} {tr : List (Record D)} (hrun : Run L hal b tr k)
    (hcur : k.current = some c) (hstep : step L hal k e = some (k', o)) :
    (∀ id, ObjectMediated k c k'.store id) ∧
    (∀ d, d ≠ c → SlotMediated k c k' d) ∧
    ∀ id, ¬ (actorHasCap k c capReadObject (id : Nat) = true ∧
        (k.store.objects id).trust ≠ objRejected) →
      ∀ st, Alike id k.store st →
        ∃ st', Alike id k'.store st' ∧
          step L hal (k.withStore st) e = some (k'.withStore st', o) := by
  obtain ⟨c', _, hcur', hlive, hstepped⟩ := Run.stepped hrun hstep
  rw [hcur, Option.some.injEq] at hcur'
  subst hcur'
  have hinv := run_storeInv hrun
  refine ⟨fun id => (hstepped.storeChange hlive).mediated hinv id,
    fun d hd => hstepped.slotMediated hlive hd, ?_⟩
  intro id hunread st hst
  refine step_alike hinv hst hcur hlive (fun hcap hreadable => ?_) hstep
  exact hunread ⟨hcap, by simpa using hreadable.2⟩

set_option maxRecDepth 100000 in
/-- The downloader of `kernel_main` writes three bytes to the object it may write. -/
theorem complete_mediation_write :
    ∃ tr k k' o, Run sampleLayout silentHal sampleBoot tr k ∧
      step sampleLayout silentHal k (sampleCall 10 0 0x20000 3) = some (k', o) ∧
      (k'.store.objects 0).sizeBytes = 3 ∧ ObjectMediated k 8 k'.store 0 := by
  have hrun : (sampleRun (List.replicate 7 .tick)).map
      (fun r => (r.2.current, (step sampleLayout silentHal r.2 (sampleCall 10 0 0x20000 3)).map
        fun p => (p.1.store.objects 0).sizeBytes)) = some (some 8, some 3) := by
    decide +kernel
  obtain ⟨tr, k, htrace, hview⟩ := exists_trace_of_runTrace hrun
  simp only [Prod.mk.injEq, Option.map_eq_some_iff] at hview
  obtain ⟨hcur, ⟨k', o⟩, hstep, hsize⟩ := hview
  exact ⟨tr, k, k', o, htrace, hstep, hsize, (complete_mediation htrace hcur hstep).1 0⟩

set_option maxRecDepth 100000 in
/-- The coordinator spawns a worker, whose table then has a pair the coordinator itself
does not hold. -/
theorem child_gets_unheld_pair :
    ∃ tr k k' o, Run sampleLayout silentHal sampleBoot tr k ∧ k.current = some 7 ∧
      step sampleLayout silentHal k (sampleCall 7 0x20000 0 0) = some (k', o) ∧
      (k.actors 15).caps.count ⟨capSend, 7⟩ < (k'.actors 15).caps.count ⟨capSend, 7⟩ ∧
      ⟨capSend, 7⟩ ∉ (k.actors 7).caps := by
  have hrun : (sampleRun (List.replicate 6 .tick)).map
      (fun r => (r.2.current, decide (⟨capSend, 7⟩ ∈ (r.2.actors 7).caps),
        (r.2.actors 15).caps.count ⟨capSend, 7⟩,
        (step sampleLayout silentHal r.2 (sampleCall 7 0x20000 0 0)).map
          fun p => (p.1.actors 15).caps.count ⟨capSend, 7⟩)) =
      some (some 7, false, 0, some 1) := by
    decide +kernel
  obtain ⟨tr, k, htrace, hview⟩ := exists_trace_of_runTrace hrun
  simp only [Prod.mk.injEq, decide_eq_false_iff_not, Option.map_eq_some_iff] at hview
  obtain ⟨hcur, hunheld, hbefore, ⟨k', o⟩, hstep, hafter⟩ := hview
  refine ⟨tr, k, k', o, htrace, hcur, hstep, ?_, hunheld⟩
  rw [hbefore, hafter]
  exact Nat.one_pos

end Vajra
