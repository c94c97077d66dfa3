import Vajra.QuarantineAuthority

/-!
# The two objects of the pipeline

On a disk that does not fail, `payload.bin` and `suspicious.bin` are objects 0 and 1 for the
whole run (`Footing`), so a write by Downloader and a grading by Scanner do what they say.
Nobody else changes their trust (`trust_cases`), and an Inspector that holds the right to read
one of them reads it unless it has been rejected (`StepOf.read_bytes`).
-/

namespace Vajra

open EntryTables TransitionTrace

variable {D : Type} {L : Layout} {hal : Hal D} {b : Boot D}

/-- The trust of object `j`. -/
def Kernel.trust (k : Kernel D) (j : Nat) : Nat := (k.store.objects j).trust

/-- The boot objects are in place, nobody can move them, and the disk answers. -/
structure Footing (k : Kernel D) : Prop where
  store : BootStore 3 k.store
  fixed : NoneMovable k
  disk : k.store.disk.Reliable

/-- No operation changes the way the disk answers. -/
theorem StoreChange.outcome {k : Kernel D} {c : Slot} {st : Store} (h : StoreChange k c st)
    (hok : TableOk k.store) : st.disk.outcome = k.store.disk.outcome := by
  have hcall : ∀ op, (storeCall k.store op).1.disk.outcome = k.store.disk.outcome := fun op =>
    (storeCall_effect hok op).outcome
  cases h with
  | none => rfl
  | read id len => exact hcall (.read id len)
  | write id buf len => exact hcall (.write id buf len)
  | promote id => exact hcall (.promote id)
  | reject id => exact hcall (.reject id)
  | create name => exact hcall (.createNamed name)
  | rename id name => exact hcall (.rename id name)
  | delete id => exact hcall (.delete id)

/-- `kernel_main` does not change it either. -/
theorem setupState_reliable (L : Layout) {b : Boot D} (hok : StoreOk (powerOn b).store)
    (hgood : b.disk.Reliable) (n : Nat) : (setupState L b n).store.disk.Reliable := by
  have hall : StoreOk (setupState L b n).store ∧ (setupState L b n).store.disk.Reliable := by
    refine setupState_induction (P := fun k => StoreOk k.store ∧ k.store.disk.Reliable)
      ⟨hok, ?_⟩ ?_ n
    · intro i
      have hdisk : (powerOn b).store.disk = _ := bootStore_disk b.disk b.scratch
      rw [hdisk]
      exact hgood i
    · rintro k op - ⟨hk, hreliable⟩
      have hcall : ∀ {st : Store} (call : StoreOp), StoreOk st → st.disk.Reliable →
          StoreOk (storeCall st call).1 ∧ (storeCall st call).1.disk.Reliable := by
        intro st call hst hrel
        have heffect := storeCall_effect hst.table call
        refine ⟨heffect.storeOk hst, fun i => ?_⟩
        rw [heffect.outcome]
        exact hrel i
      have hquiet : ∀ op : SetupOp, op.Quiet → StoreOk (setupStep L k op).store ∧
          (setupStep L k op).store.disk.Reliable := by
        intro op hop
        rw [setupStep_store L k hop]
        exact ⟨hk, hreliable⟩
      cases op with
      | createObject name => exact hcall (.createObject name) hk hreliable
      | seedObject name bytes =>
          obtain ⟨hmid, hrel⟩ := hcall (.createObject name) hk hreliable
          exact hcall (.write (storageCreateObject k.store name).2 (cstring bytes)
            (bytes.length % 2 ^ 32)) hmid hrel
      | spawn entry => exact hquiet (.spawn entry) trivial
      | grant dest right target => exact hquiet (.grant dest right target) trivial
      | setSpawnQuota slot quota => exact hquiet (.setSpawnQuota slot quota) trivial
      | setWindow slot win => exact hquiet (.setWindow slot win) trivial
  exact hall.2

/-- **The footing of every run.** -/
theorem run_footing {tr : List (Record D)} {k : Kernel D} (hboot : BootStore 0 (powerOn b).store)
    (hgood : b.disk.Reliable) (hrun : Run L hal b tr k) : Footing k := by
  have hplace : ∀ {tr k}, Run L hal b tr k → BootStore 3 k.store ∧ NoneMovable k :=
    fun hrun => run_bootStore hboot hrun
  refine ⟨(hplace hrun).1, (hplace hrun).2, ?_⟩
  refine hrun.history_invariant (fun _ k => k.store.disk.Reliable) ?_ ?_
  · rw [bootState, schedulerStart, scheduleNext_store, kernelMain_eq_setupState]
    exact setupState_reliable L hboot.ok hgood _
  · intro tr k e o k' hrun hrel hstep i
    obtain ⟨c, _, _, hlive, hstepped⟩ := Run.stepped hrun hstep
    rw [(hstepped.storeChange hlive).outcome (hplace hrun).1.ok.table]
    exact hrel i

/-- The boot objects can be read, written and graded. -/
theorem Footing.valid {k : Kernel D} (h : Footing k) {j : Nat} (hj : j < 3) :
    k.store.Valid (j : Int) := by
  obtain ⟨m, hle, hge, hseeded⟩ := h.store.table
  obtain ⟨e, he, -⟩ := hseeded.named j (by omega)
  have hlive := (directory_eq_some he).1
  refine ⟨Int.natCast_nonneg j, ?_, hlive⟩
  have hmax : (3 : Int) ≤ maxObjects := by decide
  omega

section Operations

variable {st : Store} {j : Nat} {id : Int}

/-- The trust of an object after a change of one record. -/
theorem update_trust (objects : Nat → Object) (i : Nat) (obj : Object) (j : Nat) :
    (Function.update objects i obj j).trust = if j = i then obj.trust else (objects j).trust := by
  by_cases hj : j = i
  · rw [if_pos hj, hj, Function.update_self]
  · rw [if_neg hj, Function.update_of_ne hj]

theorem storageWrite_trust (hvalid : st.Valid id) (hgood : st.disk.Reliable) (buf : Nat → UInt8)
    {len : Nat} (hlen : len ≤ objectMaxBytes) (j : Nat) :
    ((storageWrite st id buf len).1.objects j).trust =
      if j = id.toNat then objUntrusted else (st.objects j).trust := by
  have hwrite : ∀ lba buf, (halDiskWrite st.disk lba sectorsPerObject buf).2 = 0 := by
    intro lba buf
    rw [halDiskWrite, if_neg (by decide), hgood]
  rw [storageWrite, if_neg (not_not.mpr hvalid), if_neg (Nat.not_lt.mpr hlen)]
  dsimp only
  rw [if_neg (not_not.mpr (hwrite _ _))]
  exact update_trust _ _ _ j

theorem storagePromote_trust (hvalid : st.Valid id) (hlow : (st.objects id.toNat).trust < objTrusted)
    (j : Nat) : ((storagePromote st id).1.objects j).trust =
      if j = id.toNat then (st.objects j).trust + 1 else (st.objects j).trust := by
  have hgradable : ¬ ((st.objects id.toNat).trust = objTrusted ∨
      (st.objects id.toNat).trust = objRejected) := by
    have hlevels : objTrusted < objRejected := by decide
    omega
  rw [storagePromote, if_neg (not_not.mpr hvalid), if_neg hgradable]
  refine (update_trust _ _ _ j).trans ?_
  by_cases hj : j = id.toNat
  · rw [if_pos hj, if_pos hj, hj]
  · rw [if_neg hj, if_neg hj]

theorem storageReject_trust (hvalid : st.Valid id) (j : Nat) :
    ((storageReject st id).1.objects j).trust =
      if j = id.toNat then objRejected else (st.objects j).trust := by
  rw [storageReject, if_neg (not_not.mpr hvalid)]
  exact update_trust _ _ _ j

theorem storageRead_answers (hvalid : st.Valid id) (hgood : st.disk.Reliable)
    (htrust : (st.objects id.toNat).trust ≠ objRejected) (len : Nat) :
    ∃ bytes, (storageRead st id len).2 = some bytes ∧ bytes.length ≤ len := by
  rw [storageRead_readable ⟨hvalid, htrust⟩, if_pos (hgood _)]
  refine ⟨_, rfl, ?_⟩
  rw [List.length_map, List.length_range]
  exact Nat.min_le_right _ _

end Operations

/-- **Who changes the trust of a boot object** holds the right to write it or to grade. -/
theorem StoreChange.trust_cases {k : Kernel D} {c : Slot} {st : Store} (h : StoreChange k c st)
    (hfoot : Footing k) {j : Nat} (hj : j < 3) :
    (st.objects j).trust = (k.store.objects j).trust ∨
      ⟨capWriteObject, (j : Int)⟩ ∈ k.tables c ∨ ⟨capPromoteObject, 0⟩ ∈ k.tables c := by
  have hinv := hfoot.store.ok.table.toStoreInv
  -- A record other than the `j`-th has been rewritten.
  have helse : ∀ {i : Nat} {obj : Object}, st.objects = Function.update k.store.objects i obj →
      i ≠ j → (st.objects j).trust = (k.store.objects j).trust := by
    intro i obj hobjects hne
    rw [hobjects, Function.update_of_ne (Ne.symm hne)]
  have hbehind : ∀ {id : Int}, 3 ≤ id → id.toNat ≠ j := by
    intro id hid
    omega
  cases h with
  | none => exact Or.inl rfl
  | read id len => exact Or.inl (by rw [(storageRead_same _ _ _).objects])
  | write id buf len hcap =>
      rcases storageWrite_cases hinv id buf len with hsame | ⟨hvalid, -, -, size, trust, hobjects⟩
      · exact Or.inl (by rw [hsame])
      · by_cases hid : id = j
        · subst hid
          exact Or.inr (Or.inl (hasCap_iff.mp hcap))
        · refine Or.inl (helse hobjects ?_)
          have hpos := hvalid.1
          omega
  | promote id hcap => exact Or.inr (Or.inr (hasCap_iff.mp hcap))
  | reject id hcap => exact Or.inr (Or.inr (hasCap_iff.mp hcap))
  | create name =>
      left
      rcases storageCreateNamed_cases k.store name with hsame | hnew
      · rw [hsame]
      · rw [hnew]
        rcases allocObject_cases hinv name with hsame | ⟨id, _, hdead, _, _, _, hrec⟩
        · rw [hsame]
        · rw [hnew] at helse
          refine helse hrec.objects ?_
          rintro rfl
          exact hdead (hfoot.valid hj).2.2
  | rename id name hcap =>
      left
      rcases storageRename_cases k.store id name with hsame | ⟨_, _, _, hrec⟩
      · rw [hsame]
      · exact helse hrec.objects (hbehind (hfoot.fixed c _ (hasCap_iff.mp hcap) (Or.inl rfl)))
  | delete id hcap =>
      left
      rcases storageDelete_cases k.store id with hsame | ⟨_, _, _, hrec⟩
      · rw [hsame]
      · exact helse hrec.objects (hbehind (hfoot.fixed c _ (hasCap_iff.mp hcap) (Or.inr rfl)))

section Steps

variable {t : PipelineRecord D} {c : Slot}

/-- A system call that is made is dispatched. -/
theorem StepOf.dispatch (h : StepOf L hal t c) {sys : Syscall} {call : Call}
    (hcall : IsCall t.event sys call) :
    (syscallDispatch L hal t.pre.kernel c call sys).finish c = (t.post.kernel, t.outcome) := by
  have hstep := h.step
  rw [hcall.1] at hstep
  exact step_syscall h.current hcall.2 hstep

/-- A call that was made, other than a receive. -/
theorem Made.isCall {r : Request} (h : Made t r) (hne : r ≠ .receive) :
    ∃ call, IsCall t.event r.syscall call ∧ r.Passes call := by
  rcases h with ⟨call, hevent, hmatch⟩ | ⟨-, hreceive⟩
  · exact ⟨call, ⟨hevent, hmatch.1⟩, hmatch.2⟩
  · exact absurd hreceive hne

/-- **Outside Downloader and Scanner** nobody changes the trust of the two objects. -/
theorem StepOf.trust_same (h : StepOf L hal t c) (hs : Authority t.pre) (hfoot : Footing t.pre.kernel)
    (hdownloader : (t.pre.program c).role ≠ .downloader)
    (hscanner : (t.pre.program c).role ≠ .scanner) {j : Nat} (hj : j < 2) :
    t.post.kernel.trust j = t.pre.kernel.trust j := by
  rcases (h.stepped.storeChange h.live).trust_cases hfoot (Nat.lt_succ_of_lt hj) with
    hsame | hwrite | hpromote
  · exact hsame
  · exact absurd ((hs.held c h.live _ hwrite).writes rfl (by dsimp only; omega)) hdownloader
  · exact absurd ((hs.held c h.live _ hpromote).grades rfl) hscanner

/-- Downloader writes an object. -/
theorem StepOf.write_trust (h : StepOf L hal t c) (hfoot : Footing t.pre.kernel) {i len : Nat}
    (hmade : Made t (.objectWrite i len)) (hcap : ⟨capWriteObject, (i : Int)⟩ ∈ t.pre.kernel.tables c)
    (hi : i < 3) (hlen : len ≤ objectMaxBytes) (j : Nat) :
    t.post.kernel.trust j = if j = i then objUntrusted else t.pre.kernel.trust j := by
  obtain ⟨call, hcall, hid, hcount⟩ := hmade.isCall (by simp)
  have hresult := congrArg (fun r => (r.1 : Kernel D).store) (h.dispatch hcall)
  have hallowed : actorHasCap t.pre.kernel c capWriteObject (cInt call.a1) = true := by
    rw [hid]
    exact hasCap_iff.mpr hcap
  simp only [SysResult.finish, commitOut_store, Request.syscall, syscallDispatch, guarded,
    if_pos hallowed, SysResult.stored, SysResult.value] at hresult
  rw [Kernel.trust, ← hresult, hid, hcount, storageWrite_trust (hfoot.valid hi) hfoot.disk _ hlen]
  rfl

/-- Scanner promotes an object. -/
theorem StepOf.promote_trust (h : StepOf L hal t c) (hfoot : Footing t.pre.kernel) {i : Nat}
    (hmade : Made t (.objectPromote i)) (hcap : ⟨capPromoteObject, 0⟩ ∈ t.pre.kernel.tables c)
    (hi : i < 3) (hlow : t.pre.kernel.trust i < objTrusted) (j : Nat) :
    t.post.kernel.trust j =
      if j = i then t.pre.kernel.trust j + 1 else t.pre.kernel.trust j := by
  obtain ⟨call, hcall, hid⟩ := hmade.isCall (by simp)
  have hresult := congrArg (fun r => (r.1 : Kernel D).store) (h.dispatch hcall)
  have hallowed : actorHasCap t.pre.kernel c capPromoteObject 0 = true := hasCap_iff.mpr hcap
  have hid' : cInt call.a1 = i := hid
  simp only [SysResult.finish, commitOut_store, Request.syscall, syscallDispatch, guarded,
    if_pos hallowed, SysResult.stored, SysResult.value] at hresult
  rw [Kernel.trust, ← hresult, hid', storagePromote_trust (hfoot.valid hi) hlow]
  rfl

/-- Scanner rejects an object. -/
theorem StepOf.reject_trust (h : StepOf L hal t c) (hfoot : Footing t.pre.kernel) {i : Nat}
    (hmade : Made t (.objectReject i)) (hcap : ⟨capPromoteObject, 0⟩ ∈ t.pre.kernel.tables c)
    (hi : i < 3) (j : Nat) :
    t.post.kernel.trust j = if j = i then objRejected else t.pre.kernel.trust j := by
  obtain ⟨call, hcall, hid⟩ := hmade.isCall (by simp)
  have hresult := congrArg (fun r => (r.1 : Kernel D).store) (h.dispatch hcall)
  have hallowed : actorHasCap t.pre.kernel c capPromoteObject 0 = true := hasCap_iff.mpr hcap
  have hid' : cInt call.a1 = i := hid
  simp only [SysResult.finish, commitOut_store, Request.syscall, syscallDispatch, guarded,
    if_pos hallowed, SysResult.stored, SysResult.value] at hresult
  rw [Kernel.trust, ← hresult, hid', storageReject_trust (hfoot.valid hi)]
  rfl

/-- An Inspector that may read the object reads it. -/
theorem StepOf.read_bytes (h : StepOf L hal t c) (hfoot : Footing t.pre.kernel) {i len : Nat}
    (hmade : Made t (.objectRead i len)) (hcap : ⟨capReadObject, (i : Int)⟩ ∈ t.pre.kernel.tables c)
    (hi : i < 3) (htrust : t.pre.kernel.trust i ≠ objRejected) (hlen : len < 2 ^ 31) :
    ∃ ret, t.outcome.ret = some ret ∧ 0 ≤ cInt ret := by
  obtain ⟨call, hcall, hid, hcount⟩ := hmade.isCall (by simp)
  have hresult := congrArg (fun r => (r.2 : Outcome).ret) (h.dispatch hcall)
  have hallowed : actorHasCap t.pre.kernel c capReadObject (cInt call.a1) = true := by
    rw [hid]
    exact hasCap_iff.mpr hcap
  obtain ⟨bytes, hread, hle⟩ := storageRead_answers (hfoot.valid hi) hfoot.disk htrust len
  simp only [SysResult.finish, Request.syscall, syscallDispatch, guarded, if_pos hallowed] at hresult
  rw [hid, hcount, sysObjectRead] at hresult
  generalize storageRead t.pre.kernel.store i len = r at hread hresult
  obtain ⟨st, answer⟩ := r
  dsimp only at hread
  subst hread
  refine ⟨_, hresult.symm, ?_⟩
  rw [cInt_cRet (by omega) (by omega)]
  exact Int.natCast_nonneg _

end Steps

end Vajra
