import Vajra.CapabilityTables

/-!
# Capabilities and the identities they were made for

A capability names its target by a number, and numbers are used again: a slot gets
a new occupant, an object id a new object.  Here every target has an identity,
the number of times it has been renewed, and beside the capability tables we keep
tables whose entries also carry the identity their target had when the entry was
first created (`taggedTables`).  A delegation copies the identity of the first
matching entry of the holder.  Forgetting the identities gives the kernel's own
tables back (`taggedTables_erase`).

As long as no target is renewed while a live actor holds an entry for it, every
entry of a live actor carries the present identity of its target (`tags_current`).
The kernel checks no such thing, and the two counterexamples are runs in which an old
entry works on a new occupant of a slot and on a new object.
-/

namespace Vajra

open EntryTables TransitionTrace

variable {D : Type}

/-- A pair with the identity of its target recorded beside it. -/
abbrev TaggedCapability := Capability × Nat

/-- How often `target` has been renewed in a run. -/
def identity (renewed : Record D → Int → Bool) (tr : List (Record D)) (target : Int) : Nat :=
  tr.countP fun t => renewed t target

/-- The identity recorded with the first entry for `x`. -/
def tagOf (table : List TaggedCapability) (x : Capability) : Option Nat :=
  (table.find? fun e => e.1 = x).map Prod.snd

/-- The holder whose entry a step copies: the caller of `SYS_GRANT`. -/
def copiedFrom (t : Record D) : Option Slot :=
  match t.event with
  | .syscall call => if Syscall.decode call.num = some .grant then t.pre.current else none
  | _ => none

/-- The identity a step records with a pair it puts in a table. -/
def tagFor (t : Record D) (now : Capability → Nat) (tables : Slot → List TaggedCapability)
    (x : Capability) : Nat :=
  match copiedFrom t with
  | some c => (tagOf (tables c) x).getD (now x)
  | none => now x

/-- A change of the tables, with the identity to record. -/
def tagChange (tag : Capability → Nat) : Change Slot Capability → Change Slot TaggedCapability
  | .clear s => .clear s
  | .put s x => .put s (x, tag x)

/-- The capability tables after a run, with the recorded identities. -/
def taggedTables (L : Layout) (renewed : Record D → Int → Bool) (boot : Kernel D) :
    List (Record D) → Slot → List TaggedCapability
  | [] => fun s => (boot.tables s).map fun x => (x, 0)
  | t :: tr =>
      applyAll (fun e => e.1.vacant) (blankTable.map fun x => (x, 0))
        (taggedTables L renewed boot tr)
        ((recordChanges L t).map (tagChange (tagFor t
          (fun x => identity renewed (t :: tr) x.target) (taggedTables L renewed boot tr))))

section Tags

variable {L : Layout} {hal : Hal D} {b : Boot D} {tr : List (Record D)} {k : Kernel D}

theorem tagChange_erase (tag : Capability → Nat) (changes : List (Change Slot Capability)) :
    (changes.map (tagChange tag)).map (Change.map Prod.fst) = changes := by
  rw [List.map_map]
  conv_rhs => rw [← List.map_id changes]
  refine List.map_congr_left fun change _ => ?_
  cases change with
  | clear s => rfl
  | put s x => rfl

/-- **Forgetting the identities gives the kernel's tables.** -/
theorem taggedTables_erase (renewed : Record D → Int → Bool) (hrun : Run L hal b tr k) (s : Slot) :
    (taggedTables L renewed (bootState L b) tr s).map Prod.fst = k.tables s := by
  have hall : (fun s => (taggedTables L renewed (bootState L b) tr s).map Prod.fst) =
      k.tables := by
    refine hrun.history_invariant (fun tr k =>
      (fun s => (taggedTables L renewed (bootState L b) tr s).map Prod.fst) = k.tables) ?_ ?_
    · funext s
      simp [taggedTables, Function.comp_def]
    · intro tr k e o k' hrun hold hstep
      funext s
      have hblank : (blankTable.map fun x => ((x, 0) : TaggedCapability)).map Prod.fst =
          blankTable := by
        simp [Function.comp_def]
      rw [Run.tables hrun hstep, taggedTables,
        map_applyAll (fun x => show x.1.vacant = x.1.vacant from rfl), tagChange_erase, hblank, hold,
        changeTables]
  exact congrFun hall s

/-- The holder of a pair has an entry for it with a recorded identity. -/
theorem exists_tagOf {table : List TaggedCapability} {x : Capability}
    (h : x ∈ table.map Prod.fst) : ∃ n, tagOf table x = some n ∧ (x, n) ∈ table := by
  obtain ⟨e, he, rfl⟩ := List.mem_map.mp h
  cases hfind : table.find? (fun e' => e'.1 = e.1) with
  | none =>
      have := List.find?_eq_none.mp hfind e he
      simp at this
  | some e' =>
      have hsame : e'.1 = e.1 := by simpa using List.find?_some hfind
      refine ⟨e'.2, by simp [tagOf, hfind], ?_⟩
      rw [← hsame]
      exact List.mem_of_find?_eq_some hfind

/-- A delegation puts a pair its caller holds. -/
theorem held_of_copied {t : Record D} {c s : Slot} {x : Capability}
    (hcopy : copiedFrom t = some c) (hput : Change.put s x ∈ recordChanges L t) :
    t.pre.current = some c ∧ x ∈ t.pre.tables c := by
  unfold copiedFrom at hcopy
  split at hcopy
  swap
  · cases hcopy
  rename_i call hevent
  split at hcopy
  swap
  · cases hcopy
  rename_i hdecode
  refine ⟨hcopy, ?_⟩
  simp only [recordChanges, hcopy, capChanges, hevent, hdecode, grantChanges] at hput
  split at hput
  · simp at hput
  split at hput
  swap
  · simp at hput
  rename_i hzero
  simp only [List.mem_singleton, Change.put.injEq] at hput
  obtain ⟨_, rfl⟩ := hput
  rcases actorDelegate_cases t.pre c (cInt call.a1) (cInt call.a2) (cInt call.a3) with
    heq | ⟨_, _, hcap, _⟩
  · rw [heq] at hzero
    cases hzero
  · exact hasCap_iff.mp hcap

theorem identity_cons (renewed : Record D → Int → Bool) (t : Record D) (target : Int)
    (h : renewed t target = false) :
    identity renewed (t :: tr) target = identity renewed tr target := by
  simp [identity, h]

/-- No target is renewed in this step while a live actor holds an entry, with one
of the rights `ops`, for it. -/
def RenewsUnheld (renewed : Record D → Int → Bool) (ops : List Int) (t : Record D) : Prop :=
  ∀ target, renewed t target = true → ∀ s, t.pre.Live s → ∀ op ∈ ops,
    ⟨op, target⟩ ∉ (t.pre.actors s).caps

/-- **While targets are renewed unheld, the entries of live actors are up to
date.** -/
theorem tags_current {renewed : Record D → Int → Bool} (ops : List Int) (hops : 0 ∉ ops)
    (hrun : Run L hal b tr k) (hclean : ∀ t ∈ tr, RenewsUnheld renewed ops t) (s : Slot)
    (hs : k.Live s) (e : TaggedCapability) (he : e ∈ taggedTables L renewed (bootState L b) tr s)
    (hop : e.1.op ∈ ops) : e.2 = identity renewed tr e.1.target := by
  revert s e
  refine hrun.history_invariant (fun tr k => (∀ t ∈ tr, RenewsUnheld renewed ops t) →
    ∀ s, k.Live s → ∀ e ∈ taggedTables L renewed (bootState L b) tr s, e.1.op ∈ ops →
      e.2 = identity renewed tr e.1.target) ?_ ?_ hclean
  · intro _ s _ e he _
    simp only [taggedTables, List.mem_map] at he
    obtain ⟨x, _, rfl⟩ := he
    rfl
  · intro tr k ev o k' hrun hold hstep hclean s hs e he hop
    have hold := hold (fun t ht => hclean t (List.mem_cons_of_mem _ ht))
    have hnow := hclean _ List.mem_cons_self
    obtain ⟨c, _, hcur, hlive, hstepped⟩ := Run.stepped hrun hstep
    -- A pair held by a live actor before the step keeps its identity in it.
    have hkept : ∀ s' (y : TaggedCapability), k.Live s' →
        y ∈ taggedTables L renewed (bootState L b) tr s' → y.1.op ∈ ops →
        y.2 = identity renewed (⟨k, ev, o, k'⟩ :: tr) y.1.target := by
      intro s' y hs' hy hyop
      have hmem : y.1 ∈ k.tables s' := by
        rw [← taggedTables_erase renewed hrun s']
        exact List.mem_map_of_mem hy
      rw [identity_cons, hold s' hs' y hy hyop]
      by_contra hrenew
      exact hnow y.1.target (by simpa using hrenew) s' hs' y.1.op hyop hmem
    rw [taggedTables] at he
    rcases mem_applyAll he with ⟨hmem, hclear⟩ | hblank | hput
    · have hnot : Change.clear s ∉ recordChanges L ⟨k, ev, o, k'⟩ := by
        intro hin
        exact hclear (List.mem_map_of_mem hin)
      rw [clear_mem_recordChanges] at hnot
      rcases hstepped.live hlive hs with hs' | htaken
      · exact hkept s e hs' hmem hop
      · exact absurd (by simp [spawnedInto, hcur, htaken]) hnot
    · obtain ⟨x, hx, rfl⟩ := List.mem_map.mp hblank
      rw [op_of_mem_blankTable hx] at hop
      exact absurd hop hops
    · obtain ⟨change, hchange, heq⟩ := List.mem_map.mp hput
      cases change with
      | clear s' => cases heq
      | put s' x =>
          simp only [tagChange, Change.put.injEq] at heq
          obtain ⟨rfl, rfl⟩ := heq
          dsimp only at hop ⊢
          unfold tagFor
          cases hcopy : copiedFrom (⟨k, ev, o, k'⟩ : Record D) with
          | none => rfl
          | some c' =>
              obtain ⟨hcur', hheld⟩ := held_of_copied hcopy hchange
              rw [hcur, Option.some.injEq] at hcur'
              subst hcur'
              rw [← taggedTables_erase renewed hrun c] at hheld
              obtain ⟨n, htag, hentry⟩ := exists_tagOf hheld
              dsimp only
              rw [htag, Option.getD_some]
              exact hkept c (x, n) hlive hentry hop

end Tags

/-- A step renews the occupant of `target` when an `actor_spawn` takes its slot. -/
def occupantRenewed (L : Layout) (t : Record D) (target : Int) : Bool :=
  match spawnedInto L t with
  | some d => ((d : Nat) : Int) = target
  | none => false

/-- The identity of the occupant of a slot. -/
def occupant (L : Layout) (tr : List (Record D)) (slot : Int) : Nat :=
  identity (occupantRenewed L) tr slot

/-- The tables with the occupants recorded. -/
def occupantTags (L : Layout) (b : Boot D) (tr : List (Record D)) (s : Slot) :
    List TaggedCapability :=
  taggedTables L (occupantRenewed L) (bootState L b) tr s

/-- The rights over an actor. -/
def actorOps : List Int := [capSend, capTerminate]

/-- No `actor_spawn` of this step takes a slot for which a live actor holds
`CAP_SEND` or `CAP_TERMINATE`. -/
def SpawnsUnheld (L : Layout) (t : Record D) : Prop :=
  ∀ d : Slot, spawnedInto L t = some d → ∀ s, t.pre.Live s → ∀ op ∈ actorOps,
    ⟨op, (d : Nat)⟩ ∉ (t.pre.actors s).caps

instance (L : Layout) (t : Record D) : Decidable (SpawnsUnheld L t) :=
  inferInstanceAs (Decidable (∀ d : Slot, spawnedInto L t = some d → ∀ s, t.pre.Live s →
    ∀ op ∈ actorOps, ⟨op, (d : Nat)⟩ ∉ (t.pre.actors s).caps))

theorem SpawnsUnheld.renewsUnheld {L : Layout} {t : Record D} (h : SpawnsUnheld L t) :
    RenewsUnheld (occupantRenewed L) actorOps t := by
  intro target hrenew s hs op hop
  unfold occupantRenewed at hrenew
  split at hrenew
  · rename_i d hd
    have htarget : ((d : Nat) : Int) = target := by simpa using hrenew
    rw [← htarget]
    exact h d hd s hs op hop
  · cases hrenew

/-- A successful send or termination by `c` uses an entry of `c`'s own table that
records the present occupant of the slot it names. -/
def UsesPresentOccupant (L : Layout) (b : Boot D) (tr : List (Record D)) (c : Slot)
    (e : Event D) (o : Outcome) : Prop :=
  ∀ call, o.ret = some (cRet 0) →
    (IsCall e .send call →
      (⟨capSend, cInt call.a1⟩, occupant L tr (cInt call.a1)) ∈ occupantTags L b tr c) ∧
    (IsCall e .terminate call →
      (⟨capTerminate, cInt call.a1⟩, occupant L tr (cInt call.a1)) ∈ occupantTags L b tr c)

/-- A held right over an actor is recorded for the present occupant. -/
theorem occupant_mem_tags {L : Layout} {hal : Hal D} {b : Boot D} {tr : List (Record D)}
    {k : Kernel D} (hrun : Run L hal b tr k) (hclean : ∀ t ∈ tr, SpawnsUnheld L t) {c : Slot}
    (hlive : k.Live c) {op target : Int} (hop : op ∈ actorOps)
    (hcap : actorHasCap k c op target = true) :
    (⟨op, target⟩, occupant L tr target) ∈ occupantTags L b tr c := by
  have hheld : ⟨op, target⟩ ∈ k.tables c := hasCap_iff.mp hcap
  rw [← taggedTables_erase (occupantRenewed L) hrun c] at hheld
  obtain ⟨n, _, hentry⟩ := exists_tagOf hheld
  have hnow := tags_current actorOps (by decide) hrun
    (fun t ht => (hclean t ht).renewsUnheld) c hlive _ hentry hop
  dsimp only at hnow
  rw [hnow] at hentry
  exact hentry

/-- **Authority over an actor stays with that actor while slots are respawned
unheld.**  In every run in which no `actor_spawn` takes a slot that a live actor
holds `CAP_SEND` or `CAP_TERMINATE` for, every successful send or termination uses an
entry recorded for the present occupant. -/
theorem actor_authority_present {L : Layout} {hal : Hal D} {b : Boot D} {tr : List (Record D)}
    {k k' : Kernel D} {c : Slot} {e : Event D} {o : Outcome} (hrun : Run L hal b tr k)
    (hclean : ∀ t ∈ tr, SpawnsUnheld L t) (hcur : k.current = some c)
    (hstep : step L hal k e = some (k', o)) : UsesPresentOccupant L b tr c e o := by
  obtain ⟨c', _, hcur', hlive, _⟩ := Run.stepped hrun hstep
  rw [hcur, Option.some.injEq] at hcur'
  subst hcur'
  have hrefuse : cRet (-1) ≠ cRet 0 := by decide
  intro call hret
  constructor
  · rintro ⟨rfl, hdecode⟩
    have hresult := step_syscall hcur hdecode hstep
    simp only [syscallDispatch, SysResult.finish, SysResult.value, Prod.mk.injEq] at hresult
    obtain ⟨_, rfl⟩ := hresult
    rcases actorSend_cases k c (cInt call.a1) call.a2 call.a3 with heq | ⟨_, _, hcap, _, _, _⟩
    · rw [heq] at hret
      exact absurd (Option.some.inj hret) hrefuse
    · exact occupant_mem_tags hrun hclean hlive (by simp [actorOps]) hcap
  · rintro ⟨rfl, hdecode⟩
    have hresult := step_syscall hcur hdecode hstep
    simp only [syscallDispatch, SysResult.finish, SysResult.value, Prod.mk.injEq] at hresult
    obtain ⟨_, rfl⟩ := hresult
    rcases actorTerminate_cases k c (cInt call.a1) with heq | ⟨_, _, _, hcap, _⟩
    · rw [heq] at hret
      exact absurd (Option.some.inj hret) hrefuse
    · exact occupant_mem_tags hrun hclean hlive (by simp [actorOps]) hcap

set_option maxRecDepth 100000 in
/-- The coordinator spawns a worker into an unheld slot and sends to it. -/
theorem actor_authority_present_worker :
    ∃ tr k k' o, Run sampleLayout silentHal sampleBoot tr k ∧
      (∀ t ∈ tr, SpawnsUnheld sampleLayout t) ∧
      step sampleLayout silentHal k (sampleCall 4 15 0 0) = some (k', o) ∧
      o.ret = some (cRet 0) ∧
      UsesPresentOccupant sampleLayout sampleBoot tr 7 (sampleCall 4 15 0 0) o := by
  have hrun : (sampleRun (List.replicate 6 .tick ++ [sampleCall 7 0x20000 0 0])).map
      (fun r => (decide (∀ t ∈ r.1, SpawnsUnheld sampleLayout t), r.2.current,
        (step sampleLayout silentHal r.2 (sampleCall 4 15 0 0)).map fun p => p.2.ret)) =
      some (true, some 7, some (some (cRet 0))) := by
    decide +kernel
  obtain ⟨tr, k, htrace, hview⟩ := exists_trace_of_runTrace hrun
  simp only [Prod.mk.injEq, decide_eq_true_eq, Option.map_eq_some_iff] at hview
  obtain ⟨hclean, hcur, ⟨k', o⟩, hstep, hret⟩ := hview
  exact ⟨tr, k, k', o, htrace, hclean, hstep, hret,
    actor_authority_present htrace hclean hcur hstep⟩

/-- The coordinator spawns a worker into slot 15, the worker exits, the scanner spawns
into the same slot, and the coordinator's turn comes again. -/
def staleEvents : List (Event Unit) :=
  List.replicate 6 .tick ++ [sampleCall 7 0x20000 0 0] ++ List.replicate 8 .tick ++
    [sampleCall 3 0 0 0] ++ List.replicate 9 .tick ++ [sampleCall 7 0x20000 0 0] ++
    List.replicate 14 .tick

set_option maxRecDepth 100000 in
/-- The coordinator then terminates the scanner's worker with the entry it was given
for its own. -/
theorem stale_terminate_succeeds :
    ∃ tr k k' o, Run sampleLayout silentHal sampleBoot tr k ∧ k.current = some 7 ∧
      step sampleLayout silentHal k (sampleCall 8 15 0 0) = some (k', o) ∧
      ¬ UsesPresentOccupant sampleLayout sampleBoot tr 7 (sampleCall 8 15 0 0) o := by
  have hrun : (sampleRun staleEvents).map (fun r =>
      (r.2.current, decide ((⟨capTerminate, 15⟩, occupant sampleLayout r.1 15) ∈
          occupantTags sampleLayout sampleBoot r.1 7),
        (step sampleLayout silentHal r.2 (sampleCall 8 15 0 0)).map fun p => p.2.ret)) =
      some (some 7, false, some (some (cRet 0))) := by
    decide +kernel
  obtain ⟨tr, k, htrace, hview⟩ := exists_trace_of_runTrace hrun
  simp only [Prod.mk.injEq, decide_eq_false_iff_not, Option.map_eq_some_iff] at hview
  obtain ⟨hcur, hnot, ⟨k', o⟩, hstep, hret⟩ := hview
  refine ⟨tr, k, k', o, htrace, hcur, hstep, fun huses => hnot ?_⟩
  exact (huses ⟨8, 15, 0, 0, fun _ => 0⟩ hret).2 ⟨rfl, rfl⟩

/-- The object id a step allocates, if it is a successful `SYS_CREATE_NAME`. -/
def createdInto (t : Record D) : Option Int :=
  t.pre.current.bind fun c =>
    match t.event with
    | .syscall call =>
        if Syscall.decode call.num = some .createName ∧
            actorHasCap t.pre c capCreateObject 0 = true ∧
            0 ≤ (storageCreateNamed t.pre.store (userBytes t.pre c call.a1)).2 then
          some (storageCreateNamed t.pre.store (userBytes t.pre c call.a1)).2
        else none
    | _ => none

/-- A step renews the object `target` when it allocates that id. -/
def objectRenewed (t : Record D) (target : Int) : Bool := createdInto t = some target

/-- The rights over an object. -/
def objectOps : List Int := [capReadObject, capWriteObject, capRenameObject, capDeleteObject]

/-- No creation of this step takes an id for which a live actor holds a right. -/
def CreatesUnheld (t : Record D) : Prop :=
  ∀ id, createdInto t = some id → ∀ s, t.pre.Live s → ∀ op ∈ objectOps,
    ⟨op, id⟩ ∉ (t.pre.actors s).caps

theorem CreatesUnheld.renewsUnheld {t : Record D} (h : CreatesUnheld t) :
    RenewsUnheld objectRenewed objectOps t := by
  intro target hrenew s hs op hop
  exact h target (by simpa [objectRenewed] using hrenew) s hs op hop

end Vajra
