import Vajra.QuarantineScanner
import Vajra.SpawnBudget

/-!
# Room for Scanner's grant

`actor_delegate` fails when the table of the receiver is full, and it does not ask the receiver.
So whether an Inspector gets its right to read rests on how many capabilities the other actors
can push into its table before Scanner does.  `actor_mailbox_sender` delegates once, and the
shell once for every two actors it has spawned, of which its quota allows six: four delegations
in all (`allowance`), and a new table has nineteen free places.
-/

namespace Vajra

open EntryTables TransitionTrace

variable {D : Type} {L : Layout} {hal : Hal D} {b : Boot D}
  {tr : List (PipelineRecord D)} {t : PipelineRecord D} {c d : Slot}

/-- How many actors an actor may still spawn, by its quota. -/
def Actor.spare (a : Actor) : Int := a.spawnQuota - a.spawnCount

/-- Rewriting a record without touching its counters. -/
theorem update_spare {k k' : Kernel D} {i : Slot} {a : Actor}
    (h : k'.actors = Function.update k.actors i a) (ha : a.spare = (k.actors i).spare) (d : Slot) :
    (k'.actors d).spare = (k.actors d).spare := by
  rw [h]
  by_cases hd : d = i
  · rw [hd, Function.update_self, ha]
  · rw [Function.update_of_ne hd]

theorem scheduleNext_spare (k : Kernel D) (d : Slot) :
    ((scheduleNext k).actors d).spare = (k.actors d).spare := by
  obtain ⟨page, st, ctx, heq, -, -⟩ := scheduleNext_actor k d
  rw [heq]
  rfl

/-- A spawn is paid for by the spawner, and by nobody else. -/
theorem ChildSpawn.spare {k k' : Kernel D} {taken result : Option Slot}
    (h : ChildSpawn k c k' taken result) (htaken : taken ≠ some d) :
    (k'.actors d).spare ≤ (k.actors d).spare ∧
      (d = c → result ≠ none → 1 ≤ (k.actors d).spare ∧
        (k'.actors d).spare + 1 ≤ (k.actors d).spare) := by
  cases h with
  | refused h => exact ⟨by rw [h], fun _ hne => absurd rfl hne⟩
  | aborted i cr3 page entry _ _ h =>
      have hd : d ≠ i := fun heq => htaken (by rw [heq])
      exact ⟨by rw [h, Function.update_of_ne hd], fun _ hne => absurd rfl hne⟩
  | spawned i cr3 page entry hmay _ _ hspawner hother =>
      have hd : d ≠ i := fun heq => htaken (by rw [heq])
      by_cases hdc : d = c
      · subst hdc
        have hquota := hmay.2
        rw [hspawner]
        dsimp only [Actor.spare]
        exact ⟨by omega, fun _ _ => by omega⟩
      · rw [hother d hd hdc]
        exact ⟨Int.le_refl _, fun heq => absurd heq hdc⟩

/-- **What a step does to the quota of an occupant that stays.** -/
theorem Stepped.spare {k k' : Kernel D} {e : Event D} {o : Outcome}
    (h : Stepped L hal k c e k' o) (hlive : k.Live c) (htaken : takenSlot L k c e ≠ some d) :
    (k'.actors d).spare ≤ (k.actors d).spare ∧
      (d = c → ∀ call ret, IsCall e .spawn call → o.ret = some ret → 0 ≤ cInt ret →
        1 ≤ (k.actors d).spare ∧ (k'.actors d).spare + 1 ≤ (k.actors d).spare) := by
  have hfree : (k'.actors d).spare = (k.actors d).spare → (∀ call, ¬ IsCall e .spawn call) →
      (k'.actors d).spare ≤ (k.actors d).spare ∧
      (d = c → ∀ call ret, IsCall e .spawn call → o.ret = some ret → 0 ≤ cInt ret →
        1 ≤ (k.actors d).spare ∧ (k'.actors d).spare + 1 ≤ (k.actors d).spare) := by
    intro hsame hno
    exact ⟨Int.le_of_eq hsame, fun _ call _ hcall => absurd hcall (hno call)⟩
  have hother : ∀ {sys : Syscall} {call : Call}, IsCall e sys call → sys ≠ .spawn →
      ∀ call', ¬ IsCall e .spawn call' := by
    rintro sys call ⟨rfl, hdecode⟩ hne call' ⟨heq, hdecode'⟩
    cases heq
    rw [hdecode, Option.some.injEq] at hdecode'
    exact hne hdecode'
  have hswitch : ∀ {a : Actor}, a.spare = (k.actors c).spare →
      ((scheduleNext (k.setActor c a)).actors d).spare = (k.actors d).spare := fun ha =>
    (scheduleNext_spare _ d).trans (update_spare rfl ha d)
  cases h with
  | tick => exact hfree (hswitch (by rfl)) (by simp [IsCall])
  | yield hcall => exact hfree (hswitch (by rfl)) (hother hcall (by decide))
  | exit hcall => exact hfree (hswitch (by rfl)) (hother hcall (by decide))
  | @send _ call hcall =>
      refine hfree ?_ (hother hcall (by decide))
      rcases actorSend_cases k c (cInt call.a1) call.a2 call.a3 with heq | ⟨i, _, _, _, _, heq⟩
      · rw [heq]
      · rw [heq]
        exact update_spare rfl (by rfl) d
  | receive out hcall =>
      refine hfree ?_ fun call hspawn => ?_
      · rcases sysReceive_cases k c out with ⟨_, heq⟩ | ⟨_, heq⟩
        · rw [heq]
          exact hswitch (by rfl)
        · rw [heq]
          exact update_spare rfl (by rfl) d
      · rcases hcall with ⟨call', hcall', _⟩ | ⟨rfl, _⟩
        · exact hother hcall' (by decide) call hspawn
        · cases hspawn.1
  | @grant _ call hcall =>
      refine hfree ?_ (hother hcall (by decide))
      rcases actorDelegate_cases k c (cInt call.a1) (cInt call.a2) (cInt call.a3) with
        heq | ⟨i, _, _, heq⟩
      · rw [heq]
      · rw [heq, actorAddCap_fst]
        exact update_spare rfl (by rfl) d
  | @spawn _ call hcall =>
      have htaken' : childTaken L k c call.a1.toNat ≠ some d := by
        obtain ⟨rfl, hdecode⟩ := hcall
        simpa only [takenSlot, hdecode] using htaken
      obtain ⟨hle, hpaid⟩ := (actorSpawnChild_spec L k hlive call.a1.toNat).1.spare htaken'
      refine ⟨hle, fun hd call' ret _ hret hpos => hpaid hd fun hnone => ?_⟩
      have hfailed : slotRet (actorSpawnChild L k c call.a1.toNat).2 = ret := Option.some.inj hret
      rw [hnone] at hfailed
      rw [← hfailed] at hpos
      exact absurd hpos (by decide)
  | @spawnProgram _ call hcall hcap =>
      have htaken' : loaderTaken L k c (cInt call.a1) ≠ some d := by
        obtain ⟨rfl, hdecode⟩ := hcall
        simpa only [takenSlot, hdecode, if_pos hcap] using htaken
      obtain ⟨hle, -⟩ := (loaderSpawnProgram_spec L k hlive (cInt call.a1)).1.spare htaken'
      exact ⟨hle, fun _ call' _ hspawn => absurd hspawn (hother hcall (by decide) call')⟩
  | @terminate _ call hcall =>
      refine hfree ?_ (hother hcall (by decide))
      rcases actorTerminate_cases k c (cInt call.a1) with heq | ⟨i, _, _, _, heq⟩
      · rw [heq]
      · rw [heq]
        exact update_spare rfl (by rfl) d
  | @createName _ call hcall hcap =>
      refine hfree ?_ (hother hcall (by decide))
      rcases sysCreateName_cases k c (userBytes k c call.a1) with ⟨_, heq⟩ | ⟨_, heq⟩
      · rw [heq]
        rfl
      · rw [heq]
        exact update_spare rfl (by rfl) d
  | programDenied hcall | createDenied hcall => exact hfree rfl (hother hcall (by decide))
  | quietCall hcall hquiet hstep =>
      refine hfree ?_ (hother hcall (Syscall.ne_of_quiet hquiet rfl))
      rw [hstep.actors]
  | unknown hdecode =>
      refine hfree rfl fun call hcall => ?_
      obtain ⟨heq, hspawn⟩ := hcall
      cases heq
      rw [hdecode] at hspawn
      cases hspawn
  | store | device | fault => exact hfree rfl (by simp [IsCall])

/-- The table of somebody else changes only by a `SYS_GRANT`, by one pair. -/
theorem StepOf.tables_other (h : StepOf L hal t c) (hd : d ≠ c)
    (htaken : takenSlot L t.pre.kernel c t.event ≠ some d) :
    t.post.kernel.tables d = t.pre.kernel.tables d ∨
      (t.event.calls .grant = true ∧
        ∃ x, t.post.kernel.tables d = fill Capability.vacant (t.pre.kernel.tables d) x) := by
  rw [h.stepped.tables h.live]
  by_cases hgrant : ∃ call, IsCall t.event .grant call
  · obtain ⟨call, hevent, hdecode⟩ := hgrant
    have hchanges : capChanges L t.pre.kernel c t.event =
        grantChanges t.pre.kernel c (cInt call.a1) (cInt call.a2) (cInt call.a3) := by
      rw [hevent, capChanges]
      simp only [hdecode]
    rw [hchanges, grantChanges]
    split
    · exact Or.inl rfl
    · rename_i i hi
      split
      · by_cases hdi : d = i
        · subst hdi
          refine Or.inr ⟨?_, ⟨cInt call.a2, cInt call.a3⟩, ?_⟩
          · rw [hevent, Event.calls, hdecode]
            rfl
          · exact Function.update_self ..
        · exact Or.inl (Function.update_of_ne hdi ..)
      · exact Or.inl rfl
  · refine Or.inl (applyAll_other fun change hchange heq => ?_)
    cases change with
    | clear i =>
        have hi : i = d := heq
        subst hi
        exact htaken ((h.clear_mem i).mp hchange)
    | put i x =>
        have hi : i = d := heq
        subst hi
        rcases put_mem_capChanges h.live hchange with
          ⟨call, hcall, -, -⟩ | ⟨j, hj, ⟨hself, -⟩ | ⟨rfl, -⟩⟩ | ⟨hself, -⟩
        · exact hgrant ⟨call, hcall⟩
        · exact hd hself
        · exact htaken hj
        · exact hd hself

/-- The free places of a table. -/
def room (caps : List Capability) : Nat := caps.countP Capability.vacant

theorem hasRoom_of_pos {caps : List Capability} (h : 0 < room caps) : HasRoom caps := by
  obtain ⟨x, hx, hvacant⟩ := List.countP_pos_iff.mp h
  exact ⟨x, hx, hvacant⟩

/-- A new pair takes one place at the most. -/
theorem room_fill (caps : List Capability) (x : Capability) :
    room caps ≤ room (fill Capability.vacant caps x) + 1 := by
  by_cases hx : x.vacant = false
  · have hcount : room (fill Capability.vacant caps x) = room caps - 1 := countP_fill hx
    omega
  · unfold room fill
    split
    · rename_i i hi
      obtain ⟨hlt, hvacant, -⟩ := List.findIdx?_eq_some_iff_getElem.mp hi
      rw [List.countP_set hlt, if_pos hvacant, if_pos (by simpa using hx)]
      omega
    · omega

def senderHome : Slot := ⟨5, by decide⟩
def shellHome : Slot := ⟨14, by decide⟩

/-- How often an occupant can still delegate. -/
def Program.allowance (p : Program) (a : Actor) : Nat :=
  match p with
  | .sender => 1
  | .shell spawned => (spawned + a.spare.toNat) / 2
  | _ => 0

/-- How often the actors outside the pipeline can still delegate. -/
def allowance (s : PipelineState D) : Nat :=
  (s.program senderHome).allowance (s.kernel.actors senderHome) +
    (s.program shellHome).allowance (s.kernel.actors shellHome)

/-- The bodies outside the pipeline that delegate. -/
def Program.delegates : Program → Bool
  | .sender | .shell _ => true
  | _ => false

/-- Only the two that `kernel_main` has started can delegate, four times at the most, and
there is room for that in the table of an Inspector that Scanner has just spawned. -/
structure GrantBudget (s : PipelineState D) : Prop where
  grantors : ∀ d, (s.program d).delegates = true → d = senderHome ∨ d = shellHome
  few : allowance s ≤ 4
  fits : ∀ i id (d : Slot) pc, s.program scannerHome = .scanner (.granting i id (d : Nat)) →
    s.kernel.Live d → s.program d = .inspector pc → allowance s < room (s.kernel.tables d)

theorem GrantBudget.roomy {s : PipelineState D} (h : GrantBudget s) : Roomy s :=
  fun i id d pc hpc hlive hprogram =>
    hasRoom_of_pos (Nat.zero_lt_of_lt (h.fits i id d pc hpc hlive hprogram))

theorem Program.allowance_mono {p : Program} {a a' : Actor} (h : a'.spare ≤ a.spare) :
    p.allowance a' ≤ p.allowance a := by
  cases p with
  | shell spawned =>
      dsimp only [allowance]
      omega
  | other | sender | downloader | inspector | scanner | reader => exact Nat.le_refl _

theorem Program.allowance_of_not {p : Program} (h : p.delegates = false) (a : Actor) :
    p.allowance a = 0 := by
  cases p with
  | sender | shell => cases h
  | other | downloader | inspector | scanner | reader => rfl

/-- A body that does not delegate never comes to. -/
theorem Program.after_delegates {p : Program} {e : Event D} {o : Outcome}
    (h : p.delegates = false) : (p.after e o).delegates = false := by
  rw [Program.after]
  cases o.ret with
  | none => exact h
  | some ret =>
      dsimp only
      split
      · exact h
      · cases p with
        | sender | shell => cases h
        | other | downloader | inspector | scanner | reader => rfl

/-- A delegation by an actor outside the pipeline. -/
def GrantsOutside (t : PipelineRecord D) (c : Slot) : Prop :=
  t.event.calls .grant = true ∧ (t.pre.program c).request = none

/-- `SYS_GRANT` returns, and is allowed to the two that delegate. -/
theorem StepOf.delegation (h : StepOf L hal t c) (hgrant : GrantsOutside t c) :
    (∃ ret, t.outcome.ret = some ret) ∧ t.event.calls .write = false ∧
      (t.pre.program c).grants = true := by
  obtain ⟨hcalls, hnone⟩ := hgrant
  cases hevent : t.event with
  | syscall call =>
      rw [hevent, Event.calls, decide_eq_true_eq] at hcalls
      refine ⟨?_, ?_, ?_⟩
      · have hresult := congrArg (fun r => (r.2 : Outcome).ret) (h.dispatch ⟨hevent, hcalls⟩)
        exact ⟨_, hresult.symm⟩
      · rw [Event.calls, hcalls]
        rfl
      · have hallows := h.allows
        rw [hevent, Program.Allows, hnone] at hallows
        exact hallows hcalls
  | tick | resume | store | device | fault =>
      rw [hevent] at hcalls
      cases hcalls

/-- A successful spawn in the shell's body is paid for out of its quota. -/
theorem StepOf.paid (h : StepOf L hal t c) {ret : Word} (hspawn : t.event.calls .spawn = true)
    (hret : t.outcome.ret = some ret) (hpos : 0 ≤ cInt ret) :
    1 ≤ (t.pre.kernel.actors c).spare ∧
      (t.post.kernel.actors c).spare + 1 ≤ (t.pre.kernel.actors c).spare := by
  have htaken : takenSlot L t.pre.kernel c t.event ≠ some c := fun htaken =>
    h.taken_ne htaken rfl
  cases hevent : t.event with
  | syscall call =>
      rw [hevent, Event.calls, decide_eq_true_eq] at hspawn
      exact (h.stepped.spare h.live htaken).2 rfl call ret ⟨hevent, hspawn⟩ hret hpos
  | tick | resume | store | device | fault =>
      rw [hevent] at hspawn
      cases hspawn

/-- **The allowance of one slot.** -/
theorem StepOf.allowance_slot (h : StepOf L hal t c) (d : Slot) :
    (t.post.program d).allowance (t.post.kernel.actors d) ≤
        (t.pre.program d).allowance (t.pre.kernel.actors d) ∧
      (d = c → GrantsOutside t c → (t.post.program d).allowance (t.post.kernel.actors d) + 1 ≤
        (t.pre.program d).allowance (t.pre.kernel.actors d)) := by
  by_cases htaken : takenSlot L t.pre.kernel c t.event = some d
  · have hchild : (t.post.program d).delegates = false := by
      rw [h.program, nextProgram_taken htaken]
      cases t.pre.program c <;> rfl
    rw [Program.allowance_of_not hchild]
    exact ⟨Nat.zero_le _, fun hd => absurd hd (h.taken_ne htaken)⟩
  obtain ⟨hspare, -⟩ := h.stepped.spare h.live htaken
  by_cases hd : d = c
  swap
  · rw [h.program_other hd htaken]
    exact ⟨Program.allowance_mono hspare, fun hdc => absurd hdc hd⟩
  subst hd
  rw [h.program, nextProgram_self htaken]
  cases hp : t.pre.program d with
  | other | downloader | inspector | scanner | reader =>
      refine ⟨?_, fun _ hgrant => ?_⟩
      · rw [Program.allowance_of_not (Program.after_delegates rfl)]
        exact Nat.zero_le _
      · have hgrants := (h.delegation hgrant).2.2
        rw [hp] at hgrants
        cases hgrants
  | sender =>
      refine ⟨?_, fun _ hgrant => ?_⟩
      · cases hret : t.outcome.ret with
        | none =>
            rw [after_silent hret]
            exact Nat.le_refl _
        | some ret =>
            simp only [Program.after, hret, Program.answer]
            split
            · exact Nat.le_refl _
            · split
              · exact Nat.zero_le _
              · exact Nat.le_refl _
      · obtain ⟨⟨ret, hret⟩, hprint, -⟩ := h.delegation hgrant
        simp only [Program.after, hret, hprint, Program.answer, hgrant.1, if_true, Bool.false_eq_true,
          if_false]
        exact Nat.le_refl _
  | shell spawned =>
      have hsame := Program.allowance_mono (p := .shell spawned) hspare
      refine ⟨?_, fun _ hgrant => ?_⟩
      · cases hret : t.outcome.ret with
        | none =>
            rw [after_silent hret]
            exact hsame
        | some ret =>
            simp only [Program.after, hret, Program.answer]
            split
            · exact hsame
            · split
              · dsimp only [Program.allowance]
                omega
              · split
                · rename_i hspawn
                  obtain ⟨hleft, hpaid⟩ := h.paid hspawn.1 hret hspawn.2
                  dsimp only [Program.allowance]
                  omega
                · exact hsame
      · obtain ⟨⟨ret, hret⟩, hprint, hallowed⟩ := h.delegation hgrant
        rw [hp, Program.grants, decide_eq_true_eq] at hallowed
        simp only [Program.after, hret, hprint, Program.answer, hgrant.1, if_true, Bool.false_eq_true,
          if_false]
        dsimp only [Program.allowance]
        omega

theorem Program.delegates_of_grants {p : Program} (h : p.grants = true) : p.delegates = true := by
  cases p with
  | sender | shell => rfl
  | other | downloader | inspector | scanner | reader => cases h

/-- Nobody comes to delegate who did not. -/
theorem StepOf.delegates_before (h : StepOf L hal t c) (hd : (t.post.program d).delegates = true) :
    (t.pre.program d).delegates = true := by
  by_cases htaken : takenSlot L t.pre.kernel c t.event = some d
  · rw [h.program, nextProgram_taken htaken] at hd
    cases hc : t.pre.program c <;> rw [hc] at hd <;> cases hd
  by_cases hdc : d = c
  · subst hdc
    by_contra hnot
    rw [h.program, nextProgram_self htaken,
      Program.after_delegates (Bool.eq_false_of_not_eq_true hnot)] at hd
    cases hd
  · rwa [h.program_other hdc htaken] at hd

/-- **The allowance of the two together.** -/
theorem GrantBudget.allowance_step (hs : GrantBudget t.pre) (h : StepOf L hal t c) :
    allowance t.post ≤ allowance t.pre ∧
      (GrantsOutside t c → allowance t.post + 1 ≤ allowance t.pre) := by
  obtain ⟨hsender, hsenderPays⟩ := h.allowance_slot senderHome
  obtain ⟨hshell, hshellPays⟩ := h.allowance_slot shellHome
  unfold allowance
  refine ⟨by omega, fun hgrant => ?_⟩
  have hdelegates := Program.delegates_of_grants (h.delegation hgrant).2.2
  rcases hs.grantors c hdelegates with rfl | rfl
  · have hpays := hsenderPays rfl hgrant
    omega
  · have hpays := hshellPays rfl hgrant
    omega

/-- The table of a new actor. -/
theorem ChildSpawn.child_room {k k' : Kernel D} {result : Option Slot}
    (h : ChildSpawn k c k' (some d) result) : 19 ≤ room (k'.tables d) := by
  cases h with
  | aborted _ cr3 page entry _ _ h =>
      rw [Kernel.tables, h, Function.update_self]
      dsimp only [freshActor]
      decide
  | spawned _ cr3 page entry _ _ hchild =>
      rw [Kernel.tables, hchild]
      exact Nat.le_of_eq
        (by simp [room, Capability.vacant, Capability.empty, capSend, maxCapsPerActor])

theorem StepOf.child_room (h : StepOf L hal t c) (hmade : Made t .spawn)
    (htaken : takenSlot L t.pre.kernel c t.event = some d) : 19 ≤ room (t.post.kernel.tables d) := by
  obtain ⟨call, hcall, -⟩ := hmade.isCall (by simp)
  have hresult := h.dispatch hcall
  simp only [SysResult.finish, Request.syscall, syscallDispatch, SysResult.value, commitOut_nil,
    Prod.mk.injEq] at hresult
  have hspawn := (actorSpawnChild_spec L t.pre.kernel h.live call.a1.toNat).1
  have hchild : childTaken L t.pre.kernel c call.a1.toNat = some d := by
    obtain ⟨hevent, hdecode⟩ := hcall
    rw [hevent, takenSlot] at htaken
    simpa only [hdecode, Request.syscall] using htaken
  rw [hresult.1, hchild] at hspawn
  exact hspawn.child_room

/-- A body other than Scanner's delegates nothing. -/
theorem Program.request_grant {p : Program} {r : Request} (h : p.request = some r)
    (hr : r.syscall = .grant) : p.role = .scanner := by
  cases p with
  | other | sender | shell => cases h
  | downloader pc => cases pc <;> cases h <;> cases hr
  | inspector pc => cases pc <;> cases h <;> cases hr
  | scanner pc => rfl
  | reader pc => cases pc <;> cases h <;> cases hr

/-- The free places of an Inspector's table, in a step of somebody else than Scanner. -/
theorem StepOf.room_other (h : StepOf L hal t c) (hs : GrantBudget t.pre)
    (hscanner : (t.pre.program c).role ≠ .scanner) (hd : d ≠ c)
    (htaken : takenSlot L t.pre.kernel c t.event ≠ some d)
    (hfits : allowance t.pre < room (t.pre.kernel.tables d)) :
    allowance t.post < room (t.post.kernel.tables d) := by
  obtain ⟨hle, hpays⟩ := hs.allowance_step h
  rcases h.tables_other hd htaken with hsame | ⟨hgrant, x, hfill⟩
  · rw [hsame]
    omega
  · have hroom := room_fill (t.pre.kernel.tables d) x
    rw [hfill]
    cases hr : (t.pre.program c).request with
    | none =>
        have hpaid := hpays ⟨hgrant, hr⟩
        omega
    | some r =>
        exfalso
        cases hevent : t.event with
        | syscall call =>
            rw [hevent, Event.calls, decide_eq_true_eq] at hgrant
            rcases h.call hr ⟨hevent, hgrant⟩ with hwrite | ⟨hsys, -⟩
            · cases hwrite
            · exact hscanner (Program.request_grant hr hsys.symm)
        | tick | resume | store | device | fault =>
            rw [hevent] at hgrant
            cases hgrant

/-- Scanner comes to its grant from its spawn. -/
theorem ScannerPc.answer_granting {o : Outcome} {ret : Word} {pc : ScannerPc} {i : Nat}
    {id w : Int} (h : pc.answer o ret = .granting i id w) :
    pc = .spawning i id ∧ cInt ret = w := by
  cases pc with
  | spawning i' id' =>
      rw [answer] at h
      split at h
      · rw [turn] at h
        split at h <;> cases h
      · cases h
        exact ⟨rfl, rfl⟩
  | receiving | judging =>
      rw [answer] at h
      split at h
      · first
          | cases h
          | split at h <;> cases h
      · cases h
  | promoting =>
      rw [answer] at h
      split at h <;> cases h
  | acking =>
      rw [answer, turn] at h
      split at h <;> cases h
  | granting | tasking | rejecting | reporting | exiting => cases h

/-- An Inspector is one before its own step, and does not change a table in it. -/
theorem StepOf.inspector_before {pc : InspectorPc} (h : StepOf L hal t c)
    (hprogram : t.post.program c = .inspector pc) :
    ∃ pc' : InspectorPc, t.pre.program c = .inspector pc' ∧
      (t.pre.program c).request = some pc'.request ∧ pc'.request.syscall ≠ .spawn ∧
      pc'.request.syscall ≠ .grant := by
  have htaken : takenSlot L t.pre.kernel c t.event ≠ some c := fun htaken =>
    h.taken_ne htaken rfl
  have hrole := h.role_same htaken
  rw [hprogram] at hrole
  cases hpre : t.pre.program c with
  | other | sender | shell | downloader | scanner | reader =>
      rw [hpre] at hrole
      cases hrole
  | inspector pc' =>
      refine ⟨pc', rfl, rfl, ?_⟩
      cases pc' with
      | receiving | reading | sending | exiting => exact ⟨by simp [InspectorPc.request,
          Request.syscall], by simp [InspectorPc.request, Request.syscall]⟩

/-- **No step uses up the room.** -/
theorem GrantBudget.step (hs : GrantBudget t.pre) (hauth : Authority t.pre)
    (h : StepOf L hal t c) : GrantBudget t.post := by
  obtain ⟨hle, -⟩ := hs.allowance_step h
  refine ⟨fun d hd => hs.grantors d (h.delegates_before hd), hle.trans hs.few,
    fun i id d pc hpc hlive hprogram => ?_⟩
  have hscanner : (t.post.program scannerHome).role = .scanner := by rw [hpc]; rfl
  have hne : d ≠ scannerHome := by
    rintro rfl
    rw [hpc] at hprogram
    cases hprogram
  by_cases hrole : (t.pre.program c).role = .scanner
  swap
  · obtain ⟨hhere, htaken, -⟩ := h.home_other hscanner rfl hrole
    rw [h.program_other hhere htaken] at hpc
    by_cases htaken' : takenSlot L t.pre.kernel c t.event = some d
    · rw [h.program, nextProgram_taken htaken'] at hprogram
      cases hc : t.pre.program c <;> rw [hc] at hprogram <;> cases hprogram
      rw [hc] at hrole
      exact absurd rfl hrole
    have hlive' := h.live_before htaken' hlive
    by_cases hd : d = c
    · subst hd
      obtain ⟨pc', hpc', hr, hspawn, hgrant⟩ := h.inspector_before hprogram
      rw [h.tables_same hr hspawn hgrant]
      exact hle.trans_lt (hs.fits i id d pc' hpc hlive' hpc')
    · rw [h.program_other hd htaken'] at hprogram
      exact h.room_other hs hrole hd htaken' (hs.fits i id d pc hpc hlive' hprogram)
  obtain rfl := hauth.scanner c hrole
  cases hpre : t.pre.program scannerHome with
  | other | sender | shell | downloader | inspector | reader =>
      rw [hpre] at hrole
      cases hrole
  | scanner pc₀ =>
      have hr : (t.pre.program scannerHome).request = some pc₀.request := by rw [hpre]; rfl
      rcases h.body hr with hcalm | ⟨ret, hret, hmade, hanswer⟩
      · have htaken : takenSlot L t.pre.kernel scannerHome t.event ≠ some d := by
          rw [hcalm.taken]
          simp
        rw [hcalm.tables h]
        exact hle.trans_lt (hs.fits i id d pc (hcalm.program.symm.trans hpc)
          (h.live_before htaken hlive) ((h.program_other hne htaken).symm.trans hprogram))
      · rw [hpc, hpre] at hanswer
        obtain ⟨rfl, hslot⟩ := ScannerPc.answer_granting (Program.scanner.inj hanswer).symm
        rcases h.spawned hmade hret with ⟨hfailed, -⟩ | ⟨d', hslot', htaken⟩
        · omega
        · obtain rfl : d' = d := Fin.ext (by omega)
          have hroom := h.child_room hmade htaken
          have hfew := hs.few
          omega

/-- The largest quota of `kernel_main` is the shell's. -/
theorem setupState_quota (L : Layout) (b : Boot D) (n : Nat) (d : Slot) :
    ((setupState L b n).actors d).spawnQuota ≤ 6 := by
  refine setupState_induction (P := fun k => ∀ d, (k.actors d).spawnQuota ≤ 6) ?_ ?_ n d
  · intro d
    change deadActor.spawnQuota ≤ 6
    decide
  · intro k op hop hk d
    have hset : ∀ {i : Slot} {a : Actor}, a.spawnQuota ≤ 6 →
        ((k.setActor i a).actors d).spawnQuota ≤ 6 := by
      intro i a ha
      by_cases hd : d = i
      · rw [hd, setActor_actors, Function.update_self]
        exact ha
      · rw [setActor_actors, Function.update_of_ne hd]
        exact hk d
    cases op with
    | spawn entry =>
        rcases actorSpawn_actors L k entry with ⟨-, hkeep⟩ | ⟨i, cr3, page, -, -, hupd⟩
        · rw [setupStep, hkeep]
          exact hk d
        · rw [setupStep, hupd]
          by_cases hd : d = i
          · rw [hd, Function.update_self]
            change maxSpawnsPerActor ≤ 6
            decide
          · rw [Function.update_of_ne hd]
            exact hk d
    | createObject name | seedObject name bytes => exact hk d
    | grant dest right target =>
        rw [setupStep, actorGrant]
        cases slotOf dest with
        | none => exact hk d
        | some i =>
            dsimp only
            rw [actorAddCap_fst]
            exact hset (hk i)
    | setSpawnQuota slot quota =>
        have hquota : quota = 6 := by
          simp only [kernelMainOps, List.mem_append, List.mem_map, List.mem_cons, reduceCtorEq,
            and_false, exists_false, false_or, List.not_mem_nil, or_false,
            SetupOp.setSpawnQuota.injEq] at hop
          exact hop.2
        rw [setupStep, actorSetSpawnQuota]
        cases slotOf slot with
        | none => exact hk d
        | some i => exact hset (Int.le_of_eq hquota)
    | setWindow slot win =>
        rw [setupStep, actorSetWindow]
        cases slotOf slot with
        | none => exact hk d
        | some i => exact hset (hk i)

/-- Nobody has spawned anything at boot. -/
theorem bootState_spare (L : Layout) (b : Boot D) (d : Slot) :
    ((bootState L b).actors d).spare ≤ 6 := by
  rw [bootState, schedulerStart, scheduleNext_spare]
  have hquota := setupState_quota L b (kernelMainOps b).length d
  have hcount := (setUp_unspent L b (kernelMainOps b)).2 d
  rw [← kernelMain_eq_setupState] at hquota
  have hcount' : ((kernelMain L b).actors d).spawnCount = 0 := hcount
  rw [Actor.spare, hcount']
  omega

/-- Who delegates at boot. -/
theorem slotProgram_grantors : ∀ d : Slot,
    ((slotProgram d).delegates = true → d = senderHome ∨ d = shellHome) := by
  decide

/-- There is room at boot. -/
theorem GrantBudget.boot (L : Layout) (b : Boot D) : GrantBudget (pipelineBoot L b) := by
  have hkernel : (pipelineBoot L b).kernel = bootState L b := by rw [pipelineBoot]
  have hprogram := pipelineBoot_program_cases L b
  refine ⟨fun d hd => ?_, ?_, fun i id d pc hpc => ?_⟩
  · rcases hprogram d with hloaded | hother
    · rw [hloaded] at hd
      exact slotProgram_grantors d hd
    · rw [hother] at hd
      cases hd
  · have hsender : ((pipelineBoot L b).program senderHome).allowance
        ((pipelineBoot L b).kernel.actors senderHome) ≤ 1 := by
      rcases hprogram senderHome with heq | heq <;> rw [heq]
      · exact Nat.le_refl 1
      · exact Nat.zero_le 1
    have hshell : ((pipelineBoot L b).program shellHome).allowance
        ((pipelineBoot L b).kernel.actors shellHome) ≤ 3 := by
      rcases hprogram shellHome with heq | heq <;> rw [heq]
      · have hspare := bootState_spare L b shellHome
        rw [hkernel]
        change (0 + ((bootState L b).actors shellHome).spare.toNat) / 2 ≤ 3
        omega
      · exact Nat.zero_le 3
    rw [allowance]
    omega
  · rcases hprogram scannerHome with heq | heq <;> rw [heq] at hpc <;> cases hpc

end Vajra
