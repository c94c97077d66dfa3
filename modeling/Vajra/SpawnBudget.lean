import Vajra.SchedulerInvariant
import Mathlib.Algebra.Order.BigOperators.Group.Finset
import Mathlib.Data.Fintype.BigOperators

/-!
# The spawn budget

`actor_spawn_child` and `actor_spawn_program_child` count the children of an actor against its
quota, so that none can fork-bomb the system.  The count belongs to the occupant of a slot and
starts at 0 with every spawn, and `CAP_SPAWN` is a capability like any other: whoever holds it
may delegate it, also to its own child, and every new holder brings a quota of its own.

`remaining` is what an actor may still spawn.  Summed over all slots it pays for every spawn,
and only a delegation of `CAP_SPAWN` to a live actor that does not hold it can raise it.
-/

namespace Vajra

open TransitionTrace

variable {D : Type}

/-- The state a kernel leaves that makes the calls `ops` to set up its actors. -/
def setUp (L : Layout) (b : Boot D) (ops : List SetupOp) : Kernel D :=
  ops.foldl (setupStep L) (powerOn b)

/-- A `SYS_SPAWN` or `SYS_SPAWN_PROGRAM` that returned a slot. -/
def spawnSucceeded (r : Record D) : Bool :=
  match r.event with
  | .syscall call =>
      (Syscall.decode call.num = some .spawn ∨ Syscall.decode call.num = some .spawnProgram) ∧
        r.outcome.ret ≠ some (cRet (-1))
  | _ => false

/-- The step is a `SYS_GRANT` of `CAP_SPAWN` by an actor that holds it to a live one that does
not, with room in its table. -/
def SpreadsSpawn (r : Record D) : Prop :=
  match r.event with
  | .syscall call =>
      Syscall.decode call.num = some .grant ∧ cInt call.a2 = capSpawn ∧ cInt call.a3 = 0 ∧
        (∃ c ∈ r.pre.current, actorHasCap r.pre c capSpawn 0 = true) ∧
        ∃ d ∈ slotOf (cInt call.a1), r.pre.Live d ∧ actorHasCap r.pre d capSpawn 0 = false ∧
          ∃ x ∈ (r.pre.actors d).caps, x.vacant = true
  | _ => False

instance (r : Record D) : Decidable (SpreadsSpawn r) :=
  match h : r.event with
  | .syscall call =>
      decidable_of_iff (Syscall.decode call.num = some .grant ∧ cInt call.a2 = capSpawn ∧
        cInt call.a3 = 0 ∧ (∃ c ∈ r.pre.current, actorHasCap r.pre c capSpawn 0 = true) ∧
        ∃ d ∈ slotOf (cInt call.a1), r.pre.Live d ∧ actorHasCap r.pre d capSpawn 0 = false ∧
          ∃ x ∈ (r.pre.actors d).caps, x.vacant = true) (by simp only [SpreadsSpawn, h])
  | .tick | .resume | .store .. | .device .. | .fault => isFalse (by simp [SpreadsSpawn, h])

/-- How many children an actor may still spawn. -/
def remaining (a : Actor) : Nat :=
  if a.state ≠ .dead ∧ hasCap a.caps capSpawn 0 = true then (a.spawnQuota - a.spawnCount).toNat
  else 0

/-- What all actors together may still spawn. -/
def spawnBudget (k : Kernel D) : Nat := ∑ s : Slot, remaining (k.actors s)

theorem remaining_of_not_holds {a : Actor} (h : hasCap a.caps capSpawn 0 = false) :
    remaining a = 0 :=
  if_neg (by simp [h])

theorem remaining_of_dead {a : Actor} (h : a.state = .dead) : remaining a = 0 :=
  if_neg (by simp [h])

/-- An actor that was alive before, holds `CAP_SPAWN` only if it did, and has spawned no less. -/
theorem remaining_le {a a' : Actor} (hlive : a'.state ≠ .dead → a.state ≠ .dead)
    (hcap : hasCap a'.caps capSpawn 0 = true → hasCap a.caps capSpawn 0 = true)
    (hquota : a'.spawnQuota = a.spawnQuota) (hcount : a.spawnCount ≤ a'.spawnCount) :
    remaining a' ≤ remaining a := by
  unfold remaining
  split
  · next h =>
      rw [if_pos ⟨hlive h.1, hcap h.2⟩, hquota]
      omega
  · exact Nat.zero_le _

/-- Another pair in the table does not make an actor a holder of `CAP_SPAWN`. -/
theorem holds_of_addCapIfRoom {caps : List Capability} {op target : Int}
    (hother : (⟨op, target⟩ : Capability) ≠ ⟨capSpawn, 0⟩)
    (h : hasCap (addCapIfRoom caps op target) capSpawn 0 = true) : hasCap caps capSpawn 0 = true := by
  rw [hasCap_iff] at h ⊢
  rcases EntryTables.mem_fill h with hold | hnew
  · exact hold
  · exact absurd hnew.symm hother

theorem holds_of_creatorCaps {caps : List Capability} {id : Int}
    (h : hasCap (creatorCaps caps id) capSpawn 0 = true) : hasCap caps capSpawn 0 = true := by
  have hother : ∀ {op : Int}, op ≠ capSpawn → (⟨op, id⟩ : Capability) ≠ ⟨capSpawn, 0⟩ :=
    fun hne heq => hne (Capability.mk.inj heq).1
  have hdelete := holds_of_addCapIfRoom (hother (by decide)) h
  have hrename := holds_of_addCapIfRoom (hother (by decide)) hdelete
  have hwrite := holds_of_addCapIfRoom (hother (by decide)) hrename
  exact holds_of_addCapIfRoom (hother (by decide)) hwrite

/-- A grant raises what an actor may spawn only if it makes it a holder of `CAP_SPAWN`. -/
theorem grant_remaining {a : Actor} {op target : Int}
    (h : op = capSpawn → target = 0 → a.state ≠ .dead → hasCap a.caps capSpawn 0 = false →
      ¬ ∃ x ∈ a.caps, x.vacant = true) :
    remaining { a with caps := addCapIfRoom a.caps op target } ≤ remaining a := by
  by_cases hdead : a.state = .dead
  · have hzero : remaining { a with caps := addCapIfRoom a.caps op target } = 0 :=
      remaining_of_dead hdead
    exact hzero ▸ Nat.zero_le _
  refine remaining_le id (fun hcap => ?_) rfl (Int.le_refl _)
  by_cases hother : (⟨op, target⟩ : Capability) ≠ ⟨capSpawn, 0⟩
  · exact holds_of_addCapIfRoom hother hcap
  obtain ⟨rfl, rfl⟩ := Capability.mk.inj (not_not.mp hother)
  by_contra hnot
  have hfull := h rfl rfl hdead (Bool.eq_false_iff.mpr hnot)
  have hnone : a.caps.findIdx? Capability.vacant = none := by
    rw [List.findIdx?_eq_none_iff]
    intro x hx
    exact Bool.eq_false_iff.mpr fun hvacant => hfull ⟨x, hx, hvacant⟩
  simp only [addCapIfRoom, EntryTables.fill, hnone] at hcap
  exact hnot hcap

/-- The budget shrinks with the remainders. -/
theorem spawnBudget_le {k k' : Kernel D}
    (h : ∀ s, remaining (k'.actors s) ≤ remaining (k.actors s)) : spawnBudget k' ≤ spawnBudget k :=
  Finset.sum_le_sum fun s _ => h s

theorem spawnBudget_lt {k k' : Kernel D}
    (h : ∀ s, remaining (k'.actors s) ≤ remaining (k.actors s)) {c : Slot}
    (hc : remaining (k'.actors c) < remaining (k.actors c)) : spawnBudget k' < spawnBudget k :=
  Finset.sum_lt_sum (fun s _ => h s) ⟨c, Finset.mem_univ c, hc⟩

theorem setActor_remaining {k : Kernel D} {i : Slot} {a : Actor}
    (h : remaining a ≤ remaining (k.actors i)) (s : Slot) :
    remaining ((k.setActor i a).actors s) ≤ remaining (k.actors s) := by
  by_cases hs : s = i
  · subst hs
    simpa using h
  · simp [hs]

/-- The scheduler spends nothing. -/
theorem scheduleNext_remaining (k : Kernel D) (s : Slot) :
    remaining ((scheduleNext k).actors s) = remaining (k.actors s) := by
  obtain ⟨page, st, ctx, heq, hst, -⟩ := scheduleNext_actor k s
  rw [heq]
  rcases hst with rfl | ⟨hrun, rfl⟩
  · rfl
  · have hlive : (k.actors s).state ≠ .dead := by
      rcases hrun with hr | hr <;> simp [hr]
    simp [remaining, hlive]

/-- A spawn is paid for by the spawner, and the child cannot spawn. -/
theorem ChildSpawn.remaining {k k' : Kernel D} {c : Slot} {taken result : Option Slot}
    (h : ChildSpawn k c k' taken result) (hlive : k.Live c) :
    (∀ s, Vajra.remaining (k'.actors s) ≤ Vajra.remaining (k.actors s)) ∧
      (result ≠ none → Vajra.remaining (k'.actors c) < Vajra.remaining (k.actors c)) := by
  cases h with
  | refused h => exact ⟨fun s => by rw [h], fun hne => absurd rfl hne⟩
  | aborted i cr3 page entry _ _ h =>
      refine ⟨fun s => ?_, fun hne => absurd rfl hne⟩
      rw [h]
      by_cases hs : s = i
      · rw [hs, Function.update_self, remaining_of_dead rfl]
        exact Nat.zero_le _
      · rw [Function.update_of_ne hs]
  | spawned i cr3 page entry hmay hdead hchild hspawner hother =>
      have hspent : Vajra.remaining (k'.actors c) < Vajra.remaining (k.actors c) := by
        have hbefore : Vajra.remaining (k.actors c) =
            ((k.actors c).spawnQuota - (k.actors c).spawnCount).toNat := if_pos ⟨hlive, hmay.1⟩
        have hquota := hmay.2
        rw [hbefore, hspawner]
        unfold Vajra.remaining
        split
        · simp only
          omega
        · omega
      refine ⟨fun s => ?_, fun _ => hspent⟩
      by_cases hsi : s = i
      · have hnot : hasCap (k'.actors i).caps capSpawn 0 = false := by
          rw [hchild]
          simp [hasCap, capSend, capSpawn, Capability.empty]
        rw [hsi, remaining_of_not_holds hnot]
        exact Nat.zero_le _
      · by_cases hsc : s = c
        · rw [hsc]
          exact Nat.le_of_lt hspent
        · rw [hother s hsi hsc]

theorem spawnSucceeded_call {k k' : Kernel D} {e : Event D} {o : Outcome} {sys : Syscall}
    {call : Call} (h : IsCall e sys call) (hspawn : sys ≠ .spawn) (hprogram : sys ≠ .spawnProgram) :
    spawnSucceeded ⟨k, e, o, k'⟩ = false := by
  simp [spawnSucceeded, h.1, h.2, hspawn, hprogram]

/-- A spawn that succeeded returned a slot. -/
theorem spawnSucceeded_slot {k k' : Kernel D} {e : Event D} {result : Option Slot}
    (h : spawnSucceeded ⟨k, e, ⟨some (slotRet result), [], none⟩, k'⟩ = true) : result ≠ none := by
  rintro rfl
  cases e <;> simp [spawnSucceeded, slotRet] at h

/-- **One step.**  Every spawn that succeeds is paid for, and only a delegation of `CAP_SPAWN`
to a live actor that does not hold it raises the budget. -/
theorem Stepped.paid {L : Layout} {hal : Hal D} {k k' : Kernel D} {c : Slot} {e : Event D}
    {o : Outcome} (h : Stepped L hal k c e k' o) (hcur : k.current = some c) (hlive : k.Live c)
    (hspread : ¬ SpreadsSpawn ⟨k, e, o, k'⟩) :
    (if spawnSucceeded ⟨k, e, o, k'⟩ then 1 else 0) + spawnBudget k' ≤ spawnBudget k := by
  have hfree : spawnSucceeded ⟨k, e, o, k'⟩ = false →
      (∀ s, remaining (k'.actors s) ≤ remaining (k.actors s)) →
      (if spawnSucceeded ⟨k, e, o, k'⟩ then 1 else 0) + spawnBudget k' ≤ spawnBudget k := by
    intro hnone hle
    rw [hnone]
    simpa using spawnBudget_le hle
  have hsame : ∀ s, remaining (k.actors s) ≤ remaining (k.actors s) := fun s => Nat.le_refl _
  have hswitch : ∀ {a : Actor}, remaining a ≤ remaining (k.actors c) →
      ∀ s, remaining ((scheduleNext (k.setActor c a)).actors s) ≤ remaining (k.actors s) := by
    intro a ha s
    rw [scheduleNext_remaining]
    exact setActor_remaining ha s
  have hspawn : ∀ {taken result : Option Slot}, ChildSpawn k c k' taken result →
      o = ⟨some (slotRet result), [], none⟩ →
      (if spawnSucceeded ⟨k, e, o, k'⟩ then 1 else 0) + spawnBudget k' ≤ spawnBudget k := by
    intro taken result hchild ho
    obtain ⟨hle, hlt⟩ := hchild.remaining hlive
    split
    · next hsucceeded =>
        rw [ho] at hsucceeded
        have := spawnBudget_lt hle (hlt (spawnSucceeded_slot hsucceeded))
        omega
    · simpa using spawnBudget_le hle
  cases h with
  | tick => exact hfree rfl (hswitch (remaining_le (fun _ => hlive) id rfl (Int.le_refl _)))
  | yield h =>
      exact hfree (spawnSucceeded_call h (by decide) (by decide))
        (hswitch (remaining_le (fun _ => hlive) id rfl (Int.le_refl _)))
  | exit h =>
      refine hfree (spawnSucceeded_call h (by decide) (by decide)) (hswitch ?_)
      rw [remaining_of_dead rfl]
      exact Nat.zero_le _
  | @send _ call h =>
      refine hfree (spawnSucceeded_call h (by decide) (by decide)) ?_
      rcases actorSend_cases k c (cInt call.a1) call.a2 call.a3 with heq | ⟨d, -, -, hlived, -, heq⟩
      · rw [heq]
        exact hsame
      · rw [heq]
        exact setActor_remaining (remaining_le (fun _ => hlived) id rfl (Int.le_refl _))
  | receive out h =>
      have hnone : spawnSucceeded ⟨k, e, ((sysReceive k c out).finish c).2,
          ((sysReceive k c out).finish c).1⟩ = false := by
        rcases h with ⟨call, h, -⟩ | ⟨rfl, -⟩
        · exact spawnSucceeded_call h (by decide) (by decide)
        · rfl
      refine hfree hnone ?_
      rcases sysReceive_cases k c out with ⟨-, heq⟩ | ⟨-, heq⟩
      · rw [heq]
        exact hswitch (remaining_le (fun _ => hlive) id rfl (Int.le_refl _))
      · rw [heq]
        exact setActor_remaining (remaining_le id id rfl (Int.le_refl _))
  | @grant _ call h =>
      refine hfree (spawnSucceeded_call h (by decide) (by decide)) ?_
      obtain ⟨rfl, hdecode⟩ := h
      rcases actorDelegate_cases k c (cInt call.a1) (cInt call.a2) (cInt call.a3) with
        heq | ⟨d, hd, hcap, heq⟩
      · rw [heq]
        exact hsame
      · rw [heq, actorAddCap_fst]
        refine setActor_remaining (grant_remaining fun hop htarget hlived hnot hroom => ?_)
        rw [hop, htarget] at hcap
        exact hspread ⟨hdecode, hop, htarget, ⟨c, hcur, hcap⟩, d, hd, hlived, hnot, hroom⟩
  | @spawn _ call h => exact hspawn (actorSpawnChild_spec L k hlive call.a1.toNat).1 rfl
  | @spawnProgram _ call h hcap =>
      exact hspawn (loaderSpawnProgram_spec L k hlive (cInt call.a1)).1 rfl
  | @terminate _ call h =>
      refine hfree (spawnSucceeded_call h (by decide) (by decide)) ?_
      rcases actorTerminate_cases k c (cInt call.a1) with heq | ⟨t, -, -, -, heq⟩
      · rw [heq]
        exact hsame
      · rw [heq]
        refine setActor_remaining ?_
        rw [remaining_of_dead rfl]
        exact Nat.zero_le _
  | @createName _ call h hcap =>
      refine hfree (spawnSucceeded_call h (by decide) (by decide)) ?_
      rcases sysCreateName_cases k c (userBytes k c call.a1) with ⟨-, heq⟩ | ⟨-, heq⟩
      · rw [heq]
        exact hsame
      · rw [heq]
        exact setActor_remaining (remaining_le id holds_of_creatorCaps rfl (Int.le_refl _))
  | programDenied h => exact hfree (by simp [spawnSucceeded, h.1]) hsame
  | createDenied h => exact hfree (spawnSucceeded_call h (by decide) (by decide)) hsame
  | quietCall h hquiet hstep =>
      refine hfree (spawnSucceeded_call h (Syscall.ne_of_quiet hquiet rfl)
        (Syscall.ne_of_quiet hquiet rfl)) fun s => ?_
      rw [hstep.actors]
  | unknown h => exact hfree (by simp [spawnSucceeded, h]) hsame
  | store | device | fault => exact hfree rfl hsame

section Runs

variable {L : Layout} {hal : Hal D} {b : Boot D}

/-- No actor has spawned before `scheduler_start`. -/
theorem setUp_unspent (L : Layout) (b : Boot D) (ops : List SetupOp) :
    NotStarted (setUp L b ops) ∧ ∀ s, ((setUp L b ops).actors s).spawnCount = 0 := by
  refine List.foldlRecOn (motive := fun k => NotStarted k ∧ ∀ s, (k.actors s).spawnCount = 0) ops
    (setupStep L) ⟨⟨rfl, rfl, fun _ => Or.inl rfl⟩, fun _ => rfl⟩ ?_
  intro k hk op _
  refine ⟨hk.1.setupStep L op, fun s => ?_⟩
  have hset : ∀ {i : Slot} {a : Actor}, a.spawnCount = 0 →
      ((k.setActor i a).actors s).spawnCount = 0 := by
    intro i a ha
    by_cases hs : s = i
    · subst hs
      simpa using ha
    · simpa [hs] using hk.2 s
  rcases setupStep_cases L k op with ⟨entry, _, heq⟩ | ⟨st, heq⟩ | ⟨d, right, target, _, heq⟩ |
    ⟨i, quota, win, heq⟩
  · rw [heq]
    rcases actorSpawn_actors L k entry with ⟨_, hsame⟩ | ⟨i, cr3, page, _, _, hupd⟩
    · rw [hsame]
      exact hk.2 s
    · rw [hupd]
      exact hset (i := i) rfl
  · rw [heq]
    exact hk.2 s
  · rw [heq]
    exact hset (hk.2 d)
  · rw [heq]
    exact hset (hk.2 i)

end Runs

end Vajra
