import Vajra.ActorOperations

/-!
# The scheduler invariant

Between two steps of the machine the slot `current` is the only running one, no
actor sleeps on a full mailbox, and the machine has halted only if every live
actor is asleep (`SchedInv`).  The invariant is broken only inside
`schedule_next`, between the moment the old actor gives up the processor and the
moment the new one takes it, and `scheduleNext_sched` restores it.

A dead slot stays dead until an `actor_spawn` takes it, so it is not dispatched
in between.
-/

namespace Vajra

open TransitionTrace

variable {D : Type}

/-- The scheduler's invariant, between two steps. -/
structure SchedInv (k : Kernel D) : Prop where
  running : k.mode = .running →
    ∃ c, k.current = some c ∧ ∀ s, (k.actors s).state = .running ↔ s = c
  blocked : ∀ s, (k.actors s).state = .blocked → (k.actors s).mailboxCount = 0
  halted : k.mode = .halted → ∀ s, k.Live s → (k.actors s).state = .blocked

/-- The invariant inside `schedule_next`: nobody has the processor. -/
structure Released (k : Kernel D) : Prop where
  mode : k.mode = .running
  idle : ∀ s, (k.actors s).state ≠ .running
  blocked : ∀ s, (k.actors s).state = .blocked → (k.actors s).mailboxCount = 0

theorem Reaped.mailboxCount {k k' : Kernel D} (h : Reaped k k') (s : Slot) :
    (k'.actors s).mailboxCount = (k.actors s).mailboxCount := by
  obtain ⟨p, hp⟩ := h.actor s
  rw [hp]

/-- **`schedule_next` restores the invariant.** -/
theorem scheduleNext_sched {k : Kernel D} (h : Released k) : SchedInv (scheduleNext k) := by
  have hreap := reapDeadActors_reaped k
  rcases scheduleNext_cases k with ⟨heq, hnone⟩ | ⟨next, a, hrun, ⟨ctx, rfl, _⟩, heq⟩
  · rw [heq]
    refine ⟨fun hmode => by simp at hmode, ?_, ?_⟩
    · intro s hs
      rw [hreap.state] at hs
      rw [hreap.mailboxCount]
      exact h.blocked s hs
    · intro _ s hs
      simp only [Kernel.Live, hreap.state] at hs ⊢
      have hs' := hnone s
      cases hstate : (k.actors s).state <;> simp_all [Runnable]
  · rw [heq]
    refine ⟨fun _ => ⟨next, rfl, ?_⟩, ?_, ?_⟩
    · intro s
      by_cases hs : s = next
      · subst hs
        simp
      · simp only [setActor_actors, Function.update_of_ne hs, hreap.state]
        exact iff_of_false (h.idle s) hs
    · intro s hs
      by_cases hsn : s = next
      · subst hsn
        simp at hs
      · simp only [setActor_actors, Function.update_of_ne hsn, hreap.state,
          hreap.mailboxCount] at hs ⊢
        exact h.blocked s hs
    · intro hmode
      simp only [setActor_mode, hreap.mode, h.mode] at hmode
      cases hmode

/-- The current actor gives up the processor. -/
theorem SchedInv.release {k : Kernel D} {c : Slot} {a : Actor} (h : SchedInv k)
    (hmode : k.mode = .running) (hcur : k.current = some c) (hstate : a.state ≠ .running)
    (hblocked : a.state = .blocked → a.mailboxCount = 0) : Released (k.setActor c a) := by
  obtain ⟨c', hc', honly⟩ := h.running hmode
  rw [hcur, Option.some.injEq] at hc'
  subst hc'
  refine ⟨hmode, ?_, ?_⟩
  · intro s
    by_cases hs : s = c
    · subst hs
      simpa using hstate
    · simp only [setActor_actors, Function.update_of_ne hs]
      exact fun hrun => hs ((honly s).mp hrun)
  · intro s
    by_cases hs : s = c
    · subst hs
      simpa using hblocked
    · simp only [setActor_actors, Function.update_of_ne hs]
      exact h.blocked s

/-- What the invariant needs to know about one slot of a step that keeps the
current actor: it is unchanged, it is dead or ready and was not running, or it is
the running slot of both states. -/
def SlotKept (a a' : Actor) : Prop :=
  (a'.state = a.state ∧ a'.mailboxCount = a.mailboxCount) ∨
  (a.state ≠ .running ∧ (a'.state = .dead ∨ a'.state = .ready)) ∨
  (a.state = .running ∧ a'.state = .running)

theorem SlotKept.of_eq {a a' : Actor} (h : a' = a) : SlotKept a a' := by
  subst h
  exact Or.inl ⟨rfl, rfl⟩

/-- A step that keeps the current actor keeps the invariant. -/
theorem SchedInv.kept {k k' : Kernel D} (h : SchedInv k) (hcur : k'.current = k.current)
    (hmode : k.mode = .running) (hmode' : k'.mode = k.mode)
    (hslots : ∀ s, SlotKept (k.actors s) (k'.actors s)) : SchedInv k' := by
  obtain ⟨c, hc, honly⟩ := h.running hmode
  refine ⟨fun _ => ⟨c, hcur.trans hc, fun s => ?_⟩, fun s hs => ?_, fun hh => ?_⟩
  · rw [← honly s]
    rcases hslots s with ⟨hst, _⟩ | ⟨hst, hst'⟩ | ⟨hst, hst'⟩
    · rw [hst]
    · rcases hst' with hd | hr <;> simp_all
    · simp_all
  · rcases hslots s with ⟨hst, hcount⟩ | ⟨_, hd | hr⟩ | ⟨_, hr⟩
    · rw [hcount]
      exact h.blocked s (hst ▸ hs)
    · simp [hd] at hs
    · simp [hr] at hs
    · simp [hr] at hs
  · rw [hmode', hmode] at hh
    cases hh

/-- A checked spawn keeps every slot. -/
theorem ChildSpawn.kept {k k' : Kernel D} {c : Slot} {taken result : Option Slot}
    (h : ChildSpawn k c k' taken result) (s : Slot) : SlotKept (k.actors s) (k'.actors s) := by
  cases h with
  | refused h => exact .of_eq (by rw [h])
  | aborted i cr3 page entry _ hdead h =>
      by_cases hs : s = i
      · subst hs
        exact Or.inr (Or.inl ⟨by simp [hdead], Or.inl (by simp [h])⟩)
      · exact .of_eq (by rw [h, Function.update_of_ne hs])
  | spawned i cr3 page entry _ hdead hchild hspawner hother =>
      by_cases hs : s = i
      · subst hs
        exact Or.inr (Or.inl ⟨by simp [hdead], Or.inr (by rw [hchild, freshActor])⟩)
      · by_cases hc : s = c
        · subst hc
          exact Or.inl ⟨by rw [hspawner], by rw [hspawner]⟩
        · exact .of_eq (hother s hs hc)

/-- Rewriting one record keeps every slot if it keeps that one. -/
theorem setActor_kept {k : Kernel D} {i : Slot} {a : Actor} (h : SlotKept (k.actors i) a)
    (s : Slot) : SlotKept (k.actors s) ((k.setActor i a).actors s) := by
  by_cases hs : s = i
  · subst hs
    simpa using h
  · exact .of_eq (by simp [hs])

/-- The current actor is alive. -/
theorem SchedInv.current_live {k : Kernel D} {c : Slot} (h : SchedInv k)
    (hmode : k.mode = .running) (hcur : k.current = some c) : k.Live c := by
  obtain ⟨c', hc', honly⟩ := h.running hmode
  rw [hcur, Option.some.injEq] at hc'
  subst hc'
  rw [Kernel.Live, (honly c).mpr rfl]
  exact fun hdead => ActorState.noConfusion hdead

/-- **Every step keeps the invariant.** -/
theorem step_sched {L : Layout} {hal : Hal D} {k k' : Kernel D} {e : Event D} {o : Outcome}
    (hinv : SchedInv k) (h : step L hal k e = some (k', o)) : SchedInv k' := by
  obtain ⟨c, hmode, hcur, hstepped⟩ := step_stepped h
  have hlive := hinv.current_live hmode hcur
  have hrunning : (k.actors c).state = .running := by
    obtain ⟨c', hc', honly⟩ := hinv.running hmode
    rw [hcur, Option.some.injEq] at hc'
    exact (honly c).mpr hc'
  have hsame : ∀ s, SlotKept (k.actors s) (k.actors s) := fun s => .of_eq rfl
  cases hstepped with
  | tick | yield => exact scheduleNext_sched (hinv.release hmode hcur (by simp) (by simp))
  | exit => exact scheduleNext_sched (hinv.release hmode hcur (by simp) (by simp))
  | @send _ call hcall =>
      rcases actorSend_cases k c (cInt call.a1) call.a2 call.a3 with
        heq | ⟨d, _, _, hlived, _, heq⟩
      · rw [heq]
        exact hinv
      · rw [heq]
        refine hinv.kept rfl hmode rfl (setActor_kept ?_)
        by_cases hb : (k.actors d).state = .blocked
        · exact Or.inr (Or.inl ⟨by simp [hb], Or.inr (by simp [enqueue, hb])⟩)
        · by_cases hr : (k.actors d).state = .running
          · exact Or.inr (Or.inr ⟨hr, by simp [enqueue, hr]⟩)
          · refine Or.inr (Or.inl ⟨hr, Or.inr ?_⟩)
            cases hstate : (k.actors d).state <;> simp_all [enqueue, Kernel.Live]
  | receive out _ =>
      rcases sysReceive_cases k c out with ⟨hempty, heq⟩ | ⟨_, heq⟩
      · rw [heq]
        exact scheduleNext_sched (hinv.release hmode hcur (by simp) (fun _ => hempty))
      · rw [heq]
        exact hinv.kept rfl hmode rfl
          (setActor_kept (Or.inr (Or.inr ⟨hrunning, by simp [dequeue, hrunning]⟩)))
  | @grant _ call hcall =>
      rcases actorDelegate_cases k c (cInt call.a1) (cInt call.a2) (cInt call.a3) with
        heq | ⟨d, _, _, heq⟩
      · rw [heq]
        exact hinv
      · rw [heq, actorAddCap_fst]
        exact hinv.kept rfl hmode rfl (setActor_kept (Or.inl ⟨rfl, rfl⟩))
  | @spawn _ call hcall =>
      obtain ⟨hspawn, hframe⟩ := actorSpawnChild_spec L k hlive call.a1.toNat
      exact hinv.kept hframe.current hmode hframe.mode hspawn.kept
  | @spawnProgram _ call hcall hcap =>
      obtain ⟨hspawn, hc, hm⟩ := loaderSpawnProgram_spec L k hlive (cInt call.a1)
      exact hinv.kept hc hmode hm hspawn.kept
  | @terminate _ call hcall =>
      rcases actorTerminate_cases k c (cInt call.a1) with heq | ⟨t, _, hne, _, heq⟩
      · rw [heq]
        exact hinv
      · rw [heq]
        refine hinv.kept rfl hmode rfl (setActor_kept (Or.inr (Or.inl ⟨?_, Or.inl rfl⟩)))
        obtain ⟨c', hc', honly⟩ := hinv.running hmode
        rw [hcur, Option.some.injEq] at hc'
        subst hc'
        exact fun hrun => hne ((honly t).mp hrun)
  | @createName _ call hcall hcap =>
      rcases sysCreateName_cases k c (userBytes k c call.a1) with ⟨_, heq⟩ | ⟨_, heq⟩
      · rw [heq]
        exact hinv.kept rfl hmode rfl hsame
      · rw [heq]
        exact hinv.kept rfl hmode rfl (setActor_kept (Or.inl ⟨rfl, rfl⟩))
  | programDenied | createDenied | unknown => exact hinv
  | quietCall _ _ hquiet =>
      exact hinv.kept hquiet.current hmode hquiet.mode (fun s => .of_eq (by rw [hquiet.actors]))
  | store | device => exact hinv.kept rfl hmode rfl hsame
  | fault =>
      exact ⟨fun hm => by simp at hm, hinv.blocked, fun hm => by simp at hm⟩

/-- No actor has run before `scheduler_start`. -/
structure NotStarted (k : Kernel D) : Prop where
  mode : k.mode = .running
  current : k.current = none
  state : ∀ s, (k.actors s).state = .dead ∨ (k.actors s).state = .ready

/-- No call of `kernel_main` runs an actor. -/
theorem NotStarted.setupStep {k : Kernel D} (hk : NotStarted k) (L : Layout) (op : SetupOp) :
    NotStarted (Vajra.setupStep L k op) := by
  have hset : ∀ {i : Slot} {a : Actor}, a.state = (k.actors i).state →
      NotStarted (k.setActor i a) := by
    intro i a ha
    refine ⟨hk.mode, hk.current, fun s => ?_⟩
    by_cases hs : s = i
    · subst hs
      simpa [ha] using hk.state s
    · simpa [hs] using hk.state s
  rcases setupStep_cases L k op with ⟨entry, _, heq⟩ | ⟨st, heq⟩ | ⟨d, right, target, _, heq⟩ |
    ⟨s, quota, win, heq⟩
  · rw [heq]
    have hframe := (actorSpawn_frame L k entry).1
    refine ⟨hframe.mode.trans hk.mode, hframe.current.trans hk.current, fun s => ?_⟩
    rcases actorSpawn_actors L k entry with ⟨_, hsame⟩ | ⟨i, cr3, page, _, _, hupd⟩
    · rw [hsame]
      exact hk.state s
    · rw [hupd]
      by_cases hs : s = i
      · subst hs
        exact Or.inr (by rw [Function.update_self, freshActor])
      · rw [Function.update_of_ne hs]
        exact hk.state s
  · rw [heq]
    exact ⟨hk.mode, hk.current, hk.state⟩
  · rw [heq]
    exact hset rfl
  · rw [heq]
    exact hset rfl

theorem setupState_notStarted (L : Layout) (b : Boot D) (n : Nat) :
    NotStarted (setupState L b n) :=
  setupState_induction (P := NotStarted) ⟨rfl, rfl, fun _ => Or.inl rfl⟩
    (fun _ op _ hk => hk.setupStep L op) n

/-- `scheduler_start` establishes the invariant. -/
theorem NotStarted.sched {k : Kernel D} (h : NotStarted k) : SchedInv (schedulerStart k) := by
  refine scheduleNext_sched ⟨h.mode, fun s => ?_, fun s hs => ?_⟩
  · rcases h.state s with h | h <;> simp [h]
  · rcases h.state s with h | h <;> simp [h] at hs

theorem bootState_sched (L : Layout) (b : Boot D) : SchedInv (bootState L b) := by
  have hstart := setupState_notStarted L b (kernelMainOps b).length
  rw [← kernelMain_eq_setupState] at hstart
  exact hstart.sched

theorem run_sched {L : Layout} {hal : Hal D} {b : Boot D} {tr : List (Record D)} {k : Kernel D}
    (h : Run L hal b tr k) : SchedInv k :=
  h.invariant (bootState_sched L b) fun _ _ _ _ hinv hstep => step_sched hinv hstep

/-- A step of a run is taken by the live current actor. -/
theorem Run.stepped {L : Layout} {hal : Hal D} {b : Boot D} {tr : List (Record D)}
    {k k' : Kernel D} {e : Event D} {o : Outcome} (h : Run L hal b tr k)
    (hstep : step L hal k e = some (k', o)) :
    ∃ c, k.mode = .running ∧ k.current = some c ∧ k.Live c ∧ Stepped L hal k c e k' o := by
  obtain ⟨c, hmode, hcur, hstepped⟩ := step_stepped hstep
  exact ⟨c, hmode, hcur, (run_sched h).current_live hmode hcur, hstepped⟩

end Vajra
