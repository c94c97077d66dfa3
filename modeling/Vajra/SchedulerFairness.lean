import Vajra.SchedulerInvariant

/-!
# Round robin without starvation

`schedule_next` scans from the slot behind the current one and takes the first that is ready or
running, so a slot that has just run is the last it looks at.  Slots come and go between two
scans: they are spawned, blocked, woken, terminated, or exit.  What matters for a slot that is
ready all the time is only its gap to the current slot.  Each dispatch of another slot makes it
smaller (`scheduleNext_gap`), nothing else changes it, and a second dispatch of the same slot
would have to bring it back.
-/

namespace Vajra

open RoundRobin TransitionTrace

variable {D : Type}

/-- The event makes the current actor `c` call `schedule_next`: it is preempted or yields, it
exits, or it waits for a message. -/
def reschedules (k : Kernel D) (c : Slot) : Event D → Bool
  | .tick => true
  | .syscall call =>
      Syscall.decode call.num = some .yield ∨ Syscall.decode call.num = some .exit ∨
        (Syscall.decode call.num = some .receive ∧ (k.actors c).mailboxCount = 0)
  | .resume => (k.actors c).mailboxCount = 0
  | .store .. | .device .. | .fault => false

/-- The slot that `schedule_next` dispatches in this step, or leaves running. -/
def dispatchedSlot (r : Record D) : Option Slot :=
  match r.pre.current with
  | none => none
  | some c =>
      if reschedules r.pre c r.event ∧ r.post.mode = .running then r.post.current else none

/-- The run has just come from a dispatch of slot `a`, by `scheduler_start` or in its last
step. -/
def JustDispatched (L : Layout) (b : Boot D) (a : Slot) : List (Record D) → Prop
  | [] => (bootState L b).mode = .running ∧ (bootState L b).current = some a
  | r :: _ => dispatchedSlot r = some a

/-- From `k` on, the slot is ready until it is dispatched. -/
def ReadyUntilDispatched (s : Slot) (k : Kernel D) : List (Record D) → Prop
  | [] => (k.actors s).state = .ready
  | r :: tr => ReadyUntilDispatched s k tr ∧
      ((r.post.actors s).state = .ready ∨ ∃ q ∈ r :: tr, dispatchedSlot q = some s)

instance decidableReadyUntilDispatched (s : Slot) (k : Kernel D) :
    (tr : List (Record D)) → Decidable (ReadyUntilDispatched s k tr)
  | [] => inferInstanceAs (Decidable ((k.actors s).state = .ready))
  | r :: tr =>
      have := decidableReadyUntilDispatched s k tr
      inferInstanceAs (Decidable (ReadyUntilDispatched s k tr ∧
        ((r.post.actors s).state = .ready ∨ ∃ q ∈ r :: tr, dispatchedSlot q = some s)))

theorem reschedules_call {e : Event D} {sys : Syscall} {call : Call} (k : Kernel D) (c : Slot)
    (h : IsCall e sys call) (hyield : sys ≠ .yield) (hexit : sys ≠ .exit)
    (hreceive : sys ≠ .receive) : reschedules k c e = false := by
  simp [reschedules, h.1, h.2, hyield, hexit, hreceive]

/-- A step that calls `schedule_next` has changed only the record of the current actor before;
any other step keeps the current actor. -/
theorem Stepped.schedules {L : Layout} {hal : Hal D} {k k' : Kernel D} {c : Slot} {e : Event D}
    {o : Outcome} (h : Stepped L hal k c e k' o) (hlive : k.Live c) :
    (reschedules k c e = false ∧ k'.current = k.current) ∨
      (reschedules k c e = true ∧ ∃ a, k' = scheduleNext (k.setActor c a)) := by
  have hcall : ∀ {sys : Syscall} {call : Call}, IsCall e sys call → sys ≠ .yield → sys ≠ .exit →
      sys ≠ .receive → k'.current = k.current →
      (reschedules k c e = false ∧ k'.current = k.current) ∨
        (reschedules k c e = true ∧ ∃ a, k' = scheduleNext (k.setActor c a)) :=
    fun h hyield hexit hreceive hcur => Or.inl ⟨reschedules_call k c h hyield hexit hreceive, hcur⟩
  cases h with
  | tick => exact Or.inr ⟨rfl, _, rfl⟩
  | yield h => exact Or.inr ⟨by simp [reschedules, h.1, h.2], _, rfl⟩
  | exit h => exact Or.inr ⟨by simp [reschedules, h.1, h.2], _, rfl⟩
  | receive out h =>
      have hempty : reschedules k c e = decide ((k.actors c).mailboxCount = 0) := by
        rcases h with ⟨call, h, -⟩ | ⟨rfl, -⟩
        · simp [reschedules, h.1, h.2]
        · rfl
      rw [hempty]
      rcases sysReceive_cases k c out with ⟨hzero, heq⟩ | ⟨hsome, heq⟩
      · rw [heq]
        exact Or.inr ⟨decide_eq_true hzero, _, rfl⟩
      · rw [heq]
        exact Or.inl ⟨decide_eq_false hsome, rfl⟩
  | @send _ call h =>
      refine hcall h (by decide) (by decide) (by decide) ?_
      rcases actorSend_cases k c (cInt call.a1) call.a2 call.a3 with heq | ⟨d, -, -, -, -, heq⟩
      · rw [heq]
      · rw [heq]
        rfl
  | @grant _ call h =>
      refine hcall h (by decide) (by decide) (by decide) ?_
      rcases actorDelegate_cases k c (cInt call.a1) (cInt call.a2) (cInt call.a3) with
        heq | ⟨d, -, -, heq⟩
      · rw [heq]
      · rw [heq, actorAddCap_fst]
        rfl
  | @spawn _ call h =>
      exact hcall h (by decide) (by decide) (by decide)
        (actorSpawnChild_spec L k hlive call.a1.toNat).2.current
  | @spawnProgram _ call h hcap =>
      exact hcall h (by decide) (by decide) (by decide)
        (loaderSpawnProgram_spec L k hlive (cInt call.a1)).2.1
  | @terminate _ call h =>
      refine hcall h (by decide) (by decide) (by decide) ?_
      rcases actorTerminate_cases k c (cInt call.a1) with heq | ⟨t, -, -, -, heq⟩
      · rw [heq]
      · rw [heq]
        rfl
  | @createName _ call h hcap =>
      refine hcall h (by decide) (by decide) (by decide) ?_
      rcases sysCreateName_cases k c (userBytes k c call.a1) with ⟨-, heq⟩ | ⟨-, heq⟩
      · rw [heq]
        rfl
      · rw [heq]
        rfl
  | programDenied h | createDenied h => exact hcall h (by decide) (by decide) (by decide) rfl
  | quietCall h hquiet hstep =>
      exact hcall h (Syscall.ne_of_quiet hquiet rfl) (Syscall.ne_of_quiet hquiet rfl)
        (Syscall.ne_of_quiet hquiet rfl) hstep.current
  | unknown h => exact Or.inl ⟨by simp [reschedules, h], rfl⟩
  | store | device | fault => exact Or.inl ⟨rfl, rfl⟩

/-- **One dispatch.**  While a slot is runnable, `schedule_next` takes it or a slot that is
closer to it than the current one. -/
theorem scheduleNext_gap {k : Kernel D} {c s : Slot} (hcur : k.current = some c)
    (hs : Runnable (k.actors s)) : ∃ next, (scheduleNext k).current = some next ∧
      (scheduleNext k).mode = k.mode ∧ (next ≠ s → gap next s < gap c s) := by
  have hreap := reapDeadActors_reaped k
  have hrunnable : Runnable ((reapDeadActors k).actors s) := by
    rw [Runnable, hreap.state]
    exact hs
  have hstart : (reapDeadActors k).current.getD 0 = c := by rw [hreap.current, hcur]; rfl
  unfold scheduleNext
  dsimp only
  rw [hstart]
  cases hnext : nextRunnable (reapDeadActors k) c with
  | none => exact absurd hrunnable (nextRunnable_none hnext s)
  | some next =>
      obtain ⟨a, -, hswitch⟩ := switchTo_some (reapDeadActors k) next
      rw [hswitch]
      exact ⟨next, rfl, hreap.mode, fun hne => scan_gap_lt hnext (decide_eq_true hrunnable) hne⟩

section Intervals

variable {L : Layout} {hal : Hal D} {b : Boot D}

/-- **One step**, seen from a slot that is ready: nothing is dispatched and the current slot
stays, or a slot is dispatched that is closer. -/
theorem step_gap {k k' : Kernel D} {e : Event D} {o : Outcome} {c s : Slot} (hlive : k.Live c)
    (hstep : step L hal k e = some (k', o)) (hcur : k.current = some c) (hne : c ≠ s)
    (hready : (k.actors s).state = .ready) :
    (dispatchedSlot ⟨k, e, o, k'⟩ = none ∧ k'.current = some c) ∨
      ∃ next, dispatchedSlot ⟨k, e, o, k'⟩ = some next ∧ k'.current = some next ∧
        (next ≠ s → gap next s < gap c s) := by
  obtain ⟨c', hmode, hcur', hstepped⟩ := step_stepped hstep
  obtain rfl : c = c' := Option.some.inj (hcur.symm.trans hcur')
  unfold dispatchedSlot
  simp only [hcur]
  rcases hstepped.schedules hlive with ⟨hquiet, hsame⟩ | ⟨hsched, a, rfl⟩
  · exact Or.inl ⟨by simp [hquiet], hsame.trans hcur⟩
  · have hrunnable : Runnable ((k.setActor c a).actors s) := by
      rw [setActor_actors, Function.update_of_ne hne.symm]
      exact Or.inl hready
    obtain ⟨next, hnext, hmode', hgap⟩ := scheduleNext_gap
      (k := k.setActor c a) (c := c) hcur hrunnable
    refine Or.inr ⟨next, ?_, hnext, hgap⟩
    rw [if_pos ⟨hsched, hmode'.trans hmode⟩, hnext]

/-- **A run** in which the ready slot is not dispatched brings the current slot no farther away
from it. -/
theorem trace_gap {tr mid : List (Record D)} {k k' : Kernel D} {a s : Slot}
    (hrun : Run L hal b tr k) (hcur : k.current = some a) (hne : a ≠ s)
    (hmid : Trace (step L hal) k mid k') (hready : ReadyUntilDispatched s k mid)
    (hnot : ∀ r ∈ mid, dispatchedSlot r ≠ some s) :
    (k'.actors s).state = .ready ∧
      ∃ c, k'.current = some c ∧ c ≠ s ∧ gap c s ≤ gap a s := by
  induction hmid with
  | nil => exact ⟨hready, a, hcur, hne, Nat.le_refl _⟩
  | @snoc mid k1 k2 e o before hstep ih =>
      obtain ⟨hstate, c, hc, hcs, hgap⟩ :=
        ih hready.1 fun r hr => hnot r (List.mem_cons_of_mem _ hr)
      have hstate' : (k2.actors s).state = .ready := by
        rcases hready.2 with h | ⟨q, hq, hdispatched⟩
        · exact h
        · exact absurd hdispatched (hnot q hq)
      obtain ⟨c', hmode, hc', hlive, -⟩ := Run.stepped (hrun.trans before) hstep
      obtain rfl : c = c' := Option.some.inj (hc.symm.trans hc')
      refine ⟨hstate', ?_⟩
      rcases step_gap hlive hstep hc hcs hstate with ⟨-, hsame⟩ | ⟨next, hdispatched, hnext, hlt⟩
      · exact ⟨c, hsame, hcs, hgap⟩
      · have hother : next ≠ s := fun heq =>
          hnot _ List.mem_cons_self (hdispatched.trans (congrArg some heq))
        exact ⟨next, hnext, hother, Nat.le_trans (Nat.le_of_lt (hlt hother)) hgap⟩

theorem JustDispatched.current {tr : List (Record D)} {k : Kernel D} {a : Slot}
    (hrun : Run L hal b tr k) (h : JustDispatched L b a tr) : k.current = some a := by
  cases hrun with
  | nil => exact h.2
  | snoc before hstep =>
      have h : dispatchedSlot _ = some a := h
      unfold dispatchedSlot at h
      split at h
      · cases h
      · split at h
        · exact h
        · cases h

/-- **Round robin without starvation.**  Between two dispatches of slot `a`, every other slot
that is ready from the first one on until it is dispatched itself is dispatched. -/
theorem round_robin_no_starvation {tr mid : List (Record D)} {k k' k'' : Kernel D} {e : Event D}
    {o : Outcome} {a s : Slot} (hrun : Run L hal b tr k) (hfirst : JustDispatched L b a tr)
    (hmid : Trace (step L hal) k mid k') (hstep : step L hal k' e = some (k'', o))
    (hagain : dispatchedSlot ⟨k', e, o, k''⟩ = some a) (hne : s ≠ a)
    (hready : ReadyUntilDispatched s k mid) : ∃ r ∈ mid, dispatchedSlot r = some s := by
  by_contra hnot
  push Not at hnot
  obtain ⟨hstate, c, hc, hcs, hgap⟩ :=
    trace_gap hrun (hfirst.current hrun) hne.symm hmid hready hnot
  obtain ⟨c', -, hc', hlive, -⟩ := Run.stepped (hrun.trans hmid) hstep
  obtain rfl : c = c' := Option.some.inj (hc.symm.trans hc')
  -- the second dispatch of `a` would bring the gap below what it was at the first
  rcases step_gap hlive hstep hc hcs hstate with ⟨hnone, -⟩ | ⟨next, hnext, -, hlt⟩
  · rw [hnone] at hagain
    cases hagain
  · obtain rfl : next = a := Option.some.inj (hnext.symm.trans hagain)
    exact Nat.lt_irrefl _ (Nat.lt_of_lt_of_le (hlt hne.symm) hgap)

end Intervals

/-- A machine with two pages, so that `kernel_main` gets no further than its second actor. -/
def twoPageBoot : Boot Unit := { sampleBoot with memoryMap := some [⟨0x100000, 0x2000, 1⟩] }

/-- `scheduler_start` dispatches slot 1, a tick slot 0, and the next tick slot 1 again. -/
theorem round_robin_two_actors :
    let k := bootState sampleLayout twoPageBoot
    ∃ mid k' k'' o, Trace (step sampleLayout silentHal) k mid k' ∧
      step sampleLayout silentHal k' .tick = some (k'', o) ∧
      dispatchedSlot ⟨k', .tick, o, k''⟩ = some 1 ∧ ReadyUntilDispatched 0 k mid ∧
      ∃ r ∈ mid, dispatchedSlot r = some 0 := by
  intro k
  have hfirst : k.mode = .running ∧ k.current = some 1 := by decide +kernel
  have hview : (runTrace (step sampleLayout silentHal) [] k [.tick]).map (fun p =>
      (decide (ReadyUntilDispatched 0 k p.1), (step sampleLayout silentHal p.2 .tick).map
        fun q => dispatchedSlot ⟨p.2, .tick, q.2, q.1⟩)) = some (true, some (some 1)) := by
    decide +kernel
  obtain ⟨mid, k', hmid, hview⟩ := exists_trace_of_runTrace hview
  obtain ⟨hready, hagain⟩ := Prod.mk.inj hview
  obtain ⟨⟨k'', o⟩, hstep, hagain⟩ := Option.map_eq_some_iff.mp hagain
  have hready := of_decide_eq_true hready
  exact ⟨mid, k', k'', o, hmid, hstep, hagain, hready,
    round_robin_no_starvation (b := twoPageBoot) .nil hfirst hmid hstep hagain (by decide) hready⟩

end Vajra
