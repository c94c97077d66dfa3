import Vajra.KernelMachine
import Vajra.RoundRobin

/-!
# What one step can do

Every invariant of the kernel is proved against the statements of this file and
none of them unfolds `step` again.

`scheduleNext_cases` says what the scheduler does: it reaps, and then either
halts with nothing runnable or makes one runnable slot the current one.
`step_stepped` says what an event does: it is one of ten operations of
`core/actor.c` and `core/loader.c`, or it is quiet, in which case the actor table,
the program pool and the allocator are untouched and memory changes only through
the caller's own user-writable pages.
-/

namespace Vajra

open ByteMemory RoundRobin TransitionTrace

variable {D : Type}

@[simp] theorem setActor_actors (k : Kernel D) (s : Slot) (a : Actor) :
    (k.setActor s a).actors = Function.update k.actors s a := rfl
@[simp] theorem setActor_current (k : Kernel D) (s : Slot) (a : Actor) :
    (k.setActor s a).current = k.current := rfl
@[simp] theorem setActor_memory (k : Kernel D) (s : Slot) (a : Actor) :
    (k.setActor s a).memory = k.memory := rfl
@[simp] theorem setActor_pool (k : Kernel D) (s : Slot) (a : Actor) :
    (k.setActor s a).pool = k.pool := rfl
@[simp] theorem setActor_store (k : Kernel D) (s : Slot) (a : Actor) :
    (k.setActor s a).store = k.store := rfl
@[simp] theorem setActor_mode (k : Kernel D) (s : Slot) (a : Actor) :
    (k.setActor s a).mode = k.mode := rfl

@[simp] theorem setState_actors (k : Kernel D) (s : Slot) (st : ActorState) :
    (k.setState s st).actors = Function.update k.actors s { k.actors s with state := st } := rfl
@[simp] theorem setState_current (k : Kernel D) (s : Slot) (st : ActorState) :
    (k.setState s st).current = k.current := rfl
@[simp] theorem setState_memory (k : Kernel D) (s : Slot) (st : ActorState) :
    (k.setState s st).memory = k.memory := rfl
@[simp] theorem setState_pool (k : Kernel D) (s : Slot) (st : ActorState) :
    (k.setState s st).pool = k.pool := rfl
@[simp] theorem setState_store (k : Kernel D) (s : Slot) (st : ActorState) :
    (k.setState s st).store = k.store := rfl
@[simp] theorem setState_mode (k : Kernel D) (s : Slot) (st : ActorState) :
    (k.setState s st).mode = k.mode := rfl

@[simp] theorem commitOut_nil (k : Kernel D) (c : Slot) : commitOut k c [] = k := rfl
@[simp] theorem commitOut_actors (k : Kernel D) (c : Slot) (out : List (Nat × UInt8)) :
    (commitOut k c out).actors = k.actors := rfl
@[simp] theorem commitOut_current (k : Kernel D) (c : Slot) (out : List (Nat × UInt8)) :
    (commitOut k c out).current = k.current := rfl
@[simp] theorem commitOut_mode (k : Kernel D) (c : Slot) (out : List (Nat × UInt8)) :
    (commitOut k c out).mode = k.mode := rfl
@[simp] theorem commitOut_pool (k : Kernel D) (c : Slot) (out : List (Nat × UInt8)) :
    (commitOut k c out).pool = k.pool := rfl
@[simp] theorem commitOut_store (k : Kernel D) (c : Slot) (out : List (Nat × UInt8)) :
    (commitOut k c out).store = k.store := rfl

/-- A slot number in range names the slot it is the number of. -/
theorem slotOf_eq_some {i : Int} {s : Slot} : slotOf i = some s ↔ i = (s : Nat) := by
  unfold slotOf
  constructor
  · intro h
    split at h
    · rename_i hrange
      cases h
      simp only
      omega
    · simp at h
  · rintro rfl
    have hs := s.isLt
    rw [dif_pos (by omega)]
    simp

@[simp] theorem slotOf_val (s : Slot) : slotOf ((s : Nat) : Int) = some s :=
  slotOf_eq_some.mpr rfl

/-- What a pass of `reap_dead_actors` leaves: stack pages of dead slots may have
moved to the free list, and nothing else has changed. -/
structure Reaped (k k' : Kernel D) : Prop where
  actor : ∀ s, ∃ p, k'.actors s = { k.actors s with stackPage := p }
  current : k'.current = k.current
  memory : ∃ fl, k'.memory = { k.memory with freeList := fl }
  pool : k'.pool = k.pool
  store : k'.store = k.store
  mode : k'.mode = k.mode

theorem Reaped.refl (k : Kernel D) : Reaped k k :=
  ⟨fun s => ⟨(k.actors s).stackPage, rfl⟩, rfl, ⟨k.memory.freeList, rfl⟩, rfl, rfl, rfl⟩

theorem Reaped.trans {k k' k'' : Kernel D} (h : Reaped k k') (h' : Reaped k' k'') :
    Reaped k k'' where
  actor s := by
    obtain ⟨p, hp⟩ := h.actor s
    obtain ⟨q, hq⟩ := h'.actor s
    exact ⟨q, by rw [hq, hp]⟩
  current := h'.current.trans h.current
  memory := by
    obtain ⟨fl, hfl⟩ := h.memory
    obtain ⟨fl', hfl'⟩ := h'.memory
    exact ⟨fl', by rw [hfl', hfl]⟩
  pool := h'.pool.trans h.pool
  store := h'.store.trans h.store
  mode := h'.mode.trans h.mode

/-- One turn of the reaping loop: it frees the stack page of a dead slot that is
not the current one, or does nothing. -/
theorem reapActor_cases (k : Kernel D) (i : Slot) :
    reapActor k i = k ∨
    ∃ page, k.current ≠ some i ∧ (k.actors i).state = .dead ∧
      (k.actors i).stackPage = some page ∧
      reapActor k i = ({ k with memory := freePage k.memory page } : Kernel D).setActor i
        { k.actors i with stackPage := none } := by
  unfold reapActor
  split
  · exact Or.inl rfl
  · rename_i hcurrent
    split
    · rename_i page hdead hpage
      exact Or.inr ⟨page, hcurrent, hdead, hpage, rfl⟩
    · exact Or.inl rfl

theorem reapActor_reaped (k : Kernel D) (i : Slot) : Reaped k (reapActor k i) := by
  rcases reapActor_cases k i with h | ⟨page, _, _, _, h⟩
  · rw [h]
    exact Reaped.refl k
  · rw [h]
    refine ⟨fun s => ?_, rfl, ?_, rfl, rfl, rfl⟩
    · by_cases hs : s = i
      · subst hs
        exact ⟨none, by simp⟩
      · exact ⟨(k.actors s).stackPage, by simp [hs]⟩
    · simp only [setActor_memory, freePage]
      split
      · exact ⟨_, rfl⟩
      · exact ⟨_, rfl⟩

theorem reapDeadActors_reaped (k : Kernel D) : Reaped k (reapDeadActors k) := by
  unfold reapDeadActors
  generalize List.finRange maxActors = slots
  induction slots generalizing k with
  | nil => exact Reaped.refl k
  | cons i rest ih => exact (reapActor_reaped k i).trans (ih (reapActor k i))

section Reaping

variable {k k' : Kernel D}

theorem Reaped.state (h : Reaped k k') (s : Slot) :
    (k'.actors s).state = (k.actors s).state := by
  obtain ⟨p, hp⟩ := h.actor s
  rw [hp]

end Reaping

/-- The scheduler's scan finds a runnable slot if there is one. -/
theorem nextRunnable_some {k : Kernel D} {start s : Slot} (h : nextRunnable k start = some s) :
    Runnable (k.actors s) := by
  have := List.find?_some h
  simpa using this

theorem nextRunnable_none {k : Kernel D} {start : Slot} (h : nextRunnable k start = none)
    (s : Slot) : ¬ Runnable (k.actors s) :=
  of_decide_eq_false (scan_none h s)

/-- The actor record of the slot the scheduler has switched to. -/
def Dispatched (a a' : Actor) : Prop :=
  ∃ ctx, a' = { a with state := .running, context := ctx } ∧
    (ctx = a.context ∨ (a.context = .trampoline ∧ ctx = .user))

theorem switchTo_some (k : Kernel D) (next : Slot) :
    ∃ a, Dispatched (k.actors next) a ∧
      switchTo k (some next) = { k.setActor next a with current := some next } := by
  by_cases hcur : k.current = some next
  · refine ⟨{ k.actors next with state := .running }, ⟨_, rfl, Or.inl rfl⟩, ?_⟩
    rw [switchTo, if_pos hcur]
    simp only [Kernel.setState, Kernel.setActor, hcur]
  · let ctx := if (k.actors next).context = .trampoline then .user else (k.actors next).context
    refine ⟨{ k.actors next with state := .running, context := ctx }, ⟨ctx, rfl, ?_⟩, ?_⟩
    · by_cases htramp : (k.actors next).context = .trampoline
      · exact Or.inr ⟨htramp, if_pos htramp⟩
      · exact Or.inl (if_neg htramp)
    · rw [switchTo, if_neg hcur]
      rfl

/-- **What `schedule_next` does.**  It reaps; then nothing is runnable and the
machine halts, or one runnable slot becomes the current, running one. -/
theorem scheduleNext_cases (k : Kernel D) :
    (scheduleNext k = { reapDeadActors k with mode := .halted } ∧
      ∀ s, ¬ Runnable (k.actors s)) ∨
    ∃ next a, Runnable (k.actors next) ∧ Dispatched ((reapDeadActors k).actors next) a ∧
      scheduleNext k = { (reapDeadActors k).setActor next a with current := some next } := by
  have hrun : ∀ s, Runnable ((reapDeadActors k).actors s) ↔ Runnable (k.actors s) := by
    intro s
    simp only [Runnable, (reapDeadActors_reaped k).state]
  unfold scheduleNext
  dsimp only
  cases hnext : nextRunnable (reapDeadActors k) ((reapDeadActors k).current.getD 0) with
  | none => exact Or.inl ⟨rfl, fun s hs => nextRunnable_none hnext s ((hrun s).mpr hs)⟩
  | some next =>
      obtain ⟨a, ha, hswitch⟩ := switchTo_some (reapDeadActors k) next
      exact Or.inr ⟨next, a, (hrun next).mp (nextRunnable_some hnext), ha, hswitch⟩

/-- **What `schedule_next` does to a record**: the stack page of a dead actor goes back to the
allocator, and the actor it switches to runs. -/
theorem scheduleNext_actor (k : Kernel D) (s : Slot) :
    ∃ page st ctx, (scheduleNext k).actors s =
        { k.actors s with stackPage := page, state := st, context := ctx } ∧
      (st = (k.actors s).state ∨ (Runnable (k.actors s) ∧ st = .running)) ∧
      (ctx = (k.actors s).context ∨ ctx = .user) := by
  obtain ⟨page, hpage⟩ := (reapDeadActors_reaped k).actor s
  have hkept : (reapDeadActors k).actors s = { k.actors s with
      stackPage := page, state := (k.actors s).state, context := (k.actors s).context } := hpage
  rcases scheduleNext_cases k with ⟨heq, _⟩ | ⟨next, a, hrun, ⟨ctx, rfl, hctx⟩, heq⟩
  · rw [heq]
    exact ⟨page, _, _, hkept, Or.inl rfl, Or.inl rfl⟩
  · rw [heq]
    by_cases hs : s = next
    · subst hs
      refine ⟨page, .running, ctx, ?_, Or.inr ⟨hrun, rfl⟩, ?_⟩
      · simp only [setActor_actors, Function.update_self, hpage]
      · rw [hpage] at hctx
        exact hctx.imp_right And.right
    · refine ⟨page, _, _, ?_, Or.inl rfl, Or.inl rfl⟩
      simp only [setActor_actors, Function.update_of_ne hs]
      exact hkept

/-- A step that leaves the actor table, the program pool and the allocator
alone, and memory too up to what its caller may store itself. -/
structure Quiet (k : Kernel D) (c : Slot) (out : List (Nat × UInt8)) (k' : Kernel D) : Prop where
  actors : k'.actors = k.actors
  current : k'.current = k.current
  mode : k'.mode = k.mode
  pool : k'.pool = k.pool
  memory : k'.memory = (commitOut k c out).memory

/-- The calls that leave the actor table alone. -/
def Syscall.quiet : Syscall → Bool
  | .yield | .exit | .send | .receive | .grant | .spawn | .terminate | .spawnProgram
  | .createName => false
  | _ => true

/-- A call that leaves the actor table alone is none of the others. -/
theorem Syscall.ne_of_quiet {sys loud : Syscall} (h : sys.quiet = true)
    (hloud : loud.quiet = false) : sys ≠ loud := by
  rintro rfl
  rw [h] at hloud
  cases hloud

/-- A system call of `c` with number `sys`. -/
def IsCall (e : Event D) (sys : Syscall) (call : Call) : Prop :=
  e = .syscall call ∧ Syscall.decode call.num = some sys

/-- **What an event of the current actor does**, one constructor for each
operation that touches the actor table. -/
inductive Stepped (L : Layout) (hal : Hal D) (k : Kernel D) (c : Slot) :
    Event D → Kernel D → Outcome → Prop
  | tick : Stepped L hal k c .tick (actorYield k c) .silent
  | yield {e : Event D} {call : Call} (h : IsCall e .yield call) :
      Stepped L hal k c e (actorYield k c) .silent
  | exit {e : Event D} {call : Call} (h : IsCall e .exit call) :
      Stepped L hal k c e (actorExit k c) .silent
  | send {e : Event D} {call : Call} (h : IsCall e .send call) :
      Stepped L hal k c e (actorSend k c (cInt call.a1) call.a2 call.a3).1
        ⟨some (cRet (actorSend k c (cInt call.a1) call.a2 call.a3).2), [], none⟩
  | receive {e : Event D} (out : Word)
      (h : (∃ call, IsCall e .receive call ∧ call.a1 = out) ∨
        (e = .resume ∧ (k.actors c).context = .receiving out)) :
      Stepped L hal k c e ((sysReceive k c out).finish c).1 ((sysReceive k c out).finish c).2
  | grant {e : Event D} {call : Call} (h : IsCall e .grant call) :
      Stepped L hal k c e (actorDelegate k c (cInt call.a1) (cInt call.a2) (cInt call.a3)).1
        ⟨some (cRet (actorDelegate k c (cInt call.a1) (cInt call.a2) (cInt call.a3)).2), [], none⟩
  | spawn {e : Event D} {call : Call} (h : IsCall e .spawn call) :
      Stepped L hal k c e (actorSpawnChild L k c call.a1.toNat).1
        ⟨some (slotRet (actorSpawnChild L k c call.a1.toNat).2), [], none⟩
  | terminate {e : Event D} {call : Call} (h : IsCall e .terminate call) :
      Stepped L hal k c e (actorTerminate k c (cInt call.a1)).1
        ⟨some (cRet (actorTerminate k c (cInt call.a1)).2), [], none⟩
  | spawnProgram {e : Event D} {call : Call} (h : IsCall e .spawnProgram call)
      (hcap : actorHasCap k c capReadObject (cInt call.a1) = true) :
      Stepped L hal k c e (loaderSpawnProgram L k c (cInt call.a1)).1
        ⟨some (slotRet (loaderSpawnProgram L k c (cInt call.a1)).2), [], none⟩
  | createName {e : Event D} {call : Call} (h : IsCall e .createName call)
      (hcap : actorHasCap k c capCreateObject 0 = true) :
      Stepped L hal k c e (sysCreateName k c (userBytes k c call.a1)).kernel
        ⟨(sysCreateName k c (userBytes k c call.a1)).ret, [], none⟩
  | programDenied {e : Event D} {call : Call} (h : IsCall e .spawnProgram call)
      (hcap : actorHasCap k c capReadObject (cInt call.a1) = false) :
      Stepped L hal k c e k ⟨some (cRet (-1)), [], none⟩
  | createDenied {e : Event D} {call : Call} (h : IsCall e .createName call)
      (hcap : actorHasCap k c capCreateObject 0 = false) :
      Stepped L hal k c e k ⟨some (cRet (-1)), [], none⟩
  | quietCall {e : Event D} {call : Call} {sys : Syscall} (h : IsCall e sys call)
      (hquiet : sys.quiet = true)
      (hstep : Quiet k c (syscallDispatch L hal k c call sys).out
        (commitOut (syscallDispatch L hal k c call sys).kernel c
          (syscallDispatch L hal k c call sys).out)) :
      Stepped L hal k c e
        (commitOut (syscallDispatch L hal k c call sys).kernel c
          (syscallDispatch L hal k c call sys).out)
        ⟨(syscallDispatch L hal k c call sys).ret, (syscallDispatch L hal k c call sys).out,
          (syscallDispatch L hal k c call sys).msg⟩
  | unknown {call : Call} (h : Syscall.decode call.num = none) :
      Stepped L hal k c (.syscall call) k ⟨some (cRet (-1)), [], none⟩
  | store (va : Nat) (byte : UInt8) :
      Stepped L hal k c (.store va byte) (commitOut k c [(va, byte)]) .silent
  | device (dev : D) : Stepped L hal k c (.device dev) { k with dev := dev } .silent
  | fault : Stepped L hal k c .fault { k with mode := .panicked } .silent

/-- Only the object store, the network statics or a device have changed. -/
structure Untouched (k k' : Kernel D) : Prop where
  actors : k'.actors = k.actors
  current : k'.current = k.current
  mode : k'.mode = k.mode
  pool : k'.pool = k.pool
  memory : k'.memory = k.memory

theorem Untouched.refl (k : Kernel D) : Untouched k k := ⟨rfl, rfl, rfl, rfl, rfl⟩

theorem Untouched.quiet {k k' : Kernel D} (h : Untouched k k') (c : Slot)
    (out : List (Nat × UInt8)) : Quiet k c out (commitOut k' c out) where
  actors := h.actors
  current := h.current
  mode := h.mode
  pool := h.pool
  memory := by simp only [commitOut, h.actors, h.memory]

theorem guarded_untouched {k : Kernel D} {r : SysResult D} (c : Slot) (op target : Int)
    (h : Untouched k r.kernel) : Untouched k (guarded k c op target r).kernel := by
  unfold guarded
  split
  · exact h
  · exact Untouched.refl k

/-- A quiet call leaves the actor table, the pool and the allocator alone. -/
theorem syscallDispatch_untouched (L : Layout) (hal : Hal D) (k : Kernel D) (c : Slot)
    (call : Call) {sys : Syscall} (hquiet : sys.quiet = true) :
    Untouched k (syscallDispatch L hal k c call sys).kernel := by
  have hread : ∀ id buf len, Untouched k (sysObjectRead k id buf len).kernel := by
    intro id buf len
    unfold sysObjectRead
    split <;> exact ⟨rfl, rfl, rfl, rfl, rfl⟩
  have hlist : ∀ index out res, Untouched k (sysListObjects k index out res).kernel := by
    intro index out res
    unfold sysListObjects
    split <;> exact ⟨rfl, rfl, rfl, rfl, rfl⟩
  have hnet : ∀ out spins, Untouched k (sysNetReceive hal k c out spins).kernel := by
    intro out spins
    unfold sysNetReceive
    split <;> exact ⟨rfl, rfl, rfl, rfl, rfl⟩
  cases sys with
  | yield | exit | send | receive | grant | spawn | terminate | spawnProgram | createName =>
      simp [Syscall.quiet] at hquiet
  | write | lookupName | rtcRead => exact ⟨rfl, rfl, rfl, rfl, rfl⟩
  | objectRead => exact guarded_untouched c _ _ (hread _ _ _)
  | listObjects => exact guarded_untouched c _ _ (hlist _ _ _)
  | netReceive => exact guarded_untouched c _ _ (hnet _ _)
  | objectWrite | objectPromote | objectReject | netSend | netSendTo | netSendReliable
  | renameObject | deleteName | keyRead =>
      exact guarded_untouched c _ _ ⟨rfl, rfl, rfl, rfl, rfl⟩

/-- A known call of an actor in ring 3 is one of the cases of `Stepped`. -/
theorem syscallDispatch_stepped (L : Layout) (hal : Hal D) (k : Kernel D) (c : Slot)
    {call : Call} {sys : Syscall} (hdecode : Syscall.decode call.num = some sys) :
    Stepped L hal k c (.syscall call)
      ((syscallDispatch L hal k c call sys).finish c).1
      ((syscallDispatch L hal k c call sys).finish c).2 := by
  have hcall : IsCall (.syscall call : Event D) sys call := ⟨rfl, hdecode⟩
  by_cases hquiet : sys.quiet = true
  · exact .quietCall hcall hquiet ((syscallDispatch_untouched L hal k c call hquiet).quiet c _)
  · cases sys with
    | yield => exact .yield hcall
    | exit => exact .exit hcall
    | send => exact .send hcall
    | receive => exact .receive call.a1 (Or.inl ⟨call, hcall, rfl⟩)
    | grant => exact .grant hcall
    | spawn => exact .spawn hcall
    | terminate => exact .terminate hcall
    | spawnProgram =>
        simp only [syscallDispatch, guarded]
        split
        · rename_i hcap
          exact .spawnProgram hcall hcap
        · rename_i hcap
          exact .programDenied hcall (by simpa using hcap)
    | createName =>
        simp only [syscallDispatch, guarded]
        split
        · rename_i hcap
          have hshape : ∀ name, ((sysCreateName k c name).finish c) =
              ((sysCreateName k c name).kernel, ⟨(sysCreateName k c name).ret, [], none⟩) := by
            intro name
            unfold sysCreateName
            dsimp only
            split <;> rfl
          rw [hshape]
          exact .createName hcall hcap
        · rename_i hcap
          exact .createDenied hcall (by simpa using hcap)
    | write | objectRead | objectWrite | objectPromote | objectReject | netSend | netReceive
    | netSendTo | netSendReliable | lookupName | listObjects | renameObject | deleteName
    | keyRead | rtcRead => exact absurd rfl hquiet

/-- A known call that is made is answered by `syscall_handler`. -/
theorem step_syscall {L : Layout} {hal : Hal D} {k k' : Kernel D} {c : Slot} {call : Call}
    {sys : Syscall} {o : Outcome} (hcur : k.current = some c)
    (hdecode : Syscall.decode call.num = some sys)
    (h : step L hal k (.syscall call) = some (k', o)) :
    (syscallDispatch L hal k c call sys).finish c = (k', o) := by
  unfold step at h
  split at h
  swap
  · simp at h
  rw [hcur] at h
  dsimp only at h
  cases hctx : (k.actors c).context with
  | user =>
      rw [hctx] at h
      simpa [actorStep, syscallHandler, hdecode] using h
  | trampoline | receiving out => simp [hctx, actorStep] at h

/-- **Inversion of `step`.** -/
theorem step_stepped {L : Layout} {hal : Hal D} {k k' : Kernel D} {e : Event D} {o : Outcome}
    (h : step L hal k e = some (k', o)) :
    ∃ c, k.mode = .running ∧ k.current = some c ∧ Stepped L hal k c e k' o := by
  unfold step at h
  split at h
  swap
  · simp at h
  rename_i hmode
  split at h
  · simp at h
  rename_i c hcur
  refine ⟨c, hmode, hcur, ?_⟩
  generalize hctx : (k.actors c).context = ctx at h
  unfold actorStep at h
  split at h
  · cases h
    exact .tick
  · rename_i call
    cases h
    unfold syscallHandler
    cases hdecode : Syscall.decode call.num with
    | none => exact .unknown hdecode
    | some sys => exact syscallDispatch_stepped L hal k c hdecode
  · rename_i out
    cases h
    exact .receive out (Or.inr ⟨rfl, hctx⟩)
  · cases h
    exact .store _ _
  · cases h
    exact .device _
  · cases h
    exact .fault
  · cases h

end Vajra
