import Vajra.QuarantineActors

/-!
# What a step of the pipeline can do

`StepOf` collects what is known of a step of a run: whose it is, that the body of the actor
allows it, what runs where afterwards, and what the step does to mailboxes, capability tables
and objects.  The lemmas of this file read off it what an actor that stands at a given call of
its body can do at most; the invariants of the pipeline are proved from them.

A body goes on when its call returns, and for a call to receive that can be at a later turn of
the loop in `actor_receive`.  That turn is taken for this call and no other
(`WaitsToReceive`).
-/

namespace Vajra

open EntryTables TransitionTrace

variable {D : Type} {L : Layout} {hal : Hal D} {b : Boot D}

/-- Bodies wait in `actor_receive` only where they call it. -/
def WaitsToReceive (s : PipelineState D) : Prop :=
  ∀ d out r, (s.kernel.actors d).context = .receiving out → (s.program d).request = some r →
    r = .receive

theorem setupState_context (L : Layout) (b : Boot D) (n : Nat) (d : Slot) :
    ((setupState L b n).actors d).context = .trampoline := by
  refine setupState_induction (P := fun k => ∀ d, (k.actors d).context = .trampoline) ?_ ?_ n d
  · exact fun _ => rfl
  · intro k op _ hk d
    have hset : ∀ {i : Slot} {a : Actor}, a.context = .trampoline →
        ((k.setActor i a).actors d).context = .trampoline := by
      intro i a ha
      by_cases hd : d = i
      · subst hd
        simpa using ha
      · simpa [hd] using hk d
    rcases setupStep_cases L k op with ⟨entry, _, heq⟩ | ⟨st, heq⟩ | ⟨i, right, target, _, heq⟩ |
      ⟨i, quota, win, heq⟩
    · rw [heq]
      rcases actorSpawn_actors L k entry with ⟨_, hkeep⟩ | ⟨i, cr3, page, _, _, hupd⟩
      · rw [hkeep]
        exact hk d
      · rw [hupd]
        by_cases hd : d = i
        · subst hd
          rw [Function.update_self, freshActor]
        · rw [Function.update_of_ne hd]
          exact hk d
    · rw [heq]
      exact hk d
    · rw [heq]
      exact hset (hk i)
    · rw [heq]
      exact hset (hk i)

/-- A call is made from ring 3. -/
theorem step_syscall_context {k k' : Kernel D} {c : Slot} {call : Call} {o : Outcome}
    (hcur : k.current = some c) (h : step L hal k (.syscall call) = some (k', o)) :
    (k.actors c).context = .user := by
  unfold step at h
  split at h
  swap
  · cases h
  rw [hcur] at h
  dsimp only at h
  cases hctx : (k.actors c).context with
  | user => rfl
  | trampoline | receiving out => simp [hctx, actorStep] at h

/-- An actor that waits has not been answered. -/
theorem step_receiving_silent {k k' : Kernel D} {c : Slot} {e : Event D} {o : Outcome} {out : Word}
    (hcur : k.current = some c) (hlive : k.Live c) (h : step L hal k e = some (k', o))
    (hctx : (k'.actors c).context = .receiving out) : o.ret = none := by
  obtain ⟨c', _, hcur', hstepped⟩ := step_stepped h
  rw [hcur, Option.some.injEq] at hcur'
  subst hcur'
  have hwaits := (hstepped.receiving hlive hctx).2
  -- Whoever makes another call has not been waiting and does not wait after it.
  have hcalled : ∀ {sys : Syscall} {call : Call}, IsCall e sys call → sys ≠ .receive → False := by
    rintro sys call ⟨rfl, hdecode⟩ hne
    rcases hwaits with hold | ⟨_, call', heq, hdecode'⟩
    · rw [step_syscall_context hcur h] at hold
      cases hold
    · cases heq
      rw [hdecode, Option.some.injEq] at hdecode'
      exact hne hdecode'
  cases hstepped with
  | tick | yield | exit | store | device | fault => rfl
  | receive out' _ =>
      rcases sysReceive_cases k c out' with ⟨_, heq⟩ | ⟨_, heq⟩
      · rw [heq]
        rfl
      · rw [heq] at hctx
        simp [dequeue] at hctx
  | send hcall | grant hcall | spawn hcall | terminate hcall | spawnProgram hcall
  | createName hcall | programDenied hcall | createDenied hcall =>
      exact (hcalled hcall (by simp)).elim
  | quietCall hcall hquiet => exact (hcalled hcall (Syscall.ne_of_quiet hquiet rfl)).elim
  | unknown hdecode =>
      rcases hwaits with hold | ⟨_, call', heq, hdecode'⟩
      · rw [step_syscall_context hcur h] at hold
        cases hold
      · cases heq
        rw [hdecode] at hdecode'
        cases hdecode'

/-- A spawn takes a dead slot. -/
theorem takenSlot_dead {k : Kernel D} {c i : Slot} {e : Event D} (hlive : k.Live c)
    (h : takenSlot L k c e = some i) : ¬ k.Live i := by
  have hdead : ∀ {k' : Kernel D} {taken result : Option Slot}, ChildSpawn k c k' taken result →
      taken = some i → ¬ k.Live i := by
    intro k' taken result hspawn htaken
    cases hspawn with
    | refused => cases htaken
    | aborted j cr3 page entry _ hdead | spawned j cr3 page entry _ hdead =>
        cases htaken
        exact not_not.mpr hdead
  unfold takenSlot at h
  split at h
  swap
  · cases h
  split at h
  · exact hdead (actorSpawnChild_spec L k hlive _).1 h
  · split at h
    · exact hdead (loaderSpawnProgram_spec L k hlive _).1 h
    · cases h
  · cases h

section Programs

variable {s : PipelineState D} {c d i : Slot} {e : Event D} {o : Outcome}

theorem nextProgram_taken (h : takenSlot L s.kernel c e = some i) :
    nextProgram L s c e o i = (s.program c).child := by
  simp [nextProgram, h]

theorem nextProgram_self (h : takenSlot L s.kernel c e ≠ some c) :
    nextProgram L s c e o c = (s.program c).after e o := by
  unfold nextProgram
  cases htaken : takenSlot L s.kernel c e with
  | none => exact Function.update_self ..
  | some i =>
      have hne : c ≠ i := fun heq => h (by rw [htaken, heq])
      simp [hne]

theorem nextProgram_other (hd : d ≠ c) (h : takenSlot L s.kernel c e ≠ some d) :
    nextProgram L s c e o d = s.program d := by
  unfold nextProgram
  cases htaken : takenSlot L s.kernel c e with
  | none => exact Function.update_of_ne hd ..
  | some i =>
      have hne : d ≠ i := fun heq => h (by rw [htaken, heq])
      simp [hne, hd]

/-- A body that is not answered stays where it is. -/
theorem after_silent {p : Program} (h : o.ret = none) : p.after e o = p := by
  rw [Program.after, h]

end Programs

/-- A request for a receive is one. -/
theorem Request.eq_receive {r : Request} (h : r.syscall = .receive) : r = .receive := by
  cases r <;> cases h
  rfl

theorem Program.Allows.matches {p : Program} {call : Call} {r : Request}
    (h : p.Allows (Event.syscall call : Event D)) (hr : p.request = some r) :
    Syscall.decode call.num = some .write ∨ r.Matches call := by
  simpa [Program.Allows, hr] using h

theorem run_waits {tr : List (PipelineRecord D)} {s : PipelineState D}
    (hrun : PipelineRun L hal b tr s) : WaitsToReceive s := by
  refine hrun.history_invariant (fun _ s => WaitsToReceive s) ?_ ?_
  · intro d out r hctx
    have hboot : (pipelineBoot L b).kernel = bootState L b := by rw [pipelineBoot]
    rw [hboot, bootState, schedulerStart, kernelMain_eq_setupState] at hctx
    have hsetup := scheduleNext_receiving hctx
    rw [setupState_context] at hsetup
    cases hsetup
  · intro tr s e o s' hrun hold hstep d out r hctx hreq
    obtain ⟨c, hcur, hallows, hkernel, hprogram⟩ := pipelineStep_cases hstep
    obtain ⟨c', _, hcur', hlive, hstepped⟩ := Run.stepped (PipelineRun.kernelRun hrun) hkernel
    rw [hcur, Option.some.injEq] at hcur'
    subst hcur'
    obtain ⟨htaken, hwaits⟩ := hstepped.receiving hlive hctx
    have hsame : s'.program d = s.program d := by
      rw [hprogram]
      by_cases hd : d = c
      · subst hd
        rw [nextProgram_self htaken]
        exact after_silent (step_receiving_silent hcur hlive hkernel hctx)
      · exact nextProgram_other hd htaken
    rw [hsame] at hreq
    rcases hwaits with hbefore | ⟨rfl, call, rfl, hdecode⟩
    · exact hold d out r hbefore hreq
    · rcases hallows.matches hreq with hwrite | hmatch
      · rw [hdecode] at hwrite
        cases hwrite
      · apply Request.eq_receive
        rw [← Option.some.injEq, ← hmatch.1, hdecode]

/-- What is known of a step of a run. -/
structure StepOf (L : Layout) (hal : Hal D) (t : PipelineRecord D) (c : Slot) : Prop where
  current : t.pre.kernel.current = some c
  live : t.pre.kernel.Live c
  allows : (t.pre.program c).Allows t.event
  step : step L hal t.pre.kernel t.event = some (t.post.kernel, t.outcome)
  stepped : Stepped L hal t.pre.kernel c t.event t.post.kernel t.outcome
  program : t.post.program = nextProgram L t.pre c t.event t.outcome
  waits : WaitsToReceive t.pre
  ring : ∀ d, (t.pre.kernel.actors d).RingOk

theorem PipelineRun.stepOf {tr : List (PipelineRecord D)} {s s' : PipelineState D} {e : Event D}
    {o : Outcome} (hrun : PipelineRun L hal b tr s)
    (hstep : pipelineStep L hal s e = some (s', o)) : ∃ c, StepOf L hal ⟨s, e, o, s'⟩ c := by
  obtain ⟨c, hcur, hallows, hkernel, hprogram⟩ := pipelineStep_cases hstep
  obtain ⟨c', _, hcur', hlive, hstepped⟩ := Run.stepped (PipelineRun.kernelRun hrun) hkernel
  rw [hcur, Option.some.injEq] at hcur'
  subst hcur'
  exact ⟨c, hcur, hlive, hallows, hkernel, hstepped, hprogram, run_waits hrun,
    (run_mail (PipelineRun.kernelRun hrun)).ring⟩

/-- The step is the call `r`, or a turn of the loop it waits in. -/
def Made (t : PipelineRecord D) (r : Request) : Prop :=
  (∃ call, t.event = .syscall call ∧ r.Matches call) ∨ (t.event = .resume ∧ r = .receive)

/-- The calls that can change a record of the object store. -/
def Syscall.alters : Syscall → Bool
  | .objectWrite | .objectPromote | .objectReject | .createName | .renameObject | .deleteName =>
      true
  | _ => false

/-- **All other events leave the objects alone.** -/
theorem Stepped.objects {k k' : Kernel D} {c : Slot} {e : Event D} {o : Outcome}
    (h : Stepped L hal k c e k' o) (hlive : k.Live c)
    (hkeep : ∀ sys call, IsCall e sys call → sys.alters = false) :
    k'.store.objects = k.store.objects := by
  have hyield : ∀ st, (scheduleNext (k.setState c st)).store.objects = k.store.objects := by
    intro st
    rw [scheduleNext_store]
    rfl
  have hguarded : ∀ {op target : Int} {r : SysResult D},
      r.kernel.store.objects = k.store.objects →
      (guarded k c op target r).kernel.store.objects = k.store.objects := by
    intro op target r hr
    unfold guarded
    split
    · exact hr
    · rfl
  cases h with
  | tick | yield | exit => exact hyield _
  | @send _ call hcall =>
      rcases actorSend_cases k c (cInt call.a1) call.a2 call.a3 with heq | ⟨d, _, _, _, _, heq⟩
      · rw [heq]
      · rw [heq]
        rfl
  | receive out _ =>
      rcases sysReceive_cases k c out with ⟨_, heq⟩ | ⟨_, heq⟩
      · rw [heq, scheduleNext_store]
        rfl
      · rw [heq]
        rfl
  | @grant _ call hcall =>
      rcases actorDelegate_cases k c (cInt call.a1) (cInt call.a2) (cInt call.a3) with
        heq | ⟨d, _, _, heq⟩
      · rw [heq]
      · rw [heq, actorAddCap_fst]
        rfl
  | @spawn _ call hcall => rw [(actorSpawnChild_spec L k hlive call.a1.toNat).2.store]
  | @spawnProgram _ call hcall hcap =>
      rw [loaderSpawnProgram_store L k hlive]
      exact (storageRead_same _ _ _).objects
  | @terminate _ call hcall =>
      rcases actorTerminate_cases k c (cInt call.a1) with heq | ⟨d, _, _, _, heq⟩
      · rw [heq]
      · rw [heq]
        rfl
  | createName hcall => exact absurd (hkeep _ _ hcall) (by decide)
  | programDenied | createDenied | unknown | store | device | fault => rfl
  | @quietCall _ call sys hcall hquiet hstep =>
      have hsys := hkeep _ _ hcall
      rw [commitOut_store]
      cases sys with
      | yield | exit | send | receive | grant | spawn | terminate | spawnProgram | createName =>
          cases hquiet
      | objectWrite | objectPromote | objectReject | renameObject | deleteName => cases hsys
      | write | lookupName | rtcRead => rfl
      | objectRead =>
          apply hguarded
          have hsame := (storageRead_same k.store (cInt call.a1) (cUint call.a3)).objects
          unfold sysObjectRead
          generalize storageRead k.store (cInt call.a1) (cUint call.a3) = r at hsame ⊢
          obtain ⟨st, bytes⟩ := r
          cases bytes with
          | none => exact hsame
          | some bytes => exact hsame
      | listObjects =>
          apply hguarded
          unfold sysListObjects
          split <;> rfl
      | netReceive =>
          apply hguarded
          unfold sysNetReceive
          split <;> rfl
      | netSend | netSendTo | netSendReliable | keyRead => exact hguarded rfl

section Steps

variable {t : PipelineRecord D} {c d i : Slot} {m : Message} {r : Request}

theorem StepOf.queue (h : StepOf L hal t c) (d : Slot) :
    (takenSlot L t.pre.kernel c t.event = some d ∧ (t.post.kernel.actors d).queue = []) ∨
    (takenSlot L t.pre.kernel c t.event ≠ some d ∧
      (receivedBy (kernelRecord t) d).toList ++ (t.post.kernel.actors d).queue =
        (t.pre.kernel.actors d).queue ++ (acceptedBy (kernelRecord t) d).toList) := by
  have hinto : spawnedInto L (kernelRecord t) = takenSlot L t.pre.kernel c t.event := by
    simp [spawnedInto, Transition.map, h.current]
  have hmail : MailStep L (kernelRecord t) d := h.stepped.mailStep h.current h.live d
  rw [← hinto]
  exact hmail.queue (h.ring d)

/-- A body calls nothing but what it stands at, printing apart. -/
theorem StepOf.call (h : StepOf L hal t c) (hr : (t.pre.program c).request = some r)
    {sys : Syscall} {call : Call} (hcall : IsCall t.event sys call) :
    sys = .write ∨ (sys = r.syscall ∧ r.Matches call) := by
  obtain ⟨hevent, hdecode⟩ := hcall
  have hallows := h.allows
  rw [hevent] at hallows
  rcases hallows.matches hr with hwrite | hmatch
  · rw [hdecode, Option.some.injEq] at hwrite
    exact Or.inl hwrite
  · have hsys := hmatch.1
    rw [hdecode, Option.some.injEq] at hsys
    exact Or.inr ⟨hsys, hmatch⟩

theorem StepOf.taken_ne (h : StepOf L hal t c) (htaken : takenSlot L t.pre.kernel c t.event = some i) :
    i ≠ c := by
  rintro rfl
  exact takenSlot_dead h.live htaken h.live

theorem Request.syscall_ne_program (r : Request) : r.syscall ≠ .spawnProgram := by
  cases r <;> simp [Request.syscall]

theorem Request.syscall_ne_create (r : Request) : r.syscall ≠ .createName := by
  cases r <;> simp [Request.syscall]

/-- Only a body that stands at a spawn takes a slot. -/
theorem StepOf.taken_none (h : StepOf L hal t c) (hr : (t.pre.program c).request = some r)
    (hne : r.syscall ≠ .spawn) : takenSlot L t.pre.kernel c t.event = none := by
  cases hevent : t.event with
  | syscall call =>
      cases hdecode : Syscall.decode call.num with
      | none => simp [takenSlot, hdecode]
      | some sys =>
          have hcall : IsCall (Event.syscall call : Event D) sys call := ⟨rfl, hdecode⟩
          rcases h.call hr (hevent ▸ hcall) with rfl | ⟨rfl, _⟩
          · exact takenSlot_of_call hcall (by simp) (by simp)
          · exact takenSlot_of_call hcall hne r.syscall_ne_program
  | tick | resume | store | device | fault => rfl

/-- Only a body that stands at a grant or a spawn changes a table. -/
theorem StepOf.tables_same (h : StepOf L hal t c) (hr : (t.pre.program c).request = some r)
    (hspawn : r.syscall ≠ .spawn) (hgrant : r.syscall ≠ .grant) :
    t.post.kernel.tables = t.pre.kernel.tables := by
  have hnone : capChanges L t.pre.kernel c t.event = [] := by
    cases hevent : t.event with
    | syscall call =>
        cases hdecode : Syscall.decode call.num with
        | none => simp [capChanges, hdecode]
        | some sys =>
            have hcall : IsCall (Event.syscall call : Event D) sys call := ⟨rfl, hdecode⟩
            rcases h.call hr (hevent ▸ hcall) with rfl | ⟨rfl, _⟩
            · exact capChanges_of_call hcall (by simp) (by simp) (by simp) (by simp)
            · exact capChanges_of_call hcall hgrant hspawn r.syscall_ne_program
                r.syscall_ne_create
    | tick | resume | store | device | fault => rfl
  rw [h.stepped.tables h.live, hnone]
  rfl

/-- Only a body that stands at a write or at grading an object changes one. -/
theorem StepOf.objects_same (h : StepOf L hal t c) (hr : (t.pre.program c).request = some r)
    (hkeep : r.syscall.alters = false) :
    t.post.kernel.store.objects = t.pre.kernel.store.objects := by
  refine h.stepped.objects h.live fun sys call hcall => ?_
  rcases h.call hr hcall with rfl | ⟨rfl, _⟩
  · rfl
  · exact hkeep

/-- **Who sends** holds the capability, and its slot is on the message. -/
theorem StepOf.accepted (h : StepOf L hal t c)
    (hacc : acceptedBy (kernelRecord t) d = some m) :
    ⟨capSend, (d : Nat)⟩ ∈ t.pre.kernel.tables c ∧ t.pre.kernel.Live d ∧
      ∃ call, IsCall t.event .send call ∧ cInt call.a1 = (d : Nat) ∧
        m = ⟨call.a2, BitVec.ofNat 64 c, call.a3⟩ := by
  unfold acceptedBy at hacc
  split at hacc
  swap
  · cases hacc
  rename_i call hevent
  split at hacc
  swap
  · cases hacc
  rename_i hsent
  obtain ⟨hdecode, hdest, hret⟩ := hsent
  have hevent' : t.event = .syscall call := hevent
  have hcur : (kernelRecord t).pre.current = some c := h.current
  rw [hcur] at hacc
  have hm : (⟨call.a2, BitVec.ofNat 64 c, call.a3⟩ : Message) = m := Option.some.inj hacc
  have hstep := h.step
  rw [hevent'] at hstep
  have hresult := step_syscall h.current hdecode hstep
  simp only [syscallDispatch, SysResult.finish, SysResult.value, Prod.mk.injEq] at hresult
  have hret' : t.outcome.ret = some (cRet 0) := hret
  have hslot := slotOf_eq_some.mp hdest
  rcases actorSend_cases t.pre.kernel c (cInt call.a1) call.a2 call.a3 with
    heq | ⟨d', hdest', hcap, hlive, _, _⟩
  · rw [heq] at hresult
    rw [← hresult.2] at hret'
    have hfail : cRet (-1) = cRet 0 := Option.some.inj hret'
    exact absurd hfail (by decide)
  · rw [hdest, Option.some.injEq] at hdest'
    subst hdest'
    rw [hslot] at hcap
    exact ⟨hasCap_iff.mp hcap, hlive, call, ⟨hevent', hdecode⟩, hslot, hm.symm⟩

/-- A body sends nothing but the message it stands at. -/
theorem StepOf.accepted_request (h : StepOf L hal t c) (hr : (t.pre.program c).request = some r)
    (hacc : acceptedBy (kernelRecord t) d = some m) :
    ∃ type data, r = .send (d : Nat) type data ∧ m = ⟨type, BitVec.ofNat 64 c, data⟩ := by
  obtain ⟨_, _, call, hcall, hdest, rfl⟩ := h.accepted hacc
  rcases h.call hr hcall with hwrite | ⟨hsys, hmatch⟩
  · cases hwrite
  · cases r with
    | send dest type data =>
        obtain ⟨hdest', rfl, rfl⟩ := hmatch.2
        rw [hdest] at hdest'
        exact ⟨_, _, by rw [hdest'], rfl⟩
    | _ => cases hsys

theorem StepOf.accepted_none (h : StepOf L hal t c) (hr : (t.pre.program c).request = some r)
    (hne : r.syscall ≠ .send) (d : Slot) : acceptedBy (kernelRecord t) d = none := by
  cases hacc : acceptedBy (kernelRecord t) d with
  | none => rfl
  | some m =>
      obtain ⟨type, data, rfl, _⟩ := h.accepted_request hr hacc
      exact absurd rfl hne

/-- What a body sends reaches the slot it names. -/
theorem StepOf.accepted_send {w : Slot} {type data : Word} (h : StepOf L hal t c)
    (hr : (t.pre.program c).request = some (.send (w : Nat) type data))
    (hacc : acceptedBy (kernelRecord t) d = some m) :
    d = w ∧ m = ⟨type, BitVec.ofNat 64 c, data⟩ := by
  obtain ⟨type', data', heq, rfl⟩ := h.accepted_request hr hacc
  injection heq with hdest htype hdata
  subst htype hdata
  exact ⟨Fin.ext (by exact_mod_cast hdest.symm), rfl⟩

theorem StepOf.accepted_elsewhere {w : Slot} {type data : Word} (h : StepOf L hal t c)
    (hr : (t.pre.program c).request = some (.send (w : Nat) type data)) (hd : d ≠ w) :
    acceptedBy (kernelRecord t) d = none := by
  cases hacc : acceptedBy (kernelRecord t) d with
  | none => rfl
  | some m => exact absurd (h.accepted_send hr hacc).1 hd

/-- A message is handed over in `actor_receive`, to the current actor. -/
theorem StepOf.received (h : StepOf L hal t c) (hrec : receivedBy (kernelRecord t) d = some m) :
    d = c ∧ t.outcome.msg = some m := by
  unfold receivedBy at hrec
  split at hrec
  · rename_i hcur
    have hcur' : t.pre.kernel.current = some d := hcur
    rw [h.current, Option.some.injEq] at hcur'
    exact ⟨hcur'.symm, hrec⟩
  · cases hrec

theorem StepOf.receivedBy_self (h : StepOf L hal t c) :
    receivedBy (kernelRecord t) c = t.outcome.msg := by
  have hcur : (kernelRecord t).pre.current = some c := h.current
  rw [receivedBy, if_pos hcur]
  rfl

theorem StepOf.receivedBy_other (h : StepOf L hal t c) (hd : d ≠ c) :
    receivedBy (kernelRecord t) d = none := by
  cases hrec : receivedBy (kernelRecord t) d with
  | none => rfl
  | some m => exact absurd (h.received hrec).1 hd

/-- Only `actor_receive` hands over a message. -/
theorem Stepped.msg {k k' : Kernel D} {e : Event D} {o : Outcome}
    (h : Stepped L hal k c e k' o) (hmsg : o.msg = some m) :
    o.ret = some 0 ∧ ((∃ call, IsCall e .receive call) ∨ e = .resume) := by
  cases h with
  | receive out hcall =>
      refine ⟨?_, ?_⟩
      · rcases sysReceive_cases k c out with ⟨_, heq⟩ | ⟨_, heq⟩
        · rw [heq] at hmsg
          cases hmsg
        · rw [heq]
      · rcases hcall with ⟨call, hcall, _⟩ | ⟨hresume, _⟩
        · exact Or.inl ⟨call, hcall⟩
        · exact Or.inr hresume
  | quietCall _ hquiet =>
      simp only [syscallDispatch_msg L hal k c _ hquiet] at hmsg
      cases hmsg
  | _ => cases hmsg

/-- Only calls return. -/
theorem Stepped.returns {k k' : Kernel D} {e : Event D} {o : Outcome} {ret : Word}
    (h : Stepped L hal k c e k' o) (hret : o.ret = some ret) :
    (∃ call, e = .syscall call) ∨ e = .resume := by
  cases h with
  | tick | yield | exit | store | device | fault => cases hret
  | receive out hcall =>
      rcases hcall with ⟨call, hcall, _⟩ | ⟨hresume, _⟩
      · exact Or.inl ⟨call, hcall.1⟩
      · exact Or.inr hresume
  | @unknown call => exact Or.inl ⟨call, rfl⟩
  | send hcall | grant hcall | spawn hcall | terminate hcall | spawnProgram hcall
  | createName hcall | programDenied hcall | createDenied hcall | quietCall hcall =>
      exact Or.inl ⟨_, hcall.1⟩

theorem step_resume_context {k k' : Kernel D} {o : Outcome} (hcur : k.current = some c)
    (h : step L hal k .resume = some (k', o)) : ∃ out, (k.actors c).context = .receiving out := by
  unfold step at h
  split at h
  swap
  · cases h
  rw [hcur] at h
  dsimp only at h
  cases hctx : (k.actors c).context with
  | receiving out => exact ⟨out, rfl⟩
  | trampoline | user => simp [hctx, actorStep] at h

/-- **A body goes on only when the call it stands at returns.** -/
theorem StepOf.program_self (h : StepOf L hal t c) (hr : (t.pre.program c).request = some r) :
    ((t.outcome.ret = none ∨ t.event.calls .write = true) ∧ t.post.program c = t.pre.program c) ∨
    ∃ ret, t.outcome.ret = some ret ∧ Made t r ∧
      t.post.program c = (t.pre.program c).answer t.event t.outcome ret := by
  have htaken : takenSlot L t.pre.kernel c t.event ≠ some c := fun hself => h.taken_ne hself rfl
  rw [h.program, nextProgram_self htaken]
  cases hret : t.outcome.ret with
  | none => exact Or.inl ⟨Or.inl rfl, after_silent hret⟩
  | some ret =>
      by_cases hprint : t.event.calls .write = true
      · refine Or.inl ⟨Or.inr hprint, ?_⟩
        simp [Program.after, hret, hprint]
      refine Or.inr ⟨ret, rfl, ?_, by simp [Program.after, hret, hprint]⟩
      rcases h.stepped.returns hret with ⟨call, hevent⟩ | hevent
      · have hallows := h.allows
        rw [hevent] at hallows hprint
        rcases hallows.matches hr with hwrite | hmatch
        · simp [Event.calls, hwrite] at hprint
        · exact Or.inl ⟨call, hevent, hmatch⟩
      · have hstep := h.step
        rw [hevent] at hstep
        obtain ⟨out, hctx⟩ := step_resume_context h.current hstep
        exact Or.inr ⟨hevent, h.waits c out r hctx hr⟩

/-- A body that is handed a message stands at a receive and goes on. -/
theorem StepOf.msg (h : StepOf L hal t c) (hr : (t.pre.program c).request = some r)
    (hmsg : t.outcome.msg = some m) :
    r = .receive ∧ t.post.program c = (t.pre.program c).answer t.event t.outcome 0 := by
  have htaken : takenSlot L t.pre.kernel c t.event ≠ some c := fun hself => h.taken_ne hself rfl
  obtain ⟨hret, hevent⟩ := h.stepped.msg hmsg
  have hanswer : t.event.calls .write = false → t.post.program c =
      (t.pre.program c).answer t.event t.outcome 0 := by
    intro hprint
    rw [h.program, nextProgram_self htaken]
    simp [Program.after, hret, hprint]
  rcases hevent with ⟨call, hcall⟩ | hevent
  · refine ⟨?_, hanswer (by rw [hcall.1]; simp [Event.calls, hcall.2])⟩
    rcases h.call hr hcall with hwrite | ⟨hsys, _⟩
    · cases hwrite
    · exact Request.eq_receive hsys.symm
  · refine ⟨?_, hanswer (by rw [hevent]; rfl)⟩
    have hstep := h.step
    rw [hevent] at hstep
    obtain ⟨out, hctx⟩ := step_resume_context h.current hstep
    exact h.waits c out r hctx hr

end Steps

end Vajra
