import Vajra.RingQueue
import Vajra.SchedulerInvariant

/-!
# Mailboxes as bounded queues

From a run we read off, for the present occupant of a slot, the messages
`actor_send` accepted for it and the messages `actor_receive` handed to it
(`accepted`, `received`); both start again when an `actor_spawn` takes the slot.
The ring buffer in the actor's record holds exactly the difference
(`MailInv`), so what was received is a prefix of what was accepted.
-/

namespace Vajra

open TransitionTrace

variable {D : Type}

/-- The message a step queues for `d`: the call's type and data, stamped with the
slot that was current. -/
def acceptedBy (t : Record D) (d : Slot) : Option Message :=
  match t.event with
  | .syscall call =>
      if Syscall.decode call.num = some .send ∧ slotOf (cInt call.a1) = some d ∧
          t.outcome.ret = some (cRet 0) then
        t.pre.current.map fun c => ⟨call.a2, BitVec.ofNat 64 c, call.a3⟩
      else none
  | _ => none

/-- The message a step hands to `d`. -/
def receivedBy (t : Record D) (d : Slot) : Option Message :=
  if t.pre.current = some d then t.outcome.msg else none

/-- The messages accepted for the present occupant of `d`, oldest first. -/
def accepted (L : Layout) : List (Record D) → Slot → List Message
  | [], _ => []
  | t :: tr, d =>
      if spawnedInto L t = some d then [] else accepted L tr d ++ (acceptedBy t d).toList

/-- The messages the present occupant of `d` has received, oldest first. -/
def received (L : Layout) : List (Record D) → Slot → List Message
  | [], _ => []
  | t :: tr, d =>
      if spawnedInto L t = some d then [] else received L tr d ++ (receivedBy t d).toList

/-- The queue in an actor's ring buffer. -/
def Actor.queue (a : Actor) : List Message :=
  RingQueue.contents mailboxCapacity a.mailbox a.mailboxHead a.mailboxCount

/-- A ring buffer whose indices are in range. -/
structure Actor.RingOk (a : Actor) : Prop where
  head : a.mailboxHead < mailboxCapacity
  count : a.mailboxCount ≤ mailboxCapacity

/-- The mailbox invariant: rings are in range and hold what was accepted and not
yet received. -/
structure MailInv (L : Layout) (tr : List (Record D)) (k : Kernel D) : Prop where
  ring : ∀ d, (k.actors d).RingOk
  exact : ∀ d, accepted L tr d = received L tr d ++ (k.actors d).queue

/-- Two records with the same ring buffer. -/
def SameMailbox (a a' : Actor) : Prop :=
  a'.mailbox = a.mailbox ∧ a'.mailboxHead = a.mailboxHead ∧ a'.mailboxCount = a.mailboxCount

theorem SameMailbox.rfl {a : Actor} : SameMailbox a a := ⟨Eq.refl _, Eq.refl _, Eq.refl _⟩

theorem SameMailbox.of_eq {a a' : Actor} (h : a' = a) : SameMailbox a a' := by
  subst h
  exact .rfl

theorem SameMailbox.trans {a a' a'' : Actor} (h : SameMailbox a a') (h' : SameMailbox a' a'') :
    SameMailbox a a'' :=
  ⟨h'.1.trans h.1, h'.2.1.trans h.2.1, h'.2.2.trans h.2.2⟩

theorem SameMailbox.queue {a a' : Actor} (h : SameMailbox a a') : a'.queue = a.queue := by
  rw [Actor.queue, Actor.queue, h.1, h.2.1, h.2.2]

theorem SameMailbox.ringOk {a a' : Actor} (h : SameMailbox a a') (ha : a.RingOk) : a'.RingOk :=
  ⟨h.2.1 ▸ ha.head, h.2.2 ▸ ha.count⟩

/-- `actor_send` appends to the queue. -/
theorem enqueue_queue {a : Actor} {m : Message} (hroom : a.mailboxCount < mailboxCapacity) :
    (enqueue a m).queue = a.queue ++ [m] :=
  RingQueue.contents_enqueue hroom

theorem enqueue_ringOk {a : Actor} {m : Message} (h : a.RingOk)
    (hroom : a.mailboxCount < mailboxCapacity) : (enqueue a m).RingOk :=
  ⟨h.head, hroom⟩

/-- `actor_receive` takes the head of the queue. -/
theorem dequeue_queue {a : Actor} (h : a.RingOk) (hcount : a.mailboxCount ≠ 0) :
    a.queue = a.mailbox a.mailboxHead :: (dequeue a).queue :=
  RingQueue.contents_dequeue h.head (Nat.pos_of_ne_zero hcount)

theorem dequeue_ringOk {a : Actor} (h : a.RingOk) : (dequeue a).RingOk :=
  ⟨Nat.mod_lt _ (by decide), Nat.le_trans (Nat.sub_le _ _) h.count⟩

/-- What a step does to the mailbox of one slot. -/
inductive MailStep (L : Layout) (t : Record D) (d : Slot) : Prop
  | fresh (htaken : spawnedInto L t = some d) (hhead : (t.post.actors d).mailboxHead = 0)
      (hcount : (t.post.actors d).mailboxCount = 0)
  | same (htaken : spawnedInto L t ≠ some d) (hacc : acceptedBy t d = none)
      (hrec : receivedBy t d = none)
      (hsame : SameMailbox (t.pre.actors d) (t.post.actors d))
  | queued (m : Message) (htaken : spawnedInto L t ≠ some d) (hacc : acceptedBy t d = some m)
      (hrec : receivedBy t d = none)
      (hroom : (t.pre.actors d).mailboxCount < mailboxCapacity)
      (hpost : t.post.actors d = enqueue (t.pre.actors d) m)
  | taken (htaken : spawnedInto L t ≠ some d) (hacc : acceptedBy t d = none)
      (hrec : receivedBy t d =
        some ((t.pre.actors d).mailbox (t.pre.actors d).mailboxHead))
      (hcount : (t.pre.actors d).mailboxCount ≠ 0)
      (hpost : t.post.actors d = dequeue (t.pre.actors d))

/-- What a step does to a queue: a new occupant finds it empty, else what is handed over leaves
at the front and what is accepted joins at the back. -/
theorem MailStep.queue {L : Layout} {t : Record D} {d : Slot} (h : MailStep L t d)
    (hring : (t.pre.actors d).RingOk) :
    (spawnedInto L t = some d ∧ (t.post.actors d).queue = []) ∨
    (spawnedInto L t ≠ some d ∧ (receivedBy t d).toList ++ (t.post.actors d).queue =
      (t.pre.actors d).queue ++ (acceptedBy t d).toList) := by
  cases h with
  | fresh htaken _ hcount =>
      refine Or.inl ⟨htaken, ?_⟩
      rw [Actor.queue, hcount]
      rfl
  | same htaken hacc hrec hsame =>
      refine Or.inr ⟨htaken, ?_⟩
      simp [hacc, hrec, hsame.queue]
  | queued m htaken hacc hrec hroom hpost =>
      refine Or.inr ⟨htaken, ?_⟩
      simp [hacc, hrec, hpost, enqueue_queue hroom]
  | taken htaken hacc hrec hcount hpost =>
      refine Or.inr ⟨htaken, ?_⟩
      simp [hacc, hrec, hpost, dequeue_queue hring hcount]

/-- The invariant is kept by any step that is a `MailStep` for every slot. -/
theorem MailInv.next {L : Layout} {tr : List (Record D)} {t : Record D}
    (h : MailInv L tr t.pre) (hstep : ∀ d, MailStep L t d) : MailInv L (t :: tr) t.post := by
  refine ⟨fun d => ?_, fun d => ?_⟩
  · cases hstep d with
    | fresh _ hhead hcount => exact ⟨by rw [hhead]; decide, by rw [hcount]; decide⟩
    | same _ _ _ hsame => exact hsame.ringOk (h.ring d)
    | queued m _ _ _ hroom hpost =>
        rw [hpost]
        exact enqueue_ringOk (h.ring d) hroom
    | taken _ _ _ _ hpost =>
        rw [hpost]
        exact dequeue_ringOk (h.ring d)
  · have hold := h.exact d
    rcases (hstep d).queue (h.ring d) with ⟨htaken, hqueue⟩ | ⟨htaken, hqueue⟩
    · simp [accepted, received, htaken, hqueue]
    · simp only [accepted, received, if_neg htaken]
      rw [hold, List.append_assoc, List.append_assoc, hqueue]

/-- Switching to another actor leaves every mailbox alone. -/
theorem scheduleNext_mailbox (k : Kernel D) (d : Slot) :
    SameMailbox (k.actors d) ((scheduleNext k).actors d) := by
  obtain ⟨page, st, ctx, heq, -, -⟩ := scheduleNext_actor k d
  rw [heq]
  exact ⟨rfl, rfl, rfl⟩

/-- A table in which one record was rewritten without touching its mailbox. -/
theorem update_mailbox {actors actors' : Slot → Actor} {i : Slot} {a : Actor}
    (hset : actors' = Function.update actors i a) (h : SameMailbox (actors i) a) (d : Slot) :
    SameMailbox (actors d) (actors' d) := by
  rw [hset]
  by_cases hd : d = i
  · subst hd
    simpa using h
  · exact .of_eq (by simp [hd])

/-- A checked spawn resets the mailbox of the slot it takes and no other. -/
theorem ChildSpawn.mailbox {k k' : Kernel D} {c : Slot} {taken result : Option Slot}
    (h : ChildSpawn k c k' taken result) (d : Slot) :
    (taken = some d ∧ (k'.actors d).mailboxHead = 0 ∧ (k'.actors d).mailboxCount = 0) ∨
    (taken ≠ some d ∧ SameMailbox (k.actors d) (k'.actors d)) := by
  cases h with
  | refused h => exact Or.inr ⟨by simp, .of_eq (by rw [h])⟩
  | aborted i cr3 page entry _ _ h =>
      by_cases hd : d = i
      · subst hd
        exact Or.inl ⟨rfl, by simp [h, freshActor], by simp [h, freshActor]⟩
      · exact Or.inr ⟨by simp [Ne.symm hd], .of_eq (by simp [h, hd])⟩
  | spawned i cr3 page entry _ _ hchild hspawner hother =>
      by_cases hd : d = i
      · subst hd
        exact Or.inl ⟨rfl, by simp [hchild, freshActor], by simp [hchild, freshActor]⟩
      · refine Or.inr ⟨by simp [Ne.symm hd], ?_⟩
        by_cases hc : d = c
        · subst hc
          rw [hspawner]
          exact ⟨rfl, rfl, rfl⟩
        · exact .of_eq (hother d hd hc)

/-- Only `SYS_RECEIVE` hands over a message. -/
theorem syscallDispatch_msg (L : Layout) (hal : Hal D) (k : Kernel D) (c : Slot) (call : Call)
    {sys : Syscall} (hquiet : sys.quiet = true) :
    (syscallDispatch L hal k c call sys).msg = none := by
  have hguarded : ∀ op target (r : SysResult D), r.msg = none →
      (guarded k c op target r).msg = none := by
    intro op target r hr
    unfold guarded
    split
    · exact hr
    · rfl
  cases sys with
  | yield | exit | send | receive | grant | spawn | terminate | spawnProgram | createName =>
      simp [Syscall.quiet] at hquiet
  | write | lookupName | rtcRead => rfl
  | objectRead =>
      apply hguarded
      unfold sysObjectRead
      split <;> rfl
  | listObjects =>
      apply hguarded
      unfold sysListObjects
      split <;> rfl
  | netReceive =>
      apply hguarded
      unfold sysNetReceive
      split <;> rfl
  | objectWrite | objectPromote | objectReject | netSend | netSendTo | netSendReliable
  | renameObject | deleteName | keyRead => exact hguarded _ _ _ rfl

/-- Only `SYS_SEND` queues a message. -/
theorem acceptedBy_of_call {k k' : Kernel D} {e : Event D} {o : Outcome} {sys : Syscall}
    {call : Call} (h : IsCall e sys call) (hs : sys ≠ .send) (d : Slot) :
    acceptedBy ⟨k, e, o, k'⟩ d = none := by
  obtain ⟨rfl, hdecode⟩ := h
  simp [acceptedBy, hdecode, hs]

/-- A step that neither queues nor hands over, and whose mailboxes are as before. -/
theorem MailStep.of_same {L : Layout} {k k' : Kernel D} {e : Event D} {o : Outcome} {c d : Slot}
    (hcur : k.current = some c) (htaken : takenSlot L k c e = none)
    (hacc : acceptedBy ⟨k, e, o, k'⟩ d = none) (hmsg : o.msg = none)
    (hsame : SameMailbox (k.actors d) (k'.actors d)) : MailStep L ⟨k, e, o, k'⟩ d :=
  .same (by simp [spawnedInto, hcur, htaken]) hacc (by simp [receivedBy, hmsg]) hsame

/-- `SYS_SEND`, for the mailbox of one slot. -/
theorem send_mailStep {L : Layout} {k : Kernel D} {e : Event D} {call : Call} {c : Slot}
    (hcur : k.current = some c) (hcall : IsCall e .send call) (d : Slot) :
    MailStep L ⟨k, e, ⟨some (cRet (actorSend k c (cInt call.a1) call.a2 call.a3).2), [], none⟩,
      (actorSend k c (cInt call.a1) call.a2 call.a3).1⟩ d := by
  have htaken : takenSlot L k c e = none := takenSlot_of_call hcall (by simp) (by simp)
  obtain ⟨rfl, hdecode⟩ := hcall
  have hrefuse : cRet (-1) ≠ cRet 0 := by decide
  rcases actorSend_cases k c (cInt call.a1) call.a2 call.a3 with
    heq | ⟨t, hdest, _, _, hroom, heq⟩
  · rw [heq]
    exact .of_same hcur htaken (by simp [acceptedBy, hrefuse]) rfl .rfl
  · rw [heq]
    by_cases hd : d = t
    · subst hd
      refine .queued ⟨call.a2, BitVec.ofNat 64 c, call.a3⟩ ?_ ?_ ?_ hroom ?_
      · simp [spawnedInto, hcur, htaken]
      · simp [acceptedBy, hdecode, hdest, hcur]
      · simp [receivedBy]
      · simp
    · refine .of_same hcur htaken ?_ rfl (.of_eq (by simp [hd]))
      have hne : slotOf (cInt call.a1) ≠ some d := by
        rw [hdest, Ne, Option.some.injEq]
        exact fun h => hd h.symm
      simp [acceptedBy, hne]

/-- `SYS_RECEIVE`, at its call or at a later turn of its loop, for the mailbox of
one slot. -/
theorem receive_mailStep {L : Layout} {k : Kernel D} {e : Event D} {c : Slot} {out : Word}
    (hcur : k.current = some c) (htaken : takenSlot L k c e = none)
    (hacc : ∀ o k' d, acceptedBy ⟨k, e, o, k'⟩ d = none) (d : Slot) :
    MailStep L ⟨k, e, ((sysReceive k c out).finish c).2, ((sysReceive k c out).finish c).1⟩ d := by
  rcases sysReceive_cases k c out with ⟨_, heq⟩ | ⟨hcount, heq⟩
  · rw [heq]
    have hblocked : SameMailbox (k.actors c)
        { k.actors c with state := .blocked, context := .receiving out } := ⟨rfl, rfl, rfl⟩
    exact .of_same hcur htaken (hacc _ _ _) rfl
      ((update_mailbox rfl hblocked d).trans (scheduleNext_mailbox _ d))
  · rw [heq]
    by_cases hd : d = c
    · subst hd
      exact .taken (by simp [spawnedInto, hcur, htaken]) (hacc _ _ _) (by simp [receivedBy, hcur])
        hcount (by simp)
    · refine .same (by simp [spawnedInto, hcur, htaken]) (hacc _ _ _) ?_ (.of_eq (by simp [hd]))
      have hne : k.current ≠ some d := by
        rw [hcur, Ne, Option.some.injEq]
        exact fun h => hd h.symm
      simp [receivedBy, hne]

/-- A checked spawn, for the mailbox of one slot. -/
theorem spawn_mailStep {L : Layout} {k k' : Kernel D} {e : Event D} {sys : Syscall} {call : Call}
    {o : Outcome} {c : Slot} {taken result : Option Slot} (hcur : k.current = some c)
    (hcall : IsCall e sys call) (hs : sys ≠ .send) (htaken : takenSlot L k c e = taken)
    (hmsg : o.msg = none) (h : ChildSpawn k c k' taken result) (d : Slot) :
    MailStep L ⟨k, e, o, k'⟩ d := by
  have hinto : spawnedInto L ⟨k, e, o, k'⟩ = taken := by simp [spawnedInto, hcur, htaken]
  rcases h.mailbox d with ⟨hd, hhead, hcount⟩ | ⟨hd, hsame⟩
  · exact .fresh (hinto.trans hd) hhead hcount
  · exact .same (by rw [hinto]; exact hd) (acceptedBy_of_call hcall hs d)
      (by simp [receivedBy, hmsg]) hsame

/-- **Every step is a `MailStep` for every slot.** -/
theorem Stepped.mailStep {L : Layout} {hal : Hal D} {k k' : Kernel D} {c : Slot} {e : Event D}
    {o : Outcome} (h : Stepped L hal k c e k' o) (hcur : k.current = some c) (hlive : k.Live c)
    (d : Slot) : MailStep L ⟨k, e, o, k'⟩ d := by
  have hyield : ∀ st, SameMailbox (k.actors d) ((scheduleNext (k.setState c st)).actors d) := by
    intro st
    have hset : SameMailbox (k.actors c) { k.actors c with state := st } := ⟨rfl, rfl, rfl⟩
    exact (update_mailbox rfl hset d).trans (scheduleNext_mailbox (k.setState c st) d)
  cases h with
  | tick => exact .of_same hcur rfl rfl rfl (hyield _)
  | yield hcall | exit hcall =>
      exact .of_same hcur (takenSlot_of_call hcall (by simp) (by simp))
        (acceptedBy_of_call hcall (by simp) d) rfl (hyield _)
  | send hcall => exact send_mailStep hcur hcall d
  | receive out hcall =>
      rcases hcall with ⟨call, hcall, _⟩ | ⟨rfl, _⟩
      · exact receive_mailStep hcur (takenSlot_of_call hcall (by simp) (by simp))
          (fun _ _ d => acceptedBy_of_call hcall (by simp) d) d
      · exact receive_mailStep hcur rfl (fun _ _ _ => rfl) d
  | @grant _ call hcall =>
      refine .of_same hcur (takenSlot_of_call hcall (by simp) (by simp))
        (acceptedBy_of_call hcall (by simp) d) rfl ?_
      rcases actorDelegate_cases k c (cInt call.a1) (cInt call.a2) (cInt call.a3) with
        heq | ⟨t, _, _, heq⟩
      · rw [heq]
        exact .rfl
      · rw [heq, actorAddCap_fst]
        exact update_mailbox rfl (by exact ⟨rfl, rfl, rfl⟩) d
  | @spawn _ call hcall =>
      obtain ⟨hspawn, _⟩ := actorSpawnChild_spec L k hlive call.a1.toNat
      refine spawn_mailStep hcur hcall (by simp) ?_ rfl hspawn d
      obtain ⟨rfl, hdecode⟩ := hcall
      simp [takenSlot, hdecode]
  | @spawnProgram _ call hcall hcap =>
      obtain ⟨hspawn, _⟩ := loaderSpawnProgram_spec L k hlive (cInt call.a1)
      refine spawn_mailStep hcur hcall (by simp) ?_ rfl hspawn d
      obtain ⟨rfl, hdecode⟩ := hcall
      simp [takenSlot, hdecode, hcap]
  | @terminate _ call hcall =>
      refine .of_same hcur (takenSlot_of_call hcall (by simp) (by simp))
        (acceptedBy_of_call hcall (by simp) d) rfl ?_
      rcases actorTerminate_cases k c (cInt call.a1) with heq | ⟨t, _, _, _, heq⟩
      · rw [heq]
        exact .rfl
      · rw [heq]
        exact update_mailbox rfl (by exact ⟨rfl, rfl, rfl⟩) d
  | @createName _ call hcall hcap =>
      refine .of_same hcur (takenSlot_of_call hcall (by simp) (by simp))
        (acceptedBy_of_call hcall (by simp) d) rfl ?_
      rcases sysCreateName_cases k c (userBytes k c call.a1) with ⟨_, heq⟩ | ⟨_, heq⟩
      · rw [heq]
        exact .rfl
      · rw [heq]
        exact update_mailbox rfl (by exact ⟨rfl, rfl, rfl⟩) d
  | programDenied hcall hcap =>
      refine .of_same hcur ?_ (acceptedBy_of_call hcall (by simp) d) rfl .rfl
      obtain ⟨rfl, hdecode⟩ := hcall
      simp [takenSlot, hdecode, hcap]
  | createDenied hcall =>
      exact .of_same hcur (takenSlot_of_call hcall (by simp) (by simp))
        (acceptedBy_of_call hcall (by simp) d) rfl .rfl
  | @quietCall _ call sys hcall hquiet hstep =>
      have hne : ∀ {loud : Syscall}, loud.quiet = false → sys ≠ loud :=
        Syscall.ne_of_quiet hquiet
      exact .of_same hcur (takenSlot_of_call hcall (hne rfl) (hne rfl))
        (acceptedBy_of_call hcall (hne rfl) d) (syscallDispatch_msg L hal k c call hquiet)
        (.of_eq (by rw [hstep.actors]))
  | unknown hdecode =>
      exact .of_same hcur (by simp [takenSlot, hdecode]) (by simp [acceptedBy, hdecode]) rfl .rfl
  | store | device | fault => exact .of_same hcur rfl rfl rfl .rfl

/-- Every ring is empty until the first actor runs. -/
theorem setupState_mailbox (L : Layout) (b : Boot D) (n : Nat) (d : Slot) :
    ((setupState L b n).actors d).mailboxHead = 0 ∧
      ((setupState L b n).actors d).mailboxCount = 0 := by
  refine setupState_induction (P := fun k => ∀ d, (k.actors d).mailboxHead = 0 ∧
    (k.actors d).mailboxCount = 0) ?_ ?_ n d
  · exact fun _ => ⟨rfl, rfl⟩
  · intro k op _ hk d
    have hsame : ∀ {i : Slot} {a : Actor}, SameMailbox (k.actors i) a →
        ((k.setActor i a).actors d).mailboxHead = 0 ∧
          ((k.setActor i a).actors d).mailboxCount = 0 := by
      intro i a ha
      obtain ⟨_, hhead, hcount⟩ := @update_mailbox k.actors _ _ _ rfl ha d
      exact ⟨hhead.trans (hk d).1, hcount.trans (hk d).2⟩
    rcases setupStep_cases L k op with ⟨entry, _, heq⟩ | ⟨st, heq⟩ | ⟨s, right, target, _, heq⟩ |
      ⟨s, quota, win, heq⟩
    · rw [heq]
      rcases actorSpawn_actors L k entry with ⟨_, hkeep⟩ | ⟨i, cr3, page, _, _, hupd⟩
      · rw [hkeep]
        exact hk d
      · rw [hupd]
        by_cases hd : d = i
        · subst hd
          simp [freshActor]
        · rw [Function.update_of_ne hd]
          exact hk d
    · rw [heq]
      exact hk d
    · rw [heq]
      exact hsame (by exact ⟨rfl, rfl, rfl⟩)
    · rw [heq]
      exact hsame (by exact ⟨rfl, rfl, rfl⟩)

/-- Mailboxes are empty at boot. -/
theorem bootState_mailbox (L : Layout) (b : Boot D) (d : Slot) :
    ((bootState L b).actors d).mailboxHead = 0 ∧ ((bootState L b).actors d).mailboxCount = 0 := by
  have hsetup := setupState_mailbox L b (kernelMainOps b).length d
  rw [← kernelMain_eq_setupState] at hsetup
  rw [bootState, schedulerStart]
  generalize kernelMain L b = k at hsetup
  obtain ⟨_, hhead, hcount⟩ := scheduleNext_mailbox k d
  exact ⟨hhead.trans hsetup.1, hcount.trans hsetup.2⟩

theorem bootState_queue (L : Layout) (b : Boot D) (d : Slot) :
    ((bootState L b).actors d).queue = [] := by
  rw [Actor.queue, (bootState_mailbox L b d).2]
  rfl

theorem bootState_mail (L : Layout) (b : Boot D) : MailInv L [] (bootState L b) := by
  refine ⟨fun d => ⟨?_, ?_⟩, fun d => ?_⟩
  · rw [(bootState_mailbox L b d).1]
    decide
  · rw [(bootState_mailbox L b d).2]
    decide
  · rw [bootState_queue]
    rfl

theorem run_mail {L : Layout} {hal : Hal D} {b : Boot D} {tr : List (Record D)} {k : Kernel D}
    (h : Run L hal b tr k) : MailInv L tr k := by
  refine h.history_invariant (MailInv L) (bootState_mail L b) ?_
  intro tr k e o k' hrun hinv hstep
  obtain ⟨c, _, hcur, hlive, hstepped⟩ := Run.stepped hrun hstep
  exact MailInv.next (t := ⟨k, e, o, k'⟩) hinv (hstepped.mailStep hcur hlive)

end Vajra
