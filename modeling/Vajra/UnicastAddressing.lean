import Vajra.ReliableLink

/-!
# Unicast on a broadcast link (`core/net.c`)

`net_send_message_to` is documented to send a message to exactly one device.  It writes the
address into the Ethernet header, and nothing reads it there: `net_poll_receive_raw` looks at
the length and the EtherType, and `net_poll_receive_message` acknowledges every data frame it
decodes.  So a unicast message reaches its addressee only exactly as long as the link itself
hands its frame to nobody else.
-/

namespace Vajra

open TransitionTrace

/-- The frames a step has put on the wire. -/
def sentFrames (r : LinkRecord) : List (List UInt8) :=
  r.post.wire.take (r.post.wire.length - r.pre.wire.length)

/-- The address that the caller gave to `net_send_message_to` or `net_send_message_reliable_to`,
in a step of such a call. -/
def unicastTo (r : LinkRecord) : Option Mac :=
  match r.event with
  | .sendMessageTo _ dest _ _ _ => some dest
  | .sendReliable _ dest _ _ _ => some dest
  | .answer i _ => r.pre.calls[i]?.map LinkCall.dest
  | .sendMessage .. | .receive .. => none

/-- The frames sent to one address, with the address. -/
def unicasts (tr : List LinkRecord) : List (Mac × List UInt8) :=
  tr.flatMap fun r => (unicastTo r).toList.flatMap fun dest => (sentFrames r).map (Prod.mk dest)

/-- The frame a step was handed by the link. -/
def polledFrame (r : LinkRecord) : Option (List UInt8) :=
  match r.event with
  | .answer _ frame => frame
  | .receive _ _ _ frame => frame
  | _ => none

/-- The device on which `net_poll_receive_message` returned 1 in this step. -/
def returnedOne (r : LinkRecord) : Option Mac :=
  match r.event, r.outcome with
  | .receive d _ _ _, .received 1 _ => some d
  | _, _ => none

/-- If the step was handed a unicast frame, then it is returned on no device but the addressee,
and no other device acknowledges it. -/
def OnlyAddressee (tr : List LinkRecord) (r : LinkRecord) : Prop :=
  ∀ f ∈ polledFrame r, ∀ p ∈ unicasts tr, p.2 = f →
    (∀ d ∈ returnedOne r, d = p.1) ∧
      ∀ ack ∈ sentFrames r, (decoded ack).isAck = true → (decoded ack).senderMac = macBytes p.1

/-- Every unicast reached only its addressee. -/
def UnicastIntegrity : List LinkRecord → Prop
  | [] => True
  | r :: tr => OnlyAddressee tr r ∧ UnicastIntegrity tr

/-- The link hands a unicast frame to no `net_poll_receive_message` of another device, unless
that device is offline. -/
def HandedToAddressee (tr : List LinkRecord) (r : LinkRecord) : Prop :=
  match r.event with
  | .receive d _ _ frame =>
      r.pre.online d = false ∨ ∀ f ∈ frame, ∀ p ∈ unicasts tr, p.2 = f → d = p.1
  | _ => True

instance (tr : List LinkRecord) (r : LinkRecord) : Decidable (HandedToAddressee tr r) :=
  match h : r.event with
  | .sendMessage .. => isTrue (by simp [HandedToAddressee, h])
  | .sendMessageTo .. => isTrue (by simp [HandedToAddressee, h])
  | .sendReliable .. => isTrue (by simp [HandedToAddressee, h])
  | .answer .. => isTrue (by simp [HandedToAddressee, h])
  | .receive d _ _ frame =>
      decidable_of_iff (r.pre.online d = false ∨
        ∀ f ∈ frame, ∀ p ∈ unicasts tr, p.2 = f → d = p.1) (by simp only [HandedToAddressee, h])

/-- The link filtered by destination throughout the run. -/
def FilteringLink : List LinkRecord → Prop
  | [] => True
  | r :: tr => HandedToAddressee tr r ∧ FilteringLink tr

instance decidableFilteringLink : (tr : List LinkRecord) → Decidable (FilteringLink tr)
  | [] => isTrue trivial
  | r :: tr =>
      have := decidableFilteringLink tr
      inferInstanceAs (Decidable (HandedToAddressee tr r ∧ FilteringLink tr))

/-- A poll returns 1 only with a message. -/
theorem netPollReceiveRaw_none {D : Type} {hal : Hal D} {net : Net} {dev dev' : D} {maxSpins : Nat}
    {rc : Int} (h : netPollReceiveRaw hal net dev maxSpins = (dev', rc, none)) : rc ≠ 1 := by
  unfold netPollReceiveRaw at h
  split at h
  · cases h
    decide
  · split at h
    split at h
    · cases h
      decide
    · split at h
      · cases h
        decide
      · cases h

/-- A step that sends no acknowledgement and returns no message. -/
def SendsData (r : LinkRecord) (new : List (List UInt8)) : Prop :=
  (∀ f ∈ new, (decoded f).isAck = false) ∧ returnedOne r = none

/-- What a step puts on the wire: data frames, or in a poll of a device that is online its own
frames. -/
theorem linkStep_sent {s s' : Link} {e : LinkEvent} {o : LinkOutcome}
    (hstep : linkStep s e = some (s', o)) : ∃ new, s'.wire = new ++ s.wire ∧
      (SendsData ⟨s, e, o, s'⟩ new ∨
        ∃ d slot maxSpins f, e = .receive d slot maxSpins (some f) ∧ s.online d = true ∧
          ∀ g ∈ new, (decoded g).senderMac = macBytes d) := by
  cases e with
  | sendMessage d slot type data =>
      simp only [linkStep, Option.some.injEq, Prod.mk.injEq] at hstep
      obtain ⟨rfl, rfl⟩ := hstep
      exact ⟨_, rfl, Or.inl ⟨fun f hf => (mem_unnumbered (by simp) hf).2.1, rfl⟩⟩
  | sendMessageTo d dest slot type data =>
      simp only [linkStep, Option.some.injEq, Prod.mk.injEq] at hstep
      obtain ⟨rfl, rfl⟩ := hstep
      exact ⟨_, rfl, Or.inl ⟨fun f hf => (mem_unnumbered (macBytes_length dest) hf).2.1, rfl⟩⟩
  | sendReliable d dest slot type data =>
      rw [linkStep] at hstep
      by_cases honline : s.online d = true
      · rw [if_neg (by simpa using honline)] at hstep
        cases hstep
        refine ⟨_, rfl, Or.inl ⟨fun f hf => ?_, rfl⟩⟩
        have hdevice : (newCall (s.net d) d dest slot type data s.now).device = d := rfl
        rcases mem_transmit hdevice hf with hnil | hcarries
        · exact absurd hnil List.not_mem_nil
        · exact hcarries.2.1
      · rw [if_pos (by simpa using honline)] at hstep
        cases hstep
        exact ⟨[], rfl, Or.inl ⟨by simp, rfl⟩⟩
  | answer i frame =>
      rw [linkStep] at hstep
      split_ifs at hstep with hframe
      cases hc : s.calls[i]? with
      | none => simp [hc] at hstep
      | some c =>
          rcases hturn : answerTurn portHal (s.net c.device) c ⟨[], [frame]⟩ with ⟨port, turn⟩
          simp only [hc, hturn] at hstep
          obtain ⟨f, -, -, hsent, rfl⟩ | ⟨hsent, rfl⟩ | ⟨left, rfl, hsent⟩ := answerTurn_port hturn
          · cases hstep
            exact ⟨_, rfl, Or.inl ⟨by simp [hsent], rfl⟩⟩
          · cases hstep
            exact ⟨_, rfl, Or.inl ⟨by simp [hsent], rfl⟩⟩
          · cases hstep
            exact ⟨_, rfl, Or.inl ⟨fun f hf => (hsent f hf).2.1, rfl⟩⟩
  | receive d slot maxSpins frame =>
      rw [linkStep] at hstep
      split_ifs at hstep with hframe
      rcases hpoll : netPollReceiveRaw portHal (s.net d) ⟨[], [frame]⟩ maxSpins with ⟨port, rc, raw⟩
      obtain ⟨hsent, rfl | ⟨f, rfl, rfl, rfl, honline⟩⟩ := netPollReceiveRaw_port hpoll
      · simp only [netPollReceiveMessage, hpoll, Option.some.injEq, Prod.mk.injEq] at hstep
        obtain ⟨rfl, rfl⟩ := hstep
        have hrc : rc ≠ 1 := netPollReceiveRaw_none hpoll
        exact ⟨_, rfl, Or.inl ⟨by simp [hsent], by simp [returnedOne, hrc]⟩⟩
      · by_cases hack : (decoded f).isAck = true
        · simp only [netPollReceiveMessage, hpoll, hack, if_true, Option.some.injEq,
            Prod.mk.injEq] at hstep
          obtain ⟨rfl, rfl⟩ := hstep
          exact ⟨_, rfl, Or.inl ⟨by simp [hsent], by simp [returnedOne]⟩⟩
        · simp only [netPollReceiveMessage, hpoll, hack, Bool.false_eq_true, if_false,
            Option.some.injEq, Prod.mk.injEq] at hstep
          obtain ⟨rfl, rfl⟩ := hstep
          refine ⟨_, rfl, Or.inr ⟨d, slot, maxSpins, f, rfl, honline, fun g hg => ?_⟩⟩
          have hmac : (decoded f).senderMac.length = 6 := by simp [decoded, decodeFrame]
          rw [netSendRaw_port, if_pos honline, hsent] at hg
          rw [List.mem_singleton.mp hg, decoded_encodeFrame _ hmac s d]

/-- The frames a step adds are the ones it has sent. -/
theorem sentFrames_eq {s s' : Link} {e : LinkEvent} {o : LinkOutcome} {new : List (List UInt8)}
    (hwire : s'.wire = new ++ s.wire) : sentFrames ⟨s, e, o, s'⟩ = new := by
  rw [sentFrames, hwire, List.length_append, Nat.add_sub_cancel, List.take_left]

/-- A unicast frame is a data frame. -/
theorem LinkRun.unicast_data {online : Mac → Bool} {tr : List LinkRecord} {s : Link}
    (hrun : LinkRun online tr s) : ∀ p ∈ unicasts tr, (decoded p.2).isAck = false := by
  refine hrun.history_invariant (fun tr _ => ∀ p ∈ unicasts tr, (decoded p.2).isAck = false)
    (by simp [unicasts]) ?_
  intro tr s e o s' _ ih hstep p hp
  rw [unicasts, List.flatMap_cons, List.mem_append] at hp
  rcases hp with hnew | hold
  · obtain ⟨new, hwire, hkind⟩ := linkStep_sent hstep
    rw [sentFrames_eq hwire] at hnew
    rcases hkind with hdata | ⟨d, slot, maxSpins, f, rfl, -⟩
    · simp only [List.mem_flatMap, List.mem_map] at hnew
      obtain ⟨dest, -, f, hf, rfl⟩ := hnew
      exact hdata.1 f hf
    · exact absurd hnew (by simp [unicastTo])
  · exact ih p hold

theorem returnedOne_receive {s s' : Link} {o : LinkOutcome} {d d' : Mac} {slot : Word}
    {maxSpins : Nat} {frame : Option (List UInt8)}
    (h : d' ∈ returnedOne ⟨s, .receive d slot maxSpins frame, o, s'⟩) : d' = d := by
  unfold returnedOne at h
  split at h
  · next hevent houtcome =>
      cases hevent
      exact (Option.some.inj h).symm
  · cases h

/-- **One step.**  A unicast frame is kept from all but its addressee exactly when the link does
so. -/
theorem onlyAddressee_iff {online : Mac → Bool} {tr : List LinkRecord} {s s' : Link} {e : LinkEvent}
    {o : LinkOutcome} (hrun : LinkRun online tr s) (hstep : linkStep s e = some (s', o)) :
    OnlyAddressee tr ⟨s, e, o, s'⟩ ↔ HandedToAddressee tr ⟨s, e, o, s'⟩ := by
  constructor
  · intro honly
    cases e with
    | receive d slot maxSpins frame =>
        refine or_iff_not_imp_left.mpr fun hon f hf p hp hpf => ?_
        have honline : s.online d = true := Bool.not_eq_false _ ▸ hon
        have hwire : f ∈ s.wire := by
          rw [linkStep] at hstep
          split_ifs at hstep with hframe
          exact hframe f hf
        obtain rfl : frame = some f := hf
        have hdata : (decoded f).isAck = false := hpf ▸ hrun.unicast_data p hp
        -- nothing in the poll looks at the destination
        rw [receive_accepts slot maxSpins honline hwire (hrun.shape.ours f hwire) hdata] at hstep
        cases hstep
        exact (honly f rfl p hp hpf).1 d rfl
    | _ => trivial
  · intro hhanded f hf p hp hpf
    obtain ⟨new, hwire, hkind⟩ := linkStep_sent hstep
    rw [sentFrames_eq hwire]
    rcases hkind with ⟨hdata, hnone⟩ | ⟨d, slot, maxSpins, f', rfl, honline, hmac⟩
    · refine ⟨by simp [hnone], fun ack hack htrue => ?_⟩
      rw [hdata ack hack] at htrue
      cases htrue
    · obtain rfl : f' = f := Option.some.inj hf
      have hd : d = p.1 := by
        rcases hhanded with hoffline | hto
        · exact absurd (hoffline.symm.trans honline) Bool.false_ne_true
        · exact hto f' rfl p hp hpf
      exact ⟨fun d' hd' => (returnedOne_receive hd').trans hd, fun ack hack _ => hd ▸ hmac ack hack⟩

theorem LinkRun.filtering {online : Mac → Bool} {tr : List LinkRecord} {s : Link}
    (hrun : LinkRun online tr s) (hunicast : UnicastIntegrity tr) : FilteringLink tr := by
  induction hrun with
  | nil => trivial
  | snoc before hstep ih =>
      exact ⟨(onlyAddressee_iff before hstep).mp hunicast.1, ih hunicast.2⟩

theorem LinkRun.unicastIntegrity {online : Mac → Bool} {tr : List LinkRecord} {s : Link}
    (hrun : LinkRun online tr s) (hlink : FilteringLink tr) : UnicastIntegrity tr := by
  induction hrun with
  | nil => trivial
  | snoc before hstep ih =>
      exact ⟨(onlyAddressee_iff before hstep).mpr hlink.1, ih hlink.2⟩

/-- **Unicast reaches only its addressee exactly when the link filters.**  In every run of any
set of devices, no device other than the addressee returns or acknowledges a unicast frame if
and only if the link handed no such frame to a device that polls and is online. -/
theorem unicast_integrity_iff {online : Mac → Bool} {tr : List LinkRecord} {s : Link}
    (hrun : LinkRun online tr s) : UnicastIntegrity tr ↔ FilteringLink tr :=
  ⟨hrun.filtering, hrun.unicastIntegrity⟩

/-- Device 1 sends to device 2, which receives the message and acknowledges it. -/
def addressedDelivery : List LinkEvent :=
  [.sendMessageTo 1 2 0 7 8, .receive 2 3 100 (some (dataFrame 1 2 0 7 8 0)),
    .sendReliable 1 2 0 7 9, .receive 2 3 100 (some (dataFrame 1 2 0 7 9 1)),
    .receive 3 0 100 (some (ackFrame 2 1 3 1)), .answer 0 (some (ackFrame 2 1 3 1))]

theorem unicast_integrity_addressed : ∃ tr s, LinkRun (fun _ => true) tr s ∧ FilteringLink tr ∧
    (∃ r ∈ tr, (returnedOne r).isSome) ∧ UnicastIntegrity tr := by
  have hview : (runTrace linkStep [] (Link.start fun _ => true) addressedDelivery).map
      (fun p => (decide (FilteringLink p.1), decide (∃ r ∈ p.1, (returnedOne r).isSome))) =
      some (true, true) := by
    decide +kernel
  obtain ⟨tr, s, hrun, hview⟩ := exists_trace_of_runTrace hview
  simp only [Prod.mk.injEq, decide_eq_true_eq] at hview
  exact ⟨tr, s, hrun, hview.1, hview.2, (unicast_integrity_iff hrun).mpr hview.1⟩

/-- Device 1 sends to device 2, and device 3 polls first. -/
def overheardDelivery : List LinkEvent :=
  [.sendMessageTo 1 2 0 7 8, .receive 3 0 100 (some (dataFrame 1 2 0 7 8 0))]

/-- Device 3 returns the message that was sent to device 2, and acknowledges it. -/
theorem unicast_overheard : ∃ tr s, LinkRun (fun _ => true) tr s ∧ ¬ UnicastIntegrity tr := by
  have hview : (runTrace linkStep [] (Link.start fun _ => true) overheardDelivery).map
      (fun p => decide (FilteringLink p.1)) = some false := by
    decide +kernel
  obtain ⟨tr, s, hrun, hview⟩ := exists_trace_of_runTrace hview
  exact ⟨tr, s, hrun, fun hunicast => of_decide_eq_false hview (LinkRun.filtering hrun hunicast)⟩

end Vajra
