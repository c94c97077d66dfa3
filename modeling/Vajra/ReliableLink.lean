import Vajra.NetMessage
import Vajra.TransitionTrace

/-!
# Reliable sends on a shared link (`core/net.c`)

Any number of devices run `core/net.c` on one broadcast link.  A frame that was sent stays on
the wire: the link may hand it to any device, any number of times, in any order, or never.
Any number of calls of `net_send_message_reliable_to` are under way on each device, and a step
of the link runs one of them up to its next poll, or one whole call of the other functions.

An acknowledgement carries the number of the frame it answers and the address of the device
that sends it, but not the address of the device whose frame it answers; every device numbers
its reliable sends from 1, and `net_poll_receive_raw` does not look at the destination address.
So a caller can take the answer to another device's frame for its own.  `Clear` is the
condition on a step under which that cannot happen.  `reliable_delivery` proves the guarantee
of `net.h` for every run of clear steps, and `unclear_breaks` that a step that is not clear can
be followed by a wrong answer.
-/

namespace Vajra

open ByteMemory TransitionTrace

/-- The address of a device. -/
abbrev Mac := BitVec 48

/-- The six bytes of an address. -/
def macBytes (m : Mac) : List UInt8 := (List.range 6).map (leByte m.toNat)

@[simp] theorem macBytes_length (m : Mac) : (macBytes m).length = 6 := by simp [macBytes]

theorem macBytes_injective {m n : Mac} (h : macBytes m = macBytes n) : m = n := by
  have hread : ∀ k : Mac, readLE (frameBytes (macBytes k)) 0 6 = k.toNat := by
    intro k
    have hbytes : ∀ i < 6, frameBytes (macBytes k) (0 + i) = leByte k.toNat i := by
      intro i hi
      rw [Nat.zero_add, macBytes, frameBytes_range _ hi]
    rw [readLE_of_bytes hbytes, Nat.mod_eq_of_lt (by simpa using k.isLt)]
  refine BitVec.eq_of_toNat_eq ?_
  rw [← hread m, ← hread n, h]

/-- The network card of a device: the frames it has put on the wire, newest first, and what
its next polls find. -/
structure Port where
  sent : List (List UInt8)
  waiting : List (Option (List UInt8))

/-- A card that sends what it is given and hands out the waiting frames in order. -/
def portHal : Hal Port where
  consoleWrite port _ _ := port
  keyboardPoll port := (port, -1)
  rtcRead port := (port, ⟨0, 0, 0, 0, 0, 0⟩)
  netSend port frame := ({ port with sent := frame :: port.sent }, 0)
  netPollReceive port _ _ :=
    match port.waiting with
    | some frame :: rest => ({ port with waiting := rest }, frame.length, frameBytes frame)
    | none :: rest => ({ port with waiting := rest }, 0, fun _ => 0)
    | [] => (port, 0, fun _ => 0)

/-- A call of `net_send_message_reliable_to` that waits for its acknowledgement.  `left` counts
the attempts it still has, and `begun` is the step at which it was made. -/
structure LinkCall where
  device : Mac
  dest : Mac
  slot : Word
  type : Word
  data : Word
  seq : Word
  left : Nat
  begun : Nat
  deriving DecidableEq

/-- A reliable send on device `d` takes the next number. -/
def newCall (net : Net) (d dest : Mac) (slot type data : Word) (now : Nat) : LinkCall :=
  ⟨d, dest, slot, type, data, net.nextSeq, reliableSendAttempts - 1, now⟩

/-- The frame is an acknowledgement of number `seq` from the device `dest`. -/
def RawMessage.Acks (raw : RawMessage) (dest : Mac) (seq : Word) : Prop :=
  raw.isAck ∧ raw.seq = seq ∧ raw.senderMac = macBytes dest

instance (raw : RawMessage) (dest : Mac) (seq : Word) : Decidable (raw.Acks dest seq) :=
  inferInstanceAs (Decidable (_ ∧ _ ∧ _))

section Turns

variable {D : Type} (hal : Hal D)

/-- One transmission of the data frame of a call. -/
def transmit (net : Net) (c : LinkCall) (dev : D) : D :=
  (netSendRaw hal net dev c.slot (macBytes c.dest) c.type c.data c.seq false).1

/-- What a call does after a transmission: poll, and give up or transmit again. -/
def awaitReply (net : Net) (c : LinkCall) (dev : D) : D × Int :=
  match netPollReceiveRaw hal net dev reliableSendSpins with
  | (dev, _, raw) =>
      if ∃ r ∈ raw, r.Acks c.dest c.seq then (dev, 0)
      else reliableLoop hal net c.slot (macBytes c.dest) c.type c.data c.seq c.left dev

/-- How a poll leaves a call: with its result, or waiting after one more transmission. -/
inductive Turn where
  | done (rc : Int)
  | again (c : LinkCall)

/-- One poll of a waiting call. -/
def answerTurn (net : Net) (c : LinkCall) (dev : D) : D × Turn :=
  match netPollReceiveRaw hal net dev reliableSendSpins with
  | (dev, _, raw) =>
      if ∃ r ∈ raw, r.Acks c.dest c.seq then (dev, .done 0)
      else
        match c.left with
        | 0 => (dev, .done (-1))
        | left+1 => (transmit hal net c dev, .again { c with left := left })

theorem reliableLoop_succ (net : Net) (c : LinkCall) (dev : D) :
    reliableLoop hal net c.slot (macBytes c.dest) c.type c.data c.seq (c.left + 1) dev =
      awaitReply hal net c (transmit hal net c dev) := by
  rw [reliableLoop, awaitReply, transmit]
  dsimp only
  generalize netPollReceiveRaw hal net (netSendRaw hal net dev c.slot (macBytes c.dest) c.type
    c.data c.seq false).1 reliableSendSpins = poll
  obtain ⟨dev', rc, raw⟩ := poll
  cases raw with
  | none => simp
  | some raw => simp [RawMessage.Acks]

/-- A reliable send numbers the message, transmits it and waits for the reply. -/
theorem netSendMessageReliableTo_online {net : Net} (dev : D) (d dest : Mac)
    (slot type data : Word) (now : Nat) (honline : net.online = true) :
    netSendMessageReliableTo hal net dev slot (macBytes dest) type data =
      ({ net with nextSeq := net.nextSeq + 1 },
        awaitReply hal net (newCall net d dest slot type data now)
          (transmit hal net (newCall net d dest slot type data now) dev)) := by
  rw [← reliableLoop_succ]
  simp [netSendMessageReliableTo, honline, newCall, reliableSendAttempts]

/-- Waiting for the reply is a sequence of turns. -/
theorem awaitReply_eq (net : Net) (c : LinkCall) (dev : D) :
    awaitReply hal net c dev =
      match answerTurn hal net c dev with
      | (dev, .done rc) => (dev, rc)
      | (dev, .again c) => awaitReply hal net c dev := by
  rcases hpoll : netPollReceiveRaw hal net dev reliableSendSpins with ⟨dev', rc, raw⟩
  simp only [awaitReply, answerTurn, hpoll]
  by_cases hack : ∃ r ∈ raw, r.Acks c.dest c.seq
  · rw [if_pos hack, if_pos hack]
  · rw [if_neg hack, if_neg hack]
    cases hleft : c.left with
    | zero => rfl
    | succ left => exact reliableLoop_succ hal net { c with left := left } dev'

end Turns

/-- The devices of a link, the frames sent on it so far, the reliable sends under way and the
number of steps taken. -/
structure Link where
  online : Mac → Bool
  nextSeq : Mac → Word
  wire : List (List UInt8)
  calls : List LinkCall
  now : Nat

/-- The statics of `net.c` on one device. -/
def Link.net (s : Link) (m : Mac) : Net := ⟨s.online m, macBytes m, s.nextSeq m⟩

/-- The link after every device has booted; `online` says where `net_init` succeeded. -/
def Link.start (online : Mac → Bool) : Link := ⟨online, fun _ => 1, [], [], 0⟩

/-- A step of one device.  `answer i` is a poll of the `i`-th waiting call, and `frame` is what
the link hands to a poll. -/
inductive LinkEvent where
  | sendMessage (d : Mac) (slot type data : Word)
  | sendMessageTo (d dest : Mac) (slot type data : Word)
  | sendReliable (d dest : Mac) (slot type data : Word)
  | answer (i : Nat) (frame : Option (List UInt8))
  | receive (d : Mac) (slot : Word) (maxSpins : Nat) (frame : Option (List UInt8))
  deriving DecidableEq

inductive LinkOutcome where
  | returned (rc : Int)
  | waiting
  | received (rc : Int) (message : Option RawMessage)

/-- The frames a device has sent are on the wire. -/
def Link.put (s : Link) (port : Port) : Link :=
  { s with wire := port.sent ++ s.wire, now := s.now + 1 }

/-- One step of the link; a poll finds nothing or a frame that is on the wire. -/
def linkStep (s : Link) : LinkEvent → Option (Link × LinkOutcome)
  | .sendMessage d slot type data =>
      match netSendMessage portHal (s.net d) ⟨[], []⟩ slot type data with
      | (port, rc) => some (s.put port, .returned rc)
  | .sendMessageTo d dest slot type data =>
      match netSendMessageTo portHal (s.net d) ⟨[], []⟩ slot (macBytes dest) type data with
      | (port, rc) => some (s.put port, .returned rc)
  | .sendReliable d dest slot type data =>
      if ¬ s.online d then some (s.put ⟨[], []⟩, .returned (-1))
      else
        let c := newCall (s.net d) d dest slot type data s.now
        some ({ s.put (transmit portHal (s.net d) c ⟨[], []⟩) with
          nextSeq := Function.update s.nextSeq d (s.nextSeq d + 1)
          calls := c :: s.calls }, .waiting)
  | .answer i frame =>
      if ∀ f ∈ frame, f ∈ s.wire then
        match s.calls[i]? with
        | none => none
        | some c =>
            match answerTurn portHal (s.net c.device) c ⟨[], [frame]⟩ with
            | (port, .done rc) =>
                some ({ s.put port with calls := s.calls.eraseIdx i }, .returned rc)
            | (port, .again c) => some ({ s.put port with calls := s.calls.set i c }, .waiting)
      else none
  | .receive d slot maxSpins frame =>
      if ∀ f ∈ frame, f ∈ s.wire then
        match netPollReceiveMessage portHal (s.net d) ⟨[], [frame]⟩ slot maxSpins with
        | (port, rc, raw) => some (s.put port, .received rc raw)
      else none

/-- A recorded step. -/
abbrev LinkRecord := Transition Link LinkEvent LinkOutcome

/-- A run of the link without reboots. -/
abbrev LinkRun (online : Mac → Bool) (tr : List LinkRecord) (s : Link) : Prop :=
  Trace linkStep (Link.start online) tr s

/-- The message `net_poll_receive_message` returned in this step, and the device it ran on. -/
def message (r : LinkRecord) : Option (Mac × RawMessage) :=
  match r.event, r.outcome with
  | .receive d _ _ _, .received 1 raw => raw.map fun raw => (d, raw)
  | _, _ => none

/-- In this step, later than the call, the message of `c` arrived where it was sent to. -/
def Delivers (c : LinkCall) (r : LinkRecord) : Prop :=
  c.begun < r.pre.now ∧ ∃ p ∈ message r, p.1 = c.dest ∧ p.2.type = c.type ∧ p.2.data = c.data ∧
    p.2.senderMac = macBytes c.device

instance (c : LinkCall) (r : LinkRecord) : Decidable (Delivers c r) :=
  inferInstanceAs (Decidable (_ ∧ _))

/-- The message of `c` has arrived. -/
def Delivered (tr : List LinkRecord) (c : LinkCall) : Prop := ∃ r ∈ tr, Delivers c r

instance (tr : List LinkRecord) (c : LinkCall) : Decidable (Delivered tr c) :=
  inferInstanceAs (Decidable (∃ r ∈ tr, _))

/-- The call that `net_send_message_reliable_to` returns 0 for in this step. -/
def acknowledged (r : LinkRecord) : Option LinkCall :=
  match r.event, r.outcome with
  | .answer i _, .returned 0 => r.pre.calls[i]?
  | _, _ => none

/-- Whenever a reliable send returned 0, its message had arrived. -/
def ReliableDelivery : List LinkRecord → Prop
  | [] => True
  | r :: tr => (∀ c ∈ acknowledged r, Delivered tr c) ∧ ReliableDelivery tr

instance decidableReliableDelivery : (tr : List LinkRecord) → Decidable (ReliableDelivery tr)
  | [] => isTrue trivial
  | r :: tr =>
      have := decidableReliableDelivery tr
      inferInstanceAs (Decidable ((∀ c ∈ acknowledged r, Delivered tr c) ∧ ReliableDelivery tr))

/-- What a poll finds in a frame. -/
def decoded (frame : List UInt8) : RawMessage := decodeFrame (frameBytes frame)

/-- The step cannot mix up two senders.  A new call takes a number other than 0, the number of
every unreliable send, that its destination has not acknowledged before; and a device that
waits for the message of a call does not meanwhile accept another device's frame of the same
number. -/
def Clear (tr : List LinkRecord) (r : LinkRecord) : Prop :=
  match r.event with
  | .sendReliable d dest _ _ _ => r.pre.online d →
      r.pre.nextSeq d ≠ 0 ∧ ∀ f ∈ r.pre.wire, ¬ (decoded f).Acks dest (r.pre.nextSeq d)
  | .receive d _ _ frame => r.pre.online d → ∀ f ∈ frame, (decoded f).isAck = false →
      ∀ c ∈ r.pre.calls, c.dest = d → c.seq = (decoded f).seq →
        Delivered tr c ∨ (decoded f).senderMac = macBytes c.device
  | _ => True

instance (tr : List LinkRecord) (r : LinkRecord) : Decidable (Clear tr r) :=
  match h : r.event with
  | .sendMessage .. => isTrue (by simp [Clear, h])
  | .sendMessageTo .. => isTrue (by simp [Clear, h])
  | .answer .. => isTrue (by simp [Clear, h])
  | .sendReliable d dest _ _ _ =>
      decidable_of_iff (r.pre.online d → r.pre.nextSeq d ≠ 0 ∧
        ∀ f ∈ r.pre.wire, ¬ (decoded f).Acks dest (r.pre.nextSeq d)) (by simp only [Clear, h])
  | .receive d _ _ frame =>
      @decidable_of_iff _ (r.pre.online d → ∀ f ∈ frame, (decoded f).isAck = false →
        ∀ c ∈ r.pre.calls, c.dest = d → c.seq = (decoded f).seq →
          Delivered tr c ∨ (decoded f).senderMac = macBytes c.device) (by simp only [Clear, h])
        instDecidableForall

/-- Every step of the run is clear. -/
def AllClear : List LinkRecord → Prop
  | [] => True
  | r :: tr => Clear tr r ∧ AllClear tr

instance decidableAllClear : (tr : List LinkRecord) → Decidable (AllClear tr)
  | [] => isTrue trivial
  | r :: tr =>
      have := decidableAllClear tr
      inferInstanceAs (Decidable (Clear tr r ∧ AllClear tr))

/-- The card of a device that is online sends the frame. -/
theorem netSendRaw_port (net : Net) (port : Port) (slot : Word) (dest : List UInt8)
    (type data seq : Word) (isAck : Bool) :
    (netSendRaw portHal net port slot dest type data seq isAck).1.sent =
      if net.online then encodeFrame dest net.myMac type data slot seq isAck :: port.sent
      else port.sent := by
  by_cases honline : net.online = true <;> simp [netSendRaw, portHal, honline]

theorem portHal_poll_none (sent : List (List UInt8)) (n maxSpins : Nat) :
    portHal.netPollReceive ⟨sent, [none]⟩ n maxSpins = (Port.mk sent [], 0, fun _ => 0) := rfl

theorem portHal_poll_some (sent : List (List UInt8)) (f : List UInt8) (n maxSpins : Nat) :
    portHal.netPollReceive ⟨sent, [some f]⟩ n maxSpins =
      (Port.mk sent [], (f.length : Int), frameBytes f) := rfl

/-- A poll sends nothing, and finds only what the link hands out. -/
theorem netPollReceiveRaw_port {net : Net} {frame : Option (List UInt8)} {maxSpins : Nat}
    {port : Port} {rc : Int} {raw : Option RawMessage}
    (hpoll : netPollReceiveRaw portHal net ⟨[], [frame]⟩ maxSpins = (port, rc, raw)) :
    port.sent = [] ∧ (raw = none ∨
      ∃ f, frame = some f ∧ raw = some (decoded f) ∧ rc = 1 ∧ net.online = true) := by
  by_cases honline : net.online = true
  · rw [netPollReceiveRaw, if_neg (by simpa using honline)] at hpoll
    cases frame with
    | none =>
        rw [portHal_poll_none] at hpoll
        dsimp only at hpoll
        rw [if_pos (by decide)] at hpoll
        cases hpoll
        exact ⟨rfl, Or.inl rfl⟩
    | some f =>
        rw [portHal_poll_some] at hpoll
        dsimp only at hpoll
        split at hpoll
        · cases hpoll
          exact ⟨rfl, Or.inl rfl⟩
        · split at hpoll
          · cases hpoll
            exact ⟨rfl, Or.inl rfl⟩
          · cases hpoll
            exact ⟨rfl, Or.inr ⟨f, rfl, rfl, rfl, honline⟩⟩
  · rw [netPollReceiveRaw, if_pos (by simpa using honline)] at hpoll
    cases hpoll
    exact ⟨rfl, Or.inl rfl⟩

/-- The frames one device has put on the wire. -/
theorem decoded_encodeFrame (dest : List UInt8) (hdest : dest.length = 6) (s : Link) (m : Mac)
    (type data slot seq : Word) (isAck : Bool) :
    decoded (encodeFrame dest (s.net m).myMac type data slot seq isAck) =
      ⟨type, data, slot, macBytes m, seq, isAck⟩ :=
  decodeFrame_encodeFrame hdest (macBytes_length m) type data slot seq isAck

/-- A device that is online decodes a frame of this protocol. -/
theorem netPollReceiveRaw_ours {net : Net} {f : List UInt8} (honline : net.online = true)
    (hf : Ours f) (maxSpins : Nat) :
    netPollReceiveRaw portHal net ⟨[], [some f]⟩ maxSpins = (⟨[], []⟩, 1, some (decoded f)) := by
  obtain ⟨hlen, hhi, hlo⟩ := hf
  rw [netPollReceiveRaw, if_neg (by simpa using honline), portHal_poll_some]
  dsimp only
  rw [if_neg (by exact_mod_cast Nat.not_lt.mpr hlen), if_neg (by simp [hhi, hlo])]
  rfl

/-- The frame carries the message of the call under the number of the call. -/
def Carries (raw : RawMessage) (c : LinkCall) : Prop :=
  raw.senderMac = macBytes c.device ∧ raw.seq = c.seq ∧ raw.type = c.type ∧ raw.data = c.data

/-- What a step does.  It adds no frame, or the data frame of an unnumbered message or of a
waiting call; or it begins a call; or it hands a message out and acknowledges it. -/
inductive LinkEffect (s : Link) (s' : Link) : LinkEvent → LinkOutcome → Prop
  | data {e : LinkEvent} {o : LinkOutcome} (hseq : s'.nextSeq = s.nextSeq)
      (hcalls : ∀ c ∈ s'.calls, ∃ left, { c with left := left } ∈ s.calls)
      (hwire : ∀ f ∈ s'.wire, f ∈ s.wire ∨ Ours f ∧ (decoded f).isAck = false ∧
        ((decoded f).seq = 0 ∨ ∃ c ∈ s.calls, Carries (decoded f) c)) :
      LinkEffect s s' e o
  | begun {d dest : Mac} {slot type data : Word} {c : LinkCall} (honline : s.online d = true)
      (hc : c = newCall (s.net d) d dest slot type data s.now)
      (hseq : s'.nextSeq = Function.update s.nextSeq d (s.nextSeq d + 1))
      (hcalls : s'.calls = c :: s.calls)
      (hwire : ∀ f ∈ s'.wire, f ∈ s.wire ∨
        Ours f ∧ (decoded f).isAck = false ∧ Carries (decoded f) c) :
      LinkEffect s s' (.sendReliable d dest slot type data) .waiting
  | heard {d : Mac} {slot : Word} {maxSpins : Nat} {f : List UInt8} (honline : s.online d = true)
      (hf : f ∈ s.wire) (hdata : (decoded f).isAck = false)
      (hseq : s'.nextSeq = s.nextSeq) (hcalls : s'.calls = s.calls)
      (hwire : ∀ g ∈ s'.wire, g ∈ s.wire ∨
        Ours g ∧ (decoded g).isAck = true ∧ (decoded g).seq = (decoded f).seq ∧
          (decoded g).senderMac = macBytes d) :
      LinkEffect s s' (.receive d slot maxSpins (some f)) (.received 1 (some (decoded f)))

/-- A transmission of a call adds its data frame, if the device is online. -/
theorem mem_transmit {s : Link} {m : Mac} {c : LinkCall} {port : Port} {f : List UInt8}
    (hm : c.device = m) (hf : f ∈ (transmit portHal (s.net m) c port).sent) :
    f ∈ port.sent ∨ Ours f ∧ (decoded f).isAck = false ∧ Carries (decoded f) c := by
  rw [transmit, netSendRaw_port] at hf
  split_ifs at hf with honline
  · rcases List.mem_cons.mp hf with rfl | hf
    · right
      refine ⟨encodeFrame_ours (macBytes_length c.dest) (macBytes_length m) _ _ _ _ _, ?_⟩
      rw [decoded_encodeFrame _ (macBytes_length c.dest) s m]
      exact ⟨rfl, by rw [hm], rfl, rfl, rfl⟩
    · exact Or.inl hf
  · exact Or.inl hf

/-- An unreliable send adds a data frame numbered 0, if the device is online. -/
theorem mem_unnumbered {s : Link} {m : Mac} {dest : List UInt8} {slot type data : Word}
    {f : List UInt8} (hdest : dest.length = 6)
    (hf : f ∈ (netSendRaw portHal (s.net m) ⟨[], []⟩ slot dest type data 0 false).1.sent) :
    Ours f ∧ (decoded f).isAck = false ∧ (decoded f).seq = 0 := by
  rw [netSendRaw_port] at hf
  split_ifs at hf with honline
  · rw [List.mem_singleton.mp hf]
    refine ⟨encodeFrame_ours hdest (macBytes_length m) _ _ _ _ _, ?_⟩
    rw [decoded_encodeFrame _ hdest s m]
    exact ⟨rfl, rfl⟩
  · exact absurd hf List.not_mem_nil

/-- A poll finds the acknowledgement and ends the call; or it ends the call for want of
attempts; or the call has sent its frame again. -/
theorem answerTurn_port {s : Link} {c : LinkCall} {frame : Option (List UInt8)} {port : Port}
    {turn : Turn} (hturn : answerTurn portHal (s.net c.device) c ⟨[], [frame]⟩ = (port, turn)) :
    (∃ f ∈ frame, (decoded f).Acks c.dest c.seq ∧ port.sent = [] ∧ turn = .done 0) ∨
    (port.sent = [] ∧ turn = .done (-1)) ∨
    ∃ left, turn = .again { c with left := left } ∧
      ∀ f ∈ port.sent, Ours f ∧ (decoded f).isAck = false ∧ Carries (decoded f) c := by
  rcases hpoll : netPollReceiveRaw portHal (s.net c.device) ⟨[], [frame]⟩ reliableSendSpins with
    ⟨p, n, raw⟩
  obtain ⟨hsent, hraw⟩ := netPollReceiveRaw_port hpoll
  simp only [answerTurn, hpoll] at hturn
  by_cases hack : ∃ r ∈ raw, r.Acks c.dest c.seq
  · rw [if_pos hack] at hturn
    cases hturn
    obtain ⟨r, hr, hacks⟩ := hack
    rcases hraw with rfl | ⟨f, rfl, rfl, -, -⟩
    · exact absurd hr (by simp)
    · rw [Option.mem_some_iff] at hr
      subst hr
      exact Or.inl ⟨f, rfl, hacks, hsent, rfl⟩
  · rw [if_neg hack] at hturn
    right
    cases hleft : c.left with
    | zero =>
        rw [hleft] at hturn
        cases hturn
        exact Or.inl ⟨hsent, rfl⟩
    | succ left =>
        rw [hleft] at hturn
        cases hturn
        refine Or.inr ⟨left, rfl, fun f hf => ?_⟩
        rcases mem_transmit rfl hf with hnil | hcarries
        · exact absurd hnil (by simp [hsent])
        · exact hcarries

/-- A step that sends nothing and begins no call. -/
theorem LinkEffect.silent {s s' : Link} {e : LinkEvent} {o : LinkOutcome}
    (hseq : s'.nextSeq = s.nextSeq) (hcalls : ∀ c ∈ s'.calls, c ∈ s.calls)
    (hwire : s'.wire = s.wire) : LinkEffect s s' e o := by
  refine .data hseq (fun c hc => ⟨c.left, hcalls c hc⟩) fun f hf => Or.inl ?_
  rwa [hwire] at hf

/-- An unreliable send. -/
theorem LinkEffect.unnumbered {s : Link} {e : LinkEvent} {o : LinkOutcome} {m : Mac}
    {dest : List UInt8} {slot type data : Word} (hdest : dest.length = 6) :
    LinkEffect s (s.put (netSendRaw portHal (s.net m) ⟨[], []⟩ slot dest type data 0 false).1)
      e o := by
  refine .data rfl (fun c hc => ⟨c.left, hc⟩) fun f hf => ?_
  rcases List.mem_append.mp hf with hf | hf
  · obtain ⟨hours, hdata, hzero⟩ := mem_unnumbered hdest hf
    exact Or.inr ⟨hours, hdata, Or.inl hzero⟩
  · exact Or.inl hf

theorem put_wire {s : Link} {port : Port} (hsent : port.sent = []) :
    (s.put port).wire = s.wire := by
  rw [Link.put, hsent, List.nil_append]

/-- What one step can do. -/
theorem linkStep_effect {s s' : Link} {e : LinkEvent} {o : LinkOutcome}
    (hstep : linkStep s e = some (s', o)) : LinkEffect s s' e o ∧
      s'.now = s.now + 1 ∧ s'.online = s.online := by
  cases e with
  | sendMessage d slot type data =>
      simp only [linkStep, Option.some.injEq, Prod.mk.injEq] at hstep
      obtain ⟨rfl, rfl⟩ := hstep
      exact ⟨LinkEffect.unnumbered (by simp), rfl, rfl⟩
  | sendMessageTo d dest slot type data =>
      simp only [linkStep, Option.some.injEq, Prod.mk.injEq] at hstep
      obtain ⟨rfl, rfl⟩ := hstep
      exact ⟨LinkEffect.unnumbered (macBytes_length dest), rfl, rfl⟩
  | sendReliable d dest slot type data =>
      rw [linkStep] at hstep
      by_cases honline : s.online d = true
      · rw [if_neg (by simpa using honline)] at hstep
        cases hstep
        refine ⟨.begun honline rfl rfl rfl fun f hf => ?_, rfl, rfl⟩
        rcases List.mem_append.mp hf with hf | hf
        · have hdevice : (newCall (s.net d) d dest slot type data s.now).device = d := rfl
          rcases mem_transmit hdevice hf with hnil | hcarries
          · exact absurd hnil List.not_mem_nil
          · exact Or.inr hcarries
        · exact Or.inl hf
      · rw [if_pos (by simpa using honline)] at hstep
        cases hstep
        exact ⟨.silent rfl (fun c hc => hc) rfl, rfl, rfl⟩
  | answer i frame =>
      rw [linkStep] at hstep
      split_ifs at hstep with hframe
      cases hc : s.calls[i]? with
      | none => simp [hc] at hstep
      | some c =>
          have hmem := List.mem_of_getElem? hc
          rcases hturn : answerTurn portHal (s.net c.device) c ⟨[], [frame]⟩ with ⟨port, turn⟩
          simp only [hc, hturn] at hstep
          obtain ⟨f, -, -, hsent, rfl⟩ | ⟨hsent, rfl⟩ | ⟨left, rfl, hsent⟩ := answerTurn_port hturn
          · cases hstep
            exact ⟨.silent rfl (fun c => List.mem_of_mem_eraseIdx) (put_wire hsent), rfl, rfl⟩
          · cases hstep
            exact ⟨.silent rfl (fun c => List.mem_of_mem_eraseIdx) (put_wire hsent), rfl, rfl⟩
          · cases hstep
            refine ⟨.data rfl (fun c' hc' => ?_) fun f hf => ?_, rfl, rfl⟩
            · rcases List.mem_or_eq_of_mem_set hc' with hold | rfl
              · exact ⟨c'.left, hold⟩
              · exact ⟨c.left, hmem⟩
            · rcases List.mem_append.mp hf with hf | hf
              · obtain ⟨hours, hdata, hcarries⟩ := hsent f hf
                exact Or.inr ⟨hours, hdata, Or.inr ⟨c, hmem, hcarries⟩⟩
              · exact Or.inl hf
  | receive d slot maxSpins frame =>
      rw [linkStep] at hstep
      split_ifs at hstep with hframe
      rcases hpoll : netPollReceiveRaw portHal (s.net d) ⟨[], [frame]⟩ maxSpins with ⟨port, rc, raw⟩
      obtain ⟨hsent, rfl | ⟨f, rfl, rfl, rfl, honline⟩⟩ := netPollReceiveRaw_port hpoll
      · simp only [netPollReceiveMessage, hpoll, Option.some.injEq, Prod.mk.injEq] at hstep
        obtain ⟨rfl, rfl⟩ := hstep
        exact ⟨.silent rfl (fun c hc => hc) (put_wire hsent), rfl, rfl⟩
      · by_cases hack : (decoded f).isAck = true
        · simp only [netPollReceiveMessage, hpoll, hack, if_true, Option.some.injEq,
            Prod.mk.injEq] at hstep
          obtain ⟨rfl, rfl⟩ := hstep
          exact ⟨.silent rfl (fun c hc => hc) (put_wire hsent), rfl, rfl⟩
        · simp only [netPollReceiveMessage, hpoll, hack, Bool.false_eq_true, if_false,
            Option.some.injEq, Prod.mk.injEq] at hstep
          obtain ⟨rfl, rfl⟩ := hstep
          refine ⟨.heard honline (hframe f rfl) (by simpa using hack) rfl rfl fun g hg => ?_, rfl, rfl⟩
          rcases List.mem_append.mp hg with hg | hg
          · right
            have hmac : (decoded f).senderMac.length = 6 := by simp [decoded, decodeFrame]
            rw [netSendRaw_port, if_pos honline, hsent] at hg
            rw [List.mem_singleton.mp hg]
            refine ⟨encodeFrame_ours hmac (macBytes_length d) _ _ _ _ _, ?_⟩
            rw [decoded_encodeFrame _ hmac s d]
            exact ⟨rfl, rfl, rfl⟩
          · exact Or.inl hg

/-- Device `m` has given out number `q`, and its counter has not come round since. -/
def Used (s : Link) (m : Mac) (q : Word) : Prop :=
  q ≠ 0 ∧ (s.nextSeq m = 0 ∨ q.toNat < (s.nextSeq m).toNat)

/-- The numbers given out so far stay used, and the new one is used from now on. -/
theorem used_update {s s' : Link} {d : Mac} (hseq : s'.nextSeq = Function.update s.nextSeq d
    (s.nextSeq d + 1)) (hne : s.nextSeq d ≠ 0) :
    Used s' d (s.nextSeq d) ∧ ∀ m q, Used s m q → Used s' m q := by
  have hstep : s.nextSeq d + 1 = 0 ∨ (s.nextSeq d + 1).toNat = (s.nextSeq d).toNat + 1 := by
    by_cases hmax : (s.nextSeq d).toNat + 1 = 2 ^ 64
    · exact Or.inl (BitVec.eq_of_toNat_eq (by simp [BitVec.toNat_add, hmax]))
    · right
      have := (s.nextSeq d).isLt
      rw [BitVec.toNat_add]
      exact Nat.mod_eq_of_lt (by simp; omega)
  constructor
  · refine ⟨hne, ?_⟩
    rw [hseq, Function.update_self]
    exact hstep.imp id fun h => by omega
  · intro m q hq
    refine ⟨hq.1, ?_⟩
    rw [hseq]
    by_cases hm : m = d
    · subst hm
      rw [Function.update_self]
      refine hstep.imp id fun h => ?_
      rcases hq.2 with hzero | hlt
      · exact absurd hzero hne
      · omega
    · rw [Function.update_of_ne hm]
      exact hq.2

/-- The frame is a data frame of device `m`. -/
def DataFrom (raw : RawMessage) (m : Mac) : Prop := raw.isAck = false ∧ raw.senderMac = macBytes m

/-- What holds after every clear run. -/
structure LinkOk (tr : List LinkRecord) (s : Link) : Prop where
  clock : ∀ c ∈ s.calls, c.begun < s.now
  numbered : ∀ c ∈ s.calls, Used s c.device c.seq
  frames : ∀ f ∈ s.wire, ∀ m, DataFrom (decoded f) m →
    (decoded f).seq = 0 ∨ Used s m (decoded f).seq
  payload : ∀ c ∈ s.calls, ∀ f ∈ s.wire, DataFrom (decoded f) c.device → (decoded f).seq = c.seq →
    (decoded f).type = c.type ∧ (decoded f).data = c.data
  twins : ∀ c ∈ s.calls, ∀ c' ∈ s.calls, c.device = c'.device → c.seq = c'.seq →
    c.type = c'.type ∧ c.data = c'.data
  answered : ∀ c ∈ s.calls, Delivered tr c ∨ ∀ f ∈ s.wire, ¬ (decoded f).Acks c.dest c.seq

theorem Delivered.cons {tr : List LinkRecord} {c : LinkCall} (r : LinkRecord)
    (h : Delivered tr c) : Delivered (r :: tr) c := by
  obtain ⟨r', hr', hdelivers⟩ := h
  exact ⟨r', List.mem_cons_of_mem r hr', hdelivers⟩

theorem not_acks_of_data {raw : RawMessage} (hdata : raw.isAck = false) (dest : Mac) (q : Word) :
    ¬ raw.Acks dest q := by
  intro hacks
  simp [hacks.1] at hdata

/-- A step that adds no acknowledgement and begins no call. -/
theorem LinkOk.data {tr : List LinkRecord} {s s' : Link} (r : LinkRecord) (hok : LinkOk tr s)
    (hnow : s'.now = s.now + 1) (hseq : s'.nextSeq = s.nextSeq)
    (hcalls : ∀ c ∈ s'.calls, ∃ left, { c with left := left } ∈ s.calls)
    (hwire : ∀ f ∈ s'.wire, f ∈ s.wire ∨ Ours f ∧ (decoded f).isAck = false ∧
      ((decoded f).seq = 0 ∨ ∃ c ∈ s.calls, Carries (decoded f) c)) : LinkOk (r :: tr) s' := by
  have hused : ∀ m q, Used s' m q ↔ Used s m q := fun m q => by rw [Used, Used, hseq]
  refine ⟨fun c hc => ?_, fun c hc => ?_, fun f hf m hm => ?_, fun c hc f hf hfrom heq => ?_,
    fun c hc c' hc' => ?_, fun c hc => ?_⟩
  · obtain ⟨left, hold⟩ := hcalls c hc
    have := hok.clock _ hold
    simp only at this
    omega
  · obtain ⟨left, hold⟩ := hcalls c hc
    exact (hused c.device c.seq).mpr (hok.numbered { c with left := left } hold)
  · rw [hused]
    rcases hwire f hf with hold | ⟨-, -, hzero | ⟨c, hc, hmac, hnum, -⟩⟩
    · exact hok.frames f hold m hm
    · exact Or.inl hzero
    · have hdev : m = c.device := macBytes_injective (hm.2.symm.trans hmac)
      rw [hdev, hnum]
      exact Or.inr (hok.numbered c hc)
  · obtain ⟨left, hcold⟩ := hcalls c hc
    rcases hwire f hf with hold | ⟨-, -, hzero | ⟨c', hc', hmac, hnum, htype, hdata⟩⟩
    · exact hok.payload _ hcold f hold hfrom heq
    · exact absurd (heq.symm.trans hzero) (hok.numbered _ hcold).1
    · have hdev : c.device = c'.device := macBytes_injective (hfrom.2.symm.trans hmac)
      obtain ⟨h1, h2⟩ := hok.twins _ hcold c' hc' hdev (heq.symm.trans hnum)
      exact ⟨htype.trans h1.symm, hdata.trans h2.symm⟩
  · obtain ⟨left, hold⟩ := hcalls c hc
    obtain ⟨left', hold'⟩ := hcalls c' hc'
    exact hok.twins { c with left := left } hold { c' with left := left' } hold'
  · obtain ⟨left, hold⟩ := hcalls c hc
    refine (hok.answered _ hold).imp (fun h => Delivered.cons r h) fun hno f hf => ?_
    rcases hwire f hf with hf | ⟨-, hdata, -⟩
    · exact hno f hf
    · exact not_acks_of_data hdata c.dest c.seq

/-- The next number of a device is new: neither a call nor a data frame of it has it. -/
theorem LinkOk.fresh {tr : List LinkRecord} {s : Link} (hok : LinkOk tr s) {d : Mac}
    (hne : s.nextSeq d ≠ 0) :
    (∀ c ∈ s.calls, c.device = d → c.seq ≠ s.nextSeq d) ∧
      ∀ f ∈ s.wire, DataFrom (decoded f) d → (decoded f).seq ≠ s.nextSeq d := by
  have hfree : ¬ Used s d (s.nextSeq d) := by
    intro hold
    rcases hold.2 with hzero | hlt
    · exact hne hzero
    · exact Nat.lt_irrefl _ hlt
  constructor
  · intro c hc hdev heq
    have hold := hok.numbered c hc
    rw [hdev, heq] at hold
    exact hfree hold
  · intro f hf hfrom heq
    rcases hok.frames f hf d hfrom with hzero | hold
    · exact hne (heq.symm.trans hzero)
    · rw [heq] at hold
      exact hfree hold

/-- A step that begins a call under a number that has not been acknowledged. -/
theorem LinkOk.begun {tr : List LinkRecord} {s s' : Link} (r : LinkRecord) {d dest : Mac}
    {slot type data : Word} {c : LinkCall} (hok : LinkOk tr s) (hnow : s'.now = s.now + 1)
    (hc : c = newCall (s.net d) d dest slot type data s.now)
    (hseq : s'.nextSeq = Function.update s.nextSeq d (s.nextSeq d + 1))
    (hcalls : s'.calls = c :: s.calls)
    (hwire : ∀ f ∈ s'.wire, f ∈ s.wire ∨
      Ours f ∧ (decoded f).isAck = false ∧ Carries (decoded f) c)
    (hne : s.nextSeq d ≠ 0)
    (hfresh : ∀ f ∈ s.wire, ¬ (decoded f).Acks dest (s.nextSeq d)) : LinkOk (r :: tr) s' := by
  obtain ⟨hnew, hused⟩ := used_update hseq hne
  have hcdev : c.device = d := by rw [hc]; rfl
  have hcseq : c.seq = s.nextSeq d := by rw [hc]; rfl
  have hcdest : c.dest = dest := by rw [hc]; rfl
  obtain ⟨hcall, hframe⟩ := hok.fresh hne
  rw [← hcseq, ← hcdev] at hcall hframe
  have hmem : ∀ c' ∈ s'.calls, c' = c ∨ c' ∈ s.calls := fun c' hc' =>
    List.mem_cons.mp (hcalls ▸ hc')
  refine ⟨fun c' hc' => ?_, fun c' hc' => ?_, fun f hf m hm => ?_, fun c' hc' f hf hfrom heq => ?_,
    fun c1 hc1 c2 hc2 hdev heq => ?_, fun c' hc' => ?_⟩
  · rcases hmem c' hc' with rfl | hold
    · rw [hnow, hc]
      exact Nat.lt_succ_self s.now
    · exact hnow ▸ Nat.lt_succ_of_lt (hok.clock c' hold)
  · rcases hmem c' hc' with rfl | hold
    · rw [hcdev, hcseq]
      exact hnew
    · exact hused _ _ (hok.numbered c' hold)
  · rcases hwire f hf with hold | ⟨-, -, hmac, hnum, -⟩
    · exact (hok.frames f hold m hm).imp id (hused m _)
    · have hdev : m = c.device := macBytes_injective (hm.2.symm.trans hmac)
      rw [hdev, hnum, hcdev, hcseq]
      exact Or.inr hnew
  · rcases hmem c' hc' with rfl | hold
    · rcases hwire f hf with hfold | ⟨-, -, -, -, hpayload⟩
      · exact absurd heq (hframe f hfold hfrom)
      · exact hpayload
    · rcases hwire f hf with hfold | ⟨-, -, hmac, hnum, -⟩
      · exact hok.payload c' hold f hfold hfrom heq
      · have hdev : c'.device = c.device := macBytes_injective (hfrom.2.symm.trans hmac)
        exact absurd (heq.symm.trans hnum) (hcall c' hold hdev)
  · rcases hmem c1 hc1 with rfl | h1
    · rcases hmem c2 hc2 with rfl | h2
      · exact ⟨rfl, rfl⟩
      · exact absurd heq.symm (hcall c2 h2 hdev.symm)
    · rcases hmem c2 hc2 with rfl | h2
      · exact absurd heq (hcall c1 h1 hdev)
      · exact hok.twins c1 h1 c2 h2 hdev heq
  · rcases hmem c' hc' with rfl | hold
    · right
      intro f hf
      rcases hwire f hf with hfold | ⟨-, hdata, -⟩
      · rw [hcdest, hcseq]
        exact hfresh f hfold
      · exact not_acks_of_data hdata _ _
    · refine (hok.answered c' hold).imp (fun h => h.cons r) fun hno f hf => ?_
      rcases hwire f hf with hfold | ⟨-, hdata, -⟩
      · exact hno f hfold
      · exact not_acks_of_data hdata _ _

/-- A step that hands a message out and acknowledges it. -/
theorem LinkOk.heard {tr : List LinkRecord} {s s' : Link} {d : Mac} {slot : Word} {maxSpins : Nat}
    {f : List UInt8} (hok : LinkOk tr s) (hnow : s'.now = s.now + 1) (hf : f ∈ s.wire)
    (hdata : (decoded f).isAck = false) (hseq : s'.nextSeq = s.nextSeq)
    (hcalls : s'.calls = s.calls)
    (hwire : ∀ g ∈ s'.wire, g ∈ s.wire ∨ Ours g ∧ (decoded g).isAck = true ∧
      (decoded g).seq = (decoded f).seq ∧ (decoded g).senderMac = macBytes d)
    (hclear : ∀ c ∈ s.calls, c.dest = d → c.seq = (decoded f).seq →
      Delivered tr c ∨ (decoded f).senderMac = macBytes c.device) :
    LinkOk (⟨s, .receive d slot maxSpins (some f), .received 1 (some (decoded f)), s'⟩ :: tr) s' := by
  have hused : ∀ m q, Used s' m q ↔ Used s m q := fun m q => by rw [Used, Used, hseq]
  have hold : ∀ g ∈ s'.wire, ∀ m, DataFrom (decoded g) m → g ∈ s.wire := by
    intro g hg m hm
    rcases hwire g hg with hg | ⟨-, hack, -⟩
    · exact hg
    · exact absurd (hack.symm.trans hm.1) (by decide)
  refine ⟨fun c hc => ?_, fun c hc => ?_, fun g hg m hm => ?_, fun c hc g hg hfrom => ?_,
    fun c hc c' hc' => ?_, fun c hc => ?_⟩
  · exact hnow ▸ Nat.lt_succ_of_lt (hok.clock c (hcalls ▸ hc))
  · exact (hused _ _).mpr (hok.numbered c (hcalls ▸ hc))
  · rw [hused]
    exact hok.frames g (hold g hg m hm) m hm
  · exact hok.payload c (hcalls ▸ hc) g (hold g hg _ hfrom) hfrom
  · exact hok.twins c (hcalls ▸ hc) c' (hcalls ▸ hc')
  · rw [hcalls] at hc
    rcases hok.answered c hc with h | hno
    · exact Or.inl (h.cons _)
    · by_cases hmatch : c.dest = d ∧ c.seq = (decoded f).seq
      · left
        rcases hclear c hc hmatch.1 hmatch.2 with h | hmac
        · exact h.cons _
        · obtain ⟨htype, hpayload⟩ := hok.payload c hc f hf ⟨hdata, hmac⟩ hmatch.2.symm
          exact ⟨_, List.mem_cons_self, hok.clock c hc, (d, decoded f), rfl, hmatch.1.symm, htype,
            hpayload, hmac⟩
      · right
        intro g hg hacks
        obtain ⟨hack, hnum, hmac⟩ := hacks
        rcases hwire g hg with hg | ⟨-, -, hseq', hmac'⟩
        · exact hno g hg ⟨hack, hnum, hmac⟩
        · exact hmatch ⟨macBytes_injective (hmac.symm.trans hmac'), hnum.symm.trans hseq'⟩

theorem start_linkOk (online : Mac → Bool) : LinkOk [] (Link.start online) where
  clock := by simp [Link.start]
  numbered := by simp [Link.start]
  frames := by simp [Link.start]
  payload := by simp [Link.start]
  twins := by simp [Link.start]
  answered := by simp [Link.start]

/-- One clear step keeps the invariant. -/
theorem LinkOk.step {tr : List LinkRecord} {s s' : Link} {e : LinkEvent} {o : LinkOutcome}
    (hok : LinkOk tr s) (hstep : linkStep s e = some (s', o)) (hclear : Clear tr ⟨s, e, o, s'⟩) :
    LinkOk (⟨s, e, o, s'⟩ :: tr) s' := by
  obtain ⟨heffect, hnow, -⟩ := linkStep_effect hstep
  cases heffect with
  | data hseq hcalls hwire => exact hok.data _ hnow hseq hcalls hwire
  | begun honline hc hseq hcalls hwire =>
      obtain ⟨hne, hfresh⟩ := hclear honline
      exact hok.begun _ hnow hc hseq hcalls hwire hne hfresh
  | heard honline hf hdata hseq hcalls hwire =>
      exact hok.heard hnow hf hdata hseq hcalls hwire (hclear honline _ rfl hdata)

/-- A reliable send that returns 0 has found an acknowledgement of its number from its
destination on the wire. -/
theorem acknowledged_acks {s s' : Link} {e : LinkEvent} {o : LinkOutcome} {c : LinkCall}
    (hstep : linkStep s e = some (s', o)) (hc : c ∈ acknowledged ⟨s, e, o, s'⟩) :
    c ∈ s.calls ∧ ∃ f ∈ s.wire, (decoded f).Acks c.dest c.seq := by
  rw [acknowledged] at hc
  split at hc
  · rename_i i frame he ho
    obtain rfl : e = .answer i frame := he
    obtain rfl : o = .returned 0 := ho
    have hcall : s.calls[i]? = some c := hc
    refine ⟨List.mem_of_getElem? hcall, ?_⟩
    rw [linkStep] at hstep
    split_ifs at hstep with hframe
    rcases hturn : answerTurn portHal (s.net c.device) c ⟨[], [frame]⟩ with ⟨port, turn⟩
    simp only [hcall, hturn] at hstep
    obtain ⟨f, hf, hacks, -, -⟩ | ⟨-, rfl⟩ | ⟨left, rfl, -⟩ := answerTurn_port hturn
    · exact ⟨f, hframe f hf, hacks⟩
    · simp at hstep
    · simp at hstep
  · exact absurd hc (by simp)

theorem LinkRun.linkOk {online : Mac → Bool} {tr : List LinkRecord} {s : Link}
    (hrun : LinkRun online tr s) : AllClear tr → LinkOk tr s ∧ ReliableDelivery tr := by
  refine hrun.history_invariant (fun tr s => AllClear tr → LinkOk tr s ∧ ReliableDelivery tr)
    (fun _ => ⟨start_linkOk online, trivial⟩) ?_
  intro tr s e o s' _ ih hstep hclear
  obtain ⟨hok, hdelivery⟩ := ih hclear.2
  refine ⟨hok.step hstep hclear.1, fun c hc => ?_, hdelivery⟩
  obtain ⟨hcall, f, hf, hacks⟩ := acknowledged_acks hstep hc
  rcases hok.answered c hcall with h | hno
  · exact h
  · exact absurd hacks (hno f hf)

/-- **Reliable delivery.**  In every run of clear steps, a reliable send that returned 0 had its
message handed out at its destination, after the call began, with its type, its data and its
sender's address. -/
theorem reliable_delivery (online : Mac → Bool) (tr : List LinkRecord) (s : Link)
    (hrun : LinkRun online tr s) (hclear : AllClear tr) : ReliableDelivery tr :=
  (hrun.linkOk hclear).2

/-- What holds after every run: the frames are well formed, the devices of waiting calls are
online, and the recorded steps are in the past. -/
structure LinkShape (tr : List LinkRecord) (s : Link) : Prop where
  ours : ∀ f ∈ s.wire, Ours f
  online : ∀ c ∈ s.calls, s.online c.device = true
  past : ∀ r ∈ tr, r.pre.now < s.now

theorem LinkRun.shape {online : Mac → Bool} {tr : List LinkRecord} {s : Link}
    (hrun : LinkRun online tr s) : LinkShape tr s := by
  refine hrun.history_invariant LinkShape ⟨?_, ?_, ?_⟩ ?_
  · simp [Link.start]
  · simp [Link.start]
  · simp
  · intro tr s e o s' _ hshape hstep
    obtain ⟨heffect, hnow, honline⟩ := linkStep_effect hstep
    have hpast : ∀ r ∈ (⟨s, e, o, s'⟩ :: tr : List LinkRecord), r.pre.now < s'.now := by
      intro r hr
      rcases List.mem_cons.mp hr with rfl | hold
      · exact hnow ▸ Nat.lt_succ_self s.now
      · exact hnow ▸ Nat.lt_succ_of_lt (hshape.past r hold)
    cases heffect with
    | data hseq hcalls hwire =>
        refine ⟨fun f hf => ?_, fun c hc => ?_, hpast⟩
        · rcases hwire f hf with hold | ⟨hours, -⟩
          · exact hshape.ours f hold
          · exact hours
        · obtain ⟨left, hold⟩ := hcalls c hc
          rw [honline]
          exact hshape.online { c with left := left } hold
    | begun hd hc hseq hcalls hwire =>
        refine ⟨fun f hf => ?_, fun c' hc' => ?_, hpast⟩
        · rcases hwire f hf with hold | ⟨hours, -⟩
          · exact hshape.ours f hold
          · exact hours
        · rw [honline]
          rw [hcalls] at hc'
          rcases List.mem_cons.mp hc' with rfl | hold
          · rw [hc]
            exact hd
          · exact hshape.online c' hold
    | heard hd hf hdata hseq hcalls hwire =>
        refine ⟨fun g hg => ?_, fun c hc => ?_, hpast⟩
        · rcases hwire g hg with hold | ⟨hours, -⟩
          · exact hshape.ours g hold
          · exact hours
        · rw [honline]
          exact hshape.online c (hcalls ▸ hc)

/-- A poll that is handed an acknowledgement of the number from the destination returns 0. -/
theorem answer_accepts {s : Link} {c : LinkCall} {f : List UInt8} (hc : c ∈ s.calls)
    (honline : s.online c.device = true) (hf : f ∈ s.wire) (hours : Ours f)
    (hacks : (decoded f).Acks c.dest c.seq) : ∃ i s', linkStep s (.answer i (some f)) =
      some (s', .returned 0) ∧ c ∈ acknowledged ⟨s, .answer i (some f), .returned 0, s'⟩ := by
  obtain ⟨i, hi⟩ := List.mem_iff_getElem?.mp hc
  have hnet : (s.net c.device).online = true := honline
  have hpoll := netPollReceiveRaw_ours hnet hours reliableSendSpins
  have hturn : answerTurn portHal (s.net c.device) c ⟨[], [some f]⟩ = (⟨[], []⟩, .done 0) := by
    simp only [answerTurn, hpoll]
    rw [if_pos ⟨decoded f, rfl, hacks⟩]
  refine ⟨i, { s.put ⟨[], []⟩ with calls := s.calls.eraseIdx i }, ?_, hi⟩
  rw [linkStep, if_pos (by simpa using hf)]
  simp only [hi, hturn]

/-- A device that is online hands out a data frame and acknowledges it. -/
theorem receive_accepts {s : Link} {d : Mac} {f : List UInt8} (slot : Word) (maxSpins : Nat)
    (honline : s.online d = true) (hf : f ∈ s.wire) (hours : Ours f)
    (hdata : (decoded f).isAck = false) :
    linkStep s (.receive d slot maxSpins (some f)) =
      some (s.put ⟨[encodeFrame (decoded f).senderMac (macBytes d) 0 0 slot (decoded f).seq true],
        []⟩, .received 1 (some (decoded f))) := by
  have hnet : (s.net d).online = true := honline
  have hpoll := netPollReceiveRaw_ours hnet hours maxSpins
  have hsend : netSendRaw portHal (s.net d) ⟨[], []⟩ slot (decoded f).senderMac 0 0
      (decoded f).seq true = (⟨[encodeFrame (decoded f).senderMac (macBytes d) 0 0 slot
        (decoded f).seq true], []⟩, 0) := by
    rw [netSendRaw, if_neg (by simpa using hnet)]
    rfl
  rw [linkStep, if_pos (by simpa using hf)]
  simp only [netPollReceiveMessage, hpoll, hdata, Bool.false_eq_true, if_false, hsend]

/-- **The condition is sharp.**  As long as no counter has come round, a run whose last step is
not clear can go on with a poll that returns 0 for a message that has not arrived. -/
theorem unclear_breaks {online : Mac → Bool} {tr : List LinkRecord} {s s' : Link} {e : LinkEvent}
    {o : LinkOutcome} (hrun : LinkRun online tr s) (hstep : linkStep s e = some (s', o))
    (hcounter : ∀ d, s.nextSeq d ≠ 0) (hunclear : ¬ Clear tr ⟨s, e, o, s'⟩) :
    ∃ r s'', LinkRun online (r :: ⟨s, e, o, s'⟩ :: tr) s'' ∧
      ¬ ReliableDelivery (r :: ⟨s, e, o, s'⟩ :: tr) := by
  have hnext : LinkRun online (⟨s, e, o, s'⟩ :: tr) s' := hrun.snoc hstep
  have hshape := hnext.shape
  -- it is enough to find an undelivered call and an acknowledgement that matches it
  have hfinish : ∀ c ∈ s'.calls, ¬ Delivered (⟨s, e, o, s'⟩ :: tr) c →
      (∃ f ∈ s'.wire, (decoded f).Acks c.dest c.seq) →
      ∃ r s'', LinkRun online (r :: ⟨s, e, o, s'⟩ :: tr) s'' ∧
        ¬ ReliableDelivery (r :: ⟨s, e, o, s'⟩ :: tr) := by
    intro c hc hnot hack
    obtain ⟨f, hf, hacks⟩ := hack
    obtain ⟨i, s'', hanswer, hzero⟩ :=
      answer_accepts hc (hshape.online c hc) hf (hshape.ours f hf) hacks
    exact ⟨_, s'', hnext.snoc hanswer, fun hdelivery => hnot (hdelivery.1 c hzero)⟩
  cases e with
  | sendMessage d slot type data => exact absurd trivial hunclear
  | sendMessageTo d dest slot type data => exact absurd trivial hunclear
  | answer i frame => exact absurd trivial hunclear
  | sendReliable d dest slot type data =>
      have hbad : ¬ (s.online d = true →
        s.nextSeq d ≠ 0 ∧ ∀ f ∈ s.wire, ¬ (decoded f).Acks dest (s.nextSeq d)) := hunclear
      push Not at hbad
      obtain ⟨honline, hstale⟩ := hbad
      obtain ⟨f, hf, hacks⟩ := hstale (hcounter d)
      rw [linkStep, if_neg (by simpa using honline)] at hstep
      cases hstep
      refine hfinish _ List.mem_cons_self (fun hdelivered => ?_)
        ⟨f, List.mem_append_right _ hf, hacks⟩
      -- nothing has been handed out since the call began
      obtain ⟨r, hr, hlate, -⟩ := hdelivered
      rcases List.mem_cons.mp hr with rfl | hold
      · exact Nat.lt_irrefl s.now hlate
      · exact Nat.lt_asymm hlate (hrun.shape.past r hold)
  | receive d slot maxSpins frame =>
      have hbad : ¬ (s.online d = true → ∀ f ∈ frame, (decoded f).isAck = false →
        ∀ c ∈ s.calls, c.dest = d → c.seq = (decoded f).seq →
          Delivered tr c ∨ (decoded f).senderMac = macBytes c.device) := hunclear
      push Not at hbad
      obtain ⟨honline, f, hf, hdata, c, hc, hdest, hseq, hnot, hmac⟩ := hbad
      have hwire : f ∈ s.wire := by
        rw [linkStep] at hstep
        split_ifs at hstep with hframe
        exact hframe f hf
      obtain rfl : frame = some f := hf
      rw [receive_accepts slot maxSpins honline hwire (hrun.shape.ours f hwire) hdata] at hstep
      cases hstep
      refine hfinish c hc (fun hdelivered => ?_) ⟨_, List.mem_cons_self, ?_⟩
      · obtain ⟨r, hr, hdelivers⟩ := hdelivered
        rcases List.mem_cons.mp hr with rfl | hold
        · obtain ⟨-, p, hp, -, -, -, hsender⟩ := hdelivers
          obtain rfl : (d, decoded f) = p := Option.some.inj hp
          exact hmac hsender
        · exact hnot ⟨r, hold, hdelivers⟩
      · have hlen : (decoded f).senderMac.length = 6 := by simp [decoded, decodeFrame]
        have hack := decoded_encodeFrame _ hlen s d 0 0 slot (decoded f).seq true
        rw [show (s.net d).myMac = macBytes d from rfl] at hack
        rw [hack, hdest, hseq]
        exact ⟨rfl, rfl, rfl⟩

/-- The data frame device `d` sends `dest` under number `seq`. -/
def dataFrame (d dest : Mac) (slot type data seq : Word) : List UInt8 :=
  encodeFrame (macBytes dest) (macBytes d) type data slot seq false

/-- The acknowledgement of number `seq` that device `d` sends `dest`. -/
def ackFrame (d dest : Mac) (slot seq : Word) : List UInt8 :=
  encodeFrame (macBytes dest) (macBytes d) 0 0 slot seq true

/-- Device 1 sends a message to device 2, which receives it; the first poll finds the
acknowledgement. -/
def promptDelivery : List LinkEvent :=
  [.sendReliable 1 2 0 7 8, .receive 2 3 100 (some (dataFrame 1 2 0 7 8 1)),
    .answer 0 (some (ackFrame 2 1 3 1))]

theorem reliable_delivery_prompt : ∃ tr s, LinkRun (fun _ => true) tr s ∧ AllClear tr ∧
    (∃ r ∈ tr, (acknowledged r).isSome) ∧ ReliableDelivery tr := by
  have hview : (runTrace linkStep [] (Link.start fun _ => true) promptDelivery).map
      (fun p => (decide (AllClear p.1), decide (∃ r ∈ p.1, (acknowledged r).isSome))) =
      some (true, true) := by
    decide +kernel
  obtain ⟨tr, s, hrun, hview⟩ := exists_trace_of_runTrace hview
  simp only [Prod.mk.injEq, decide_eq_true_eq] at hview
  exact ⟨tr, s, hrun, hview.1, hview.2, reliable_delivery _ tr s hrun hview.1⟩

/-- Device 3 has sent device 2 a message, its first; then device 1 sends device 2 its own first
message, and its poll finds the acknowledgement of the other one. -/
def mistakenDelivery : List LinkEvent :=
  [.sendReliable 3 2 0 5 6, .receive 2 3 100 (some (dataFrame 3 2 0 5 6 1)),
    .sendReliable 1 2 0 7 8, .answer 0 (some (ackFrame 2 3 3 1))]

theorem reliable_delivery_mistaken : ∃ tr s, LinkRun (fun _ => true) tr s ∧
    ¬ ReliableDelivery tr := by
  have hview : (runTrace linkStep [] (Link.start fun _ => true) mistakenDelivery).map
      (fun p => decide (ReliableDelivery p.1)) = some false := by
    decide +kernel
  obtain ⟨tr, s, hrun, hview⟩ := exists_trace_of_runTrace hview
  exact ⟨tr, s, hrun, of_decide_eq_false hview⟩

end Vajra
