import Mathlib.Data.List.Perm.Basic
import Vajra.ReliableLink

/-!
# One delivery of a reliable send (`core/net.c`)

Two devices on a link that loses and reorders frames but hands out each frame at most once.  A
frame under way remembers the call whose message it carries; nothing in its bytes does, and
`net_poll_receive_message` keeps no record of the numbers it has seen.

So a call that transmits its message again while the first frame is still under way, or after a
poll has found it and only the acknowledgement got lost, has its message delivered twice.
`Patient` is the condition on a step that excludes this: a message is transmitted again only
when its earlier frames are lost.  Then every message has, at any time, been found once, or is
under way once, or is lost (`Copies`).
-/

namespace Vajra

open TransitionTrace

/-- The two devices. -/
inductive Side where
  | left
  | right
  deriving DecidableEq

def Side.other : Side → Side
  | .left => .right
  | .right => .left

/-- A frame under way, and the reliable send whose message it carries, if any, by the step at
which that call was made. -/
structure Transit where
  frame : List UInt8
  toward : Side
  call : Option Nat
  deriving DecidableEq

/-- A reliable send that waits for its acknowledgement, and the device it was made on. -/
structure Waiter where
  side : Side
  call : LinkCall
  deriving DecidableEq

/-- The two devices, the frames under way and the reliable sends that wait. -/
structure Pair where
  online : Side → Bool
  nextSeq : Side → Word
  flight : List Transit
  calls : List Waiter
  now : Nat

def Pair.start (online : Side → Bool) : Pair := ⟨online, fun _ => 1, [], [], 0⟩

/-- A step of one device, or the loss of a frame.  `pick` is the frame a poll finds, by its place
among those under way. -/
inductive PairEvent where
  | sendMessage (d : Side) (slot type data : Word)
  | sendMessageTo (d : Side) (slot type data : Word)
  | sendReliable (d : Side) (slot type data : Word)
  | answer (i : Nat) (pick : Option Nat)
  | receive (d : Side) (slot : Word) (maxSpins : Nat) (pick : Option Nat)
  | lose (j : Nat)
  deriving DecidableEq

inductive PairOutcome where
  | returned (rc : Int)
  | waiting
  | received (rc : Int) (message : Option RawMessage)
  | lost

/-- The frame a poll of device `d` finds, and the frames under way after it. -/
def Pair.take (s : Pair) (d : Side) : Option Nat → Option (Option Transit × List Transit)
  | none => some (none, s.flight)
  | some j =>
      match s.flight[j]? with
      | none => none
      | some t => if t.toward = d then some (some t, s.flight.eraseIdx j) else none

/-- The card of a device whose next poll finds the frame. -/
def Port.offering (found : Option Transit) : Port := ⟨[], [found.map Transit.frame]⟩

/-- The frames that device `d` has sent, on their way to the other one. -/
def launched (d : Side) (port : Port) (call : Option Nat) : List Transit :=
  port.sent.map fun frame => ⟨frame, d.other, call⟩

section

variable (mac : Side → Mac)

/-- The statics of `net.c` on one device. -/
def Pair.net (s : Pair) (d : Side) : Net := ⟨s.online d, macBytes (mac d), s.nextSeq d⟩

/-- One step of the pair. -/
def pairStep (s : Pair) : PairEvent → Option (Pair × PairOutcome)
  | .sendMessage d slot type data =>
      match netSendMessage portHal (s.net mac d) ⟨[], []⟩ slot type data with
      | (port, rc) =>
          some ({ s with flight := launched d port none ++ s.flight, now := s.now + 1 },
            .returned rc)
  | .sendMessageTo d slot type data =>
      match netSendMessageTo portHal (s.net mac d) ⟨[], []⟩ slot (macBytes (mac d.other)) type
        data with
      | (port, rc) =>
          some ({ s with flight := launched d port none ++ s.flight, now := s.now + 1 },
            .returned rc)
  | .sendReliable d slot type data =>
      if ¬ s.online d then some ({ s with now := s.now + 1 }, .returned (-1))
      else
        let c := newCall (s.net mac d) (mac d) (mac d.other) slot type data s.now
        let port := transmit portHal (s.net mac d) c ⟨[], []⟩
        some ({ s with
          nextSeq := Function.update s.nextSeq d (s.nextSeq d + 1)
          flight := launched d port (some c.begun) ++ s.flight
          calls := ⟨d, c⟩ :: s.calls
          now := s.now + 1 }, .waiting)
  | .answer i pick =>
      match s.calls[i]? with
      | none => none
      | some w =>
          match s.take w.side pick with
          | none => none
          | some (found, flight) =>
              match answerTurn portHal (s.net mac w.side) w.call (.offering found) with
              | (_, .done rc) =>
                  some ({ s with
                    flight := flight
                    calls := s.calls.eraseIdx i
                    now := s.now + 1 }, .returned rc)
              | (port, .again c) =>
                  some ({ s with
                    flight := launched w.side port (some c.begun) ++ flight
                    calls := s.calls.set i ⟨w.side, c⟩
                    now := s.now + 1 }, .waiting)
  | .receive d slot maxSpins pick =>
      match s.take d pick with
      | none => none
      | some (found, flight) =>
          match netPollReceiveMessage portHal (s.net mac d) (.offering found) slot maxSpins with
          | (port, rc, raw) =>
              some ({ s with flight := launched d port none ++ flight, now := s.now + 1 },
                .received rc raw)
  | .lose j =>
      match s.flight[j]? with
      | none => none
      | some _ => some ({ s with flight := s.flight.eraseIdx j, now := s.now + 1 }, .lost)

abbrev PairRecord := Transition Pair PairEvent PairOutcome

/-- A run of the two devices. -/
abbrev PairRun (online : Side → Bool) (tr : List PairRecord) (s : Pair) : Prop :=
  Trace (pairStep mac) (Pair.start online) tr s

end

/-- The call whose message was in the frame that `net_poll_receive_message` found in this step. -/
def arrived (r : PairRecord) : Option Nat :=
  match r.event with
  | .receive _ _ _ (some j) => r.pre.flight[j]?.bind Transit.call
  | _ => none

/-- The call for whose message `net_poll_receive_message` returned 1 in this step. -/
def heard (r : PairRecord) : Option Nat :=
  match r.outcome with
  | .received 1 _ => arrived r
  | _ => none

/-- How often a poll found a frame with the message of the call made at step `n`. -/
def arrivals (tr : List PairRecord) (n : Nat) : Nat := (tr.filterMap arrived).count n

/-- How often the message of the call made at step `n` was delivered. -/
def deliveries (tr : List PairRecord) (n : Nat) : Nat := (tr.filterMap heard).count n

/-- How many frames with the message of the call are under way. -/
def underWay (s : Pair) (n : Nat) : Nat := s.flight.countP fun t => t.call = some n

/-- The frame that a poll picks is the acknowledgement the call waits for. -/
def Answers (s : Pair) (c : LinkCall) (pick : Option Nat) : Prop :=
  ∃ j ∈ pick, ∃ t ∈ s.flight[j]?, Ours t.frame ∧ (decoded t.frame).Acks c.dest c.seq

instance (f : List UInt8) : Decidable (Ours f) := inferInstanceAs (Decidable (_ ∧ _ ∧ _))

instance (s : Pair) (c : LinkCall) (pick : Option Nat) : Decidable (Answers s c pick) :=
  inferInstanceAs (Decidable (∃ j ∈ pick, ∃ t ∈ s.flight[j]?, _))

/-- When a poll does not find its acknowledgement and attempts are left, the earlier frames of
the message are lost: no poll has found one, and none is under way. -/
def Patient (tr : List PairRecord) (r : PairRecord) : Prop :=
  match r.event with
  | .answer i pick => ∀ w ∈ r.pre.calls[i]?, w.call.left ≠ 0 → ¬ Answers r.pre w.call pick →
      arrivals tr w.call.begun = 0 ∧ underWay r.pre w.call.begun = 0
  | _ => True

instance (tr : List PairRecord) (r : PairRecord) : Decidable (Patient tr r) :=
  match h : r.event with
  | .sendMessage .. => isTrue (by simp [Patient, h])
  | .sendMessageTo .. => isTrue (by simp [Patient, h])
  | .sendReliable .. => isTrue (by simp [Patient, h])
  | .receive .. => isTrue (by simp [Patient, h])
  | .lose .. => isTrue (by simp [Patient, h])
  | .answer i pick =>
      decidable_of_iff (∀ w ∈ r.pre.calls[i]?, w.call.left ≠ 0 → ¬ Answers r.pre w.call pick →
        arrivals tr w.call.begun = 0 ∧ underWay r.pre w.call.begun = 0)
        (by simp only [Patient, h])

/-- Every step of the run is patient. -/
def AllPatient : List PairRecord → Prop
  | [] => True
  | r :: tr => Patient tr r ∧ AllPatient tr

instance decidableAllPatient : (tr : List PairRecord) → Decidable (AllPatient tr)
  | [] => isTrue trivial
  | r :: tr =>
      have := decidableAllPatient tr
      inferInstanceAs (Decidable (Patient tr r ∧ AllPatient tr))

/-- A frame taken off the link is no longer under way. -/
theorem countP_eraseIdx_add {l : List Transit} {j : Nat} {t : Transit} (h : l[j]? = some t)
    (p : Transit → Bool) : (l.eraseIdx j).countP p + (if p t then 1 else 0) = l.countP p := by
  obtain ⟨hj, rfl⟩ := List.getElem?_eq_some_iff.mp h
  have hperm := (List.getElem_cons_eraseIdx_perm hj).countP_eq p
  rwa [List.countP_cons] at hperm

/-- One if the frame carries the message of call `n`. -/
def carried (found : Option Transit) (n : Nat) : Nat :=
  if found.bind Transit.call = some n then 1 else 0

/-- The frame a poll finds is no longer under way. -/
theorem take_underWay {s : Pair} {d : Side} {pick : Option Nat} {found : Option Transit}
    {flight : List Transit} (h : s.take d pick = some (found, flight)) (n : Nat) :
    flight.countP (fun t => t.call = some n) + carried found n = underWay s n := by
  cases pick with
  | none =>
      cases h
      rfl
  | some j =>
      cases ht : s.flight[j]? with
      | none => simp [Pair.take, ht] at h
      | some t =>
          rw [Pair.take, ht] at h
          dsimp only at h
          split at h
          · cases h
            have hcount := countP_eraseIdx_add ht fun t => decide (t.call = some n)
            simp only [decide_eq_true_eq] at hcount
            exact hcount
          · cases h

/-- The frames of a message that a device has just sent. -/
theorem launched_underWay (d : Side) (port : Port) (call : Option Nat) (n : Nat) :
    (launched d port call).countP (fun t => t.call = some n) =
      if call = some n then port.sent.length else 0 := by
  rw [launched, List.countP_map]
  split
  · rename_i hcall
    simp [Function.comp_def, hcall]
  · rename_i hcall
    simp [Function.comp_def, hcall]

theorem underWay_append (s : Pair) (added flight : List Transit) (n : Nat) (calls : List Waiter)
    (nextSeq : Side → Word) (now : Nat) :
    underWay { s with flight := added ++ flight, calls := calls, nextSeq := nextSeq, now := now } n =
      added.countP (fun t => t.call = some n) + flight.countP (fun t => t.call = some n) :=
  List.countP_append

section

variable {mac : Side → Mac} {s s' : Pair} {e : PairEvent} {o : PairOutcome}

/-- One if the poll of the step found the message of call `n`. -/
def arrivedOnce (r : PairRecord) (n : Nat) : Nat := if arrived r = some n then 1 else 0

theorem arrivals_cons (r : PairRecord) (tr : List PairRecord) (n : Nat) :
    arrivals (r :: tr) n = arrivedOnce r n + arrivals tr n := by
  rw [arrivals, arrivals, arrivedOnce]
  cases harrived : arrived r with
  | none => simp [harrived]
  | some m =>
      rw [List.filterMap_cons_some harrived, List.count_cons]
      by_cases hm : m = n
      · simp [hm, Nat.add_comm]
      · simp [hm]

/-- What was delivered has been found. -/
theorem deliveries_le_arrivals (tr : List PairRecord) (n : Nat) :
    deliveries tr n ≤ arrivals tr n := by
  induction tr with
  | nil => exact le_rfl
  | cons r tr ih =>
      rw [arrivals_cons, arrivedOnce, deliveries]
      cases hheard : heard r with
      | none =>
          rw [List.filterMap_cons_none hheard]
          exact le_add_left ih
      | some m =>
          have harrived : arrived r = some m := by
            rw [heard] at hheard
            split at hheard
            · exact hheard
            · cases hheard
          rw [List.filterMap_cons_some hheard, List.count_cons, harrived, Nat.add_comm]
          refine Nat.add_le_add ?_ ih
          by_cases hm : m = n
          · simp [hm]
          · simp [hm]

/-- The frame that the poll of a receiver found. -/
theorem arrivedOnce_receive {d : Side} {slot : Word} {maxSpins : Nat} {pick : Option Nat}
    {found : Option Transit} {flight : List Transit} (htake : s.take d pick = some (found, flight))
    (n : Nat) : arrivedOnce ⟨s, .receive d slot maxSpins pick, o, s'⟩ n = carried found n := by
  cases pick with
  | none =>
      cases htake
      rfl
  | some j =>
      cases ht : s.flight[j]? with
      | none => simp [Pair.take, ht] at htake
      | some t =>
          rw [Pair.take, ht] at htake
          dsimp only at htake
          split at htake
          · cases htake
            simp only [arrivedOnce, arrived, ht, carried]
          · cases htake

/-- What a transmission puts on the link. -/
theorem transmit_sent_length (net : Net) (c : LinkCall) (port : Port) :
    (transmit portHal net c port).sent.length ≤ port.sent.length + 1 := by
  rw [transmit, netSendRaw_port]
  split
  · exact Nat.le_of_eq List.length_cons
  · exact Nat.le_succ _

/-- A call that goes on has transmitted its frame once more, after a poll that did not find its
acknowledgement. -/
theorem answerTurn_again {w : Waiter} {pick : Option Nat} {found : Option Transit}
    {flight : List Transit} {port : Port} {c : LinkCall}
    (htake : s.take w.side pick = some (found, flight))
    (hturn : answerTurn portHal (s.net mac w.side) w.call (.offering found) = (port, .again c)) :
    c.begun = w.call.begun ∧ port.sent.length ≤ 1 ∧
      (port.sent = [] ∨ w.call.left ≠ 0 ∧ ¬ Answers s w.call pick) := by
  rcases hpoll : netPollReceiveRaw portHal (s.net mac w.side) (.offering found) reliableSendSpins
    with ⟨dev, rc, raw⟩
  obtain ⟨hsent, -⟩ := netPollReceiveRaw_port hpoll
  rw [answerTurn, hpoll] at hturn
  dsimp only at hturn
  split at hturn
  · cases hturn
  · rename_i hack
    cases hleft : w.call.left with
    | zero =>
        rw [hleft] at hturn
        cases hturn
    | succ left =>
        rw [hleft] at hturn
        cases hturn
        refine ⟨rfl, ?_, ?_⟩
        · have hlength := transmit_sent_length (s.net mac w.side) w.call dev
          rwa [hsent] at hlength
        · by_cases honline : (s.net mac w.side).online = true
          · right
            refine ⟨Nat.succ_ne_zero left, ?_⟩
            rintro ⟨j, hj, t, ht, hours, hacks⟩
            -- the poll has decoded the acknowledgement, so the call would have ended
            have hfound : found = some t := by
              rw [Option.mem_def.mp hj, Pair.take, Option.mem_def.mp ht] at htake
              dsimp only at htake
              split at htake
              · cases htake
                rfl
              · cases htake
            rw [hfound, Port.offering, Option.map_some,
              netPollReceiveRaw_ours honline hours] at hpoll
            cases hpoll
            exact hack ⟨_, rfl, hacks⟩
          · left
            rw [transmit, netSendRaw_port, if_neg honline, hsent]

/-- What a step does to the copies of the messages.  It moves them, or begins a call and sends
its first frame, or transmits the message of a waiting call again. -/
inductive PairEffect (r : PairRecord) : Prop
  | moved (hcopies : ∀ n, arrivedOnce r n + underWay r.post n ≤ underWay r.pre n)
      (hcalls : ∀ w ∈ r.post.calls, ∃ v ∈ r.pre.calls, v.call.begun = w.call.begun)
  | begun (hcopies : ∀ n, arrivedOnce r n + underWay r.post n ≤
        underWay r.pre n + if n = r.pre.now then 1 else 0)
      (hcalls : ∀ w ∈ r.post.calls, w.call.begun = r.pre.now ∨ w ∈ r.pre.calls)
  | again (i : Nat) (pick : Option Nat) (w : Waiter) (hevent : r.event = .answer i pick)
      (hw : w ∈ r.pre.calls[i]?) (hleft : w.call.left ≠ 0) (hanswer : ¬ Answers r.pre w.call pick)
      (hcopies : ∀ n, arrivedOnce r n + underWay r.post n ≤
        underWay r.pre n + if n = w.call.begun then 1 else 0)
      (hcalls : ∀ w ∈ r.post.calls, ∃ v ∈ r.pre.calls, v.call.begun = w.call.begun)

/-- A step that sends only unnumbered frames moves the copies of the messages. -/
theorem PairEffect.of_unnumbered {d : Side} {port : Port} {flight : List Transit}
    (hflight : ∀ n, arrivedOnce ⟨s, e, o, s'⟩ n + flight.countP (fun t => t.call = some n) ≤
      underWay s n)
    (hs' : s' = { s with flight := launched d port none ++ flight, now := s.now + 1 }) :
    PairEffect ⟨s, e, o, s'⟩ := by
  refine .moved (fun n => ?_) ?_
  · have hunder : underWay s' n = flight.countP fun t => t.call = some n := by
      rw [hs', underWay_append, launched_underWay, if_neg (Option.some_ne_none n).symm,
        Nat.zero_add]
    dsimp only
    rw [hunder]
    exact hflight n
  · intro w hw
    rw [hs'] at hw
    exact ⟨w, hw, rfl⟩

/-- The frames under way after a step that transmits the message of a call. -/
theorem launched_copies {d : Side} {port : Port} {flight : List Transit} {m k : Nat}
    (hport : port.sent.length ≤ 1) (n : Nat)
    (hflight : k + flight.countP (fun t => t.call = some n) ≤ underWay s n) :
    k + (launched d port (some m) ++ flight).countP (fun t => t.call = some n) ≤
      underWay s n + if n = m then 1 else 0 := by
  rw [List.countP_append, launched_underWay]
  by_cases hn : n = m
  · rw [if_pos hn, if_pos (by rw [hn])]
    omega
  · rw [if_neg hn, if_neg (by simpa using Ne.symm hn)]
    omega

/-- A frame that is lost, or that a waiting call polls, is no longer under way. -/
theorem take_le {d : Side} {pick : Option Nat} {found : Option Transit} {flight : List Transit}
    (htake : s.take d pick = some (found, flight)) (n : Nat) :
    flight.countP (fun t => t.call = some n) ≤ underWay s n := by
  rw [← take_underWay htake n]
  exact Nat.le_add_right _ _

/-- One poll of a waiting call. -/
theorem answer_effect {i : Nat} {pick : Option Nat}
    (h : pairStep mac s (.answer i pick) = some (s', o)) :
    PairEffect ⟨s, .answer i pick, o, s'⟩ := by
  rw [pairStep] at h
  cases hw : s.calls[i]? with
  | none => simp [hw] at h
  | some w =>
      rcases htake : s.take w.side pick with _ | ⟨found, flight⟩
      · simp [hw, htake] at h
      · rcases hturn : answerTurn portHal (s.net mac w.side) w.call (.offering found) with
          ⟨port, rc | c⟩
        · simp only [hw, htake, hturn] at h
          cases h
          refine .moved (fun n => ?_) ?_
          · exact (Nat.zero_add _).le.trans (take_le htake n)
          · intro v hv
            exact ⟨v, List.mem_of_mem_eraseIdx hv, rfl⟩
        · simp only [hw, htake, hturn] at h
          cases h
          obtain ⟨hbegun, hport, hagain⟩ := answerTurn_again htake hturn
          have hcalls : ∀ v ∈ s.calls.set i ⟨w.side, c⟩,
              ∃ u ∈ s.calls, u.call.begun = v.call.begun := by
            intro v hv
            rcases List.mem_or_eq_of_mem_set hv with hv | rfl
            · exact ⟨v, hv, rfl⟩
            · exact ⟨w, List.mem_of_getElem? hw, hbegun.symm⟩
          rcases hagain with hnone | ⟨hleft, hanswer⟩
          · refine .moved (fun n => ?_) hcalls
            rw [launched, hnone]
            exact (Nat.zero_add _).le.trans (take_le htake n)
          · refine .again i pick w rfl hw hleft hanswer (fun n => ?_) hcalls
            rw [← hbegun]
            exact launched_copies hport n ((Nat.zero_add _).le.trans (take_le htake n))

/-- What one step of the pair does. -/
theorem pairStep_effect (h : pairStep mac s e = some (s', o)) : PairEffect ⟨s, e, o, s'⟩ := by
  cases e with
  | sendMessage d slot type data =>
      cases h
      exact .of_unnumbered (fun n => (Nat.zero_add _).le) rfl
  | sendMessageTo d slot type data =>
      cases h
      exact .of_unnumbered (fun n => (Nat.zero_add _).le) rfl
  | sendReliable d slot type data =>
      rw [pairStep] at h
      split at h
      · cases h
        exact .moved (fun n => (Nat.zero_add _).le) (fun w hw => ⟨w, hw, rfl⟩)
      · cases h
        refine .begun (fun n => ?_) ?_
        · exact launched_copies (transmit_sent_length _ _ _) n (Nat.zero_add _).le
        · intro w hw
          rcases List.mem_cons.mp hw with rfl | hw
          · exact Or.inl rfl
          · exact Or.inr hw
  | answer i pick => exact answer_effect h
  | receive d slot maxSpins pick =>
      rw [pairStep] at h
      rcases htake : s.take d pick with _ | ⟨found, flight⟩
      · simp [htake] at h
      · simp only [htake] at h
        cases h
        refine .of_unnumbered (fun n => ?_) rfl
        rw [arrivedOnce_receive htake, Nat.add_comm]
        exact (take_underWay htake n).le
  | lose j =>
      rw [pairStep] at h
      cases ht : s.flight[j]? with
      | none => simp [ht] at h
      | some t =>
          simp only [ht] at h
          cases h
          refine .moved (fun n => ?_) (fun w hw => ⟨w, hw, rfl⟩)
          refine (Nat.zero_add _).le.trans ?_
          have hcount := countP_eraseIdx_add ht fun t => decide (t.call = some n)
          exact Nat.le.intro hcount

theorem pairStep_now (h : pairStep mac s e = some (s', o)) : s'.now = s.now + 1 := by
  cases e with
  | sendMessage d slot type data =>
      cases h
      rfl
  | sendMessageTo d slot type data =>
      cases h
      rfl
  | sendReliable d slot type data =>
      rw [pairStep] at h
      split at h <;> cases h <;> rfl
  | answer i pick =>
      rw [pairStep] at h
      split at h
      · cases h
      · split at h
        · cases h
        · split at h <;> cases h <;> rfl
  | receive d slot maxSpins pick =>
      rw [pairStep] at h
      split at h <;> cases h
      rfl
  | lose j =>
      rw [pairStep] at h
      split at h <;> cases h
      rfl

end

/-- Each message has been found once, or is under way once, or neither; one that has not been
sent yet is neither; and the waiting calls have been made. -/
structure Copies (tr : List PairRecord) (s : Pair) : Prop where
  one : ∀ n, arrivals tr n + underWay s n ≤ 1
  unsent : ∀ n, s.now ≤ n → arrivals tr n + underWay s n = 0
  made : ∀ w ∈ s.calls, w.call.begun < s.now

section

variable {mac : Side → Mac} {s s' : Pair} {e : PairEvent} {o : PairOutcome} {tr : List PairRecord}

/-- A patient step keeps `Copies`. -/
theorem Copies.step (hs : Copies tr s) (h : pairStep mac s e = some (s', o))
    (hpatient : Patient tr ⟨s, e, o, s'⟩) : Copies (⟨s, e, o, s'⟩ :: tr) s' := by
  have hnow := pairStep_now h
  -- `extra` is the message of which the step may have sent one more frame
  have hcopies : ∀ extra : Option Nat,
      (∀ n, arrivedOnce ⟨s, e, o, s'⟩ n + underWay s' n ≤
        underWay s n + if some n = extra then 1 else 0) →
      (∀ n ∈ extra, arrivals tr n + underWay s n = 0 ∧ n < s'.now) →
      (∀ w ∈ s'.calls, w.call.begun < s'.now) → Copies (⟨s, e, o, s'⟩ :: tr) s' := by
    intro extra hle hextra hmade
    refine ⟨fun n => ?_, fun n hn => ?_, hmade⟩
    · rw [arrivals_cons]
      have hn := hle n
      have hone := hs.one n
      split at hn
      · rename_i hextran
        have hzero := (hextra n hextran.symm).1
        omega
      · omega
    · rw [arrivals_cons]
      have hle := hle n
      have hzero := hs.unsent n (by omega)
      rw [if_neg] at hle
      · omega
      · intro hextran
        have hlt := (hextra n hextran.symm).2
        omega
  have hkept : (∀ w ∈ s'.calls, ∃ v ∈ s.calls, v.call.begun = w.call.begun) →
      ∀ w ∈ s'.calls, w.call.begun < s'.now := by
    intro hcalls w hw
    obtain ⟨v, hv, hbegun⟩ := hcalls w hw
    have hlt := hs.made v hv
    omega
  cases pairStep_effect h with
  | moved hle hcalls =>
      refine hcopies none (fun n => ?_) (fun n hn => absurd hn (Option.not_mem_none n))
        (hkept hcalls)
      exact (hle n).trans (Nat.le_add_right _ _)
  | begun hle hcalls =>
      refine hcopies (some s.now) (fun n => ?_) ?_ ?_
      · simpa only [Option.some.injEq] using hle n
      · intro n hn
        cases hn
        exact ⟨hs.unsent s.now le_rfl, by omega⟩
      · intro w hw
        rcases hcalls w hw with hbegun | hold
        · dsimp only at hbegun
          omega
        · have hlt := hs.made w hold
          omega
  | again i pick w hevent hw hleft hanswer hle hcalls =>
      refine hcopies (some w.call.begun) (fun n => ?_) ?_ (hkept hcalls)
      · simpa only [Option.some.injEq] using hle n
      · intro n hn
        cases hn
        dsimp only at hevent
        rw [Patient, hevent] at hpatient
        obtain ⟨harrivals, hunder⟩ := hpatient w hw hleft hanswer
        have hlt := hs.made w (List.mem_of_getElem? hw)
        exact ⟨by dsimp only at hunder; omega, by omega⟩

/-- A run of patient steps keeps `Copies`. -/
theorem Copies.run {online : Side → Bool} (hrun : PairRun mac online tr s)
    (hpatient : AllPatient tr) : Copies tr s := by
  induction hrun with
  | nil => exact ⟨fun n => Nat.zero_le 1, fun n _ => rfl, fun w hw => absurd hw List.not_mem_nil⟩
  | snoc before hstep ih => exact (ih hpatient.2).step hstep hpatient.1

/-- One delivery for each reliable send: in every run in which a message is transmitted again
only when its earlier frames are lost, `net_poll_receive_message` returns 1 for it at most once. -/
theorem one_delivery (mac : Side → Mac) (online : Side → Bool) (tr : List PairRecord) (s : Pair)
    (hrun : PairRun mac online tr s) (hpatient : AllPatient tr) (n : Nat) :
    deliveries tr n ≤ 1 := by
  have hcopies := (Copies.run hrun hpatient).one n
  have hle := deliveries_le_arrivals tr n
  omega

end

/-- The first frame is lost, and the message is transmitted again and received; the
acknowledgement ends the call. -/
def lostFrame : List PairEvent :=
  [.sendReliable .left 0 5 6, .lose 0, .answer 0 none, .receive .right 3 100 (some 0),
    .answer 0 (some 0)]

theorem one_delivery_lostFrame : ∃ tr s,
    PairRun (fun d => if d = .left then 1 else 2) (fun _ => true) tr s ∧ AllPatient tr ∧
      deliveries tr 0 = 1 ∧ ∀ n, deliveries tr n ≤ 1 := by
  have hview : (runTrace (pairStep fun d => if d = .left then 1 else 2) []
      (Pair.start fun _ => true) lostFrame).map
      (fun p => (decide (AllPatient p.1), deliveries p.1 0)) = some (true, 1) := by
    decide +kernel
  obtain ⟨tr, s, hrun, hview⟩ := exists_trace_of_runTrace hview
  simp only [Prod.mk.injEq, decide_eq_true_eq] at hview
  exact ⟨tr, s, hrun, hview.1, hview.2, one_delivery _ _ tr s hrun hview.1⟩

/-- The message is received, but the acknowledgement is lost; so it is transmitted and received
again, and the second acknowledgement ends the call. -/
def lostAcknowledgement : List PairEvent :=
  [.sendReliable .left 0 5 6, .receive .right 3 100 (some 0), .lose 0, .answer 0 none,
    .receive .right 3 100 (some 0), .answer 0 (some 0)]

theorem delivered_twice : ∃ tr s,
    PairRun (fun d => if d = .left then 1 else 2) (fun _ => true) tr s ∧ deliveries tr 0 = 2 := by
  have hview : (runTrace (pairStep fun d => if d = .left then 1 else 2) []
      (Pair.start fun _ => true) lostAcknowledgement).map (fun p => deliveries p.1 0) = some 2 := by
    decide +kernel
  obtain ⟨tr, s, hrun, hview⟩ := exists_trace_of_runTrace hview
  exact ⟨tr, s, hrun, hview⟩

end Vajra
