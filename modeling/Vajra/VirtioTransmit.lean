import Vajra.Virtqueue

/-!
# Sending frames (`hal_net_send`)

One buffer and one descriptor serve all frames.  After publishing the descriptor the driver
waits for the used index to move, but only for a million spins, and then returns 0 all the
same: the device may still have to read the buffer that the next call overwrites.  And when it
gives the descriptor back later, the next call takes that for the completion of its own frame.

The device transmits the published descriptors in order, after any delay, and gives each back
at any time after that.  `AllPrompt` is the condition on a run under which nothing goes wrong:
a frame is only accepted when every earlier use of the descriptor has been given back.  It
holds in particular if no wait ever runs out (`AllWaited`).
-/

namespace Vajra

open CounterRing TransitionTrace

def txSpins : Nat := 1000000

/-- Where a call of `hal_net_send` stands: about to publish its frame, or waiting with so many
spins left. -/
inductive TxPc where
  | idle
  | publishing (frame : List UInt8)
  | waiting (frame : List UInt8) (spins : Nat)

/-- The transmit queue, the buffer, the call under way, and the device: the available entry it
will transmit next, and what it has put on the wire, oldest first. -/
structure TxState where
  txq : Virtq
  txBuf : Nat → UInt8
  pc : TxPc
  seen : BitVec 16
  wire : List (List UInt8)

/-- The state after `hal_net_init`. -/
def txStart (qsize : Nat) : TxState :=
  { txq := virtqInit qsize, txBuf := fun _ => 0, pc := .idle, seen := 0, wire := [] }

/-- `NET_HDR_LEN + len`, in the 32 bits of its operands. -/
def txLen (frame : List UInt8) : Nat := (netHdrLen + frame.length) % 2 ^ 32

/-- The buffer after the two copy loops of `hal_net_send`. -/
def fillTxBuf (txBuf : Nat → UInt8) (frame : List UInt8) : Nat → UInt8 := fun i =>
  if i < netHdrLen then 0
  else if i < netHdrLen + frame.length then frame.getD (i - netHdrLen) 0
  else txBuf i

/-- A step of the driver (`call`, `publish`, `spin`) or of the device (`transmit`, `giveBack`). -/
inductive TxEvent where
  | call (frame : List UInt8)
  | publish
  | spin
  | transmit
  | giveBack
  deriving DecidableEq

inductive TxOutcome where
  | none
  | returned (frame : List UInt8) (rc : Int)
  deriving DecidableEq

def txStep (s : TxState) : TxEvent → Option (TxState × TxOutcome)
  | .call frame =>
      match s.pc with
      | .idle =>
          if frameBufSize < txLen frame then some (s, .returned frame (-1))
          else
            some ({ s with
              txBuf := fillTxBuf s.txBuf frame
              txq := { s.txq with desc := Function.update s.txq.desc 0 ⟨0, txLen frame, 0, 0⟩ }
              pc := .publishing frame }, .none)
      | _ => none
  | .publish =>
      match s.pc with
      | .publishing frame =>
          some ({ s with txq := virtqPublish s.txq 0, pc := .waiting frame txSpins }, .none)
      | _ => none
  | .spin =>
      match s.pc with
      | .waiting frame 0 => some ({ s with pc := .idle }, .returned frame 0)
      | .waiting frame (spins+1) =>
          if s.txq.usedIdx ≠ s.txq.lastUsedIdx then
            some ({ s with txq := { s.txq with lastUsedIdx := s.txq.usedIdx }, pc := .idle },
              .returned frame 0)
          else some ({ s with pc := .waiting frame spins }, .none)
      | _ => none
  | .transmit =>
      if s.seen = s.txq.availIdx then none
      else
        -- descriptor and buffer are read as they are now
        let desc := s.txq.desc (s.txq.availRing (s.seen.toNat % s.txq.qsize)).toNat
        let frame := (List.range (desc.len - netHdrLen)).map fun i => s.txBuf (netHdrLen + i)
        some ({ s with seen := s.seen + 1, wire := s.wire ++ [frame] }, .none)
  | .giveBack =>
      if s.txq.usedIdx = s.seen then none
      else
        let index := (s.txq.availRing (s.txq.usedIdx.toNat % s.txq.qsize)).toNat
        some ({ s with txq := s.txq.giveBack index 0 }, .none)

abbrev TxRecord := Transition TxState TxEvent TxOutcome

/-- A run from the end of `hal_net_init` on. -/
abbrev TxRun (qsize : Nat) (tr : List TxRecord) (s : TxState) : Prop :=
  Trace txStep (txStart qsize) tr s

/-- The frame of a call that returned 0 in this step. -/
def frameSent (r : TxRecord) : Option (List UInt8) :=
  match r.outcome with
  | .returned frame rc => if rc = 0 then some frame else none
  | .none => none

/-- The frames of the calls that returned 0, oldest first. -/
def framesSent (tr : List TxRecord) : List (List UInt8) := observed frameSent tr

/-- How often the descriptor has been published, and how often given back. -/
def published (tr : List TxRecord) : Nat := tr.countP fun r => r.event = .publish
def givenBack (tr : List TxRecord) : Nat := tr.countP fun r => r.event = .giveBack

/-- The step writes the buffer or a descriptor. -/
def Rewrites (r : TxRecord) : Prop := r.post.txBuf ≠ r.pre.txBuf ∨ r.post.txq.desc ≠ r.pre.txq.desc

/-- The buffer and the descriptor are written only when every published use of them has been
given back. -/
def NeverRewritten : List TxRecord → Prop
  | [] => True
  | r :: tr => (Rewrites r → givenBack tr = published tr) ∧ NeverRewritten tr

/-- The frames on the wire are the frames of the calls that returned 0, in order and byte for
byte, less those the device has not transmitted yet. -/
def OnWire (tr : List TxRecord) (s : TxState) : Prop :=
  ∃ inFlight, framesSent tr = s.wire ++ inFlight ∧ inFlight.length = distance s.seen s.txq.availIdx

/-- A call that accepts its frame finds every earlier use given back, and the frame is not so
long that its length with the header exceeds 32 bits. -/
def PromptCall (tr : List TxRecord) (r : TxRecord) : Prop :=
  ∀ frame, r.event = .call frame → txLen frame ≤ frameBufSize →
    givenBack tr = published tr ∧ netHdrLen + frame.length < 2 ^ 32

theorem promptCall_iff {tr : List TxRecord} {r : TxRecord} {frame : List UInt8}
    (h : r.event = .call frame) :
    ¬ txLen frame ≤ frameBufSize ∨
      (givenBack tr = published tr ∧ netHdrLen + frame.length < 2 ^ 32) ↔ PromptCall tr r := by
  constructor
  · intro hor frame' hevent hfits
    rw [h, TxEvent.call.injEq] at hevent
    subst hevent
    exact hor.resolve_left (not_not.mpr hfits)
  · intro hall
    by_cases hfits : txLen frame ≤ frameBufSize
    · exact Or.inr (hall frame h hfits)
    · exact Or.inl hfits

instance (tr : List TxRecord) (r : TxRecord) : Decidable (PromptCall tr r) :=
  match h : r.event with
  | .call _ => decidable_of_iff _ (promptCall_iff h)
  | .publish | .spin | .transmit | .giveBack => isTrue (by simp [PromptCall, h])

/-- Every call of the run is prompt. -/
def AllPrompt : List TxRecord → Prop
  | [] => True
  | r :: tr => PromptCall tr r ∧ AllPrompt tr

instance decidableAllPrompt : (tr : List TxRecord) → Decidable (AllPrompt tr)
  | [] => isTrue trivial
  | r :: tr =>
      have := decidableAllPrompt tr
      inferInstanceAs (Decidable (PromptCall tr r ∧ AllPrompt tr))

/-- No wait has run out, and no frame is so long that its length exceeds 32 bits. -/
def AllWaited (tr : List TxRecord) : Prop :=
  ∀ r ∈ tr, (∀ frame, r.event = .spin → r.pre.pc ≠ .waiting frame 0) ∧
    ∀ frame, r.event = .call frame → netHdrLen + frame.length < 2 ^ 32

/-- The frame of the call under way. -/
def TxPc.frames : TxPc → List (List UInt8)
  | .idle => []
  | .publishing frame | .waiting frame _ => [frame]

/-- The descriptor the call under way is about to publish. -/
def TxPc.toPublish : TxPc → List Nat
  | .publishing _ => [0]
  | _ => []

/-- Buffer and descriptor are set up for the frame. -/
def Loaded (s : TxState) (frame : List UInt8) : Prop :=
  s.txq.desc 0 = ⟨0, netHdrLen + frame.length, 0, 0⟩ ∧
    ∀ i < frame.length, s.txBuf (netHdrLen + i) = frame.getD i 0

/-- The accepted frames are those on the wire and those in flight, for which the buffer is set
up; there is at most one of these. -/
structure TxInv (tr : List TxRecord) (s : TxState) : Prop where
  size : s.txq.qsize ∣ 2 ^ 16
  pos : 0 < s.txq.qsize
  next : s.txq.nextAvailIdx = s.txq.availIdx
  sent : published tr = s.wire.length + (s.txq.available s.seen).length
  returned : givenBack tr + distance s.txq.usedIdx s.seen = s.wire.length
  single : published tr + s.pc.toPublish.length ≤ givenBack tr + 1
  frames : ∃ inFlight, framesSent tr ++ s.pc.frames = s.wire ++ inFlight ∧
    (∀ frame ∈ inFlight, Loaded s frame) ∧
    s.txq.available s.seen ++ s.pc.toPublish = inFlight.map fun _ => 0

/-- The bookkeeping of a driver whose waits never ran out: between calls every use has been
given back and seen, and a waiting call sees the used index move when its own use is. -/
def TxSettled (tr : List TxRecord) (s : TxState) : Prop :=
  match s.pc with
  | .waiting _ _ =>
      (published tr = givenBack tr + 1 ∧ s.txq.usedIdx = s.txq.lastUsedIdx) ∨
        published tr = givenBack tr
  | _ => published tr = givenBack tr ∧ s.txq.usedIdx = s.txq.lastUsedIdx

/-- A frame that is loaded is what the device reads. -/
theorem Loaded.read {s : TxState} {frame : List UInt8} (h : Loaded s frame) :
    (List.range ((s.txq.desc 0).len - netHdrLen)).map (fun i => s.txBuf (netHdrLen + i)) = frame := by
  rw [h.1]
  dsimp only
  rw [Nat.add_sub_cancel_left]
  refine List.ext_getElem (by simp) fun i h1 h2 => ?_
  rw [List.getElem_map, List.getElem_range, h.2 i h2, ← List.getElem_eq_getD]

/-- `hal_net_send` loads the frame it accepts, unless its length wraps. -/
theorem loaded_call (s : TxState) {frame : List UInt8} (hlen : netHdrLen + frame.length < 2 ^ 32)
    (pc : TxPc) :
    Loaded { s with
      txBuf := fillTxBuf s.txBuf frame
      txq := { s.txq with desc := Function.update s.txq.desc 0 ⟨0, txLen frame, 0, 0⟩ }
      pc := pc } frame := by
  refine ⟨?_, fun i hi => ?_⟩
  · dsimp only
    rw [Function.update_self, txLen, Nat.mod_eq_of_lt hlen]
  · dsimp only
    rw [fillTxBuf, if_neg (by omega), if_pos (by omega), Nat.add_sub_cancel_left]

section Steps

variable {tr : List TxRecord} {s s' : TxState} {o : TxOutcome}

theorem framesSent_cons (r : TxRecord) (tr : List TxRecord) :
    framesSent (r :: tr) = framesSent tr ++ (frameSent r).toList :=
  observed_cons frameSent r tr

theorem published_cons (r : TxRecord) (tr : List TxRecord) :
    published (r :: tr) = published tr + if r.event = .publish then 1 else 0 := by
  simp [published, List.countP_cons]

theorem givenBack_cons (r : TxRecord) (tr : List TxRecord) :
    givenBack (r :: tr) = givenBack tr + if r.event = .giveBack then 1 else 0 := by
  simp [givenBack, List.countP_cons]

/-- Nothing is in flight when every use has been given back. -/
theorem TxInv.settled (h : TxInv tr s) (hback : givenBack tr = published tr) :
    s.txq.available s.seen = [] ∧ distance s.txq.usedIdx s.seen = 0 := by
  have hsent := h.sent
  have hreturned := h.returned
  exact ⟨List.length_eq_zero_iff.mp (by omega), by omega⟩

/-- A call, which finds nothing in flight if it accepts its frame. -/
theorem TxInv.call (h : TxInv tr s) {frame : List UInt8} (hstep : txStep s (.call frame) = some (s', o))
    (hprompt : PromptCall tr ⟨s, .call frame, o, s'⟩) :
    TxInv (⟨s, .call frame, o, s'⟩ :: tr) s' := by
  have hpub := published_cons ⟨s, .call frame, o, s'⟩ tr
  have hback := givenBack_cons ⟨s, .call frame, o, s'⟩ tr
  rw [if_neg TxEvent.noConfusion, Nat.add_zero] at hpub hback
  obtain ⟨inFlight, hframes, hloaded, havail⟩ := h.frames
  have hsingle := h.single
  cases hpc : s.pc with
  | idle =>
      rw [hpc] at hframes havail hsingle
      by_cases hlong : frameBufSize < txLen frame
      · simp only [txStep, hpc, hlong, if_true, Option.some.injEq, Prod.mk.injEq] at hstep
        obtain ⟨rfl, rfl⟩ := hstep
        refine ⟨h.size, h.pos, h.next, hpub ▸ h.sent, hback ▸ h.returned, by rw [hpub, hback]; exact h.single,
          inFlight, ?_, hloaded, by rw [hpc]; exact havail⟩
        rw [framesSent_cons, hpc]
        simpa [frameSent] using hframes
      · simp only [txStep, hpc, hlong, if_false, Option.some.injEq, Prod.mk.injEq] at hstep
        obtain ⟨rfl, rfl⟩ := hstep
        obtain ⟨hall, hlen⟩ := hprompt frame rfl (Nat.le_of_not_lt hlong)
        obtain ⟨hnone, -⟩ := h.settled hall
        rw [hnone, TxPc.toPublish, List.append_nil, eq_comm, List.map_eq_nil_iff] at havail
        · subst havail
          refine ⟨h.size, h.pos, h.next, hpub ▸ h.sent, hback ▸ h.returned, ?_, [frame], ?_, ?_, ?_⟩
          · rw [hpub, hback, hall]
            exact Nat.le_refl _
          · rw [framesSent_cons]
            simpa [frameSent, TxPc.frames] using hframes
          · intro f hf
            rw [List.mem_singleton.mp hf]
            exact loaded_call s hlen _
          · exact congrArg (· ++ [0]) hnone
        · exact fun _ hno => nomatch hno
  | publishing _ | waiting _ _ => simp [txStep, hpc] at hstep

/-- Publishing puts the descriptor into an empty ring. -/
theorem TxInv.publish (h : TxInv tr s) (hstep : txStep s .publish = some (s', o)) :
    TxInv (⟨s, .publish, o, s'⟩ :: tr) s' := by
  have hpub := published_cons ⟨s, .publish, o, s'⟩ tr
  have hback := givenBack_cons ⟨s, .publish, o, s'⟩ tr
  rw [if_pos rfl] at hpub
  rw [if_neg TxEvent.noConfusion, Nat.add_zero] at hback
  obtain ⟨inFlight, hframes, hloaded, havail⟩ := h.frames
  have hsingle := h.single
  have hsent := h.sent
  have hreturned := h.returned
  cases hpc : s.pc with
  | publishing frame =>
      rw [hpc] at hframes havail hsingle
      simp only [TxPc.toPublish, List.length_singleton] at hsingle havail
      simp only [txStep, hpc, Option.some.injEq, Prod.mk.injEq] at hstep
      obtain ⟨rfl, rfl⟩ := hstep
      have hzero : (s.txq.available s.seen).length = 0 := by omega
      have hpush : (virtqPublish s.txq 0).available s.seen = s.txq.available s.seen ++ [0] :=
        available_publish h.size h.next (hzero ▸ h.pos) (by omega) 0
      refine ⟨h.size, h.pos, rfl, ?_, hback ▸ hreturned, ?_, inFlight, ?_, hloaded, ?_⟩
      · rw [hpub, hpush, List.length_append, hsent]
        rfl
      · rw [hpub, hback]
        exact hsingle
      · rw [framesSent_cons]
        simpa [frameSent, TxPc.frames] using hframes
      · rw [hpush]
        simpa [TxPc.toPublish] using havail
  | idle | waiting _ _ => simp [txStep, hpc] at hstep

/-- The waiting loop writes nothing but `last_used_idx`. -/
theorem TxInv.waited (h : TxInv tr s) (lastUsedIdx : BitVec 16) {pc : TxPc}
    (hpublish : s.pc.toPublish = pc.toPublish)
    (hpc : s.pc.frames = (frameSent ⟨s, .spin, o, s'⟩).toList ++ pc.frames) :
    TxInv (⟨s, .spin, o, s'⟩ :: tr)
      { s with txq := { s.txq with lastUsedIdx := lastUsedIdx }, pc := pc } := by
  have hpub := published_cons ⟨s, .spin, o, s'⟩ tr
  have hback := givenBack_cons ⟨s, .spin, o, s'⟩ tr
  rw [if_neg TxEvent.noConfusion, Nat.add_zero] at hpub hback
  obtain ⟨inFlight, hframes, hloaded, havail⟩ := h.frames
  have hsingle := h.single
  refine ⟨h.size, h.pos, h.next, hpub ▸ h.sent, hback ▸ h.returned, ?_, inFlight, ?_, hloaded, ?_⟩
  · rw [hpub, hback, ← hpublish]
    exact hsingle
  · rw [framesSent_cons, List.append_assoc, ← hpc]
    exact hframes
  · rw [← hpublish]
    exact havail

/-- A turn of the waiting loop, which may end the call. -/
theorem TxInv.spin (h : TxInv tr s) (hstep : txStep s .spin = some (s', o)) :
    TxInv (⟨s, .spin, o, s'⟩ :: tr) s' := by
  cases hpc : s.pc with
  | waiting frame spins =>
      cases spins with
      | zero =>
          simp only [txStep, hpc, Option.some.injEq, Prod.mk.injEq] at hstep
          obtain ⟨rfl, rfl⟩ := hstep
          exact h.waited s.txq.lastUsedIdx (by rw [hpc]; rfl) (by rw [hpc]; rfl)
      | succ spins =>
          simp only [txStep, hpc] at hstep
          split at hstep
          · simp only [Option.some.injEq, Prod.mk.injEq] at hstep
            obtain ⟨rfl, rfl⟩ := hstep
            exact h.waited s.txq.usedIdx (by rw [hpc]; rfl) (by rw [hpc]; rfl)
          · simp only [Option.some.injEq, Prod.mk.injEq] at hstep
            obtain ⟨rfl, rfl⟩ := hstep
            exact h.waited s.txq.lastUsedIdx (by rw [hpc]; rfl) (by rw [hpc]; rfl)
  | idle | publishing _ => simp [txStep, hpc] at hstep

/-- The device transmits the frame the buffer was set up for. -/
theorem TxInv.transmit (h : TxInv tr s) (hstep : txStep s .transmit = some (s', o)) :
    TxInv (⟨s, .transmit, o, s'⟩ :: tr) s' := by
  have hpub := published_cons ⟨s, .transmit, o, s'⟩ tr
  have hback := givenBack_cons ⟨s, .transmit, o, s'⟩ tr
  rw [if_neg TxEvent.noConfusion, Nat.add_zero] at hpub hback
  obtain ⟨inFlight, hframes, hloaded, havail⟩ := h.frames
  have hsingle := h.single
  have hsent := h.sent
  have hreturned := h.returned
  simp only [txStep] at hstep
  split at hstep
  · cases hstep
  rename_i hsome
  simp only [Option.some.injEq, Prod.mk.injEq] at hstep
  obtain ⟨rfl, rfl⟩ := hstep
  have hpop := available_take h.size h.pos hsome
  rw [hpop] at havail hsent
  rw [List.length_cons] at hsent
  cases inFlight with
  | nil => simp at havail
  | cons frame rest =>
      rw [List.cons_append, List.map_cons, List.cons.injEq] at havail
      have hread := (hloaded frame List.mem_cons_self).read
      rw [havail.1, hread] at hpub hback ⊢
      have hdistance : distance s.txq.usedIdx (s.seen + 1) = distance s.txq.usedIdx s.seen + 1 :=
        distance_succ (by omega)
      refine ⟨h.size, h.pos, h.next, ?_, ?_, ?_, rest, ?_, ?_, havail.2⟩
      · rw [hpub, hsent, List.length_append, List.length_singleton]
        dsimp only
        omega
      · rw [hback, hdistance, List.length_append, List.length_singleton]
        omega
      · rw [hpub, hback]
        exact hsingle
      · rw [framesSent_cons, List.append_assoc s.wire, List.singleton_append]
        simpa [frameSent] using hframes
      · exact fun f hf => hloaded f (List.mem_cons_of_mem _ hf)

/-- The device gives the descriptor of a transmitted frame back. -/
theorem TxInv.giveBack (h : TxInv tr s) (hstep : txStep s .giveBack = some (s', o)) :
    TxInv (⟨s, .giveBack, o, s'⟩ :: tr) s' := by
  have hpub := published_cons ⟨s, .giveBack, o, s'⟩ tr
  have hback := givenBack_cons ⟨s, .giveBack, o, s'⟩ tr
  rw [if_neg TxEvent.noConfusion, Nat.add_zero] at hpub
  rw [if_pos rfl] at hback
  obtain ⟨inFlight, hframes, hloaded, havail⟩ := h.frames
  have hsingle := h.single
  have hreturned := h.returned
  simp only [txStep] at hstep
  split at hstep
  · cases hstep
  rename_i hsome
  simp only [Option.some.injEq, Prod.mk.injEq] at hstep
  obtain ⟨rfl, rfl⟩ := hstep
  have hdistance := distance_tail_succ hsome
  refine ⟨h.size, h.pos, h.next, hpub ▸ h.sent, ?_, ?_, inFlight, ?_, hloaded, havail⟩
  · rw [hback]
    change givenBack tr + 1 + distance (s.txq.usedIdx + 1) s.seen = s.wire.length
    omega
  · rw [hpub, hback]
    exact Nat.le_succ_of_le hsingle
  · rw [framesSent_cons]
    simpa [frameSent] using hframes

/-- **One step** of driver or device. -/
theorem TxInv.step {e : TxEvent} (h : TxInv tr s) (hstep : txStep s e = some (s', o))
    (hprompt : PromptCall tr ⟨s, e, o, s'⟩) : TxInv (⟨s, e, o, s'⟩ :: tr) s' := by
  cases e with
  | call frame => exact h.call hstep hprompt
  | publish => exact h.publish hstep
  | spin => exact h.spin hstep
  | transmit => exact h.transmit hstep
  | giveBack => exact h.giveBack hstep

/-- Only a call that accepts its frame writes the buffer or the descriptor. -/
theorem rewrites_call {e : TxEvent} (hstep : txStep s e = some (s', o))
    (hwrite : Rewrites ⟨s, e, o, s'⟩) : ∃ frame, e = .call frame ∧ txLen frame ≤ frameBufSize := by
  have hno : s'.txBuf = s.txBuf → s'.txq.desc = s.txq.desc →
      ∃ frame, e = .call frame ∧ txLen frame ≤ frameBufSize := by
    intro hbuf hdesc
    rcases hwrite with hwrite | hwrite
    · exact absurd hbuf hwrite
    · exact absurd hdesc hwrite
  cases e with
  | call frame =>
      by_cases hlong : frameBufSize < txLen frame
      swap
      · exact ⟨frame, rfl, Nat.le_of_not_lt hlong⟩
      simp only [txStep, hlong, if_true] at hstep
      split at hstep
      · cases hstep
        exact hno rfl rfl
      · cases hstep
  | publish =>
      simp only [txStep] at hstep
      split at hstep
      · cases hstep
        exact hno rfl rfl
      · cases hstep
  | spin =>
      simp only [txStep] at hstep
      split at hstep
      · cases hstep
        exact hno rfl rfl
      · split at hstep
        · cases hstep
          exact hno rfl rfl
        · cases hstep
          exact hno rfl rfl
      · cases hstep
  | transmit =>
      simp only [txStep] at hstep
      split at hstep
      · cases hstep
      · cases hstep
        exact hno rfl rfl
  | giveBack =>
      simp only [txStep] at hstep
      split at hstep
      · cases hstep
      · cases hstep
        exact hno rfl rfl

end Steps

section Runs

variable {k : Nat} {tr : List TxRecord} {s : TxState}

theorem txStart_inv (hk : k ≤ 15) : TxInv [] (txStart (2 ^ k)) := by
  refine ⟨Nat.pow_dvd_pow 2 (by omega), Nat.two_pow_pos k, rfl, ?_, ?_, ?_, [], rfl, ?_, ?_⟩
  · simp [published, txStart, virtqInit, available_length]
  · simp [givenBack, txStart, virtqInit]
  · simp [published, txStart, TxPc.toPublish]
  · exact fun frame hframe => absurd hframe List.not_mem_nil
  · simp [Virtq.available, txStart, virtqInit, TxPc.toPublish]

/-- **The invariant holds in every prompt run.** -/
theorem TxRun.inv (hk : k ≤ 15) (hrun : TxRun (2 ^ k) tr s) (hprompt : AllPrompt tr) :
    TxInv tr s ∧ NeverRewritten tr := by
  have hall := hrun.history_invariant (fun tr s => AllPrompt tr → TxInv tr s ∧ NeverRewritten tr)
    (fun _ => ⟨txStart_inv hk, trivial⟩) ?_
  · exact hall hprompt
  · intro tr s e o s' _ hold hstep hprompt
    obtain ⟨hinv, hnever⟩ := hold hprompt.2
    refine ⟨hinv.step hstep hprompt.1, fun hwrite => ?_, hnever⟩
    obtain ⟨frame, rfl, hfits⟩ := rewrites_call hstep hwrite
    exact (hprompt.1 frame rfl hfits).1

/-- A step in a run whose waits never run out. -/
theorem TxSettled.step {s' : TxState} {e : TxEvent} {o : TxOutcome} (h : TxSettled tr s)
    (hinv : TxInv tr s) (hstep : txStep s e = some (s', o))
    (hwait : ∀ frame, e = .spin → s.pc ≠ .waiting frame 0) :
    TxSettled (⟨s, e, o, s'⟩ :: tr) s' := by
  have hpub := published_cons ⟨s, e, o, s'⟩ tr
  have hback := givenBack_cons ⟨s, e, o, s'⟩ tr
  unfold TxSettled at h ⊢
  rw [hpub, hback]
  cases e with
  | call frame =>
      cases hpc : s.pc with
      | idle =>
          rw [hpc] at h
          by_cases hlong : frameBufSize < txLen frame
          · simp only [txStep, hpc, hlong, if_true, Option.some.injEq, Prod.mk.injEq] at hstep
            obtain ⟨rfl, rfl⟩ := hstep
            rw [hpc]
            exact h
          · simp only [txStep, hpc, hlong, if_false, Option.some.injEq, Prod.mk.injEq] at hstep
            obtain ⟨rfl, rfl⟩ := hstep
            exact h
      | publishing _ | waiting _ _ => simp [txStep, hpc] at hstep
  | publish =>
      cases hpc : s.pc with
      | publishing frame =>
          rw [hpc] at h
          simp only [txStep, hpc, Option.some.injEq, Prod.mk.injEq] at hstep
          obtain ⟨rfl, rfl⟩ := hstep
          exact Or.inl ⟨congrArg (· + 1) h.1, h.2⟩
      | idle | waiting _ _ => simp [txStep, hpc] at hstep
  | spin =>
      cases hpc : s.pc with
      | waiting frame spins =>
          rw [hpc] at h
          cases spins with
          | zero => exact absurd hpc (hwait frame rfl)
          | succ spins =>
              simp only [txStep, hpc] at hstep
              split at hstep
              · rename_i hmoved
                cases hstep
                exact ⟨h.resolve_left fun hleft => hmoved hleft.2, rfl⟩
              · cases hstep
                exact h
      | idle | publishing _ => simp [txStep, hpc] at hstep
  | transmit =>
      simp only [txStep] at hstep
      split at hstep
      · cases hstep
      · cases hstep
        exact h
  | giveBack =>
      simp only [txStep] at hstep
      split at hstep
      · cases hstep
      rename_i hsome
      cases hstep
      -- there is a use to give back, so the driver is waiting for it
      have hmore : published tr ≠ givenBack tr := fun heq =>
        hsome (eq_of_distance (hinv.settled heq.symm).2)
      cases hpc : s.pc with
      | waiting frame spins =>
          rw [hpc] at h
          exact Or.inr (h.resolve_right hmore).1
      | idle | publishing _ =>
          rw [hpc] at h
          exact absurd h.1 hmore

/-- **A run whose waits never run out is prompt.** -/
theorem TxRun.prompt (hk : k ≤ 15) (hrun : TxRun (2 ^ k) tr s) (hwait : AllWaited tr) :
    AllPrompt tr ∧ TxInv tr s ∧ TxSettled tr s := by
  have hall := hrun.history_invariant
    (fun tr s => AllWaited tr → AllPrompt tr ∧ TxInv tr s ∧ TxSettled tr s)
    (fun _ => ⟨trivial, txStart_inv hk, rfl, rfl⟩) ?_
  · exact hall hwait
  · intro tr s e o s' _ hold hstep hwait
    obtain ⟨hprompt, hinv, hsettled⟩ := hold fun r hr => hwait r (List.mem_cons_of_mem _ hr)
    obtain ⟨hspin, hlen⟩ := hwait _ List.mem_cons_self
    have hcall : PromptCall tr ⟨s, e, o, s'⟩ := by
      intro frame hevent _
      refine ⟨?_, hlen frame hevent⟩
      have hevent' : e = .call frame := hevent
      subst hevent'
      unfold TxSettled at hsettled
      cases hpc : s.pc with
      | idle =>
          rw [hpc] at hsettled
          exact hsettled.1.symm
      | publishing _ | waiting _ _ => simp [txStep, hpc] at hstep
    exact ⟨⟨hcall, hprompt⟩, hinv.step hstep hcall,
      hsettled.step hinv hstep fun frame he => hspin frame he⟩

/-- **Transmit integrity for a device that keeps up.**  In every run in which a frame is only
accepted when the device has given back every earlier use of the descriptor, the buffer and the
descriptor are never written while a use of them is outstanding, and between calls the frames
on the wire are the frames of the calls that returned 0, each once, in order and byte for byte,
but for the last ones that the device has still to transmit.  Every run in which no wait runs
out is of this kind. -/
theorem transmit_integrity (hk : k ≤ 15) (hrun : TxRun (2 ^ k) tr s) :
    (AllPrompt tr → NeverRewritten tr ∧ (s.pc = .idle → OnWire tr s)) ∧
    (AllWaited tr → AllPrompt tr) := by
  refine ⟨fun hprompt => ?_, fun hwait => (hrun.prompt hk hwait).1⟩
  obtain ⟨hinv, hnever⟩ := hrun.inv hk hprompt
  refine ⟨hnever, fun hidle => ?_⟩
  obtain ⟨inFlight, hframes, -, havail⟩ := hinv.frames
  rw [hidle] at hframes havail
  simp only [TxPc.frames, TxPc.toPublish, List.append_nil] at hframes havail
  refine ⟨inFlight, hframes, ?_⟩
  rw [← available_length, havail, List.length_map]

end Runs

/-- The call has returned. -/
def TxPc.isIdle : TxPc → Bool
  | .idle => true
  | _ => false

theorem TxPc.eq_idle {pc : TxPc} (h : pc.isIdle = true) : pc = .idle := by
  cases pc with
  | idle => rfl
  | publishing | waiting => cases h

/-- Two frames on a device that keeps up. -/
theorem transmit_integrity_two_frames :
    ∃ tr s, TxRun (2 ^ 3) tr s ∧ AllPrompt tr ∧ s.pc = .idle ∧ s.wire = [[1], [2]] ∧ OnWire tr s := by
  have hrun : (runTrace txStep [] (txStart (2 ^ 3)) [.call [1], .publish, .transmit, .giveBack,
      .spin, .call [2], .publish, .transmit, .giveBack, .spin]).map
      (fun r => (decide (AllPrompt r.1), r.2.pc.isIdle, r.2.wire)) = some (true, true, [[1], [2]]) := by
    decide +kernel
  obtain ⟨tr, s, htrace, hview⟩ := exists_trace_of_runTrace hrun
  simp only [Prod.mk.injEq, decide_eq_true_iff] at hview
  obtain ⟨hprompt, hidle, hwire⟩ := hview
  have hpc := TxPc.eq_idle hidle
  exact ⟨tr, s, htrace, hprompt, hpc, hwire,
    ((transmit_integrity (by decide) htrace).1 hprompt).2 hpc⟩

/-- **A wait runs out** if the used index does not move, and the call returns 0. -/
theorem wait_runs_out {frame : List UInt8} {spins : Nat} {s : TxState}
    (hpc : s.pc = .waiting frame spins) (hstuck : s.txq.usedIdx = s.txq.lastUsedIdx) :
    ∃ tr, Trace txStep s tr { s with pc := .idle } ∧ framesSent tr = [frame] := by
  induction spins generalizing s with
  | zero =>
      have hstep : txStep s .spin = some ({ s with pc := .idle }, .returned frame 0) := by
        simp only [txStep, hpc]
      exact ⟨_, .snoc .nil hstep, rfl⟩
  | succ spins ih =>
      have hstep : txStep s .spin = some ({ s with pc := .waiting frame spins }, .none) := by
        simp only [txStep, hpc, hstuck, ne_eq, not_true_eq_false, if_false]
      obtain ⟨tr, htrace, hsent⟩ := ih (s := { s with pc := .waiting frame spins }) rfl hstuck
      refine ⟨_, (Trace.snoc .nil hstep).trans htrace, ?_⟩
      rw [framesSent, observed_append]
      exact hsent

/-- A frame has been published and waits to be transmitted. -/
def slowState : TxState :=
  { txStart (2 ^ 3) with
    txBuf := fillTxBuf (fun _ => 0) [1]
    txq := virtqPublish
      { virtqInit (2 ^ 3) with
        desc := Function.update (virtqInit (2 ^ 3)).desc 0 ⟨0, txLen [1], 0, 0⟩ } 0
    pc := .waiting [1] txSpins }

theorem slow_start : ∃ tr, Trace txStep (txStart (2 ^ 3)) tr slowState ∧ framesSent tr = [] :=
  ⟨_, .snoc (e := .publish) (.snoc (e := .call [1]) .nil rfl) rfl, rfl⟩

/-- The device is slow with the first of two frames: both calls return 0, and the second frame
goes out twice. -/
theorem first_frame_overwritten :
    ∃ tr s, TxRun (2 ^ 3) tr s ∧ s.pc = .idle ∧ framesSent tr = [[1], [2]] ∧
      s.wire = [[2], [2]] ∧ ¬ OnWire tr s := by
  obtain ⟨tr₁, hfirst, hnone⟩ := slow_start
  obtain ⟨tr₂, hwait, hsent⟩ := wait_runs_out (s := slowState) rfl rfl
  have hrun : (runTrace txStep [] { slowState with pc := .idle } [.call [2], .publish, .transmit,
      .transmit, .giveBack, .spin]).map (fun r => (r.2.pc.isIdle, framesSent r.1, r.2.wire,
        distance r.2.seen r.2.txq.availIdx)) = some (true, [[2]], [[2], [2]], 0) := by
    decide +kernel
  obtain ⟨tr₃, s, hsecond, hview⟩ := exists_trace_of_runTrace hrun
  simp only [Prod.mk.injEq] at hview
  obtain ⟨hidle, hsent', hwire, hdistance⟩ := hview
  have hall := (hfirst.trans hwait).trans hsecond
  have hframes : framesSent (tr₃ ++ (tr₂ ++ tr₁)) = [[1], [2]] := by
    rw [framesSent, observed_append, observed_append, ← framesSent, ← framesSent, ← framesSent,
      hnone, hsent, hsent']
    rfl
  refine ⟨_, s, hall, TxPc.eq_idle hidle, hframes, hwire, fun honWire => ?_⟩
  obtain ⟨inFlight, hsplit, hlength⟩ := honWire
  rw [hdistance] at hlength
  rw [hframes, hwire, List.length_eq_zero_iff.mp hlength] at hsplit
  exact absurd hsplit (by decide)

end Vajra
