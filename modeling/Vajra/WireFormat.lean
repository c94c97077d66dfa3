import Vajra.KernelMachine
import Vajra.VirtioReceive

/-!
# The wire format

A message crosses the wire in a frame of 47 bytes: two addresses, the EtherType, four words of
eight little-endian bytes and one byte that tells acknowledgements from messages.  The layout
is written down twice, in `net_send_raw` and in `net_poll_receive_raw`, and the destination
address passes through two more loops, one that packs it into a syscall argument and one that
unpacks it there.

The card under `core/net.c` is `hal_net_poll_receive` with some used entries waiting
(`cardPoll`): an entry that is shorter than the header is skipped, and a frame that does not
fit the caller's 64 bytes is reported as `-1`.
-/

namespace Vajra

open ByteMemory

/-- The frames a card has sent, newest first, and the used entries that wait for the driver. -/
structure Card where
  sent : List (List UInt8)
  used : List (List UInt8)

/-- `hal_net_poll_receive` on the entries that wait. -/
def cardPoll (maxLen : Nat) : Nat → List (List UInt8) → List (List UInt8) × Int × (Nat → UInt8)
  | 0, used => (used, 0, fun _ => 0)
  | _+1, [] => ([], 0, fun _ => 0)
  | spins+1, entry :: used =>
      if entry.length < netHdrLen then cardPoll maxLen spins used
      else if maxLen < entry.length - netHdrLen then (used, -1, fun _ => 0)
      else (used, (entry.length - netHdrLen : Nat), frameBytes (entry.drop netHdrLen))

/-- A card that sends what it is given. -/
def cardHal : Hal Card where
  consoleWrite card _ _ := card
  keyboardPoll card := (card, -1)
  rtcRead card := (card, ⟨0, 0, 0, 0, 0, 0⟩)
  netSend card frame := ({ card with sent := frame :: card.sent }, 0)
  netPollReceive card maxLen maxSpins :=
    match cardPoll maxLen maxSpins card.used with
    | (used, rc, frame) => ({ card with used := used }, rc, frame)

/-- The loop of `user_net_send_to` and `user_net_send_reliable_to` that packs an address. -/
def packMac (mac : List UInt8) : Word :=
  (List.range 6).foldl
    (fun packed i => packed ||| (BitVec.ofNat 64 (mac.getD i 0).toNat <<< (8 * i))) 0

/-- `user_net_send_to`: the call it makes. -/
def userNetSendTo (mac : List UInt8) (type data : Word) (residue : Nat → UInt8) : Call :=
  ⟨15, type, data, packMac mac, residue⟩

/-- `user_net_send_reliable_to`: the call it makes. -/
def userNetSendReliableTo (mac : List UInt8) (type data : Word) (residue : Nat → UInt8) : Call :=
  ⟨16, type, data, packMac mac, residue⟩

/-- A frame of this protocol, as `net_poll_receive_raw` accepts it. -/
def Acceptable (frame : List UInt8) : Prop :=
  frameLen ≤ frame.length ∧ frame.length ≤ 64 ∧ frameBytes frame 12 = vajraEthertypeHi ∧
    frameBytes frame 13 = vajraEthertypeLo

instance (frame : List UInt8) : Decidable (Acceptable frame) :=
  inferInstanceAs (Decidable (_ ∧ _))

/-- Or-ing shifted bytes together is reading them in little-endian order. -/
theorem foldl_or_bytes (m : Nat → UInt8) {n : Nat} (hn : n ≤ 8) :
    ((List.range n).foldl
      (fun (packed : Word) i => packed ||| (BitVec.ofNat 64 (m i).toNat <<< (8 * i))) 0).toNat =
      readLE m 0 n := by
  induction n with
  | zero => rfl
  | succ n ih =>
      have hbyte : (m n).toNat < 2 ^ 8 := (m n).toNat_lt
      have hlow : readLE m 0 n < 2 ^ (8 * n) := by
        rw [Nat.pow_mul]
        exact readLE_lt m 0 n
      have hshift : (m n).toNat <<< (8 * n) < 2 ^ 64 := by
        rw [Nat.shiftLeft_eq]
        calc (m n).toNat * 2 ^ (8 * n) < 2 ^ 8 * 2 ^ (8 * n) :=
              Nat.mul_lt_mul_of_pos_right hbyte (Nat.two_pow_pos _)
          _ = 2 ^ (8 + 8 * n) := (Nat.pow_add 2 8 (8 * n)).symm
          _ ≤ 2 ^ 64 := Nat.pow_le_pow_right (by decide) (by omega)
      rw [List.range_succ, List.foldl_concat, BitVec.toNat_or, ih (by omega),
        BitVec.toNat_shiftLeft, BitVec.toNat_ofNat, Nat.mod_eq_of_lt (Nat.lt_trans hbyte (by decide)),
        Nat.mod_eq_of_lt hshift, Nat.or_comm, ← Nat.shiftLeft_add_eq_or_of_lt hlow,
        Nat.shiftLeft_eq, readLE_succ, Nat.zero_add, Nat.pow_mul, Nat.add_comm, Nat.mul_comm]

/-- **An address survives the syscall argument.** -/
theorem unpackMac_packMac {mac : List UInt8} (h : mac.length = 6) : unpackMac (packMac mac) = mac := by
  have hpack : (packMac mac).toNat = readLE (frameBytes mac) 0 6 :=
    foldl_or_bytes (frameBytes mac) (by decide)
  unfold unpackMac
  rw [hpack]
  refine List.ext_getElem (by simp [h]) fun i h1 h2 => ?_
  rw [List.getElem_map, List.getElem_range, leByte_readLE _ _ (h ▸ h2), Nat.zero_add]
  exact (List.getElem_eq_getD 0).symm

/-- What the card reports on the entry that waits is what the driver's loop reports on it. -/
theorem cardPoll_reports (maxLen : Nat) {entry : List UInt8} (used : List (List UInt8)) (spins : Nat)
    (h : netHdrLen ≤ entry.length) : ∃ rc data,
      cardPoll maxLen (spins+1) (entry :: used) = (used, rc, frameBytes data) ∧
        Reports ⟨maxLen, rc, data⟩ entry := by
  by_cases hfits : maxLen < entry.length - netHdrLen
  · refine ⟨-1, [], ?_, if_pos hfits |>.symm⟩
    rw [cardPoll, if_neg (Nat.not_lt.mpr h), if_pos hfits]
    rfl
  · refine ⟨_, _, ?_, if_neg hfits |>.symm⟩
    rw [cardPoll, if_neg (Nat.not_lt.mpr h), if_neg hfits]

section Polling

variable {net : Net} (honline : net.online = true)

include honline

/-- **Which entries `net_poll_receive_raw` takes for a frame.** -/
theorem netPollReceiveRaw_entry {hdr : List UInt8} (hhdr : hdr.length = netHdrLen)
    (frame : List UInt8) (sent rest : List (List UInt8)) (spins : Nat) :
    netPollReceiveRaw cardHal net ⟨sent, (hdr ++ frame) :: rest⟩ (spins+1) =
      if Acceptable frame then (⟨sent, rest⟩, 1, some (decodeFrame (frameBytes frame)))
      else (⟨sent, rest⟩, 0, none) := by
  obtain ⟨rc, data, hpoll, hreport⟩ := cardPoll_reports 64 rest spins
    (show netHdrLen ≤ (hdr ++ frame).length by simp [hhdr])
  have hlen : (hdr ++ frame).length - netHdrLen = frame.length := by simp [hhdr]
  have hdrop : (hdr ++ frame).drop netHdrLen = frame := by rw [← hhdr, List.drop_left]
  rw [Reports, hlen, hdrop] at hreport
  have hcard : cardHal.netPollReceive ⟨sent, (hdr ++ frame) :: rest⟩ 64 (spins+1) =
      (⟨sent, rest⟩, rc, frameBytes data) := by
    simp only [cardHal, hpoll]
  rw [netPollReceiveRaw, if_neg (by simp [honline]), hcard]
  by_cases hfits : 64 < frame.length
  · rw [if_pos hfits] at hreport
    obtain ⟨rfl, rfl⟩ := Prod.mk.inj hreport
    have hnot : ¬ Acceptable frame := fun h => Nat.not_lt.mpr h.2.1 hfits
    rw [if_neg hnot]
    rfl
  · rw [if_neg hfits] at hreport
    obtain ⟨hrc, hdata⟩ := Prod.mk.inj hreport
    simp only at hrc hdata
    subst hrc hdata
    simp only [Nat.cast_lt]
    by_cases hshort : data.length < frameLen
    · have hnot : ¬ Acceptable data := fun h => Nat.not_lt.mpr h.1 hshort
      rw [if_pos hshort, if_neg hnot]
    · by_cases htype : frameBytes data 12 = vajraEthertypeHi ∧ frameBytes data 13 = vajraEthertypeLo
      · rw [if_neg hshort, if_neg (by simp [htype]),
          if_pos ⟨Nat.not_lt.mp hshort, Nat.not_lt.mp hfits, htype⟩]
      · have hnot : ¬ Acceptable data := fun h => htype h.2.2
        rw [if_neg hshort, if_pos (Decidable.not_and_iff_or_not.mp htype), if_neg hnot]

end Polling

/-- A frame of this protocol stays one with a few bytes behind it. -/
theorem acceptable_append {frame : List UInt8} (h : Ours frame) (pad : List UInt8)
    (hlen : (frame ++ pad).length ≤ 64) : Acceptable (frame ++ pad) := by
  have hframe : 13 < frame.length := Nat.lt_of_lt_of_le (by decide) h.1
  refine ⟨?_, hlen, ?_, ?_⟩
  · rw [List.length_append]
    exact Nat.le_add_right_of_le h.1
  · rw [frameBytes_append_left pad (Nat.lt_of_succ_lt hframe)]
    exact h.2.1
  · rw [frameBytes_append_left pad hframe]
    exact h.2.2

/-- Only the first 47 bytes of the buffer are decoded. -/
theorem decodeFrame_congr {m m' : Nat → UInt8} (h : ∀ i < frameLen, m i = m' i) :
    decodeFrame m = decodeFrame m' := by
  have hword : ∀ a, a + 8 ≤ frameLen → readLE m a 8 = readLE m' a 8 := fun a ha =>
    readLE_congr fun x _ hx => h x (Nat.lt_of_lt_of_le hx ha)
  have hmac : (List.range 6).map (fun i => m (6 + i)) = (List.range 6).map fun i => m' (6 + i) :=
    List.map_congr_left fun i hi =>
      h (6 + i) (Nat.lt_trans (Nat.add_lt_add_left (List.mem_range.mp hi) 6) (by decide))
  rw [decodeFrame, decodeFrame, hword _ (by decide), hword _ (by decide), hword _ (by decide),
    hword _ (by decide), hmac, h (ethHeaderLen + 32) (by decide)]

section Sending

variable {net : Net} (honline : net.online = true) (card : Card) (slot : Word)
  (destMac : List UInt8) (type data seq : Word)

/-- Polling sends nothing. -/
theorem netPollReceiveRaw_sent (net : Net) (card : Card) (spins : Nat) :
    (netPollReceiveRaw cardHal net card spins).1.sent = card.sent := by
  have hcard : cardHal.netPollReceive card 64 spins =
      ({ card with used := (cardPoll 64 spins card.used).1 }, (cardPoll 64 spins card.used).2) := rfl
  rw [netPollReceiveRaw, hcard]
  generalize cardPoll 64 spins card.used = polled
  obtain ⟨used, rc, frame⟩ := polled
  by_cases hshort : rc < frameLen <;> by_cases htype : frame 12 ≠ vajraEthertypeHi ∨
    frame 13 ≠ vajraEthertypeLo <;> by_cases honline : net.online <;> simp [hshort, htype, honline]

include honline

theorem netSendRaw_card (isAck : Bool) :
    netSendRaw cardHal net card slot destMac type data seq isAck =
      ({ card with sent := encodeFrame destMac net.myMac type data slot seq isAck :: card.sent }, 0) :=
  if_neg (by simp [honline])

/-- Every attempt of the retransmission loop puts the same frame on the wire. -/
theorem reliableLoop_sent (attempts : Nat) :
    ∃ n, (attempts ≠ 0 → n ≠ 0) ∧
      (reliableLoop cardHal net slot destMac type data seq attempts card).1.sent =
        List.replicate n (encodeFrame destMac net.myMac type data slot seq false) ++ card.sent := by
  induction attempts generalizing card with
  | zero => exact ⟨0, by simp, rfl⟩
  | succ attempts ih =>
      rw [reliableLoop, netSendRaw_card honline]
      simp only
      have hsent := netPollReceiveRaw_sent net
        { card with sent := encodeFrame destMac net.myMac type data slot seq false :: card.sent }
        reliableSendSpins
      generalize netPollReceiveRaw cardHal net
        { card with sent := encodeFrame destMac net.myMac type data slot seq false :: card.sent }
        reliableSendSpins = polled at hsent
      obtain ⟨dev, rc, m⟩ := polled
      obtain ⟨n, -, hn⟩ := ih dev
      have hagain : (reliableLoop cardHal net slot destMac type data seq attempts dev).1.sent =
          List.replicate (n+1) (encodeFrame destMac net.myMac type data slot seq false) ++
            card.sent := by
        rw [hn, hsent, List.replicate_succ', List.append_assoc]
        rfl
      cases m with
      | none => exact ⟨n+1, by simp, hagain⟩
      | some raw =>
          simp only
          split
          · exact ⟨1, by simp, hsent⟩
          · exact ⟨n+1, by simp, hagain⟩

end Sending

/-- The frames a user call puts on the wire carry the address the caller passed. -/
theorem userNetSend_destination (L : Layout) {k : Kernel Card} {c : Slot} {mac : List UInt8}
    (honline : k.net.online = true) (hcap : actorHasCap k c capNet 0 = true) (hmac : mac.length = 6)
    (type data : Word) (residue : Nat → UInt8) {call : Call}
    (hcall : call = userNetSendTo mac type data residue ∨
      call = userNetSendReliableTo mac type data residue) :
    ∃ n seq, n ≠ 0 ∧ (syscallHandler L cardHal k c call).kernel.dev.sent =
      List.replicate n (encodeFrame mac k.net.myMac type data (BitVec.ofNat 64 c) seq false) ++
        k.dev.sent := by
  obtain rfl | rfl := hcall
  · have hdecode : Syscall.decode (userNetSendTo mac type data residue).num = some .netSendTo := rfl
    refine ⟨1, 0, Nat.one_ne_zero, ?_⟩
    rw [syscallHandler, hdecode]
    simp only [syscallDispatch, guarded, hcap, if_true, SysResult.device, SysResult.value,
      netSendMessageTo, userNetSendTo, unpackMac_packMac hmac, netSendRaw_card honline]
    rfl
  · have hdecode : Syscall.decode (userNetSendReliableTo mac type data residue).num =
        some .netSendReliable := rfl
    obtain ⟨n, hn, hsent⟩ := reliableLoop_sent honline k.dev (BitVec.ofNat 64 c) mac type data
      k.net.nextSeq reliableSendAttempts
    refine ⟨n, k.net.nextSeq, hn (by decide), ?_⟩
    rw [← hsent, syscallHandler, hdecode]
    simp only [syscallDispatch, guarded, hcap, if_true, sysNetSendReliable, SysResult.value,
      netSendMessageReliableTo, userNetSendReliableTo, unpackMac_packMac hmac, honline, not_true,
      if_false]

/-- What is decoded from a frame encodes to the same payload, and its last byte to 0 or 1. -/
theorem encodeFrame_decodeFrame (m : Nat → UInt8) {destMac myMac : List UInt8}
    (hdest : destMac.length = 6) (hmy : myMac.length = 6) {frame : List UInt8}
    (hframe : frame = encodeFrame destMac myMac (decodeFrame m).type (decodeFrame m).data
      (decodeFrame m).senderActor (decodeFrame m).seq (decodeFrame m).isAck) :
    (∀ i, ethHeaderLen ≤ i → i < ethHeaderLen + 32 → frameBytes frame i = m i) ∧
      frameBytes frame (ethHeaderLen + 32) = if m (ethHeaderLen + 32) = 0 then 0 else 1 := by
  obtain ⟨htype, hdata, hslot, hseq, hack⟩ := encodeFrame_payload hdest hmy (decodeFrame m).type
    (decodeFrame m).data (decodeFrame m).senderActor (decodeFrame m).seq (decodeFrame m).isAck
  rw [← hframe] at htype hdata hslot hseq hack
  have hword : ∀ a, (∀ i < 8, frameBytes frame (a + i) =
      leByte (BitVec.ofNat 64 (readLE m a 8)).toNat i) → ∀ i, a ≤ i → i < a + 8 →
        frameBytes frame i = m i := by
    intro a h i hlo hhi
    obtain ⟨j, rfl⟩ := Nat.exists_eq_add_of_le hlo
    have hj : j < 8 := by omega
    have hlt : readLE m a 8 < 2 ^ 64 := readLE_lt m a 8
    rw [h j hj, BitVec.toNat_ofNat, Nat.mod_eq_of_lt hlt, leByte_readLE m a hj]
  refine ⟨fun i hlo hhi => ?_, ?_⟩
  · by_cases h1 : i < ethHeaderLen + 8
    · exact hword _ htype i hlo h1
    · by_cases h2 : i < ethHeaderLen + 16
      · exact hword _ hdata i (by omega) h2
      · by_cases h3 : i < ethHeaderLen + 24
        · exact hword _ hslot i (by omega) h3
        · exact hword _ hseq i (by omega) (by omega)
  · rw [hack]
    by_cases hzero : m (ethHeaderLen + 32) = 0 <;> simp [decodeFrame, hzero]

/-- **The wire format loses nothing.**  What `net_send_raw` sends is what
`net_poll_receive_raw` decodes, with or without padding; the destination on the wire is the
array the actor passed to its user call; a frame is accepted exactly when it has 47 to 64 bytes
and the EtherType of this protocol; and the fields of an accepted frame encode to the payload
they were decoded from. -/
theorem wire_format_round_trip {net peer : Net} (honline : net.online = true)
    (hmac : net.myMac.length = 6) (hpeer : peer.online = true) :
    (∀ (card : Card) (slot type data seq : Word) (isAck : Bool) (destMac : List UInt8),
      destMac.length = 6 → ∃ frame,
        netSendRaw cardHal net card slot destMac type data seq isAck =
          ({ card with sent := frame :: card.sent }, 0) ∧
        frame.length = 47 ∧ frame.take 6 = destMac ∧
        ∀ hdr pad sent rest spins, hdr.length = netHdrLen → (frame ++ pad).length ≤ 64 →
          netPollReceiveRaw cardHal peer ⟨sent, (hdr ++ (frame ++ pad)) :: rest⟩ (spins+1) =
            (⟨sent, rest⟩, 1, some ⟨type, data, slot, net.myMac, seq, isAck⟩)) ∧
    (∀ (L : Layout) (k : Kernel Card) (c : Slot) (mac : List UInt8) (type data : Word)
      (residue : Nat → UInt8), k.net = net → actorHasCap k c capNet 0 = true → mac.length = 6 →
        ∀ call ∈ [userNetSendTo mac type data residue, userNetSendReliableTo mac type data residue],
          ∃ frames, frames ≠ [] ∧
            (syscallHandler L cardHal k c call).kernel.dev.sent = frames ++ k.dev.sent ∧
            ∀ frame ∈ frames, frame.take 6 = mac) ∧
    (∀ hdr frame sent rest spins, hdr.length = netHdrLen →
      ((netPollReceiveRaw cardHal peer ⟨sent, (hdr ++ frame) :: rest⟩ (spins+1)).2.1 = 1 ↔
        (47 ≤ frame.length ∧ frame.length ≤ 64) ∧
          frameBytes frame 12 = 0x88 ∧ frameBytes frame 13 = 0xB5)) ∧
    ∀ hdr frame sent rest spins destMac raw card, hdr.length = netHdrLen → destMac.length = 6 →
      (netPollReceiveRaw cardHal peer ⟨sent, (hdr ++ frame) :: rest⟩ (spins+1)).2 = (1, some raw) →
      ∃ again, netSendRaw cardHal net card raw.senderActor destMac raw.type raw.data raw.seq
          raw.isAck = ({ card with sent := again :: card.sent }, 0) ∧
        (∀ i, 14 ≤ i → i ≤ 45 → frameBytes again i = frameBytes frame i) ∧
        frameBytes again 46 = if frameBytes frame 46 = 0 then 0 else 1 := by
  have htake : ∀ (destMac : List UInt8) (type data slot seq : Word) (isAck : Bool),
      destMac.length = 6 →
        (encodeFrame destMac net.myMac type data slot seq isAck).take 6 = destMac := by
    intro destMac type data slot seq isAck hdest
    simp only [encodeFrame, List.append_assoc]
    rw [← hdest, List.take_left]
  refine ⟨?_, ?_, ?_, ?_⟩
  · intro card slot type data seq isAck destMac hdest
    refine ⟨_, netSendRaw_card honline card slot destMac type data seq isAck,
      encodeFrame_length hdest hmac type data slot seq isAck,
      htake destMac type data slot seq isAck hdest, ?_⟩
    intro hdr pad sent rest spins hhdr hlen
    have hframe := encodeFrame_length hdest hmac type data slot seq isAck
    have hours := encodeFrame_ours hdest hmac type data slot seq isAck
    have hpad := decodeFrame_congr fun i hi => frameBytes_append_left pad (hframe.symm ▸ hi)
    rw [netPollReceiveRaw_entry hpeer hhdr, if_pos (acceptable_append hours pad hlen), hpad,
      decodeFrame_encodeFrame hdest hmac]
  · intro L k c mac type data residue hnet hcap hlen call hcall
    obtain ⟨n, seq, hn, hsent⟩ := userNetSend_destination L (hnet ▸ honline) hcap hlen type data
      residue (by simpa using hcall)
    refine ⟨_, by simpa using hn, hsent, fun frame hframe => ?_⟩
    rw [List.eq_of_mem_replicate hframe, hnet]
    exact htake mac type data _ seq false hlen
  · intro hdr frame sent rest spins hhdr
    rw [netPollReceiveRaw_entry hpeer hhdr]
    by_cases hacc : Acceptable frame
    · rw [if_pos hacc]
      exact iff_of_true rfl ⟨⟨hacc.1, hacc.2.1⟩, hacc.2.2⟩
    · rw [if_neg hacc]
      exact iff_of_false (show (0 : Int) ≠ 1 by decide) fun h => hacc ⟨h.1.1, h.1.2, h.2⟩
  · intro hdr frame sent rest spins destMac raw card hhdr hdest hraw
    rw [netPollReceiveRaw_entry hpeer hhdr] at hraw
    split_ifs at hraw with hacc
    · obtain rfl : decodeFrame (frameBytes frame) = raw := Option.some.inj (Prod.mk.inj hraw).2
      obtain ⟨hpayload, hlast⟩ := encodeFrame_decodeFrame (frameBytes frame) hdest hmac rfl
      exact ⟨_, netSendRaw_card honline card _ destMac _ _ _ _,
        fun i hlo hhi => hpayload i hlo (Nat.lt_succ_of_le hhi), hlast⟩
    · cases (Prod.mk.inj hraw).1

/-- The sample machine with a network card. -/
def cardBoot : Boot Card :=
  { sampleBoot with net := ⟨true, [2, 0, 0, 0, 0, 1], 1⟩, dev := ⟨[], []⟩ }

/-- The network peer of a booted machine sends `(7, 8)` to a device whose card pads the frame to
64 bytes. -/
theorem wire_format_round_trip_padded :
    (∃ frames, frames ≠ [] ∧
      (syscallHandler sampleLayout cardHal (kernelMain sampleLayout cardBoot) 11
        (userNetSendTo [2, 0, 0, 0, 0, 9] 7 8 fun _ => 0)).kernel.dev.sent =
          frames ++ (kernelMain sampleLayout cardBoot).dev.sent ∧
      ∀ frame ∈ frames, frame.take 6 = [2, 0, 0, 0, 0, 9]) ∧
    ∃ frame, netSendRaw cardHal (kernelMain sampleLayout cardBoot).net ⟨[], []⟩ 11
        [2, 0, 0, 0, 0, 9] 7 8 0 false = (⟨[frame], []⟩, 0) ∧
      netPollReceiveRaw cardHal ⟨true, [2, 0, 0, 0, 0, 9], 1⟩
          ⟨[], [List.replicate 10 0 ++ (frame ++ List.replicate 17 0)]⟩ 1 =
        (⟨[], []⟩, 1, some ⟨7, 8, 11, (kernelMain sampleLayout cardBoot).net.myMac, 0, false⟩) := by
  have honline : (kernelMain sampleLayout cardBoot).net.online = true := by decide +kernel
  have hmac : (kernelMain sampleLayout cardBoot).net.myMac.length = 6 := by decide +kernel
  have hcap : actorHasCap (kernelMain sampleLayout cardBoot) 11 capNet 0 = true := by decide +kernel
  obtain ⟨hsend, hcall, -, -⟩ :=
    @wire_format_round_trip _ ⟨true, [2, 0, 0, 0, 0, 9], 1⟩ honline hmac rfl
  refine ⟨hcall sampleLayout _ 11 [2, 0, 0, 0, 0, 9] 7 8 (fun _ => 0) rfl hcap rfl _
    List.mem_cons_self, ?_⟩
  obtain ⟨frame, hframe, hlen, -, hpoll⟩ :=
    hsend ⟨[], []⟩ 11 7 8 0 false [2, 0, 0, 0, 0, 9] rfl
  exact ⟨frame, hframe, hpoll (List.replicate 10 0) (List.replicate 17 0) [] [] 0 rfl
    (by simp [hlen])⟩

end Vajra
