import Vajra.ByteMemory

/-!
# The device interface and the wire protocol (`hal.h`, `core/net.c`)

`Hal` is the part of `hal.h` behind which the console, the keyboard, the clock
and the network card live.  The kernel model is stated for every `Hal`: what a
device answers is up to the device.

`core/net.c` sits on it: a fixed 47-byte frame with a sender slot stamped by the
kernel, an acknowledgement for every data frame decoded, and a bounded
retransmission loop for reliable sends.
-/

namespace Vajra

open ByteMemory

/-- `uint64_t`: syscall numbers, arguments and results, and message words. -/
abbrev Word := BitVec 64

/-- `struct rtc_time`. -/
structure RtcTime where
  seconds : UInt8
  minutes : UInt8
  hours : UInt8
  day : UInt8
  month : UInt8
  year : UInt16

/-- The devices, over their own state `D`. -/
structure Hal (D : Type) where
  /-- `hal_console_set_window` and `hal_console_write` on the string at a pointer. -/
  consoleWrite : D → Int → (Nat → UInt8) → D
  keyboardPoll : D → D × Int
  rtcRead : D → D × RtcTime
  netSend : D → List UInt8 → D × Int
  /-- `hal_net_poll_receive(frame, max_len, max_spins)`. -/
  netPollReceive : D → Nat → Nat → D × Int × (Nat → UInt8)

def vajraEthertypeHi : UInt8 := 0x88
def vajraEthertypeLo : UInt8 := 0xB5
def ethHeaderLen : Nat := 14
def payloadLen : Nat := 33
def frameLen : Nat := ethHeaderLen + payloadLen
def reliableSendAttempts : Nat := 10
def reliableSendSpins : Nat := 50000000

/-- The statics of `net.c`. -/
structure Net where
  online : Bool
  myMac : List UInt8
  nextSeq : Word

/-- The eight little-endian bytes of a word. -/
def wordBytes (w : Word) : List UInt8 := (List.range 8).map (leByte w.toNat)

/-- A MAC address packed in the low 48 bits of a syscall argument. -/
def unpackMac (a : Word) : List UInt8 := (List.range 6).map (leByte a.toNat)

/-- The 47 bytes `net_send_raw` puts on the wire. -/
def encodeFrame (destMac myMac : List UInt8) (type data senderSlot seq : Word) (isAck : Bool) :
    List UInt8 :=
  destMac ++ myMac ++ [vajraEthertypeHi, vajraEthertypeLo] ++ wordBytes type ++
    wordBytes data ++ wordBytes senderSlot ++ wordBytes seq ++ [if isAck then 1 else 0]

/-- What `net_poll_receive_raw` decodes from a frame. -/
structure RawMessage where
  type : Word
  data : Word
  senderActor : Word
  senderMac : List UInt8
  seq : Word
  isAck : Bool

/-- The fields of a frame in the receive buffer. -/
def decodeFrame (frame : Nat → UInt8) : RawMessage where
  type := BitVec.ofNat 64 (readLE frame ethHeaderLen 8)
  data := BitVec.ofNat 64 (readLE frame (ethHeaderLen + 8) 8)
  senderActor := BitVec.ofNat 64 (readLE frame (ethHeaderLen + 16) 8)
  senderMac := (List.range 6).map fun i => frame (6 + i)
  seq := BitVec.ofNat 64 (readLE frame (ethHeaderLen + 24) 8)
  isAck := frame (ethHeaderLen + 32) ≠ 0

/-- The receive buffer holding a frame. -/
def frameBytes (frame : List UInt8) : Nat → UInt8 := fun i => frame.getD i 0

theorem frameBytes_append (xs ys : List UInt8) (i : Nat) :
    frameBytes (xs ++ ys) (xs.length + i) = frameBytes ys i := by
  simp [frameBytes, List.getD_eq_getElem?_getD, List.getElem?_append_right]

theorem frameBytes_append_left {xs : List UInt8} (ys : List UInt8) {i : Nat} (hi : i < xs.length) :
    frameBytes (xs ++ ys) i = frameBytes xs i := by
  simp [frameBytes, List.getD_eq_getElem?_getD, List.getElem?_append_left hi]

theorem frameBytes_range {n i : Nat} (f : Nat → UInt8) (hi : i < n) :
    frameBytes ((List.range n).map f) i = f i := by
  simp [frameBytes, List.getD_eq_getElem?_getD, hi]

@[simp] theorem wordBytes_length (w : Word) : (wordBytes w).length = 8 := by simp [wordBytes]

/-- The bytes of a word that stands behind `before`. -/
theorem frameBytes_word {frame : List UInt8} {a : Nat} {w : Word} (before after : List UInt8)
    (hframe : frame = before ++ (wordBytes w ++ after)) (ha : before.length = a) :
    ∀ i < 8, frameBytes frame (a + i) = leByte w.toNat i := by
  intro i hi
  rw [hframe, ← ha, frameBytes_append, frameBytes_append_left _ (by simpa using hi), wordBytes,
    frameBytes_range _ hi]

/-- A word is read back from the eight bytes it was laid out in. -/
theorem readLE_word {m : Nat → UInt8} {a : Nat} {w : Word}
    (hbytes : ∀ i < 8, m (a + i) = leByte w.toNat i) : BitVec.ofNat 64 (readLE m a 8) = w := by
  rw [readLE_of_bytes hbytes, Nat.mod_eq_of_lt (by simpa using w.isLt), BitVec.ofNat_toNat,
    BitVec.setWidth_eq]

section Layout

variable {destMac myMac : List UInt8} (hdest : destMac.length = 6) (hmy : myMac.length = 6)
  (type data slot seq : Word) (isAck : Bool)

include hdest hmy

theorem encodeFrame_length : (encodeFrame destMac myMac type data slot seq isAck).length = frameLen := by
  simp [encodeFrame, hdest, hmy, frameLen, ethHeaderLen, payloadLen]

/-- Where the four words of the payload stand, and the last byte. -/
theorem encodeFrame_payload :
    (∀ i < 8, frameBytes (encodeFrame destMac myMac type data slot seq isAck) (ethHeaderLen + i) =
      leByte type.toNat i) ∧
    (∀ i < 8, frameBytes (encodeFrame destMac myMac type data slot seq isAck)
      (ethHeaderLen + 8 + i) = leByte data.toNat i) ∧
    (∀ i < 8, frameBytes (encodeFrame destMac myMac type data slot seq isAck)
      (ethHeaderLen + 16 + i) = leByte slot.toNat i) ∧
    (∀ i < 8, frameBytes (encodeFrame destMac myMac type data slot seq isAck)
      (ethHeaderLen + 24 + i) = leByte seq.toNat i) ∧
    frameBytes (encodeFrame destMac myMac type data slot seq isAck) (ethHeaderLen + 32) =
      if isAck then 1 else 0 := by
  generalize hframe : encodeFrame destMac myMac type data slot seq isAck = frame
  rw [encodeFrame] at hframe
  simp only [List.append_assoc] at hframe
  refine ⟨frameBytes_word (destMac ++ (myMac ++ [vajraEthertypeHi, vajraEthertypeLo]))
      (wordBytes data ++ (wordBytes slot ++ (wordBytes seq ++ [if isAck then 1 else 0])))
      (by simp [← hframe]) (by simp [hdest, hmy, ethHeaderLen]),
    frameBytes_word (destMac ++ (myMac ++ ([vajraEthertypeHi, vajraEthertypeLo] ++ wordBytes type)))
      (wordBytes slot ++ (wordBytes seq ++ [if isAck then 1 else 0]))
      (by simp [← hframe]) (by simp [hdest, hmy, ethHeaderLen]),
    frameBytes_word
      (destMac ++ (myMac ++ ([vajraEthertypeHi, vajraEthertypeLo] ++ (wordBytes type ++ wordBytes data))))
      (wordBytes seq ++ [if isAck then 1 else 0])
      (by simp [← hframe]) (by simp [hdest, hmy, ethHeaderLen]),
    frameBytes_word
      (destMac ++ (myMac ++ ([vajraEthertypeHi, vajraEthertypeLo] ++
        (wordBytes type ++ (wordBytes data ++ wordBytes slot)))))
      [if isAck then 1 else 0]
      (by simp [← hframe]) (by simp [hdest, hmy, ethHeaderLen]), ?_⟩
  have hsplit : frame = (destMac ++ (myMac ++ ([vajraEthertypeHi, vajraEthertypeLo] ++
      (wordBytes type ++ (wordBytes data ++ (wordBytes slot ++ wordBytes seq)))))) ++
        [if isAck then 1 else 0] := by simp [← hframe]
  have hlen : (destMac ++ (myMac ++ ([vajraEthertypeHi, vajraEthertypeLo] ++
      (wordBytes type ++ (wordBytes data ++ (wordBytes slot ++ wordBytes seq)))))).length =
        ethHeaderLen + 32 := by
    simp [hdest, hmy, ethHeaderLen]
  rw [hsplit, ← hlen, ← Nat.add_zero (List.length _), frameBytes_append]
  rfl

/-- What `net_send_raw` lays out is what `net_poll_receive_raw` decodes. -/
theorem decodeFrame_encodeFrame :
    decodeFrame (frameBytes (encodeFrame destMac myMac type data slot seq isAck)) =
      ⟨type, data, slot, myMac, seq, isAck⟩ := by
  obtain ⟨htype, hdata, hslot, hseq, hack⟩ := encodeFrame_payload hdest hmy type data slot seq isAck
  have hmac : (List.range 6).map (fun i =>
      frameBytes (encodeFrame destMac myMac type data slot seq isAck) (6 + i)) = myMac := by
    refine List.ext_getElem (by simp [hmy]) fun i h1 h2 => ?_
    rw [List.getElem_map, List.getElem_range, encodeFrame]
    simp only [List.append_assoc]
    rw [← hdest, frameBytes_append, frameBytes_append_left _ h2]
    simp [frameBytes, h2]
  rw [decodeFrame, readLE_word htype, readLE_word hdata, readLE_word hslot, readLE_word hseq, hmac,
    hack]
  cases isAck <;> rfl

end Layout

/-- A frame `net_poll_receive_raw` accepts. -/
def Ours (f : List UInt8) : Prop :=
  frameLen ≤ f.length ∧ frameBytes f 12 = vajraEthertypeHi ∧ frameBytes f 13 = vajraEthertypeLo

theorem encodeFrame_ours {dest my : List UInt8} (hdest : dest.length = 6) (hmy : my.length = 6)
    (type data slot seq : Word) (isAck : Bool) :
    Ours (encodeFrame dest my type data slot seq isAck) := by
  generalize hrest : wordBytes type ++ (wordBytes data ++ (wordBytes slot ++ (wordBytes seq ++
    [if isAck then (1 : UInt8) else 0]))) = rest
  have hlen : rest.length = payloadLen := by
    rw [← hrest]
    simp [payloadLen]
  have hframe : encodeFrame dest my type data slot seq isAck =
      (dest ++ my) ++ (vajraEthertypeHi :: vajraEthertypeLo :: rest) := by
    simp [encodeFrame, ← hrest]
  have hheader : (dest ++ my).length = 12 := by simp [hdest, hmy]
  rw [hframe]
  refine ⟨by simp [hdest, hmy, hlen, frameLen, ethHeaderLen]; omega, ?_, ?_⟩
  · rw [← hheader, ← Nat.add_zero (dest ++ my).length, frameBytes_append]
    rfl
  · rw [show 13 = (dest ++ my).length + 1 by rw [hheader], frameBytes_append]
    rfl

variable {D : Type} (hal : Hal D)

/-- `net_send_raw`, with the caller's slot as `actor_current_slot` gives it. -/
def netSendRaw (net : Net) (dev : D) (slot : Word) (destMac : List UInt8)
    (type data seq : Word) (isAck : Bool) : D × Int :=
  if ¬ net.online then (dev, -1)
  else hal.netSend dev (encodeFrame destMac net.myMac type data slot seq isAck)

/-- `net_send_message`: a broadcast. -/
def netSendMessage (net : Net) (dev : D) (slot type data : Word) : D × Int :=
  netSendRaw hal net dev slot (List.replicate 6 0xFF) type data 0 false

/-- `net_send_message_to`. -/
def netSendMessageTo (net : Net) (dev : D) (slot : Word) (destMac : List UInt8)
    (type data : Word) : D × Int :=
  netSendRaw hal net dev slot destMac type data 0 false

/-- `net_poll_receive_raw`: `-1` offline, `0` for no frame of this protocol,
`1` with the decoded frame. -/
def netPollReceiveRaw (net : Net) (dev : D) (maxSpins : Nat) : D × Int × Option RawMessage :=
  if ¬ net.online then (dev, -1, none)
  else
    match hal.netPollReceive dev 64 maxSpins with
    | (dev, n, frame) =>
        if n < frameLen then (dev, 0, none)
        else if frame 12 ≠ vajraEthertypeHi ∨ frame 13 ≠ vajraEthertypeLo then (dev, 0, none)
        else (dev, 1, some (decodeFrame frame))

/-- `net_poll_receive_message`: only data frames are returned, and each is
acknowledged to its sender. -/
def netPollReceiveMessage (net : Net) (dev : D) (slot : Word) (maxSpins : Nat) :
    D × Int × Option RawMessage :=
  match netPollReceiveRaw hal net dev maxSpins with
  | (dev, rc, none) => (dev, rc, none)
  | (dev, _, some raw) =>
      if raw.isAck then (dev, 0, none)
      else ((netSendRaw hal net dev slot raw.senderMac 0 0 raw.seq true).1, 1, some raw)

/-- The retransmission loop of `net_send_message_reliable_to`. -/
def reliableLoop (net : Net) (slot : Word) (destMac : List UInt8) (type data seq : Word) :
    Nat → D → D × Int
  | 0, dev => (dev, -1)
  | attempts+1, dev =>
      let sent := (netSendRaw hal net dev slot destMac type data seq false).1
      match netPollReceiveRaw hal net sent reliableSendSpins with
      | (dev, _, some raw) =>
          if raw.isAck ∧ raw.seq = seq ∧ raw.senderMac = destMac then (dev, 0)
          else reliableLoop net slot destMac type data seq attempts dev
      | (dev, _, none) => reliableLoop net slot destMac type data seq attempts dev

/-- `net_send_message_reliable_to`. -/
def netSendMessageReliableTo (net : Net) (dev : D) (slot : Word) (destMac : List UInt8)
    (type data : Word) : Net × D × Int :=
  if ¬ net.online then (net, dev, -1)
  else
    let (dev, rc) := reliableLoop hal net slot destMac type data net.nextSeq
      reliableSendAttempts dev
    ({ net with nextSeq := net.nextSeq + 1 }, dev, rc)

end Vajra
