import Vajra.VirtqueueMemory
import Vajra.VirtioReceive
import Vajra.VirtioTransmit
import Vajra.ProgramImages

/-!
# The network card and its driver on one memory (`hal/x86_64/virtio_net.c`)

Both queues, the eight receive buffers and the transmit buffer are pages of one physical memory, and
the card reads and writes them by the addresses it finds in its queues.  `rxStepAt` and `txStepAt` are
the steps of driver and card on these bytes.  Each is a step of the rings without addresses, `rxStep`
and `txStep`, and stores in its own pages only (`RxRefines.step`, `TxRefines.step`).
-/

namespace Vajra

open ByteMemory CounterRing

/-- Copy bytes to consecutive addresses. -/
def storeBytes (ram : Mem) (a : Nat) (bytes : List UInt8) : Mem :=
  writeBytes ram (bytes.zipIdx.map fun b => (a + b.2, b.1))

theorem storeBytes_apply (ram : Mem) (a : Nat) (bytes : List UInt8) (j : Nat) :
    storeBytes ram a bytes (a + j) = if j < bytes.length then bytes.getD j 0 else ram (a + j) := by
  rw [storeBytes, writeBytes_zipIdx]
  by_cases hj : j < bytes.length
  · rw [if_pos (by omega), if_pos hj, Nat.sub_zero]
  · rw [if_neg (by omega), if_neg hj]

theorem storeBytes_outside {ram : Mem} {a x : Nat} {bytes : List UInt8}
    (h : x < a ∨ a + bytes.length ≤ x) : storeBytes ram a bytes x = ram x := by
  refine writeBytes_outside fun b hb => ?_
  obtain ⟨c, hc, rfl⟩ := List.mem_map.mp hb
  have hlt := (List.mem_zipIdx hc).2.1
  dsimp only
  omega

/-- The receiving half: `rx_q`, `rx_bufs`, the page the card was told, the call under way, and what
the card keeps to itself. -/
structure RxSide where
  rxq : VirtqStruct
  rxBufs : Nat → Nat
  pfn : Nat
  pc : RxPc
  seen : BitVec 16
  taken : List TakenDesc

/-- The sending half. -/
structure TxSide where
  txq : VirtqStruct
  txBuf : Nat
  pfn : Nat
  pc : TxPc
  seen : BitVec 16
  wire : List (List UInt8)

/-- The queue as the card finds it. -/
def RxSide.ring (r : RxSide) : Vring := vringAt r.pfn r.rxq.qsize

def TxSide.ring (t : TxSide) : Vring := vringAt t.pfn t.txq.qsize

/-- `rx_post`, on the bytes. -/
def rxPostAt (ram : Mem) (rxq : VirtqStruct) (rxBufs : Nat → Nat) (descIndex : BitVec 16) :
    Mem × VirtqStruct :=
  virtqPublishAt (writeDesc ram rxq.desc descIndex.toNat
    ⟨rxBufs descIndex.toNat, frameBufSize, virtqDescFWrite, 0⟩) rxq descIndex

/-- One iteration of `hal_net_poll_receive`, up to its `rx_post`, on the bytes. -/
def pollSpinAt (ram : Mem) (r : RxSide) (maxLen spins : Nat) : RxSide :=
  if read16 ram r.rxq.usedIdx ≠ r.rxq.lastUsedIdx then
    let slot := r.rxq.lastUsedIdx.toNat % r.rxq.qsize
    let descIndex := virtqUsedElemIdAt ram r.rxq slot
    let totalLen := virtqUsedElemLenAt ram r.rxq slot
    let frameLen := totalLen - netHdrLen
    { r with
      rxq := { r.rxq with lastUsedIdx := r.rxq.lastUsedIdx + 1 }
      pc :=
        if totalLen < netHdrLen then .discarding descIndex maxLen spins
        else if maxLen < frameLen then .finishing descIndex maxLen (-1) []
        else .finishing descIndex maxLen frameLen
          ((List.range frameLen).map fun i => ram (r.rxBufs descIndex + netHdrLen + i)) }
  else { r with pc := .polling maxLen spins }

/-- A step of the receiving half.  The card stores a frame where the descriptor says. -/
def rxStepAt (ram : Mem) (r : RxSide) : RxEvent → Option (Mem × RxSide × RxOutcome)
  | .call maxLen maxSpins =>
      match r.pc with
      | .idle => some (ram, { r with pc := .polling maxLen maxSpins }, .none)
      | _ => none
  | .spin =>
      match r.pc with
      | .polling maxLen 0 => some (ram, { r with pc := .idle }, .returned maxLen 0 [])
      | .polling maxLen (spins+1) => some (ram, pollSpinAt ram r maxLen spins, .none)
      | _ => none
  | .post =>
      match r.pc with
      | .discarding descIndex maxLen spins =>
          let posted := rxPostAt ram r.rxq r.rxBufs (BitVec.ofNat 16 descIndex)
          some (posted.1, { r with rxq := posted.2, pc := .polling maxLen spins }, .none)
      | .finishing descIndex maxLen rc data =>
          let posted := rxPostAt ram r.rxq r.rxBufs (BitVec.ofNat 16 descIndex)
          some (posted.1, { r with rxq := posted.2, pc := .idle }, .returned maxLen rc data)
      | _ => none
  | .take =>
      if r.seen = read16 ram (r.ring.avail + 2) then none
      else
        let index := (r.ring.next ram r.seen).toNat
        some (ram, { r with
          seen := r.seen + 1
          taken := ⟨index, readDesc ram r.ring.desc index⟩ :: r.taken }, .none)
  | .giveBack i data =>
      match r.taken[i]? with
      | some t =>
          if data.length ≤ t.desc.len ∧ t.desc.flags = virtqDescFWrite then
            some (r.ring.giveBack (storeBytes ram t.desc.addr data) t.index data.length,
              { r with taken := r.taken.eraseIdx i }, .none)
          else none
      | none => none

/-- The copy loops of `hal_net_send`, and its descriptor. -/
def loadFrame (ram : Mem) (t : TxSide) (frame : List UInt8) : Mem :=
  writeDesc (storeBytes (zeroRange ram t.txBuf netHdrLen) (t.txBuf + netHdrLen) frame) t.txq.desc 0
    ⟨t.txBuf, txLen frame, 0, 0⟩

/-- A step of the sending half. -/
def txStepAt (ram : Mem) (t : TxSide) : TxEvent → Option (Mem × TxSide × TxOutcome)
  | .call frame =>
      match t.pc with
      | .idle =>
          if frameBufSize < txLen frame then some (ram, t, .returned frame (-1))
          else some (loadFrame ram t frame, { t with pc := .publishing frame }, .none)
      | _ => none
  | .publish =>
      match t.pc with
      | .publishing frame =>
          let published := virtqPublishAt ram t.txq 0
          some (published.1, { t with txq := published.2, pc := .waiting frame txSpins }, .none)
      | _ => none
  | .spin =>
      match t.pc with
      | .waiting frame 0 => some (ram, { t with pc := .idle }, .returned frame 0)
      | .waiting frame (spins+1) =>
          if read16 ram t.txq.usedIdx ≠ t.txq.lastUsedIdx then
            some (ram, { t with
              txq := { t.txq with lastUsedIdx := read16 ram t.txq.usedIdx }
              pc := .idle }, .returned frame 0)
          else some (ram, { t with pc := .waiting frame spins }, .none)
      | _ => none
  | .transmit =>
      if t.seen = read16 ram (t.ring.avail + 2) then none
      else
        let desc := readDesc ram t.ring.desc (t.ring.next ram t.seen).toNat
        let frame := (List.range (desc.len - netHdrLen)).map fun i => ram (desc.addr + netHdrLen + i)
        some (ram, { t with seen := t.seen + 1, wire := t.wire ++ [frame] }, .none)
  | .giveBack =>
      if read16 ram (t.ring.used + 2) = t.seen then none
      else
        let index := (t.ring.next ram (read16 ram (t.ring.used + 2))).toNat
        some (t.ring.giveBack ram index 0, t, .none)

/-- Two ranges of bytes without one in common. -/
def Separated (a n b k : Nat) : Prop := a + n ≤ b ∨ b + k ≤ a

/-- The bytes of the receiving half: the pages of its queue and of its buffers. -/
def RxOwns (base q : Nat) (rxBufs : Nat → Nat) (x : Nat) : Prop :=
  (base ≤ x ∧ x < base + virtqPages q * 4096) ∨
    ∃ i < rxBufCount, rxBufs i ≤ x ∧ x < rxBufs i + 4096

/-- The bytes of the sending half. -/
def TxOwns (base q txBuf x : Nat) : Prop :=
  (base ≤ x ∧ x < base + virtqPages q * 4096) ∨ (txBuf ≤ x ∧ x < txBuf + 4096)

/-- The pages of the receiving half do not overlap, and their addresses fit a descriptor. -/
structure RxPlaced (base q : Nat) (rxBufs : Nat → Nat) : Prop where
  room : rxBufCount ≤ q
  queue : ∀ i < rxBufCount, Separated base (virtqPages q * 4096) (rxBufs i) 4096
  bufs : ∀ i < rxBufCount, ∀ j < rxBufCount, i ≠ j → Separated (rxBufs i) 4096 (rxBufs j) 4096
  fits : ∀ i < rxBufCount, rxBufs i < 256 ^ 8

/-- The descriptor of a receive buffer, with its address. -/
def rxDescAt (rxBufs : Nat → Nat) (i : Nat) : VirtqDesc :=
  ⟨rxBufs i, frameBufSize, virtqDescFWrite, 0⟩

/-- **The bytes of the receiving half are those of `a`.** -/
structure RxRefines (base q : Nat) (ram : Mem) (r : RxSide) (a : RxState) : Prop where
  placed : RxPlaced base q r.rxBufs
  queue : VirtqHolds ram base q r.rxq a.rxq
  ring : VringLaid base q r.ring
  described : ∀ i < rxBufCount, readDesc ram base i = rxDescAt r.rxBufs i
  bufs : ∀ i < rxBufCount, ∀ j < frameBufSize, ram (r.rxBufs i + j) = a.bufs i j
  pc : r.pc = a.pc
  seen : r.seen = a.seen
  taken : r.taken = a.taken.map fun t => ⟨t.index, rxDescAt r.rxBufs t.index⟩

/-- What a step of the receiving half leaves alone. -/
structure RxKept (base q : Nat) (ram ram' : Mem) (r r' : RxSide) : Prop where
  bufs : r'.rxBufs = r.rxBufs
  ram : ∀ x, ¬ RxOwns base q r.rxBufs x → ram' x = ram x

section Receiving

variable {base q : Nat} {ram ram' : Mem} {r r' : RxSide} {a : RxState}

theorem RxPlaced.pos (h : RxPlaced base q r.rxBufs) : 0 < q := Nat.lt_of_lt_of_le (by decide) h.room

theorem rxDescAt_fits (h : RxPlaced base q r.rxBufs) {i : Nat} (hi : i < rxBufCount) :
    (rxDescAt r.rxBufs i).Fits :=
  ⟨h.fits i hi, show frameBufSize < 256 ^ 4 by decide, show virtqDescFWrite < 256 ^ 2 by decide,
    show 0 < 256 ^ 2 by decide⟩

/-- A byte of the queue is in its pages. -/
theorem virtqTotal_lt_pages {x n : Nat} (hx : x < base + n) (hn : n ≤ virtqTotal q) :
    x < base + virtqPages q * 4096 :=
  Nat.lt_of_lt_of_le hx (Nat.add_le_add_left (Nat.le_trans hn (virtqTotal_le_pages q)) base)

/-- The receiving half is its own bytes. -/
theorem RxRefines.congr (h : RxRefines base q ram r a)
    (hsame : ∀ x, RxOwns base q r.rxBufs x → ram' x = ram x) : RxRefines base q ram' r a := by
  have hoffset := usedOffset_ge q
  have hroom := h.placed.room
  refine ⟨h.placed, h.queue.congr fun x hlow hhigh => hsame x (Or.inl ⟨by omega, ?_⟩), h.ring,
    fun i hi => ?_, fun i hi j hj => ?_, h.pc, h.seen, h.taken⟩
  · exact virtqTotal_lt_pages hhigh (Nat.le_refl _)
  · rw [← h.described i hi]
    refine readDesc_congr fun x hlow hhigh => hsame x (Or.inl ⟨by omega, ?_⟩)
    exact virtqTotal_lt_pages (n := 16 * q) (by omega) (by unfold virtqTotal; omega)
  · rw [← h.bufs i hi j hj]
    refine hsame _ (Or.inr ⟨i, hi, by omega, ?_⟩)
    simp only [frameBufSize] at hj
    omega

/-- The stores of `rx_post` are in the queue. -/
theorem rxPostAt_outside {rxq : VirtqStruct} {rxBufs : Nat → Nat} (hlaid : VirtqLaid base q rxq)
    {d : BitVec 16} (hd : d.toNat < q) {x : Nat} (hx : x < base ∨ base + usedOffset q ≤ x) :
    (rxPostAt ram rxq rxBufs d).1 x = ram x := by
  have hoffset := usedOffset_ge q
  rw [rxPostAt, virtqPublishAt_outside hlaid (by omega) (by omega), hlaid.desc,
    writeDesc_outside (by omega)]

/-- **`rx_post`** on the rings. -/
theorem VirtqHolds.rxPost {rxq : VirtqStruct} {vq : Virtq} (h : VirtqHolds ram base q rxq vq)
    (rxBufs : Nat → Nat) {d : BitVec 16} (hd : d.toNat < q) :
    VirtqHolds (rxPostAt ram rxq rxBufs d).1 base q (rxPostAt ram rxq rxBufs d).2
      (Vajra.rxPost vq d) := by
  have hdescribed : VirtqHolds (writeDesc ram rxq.desc d.toNat (rxDescAt rxBufs d.toNat)) base q
      rxq { vq with
        desc := Function.update vq.desc d.toNat ⟨d.toNat, frameBufSize, virtqDescFWrite, 0⟩ } := by
    refine (h.congr fun x hlow _ => ?_).describe _
    rw [h.laid.desc]
    exact writeDesc_outside (Or.inr (by omega))
  exact hdescribed.publish (by omega) d

/-- **`rx_post`** on the descriptors. -/
theorem readDesc_rxPostAt {rxq : VirtqStruct} {rxBufs : Nat → Nat} (hlaid : VirtqLaid base q rxq)
    {d : BitVec 16} (hfits : (rxDescAt rxBufs d.toNat).Fits) {i : Nat}
    (hi : i < q) :
    readDesc (rxPostAt ram rxq rxBufs d).1 base i =
      if i = d.toNat then rxDescAt rxBufs i else readDesc ram base i := by
  have hrings : readDesc (rxPostAt ram rxq rxBufs d).1 base i =
      readDesc (writeDesc ram base d.toNat (rxDescAt rxBufs d.toNat)) base i := by
    refine readDesc_congr fun x hlow hhigh => ?_
    rw [rxPostAt, virtqPublishAt_outside hlaid (by omega) (Or.inl (by omega)), hlaid.desc]
    rfl
  rw [hrings]
  by_cases hhere : i = d.toNat
  · rw [if_pos hhere, hhere]
    exact readDesc_writeDesc hfits ram base d.toNat
  · rw [if_neg hhere]
    exact readDesc_congr fun x hlow hhigh => writeDesc_outside (by omega)

/-- **`rx_post`** on the bytes. -/
theorem RxRefines.post (h : RxRefines base q ram r a) {d : BitVec 16} (hd : d.toNat < rxBufCount)
    (pc : RxPc) :
    RxRefines base q (rxPostAt ram r.rxq r.rxBufs d).1
      { r with rxq := (rxPostAt ram r.rxq r.rxBufs d).2, pc := pc }
      { a with rxq := rxPost a.rxq d, pc := pc } := by
  have hroom := h.placed.room
  have hlaid := h.queue.laid
  refine ⟨h.placed, h.queue.rxPost r.rxBufs (by omega), h.ring, fun i hi => ?_, fun i hi j hj => ?_,
    rfl, h.seen, h.taken⟩
  · rw [readDesc_rxPostAt hlaid (rxDescAt_fits h.placed hd) (by omega)]
    split
    · rfl
    · exact h.described i hi
  · rw [← h.bufs i hi j hj]
    refine rxPostAt_outside hlaid (by omega) ?_
    have hapart := h.placed.queue i hi
    have hpages := virtqTotal_le_pages q
    simp only [Separated, frameBufSize, virtqTotal] at *
    omega

/-- **The card's store of a frame** is a store into the buffer the descriptor names. -/
theorem RxRefines.stored (h : RxRefines base q ram r a) {i : Nat} (hi : i < rxBufCount)
    {data : List UInt8} (hdata : data.length ≤ frameBufSize) :
    RxRefines base q (storeBytes ram (r.rxBufs i) data) r
      { a with bufs := storeFrame a.bufs i data } := by
  have hpage : frameBufSize ≤ 4096 := by decide
  have hqueue : ∀ x, base ≤ x → x < base + virtqPages q * 4096 →
      storeBytes ram (r.rxBufs i) data x = ram x := by
    intro x hlow hhigh
    have hapart := h.placed.queue i hi
    simp only [Separated] at hapart
    exact storeBytes_outside (by omega)
  have hoffset := usedOffset_ge q
  have hroom := h.placed.room
  refine ⟨h.placed, h.queue.congr fun x hlow hhigh => hqueue x (by omega)
    (virtqTotal_lt_pages hhigh (Nat.le_refl _)), h.ring, fun j hj => ?_, fun j hj n hn => ?_, h.pc,
    h.seen, h.taken⟩
  · rw [← h.described j hj]
    refine readDesc_congr fun x hlow hhigh => hqueue x (by omega) ?_
    exact virtqTotal_lt_pages (n := 16 * q) (by omega) (by unfold virtqTotal; omega)
  · dsimp only
    by_cases hhere : j = i
    · rw [hhere, storeBytes_apply, storeFrame, Function.update_self, h.bufs i hi n hn]
    · rw [storeFrame, Function.update_of_ne hhere, ← h.bufs j hj n hn]
      have hapart := h.placed.bufs i hi j hj (Ne.symm hhere)
      simp only [Separated] at hapart
      exact storeBytes_outside (by omega)

/-- The card gives a descriptor back. -/
theorem RxRefines.returned (h : RxRefines base q ram r a) (id len : Nat) (i : Nat) :
    RxRefines base q (r.ring.giveBack ram id len) { r with taken := r.taken.eraseIdx i }
      { a with rxq := a.rxq.giveBack id len, taken := a.taken.eraseIdx i } := by
  have hoffset := usedOffset_ge q
  have hroom := h.placed.room
  have hout : ∀ x, x < base + usedOffset q ∨ base + virtqTotal q ≤ x →
      r.ring.giveBack ram id len x = ram x :=
    fun x hx => Vring.giveBack_outside h.ring h.placed.pos hx
  refine ⟨h.placed, h.queue.giveBack h.ring h.placed.pos id len, h.ring, fun j hj => ?_,
    fun j hj n hn => ?_, h.pc, h.seen, ?_⟩
  · rw [← h.described j hj]
    exact readDesc_congr fun x hlow hhigh => hout x (by omega)
  · rw [← h.bufs j hj n hn]
    have hapart := h.placed.queue j hj
    have hpages := virtqTotal_le_pages q
    simp only [Separated, frameBufSize] at hapart hn
    dsimp only
    exact hout _ (by omega)
  · dsimp only
    rw [h.taken, List.eraseIdx_map]

/-- The call under way is beside the bytes. -/
theorem RxRefines.withPc (h : RxRefines base q ram r a) (pc : RxPc) :
    RxRefines base q ram { r with pc := pc } { a with pc := pc } :=
  ⟨h.placed, h.queue, h.ring, h.described, h.bufs, rfl, h.seen, h.taken⟩

/-- What the receiving half does not own is outside its queue. -/
theorem outside_queue {rxBufs : Nat → Nat} {x : Nat} (hx : ¬ RxOwns base q rxBufs x) :
    x < base ∨ base + virtqTotal q ≤ x := by
  by_contra hin
  have hpages := virtqTotal_le_pages q
  exact hx (Or.inl ⟨by omega, by omega⟩)

/-- A buffer that a call has in hand is posted again. -/
theorem RxRefines.repost (h : RxRefines base q ram r a) (hinv : RxInv a) {d : Nat}
    (hd : d ∈ a.pc.inHand) (pc : RxPc) :
    RxRefines base q (rxPostAt ram r.rxq r.rxBufs (BitVec.ofNat 16 d)).1
      { r with rxq := (rxPostAt ram r.rxq r.rxBufs (BitVec.ofNat 16 d)).2, pc := pc }
      { a with rxq := rxPost a.rxq (BitVec.ofNat 16 d), pc := pc } ∧
    ∀ x, ¬ RxOwns base q r.rxBufs x →
      (rxPostAt ram r.rxq r.rxBufs (BitVec.ofNat 16 d)).1 x = ram x := by
  have hlt : d < rxBufCount := hinv.lt (List.mem_append_right _ hd)
  have hd16 : (BitVec.ofNat 16 d).toNat < rxBufCount := by
    rw [BitVec.toNat_ofNat, Nat.mod_eq_of_lt (Nat.lt_trans hlt (by decide))]
    exact hlt
  have hroom := h.placed.room
  refine ⟨h.post hd16 pc, fun x hx => rxPostAt_outside h.queue.laid (by omega) ?_⟩
  have hfar := outside_queue hx
  unfold virtqTotal at hfar
  omega

/-- **The card gives a buffer back**, with a frame in it. -/
theorem RxRefines.giveBack (h : RxRefines base q ram r a) (hinv : RxInv a) {i : Nat} {t : TakenDesc}
    (ht : a.taken[i]? = some t) {data : List UInt8} (hdata : data.length ≤ frameBufSize) :
    RxRefines base q
      (r.ring.giveBack (storeBytes ram (r.rxBufs t.index) data) t.index data.length)
      { r with taken := r.taken.eraseIdx i }
      { a with
        bufs := storeFrame a.bufs t.index data
        rxq := a.rxq.giveBack t.index data.length
        taken := a.taken.eraseIdx i } ∧
    ∀ x, ¬ RxOwns base q r.rxBufs x →
      r.ring.giveBack (storeBytes ram (r.rxBufs t.index) data) t.index data.length x = ram x := by
  have hbuf : t.index < rxBufCount := hinv.lt (by
    simp only [RxState.posted, List.mem_append, List.mem_map]
    exact Or.inl (Or.inl (Or.inr ⟨t, List.mem_of_getElem? ht, rfl⟩)))
  refine ⟨(h.stored hbuf hdata).returned t.index data.length i, fun x hx => ?_⟩
  have hfar := outside_queue hx
  have hpage : data.length ≤ 4096 := Nat.le_trans hdata (by decide)
  rw [Vring.giveBack_outside h.ring h.placed.pos (by omega)]
  refine storeBytes_outside ?_
  by_contra hin
  exact hx (Or.inr ⟨t.index, hbuf, by omega, by omega⟩)

/-- **The polling loop** sees on the bytes what it sees in the rings. -/
theorem RxRefines.poll (h : RxRefines base q ram r a) (hinv : RxInv a)
    (hlen : ∀ e ∈ a.rxq.used, e.2 ≤ frameBufSize) (maxLen spins : Nat) :
    RxRefines base q ram (pollSpinAt ram r maxLen spins) (pollSpin a maxLen spins) ∧
      (pollSpinAt ram r maxLen spins).rxBufs = r.rxBufs := by
  have hlaid := h.queue.laid
  have hidx : read16 ram r.rxq.usedIdx = a.rxq.usedIdx := by
    rw [hlaid.usedIdx]
    exact h.queue.usedIdx
  rw [pollSpinAt, pollSpin, hidx, h.queue.last]
  by_cases hsome : a.rxq.usedIdx ≠ a.rxq.lastUsedIdx
  · rw [if_pos hsome, if_pos hsome]
    have hpop := used_take hinv.size hinv.pos (Ne.symm hsome)
    have hslot : a.rxq.lastUsedIdx.toNat % q < q := Nat.mod_lt _ h.placed.pos
    obtain ⟨hid, hsize⟩ := h.queue.usedElem hslot
    rw [hlaid.qsize, h.queue.qsize]
    dsimp only
    rw [hid, hsize]
    rw [h.queue.qsize] at hpop
    set id := virtqUsedElemId a.rxq (a.rxq.lastUsedIdx.toNat % q)
    set len := virtqUsedElemLen a.rxq (a.rxq.lastUsedIdx.toNat % q)
    have hmem : (id, len) ∈ a.rxq.used := hpop ▸ List.mem_cons_self
    have hbuf : id < rxBufCount := hinv.lt (by
      simp only [RxState.unconsumed, List.mem_append, List.mem_map]
      exact Or.inl (Or.inr ⟨_, hmem, rfl⟩))
    have hfits := hlen _ hmem
    have hdata : (List.range (len - netHdrLen)).map (fun i => ram (r.rxBufs id + netHdrLen + i)) =
        frameData a.bufs id (len - netHdrLen) := by
      refine List.map_congr_left fun i hi => ?_
      have hlt := List.mem_range.mp hi
      rw [Nat.add_assoc]
      exact h.bufs id hbuf _ (by dsimp only at hfits; omega)
    refine ⟨⟨h.placed, h.queue.readTo _, h.ring, h.described, h.bufs, ?_, h.seen, h.taken⟩, rfl⟩
    dsimp only
    rw [hdata]
  · rw [if_neg hsome, if_neg hsome]
    exact ⟨h.withPc _, rfl⟩

/-- **The card takes** the descriptor the ring names, as `rx_post` wrote it. -/
theorem RxRefines.take (h : RxRefines base q ram r a) (hinv : RxInv a)
    (hsome : a.seen ≠ a.rxq.availIdx) :
    RxRefines base q ram
      { r with
        seen := r.seen + 1
        taken := ⟨(r.ring.next ram r.seen).toNat,
          readDesc ram r.ring.desc (r.ring.next ram r.seen).toNat⟩ :: r.taken }
      { a with
        seen := a.seen + 1
        taken := ⟨(a.rxq.availRing (a.seen.toNat % a.rxq.qsize)).toNat,
          a.rxq.desc (a.rxq.availRing (a.seen.toNat % a.rxq.qsize)).toNat⟩ :: a.taken } := by
  have hslot : a.seen.toNat % q < q := Nat.mod_lt _ h.placed.pos
  have hnext : r.ring.next ram r.seen = a.rxq.availRing (a.seen.toNat % a.rxq.qsize) := by
    rw [Vring.next, h.ring.avail, h.ring.num, h.seen, h.queue.availRing _ hslot, h.queue.qsize]
  have hpop := available_take hinv.size hinv.pos hsome
  rw [hnext, h.ring.desc]
  set d := (a.rxq.availRing (a.seen.toNat % a.rxq.qsize)).toNat
  have hbuf : d < rxBufCount := hinv.lt (by
    simp only [RxState.posted, List.mem_append, hpop]
    exact Or.inl (Or.inl (Or.inl List.mem_cons_self)))
  refine ⟨h.placed, h.queue, h.ring, h.described, h.bufs, h.pc, congrArg (· + 1) h.seen, ?_⟩
  dsimp only
  rw [h.described d hbuf, h.taken, List.map_cons]

/-- Used entries that are accounted for are no longer than a buffer. -/
theorem RxAccounted.short {tr : List RxRecord} (h : RxAccounted tr a) :
    ∀ e ∈ a.rxq.used, e.2 ≤ frameBufSize := by
  obtain ⟨_, pending, -, hpending, -⟩ := h
  intro e he
  obtain ⟨i, hi, rfl⟩ := List.getElem_of_mem he
  obtain ⟨hlen, hle, -⟩ := hpending.get hi (hpending.length_eq ▸ hi)
  exact hlen.trans_le hle

/-- **A step of the receiving half** is the step of the rings, in its own pages. -/
theorem RxRefines.step (h : RxRefines base q ram r a) (hinv : RxInv a)
    (hlen : ∀ e ∈ a.rxq.used, e.2 ≤ frameBufSize) {e : RxEvent} {o : RxOutcome}
    (hstep : rxStepAt ram r e = some (ram', r', o)) :
    ∃ a', rxStep a e = some (a', o) ∧ RxRefines base q ram' r' a' ∧ RxKept base q ram ram' r r' := by
  have hpc := h.pc
  cases e with
  | call maxLen maxSpins =>
      cases hr : r.pc with
      | idle =>
          simp only [rxStepAt, hr, Option.some.injEq, Prod.mk.injEq] at hstep
          obtain ⟨rfl, rfl, rfl⟩ := hstep
          rw [hr] at hpc
          refine ⟨{ a with pc := .polling maxLen maxSpins }, ?_, h.withPc _, rfl, fun _ _ => rfl⟩
          simp only [rxStep, ← hpc]
      | _ => simp [rxStepAt, hr] at hstep
  | spin =>
      cases hr : r.pc with
      | polling maxLen spins =>
          rw [hr] at hpc
          cases spins with
          | zero =>
              simp only [rxStepAt, hr, Option.some.injEq, Prod.mk.injEq] at hstep
              obtain ⟨rfl, rfl, rfl⟩ := hstep
              refine ⟨{ a with pc := .idle }, ?_, h.withPc _, rfl, fun _ _ => rfl⟩
              simp only [rxStep, ← hpc]
          | succ spins =>
              simp only [rxStepAt, hr, Option.some.injEq, Prod.mk.injEq] at hstep
              obtain ⟨rfl, rfl, rfl⟩ := hstep
              obtain ⟨hpolled, hbufs⟩ := h.poll hinv hlen maxLen spins
              refine ⟨pollSpin a maxLen spins, ?_, hpolled, hbufs, fun _ _ => rfl⟩
              simp only [rxStep, ← hpc]
      | _ => simp [rxStepAt, hr] at hstep
  | post =>
      cases hr : r.pc with
      | discarding d maxLen spins =>
          simp only [rxStepAt, hr, Option.some.injEq, Prod.mk.injEq] at hstep
          obtain ⟨rfl, rfl, rfl⟩ := hstep
          rw [hr] at hpc
          obtain ⟨hrefines, hout⟩ := h.repost hinv (d := d) (hpc ▸ List.mem_singleton_self d)
            (.polling maxLen spins)
          refine ⟨_, ?_, hrefines, rfl, hout⟩
          simp only [rxStep, ← hpc]
      | finishing d maxLen rc data =>
          simp only [rxStepAt, hr, Option.some.injEq, Prod.mk.injEq] at hstep
          obtain ⟨rfl, rfl, rfl⟩ := hstep
          rw [hr] at hpc
          obtain ⟨hrefines, hout⟩ := h.repost hinv (d := d) (hpc ▸ List.mem_singleton_self d) .idle
          refine ⟨_, ?_, hrefines, rfl, hout⟩
          simp only [rxStep, ← hpc]
      | _ => simp [rxStepAt, hr] at hstep
  | take =>
      have havail : read16 ram (r.ring.avail + 2) = a.rxq.availIdx := by
        rw [h.ring.avail]
        exact h.queue.availIdx
      simp only [rxStepAt, havail, h.seen] at hstep
      split at hstep
      · cases hstep
      · rename_i hsome
        simp only [Option.some.injEq, Prod.mk.injEq] at hstep
        obtain ⟨rfl, rfl, rfl⟩ := hstep
        have htaken := h.take hinv hsome
        rw [h.seen] at htaken
        refine ⟨_, ?_, htaken, rfl, fun _ _ => rfl⟩
        simp only [rxStep, if_neg hsome]
  | giveBack i data =>
      simp only [rxStepAt, h.taken, List.getElem?_map] at hstep
      cases ht : a.taken[i]? with
      | none => simp [ht] at hstep
      | some t =>
          have hdesc := hinv.taken t (List.mem_of_getElem? ht)
          simp only [ht, Option.map_some, rxDescAt] at hstep
          split at hstep
          · rename_i hfits
            simp only [Option.some.injEq, Prod.mk.injEq] at hstep
            obtain ⟨rfl, rfl, rfl⟩ := hstep
            obtain ⟨hgiven, hout⟩ := h.giveBack hinv ht hfits.1
            rw [h.taken] at hgiven
            refine ⟨_, ?_, hgiven, rfl, hout⟩
            have hfits' : data.length ≤ t.desc.len ∧ t.desc.flags = virtqDescFWrite := by
              rw [hdesc]
              exact ⟨hfits.1, rfl⟩
            simp only [rxStep, ht]
            rw [if_pos hfits', hdesc]
            rfl
          · cases hstep

end Receiving

/-- **The bytes of the sending half are those of `b`.**  Before the first call its descriptor names no
buffer, and no bytes of one. -/
structure TxRefines (base q : Nat) (ram : Mem) (t : TxSide) (b : TxState) : Prop where
  pos : 0 < q
  apart : Separated base (virtqPages q * 4096) t.txBuf 4096
  fits : t.txBuf < 256 ^ 8
  queue : VirtqHolds ram base q t.txq b.txq
  ring : VringLaid base q t.ring
  single : ∀ j, b.txq.availRing j = 0
  len : (readDesc ram base 0).len = (b.txq.desc 0).len
  short : (b.txq.desc 0).len ≤ frameBufSize
  addr : (b.txq.desc 0).len ≠ 0 → (readDesc ram base 0).addr = t.txBuf
  buf : ∀ j < frameBufSize, ram (t.txBuf + j) = b.txBuf j
  pc : t.pc = b.pc
  seen : t.seen = b.seen
  wire : t.wire = b.wire

/-- What a step of the sending half leaves alone. -/
structure TxKept (base q : Nat) (ram ram' : Mem) (t t' : TxSide) : Prop where
  buf : t'.txBuf = t.txBuf
  ram : ∀ x, ¬ TxOwns base q t.txBuf x → ram' x = ram x

section Sending

variable {base q : Nat} {ram ram' : Mem} {t t' : TxSide} {b : TxState}

/-- The sending half is its own bytes. -/
theorem TxRefines.congr (h : TxRefines base q ram t b)
    (hsame : ∀ x, TxOwns base q t.txBuf x → ram' x = ram x) : TxRefines base q ram' t b := by
  have hoffset := usedOffset_ge q
  have hpos := h.pos
  have hdesc : readDesc ram' base 0 = readDesc ram base 0 := by
    refine readDesc_congr fun x hlow hhigh => hsame x (Or.inl ⟨by omega, ?_⟩)
    exact virtqTotal_lt_pages (n := 16 * q) (by omega) (by unfold virtqTotal; omega)
  refine ⟨hpos, h.apart, h.fits, h.queue.congr fun x hlow hhigh => hsame x (Or.inl ⟨by omega, ?_⟩),
    h.ring, h.single, hdesc ▸ h.len, h.short, hdesc ▸ h.addr, fun j hj => ?_, h.pc, h.seen, h.wire⟩
  · exact virtqTotal_lt_pages hhigh (Nat.le_refl _)
  · rw [← h.buf j hj]
    refine hsame _ (Or.inr ⟨by omega, ?_⟩)
    simp only [frameBufSize] at hj
    omega

/-- The rings are behind the descriptors, in the pages of the queue. -/
theorem TxRefines.outside (h : TxRefines base q ram t b)
    (hsame : ∀ x, x < base + 16 * q ∨ base + virtqTotal q ≤ x → ram' x = ram x) :
    readDesc ram' base 0 = readDesc ram base 0 ∧
      (∀ j < frameBufSize, ram' (t.txBuf + j) = b.txBuf j) ∧
      ∀ x, ¬ TxOwns base q t.txBuf x → ram' x = ram x := by
  have hpos := h.pos
  have hpages := virtqTotal_le_pages q
  have hoffset := usedOffset_ge q
  refine ⟨readDesc_congr fun x _ hhigh => hsame x (Or.inl (by omega)), fun j hj => ?_, fun x hx => ?_⟩
  · rw [← h.buf j hj]
    have hapart := h.apart
    simp only [Separated, frameBufSize] at hapart hj
    exact hsame _ (by omega)
  · refine hsame x ?_
    by_contra hin
    exact hx (Or.inl ⟨by omega, by omega⟩)

/-- **Loading a frame** on the bytes. -/
theorem TxRefines.load (h : TxRefines base q ram t b) {frame : List UInt8}
    (hlen : netHdrLen + frame.length < 2 ^ 32) (hfits : ¬ frameBufSize < txLen frame) (pc : TxPc) :
    TxRefines base q (loadFrame ram t frame) { t with pc := pc }
      { b with
        txBuf := fillTxBuf b.txBuf frame
        txq := { b.txq with desc := Function.update b.txq.desc 0 ⟨0, txLen frame, 0, 0⟩ }
        pc := pc } ∧
      ∀ x, ¬ TxOwns base q t.txBuf x → loadFrame ram t frame x = ram x := by
  have hpos := h.pos
  have hoffset := usedOffset_ge q
  have hpages := virtqTotal_le_pages q
  have hdescs : 16 * q ≤ virtqTotal q := by
    unfold virtqTotal
    omega
  have htx : txLen frame = netHdrLen + frame.length := Nat.mod_eq_of_lt hlen
  have hshort : netHdrLen + frame.length ≤ 2048 := by
    rw [← htx]
    exact Nat.le_of_not_lt hfits
  have hwidth : (⟨t.txBuf, txLen frame, 0, 0⟩ : VirtqDesc).Fits := by
    refine ⟨h.fits, ?_, show 0 < 256 ^ 2 by decide, show 0 < 256 ^ 2 by decide⟩
    dsimp only
    omega
  have hqueue : ∀ x, base + 16 ≤ x → x < base + virtqPages q * 4096 →
      loadFrame ram t frame x = ram x := by
    intro x hlow hhigh
    have hapart := h.apart
    simp only [Separated] at hapart
    rw [loadFrame, h.queue.laid.desc, writeDesc_outside (by omega), storeBytes_outside (by omega),
      zeroRange_outside (by omega)]
  have hdesc : readDesc (loadFrame ram t frame) base 0 = ⟨t.txBuf, txLen frame, 0, 0⟩ := by
    rw [loadFrame, h.queue.laid.desc]
    exact readDesc_writeDesc hwidth _ base 0
  refine ⟨⟨hpos, h.apart, h.fits, (h.queue.congr fun x hlow hhigh => hqueue x (by omega) (by omega)).describe _,
    h.ring, h.single, ?_, ?_, fun _ => ?_, fun j hj => ?_, rfl, h.seen, h.wire⟩, fun x hx => ?_⟩
  · rw [hdesc]
    dsimp only
    rw [Function.update_self]
  · dsimp only
    rw [Function.update_self]
    exact Nat.le_of_not_lt hfits
  · rw [hdesc]
  · have hapart := h.apart
    simp only [Separated, frameBufSize] at hapart hj
    have hbuf := h.buf j hj
    dsimp only
    rw [loadFrame, h.queue.laid.desc, writeDesc_outside (by omega), fillTxBuf]
    by_cases hheader : j < netHdrLen
    · rw [if_pos hheader, storeBytes_outside (by omega)]
      exact zeroRange_inside (by omega) (by omega)
    · rw [if_neg hheader]
      have hsplit : t.txBuf + j = t.txBuf + netHdrLen + (j - netHdrLen) := by omega
      by_cases hframe : j < netHdrLen + frame.length
      · rw [if_pos hframe, hsplit, storeBytes_apply, if_pos (by omega)]
      · rw [if_neg hframe, ← hbuf, storeBytes_outside (by omega), zeroRange_outside (by omega)]
  · rw [loadFrame, h.queue.laid.desc, writeDesc_outside, storeBytes_outside, zeroRange_outside]
    · by_contra hin
      exact hx (Or.inr ⟨by omega, by omega⟩)
    · by_contra hin
      exact hx (Or.inr ⟨by omega, by omega⟩)
    · by_contra hin
      exact hx (Or.inl ⟨by omega, by omega⟩)

/-- The call under way is beside the bytes. -/
theorem TxRefines.withPc (h : TxRefines base q ram t b) (pc : TxPc) :
    TxRefines base q ram { t with pc := pc } { b with pc := pc } :=
  ⟨h.pos, h.apart, h.fits, h.queue, h.ring, h.single, h.len, h.short, h.addr, h.buf, rfl, h.seen,
    h.wire⟩

/-- The driver has seen how far the card is. -/
theorem TxRefines.readTo (h : TxRefines base q ram t b) (idx : BitVec 16) :
    TxRefines base q ram { t with txq := { t.txq with lastUsedIdx := idx } }
      { b with txq := { b.txq with lastUsedIdx := idx } } :=
  ⟨h.pos, h.apart, h.fits, h.queue.readTo idx, h.ring, h.single, h.len, h.short, h.addr, h.buf, h.pc,
    h.seen, h.wire⟩

/-- **What the card transmits** are the bytes the descriptor names. -/
theorem TxRefines.frame (h : TxRefines base q ram t b) :
    (List.range ((readDesc ram base 0).len - netHdrLen)).map
        (fun i => ram ((readDesc ram base 0).addr + netHdrLen + i)) =
      (List.range ((b.txq.desc 0).len - netHdrLen)).map fun i => b.txBuf (netHdrLen + i) := by
  rw [h.len]
  refine List.map_congr_left fun i hi => ?_
  have hlt := List.mem_range.mp hi
  have hshort := h.short
  rw [h.addr (by omega), Nat.add_assoc]
  exact h.buf _ (by omega)

/-- The ring holds descriptor 0 and nothing else. -/
theorem TxRefines.next (h : TxRefines base q ram t b) (seen : BitVec 16) :
    t.ring.next ram seen = b.txq.availRing (seen.toNat % b.txq.qsize) := by
  rw [Vring.next, h.ring.avail, h.ring.num, h.queue.availRing _ (Nat.mod_lt _ h.pos), h.queue.qsize]

/-- Publishing descriptor 0 on the bytes. -/
theorem TxRefines.publish (h : TxRefines base q ram t b) (pc : TxPc) :
    TxRefines base q (virtqPublishAt ram t.txq 0).1
      { t with txq := (virtqPublishAt ram t.txq 0).2, pc := pc }
      { b with txq := virtqPublish b.txq 0, pc := pc } ∧
      ∀ x, ¬ TxOwns base q t.txBuf x → (virtqPublishAt ram t.txq 0).1 x = ram x := by
  have hoffset := usedOffset_ge q
  have hrings : ∀ x, x < base + 16 * q ∨ base + virtqTotal q ≤ x →
      (virtqPublishAt ram t.txq 0).1 x = ram x := by
    intro x hx
    unfold virtqTotal at hx
    exact virtqPublishAt_outside h.queue.laid h.pos (by omega)
  obtain ⟨hdesc, hbuf, hout⟩ := h.outside hrings
  have hsingle : ∀ j, (virtqPublish b.txq 0).availRing j = 0 := by
    intro j
    simp only [virtqPublish, Function.update_apply]
    split
    · rfl
    · exact h.single j
  refine ⟨⟨h.pos, h.apart, h.fits, h.queue.publish h.pos 0, h.ring, hsingle, ?_, h.short, ?_, hbuf,
    rfl, h.seen, h.wire⟩, hout⟩
  · rw [hdesc]
    exact h.len
  · rw [hdesc]
    exact h.addr

/-- The card gives the descriptor back. -/
theorem TxRefines.giveBack (h : TxRefines base q ram t b) (id len : Nat) :
    TxRefines base q (t.ring.giveBack ram id len) t { b with txq := b.txq.giveBack id len } ∧
      ∀ x, ¬ TxOwns base q t.txBuf x → t.ring.giveBack ram id len x = ram x := by
  have hoffset := usedOffset_ge q
  have hrings : ∀ x, x < base + 16 * q ∨ base + virtqTotal q ≤ x →
      t.ring.giveBack ram id len x = ram x :=
    fun x hx => Vring.giveBack_outside h.ring h.pos (by omega)
  obtain ⟨hdesc, hbuf, hout⟩ := h.outside hrings
  refine ⟨⟨h.pos, h.apart, h.fits, h.queue.giveBack h.ring h.pos id len, h.ring, h.single, ?_, h.short,
    ?_, hbuf, h.pc, h.seen, h.wire⟩, hout⟩
  · rw [hdesc]
    exact h.len
  · rw [hdesc]
    exact h.addr

/-- **A step of the sending half** is the step of the rings, in its own pages, if no call passes a
frame whose length with the header exceeds 32 bits. -/
theorem TxRefines.step (h : TxRefines base q ram t b) {e : TxEvent} {o : TxOutcome}
    (hlen : ∀ frame, e = .call frame → netHdrLen + frame.length < 2 ^ 32)
    (hstep : txStepAt ram t e = some (ram', t', o)) :
    ∃ b', txStep b e = some (b', o) ∧ TxRefines base q ram' t' b' ∧ TxKept base q ram ram' t t' := by
  have hpc := h.pc
  have hself : TxKept base q ram ram t t := ⟨rfl, fun _ _ => rfl⟩
  have hlaid := h.queue.laid
  have hused : read16 ram t.txq.usedIdx = b.txq.usedIdx := by
    rw [hlaid.usedIdx]
    exact h.queue.usedIdx
  cases e with
  | call frame =>
      cases ht : t.pc with
      | idle =>
          rw [ht] at hpc
          simp only [txStepAt, ht] at hstep
          split at hstep
          · rename_i hlong
            simp only [Option.some.injEq, Prod.mk.injEq] at hstep
            obtain ⟨rfl, rfl, rfl⟩ := hstep
            refine ⟨b, ?_, h, hself⟩
            simp only [txStep, ← hpc, if_pos hlong]
          · rename_i hfits
            simp only [Option.some.injEq, Prod.mk.injEq] at hstep
            obtain ⟨rfl, rfl, rfl⟩ := hstep
            obtain ⟨hloaded, hout⟩ := h.load (hlen frame rfl) hfits (.publishing frame)
            refine ⟨_, ?_, hloaded, rfl, hout⟩
            simp only [txStep, ← hpc, if_neg hfits]
      | _ => simp [txStepAt, ht] at hstep
  | publish =>
      cases ht : t.pc with
      | publishing frame =>
          rw [ht] at hpc
          simp only [txStepAt, ht, Option.some.injEq, Prod.mk.injEq] at hstep
          obtain ⟨rfl, rfl, rfl⟩ := hstep
          obtain ⟨hpublished, hout⟩ := h.publish (.waiting frame txSpins)
          refine ⟨_, ?_, hpublished, rfl, hout⟩
          simp only [txStep, ← hpc]
      | _ => simp [txStepAt, ht] at hstep
  | spin =>
      cases ht : t.pc with
      | waiting frame spins =>
          rw [ht] at hpc
          cases spins with
          | zero =>
              simp only [txStepAt, ht, Option.some.injEq, Prod.mk.injEq] at hstep
              obtain ⟨rfl, rfl, rfl⟩ := hstep
              refine ⟨{ b with pc := .idle }, ?_, h.withPc _, rfl, fun _ _ => rfl⟩
              simp only [txStep, ← hpc]
          | succ spins =>
              simp only [txStepAt, ht, hused, h.queue.last] at hstep
              split at hstep
              · rename_i hmoved
                simp only [Option.some.injEq, Prod.mk.injEq] at hstep
                obtain ⟨rfl, rfl, rfl⟩ := hstep
                refine ⟨{ b with txq := { b.txq with lastUsedIdx := b.txq.usedIdx }, pc := .idle }, ?_,
                  (h.readTo b.txq.usedIdx).withPc .idle, rfl, fun _ _ => rfl⟩
                simp only [txStep, ← hpc, if_pos hmoved]
              · rename_i hstill
                simp only [Option.some.injEq, Prod.mk.injEq] at hstep
                obtain ⟨rfl, rfl, rfl⟩ := hstep
                refine ⟨{ b with pc := .waiting frame spins }, ?_, h.withPc _, rfl, fun _ _ => rfl⟩
                simp only [txStep, ← hpc, if_neg hstill]
      | _ => simp [txStepAt, ht] at hstep
  | transmit =>
      have havail : read16 ram (t.ring.avail + 2) = b.txq.availIdx := by
        rw [h.ring.avail]
        exact h.queue.availIdx
      have hzero : (t.ring.next ram b.seen).toNat = 0 := by
        rw [h.next, h.single]
        rfl
      simp only [txStepAt, havail, h.seen, hzero, h.ring.desc, h.frame] at hstep
      split at hstep
      · cases hstep
      · rename_i hsome
        simp only [Option.some.injEq, Prod.mk.injEq] at hstep
        obtain ⟨rfl, rfl, rfl⟩ := hstep
        have hindex : (b.txq.availRing (b.seen.toNat % b.txq.qsize)).toNat = 0 := by
          rw [h.single]
          rfl
        refine ⟨{ b with
            seen := b.seen + 1
            wire := b.wire ++ [(List.range ((b.txq.desc 0).len - netHdrLen)).map fun i =>
              b.txBuf (netHdrLen + i)] }, ?_, ⟨h.pos, h.apart, h.fits, h.queue, h.ring, h.single,
          h.len, h.short, h.addr, h.buf, h.pc, rfl, ?_⟩, rfl, fun _ _ => rfl⟩
        · simp only [txStep, if_neg hsome, hindex]
        · dsimp only
          rw [h.wire]
  | giveBack =>
      have hused' : read16 ram (t.ring.used + 2) = b.txq.usedIdx := by
        rw [h.ring.used]
        exact h.queue.usedIdx
      simp only [txStepAt, hused', h.seen, h.next] at hstep
      split at hstep
      · cases hstep
      · rename_i hbehind
        simp only [Option.some.injEq, Prod.mk.injEq] at hstep
        obtain ⟨rfl, rfl, rfl⟩ := hstep
        obtain ⟨hgiven, hout⟩ :=
          h.giveBack (b.txq.availRing (b.txq.usedIdx.toNat % b.txq.qsize)).toNat 0
        refine ⟨_, ?_, hgiven, rfl, hout⟩
        simp only [txStep, if_neg hbehind]

end Sending

end Vajra
