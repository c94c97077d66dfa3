import Vajra.Virtqueue
import Mathlib.Data.List.Forall2
import Mathlib.Data.List.Perm.Basic

/-!
# Receiving frames (`hal_net_poll_receive`)

Driver and device take turns in any order: the device may take a descriptor or give one back
between any two iterations of the polling loop, and also between the iteration that looks at a
used entry and the `rx_post` that ends it.  It gives descriptors back in any order, each at
most once for every time it was posted, with no more bytes than the descriptor allows.

`RxInv` accounts for the eight buffers: each is waiting in the available ring, held by the
device, waiting in the used ring, or in the hands of the driver between looking at its entry
and posting it again.  So neither ring ever holds more than eight entries, and the free-running
indices can wrap as often as they like.
-/

namespace Vajra

open CounterRing TransitionTrace

/-- `rx_post`. -/
def rxPost (rxq : Virtq) (descIndex : BitVec 16) : Virtq :=
  virtqPublish
    { rxq with
      desc := Function.update rxq.desc descIndex.toNat
        ⟨descIndex.toNat, frameBufSize, virtqDescFWrite, 0⟩ }
    descIndex

/-- The receive queue after the posting loop of `hal_net_init`. -/
def rxInit (qsize : Nat) : Virtq :=
  ((List.range rxBufCount).filter (· < qsize)).foldl (fun rxq i => rxPost rxq (BitVec.ofNat 16 i))
    (virtqInit qsize)

/-- Where a call of `hal_net_poll_receive` stands: in its loop with so many spins left, or
about to post the descriptor it has looked at and to go on, or to return. -/
inductive RxPc where
  | idle
  | polling (maxLen spins : Nat)
  | discarding (descIndex maxLen spins : Nat)
  | finishing (descIndex maxLen : Nat) (rc : Int) (data : List UInt8)

/-- A descriptor the device has taken: its number and what the table said about it. -/
structure TakenDesc where
  index : Nat
  desc : VirtqDesc

/-- The receive queue, the buffers, the call under way, and the device: the available entry
it will look at next, and the descriptors it has taken and not given back. -/
structure RxState where
  rxq : Virtq
  bufs : Nat → Nat → UInt8
  pc : RxPc
  seen : BitVec 16
  taken : List TakenDesc

/-- The state after `hal_net_init`. -/
def rxStart (qsize : Nat) : RxState :=
  { rxq := rxInit qsize, bufs := fun _ _ => 0, pc := .idle, seen := 0, taken := [] }

/-- The buffers after the device has written `data` into one of them. -/
def storeFrame (bufs : Nat → Nat → UInt8) (addr : Nat) (data : List UInt8) : Nat → Nat → UInt8 :=
  Function.update bufs addr fun i => if i < data.length then data.getD i 0 else bufs addr i

/-- The bytes `rx_bufs[desc_index] + NET_HDR_LEN` that the loop copies out. -/
def frameData (bufs : Nat → Nat → UInt8) (descIndex frameLen : Nat) : List UInt8 :=
  (List.range frameLen).map fun i => bufs descIndex (netHdrLen + i)

/-- One iteration of the loop of `hal_net_poll_receive`, up to its `rx_post`.  The count is
returned as an `int`, which it fits as long as the device keeps to the length of the buffer. -/
def pollSpin (s : RxState) (maxLen spins : Nat) : RxState :=
  if s.rxq.usedIdx ≠ s.rxq.lastUsedIdx then
    let slot := s.rxq.lastUsedIdx.toNat % s.rxq.qsize
    let descIndex := virtqUsedElemId s.rxq slot
    let totalLen := virtqUsedElemLen s.rxq slot
    let frameLen := totalLen - netHdrLen
    { s with
      rxq := { s.rxq with lastUsedIdx := s.rxq.lastUsedIdx + 1 }
      pc :=
        if totalLen < netHdrLen then .discarding descIndex maxLen spins
        else if maxLen < frameLen then .finishing descIndex maxLen (-1) []
        else .finishing descIndex maxLen frameLen (frameData s.bufs descIndex frameLen) }
  else { s with pc := .polling maxLen spins }

/-- A step of the driver (`call`, `spin`, `post`) or of the device (`take`, `giveBack`). -/
inductive RxEvent where
  | call (maxLen maxSpins : Nat)
  | spin
  | post
  | take
  | giveBack (i : Nat) (data : List UInt8)

inductive RxOutcome where
  | none
  | returned (maxLen : Nat) (rc : Int) (data : List UInt8)

def rxStep (s : RxState) : RxEvent → Option (RxState × RxOutcome)
  | .call maxLen maxSpins =>
      match s.pc with
      | .idle => some ({ s with pc := .polling maxLen maxSpins }, .none)
      | _ => none
  | .spin =>
      match s.pc with
      | .polling maxLen 0 => some ({ s with pc := .idle }, .returned maxLen 0 [])
      | .polling maxLen (spins+1) => some (pollSpin s maxLen spins, .none)
      | _ => none
  | .post =>
      match s.pc with
      | .discarding descIndex maxLen spins =>
          some ({ s with rxq := rxPost s.rxq (BitVec.ofNat 16 descIndex)
                         pc := .polling maxLen spins }, .none)
      | .finishing descIndex maxLen rc data =>
          some ({ s with rxq := rxPost s.rxq (BitVec.ofNat 16 descIndex), pc := .idle },
            .returned maxLen rc data)
      | _ => none
  | .take =>
      if s.seen = s.rxq.availIdx then none
      else
        let index := (s.rxq.availRing (s.seen.toNat % s.rxq.qsize)).toNat
        some ({ s with seen := s.seen + 1, taken := ⟨index, s.rxq.desc index⟩ :: s.taken }, .none)
  | .giveBack i data =>
      match s.taken[i]? with
      | some t =>
          if data.length ≤ t.desc.len ∧ t.desc.flags = virtqDescFWrite then
            some ({ s with rxq := s.rxq.giveBack t.index data.length
                           bufs := storeFrame s.bufs t.desc.addr data
                           taken := s.taken.eraseIdx i }, .none)
          else none
      | none => none

abbrev RxRecord := Transition RxState RxEvent RxOutcome

/-- A run from the end of `hal_net_init` on. -/
abbrev RxRun (qsize : Nat) (tr : List RxRecord) (s : RxState) : Prop :=
  Trace rxStep (rxStart qsize) tr s

/-- What the device gave back in this step, header included. -/
def frameReturned (r : RxRecord) : Option (List UInt8) :=
  match r.event with
  | .giveBack _ data => some data
  | _ => none

/-- The frames the device gave back, oldest first. -/
def framesReturned (tr : List RxRecord) : List (List UInt8) := observed frameReturned tr

/-- A result of `hal_net_poll_receive` other than 0, with the `max_len` of the call. -/
structure RxReport where
  maxLen : Nat
  rc : Int
  data : List UInt8

def reportMade (r : RxRecord) : Option RxReport :=
  match r.outcome with
  | .returned maxLen rc data => if rc ≠ 0 then some ⟨maxLen, rc, data⟩ else none
  | .none => none

/-- The results other than 0, oldest first. -/
def reportsMade (tr : List RxRecord) : List RxReport := observed reportMade tr

/-- The report on a frame: its bytes behind the header and their count, or `-1` if they do
not fit. -/
def Reports (r : RxReport) (frame : List UInt8) : Prop :=
  (r.rc, r.data) =
    if r.maxLen < frame.length - netHdrLen then (-1, [])
    else (((frame.length - netHdrLen : Nat) : Int), frame.drop netHdrLen)

/-- The frame has bytes behind its header. -/
def nonEmptyFrame (frame : List UInt8) : Bool := netHdrLen < frame.length

/-- The buffers posted to the device: waiting in the available ring, or taken. -/
def RxState.posted (s : RxState) : List Nat :=
  s.rxq.available s.seen ++ s.taken.map TakenDesc.index

/-- The buffers in used entries that are not consumed. -/
def RxState.unconsumed (s : RxState) : List Nat := s.rxq.used.map Prod.fst

/-- The buffer the driver has in its hands. -/
def RxPc.inHand : RxPc → List Nat
  | .idle | .polling _ _ => []
  | .discarding descIndex _ _ | .finishing descIndex _ _ _ => [descIndex]

/-- The report a call is about to return with. -/
def RxPc.report : RxPc → List RxReport
  | .finishing _ maxLen rc data => if rc ≠ 0 then [⟨maxLen, rc, data⟩] else []
  | _ => []

/-- The descriptor `rx_post` sets up. -/
def rxDesc (descIndex : Nat) : VirtqDesc := ⟨descIndex, frameBufSize, virtqDescFWrite, 0⟩

/-- The frame stands in the buffer. -/
def StoredAt (bufs : Nat → Nat → UInt8) (descIndex : Nat) (frame : List UInt8) : Prop :=
  ∀ i < frame.length, bufs descIndex i = frame.getD i 0

/-- The used entry announces the frame, and its buffer holds it. -/
def Announces (bufs : Nat → Nat → UInt8) (e : Nat × Nat) (frame : List UInt8) : Prop :=
  e.2 = frame.length ∧ frame.length ≤ frameBufSize ∧ StoredAt bufs e.1 frame

/-- The frames given back are those consumed, each reported, and those in the used ring. -/
def RxAccounted (tr : List RxRecord) (s : RxState) : Prop :=
  ∃ consumed pending, framesReturned tr = consumed ++ pending ∧
    List.Forall₂ (Announces s.bufs) s.rxq.used pending ∧
    List.Forall₂ Reports (reportsMade tr ++ s.pc.report) (consumed.filter nonEmptyFrame)

/-- The rings and the buffers are in order, also in the middle of a call. -/
structure RxInv (s : RxState) : Prop where
  size : s.rxq.qsize ∣ 2 ^ 16
  room : rxBufCount ≤ s.rxq.qsize
  next : s.rxq.nextAvailIdx = s.rxq.availIdx
  buffers : (s.posted ++ s.unconsumed ++ s.pc.inHand).Perm (List.range rxBufCount)
  described : ∀ d ∈ s.rxq.available s.seen, s.rxq.desc d = rxDesc d
  taken : ∀ t ∈ s.taken, t.desc = rxDesc t.index

section Steps

variable {s : RxState}

theorem RxInv.count (h : RxInv s) :
    (s.rxq.available s.seen).length + s.taken.length + s.rxq.used.length + s.pc.inHand.length =
      rxBufCount := by
  have hlength := h.buffers.length_eq
  simpa only [RxState.posted, RxState.unconsumed, List.length_append, List.length_map,
    List.length_range] using hlength

theorem RxInv.nodup (h : RxInv s) : (s.posted ++ s.unconsumed ++ s.pc.inHand).Nodup :=
  h.buffers.nodup_iff.mpr List.nodup_range

theorem RxInv.lt (h : RxInv s) {d : Nat} (hd : d ∈ s.posted ++ s.unconsumed ++ s.pc.inHand) :
    d < rxBufCount :=
  List.mem_range.mp (h.buffers.mem_iff.mp hd)

theorem RxInv.pos (h : RxInv s) : 0 < s.rxq.qsize :=
  Nat.lt_of_lt_of_le (by decide) h.room

/-- The ring after `rx_post`. -/
theorem available_rxPost {rxq : Virtq} {seen : BitVec 16} (hsize : rxq.qsize ∣ 2 ^ 16)
    (hnext : rxq.nextAvailIdx = rxq.availIdx)
    (hroom : (rxq.available seen).length < rxBufCount) (hcap : rxBufCount ≤ rxq.qsize)
    (descIndex : BitVec 16) :
    (rxPost rxq descIndex).available seen = rxq.available seen ++ [descIndex.toNat] := by
  have hposted := @available_publish
    { rxq with
      desc := Function.update rxq.desc descIndex.toNat
        ⟨descIndex.toNat, frameBufSize, virtqDescFWrite, 0⟩ }
    seen hsize hnext
  exact hposted (Nat.lt_of_lt_of_le hroom hcap) (Nat.lt_trans hroom (by decide)) descIndex

/-- **Posting the buffer in hand** puts it behind those in the available ring. -/
theorem RxInv.post (h : RxInv s) {d : Nat} (hhand : s.pc.inHand = [d]) {pc : RxPc}
    (hpc : pc.inHand = []) :
    RxInv { s with rxq := rxPost s.rxq (BitVec.ofNat 16 d), pc := pc } := by
  have hcount := h.count
  rw [hhand, List.length_singleton] at hcount
  have hd : d < rxBufCount := h.lt (by simp [hhand])
  have htoNat : (BitVec.ofNat 16 d).toNat = d := by
    rw [BitVec.toNat_ofNat, Nat.mod_eq_of_lt (Nat.lt_trans hd (by decide))]
  have hroom : (s.rxq.available s.seen).length < rxBufCount := by omega
  have havail := available_rxPost h.size h.next hroom h.room (BitVec.ofNat 16 d)
  rw [htoNat] at havail
  refine ⟨h.size, h.room, rfl, List.perm_iff_count.mpr fun a => ?_, fun e he => ?_, h.taken⟩
  · have hold := List.perm_iff_count.mp h.buffers a
    have hused : (rxPost s.rxq (BitVec.ofNat 16 d)).used = s.rxq.used := rfl
    simp only [RxState.posted, RxState.unconsumed, hhand, hpc, havail, hused, List.count_append,
      List.count_nil] at hold ⊢
    omega
  · rw [havail, List.mem_append, List.mem_singleton] at he
    have hdesc : (rxPost s.rxq (BitVec.ofNat 16 d)).desc =
        Function.update s.rxq.desc d (rxDesc d) := by
      unfold rxPost virtqPublish rxDesc
      rw [htoNat]
    rw [hdesc]
    by_cases heq : e = d
    · rw [heq, Function.update_self]
    · rw [Function.update_of_ne heq]
      exact h.described e (he.resolve_right heq)

/-- **Taking a descriptor**: the device finds it as `rx_post` set it up. -/
theorem RxInv.take (h : RxInv s) (hsome : s.seen ≠ s.rxq.availIdx) :
    RxInv { s with
      seen := s.seen + 1
      taken := ⟨(s.rxq.availRing (s.seen.toNat % s.rxq.qsize)).toNat,
        s.rxq.desc (s.rxq.availRing (s.seen.toNat % s.rxq.qsize)).toNat⟩ :: s.taken } := by
  have hpop := available_take h.size h.pos hsome
  generalize (s.rxq.availRing (s.seen.toNat % s.rxq.qsize)).toNat = d at hpop
  have hdesc := h.described
  rw [hpop] at hdesc
  refine ⟨h.size, h.room, h.next, List.perm_iff_count.mpr fun a => ?_, fun e he => ?_,
    fun t ht => ?_⟩
  · have hold := List.perm_iff_count.mp h.buffers a
    simp only [RxState.posted, RxState.unconsumed, hpop, List.count_append, List.count_cons,
      List.map_cons] at hold ⊢
    omega
  · exact hdesc e (List.mem_cons_of_mem _ he)
  · rcases List.mem_cons.mp ht with rfl | ht
    · exact hdesc d List.mem_cons_self
    · exact h.taken t ht

/-- **Looking at a used entry** takes its buffer into the hands of the driver. -/
theorem RxInv.look (h : RxInv s) (hsome : s.rxq.usedIdx ≠ s.rxq.lastUsedIdx)
    (hhand : s.pc.inHand = []) {pc : RxPc}
    (hpc : pc.inHand = [virtqUsedElemId s.rxq (s.rxq.lastUsedIdx.toNat % s.rxq.qsize)]) :
    RxInv { s with rxq := { s.rxq with lastUsedIdx := s.rxq.lastUsedIdx + 1 }, pc := pc } := by
  have hpop := used_take h.size h.pos (Ne.symm hsome)
  refine ⟨h.size, h.room, h.next, List.perm_iff_count.mpr fun a => ?_, h.described, h.taken⟩
  have hold := List.perm_iff_count.mp h.buffers a
  have havail : { s.rxq with lastUsedIdx := s.rxq.lastUsedIdx + 1 }.available s.seen =
    s.rxq.available s.seen := rfl
  simp only [RxState.posted, RxState.unconsumed, hpop, hhand, hpc, havail, List.count_append,
    List.count_cons, List.map_cons, List.count_nil] at hold ⊢
  omega

/-- **Giving a descriptor back** puts its buffer behind those in the used ring. -/
theorem RxInv.giveBack (h : RxInv s) {i : Nat} {t : TakenDesc} (ht : s.taken[i]? = some t)
    {data : List UInt8} (hdata : data.length ≤ frameBufSize) :
    RxInv { s with
      rxq := s.rxq.giveBack t.index data.length
      bufs := storeFrame s.bufs t.desc.addr data
      taken := s.taken.eraseIdx i } ∧
    (s.rxq.giveBack t.index data.length).used = s.rxq.used ++ [(t.index, data.length)] := by
  have hmem := List.mem_of_getElem? ht
  have hcount := h.count
  have hpos := List.length_pos_of_mem hmem
  have hlt : t.index < rxBufCount := h.lt (by
    simp only [RxState.posted, List.mem_append, List.mem_map]
    exact Or.inl (Or.inl (Or.inr ⟨t, hmem, rfl⟩)))
  have hroom := h.room
  have hused : (s.rxq.giveBack t.index data.length).used =
      s.rxq.used ++ [(t.index, data.length)] := by
    simp only [rxBufCount, frameBufSize] at *
    exact used_giveBack h.size (by omega) (by omega) (by omega) (by omega)
  refine ⟨⟨h.size, h.room, h.next, List.perm_iff_count.mpr fun a => ?_, h.described,
    fun u hu => h.taken u (List.mem_of_mem_eraseIdx hu)⟩, hused⟩
  obtain ⟨hi, rfl⟩ := List.getElem?_eq_some_iff.mp ht
  have hperm := List.perm_iff_count.mp ((List.getElem_cons_eraseIdx_perm hi).map TakenDesc.index) a
  have hold := List.perm_iff_count.mp h.buffers a
  have havail : (s.rxq.giveBack s.taken[i].index data.length).available s.seen =
    s.rxq.available s.seen := rfl
  simp only [RxState.posted, RxState.unconsumed, hused, havail, List.count_append,
    List.count_cons, List.map_cons, List.map_append, List.map_nil, List.count_nil] at hold hperm ⊢
  omega

/-- The bytes copied out of a buffer that holds the frame. -/
theorem frameData_stored {bufs : Nat → Nat → UInt8} {d : Nat} {frame : List UInt8}
    (h : StoredAt bufs d frame) : frameData bufs d (frame.length - netHdrLen) =
      frame.drop netHdrLen := by
  refine List.ext_getElem (by simp [frameData]) fun i h1 h2 => ?_
  have hlt : netHdrLen + i < frame.length := by
    rw [List.length_drop] at h2
    omega
  simp only [frameData, List.getElem_map, List.getElem_range, List.getElem_drop]
  rw [h _ hlt, ← List.getElem_eq_getD]

/-- What the loop makes of a used entry: the frame is reported if it is not empty. -/
theorem reports_look {bufs : Nat → Nat → UInt8} {d maxLen spins : Nat} {frame : List UInt8}
    (h : StoredAt bufs d frame) :
    List.Forall₂ Reports
      (RxPc.report (if frame.length < netHdrLen then .discarding d maxLen spins
        else if maxLen < frame.length - netHdrLen then .finishing d maxLen (-1) []
        else .finishing d maxLen (frame.length - netHdrLen : Nat)
          (frameData bufs d (frame.length - netHdrLen))))
      ([frame].filter nonEmptyFrame) := by
  by_cases hempty : frame.length ≤ netHdrLen
  · have hfilter : [frame].filter nonEmptyFrame = [] := by
      simpa [nonEmptyFrame] using hempty
    have hzero : frame.length - netHdrLen = 0 := Nat.sub_eq_zero_of_le hempty
    rw [hfilter, hzero, if_neg (Nat.not_lt_zero maxLen)]
    split
    · exact .nil
    · exact .nil
  · have hfilter : [frame].filter nonEmptyFrame = [frame] := by
      simpa [nonEmptyFrame] using hempty
    rw [hfilter, if_neg (by omega), frameData_stored h]
    split
    · rename_i hlong
      refine .cons ?_ .nil
      rw [Reports, if_pos hlong]
    · rename_i hfits
      have hrc : ((frame.length - netHdrLen : Nat) : Int) ≠ 0 := by omega
      rw [RxPc.report, if_pos hrc]
      refine .cons ?_ .nil
      rw [Reports, if_neg hfits]

theorem framesReturned_cons (r : RxRecord) (tr : List RxRecord) :
    framesReturned (r :: tr) = framesReturned tr ++ (frameReturned r).toList :=
  observed_cons frameReturned r tr

theorem reportsMade_cons (r : RxRecord) (tr : List RxRecord) :
    reportsMade (r :: tr) = reportsMade tr ++ (reportMade r).toList :=
  observed_cons reportMade r tr

/-- A step that neither gives a frame back nor looks at one. -/
theorem RxAccounted.same {tr : List RxRecord} {r : RxRecord} {s' : RxState} (h : RxAccounted tr s)
    (hframe : frameReturned r = none) (hused : s'.rxq.used = s.rxq.used) (hbufs : s'.bufs = s.bufs)
    (hreport : (reportMade r).toList ++ s'.pc.report = s.pc.report) : RxAccounted (r :: tr) s' := by
  obtain ⟨consumed, pending, hreturned, hpending, hreports⟩ := h
  refine ⟨consumed, pending, ?_, ?_, ?_⟩
  · rw [framesReturned_cons, hframe, Option.toList_none, List.append_nil, hreturned]
  · rw [hused, hbufs]
    exact hpending
  · rw [reportsMade_cons, List.append_assoc, hreport]
    exact hreports

/-- Looking at a used entry accounts for its frame. -/
theorem RxAccounted.look {tr : List RxRecord} {r : RxRecord} (h : RxAccounted tr s) (hinv : RxInv s)
    (hframe : frameReturned r = none) (hmade : reportMade r = none) (hidle : s.pc.report = [])
    (hsome : s.rxq.usedIdx ≠ s.rxq.lastUsedIdx) (maxLen spins : Nat) :
    RxAccounted (r :: tr) (pollSpin s maxLen spins) := by
  obtain ⟨consumed, pending, hreturned, hpending, hreports⟩ := h
  have hpop := used_take hinv.size hinv.pos (Ne.symm hsome)
  unfold pollSpin
  rw [if_pos hsome]
  dsimp only
  rw [hpop] at hpending
  generalize virtqUsedElemId s.rxq (s.rxq.lastUsedIdx.toNat % s.rxq.qsize) = d at hpending ⊢
  generalize virtqUsedElemLen s.rxq (s.rxq.lastUsedIdx.toNat % s.rxq.qsize) = len at hpending ⊢
  cases hpending with
  | @cons _ frame _ rest hhead hrest =>
      obtain ⟨hlen, -, hstored⟩ := hhead
      dsimp only at hlen hstored
      subst hlen
      refine ⟨consumed ++ [frame], rest, ?_, hrest, ?_⟩
      · rw [framesReturned_cons, hframe, Option.toList_none, List.append_nil, hreturned,
          List.append_assoc, List.singleton_append]
      · rw [reportsMade_cons, hmade, Option.toList_none, List.append_nil, List.filter_append]
        rw [hidle, List.append_nil] at hreports
        exact List.rel_append hreports (reports_look hstored)

/-- Giving a frame back: it waits behind the others, whose buffers are not touched. -/
theorem RxAccounted.giveBack {tr : List RxRecord} {r : RxRecord} (h : RxAccounted tr s) (hinv : RxInv s)
    {i : Nat} {t : TakenDesc} (ht : s.taken[i]? = some t) {data : List UInt8}
    (hdata : data.length ≤ frameBufSize) (hframe : frameReturned r = some data)
    (hmade : reportMade r = none) :
    RxAccounted (r :: tr) { s with
      rxq := s.rxq.giveBack t.index data.length
      bufs := storeFrame s.bufs t.desc.addr data
      taken := s.taken.eraseIdx i } := by
  obtain ⟨consumed, pending, hreturned, hpending, hreports⟩ := h
  have hmem := List.mem_of_getElem? ht
  have haddr : t.desc.addr = t.index := by rw [hinv.taken t hmem, rxDesc]
  have hfresh : ∀ e ∈ s.rxq.used, e.1 ≠ t.index := by
    intro e he heq
    have hposted : e.1 ∈ s.posted := by
      rw [heq]
      exact List.mem_append_right _ (List.mem_map_of_mem hmem)
    have hdisjoint := (List.nodup_append.mp (List.nodup_append.mp hinv.nodup).1).2.2
    exact hdisjoint e.1 hposted e.1 (List.mem_map_of_mem he) rfl
  refine ⟨consumed, pending ++ [data], ?_, ?_, ?_⟩
  · rw [framesReturned_cons, hframe, Option.toList_some, hreturned, List.append_assoc]
  · rw [(hinv.giveBack ht hdata).2, haddr]
    refine List.rel_append ?_ (.cons ⟨rfl, hdata, fun j hj => ?_⟩ .nil)
    · refine List.Forall₂.imp (fun e frame he => ?_)
        ((List.forall₂_and_left _ _).mpr ⟨hfresh, hpending⟩)
      obtain ⟨hne, hlen, hle, hstored⟩ := he
      refine ⟨hlen, hle, fun j hj => ?_⟩
      dsimp only
      rw [storeFrame, Function.update_of_ne hne]
      exact hstored j hj
    · simp [storeFrame, hj]
  · rw [reportsMade_cons, hmade, Option.toList_none, List.append_nil]
    exact hreports

/-- **One step** of driver or device. -/
theorem rxStep_inv {tr : List RxRecord} {s s' : RxState} {e : RxEvent} {o : RxOutcome}
    (hstep : rxStep s e = some (s', o)) (hinv : RxInv s) (hacc : RxAccounted tr s) :
    RxInv s' ∧ RxAccounted (⟨s, e, o, s'⟩ :: tr) s' := by
  cases e with
  | call maxLen maxSpins =>
      cases hpc : s.pc with
      | idle =>
          simp only [rxStep, hpc, Option.some.injEq, Prod.mk.injEq] at hstep
          obtain ⟨rfl, rfl⟩ := hstep
          have hbuffers := hinv.buffers
          rw [hpc] at hbuffers
          exact ⟨⟨hinv.size, hinv.room, hinv.next, hbuffers, hinv.described, hinv.taken⟩,
            hacc.same rfl rfl rfl (by rw [hpc]; rfl)⟩
      | _ => simp [rxStep, hpc] at hstep
  | spin =>
      cases hpc : s.pc with
      | polling maxLen spins =>
          have hbuffers := hinv.buffers
          rw [hpc] at hbuffers
          cases spins with
          | zero =>
              simp only [rxStep, hpc, Option.some.injEq, Prod.mk.injEq] at hstep
              obtain ⟨rfl, rfl⟩ := hstep
              exact ⟨⟨hinv.size, hinv.room, hinv.next, hbuffers, hinv.described, hinv.taken⟩,
                hacc.same rfl rfl rfl (by rw [hpc]; rfl)⟩
          | succ spins =>
              simp only [rxStep, hpc, Option.some.injEq, Prod.mk.injEq] at hstep
              obtain ⟨rfl, rfl⟩ := hstep
              by_cases hsome : s.rxq.usedIdx ≠ s.rxq.lastUsedIdx
              · refine ⟨?_, hacc.look hinv rfl rfl (by rw [hpc]; rfl) hsome maxLen spins⟩
                unfold pollSpin
                rw [if_pos hsome]
                refine hinv.look hsome (by rw [hpc]; rfl) ?_
                split
                · rfl
                · split
                  · rfl
                  · rfl
              · unfold pollSpin
                rw [if_neg hsome]
                exact ⟨⟨hinv.size, hinv.room, hinv.next, hbuffers, hinv.described, hinv.taken⟩,
                  hacc.same rfl rfl rfl (by rw [hpc]; rfl)⟩
      | _ => simp [rxStep, hpc] at hstep
  | post =>
      cases hpc : s.pc with
      | discarding d maxLen spins =>
          simp only [rxStep, hpc, Option.some.injEq, Prod.mk.injEq] at hstep
          obtain ⟨rfl, rfl⟩ := hstep
          exact ⟨hinv.post (by rw [hpc]; rfl) rfl, hacc.same rfl rfl rfl (by rw [hpc]; rfl)⟩
      | finishing d maxLen rc data =>
          simp only [rxStep, hpc, Option.some.injEq, Prod.mk.injEq] at hstep
          obtain ⟨rfl, rfl⟩ := hstep
          refine ⟨hinv.post (by rw [hpc]; rfl) rfl, hacc.same rfl rfl rfl ?_⟩
          rw [hpc]
          by_cases hrc : rc = 0
          · simp [reportMade, RxPc.report, hrc]
          · simp [reportMade, RxPc.report, hrc]
      | _ => simp [rxStep, hpc] at hstep
  | take =>
      simp only [rxStep] at hstep
      split at hstep
      · cases hstep
      · rename_i hsome
        simp only [Option.some.injEq, Prod.mk.injEq] at hstep
        obtain ⟨rfl, rfl⟩ := hstep
        exact ⟨hinv.take hsome, hacc.same rfl rfl rfl rfl⟩
  | giveBack i data =>
      simp only [rxStep] at hstep
      split at hstep
      swap
      · cases hstep
      rename_i t ht
      split at hstep
      swap
      · cases hstep
      rename_i hfits
      simp only [Option.some.injEq, Prod.mk.injEq] at hstep
      obtain ⟨rfl, rfl⟩ := hstep
      have hdata : data.length ≤ frameBufSize := by
        have hle := hfits.1
        rw [hinv.taken t (List.mem_of_getElem? ht)] at hle
        exact hle
      exact ⟨(hinv.giveBack ht hdata).1, hacc.giveBack hinv ht hdata rfl rfl⟩

end Steps

/-- The queue after the first `n` turns of the posting loop. -/
theorem rxPost_range {qsize : Nat} (hsize : qsize ∣ 2 ^ 16) (hroom : rxBufCount ≤ qsize) {n : Nat}
    (hn : n ≤ rxBufCount) {rxq : Virtq}
    (hrxq : (List.range n).foldl (fun rxq i => rxPost rxq (BitVec.ofNat 16 i)) (virtqInit qsize) = rxq) :
    rxq.qsize = qsize ∧ rxq.nextAvailIdx = rxq.availIdx ∧ rxq.available 0 = List.range n ∧
      rxq.used = [] ∧ ∀ d < n, rxq.desc d = rxDesc d := by
  induction n generalizing rxq with
  | zero =>
      subst hrxq
      exact ⟨rfl, rfl, by simp [Virtq.available, virtqInit], by simp [Virtq.used, virtqInit],
        fun d hd => absurd hd (Nat.not_lt_zero d)⟩
  | succ n ih =>
      rw [List.range_succ, List.foldl_concat] at hrxq
      obtain ⟨hq, hnext, havail, hused, hdesc⟩ := ih (by omega) rfl
      subst hrxq
      generalize (List.range n).foldl _ (virtqInit qsize) = rxq at hq hnext havail hused hdesc ⊢
      have htoNat : (BitVec.ofNat 16 n).toNat = n := by
        rw [BitVec.toNat_ofNat, Nat.mod_eq_of_lt (Nat.lt_of_lt_of_le hn (by decide))]
      refine ⟨hq, rfl, ?_, hused, fun d hd => ?_⟩
      · rw [available_rxPost (hq ▸ hsize) hnext (by rw [havail, List.length_range]; omega)
          (hq ▸ hroom), havail, htoNat, List.range_succ]
      · unfold rxPost virtqPublish
        rw [htoNat]
        by_cases heq : d = n
        · rw [heq]
          exact Function.update_self _ _ _
        · refine (Function.update_of_ne heq _ _).trans (hdesc d (by omega))

/-- **The buffers are posted** when `hal_net_init` returns. -/
theorem rxStart_inv {qsize : Nat} (hsize : qsize ∣ 2 ^ 16) (hroom : rxBufCount ≤ qsize) :
    RxInv (rxStart qsize) ∧ RxAccounted [] (rxStart qsize) := by
  have hfilter : (List.range rxBufCount).filter (· < qsize) = List.range rxBufCount := by
    rw [List.filter_eq_self]
    intro i hi
    have hlt := List.mem_range.mp hi
    simpa using Nat.lt_of_lt_of_le hlt hroom
  obtain ⟨hq, hnext, havail, hused, hdesc⟩ := rxPost_range hsize hroom (Nat.le_refl _)
    (show _ = rxInit qsize by rw [rxInit, hfilter])
  refine ⟨⟨?_, ?_, hnext, ?_, fun d hd => ?_, fun t ht => absurd ht List.not_mem_nil⟩,
    [], [], rfl, ?_, .nil⟩
  · exact hq.symm ▸ hsize
  · exact hq.symm ▸ hroom
  · simp only [RxState.posted, RxState.unconsumed, rxStart, havail, hused, RxPc.inHand,
      List.map_nil, List.append_nil]
    exact List.Perm.refl _
  · refine hdesc d (List.mem_range.mp ?_)
    rw [← havail]
    exact hd
  · rw [show (rxStart qsize).rxq.used = [] from hused]
    exact .nil

/-- **The invariant holds in every run.** -/
theorem RxRun.inv {k : Nat} (hk : 3 ≤ k) (hk' : k ≤ 15) {tr : List RxRecord} {s : RxState}
    (hrun : RxRun (2 ^ k) tr s) : RxInv s ∧ RxAccounted tr s := by
  have hsize : 2 ^ k ∣ 2 ^ 16 := Nat.pow_dvd_pow 2 (by omega)
  have hroom : 2 ^ 3 ≤ 2 ^ k := Nat.pow_le_pow_right (by decide) hk
  exact hrun.history_invariant (fun tr s => RxInv s ∧ RxAccounted tr s) (rxStart_inv hsize hroom)
    fun tr s e o s' _ hold hstep => rxStep_inv hstep hold.1 hold.2

/-- **The receive ring loses nothing and reports nothing twice.**  For every queue size that is
a power of two and at least 8, along every run of the driver and of a device that keeps to the
rules, at every moment between two calls of `hal_net_poll_receive`: the frames the device gave
back are those consumed, followed by those in the used ring; the results other than 0 report,
in order and each once, the consumed frames that are not empty; and each of the eight buffers
is once among those posted to the device and those in an unconsumed used entry.  In a call,
every iteration of the loop consumes the oldest used entry if there is one. -/
theorem receive_ring_conservation {k : Nat} (hk : 3 ≤ k) (hk' : k ≤ 15) {tr : List RxRecord}
    {s : RxState} (hrun : RxRun (2 ^ k) tr s) :
    (s.pc = .idle →
      (∃ consumed pending, framesReturned tr = consumed ++ pending ∧
        pending.length = distance s.rxq.lastUsedIdx s.rxq.usedIdx ∧
        List.Forall₂ Reports (reportsMade tr) (consumed.filter nonEmptyFrame)) ∧
      (s.posted ++ s.unconsumed).Perm (List.range rxBufCount)) ∧
    ∀ maxLen spins, s.pc = .polling maxLen (spins + 1) → s.rxq.used ≠ [] →
      ∃ s' e, rxStep s .spin = some (s', .none) ∧ s.rxq.used = e :: s'.rxq.used := by
  obtain ⟨hinv, consumed, pending, hreturned, hpending, hreports⟩ := hrun.inv hk hk'
  refine ⟨fun hidle => ?_, fun maxLen spins hpc hused => ?_⟩
  · have hbuffers := hinv.buffers
    rw [hidle] at hreports hbuffers
    simp only [RxPc.report, List.append_nil] at hreports
    simp only [RxPc.inHand, List.append_nil] at hbuffers
    exact ⟨⟨consumed, pending, hreturned, by rw [← hpending.length_eq, used_length], hreports⟩,
      hbuffers⟩
  · have hsome : s.rxq.usedIdx ≠ s.rxq.lastUsedIdx := by
      intro heq
      exact hused (List.length_eq_zero_iff.mp (by rw [used_length, heq, distance_self]))
    have hpop := used_take hinv.size hinv.pos (Ne.symm hsome)
    refine ⟨pollSpin s maxLen spins, ?_⟩
    rw [pollSpin, if_pos hsome]
    refine ⟨_, ?_, hpop⟩
    simp only [rxStep, hpc]
    rw [pollSpin, if_pos hsome]

/-- The call has returned. -/
def RxPc.isIdle : RxPc → Bool
  | .idle => true
  | _ => false

theorem RxPc.eq_idle {pc : RxPc} (h : pc.isIdle = true) : pc = .idle := by
  cases pc with
  | idle => rfl
  | polling | discarding | finishing => cases h

/-- The device gives the second descriptor back first, with a frame of two bytes; a call
returns it. -/
theorem receive_ring_conservation_out_of_order :
    ∃ tr s, RxRun (2 ^ 3) tr s ∧ s.pc = .idle ∧
      ((reportsMade tr).map fun r => (r.rc, r.data)) = [(2, [7, 7])] ∧
      (s.posted ++ s.unconsumed).Perm (List.range rxBufCount) := by
  have hrun : (runTrace rxStep [] (rxStart (2 ^ 3)) [.take, .take, .giveBack 0 (List.replicate 12 7),
      .call 64 5, .spin, .post]).map (fun r => (r.2.pc.isIdle,
        (reportsMade r.1).map fun r => (r.rc, r.data))) = some (true, [(2, [7, 7])]) := by
    decide +kernel
  obtain ⟨tr, s, htrace, hview⟩ := exists_trace_of_runTrace hrun
  simp only [Prod.mk.injEq] at hview
  have hidle := RxPc.eq_idle hview.1
  exact ⟨tr, s, htrace, hidle, hview.2,
    ((receive_ring_conservation (by decide) (by decide) htrace).1 hidle).2⟩

end Vajra
