import Vajra.CardMemory

/-!
# The driver of the network card, from `hal_net_init` on (`hal/x86_64/virtio_net.c`)

`hal_net_init` takes the pages of both queues and of nine buffers from the allocator and posts eight
of them.  From then on calls of the driver, moves of the card and everything else that stores in memory
come in any order.  What the allocator promises keeps the eleven areas apart, so that the two halves are
independent of one another, and each is a run of its own rings (`card_refines_rings`).
-/

namespace Vajra

open ByteMemory CounterRing TransitionTrace

/-- A page for a buffer. -/
def allocDmaPage (m : Memory) : Memory × Option Nat := allocDmaPages m 1

/-- The loop of `hal_net_init` that allocates and posts the receive buffers, over the descriptors
still to come.  `alloc` is `allocDmaPage`. -/
def armBuffers (alloc : Memory → Memory × Option Nat) : List Nat → Memory → VirtqStruct →
    (Nat → Nat) → Option (Memory × VirtqStruct × (Nat → Nat))
  | [], m, rxq, rxBufs => some (m, rxq, rxBufs)
  | i :: rest, m, rxq, rxBufs =>
      match alloc m with
      | (_, none) => none
      | (m, some p) =>
          let rxBufs := Function.update rxBufs i p
          let posted := rxPostAt m.ram rxq rxBufs (BitVec.ofNat 16 i)
          armBuffers alloc rest { m with ram := posted.1 } posted.2 rxBufs

/-- `hal_net_init`, for a card that reports the two sizes, when it returns 0; the card is at rest.
`queue` is `virtqInitAt` and `page` is `allocDmaPage`. -/
def netInitWith (queue : Memory → Nat → Memory × Option (VirtqStruct × Nat))
    (page : Memory → Memory × Option Nat) (m : Memory) (rxQsize txQsize : Nat) :
    Option (Memory × RxSide × TxSide) :=
  match queue m rxQsize with
  | (_, none) => none
  | (m, some (rxq, rxPfn)) =>
      match queue m txQsize with
      | (_, none) => none
      | (m, some (txq, txPfn)) =>
          match armBuffers page ((List.range rxBufCount).filter (· < rxQsize)) m rxq fun _ => 0 with
          | none => none
          | some (m, rxq, rxBufs) =>
              match page m with
              | (_, none) => none
              | (m, some txBuf) =>
                  some (m, ⟨rxq, rxBufs, rxPfn, .idle, 0, []⟩, ⟨txq, txBuf, txPfn, .idle, 0, []⟩)

def halNetInitAt (m : Memory) (rxQsize txQsize : Nat) : Option (Memory × RxSide × TxSide) :=
  netInitWith virtqInitAt allocDmaPage m rxQsize txQsize

/-- Memory, and the two halves of driver and card. -/
structure CardState where
  ram : Mem
  rx : RxSide
  tx : TxSide

inductive CardEvent where
  | rx (e : RxEvent)
  | tx (e : TxEvent)
  | store (a : Nat) (byte : UInt8)

inductive CardOutcome where
  | rx (o : RxOutcome)
  | tx (o : TxOutcome)
  | none

/-- The pages of the driver. -/
def CardState.Owns (s : CardState) (x : Nat) : Prop :=
  RxOwns s.rx.rxq.desc s.rx.rxq.qsize s.rx.rxBufs x ∨ TxOwns s.tx.txq.desc s.tx.txq.qsize s.tx.txBuf x

instance (base q : Nat) (rxBufs : Nat → Nat) (x : Nat) : Decidable (RxOwns base q rxBufs x) :=
  inferInstanceAs (Decidable (_ ∨ _))

instance (base q txBuf x : Nat) : Decidable (TxOwns base q txBuf x) :=
  inferInstanceAs (Decidable (_ ∨ _))

instance (s : CardState) (x : Nat) : Decidable (s.Owns x) := inferInstanceAs (Decidable (_ ∨ _))

/-- A step of one half, or a store of someone else, who has other pages. -/
def cardStep (s : CardState) : CardEvent → Option (CardState × CardOutcome)
  | .rx e =>
      match rxStepAt s.ram s.rx e with
      | some (ram, rx, o) => some ({ s with ram := ram, rx := rx }, .rx o)
      | none => none
  | .tx e =>
      match txStepAt s.ram s.tx e with
      | some (ram, tx, o) => some ({ s with ram := ram, tx := tx }, .tx o)
      | none => none
  | .store a byte =>
      if s.Owns a then none else some ({ s with ram := Function.update s.ram a byte }, .none)

abbrev CardRecord := Transition CardState CardEvent CardOutcome

/-- The steps of the receiving half in a run. -/
def rxDone (r : CardRecord) : Option (RxEvent × RxOutcome) :=
  match r.event, r.outcome with
  | .rx e, .rx o => some (e, o)
  | _, _ => none

/-- The steps of the sending half in a run. -/
def txDone (r : CardRecord) : Option (TxEvent × TxOutcome) :=
  match r.event, r.outcome with
  | .tx e, .tx o => some (e, o)
  | _, _ => none

/-- A step with its outcome. -/
def stepDone {σ ε ω : Type} (r : Transition σ ε ω) : Option (ε × ω) := some (r.event, r.outcome)

/-- **The bytes are those of the two ring models**, and no byte is of both. -/
structure CardRefines (base q tbase tq : Nat) (s : CardState) (a : RxState) (b : TxState) :
    Prop where
  rx : RxRefines base q s.ram s.rx a
  tx : TxRefines tbase tq s.ram s.tx b
  apart : ∀ x, RxOwns base q s.rx.rxBufs x → ¬ TxOwns tbase tq s.tx.txBuf x

section Allocation

variable {m m' : Memory} {p n : Nat}

/-- What `alloc_dma_pages` does: the pages were not taken, now they are, and they hold zeros. -/
structure DmaPages (m m' : Memory) (p n : Nat) : Prop where
  claimed : Claimed m m' p n
  zero : ∀ x, p ≤ x → x < p + n * pageSize → m'.ram x = 0

theorem allocDmaPages_dma (h : AllocInv m) (halloc : allocDmaPages m (n : Nat) = (m', some p)) :
    DmaPages m m' p n := by
  rcases allocDmaPages_spec n h with ⟨hnone, _⟩ | ⟨p', hsome, _, _, hclaim⟩
  · rw [halloc] at hnone
    cases hnone
  · rw [halloc] at hsome hclaim
    obtain rfl : p = p' := Option.some.inj hsome
    refine ⟨hclaim, fun x hlow hhigh => ?_⟩
    unfold allocDmaPages findAndClaimContig at halloc
    split at halloc
    · cases halloc
    · have hzero := contigScan_zero (congrArg Prod.snd halloc) (x := x) hlow hhigh
      rw [halloc] at hzero
      exact hzero

theorem allocDmaPage_dma (h : AllocInv m) (halloc : allocDmaPage m = (m', some p)) :
    DmaPages m m' p 1 := by
  rw [allocDmaPage] at halloc
  exact allocDmaPages_dma (n := 1) h halloc

/-- The first page, which is aligned. -/
theorem DmaPages.page (h : DmaPages m m' p n) (hn : 0 < n) : IsPage p := by
  have hpage := (h.claimed.taken 0 hn).page
  rw [Nat.zero_mul, Nat.add_zero] at hpage
  exact hpage

/-- Clearing one page changes no other. -/
theorem DmaPages.elsewhere (h : DmaPages m m' p 1) {x : Nat} (hx : x < p ∨ p + 4096 ≤ x) :
    m'.ram x = m.ram x :=
  h.claimed.ram x (by simpa [pageSize] using hx)

/-- Pages that are handed out share no byte with pages that are taken. -/
theorem DmaPages.separated (h : DmaPages m m' p n) (hn : 0 < n) {o k : Nat} (hk : 0 < k)
    (htaken : ∀ j < k, m.Taken (o + j * pageSize)) : Separated o (k * 4096) p (n * 4096) := by
  have hold : o % pageSize = 0 := by
    have hpage := (htaken 0 hk).page.aligned
    rw [Nat.zero_mul, Nat.add_zero] at hpage
    exact hpage
  refine @Block.disjoint_of_pages ⟨o, k, false⟩ ⟨p, n, false⟩ hold (h.page hn).aligned hk hn fun i hi j hj heq => ?_
  have hsame : o + i * pageSize = p + j * pageSize := heq
  exact h.claimed.fresh j hj (hsame ▸ htaken i hi)

/-- **`virtq_init`** leaves an empty queue on cleared pages, and the card finds it there. -/
theorem virtqInitAt_spec (h : AllocInv m) {q : Nat} {v : VirtqStruct} {pfn : Nat}
    (hinit : virtqInitAt m q = (m', some (v, pfn))) :
    ∃ base, DmaPages m m' base (virtqPages q) ∧ VirtqLaid base q v ∧ v.lastUsedIdx = 0 ∧
      v.nextAvailIdx = 0 ∧ pfn = base / 4096 % 2 ^ 32 := by
  unfold virtqInitAt at hinit
  split at hinit
  · cases hinit
  · split at hinit
    · cases hinit
    · rename_i m1 base halloc
      simp only [Prod.mk.injEq, Option.some.injEq] at hinit
      obtain ⟨rfl, rfl, rfl⟩ := hinit
      exact ⟨base, allocDmaPages_dma h halloc, ⟨rfl, rfl, rfl, rfl, rfl, rfl⟩, rfl, rfl, rfl⟩

/-- A page is below 2^28, far from the limits of a page number and of a descriptor. -/
theorem IsPage.small (h : IsPage p) : p < 2 ^ 44 ∧ p < 256 ^ 8 := by
  have hcap := h.cap
  have hmem : memCap = 2 ^ 28 := rfl
  rw [hmem] at hcap
  exact ⟨Nat.lt_trans hcap (by norm_num), Nat.lt_trans hcap (by norm_num)⟩

end Allocation

/-- **The posting loop**: what holds after `n` buffers. -/
structure Armed (base q tbase tq n : Nat) (m : Memory) (rxq : VirtqStruct) (rxBufs : Nat → Nat)
    (vq : Virtq) : Prop where
  inv : AllocInv m
  rxPages : ∀ j < virtqPages q, m.Taken (base + j * pageSize)
  txPages : ∀ j < virtqPages tq, m.Taken (tbase + j * pageSize)
  bufPages : ∀ i < n, m.Taken (rxBufs i)
  queue : VirtqHolds m.ram base q rxq vq
  described : ∀ i < n, readDesc m.ram base i = rxDescAt rxBufs i
  zeroBufs : ∀ i < n, ∀ x, rxBufs i ≤ x → x < rxBufs i + 4096 → m.ram x = 0
  zeroTx : ∀ x, tbase ≤ x → x < tbase + virtqPages tq * 4096 → m.ram x = 0
  queues : Separated base (virtqPages q * 4096) tbase (virtqPages tq * 4096)
  rxApart : ∀ i < n, Separated base (virtqPages q * 4096) (rxBufs i) 4096
  txApart : ∀ i < n, Separated tbase (virtqPages tq * 4096) (rxBufs i) 4096
  bufsApart : ∀ i < n, ∀ j < n, i ≠ j → Separated (rxBufs i) 4096 (rxBufs j) 4096

theorem Separated.symm {a n b k : Nat} (h : Separated a n b k) : Separated b k a n := Or.symm h

section Init

variable {base q tbase tq n : Nat} {m : Memory} {rxq : VirtqStruct} {rxBufs : Nat → Nat} {vq : Virtq}

/-- A page that is allocated now is apart from everything before it. -/
theorem Armed.fresh (h : Armed base q tbase tq n m rxq rxBufs vq) {m' : Memory} {p : Nat}
    (halloc : DmaPages m m' p 1) :
    Separated base (virtqPages q * 4096) p 4096 ∧ Separated tbase (virtqPages tq * 4096) p 4096 ∧
      ∀ i < n, Separated (rxBufs i) 4096 p 4096 := by
  refine ⟨halloc.separated Nat.one_pos (virtqPages_pos q) h.rxPages,
    halloc.separated Nat.one_pos (virtqPages_pos tq) h.txPages, fun i hi => ?_⟩
  refine halloc.separated Nat.one_pos (o := rxBufs i) (k := 1) Nat.one_pos fun j hj => ?_
  obtain rfl : j = 0 := by omega
  rw [Nat.zero_mul, Nat.add_zero]
  exact h.bufPages i hi

/-- One turn of the loop. -/
theorem Armed.step (h : Armed base q tbase tq n m rxq rxBufs vq) (hn : n < rxBufCount)
    (hq : rxBufCount ≤ q) {m' : Memory} {p : Nat} (halloc : DmaPages m m' p 1) :
    Armed base q tbase tq (n + 1)
      { m' with ram := (rxPostAt m'.ram rxq (Function.update rxBufs n p) (BitVec.ofNat 16 n)).1 }
      (rxPostAt m'.ram rxq (Function.update rxBufs n p) (BitVec.ofNat 16 n)).2
      (Function.update rxBufs n p) (rxPost vq (BitVec.ofNat 16 n)) := by
  have htoNat : (BitVec.ofNat 16 n).toNat = n := by
    rw [BitVec.toNat_ofNat, Nat.mod_eq_of_lt (Nat.lt_trans hn (by decide))]
  have hbufs : ∀ i < n, Function.update rxBufs n p i = rxBufs i :=
    fun i hi => Function.update_of_ne (Nat.ne_of_lt hi) _ _
  have hpages := virtqTotal_le_pages q
  have hoffset := usedOffset_ge q
  -- the new page is apart from everything taken, so clearing it changes nothing there
  obtain ⟨hrx, htx, hbuf⟩ := h.fresh halloc
  have hpage := halloc.page Nat.one_pos
  have hqueue : VirtqHolds m'.ram base q rxq vq := by
    refine h.queue.congr fun x hlow hhigh => halloc.elsewhere ?_
    simp only [Separated] at hrx
    omega
  have hlt : (BitVec.ofNat 16 n).toNat < q := by
    rw [htoNat]
    omega
  have hout : ∀ x, x < base ∨ base + usedOffset q ≤ x →
      (rxPostAt m'.ram rxq (Function.update rxBufs n p) (BitVec.ofNat 16 n)).1 x = m'.ram x :=
    fun x hx => rxPostAt_outside hqueue.laid hlt hx
  have htaken : ∀ o, m.Taken o → Memory.Taken { m' with
      ram := (rxPostAt m'.ram rxq (Function.update rxBufs n p) (BitVec.ofNat 16 n)).1 } o := by
    intro o ho
    have hold := halloc.claimed.kept o ho
    exact ⟨hold.page, hold.used, hold.notFree⟩
  have hinv := halloc.claimed.inv
  have hnew : ∀ i < n + 1, i < n ∨ i = n := fun i hi => by omega
  refine ⟨⟨hinv.top, hinv.next, hinv.free, hinv.nodup⟩, fun j hj => htaken _ (h.rxPages j hj),
    fun j hj => htaken _ (h.txPages j hj), fun i hi => ?_,
    hqueue.rxPost _ hlt, fun i hi => ?_, fun i hi x hlow hhigh => ?_, fun x hlow hhigh => ?_,
    h.queues, fun i hi => ?_, fun i hi => ?_, fun i hi j hj hne => ?_⟩
  · rcases hnew i hi with hold | rfl
    · rw [hbufs i hold]
      exact htaken _ (h.bufPages i hold)
    · rw [Function.update_self]
      have hfresh := halloc.claimed.taken 0 Nat.one_pos
      rw [Nat.zero_mul, Nat.add_zero] at hfresh
      exact ⟨hfresh.page, hfresh.used, hfresh.notFree⟩
  · have hfits : (rxDescAt (Function.update rxBufs n p) (BitVec.ofNat 16 n).toNat).Fits := by
      refine ⟨?_, show frameBufSize < 256 ^ 4 by decide, show virtqDescFWrite < 256 ^ 2 by decide,
        show 0 < 256 ^ 2 by decide⟩
      rw [htoNat]
      simp only [rxDescAt, Function.update_self]
      exact hpage.small.2
    dsimp only
    rw [readDesc_rxPostAt hqueue.laid hfits (by omega), htoNat]
    rcases hnew i hi with hold | rfl
    · rw [if_neg (Nat.ne_of_lt hold), rxDescAt, hbufs i hold, ← rxDescAt, ← h.described i hold]
      refine readDesc_congr fun x hlow hhigh => halloc.elsewhere ?_
      simp only [Separated, virtqTotal] at hrx hpages
      omega
    · rw [if_pos rfl]
  · rcases hnew i hi with hold | rfl
    · rw [hbufs i hold] at hlow hhigh
      have hapart := h.rxApart i hold
      have hthis := hbuf i hold
      simp only [Separated, virtqTotal] at hapart hthis hpages
      dsimp only
      rw [hout x (by omega), halloc.elsewhere (by omega)]
      exact h.zeroBufs i hold x hlow hhigh
    · rw [Function.update_self] at hlow hhigh
      simp only [Separated, virtqTotal] at hrx hpages
      dsimp only
      rw [hout x (by omega)]
      exact halloc.zero x hlow (by simpa [pageSize] using hhigh)
  · have hapart := h.queues
    simp only [Separated, virtqTotal] at hapart htx hpages
    dsimp only
    rw [hout x (by omega), halloc.elsewhere (by omega)]
    exact h.zeroTx x hlow hhigh
  · rcases hnew i hi with hold | rfl
    · rw [hbufs i hold]
      exact h.rxApart i hold
    · rw [Function.update_self]
      exact hrx
  · rcases hnew i hi with hold | rfl
    · rw [hbufs i hold]
      exact h.txApart i hold
    · rw [Function.update_self]
      exact htx
  · rcases hnew i hi with hi' | rfl
    · rcases hnew j hj with hj' | rfl
      · rw [hbufs i hi', hbufs j hj']
        exact h.bufsApart i hi' j hj' hne
      · rw [hbufs i hi', Function.update_self]
        exact hbuf i hi'
    · rcases hnew j hj with hj' | rfl
      · rw [hbufs j hj', Function.update_self]
        exact (hbuf j hj').symm
      · exact absurd rfl hne

/-- **The whole loop.** -/
theorem armBuffers_spec (count : Nat) (hcount : n + count = rxBufCount) (hq : rxBufCount ≤ q)
    (h : Armed base q tbase tq n m rxq rxBufs vq) {m' : Memory} {rxq' : VirtqStruct}
    {rxBufs' : Nat → Nat}
    {alloc : Memory → Memory × Option Nat}
    (halloc : ∀ m m' p, AllocInv m → alloc m = (m', some p) → DmaPages m m' p 1)
    (harm : armBuffers alloc (List.range' n count) m rxq rxBufs = some (m', rxq', rxBufs')) :
    Armed base q tbase tq rxBufCount m' rxq' rxBufs'
      ((List.range' n count).foldl (fun vq i => rxPost vq (BitVec.ofNat 16 i)) vq) := by
  induction count generalizing n m rxq rxBufs vq with
  | zero =>
      simp only [List.range'_zero, armBuffers, Option.some.injEq, Prod.mk.injEq] at harm
      obtain ⟨rfl, rfl, rfl⟩ := harm
      rw [Nat.add_zero] at hcount
      exact hcount ▸ h
  | succ count ih =>
      rw [List.range'_succ] at harm
      rcases hpage : alloc m with ⟨m1, _ | p⟩
      · simp only [armBuffers, hpage] at harm
        cases harm
      · simp only [armBuffers, hpage] at harm
        exact ih (by omega) (h.step (by omega) hq (halloc m m1 p h.inv hpage)) harm

/-- **Where the receiving half starts**: its eight buffers are posted. -/
theorem Armed.rxRefines {k : Nat} (hk : 3 ≤ k) (hk15 : k ≤ 15) (hpage : IsPage base)
    (h : Armed base (2 ^ k) tbase tq rxBufCount m rxq rxBufs (rxInit (2 ^ k))) :
    RxRefines base (2 ^ k) m.ram ⟨rxq, rxBufs, base / 4096 % 2 ^ 32, .idle, 0, []⟩
      (rxStart (2 ^ k)) := by
  have hroom : 2 ^ 3 ≤ 2 ^ k := Nat.pow_le_pow_right (by decide) hk
  refine ⟨⟨hroom, h.rxApart, h.bufsApart, fun i hi => (h.bufPages i hi).page.small.2⟩, h.queue, ?_,
    h.described, fun i hi j hj => ?_, rfl, rfl, rfl⟩
  · rw [RxSide.ring, h.queue.laid.qsize]
    exact vringAt_laid hk15 hpage.aligned hpage.small.1
  · simp only [frameBufSize] at hj ⊢
    exact h.zeroBufs i hi _ (by omega) (by omega)

end Init

/-- **Where the sending half starts**: its queue and its buffer hold zeros. -/
theorem TxRefines.start {tbase txBuf k : Nat} {ram : Mem} {txq : VirtqStruct} (hk : k ≤ 15)
    (hlaid : VirtqLaid tbase (2 ^ k) txq) (hlast : txq.lastUsedIdx = 0) (hnext : txq.nextAvailIdx = 0)
    (hpage : IsPage tbase) (hbuf : IsPage txBuf)
    (hapart : Separated tbase (virtqPages (2 ^ k) * 4096) txBuf 4096)
    (hzero : ∀ x, tbase ≤ x → x < tbase + virtqPages (2 ^ k) * 4096 → ram x = 0)
    (hzeroBuf : ∀ x, txBuf ≤ x → x < txBuf + 4096 → ram x = 0) :
    TxRefines tbase (2 ^ k) ram ⟨txq, txBuf, tbase / 4096 % 2 ^ 32, .idle, 0, []⟩
      (txStart (2 ^ k)) := by
  have htotal := virtqTotal_le_pages (2 ^ k)
  have hpos : 0 < 2 ^ k := Nat.two_pow_pos k
  have hdesc : (readDesc ram tbase 0).len = 0 := by
    have hbytes : ∀ x, tbase ≤ x → x < tbase + 16 → ram x = (fun _ => 0 : Mem) x := by
      intro x hlow hhigh
      unfold virtqTotal at htotal
      have hoffset := usedOffset_ge (2 ^ k)
      exact hzero x hlow (by omega)
    rw [readDesc_congr fun x hlow hhigh => hbytes x (by omega) (by omega)]
    rfl
  refine ⟨hpos, hapart, hbuf.small.2, .init hlaid hlast hnext fun x hlow hhigh => hzero x hlow (by omega),
    ?_, fun _ => rfl, hdesc, Nat.zero_le _, fun hne => absurd rfl hne, fun j hj => ?_, rfl, rfl, rfl⟩
  · rw [TxSide.ring, hlaid.qsize]
    exact vringAt_laid hk hpage.aligned hpage.small.1
  · simp only [frameBufSize] at hj ⊢
    exact hzeroBuf _ (by omega) (by omega)

/-- What went before a successful return. -/
theorem netInitWith_some {queue : Memory → Nat → Memory × Option (VirtqStruct × Nat)}
    {page : Memory → Memory × Option Nat} {m m' : Memory} {q tq : Nat} {rx : RxSide} {tx : TxSide}
    (h : netInitWith queue page m q tq = some (m', rx, tx)) :
    ∃ m1 rxq rxPfn m2 txq txPfn m3 rxq' rxBufs txBuf,
      queue m q = (m1, some (rxq, rxPfn)) ∧ queue m1 tq = (m2, some (txq, txPfn)) ∧
      armBuffers page ((List.range rxBufCount).filter (· < q)) m2 rxq (fun _ => 0) =
        some (m3, rxq', rxBufs) ∧
      page m3 = (m', some txBuf) ∧ rx = ⟨rxq', rxBufs, rxPfn, .idle, 0, []⟩ ∧
      tx = ⟨txq, txBuf, txPfn, .idle, 0, []⟩ := by
  unfold netInitWith at h
  generalize (List.range rxBufCount).filter (· < q) = todo at h ⊢
  split at h
  · cases h
  rename_i m1 rxq rxPfn hrxq
  split at h
  · cases h
  rename_i m2 txq txPfn htxq
  split at h
  · cases h
  rename_i m3 rxq' rxBufs harm
  split at h
  · cases h
  rename_i m4 txBuf htxBuf
  simp only [Option.some.injEq, Prod.mk.injEq] at h
  obtain ⟨rfl, rfl, rfl⟩ := h
  exact ⟨m1, rxq, rxPfn, m2, txq, txPfn, m3, rxq', rxBufs, txBuf, hrxq, htxq, harm, htxBuf, rfl, rfl⟩

/-- **`hal_net_init`** leaves the state in which both ring models start. -/
theorem halNetInitAt_refines {m m' : Memory} {rx : RxSide} {tx : TxSide} {k k' : Nat}
    (h : AllocInv m) (hk : 3 ≤ k) (hk15 : k ≤ 15) (hk' : k' ≤ 15)
    (hinit : halNetInitAt m (2 ^ k) (2 ^ k') = some (m', rx, tx)) :
    ∃ base tbase, CardRefines base (2 ^ k) tbase (2 ^ k') ⟨m'.ram, rx, tx⟩ (rxStart (2 ^ k))
      (txStart (2 ^ k')) := by
  have hq : 2 ^ 3 ≤ 2 ^ k := Nat.pow_le_pow_right (by decide) hk
  have hfilter : (List.range rxBufCount).filter (· < 2 ^ k) = List.range' 0 rxBufCount := by
    rw [← List.range_eq_range', List.filter_eq_self]
    intro i hi
    have hlt : i < 2 ^ 3 := List.mem_range.mp hi
    simpa using Nat.lt_of_lt_of_le hlt hq
  rw [halNetInitAt] at hinit
  obtain ⟨m1, rxq, rxPfn, m2, txq, txPfn, m3, rxq', rxBufs, txBuf, hrxq, htxq, harm, htxBuf, rfl, rfl⟩ :=
    netInitWith_some hinit
  rw [hfilter] at harm
  obtain ⟨base, hrx, hlaid, hlast, hnext, rfl⟩ := virtqInitAt_spec h hrxq
  obtain ⟨tbase, htx, htlaid, htlast, htnext, rfl⟩ := virtqInitAt_spec hrx.claimed.inv htxq
  have hrxpos := virtqPages_pos (2 ^ k)
  have htxpos := virtqPages_pos (2 ^ k')
  have hsep := htx.separated htxpos hrxpos hrx.claimed.taken
  have hpages := virtqTotal_le_pages (2 ^ k)
  -- the pages of the transmit queue are cleared after those of the receive queue
  have hzeroRx : ∀ x, base ≤ x → x < base + virtqPages (2 ^ k) * 4096 → m2.ram x = 0 := by
    intro x hlow hhigh
    rw [htx.claimed.ram x, hrx.zero x hlow (by simpa [pageSize] using hhigh)]
    simp only [Separated, pageSize] at hsep ⊢
    omega
  have harmed : Armed base (2 ^ k) tbase (2 ^ k') 0 m2 rxq (fun _ => 0) (virtqInit (2 ^ k)) := by
    refine ⟨htx.claimed.inv, fun j hj => htx.claimed.kept _ (hrx.claimed.taken j hj),
      htx.claimed.taken, fun i hi => absurd hi (Nat.not_lt_zero i), ?_,
      fun i hi => absurd hi (Nat.not_lt_zero i), fun i hi => absurd hi (Nat.not_lt_zero i), ?_, hsep,
      fun i hi => absurd hi (Nat.not_lt_zero i), fun i hi => absurd hi (Nat.not_lt_zero i),
      fun i hi => absurd hi (Nat.not_lt_zero i)⟩
    · exact .init hlaid hlast hnext fun x hlow hhigh => hzeroRx x hlow (by omega)
    · exact fun x hlow hhigh => htx.zero x hlow (by simpa [pageSize] using hhigh)
  have hall := armBuffers_spec rxBufCount (Nat.zero_add _) hq harmed
    (fun _ _ _ hinv halloc => allocDmaPage_dma hinv halloc) harm
  have hbuf := allocDmaPage_dma hall.inv htxBuf
  obtain ⟨hrxBuf, htxOwn, hbufs⟩ := hall.fresh hbuf
  refine ⟨base, tbase, ?_, ?_, ?_⟩
  · have hposted : Armed base (2 ^ k) tbase (2 ^ k') rxBufCount m3 rxq' rxBufs (rxInit (2 ^ k)) := by
      rw [rxInit, hfilter]
      exact hall
    refine (hposted.rxRefines hk hk15 (hrx.page hrxpos)).congr fun x hx => hbuf.elsewhere ?_
    rcases hx with ⟨hlow, hhigh⟩ | ⟨i, hi, hlow, hhigh⟩
    · simp only [Separated] at hrxBuf
      omega
    · have hsepi := hbufs i hi
      simp only [Separated] at hsepi hlow hhigh
      omega
  · refine .start hk' htlaid htlast htnext (htx.page htxpos) (hbuf.page Nat.one_pos) htxOwn
      (fun x hlow hhigh => ?_) fun x hlow hhigh => hbuf.zero x hlow (by simpa [pageSize] using hhigh)
    simp only [Separated] at htxOwn
    exact (hbuf.elsewhere (by omega)).trans (hall.zeroTx x hlow hhigh)
  · rintro x (⟨hlow, hhigh⟩ | ⟨i, hi, hlow, hhigh⟩) (⟨hlow', hhigh'⟩ | ⟨hlow', hhigh'⟩)
    · simp only [Separated] at hsep
      omega
    · simp only [Separated] at hrxBuf hlow' hhigh'
      omega
    · have hsepi := hall.txApart i hi
      simp only [Separated] at hsepi hlow hhigh
      omega
    · have hsepi := hbufs i hi
      simp only [Separated] at hsepi hlow hhigh hlow' hhigh'
      omega

section Run

variable {base q tbase tq : Nat} {s s' : CardState} {a : RxState} {b : TxState}

theorem CardRefines.owns (h : CardRefines base q tbase tq s a b) {x : Nat} (hx : ¬ s.Owns x) :
    ¬ RxOwns base q s.rx.rxBufs x ∧ ¬ TxOwns tbase tq s.tx.txBuf x := by
  rw [CardState.Owns, h.rx.queue.laid.desc, h.rx.queue.laid.qsize, h.tx.queue.laid.desc,
    h.tx.queue.laid.qsize, not_or] at hx
  exact hx

/-- A step of the receiving half. -/
theorem CardRefines.receive (h : CardRefines base q tbase tq s a b) (hinv : RxInv a)
    (hlen : ∀ e ∈ a.rxq.used, e.2 ≤ frameBufSize) {e : RxEvent} {o : CardOutcome}
    (hstep : cardStep s (.rx e) = some (s', o)) :
    ∃ a' ro, o = .rx ro ∧ rxStep a e = some (a', ro) ∧ CardRefines base q tbase tq s' a' b ∧
      ∀ x, ¬ s.Owns x → s'.ram x = s.ram x := by
  simp only [cardStep] at hstep
  cases hrx : rxStepAt s.ram s.rx e with
  | none => simp [hrx] at hstep
  | some done =>
      obtain ⟨ram, rx, ro⟩ := done
      simp only [hrx, Option.some.injEq, Prod.mk.injEq] at hstep
      obtain ⟨rfl, rfl⟩ := hstep
      obtain ⟨a', hring, hrefines, hkept⟩ := h.rx.step hinv hlen hrx
      refine ⟨a', ro, rfl, hring, ⟨hrefines, ?_, ?_⟩, fun x hx => hkept.ram x (h.owns hx).1⟩
      · exact h.tx.congr fun x hx => hkept.ram x fun hrx => h.apart x hrx hx
      · dsimp only
        rw [hkept.bufs]
        exact h.apart

/-- A step of the sending half. -/
theorem CardRefines.send (h : CardRefines base q tbase tq s a b) {e : TxEvent} {o : CardOutcome}
    (hshort : ∀ frame, e = .call frame → netHdrLen + frame.length < 2 ^ 32)
    (hstep : cardStep s (.tx e) = some (s', o)) :
    ∃ b' so, o = .tx so ∧ txStep b e = some (b', so) ∧ CardRefines base q tbase tq s' a b' ∧
      ∀ x, ¬ s.Owns x → s'.ram x = s.ram x := by
  simp only [cardStep] at hstep
  cases htx : txStepAt s.ram s.tx e with
  | none => simp [htx] at hstep
  | some done =>
      obtain ⟨ram, tx, so⟩ := done
      simp only [htx, Option.some.injEq, Prod.mk.injEq] at hstep
      obtain ⟨rfl, rfl⟩ := hstep
      obtain ⟨b', hring, hrefines, hkept⟩ := h.tx.step hshort htx
      refine ⟨b', so, rfl, hring, ⟨?_, hrefines, ?_⟩, fun x hx => hkept.ram x (h.owns hx).2⟩
      · exact h.rx.congr fun x hx => hkept.ram x (h.apart x hx)
      · dsimp only
        rw [hkept.buf]
        exact h.apart

/-- A store of someone else. -/
theorem CardRefines.elsewhere (h : CardRefines base q tbase tq s a b) {x : Nat} {byte : UInt8}
    {o : CardOutcome} (hstep : cardStep s (.store x byte) = some (s', o)) :
    CardRefines base q tbase tq s' a b ∧ o = .none := by
  simp only [cardStep] at hstep
  split at hstep
  · cases hstep
  · rename_i hout
    simp only [Option.some.injEq, Prod.mk.injEq] at hstep
    obtain ⟨rfl, rfl⟩ := hstep
    obtain ⟨hrx, htx⟩ := h.owns hout
    have hother : ∀ y, y ≠ x → Function.update s.ram x byte y = s.ram y :=
      fun y hy => Function.update_of_ne hy _ _
    exact ⟨⟨h.rx.congr fun y hy => hother y fun heq => hrx (heq ▸ hy),
      h.tx.congr fun y hy => hother y fun heq => htx (heq ▸ hy), h.apart⟩, rfl⟩

/-- Frames whose length with the header fits the 32 bits of `len`. -/
def ShortFrames (tr : List CardRecord) : Prop :=
  ∀ r ∈ tr, ∀ frame, r.event = .tx (.call frame) → netHdrLen + frame.length < 2 ^ 32

/-- Driver and card store in their own pages. -/
def OwnStores (tr : List CardRecord) : Prop :=
  ∀ r ∈ tr, (∀ x byte, r.event ≠ .store x byte) → ∀ x, ¬ r.pre.Owns x → r.post.ram x = r.pre.ram x

/-- **Driver and card on one memory are the two ring models.**  The sizes are powers of two, as a card
has to report them, and the receive queue has room for the eight buffers.  From a successful `hal_net_init` on, along every order of calls, moves of the card
and stores elsewhere: what the receiving half does is a run of the receive ring, what the sending half
does is a run of the transmit ring, with the same outcomes and the same frames on the wire; and neither
stores outside the pages it was given. -/
theorem card_refines_rings {m m' : Memory} {rx : RxSide} {tx : TxSide} {k k' : Nat} (h : AllocInv m)
    (hk : 3 ≤ k) (hk15 : k ≤ 15) (hk' : k' ≤ 15)
    (hinit : halNetInitAt m (2 ^ k) (2 ^ k') = some (m', rx, tx)) {tr : List CardRecord}
    (hrun : Trace cardStep ⟨m'.ram, rx, tx⟩ tr s) (hshort : ShortFrames tr) :
    ∃ rtr a ttr b, RxRun (2 ^ k) rtr a ∧ TxRun (2 ^ k') ttr b ∧
      observed rxDone tr = observed stepDone rtr ∧ observed txDone tr = observed stepDone ttr ∧
      s.rx.pc = a.pc ∧ s.tx.pc = b.pc ∧ s.tx.wire = b.wire ∧ OwnStores tr := by
  obtain ⟨base, tbase, hstart⟩ := halNetInitAt_refines h hk hk15 hk' hinit
  have hall := hrun.history_invariant (fun tr s => ShortFrames tr → ∃ rtr a ttr b,
    RxRun (2 ^ k) rtr a ∧ TxRun (2 ^ k') ttr b ∧ observed rxDone tr = observed stepDone rtr ∧
    observed txDone tr = observed stepDone ttr ∧ CardRefines base (2 ^ k) tbase (2 ^ k') s a b ∧
    OwnStores tr)
    (fun _ => ⟨[], _, [], _, .nil, .nil, rfl, rfl, hstart, fun r hr => absurd hr List.not_mem_nil⟩) ?_
  · obtain ⟨rtr, a, ttr, b, hrx, htx, hrxDone, htxDone, hrefines, hown⟩ := hall hshort
    exact ⟨rtr, a, ttr, b, hrx, htx, hrxDone, htxDone, hrefines.rx.pc, hrefines.tx.pc,
      hrefines.tx.wire, hown⟩
  intro tr s e o s' _ hold hstep hshort
  obtain ⟨rtr, a, ttr, b, hrx, htx, hrxDone, htxDone, hrefines, hown⟩ :=
    hold fun r hr => hshort r (List.mem_cons_of_mem _ hr)
  have hstores : (∀ x, ¬ s.Owns x → s'.ram x = s.ram x) → OwnStores (⟨s, e, o, s'⟩ :: tr) := by
    intro hthis r hr hnot
    rcases List.mem_cons.mp hr with rfl | hr
    · exact hthis
    · exact hown r hr hnot
  rw [observed_cons, observed_cons]
  cases e with
  | rx e =>
      obtain ⟨hinv, hacc⟩ := hrx.inv hk hk15
      obtain ⟨a', ro, rfl, hring, hrefines', hkept⟩ := hrefines.receive hinv hacc.short hstep
      refine ⟨_, a', ttr, b, hrx.snoc hring, htx, ?_, ?_, hrefines', hstores hkept⟩
      · rw [observed_cons, hrxDone]
        rfl
      · rw [htxDone]
        exact List.append_nil _
  | tx e =>
      have hfits : ∀ frame, e = .call frame → netHdrLen + frame.length < 2 ^ 32 :=
        fun frame he => hshort _ List.mem_cons_self frame (congrArg CardEvent.tx he)
      obtain ⟨b', so, rfl, hring, hrefines', hkept⟩ := hrefines.send hfits hstep
      refine ⟨rtr, a, _, b', hrx, htx.snoc hring, ?_, ?_, hrefines', hstores hkept⟩
      · rw [hrxDone]
        exact List.append_nil _
      · rw [observed_cons, htxDone]
        rfl
  | store x byte =>
      obtain ⟨hrefines', rfl⟩ := hrefines.elsewhere hstep
      refine ⟨rtr, a, ttr, b, hrx, htx, ?_, ?_, hrefines', fun r hr hnot => ?_⟩
      · rw [hrxDone]
        exact List.append_nil _
      · rw [htxDone]
        exact List.append_nil _
      · rcases List.mem_cons.mp hr with rfl | hr
        · exact absurd rfl (hnot x byte)
        · exact hown r hr hnot

end Run

/-- Memory whose one region begins where the pages for devices do. -/
def cardMemory : Memory := memoryInit [⟨0x200000, 0x100000⟩] fun _ => 0xFF

/-- A frame out and a frame in. -/
def cardEvents : List CardEvent :=
  [.tx (.call [1, 2]), .rx .take, .tx .publish, .store 0 7, .tx .transmit,
    .rx (.giveBack 0 (List.replicate netHdrLen 0 ++ [9])), .tx .giveBack, .tx .spin,
    .rx (.call 1514 4), .rx .spin, .rx .post]

/-- The frame of a call. -/
def CardEvent.frame : CardEvent → Option (List UInt8)
  | .tx (.call frame) => some frame
  | _ => none

set_option maxRecDepth 100000 in
theorem card_refines_rings_sample :
    ∃ m' rx tx tr s, halNetInitAt cardMemory (2 ^ 3) (2 ^ 3) = some (m', rx, tx) ∧
      Trace cardStep ⟨m'.ram, rx, tx⟩ tr s ∧ ShortFrames tr ∧ s.tx.wire = [[1, 2]] ∧
      ∃ rtr a ttr b, RxRun (2 ^ 3) rtr a ∧ TxRun (2 ^ 3) ttr b ∧
        observed rxDone tr = observed stepDone rtr ∧ observed txDone tr = observed stepDone ttr ∧
        s.rx.pc = a.pc ∧ s.tx.pc = b.pc ∧ s.tx.wire = b.wire ∧ OwnStores tr := by
  have hrun : ((halNetInitAt cardMemory (2 ^ 3) (2 ^ 3)).bind fun r =>
      (runTrace cardStep [] ⟨r.1.ram, r.2.1, r.2.2⟩ cardEvents).map fun t =>
        (t.1.filterMap (·.event.frame), t.2.tx.wire)) = some ([[1, 2]], [[1, 2]]) := by
    decide +kernel
  generalize cardEvents = events at hrun
  obtain ⟨⟨m', rx, tx⟩, hinit, hafter⟩ := Option.bind_eq_some_iff.mp hrun
  obtain ⟨tr, s, htrace, hview⟩ := exists_trace_of_runTrace hafter
  obtain ⟨hframes, hwire⟩ := Prod.mk.inj hview
  have hshort : ShortFrames tr := by
    intro r hr frame hcall
    have hmem : frame ∈ tr.filterMap (·.event.frame) :=
      List.mem_filterMap.mpr ⟨r, hr, congrArg CardEvent.frame hcall⟩
    rw [hframes, List.mem_singleton] at hmem
    rw [hmem]
    decide
  have hinv : AllocInv cardMemory := (memoryInit_spec [⟨0x200000, 0x100000⟩] fun _ => 0xFF).1
  have hrefines := card_refines_rings hinv (by decide) (by decide) (by decide) hinit htrace hshort
  exact ⟨m', rx, tx, tr, s, hinit, htrace, hshort, hwire, hrefines⟩

end Vajra
