import Vajra.AllocatorRuns
import Vajra.Virtqueue
import Mathlib.Tactic.IntervalCases

/-!
# Virtqueues as the bytes they are (`hal/x86_64/virtio_net.c`)

`virtq_init` asks for as many pages as the size the card reports needs, sets the five pointers of a
`struct virtq` into them, and tells the card the number of the first page and nothing else.  The card
finds the three parts by its own formula (`vringAt`).  The two formulas differ: the card leaves room
for one more word behind the available ring.  For every size that is a power of two they come to the
same (`usedOffset_eq_vring`); for other sizes they need not.

`VirtqHolds` says that the bytes of a queue are those of a `Virtq`.  Publishing, giving back and
reading a used entry on the bytes are what they are there.
-/

namespace Vajra

open ByteMemory

/-- `struct virtq`; its pointers are addresses. -/
structure VirtqStruct where
  desc : Nat
  availIdx : Nat
  availRing : Nat
  usedIdx : Nat
  usedRingBytes : Nat
  qsize : Nat
  lastUsedIdx : BitVec 16
  nextAvailIdx : BitVec 16

def read16 (ram : Mem) (a : Nat) : BitVec 16 := BitVec.ofNat 16 (readLE ram a 2)

def write16 (ram : Mem) (a : Nat) (v : BitVec 16) : Mem := writeLE ram a 2 v.toNat

/-- `used_offset`; a size has 16 bits, so that nothing here exceeds 32. -/
def usedOffset (qsize : Nat) : Nat := (16 * qsize + (4 + 2 * qsize) + 4095) / 4096 * 4096

/-- `total`. -/
def virtqTotal (qsize : Nat) : Nat := usedOffset qsize + (4 + 8 * qsize)

/-- `pages`. -/
def virtqPages (qsize : Nat) : Nat := (virtqTotal qsize + 4095) / 4096

/-- `virtq_init`: what it leaves in the structure, and the number it writes to `QUEUE_PFN`. -/
def virtqInitAt (m : Memory) (qsize : Nat) : Memory × Option (VirtqStruct × Nat) :=
  if qsize = 0 then (m, none)
  else
    match allocDmaPages m (virtqPages qsize : Nat) with
    | (m, none) => (m, none)
    | (m, some base) =>
        (m, some (
          { desc := base
            availIdx := base + 16 * qsize + 2
            availRing := base + 16 * qsize + 4
            usedIdx := base + usedOffset qsize + 2
            usedRingBytes := base + usedOffset qsize + 4
            qsize := qsize
            lastUsedIdx := 0
            nextAvailIdx := 0 }, base / 4096 % 2 ^ 32))

/-- `virtq_used_elem_id`, on the bytes. -/
def virtqUsedElemIdAt (ram : Mem) (vq : VirtqStruct) (slot : Nat) : Nat :=
  readLE ram (vq.usedRingBytes + slot * 8) 4

/-- `virtq_used_elem_len`, on the bytes. -/
def virtqUsedElemLenAt (ram : Mem) (vq : VirtqStruct) (slot : Nat) : Nat :=
  readLE ram (vq.usedRingBytes + slot * 8 + 4) 4

/-- `virtq_publish`, on the bytes. -/
def virtqPublishAt (ram : Mem) (vq : VirtqStruct) (descIndex : BitVec 16) : Mem × VirtqStruct :=
  let ram := write16 ram (vq.availRing + 2 * (vq.nextAvailIdx.toNat % vq.qsize)) descIndex
  let vq := { vq with nextAvailIdx := vq.nextAvailIdx + 1 }
  (write16 ram vq.availIdx vq.nextAvailIdx, vq)

/-- The assignments to the four fields of `desc[i]`. -/
def writeDesc (ram : Mem) (desc i : Nat) (d : VirtqDesc) : Mem :=
  let ram := writeLE ram (desc + 16 * i) 8 d.addr
  let ram := writeLE ram (desc + 16 * i + 8) 4 d.len
  let ram := writeLE ram (desc + 16 * i + 12) 2 d.flags
  writeLE ram (desc + 16 * i + 14) 2 d.next

/-- The card's reading of descriptor `i`. -/
def readDesc (ram : Mem) (desc i : Nat) : VirtqDesc :=
  ⟨readLE ram (desc + 16 * i) 8, readLE ram (desc + 16 * i + 8) 4,
    readLE ram (desc + 16 * i + 12) 2, readLE ram (desc + 16 * i + 14) 2⟩

/-- Where the card looks for the parts of a queue. -/
structure Vring where
  desc : Nat
  avail : Nat
  used : Nat
  num : Nat

/-- The layout of a queue of `num` entries at page `pfn`. -/
def vringAt (pfn num : Nat) : Vring where
  desc := pfn * 4096
  avail := pfn * 4096 + 16 * num
  used := pfn * 4096 + (16 * num + 2 * (3 + num) + 4095) / 4096 * 4096
  num := num

/-- The index of the available entry that comes after those the card has seen. -/
def Vring.next (r : Vring) (ram : Mem) (seen : BitVec 16) : BitVec 16 :=
  read16 ram (r.avail + 4 + 2 * (seen.toNat % r.num))

/-- The card gives descriptor `id` back, with `len` bytes written or read. -/
def Vring.giveBack (r : Vring) (ram : Mem) (id len : Nat) : Mem :=
  let usedIdx := read16 ram (r.used + 2)
  let slot := usedIdx.toNat % r.num
  let ram := writeLE ram (r.used + 4 + slot * 8) 4 id
  let ram := writeLE ram (r.used + 4 + slot * 8 + 4) 4 len
  write16 ram (r.used + 2) (usedIdx + 1)

theorem usedOffset_ge (qsize : Nat) : 18 * qsize + 4 ≤ usedOffset qsize := by
  unfold usedOffset
  omega

/-- **Driver and card agree** on where the used ring is. -/
theorem usedOffset_eq_vring {k : Nat} (hk : k ≤ 15) :
    (16 * 2 ^ k + 2 * (3 + 2 ^ k) + 4095) / 4096 * 4096 = usedOffset (2 ^ k) := by
  interval_cases k <;> rfl

/-- With 910 entries they would not, if a card could have that many. -/
example : (vringAt 0 910).used ≠ usedOffset 910 := by decide

theorem virtqTotal_le_pages (qsize : Nat) : virtqTotal qsize ≤ virtqPages qsize * 4096 := by
  unfold virtqPages
  omega

theorem virtqPages_pos (qsize : Nat) : 0 < virtqPages qsize := by
  unfold virtqPages virtqTotal
  omega

section Words

variable {ram : Mem}

theorem read16_write16 (ram : Mem) (a : Nat) (v : BitVec 16) : read16 (write16 ram a v) a = v := by
  have hv : v.toNat < 256 ^ 2 := v.isLt
  rw [read16, write16, readLE_writeLE_same, Nat.mod_eq_of_lt hv]
  exact BitVec.ofNat_toNat 16 v |>.trans (BitVec.setWidth_eq v)

theorem read16_congr {m m' : Mem} {a : Nat} (h : ∀ x, a ≤ x → x < a + 2 → m x = m' x) :
    read16 m a = read16 m' a := by
  rw [read16, read16, readLE_congr h]

theorem write16_outside {a x : Nat} {v : BitVec 16} (h : x < a ∨ a + 2 ≤ x) :
    write16 ram a v x = ram x := by
  have hout : ¬ (a ≤ x ∧ x < a + 2) := by omega
  simp [write16, writeLE, hout]

theorem read16_write16_ne {a b : Nat} {v : BitVec 16} (h : a + 2 ≤ b ∨ b + 2 ≤ a) :
    read16 (write16 ram a v) b = read16 ram b :=
  read16_congr fun x h1 h2 => write16_outside (by omega)

theorem writeDesc_outside {desc i x : Nat} {d : VirtqDesc}
    (h : x < desc + 16 * i ∨ desc + 16 * i + 16 ≤ x) : writeDesc ram desc i d x = ram x := by
  have hout : ∀ (m : Mem) (a n v : Nat), desc + 16 * i ≤ a → a + n ≤ desc + 16 * i + 16 →
      writeLE m a n v x = m x := by
    intro m a n v hlow hhigh
    have hnot : ¬ (a ≤ x ∧ x < a + n) := by omega
    simp [writeLE, hnot]
  rw [writeDesc, hout _ _ _ _ (by omega) (by omega), hout _ _ _ _ (by omega) (by omega),
    hout _ _ _ _ (by omega) (by omega), hout _ _ _ _ (by omega) (by omega)]

theorem readDesc_congr {m m' : Mem} {desc i : Nat}
    (h : ∀ x, desc + 16 * i ≤ x → x < desc + 16 * i + 16 → m x = m' x) :
    readDesc m desc i = readDesc m' desc i := by
  rw [readDesc, readDesc, readLE_congr fun x h1 h2 => h x (by omega) (by omega),
    readLE_congr (a := desc + 16 * i + 8) fun x h1 h2 => h x (by omega) (by omega),
    readLE_congr (a := desc + 16 * i + 12) fun x h1 h2 => h x (by omega) (by omega),
    readLE_congr (a := desc + 16 * i + 14) fun x h1 h2 => h x (by omega) (by omega)]

/-- Fields that fit their width. -/
structure VirtqDesc.Fits (d : VirtqDesc) : Prop where
  addr : d.addr < 256 ^ 8
  len : d.len < 256 ^ 4
  flags : d.flags < 256 ^ 2
  next : d.next < 256 ^ 2

/-- **A descriptor** is read as it was written. -/
theorem readDesc_writeDesc {d : VirtqDesc} (h : d.Fits) (ram : Mem) (desc i : Nat) :
    readDesc (writeDesc ram desc i d) desc i = d := by
  have haddr : readLE (writeDesc ram desc i d) (desc + 16 * i) 8 = d.addr := by
    rw [writeDesc, readLE_writeLE_disjoint (by omega), readLE_writeLE_disjoint (by omega),
      readLE_writeLE_disjoint (by omega), readLE_writeLE_same, Nat.mod_eq_of_lt h.addr]
  have hlen : readLE (writeDesc ram desc i d) (desc + 16 * i + 8) 4 = d.len := by
    rw [writeDesc, readLE_writeLE_disjoint (by omega), readLE_writeLE_disjoint (by omega),
      readLE_writeLE_same, Nat.mod_eq_of_lt h.len]
  have hflags : readLE (writeDesc ram desc i d) (desc + 16 * i + 12) 2 = d.flags := by
    rw [writeDesc, readLE_writeLE_disjoint (by omega), readLE_writeLE_same,
      Nat.mod_eq_of_lt h.flags]
  have hnext : readLE (writeDesc ram desc i d) (desc + 16 * i + 14) 2 = d.next := by
    rw [writeDesc, readLE_writeLE_same, Nat.mod_eq_of_lt h.next]
  rw [readDesc, haddr, hlen, hflags, hnext]

end Words

/-- The pointers of the structure are those of a queue of `q` entries at `base`. -/
structure VirtqLaid (base q : Nat) (v : VirtqStruct) : Prop where
  desc : v.desc = base
  availIdx : v.availIdx = base + 16 * q + 2
  availRing : v.availRing = base + 16 * q + 4
  usedIdx : v.usedIdx = base + usedOffset q + 2
  usedRingBytes : v.usedRingBytes = base + usedOffset q + 4
  qsize : v.qsize = q

/-- The rings at `base`, and the driver's own indices, are those of `a`. -/
structure VirtqHolds (ram : Mem) (base q : Nat) (v : VirtqStruct) (a : Virtq) : Prop where
  laid : VirtqLaid base q v
  qsize : a.qsize = q
  last : v.lastUsedIdx = a.lastUsedIdx
  next : v.nextAvailIdx = a.nextAvailIdx
  availIdx : read16 ram (base + 16 * q + 2) = a.availIdx
  availRing : ∀ j < q, read16 ram (base + 16 * q + 4 + 2 * j) = a.availRing j
  usedIdx : read16 ram (base + usedOffset q + 2) = a.usedIdx
  used : ∀ x < 8 * q, ram (base + usedOffset q + 4 + x) = a.usedRingBytes x

/-- The card's view of the same queue. -/
structure VringLaid (base q : Nat) (r : Vring) : Prop where
  desc : r.desc = base
  avail : r.avail = base + 16 * q
  used : r.used = base + usedOffset q
  num : r.num = q

/-- **What the card makes of the page number**: the queue the driver laid out. -/
theorem vringAt_laid {base k : Nat} (hk : k ≤ 15) (haligned : base % 4096 = 0)
    (hlow : base < 2 ^ 44) : VringLaid base (2 ^ k) (vringAt (base / 4096 % 2 ^ 32) (2 ^ k)) := by
  have hpfn : base / 4096 % 2 ^ 32 * 4096 = base := by omega
  refine ⟨hpfn, ?_, ?_, rfl⟩
  · rw [vringAt, hpfn]
  · rw [vringAt, hpfn]
    exact congrArg (base + ·) (usedOffset_eq_vring hk)

section Queue

variable {ram ram' : Mem} {base q : Nat} {v : VirtqStruct} {a : Virtq}

/-- The queue is its bytes. -/
theorem VirtqHolds.congr (h : VirtqHolds ram base q v a)
    (hsame : ∀ x, base + 16 * q ≤ x → x < base + virtqTotal q → ram' x = ram x) :
    VirtqHolds ram' base q v a := by
  have hoffset := usedOffset_ge q
  simp only [virtqTotal] at hsame
  refine ⟨h.laid, h.qsize, h.last, h.next, ?_, fun j hj => ?_, ?_, fun x hx => ?_⟩
  · rw [← h.availIdx]
    exact read16_congr fun x h1 h2 => hsame x (by omega) (by omega)
  · rw [← h.availRing j hj]
    exact read16_congr fun x h1 h2 => hsame x (by omega) (by omega)
  · rw [← h.usedIdx]
    exact read16_congr fun x h1 h2 => hsame x (by omega) (by omega)
  · rw [← h.used x hx]
    exact hsame _ (by omega) (by omega)

/-- Setting up descriptors does not touch the rings. -/
theorem VirtqHolds.describe (h : VirtqHolds ram base q v a) (desc : Nat → VirtqDesc) :
    VirtqHolds ram base q v { a with desc := desc } :=
  ⟨h.laid, h.qsize, h.last, h.next, h.availIdx, h.availRing, h.usedIdx, h.used⟩

/-- The stores of `virtq_publish` are in the available ring. -/
theorem virtqPublishAt_outside (hlaid : VirtqLaid base q v) (hq : 0 < q) {d : BitVec 16} {x : Nat}
    (hx : x < base + 16 * q ∨ base + usedOffset q ≤ x) :
    (virtqPublishAt ram v d).1 x = ram x := by
  have hoffset := usedOffset_ge q
  have hslot : v.nextAvailIdx.toNat % q < q := Nat.mod_lt _ hq
  rw [virtqPublishAt, hlaid.availRing, hlaid.qsize]
  dsimp only
  rw [hlaid.availIdx, write16_outside (by omega), write16_outside (by omega)]

/-- **Publishing** on the bytes. -/
theorem VirtqHolds.publish (h : VirtqHolds ram base q v a) (hq : 0 < q) (d : BitVec 16) :
    VirtqHolds (virtqPublishAt ram v d).1 base q (virtqPublishAt ram v d).2 (virtqPublish a d) := by
  have hlaid := h.laid
  have hout : ∀ x, base + usedOffset q ≤ x → (virtqPublishAt ram v d).1 x = ram x :=
    fun x hx => virtqPublishAt_outside hlaid hq (Or.inr hx)
  have hslot : v.nextAvailIdx.toNat % q < q := Nat.mod_lt _ hq
  refine ⟨⟨hlaid.desc, hlaid.availIdx, hlaid.availRing, hlaid.usedIdx, hlaid.usedRingBytes,
    hlaid.qsize⟩, h.qsize, h.last, congrArg (· + 1) h.next, ?_, fun j hj => ?_, ?_, fun x hx => ?_⟩
  · rw [virtqPublishAt]
    dsimp only
    rw [hlaid.availIdx, read16_write16]
    exact congrArg (· + 1) h.next
  · rw [virtqPublishAt, virtqPublish, h.qsize, ← h.next, hlaid.availRing, hlaid.qsize]
    dsimp only
    rw [hlaid.availIdx, read16_write16_ne (by omega)]
    by_cases hhere : j = v.nextAvailIdx.toNat % q
    · rw [hhere, read16_write16, Function.update_self]
    · rw [read16_write16_ne (by omega), Function.update_of_ne hhere]
      exact h.availRing j hj
  · rw [read16_congr fun x h1 _ => hout x (by omega)]
    exact h.usedIdx
  · rw [hout _ (by omega)]
    exact h.used x hx

/-- **A used entry** on the bytes. -/
theorem VirtqHolds.usedElem (h : VirtqHolds ram base q v a) {slot : Nat} (hslot : slot < q) :
    virtqUsedElemIdAt ram v slot = virtqUsedElemId a slot ∧
      virtqUsedElemLenAt ram v slot = virtqUsedElemLen a slot := by
  have hbytes : ∀ n, n + 4 ≤ 8 → readLE ram (base + usedOffset q + 4 + (slot * 8 + n)) 4 =
      readLE a.usedRingBytes (slot * 8 + n) 4 := by
    intro n hn
    have hbyte : ∀ i, i < 4 → ram (base + usedOffset q + 4 + (slot * 8 + n) + i) =
        leByte (readLE a.usedRingBytes (slot * 8 + n) 4) i := by
      intro i hi
      rw [leByte_readLE _ _ hi, ← h.used _ (by omega)]
      congr 1
      omega
    rw [readLE_of_bytes hbyte, Nat.mod_eq_of_lt (readLE_lt _ _ _)]
  rw [virtqUsedElemIdAt, virtqUsedElemLenAt, h.laid.usedRingBytes]
  exact ⟨hbytes 0 (by omega), hbytes 4 (by omega)⟩

/-- The card stores in the used ring. -/
theorem Vring.giveBack_outside {r : Vring} (hr : VringLaid base q r) (hq : 0 < q) {id len x : Nat}
    (hx : x < base + usedOffset q ∨ base + virtqTotal q ≤ x) : r.giveBack ram id len x = ram x := by
  have hslot : (read16 ram (r.used + 2)).toNat % q < q := Nat.mod_lt _ hq
  have hout : ∀ (m : Mem) (b n w : Nat), base + usedOffset q ≤ b → b + n ≤ base + virtqTotal q →
      writeLE m b n w x = m x := by
    intro m b n w hlow hhigh
    have hnot : ¬ (b ≤ x ∧ x < b + n) := by omega
    simp [writeLE, hnot]
  simp only [virtqTotal] at hx hout
  rw [Vring.giveBack, hr.num]
  rw [hr.used] at hslot ⊢
  rw [write16_outside (by omega), hout _ _ _ _ (by omega) (by omega),
    hout _ _ _ _ (by omega) (by omega)]

/-- **Giving back** on the bytes. -/
theorem VirtqHolds.giveBack (h : VirtqHolds ram base q v a) {r : Vring} (hr : VringLaid base q r)
    (hq : 0 < q) (id len : Nat) :
    VirtqHolds (r.giveBack ram id len) base q v (a.giveBack id len) := by
  have hoffset := usedOffset_ge q
  have hlow : ∀ x, x < base + usedOffset q → r.giveBack ram id len x = ram x :=
    fun x hx => Vring.giveBack_outside hr hq (Or.inl hx)
  have hidx : read16 ram (r.used + 2) = a.usedIdx := by
    rw [hr.used]
    exact h.usedIdx
  have hslot : a.usedIdx.toNat % q < q := Nat.mod_lt _ hq
  refine ⟨h.laid, h.qsize, h.last, h.next, ?_, fun j hj => ?_, ?_, fun x hx => ?_⟩
  · rw [read16_congr fun x h1 h2 => hlow x (by omega)]
    exact h.availIdx
  · rw [read16_congr fun x h1 h2 => hlow x (by omega)]
    exact h.availRing j hj
  · rw [Vring.giveBack, hidx, hr.used]
    exact read16_write16 _ _ _
  · rw [Vring.giveBack, hidx, hr.num, hr.used, write16_outside (by omega)]
    simp only [Virtq.giveBack, h.qsize, writeLE]
    by_cases hlen : a.usedIdx.toNat % q * 8 + 4 ≤ x ∧ x < a.usedIdx.toNat % q * 8 + 4 + 4
    · rw [if_pos (by omega), if_pos hlen]
      congr 1
      omega
    · rw [if_neg (by omega), if_neg hlen]
      by_cases hid : a.usedIdx.toNat % q * 8 ≤ x ∧ x < a.usedIdx.toNat % q * 8 + 4
      · rw [if_pos (by omega), if_pos hid]
        congr 1
        omega
      · rw [if_neg (by omega), if_neg hid]
        exact h.used x hx

/-- The driver has read the used ring up to `idx`. -/
theorem VirtqHolds.readTo (h : VirtqHolds ram base q v a) (idx : BitVec 16) :
    VirtqHolds ram base q { v with lastUsedIdx := idx } { a with lastUsedIdx := idx } :=
  ⟨⟨h.laid.desc, h.laid.availIdx, h.laid.availRing, h.laid.usedIdx, h.laid.usedRingBytes,
    h.laid.qsize⟩, h.qsize, rfl, h.next, h.availIdx, h.availRing, h.usedIdx, h.used⟩

end Queue

/-- **A new queue** on cleared pages is `virtqInit`. -/
theorem VirtqHolds.init {ram : Mem} {base q : Nat} {v : VirtqStruct} (hlaid : VirtqLaid base q v)
    (hlast : v.lastUsedIdx = 0) (hnext : v.nextAvailIdx = 0)
    (hzero : ∀ x, base ≤ x → x < base + virtqTotal q → ram x = 0) :
    VirtqHolds ram base q v (virtqInit q) := by
  have hoffset := usedOffset_ge q
  simp only [virtqTotal] at hzero
  have hword : ∀ b, base ≤ b → b + 2 ≤ base + (usedOffset q + (4 + 8 * q)) → read16 ram b = 0 := by
    intro b hlow hhigh
    rw [read16, readLE, readLE, readLE, hzero b hlow (by omega), hzero (b + 1) (by omega) (by omega)]
    rfl
  exact ⟨hlaid, rfl, hlast, hnext, hword _ (by omega) (by omega),
    fun j hj => hword _ (by omega) (by omega), hword _ (by omega) (by omega),
    fun x hx => hzero _ (by omega) (by omega)⟩

end Vajra
