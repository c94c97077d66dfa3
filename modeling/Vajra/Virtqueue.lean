import Vajra.ByteMemory
import Vajra.CounterRing
import Vajra.TransitionTrace

/-!
# The virtqueues of the network card (`hal/x86_64/virtio_net.c`)

A queue is two rings in memory that driver and device share.  The driver publishes a
descriptor in the available ring (`virtqPublish`); the device takes it from there, and when it
is done with the buffer it writes an entry of eight bytes into the used ring, which the driver
reads byte by byte.  All four indices run freely in 16 bits.

The pages of the queues are zeroed by `alloc_dma_pages`, and so are the buffers; a buffer is
named by the number of its descriptor.
-/

namespace Vajra

open ByteMemory CounterRing

def netHdrLen : Nat := 10
def rxBufCount : Nat := 8
def frameBufSize : Nat := 2048
def virtqDescFWrite : Nat := 2

/-- `struct virtq_desc`. -/
structure VirtqDesc where
  addr : Nat
  len : Nat
  flags : Nat
  next : Nat

/-- `struct virtq` and the memory behind its pointers. -/
structure Virtq where
  desc : Nat → VirtqDesc
  availIdx : BitVec 16
  availRing : Nat → BitVec 16
  usedIdx : BitVec 16
  usedRingBytes : Nat → UInt8
  qsize : Nat
  lastUsedIdx : BitVec 16
  nextAvailIdx : BitVec 16

/-- `virtq_init` on zeroed pages. -/
def virtqInit (qsize : Nat) : Virtq :=
  { desc := fun _ => ⟨0, 0, 0, 0⟩, availIdx := 0, availRing := fun _ => 0, usedIdx := 0
    usedRingBytes := fun _ => 0, qsize := qsize, lastUsedIdx := 0, nextAvailIdx := 0 }

/-- `virtq_used_elem_id`. -/
def virtqUsedElemId (vq : Virtq) (slot : Nat) : Nat := readLE vq.usedRingBytes (slot * 8) 4

/-- `virtq_used_elem_len`. -/
def virtqUsedElemLen (vq : Virtq) (slot : Nat) : Nat := readLE vq.usedRingBytes (slot * 8 + 4) 4

/-- `virtq_publish`. -/
def virtqPublish (vq : Virtq) (descIndex : BitVec 16) : Virtq :=
  { vq with
    availRing := Function.update vq.availRing (vq.nextAvailIdx.toNat % vq.qsize) descIndex
    nextAvailIdx := vq.nextAvailIdx + 1
    availIdx := vq.nextAvailIdx + 1 }

/-- The device gives descriptor `id` back, with `len` bytes written or read. -/
def Virtq.giveBack (vq : Virtq) (id len : Nat) : Virtq :=
  { vq with
    usedRingBytes := writeLE (writeLE vq.usedRingBytes (vq.usedIdx.toNat % vq.qsize * 8) 4 id)
      (vq.usedIdx.toNat % vq.qsize * 8 + 4) 4 len
    usedIdx := vq.usedIdx + 1 }

/-- Descriptors published that the device, at `seen`, has not taken yet. -/
def Virtq.available (vq : Virtq) (seen : BitVec 16) : List Nat :=
  (entries vq.qsize vq.availRing seen vq.availIdx).map BitVec.toNat

/-- Descriptors given back that the driver has not looked at yet, with their lengths. -/
def Virtq.used (vq : Virtq) : List (Nat × Nat) :=
  entries vq.qsize (fun slot => (virtqUsedElemId vq slot, virtqUsedElemLen vq slot))
    vq.lastUsedIdx vq.usedIdx

section Rings

variable {vq : Virtq} {seen : BitVec 16}

theorem available_length : (vq.available seen).length = distance seen vq.availIdx := by
  rw [Virtq.available, List.length_map, entries_length]

theorem used_length : vq.used.length = distance vq.lastUsedIdx vq.usedIdx := entries_length

/-- **Publishing** appends to the available ring. -/
theorem available_publish (hsize : vq.qsize ∣ 2 ^ 16) (hnext : vq.nextAvailIdx = vq.availIdx)
    (hroom : (vq.available seen).length < vq.qsize) (hwrap : (vq.available seen).length < 2 ^ 15)
    (descIndex : BitVec 16) :
    (virtqPublish vq descIndex).available seen = vq.available seen ++ [descIndex.toNat] := by
  rw [available_length] at hroom hwrap
  unfold Virtq.available virtqPublish
  dsimp only
  rw [hnext, entries_push hsize hroom (by omega), List.map_append]
  rfl

/-- **Taking a descriptor** removes the oldest one. -/
theorem available_take (hsize : vq.qsize ∣ 2 ^ 16) (hpos : 0 < vq.qsize)
    (hsome : seen ≠ vq.availIdx) :
    vq.available seen =
      (vq.availRing (seen.toNat % vq.qsize)).toNat :: vq.available (seen + 1) := by
  unfold Virtq.available
  rw [entries_pop hsize hpos hsome, List.map_cons]

/-- An entry the device writes is read back, and the others are as they were. -/
theorem usedElem_giveBack {id len : Nat} (hid : id < 2 ^ 32) (hlen : len < 2 ^ 32) :
    (fun slot => (virtqUsedElemId (vq.giveBack id len) slot,
        virtqUsedElemLen (vq.giveBack id len) slot)) =
      Function.update (fun slot => (virtqUsedElemId vq slot, virtqUsedElemLen vq slot))
        (vq.usedIdx.toNat % vq.qsize) (id, len) := by
  have hid' : id < 256 ^ 4 := hid
  have hlen' : len < 256 ^ 4 := hlen
  funext slot
  unfold virtqUsedElemId virtqUsedElemLen Virtq.giveBack
  dsimp only
  by_cases hslot : slot = vq.usedIdx.toNat % vq.qsize
  · rw [hslot, Function.update_self, readLE_writeLE_same, readLE_writeLE_disjoint (by omega),
      readLE_writeLE_same, Nat.mod_eq_of_lt hid', Nat.mod_eq_of_lt hlen']
  · rw [Function.update_of_ne hslot, readLE_writeLE_disjoint (by omega),
      readLE_writeLE_disjoint (by omega), readLE_writeLE_disjoint (by omega),
      readLE_writeLE_disjoint (by omega)]

/-- **Giving a descriptor back** appends to the used ring. -/
theorem used_giveBack (hsize : vq.qsize ∣ 2 ^ 16) (hroom : vq.used.length < vq.qsize)
    (hwrap : vq.used.length < 2 ^ 15) {id len : Nat} (hid : id < 2 ^ 32) (hlen : len < 2 ^ 32) :
    (vq.giveBack id len).used = vq.used ++ [(id, len)] := by
  rw [used_length] at hroom hwrap
  unfold Virtq.used
  rw [usedElem_giveBack hid hlen]
  exact entries_push hsize hroom (Nat.lt_of_lt_of_le (Nat.succ_lt_succ hwrap) (by decide))

/-- **Looking at an entry** removes the oldest one. -/
theorem used_take (hsize : vq.qsize ∣ 2 ^ 16) (hpos : 0 < vq.qsize)
    (hsome : vq.lastUsedIdx ≠ vq.usedIdx) :
    vq.used = (virtqUsedElemId vq (vq.lastUsedIdx.toNat % vq.qsize),
        virtqUsedElemLen vq (vq.lastUsedIdx.toNat % vq.qsize)) ::
      { vq with lastUsedIdx := vq.lastUsedIdx + 1 }.used := by
  exact entries_pop hsize hpos hsome

end Rings

end Vajra
