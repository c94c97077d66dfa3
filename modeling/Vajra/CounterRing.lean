import Mathlib.Algebra.Ring.Nat
import Vajra.RingQueue

/-!
# Rings with free-running counters

Two parties share a ring: one writes at a head counter, the other reads at a tail counter,
both counters run freely in `w` bits, and a cell is found by reducing a counter modulo the
size of the ring.  If the size divides `2 ^ w`, the reduction survives the wrap of a counter
(`entries_eq`), so that publishing appends (`entries_push`) and consuming removes the oldest
entry (`entries_pop`), however long the two have been running.
-/

namespace CounterRing

open RingQueue

variable {α : Type*} {w size : Nat} {cells : Nat → α} {tail head : BitVec w}

/-- The number of entries between the counters. -/
def distance (tail head : BitVec w) : Nat := (head - tail).toNat

/-- The entries written and not yet read, oldest first. -/
def entries (size : Nat) (cells : Nat → α) (tail head : BitVec w) : List α :=
  contents size cells tail.toNat (distance tail head)

@[simp] theorem distance_self (c : BitVec w) : distance c c = 0 := by simp [distance]

@[simp] theorem entries_length :
    (entries size cells tail head).length = distance tail head := by simp [entries]

@[simp] theorem entries_self (c : BitVec w) : entries size cells c c = [] := by simp [entries]

theorem eq_of_distance (h : distance tail head = 0) : tail = head := by
  have hzero : head - tail = 0#w := BitVec.eq_of_toNat_eq h
  have hsum : head - tail + tail = head := BitVec.sub_add_cancel head tail
  rw [hzero, BitVec.zero_add] at hsum
  exact hsum

/-- The head is that far behind the tail, up to the wrap of the counter. -/
theorem head_toNat (tail head : BitVec w) :
    head.toNat = (tail.toNat + distance tail head) % 2 ^ w := by
  have hsum : tail + (head - tail) = head := by
    rw [BitVec.add_comm, BitVec.sub_add_cancel]
  rw [distance, ← BitVec.toNat_add, hsum]

theorem toNat_succ_mod (c : BitVec w) : (c + 1).toNat = (c.toNat + 1) % 2 ^ w := by
  change (c + 1#w).toNat = _
  rw [BitVec.toNat_add, BitVec.toNat_ofNat, Nat.add_mod_mod]

/-- A counter that does not wrap when it is advanced. -/
theorem toNat_succ {c : BitVec w} (h : c.toNat + 1 < 2 ^ w) : (c + 1).toNat = c.toNat + 1 := by
  rw [toNat_succ_mod, Nat.mod_eq_of_lt h]

theorem distance_succ (h : distance tail head + 1 < 2 ^ w) :
    distance tail (head + 1) = distance tail head + 1 := by
  have hsub : head + 1 - tail = head - tail + 1 := by grind
  rw [distance, hsub]
  exact toNat_succ h

/-- Reading an entry brings the tail one nearer to the head. -/
theorem distance_tail_succ (h : tail ≠ head) :
    distance tail head = distance (tail + 1) head + 1 := by
  have hsub : head - tail = head - (tail + 1) + 1 := by grind
  have hlt := (head - (tail + 1)).isLt
  have hwrap : (head - (tail + 1)).toNat + 1 ≠ 2 ^ w := by
    -- otherwise the two counters are a full turn apart, that is, equal
    intro hfull
    have hzero : distance tail head = 0 := by
      rw [distance, hsub, toNat_succ_mod, hfull, Nat.mod_self]
    exact h (eq_of_distance hzero)
  rw [distance, hsub]
  exact toNat_succ (by omega)

/-- Only the cell of the tail counts. -/
theorem contents_mod (size : Nat) (cells : Nat → α) (start count : Nat) :
    contents size cells (start % size) count = contents size cells start count := by
  unfold contents
  refine List.map_congr_left fun i _ => ?_
  rw [Nat.mod_add_mod]

variable (hsize : size ∣ 2 ^ w)

include hsize

/-- Publishing an entry appends it. -/
theorem entries_push {x : α} (hroom : distance tail head < size)
    (hwrap : distance tail head + 1 < 2 ^ w) :
    entries size (Function.update cells (head.toNat % size) x) tail (head + 1) =
      entries size cells tail head ++ [x] := by
  have hcell : head.toNat % size = (tail.toNat + distance tail head) % size := by
    rw [head_toNat tail head, Nat.mod_mod_of_dvd _ hsize]
  rw [entries, distance_succ hwrap, hcell]
  exact contents_enqueue hroom

/-- Consuming an entry removes the oldest one. -/
theorem entries_pop (hpos : 0 < size) (h : tail ≠ head) :
    entries size cells tail head =
      cells (tail.toNat % size) :: entries size cells (tail + 1) head := by
  have hnext : (tail + 1).toNat % size = (tail.toNat % size + 1) % size := by
    rw [Nat.mod_add_mod, toNat_succ_mod, Nat.mod_mod_of_dvd _ hsize]
  rw [entries, ← contents_mod, distance_tail_succ h,
    contents_dequeue (Nat.mod_lt _ hpos) (Nat.succ_pos _), ← hnext, Nat.succ_sub_one,
    contents_mod]
  rfl

end CounterRing
