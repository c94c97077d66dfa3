import Mathlib.Data.List.Range
import Mathlib.Logic.Function.Basic

/-!
# Bounded queues held in a ring buffer

A ring of `cap` cells with a head index and a count holds a queue: `contents`
reads it out, oldest first.  Storing behind the last element and advancing the
count appends (`contents_enqueue`); advancing the head and decreasing the count
removes the oldest element (`contents_dequeue`).

A ring may keep its two ends instead of a count.  `used` is the count then; one cell stays free,
so that a full ring differs from an empty one (`succ_eq_iff_full`, `used_eq_zero_iff`).
-/

namespace RingQueue

variable {α : Type*}

/-- The queued elements, oldest first. -/
def contents (cap : Nat) (cells : Nat → α) (head count : Nat) : List α :=
  (List.range count).map fun i => cells ((head + i) % cap)

@[simp] theorem contents_length (cap : Nat) (cells : Nat → α) (head count : Nat) :
    (contents cap cells head count).length = count := by
  simp [contents]

@[simp] theorem contents_zero (cap : Nat) (cells : Nat → α) (head : Nat) :
    contents cap cells head 0 = [] := rfl

/-- Two cells of the ring less than `cap` apart are different cells. -/
theorem cell_ne {cap head i j : Nat} (hij : i < j) (hj : j < cap) :
    (head + i) % cap ≠ (head + j) % cap := by
  intro heq
  have hmod : (j - i) % cap = 0 := by
    have hsub := Nat.sub_mod_eq_zero_of_mod_eq heq.symm
    rwa [show head + j - (head + i) = j - i by omega] at hsub
  rw [Nat.mod_eq_of_lt (by omega)] at hmod
  omega

/-- Storing behind the last element of a queue that is not full appends. -/
theorem contents_enqueue {cap : Nat} {cells : Nat → α} {head count : Nat} {x : α}
    (hroom : count < cap) :
    contents cap (Function.update cells ((head + count) % cap) x) head (count + 1) =
      contents cap cells head count ++ [x] := by
  have hold : ∀ i ∈ List.range count,
      Function.update cells ((head + count) % cap) x ((head + i) % cap) =
        cells ((head + i) % cap) := by
    intro i hi
    apply Function.update_of_ne
    exact cell_ne (List.mem_range.mp hi) hroom
  simp only [contents, List.range_succ, List.map_append, List.map_cons, List.map_nil,
    Function.update_self]
  rw [List.map_congr_left hold]

/-- Advancing the head of a nonempty queue removes its oldest element. -/
theorem contents_dequeue {cap : Nat} {cells : Nat → α} {head count : Nat}
    (hhead : head < cap) (hcount : 0 < count) :
    contents cap cells head count =
      cells head :: contents cap cells ((head + 1) % cap) (count - 1) := by
  obtain ⟨n, rfl⟩ : ∃ n, count = n + 1 := ⟨count - 1, by omega⟩
  have hshift : ∀ i, (head + (i + 1)) % cap = ((head + 1) % cap + i) % cap := by
    intro i
    rw [Nat.mod_add_mod]
    congr 1
    omega
  rw [contents, List.range_succ_eq_map, List.map_cons, List.map_map, contents,
    Nat.add_zero, Nat.mod_eq_of_lt hhead]
  refine congrArg (cells head :: ·) (List.map_congr_left fun i _ => ?_)
  exact congrArg cells (hshift i)

/-! ### Two indices and a free cell -/

/-- The number of elements from `tail` up to `head`. -/
def used (cap tail head : Nat) : Nat := (head + cap - tail) % cap

variable {cap tail head : Nat}

/-- Without the remainder: the head is ahead of the tail, or has gone around. -/
theorem used_eq (htail : tail < cap) (hhead : head < cap) :
    used cap tail head = if tail ≤ head then head - tail else head + cap - tail := by
  unfold used
  split
  · rename_i hle
    rw [show head + cap - tail = head - tail + cap by omega, Nat.add_mod_right,
      Nat.mod_eq_of_lt (by omega)]
  · exact Nat.mod_eq_of_lt (by omega)

/-- The next index. -/
theorem succ_mod_eq {i : Nat} (hi : i < cap) :
    (i + 1) % cap = if i + 1 = cap then 0 else i + 1 := by
  split
  · rename_i hwrap
    rw [hwrap, Nat.mod_self]
  · exact Nat.mod_eq_of_lt (by omega)

theorem head_eq (htail : tail < cap) (hhead : head < cap) :
    (tail + used cap tail head) % cap = head := by
  rw [used_eq htail hhead]
  split
  · rw [show tail + (head - tail) = head by omega, Nat.mod_eq_of_lt hhead]
  · rw [show tail + (head + cap - tail) = head + cap by omega, Nat.add_mod_right,
      Nat.mod_eq_of_lt hhead]

theorem used_eq_zero_iff (htail : tail < cap) (hhead : head < cap) :
    used cap tail head = 0 ↔ head = tail := by
  rw [used_eq htail hhead]
  split
  · omega
  · omega

/-- The head may not move when it is one cell behind the tail. -/
theorem succ_eq_iff_full (htail : tail < cap) (hhead : head < cap) :
    (head + 1) % cap = tail ↔ used cap tail head + 1 = cap := by
  rw [used_eq htail hhead, succ_mod_eq hhead]
  split
  · split
    · omega
    · omega
  · split
    · omega
    · omega

theorem used_succ_head (htail : tail < cap) (hhead : head < cap)
    (hroom : used cap tail head + 1 < cap) :
    used cap tail ((head + 1) % cap) = used cap tail head + 1 := by
  have hnext : (head + 1) % cap < cap := Nat.mod_lt _ (by omega)
  rw [used_eq htail hhead] at hroom ⊢
  rw [used_eq htail hnext, succ_mod_eq hhead]
  split_ifs at hroom ⊢
  all_goals omega

theorem used_succ_tail (htail : tail < cap) (hhead : head < cap) (hne : head ≠ tail) :
    used cap ((tail + 1) % cap) head = used cap tail head - 1 := by
  have hnext : (tail + 1) % cap < cap := Nat.mod_lt _ (by omega)
  rw [used_eq htail hhead, used_eq hnext hhead, succ_mod_eq htail]
  split_ifs
  all_goals omega

end RingQueue
