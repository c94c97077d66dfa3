import Mathlib.Data.List.Basic
import Mathlib.Order.Basic

/-!
# Scanning a ring of positions

A scan goes once round a ring of `n` positions, from the one behind its start to the start
itself, and stops at the first position that satisfies a predicate.  `gap start x` counts the
positions it passes over on the way to `x`.

A scan stops no later than at any position `y` that satisfies the predicate, and where it stops
short of `y` the gap to `y` has become smaller (`scan_gap_lt`).  So scans that start where the
last one stopped come to `y` before they come back to where they began.
-/

namespace RoundRobin

variable {n : Nat}

/-- The position `i` places behind `start`. -/
def after (start : Fin n) (i : Nat) : Fin n := ⟨(start + i) % n, Nat.mod_lt _ start.pos⟩

/-- The positions between `start` and `x`. -/
def gap (start x : Fin n) : Nat := if start < x then x - start - 1 else x + n - start - 1

/-- The first position behind `start` that satisfies `p`, with `start` itself last. -/
def scan (p : Fin n → Bool) (start : Fin n) : Option (Fin n) :=
  ((List.range n).map fun i => after start (i+1)).find? p

theorem gap_lt (start x : Fin n) : gap start x < n := by
  unfold gap
  have hs := start.isLt
  have hx := x.isLt
  split <;> omega

theorem after_gap (start x : Fin n) : after start (gap start x + 1) = x := by
  have hs := start.isLt
  have hx := x.isLt
  refine Fin.ext ?_
  simp only [after, gap]
  split
  · next hlt =>
      have hlt : (start : Nat) < x := hlt
      rw [Nat.mod_eq_of_lt (by omega)]
      omega
  · next hle =>
      have hle : ¬ (start : Nat) < x := hle
      have hround : (start : Nat) + (x + n - start - 1 + 1) = x + n := by omega
      rw [hround, Nat.add_mod_right, Nat.mod_eq_of_lt hx]

/-- The scan meets the positions in the order of their gaps. -/
theorem gap_after (start : Fin n) {i : Nat} (hi : i < n) : gap start (after start (i+1)) = i := by
  have hs := start.isLt
  unfold gap after
  simp only [Fin.lt_def]
  by_cases hlt : (start : Nat) + (i+1) < n
  · rw [Nat.mod_eq_of_lt hlt, if_pos (by omega)]
    omega
  · have hwrap : ((start : Nat) + (i+1)) % n = start + (i+1) - n := by
      rw [Nat.mod_eq_sub_mod (by omega), Nat.mod_eq_of_lt (by omega)]
    rw [hwrap, if_neg (by omega)]
    omega

theorem scan_none {p : Fin n → Bool} {start : Fin n} (h : scan p start = none) (y : Fin n) :
    p y = false := by
  have hall := List.find?_eq_none.mp h y (List.mem_map.mpr
    ⟨gap start y, List.mem_range.mpr (gap_lt start y), after_gap start y⟩)
  simpa using hall

/-- A scan stops no later than at a position that satisfies the predicate. -/
theorem scan_gap_le {p : Fin n → Bool} {start x y : Fin n} (h : scan p start = some x)
    (hy : p y = true) : gap start x ≤ gap start y := by
  obtain ⟨-, i, hi, hx, hbefore⟩ := List.find?_eq_some_iff_getElem.mp h
  simp only [List.length_map, List.length_range] at hi
  rw [List.getElem_map, List.getElem_range] at hx
  rw [← hx, gap_after start hi]
  by_contra hlt
  have hfound := hbefore (gap start y) (Nat.not_le.mp hlt)
  rw [List.getElem_map, List.getElem_range, after_gap, hy] at hfound
  simp at hfound

/-- Where the scan stops short of `y`, there are fewer positions left before `y`. -/
theorem scan_gap_lt {p : Fin n → Bool} {start x y : Fin n} (h : scan p start = some x)
    (hy : p y = true) (hne : x ≠ y) : gap x y < gap start y := by
  have hle := scan_gap_le h hy
  have hval : (x : Nat) ≠ y := fun heq => hne (Fin.ext heq)
  have hx := x.isLt
  have hs := start.isLt
  have hyn := y.isLt
  unfold gap at *
  simp only [Fin.lt_def] at *
  split_ifs at * <;> omega

end RoundRobin
