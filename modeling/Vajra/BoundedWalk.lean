import Mathlib.Data.Finset.Card
import Mathlib.Data.Nat.Find

/-!
# Walks along a chain, with a bound on the number of steps

`next` says which element follows another, if any, and `nth` is the chain from an element on.
It may run into a cycle.  `search` looks at no more than the given number of elements for one
that satisfies a predicate.

What follows an element often depends only on a part of it, its key, and so does the predicate.
If there are no more keys on the chain than `search` takes steps, it misses nothing
(`search_iff`): the first element that satisfies the predicate has none of the keys before it.
-/

namespace BoundedWalk

variable {α κ : Type*} (next : α → Option α) (p : α → Bool)

/-- The element after `n` steps. -/
def nth (start : Option α) : Nat → Option α
  | 0 => start
  | n + 1 => (nth start n).bind next

/-- Look for an element that satisfies `p` among the first ones. -/
def search : Nat → Option α → Bool
  | 0, _ => false
  | _ + 1, none => false
  | n + 1, some x => p x || search n (next x)

/-- The chain from the second element on. -/
theorem nth_succ (x : α) (n : Nat) : nth next (some x) (n + 1) = nth next (next x) n := by
  induction n with
  | zero => rfl
  | succ n ih => rw [nth, ih, nth]

theorem nth_none (n : Nat) : nth next none n = none := by
  induction n with
  | zero => rfl
  | succ n ih => rw [nth, ih, Option.bind_none]

/-- **What the search looks at.** -/
theorem search_iff_nth (fuel : Nat) (start : Option α) :
    search next p fuel start = true ↔ ∃ n < fuel, ∃ x, nth next start n = some x ∧ p x = true := by
  induction fuel generalizing start with
  | zero => simp [search]
  | succ fuel ih =>
      cases start with
      | none => simp [search, nth_none]
      | some x =>
          rw [search, Bool.or_eq_true, ih]
          constructor
          · rintro (hx | ⟨n, hn, y, hy, hpy⟩)
            · exact ⟨0, Nat.succ_pos _, x, rfl, hx⟩
            · exact ⟨n + 1, Nat.succ_lt_succ hn, y, by rw [nth_succ, hy], hpy⟩
          · rintro ⟨n, hn, y, hy, hpy⟩
            cases n with
            | zero =>
                cases hy
                exact Or.inl hpy
            | succ n =>
                rw [nth_succ] at hy
                exact Or.inr ⟨n, Nat.lt_of_succ_lt_succ hn, y, hy, hpy⟩

/-- A chain that has come to an end has no more elements. -/
theorem nth_isSome_of_le {start : Option α} {m n : Nat} (hmn : m ≤ n)
    (hn : (nth next start n).isSome) : (nth next start m).isSome := by
  induction n with
  | zero =>
      rw [Nat.le_zero.mp hmn]
      exact hn
  | succ n ih =>
      rcases Nat.lt_or_ge m (n + 1) with hlt | hge
      · refine ih (Nat.le_of_lt_succ hlt) ?_
        cases hprev : nth next start n with
        | none => simp [nth, hprev] at hn
        | some x => rfl
      · rw [Nat.le_antisymm hmn hge]
        exact hn

variable {next p} {key : α → κ} {start : Option α}

/-- From two elements with one key on, the chain is the same. -/
theorem nth_add_eq (hnext : ∀ x y, key x = key y → next x = next y) {i j : Nat} {x y : α}
    (hx : nth next start i = some x) (hy : nth next start j = some y) (hkey : key x = key y)
    (m : Nat) : nth next start (i + 1 + m) = nth next start (j + 1 + m) := by
  induction m with
  | zero => rw [Nat.add_zero, Nat.add_zero, nth, nth, hx, hy, Option.bind_some, Option.bind_some,
      hnext x y hkey]
  | succ m ih => rw [← Nat.add_assoc, ← Nat.add_assoc, nth, nth, ih]

/-- More elements than keys: two of them have one key. -/
theorem exists_same_key (keys : Finset κ)
    (hkeys : ∀ n x, nth next start n = some x → key x ∈ keys) {n : Nat} (hlarge : keys.card ≤ n)
    (hn : (nth next start n).isSome) :
    ∃ i j x y, i < j ∧ j ≤ n ∧ nth next start i = some x ∧ nth next start j = some y ∧
      key x = key y := by
  have hsome : ∀ m ∈ Finset.range (n + 1), ∃ x, nth next start m = some x := fun m hm =>
    Option.isSome_iff_exists.mp
      (nth_isSome_of_le next (Nat.le_of_lt_succ (Finset.mem_range.mp hm)) hn)
  let keyAt : Nat → Option κ := fun m => (nth next start m).map key
  have hmaps : ∀ m ∈ Finset.range (n + 1), keyAt m ∈ keys.map ⟨some, Option.some_injective κ⟩ := by
    intro m hm
    obtain ⟨x, hx⟩ := hsome m hm
    rw [show keyAt m = some (key x) by simp only [keyAt, hx, Option.map_some]]
    exact Finset.mem_map_of_mem _ (hkeys m x hx)
  have hcard : (keys.map ⟨some, Option.some_injective κ⟩).card < (Finset.range (n + 1)).card := by
    rw [Finset.card_map, Finset.card_range]
    omega
  obtain ⟨i, hi, j, hj, hij, heq⟩ := Finset.exists_ne_map_eq_of_card_lt_of_maps_to hcard hmaps
  obtain ⟨x, hx⟩ := hsome i hi
  obtain ⟨y, hy⟩ := hsome j hj
  have hkey : key x = key y := by
    simpa only [keyAt, hx, hy, Option.map_some, Option.some.injEq] using heq
  rw [Finset.mem_range] at hi hj
  rcases Nat.lt_or_gt_of_ne hij with hlt | hgt
  · exact ⟨i, j, x, y, hlt, Nat.le_of_lt_succ hj, hx, hy, hkey⟩
  · exact ⟨j, i, y, x, hgt, Nat.le_of_lt_succ hi, hy, hx, hkey.symm⟩

/-- The first element that satisfies `p` comes before a key is repeated. -/
theorem first_lt_card (hnext : ∀ x y, key x = key y → next x = next y)
    (hp : ∀ x y, key x = key y → p x = p y) (keys : Finset κ)
    (hkeys : ∀ n x, nth next start n = some x → key x ∈ keys) {n : Nat} {x : α}
    (hx : nth next start n = some x) (hpx : p x = true)
    (hfirst : ∀ m < n, ∀ y, nth next start m = some y → ¬ p y = true) : n < keys.card := by
  by_contra hlarge
  obtain ⟨i, j, y, z, hij, hj, hy, hz, hkey⟩ :=
    exists_same_key keys hkeys (Nat.not_lt.mp hlarge) (by rw [hx]; rfl)
  rcases Nat.lt_or_ge j n with hlt | hge
  · -- the stretch from `i` to `j` can be left out
    obtain ⟨m, rfl⟩ := Nat.exists_eq_add_of_lt hlt
    have hshort := nth_add_eq hnext hy hz hkey m
    rw [show j + 1 + m = j + m + 1 by omega, hx] at hshort
    exact hfirst (i + 1 + m) (by omega) x hshort hpx
  · -- the element at `i` satisfies `p` as well
    have hjn : j = n := Nat.le_antisymm hj hge
    rw [hjn, hx, Option.some_inj] at hz
    subst hz
    exact hfirst i (by omega) y hy ((hp _ _ hkey).trans hpx)

/-- **A search with as many steps as there are keys misses nothing.** -/
theorem search_iff (hnext : ∀ x y, key x = key y → next x = next y)
    (hp : ∀ x y, key x = key y → p x = p y) (keys : Finset κ)
    (hkeys : ∀ n x, nth next start n = some x → key x ∈ keys) {fuel : Nat}
    (hfuel : keys.card ≤ fuel) :
    search next p fuel start = true ↔ ∃ n x, nth next start n = some x ∧ p x = true := by
  rw [search_iff_nth]
  constructor
  · rintro ⟨n, -, x, hx, hpx⟩
    exact ⟨n, x, hx, hpx⟩
  · intro hfound
    classical
    obtain ⟨x, hx, hpx⟩ := Nat.find_spec hfound
    refine ⟨Nat.find hfound, lt_of_lt_of_le ?_ hfuel, x, hx, hpx⟩
    refine first_lt_card hnext hp keys hkeys hx hpx fun m hm y hy hpy => ?_
    exact Nat.find_min hfound hm ⟨y, hy, hpy⟩

end BoundedWalk
