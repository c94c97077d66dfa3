import Mathlib.Data.Set.Function

/-!
# Operations with a footprint

A memory is a function from cells to values.  An operation works within a set of cells if it
writes no other cell and what it leaves in the set depends on the set alone.  Such operations
are closed under composition and iteration, so a loop that only touches its own cells is one.
-/

namespace Footprint

variable {ι α β : Type*} {S : Set ι}

/-- `op` reads and writes only the cells of `S`. -/
structure Within (S : Set ι) (op : (ι → α) → ι → α) : Prop where
  frame : ∀ m i, i ∉ S → op m i = m i
  reads : ∀ m m', Set.EqOn m m' S → Set.EqOn (op m) (op m') S

theorem Within.id : Within S (fun m : ι → α => m) where
  frame _ _ _ := rfl
  reads _ _ h := h

theorem Within.comp {op op' : (ι → α) → ι → α} (hop' : Within S op') (hop : Within S op) :
    Within S (fun m => op' (op m)) where
  frame m i hi := by rw [hop'.frame (op m) i hi, hop.frame m i hi]
  reads m m' h := hop'.reads _ _ (hop.reads m m' h)

/-- A write to a cell of the set, of a value read in the set. -/
theorem Within.update [DecidableEq ι] {i : ι} (hi : i ∈ S) {value : (ι → α) → α}
    (hvalue : ∀ m m', Set.EqOn m m' S → value m = value m') :
    Within S (fun m => Function.update m i (value m)) where
  frame m j hj := by
    have hji : j ≠ i := fun h => hj (h.symm ▸ hi)
    exact Function.update_of_ne hji _ _
  reads m m' h j hj := by
    by_cases hji : j = i
    · subst hji
      simp only [Function.update_self]
      exact hvalue m m' h
    · simp only [Function.update_of_ne hji]
      exact h hj

/-- A loop whose body works within the set. -/
theorem Within.foldl {l : List β} {op : (ι → α) → β → ι → α}
    (hop : ∀ b ∈ l, Within S (fun m => op m b)) : Within S (fun m => l.foldl op m) := by
  induction l with
  | nil => exact Within.id
  | cons b l ih =>
      have hrest := ih fun b' hb' => hop b' (List.mem_cons_of_mem b hb')
      exact hrest.comp (hop b List.mem_cons_self)

end Footprint
