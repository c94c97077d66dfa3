import Mathlib.Data.PEquiv

/-!
# Updating a partial injection

A `PEquiv` is a one-to-one map between some keys and some values.  `assign` binds a key to a
value and drops the pairs either of them was in, so that the result is one-to-one again
without a side condition; `release` drops the pair of a value.  Seen from the values, both
change one point (`assign_symm_of_ne`, `release_symm_of_ne`).
-/

namespace PartialInjection

variable {α β : Type*} [DecidableEq β] {f : α ≃. β} {a : α} {b y : β}

/-- Drop the pair of `b`. -/
def release (f : α ≃. β) (b : β) : α ≃. β where
  toFun x := if f x = some b then none else f x
  invFun y := if y = b then none else f.symm y
  inv x y := by
    by_cases hy : y = b
    · rw [if_pos hy, hy]
      by_cases hb : f x = some b
      · simp [hb]
      · simp [hb]
    · rw [if_neg hy, f.eq_some_iff]
      by_cases hb : f x = some b
      · simp [hb, Ne.symm hy]
      · simp [hb]

@[simp] theorem release_symm_self : (release f b).symm b = none := if_pos rfl

theorem release_symm_of_ne (hy : y ≠ b) : (release f b).symm y = f.symm y := if_neg hy

variable [DecidableEq α]

/-- Bind `a` to `b`. -/
def assign (f : α ≃. β) (a : α) (b : β) : α ≃. β where
  toFun x := if x = a then some b else if f x = some b then none else f x
  invFun y := if y = b then some a else if f.symm y = some a then none else f.symm y
  inv x y := by
    by_cases hx : x = a
    · by_cases hy : y = b
      · simp [hx, hy]
      · rw [if_neg hy, if_pos hx, hx]
        by_cases ha : f.symm y = some a
        · simp [ha, Ne.symm hy]
        · simp [ha, Ne.symm hy]
    · by_cases hy : y = b
      · rw [if_pos hy, if_neg hx, hy]
        by_cases hb : f x = some b
        · simp [hb, Ne.symm hx]
        · simp [hb, Ne.symm hx]
      · rw [if_neg hx, if_neg hy]
        by_cases hxy : f x = some y
        · have hyx := f.eq_some_iff.mpr hxy
          simp [hxy, hyx, hx, hy]
        · have hyx : f.symm y ≠ some x := fun h => hxy (f.eq_some_iff.mp h)
          refine iff_of_false (fun h => ?_) fun h => ?_
          · split at h
            · cases h
            · exact hyx h
          · split at h
            · cases h
            · exact hxy h

@[simp] theorem assign_symm_self : (assign f a b).symm b = some a := if_pos rfl

/-- A value that does not have the key keeps its own. -/
theorem assign_symm_of_ne (hy : y ≠ b) (hkey : f a = none ∨ f a = some b) :
    (assign f a b).symm y = f.symm y := by
  have hne : f.symm y ≠ some a := by
    intro h
    have ha := f.eq_some_iff.mp h
    rcases hkey with hkey | hkey
    · rw [hkey] at ha
      cases ha
    · rw [hkey] at ha
      exact hy (Option.some.inj ha).symm
  exact (if_neg hy).trans (if_neg hne)

end PartialInjection
