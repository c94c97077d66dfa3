import Mathlib.Data.List.Basic
import Mathlib.Logic.Function.Basic

/-!
# Fixed-size tables of entries

A table has a fixed number of places, some of them vacant.  A family of tables
changes in two ways: one table is replaced by the blank one, or an entry is put
in the first vacant place of one table, if it has one (`Change`).

`mem_applyAll` says where an entry found after a list of changes can have come
from, and `put_of_count_lt` when a table gains a copy of one.  `map_applyAll` relates a
family of tables to one whose entries carry more information, provided the extra
information plays no part in vacancy.
-/

namespace EntryTables

variable {σ ε ζ : Type*}

/-- Put `e` in the first vacant place; a table without one stays as it is. -/
def fill (vacant : ε → Bool) (table : List ε) (e : ε) : List ε :=
  match table.findIdx? vacant with
  | some i => table.set i e
  | none => table

/-- What is in a table after an addition was there before or was added. -/
theorem mem_fill {vacant : ε → Bool} {table : List ε} {e x : ε}
    (h : x ∈ fill vacant table e) : x ∈ table ∨ x = e := by
  unfold fill at h
  split at h
  · exact List.mem_or_eq_of_mem_set h
  · exact Or.inl h

/-- An addition covers no entry. -/
theorem mem_fill_of_mem {vacant : ε → Bool} {table : List ε} {e x : ε} (h : x ∈ table)
    (hx : vacant x = false) : x ∈ fill vacant table e := by
  unfold fill
  split
  · rename_i i hi
    obtain ⟨hlt, hvacant, _⟩ := List.findIdx?_eq_some_iff_getElem.mp hi
    obtain ⟨j, hj, rfl⟩ := List.getElem_of_mem h
    have hne : i ≠ j := by
      rintro rfl
      rw [hx] at hvacant
      cases hvacant
    exact List.mem_iff_getElem.mpr ⟨j, by simpa using hj, List.getElem_set_ne hne _⟩
  · exact h

/-- An addition takes a vacant place, if there is one. -/
theorem fill_of_vacant {vacant : ε → Bool} {table : List ε} (h : ∃ v ∈ table, vacant v = true)
    (e : ε) : ∃ i, ∃ hi : i < table.length, vacant table[i] = true ∧
      fill vacant table e = table.set i e := by
  cases hfind : table.findIdx? vacant with
  | none =>
      obtain ⟨v, hv, hvacant⟩ := h
      have hfull := List.findIdx?_eq_none_iff.mp hfind v hv
      rw [hvacant] at hfull
      cases hfull
  | some i =>
      obtain ⟨hlt, hvacant, _⟩ := List.findIdx?_eq_some_iff_getElem.mp hfind
      exact ⟨i, hlt, hvacant, by rw [fill, hfind]⟩

theorem fill_of_full {vacant : ε → Bool} {table : List ε} (h : ¬ ∃ v ∈ table, vacant v = true)
    (e : ε) : fill vacant table e = table := by
  have hfind : table.findIdx? vacant = none := by
    refine List.findIdx?_eq_none_iff.mpr fun v hv => ?_
    exact Bool.eq_false_iff.mpr fun hvacant => h ⟨v, hv, hvacant⟩
  rw [fill, hfind]

/-- What an addition leaves of the vacant places. -/
theorem countP_fill {vacant : ε → Bool} {table : List ε} {e : ε} (he : vacant e = false) :
    (fill vacant table e).countP vacant = table.countP vacant - 1 := by
  by_cases h : ∃ v ∈ table, vacant v = true
  · obtain ⟨i, hi, hvacant, heq⟩ := fill_of_vacant h e
    rw [heq, List.countP_set hi, if_pos hvacant, if_neg (by simp [he]), Nat.add_zero]
  · rw [fill_of_full h]
    have hzero : table.countP vacant = 0 := List.countP_eq_zero.mpr fun v hv hvacant =>
      h ⟨v, hv, hvacant⟩
    rw [hzero]

/-- **What is in a table after several additions**: as many of them as there were vacant
places, in their order. -/
theorem mem_foldl_fill {vacant : ε → Bool} {es table : List ε} {x : ε}
    (hes : ∀ e ∈ es, vacant e = false) (hx : vacant x = false) :
    x ∈ es.foldl (fill vacant) table ↔
      x ∈ table ∨ ∃ j < table.countP vacant, es[j]? = some x := by
  induction es generalizing table with
  | nil => simp
  | cons e es ih =>
      have he := hes e List.mem_cons_self
      rw [List.foldl_cons, ih fun e' he' => hes e' (List.mem_cons_of_mem _ he'), countP_fill he]
      constructor
      · rintro (hmem | ⟨j, hj, hget⟩)
        · by_cases hroom : ∃ v ∈ table, vacant v = true
          · rcases mem_fill hmem with hold | rfl
            · exact Or.inl hold
            · exact Or.inr ⟨0, List.countP_pos_iff.mpr hroom, rfl⟩
          · rw [fill_of_full hroom] at hmem
            exact Or.inl hmem
        · exact Or.inr ⟨j + 1, by omega, hget⟩
      · rintro (hold | ⟨j, hj, hget⟩)
        · exact Or.inl (mem_fill_of_mem hold hx)
        · cases j with
          | zero =>
              obtain ⟨i, hi, _, heq⟩ := fill_of_vacant (List.countP_pos_iff.mp hj) e
              have hxe : e = x := Option.some.inj hget
              left
              rw [heq, ← hxe]
              exact List.mem_set hi e
          | succ j => exact Or.inr ⟨j, by omega, hget⟩

/-- Forgetting information commutes with an addition. -/
theorem map_fill {vacant : ε → Bool} {vacant' : ζ → Bool} {f : ε → ζ}
    (hf : ∀ x, vacant' (f x) = vacant x) (table : List ε) (e : ε) :
    (fill vacant table e).map f = fill vacant' (table.map f) (f e) := by
  have hcomp : vacant' ∘ f = vacant := funext hf
  unfold fill
  rw [List.findIdx?_map, hcomp]
  cases table.findIdx? vacant with
  | none => rfl
  | some i => exact List.map_set

/-- One change to a family of tables. -/
inductive Change (σ ε : Type*) where
  | clear (s : σ)
  | put (s : σ) (e : ε)

/-- The same change with some information forgotten. -/
def Change.map (f : ε → ζ) : Change σ ε → Change σ ζ
  | .clear s => .clear s
  | .put s e => .put s (f e)

variable [DecidableEq σ]

/-- Perform one change. -/
def apply (vacant : ε → Bool) (blank : List ε) (tables : σ → List ε) :
    Change σ ε → σ → List ε
  | .clear s => Function.update tables s blank
  | .put s e => Function.update tables s (fill vacant (tables s) e)

/-- Perform a list of changes, in order. -/
def applyAll (vacant : ε → Bool) (blank : List ε) (tables : σ → List ε)
    (changes : List (Change σ ε)) : σ → List ε :=
  changes.foldl (apply vacant blank) tables

variable {vacant : ε → Bool} {blank : List ε}

/-- The table a change is about. -/
def Change.slot : Change σ ε → σ
  | .clear s => s
  | .put s _ => s

/-- Changes to other tables leave a table alone. -/
theorem applyAll_other {tables : σ → List ε} {changes : List (Change σ ε)} {s : σ}
    (h : ∀ change ∈ changes, change.slot ≠ s) : applyAll vacant blank tables changes s = tables s := by
  induction changes generalizing tables with
  | nil => rfl
  | cons change rest ih =>
      have hrest := @ih (apply vacant blank tables change) fun change' hmem =>
        h change' (List.mem_cons_of_mem _ hmem)
      refine hrest.trans ?_
      have hne := h change List.mem_cons_self
      cases change with
      | clear s' => exact Function.update_of_ne (Ne.symm hne) _ _
      | put s' e => exact Function.update_of_ne (Ne.symm hne) _ _

/-- Where an entry can have come from in one change. -/
theorem mem_apply {tables : σ → List ε} {change : Change σ ε} {s : σ} {x : ε}
    (h : x ∈ apply vacant blank tables change s) :
    (x ∈ tables s ∧ change ≠ .clear s) ∨ x ∈ blank ∨ change = .put s x := by
  cases change with
  | clear s' =>
      by_cases hs : s = s'
      · subst hs
        simp only [apply, Function.update_self] at h
        exact Or.inr (Or.inl h)
      · simp only [apply, Function.update_of_ne hs] at h
        refine Or.inl ⟨h, ?_⟩
        rintro ⟨⟩
        exact hs rfl
  | put s' e =>
      by_cases hs : s = s'
      · subst hs
        simp only [apply, Function.update_self] at h
        rcases mem_fill h with hold | rfl
        · exact Or.inl ⟨hold, by simp⟩
        · exact Or.inr (Or.inr rfl)
      · simp only [apply, Function.update_of_ne hs] at h
        exact Or.inl ⟨h, by simp⟩

/-- An entry goes only with its table. -/
theorem mem_apply_of_mem {tables : σ → List ε} {change : Change σ ε} {s : σ} {x : ε}
    (h : x ∈ tables s) (hx : vacant x = false) (hclear : change ≠ .clear s) :
    x ∈ apply vacant blank tables change s := by
  cases change with
  | clear s' =>
      have hs : s ≠ s' := fun heq => hclear (by rw [heq])
      rwa [apply, Function.update_of_ne hs]
  | put s' e =>
      by_cases hs : s = s'
      · subst hs
        rw [apply, Function.update_self]
        exact mem_fill_of_mem h hx
      · rwa [apply, Function.update_of_ne hs]

theorem mem_applyAll_of_mem {tables : σ → List ε} {changes : List (Change σ ε)} {s : σ} {x : ε}
    (h : x ∈ tables s) (hx : vacant x = false) (hclear : .clear s ∉ changes) :
    x ∈ applyAll vacant blank tables changes s := by
  induction changes generalizing tables with
  | nil => exact h
  | cons change rest ih =>
      rw [List.mem_cons, not_or] at hclear
      exact ih (mem_apply_of_mem h hx (Ne.symm hclear.1)) hclear.2

/-- **Where an entry can have come from.**  It was in the table and the table was
never replaced, it belongs to the blank table, or it was put there. -/
theorem mem_applyAll {tables : σ → List ε} {changes : List (Change σ ε)} {s : σ} {x : ε}
    (h : x ∈ applyAll vacant blank tables changes s) :
    (x ∈ tables s ∧ .clear s ∉ changes) ∨ x ∈ blank ∨ .put s x ∈ changes := by
  induction changes generalizing tables with
  | nil => exact Or.inl ⟨h, by simp⟩
  | cons change rest ih =>
      rcases @ih (apply vacant blank tables change) h with ⟨hold, hrest⟩ | hblank | hput
      · rcases mem_apply hold with ⟨hmem, hne⟩ | hblank | rfl
        · refine Or.inl ⟨hmem, ?_⟩
          rw [List.mem_cons, not_or]
          exact ⟨fun heq => hne heq.symm, hrest⟩
        · exact Or.inr (Or.inl hblank)
        · exact Or.inr (Or.inr List.mem_cons_self)
      · exact Or.inr (Or.inl hblank)
      · exact Or.inr (Or.inr (List.mem_cons_of_mem _ hput))

/-- A change other than putting `x` in the table does not add a copy of `x` to it. -/
theorem count_apply_le [DecidableEq ε] {tables : σ → List ε} {change : Change σ ε} {s : σ} {x : ε}
    (hblank : x ∉ blank) (hne : change ≠ .put s x) :
    (apply vacant blank tables change s).count x ≤ (tables s).count x := by
  cases change with
  | clear s' =>
      by_cases hs : s = s'
      · subst hs
        simp [apply, List.count_eq_zero_of_not_mem hblank]
      · simp [apply, hs]
  | put s' e =>
      by_cases hs : s = s'
      swap
      · simp [apply, hs]
      subst hs
      have hex : e ≠ x := by
        rintro rfl
        exact hne rfl
      simp only [apply, Function.update_self, fill]
      split
      · rename_i i hi
        obtain ⟨hlt, _⟩ := List.findIdx?_eq_some_iff_getElem.mp hi
        rw [List.count_set hlt]
        simp [hex]
      · exact Nat.le_refl _

/-- **A table gains a copy of an entry only if the entry was put there.** -/
theorem put_of_count_lt [DecidableEq ε] {tables : σ → List ε} {changes : List (Change σ ε)} {s : σ}
    {x : ε} (hblank : x ∉ blank)
    (h : (tables s).count x < (applyAll vacant blank tables changes s).count x) :
    .put s x ∈ changes := by
  induction changes generalizing tables with
  | nil => exact absurd h (Nat.lt_irrefl _)
  | cons change rest ih =>
      by_cases hput : change = .put s x
      · exact hput ▸ List.mem_cons_self
      · refine List.mem_cons_of_mem _ (@ih (apply vacant blank tables change) ?_)
        exact Nat.lt_of_le_of_lt (count_apply_le hblank hput) h

theorem map_apply {vacant' : ζ → Bool} {f : ε → ζ} (hf : ∀ x, vacant' (f x) = vacant x)
    (blank : List ε) (tables : σ → List ε) (change : Change σ ε) (s : σ) :
    (apply vacant blank tables change s).map f =
      apply vacant' (blank.map f) (fun s => (tables s).map f) (change.map f) s := by
  cases change with
  | clear s' =>
      by_cases hs : s = s'
      · subst hs
        simp [apply, Change.map]
      · simp [apply, Change.map, hs]
  | put s' e =>
      by_cases hs : s = s'
      · subst hs
        simp [apply, Change.map, map_fill hf]
      · simp [apply, Change.map, hs]

/-- **Forgetting information commutes with every list of changes.** -/
theorem map_applyAll {vacant' : ζ → Bool} {f : ε → ζ} (hf : ∀ x, vacant' (f x) = vacant x)
    (tables : σ → List ε) (changes : List (Change σ ε)) (s : σ) :
    (applyAll vacant blank tables changes s).map f =
      applyAll vacant' (blank.map f) (fun s => (tables s).map f) (changes.map (Change.map f)) s := by
  induction changes generalizing tables with
  | nil => rfl
  | cons change rest ih =>
      have hhead := funext fun s => map_apply hf blank tables change s
      simp only [applyAll, List.foldl_cons, List.map_cons] at ih ⊢
      rw [ih, hhead]

end EntryTables
