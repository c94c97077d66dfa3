import Vajra.StoreHistory

/-!
# Names as keys

`alloc_object` and `storage_rename` store the first 15 bytes of a name, while the check for
a name that is taken compares all of it.  So a name of 16 bytes or more passes the check
however often it is used (`long_name_taken_twice`).  In histories whose names all have at
most 15 bytes, no two live objects share a name and every name given is found again.
-/

namespace Vajra

open TransitionTrace

/-- No two live objects have the same stored name. -/
def UniqueNames (dir : Directory) : Prop :=
  ∀ i j e e', dir i = some e → dir j = some e' → e.name = e'.name → i = j

/-- The name a call gives to an object is short. -/
def StoreOp.NamesShort : StoreOp → Prop
  | .createObject name | .createNamed name | .rename _ name => ShortName name
  | _ => True

instance : (op : StoreOp) → Decidable op.NamesShort
  | .createObject name | .createNamed name | .rename _ name =>
      inferInstanceAs (Decidable (ShortName name))
  | .read _ _ | .write _ _ _ | .promote _ | .reject _ | .delete _ =>
      inferInstanceAs (Decidable True)

section Lookup

variable {st : Store} {name : Nat → UInt8} {id : Nat}

theorem directory_eq_some {e : Entry} (h : st.directory id = some e) :
    st.Live id ∧ e = ⟨nameString (st.objects id).name, (st.objects id).trust,
      (st.objects id).sizeBytes⟩ := by
  unfold Store.directory Object.entry at h
  split at h
  · cases h
  · rename_i hlive
    cases h
    exact ⟨hlive, rfl⟩

theorem directory_of_live (h : st.Live id) :
    st.directory id = some ⟨nameString (st.objects id).name, (st.objects id).trust,
      (st.objects id).sizeBytes⟩ := by
  unfold Store.directory Object.entry
  rw [if_neg h]

/-- What `find_by_name` finds. -/
theorem findByName_some (hok : TableOk st) (h : findByName st name = some id) :
    ShortName name ∧ ∃ e, st.directory id = some e ∧ e.name = nameString name := by
  have hmatch := List.find?_some h
  simp only [decide_eq_true_eq] at hmatch
  obtain ⟨hshort, hname⟩ := (nameEq_iff (hok.object id).name).mp hmatch.2
  exact ⟨hshort, _, directory_of_live hmatch.1, hname.symm⟩

/-- A short name that is not found is nobody's. -/
theorem findByName_none (hok : TableOk st) (h : findByName st name = none)
    (hshort : ShortName name) {e : Entry} (he : st.directory id = some e) :
    e.name ≠ nameString name := by
  intro hname
  obtain ⟨hlive, rfl⟩ := directory_eq_some he
  have hmem := List.mem_range.mpr (hok.lt_count hlive)
  have hno := List.find?_eq_none.mp h id hmem
  apply hno
  simp only [decide_eq_true_eq]
  exact ⟨hlive, (nameEq_iff (hok.object id).name).mpr ⟨hshort, hname.symm⟩⟩

/-- Where names are unique, `find_by_name` finds the object that has the name. -/
theorem findByName_eq (hok : TableOk st) (hunique : UniqueNames st.directory)
    (hshort : ShortName name) {e : Entry} (he : st.directory id = some e)
    (hname : e.name = nameString name) : findByName st name = some id := by
  cases hfind : findByName st name with
  | none => exact absurd hname (findByName_none hok hfind hshort he)
  | some j =>
      obtain ⟨-, e', he', hname'⟩ := findByName_some hok hfind
      rw [hunique j id e' e he' he (hname'.trans hname.symm)]

/-- **`storage_lookup_by_name`** finds an object by its name exactly when it is short. -/
theorem storageLookupByName_iff (hok : TableOk st)
    (hunique : ShortName name → UniqueNames st.directory) {e : Entry}
    (he : st.directory id = some e) (hname : e.name = nameString name) :
    storageLookupByName st name = id ↔ ShortName name := by
  unfold storageLookupByName
  constructor
  · intro hlookup
    cases hfind : findByName st name with
    | none =>
        rw [hfind] at hlookup
        dsimp only at hlookup
        omega
    | some j => exact (findByName_some hok hfind).1
  · intro hshort
    rw [findByName_eq hok (hunique hshort) hshort he hname]

end Lookup

theorem UniqueNames.update {dir : Directory} (h : UniqueNames dir) {id : Nat}
    {entry : Option Entry}
    (hnew : ∀ e, entry = some e → ∀ j e', j ≠ id → dir j = some e' → e'.name ≠ e.name) :
    UniqueNames (Function.update dir id entry) := by
  intro i j e e' he he' hname
  by_cases hi : i = id
  · by_cases hj : j = id
    · rw [hi, hj]
    · subst hi
      rw [Function.update_self] at he
      rw [Function.update_of_ne hj] at he'
      exact absurd hname.symm (hnew e he j e' hj he')
  · rw [Function.update_of_ne hi] at he
    by_cases hj : j = id
    · subst hj
      rw [Function.update_self] at he'
      exact absurd hname (hnew e' he' i e hi he)
    · rw [Function.update_of_ne hj] at he'
      exact h i j e e' he he' hname

/-- A record that keeps its name. -/
theorem UniqueNames.saved {st st' : Store} {id : Nat} {obj : Object}
    (hsave : Saved st st' id obj) (h : UniqueNames st.directory) (hlive : st.Live id)
    (hname : obj.name = (st.objects id).name) : UniqueNames st'.directory := by
  rw [hsave.directory]
  refine h.update fun e he j e' hj he' hsame => hj ?_
  refine h j id e' _ he' (directory_of_live hlive) ?_
  rw [hsame]
  unfold Object.entry at he
  split at he
  · cases he
  · cases he
    exact congrArg nameString hname

/-- **A call with a short name keeps names unique.** -/
theorem StoreEffect.uniqueNames {st st' : Store} {op : StoreOp} {r : StoreReply}
    (heffect : StoreEffect st op st' r) (hok : StoreOk st) (h : UniqueNames st.directory)
    (hshort : op.NamesShort) : UniqueNames st'.directory := by
  cases heffect with
  | refused hsame | fetched _ hsame =>
      rw [hsame.directory]
      exact h
  | found | torn => exact h
  | @created op name id st' hop hnew hpick hsave =>
      have hname : ShortName name := by
        rcases hop with rfl | rfl
        · exact hshort
        · exact hshort
      rw [hsave.directory]
      refine h.update fun e he j e' _ he' => ?_
      cases he
      rw [nameString_copyName]
      exact findByName_none hok.table hnew hname he'
  | written hvalid _ _ hsave => exact UniqueNames.saved hsave h hvalid.2.2 rfl
  | promoted hvalid _ hsave | rejected hvalid hsave => exact UniqueNames.saved hsave h hvalid.2.2 rfl
  | @renamed id newName st' hnamed hfree hsave =>
      rw [hsave.directory]
      refine h.update fun e he j e' hj he' hsame => hj ?_
      have he_name : e.name = nameString newName := by
        unfold Object.entry at he
        split at he
        · cases he
        · cases he
          exact nameString_copyName _ _
      have hfound := findByName_eq hok.table h hshort he' (hsame.trans he_name)
      exact hfree j hfound
  | deleted hnamed hsave =>
      rw [hsave.directory]
      exact h.update fun e he => nomatch he

/-- The calls of a history give short names only. -/
def ShortNamed (tr : List StoreRecord) : Prop :=
  ∀ t ∈ tr, ∀ op, t.event = .call op → op.NamesShort

theorem StoreRun.uniqueNames {d : Disk} {scratch : Nat → UInt8} {tr : List StoreRecord}
    {st : Store} (hblank : d.Blank) (hrun : StoreRun d scratch tr st) (hshort : ShortNamed tr) :
    UniqueNames st.directory :=
  (StoreRun.directories (fun _ _ _ _ he => nomatch he)
    (fun hok h hop heffect => heffect.uniqueNames hok h hop) hblank hrun hshort).1

/-- **Names are unique keys while they are short.**  After every history, on a disk that may
fail any request, in which all names given have at most 15 bytes: no two live objects have
the same stored name; and a name with which an object is created or renamed next is found
again, as that object, exactly when it has at most 15 bytes, too. -/
theorem names_are_keys {d : Disk} {scratch : Nat → UInt8} {tr : List StoreRecord} {st : Store}
    (hblank : d.Blank) (hrun : StoreRun d scratch tr st) (hshort : ShortNamed tr) :
    UniqueNames st.directory ∧
    (∀ name st' id, storageCreateNamed st name = (st', id) → 0 ≤ id →
      (storageLookupByName st' name = id ↔ ShortName name)) ∧
    ∀ id name st', storageRename st id name = (st', 0) →
      (storageLookupByName st' name = id ↔ ShortName name) := by
  have hok := StoreRun.storeOk hblank hrun
  have hunique := StoreRun.uniqueNames hblank hrun hshort
  refine ⟨hunique, fun name st' id hcall hid => ?_, fun id name st' hcall => ?_⟩
  · have heffect := storeCall_effect hok.table (.createNamed name)
    simp only [storeCall, hcall] at heffect
    have hok' := heffect.storeOk hok
    have hunique' := heffect.uniqueNames hok hunique
    generalize hr : (⟨id, []⟩ : StoreReply) = r at heffect
    cases heffect with
    | refused hsame =>
        cases hr
        exact absurd hid (by decide)
    | @created _ name' j _ hop _ _ hsave =>
        cases hr
        have hname : name = name' := by
          rcases hop with hop | hop
          · cases hop
          · exact StoreOp.createNamed.inj hop
        subst hname
        refine storageLookupByName_iff hok'.table hunique'
          (e := ⟨nameString name, objUntrusted, 0⟩) ?_ rfl
        rw [hsave.directory, Function.update_self]
        simp [Object.entry]
  · have heffect := storeCall_effect hok.table (.rename id name)
    simp only [storeCall, hcall] at heffect
    have hok' := heffect.storeOk hok
    have hunique' := heffect.uniqueNames hok hunique
    generalize hr : (⟨0, []⟩ : StoreReply) = r at heffect
    cases heffect with
    | refused hsame => cases hr
    | created hop =>
        rcases hop with hop | hop
        · cases hop
        · cases hop
    | renamed hnamed hfree hsave =>
        have hentry : st'.directory id.toNat = some ⟨nameString name,
            (st.objects id.toNat).trust, (st.objects id.toNat).sizeBytes⟩ := by
          rw [hsave.directory, Function.update_self, Object.entry, if_neg hnamed.2.2]
          simp
        have hlookup := storageLookupByName_iff hok'.table hunique' hentry rfl
        rw [Int.toNat_of_nonneg hnamed.1] at hlookup
        exact hlookup

/-- An event whose names are short. -/
def namesShort : StoreEvent → Bool
  | .call op => decide op.NamesShort
  | .boot _ => true

set_option maxRecDepth 100000 in
/-- An object is created, the machine is restarted, and the object is renamed. -/
theorem names_are_keys_after_reboot :
    ∃ tr st, zeroDisk.Blank ∧ StoreRun zeroDisk (fun _ => 0) tr st ∧ ShortNamed tr ∧
      st.directory 0 = some ⟨[0x62], objUntrusted, 0⟩ ∧ UniqueNames st.directory := by
  have hblank : zeroDisk.Blank := by decide
  have hrun : (storeHistory zeroDisk [.call (.createNamed (cstring [0x61])), .boot fun _ => 0,
      .call (.rename 0 (cstring [0x62]))]).map
      (fun r => (r.1.all fun t => namesShort t.event, r.2.directory 0)) =
      some (true, some ⟨[0x62], objUntrusted, 0⟩) := by
    decide +kernel
  obtain ⟨tr, st, htrace, hview⟩ := exists_trace_of_runTrace hrun
  simp only [Prod.mk.injEq, List.all_eq_true] at hview
  have hshort : ShortNamed tr := by
    intro t ht op hop
    have hcheck := hview.1 t ht
    rw [hop] at hcheck
    exact of_decide_eq_true hcheck
  exact ⟨tr, st, hblank, htrace, hshort, hview.2, (names_are_keys hblank htrace hshort).1⟩

/-- Sixteen letters `a`. -/
def longName : Nat → UInt8 := cstring (List.replicate 16 0x61)

set_option maxRecDepth 100000 in
/-- The same name of sixteen bytes is created twice, and is not found afterwards. -/
theorem long_name_taken_twice :
    ∃ tr st, zeroDisk.Blank ∧ StoreRun zeroDisk (fun _ => 0) tr st ∧
      (tr.map fun t => t.outcome.ret) = [1, 0] ∧
      (∀ t ∈ tr, t.event = .call (.createNamed longName)) ∧ ¬ UniqueNames st.directory ∧
      storageLookupByName st longName = -1 := by
  have hrun : (storeHistory zeroDisk [.call (.createNamed longName),
      .call (.createNamed longName)]).map (fun r => (r.1.map fun t => t.outcome.ret,
        r.2.directory 0, r.2.directory 1, storageLookupByName r.2 longName)) =
      some ([1, 0], some ⟨List.replicate 15 0x61, objUntrusted, 0⟩,
        some ⟨List.replicate 15 0x61, objUntrusted, 0⟩, -1) := by
    decide +kernel
  have hevents : (storeHistory zeroDisk [.call (.createNamed longName),
      .call (.createNamed longName)]).map (fun r => r.1.map fun t => t.event) =
      some [.call (.createNamed longName), .call (.createNamed longName)] := rfl
  cases hres : storeHistory zeroDisk [.call (.createNamed longName),
      .call (.createNamed longName)] with
  | none =>
      rw [hres] at hrun
      cases hrun
  | some r =>
      rw [hres] at hrun hevents
      simp only [Option.map_some, Option.some.injEq, Prod.mk.injEq] at hrun hevents
      obtain ⟨hret, hzero, hone, hlookup⟩ := hrun
      refine ⟨r.1, r.2, by decide, runTrace_sound Trace.nil hres, hret, fun t ht => ?_,
        fun hunique => ?_, hlookup⟩
      · have hmem := List.mem_map_of_mem (f := fun t => t.event) ht
        rw [hevents] at hmem
        simpa using hmem
      · exact absurd (hunique 0 1 _ _ hzero hone rfl) (by decide)

end Vajra
