import Vajra.NameKeys
import Vajra.ReadYourWrites
import Vajra.PartialInjection

/-!
# The namespace as a finite map

What the store is for: a one-to-one map from names to the eight ids, with a trust level and
a size for each id that has a name (`Namespace`).  `NamespaceStep` says what each call of
`storage.c` answers and what it makes of the map; a restart makes nothing of it.

`Represents` connects the two: the live records of the table, in the order of their ids, are
the pairs of the map.  Which of the two allocation regimes gave an id, how many records the
table has and what the dead ones still hold is not part of the map.
-/

namespace Vajra

open TransitionTrace PartialInjection

/-- Names bound to ids, and what is recorded about each id. -/
structure Namespace where
  names : List UInt8 ≃. Fin maxObjects
  trust : Fin maxObjects → Nat
  size : Fin maxObjects → Nat

namespace Namespace

/-- Nothing is bound. -/
def empty : Namespace := { names := ⊥, trust := fun _ => 0, size := fun _ => 0 }

/-- What is recorded about id `i`, if it has a name. -/
def entry (M : Namespace) (i : Fin maxObjects) : Option Entry :=
  (M.names.symm i).map fun name => ⟨name, M.trust i, M.size i⟩

/-- Record a trust level and a size. -/
def record (M : Namespace) (i : Fin maxObjects) (trust size : Nat) : Namespace :=
  { M with trust := Function.update M.trust i trust, size := Function.update M.size i size }

/-- Bind `name` to `i` and record what is known about it. -/
def put (M : Namespace) (name : List UInt8) (i : Fin maxObjects) (trust size : Nat) : Namespace :=
  { M.record i trust size with names := assign M.names name i }

/-- Take the name of `i` away. -/
def free (M : Namespace) (i : Fin maxObjects) : Namespace :=
  { M with names := release M.names i }

/-- Id `i` has a name. -/
def Live (M : Namespace) (i : Fin maxObjects) : Prop := M.names.symm i ≠ none

/-- The argument `id` of a call is the live id `i`. -/
def Names (M : Namespace) (id : Int) (i : Fin maxObjects) : Prop := id = (i : Nat) ∧ M.Live i

/-- The answer to a lookup. -/
def lookup (M : Namespace) (name : List UInt8) : Int :=
  ((M.names name).map fun i => ((i : Nat) : Int)).getD (-1)

end Namespace

/-- **What a call answers and what it makes of the map.** -/
inductive NamespaceStep (M : Namespace) : StoreOp → Int → Namespace → Prop
  | createdNamed {name : Nat → UInt8} {i : Fin maxObjects}
      (hfree : M.names (nameString name) = none) (hdead : ¬ M.Live i) :
      NamespaceStep M (.createNamed name) (i : Nat) (M.put (nameString name) i objUntrusted 0)
  | takenNamed {name : Nat → UInt8}
      (h : M.names (nameString name) ≠ none ∨ ∀ i, M.Live i) :
      NamespaceStep M (.createNamed name) (-1) M
  | foundObject {name : Nat → UInt8} {i : Fin maxObjects}
      (h : M.names (nameString name) = some i) :
      NamespaceStep M (.createObject name) (i : Nat) M
  | createdObject {name : Nat → UInt8} {i : Fin maxObjects}
      (hfree : M.names (nameString name) = none) (hdead : ¬ M.Live i) :
      NamespaceStep M (.createObject name) (i : Nat) (M.put (nameString name) i objUntrusted 0)
  | fullObject {name : Nat → UInt8} (hfree : M.names (nameString name) = none)
      (hfull : ∀ i, M.Live i) :
      NamespaceStep M (.createObject name) (-1) M
  | renamed {id : Int} {i : Fin maxObjects} {name : Nat → UInt8} (hlive : M.Names id i)
      (hfree : M.names (nameString name) = none ∨ M.names (nameString name) = some i) :
      NamespaceStep M (.rename id name) 0 (M.put (nameString name) i (M.trust i) (M.size i))
  | notRenamed {id : Int} {name : Nat → UInt8}
      (h : ∀ i, M.Names id i →
        ¬ (M.names (nameString name) = none ∨ M.names (nameString name) = some i)) :
      NamespaceStep M (.rename id name) (-1) M
  | deleted {id : Int} {i : Fin maxObjects} (hlive : M.Names id i) :
      NamespaceStep M (.delete id) 0 (M.free i)
  | notDeleted {id : Int} (h : ∀ i, ¬ M.Names id i) : NamespaceStep M (.delete id) (-1) M
  | wrote {id : Int} {i : Fin maxObjects} {buf : Nat → UInt8} {len : Nat} (hlive : M.Names id i)
      (hlen : len ≤ objectMaxBytes) :
      NamespaceStep M (.write id buf len) len (M.record i objUntrusted len)
  | notWritten {id : Int} {buf : Nat → UInt8} {len : Nat}
      (h : (∀ i, ¬ M.Names id i) ∨ objectMaxBytes < len) :
      NamespaceStep M (.write id buf len) (-1) M
  | promoted {id : Int} {i : Fin maxObjects} (hlive : M.Names id i)
      (hlevel : M.trust i ≠ objTrusted ∧ M.trust i ≠ objRejected) :
      NamespaceStep M (.promote id) (M.trust i + 1 : Nat) (M.record i (M.trust i + 1) (M.size i))
  | notPromoted {id : Int}
      (h : ∀ i, M.Names id i → M.trust i = objTrusted ∨ M.trust i = objRejected) :
      NamespaceStep M (.promote id) (-1) M
  | rejected {id : Int} {i : Fin maxObjects} (hlive : M.Names id i) :
      NamespaceStep M (.reject id) 0 (M.record i objRejected (M.size i))
  | notRejected {id : Int} (h : ∀ i, ¬ M.Names id i) : NamespaceStep M (.reject id) (-1) M
  | read {id : Int} {bufLen : Nat} {ret : Int} : NamespaceStep M (.read id bufLen) ret M

/-- The map after a history, each call answered as recorded; a restart keeps it. -/
inductive NamespaceRun : List StoreRecord → Namespace → Prop
  | start : NamespaceRun [] .empty
  | call {tr : List StoreRecord} {t : StoreRecord} {op : StoreOp} {M M' : Namespace}
      (before : NamespaceRun tr M) (hcall : t.event = .call op)
      (hstep : NamespaceStep M op t.outcome.ret M') : NamespaceRun (t :: tr) M'
  | boot {tr : List StoreRecord} {t : StoreRecord} {scratch : Nat → UInt8} {M : Namespace}
      (before : NamespaceRun tr M) (hboot : t.event = .boot scratch) : NamespaceRun (t :: tr) M

/-- `storage_get_by_index(0)`, `(1)`, … hands out the live ids in increasing order, each with
its name, trust level and size, and nothing after them. -/
structure Listing (M : Namespace) (st : Store) (ids : List (Fin maxObjects)) : Prop where
  increasing : ids.Pairwise (· < ·)
  live : ∀ i, i ∈ ids ↔ M.Live i
  shown : ∀ (nth : Nat) (nameBuf : Nat → UInt8) (i : Fin maxObjects), ids[nth]? = some i →
    ∃ info, storageGetByIndex st nth nameBuf = some info ∧ info.id = i ∧ ShortName info.name ∧
      M.entry i = some ⟨nameString info.name, info.trust, info.sizeBytes⟩
  stops : ∀ (nth : Nat) (nameBuf : Nat → UInt8), ids.length ≤ nth →
    storageGetByIndex st nth nameBuf = none

/-- Why a call is refused on a disk that does not fail. -/
def Refusal (st : Store) : StoreOp → Prop
  | .createObject name => findByName st name = none ∧ pickObject st = none
  | .createNamed name => findByName st name ≠ none ∨ pickObject st = none
  | .read _ _ => True
  | .write id _ len => ¬ st.Valid id ∨ objectMaxBytes < len
  | .promote id => st.Valid id →
      (st.objects id.toNat).trust = objTrusted ∨ (st.objects id.toNat).trust = objRejected
  | .reject id => ¬ st.Valid id
  | .rename id name => st.Named id → ∃ j, findByName st name = some j ∧ j ≠ id.toNat
  | .delete id => ¬ st.Named id

/-- The live records of the table are the pairs of the map. -/
def Represents (M : Namespace) (st : Store) : Prop := ∀ i : Fin maxObjects, st.directory i = M.entry i

namespace Namespace

variable {M : Namespace} {i j : Fin maxObjects} {name : List UInt8} {trust size : Nat}

theorem entry_eq_some {e : Entry} :
    M.entry i = some e ↔ M.names e.name = some i ∧ M.trust i = e.trust ∧ M.size i = e.size := by
  unfold entry
  rw [Option.map_eq_some_iff]
  constructor
  · intro h
    obtain ⟨n, hn, rfl⟩ := h
    exact ⟨M.names.eq_some_iff.mp hn, rfl, rfl⟩
  · intro h
    obtain ⟨hname, htrust, hsize⟩ := h
    refine ⟨e.name, M.names.eq_some_iff.mpr hname, ?_⟩
    rw [htrust, hsize]

theorem live_iff : M.Live i ↔ ∃ e, M.entry i = some e := by
  unfold Live entry
  cases M.names.symm i with
  | none => simp
  | some n => simp

theorem record_entry_self (hname : M.names.symm i = some name) :
    (M.record i trust size).entry i = some ⟨name, trust, size⟩ := by
  simp [entry, record, hname]

theorem record_entry_of_ne (hj : j ≠ i) : (M.record i trust size).entry j = M.entry j := by
  simp [entry, record, hj]

theorem put_entry_self : (M.put name i trust size).entry i = some ⟨name, trust, size⟩ := by
  simp [entry, put, record]

theorem put_entry_of_ne (hj : j ≠ i) (hfree : M.names name = none ∨ M.names name = some i) :
    (M.put name i trust size).entry j = M.entry j := by
  simp [entry, put, record, hj, assign_symm_of_ne hj hfree]

theorem free_entry_self : (M.free i).entry i = none := by
  simp [entry, free]

theorem free_entry_of_ne (hj : j ≠ i) : (M.free i).entry j = M.entry j := by
  simp [entry, free, release_symm_of_ne hj]

end Namespace

section Represents

variable {M M' : Namespace} {st st' : Store}

/-- A call that replaces the record of one id, perhaps after writing data sectors. -/
theorem Represents.saved (h : Represents M st) {mid : Store} {i : Fin maxObjects} {obj : Object}
    (hsave : Saved mid st' i obj) (hmid : mid.directory = st.directory)
    (hself : M'.entry i = obj.entry) (hother : ∀ j, j ≠ i → M'.entry j = M.entry j) :
    Represents M' st' := by
  intro j
  rw [hsave.directory, hmid]
  by_cases hj : j = i
  · rw [hj, Function.update_self, hself]
  · rw [Function.update_of_ne (fun heq => hj (Fin.ext heq)), hother j hj]
    exact h j

theorem Represents.live_iff (h : Represents M st) (i : Fin maxObjects) : st.Live i ↔ M.Live i := by
  rw [Namespace.live_iff, ← h i]
  constructor
  · intro hlive
    exact ⟨_, directory_of_live hlive⟩
  · intro hentry
    obtain ⟨e, he⟩ := hentry
    exact (directory_eq_some he).1

/-- The record of a live id. -/
theorem Represents.record (h : Represents M st) {i : Fin maxObjects} (hlive : st.Live i) :
    M.names.symm i = some (nameString (st.objects i).name) ∧ M.trust i = (st.objects i).trust ∧
      M.size i = (st.objects i).sizeBytes := by
  have hentry := h i
  rw [directory_of_live hlive] at hentry
  obtain ⟨hname, htrust, hsize⟩ := Namespace.entry_eq_some.mp hentry.symm
  exact ⟨M.names.eq_some_iff.mpr hname, htrust, hsize⟩

theorem Represents.uniqueNames (h : Represents M st) (hok : TableOk st) :
    UniqueNames st.directory := by
  have hlt : ∀ {id e}, st.directory id = some e → id < maxObjects := by
    intro id e he
    exact Nat.lt_of_lt_of_le (hok.lt_count (directory_eq_some he).1) hok.count
  intro i j e e' he he' hname
  have hi := Namespace.entry_eq_some.mp ((h ⟨i, hlt he⟩).symm.trans he)
  have hj := Namespace.entry_eq_some.mp ((h ⟨j, hlt he'⟩).symm.trans he')
  rw [hname, hj.1] at hi
  exact (congrArg Fin.val (Option.some.inj hi.1)).symm

/-- **`find_by_name` looks the name up in the map.** -/
theorem Represents.findByName (h : Represents M st) (hok : TableOk st) {name : Nat → UInt8}
    (hshort : ShortName name) :
    findByName st name = (M.names (nameString name)).map Fin.val := by
  cases hname : M.names (nameString name) with
  | none =>
      rw [Option.map_none]
      by_contra hfound
      obtain ⟨id, hid⟩ := Option.ne_none_iff_exists'.mp hfound
      obtain ⟨-, e, he, hsame⟩ := findByName_some hok hid
      have hlt := Nat.lt_of_lt_of_le (hok.lt_count (directory_eq_some he).1) hok.count
      have hentry := Namespace.entry_eq_some.mp ((h ⟨id, hlt⟩).symm.trans he)
      rw [hsame, hname] at hentry
      cases hentry.1
  | some i =>
      rw [Option.map_some]
      have hentry : M.entry i = some ⟨nameString name, M.trust i, M.size i⟩ :=
        Namespace.entry_eq_some.mpr ⟨hname, rfl, rfl⟩
      exact findByName_eq hok (h.uniqueNames hok) hshort ((h i).trans hentry) rfl

/-- `alloc_object` finds no slot when all eight ids are live. -/
theorem Represents.pickObject_none (h : Represents M st) (hpick : pickObject st = none) :
    ∀ i, M.Live i := by
  intro i
  rw [← h.live_iff]
  unfold pickObject at hpick
  split at hpick
  · cases hpick
  · rename_i hnone
    split at hpick
    · rename_i hfull
      have hmem := List.mem_range.mpr (Nat.lt_of_lt_of_le i.isLt hfull)
      simpa using List.find?_eq_none.mp hnone i hmem
    · cases hpick

/-- The checks of the calls. -/
theorem Represents.valid_iff (h : Represents M st) (id : Int) :
    st.Valid id ↔ ∃ i, M.Names id i := by
  constructor
  · intro hvalid
    obtain ⟨hzero, hlt, hlive⟩ := hvalid
    refine ⟨⟨id.toNat, by omega⟩, (Int.toNat_of_nonneg hzero).symm, ?_⟩
    exact (h.live_iff _).mp hlive
  · intro hnames
    obtain ⟨i, rfl, hlive⟩ := hnames
    refine ⟨Int.natCast_nonneg _, Int.ofNat_lt.mpr i.isLt, ?_⟩
    exact (h.live_iff i).mpr hlive

theorem named_iff_valid (hok : TableOk st) (id : Int) : st.Named id ↔ st.Valid id := by
  have hcount := hok.count
  constructor
  · intro hnamed
    exact ⟨hnamed.1, by have := hnamed.2.1; omega, hnamed.2.2⟩
  · intro hvalid
    have hlt := hok.lt_count hvalid.2.2
    exact ⟨hvalid.1, by have := hvalid.1; omega, hvalid.2.2⟩

end Represents

/-- **A call that returns `-1` had a reason to.** -/
theorem refusal_of_failed {st : Store} (hgood : st.disk.Reliable) {op : StoreOp}
    (hfail : (storeCall st op).2.ret = -1) : Refusal st op := by
  have hzero : (0 : Int) ≠ -1 := by decide
  have halloc : ∀ name, (allocObject st name).2 = -1 → pickObject st = none := by
    intro name hret
    unfold allocObject at hret
    split at hret
    · assumption
    · exact absurd hret (by dsimp only; omega)
  cases op with
  | createObject name =>
      simp only [storeCall, storageCreateObject] at hfail
      split at hfail
      · exact absurd hfail (by dsimp only; omega)
      · rename_i hnew
        exact ⟨hnew, halloc name hfail⟩
  | createNamed name =>
      simp only [storeCall, storageCreateNamed] at hfail
      split at hfail
      · rename_i hfound
        exact Or.inl (by rw [hfound]; exact Option.some_ne_none _)
      · exact Or.inr (halloc name hfail)
  | read id bufLen => trivial
  | write id buf len =>
      by_cases hvalid : st.Valid id
      swap
      · exact Or.inl hvalid
      refine Or.inr ?_
      by_contra hlen
      simp only [storeCall, storageWrite] at hfail
      rw [if_neg (not_not.mpr hvalid), if_neg hlen, halDiskWrite_ok (hgood _),
        if_neg (not_not.mpr rfl)] at hfail
      exact absurd hfail (by dsimp only; omega)
  | promote id =>
      intro hvalid
      by_contra hlevel
      simp only [storeCall, storagePromote] at hfail
      rw [if_neg (not_not.mpr hvalid), if_neg hlevel] at hfail
      exact absurd hfail (by dsimp only; omega)
  | reject id =>
      intro hvalid
      simp only [storeCall, storageReject] at hfail
      rw [if_neg (not_not.mpr hvalid)] at hfail
      exact absurd hfail hzero
  | rename id name =>
      intro hnamed
      simp only [storeCall, storageRename] at hfail
      rw [if_neg (not_not.mpr hnamed)] at hfail
      cases hfind : findByName st name with
      | none =>
          rw [hfind] at hfail
          exact absurd hfail hzero
      | some j =>
          rw [hfind] at hfail
          dsimp only at hfail
          refine ⟨j, rfl, fun hself => ?_⟩
          rw [if_neg (not_not.mpr hself)] at hfail
          exact absurd hfail hzero
  | delete id =>
      intro hnamed
      simp only [storeCall, storageDelete] at hfail
      rw [if_neg (not_not.mpr hnamed)] at hfail
      exact absurd hfail hzero

/-- A refusal of the store is one of the map. -/
theorem Represents.refused {M : Namespace} {st : Store} (h : Represents M st) (hok : TableOk st)
    {op : StoreOp} (hshort : op.NamesShort) (hwhy : Refusal st op) : NamespaceStep M op (-1) M := by
  have hnone : ∀ {id}, ¬ st.Valid id → ∀ i, ¬ M.Names id i :=
    fun hvalid i hi => hvalid ((h.valid_iff _).mpr ⟨i, hi⟩)
  cases op with
  | createObject name =>
      obtain ⟨hnew, hpick⟩ := hwhy
      rw [h.findByName hok hshort, Option.map_eq_none_iff] at hnew
      exact .fullObject hnew (h.pickObject_none hpick)
  | createNamed name =>
      refine .takenNamed (hwhy.imp (fun hfound hname => hfound ?_) h.pickObject_none)
      rw [h.findByName hok hshort, hname, Option.map_none]
  | read id bufLen => exact .read
  | write id buf len => exact .notWritten (hwhy.imp_left hnone)
  | promote id =>
      refine .notPromoted fun i hi => ?_
      have hlevel := hwhy ((h.valid_iff id).mpr ⟨i, hi⟩)
      obtain ⟨rfl, hlive⟩ := hi
      rw [Int.toNat_natCast, ← (h.record ((h.live_iff i).mpr hlive)).2.1] at hlevel
      exact hlevel
  | reject id => exact .notRejected (hnone hwhy)
  | rename id name =>
      refine .notRenamed fun i hi hfree => ?_
      obtain ⟨j, hfind, hj⟩ := hwhy ((named_iff_valid hok id).mpr ((h.valid_iff id).mpr ⟨i, hi⟩))
      rw [h.findByName hok hshort] at hfind
      rcases hfree with hfree | hfree
      · rw [hfree] at hfind
        cases hfind
      · rw [hfree] at hfind
        cases hfind
        rw [hi.1, Int.toNat_natCast] at hj
        exact hj rfl
  | delete id =>
      exact .notDeleted (hnone fun hvalid => hwhy ((named_iff_valid hok id).mpr hvalid))

/-- **One call**: the map answers as the store does and represents it again. -/
theorem Represents.step {M : Namespace} {st st' : Store} {op : StoreOp} {r : StoreReply}
    (h : Represents M st) (hok : TableOk st) (hgood : st.disk.Reliable) (hshort : op.NamesShort)
    (hcall : storeCall st op = (st', r)) : ∃ M', NamespaceStep M op r.ret M' ∧ Represents M' st' := by
  have heffect := storeCall_effect hok op
  rw [hcall] at heffect
  have hvalid : ∀ {id}, st.Valid id → ∃ i : Fin maxObjects, M.Names id i ∧ id.toNat = i ∧ st.Live i ∧
      M.names.symm i = some (nameString (st.objects i).name) ∧
      M.trust i = (st.objects i).trust ∧ M.size i = (st.objects i).sizeBytes := by
    intro id hid
    obtain ⟨i, hi⟩ := (h.valid_iff id).mp hid
    have hlive := (h.live_iff i).mpr hi.2
    exact ⟨i, hi, by rw [hi.1, Int.toNat_natCast], hlive, h.record hlive⟩
  cases heffect with
  | refused hsame =>
      have hfail : (storeCall st op).2.ret = -1 := by rw [hcall]
      refine ⟨M, h.refused hok hshort (refusal_of_failed hgood hfail), fun i => ?_⟩
      rw [hsame.directory]
      exact h i
  | @found name id hfound =>
      rw [h.findByName hok hshort, Option.map_eq_some_iff] at hfound
      obtain ⟨i, hi, rfl⟩ := hfound
      exact ⟨M, .foundObject hi, h⟩
  | @created op name id st' hop hnew hpick hsave =>
      obtain ⟨hdead, hlt⟩ := pickObject_spec hok.toStoreInv hpick
      have hname : ShortName name := by
        rcases hop with rfl | rfl
        · exact hshort
        · exact hshort
      rw [h.findByName hok hname, Option.map_eq_none_iff] at hnew
      have hfree : ¬ M.Live ⟨id, hlt⟩ := fun hlive => hdead ((h.live_iff _).mpr hlive)
      refine ⟨M.put (nameString name) ⟨id, hlt⟩ objUntrusted 0, ?_, ?_⟩
      · rcases hop with rfl | rfl
        · exact .createdObject hnew hfree
        · exact .createdNamed hnew hfree
      · refine h.saved (i := ⟨id, hlt⟩) hsave rfl ?_ fun j hj =>
          Namespace.put_entry_of_ne hj (Or.inl hnew)
        rw [Namespace.put_entry_self]
        simp [Object.entry]
  | fetched hread hsame =>
      refine ⟨M, .read, fun i => ?_⟩
      rw [hsame.directory]
      exact h i
  | torn _ _ hout =>
      rw [hgood] at hout
      cases hout
  | written hid hlen _ hsave =>
      obtain ⟨i, hi, heq, hlive, hname, -, -⟩ := hvalid hid
      rw [heq] at hsave
      refine ⟨_, .wrote hi hlen, h.saved hsave rfl ?_ fun j hj => Namespace.record_entry_of_ne hj⟩
      rw [Namespace.record_entry_self hname]
      exact (if_neg hlive).symm
  | promoted hid hlevel hsave =>
      obtain ⟨i, hi, heq, hlive, hname, htrust, hsize⟩ := hvalid hid
      rw [heq] at hsave hlevel ⊢
      rw [← htrust] at hlevel ⊢
      refine ⟨_, .promoted hi hlevel, h.saved hsave rfl ?_ fun j hj =>
        Namespace.record_entry_of_ne hj⟩
      rw [Namespace.record_entry_self hname, htrust, hsize]
      exact (if_neg hlive).symm
  | rejected hid hsave =>
      obtain ⟨i, hi, heq, hlive, hname, -, hsize⟩ := hvalid hid
      rw [heq] at hsave
      refine ⟨_, .rejected hi, h.saved hsave rfl ?_ fun j hj => Namespace.record_entry_of_ne hj⟩
      rw [Namespace.record_entry_self hname, hsize]
      exact (if_neg hlive).symm
  | @renamed id name st' hnamed hself hsave =>
      obtain ⟨i, hi, heq, hlive, -, htrust, hsize⟩ := hvalid ((named_iff_valid hok id).mp hnamed)
      rw [heq] at hsave hself
      have hfree : M.names (nameString name) = none ∨ M.names (nameString name) = some i := by
        cases hname : M.names (nameString name) with
        | none => exact Or.inl rfl
        | some j =>
            have hfound := hself j (by rw [h.findByName hok hshort, hname, Option.map_some])
            rw [Fin.ext hfound]
            exact Or.inr rfl
      refine ⟨_, .renamed hi hfree, h.saved hsave rfl ?_ fun j hj =>
        Namespace.put_entry_of_ne hj hfree⟩
      rw [Namespace.put_entry_self, htrust, hsize, Object.entry, if_neg hlive, nameString_copyName]
  | @deleted id st' hnamed hsave =>
      obtain ⟨i, hi, heq, -⟩ := hvalid ((named_iff_valid hok id).mp hnamed)
      rw [heq] at hsave
      refine ⟨_, .deleted hi, h.saved hsave rfl ?_ fun j hj => Namespace.free_entry_of_ne hj⟩
      rw [Namespace.free_entry_self]
      rfl

section Listing

variable {M : Namespace} {st : Store}

/-- The live ids. -/
def Namespace.ids (M : Namespace) : List (Fin maxObjects) :=
  (List.finRange maxObjects).filter fun i => (M.names.symm i).isSome

theorem Namespace.mem_ids (i : Fin maxObjects) : i ∈ M.ids ↔ M.Live i := by
  rw [Namespace.ids, List.mem_filter, Option.isSome_iff_ne_none]
  exact and_iff_right (List.mem_finRange i)

/-- No live object stands behind the count. -/
theorem filter_live (hok : TableOk st) :
    (List.range st.objectCount).filter (fun id => st.Live id) =
      (List.range maxObjects).filter fun id => st.Live id := by
  obtain ⟨n, hn⟩ := Nat.exists_eq_add_of_le hok.count
  have hdead : ((List.range n).map (st.objectCount + ·)).filter (fun id => st.Live id) = [] := by
    rw [List.filter_eq_nil_iff]
    intro id hid
    obtain ⟨k, -, rfl⟩ := List.mem_map.mp hid
    simpa using hok.unused (st.objectCount + k) (Nat.le_add_right _ _)
  rw [hn, List.range_add, List.filter_append, hdead, List.append_nil]

/-- The ids the loop of `storage_get_by_index` counts. -/
theorem Represents.live_ids (h : Represents M st) (hok : TableOk st) :
    (List.range st.objectCount).filter (fun id => st.Live id) = M.ids.map Fin.val := by
  rw [filter_live hok, ← List.map_coe_finRange_eq_range, List.filter_map, Namespace.ids]
  congr 1
  refine List.filter_congr fun i _ => ?_
  rw [Function.comp, Bool.eq_iff_iff, decide_eq_true_iff, Option.isSome_iff_ne_none]
  exact h.live_iff i

/-- The loop of `storage_get_by_index` stops at the `nth` live id. -/
theorem storageGetByIndex_eq (st : Store) (nth : Nat) (nameBuf : Nat → UInt8) :
    storageGetByIndex st nth nameBuf =
      (((List.range st.objectCount).filter fun id => st.Live id)[nth]?).map fun id =>
        { id := id, trust := (st.objects id).trust, sizeBytes := (st.objects id).sizeBytes
          name := copyName (st.objects id).name nameBuf } := by
  unfold storageGetByIndex
  rw [if_neg (Int.not_lt.mpr (Int.natCast_nonneg nth)), Int.toNat_natCast]
  cases ((List.range st.objectCount).filter fun id => st.Live id)[nth]? with
  | none => rfl
  | some id => rfl

theorem Represents.listing (h : Represents M st) (hok : TableOk st) : Listing M st M.ids := by
  refine ⟨?_, Namespace.mem_ids, fun nth nameBuf i hi => ?_, fun nth nameBuf hnth => ?_⟩
  · exact (List.pairwise_lt_finRange maxObjects).filter _
  · have hlive : st.Live i :=
      (h.live_iff i).mpr ((Namespace.mem_ids i).mp (List.mem_of_getElem? hi))
    rw [storageGetByIndex_eq, h.live_ids hok, List.getElem?_map, hi]
    refine ⟨_, rfl, rfl, shortName_copyName _ _, ?_⟩
    rw [nameString_copyName, ← h i, directory_of_live hlive]
  · rw [storageGetByIndex_eq, h.live_ids hok, List.getElem?_map,
      List.getElem?_eq_none_iff.mpr hnth]
    rfl

end Listing

/-- Nothing is live on a blank disk. -/
theorem represents_empty {d : Disk} (hblank : d.Blank) (scratch : Nat → UInt8) :
    Represents .empty (bootStore d scratch) := by
  intro i
  have hnone : (bootStore d scratch).directory = fun _ => none := by
    rw [bootStore_directory, hblank.directory, ite_self]
  rw [hnone]
  rfl

/-- A restart finds the same directory. -/
theorem Represents.boot {M : Namespace} {st : Store} (h : Represents M st) (hdurable : Durable st)
    (hgood : st.disk.Reliable) (scratch : Nat → UInt8) :
    Represents M (bootStore st.disk scratch) := by
  intro i
  rw [bootStore_directory, if_pos (hgood _), (durable_iff st).mp hdurable]
  exact h i

/-- **The simulation**: along every history with short names on a disk that does not fail,
the map makes the same answers and represents the table. -/
theorem StoreRun.represents {d : Disk} {scratch : Nat → UInt8} {tr : List StoreRecord} {st : Store}
    (hblank : d.Blank) (hgood : d.Reliable) (hrun : StoreRun d scratch tr st)
    (hshort : ShortNamed tr) : ∃ M, NamespaceRun tr M ∧ Represents M st := by
  have hall := hrun.history_invariant
    (fun tr st => ShortNamed tr → ∃ M, NamespaceRun tr M ∧ Represents M st) ?_ ?_
  · exact hall hshort
  · intro _
    exact ⟨.empty, .start, represents_empty hblank scratch⟩
  · intro tr st e o st' hbefore hold hstep hshort
    obtain ⟨M, hmap, hrep⟩ := hold fun t ht => hshort t (List.mem_cons_of_mem _ ht)
    have hreliable := StoreRun.reliable hblank hgood hbefore
    cases e with
    | call op =>
        have hok := (StoreRun.storeOk hblank hbefore).table
        obtain ⟨M', hnext, hrep'⟩ := hrep.step hok hreliable
          (hshort _ List.mem_cons_self op rfl) (Option.some.inj hstep)
        exact ⟨M', .call hmap rfl hnext, hrep'⟩
    | boot scratch =>
        cases hstep
        have hdurable := StoreRun.durable_of_reliable hblank hgood hbefore
        exact ⟨M, .boot hmap rfl, hrep.boot hdurable hreliable scratch⟩

/-- **The namespace refines a finite map.**  For every history of calls and restarts from a
blank disk that does not fail, with names of at most 15 bytes, there is a one-to-one map from
names to the eight ids that answered every call as the store did; at the end of the history
`storage_lookup_by_name` returns exactly the binding of a name, and `storage_get_by_index`
lists the live objects in the order of their ids and then stops. -/
theorem namespace_refines_map {d : Disk} {scratch : Nat → UInt8} {tr : List StoreRecord}
    {st : Store} (hblank : d.Blank) (hgood : d.Reliable) (hrun : StoreRun d scratch tr st)
    (hshort : ShortNamed tr) :
    ∃ M : Namespace, NamespaceRun tr M ∧
      (∀ name, ShortName name → storageLookupByName st name = M.lookup (nameString name)) ∧
      ∃ ids, Listing M st ids := by
  obtain ⟨M, hmap, hrep⟩ := StoreRun.represents hblank hgood hrun hshort
  have hok := (StoreRun.storeOk hblank hrun).table
  refine ⟨M, hmap, fun name hname => ?_, M.ids, hrep.listing hok⟩
  unfold storageLookupByName Namespace.lookup
  rw [hrep.findByName hok hname]
  cases M.names (nameString name) with
  | none => rfl
  | some i => rfl

set_option maxRecDepth 100000 in
/-- Two objects are created and the first is deleted; after a restart its id is given out
again, and the name of the second is taken. -/
theorem namespace_refines_map_reused_id :
    ∃ tr st, zeroDisk.Blank ∧ zeroDisk.Reliable ∧ StoreRun zeroDisk (fun _ => 0) tr st ∧
      ShortNamed tr ∧ (tr.map fun t => t.outcome.ret) = [-1, 0, 0, 0, 1, 0] ∧
      ∃ M : Namespace, NamespaceRun tr M ∧ M.lookup [0x62] = 1 ∧ M.lookup [0x61] = -1 := by
  have hblank : zeroDisk.Blank := by decide
  have hgood : zeroDisk.Reliable := fun _ => rfl
  have hrun : (storeHistory zeroDisk [.call (.createNamed (cstring [0x61])),
      .call (.createNamed (cstring [0x62])), .call (.delete 0), .boot fun _ => 0,
      .call (.createObject (cstring [0x63])), .call (.rename 0 (cstring [0x62]))]).map
      (fun r => (r.1.all fun t => namesShort t.event, r.1.map fun t => t.outcome.ret,
        storageLookupByName r.2 (cstring [0x62]), storageLookupByName r.2 (cstring [0x61]))) =
      some (true, [-1, 0, 0, 0, 1, 0], 1, -1) := by
    decide +kernel
  obtain ⟨tr, st, htrace, hview⟩ := exists_trace_of_runTrace hrun
  simp only [Prod.mk.injEq, List.all_eq_true] at hview
  obtain ⟨hnames, hrets, hlookup, hgone⟩ := hview
  have hshort : ShortNamed tr := by
    intro t ht op hop
    have hcheck := hnames t ht
    rw [hop] at hcheck
    exact of_decide_eq_true hcheck
  obtain ⟨M, hmap, hfind, -⟩ := namespace_refines_map hblank hgood htrace hshort
  refine ⟨tr, st, hblank, hgood, htrace, hshort, hrets, M, hmap, ?_, ?_⟩
  · rw [← hlookup, hfind _ (by decide)]
    rfl
  · rw [← hgone, hfind _ (by decide)]
    rfl

end Vajra
