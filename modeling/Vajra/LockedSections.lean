import Mathlib.Tactic
import Vajra.TransitionTrace

/-!
# Critical sections behind a spinlock

Several cores share a state.  Code reaches it by single accesses (`Code`); a call takes a lock,
runs its code access by access and releases the lock, while other cores spin, or make accesses of
their own that do not take the lock (`outside`).

A call takes effect at one of its accesses, its commit.  If every other access of a section commutes
with what may happen outside the lock (`Once`), then whatever the interleaving, the shared state is
that of the calls run one after the other, in the order of their commits (`Run.serial`), and no two
cores are between lock and unlock at a time (`Run.exclusive`).
-/

namespace LockedSections

open TransitionTrace

variable {σ α β ι κ ω : Type}

/-- Code that reaches a shared state: each access changes the state in one go, and what comes after
it may depend on the state it found.  The flag marks a commit. -/
inductive Code (σ α : Type) where
  | ret (a : α)
  | act (commit : Bool) (f : σ → σ) (next : σ → Code σ α)

namespace Code

def bind : Code σ α → (α → Code σ β) → Code σ β
  | .ret a, k => k a
  | .act commit f next, k => .act commit f fun s => (next s).bind k

instance : Monad (Code σ) where
  pure := .ret
  bind := bind

/-- Store. -/
def store (f : σ → σ) : Code σ Unit := .act false f fun _ => .ret ()

/-- Load. -/
def load (g : σ → α) : Code σ α := .act false id fun s => .ret (g s)

/-- The load at which a call commits. -/
def commitLoad (g : σ → α) : Code σ α := .act true id fun s => .ret (g s)

/-- The code run on its own. -/
def run : Code σ α → σ → σ × α
  | .ret a, s => (s, a)
  | .act _ f next, s => (next s).run (f s)

@[simp] theorem run_pure (a : α) (s : σ) : (pure a : Code σ α).run s = (s, a) := rfl
@[simp] theorem run_store (f : σ → σ) (s : σ) : (store f).run s = (f s, ()) := rfl
@[simp] theorem run_load (g : σ → α) (s : σ) : (load g).run s = (s, g s) := rfl
@[simp] theorem run_commitLoad (g : σ → α) (s : σ) : (commitLoad g).run s = (s, g s) := rfl

@[simp] theorem run_bind (m : Code σ α) (k : α → Code σ β) (s : σ) :
    (m >>= k).run s = (k (m.run s).2).run (m.run s).1 := by
  change (m.bind k).run s = _
  induction m generalizing s with
  | ret a => rfl
  | act commit f next ih => exact ih s (f s)

/-- A loop run on its own is a fold. -/
@[simp] theorem run_forM (l : List α) (body : α → Code σ PUnit) (s : σ) :
    (l.forM body).run s = (l.foldl (fun s a => ((body a).run s).1) s, ⟨⟩) := by
  induction l generalizing s with
  | nil => rfl
  | cons a l ih =>
      change (body a >>= fun _ => l.forM body).run s = _
      rw [run_bind, ih, List.foldl_cons]

end Code

/-! ## What may happen outside the lock -/

section Movers

variable (out : ω → σ → σ)

/-- No access commits, and each commutes with what happens outside the lock. -/
inductive Quiet : Code σ α → Prop
  | ret (a : α) : Quiet (.ret a)
  | act {f : σ → σ} {next : σ → Code σ α} (hf : ∀ w s, f (out w s) = out w (f s))
      (hnext : ∀ w s, next (out w s) = next s) (hrest : ∀ s, Quiet (next s)) :
      Quiet (.act false f next)

/-- Exactly one access commits, and all others commute with what happens outside the lock. -/
inductive Once : Code σ α → Prop
  | before {f : σ → σ} {next : σ → Code σ α} (hf : ∀ w s, f (out w s) = out w (f s))
      (hnext : ∀ w s, next (out w s) = next s) (hrest : ∀ s, Once (next s)) :
      Once (.act false f next)
  | commit {f : σ → σ} {next : σ → Code σ α} (hrest : ∀ s, Quiet out (next s)) :
      Once (.act true f next)

variable {out}

theorem Quiet.bind {m : Code σ α} {k : α → Code σ β} (hm : Quiet out m) (hk : ∀ a, Quiet out (k a)) :
    Quiet out (m >>= k) := by
  change Quiet out (m.bind k)
  induction hm with
  | ret a => exact hk a
  | act hf hnext _ ih => exact .act hf (fun w s => by rw [hnext]) ih

theorem Once.bind_left {m : Code σ α} {k : α → Code σ β} (hm : Once out m)
    (hk : ∀ a, Quiet out (k a)) : Once out (m >>= k) := by
  change Once out (m.bind k)
  induction hm with
  | before hf hnext _ ih => exact .before hf (fun w s => by rw [hnext]) ih
  | commit hrest => exact .commit fun s => (hrest s).bind hk

theorem Once.bind_right {m : Code σ α} {k : α → Code σ β} (hm : Quiet out m)
    (hk : ∀ a, Once out (k a)) : Once out (m >>= k) := by
  change Once out (m.bind k)
  induction hm with
  | ret a => exact hk a
  | act hf hnext _ ih => exact .before hf (fun w s => by rw [hnext]) ih

theorem Quiet.pure (a : α) : Quiet out (Pure.pure a) := .ret a

theorem Quiet.store {f : σ → σ} (hf : ∀ w s, f (out w s) = out w (f s)) : Quiet out (Code.store f) :=
  .act hf (fun _ _ => rfl) fun _ => .ret _

theorem Quiet.load {g : σ → α} (hg : ∀ w s, g (out w s) = g s) : Quiet out (Code.load g) :=
  .act (fun _ _ => rfl) (fun w s => by rw [hg]) fun _ => .ret _

theorem Once.commitLoad (g : σ → α) : Once out (Code.commitLoad g) := .commit fun _ => .ret _

theorem Quiet.forM {l : List α} {body : α → Code σ PUnit} (h : ∀ a ∈ l, Quiet out (body a)) :
    Quiet out (l.forM body) := by
  induction l with
  | nil => exact .ret _
  | cons a l ih =>
      change Quiet out (body a >>= fun _ => l.forM body)
      exact (h a List.mem_cons_self).bind fun _ => ih fun b hb => h b (List.mem_cons_of_mem a hb)

/-- Quiet code, run on its own, commutes with what happens outside the lock. -/
theorem Quiet.run_out {m : Code σ α} (hm : Quiet out m) (w : ω) (s : σ) :
    (m.run (out w s)).1 = out w (m.run s).1 := by
  induction hm generalizing s with
  | ret a => rfl
  | act hf hnext _ ih =>
      rw [Code.run, Code.run, hnext, hf]
      exact ih s _

end Movers

/-! ## The cores -/

/-- Where a core is in a call. -/
inductive Stage (σ κ : Type) where
  | idle
  | waiting (call : κ)
  | inside (call : κ) (rest : Code σ Unit)

/-- The lock word, the shared state and the cores. -/
structure State (ι σ κ : Type) where
  lock : Nat
  data : σ
  stage : ι → Stage σ κ

/-- A core starts a call, runs on, or makes an access outside the lock. -/
inductive Event (ι κ ω : Type) where
  | call (i : ι) (k : κ)
  | run (i : ι)
  | outside (i : ι) (w : ω)

/-- What a step does besides: a section commits or returns, an access outside the lock is both. -/
inductive Mark (ι κ ω : Type) where
  | none
  | commit (i : ι) (k : κ)
  | ret (i : ι) (k : κ)
  | outside (i : ι) (w : ω)

section Machine

variable [DecidableEq ι] (body : κ → Code σ Unit) (out : ω → σ → σ)

/-- The lock is taken by a compare-and-swap from 0 to 1, and released by a store of 0. -/
def step (s : State ι σ κ) : Event ι κ ω → Option (State ι σ κ × Mark ι κ ω)
  | .call i k =>
      match s.stage i with
      | .idle => some ({ s with stage := Function.update s.stage i (.waiting k) }, .none)
      | _ => none
  | .run i =>
      match s.stage i with
      | .idle => none
      | .waiting k =>
          if s.lock = 0 then
            some ({ s with lock := 1, stage := Function.update s.stage i (.inside k (body k)) }, .none)
          else some (s, .none)
      | .inside k (.act commit f next) =>
          some ({ s with
            data := f s.data
            stage := Function.update s.stage i (.inside k (next s.data)) },
            if commit then .commit i k else .none)
      | .inside k (.ret _) =>
          some ({ s with lock := 0, stage := Function.update s.stage i .idle }, .ret i k)
  | .outside i w =>
      match s.stage i with
      | .idle => some ({ s with data := out w s.data }, .outside i w)
      | _ => none

/-- No core has called anything. -/
def start (data : σ) : State ι σ κ := ⟨0, data, fun _ => .idle⟩

abbrev Record (ι σ κ ω : Type) := Transition (State ι σ κ) (Event ι κ ω) (Mark ι κ ω)

/-- A run of the cores, in any interleaving. -/
abbrev Run (data : σ) (tr : List (Record ι σ κ ω)) (s : State ι σ κ) : Prop :=
  Trace (step body out) (start data) tr s

end Machine

/-- The calls that took effect in a step. -/
def Mark.commits : Mark ι κ ω → Option (ι × (κ ⊕ ω))
  | .commit i k => some (i, .inl k)
  | .outside i w => some (i, .inr w)
  | _ => Option.none

/-- The calls that returned in a step. -/
def Mark.returns : Mark ι κ ω → Option (ι × (κ ⊕ ω))
  | .ret i k => some (i, .inl k)
  | .outside i w => some (i, .inr w)
  | _ => Option.none

/-- The calls of a run in the order of their commits. -/
def committed (tr : List (Record ι σ κ ω)) : List (ι × (κ ⊕ ω)) :=
  observed (fun t => t.outcome.commits) tr

/-- The calls of a run in the order in which they returned. -/
def returned (tr : List (Record ι σ κ ω)) : List (ι × (κ ⊕ ω)) :=
  observed (fun t => t.outcome.returns) tr

/-- One call on its own. -/
def applyCall (body : κ → Code σ Unit) (out : ω → σ → σ) (s : σ) (c : ι × (κ ⊕ ω)) : σ :=
  match c.2 with
  | .inl k => ((body k).run s).1
  | .inr w => out w s

/-- Calls one after the other. -/
def serial (body : κ → Code σ Unit) (out : ω → σ → σ) (s : σ) (calls : List (ι × (κ ⊕ ω))) : σ :=
  calls.foldl (applyCall body out) s

theorem committed_cons (t : Record ι σ κ ω) (tr : List (Record ι σ κ ω)) :
    committed (t :: tr) = committed tr ++ t.outcome.commits.toList :=
  observed_cons _ t tr

theorem returned_cons (t : Record ι σ κ ω) (tr : List (Record ι σ κ ω)) :
    returned (t :: tr) = returned tr ++ t.outcome.returns.toList :=
  observed_cons _ t tr

theorem serial_append (body : κ → Code σ Unit) (out : ω → σ → σ) (s : σ) (l : List (ι × (κ ⊕ ω))) (c : ι × (κ ⊕ ω)) :
    serial body out s (l ++ [c]) = applyCall body out (serial body out s l) c := by
  simp [serial]

/-- The calls of one core. -/
def own [DecidableEq ι] (i : ι) (calls : List (ι × (κ ⊕ ω))) : List (κ ⊕ ω) :=
  calls.filterMap fun c => if c.1 = i then some c.2 else none

section Serial

variable [DecidableEq ι] {body : κ → Code σ Unit} {out : ω → σ → σ} {data : σ}
  {tr : List (Record ι σ κ ω)} {s s' : State ι σ κ} {e : Event ι κ ω} {m : Mark ι κ ω}

theorem own_append (i : ι) (l l' : List (ι × (κ ⊕ ω))) : own i (l ++ l') = own i l ++ own i l' :=
  List.filterMap_append

theorem own_self (i : ι) (c : κ ⊕ ω) : own i [(i, c)] = [c] := by simp [own]

theorem own_other {i j : ι} (h : j ≠ i) (c : κ ⊕ ω) : own i [(j, c)] = [] := by simp [own, h]

/-- Where all cores are, and what the shared state has to do with the calls that have committed:
no core has the lock, or one has it and its section has yet to commit, or has committed.  Before the
commit, running the rest of the section alone does what the whole section would do now, whatever happens
outside the lock first. -/
inductive Inv (body : κ → Code σ Unit) (out : ω → σ → σ) (data : σ) (tr : List (Record ι σ κ ω))
    (s : State ι σ κ) : Prop
  | free (hlock : s.lock = 0) (hnone : ∀ i k rest, s.stage i ≠ .inside k rest)
      (hdata : s.data = serial body out data (committed tr))
      (hown : ∀ i, own i (committed tr) = own i (returned tr))
  | before (i : ι) (k : κ) (rest : Code σ Unit) (hlock : s.lock = 1)
      (hi : s.stage i = .inside k rest) (hnone : ∀ j, j ≠ i → ∀ k rest, s.stage j ≠ .inside k rest)
      (honce : Once out rest)
      (hdata : ∀ ws : List ω, (rest.run (ws.foldl (fun d w => out w d) s.data)).1 =
        ((body k).run (ws.foldl (fun d w => out w d) (serial body out data (committed tr)))).1)
      (hown : ∀ i, own i (committed tr) = own i (returned tr))
  | after (i : ι) (k : κ) (rest : Code σ Unit) (hlock : s.lock = 1)
      (hi : s.stage i = .inside k rest) (hnone : ∀ j, j ≠ i → ∀ k rest, s.stage j ≠ .inside k rest)
      (hquiet : Quiet out rest)
      (hdata : (rest.run s.data).1 = serial body out data (committed tr))
      (hself : own i (committed tr) = own i (returned tr) ++ [.inl k])
      (hown : ∀ j, j ≠ i → own j (committed tr) = own j (returned tr))

/-- The steps of a core. -/
theorem step_cases (h : step body out s e = some (s', m)) :
    (∃ i k, s.stage i = .idle ∧ m = .none ∧
      s' = { s with stage := Function.update s.stage i (.waiting k) }) ∨
    (∃ i k, s.stage i = .waiting k ∧ s.lock = 0 ∧ m = .none ∧
      s' = { s with lock := 1, stage := Function.update s.stage i (.inside k (body k)) }) ∨
    (s' = s ∧ m = .none) ∨
    (∃ i k commit f next, s.stage i = .inside k (.act commit f next) ∧
      m = (if commit then .commit i k else .none) ∧
      s' = { s with
        data := f s.data
        stage := Function.update s.stage i (.inside k (next s.data)) }) ∨
    (∃ i k, s.stage i = .inside k (.ret ()) ∧ m = .ret i k ∧
      s' = { s with lock := 0, stage := Function.update s.stage i .idle }) ∨
    (∃ i w, s.stage i = .idle ∧ m = .outside i w ∧ s' = { s with data := out w s.data }) := by
  cases e with
  | call i k =>
      cases hi : s.stage i with
      | idle =>
          simp only [step, hi, Option.some.injEq, Prod.mk.injEq] at h
          exact .inl ⟨i, k, hi, h.2.symm, h.1.symm⟩
      | waiting _ | inside _ _ => simp [step, hi] at h
  | run i =>
      cases hi : s.stage i with
      | idle => simp [step, hi] at h
      | waiting k =>
          by_cases hlock : s.lock = 0
          · simp only [step, hi, hlock, if_true, Option.some.injEq, Prod.mk.injEq] at h
            exact .inr (.inl ⟨i, k, hi, hlock, h.2.symm, h.1.symm⟩)
          · simp only [step, hi, hlock, if_false, Option.some.injEq, Prod.mk.injEq] at h
            exact .inr (.inr (.inl ⟨h.1.symm, h.2.symm⟩))
      | inside k rest =>
          cases rest with
          | ret a =>
              simp only [step, hi, Option.some.injEq, Prod.mk.injEq] at h
              exact .inr (.inr (.inr (.inr (.inl ⟨i, k, hi, h.2.symm, h.1.symm⟩))))
          | act commit f next =>
              simp only [step, hi, Option.some.injEq, Prod.mk.injEq] at h
              exact .inr (.inr (.inr (.inl ⟨i, k, commit, f, next, hi, h.2.symm, h.1.symm⟩)))
  | outside i w =>
      cases hi : s.stage i with
      | idle =>
          simp only [step, hi, Option.some.injEq, Prod.mk.injEq] at h
          exact .inr (.inr (.inr (.inr (.inr ⟨i, w, hi, h.2.symm, h.1.symm⟩))))
      | waiting _ | inside _ _ => simp [step, hi] at h

/-- What the invariant reads of a state. -/
theorem Inv.congr {tr' : List (Record ι σ κ ω)} (h : Inv body out data tr s) (hlock : s'.lock = s.lock)
    (hdata : s'.data = s.data)
    (hstage : ∀ j k rest, s'.stage j = .inside k rest ↔ s.stage j = .inside k rest)
    (hcommitted : committed tr' = committed tr) (hreturned : returned tr' = returned tr) :
    Inv body out data tr' s' := by
  cases h with
  | free hl hnone hd hown =>
      refine .free (hlock.trans hl) (fun j k rest hj => hnone j k rest ((hstage j k rest).mp hj)) ?_ ?_
      · rw [hdata, hcommitted, hd]
      · rw [hcommitted, hreturned]
        exact hown
  | before i k rest hl hi hnone honce hd hown =>
      refine .before i k rest (hlock.trans hl) ((hstage i k rest).mpr hi)
        (fun j hj k rest hin => hnone j hj k rest ((hstage j k rest).mp hin)) honce ?_ ?_
      · rw [hdata, hcommitted]
        exact hd
      · rw [hcommitted, hreturned]
        exact hown
  | after i k rest hl hi hnone hquiet hd hself hown =>
      refine .after i k rest (hlock.trans hl) ((hstage i k rest).mpr hi)
        (fun j hj k rest hin => hnone j hj k rest ((hstage j k rest).mp hin)) hquiet ?_ ?_ ?_
      · rw [hdata, hcommitted]
        exact hd
      · rw [hcommitted, hreturned]
        exact hself
      · rw [hcommitted, hreturned]
        exact hown

/-- An access that commutes with each outside access commutes with any number of them. -/
theorem foldl_out {β : Type} {g : σ → β} {r : ω → β → β} (hg : ∀ w s, g (out w s) = r w (g s))
    (ws : List ω) (s : σ) :
    g (ws.foldl (fun d w => out w d) s) = ws.foldl (fun d w => r w d) (g s) := by
  induction ws generalizing s with
  | nil => rfl
  | cons w ws ih => rw [List.foldl_cons, ih, hg, List.foldl_cons]

theorem foldl_const {β : Type} (b : β) (ws : List ω) : ws.foldl (fun d _ => d) b = b := by
  induction ws with
  | nil => rfl
  | cons w ws ih => exact ih

/-- The core that has the lock, and no other, is inside a section. -/
theorem Inv.holder (h : Inv body out data tr s) {i : ι} {k : κ} {rest : Code σ Unit}
    (hi : s.stage i = .inside k rest) :
    s.lock = 1 ∧ (∀ j, j ≠ i → ∀ k rest, s.stage j ≠ .inside k rest) ∧
    ((Once out rest ∧ (∀ i, own i (committed tr) = own i (returned tr)) ∧
      ∀ ws : List ω, (rest.run (ws.foldl (fun d w => out w d) s.data)).1 =
        ((body k).run (ws.foldl (fun d w => out w d) (serial body out data (committed tr)))).1) ∨
    (Quiet out rest ∧ own i (committed tr) = own i (returned tr) ++ [.inl k] ∧
      (∀ j, j ≠ i → own j (committed tr) = own j (returned tr)) ∧
      (rest.run s.data).1 = serial body out data (committed tr))) := by
  cases h with
  | free _ hnone => exact absurd hi (hnone i k rest)
  | before j k' rest' hlock hj hnone honce hdata hown =>
      have hij : i = j := by
        by_contra hne
        exact hnone i hne k rest hi
      subst hij
      rw [hi] at hj
      cases hj
      exact ⟨hlock, hnone, .inl ⟨honce, hown, hdata⟩⟩
  | after j k' rest' hlock hj hnone hquiet hdata hself hown =>
      have hij : i = j := by
        by_contra hne
        exact hnone i hne k rest hi
      subst hij
      rw [hi] at hj
      cases hj
      exact ⟨hlock, hnone, .inr ⟨hquiet, hself, hown, hdata⟩⟩

/-- The compare-and-swap finds the lock free. -/
theorem Inv.acquire {tr' : List (Record ι σ κ ω)} (hbody : ∀ k, Once out (body k))
    (h : Inv body out data tr s) {i : ι} {k : κ} (hzero : s.lock = 0)
    (hcom : committed tr' = committed tr) (hret : returned tr' = returned tr) :
    Inv body out data tr'
      { s with lock := 1, stage := Function.update s.stage i (.inside k (body k)) } := by
  cases h with
  | free _ hnone hdata hown =>
      refine .before i k (body k) rfl (Function.update_self _ _ _) (fun j hj k' rest => ?_)
        (hbody k) (fun ws => ?_) ?_
      · simp only [Function.update_of_ne hj]
        exact hnone j k' rest
      · simp only [hcom, ← hdata]
      · rw [hcom, hret]
        exact hown
  | before _ _ _ hone | after _ _ _ hone => omega

/-- An access inside a section. -/
theorem Inv.access {tr' : List (Record ι σ κ ω)} (h : Inv body out data tr s) {i : ι} {k : κ}
    {commit : Bool} {f : σ → σ} {next : σ → Code σ Unit} (hi : s.stage i = .inside k (.act commit f next))
    (hcom : committed tr' = committed tr ++ (if commit then [(i, .inl k)] else []))
    (hret : returned tr' = returned tr) :
    Inv body out data tr'
      { s with data := f s.data, stage := Function.update s.stage i (.inside k (next s.data)) } := by
  obtain ⟨hlock, hnone, hphase⟩ := h.holder hi
  have hnone' : ∀ j, j ≠ i → ∀ k' rest,
      Function.update s.stage i (.inside k (next s.data)) j ≠ .inside k' rest := by
    intro j hj k' rest
    rw [Function.update_of_ne hj]
    exact hnone j hj k' rest
  rcases hphase with ⟨honce, hown, hdata⟩ | ⟨hquiet, hself, hown, hdata⟩
  · cases honce with
    | before hf hnext hrest =>
        have hcom' : committed tr' = committed tr := hcom.trans (List.append_nil _)
        refine .before i k _ hlock (Function.update_self _ _ _) hnone' (hrest _) (fun ws => ?_) ?_
        · rw [hcom', ← hdata ws, Code.run, foldl_out hf,
            foldl_out (r := fun _ c => c) hnext, foldl_const]
        · rw [hcom', hret]
          exact hown
    | commit hrest =>
        refine .after i k _ hlock (Function.update_self _ _ _) hnone' (hrest _) ?_ ?_ fun j hj => ?_
        · have hall := hdata []
          rw [hcom, if_pos rfl, serial_append]
          exact hall
        · rw [hcom, hret, if_pos rfl, own_append, own_self, hown]
        · rw [hcom, hret, if_pos rfl, own_append, own_other hj.symm, List.append_nil, hown]
  · cases hquiet with
    | act hf hnext hrest =>
        have hcom' : committed tr' = committed tr := hcom.trans (List.append_nil _)
        refine .after i k _ hlock (Function.update_self _ _ _) hnone' (hrest _) ?_ ?_ ?_
        · rw [hcom']
          exact hdata
        · rw [hcom', hret]
          exact hself
        · rw [hcom', hret]
          exact hown

/-- The end of a section. -/
theorem Inv.release {tr' : List (Record ι σ κ ω)} (h : Inv body out data tr s) {i : ι} {k : κ}
    (hi : s.stage i = .inside k (.ret ())) (hcom : committed tr' = committed tr)
    (hret : returned tr' = returned tr ++ [(i, .inl k)]) :
    Inv body out data tr' { s with lock := 0, stage := Function.update s.stage i .idle } := by
  obtain ⟨_, hnone, ⟨honce, _⟩ | ⟨_, hself, hown, hdata⟩⟩ := h.holder hi
  · cases honce
  refine .free rfl (fun j k' rest => ?_) ?_ fun j => ?_
  · by_cases hj : j = i
    · subst hj
      simp
    · simp only [Function.update_of_ne hj]
      exact hnone j hj k' rest
  · rw [hcom]
    exact hdata
  · rw [hcom, hret, own_append]
    by_cases hj : j = i
    · subst hj
      rw [own_self, hself]
    · rw [own_other (Ne.symm hj), List.append_nil, hown j hj]

/-- An access outside the lock. -/
theorem Inv.outside {tr' : List (Record ι σ κ ω)} (h : Inv body out data tr s) {i : ι} {w : ω}
    (hi : s.stage i = .idle) (hcom : committed tr' = committed tr ++ [(i, .inr w)])
    (hret : returned tr' = returned tr ++ [(i, .inr w)]) :
    Inv body out data tr' { s with data := out w s.data } := by
  cases h with
  | free hlock hnone hdata hown =>
      refine .free hlock hnone ?_ fun j => ?_
      · rw [hcom, serial_append, hdata]
        rfl
      · rw [hcom, hret, own_append, own_append, hown]
  | before j k rest hlock hj hnone honce hdata hown =>
      refine .before j k rest hlock hj hnone honce (fun ws => ?_) fun j => ?_
      · have hall := hdata (w :: ws)
        rw [hcom, serial_append]
        exact hall
      · rw [hcom, hret, own_append, own_append, hown]
  | after j k rest hlock hj hnone hquiet hdata hself hown =>
      have hij : i ≠ j := by
        rintro rfl
        rw [hi] at hj
        cases hj
      refine .after j k rest hlock hj hnone hquiet ?_ ?_ fun j' hj' => ?_
      · rw [hcom, serial_append, ← hdata]
        exact hquiet.run_out w s.data
      · rw [hcom, hret, own_append, own_append, own_other hij, List.append_nil, List.append_nil, hself]
      · rw [hcom, hret, own_append, own_append, hown j' hj']

/-- **Every step keeps the invariant.** -/
theorem Inv.step (hbody : ∀ k, Once out (body k)) (h : Inv body out data tr s)
    (hstep : step body out s e = some (s', m)) : Inv body out data (⟨s, e, m, s'⟩ :: tr) s' := by
  have hcom := committed_cons ⟨s, e, m, s'⟩ tr
  have hret := returned_cons ⟨s, e, m, s'⟩ tr
  generalize (⟨s, e, m, s'⟩ :: tr : List (Record ι σ κ ω)) = tr' at hcom hret
  rcases step_cases hstep with ⟨i, k, hi, rfl, rfl⟩ | ⟨i, k, hi, hzero, rfl, rfl⟩ | ⟨rfl, rfl⟩ |
    ⟨i, k, commit, f, next, hi, rfl, rfl⟩ | ⟨i, k, hi, rfl, rfl⟩ | ⟨i, w, hi, rfl, rfl⟩
  · refine h.congr rfl rfl (fun j k' rest => ?_) (hcom.trans (List.append_nil _))
      (hret.trans (List.append_nil _))
    by_cases hj : j = i
    · subst hj
      simp [hi]
    · simp [hj]
  · exact h.acquire hbody hzero (hcom.trans (List.append_nil _)) (hret.trans (List.append_nil _))
  · exact h.congr rfl rfl (fun _ _ _ => Iff.rfl) (hcom.trans (List.append_nil _))
      (hret.trans (List.append_nil _))
  · cases commit with
    | true => exact h.access hi hcom (hret.trans (List.append_nil _))
    | false => exact h.access hi hcom (hret.trans (List.append_nil _))
  · exact h.release hi (hcom.trans (List.append_nil _)) hret
  · exact h.outside hi hcom hret

/-- The invariant along every run. -/
theorem Run.inv (hbody : ∀ k, Once out (body k)) (hrun : Run body out data tr s) :
    Inv body out data tr s :=
  hrun.history_invariant (fun tr s => Inv body out data tr s)
    (.free rfl (fun _ _ _ h => by cases h) rfl fun _ => rfl)
    fun _ _ _ _ _ _ hinv hstep => hinv.step hbody hstep

/-- **Mutual exclusion.**  The lock is 1 exactly while a core is inside a section, and then it is the
only one. -/
theorem Run.exclusive (hbody : ∀ k, Once out (body k)) (hrun : Run body out data tr s) :
    (s.lock = 0 ∨ s.lock = 1) ∧ (s.lock = 1 ↔ ∃ i k rest, s.stage i = .inside k rest) ∧
      ∀ i j k k' rest rest', s.stage i = .inside k rest → s.stage j = .inside k' rest' → i = j := by
  have hinv := Run.inv hbody hrun
  refine ⟨?_, ⟨fun hone => ?_, fun ⟨i, k, rest, hi⟩ => (hinv.holder hi).1⟩, ?_⟩
  · cases hinv with
    | free hlock => exact .inl hlock
    | before _ _ _ hlock | after _ _ _ hlock => exact .inr hlock
  · cases hinv with
    | free hlock => omega
    | before i k rest _ hi | after i k rest _ hi => exact ⟨i, k, rest, hi⟩
  · intro i j k k' rest rest' hi hj
    by_contra hne
    exact (hinv.holder hi).2.1 j (Ne.symm hne) k' rest' hj

/-- **Serialisability.**  While the lock is free, the shared state is that of the calls run one after
the other in the order of their commits, and each core's calls have committed in the order in which
they returned to it. -/
theorem Run.serial (hbody : ∀ k, Once out (body k)) (hrun : Run body out data tr s)
    (hfree : s.lock = 0) :
    s.data = LockedSections.serial body out data (committed tr) ∧
      ∀ i, own i (committed tr) = own i (returned tr) := by
  cases Run.inv hbody hrun with
  | free _ _ hdata hown => exact ⟨hdata, hown⟩
  | before _ _ _ hlock | after _ _ _ hlock => omega

end Serial

end LockedSections
