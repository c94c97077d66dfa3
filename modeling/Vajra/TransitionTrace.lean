import Mathlib.Data.List.Basic

/-!
# Traces of a labelled transition system

A system is a partial step function: in a state, an event either is not
enabled or yields an outcome and the next state.  A trace is the list of
transitions taken so far, newest first, so that a recursion over a trace looks
at the latest transition and then at the history before it.

`Trace.invariant` and `Trace.history_invariant` are the two induction rules:
an invariant of the states, and an invariant that also reads the history.
`runTrace_sound` turns an executed list of events into a trace.  `Since` is the past-time
operator: something happened, and something else has held ever since.
-/

namespace TransitionTrace

variable {σ ε ω : Type*}

/-- One recorded transition. -/
structure Transition (σ ε ω : Type*) where
  pre : σ
  event : ε
  outcome : ω
  post : σ

/-- `Trace step s0 tr s`: the transitions `tr`, newest first, lead from `s0`
to `s`. -/
inductive Trace (step : σ → ε → Option (σ × ω)) (s0 : σ) :
    List (Transition σ ε ω) → σ → Prop
  | nil : Trace step s0 [] s0
  | snoc {tr : List (Transition σ ε ω)} {s s' : σ} {e : ε} {o : ω}
      (before : Trace step s0 tr s) (hstep : step s e = some (s', o)) :
      Trace step s0 (⟨s, e, o, s'⟩ :: tr) s'

variable {step : σ → ε → Option (σ × ω)} {s0 s : σ}
  {tr : List (Transition σ ε ω)}

/-- An invariant that may read the history holds along every trace. -/
theorem Trace.history_invariant (inv : List (Transition σ ε ω) → σ → Prop)
    (hinit : inv [] s0)
    (hnext : ∀ tr s e o s', Trace step s0 tr s → inv tr s →
      step s e = some (s', o) → inv (⟨s, e, o, s'⟩ :: tr) s')
    (htrace : Trace step s0 tr s) : inv tr s := by
  induction htrace with
  | nil => exact hinit
  | snoc before hstep ih => exact hnext _ _ _ _ _ before ih hstep

/-- An invariant of the states holds in every state a trace leads to. -/
theorem Trace.invariant {inv : σ → Prop} (hinit : inv s0)
    (hnext : ∀ s e o s', inv s → step s e = some (s', o) → inv s')
    (htrace : Trace step s0 tr s) : inv s :=
  htrace.history_invariant (fun _ s => inv s) hinit
    (fun _ s e o s' _ hinv hstep => hnext s e o s' hinv hstep)

/-- A trace goes on where another one ends. -/
theorem Trace.trans {s' : σ} {tr' : List (Transition σ ε ω)} (htrace : Trace step s0 tr s)
    (hmore : Trace step s tr' s') : Trace step s0 (tr' ++ tr) s' := by
  induction hmore with
  | nil => exact htrace
  | snoc before hstep ih => exact Trace.snoc ih hstep

/-- The same transition, seen through a view of the states. -/
def Transition.map {τ : Type*} (f : σ → τ) (t : Transition σ ε ω) : Transition τ ε ω :=
  ⟨f t.pre, t.event, t.outcome, f t.post⟩

/-- A view that turns steps into steps turns traces into traces. -/
theorem Trace.map {τ : Type*} {step' : τ → ε → Option (τ × ω)} {f : σ → τ}
    (hf : ∀ s e o s', step s e = some (s', o) → step' (f s) e = some (f s', o))
    (htrace : Trace step s0 tr s) :
    Trace step' (f s0) (tr.map (Transition.map f)) (f s) := by
  induction htrace with
  | nil => exact Trace.nil
  | snoc before hstep ih => exact Trace.snoc ih (hf _ _ _ _ hstep)

/-- `happened` is true of a transition of the trace and the history before it, and `kept` of
every transition since. -/
def Since (happened : Transition σ ε ω → List (Transition σ ε ω) → Prop)
    (kept : Transition σ ε ω → Prop) : List (Transition σ ε ω) → Prop
  | [] => False
  | t :: tr => happened t tr ∨ (kept t ∧ Since happened kept tr)

/-- What `view` sees of the transitions of a trace, oldest first. -/
def observed {β : Type*} (view : Transition σ ε ω → Option β) (tr : List (Transition σ ε ω)) :
    List β :=
  (tr.filterMap view).reverse

theorem observed_cons {β : Type*} (view : Transition σ ε ω → Option β) (t : Transition σ ε ω)
    (tr : List (Transition σ ε ω)) :
    observed view (t :: tr) = observed view tr ++ (view t).toList := by
  unfold observed
  cases hview : view t with
  | none => rw [List.filterMap_cons_none hview, Option.toList_none, List.append_nil]
  | some x => rw [List.filterMap_cons_some hview, List.reverse_cons, Option.toList_some]

theorem observed_append {β : Type*} (view : Transition σ ε ω → Option β)
    (tr' tr : List (Transition σ ε ω)) :
    observed view (tr' ++ tr) = observed view tr ++ observed view tr' := by
  simp [observed]

/-- Execute a list of events, recording the transitions. -/
def runTrace (step : σ → ε → Option (σ × ω)) :
    List (Transition σ ε ω) → σ → List ε → Option (List (Transition σ ε ω) × σ)
  | tr, s, [] => some (tr, s)
  | tr, s, e :: es =>
      match step s e with
      | none => none
      | some (s', o) => runTrace step (⟨s, e, o, s'⟩ :: tr) s' es

/-- An executed list of events is a trace. -/
theorem runTrace_sound {es : List ε} {tr' : List (Transition σ ε ω)} {s' : σ}
    (htrace : Trace step s0 tr s) (hrun : runTrace step tr s es = some (tr', s')) :
    Trace step s0 tr' s' := by
  induction es generalizing tr s with
  | nil =>
      simp only [runTrace, Option.some.injEq, Prod.mk.injEq] at hrun
      obtain ⟨rfl, rfl⟩ := hrun
      exact htrace
  | cons e es ih =>
      cases hstep : step s e with
      | none => simp [runTrace, hstep] at hrun
      | some next =>
          rw [runTrace, hstep] at hrun
          exact ih (Trace.snoc htrace hstep) hrun

/-- What is observed at the end of an executed list of events is observed at the
end of a trace. -/
theorem exists_trace_of_runTrace {β : Type*} {es : List ε}
    {view : List (Transition σ ε ω) × σ → β} {v : β}
    (hrun : (runTrace step [] s0 es).map view = some v) :
    ∃ tr s, Trace step s0 tr s ∧ view (tr, s) = v := by
  cases hres : runTrace step [] s0 es with
  | none => simp [hres] at hrun
  | some r =>
      refine ⟨r.1, r.2, runTrace_sound Trace.nil hres, ?_⟩
      simpa [hres] using hrun

end TransitionTrace
