import Mathlib.Logic.Relation

/-! Machines given by a partial step function, and the runs in which every step is
taken under a guard. The guard that allows every step gives plain reachability. -/
namespace TransitionRuns

variable {σ ε : Type*}

structure Machine (σ ε : Type*) where
  initial : σ
  step : σ → ε → Option σ

/-- States at the end of a finite run whose steps all meet `ok`. -/
inductive Machine.Reaches (M : Machine σ ε) (ok : σ → ε → Prop) : σ → Prop where
  | initial : M.Reaches ok M.initial
  | step {s t e} : M.Reaches ok s → ok s e → M.step s e = some t → M.Reaches ok t

def Machine.Reachable (M : Machine σ ε) (s : σ) : Prop := M.Reaches (fun _ _ => True) s

variable {M : Machine σ ε} {ok : σ → ε → Prop} {s t : σ}

/-- The invariant rule; the step may also use that its source is reached. -/
theorem Machine.Reaches.invariant {I : σ → Prop} (h : M.Reaches ok s) (base : I M.initial)
    (next : ∀ s e t, M.Reaches ok s → I s → ok s e → M.step s e = some t → I t) : I s := by
  induction h with
  | initial => exact base
  | step hr ho he ih => exact next _ _ _ hr ih ho he

theorem Machine.Reaches.mono {ok' : σ → ε → Prop} (h : M.Reaches ok s)
    (le : ∀ s e, ok s e → ok' s e) : M.Reaches ok' s := by
  induction h with
  | initial => exact .initial
  | step _ ho he ih => exact .step ih (le _ _ ho) he

theorem Machine.Reaches.reachable (h : M.Reaches ok s) : M.Reachable s :=
  h.mono fun _ _ _ => trivial

def Machine.exec (M : Machine σ ε) : σ → List ε → Option σ
  | s, [] => some s
  | s, e :: es => (M.step s e).bind fun t => M.exec t es

theorem Machine.exec_append {u : σ} {es fs : List ε} (h : M.exec s es = some t)
    (k : M.exec t fs = some u) : M.exec s (es ++ fs) = some u := by
  induction es generalizing s with
  | nil =>
    obtain rfl := Option.some.inj h
    exact k
  | cons e es ih =>
    obtain ⟨v, hv, ht⟩ := Option.bind_eq_some_iff.mp h
    exact Option.bind_eq_some_iff.mpr ⟨v, hv, ih ht⟩

theorem Machine.exec_split {u : σ} {es fs : List ε} (h : M.exec s (es ++ fs) = some u) :
    ∃ t, M.exec s es = some t ∧ M.exec t fs = some u := by
  induction es generalizing s with
  | nil => exact ⟨s, rfl, h⟩
  | cons e es ih =>
    obtain ⟨v, hv, hu⟩ := Option.bind_eq_some_iff.mp h
    obtain ⟨t, ht, hf⟩ := ih hu
    exact ⟨t, Option.bind_eq_some_iff.mpr ⟨v, hv, ht⟩, hf⟩

/-- The invariant rule for a relation between what has happened and the state. -/
theorem Machine.exec_history {P : List ε → σ → Prop} {l es : List ε}
    (h : M.exec s es = some t) (base : P l s)
    (next : ∀ l s e t, e ∈ es → P l s → M.step s e = some t → P (l ++ [e]) t) :
    P (l ++ es) t := by
  induction es generalizing s l with
  | nil =>
    obtain rfl := Option.some.inj h
    rwa [List.append_nil]
  | cons e es ih =>
    obtain ⟨u, hu, ht⟩ := Option.bind_eq_some_iff.mp h
    have hnext := ih ht (next l s e u List.mem_cons_self base hu)
      fun l s e' t he => next l s e' t (List.mem_cons_of_mem e he)
    rwa [List.append_assoc, List.singleton_append] at hnext

/-- A run seen through `f`, where each step is one of the other machine or cannot be seen. -/
theorem Machine.exec_project {τ δ : Type*} {N : Machine τ δ} {f : σ → τ}
    (sim : ∀ s e t, M.step s e = some t → f t = f s ∨ ∃ d, N.step (f s) d = some (f t))
    {es : List ε} (h : M.exec s es = some t) : ∃ ds, N.exec (f s) ds = some (f t) := by
  induction es generalizing s with
  | nil =>
    obtain rfl := Option.some.inj h
    exact ⟨[], rfl⟩
  | cons e es ih =>
    obtain ⟨u, hu, ht⟩ := Option.bind_eq_some_iff.mp h
    obtain ⟨ds, hds⟩ := ih ht
    rcases sim s e u hu with hf | ⟨d, hd⟩
    · exact ⟨ds, by rw [← hf]; exact hds⟩
    · exact ⟨d :: ds, Option.bind_eq_some_iff.mpr ⟨f u, hd, hds⟩⟩

theorem Machine.Reaches.project {τ δ : Type*} {N : Machine τ δ} {f : σ → τ}
    (start : f M.initial = N.initial)
    (sim : ∀ s e t, M.step s e = some t → f t = f s ∨ ∃ d, N.step (f s) d = some (f t))
    (h : M.Reachable s) : N.Reachable (f s) := by
  induction h with
  | initial =>
    rw [start]
    exact .initial
  | @step u v e _ _ he ih =>
    rcases sim u e v he with hf | ⟨d, hd⟩
    · rw [hf]
      exact ih
    · exact .step ih trivial hd

/-- The same machine with the guard built into its step, so that a guarded run is executable. -/
def Machine.guarded (M : Machine σ ε) (ok : σ → ε → Prop) [∀ s e, Decidable (ok s e)] :
    Machine σ ε where
  initial := M.initial
  step s e := if ok s e then M.step s e else none

theorem Machine.Reaches.exec {es : List ε} (h : M.Reachable s)
    (he : M.exec s es = some t) : M.Reachable t := by
  induction es generalizing s with
  | nil => cases he; exact h
  | cons e es ih =>
    obtain ⟨u, hu, ht⟩ := Option.bind_eq_some_iff.mp he
    exact ih (.step h trivial hu) ht

theorem Machine.reachable_of_exec {es : List ε} (he : M.exec M.initial es = some t) :
    M.Reachable t := Machine.Reaches.exec .initial he

theorem Machine.Reaches.of_guarded [∀ s e, Decidable (ok s e)]
    (h : (M.guarded ok).Reachable s) : M.Reaches ok s := by
  induction h with
  | initial => exact .initial
  | @step u v e _ _ he ih =>
    simp only [Machine.guarded] at he
    split at he
    · exact .step ih ‹_› he
    · cases he

theorem Machine.exists_exec (M : Machine σ ε) (s : σ) (es : List ε) (P : σ → Bool)
    (h : (M.exec s es).any P = true) : ∃ t, M.exec s es = some t ∧ P t = true := by
  cases he : M.exec s es with
  | none => simp [he] at h
  | some t => exact ⟨t, rfl, by simpa [he] using h⟩

/-- To exhibit a reached state, execute a run and test its last state. -/
theorem Machine.exists_reachable (M : Machine σ ε) (es : List ε) (P : σ → Bool)
    (h : (M.exec M.initial es).any P = true) : ∃ s, M.Reachable s ∧ P s = true := by
  cases he : M.exec M.initial es with
  | none => simp [he] at h
  | some s => exact ⟨s, reachable_of_exec he, by simpa [he] using h⟩

theorem Machine.exists_reaches (M : Machine σ ε) (ok : σ → ε → Prop)
    [∀ s e, Decidable (ok s e)] (es : List ε) (P : σ → Bool)
    (h : ((M.guarded ok).exec M.initial es).any P = true) :
    ∃ s, M.Reaches ok s ∧ P s = true := by
  obtain ⟨s, hs, hp⟩ := (M.guarded ok).exists_reachable es P h
  exact ⟨s, .of_guarded hs, hp⟩

end TransitionRuns
