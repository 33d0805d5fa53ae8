import Mathlib.Data.List.Basic

/-! Counted loops whose body may fail, and their invariant rules. -/
namespace RangeLoops

variable {β : Type*}

/-- `for (i = 0; i < n; ++i)`, ended by the first body that fails. -/
def forLoop (n : ℕ) (body : β → ℕ → Option β) (b : β) : Option β := (List.range n).foldlM body b

theorem forLoop_succ (n : ℕ) (body : β → ℕ → Option β) (b : β) :
    forLoop (n + 1) body b = (forLoop n body b).bind (body · n) := by
  rw [forLoop, List.range_succ, List.foldlM_append]
  simp [forLoop]

variable {body : β → ℕ → Option β} {b : β} {n : ℕ}

/-- A body that keeps the invariant and does not fail gives a loop that does neither. -/
theorem forLoop_invariant (I : ℕ → β → Prop) (base : I 0 b)
    (next : ∀ i < n, ∀ c, I i c → ∃ d, body c i = some d ∧ I (i + 1) d) :
    ∃ d, forLoop n body b = some d ∧ I n d := by
  induction n with
  | zero => exact ⟨b, rfl, base⟩
  | succ n ih =>
    obtain ⟨c, hc, hi⟩ := ih fun i hn => next i (by omega)
    obtain ⟨d, hd, hn⟩ := next n (by omega) c hi
    exact ⟨d, by rw [forLoop_succ, hc]; exact hd, hn⟩

/-- The same for the runs that do not fail. -/
theorem forLoop_preserves (I : β → Prop) (base : I b)
    (next : ∀ i < n, ∀ c d, I c → body c i = some d → I d) {d : β}
    (h : forLoop n body b = some d) : I d := by
  induction n generalizing d with
  | zero =>
    obtain rfl := Option.some.inj h
    exact base
  | succ n ih =>
    rw [forLoop_succ] at h
    obtain ⟨c, hc, hd⟩ := Option.bind_eq_some_iff.mp h
    exact next n (by omega) c d (ih (fun i hn => next i (by omega)) hc) hd

/-- A loop whose last body fails on everything the ones before it leave behind. -/
theorem forLoop_last_fails (I : β → Prop) (base : I b)
    (next : ∀ i < n, ∀ c d, I c → body c i = some d → I d)
    (last : ∀ c, I c → body c n = none) : forLoop (n + 1) body b = none := by
  rw [forLoop_succ]
  cases h : forLoop n body b with
  | none => rfl
  | some c => exact last c (forLoop_preserves I base next h)

end RangeLoops
