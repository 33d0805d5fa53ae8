import Mathlib.Data.List.TakeDrop

/-! A list cut into chunks of one length, where the last chunk may be shorter, and what a fold
over the chunks does when the full ones are only collected. -/
namespace ListChunks

variable {α σ : Type*} {n : ℕ}

def chunks (n : ℕ) (l : List α) : List (List α) :=
  if 0 < n ∧ l ≠ [] then l.take n :: chunks n (l.drop n) else []
termination_by l.length
decreasing_by
  have hl := List.length_pos_iff.mpr (And.right ‹_›)
  rw [List.length_drop]
  omega

def whole (n : ℕ) (l : List α) : List α := l.take (l.length / n * n)

def remainder (n : ℕ) (l : List α) : List α := l.drop (l.length / n * n)

@[simp] theorem chunks_nil (n : ℕ) : chunks n ([] : List α) = [] := by
  rw [chunks, if_neg (by simp)]

theorem chunks_of_ne_nil (hn : 0 < n) {l : List α} (hl : l ≠ []) :
    chunks n l = l.take n :: chunks n (l.drop n) := by
  rw [chunks, if_pos ⟨hn, hl⟩]

theorem chunks_of_length_le (hn : 0 < n) {l : List α} (hl : l ≠ []) (hle : l.length ≤ n) :
    chunks n l = [l] := by
  rw [chunks_of_ne_nil hn hl, List.take_of_length_le hle, List.drop_eq_nil_of_le hle, chunks_nil]

@[simp] theorem whole_append_remainder (n : ℕ) (l : List α) : whole n l ++ remainder n l = l :=
  List.take_append_drop _ _

theorem whole_eq_nil (n : ℕ) {l : List α} (h : l.length < n) : whole n l = [] := by
  rw [whole, Nat.div_eq_of_lt h, Nat.zero_mul, List.take_zero]

theorem remainder_eq_self (n : ℕ) {l : List α} (h : l.length < n) : remainder n l = l := by
  rw [remainder, Nat.div_eq_of_lt h, Nat.zero_mul, List.drop_zero]

theorem length_remainder_lt (hn : 0 < n) (l : List α) : (remainder n l).length < n := by
  have hmod := Nat.mod_lt l.length hn
  have hdiv := Nat.div_add_mod' l.length n
  rw [remainder, List.length_drop]
  omega

theorem length_whole (n : ℕ) (l : List α) : (whole n l).length = l.length / n * n := by
  rw [whole, List.length_take]
  exact Nat.min_eq_left (Nat.div_mul_le_self _ _)

/-- Taking the first chunk off. -/
theorem div_mul_length (hn : 0 < n) {l : List α} (h : n ≤ l.length) :
    l.length / n * n = n + (l.drop n).length / n * n := by
  have hdiv : l.length / n = (l.length - n) / n + 1 := by
    rw [← Nat.add_div_right _ hn, Nat.sub_add_cancel h]
  rw [List.length_drop, hdiv, Nat.add_mul, Nat.one_mul, Nat.add_comm]

theorem whole_of_le (hn : 0 < n) {l : List α} (h : n ≤ l.length) :
    whole n l = l.take n ++ whole n (l.drop n) := by
  rw [whole, div_mul_length hn h, List.take_add, whole]

theorem remainder_of_le (hn : 0 < n) {l : List α} (h : n ≤ l.length) :
    remainder n l = remainder n (l.drop n) := by
  rw [remainder, div_mul_length hn h, ← List.drop_drop, remainder]

/-- A fold that collects the full chunks goes on with the remainder. -/
theorem foldl_chunks (hn : 0 < n) {f : σ → List α → σ} {g : List α → σ}
    (hfull : ∀ acc chunk, chunk.length = n → f (g acc) chunk = g (acc ++ chunk))
    (acc l : List α) :
    (chunks n l).foldl f (g acc) =
      (chunks n (remainder n l)).foldl f (g (acc ++ whole n l)) := by
  induction h : l.length using Nat.strongRecOn generalizing acc l with
  | ind k ih =>
    by_cases hlt : l.length < n
    · rw [whole_eq_nil n hlt, remainder_eq_self n hlt, List.append_nil]
    · have hle : n ≤ l.length := Nat.le_of_not_lt hlt
      have hne : l ≠ [] := List.ne_nil_of_length_pos (Nat.lt_of_lt_of_le hn hle)
      have hdrop : (l.drop n).length < k := by
        rw [List.length_drop]
        omega
      have hstep := hfull acc (l.take n) (List.length_take_of_le hle)
      rw [chunks_of_ne_nil hn hne, List.foldl_cons, hstep, ih _ hdrop _ _ rfl,
        whole_of_le hn hle, remainder_of_le hn hle, List.append_assoc]

end ListChunks
