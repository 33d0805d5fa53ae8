import Mathlib.Data.List.TakeDrop

/-! Streams that are read and written by calls which may move less than was asked for. A
call that moves anything moves at least one element, so the usual loops around such calls
end, and what they achieve does not depend on how the transfers were split. -/
namespace PartialTransfers

variable {α : Type*}

structure Source (α : Type*) where
  stream : List α
  calls : ℕ
  deriving DecidableEq, Repr

/-- The `n`-th call moves at most `split n + 1` elements, and none only at the end. -/
def Source.read (split : ℕ → ℕ) (s : Source α) (wanted : ℕ) : List α × Source α :=
  let n := min wanted (split s.calls + 1)
  (s.stream.take n, ⟨s.stream.drop n, s.calls + 1⟩)

def readLoop (split : ℕ → ℕ) : ℕ → ℕ → Source α → List α × Source α
  | 0, _, s => ([], s)
  | fuel + 1, wanted, s =>
    if wanted = 0 then ([], s)
    else
      let r := s.read split wanted
      if r.1.isEmpty then ([], r.2)
      else
        let rest := readLoop split fuel (wanted - r.1.length) r.2
        (r.1 ++ rest.1, rest.2)

theorem Source.read_ne_nil (split : ℕ → ℕ) {s : Source α} {wanted : ℕ} (hs : s.stream ≠ [])
    (hw : wanted ≠ 0) : (s.read split wanted).1 ≠ [] := by
  intro h
  rcases List.take_eq_nil_iff.mp h with h0 | h0
  · omega
  · exact hs h0

/-- After a call that brought something, what is still wanted is wanted from what is left. -/
theorem Source.read_then (split : ℕ → ℕ) (s : Source α) (wanted : ℕ) :
    (s.read split wanted).1 ++
        (s.read split wanted).2.stream.take (wanted - (s.read split wanted).1.length) =
      s.stream.take wanted ∧
    (s.read split wanted).2.stream.drop (wanted - (s.read split wanted).1.length) =
      s.stream.drop wanted := by
  simp only [Source.read, List.length_take]
  generalize hn : min wanted (split s.calls + 1) = n
  have hle : n ≤ wanted := by omega
  by_cases hl : n ≤ s.stream.length
  · rw [Nat.min_eq_left hl, ← List.take_add, List.drop_drop, Nat.add_sub_cancel' hle]
    exact ⟨rfl, rfl⟩
  · have hlen : s.stream.length ≤ wanted := by omega
    rw [List.drop_eq_nil_of_le (by omega), List.take_of_length_le (by omega),
      List.take_of_length_le hlen, List.drop_eq_nil_of_le hlen]
    simp

/-- The loop takes the next elements of the stream, as many as are wanted and there. -/
theorem readLoop_spec (split : ℕ → ℕ) {fuel wanted : ℕ} (h : wanted ≤ fuel) (s : Source α) :
    (readLoop split fuel wanted s).1 = s.stream.take wanted ∧
      (readLoop split fuel wanted s).2.stream = s.stream.drop wanted := by
  induction fuel generalizing wanted s with
  | zero =>
    obtain rfl : wanted = 0 := by omega
    exact ⟨rfl, rfl⟩
  | succ fuel ih =>
    by_cases hw : wanted = 0
    · subst hw
      exact ⟨rfl, rfl⟩
    rw [readLoop, if_neg hw]
    by_cases hs : s.stream = []
    · simp [Source.read, hs]
    · have hne := Source.read_ne_nil split hs hw
      have hpos := List.length_pos_iff.mpr hne
      obtain ⟨h1, h2⟩ := ih (by omega : wanted - (s.read split wanted).1.length ≤ fuel)
        (s.read split wanted).2
      obtain ⟨ht, hd⟩ := s.read_then split wanted
      simp only [List.isEmpty_iff, hne, if_false, h1, h2]
      exact ⟨ht, hd⟩

structure Sink (α : Type*) where
  written : List α
  calls : ℕ
  deriving DecidableEq, Repr

/-- Write until everything is taken over or a call fails. The `n`-th call fails, or moves at
most one element more than `accept n` says. -/
def writeLoop (accept : ℕ → Option ℕ) : ℕ → List α → Sink α → Sink α × Bool
  | 0, _, s => (s, true)
  | fuel + 1, data, s =>
    if data.isEmpty then (s, true)
    else match accept s.calls with
      | none => (⟨s.written, s.calls + 1⟩, false)
      | some k =>
        writeLoop accept fuel (data.drop (k + 1)) ⟨s.written ++ data.take (k + 1), s.calls + 1⟩

/-- Some part of the data is written, all of it exactly when the loop does not fail. -/
theorem writeLoop_spec (accept : ℕ → Option ℕ) {fuel : ℕ} {data : List α}
    (h : data.length ≤ fuel) (s : Sink α) :
    ∃ n ≤ data.length, (writeLoop accept fuel data s).1.written = s.written ++ data.take n ∧
      ((writeLoop accept fuel data s).2 = true ↔ n = data.length) := by
  induction fuel generalizing data s with
  | zero =>
    obtain rfl : data = [] := List.length_eq_zero_iff.mp (by omega)
    exact ⟨0, Nat.le_refl _, by simp [writeLoop], by simp [writeLoop]⟩
  | succ fuel ih =>
    by_cases hd : data = []
    · subst hd
      exact ⟨0, Nat.le_refl _, by simp [writeLoop], by simp [writeLoop]⟩
    · have hpos := List.length_pos_iff.mpr hd
      simp only [writeLoop]
      rw [if_neg (by simpa using hd)]
      cases accept s.calls with
      | none => exact ⟨0, Nat.zero_le _, by simp, by simp; omega⟩
      | some k =>
        have hl : (data.drop (k + 1)).length ≤ fuel := by
          rw [List.length_drop]
          omega
        obtain ⟨n, hn, hw, hok⟩ := ih hl ⟨s.written ++ data.take (k + 1), s.calls + 1⟩
        rw [List.length_drop] at hn hok
        by_cases hk : k + 1 ≤ data.length
        · refine ⟨k + 1 + n, by omega, ?_, ?_⟩
          · rw [hw, List.append_assoc, ← List.take_add]
          · rw [hok]
            omega
        · refine ⟨data.length, Nat.le_refl _, ?_, ?_⟩
          · rw [hw, List.drop_eq_nil_of_le (by omega), List.take_of_length_le (by omega)]
            simp
          · rw [hok]
            omega

theorem writeLoop_accepts {accept : ℕ → Option ℕ} (ha : ∀ n, (accept n).isSome = true)
    {fuel : ℕ} {data : List α} (h : data.length ≤ fuel) (s : Sink α) :
    (writeLoop accept fuel data s).1.written = s.written ++ data ∧
      (writeLoop accept fuel data s).2 = true := by
  have hok : (writeLoop accept fuel data s).2 = true := by
    clear h
    induction fuel generalizing data s with
    | zero => rfl
    | succ fuel ih =>
      simp only [writeLoop]
      split
      · rfl
      · obtain ⟨k, hk⟩ := Option.isSome_iff_exists.mp (ha s.calls)
        rw [hk]
        exact ih _
  obtain ⟨n, hn, hw, hiff⟩ := writeLoop_spec accept h s
  rw [hiff.mp hok, List.take_length] at hw
  exact ⟨hw, hok⟩

def Writes (w : Sink α → Sink α × Bool) (data : List α) : Prop :=
  ∀ s, ∃ n ≤ data.length, (w s).1.written = s.written ++ data.take n ∧
    ((w s).2 = true ↔ n = data.length)

def andThen (w v : Sink α → Sink α × Bool) (s : Sink α) : Sink α × Bool :=
  let out := w s
  if out.2 then v out.1 else out

theorem Writes.andThen {w v : Sink α → Sink α × Bool} {first second : List α}
    (hw : Writes w first) (hv : Writes v second) : Writes (andThen w v) (first ++ second) := by
  intro s
  obtain ⟨n, hn, hwritten, hok⟩ := hw s
  cases hr : (w s).2 with
  | false =>
    have hlt : n ≠ first.length := fun he => by simp [hok.mpr he] at hr
    refine ⟨n, by rw [List.length_append]; omega, ?_, ?_⟩
    · simp only [PartialTransfers.andThen, hr, Bool.false_eq_true, if_false, hwritten,
        List.take_append_of_le_length hn]
    · simp only [PartialTransfers.andThen, hr, Bool.false_eq_true, if_false, List.length_append,
        false_iff]
      omega
  | true =>
    obtain ⟨m, hm, hwritten', hok'⟩ := hv (w s).1
    have he := hok.mp hr
    refine ⟨first.length + m, by rw [List.length_append]; omega, ?_, ?_⟩
    · simp only [PartialTransfers.andThen, hr, if_true]
      rw [hwritten', hwritten, he, List.take_length, List.take_length_add_append,
        List.append_assoc]
    · simp only [PartialTransfers.andThen, hr, if_true, hok', List.length_append]
      omega

variable {β γ : Type*}

def writeEach (writeOne : γ → Sink α → Sink α × Bool) : List γ → Sink α → Sink α × Bool
  | [], s => (s, true)
  | x :: xs, s =>
    let out := writeOne x s
    if out.2 then writeEach writeOne xs out.1 else out

def readEach (readOne : Source α → β × Source α) : ℕ → Source α → List β × Source α
  | 0, s => ([], s)
  | n + 1, s =>
    let out := readOne s
    let rest := readEach readOne n out.2
    (out.1 :: rest.1, rest.2)

theorem writeEach_frames {writeOne : γ → Sink α → Sink α × Bool} {frame : γ → List α}
    (h : ∀ x s, (writeOne x s).1.written = s.written ++ frame x ∧ (writeOne x s).2 = true)
    (xs : List γ) (s : Sink α) :
    (writeEach writeOne xs s).1.written = s.written ++ xs.flatMap frame ∧
      (writeEach writeOne xs s).2 = true := by
  induction xs generalizing s with
  | nil => exact ⟨(List.append_nil _).symm, rfl⟩
  | cons x xs ih =>
    obtain ⟨hw, hok⟩ := h x s
    obtain ⟨iw, iok⟩ := ih (writeOne x s).1
    rw [hw, List.append_assoc, ← List.flatMap_cons] at iw
    rw [writeEach, hok, if_pos rfl]
    exact ⟨iw, iok⟩

/-- A reader that undoes one frame undoes a sequence of frames, and leaves what follows. -/
theorem readEach_frames {readOne : Source α → β × Source α} {frame : γ → List α} {item : γ → β}
    {xs : List γ} (h : ∀ x ∈ xs, ∀ (s : Source α) (rest : List α),
      s.stream = frame x ++ rest → (readOne s).1 = item x ∧ (readOne s).2.stream = rest)
    {s : Source α} {rest : List α} (hs : s.stream = xs.flatMap frame ++ rest) :
    (readEach readOne xs.length s).1 = xs.map item ∧
      (readEach readOne xs.length s).2.stream = rest := by
  induction xs generalizing s with
  | nil => exact ⟨rfl, hs⟩
  | cons x xs ih =>
    rw [List.flatMap_cons, List.append_assoc] at hs
    obtain ⟨hitem, hrest⟩ := h x List.mem_cons_self s _ hs
    obtain ⟨i1, i2⟩ := ih (fun y hy => h y (List.mem_cons_of_mem x hy)) hrest
    rw [List.length_cons, readEach, List.map_cons]
    exact ⟨by rw [hitem, i1], i2⟩

/-- Where the reader misreads every frame it does not undo, what it makes of a sequence tells
whether it undoes them all. -/
theorem readEach_frames_iff {readOne : Source α → β × Source α} {frame : γ → List α}
    {item : γ → β} {good : γ → Prop} {xs : List γ}
    (h : ∀ x ∈ xs, ∀ (s : Source α) (rest : List α), s.stream = frame x ++ rest → good x →
      (readOne s).1 = item x ∧ (readOne s).2.stream = rest)
    (hbad : ∀ x ∈ xs, ∀ (s : Source α) (rest : List α), s.stream = frame x ++ rest → ¬good x →
      (readOne s).1 ≠ item x)
    {s : Source α} {rest : List α} (hs : s.stream = xs.flatMap frame ++ rest) :
    (readEach readOne xs.length s).1 = xs.map item ↔ ∀ x ∈ xs, good x := by
  constructor
  · intro heq
    induction xs generalizing s with
    | nil => simp
    | cons x xs ih =>
      rw [List.flatMap_cons, List.append_assoc] at hs
      rw [List.length_cons, readEach, List.map_cons] at heq
      obtain ⟨hhead, htail⟩ := List.cons.inj heq
      have hx : good x := by
        by_contra hn
        exact hbad x List.mem_cons_self s _ hs hn hhead
      have hrest := (h x List.mem_cons_self s _ hs hx).2
      have hxs := ih (fun y hy => h y (List.mem_cons_of_mem x hy))
        (fun y hy => hbad y (List.mem_cons_of_mem x hy)) hrest htail
      exact List.forall_mem_cons.mpr ⟨hx, hxs⟩
  · intro hgood
    exact (readEach_frames (fun x hx s rest hs => h x hx s rest hs (hgood x hx)) hs).1

end PartialTransfers
