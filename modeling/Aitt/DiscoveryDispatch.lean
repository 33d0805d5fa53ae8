import Aitt.TransitionRuns
import Mathlib.Data.List.Nodup
import Mathlib.Order.Nat

/-! The loops of `AittDiscovery::DiscoveryMessageCallback` over the map of callbacks, while the
callbacks themselves add and remove entries. A position in a `std::map` survives everything but
the removal of the entry it is at. -/
namespace DiscoveryDispatch

open TransitionRuns

structure Node where
  id : ℕ
  protocol : String
  deriving DecidableEq, Repr

structure Round where
  key : Option String
  cursor : ℕ := 0
  running : Bool := false
  calls : List ℕ := []
  deriving DecidableEq, Repr

structure Finished where
  round : Round
  callbacks : List Node
  deriving DecidableEq, Repr

/-- `callbacks` is in the order of the ids. `broken` says that the position was lost. -/
structure State where
  callbacks : List Node := []
  id : ℕ := 0
  keys : List (Option String) := []
  round : Option Round := none
  finished : List Finished := []
  broken : Bool := false
  deriving DecidableEq, Repr

def calledFor (key : Option String) (protocol : String) : Bool :=
  match key with
  | none => true
  | some k => protocol = k

def after (callbacks : List Node) (cursor : ℕ) : Option Node :=
  callbacks.find? fun node => cursor < node.id

def keysOf : Option (List String) → List (Option String)
  | none => [none]
  | some keys => (keys.filter (· ≠ "status")).map some

inductive Event where
  | message (keys : Option (List String))
  | next
  | add (protocol : String)
  | remove (id : ℕ)
  deriving DecidableEq, Repr

def Round.advance (r : Round) (node : Node) : Round :=
  if calledFor r.key node.protocol then
    { r with cursor := node.id, running := true, calls := r.calls ++ [node.id] }
  else { r with cursor := node.id, running := false }

/-- A callback has returned, or the loop goes on past an entry of another protocol. -/
def State.next (s : State) : Option State :=
  match s.round, s.keys with
  | none, [] => none
  | none, key :: keys => some { s with round := some { key := key }, keys := keys }
  | some r, _ =>
    match after s.callbacks r.cursor with
    | some node => some { s with round := some (r.advance node) }
    | none => some { s with
        round := none
        finished := s.finished ++ [⟨{ r with running := false }, s.callbacks⟩] }

/-- Between messages, or from a callback that runs. -/
def State.open (s : State) : Bool :=
  match s.round with
  | none => s.keys = []
  | some r => r.running

def State.at (s : State) (id : ℕ) : Bool :=
  match s.round with
  | none => false
  | some r => r.cursor = id

def State.removeDiscoveryCB (s : State) (id : ℕ) : State :=
  { s with
    callbacks := s.callbacks.filter (·.id ≠ id)
    broken := s.at id && s.callbacks.any (·.id = id) }

def State.addDiscoveryCB (s : State) (protocol : String) : State :=
  { s with
    id := s.id + 1
    callbacks := s.callbacks ++ [⟨s.id + 1, protocol⟩] }

def idMax : ℕ := 2147483647

/-- Nothing is said about a loop that has lost its position, and about ids after the last one,
where the counter wraps. -/
def State.step (s : State) : Event → Option State
  | .message keys =>
    if s.round = none ∧ s.keys = [] then some { s with keys := keysOf keys } else none
  | .next => if s.broken then none else s.next
  | .add protocol =>
    if s.open && !s.broken && s.id < idMax then some (s.addDiscoveryCB protocol) else none
  | .remove id =>
    if s.open && !s.broken then some (s.removeDiscoveryCB id) else none

def machine : Machine State Event where
  initial := {}
  step := State.step

/-- No callback removes its own entry. -/
def Careful (s : State) : Event → Prop
  | .remove id => s.at id = false
  | .message _ | .next | .add _ => True

instance (s : State) (e : Event) : Decidable (Careful s e) :=
  match e with
  | .remove _ => inferInstanceAs (Decidable (_ = _))
  | .message _ | .next | .add _ => inferInstanceAs (Decidable True)

/-- What a loop has done up to its position: in the order of the ids, each entry of its key
that is still there, and none twice. -/
structure Covers (callbacks : List Node) (r : Round) (upto : ℕ → Prop) : Prop where
  ascending : r.calls.Pairwise (· < ·)
  complete : ∀ node ∈ callbacks, upto node.id → calledFor r.key node.protocol = true →
    node.id ∈ r.calls

structure Invariant (s : State) : Prop where
  sorted : s.callbacks.Pairwise fun a b => a.id < b.id
  given : ∀ node ∈ s.callbacks, 0 < node.id ∧ node.id ≤ s.id
  round : ∀ r, s.round = some r → Covers s.callbacks r (· ≤ r.cursor)
  passed : ∀ r, s.round = some r → r.cursor ≤ s.id ∧ ∀ id ∈ r.calls, id ≤ r.cursor
  running : ∀ r, s.round = some r → r.running = true → s.broken = false →
    ∃ node ∈ s.callbacks, node.id = r.cursor
  finished : ∀ f ∈ s.finished, Covers f.callbacks f.round fun _ => True

variable {s t : State} {callbacks : List Node} {node : Node} {r : Round} {c : ℕ}

theorem after_eq_some (hs : callbacks.Pairwise fun a b => a.id < b.id)
    (h : after callbacks c = some node) :
    node ∈ callbacks ∧ c < node.id ∧ ∀ m ∈ callbacks, c < m.id → node.id ≤ m.id := by
  induction callbacks with
  | nil => cases h
  | cons first rest ih =>
    rw [List.pairwise_cons] at hs
    by_cases hc : c < first.id
    · rw [after, List.find?_cons_of_pos (by simpa using hc)] at h
      cases h
      refine ⟨List.mem_cons_self, hc, ?_⟩
      intro m hm _
      rcases List.mem_cons.mp hm with rfl | hm
      · exact le_rfl
      · exact (hs.1 m hm).le
    · rw [after, List.find?_cons_of_neg (by simpa using hc)] at h
      obtain ⟨hmem, hlt, hleast⟩ := ih hs.2 h
      refine ⟨List.mem_cons_of_mem _ hmem, hlt, ?_⟩
      intro m hm hcm
      rcases List.mem_cons.mp hm with rfl | hm
      · exact absurd hcm hc
      · exact hleast m hm hcm

theorem after_eq_none (h : after callbacks c = none) : ∀ m ∈ callbacks, m.id ≤ c := by
  intro m hm
  have hn := List.find?_eq_none.mp h m hm
  simpa using hn

theorem eq_of_id (hs : callbacks.Pairwise fun a b => a.id < b.id) {m : Node}
    (hm : m ∈ callbacks) (hn : node ∈ callbacks) (he : m.id = node.id) : m = node := by
  have hids : (callbacks.map Node.id).Nodup := List.pairwise_map.mpr (hs.imp ne_of_lt)
  exact List.inj_on_of_nodup_map hids hm hn he

theorem Covers.advance (hs : callbacks.Pairwise fun a b => a.id < b.id)
    (h : Covers callbacks r (· ≤ r.cursor)) (hp : ∀ id ∈ r.calls, id ≤ r.cursor)
    (ha : after callbacks r.cursor = some node) :
    Covers callbacks (r.advance node) (· ≤ (r.advance node).cursor) ∧
      ∀ id ∈ (r.advance node).calls, id ≤ (r.advance node).cursor := by
  obtain ⟨hmem, hlt, hleast⟩ := after_eq_some hs ha
  have hold : ∀ m ∈ callbacks, m.id ≤ node.id → m = node ∨ m.id ≤ r.cursor := by
    intro m hm hle
    by_cases hc : r.cursor < m.id
    · exact .inl (eq_of_id hs hm hmem (le_antisymm hle (hleast m hm hc)))
    · exact .inr (not_lt.mp hc)
  rw [Round.advance]
  split
  · rename_i hcalled
    refine ⟨⟨?_, ?_⟩, ?_⟩
    · refine List.pairwise_append.mpr ⟨h.ascending, List.pairwise_singleton _ _, ?_⟩
      intro a ha b hb
      rw [List.mem_singleton.mp hb]
      exact (hp a ha).trans_lt hlt
    · intro m hm hle hcm
      rcases hold m hm hle with rfl | hle
      · exact List.mem_append_right _ (List.mem_singleton_self _)
      · exact List.mem_append_left _ (h.complete m hm hle hcm)
    · intro id hid
      rcases List.mem_append.mp hid with hid | hid
      · exact (hp id hid).trans hlt.le
      · rw [List.mem_singleton.mp hid]
  · rename_i hcalled
    refine ⟨⟨h.ascending, ?_⟩, fun id hid => (hp id hid).trans hlt.le⟩
    intro m hm hle hcm
    rcases hold m hm hle with rfl | hle
    · exact absurd hcm hcalled
    · exact h.complete m hm hle hcm

theorem Invariant.next (h : Invariant s) (ht : s.next = some t) : Invariant t := by
  rw [State.next] at ht
  split at ht
  · cases ht
  · cases ht
    refine ⟨h.sorted, h.given, ?_, ?_, ?_, h.finished⟩
    · intro r hr
      cases hr
      refine ⟨List.Pairwise.nil, ?_⟩
      intro node hnode hle _
      exact absurd hle (not_le.mpr (h.given node hnode).1)
    · intro r hr
      cases hr
      exact ⟨Nat.zero_le _, fun id hid => absurd hid List.not_mem_nil⟩
    · intro r hr hrun
      cases hr
      cases hrun
  · rename_i r hr
    split at ht
    · rename_i node ha
      cases ht
      obtain ⟨hc, hp⟩ := (h.round r hr).advance h.sorted (h.passed r hr).2 ha
      have hmem := (after_eq_some h.sorted ha).1
      have hcursor : (r.advance node).cursor = node.id := by
        rw [Round.advance]
        split <;> rfl
      refine ⟨h.sorted, h.given, ?_, ?_, ?_, h.finished⟩
      · intro r' hr'
        cases hr'
        exact hc
      · intro r' hr'
        cases hr'
        exact ⟨hcursor ▸ (h.given node hmem).2, hp⟩
      · intro r' hr' _ _
        cases hr'
        exact ⟨node, hmem, hcursor.symm⟩
    · rename_i ha
      cases ht
      refine ⟨h.sorted, h.given, fun _ hr' => (by cases hr'), fun _ hr' => (by cases hr'),
        fun _ hr' => (by cases hr'), ?_⟩
      intro f hf
      rcases List.mem_append.mp hf with hf | hf
      · exact h.finished f hf
      · rw [List.mem_singleton.mp hf]
        have hc := h.round r hr
        exact ⟨hc.ascending, fun m hm _ => hc.complete m hm (after_eq_none ha m hm)⟩

theorem Invariant.add (h : Invariant s) (protocol : String) :
    Invariant (s.addDiscoveryCB protocol) := by
  refine ⟨?_, ?_, ?_, ?_, ?_, h.finished⟩
  · refine List.pairwise_append.mpr ⟨h.sorted, List.pairwise_singleton _ _, ?_⟩
    intro a ha b hb
    rw [List.mem_singleton.mp hb]
    exact Nat.lt_succ_of_le (h.given a ha).2
  · intro node hnode
    rcases List.mem_append.mp hnode with hnode | hnode
    · exact ⟨(h.given node hnode).1, (h.given node hnode).2.trans (Nat.le_succ _)⟩
    · rw [List.mem_singleton.mp hnode]
      exact ⟨Nat.succ_pos _, le_rfl⟩
  · intro r hr
    refine ⟨(h.round r hr).ascending, ?_⟩
    intro node hnode hle hcalled
    rcases List.mem_append.mp hnode with hnode | hnode
    · exact (h.round r hr).complete node hnode hle hcalled
    · rw [List.mem_singleton.mp hnode] at hle
      exact absurd (hle.trans (h.passed r hr).1) (Nat.not_succ_le_self _)
  · intro r hr
    exact ⟨(h.passed r hr).1.trans (Nat.le_succ _), (h.passed r hr).2⟩
  · intro r hr hrun hb
    obtain ⟨node, hnode, he⟩ := h.running r hr hrun hb
    exact ⟨node, List.mem_append_left _ hnode, he⟩

theorem Invariant.remove (h : Invariant s) (id : ℕ) (hb : s.broken = false) :
    Invariant (s.removeDiscoveryCB id) := by
  refine ⟨h.sorted.sublist List.filter_sublist, ?_, ?_, h.passed, ?_, h.finished⟩
  · intro node hnode
    exact h.given node (List.mem_of_mem_filter hnode)
  · intro r hr
    refine ⟨(h.round r hr).ascending, ?_⟩
    intro node hnode
    exact (h.round r hr).complete node (List.mem_of_mem_filter hnode)
  · intro r hr hrun hnot
    obtain ⟨node, hnode, he⟩ := h.running r hr hrun hb
    refine ⟨node, List.mem_filter.mpr ⟨hnode, ?_⟩, he⟩
    have hne : node.id ≠ id := by
      intro hid
      have hat : s.at id = true := by
        rw [State.at, show s.round = some r from hr]
        simp [← he, hid]
      have hany : s.callbacks.any (·.id = id) = true :=
        List.any_eq_true.mpr ⟨node, hnode, by simpa using hid⟩
      simp [State.removeDiscoveryCB, hat, hany] at hnot
    simpa using hne

theorem Invariant.step (h : Invariant s) {e : Event} (ht : s.step e = some t) : Invariant t := by
  cases e with
  | message keys =>
    rw [State.step] at ht
    split at ht
    · cases ht
      exact ⟨h.sorted, h.given, h.round, h.passed, h.running, h.finished⟩
    · cases ht
  | next =>
    rw [State.step] at ht
    split at ht
    · cases ht
    · exact h.next ht
  | add protocol =>
    rw [State.step] at ht
    split at ht
    · cases ht
      exact h.add protocol
    · cases ht
  | remove id =>
    rw [State.step] at ht
    split at ht
    · rename_i ho
      cases ht
      exact h.remove id (by simpa using (Bool.and_eq_true_iff.mp ho).2)
    · cases ht

theorem invariant_of_reaches {ok : State → Event → Prop} (h : machine.Reaches ok s) :
    Invariant s := by
  refine h.invariant ?_ ?_
  · exact ⟨List.Pairwise.nil, fun _ hn => absurd hn List.not_mem_nil, fun _ hr => (by cases hr),
      fun _ hr => (by cases hr), fun _ hr => (by cases hr), fun _ hf => absurd hf List.not_mem_nil⟩
  · intro s e t _ hi _ ht
    exact hi.step ht

def State.called (s : State) : List ℕ :=
  s.finished.flatMap (·.round.calls) ++ s.round.elim [] Round.calls

def Gone (s : State) (id : ℕ) : Prop := id ≤ s.id ∧ ∀ node ∈ s.callbacks, node.id ≠ id

theorem next_called (h : s.next = some t) {id : ℕ} (hg : Gone s id) :
    Gone t id ∧ t.called.count id = s.called.count id := by
  rw [State.next] at h
  split at h
  · cases h
  · rename_i hr _
    cases h
    refine ⟨hg, ?_⟩
    simp [State.called, hr]
  · rename_i r hr
    split at h
    · rename_i node ha
      cases h
      refine ⟨hg, ?_⟩
      have hne : node.id ≠ id := hg.2 node (List.mem_of_find?_eq_some ha)
      simp only [State.called, hr, Option.elim_some, List.count_append, Round.advance]
      split
      · simp [List.count_append, hne]
      · rfl
    · cases h
      refine ⟨hg, ?_⟩
      simp [State.called, hr]

theorem step_called {e : Event} (h : s.step e = some t) {id : ℕ} (hg : Gone s id) :
    Gone t id ∧ t.called.count id = s.called.count id := by
  cases e with
  | message keys =>
    rw [State.step] at h
    split at h
    · cases h
      exact ⟨hg, rfl⟩
    · cases h
  | next =>
    rw [State.step] at h
    split at h
    · cases h
    · exact next_called h hg
  | add protocol =>
    rw [State.step] at h
    split at h
    · cases h
      refine ⟨⟨hg.1.trans (Nat.le_succ _), ?_⟩, rfl⟩
      intro node hnode
      rcases List.mem_append.mp hnode with hnode | hnode
      · exact hg.2 node hnode
      · rw [List.mem_singleton.mp hnode]
        exact (Nat.lt_succ_of_le hg.1).ne'
    · cases h
  | remove i =>
    rw [State.step] at h
    split at h
    · cases h
      exact ⟨⟨hg.1, fun node hnode => hg.2 node (List.mem_of_mem_filter hnode)⟩, rfl⟩
    · cases h

theorem exec_called {es : List Event} (h : machine.exec s es = some t) {id : ℕ}
    (hg : Gone s id) : t.called.count id = s.called.count id := by
  have hP := Machine.exec_history (P := fun _ u => Gone u id ∧
    u.called.count id = s.called.count id) (l := []) h ⟨hg, rfl⟩ ?_
  · exact hP.2
  · intro _ u e v _ hu hv
    obtain ⟨hgv, hcv⟩ := step_called hv hu.1
    exact ⟨hgv, hcv.trans hu.2⟩

theorem unbroken_of_careful (h : machine.Reaches Careful s) : s.broken = false := by
  refine h.invariant (I := fun s => s.broken = false) rfl ?_
  intro s e t _ hb hc ht
  cases e with
  | message keys =>
    rw [show machine.step s (.message keys) = s.step (.message keys) from rfl, State.step] at ht
    split at ht
    · cases ht
      exact hb
    · cases ht
  | next =>
    rw [show machine.step s .next = s.step .next from rfl, State.step, hb] at ht
    simp only [Bool.false_eq_true, if_false, State.next] at ht
    split at ht
    · cases ht
    · cases ht
      exact hb
    · split at ht <;> (cases ht; exact hb)
  | add protocol =>
    rw [show machine.step s (.add protocol) = s.step (.add protocol) from rfl, State.step] at ht
    split at ht
    · cases ht
      exact hb
    · cases ht
  | remove id =>
    rw [show machine.step s (.remove id) = s.step (.remove id) from rfl, State.step] at ht
    split at ht
    · cases ht
      rw [State.removeDiscoveryCB, show s.at id = false from hc]
      rfl
    · cases ht

def remaining (callbacks : List Node) (cursor : ℕ) : ℕ :=
  (callbacks.filter fun node => cursor < node.id).length

theorem remaining_advance (hs : s.callbacks.Pairwise fun a b => a.id < b.id)
    (ha : after s.callbacks c = some node) :
    remaining s.callbacks node.id < remaining s.callbacks c := by
  obtain ⟨hmem, hlt, -⟩ := after_eq_some hs ha
  have hsub : (s.callbacks.filter fun m => node.id < m.id).Sublist
      (s.callbacks.filter fun m => c < m.id) := by
    apply List.monotone_filter_right
    intro m hm
    simp only [decide_eq_true_eq] at hm ⊢
    exact hlt.trans hm
  refine lt_of_le_of_ne hsub.length_le fun he => ?_
  have heq := hsub.eq_of_length he
  have hin : node ∈ s.callbacks.filter fun m => c < m.id :=
    List.mem_filter.mpr ⟨hmem, by simpa using hlt⟩
  rw [← heq] at hin
  simpa using (List.mem_filter.mp hin).2

theorem step_next_last (hb : s.broken = false) (hr : s.round = some r)
    (ha : after s.callbacks r.cursor = none) :
    s.step .next = some { s with
      round := none
      finished := s.finished ++ [⟨{ r with running := false }, s.callbacks⟩] } := by
  rw [State.step, if_neg (by simp [hb])]
  simp only [State.next, hr, ha]

theorem step_next_node (hb : s.broken = false) (hr : s.round = some r)
    (ha : after s.callbacks r.cursor = some node) :
    s.step .next = some { s with round := some (r.advance node) } := by
  rw [State.step, if_neg (by simp [hb])]
  simp only [State.next, hr, ha]

/-- A loop whose callbacks return comes to its end. -/
theorem round_ends (n : ℕ) (hi : Invariant s) (hb : s.broken = false) (hr : s.round = some r)
    (hn : remaining s.callbacks r.cursor ≤ n) :
    ∃ k t, k ≤ n + 1 ∧ machine.exec s (List.replicate k .next) = some t ∧ t.round = none ∧
      t.finished.length = s.finished.length + 1 := by
  induction n generalizing s r with
  | zero =>
    cases ha : after s.callbacks r.cursor with
    | none =>
      refine ⟨1, _, le_rfl, Option.bind_eq_some_iff.mpr ⟨_, step_next_last hb hr ha, rfl⟩, rfl, ?_⟩
      simp
    | some node => exact absurd (remaining_advance hi.sorted ha) (by omega)
  | succ n ih =>
    cases ha : after s.callbacks r.cursor with
    | none =>
      refine ⟨1, _, by omega, Option.bind_eq_some_iff.mpr ⟨_, step_next_last hb hr ha, rfl⟩, rfl,
        ?_⟩
      simp
    | some node =>
      have hstep := step_next_node hb hr ha
      have hless := remaining_advance hi.sorted ha
      have hcursor : (r.advance node).cursor = node.id := by
        rw [Round.advance]
        split <;> rfl
      obtain ⟨k, t, hk, ht, hround, hlen⟩ := ih (hi.step hstep) hb rfl (r := r.advance node) (by
        rw [hcursor]
        simp only
        omega)
      refine ⟨k + 1, t, by omega, ?_, hround, hlen⟩
      rw [List.replicate_succ]
      exact Option.bind_eq_some_iff.mpr ⟨_, hstep, ht⟩

/-- In any run, a loop that has ended has called every entry of its key that was there at the
end, in the order of the ids and once each, also those its callbacks have added; an entry taken
out is never called again. As long as no callback removes its own entry the position stays
good, and a loop ends unless more entries are added; removing it, nothing more is known. -/
theorem dispatch_covers (h : machine.Reachable s) :
    (∀ f ∈ s.finished, Covers f.callbacks f.round fun _ => True) ∧
    (∀ id, Gone s id → ∀ es t, machine.exec s es = some t →
      t.called.count id = s.called.count id) ∧
    (∀ r, s.round = some r → machine.Reaches Careful s →
      ∃ k t, k ≤ s.callbacks.length + 1 ∧ machine.exec s (List.replicate k .next) = some t ∧
        t.round = none ∧ t.finished.length = s.finished.length + 1) ∧
    ∀ r, s.round = some r → r.running = true → s.broken = false →
      ∃ t, s.step (.remove r.cursor) = some t ∧ t.step .next = none := by
  have hi := invariant_of_reaches h
  refine ⟨hi.finished, ?_, ?_, ?_⟩
  · intro id hg es t ht
    exact exec_called ht hg
  · intro r hr hc
    exact round_ends _ hi (unbroken_of_careful hc) hr (List.length_filter_le _ _)
  · intro r hr hrun hb
    obtain ⟨node, hnode, he⟩ := hi.running r hr hrun hb
    have hopen : (s.open && !s.broken) = true := by
      rw [State.open, hr, hb]
      simp [hrun]
    refine ⟨s.removeDiscoveryCB r.cursor, if_pos hopen, ?_⟩
    have hat : s.at r.cursor = true := by
      rw [State.at, hr]
      simp
    have hany : s.callbacks.any (·.id = r.cursor) = true :=
      List.any_eq_true.mpr ⟨node, hnode, by simpa using he⟩
    have hbroken : (s.removeDiscoveryCB r.cursor).broken = true := by
      rw [State.removeDiscoveryCB, hat, hany]
      rfl
    rw [State.step, hbroken]
    rfl

/-- The callback of the first entry removes the second and adds a third. -/
theorem dispatch_covers_at : ∃ s, machine.Reachable s ∧
    (s.finished.map fun f => (f.round.calls, f.callbacks.map Node.id)) = [([1, 3], [1, 3])] ∧
    (∀ f ∈ s.finished, Covers f.callbacks f.round fun _ => True) := by
  obtain ⟨s, hs, hf⟩ := machine.exists_reachable
    [.add "a", .add "a", .message (some ["a", "status"]), .next, .next, .remove 2, .add "a",
      .next, .next]
    (fun s => (s.finished.map fun f => (f.round.calls, f.callbacks.map Node.id)) =
      [([1, 3], [1, 3])]) (by decide +kernel)
  exact ⟨s, hs, of_decide_eq_true hf, (dispatch_covers hs).1⟩

end DiscoveryDispatch
