import Aitt.NestedMaps
import Aitt.TransitionRuns

/-! The watches of `GlibMainLoop`. The context owns a source, and with it the data of its
callback, until the source is destroyed: by `RemoveWatch`, or by the loop when the callback
asks for it or the connection has broken. The table has pointers to both, which only
`RemoveWatch` takes out. -/
namespace GlibMainLoop

open NestedMaps TransitionRuns

/-- `sources` are attached to the context, with their fd. `adding` are the calls of `AddWatch`
that have attached a source and not yet entered it. -/
structure State where
  sources : List (ℕ × ℕ) := []
  adding : List (ℕ × ℕ) := []
  callbackTable : Map ℕ ℕ := ∅
  dispatching : Option (ℕ × Bool) := none
  next : ℕ := 0
  wild : Bool := false

namespace State

/-- The data of a callback stays until the callback has returned. -/
def alive (s : State) (source : ℕ) : Bool :=
  s.sources.any (·.1 = source) || s.dispatching.any (·.1 = source)

def destroy (s : State) (source : ℕ) : State :=
  { s with sources := s.sources.filter (·.1 ≠ source) }

def attach (s : State) (fd : ℕ) : State :=
  { s with
    sources := s.sources ++ [(s.next, fd)]
    adding := s.adding ++ [(s.next, fd)]
    next := s.next + 1 }

/-- The second half: `insert` keeps an entry that is there. -/
def insert (s : State) (source fd : ℕ) : State :=
  { s with
    adding := s.adding.filter (·.1 ≠ source)
    callbackTable := if fd ∈ s.callbackTable then s.callbackTable
      else s.callbackTable.insert fd source }

def removeWatch (s : State) (fd : ℕ) : State :=
  match s.callbackTable.lookup fd with
  | none => s
  | some source =>
    if s.alive source then { s with callbackTable := s.callbackTable.erase fd }.destroy source
    else { s with wild := true }

/-- `EventHandler` returns; `broken` is `G_IO_HUP` or `G_IO_ERR`, and `keep` what the callback
has returned. -/
def handled (s : State) (source : ℕ) (broken keep : Bool) : State :=
  if keep && !broken then { s with dispatching := none }
  else { s with dispatching := none }.destroy source

end State

inductive Event where
  | attach (fd : ℕ)
  | insert (source fd : ℕ)
  | removeWatch (fd : ℕ)
  | dispatch (source : ℕ) (broken : Bool)
  | handled (keep : Bool)
  deriving DecidableEq, Repr

/-- Calls come from callbacks and from other threads; one callback runs at a time. Nothing is
said after a dead source was used. -/
def State.step (s : State) (e : Event) : Option State :=
  if s.wild then none
  else match e with
    | .attach fd => some (s.attach fd)
    | .insert source fd => if (source, fd) ∈ s.adding then some (s.insert source fd) else none
    | .removeWatch fd => some (s.removeWatch fd)
    | .dispatch source broken =>
      if s.dispatching = none ∧ s.sources.any (·.1 = source) then
        some { s with dispatching := some (source, broken) }
      else none
    | .handled keep =>
      match s.dispatching with
      | none => none
      | some r => some (s.handled r.1 r.2 keep)

def machine : Machine State Event where
  initial := {}
  step := State.step

structure Mirrors (s : State) : Prop where
  tame : s.wild = false
  live : ∀ fd source, s.callbackTable.lookup fd = some source → (source, fd) ∈ s.sources
  entered : ∀ p ∈ s.sources, p ∉ s.adding → s.callbackTable.lookup p.2 = some p.1

/-- A source is entered where no other is if it is still attached, and not entered otherwise;
and it is out of the table when its callback ends it. -/
def Ok (s : State) : Event → Prop
  | .insert source fd => (source, fd) ∈ s.sources ↔ fd ∉ s.callbackTable
  | .handled keep => ∀ r ∈ s.dispatching, (keep && !r.2) = false →
    ∀ p ∈ s.sources, p.1 = r.1 → s.callbackTable.lookup p.2 ≠ some r.1
  | .attach _ | .removeWatch _ | .dispatch _ _ => True

instance (s : State) (e : Event) : Decidable (Ok s e) :=
  match e with
  | .insert _ _ => inferInstanceAs (Decidable (_ ↔ _))
  | .handled _ => inferInstanceAs (Decidable (∀ r ∈ s.dispatching, _ → ∀ p ∈ s.sources, _))
  | .attach _ | .removeWatch _ | .dispatch _ _ => inferInstanceAs (Decidable True)

structure Numbered (s : State) : Prop where
  sources : (s.sources.map (·.1)).Nodup
  given : ∀ p ∈ s.sources, p.1 < s.next
  adding : (s.adding.map (·.1)).Nodup
  pending : ∀ p ∈ s.adding, p.1 < s.next ∧ ∀ fd, (p.1, fd) ∈ s.sources → fd = p.2
  table : ∀ p ∈ s.adding, ∀ fd, s.callbackTable.lookup fd ≠ some p.1
  entries : ∀ fd source, s.callbackTable.lookup fd = some source → source < s.next
  dispatched : ∀ r ∈ s.dispatching, r.1 < s.next

structure Invariant (s : State) : Prop extends Mirrors s, Numbered s

variable {s t : State}

theorem Numbered.destroy (h : Numbered s) (source : ℕ) : Numbered (s.destroy source) := by
  refine ⟨h.sources.sublist (List.filter_sublist.map _), ?_, h.adding, ?_, h.table, h.entries,
    h.dispatched⟩
  · intro p hp
    exact h.given p (List.mem_of_mem_filter hp)
  · intro p hp
    refine ⟨(h.pending p hp).1, ?_⟩
    intro fd hfd
    exact (h.pending p hp).2 fd (List.mem_of_mem_filter hfd)

theorem Numbered.attach (h : Numbered s) (fd : ℕ) : Numbered (s.attach fd) := by
  have hfresh : ∀ {l : List (ℕ × ℕ)}, (∀ p ∈ l, p.1 < s.next) → (l.map (·.1)).Nodup →
      ((l ++ [(s.next, fd)]).map (·.1)).Nodup := by
    intro l hl hn
    rw [List.map_append, List.map_singleton]
    refine List.Nodup.append hn (List.nodup_singleton _) ?_
    intro id hid hnew
    obtain ⟨p, hp, rfl⟩ := List.mem_map.mp hid
    exact absurd (List.mem_singleton.mp hnew) (hl p hp).ne
  refine ⟨hfresh h.given h.sources, ?_, hfresh (fun p hp => (h.pending p hp).1) h.adding, ?_, ?_,
    fun f id hl => (h.entries f id hl).trans (Nat.lt_succ_self _),
    fun r hr => (h.dispatched r hr).trans (Nat.lt_succ_self _)⟩
  · intro p hp
    rcases List.mem_append.mp hp with hp | hp
    · exact (h.given p hp).trans (Nat.lt_succ_self _)
    · rw [List.mem_singleton.mp hp]
      exact Nat.lt_succ_self _
  · intro p hp
    rcases List.mem_append.mp hp with hp | hp
    · refine ⟨(h.pending p hp).1.trans (Nat.lt_succ_self _), ?_⟩
      intro f hf
      rcases List.mem_append.mp hf with hf | hf
      · exact (h.pending p hp).2 f hf
      · have he := congrArg Prod.fst (List.mem_singleton.mp hf)
        exact absurd he (h.pending p hp).1.ne
    · rw [List.mem_singleton.mp hp]
      refine ⟨Nat.lt_succ_self _, ?_⟩
      intro f hf
      rcases List.mem_append.mp hf with hf | hf
      · exact absurd rfl (h.given _ hf).ne
      · exact congrArg Prod.snd (List.mem_singleton.mp hf)
  · intro p hp f hl
    rcases List.mem_append.mp hp with hp | hp
    · exact h.table p hp f hl
    · rw [List.mem_singleton.mp hp] at hl
      exact absurd rfl (h.entries f _ hl).ne

theorem Numbered.insert (h : Numbered s) {source fd : ℕ} (hm : (source, fd) ∈ s.adding) :
    Numbered (s.insert source fd) := by
  have hlook : ∀ f id, (s.insert source fd).callbackTable.lookup f = some id →
      s.callbackTable.lookup f = some id ∨ id = source := by
    intro f id hl
    simp only [State.insert] at hl
    split at hl
    · exact .inl hl
    · rcases lookup_insert_eq_some.mp hl with ⟨-, rfl⟩ | ⟨-, hl⟩
      · exact .inr rfl
      · exact .inl hl
  refine ⟨h.sources, h.given, h.adding.sublist (List.filter_sublist.map _), ?_, ?_, ?_,
    h.dispatched⟩
  · intro p hp
    exact h.pending p (List.mem_of_mem_filter hp)
  · intro p hp f hl
    obtain ⟨hp, hne⟩ := List.mem_filter.mp hp
    rcases hlook f p.1 hl with hl | he
    · exact h.table p hp f hl
    · exact absurd he (by simpa using hne)
  · intro f id hl
    rcases hlook f id hl with hl | rfl
    · exact h.entries f id hl
    · exact (h.pending _ hm).1

/-- A live source can be told by its number. -/
theorem Numbered.source_inj (h : Numbered s) {p q : ℕ × ℕ} (hp : p ∈ s.sources)
    (hq : q ∈ s.sources) (he : p.1 = q.1) : p = q := List.inj_on_of_nodup_map h.sources hp hq he

theorem Invariant.attach (h : Invariant s) (fd : ℕ) : Mirrors (s.attach fd) := by
  refine ⟨h.tame, ?_, ?_⟩
  · intro f id hl
    exact List.mem_append_left _ (h.live f id hl)
  · intro p hp hna
    have hna' := not_or.mp fun hor => hna (List.mem_append.mpr hor)
    rcases List.mem_append.mp hp with hp | hp
    · exact h.entered p hp hna'.1
    · exact absurd hp hna'.2

theorem Invariant.removeWatch (h : Invariant s) (fd : ℕ) :
    Invariant (s.removeWatch fd) := by
  rw [State.removeWatch]
  cases hl : s.callbackTable.lookup fd with
  | none => exact h
  | some source =>
    have hin := h.live fd source hl
    have halive : s.alive source = true := by
      rw [State.alive, Bool.or_eq_true]
      exact .inl (List.any_eq_true.mpr ⟨_, hin, by simp⟩)
    simp only [halive, if_true]
    have hn : Numbered { s with callbackTable := s.callbackTable.erase fd } :=
      ⟨h.sources, h.given, h.adding, h.pending,
        fun p hp f hf => h.table p hp f (lookup_erase_eq_some.mp hf).2,
        fun f id hf => h.entries f id (lookup_erase_eq_some.mp hf).2, h.dispatched⟩
    refine ⟨⟨h.tame, ?_, ?_⟩, hn.destroy source⟩
    · intro f id hf
      obtain ⟨hne, hf⟩ := lookup_erase_eq_some.mp hf
      refine List.mem_filter.mpr ⟨h.live f id hf, ?_⟩
      have hid : id ≠ source := by
        intro he
        have hp := h.source_inj (h.live f id hf) hin he
        exact hne (congrArg Prod.snd hp)
      simpa using hid
    · intro p hp hna
      obtain ⟨hp, hid⟩ := List.mem_filter.mp hp
      refine lookup_erase_eq_some.mpr ⟨?_, h.entered p hp hna⟩
      intro he
      have hlp := h.entered p hp hna
      rw [he, hl] at hlp
      exact absurd (Option.some.inj hlp).symm (by simpa using hid)

theorem Invariant.insert_iff (h : Invariant s) {source fd : ℕ} (hm : (source, fd) ∈ s.adding) :
    Mirrors (s.insert source fd) ↔ ((source, fd) ∈ s.sources ↔ fd ∉ s.callbackTable) := by
  have hadding : ∀ p ∈ s.sources, p.1 ≠ source →
      p ∉ (s.insert source fd).adding → p ∉ s.adding := by
    intro p _ hne hna hin
    exact hna (List.mem_filter.mpr ⟨hin, by simpa using hne⟩)
  have hleft : (source, fd) ∉ (s.insert source fd).adding := by
    intro hin
    simpa using (List.mem_filter.mp hin).2
  by_cases ht : fd ∈ s.callbackTable
  · have htable : (s.insert source fd).callbackTable = s.callbackTable := if_pos ht
    rw [iff_false_right (not_not.mpr ht)]
    constructor
    · intro hmir hin
      have hl := hmir.entered _ hin hleft
      rw [htable] at hl
      exact h.table _ hm fd hl
    · intro hnot
      refine ⟨h.tame, ?_, ?_⟩
      · rw [htable]
        exact h.live
      · intro p hp hna
        rw [htable]
        refine h.entered p hp (hadding p hp ?_ hna)
        intro he
        have hfd := (h.pending _ hm).2 p.2 (by rw [← he]; exact hp)
        have hp' : p = (source, fd) := Prod.ext he hfd
        exact hnot (hp' ▸ hp)
  · have htable : (s.insert source fd).callbackTable = s.callbackTable.insert fd source :=
      if_neg ht
    rw [iff_true_right ht]
    constructor
    · intro hmir
      refine hmir.live fd source ?_
      rw [htable, AList.lookup_insert]
    · intro hin
      refine ⟨h.tame, ?_, ?_⟩
      · intro f id hl
        rw [htable] at hl
        rcases lookup_insert_eq_some.mp hl with ⟨rfl, rfl⟩ | ⟨-, hl⟩
        · exact hin
        · exact h.live f id hl
      · intro p hp hna
        rw [htable, lookup_insert_eq_some]
        by_cases he : p.1 = source
        · have hp' := h.source_inj hp hin he
          exact .inl ⟨congrArg Prod.snd hp', he.symm⟩
        · have hl := h.entered p hp (hadding p hp he hna)
          refine .inr ⟨?_, hl⟩
          intro hf
          exact ht (AList.lookup_isSome.mp (hf ▸ hl ▸ rfl))

theorem Invariant.handled_iff (h : Invariant s) {source : ℕ} {broken : Bool} (keep : Bool)
    (hd : s.dispatching = some (source, broken)) :
    Mirrors (s.handled source broken keep) ↔ Ok s (.handled keep) := by
  have hok : Ok s (.handled keep) ↔ ((keep && !broken) = false →
      ∀ p ∈ s.sources, p.1 = source → s.callbackTable.lookup p.2 ≠ some source) := by
    simp [Ok, hd]
  rw [hok, State.handled]
  cases hk : keep && !broken with
  | true =>
    refine iff_of_true ⟨h.tame, h.live, h.entered⟩ ?_
    intro hf
    cases hf
  | false =>
    simp only [Bool.false_eq_true, if_false, forall_const]
    constructor
    · intro hmir p hp he hl
      have hin := hmir.live p.2 source hl
      simpa using (List.mem_filter.mp hin).2
    · intro hnot
      refine ⟨h.tame, ?_, ?_⟩
      · intro f id hl
        refine List.mem_filter.mpr ⟨h.live f id hl, ?_⟩
        have hne : id ≠ source := by
          intro he
          subst he
          exact hnot _ (h.live f id hl) rfl hl
        simpa using hne
      · intro p hp hna
        exact h.entered p (List.mem_of_mem_filter hp) hna

theorem Numbered.handled (h : Numbered s) (source : ℕ) (broken keep : Bool) :
    Numbered (s.handled source broken keep) := by
  have hn : Numbered { s with dispatching := none } :=
    ⟨h.sources, h.given, h.adding, h.pending, h.table, h.entries, fun r hr => by cases hr⟩
  rw [State.handled]
  split
  · exact hn
  · exact hn.destroy source

/-- What one step does, with the condition under which the table stays good. -/
theorem Invariant.step (h : Invariant s) {e : Event} (ht : s.step e = some t) :
    (Mirrors t ↔ Ok s e) ∧ Numbered t := by
  simp only [State.step, h.tame, Bool.false_eq_true, if_false] at ht
  cases e with
  | attach fd =>
    cases ht
    exact ⟨iff_of_true (h.attach fd) trivial, h.toNumbered.attach fd⟩
  | insert source fd =>
    simp only at ht
    split at ht
    · rename_i hm
      cases ht
      exact ⟨h.insert_iff hm, h.toNumbered.insert hm⟩
    · cases ht
  | removeWatch fd =>
    cases ht
    have hr := h.removeWatch fd
    exact ⟨iff_of_true hr.toMirrors trivial, hr.toNumbered⟩
  | dispatch source broken =>
    simp only at ht
    split at ht
    · rename_i hd
      cases ht
      obtain ⟨p, hp, he⟩ := List.any_eq_true.mp hd.2
      refine ⟨iff_of_true ⟨rfl, h.live, h.entered⟩ trivial, h.sources, h.given, h.adding,
        h.pending, h.table, h.entries, ?_⟩
      intro r hr
      cases hr
      simp only [decide_eq_true_eq] at he
      exact he ▸ h.given p hp
    · cases ht
  | handled keep =>
    simp only at ht
    split at ht
    · cases ht
    · rename_i r hd
      cases ht
      exact ⟨h.handled_iff keep hd, h.toNumbered.handled _ _ _⟩

theorem Invariant.reaches (h : machine.Reaches Ok s) : Invariant s := by
  refine h.invariant ?_ ?_
  · have hnone : ∀ fd source, machine.initial.callbackTable.lookup fd ≠ some source := by
      intro fd source hl
      cases hl
    have hnil : ∀ {P : ℕ × ℕ → Prop}, ∀ p ∈ ([] : List (ℕ × ℕ)), P p := by
      intro P p hp
      cases hp
    refine ⟨⟨rfl, fun fd source hl => absurd hl (hnone fd source), hnil⟩, ⟨List.nodup_nil, hnil,
      List.nodup_nil, hnil, hnil, fun fd source hl => absurd hl (hnone fd source), ?_⟩⟩
    intro r hr
    cases hr
  · intro s e t _ hi hok ht
    obtain ⟨hm, hn⟩ := hi.step ht
    exact ⟨hm.mpr hok, hn⟩

def Gone (s : State) (source : ℕ) : Prop := source < s.next ∧ ∀ fd, (source, fd) ∉ s.sources

theorem Gone.destroy {source : ℕ} (h : Gone s source) (id : ℕ) : Gone (s.destroy id) source :=
  ⟨h.1, fun fd hin => h.2 fd (List.mem_of_mem_filter hin)⟩

theorem Gone.removeWatch {source : ℕ} (h : Gone s source) (fd : ℕ) :
    Gone (s.removeWatch fd) source := by
  rw [State.removeWatch]
  cases s.callbackTable.lookup fd with
  | none => exact h
  | some id =>
    simp only
    split
    · exact Gone.destroy (s := { s with callbackTable := s.callbackTable.erase fd }) h id
    · exact h

/-- Numbers are not given out again, in a good run or not. -/
theorem Gone.step {source : ℕ} (h : Gone s source) {e : Event} (ht : s.step e = some t) :
    Gone t source := by
  simp only [State.step] at ht
  split at ht
  · cases ht
  cases e with
  | attach fd =>
    cases ht
    refine ⟨h.1.trans (Nat.lt_succ_self _), ?_⟩
    intro f hin
    rcases List.mem_append.mp hin with hin | hin
    · exact h.2 f hin
    · have he := congrArg Prod.fst (List.mem_singleton.mp hin)
      exact absurd he h.1.ne
  | insert id fd =>
    simp only at ht
    split at ht
    · cases ht
      exact h
    · cases ht
  | removeWatch fd =>
    cases ht
    exact h.removeWatch fd
  | dispatch id broken =>
    simp only at ht
    split at ht
    · cases ht
      exact h
    · cases ht
  | handled keep =>
    simp only at ht
    split at ht
    · cases ht
    · rename_i r _
      cases ht
      rw [State.handled]
      split
      · exact h
      · exact Gone.destroy (s := { s with dispatching := none }) h r.1

theorem Gone.exec {source : ℕ} (h : Gone s source) {es : List Event}
    (he : machine.exec s es = some t) : Gone t source := by
  induction es generalizing s with
  | nil =>
    obtain rfl := Option.some.inj he
    exact h
  | cons e es ih =>
    obtain ⟨u, hu, ht⟩ := Option.bind_eq_some_iff.mp he
    exact ih (h.step hu) ht

theorem Gone.not_dispatched {source : ℕ} (h : Gone s source) (broken : Bool) :
    s.step (.dispatch source broken) = none := by
  have hany : ¬ s.sources.any (·.1 = source) = true := by
    intro hany
    obtain ⟨p, hp, he⟩ := List.any_eq_true.mp hany
    simp only [decide_eq_true_eq] at he
    exact h.2 p.2 (he ▸ hp)
  simp only [State.step]
  split
  · rfl
  · exact if_neg fun hd => hany hd.2

theorem Invariant.gone_of_removeWatch (h : Invariant s) {fd source : ℕ}
    (hl : s.callbackTable.lookup fd = some source) : Gone (s.removeWatch fd) source := by
  have hin := h.live fd source hl
  have halive : s.alive source = true := by
    rw [State.alive, Bool.or_eq_true]
    exact .inl (List.any_eq_true.mpr ⟨_, hin, by simp⟩)
  simp only [State.removeWatch, hl, halive, if_true]
  refine ⟨h.given _ hin, ?_⟩
  intro f hf
  simpa using (List.mem_filter.mp hf).2

/-- The entry that a callback leaves behind has pointers to what the loop has freed. -/
theorem Invariant.wild_of_handled (h : Invariant s) {keep : Bool}
    (ht : s.step (.handled keep) = some t) (hno : ¬ Ok s (.handled keep)) :
    ∃ fd source, t.callbackTable.lookup fd = some source ∧ (t.removeWatch fd).wild = true := by
  simp only [State.step, h.tame, Bool.false_eq_true, if_false] at ht
  simp only [Ok, not_forall, not_not] at hno
  obtain ⟨r, hr, hk, p, hp, he, hl⟩ := hno
  rw [Option.mem_def.mp hr] at ht
  simp only [Option.some.injEq] at ht
  subst ht
  have hend : s.handled r.1 r.2 keep = { s with dispatching := none }.destroy r.1 := by
    simp [State.handled, hk]
  rw [hend]
  refine ⟨p.2, r.1, hl, ?_⟩
  have hdead : ({ s with dispatching := none }.destroy r.1).alive r.1 = false := by
    simp [State.alive, State.destroy]
  have hlook : ({ s with dispatching := none }.destroy r.1).callbackTable.lookup p.2 =
      some r.1 := hl
  simp [State.removeWatch, hlook, hdead]

/-- Up to the first step that is not `Ok` the table mirrors the attached sources, and with that
step it stops to: a callback that ends its own watch, or whose connection has broken, leaves
an entry on which `RemoveWatch` uses freed memory. A watch that was removed is not dispatched
in any run after it. -/
theorem watch_table (h : machine.Reaches Ok s) :
    Mirrors s ∧
    (∀ e t, s.step e = some t → (Mirrors t ↔ Ok s e)) ∧
    (∀ keep t, s.step (.handled keep) = some t → ¬ Ok s (.handled keep) →
      ∃ fd source, t.callbackTable.lookup fd = some source ∧ (t.removeWatch fd).wild = true) ∧
    ∀ fd source, s.callbackTable.lookup fd = some source → ∀ es t broken,
      machine.exec (s.removeWatch fd) es = some t →
      t.step (.dispatch source broken) = none := by
  have hi := Invariant.reaches h
  refine ⟨hi.toMirrors, fun e t ht => (hi.step ht).1, fun keep t => hi.wild_of_handled, ?_⟩
  intro fd source hl es t broken he
  exact ((hi.gone_of_removeWatch hl).exec he).not_dispatched broken

def hangUp : List Event :=
  [.attach 5, .attach 6, .insert 0 5, .insert 1 6, .dispatch 1 false, .removeWatch 5,
    .handled true, .attach 5, .insert 2 5, .dispatch 2 true]

theorem watch_table_hangUp : ∃ s, machine.Reaches Ok s ∧ Mirrors s ∧
    s.callbackTable.lookup 5 = some 2 ∧ ¬ Ok s (.handled true) ∧
    ∃ t fd, s.step (.handled true) = some t ∧ (t.removeWatch fd).wild = true := by
  obtain ⟨s, hs, hp⟩ := machine.exists_reaches Ok hangUp
    (fun s => decide (s.callbackTable.lookup 5 = some 2) && decide (¬ Ok s (.handled true)) &&
      (s.step (.handled true)).isSome) (by decide)
  simp only [Bool.and_eq_true, decide_eq_true_eq] at hp
  obtain ⟨⟨hl, hno⟩, hstep⟩ := hp
  obtain ⟨t, ht⟩ := Option.isSome_iff_exists.mp hstep
  obtain ⟨hm, -, hw, -⟩ := watch_table hs
  obtain ⟨fd, source, -, hwild⟩ := hw true t ht hno
  exact ⟨s, hs, hm, hl, hno, t, fd, ht, hwild⟩

end GlibMainLoop
