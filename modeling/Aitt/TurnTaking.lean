import Mathlib.Data.List.Nodup
import Mathlib.Data.List.Infix

/-! Rounds in which the members of a list take turns, in list order, while a member
that is called may take others out or bring new ones in. A round is described by what
is still pending and by its trace, with no reference to how a loop keeps its place. -/
namespace TurnTaking

variable {α : Type*}

inductive Act (α : Type*) where
  | invoked (a : α)
  | removed (a : α)
  | added (a : α)
  deriving DecidableEq, Repr

def Act.subject : Act α → α
  | .invoked a => a
  | .removed a => a
  | .added a => a

structure Round (α : Type*) where
  members : List α
  pending : List α
  trace : List (Act α)
  deriving DecidableEq, Repr

variable [DecidableEq α]

/-- `a` left while neither it nor any member behind it had been called. -/
def OutBeforeTurn (members : List α) (trace : List (Act α)) (a : α) : Prop :=
  ∃ before after, trace = before ++ .removed a :: after ∧
    ∀ b ∈ members, members.idxOf a ≤ members.idxOf b → Act.invoked b ∉ before

structure ExactlyOnce (p : α → Bool) (members : List α) (trace : List (Act α)) : Prop where
  once : ∀ a ∈ members, p a = true → ¬ OutBeforeTurn members trace a →
    trace.count (.invoked a) = 1
  not_removed : ∀ before after a, trace = before ++ .removed a :: after →
    Act.invoked a ∉ after
  not_added : ∀ before after a, trace = before ++ .added a :: after → Act.invoked a ∉ after
  only : ∀ a, Act.invoked a ∈ trace → a ∈ members ∧ p a = true

namespace Round

def start (members : List α) : Round α := ⟨members, members, []⟩

def take (p : α → Bool) (r : Round α) : Round α :=
  match r.pending with
  | [] => r
  | a :: rest =>
    { r with pending := rest, trace := if p a then r.trace ++ [.invoked a] else r.trace }

def remove (r : Round α) (a : α) : Round α :=
  { r with pending := r.pending.erase a, trace := r.trace ++ [.removed a] }

def add (r : Round α) (a : α) : Round α := { r with trace := r.trace ++ [.added a] }

end Round

/-- What holds of a round at every moment, whoever has been called so far. -/
structure Fair (p : α → Bool) (r : Round α) : Prop where
  nodup : r.members.Nodup
  sublist : r.pending.Sublist r.members
  fresh : ∀ a ∈ r.pending, ∀ x ∈ r.trace, x.subject ≠ a
  order : r.trace.Pairwise fun x y => y ≠ .invoked x.subject
  only : ∀ a, Act.invoked a ∈ r.trace → a ∈ r.members ∧ p a = true
  ahead : ∀ a ∈ r.pending, ∀ b, Act.invoked b ∈ r.trace →
    r.members.idxOf b < r.members.idxOf a
  settled : ∀ a ∈ r.members, a ∉ r.pending → p a = true →
    Act.invoked a ∈ r.trace ∨ OutBeforeTurn r.members r.trace a

theorem idxOf_lt_of_sublist {a b : α} {rest l : List α} (hl : l.Nodup)
    (hs : (a :: rest).Sublist l) (hb : b ∈ rest) : l.idxOf a < l.idxOf b := by
  induction l with
  | nil => cases hs
  | cons c l ih =>
    have hc := List.nodup_cons.mp hl
    cases hs with
    | cons _ hs =>
      have ha : a ∈ l := hs.subset List.mem_cons_self
      have hbl : b ∈ l := hs.subset (List.mem_cons_of_mem _ hb)
      rw [List.idxOf_cons_ne _ (ne_of_mem_of_not_mem ha hc.1).symm,
        List.idxOf_cons_ne _ (ne_of_mem_of_not_mem hbl hc.1).symm]
      exact Nat.succ_lt_succ (ih hc.2 hs)
    | cons_cons _ hs =>
      have hbl : b ∈ l := hs.subset hb
      rw [List.idxOf_cons_self, List.idxOf_cons_ne _ (ne_of_mem_of_not_mem hbl hc.1).symm]
      omega

theorem OutBeforeTurn.append {members : List α} {trace : List (Act α)} {a : α}
    (h : OutBeforeTurn members trace a) (more : List (Act α)) :
    OutBeforeTurn members (trace ++ more) a := by
  obtain ⟨before, after, rfl, hb⟩ := h
  exact ⟨before, after ++ more, by simp, hb⟩

theorem fair_start {p : α → Bool} {members : List α} (h : members.Nodup) :
    Fair p (.start members) where
  nodup := h
  sublist := List.Sublist.refl _
  fresh := by simp [Round.start]
  order := List.Pairwise.nil
  only := by simp [Round.start]
  ahead := by simp [Round.start]
  settled := fun a ha hn => absurd ha hn

/-- Recording an act about someone who is not pending keeps the round fair, as long
as the act calls nobody. -/
theorem Fair.record {p : α → Bool} {r : Round α} (h : Fair p r) {x : Act α}
    (hx : ∀ a, x ≠ .invoked a) (hp : x.subject ∉ r.pending) :
    Fair p { r with trace := r.trace ++ [x] } where
  nodup := h.nodup
  sublist := h.sublist
  fresh := by
    intro a ha y hy
    rcases List.mem_append.mp hy with hy | hy
    · exact h.fresh a ha y hy
    · rw [List.mem_singleton.mp hy]
      exact fun he => hp (he ▸ ha)
  order := by
    refine List.pairwise_append.mpr ⟨h.order, List.pairwise_singleton _ _, ?_⟩
    intro y _ z hz
    rw [List.mem_singleton.mp hz]
    exact hx _
  only := by
    intro a ha
    rcases List.mem_append.mp ha with ha | ha
    · exact h.only a ha
    · exact absurd (List.mem_singleton.mp ha).symm (hx a)
  ahead := by
    intro a ha b hb
    rcases List.mem_append.mp hb with hb | hb
    · exact h.ahead a ha b hb
    · exact absurd (List.mem_singleton.mp hb).symm (hx b)
  settled := by
    intro a ha hn hpa
    rcases h.settled a ha hn hpa with hi | ho
    · exact Or.inl (List.mem_append_left _ hi)
    · exact Or.inr (ho.append _)

theorem Fair.add {p : α → Bool} {r : Round α} (h : Fair p r) {a : α} (ha : a ∉ r.pending) :
    Fair p (r.add a) := h.record (by simp) ha

theorem Fair.remove {p : α → Bool} {r : Round α} (h : Fair p r) (a : α) :
    Fair p (r.remove a) := by
  have hnd : r.pending.Nodup := h.nodup.sublist h.sublist
  by_cases ha : a ∈ r.pending
  · refine ⟨h.nodup, List.erase_sublist.trans h.sublist, ?_, ?_, ?_, ?_, ?_⟩
    · intro b hb x hx
      rcases List.mem_append.mp hx with hx | hx
      · exact h.fresh b (List.mem_of_mem_erase hb) x hx
      · rw [List.mem_singleton.mp hx]
        exact fun he => (hnd.mem_erase_iff.mp hb).1 he.symm
    · refine List.pairwise_append.mpr ⟨h.order, List.pairwise_singleton _ _, ?_⟩
      intro y _ z hz
      rw [List.mem_singleton.mp hz]
      simp
    · intro b hb
      exact h.only b (by simpa [Round.remove] using hb)
    · intro b hb c hc
      exact h.ahead b (List.mem_of_mem_erase hb) c (by simpa [Round.remove] using hc)
    · intro b hb hn hpb
      by_cases hba : b = a
      · -- Whoever has been called stands ahead of `a`, which was still pending.
        subst b
        refine Or.inr ⟨r.trace, [], rfl, ?_⟩
        intro c _ hle hi
        exact Nat.not_lt.mpr hle (h.ahead a ha c hi)
      · have hbp : b ∉ r.pending := fun hm => hn (hnd.mem_erase_iff.mpr ⟨hba, hm⟩)
        rcases h.settled b hb hbp hpb with hi | ho
        · exact Or.inl (List.mem_append_left _ hi)
        · exact Or.inr (ho.append _)
  · have hr := h.record (x := .removed a) (by simp) ha
    simpa [Round.remove, List.erase_of_not_mem ha] using hr

theorem Fair.take {p : α → Bool} {r : Round α} (h : Fair p r) : Fair p (r.take p) := by
  obtain ⟨members, pending, trace⟩ := r
  cases pending with
  | nil => exact h
  | cons a rest =>
    have hnd := List.nodup_cons.mp (h.nodup.sublist h.sublist)
    have hrest : ∀ {b}, b ∈ rest → b ∈ a :: rest := fun hb => List.mem_cons_of_mem _ hb
    cases hpa : p a with
    | false =>
      simp only [Round.take, hpa, Bool.false_eq_true, if_false]
      refine ⟨h.nodup, (List.sublist_cons_self a rest).trans h.sublist,
        fun b hb => h.fresh b (hrest hb), h.order, h.only,
        fun b hb => h.ahead b (hrest hb), ?_⟩
      intro b hb hn hpb
      apply h.settled b hb _ hpb
      rintro (_ | ⟨_, hm⟩)
      · rw [hpa] at hpb; cases hpb
      · exact hn hm
    | true =>
      simp only [Round.take, hpa, if_true]
      refine ⟨h.nodup, (List.sublist_cons_self a rest).trans h.sublist, ?_, ?_, ?_, ?_, ?_⟩
      · intro b hb x hx
        rcases List.mem_append.mp hx with hx | hx
        · exact h.fresh b (hrest hb) x hx
        · rw [List.mem_singleton.mp hx]
          exact (ne_of_mem_of_not_mem hb hnd.1).symm
      · refine List.pairwise_append.mpr ⟨h.order, List.pairwise_singleton _ _, ?_⟩
        intro y hy z hz
        rw [List.mem_singleton.mp hz]
        exact fun he => h.fresh a List.mem_cons_self y hy (Act.invoked.inj he).symm
      · intro b hb
        rcases List.mem_append.mp hb with hb | hb
        · exact h.only b hb
        · rw [Act.invoked.inj (List.mem_singleton.mp hb)]
          exact ⟨h.sublist.subset List.mem_cons_self, hpa⟩
      · intro b hb c hc
        rcases List.mem_append.mp hc with hc | hc
        · exact h.ahead b (hrest hb) c hc
        · rw [Act.invoked.inj (List.mem_singleton.mp hc)]
          exact idxOf_lt_of_sublist h.nodup h.sublist hb
      · intro b hb hn hpb
        by_cases hba : b = a
        · subst b
          exact Or.inl (by simp)
        · rcases h.settled b hb (by simp [hba, hn]) hpb with hi | ho
          · exact Or.inl (List.mem_append_left _ hi)
          · exact Or.inr (ho.append _)

theorem count_invoked_le_one {trace : List (Act α)} {a : α}
    (h : trace.Pairwise fun x y => y ≠ .invoked x.subject) :
    trace.count (.invoked a) ≤ 1 := by
  induction trace with
  | nil => simp
  | cons x trace ih =>
    have hx := List.pairwise_cons.mp h
    by_cases he : x = .invoked a
    · subst x
      have hz : trace.count (.invoked a) = 0 :=
        List.count_eq_zero.mpr fun hm => hx.1 _ hm rfl
      simp [hz]
    · simpa [List.count_cons_of_ne he] using ih hx.2

omit [DecidableEq α] in
theorem not_invoked_after {before after : List (Act α)} {x : Act α}
    (h : (before ++ x :: after).Pairwise fun x y => y ≠ .invoked x.subject) :
    Act.invoked x.subject ∉ after := fun hm =>
  (List.pairwise_cons.mp (List.pairwise_append.mp h).2.1).1 _ hm rfl

/-- A round that nobody waits in any more has called each member that stayed in exactly once. -/
theorem Fair.exactlyOnce {p : α → Bool} {r : Round α} (h : Fair p r) (he : r.pending = []) :
    ExactlyOnce p r.members r.trace where
  once := by
    intro a ha hpa hno
    have hn : a ∉ r.pending := by simp [he]
    have hi := (h.settled a ha hn hpa).resolve_right hno
    have hpos : 0 < r.trace.count (.invoked a) := List.count_pos_iff.mpr hi
    have hle := count_invoked_le_one (a := a) h.order
    omega
  not_removed := fun before after a ht => not_invoked_after (x := .removed a) (ht ▸ h.order)
  not_added := fun before after a ht => not_invoked_after (x := .added a) (ht ▸ h.order)
  only := h.only

end TurnTaking
