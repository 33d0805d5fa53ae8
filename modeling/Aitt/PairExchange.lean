import Aitt.TransitionRuns

/-! Two parties that publish messages for each other on a board. The board passes a message on in
the order in which it was published and may pass on the latest one again; others send what they
like to either party. -/
namespace PairExchange

open TransitionRuns

variable {κ μ σ τ α β : Type}

structure Party (κ μ σ α : Type) where
  initial : σ
  receive : σ → κ → μ → σ
  act : σ → α → Option (σ × List μ)

structure Exchange (κ μ σ α τ β : Type) where
  left : Party κ μ σ α
  right : Party κ μ τ β
  leftId : κ
  rightId : κ

/-- `inbox` has the messages on their way to the party. -/
structure Side (σ μ : Type) where
  state : σ
  inbox : List μ := []
  published : List μ := []

/-- `disturbed` says that a message of another sender has changed a party. -/
structure State (μ σ τ : Type) where
  left : Side σ μ
  right : Side τ μ
  disturbed : Bool := false

inductive Event (κ μ α β : Type) where
  | left (a : α)
  | right (b : β)
  | republishLeft
  | republishRight
  | deliverLeft
  | deliverRight
  | otherLeft (d : κ) (msg : μ)
  | otherRight (d : κ) (msg : μ)

namespace Side

def send (p : Side σ μ) (result : σ × List μ) : Side σ μ :=
  { p with state := result.1, published := p.published ++ result.2 }

def get (p : Side σ μ) (msgs : List μ) : Side σ μ := { p with inbox := p.inbox ++ msgs }

def take (p : Side σ μ) (state : σ) (rest : List μ) : Side σ μ :=
  { p with state := state, inbox := rest }

variable (p : Side σ μ) (result : σ × List μ) (msgs rest : List μ) (state : σ)

@[simp] theorem state_send : (p.send result).state = result.1 := rfl
@[simp] theorem inbox_send : (p.send result).inbox = p.inbox := rfl
@[simp] theorem published_send : (p.send result).published = p.published ++ result.2 := rfl
@[simp] theorem state_get : (p.get msgs).state = p.state := rfl
@[simp] theorem inbox_get : (p.get msgs).inbox = p.inbox ++ msgs := rfl
@[simp] theorem published_get : (p.get msgs).published = p.published := rfl
@[simp] theorem state_take : (p.take state rest).state = state := rfl
@[simp] theorem inbox_take : (p.take state rest).inbox = rest := rfl
@[simp] theorem published_take : (p.take state rest).published = p.published := rfl

/-- A party that publishes nothing. -/
theorem published_quiet : (p.send (state, [])).published = p.published := List.append_nil _

theorem get_nothing : p.get [] = p := by rw [get, List.append_nil]

theorem send_nothing : p.send (p.state, []) = p := by rw [send, List.append_nil]

end Side

namespace Exchange

variable [DecidableEq κ] [DecidableEq σ] [DecidableEq τ] (E : Exchange κ μ σ α τ β)

def step (s : State μ σ τ) : Event κ μ α β → Option (State μ σ τ)
  | .left a => (E.left.act s.left.state a).map fun r =>
      { s with left := s.left.send r, right := s.right.get r.2 }
  | .right b => (E.right.act s.right.state b).map fun r =>
      { s with left := s.left.get r.2, right := s.right.send r }
  | .republishLeft => s.left.published.getLast?.map fun msg =>
      { s with right := s.right.get [msg] }
  | .republishRight => s.right.published.getLast?.map fun msg =>
      { s with left := s.left.get [msg] }
  | .deliverLeft =>
    match s.left.inbox with
    | [] => none
    | msg :: rest =>
      some { s with left := s.left.take (E.left.receive s.left.state E.rightId msg) rest }
  | .deliverRight =>
    match s.right.inbox with
    | [] => none
    | msg :: rest =>
      some { s with right := s.right.take (E.right.receive s.right.state E.leftId msg) rest }
  | .otherLeft d msg =>
    if d = E.leftId ∨ d = E.rightId then none
    else
      let u := E.left.receive s.left.state d msg
      some { s with
        left := s.left.take u s.left.inbox
        disturbed := s.disturbed || u ≠ s.left.state }
  | .otherRight d msg =>
    if d = E.leftId ∨ d = E.rightId then none
    else
      let u := E.right.receive s.right.state d msg
      some { s with
        right := s.right.take u s.right.inbox
        disturbed := s.disturbed || u ≠ s.right.state }

def initial : State μ σ τ := ⟨⟨E.left.initial, [], []⟩, ⟨E.right.initial, [], []⟩, false⟩

def machine : Machine (State μ σ τ) (Event κ μ α β) := ⟨E.initial, E.step⟩

variable (inertLeft : σ → μ → Prop) (inertRight : τ → μ → Prop)

/-- Others send a party only what it does not act upon. -/
def Ok (s : State μ σ τ) : Event κ μ α β → Prop
  | .otherLeft _ msg => inertLeft s.left.state msg
  | .otherRight _ msg => inertRight s.right.state msg
  | _ => True

instance [∀ u msg, Decidable (inertLeft u msg)] [∀ u msg, Decidable (inertRight u msg)]
    (s : State μ σ τ) (e : Event κ μ α β) : Decidable (Ok inertLeft inertRight s e) :=
  match e with
  | .otherLeft _ msg => inferInstanceAs (Decidable (inertLeft s.left.state msg))
  | .otherRight _ msg => inferInstanceAs (Decidable (inertRight s.right.state msg))
  | .left _ | .right _ | .republishLeft | .republishRight | .deliverLeft | .deliverRight =>
    isTrue trivial

/-- What a relation between the parties has to fulfil to hold throughout. -/
structure Keeps (I : Side σ μ → Side τ μ → Prop) : Prop where
  initial : I E.initial.left E.initial.right
  left : ∀ {l r a result}, I l r → E.left.act l.state a = some result →
    I (l.send result) (r.get result.2)
  right : ∀ {l r b result}, I l r → E.right.act r.state b = some result →
    I (l.get result.2) (r.send result)
  republishLeft : ∀ {l r msg}, I l r → l.published.getLast? = some msg → I l (r.get [msg])
  republishRight : ∀ {l r msg}, I l r → r.published.getLast? = some msg → I (l.get [msg]) r
  deliverLeft : ∀ {l r msg rest}, I l r → l.inbox = msg :: rest → msg ∈ r.published →
    I (l.take (E.left.receive l.state E.rightId msg) rest) r
  deliverRight : ∀ {l r msg rest}, I l r → r.inbox = msg :: rest → msg ∈ l.published →
    I l (r.take (E.right.receive r.state E.leftId msg) rest)
  otherLeft : ∀ {l r d msg}, I l r → d ≠ E.rightId →
    (E.left.receive l.state d msg = l.state ↔ inertLeft l.state msg)
  otherRight : ∀ {l r d msg}, I l r → d ≠ E.leftId →
    (E.right.receive r.state d msg = r.state ↔ inertRight r.state msg)

variable {E inertLeft inertRight} {I : Side σ μ → Side τ μ → Prop} {s t : State μ σ τ}
  {e : Event κ μ α β}

structure Delivers (s : State μ σ τ) : Prop where
  left : s.left.inbox ⊆ s.right.published
  right : s.right.inbox ⊆ s.left.published

theorem Delivers.step (h : Delivers s) (hs : E.step s e = some t) : Delivers t := by
  have hlast : ∀ {l k : List μ} {msg}, l ⊆ k → k.getLast? = some msg → l ++ [msg] ⊆ k := by
    intro l k msg hl hm
    exact List.append_subset.mpr ⟨hl, List.cons_subset.mpr
      ⟨List.mem_of_getLast? hm, List.nil_subset k⟩⟩
  have hsend : ∀ {l k msgs : List μ}, l ⊆ k → l ++ msgs ⊆ k ++ msgs := fun hl =>
    List.append_subset.mpr
      ⟨List.subset_append_of_subset_left _ hl, List.subset_append_right _ _⟩
  cases e with
  | left a =>
    obtain ⟨result, -, rfl⟩ := Option.map_eq_some_iff.mp hs
    exact ⟨h.left, hsend h.right⟩
  | right b =>
    obtain ⟨result, -, rfl⟩ := Option.map_eq_some_iff.mp hs
    exact ⟨hsend h.left, h.right⟩
  | republishLeft =>
    obtain ⟨msg, hm, rfl⟩ := Option.map_eq_some_iff.mp hs
    exact ⟨h.left, hlast h.right hm⟩
  | republishRight =>
    obtain ⟨msg, hm, rfl⟩ := Option.map_eq_some_iff.mp hs
    exact ⟨hlast h.left hm, h.right⟩
  | deliverLeft =>
    have hl := h.left
    simp only [Exchange.step] at hs
    split at hs
    · cases hs
    · rename_i hin
      cases hs
      rw [hin] at hl
      exact ⟨(List.cons_subset.mp hl).2, h.right⟩
  | deliverRight =>
    have hr := h.right
    simp only [Exchange.step] at hs
    split at hs
    · cases hs
    · rename_i hin
      cases hs
      rw [hin] at hr
      exact ⟨h.left, (List.cons_subset.mp hr).2⟩
  | otherLeft d msg | otherRight d msg =>
    obtain ⟨-, hs⟩ := Option.ite_none_left_eq_some.mp hs
    cases hs
    exact ⟨h.left, h.right⟩

theorem Keeps.step (hk : Keeps E inertLeft inertRight I) (hd : Delivers s)
    (hi : I s.left s.right) (hq : s.disturbed = false)
    (ho : Ok inertLeft inertRight s e) (hs : E.step s e = some t) :
    I t.left t.right ∧ t.disturbed = false := by
  cases e with
  | left a =>
    obtain ⟨result, hr, rfl⟩ := Option.map_eq_some_iff.mp hs
    exact ⟨hk.left hi hr, hq⟩
  | right b =>
    obtain ⟨result, hr, rfl⟩ := Option.map_eq_some_iff.mp hs
    exact ⟨hk.right hi hr, hq⟩
  | republishLeft =>
    obtain ⟨msg, hm, rfl⟩ := Option.map_eq_some_iff.mp hs
    exact ⟨hk.republishLeft hi hm, hq⟩
  | republishRight =>
    obtain ⟨msg, hm, rfl⟩ := Option.map_eq_some_iff.mp hs
    exact ⟨hk.republishRight hi hm, hq⟩
  | deliverLeft =>
    have hl := hd.left
    simp only [Exchange.step] at hs
    split at hs
    · cases hs
    · rename_i hin
      cases hs
      rw [hin] at hl
      exact ⟨hk.deliverLeft hi hin (hl List.mem_cons_self), hq⟩
  | deliverRight =>
    have hr := hd.right
    simp only [Exchange.step] at hs
    split at hs
    · cases hs
    · rename_i hin
      cases hs
      rw [hin] at hr
      exact ⟨hk.deliverRight hi hin (hr List.mem_cons_self), hq⟩
  | otherLeft d msg =>
    obtain ⟨hne, hs⟩ := Option.ite_none_left_eq_some.mp hs
    have hsame := (hk.otherLeft hi (not_or.mp hne).2).mpr ho
    simp only [hsame, ne_eq, not_true_eq_false, decide_false, Bool.or_false] at hs
    cases hs
    exact ⟨hi, hq⟩
  | otherRight d msg =>
    obtain ⟨hne, hs⟩ := Option.ite_none_left_eq_some.mp hs
    have hsame := (hk.otherRight hi (not_or.mp hne).1).mpr ho
    simp only [hsame, ne_eq, not_true_eq_false, decide_false, Bool.or_false] at hs
    cases hs
    exact ⟨hi, hq⟩

/-- The relation holds in every run in which others are not heard, and a step by which they are
is seen. -/
theorem Keeps.reaches (hk : Keeps E inertLeft inertRight I)
    (h : E.machine.Reaches (Ok inertLeft inertRight) s) :
    I s.left s.right ∧ s.disturbed = false ∧ Delivers s := by
  induction h with
  | initial => exact ⟨hk.initial, rfl, List.nil_subset _, List.nil_subset _⟩
  | step _ ho hs ih =>
    obtain ⟨hi, hq⟩ := hk.step ih.2.2 ih.1 ih.2.1 ho hs
    exact ⟨hi, hq, ih.2.2.step hs⟩

theorem Keeps.disturbed_of_not_ok (hk : Keeps E inertLeft inertRight I)
    (hi : I s.left s.right) (hn : ¬ Ok inertLeft inertRight s e) (hs : E.step s e = some t) :
    t.disturbed = true := by
  cases e with
  | otherLeft d msg =>
    obtain ⟨hne, hs⟩ := Option.ite_none_left_eq_some.mp hs
    cases hs
    have hchanged := mt (hk.otherLeft hi (not_or.mp hne).2).mp hn
    simp [hchanged]
  | otherRight d msg =>
    obtain ⟨hne, hs⟩ := Option.ite_none_left_eq_some.mp hs
    cases hs
    have hchanged := mt (hk.otherRight hi (not_or.mp hne).1).mp hn
    simp [hchanged]
  | _ => exact absurd trivial hn

end Exchange

end PairExchange
