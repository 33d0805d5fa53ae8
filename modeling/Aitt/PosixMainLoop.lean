import Mathlib.Data.Int.Notation
import Mathlib.Data.List.Basic

/-! The idle callbacks and timeouts of `PosixMainLoop`. A timer that expires writes its
identifier into the pipe of the loop, where it stays until the loop reads it, whatever has
become of the timeout meanwhile. -/
namespace PosixMainLoop

variable {α : Type}

inductive Token where
  | quit
  | timeout (id : ℕ)
  deriving DecidableEq, Repr

def timeoutStart : ℕ := 2

structure Timer where
  id : ℕ
  timerid : ℕ
  deriving DecidableEq, Repr

/-- An idle callback is known by the data bound to it. `idlePipe` is the number of unread
`IDLE`, `armed` the timers that have neither expired nor been deleted, `leaked` those that have
outlived their record, and `identifier` the static counter of `AddTimeout`. -/
structure Loop (α : Type) where
  isRunning : Bool := false
  idleTable : List α := []
  idlePipe : ℕ := 0
  timeoutTable : List ℕ := []
  armed : List Timer := []
  leaked : List Timer := []
  timeoutPipe : List Token := []
  identifier : ℕ := timeoutStart
  deriving DecidableEq, Repr

namespace Loop

def addIdle (l : Loop α) (data : α) : Loop α :=
  { l with idleTable := l.idleTable ++ [data], idlePipe := l.idlePipe + 1 }

def quit (l : Loop α) : Loop α :=
  if l.isRunning then
    { l with isRunning := false, timeoutPipe := l.timeoutPipe ++ [.quit] }
  else l

/-- `timer` is the number of the timer, or `none` when `SetTimer` fails. -/
def addTimeout (l : Loop α) (interval : ℤ) (timer : Option ℕ) : Loop α × ℕ :=
  if interval ≤ 0 then (l, 0)
  else
    match timer with
    | some timerid =>
      ({ l with
        timeoutTable := l.timeoutTable ++ [l.identifier]
        armed := l.armed ++ [⟨l.identifier, timerid⟩]
        identifier := l.identifier + 1 }, l.identifier)
    | none => (l, 0)

/-- The destructor of the record takes the number zero for null and does not delete that timer. -/
def removeTimeout (l : Loop α) (id : ℕ) : Loop α :=
  if id ∈ l.timeoutTable then
    { l with
      timeoutTable := l.timeoutTable.filter (· ≠ id)
      armed := l.armed.filter (·.id ≠ id)
      leaked := l.leaked ++ l.armed.filter fun t => t.id = id ∧ t.timerid = 0 }
  else l

def expire (l : Loop α) (id : ℕ) : Option (Loop α) :=
  if id ∈ l.armed.map (·.id) then
    some { l with
      armed := l.armed.filter (·.id ≠ id)
      timeoutPipe := l.timeoutPipe ++ [.timeout id] }
  else none

/-- The handler of a timer without a record writes what it finds in the freed one: an identifier
that some record has had. -/
def expireLeaked (l : Loop α) (k value : ℕ) : Option (Loop α) :=
  if k < l.leaked.length ∧ value < l.identifier then
    some { l with
      leaked := l.leaked.eraseIdx k
      timeoutPipe := l.timeoutPipe ++ [.timeout value] }
  else none

def skipIdentifier (l : Loop α) : Loop α := { l with identifier := l.identifier + 1 }

def Expired (l : Loop α) : Prop := ∃ id ∈ l.timeoutTable, Token.timeout id ∈ l.timeoutPipe

instance (l : Loop α) : Decidable l.Expired := inferInstanceAs (Decidable (∃ _ ∈ _, _))

structure Current (l : Loop α) (id : ℕ) : Prop where
  table : l.timeoutTable = if id = 0 then [] else [id]
  armed : ∀ t ∈ l.armed, t.id ∈ l.timeoutTable
  tokens : ∀ x, Token.timeout x ∈ l.timeoutPipe → x < l.identifier
  noQuit : Token.quit ∉ l.timeoutPipe
  fresh : id < l.identifier

variable {l l' : Loop α} {id : ℕ}

theorem Current.expired_iff (h : l.Current id) :
    l.Expired ↔ id ≠ 0 ∧ Token.timeout id ∈ l.timeoutPipe := by
  unfold Expired
  rw [h.table]
  by_cases hz : id = 0
  · simp [hz]
  · simp [hz]

theorem current_new : ({} : Loop α).Current 0 where
  table := rfl
  armed := nofun
  tokens := nofun
  noQuit := nofun
  fresh := Nat.succ_pos 1

/-- Only the fields for timeouts matter. -/
theorem Current.congr (h : l.Current id)
    (he : (l'.timeoutTable, l'.armed, l'.timeoutPipe, l'.identifier) =
      (l.timeoutTable, l.armed, l.timeoutPipe, l.identifier)) : l'.Current id := by
  simp only [Prod.mk.injEq] at he
  obtain ⟨ht, ha, hp, hn⟩ := he
  constructor
  · rw [ht]
    exact h.table
  · rw [ht, ha]
    exact h.armed
  · rw [hp, hn]
    exact h.tokens
  · rw [hp]
    exact h.noQuit
  · rw [hn]
    exact h.fresh

theorem Current.drain (h : l.Current id) : { l with timeoutPipe := [] }.Current id :=
  ⟨h.table, h.armed, nofun, nofun, h.fresh⟩

theorem Current.skipIdentifier (h : l.Current id) : l.skipIdentifier.Current id :=
  ⟨h.table, h.armed, fun x hx => Nat.lt_succ_of_lt (h.tokens x hx), h.noQuit,
    Nat.lt_succ_of_lt h.fresh⟩

theorem Current.expireLeaked (h : l.Current id) {k value : ℕ}
    (he : l.expireLeaked k value = some l') : l'.Current id := by
  simp only [Loop.expireLeaked, Option.ite_none_right_eq_some, Option.some.injEq] at he
  obtain ⟨⟨-, hv⟩, rfl⟩ := he
  refine ⟨h.table, h.armed, fun x hx => ?_, fun hq => ?_, h.fresh⟩
  · rcases List.mem_append.mp hx with hx | hx
    · exact h.tokens x hx
    · cases List.mem_singleton.mp hx
      exact hv
  · rcases List.mem_append.mp hq with hq | hq
    · exact h.noQuit hq
    · cases List.mem_singleton.mp hq

@[simp] theorem removeTimeout_idleTable : (l.removeTimeout id).idleTable = l.idleTable := by
  unfold Loop.removeTimeout
  split <;> rfl

@[simp] theorem removeTimeout_isRunning : (l.removeTimeout id).isRunning = l.isRunning := by
  unfold Loop.removeTimeout
  split <;> rfl

@[simp] theorem removeTimeout_timeoutPipe : (l.removeTimeout id).timeoutPipe = l.timeoutPipe := by
  unfold Loop.removeTimeout
  split <;> rfl

/-- Cancelling takes the timeout from the table with its timer; its token may stay. -/
theorem Current.removeTimeout (h : l.Current id) : (l.removeTimeout id).Current 0 := by
  by_cases hid : id ∈ l.timeoutTable
  · have htable : l.timeoutTable.filter (· ≠ id) = [] := by
      rw [h.table]
      split
      · rfl
      · simp
    simp only [Loop.removeTimeout, if_pos hid]
    refine ⟨htable, fun t ht => ?_, h.tokens, h.noQuit, Nat.zero_lt_of_lt h.fresh⟩
    obtain ⟨ht, hne⟩ := List.mem_filter.mp ht
    exact List.mem_filter.mpr ⟨h.armed t ht, hne⟩
  · have htable := h.table
    have hz : id = 0 := by
      by_contra hn
      rw [if_neg hn] at htable
      exact hid (htable ▸ List.mem_singleton_self id)
    subst hz
    rw [Loop.removeTimeout, if_neg hid]
    exact h

@[simp] theorem addTimeout_idleTable (interval : ℤ) (timer : Option ℕ) :
    (l.addTimeout interval timer).1.idleTable = l.idleTable := by
  unfold Loop.addTimeout
  split
  · rfl
  · cases timer <;> rfl

@[simp] theorem addTimeout_isRunning (interval : ℤ) (timer : Option ℕ) :
    (l.addTimeout interval timer).1.isRunning = l.isRunning := by
  unfold Loop.addTimeout
  split
  · rfl
  · cases timer <;> rfl

/-- A new timeout has an identifier that no token in the pipe has. -/
theorem Current.addTimeout (h : l.Current 0) (interval : ℤ) (timer : Option ℕ) :
    (l.addTimeout interval timer).1.Current (l.addTimeout interval timer).2 ∧
      ¬(l.addTimeout interval timer).1.Expired := by
  have hold : ¬l.Expired := by
    rw [h.expired_iff]
    exact fun he => he.1 rfl
  have htable : l.timeoutTable = [] := h.table
  unfold Loop.addTimeout
  split
  · exact ⟨h, hold⟩
  · cases timer with
    | none => exact ⟨h, hold⟩
    | some timerid =>
      have hcur : Current { l with
          timeoutTable := l.timeoutTable ++ [l.identifier]
          armed := l.armed ++ [⟨l.identifier, timerid⟩]
          identifier := l.identifier + 1 } l.identifier := by
        refine ⟨?_, fun t ht => ?_, fun x hx => Nat.lt_succ_of_lt (h.tokens x hx), h.noQuit,
          Nat.lt_succ_self _⟩
        · simp [htable, Nat.ne_of_gt h.fresh]
        · rcases List.mem_append.mp ht with ht | ht
          · exact List.mem_append_left _ (h.armed t ht)
          · rw [List.mem_singleton.mp ht]
            exact List.mem_append_right _ (List.mem_singleton_self _)
      refine ⟨hcur, ?_⟩
      rw [hcur.expired_iff]
      rintro ⟨-, hm⟩
      exact absurd (h.tokens _ hm) (Nat.lt_irrefl _)

theorem Current.expire (h : l.Current id) {x : ℕ} (he : l.expire x = some l') :
    l'.Current id ∧ x = id ∧ l'.Expired := by
  simp only [Loop.expire, Option.ite_none_right_eq_some, Option.some.injEq] at he
  obtain ⟨hx, rfl⟩ := he
  obtain ⟨t, ht, rfl⟩ := List.mem_map.mp hx
  have hmem := h.armed t ht
  have hid : id ≠ 0 ∧ t.id = id := by
    rw [h.table] at hmem
    split at hmem
    · cases hmem
    · next hz => exact ⟨hz, List.mem_singleton.mp hmem⟩
  refine ⟨⟨h.table, fun y hy => h.armed y (List.mem_filter.mp hy).1, fun y hy => ?_, ?_,
    h.fresh⟩, hid.2, t.id, hmem, List.mem_append_right _ (List.mem_singleton_self _)⟩
  · rcases List.mem_append.mp hy with hy | hy
    · exact h.tokens y hy
    · cases List.mem_singleton.mp hy
      rw [hid.2]
      exact h.fresh
  · intro hq
    rcases List.mem_append.mp hq with hq | hq
    · exact h.noQuit hq
    · cases List.mem_singleton.mp hq

end Loop

end PosixMainLoop
