import Aitt.AittImpl
import Mathlib.Data.List.Perm.Lattice

/-! The cells that the ids of subscriptions point to. `Subscribe` makes one with `new`, and
whoever takes the entry out of `subscribed_list` deletes it; `UnsubscribeAll` deletes entry by
entry and clears the list at its end. -/
namespace SubscriptionLifetime

open AittTypes AittImpl TransitionRuns

variable {κ : Type}

/-- `heap` has the live cells. `leaked` records those whose `Subscribe` threw, `wild` that a
deleted cell was read. -/
structure State (κ : Type) where
  impl : Impl κ
  heap : List Address := []
  leaked : List Address := []
  wild : Bool := false

/-- The default branch deletes the cell before it throws, an exception of a transport does
not. -/
def State.subscribe (s : State κ) (protocol : AittProtocol) (topic : String) (cb : κ)
    (userData : Address) (o : Outcome) : State κ :=
  match s.impl.subscribe protocol topic cb userData o with
  | (i, .ok _) => { s with impl := i, heap := o.info :: s.heap }
  | (i, .error _) =>
    match protocol with
    | .other _ => { s with impl := i }
    | .mqtt | .tcp | .tcpSecure =>
      { s with impl := i, heap := o.info :: s.heap, leaked := o.info :: s.leaked }

def State.unsubscribe (s : State κ) (id : Address) (ret published : Bool) : State κ :=
  match s.impl.find id with
  | none => s
  | some info =>
    if info.address ∉ s.heap then { s with wild := true }
    else
      match s.impl.unsubscribe id ret published with
      | (i, .error _) => { s with impl := i }
      | (i, .ok _) => { s with impl := i, heap := s.heap.erase id }

def State.unsubscribeEach (s : State κ) : List (SubscribeInfo κ) → (ℕ → Bool × Bool) →
    State κ × Bool
  | [], _ => (s, true)
  | info :: rest, calls =>
    if info.address ∉ s.heap then ({ s with wild := true }, false)
    else
      match s.impl.transportUnsubscribe info (calls 0).1 (calls 0).2 with
      | (i, .error _) => ({ s with impl := i }, false)
      | (i, .ok _) => State.unsubscribeEach
          { s with impl := i, heap := s.heap.erase info.address } rest fun n => calls (n + 1)

def State.clear (s : State κ) : State κ :=
  { s with impl := { s.impl with subscribedList := [] } }

def State.unsubscribeAll (s : State κ) (calls : ℕ → Bool × Bool) : State κ :=
  let r := s.unsubscribeEach s.impl.subscribedList calls
  if r.2 then r.1.clear else r.1

inductive Event (κ : Type) where
  | subscribe (protocol : AittProtocol) (topic : String) (cb : κ) (userData : Address)
      (o : Outcome)
  | unsubscribe (id : Address) (ret published : Bool)
  | unsubscribeAll (calls : ℕ → Bool × Bool)

def State.step (s : State κ) : Event κ → Option (State κ)
  | .subscribe protocol topic cb userData o =>
    if o.info ∈ s.heap then none else some (s.subscribe protocol topic cb userData o)
  | .unsubscribe id ret published => some (s.unsubscribe id ret published)
  | .unsubscribeAll calls => some (s.unsubscribeAll calls)

def machine (κ : Type) (ip : String) : Machine (State κ) (Event κ) where
  initial := { impl := .new ip }
  step := State.step

/-- `UnsubscribeAll` does not throw after it has deleted an entry. -/
def Ok (s : State κ) : Event κ → Prop
  | .unsubscribeAll calls =>
    (s.unsubscribeEach s.impl.subscribedList calls).2 = true ∨
      (s.unsubscribeEach s.impl.subscribedList calls).1.heap = s.heap
  | .subscribe _ _ _ _ _ | .unsubscribe _ _ _ => True

instance (s : State κ) (e : Event κ) : Decidable (Ok s e) :=
  match e with
  | .unsubscribeAll _ => inferInstanceAs (Decidable (_ ∨ _))
  | .subscribe _ _ _ _ _ | .unsubscribe _ _ _ => inferInstanceAs (Decidable True)

def addresses (i : Impl κ) : List Address := i.subscribedList.map (·.address)

structure Owned (s : State κ) : Prop where
  tame : s.wild = false
  nodup : s.heap.Nodup
  cells : s.heap.Perm (addresses s.impl ++ s.leaked)

variable {s t : State κ}

theorem transportSubscribe_list (i : Impl κ) (protocol : AittProtocol) (topic : String) (cb : κ)
    (userData : Address) (o : Outcome) :
    (i.transportSubscribe protocol topic cb userData o).1.subscribedList = i.subscribedList := by
  cases protocol with
  | mqtt =>
    rw [Impl.transportSubscribe, Impl.subscribeMQ]
    split
    · rfl
    · split <;> rfl
  | tcp => rfl
  | tcpSecure => rfl
  | other bits => rfl

theorem transportUnsubscribe_list (i : Impl κ) (info : SubscribeInfo κ) (ret published : Bool) :
    (i.transportUnsubscribe info ret published).1.subscribedList = i.subscribedList := by
  rw [Impl.transportUnsubscribe]
  split
  · rw [Impl.unsubscribeMQ]
    split
    · rfl
    · split <;> rfl
  · rfl
  · rfl
  · rfl

theorem Owned.mem (h : Owned s) {e : SubscribeInfo κ} (he : e ∈ s.impl.subscribedList) :
    e.address ∈ s.heap :=
  h.cells.mem_iff.mpr (List.mem_append_left _ (List.mem_map_of_mem he))

theorem Owned.subscribe (h : Owned s) {protocol : AittProtocol} {topic : String} {cb : κ}
    {userData : Address} {o : Outcome} (ho : o.info ∉ s.heap) :
    Owned (s.subscribe protocol topic cb userData o) := by
  have hlist := transportSubscribe_list s.impl protocol topic cb userData o
  have hnodup : (o.info :: s.heap).Nodup := List.nodup_cons.mpr ⟨ho, h.nodup⟩
  have hperm : (o.info :: s.heap).Perm (o.info :: (addresses s.impl ++ s.leaked)) :=
    h.cells.cons o.info
  rw [State.subscribe, Impl.subscribe]
  cases hr : s.impl.transportSubscribe protocol topic cb userData o with
  | mk i r =>
    rw [hr] at hlist
    have hkept : i.subscribedList = s.impl.subscribedList := hlist
    cases r with
    | ok handle =>
      refine ⟨h.tame, hnodup, ?_⟩
      simp only [addresses, hkept, List.map_append, List.map_singleton, List.append_assoc,
        List.singleton_append]
      exact hperm.trans List.perm_middle.symm
    | error err =>
      have hleaked : Owned ({ s with
          impl := i
          heap := o.info :: s.heap
          leaked := o.info :: s.leaked } : State κ) := by
        refine ⟨h.tame, hnodup, ?_⟩
        simp only [addresses, hkept]
        exact hperm.trans List.perm_middle.symm
      cases protocol with
      | mqtt => exact hleaked
      | tcp => exact hleaked
      | tcpSecure => exact hleaked
      | other bits =>
        refine ⟨h.tame, h.nodup, ?_⟩
        simp only [addresses, hkept]
        exact h.cells

/-- The first entry with an address gone, the other addresses are left. -/
theorem map_eraseP_address (list : List (SubscribeInfo κ)) (id : Address) :
    (list.eraseP (·.address = id)).map (·.address) = (list.map (·.address)).erase id := by
  induction list with
  | nil => rfl
  | cons e list ih =>
    by_cases he : e.address = id
    · rw [List.eraseP_cons_of_pos (by simpa using he), List.map_cons, he, List.erase_cons_head]
    · rw [List.eraseP_cons_of_neg (by simpa using he), List.map_cons, List.map_cons,
        List.erase_cons_tail (by simpa using he), ih]

theorem Owned.unsubscribe (h : Owned s) (id : Address) (ret published : Bool) :
    Owned (s.unsubscribe id ret published) := by
  rw [State.unsubscribe]
  cases hf : s.impl.find id with
  | none => exact h
  | some info =>
    obtain ⟨hm, hid⟩ := mem_of_find hf
    have hlist := transportUnsubscribe_list s.impl info ret published
    simp only
    rw [if_neg (not_not.mpr (h.mem hm))]
    cases hr : s.impl.transportUnsubscribe info ret published with
    | mk i r =>
      rw [hr] at hlist
      have hkept : i.subscribedList = s.impl.subscribedList := hlist
      cases r with
      | error err =>
        simp only [Impl.unsubscribe, hf, hr]
        refine ⟨h.tame, h.nodup, ?_⟩
        simp only [addresses, hkept]
        exact h.cells
      | ok userData =>
        simp only [Impl.unsubscribe, hf, hr]
        refine ⟨h.tame, h.nodup.erase id, ?_⟩
        have hin : id ∈ addresses s.impl := hid ▸ List.mem_map_of_mem hm
        simp only [addresses, hkept, map_eraseP_address]
        have hp := h.cells.erase id
        rwa [List.erase_append_left _ hin] at hp

structure Deleted (s : State κ) (rest : List (SubscribeInfo κ)) (r : State κ × Bool) (k : ℕ) :
    Prop where
  le : k ≤ rest.length
  heap : r.1.heap = s.heap.diff ((rest.take k).map (·.address))
  wild : r.1.wild = s.wild
  list : r.1.impl.subscribedList = s.impl.subscribedList
  leaked : r.1.leaked = s.leaked
  ended : r.2 = true ↔ k = rest.length

theorem deleted_each (s : State κ) (rest : List (SubscribeInfo κ)) (calls : ℕ → Bool × Bool)
    (hn : (rest.map (·.address)).Nodup) (hm : ∀ e ∈ rest, e.address ∈ s.heap) :
    ∃ k, Deleted s rest (s.unsubscribeEach rest calls) k := by
  induction rest generalizing s calls with
  | nil => exact ⟨0, le_rfl, rfl, rfl, rfl, rfl, iff_of_true rfl rfl⟩
  | cons info rest ih =>
    rw [List.map_cons, List.nodup_cons] at hn
    have hlist := transportUnsubscribe_list s.impl info (calls 0).1 (calls 0).2
    rw [State.unsubscribeEach, if_neg (not_not.mpr (hm info List.mem_cons_self))]
    cases hr : s.impl.transportUnsubscribe info (calls 0).1 (calls 0).2 with
    | mk i r =>
      rw [hr] at hlist
      have hkept : i.subscribedList = s.impl.subscribedList := hlist
      cases r with
      | error err => exact ⟨0, Nat.zero_le _, rfl, rfl, hkept, rfl, by simp⟩
      | ok userData =>
        obtain ⟨k, hk⟩ := ih { s with impl := i, heap := s.heap.erase info.address }
          (fun n => calls (n + 1)) hn.2 (by
            intro e he
            have hne : e.address ≠ info.address := fun hea => hn.1 (hea ▸ List.mem_map_of_mem he)
            exact (List.mem_erase_of_ne hne).mpr (hm e (List.mem_cons_of_mem _ he)))
        refine ⟨k + 1, Nat.succ_le_succ hk.le, ?_, hk.wild, hk.list.trans hkept, hk.leaked, ?_⟩
        · rw [List.take_succ_cons, List.map_cons, List.diff_cons]
          exact hk.heap
        · rw [List.length_cons, Nat.add_right_cancel_iff]
          exact hk.ended

theorem Owned.nodup_addresses (h : Owned s) : (addresses s.impl).Nodup :=
  (List.nodup_append.mp (h.cells.nodup_iff.mp h.nodup)).1

theorem Owned.deleted (h : Owned s) (calls : ℕ → Bool × Bool) :
    ∃ k, Deleted s s.impl.subscribedList (s.unsubscribeEach s.impl.subscribedList calls) k :=
  deleted_each s _ calls h.nodup_addresses fun _ he => h.mem he

/-- Either the loop ends and nothing is left of the list, or it breaks off with the list as it
was. -/
theorem Owned.unsubscribeAll (h : Owned s) (calls : ℕ → Bool × Bool)
    (hok : Ok s (.unsubscribeAll calls)) : Owned (s.unsubscribeAll calls) := by
  obtain ⟨k, hk⟩ := h.deleted calls
  rw [State.unsubscribeAll]
  cases he : (s.unsubscribeEach s.impl.subscribedList calls).2 with
  | true =>
    have hall : k = s.impl.subscribedList.length := hk.ended.mp he
    refine ⟨hk.wild.trans h.tame, ?_, ?_⟩
    · change (s.unsubscribeEach s.impl.subscribedList calls).1.heap.Nodup
      rw [hk.heap]
      exact h.nodup.diff
    · change ((s.unsubscribeEach s.impl.subscribedList calls).1.heap).Perm
        ([] ++ (s.unsubscribeEach s.impl.subscribedList calls).1.leaked)
      rw [hk.heap, hall, List.take_length, hk.leaked, List.nil_append]
      have hleft := List.nodup_append.mp (h.cells.nodup_iff.mp h.nodup)
      rw [List.perm_ext_iff_of_nodup h.nodup.diff hleft.2.1]
      intro a
      rw [h.nodup.mem_sdiff_iff, h.cells.mem_iff, List.mem_append]
      constructor
      · rintro ⟨ha | ha, hna⟩
        · exact absurd ha hna
        · exact ha
      · intro ha
        exact ⟨.inr ha, fun hin => hleft.2.2 a hin a ha rfl⟩
  | false =>
    have hheap : (s.unsubscribeEach s.impl.subscribedList calls).1.heap = s.heap := by
      rcases hok with hok | hok
      · rw [he] at hok
        cases hok
      · exact hok
    simp only [Bool.false_eq_true, if_false]
    refine ⟨hk.wild.trans h.tame, hheap ▸ h.nodup, ?_⟩
    rw [hheap, addresses, hk.list, hk.leaked]
    exact h.cells

/-- Up to the cells this is the loop of `AITT::Impl`. -/
theorem each_impl (s : State κ) (rest : List (SubscribeInfo κ)) (calls : ℕ → Bool × Bool)
    (hn : (rest.map (·.address)).Nodup) (hm : ∀ e ∈ rest, e.address ∈ s.heap) :
    (s.unsubscribeEach rest calls).1.impl = (Impl.unsubscribeEach rest calls s.impl).1 ∧
      ((s.unsubscribeEach rest calls).2 = true ↔
        (Impl.unsubscribeEach rest calls s.impl).2 = .ok ()) := by
  induction rest generalizing s calls with
  | nil => exact ⟨rfl, iff_of_true rfl rfl⟩
  | cons info rest ih =>
    rw [List.map_cons, List.nodup_cons] at hn
    rw [State.unsubscribeEach, if_neg (not_not.mpr (hm info List.mem_cons_self)),
      Impl.unsubscribeEach]
    cases hr : s.impl.transportUnsubscribe info (calls 0).1 (calls 0).2 with
    | mk i r =>
      cases r with
      | error err => exact ⟨rfl, by simp⟩
      | ok userData =>
        refine ih _ (fun n => calls (n + 1)) hn.2 ?_
        intro e he
        have hne : e.address ≠ info.address := fun hea => hn.1 (hea ▸ List.mem_map_of_mem he)
        exact (List.mem_erase_of_ne hne).mpr (hm e (List.mem_cons_of_mem _ he))

theorem Owned.unsubscribeAll_impl (h : Owned s) (calls : ℕ → Bool × Bool) :
    (s.unsubscribeAll calls).impl = (s.impl.unsubscribeAll calls).1 := by
  obtain ⟨himpl, hok⟩ := each_impl s _ calls h.nodup_addresses fun _ he => h.mem he
  rw [State.unsubscribeAll, Impl.unsubscribeAll]
  cases hr : Impl.unsubscribeEach s.impl.subscribedList calls s.impl with
  | mk i r =>
    rw [hr] at himpl hok
    cases r with
    | ok u =>
      simp only [hok.mpr rfl, if_true]
      exact congrArg (fun j : Impl κ => { j with subscribedList := [] }) himpl
    | error err =>
      have hfalse : (s.unsubscribeEach s.impl.subscribedList calls).2 = false := by
        rw [← Bool.not_eq_true, hok]
        intro he
        cases he
      simp only [hfalse, Bool.false_eq_true, if_false]
      exact himpl

theorem Owned.step (h : Owned s) {e : Event κ} (hok : Ok s e) (ht : s.step e = some t) :
    Owned t := by
  cases e with
  | subscribe protocol topic cb userData o =>
    rw [State.step] at ht
    split at ht
    · cases ht
    · cases ht
      exact h.subscribe ‹_›
  | unsubscribe id ret published =>
    cases ht
    exact h.unsubscribe id ret published
  | unsubscribeAll calls =>
    cases ht
    exact h.unsubscribeAll calls hok

/-- Where the loop breaks off later, the first entry of the list has lost its cell. -/
theorem Owned.dangling (h : Owned s) {e : Event κ} (hno : ¬ Ok s e) (ht : s.step e = some t) :
    ∃ x ∈ t.impl.subscribedList, x.address ∉ t.heap := by
  cases e with
  | subscribe protocol topic cb userData o => exact absurd trivial hno
  | unsubscribe id ret published => exact absurd trivial hno
  | unsubscribeAll calls =>
    cases ht
    obtain ⟨hfailed, hheap⟩ := not_or.mp hno
    obtain ⟨k, hk⟩ := h.deleted calls
    rw [State.unsubscribeAll, if_neg hfailed, hk.list]
    cases hl : s.impl.subscribedList with
    | nil =>
      rw [hl] at hfailed
      exact absurd rfl hfailed
    | cons x rest =>
      refine ⟨x, List.mem_cons_self, ?_⟩
      rw [← hl, hk.heap, h.nodup.mem_sdiff_iff, hl]
      cases k with
      | zero =>
        refine absurd ?_ hheap
        rw [hk.heap]
        rfl
      | succ k =>
        rintro ⟨-, hnot⟩
        exact hnot List.mem_cons_self

theorem wild_of_dangling {x : SubscribeInfo κ} (hx : x ∈ s.impl.subscribedList)
    (hd : x.address ∉ s.heap) (ret published : Bool) :
    (s.unsubscribe x.address ret published).wild = true := by
  have hsome : (s.impl.find x.address).isSome := by
    rw [Impl.find, List.find?_isSome]
    exact ⟨x, hx, by simp⟩
  obtain ⟨info, hf⟩ := Option.isSome_iff_exists.mp hsome
  have hid := (mem_of_find hf).2
  rw [State.unsubscribe, hf]
  simp only
  rw [if_pos (hid ▸ hd)]

theorem Owned.reaches {ip : String} (h : (machine κ ip).Reaches Ok s) : Owned s := by
  refine h.invariant ⟨rfl, List.nodup_nil, List.Perm.nil⟩ ?_
  intro s e t _ hi hok ht
  exact hi.step hok ht

/-- In every run in which no `UnsubscribeAll` throws after it has deleted an entry, each entry
of the list has a live cell of its own, nothing deleted is read, and the only other cells are
those of the subscriptions that threw. The first `UnsubscribeAll` that does leaves an entry
without its cell, and giving the id of this entry to `Unsubscribe` reads the deleted cell. -/
theorem entries_own_their_cells {ip : String} (h : (machine κ ip).Reaches Ok s) :
    Owned s ∧ ∀ e t, s.step e = some t → (Owned t ↔ Ok s e) ∧
      (¬ Ok s e → ∃ x ∈ t.impl.subscribedList, ∀ ret published,
        (t.unsubscribe x.address ret published).wild = true) := by
  have hs := Owned.reaches h
  refine ⟨hs, ?_⟩
  intro e t ht
  constructor
  · constructor
    · intro hto
      by_contra hno
      obtain ⟨x, hx, hd⟩ := hs.dangling hno ht
      exact hd (hto.mem hx)
    · intro hok
      exact hs.step hok ht
  · intro hno
    obtain ⟨x, hx, hd⟩ := hs.dangling hno ht
    exact ⟨x, hx, wild_of_dangling hx hd⟩

/-- Two subscriptions; the broker takes the first `mosquitto_unsubscribe` and fails the
second. -/
theorem entries_own_their_cells_at : ∃ s t : State ℕ,
    (machine ℕ "").Reaches Ok s ∧ addresses s.impl = [1, 4] ∧
      s.step (.unsubscribeAll fun n => (n = 0, true)) = some t ∧
      ∃ x ∈ t.impl.subscribedList, (t.unsubscribe x.address true true).wild = true := by
  obtain ⟨s, hs, hp⟩ := (machine ℕ "").exists_reaches Ok
    [.subscribe .mqtt "t" 0 0 ⟨1, 2, 3, .ok ⟨4000, [], []⟩, true, true⟩,
     .subscribe .mqtt "u" 0 0 ⟨4, 5, 6, .ok ⟨4001, [], []⟩, true, true⟩]
    (fun s => addresses s.impl = [1, 4] ∧ ¬ Ok s (.unsubscribeAll fun n => (n = 0, true)))
    (by decide +kernel)
  obtain ⟨ha, hno⟩ := of_decide_eq_true hp
  obtain ⟨x, hx, hw⟩ := ((entries_own_their_cells hs).2 _ _ rfl).2 hno
  exact ⟨s, _, hs, ha, rfl, x, hx, hw true true⟩

end SubscriptionLifetime
