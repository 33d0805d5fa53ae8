import Mathlib.Data.List.AList
import Mathlib.Data.Prod.Basic
import Mathlib.Algebra.BigOperators.Group.List.Basic
import Mathlib.Algebra.Order.Ring.Int
import Mathlib.Data.Fintype.BigOperators

/-! Maps of maps: reading and writing at a pair of keys, and the list of all entries, by
which two maps nested in opposite order are compared. -/
namespace NestedMaps

variable {α β γ δ : Type} [DecidableEq α] [DecidableEq β]

abbrev Map (α γ : Type) := AList (fun _ : α => γ)

theorem lookup_eq_some_iff {m : Map α γ} {a : α} {c : γ} :
    m.lookup a = some c ↔ (⟨a, c⟩ : Σ _ : α, γ) ∈ m.entries := AList.mem_lookup_iff

theorem lookup_erase_eq_some {m : Map α γ} {a a' : α} {c : γ} :
    (m.erase a').lookup a = some c ↔ a ≠ a' ∧ m.lookup a = some c := by
  by_cases h : a = a'
  · subst h
    simp
  · simp [AList.lookup_erase_ne h, h]

theorem lookup_insert_eq_some {m : Map α γ} {a a' : α} {c c' : γ} :
    (m.insert a' c').lookup a = some c ↔ a = a' ∧ c' = c ∨ a ≠ a' ∧ m.lookup a = some c := by
  by_cases h : a = a'
  · subst h
    simp
  · simp [AList.lookup_insert_ne h, h]

def tag (a : α) (d : δ) : Σ _ : α, δ := ⟨a, d⟩

def filterMapValues (f : α → γ → Option δ) (m : Map α γ) : Map α δ where
  entries := m.entries.filterMap fun p => (f p.1 p.2).map (tag p.1)
  nodupKeys := by
    have hs : (m.entries.filterMap fun p => (f p.1 p.2).map (tag p.1)).keys.Sublist
        m.entries.keys := by
      induction m.entries with
      | nil => simp
      | cons p rest ih =>
        cases hf : f p.1 p.2 with
        | none => simpa [List.keys, hf] using ih.cons p.1
        | some d => simpa [List.keys, hf, tag] using ih
    exact List.Nodup.sublist hs m.nodupKeys

theorem lookup_filterMapValues (f : α → γ → Option δ) (m : Map α γ) (a : α) :
    (filterMapValues f m).lookup a = (m.lookup a).bind (f a) := by
  ext d
  rw [lookup_eq_some_iff, Option.bind_eq_some_iff]
  simp only [lookup_eq_some_iff, filterMapValues, List.mem_filterMap, Option.map_eq_some_iff]
  constructor
  · rintro ⟨⟨a', c⟩, hp, d', hd, he⟩
    cases he
    exact ⟨c, hp, hd⟩
  · rintro ⟨c, hc, hd⟩
    exact ⟨⟨a, c⟩, hc, d, hd, rfl⟩

abbrev Nested (α β γ : Type) := Map α (Map β γ)

def get (t : Nested α β γ) (a : α) (b : β) : Option γ := (t.lookup a).bind (·.lookup b)

def put (t : Nested α β γ) (a : α) (b : β) (c : γ) : Nested α β γ :=
  t.insert a (((t.lookup a).getD ∅).insert b c)

def eraseInner (t : Nested α β γ) (b : β) : Nested α β γ :=
  filterMapValues (fun _ inner => some (inner.erase b)) t

@[simp] theorem get_put_self (t : Nested α β γ) (a : α) (b : β) (c : γ) :
    get (put t a b c) a b = some c := by
  simp [get, put]

theorem get_put_of_ne (t : Nested α β γ) {a a' : α} {b b' : β} (c : γ)
    (h : a' = a → b' ≠ b) : get (put t a b c) a' b' = get t a' b' := by
  by_cases ha : a' = a
  · subst ha
    have hb := h rfl
    rw [get, put, AList.lookup_insert, Option.bind_some, AList.lookup_insert_ne hb, get]
    cases t.lookup a' <;> rfl
  · simp [get, put, AList.lookup_insert_ne ha]

@[simp] theorem get_eraseInner_self (t : Nested α β γ) (a : α) (b : β) :
    get (eraseInner t b) a b = none := by
  rw [get, eraseInner, lookup_filterMapValues]
  cases t.lookup a with
  | none => rfl
  | some inner => simp

theorem get_eraseInner_of_ne (t : Nested α β γ) (a : α) {b b' : β} (h : b' ≠ b) :
    get (eraseInner t b) a b' = get t a b' := by
  rw [get, eraseInner, lookup_filterMapValues, get]
  cases t.lookup a with
  | none => rfl
  | some inner => simp [AList.lookup_erase_ne h]

/-- Reading a map of maps whose outer key has been replaced or removed. -/
theorem get_insert (t : Nested α β γ) (a a' : α) (b : β) (inner : Map β γ) :
    get (t.insert a inner) a' b = if a' = a then inner.lookup b else get t a' b := by
  by_cases h : a' = a
  · subst h
    simp [get]
  · simp [get, AList.lookup_insert_ne h, h]

theorem get_erase (t : Nested α β γ) (a a' : α) (b : β) :
    get (t.erase a) a' b = if a' = a then none else get t a' b := by
  by_cases h : a' = a
  · subst h
    simp [get]
  · simp [get, AList.lookup_erase_ne h, h]

def triples (t : Nested α β γ) : List (α × β × γ) :=
  t.entries.flatMap fun p => p.2.entries.map fun q => (p.1, q.1, q.2)

theorem mem_triples (t : Nested α β γ) (a : α) (b : β) (c : γ) :
    (a, b, c) ∈ triples t ↔ get t a b = some c := by
  simp only [triples, List.mem_flatMap, List.mem_map, get, Option.bind_eq_some_iff,
    lookup_eq_some_iff]
  constructor
  · rintro ⟨p, hp, q, hq, he⟩
    cases he
    exact ⟨p.2, hp, hq⟩
  · rintro ⟨inner, hi, hc⟩
    exact ⟨⟨a, inner⟩, hi, ⟨b, c⟩, hc, rfl⟩

omit [DecidableEq α] [DecidableEq β] in
/-- A pair of keys occurs once. -/
theorem triples_keys_nodup (t : Nested α β γ) :
    ((triples t).map fun p => (p.1, p.2.1)).Nodup := by
  rw [triples, List.map_flatMap, List.nodup_flatMap]
  constructor
  · intro p _
    rw [List.map_map]
    have hk : (p.2.entries.map Sigma.fst).Nodup := p.2.nodupKeys
    have he : p.2.entries.map ((fun x : α × β × γ => (x.1, x.2.1)) ∘ fun q => (p.1, q.1, q.2)) =
        (p.2.entries.map Sigma.fst).map (Prod.mk p.1) := by
      rw [List.map_map]
      rfl
    rw [he]
    exact hk.map (Prod.mk_right_injective p.1)
  · have hp := List.nodupKeys_iff_pairwise.mp t.nodupKeys
    refine hp.imp fun {p p'} hne => ?_
    intro x hx hx'
    simp only [List.map_map, List.mem_map] at hx hx'
    obtain ⟨q, -, rfl⟩ := hx
    obtain ⟨q', -, he⟩ := hx'
    exact hne (congrArg Prod.fst he).symm

def transpose : α × β × γ → β × α × γ
  | (a, b, c) => (b, a, c)

def onValue (f : γ → δ) : α × β × γ → α × β × δ
  | (a, b, c) => (a, b, f c)

/-- Nested in opposite order with equal readings means the same entries. -/
theorem triples_perm {t : Nested α β γ} {u : Nested β α δ} {f : γ → δ}
    (h : ∀ a b, (get t a b).map f = get u b a) :
    ((triples t).map (onValue f)).Perm ((triples u).map transpose) := by
  have ht : ((triples t).map (onValue f)).Nodup := by
    refine List.Nodup.of_map (fun p => (p.1, p.2.1)) ?_
    rw [List.map_map]
    exact triples_keys_nodup t
  have hu : ((triples u).map transpose).Nodup := by
    refine List.Nodup.of_map (fun p => (p.2.1, p.1)) ?_
    rw [List.map_map]
    exact triples_keys_nodup u
  rw [List.perm_ext_iff_of_nodup ht hu]
  rintro ⟨a, b, d⟩
  have hleft : (a, b, d) ∈ (triples t).map (onValue f) ↔ (get t a b).map f = some d := by
    rw [List.mem_map, Option.map_eq_some_iff]
    constructor
    · rintro ⟨⟨a', b', c⟩, hm, he⟩
      cases he
      exact ⟨c, (mem_triples t _ _ _).mp hm, rfl⟩
    · rintro ⟨c, hc, rfl⟩
      exact ⟨(a, b, c), (mem_triples t _ _ _).mpr hc, rfl⟩
  have hright : (a, b, d) ∈ (triples u).map transpose ↔ get u b a = some d := by
    rw [List.mem_map, ← mem_triples]
    constructor
    · rintro ⟨⟨b', a', c⟩, hm, he⟩
      cases he
      exact hm
    · intro hm
      exact ⟨(b, a, d), hm, rfl⟩
  rw [hleft, hright, h]

omit [DecidableEq α] [DecidableEq β] in
/-- A sum taken row by row is the sum over all entries. -/
theorem sum_rows (t : Nested α β γ) (p : α → Bool) (w : γ → ℕ) :
    (t.entries.map fun row => if p row.1 then (row.2.entries.map fun q => w q.2).sum else 0).sum =
      (((triples t).filter fun x => p x.1).map fun x => w x.2.2).sum := by
  rw [triples]
  induction t.entries with
  | nil => rfl
  | cons row rest ih =>
    rw [List.map_cons, List.sum_cons, ih, List.flatMap_cons, List.filter_append, List.map_append,
      List.sum_append]
    congr 1
    rw [List.filter_map, List.map_map]
    by_cases hp : p row.1
    · simp [hp, Function.comp_def]
    · simp [hp, Function.comp_def]

omit [DecidableEq β] in
/-- Where every key is named by an index, a sum over the entries is one over the indices. -/
theorem sum_entries {ι : Type} [Fintype ι] [DecidableEq ι] {key : ι → α}
    (hk : Function.Injective key) (m : Map α γ) (hm : ∀ a ∈ m, ∃ i, key i = a) (w : γ → ℕ) :
    (m.entries.map fun p => w p.2).sum = ∑ i, (m.lookup (key i)).elim 0 w := by
  obtain ⟨l, hl⟩ := m
  change (l.map fun p => w p.2).sum = ∑ i, (l.dlookup (key i)).elim 0 w
  have hm : ∀ a ∈ l.keys, ∃ i, key i = a := hm
  clear * - hk hl hm
  induction l with
  | nil => simp
  | cons p l ih =>
    rw [List.nodupKeys_cons] at hl
    obtain ⟨i₀, hi₀⟩ := hm p.1 (by simp)
    have hterm : ∀ i, ((p :: l).dlookup (key i)).elim 0 w =
        (if i = i₀ then w p.2 else 0) + (l.dlookup (key i)).elim 0 w := by
      intro i
      by_cases hi : i = i₀
      · subst hi
        have hnone : l.dlookup (key i) = none := List.dlookup_eq_none.mpr (hi₀ ▸ hl.1)
        rw [hnone, hi₀]
        obtain ⟨a, c⟩ := p
        simp
      · have hne : key i ≠ p.1 := fun heq => hi (hk (heq.trans hi₀.symm))
        rw [List.dlookup_cons_ne _ _ hne, if_neg hi, Nat.zero_add]
    rw [List.map_cons, List.sum_cons, ih hl.2 fun a ha => hm a (List.mem_cons_of_mem _ ha),
      Finset.sum_congr rfl fun i _ => hterm i, Finset.sum_add_distrib, Finset.sum_ite_eq' ]
    simp

end NestedMaps
