import Aitt.NestedMaps
import Aitt.TransitionRuns
import Mathlib.Data.List.Count
import Mathlib.Data.Prod.Basic

/-! The timeouts of all main loops of a process. `AddTimeout` reads a static counter three times
without a lock: for the timer, for the key in the table and for its result. The loop looks an
entry up under the lock and uses it after releasing the lock. A timer that expires sends a
signal, and the handler of the signal reads the timer's own record. The system numbers the
timers, and a record whose timer has the number zero, which it takes for null, does not delete
it. -/
namespace MainLoopTimeouts

open NestedMaps TransitionRuns

def ping : ℕ := 0
def idle : ℕ := 1
def quit : ℕ := 4294967295

structure Timer (ι : Type) where
  loop : ι
  id : ℕ
  entry : ℕ
  timerid : ℕ
  deriving DecidableEq, Repr

def Timer.key {ι : Type} (t : Timer ι) : ι × ℕ := (t.loop, t.id)

inductive Stage where
  | timerSet
  | inserted
  | read (value : ℕ)
  deriving DecidableEq, Repr

structure Adding (ι : Type) where
  loop : ι
  entry : ℕ
  stage : Stage
  deriving DecidableEq, Repr

inductive Control where
  | elsewhere
  | found (id entry : ℕ)
  | calling (id entry : ℕ)
  deriving DecidableEq, Repr

/-- Observations that the code does not make. `gone` has the timeouts for which
`RemoveTimeout` has been called, `continued` the number of armed timers after each `CONTINUE`. -/
structure History (ι : Type) where
  handed : List (ι × ℕ) := []
  gone : List (ι × ℕ) := []
  lateCall : Bool := false
  usedReleased : Bool := false
  continued : List ℕ := []
  deriving DecidableEq, Repr

/-- The tables of all loops are one map by loop and identifier. `signalled` are the timers that
have expired and whose handler has not run, `dangling` those of them whose record is gone, and
`leaked` the timers that are armed without a record. -/
structure State (ι : Type) where
  identifier : ℕ := 2
  adding : List (Adding ι) := []
  timeoutTable : Map (ι × ℕ) ℕ := ∅
  armed : List (Timer ι) := []
  leaked : List (Timer ι) := []
  signalled : List (Timer ι) := []
  dangling : List (Timer ι) := []
  pipe : ι → List ℕ := fun _ => []
  control : ι → Control := fun _ => .elsewhere
  entries : ℕ := 0
  released : List ℕ := []
  history : History ι := {}

/-- `timerid` is the number that `timer_create` gives; `timer` is `none` when it fails. -/
inductive Event (ι : Type) where
  | setTimer (l : ι) (timerid : ℕ)
  | tableInsert (n : ℕ)
  | readIdentifier (n : ℕ)
  | writeIdentifier (n : ℕ)
  | removeTimeout (l : ι) (id : ℕ)
  | expire (t : Timer ι)
  | expireLeaked (t : Timer ι)
  | timerHandler (t : Timer ι)
  | danglingHandler (t : Timer ι)
  | readToken (l : ι)
  | call (l : ι)
  | returns (l : ι) (remove : Bool) (timer : Option ℕ)

variable {ι : Type} [DecidableEq ι]

namespace State

/-- The destructor of an entry's `TimeoutData` deletes the timer unless its id is null; a signal
that has been sent is not called back. -/
def freeTimer (s : State ι) (entry : ℕ) : State ι :=
  { s with
    armed := s.armed.filter (·.entry ≠ entry)
    leaked := s.leaked ++ s.armed.filter fun t => t.entry = entry ∧ t.timerid = 0
    signalled := s.signalled.filter (·.entry ≠ entry)
    dangling := s.dangling ++ s.signalled.filter (·.entry = entry) }

def removeTimeout (s : State ι) (l : ι) (id : ℕ) : State ι :=
  match s.timeoutTable.lookup (l, id) with
  | none =>
    { s with
      history := { s.history with
        gone := if (l, id) ∈ s.history.handed then s.history.gone ++ [(l, id)]
          else s.history.gone } }
  | some entry =>
    { s.freeTimer entry with
      timeoutTable := s.timeoutTable.erase (l, id)
      released := s.released ++ [entry]
      history := { s.history with gone := s.history.gone ++ [(l, id)] } }

def setControl (s : State ι) (l : ι) (c : Control) : State ι :=
  { s with control := Function.update s.control l c }

def continueTimeout (s : State ι) (l : ι) (id entry : ℕ) (timer : Option ℕ) : State ι :=
  let s' := s.freeTimer entry
  let armed := s'.armed ++ (timer.map (⟨l, id, entry, ·⟩)).toList
  { s' with
    armed := armed
    history := { s.history with
      usedReleased := s.history.usedReleased || s.released.contains entry
      continued := s.history.continued ++ [(armed.map Timer.key).count (l, id)] } }

end State

/-- The counter is an `int`; its increment past `INT_MAX` is modelled as wrapping. -/
def step (s : State ι) : Event ι → Option (State ι)
  | .setTimer l timerid =>
    some { s with
      armed := s.armed ++ [⟨l, s.identifier, s.entries, timerid⟩]
      adding := s.adding ++ [⟨l, s.entries, .timerSet⟩]
      entries := s.entries + 1 }
  | .tableInsert n =>
    match s.adding[n]? with
    | some ⟨l, entry, .timerSet⟩ =>
      some { s with
        timeoutTable :=
          if (l, s.identifier) ∈ s.timeoutTable then s.timeoutTable
          else s.timeoutTable.insert (l, s.identifier) entry
        adding := s.adding.set n ⟨l, entry, .inserted⟩ }
    | _ => none
  | .readIdentifier n =>
    match s.adding[n]? with
    | some ⟨l, entry, .inserted⟩ =>
      some { s with adding := s.adding.set n ⟨l, entry, .read s.identifier⟩ }
    | _ => none
  | .writeIdentifier n =>
    match s.adding[n]? with
    | some ⟨l, _, .read value⟩ =>
      some { s with
        identifier := (value + 1) % 4294967296
        adding := s.adding.eraseIdx n
        history := { s.history with handed := s.history.handed ++ [(l, value)] } }
    | _ => none
  | .removeTimeout l id => some (s.removeTimeout l id)
  | .expire t =>
    if t ∈ s.armed then
      some { s with armed := s.armed.erase t, signalled := s.signalled ++ [t] }
    else none
  | .expireLeaked t =>
    if t ∈ s.leaked then
      some { s with leaked := s.leaked.erase t, dangling := s.dangling ++ [t] }
    else none
  | .timerHandler t =>
    if t ∈ s.signalled then
      some { s with
        signalled := s.signalled.erase t
        pipe := Function.update s.pipe t.loop (s.pipe t.loop ++ [t.id]) }
    else none
  | .danglingHandler t =>
    if t ∈ s.dangling then
      some { s with
        dangling := s.dangling.erase t
        history := { s.history with usedReleased := true } }
    else none
  -- A token with the value of `QUIT` ends the run of the loop.
  | .readToken l =>
    match s.control l, s.pipe l with
    | .elsewhere, id :: rest =>
      let s' := { s with pipe := Function.update s.pipe l rest }
      if id = quit then some s'
      else
        match s.timeoutTable.lookup (l, id) with
        | none => some s'
        | some entry => some (s'.setControl l (.found id entry))
    | _, _ => none
  | .call l =>
    match s.control l with
    | .found id entry =>
      some { s.setControl l (.calling id entry) with
        history := { s.history with
          lateCall := s.history.lateCall || s.history.gone.contains (l, id)
          usedReleased := s.history.usedReleased || s.released.contains entry } }
    | _ => none
  | .returns l remove timer =>
    match s.control l with
    | .calling id entry =>
      if remove then some ((s.removeTimeout l id).setControl l .elsewhere)
      else some ((s.continueTimeout l id entry timer).setControl l .elsewhere)
    | _ => none

def machine : Machine (State ι) (Event ι) := ⟨{}, step⟩

structure Sound (s : State ι) : Prop where
  lateCall : s.history.lateCall = false
  usedReleased : s.history.usedReleased = false
  distinct : (s.history.handed.map (·.2)).Nodup
  named : ∀ p ∈ s.history.handed, p.2 ≠ ping ∧ p.2 ≠ idle ∧ p.2 ≠ quit
  armedOnce : ∀ n ∈ s.history.continued, n = 1

/-- Calls of `AddTimeout` do not overlap and the counter has not run out. `RemoveTimeout` does
not come between the lookup of its timeout and the call, nor between the expiry of its timer
and the handler, nor while a timer that is armed has the number zero. A callback returns
`CONTINUE` only while its timeout is in the table, and then the timer can be set. -/
def Ok (s : State ι) : Event ι → Prop
  | .setTimer _ _ => s.adding = [] ∧ s.identifier < quit
  | .removeTimeout l id => ∀ entry ∈ s.timeoutTable.lookup (l, id),
      s.control l ≠ .found id entry ∧ (∀ t ∈ s.signalled, t.entry ≠ entry) ∧
        ∀ t ∈ s.armed, t.entry = entry → t.timerid ≠ 0
  | .returns l false timer => timer.isSome = true ∧ match s.control l with
      | .calling id entry => s.timeoutTable.lookup (l, id) = some entry
      | _ => True
  | _ => True

instance (s : State ι) (e : Event ι) : Decidable (Ok s e) :=
  match e with
  | .setTimer _ _ => inferInstanceAs (Decidable (_ ∧ _))
  | .removeTimeout _ _ => inferInstanceAs (Decidable (∀ _ ∈ _, _))
  | .returns l false timer => by
    refine @instDecidableAnd _ _ (inferInstanceAs (Decidable (timer.isSome = true))) ?_
    cases s.control l <;> infer_instance
  | .returns _ true _ | .tableInsert _ | .readIdentifier _ | .writeIdentifier _ | .expire _
  | .expireLeaked _ | .timerHandler _ | .danglingHandler _ | .readToken _ | .call _ => isTrue trivial

def used (s : State ι) : ℕ := if s.adding = [] then s.identifier else s.identifier + 1

def placed (s : State ι) : ℕ :=
  if ∃ a ∈ s.adding, a.stage ≠ .timerSet then s.identifier + 1 else s.identifier

def Control.handles : Control → Option ℕ
  | .elsewhere => none
  | .found id _ | .calling id _ => some id

def Control.weight (c : Control) (id : ℕ) : ℕ := if c.handles = some id then 1 else 0

/-- A timeout is in one place: its timer is armed, or has sent a signal, or its identifier is
in the pipe or is being handled. -/
def weight (s : State ι) (k : ι × ℕ) : ℕ :=
  (s.armed.map Timer.key).count k + (s.signalled.map Timer.key).count k +
    (s.pipe k.1).count k.2 + (s.control k.1).weight k.2

structure Invariant (s : State ι) : Prop where
  sound : Sound s
  single : s.adding.length ≤ 1
  start : 2 ≤ s.identifier
  bound : used s ≤ quit
  read : ∀ a ∈ s.adding, ∀ value, a.stage = .read value → value = s.identifier
  handed : ∀ p ∈ s.history.handed, p.2 < s.identifier
  table : ∀ k entry, s.timeoutTable.lookup k = some entry →
    k.2 < placed s ∧ entry < s.entries ∧ entry ∉ s.released
  inj : ∀ k k' entry, s.timeoutTable.lookup k = some entry →
    s.timeoutTable.lookup k' = some entry → k = k'
  fresh : ∀ a ∈ s.adding, a.stage = .timerSet → a.entry < s.entries ∧ a.entry ∉ s.released ∧
    ∀ k, s.timeoutTable.lookup k ≠ some a.entry
  released : ∀ entry ∈ s.released, entry < s.entries
  owned : ∀ t ∈ s.armed ++ s.signalled, s.timeoutTable.lookup t.key = some t.entry ∨
    ⟨t.loop, t.entry, .timerSet⟩ ∈ s.adding ∧ t.id = s.identifier
  dangling : s.dangling = []
  leaked : s.leaked = []
  pipe : ∀ l, ∀ id ∈ s.pipe l, id < used s
  handles : ∀ l id, (s.control l).handles = some id → id < placed s
  once : ∀ k, weight s k ≤ 1
  found : ∀ l id entry, s.control l = .found id entry →
    s.timeoutTable.lookup (l, id) = some entry
  gone : ∀ k ∈ s.history.gone, k.2 < placed s ∧ s.timeoutTable.lookup k = none

variable {s t : State ι} {e : Event ι}

theorem invariant_initial : Invariant ({} : State ι) where
  sound := ⟨rfl, rfl, List.nodup_nil, nofun, nofun⟩
  single := Nat.zero_le 1
  start := Nat.le_refl 2
  bound := by simp [used, quit]
  read := nofun
  handed := nofun
  table k entry h := by
    rw [AList.lookup_empty] at h
    cases h
  inj k k' entry h := by
    rw [AList.lookup_empty] at h
    cases h
  fresh := nofun
  released := nofun
  owned := nofun
  dangling := rfl
  leaked := rfl
  pipe := nofun
  handles := nofun
  once _ := Nat.zero_le 1
  found := nofun
  gone := nofun

omit [DecidableEq ι] in
theorem identifier_le_placed (s : State ι) : s.identifier ≤ placed s := by
  unfold placed
  split <;> omega

omit [DecidableEq ι] in
theorem placed_le_used (s : State ι) : placed s ≤ used s := by
  unfold placed used
  split_ifs with hex hnil
  · simp [hnil] at hex
  · omega
  · omega
  · omega

theorem Invariant.timer_lt (h : Invariant s) {u : Timer ι} (hu : u ∈ s.armed ++ s.signalled) :
    u.id < used s := by
  rcases h.owned u hu with hl | ⟨ha, hid⟩
  · exact Nat.lt_of_lt_of_le (h.table _ _ hl).1 (placed_le_used s)
  · have hne : s.adding ≠ [] := List.ne_nil_of_mem ha
    rw [used, if_neg hne, hid]
    exact Nat.lt_succ_self _

/-- No trace is left of an identifier that has not been used. -/
theorem Invariant.weight_eq_zero (h : Invariant s) {k : ι × ℕ} (hk : used s ≤ k.2) :
    weight s k = 0 := by
  have hkey : ∀ us, us ⊆ s.armed ++ s.signalled → (us.map Timer.key).count k = 0 := by
    refine fun us hsub => List.count_eq_zero.mpr fun hm => ?_
    obtain ⟨u, hu, rfl⟩ := List.mem_map.mp hm
    exact absurd (h.timer_lt (hsub hu)) (Nat.not_lt.mpr hk)
  have hpipe : (s.pipe k.1).count k.2 = 0 :=
    List.count_eq_zero.mpr fun hm => absurd (h.pipe _ _ hm) (Nat.not_lt.mpr hk)
  have hc : (s.control k.1).handles ≠ some k.2 := fun hc =>
    absurd (h.handles _ _ hc) (Nat.not_lt.mpr ((placed_le_used s).trans hk))
  rw [weight, hkey _ (List.subset_append_left _ _), hkey _ (List.subset_append_right _ _), hpipe,
    Control.weight, if_neg hc]

theorem Invariant.setTimer (h : Invariant s) {l : ι} {timerid : ℕ} (hn : s.adding = [])
    (hq : s.identifier < quit)
    (ht : t = { s with
      armed := s.armed ++ [⟨l, s.identifier, s.entries, timerid⟩]
      adding := s.adding ++ [⟨l, s.entries, .timerSet⟩]
      entries := s.entries + 1 }) : Invariant t := by
  have hus : used s = s.identifier := if_pos hn
  have hut : used t = s.identifier + 1 := by simp [ht, used]
  have hpt : placed t = placed s := by simp [ht, placed, hn]
  subst ht
  have hnew : s.entries ∉ s.released := fun hm => Nat.lt_irrefl _ (h.released _ hm)
  exact
    { h with
      sound := ⟨h.sound.lateCall, h.sound.usedReleased, h.sound.distinct, h.sound.named,
        h.sound.armedOnce⟩
      single := by simp [hn]
      bound := by omega
      read := by simp [hn]
      table := fun k entry hl => by
        obtain ⟨hk, he, hr⟩ := h.table k entry hl
        exact ⟨hpt ▸ hk, Nat.lt_succ_of_lt he, hr⟩
      fresh := by
        intro a ha _
        rw [hn] at ha
        obtain rfl := List.mem_singleton.mp ha
        exact ⟨Nat.lt_succ_self _, hnew, fun k hl => Nat.lt_irrefl _ (h.table k _ hl).2.1⟩
      released := fun entry hm => Nat.lt_succ_of_lt (h.released entry hm)
      owned := by
        intro u hu
        simp only [List.mem_append, List.mem_singleton] at hu
        rcases hu with (hu | rfl) | hu
        · left
          simpa [hn] using h.owned u (List.mem_append_left _ hu)
        · right
          simp
        · left
          simpa [hn] using h.owned u (List.mem_append_right _ hu)
      pipe := fun l' id hm => by
        have := h.pipe l' id hm
        omega
      handles := fun l' id hc => hpt ▸ h.handles l' id hc
      once := by
        intro k
        have hw := h.once k
        have hz := h.weight_eq_zero (k := k)
        simp only [weight, List.map_append, List.map_cons, List.map_nil, List.count_append,
          List.count_singleton, beq_iff_eq] at hw hz ⊢
        split_ifs with hk
        · have := hz (by rw [hus, ← hk]; exact Nat.le_refl _)
          omega
        · omega
      gone := fun k hk => hpt ▸ h.gone k hk }

theorem Invariant.adding_eq (h : Invariant s) {n : ℕ} {a : Adding ι} (hn : s.adding[n]? = some a) :
    n = 0 ∧ s.adding = [a] := by
  have hlen := h.single
  match hs : s.adding with
  | [] => simp [hs] at hn
  | [b] =>
    rw [hs] at hn
    obtain ⟨hlt, rfl⟩ := List.getElem?_eq_some_iff.mp hn
    obtain rfl : n = 0 := by simpa using hlt
    exact ⟨rfl, rfl⟩
  | b :: c :: rest => simp [hs] at hlen

theorem Invariant.tableInsert (h : Invariant s) {l : ι} {entry : ℕ}
    (ha : s.adding = [⟨l, entry, .timerSet⟩])
    (ht : t = { s with
      timeoutTable := s.timeoutTable.insert (l, s.identifier) entry
      adding := [⟨l, entry, .inserted⟩] }) : Invariant t := by
  have hps : placed s = s.identifier := by simp [placed, ha]
  have hpt : placed t = s.identifier + 1 := by simp [ht, placed]
  have hut : used t = used s := by simp [ht, used, ha]
  subst ht
  obtain ⟨hlt, hrel, hno⟩ := h.fresh _ (ha ▸ List.mem_singleton_self _) rfl
  have hself : (s.timeoutTable.insert (l, s.identifier) entry).lookup (l, s.identifier) =
    some entry := AList.lookup_insert _
  have hold : ∀ k : ι × ℕ, k.2 < s.identifier →
      (s.timeoutTable.insert (l, s.identifier) entry).lookup k = s.timeoutTable.lookup k :=
    fun k hk => AList.lookup_insert_ne fun he => Nat.lt_irrefl _ (he ▸ hk)
  exact
    { h with
      sound := ⟨h.sound.lateCall, h.sound.usedReleased, h.sound.distinct, h.sound.named,
        h.sound.armedOnce⟩
      single := Nat.le_refl 1
      bound := hut ▸ h.bound
      read := by simp
      table := by
        intro k e hl
        rcases lookup_insert_eq_some.mp hl with ⟨rfl, rfl⟩ | ⟨-, hl⟩
        · exact ⟨hpt ▸ Nat.lt_succ_self _, hlt, hrel⟩
        · obtain ⟨hk, he, hr⟩ := h.table k e hl
          exact ⟨by omega, he, hr⟩
      inj := by
        intro k k' e hk hk'
        rcases lookup_insert_eq_some.mp hk with ⟨rfl, rfl⟩ | ⟨-, hl⟩
        · rcases lookup_insert_eq_some.mp hk' with ⟨rfl, -⟩ | ⟨-, hl'⟩
          · rfl
          · exact absurd hl' (hno k')
        · rcases lookup_insert_eq_some.mp hk' with ⟨-, rfl⟩ | ⟨-, hl'⟩
          · exact absurd hl (hno k)
          · exact h.inj k k' e hl hl'
      fresh := by simp
      owned := by
        intro u hu
        left
        rcases h.owned u hu with hl | ⟨hm, hid⟩
        · rw [hold _ (hps ▸ (h.table _ _ hl).1)]
          exact hl
        · rw [ha] at hm
          obtain ⟨hloop, hentry, -⟩ := Adding.mk.inj (List.mem_singleton.mp hm)
          rw [Timer.key, hloop, hid, hentry]
          exact hself
      pipe := fun l' id hm => hut ▸ h.pipe l' id hm
      handles := fun l' id hc => by
        have := h.handles l' id hc
        omega
      once := h.once
      found := by
        intro l' id e hc
        have hl := h.found l' id e hc
        rw [hold _ (hps ▸ (h.table _ _ hl).1)]
        exact hl
      gone := by
        intro k hk
        obtain ⟨hlt, hnone⟩ := h.gone k hk
        rw [hps] at hlt
        exact ⟨by omega, by rw [hold k hlt]; exact hnone⟩ }

/-- The call of `AddTimeout` goes on after its entry is in the table. -/
theorem Invariant.readIdentifier (h : Invariant s) {l : ι} {entry : ℕ}
    (ha : s.adding = [⟨l, entry, .inserted⟩])
    (ht : t = { s with adding := [⟨l, entry, .read s.identifier⟩] }) : Invariant t := by
  have hpt : placed t = placed s := by simp [ht, placed, ha]
  have hut : used t = used s := by simp [ht, used, ha]
  subst ht
  exact
    { h with
      sound := ⟨h.sound.lateCall, h.sound.usedReleased, h.sound.distinct, h.sound.named,
        h.sound.armedOnce⟩
      single := Nat.le_refl 1
      bound := hut ▸ h.bound
      read := by simp
      table := fun k e hl => hpt ▸ h.table k e hl
      fresh := by simp
      owned := fun u hu => .inl <| by simpa [ha] using h.owned u hu
      pipe := fun l' id hm => hut ▸ h.pipe l' id hm
      handles := fun l' id hc => hpt ▸ h.handles l' id hc
      once := h.once
      gone := fun k hk => hpt ▸ h.gone k hk }

theorem Invariant.writeIdentifier (h : Invariant s) {l : ι} {entry value : ℕ}
    (ha : s.adding = [⟨l, entry, .read value⟩])
    (ht : t = { s with
      identifier := (value + 1) % 4294967296
      adding := []
      history := { s.history with handed := s.history.handed ++ [(l, value)] } }) :
    Invariant t := by
  obtain rfl : value = s.identifier := h.read _ (ha ▸ List.mem_singleton_self _) _ rfl
  have hus : used s = s.identifier + 1 := by simp [used, ha]
  have hps : placed s = s.identifier + 1 := by simp [placed, ha]
  have hstart := h.start
  have hbound := h.bound
  have hmod : (s.identifier + 1) % 4294967296 = s.identifier + 1 :=
    Nat.mod_eq_of_lt (by unfold quit at hbound; omega)
  rw [hmod] at ht
  have hut : used t = used s := by rw [hus, used, if_pos (by rw [ht]), ht]
  have hpt : placed t = placed s := by rw [hps, placed, if_neg (by simp [ht]), ht]
  subst ht
  have hmem : ∀ p ∈ s.history.handed ++ [(l, s.identifier)],
      p ∈ s.history.handed ∨ p.2 = s.identifier := by
    intro p hp
    rcases List.mem_append.mp hp with hp | hp
    · exact .inl hp
    · rw [List.mem_singleton.mp hp]
      exact .inr rfl
  have hdistinct : ((s.history.handed ++ [(l, s.identifier)]).map (·.2)).Nodup := by
    rw [List.map_append, List.nodup_append']
    refine ⟨h.sound.distinct, List.nodup_singleton _, fun id hid hnew => ?_⟩
    obtain ⟨p, hp, rfl⟩ := List.mem_map.mp hid
    exact absurd (List.mem_singleton.mp hnew) (Nat.ne_of_lt (h.handed p hp))
  exact
    { h with
      sound :=
        { h.sound with
          distinct := hdistinct
          named := fun p hp => by
            rcases hmem p hp with hp | hid
            · exact h.sound.named p hp
            · unfold ping idle
              omega }
      single := Nat.zero_le 1
      start := Nat.le_succ_of_le hstart
      bound := hut ▸ hbound
      read := nofun
      handed := fun p hp => by
        rcases hmem p hp with hp | hid
        · exact Nat.lt_succ_of_lt (h.handed p hp)
        · exact hid ▸ Nat.lt_succ_self _
      table := fun k e hl => hpt ▸ h.table k e hl
      fresh := nofun
      owned := fun u hu => .inl <| by simpa [ha] using h.owned u hu
      pipe := fun l' id hm => hut ▸ h.pipe l' id hm
      handles := fun l' id hc => hpt ▸ h.handles l' id hc
      once := h.once
      gone := fun k hk => hpt ▸ h.gone k hk }

theorem Invariant.removeTimeout (h : Invariant s) {l : ι} {id : ℕ}
    (ho : Ok s (.removeTimeout l id)) : Invariant (s.removeTimeout l id) := by
  unfold State.removeTimeout
  split
  next hnone =>
    refine { h with
      sound := { h.sound with }
      gone := fun k hk => ?_ }
    split at hk
    next hhanded =>
      rcases List.mem_append.mp hk with hk | hk
      · exact h.gone k hk
      · rw [List.mem_singleton.mp hk]
        exact ⟨Nat.lt_of_lt_of_le (h.handed _ hhanded) (identifier_le_placed s), hnone⟩
    next => exact h.gone k hk
  next entry hsome =>
    obtain ⟨hfound, hsignal, htimer⟩ := ho entry hsome
    obtain ⟨hlt, hentry, hrel⟩ := h.table _ _ hsome
    have hfree : ∀ e, e ∉ s.released → e ≠ entry → e ∉ s.released ++ [entry] := by
      intro e he hne hm
      rcases List.mem_append.mp hm with hm | hm
      · exact he hm
      · exact hne (List.mem_singleton.mp hm)
    exact
      { h with
        sound := { h.sound with }
        table := fun k e hl => by
          obtain ⟨hk, hl⟩ := lookup_erase_eq_some.mp hl
          obtain ⟨hlt, he, hr⟩ := h.table k e hl
          exact ⟨hlt, he, hfree e hr fun heq => hk (h.inj _ _ _ hl (heq ▸ hsome))⟩
        inj := fun k k' e hl hl' =>
          h.inj k k' e (lookup_erase_eq_some.mp hl).2 (lookup_erase_eq_some.mp hl').2
        fresh := fun a ha hstage => by
          obtain ⟨he, hr, hno⟩ := h.fresh a ha hstage
          exact ⟨he, hfree _ hr fun heq => hno _ (heq ▸ hsome),
            fun k hl => hno k (lookup_erase_eq_some.mp hl).2⟩
        released := fun e hm => by
          rcases List.mem_append.mp hm with hm | hm
          · exact h.released e hm
          · rw [List.mem_singleton.mp hm]
            exact hentry
        owned := fun u hu => by
          have hmem : u ∈ s.armed ++ s.signalled ∧ u.entry ≠ entry := by
            simpa [State.freeTimer, or_and_right] using hu
          refine (h.owned u hmem.1).imp_left fun hl => ?_
          refine lookup_erase_eq_some.mpr ⟨fun hk => hmem.2 ?_, hl⟩
          exact Option.some.inj (hl.symm.trans (hk ▸ hsome))
        dangling := by
          have hnil : s.signalled.filter (·.entry = entry) = [] := by
            simpa [List.filter_eq_nil_iff] using hsignal
          rw [State.freeTimer, hnil, h.dangling]
          rfl
        leaked := by
          have hnil : s.armed.filter (fun t => t.entry = entry ∧ t.timerid = 0) = [] := by
            rw [List.filter_eq_nil_iff]
            intro u hu he
            obtain ⟨he, hz⟩ := of_decide_eq_true he
            exact htimer u hu he hz
          rw [State.freeTimer, hnil, h.leaked]
          rfl
        once := fun k => by
          have hw := h.once k
          have harmed := (List.filter_sublist (p := (·.entry ≠ entry)) (l := s.armed)).map Timer.key
          have hsign := (List.filter_sublist (p := (·.entry ≠ entry))
            (l := s.signalled)).map Timer.key
          have ha := harmed.count_le k
          have hs := hsign.count_le k
          simp only [weight, State.freeTimer] at hw ⊢
          omega
        found := fun l' id' e hc => by
          refine lookup_erase_eq_some.mpr ⟨fun hk => ?_, h.found l' id' e hc⟩
          obtain ⟨rfl, rfl⟩ := Prod.mk.inj hk
          have he := Option.some.inj ((h.found _ _ e hc).symm.trans hsome)
          exact hfound (he ▸ hc)
        gone := fun k hk => by
          rcases List.mem_append.mp hk with hk | hk
          · obtain ⟨hlt, hnone⟩ := h.gone k hk
            refine ⟨hlt, Option.eq_none_iff_forall_not_mem.mpr fun e hl => ?_⟩
            rw [(lookup_erase_eq_some.mp hl).2] at hnone
            cases hnone
          · rw [List.mem_singleton.mp hk]
            exact ⟨hlt, AList.lookup_erase _ _⟩ }

theorem count_key_erase {us : List (Timer ι)} {u : Timer ι} (hu : u ∈ us) (k : ι × ℕ) :
    (us.map Timer.key).count k = ((us.erase u).map Timer.key).count k +
      if u.key = k then 1 else 0 := by
  rw [((List.perm_cons_erase hu).map Timer.key).count_eq, List.map_cons, List.count_cons]
  simp only [beq_iff_eq]

theorem Invariant.expire (h : Invariant s) {u : Timer ι} (hu : u ∈ s.armed)
    (ht : t = { s with armed := s.armed.erase u, signalled := s.signalled ++ [u] }) :
    Invariant t := by
  subst ht
  exact
    { h with
      sound := { h.sound with }
      owned := fun v hv => by
        refine h.owned v ?_
        simp only [List.mem_append, List.mem_singleton] at hv ⊢
        rcases hv with hv | hv | rfl
        · exact .inl (List.mem_of_mem_erase hv)
        · exact .inr hv
        · exact .inl hu
      once := fun k => by
        have hw := h.once k
        have hcount := count_key_erase hu k
        simp only [weight, List.map_append, List.map_cons, List.map_nil, List.count_append,
          List.count_singleton, beq_iff_eq] at hw ⊢
        omega }

/-- The handler of the signal passes the identifier on to the pipe. -/
theorem Invariant.timerHandler (h : Invariant s) {u : Timer ι} (hu : u ∈ s.signalled)
    (ht : t = { s with
      signalled := s.signalled.erase u
      pipe := Function.update s.pipe u.loop (s.pipe u.loop ++ [u.id]) }) : Invariant t := by
  subst ht
  exact
    { h with
      sound := { h.sound with }
      owned := fun v hv => by
        refine h.owned v ?_
        rcases List.mem_append.mp hv with hv | hv
        · exact List.mem_append_left _ hv
        · exact List.mem_append_right _ (List.mem_of_mem_erase hv)
      pipe := fun l id hm => by
        dsimp only at hm
        by_cases hl : l = u.loop
        · rw [hl, Function.update_self] at hm
          rcases List.mem_append.mp hm with hm | hm
          · exact h.pipe _ _ hm
          · rw [List.mem_singleton.mp hm]
            exact h.timer_lt (List.mem_append_right _ hu)
        · rw [Function.update_of_ne hl] at hm
          exact h.pipe l id hm
      once := fun k => by
        have hw := h.once k
        have hcount := count_key_erase hu k
        have hpipe : (Function.update s.pipe u.loop (s.pipe u.loop ++ [u.id]) k.1).count k.2 =
            (s.pipe k.1).count k.2 + if u.key = k then 1 else 0 := by
          by_cases hl : k.1 = u.loop
          · rw [← hl, Function.update_self, List.count_append, List.count_singleton]
            simp [Timer.key, Prod.ext_iff, hl]
          · rw [Function.update_of_ne hl, if_neg fun hk : u.key = k => hl (hk ▸ rfl)]
            rfl
        simp only [weight] at hw ⊢
        omega }

/-- The thread of a loop moves on and holds what it held before or has just taken out of the
pipe. -/
theorem Invariant.moveControl (h : Invariant s) {l : ι} {c : Control} (ids : List ℕ)
    (hw : ∀ id, ids.count id + c.weight id ≤ (s.pipe l).count id + (s.control l).weight id)
    (hh : ∀ id, c.handles = some id → id < placed s)
    (hf : ∀ id entry, c = .found id entry → s.timeoutTable.lookup (l, id) = some entry)
    (ht : t = { s with
      pipe := Function.update s.pipe l ids
      control := Function.update s.control l c }) : Invariant t := by
  subst ht
  exact
    { h with
      sound := { h.sound with }
      pipe := fun l' id hm => by
        dsimp only at hm
        by_cases hl : l' = l
        · rw [hl, Function.update_self] at hm
          by_contra hlt
          have hz := h.weight_eq_zero (k := (l, id)) (Nat.not_lt.mp hlt)
          have hpos := List.count_pos_iff.mpr hm
          have := hw id
          simp only [weight] at hz
          omega
        · rw [Function.update_of_ne hl] at hm
          exact h.pipe l' id hm
      handles := fun l' id hc => by
        dsimp only at hc
        by_cases hl : l' = l
        · rw [hl, Function.update_self] at hc
          exact hh id hc
        · rw [Function.update_of_ne hl] at hc
          exact h.handles l' id hc
      once := fun k => by
        have hk := h.once k
        by_cases hl : k.1 = l
        · have := hw k.2
          simp only [weight, hl, Function.update_self] at hk ⊢
          omega
        · simpa only [weight, Function.update_of_ne hl] using hk
      found := fun l' id entry hc => by
        dsimp only at hc
        by_cases hl : l' = l
        · rw [hl, Function.update_self] at hc
          exact hl ▸ hf id entry hc
        · rw [Function.update_of_ne hl] at hc
          exact h.found l' id entry hc }

theorem Control.weight_eq (c : Control) (id id' : ℕ) (h : c.handles = some id) :
    c.weight id' = if id = id' then 1 else 0 := by
  rw [Control.weight, h]
  simp only [Option.some.injEq]

theorem Invariant.readToken (h : Invariant s) {l : ι} {id : ℕ} {rest : List ℕ} {c : Control}
    (hc : s.control l = .elsewhere) (hp : s.pipe l = id :: rest)
    (hf : c = .elsewhere ∨
      ∃ entry, c = .found id entry ∧ s.timeoutTable.lookup (l, id) = some entry)
    (ht : t = { s with
      pipe := Function.update s.pipe l rest
      control := Function.update s.control l c }) : Invariant t := by
  refine h.moveControl (l := l) (c := c) rest (fun id' => ?_) ?_ ?_ ht
  · rw [hp, hc, List.count_cons]
    rcases hf with rfl | ⟨entry, rfl, -⟩
    · omega
    · rw [Control.weight_eq _ id _ rfl]
      simp only [beq_iff_eq]
      omega
  · rintro id' hid
    rcases hf with rfl | ⟨entry, rfl, hl⟩
    · cases hid
    · cases hid
      exact (h.table _ _ hl).1
  · rintro id' entry' rfl
    rcases hf with hf | ⟨entry, hf, hl⟩
    · cases hf
    · cases hf
      exact hl

/-- An entry of the table is not used after its release. -/
theorem Invariant.not_released (h : Invariant s) {k : ι × ℕ} {entry : ℕ}
    (hl : s.timeoutTable.lookup k = some entry) : s.released.contains entry = false := by
  rw [List.contains_eq_mem, decide_eq_false_iff_not]
  exact (h.table _ _ hl).2.2

theorem Invariant.setElsewhere (h : Invariant s) (l : ι) :
    Invariant (s.setControl l .elsewhere) := by
  refine h.moveControl (l := l) (c := .elsewhere) (s.pipe l) (fun _ => Nat.le_add_right _ _)
    nofun nofun ?_
  rw [Function.update_eq_self]
  rfl

/-- A callback is called only while its entry is in the table. -/
theorem Invariant.call (h : Invariant s) {l : ι} {id entry : ℕ}
    (hc : s.control l = .found id entry)
    (ht : t = { s.setControl l (.calling id entry) with
      history := { s.history with
        lateCall := s.history.lateCall || s.history.gone.contains (l, id)
        usedReleased := s.history.usedReleased || s.released.contains entry } }) :
    Invariant t := by
  have hl := h.found l id entry hc
  have hgone : s.history.gone.contains (l, id) = false := by
    rw [List.contains_eq_mem, decide_eq_false_iff_not]
    intro hg
    rw [(h.gone _ hg).2] at hl
    cases hl
  rw [hgone, h.not_released hl, Bool.or_false, Bool.or_false] at ht
  refine h.moveControl (l := l) (c := .calling id entry) (s.pipe l) (fun id' => ?_)
    ?_ nofun ?_
  · rw [hc]
    rfl
  · rintro id' hid
    cases hid
    exact (h.table _ _ hl).1
  · rw [ht, Function.update_eq_self]
    rfl

/-- The timer of a timeout that is being handled is neither armed nor has it sent a signal. -/
theorem Invariant.no_timer (h : Invariant s) {l : ι} {id entry : ℕ}
    (hc : (s.control l).handles = some id) (hl : s.timeoutTable.lookup (l, id) = some entry)
    {u : Timer ι} (hu : u ∈ s.armed ++ s.signalled) : u.entry ≠ entry := by
  intro he
  have hkey : u.key = (l, id) := by
    rcases h.owned u hu with ho | ⟨ha, -⟩
    · exact h.inj _ _ _ ho (he ▸ hl)
    · exact absurd (he ▸ hl) ((h.fresh _ ha rfl).2.2 (l, id))
  have hw := h.once (l, id)
  rw [weight, Control.weight_eq _ id _ hc, if_pos rfl] at hw
  have hpos : 0 < ((s.armed ++ s.signalled).map Timer.key).count (l, id) :=
    List.count_pos_iff.mpr (hkey ▸ List.mem_map_of_mem hu)
  rw [List.map_append, List.count_append] at hpos
  omega

omit [DecidableEq ι] in
theorem freeTimer_eq_self {entry : ℕ} (h : ∀ u ∈ s.armed ++ s.signalled, u.entry ≠ entry) :
    s.freeTimer entry = s := by
  have harmed : s.armed.filter (·.entry ≠ entry) = s.armed :=
    List.filter_eq_self.mpr fun u hu => decide_eq_true (h u (List.mem_append_left _ hu))
  have hsign : s.signalled.filter (·.entry ≠ entry) = s.signalled :=
    List.filter_eq_self.mpr fun u hu => decide_eq_true (h u (List.mem_append_right _ hu))
  have hnone : s.signalled.filter (·.entry = entry) = [] :=
    List.filter_eq_nil_iff.mpr fun u hu =>
      of_decide_eq_false (decide_eq_false (h u (List.mem_append_right _ hu))) ∘ of_decide_eq_true
  have hleak : s.armed.filter (fun t => t.entry = entry ∧ t.timerid = 0) = [] :=
    List.filter_eq_nil_iff.mpr fun u hu he =>
      h u (List.mem_append_left _ hu) (of_decide_eq_true he).1
  rw [State.freeTimer, harmed, hsign, hnone, hleak, List.append_nil, List.append_nil]

/-- `REMOVE` from the callback itself. -/
theorem Invariant.returnsRemove (h : Invariant s) {l : ι} {id entry : ℕ}
    (hc : s.control l = .calling id entry) :
    Invariant ((s.removeTimeout l id).setControl l .elsewhere) := by
  have hno : ∀ e ∈ s.timeoutTable.lookup (l, id), ∀ u ∈ s.armed ++ s.signalled, u.entry ≠ e :=
    fun e hl u hu => h.no_timer (by rw [hc]; rfl) hl hu
  refine Invariant.setElsewhere (h.removeTimeout fun e hl => ⟨?_, fun u hu => ?_, fun u hu => ?_⟩) l
  · rw [hc]
    nofun
  · exact hno e hl u (List.mem_append_right _ hu)
  · exact fun he => absurd he (hno e hl u (List.mem_append_left _ hu))

/-- The timer of a timeout of which there is no other trace is armed again. -/
theorem Invariant.arm (h : Invariant s) {l : ι} {id entry : ℕ} (timerid : ℕ)
    (hl : s.timeoutTable.lookup (l, id) = some entry) (hz : weight s (l, id) = 0)
    (ht : t = { s with
      armed := s.armed ++ [⟨l, id, entry, timerid⟩]
      history := { s.history with continued := s.history.continued ++ [1] } }) :
    Invariant t := by
  subst ht
  exact
    { h with
      sound :=
        { h.sound with
          armedOnce := fun n hn => by
            rcases List.mem_append.mp hn with hn | hn
            · exact h.sound.armedOnce n hn
            · exact List.mem_singleton.mp hn }
      owned := fun u hu => by
        simp only [List.mem_append, List.mem_singleton] at hu
        rcases hu with (hu | rfl) | hu
        · exact h.owned u (List.mem_append_left _ hu)
        · exact .inl hl
        · exact h.owned u (List.mem_append_right _ hu)
      once := fun k => by
        have hk := h.once k
        simp only [weight, List.map_append, List.map_cons, List.map_nil, List.count_append,
          List.count_singleton, beq_iff_eq, Timer.key] at hk hz ⊢
        split_ifs with he
        · subst he
          dsimp only
          omega
        · omega }

/-- `CONTINUE` for a timeout that is still in the table. -/
theorem Invariant.returnsContinue (h : Invariant s) {l : ι} {id entry : ℕ}
    (hc : s.control l = .calling id entry) (hl : s.timeoutTable.lookup (l, id) = some entry)
    (timerid : ℕ) :
    Invariant ((s.continueTimeout l id entry (some timerid)).setControl l .elsewhere) := by
  have hh : (s.control l).handles = some id := by rw [hc]; rfl
  have hfree : s.freeTimer entry = s := freeTimer_eq_self fun u hu => h.no_timer hh hl hu
  have hrel := h.not_released hl
  have hw := h.once (l, id)
  rw [weight, Control.weight_eq _ id _ hh, if_pos rfl] at hw
  dsimp only at hw
  have hone : ((s.armed ++ [(⟨l, id, entry, timerid⟩ : Timer ι)]).map Timer.key).count (l, id) = 1 := by
    rw [List.map_append, List.count_append]
    simp only [List.map_cons, List.map_nil, Timer.key, List.count_singleton_self]
    omega
  have hz : weight (s.setControl l .elsewhere) (l, id) = 0 := by
    have hnone : Control.elsewhere.weight id = 0 := rfl
    simp only [weight, State.setControl, Function.update_self]
    omega
  refine (h.setElsewhere l).arm timerid hl hz ?_
  simp only [State.continueTimeout, State.setControl, hfree, Option.map_some, Option.toList_some,
    hone, hrel, Bool.or_false]

theorem Invariant.step (h : Invariant s) (ho : Ok s e) (hs : step s e = some t) : Invariant t := by
  cases e with
  | setTimer l timerid =>
    obtain rfl := Option.some.inj hs
    exact h.setTimer ho.1 ho.2 rfl
  | tableInsert n =>
    simp only [MainLoopTimeouts.step] at hs
    split at hs
    next l entry hg =>
      obtain ⟨rfl, ha⟩ := h.adding_eq hg
      have hnew : (l, s.identifier) ∉ s.timeoutTable := by
        intro hm
        obtain ⟨e, he⟩ := Option.isSome_iff_exists.mp (AList.lookup_isSome.mpr hm)
        have hlt := (h.table _ _ he).1
        simp [placed, ha] at hlt
      rw [if_neg hnew, ha] at hs
      exact h.tableInsert ha (Option.some.inj hs).symm
    next => cases hs
  | readIdentifier n =>
    simp only [MainLoopTimeouts.step] at hs
    split at hs
    next l entry hg =>
      obtain ⟨rfl, ha⟩ := h.adding_eq hg
      rw [ha] at hs
      exact h.readIdentifier ha (Option.some.inj hs).symm
    next => cases hs
  | writeIdentifier n =>
    simp only [MainLoopTimeouts.step] at hs
    split at hs
    next l entry value hg =>
      obtain ⟨rfl, ha⟩ := h.adding_eq hg
      rw [ha] at hs
      exact h.writeIdentifier ha (Option.some.inj hs).symm
    next => cases hs
  | removeTimeout l id =>
    obtain rfl := Option.some.inj hs
    exact h.removeTimeout ho
  | expire u =>
    obtain ⟨hu, hs⟩ := Option.ite_none_right_eq_some.mp hs
    exact h.expire hu (Option.some.inj hs).symm
  | expireLeaked u =>
    obtain ⟨hu, -⟩ := Option.ite_none_right_eq_some.mp hs
    rw [h.leaked] at hu
    cases hu
  | timerHandler u =>
    obtain ⟨hu, hs⟩ := Option.ite_none_right_eq_some.mp hs
    exact h.timerHandler hu (Option.some.inj hs).symm
  | danglingHandler u =>
    obtain ⟨hu, -⟩ := Option.ite_none_right_eq_some.mp hs
    rw [h.dangling] at hu
    cases hu
  | readToken l =>
    simp only [MainLoopTimeouts.step] at hs
    split at hs
    next id rest hc hp =>
      have hsame : Function.update s.control l .elsewhere = s.control := by
        rw [← hc, Function.update_eq_self]
      split at hs
      next => exact h.readToken hc hp (.inl rfl) (by rw [hsame]; exact (Option.some.inj hs).symm)
      next =>
        split at hs
        next => exact h.readToken hc hp (.inl rfl) (by rw [hsame]; exact (Option.some.inj hs).symm)
        next entry hl => exact h.readToken hc hp (.inr ⟨entry, rfl, hl⟩) (Option.some.inj hs).symm
    next => cases hs
  | call l =>
    simp only [MainLoopTimeouts.step] at hs
    split at hs
    next id entry hc => exact h.call hc (Option.some.inj hs).symm
    next => cases hs
  | returns l remove timer =>
    simp only [MainLoopTimeouts.step] at hs
    split at hs
    next id entry hc =>
      cases remove with
      | true =>
        obtain rfl := Option.some.inj hs
        exact h.returnsRemove hc
      | false =>
        obtain ⟨htimer, hl⟩ := ho
        obtain ⟨timerid, rfl⟩ := Option.isSome_iff_exists.mp htimer
        rw [hc] at hl
        obtain rfl := Option.some.inj hs
        exact h.returnsContinue hc hl timerid
    next => cases hs

theorem invariant_reaches (h : machine.Reaches Ok s) : Invariant s :=
  h.invariant invariant_initial fun _ _ _ _ hi ho hs => hi.step ho hs

def addTimeout (l : Bool) (timerid : ℕ) : List (Event Bool) :=
  [.setTimer l timerid, .tableInsert 0, .readIdentifier 0, .writeIdentifier 0]

def removedWhenFound : List (Event Bool) :=
  addTimeout false 1 ++ [.expire ⟨false, 2, 0, 1⟩, .timerHandler ⟨false, 2, 0, 1⟩, .readToken false,
    .removeTimeout false 2, .call false]

end MainLoopTimeouts
