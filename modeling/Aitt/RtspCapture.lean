import Aitt.RtspPlayback

/-! The timers with which `RTSPClient` asks the player for frames. The client notes the id of one
timer and removes that one when it stops. A player that was idle calls back when it has been
prepared, whatever has become of the client. Each call is one step. -/
namespace RtspCapture

open AittTypes Flexbuffers TransitionRuns RtspModule RtspPlayback

/-- `timers` are the sources that run, with their intervals, and `preparing` counts the calls of
the player that are due. `stray` says that a frame was asked for while the client was stopped,
`freed` that a timer has used the client after its end; the code reads neither. -/
structure State where
  client : Client := {}
  fps : ℤ := 2
  captureSourceId : ℕ := 0
  timers : List (ℕ × ℕ) := []
  preparing : ℕ := 0
  next : ℕ := 1
  destroyed : Bool := false
  stray : Bool := false
  freed : Bool := false
  deriving DecidableEq, Repr

/-- `MSEC_PER_SECOND / fps_`, which the timer takes for unsigned. -/
def interval (fps : ℤ) : ℕ := (Int.tdiv 1000 fps % 2 ^ 32).toNat

namespace State

def ids (s : State) : List ℕ := s.timers.map (·.1)

/-- `g_timeout_add`. A division by zero ends the process: `none`. -/
def timeoutAdd (s : State) : Option State :=
  if s.fps = 0 then none
  else some { s with
    captureSourceId := s.next
    timers := s.timers ++ [(s.next, interval s.fps)]
    next := s.next + 1 }

def sourceRemove (s : State) (id : ℕ) : State :=
  { s with timers := s.timers.filter (·.1 ≠ id) }

def setClient (s : State) (c : Client) : State := { s with client := c }

def start (s : State) (p : Player) : Option State :=
  if s.client.isStart then some s
  else if s.client.display = false then some s
  else
    match p.state with
    | some .idle =>
      if p.prepareAsync then
        some { s with client := s.client.begin, preparing := s.preparing + 1 }
      else some s
    | some .ready | some .paused =>
      if p.start then s.timeoutAdd.map fun t => t.setClient t.client.begin else some s
    | _ => some s

def stop (s : State) : State :=
  if s.client.isStart = false then s
  else { (s.setClient s.client.stop).sourceRemove s.captureSourceId with captureSourceId := 0 }

/-- `PlayerPreparedCB`, which starts the player; it does not look at `is_start`. -/
def playerPrepared (s : State) (start : Bool) : Option State :=
  let t := { s with preparing := s.preparing - 1 }
  if start then t.timeoutAdd else some t

def timeout (s : State) : State :=
  if s.destroyed then { s with freed := true }
  else { s with stray := s.stray || !s.client.isStart }

/-- The destructor. The player is gone with it and calls nothing any more. -/
def destroy (s : State) : State :=
  { s.sourceRemove s.captureSourceId with destroyed := true }

end State

inductive Event where
  | setDisplay (display : Bool) (p : Player)
  | setURI (uri : Bytes) (p : Player)
  | setFPS (fps : ℤ)
  | start (p : Player)
  | stop
  | prepared (start : Bool)
  | timeout (id : ℕ)
  | destroy
  deriving DecidableEq, Repr

def step (s : State) : Event → Option State
  | .timeout id => if id ∈ s.ids then some s.timeout else none
  | .setDisplay display p =>
    if s.destroyed then none else some (s.setClient (s.client.setDisplay display p))
  | .setURI uri p => if s.destroyed then none else some (s.setClient (s.client.setURI uri p))
  | .setFPS fps => if s.destroyed then none else some { s with fps := fps }
  | .start p => if s.destroyed then none else s.start p
  | .stop => if s.destroyed then none else some s.stop
  | .prepared start =>
    if s.destroyed ∨ s.preparing = 0 then none else s.playerPrepared start
  | .destroy => if s.destroyed then none else some s.destroy

def machine : Machine State Event := ⟨{}, step⟩

/-- The player starts after its preparation only for a client that is started and has no timer. -/
def Ok (s : State) : Event → Prop
  | .prepared start => start = true → s.client.isStart = true ∧ s.captureSourceId = 0
  | _ => True

instance (s : State) (e : Event) : Decidable (Ok s e) :=
  match e with
  | .prepared _ => inferInstanceAs (Decidable (_ → _ ∧ _))
  | .setDisplay _ _ | .setURI _ _ | .setFPS _ | .start _ | .stop | .timeout _ | .destroy =>
    isTrue trivial

structure Tidy (s : State) : Prop where
  noted : s.destroyed = false → s.ids = if s.captureSourceId = 0 then [] else [s.captureSourceId]
  started : s.destroyed = false → s.captureSourceId ≠ 0 → s.client.isStart = true
  gone : s.destroyed = true → s.ids = []
  stray : s.stray = false
  freed : s.freed = false

structure Invariant (s : State) : Prop extends Tidy s where
  fresh : s.captureSourceId < s.next

variable {s t : State} {e : Event} {p : Player}

theorem ids_remove (s : State) (id : ℕ) : (s.sourceRemove id).ids = s.ids.filter (· ≠ id) := by
  rw [State.ids, State.ids, List.filter_map]
  rfl

theorem timeoutAdd_ids (h : s.timeoutAdd = some t) : t.ids = s.ids ++ [s.next] := by
  obtain ⟨-, h⟩ := Option.ite_none_left_eq_some.mp h
  cases h
  exact List.map_append

theorem timeoutAdd_eq (h : s.timeoutAdd = some t) :
    t.captureSourceId = s.next ∧ t.next = s.next + 1 ∧ t.client = s.client ∧
      t.destroyed = s.destroyed ∧ t.stray = s.stray ∧ t.freed = s.freed ∧ t.fps = s.fps := by
  obtain ⟨-, h⟩ := Option.ite_none_left_eq_some.mp h
  cases h
  exact ⟨rfl, rfl, rfl, rfl, rfl, rfl, rfl⟩

inductive Started (s : State) (p : Player) : State → Prop where
  | refused (client : s.client.start p = s.client) : Started s p s
  | prepares (stopped : s.client.isStart = false)
      (client : s.client.start p = s.client.begin) :
      Started s p { s with client := s.client.begin, preparing := s.preparing + 1 }
  | plays {u : State} (stopped : s.client.isStart = false)
      (client : s.client.start p = s.client.begin) (added : s.timeoutAdd = some u) :
      Started s p (u.setClient s.client.begin)

theorem started (h : s.start p = some t) : Started s p t := by
  have hclient := start_eq s.client p
  cases hs : s.client.isStart with
  | true =>
    simp only [State.start, hs, if_true] at h
    cases h
    exact .refused (start_of_isStart hs p)
  | false =>
    cases hd : s.client.display with
    | false =>
      simp only [State.start, hs, hd, Bool.false_eq_true, if_false, if_true] at h
      cases h
      exact .refused (by rw [hclient, if_neg (by simp [hd])])
    | true =>
      have hbegin : p.starts = true → s.client.start p = s.client.begin := start_of_starts hs hd
      have hrefused : p.starts = false → s.client.start p = s.client := by
        intro hp
        rw [hclient, if_neg (by simp [hp])]
      simp only [State.start, hs, hd, Bool.false_eq_true, Bool.true_eq_false, if_false] at h
      rcases hp : p.state with - | state
      · simp only [hp] at h
        cases h
        exact .refused (hrefused (by simp [Player.starts, hp]))
      · cases state with
        | none | playing =>
          simp only [hp] at h
          cases h
          exact .refused (hrefused (by simp [Player.starts, hp]))
        | idle =>
          simp only [hp] at h
          cases ha : p.prepareAsync with
          | false =>
            simp only [ha, Bool.false_eq_true, if_false] at h
            cases h
            exact .refused (hrefused (by simp [Player.starts, hp, ha]))
          | true =>
            simp only [ha, if_true] at h
            cases h
            exact .prepares hs (hbegin (by simp [Player.starts, hp, ha]))
        | ready | paused =>
          simp only [hp] at h
          cases ha : p.start with
          | false =>
            simp only [ha, Bool.false_eq_true, if_false] at h
            cases h
            exact .refused (hrefused (by simp [Player.starts, hp, ha]))
          | true =>
            simp only [ha, if_true] at h
            obtain ⟨u, hu, rfl⟩ := Option.map_eq_some_iff.mp h
            rw [(timeoutAdd_eq hu).2.2.1]
            exact .plays hs (hbegin (by simp [Player.starts, hp, ha])) hu

/-- A timer is added for a client that has none. -/
theorem Invariant.timeoutAdd (h : Invariant s) (hd : s.destroyed = false)
    (hc : s.captureSourceId = 0) {c : Client} (hs : c.isStart = true)
    (ht : s.timeoutAdd = some t) : Invariant (t.setClient c) := by
  obtain ⟨hsource, hnext, -, hdestroyed, hstray, hfreed, -⟩ := timeoutAdd_eq ht
  have hids := timeoutAdd_ids ht
  have hnone : s.ids = [] := by rw [h.noted hd, if_pos hc]
  have hlt := h.fresh
  refine ⟨⟨fun _ => ?_, fun _ _ => hs, fun he => ?_, hstray.trans h.stray,
    hfreed.trans h.freed⟩, ?_⟩
  · change t.ids = if t.captureSourceId = 0 then [] else [t.captureSourceId]
    rw [hids, hnone, hsource, if_neg (by omega), List.nil_append]
  · cases (hdestroyed.trans hd).symm.trans he
  · change t.captureSourceId < t.next
    omega

theorem Invariant.unnoted (h : Invariant s) (hd : s.destroyed = false)
    (hs : s.client.isStart = false) : s.captureSourceId = 0 := by
  by_contra hc
  cases hs.symm.trans (h.started hd hc)

/-- A timer that runs finds the client started. -/
theorem Invariant.timeout_eq (h : Invariant s) {id : ℕ} (hi : id ∈ s.ids) : s.timeout = s := by
  have hd : s.destroyed = false := by
    by_contra hd
    rw [h.gone (Bool.not_eq_false _ ▸ hd)] at hi
    cases hi
  have hc : s.captureSourceId ≠ 0 := by
    intro hc
    rw [h.noted hd, if_pos hc] at hi
    cases hi
  rw [State.timeout, if_neg (by simp [hd]), h.started hd hc, Bool.not_true, Bool.or_false]

theorem Invariant.stop (h : Invariant s) (hd : s.destroyed = false) : Invariant s.stop := by
  unfold State.stop
  split
  · exact h
  · refine ⟨⟨fun _ => ?_, fun _ hc => absurd rfl hc, fun he => ?_, h.stray, h.freed⟩,
      Nat.zero_lt_of_lt h.fresh⟩
    · refine (ids_remove (s.setClient s.client.stop) s.captureSourceId).trans ?_
      change s.ids.filter (· ≠ s.captureSourceId) = []
      rw [h.noted hd]
      split <;> simp
    · cases hd.symm.trans he

theorem Invariant.destroy (h : Invariant s) (hd : s.destroyed = false) : Invariant s.destroy := by
  refine ⟨⟨nofun, nofun, fun _ => ?_, h.stray, h.freed⟩, h.fresh⟩
  refine (ids_remove s s.captureSourceId).trans ?_
  rw [h.noted hd]
  split <;> simp

theorem Invariant.start (h : Invariant s) (hd : s.destroyed = false) (ht : Started s p t) :
    Invariant t := by
  cases ht with
  | refused => exact h
  | prepares => exact ⟨⟨h.noted, fun _ _ => rfl, h.gone, h.stray, h.freed⟩, h.fresh⟩
  | plays stopped _ added => exact h.timeoutAdd hd (h.unnoted hd stopped) rfl added

theorem Invariant.prepared (h : Invariant s) (hd : s.destroyed = false) {start : Bool}
    (ho : Ok s (.prepared start)) (ht : s.playerPrepared start = some t) : Invariant t := by
  have hless : Invariant { s with preparing := s.preparing - 1 } := { h with }
  cases start with
  | false =>
    cases ht
    exact hless
  | true =>
    obtain ⟨hs, hc⟩ := ho rfl
    have hclient := (timeoutAdd_eq ht).2.2.1
    exact hless.timeoutAdd hd hc (hclient ▸ hs) ht

theorem Invariant.step (h : Invariant s) (ho : Ok s e) (ht : step s e = some t) :
    Invariant t := by
  cases e with
  | timeout id =>
    obtain ⟨hi, ht⟩ := Option.ite_none_right_eq_some.mp ht
    cases ht
    rw [h.timeout_eq hi]
    exact h
  | setDisplay display p =>
    obtain ⟨-, ht⟩ := Option.ite_none_left_eq_some.mp ht
    cases ht
    exact ⟨⟨h.noted, fun hd hc => (setDisplay_isStart ..).trans (h.started hd hc), h.gone,
      h.stray, h.freed⟩, h.fresh⟩
  | setURI uri p =>
    obtain ⟨-, ht⟩ := Option.ite_none_left_eq_some.mp ht
    cases ht
    exact ⟨⟨h.noted, fun hd hc => (setURI_isStart ..).trans (h.started hd hc), h.gone,
      h.stray, h.freed⟩, h.fresh⟩
  | setFPS fps =>
    obtain ⟨-, ht⟩ := Option.ite_none_left_eq_some.mp ht
    cases ht
    exact { h with }
  | start p =>
    obtain ⟨hd, ht⟩ := Option.ite_none_left_eq_some.mp ht
    exact h.start (Bool.not_eq_true _ ▸ hd) (started ht)
  | stop =>
    obtain ⟨hd, ht⟩ := Option.ite_none_left_eq_some.mp ht
    cases ht
    exact h.stop (Bool.not_eq_true _ ▸ hd)
  | prepared start =>
    obtain ⟨hd, ht⟩ := Option.ite_none_left_eq_some.mp ht
    exact h.prepared (Bool.not_eq_true _ ▸ (not_or.mp hd).1) ho ht
  | destroy =>
    obtain ⟨hd, ht⟩ := Option.ite_none_left_eq_some.mp ht
    cases ht
    exact h.destroy (Bool.not_eq_true _ ▸ hd)

theorem Invariant.reaches (h : machine.Reaches Ok s) : Invariant s := by
  refine h.invariant ?_ fun _ _ _ _ hi ho ht => hi.step ho ht
  exact ⟨⟨fun _ => rfl, fun _ hc => absurd rfl hc, nofun, rfl, rfl⟩, Nat.one_pos⟩

structure Leaked (id : ℕ) (s : State) : Prop where
  runs : id ∈ s.ids
  given : 0 < id ∧ id < s.next
  forgotten : s.destroyed = false → s.captureSourceId ≠ id

variable {id : ℕ}

theorem Leaked.timeoutAdd (h : Leaked id s) (ht : s.timeoutAdd = some t) (c : Client) :
    Leaked id (t.setClient c) := by
  obtain ⟨hsource, hnext, -⟩ := timeoutAdd_eq ht
  obtain ⟨hpos, hlt⟩ := h.given
  refine ⟨?_, ⟨hpos, ?_⟩, fun _ => ?_⟩
  · change id ∈ t.ids
    rw [timeoutAdd_ids ht]
    exact List.mem_append_left _ h.runs
  · change id < t.next
    omega
  · change t.captureSourceId ≠ id
    omega

theorem Leaked.sourceRemove (h : Leaked id s) (hd : s.destroyed = false) :
    id ∈ (s.sourceRemove s.captureSourceId).ids := by
  rw [ids_remove]
  exact List.mem_filter.mpr ⟨h.runs, decide_eq_true (h.forgotten hd).symm⟩

theorem Leaked.step (h : Leaked id s) (ht : step s e = some t) : Leaked id t := by
  cases e with
  | timeout id =>
    obtain ⟨-, ht⟩ := Option.ite_none_right_eq_some.mp ht
    cases ht
    unfold State.timeout
    split
    · exact { h with }
    · exact { h with }
  | setDisplay display p | setURI uri p | setFPS fps =>
    obtain ⟨-, ht⟩ := Option.ite_none_left_eq_some.mp ht
    cases ht
    exact { h with }
  | start p =>
    obtain ⟨-, ht⟩ := Option.ite_none_left_eq_some.mp ht
    cases started ht with
    | refused => exact h
    | prepares => exact { h with }
    | plays _ _ added => exact h.timeoutAdd added _
  | stop =>
    obtain ⟨hd, ht⟩ := Option.ite_none_left_eq_some.mp ht
    cases ht
    unfold State.stop
    split
    · exact h
    · exact ⟨h.sourceRemove (Bool.not_eq_true _ ▸ hd), h.given, fun _ => h.given.1.ne⟩
  | prepared start =>
    obtain ⟨-, ht⟩ := Option.ite_none_left_eq_some.mp ht
    have hless : Leaked id { s with preparing := s.preparing - 1 } := { h with }
    cases start with
    | false =>
      cases ht
      exact hless
    | true => exact hless.timeoutAdd ht t.client
  | destroy =>
    obtain ⟨hd, ht⟩ := Option.ite_none_left_eq_some.mp ht
    cases ht
    exact ⟨h.sourceRemove (Bool.not_eq_true _ ▸ hd), h.given, nofun⟩

theorem Leaked.exec (h : Leaked id s) {es : List Event} (ht : machine.exec s es = some t) :
    Leaked id t :=
  Machine.exec_history (P := fun _ u => Leaked id u) (l := []) ht h
    fun _ _ _ _ _ hu he => hu.step he

/-- A timer that has leaked uses the client after its end. -/
theorem Leaked.freed (h : Leaked id s) (hd : s.destroyed = true) :
    ∃ t, RtspCapture.step s (.timeout id) = some t ∧ t.freed = true := by
  refine ⟨s.timeout, if_pos h.runs, ?_⟩
  rw [State.timeout, if_pos hd]

/-- The player starts for a client that has stopped, or for one that has a timer already. -/
theorem Invariant.untidy (h : Invariant s) (hn : ¬ Ok s e) (ht : RtspCapture.step s e = some t) :
    if s.client.isStart then ∃ id, Leaked id t
    else ∃ id u, RtspCapture.step t (.timeout id) = some u ∧ u.stray = true := by
  cases e with
  | prepared start =>
    obtain ⟨rfl, hbad⟩ := Classical.not_imp.mp hn
    obtain ⟨hd, ht⟩ := Option.ite_none_left_eq_some.mp ht
    have hd : s.destroyed = false := Bool.not_eq_true _ ▸ (not_or.mp hd).1
    have hids := timeoutAdd_ids ht
    obtain ⟨hsource, hnext, hclient, hdestroyed, -⟩ := timeoutAdd_eq ht
    have hlt := h.fresh
    split
    · rename_i hs
      have hc : s.captureSourceId ≠ 0 := fun hc => hbad ⟨hs, hc⟩
      refine ⟨s.captureSourceId, ?_, ⟨Nat.pos_of_ne_zero hc, ?_⟩, fun _ => ?_⟩
      · rw [hids]
        refine List.mem_append_left _ ?_
        change s.captureSourceId ∈ s.ids
        rw [h.noted hd, if_neg hc]
        exact List.mem_singleton_self _
      · rw [hnext]
        exact Nat.lt_succ_of_lt hlt
      · rw [hsource]
        exact hlt.ne'
    · rename_i hs
      refine ⟨s.next, t.timeout, if_pos ?_, ?_⟩
      · rw [hids]
        exact List.mem_append_right _ (List.mem_singleton_self _)
      · rw [State.timeout, if_neg (by simp [hdestroyed, hd]), hclient]
        simp [hs]
  | _ => exact absurd trivial hn

theorem exists_started (hf : s.fps ≠ 0) (p : Player) : ∃ t, s.start p = some t ∧
    t.client = s.client.start p ∧ t.destroyed = s.destroyed ∧ t.fps = s.fps := by
  have hadd : ∃ u, s.timeoutAdd = some u := ⟨_, if_neg hf⟩
  obtain ⟨t, ht⟩ : ∃ t, s.start p = some t := by
    obtain ⟨u, hu⟩ := hadd
    unfold State.start
    rw [hu]
    repeat' split
    all_goals exact ⟨_, rfl⟩
  refine ⟨t, ht, ?_⟩
  cases started ht with
  | refused client => exact ⟨client.symm, rfl, rfl⟩
  | prepares _ client => exact ⟨client.symm, rfl, rfl⟩
  | plays _ client added =>
    obtain ⟨-, -, -, hdestroyed, -, -, hfps⟩ := timeoutAdd_eq added
    exact ⟨client.symm, hdestroyed, hfps⟩

theorem stop_client (s : State) : s.stop.client = s.client.stop := by
  unfold State.stop
  split
  · rename_i hs
    rw [Client.stop, ← hs]
  · rfl

structure Drives (s : State) (c : Client) : Prop where
  client : s.client = c
  alive : s.destroyed = false
  rate : s.fps ≠ 0

variable {c : Client}

theorem Drives.setDisplay (h : Drives s c) (display : Bool) (p : Player) :
    ∃ t, step s (.setDisplay display p) = some t ∧ Drives t (c.setDisplay display p) :=
  ⟨_, if_neg (by simp [h.alive]), congrArg (·.setDisplay display p) h.client, h.alive, h.rate⟩

theorem Drives.setURI (h : Drives s c) (uri : Bytes) (p : Player) :
    ∃ t, step s (.setURI uri p) = some t ∧ Drives t (c.setURI uri p) :=
  ⟨_, if_neg (by simp [h.alive]), congrArg (·.setURI uri p) h.client, h.alive, h.rate⟩

theorem Drives.start (h : Drives s c) (p : Player) :
    ∃ t, step s (.start p) = some t ∧ Drives t (c.start p) := by
  obtain ⟨t, ht, hclient, halive, hrate⟩ := exists_started h.rate p
  refine ⟨t, ?_, hclient.trans (congrArg (·.start p) h.client), halive.trans h.alive,
    hrate ▸ h.rate⟩
  exact (if_neg (by simp [h.alive])).trans ht

theorem Drives.stop (h : Drives s c) : ∃ t, step s .stop = some t ∧ Drives t c.stop := by
  refine ⟨s.stop, if_neg (by simp [h.alive]),
    (stop_client s).trans (congrArg Client.stop h.client), ?_, ?_⟩
  · unfold State.stop
    split <;> exact h.alive
  · unfold State.stop
    split <;> exact h.rate

/-- What the module does at a step are calls of its client. -/
theorem Drives.followed {m n : Module} (h : Drives s m.client) (hf : Followed m p n) :
    ∃ es t, machine.exec s es = some t ∧ Drives t n.client := by
  cases hf with
  | starts =>
    obtain ⟨t, ht, hd⟩ := h.start p
    exact ⟨[.start p], t, Option.bind_eq_some_iff.mpr ⟨t, ht, rfl⟩, hd⟩
  | stops =>
    obtain ⟨t, ht, hd⟩ := h.stop
    exact ⟨[.stop], t, Option.bind_eq_some_iff.mpr ⟨t, ht, rfl⟩, hd⟩
  | stays => exact ⟨[], s, rfl, h⟩

theorem Drives.stepped [Package] {m m' : RtspModule.State} {e : RtspModule.Event}
    (h : Drives s m.module.client) (hs : Stepped m e m') :
    ∃ es t, machine.exec s es = some t ∧ Drives t m'.module.client := by
  cases hs with
  | @setConfig display p =>
    obtain ⟨t, ht, hd⟩ := h.setDisplay display p
    exact ⟨[.setDisplay display p], t, Option.bind_eq_some_iff.mpr ⟨t, ht, rfl⟩, hd⟩
  | @start p =>
    obtain ⟨t, ht, hd⟩ := h.start p
    exact ⟨[.start p], t, Option.bind_eq_some_iff.mpr ⟨t, ht, rfl⟩, hd⟩
  | stop =>
    obtain ⟨t, ht, hd⟩ := h.stop
    exact ⟨[.stop], t, Option.bind_eq_some_iff.mpr ⟨t, ht, rfl⟩, hd⟩
  | wait | quit | interrupted => exact ⟨[], s, rfl, h⟩
  | discovery discovered =>
    cases discovered with
    | stopped =>
      obtain ⟨t, ht, hd⟩ := h.stop
      exact ⟨[.stop], t, Option.bind_eq_some_iff.mpr ⟨t, ht, rfl⟩, hd⟩
    | reset | rejected => exact ⟨[], s, rfl, h⟩
    | @accepted _ _ uri _ _ _ _ followed =>
      obtain ⟨t, ht, hd⟩ := h.setURI uri _
      obtain ⟨es, u, hu, hd⟩ := Drives.followed hd followed
      exact ⟨.setURI uri _ :: es, u, Option.bind_eq_some_iff.mpr ⟨t, ht, hu⟩, hd⟩

/-- The client of a subscriber's module goes through a run of calls. -/
theorem module_reaches [Package] {m : RtspModule.State} (h : RtspModule.machine.Reachable m) :
    ∃ s, machine.Reachable s ∧ Drives s m.module.client := by
  induction h with
  | initial => exact ⟨{}, .initial, rfl, rfl, by decide⟩
  | step hm _ hs ih =>
    obtain ⟨s, hr, hd⟩ := ih
    obtain ⟨es, t, ht, hd⟩ := hd.stepped (stepped (informed hm).role hs)
    exact ⟨t, Machine.Reaches.exec hr ht, hd⟩

/-- While the player only starts, after its preparation, for a client that is started and has no
timer, the timer that the client has noted runs while it is started and no other. Any other such
start has frames asked for while the client is stopped, or leaves a timer that runs for ever and
uses the client after its end. -/
theorem capture_timer_follows_client (h : machine.Reaches Ok s) :
    (s.destroyed = false →
      s.ids = (if s.captureSourceId = 0 then [] else [s.captureSourceId]) ∧
        (s.ids ≠ [] → s.client.isStart = true)) ∧
      (s.destroyed = true → s.ids = []) ∧ s.stray = false ∧ s.freed = false ∧
      ∀ e t, ¬ Ok s e → machine.step s e = some t →
        if s.client.isStart then
          ∃ id, ∀ es u, machine.exec t es = some u → id ∈ u.ids ∧
            (u.destroyed = true → ∃ v, machine.step u (.timeout id) = some v ∧ v.freed = true)
        else ∃ id u, machine.step t (.timeout id) = some u ∧ u.stray = true := by
  have hi := Invariant.reaches h
  refine ⟨fun hd => ⟨hi.noted hd, fun hne => hi.started hd fun hc => ?_⟩, hi.gone, hi.stray,
    hi.freed, fun e t hn ht => ?_⟩
  · rw [hi.noted hd, if_pos hc] at hne
    exact hne rfl
  · have huntidy := hi.untidy hn ht
    split at huntidy
    · rename_i hs
      obtain ⟨id, hleaked⟩ := huntidy
      rw [if_pos hs]
      exact ⟨id, fun es u hu => ⟨(hleaked.exec hu).runs, (hleaked.exec hu).freed⟩⟩
    · rename_i hs
      rw [if_neg hs]
      exact huntidy

def stoppedEarly : List Event :=
  [.setDisplay true {}, .start {}, .stop]

theorem capture_timer_follows_client_stopped :
    (∃ s, machine.Reaches Ok s ∧ s.client.isStart = true ∧ s.ids = [1]) ∧
      ∃ s t, machine.Reaches Ok s ∧ machine.step s (.prepared true) = some t ∧
        ∃ id u, machine.step t (.timeout id) = some u ∧ u.stray = true := by
  constructor
  · obtain ⟨s, hr, hs⟩ := machine.exists_reaches Ok
      [.setDisplay true {}, .start {}, .prepared true, .timeout 1]
      (fun s => !s.destroyed && s.captureSourceId = 1) (by decide +kernel)
    simp only [Bool.and_eq_true, Bool.not_eq_true', decide_eq_true_eq] at hs
    obtain ⟨hd, hc⟩ := hs
    obtain ⟨hids, hstart⟩ := (capture_timer_follows_client hr).1 hd
    rw [hc] at hids
    exact ⟨s, hr, hstart (by simp [hids]), by simpa using hids⟩
  · obtain ⟨s, hr, hs⟩ := machine.exists_reaches Ok stoppedEarly
      (fun s => !s.client.isStart && (machine.step s (.prepared true)).isSome)
      (by decide +kernel)
    simp only [Bool.and_eq_true, Bool.not_eq_true'] at hs
    obtain ⟨hstopped, hstep⟩ := hs
    obtain ⟨t, ht⟩ := Option.isSome_iff_exists.mp hstep
    have hn : ¬ Ok s (.prepared true) := fun ho => by
      cases hstopped.symm.trans (ho rfl).1
    have hbad := (capture_timer_follows_client hr).2.2.2.2 _ t hn ht
    rw [if_neg (by simp [hstopped])] at hbad
    exact ⟨s, t, hr, ht, hbad⟩

end RtspCapture
