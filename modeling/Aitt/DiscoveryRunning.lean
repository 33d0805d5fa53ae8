import Aitt.AittDiscovery
import Mathlib.Tactic.Common

/-! `is_running` against the connection events. The callback of `Start` clears the flag on
every event other than `AITT_CONNECTED` and nothing sets it again, and the last statement
of `Start` sets it whatever the callback has seen by then. -/
namespace DiscoveryRunning

open AittTypes TransitionRuns AittDiscovery

/-- No event yet, or the last one was `AITT_CONNECTED`. -/
def Online (latest : Option AittConnectionState) : Prop :=
  latest = none ∨ latest = some .connected

instance (latest : Option AittConnectionState) : Decidable (Online latest) :=
  inferInstanceAs (Decidable (_ ∨ _))

def allProtocols : UInt32 := 7

/-- `AITT::Impl::Publish` up to the transports it calls, which it does in this order. -/
def publish (s : State) (protocols : UInt32) : Except ErrCode (List AittProtocol) :=
  if s.isRunning = false then .error .invalidState
  else if protocols &&& ~~~allProtocols ≠ 0 then .error .invalidArg
  else .ok <|
    (if protocols &&& 1 = 1 then [.mqtt] else []) ++
    (if protocols &&& 2 = 2 then [.tcp] else []) ++
    (if protocols &&& 4 = 4 then [.tcpSecure] else [])

structure RunningTracks (s : State) : Prop where
  tracks : s.history.started = true → (s.isRunning = true ↔ Online s.history.latest)
  refuses : s.history.started = true → ∀ protocols,
    publish s protocols = .error .invalidState → ¬ Online s.history.latest

theorem publish_refuses_iff (s : State) (protocols : UInt32) :
    publish s protocols = .error .invalidState ↔ s.isRunning = false := by
  constructor
  · intro h
    by_contra hr
    simp only [publish, if_neg hr] at h
    split at h <;> cases h
  · intro hr
    simp only [publish, if_pos hr]

theorem runningTracks_iff (s : State) :
    RunningTracks s ↔
      (s.history.started = true → (s.isRunning = true ↔ Online s.history.latest)) := by
  constructor
  · exact fun h => h.tracks
  · intro h
    refine ⟨h, fun hs protocols he ho => ?_⟩
    have hr := (publish_refuses_iff s protocols).mp he
    have hr' := (h hs).mpr ho
    rw [hr] at hr'
    cases hr'

/-- The last assignment of `Start` comes while no loss has been reported to it, and a
reconnection is not reported to a started client. -/
def Allowed (s : State) : Event → Prop
  | .advance _ _ => s.control.statement = some .startRunning → Online s.history.pending
  | .connection .connected _ _ =>
    s.connectCb = true → s.history.started = true → Online s.history.latest
  | _ => True

instance (s : State) (e : Event) : Decidable (Allowed s e) :=
  match e with
  | .advance _ _ => inferInstanceAs (Decidable (_ = _ → _))
  | .connection .connected _ _ => inferInstanceAs (Decidable (_ = _ → _ = _ → _))
  | .connection .disconnected _ _ | .connection .connectFailed _ _ | .call _ | .update _ _
  | .build _ | .publish _ _ => inferInstanceAs (Decidable True)

/-- The property only reads the flag and two entries of the history. -/
theorem RunningTracks.of_same {s t : State} (h : RunningTracks s)
    (hs : t.history.started = s.history.started) (hr : t.isRunning = s.isRunning)
    (hl : t.history.latest = s.history.latest) : RunningTracks t := by
  rw [runningTracks_iff, hs, hr, hl]
  exact h.tracks

theorem resume_tracks_iff (caller : Caller) (t : State) (flow : Flow) :
    RunningTracks (resume caller (t, flow)) ↔ RunningTracks t := by
  rw [runningTracks_iff, runningTracks_iff]
  cases flow <;> rfl

/-- Only two statements write the flag; the one of `Start` may contradict the events. -/
theorem exec_tracks_iff {s t : State} {ret : Bool} {cell : Address} {pc : Statement}
    {flow : Flow} (h : Exec s ret cell pc t flow) (hi : RunningTracks s) :
    RunningTracks t ↔ (pc = .startRunning → Online s.history.pending) := by
  cases h with
  | running => simp [runningTracks_iff, State.note]
  | stopBegins => simp [runningTracks_iff, State.note]
  | _ => exact iff_of_true (hi.of_same rfl rfl rfl) (fun h => nomatch h)

theorem connectionStatus_tracks {s : State} (hi : RunningTracks s)
    (status : AittConnectionState) : RunningTracks (connectionStatus s status) := by
  cases status <;> exact hi.of_same rfl rfl rfl

theorem allowed_connected_iff {s : State} (hb : s.connectCb = true) (ret : Bool)
    (cell : Address) :
    Allowed s (.connection .connected ret cell) ↔
      (s.history.started = true → Online s.history.latest) := by
  simp only [Allowed, hb, true_implies]

/-- After `AITT_CONNECTED` the flag is what it was before. -/
theorem connected_tracks_iff {s t : State} (hi : RunningTracks s)
    (hs : t.history.started = s.history.started) (hr : t.isRunning = s.isRunning)
    (hl : t.history.latest = some .connected) :
    RunningTracks t ↔ (s.history.started = true → Online s.history.latest) := by
  rw [runningTracks_iff, hs, hr, hl]
  have hc : Online (some .connected) := Or.inr rfl
  constructor
  · intro h hst
    exact (hi.tracks hst).mp ((h hst).mpr hc)
  · intro h hst
    exact iff_of_true ((hi.tracks hst).mpr (h hst)) hc

theorem step_tracks_iff {s t : State} {e : Event} (h : Step s e t) (hi : RunningTracks s) :
    RunningTracks t ↔ Allowed s e := by
  cases h with
  | call => exact iff_of_true (hi.of_same rfl rfl rfl) trivial
  | @statement pc caller ret cell t flow hc h =>
    rw [resume_tracks_iff, exec_tracks_iff h hi]
    simp only [Allowed, hc, Control.statement, Option.some.injEq]
  | mqConnected hc =>
    exact iff_of_true (hi.of_same rfl rfl rfl) (by simp [Allowed, hc, Control.statement])
  | elsewhere hn ht hc =>
    refine iff_of_true (hi.of_same rfl rfl rfl) fun hp => ?_
    cases hs : s.control with
    | discovery pc caller => exact absurd hs (hn pc caller)
    | _ => simp [hs, Control.statement] at hp
  | @unheard status ret cell hl hb =>
    refine iff_of_true (connectionStatus_tracks hi status) ?_
    cases status <;> simp [Allowed, hb]
  | @lost status ret cell hl hb hs =>
    have ht : Allowed s (.connection status ret cell) := by
      cases status with
      | connected => exact absurd rfl hs
      | _ => trivial
    refine iff_of_true ?_ ht
    rw [runningTracks_iff]
    intro _
    refine iff_of_false Bool.false_ne_true ?_
    rintro (h | h)
    · cases h
    · exact hs (Option.some.inj h)
  | subscribed ht hl hb hz ha =>
    rw [allowed_connected_iff hb]
    exact connected_tracks_iff hi rfl rfl rfl
  | terminated hl hb hz =>
    rw [allowed_connected_iff hb]
    exact connected_tracks_iff hi rfl rfl rfl
  | known hl hb hz =>
    rw [allowed_connected_iff hb]
    exact connected_tracks_iff hi rfl rfl rfl
  | update => exact iff_of_true (hi.of_same rfl rfl rfl) trivial
  | build => exact iff_of_true (hi.of_same rfl rfl rfl) trivial
  | publish => exact iff_of_true (hi.of_same rfl rfl rfl) trivial

/-- Along runs that meet the condition the flag is the truth about the connection, and the
next step of such a run keeps it so exactly when that step meets the condition too. -/
theorem running_tracks_connection {s : State} (h : machine.Reaches Allowed s) :
    RunningTracks s ∧
      ∀ e t, machine.step s e = some t → (RunningTracks t ↔ Allowed s e) := by
  have hi : RunningTracks s := by
    refine h.invariant ((runningTracks_iff _).mpr fun hs => nomatch hs) ?_
    intro s e t _ hi ho he
    exact (step_tracks_iff (step_cases he) hi).mpr ho
  exact ⟨hi, fun e t he => step_tracks_iff (step_cases he) hi⟩

def startAndConnect : List Event :=
  [.call .connect] ++ List.replicate 5 (.advance true 0) ++
    [.connection .connected true 1, .advance true 0]

theorem running_tracks_connection_after_connect :
    ∃ s, machine.Reaches Allowed s ∧ s.history.latest = some .connected ∧
      s.isRunning = true ∧ RunningTracks s := by
  obtain ⟨s, hr, hp⟩ := machine.exists_reaches Allowed startAndConnect
    (fun s => s.history.latest = some .connected ∧ s.isRunning = true) (by decide)
  obtain ⟨hl, hrun⟩ := of_decide_eq_true hp
  exact ⟨s, hr, hl, hrun, (running_tracks_connection hr).1⟩

def lossAndReconnect : List Event :=
  startAndConnect ++ [.connection .disconnected true 0, .connection .connected true 0]

/-- After a loss and the automatic reconnection `Publish` still refuses. -/
theorem reconnected_client_refuses_to_publish :
    ∃ s, machine.Reachable s ∧ s.history.started = true ∧
      s.history.latest = some .connected ∧ s.isRunning = false ∧
      publish s 1 = .error .invalidState ∧ ¬ RunningTracks s := by
  obtain ⟨s, hr, hp⟩ := machine.exists_reachable lossAndReconnect
    (fun s => s.history.started = true ∧ s.history.latest = some .connected ∧
      s.isRunning = false) (by decide)
  obtain ⟨hs, hl, hrun⟩ := of_decide_eq_true hp
  refine ⟨s, hr, hs, hl, hrun, (publish_refuses_iff s 1).mpr hrun, fun ht => ?_⟩
  have hrun' := (ht.tracks hs).mpr (Or.inr hl)
  rw [hrun] at hrun'
  cases hrun'

end DiscoveryRunning
