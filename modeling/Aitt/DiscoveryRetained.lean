import Aitt.AittDiscovery
import Mathlib.Tactic.Common

/-! The broker's retained copy of the discovery message. Only `UpdateDiscoveryMsg` publishes
the map, so a connection that comes up again after the will or `Stop` has cleared the copy
leaves it empty, and two overlapping updates may publish in the wrong order. -/
namespace DiscoveryRetained

open AittTypes TransitionRuns AittDiscovery

/-- Started, connected and no `UpdateDiscoveryMsg` under way. -/
def RetainedCurrent (s : State) : Prop :=
  s.history.started = true → s.linkUp = true → s.calls = [] → s.discoveryMap ≠ [] →
    s.retained = some (discoveryMsg s.discoveryMap)

/-- A started client comes online with an empty map or with an update still to publish it,
no update of the map falls between the build and the publication of another, and
`mosquitto_publish` succeeds on a connected client. -/
def Allowed (s : State) : Event → Prop
  | .connection .connected _ _ =>
    s.history.opened = true → s.linkUp = false → s.discoveryMap = [] ∨ s.calls ≠ []
  | .update _ _ => ∀ call ∈ s.calls, call.isBuilt = false
  | .publish _ ret => s.linkUp = true → ret = true
  | _ => True

instance (s : State) (e : Event) : Decidable (Allowed s e) := by
  unfold Allowed
  split <;> infer_instance

structure Kept (s : State) : Prop where
  built : ∀ msg, .built msg ∈ s.calls → msg = discoveryMsg s.discoveryMap
  current : s.history.opened = true → s.linkUp = true → s.discoveryMap ≠ [] →
    s.calls ≠ [] ∨ s.retained = some (discoveryMsg s.discoveryMap)
  started : s.history.started = true → s.history.opened = true

def Stopping : Statement → Prop
  | .stopSetConnectionCallback => True
  | .stopUnsubscribe => True
  | .stopPublishExactlyOnce => True
  | .stopPublishAtMostOnce => True
  | .stopClearHandle => True
  | .stopDisconnect => True
  | _ => False

structure Placed (pc : Option Statement) (opened : Bool) : Prop where
  running : pc = some .startRunning → opened = true
  stopping : ∀ p, pc = some p → Stopping p → opened = false

theorem placed_nowhere (opened : Bool) : Placed none opened := by
  constructor <;> simp

theorem Kept.of_same {s t : State} (h : Kept s) (hc : t.calls = s.calls)
    (hm : t.discoveryMap = s.discoveryMap) (hr : t.retained = s.retained)
    (hl : t.linkUp = s.linkUp) (ho : t.history.opened = s.history.opened)
    (hs : t.history.started = s.history.started) : Kept t := by
  constructor
  · rw [hc, hm]; exact h.built
  · rw [ho, hl, hm, hc, hr]; exact h.current
  · rw [hs, ho]; exact h.started

/-- Offline, or before `Start` has connected, nothing is asked of the broker's copy. -/
theorem Kept.of_quiet {s t : State} (h : Kept s) (hc : t.calls = s.calls)
    (hm : t.discoveryMap = s.discoveryMap)
    (hq : t.linkUp = false ∨ t.history.opened = false)
    (hs : t.history.started = true → t.history.opened = true) : Kept t := by
  refine ⟨by rw [hc, hm]; exact h.built, fun ho hl => ?_, hs⟩
  rcases hq with hq | hq
  · rw [hq] at hl; cases hl
  · rw [hq] at ho; cases ho

theorem Kept.exec {s t : State} {ret : Bool} {cell : Address} {pc : Statement} {flow : Flow}
    (h : Exec s ret cell pc t flow) (hk : Kept s) (hp : Placed (some pc) s.history.opened) :
    Kept t := by
  cases h with
  | connects => exact hk.of_quiet rfl rfl (Or.inl rfl) fun _ => rfl
  | connectFails => exact hk.of_quiet rfl rfl (Or.inl rfl) hk.started
  | running => exact ⟨hk.built, hk.current, fun _ => hp.running rfl⟩
  | stopBegins => exact hk.of_quiet rfl rfl (Or.inr rfl) fun h => nomatch h
  | emptiedExactlyOnce =>
    exact hk.of_quiet rfl rfl (Or.inr (hp.stopping _ rfl trivial)) hk.started
  | emptiedAtMostOnce =>
    exact hk.of_quiet rfl rfl (Or.inr (hp.stopping _ rfl trivial)) hk.started
  | disconnected => exact hk.of_quiet rfl rfl (Or.inl rfl) hk.started
  | _ => exact hk.of_same rfl rfl rfl rfl rfl rfl

theorem Placed.exec {s t : State} {ret : Bool} {cell : Address} {pc : Statement} {flow : Flow}
    (h : Exec s ret cell pc t flow) (hp : Placed (some pc) s.history.opened) :
    Placed (flow.statement) t.history.opened := by
  have hstop := hp.stopping pc rfl
  cases h <;> constructor <;>
    simp_all [Flow.statement, Stopping, State.note, State.stopEnds, State.drop]

structure Invariant (s : State) : Prop where
  kept : Kept s
  placed : Placed s.control.statement s.history.opened

theorem invariant_initial : Invariant initial := by
  refine ⟨⟨fun _ h => ?_, fun h => ?_, fun h => ?_⟩, placed_nowhere _⟩ <;> cases h

theorem invariant_statement {s t : State} {ret : Bool} {cell : Address} {pc : Statement}
    {caller : Caller} {flow : Flow} (hi : Invariant s) (hc : s.control = .discovery pc caller)
    (h : Exec s ret cell pc t flow) : Invariant (resume caller (t, flow)) := by
  have hp : Placed (some pc) s.history.opened := by
    have := hi.placed
    rwa [hc] at this
  have hk := hi.kept.exec h hp
  refine ⟨?_, ?_⟩
  · cases flow <;> exact hk.of_same rfl rfl rfl rfl rfl rfl
  · have hp' := hp.exec h
    rw [resume_statement]
    cases flow <;> exact hp'

/-- A connection event changes the copy only by taking the link down. -/
theorem Kept.connectionStatus {s : State} (hk : Kept s) (status : AittConnectionState)
    (hok : status = .connected → s.history.opened = true → s.linkUp = false →
      s.discoveryMap = [] ∨ s.calls ≠ []) :
    Kept (AittDiscovery.connectionStatus s status) := by
  cases status with
  | disconnected => exact hk.of_quiet rfl rfl (Or.inl rfl) hk.started
  | connectFailed => exact hk.of_quiet rfl rfl (Or.inl rfl) hk.started
  | connected =>
    refine ⟨hk.built, fun ho _ hm => ?_, hk.started⟩
    cases hl : s.linkUp with
    | true => exact hk.current ho hl hm
    | false =>
      rcases hok rfl ho hl with he | hc
      · exact absurd he hm
      · exact Or.inl hc

/-- The callback itself leaves the map, the calls and the broker alone. -/
theorem Invariant.connection {s t : State} (hi : Invariant s) (status : AittConnectionState)
    (hok : status = .connected → s.history.opened = true → s.linkUp = false →
      s.discoveryMap = [] ∨ s.calls ≠ [])
    (hc : t.calls = (connectionStatus s status).calls)
    (hm : t.discoveryMap = (connectionStatus s status).discoveryMap)
    (hr : t.retained = (connectionStatus s status).retained)
    (hl : t.linkUp = (connectionStatus s status).linkUp)
    (ho : t.history.opened = (connectionStatus s status).history.opened)
    (hs : t.history.started = (connectionStatus s status).history.started)
    (hp : t.control.statement = s.control.statement ∨ t.control.statement = none) :
    Invariant t := by
  refine ⟨(hi.kept.connectionStatus status hok).of_same hc hm hr hl ho hs, ?_⟩
  rw [ho, connectionStatus_history]
  rcases hp with hp | hp
  · rw [hp]; exact hi.placed
  · rw [hp]; exact placed_nowhere _

theorem kept_update {s : State} (hk : Kept s) (protocol : String) (blob : Bytes)
    (hb : ∀ call ∈ s.calls, call.isBuilt = false) :
    Kept { s with
      discoveryMap := emplace s.discoveryMap protocol blob
      calls := s.calls ++ [.updated] } := by
  refine ⟨fun msg hm => ?_, fun _ _ _ => Or.inl (by simp), hk.started⟩
  rcases List.mem_append.mp hm with hm | hm
  · exact absurd (hb _ hm) (by simp [UpdateCall.isBuilt])
  · simp at hm

theorem kept_build {s : State} (hk : Kept s) {i : ℕ} (hi : s.calls[i]? = some .updated) :
    Kept { s with calls := s.calls.set i (.built (discoveryMsg s.discoveryMap)) } := by
  have hne : s.calls ≠ [] := by
    rintro he
    simp [he] at hi
  refine ⟨fun msg hm => ?_, fun _ _ _ => Or.inl (by simpa using hne), hk.started⟩
  rcases List.mem_or_eq_of_mem_set hm with hm | hm
  · exact hk.built msg hm
  · simpa using hm

theorem kept_publish {s : State} (hk : Kept s) {i : ℕ} {ret : Bool} {msg : DiscoveryMsg}
    (hi : s.calls[i]? = some (.built msg)) (hr : s.linkUp = true → ret = true) :
    Kept { s with
      calls := s.calls.eraseIdx i
      retained := if ret then some msg else s.retained } := by
  refine ⟨fun m hm => hk.built m (List.mem_of_mem_eraseIdx hm), fun _ hl _ => Or.inr ?_,
    hk.started⟩
  simp only [hr hl, if_true]
  rw [hk.built msg (List.mem_of_getElem? hi)]

theorem invariant_step {s t : State} {e : Event} (hi : Invariant s) (hok : Allowed s e)
    (h : Step s e t) : Invariant t := by
  cases h with
  | @call c hc =>
    refine ⟨hi.kept.of_same rfl rfl rfl rfl rfl rfl, ?_⟩
    cases c <;> constructor <;> simp [Call.entry, Control.statement, Stopping]
  | statement hc h => exact invariant_statement hi hc h
  | mqConnected => exact ⟨hi.kept.of_same rfl rfl rfl rfl rfl rfl, placed_nowhere _⟩
  | elsewhere hn ht hc =>
    refine ⟨hi.kept.of_same rfl rfl rfl rfl rfl rfl, ?_⟩
    cases hc <;> constructor <;> simp [Control.statement, Stopping]
  | @unheard status ret cell =>
    refine hi.connection status ?_ rfl rfl rfl rfl rfl rfl ?_
    · rintro rfl; exact hok
    · rw [connectionStatus_control]; exact Or.inl rfl
  | @lost status ret cell hl hb hs =>
    refine hi.connection status (fun he => absurd he hs) rfl rfl rfl rfl rfl rfl ?_
    simp only [noteStatus, State.note, connectionStatus_control, true_or]
  | subscribed =>
    exact hi.connection .connected (fun _ => hok) rfl rfl rfl rfl rfl rfl (Or.inl rfl)
  | terminated =>
    exact hi.connection .connected (fun _ => hok) rfl rfl rfl rfl rfl rfl (Or.inr rfl)
  | known =>
    exact hi.connection .connected (fun _ => hok) rfl rfl rfl rfl rfl rfl (Or.inl rfl)
  | update => exact ⟨kept_update hi.kept _ _ hok, hi.placed⟩
  | build hb => exact ⟨kept_build hi.kept hb, hi.placed⟩
  | publish hb hl => exact ⟨kept_publish hi.kept hb hok, hi.placed⟩

/-- In runs that meet the condition the broker holds the encoding of the current map
whenever the client is started and connected and no update is under way. -/
theorem retained_message_is_current {s : State} (h : machine.Reaches Allowed s) :
    RetainedCurrent s := by
  have hi : Invariant s :=
    h.invariant invariant_initial fun _ _ _ _ hi ho he => invariant_step hi ho (step_cases he)
  intro hs hl hc hm
  rcases hi.kept.current (hi.kept.started hs) hl hm with hne | hr
  · exact absurd hc hne
  · exact hr

def startAndUpdate : List Event :=
  [.call .start] ++ List.replicate 5 (.advance true 0) ++
    [.connection .connected true 1, .update "tcp" [1], .build 0, .publish 0 true]

theorem retained_message_is_current_after_update :
    ∃ s, machine.Reaches Allowed s ∧ (s.history.started = true ∧ s.linkUp = true ∧
      s.calls = [] ∧ s.discoveryMap = [("tcp", [1])]) ∧
      s.retained = some ⟨"connected", [("tcp", [1])]⟩ := by
  obtain ⟨s, hr, hp⟩ := machine.exists_reaches Allowed startAndUpdate
    (fun s => s.history.started = true ∧ s.linkUp = true ∧ s.calls = [] ∧
      s.discoveryMap = [("tcp", [1])]) (by decide)
  obtain ⟨hs, hl, hc, hm⟩ := of_decide_eq_true hp
  refine ⟨s, hr, ⟨hs, hl, hc, hm⟩, ?_⟩
  have hret := retained_message_is_current hr hs hl hc (by simp [hm])
  rw [hret, hm]
  rfl

def lossAndReconnect : List Event :=
  startAndUpdate ++ [.connection .disconnected true 0, .connection .connected true 0]

/-- The will has cleared the retained message and nothing publishes it again. -/
theorem reconnected_client_is_not_advertised :
    ∃ s, machine.Reachable s ∧ (s.history.started = true ∧ s.linkUp = true ∧ s.calls = [] ∧
      s.discoveryMap ≠ [] ∧ s.retained = none) ∧ ¬ RetainedCurrent s := by
  obtain ⟨s, hr, hp⟩ := machine.exists_reachable lossAndReconnect
    (fun s => s.history.started = true ∧ s.linkUp = true ∧ s.calls = [] ∧
      s.discoveryMap ≠ [] ∧ s.retained = none) (by decide)
  obtain ⟨hs, hl, hc, hm, hn⟩ := of_decide_eq_true hp
  refine ⟨s, hr, ⟨hs, hl, hc, hm, hn⟩, fun h => ?_⟩
  have hret := h hs hl hc hm
  rw [hn] at hret
  cases hret

end DiscoveryRetained
