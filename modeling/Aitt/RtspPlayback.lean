import Aitt.RtspModule

/-! When an RTSP subscriber plays: with respect to what its publisher has advertised, and with
respect to the player underneath. -/
namespace RtspPlayback

open AittTypes Flexbuffers TransitionRuns RtspDiscovery RtspModule
open TcpPublishTable (willLeaveNetwork)

variable {s t : State} {e : Event} {clientId status : String} {msg : List (String × Item)}

section Publisher

variable [Package]

inductive Stepped (s : State) : Event → State → Prop where
  | setConfig {display p} : Stepped s (.setConfig display p)
      (s.setModule (s.module.moved s.module.clientState (s.module.client.setDisplay display p)))
  | start {p} (server : s.module.serverState = .ready) : Stepped s (.start p)
      ⟨s.module.moved .playing (s.module.client.start p), s.accepted, s.left, true⟩
  | wait {p} (server : s.module.serverState ≠ .ready) : Stepped s (.start p)
      ⟨s.module.moved .ready s.module.client, s.accepted, s.left, true⟩
  | stop (playing : s.module.clientState = .playing) : Stepped s .stop
      ⟨s.module.moved .init s.module.client.stop, s.accepted, s.left, false⟩
  | quit (idle : s.module.clientState ≠ .playing) : Stepped s .stop
      ⟨s.module.moved .init s.module.client, s.accepted, s.left, false⟩
  | discovery {clientId status msg p n} (discovered : Discovered s.module status msg p n) :
      Stepped s (.discovery clientId status msg p) ((s.note clientId status msg).setModule n)
  | interrupted :
      Stepped s .interrupted (s.setModule (s.module.moved .init s.module.client))

theorem stepped (hr : s.module.role = .subscriber) (h : s.step e = some t) : Stepped s e t := by
  cases e with
  | setConfig display p =>
    cases h
    rw [setConfig_subscriber hr]
    exact .setConfig
  | start p =>
    cases h
    rw [start_subscriber hr]
    split
    · exact .start ‹_›
    · exact .wait ‹_›
  | stop =>
    cases h
    rw [stop_subscriber hr]
    split
    · exact .stop ‹_›
    · exact .quit ‹_›
  | discovery clientId status msg p =>
    obtain ⟨n, hn, rfl⟩ := Option.map_eq_some_iff.mp h
    exact .discovery (discovered hr hn)
  | interrupted =>
    cases h
    rw [interrupted_subscriber hr]
    exact .interrupted

structure Informed (s : State) : Prop where
  role : s.module.role = .subscriber
  none : s.accepted = none → s.module.serverState = .init
  off : s.accepted = .none → s.module.client.isStart = false
  some : ∀ a ∈ s.accepted, s.module.serverState = a.state ∧ s.module.info = a.info

theorem note_leave (s : State) (clientId : String) (msg : List (String × Item))
    (hl : status = willLeaveNetwork) : s.note clientId status msg =
      { s with left := s.left || s.accepted.any (·.clientId = clientId) } := by
  rw [State.note, if_pos hl]

theorem note_rejected (s : State) (hl : status ≠ willLeaveNetwork) (hr : readInfo msg = none) :
    s.note clientId status msg = s := by
  rw [State.note, if_neg hl, hr]

theorem note_accepted {state : StreamState} {info : RtspInfo} (s : State)
    (hl : status ≠ willLeaveNetwork) (hr : readInfo msg = some (state, info)) :
    s.note clientId status msg =
      { s with accepted := some ⟨clientId, state, info⟩, left := false } := by
  rw [State.note, if_neg hl, hr]

theorem Informed.step (h : Informed s) (hs : Stepped s e t) : Informed t := by
  cases hs with
  | setConfig =>
    exact ⟨h.role, h.none, fun ha => (setDisplay_isStart ..).trans (h.off ha), h.some⟩
  | start server =>
    refine ⟨h.role, h.none, fun ha => ?_, h.some⟩
    cases server.symm.trans (h.none ha)
  | wait | quit | interrupted => exact ⟨h.role, h.none, h.off, h.some⟩
  | stop => exact ⟨h.role, h.none, fun _ => rfl, h.some⟩
  | discovery discovered =>
    cases discovered with
    | stopped leave =>
      rw [note_leave s _ _ leave]
      exact ⟨h.role, h.none, fun _ => rfl, h.some⟩
    | reset leave =>
      rw [note_leave s _ _ leave]
      exact ⟨h.role, h.none, h.off, h.some⟩
    | rejected join read =>
      rw [note_rejected s join read]
      exact h
    | accepted join read complete followed =>
      rw [note_accepted s join read]
      cases followed with
      | starts | stops | stays =>
        refine ⟨h.role, nofun, nofun, ?_⟩
        rintro _ ⟨⟩
        exact ⟨rfl, rfl⟩

theorem informed {ok : State → Event → Prop} (h : machine.Reaches ok s) : Informed s := by
  refine h.invariant ⟨rfl, fun _ => rfl, fun _ => rfl, nofun⟩ ?_
  intro s e t _ hi _ hs
  exact hi.step (stepped hi.role hs)

def OnePublisher (publisher : String) : Event → Prop
  | .start _ | .stop => True
  | .discovery clientId status msg _ => clientId = publisher ∧
      (status ≠ willLeaveNetwork → ∀ r ∈ readInfo msg, r.1 = .ready ∨ r.1 = .init)
  | _ => False

/-- The subscriber is not started between a departure of its publisher, which was ready, and
its return, and no departure finds it waiting. -/
def Orderly (s : State) : Event → Prop
  | .start _ => s.left = true → s.module.serverState ≠ .ready
  | .discovery _ status _ _ => status = willLeaveNetwork → s.module.clientState ≠ .ready
  | _ => True

instance (publisher : String) (e : Event) : Decidable (OnePublisher publisher e) := by
  cases e <;> unfold OnePublisher <;> infer_instance

instance (s : State) (e : Event) : Decidable (Orderly s e) := by
  cases e <;> unfold Orderly <;> infer_instance

structure PlaysWithPublisher (s : State) : Prop where
  onlyReady : s.module.clientState = .playing →
    ∃ a ∈ s.accepted, a.state = .ready ∧ s.left = false
  whenReady : s.started = true → (∃ a ∈ s.accepted, a.state = .ready) → s.left = false →
    s.module.clientState = .playing

/-- `ready` and `playing` are the states of a subscriber that is started. -/
structure Waiting (publisher : String) (s : State) : Prop where
  publisher : ∀ a ∈ s.accepted, a.clientId = publisher
  playing : s.module.clientState = .playing → s.module.serverState = .ready ∧ s.left = false
  ready : s.module.clientState = .ready → s.module.serverState = .ready → s.left = true
  started : s.started = true → s.module.clientState = .ready ∨ s.module.clientState = .playing
  stopped : s.started = false → s.module.clientState = .init

variable {publisher : String}

/-- A departure of the publisher is noticed once there has been an advertisement. -/
theorem Waiting.note_leave (h : Waiting publisher s) (hi : Informed s)
    (hl : status = willLeaveNetwork) (hr : s.module.serverState = .ready) :
    (s.note publisher status msg).left = true := by
  cases ha : s.accepted with
  | none => cases hr.symm.trans (hi.none ha)
  | some a =>
    have hc := h.publisher a ha
    simp [RtspPlayback.note_leave s _ _ hl, ha, hc]

theorem Waiting.left (h : Waiting publisher s) (hi : Informed s)
    (hl : status = willLeaveNetwork) (hk : s.module.clientState ≠ .ready) {p : Player}
    {n : Module} (hd : Discovered s.module status msg p n) :
    Waiting publisher ((s.note publisher status msg).setModule n) := by
  have hn := RtspPlayback.note_leave s publisher msg hl
  cases hd with
  | stopped leave playing =>
    refine ⟨?_, nofun, fun _ hr => h.note_leave hi hl hr, fun _ => .inl rfl, fun hf => ?_⟩
    · rw [hn]
      exact h.publisher
    · rw [hn] at hf
      cases playing.symm.trans (h.stopped hf)
  | reset leave idle =>
    refine ⟨?_, nofun, nofun, fun ht => ?_, fun _ => rfl⟩
    · rw [hn]
      exact h.publisher
    · rw [hn] at ht
      rcases h.started ht with hc | hc
      · exact absurd hc hk
      · exact absurd hc idle
  | rejected join | accepted join => exact absurd hl join

theorem Waiting.advertised {state : StreamState} {info : RtspInfo} {c : Client} {p : Player}
    {n : Module} (h : Waiting publisher s) (hl : status ≠ willLeaveNetwork)
    (hr : readInfo msg = some (state, info)) (hst : state = .ready ∨ state = .init)
    (hf : Followed (s.module.stored state info c) p n) :
    Waiting publisher ((s.note publisher status msg).setModule n) := by
  rw [note_accepted s hl hr]
  have hp : ∀ a ∈ some (Advertisement.mk publisher state info), a.clientId = publisher := by
    rintro _ ⟨⟩
    rfl
  cases hf with
  | starts server client =>
    refine ⟨hp, fun _ => ⟨server, rfl⟩, nofun, fun _ => .inr rfl, fun hf => ?_⟩
    cases client.symm.trans (h.stopped hf)
  | stops server client =>
    refine ⟨hp, nofun, fun _ hr => ?_, fun _ => .inl rfl, fun hf => ?_⟩
    · cases server.symm.trans hr
    · cases client.symm.trans (h.stopped hf)
  | stays ready init =>
    refine ⟨hp, fun hc => ⟨hst.resolve_right fun hi => init hi hc, rfl⟩,
      fun hc hr => absurd hc (ready hr), h.started, h.stopped⟩

theorem Waiting.step (h : Waiting publisher s) (hi : Informed s) (ho : OnePublisher publisher e)
    (hk : Orderly s e) (hs : Stepped s e t) : Waiting publisher t := by
  cases hs with
  | setConfig | interrupted => exact ho.elim
  | start server =>
    have hl : s.left = false := by
      rw [← Bool.not_eq_true]
      exact fun hl => hk hl server
    exact ⟨h.publisher, fun _ => ⟨server, hl⟩, nofun, fun _ => .inr rfl, nofun⟩
  | wait server =>
    exact ⟨h.publisher, nofun, fun _ hr => absurd hr server, fun _ => .inl rfl, nofun⟩
  | stop | quit => exact ⟨h.publisher, nofun, nofun, nofun, fun _ => rfl⟩
  | @discovery _ _ _ p _ discovered =>
    obtain ⟨rfl, hread⟩ := ho
    cases discovered with
    | stopped leave playing =>
      exact h.left hi leave (hk leave) (p := p) (.stopped leave playing)
    | reset leave idle => exact h.left hi leave (hk leave) (p := p) (.reset leave idle)
    | rejected join read =>
      rw [note_rejected s join read]
      exact h
    | accepted join read complete followed =>
      exact h.advertised join read (hread join _ read) followed

omit [Package] in
theorem Waiting.plays (h : Waiting publisher s) (hi : Informed s) : PlaysWithPublisher s where
  onlyReady hp := by
    obtain ⟨hr, hl⟩ := h.playing hp
    cases ha : s.accepted with
    | none => cases hr.symm.trans (hi.none ha)
    | some a => exact ⟨a, rfl, (hi.some a ha).1.symm.trans hr, hl⟩
  whenReady hs := by
    rintro ⟨a, ha, hr⟩ hl
    rcases h.started hs with hc | hc
    · have := h.ready hc ((hi.some a ha).1.trans hr)
      cases hl.symm.trans this
    · exact hc

/-- In an orderly run with one publisher the subscriber plays exactly while it should. -/
theorem plays_while_publisher_ready
    (h : machine.Reaches (fun s e => OnePublisher publisher e ∧ Orderly s e) s) :
    PlaysWithPublisher s := by
  have hw : Waiting publisher s := by
    refine h.invariant ⟨nofun, nofun, nofun, nofun, fun _ => rfl⟩ ?_
    intro s e t hr hw hok hs
    exact hw.step (informed hr) hok.1 hok.2 (stepped (informed hr).role hs)
  exact hw.plays (informed h)

end Publisher

def video : RtspInfo := { uri := "rtsp://192.168.1.2:554/video" }

def advertise [Package] (state : StreamState) (info : RtspInfo) (p : Player) : Event :=
  .discovery "camera" "connected" (updateDiscoveryMsg state info) p

def leave (clientId : String) : Event := .discovery clientId willLeaveNetwork [] {}

section

local instance : Package := plain

theorem orderly_run_plays : ∃ s,
    machine.Reaches (fun s e => OnePublisher "camera" e ∧ Orderly s e) s ∧
      PlaysWithPublisher s ∧ s.started = true ∧ s.module.clientState = .playing := by
  obtain ⟨s, hr, hs⟩ := machine.exists_reaches
    (fun s e => OnePublisher "camera" e ∧ Orderly s e)
    [.start {}, advertise .ready video {}, leave "camera", advertise .init video {},
      advertise .ready video {}]
    (fun s => s.started && s.module.clientState = .playing) (by decide +kernel)
  simp only [Bool.and_eq_true, decide_eq_true_eq] at hs
  exact ⟨s, hr, plays_while_publisher_ready hr, hs⟩

/-- Started after the publisher has left, the subscriber plays; left while it waits, it does
not play when the publisher comes back. -/
theorem disorderly_runs_diverge :
    (∃ s, machine.Reaches (fun _ e => OnePublisher "camera" e) s ∧
      (s.module.clientState = .playing && s.left) = true) ∧
    ∃ s, machine.Reaches (fun _ e => OnePublisher "camera" e) s ∧
      (s.started && s.accepted.any (·.state = .ready) && !s.left &&
        s.module.clientState ≠ .playing) = true := by
  constructor
  · exact machine.exists_reaches _
      [advertise .ready video {}, leave "camera", .start {}] _ (by decide +kernel)
  · exact machine.exists_reaches _
      [.start {}, advertise .ready video {}, leave "camera", leave "camera",
        advertise .ready video {}] _ (by decide +kernel)

end

section Player

variable [Package]

/-- The player does what the module takes it to do: it can be started whenever the module says
so, with the URI of the last advertisement; it is not interrupted; and no advertisement changes
the URI under it. A start that only waits for the publisher does not find it running. -/
def Obeyed (s : State) : Event → Prop
  | .setConfig _ _ | .stop => True
  | .start p =>
    if s.module.serverState = .ready then
      s.module.client.isStart = true ∨
        s.module.client.display = true ∧ p.starts = true ∧
          s.module.info.getCompleteURI = some s.module.client.uri
    else s.module.client.isStart = false
  | .discovery _ status msg p =>
    status ≠ willLeaveNetwork → ∀ r ∈ readInfo msg, ∀ uri ∈ r.2.getCompleteURI,
      (s.module.client.isStart = true → r.1 ≠ .init → uri = s.module.client.startedUri) ∧
      (r.1 = .ready → s.module.clientState = .ready →
        s.module.client.display = true ∧ p.starts = true ∧
          (uri ≠ [] ∧ p.setUri = true ∨ uri = s.module.client.uri))
  | .interrupted => s.module.client.isStart = false

instance (s : State) (e : Event) : Decidable (Obeyed s e) := by
  cases e <;> unfold Obeyed <;> infer_instance

structure Driven (m : Module) : Prop where
  playing : m.clientState = .playing ↔ m.client.isStart = true
  uri : m.client.isStart = true → m.info.getCompleteURI = some m.client.startedUri

omit [Package] in
theorem Driven.isStart_eq_false {m : Module} (h : Driven m) (hc : m.clientState ≠ .playing) :
    m.client.isStart = false := by
  rw [← Bool.not_eq_true]
  exact fun hs => hc (h.playing.mpr hs)

omit [Package] in
theorem Driven.off {m : Module} {state : StreamState} {c : Client} (hs : state ≠ .playing)
    (hc : c.isStart = false) : Driven (m.moved state c) where
  playing := iff_of_false hs (Bool.not_eq_true _ ▸ hc)
  uri ht := by cases hc.symm.trans ht

omit [Package] in
theorem Driven.begin {m : Module} {c : Client}
    (hu : m.info.getCompleteURI = some c.uri) : Driven (m.moved .playing c.begin) where
  playing := iff_of_true rfl rfl
  uri _ := hu

omit [Package] in
theorem Driven.advertised {m n : Module} {state : StreamState} {info : RtspInfo} {uri : Bytes}
    {p : Player} (h : Driven m) (hu : info.getCompleteURI = some uri)
    (hsame : m.client.isStart = true → state ≠ .init → uri = m.client.startedUri)
    (hstart : state = .ready → m.clientState = .ready → m.client.display = true ∧
      p.starts = true ∧ (uri ≠ [] ∧ p.setUri = true ∨ uri = m.client.uri))
    (hf : Followed (m.stored state info (m.client.setURI uri p)) p n) : Driven n := by
  cases hf with
  | starts server client =>
    have hoff : m.client.isStart = false := h.isStart_eq_false (by
      rw [show m.clientState = .ready from client]
      nofun)
    obtain ⟨hd, hp, hset⟩ := hstart server client
    rw [start_of_starts (c := (m.stored state info (m.client.setURI uri p)).client)
      ((setURI_isStart ..).trans hoff) ((setURI_display ..).trans hd) hp]
    refine .begin (hu.trans (congrArg some ?_))
    exact (setURI_uri hoff hset).symm
  | stops => exact .off nofun rfl
  | stays ready init =>
    refine ⟨h.playing.trans (by rw [← setURI_isStart m.client uri p]; rfl), fun ht => ?_⟩
    have hs : m.client.isStart = true := (setURI_isStart m.client uri p).symm.trans ht
    have hne : state ≠ .init := fun hi => init hi (h.playing.mpr hs)
    refine hu.trans (congrArg some ((hsame hs hne).trans ?_))
    exact (setURI_startedUri m.client uri p).symm

theorem Driven.step (h : Driven s.module) (hk : Obeyed s e) (hs : Stepped s e t) :
    Driven t.module := by
  cases hs with
  | @setConfig display p =>
    refine ⟨h.playing.trans (by rw [← setDisplay_isStart s.module.client display p]; rfl), ?_⟩
    intro ht
    refine (h.uri ((setDisplay_isStart ..).symm.trans ht)).trans (congrArg some ?_)
    exact (setDisplay_startedUri ..).symm
  | start server =>
    rw [Obeyed, if_pos server] at hk
    cases hc : s.module.client.isStart with
    | true =>
      refine ⟨iff_of_true rfl ?_, fun _ => ?_⟩
      · exact (congrArg Client.isStart (start_of_isStart hc _)).trans hc
      · exact (h.uri hc).trans (congrArg (some <| Client.startedUri ·) (start_of_isStart hc _)).symm
    | false =>
      obtain ⟨hd, hp, hu⟩ := hk.resolve_left (by simp [hc])
      rw [start_of_starts hc hd hp]
      exact .begin hu
  | wait server =>
    rw [Obeyed, if_neg server] at hk
    exact .off nofun hk
  | stop => exact .off nofun rfl
  | quit idle => exact .off nofun (h.isStart_eq_false idle)
  | interrupted => exact .off nofun hk
  | discovery discovered =>
    cases discovered with
    | stopped => exact .off nofun rfl
    | reset _ idle => exact .off nofun (h.isStart_eq_false idle)
    | rejected => exact h
    | accepted join read complete followed =>
      have hr := hk join _ read _ complete
      exact h.advertised complete hr.1 hr.2 followed

end Player

local instance : Package := plain

end RtspPlayback
