import Aitt.RtspPlayback

/-! The RTSP stream of the Java library as a subscriber, and what the departure of some client
does to a subscriber of either language. The discovery service reports every departure to all
its callbacks, whatever they watch. -/
namespace RtspStream

open Flexbuffers TransitionRuns RtspDiscovery.Java
open TcpPublishTable (willLeaveNetwork)

/-- `RTSPClient` of Java. `clientSocket` is shared with the other streams of the process;
`sessions` are the sockets over which this one receives. -/
structure RtspClient where
  rtspUrl : List UInt16 := []
  height : Int32 := 0
  width : Int32 := 0
  clientSocket : Option ℕ := none
  sessions : List ℕ := []
  deriving DecidableEq, Repr

def RtspClient.stop (c : RtspClient) : RtspClient :=
  match c.clientSocket with
  | some socket => { c with sessions := c.sessions.erase socket }
  | none => c

def RtspClient.setRtspUrl (c : RtspClient) (url : List UInt16) : RtspClient :=
  { c with rtspUrl := url }

def RtspClient.setResolution (c : RtspClient) (height width : Int32) : RtspClient :=
  { c with height := height, width := width }

/-- Each of the `attempts` is a thread that connects a socket, with the credentials for the
session that follows. -/
structure Stream where
  serverState : StreamState := .init
  clientState : StreamState := .init
  discoveryInfo : DiscoveryInfo := {}
  rtspClient : RtspClient := {}
  attempts : List (String × String) := []
  deriving DecidableEq, Repr

namespace Stream

def setClientState (s : Stream) (state : StreamState) : Stream := { s with clientState := state }

def setRtspClient (s : Stream) (c : RtspClient) : Stream := { s with rtspClient := c }

def stopClient (s : Stream) : Stream := s.setRtspClient s.rtspClient.stop

def startRtspClient (s : Stream) (id password : String) : Stream :=
  if s.rtspClient.rtspUrl = [] then s
  else { s with attempts := s.attempts ++ [(id, password)] }

def start (s : Stream) : Stream :=
  if s.serverState = .ready then s.startRtspClient "" "" else s.setClientState .ready

def stop (s : Stream) : Stream :=
  if s.clientState = .playing then s.stopClient.setClientState .init else s.setClientState .init

def socketConnect (s : Stream) (i socket : ℕ) : Stream :=
  { s with
    clientState := .playing
    attempts := s.attempts.eraseIdx i
    rtspClient := { s.rtspClient with
      clientSocket := some socket, sessions := socket :: s.rtspClient.sessions } }

def socketFailed (s : Stream) (i : ℕ) : Stream := { s with attempts := s.attempts.eraseIdx i }

def socketReplaced (s : Stream) (socket : ℕ) : Stream :=
  { s with rtspClient := { s.rtspClient with clientSocket := some socket } }

def store (s : Stream) (state : StreamState) (info : DiscoveryInfo) : Stream :=
  { s with serverState := state, discoveryInfo := info }

def follow (s : Stream) : Stream :=
  if s.serverState = .ready then
    if s.clientState = .ready then
      s.startRtspClient s.discoveryInfo.id s.discoveryInfo.password
    else s
  else if s.serverState = .init then
    if s.clientState = .playing then s.stopClient.setClientState .ready else s
  else s

/-- The discovery callback, which does not look at the client it is about. An exception leaves
the stream as it is when it is thrown. -/
def onDiscoveryMessageReceived [Package] (s : Stream) (_clientId status : String)
    (data : List (String × Item)) : Stream :=
  if status = willLeaveNetwork then
    if s.clientState = .playing then s.stopClient.setClientState .ready
    else s.setClientState .init
  else
    match readInfo data with
    | none => s
    | some (state, info) =>
      let s := s.store state info
      match info.createCompleteUrl with
      | none => s
      | some url =>
        if url = [] then s
        else
          (s.setRtspClient
            ((s.rtspClient.setRtspUrl url).setResolution info.height info.width)).follow

end Stream

structure State where
  stream : Stream := {}
  publisher : Option String := none
  deriving DecidableEq, Repr

inductive Event where
  | start
  | stop
  | discovery (clientId status : String) (data : List (String × Item))
  | socketConnect (i socket : ℕ)
  | socketFailed (i : ℕ)
  | socketReplaced (socket : ℕ)
  deriving DecidableEq, Repr

def State.note [Package] (s : State) (clientId status : String) (data : List (String × Item)) :
    State :=
  if status ≠ willLeaveNetwork ∧ (readInfo data).isSome then
    { s with publisher := some clientId }
  else s

def State.setStream (s : State) (stream : Stream) : State := { s with stream := stream }

def State.step [Package] (s : State) : Event → Option State
  | .start => some (s.setStream s.stream.start)
  | .stop => some (s.setStream s.stream.stop)
  | .discovery clientId status data =>
    some ((s.note clientId status data).setStream
      (s.stream.onDiscoveryMessageReceived clientId status data))
  | .socketConnect i socket =>
    if i < s.stream.attempts.length then some (s.setStream (s.stream.socketConnect i socket))
    else none
  | .socketFailed i =>
    if i < s.stream.attempts.length then some (s.setStream (s.stream.socketFailed i)) else none
  | .socketReplaced socket => some (s.setStream (s.stream.socketReplaced socket))

def machine [Package] : Machine State Event where
  initial := {}
  step := State.step

def CppUndisturbed [Package] (s : RtspModule.State) (clientId : String) : Prop :=
  ∀ msg p, ∃ t, s.step (.discovery clientId willLeaveNetwork msg p) = some t ∧
    t.module.clientState = s.module.clientState ∧
    t.module.client.isStart = s.module.client.isStart

def JavaUndisturbed [Package] (s : State) (clientId : String) : Prop :=
  ∀ data, ∃ t, s.step (.discovery clientId willLeaveNetwork data) = some t ∧
    t.stream.clientState = s.stream.clientState ∧
    t.stream.rtspClient.sessions = s.stream.rtspClient.sessions

theorem cpp_undisturbed_iff [Package] {s : RtspModule.State} (hr : s.module.role = .subscriber)
    (clientId : String) : CppUndisturbed s clientId ↔ s.module.clientState = .init := by
  have hstep (msg : List (String × Item)) (p : RtspModule.Player) :
      s.step (.discovery clientId willLeaveNetwork msg p) =
        some ((s.note clientId willLeaveNetwork msg).setModule
          (if s.module.clientState = .playing then s.module.moved .ready s.module.client.stop
            else s.module.moved .init s.module.client)) := by
    rw [RtspModule.State.step, RtspModule.leave_subscriber hr]
    rfl
  constructor
  · intro h
    obtain ⟨t, ht, hc, -⟩ := h [] {}
    rw [hstep] at ht
    obtain rfl := Option.some.inj ht
    by_cases hp : s.module.clientState = .playing
    · rw [if_pos hp, hp] at hc
      cases hc
    · rw [if_neg hp] at hc
      exact hc.symm
  · intro hi msg p
    refine ⟨_, hstep msg p, ?_⟩
    rw [if_neg (by rw [hi]; nofun)]
    exact ⟨hi.symm, rfl⟩

theorem java_undisturbed_iff [Package] (s : State) (clientId : String) :
    JavaUndisturbed s clientId ↔ s.stream.clientState = .init := by
  have hleave (data : List (String × Item)) :
      s.stream.onDiscoveryMessageReceived clientId willLeaveNetwork data =
        if s.stream.clientState = .playing then s.stream.stopClient.setClientState .ready
        else s.stream.setClientState .init := by
    rw [Stream.onDiscoveryMessageReceived, if_pos rfl]
  constructor
  · intro h
    obtain ⟨t, ht, hc, -⟩ := h []
    obtain rfl := Option.some.inj ht
    rw [State.setStream, hleave] at hc
    by_cases hp : s.stream.clientState = .playing
    · rw [if_pos hp, hp] at hc
      cases hc
    · rw [if_neg hp] at hc
      exact hc.symm
  · intro hi data
    refine ⟨_, rfl, ?_⟩
    rw [State.setStream, hleave, if_neg (by rw [hi]; nofun)]
    exact ⟨hi.symm, rfl⟩

/-- A departure of any other client than the publisher leaves a subscriber alone exactly when
it is in its initial state: not started, or reset before. -/
theorem foreign_departure_harmless_iff [Package] (clientId : String) :
    (∀ s, RtspModule.machine.Reachable s → (∀ a ∈ s.accepted, a.clientId ≠ clientId) →
      (CppUndisturbed s clientId ↔ s.module.clientState = .init)) ∧
    ∀ s, machine.Reachable s → s.publisher ≠ some clientId →
      (JavaUndisturbed s clientId ↔ s.stream.clientState = .init) := by
  constructor
  · intro s h _
    exact cpp_undisturbed_iff (RtspPlayback.informed h).role clientId
  · intro s _ _
    exact java_undisturbed_iff s clientId

local instance : Package := plain

/-- Before they are started, subscribers that know a publisher can do without the others. -/
theorem unstarted_subscribers_undisturbed :
    (∃ s, RtspModule.machine.Reachable s ∧ s.accepted.map (·.clientId) = some "camera" ∧
      CppUndisturbed s "sensor") ∧
    ∃ s, machine.Reachable s ∧ s.publisher = some "camera" ∧ JavaUndisturbed s "sensor" := by
  obtain ⟨hcpp, hjava⟩ := foreign_departure_harmless_iff "sensor"
  constructor
  · obtain ⟨s, hr, hs⟩ := RtspModule.machine.exists_reachable
      [RtspPlayback.advertise .ready RtspPlayback.video {}]
      (fun s => s.accepted.map (·.clientId) = some "camera" && s.module.clientState = .init)
      (by decide +kernel)
    simp only [Bool.and_eq_true, decide_eq_true_eq] at hs
    obtain ⟨hcamera, hinit⟩ := hs
    refine ⟨s, hr, hcamera, (hcpp s hr fun a ha he => ?_).mpr hinit⟩
    rw [ha, Option.map_some, he] at hcamera
    exact absurd hcamera (by decide)
  · obtain ⟨s, hr, hs⟩ := machine.exists_reachable
      [.discovery "camera" "connected"
        (updateDiscoveryMessage .ready { url := "rtsp://192.168.1.2:554/video" })]
      (fun s => s.publisher = some "camera" && s.stream.clientState = .init) (by decide +kernel)
    simp only [Bool.and_eq_true, decide_eq_true_eq] at hs
    obtain ⟨hcamera, hinit⟩ := hs
    refine ⟨s, hr, hcamera, (hjava s hr ?_).mpr hinit⟩
    rw [hcamera]
    decide

/-- Both play what "camera" advertises until some other client leaves. -/
theorem foreign_departure_stops_playback :
    (∃ s, RtspModule.machine.Reachable s ∧
      (s.accepted.all (·.clientId ≠ "sensor") && s.module.clientState = .playing &&
        s.module.client.isStart && (s.step (RtspPlayback.leave "sensor")).any fun t =>
          t.module.clientState = .ready && !t.module.client.isStart) = true) ∧
    ∃ s, machine.Reachable s ∧
      (s.publisher ≠ some "sensor" && s.stream.clientState = .playing &&
        s.stream.rtspClient.sessions = [7] &&
        (s.step (.discovery "sensor" willLeaveNetwork [])).any fun t =>
          t.stream.clientState = .ready && t.stream.rtspClient.sessions = []) = true := by
  constructor
  · exact RtspModule.machine.exists_reachable [.setConfig true {}, .start {},
      RtspPlayback.advertise .ready RtspPlayback.video {}] _ (by decide +kernel)
  · exact machine.exists_reachable [.start, .discovery "camera" "connected"
      (updateDiscoveryMessage .ready { url := "rtsp://192.168.1.2:554/video" }),
      .socketConnect 0 7] _ (by decide +kernel)

end RtspStream
