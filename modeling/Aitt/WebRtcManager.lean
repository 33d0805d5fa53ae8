import Aitt.TransitionRuns
import Aitt.WebRtcStream

/-! The source and the sink of a WebRTC stream: what they make of the discovery messages of other
clients, and what is left of a peer that departs. -/
namespace WebRtcManager

open TransitionRuns WebRtcStream

/-- Discovery passes on messages of clients with an id only. -/
structure Client where
  id : String
  nonempty : id ≠ ""
  deriving DecidableEq

inductive Role where
  | src
  | sink
  deriving DecidableEq, Repr

/-- A map in flexbuffers; a field that is missing or has another type is `none`. -/
structure Fields where
  id : Option String
  peerId : Option String
  sdp : Option String
  iceCandidates : Option (List String)
  deriving DecidableEq, Repr

inductive Message where
  | string (text : String)
  | map (fields : Fields)
  | vector
  | scalar
  deriving DecidableEq, Repr

structure StreamInfo where
  id : String
  peerId : String
  sdp : String
  iceCandidates : List String
  deriving DecidableEq, Repr

def StreamInfo.message (i : StreamInfo) : Message :=
  .map ⟨some i.id, some i.peerId, some i.sdp, some i.iceCandidates⟩

def Message.streamInfo : Message → Option StreamInfo
  | .map ⟨some id, some peerId, some sdp, some iceCandidates⟩ =>
    some ⟨id, peerId, sdp, iceCandidates⟩
  | _ => none

/-- `streamId` is the thread id followed by the address of the stream. -/
structure StreamManager where
  role : Role
  streamId : String
  peerAittId : String := ""
  stream : Stream := {}
  deriving DecidableEq, Repr

namespace StreamManager

def stop (m : StreamManager) : StreamManager :=
  { m with peerAittId := "", stream := m.stream.destroy }

def handleRemovedClient (m : StreamManager) (discoveryId : String) : StreamManager :=
  if m.peerAittId ≠ discoveryId then m else { m with stream := m.stream.destroy }

def srcAddStream (m : StreamManager) (discoveryId id sdp : String)
    (iceCandidates : List String) : StreamManager :=
  let stream := (m.stream.start.setStreamId m.streamId).setPeerId id
  { m with
    peerAittId := discoveryId
    stream := (stream.addPeerInformation sdp iceCandidates).2 }

-- The source takes an update whose peer id is not its own.
def srcUpdateStreamInfo (m : StreamManager) (discoveryId : String) (i : StreamInfo) :
    StreamManager :=
  if m.peerAittId = "" then m.srcAddStream discoveryId i.id i.sdp i.iceCandidates
  else if m.peerAittId = discoveryId ∧ i.peerId ≠ m.stream.id then
    { m with stream := m.stream.updatePeerInformation i.iceCandidates }
  else m

def sinkAddStream (m : StreamManager) (discoveryId : String) : StreamManager :=
  { m with
    peerAittId := discoveryId
    stream := m.stream.start.setStreamId m.streamId }

def sinkHandleStartStream (m : StreamManager) (discoveryId : String) : StreamManager :=
  if m.peerAittId ≠ "" then m else m.sinkAddStream discoveryId

def sinkUpdateStreamInfo (m : StreamManager) (discoveryId : String) (i : StreamInfo) :
    StreamManager :=
  if m.peerAittId ≠ discoveryId then m
  else if i.peerId ≠ m.stream.id then m
  else if m.stream.peerId = "" then
    { m with
      stream := ((m.stream.setPeerId i.id).addPeerInformation i.sdp i.iceCandidates).2 }
  else { m with stream := m.stream.updatePeerInformation i.iceCandidates }

def handleStreamState (m : StreamManager) (discoveryId text : String) : StreamManager :=
  match m.role with
  | .src => if text = "STOP" then m.handleRemovedClient discoveryId else m
  | .sink =>
    if text = "START" then m.sinkHandleStartStream discoveryId
    else if text = "STOP" then m.handleRemovedClient discoveryId
    else m

def handleStreamInfo (m : StreamManager) (discoveryId : String) (message : Message) :
    StreamManager :=
  match message.streamInfo with
  | none => m
  | some i =>
    match m.role with
    | .src => m.srcUpdateStreamInfo discoveryId i
    | .sink => m.sinkUpdateStreamInfo discoveryId i

/-- A map is also a vector in flexbuffers. -/
def handleMsg (m : StreamManager) (discoveryId : String) (message : Message) : StreamManager :=
  match message with
  | .string text => m.handleStreamState discoveryId text
  | .map _ | .vector => m.handleStreamInfo discoveryId message
  | .scalar => m

def getDiscoveryMessage (m : StreamManager) : Message :=
  (⟨m.stream.id, m.stream.peerId, m.stream.localDescription, m.stream.iceCandidates⟩ :
    StreamInfo).message

/-- A new candidate is published with all that came before it. -/
def response (m : StreamManager) : Signal → List Message
  | .candidate _ => [m.getDiscoveryMessage]
  | .negotiate | .play | .describe _ => []

def signal (m : StreamManager) (w : Signal) : Option (StreamManager × List Message) :=
  (m.stream.signal (m.role = .src) w).map fun stream =>
    let m' := { m with stream := stream }
    (m', m'.response w)

end StreamManager

structure State where
  manager : StreamManager
  published : List Message := []
  deriving DecidableEq, Repr

inductive Event where
  | start
  | stop
  | message (d : Client) (m : Message)
  | leave (d : Client)
  | signal (w : Signal)

def step (s : State) : Event → Option State
  | .start => some { s with published := s.published ++ [.string "START"] }
  | .stop =>
    some { manager := s.manager.stop, published := s.published ++ [.string "STOP"] }
  | .message d m => some { s with manager := s.manager.handleMsg d.id m }
  | .leave d => some { s with manager := s.manager.handleRemovedClient d.id }
  | .signal w =>
    (s.manager.signal w).map fun r => { manager := r.1, published := s.published ++ r.2 }

def machine (role : Role) (streamId : String) : Machine State Event :=
  ⟨⟨{ role := role, streamId := streamId }, []⟩, step⟩

inductive Departure where
  | leave
  | stop
  deriving DecidableEq, Repr

def StreamManager.departs (m : StreamManager) (d : Client) : Departure → StreamManager
  | .leave => m.handleRemovedClient d.id
  | .stop => m.handleMsg d.id (.string "STOP")

def answers (m : StreamManager) (es : List Event) : Option (List Message) :=
  ((machine m.role m.streamId).exec ⟨m, []⟩ es).map State.published

/-- The manager has no peer, and answers whatever comes as a fresh one does. -/
structure WithoutPeer (m : StreamManager) : Prop where
  peerAittId : m.peerAittId = ""
  peerId : m.stream.peerId = ""
  candidates : m.stream.peerIceCandidates = []
  stored : m.stream.storedPeerIceCandidates = []
  usable : m.stream.webrtcHandle ≠ none
  fresh : ∀ es, answers m es = answers { role := m.role, streamId := m.streamId } es

def Restored (m : StreamManager) (d : Client) (how : Departure) : Prop :=
  if m.peerAittId = d.id then WithoutPeer (m.departs d how) else m.departs d how = m

variable {m n : StreamManager} {d : String} {msg : Message} {s t : State}

theorem departs_of_ne {d : Client} (h : m.peerAittId ≠ d.id) (how : Departure) :
    m.departs d how = m := by
  have hr : m.handleRemovedClient d.id = m := if_pos h
  cases how with
  | leave => exact hr
  | stop => cases hm : m.role <;>
      simp [StreamManager.departs, StreamManager.handleMsg, StreamManager.handleStreamState, hm, hr]

/-- Only the handle of the stream is reset. -/
theorem departs_of_eq {d : Client} (h : m.peerAittId = d.id) (how : Departure) :
    m.departs d how = { m with stream := m.stream.destroy } := by
  have hr : m.handleRemovedClient d.id = { m with stream := m.stream.destroy } :=
    if_neg (not_not.mpr h)
  cases how with
  | leave => exact hr
  | stop => cases hm : m.role <;>
      simp [StreamManager.departs, StreamManager.handleMsg, StreamManager.handleStreamState, hm, hr]

inductive Handled (m : StreamManager) (d : String) (msg : Message) : StreamManager → Prop where
  | ignored
      (src : m.role = .src → ∀ i, msg.streamInfo = some i →
        m.peerAittId ≠ "" ∧ (m.peerAittId = d → i.peerId = m.stream.id))
      (sink : m.role = .sink → ∀ i, msg.streamInfo = some i →
        m.peerAittId = d → i.peerId ≠ m.stream.id) : Handled m d msg m
  | destroyed (stop : msg = .string "STOP") (peer : m.peerAittId = d) :
      Handled m d msg { m with stream := m.stream.destroy }
  | srcFirst {i : StreamInfo} (role : m.role = .src) (info : msg.streamInfo = some i)
      (peer : m.peerAittId = "") :
      Handled m d msg (m.srcAddStream d i.id i.sdp i.iceCandidates)
  | srcUpdate {i : StreamInfo} (role : m.role = .src) (info : msg.streamInfo = some i)
      (some : m.peerAittId ≠ "") (peer : m.peerAittId = d) (other : i.peerId ≠ m.stream.id) :
      Handled m d msg { m with stream := m.stream.updatePeerInformation i.iceCandidates }
  | sinkStart (role : m.role = .sink) (start : msg = .string "START") (peer : m.peerAittId = "") :
      Handled m d msg (m.sinkAddStream d)
  | sinkFirst {i : StreamInfo} (role : m.role = .sink) (info : msg.streamInfo = some i)
      (peer : m.peerAittId = d) (own : i.peerId = m.stream.id) (first : m.stream.peerId = "") :
      Handled m d msg { m with
        stream := ((m.stream.setPeerId i.id).addPeerInformation i.sdp i.iceCandidates).2 }
  | sinkUpdate {i : StreamInfo} (role : m.role = .sink) (info : msg.streamInfo = some i)
      (peer : m.peerAittId = d) (own : i.peerId = m.stream.id) (later : m.stream.peerId ≠ "") :
      Handled m d msg { m with stream := m.stream.updatePeerInformation i.iceCandidates }

/-- Messages without stream information that have no effect. -/
theorem Handled.noInfo (hn : msg.streamInfo = none) : Handled m d msg m :=
  .ignored (fun _ i hi => by simp [hn] at hi) (fun _ i hi => by simp [hn] at hi)

theorem handled_stop : Handled m d (.string "STOP") (m.handleRemovedClient d) := by
  unfold StreamManager.handleRemovedClient
  split_ifs with hp
  · exact .noInfo rfl
  · exact .destroyed rfl (not_not.mp hp)

theorem handled_streamState (text : String) :
    Handled m d (.string text) (m.handleStreamState d text) := by
  unfold StreamManager.handleStreamState
  split
  · split_ifs with hstop
    · subst hstop
      exact handled_stop
    · exact .noInfo rfl
  next hrole =>
    split_ifs with hstart hstop
    · subst hstart
      unfold StreamManager.sinkHandleStartStream
      split_ifs with hp
      · exact .noInfo rfl
      · exact .sinkStart hrole rfl (not_not.mp hp)
    · subst hstop
      exact handled_stop
    · exact .noInfo rfl

theorem handled_streamInfo : Handled m d msg (m.handleStreamInfo d msg) := by
  unfold StreamManager.handleStreamInfo
  split
  next hn => exact .noInfo hn
  next i hi =>
    split
    next hrole =>
      unfold StreamManager.srcUpdateStreamInfo
      split_ifs with hp hu
      · exact .srcFirst hrole hi hp
      · exact .srcUpdate hrole hi hp hu.1 hu.2
      · refine .ignored (fun _ j hj => ⟨hp, fun hd => ?_⟩) fun hs => by simp [hrole] at hs
        obtain rfl := Option.some.inj (hi.symm.trans hj)
        exact not_not.mp fun hne => hu ⟨hd, hne⟩
    next hrole =>
      have hsrc : ¬ m.role = .src := by simp [hrole]
      unfold StreamManager.sinkUpdateStreamInfo
      split_ifs with hp ho hf
      · exact .ignored (fun hs => absurd hs hsrc) fun _ _ _ hd => absurd hd hp
      · refine .ignored (fun hs => absurd hs hsrc) fun _ j hj _ => ?_
        obtain rfl := Option.some.inj (hi.symm.trans hj)
        exact ho
      · exact .sinkFirst hrole hi (not_not.mp hp) (not_not.mp ho) hf
      · exact .sinkUpdate hrole hi (not_not.mp hp) (not_not.mp ho) hf

theorem handled_handleMsg (m : StreamManager) (d : String) (msg : Message) :
    Handled m d msg (m.handleMsg d msg) := by
  cases msg with
  | string text => exact handled_streamState text
  | map | vector => exact handled_streamInfo
  | scalar => exact .noInfo rfl

/-- No message makes a new handle. -/
theorem handled_destroyed (h : m.stream.webrtcHandle = none) (hm : Handled m d msg n) :
    n.stream.webrtcHandle = none := by
  have hstart : m.stream.start.webrtcHandle = none := by simp [Stream.start, h]
  have hplay : m.stream.state ≠ some .playing := by simp [Stream.state, h]
  cases hm with
  | ignored => exact h
  | destroyed => rfl
  | srcFirst => exact (taken_addPeerInformation _ _ _).handle_none.mpr hstart
  | srcUpdate | sinkUpdate => exact (taken_updatePeerInformation hplay _).handle_none.mpr h
  | sinkStart => exact hstart
  | sinkFirst => exact (taken_addPeerInformation _ _ _).handle_none.mpr h

theorem signal_destroyed (h : m.stream.webrtcHandle = none) (w : Signal) : m.signal w = none := by
  cases w <;> simp [StreamManager.signal, Stream.signal, Stream.isNegotiatingState, h]

def Silent (published : List Message) : Prop := ∀ msg ∈ published, msg.streamInfo = none

theorem step_destroyed {e : Event} (h : s.manager.stream.webrtcHandle = none)
    (hp : Silent s.published) (hs : step s e = some t) :
    t.manager.stream.webrtcHandle = none ∧ Silent t.published := by
  have hsnoc : ∀ text, Silent (s.published ++ [.string text]) := fun text msg hm => by
    rcases List.mem_append.mp hm with hm | hm
    · exact hp msg hm
    · rw [List.mem_singleton.mp hm]
      rfl
  cases e with
  | start =>
    obtain rfl := Option.some.inj hs
    exact ⟨h, hsnoc _⟩
  | stop =>
    obtain rfl := Option.some.inj hs
    exact ⟨rfl, hsnoc _⟩
  | message d msg =>
    obtain rfl := Option.some.inj hs
    exact ⟨handled_destroyed h (handled_handleMsg _ _ _), hp⟩
  | leave d =>
    obtain rfl := Option.some.inj hs
    exact ⟨handled_destroyed h handled_stop, hp⟩
  | signal w =>
    rw [step, signal_destroyed h w] at hs
    cases hs

/-- A manager whose handle has been destroyed never gets another and never answers. -/
theorem exec_destroyed {role : Role} {streamId : String} {es : List Event}
    (h : s.manager.stream.webrtcHandle = none) (hp : Silent s.published)
    (hs : (machine role streamId).exec s es = some t) :
    t.manager.stream.webrtcHandle = none ∧ Silent t.published := by
  induction es generalizing s with
  | nil =>
    obtain rfl := Option.some.inj hs
    exact ⟨h, hp⟩
  | cons e es ih =>
    obtain ⟨u, hu, ht⟩ := Option.bind_eq_some_iff.mp hs
    obtain ⟨hh, hq⟩ := step_destroyed h hp hu
    exact ih hh hq ht

theorem not_restored_of_eq {d : Client} (h : m.peerAittId = d.id) (how : Departure) :
    ¬ Restored m d how := by
  intro hr
  rw [Restored, if_pos h, departs_of_eq h] at hr
  exact d.nonempty (h ▸ hr.peerAittId)

/-- A departure leaves the manager as it should be exactly if it is that of another client. After
that of the peer there is no handle any more, and no stream information is published. -/
theorem departure_restores_iff (m : StreamManager) (d : Client) (how : Departure) :
    (Restored m d how ↔ m.peerAittId ≠ d.id) ∧
    (m.peerAittId = d.id → ∀ es t,
      (machine m.role m.streamId).exec ⟨m.departs d how, []⟩ es = some t →
        t.manager.stream.webrtcHandle = none ∧ Silent t.published) := by
  refine ⟨⟨fun h he => not_restored_of_eq he how h, fun h => ?_⟩, fun h es t ht => ?_⟩
  · rw [Restored, if_neg h]
    exact departs_of_ne h how
  · refine exec_destroyed (s := ⟨m.departs d how, []⟩) ?_ nofun ht
    rw [departs_of_eq h]
    rfl

def clientA : Client := ⟨"a", by decide⟩
def clientB : Client := ⟨"b", by decide⟩

def offer : StreamInfo := ⟨"a0x1", "", "v=0", ["candidate:1"]⟩

/-- A sink whose peer has left takes no `START`, of the same client or of another, and a source
whose peer has sent `STOP` takes no stream information of another client. -/
theorem departed_peer_is_kept :
    (∃ s, (machine .sink "k0x1").Reachable s ∧
      (s.manager.peerAittId = "a" ∧ ∀ d ∈ [clientA, clientB],
        ((s.manager.departs clientA .leave).handleMsg d.id (.string "START")) =
          s.manager.departs clientA .leave) ∧ ¬ Restored s.manager clientA .leave) ∧
    ∃ s, (machine .src "s0x1").Reachable s ∧
      (s.manager.peerAittId = "a" ∧
        ((s.manager.departs clientA .stop).handleMsg "b" offer.message) =
          s.manager.departs clientA .stop) ∧ ¬ Restored s.manager clientA .stop := by
  constructor
  · obtain ⟨s, hr, hp⟩ := (machine .sink "k0x1").exists_reachable
      [.message clientA (.string "START"), .signal .negotiate]
      (fun s => s.manager.peerAittId = "a" ∧ ∀ d ∈ [clientA, clientB],
        ((s.manager.departs clientA .leave).handleMsg d.id (.string "START")) =
          s.manager.departs clientA .leave) (by decide)
    have h := of_decide_eq_true hp
    exact ⟨s, hr, h, not_restored_of_eq (d := clientA) h.1 _⟩
  · obtain ⟨s, hr, hp⟩ := (machine .src "s0x1").exists_reachable
      [.message clientA offer.message, .signal .negotiate]
      (fun s => s.manager.peerAittId = "a" ∧
        ((s.manager.departs clientA .stop).handleMsg "b" offer.message) =
          s.manager.departs clientA .stop) (by decide)
    have h := of_decide_eq_true hp
    exact ⟨s, hr, h, not_restored_of_eq (d := clientA) h.1 _⟩

end WebRtcManager
