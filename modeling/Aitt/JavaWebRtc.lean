import Aitt.WebRtcManager

/-! A WebRTC stream of the Java library: one peer at most, whose messages arrive while the
stream has its peer connection and while it has none. -/
namespace JavaWebRtc

open TransitionRuns
open WebRtcManager (Client)

inductive StreamRole where
  | publisher
  | subscriber
  deriving DecidableEq, Repr

inductive StreamState where
  | init
  | ready
  | playing
  deriving DecidableEq, Repr

/-- What a `PeerConnection` was given. While `describing` holds, an offer or an answer is being
made for it. -/
structure Connection where
  remoteDescription : Option String := none
  candidates : List String := []
  describing : Bool := false
  deriving DecidableEq, Repr

def Connection.update (c : Connection) (candidates : List String) : Connection :=
  { c with candidates := c.candidates ++ candidates }

/-- Discovery ids are not empty, so the tests for empty ids make no difference. -/
structure WebRTC where
  role : StreamRole
  peerConnection : Option Connection := none
  localDataChannel : Bool := false
  localDescription : Option String := none
  iceCandidates : List String := []
  peerDiscoveryId : Option Client := none
  peerId : Option String := none
  deriving DecidableEq

/-- An error is a null pointer exception, with the fields as they were when it was thrown. -/
abbrev Result := Except WebRTC WebRTC

namespace WebRTC

def call (w : WebRTC) (f : Connection → Connection) : Result :=
  match w.peerConnection with
  | none => .error w
  | some c => .ok { w with peerConnection := some (f c) }

/-- The signalling state of a publisher that gets an offer makes it create the answer. -/
def setRemoteDescription (w : WebRTC) (sdp : String) : Result :=
  if sdp = "" then .ok w
  else w.call fun c =>
    { c with remoteDescription := some sdp, describing := c.describing || w.role = .publisher }

def addIceCandidate (w : WebRTC) (candidate : String) : Result :=
  w.call (·.update [candidate])

def updatePeer (w : WebRTC) (candidates : List String) : Result :=
  candidates.foldlM addIceCandidate w

def addPeer (w : WebRTC) (peerId sdp : String) (candidates : List String) : Result := do
  let w ← { w with peerId := some peerId }.setRemoteDescription sdp
  w.updatePeer candidates

def offer (w : WebRTC) : WebRTC :=
  if w.localDescription = none then
    { w with peerConnection := w.peerConnection.map ({ · with describing := true }) }
  else w

def setPeerDiscoveryId (w : WebRTC) (id : Client) : WebRTC × Bool :=
  if w.peerDiscoveryId ≠ none then (w, false)
  else
    let w := { w with peerDiscoveryId := some id }
    match w.role with
    | .publisher => (w, true)
    | .subscriber => (w.offer, true)

def removePeer (w : WebRTC) : WebRTC :=
  if w.peerDiscoveryId = none then w
  else
    { w with
      peerDiscoveryId := none
      peerId := none
      localDescription := none
      iceCandidates := [] }

def connected (w : WebRTC) : WebRTC :=
  { w with peerConnection := some {}, localDataChannel := true }

/-- The library may fail to create the connection. -/
def initializePeerConnection (w : WebRTC) (created : Bool) : Option WebRTC :=
  if w.peerConnection ≠ none then some w else if created then some w.connected else none

/-- `none` is the `InstantiationException`. -/
def start (w : WebRTC) (created : Bool) : Option WebRTC :=
  (w.initializePeerConnection created).map fun w =>
    match w.role with
    | .publisher => w
    | .subscriber => if w.peerDiscoveryId ≠ none then w.offer else w

def stop (w : WebRTC) : Result :=
  if w.peerConnection = none then .ok w
  else if w.localDataChannel then .ok { w with localDataChannel := false, peerConnection := none }
  else .error w

end WebRTC

structure StreamInfo where
  id : String
  peerId : String
  sdp : String
  iceCandidates : List String
  deriving DecidableEq, Repr

/-- A discovery message on the topic that is watched. Stream information that lacks a field is
`invalid`. -/
inductive Message where
  | text (state : String)
  | info (i : StreamInfo)
  | invalid
  | leave
  deriving DecidableEq, Repr

structure Stream where
  id : String
  webrtc : WebRTC
  streamState : StreamState := .init
  jniInterface : Bool := false
  watched : Bool := false
  deriving DecidableEq

namespace Stream

def create (id : String) (role : StreamRole) : Stream := { id := id, webrtc := { role := role } }

def lift (s : Stream) : Result → Except Stream Stream
  | .ok w => .ok { s with webrtc := w }
  | .error w => .error { s with webrtc := w }

/-- `none` is the exception for a null string. -/
def generateDiscoveryMessage (s : Stream) : Option StreamInfo := do
  let peerId ← s.webrtc.peerId <|> s.webrtc.peerDiscoveryId.map (·.id)
  let sdp ← s.webrtc.localDescription
  return ⟨s.id, peerId, sdp, s.webrtc.iceCandidates⟩

def publishDiscoveryMessage (s : Stream) (msgs : List Message) : List Message :=
  if s.jniInterface then msgs else []

/-- The stream and what it publishes. An `InstantiationException` leaves it as it was. -/
def start (s : Stream) (created : Bool) : Stream × List Message :=
  if s.streamState ≠ .init then (s, [])
  else
    match s.webrtc.start created with
    | none => (s, [])
    | some w =>
      let t := { s with webrtc := w, streamState := .ready }
      match w.role with
      | .publisher => (t, t.publishDiscoveryMessage [.text "START"])
      | .subscriber =>
        if w.iceCandidates = [] then (t, [])
        else (t, t.publishDiscoveryMessage (t.generateDiscoveryMessage.toList.map .info))

/-- `WebRTC.removePeer` and `WebRTC.stop`, which `stop` and `removePeer` have in common. -/
def dropPeer (s : Stream) : Except Stream Stream := do
  let t ← s.lift s.webrtc.removePeer.stop
  return { t with streamState := .init }

def stop (s : Stream) : Except Stream (Stream × List Message) :=
  if s.streamState = .init then .ok (s, [])
  else do
    let t ← s.dropPeer
    return (t, t.publishDiscoveryMessage [.text "STOP"])

def disconnect (s : Stream) : Except Stream (Stream × List Message) := do
  let (t, msgs) ← s.stop
  return ({ t with watched := t.watched && !t.jniInterface }, msgs)

def setJNIInterface (s : Stream) : Stream := { s with jniInterface := true, watched := true }

def removePeer (s : Stream) (clientId : Client) : Except Stream Stream :=
  if s.webrtc.peerDiscoveryId = some clientId then s.dropPeer else .ok s

def handleStreamState (s : Stream) (clientId : Client) (peerState : String) :
    Except Stream Stream :=
  if peerState = "STOP" then s.removePeer clientId
  else if peerState = "START" then
    match s.webrtc.role with
    | .publisher => .ok s
    | .subscriber => .ok { s with webrtc := (s.webrtc.setPeerDiscoveryId clientId).1 }
  else .ok s

def handleStreamInfo (s : Stream) (clientId : Client) (i : StreamInfo) : Except Stream Stream :=
  match s.webrtc.peerDiscoveryId with
  | none =>
    let r := s.webrtc.setPeerDiscoveryId clientId
    if r.2 then s.lift (r.1.addPeer i.id i.sdp i.iceCandidates) else .ok { s with webrtc := r.1 }
  | some peer =>
    if peer ≠ clientId then .ok s
    else if s.id ≠ i.peerId then .ok s
    else if s.webrtc.peerId = none then s.lift (s.webrtc.addPeer i.id i.sdp i.iceCandidates)
    else s.lift (s.webrtc.updatePeer i.iceCandidates)

def handle (s : Stream) (clientId : Client) : Message → Except Stream Stream
  | .leave => s.removePeer clientId
  | .text peerState => s.handleStreamState clientId peerState
  | .info i => s.handleStreamInfo clientId i
  | .invalid => .ok s

def described (s : Stream) (sdp : String) : Option Stream :=
  match s.webrtc.peerConnection with
  | some c =>
    if c.describing then
      some { s with webrtc := { s.webrtc with
        peerConnection := some { c with describing := false }
        localDescription := some sdp } }
    else none
  | none => none

/-- The library gathers candidates once it has the local description. -/
def gathered (s : Stream) (candidate : String) : Option (Stream × List Message) :=
  if s.webrtc.peerConnection = none ∨ s.webrtc.localDescription = none then none
  else
    let t := { s with webrtc := { s.webrtc with
      iceCandidates := s.webrtc.iceCandidates ++ [candidate] } }
    some (t, t.publishDiscoveryMessage (t.generateDiscoveryMessage.toList.map .info))

end Stream

def Connection.add (c : Connection) (role : StreamRole) (sdp : String) (candidates : List String) :
    Connection where
  remoteDescription := if sdp = "" then c.remoteDescription else some sdp
  candidates := c.candidates ++ candidates
  describing := c.describing || (sdp ≠ "" && role = .publisher)

def WebRTC.dropped (w : WebRTC) : WebRTC :=
  { w.removePeer with peerConnection := none, localDataChannel := false }

def Stream.Accepts (s : Stream) (d : Client) (i : StreamInfo) : Prop :=
  ∀ peer ∈ s.webrtc.peerDiscoveryId, peer = d ∧ i.peerId = s.id

def Stream.Concerned (s : Stream) (d : Client) : Message → Prop
  | .text peerState => peerState = "STOP" ∧ s.webrtc.peerDiscoveryId = some d ∨
      peerState = "START" ∧ s.webrtc.role = .subscriber ∧ s.webrtc.peerDiscoveryId = none
  | .info i => s.Accepts d i
  | .leave => s.webrtc.peerDiscoveryId = some d
  | .invalid => False

instance (s : Stream) (d : Client) (i : StreamInfo) : Decidable (s.Accepts d i) :=
  inferInstanceAs (Decidable (∀ _ ∈ _, _))

instance (s : Stream) (d : Client) (msg : Message) : Decidable (s.Concerned d msg) :=
  match msg with
  | .text _ => inferInstanceAs (Decidable (_ ∨ _))
  | .info i => inferInstanceAs (Decidable (s.Accepts d i))
  | .leave => inferInstanceAs (Decidable (_ = _))
  | .invalid => inferInstanceAs (Decidable False)

inductive Handled (s : Stream) (d : Client) : Message → Except Stream Stream → Prop where
  | ignored {msg} : ¬ s.Concerned d msg → Handled s d msg (.ok s)
  | removed {msg} : msg = .leave ∨ msg = .text "STOP" → s.webrtc.peerDiscoveryId = some d →
      Handled s d msg s.dropPeer
  | announced : s.webrtc.role = .subscriber → s.webrtc.peerDiscoveryId = none →
      Handled s d (.text "START")
        (.ok { s with webrtc := { s.webrtc with peerDiscoveryId := some d }.offer })
  | first (i : StreamInfo) : s.webrtc.peerDiscoveryId = none →
      Handled s d (.info i)
        (s.lift ((s.webrtc.setPeerDiscoveryId d).1.addPeer i.id i.sdp i.iceCandidates))
  | added (i : StreamInfo) : s.webrtc.peerDiscoveryId = some d → i.peerId = s.id →
      s.webrtc.peerId = none →
      Handled s d (.info i) (s.lift (s.webrtc.addPeer i.id i.sdp i.iceCandidates))
  | updated (i : StreamInfo) : s.webrtc.peerDiscoveryId = some d → i.peerId = s.id →
      s.webrtc.peerId ≠ none →
      Handled s d (.info i) (s.lift (s.webrtc.updatePeer i.iceCandidates))

variable {s t : Stream} {w : WebRTC} {c : Connection} {d : Client} {msg : Message}

/-- Only the connection is asked for an offer. -/
theorem offer_cases (w : WebRTC) :
    w.offer = w ∨ ∃ c, w.peerConnection = some c ∧ w.localDescription = none ∧
      w.offer = { w with peerConnection := some { c with describing := true } } := by
  rw [WebRTC.offer]
  split
  · rename_i hl
    cases hc : w.peerConnection with
    | none =>
      left
      rw [Option.map_none, ← hc]
    | some c => exact .inr ⟨c, rfl, hl, rfl⟩
  · exact .inl rfl

theorem offer_frame (w : WebRTC) :
    w.offer.peerId = w.peerId ∧ w.offer.iceCandidates = w.iceCandidates ∧
      w.offer.localDescription = w.localDescription := by
  rcases offer_cases w with he | ⟨c, -, -, he⟩
  · rw [he]
    exact ⟨rfl, rfl, rfl⟩
  · rw [he]
    exact ⟨rfl, rfl, rfl⟩

theorem setPeerDiscoveryId_publisher (hr : w.role = .publisher) (hp : w.peerDiscoveryId = none)
    (d : Client) : w.setPeerDiscoveryId d = ({ w with peerDiscoveryId := some d }, true) := by
  simp only [WebRTC.setPeerDiscoveryId, hp, ne_eq, not_true_eq_false, if_false, hr]

theorem setPeerDiscoveryId_subscriber (hr : w.role = .subscriber)
    (hp : w.peerDiscoveryId = none) (d : Client) :
    w.setPeerDiscoveryId d = ({ w with peerDiscoveryId := some d }.offer, true) := by
  simp only [WebRTC.setPeerDiscoveryId, hp, ne_eq, not_true_eq_false, if_false, hr]

theorem setPeerDiscoveryId_frame (hp : w.peerDiscoveryId = none) (d : Client) :
    (w.setPeerDiscoveryId d).1.peerDiscoveryId = some d ∧
      (w.setPeerDiscoveryId d).1.role = w.role ∧
      ((w.setPeerDiscoveryId d).1.peerConnection = none ↔ w.peerConnection = none) := by
  cases hr : w.role with
  | publisher =>
    rw [setPeerDiscoveryId_publisher hr hp]
    exact ⟨rfl, hr, .rfl⟩
  | subscriber =>
    rw [setPeerDiscoveryId_subscriber hr hp]
    rcases offer_cases { w with peerDiscoveryId := some d } with he | ⟨c, hc, -, he⟩
    · rw [he]
      exact ⟨rfl, hr, .rfl⟩
    · rw [he, hc]
      exact ⟨rfl, hr, by simp⟩

theorem handled_removePeer (h : msg = .leave ∨ msg = .text "STOP") :
    Handled s d msg (s.removePeer d) := by
  rw [Stream.removePeer]
  by_cases hp : s.webrtc.peerDiscoveryId = some d
  · rw [if_pos hp]
    exact .removed h hp
  · rw [if_neg hp]
    refine .ignored fun hc => hp ?_
    rcases h with rfl | rfl
    · exact hc
    · exact hc.elim And.right fun hs => absurd hs.1 (by decide)

theorem handled_handleStreamState (s : Stream) (d : Client) (peerState : String) :
    Handled s d (.text peerState) (s.handleStreamState d peerState) := by
  rw [Stream.handleStreamState]
  by_cases hstop : peerState = "STOP"
  · rw [if_pos hstop]
    exact handled_removePeer (.inr (congrArg Message.text hstop))
  rw [if_neg hstop]
  by_cases hstart : peerState = "START"
  · rw [if_pos hstart]
    cases hr : s.webrtc.role with
    | publisher =>
      refine .ignored ?_
      rintro (h | h)
      · exact hstop h.1
      · cases hr.symm.trans h.2.1
    | subscriber =>
      by_cases hp : s.webrtc.peerDiscoveryId = none
      · rw [setPeerDiscoveryId_subscriber hr hp, hstart]
        exact .announced hr hp
      · simp only [WebRTC.setPeerDiscoveryId, ne_eq, hp, not_false_eq_true, if_true]
        refine .ignored ?_
        rintro (h | h)
        · exact hstop h.1
        · exact hp h.2.2
  · rw [if_neg hstart]
    refine .ignored ?_
    rintro (h | h)
    · exact hstop h.1
    · exact hstart h.1

theorem accepts_some {peer : Client} (h : s.webrtc.peerDiscoveryId = some peer) (i : StreamInfo) :
    s.Accepts d i ↔ peer = d ∧ i.peerId = s.id := by
  simp [Stream.Accepts, h]

theorem handled_handleStreamInfo (s : Stream) (d : Client) (i : StreamInfo) :
    Handled s d (.info i) (s.handleStreamInfo d i) := by
  rw [Stream.handleStreamInfo]
  cases hp : s.webrtc.peerDiscoveryId with
  | none =>
    have hset : (s.webrtc.setPeerDiscoveryId d).2 = true := by
      cases hr : s.webrtc.role with
      | publisher => rw [setPeerDiscoveryId_publisher hr hp]
      | subscriber => rw [setPeerDiscoveryId_subscriber hr hp]
    simp only [hset, if_true]
    exact .first i hp
  | some peer =>
    by_cases hd : peer = d
    · by_cases hid : s.id = i.peerId
      · simp only [ne_eq, hd, hid, not_true_eq_false, if_false]
        by_cases hpeer : s.webrtc.peerId = none
        · rw [if_pos hpeer]
          exact .added i (hd ▸ hp) hid.symm hpeer
        · rw [if_neg hpeer]
          exact .updated i (hd ▸ hp) hid.symm hpeer
      · simp only [ne_eq, hd, hid, not_true_eq_false, not_false_eq_true, if_false, if_true]
        exact .ignored fun h => hid ((accepts_some hp i).mp h).2.symm
    · simp only [ne_eq, hd, not_false_eq_true, if_true]
      exact .ignored fun h => hd ((accepts_some hp i).mp h).1

theorem handled (s : Stream) (d : Client) (msg : Message) : Handled s d msg (s.handle d msg) := by
  cases msg with
  | text peerState => exact handled_handleStreamState s d peerState
  | info i => exact handled_handleStreamInfo s d i
  | invalid => exact .ignored id
  | leave => exact handled_removePeer (.inl rfl)

/-- `start` of a stream without a connection. -/
theorem start_eq_some (hc : w.peerConnection = none) {created : Bool} {v : WebRTC}
    (hv : w.start created = some v) :
    v = w.connected ∧ (w.role = .publisher ∨ w.peerDiscoveryId = none) ∨
      v = w.connected.offer ∧ w.role = .subscriber ∧ w.peerDiscoveryId ≠ none := by
  obtain ⟨u, hu, rfl⟩ := Option.map_eq_some_iff.mp hv
  have hcreated : u = w.connected := by
    cases created <;> simp [WebRTC.initializePeerConnection, hc] at hu
    exact hu.symm
  subst hcreated
  have hrole : w.connected.role = w.role := rfl
  cases hr : w.role with
  | publisher =>
    rw [hrole, hr]
    exact .inl ⟨rfl, .inl rfl⟩
  | subscriber =>
    rw [hrole, hr]
    by_cases hp : w.peerDiscoveryId = none
    · exact .inl ⟨if_neg (not_not.mpr hp), .inr hp⟩
    · exact .inr ⟨if_pos hp, rfl, hp⟩

theorem start_ready (hs : s.streamState = .init) {created : Bool}
    (hw : s.webrtc.start created = some w) :
    (s.start created).1 = { s with webrtc := w, streamState := .ready } := by
  rw [Stream.start, if_neg (not_not.mpr hs), hw]
  dsimp only
  split
  · rfl
  · split <;> rfl

theorem start_cases (s : Stream) (created : Bool) :
    (s.start created).1 = s ∨
      s.streamState = .init ∧ ∃ w, s.webrtc.start created = some w := by
  by_cases hs : s.streamState = .init
  · cases hw : s.webrtc.start created with
    | none =>
      rw [Stream.start, if_neg (not_not.mpr hs), hw]
      exact .inl rfl
    | some w => exact .inr ⟨hs, w, rfl⟩
  · rw [Stream.start, if_pos hs]
    exact .inl rfl

theorem updatePeer_some (h : w.peerConnection = some c) (candidates : List String) :
    w.updatePeer candidates = .ok { w with peerConnection := some (c.update candidates) } := by
  induction candidates generalizing w c with
  | nil =>
    simp [WebRTC.updatePeer, pure, Except.pure, Connection.update, ← h]
  | cons candidate candidates ih =>
    have hadd : w.addIceCandidate candidate =
        .ok { w with peerConnection := some (c.update [candidate]) } := by
      rw [WebRTC.addIceCandidate, WebRTC.call, h]
    have hrest := ih (w := { w with peerConnection := some (c.update [candidate]) }) rfl
    have htwice : (c.update [candidate]).update candidates =
        c.update (candidate :: candidates) := by
      simp [Connection.update]
    rw [WebRTC.updatePeer, List.foldlM_cons, hadd]
    rw [htwice] at hrest
    exact hrest

theorem updatePeer_none (h : w.peerConnection = none) (candidates : List String) :
    w.updatePeer candidates = if candidates = [] then .ok w else .error w := by
  cases candidates with
  | nil => rfl
  | cons candidate candidates =>
    have hadd : w.addIceCandidate candidate = .error w := by
      rw [WebRTC.addIceCandidate, WebRTC.call, h]
    rw [WebRTC.updatePeer, List.foldlM_cons, hadd]
    rfl

theorem addPeer_some (h : w.peerConnection = some c) (peerId sdp : String)
    (candidates : List String) :
    w.addPeer peerId sdp candidates =
      .ok { w with
        peerId := some peerId
        peerConnection := some (c.add w.role sdp candidates) } := by
  by_cases hsdp : sdp = ""
  · rw [WebRTC.addPeer, WebRTC.setRemoteDescription, if_pos hsdp]
    refine (updatePeer_some (w := { w with peerId := some peerId }) h candidates).trans ?_
    simp [Connection.add, Connection.update, hsdp]
  · rw [WebRTC.addPeer, WebRTC.setRemoteDescription, if_neg hsdp, WebRTC.call, h]
    refine (updatePeer_some rfl candidates).trans ?_
    simp [Connection.add, Connection.update, hsdp]

theorem addPeer_none (h : w.peerConnection = none) (peerId sdp : String)
    (candidates : List String) :
    w.addPeer peerId sdp candidates =
      if sdp = "" ∧ candidates = [] then .ok { w with peerId := some peerId }
      else .error { w with peerId := some peerId } := by
  by_cases hsdp : sdp = ""
  · rw [WebRTC.addPeer, WebRTC.setRemoteDescription, if_pos hsdp]
    refine (updatePeer_none (w := { w with peerId := some peerId }) h candidates).trans ?_
    simp [hsdp]
  · rw [WebRTC.addPeer, WebRTC.setRemoteDescription, if_neg hsdp, WebRTC.call, h]
    simp [hsdp, bind, Except.bind]

theorem handle_ignored (h : ¬ s.Concerned d msg) : s.handle d msg = .ok s := by
  have hm := handled s d msg
  generalize s.handle d msg = r at hm
  cases hm with
  | ignored => rfl
  | removed hmsg hp =>
    rcases hmsg with rfl | rfl
    · exact absurd hp h
    · exact absurd (.inl ⟨rfl, hp⟩) h
  | announced hr hp => exact absurd (.inr ⟨rfl, hr, hp⟩) h
  | first i hp => exact absurd (fun peer hpeer => by cases hp.symm.trans hpeer) h
  | added i hp hid => exact absurd ((accepts_some hp i).mpr ⟨rfl, hid⟩) h
  | updated i hp hid => exact absurd ((accepts_some hp i).mpr ⟨rfl, hid⟩) h

theorem handle_start (hr : s.webrtc.role = .subscriber) (hp : s.webrtc.peerDiscoveryId = none) :
    s.handle d (.text "START") =
      .ok { s with webrtc := { s.webrtc with peerDiscoveryId := some d }.offer } := by
  have hset := setPeerDiscoveryId_subscriber hr hp d
  simp [Stream.handle, Stream.handleStreamState, hr, hset]

variable {i : StreamInfo}

theorem handle_first (hr : s.webrtc.role = .publisher) (hp : s.webrtc.peerDiscoveryId = none)
    (hc : s.webrtc.peerConnection = some c) :
    s.handle d (.info i) = .ok { s with webrtc := { s.webrtc with
      peerDiscoveryId := some d
      peerId := some i.id
      peerConnection := some (c.add s.webrtc.role i.sdp i.iceCandidates) } } := by
  have hset := setPeerDiscoveryId_publisher hr hp d
  simp only [Stream.handle, Stream.handleStreamInfo, hp, hset, if_true]
  exact congrArg s.lift (addPeer_some (w := { s.webrtc with peerDiscoveryId := some d }) hc _ _ _)

theorem handle_added (hp : s.webrtc.peerDiscoveryId = some d) (hid : i.peerId = s.id)
    (hq : s.webrtc.peerId = none) (hc : s.webrtc.peerConnection = some c) :
    s.handle d (.info i) = .ok { s with webrtc := { s.webrtc with
      peerId := some i.id
      peerConnection := some (c.add s.webrtc.role i.sdp i.iceCandidates) } } := by
  simp [Stream.handle, Stream.handleStreamInfo, hp, hid, hq, addPeer_some hc, Stream.lift]

theorem handle_updated (hp : s.webrtc.peerDiscoveryId = some d) (hid : i.peerId = s.id)
    (hq : s.webrtc.peerId ≠ none) (hc : s.webrtc.peerConnection = some c) :
    s.handle d (.info i) = .ok { s with webrtc := { s.webrtc with
      peerConnection := some (c.update i.iceCandidates) } } := by
  simp [Stream.handle, Stream.handleStreamInfo, hp, hid, hq, updatePeer_some hc, Stream.lift]

theorem without_connection (hc : w.peerConnection = none) (hl : w.localDataChannel = false) :
    { w with peerConnection := none, localDataChannel := false } = w := by
  cases w
  cases hc
  cases hl
  rfl

theorem dropPeer_eq (h : s.webrtc.localDataChannel = s.webrtc.peerConnection.isSome) :
    s.dropPeer = .ok { s with webrtc := s.webrtc.dropped, streamState := .init } := by
  have hconn : s.webrtc.removePeer.peerConnection = s.webrtc.peerConnection ∧
      s.webrtc.removePeer.localDataChannel = s.webrtc.localDataChannel := by
    unfold WebRTC.removePeer
    split <;> exact ⟨rfl, rfl⟩
  have hstop : s.webrtc.removePeer.stop = .ok s.webrtc.dropped := by
    rw [WebRTC.stop, hconn.1, hconn.2, h]
    cases hc : s.webrtc.peerConnection with
    | none =>
      rw [hc] at hconn h
      rw [if_pos rfl, WebRTC.dropped, without_connection hconn.1 (hconn.2.trans h)]
    | some c => rfl
  rw [Stream.dropPeer, hstop]
  rfl

end JavaWebRtc
