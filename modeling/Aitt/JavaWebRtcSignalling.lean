import Aitt.JavaWebRtc

/-! A publisher and a subscriber of the Java library on one topic. Each republishes all its
candidates when it gathers one; messages arrive in the order in which they were published, and
other clients send what they like. -/
namespace JavaWebRtcSignalling

open TransitionRuns JavaWebRtc
open WebRtcManager (Client)

structure Pair where
  publisher : Client
  subscriber : Client
  publisherId : String
  subscriberId : String
  random : publisherId ≠ publisher.id

/-- `entry` is the latest stream information of the subscriber; `disturbed` says that a message of
another client has changed a stream. -/
structure State where
  publisher : Stream
  subscriber : Stream
  toPublisher : List Message := []
  toSubscriber : List Message := []
  entry : Option StreamInfo := none
  disturbed : Bool := false
  deriving DecidableEq

inductive Event where
  | start (r : StreamRole)
  | described (r : StreamRole) (sdp : String)
  | gathered (r : StreamRole) (candidate : String)
  | deliver (r : StreamRole)
  | other (r : StreamRole) (d : Client) (msg : Message)
  deriving DecidableEq

def receive (s : Stream) (d : Client) (msg : Message) : Stream :=
  match s.handle d msg with
  | .ok t | .error t => t

namespace State

def side (s : State) : StreamRole → Stream
  | .publisher => s.publisher
  | .subscriber => s.subscriber

def setSide (s : State) (r : StreamRole) (t : Stream) : State :=
  match r with
  | .publisher => { s with publisher := t }
  | .subscriber => { s with subscriber := t }

def publish (s : State) (r : StreamRole) (result : Stream × List Message) : State :=
  match r with
  | .publisher => { s with publisher := result.1, toSubscriber := s.toSubscriber ++ result.2 }
  | .subscriber =>
    { s with
      subscriber := result.1
      toPublisher := s.toPublisher ++ result.2
      entry := (result.2.getLast?.bind fun msg =>
        match msg with
        | .info i => some i
        | _ => none).or s.entry }

end State

def step (p : Pair) (s : State) : Event → Option State
  | .start r => some (s.publish r ((s.side r).start true))
  | .described r sdp =>
    if sdp = "" then none else ((s.side r).described sdp).map (s.setSide r)
  | .gathered r candidate => ((s.side r).gathered candidate).map (s.publish r)
  | .deliver .publisher =>
    match s.toPublisher with
    | [] => none
    | msg :: rest =>
      some { s with publisher := receive s.publisher p.subscriber msg, toPublisher := rest }
  | .deliver .subscriber =>
    match s.toSubscriber with
    | [] => none
    | msg :: rest =>
      some { s with subscriber := receive s.subscriber p.publisher msg, toSubscriber := rest }
  | .other r d msg =>
    if d = p.publisher ∨ d = p.subscriber then none
    else
      let t := receive (s.side r) d msg
      some { s.setSide r t with disturbed := s.disturbed || t ≠ s.side r }

def machine (p : Pair) : Machine State Event where
  initial :=
    { publisher := (Stream.create p.publisherId .publisher).setJNIInterface
      subscriber := (Stream.create p.subscriberId .subscriber).setJNIInterface }
  step := step p

def Inert (r : StreamRole) : Message → Prop
  | .text peerState => peerState = "START" → r = .publisher
  | .info _ => False
  | .leave | .invalid => True

/-- Other clients make themselves known to a stream only when it has its peer. -/
def Ok (s : State) : Event → Prop
  | .other r _ msg => (s.side r).webrtc.peerDiscoveryId = none → Inert r msg
  | _ => True

/-- The receiver has applied the description and all candidates of a sender that has gathered
some. -/
def Applied (receiver sender : Stream) : Prop :=
  sender.webrtc.iceCandidates ≠ [] → ∃ c ∈ receiver.webrtc.peerConnection,
    c.remoteDescription = sender.webrtc.localDescription ∧
      sender.webrtc.iceCandidates ⊆ c.candidates

/-- The subscriber knew the id of the publisher's stream when it gathered its latest candidate,
or that one was in its first message. -/
def Informed (p : Pair) (s : State) : Prop :=
  ∀ e ∈ s.entry, e.peerId = p.publisherId ∨ e.iceCandidates ⊆ e.iceCandidates.take 1

instance (r : StreamRole) (msg : Message) : Decidable (Inert r msg) :=
  match msg with
  | .text _ => inferInstanceAs (Decidable (_ → _))
  | .info _ => inferInstanceAs (Decidable False)
  | .leave | .invalid => inferInstanceAs (Decidable True)

instance (s : State) (e : Event) : Decidable (Ok s e) :=
  match e with
  | .other _ _ _ => inferInstanceAs (Decidable (_ → _))
  | .start _ | .described _ _ | .gathered _ _ | .deliver _ => isTrue trivial

instance (receiver sender : Stream) : Decidable (Applied receiver sender) :=
  inferInstanceAs (Decidable (_ → ∃ _ ∈ _, _))

structure Side (role : StreamRole) (id : String) (peer : Client) (m : Stream) : Prop where
  role : m.webrtc.role = role
  id : m.id = id
  jniInterface : m.jniInterface = true
  init : m.streamState = .init → m.webrtc.peerConnection = none
  connected : m.webrtc.localDescription ≠ none → m.webrtc.peerConnection ≠ none
  nonempty : ∀ sdp ∈ m.webrtc.localDescription, sdp ≠ ""
  describing : ∀ c ∈ m.webrtc.peerConnection, c.describing = true →
    m.webrtc.localDescription = none
  gathered : m.webrtc.iceCandidates ≠ [] → m.webrtc.localDescription ≠ none
  fresh : m.webrtc.peerDiscoveryId = none → m.webrtc.peerId = none ∧
    m.webrtc.localDescription = none ∧ ∀ c ∈ m.webrtc.peerConnection, c = {}
  peer : ∀ d ∈ m.webrtc.peerDiscoveryId, d = peer

def Sent (m : Stream) (i : StreamInfo) : Prop :=
  i.id = m.id ∧ m.webrtc.localDescription = some i.sdp

/-- What the publisher `m` has of the subscriber `n`. -/
structure PubHears (p : Pair) (m n : Stream) (inbox : List Message) (entry : Option StreamInfo) :
    Prop where
  peerId : ∀ d ∈ m.webrtc.peerDiscoveryId, m.webrtc.peerId = some p.subscriberId
  sent : ∀ msg ∈ inbox, ∃ i, msg = .info i ∧ Sent n i
  nothing : n.webrtc.iceCandidates = [] → inbox = [] ∧ entry = none
  latest : n.webrtc.iceCandidates ≠ [] → ∃ e, entry = some e ∧
    e.iceCandidates = n.webrtc.iceCandidates ∧
    (inbox ≠ [] → inbox.getLast? = some (.info e))
  known : ∀ e ∈ entry, e.peerId = p.publisherId → n.webrtc.peerId ≠ none
  early : ∀ e ∈ entry, e.peerId ≠ p.publisherId → ∀ i, .info i ∈ inbox →
    i.peerId ≠ p.publisherId
  unheard : m.webrtc.peerDiscoveryId = none → n.webrtc.iceCandidates ≠ [] →
    ∃ i rest, inbox = .info i :: rest ∧ i.iceCandidates = n.webrtc.iceCandidates.take 1
  heard : m.webrtc.peerDiscoveryId ≠ none → n.webrtc.iceCandidates ≠ [] ∧
    ∃ c, m.webrtc.peerConnection = some c ∧
      c.remoteDescription = n.webrtc.localDescription ∧
      ∀ e ∈ entry,
        (e.peerId = p.publisherId → inbox = [] → n.webrtc.iceCandidates ⊆ c.candidates) ∧
        (e.peerId ≠ p.publisherId → c.candidates = n.webrtc.iceCandidates.take 1)

/-- What the subscriber `n` has of the publisher `m`. -/
structure SubHears (p : Pair) (m n : Stream) (inbox : List Message) : Prop where
  sent : ∀ msg ∈ inbox, msg = .text "START" ∨
    ∃ i, msg = .info i ∧ Sent m i ∧ i.peerId = p.subscriberId
  started : inbox ≠ [] ∨ n.webrtc.peerDiscoveryId ≠ none → m.webrtc.peerConnection ≠ none
  peerId : ∀ q ∈ n.webrtc.peerId, q = p.publisherId
  peered : n.webrtc.peerId ≠ none → m.webrtc.localDescription ≠ none ∧
    ∃ c, n.webrtc.peerConnection = some c ∧ c.remoteDescription = m.webrtc.localDescription
  covered : m.webrtc.iceCandidates ≠ [] →
    (∃ i, inbox.getLast? = some (.info i) ∧ i.iceCandidates = m.webrtc.iceCandidates) ∨
    n.webrtc.peerId ≠ none ∧
      ∃ c ∈ n.webrtc.peerConnection, m.webrtc.iceCandidates ⊆ c.candidates

structure Inv (p : Pair) (s : State) : Prop where
  publisher : Side .publisher p.publisherId p.subscriber s.publisher
  subscriber : Side .subscriber p.subscriberId p.publisher s.subscriber
  pubHears : PubHears p s.publisher s.subscriber s.toPublisher s.entry
  subHears : SubHears p s.publisher s.subscriber s.toSubscriber
  undisturbed : s.disturbed = false

variable {p : Pair} {s t : State} {m n m' n' : Stream} {role : StreamRole} {id : String}
  {peer d : Client} {msg : Message} {inbox rest : List Message} {entry : Option StreamInfo}

theorem receive_of_ok (h : m.handle d msg = .ok m') : receive m d msg = m' := by
  rw [receive, h]

def startConnection (m : Stream) : Connection :=
  { describing := m.webrtc.role = .subscriber ∧ m.webrtc.peerDiscoveryId ≠ none }

def startStream (m : Stream) : Stream :=
  { m with
    webrtc := { m.webrtc with
      peerConnection := some (startConnection m)
      localDataChannel := true }
    streamState := .ready }

theorem Side.start_eq (h : Side role id peer m) (hs : m.streamState = .init) :
    m.start true = (startStream m, if role = .publisher then [.text "START"] else []) := by
  have hc := h.init hs
  have hl : m.webrtc.localDescription = none := by
    by_contra hl
    exact h.connected hl hc
  have hi : m.webrtc.iceCandidates = [] := by
    by_contra hi
    exact h.gathered hi hl
  have hr := h.role
  cases role with
  | publisher =>
    simp [Stream.start, hs, WebRTC.start, WebRTC.initializePeerConnection, hc, hr,
      WebRTC.connected, startStream, startConnection, Stream.publishDiscoveryMessage,
      h.jniInterface]
  | subscriber =>
    by_cases hp : m.webrtc.peerDiscoveryId = none <;>
      simp [Stream.start, hs, WebRTC.start, WebRTC.initializePeerConnection, hc, hr, hp, hl, hi,
        WebRTC.connected, WebRTC.offer, startStream, startConnection]

theorem Side.undescribed (h : Side role id peer m) (hc : m.webrtc.peerConnection = none) :
    m.webrtc.localDescription = none := by
  by_contra hl
  exact h.connected hl hc

theorem Side.has_peer (h : Side role id peer m) (hl : m.webrtc.localDescription ≠ none) :
    m.webrtc.peerDiscoveryId = some peer := by
  cases hp : m.webrtc.peerDiscoveryId with
  | none => exact absurd (h.fresh hp).2.1 hl
  | some d => rw [h.peer d hp]

theorem Side.started (h : Side role id peer m) (hs : m.streamState = .init) :
    Side role id peer (startStream m) where
  role := h.role
  id := h.id
  jniInterface := h.jniInterface
  init := nofun
  connected _ := nofun
  nonempty := h.nonempty
  describing _ _ _ := h.undescribed (h.init hs)
  gathered := h.gathered
  fresh hp := by
    refine ⟨(h.fresh hp).1, (h.fresh hp).2.1, ?_⟩
    rintro _ ⟨⟩
    have hp' : m.webrtc.peerDiscoveryId = none := hp
    simp [startConnection, hp']
  peer := h.peer

theorem described_eq {sdp : String} (h : m.described sdp = some m') :
    ∃ c, m.webrtc.peerConnection = some c ∧ c.describing = true ∧
      m' = { m with webrtc := { m.webrtc with
        peerConnection := some { c with describing := false }
        localDescription := some sdp } } := by
  rw [Stream.described] at h
  cases hc : m.webrtc.peerConnection with
  | none => simp [hc] at h
  | some c =>
    simp only [hc, Option.ite_none_right_eq_some, Option.some.injEq] at h
    exact ⟨c, rfl, h.1, h.2.symm⟩

theorem Side.described (h : Side role id peer m) {sdp : String} (hsdp : sdp ≠ "")
    (hm : m.described sdp = some m') : Side role id peer m' := by
  obtain ⟨c, hc, hd, rfl⟩ := described_eq hm
  refine ⟨h.role, h.id, h.jniInterface, fun hs => ?_, fun _ => nofun, ?_, ?_, fun _ => nofun,
    fun hp => ?_, h.peer⟩
  · cases hc.symm.trans (h.init hs)
  · rintro _ ⟨⟩
    exact hsdp
  · rintro _ ⟨⟩ ⟨⟩
  · rw [(h.fresh hp).2.2 c hc] at hd
    cases hd

def gatherStream (m : Stream) (candidate : String) : Stream :=
  { m with webrtc := { m.webrtc with
    iceCandidates := m.webrtc.iceCandidates ++ [candidate] } }

def gatherInfo (m : Stream) (peer : Client) (sdp candidate : String) : StreamInfo :=
  ⟨m.id, m.webrtc.peerId.getD peer.id, sdp, m.webrtc.iceCandidates ++ [candidate]⟩

theorem Side.gathered_eq (h : Side role id peer m) {candidate : String}
    {result : Stream × List Message} (hm : m.gathered candidate = some result) :
    ∃ sdp, m.webrtc.localDescription = some sdp ∧ m.webrtc.peerDiscoveryId = some peer ∧
      result = (gatherStream m candidate, [.info (gatherInfo m peer sdp candidate)]) := by
  rw [Stream.gathered] at hm
  split at hm
  · cases hm
  · rename_i hn
    obtain ⟨sdp, hl⟩ := Option.ne_none_iff_exists'.mp fun hl => hn (.inr hl)
    have hp := h.has_peer (Option.ne_none_iff_exists'.mpr ⟨sdp, hl⟩)
    refine ⟨sdp, hl, hp, ?_⟩
    cases hm
    cases hq : m.webrtc.peerId <;>
      simp [Stream.publishDiscoveryMessage, Stream.generateDiscoveryMessage, h.jniInterface, hl,
        hp, hq, gatherStream, gatherInfo]

theorem Side.gather (h : Side role id peer m) (hl : m.webrtc.localDescription ≠ none)
    (candidate : String) : Side role id peer (gatherStream m candidate) :=
  ⟨h.role, h.id, h.jniInterface, h.init, h.connected, h.nonempty, h.describing, fun _ => hl,
    h.fresh, h.peer⟩

/-- The publisher changes nothing that it has of the subscriber. -/
theorem PubHears.samePub (h : PubHears p m n inbox entry)
    (hp : m'.webrtc.peerDiscoveryId = m.webrtc.peerDiscoveryId)
    (hq : m'.webrtc.peerId = m.webrtc.peerId)
    (hc : ∀ c, m.webrtc.peerConnection = some c → ∃ c', m'.webrtc.peerConnection = some c' ∧
      c'.remoteDescription = c.remoteDescription ∧ c'.candidates = c.candidates) :
    PubHears p m' n inbox entry where
  peerId := by
    rw [hp, hq]
    exact h.peerId
  sent := h.sent
  nothing := h.nothing
  latest := h.latest
  known := h.known
  early := h.early
  unheard := by
    rw [hp]
    exact h.unheard
  heard hne := by
    rw [hp] at hne
    obtain ⟨hi, c, hcm, hr, hcand⟩ := h.heard hne
    obtain ⟨c', hcm', hr', hcand'⟩ := hc c hcm
    refine ⟨hi, c', hcm', hr'.trans hr, ?_⟩
    rw [hcand']
    exact hcand

/-- A publisher without a peer has nothing of the subscriber. -/
theorem PubHears.unpeered (h : PubHears p m n inbox entry)
    (hp : m.webrtc.peerDiscoveryId = none) (hp' : m'.webrtc.peerDiscoveryId = none) :
    PubHears p m' n inbox entry where
  peerId := by
    rw [hp']
    exact nofun
  sent := h.sent
  nothing := h.nothing
  latest := h.latest
  known := h.known
  early := h.early
  unheard _ := h.unheard hp
  heard hne := absurd hp' hne

/-- The subscriber may only learn the id of the publisher's stream. -/
theorem PubHears.sameSub (h : PubHears p m n inbox entry) (hid : n'.id = n.id)
    (hi : n'.webrtc.iceCandidates = n.webrtc.iceCandidates)
    (hl : n'.webrtc.localDescription = n.webrtc.localDescription)
    (hq : n.webrtc.peerId ≠ none → n'.webrtc.peerId ≠ none) :
    PubHears p m n' inbox entry where
  peerId := h.peerId
  sent msg hm := by
    obtain ⟨i, he, hs⟩ := h.sent msg hm
    exact ⟨i, he, hs.1.trans hid.symm, hl.trans hs.2⟩
  nothing := by
    rw [hi]
    exact h.nothing
  latest := by
    rw [hi]
    exact h.latest
  known e he hk := hq (h.known e he hk)
  early := h.early
  unheard := by
    rw [hi]
    exact h.unheard
  heard := by
    rw [hi, hl]
    exact h.heard

/-- A subscriber without candidates has published nothing. -/
theorem PubHears.silent (h : PubHears p m n inbox entry) (hi : n.webrtc.iceCandidates = [])
    (hi' : n'.webrtc.iceCandidates = []) : PubHears p m n' inbox entry := by
  obtain ⟨rfl, rfl⟩ := h.nothing hi
  refine ⟨h.peerId, nofun, fun _ => ⟨rfl, rfl⟩, fun hn => absurd hi' hn, nofun, nofun,
    fun _ hn => absurd hi' hn, fun hp => absurd hi (h.heard hp).1⟩

theorem SubHears.samePub (h : SubHears p m n inbox) (hid : m'.id = m.id)
    (hi : m'.webrtc.iceCandidates = m.webrtc.iceCandidates)
    (hl : m'.webrtc.localDescription = m.webrtc.localDescription)
    (hc : m.webrtc.peerConnection ≠ none → m'.webrtc.peerConnection ≠ none) :
    SubHears p m' n inbox where
  sent msg hm := by
    refine (h.sent msg hm).imp_right ?_
    rintro ⟨i, he, hs, hq⟩
    exact ⟨i, he, ⟨hs.1.trans hid.symm, hl.trans hs.2⟩, hq⟩
  started hn := hc (h.started hn)
  peerId := h.peerId
  peered := by
    rw [hl]
    exact h.peered
  covered := by
    rw [hi]
    exact h.covered

/-- The subscriber changes nothing that it has of the publisher. -/
theorem SubHears.sameSub (h : SubHears p m n inbox)
    (hp : n'.webrtc.peerDiscoveryId = n.webrtc.peerDiscoveryId)
    (hq : n'.webrtc.peerId = n.webrtc.peerId)
    (hc : ∀ c, n.webrtc.peerConnection = some c → ∃ c', n'.webrtc.peerConnection = some c' ∧
      c'.remoteDescription = c.remoteDescription ∧ c'.candidates = c.candidates) :
    SubHears p m n' inbox where
  sent := h.sent
  started := by
    rw [hp]
    exact h.started
  peerId := by
    rw [hq]
    exact h.peerId
  peered hn := by
    rw [hq] at hn
    obtain ⟨hl, c, hcm, hr⟩ := h.peered hn
    obtain ⟨c', hcm', hr', -⟩ := hc c hcm
    exact ⟨hl, c', hcm', hr'.trans hr⟩
  covered hn := by
    refine (h.covered hn).imp_right ?_
    rintro ⟨hne, c, hcm, hsub⟩
    obtain ⟨c', hcm', -, hcand⟩ := hc c hcm
    refine ⟨hq ▸ hne, c', hcm', ?_⟩
    rw [hcand]
    exact hsub

theorem publish_same (s : State) (r : StreamRole) : s.publish r (s.side r, []) = s := by
  cases r <;> simp [State.publish, State.side]

theorem Inv.startPublisher (h : Inv p s) :
    Inv p (s.publish .publisher (s.publisher.start true)) := by
  by_cases hs : s.publisher.streamState = .init
  · have hc := h.publisher.init hs
    have hp : s.publisher.webrtc.peerDiscoveryId = none := by
      by_contra hp
      obtain ⟨-, c, hcm, -⟩ := h.pubHears.heard hp
      cases hc.symm.trans hcm
    have hk : s.publisher.webrtc.iceCandidates = [] := by
      by_contra hk
      exact h.publisher.gathered hk (h.publisher.undescribed hc)
    rw [h.publisher.start_eq hs, if_pos rfl]
    refine ⟨h.publisher.started hs, h.subscriber, h.pubHears.unpeered hp hp, ?_, h.undisturbed⟩
    refine ⟨fun msg hm => ?_, fun _ => nofun, h.subHears.peerId, h.subHears.peered,
      fun hn => absurd hk hn⟩
    rcases List.mem_append.mp hm with hm | hm
    · exact h.subHears.sent msg hm
    · exact .inl (List.mem_singleton.mp hm)
  · have hsame : s.publisher.start true = (s.publisher, []) := by
      rw [Stream.start, if_pos hs]
    have hkeep : s.publish .publisher (s.publisher, []) = s := publish_same s .publisher
    rw [hsame, hkeep]
    exact h

theorem Inv.startSubscriber (h : Inv p s) :
    Inv p (s.publish .subscriber (s.subscriber.start true)) := by
  by_cases hs : s.subscriber.streamState = .init
  · have hc := h.subscriber.init hs
    have hq : s.subscriber.webrtc.peerId = none := by
      by_contra hq
      obtain ⟨-, c, hcm, -⟩ := h.subHears.peered hq
      cases hc.symm.trans hcm
    rw [h.subscriber.start_eq hs, if_neg nofun]
    refine ⟨h.publisher, h.subscriber.started hs, ?_, ?_, h.undisturbed⟩
    · simp only [State.publish, List.append_nil, List.getLast?_nil, Option.bind_none,
        Option.none_or]
      exact h.pubHears.sameSub rfl rfl rfl id
    · refine h.subHears.sameSub rfl rfl fun c hcm => ?_
      cases hc.symm.trans hcm
  · have hsame : s.subscriber.start true = (s.subscriber, []) := by
      rw [Stream.start, if_pos hs]
    have hkeep : s.publish .subscriber (s.subscriber, []) = s := publish_same s .subscriber
    rw [hsame, hkeep]
    exact h

theorem Inv.describedPublisher (h : Inv p s) {sdp : String} (hsdp : sdp ≠ "")
    (hm : s.publisher.described sdp = some m) : Inv p { s with publisher := m } := by
  have hside := h.publisher.described hsdp hm
  obtain ⟨c, hc, hd, rfl⟩ := described_eq hm
  have hl := h.publisher.describing c hc hd
  have hk : s.publisher.webrtc.iceCandidates = [] := by
    by_contra hk
    exact h.publisher.gathered hk hl
  have hq : s.subscriber.webrtc.peerId = none := by
    by_contra hq
    exact (h.subHears.peered hq).1 hl
  refine ⟨hside, h.subscriber, h.pubHears.samePub rfl rfl ?_, ?_, h.undisturbed⟩
  · intro c' hc'
    cases hc.symm.trans hc'
    exact ⟨_, rfl, rfl, rfl⟩
  · refine ⟨fun msg hmsg => ?_, fun _ => nofun, h.subHears.peerId, fun hn => absurd hq hn,
      fun hn => absurd hk hn⟩
    rcases h.subHears.sent msg hmsg with hstart | ⟨i, -, hs, -⟩
    · exact .inl hstart
    · cases hl.symm.trans hs.2

theorem Inv.describedSubscriber (h : Inv p s) {sdp : String} (hsdp : sdp ≠ "")
    (hn : s.subscriber.described sdp = some n) : Inv p { s with subscriber := n } := by
  have hside := h.subscriber.described hsdp hn
  obtain ⟨c, hc, hd, rfl⟩ := described_eq hn
  have hl := h.subscriber.describing c hc hd
  have hi : s.subscriber.webrtc.iceCandidates = [] := by
    by_contra hi
    exact h.subscriber.gathered hi hl
  refine ⟨h.publisher, hside, h.pubHears.silent hi hi, h.subHears.sameSub rfl rfl ?_,
    h.undisturbed⟩
  intro c' hc'
  cases hc.symm.trans hc'
  exact ⟨_, rfl, rfl, rfl⟩

theorem Inv.gatheredPublisher (h : Inv p s) {candidate : String}
    {result : Stream × List Message} (hm : s.publisher.gathered candidate = some result) :
    Inv p (s.publish .publisher result) := by
  obtain ⟨sdp, hl, hp, rfl⟩ := h.publisher.gathered_eq hm
  have hl' := Option.ne_none_iff_exists'.mpr ⟨sdp, hl⟩
  have hq := h.pubHears.peerId _ hp
  refine ⟨h.publisher.gather hl' candidate, h.subscriber,
    h.pubHears.samePub rfl rfl fun c hc => ⟨c, hc, rfl, rfl⟩, ?_, h.undisturbed⟩
  refine ⟨fun msg hmsg => ?_, fun _ => h.publisher.connected hl', h.subHears.peerId,
    h.subHears.peered, fun _ => .inl ⟨_, List.getLast?_concat, rfl⟩⟩
  rcases List.mem_append.mp hmsg with hmsg | hmsg
  · exact h.subHears.sent msg hmsg
  · refine .inr ⟨_, List.mem_singleton.mp hmsg, ⟨rfl, hl⟩, ?_⟩
    rw [gatherInfo, hq]
    rfl

/-- The subscriber gathers a candidate. -/
theorem PubHears.gather (h : PubHears p m n inbox entry) (hr : p.publisherId ≠ p.publisher.id)
    (hq : ∀ q ∈ n.webrtc.peerId, q = p.publisherId) {sdp : String}
    (hl : n.webrtc.localDescription = some sdp) (candidate : String) :
    PubHears p m (gatherStream n candidate)
      (inbox ++ [.info (gatherInfo n p.publisher sdp candidate)])
      (some (gatherInfo n p.publisher sdp candidate)) := by
  have hknown : (gatherInfo n p.publisher sdp candidate).peerId = p.publisherId ↔
      n.webrtc.peerId ≠ none := by
    cases hn : n.webrtc.peerId with
    | none => simpa [gatherInfo, hn] using hr.symm
    | some q => simpa [gatherInfo, hn] using hq q hn
  have hne : (gatherStream n candidate).webrtc.iceCandidates ≠ [] := by simp [gatherStream]
  have hfirst (hi : n.webrtc.iceCandidates ≠ []) :
      (gatherStream n candidate).webrtc.iceCandidates.take 1 = n.webrtc.iceCandidates.take 1 :=
    List.take_append_of_le_length (List.length_pos_iff.mpr hi)
  -- until the subscriber knows the id, none of its messages has had it
  have hunknown (hn : n.webrtc.peerId = none) : ∀ e ∈ entry, e.peerId ≠ p.publisherId :=
    fun e he hk => h.known e he hk hn
  refine ⟨h.peerId, fun msg hm => ?_, fun hi => absurd hi hne,
    fun _ => ⟨_, rfl, rfl, fun _ => List.getLast?_concat⟩, ?_, ?_, fun hp _ => ?_, fun hp => ?_⟩
  · rcases List.mem_append.mp hm with hm | hm
    · exact h.sent msg hm
    · exact ⟨_, List.mem_singleton.mp hm, rfl, hl⟩
  · rintro _ ⟨⟩
    exact hknown.mp
  · rintro _ ⟨⟩ hnew i hm
    rcases List.mem_append.mp hm with hm | hm
    · have hi : n.webrtc.iceCandidates ≠ [] := by
        intro hi
        rw [(h.nothing hi).1] at hm
        cases hm
      obtain ⟨e, he, -⟩ := h.latest hi
      exact h.early e he (hunknown (not_not.mp (mt hknown.mpr hnew)) e he) i hm
    · obtain rfl := Message.info.inj (List.mem_singleton.mp hm)
      exact hnew
  · by_cases hi : n.webrtc.iceCandidates = []
    · rw [(h.nothing hi).1]
      refine ⟨_, [], rfl, ?_⟩
      simp [gatherInfo, gatherStream, hi]
    · obtain ⟨i, rest, rfl, hcand⟩ := h.unheard hp hi
      exact ⟨i, _, rfl, hcand.trans (hfirst hi).symm⟩
  · obtain ⟨hi, c, hc, hrem, hcand⟩ := h.heard hp
    refine ⟨hne, c, hc, hrem, ?_⟩
    rintro _ ⟨⟩
    refine ⟨fun _ hnil => by simp at hnil, fun hnew => ?_⟩
    obtain ⟨e, he, -⟩ := h.latest hi
    rw [hfirst hi]
    exact (hcand e he).2 (hunknown (not_not.mp (mt hknown.mpr hnew)) e he)

theorem Inv.gatheredSubscriber (h : Inv p s) {candidate : String}
    {result : Stream × List Message} (hn : s.subscriber.gathered candidate = some result) :
    Inv p (s.publish .subscriber result) := by
  obtain ⟨sdp, hl, -, rfl⟩ := h.subscriber.gathered_eq hn
  have hl' := Option.ne_none_iff_exists'.mpr ⟨sdp, hl⟩
  exact ⟨h.publisher, h.subscriber.gather hl' candidate,
    h.pubHears.gather p.random h.subHears.peerId hl candidate,
    h.subHears.sameSub rfl rfl fun c hc => ⟨c, hc, rfl, rfl⟩, h.undisturbed⟩

variable {i : StreamInfo} {c : Connection}

theorem getLast?_tail {a b : Message} (h : (a :: rest).getLast? = some b) (hne : rest ≠ []) :
    rest.getLast? = some b := by
  rwa [List.getLast?_cons_of_ne_nil hne] at h

theorem PubHears.gathered (h : PubHears p m n (msg :: rest) entry) :
    n.webrtc.iceCandidates ≠ [] := by
  intro hi
  cases (h.nothing hi).1

/-- The publisher has taken or left the first message on its way. -/
theorem PubHears.pop (h : PubHears p m n (.info i :: rest) entry)
    (hp : m'.webrtc.peerDiscoveryId ≠ none) (hq : m'.webrtc.peerId = some p.subscriberId)
    (hc : m'.webrtc.peerConnection = some c)
    (hr : c.remoteDescription = n.webrtc.localDescription)
    (hcand : ∀ e ∈ entry,
      (e.peerId = p.publisherId → rest = [] → n.webrtc.iceCandidates ⊆ c.candidates) ∧
      (e.peerId ≠ p.publisherId → c.candidates = n.webrtc.iceCandidates.take 1)) :
    PubHears p m' n rest entry := by
  have hi := h.gathered
  refine ⟨fun _ _ => hq, fun msg hm => h.sent msg (List.mem_cons_of_mem _ hm),
    fun hn => absurd hn hi, fun _ => ?_, h.known,
    fun e he hne j hj => h.early e he hne j (List.mem_cons_of_mem _ hj),
    fun hn => absurd hn hp, fun _ => ⟨hi, c, hc, hr, hcand⟩⟩
  obtain ⟨e, he, hcands, hlast⟩ := h.latest hi
  exact ⟨e, he, hcands, fun hne => getLast?_tail (hlast nofun) hne⟩

theorem PubHears.last (h : PubHears p m n [.info i] entry) :
    entry = some i ∧ i.iceCandidates = n.webrtc.iceCandidates := by
  obtain ⟨e, he, hcands, hlast⟩ := h.latest h.gathered
  cases hlast nofun
  exact ⟨he, hcands⟩

theorem Side.first (h : Side .publisher id peer m) (hp : m.webrtc.peerDiscoveryId = none)
    (hc : m.webrtc.peerConnection = some c) :
    Side .publisher id peer { m with webrtc := { m.webrtc with
      peerDiscoveryId := some peer
      peerId := some i.id
      peerConnection := some (c.add m.webrtc.role i.sdp i.iceCandidates) } } := by
  refine ⟨h.role, h.id, h.jniInterface, fun hs => ?_, fun _ => nofun, h.nonempty,
    fun _ _ _ => (h.fresh hp).2.1, h.gathered, nofun, ?_⟩
  · cases hc.symm.trans (h.init hs)
  · rintro _ ⟨⟩
    rfl

/-- A subscriber adds its peer, or either stream updates it. -/
theorem Side.connection (h : Side role id peer m) (hp : m.webrtc.peerDiscoveryId ≠ none)
    (hc : m.webrtc.peerConnection = some c) {c' : Connection} {q : Option String}
    (hd : c'.describing = c.describing) :
    Side role id peer { m with webrtc := { m.webrtc with
      peerId := q
      peerConnection := some c' } } := by
  refine ⟨h.role, h.id, h.jniInterface, fun hs => ?_, fun _ => nofun, h.nonempty, ?_, h.gathered,
    fun hn => absurd hn hp, h.peer⟩
  · cases hc.symm.trans (h.init hs)
  · rintro _ ⟨⟩ hdesc
    exact h.describing c hc (hd ▸ hdesc)

/-- The description of a subscriber that has published it is that of the message. -/
theorem Inv.offered (h : Inv p s) (hin : s.toPublisher = msg :: rest) :
    ∃ i, msg = .info i ∧ i.id = p.subscriberId ∧
      s.subscriber.webrtc.localDescription = some i.sdp ∧ i.sdp ≠ "" ∧
      ∃ c, s.publisher.webrtc.peerConnection = some c := by
  obtain ⟨i, he, hid, hl⟩ := h.pubHears.sent msg (by rw [hin]; exact List.mem_cons_self)
  have hp := h.subscriber.has_peer (Option.ne_none_iff_exists'.mpr ⟨_, hl⟩)
  have hc := h.subHears.started (.inr (Option.ne_none_iff_exists'.mpr ⟨_, hp⟩))
  exact ⟨i, he, hid.trans h.subscriber.id, hl, h.subscriber.nonempty _ hl,
    Option.ne_none_iff_exists'.mp hc⟩

/-- The first message makes the subscriber the peer. -/
theorem Inv.deliverFirst (h : Inv p s) (hin : s.toPublisher = .info i :: rest)
    (hp : s.publisher.webrtc.peerDiscoveryId = none) :
    Inv p { s with
      publisher := receive s.publisher p.subscriber (.info i)
      toPublisher := rest } := by
  obtain ⟨j, he, hid, hl, hsdp, c, hc⟩ := h.offered hin
  obtain rfl := Message.info.inj he
  obtain ⟨-, hpl, hfresh⟩ := h.publisher.fresh hp
  obtain rfl := hfresh c hc
  have hpub := h.pubHears
  rw [hin] at hpub
  obtain ⟨j, rest', he, hcand⟩ := hpub.unheard hp hpub.gathered
  cases he
  have hunknown : ∀ e ∈ s.entry, e.peerId ≠ p.publisherId :=
    fun e he hk => (h.subHears.peered (h.pubHears.known e he hk)).1 hpl
  rw [receive_of_ok (handle_first h.publisher.role hp hc)]
  refine ⟨h.publisher.first hp hc, h.subscriber, ?_, ?_, h.undisturbed⟩
  · refine hpub.pop nofun (congrArg some hid) rfl ?_ ?_
    · rw [hl]
      exact if_neg hsdp
    · exact fun e he => ⟨fun hk => absurd hk (hunknown e he), fun _ => hcand⟩
  · exact h.subHears.samePub rfl rfl rfl fun _ => nofun

/-- Later messages are taken if they have the id of the stream. -/
theorem Inv.deliverLater (h : Inv p s) (hin : s.toPublisher = .info i :: rest)
    (hp : s.publisher.webrtc.peerDiscoveryId ≠ none) :
    Inv p { s with
      publisher := receive s.publisher p.subscriber (.info i)
      toPublisher := rest } := by
  obtain ⟨d, hd⟩ := Option.ne_none_iff_exists'.mp hp
  have hq := h.pubHears.peerId d hd
  obtain rfl := h.publisher.peer d hd
  obtain ⟨-, c, hc, hr, hcand⟩ := h.pubHears.heard hp
  have hpub := h.pubHears
  rw [hin] at hpub
  by_cases hid : i.peerId = s.publisher.id
  · have hq' := Option.ne_none_iff_exists'.mpr ⟨_, hq⟩
    rw [receive_of_ok (handle_updated hd hid hq' hc)]
    have hid' := hid.trans h.publisher.id
    refine ⟨h.publisher.connection hp hc rfl, h.subscriber, ?_, ?_, h.undisturbed⟩
    · refine hpub.pop hp hq rfl hr fun e he => ⟨fun _ hnil => ?_, fun hne => ?_⟩
      · subst hnil
        obtain ⟨-, hlast⟩ := hpub.last
        rw [← hlast]
        exact List.subset_append_right _ _
      · exact absurd hid' (hpub.early e he hne i List.mem_cons_self)
    · exact h.subHears.samePub rfl rfl rfl fun _ => nofun
  · have hnot : ¬ s.publisher.Concerned p.subscriber (.info i) :=
      fun ha => hid ((accepts_some hd i).mp ha).2
    rw [receive_of_ok (handle_ignored hnot)]
    refine ⟨h.publisher, h.subscriber, ?_, h.subHears, h.undisturbed⟩
    refine hpub.pop hp hq hc hr fun e he => ⟨fun hk hnil => ?_, (hcand e he).2⟩
    subst hnil
    obtain ⟨hlast, -⟩ := hpub.last
    obtain rfl := Option.some.inj (he.symm.trans hlast)
    exact absurd (hk.trans h.publisher.id.symm) hid

theorem Inv.deliverPublisher (h : Inv p s) (hin : s.toPublisher = msg :: rest) :
    Inv p { s with publisher := receive s.publisher p.subscriber msg, toPublisher := rest } := by
  obtain ⟨i, rfl, -⟩ := h.offered hin
  by_cases hp : s.publisher.webrtc.peerDiscoveryId = none
  · exact h.deliverFirst hin hp
  · exact h.deliverLater hin hp

/-- The subscriber chooses its peer, and asks for an offer if it has a connection. -/
theorem Side.announced (h : Side .subscriber id peer n) (hp : n.webrtc.peerDiscoveryId = none) :
    Side .subscriber id peer
      { n with webrtc := { n.webrtc with peerDiscoveryId := some peer }.offer } := by
  have hl := (h.fresh hp).2.1
  rcases offer_cases { n.webrtc with peerDiscoveryId := some peer } with he | ⟨c, hc, -, he⟩
  · rw [he]
    refine ⟨h.role, h.id, h.jniInterface, h.init, h.connected, h.nonempty, h.describing,
      h.gathered, nofun, ?_⟩
    rintro _ ⟨⟩
    rfl
  · rw [he]
    refine ⟨h.role, h.id, h.jniInterface, fun hs => ?_, fun _ => nofun, h.nonempty,
      fun _ _ _ => hl, h.gathered, nofun, ?_⟩
    · cases hc.symm.trans (h.init hs)
    · rintro _ ⟨⟩
      rfl

/-- What the subscriber has after the first message on its way. -/
theorem SubHears.pop (h : SubHears p m n (msg :: rest))
    (hq : ∀ q ∈ n'.webrtc.peerId, q = p.publisherId)
    (hpeered : n'.webrtc.peerId ≠ none → m.webrtc.localDescription ≠ none ∧
      ∃ c, n'.webrtc.peerConnection = some c ∧
        c.remoteDescription = m.webrtc.localDescription)
    (hlast : m.webrtc.iceCandidates ≠ [] → ∀ i, msg = .info i → rest = [] →
      i.iceCandidates = m.webrtc.iceCandidates → n'.webrtc.peerId ≠ none ∧
        ∃ c ∈ n'.webrtc.peerConnection, m.webrtc.iceCandidates ⊆ c.candidates)
    (hold : n.webrtc.peerId ≠ none ∧
        (∃ c ∈ n.webrtc.peerConnection, m.webrtc.iceCandidates ⊆ c.candidates) →
      n'.webrtc.peerId ≠ none ∧
        ∃ c ∈ n'.webrtc.peerConnection, m.webrtc.iceCandidates ⊆ c.candidates) :
    SubHears p m n' rest := by
  refine ⟨fun msg hm => h.sent msg (List.mem_cons_of_mem _ hm), fun _ => h.started (.inl nofun),
    hq, hpeered, fun hk => ?_⟩
  rcases h.covered hk with ⟨i, hi, hcand⟩ | hcov
  · by_cases hnil : rest = []
    · subst hnil
      exact .inr (hlast hk i (Option.some.inj hi) rfl hcand)
    · exact .inl ⟨i, getLast?_tail hi hnil, hcand⟩
  · exact .inr (hold hcov)

theorem Inv.deliverStart (h : Inv p s) (hin : s.toSubscriber = .text "START" :: rest) :
    Inv p { s with
      subscriber := receive s.subscriber p.publisher (.text "START")
      toSubscriber := rest } := by
  have hsub := h.subHears
  rw [hin] at hsub
  by_cases hp : s.subscriber.webrtc.peerDiscoveryId = none
  · obtain ⟨hq, -, -⟩ := h.subscriber.fresh hp
    obtain ⟨hoffer, hi, hl⟩ :=
      offer_frame { s.subscriber.webrtc with peerDiscoveryId := some p.publisher }
    have hq' := hoffer.trans hq
    rw [receive_of_ok (handle_start h.subscriber.role hp)]
    refine ⟨h.publisher, h.subscriber.announced hp, ?_, ?_, h.undisturbed⟩
    · exact h.pubHears.sameSub rfl hi hl fun hn => absurd hq hn
    · refine hsub.pop (fun q hm => ?_) (fun hn => absurd hq' hn) nofun fun hn => absurd hq hn.1
      cases hq'.symm.trans hm
  · have hnot : ¬ s.subscriber.Concerned p.publisher (.text "START") := by
      rintro (hc | hc)
      · exact absurd hc.1 (by decide)
      · exact hp hc.2.2
    rw [receive_of_ok (handle_ignored hnot)]
    refine ⟨h.publisher, h.subscriber, h.pubHears, ?_, h.undisturbed⟩
    exact hsub.pop hsub.peerId hsub.peered nofun id

/-- Stream information of the publisher arrives when the subscriber waits for it. -/
theorem Inv.answered (h : Inv p s) (hl : s.publisher.webrtc.localDescription ≠ none) :
    s.subscriber.webrtc.peerDiscoveryId = some p.publisher ∧
      ∃ c, s.subscriber.webrtc.peerConnection = some c := by
  have hp := h.publisher.has_peer hl
  obtain ⟨hi, -⟩ := h.pubHears.heard (Option.ne_none_iff_exists'.mpr ⟨_, hp⟩)
  have hd := h.subscriber.gathered hi
  exact ⟨h.subscriber.has_peer hd, Option.ne_none_iff_exists'.mp (h.subscriber.connected hd)⟩

theorem Inv.deliverInfo (h : Inv p s) (hin : s.toSubscriber = .info i :: rest)
    (hs : Sent s.publisher i) (hid : i.peerId = p.subscriberId) :
    Inv p { s with
      subscriber := receive s.subscriber p.publisher (.info i)
      toSubscriber := rest } := by
  have hsub := h.subHears
  rw [hin] at hsub
  have hl := Option.ne_none_iff_exists'.mpr ⟨_, hs.2⟩
  obtain ⟨hp, c, hc⟩ := h.answered hl
  have hp' := Option.ne_none_iff_exists'.mpr ⟨_, hp⟩
  have hid' := hid.trans h.subscriber.id.symm
  by_cases hq : s.subscriber.webrtc.peerId = none
  · rw [receive_of_ok (handle_added hp hid' hq hc)]
    have hdesc : (c.add s.subscriber.webrtc.role i.sdp i.iceCandidates).describing =
        c.describing := by
      simp [Connection.add, h.subscriber.role]
    refine ⟨h.publisher, h.subscriber.connection hp' hc hdesc, ?_, ?_, h.undisturbed⟩
    · exact h.pubHears.sameSub rfl rfl rfl fun hn => absurd hq hn
    · refine hsub.pop ?_ (fun _ => ⟨hl, _, rfl, ?_⟩) ?_ fun hn => absurd hq hn.1
      · rintro _ ⟨⟩
        exact hs.1.trans h.publisher.id
      · rw [hs.2]
        exact if_neg (h.publisher.nonempty _ hs.2)
      · rintro - _ ⟨⟩ - hcand
        refine ⟨Option.some_ne_none _, _, rfl, ?_⟩
        rw [← hcand]
        exact List.subset_append_right _ _
  · rw [receive_of_ok (handle_updated hp hid' hq hc)]
    obtain ⟨-, c', hc', hr⟩ := hsub.peered hq
    cases hc.symm.trans hc'
    refine ⟨h.publisher, h.subscriber.connection hp' hc rfl, ?_, ?_, h.undisturbed⟩
    · exact h.pubHears.sameSub rfl rfl rfl id
    · refine hsub.pop hsub.peerId (fun _ => ⟨hl, _, rfl, hr⟩) ?_ ?_
      · rintro - _ ⟨⟩ - hcand
        refine ⟨hq, _, rfl, ?_⟩
        rw [← hcand]
        exact List.subset_append_right _ _
      · rintro ⟨hn, c', hc', hcov⟩
        cases hc.symm.trans hc'
        exact ⟨hn, _, rfl, List.subset_append_of_subset_left _ hcov⟩

theorem Inv.deliverSubscriber (h : Inv p s) (hin : s.toSubscriber = msg :: rest) :
    Inv p { s with
      subscriber := receive s.subscriber p.publisher msg
      toSubscriber := rest } := by
  rcases h.subHears.sent msg (by rw [hin]; exact List.mem_cons_self) with rfl | ⟨i, rfl, hs, hid⟩
  · exact h.deliverStart hin
  · exact h.deliverInfo hin hs hid

/-- A message of another client that makes no peer known is not acted upon. -/
theorem Side.not_concerned (h : Side role id peer m) (hd : d ≠ peer)
    (ho : m.webrtc.peerDiscoveryId = none → Inert role msg) : ¬ m.Concerned d msg := by
  have hne : m.webrtc.peerDiscoveryId ≠ some d := fun hp => hd (h.peer d hp)
  cases msg with
  | text peerState =>
    rintro (hc | hc)
    · exact hne hc.2
    · have hrole := ho hc.2.2 hc.1
      cases (h.role.symm.trans hc.2.1).symm.trans hrole
  | info i =>
    intro ha
    cases hp : m.webrtc.peerDiscoveryId with
    | none => exact ho hp
    | some q =>
      obtain ⟨rfl, -⟩ := (accepts_some hp i).mp ha
      exact hne hp
  | invalid => exact fun hc => hc
  | leave => exact hne

theorem Inv.step {e : Event} (h : Inv p s) (ho : Ok s e) (ht : step p s e = some t) : Inv p t := by
  cases e with
  | start r =>
    cases ht
    cases r with
    | publisher => exact h.startPublisher
    | subscriber => exact h.startSubscriber
  | described r sdp =>
    simp only [JavaWebRtcSignalling.step] at ht
    split at ht
    · cases ht
    · rename_i hsdp
      obtain ⟨u, hu, rfl⟩ := Option.map_eq_some_iff.mp ht
      cases r with
      | publisher => exact h.describedPublisher hsdp hu
      | subscriber => exact h.describedSubscriber hsdp hu
  | gathered r candidate =>
    obtain ⟨result, hu, rfl⟩ := Option.map_eq_some_iff.mp ht
    cases r with
    | publisher => exact h.gatheredPublisher hu
    | subscriber => exact h.gatheredSubscriber hu
  | deliver r =>
    cases r with
    | publisher =>
      simp only [JavaWebRtcSignalling.step] at ht
      split at ht
      · cases ht
      · cases ht
        exact h.deliverPublisher ‹_›
    | subscriber =>
      simp only [JavaWebRtcSignalling.step] at ht
      split at ht
      · cases ht
      · cases ht
        exact h.deliverSubscriber ‹_›
  | other r d msg =>
    simp only [JavaWebRtcSignalling.step] at ht
    split at ht
    · cases ht
    · rename_i hd
      obtain ⟨hpub, hsub⟩ := not_or.mp hd
      have hsame : receive (s.side r) d msg = s.side r := by
        refine receive_of_ok (handle_ignored ?_)
        cases r with
        | publisher => exact h.publisher.not_concerned hsub ho
        | subscriber => exact h.subscriber.not_concerned hpub ho
      rw [hsame] at ht
      cases ht
      have hflag : (s.disturbed || decide (s.side r ≠ s.side r)) = false := by
        simp [h.undisturbed]
      cases r with
      | publisher => exact ⟨h.publisher, h.subscriber, h.pubHears, h.subHears, hflag⟩
      | subscriber => exact ⟨h.publisher, h.subscriber, h.pubHears, h.subHears, hflag⟩

theorem Side.created (id : String) (role : StreamRole) (peer : Client) :
    Side role id peer (Stream.create id role).setJNIInterface where
  role := rfl
  id := rfl
  jniInterface := rfl
  init _ := rfl
  connected hl := absurd rfl hl
  nonempty := nofun
  describing := nofun
  gathered hi := absurd rfl hi
  fresh _ := ⟨rfl, rfl, nofun⟩
  peer := nofun

theorem inv (h : (machine p).Reaches Ok s) : Inv p s := by
  refine h.invariant ?_ fun _ _ _ _ ih ho ht => ih.step ho ht
  refine ⟨.created _ _ _, .created _ _ _, ?_, ?_, rfl⟩
  · exact ⟨nofun, nofun, fun _ => ⟨rfl, rfl⟩, fun hi => absurd rfl hi, nofun, nofun,
      fun _ hi => absurd rfl hi, fun hp => absurd rfl hp⟩
  · refine ⟨nofun, fun hn => ?_, nofun, fun hq => absurd rfl hq, fun hk => absurd rfl hk⟩
    rcases hn with hn | hn <;> exact absurd rfl hn

theorem Inv.applied_subscriber (h : Inv p s) (hin : s.toSubscriber = []) :
    Applied s.subscriber s.publisher := by
  intro hk
  rcases h.subHears.covered hk with ⟨i, hi, -⟩ | ⟨hq, c, hc, hsub⟩
  · rw [hin] at hi
    cases hi
  · obtain ⟨-, c', hc', hr⟩ := h.subHears.peered hq
    cases hc.symm.trans hc'
    exact ⟨c, hc, hr, hsub⟩

theorem Inv.applied_publisher_iff (h : Inv p s) (hin : s.toPublisher = []) :
    Applied s.publisher s.subscriber ↔ Informed p s := by
  by_cases hi : s.subscriber.webrtc.iceCandidates = []
  · refine iff_of_true (fun hn => absurd hi hn) ?_
    rw [Informed, (h.pubHears.nothing hi).2]
    exact nofun
  · have hp : s.publisher.webrtc.peerDiscoveryId ≠ none := by
      intro hp
      obtain ⟨i, rest, he, -⟩ := h.pubHears.unheard hp hi
      cases hin.symm.trans he
    obtain ⟨e, he, hcands, -⟩ := h.pubHears.latest hi
    obtain ⟨-, c, hc, hr, hcand⟩ := h.pubHears.heard hp
    obtain ⟨hknown, hunknown⟩ := hcand e he
    have hinformed : Informed p s ↔ e.peerId = p.publisherId ∨
        e.iceCandidates ⊆ e.iceCandidates.take 1 := by
      simp [Informed, he]
    rw [hinformed, hcands]
    constructor
    · intro ha
      obtain ⟨c', hc', -, hsub⟩ := ha hi
      cases hc.symm.trans hc'
      by_cases hk : e.peerId = p.publisherId
      · exact .inl hk
      · rw [hunknown hk] at hsub
        exact .inr hsub
    · intro hor _
      refine ⟨c, hc, hr, ?_⟩
      by_cases hk : e.peerId = p.publisherId
      · exact hknown hk hin
      · rw [hunknown hk]
        exact hor.resolve_left hk

/-- Stream information makes its sender the peer of a stream without one, also when an exception
is thrown. -/
theorem receive_info (hp : m.webrtc.peerDiscoveryId = none) (d : Client) (i : StreamInfo) :
    (receive m d (.info i)).webrtc.peerDiscoveryId = some d := by
  have hset := (setPeerDiscoveryId_frame hp d).1
  have hm := handled m d (.info i)
  rw [receive]
  generalize m.handle d (.info i) = r at hm
  cases hm with
  | ignored hn =>
    refine absurd (fun q hq => ?_) hn
    cases hp.symm.trans hq
  | removed _ hd => cases hp.symm.trans hd
  | first =>
    cases hc : (m.webrtc.setPeerDiscoveryId d).1.peerConnection with
    | none =>
      rw [addPeer_none hc]
      by_cases he : i.sdp = "" ∧ i.iceCandidates = []
      · rw [if_pos he]
        exact hset
      · rw [if_neg he]
        exact hset
    | some c =>
      rw [addPeer_some hc]
      exact hset
  | added _ hd => cases hp.symm.trans hd
  | updated _ hd => cases hp.symm.trans hd

theorem receive_start (hr : m.webrtc.role = .subscriber) (hp : m.webrtc.peerDiscoveryId = none)
    (d : Client) : (receive m d (.text "START")).webrtc.peerDiscoveryId = some d := by
  have hset := (setPeerDiscoveryId_frame hp d).1
  rw [setPeerDiscoveryId_subscriber hr hp] at hset
  rw [receive_of_ok (handle_start hr hp)]
  exact hset

/-- Any other message of another client changes the stream. -/
theorem disturbed_of_not_ok {e : Event} (hn : ¬ Ok s e) (h : Inv p s)
    (ht : step p s e = some t) : t.disturbed = true := by
  cases e with
  | other r d msg =>
    simp only [Ok, Classical.not_imp] at hn
    obtain ⟨hp, hn⟩ := hn
    obtain ⟨-, he⟩ := Option.ite_none_left_eq_some.mp ht
    cases he
    have hchanged : receive (s.side r) d msg ≠ s.side r := by
      have hpeer : (receive (s.side r) d msg).webrtc.peerDiscoveryId = some d := by
        cases msg with
        | text peerState =>
          simp only [Inert, Classical.not_imp] at hn
          obtain ⟨rfl, hr⟩ := hn
          cases r with
          | publisher => exact absurd rfl hr
          | subscriber => exact receive_start h.subscriber.role hp d
        | info i => exact receive_info hp d i
        | invalid => exact absurd trivial hn
        | leave => exact absurd trivial hn
      intro hsame
      rw [hsame, hp] at hpeer
      cases hpeer
    simp [hchanged]
  | _ => exact absurd trivial hn

/-- Other clients change nothing, unless they make themselves known to a stream without a peer.
When all messages have arrived the subscriber has everything of the publisher, and the publisher
has everything of the subscriber exactly if the subscriber's latest message had the id of its
stream or no more candidates than the first. -/
theorem candidates_applied_iff (h : (machine p).Reaches Ok s) :
    s.disturbed = false ∧
      (s.toPublisher = [] → s.toSubscriber = [] →
        Applied s.subscriber s.publisher ∧
          (Applied s.publisher s.subscriber ↔ Informed p s)) ∧
      ∀ e t, ¬ Ok s e → step p s e = some t → t.disturbed = true := by
  have hinv := inv h
  exact ⟨hinv.undisturbed,
    fun hp hs => ⟨hinv.applied_subscriber hs, hinv.applied_publisher_iff hp⟩,
    fun _ _ hn ht => disturbed_of_not_ok hn hinv ht⟩

theorem camera_nonempty : "camera" ≠ "" := by decide

theorem screen_nonempty : "screen" ≠ "" := by decide

theorem src_ne_camera : "src" ≠ "camera" := by decide

def pair : Pair where
  publisher := ⟨"camera", camera_nonempty⟩
  subscriber := ⟨"screen", screen_nonempty⟩
  publisherId := "src"
  subscriberId := "sink"
  random := src_ne_camera

def stranger : Client := ⟨"stranger", by decide⟩

/-- The subscriber gathers its second candidate when it knows the publisher's stream. -/
theorem informed_run_applies : ∃ s, (machine pair).Reaches Ok s ∧
    Applied s.subscriber s.publisher ∧ Applied s.publisher s.subscriber ∧
    s.subscriber.webrtc.iceCandidates = ["c1", "c2"] ∧
    s.publisher.webrtc.iceCandidates = ["k1"] := by
  obtain ⟨s, hr, hs⟩ := (machine pair).exists_reaches Ok
    [.start .subscriber, .start .publisher, .deliver .subscriber, .described .subscriber "offer",
      .gathered .subscriber "c1", .deliver .publisher, .described .publisher "answer",
      .gathered .publisher "k1", .other .publisher stranger (.info ⟨"x", "src", "sdp", ["x"]⟩),
      .deliver .subscriber, .gathered .subscriber "c2", .deliver .publisher]
    (fun s => s.toPublisher = [] && s.toSubscriber = [] &&
      s.entry = some ⟨"sink", "src", "offer", ["c1", "c2"]⟩ &&
      s.subscriber.webrtc.iceCandidates = ["c1", "c2"] &&
      s.publisher.webrtc.iceCandidates = ["k1"]) (by decide +kernel)
  simp only [Bool.and_eq_true, decide_eq_true_eq] at hs
  obtain ⟨⟨⟨⟨hp, hsub⟩, he⟩, hi⟩, hk⟩ := hs
  obtain ⟨-, happlied, -⟩ := candidates_applied_iff hr
  obtain ⟨hs, hiff⟩ := happlied hp hsub
  refine ⟨s, hr, hs, hiff.mpr ?_, hi, hk⟩
  rw [Informed, he]
  rintro _ ⟨⟩
  exact .inl rfl

/-- Two candidates gathered before the answer: the second is lost. And a stranger that comes first
takes the place of the subscriber. -/
theorem candidates_lost :
    (∃ s, (machine pair).Reachable s ∧ s.toPublisher = [] ∧ s.toSubscriber = [] ∧
      s.publisher.webrtc.iceCandidates ≠ [] ∧ ¬ Applied s.publisher s.subscriber) ∧
    ∃ s, (machine pair).Reachable s ∧ s.disturbed = true ∧ s.toPublisher = [] ∧
      s.toSubscriber = [] ∧ ¬ Applied s.publisher s.subscriber := by
  obtain ⟨s, hr, hs⟩ := (machine pair).exists_reachable
    [.start .subscriber, .start .publisher, .deliver .subscriber, .described .subscriber "offer",
      .gathered .subscriber "c1", .gathered .subscriber "c2", .deliver .publisher,
      .deliver .publisher, .described .publisher "answer", .gathered .publisher "k1",
      .deliver .subscriber]
    (fun s => s.toPublisher = [] && s.toSubscriber = [] &&
      s.publisher.webrtc.iceCandidates ≠ [] && ¬ Applied s.publisher s.subscriber)
    (by decide +kernel)
  obtain ⟨t, ht, hd⟩ := (machine pair).exists_reachable
    [.start .subscriber, .start .publisher, .deliver .subscriber, .described .subscriber "offer",
      .other .publisher stranger (.info ⟨"x", "elsewhere", "sdp", ["x"]⟩),
      .gathered .subscriber "c1", .deliver .publisher]
    (fun s => s.disturbed && s.toPublisher = [] && s.toSubscriber = [] &&
      ¬ Applied s.publisher s.subscriber) (by decide +kernel)
  simp only [Bool.and_eq_true, decide_eq_true_eq] at hs hd
  exact ⟨⟨s, hr, hs.1.1.1, hs.1.1.2, hs.1.2, hs.2⟩, t, ht, hd.1.1.1, hd.1.1.2, hd.1.2, hd.2⟩

end JavaWebRtcSignalling
