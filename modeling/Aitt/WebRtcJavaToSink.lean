import Aitt.WebRtcInterop

/-! A publisher of the Java library and a sink of the C++ library on one topic. The sink publishes
all its candidates at each new one, without the id of the publisher's stream until it knows it. -/
namespace WebRtcJavaToSink

open TransitionRuns PairExchange WebRtcStream WebRtcManager WebRtcPeer WebRtcInterop
open JavaWebRtcSignalling (startStream gatherStream gatherInfo)

/-- The two clients and the ids of their streams; that of the publisher is a random text. -/
structure Pair where
  publisher : Client
  sink : Client
  publisherId : String
  streamId : String
  nonempty : publisherId ≠ ""

abbrev System := State Packet JavaWebRtc.Stream StreamManager

def exchange (p : Pair) :
    Exchange Client Packet JavaWebRtc.Stream StreamAct StreamManager ManagerAct where
  left :=
    { initial := (JavaWebRtc.Stream.create p.publisherId .publisher).setJNIInterface
      receive := streamReceive
      act := streamAct }
  right :=
    { initial := { role := .sink, streamId := p.streamId }
      receive := managerReceive
      act := managerAct }
  leftId := p.publisher
  rightId := p.sink

def AppliedByPublisher (s : System) : Prop :=
  s.right.state.stream.iceCandidates ≠ [] → ∃ c ∈ s.left.state.webrtc.peerConnection,
    c.remoteDescription = some s.right.state.stream.localDescription ∧
      s.right.state.stream.iceCandidates ⊆ c.candidates

def AppliedBySink (s : System) : Prop :=
  s.left.state.webrtc.iceCandidates ≠ [] → ∃ h ∈ s.right.state.stream.webrtcHandle,
    (∃ sdp ∈ s.left.state.webrtc.localDescription, sdp ∈ h.remoteDescriptions) ∧
      s.left.state.webrtc.iceCandidates ⊆ h.candidates

/-- The sink knew the id of the publisher's stream when it gathered its latest candidate, or that
one was in its first message. -/
def Informed (p : Pair) (s : System) : Prop :=
  ∀ e ∈ (infos s.right.published).getLast?,
    e.peerId = p.publisherId ∨ e.iceCandidates ⊆ e.iceCandidates.take 1

/-- What the publisher `m` has of the sink `n`. -/
structure PubHears (p : Pair) (m : JavaWebRtc.Stream) (n : StreamManager)
    (inbox published : List Packet) : Prop where
  sent : ∀ q ∈ published, q = startPacket ∨ ∃ i : StreamInfo, q = .message i.message ∧
    i.id = p.streamId ∧ i.sdp = n.stream.localDescription
  silent : n.stream.iceCandidates = [] → infos published = []
  first : ∀ i ∈ (infos published).head?, i.iceCandidates = n.stream.iceCandidates.take 1
  last : n.stream.iceCandidates ≠ [] → ∃ e, (infos published).getLast? = some e ∧
    e.iceCandidates = n.stream.iceCandidates
  known : ∀ i ∈ infos published, i.peerId = p.publisherId → n.stream.peerId ≠ ""
  early : ∀ e ∈ (infos published).getLast?, e.peerId ≠ p.publisherId →
    ∀ i ∈ infos published, i.peerId ≠ p.publisherId
  unheard : m.webrtc.peerDiscoveryId = none → (infos inbox).head? = (infos published).head?
  heard : m.webrtc.peerDiscoveryId ≠ none → n.stream.iceCandidates ≠ [] ∧
    m.webrtc.peerId = some p.streamId ∧ ∃ c, m.webrtc.peerConnection = some c ∧
      c.remoteDescription = some n.stream.localDescription ∧
      ∀ e ∈ (infos published).getLast?,
        (e.peerId = p.publisherId → ∀ x ∈ n.stream.iceCandidates, x ∈ c.candidates ∨
          ∃ i ∈ infos inbox, i.peerId = p.publisherId ∧ x ∈ i.iceCandidates) ∧
        (e.peerId ≠ p.publisherId → c.candidates = n.stream.iceCandidates.take 1)

/-- What the sink `n` has of the publisher `m`. -/
structure SinkHears (p : Pair) (m : JavaWebRtc.Stream) (n : StreamManager)
    (inbox published : List Packet) : Prop where
  sent : ∀ q ∈ published, q = startPacket ∨ ∃ i : StreamInfo, q = .message i.message ∧
    i.id = p.publisherId ∧ m.webrtc.localDescription = some i.sdp ∧ i.peerId = p.streamId
  started : published ≠ [] → m.webrtc.peerConnection ≠ none
  chosen : n.peerAittId ≠ "" → published ≠ []
  alive : n.stream.webrtcHandle ≠ none
  peerId : n.stream.peerId = "" ∨ n.stream.peerId = p.publisherId
  peered : n.stream.peerId ≠ "" → m.webrtc.localDescription ≠ none
  described : n.stream.state ≠ some .playing → n.stream.peerId ≠ "" →
    ∀ sdp ∈ m.webrtc.localDescription, Remote n.stream sdp
  covered : n.stream.state ≠ some .playing → ∀ x ∈ m.webrtc.iceCandidates,
    (n.stream.peerId ≠ "" ∧ x ∈ n.stream.storedPeerIceCandidates) ∨
      ∃ i ∈ infos inbox, x ∈ i.iceCandidates

structure Inv (p : Pair) (l : Side JavaWebRtc.Stream Packet) (r : Side StreamManager Packet) :
    Prop where
  publisher : StreamSide .publisher p.publisherId p.sink l.state
  sink : ManagerSide .sink p.streamId p.publisher r.state
  pubHears : PubHears p l.state r.state l.inbox r.published
  sinkHears : SinkHears p l.state r.state r.inbox l.published

variable {p : Pair} {l : Side JavaWebRtc.Stream Packet} {r : Side StreamManager Packet}
  {m m' : JavaWebRtc.Stream} {n n' : StreamManager} {inbox rest published : List Packet}
  {q : Packet} {i : StreamInfo}

/-- The publisher changes nothing that it has of the sink. -/
theorem PubHears.samePub (h : PubHears p m n inbox published)
    (hp : m'.webrtc.peerDiscoveryId = m.webrtc.peerDiscoveryId)
    (hq : m'.webrtc.peerId = m.webrtc.peerId)
    (hc : ∀ c, m.webrtc.peerConnection = some c → ∃ c', m'.webrtc.peerConnection = some c' ∧
      c'.remoteDescription = c.remoteDescription ∧ c'.candidates = c.candidates) :
    PubHears p m' n inbox published where
  sent := h.sent
  silent := h.silent
  first := h.first
  last := h.last
  known := h.known
  early := h.early
  unheard := by
    rw [hp]
    exact h.unheard
  heard hne := by
    rw [hp] at hne
    obtain ⟨hi, hid, c, hcm, hr, hcand⟩ := h.heard hne
    obtain ⟨c', hcm', hr', hcand'⟩ := hc c hcm
    refine ⟨hi, hq.trans hid, c', hcm', hr'.trans hr, ?_⟩
    rw [hcand']
    exact hcand

/-- The sink may only learn the id of the publisher's stream. -/
theorem PubHears.sameSink (h : PubHears p m n inbox published)
    (hi : n'.stream.iceCandidates = n.stream.iceCandidates)
    (hl : n'.stream.localDescription = n.stream.localDescription)
    (hq : n.stream.peerId ≠ "" → n'.stream.peerId ≠ "") : PubHears p m n' inbox published where
  sent := by
    rw [hl]
    exact h.sent
  silent := by
    rw [hi]
    exact h.silent
  first := by
    rw [hi]
    exact h.first
  last := by
    rw [hi]
    exact h.last
  known i hm he := hq (h.known i hm he)
  early := h.early
  unheard := h.unheard
  heard := by
    rw [hi, hl]
    exact h.heard

/-- A sink without candidates is not known to the publisher. -/
theorem PubHears.unknown (h : PubHears p m n inbox published)
    (hi : n.stream.iceCandidates = []) : m.webrtc.peerDiscoveryId = none := by
  by_contra hp
  exact (h.heard hp).1 hi

/-- More packets are on their way, with information only if some has been published. -/
theorem PubHears.get (h : PubHears p m n inbox published) {msgs : List Packet}
    (hm : infos published = [] → infos msgs = []) :
    PubHears p m n (inbox ++ msgs) published where
  sent := h.sent
  silent := h.silent
  first := h.first
  last := h.last
  known := h.known
  early := h.early
  unheard hp := by
    have hu := h.unheard hp
    rw [infos_append]
    cases hin : infos inbox with
    | nil =>
      rw [hin, List.head?_nil, eq_comm, List.head?_eq_none_iff] at hu
      simp [hu, hm hu]
    | cons a as =>
      rw [hin] at hu
      exact hu
  heard hp := by
    obtain ⟨hi, hid, c, hc, hr, hcand⟩ := h.heard hp
    refine ⟨hi, hid, c, hc, hr, fun e he => ⟨fun hk x hx => ?_, (hcand e he).2⟩⟩
    refine ((hcand e he).1 hk x hx).imp_right ?_
    rintro ⟨i, hi, hid, hxi⟩
    rw [infos_append]
    exact ⟨i, List.mem_append_left _ hi, hid, hxi⟩

/-- The sink says that it has started. -/
theorem PubHears.start (h : PubHears p m n inbox published) :
    PubHears p m n (inbox ++ [startPacket]) (published ++ [startPacket]) := by
  have hinfos : infos (published ++ [startPacket]) = infos published := by simp
  refine .get ?_ fun _ => rfl
  refine ⟨fun q hq => ?_, ?_, ?_, ?_, ?_, ?_, ?_, ?_⟩
  · rcases List.mem_append.mp hq with hq | hq
    · exact h.sent q hq
    · exact .inl (List.mem_singleton.mp hq)
  all_goals rw [hinfos]
  · exact h.silent
  · exact h.first
  · exact h.last
  · exact h.known
  · exact h.early
  · exact h.unheard
  · exact h.heard

theorem PubHears.infos_nil (h : PubHears p m n inbox published) :
    infos published = [] ↔ n.stream.iceCandidates = [] := by
  refine ⟨fun hp => ?_, h.silent⟩
  by_contra hi
  obtain ⟨e, he, -⟩ := h.last hi
  rw [hp] at he
  cases he

/-- The sink publishes all its candidates with one more. -/
theorem PubHears.gather (h : PubHears p m n inbox published) (hid : n.stream.id = p.streamId)
    (hq : n.stream.peerId = "" ∨ n.stream.peerId = p.publisherId) (hne : p.publisherId ≠ "")
    {x : String} (hj : i = ⟨n.stream.id, n.stream.peerId, n.stream.localDescription,
      n.stream.iceCandidates ++ [x]⟩) :
    PubHears p m
      { n with stream := { n.stream with iceCandidates := n.stream.iceCandidates ++ [x] } }
      (inbox ++ [.message i.message]) (published ++ [.message i.message]) := by
  have hknown : i.peerId = p.publisherId ↔ n.stream.peerId ≠ "" := by
    rw [hj]
    rcases hq with hq | hq
    · simp [hq, hne.symm]
    · simp [hq, hne]
  have hcand : i.iceCandidates = n.stream.iceCandidates ++ [x] := by rw [hj]
  have htake (hi : n.stream.iceCandidates ≠ []) :
      (n.stream.iceCandidates ++ [x]).take 1 = n.stream.iceCandidates.take 1 :=
    List.take_append_of_le_length (List.length_pos_iff.mpr hi)
  -- until the sink knows the id, none of its packets has had it
  have hunknown (hn : i.peerId ≠ p.publisherId) : ∀ j ∈ infos published,
      j.peerId ≠ p.publisherId := fun j hm he => hn (hknown.mpr (h.known j hm he))
  have hpub : infos (published ++ [.message i.message]) = infos published ++ [i] := by simp
  have hlast : (infos (published ++ [.message i.message])).getLast? = some i := by simp
  have hin : infos (inbox ++ [.message i.message]) = infos inbox ++ [i] := by simp
  refine ⟨fun q hm => ?_, fun hi => ?_, ?_, fun _ => ⟨i, hlast, hcand⟩, fun j hm he => ?_, ?_,
    fun hp => ?_, fun hp => ?_⟩
  · rcases List.mem_append.mp hm with hm | hm
    · exact h.sent q hm
    · exact .inr ⟨i, List.mem_singleton.mp hm, by rw [hj, hid], by rw [hj]⟩
  · exact absurd hi (by simp)
  · intro j hm
    rw [hpub] at hm
    by_cases hi : n.stream.iceCandidates = []
    · rw [h.silent hi] at hm
      cases hm
      rw [hcand, hi]
      rfl
    · rw [List.head?_append_of_ne_nil _ (mt h.infos_nil.mp hi)] at hm
      rw [h.first j hm]
      exact (htake hi).symm
  · rw [hpub] at hm
    rcases List.mem_append.mp hm with hm | hm
    · exact h.known j hm he
    · rw [List.mem_singleton.mp hm] at he
      exact hknown.mp he
  · rw [hlast]
    rintro _ ⟨⟩ hn j hm
    rw [hpub] at hm
    rcases List.mem_append.mp hm with hm | hm
    · exact hunknown hn j hm
    · rw [List.mem_singleton.mp hm]
      exact hn
  · rw [hpub, hin, List.head?_append, List.head?_append, h.unheard hp]
  · obtain ⟨hi, hid, c, hc, hr, hall⟩ := h.heard hp
    refine ⟨by simp, hid, c, hc, hr, ?_⟩
    rw [hlast, hin]
    rintro _ ⟨⟩
    refine ⟨fun hk y hy => .inr ⟨i, by simp, hk, ?_⟩, fun hn => ?_⟩
    · rw [hcand]
      exact hy
    · obtain ⟨e, he, -⟩ := h.last hi
      rw [(hall e he).2 (hunknown hn e (List.mem_of_getLast? he))]
      exact (htake hi).symm

/-- The publisher has taken or left the first packet on its way. -/
theorem PubHears.pop (h : PubHears p m n (q :: rest) published)
    (hp : m'.webrtc.peerDiscoveryId ≠ none) (hi : n.stream.iceCandidates ≠ [])
    (hid : m'.webrtc.peerId = some p.streamId) {c : JavaWebRtc.Connection}
    (hc : m'.webrtc.peerConnection = some c)
    (hr : c.remoteDescription = some n.stream.localDescription)
    (hcand : ∀ e ∈ (infos published).getLast?,
      (e.peerId = p.publisherId → ∀ x ∈ n.stream.iceCandidates, x ∈ c.candidates ∨
        ∃ i ∈ infos rest, i.peerId = p.publisherId ∧ x ∈ i.iceCandidates) ∧
      (e.peerId ≠ p.publisherId → c.candidates = n.stream.iceCandidates.take 1)) :
    PubHears p m' n rest published where
  sent := h.sent
  silent := h.silent
  first := h.first
  last := h.last
  known := h.known
  early := h.early
  unheard he := absurd he hp
  heard _ := ⟨hi, hid, c, hc, hr, hcand⟩

/-- A text of the sink says nothing. -/
theorem PubHears.skip (h : PubHears p m n (startPacket :: rest) published) :
    PubHears p m n rest published := { h with }

theorem SinkHears.get (h : SinkHears p m n inbox published) (msgs : List Packet) :
    SinkHears p m n (inbox ++ msgs) published where
  sent := h.sent
  started := h.started
  chosen := h.chosen
  alive := h.alive
  peerId := h.peerId
  peered := h.peered
  described := h.described
  covered hp x hx := by
    refine (h.covered hp x hx).imp_right ?_
    rintro ⟨i, hi, hxi⟩
    rw [infos_append]
    exact ⟨i, List.mem_append_left _ hi, hxi⟩

/-- A sink that has nothing to say yet changes its own state. -/
theorem PubHears.silentSink (h : PubHears p m n inbox published)
    (hi : n.stream.iceCandidates = []) (hi' : n'.stream.iceCandidates = []) :
    PubHears p m n' inbox published := by
  have hnone := h.silent hi
  have hp := h.unknown hi
  refine ⟨fun q hq => ?_, fun _ => hnone, ?_, fun hn => absurd hi' hn, ?_, ?_, h.unheard,
    fun hn => absurd hp hn⟩
  · refine (h.sent q hq).imp_right ?_
    rintro ⟨i, rfl, -⟩
    have hmem : i ∈ infos published := mem_infos.mpr ⟨_, hq, rfl⟩
    rw [hnone] at hmem
    cases hmem
  · rw [hnone]
    nofun
  · rw [hnone]
    nofun
  · rw [hnone]
    nofun

theorem Inv.unpeered (h : Inv p l r) (hi : r.state.stream.iceCandidates = []) :
    l.state.webrtc.localDescription = none ∧ l.state.webrtc.iceCandidates = [] ∧
      r.state.stream.peerId = "" := by
  have hp := h.pubHears.unknown hi
  have hl := (h.publisher.fresh hp).2.1
  refine ⟨hl, ?_, ?_⟩
  · by_contra hn
    exact h.publisher.gathered hn hl
  · by_contra hn
    exact h.sinkHears.peered hn hl

theorem Inv.publisherActs (h : Inv p l r) {result : JavaWebRtc.Stream × List Packet}
    (ha : StreamActed .publisher p.sink l.state result) :
    Inv p (l.send result) (r.get result.2) := by
  have hside := side_acted h.publisher ha
  cases ha with
  | again =>
    rw [l.send_nothing, r.get_nothing]
    exact h
  | start init none =>
    have hnil : l.published = [] := by
      by_contra hne
      exact h.sinkHears.started hne none
    refine ⟨hside, h.sink, h.pubHears.samePub rfl rfl fun c hc => ?_, ?_⟩
    · cases none.symm.trans hc
    · have hget := h.sinkHears.get [startPacket]
      refine { hget with sent := ?_, started := fun _ => nofun, chosen := fun _ => by simp }
      intro q hq
      rw [Side.published_send, hnil] at hq
      exact .inl (List.mem_singleton.mp hq)
  | @described sdp c nonempty connection describing none =>
    have hunpeered : ¬ r.state.stream.peerId ≠ "" := fun hn => h.sinkHears.peered hn none
    refine ⟨hside, h.sink, h.pubHears.samePub rfl rfl fun c' hc => ?_, ?_⟩
    · cases connection.symm.trans hc
      exact ⟨_, rfl, rfl, rfl⟩
    · have hget := h.sinkHears.get []
      refine { hget with
        sent := ?_
        started := fun _ => nofun
        chosen := ?_
        peered := fun hn => absurd hn hunpeered
        described := fun _ hn => absurd hn hunpeered }
      · intro q hq
        rw [Side.published_send, List.append_nil] at hq
        refine (h.sinkHears.sent q hq).imp_right ?_
        rintro ⟨i, -, -, hl, -⟩
        cases none.symm.trans hl
      · rw [Side.published_send, List.append_nil]
        exact h.sinkHears.chosen
  | @gathered sdp candidate known described =>
    have hl' := Option.ne_none_iff_exists'.mpr ⟨sdp, described⟩
    obtain ⟨-, hid, -⟩ := h.pubHears.heard (Option.ne_none_iff_exists'.mpr ⟨_, known⟩)
    refine ⟨hside, h.sink, h.pubHears.samePub rfl rfl fun c hc => ⟨c, hc, rfl, rfl⟩, ?_⟩
    have hget := h.sinkHears.get
      [.message (ofJava (gatherInfo l.state p.sink sdp candidate)).message]
    refine { hget with
      sent := ?_
      started := fun _ => h.publisher.connected hl'
      chosen := fun _ => by simp
      covered := fun _ x hx => .inr ⟨ofJava (gatherInfo l.state p.sink sdp candidate), ?_, hx⟩ }
    · intro q hq
      rcases List.mem_append.mp hq with hq | hq
      · exact h.sinkHears.sent q hq
      · refine .inr ⟨_, List.mem_singleton.mp hq, h.publisher.id, described, ?_⟩
        change l.state.webrtc.peerId.getD p.sink.id = p.streamId
        rw [hid]
        rfl
    · simp

theorem Inv.sinkActs (h : Inv p l r) {result : StreamManager × List Packet}
    (ha : ManagerActed r.state result) : Inv p (l.get result.2) (r.send result) := by
  have hside := h.sink.acted ha
  cases ha with
  | start => exact ⟨h.publisher, h.sink, h.pubHears.start, h.sinkHears⟩
  | quiet w stream signalled ice =>
    have hpub := r.published_quiet { r.state with stream := stream }
    rw [l.get_nothing]
    cases signalled with
    | @negotiate g g' handle started idle described =>
      have hidle : r.state.stream.state = some .idle := by
        rw [Stream.state, handle, Option.map_some, idle]
      have hi := h.sink.here.gathered (h.sink.here.idle hidle)
      obtain ⟨-, hnone, hq⟩ := h.unpeered hi
      refine ⟨h.publisher, hside, hpub ▸ h.pubHears.sameSink rfl rfl id, ?_⟩
      refine { h.sinkHears with
        alive := Option.some_ne_none _
        described := fun _ hn => absurd hq hn
        covered := fun _ x hx => ?_ }
      rw [hnone] at hx
      cases hx
    | @play g handle negotiating =>
      refine ⟨h.publisher, hside, hpub ▸ h.pubHears.sameSink rfl rfl id, ?_⟩
      exact { h.sinkHears with
        alive := Option.some_ne_none _
        described := fun hn => absurd rfl hn
        covered := fun hn => absurd rfl hn }
    | describe negotiating none nonempty =>
      have hi := h.sink.here.gathered none
      exact ⟨h.publisher, hside, hpub ▸ h.pubHears.silentSink hi hi, { h.sinkHears with }⟩
    | candidate =>
      simp at ice
  | candidate c signalled =>
    have hid := h.sink.here.id (h.sink.here.peer_of_signalled signalled)
    exact ⟨h.publisher, hside,
      h.pubHears.gather (hid.trans h.sink.streamId) h.sinkHears.peerId p.nonempty rfl,
      { h.sinkHears with }⟩

/-- What the sink publishes once it has candidates finds the publisher connected. -/
theorem Inv.connected (h : Inv p l r) (hi : r.state.stream.iceCandidates ≠ []) :
    r.state.stream.localDescription ≠ "" ∧ ∃ c, l.state.webrtc.peerConnection = some c := by
  have hl : r.state.stream.localDescription ≠ "" := fun he => hi (h.sink.here.gathered he)
  have hp : r.state.peerAittId ≠ "" := fun he => hl (by rw [h.sink.here.fresh he])
  exact ⟨hl, Option.ne_none_iff_exists'.mp (h.sinkHears.started (h.sinkHears.chosen hp))⟩

/-- The first information makes the sink the peer of the publisher. -/
theorem Inv.deliverFirst (h : Inv p l r) (hin : l.inbox = .message i.message :: rest)
    (hp : l.state.webrtc.peerDiscoveryId = none) (hid : i.id = p.streamId)
    (hsdp : i.sdp = r.state.stream.localDescription) :
    Inv p (l.take (streamReceive l.state p.sink (.message i.message)) rest) r := by
  have hpub := h.pubHears
  rw [hin] at hpub
  have hhead := hpub.unheard hp
  rw [infos_message, List.head?_cons] at hhead
  have hi : r.state.stream.iceCandidates ≠ [] := by
    intro hi
    rw [hpub.silent hi] at hhead
    cases hhead
  obtain ⟨hl, c, hc⟩ := h.connected hi
  have hne : i.sdp ≠ "" := by
    rw [hsdp]
    exact hl
  obtain ⟨-, hpl, hfresh⟩ := h.publisher.fresh hp
  obtain rfl := hfresh c hc
  have hnone : r.state.stream.peerId = "" := by
    by_contra hn
    exact h.sinkHears.peered hn hpl
  have heq : streamReceive l.state p.sink (.message i.message) = _ :=
    JavaWebRtcSignalling.receive_of_ok
      (JavaWebRtc.handle_first (i := toJava i) h.publisher.role hp hc)
  rw [heq]
  refine ⟨h.publisher.first hp hc, h.sink, ?_, ?_⟩
  · refine hpub.pop nofun hi (congrArg some hid) rfl ?_ fun e he => ⟨fun hk => ?_, fun _ => ?_⟩
    · rw [← hsdp]
      exact if_neg hne
    · exact absurd hnone (h.pubHears.known e (List.mem_of_getLast? he) hk)
    · exact h.pubHears.first i hhead.symm
  · exact { h.sinkHears with started := fun _ => nofun }

/-- Later information is taken if it has the id of the stream. -/
theorem Inv.deliverLater (h : Inv p l r) (hin : l.inbox = .message i.message :: rest)
    (hmem : i ∈ infos r.published) (hp : l.state.webrtc.peerDiscoveryId ≠ none) :
    Inv p (l.take (streamReceive l.state p.sink (.message i.message)) rest) r := by
  obtain ⟨d, hd⟩ := Option.ne_none_iff_exists'.mp hp
  obtain rfl := h.publisher.peer d hd
  have hpub := h.pubHears
  rw [hin] at hpub
  obtain ⟨hi, hq, c, hc, hr, hcand⟩ := hpub.heard hp
  by_cases hid : i.peerId = l.state.id
  · have hq' := Option.ne_none_iff_exists'.mpr ⟨_, hq⟩
    have heq : streamReceive l.state p.sink (.message i.message) = _ :=
      JavaWebRtcSignalling.receive_of_ok
        (JavaWebRtc.handle_updated (i := toJava i) hd hid hq' hc)
    rw [heq]
    have hid' := hid.trans h.publisher.id
    refine ⟨h.publisher.connection hp hc rfl, h.sink, ?_, ?_⟩
    · refine hpub.pop hp hi hq rfl hr fun e he => ⟨fun hk x hx => ?_, fun hne => ?_⟩
      · rcases (hcand e he).1 hk x hx with hx | ⟨j, hj, hjd, hxj⟩
        · exact .inl (List.mem_append_left _ hx)
        · rw [infos_message] at hj
          rcases List.mem_cons.mp hj with rfl | hj
          · exact .inl (List.mem_append_right _ hxj)
          · exact .inr ⟨j, hj, hjd, hxj⟩
      · exact absurd hid' (hpub.early e he hne i hmem)
    · exact { h.sinkHears with started := fun _ => nofun }
  · have hnot : ¬ l.state.Concerned p.sink (.info (toJava i)) :=
      fun ha => hid ((JavaWebRtc.accepts_some hd (toJava i)).mp ha).2
    have heq : streamReceive l.state p.sink (.message i.message) = l.state :=
      JavaWebRtcSignalling.receive_of_ok (JavaWebRtc.handle_ignored hnot)
    rw [heq]
    refine ⟨h.publisher, h.sink, ?_, h.sinkHears⟩
    refine hpub.pop hp hi hq hc hr fun e he => ⟨fun hk x hx => ?_, (hcand e he).2⟩
    refine ((hcand e he).1 hk x hx).imp_right ?_
    rintro ⟨j, hj, hjd, hxj⟩
    rw [infos_message] at hj
    rcases List.mem_cons.mp hj with rfl | hj
    · exact absurd (hjd.trans h.publisher.id.symm) hid
    · exact ⟨j, hj, hjd, hxj⟩

theorem Inv.deliverPublisher (h : Inv p l r) (hin : l.inbox = q :: rest)
    (hq : q ∈ r.published) : Inv p (l.take (streamReceive l.state p.sink q) rest) r := by
  rcases h.pubHears.sent q hq with rfl | ⟨i, rfl, hid, hsdp⟩
  · have hpub := h.pubHears
    rw [hin] at hpub
    rw [streamReceive_start (.inl h.publisher.role)]
    exact ⟨h.publisher, h.sink, hpub.skip, h.sinkHears⟩
  · by_cases hp : l.state.webrtc.peerDiscoveryId = none
    · exact h.deliverFirst hin hp hid hsdp
    · exact h.deliverLater hin (mem_infos.mpr ⟨_, hq, rfl⟩) hp

/-- A publisher that has described its stream is known to the sink, which negotiates with it. -/
theorem Inv.chosen (h : Inv p l r) (hl : l.state.webrtc.localDescription ≠ none) :
    r.state.peerAittId = p.publisher.id ∧ r.state.stream.id = p.streamId ∧
      (r.state.stream.state ≠ some .playing → r.state.stream.state = some .negotiating) := by
  have hp := Option.ne_none_iff_exists'.mpr ⟨_, h.publisher.has_peer hl⟩
  obtain ⟨hd, -⟩ := h.connected (h.pubHears.heard hp).1
  have hne : r.state.peerAittId ≠ "" := fun he => hd (by rw [h.sink.here.fresh he])
  refine ⟨h.sink.eq_peer hne, (h.sink.here.id hne).trans h.sink.streamId, fun hplay => ?_⟩
  exact (state_cases h.sinkHears.alive hplay).resolve_left fun he => hd (h.sink.here.idle he)

/-- The sink takes information from its peer. -/
theorem SinkHears.taken (h : SinkHears p m n (.message i.message :: rest) published)
    (hl : m.webrtc.localDescription = some i.sdp) (hsdp : i.sdp ≠ "")
    (hn : n.stream.state ≠ some .playing → n.stream.state = some .negotiating)
    {base : Stream} {sdp : String} (hpeer : n'.peerAittId = n.peerAittId)
    (ht : Taken base n'.stream sdp i.iceCandidates)
    (hbase : base.webrtcHandle = n.stream.webrtcHandle)
    (hstored : base.storedPeerIceCandidates = n.stream.storedPeerIceCandidates)
    (hid : base.peerId = p.publisherId)
    (hr : n.stream.peerId ≠ "" ∨ sdp = i.sdp) (hne : p.publisherId ≠ "") :
    SinkHears p m n' rest published := by
  have hstate : base.state = n.stream.state := by rw [Stream.state, Stream.state, hbase]
  have hplay : n'.stream.state = n.stream.state := ht.state.trans hstate
  refine ⟨h.sent, h.started, ?_, ?_, .inr (ht.peerId.trans hid), fun _ => by simp [hl], ?_, ?_⟩
  · rw [hpeer]
    exact h.chosen
  · rw [ne_eq, ht.handle_none, hbase]
    exact h.alive
  · intro hp _ d hd
    rw [hplay] at hp
    obtain rfl := Option.some.inj (hl.symm.trans hd)
    rcases hr with hq | rfl
    · obtain ⟨g, hg, hgd⟩ := h.described hp hq _ hl
      exact ht.earlier _ ⟨g, hbase ▸ hg, hgd⟩
    · exact ht.applied (hstate.trans (hn hp)) hsdp
  · intro hp x hx
    rw [hplay] at hp
    have hmem := ht.stored_of_negotiating (hstate.trans (hn hp)) x
    rw [hstored] at hmem
    have hq : n'.stream.peerId ≠ "" := by
      rw [ht.peerId, hid]
      exact hne
    rcases h.covered hp x hx with ⟨-, hx⟩ | ⟨j, hj, hxj⟩
    · exact .inl ⟨hq, hmem.mpr (.inl hx)⟩
    · rw [infos_message] at hj
      rcases List.mem_cons.mp hj with rfl | hj
      · exact .inl ⟨hq, hmem.mpr (.inr hxj)⟩
      · exact .inr ⟨j, hj, hxj⟩

theorem Inv.deliverStart (h : Inv p l r) (hin : r.inbox = startPacket :: rest)
    (hq : startPacket ∈ l.published) :
    Inv p l (r.take (managerReceive r.state p.publisher startPacket) rest) := by
  have hears := h.sinkHears
  rw [hin] at hears
  have heq : managerReceive r.state p.publisher startPacket =
      r.state.sinkHandleStartStream p.publisher.id := by
    simp [managerReceive, startPacket, StreamManager.handleMsg, StreamManager.handleStreamState,
      h.sink.role]
  rw [heq, StreamManager.sinkHandleStartStream]
  split
  · exact ⟨h.publisher, h.sink, h.pubHears, { hears with }⟩
  · rename_i hne
    have hp := not_not.mp hne
    have hfresh := h.sink.here.fresh hp
    have hi : r.state.stream.iceCandidates = [] := by rw [hfresh]
    obtain ⟨hl, hnone, hpeer⟩ := h.unpeered hi
    have hm : Handled r.state p.publisher.id (.string "START")
        (r.state.sinkAddStream p.publisher.id) := .sinkStart h.sink.role rfl hp
    refine ⟨h.publisher, h.sink.handled hm, h.pubHears.silentSink hi hi, ?_⟩
    refine
      { hears with
        chosen := fun _ => List.ne_nil_of_mem hq
        alive := ?_
        described := fun _ hn => absurd hpeer hn
        covered := fun _ x hx => ?_ }
    · change r.state.stream.start.webrtcHandle ≠ none
      rw [hfresh]
      exact Option.some_ne_none _
    · rw [hnone] at hx
      cases hx

theorem Inv.deliverInfo (h : Inv p l r) (hin : r.inbox = .message i.message :: rest)
    (hid : i.id = p.publisherId) (hl : l.state.webrtc.localDescription = some i.sdp)
    (hpeer : i.peerId = p.streamId) :
    Inv p l (r.take (managerReceive r.state p.publisher (.message i.message)) rest) := by
  have hears := h.sinkHears
  rw [hin] at hears
  have hsdp := h.publisher.nonempty _ hl
  obtain ⟨hchosen, hown, hneg⟩ := h.chosen (by rw [hl]; nofun)
  have hm := handled_handleMsg r.state p.publisher.id i.message
  have hside := h.sink.handled hm
  have hframe := framed_handled hm
  change Inv p l (r.take (r.state.handleMsg p.publisher.id i.message) rest)
  generalize r.state.handleMsg p.publisher.id i.message = n' at hm hside hframe
  have hpub (hq : r.state.stream.peerId ≠ "" → n'.stream.peerId ≠ "") :
      PubHears p l.state n' l.inbox r.published :=
    h.pubHears.sameSink hframe.iceCandidates hframe.localDescription hq
  cases hm with
  | ignored _ sink => exact absurd (hpeer.trans hown.symm) (sink h.sink.role i rfl hchosen)
  | destroyed stop => cases stop
  | srcFirst role | srcUpdate role => cases h.sink.role.symm.trans role
  | sinkStart _ start => cases start
  | sinkFirst _ info _ _ first =>
    cases info
    refine ⟨h.publisher, hside, hpub fun hq => absurd first hq, ?_⟩
    exact hears.taken hl hsdp hneg rfl (taken_addPeerInformation _ _ _) rfl rfl hid (.inr rfl)
      p.nonempty
  | sinkUpdate _ info _ _ later =>
    cases info
    have hsame := updatePeerInformation_frame r.state.stream i.iceCandidates
    refine ⟨h.publisher, hside, hpub fun hq => hsame.2.2.1 ▸ hq, ?_⟩
    have hknown := h.sinkHears.peerId.resolve_left later
    by_cases hplay : r.state.stream.state = some .playing
    · rw [updatePeerInformation_playing hplay]
      exact { hears with
        described := fun hn => absurd hplay hn
        covered := fun hn => absurd hplay hn }
    · exact hears.taken hl hsdp hneg rfl (taken_updatePeerInformation hplay _) rfl rfl hknown
        (.inl later) p.nonempty

theorem Inv.deliverSink (h : Inv p l r) (hin : r.inbox = q :: rest)
    (hq : q ∈ l.published) : Inv p l (r.take (managerReceive r.state p.publisher q) rest) := by
  rcases h.sinkHears.sent q hq with rfl | ⟨i, rfl, hid, hl, hpeer⟩
  · exact h.deliverStart hin hq
  · exact h.deliverInfo hin hid hl hpeer

theorem keeps (p : Pair) :
    Exchange.Keeps (exchange p) StreamInert ManagerInert (Inv p) where
  initial := by
    refine ⟨?_, .created _ _ _, ?_, ?_⟩
    · exact .created _ _ _
    · exact ⟨nofun, fun _ => rfl, nofun, fun hi => absurd rfl hi, nofun, nofun, fun _ => rfl,
        fun hp => absurd rfl hp⟩
    · exact ⟨nofun, fun hn => absurd rfl hn, fun hn => absurd rfl hn, nofun, .inl rfl,
        fun hn => absurd rfl hn, fun _ hn => absurd rfl hn, nofun⟩
  left h ha := h.publisherActs (streamActed h.publisher ha)
  right h ha := h.sinkActs (managerActed ha)
  republishLeft h _ := ⟨h.publisher, h.sink, h.pubHears, h.sinkHears.get _⟩
  republishRight h hm := by
    refine ⟨h.publisher, h.sink, h.pubHears.get fun hnil => ?_, h.sinkHears⟩
    rw [infos, List.filterMap_eq_nil_iff] at hnil ⊢
    exact fun q hq => hnil q (List.mem_singleton.mp hq ▸ List.mem_of_getLast? hm)
  deliverLeft h hin hq := h.deliverPublisher hin hq
  deliverRight h hin hq := h.deliverSink hin hq
  otherLeft h hd := side_other h.publisher hd
  otherRight h hd := h.sink.other hd

variable {s t : System}

theorem Inv.applied_sink (h : Inv p s.left s.right) (hin : s.right.inbox = [])
    (hplay : s.right.state.stream.state ≠ some .playing) : AppliedBySink s := by
  intro hne
  have hstored : ∀ x ∈ s.left.state.webrtc.iceCandidates, s.right.state.stream.peerId ≠ "" ∧
      x ∈ s.right.state.stream.storedPeerIceCandidates := by
    intro x hx
    refine (h.sinkHears.covered hplay x hx).resolve_right ?_
    rw [hin]
    rintro ⟨i, hi, -⟩
    cases hi
  obtain ⟨x, hx⟩ := List.exists_mem_of_ne_nil _ hne
  obtain ⟨sdp, hl⟩ := Option.ne_none_iff_exists'.mp (h.publisher.gathered hne)
  obtain ⟨g, hg, hd⟩ := h.sinkHears.described hplay (hstored x hx).1 sdp hl
  exact ⟨g, hg, ⟨sdp, hl, hd⟩, fun y hy => h.sink.here.faithful g hg (hstored y hy).2⟩

theorem Inv.applied_publisher_iff (h : Inv p s.left s.right) (hin : s.left.inbox = []) :
    AppliedByPublisher s ↔ Informed p s := by
  by_cases hi : s.right.state.stream.iceCandidates = []
  · refine iff_of_true (fun hn => absurd hi hn) ?_
    rw [Informed, h.pubHears.silent hi]
    nofun
  · obtain ⟨e, he, hcands⟩ := h.pubHears.last hi
    have hp : s.left.state.webrtc.peerDiscoveryId ≠ none := by
      intro hp
      have hhead := h.pubHears.unheard hp
      rw [hin, infos_nil, List.head?_nil, eq_comm, List.head?_eq_none_iff] at hhead
      rw [hhead] at he
      cases he
    obtain ⟨-, -, c, hc, hr, hcand⟩ := h.pubHears.heard hp
    obtain ⟨hknown, hunknown⟩ := hcand e he
    have hinformed : Informed p s ↔ e.peerId = p.publisherId ∨
        e.iceCandidates ⊆ e.iceCandidates.take 1 := by
      simp [Informed, he]
    rw [hinformed, hcands]
    constructor
    · intro ha
      obtain ⟨c', hc', -, hsub⟩ := ha hi
      cases hc.symm.trans hc'
      by_cases hk : e.peerId = p.publisherId
      · exact .inl hk
      · rw [hunknown hk] at hsub
        exact .inr hsub
    · intro hor _
      refine ⟨c, hc, hr, ?_⟩
      by_cases hk : e.peerId = p.publisherId
      · intro x hx
        refine (hknown hk x hx).resolve_right ?_
        rw [hin]
        rintro ⟨i, hi, -⟩
        cases hi
      · rw [hunknown hk]
        exact hor.resolve_left hk

/-- A sink of the C++ library takes everything of a publisher of the Java library until it plays.
The publisher has everything of the sink exactly if the sink's latest information had the id of its
stream or no more candidates than the first. Others change nothing, unless they make themselves
known to a party without a peer. -/
theorem java_publisher_and_sink_applied
    (h : (exchange p).machine.Reaches (Exchange.Ok StreamInert ManagerInert) s) :
    s.disturbed = false ∧
      (s.right.inbox = [] → s.right.state.stream.isPlayingState = false → AppliedBySink s) ∧
      (s.left.inbox = [] → (AppliedByPublisher s ↔ Informed p s)) ∧
      ∀ e t, ¬ Exchange.Ok StreamInert ManagerInert s e →
        (exchange p).machine.step s e = some t → t.disturbed = true := by
  obtain ⟨hi, hd, -⟩ := (keeps p).reaches h
  refine ⟨hd, fun hin hplay => hi.applied_sink hin ?_, hi.applied_publisher_iff,
    fun e t hn hs => (keeps p).disturbed_of_not_ok hi hn hs⟩
  rwa [isPlayingState_eq, decide_eq_false_iff_not] at hplay

theorem camera_nonempty : "camera" ≠ "" := by decide

theorem screen_nonempty : "screen" ≠ "" := by decide

theorem src_nonempty : "src" ≠ "" := by decide

def pair : Pair where
  publisher := ⟨"camera", camera_nonempty⟩
  sink := ⟨"screen", screen_nonempty⟩
  publisherId := "src"
  streamId := "k0x1"
  nonempty := src_nonempty

def offered : List (Event Client Packet StreamAct ManagerAct) :=
  [.left .start, .deliverRight, .right (.signal .negotiate), .right (.signal (.describe "offer")),
    .right (.signal (.candidate "k1"))]

def answered : List (Event Client Packet StreamAct ManagerAct) :=
  [.deliverLeft, .left (.described "answer"), .left (.gathered "c1"), .deliverRight]

/-- The second candidate of the sink comes after the answer and is applied; one that comes before
it is lost. -/
theorem java_publisher_and_sink_applied_after_answer :
    (∃ s, (exchange pair).machine.Reaches (Exchange.Ok StreamInert ManagerInert) s ∧
      s.right.state.stream.iceCandidates = ["k1", "k2"] ∧ AppliedBySink s ∧
      AppliedByPublisher s) ∧
    ∃ s, (exchange pair).machine.Reaches (Exchange.Ok StreamInert ManagerInert) s ∧
      s.left.inbox = [] ∧ s.right.inbox = [] ∧ ¬ AppliedByPublisher s := by
  constructor
  · obtain ⟨s, hr, hs⟩ := (exchange pair).machine.exists_reaches
      (Exchange.Ok StreamInert ManagerInert)
      (offered ++ answered ++ [.right (.signal (.candidate "k2")), .deliverLeft])
      (fun s => s.left.inbox = [] && s.right.inbox = [] &&
        s.right.state.stream.isPlayingState = false &&
        s.right.state.stream.iceCandidates = ["k1", "k2"] &&
        (infos s.right.published).getLast?.any (·.peerId = "src")) (by decide +kernel)
    simp only [Bool.and_eq_true, decide_eq_true_eq] at hs
    obtain ⟨⟨⟨⟨hl, hr'⟩, hplay⟩, hice⟩, hlast⟩ := hs
    obtain ⟨-, hsink, hpub, -⟩ := java_publisher_and_sink_applied hr
    refine ⟨s, hr, hice, hsink hr' hplay, (hpub hl).mpr fun e he => .inl ?_⟩
    rw [Option.mem_def.mp he] at hlast
    exact of_decide_eq_true hlast
  · obtain ⟨s, hr, hs⟩ := (exchange pair).machine.exists_reaches
      (Exchange.Ok StreamInert ManagerInert)
      (offered ++ [.right (.signal (.candidate "k2"))] ++ answered ++ [.deliverLeft])
      (fun s => s.left.inbox = [] && s.right.inbox = [] &&
        (infos s.right.published).getLast? =
          some ⟨"k0x1", "", "offer", ["k1", "k2"]⟩) (by decide +kernel)
    simp only [Bool.and_eq_true, decide_eq_true_eq] at hs
    obtain ⟨⟨hl, hr'⟩, hlast⟩ := hs
    obtain ⟨-, -, hpub, -⟩ := java_publisher_and_sink_applied hr
    refine ⟨s, hr, hl, hr', fun ha => ?_⟩
    rcases (hpub hl).mp ha _ hlast with he | he
    · exact absurd he (by decide)
    · exact absurd he (by decide)

end WebRtcJavaToSink
