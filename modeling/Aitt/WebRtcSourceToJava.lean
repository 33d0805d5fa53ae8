import Aitt.WebRtcInterop

/-! A source of the C++ library and a subscriber of the Java library on one topic. The subscriber
publishes all its candidates at each new one, with the id of the source's client until it knows the
stream of the source; the source takes what has another id than its stream. -/
namespace WebRtcSourceToJava

open TransitionRuns PairExchange WebRtcStream WebRtcManager WebRtcPeer WebRtcInterop
open JavaWebRtcSignalling (startStream gatherStream gatherInfo)

structure Pair where
  source : Client
  subscriber : Client
  streamId : String
  subscriberId : String

/-- `inTime` has the candidates of the information that was taken while the library was
negotiating; nothing reads it. -/
structure Source where
  manager : StreamManager
  inTime : List String := []
  deriving DecidableEq

def Adds (m : StreamManager) (d : Client) (i : StreamInfo) : Prop :=
  m.peerAittId = d.id ∧ m.stream.isNegotiatingState = true ∧ i.peerId ≠ m.stream.id

instance (m : StreamManager) (d : Client) (i : StreamInfo) : Decidable (Adds m d i) :=
  inferInstanceAs (Decidable (_ ∧ _))

def added (m : StreamManager) (d : Client) (q : Packet) : List String :=
  match q.info with
  | some i => if Adds m d i then i.iceCandidates else []
  | none => []

def Source.receive (m : Source) (d : Client) (q : Packet) : Source where
  manager := managerReceive m.manager d q
  inTime := m.inTime ++ added m.manager d q

def Source.act (m : Source) (a : ManagerAct) : Option (Source × List Packet) :=
  (managerAct m.manager a).map fun r => ({ m with manager := r.1 }, r.2)

def SourceInert (m : Source) (q : Packet) : Prop := ManagerInert m.manager q

instance (m : Source) (q : Packet) : Decidable (SourceInert m q) :=
  inferInstanceAs (Decidable (ManagerInert m.manager q))

abbrev System := State Packet Source JavaWebRtc.Stream

def exchange (p : Pair) :
    Exchange Client Packet Source ManagerAct JavaWebRtc.Stream StreamAct where
  left :=
    { initial := { manager := { role := .src, streamId := p.streamId } }
      receive := Source.receive
      act := Source.act }
  right :=
    { initial := (JavaWebRtc.Stream.create p.subscriberId .subscriber).setJNIInterface
      receive := streamReceive
      act := streamAct }
  leftId := p.source
  rightId := p.subscriber

def AppliedBySource (s : System) : Prop :=
  s.right.state.webrtc.iceCandidates ≠ [] → ∃ h ∈ s.left.state.manager.stream.webrtcHandle,
    (∃ sdp ∈ s.right.state.webrtc.localDescription, sdp ∈ h.remoteDescriptions) ∧
      s.right.state.webrtc.iceCandidates ⊆ h.candidates

def AppliedBySubscriber (s : System) : Prop :=
  s.left.state.manager.stream.iceCandidates ≠ [] →
    ∃ c ∈ s.right.state.webrtc.peerConnection,
      c.remoteDescription = some s.left.state.manager.stream.localDescription ∧
        s.left.state.manager.stream.iceCandidates ⊆ c.candidates

/-- The candidates on their way to the source, or in what the subscriber has published last, without
the id of the source's stream. -/
def early (p : Pair) (s : System) : List String :=
  ((infos (s.left.inbox ++ s.right.published.getLast?.toList)).filter
    (·.peerId ≠ p.streamId)).flatMap (·.iceCandidates)

def Exact (s : Stream) : Prop := ∀ h ∈ s.webrtcHandle, h.candidates = s.storedPeerIceCandidates

theorem exact_setPeerInformation {s : Stream} (he : Exact s) :
    Exact (if s.isNegotiatingState then s.setPeerInformation.2 else s) := by
  split
  · rename_i hn
    rw [isNegotiatingState_eq, decide_eq_true_eq] at hn
    obtain ⟨h, hh, hstate⟩ := Option.map_eq_some_iff.mp hn
    obtain ⟨h', new, hs, -, -⟩ := setPeerInformation_spec hh hstate
    rw [hs]
    rintro g hg
    cases hg
    change h.candidates ++ new = _
    rw [he h hh]
  · exact he

theorem exact_addPeerInformation {s : Stream} (he : Exact s) (sdp : String) (cs : List String) :
    Exact (s.addPeerInformation sdp cs).2 := by
  have ht := exact_setPeerInformation
    (s := { s with remoteDescription := sdp, peerIceCandidates := cs }) he
  unfold Stream.addPeerInformation
  rw [apply_ite Prod.snd]
  exact ht

theorem exact_updatePeerInformation {s : Stream} (he : Exact s)
    (hp : s.state ≠ some .playing) (cs : List String) : Exact (s.updatePeerInformation cs) := by
  have ht := exact_setPeerInformation (s := { s with peerIceCandidates := cs }) he
  rw [Stream.updatePeerInformation, isPlayingState_eq, if_neg (by simpa using hp)]
  exact ht

/-- What the source `m` has of the subscriber `n`. -/
structure SrcHears (p : Pair) (m : Source) (n : JavaWebRtc.Stream) (published : List Packet) :
    Prop where
  sent : ∀ q ∈ published, ∃ i : StreamInfo, q = .message i.message ∧ i.id = p.subscriberId ∧
    n.webrtc.localDescription = some i.sdp
  unpeered : m.manager.peerAittId = "" → m.inTime = []
  known : m.manager.peerAittId ≠ "" → n.webrtc.localDescription ≠ none ∧
    m.manager.stream.webrtcHandle ≠ none ∧ m.manager.stream.peerId = p.subscriberId
  waiting : m.manager.peerAittId ≠ "" → m.manager.stream.state = some .idle →
    n.webrtc.localDescription = some m.manager.stream.remoteDescription
  described : m.manager.peerAittId ≠ "" → m.manager.stream.state ≠ some .idle →
    ∀ sdp ∈ n.webrtc.localDescription, Remote m.manager.stream sdp
  exact : m.manager.stream.state ≠ some .playing → Exact m.manager.stream ∧
    ∀ x, x ∈ m.manager.stream.storedPeerIceCandidates ↔ x ∈ m.inTime

/-- What the subscriber `n` has of the source `m`. -/
structure SubHears (p : Pair) (m : StreamManager) (n : JavaWebRtc.Stream)
    (inbox published : List Packet) : Prop where
  sent : ∀ q ∈ published, q = startPacket ∨ ∃ i : StreamInfo, q = .message i.message ∧
    i.id = p.streamId ∧ i.sdp = m.stream.localDescription ∧ i.sdp ≠ "" ∧
    i.peerId = p.subscriberId
  peerId : ∀ id ∈ n.webrtc.peerId, id = p.streamId
  peered : n.webrtc.peerId ≠ none → m.stream.localDescription ≠ "" ∧
    ∃ c, n.webrtc.peerConnection = some c ∧
      c.remoteDescription = some m.stream.localDescription
  covered : ∀ x ∈ m.stream.iceCandidates,
    (n.webrtc.peerId ≠ none ∧ ∃ c ∈ n.webrtc.peerConnection, x ∈ c.candidates) ∨
      ∃ i ∈ infos inbox, x ∈ i.iceCandidates

structure Inv (p : Pair) (l : Side Source Packet) (r : Side JavaWebRtc.Stream Packet) : Prop where
  source : ManagerSide .src p.streamId p.subscriber l.state.manager
  subscriber : StreamSide .subscriber p.subscriberId p.source r.state
  srcHears : SrcHears p l.state r.state r.published
  subHears : SubHears p l.state.manager r.state r.inbox l.published

variable {p : Pair} {l : Side Source Packet} {r : Side JavaWebRtc.Stream Packet}
  {m m' : Source} {n n' : JavaWebRtc.Stream} {a a' : StreamManager}
  {inbox rest published : List Packet} {q : Packet} {i : StreamInfo}

/-- The subscriber changes nothing that it has published. -/
theorem SrcHears.sameSub (h : SrcHears p m n published)
    (hl : n'.webrtc.localDescription = n.webrtc.localDescription) :
    SrcHears p m n' published where
  sent := by
    rw [hl]
    exact h.sent
  unpeered := h.unpeered
  known := by
    rw [hl]
    exact h.known
  waiting := by
    rw [hl]
    exact h.waiting
  described := by
    rw [hl]
    exact h.described
  exact := h.exact

theorem SubHears.sameSource (h : SubHears p a n inbox published)
    (hi : a'.stream.iceCandidates = a.stream.iceCandidates)
    (hl : a'.stream.localDescription = a.stream.localDescription) :
    SubHears p a' n inbox published where
  sent := by
    rw [hl]
    exact h.sent
  peerId := h.peerId
  peered := by
    rw [hl]
    exact h.peered
  covered := by
    rw [hi]
    exact h.covered

/-- The subscriber changes nothing that it has of the source. -/
theorem SubHears.sameSub (h : SubHears p a n inbox published)
    (hq : n'.webrtc.peerId = n.webrtc.peerId)
    (hc : n.webrtc.peerId ≠ none → ∀ c, n.webrtc.peerConnection = some c →
      ∃ c', n'.webrtc.peerConnection = some c' ∧
        c'.remoteDescription = c.remoteDescription ∧ c'.candidates = c.candidates) :
    SubHears p a n' inbox published where
  sent := h.sent
  peerId := by
    rw [hq]
    exact h.peerId
  peered hn := by
    rw [hq] at hn
    obtain ⟨hl, c, hcm, hr⟩ := h.peered hn
    obtain ⟨c', hcm', hr', -⟩ := hc hn c hcm
    exact ⟨hl, c', hcm', hr'.trans hr⟩
  covered x hx := by
    refine (h.covered x hx).imp_left ?_
    rintro ⟨hn, c, hcm, hxc⟩
    obtain ⟨c', hcm', -, hcand⟩ := hc hn c hcm
    exact ⟨hq ▸ hn, c', hcm', hcand ▸ hxc⟩

theorem SubHears.get (h : SubHears p a n inbox published) (msgs : List Packet) :
    SubHears p a n (inbox ++ msgs) published where
  sent := h.sent
  peerId := h.peerId
  peered := h.peered
  covered x hx := by
    refine (h.covered x hx).imp_right ?_
    rintro ⟨i, hi, hxi⟩
    rw [infos_append]
    exact ⟨i, List.mem_append_left _ hi, hxi⟩

/-- The library of the source signals, or the source says that it has started. -/
theorem Inv.sourceActs (h : Inv p l r) {result : StreamManager × List Packet}
    (ha : ManagerActed l.state.manager result) :
    Inv p (l.send ({ l.state with manager := result.1 }, result.2)) (r.get result.2) := by
  have hside := h.source.acted ha
  cases ha with
  | start =>
    have hget := h.subHears.get [startPacket]
    refine ⟨hside, h.subscriber, h.srcHears, { hget with sent := ?_ }⟩
    intro q hq
    rcases List.mem_append.mp hq with hq | hq
    · exact h.subHears.sent q hq
    · exact .inl (List.mem_singleton.mp hq)
  | quiet w stream signalled ice =>
    have hpeer := h.source.here.peer_of_signalled signalled
    have hpub := l.published_quiet
      { l.state with manager := { l.state.manager with stream := stream } }
    rw [r.get_nothing]
    cases signalled with
    | @negotiate g g' handle started idle described =>
      have hidle : l.state.manager.stream.state = some .idle := by
        rw [Stream.state, handle, Option.map_some, idle]
      have hwait := h.srcHears.waiting hpeer hidle
      have hsdp := h.subscriber.nonempty _ hwait
      refine ⟨hside, h.subscriber, ?_, hpub ▸ h.subHears.sameSource rfl rfl⟩
      refine ⟨h.srcHears.sent, h.srcHears.unpeered, fun hp => ?_, fun _ hs => ?_,
        fun _ _ sdp hd => ?_, fun _ => ⟨?_, ?_⟩⟩
      · exact ⟨(h.srcHears.known hp).1, Option.some_ne_none _, (h.srcHears.known hp).2.2⟩
      · cases described.state.symm.trans (Option.some.inj hs)
      · cases hwait.symm.trans hd
        exact ⟨g', rfl, described.remote hsdp⟩
      · rintro _ ⟨⟩
        rw [described.candidates]
        exact (h.srcHears.exact (by simp [hidle])).1 g handle
      · exact (h.srcHears.exact (by simp [hidle])).2
    | @play g handle negotiating =>
      have hneg : l.state.manager.stream.state = some .negotiating := by
        rw [Stream.state, handle, Option.map_some, negotiating]
      refine ⟨hside, h.subscriber, ?_, hpub ▸ h.subHears.sameSource rfl rfl⟩
      refine ⟨h.srcHears.sent, h.srcHears.unpeered, fun hp => ?_, fun _ hs => ?_,
        fun hp _ sdp hd => ?_, fun hn => absurd rfl hn⟩
      · exact ⟨(h.srcHears.known hp).1, Option.some_ne_none _, (h.srcHears.known hp).2.2⟩
      · cases hs
      · obtain ⟨g', hg, hgd⟩ := h.srcHears.described hp (by simp [hneg]) sdp hd
        cases handle.symm.trans hg
        exact ⟨_, rfl, hgd⟩
    | describe negotiating none nonempty =>
      have hi := h.source.here.gathered none
      have hunpeered : ¬ r.state.webrtc.peerId ≠ Option.none := fun hn =>
        (h.subHears.peered hn).1 none
      refine ⟨hside, h.subscriber, { h.srcHears with }, ?_⟩
      refine ⟨fun q hq => ?_, h.subHears.peerId, fun hn => absurd hn hunpeered, fun x hx => ?_⟩
      · rw [hpub] at hq
        refine (h.subHears.sent q hq).imp_right ?_
        rintro ⟨i, -, -, hsdp, hne, -⟩
        exact absurd (hsdp.trans none) hne
      · have hx : x ∈ l.state.manager.stream.iceCandidates := hx
        rw [hi] at hx
        cases hx
    | candidate =>
      simp at ice
  | candidate c signalled =>
    have hpeer := h.source.here.peer_of_signalled signalled
    have hid := (h.source.here.id hpeer).trans h.source.streamId
    obtain ⟨i, hi⟩ : ∃ i : StreamInfo, i = ⟨l.state.manager.stream.id,
        l.state.manager.stream.peerId, l.state.manager.stream.localDescription,
        l.state.manager.stream.iceCandidates ++ [c]⟩ := ⟨_, rfl⟩
    have hget := h.subHears.get [.message i.message]
    rw [← hi]
    refine ⟨hside, h.subscriber, { h.srcHears with }, ?_⟩
    refine { hget with sent := ?_, covered := fun x hx => .inr ⟨i, by simp, ?_⟩ }
    · intro q hq
      rcases List.mem_append.mp hq with hq | hq
      · exact h.subHears.sent q hq
      · refine .inr ⟨i, List.mem_singleton.mp hq, ?_⟩
        rw [hi]
        refine ⟨hid, rfl, ?_, (h.srcHears.known hpeer).2.2⟩
        cases signalled with
        | candidate _ described => exact described
    · rw [hi]
      exact hx

/-- What the subscriber publishes has the id of the source's stream once it knows it. -/
theorem Inv.subscriberActs (h : Inv p l r) {result : JavaWebRtc.Stream × List Packet}
    (ha : StreamActed .subscriber p.source r.state result) :
    Inv p (l.get result.2) (r.send result) := by
  have hside := side_acted h.subscriber ha
  cases ha with
  | again =>
    rw [l.get_nothing, r.send_nothing]
    exact h
  | start init none =>
    have hunpeered : ¬ r.state.webrtc.peerId ≠ Option.none := by
      intro hn
      obtain ⟨-, c, hc, -⟩ := h.subHears.peered hn
      cases none.symm.trans hc
    exact ⟨h.source, hside, r.published_quiet (startStream r.state) ▸ h.srcHears.sameSub rfl,
      h.subHears.sameSub rfl fun hn => absurd hn hunpeered⟩
  | @described sdp c nonempty connection describing none =>
    have hp : l.state.manager.peerAittId = "" := by
      by_contra hp
      exact (h.srcHears.known hp).1 none
    refine ⟨h.source, hside, ?_, h.subHears.sameSub rfl fun _ c' hc => ?_⟩
    · refine ⟨fun q hq => ?_, h.srcHears.unpeered, fun hn => absurd hp hn, fun hn => absurd hp hn,
        fun hn => absurd hp hn, h.srcHears.exact⟩
      rw [Side.published_send, List.append_nil] at hq
      obtain ⟨i, -, -, hi⟩ := h.srcHears.sent q hq
      cases none.symm.trans hi
    · cases connection.symm.trans hc
      exact ⟨_, rfl, rfl, rfl⟩
  | @gathered sdp candidate known described =>
    have hsame : SrcHears p l.state (gatherStream r.state candidate) r.published :=
      h.srcHears.sameSub rfl
    refine ⟨h.source, hside, { hsame with sent := fun q hq => ?_ },
      h.subHears.sameSub rfl fun _ c hc => ⟨c, hc, rfl, rfl⟩⟩
    rcases List.mem_append.mp hq with hq | hq
    · exact h.srcHears.sent q hq
    · exact ⟨_, List.mem_singleton.mp hq, h.subscriber.id, described⟩

/-- Information of the subscriber that is not added leaves the record alone. -/
theorem added_of_not_adds (h : ¬ Adds a d i) : added a d (.message i.message) = [] := if_neg h

theorem added_of_adds (h : Adds a d i) : added a d (.message i.message) = i.iceCandidates :=
  if_pos h

/-- The first information waits until the library negotiates. -/
theorem Inv.deliverFirst (h : Inv p l r) (hid : i.id = p.subscriberId)
    (hl : r.state.webrtc.localDescription = some i.sdp)
    (hp : l.state.manager.peerAittId = "") :
    SrcHears p ⟨l.state.manager.srcAddStream p.subscriber.id i.id i.sdp i.iceCandidates,
      l.state.inTime⟩ r.state r.published := by
  have hfresh := h.source.here.fresh hp
  have htaken := taken_addPeerInformation
    ((l.state.manager.stream.start.setStreamId l.state.manager.streamId).setPeerId i.id)
    i.sdp i.iceCandidates
  have hexact := exact_addPeerInformation
    (s := (l.state.manager.stream.start.setStreamId l.state.manager.streamId).setPeerId i.id)
    (by rw [hfresh]; rintro _ ⟨⟩; rfl) i.sdp i.iceCandidates
  have hidle : ((l.state.manager.stream.start.setStreamId l.state.manager.streamId).setPeerId
      i.id).state = some .idle := by
    rw [hfresh]
    rfl
  refine ⟨h.srcHears.sent, fun he => absurd he p.subscriber.nonempty, fun _ => ⟨?_, ?_, ?_⟩,
    fun _ _ => ?_, fun _ hs => ?_, fun _ => ⟨hexact, fun x => ?_⟩⟩
  · rw [hl]
    nofun
  · refine mt htaken.handle_none.mp ?_
    rw [hfresh]
    nofun
  · exact htaken.peerId.trans hid
  · exact hl.trans (congrArg some (htaken.kept (by rw [hidle]; nofun)).symm)
  · exact absurd (htaken.state.trans hidle) hs
  · refine (htaken.stored x).trans ?_
    rw [hidle, h.srcHears.unpeered hp, hfresh]
    simp [Stream.start, Stream.setStreamId, Stream.setPeerId]

/-- Later information without the id of the source's stream. -/
theorem Inv.deliverUpdate (h : Inv p l r) (hp : l.state.manager.peerAittId = p.subscriber.id)
    (hi : i.peerId ≠ l.state.manager.stream.id) :
    SrcHears p
      ⟨{ l.state.manager with
        stream := l.state.manager.stream.updatePeerInformation i.iceCandidates },
        l.state.inTime ++ added l.state.manager p.subscriber (.message i.message)⟩
      r.state r.published := by
  have hears := h.srcHears
  have hne : l.state.manager.peerAittId ≠ "" := hp ▸ p.subscriber.nonempty
  obtain ⟨hlocal, halive, hid⟩ := hears.known hne
  obtain ⟨-, -, hpeer, hstate⟩ :=
    updatePeerInformation_frame l.state.manager.stream i.iceCandidates
  have hadds : Adds l.state.manager p.subscriber i ↔
      l.state.manager.stream.state = some .negotiating := by
    rw [Adds, isNegotiatingState_eq, decide_eq_true_eq]
    exact ⟨fun ha => ha.2.1, fun hn => ⟨hp, hn, hi⟩⟩
  by_cases hplay : l.state.manager.stream.state = some .playing
  · have heq := updatePeerInformation_playing hplay i.iceCandidates
    rw [heq] at hpeer hstate ⊢
    refine ⟨hears.sent, fun he => absurd he hne, fun _ => ⟨hlocal, halive, hid⟩,
      fun _ hs => ?_, fun _ _ => ?_, fun hs => absurd hplay hs⟩
    · cases hplay.symm.trans hs
    · exact hears.described hne (by rw [hplay]; nofun)
  · have htaken := taken_updatePeerInformation hplay i.iceCandidates
    obtain ⟨hexact, hstored⟩ := hears.exact hplay
    refine ⟨hears.sent, fun he => absurd he hne, fun _ => ⟨hlocal, ?_, hpeer.trans hid⟩,
      fun _ hs => ?_, fun _ hs sdp hd => ?_, fun _ => ⟨?_, fun x => ?_⟩⟩
    · exact mt htaken.handle_none.mp halive
    · have hidle := hstate.symm.trans hs
      refine (hears.waiting hne hidle).trans (congrArg some ?_)
      exact (htaken.kept (by rw [hidle]; nofun)).symm
    · exact htaken.earlier sdp (hears.described hne (fun he => hs (hstate.trans he)) sdp hd)
    · exact exact_updatePeerInformation hexact hplay _
    · rw [htaken.stored x, hstored x]
      by_cases hn : l.state.manager.stream.state = some .negotiating
      · rw [added_of_adds (hadds.mpr hn), List.mem_append, and_iff_right hn]
      · rw [added_of_not_adds (mt hadds.mp hn), List.append_nil]
        exact or_iff_left fun hx => hn hx.1

theorem Inv.deliverSource (h : Inv p l r) (hq : q ∈ r.published) :
    Inv p (l.take (l.state.receive p.subscriber q) rest) r := by
  obtain ⟨i, rfl, hid, hl⟩ := h.srcHears.sent q hq
  have hm := handled_handleMsg l.state.manager p.subscriber.id i.message
  have hside := h.source.handled hm
  have hframe := framed_handled hm
  change Inv p (l.take ⟨l.state.manager.handleMsg p.subscriber.id i.message,
    l.state.inTime ++ added l.state.manager p.subscriber (.message i.message)⟩ rest) r
  generalize l.state.manager.handleMsg p.subscriber.id i.message = a' at hm hside hframe
  refine ⟨hside, h.subscriber, ?_, h.subHears.sameSource hframe.iceCandidates
    hframe.localDescription⟩
  cases hm with
  | ignored src =>
    have hnot : ¬ Adds l.state.manager p.subscriber i := by
      rintro ⟨hp, -, hne⟩
      exact hne ((src h.source.role i rfl).2 hp)
    rw [added_of_not_adds hnot, List.append_nil]
    exact h.srcHears
  | destroyed stop => cases stop
  | srcFirst _ info peer =>
    cases info
    have hnot : ¬ Adds l.state.manager p.subscriber i := by
      rintro ⟨hp, -⟩
      exact p.subscriber.nonempty (hp.symm.trans peer)
    rw [added_of_not_adds hnot, List.append_nil]
    exact h.deliverFirst hid hl peer
  | srcUpdate _ info _ peer other =>
    cases info
    exact h.deliverUpdate peer other
  | sinkStart role | sinkFirst role | sinkUpdate role => cases h.source.role.symm.trans role

/-- The subscriber chooses the source, and asks for an offer if it has a connection. -/
theorem Inv.deliverStart (h : Inv p l r) (hin : r.inbox = startPacket :: rest) :
    Inv p l (r.take (streamReceive r.state p.source startPacket) rest) := by
  have hears := h.subHears
  rw [hin] at hears
  have hrest : SubHears p l.state.manager r.state rest l.published := { hears with }
  by_cases hp : r.state.webrtc.peerDiscoveryId = none
  · obtain ⟨hq, -, -⟩ := h.subscriber.fresh hp
    obtain ⟨hoffer, -, hl⟩ :=
      JavaWebRtc.offer_frame { r.state.webrtc with peerDiscoveryId := some p.source }
    have heq : streamReceive r.state p.source startPacket = _ :=
      JavaWebRtcSignalling.receive_of_ok (JavaWebRtc.handle_start h.subscriber.role hp)
    rw [heq]
    exact ⟨h.source, h.subscriber.announced hp, h.srcHears.sameSub hl,
      hrest.sameSub hoffer fun hn => absurd hq hn⟩
  · rw [streamReceive_start (.inr hp)]
    exact ⟨h.source, h.subscriber, h.srcHears, hrest⟩

/-- A source that has described its stream is known to the subscriber, which is connected. -/
theorem Inv.answered (h : Inv p l r) (hl : l.state.manager.stream.localDescription ≠ "") :
    r.state.webrtc.peerDiscoveryId = some p.source ∧
      ∃ c, r.state.webrtc.peerConnection = some c := by
  have hp : l.state.manager.peerAittId ≠ "" := by
    intro hp
    rw [h.source.here.fresh hp] at hl
    exact hl rfl
  have hd := (h.srcHears.known hp).1
  exact ⟨h.subscriber.has_peer hd, Option.ne_none_iff_exists'.mp (h.subscriber.connected hd)⟩

/-- The subscriber has taken the information that was first on its way. -/
theorem SubHears.pop (h : SubHears p a n (.message i.message :: rest) published)
    (hid : ∀ id ∈ n'.webrtc.peerId, id = p.streamId) (hp : n'.webrtc.peerId ≠ none)
    (hl : a.stream.localDescription ≠ "") {c : JavaWebRtc.Connection}
    (hc : n'.webrtc.peerConnection = some c)
    (hr : c.remoteDescription = some a.stream.localDescription)
    (hold : n.webrtc.peerId ≠ none → ∀ c' ∈ n.webrtc.peerConnection,
      c'.candidates ⊆ c.candidates)
    (hnew : i.iceCandidates ⊆ c.candidates) : SubHears p a n' rest published where
  sent := h.sent
  peerId := hid
  peered _ := ⟨hl, c, hc, hr⟩
  covered x hx := by
    rcases h.covered x hx with ⟨hn, c', hc', hxc⟩ | ⟨j, hj, hxj⟩
    · exact .inl ⟨hp, c, hc, hold hn c' hc' hxc⟩
    · rw [infos_message] at hj
      rcases List.mem_cons.mp hj with rfl | hj
      · exact .inl ⟨hp, c, hc, hnew hxj⟩
      · exact .inr ⟨j, hj, hxj⟩

theorem Inv.deliverInfo (h : Inv p l r) (hin : r.inbox = .message i.message :: rest)
    (hid : i.id = p.streamId) (hsdp : i.sdp = l.state.manager.stream.localDescription)
    (hne : i.sdp ≠ "") (hpeer : i.peerId = p.subscriberId) :
    Inv p l (r.take (streamReceive r.state p.source (.message i.message)) rest) := by
  have hears := h.subHears
  rw [hin] at hears
  have hl : l.state.manager.stream.localDescription ≠ "" := hsdp ▸ hne
  obtain ⟨hp, c, hc⟩ := h.answered hl
  have hp' := Option.ne_none_iff_exists'.mpr ⟨_, hp⟩
  have hid' : (toJava i).peerId = r.state.id := hpeer.trans h.subscriber.id.symm
  by_cases hq : r.state.webrtc.peerId = none
  · have heq : streamReceive r.state p.source (.message i.message) = _ :=
      JavaWebRtcSignalling.receive_of_ok (JavaWebRtc.handle_added hp hid' hq hc)
    have hdesc : (c.add r.state.webrtc.role i.sdp i.iceCandidates).describing =
        c.describing := by
      simp [JavaWebRtc.Connection.add, h.subscriber.role]
    rw [heq]
    refine ⟨h.source, h.subscriber.connection hp' hc hdesc, h.srcHears.sameSub rfl, ?_⟩
    refine hears.pop ?_ (Option.some_ne_none _) hl rfl ?_ (fun hn => absurd hq hn)
      (List.subset_append_right _ _)
    · rintro _ ⟨⟩
      exact hid
    · rw [← hsdp]
      exact if_neg hne
  · have heq : streamReceive r.state p.source (.message i.message) = _ :=
      JavaWebRtcSignalling.receive_of_ok (JavaWebRtc.handle_updated hp hid' hq hc)
    obtain ⟨-, c', hc', hr⟩ := hears.peered hq
    cases hc.symm.trans hc'
    rw [heq]
    refine ⟨h.source, h.subscriber.connection hp' hc rfl, h.srcHears.sameSub rfl, ?_⟩
    refine hears.pop hears.peerId hq hl rfl hr ?_ (List.subset_append_right _ _)
    rintro - c'' hc''
    cases hc.symm.trans hc''
    exact List.subset_append_left _ _

theorem Inv.deliverSubscriber (h : Inv p l r) (hin : r.inbox = q :: rest)
    (hq : q ∈ l.published) : Inv p l (r.take (streamReceive r.state p.source q) rest) := by
  rcases h.subHears.sent q hq with rfl | ⟨i, rfl, hid, hsdp, hne, hpeer⟩
  · exact h.deliverStart hin
  · exact h.deliverInfo hin hid hsdp hne hpeer

theorem Source.other {d : Client} (h : ManagerSide .src p.streamId p.subscriber m.manager)
    (hd : d ≠ p.subscriber) : m.receive d q = m ↔ SourceInert m q := by
  have hadded : added m.manager d q = [] := by
    unfold added
    split
    · exact if_neg fun ha => h.peer_ne hd ha.1
    · rfl
  have hrec : m.receive d q = { m with manager := managerReceive m.manager d q } := by
    rw [Source.receive, hadded, List.append_nil]
  rw [hrec, SourceInert, ← h.other hd]
  constructor
  · exact congrArg Source.manager
  · intro he
    rw [he]

theorem keeps (p : Pair) : Exchange.Keeps (exchange p) SourceInert StreamInert (Inv p) where
  initial := by
    refine ⟨.created _ _ _, ?_, ?_, ?_⟩
    · exact .created _ _ _
    · refine ⟨nofun, fun _ => rfl, fun hn => absurd rfl hn, fun hn => absurd rfl hn,
        fun hn => absurd rfl hn, fun _ => ⟨?_, fun x => .rfl⟩⟩
      rintro _ ⟨⟩
      rfl
    · exact ⟨nofun, nofun, fun hn => absurd rfl hn, nofun⟩
  left h ha := by
    obtain ⟨result, hr, rfl⟩ := Option.map_eq_some_iff.mp ha
    exact h.sourceActs (managerActed hr)
  right h ha := h.subscriberActs (streamActed h.subscriber ha)
  republishLeft h _ := ⟨h.source, h.subscriber, h.srcHears, h.subHears.get _⟩
  republishRight h _ := ⟨h.source, h.subscriber, h.srcHears, h.subHears⟩
  deliverLeft h _ hq := h.deliverSource hq
  deliverRight h hin hq := h.deliverSubscriber hin hq
  otherLeft h hd := Source.other h.source hd
  otherRight h hd := side_other h.subscriber hd

variable {s t : System}

theorem Inv.applied_subscriber (h : Inv p s.left s.right) (hin : s.right.inbox = []) :
    AppliedBySubscriber s := by
  intro hne
  have hcovered : ∀ x ∈ s.left.state.manager.stream.iceCandidates,
      s.right.state.webrtc.peerId ≠ none ∧
        ∃ c ∈ s.right.state.webrtc.peerConnection, x ∈ c.candidates := by
    intro x hx
    refine (h.subHears.covered x hx).resolve_right ?_
    rw [hin]
    rintro ⟨i, hi, -⟩
    cases hi
  obtain ⟨x, hx⟩ := List.exists_mem_of_ne_nil _ hne
  obtain ⟨-, c, hc, hr⟩ := h.subHears.peered (hcovered x hx).1
  refine ⟨c, hc, hr, fun y hy => ?_⟩
  obtain ⟨-, c', hc', hyc⟩ := hcovered y hy
  cases hc.symm.trans hc'
  exact hyc

/-- While it negotiates the library has the candidates that were in time, and no others. -/
theorem Inv.applied_source_iff (h : Inv p s.left s.right)
    (hn : s.left.state.manager.stream.state = some .negotiating) :
    AppliedBySource s ↔ s.right.state.webrtc.iceCandidates ⊆ s.left.state.inTime := by
  obtain ⟨g, hg, -⟩ := Option.map_eq_some_iff.mp hn
  obtain ⟨hexact, hstored⟩ := h.srcHears.exact (by rw [hn]; nofun)
  have hcands : ∀ x, x ∈ g.candidates ↔ x ∈ s.left.state.inTime := by
    intro x
    rw [hexact g hg]
    exact hstored x
  constructor
  · intro ha x hx
    obtain ⟨g', hg', -, hsub⟩ := ha (List.ne_nil_of_mem hx)
    cases hg.symm.trans hg'
    exact (hcands x).mp (hsub hx)
  · intro hsub hne
    have hp : s.left.state.manager.peerAittId ≠ "" := by
      intro hp
      rw [h.source.here.fresh hp] at hn
      cases hn
    obtain ⟨sdp, hl⟩ := Option.ne_none_iff_exists'.mp (h.subscriber.gathered hne)
    obtain ⟨g', hg', hd⟩ := h.srcHears.described hp (by rw [hn]; nofun) sdp hl
    cases hg.symm.trans hg'
    exact ⟨g, hg, ⟨sdp, hl, hd⟩, fun x hx => (hcands x).mpr (hsub hx)⟩

/-- Once the subscriber knows the stream of the source it keeps it. -/
theorem Inv.peer_kept (h : Inv p l r) (hq : q ∈ l.published)
    (hn : r.state.webrtc.peerId ≠ none) :
    (streamReceive r.state p.source q).webrtc.peerId ≠ none := by
  rcases h.subHears.sent q hq with rfl | ⟨i, rfl, -, hsdp, hne, hpeer⟩
  · rw [streamReceive_start (.inr fun hp => hn (h.subscriber.fresh hp).1)]
    exact hn
  · obtain ⟨hp, c, hc⟩ := h.answered (hsdp ▸ hne)
    have hid : (toJava i).peerId = r.state.id := hpeer.trans h.subscriber.id.symm
    have heq : streamReceive r.state p.source (.message i.message) = _ :=
      JavaWebRtcSignalling.receive_of_ok (JavaWebRtc.handle_updated hp hid hn hc)
    rw [heq]
    exact hn

def Within (p : Pair) (B : List String) (q : Packet) : Prop :=
  ∀ i ∈ q.info, i.peerId ≠ p.streamId → i.iceCandidates ⊆ B

/-- The subscriber knows the stream of the source, and `B` has everything that may still be
added. -/
structure Late (p : Pair) (B : List String) (s : System) : Prop where
  inv : Inv p s.left s.right
  delivers : Exchange.Delivers s
  undisturbed : s.disturbed = false
  peered : s.right.state.webrtc.peerId ≠ none
  inTime : s.left.state.inTime ⊆ B
  inbox : ∀ q ∈ s.left.inbox, Within p B q
  latest : ∀ q ∈ s.right.published.getLast?, Within p B q

variable {B : List String} {e : Event Client Packet ManagerAct StreamAct}

theorem Late.known (h : Late p B s) :
    s.left.state.manager.peerAittId ≠ "" ∧ s.right.state.webrtc.peerDiscoveryId ≠ none := by
  have hl := (h.inv.subHears.peered h.peered).1
  refine ⟨fun hp => ?_, fun hp => h.peered (h.inv.subscriber.fresh hp).1⟩
  rw [h.inv.source.here.fresh hp] at hl
  exact hl rfl

/-- Both have their peers, so that others are not heard. -/
theorem Late.ok (h : Late p B s) : Exchange.Ok SourceInert StreamInert s e := by
  obtain ⟨hs, hn⟩ := h.known
  cases e with
  | otherLeft d q =>
    cases q with
    | message msg => exact fun hp => absurd hp hs
    | left => trivial
  | otherRight d q => exact fun hp => absurd hp hn
  | _ => trivial

/-- The subscriber publishes only what the source ignores. -/
theorem Late.acted (h : Late p B s) {result : JavaWebRtc.Stream × List Packet}
    (ha : StreamActed .subscriber p.source s.right.state result) :
    result.1.webrtc.peerId = s.right.state.webrtc.peerId ∧ ∀ q ∈ result.2, Within p B q := by
  cases ha with
  | again => exact ⟨rfl, nofun⟩
  | start => exact ⟨rfl, nofun⟩
  | described => exact ⟨rfl, nofun⟩
  | gathered candidate =>
    refine ⟨rfl, fun q hq => ?_⟩
    rw [List.mem_singleton.mp hq]
    rintro _ ⟨⟩ hne
    obtain ⟨id, hid⟩ := Option.ne_none_iff_exists'.mp h.peered
    refine absurd ?_ hne
    change s.right.state.webrtc.peerId.getD p.source.id = p.streamId
    rw [hid]
    exact h.inv.subHears.peerId id hid

theorem Late.added (h : Late p B s) (hq : Within p B q) :
    added s.left.state.manager p.subscriber q ⊆ B := by
  unfold WebRtcSourceToJava.added
  split
  · rename_i i hi
    split
    · rename_i ha
      refine hq i hi ?_
      rw [← h.inv.source.streamId, ← h.inv.source.here.id h.known.1]
      exact ha.2.2
    · exact List.nil_subset _
  · exact List.nil_subset _

theorem Late.step (h : Late p B s) (hs : (exchange p).step s e = some t) : Late p B t := by
  obtain ⟨hinv, hd⟩ := (keeps p).step h.delivers h.inv h.undisturbed h.ok hs
  have hdel := h.delivers.step hs
  have hok := h.ok (e := e)
  cases e with
  | left a =>
    obtain ⟨result, hr, rfl⟩ := Option.map_eq_some_iff.mp hs
    obtain ⟨result, -, rfl⟩ := Option.map_eq_some_iff.mp hr
    exact ⟨hinv, hdel, hd, h.peered, h.inTime, h.inbox, h.latest⟩
  | right b =>
    obtain ⟨result, hr, rfl⟩ := Option.map_eq_some_iff.mp hs
    obtain ⟨hid, hwithin⟩ := h.acted (streamActed h.inv.subscriber hr)
    refine ⟨hinv, hdel, hd, hid ▸ h.peered, h.inTime, fun q hq => ?_, fun q hq => ?_⟩
    · exact (List.mem_append.mp hq).elim (h.inbox q) (hwithin q)
    · rw [Side.published_send, List.getLast?_append, Option.mem_def, Option.or_eq_some_iff] at hq
      rcases hq with hq | ⟨-, hq⟩
      · exact hwithin q (List.mem_of_getLast? hq)
      · exact h.latest q hq
  | republishLeft =>
    obtain ⟨msg, -, rfl⟩ := Option.map_eq_some_iff.mp hs
    exact ⟨hinv, hdel, hd, h.peered, h.inTime, h.inbox, h.latest⟩
  | republishRight =>
    obtain ⟨msg, hm, rfl⟩ := Option.map_eq_some_iff.mp hs
    refine ⟨hinv, hdel, hd, h.peered, h.inTime, fun q hq => ?_, h.latest⟩
    rcases List.mem_append.mp hq with hq | hq
    · exact h.inbox q hq
    · exact List.mem_singleton.mp hq ▸ h.latest msg hm
  | deliverLeft =>
    simp only [Exchange.step] at hs
    split at hs
    · cases hs
    · rename_i msg rest hin
      cases hs
      have hinbox := h.inbox
      rw [hin] at hinbox
      refine ⟨hinv, hdel, hd, h.peered, ?_, fun q hq => hinbox q (List.mem_cons_of_mem _ hq),
        h.latest⟩
      exact List.append_subset.mpr ⟨h.inTime, h.added (hinbox msg List.mem_cons_self)⟩
  | deliverRight =>
    have hright := h.delivers.right
    simp only [Exchange.step] at hs
    split at hs
    · cases hs
    · rename_i msg rest hin
      cases hs
      rw [hin] at hright
      exact ⟨hinv, hdel, hd, h.inv.peer_kept (hright List.mem_cons_self) h.peered, h.inTime,
        h.inbox, h.latest⟩
  | otherLeft d msg =>
    obtain ⟨hne, hs⟩ := Option.ite_none_left_eq_some.mp hs
    cases hs
    have hsame := ((keeps p).otherLeft h.inv (not_or.mp hne).2).mpr hok
    refine ⟨hinv, hdel, hd, h.peered, ?_, h.inbox, h.latest⟩
    change ((exchange p).left.receive s.left.state d msg).inTime ⊆ B
    rw [hsame]
    exact h.inTime
  | otherRight d msg =>
    obtain ⟨hne, hs⟩ := Option.ite_none_left_eq_some.mp hs
    cases hs
    have hsame := ((keeps p).otherRight h.inv (not_or.mp hne).1).mpr hok
    refine ⟨hinv, hdel, hd, ?_, h.inTime, h.inbox, h.latest⟩
    change ((exchange p).right.receive s.right.state d msg).webrtc.peerId ≠ none
    rw [hsame]
    exact h.peered

theorem within_early {s : System} (hq : q ∈ s.left.inbox ++ s.right.published.getLast?.toList) :
    Within p (s.left.state.inTime ++ early p s) q := by
  intro i hi hne x hx
  refine List.mem_append_right _ (List.mem_flatMap.mpr ⟨i, List.mem_filter.mpr ⟨?_, ?_⟩, hx⟩)
  · exact mem_infos.mpr ⟨q, hq, hi⟩
  · exact decide_eq_true hne

/-- A subscriber of the Java library takes everything of a source of the C++ library. While the
source negotiates, it has applied what the subscriber has published exactly if all its candidates
were in information that was taken during the negotiation; and once the subscriber knows the
stream of the source, nothing that it gathers is taken any more, whatever happens. Others change
nothing, unless they make themselves known to a party without a peer. -/
theorem source_and_java_subscriber_applied
    (h : (exchange p).machine.Reaches (Exchange.Ok SourceInert StreamInert) s) :
    s.disturbed = false ∧
      (s.right.inbox = [] → AppliedBySubscriber s) ∧
      (s.left.state.manager.stream.isNegotiatingState = true →
        (AppliedBySource s ↔ s.right.state.webrtc.iceCandidates ⊆ s.left.state.inTime)) ∧
      (s.right.state.webrtc.peerId ≠ none → ∀ es t, (exchange p).machine.exec s es = some t →
        t.left.state.inTime ⊆ s.left.state.inTime ++ early p s) ∧
      ∀ e t, ¬ Exchange.Ok SourceInert StreamInert s e →
        (exchange p).machine.step s e = some t → t.disturbed = true := by
  obtain ⟨hi, hd, hdel⟩ := (keeps p).reaches h
  refine ⟨hd, hi.applied_subscriber, fun hn => hi.applied_source_iff ?_, fun hp es t ht => ?_,
    fun e t hn hs => (keeps p).disturbed_of_not_ok hi hn hs⟩
  · rwa [isNegotiatingState_eq, decide_eq_true_eq] at hn
  · have hlate : Late p (s.left.state.inTime ++ early p s) s :=
      { inv := hi
        delivers := hdel
        undisturbed := hd
        peered := hp
        inTime := List.subset_append_left _ _
        inbox := fun q hq => within_early (List.mem_append_left _ hq)
        latest := fun q hq => within_early (List.mem_append_right _ (Option.mem_toList.mpr hq)) }
    exact (Machine.exec_history (P := fun _ u => Late p _ u) (l := []) ht hlate
      fun _ _ _ _ _ hu he => hu.step he).inTime

theorem camera_nonempty : "camera" ≠ "" := by decide

theorem screen_nonempty : "screen" ≠ "" := by decide

def pair : Pair where
  source := ⟨"camera", camera_nonempty⟩
  subscriber := ⟨"screen", screen_nonempty⟩
  streamId := "s0x1"
  subscriberId := "sub"

/-- The subscriber offers its stream with two candidates; the second is taken when the source
negotiates. -/
def answered : List (Event Client Packet ManagerAct StreamAct) :=
  [.right .start, .left .start, .deliverRight, .right (.described "offer"),
    .right (.gathered "c1"), .deliverLeft, .left (.signal .negotiate), .right (.gathered "c2"),
    .deliverLeft, .left (.signal (.describe "answer")), .left (.signal (.candidate "k1")),
    .deliverRight]

/-- All candidates before the answer are applied if one comes during the negotiation; one that
comes after the answer is lost, and stays lost. -/
theorem source_and_java_subscriber_applied_after_answer :
    (∃ s, (exchange pair).machine.Reaches (Exchange.Ok SourceInert StreamInert) s ∧
      s.right.state.webrtc.iceCandidates = ["c1", "c2"] ∧
      s.left.state.manager.stream.iceCandidates = ["k1"] ∧ AppliedBySource s ∧
      AppliedBySubscriber s) ∧
    ∃ s, (exchange pair).machine.Reaches (Exchange.Ok SourceInert StreamInert) s ∧
      s.left.inbox = [] ∧ ¬ AppliedBySource s ∧
      ∀ es t, (exchange pair).machine.exec s es = some t → "c3" ∉ t.left.state.inTime := by
  constructor
  · obtain ⟨s, hr, hs⟩ := (exchange pair).machine.exists_reaches
      (Exchange.Ok SourceInert StreamInert) answered
      (fun s => s.right.inbox = [] && s.left.state.manager.stream.isNegotiatingState &&
        s.right.state.webrtc.iceCandidates = ["c1", "c2"] &&
        s.left.state.manager.stream.iceCandidates = ["k1"] &&
        s.left.state.inTime = ["c1", "c2"]) (by decide +kernel)
    simp only [Bool.and_eq_true, decide_eq_true_eq] at hs
    obtain ⟨⟨⟨⟨hin, hn⟩, hi⟩, hk⟩, htime⟩ := hs
    obtain ⟨-, hsub, hsource, -, -⟩ := source_and_java_subscriber_applied hr
    refine ⟨s, hr, hi, hk, (hsource hn).mpr ?_, hsub hin⟩
    rw [hi, htime]
    exact List.Subset.refl _
  · obtain ⟨s, hr, hs⟩ := (exchange pair).machine.exists_reaches
      (Exchange.Ok SourceInert StreamInert) (answered ++ [.right (.gathered "c3"), .deliverLeft])
      (fun s => s.left.inbox = [] && s.left.state.manager.stream.isNegotiatingState &&
        s.right.state.webrtc.peerId ≠ none &&
        s.right.state.webrtc.iceCandidates = ["c1", "c2", "c3"] &&
        s.left.state.inTime ++ early pair s = ["c1", "c2"]) (by decide +kernel)
    simp only [Bool.and_eq_true, decide_eq_true_eq] at hs
    obtain ⟨⟨⟨⟨hin, hn⟩, hp⟩, hi⟩, htime⟩ := hs
    obtain ⟨-, -, hsource, hlate, -⟩ := source_and_java_subscriber_applied hr
    have hlost : ∀ es t, (exchange pair).machine.exec s es = some t →
        "c3" ∉ t.left.state.inTime := by
      intro es t ht hc
      have hmem := hlate hp es t ht hc
      rw [htime] at hmem
      exact absurd hmem (by decide)
    refine ⟨s, hr, hin, fun ha => ?_, hlost⟩
    refine hlost [] s rfl ((hsource hn).mp ha ?_)
    rw [hi]
    decide

end WebRtcSourceToJava
