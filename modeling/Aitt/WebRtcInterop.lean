import Aitt.PairExchange
import Aitt.WebRtcPeer
import Aitt.JavaWebRtcSignalling

/-! A manager of the C++ library and a stream of the Java library as the parties of one exchange.
Both read and write the same flexbuffers maps. -/
namespace WebRtcInterop

open WebRtcStream WebRtcManager WebRtcPeer
open JavaWebRtc (StreamRole)
open JavaWebRtcSignalling (Inert startStream gatherStream gatherInfo)

inductive Packet where
  | message (msg : Message)
  | left
  deriving DecidableEq

def Packet.info : Packet → Option StreamInfo
  | .message msg => msg.streamInfo
  | .left => none

def infos (packets : List Packet) : List StreamInfo := packets.filterMap Packet.info

def toJava (i : StreamInfo) : JavaWebRtc.StreamInfo :=
  ⟨i.id, i.peerId, i.sdp, i.iceCandidates⟩

def ofJava (i : JavaWebRtc.StreamInfo) : StreamInfo :=
  ⟨i.id, i.peerId, i.sdp, i.iceCandidates⟩

/-- The Java library reads every map that lacks a field, and everything else that is no string, as
invalid information. -/
def read : Packet → JavaWebRtc.Message
  | .message (.string text) => .text text
  | .message msg => (msg.streamInfo.map fun i => .info (toJava i)).getD .invalid
  | .left => .leave

def write : JavaWebRtc.Message → Option Packet
  | .text state => some (.message (.string state))
  | .info i => some (.message (ofJava i).message)
  | .invalid | .leave => none

def startPacket : Packet := .message (.string "START")

@[simp] theorem infos_nil : infos [] = [] := rfl

@[simp] theorem infos_append (l k : List Packet) : infos (l ++ k) = infos l ++ infos k :=
  List.filterMap_append

@[simp] theorem infos_start (l : List Packet) : infos (startPacket :: l) = infos l := rfl

@[simp] theorem infos_message (i : StreamInfo) (l : List Packet) :
    infos (.message i.message :: l) = i :: infos l := rfl

theorem mem_infos {i : StreamInfo} {l : List Packet} : i ∈ infos l ↔ ∃ q ∈ l, q.info = some i :=
  List.mem_filterMap

inductive ManagerAct where
  | start
  | signal (w : Signal)
  deriving DecidableEq

inductive StreamAct where
  | start
  | described (sdp : String)
  | gathered (candidate : String)
  deriving DecidableEq

def managerReceive (m : StreamManager) (d : Client) : Packet → StreamManager
  | .message msg => m.handleMsg d.id msg
  | .left => m.handleRemovedClient d.id

def managerAct (m : StreamManager) : ManagerAct → Option (StreamManager × List Packet)
  | .start => some (m, [startPacket])
  | .signal w => (m.signal w).map fun r => (r.1, r.2.map .message)

def streamReceive (s : JavaWebRtc.Stream) (d : Client) (q : Packet) : JavaWebRtc.Stream :=
  JavaWebRtcSignalling.receive s d (read q)

def streamAct (s : JavaWebRtc.Stream) : StreamAct → Option (JavaWebRtc.Stream × List Packet)
  | .start => some ((s.start true).1, (s.start true).2.filterMap write)
  | .described sdp => if sdp = "" then none else (s.described sdp).map fun t => (t, [])
  | .gathered candidate => (s.gathered candidate).map fun r => (r.1, r.2.filterMap write)

/-- The packet does not make its sender the peer of the manager. -/
def ManagerInert (m : StreamManager) : Packet → Prop
  | .message msg => m.peerAittId = "" →
    match m.role with
    | .src => msg.streamInfo = none
    | .sink => msg ≠ .string "START"
  | .left => True

def StreamInert (s : JavaWebRtc.Stream) (q : Packet) : Prop :=
  s.webrtc.peerDiscoveryId = none → Inert s.webrtc.role (read q)

instance (m : StreamManager) (q : Packet) : Decidable (ManagerInert m q) :=
  match q with
  | .message msg =>
    have : Decidable (match m.role with
        | .src => msg.streamInfo = none
        | .sink => msg ≠ .string "START") :=
      match m.role with
      | .src => inferInstanceAs (Decidable (_ = _))
      | .sink => inferInstanceAs (Decidable (_ ≠ _))
    inferInstanceAs (Decidable (_ → _))
  | .left => isTrue trivial

instance (s : JavaWebRtc.Stream) (q : Packet) : Decidable (StreamInert s q) :=
  inferInstanceAs (Decidable (_ → _))

structure ManagerSide (role : Role) (streamId : String) (peer : Client) (m : StreamManager) :
    Prop where
  role : m.role = role
  streamId : m.streamId = streamId
  here : Local m
  peer : m.peerAittId = "" ∨ m.peerAittId = peer.id

variable {role : Role} {streamId : String} {peer d : Client} {m m' : StreamManager} {q : Packet}
  {w : Signal}

theorem ManagerSide.created (role : Role) (streamId : String) (peer : Client) :
    ManagerSide role streamId peer { role := role, streamId := streamId } where
  role := rfl
  streamId := rfl
  here := ⟨fun _ => rfl, fun h => absurd rfl h, fun h => absurd rfl h, fun _ => rfl, fun _ => rfl,
    fun _ _ => List.nil_subset _⟩
  peer := .inl rfl

theorem id_ne (h : d ≠ peer) : d.id ≠ peer.id := by
  intro he
  cases d
  cases peer
  cases he
  exact h rfl

theorem ManagerSide.peer_ne (h : ManagerSide role streamId peer m) (hd : d ≠ peer) :
    m.peerAittId ≠ d.id := by
  rcases h.peer with hp | hp
  · rw [hp]
    exact d.nonempty.symm
  · rw [hp]
    exact (id_ne hd).symm

theorem ManagerSide.eq_peer (h : ManagerSide role streamId peer m) (hp : m.peerAittId ≠ "") :
    m.peerAittId = peer.id := h.peer.resolve_left hp

/-- Only a packet that makes its sender the peer is heard. -/
theorem ManagerSide.other (h : ManagerSide role streamId peer m) (hd : d ≠ peer) :
    managerReceive m d q = m ↔ ManagerInert m q := by
  have hne := h.peer_ne hd
  cases q with
  | left =>
    refine iff_of_true ?_ trivial
    exact if_pos hne
  | message msg =>
    have hm := handled_handleMsg m d.id msg
    change m.handleMsg d.id msg = m ↔ _
    generalize he : m.handleMsg d.id msg = m' at hm
    constructor
    · intro hsame hp
      have hpeer : m'.peerAittId ≠ d.id := hsame ▸ hne
      cases hr : m.role with
      | src =>
        by_contra hi
        obtain ⟨i, hi⟩ := Option.ne_none_iff_exists'.mp hi
        cases hm with
        | ignored src => exact (src hr i hi).1 hp
        | destroyed _ peer | srcUpdate _ _ _ peer => exact hne peer
        | srcFirst => exact hpeer rfl
        | sinkStart role | sinkFirst role | sinkUpdate role => cases hr.symm.trans role
      | sink =>
        rintro rfl
        apply hpeer
        rw [← he]
        simp [StreamManager.handleMsg, StreamManager.handleStreamState, hr,
          StreamManager.sinkHandleStartStream, hp, StreamManager.sinkAddStream]
    · intro hi
      cases hm with
      | ignored => rfl
      | destroyed _ peer | srcUpdate _ _ _ peer | sinkFirst _ _ peer | sinkUpdate _ _ peer =>
        exact absurd peer hne
      | srcFirst hr info peer =>
        have hnone := hi peer
        rw [hr] at hnone
        cases info.symm.trans hnone
      | sinkStart hr start peer =>
        have hno := hi peer
        rw [hr] at hno
        exact absurd start hno

theorem ManagerSide.handled {msg : Message} (h : ManagerSide role streamId peer m)
    (hm : Handled m peer.id msg m') : ManagerSide role streamId peer m' where
  role := (framed_handled hm).role.trans h.role
  streamId := (framed_handled hm).streamId.trans h.streamId
  here := h.here.handled peer.nonempty hm
  peer := by
    rcases handled_peer hm with he | ⟨-, he⟩
    · rw [he]
      exact h.peer
    · exact .inr he

inductive ManagerActed (m : StreamManager) : StreamManager × List Packet → Prop where
  | start : ManagerActed m (m, [startPacket])
  | quiet (w : Signal) (stream : Stream) (signalled : Signalled m.stream w stream)
      (ice : stream.iceCandidates = m.stream.iceCandidates) :
      ManagerActed m ({ m with stream := stream }, [])
  | candidate (c : String)
      (signalled : Signalled m.stream (.candidate c)
        { m.stream with iceCandidates := m.stream.iceCandidates ++ [c] }) :
      ManagerActed m
        ({ m with stream := { m.stream with
            iceCandidates := m.stream.iceCandidates ++ [c] } },
          [.message (⟨m.stream.id, m.stream.peerId, m.stream.localDescription,
            m.stream.iceCandidates ++ [c]⟩ : StreamInfo).message])

theorem managerActed {a : ManagerAct} {result : StreamManager × List Packet}
    (h : managerAct m a = some result) : ManagerActed m result := by
  cases a with
  | start =>
    cases h
    exact .start
  | signal w =>
    obtain ⟨⟨m', out⟩, hs, rfl⟩ := Option.map_eq_some_iff.mp h
    obtain ⟨stream, hw, rfl, rfl⟩ := signal_cases hs
    cases hw with
    | negotiate handle started idle described =>
      exact .quiet _ _ (.negotiate handle started idle described) rfl
    | play handle negotiating => exact .quiet _ _ (.play handle negotiating) rfl
    | describe negotiating none nonempty =>
      exact .quiet _ _ (.describe negotiating none nonempty) rfl
    | candidate handle described => exact .candidate _ (.candidate handle described)

theorem ManagerSide.acted {result : StreamManager × List Packet}
    (h : ManagerSide role streamId peer m) (ha : ManagerActed m result) :
    ManagerSide role streamId peer result.1 := by
  cases ha with
  | start => exact h
  | quiet w stream signalled =>
    exact ⟨h.role, h.streamId, h.here.signalled signalled, h.peer⟩
  | candidate c signalled =>
    exact ⟨h.role, h.streamId, h.here.signalled signalled, h.peer⟩

variable {r : StreamRole} {id : String} {s : JavaWebRtc.Stream}

inductive StreamActed (r : StreamRole) (peer : Client) (s : JavaWebRtc.Stream) :
    JavaWebRtc.Stream × List Packet → Prop where
  | again : StreamActed r peer s (s, [])
  | start (init : s.streamState = .init) (none : s.webrtc.peerConnection = none) :
      StreamActed r peer s (startStream s, if r = .publisher then [startPacket] else [])
  | described {sdp : String} {c : JavaWebRtc.Connection} (nonempty : sdp ≠ "")
      (connection : s.webrtc.peerConnection = some c) (describing : c.describing = true)
      (none : s.webrtc.localDescription = none) :
      StreamActed r peer s ({ s with webrtc := { s.webrtc with
        peerConnection := some { c with describing := false }
        localDescription := some sdp } }, [])
  | gathered {sdp : String} (candidate : String) (known : s.webrtc.peerDiscoveryId = some peer)
      (described : s.webrtc.localDescription = some sdp) :
      StreamActed r peer s (gatherStream s candidate,
        [.message (ofJava (gatherInfo s peer sdp candidate)).message])

abbrev StreamSide := JavaWebRtcSignalling.Side

theorem streamActed {a : StreamAct} {result : JavaWebRtc.Stream × List Packet}
    (h : StreamSide r id peer s) (ha : streamAct s a = some result) :
    StreamActed r peer s result := by
  cases a with
  | start =>
    cases ha
    by_cases hs : s.streamState = .init
    · rw [h.start_eq hs]
      have hstart : StreamActed r peer s _ := .start hs (h.init hs)
      cases r with
      | publisher => exact hstart
      | subscriber => exact hstart
    · rw [show s.start true = (s, []) from if_pos hs]
      exact .again
  | described sdp =>
    obtain ⟨hsdp, ha⟩ := Option.ite_none_left_eq_some.mp ha
    obtain ⟨t, ht, rfl⟩ := Option.map_eq_some_iff.mp ha
    obtain ⟨c, hc, hd, rfl⟩ := JavaWebRtcSignalling.described_eq ht
    exact .described hsdp hc hd (h.describing c hc hd)
  | gathered candidate =>
    obtain ⟨t, ht, rfl⟩ := Option.map_eq_some_iff.mp ha
    obtain ⟨sdp, hl, hp, rfl⟩ := h.gathered_eq ht
    exact .gathered candidate hp hl

theorem side_acted {result : JavaWebRtc.Stream × List Packet} (h : StreamSide r id peer s)
    (ha : StreamActed r peer s result) : StreamSide r id peer result.1 := by
  cases ha with
  | again => exact h
  | start init => exact h.started init
  | @described sdp c nonempty connection describing =>
    refine h.described nonempty ?_
    rw [JavaWebRtc.Stream.described, connection]
    exact if_pos describing
  | gathered candidate known described =>
    exact h.gather (Option.ne_none_iff_exists'.mpr ⟨_, described⟩) candidate

/-- A `START` is for subscribers without a peer. -/
theorem streamReceive_start (h : s.webrtc.role = .publisher ∨ s.webrtc.peerDiscoveryId ≠ none)
    (d : Client) : streamReceive s d startPacket = s := by
  refine JavaWebRtcSignalling.receive_of_ok (JavaWebRtc.handle_ignored ?_)
  rintro (hc | ⟨-, hr, hp⟩)
  · exact absurd hc.1 (by decide)
  · rcases h with h | h
    · cases h.symm.trans hr
    · exact h hp

theorem side_other (h : StreamSide r id peer s) (hd : d ≠ peer) :
    streamReceive s d q = s ↔ StreamInert s q := by
  constructor
  · intro hsame hp
    by_contra hn
    have hpeer : (streamReceive s d q).webrtc.peerDiscoveryId = some d := by
      rw [streamReceive]
      generalize read q = msg at hn
      cases msg with
      | text peerState =>
        simp only [Inert, Classical.not_imp] at hn
        obtain ⟨rfl, hr⟩ := hn
        cases hrole : s.webrtc.role with
        | publisher => exact absurd hrole hr
        | subscriber => exact JavaWebRtcSignalling.receive_start hrole hp d
      | info i => exact JavaWebRtcSignalling.receive_info hp d i
      | invalid => exact absurd trivial hn
      | leave => exact absurd trivial hn
    rw [hsame, hp] at hpeer
    cases hpeer
  · intro hi
    refine JavaWebRtcSignalling.receive_of_ok (JavaWebRtc.handle_ignored ?_)
    refine h.not_concerned hd fun hp => ?_
    have hinert := hi hp
    rwa [h.role] at hinert

end WebRtcInterop
