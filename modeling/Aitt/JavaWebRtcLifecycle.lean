import Aitt.JavaWebRtc

/-! One WebRTC stream of the Java library over its whole life. The discovery callback stays set
while the stream is stopped, so messages arrive with and without a peer connection. -/
namespace JavaWebRtcLifecycle

open TransitionRuns JavaWebRtc
open WebRtcManager (Client)

inductive Announcement where
  | start (d : Client)
  | info (d : Client) (i : StreamInfo)
  deriving DecidableEq

def Announcement.client : Announcement → Client
  | .start d => d
  | .info d _ => d

/-- The stream has the peer and has asked for an offer, or has what the peer has sent. -/
def Served (s : Stream) : Announcement → Prop
  | .start d => s.webrtc.peerDiscoveryId = some d ∧
      ∃ c ∈ s.webrtc.peerConnection, c.describing = true
  | .info d i => s.webrtc.peerDiscoveryId = some d ∧
      ∃ c ∈ s.webrtc.peerConnection, (i.sdp ≠ "" → c.remoteDescription = some i.sdp) ∧
        i.iceCandidates ⊆ c.candidates

instance (s : Stream) (a : Announcement) : Decidable (Served s a) :=
  match a with
  | .start _ => inferInstanceAs (Decidable (_ ∧ ∃ _ ∈ _, _))
  | .info _ _ => inferInstanceAs (Decidable (_ ∧ ∃ _ ∈ _, _))

/-- `thrown` says that null was dereferenced. `waiting` are the announcements that have arrived
without a connection and have not been withdrawn, and `unserved` says that `start` has not
served one of them. -/
structure State where
  stream : Stream
  thrown : Bool := false
  waiting : List Announcement := []
  unserved : Bool := false
  deriving DecidableEq

inductive Event where
  | setJNIInterface
  | start (created : Bool)
  | stop
  | disconnect
  | described (sdp : String)
  | gathered (candidate : String)
  | message (d : Client) (msg : Message)
  deriving DecidableEq

namespace State

def outcome (s : State) : Except Stream Stream → State
  | .ok t => { s with stream := t }
  | .error t => { s with stream := t, thrown := true }

def started (s : State) (t : Stream) : State :=
  if t.streamState = s.stream.streamState then { s with stream := t }
  else
    { s with
      stream := t
      waiting := []
      unserved := s.unserved || s.waiting.any fun a => ¬ Served t a }

def announce (s : State) (d : Client) (msg : Message) : List Announcement :=
  if s.stream.webrtc.peerConnection ≠ none then s.waiting
  else
    match msg with
    | .text peerState =>
      if peerState = "STOP" then s.waiting.filter (·.client ≠ d)
      else if peerState = "START" ∧ s.stream.webrtc.role = .subscriber then
        s.waiting ++ [.start d]
      else s.waiting
    | .info i =>
      if s.stream.webrtc.peerDiscoveryId = none ∨ i.peerId = s.stream.id then
        s.waiting ++ [.info d i]
      else s.waiting
    | .leave => s.waiting.filter (·.client ≠ d)
    | .invalid => s.waiting

def step (s : State) : Event → Option State
  | .setJNIInterface => some { s with stream := s.stream.setJNIInterface }
  | .start created => some (s.started (s.stream.start created).1)
  | .stop => some (s.outcome (s.stream.stop.map (·.1)))
  | .disconnect => some (s.outcome (s.stream.disconnect.map (·.1)))
  | .described sdp => (s.stream.described sdp).map fun t => { s with stream := t }
  | .gathered candidate => (s.stream.gathered candidate).map fun r => { s with stream := r.1 }
  | .message d msg =>
    if s.stream.watched then
      some { s.outcome (s.stream.handle d msg) with waiting := s.announce d msg }
    else none

end State

def machine (id : String) (role : StreamRole) : Machine State Event where
  initial := { stream := .create id role }
  step := State.step

def Free (s : Stream) (d : Client) : Prop :=
  s.webrtc.peerDiscoveryId = none ∨ s.webrtc.peerDiscoveryId = some d

/-- While there is no connection, no second peer makes itself known and stream information that
is for the stream has nothing in it. -/
def Ok (s : State) : Event → Prop
  | .message d (.text peerState) => s.stream.webrtc.peerConnection = none →
      peerState = "START" ∧ s.stream.webrtc.role = .subscriber → Free s.stream d
  | .message d (.info i) => s.stream.webrtc.peerConnection = none →
      s.stream.webrtc.peerDiscoveryId = none ∨ i.peerId = s.stream.id →
      Free s.stream d ∧ i.sdp = "" ∧ i.iceCandidates = []
  | _ => True

instance (s : Stream) (d : Client) : Decidable (Free s d) :=
  inferInstanceAs (Decidable (_ ∨ _))

instance (s : State) (e : Event) : Decidable (Ok s e) :=
  match e with
  | .message _ (.text _) => inferInstanceAs (Decidable (_ → _ → _))
  | .message _ (.info _) => inferInstanceAs (Decidable (_ → _ → _))
  | .message _ .invalid | .message _ .leave | .setJNIInterface
  | .start _ | .stop | .disconnect | .described _ | .gathered _ => isTrue trivial

structure Wired (w : WebRTC) : Prop where
  channel : w.localDataChannel = w.peerConnection.isSome
  described : w.localDescription ≠ none → w.peerConnection ≠ none ∧ w.peerDiscoveryId ≠ none
  describing : ∀ c ∈ w.peerConnection, c.describing = true → w.peerDiscoveryId ≠ none

structure Intact (s : Stream) : Prop where
  wired : Wired s.webrtc
  state : s.streamState = .init ↔ s.webrtc.peerConnection = none

def Chosen (s : Stream) : Announcement → Prop
  | .start d => s.webrtc.peerDiscoveryId = some d ∧ s.webrtc.role = .subscriber
  | .info d i => s.webrtc.peerDiscoveryId = some d ∧ i.sdp = "" ∧ i.iceCandidates = []

structure Safe (s : State) : Prop where
  intact : Intact s.stream
  thrown : s.thrown = false
  unserved : s.unserved = false
  waiting : ∀ a ∈ s.waiting, s.stream.webrtc.peerConnection = none ∧ Chosen s.stream a

variable {s t : State} {w v : WebRTC} {c : Connection} {d : Client} {msg : Message}

theorem Wired.local_none (h : Wired w) (hc : w.peerConnection = none) :
    w.localDescription = none := by
  by_contra hl
  exact (h.described hl).1 hc

theorem Wired.offer (h : Wired w) (hp : w.peerDiscoveryId ≠ none) : Wired w.offer := by
  rcases offer_cases w with he | ⟨c, hc, hl, he⟩
  · rw [he]
    exact h
  · rw [he]
    refine ⟨?_, fun hn => absurd hl hn, fun _ _ _ => hp⟩
    rw [h.channel, hc]
    rfl

theorem Wired.dropped (h : Wired w) : Wired w.dropped := by
  refine ⟨rfl, fun hl => absurd ?_ hl, nofun⟩
  unfold WebRTC.dropped WebRTC.removePeer
  split
  · rename_i hp
    by_contra hl
    exact (h.described hl).2 hp
  · rfl

/-- What `start` does to a stream without a connection. -/
theorem Wired.start (h : Wired w) (hc : w.peerConnection = none) {created : Bool}
    (hv : w.start created = some v) :
    Wired v ∧ v.peerDiscoveryId = w.peerDiscoveryId ∧
      ∃ c, v.peerConnection = some c ∧
        (w.role = .subscriber → w.peerDiscoveryId ≠ none → c.describing = true) := by
  have hl := h.local_none hc
  have hw : Wired w.connected := by
    refine ⟨rfl, fun hn => absurd hl hn, ?_⟩
    rintro _ ⟨⟩ ⟨⟩
  rcases start_eq_some hc hv with ⟨rfl, hn⟩ | ⟨rfl, hr, hp⟩
  · refine ⟨hw, rfl, {}, rfl, fun hr hp => ?_⟩
    rcases hn with hn | hn
    · cases hr.symm.trans hn
    · exact absurd hn hp
  · refine ⟨hw.offer hp, ?_⟩
    have hl' : w.connected.localDescription = none := hl
    rw [WebRTC.offer, if_pos hl']
    exact ⟨rfl, { describing := true }, rfl, fun _ _ => rfl⟩

theorem Intact.dropped {s : Stream} (h : Intact s) :
    Intact { s with webrtc := s.webrtc.dropped, streamState := .init } :=
  ⟨h.wired.dropped, ⟨fun _ => rfl, fun _ => rfl⟩⟩

theorem Wired.peer (h : Wired w) (hp : w.peerDiscoveryId = none) (d : Client) :
    Wired { w with peerDiscoveryId := some d } where
  channel := h.channel
  described hl := absurd hp (h.described hl).2
  describing c hc hd := absurd hp (h.describing c hc hd)

theorem Wired.add (h : Wired w) (hc : w.peerConnection = some c)
    (hp : w.peerDiscoveryId ≠ none) (peerId sdp : String) (candidates : List String) :
    Wired { w with
      peerId := some peerId
      peerConnection := some (c.add w.role sdp candidates) } where
  channel := by rw [h.channel, hc]; rfl
  described _ := ⟨nofun, hp⟩
  describing _ _ _ := hp

theorem Wired.update (h : Wired w) (hc : w.peerConnection = some c) (candidates : List String) :
    Wired { w with peerConnection := some (c.update candidates) } where
  channel := by rw [h.channel, hc]; rfl
  described hl := ⟨nofun, (h.described hl).2⟩
  describing := by
    rintro _ ⟨⟩ hd
    exact h.describing c hc hd

theorem Wired.setPeer (h : Wired w) (hp : w.peerDiscoveryId = none) (d : Client) :
    Wired (w.setPeerDiscoveryId d).1 := by
  have hd := h.peer hp d
  cases hr : w.role with
  | publisher =>
    rw [setPeerDiscoveryId_publisher hr hp]
    exact hd
  | subscriber =>
    rw [setPeerDiscoveryId_subscriber hr hp]
    exact hd.offer nofun

/-- With a connection every message is handled. -/
theorem Intact.handle_some {s : Stream} (h : Intact s) (hc : s.webrtc.peerConnection = some c)
    (d : Client) (msg : Message) : ∃ t, s.handle d msg = .ok t ∧ Intact t := by
  have hstate : s.streamState ≠ .init := fun hs => absurd (h.state.mp hs) (by simp [hc])
  have hkeep {w : WebRTC} (hw : Wired w) (hn : w.peerConnection ≠ none) :
      Intact { s with webrtc := w } := ⟨hw, iff_of_false hstate hn⟩
  have hm := handled s d msg
  generalize s.handle d msg = r at hm
  cases hm with
  | ignored => exact ⟨s, rfl, h⟩
  | removed => exact ⟨_, dropPeer_eq h.wired.channel, h.dropped⟩
  | announced hr hp =>
    have hw := h.wired.setPeer hp d
    obtain ⟨-, -, hn⟩ := setPeerDiscoveryId_frame hp d
    rw [setPeerDiscoveryId_subscriber hr hp] at hw hn
    exact ⟨_, rfl, hkeep hw (mt hn.mp (by simp [hc]))⟩
  | first i hp =>
    have hw := h.wired.setPeer hp d
    obtain ⟨hd, -, hn⟩ := setPeerDiscoveryId_frame hp d
    obtain ⟨c', hc'⟩ := Option.ne_none_iff_exists'.mp (mt hn.mp (by simp [hc]))
    rw [addPeer_some hc']
    exact ⟨_, rfl, hkeep (hw.add hc' (by simp [hd]) _ _ _) nofun⟩
  | added i hp =>
    rw [addPeer_some hc]
    exact ⟨_, rfl, hkeep (h.wired.add hc (by simp [hp]) _ _ _) nofun⟩
  | updated i =>
    rw [updatePeer_some hc]
    exact ⟨_, rfl, hkeep (h.wired.update hc _) nofun⟩

def Announces (s : Stream) : Message → Prop
  | .text peerState => peerState = "START" ∧ s.webrtc.role = .subscriber
  | .info i => s.webrtc.peerDiscoveryId = none ∨ i.peerId = s.id
  | .leave | .invalid => False

theorem Chosen.client {s : Stream} {a : Announcement} (h : Chosen s a) :
    s.webrtc.peerDiscoveryId = some a.client := by
  cases a with
  | start => exact h.1
  | info => exact h.1

theorem Chosen.frame {s t : Stream} {a : Announcement} (h : Chosen s a)
    (hp : t.webrtc.peerDiscoveryId = s.webrtc.peerDiscoveryId)
    (hr : t.webrtc.role = s.webrtc.role) : Chosen t a := by
  cases a with
  | start => exact ⟨hp.trans h.1, hr.trans h.2⟩
  | info => exact ⟨hp.trans h.1, h.2⟩

/-- The announcements that wait after a message, when those that waited before are of the peer
and the one that the message brings is. -/
theorem chosen_announce (hc : s.stream.webrtc.peerConnection = none)
    (ho : Ok s (.message d msg)) {t : Stream}
    (hold : ∀ a ∈ s.waiting, (msg = .leave ∨ msg = .text "STOP" → a.client ≠ d) → Chosen t a)
    (hnew : Announces s.stream msg →
      t.webrtc.peerDiscoveryId = some d ∧ t.webrtc.role = s.stream.webrtc.role)
    {a : Announcement} (ha : a ∈ s.announce d msg) : Chosen t a := by
  unfold State.announce at ha
  rw [if_neg (not_not.mpr hc)] at ha
  cases msg with
  | text peerState =>
    simp only at ha
    split at ha
    · obtain ⟨ha, hd⟩ := List.mem_filter.mp ha
      exact hold a ha fun _ => of_decide_eq_true hd
    · rename_i hstop
      have hnot : ¬ (Message.text peerState = .leave ∨ Message.text peerState = .text "STOP") := by
        simp [hstop]
      split at ha
      · rename_i hstart
        rcases List.mem_append.mp ha with ha | ha
        · exact hold a ha fun hm => absurd hm hnot
        · obtain ⟨hp, hr⟩ := hnew hstart
          rw [List.mem_singleton.mp ha]
          exact ⟨hp, hr.trans hstart.2⟩
      · exact hold a ha fun hm => absurd hm hnot
  | info i =>
    simp only at ha
    split at ha
    · rename_i hinfo
      rcases List.mem_append.mp ha with ha | ha
      · exact hold a ha nofun
      · rw [List.mem_singleton.mp ha]
        exact ⟨(hnew hinfo).1, (ho hc hinfo).2⟩
    · exact hold a ha nofun
  | invalid => exact hold a ha nofun
  | leave =>
    obtain ⟨ha, hd⟩ := List.mem_filter.mp ha
    exact hold a ha fun _ => of_decide_eq_true hd

theorem Safe.waiting_eq_nil (h : Safe s) (hp : s.stream.webrtc.peerDiscoveryId = none) :
    s.waiting = [] := by
  rw [List.eq_nil_iff_forall_not_mem]
  intro a ha
  cases hp.symm.trans (h.waiting a ha).2.client

/-- A message that makes a peer known and is ignored is of the peer that the stream has. -/
theorem peer_of_ignored (hc : s.stream.webrtc.peerConnection = none)
    (ho : Ok s (.message d msg)) (hnot : ¬ s.stream.Concerned d msg)
    (ha : Announces s.stream msg) : s.stream.webrtc.peerDiscoveryId = some d := by
  cases msg with
  | text peerState =>
    refine (ho hc ha).resolve_left fun hp => hnot (.inr ⟨ha.1, ha.2, hp⟩)
  | info i =>
    refine (ho hc ha).1.resolve_left fun hp => hnot fun peer hpeer => ?_
    cases hp.symm.trans hpeer
  | invalid => exact ha.elim
  | leave => exact ha.elim

/-- Without a connection a message that is ok is handled too, and the announcements that wait
then are of the peer. -/
theorem Safe.handle_none (h : Safe s) (hc : s.stream.webrtc.peerConnection = none)
    (ho : Ok s (.message d msg)) :
    ∃ t, s.stream.handle d msg = .ok t ∧ Intact t ∧ t.webrtc.peerConnection = none ∧
      ∀ a ∈ s.announce d msg, Chosen t a := by
  have hstate := h.intact.state.mpr hc
  have hkeep {w : WebRTC} (hw : Wired w) (hn : w.peerConnection = none) :
      Intact { s.stream with webrtc := w } := ⟨hw, iff_of_true hstate hn⟩
  have hm := handled s.stream d msg
  generalize s.stream.handle d msg = r at hm
  cases hm with
  | ignored hnot =>
    refine ⟨_, rfl, h.intact, hc, fun a ha => chosen_announce hc ho ?_ ?_ ha⟩
    · exact fun a ha _ => (h.waiting a ha).2
    · exact fun ha => ⟨peer_of_ignored hc ho hnot ha, rfl⟩
  | removed hmsg hp =>
    refine ⟨_, dropPeer_eq h.intact.wired.channel, h.intact.dropped, rfl,
      fun a ha => chosen_announce hc ho ?_ ?_ ha⟩
    · intro a ha hne
      have hclient := Option.some.inj (hp.symm.trans (h.waiting a ha).2.client)
      exact absurd hclient.symm (hne hmsg)
    · rcases hmsg with rfl | rfl
      · exact False.elim
      · exact fun ha => absurd ha.1 (by decide)
  | announced hr hp =>
    have hw := h.intact.wired.setPeer hp d
    obtain ⟨hd, hrole, hn⟩ := setPeerDiscoveryId_frame hp d
    rw [setPeerDiscoveryId_subscriber hr hp] at hw hd hn hrole
    refine ⟨_, rfl, hkeep hw (hn.mpr hc), hn.mpr hc, fun a ha => chosen_announce hc ho ?_ ?_ ha⟩
    · simp [h.waiting_eq_nil hp]
    · exact fun _ => ⟨hd, hrole⟩
  | first i hp =>
    have hw := h.intact.wired.setPeer hp d
    obtain ⟨hd, hrole, hn⟩ := setPeerDiscoveryId_frame hp d
    rw [addPeer_none (hn.mpr hc), if_pos (ho hc (.inl hp)).2]
    refine ⟨_, rfl, hkeep ⟨hw.channel, hw.described, hw.describing⟩ (hn.mpr hc), hn.mpr hc,
      fun a ha => chosen_announce hc ho ?_ ?_ ha⟩
    · simp [h.waiting_eq_nil hp]
    · exact fun _ => ⟨hd, hrole⟩
  | added i hp hid =>
    have hw := h.intact.wired
    rw [addPeer_none hc, if_pos (ho hc (.inr hid)).2]
    refine ⟨_, rfl, hkeep ⟨hw.channel, hw.described, hw.describing⟩ hc, hc,
      fun a ha => chosen_announce hc ho ?_ ?_ ha⟩
    · exact fun a ha _ => (h.waiting a ha).2.frame rfl rfl
    · exact fun _ => ⟨hp, rfl⟩
  | updated i hp hid =>
    rw [updatePeer_none hc, if_pos (ho hc (.inr hid)).2.2]
    refine ⟨_, rfl, h.intact, hc, fun a ha => chosen_announce hc ho ?_ ?_ ha⟩
    · exact fun a ha _ => (h.waiting a ha).2
    · exact fun _ => ⟨hp, rfl⟩

/-- With a connection nothing waits. -/
theorem Safe.of_intact (h : Safe s) {stream : Stream} (hi : Intact stream)
    (hc : s.stream.webrtc.peerConnection ≠ none) : Safe { s with stream := stream } :=
  ⟨hi, h.thrown, h.unserved, fun a ha => absurd (h.waiting a ha).1 hc⟩

/-- Whether the stream is watched makes no difference. -/
theorem Safe.of_webrtc (h : Safe s) {stream : Stream} (hw : stream.webrtc = s.stream.webrtc)
    (hs : stream.streamState = s.stream.streamState) : Safe { s with stream := stream } := by
  refine ⟨⟨?_, ?_⟩, h.thrown, h.unserved, fun a ha => ?_⟩
  · rw [hw]
    exact h.intact.wired
  · rw [hs, hw]
    exact h.intact.state
  · rw [hw]
    exact ⟨(h.waiting a ha).1, (h.waiting a ha).2.frame (by rw [hw]) (by rw [hw])⟩

theorem Safe.started (h : Safe s) (created : Bool) :
    Safe (s.started (s.stream.start created).1) := by
  rcases start_cases s.stream created with he | ⟨hinit, w, hw⟩
  · rw [he, State.started, if_pos rfl]
    exact h
  · have hc := h.intact.state.mp hinit
    obtain ⟨hwired, hpeer, c, hconn, hoffer⟩ := h.intact.wired.start hc hw
    have hserved : ∀ a ∈ s.waiting,
        Served { s.stream with webrtc := w, streamState := .ready } a := by
      intro a ha
      have hchosen := (h.waiting a ha).2
      cases a with
      | start d =>
        refine ⟨hpeer.trans hchosen.1, c, hconn, hoffer hchosen.2 ?_⟩
        rw [hchosen.1]
        exact nofun
      | info d i =>
        obtain ⟨hp, hsdp, hcandidates⟩ := hchosen
        refine ⟨hpeer.trans hp, c, hconn, fun hn => absurd hsdp hn, ?_⟩
        rw [hcandidates]
        exact List.nil_subset _
    have hne : StreamState.ready ≠ s.stream.streamState := by
      rw [hinit]
      exact nofun
    rw [start_ready hinit hw, State.started, if_neg hne]
    refine ⟨⟨hwired, iff_of_false nofun ?_⟩, h.thrown, ?_, nofun⟩
    · rw [hconn]
      exact nofun
    · simpa [h.unserved] using hserved

theorem Intact.stop {s : Stream} (h : Intact s) :
    ∃ t msgs, s.stop = .ok (t, msgs) ∧ (t = s ∨ Intact t ∧ s.webrtc.peerConnection ≠ none) := by
  rw [Stream.stop]
  by_cases hs : s.streamState = .init
  · rw [if_pos hs]
    exact ⟨s, [], rfl, .inl rfl⟩
  · rw [if_neg hs, dropPeer_eq h.wired.channel]
    exact ⟨_, _, rfl, .inr ⟨h.dropped, mt h.state.mpr hs⟩⟩

theorem Intact.described {s t : Stream} (h : Intact s) {sdp : String}
    (ht : s.described sdp = some t) : Intact t ∧ s.webrtc.peerConnection ≠ none := by
  rw [Stream.described] at ht
  cases hc : s.webrtc.peerConnection with
  | none => simp [hc] at ht
  | some c =>
    simp only [hc, Option.ite_none_right_eq_some, Option.some.injEq] at ht
    obtain ⟨hd, rfl⟩ := ht
    have hp := h.wired.describing c hc hd
    have hstate := h.state
    refine ⟨⟨⟨?_, fun _ => ⟨nofun, hp⟩, fun _ _ _ => hp⟩, ?_⟩, nofun⟩
    · rw [h.wired.channel, hc]
      rfl
    · simpa [hc] using hstate

theorem Intact.gathered {s t : Stream} (h : Intact s) {candidate : String} {msgs : List Message}
    (ht : s.gathered candidate = some (t, msgs)) :
    Intact t ∧ s.webrtc.peerConnection ≠ none := by
  rw [Stream.gathered] at ht
  split at ht
  · cases ht
  · rename_i hn
    cases ht
    have hw := h.wired
    exact ⟨⟨⟨hw.channel, hw.described, hw.describing⟩, h.state⟩, fun hc => hn (.inl hc)⟩

theorem Safe.step {e : Event} (h : Safe s) (ho : Ok s e) (ht : s.step e = some t) : Safe t := by
  have hwired := h.intact.wired
  cases e with
  | setJNIInterface =>
    cases ht
    exact h.of_webrtc rfl rfl
  | start created =>
    cases ht
    exact h.started created
  | stop =>
    obtain ⟨u, msgs, hu, hcase⟩ := h.intact.stop
    simp only [State.step, hu] at ht
    cases ht
    rcases hcase with rfl | ⟨hi, hc⟩
    · exact h
    · exact h.of_intact hi hc
  | disconnect =>
    obtain ⟨u, msgs, hu, hcase⟩ := h.intact.stop
    simp only [State.step, Stream.disconnect, hu] at ht
    cases ht
    rcases hcase with rfl | ⟨hi, hc⟩
    · exact h.of_webrtc rfl rfl
    · exact h.of_intact ⟨hi.wired, hi.state⟩ hc
  | described sdp =>
    obtain ⟨u, hu, rfl⟩ := Option.map_eq_some_iff.mp ht
    obtain ⟨hi, hc⟩ := h.intact.described hu
    exact h.of_intact hi hc
  | gathered candidate =>
    obtain ⟨⟨u, msgs⟩, hu, rfl⟩ := Option.map_eq_some_iff.mp ht
    obtain ⟨hi, hc⟩ := h.intact.gathered hu
    exact h.of_intact hi hc
  | message d msg =>
    obtain ⟨-, he⟩ := Option.ite_none_right_eq_some.mp ht
    cases he
    cases hc : s.stream.webrtc.peerConnection with
    | none =>
      obtain ⟨u, hu, hi, hn, hchosen⟩ := h.handle_none hc ho
      rw [hu]
      exact ⟨hi, h.thrown, h.unserved, fun a ha => ⟨hn, hchosen a ha⟩⟩
    | some c =>
      obtain ⟨u, hu, hi⟩ := h.intact.handle_some hc d msg
      have hsome : s.stream.webrtc.peerConnection ≠ none := by
        rw [hc]
        exact nofun
      have hkeep : s.announce d msg = s.waiting := by
        unfold State.announce
        exact if_pos hsome
      rw [hu, hkeep]
      exact h.of_intact hi hsome

theorem safe {id : String} {role : StreamRole} (h : (machine id role).Reaches Ok s) : Safe s := by
  refine h.invariant ?_ fun _ _ _ _ ih ho ht => ih.step ho ht
  refine ⟨⟨⟨rfl, fun hl => absurd rfl hl, nofun⟩, ⟨fun _ => rfl, fun _ => rfl⟩⟩, rfl, rfl, nofun⟩

def Lost (s : Stream) (a : Announcement) : Prop :=
  s.webrtc.peerDiscoveryId ≠ some a.client ∨
    ∃ d i, a = .info d i ∧ ¬ (i.sdp = "" ∧ i.iceCandidates = [])

theorem start_fresh (hc : w.peerConnection = none) (hv : w.start true = some v) :
    v.peerDiscoveryId = w.peerDiscoveryId ∧
      ∀ c ∈ v.peerConnection, c.remoteDescription = none ∧ c.candidates = [] := by
  rcases start_eq_some hc hv with ⟨rfl, -⟩ | ⟨rfl, -, -⟩
  · refine ⟨rfl, ?_⟩
    rintro _ ⟨⟩
    exact ⟨rfl, rfl⟩
  · rcases offer_cases w.connected with he | ⟨c, hc, -, he⟩
    · rw [he]
      refine ⟨rfl, ?_⟩
      rintro _ ⟨⟩
      exact ⟨rfl, rfl⟩
    · rw [he]
      refine ⟨rfl, ?_⟩
      cases hc
      rintro _ ⟨⟩
      exact ⟨rfl, rfl⟩

theorem Lost.not_served {s : Stream} {a : Announcement} (h : Lost s a)
    (hc : s.webrtc.peerConnection = none) (hv : s.webrtc.start true = some v) :
    ¬ Served { s with webrtc := v, streamState := .ready } a := by
  obtain ⟨hpeer, hconn⟩ := start_fresh hc hv
  intro hs
  rcases h with hne | ⟨d, i, rfl, hinfo⟩
  · apply hne
    rw [← hpeer]
    cases a with
    | start => exact hs.1
    | info => exact hs.1
  · obtain ⟨-, c, hcm, hsdp, hsub⟩ := hs
    obtain ⟨hr, hcand⟩ := hconn c hcm
    apply hinfo
    constructor
    · by_contra hne
      cases hr.symm.trans (hsdp hne)
    · rw [hcand] at hsub
      exact List.subset_nil.mp hsub

/-- `start` does not serve a lost announcement. -/
theorem unserved_start {a : Announcement} (hs : s.stream.streamState = .init)
    (hc : s.stream.webrtc.peerConnection = none) (ha : a ∈ s.waiting) (hl : Lost s.stream a) :
    ∃ u, s.step (.start true) = some u ∧ (u.thrown = true ∨ u.unserved = true) := by
  obtain ⟨v, hv⟩ : ∃ v, s.stream.webrtc.start true = some v := by
    simp [WebRTC.start, WebRTC.initializePeerConnection, hc]
  have hne : StreamState.ready ≠ s.stream.streamState := by
    rw [hs]
    decide
  have hany : s.waiting.any (fun a =>
      ¬ Served { s.stream with webrtc := v, streamState := .ready } a) = true := by
    rw [List.any_eq_true]
    exact ⟨a, ha, decide_eq_true (hl.not_served hc hv)⟩
  refine ⟨_, rfl, .inr ?_⟩
  rw [start_ready hs hv, State.started, if_neg hne, hany, Bool.or_true]

theorem thrown_start (h : s.thrown = true) :
    ∃ u, s.step (.start true) = some u ∧ (u.thrown = true ∨ u.unserved = true) := by
  refine ⟨_, rfl, .inl ?_⟩
  unfold State.started
  split <;> exact h

theorem start_mem_announce (hc : s.stream.webrtc.peerConnection = none)
    (hr : s.stream.webrtc.role = .subscriber) : .start d ∈ s.announce d (.text "START") := by
  simp [State.announce, hc, hr]

theorem info_mem_announce (hc : s.stream.webrtc.peerConnection = none) {i : StreamInfo}
    (hi : Announces s.stream (.info i)) : .info d i ∈ s.announce d (.info i) := by
  have happend : s.announce d (.info i) = s.waiting ++ [.info d i] := by
    unfold State.announce
    rw [if_neg (not_not.mpr hc)]
    exact if_pos hi
  rw [happend]
  exact List.mem_append_right _ (List.mem_singleton_self _)

/-- `START` of a second peer. -/
theorem lost_text (hf : ¬ Free s.stream d) :
    s.stream.handle d (.text "START") = .ok s.stream ∧ Lost s.stream (.start d) := by
  obtain ⟨hnone, hsome⟩ := not_or.mp hf
  have hm := handled s.stream d (.text "START")
  generalize s.stream.handle d (.text "START") = r at hm
  cases hm with
  | ignored => exact ⟨rfl, .inl hsome⟩
  | removed _ hp => exact absurd hp hsome
  | announced _ hp => exact absurd hp hnone

/-- Stream information that is of a second peer, or has something in it. -/
theorem lost_info (hc : s.stream.webrtc.peerConnection = none) {i : StreamInfo}
    (ha : Announces s.stream (.info i))
    (hn : ¬ (Free s.stream d ∧ i.sdp = "" ∧ i.iceCandidates = [])) :
    (∃ t, s.stream.handle d (.info i) = .error t) ∨
      s.stream.handle d (.info i) = .ok s.stream ∧ Lost s.stream (.info d i) := by
  have hm := handled s.stream d (.info i)
  generalize s.stream.handle d (.info i) = r at hm
  cases hm with
  | ignored hnot =>
    refine .inr ⟨rfl, .inl fun hp => hnot fun peer hpeer => ?_⟩
    cases hp.symm.trans hpeer
    refine ⟨rfl, ha.resolve_left ?_⟩
    rw [hpeer]
    exact nofun
  | removed hmsg => rcases hmsg with hmsg | hmsg <;> cases hmsg
  | first _ hp =>
    left
    have hempty : ¬ (i.sdp = "" ∧ i.iceCandidates = []) := fun he => hn ⟨.inl hp, he⟩
    rw [addPeer_none ((setPeerDiscoveryId_frame hp d).2.2.mpr hc), if_neg hempty]
    exact ⟨_, rfl⟩
  | added _ hp =>
    have hempty : ¬ (i.sdp = "" ∧ i.iceCandidates = []) := fun he => hn ⟨.inr hp, he⟩
    rw [addPeer_none hc, if_neg hempty]
    exact .inl ⟨_, rfl⟩
  | updated _ hp =>
    have hempty : ¬ (i.sdp = "" ∧ i.iceCandidates = []) := fun he => hn ⟨.inr hp, he⟩
    rw [updatePeer_none hc]
    split
    · exact .inr ⟨rfl, .inr ⟨d, i, rfl, hempty⟩⟩
    · exact .inl ⟨_, rfl⟩

/-- A message that is not ok makes the stream throw, or leaves an announcement that `start` does
not serve. -/
theorem lost_of_not_ok {e : Event} (hn : ¬ Ok s e) (ht : s.step e = some t) :
    t.thrown = true ∨ t.stream = s.stream ∧ s.stream.webrtc.peerConnection = none ∧
      ∃ a ∈ t.waiting, Lost s.stream a := by
  cases e with
  | message d msg =>
    obtain ⟨-, he⟩ := Option.ite_none_right_eq_some.mp ht
    cases he
    cases msg with
    | text peerState =>
      simp only [Ok, Classical.not_imp] at hn
      obtain ⟨hc, ⟨rfl, hr⟩, hf⟩ := hn
      obtain ⟨hok, hlost⟩ := lost_text hf
      rw [hok]
      exact .inr ⟨rfl, hc, _, start_mem_announce hc hr, hlost⟩
    | info i =>
      simp only [Ok, Classical.not_imp] at hn
      obtain ⟨hc, ha, hn⟩ := hn
      rcases lost_info hc ha hn with ⟨u, hu⟩ | ⟨hok, hlost⟩
      · rw [hu]
        exact .inl rfl
      · rw [hok]
        exact .inr ⟨rfl, hc, _, info_mem_announce hc ha, hlost⟩
    | invalid => exact absurd trivial hn
    | leave => exact absurd trivial hn
  | _ => exact absurd trivial hn

/-- In a run in which every message is ok no null is dereferenced and `start` serves every peer
that is waiting. After any other message a `start` has done one of the two. -/
theorem peers_served_without_exception {id : String} {role : StreamRole}
    (h : (machine id role).Reaches Ok s) :
    s.thrown = false ∧ s.unserved = false ∧
      ∀ e t, ¬ Ok s e → s.step e = some t →
        ∃ u, t.step (.start true) = some u ∧ (u.thrown = true ∨ u.unserved = true) := by
  have hs := safe h
  refine ⟨hs.thrown, hs.unserved, fun e t hn ht => ?_⟩
  rcases lost_of_not_ok hn ht with hthrown | ⟨hstream, hc, a, ha, hl⟩
  · exact thrown_start hthrown
  · have hinit := hs.intact.state.mpr hc
    rw [← hstream] at hc hl hinit
    exact unserved_start hinit hc ha hl

def camera : Client := ⟨"camera", by decide⟩

def screen : Client := ⟨"screen", by decide⟩

/-- A subscriber that hears of its publisher before each of its starts. -/
theorem announced_publisher_served : ∃ s, (machine "sink" .subscriber).Reaches Ok s ∧
    s.thrown = false ∧ s.unserved = false ∧
    s.stream.webrtc.peerConnection = some { describing := true } := by
  obtain ⟨s, hr, hs⟩ := (machine "sink" .subscriber).exists_reaches Ok
    [.setJNIInterface, .message camera (.text "START"), .start true, .described "offer",
      .gathered "c", .message camera (.info ⟨"src", "sink", "answer", ["d"]⟩), .stop,
      .message camera (.text "START"), .start true]
    (fun s => s.stream.webrtc.peerConnection = some { describing := true }) (by decide +kernel)
  obtain ⟨hthrown, hunserved, -⟩ := peers_served_without_exception hr
  exact ⟨s, hr, hthrown, hunserved, of_decide_eq_true hs⟩

/-- An offer that a publisher gets before it is started makes it throw, and is lost for the start
that follows; so is one that comes after it was stopped. -/
theorem offers_without_connection_lost :
    (∃ s, (machine "src" .publisher).Reachable s ∧ s.thrown = true ∧ s.unserved = true) ∧
    ∃ s, (machine "src" .publisher).Reachable s ∧ s.thrown = true := by
  obtain ⟨s, hr, hs⟩ := (machine "src" .publisher).exists_reachable
    [.setJNIInterface, .message screen (.info ⟨"sink", "camera", "offer", ["c"]⟩), .start true]
    (fun s => s.thrown && s.unserved) (by decide +kernel)
  obtain ⟨t, ht, hthrown⟩ := (machine "src" .publisher).exists_reachable
    [.setJNIInterface, .start true, .stop,
      .message screen (.info ⟨"sink", "camera", "offer", ["c"]⟩)]
    (fun s => s.thrown) (by decide +kernel)
  exact ⟨⟨s, hr, (Bool.and_eq_true _ _).mp hs⟩, t, ht, hthrown⟩

end JavaWebRtcLifecycle
