import Aitt.WebRtcManager

/-! What holds of the source or the sink by itself, whatever messages it takes and whatever its
library signals. -/
namespace WebRtcPeer

open WebRtcStream WebRtcManager

variable {m m' n : StreamManager} {d : String} {msg : Message} {w : Signal} {out : List Message}

structure Local (m : StreamManager) : Prop where
  fresh : m.peerAittId = "" → m.stream = {}
  id : m.peerAittId ≠ "" → m.stream.id = m.streamId
  started : m.peerAittId ≠ "" → ∀ h ∈ m.stream.webrtcHandle, h.started = true
  idle : m.stream.state = some .idle → m.stream.localDescription = ""
  gathered : m.stream.localDescription = "" → m.stream.iceCandidates = []
  faithful : Faithful m.stream

structure Framed (m n : StreamManager) : Prop where
  role : n.role = m.role
  streamId : n.streamId = m.streamId
  localDescription : n.stream.localDescription = m.stream.localDescription
  iceCandidates : n.stream.iceCandidates = m.stream.iceCandidates

theorem framed_handled (hm : Handled m d msg n) : Framed m n := by
  cases hm with
  | ignored => exact ⟨rfl, rfl, rfl, rfl⟩
  | destroyed => exact ⟨rfl, rfl, rfl, rfl⟩
  | @srcFirst i =>
    have ht := taken_addPeerInformation ((m.stream.start.setStreamId m.streamId).setPeerId i.id)
      i.sdp i.iceCandidates
    exact ⟨rfl, rfl, ht.localDescription, ht.iceCandidates⟩
  | @srcUpdate i | @sinkUpdate i =>
    have ht := updatePeerInformation_frame m.stream i.iceCandidates
    exact ⟨rfl, rfl, ht.1, ht.2.1⟩
  | sinkStart => exact ⟨rfl, rfl, rfl, rfl⟩
  | @sinkFirst i =>
    have ht := taken_addPeerInformation (m.stream.setPeerId i.id) i.sdp i.iceCandidates
    exact ⟨rfl, rfl, ht.localDescription, ht.iceCandidates⟩

theorem Local.taken {b : Stream} {sdp : String} {cs : List String}
    (ht : Taken b n.stream sdp cs) (hp : n.peerAittId ≠ "") (hid : b.id = n.streamId)
    (hs : ∀ h ∈ b.webrtcHandle, h.started = true)
    (hi : b.state = some .idle → b.localDescription = "")
    (hg : b.localDescription = "" → b.iceCandidates = []) (hf : Faithful b) : Local n where
  fresh h := absurd h hp
  id _ := ht.id.trans hid
  started _ h' hh' := by
    obtain ⟨h, hh, he⟩ := ht.exists_handle hh'
    exact he.2 ▸ hs h hh
  idle h := by
    rw [ht.localDescription]
    exact hi (ht.state ▸ h)
  gathered h := by
    rw [ht.iceCandidates]
    exact hg (ht.localDescription ▸ h)
  faithful := ht.faithful hf

theorem Local.update (h : Local m) (hp : m.peerAittId ≠ "") (cs : List String) :
    Local { m with stream := m.stream.updatePeerInformation cs } := by
  by_cases hplay : m.stream.state = some .playing
  · rw [updatePeerInformation_playing hplay]
    exact ⟨fun he => absurd he hp, h.id, h.started, h.idle, h.gathered,
      fun _ _ => List.nil_subset _⟩
  · exact .taken (taken_updatePeerInformation hplay cs) hp (h.id hp) (h.started hp) h.idle
      h.gathered h.faithful

theorem Local.handled (h : Local m) (hd : d ≠ "") (hm : Handled m d msg n) : Local n := by
  cases hm with
  | ignored => exact h
  | destroyed _ hp =>
    exact ⟨fun he => absurd (hp.symm.trans he) hd, h.id, fun _ => nofun, nofun, h.gathered, nofun⟩
  | @srcFirst i _ _ hp =>
    have hfresh := h.fresh hp
    refine .taken (taken_addPeerInformation _ i.sdp i.iceCandidates) hd rfl ?_ ?_ ?_ ?_
    · rw [hfresh]
      rintro _ ⟨⟩
      rfl
    · rw [hfresh]
      exact fun _ => rfl
    · rw [hfresh]
      exact fun _ => rfl
    · rw [hfresh]
      exact fun _ _ => List.nil_subset _
  | srcUpdate _ _ hne => exact h.update hne _
  | sinkStart _ _ hp =>
    have hfresh := h.fresh hp
    refine ⟨fun he => absurd he hd, fun _ => rfl, ?_, ?_, ?_, ?_⟩
    · rw [StreamManager.sinkAddStream, hfresh]
      rintro - _ ⟨⟩
      rfl
    · rw [StreamManager.sinkAddStream, hfresh]
      exact fun _ => rfl
    · rw [StreamManager.sinkAddStream, hfresh]
      exact fun _ => rfl
    · rw [StreamManager.sinkAddStream, hfresh]
      exact fun _ _ => List.nil_subset _
  | @sinkFirst i _ _ hp =>
    have hne : m.peerAittId ≠ "" := hp ▸ hd
    refine .taken (taken_addPeerInformation _ i.sdp i.iceCandidates) hne (h.id hne) ?_ ?_ ?_ ?_
    · exact h.started hne
    · exact h.idle
    · exact h.gathered
    · exact h.faithful
  | sinkUpdate _ _ hp => exact h.update (hp ▸ hd) _

theorem signal_cases (hs : m.signal w = some (n, out)) :
    ∃ stream, Signalled m.stream w stream ∧ n = { m with stream := stream } ∧
      out = n.response w := by
  obtain ⟨stream, hstream, he⟩ := Option.map_eq_some_iff.mp hs
  obtain ⟨rfl, rfl⟩ := Prod.mk.inj he
  exact ⟨stream, signalled_of_signal hstream, rfl, rfl⟩

/-- The library of a manager without a peer is silent. -/
theorem Local.peer_of_signalled {stream : Stream} (h : Local m)
    (hs : Signalled m.stream w stream) : m.peerAittId ≠ "" := by
  intro hp
  rw [h.fresh hp] at hs
  cases hs with
  | negotiate handle started =>
    cases handle
    cases started
  | play handle negotiating =>
    cases handle
    cases negotiating
  | describe negotiating => cases negotiating
  | candidate _ described => exact described rfl

theorem Local.signalled {stream : Stream} (h : Local m) (hs : Signalled m.stream w stream) :
    Local { m with stream := stream } := by
  have hp := h.peer_of_signalled hs
  have hst := h.started hp
  cases hs with
  | @negotiate g g' handle started idle described =>
    refine ⟨fun he => absurd he hp, h.id, ?_, ?_, h.gathered, ?_⟩
    · rintro - _ ⟨⟩
      exact described.started.trans started
    · intro hi
      have hstate := described.state.symm.trans (Option.some.inj hi)
      cases hstate
    · rintro _ ⟨⟩
      rw [described.candidates]
      exact h.faithful g handle
  | @play g handle negotiating =>
    refine ⟨fun he => absurd he hp, h.id, ?_, nofun, h.gathered, ?_⟩
    · rintro - _ ⟨⟩
      exact hst g handle
    · rintro _ ⟨⟩
      exact h.faithful g handle
  | describe negotiating none nonempty =>
    refine ⟨fun he => absurd he hp, h.id, h.started, fun hi => ?_, fun he => absurd he nonempty,
      h.faithful⟩
    cases negotiating.symm.trans hi
  | candidate _ described =>
    exact ⟨fun he => absurd he hp, h.id, h.started, h.idle, fun he => absurd he described,
      h.faithful⟩

theorem handled_peer (hm : Handled m d msg m') :
    m'.peerAittId = m.peerAittId ∨ m.peerAittId = "" ∧ m'.peerAittId = d := by
  cases hm with
  | srcFirst _ _ hp | sinkStart _ _ hp => exact .inr ⟨hp, rfl⟩
  | ignored | destroyed | srcUpdate | sinkFirst | sinkUpdate => exact .inl rfl

theorem start_state (s : Stream) : s.start.state = s.state := by
  cases hs : s.webrtcHandle <;> simp [Stream.state, Stream.start, hs]

theorem handled_state (hm : Handled m d msg m')
    (hs : msg = .string "STOP" → m.peerAittId ≠ d) : m'.stream.state = m.stream.state := by
  cases hm with
  | ignored => rfl
  | destroyed stop peer => exact absurd peer (hs stop)
  | srcFirst => exact (taken_addPeerInformation _ _ _).state.trans (start_state m.stream)
  | srcUpdate | sinkUpdate => exact (updatePeerInformation_frame _ _).2.2.2
  | sinkStart => exact start_state m.stream
  | sinkFirst => exact (taken_addPeerInformation _ _ _).state

theorem handled_src_peerId (hm : Handled m d msg m') (hr : m.role = .src)
    (hp : m.peerAittId ≠ "") :
    m'.peerAittId = m.peerAittId ∧ m'.stream.peerId = m.stream.peerId := by
  cases hm with
  | ignored | destroyed => exact ⟨rfl, rfl⟩
  | srcFirst _ _ peer => exact absurd peer hp
  | srcUpdate => exact ⟨rfl, (updatePeerInformation_frame _ _).2.2.1⟩
  | sinkStart role | sinkFirst role | sinkUpdate role => cases hr.symm.trans role

theorem Local.negotiating (h : Local m) (hne : m.peerAittId ≠ "")
    (ha : m.stream.webrtcHandle ≠ none)
    (hs : ∀ g ∈ m.stream.webrtcHandle, g.started = true → g.state ≠ .idle) :
    m.stream.state ≠ some .idle := by
  obtain ⟨g, hg⟩ := Option.ne_none_iff_exists'.mp ha
  rw [Stream.state, hg, Option.map_some]
  exact fun he => hs g hg (h.started hne g hg) (Option.some.inj he)

end WebRtcPeer
