import Mathlib.Data.List.Basic
import Mathlib.Data.List.Infix

/-! `WebRtcStream` and what it keeps about its peer. The webrtc library behind the handle is
modelled by its state and by what has been applied to it; its calls that take peer information
succeed exactly while it is negotiating. -/
namespace WebRtcStream

inductive HandleState where
  | idle
  | negotiating
  | playing
  deriving DecidableEq, Repr

/-- `started` says that the library has been told to leave the idle state. -/
structure Handle where
  state : HandleState := .idle
  started : Bool := false
  remoteDescriptions : List String := []
  candidates : List String := []
  deriving DecidableEq, Repr

/-- A destroyed handle is `none`. -/
structure Stream where
  webrtcHandle : Option Handle := some {}
  localDescription : String := ""
  remoteDescription : String := ""
  id : String := ""
  peerId : String := ""
  iceCandidates : List String := []
  peerIceCandidates : List String := []
  storedPeerIceCandidates : List String := []
  deriving DecidableEq, Repr

namespace Stream

def destroy (s : Stream) : Stream := { s with webrtcHandle := none }

def start (s : Stream) : Stream :=
  { s with webrtcHandle := s.webrtcHandle.map fun h => { h with started := true } }

def setStreamId (s : Stream) (id : String) : Stream := { s with id := id }

def setPeerId (s : Stream) (id : String) : Stream := { s with peerId := id }

def isNegotiatingState (s : Stream) : Bool := s.webrtcHandle.any (·.state = .negotiating)

def isPlayingState (s : Stream) : Bool := s.webrtcHandle.any (·.state = .playing)

def state (s : Stream) : Option HandleState := s.webrtcHandle.map (·.state)

def whileNegotiating (s : Stream) (f : Handle → Handle) : Option Stream :=
  match s.webrtcHandle with
  | some h => if h.state = .negotiating then some { s with webrtcHandle := some (f h) } else none
  | none => none

def setRemoteDescription (s : Stream) (description : String) : Option Stream :=
  s.whileNegotiating fun h =>
    { h with remoteDescriptions := h.remoteDescriptions ++ [description] }

def addIceCandidateFromMessage (s : Stream) (candidate : String) : Option Stream :=
  s.whileNegotiating fun h => { h with candidates := h.candidates ++ [candidate] }

def setPeerSDP (s : Stream) : Bool × Stream :=
  if s.remoteDescription = "" then (true, s)
  else
    match s.setRemoteDescription s.remoteDescription with
    | some s' => (true, { s' with remoteDescription := "" })
    | none => (false, s)

def isRedundantCandidate (s : Stream) (candidate : String) : Bool :=
  s.storedPeerIceCandidates.contains candidate

def setPeerIceCandidate (r : Bool × Stream) (candidate : String) : Bool × Stream :=
  if r.2.isRedundantCandidate candidate then r
  else
    match r.2.addIceCandidateFromMessage candidate with
    | some s =>
      (r.1, { s with storedPeerIceCandidates := s.storedPeerIceCandidates ++ [candidate] })
    | none => (false, r.2)

def setPeerIceCandidates (s : Stream) : Bool × Stream :=
  s.peerIceCandidates.foldl setPeerIceCandidate (true, s)

def setPeerInformation (s : Stream) : Bool × Stream :=
  match s.setPeerSDP with
  | (true, s') => s'.setPeerIceCandidates
  | (false, s') => (false, s')

def addPeerInformation (s : Stream) (sdp : String) (iceCandidates : List String) :
    Bool × Stream :=
  let s' := { s with remoteDescription := sdp, peerIceCandidates := iceCandidates }
  if s'.isNegotiatingState then s'.setPeerInformation else (false, s')

def updatePeerInformation (s : Stream) (iceCandidates : List String) : Stream :=
  if s.isPlayingState then
    { s with remoteDescription := "", peerIceCandidates := [], storedPeerIceCandidates := [] }
  else
    let s' := { s with peerIceCandidates := iceCandidates }
    if s'.isNegotiatingState then s'.setPeerInformation.2 else s'

/-- The library has changed its state and calls back; only the SDP that has been waiting is
applied then. -/
def onStateChanged (s : Stream) (current : HandleState) : Stream :=
  let s' := { s with webrtcHandle := s.webrtcHandle.map fun h => { h with state := current } }
  if current = .negotiating then s'.setPeerSDP.2 else s'

def onIceCandidate (s : Stream) (candidate : String) : Stream :=
  { s with iceCandidates := s.iceCandidates ++ [candidate] }

def setLocalDescription (s : Stream) (description : String) : Stream :=
  { s with localDescription := description }

end Stream

inductive Signal where
  | negotiate
  | play
  | describe (sdp : String)
  | candidate (c : String)
  deriving DecidableEq, Repr

/-- The side that answers gets its own description once it has the peer's. Candidates are
gathered once there is a local description. -/
def Stream.signal (s : Stream) (answers : Bool) : Signal → Option Stream
  | .negotiate =>
    if s.webrtcHandle.any fun h => h.started ∧ h.state = .idle then
      some (s.onStateChanged .negotiating)
    else none
  | .play => if s.isNegotiatingState then some (s.onStateChanged .playing) else none
  | .describe sdp =>
    if s.isNegotiatingState ∧ s.localDescription = "" ∧ sdp ≠ "" ∧
        (answers → s.webrtcHandle.any fun h => h.remoteDescriptions ≠ []) then
      some (s.setLocalDescription sdp)
    else none
  | .candidate c =>
    if s.webrtcHandle.isSome ∧ s.localDescription ≠ "" then some (s.onIceCandidate c) else none

variable {s t : Stream} {h : Handle}

theorem whileNegotiating_eq_some (hh : s.webrtcHandle = some h) (hn : h.state = .negotiating)
    (f : Handle → Handle) :
    s.whileNegotiating f = some { s with webrtcHandle := some (f h) } := by
  simp [Stream.whileNegotiating, hh, hn]

def Stream.withCandidates (s : Stream) (h : Handle) (new : List String) : Stream :=
  { s with
    webrtcHandle := some { h with candidates := h.candidates ++ new }
    storedPeerIceCandidates := s.storedPeerIceCandidates ++ new }

/-- The loop over the candidates of the peer while the library is negotiating. -/
theorem foldl_setPeerIceCandidate (cs : List String) (b : Bool)
    (hh : s.webrtcHandle = some h) (hn : h.state = .negotiating) :
    ∃ new, cs.foldl Stream.setPeerIceCandidate (b, s) = (b, s.withCandidates h new) ∧
      ∀ c, c ∈ s.storedPeerIceCandidates ++ new ↔ c ∈ s.storedPeerIceCandidates ∨ c ∈ cs := by
  induction cs generalizing s h with
  | nil => exact ⟨[], by simp [Stream.withCandidates, ← hh], by simp⟩
  | cons c cs ih =>
    rw [List.foldl_cons]
    by_cases hc : c ∈ s.storedPeerIceCandidates
    · have hred : Stream.setPeerIceCandidate (b, s) c = (b, s) := by
        simp [Stream.setPeerIceCandidate, Stream.isRedundantCandidate, hc]
      obtain ⟨new, he, hm⟩ := ih hh hn
      refine ⟨new, by rw [hred, he], fun c' => ?_⟩
      rw [hm c', List.mem_cons]
      constructor
      · exact Or.imp_right .inr
      · rintro (hs | rfl | hcs)
        · exact .inl hs
        · exact .inl hc
        · exact .inr hcs
    · have hadd : Stream.setPeerIceCandidate (b, s) c = (b, s.withCandidates h [c]) := by
        simp [Stream.setPeerIceCandidate, Stream.isRedundantCandidate, hc,
          Stream.addIceCandidateFromMessage, whileNegotiating_eq_some hh hn,
          Stream.withCandidates]
      obtain ⟨new, he, hm⟩ := ih (s := s.withCandidates h [c]) rfl hn
      refine ⟨c :: new, by rw [hadd, he]; simp [Stream.withCandidates], fun c' => ?_⟩
      have hc' := hm c'
      simp only [Stream.withCandidates, List.append_assoc, List.singleton_append] at hc'
      rw [hc', List.mem_append, List.mem_singleton, List.mem_cons, or_assoc]

structure Described (s : Stream) (h h' : Handle) : Prop where
  state : h'.state = h.state
  started : h'.started = h.started
  candidates : h'.candidates = h.candidates
  earlier : h.remoteDescriptions ⊆ h'.remoteDescriptions
  remote : s.remoteDescription ≠ "" → s.remoteDescription ∈ h'.remoteDescriptions

theorem setPeerSDP_spec (hh : s.webrtcHandle = some h) (hn : h.state = .negotiating) :
    ∃ h', s.setPeerSDP = (true, { s with webrtcHandle := some h', remoteDescription := "" }) ∧
      Described s h h' := by
  by_cases hd : s.remoteDescription = ""
  · refine ⟨h, ?_, rfl, rfl, rfl, List.Subset.refl _, absurd hd⟩
    rw [Stream.setPeerSDP, if_pos hd, ← hh, ← hd]
  · refine ⟨{ h with remoteDescriptions := h.remoteDescriptions ++ [s.remoteDescription] }, ?_,
      rfl, rfl, rfl, List.subset_append_left _ _, fun _ => by simp⟩
    rw [Stream.setPeerSDP, if_neg hd, Stream.setRemoteDescription, whileNegotiating_eq_some hh hn]

theorem setPeerInformation_spec (hh : s.webrtcHandle = some h) (hn : h.state = .negotiating) :
    ∃ h' new, s.setPeerInformation.2 =
        { s with
          webrtcHandle := some { h' with candidates := h.candidates ++ new }
          remoteDescription := ""
          storedPeerIceCandidates := s.storedPeerIceCandidates ++ new } ∧
      Described s h h' ∧
      ∀ c, c ∈ s.storedPeerIceCandidates ++ new ↔
        c ∈ s.storedPeerIceCandidates ∨ c ∈ s.peerIceCandidates := by
  obtain ⟨h', hsdp, hd⟩ := setPeerSDP_spec hh hn
  obtain ⟨new, he, hm⟩ := foldl_setPeerIceCandidate
    (s := { s with webrtcHandle := some h', remoteDescription := "" }) s.peerIceCandidates true
    rfl (hd.state.trans hn)
  refine ⟨h', new, ?_, hd, hm⟩
  simp only [Stream.setPeerInformation, hsdp, Stream.setPeerIceCandidates, he,
    Stream.withCandidates, hd.candidates]

def Faithful (s : Stream) : Prop :=
  ∀ h ∈ s.webrtcHandle, s.storedPeerIceCandidates ⊆ h.candidates

def Remote (s : Stream) (sdp : String) : Prop := ∃ h ∈ s.webrtcHandle, sdp ∈ h.remoteDescriptions

/-- `t` is `s` after the peer's `sdp` and candidates have been taken: kept while the library is
idle, applied while it is negotiating. -/
structure Taken (s t : Stream) (sdp : String) (cs : List String) : Prop where
  localDescription : t.localDescription = s.localDescription
  iceCandidates : t.iceCandidates = s.iceCandidates
  id : t.id = s.id
  peerId : t.peerId = s.peerId
  handle : t.webrtcHandle.map (fun h => (h.state, h.started)) =
    s.webrtcHandle.map (fun h => (h.state, h.started))
  waiting : t.peerIceCandidates = cs
  stored : ∀ c, c ∈ t.storedPeerIceCandidates ↔
    c ∈ s.storedPeerIceCandidates ∨ s.state = some .negotiating ∧ c ∈ cs
  faithful : Faithful s → Faithful t
  earlier : ∀ d, Remote s d → Remote t d
  kept : s.state ≠ some .negotiating → t.remoteDescription = sdp
  applied : s.state = some .negotiating → sdp ≠ "" → Remote t sdp

theorem Taken.exists_handle {sdp : String} {cs : List String} (ht : Taken s t sdp cs) {h' : Handle}
    (hh : h' ∈ t.webrtcHandle) :
    ∃ h ∈ s.webrtcHandle, h'.state = h.state ∧ h'.started = h.started := by
  have he := ht.handle
  rw [Option.mem_def.mp hh, Option.map_some, eq_comm, Option.map_eq_some_iff] at he
  obtain ⟨h, hs, hp⟩ := he
  obtain ⟨hstate, hstarted⟩ := Prod.mk.inj hp
  exact ⟨h, hs, hstate.symm, hstarted.symm⟩

theorem Taken.state {sdp : String} {cs : List String} (ht : Taken s t sdp cs) :
    t.state = s.state := by
  have he := congrArg (Option.map Prod.fst) ht.handle
  rw [Option.map_map, Option.map_map] at he
  exact he

theorem Taken.stored_of_negotiating {sdp : String} {cs : List String} (ht : Taken s t sdp cs)
    (hn : s.state = some .negotiating) (c : String) :
    c ∈ t.storedPeerIceCandidates ↔ c ∈ s.storedPeerIceCandidates ∨ c ∈ cs := by
  rw [ht.stored c, and_iff_right hn]

theorem Taken.handle_none {sdp : String} {cs : List String} (ht : Taken s t sdp cs) :
    t.webrtcHandle = none ↔ s.webrtcHandle = none := by
  rw [← Option.map_eq_none_iff, ht.handle, Option.map_eq_none_iff]

theorem state_cases (h : s.webrtcHandle ≠ none) (hp : s.state ≠ some .playing) :
    s.state = some .idle ∨ s.state = some .negotiating := by
  obtain ⟨g, hg⟩ := Option.ne_none_iff_exists'.mp h
  unfold Stream.state at hp ⊢
  rw [hg] at hp ⊢
  cases hs : g.state with
  | idle => exact .inl (by simp [hs])
  | negotiating => exact .inr (by simp [hs])
  | playing => simp [hs] at hp

theorem isNegotiatingState_eq (s : Stream) :
    s.isNegotiatingState = decide (s.state = some .negotiating) := by
  cases hs : s.webrtcHandle <;> simp [Stream.isNegotiatingState, Stream.state, hs]

theorem isPlayingState_eq (s : Stream) :
    s.isPlayingState = decide (s.state = some .playing) := by
  cases hs : s.webrtcHandle <;> simp [Stream.isPlayingState, Stream.state, hs]

/-- Waiting peer information is applied if the library is negotiating. -/
theorem taken_setPeerInformation {sdp : String} {cs : List String}
    (hr : s.remoteDescription = sdp) (hw : s.peerIceCandidates = cs) :
    Taken s (if s.isNegotiatingState then s.setPeerInformation.2 else s) sdp cs := by
  subst hr hw
  by_cases hn : s.state = some .negotiating
  · rw [isNegotiatingState_eq, if_pos (decide_eq_true hn)]
    obtain ⟨h, hh, hstate⟩ := Option.map_eq_some_iff.mp hn
    obtain ⟨h', new, he, hd, hm⟩ := setPeerInformation_spec hh hstate
    rw [he]
    refine ⟨rfl, rfl, rfl, rfl, ?_, rfl, fun c => ?_, fun hf => ?_, ?_, absurd hn, fun _ hne => ?_⟩
    · simp [hh, hd.state, hd.started]
    · simp [hm c, hn]
    · rintro g hg
      cases hg
      exact List.append_subset.mpr ⟨List.subset_append_of_subset_left _ (hf h hh),
        List.subset_append_right _ _⟩
    · rintro d ⟨g, hg, hgd⟩
      cases hh.symm.trans hg
      exact ⟨_, rfl, hd.earlier hgd⟩
    · exact ⟨_, rfl, hd.remote hne⟩
  · rw [isNegotiatingState_eq, if_neg (by simpa using hn)]
    exact ⟨rfl, rfl, rfl, rfl, rfl, rfl, fun c => by simp [hn], id, fun _ => id, fun _ => rfl,
      fun h => absurd h hn⟩

theorem taken_addPeerInformation (s : Stream) (sdp : String) (cs : List String) :
    Taken s (s.addPeerInformation sdp cs).2 sdp cs := by
  have ht := taken_setPeerInformation
    (s := { s with remoteDescription := sdp, peerIceCandidates := cs }) rfl rfl
  have he : (s.addPeerInformation sdp cs).2 =
      if s.isNegotiatingState then
        ({ s with remoteDescription := sdp, peerIceCandidates := cs } : Stream).setPeerInformation.2
      else { s with remoteDescription := sdp, peerIceCandidates := cs } := by
    unfold Stream.addPeerInformation
    exact apply_ite Prod.snd _ _ _
  rw [he]
  exact { ht with }

theorem taken_updatePeerInformation (hp : s.state ≠ some .playing) (cs : List String) :
    Taken s (s.updatePeerInformation cs) s.remoteDescription cs := by
  have ht := taken_setPeerInformation (s := { s with peerIceCandidates := cs }) rfl rfl
  have he : s.updatePeerInformation cs =
      if s.isNegotiatingState then
        ({ s with peerIceCandidates := cs } : Stream).setPeerInformation.2
      else { s with peerIceCandidates := cs } := by
    rw [Stream.updatePeerInformation, isPlayingState_eq, if_neg (by simpa using hp)]
    rfl
  rw [he]
  exact { ht with }

theorem updatePeerInformation_playing (hp : s.state = some .playing) (cs : List String) :
    s.updatePeerInformation cs =
      { s with
        remoteDescription := ""
        peerIceCandidates := []
        storedPeerIceCandidates := [] } := by
  rw [Stream.updatePeerInformation, isPlayingState_eq, if_pos (decide_eq_true hp)]

/-- What `UpdatePeerInformation` leaves alone in every state. -/
theorem updatePeerInformation_frame (s : Stream) (cs : List String) :
    (s.updatePeerInformation cs).localDescription = s.localDescription ∧
      (s.updatePeerInformation cs).iceCandidates = s.iceCandidates ∧
      (s.updatePeerInformation cs).peerId = s.peerId ∧
      (s.updatePeerInformation cs).state = s.state := by
  by_cases hp : s.state = some .playing
  · rw [updatePeerInformation_playing hp]
    exact ⟨rfl, rfl, rfl, rfl⟩
  · have ht := taken_updatePeerInformation hp cs
    exact ⟨ht.localDescription, ht.iceCandidates, ht.peerId, ht.state⟩

inductive Signalled (s : Stream) : Signal → Stream → Prop where
  | negotiate {h h' : Handle} (handle : s.webrtcHandle = some h) (started : h.started = true)
      (idle : h.state = .idle) (described : Described s { h with state := .negotiating } h') :
      Signalled s .negotiate { s with webrtcHandle := some h', remoteDescription := "" }
  | play {h : Handle} (handle : s.webrtcHandle = some h) (negotiating : h.state = .negotiating) :
      Signalled s .play { s with webrtcHandle := some { h with state := .playing } }
  | describe {sdp : String} (negotiating : s.state = some .negotiating)
      (none : s.localDescription = "") (nonempty : sdp ≠ "") :
      Signalled s (.describe sdp) { s with localDescription := sdp }
  | candidate {c : String} (handle : s.webrtcHandle ≠ none)
      (described : s.localDescription ≠ "") :
      Signalled s (.candidate c) { s with iceCandidates := s.iceCandidates ++ [c] }

theorem signalled_of_signal {answers : Bool} {w : Signal} (hs : s.signal answers w = some t) :
    Signalled s w t := by
  cases w with
  | negotiate =>
    obtain ⟨hany, ht⟩ := Option.ite_none_right_eq_some.mp hs
    obtain rfl := Option.some.inj ht
    obtain ⟨h, hh, hb⟩ := (Option.any_eq_true _ _).mp hany
    obtain ⟨hst, hidle⟩ := of_decide_eq_true hb
    obtain ⟨h', he, hd⟩ := setPeerSDP_spec
      (s := { s with webrtcHandle := some { h with state := .negotiating } }) rfl rfl
    have ht : s.onStateChanged .negotiating =
        { s with webrtcHandle := some h', remoteDescription := "" } := by
      rw [Stream.onStateChanged, hh, if_pos rfl]
      exact congrArg Prod.snd he
    rw [ht]
    exact .negotiate hh hst hidle { hd with }
  | play =>
    obtain ⟨hn, ht⟩ := Option.ite_none_right_eq_some.mp hs
    obtain rfl := Option.some.inj ht
    obtain ⟨h, hh, hb⟩ := (Option.any_eq_true _ _).mp hn
    have ht : s.onStateChanged .playing =
        { s with webrtcHandle := some { h with state := .playing } } := by
      rw [Stream.onStateChanged, hh, if_neg nofun]
      rfl
    rw [ht]
    exact .play hh (of_decide_eq_true hb)
  | describe sdp =>
    obtain ⟨⟨hn, hl, hne, -⟩, ht⟩ := Option.ite_none_right_eq_some.mp hs
    obtain rfl := Option.some.inj ht
    rw [isNegotiatingState_eq, decide_eq_true_eq] at hn
    exact .describe hn hl hne
  | candidate c =>
    obtain ⟨⟨hh, hl⟩, ht⟩ := Option.ite_none_right_eq_some.mp hs
    obtain rfl := Option.some.inj ht
    exact .candidate (Option.isSome_iff_ne_none.mp hh) hl

end WebRtcStream
