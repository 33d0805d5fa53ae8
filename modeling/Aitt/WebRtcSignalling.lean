import Aitt.WebRtcPeer

/-! A source and a sink of one topic that exchange stream information through discovery, while
other clients send what they like. Messages of one client arrive in the order in which they were
published, and discovery may pass on the latest one again. -/
namespace WebRtcSignalling

open TransitionRuns WebRtcStream WebRtcManager WebRtcPeer

def Role.other : Role → Role
  | .src => .sink
  | .sink => .src

/-- The clients of the source and the sink, which may be one, and the ids that their streams
get. -/
structure Pair where
  client : Role → Client
  streamId : Role → String
  nonempty : ∀ r, streamId r ≠ ""

/-- `inbox` has the messages on their way to the manager from its counterpart, `entry` is what
it has in discovery itself. -/
structure Side where
  manager : StreamManager
  inbox : List Message := []
  entry : Option Message := none
  deriving DecidableEq, Repr

/-- `disturbed` says that a message that was not for its receiver has changed it. -/
structure State where
  src : Side
  sink : Side
  disturbed : Bool := false
  deriving DecidableEq, Repr

inductive Event where
  | start (r : Role)
  | republish (r : Role)
  | deliver (r : Role)
  | other (r : Role) (d : Client) (msg : Message)
  | signal (r : Role) (w : Signal)

def Foreign (m : StreamManager) (d : String) (msg : Message) : Prop :=
  (m.peerAittId ≠ "" ∧ d ≠ m.peerAittId) ∨
    ∃ i ∈ msg.streamInfo, i.peerId ≠ "" ∧ i.peerId ≠ m.stream.id

instance (m : StreamManager) (d : String) (msg : Message) : Decidable (Foreign m d msg) :=
  inferInstanceAs (Decidable (_ ∨ _))

namespace State

def side (s : State) : Role → Side
  | .src => s.src
  | .sink => s.sink

def setSide (s : State) (r : Role) (side : Side) : State :=
  match r with
  | .src => { s with src := side }
  | .sink => { s with sink := side }

def post (s : State) (r : Role) (msg : Message) : State :=
  s.setSide (Role.other r)
    { s.side (Role.other r) with inbox := (s.side (Role.other r)).inbox ++ [msg] }

def publish (s : State) (r : Role) (msg : Message) : State :=
  (s.setSide r { s.side r with entry := some msg }).post r msg

def receive (s : State) (r : Role) (d : String) (msg : Message) : State :=
  let m := (s.side r).manager
  let m' := m.handleMsg d msg
  { s.setSide r { s.side r with manager := m' } with
    disturbed := s.disturbed || decide (Foreign m d msg ∧ m' ≠ m) }

end State

variable {p : Pair}

def step (p : Pair) (s : State) : Event → Option State
  | .start r => some (s.publish r (.string "START"))
  | .republish r => (s.side r).entry.map (s.post r)
  | .deliver r =>
    match (s.side r).inbox with
    | [] => none
    | msg :: rest =>
      some ((s.setSide r { s.side r with inbox := rest }).receive r
        (p.client (Role.other r)).id msg)
  | .other r d msg =>
    if d.id = (p.client .src).id ∨ d.id = (p.client .sink).id then none
    else some (s.receive r d.id msg)
  | .signal r w =>
    ((s.side r).manager.signal w).map fun result =>
      result.2.foldl (·.publish r ·) (s.setSide r { s.side r with manager := result.1 })

def initial (p : Pair) : State where
  src := { manager := { role := .src, streamId := p.streamId .src } }
  sink := { manager := { role := .sink, streamId := p.streamId .sink } }

def machine (p : Pair) : Machine State Event := ⟨initial p, step p⟩

structure Settled (s : State) : Prop where
  delivered : ∀ r, (s.side r).inbox = []
  negotiated : ∀ r, ∀ h ∈ (s.side r).manager.stream.webrtcHandle,
    h.started = true → h.state ≠ .idle

def Paired (p : Pair) (s : State) : Prop :=
  ∀ r, (s.side r).manager.peerAittId = (p.client (Role.other r)).id

def Applied (receiver sender : StreamManager) : Prop :=
  sender.stream.iceCandidates ≠ [] → ∃ h, receiver.stream.webrtcHandle = some h ∧
    sender.stream.localDescription ∈ h.remoteDescriptions ∧
    sender.stream.iceCandidates ⊆ h.candidates

structure Sound (p : Pair) (s : State) : Prop where
  undisturbed : s.disturbed = false
  applied : Settled s → Paired p s → (∀ r, (s.side r).manager.stream.isPlayingState = false) →
    ∀ r, Applied (s.side r).manager (s.side (Role.other r)).manager

def Live (p : Pair) (s : State) : Prop :=
  Paired p s ∧ ∀ r, (s.side r).manager.stream.isPlayingState = false

def Addressed (m : StreamManager) (d : String) (msg : Message) : Prop :=
  m.peerAittId = "" ∨ m.peerAittId = d →
    ∀ i ∈ msg.streamInfo, i.peerId = "" ∨ i.peerId = m.stream.id

/-- At the source, stream information from the peer is for this stream; what the sink publishes
once it knows the source has only candidates that are applied already; and when the library
starts negotiating, stream information from before that is still on its way. -/
def Ok (p : Pair) (s : State) : Event → Prop
  | .deliver .src => ∀ msg ∈ s.src.inbox.head?, Addressed s.src.manager (p.client .sink).id msg ∧
      (Live p s → ∀ i ∈ msg.streamInfo, i.peerId = s.src.manager.stream.id →
        i.iceCandidates ⊆ s.src.manager.stream.storedPeerIceCandidates)
  | .other .src d msg => Addressed s.src.manager d.id msg
  | .signal .src .negotiate =>
      Live p s → ∃ msg ∈ s.src.inbox, ∃ i ∈ msg.streamInfo, i.peerId = ""
  | _ => True

instance decidableForallRole {P : Role → Prop} [∀ r, Decidable (P r)] : Decidable (∀ r, P r) :=
  decidable_of_iff (P .src ∧ P .sink)
    ⟨fun h => Role.rec h.1 h.2, fun h => ⟨h .src, h .sink⟩⟩

instance (p : Pair) (s : State) : Decidable (Live p s) :=
  inferInstanceAs (Decidable ((∀ _, _) ∧ ∀ _, _))

instance (m : StreamManager) (d : String) (msg : Message) : Decidable (Addressed m d msg) :=
  inferInstanceAs (Decidable (_ ∨ _ → ∀ _ ∈ _, _))

instance (p : Pair) (s : State) (e : Event) : Decidable (Ok p s e) :=
  match e with
  | .deliver .src => inferInstanceAs (Decidable (∀ _ ∈ _, _ ∧ (_ → ∀ _ ∈ _, _)))
  | .other .src d msg => inferInstanceAs (Decidable (Addressed s.src.manager d.id msg))
  | .signal .src .negotiate => inferInstanceAs (Decidable (_ → ∃ _ ∈ _, ∃ _ ∈ _, _))
  | .deliver .sink | .other .sink _ _ | .signal .sink _ | .start _ | .republish _
  | .signal .src .play | .signal .src (.describe _) | .signal .src (.candidate _) => isTrue trivial

variable {m n : StreamManager} {d : String} {msg : Message} {w : Signal}

structure Sent (m : StreamManager) (i : StreamInfo) : Prop where
  id : i.id = m.streamId
  sdp : i.sdp = m.stream.localDescription
  described : m.stream.localDescription ≠ ""
  candidates : i.iceCandidates ⊆ m.stream.iceCandidates

structure Outbox (m : StreamManager) (inbox : List Message) (entry : Option Message) : Prop where
  sent : ∀ msg ∈ inbox ++ entry.toList, msg = .string "START" ∨ ∃ i, msg = i.message ∧ Sent m i
  latest : ∀ msg ∈ entry, ∀ i ∈ msg.streamInfo, i.iceCandidates = m.stream.iceCandidates
  growing : inbox.Pairwise fun a b => ∀ i ∈ a.streamInfo, ∀ j ∈ b.streamInfo,
    i.iceCandidates ⊆ j.iceCandidates

variable {inbox rest : List Message} {entry : Option Message}

theorem Outbox.info (h : Outbox m inbox entry) {i : StreamInfo}
    (hm : msg ∈ inbox ++ entry.toList) (hi : msg.streamInfo = some i) : Sent m i := by
  rcases h.sent msg hm with rfl | ⟨j, rfl, hj⟩
  · cases hi
  · cases hi
    exact hj

theorem Outbox.not_stop (h : Outbox m inbox entry) (hm : msg ∈ inbox ++ entry.toList) :
    msg ≠ .string "STOP" := by
  rintro rfl
  rcases h.sent _ hm with he | ⟨i, he, -⟩
  · exact absurd he (by decide)
  · cases he

theorem Outbox.pop (h : Outbox m (msg :: rest) entry) : Outbox m rest entry where
  sent a ha := h.sent a (List.mem_cons_of_mem _ ha)
  latest := h.latest
  growing := (List.pairwise_cons.mp h.growing).2

theorem Outbox.framed (h : Outbox m inbox entry) (hf : Framed m n) : Outbox n inbox entry where
  sent a ha := (h.sent a ha).imp_right fun ⟨i, he, hi⟩ => ⟨i, he, hi.id.trans hf.streamId.symm,
    hi.sdp.trans hf.localDescription.symm, hf.localDescription ▸ hi.described,
    hf.iceCandidates ▸ hi.candidates⟩
  latest := hf.iceCandidates ▸ h.latest
  growing := h.growing

/-- One more message, with all candidates if it has any. -/
theorem Outbox.post (h : Outbox m inbox entry) (hmn : ∀ i, Sent m i → Sent n i)
    (hm : msg = .string "START" ∨ ∃ i, msg = i.message ∧ Sent n i)
    (hl : ∀ i ∈ msg.streamInfo, i.iceCandidates = n.stream.iceCandidates) :
    Outbox n (inbox ++ [msg]) (some msg) where
  sent a ha := by
    simp only [Option.toList_some, List.append_assoc, List.mem_append, List.mem_singleton,
      or_self] at ha
    rcases ha with ha | rfl
    · refine (h.sent a (List.mem_append_left _ ha)).imp_right ?_
      rintro ⟨i, he, hi⟩
      exact ⟨i, he, hmn i hi⟩
    · exact hm
  latest a ha := by
    cases ha
    exact hl
  growing := by
    refine List.pairwise_append.mpr ⟨h.growing, List.pairwise_singleton _ _, ?_⟩
    intro a ha b hb i hi j hj
    obtain rfl := List.mem_singleton.mp hb
    rw [hl j hj]
    exact (hmn i (h.info (List.mem_append_left _ ha) hi)).candidates

theorem Outbox.start (h : Outbox m inbox entry) :
    Outbox m (inbox ++ [.string "START"]) (some (.string "START")) :=
  h.post (fun _ => id) (.inl rfl) nofun

theorem Outbox.republish (h : Outbox m inbox (some msg)) :
    Outbox m (inbox ++ [msg]) (some msg) :=
  h.post (fun _ => id) (h.sent msg (by simp)) (h.latest msg rfl)

theorem Outbox.describe (h : Outbox m inbox entry) (hn : m.stream.localDescription = "")
    {stream : Stream} (hi : stream.iceCandidates = m.stream.iceCandidates) :
    Outbox { m with stream := stream } inbox entry where
  sent a ha := (h.sent a ha).imp_right fun ⟨_, _, hs⟩ => absurd hn hs.described
  latest := hi ▸ h.latest
  growing := h.growing

theorem Outbox.candidate (h : Outbox m inbox entry) (hl : Local m)
    (hd : m.stream.localDescription ≠ "") {c : String}
    (hn : n = { m with
      stream := { m.stream with iceCandidates := m.stream.iceCandidates ++ [c] } }) :
    Outbox n (inbox ++ [n.getDiscoveryMessage]) (some n.getDiscoveryMessage) := by
  have hp : m.peerAittId ≠ "" := fun he => hd (by rw [hl.fresh he])
  subst hn
  refine h.post (fun i hi => ⟨hi.id, hi.sdp, hi.described, ?_⟩) (.inr ⟨_, rfl, ?_⟩) ?_
  · exact List.subset_append_of_subset_left _ hi.candidates
  · exact ⟨hl.id hp, rfl, hd, List.Subset.refl _⟩
  · rintro _ ⟨⟩
    rfl

def Carried (inbox : List Message) (c : String) : Prop :=
  ∃ msg ∈ inbox, ∃ i ∈ msg.streamInfo, c ∈ i.iceCandidates

/-- What the source `m` has of the sink `n`. -/
structure SrcHears (p : Pair) (m n : StreamManager) (inbox : List Message) : Prop where
  known : m.peerAittId = (p.client .sink).id →
    m.stream.peerId = n.streamId ∧ n.stream.localDescription ≠ "" ∧ m.stream.webrtcHandle ≠ none
  behind : m.peerAittId = (p.client .sink).id → ∀ c ∈ m.stream.peerIceCandidates,
    c ∈ n.stream.iceCandidates ∧
      ∀ msg ∈ inbox, ∀ i ∈ msg.streamInfo, c ∈ i.iceCandidates
  described : m.peerAittId = (p.client .sink).id → m.stream.state ≠ some .playing →
    m.stream.state = some .idle ∧ m.stream.remoteDescription = n.stream.localDescription ∨
      Remote m.stream n.stream.localDescription
  covered : m.peerAittId = "" ∨ m.peerAittId = (p.client .sink).id →
    n.peerAittId = (p.client .src).id → m.stream.state ≠ some .playing →
    n.stream.state ≠ some .playing → ∀ c ∈ n.stream.iceCandidates,
      c ∈ m.stream.storedPeerIceCandidates ∨
      m.stream.state = some .idle ∧ c ∈ m.stream.peerIceCandidates ∨ Carried inbox c

/-- What the sink `n` has of the source `m`. -/
structure SinkHears (p : Pair) (m n : StreamManager) (inbox : List Message)
    (entry : Option Message) : Prop where
  peerIds : ∀ msg ∈ inbox ++ entry.toList, ∀ i ∈ msg.streamInfo, i.peerId = m.stream.peerId
  alive : n.peerAittId = (p.client .src).id → n.stream.webrtcHandle ≠ none
  peered : n.peerAittId = (p.client .src).id → n.stream.peerId ≠ "" →
    m.stream.localDescription ≠ ""
  unpeered : n.peerAittId = (p.client .src).id → n.stream.peerId = "" →
    n.stream.storedPeerIceCandidates = []
  described : m.peerAittId = (p.client .sink).id → n.peerAittId = (p.client .src).id →
    n.stream.state ≠ some .playing → n.stream.peerId ≠ "" →
    Remote n.stream m.stream.localDescription
  covered : m.peerAittId = (p.client .sink).id → n.peerAittId = (p.client .src).id →
    n.stream.state ≠ some .playing → ∀ c ∈ m.stream.iceCandidates,
      c ∈ n.stream.storedPeerIceCandidates ∨ Carried inbox c

variable {m' n' : StreamManager}

theorem carried_cons {c : String} (h : Carried (msg :: rest) c) :
    (∃ i ∈ msg.streamInfo, c ∈ i.iceCandidates) ∨ Carried rest c := by
  obtain ⟨a, ha, i, hi, hc⟩ := h
  rcases List.mem_cons.mp ha with rfl | ha
  · exact .inl ⟨i, hi, hc⟩
  · exact .inr ⟨a, ha, i, hi, hc⟩

theorem Carried.snoc {c : String} (h : Carried inbox c) (msg : Message) :
    Carried (inbox ++ [msg]) c := by
  obtain ⟨a, ha, i, hi, hc⟩ := h
  exact ⟨a, List.mem_append_left _ ha, i, hi, hc⟩

/-- A source with another peer has nothing to do with the sink. -/
theorem SrcHears.other (hp : m.peerAittId ≠ "") (hs : m.peerAittId ≠ (p.client .sink).id) :
    SrcHears p m n inbox where
  known h := absurd h hs
  behind h := absurd h hs
  described h := absurd h hs
  covered h := absurd h (not_or.mpr ⟨hp, hs⟩)

/-- The sink takes a message or changes its state. -/
theorem SrcHears.sinkMoves (h : SrcHears p m n inbox) (hl : Local n) (hf : Framed n n')
    (hp : n'.peerAittId = (p.client .src).id → n.peerAittId ≠ "" →
      n.peerAittId = (p.client .src).id ∧
        (n'.stream.state ≠ some .playing → n.stream.state ≠ some .playing)) :
    SrcHears p m n' inbox where
  known := by
    rw [hf.streamId, hf.localDescription]
    exact h.known
  behind := by
    rw [hf.iceCandidates]
    exact h.behind
  described := by
    rw [hf.localDescription]
    exact h.described
  covered hm hn hplay hplay' c hc := by
    rw [hf.iceCandidates] at hc
    by_cases hne : n.peerAittId = ""
    · rw [hl.fresh hne] at hc
      cases hc
    · exact h.covered hm (hp hn hne).1 hplay ((hp hn hne).2 hplay') c hc

/-- The source takes a message or changes its state. -/
theorem SinkHears.srcMoves (h : SinkHears p m n inbox entry) (hl : Local m)
    (ho : Outbox m inbox entry) (hf : Framed m m')
    (hp : m.peerAittId ≠ "" → m'.peerAittId = m.peerAittId ∧ m'.stream.peerId = m.stream.peerId) :
    SinkHears p m' n inbox entry where
  peerIds a ha i hi := by
    have hd := (ho.info ha hi).described
    have hne : m.peerAittId ≠ "" := fun he => hd (by rw [hl.fresh he])
    rw [(hp hne).2]
    exact h.peerIds a ha i hi
  alive := h.alive
  peered := by
    rw [hf.localDescription]
    exact h.peered
  unpeered := h.unpeered
  described hm hn hplay hpeer := by
    rw [hf.localDescription]
    have hd := h.peered hn hpeer
    have hne : m.peerAittId ≠ "" := fun he => hd (by rw [hl.fresh he])
    exact h.described ((hp hne).1 ▸ hm) hn hplay hpeer
  covered hm hn hplay c hc := by
    rw [hf.iceCandidates] at hc
    have hne : m.peerAittId ≠ "" := by
      intro he
      rw [hl.fresh he] at hc
      cases hc
    exact h.covered ((hp hne).1 ▸ hm) hn hplay c hc

/-- The first stream information from the sink makes it the peer of the source. -/
theorem SrcHears.first (h : SrcHears p m n (msg :: rest)) (hl : Local m)
    (ho : Outbox n (msg :: rest) entry) {i : StreamInfo} (hi : msg.streamInfo = some i)
    (hp : m.peerAittId = "")
    (ht : Taken ((m.stream.start.setStreamId m.streamId).setPeerId i.id) m'.stream i.sdp
      i.iceCandidates) : SrcHears p m' n rest := by
  have hsent := ho.info (List.mem_append_left _ List.mem_cons_self) hi
  have hgrow := (List.pairwise_cons.mp ho.growing).1
  have hfresh := hl.fresh hp
  rw [hfresh] at ht
  have hstate : m'.stream.state = some .idle := ht.state
  refine ⟨fun _ => ⟨ht.peerId.trans hsent.id, hsent.described, ht.handle_none.not.mpr nofun⟩,
    fun _ c hc => ?_, fun _ _ => .inl ⟨hstate, (ht.kept nofun).trans hsent.sdp⟩,
    fun _ hn _ hplay c hc => ?_⟩
  · rw [ht.waiting] at hc
    exact ⟨hsent.candidates hc, fun a ha j hj => hgrow a ha i hi j hj hc⟩
  · have hold := h.covered (.inl hp) hn (by rw [hfresh]; nofun) hplay c hc
    rw [hfresh] at hold
    rcases hold with hc | ⟨-, hc⟩ | hc
    · cases hc
    · cases hc
    · rcases carried_cons hc with ⟨j, hj, hc⟩ | hc
      · cases hi.symm.trans hj
        exact .inr (.inl ⟨hstate, by rw [ht.waiting]; exact hc⟩)
      · exact .inr (.inr hc)

theorem SrcHears.update (h : SrcHears p m n (msg :: rest))
    (ho : Outbox n (msg :: rest) entry) {i : StreamInfo} (hi : msg.streamInfo = some i)
    (hp : m.peerAittId = (p.client .sink).id) (hplay : m.stream.state ≠ some .playing)
    (ht : Taken m.stream m'.stream m.stream.remoteDescription i.iceCandidates) :
    SrcHears p m' n rest := by
  obtain ⟨hpeer, hdesc, halive⟩ := h.known hp
  have hsent := ho.info (List.mem_append_left _ List.mem_cons_self) hi
  have hgrow := (List.pairwise_cons.mp ho.growing).1
  refine ⟨fun _ => ⟨ht.peerId.trans hpeer, hdesc, ht.handle_none.not.mpr halive⟩, fun _ c hc => ?_,
    fun _ _ => ?_, fun _ hn _ hplay' c hc => ?_⟩
  · rw [ht.waiting] at hc
    exact ⟨hsent.candidates hc, fun a ha j hj => hgrow a ha i hi j hj hc⟩
  · rcases h.described hp hplay with ⟨hs, hr⟩ | hr
    · exact .inl ⟨ht.state.trans hs, (ht.kept (by rw [hs]; nofun)).trans hr⟩
    · exact .inr (ht.earlier _ hr)
  · have htaken : c ∈ i.iceCandidates → c ∈ m'.stream.storedPeerIceCandidates ∨
        m'.stream.state = some .idle ∧ c ∈ m'.stream.peerIceCandidates ∨ Carried rest c := by
      intro hc
      rcases state_cases halive hplay with hs | hs
      · exact .inr (.inl ⟨ht.state.trans hs, by rw [ht.waiting]; exact hc⟩)
      · exact .inl ((ht.stored c).mpr (.inr ⟨hs, hc⟩))
    rcases h.covered (.inr hp) hn hplay hplay' c hc with hc | ⟨-, hc⟩ | hc
    · exact .inl ((ht.stored c).mpr (.inl hc))
    · exact htaken ((h.behind hp c hc).2 msg List.mem_cons_self i hi)
    · rcases carried_cons hc with ⟨j, hj, hc⟩ | hc
      · cases hi.symm.trans hj
        exact htaken hc
      · exact .inr (.inr hc)

/-- The source takes the next message of the sink. -/
theorem SrcHears.deliver (h : SrcHears p m n (msg :: rest)) (hl : Local m) (hr : m.role = .src)
    (ho : Outbox n (msg :: rest) entry)
    (hok : m.peerAittId = (p.client .sink).id → n.peerAittId = (p.client .src).id →
      m.stream.state ≠ some .playing → n.stream.state ≠ some .playing →
      ∀ i ∈ msg.streamInfo, i.peerId = m.stream.id →
        i.iceCandidates ⊆ m.stream.storedPeerIceCandidates)
    (hm : Handled m (p.client .sink).id msg m') : SrcHears p m' n rest := by
  cases hm with
  | ignored src sink =>
    refine ⟨h.known, fun hp c hc => ⟨(h.behind hp c hc).1,
      fun a ha => (h.behind hp c hc).2 a (List.mem_cons_of_mem _ ha)⟩, h.described,
      fun hp hn hplay hplay' c hc => ?_⟩
    rcases h.covered hp hn hplay hplay' c hc with hc | hc | hc
    · exact .inl hc
    · exact .inr (.inl hc)
    · rcases carried_cons hc with ⟨i, hi, hc⟩ | hc
      · obtain ⟨hne, hid⟩ := src hr i hi
        have hp := hp.resolve_left hne
        exact .inl (hok hp hn hplay hplay' i hi (hid hp) hc)
      · exact .inr (.inr hc)
  | destroyed stop =>
    exact absurd stop (ho.not_stop (List.mem_append_left _ List.mem_cons_self))
  | srcFirst _ info peer => exact h.first hl ho info peer (taken_addPeerInformation _ _ _)
  | @srcUpdate i _ info _ peer =>
    by_cases hplay : m.stream.state = some .playing
    · obtain ⟨hpeer, hdesc, halive⟩ := h.known peer
      rw [updatePeerInformation_playing hplay]
      exact ⟨fun _ => ⟨hpeer, hdesc, halive⟩, fun _ => nofun, fun _ hn => absurd hplay hn,
        fun _ _ hn => absurd hplay hn⟩
    · exact h.update ho info peer hplay (taken_updatePeerInformation hplay i.iceCandidates)
  | sinkStart role | sinkFirst role | sinkUpdate role => cases hr.symm.trans role

/-- A message of another client leaves the source as it is or with another peer. -/
theorem SrcHears.otherHandled (h : SrcHears p m n inbox) (hd : d ≠ "")
    (hs : d ≠ (p.client .sink).id) (hr : m.role = .src) (hm : Handled m d msg m') :
    SrcHears p m' n inbox := by
  cases hm with
  | ignored => exact h
  | destroyed _ peer => exact .other (peer ▸ hd) (peer ▸ hs)
  | srcFirst => exact .other hd hs
  | srcUpdate _ _ _ peer => exact .other (peer ▸ hd) (peer ▸ hs)
  | sinkStart role | sinkFirst role | sinkUpdate role => cases hr.symm.trans role

/-- A sink that is known to the source is negotiating. -/
theorem SinkHears.ready (h : SinkHears p m n inbox entry) (hl : Local n)
    (hs : SrcHears p m n rest) (hm : m.peerAittId = (p.client .sink).id)
    (hn : n.peerAittId = (p.client .src).id) (hp : n.stream.state ≠ some .playing) :
    n.stream.state = some .negotiating :=
  (state_cases (h.alive hn) hp).resolve_left fun hidle => (hs.known hm).2.1 (hl.idle hidle)

theorem SinkHears.stored (h : SinkHears p m n (msg :: rest) entry)
    {i : StreamInfo} (hi : msg.streamInfo = some i)
    (hs : ∀ c, c ∈ n'.stream.storedPeerIceCandidates ↔
      c ∈ n.stream.storedPeerIceCandidates ∨ c ∈ i.iceCandidates)
    (hm : m.peerAittId = (p.client .sink).id) (hn : n.peerAittId = (p.client .src).id)
    (hp : n.stream.state ≠ some .playing) {c : String} (hc : c ∈ m.stream.iceCandidates) :
    c ∈ n'.stream.storedPeerIceCandidates ∨ Carried rest c := by
  rcases h.covered hm hn hp c hc with hc | hc
  · exact .inl ((hs c).mpr (.inl hc))
  · rcases carried_cons hc with ⟨j, hj, hc⟩ | hc
    · cases hi.symm.trans hj
      exact .inl ((hs c).mpr (.inr hc))
    · exact .inr hc

/-- The first stream information from the source is applied, as the sink is negotiating. -/
theorem SinkHears.first (h : SinkHears p m n (msg :: rest) entry) (hl : Local n)
    (hs : SrcHears p m n inbox) (ho : Outbox m (msg :: rest) entry) {i : StreamInfo}
    (hi : msg.streamInfo = some i) (hid : m.streamId ≠ "")
    (hn : n.peerAittId = (p.client .src).id)
    (ht : Taken (n.stream.setPeerId i.id) n'.stream i.sdp i.iceCandidates) :
    SinkHears p m n' rest entry := by
  have hsent := ho.info (List.mem_append_left _ List.mem_cons_self) hi
  have hplay : n'.stream.state = n.stream.state := ht.state
  refine
    { peerIds := fun a ha => h.peerIds a (List.mem_cons_of_mem _ ha)
      alive := fun _ => ht.handle_none.not.mpr (h.alive hn)
      peered := fun _ _ => hsent.described
      unpeered := fun _ he => absurd (ht.peerId.symm.trans he) (hsent.id ▸ hid)
      described := fun hm _ hp _ => ?_
      covered := fun hm _ hp c hc => ?_ }
  · rw [hplay] at hp
    rw [← hsent.sdp]
    exact ht.applied (h.ready hl hs hm hn hp) (hsent.sdp ▸ hsent.described)
  · rw [hplay] at hp
    exact h.stored hi (ht.stored_of_negotiating (h.ready hl hs hm hn hp)) hm hn hp hc

theorem SinkHears.update (h : SinkHears p m n (msg :: rest) entry) (hl : Local n)
    (hs : SrcHears p m n inbox) {i : StreamInfo} (hi : msg.streamInfo = some i)
    (hn : n.peerAittId = (p.client .src).id) (hpeer : n.stream.peerId ≠ "")
    (ht : Taken n.stream n'.stream n.stream.remoteDescription i.iceCandidates) :
    SinkHears p m n' rest entry := by
  refine
    { peerIds := fun a ha => h.peerIds a (List.mem_cons_of_mem _ ha)
      alive := fun _ => ht.handle_none.not.mpr (h.alive hn)
      peered := fun _ _ => h.peered hn hpeer
      unpeered := fun _ he => absurd (ht.peerId.symm.trans he) hpeer
      described := fun hm _ hp _ => ?_
      covered := fun hm _ hp c hc => ?_ }
  · rw [ht.state] at hp
    exact ht.earlier _ (h.described hm hn hp hpeer)
  · rw [ht.state] at hp
    exact h.stored hi (ht.stored_of_negotiating (h.ready hl hs hm hn hp)) hm hn hp hc

/-- The sink takes the next message of the source. -/
theorem SinkHears.deliver (h : SinkHears p m n (msg :: rest) entry) (hl : Local n)
    (hs : SrcHears p m n inbox) (ho : Outbox m (msg :: rest) entry) (hr : n.role = .sink)
    (hid : m.streamId ≠ "") (hm : Handled n (p.client .src).id msg n') :
    SinkHears p m n' rest entry := by
  cases hm with
  | ignored src sink =>
    refine { h with
      peerIds := fun a ha => h.peerIds a (List.mem_cons_of_mem _ ha)
      covered := fun hm hn hp c hc => ?_ }
    rcases h.covered hm hn hp c hc with hc | hc
    · exact .inl hc
    · rcases carried_cons hc with ⟨i, hi, -⟩ | hc
      · have hne : n.peerAittId ≠ "" := hn ▸ (p.client .src).nonempty
        have hpeer : i.peerId = n.stream.id := by
          rw [h.peerIds msg List.mem_cons_self i hi, (hs.known hm).1, hl.id hne]
        exact absurd hpeer (sink hr i hi hn)
      · exact .inr hc
  | destroyed stop =>
    exact absurd stop (ho.not_stop (List.mem_append_left _ List.mem_cons_self))
  | sinkStart _ _ peer =>
    have hfresh := hl.fresh peer
    have hstream : (n.sinkAddStream (p.client .src).id).stream =
      ({} : Stream).start.setStreamId n.streamId := by rw [StreamManager.sinkAddStream, hfresh]
    refine
      { peerIds := fun a ha => h.peerIds a (List.mem_cons_of_mem _ ha)
        alive := fun _ => ?_
        peered := fun _ hp => ?_
        unpeered := fun _ _ => ?_
        described := fun hm => ?_
        covered := fun hm => ?_ }
    · rw [hstream]
      exact Option.some_ne_none _
    · rw [hstream] at hp
      exact absurd rfl hp
    · rw [hstream]
      rfl
    · exact absurd (by rw [hfresh]) (hs.known hm).2.1
    · exact absurd (by rw [hfresh]) (hs.known hm).2.1
  | sinkFirst _ info peer _ first =>
    exact h.first hl hs ho info hid peer (taken_addPeerInformation _ _ _)
  | @sinkUpdate i _ info peer _ later =>
    by_cases hplay : n.stream.state = some .playing
    · rw [updatePeerInformation_playing hplay]
      exact
        { peerIds := fun a ha => h.peerIds a (List.mem_cons_of_mem _ ha)
          alive := h.alive
          peered := h.peered
          unpeered := fun _ _ => rfl
          described := fun _ _ hp => absurd hplay hp
          covered := fun _ _ hp => absurd hplay hp }
    · exact h.update hl hs info peer later (taken_updatePeerInformation hplay i.iceCandidates)
  | srcFirst role | srcUpdate role => cases hr.symm.trans role

/-- A sink with another peer has nothing to do with the source. -/
theorem SinkHears.other (h : SinkHears p m n inbox entry)
    (hn : n'.peerAittId ≠ (p.client .src).id) : SinkHears p m n' inbox entry where
  peerIds := h.peerIds
  alive he := absurd he hn
  peered he := absurd he hn
  unpeered he := absurd he hn
  described _ he := absurd he hn
  covered _ he := absurd he hn

theorem SinkHears.otherHandled (h : SinkHears p m n inbox entry)
    (hs : d ≠ (p.client .src).id) (hr : n.role = .sink) (hm : Handled n d msg n') :
    SinkHears p m n' inbox entry := by
  cases hm with
  | ignored => exact h
  | destroyed _ peer => exact h.other (peer ▸ hs)
  | sinkStart => exact h.other hs
  | sinkFirst _ _ peer | sinkUpdate _ _ peer => exact h.other (peer ▸ hs)
  | srcFirst role | srcUpdate role => cases hr.symm.trans role

/-- The library of the source changes its state. At `NEGOTIATING` the SDP of the sink is applied
and its candidates are left to a message that is still on its way. -/
theorem SrcHears.srcSignalled (h : SrcHears p m n inbox) (hl : Local m) {stream : Stream}
    (hok : w = .negotiate → m.peerAittId = (p.client .sink).id →
      n.peerAittId = (p.client .src).id → m.stream.state ≠ some .playing →
      n.stream.state ≠ some .playing →
      ∃ msg ∈ inbox, ∃ i ∈ msg.streamInfo, i.peerId = "")
    (hs : Signalled m.stream w stream) : SrcHears p { m with stream := stream } n inbox := by
  have hne := hl.peer_of_signalled hs
  cases hs with
  | @negotiate g g' handle started idle described =>
    have hidle : m.stream.state = some .idle := by rw [Stream.state, handle, Option.map_some, idle]
    refine ⟨fun hp => ⟨(h.known hp).1, (h.known hp).2.1, Option.some_ne_none _⟩, h.behind,
      fun hp _ => .inr ?_, fun hp hn _ hplay c hc => ?_⟩
    · rcases h.described hp (by rw [hidle]; simp) with ⟨-, hr⟩ | ⟨f, hf, hr⟩
      · exact ⟨g', rfl, hr ▸ described.remote (by rw [hr]; exact (h.known hp).2.1)⟩
      · cases handle.symm.trans hf
        exact ⟨g', rfl, described.earlier hr⟩
    · have hp : m.peerAittId = (p.client .sink).id := hp.resolve_left hne
      rcases h.covered (.inr hp) hn (by rw [hidle]; simp) hplay c hc with hc | ⟨-, hc⟩ | hc
      · exact .inl hc
      · obtain ⟨a, ha, i, hi, -⟩ := hok rfl hp hn (by rw [hidle]; simp) hplay
        exact .inr (.inr ⟨a, ha, i, hi, (h.behind hp c hc).2 a ha i hi⟩)
      · exact .inr (.inr hc)
  | play handle negotiating =>
    exact ⟨fun hp => ⟨(h.known hp).1, (h.known hp).2.1, Option.some_ne_none _⟩, h.behind,
      fun _ hplay => absurd rfl hplay, fun _ _ hplay => absurd rfl hplay⟩
  | describe | candidate => exact ⟨h.known, h.behind, h.described, h.covered⟩

/-- The library of the sink changes its state. -/
theorem SinkHears.sinkSignalled (h : SinkHears p m n inbox entry) (hl : Local n)
    (hs : SrcHears p m n rest) {stream : Stream} (hw : Signalled n.stream w stream) :
    SinkHears p m { n with stream := stream } inbox entry := by
  cases hw with
  | @negotiate g g' handle started idle described =>
    have hidle : n.stream.state = some .idle := by rw [Stream.state, handle, Option.map_some, idle]
    exact
      { peerIds := h.peerIds
        alive := fun _ => Option.some_ne_none _
        peered := h.peered
        unpeered := h.unpeered
        described := fun hm => absurd (hl.idle hidle) (hs.known hm).2.1
        covered := fun hm => absurd (hl.idle hidle) (hs.known hm).2.1 }
  | play handle negotiating =>
    exact
      { peerIds := h.peerIds
        alive := fun _ => Option.some_ne_none _
        peered := h.peered
        unpeered := h.unpeered
        described := fun _ _ hplay => absurd rfl hplay
        covered := fun _ _ hplay => absurd rfl hplay }
  | describe | candidate => exact { h with }

/-- More messages of the sink do no harm. -/
theorem SrcHears.post (h : SrcHears p m n inbox)
    (hl : ∀ i ∈ msg.streamInfo, i.iceCandidates = n.stream.iceCandidates) :
    SrcHears p m n (inbox ++ [msg]) where
  known := h.known
  behind hp c hc := by
    refine ⟨(h.behind hp c hc).1, fun a ha i hi => ?_⟩
    rcases List.mem_append.mp ha with ha | ha
    · exact (h.behind hp c hc).2 a ha i hi
    · rw [List.mem_singleton.mp ha] at hi
      rw [hl i hi]
      exact (h.behind hp c hc).1
  described := h.described
  covered hm hn hp hp' c hc := (h.covered hm hn hp hp' c hc).imp_right (.imp_right (.snoc · msg))

theorem SinkHears.post (h : SinkHears p m n inbox entry)
    (hp : ∀ i ∈ msg.streamInfo, i.peerId = m.stream.peerId) :
    SinkHears p m n (inbox ++ [msg]) (some msg) where
  peerIds a ha i hi := by
    simp only [Option.toList_some, List.append_assoc, List.mem_append, List.mem_singleton,
      or_self] at ha
    rcases ha with ha | rfl
    · exact h.peerIds a (List.mem_append_left _ ha) i hi
    · exact hp i hi
  alive := h.alive
  peered := h.peered
  unpeered := h.unpeered
  described := h.described
  covered hm hn hplay c hc := (h.covered hm hn hplay c hc).imp_right (.snoc · msg)

/-- A sink that had no description yet is not known to the source. -/
theorem SrcHears.sinkDescribes (h : SrcHears p m n inbox) (hl : Local n)
    (hn : n.stream.localDescription = "") {stream : Stream}
    (hi : stream.iceCandidates = n.stream.iceCandidates) :
    SrcHears p m { n with stream := stream } inbox where
  known hp := absurd hn (h.known hp).2.1
  behind hp := absurd hn (h.known hp).2.1
  described hp := absurd hn (h.known hp).2.1
  covered _ _ _ _ c hc := by
    rw [show stream.iceCandidates = [] from hi.trans (hl.gathered hn)] at hc
    cases hc

theorem SrcHears.sinkGathers (h : SrcHears p m n inbox) {c : String}
    (hn : n' = { n with
      stream := { n.stream with iceCandidates := n.stream.iceCandidates ++ [c] } }) :
    SrcHears p m n' (inbox ++ [n'.getDiscoveryMessage]) := by
  subst hn
  refine ⟨h.known, fun hp b hb => ?_, h.described, fun hm hn hp hp' b hb => ?_⟩
  · obtain ⟨hice, hall⟩ := h.behind hp b hb
    refine ⟨List.mem_append_left _ hice, fun a ha i hi => ?_⟩
    rcases List.mem_append.mp ha with ha | ha
    · exact hall a ha i hi
    · rw [List.mem_singleton.mp ha] at hi
      cases hi
      exact List.mem_append_left _ hice
  · rcases List.mem_append.mp hb with hold | -
    · exact (h.covered hm hn hp hp' b hold).imp_right (.imp_right (.snoc · _))
    · exact .inr (.inr ⟨_, List.mem_append_right _ List.mem_cons_self, _, rfl, hb⟩)

theorem SinkHears.srcDescribes (h : SinkHears p m n inbox entry) (hl : Local m)
    (hm : m.stream.localDescription = "") {sdp : String} (hsdp : sdp ≠ "") :
    SinkHears p { m with stream := { m.stream with localDescription := sdp } } n inbox entry where
  peerIds := h.peerIds
  alive := h.alive
  peered _ _ := hsdp
  unpeered := h.unpeered
  described _ hn _ hp := absurd hm (h.peered hn hp)
  covered _ _ _ c hc := by
    rw [show _ = [] from hl.gathered hm] at hc
    cases hc

theorem SinkHears.srcGathers (h : SinkHears p m n inbox entry) {c : String}
    (hm : m' = { m with
      stream := { m.stream with iceCandidates := m.stream.iceCandidates ++ [c] } }) :
    SinkHears p m' n (inbox ++ [m'.getDiscoveryMessage]) (some m'.getDiscoveryMessage) := by
  have hpost : SinkHears p m n (inbox ++ [m'.getDiscoveryMessage])
      (some m'.getDiscoveryMessage) := by
    refine h.post ?_
    rw [hm]
    rintro _ ⟨⟩
    rfl
  subst hm
  refine { hpost with
    covered := fun hm hn hp b hb => ?_ }
  rcases List.mem_append.mp hb with hold | -
  · exact hpost.covered hm hn hp b hold
  · exact .inr ⟨_, List.mem_append_right _ List.mem_cons_self, _, rfl, hb⟩

theorem handled_foreign (hm : Handled m d msg m') (hf : Foreign m d msg)
    (ha : m.role = .src → Addressed m d msg) : m' = m := by
  have hnot : m.peerAittId = "" ∨ m.peerAittId = d →
      (∀ i ∈ msg.streamInfo, i.peerId = "" ∨ i.peerId = m.stream.id) → False := by
    intro hp hall
    rcases hf with ⟨hne, hd⟩ | ⟨i, hi, hne, hid⟩
    · exact hp.elim hne fun he => hd he.symm
    · exact (hall i hi).elim hne hid
  have hown : ∀ {i : StreamInfo}, msg.streamInfo = some i → i.peerId = m.stream.id →
      ∀ j ∈ msg.streamInfo, j.peerId = "" ∨ j.peerId = m.stream.id := by
    intro i hi hid j hj
    cases hi.symm.trans hj
    exact .inr hid
  cases hm with
  | ignored => rfl
  | destroyed stop peer => exact (hnot (.inr peer) (by rw [stop]; nofun)).elim
  | srcFirst role _ peer => exact (hnot (.inl peer) (ha role (.inl peer))).elim
  | srcUpdate role _ _ peer => exact (hnot (.inr peer) (ha role (.inr peer))).elim
  | sinkStart _ start peer => exact (hnot (.inl peer) (by rw [start]; nofun)).elim
  | sinkFirst _ info peer own | sinkUpdate _ info peer own =>
    exact (hnot (.inr peer) (hown info own)).elim

structure Invariant (p : Pair) (s : State) : Prop where
  srcRole : s.src.manager.role = .src
  sinkRole : s.sink.manager.role = .sink
  srcId : s.src.manager.streamId = p.streamId .src
  undisturbed : s.disturbed = false
  srcLocal : Local s.src.manager
  sinkLocal : Local s.sink.manager
  srcOutbox : Outbox s.src.manager s.sink.inbox s.src.entry
  sinkOutbox : Outbox s.sink.manager s.src.inbox s.sink.entry
  srcHears : SrcHears p s.src.manager s.sink.manager s.src.inbox
  sinkHears : SinkHears p s.src.manager s.sink.manager s.sink.inbox s.src.entry

theorem local_initial (role : Role) (streamId : String) :
    Local { role := role, streamId := streamId } where
  fresh _ := rfl
  id h := absurd rfl h
  started h := absurd rfl h
  idle _ := rfl
  gathered _ := rfl
  faithful _ _ := List.nil_subset _

theorem outbox_initial (m : StreamManager) : Outbox m [] none := ⟨nofun, nofun, List.Pairwise.nil⟩

theorem invariant_initial (p : Pair) : Invariant p (initial p) where
  srcRole := rfl
  sinkRole := rfl
  srcId := rfl
  undisturbed := rfl
  srcLocal := local_initial _ _
  sinkLocal := local_initial _ _
  srcOutbox := outbox_initial _
  sinkOutbox := outbox_initial _
  srcHears := by
    have hne := (p.client .sink).nonempty
    exact ⟨fun h => absurd h.symm hne, fun h => absurd h.symm hne, fun h => absurd h.symm hne,
      nofun⟩
  sinkHears := by
    have hne := (p.client .src).nonempty
    exact ⟨nofun, fun h => absurd h.symm hne, fun h => absurd h.symm hne,
      fun h => absurd h.symm hne, fun _ h => absurd h.symm hne, fun _ h => absurd h.symm hne⟩

variable {s t : State} {e : Event}

theorem undisturbed_receive (h : s.disturbed = false) {r : Role}
    (ha : (s.side r).manager.role = .src → Addressed (s.side r).manager d msg) :
    (s.receive r d msg).disturbed = false := by
  have hn : ¬ (Foreign (s.side r).manager d msg ∧
      (s.side r).manager.handleMsg d msg ≠ (s.side r).manager) :=
    fun ⟨hf, hne⟩ => hne (handled_foreign (handled_handleMsg _ _ _) hf ha)
  rw [State.receive, h, decide_eq_false hn]
  rfl

/-- The source handles a message. -/
theorem Invariant.srcHandles (h : Invariant p s) (hd : d ≠ "")
    (hm : Handled s.src.manager d msg m') (ho : Outbox s.sink.manager inbox s.sink.entry)
    (hs : SrcHears p m' s.sink.manager inbox) (hu : t.disturbed = false)
    (ht : t = ⟨⟨m', inbox, s.src.entry⟩, s.sink, t.disturbed⟩) : Invariant p t := by
  have hf := framed_handled hm
  rw [hu] at ht
  subst ht
  exact
    { h with
      srcRole := hf.role.trans h.srcRole
      srcId := hf.streamId.trans h.srcId
      undisturbed := rfl
      srcLocal := h.srcLocal.handled hd hm
      srcOutbox := h.srcOutbox.framed hf
      sinkOutbox := ho
      srcHears := hs
      sinkHears := h.sinkHears.srcMoves h.srcLocal h.srcOutbox hf
        fun hp => handled_src_peerId hm h.srcRole hp }

/-- The sink handles a message. -/
theorem Invariant.sinkHandles (h : Invariant p s) (hd : d ≠ "")
    (hm : Handled s.sink.manager d msg n') (ho : Outbox s.src.manager inbox s.src.entry)
    (hstop : msg = .string "STOP" → d ≠ (p.client .src).id)
    (hs : SinkHears p s.src.manager n' inbox s.src.entry) (hu : t.disturbed = false)
    (ht : t = ⟨s.src, ⟨n', inbox, s.sink.entry⟩, t.disturbed⟩) : Invariant p t := by
  have hf := framed_handled hm
  rw [hu] at ht
  subst ht
  refine
    { h with
      sinkRole := hf.role.trans h.sinkRole
      undisturbed := rfl
      sinkLocal := h.sinkLocal.handled hd hm
      srcOutbox := ho
      sinkOutbox := h.sinkOutbox.framed hf
      srcHears := h.srcHears.sinkMoves h.sinkLocal hf fun hn hne => ?_
      sinkHears := hs }
  have hp : s.sink.manager.peerAittId = (p.client .src).id :=
    (handled_peer hm).elim (fun he => he ▸ hn) fun he => absurd he.1 hne
  refine ⟨hp, fun hplay => ?_⟩
  rwa [← handled_state hm fun he hpd => hstop he (hpd.symm.trans hp)]

theorem not_playing {s : Stream} : s.isPlayingState = false ↔ s.state ≠ some .playing := by
  rw [isPlayingState_eq, decide_eq_false_iff_not]

theorem live_of (hm : s.src.manager.peerAittId = (p.client .sink).id)
    (hn : s.sink.manager.peerAittId = (p.client .src).id)
    (hp : s.src.manager.stream.state ≠ some .playing)
    (hp' : s.sink.manager.stream.state ≠ some .playing) : Live p s :=
  ⟨Role.rec hm hn, Role.rec (not_playing.mpr hp) (not_playing.mpr hp')⟩

theorem Invariant.deliver {r : Role} (h : Invariant p s) (ho : Ok p s (.deliver r))
    (hs : step p s (.deliver r) = some t) : Invariant p t := by
  cases r with
  | src =>
    simp only [step] at hs
    split at hs
    next => cases hs
    next msg rest hin =>
      obtain ⟨haddr, hlive⟩ := ho msg (by rw [show s.src.inbox = _ from hin]; rfl)
      have hout : Outbox s.sink.manager (msg :: rest) s.sink.entry := hin ▸ h.sinkOutbox
      have hhears : SrcHears p s.src.manager s.sink.manager (msg :: rest) := hin ▸ h.srcHears
      have hm := handled_handleMsg s.src.manager (p.client .sink).id msg
      obtain rfl := Option.some.inj hs
      refine h.srcHandles (p.client .sink).nonempty hm hout.pop ?_
        (undisturbed_receive h.undisturbed fun _ => haddr) rfl
      exact hhears.deliver h.srcLocal h.srcRole hout
        (fun hm hn hp hp' => hlive (live_of hm hn hp hp')) hm
  | sink =>
    simp only [step] at hs
    split at hs
    next => cases hs
    next msg rest hin =>
      have hout : Outbox s.src.manager (msg :: rest) s.src.entry := hin ▸ h.srcOutbox
      have hhears : SinkHears p s.src.manager s.sink.manager (msg :: rest) s.src.entry :=
        hin ▸ h.sinkHears
      have hm := handled_handleMsg s.sink.manager (p.client .src).id msg
      obtain rfl := Option.some.inj hs
      refine h.sinkHandles (p.client .src).nonempty hm hout.pop
        (fun he => absurd he (hout.not_stop (List.mem_append_left _ List.mem_cons_self))) ?_
        (undisturbed_receive h.undisturbed fun hr => ?_) rfl
      · exact hhears.deliver h.sinkLocal h.srcHears hout h.sinkRole
          (h.srcId ▸ p.nonempty .src) hm
      · cases hr.symm.trans h.sinkRole

theorem Invariant.other {r : Role} {d : Client} (h : Invariant p s)
    (ho : Ok p s (.other r d msg)) (hs : step p s (.other r d msg) = some t) :
    Invariant p t := by
  obtain ⟨hd, hs⟩ := Option.ite_none_left_eq_some.mp hs
  obtain ⟨hsrc, hsink⟩ := not_or.mp hd
  obtain rfl := Option.some.inj hs
  cases r with
  | src =>
    have hm := handled_handleMsg s.src.manager d.id msg
    exact h.srcHandles d.nonempty hm h.sinkOutbox
      (h.srcHears.otherHandled d.nonempty hsink h.srcRole hm)
      (undisturbed_receive h.undisturbed fun _ => ho) rfl
  | sink =>
    have hm := handled_handleMsg s.sink.manager d.id msg
    refine h.sinkHandles d.nonempty hm h.srcOutbox (fun _ => hsrc)
      (h.sinkHears.otherHandled hsrc h.sinkRole hm)
      (undisturbed_receive h.undisturbed fun hr => ?_) rfl
    cases hr.symm.trans h.sinkRole

/-- The library of the source signals. -/
theorem Invariant.srcSignal (h : Invariant p s) (ho : Ok p s (.signal .src w))
    (hs : step p s (.signal .src w) = some t) : Invariant p t := by
  obtain ⟨⟨m', out⟩, hsig, ht⟩ := Option.map_eq_some_iff.mp hs
  obtain ⟨stream, hw, rfl, rfl⟩ := signal_cases hsig
  have hne := h.srcLocal.peer_of_signalled hw
  have hlocal := h.srcLocal.signalled hw
  have hears := h.srcHears.srcSignalled h.srcLocal
    (fun he hm hn hp hp' => by subst he; exact ho (live_of hm hn hp hp')) hw
  subst ht
  cases hw with
  | negotiate | play =>
    exact { h with
      srcLocal := hlocal
      srcOutbox := h.srcOutbox.framed ⟨rfl, rfl, rfl, rfl⟩
      srcHears := hears
      sinkHears := h.sinkHears.srcMoves h.srcLocal h.srcOutbox ⟨rfl, rfl, rfl, rfl⟩
        fun _ => ⟨rfl, rfl⟩ }
  | describe _ none nonempty =>
    exact { h with
      srcLocal := hlocal
      srcOutbox := h.srcOutbox.describe none rfl
      srcHears := hears
      sinkHears := h.sinkHears.srcDescribes h.srcLocal none nonempty }
  | candidate _ described =>
    exact { h with
      srcLocal := hlocal
      srcOutbox := h.srcOutbox.candidate h.srcLocal described rfl
      srcHears := hears
      sinkHears := h.sinkHears.srcGathers rfl }

/-- The library of the sink signals. -/
theorem Invariant.sinkSignal (h : Invariant p s) (hs : step p s (.signal .sink w) = some t) :
    Invariant p t := by
  obtain ⟨⟨n', out⟩, hsig, ht⟩ := Option.map_eq_some_iff.mp hs
  obtain ⟨stream, hw, rfl, rfl⟩ := signal_cases hsig
  have hlocal := h.sinkLocal.signalled hw
  have hears := h.sinkHears.sinkSignalled h.sinkLocal h.srcHears hw
  subst ht
  cases hw with
  | negotiate handle _ state | play handle state =>
    have hplay : s.sink.manager.stream.state ≠ some .playing := by
      rw [Stream.state, show s.sink.manager.stream.webrtcHandle = _ from handle, Option.map_some,
        state]
      simp
    exact { h with
      sinkLocal := hlocal
      sinkOutbox := h.sinkOutbox.framed ⟨rfl, rfl, rfl, rfl⟩
      srcHears := h.srcHears.sinkMoves h.sinkLocal ⟨rfl, rfl, rfl, rfl⟩
        fun hn _ => ⟨hn, fun _ => hplay⟩
      sinkHears := hears }
  | describe _ none =>
    exact { h with
      sinkLocal := hlocal
      sinkOutbox := h.sinkOutbox.describe none rfl
      srcHears := h.srcHears.sinkDescribes h.sinkLocal none rfl
      sinkHears := hears }
  | candidate _ described =>
    exact { h with
      sinkLocal := hlocal
      sinkOutbox := h.sinkOutbox.candidate h.sinkLocal described rfl
      srcHears := h.srcHears.sinkGathers rfl
      sinkHears := hears }

theorem Invariant.step (h : Invariant p s) (ho : Ok p s e) (hs : step p s e = some t) :
    Invariant p t := by
  cases e with
  | start r =>
    obtain rfl := Option.some.inj hs
    cases r with
    | src => exact { h with srcOutbox := h.srcOutbox.start, sinkHears := h.sinkHears.post nofun }
    | sink => exact { h with sinkOutbox := h.sinkOutbox.start, srcHears := h.srcHears.post nofun }
  | republish r =>
    obtain ⟨msg, hentry, rfl⟩ := Option.map_eq_some_iff.mp hs
    cases r with
    | src =>
      have hentry : s.src.entry = some msg := hentry
      have hout : Outbox s.src.manager s.sink.inbox (some msg) := hentry ▸ h.srcOutbox
      have hears : SinkHears p s.src.manager s.sink.manager s.sink.inbox (some msg) :=
        hentry ▸ h.sinkHears
      exact { h with
        srcOutbox := hentry.symm ▸ hout.republish
        sinkHears := hentry.symm ▸ hears.post (hears.peerIds msg (by simp)) }
    | sink =>
      have hentry : s.sink.entry = some msg := hentry
      have hout : Outbox s.sink.manager s.src.inbox (some msg) := hentry ▸ h.sinkOutbox
      exact { h with
        sinkOutbox := hentry.symm ▸ hout.republish
        srcHears := h.srcHears.post (hout.latest msg rfl) }
  | deliver r => exact h.deliver ho hs
  | other r d msg => exact h.other ho hs
  | signal r w =>
    cases r with
    | src => exact h.srcSignal ho hs
    | sink => exact h.sinkSignal hs

theorem invariant_reaches (h : (machine p).Reaches (Ok p) s) : Invariant p s :=
  h.invariant (invariant_initial p) fun _ _ _ _ hi ho hs => hi.step ho hs

theorem Settled.not_carried (h : Settled s) (r : Role) (c : String) :
    ¬ Carried (s.side r).inbox c := by
  rintro ⟨a, ha, -⟩
  rw [h.delivered r] at ha
  cases ha

theorem Invariant.src_applied (h : Invariant p s) (hs : Settled s) (hl : Live p s) :
    Applied s.src.manager s.sink.manager := by
  have hm : s.src.manager.peerAittId = (p.client .sink).id := hl.1 .src
  have hn : s.sink.manager.peerAittId = (p.client .src).id := hl.1 .sink
  have hp := not_playing.mp (hl.2 .src)
  have hp' := not_playing.mp (hl.2 .sink)
  have halive := (h.srcHears.known hm).2.2
  have hidle := h.srcLocal.negotiating (hm ▸ (p.client .sink).nonempty) halive (hs.negotiated .src)
  intro _
  obtain ⟨g, hg, hd⟩ := (h.srcHears.described hm hp).resolve_left fun he => hidle he.1
  refine ⟨g, hg, hd, fun c hc => h.srcLocal.faithful g hg ?_⟩
  rcases h.srcHears.covered (.inr hm) hn hp hp' c hc with hc | hc | hc
  · exact hc
  · exact absurd hc.1 hidle
  · exact absurd hc (hs.not_carried .src c)

theorem Invariant.sink_applied (h : Invariant p s) (hs : Settled s) (hl : Live p s) :
    Applied s.sink.manager s.src.manager := by
  have hm : s.src.manager.peerAittId = (p.client .sink).id := hl.1 .src
  have hn : s.sink.manager.peerAittId = (p.client .src).id := hl.1 .sink
  have hp' := not_playing.mp (hl.2 .sink)
  have hstored : ∀ c ∈ s.src.manager.stream.iceCandidates,
      c ∈ s.sink.manager.stream.storedPeerIceCandidates := by
    intro c hc
    exact (h.sinkHears.covered hm hn hp' c hc).resolve_right (hs.not_carried .sink c)
  intro hne
  obtain ⟨c, hc⟩ := List.exists_mem_of_ne_nil _ hne
  have hpeer : s.sink.manager.stream.peerId ≠ "" := by
    intro he
    have hmem := hstored c hc
    rw [h.sinkHears.unpeered hn he] at hmem
    cases hmem
  obtain ⟨g, hg, hd⟩ := h.sinkHears.described hm hn hp' hpeer
  exact ⟨g, hg, hd, fun b hb => h.sinkLocal.faithful g hg (hstored b hb)⟩

/-- Source and sink apply all that they publish for each other, in every run in which the source
is given no message for which its test is the wrong way round, and a message is left for it when
it starts negotiating. -/
theorem signalling_applies_candidates (h : (machine p).Reaches (Ok p) s) : Sound p s := by
  have hi := invariant_reaches h
  refine ⟨hi.undisturbed, fun hs hp hplay r => ?_⟩
  cases r with
  | src => exact hi.src_applied hs ⟨hp, hplay⟩
  | sink => exact hi.sink_applied hs ⟨hp, hplay⟩

theorem streamId_nonempty (r : Role) :
    (match r with | .src => "s0x1" | .sink => "k0x1") ≠ "" := by cases r <;> decide

def pair : Pair where
  client
    | .src => clientA
    | .sink => clientB
  streamId
    | .src => "s0x1"
    | .sink => "k0x1"
  nonempty := streamId_nonempty

/-- The sink publishes an offer with one candidate and takes the source as its peer. -/
def offered : List Event :=
  [.start .src, .deliver .sink, .signal .sink .negotiate, .signal .sink (.describe "offer"),
    .signal .sink (.candidate "k1"), .deliver .src]

/-- The second candidate arrives when the source is negotiating, then the answer comes back. -/
def answered : List Event :=
  offered ++ [.signal .sink (.candidate "k2"), .signal .src .negotiate, .deliver .src,
    .signal .src (.describe "answer"), .signal .src (.candidate "s1"), .deliver .sink]

def Rests (srcHas sinkHas published : List String) (s : State) : Prop :=
  Live pair s ∧ s.src.inbox = [] ∧ s.sink.inbox = [] ∧
    s.src.manager.stream.webrtcHandle = some ⟨.negotiating, true, ["offer"], srcHas⟩ ∧
    s.sink.manager.stream.webrtcHandle.map (fun h => (h.state, h.candidates)) =
      some (.negotiating, sinkHas) ∧
    s.sink.manager.stream.iceCandidates = published

instance (srcHas sinkHas published : List String) (s : State) :
    Decidable (Rests srcHas sinkHas published s) :=
  inferInstanceAs (Decidable (_ ∧ _ ∧ _ ∧ _ ∧ _ ∧ _))

theorem Rests.settled {srcHas sinkHas published : List String}
    (h : Rests srcHas sinkHas published s) : Settled s := by
  obtain ⟨-, hsrc, hsink, hh, hk, -⟩ := h
  refine ⟨Role.rec hsrc hsink, ?_⟩
  rintro (_ | _) g hg -
  · cases hh.symm.trans hg
    nofun
  · rw [show s.sink.manager.stream.webrtcHandle = some g from hg] at hk
    obtain ⟨hstate, -⟩ := Prod.mk.inj (Option.some.inj hk)
    rw [hstate]
    nofun

theorem signalling_applies_candidates_of_exchange :
    ∃ s, (machine pair).Reaches (Ok pair) s ∧ Rests ["k1", "k2"] ["s1"] ["k1", "k2"] s ∧
      Sound pair s := by
  obtain ⟨s, hr, hp⟩ := (machine pair).exists_reaches (Ok pair) answered
    (fun s => Rests ["k1", "k2"] ["s1"] ["k1", "k2"] s) (by decide)
  exact ⟨s, hr, of_decide_eq_true hp, signalling_applies_candidates hr⟩

theorem Rests.not_sound {srcHas sinkHas published : List String} {c : String}
    (h : Rests srcHas sinkHas published s) (hc : c ∈ published) (hn : c ∉ srcHas) :
    ¬ Sound pair s := by
  intro hs
  obtain ⟨hl, -, -, hh, -, hi⟩ := id h
  have hmem : c ∈ s.sink.manager.stream.iceCandidates := hi ▸ hc
  obtain ⟨g, hg, -, hsub⟩ := hs.applied h.settled hl.1 hl.2 .src (List.ne_nil_of_mem hmem)
  cases hh.symm.trans hg
  exact hn (hsub hmem)

def stranger : Client := ⟨"c", by decide⟩

/-- What the sink publishes once it knows the source is ignored; what arrives before the source
negotiates is not applied; and the source takes stream information that is meant for another
stream, as its first and later. -/
theorem signalling_loses_candidates :
    (∃ s, (machine pair).Reachable s ∧ Rests ["k1", "k2"] ["s1"] ["k1", "k2", "k3"] s ∧
      ¬ Sound pair s) ∧
    (∃ s, (machine pair).Reachable s ∧ Rests [] [] ["k1"] s ∧ ¬ Sound pair s) ∧
    (∃ s, (machine pair).Reachable s ∧ s.src.manager.peerAittId = "c" ∧ ¬ Sound pair s) ∧
    ∃ s, (machine pair).Reachable s ∧ s.src.manager.stream.peerIceCandidates = ["c1", "c2"] ∧
      ¬ Sound pair s := by
  have hdist : ∀ {s : State}, s.disturbed = true → ¬ Sound pair s :=
    fun h hs => Bool.false_ne_true (hs.undisturbed.symm.trans h)
  refine ⟨?_, ?_, ?_, ?_⟩
  · obtain ⟨s, hr, hp⟩ := (machine pair).exists_reachable
      (answered ++ [.signal .sink (.candidate "k3"), .deliver .src])
      (fun s => Rests ["k1", "k2"] ["s1"] ["k1", "k2", "k3"] s) (by decide)
    have h := of_decide_eq_true hp
    exact ⟨s, hr, h, h.not_sound (c := "k3") (by decide) (by decide)⟩
  · obtain ⟨s, hr, hp⟩ := (machine pair).exists_reachable
      (offered ++ [.signal .src .negotiate]) (fun s => Rests [] [] ["k1"] s) (by decide)
    have h := of_decide_eq_true hp
    exact ⟨s, hr, h, h.not_sound (c := "k1") (by decide) (by decide)⟩
  · obtain ⟨s, hr, hp⟩ := (machine pair).exists_reachable
      [.other .src stranger (⟨"c0x1", "d0x1", "offer", ["c1"]⟩ : StreamInfo).message]
      (fun s => s.src.manager.peerAittId = "c" ∧ s.disturbed = true) (by decide)
    have h := of_decide_eq_true hp
    exact ⟨s, hr, h.1, hdist h.2⟩
  · obtain ⟨s, hr, hp⟩ := (machine pair).exists_reachable
      [.other .src stranger (⟨"c0x1", "", "offer", ["c1"]⟩ : StreamInfo).message,
        .other .src stranger (⟨"c0x1", "d0x1", "offer", ["c1", "c2"]⟩ : StreamInfo).message]
      (fun s => s.src.manager.stream.peerIceCandidates = ["c1", "c2"] ∧ s.disturbed = true)
      (by decide)
    have h := of_decide_eq_true hp
    exact ⟨s, hr, h.1, hdist h.2⟩

end WebRtcSignalling
