import Aitt.DiscoveryRouting
import Aitt.RtspModule

/-! The streams of one client and what they leave in its discovery map. The map outlives them:
its entries are stored or replaced, never removed, and every message has the whole map. -/
namespace StreamAdvertisement

open AittTypes Flexbuffers TransitionRuns
open AittDiscovery (emplace)
open DiscoveryRouting (publishDiscoveryMsg mem_publishDiscoveryMsg Ordered mem_emplace
  ordered_emplace)
open RtspModule (Role)

inductive StreamType where
  | webrtc
  | rtsp
  deriving DecidableEq, Repr

structure Stream where
  type : StreamType
  topic : String
  role : Role
  deriving DecidableEq, Repr

/-- The key that the stream gives to `UpdateDiscoveryMsg`; an RTSP subscriber never calls it. -/
def Stream.key (x : Stream) : Option String :=
  match x.type, x.role with
  | .rtsp, .publisher => some x.topic
  | .rtsp, .subscriber => none
  | .webrtc, .publisher => some (x.topic ++ "/SRC")
  | .webrtc, .subscriber => some (x.topic ++ "/SINK")

inductive Transport where
  | mqtt
  | tcp
  | secureTcp
  deriving DecidableEq, Repr

def Transport.key : Transport → String
  | .mqtt => "MQTT"
  | .tcp => "TCP"
  | .secureTcp => "SECURE_TCP"

/-- Streams are numbered in the order of their creation. `writer` records which stream has
stored the entry of a key, and `published` the message of the last step; the code reads
neither. -/
structure State where
  streamsInUse : List (ℕ × Stream) := []
  created : ℕ := 0
  discoveryMap : List (String × Bytes) := []
  connected : Bool := false
  writer : String → Option ℕ := fun _ => none
  published : Option (List (String × Item)) := none

def State.silent (s : State) : State := { s with published := none }

def State.setStreams (s : State) (streams : List (ℕ × Stream)) : State :=
  { s with streamsInUse := streams }

/-- The map changes even when the message cannot be sent. -/
def State.updateDiscoveryMsg [Package] (s : State) (protocol : String) (blob : Bytes)
    (writer : Option ℕ) : State :=
  { s with
    discoveryMap := emplace s.discoveryMap protocol blob
    writer := Function.update s.writer protocol writer
    published :=
      if s.connected then some (publishDiscoveryMsg (emplace s.discoveryMap protocol blob))
      else none }

def State.store [Package] (s : State) (n : ℕ) (x : Stream) (blob : Bytes) : State :=
  match x.key with
  | some key => s.updateDiscoveryMsg key blob (some n)
  | none => s.silent

inductive Event where
  | createStream (x : Stream)
  | start (n : ℕ) (blob : Bytes)
  | stop (n : ℕ) (blob : Bytes)
  | iceCandidate (n : ℕ) (blob : Bytes)
  | destroyStream (n : ℕ)
  | disconnect
  | connect
  | connectionLost
  | subscription (transport : Transport) (blob : Bytes)
  deriving DecidableEq, Repr

def State.find (s : State) (n : ℕ) : Option Stream :=
  (s.streamsInUse.find? (·.1 = n)).map (·.2)

/-- `Stop` of a WebRTC stream is empty. `Disconnect` destroys all streams; the empty messages
that it sends have no entries. -/
def State.step [Package] (s : State) : Event → Option State
  | .createStream x =>
    some { s.silent.setStreams (s.streamsInUse ++ [(s.created, x)]) with
      created := s.created + 1 }
  | .start n blob => (s.find n).map fun x => s.store n x blob
  | .stop n blob => (s.find n).map fun x => if x.type = .rtsp then s.store n x blob else s.silent
  | .iceCandidate n blob =>
    (s.find n).bind fun x => if x.type = .webrtc then some (s.store n x blob) else none
  | .destroyStream n => some (s.silent.setStreams (s.streamsInUse.filter (·.1 ≠ n)))
  | .disconnect => some { s.silent.setStreams [] with connected := false }
  | .connect => some { s.silent with connected := true }
  | .connectionLost => some { s.silent with connected := false }
  | .subscription transport blob => some (s.updateDiscoveryMsg transport.key blob none)

def machine [Package] : Machine State Event where
  initial := {}
  step := State.step

def Owned (streams : List (ℕ × Stream)) (key : String) : Prop :=
  ∃ y ∈ streams, y.2.key = some key

instance (streams : List (ℕ × Stream)) (key : String) : Decidable (Owned streams key) :=
  inferInstanceAs (Decidable (∃ y ∈ streams, _))

/-- The last message has no entry of a destroyed stream, but under the key of another one. -/
def NoOrphans (s : State) : Prop :=
  ∀ msg ∈ s.published, ∀ key blob, (key, Item.blob blob) ∈ msg → ∀ n, s.writer key = some n →
    n ∈ s.streamsInUse.map (·.1) ∨ Owned s.streamsInUse key

/-- Under the key of a stream that is destroyed no stream has stored an entry, or another
stream with that key stays. -/
def Withdrawn (s : State) : Event → Prop
  | .destroyStream n => ∀ y ∈ s.streamsInUse, y.1 = n → ∀ key ∈ y.2.key,
      s.writer key = none ∨ Owned (s.streamsInUse.filter (·.1 ≠ n)) key
  | .disconnect => ∀ y ∈ s.streamsInUse, ∀ key ∈ y.2.key, s.writer key = none
  | _ => True

instance (s : State) (e : Event) : Decidable (Withdrawn s e) := by
  cases e <;> unfold Withdrawn <;> infer_instance

inductive Stepped [Package] (s : State) : Event → State → Prop where
  | created {x} : Stepped s (.createStream x)
      { s.silent.setStreams (s.streamsInUse ++ [(s.created, x)]) with created := s.created + 1 }
  | stored {e n x key blob} (member : (n, x) ∈ s.streamsInUse) (owner : x.key = some key)
      (alive : ∀ n, e ≠ .destroyStream n ∧ e ≠ .disconnect) :
      Stepped s e (s.updateDiscoveryMsg key blob (some n))
  | idle {e connected} (alive : ∀ n, e ≠ .destroyStream n ∧ e ≠ .disconnect) :
      Stepped s e { s.silent with connected := connected }
  | destroyed {n} : Stepped s (.destroyStream n)
      (s.silent.setStreams (s.streamsInUse.filter (·.1 ≠ n)))
  | disconnected : Stepped s .disconnect { s.silent.setStreams [] with connected := false }
  | subscribed {transport blob} : Stepped s (.subscription transport blob)
      (s.updateDiscoveryMsg transport.key blob none)

section Runs

variable [Package] {s t : State} {e : Event} {key : String} {n : ℕ} {x : Stream}

omit [Package] in
theorem mem_of_find (h : s.find n = some x) : (n, x) ∈ s.streamsInUse := by
  obtain ⟨y, hy, rfl⟩ := Option.map_eq_some_iff.mp h
  have hn : y.1 = n := by simpa using List.find?_some hy
  exact hn ▸ List.mem_of_find?_eq_some hy

theorem stepped_store {blob : Bytes} (hm : (n, x) ∈ s.streamsInUse)
    (he : ∀ n, e ≠ .destroyStream n ∧ e ≠ .disconnect) : Stepped s e (s.store n x blob) := by
  unfold State.store
  split
  · exact .stored hm ‹_› he
  · exact .idle he

theorem stepped (h : s.step e = some t) : Stepped s e t := by
  cases e with
  | createStream => cases h; exact .created
  | start n blob =>
    obtain ⟨x, hx, rfl⟩ := Option.map_eq_some_iff.mp h
    exact stepped_store (mem_of_find hx) fun _ => ⟨nofun, nofun⟩
  | stop n blob =>
    obtain ⟨x, hx, rfl⟩ := Option.map_eq_some_iff.mp h
    split
    · exact stepped_store (mem_of_find hx) fun _ => ⟨nofun, nofun⟩
    · exact .idle fun _ => ⟨nofun, nofun⟩
  | iceCandidate n blob =>
    obtain ⟨x, hx, h⟩ := Option.bind_eq_some_iff.mp h
    split at h
    · cases h
      exact stepped_store (mem_of_find hx) fun _ => ⟨nofun, nofun⟩
    · cases h
  | destroyStream => cases h; exact .destroyed
  | disconnect => cases h; exact .disconnected
  | connect | connectionLost => cases h; exact .idle fun _ => ⟨nofun, nofun⟩
  | subscription => cases h; exact .subscribed

structure Recorded (s : State) : Prop where
  ordered : Ordered s.discoveryMap
  stored : ∀ key n, s.writer key = some n → ∃ blob, (key, blob) ∈ s.discoveryMap
  nodup : (s.streamsInUse.map (·.1)).Nodup
  below : ∀ y ∈ s.streamsInUse, y.1 < s.created
  writers : ∀ key n, s.writer key = some n → n < s.created
  owner : ∀ key n, s.writer key = some n → ∀ y ∈ s.streamsInUse, y.1 = n → y.2.key = some key

theorem writer_update {blob : Bytes} {w : Option ℕ} {k : String}
    (h : (s.updateDiscoveryMsg key blob w).writer k = some n) :
    k = key ∧ w = some n ∨ k ≠ key ∧ s.writer k = some n := by
  change Function.update s.writer key w k = some n at h
  by_cases he : k = key
  · subst he
    rw [Function.update_self] at h
    exact .inl ⟨rfl, h⟩
  · rw [Function.update_of_ne he] at h
    exact .inr ⟨he, h⟩

theorem Recorded.update {blob : Bytes} {w : Option ℕ} (h : Recorded s)
    (hw : ∀ n, w = some n → n < s.created ∧ ∀ y ∈ s.streamsInUse, y.1 = n → y.2.key = some key) :
    Recorded (s.updateDiscoveryMsg key blob w) := by
  refine ⟨ordered_emplace h.ordered key blob, ?_, h.nodup, h.below, ?_, ?_⟩
  · intro k n hk
    rcases writer_update hk with ⟨rfl, -⟩ | ⟨he, hk⟩
    · exact ⟨blob, (mem_emplace h.ordered k blob _).mpr (.inl rfl)⟩
    · obtain ⟨b, hb⟩ := h.stored k n hk
      exact ⟨b, (mem_emplace h.ordered key blob _).mpr (.inr ⟨he, hb⟩)⟩
  · intro k n hk
    rcases writer_update hk with ⟨rfl, hn⟩ | ⟨-, hk⟩
    · exact (hw n hn).1
    · exact h.writers k n hk
  · intro k n hk
    rcases writer_update hk with ⟨rfl, hn⟩ | ⟨-, hk⟩
    · exact (hw n hn).2
    · exact h.owner k n hk

omit [Package] in
theorem Recorded.created (h : Recorded s) (x : Stream) : Recorded
    { s.silent.setStreams (s.streamsInUse ++ [(s.created, x)]) with created := s.created + 1 } := by
  refine ⟨h.ordered, h.stored, ?_, ?_, fun k n hk => (h.writers k n hk).trans (Nat.lt_succ_self _),
    ?_⟩
  · change ((s.streamsInUse ++ [(s.created, x)]).map (·.1)).Nodup
    rw [List.map_append, List.map_singleton]
    refine List.nodup_append.mpr ⟨h.nodup, List.nodup_singleton _, ?_⟩
    rintro a ha b hb
    obtain ⟨y, hy, rfl⟩ := List.mem_map.mp ha
    rw [List.mem_singleton.mp hb]
    exact (h.below y hy).ne
  · intro y hy
    rcases List.mem_append.mp hy with hy | hy
    · exact (h.below y hy).trans (Nat.lt_succ_self _)
    · rw [List.mem_singleton.mp hy]
      exact Nat.lt_succ_self _
  · intro k n hk y hy hn
    rcases List.mem_append.mp hy with hy | hy
    · exact h.owner k n hk y hy hn
    · rw [List.mem_singleton.mp hy] at hn
      exact absurd (h.writers k n hk) (by rw [← hn]; exact lt_irrefl _)

theorem Recorded.step (h : Recorded s) (hs : Stepped s e t) : Recorded t := by
  cases hs with
  | created => exact h.created _
  | stored member owner =>
    refine h.update fun n hn => ?_
    cases hn
    refine ⟨h.below _ member, fun y hy hn => ?_⟩
    rwa [List.inj_on_of_nodup_map h.nodup hy member hn]
  | idle => exact ⟨h.ordered, h.stored, h.nodup, h.below, h.writers, h.owner⟩
  | destroyed =>
    refine ⟨h.ordered, h.stored, h.nodup.sublist (List.filter_sublist.map _), ?_, h.writers, ?_⟩
    · exact fun y hy => h.below y (List.mem_of_mem_filter hy)
    · exact fun k n hk y hy => h.owner k n hk y (List.mem_of_mem_filter hy)
  | disconnected =>
    exact ⟨h.ordered, h.stored, List.nodup_nil, nofun, h.writers, fun _ _ _ => nofun⟩
  | subscribed => exact h.update nofun

theorem recorded {ok : State → Event → Prop} (h : machine.Reaches ok s) : Recorded s := by
  refine h.invariant ⟨.nil, nofun, List.nodup_nil, nofun, nofun, fun _ _ _ => nofun⟩ ?_
  intro s e t _ hr _ hs
  exact hr.step (stepped hs)

def Covered (s : State) : Prop := ∀ key n, s.writer key = some n → Owned s.streamsInUse key

theorem Covered.step (h : Covered s) (hk : Withdrawn s e) (hs : Stepped s e t) : Covered t := by
  intro key n hw
  cases hs with
  | created =>
    obtain ⟨y, hy, hkey⟩ := h key n hw
    exact ⟨y, List.mem_append_left _ hy, hkey⟩
  | stored member owner =>
    rcases writer_update hw with ⟨rfl, -⟩ | ⟨-, hw⟩
    · exact ⟨_, member, owner⟩
    · exact h key n hw
  | idle => exact h key n hw
  | @destroyed m =>
    obtain ⟨y, hy, hkey⟩ := h key n hw
    by_cases hm : y.1 = m
    · rcases hk y hy hm key hkey with hnone | howned
      · cases hw.symm.trans hnone
      · exact howned
    · exact ⟨y, List.mem_filter.mpr ⟨hy, by simpa using hm⟩, hkey⟩
  | disconnected =>
    obtain ⟨y, hy, hkey⟩ := h key n hw
    cases hw.symm.trans (hk y hy key hkey)
  | subscribed =>
    rcases writer_update hw with ⟨-, hn⟩ | ⟨-, hw⟩
    · cases hn
    · exact h key n hw

theorem covered (h : machine.Reaches Withdrawn s) : Covered s := by
  refine h.invariant nofun ?_
  intro s e t _ hc hok hs
  exact hc.step hok (stepped hs)

omit [Package] in
theorem Covered.noOrphans (h : Covered s) : NoOrphans s := by
  intro _ _ key _ _ n hw
  exact .inr (h key n hw)

/-- A step that breaks the condition leaves an entry that no stream in use accounts for. -/
theorem exists_orphan (hr : Recorded s) (hk : ¬ Withdrawn s e) (hs : Stepped s e t) :
    ∃ key n, t.writer key = some n ∧ n ∉ t.streamsInUse.map (·.1) ∧
      ¬ Owned t.streamsInUse key := by
  have unowned {key : String} {n : ℕ} (ht : Recorded t) (hw : t.writer key = some n)
      (ho : ¬ Owned t.streamsInUse key) : n ∉ t.streamsInUse.map (·.1) := by
    intro hm
    obtain ⟨y, hy, hn⟩ := List.mem_map.mp hm
    exact ho ⟨y, hy, ht.owner key n hw y hy hn⟩
  have ht := hr.step hs
  cases hs with
  | created | subscribed => exact absurd trivial hk
  | stored _ _ alive | idle alive =>
    refine absurd ?_ hk
    cases e with
    | destroyStream n => exact absurd rfl (alive n).1
    | disconnect => exact absurd rfl (alive 0).2
    | createStream | start | stop | iceCandidate | connect | connectionLost | subscription =>
      trivial
  | destroyed =>
    simp only [Withdrawn, not_forall, not_or] at hk
    obtain ⟨y, hy, -, key, hkey, hw, ho⟩ := hk
    obtain ⟨n, hn⟩ := Option.ne_none_iff_exists'.mp hw
    exact ⟨key, n, hn, unowned ht hn ho, ho⟩
  | disconnected =>
    simp only [Withdrawn, not_forall] at hk
    obtain ⟨y, hy, key, hkey, hw⟩ := hk
    obtain ⟨n, hn⟩ := Option.ne_none_iff_exists'.mp hw
    have ho : ¬ Owned [] key := nofun
    exact ⟨key, n, hn, unowned ht hn ho, ho⟩

/-- The next subscription under another key sends such an entry. -/
theorem orphan_published (hr : Recorded t) {key : String} {n : ℕ} (hw : t.writer key = some n)
    (hn : n ∉ t.streamsInUse.map (·.1)) (ho : ¬ Owned t.streamsInUse key)
    {transport : Transport} (hne : key ≠ transport.key) (blob : Bytes) :
    ∃ u, machine.exec t [.connect, .subscription transport blob] = some u ∧ ¬ NoOrphans u := by
  obtain ⟨b, hb⟩ := hr.stored key n hw
  refine ⟨_, rfl, fun h => ?_⟩
  have hm : (key, Item.blob b) ∈
      publishDiscoveryMsg (emplace t.discoveryMap transport.key blob) := by
    rw [mem_publishDiscoveryMsg]
    exact .inr ⟨b, (mem_emplace hr.ordered _ _ _).mpr (.inr ⟨hne, hb⟩), rfl⟩
  have hw' : Function.update t.writer transport.key none key = some n :=
    (Function.update_of_ne hne _ _).trans hw
  exact (h _ rfl key b hm n hw').elim hn ho

/-- While streams are destroyed only when nothing of theirs is in the map, or another stream
with their key stays, no message has an entry of a destroyed stream. Otherwise a message that
any subscription sends has one. -/
theorem destroyed_streams_not_advertised (h : machine.Reaches Withdrawn s) :
    NoOrphans s ∧ ∀ e t, ¬ Withdrawn s e → s.step e = some t →
      ∃ transport : Transport, ∀ blob, ∃ u,
        machine.exec t [.connect, .subscription transport blob] = some u ∧ ¬ NoOrphans u := by
  refine ⟨(covered h).noOrphans, fun e t hk ht => ?_⟩
  have hr := recorded h
  obtain ⟨key, n, hw, hn, ho⟩ := exists_orphan hr hk (stepped ht)
  have ht := hr.step (stepped ht)
  by_cases hm : key = Transport.mqtt.key
  · refine ⟨.tcp, orphan_published ht hw hn ho ?_⟩
    rw [hm]
    decide
  · exact ⟨.mqtt, orphan_published ht hw hn ho hm⟩

end Runs

local instance : Package := plain

def camera : Stream := ⟨.rtsp, "camera", .publisher⟩

theorem shared_key_stays_covered : ∃ s, machine.Reaches Withdrawn s ∧ NoOrphans s ∧
    s.streamsInUse = [(1, camera)] ∧ s.writer "camera" = some 0 ∧ s.published ≠ none := by
  obtain ⟨s, hr, hs⟩ := machine.exists_reaches Withdrawn
    [.connect, .createStream camera, .start 0 [1], .createStream camera, .destroyStream 0,
      .subscription .mqtt [2]]
    (fun s => s.streamsInUse = [(1, camera)] && s.writer "camera" = some 0 &&
      s.published ≠ none) (by decide +kernel)
  simp only [Bool.and_eq_true, decide_eq_true_eq] at hs
  exact ⟨s, hr, (destroyed_streams_not_advertised hr).1, hs.1.1, hs.1.2, hs.2⟩

/-- The entry of a destroyed stream is in the message that a later subscription sends; so is
that of a WebRTC source after a disconnection and a new connection. -/
theorem destroyed_streams_advertised :
    (∃ s, machine.Reachable s ∧ (s.streamsInUse = [] && s.published.any fun msg =>
      ("camera", Item.blob [1]) ∈ msg) = true) ∧
    ∃ s, machine.Reachable s ∧ (s.streamsInUse = [] && s.published.any fun msg =>
      ("camera/SRC", Item.blob [1]) ∈ msg) = true := by
  constructor
  · exact machine.exists_reachable [.connect, .createStream camera, .start 0 [1],
      .destroyStream 0, .subscription .mqtt [2]] _ (by decide +kernel)
  · exact machine.exists_reachable [.connect,
      .createStream ⟨.webrtc, "camera", .publisher⟩, .start 0 [1], .stop 0 [], .disconnect,
      .connect, .subscription .tcp [2]] _ (by decide +kernel)

end StreamAdvertisement
