import Aitt.SubscriberCount
import Aitt.TcpHostLookup

/-! What one client, the observer, remembers of the others: the remote subscriptions of the
MQTT handler and the two tables of each TCP module. The only sign of a departure is an empty
message, which the broker hands to those who are subscribed at the time and keeps for nobody;
the tables outlive the subscription. -/
namespace DiscoveryCaches

open AittTypes Flexbuffers TransitionRuns NestedMaps
open AittDiscovery (joinNetwork)
open TcpPublishTable (willLeaveNetwork Payload PublishMap)
open SubscriberCount (RemoteTable handlerCallback)
open TcpHostLookup (matching)
open MosquittoMQ (exactMatch)

structure Announcement where
  mqtt : Option Value := none
  tcp : Option Payload := none
  secureTcp : Option Payload := none
  deriving DecidableEq

structure Caches where
  remoteSubscribeTable : RemoteTable := ∅
  tcp : TcpPublishTable.State := {}
  secureTcp : TcpPublishTable.State := {}
  deriving DecidableEq

section Callbacks

variable (me : String)

def onMqtt (clientId : String) : Option Announcement → RemoteTable → RemoteTable
  | none, table => handlerCallback me clientId willLeaveNetwork (.item .null) table
  | some ⟨none, _, _⟩, table => table
  | some ⟨some msg, _, _⟩, table => handlerCallback me clientId joinNetwork msg table

/-- `entry` is `none` where the message has no entry for the module. -/
def onTcp [Package] (secure : Bool) (clientId : String) (entry : Option (Option Payload))
    (s : TcpPublishTable.State) : TcpPublishTable.State :=
  match entry with
  | none => TcpPublishTable.discoveryMessageCallback secure s clientId willLeaveNetwork ∅
  | some none => s
  | some (some payload) =>
    TcpPublishTable.discoveryMessageCallback secure s clientId joinNetwork payload

def Caches.receive [Package] (caches : Caches) (clientId : String) (packet : Option Announcement) :
    Caches where
  remoteSubscribeTable := onMqtt me clientId packet caches.remoteSubscribeTable
  tcp := onTcp false clientId (packet.map (·.tcp)) caches.tcp
  secureTcp := onTcp true clientId (packet.map (·.secureTcp)) caches.secureTcp

end Callbacks

def TcpKnows (s : TcpPublishTable.State) (c : String) : Prop :=
  c ∈ s.clientTable ∨ ∃ topic, (get s.publishTable topic c).isSome

def Caches.Knows (caches : Caches) (c : String) : Prop :=
  c ∈ caches.remoteSubscribeTable ∨ TcpKnows caches.tcp c ∨ TcpKnows caches.secureTcp c

def tcpKnown (s : TcpPublishTable.State) : List String :=
  s.clientTable.keys ++ (triples s.publishTable).map fun p => p.2.1

def Caches.known (caches : Caches) : List String :=
  caches.remoteSubscribeTable.keys ++ tcpKnown caches.tcp ++ tcpKnown caches.secureTcp

theorem mem_tcpKnown (s : TcpPublishTable.State) (c : String) :
    c ∈ tcpKnown s ↔ TcpKnows s c := by
  rw [tcpKnown, List.mem_append, List.mem_map]
  refine or_congr Iff.rfl ⟨?_, ?_⟩
  · rintro ⟨⟨topic, c, entry⟩, hm, rfl⟩
    exact ⟨topic, Option.isSome_of_mem ((mem_triples _ topic c entry).mp hm)⟩
  · rintro ⟨topic, hs⟩
    obtain ⟨entry, he⟩ := Option.isSome_iff_exists.mp hs
    exact ⟨(topic, c, entry), (mem_triples _ topic c entry).mpr he, rfl⟩

theorem Caches.mem_known (caches : Caches) (c : String) : c ∈ caches.known ↔ caches.Knows c := by
  rw [Caches.known, List.mem_append, List.mem_append, mem_tcpKnown, mem_tcpKnown, or_assoc]
  rfl

instance (caches : Caches) (c : String) : Decidable (caches.Knows c) :=
  decidable_of_iff _ (caches.mem_known c)

inductive Link where
  | down
  | up
  | lost
  deriving DecidableEq, Repr

/-- `retained` is what the broker keeps for each client. `subscribing` holds from the time
when `Subscribe` is due until the broker has it; `listening` while the broker has it. -/
structure State where
  retained : Map String Announcement := ∅
  link : Link := .down
  subscribing : Bool := false
  listening : Bool := false
  inbox : List (String × Option Announcement) := []
  caches : Caches := {}

inductive Event where
  | publish (clientId : String) (message : Announcement)
  | leave (clientId : String)
  | connect
  | listen
  | restart
  | disconnect
  | lose (sessionKept again : Bool)
  | reconnect
  | deliver

namespace State

def send (s : State) (clientId : String) (packet : Option Announcement) : State :=
  if s.listening then { s with inbox := s.inbox ++ [(clientId, packet)] } else s

def replay (s : State) : List (String × Option Announcement) :=
  s.retained.entries.map fun p => (p.1, some p.2)

end State

section System

variable [Package] (me : String)

def step (s : State) : Event → Option State
  | .publish clientId message =>
    if clientId = me ∧ s.link ≠ .up then none
    else some (({ s with retained := s.retained.insert clientId message }).send clientId message)
  | .leave clientId =>
    if clientId = me then none
    else some (({ s with retained := s.retained.erase clientId }).send clientId none)
  | .connect =>
    if s.link = .down then some { s with link := .up, subscribing := true } else none
  | .listen =>
    if s.link = .up ∧ s.subscribing then
      some { s with subscribing := false, listening := true, inbox := s.inbox ++ s.replay }
    else none
  -- `Restart` does nothing before the first subscription.
  | .restart =>
    if s.link = .up ∧ s.subscribing = false then
      some { s with subscribing := true, listening := false }
    else none
  | .disconnect =>
    if s.link = .down then none
    else some { s with
      retained := s.retained.erase me
      link := .down
      subscribing := false
      listening := false
      inbox := [] }
  -- The will; a session that ends takes the subscription and the messages under way with it,
  -- and the connection callback makes a new one only if it never came to make the first.
  | .lose sessionKept again =>
    if s.link = .up then
      let t := ({ s with retained := s.retained.erase me }).send me none
      some { t with
        link := .lost
        subscribing := s.subscribing && again
        listening := s.listening && sessionKept
        inbox := if sessionKept then t.inbox else [] }
    else none
  | .reconnect => if s.link = .lost then some { s with link := .up } else none
  | .deliver =>
    match s.inbox with
    | [] => none
    | (clientId, packet) :: rest =>
      if s.link = .up then
        some { s with inbox := rest, caches := s.caches.receive me clientId packet }
      else none

def machine : Machine State Event := ⟨{}, step me⟩

def State.settledCaches (s : State) : Caches :=
  s.inbox.foldl (fun caches p => caches.receive me p.1 p.2) s.caches

end System

structure Settled (s : State) : Prop where
  up : s.link = .up
  subscribed : s.subscribing = false
  drained : s.inbox = []

def GhostFree (s : State) : Prop := ∀ c, s.caches.Knows c → c ∈ s.retained

def NoneLeft [Package] (me : String) (s : State) : Prop :=
  ∀ c, (s.settledCaches me).Knows c → c ∈ s.retained

/-- Nobody who is in the tables leaves unheard: when the observer gets its subscription, or is
back without one, all of them are still there, and as long as it has none they stay. -/
def Ok [Package] (me : String) (s : State) : Event → Prop
  | .listen => NoneLeft me s
  | .reconnect => s.listening ∨ s.subscribing ∨ NoneLeft me s
  | .leave c => s.listening ∨ s.subscribing ∨ s.link ≠ .up ∨ ¬ (s.settledCaches me).Knows c
  | _ => True

instance [Package] (me : String) (s : State) : Decidable (NoneLeft me s) :=
  decidable_of_iff (∀ c ∈ (s.settledCaches me).known, c ∈ s.retained)
    (forall_congr' fun c => imp_congr (Caches.mem_known _ c) Iff.rfl)

instance (s : State) : Decidable (GhostFree s) :=
  decidable_of_iff (∀ c ∈ s.caches.known, c ∈ s.retained)
    (forall_congr' fun c => imp_congr (Caches.mem_known _ c) Iff.rfl)

instance (s : State) : Decidable (Settled s) :=
  decidable_of_iff (s.link = .up ∧ s.subscribing = false ∧ s.inbox = [])
    ⟨fun h => ⟨h.1, h.2.1, h.2.2⟩, fun h => ⟨h.up, h.subscribed, h.drained⟩⟩

instance [Package] (me : String) (s : State) (e : Event) : Decidable (Ok me s e) :=
  match e with
  | .listen => inferInstanceAs (Decidable (NoneLeft me s))
  | .reconnect => inferInstanceAs (Decidable (_ ∨ _ ∨ _))
  | .leave _ => inferInstanceAs (Decidable (_ ∨ _ ∨ _ ∨ ¬ _))
  | .publish _ _ | .connect | .restart | .disconnect | .lose _ _ | .deliver => isTrue trivial

section Callbacks

variable [Package] {me c c' : String} {packet : Option Announcement}

omit [Package] in
theorem mem_onMqtt_of_ne (h : c' ≠ c) (packet : Option Announcement) (table : RemoteTable) :
    c' ∈ onMqtt me c packet table ↔ c' ∈ table := by
  have hcb : ∀ status msg, c' ∈ handlerCallback me c status msg table ↔ c' ∈ table := by
    intro status msg
    unfold handlerCallback
    split_ifs
    · rfl
    · rw [AList.mem_erase]
      exact and_iff_right h
    · rw [AList.mem_insert]
      exact or_iff_right h
  unfold onMqtt
  split
  · exact hcb _ _
  · rfl
  · exact hcb _ _

omit [Package] in
theorem not_mem_onMqtt_none {table : RemoteTable} (hme : me ∉ table) :
    c ∉ onMqtt me c none table := by
  simp only [onMqtt, handlerCallback]
  split_ifs with h
  · rwa [h]
  · rw [AList.mem_erase]
    exact fun hm => hm.1 rfl

omit [Package] in
theorem me_not_mem_onMqtt {table : RemoteTable} (hme : me ∉ table) :
    me ∉ onMqtt me c packet table := by
  by_cases h : me = c
  · subst h
    unfold onMqtt handlerCallback
    split
    · rwa [if_pos rfl]
    · exact hme
    · rwa [if_pos rfl]
  · rwa [mem_onMqtt_of_ne h]

theorem tcpKnows_onTcp_of_ne (h : c' ≠ c) (secure : Bool) (entry : Option (Option Payload))
    (s : TcpPublishTable.State) : TcpKnows (onTcp secure c entry s) c' ↔ TcpKnows s c' := by
  unfold onTcp
  split
  · simp only [TcpKnows, TcpPublishTable.discoveryMessageCallback, if_true, AList.mem_erase,
      get_eraseInner_of_ne _ _ h, and_iff_right h]
  · rfl
  · have hne : joinNetwork ≠ willLeaveNetwork := by decide
    simp only [TcpKnows, TcpPublishTable.discoveryMessageCallback, if_neg hne, AList.mem_insert,
      TcpPublishTable.get_after_of_ne _ _ _ h, or_iff_right h]

theorem not_tcpKnows_onTcp_none (secure : Bool) (s : TcpPublishTable.State) :
    ¬ TcpKnows (onTcp secure c none s) c := by
  simp only [onTcp, TcpKnows, TcpPublishTable.discoveryMessageCallback, if_true, AList.mem_erase,
    not_or, not_and, ne_eq, not_true_eq_false, false_implies, true_and, not_exists]
  intro topic
  rw [get_eraseInner_self]
  exact Bool.false_ne_true

theorem knows_receive_of_ne (h : c' ≠ c) (packet : Option Announcement) (caches : Caches) :
    (caches.receive me c packet).Knows c' ↔ caches.Knows c' := by
  unfold Caches.Knows Caches.receive
  rw [mem_onMqtt_of_ne h, tcpKnows_onTcp_of_ne h, tcpKnows_onTcp_of_ne h]

theorem not_knows_receive_none {caches : Caches} (hme : me ∉ caches.remoteSubscribeTable) :
    ¬ (caches.receive me c none).Knows c := by
  rintro (h | h | h)
  · exact not_mem_onMqtt_none hme h
  · exact not_tcpKnows_onTcp_none false _ h
  · exact not_tcpKnows_onTcp_none true _ h

end Callbacks

section Runs

variable [Package] {me : String} {s t : State}

theorem settledCaches_append (s : State) (l : List (String × Option Announcement)) :
    ({ s with inbox := s.inbox ++ l } : State).settledCaches me =
      l.foldl (fun caches p => caches.receive me p.1 p.2) (s.settledCaches me) := by
  rw [State.settledCaches, State.settledCaches, List.foldl_append]

/-- Messages about others leave what is known of a client as it is. -/
theorem knows_foldl_of_absent {c : String} {l : List (String × Option Announcement)}
    (h : ∀ p ∈ l, p.1 ≠ c) (caches : Caches) :
    (l.foldl (fun caches p => caches.receive me p.1 p.2) caches).Knows c ↔ caches.Knows c := by
  induction l generalizing caches with
  | nil => rfl
  | cons p rest ih =>
    rw [List.foldl_cons, ih fun q hq => h q (List.mem_cons_of_mem p hq)]
    exact knows_receive_of_ne (h p List.mem_cons_self).symm p.2 caches

theorem me_not_mem_foldl (l : List (String × Option Announcement)) {caches : Caches}
    (h : me ∉ caches.remoteSubscribeTable) :
    me ∉ (l.foldl (fun caches p => caches.receive me p.1 p.2) caches).remoteSubscribeTable := by
  induction l generalizing caches with
  | nil => exact h
  | cons p rest ih => exact ih (me_not_mem_onMqtt h)

omit [Package] in
@[simp] theorem send_caches (s : State) (c : String) (p : Option Announcement) :
    (s.send c p).caches = s.caches := by
  unfold State.send
  split <;> rfl

omit [Package] in
@[simp] theorem send_link (s : State) (c : String) (p : Option Announcement) :
    (s.send c p).link = s.link := by
  unfold State.send
  split <;> rfl

omit [Package] in
@[simp] theorem send_subscribing (s : State) (c : String) (p : Option Announcement) :
    (s.send c p).subscribing = s.subscribing := by
  unfold State.send
  split <;> rfl

omit [Package] in
@[simp] theorem send_listening (s : State) (c : String) (p : Option Announcement) :
    (s.send c p).listening = s.listening := by
  unfold State.send
  split <;> rfl

structure Invariant (me : String) (s : State) : Prop where
  self : me ∉ s.caches.remoteSubscribeTable
  heard : s.listening ∨ s.link = .up ∧ s.subscribing = false → NoneLeft me s

theorem invariant_initial : Invariant me {} where
  self := AList.notMem_empty _
  heard := by simp

theorem NoneLeft.insert (h : NoneLeft me s) (c : String) (message : Announcement) :
    NoneLeft me { s with retained := s.retained.insert c message } :=
  fun c' hc => (AList.mem_insert _).mpr (.inr (h c' hc))

/-- A client that has just published may be known. -/
theorem NoneLeft.publish (h : NoneLeft me s) (c : String) (message : Announcement) :
    NoneLeft me (({ s with retained := s.retained.insert c message }).send c message) := by
  unfold State.send
  split
  · intro c' hc
    rw [settledCaches_append] at hc
    by_cases he : c' = c
    · exact (AList.mem_insert _).mpr (.inl he)
    · exact (AList.mem_insert _).mpr (.inr (h c' ((knows_receive_of_ne he _ _).mp hc)))
  · exact h.insert c message

/-- The empty message takes the client out of all tables. -/
theorem NoneLeft.leave (h : NoneLeft me s) (hme : me ∉ s.caches.remoteSubscribeTable)
    (c : String) (hc : s.listening ∨ ¬ (s.settledCaches me).Knows c) :
    NoneLeft me (({ s with retained := s.retained.erase c }).send c none) := by
  unfold State.send
  split
  case isTrue hl =>
    intro c' hk
    rw [settledCaches_append] at hk
    have hne : c' ≠ c := by
      rintro rfl
      exact not_knows_receive_none (me_not_mem_foldl s.inbox hme) hk
    exact AList.mem_erase.mpr ⟨hne, h c' ((knows_receive_of_ne hne _ _).mp hk)⟩
  case isFalse hl =>
    intro c' hk
    have hne : c' ≠ c := by
      rintro rfl
      exact hc.elim hl fun hn => hn hk
    exact AList.mem_erase.mpr ⟨hne, h c' hk⟩

/-- The replay says nothing about those who have no retained message. -/
theorem knows_replay_of_gone {c : String} (h : c ∉ s.retained) (caches : Caches) :
    (s.replay.foldl (fun caches p => caches.receive me p.1 p.2) caches).Knows c ↔
      caches.Knows c := by
  refine knows_foldl_of_absent (fun p hp => ?_) caches
  rintro rfl
  obtain ⟨q, hq, rfl⟩ := List.mem_map.mp hp
  exact h (AList.mem_keys.mpr (List.mem_map_of_mem hq))

theorem noneLeft_listen_iff :
    NoneLeft me { s with subscribing := false, listening := true, inbox := s.inbox ++ s.replay } ↔
      NoneLeft me s := by
  refine forall_congr' fun c => ?_
  by_cases hm : c ∈ s.retained
  · exact iff_of_true (fun _ => hm) fun _ => hm
  · rw [State.settledCaches, List.foldl_append, knows_replay_of_gone hm]
    rfl

theorem Invariant.step (h : Invariant me s) {e : Event} (ho : Ok me s e)
    (hs : step me s e = some t) : Invariant me t := by
  cases e with
  | publish c message =>
    simp only [DiscoveryCaches.step] at hs
    split at hs
    · cases hs
    obtain rfl := Option.some.inj hs
    refine ⟨by rw [send_caches]; exact h.self, fun ha => (h.heard ?_).publish c message⟩
    simpa using ha
  | leave c =>
    simp only [DiscoveryCaches.step] at hs
    split at hs
    · cases hs
    obtain rfl := Option.some.inj hs
    refine ⟨by rw [send_caches]; exact h.self, fun ha => ?_⟩
    have hheard : s.listening ∨ s.link = .up ∧ s.subscribing = false := by simpa using ha
    refine (h.heard hheard).leave h.self c ?_
    rcases hheard with hl | ⟨hup, hsub⟩
    · exact .inl hl
    · rcases ho with hl | hsub' | hdown | hk
      · exact .inl hl
      · rw [hsub] at hsub'
        cases hsub'
      · exact absurd hup hdown
      · exact .inr hk
  | connect =>
    simp only [DiscoveryCaches.step] at hs
    split at hs
    case isFalse => cases hs
    obtain rfl := Option.some.inj hs
    refine ⟨h.self, fun ha => ?_⟩
    rcases ha with hl | ⟨-, hsub⟩
    · exact h.heard (.inl hl)
    · cases hsub
  | listen =>
    simp only [DiscoveryCaches.step] at hs
    split at hs
    case isFalse => cases hs
    obtain rfl := Option.some.inj hs
    exact ⟨h.self, fun _ => noneLeft_listen_iff.mpr ho⟩
  | restart =>
    simp only [DiscoveryCaches.step] at hs
    split at hs
    case isFalse => cases hs
    obtain rfl := Option.some.inj hs
    exact ⟨h.self, fun ha => by simp at ha⟩
  | disconnect =>
    simp only [DiscoveryCaches.step] at hs
    split at hs
    case isTrue => cases hs
    obtain rfl := Option.some.inj hs
    exact ⟨h.self, fun ha => by simp at ha⟩
  | lose sessionKept again =>
    simp only [DiscoveryCaches.step] at hs
    split at hs
    case isFalse => cases hs
    obtain rfl := Option.some.inj hs
    refine ⟨by rw [send_caches]; exact h.self, fun ha => ?_⟩
    simp only [Bool.and_eq_true, reduceCtorEq, false_and, or_false] at ha
    have hleft := (h.heard (.inl ha.1)).leave h.self me (.inl ha.1)
    simp only [ha.2, if_true]
    exact hleft
  | reconnect =>
    simp only [DiscoveryCaches.step] at hs
    split at hs
    case isFalse => cases hs
    obtain rfl := Option.some.inj hs
    refine ⟨h.self, fun ha => ?_⟩
    rcases ho with hl | hsub | hn
    · exact h.heard (.inl hl)
    · rcases ha with hl | ⟨-, hsub'⟩
      · exact h.heard (.inl hl)
      · rw [hsub] at hsub'
        cases hsub'
    · exact hn
  | deliver =>
    simp only [DiscoveryCaches.step] at hs
    split at hs
    · cases hs
    case h_2 clientId packet rest hin =>
      split at hs
      case isFalse => cases hs
      obtain rfl := Option.some.inj hs
      refine ⟨me_not_mem_onMqtt h.self, fun ha => ?_⟩
      have hn := h.heard ha
      unfold NoneLeft State.settledCaches at hn
      rw [hin] at hn
      exact hn

theorem Invariant.ghostFree (h : Invariant me s) (hs : Settled s) : GhostFree s := by
  have hn := h.heard (.inr ⟨hs.up, hs.subscribed⟩)
  unfold NoneLeft State.settledCaches at hn
  rw [hs.drained] at hn
  exact hn

/-- Once a step is not allowed, somebody in the tables is gone for good. -/
theorem left_of_not_ok {e : Event} (ho : ¬ Ok me s e) (hs : step me s e = some t) :
    t.link = .up ∧ t.subscribing = false ∧ ¬ NoneLeft me t := by
  cases e with
  | listen =>
    simp only [step] at hs
    split at hs
    case isFalse => cases hs
    case isTrue hup =>
      obtain rfl := Option.some.inj hs
      exact ⟨hup.1, rfl, fun hn => ho (noneLeft_listen_iff.mp hn)⟩
  | reconnect =>
    simp only [step] at hs
    split at hs
    case isFalse => cases hs
    obtain rfl := Option.some.inj hs
    simp only [Ok, not_or, Bool.not_eq_true] at ho
    exact ⟨rfl, ho.2.1, ho.2.2⟩
  | leave c =>
    simp only [step] at hs
    split at hs
    · cases hs
    obtain rfl := Option.some.inj hs
    simp only [Ok, not_or, Bool.not_eq_true, not_not] at ho
    obtain ⟨hl, hsub, hup, hk⟩ := ho
    refine ⟨by simpa using hup, by simpa using hsub, fun hn => ?_⟩
    have hsame : ({ s with retained := s.retained.erase c } : State).send c none =
        { s with retained := s.retained.erase c } := if_neg (by simp [hl])
    rw [hsame] at hn
    exact (AList.mem_erase.mp (hn c hk)).1 rfl
  | publish | connect | restart | disconnect | lose | deliver => exact absurd trivial ho

/-- A connected observer can always deliver what is under way. -/
theorem exists_drained (hup : s.link = .up) :
    ∃ es u, (machine me).exec s es = some u ∧ u.link = .up ∧ u.subscribing = s.subscribing ∧
      u.inbox = [] ∧ u.retained = s.retained ∧ u.caches = s.settledCaches me := by
  induction hin : s.inbox generalizing s with
  | nil => exact ⟨[], s, rfl, hup, rfl, hin, rfl, by rw [State.settledCaches, hin]; rfl⟩
  | cons p rest ih =>
    have hstep : (machine me).step s .deliver =
        some { s with inbox := rest, caches := s.caches.receive me p.1 p.2 } := by
      simp only [machine, step, hin, if_pos hup]
    obtain ⟨es, u, he, hu, hsub, hnil, hr, hc⟩ :=
      @ih { s with inbox := rest, caches := s.caches.receive me p.1 p.2 } hup rfl
    refine ⟨.deliver :: es, u, ?_, hu, hsub, hnil, hr, ?_⟩
    · rw [Machine.exec, hstep]
      exact he
    · rw [hc, State.settledCaches, State.settledCaches, hin]
      rfl

omit [Package] in
/-- Whom `PublishFull` of a TCP module goes to has a retained message. -/
theorem GhostFree.contacted (h : GhostFree s) (topicMatchesSub : String → String → Option Bool)
    (topic : String) {p : String × String}
    (hp : p ∈ matching topicMatchesSub s.caches.tcp.publishTable topic ∨
      p ∈ matching topicMatchesSub s.caches.secureTcp.publishTable topic) :
    p.2 ∈ s.retained := by
  have hget : ∀ table, p ∈ matching topicMatchesSub table topic →
      (get table p.1 p.2).isSome := by
    intro table hm
    obtain ⟨⟨a, b, c⟩, hf, rfl⟩ := List.mem_map.mp hm
    exact Option.isSome_of_mem ((mem_triples table a b c).mp (List.mem_filter.mp hf).1)
  refine h p.2 (Or.inr (hp.imp (fun hm => ?_) fun hm => ?_))
  · exact Or.inr ⟨p.1, hget _ hm⟩
  · exact Or.inr ⟨p.1, hget _ hm⟩

theorem no_ghost_peers_after_reconnect (topicMatchesSub : String → String → Option Bool)
    (me : String) {s : State} (h : (machine me).Reaches (Ok me) s) :
    (Settled s → GhostFree s ∧ ∀ topic p,
      p ∈ matching topicMatchesSub s.caches.tcp.publishTable topic ∨
        p ∈ matching topicMatchesSub s.caches.secureTcp.publishTable topic → p.2 ∈ s.retained) ∧
    ∀ e t, step me s e = some t → ¬ Ok me s e →
      ∃ es u, (machine me).exec t es = some u ∧ Settled u ∧ ¬ GhostFree u := by
  have hinv : Invariant me s := h.invariant invariant_initial fun _ _ _ _ hi ho hs => hi.step ho hs
  refine ⟨fun hs => ?_, fun e t hs ho => ?_⟩
  · have hg := hinv.ghostFree hs
    exact ⟨hg, fun topic p => hg.contacted topicMatchesSub topic⟩
  · obtain ⟨hup, hsub, hleft⟩ := left_of_not_ok ho hs
    obtain ⟨es, u, he, hu, hus, hin, hr, hc⟩ := exists_drained hup
    refine ⟨es, u, he, ⟨hu, hus.trans hsub, hin⟩, fun hg => hleft fun c hk => ?_⟩
    rw [← hr]
    exact hg c (hc ▸ hk)

end Runs

local instance : Package := plain

def announcement : Announcement where
  mqtt := some (.vector [.string "alarm"])
  tcp := some (((∅ : Payload).insert "alarm" (.vector [.uint 4000, .uint 1])).insert "host"
    (.item (.string "192.168.1.11")))

def peerStays : List Event :=
  [.connect, .listen, .publish "peer" announcement, .deliver, .disconnect,
    .publish "peer" announcement, .connect, .listen, .deliver]

theorem no_ghost_peers_after_second_connect :
    ∃ s, (machine "observer").Reaches (Ok "observer") s ∧ Settled s ∧ s.caches.Knows "peer" ∧
      GhostFree s := by
  obtain ⟨s, hs, hp⟩ := (machine "observer").exists_reaches (Ok "observer") peerStays
    (fun s => decide (Settled s ∧ s.caches.Knows "peer")) (by decide +kernel)
  obtain ⟨hset, hk⟩ := of_decide_eq_true hp
  exact ⟨s, hs, hset, hk,
    ((no_ghost_peers_after_reconnect exactMatch "observer" hs).1 hset).1⟩

def peerLeaves : List Event :=
  [.connect, .listen, .publish "peer" announcement, .deliver, .disconnect, .leave "peer",
    .connect, .listen]

theorem departed_peer_stays_in_the_tables :
    ∃ s, (machine "observer").Reachable s ∧ Settled s ∧ ¬ GhostFree s ∧ "peer" ∉ s.retained ∧
      "peer" ∈ s.caches.remoteSubscribeTable ∧ "peer" ∈ s.caches.tcp.clientTable ∧
      ("alarm", "peer") ∈ matching exactMatch s.caches.tcp.publishTable "alarm" := by
  obtain ⟨s, hs, hp⟩ := (machine "observer").exists_reachable peerLeaves
    (fun s => decide (Settled s ∧ ¬ GhostFree s ∧ "peer" ∉ s.retained ∧
      "peer" ∈ s.caches.remoteSubscribeTable ∧ "peer" ∈ s.caches.tcp.clientTable ∧
      ("alarm", "peer") ∈ matching exactMatch s.caches.tcp.publishTable "alarm"))
    (by decide +kernel)
  exact ⟨s, hs, of_decide_eq_true hp⟩

end DiscoveryCaches
