import Aitt.AittDiscovery
import Aitt.SubscriptionTables
import Aitt.TcpPublishTable
import Mathlib.Data.Fintype.BigOperators

/-! Any number of clients at one broker and the table of remote MQTT subscriptions that each
of them builds from the discovery messages of the others. A client announces its whole table
after every change; the broker keeps the last message of each topic for those who subscribe
later, and the empty one, sent by `Stop` or as the will, takes it away. The calls of a
connected client to the broker succeed, but for the subscriptions that the broker refuses. -/
namespace SubscriberCount

open AittTypes Flexbuffers TransitionRuns NestedMaps AittImpl
open AittDiscovery (discoveryTopicBase joinNetwork)
open TcpPublishTable (asVector asString willLeaveNetwork)
open MosquittoMQ (compareTopic exactMatch)

variable {ι κ : Type}

abbrev Announcement := Map String Value

/-- A retained discovery message; `none` is the empty payload. -/
abbrev Packet := Option Announcement

def announcement (mySubscribeTable : List (Address × String)) : Announcement :=
  ((∅ : Announcement).insert "MQTT" (.vector (mySubscribeTable.map fun p => .string p.2))).insert
    "status" (.item (.string joinNetwork))

def itemText : Item → String
  | .string s => s
  | _ => ""

abbrev RemoteTable := Map String (List String)

def handlerCallback (me clientId status : String) (msg : Value) (remote : RemoteTable) :
    RemoteTable :=
  if clientId = me then remote
  else if status = willLeaveNetwork then remote.erase clientId
  else remote.insert clientId ((asVector msg).map itemText)

def clientIdOf (topic : String) : String :=
  let rest := topic.toList.drop discoveryTopicBase.length
  match rest.findIdx? (· = '/') with
  | none => String.ofList rest
  | some k => String.ofList (rest.take (discoveryTopicBase.length + k))

def discoveryMessageCallback (me topic : String) (msg : Packet) (remote : RemoteTable) :
    RemoteTable :=
  let clientId := clientIdOf topic
  if clientId = "" then remote
  else
    match msg with
    | none => handlerCallback me clientId willLeaveNetwork (.item .null) remote
    | some map =>
      let status := cStr (((map.lookup "status").map asString).getD "")
      map.entries.foldl (fun remote p =>
        if p.1 = "MQTT" then handlerCallback me clientId status p.2 remote else remote) remote

@[irreducible] def discoveryTopic (id : String) : String := cStr (discoveryTopicBase ++ id)

/-- Topics that the filter of the discovery service matches: its "+" is one level. -/
def routed (topic : String) : Bool :=
  discoveryTopicBase.toList.isPrefixOf topic.toList &&
    '/' ∉ topic.toList.drop discoveryTopicBase.length

/-- `first` is a connection that has stood since the first `Connect`. -/
inductive Link where
  | fresh
  | first
  | down
  | again
  | lost
  deriving DecidableEq, Repr

def Link.connected : Link → Bool
  | .first => true
  | .again => true
  | _ => false

/-- `outbox` is on its way to the broker, `inbox` from it, in order for each topic. -/
structure Node (κ : Type) where
  impl : Impl κ
  link : Link := .fresh
  listening : Bool := false
  outbox : List Packet := []
  inbox : String → List Packet := fun _ => []
  remoteSubscribeTable : RemoteTable := ∅

structure State (ι κ : Type) where
  node : ι → Node κ
  retained : String → Packet := fun _ => none

inductive Event (ι κ : Type) where
  | connect (i : ι)
  | listen (i : ι)
  | call (i : ι) (e : SubscriptionTables.Event κ)
  | disconnect (i : ι)
  | lose (i : ι) (arrived : ℕ)
  | broker (i : ι)
  | deliver (i : ι) (topic : String)

def publishes (i : Impl κ) : SubscriptionTables.Event κ → Bool
  | .subscribe _ _ _ o => o.ret
  | .unsubscribe id _ _ => (i.find id).isSome
  | _ => false

def callable : SubscriptionTables.Event κ → Bool
  | .unsubscribeAll _ => false
  | _ => true

def farewells : List (SubscribeInfo κ) → Impl κ → List Packet
  | [], _ => []
  | info :: rest, i =>
    let i' := (i.transportUnsubscribe info true true).1
    some (announcement i'.mySubscribeTable) :: farewells rest i'

namespace Node

def connect (n : Node κ) : Option (Node κ) :=
  match n.link with
  | .fresh => some { n with link := .first }
  | .down => some { n with link := .again }
  | _ => none

def listen (n : Node κ) (retained : String → Packet) : Option (Node κ) :=
  if n.link.connected ∧ n.listening = false then
    some { n with
      listening := true
      inbox := fun topic =>
        n.inbox topic ++ if routed topic then (retained topic).toList.map some else [] }
  else none

def call (topicMatchesSub : String → String → Option Bool) (n : Node κ)
    (e : SubscriptionTables.Event κ) : Option (Node κ) :=
  if n.link.connected ∧ callable e ∧ SubscriptionTables.Ok n.impl e then
    (SubscriptionTables.step topicMatchesSub n.impl e).map fun impl =>
      { n with
        impl := impl
        outbox := n.outbox ++
          if publishes n.impl e then [some (announcement impl.mySubscribeTable)] else [] }
  else none

/-- `UnsubscribeAll`, then `Stop` with its two empty messages. -/
def disconnect (n : Node κ) : Option (Node κ) :=
  if n.link.connected then
    some { n with
      impl := (n.impl.unsubscribeAll fun _ => (true, true)).1
      link := .down
      listening := false
      outbox := n.outbox ++ farewells n.impl.subscribedList n.impl ++ [none, none]
      inbox := fun _ => [] }
  else none

/-- Some messages have still arrived; after them the broker publishes the will. -/
def lose (n : Node κ) (arrived : ℕ) : Option (Node κ) :=
  if n.link.connected ∨ (n.link = .down ∧ n.outbox ≠ []) then
    some { n with
      link := .lost
      listening := false
      outbox := n.outbox.take arrived ++ [none] }
  else none

def receive (n : Node κ) (topic : String) (packet : Packet) : Node κ :=
  if n.listening && routed topic then
    { n with inbox := Function.update n.inbox topic (n.inbox topic ++ [packet]) }
  else n

def deliver (n : Node κ) (me topic : String) : Option (Node κ) :=
  match n.inbox topic with
  | [] => none
  | packet :: rest =>
    if n.link.connected then
      some { n with
        inbox := Function.update n.inbox topic rest
        remoteSubscribeTable :=
          discoveryMessageCallback me topic packet n.remoteSubscribeTable }
    else none

end Node

section System

variable [DecidableEq ι] (topicMatchesSub : String → String → Option Bool) (id : ι → String)

def State.setNode (s : State ι κ) (i : ι) (n : Node κ) : State ι κ :=
  { s with node := Function.update s.node i n }

def broker (s : State ι κ) (i : ι) : Option (State ι κ) :=
  match (s.node i).outbox with
  | [] => none
  | packet :: rest =>
    some {
      node := fun j => (Function.update s.node i { s.node i with outbox := rest } j).receive
        (discoveryTopic (id i)) packet
      retained := Function.update s.retained (discoveryTopic (id i)) packet }

def step (s : State ι κ) : Event ι κ → Option (State ι κ)
  | .connect i => (s.node i).connect.map (s.setNode i)
  | .listen i => ((s.node i).listen s.retained).map (s.setNode i)
  | .call i e => ((s.node i).call topicMatchesSub e).map (s.setNode i)
  | .disconnect i => (s.node i).disconnect.map (s.setNode i)
  | .lose i arrived => ((s.node i).lose arrived).map (s.setNode i)
  | .broker i => broker id s i
  | .deliver i topic => ((s.node i).deliver (id i) topic).map (s.setNode i)

def machine (ip : ι → String) : Machine (State ι κ) (Event ι κ) :=
  ⟨{ node := fun i => { impl := .new (ip i) } }, step topicMatchesSub id⟩

end System

section Count

variable (topicMatchesSub : String → String → Option Bool)

/-- The two loops of `CountSubscriber`; `count` is an `int`. -/
def countSubscriber (mySubscribeTable : List (Address × String)) (remote : RemoteTable)
    (topic : String) : Int32 :=
  Int32.ofNat (mySubscribeTable.countP (fun p => compareTopic topicMatchesSub p.2 topic) +
    (remote.entries.map fun row => row.2.countP (compareTopic topicMatchesSub · topic)).sum)

def liveSubscriptions [Fintype ι] (s : State ι κ) (topic : String) : ℕ :=
  ∑ j, if (s.node j).link.connected then
    (s.node j).impl.mq.live.countP (fun d => compareTopic topicMatchesSub d.topic topic) else 0

end Count

def Drained (id : ι → String) (s : State ι κ) (i : ι) : Prop :=
  ∀ j, (s.node j).outbox = [] ∧ (s.node i).inbox (discoveryTopic (id j)) = []

instance [Fintype ι] (id : ι → String) (s : State ι κ) (i : ι) : Decidable (Drained id s i) :=
  inferInstanceAs (Decidable (∀ _, _))

/-- Distinct C strings without slashes; `AITT::Ready` replaces an empty id. -/
structure Ids (id : ι → String) : Prop where
  distinct : Function.Injective id
  slashFree : ∀ i, '/' ∉ (id i).toList
  nonempty : ∀ i, id i ≠ ""
  nulFree : ∀ i, NulFree (id i)

section Ids

variable {id : ι → String}

theorem discoveryTopic_toList {clientId : String} (h : NulFree clientId) :
    (discoveryTopic clientId).toList = discoveryTopicBase.toList ++ clientId.toList := by
  have hn : NulFree (discoveryTopicBase ++ clientId) := by
    rw [NulFree, String.toList_append, List.mem_append, not_or]
    exact ⟨by decide, h⟩
  rw [discoveryTopic, cStr_of_nulFree hn, String.toList_append]

theorem drop_discoveryTopic {clientId : String} (h : NulFree clientId) :
    (discoveryTopic clientId).toList.drop discoveryTopicBase.length = clientId.toList := by
  rw [discoveryTopic_toList h, ← String.length_toList, List.drop_left]

theorem clientIdOf_discoveryTopic {clientId : String} (hn : NulFree clientId)
    (hs : '/' ∉ clientId.toList) : clientIdOf (discoveryTopic clientId) = clientId := by
  have hnone : clientId.toList.findIdx? (· = '/') = none := by
    rw [List.findIdx?_eq_none_iff]
    intro c hc
    simpa using ne_of_mem_of_not_mem hc hs
  simp only [clientIdOf, drop_discoveryTopic hn, hnone]
  exact String.ofList_toList

theorem routed_discoveryTopic {clientId : String} (hn : NulFree clientId) :
    routed (discoveryTopic clientId) = true ↔ '/' ∉ clientId.toList := by
  have hp : discoveryTopicBase.toList <+: (discoveryTopic clientId).toList := by
    rw [discoveryTopic_toList hn]
    exact List.prefix_append _ _
  simp only [routed, drop_discoveryTopic hn, Bool.and_eq_true, List.isPrefixOf_iff_prefix,
    decide_eq_true_eq]
  exact and_iff_right hp

theorem Ids.clientIdOf (h : Ids id) (i : ι) : clientIdOf (discoveryTopic (id i)) = id i :=
  clientIdOf_discoveryTopic (h.nulFree i) (h.slashFree i)

theorem Ids.routed (h : Ids id) (i : ι) : routed (discoveryTopic (id i)) = true :=
  (routed_discoveryTopic (h.nulFree i)).mpr (h.slashFree i)

theorem Ids.topic_injective (h : Ids id) : Function.Injective fun i => discoveryTopic (id i) := by
  intro i j hij
  have he := congrArg SubscriberCount.clientIdOf hij
  rw [h.clientIdOf, h.clientIdOf] at he
  exact h.distinct he

theorem Ids.topic_ne (h : Ids id) {i j : ι} (hne : i ≠ j) :
    discoveryTopic (id i) ≠ discoveryTopic (id j) := fun heq => hne (h.topic_injective heq)

end Ids

def Formed (packet : Packet) : Prop :=
  ∀ map ∈ packet, ∃ table, map = announcement table

def rowOf (packet : Packet) : Option (List String) :=
  packet.map fun map => (asVector ((map.lookup "MQTT").getD (.item .null))).map itemText

theorem formed_none : Formed none := nofun

theorem formed_announcement (table : List (Address × String)) :
    Formed (some (announcement table)) := by
  intro map hm
  cases hm
  exact ⟨table, rfl⟩

theorem rowOf_announcement (table : List (Address × String)) :
    rowOf (some (announcement table)) = some (table.map (·.2)) := by
  have hl : (announcement table).lookup "MQTT" =
      some (.vector (table.map fun p => .string p.2)) := by
    rw [announcement, AList.lookup_insert_ne (by decide), AList.lookup_insert]
  rw [rowOf, Option.map_some, hl, Option.getD_some, asVector, List.map_map]
  rfl

/-- The loop over the keys of an announcement calls the handler once. -/
theorem callback_announcement (me topic : String) (table : List (Address × String))
    (remote : RemoteTable) :
    discoveryMessageCallback me topic (some (announcement table)) remote =
      if clientIdOf topic = "" then remote
      else handlerCallback me (clientIdOf topic) joinNetwork
        (.vector (table.map fun p => .string p.2)) remote := by
  have hstatus : cStr ((((announcement table).lookup "status").map asString).getD "") =
      joinNetwork := by
    rw [announcement, AList.lookup_insert]
    decide
  have hentries : (announcement table).entries =
      [⟨"status", .item (.string joinNetwork)⟩,
        ⟨"MQTT", .vector (table.map fun p => .string p.2)⟩] := rfl
  simp only [discoveryMessageCallback, hstatus, hentries, List.foldl_cons, List.foldl_nil,
    if_true]
  rw [if_neg (show "status" ≠ "MQTT" by decide)]

/-- The callback writes the row of the sender and no other. -/
theorem lookup_discoveryMessageCallback {me topic clientId : String} {packet : Packet}
    (hf : Formed packet) (ht : clientIdOf topic = clientId) (he : clientId ≠ "")
    (hne : clientId ≠ me) (remote : RemoteTable) (key : String) :
    (discoveryMessageCallback me topic packet remote).lookup key =
      if key = clientId then rowOf packet else remote.lookup key := by
  cases packet with
  | none =>
    simp only [discoveryMessageCallback, ht, if_neg he, handlerCallback, if_neg hne, if_true]
    by_cases hk : key = clientId
    · rw [if_pos hk, hk, AList.lookup_erase]
      rfl
    · rw [if_neg hk, AList.lookup_erase_ne hk]
  | some map =>
    obtain ⟨table, rfl⟩ := hf map rfl
    rw [callback_announcement, ht, if_neg he, handlerCallback, if_neg hne,
      if_neg (show joinNetwork ≠ willLeaveNetwork by decide), rowOf_announcement]
    by_cases hk : key = clientId
    · rw [if_pos hk, hk, AList.lookup_insert, asVector, List.map_map]
      rfl
    · rw [if_neg hk, AList.lookup_insert_ne hk]

/-- A client makes nothing of its own messages. -/
theorem discoveryMessageCallback_self {me topic : String} (ht : clientIdOf topic = me)
    {packet : Packet} (hf : Formed packet) (remote : RemoteTable) :
    discoveryMessageCallback me topic packet remote = remote := by
  cases packet with
  | none => simp only [discoveryMessageCallback, ht, handlerCallback, if_true, ite_self]
  | some map =>
    obtain ⟨table, rfl⟩ := hf map rfl
    rw [callback_announcement, ht, handlerCallback, if_pos rfl, ite_self]

/-- The client's side: when all that it has sent has arrived, the broker has its table, or
nothing once it is gone. -/
structure Publishes (n : Node κ) (kept : Packet) : Prop where
  tables : SubscriptionTables.Invariant n.impl
  formed : ∀ p ∈ n.outbox, Formed p
  own : n.link ≠ .lost →
    (rowOf (n.outbox.getLastD kept)).getD [] = n.impl.mySubscribeTable.map (·.2)
  gone : n.link.connected = false → n.outbox.getLastD kept = none

/-- The observer's side: when all that the broker has sent has been handled, its table has
what the broker keeps. -/
structure Observes (id : ι → String) (i : ι) (n : Node κ) (retained : String → Packet) :
    Prop where
  fresh : n.link = .fresh → n.listening = false
  silent : n.link = .fresh ∨ n.link = .first → n.listening = false →
    n.remoteSubscribeTable = ∅ ∧ n.inbox = fun _ => []
  view : n.link = .first → n.listening = true → ∀ j, j ≠ i →
    ((n.inbox (discoveryTopic (id j))).map rowOf).getLastD
      (n.remoteSubscribeTable.lookup (id j)) = rowOf (retained (discoveryTopic (id j)))
  keys : ∀ key ∈ n.remoteSubscribeTable, ∃ j, j ≠ i ∧ id j = key
  formed : ∀ topic, ∀ p ∈ n.inbox topic, Formed p ∧ ∃ j, topic = discoveryTopic (id j)

structure Invariant (id : ι → String) (s : State ι κ) : Prop where
  publishes : ∀ j, Publishes (s.node j) (s.retained (discoveryTopic (id j)))
  observes : ∀ i, Observes id i (s.node i) s.retained
  retained : ∀ topic map, s.retained topic = some map →
    Formed (some map) ∧ ∃ j, topic = discoveryTopic (id j)

section Steps

variable {id : ι → String} {n n' : Node κ} {kept : Packet} {retained : String → Packet} {i : ι}

theorem Publishes.connect (h : Publishes n kept) (hs : n.connect = some n') :
    Publishes n' kept := by
  unfold Node.connect at hs
  split at hs
  · next hl =>
    obtain rfl := Option.some.inj hs
    exact ⟨h.tables, h.formed, fun _ => h.own (by rw [hl]; decide), nofun⟩
  · next hl =>
    obtain rfl := Option.some.inj hs
    exact ⟨h.tables, h.formed, fun _ => h.own (by rw [hl]; decide), nofun⟩
  · cases hs

theorem Observes.connect (h : Observes id i n retained) (hs : n.connect = some n') :
    Observes id i n' retained := by
  unfold Node.connect at hs
  split at hs
  · next hl =>
    obtain rfl := Option.some.inj hs
    refine ⟨nofun, fun _ hn => h.silent (Or.inl hl) hn, fun _ hn => ?_, h.keys, h.formed⟩
    rw [show n.listening = false from h.fresh hl] at hn
    cases hn
  · obtain rfl := Option.some.inj hs
    exact ⟨nofun, nofun, nofun, h.keys, h.formed⟩
  · cases hs

theorem Publishes.listen (h : Publishes n kept) (hs : n.listen retained = some n') :
    Publishes n' kept := by
  simp only [Node.listen, Option.ite_none_right_eq_some, Option.some.injEq] at hs
  obtain ⟨-, rfl⟩ := hs
  exact ⟨h.tables, h.formed, h.own, h.gone⟩

/-- A new listener gets what the broker keeps. -/
theorem Observes.listen (hid : Ids id) (h : Observes id i n retained)
    (hr : ∀ topic map, retained topic = some map →
      Formed (some map) ∧ ∃ j, topic = discoveryTopic (id j))
    (hs : n.listen retained = some n') : Observes id i n' retained := by
  simp only [Node.listen, Option.ite_none_right_eq_some, Option.some.injEq] at hs
  obtain ⟨⟨hc, hn⟩, rfl⟩ := hs
  refine ⟨fun hl => ?_, nofun, fun hl _ j _ => ?_, h.keys, fun topic p hp => ?_⟩
  · rw [show n.link = .fresh from hl] at hc
    cases hc
  · obtain ⟨hremote, hinbox⟩ := h.silent (Or.inr hl) hn
    simp only [hremote, hinbox, hid.routed j, if_true, List.nil_append]
    cases retained (discoveryTopic (id j)) with
    | none => rfl
    | some map => rfl
  · rcases List.mem_append.mp hp with hp | hp
    · exact h.formed topic p hp
    · split at hp
      · obtain ⟨map, hm, rfl⟩ := List.mem_map.mp hp
        exact hr topic map (by simpa using hm)
      · cases hp

/-- Without a publication the table of the handler stays as it is. -/
theorem table_of_not_publishes {topicMatchesSub : String → String → Option Bool}
    {x y : Impl κ} {e : SubscriptionTables.Event κ}
    (hs : SubscriptionTables.step topicMatchesSub x e = some y) (hc : callable e = true)
    (hp : publishes x e = false) : y.mySubscribeTable = x.mySubscribeTable := by
  cases e with
  | subscribe topic cb userData o =>
    simp only [SubscriptionTables.step, Option.ite_none_right_eq_some, Option.some.injEq] at hs
    obtain ⟨-, rfl⟩ := hs
    have hret : o.ret = false := hp
    unfold Impl.subscribe Impl.transportSubscribe Impl.subscribeMQ
    rw [hret, MosquittoMQ.subscribe_fails]
  | unsubscribe id ret published =>
    obtain rfl := Option.some.inj hs
    have hnone : x.find id = none := by simpa [publishes] using hp
    simp only [Impl.unsubscribe, hnone]
  | unsubscribeAll calls => cases hc
  | message msg =>
    obtain rfl := Option.some.inj hs
    rfl

theorem Publishes.call {topicMatchesSub : String → String → Option Bool} (h : Publishes n kept)
    {e : SubscriptionTables.Event κ} (hs : n.call topicMatchesSub e = some n') :
    Publishes n' kept := by
  simp only [Node.call, Option.ite_none_right_eq_some, Option.map_eq_some_iff] at hs
  obtain ⟨⟨hl, hc, hok⟩, impl, hi, rfl⟩ := hs
  have hinv : SubscriptionTables.Invariant impl := by
    rcases h.tables.step hi with ⟨-, hinv⟩ | ⟨hn, -⟩
    · exact hinv
    · exact absurd hok hn
  have hlost : n.link ≠ .lost := by
    intro heq
    rw [heq] at hl
    cases hl
  refine ⟨hinv, fun p hp => ?_, fun _ => ?_, fun hn => ?_⟩
  · rcases List.mem_append.mp hp with hp | hp
    · exact h.formed p hp
    · split at hp
      · rw [List.mem_singleton.mp hp]
        exact formed_announcement _
      · cases hp
  · cases hp : publishes n.impl e with
    | true =>
      simp only [if_true, List.getLastD_concat, rowOf_announcement, Option.getD_some]
    | false =>
      simp only [Bool.false_eq_true, if_false, List.append_nil,
        table_of_not_publishes hi hc hp]
      exact h.own hlost
  · rw [show n.link.connected = false from hn] at hl
    cases hl

theorem Observes.call {topicMatchesSub : String → String → Option Bool}
    (h : Observes id i n retained) {e : SubscriptionTables.Event κ}
    (hs : n.call topicMatchesSub e = some n') : Observes id i n' retained := by
  simp only [Node.call, Option.ite_none_right_eq_some, Option.map_eq_some_iff] at hs
  obtain ⟨-, impl, -, rfl⟩ := hs
  exact ⟨h.fresh, h.silent, h.view, h.keys, h.formed⟩

theorem formed_farewells (infos : List (SubscribeInfo κ)) (x : Impl κ) :
    ∀ p ∈ farewells infos x, Formed p := by
  induction infos generalizing x with
  | nil => nofun
  | cons info rest ih =>
    intro p hp
    rcases List.mem_cons.mp hp with rfl | hp
    · exact formed_announcement _
    · exact ih _ p hp

/-- `UnsubscribeAll` leaves an empty table. -/
theorem table_unsubscribeAll {x : Impl κ} (h : SubscriptionTables.Invariant x) :
    SubscriptionTables.Invariant (x.unsubscribeAll fun _ => (true, true)).1 ∧
      (x.unsubscribeAll fun _ => (true, true)).1.mySubscribeTable = [] := by
  obtain ⟨y, r, he, -, hr⟩ := h.toRemaining.each fun _ => (true, true)
  rcases hr with ⟨-, rfl, hy⟩ | ⟨hn, -⟩
  · simp only [Impl.unsubscribeAll, he]
    have hlive : y.mq.live = [] := by
      simpa using hy.list.symm.eq_nil
    refine ⟨⟨⟨hy.mq, hy.calm, hy.protocols, hy.list, hy.table⟩, List.nodup_nil⟩, ?_⟩
    have ht := hy.table
    rw [hlive] at ht
    exact ht.eq_nil
  · exact absurd (fun _ _ => rfl) hn

theorem Publishes.disconnect (h : Publishes n kept) (hs : n.disconnect = some n') :
    Publishes n' kept := by
  simp only [Node.disconnect, Option.ite_none_right_eq_some, Option.some.injEq] at hs
  obtain ⟨-, rfl⟩ := hs
  obtain ⟨hinv, hempty⟩ := table_unsubscribeAll h.tables
  have hlast : (n.outbox ++ farewells n.impl.subscribedList n.impl ++ [none, none]).getLastD
      kept = none := by
    rw [show [none, none] = [none] ++ [(none : Packet)] from rfl, ← List.append_assoc,
      List.getLastD_concat]
  refine ⟨hinv, fun p hp => ?_, fun _ => ?_, fun _ => hlast⟩
  · rcases List.mem_append.mp hp with hp | hp
    · rcases List.mem_append.mp hp with hp | hp
      · exact h.formed p hp
      · exact formed_farewells _ _ p hp
    · obtain rfl : p = none := by simpa using hp
      exact formed_none
  · simp only [hlast, hempty]
    rfl

theorem Observes.disconnect (h : Observes id i n retained) (hs : n.disconnect = some n') :
    Observes id i n' retained := by
  simp only [Node.disconnect, Option.ite_none_right_eq_some, Option.some.injEq] at hs
  obtain ⟨-, rfl⟩ := hs
  exact ⟨nofun, fun hl => hl.elim nofun nofun, nofun, h.keys, nofun⟩

theorem Publishes.lose (h : Publishes n kept) {arrived : ℕ} (hs : n.lose arrived = some n') :
    Publishes n' kept := by
  simp only [Node.lose, Option.ite_none_right_eq_some, Option.some.injEq] at hs
  obtain ⟨-, rfl⟩ := hs
  refine ⟨h.tables, fun p hp => ?_, fun hn => absurd rfl hn, fun _ => List.getLastD_concat⟩
  rcases List.mem_append.mp hp with hp | hp
  · exact h.formed p (List.mem_of_mem_take hp)
  · rw [List.mem_singleton.mp hp]
    exact formed_none

theorem Observes.lose (h : Observes id i n retained) {arrived : ℕ}
    (hs : n.lose arrived = some n') : Observes id i n' retained := by
  simp only [Node.lose, Option.ite_none_right_eq_some, Option.some.injEq] at hs
  obtain ⟨-, rfl⟩ := hs
  exact ⟨nofun, fun hl => hl.elim nofun nofun, nofun, h.keys, h.formed⟩

theorem Publishes.deliver (h : Publishes n kept) {me topic : String}
    (hs : n.deliver me topic = some n') : Publishes n' kept := by
  unfold Node.deliver at hs
  split at hs
  · cases hs
  · simp only [Option.ite_none_right_eq_some, Option.some.injEq] at hs
    obtain ⟨-, rfl⟩ := hs
    exact ⟨h.tables, h.formed, h.own, h.gone⟩

/-- Taking a packet from an inbox leaves well-formed ones. -/
theorem Observes.formed_rest (h : Observes id i n retained) {topic : String} {packet : Packet}
    {rest : List Packet} (hin : n.inbox topic = packet :: rest) :
    ∀ topic', ∀ p ∈ Function.update n.inbox topic rest topic',
      Formed p ∧ ∃ k, topic' = discoveryTopic (id k) := by
  intro topic' p hp
  by_cases ht : topic' = topic
  · subst ht
    rw [Function.update_self] at hp
    exact h.formed _ p (by rw [hin]; exact List.mem_cons_of_mem _ hp)
  · rw [Function.update_of_ne ht] at hp
    exact h.formed topic' p hp

/-- Handling a message brings the row of its sender one message further. -/
theorem Observes.deliver (hid : Ids id) (h : Observes id i n retained) {topic : String}
    (hs : n.deliver (id i) topic = some n') : Observes id i n' retained := by
  unfold Node.deliver at hs
  split at hs
  · cases hs
  · next packet rest hin =>
    simp only [Option.ite_none_right_eq_some, Option.some.injEq] at hs
    obtain ⟨hc, rfl⟩ := hs
    obtain ⟨hf, j, rfl⟩ := h.formed topic packet (by rw [hin]; exact List.mem_cons_self)
    have hformed := h.formed_rest hin
    have hfirst : n.link = .fresh ∨ n.link = .first → n.listening = false → False := by
      intro hl hn
      have hempty := congrFun (h.silent hl hn).2 (discoveryTopic (id j))
      rw [hin] at hempty
      cases hempty
    by_cases hji : j = i
    · subst hji
      simp only [discoveryMessageCallback_self (hid.clientIdOf j) hf]
      refine ⟨h.fresh, fun hl hn => (hfirst hl hn).elim, fun hl hn k hk => ?_, h.keys, hformed⟩
      simp only [Function.update_of_ne (hid.topic_ne hk)]
      exact h.view hl hn k hk
    · have hlookup := lookup_discoveryMessageCallback hf (hid.clientIdOf j) (hid.nonempty j)
        (fun heq => hji (hid.distinct heq)) n.remoteSubscribeTable
      refine ⟨h.fresh, fun hl hn => (hfirst hl hn).elim, fun hl hn k hk => ?_, fun key hk => ?_,
        hformed⟩
      · have hview := h.view hl hn k hk
        simp only [hlookup]
        by_cases hkj : k = j
        · subst hkj
          rw [hin, List.map_cons, List.getLastD_cons] at hview
          rw [Function.update_self, if_pos rfl]
          exact hview
        · rw [Function.update_of_ne (hid.topic_ne hkj),
            if_neg (fun heq => hkj (hid.distinct heq))]
          exact hview
      · have hsome := AList.lookup_isSome.mpr hk
        simp only [hlookup] at hsome
        by_cases heq : key = id j
        · exact ⟨j, hji, heq.symm⟩
        · rw [if_neg heq] at hsome
          exact h.keys key (AList.lookup_isSome.mp hsome)

theorem Publishes.receive (h : Publishes n kept) (topic : String) (packet : Packet) :
    Publishes (n.receive topic packet) kept := by
  unfold Node.receive
  split
  · exact ⟨h.tables, h.formed, h.own, h.gone⟩
  · exact h

/-- The broker hands a message on and keeps it. -/
theorem Observes.receive (hid : Ids id) (h : Observes id i n retained) {packet : Packet}
    (hf : Formed packet) (j : ι) :
    Observes id i (n.receive (discoveryTopic (id j)) packet)
      (Function.update retained (discoveryTopic (id j)) packet) := by
  unfold Node.receive
  by_cases hn : n.listening = true
  · rw [if_pos (by rw [hn, hid.routed j]; rfl)]
    refine ⟨h.fresh, fun hl hf => ?_, fun hl _ k hk => ?_, h.keys, fun topic p hp => ?_⟩
    · rw [show n.listening = false from hf] at hn
      cases hn
    · by_cases hkj : k = j
      · subst hkj
        simp only [Function.update_self, List.map_append, List.map_cons, List.map_nil,
          List.getLastD_concat]
      · simp only [Function.update_of_ne (hid.topic_ne hkj)]
        exact h.view hl hn k hk
    · by_cases ht : topic = discoveryTopic (id j)
      · subst ht
        simp only [Function.update_self] at hp
        rcases List.mem_append.mp hp with hp | hp
        · exact h.formed _ p hp
        · rw [List.mem_singleton.mp hp]
          exact ⟨hf, j, rfl⟩
      · simp only [Function.update_of_ne ht] at hp
        exact h.formed topic p hp
  · rw [Bool.not_eq_true] at hn
    rw [hn, Bool.false_and, if_neg Bool.false_ne_true]
    refine ⟨h.fresh, h.silent, fun _ hl => ?_, h.keys, h.formed⟩
    rw [hn] at hl
    cases hl

end Steps

section Invariant

variable [DecidableEq ι] {id : ι → String} {s t : State ι κ}

theorem Invariant.setNode (h : Invariant id s) (i : ι) {n : Node κ}
    (hp : Publishes n (s.retained (discoveryTopic (id i)))) (ho : Observes id i n s.retained) :
    Invariant id (s.setNode i n) := by
  refine ⟨fun j => ?_, fun j => ?_, h.retained⟩
  · by_cases hji : j = i
    · subst hji
      simp only [State.setNode, Function.update_self]
      exact hp
    · simp only [State.setNode, Function.update_of_ne hji]
      exact h.publishes j
  · by_cases hji : j = i
    · subst hji
      simp only [State.setNode, Function.update_self]
      exact ho
    · simp only [State.setNode, Function.update_of_ne hji]
      exact h.observes j

theorem Invariant.broker (hid : Ids id) (h : Invariant id s) {i : ι}
    (hs : broker id s i = some t) : Invariant id t := by
  unfold SubscriberCount.broker at hs
  split at hs
  · cases hs
  · next packet rest hout =>
    obtain rfl := Option.some.inj hs
    have hp := h.publishes i
    have hf : Formed packet := hp.formed packet (by rw [hout]; exact List.mem_cons_self)
    have hlast : ∀ kept, (s.node i).outbox.getLastD kept = rest.getLastD packet := by
      intro kept
      rw [hout, List.getLastD_cons]
    refine ⟨fun j => Publishes.receive ?_ _ _, fun j => Observes.receive hid ?_ hf i,
      fun topic map hm => ?_⟩
    · by_cases hji : j = i
      · subst hji
        simp only [Function.update_self]
        refine ⟨hp.tables, fun p hm => hp.formed p (by rw [hout]; exact List.mem_cons_of_mem _ hm),
          fun hl => ?_, fun hl => ?_⟩
        · have hown := hp.own hl
          rw [hlast] at hown
          exact hown
        · have hgone := hp.gone hl
          rw [hlast] at hgone
          exact hgone
      · simp only [Function.update_of_ne hji, Function.update_of_ne (hid.topic_ne hji)]
        exact h.publishes j
    · by_cases hji : j = i
      · subst hji
        rw [Function.update_self]
        have ho := h.observes j
        exact ⟨ho.fresh, ho.silent, ho.view, ho.keys, ho.formed⟩
      · rw [Function.update_of_ne hji]
        exact h.observes j
    · by_cases ht : topic = discoveryTopic (id i)
      · subst ht
        simp only [Function.update_self] at hm
        subst hm
        exact ⟨hf, i, rfl⟩
      · simp only [Function.update_of_ne ht] at hm
        exact h.retained topic map hm

theorem Invariant.step {topicMatchesSub : String → String → Option Bool} (hid : Ids id)
    (h : Invariant id s) {e : Event ι κ} (hs : step topicMatchesSub id s e = some t) :
    Invariant id t := by
  cases e with
  | connect i =>
    obtain ⟨n, hn, rfl⟩ := Option.map_eq_some_iff.mp hs
    exact h.setNode i ((h.publishes i).connect hn) ((h.observes i).connect hn)
  | listen i =>
    obtain ⟨n, hn, rfl⟩ := Option.map_eq_some_iff.mp hs
    exact h.setNode i ((h.publishes i).listen hn) ((h.observes i).listen hid h.retained hn)
  | call i e =>
    obtain ⟨n, hn, rfl⟩ := Option.map_eq_some_iff.mp hs
    exact h.setNode i ((h.publishes i).call hn) ((h.observes i).call hn)
  | disconnect i =>
    obtain ⟨n, hn, rfl⟩ := Option.map_eq_some_iff.mp hs
    exact h.setNode i ((h.publishes i).disconnect hn) ((h.observes i).disconnect hn)
  | lose i arrived =>
    obtain ⟨n, hn, rfl⟩ := Option.map_eq_some_iff.mp hs
    exact h.setNode i ((h.publishes i).lose hn) ((h.observes i).lose hn)
  | broker i => exact h.broker hid hs
  | deliver i topic =>
    obtain ⟨n, hn, rfl⟩ := Option.map_eq_some_iff.mp hs
    exact h.setNode i ((h.publishes i).deliver hn) ((h.observes i).deliver hid hn)

theorem invariant_initial (topicMatchesSub : String → String → Option Bool) (id ip : ι → String) :
    Invariant id (machine (κ := κ) topicMatchesSub id ip).initial where
  publishes j := ⟨.new (ip j), nofun, fun _ => rfl, fun _ => rfl⟩
  observes i := ⟨fun _ => rfl, fun _ _ => ⟨rfl, rfl⟩, nofun, nofun, nofun⟩
  retained _ _ h := by cases h

end Invariant

section Agreement

variable {topicMatchesSub : String → String → Option Bool} {id : ι → String} {s : State ι κ}

/-- What a client has announced counts as its subscriptions do. -/
theorem Publishes.countP {n : Node κ} {kept : Packet} (h : Publishes n kept) (topic : String) :
    n.impl.mySubscribeTable.countP (fun p => compareTopic topicMatchesSub p.2 topic) =
      n.impl.mq.live.countP (fun d => compareTopic topicMatchesSub d.topic topic) := by
  rw [h.tables.table.countP_eq, List.countP_map]
  rfl

/-- When nothing is on its way, the row of a client is what it has subscribed, as long as it
is connected. -/
theorem Invariant.row (h : Invariant id s) {i : ι} (hl : (s.node i).link = .first)
    (hn : (s.node i).listening = true) (hd : Drained id s i) {j : ι} (hj : j ≠ i)
    (topic : String) :
    ((s.node i).remoteSubscribeTable.lookup (id j)).elim 0
        (fun row => row.countP (compareTopic topicMatchesSub · topic)) =
      if (s.node j).link.connected then (s.node j).impl.mq.live.countP
        (fun d => compareTopic topicMatchesSub d.topic topic) else 0 := by
  have hview := (h.observes i).view hl hn j hj
  rw [(hd j).2, List.map_nil, List.getLastD_nil] at hview
  have hp := h.publishes j
  rw [hview]
  cases hc : (s.node j).link.connected with
  | false =>
    have hgone := hp.gone hc
    rw [(hd j).1, List.getLastD_nil] at hgone
    rw [hgone]
    rfl
  | true =>
    have hown := hp.own (by intro heq; rw [heq] at hc; cases hc)
    rw [(hd j).1, List.getLastD_nil] at hown
    have helim : ∀ row : Option (List String), row.elim 0
        (fun row => row.countP (compareTopic topicMatchesSub · topic)) =
          (row.getD []).countP (compareTopic topicMatchesSub · topic) := by
      intro row
      cases row <;> rfl
    rw [helim, hown, List.countP_map, if_pos rfl, ← hp.countP]
    rfl

/-- The table of an observer that nothing is on its way to, and its own one, count all
subscriptions. -/
theorem Invariant.count [Fintype ι] [DecidableEq ι] (hid : Ids id) (h : Invariant id s) {i : ι}
    (hl : (s.node i).link = .first) (hn : (s.node i).listening = true) (hd : Drained id s i)
    (topic : String) :
    countSubscriber topicMatchesSub (s.node i).impl.mySubscribeTable
        (s.node i).remoteSubscribeTable topic =
      Int32.ofNat (liveSubscriptions topicMatchesSub s topic) := by
  have hkeys : ∀ key ∈ (s.node i).remoteSubscribeTable, ∃ j, id j = key := by
    intro key hk
    obtain ⟨j, -, hj⟩ := (h.observes i).keys key hk
    exact ⟨j, hj⟩
  have hself : (s.node i).remoteSubscribeTable.lookup (id i) = none := by
    by_contra hne
    have hmem := AList.lookup_isSome.mp (Option.isSome_iff_ne_none.mpr hne)
    obtain ⟨j, hj, he⟩ := (h.observes i).keys _ hmem
    exact hj (hid.distinct he)
  have hterm : ∀ j, (if (s.node j).link.connected then (s.node j).impl.mq.live.countP
      (fun d => compareTopic topicMatchesSub d.topic topic) else 0) =
        (if j = i then (s.node i).impl.mySubscribeTable.countP
          (fun p => compareTopic topicMatchesSub p.2 topic) else 0) +
        ((s.node i).remoteSubscribeTable.lookup (id j)).elim 0
          (fun row => row.countP (compareTopic topicMatchesSub · topic)) := by
    intro j
    by_cases hj : j = i
    · subst hj
      rw [hself, hl, if_pos rfl, (h.publishes j).countP]
      rfl
    · rw [if_neg hj, h.row hl hn hd hj, Nat.zero_add]
  rw [countSubscriber, liveSubscriptions, sum_entries hid.distinct _ hkeys]
  congr 1
  rw [Finset.sum_congr rfl fun j _ => hterm j, Finset.sum_add_distrib, Finset.sum_ite_eq']
  simp

end Agreement

/-- In every run of clients whose ids are distinct C strings without slashes, an observer that
has been connected since its first `Connect` and to which nothing is on its way counts the
live subscriptions of all connected clients. -/
theorem subscriber_count_agrees [Fintype ι] [DecidableEq ι]
    (topicMatchesSub : String → String → Option Bool) {id : ι → String} (hid : Ids id)
    (ip : ι → String) {s : State ι κ} (h : (machine topicMatchesSub id ip).Reachable s) (i : ι)
    (hl : (s.node i).link = .first) (hn : (s.node i).listening = true) (hd : Drained id s i)
    (topic : String) :
    countSubscriber topicMatchesSub (s.node i).impl.mySubscribeTable
        (s.node i).remoteSubscribeTable topic =
      Int32.ofNat (liveSubscriptions topicMatchesSub s topic) ∧
    (liveSubscriptions topicMatchesSub s topic < 2 ^ 31 →
      (countSubscriber topicMatchesSub (s.node i).impl.mySubscribeTable
        (s.node i).remoteSubscribeTable topic).toInt =
          liveSubscriptions topicMatchesSub s topic) := by
  have hi : Invariant id s :=
    h.invariant (invariant_initial topicMatchesSub id ip) fun _ _ _ _ hi _ hs => hi.step hid hs
  have hc : countSubscriber topicMatchesSub (s.node i).impl.mySubscribeTable
      (s.node i).remoteSubscribeTable topic =
      Int32.ofNat (liveSubscriptions topicMatchesSub s topic) := hi.count hid hl hn hd topic
  refine ⟨hc, fun hlt => ?_⟩
  rw [hc, Int32.toInt_ofNat_of_lt (by omega)]

def subscribeTo (topic : String) (base : ℕ) : SubscriptionTables.Event ℕ :=
  .subscribe topic 0 0 ⟨base, base + 1, base + 2, .ok ⟨4000, [], []⟩, true, true⟩

def threeIds : Fin 3 → String
  | 0 => "early"
  | 1 => "late"
  | 2 => "other"

def lateObserver : List (Event (Fin 3) ℕ) :=
  [.connect 0, .call 0 (subscribeTo "t" 1), .broker 0, .connect 1, .listen 1,
    .call 1 (subscribeTo "t" 1), .broker 1, .connect 2, .call 2 (subscribeTo "t" 1), .broker 2,
    .lose 2 0, .broker 2, .deliver 1 (discoveryTopic "late"),
    .deliver 1 (discoveryTopic "other"), .deliver 1 (discoveryTopic "early"),
    .deliver 1 (discoveryTopic "other")]

theorem threeIds_ids : Ids threeIds where
  distinct := by decide
  slashFree := by decide
  nonempty := by decide
  nulFree := by decide

theorem subscriber_count_of_late_observer :
    ∃ s : State (Fin 3) ℕ, (machine exactMatch threeIds fun _ => "").Reachable s ∧
      liveSubscriptions exactMatch s "t" = 2 ∧
      (countSubscriber exactMatch (s.node 1).impl.mySubscribeTable
        (s.node 1).remoteSubscribeTable "t").toInt = 2 := by
  obtain ⟨s, hr, hp⟩ := (machine exactMatch threeIds fun _ => "").exists_reachable lateObserver
    (fun s : State (Fin 3) ℕ => (s.node 1).link = .first ∧ (s.node 1).listening = true ∧
      Drained threeIds s 1 ∧ liveSubscriptions exactMatch s "t" = 2) (by decide +kernel)
  obtain ⟨hl, hn, hd, hlive⟩ := of_decide_eq_true hp
  have hc := subscriber_count_agrees exactMatch threeIds_ids (fun _ => "") hr 1 hl hn hd "t"
  refine ⟨s, hr, hlive, ?_⟩
  rw [hc.2 (by rw [hlive]; decide), hlive]
  rfl

/-- An id is cut at its NUL on the way to the broker: the client takes its own announcement
for that of another and counts its one subscription twice. -/
theorem own_subscription_is_counted_twice :
    ∃ (id : Unit → String) (s : State Unit ℕ),
      (Function.Injective id ∧ (∀ i, '/' ∉ (id i).toList) ∧ ∀ i, id i ≠ "") ∧
      (machine exactMatch id fun _ => "").Reachable s ∧
      (s.node ()).link = .first ∧ (s.node ()).listening = true ∧ Drained id s () ∧
      liveSubscriptions exactMatch s "t" = 1 ∧
      countSubscriber exactMatch (s.node ()).impl.mySubscribeTable
        (s.node ()).remoteSubscribeTable "t" = 2 := by
  obtain ⟨s, hr, hp⟩ := (machine exactMatch (fun _ : Unit => "a\x00b") fun _ => "").exists_reachable
    [.connect (), .listen (), .call () (subscribeTo "t" 1), .broker (),
      .deliver () (discoveryTopic "a")]
    (fun s : State Unit ℕ => (s.node ()).link = .first ∧ (s.node ()).listening = true ∧
      Drained (fun _ => "a\x00b") s () ∧ liveSubscriptions exactMatch s "t" = 1 ∧
      countSubscriber exactMatch (s.node ()).impl.mySubscribeTable
        (s.node ()).remoteSubscribeTable "t" = 2) (by decide +kernel)
  exact ⟨_, s, ⟨fun _ _ _ => rfl, by decide, by decide⟩, hr, of_decide_eq_true hp⟩

end SubscriberCount
