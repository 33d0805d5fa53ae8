import Aitt.AittImpl
import Aitt.TransitionRuns

/-! MQTT messages from the broker to the callbacks. The broker is a parameter: it takes the
requests of a session one after another, may keep messages, and may send a message more than
once. The mosquitto thread dispatches what arrives, and the main loop makes the calls that the
dispatch has queued. `Subscribe` and `Unsubscribe` may come between any two of these.
Subscriptions are numbered. -/
namespace MqttDelivery

open AittTypes MqttProperties TransitionRuns AittImpl
open MosquittoMQ (Client SubscribeData serves compareTopic)

/-- A broker as one session sees it: the filters that it has for the session, and what it sends
to it when it takes a filter or a publication, the latter with its retain flag. It sends a
publication, at least once, to a session that has a filter for it; of what else it sends nothing
is known. -/
structure Broker (topicMatchesSub : String → String → Option Bool) (β : Type) where
  filters : β → Finset String
  subscribe : β → String → β × List Message
  unsubscribe : β → String → β
  publish : β → Message → Bool → β × List Message
  filters_subscribe : ∀ b filter, filters (subscribe b filter).1 = insert filter (filters b)
  filters_unsubscribe : ∀ b filter, filters (unsubscribe b filter) = (filters b).erase filter
  filters_publish : ∀ b msg retain, filters (publish b msg retain).1 = filters b
  publish_sends : ∀ b msg retain, ∀ filter ∈ filters b,
    compareTopic topicMatchesSub filter msg.topic = true → msg ∈ (publish b msg retain).2

inductive Request where
  | subscribe (filter : String)
  | unsubscribe (filter : String)
  deriving DecidableEq, Repr

def Request.apply (filters : Finset String) : Request → Finset String
  | .subscribe filter => insert filter filters
  | .unsubscribe filter => filters.erase filter

/-- `requests` and `inbox` are under way to and from the broker, and `idle` is the queue of the
main loop. Only recorded: the calls that were made, what the broker has sent that the callbacks
are for, and, of that, the publications that came when it had their filters. -/
structure Node (β : Type) where
  impl : Impl ℕ
  broker : β
  requests : List Request := []
  inbox : List Message := []
  idle : List (Closure ℕ × Message) := []
  next : ℕ := 0
  log : List (ℕ × Message) := []
  due : ℕ → List Message := fun _ => []
  wanted : ℕ → List Message := fun _ => []

variable {ι β : Type} [DecidableEq ι] {topicMatchesSub : String → String → Option Bool}
  (B : Broker topicMatchesSub β)

namespace Node

def settled (n : Node β) : Finset String := n.requests.foldl Request.apply (B.filters n.broker)

variable (topicMatchesSub) in
def serving (n : Node β) (k : ℕ) (msg : Message) : Bool :=
  n.impl.mq.live.any fun d => d.cb.cb = k && serves topicMatchesSub msg d

def wanting (n : Node β) (k : ℕ) (msg : Message) : Bool :=
  n.impl.mq.live.any fun d => d.cb.cb = k && serves topicMatchesSub msg d &&
    decide (cStr d.topic ∈ B.filters n.broker)

variable (topicMatchesSub) in
def sent (n : Node β) (msgs : List Message) : Node β :=
  { n with
    inbox := n.inbox ++ msgs
    due := fun k => n.due k ++ msgs.filter (n.serving topicMatchesSub k) }

def publish (n : Node β) (msg : Message) (retain : Bool) : Node β :=
  let r := B.publish n.broker msg retain
  { n.sent topicMatchesSub r.2 with
    broker := r.1
    wanted := fun k => if n.wanting B k msg then n.wanted k ++ [msg] else n.wanted k }

def handle (n : Node β) : Option (Node β) :=
  match n.requests with
  | [] => none
  | .subscribe filter :: rest =>
    let r := B.subscribe n.broker filter
    some { n.sent topicMatchesSub r.2 with broker := r.1, requests := rest }
  | .unsubscribe filter :: rest =>
    some { n with broker := B.unsubscribe n.broker filter, requests := rest }

variable (topicMatchesSub) in
/-- What is on its way to the session also goes to the new subscription. -/
def subscribe (n : Node β) (topic : String) (userData : Address) (o : Outcome) : Node β :=
  let data : SubscribeData (Closure ℕ) := ⟨o.handle, topic, ⟨o.info, n.next⟩, userData⟩
  { n with
    impl := (n.impl.subscribe .mqtt topic n.next userData o).1
    requests := if o.ret then n.requests ++ [.subscribe (cStr topic)] else n.requests
    next := n.next + 1
    due := Function.update n.due n.next
      (n.inbox.filter fun msg => serves topicMatchesSub msg data)
    wanted := Function.update n.wanted n.next [] }

def victim (n : Node β) (id : Address) : Option (SubscribeData (Closure ℕ)) :=
  (n.impl.find id).bind fun info =>
    if info.protocol = .mqtt ∧ info.handle ≠ 0 then
      n.impl.mq.subscribers[n.impl.mq.find info.handle]?
    else none

def unsubscribe (n : Node β) (id : Address) (ret published : Bool) : Node β :=
  { n with
    impl := (n.impl.unsubscribe id ret published).1
    requests := if ret then n.requests ++ (n.victim id).toList.map (.unsubscribe <| cStr ·.topic)
      else n.requests }

variable (topicMatchesSub) in
/-- A message that cannot be read ends the process when there is a subscriber for it. -/
def deliver (n : Node β) : Option (Node β) :=
  match n.inbox with
  | [] => none
  | msg :: rest =>
    let r := n.impl.messageCB topicMatchesSub msg
    if (readMsg msg).isOk ∨ r.2 = [] then
      some { n with impl := r.1, inbox := rest, idle := n.idle ++ r.2.map (·, msg) }
    else none

def invoke (n : Node β) : Option (Node β) :=
  match n.idle with
  | [] => none
  | (c, msg) :: rest => some { n with idle := rest, log := n.log ++ [(c.cb, msg)] }

def calls (n : Node β) (k : ℕ) : List Message :=
  ((n.log ++ n.idle.map fun p => (p.1.cb, p.2)).filter (·.1 = k)).map (·.2)

end Node

inductive Call where
  | subscribe (topic : String) (userData : Address) (o : Outcome)
  | unsubscribe (id : Address) (ret published : Bool)
  | handle
  | deliver
  | invoke

def Node.step (n : Node β) : Call → Option (Node β)
  | .subscribe topic userData o =>
    if Fresh n.impl .mqtt o then some (n.subscribe topicMatchesSub topic userData o) else none
  | .unsubscribe id ret published => some (n.unsubscribe id ret published)
  | .handle => n.handle B
  | .deliver => n.deliver topicMatchesSub
  | .invoke => n.invoke

inductive Event (ι : Type) where
  | publish (msg : Message) (retain : Bool)
  | call (i : ι) (c : Call)

def step (s : ι → Node β) : Event ι → Option (ι → Node β)
  | .publish msg retain => some fun i => (s i).publish B msg retain
  | .call i c => ((s i).step B c).map (Function.update s i)

def machine (start : ι → β) (ip : ι → String) : Machine (ι → Node β) (Event ι) where
  initial i := { impl := .new (ip i), broker := start i }
  step := step B

/-- Every subscription gets what is due to it, once for each time that the broker sends it and in
order; among that are all publications for it since the broker has its filter; and the broker
has it when it has taken all requests. -/
structure Exact (n : Node β) : Prop where
  calls : ∀ d ∈ n.impl.mq.live,
    n.calls d.cb.cb ++ n.inbox.filter (serves topicMatchesSub · d) = n.due d.cb.cb
  wanted : ∀ d ∈ n.impl.mq.live, (n.wanted d.cb.cb).Sublist (n.due d.cb.cb)
  covered : ∀ d ∈ n.impl.mq.live, cStr d.topic ∈ n.settled B

variable (topicMatchesSub) in
/-- The filter that is taken out at the broker is that of no other subscription, and a dispatch
does not begin with a second turn for the first subscriber. -/
def Node.Ok (n : Node β) : Call → Prop
  | .unsubscribe id ret _ => ret = true → ∀ d ∈ n.victim id, ∀ d' ∈ n.impl.mq.live,
      d'.handle ≠ d.handle → cStr d'.topic ≠ cStr d.topic
  | .deliver => n.impl.mq.subscriberIteratorUpdated = true → ∀ msg ∈ n.inbox.head?,
      ∀ d ∈ n.impl.mq.subscribers.head?, serves topicMatchesSub msg d = false
  | .subscribe _ _ _ | .handle | .invoke => True

variable (topicMatchesSub) in
def Ok (s : ι → Node β) : Event ι → Prop
  | .publish _ _ => True
  | .call i c => (s i).Ok topicMatchesSub c

instance (n : Node β) (c : Call) : Decidable (n.Ok topicMatchesSub c) :=
  match c with
  | .unsubscribe _ _ _ => inferInstanceAs (Decidable (_ → ∀ _ ∈ _, ∀ _ ∈ _, _ → _))
  | .deliver => inferInstanceAs (Decidable (_ → ∀ _ ∈ _, ∀ _ ∈ _, _))
  | .subscribe _ _ _ | .handle | .invoke => inferInstanceAs (Decidable True)

instance (s : ι → Node β) (e : Event ι) : Decidable (Ok topicMatchesSub s e) :=
  match e with
  | .publish _ _ => inferInstanceAs (Decidable True)
  | .call i c => inferInstanceAs (Decidable ((s i).Ok topicMatchesSub c))

structure Sound (n : Node β) : Prop where
  mq : MosquittoMQ.WellFormed n.impl.mq
  calm : n.impl.mq.newSubscribers = [] ∧ n.impl.mq.subscribersIterating = false
  mqtt : ∀ e ∈ n.impl.subscribedList, e.protocol = .mqtt
  numbers : (n.impl.mq.live.map (·.cb.cb)).Nodup
  live_lt : ∀ d ∈ n.impl.mq.live, d.cb.cb < n.next
  log_lt : ∀ p ∈ n.log, p.1 < n.next
  idle_lt : ∀ p ∈ n.idle, p.1.cb < n.next

variable {B} {n : Node β} {msg : Message} {d : SubscribeData (Closure ℕ)}

theorem Sound.live_eq (h : Sound n) : n.impl.mq.live = n.impl.mq.subscribers := by
  rw [Client.live, h.calm.1, List.append_nil]

theorem Sound.eq_of_number (h : Sound n) {d' : SubscribeData (Closure ℕ)}
    (hd : d ∈ n.impl.mq.live) (hd' : d' ∈ n.impl.mq.live) (he : d.cb.cb = d'.cb.cb) : d = d' :=
  List.inj_on_of_nodup_map h.numbers hd hd' he

/-- In a list of subscribers with different numbers, one has this number. -/
theorem filter_number {l : List (SubscribeData (Closure ℕ))} (h : (l.map (·.cb.cb)).Nodup)
    (hd : d ∈ l) : l.filter (·.cb.cb = d.cb.cb) = [d] := by
  have heq : l.filter (·.cb.cb = d.cb.cb) = l.filter (· = d) := by
    apply List.filter_congr
    intro x hx
    exact decide_eq_decide.mpr ⟨fun he => List.inj_on_of_nodup_map h hx hd he, fun he => by rw [he]⟩
  rw [heq, List.filter_eq, List.count_eq_one_of_mem (List.Nodup.of_map _ h) hd, List.replicate_one]

variable (topicMatchesSub) in
/-- The calls that one turn of every subscriber makes of the subscription. -/
theorem filter_turns {l : List (SubscribeData (Closure ℕ))} (h : (l.map (·.cb.cb)).Nodup)
    (hd : d ∈ l) (msg : Message) :
    ((l.filter (serves topicMatchesSub msg)).map (·.cb)).filter (·.cb = d.cb.cb) =
      if serves topicMatchesSub msg d then [d.cb] else [] := by
  rw [List.filter_map, List.filter_filter]
  have hsplit : l.filter (fun x => ((fun c : Closure ℕ => decide (c.cb = d.cb.cb)) ∘ (·.cb)) x &&
      serves topicMatchesSub msg x) = [d].filter (serves topicMatchesSub msg) := by
    rw [← filter_number h hd, List.filter_filter]
    apply List.filter_congr
    intro x _
    exact Bool.and_comm _ _
  rw [hsplit, List.filter_singleton]
  cases serves topicMatchesSub msg d <;> rfl

theorem serves_cStr (d : SubscribeData (Closure ℕ)) (msg : Message)
    (h : serves topicMatchesSub msg d = true) :
    compareTopic topicMatchesSub (cStr d.topic) msg.topic = true := by
  rw [serves, Bool.and_eq_true] at h
  rw [compareTopic, cStr_idem]
  exact h.2

/-- For a live subscription the recorded tests are its own. -/
theorem Sound.any_live (h : Sound n) (hd : d ∈ n.impl.mq.live)
    (p : SubscribeData (Closure ℕ) → Bool) :
    (n.impl.mq.live.any fun d' => d'.cb.cb = d.cb.cb && p d') = p d := by
  rw [Bool.eq_iff_iff, List.any_eq_true]
  constructor
  · rintro ⟨d', hd', hand⟩
    simp only [Bool.and_eq_true, decide_eq_true_eq] at hand
    exact h.eq_of_number hd' hd hand.1 ▸ hand.2
  · intro hp
    exact ⟨d, hd, by simp [hp]⟩

theorem Sound.serving_eq (h : Sound n) (hd : d ∈ n.impl.mq.live) (msg : Message) :
    n.serving topicMatchesSub d.cb.cb msg = serves topicMatchesSub msg d :=
  h.any_live hd (serves topicMatchesSub msg)

theorem Sound.wanting_eq (h : Sound n) (hd : d ∈ n.impl.mq.live) (msg : Message) :
    n.wanting B d.cb.cb msg =
      (serves topicMatchesSub msg d && decide (cStr d.topic ∈ B.filters n.broker)) := by
  rw [← h.any_live hd fun d => serves topicMatchesSub msg d &&
    decide (cStr d.topic ∈ B.filters n.broker)]
  simp only [Node.wanting, Bool.and_assoc]

theorem Sound.due_sent (h : Sound n) (hd : d ∈ n.impl.mq.live) (msgs : List Message) :
    (n.sent topicMatchesSub msgs).due d.cb.cb =
      n.due d.cb.cb ++ msgs.filter (serves topicMatchesSub · d) := by
  have hserving : n.serving topicMatchesSub d.cb.cb = (serves topicMatchesSub · d) :=
    funext (h.serving_eq hd)
  exact congrArg (fun p => n.due d.cb.cb ++ msgs.filter p) hserving

/-- What the broker sends is queued for the subscriptions that it is due to. -/
theorem Exact.calls_sent (hx : Exact B n) (h : Sound n) (hd : d ∈ n.impl.mq.live)
    (msgs : List Message) :
    n.calls d.cb.cb ++ (n.inbox ++ msgs).filter (serves topicMatchesSub · d) =
      (n.sent topicMatchesSub msgs).due d.cb.cb := by
  rw [List.filter_append, ← List.append_assoc, hx.calls d hd, h.due_sent hd]

theorem Sound.publish (h : Sound n) (msg : Message) (retain : Bool) :
    Sound (n.publish B msg retain) :=
  ⟨h.mq, h.calm, h.mqtt, h.numbers, h.live_lt, h.log_lt, h.idle_lt⟩

/-- The broker sends a publication to every session that has a filter for it. -/
theorem Exact.publish (hx : Exact B n) (h : Sound n) (msg : Message) (retain : Bool) :
    Exact B (n.publish B msg retain) where
  calls d hd := hx.calls_sent h hd (B.publish n.broker msg retain).2
  wanted d hd := by
    have hd : d ∈ n.impl.mq.live := hd
    change List.Sublist (if n.wanting B d.cb.cb msg then n.wanted d.cb.cb ++ [msg]
      else n.wanted d.cb.cb) ((n.sent topicMatchesSub _).due d.cb.cb)
    rw [h.due_sent hd]
    split
    · rename_i hw
      simp only [h.wanting_eq hd, Bool.and_eq_true, decide_eq_true_eq] at hw
      refine (hx.wanted d hd).append (List.singleton_sublist.mpr (List.mem_filter.mpr ⟨?_, hw.1⟩))
      exact B.publish_sends _ _ _ _ hw.2 (serves_cStr d msg hw.1)
    · exact (hx.wanted d hd).trans (List.sublist_append_left _ _)
  covered d hd := by
    have hsettled : (n.publish B msg retain).settled B = n.settled B :=
      congrArg (n.requests.foldl Request.apply) (B.filters_publish n.broker msg retain)
    rw [hsettled]
    exact hx.covered d hd

theorem Sound.handle (h : Sound n) {t : Node β} (ht : n.handle B = some t) : Sound t := by
  rw [Node.handle] at ht
  split at ht
  · cases ht
  · obtain rfl := Option.some.inj ht
    exact ⟨h.mq, h.calm, h.mqtt, h.numbers, h.live_lt, h.log_lt, h.idle_lt⟩
  · obtain rfl := Option.some.inj ht
    exact ⟨h.mq, h.calm, h.mqtt, h.numbers, h.live_lt, h.log_lt, h.idle_lt⟩

/-- A request that the broker takes is the same for it as one that is under way. -/
theorem settled_handle {t : Node β} (ht : n.handle B = some t) : t.settled B = n.settled B := by
  rw [Node.handle] at ht
  split at ht
  · cases ht
  · rename_i filter rest hr
    obtain rfl := Option.some.inj ht
    rw [Node.settled, Node.settled, hr, List.foldl_cons, Request.apply, B.filters_subscribe]
  · rename_i filter rest hr
    obtain rfl := Option.some.inj ht
    rw [Node.settled, Node.settled, hr, List.foldl_cons, Request.apply, B.filters_unsubscribe]

theorem Exact.handle (hx : Exact B n) (h : Sound n) {t : Node β} (ht : n.handle B = some t) :
    Exact B t := by
  have hsettled := settled_handle ht
  rw [Node.handle] at ht
  split at ht
  · cases ht
  · obtain rfl := Option.some.inj ht
    refine ⟨fun d hd => hx.calls_sent h hd _, fun d hd => ?_, fun d hd => hsettled ▸ hx.covered d hd⟩
    change List.Sublist (n.wanted d.cb.cb) ((n.sent topicMatchesSub _).due d.cb.cb)
    rw [h.due_sent hd]
    exact (hx.wanted d hd).trans (List.sublist_append_left _ _)
  · obtain rfl := Option.some.inj ht
    exact ⟨hx.calls, hx.wanted, fun d hd => hsettled ▸ hx.covered d hd⟩

/-- Whatever `Subscribe` answers, the client has done what it was asked for. -/
theorem subscribe_mq (i : Impl ℕ) (topic : String) (cb : ℕ) (userData : Address) (o : Outcome) :
    (i.subscribe .mqtt topic cb userData o).1.mq =
      (i.mq.subscribe ⟨o.handle, topic, ⟨o.info, cb⟩, userData⟩ o.ret).1 := by
  simp only [Impl.subscribe, Impl.transportSubscribe, Impl.subscribeMQ]
  rcases i.mq.subscribe ⟨o.handle, topic, ⟨o.info, cb⟩, userData⟩ o.ret with ⟨mq, err | handle⟩
  · rfl
  · by_cases hm : handle ∈ i.mySubscribeTable.map (·.1)
    · simp only [hm, if_true]
    · cases hp : o.published <;> simp [hm]

theorem subscribe_protocols (i : Impl ℕ) (topic : String) (cb : ℕ) (userData : Address)
    (o : Outcome) :
    ∀ e ∈ (i.subscribe .mqtt topic cb userData o).1.subscribedList,
      e ∈ i.subscribedList ∨ e.protocol = .mqtt := by
  intro e he
  simp only [Impl.subscribe, Impl.transportSubscribe, Impl.subscribeMQ] at he
  rcases hs : i.mq.subscribe ⟨o.handle, topic, ⟨o.info, cb⟩, userData⟩ o.ret with
    ⟨mq, err | handle⟩
  · rw [hs] at he
    exact .inl he
  · rw [hs] at he
    by_cases hm : handle ∈ i.mySubscribeTable.map (·.1)
    · simp only [hm, if_true] at he
      exact .inl he
    · cases hp : o.published with
      | false =>
        simp only [hm, hp, if_false, Bool.false_eq_true] at he
        exact .inl he
      | true =>
        simp only [hm, hp, if_false, if_true] at he
        rcases List.mem_append.mp he with he | he
        · exact .inl he
        · rw [List.mem_singleton.mp he]
          exact .inr rfl

def Node.added (n : Node β) (topic : String) (userData : Address) (o : Outcome) :
    SubscribeData (Closure ℕ) := ⟨o.handle, topic, ⟨o.info, n.next⟩, userData⟩

variable {topic : String} {userData : Address} {o : Outcome}

variable (topicMatchesSub topic userData o) in
theorem Sound.subscribe_live (h : Sound n) :
    (n.subscribe topicMatchesSub topic userData o).impl.mq.subscribers =
      n.impl.mq.subscribers ++ (if o.ret then [n.added topic userData o] else []) ∧
    (n.subscribe topicMatchesSub topic userData o).impl.mq.newSubscribers = [] ∧
    (n.subscribe topicMatchesSub topic userData o).impl.mq.subscribersIterating = false := by
  have hmq : (n.subscribe topicMatchesSub topic userData o).impl.mq =
      (n.impl.mq.subscribe (n.added topic userData o) o.ret).1 := subscribe_mq _ _ _ _ _
  rw [hmq]
  cases hr : o.ret with
  | false =>
    rw [MosquittoMQ.subscribe_fails]
    exact ⟨(List.append_nil _).symm, h.calm⟩
  | true => simp [Client.subscribe, h.calm]

theorem Sound.mem_subscribe (h : Sound n) :
    d ∈ (n.subscribe topicMatchesSub topic userData o).impl.mq.live ↔
      d ∈ n.impl.mq.live ∨ o.ret = true ∧ d = n.added topic userData o := by
  obtain ⟨hs, hn, -⟩ := h.subscribe_live topicMatchesSub topic userData o
  rw [Client.live, hn, List.append_nil, hs, List.mem_append, h.live_eq]
  cases o.ret <;> simp

theorem Sound.subscribe (h : Sound n) (hf : Fresh n.impl .mqtt o) :
    Sound (n.subscribe topicMatchesSub topic userData o) := by
  obtain ⟨hs, hn, hi⟩ := h.subscribe_live topicMatchesSub topic userData o
  have hmq : (n.subscribe topicMatchesSub topic userData o).impl.mq =
      (n.impl.mq.subscribe (n.added topic userData o) o.ret).1 := subscribe_mq _ _ _ _ _
  refine ⟨?_, ⟨hn, hi⟩, ?_, ?_, ?_, ?_, ?_⟩
  · rw [hmq]
    cases o.ret with
    | false => exact h.mq
    | true =>
      refine h.mq.subscribe ⟨hf.nonnull, ?_⟩
      intro d hd
      exact hf.handle (d.handle, d.cb) (mem_cells_mqtt.mpr ⟨d, hd, rfl⟩)
  · intro e he
    rcases subscribe_protocols _ _ _ _ _ e he with he | he
    · exact h.mqtt e he
    · exact he
  · rw [Client.live, hn, List.append_nil, hs, List.map_append]
    refine List.Nodup.append (h.live_eq ▸ h.numbers) ?_ ?_
    · cases o.ret <;> simp
    · intro k hk hnew
      obtain ⟨d, hd, rfl⟩ := List.mem_map.mp hk
      cases hr : o.ret with
      | false => simp [hr] at hnew
      | true =>
        simp only [hr, if_true, List.map_cons, List.map_nil, List.mem_singleton] at hnew
        exact absurd hnew (h.live_lt d (h.live_eq ▸ hd)).ne
  · intro d hd
    rcases h.mem_subscribe.mp hd with hd | ⟨-, rfl⟩
    · exact (h.live_lt d hd).trans (Nat.lt_succ_self _)
    · exact Nat.lt_succ_self _
  · intro p hp
    exact (h.log_lt p hp).trans (Nat.lt_succ_self _)
  · intro p hp
    exact (h.idle_lt p hp).trans (Nat.lt_succ_self _)

/-- A new number has no calls yet. -/
theorem Sound.calls_next (h : Sound n) : n.calls n.next = [] := by
  rw [Node.calls, List.map_eq_nil_iff, List.filter_eq_nil_iff]
  intro p hp
  rw [decide_eq_true_eq]
  rcases List.mem_append.mp hp with hp | hp
  · exact (h.log_lt p hp).ne
  · obtain ⟨q, hq, rfl⟩ := List.mem_map.mp hp
    exact (h.idle_lt q hq).ne

theorem settled_subscribe (n : Node β) (topic : String) (userData : Address) (o : Outcome) :
    (n.subscribe topicMatchesSub topic userData o).settled B =
      if o.ret then insert (cStr topic) (n.settled B) else n.settled B := by
  unfold Node.settled Node.subscribe
  cases o.ret with
  | true => exact List.foldl_append
  | false => rfl

theorem Exact.subscribe (hx : Exact B n) (h : Sound n) :
    Exact B (n.subscribe topicMatchesSub topic userData o) := by
  have hcalls : ∀ k, (n.subscribe topicMatchesSub topic userData o).calls k = n.calls k :=
    fun _ => rfl
  have hdue : (n.subscribe topicMatchesSub topic userData o).due = Function.update n.due n.next
      (n.inbox.filter (serves topicMatchesSub · (n.added topic userData o))) := rfl
  have hwanted : (n.subscribe topicMatchesSub topic userData o).wanted =
      Function.update n.wanted n.next [] := rfl
  have hnumber : (n.added topic userData o).cb.cb = n.next := rfl
  constructor
  · intro d hd
    rw [hcalls, hdue]
    rcases h.mem_subscribe.mp hd with hd | ⟨-, rfl⟩
    · rw [Function.update_of_ne (h.live_lt d hd).ne]
      exact hx.calls d hd
    · rw [hnumber, h.calls_next, Function.update_self]
      rfl
  · intro d hd
    rw [hwanted, hdue]
    rcases h.mem_subscribe.mp hd with hd | ⟨-, rfl⟩
    · rw [Function.update_of_ne (h.live_lt d hd).ne, Function.update_of_ne (h.live_lt d hd).ne]
      exact hx.wanted d hd
    · rw [hnumber, Function.update_self]
      exact List.nil_sublist _
  · intro d hd
    rw [settled_subscribe]
    rcases h.mem_subscribe.mp hd with hd | ⟨hr, rfl⟩
    · split
      · exact Finset.mem_insert_of_mem (hx.covered d hd)
      · exact hx.covered d hd
    · rw [if_pos hr]
      exact Finset.mem_insert_self _ _

/-- Whether it returns or throws, `Unsubscribe` takes the victim out of the client. -/
theorem Sound.unsubscribe_mq (h : Sound n) (id : Address) (ret published : Bool) :
    ((n.unsubscribe id ret published).impl.subscribedList ⊆ n.impl.subscribedList) ∧
    ((n.victim id = none ∧ (n.unsubscribe id ret published).impl.mq = n.impl.mq) ∨
      ∃ d k, n.victim id = some d ∧ n.impl.mq.subscribers[k]? = some d ∧
        (n.unsubscribe id ret published).impl.mq = n.impl.mq.erase k) := by
  have himpl : (n.unsubscribe id ret published).impl =
      (n.impl.unsubscribe id ret published).1 := rfl
  rw [himpl, Node.victim, Impl.unsubscribe]
  cases hf : n.impl.find id with
  | none => exact ⟨List.Subset.refl _, .inl ⟨rfl, rfl⟩⟩
  | some info =>
    have hp := h.mqtt info (mem_of_find hf).1
    simp only [Option.bind_some, hp, true_and, Impl.transportUnsubscribe, Impl.unsubscribeMQ]
    by_cases hz : info.handle = 0
    · simp only [Client.unsubscribe, hz, if_true, ne_eq, not_true_eq_false, if_false]
      refine ⟨?_, .inl ⟨trivial, ?_⟩⟩
      · by_cases hm : 0 ∈ n.impl.mySubscribeTable.map (·.1)
        · cases published <;> simp [hm, List.eraseP_subset]
        · simp [hm]
      · by_cases hm : 0 ∈ n.impl.mySubscribeTable.map (·.1)
        · cases published <;> simp [hm]
        · simp [hm]
    · simp only [Client.unsubscribe, hz, if_false, ne_eq, not_false_eq_true, if_true]
      cases hd : n.impl.mq.subscribers[n.impl.mq.find info.handle]? with
      | none => exact ⟨List.Subset.refl _, .inl ⟨rfl, rfl⟩⟩
      | some d =>
        cases ret with
        | false => exact ⟨List.Subset.refl _, .inr ⟨d, _, rfl, hd, rfl⟩⟩
        | true =>
          by_cases hm : info.handle ∈ n.impl.mySubscribeTable.map (·.1)
          · cases published with
            | false =>
              simp only [if_true, hm]
              exact ⟨List.Subset.refl _, .inr ⟨d, _, rfl, hd, rfl⟩⟩
            | true =>
              simp only [if_true, hm]
              exact ⟨List.eraseP_subset, .inr ⟨d, _, rfl, hd, rfl⟩⟩
          · simp only [if_true, hm, if_false]
            exact ⟨List.Subset.refl _, .inr ⟨d, _, rfl, hd, rfl⟩⟩

theorem Sound.unsubscribe (h : Sound n) (id : Address) (ret published : Bool) :
    Sound (n.unsubscribe id ret published) := by
  obtain ⟨hlist, hmq⟩ := h.unsubscribe_mq id ret published
  have hmqtt : ∀ e ∈ (n.unsubscribe id ret published).impl.subscribedList,
      e.protocol = .mqtt := fun e he => h.mqtt e (hlist he)
  rcases hmq with ⟨-, hmq⟩ | ⟨d, k, -, hk, hmq⟩
  · refine ⟨hmq ▸ h.mq, hmq ▸ h.calm, hmqtt, ?_, ?_, h.log_lt, h.idle_lt⟩
    · rw [hmq]
      exact h.numbers
    · rw [hmq]
      exact h.live_lt
  · have hsub : (n.impl.mq.erase k).live.Sublist n.impl.mq.live := by
      rw [Client.live, Client.live, MosquittoMQ.erase_subscribers,
        MosquittoMQ.erase_newSubscribers]
      exact (List.eraseIdx_sublist _ k).append_right _
    refine ⟨hmq ▸ h.mq.erase hk, ?_, hmqtt, ?_, ?_, h.log_lt, h.idle_lt⟩
    · rw [hmq, MosquittoMQ.erase_newSubscribers, MosquittoMQ.erase_iterating]
      exact h.calm
    · rw [hmq]
      exact h.numbers.sublist (hsub.map _)
    · rw [hmq]
      exact fun d hd => h.live_lt d (hsub.subset hd)

/-- The subscriptions that stay are those with another handle. -/
theorem Sound.mem_unsubscribe (h : Sound n) (id : Address) (ret published : Bool) :
    d ∈ (n.unsubscribe id ret published).impl.mq.live ↔
      d ∈ n.impl.mq.live ∧ ∀ v ∈ n.victim id, d.handle ≠ v.handle := by
  rcases (h.unsubscribe_mq id ret published).2 with ⟨hv, hmq⟩ | ⟨v, k, hv, hk, hmq⟩
  · rw [hmq, hv]
    simp
  · rw [hmq, hv, h.mq.mem_erase_live hk]
    simp

theorem mem_settled_unsubscribe (n : Node β) (id : Address) (ret published : Bool) (f : String) :
    f ∈ (n.unsubscribe id ret published).settled B ↔
      f ∈ n.settled B ∧ (ret = true → ∀ v ∈ n.victim id, f ≠ cStr v.topic) := by
  unfold Node.settled Node.unsubscribe
  cases ret with
  | false => simp
  | true =>
    cases hv : n.victim id with
    | none => simp
    | some v => simp [List.foldl_append, Request.apply, and_comm]

/-- `Unsubscribe` keeps what is due exactly when no other subscription loses its filter. -/
theorem Exact.unsubscribe_iff (hx : Exact B n) (h : Sound n) (id : Address)
    (ret published : Bool) :
    Exact B (n.unsubscribe id ret published) ↔
      n.Ok topicMatchesSub (.unsubscribe id ret published) := by
  constructor
  · intro ht hret v hv d hd hne
    have hin := ht.covered d ((h.mem_unsubscribe id ret published).mpr ⟨hd, ?_⟩)
    · exact ((mem_settled_unsubscribe n id ret published _).mp hin).2 hret v hv
    · intro v' hv'
      rw [Option.mem_unique hv' hv]
      exact hne
  · intro hok
    refine ⟨fun d hd => ?_, fun d hd => ?_, fun d hd => ?_⟩
    · exact hx.calls d ((h.mem_unsubscribe id ret published).mp hd).1
    · exact hx.wanted d ((h.mem_unsubscribe id ret published).mp hd).1
    · obtain ⟨hd, hne⟩ := (h.mem_unsubscribe id ret published).mp hd
      refine (mem_settled_unsubscribe n id ret published _).mpr ⟨hx.covered d hd, ?_⟩
      intro hret v hv
      exact hok hret v hv d hd (hne v hv)

def Node.twice (n : Node β) (d : SubscribeData (Closure ℕ)) : Prop :=
  n.impl.mq.subscriberIteratorUpdated = true ∧ n.impl.mq.subscribers.head? = some d

instance (n : Node β) (d : SubscribeData (Closure ℕ)) : Decidable (n.twice d) :=
  inferInstanceAs (Decidable (_ ∧ _))

variable (topicMatchesSub) in
/-- The calls of one subscription that a dispatch queues. -/
theorem Sound.filter_messageCB (h : Sound n) (hd : d ∈ n.impl.mq.live) (msg : Message) :
    (n.impl.messageCB topicMatchesSub msg).2.filter (·.cb = d.cb.cb) =
      (if n.twice d ∧ serves topicMatchesSub msg d = true then [d.cb] else []) ++
        if serves topicMatchesSub msg d then [d.cb] else [] := by
  have hsub : d ∈ n.impl.mq.subscribers := h.live_eq ▸ hd
  have hnodup : (n.impl.mq.subscribers.map (·.cb.cb)).Nodup := h.live_eq ▸ h.numbers
  have hall := filter_turns topicMatchesSub hnodup hsub msg
  simp only [Impl.messageCB, MosquittoDelivery.messageCB, MosquittoDelivery.turns, List.drop_zero]
  cases hu : n.impl.mq.subscriberIteratorUpdated with
  | false =>
    have htwice : ¬ n.twice d := fun ht => by simp [ht.1] at hu
    simp only [Bool.false_eq_true, if_false, hall, htwice, false_and, List.nil_append]
  | true =>
    rw [if_pos rfl, List.filter_append, List.map_append, List.filter_append, hall]
    congr 1
    cases hs : n.impl.mq.subscribers with
    | nil => simp [hs] at hsub
    | cons a rest =>
      have hhead : n.twice d ↔ a = d := by simp [Node.twice, hu, hs]
      rw [List.take_succ_cons, List.take_zero, List.filter_singleton, if_congr (and_congr_left'
        hhead) rfl rfl]
      by_cases ha : a = d
      · subst ha
        cases serves topicMatchesSub msg a <;> simp
      · have hne : a.cb.cb ≠ d.cb.cb := by
          intro he
          exact ha (h.eq_of_number (h.live_eq ▸ hs ▸ List.mem_cons_self) hd he)
        cases serves topicMatchesSub msg a <;> simp [ha, hne]

theorem deliver_eq {t : Node β} (ht : n.deliver topicMatchesSub = some t) :
    ∃ msg rest, n.inbox = msg :: rest ∧
      t = { n with
        impl := (n.impl.messageCB topicMatchesSub msg).1
        inbox := rest
        idle := n.idle ++ (n.impl.messageCB topicMatchesSub msg).2.map (·, msg) } := by
  rw [Node.deliver] at ht
  cases hin : n.inbox with
  | nil =>
    rw [hin] at ht
    cases ht
  | cons msg rest =>
    rw [hin] at ht
    simp only [Option.ite_none_right_eq_some, Option.some.injEq] at ht
    exact ⟨msg, rest, rfl, ht.2.symm⟩

variable (topicMatchesSub) in
theorem Sound.messageCB_live (h : Sound n) (msg : Message) :
    (n.impl.messageCB topicMatchesSub msg).1.mq.live = n.impl.mq.live := by
  simp [Impl.messageCB, MosquittoDelivery.messageCB, Client.live, h.calm.1]

theorem Sound.deliver (h : Sound n) {t : Node β} (ht : n.deliver topicMatchesSub = some t) :
    Sound t := by
  obtain ⟨msg, rest, -, rfl⟩ := deliver_eq ht
  have hlive := h.messageCB_live topicMatchesSub msg
  refine ⟨h.mq.of_perm (.of_eq hlive), ⟨rfl, rfl⟩, h.mqtt, ?_, ?_, h.log_lt, ?_⟩
  · rw [hlive]
    exact h.numbers
  · rw [hlive]
    exact h.live_lt
  · intro p hp
    rcases List.mem_append.mp hp with hp | hp
    · exact h.idle_lt p hp
    · obtain ⟨c, hc, rfl⟩ := List.mem_map.mp hp
      obtain ⟨d, hd, -, rfl⟩ := messageCB_serves hc
      exact h.live_lt d hd

/-- More calls at the end of the queue. -/
theorem calls_queue (n : Node β) (impl : Impl ℕ) (inbox : List Message)
    (q : List (Closure ℕ × Message)) (k : ℕ) :
    ({ n with impl := impl, inbox := inbox, idle := n.idle ++ q } : Node β).calls k =
      n.calls k ++ (q.filter (·.1.cb = k)).map (·.2) := by
  simp only [Node.calls, List.map_append, ← List.append_assoc, List.filter_append]
  rw [List.filter_map (l := q), List.map_map]
  rfl

/-- What a dispatch adds to the calls of one subscription. -/
theorem Sound.calls_deliver (h : Sound n) (hd : d ∈ n.impl.mq.live) (msg : Message)
    (rest : List Message) :
    ({ n with
      impl := (n.impl.messageCB topicMatchesSub msg).1
      inbox := rest
      idle := n.idle ++ (n.impl.messageCB topicMatchesSub msg).2.map (·, msg) } : Node β).calls
        d.cb.cb =
      n.calls d.cb.cb ++ ((if n.twice d ∧ serves topicMatchesSub msg d = true then [msg] else [])
        ++ if serves topicMatchesSub msg d then [msg] else []) := by
  rw [calls_queue, List.filter_map, List.map_map]
  congr 1
  have hf := h.filter_messageCB topicMatchesSub hd msg
  have hmap := congrArg (List.map fun _ => msg) hf
  refine Eq.trans ?_ (hmap.trans ?_)
  · rfl
  · rw [List.map_append]
    congr 1
    · split <;> rfl
    · split <;> rfl

/-- A dispatch keeps what is due exactly when nobody it calls has a second turn. -/
theorem Exact.deliver_iff (hx : Exact B n) (h : Sound n) {t : Node β}
    (ht : n.deliver topicMatchesSub = some t) :
    Exact B t ↔ n.Ok topicMatchesSub .deliver := by
  obtain ⟨msg, rest, hin, rfl⟩ := deliver_eq ht
  have hlive := h.messageCB_live topicMatchesSub msg
  have hok : n.Ok topicMatchesSub .deliver ↔
      ∀ d, n.twice d → serves topicMatchesSub msg d = false := by
    simp only [Node.Ok, hin, List.head?_cons, Option.mem_def, Option.some.injEq, forall_eq',
      Node.twice, and_imp]
    exact ⟨fun hall d hu hd => hall hu d hd, fun hall hu d hd => hall d hu hd⟩
  have hdue : ∀ d ∈ n.impl.mq.live, n.calls d.cb.cb ++
      ((if serves topicMatchesSub msg d then [msg] else []) ++
        rest.filter (serves topicMatchesSub · d)) = n.due d.cb.cb := by
    intro d hd
    rw [← hx.calls d hd, hin, List.filter_cons]
    split <;> rfl
  rw [hok]
  constructor
  · intro hexact d htwice
    have hd : d ∈ n.impl.mq.live :=
      h.live_eq ▸ List.mem_of_mem_head? htwice.2
    by_contra hs
    rw [Bool.not_eq_false] at hs
    have heq := hexact.calls d (hlive ▸ hd)
    rw [h.calls_deliver hd] at heq
    have hlen := congrArg List.length (heq.trans (hdue d hd).symm)
    simp only [htwice, hs, and_self, if_true, List.length_append, List.length_singleton] at hlen
    omega
  · intro hall
    constructor
    · intro d hd
      rw [hlive] at hd
      rw [h.calls_deliver hd]
      have hnot : ¬ (n.twice d ∧ serves topicMatchesSub msg d = true) := by
        rintro ⟨htwice, hs⟩
        rw [hall d htwice] at hs
        cases hs
      rw [if_neg hnot, List.nil_append, List.append_assoc]
      exact hdue d hd
    · intro d hd
      exact hx.wanted d (hlive ▸ hd)
    · intro d hd
      exact hx.covered d (hlive ▸ hd)

theorem invoke_eq {t : Node β} (ht : n.invoke = some t) :
    ∃ c msg rest, n.idle = (c, msg) :: rest ∧
      t = { n with idle := rest, log := n.log ++ [(c.cb, msg)] } := by
  rw [Node.invoke] at ht
  cases hq : n.idle with
  | nil =>
    rw [hq] at ht
    cases ht
  | cons p rest =>
    rw [hq] at ht
    exact ⟨p.1, p.2, rest, rfl, (Option.some.inj ht).symm⟩

theorem Sound.invoke (h : Sound n) {t : Node β} (ht : n.invoke = some t) : Sound t := by
  obtain ⟨c, msg, rest, hq, rfl⟩ := invoke_eq ht
  refine ⟨h.mq, h.calm, h.mqtt, h.numbers, h.live_lt, ?_, ?_⟩
  · intro p hp
    rcases List.mem_append.mp hp with hp | hp
    · exact h.log_lt p hp
    · rw [List.mem_singleton.mp hp]
      exact h.idle_lt (c, msg) (hq ▸ List.mem_cons_self)
  · intro p hp
    exact h.idle_lt p (hq ▸ List.mem_cons_of_mem _ hp)

theorem Exact.invoke (hx : Exact B n) {t : Node β} (ht : n.invoke = some t) :
    Exact B t := by
  obtain ⟨c, msg, rest, hq, rfl⟩ := invoke_eq ht
  refine ⟨?_, hx.wanted, hx.covered⟩
  intro d hd
  have hcalls : ({ n with idle := rest, log := n.log ++ [(c.cb, msg)] } : Node β).calls d.cb.cb =
      n.calls d.cb.cb := by
    simp only [Node.calls, hq, List.map_cons, List.append_assoc, List.singleton_append]
  rw [hcalls]
  exact hx.calls d hd

/-- What one call does to an instance. -/
theorem Exact.step_iff (hx : Exact B n) (h : Sound n) {c : Call} {t : Node β}
    (ht : n.step B c = some t) : Sound t ∧ (Exact B t ↔ n.Ok topicMatchesSub c) := by
  cases c with
  | subscribe topic userData o =>
    simp only [Node.step, Option.ite_none_right_eq_some, Option.some.injEq] at ht
    obtain ⟨hf, rfl⟩ := ht
    exact ⟨h.subscribe hf, iff_of_true (hx.subscribe h) trivial⟩
  | unsubscribe id ret published =>
    cases ht
    exact ⟨h.unsubscribe id ret published, hx.unsubscribe_iff h id ret published⟩
  | handle => exact ⟨h.handle ht, iff_of_true (hx.handle h ht) trivial⟩
  | deliver => exact ⟨h.deliver ht, hx.deliver_iff h ht⟩
  | invoke => exact ⟨h.invoke ht, iff_of_true (hx.invoke ht) trivial⟩

variable {start : ι → β} {ip : ι → String} {s t : ι → Node β}

theorem step_exact (hs : ∀ i, Sound (s i)) (hx : ∀ i, Exact B (s i)) {e : Event ι}
    (ht : step B s e = some t) :
    (∀ i, Sound (t i)) ∧ ((∀ i, Exact B (t i)) ↔ Ok topicMatchesSub s e) := by
  cases e with
  | publish msg retain =>
    cases ht
    refine ⟨fun i => (hs i).publish msg retain, iff_of_true ?_ trivial⟩
    intro i
    exact (hx i).publish (hs i) msg retain
  | call i c =>
    obtain ⟨n, hn, rfl⟩ := Option.map_eq_some_iff.mp ht
    obtain ⟨hsound, hiff⟩ := (hx i).step_iff (hs i) hn
    constructor
    · intro j
      by_cases hj : j = i
      · subst hj
        rwa [Function.update_self]
      · rw [Function.update_of_ne hj]
        exact hs j
    · refine Iff.trans ⟨fun hall => ?_, fun hone j => ?_⟩ hiff
      · have hi := hall i
        rwa [Function.update_self] at hi
      · by_cases hj : j = i
        · subst hj
          rwa [Function.update_self]
        · rw [Function.update_of_ne hj]
          exact hx j

variable (B) in
structure Good (s : ι → Node β) : Prop where
  sound : ∀ i, Sound (s i)
  exact : ∀ i, Exact B (s i)

theorem Good.reaches (h : (machine B start ip).Reaches (Ok topicMatchesSub) s) : Good B s := by
  refine h.invariant ?_ ?_
  · refine ⟨fun i => ⟨⟨List.nodup_nil, ?_⟩, ⟨rfl, rfl⟩, ?_, List.nodup_nil, ?_, ?_, ?_⟩,
      fun i => ⟨?_, ?_, ?_⟩⟩ <;> intro x hx <;> cases hx
  · intro s e t _ hi hok ht
    obtain ⟨hs, hiff⟩ := step_exact hi.sound hi.exact ht
    exact ⟨hs, hiff.mpr hok⟩

/-- Whatever the broker keeps and however often it sends a message: up to the first step that is
not `Ok`, and not beyond it, every subscription of every instance has had what is due to it, once
for each time that the broker has sent it and in that order, with what is still in the queues;
when these are empty, that is what its callback was called with, and every publication for it
since the broker has its filter is among it. -/
theorem delivered_once_in_order
    (h : (machine B start ip).Reaches (Ok topicMatchesSub) s) :
    (∀ i, Exact B (s i)) ∧
    (∀ e t, (machine B start ip).step s e = some t →
      ((∀ i, Exact B (t i)) ↔ Ok topicMatchesSub s e)) ∧
    ∀ i, (s i).inbox = [] → (s i).idle = [] → ∀ d ∈ (s i).impl.mq.live,
      ((s i).log.filter (·.1 = d.cb.cb)).map (·.2) = (s i).due d.cb.cb ∧
        ((s i).wanted d.cb.cb).Sublist (((s i).log.filter (·.1 = d.cb.cb)).map (·.2)) := by
  obtain ⟨hs, hx⟩ := Good.reaches h
  refine ⟨hx, fun e t ht => (step_exact hs hx ht).2, ?_⟩
  intro i hin hidle d hd
  have hc := (hx i).calls d hd
  rw [hin, List.filter_nil, List.append_nil, Node.calls, hidle, List.map_nil,
    List.append_nil] at hc
  exact ⟨hc, hc ▸ (hx i).wanted d hd⟩

/-- A broker that sends a publication once and keeps the last message of each topic. -/
def retaining (topicMatchesSub : String → String → Option Bool) :
    Broker topicMatchesSub (Finset String × List Message) where
  filters b := b.1
  subscribe b filter := ((insert filter b.1, b.2),
    b.2.filter fun msg => compareTopic topicMatchesSub filter msg.topic)
  unsubscribe b filter := (b.1.erase filter, b.2)
  publish b msg retain :=
    let kept := b.2.filter (·.topic ≠ msg.topic)
    ((b.1, if retain then if msg.payload = [] then kept else kept ++ [msg] else b.2),
      if ∃ filter ∈ b.1, compareTopic topicMatchesSub filter msg.topic = true then [msg] else [])
  filters_subscribe _ _ := rfl
  filters_unsubscribe _ _ := rfl
  filters_publish _ _ _ := rfl
  publish_sends _ msg _ filter hf hc := by
    rw [if_pos ⟨filter, hf, hc⟩]
    exact List.mem_singleton_self msg

/-- The second subscription of one instance comes when a message is on its way, and makes the
broker send the one that it keeps again; the other instance takes its own out while the first
has calls in its queue. -/
def twoInstances : List (Event Bool) :=
  [.call false (.subscribe "a" 0 ⟨1, 2, 3, .ok ⟨4000, [], []⟩, true, true⟩),
   .call true (.subscribe "a" 0 ⟨1, 2, 3, .ok ⟨4000, [], []⟩, true, true⟩),
   .call false .handle,
   .call true .handle,
   .publish ⟨"a", [1], none⟩ true,
   .call false .deliver,
   .publish ⟨"a", [2], none⟩ false,
   .call false (.subscribe "a" 0 ⟨4, 5, 6, .ok ⟨4001, [], []⟩, true, true⟩),
   .call true (.unsubscribe 1 true true),
   .call false .handle,
   .publish ⟨"b", [3], none⟩ false,
   .call false .deliver,
   .call false .deliver,
   .call false .invoke,
   .call false .invoke,
   .call false .invoke,
   .call false .invoke,
   .call false .invoke]

theorem delivered_once_in_order_two :
    ∃ s : Bool → Node (Finset String × List Message),
      (machine (retaining MosquittoMQ.exactMatch) (fun _ => (∅, [])) (fun _ => "")).Reaches
        (Ok MosquittoMQ.exactMatch) s ∧
      (s false).log = [(0, ⟨"a", [1], none⟩), (0, ⟨"a", [2], none⟩), (1, ⟨"a", [2], none⟩),
        (0, ⟨"a", [1], none⟩), (1, ⟨"a", [1], none⟩)] ∧
      ∀ d ∈ (s false).impl.mq.live,
        ((s false).log.filter (·.1 = d.cb.cb)).map (·.2) = (s false).due d.cb.cb := by
  obtain ⟨s, hs, hp⟩ := (machine (retaining MosquittoMQ.exactMatch)
      (fun _ : Bool => (∅, [])) fun _ => "").exists_reaches
    (Ok MosquittoMQ.exactMatch) twoInstances
    (fun s => decide ((s false).log = [(0, ⟨"a", [1], none⟩), (0, ⟨"a", [2], none⟩),
        (1, ⟨"a", [2], none⟩), (0, ⟨"a", [1], none⟩), (1, ⟨"a", [1], none⟩)]) &&
      decide ((s false).inbox = []) && decide ((s false).idle = [])) (by decide)
  simp only [Bool.and_eq_true, decide_eq_true_eq] at hp
  obtain ⟨⟨hlog, hin⟩, hidle⟩ := hp
  exact ⟨s, hs, hlog, fun d hd => ((delivered_once_in_order hs).2.2 false hin hidle d hd).1⟩

end MqttDelivery
