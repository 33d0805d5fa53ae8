import Aitt.AittRequest
import Aitt.TcpFanOut

/-! `PublishWithReply` of `AITT::Impl` from its subscription to its publication, with the
discovery service behind both. Only a subscription that the transport refuses before it stores
anything leaves no trace; what fails later leaves the reply topic subscribed. -/
namespace FailedRequest

open AittTypes AittImpl AittRequest
open TcpModule (Blob CbInfo Failure Module Server ServerData)
open TcpFanOut (Peers PublishMap publishFull entries)
open TcpReceive (Link)
open Flexbuffers (Item Package plain)
open MosquittoMQ (Client compareTopic exactMatch)

variable {κ : Type}

inductive Content where
  | topics (list : List String)
  | servers (blob : Blob)
  deriving DecidableEq, Repr

/-- `discoveryMap` has the blob of each protocol, `retained` the last map published. -/
structure Node (κ : Type) where
  impl : Impl κ
  publishTables : Bool → PublishMap
  discoveryMap : String → Option Content
  retained : Option (String → Option Content)

/-- A negative `datalen` has no payload. -/
structure Request (κ : Type) where
  protocol : AittProtocol
  topic : String
  payload : Option { bytes : Bytes // bytes.length < 2147483648 }
  cb : κ
  userData : Address
  correlation : Bytes

/-- What the libraries answer once the reply topic is subscribed. `ret` and `published` are for
an `Unsubscribe`. -/
structure Answers where
  addString : Bool
  addBinary : Bool
  publishV5 : Bool
  peers : Peers
  ret : Bool
  published : Bool

def moduleName (secure : Bool) : String := if secure then "SECURE_TCP" else "TCP"

namespace Node

def new (ip : String) : Node κ := ⟨.new ip, fun _ => [], fun _ => none, none⟩

/-- The map changes before the publication, which may throw. -/
def updateDiscoveryMsg (n : Node κ) (protocol : String) (msg : Content) (published : Bool) :
    Node κ :=
  let discoveryMap := Function.update n.discoveryMap protocol (some msg)
  { n with
    discoveryMap := discoveryMap
    retained := if published then some discoveryMap else n.retained }

def topics (mySubscribeTable : List (Address × String)) : List String :=
  (mySubscribeTable.insertionSort (fun p q => p.1 ≤ q.1)).map (·.2)

def handedOver (i : Impl κ) (protocol : AittProtocol) (topic : String) (cb : κ)
    (userData : Address) (o : Outcome) : Option (String × Content) :=
  let tcp (secure : Bool) : Option (String × Content) :=
    ((i.modules secure).subscribe topic ⟨o.handle, ⟨o.info, cb⟩, userData⟩ o.listenInfo o.server
      o.published).2.1.map fun blob => (moduleName secure, .servers blob)
  match protocol with
  | .mqtt =>
    if o.ret ∧ o.handle ∉ i.mySubscribeTable.map (·.1) then
      some ("MQTT", .topics (topics (i.mySubscribeTable ++ [(o.handle, topic)])))
    else none
  | .tcp => tcp false
  | .tcpSecure => tcp true
  | .other _ => none

def subscribe (n : Node κ) (protocol : AittProtocol) (topic : String) (cb : κ)
    (userData : Address) (o : Outcome) : Node κ × Except Failure Address :=
  let r := n.impl.subscribe protocol topic cb userData o
  let n' : Node κ := { n with impl := r.1 }
  match handedOver n.impl protocol topic cb userData o with
  | none => (n', r.2)
  | some (name, msg) => (n'.updateDiscoveryMsg name msg o.published, r.2)

end Node

def mqPublishWithReply (a : Answers) : Except Failure Unit :=
  if a.addString = false then .error (.aittException .mqttErr)
  else if a.addBinary = false then .error (.aittException .mqttErr)
  else if a.publishV5 = false then .error (.aittException .mqttErr)
  else .ok ()

section

variable [Package] (link : Bool → Link) (pack : List (String × Item) → Bytes)
  (topicMatchesSub : String → String → Option Bool)

/-- `Module::PublishWithReply`; the exception that gets out of `PublishFull` is that of a
connection which cannot be made. -/
def tcpPublishWithReply (n : Node κ) (secure : Bool) (q : Request κ) (replyTopic : String)
    (a : Answers) : Node κ × Except Failure Unit :=
  let msg : AittMsg := { topic := q.topic, replyTopic := replyTopic, correlation := q.correlation }
  match q.payload with
  | none => (n, .ok ())
  | some data =>
    let out := publishFull (link secure) pack topicMatchesSub
      ⟨msg, false, data.val, data.property, a.peers⟩ (n.publishTables secure)
    ({ n with publishTables := Function.update n.publishTables secure out.1 },
      if out.2 then .error (.runtimeError "TCP::TCP() Fail") else .ok ())

/-- The last branch of the `switch` is behind a `Subscribe` that has thrown already. An id of
its protocol is with no transport, and the discovery service is not asked to forget it. -/
def Node.publishWithReply (n : Node κ) (q : Request κ) (o : Outcome) (a : Answers) :
    Node κ × Except Failure Unit :=
  let topic := replyTopic n.impl q.topic
  let r := n.subscribe q.protocol topic q.cb q.userData o
  let n' : Node κ := { r.1 with impl := { r.1.impl with replyId := n.impl.replyId + 1 } }
  match r.2 with
  | .error err => (n', .error err)
  | .ok id =>
    match q.protocol with
    | .mqtt => (n', mqPublishWithReply a)
    | .tcp => tcpPublishWithReply link pack topicMatchesSub n' false q topic a
    | .tcpSecure => tcpPublishWithReply link pack topicMatchesSub n' true q topic a
    | .other _ =>
      match n'.impl.unsubscribe id a.ret a.published with
      | (i, .error err) => ({ n' with impl := i }, .error err)
      | (i, .ok _) => ({ n' with impl := i }, .error (.aittException .invalidArg))

end

/-- Every table is as it was; the counter of the reply topics may have moved. -/
structure Untouched (n n' : Node κ) : Prop where
  subscribedList : n'.impl.subscribedList = n.impl.subscribedList
  mq : n'.impl.mq = n.impl.mq
  mySubscribeTable : n'.impl.mySubscribeTable = n.impl.mySubscribeTable
  modules : n'.impl.modules = n.impl.modules
  discoveryMap : n'.discoveryMap = n.discoveryMap
  retained : n'.retained = n.retained

def NoServer (m : Module κ) (topic : String) (server : Except Failure Server) : Prop :=
  m.findTopic topic = none ∧ ∀ sv, server ≠ .ok sv

def Connectable (topicMatchesSub : String → String → Option Bool) (table : PublishMap)
    (topic : String) (peers : Peers) : Prop :=
  ∀ x ∈ entries table, compareTopic topicMatchesSub x.1 topic = true →
    x.2.2.connection = none → peers.connects x.1 x.2.1 = true

/-- The transport stores nothing: the broker's library takes no subscription, the server of the
reply topic cannot be opened, or there is no such transport. -/
def RefusedAtOnce (i : Impl κ) (q : Request κ) (o : Outcome) : Prop :=
  match q.protocol with
  | .mqtt => o.ret = false
  | .tcp => NoServer (i.modules false) (replyTopic i q.topic) o.server
  | .tcpSecure => NoServer (i.modules true) (replyTopic i q.topic) o.server
  | .other _ => True

/-- The reply topic is subscribed and announced, and the publication goes out: over TCP, every
subscriber of the topic that is not connected yet can be reached. -/
def NothingFails (topicMatchesSub : String → String → Option Bool) (n : Node κ) (q : Request κ)
    (o : Outcome) (a : Answers) : Prop :=
  let tcp (secure : Bool) : Prop :=
    ¬ NoServer (n.impl.modules secure) (replyTopic n.impl q.topic) o.server ∧
      o.published = true ∧ (q.payload = none ∨
        Connectable topicMatchesSub (n.publishTables secure) q.topic a.peers)
  match q.protocol with
  | .mqtt => (o.ret = true ∧ o.handle ∉ n.impl.mySubscribeTable.map (·.1) ∧ o.published = true) ∧
      a.addString = true ∧ a.addBinary = true ∧ a.publishV5 = true
  | .tcp => tcp false
  | .tcpSecure => tcp true
  | .other _ => False

section Server

variable {m : Module κ} {topic : String} {server : Except Failure Server}

theorem subscribe_refused (h : NoServer m topic server) (cell : CbInfo κ)
    (listenInfo : Address) (ret : Bool) :
    ∃ err, m.subscribe topic cell listenInfo server ret = (m, none, .error err) := by
  cases server with
  | ok sv => exact absurd rfl (h.2 sv)
  | error err => exact ⟨err, by simp only [Module.subscribe, Module.addCallback, h.1]⟩

/-- A callback that joins a server makes the list of that server longer. -/
theorem onServer_ne {d : ServerData κ} (hd : d ∈ m.subscribeTable)
    (cell : CbInfo κ) :
    (m.onServer d.address (· ++ [cell])).subscribeTable ≠ m.subscribeTable := by
  intro he
  have hmap : m.subscribeTable.map
      (fun e => if e.address = d.address then { e with cbList := e.cbList ++ [cell] } else e) =
        m.subscribeTable.map id := he.trans (List.map_id _).symm
  have hsame := List.map_inj_left.mp hmap d hd
  rw [if_pos rfl] at hsame
  have hlen := congrArg (fun e => e.cbList.length) hsame
  simp at hlen

theorem subscribe_stores (h : ¬ NoServer m topic server) (cell : CbInfo κ)
    (listenInfo : Address) (ret : Bool) :
    (m.subscribe topic cell listenInfo server ret).1.subscribeTable ≠ m.subscribeTable := by
  simp only [Module.subscribe, Module.addCallback]
  cases hf : m.findTopic topic with
  | some d =>
    have hd := (TcpModule.mem_of_findTopic hf).1
    cases ret with
    | true => exact onServer_ne hd cell
    | false => exact onServer_ne hd cell
  | none =>
    cases server with
    | error err => exact absurd ⟨hf, fun sv he => by cases he⟩ h
    | ok sv =>
      have hlen : ∀ d, (m.insertServer d).subscribeTable ≠ m.subscribeTable := by
        intro d he
        have hl := (TcpModule.insertServer_perm m d).length_eq
        rw [he] at hl
        simp at hl
      cases ret with
      | true => exact hlen _
      | false => exact hlen _

theorem subscribe_result (h : ¬ NoServer m topic server) (cell : CbInfo κ)
    (listenInfo : Address) (ret : Bool) :
    (m.subscribe topic cell listenInfo server ret).2.2 =
      if ret then .ok cell.address else .error (.aittException .mqttErr) := by
  simp only [Module.subscribe, Module.addCallback]
  cases hf : m.findTopic topic with
  | some d => cases ret <;> rfl
  | none =>
    cases server with
    | error err => exact absurd ⟨hf, fun sv he => by cases he⟩ h
    | ok sv => cases ret <;> rfl

end Server

theorem mq_subscribe_stores (mq : Client κ) (data : MosquittoMQ.SubscribeData κ) :
    (mq.subscribe data true).1 ≠ mq := by
  intro he
  have hl := (MosquittoMQ.subscribe_live mq data).length_eq
  rw [he] at hl
  simp at hl

section Subscribe

variable {n : Node κ} {q : Request κ} {o : Outcome} {topic : String} {cb : κ} {userData : Address}

theorem subscribe_tcp_refused (secure : Bool)
    (h : NoServer (n.impl.modules secure) topic o.server) :
    ∃ err, n.subscribe (tcpProtocol secure) topic cb userData o = (n, .error err) := by
  obtain ⟨err, he⟩ := subscribe_refused h ⟨o.handle, ⟨o.info, cb⟩, userData⟩ o.listenInfo
    o.published
  have hover : Node.handedOver n.impl (tcpProtocol secure) topic cb userData o = none := by
    cases secure <;> simp [Node.handedOver, tcpProtocol, he]
  have himpl : n.impl.subscribe (tcpProtocol secure) topic cb userData o =
      (n.impl, .error err) := by
    simp only [Impl.subscribe, transportSubscribe_tcp, Impl.subscribeTCP, he,
      Function.update_eq_self]
  exact ⟨err, by simp only [Node.subscribe, hover, himpl]⟩

/-- A subscription that is refused at once changes nothing. -/
theorem subscribe_of_refused (h : RefusedAtOnce n.impl q o) :
    ∃ err, n.subscribe q.protocol (replyTopic n.impl q.topic) q.cb q.userData o =
      (n, .error err) := by
  unfold RefusedAtOnce at h
  cases hp : q.protocol with
  | mqtt =>
    rw [hp] at h
    have hret : o.ret = false := h
    refine ⟨.aittException .mqttErr, ?_⟩
    simp only [Node.subscribe, Node.handedOver, Impl.subscribe, Impl.transportSubscribe,
      Impl.subscribeMQ, hret, MosquittoMQ.subscribe_fails, Bool.false_eq_true, false_and,
      if_false]
  | tcp =>
    rw [hp] at h
    exact subscribe_tcp_refused false h
  | tcpSecure =>
    rw [hp] at h
    exact subscribe_tcp_refused true h
  | other bits => exact ⟨.aittException .invalidArg, rfl⟩

/-- Besides the client itself, only what the discovery service holds changes. -/
theorem subscribe_same (protocol : AittProtocol) :
    (n.subscribe protocol topic cb userData o).1.impl =
        (n.impl.subscribe protocol topic cb userData o).1 ∧
      (n.subscribe protocol topic cb userData o).1.publishTables = n.publishTables ∧
      (n.subscribe protocol topic cb userData o).2 =
        (n.impl.subscribe protocol topic cb userData o).2 := by
  unfold Node.subscribe
  split
  · exact ⟨rfl, rfl, rfl⟩
  · exact ⟨rfl, rfl, rfl⟩

theorem impl_subscribe_same (i : Impl κ) (protocol : AittProtocol) :
    (i.subscribe protocol topic cb userData o).1.mq =
        (i.transportSubscribe protocol topic cb userData o).1.mq ∧
      (i.subscribe protocol topic cb userData o).1.modules =
        (i.transportSubscribe protocol topic cb userData o).1.modules := by
  unfold Impl.subscribe
  split
  · next hs => simp [hs]
  · next hs => simp [hs]

theorem subscribe_tcp_stores (i : Impl κ) (secure : Bool)
    (h : ¬ NoServer (i.modules secure) topic o.server) :
    (i.subscribe (tcpProtocol secure) topic cb userData o).1.modules ≠ i.modules := by
  rw [(impl_subscribe_same i _).2, transportSubscribe_tcp]
  intro he
  have hm := congrArg (fun modules => (modules secure).subscribeTable) he
  simp only [Impl.subscribeTCP, Function.update_self] at hm
  exact subscribe_stores h _ _ _ hm

/-- A subscription that is not refused at once is in the tables of its transport, whether or
not the rest of `Subscribe` succeeds. -/
theorem subscribe_of_taken (h : ¬ RefusedAtOnce n.impl q o) :
    (n.subscribe q.protocol (replyTopic n.impl q.topic) q.cb q.userData o).1.impl.mq ≠
        n.impl.mq ∨
      (n.subscribe q.protocol (replyTopic n.impl q.topic) q.cb q.userData o).1.impl.modules ≠
        n.impl.modules := by
  rw [(subscribe_same _).1]
  unfold RefusedAtOnce at h
  cases hp : q.protocol with
  | mqtt =>
    rw [hp] at h
    have hret : o.ret = true := by simpa using h
    left
    rw [(impl_subscribe_same n.impl _).1]
    simp only [Impl.transportSubscribe, Impl.subscribeMQ, hret]
    rw [MosquittoMQ.subscribe_succeeds]
    simp only
    split
    · exact mq_subscribe_stores _ _
    · exact mq_subscribe_stores _ _
  | tcp =>
    rw [hp] at h
    exact Or.inr (subscribe_tcp_stores n.impl false h)
  | tcpSecure =>
    rw [hp] at h
    exact Or.inr (subscribe_tcp_stores n.impl true h)
  | other bits =>
    rw [hp] at h
    exact absurd trivial h

theorem impl_subscribe_ok_iff (i : Impl κ) (protocol : AittProtocol) :
    (∃ id, (i.subscribe protocol topic cb userData o).2 = .ok id) ↔
      ∃ handle, (i.transportSubscribe protocol topic cb userData o).2 = .ok handle := by
  unfold Impl.subscribe
  split
  · next hs => simp [hs]
  · next hs => simp [hs]

theorem subscribe_mqtt_ok_iff :
    (∃ id, (n.subscribe .mqtt topic cb userData o).2 = .ok id) ↔
      o.ret = true ∧ o.handle ∉ n.impl.mySubscribeTable.map (·.1) ∧ o.published = true := by
  rw [(subscribe_same _).2.2, impl_subscribe_ok_iff]
  simp only [Impl.transportSubscribe, Impl.subscribeMQ]
  cases hret : o.ret with
  | false => simp [MosquittoMQ.subscribe_fails]
  | true =>
    rw [MosquittoMQ.subscribe_succeeds]
    simp only
    split
    · next hmem => simp [hmem]
    · next hmem => cases hpub : o.published <;> simp [hmem]

theorem subscribe_tcp_ok_iff (secure : Bool) :
    (∃ id, (n.subscribe (tcpProtocol secure) topic cb userData o).2 = .ok id) ↔
      ¬ NoServer (n.impl.modules secure) topic o.server ∧ o.published = true := by
  by_cases h : NoServer (n.impl.modules secure) topic o.server
  · obtain ⟨err, he⟩ := @subscribe_tcp_refused _ n o topic cb userData secure h
    simp [he, h]
  · have hresult := subscribe_result h ⟨o.handle, ⟨o.info, cb⟩, userData⟩ o.listenInfo o.published
    rw [(subscribe_same _).2.2, impl_subscribe_ok_iff, transportSubscribe_tcp]
    simp only [Impl.subscribeTCP, hresult, h, not_false_eq_true, true_and]
    cases o.published <;> simp

end Subscribe

section Request

variable [Package] {link : Bool → Link} {pack : List (String × Item) → Bytes}
  {topicMatchesSub : String → String → Option Bool} {n : Node κ} {q : Request κ} {o : Outcome}
  {a : Answers}

theorem tcpPublishWithReply_impl (n : Node κ) (secure : Bool) (q : Request κ) (topic : String)
    (a : Answers) :
    (tcpPublishWithReply link pack topicMatchesSub n secure q topic a).1.impl = n.impl := by
  unfold tcpPublishWithReply
  split
  · rfl
  · rfl

/-- What follows the subscription takes nothing back. -/
theorem publishWithReply_keeps (hp : ∀ bits, q.protocol ≠ .other bits) :
    (n.publishWithReply link pack topicMatchesSub q o a).1.impl =
      { (n.subscribe q.protocol (replyTopic n.impl q.topic) q.cb q.userData o).1.impl with
        replyId := n.impl.replyId + 1 } := by
  unfold Node.publishWithReply
  simp only
  split
  · rfl
  · split
    · rfl
    · exact tcpPublishWithReply_impl _ _ _ _ _
    · exact tcpPublishWithReply_impl _ _ _ _ _
    · next bits hb => exact absurd hb (hp bits)

omit [Package] in
theorem mqPublishWithReply_ok_iff (a : Answers) :
    mqPublishWithReply a = .ok () ↔
      a.addString = true ∧ a.addBinary = true ∧ a.publishV5 = true := by
  unfold mqPublishWithReply
  cases a.addString <;> cases a.addBinary <;> cases a.publishV5 <;> simp

theorem tcpPublishWithReply_ok_iff (n : Node κ) (secure : Bool) (q : Request κ) (topic : String)
    (a : Answers) :
    (tcpPublishWithReply link pack topicMatchesSub n secure q topic a).2 = .ok () ↔
      q.payload = none ∨
        Connectable topicMatchesSub (n.publishTables secure) q.topic a.peers := by
  cases hd : q.payload with
  | none => simp [tcpPublishWithReply, hd]
  | some data =>
    have hraised := @TcpFanOut.publishFull_raised_iff _ (link secure) pack topicMatchesSub
      ⟨{ topic := q.topic, replyTopic := topic, correlation := q.correlation }, false, data.val,
        data.property, a.peers⟩ (n.publishTables secure)
    simp only [tcpPublishWithReply, hd, reduceCtorEq, false_or]
    split
    · next hr =>
      obtain ⟨x, hx, hm, hnone, hno⟩ := hraised.mp hr
      refine ⟨fun he => (by cases he), fun h => ?_⟩
      cases (h x hx hm hnone).symm.trans hno
    · next hr =>
      refine ⟨fun _ x hx hm hnone => ?_, fun _ => rfl⟩
      by_contra hno
      exact hr (hraised.mpr ⟨x, hx, hm, hnone, by simpa using hno⟩)

theorem publishWithReply_tcp_ok_iff (secure : Bool) (hp : q.protocol = tcpProtocol secure) :
    (n.publishWithReply link pack topicMatchesSub q o a).2 = .ok () ↔
      (∃ id, (n.subscribe q.protocol (replyTopic n.impl q.topic) q.cb q.userData o).2 = .ok id) ∧
        (q.payload = none ∨
          Connectable topicMatchesSub (n.publishTables secure) q.topic a.peers) := by
  have htables := (@subscribe_same _ n o (replyTopic n.impl q.topic) q.cb q.userData
    q.protocol).2.1
  rw [← htables]
  cases hr : (n.subscribe q.protocol (replyTopic n.impl q.topic) q.cb q.userData o).2 with
  | error err => simp [Node.publishWithReply, hr]
  | ok id =>
    simp only [Node.publishWithReply, hr, Except.ok.injEq, exists_eq', true_and]
    cases secure with
    | false =>
      rw [hp]
      exact tcpPublishWithReply_ok_iff _ false q _ a
    | true =>
      rw [hp]
      exact tcpPublishWithReply_ok_iff _ true q _ a

theorem publishWithReply_of_refused (h : RefusedAtOnce n.impl q o) :
    ∃ err, n.publishWithReply link pack topicMatchesSub q o a =
      ({ n with impl := { n.impl with replyId := n.impl.replyId + 1 } }, .error err) := by
  obtain ⟨err, he⟩ := subscribe_of_refused h
  exact ⟨err, by simp only [Node.publishWithReply, he]⟩

/-- `PublishWithReply` returns exactly if none of its steps fails. -/
theorem publishWithReply_ok_iff :
    (n.publishWithReply link pack topicMatchesSub q o a).2 = .ok () ↔
      NothingFails topicMatchesSub n q o a := by
  have htcp : ∀ secure, q.protocol = tcpProtocol secure →
      ((n.publishWithReply link pack topicMatchesSub q o a).2 = .ok () ↔
        ¬ NoServer (n.impl.modules secure) (replyTopic n.impl q.topic) o.server ∧
          o.published = true ∧ (q.payload = none ∨
            Connectable topicMatchesSub (n.publishTables secure) q.topic a.peers)) := by
    intro secure hp
    rw [publishWithReply_tcp_ok_iff secure hp, hp, subscribe_tcp_ok_iff, and_assoc]
  cases hp : q.protocol with
  | mqtt =>
    have hs := @subscribe_mqtt_ok_iff _ n o (replyTopic n.impl q.topic) q.cb q.userData
    simp only [NothingFails, hp]
    rw [← hs, ← mqPublishWithReply_ok_iff]
    cases hr : (n.subscribe .mqtt (replyTopic n.impl q.topic) q.cb q.userData o).2 with
    | error err => simp [Node.publishWithReply, hp, hr]
    | ok id => simp [Node.publishWithReply, hp, hr]
  | tcp => simpa only [NothingFails, hp] using htcp false hp
  | tcpSecure => simpa only [NothingFails, hp] using htcp true hp
  | other bits =>
    have hrefused : RefusedAtOnce n.impl q o := by simp only [RefusedAtOnce, hp]
    obtain ⟨err, he⟩ :=
      @publishWithReply_of_refused _ _ link pack topicMatchesSub n q o a hrefused
    simp [NothingFails, he, hp]

/-- The tables of a node after a request that was refused at once. -/
theorem untouched_iff_refused (n : Node κ) (q : Request κ) (o : Outcome) (a : Answers) :
    Untouched n (n.publishWithReply link pack topicMatchesSub q o a).1 ↔
      RefusedAtOnce n.impl q o := by
  constructor
  · intro hu
    by_contra h
    have hp : ∀ bits, q.protocol ≠ .other bits := by
      intro bits hb
      apply h
      simp only [RefusedAtOnce, hb]
    have hmq := hu.mq
    have hmodules := hu.modules
    rw [publishWithReply_keeps hp] at hmq hmodules
    rcases subscribe_of_taken h with hs | hs
    · exact hs hmq
    · exact hs hmodules
  · intro h
    obtain ⟨err, he⟩ := publishWithReply_of_refused h
    rw [he]
    exact ⟨rfl, rfl, rfl, rfl, rfl, rfl⟩

/-- A request that throws leaves every table as it was, exactly if its subscription is refused
at once, or there is no failure to throw for. -/
theorem failed_request_untouched_iff (n : Node κ) (q : Request κ) (o : Outcome) (a : Answers) :
    ((∃ err, (n.publishWithReply link pack topicMatchesSub q o a).2 = .error err) →
        Untouched n (n.publishWithReply link pack topicMatchesSub q o a).1) ↔
      RefusedAtOnce n.impl q o ∨ NothingFails topicMatchesSub n q o a := by
  rw [untouched_iff_refused, ← @publishWithReply_ok_iff _ _ link pack]
  cases hr : (n.publishWithReply link pack topicMatchesSub q o a).2 with
  | error err => simp
  | ok result => simp

end Request

local instance : Package := plain

/-- A request over several protocols at once. -/
theorem combined_request_leaves_nothing :
    let n : Node ℕ := .new "10.0.0.1"
    let q : Request ℕ := ⟨.other 3, "t", some ⟨[1], by decide⟩, 7, 0, [2]⟩
    let o : Outcome := ⟨100, 200, 300, .error (.runtimeError ""), true, true⟩
    let a : Answers := ⟨true, true, true, ⟨fun _ _ => true, fun _ _ _ => none⟩, true, true⟩
    let r := n.publishWithReply (fun _ => .normal) (fun _ => []) exactMatch q o a
    r.2 = .error (.aittException .invalidArg) ∧ Untouched n r.1 := by
  intro n q o a r
  have hr : r.2 = .error (.aittException .invalidArg) := by decide
  exact ⟨hr, (failed_request_untouched_iff n q o a).mpr (Or.inl trivial) ⟨_, hr⟩⟩

/-- The broker's library takes the subscription of the reply topic and refuses to send the
request: the exception leaves the caller with a subscription that it has no id of. -/
theorem request_stays_subscribed :
    let n : Node ℕ := .new "10.0.0.1"
    let q : Request ℕ := ⟨.mqtt, "t", some ⟨[1], by decide⟩, 7, 0, [2]⟩
    let o : Outcome := ⟨100, 200, 300, .error (.runtimeError ""), true, true⟩
    let a : Answers := ⟨true, true, false, ⟨fun _ _ => true, fun _ _ _ => none⟩, true, true⟩
    let r := n.publishWithReply (fun _ => .normal) (fun _ => []) exactMatch q o a
    r.2 = .error (.aittException .mqttErr) ∧
      r.1.impl.subscribedList = [⟨100, .mqtt, 200, 7⟩] ∧
      r.1.impl.mq.subscribers.map (·.topic) = ["t_AittRe_0"] ∧
      r.1.impl.mySubscribeTable = [(200, "t_AittRe_0")] ∧
      r.1.discoveryMap "MQTT" = some (.topics ["t_AittRe_0"]) ∧ ¬ Untouched n r.1 := by
  refine ⟨by decide, by decide, by decide, by decide, by decide, fun h => ?_⟩
  exact absurd h.mySubscribeTable (by decide)

end FailedRequest
