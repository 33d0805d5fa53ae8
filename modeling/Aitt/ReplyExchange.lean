import Aitt.AittRequest
import Aitt.TcpMsgInfo

/-! One request and the replies to it, over MQTT or over a TCP module. The responder sends
its replies on the message it received; they travel in order, are queued at the requester
and reach the lambda of `PublishWithReply`, which unsubscribes when it reads the end of the
sequence. -/
namespace ReplyExchange

open AittTypes MqttProperties Flexbuffers TransitionRuns AittImpl AittRequest TcpMsgInfo
open MosquittoMQ (SubscribeData compareTopic compareTopic_cStr)

inductive Callback where
  | application
  | reply
  deriving DecidableEq, Repr

inductive Packet where
  | mqtt (msg : Message)
  | tcp (info : List (String × Item)) (payload : Bytes)
  deriving DecidableEq, Repr

structure Call where
  cb : Callback
  info : AittMsg
  payload : Bytes
  deriving DecidableEq, Repr

structure Request where
  requester : Impl Callback
  protocol : AittProtocol
  topic : String
  payload : Bytes
  correlation : Bytes
  userData : Address
  o : Outcome

/-- `msg` is the responder's message, `unsent` the replies it still has to send, and `log`
the calls of the requester's callback. -/
structure State where
  requester : Impl Callback
  msg : AittMsg
  unsent : List Bytes
  wire : List Packet
  queue : List Call
  log : List (AittMsg × Bytes)

inductive Event where
  | send
  | arrive
  | run
  deriving DecidableEq, Repr

namespace Packet

def payload : Packet → Bytes
  | .mqtt msg => msg.payload
  | .tcp _ payload => payload

/-- `ReceiveData` goes no further when the topic is empty. -/
def decode [Package] : Packet → Option AittMsg
  | .mqtt msg => (readMsg msg).toOption
  | .tcp info _ => if (unpackMsgInfo info).topic = "" then none else some (unpackMsgInfo info)

end Packet

namespace Request

def replyTopic (q : Request) : String := AittRequest.replyTopic q.requester q.topic

def opened (q : Request) : Impl Callback × Except TcpModule.Failure Address :=
  openReply q.requester q.protocol q.topic .reply q.userData q.o

def packet [Package] (q : Request) : Option Packet :=
  match q.protocol with
  | .mqtt => some (.mqtt
      ⟨cStr q.topic, q.payload, some (publishWithReplyProps q.replyTopic q.correlation)⟩)
  | .tcp | .tcpSecure => some (.tcp
      (packMsgInfo { topic := q.topic, replyTopic := q.replyTopic, correlation := q.correlation }
        false) q.payload)
  | .other _ => none

/-- The message that a responder's callback gets; `id` is that of its subscription. -/
def received [Package] (q : Request) (id : Address) : Option AittMsg :=
  (q.packet.bind Packet.decode).map fun m => { m with id := id, protocol := q.protocol }

def serverCalls (q : Request) (i : Impl Callback) (secure : Bool) : List (Closure Callback) :=
  ((i.modules secure).findTopic q.replyTopic).elim [] fun d => i.receiveData secure d.address

end Request

def replyPackets [Package] (m : AittMsg) (payload : Bytes) : List Packet :=
  match m.protocol with
  | .mqtt => [.mqtt ⟨cStr m.replyTopic, payload, some (sendReplyProps m)⟩]
  | .tcp | .tcpSecure => [.tcp (packMsgInfo m true) payload]
  | .other _ => []

variable (topicMatchesSub : String → String → Option Bool) (q : Request)

def receive [Package] (i : Impl Callback) : Packet → Option (Impl Callback × List Call)
  | .mqtt msg =>
    let r := i.messageCB topicMatchesSub msg
    match readMsg msg with
    | .ok info => some (r.1, r.2.map fun c => ⟨c.cb, { info with id := c.info }, msg.payload⟩)
    | .error _ => if r.2 = [] then some (r.1, []) else none
  | .tcp info payload =>
    if (unpackMsgInfo info).topic = "" then some (i, [])
    else some (i, (q.serverCalls i (q.protocol = .tcpSecure)).map fun c =>
      ⟨c.cb, { unpackMsgInfo info with id := c.info, protocol := q.protocol }, payload⟩)

/-- A TCP loop is busy until the calls of the last frame are through. -/
def Packet.Waits (queue : List Call) : Packet → Prop
  | .mqtt _ => False
  | .tcp _ _ => queue ≠ []

instance (queue : List Call) (p : Packet) : Decidable (p.Waits queue) := by
  cases p <;> simp only [Packet.Waits] <;> infer_instance

def runCall (s : State) (c : Call) (rest : List Call) : State :=
  match c.cb with
  | .application => { s with queue := rest }
  | .reply => { s with
      requester := if c.info.endSequence then (s.requester.unsubscribe c.info.id true true).1
        else s.requester
      queue := rest
      log := s.log ++ [(c.info, c.payload)] }

def step [Package] (s : State) : Event → Option State
  | .send =>
    match s.unsent with
    | [] => none
    | r :: rest =>
      let m := sendReply s.msg rest.isEmpty
      some { s with msg := m, unsent := rest, wire := s.wire ++ replyPackets m r }
  | .arrive =>
    match s.wire with
    | [] => none
    | p :: rest =>
      if p.Waits s.queue then none
      else (receive topicMatchesSub q s.requester p).map fun x =>
        { s with requester := x.1, wire := rest, queue := s.queue ++ x.2 }
  | .run =>
    match s.queue with
    | [] => none
    | c :: rest => some (runCall s c rest)

def machine [Package] (m : AittMsg) (replies : List Bytes) : Machine State Event :=
  ⟨⟨q.opened.1, m, replies, [], [], []⟩, step topicMatchesSub q⟩

structure Seen where
  payload : Bytes
  sequence : ℤ
  correlation : Bytes
  isEnd : Bool
  deriving DecidableEq, Repr

def seen (m : AittMsg) (payload : Bytes) : Seen :=
  ⟨payload, m.sequence.toInt, m.correlation, m.endSequence⟩

def expected (correlation : Bytes) (replies : List Bytes) : List Seen :=
  replies.mapIdx fun i r =>
    ⟨r, if replies.length = 1 then 0 else (i : ℤ) + 1, correlation, i + 1 = replies.length⟩

def Live (i : Impl Callback) : Prop :=
  .reply ∈ i.closures.map (·.cb) ∧ .reply ∈ i.subscribedList.map (·.cb)

def Gone (i : Impl Callback) : Prop :=
  .reply ∉ i.closures.map (·.cb) ∧ .reply ∉ i.subscribedList.map (·.cb)

def sent (m : AittMsg) : List Bytes → List Seen
  | [] => []
  | r :: rest => seen (sendReply m rest.isEmpty) r :: sent (sendReply m rest.isEmpty) rest

def outgoing [Package] (m : AittMsg) : List Bytes → List Packet
  | [] => []
  | r :: rest =>
    replyPackets (sendReply m rest.isEmpty) r ++ outgoing (sendReply m rest.isEmpty) rest

def Packet.seen [Package] (p : Packet) : Option Seen := p.decode.map fun m => ReplyExchange.seen m
    p.payload

structure Replying (q : Request) (m : AittMsg) : Prop where
  protocol : m.protocol = q.protocol
  replyTopic : m.replyTopic = cStr q.replyTopic
  mqtt : q.protocol = .mqtt → m.correlation.length < 2 ^ 16
  tcp : q.protocol ≠ .mqtt → cBytes m.correlation = m.correlation

def Deliverable [Package] (q : Request) : Packet → Prop
  | .mqtt msg => q.protocol = .mqtt ∧ msg.topic = cStr q.replyTopic ∧
      ∃ info, readMsg msg = .ok info
  | .tcp info _ => q.protocol ≠ .mqtt ∧ (unpackMsgInfo info).topic ≠ ""

variable {topicMatchesSub} {q}

theorem sendReply_protocol (m : AittMsg) (last : Bool) :
    (sendReply m last).protocol = m.protocol := by
  simp only [sendReply, AittMsg.increaseSequence]
  split <;> rfl

theorem sendReply_correlation (m : AittMsg) (last : Bool) :
    (sendReply m last).correlation = m.correlation := by
  simp only [sendReply, AittMsg.increaseSequence]
  split <;> rfl

theorem sendReply_endSequence (m : AittMsg) (last : Bool) :
    (sendReply m last).endSequence = last := rfl

theorem Replying.sendReply {m : AittMsg} (h : Replying q m) (last : Bool) :
    Replying q (AittRequest.sendReply m last) where
  protocol := (sendReply_protocol m last).trans h.protocol
  replyTopic := (sendReply_replyTopic m last).trans h.replyTopic
  mqtt hp := by
    rw [sendReply_correlation]
    exact h.mqtt hp
  tcp hp := by
    rw [sendReply_correlation]
    exact h.tcp hp

/-- MQTT carries a reply as it is. A TCP module sets the end of the sequence. -/
theorem Replying.packet [Package] {m : AittMsg} (h : Replying q m)
    (hq : ∀ bits, q.protocol ≠ .other bits) (ht : q.protocol ≠ .mqtt → cStr q.replyTopic ≠ "")
    (r : Bytes) : ∃ p, replyPackets m r = [p] ∧ Deliverable q p ∧
      p.seen = some (if q.protocol = .mqtt then seen m r else { seen m r with isEnd := true }) := by
  have tcp : q.protocol ≠ .mqtt → Deliverable q (.tcp (packMsgInfo m true) r) ∧
      (Packet.tcp (packMsgInfo m true) r).seen = some { seen m r with isEnd := true } := by
    intro hp
    have htopic : (unpackMsgInfo (packMsgInfo m true)).topic ≠ "" := by
      rw [unpack_reply, h.replyTopic]
      simpa only [cStr_idem] using ht hp
    refine ⟨⟨hp, htopic⟩, ?_⟩
    simp only [Packet.seen, Packet.decode, if_neg htopic, Option.map_some, Packet.payload]
    rw [unpack_reply]
    simp only [seen, h.tcp hp]
  have hproto := h.protocol
  unfold replyPackets
  split
  · next hm =>
    have hp : q.protocol = .mqtt := hproto.symm.trans hm
    have hr := readMsg_sendReply m (cStr m.replyTopic) r (h.mqtt hp)
    refine ⟨_, rfl, ⟨hp, by rw [h.replyTopic, cStr_idem], _, hr⟩, ?_⟩
    simp only [Packet.seen, Packet.decode, hr, if_pos hp]
    rfl
  · next hm =>
    have hp : q.protocol ≠ .mqtt := by rw [← hproto, hm]; decide
    obtain ⟨hd, hs⟩ := tcp hp
    exact ⟨_, rfl, hd, by rw [hs, if_neg hp]⟩
  · next hm =>
    have hp : q.protocol ≠ .mqtt := by rw [← hproto, hm]; decide
    obtain ⟨hd, hs⟩ := tcp hp
    exact ⟨_, rfl, hd, by rw [hs, if_neg hp]⟩
  · next bits hm => exact absurd (hproto.symm.trans hm) (hq bits)

theorem sent_length (m : AittMsg) (replies : List Bytes) :
    (sent m replies).length = replies.length := by
  induction replies generalizing m with
  | nil => rfl
  | cons r rest ih => simp [sent, ih]

/-- The end is marked on the last reply and on no other. -/
theorem sent_isEnd {m : AittMsg} {replies : List Bytes} {n : ℕ} {x : Seen}
    (h : (sent m replies)[n]? = some x) : x.isEnd = true ↔ n + 1 = replies.length := by
  induction replies generalizing m n with
  | nil => simp [sent] at h
  | cons r rest ih =>
    cases n with
    | zero =>
      obtain rfl : seen (sendReply m rest.isEmpty) r = x := by simpa [sent] using h
      have hend : (seen (sendReply m rest.isEmpty) r).isEnd = rest.isEmpty := rfl
      rw [hend]
      cases rest <;> simp
    | succ n =>
      rw [sent, List.getElem?_cons_succ] at h
      rw [ih h, List.length_cons]
      omega

theorem sent_bounds {m : AittMsg} {replies : List Bytes} :
    ∀ x ∈ sent m replies, x.sequence < 2 ^ 31 ∧ x.correlation = m.correlation := by
  induction replies generalizing m with
  | nil => simp [sent]
  | cons r rest ih =>
    intro x hx
    rcases List.mem_cons.mp hx with rfl | hx
    · exact ⟨(sendReply m rest.isEmpty).sequence.toInt_lt, sendReply_correlation m _⟩
    · rw [← sendReply_correlation m rest.isEmpty]
      exact ih x hx

theorem sendReply_sequence {m : AittMsg} {last : Bool} (h : last = false ∨ m.sequence ≠ 0) :
    (sendReply m last).sequence = m.sequence + 1 := by
  simp only [sendReply, if_pos h]
  rfl

/-- Once numbering has begun, every reply takes the next number. -/
theorem sent_numbered {m : AittMsg} {n : ℕ} (hn : 0 < n) (hs : m.sequence = Int32.ofNat n)
    (replies : List Bytes) (hb : n + replies.length < 2 ^ 31) :
    sent m replies = replies.mapIdx fun i r =>
      ⟨r, (n : ℤ) + i + 1, m.correlation, i + 1 = replies.length⟩ := by
  induction replies generalizing m n with
  | nil => rfl
  | cons r rest ih =>
    rw [List.length_cons] at hb
    have hne : m.sequence ≠ 0 := by
      rw [hs]
      intro h0
      have ht := congrArg Int32.toInt h0
      rw [Int32.toInt_ofNat_of_lt (by omega)] at ht
      simp at ht
      omega
    have hseq : (sendReply m rest.isEmpty).sequence = Int32.ofNat (n + 1) := by
      rw [sendReply_sequence (Or.inr hne), hs, Int32.ofNat_add]
      rfl
    rw [sent, ih (Nat.succ_pos n) hseq (by omega), List.mapIdx_cons, sendReply_correlation]
    congr 1
    · rw [seen, hseq, Int32.toInt_ofNat_of_lt (by omega), sendReply_correlation,
        sendReply_endSequence]
      cases rest <;> simp
    · refine congrArg (fun f => List.mapIdx f rest) (funext fun i => funext fun r => ?_)
      simp only [Seen.mk.injEq, true_and, List.length_cons]
      constructor
      · push_cast
        omega
      · simp

/-- The responder's numbers are the ones expected, as long as they fit `int`. -/
theorem sent_eq_expected {m : AittMsg} (hs : m.sequence = 0) {correlation : Bytes}
    {replies : List Bytes} (hr : replies ≠ []) :
    sent m replies = expected correlation replies ↔
      m.correlation = correlation ∧ replies.length < 2 ^ 31 := by
  constructor
  · intro h
    have mem : ∀ n (hn : n < replies.length), (⟨replies[n], if replies.length = 1 then 0
        else (n : ℤ) + 1, correlation, n + 1 = replies.length⟩ : Seen) ∈ sent m replies := by
      intro n hn
      rw [h]
      exact List.mem_of_getElem? (i := n) (by simp [expected, hn])
    refine ⟨(sent_bounds _ (mem 0 (List.length_pos_iff.mpr hr))).2.symm, ?_⟩
    by_contra hlen
    have hn : 2 ^ 31 - 1 < replies.length := by omega
    have hb := (sent_bounds _ (mem _ hn)).1
    rw [if_neg (by omega)] at hb
    have hlt : ((2 ^ 31 - 1 : ℕ) : ℤ) + 1 < 2 ^ 31 := hb
    omega
  · rintro ⟨rfl, hlen⟩
    obtain ⟨r, rest, rfl⟩ := List.exists_cons_of_ne_nil hr
    cases rest with
    | nil =>
      simp [sent, expected, seen, sendReply, hs]
    | cons r' rest =>
      have hseq : (sendReply m false).sequence = Int32.ofNat 1 := by
        rw [sendReply_sequence (Or.inl rfl), hs]
        rfl
      have hb : 1 + (r' :: rest).length < 2 ^ 31 := by
        rw [List.length_cons] at hlen
        omega
      rw [expected, List.mapIdx_cons, sent, List.isEmpty_cons,
        sent_numbered Nat.one_pos hseq _ hb, sendReply_correlation]
      congr 1
      · rw [seen, hseq, sendReply_correlation, sendReply_endSequence]
        simp
      · refine congrArg (fun f => List.mapIdx f (r' :: rest)) (funext fun i => funext fun r => ?_)
        simp only [Seen.mk.injEq, true_and, List.length_cons]
        constructor
        · rw [if_neg (by omega)]
          push_cast
          omega
        · simp

namespace Request

def closure (q : Request) : Closure Callback := ⟨q.o.info, .reply⟩

def entry (q : Request) : SubscribeInfo Callback := ⟨q.o.info, q.protocol, q.o.handle, .reply⟩

def data (q : Request) : SubscribeData (Closure Callback) :=
  ⟨q.o.handle, q.replyTopic, q.closure, q.userData⟩

def cell (q : Request) : TcpModule.CbInfo (Closure Callback) :=
  ⟨q.o.handle, q.closure, q.userData⟩

structure Sent (q : Request) : Prop where
  running : Running q.requester
  others : ∀ x ∈ q.requester.subscriptions, x = .application
  fresh : Fresh q.requester q.protocol q.o
  opened : q.opened.2 = .ok q.o.info

end Request

theorem Request.Sent.closures {q : Request} (h : q.Sent) :
    ∀ c ∈ q.requester.closures, c.cb ≠ .reply := by
  intro c hc
  rw [h.others c.cb (List.mem_append_left _ (List.mem_map_of_mem hc))]
  decide

theorem Request.Sent.list {q : Request} (h : q.Sent) :
    ∀ e ∈ q.requester.subscribedList, e.cb ≠ .reply := by
  intro e he
  rw [h.others e.cb (List.mem_append_right _ (List.mem_map_of_mem he))]
  decide

theorem Request.Sent.cells {q : Request} (h : q.Sent) {p : AittProtocol} :
    ∀ y ∈ q.requester.cells p, y.2.cb ≠ .reply :=
  fun y hy => h.closures y.2 (mem_closures.mpr ⟨p, y.1, hy⟩)

/-- `Subscribe` returned, so the transport did. -/
theorem Request.Sent.transport {q : Request} (h : q.Sent) :
    ∃ i handle, q.requester.transportSubscribe q.protocol q.replyTopic .reply q.userData q.o =
        (i, .ok handle) ∧
      q.opened.1 = { i with
        subscribedList := i.subscribedList ++ [⟨q.o.info, q.protocol, handle, .reply⟩]
        replyId := q.requester.replyId + 1 } := by
  have ho := h.opened
  unfold Request.opened openReply Impl.subscribe at ho ⊢
  rcases ht : q.requester.transportSubscribe q.protocol q.replyTopic .reply q.userData q.o with
    ⟨i, err | handle⟩
  · have hr : AittRequest.replyTopic q.requester q.topic = q.replyTopic := rfl
    rw [hr, ht] at ho
    cases ho
  · have hr : AittRequest.replyTopic q.requester q.topic = q.replyTopic := rfl
    refine ⟨i, handle, rfl, ?_⟩
    rw [hr, ht]

theorem Request.Sent.opened_mqtt {q : Request} (h : q.Sent) (hp : q.protocol = .mqtt) :
    q.opened.1 = { q.requester with
      mq := { q.requester.mq with subscribers := q.requester.mq.subscribers ++ [q.data] }
      mySubscribeTable := q.requester.mySubscribeTable ++ [(q.o.handle, q.replyTopic)]
      subscribedList := q.requester.subscribedList ++ [q.entry]
      replyId := q.requester.replyId + 1 } := by
  obtain ⟨i, handle, ht, ho⟩ := h.transport
  rw [hp] at ht
  unfold Impl.transportSubscribe Impl.subscribeMQ at ht
  cases hret : q.o.ret with
  | false =>
    rw [hret, MosquittoMQ.subscribe_fails] at ht
    cases (Prod.mk.inj ht).2
  | true =>
    rw [hret, MosquittoMQ.subscribe_succeeds] at ht
    simp only at ht
    split at ht
    · cases (Prod.mk.inj ht).2
    · cases hpub : q.o.published with
      | false =>
        rw [hpub] at ht
        cases (Prod.mk.inj ht).2
      | true =>
        rw [hpub] at ht
        obtain ⟨rfl, hh⟩ := Prod.mk.inj ht
        obtain rfl := Except.ok.inj hh
        rw [ho]
        simp [MosquittoMQ.Client.subscribe, h.running.calm.2, Request.data, Request.closure,
          Request.entry]

theorem Request.Sent.opened_tcp {q : Request} (h : q.Sent) {secure : Bool}
    (hp : q.protocol = tcpProtocol secure) :
    ∃ m owner d, q.opened.1 = { q.requester with
        modules := Function.update q.requester.modules secure m
        subscribedList := q.requester.subscribedList ++ [q.entry]
        replyId := q.requester.replyId + 1 } ∧
      TcpModule.Sound m ∧
      (∀ c, c ∈ m.cells ↔ c = q.cell ∨ c ∈ (q.requester.modules secure).cells) ∧
      m.subscribeHandles = (q.requester.modules secure).subscribeHandles ++ [(q.cell, owner)] ∧
      m.findTopic q.replyTopic = some d ∧
      (d.cbList = [q.cell] ∨
        ∃ e ∈ (q.requester.modules secure).subscribeTable, d.cbList = e.cbList ++ [q.cell]) := by
  obtain ⟨i, handle, ht, ho⟩ := h.transport
  have ha := (hp ▸ h.fresh : Fresh q.requester (tcpProtocol secure) q.o).allocatable q.closure
    q.userData
  rw [hp, transportSubscribe_tcp] at ht
  unfold Impl.subscribeTCP at ht
  rcases @TcpModule.Sound.subscribe_spec _ _ (h.running.modules secure) q.replyTopic _ _ ha
    q.o.server q.o.published with ⟨err, he⟩ | ⟨m, blob, owner, he, hm, hc, hh⟩
  · have he' : (q.requester.modules secure).subscribe q.replyTopic ⟨q.o.handle, ⟨q.o.info, .reply⟩,
        q.userData⟩ q.o.listenInfo q.o.server q.o.published = _ := he
    rw [he'] at ht
    cases (Prod.mk.inj ht).2
  · have he' : (q.requester.modules secure).subscribe q.replyTopic ⟨q.o.handle, ⟨q.o.info, .reply⟩,
        q.userData⟩ q.o.listenInfo q.o.server q.o.published = _ := he
    obtain ⟨d, hd, hlist⟩ := TcpModule.findTopic_subscribe he
    rw [he'] at ht
    cases hpub : q.o.published with
    | false =>
      rw [hpub] at ht
      cases (Prod.mk.inj ht).2
    | true =>
      rw [hpub] at ht hh
      obtain ⟨rfl, hok⟩ := Prod.mk.inj ht
      obtain rfl := Except.ok.inj hok
      exact ⟨m, owner, d, ho, hm, hc, hh, hd, hlist⟩

theorem Request.Sent.protocol_cases {q : Request} (h : q.Sent) :
    q.protocol = .mqtt ∨ ∃ secure, q.protocol = tcpProtocol secure := by
  cases hp : q.protocol with
  | mqtt => exact Or.inl rfl
  | tcp => exact Or.inr ⟨false, rfl⟩
  | tcpSecure => exact Or.inr ⟨true, rfl⟩
  | other bits =>
    obtain ⟨i, handle, ht, -⟩ := h.transport
    rw [hp] at ht
    cases (Prod.mk.inj ht).2

theorem Request.Sent.protocol_known {q : Request} (h : q.Sent) (bits : ℕ) :
    q.protocol ≠ .other bits := by
  rcases h.protocol_cases with hp | ⟨secure, hp⟩
  · rw [hp]
    exact fun hc => by cases hc
  · rw [hp]
    cases secure <;> exact fun hc => by cases hc

/-- The requester while it waits for replies: nothing but the iterator of its client moves.
A pending update flag is spent on an entry before that of the reply subscription. -/
structure Open (q : Request) (i : Impl Callback) : Prop where
  rest : i = { q.opened.1 with mq := i.mq }
  subscribers : i.mq.subscribers = q.opened.1.mq.subscribers
  calm : i.mq.newSubscribers = [] ∧ i.mq.subscribersIterating = false
  flag : q.protocol = .mqtt → i.mq.subscriberIteratorUpdated = true →
    q.requester.mq.subscribers ≠ []

section Open

variable {i : Impl Callback}

/-- What `Subscribe` did to the transports. -/
theorem Request.Sent.adds {q : Request} (h : q.Sent) :
    Running q.opened.1 ∧ (∀ p, ∀ y ∈ q.opened.1.cells p,
      y ∈ q.requester.cells p ∨ (p = q.protocol ∧ y = (q.o.handle, q.closure))) ∧
      q.opened.1.subscribedList = q.requester.subscribedList ++ [q.entry] := by
  obtain ⟨j, handle, ht, ho⟩ := h.transport
  obtain ⟨ha, hr⟩ := @Running.transportSubscribe _ _ h.running _ q.replyTopic .reply q.userData _
    h.fresh
  rw [ht] at ha hr
  obtain ⟨rfl, -⟩ := hr handle rfl
  rw [ho]
  refine ⟨⟨ha.running.mq, ha.running.calm, ha.running.modules⟩, fun p y hy => ?_, ?_⟩
  · refine ha.new p y ?_
    cases p <;> exact hy
  · rw [ha.list]
    rfl

theorem Open.live_eq (hq : q.Sent) (h : Open q i) : i.mq.live = q.opened.1.mq.live := by
  rw [MosquittoMQ.Client.live, MosquittoMQ.Client.live, h.subscribers, h.calm.1, hq.adds.1.calm.1]

theorem Open.running (hq : q.Sent) (h : Open q i) : Running i := by
  refine ⟨hq.adds.1.mq.of_perm (.of_eq (h.live_eq hq)), h.calm, ?_⟩
  rw [h.rest]
  exact hq.adds.1.modules

theorem Open.cells_eq (hq : q.Sent) (h : Open q i) (p : AittProtocol) :
    i.cells p = q.opened.1.cells p := by
  cases p with
  | mqtt => exact congrArg (List.map _) (h.live_eq hq)
  | _ =>
    rw [h.rest]
    rfl

theorem Open.list (hq : q.Sent) (h : Open q i) :
    i.subscribedList = q.requester.subscribedList ++ [q.entry] := by
  rw [h.rest]
  exact hq.adds.2.2

theorem Open.cell_mem (hq : q.Sent) (h : Open q i) :
    (q.o.handle, q.closure) ∈ i.cells q.protocol := by
  rw [h.cells_eq hq]
  rcases hq.protocol_cases with hp | ⟨secure, hp⟩
  · rw [hp, hq.opened_mqtt hp]
    refine mem_cells_mqtt.mpr ⟨q.data, ?_, rfl⟩
    simp [MosquittoMQ.Client.live]
  · obtain ⟨m, owner, d, ho, -, hc, -⟩ := hq.opened_tcp hp
    rw [hp]
    refine mem_cells_tcp.mpr ⟨q.cell, ?_, rfl⟩
    rw [ho]
    simpa using (hc q.cell).mpr (Or.inl rfl)

theorem Open.live (hq : q.Sent) (h : Open q i) : Live i := by
  constructor
  · exact List.mem_map.mpr ⟨q.closure, mem_closures.mpr ⟨_, _, h.cell_mem hq⟩, rfl⟩
  · rw [h.list hq]
    exact List.mem_map.mpr ⟨q.entry, List.mem_append_right _ (List.mem_singleton_self _), rfl⟩

theorem Open.find (hq : q.Sent) (h : Open q i) : i.find q.o.info = some q.entry := by
  have hn : q.requester.subscribedList.find? (·.address = q.o.info) = none := by
    rw [List.find?_eq_none]
    intro e he
    simpa using hq.fresh.info e he
  rw [Impl.find, h.list hq, List.find?_append, hn]
  simp [Request.entry]

theorem Open.subscribers_mqtt (hq : q.Sent) (h : Open q i) (hp : q.protocol = .mqtt) :
    i.mq.subscribers = q.requester.mq.subscribers ++ [q.data] := by
  rw [h.subscribers, hq.opened_mqtt hp]

theorem Open.unsubscribeMQ_ok (hq : q.Sent) (h : Open q i) (hp : q.protocol = .mqtt) :
    ∃ userData, (i.unsubscribeMQ q.o.handle true true).2 = .ok userData := by
  have hsub := h.subscribers_mqtt hq hp
  have htable : q.o.handle ∈ i.mySubscribeTable.map (·.1) := by
    rw [h.rest, hq.opened_mqtt hp]
    simp
  have hlt : i.mq.find q.o.handle < i.mq.subscribers.length := by
    refine List.findIdx_lt_length_of_exists ⟨q.data, ?_, by simp [Request.data]⟩
    rw [hsub]
    exact List.mem_append_right _ (List.mem_singleton_self _)
  have hget := List.getElem?_eq_getElem hlt
  refine ⟨i.mq.subscribers[i.mq.find q.o.handle].userData, ?_⟩
  simp only [Impl.unsubscribeMQ, MosquittoMQ.Client.unsubscribe, if_neg hq.fresh.nonnull, hget,
    if_true, if_pos htable]

/-- The transport gives the reply subscription up. -/
theorem Open.transport (hq : q.Sent) (h : Open q i) :
    ∃ j userData, i.transportUnsubscribe q.entry true true = (j, .ok userData) ∧
      Removes i j q.entry ∧ ∀ y ∈ j.cells q.protocol, y.1 ≠ q.o.handle := by
  have hr := h.running hq
  rcases hq.protocol_cases with hp | ⟨secure, hp⟩
  · obtain ⟨userData, hok⟩ := h.unsubscribeMQ_ok hq hp
    obtain ⟨hrem, hgone⟩ := @Running.unsubscribeMQ _ _ hr q.entry hp true true
    rw [transportUnsubscribe_mqtt i hp]
    exact ⟨_, userData, Prod.ext rfl hok, hrem, hgone userData hok⟩
  · obtain ⟨m, owner, d, ho, hm, -, hh, -⟩ := hq.opened_tcp hp
    have hmod : i.modules secure = m := by
      rw [h.rest, ho]
      simp
    have hmem : (q.cell, owner) ∈ (i.modules secure).subscribeHandles := by
      rw [hmod, hh]
      exact List.mem_append_right _ (List.mem_singleton_self _)
    obtain ⟨⟨cell, owner'⟩, hf⟩ := findHandle_isSome hmem
    obtain ⟨m', blob, r, he, hok, hs, hc, hhs⟩ := (hr.modules secure).unsubscribe_spec hf true
    have hk := @Running.eraseTCP _ _ hr secure _ q.entry hp hs hc hhs
    obtain rfl := hok rfl
    have he' : (i.modules secure).unsubscribe q.entry.handle true =
        (m', blob, .ok cell.cbdata) := he
    rw [transportUnsubscribe_tcp i hp]
    refine ⟨_, cell.cbdata, ?_, hk.1, hk.2⟩
    simp only [Impl.unsubscribeTCP, he']

/-- When the lambda unsubscribes, nothing of the reply subscription is left. -/
theorem Open.gone (hq : q.Sent) (h : Open q i) : Gone (i.unsubscribe q.o.info true true).1 := by
  obtain ⟨j, userData, ht, hr, hg⟩ := h.transport hq
  have hj : (i.unsubscribe q.o.info true true).1 = { j with
      subscribedList := j.subscribedList.eraseP (·.address = q.o.info) } := by
    simp only [Impl.unsubscribe, h.find hq, ht]
  rw [hj]
  constructor
  · intro hm
    obtain ⟨c, hc, hcb⟩ := List.mem_map.mp hm
    obtain ⟨p, handle, hx⟩ := mem_closures.mp hc
    rw [cells_list] at hx
    have hi := hr.sub p _ hx
    rw [h.cells_eq hq] at hi
    rcases hq.adds.2.1 p _ hi with ho | ⟨rfl, hnew⟩
    · exact hq.cells _ ho hcb
    · exact hg _ hx (congrArg Prod.fst hnew)
  · intro hm
    obtain ⟨e, he, hcb⟩ := List.mem_map.mp hm
    have hlist : j.subscribedList.eraseP (·.address = q.o.info) = q.requester.subscribedList := by
      rw [hr.list, h.list hq, List.eraseP_append_right _ (fun e he => by
        simpa using hq.fresh.info e he)]
      simp [Request.entry]
    exact hq.list e (hlist ▸ he) hcb

/-- Of the entries that get a turn, the one of the reply subscription gets just one. -/
theorem Open.turns (hq : q.Sent) (h : Open q i) (hp : q.protocol = .mqtt) :
    (MosquittoDelivery.turns i.mq.subscribers 0 i.mq.subscriberIteratorUpdated).filter
      (·.cb.cb = .reply) = [q.data] := by
  have hsub := h.subscribers_mqtt hq hp
  have happ : ∀ d ∈ q.requester.mq.subscribers, ¬ d.cb.cb = .reply :=
    fun d hd => hq.cells _ (mem_cells_mqtt.mpr ⟨d, List.mem_append_left _ hd, rfl⟩)
  have hnone : q.requester.mq.subscribers.filter (·.cb.cb = .reply) = [] := by
    rw [List.filter_eq_nil_iff]
    intro d hd
    simpa using happ d hd
  have hall : i.mq.subscribers.filter (·.cb.cb = .reply) = [q.data] := by
    rw [hsub, List.filter_append, hnone]
    simp [Request.data, Request.closure]
  unfold MosquittoDelivery.turns
  rw [List.drop_zero]
  split
  · next hflag =>
    obtain ⟨d, rest, hcons⟩ := List.exists_cons_of_ne_nil (h.flag hp hflag)
    have hd : ¬ d.cb.cb = .reply := happ d (by rw [hcons]; exact List.mem_cons_self)
    rw [List.filter_append, hall, hsub, hcons]
    simp [hd]
  · exact hall

theorem Request.Sent.serves (hq : q.Sent)
    (hself : compareTopic topicMatchesSub q.replyTopic q.replyTopic = true) {msg : Message}
    (ht : msg.topic = cStr q.replyTopic) :
    MosquittoMQ.serves topicMatchesSub msg q.data = true := by
  simp [MosquittoMQ.serves, Request.data, ht, compareTopic_cStr, hself, hq.fresh.nonnull]

theorem Open.receive_mqtt (hq : q.Sent) (h : Open q i) (hp : q.protocol = .mqtt)
    (hself : compareTopic topicMatchesSub q.replyTopic q.replyTopic = true) {msg : Message}
    (ht : msg.topic = cStr q.replyTopic) :
    Open q (i.messageCB topicMatchesSub msg).1 ∧
      (i.messageCB topicMatchesSub msg).2.filter (·.cb = .reply) = [q.closure] := by
  have hsub := h.subscribers_mqtt hq hp
  constructor
  · refine ⟨?_, ?_, ⟨rfl, rfl⟩, fun _ hflag => ?_⟩
    · exact congrArg (fun j : Impl Callback =>
        { j with mq := (MosquittoDelivery.messageCB topicMatchesSub i.mq msg).1 }) h.rest
    · simp only [Impl.messageCB, MosquittoDelivery.messageCB, h.calm.1, List.append_nil]
      exact h.subscribers
    · simp [Impl.messageCB, MosquittoDelivery.messageCB, hsub] at hflag
  · simp only [Impl.messageCB, MosquittoDelivery.messageCB, List.filter_map]
    have hcomp : ((fun c : Closure Callback => decide (c.cb = .reply)) ∘
        fun d : SubscribeData (Closure Callback) => d.cb) =
          fun d => decide (d.cb.cb = .reply) := rfl
    rw [hcomp, List.filter_comm, h.turns hq hp, List.filter_cons_of_pos (hq.serves hself ht)]
    rfl

theorem Open.serverCalls (hq : q.Sent) (h : Open q i) {secure : Bool}
    (hp : q.protocol = tcpProtocol secure) :
    (q.serverCalls i secure).filter (·.cb = .reply) = [q.closure] := by
  obtain ⟨m, owner, d, ho, hm, -, -, hd, hlist⟩ := hq.opened_tcp hp
  have hmod : i.modules secure = m := by
    rw [h.rest, ho]
    simp
  obtain ⟨d', hd'⟩ : ∃ d', m.findServer d.address = some d' := by
    apply Option.isSome_iff_exists.mp
    rw [TcpModule.Module.findServer, List.find?_isSome]
    exact ⟨d, (TcpModule.mem_of_findTopic hd).1, by simp⟩
  have heq : d' = d := hm.toWellFormed.eq_of_address (TcpModule.mem_of_findServer hd').1
    (TcpModule.mem_of_findTopic hd).1 (TcpModule.mem_of_findServer hd').2
  have hcalls : q.serverCalls i secure = d.cbList.map (·.cb) := by
    simp only [Request.serverCalls, Impl.receiveData, hmod, hd, Option.elim_some, hd', heq]
  rw [hcalls]
  rcases hlist with hl | ⟨e, he, hl⟩
  · rw [hl]
    rfl
  · have hnone : (e.cbList.map (·.cb)).filter (·.cb = .reply) = [] := by
      rw [List.filter_eq_nil_iff]
      intro c hc hcb
      obtain ⟨x, hx, rfl⟩ := List.mem_map.mp hc
      have hmem : (x.address, x.cb) ∈ q.requester.cells (tcpProtocol secure) :=
        mem_cells_tcp.mpr ⟨x, TcpModule.Module.mem_cells.mpr ⟨e, he, hx⟩, rfl⟩
      exact hq.cells _ hmem (of_decide_eq_true hcb)
    rw [hl, List.map_append, List.filter_append, hnone]
    rfl

/-- A packet that arrives while the requester waits leads to one call of its callback. -/
theorem Open.receive [Package] (hq : q.Sent) (h : Open q i)
    (hself : q.protocol = .mqtt → compareTopic topicMatchesSub q.replyTopic q.replyTopic = true)
    {p : Packet} (hd : Deliverable q p) :
    ∃ j calls c, receive topicMatchesSub q i p = some (j, calls) ∧ Open q j ∧
      calls.filter (·.cb = .reply) = [c] ∧ c.info.id = q.o.info ∧
      p.seen = some (seen c.info c.payload) := by
  have filter_calls : ∀ (f : Closure Callback → Call), (∀ c, (f c).cb = c.cb) →
      ∀ cs : List (Closure Callback), cs.filter (·.cb = .reply) = [q.closure] →
        (cs.map f).filter (·.cb = .reply) = [f q.closure] := by
    intro f hf cs hcs
    have hcomp : ((fun c : Call => decide (c.cb = .reply)) ∘ f) =
        fun c => decide (c.cb = .reply) := by
      funext c
      simp only [Function.comp, hf]
    rw [List.filter_map, hcomp, hcs]
    rfl
  cases p with
  | mqtt msg =>
    obtain ⟨hp, ht, info, hr⟩ := hd
    obtain ⟨hj, hcs⟩ := h.receive_mqtt hq hp (hself hp) ht
    refine ⟨_, _, _, ?_, hj, filter_calls (fun c => ⟨c.cb, { info with id := c.info },
      msg.payload⟩) (fun _ => rfl) _ hcs, rfl, ?_⟩
    · simp only [ReplyExchange.receive, hr]
    · simp only [Packet.seen, Packet.decode, hr]
      rfl
  | tcp info payload =>
    obtain ⟨hp, ht⟩ := hd
    obtain ⟨secure, hs⟩ : ∃ secure, q.protocol = tcpProtocol secure := by
      rcases hq.protocol_cases with hm | hs
      · exact absurd hm hp
      · exact hs
    have hsecure : decide (q.protocol = .tcpSecure) = secure := by
      rw [hs]
      cases secure <;> rfl
    refine ⟨i, _, _, ?_, h, filter_calls (fun c => ⟨c.cb, { unpackMsgInfo info with
      id := c.info, protocol := q.protocol }, payload⟩) (fun _ => rfl) _
      (h.serverCalls hq hs), rfl, ?_⟩
    · simp only [ReplyExchange.receive, if_neg ht, hsecure]
    · simp only [Packet.seen, Packet.decode, if_neg ht]
      rfl

end Open

end ReplyExchange
