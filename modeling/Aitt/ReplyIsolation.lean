import Aitt.AittRequest
import Mathlib.Data.Fintype.Basic

/-! Requests and replies of many instances over one broker. A reply finds its way by the
reply topic alone. Messages carry the number of the request they make or answer, which no
part of the program reads. Inboxes and queues are served in any order. A synchronous request
has a loop of its own and a lambda that refers to the frame of its call; its subscription
outlives both when the call ends without the final reply. -/
namespace ReplyIsolation

open AittTypes MqttProperties TransitionRuns AittImpl AittRequest
open MosquittoMQ (SubscribeData compareTopic compareTopic_cStr)

inductive Callback where
  | application
  | request (number : ℕ)
  | requestSync (number : ℕ)
  deriving DecidableEq, Repr

def Callback.request? : Callback → Option ℕ
  | .application => none
  | .request number => some number
  | .requestSync number => some number

def Callback.loop? : Callback → Option ℕ
  | .requestSync number => some number
  | _ => none

inductive Origin where
  | plain
  | request (number : ℕ)
  | reply (number : ℕ)
  deriving DecidableEq, Repr

structure Packet where
  msg : Message
  origin : Origin
  deriving DecidableEq, Repr

/-- A call queued with `AddIdle`; the id in its message is the one the lambda captured. -/
structure Call where
  cb : Callback
  info : AittMsg
  origin : Origin
  deriving DecidableEq, Repr

structure Held where
  msg : AittMsg
  request : ℕ
  deriving DecidableEq, Repr

/-- The loop of a synchronous request, until it is deleted. An exception leaves the call
without that: the loop is there and does not run. -/
structure SyncLoop where
  number : ℕ
  hasTimeout : Bool
  queue : List Call := []
  running : Bool := true
  quit : Bool := false
  deriving DecidableEq, Repr

def SyncLoop.ran (l : SyncLoop) (k : ℕ) (last throws : Bool) : SyncLoop :=
  { l with queue := l.queue.eraseIdx k, quit := l.quit || last, running := !throws }

structure Instance where
  impl : Impl Callback
  inbox : List Packet := []
  queue : List Call := []
  loops : List SyncLoop := []
  held : List Held := []

/-- `wild` is a use of a loop that has been deleted, after which anything may be called. -/
inductive Act where
  | handed (callback answered : ℕ)
  | removed (answered : ℕ) (victim : Callback)
  | wild
  deriving DecidableEq, Repr

structure State (ι : Type) where
  node : ι → Instance
  requests : ℕ
  log : List Act

/-- `ret`, `published` and `sent` are the successes of calls to the broker; `throws` is about
the caller's callback. -/
inductive Event (ι : Type) where
  | subscribe (i : ι) (protocol : AittProtocol) (topic : String) (userData : Address) (o : Outcome)
  | unsubscribe (i : ι) (id : Address) (ret published : Bool)
  | publish (topic : String) (payload : Bytes)
  | request (i : ι) (topic : String) (payload correlation : Bytes) (userData : Address)
      (o : Outcome) (sent : Bool)
  | requestSync (i : ι) (topic : String) (payload correlation : Bytes) (userData : Address)
      (o : Outcome) (sent hasTimeout : Bool)
  | deliver (i : ι) (k : ℕ)
  | run (i : ι) (k : ℕ) (ret published : Bool)
  | runSync (i : ι) (number k : ℕ) (ret published throws : Bool)
  | timeout (i : ι) (number : ℕ)
  | leave (i : ι) (number : ℕ)
  | sendReply (i : ι) (k : ℕ) (payload : Bytes) (last sent : Bool)
  | drop (i : ι) (k : ℕ)

variable {ι : Type} [DecidableEq ι]

def initial (ip : ι → String) : State ι := ⟨fun i => { impl := .new (ip i) }, 0, []⟩

def State.set (s : State ι) (i : ι) (n : Instance) : State ι :=
  { s with node := Function.update s.node i n }

def Call.holds (q : Call) : List Held :=
  match q.origin with
  | .request m => [⟨q.info, m⟩]
  | _ => []

def Call.record (q : Call) (number : ℕ) (victims : List Callback) : List Act :=
  match q.origin with
  | .reply m => .handed number m :: victims.map (.removed m)
  | _ => []

namespace Instance

def onLoop (n : Instance) (number : ℕ) (f : SyncLoop → SyncLoop) : Instance :=
  { n with loops := n.loops.map fun l => if l.number = number then f l else l }

def addIdle (n : Instance) (q : Call) : Instance :=
  match q.cb.loop? with
  | none => { n with queue := n.queue ++ [q] }
  | some number => n.onLoop number fun l => { l with queue := l.queue ++ [q] }

def hasLoop (n : Instance) (cb : Callback) : Bool :=
  cb.loop?.all fun number => n.loops.any (·.number = number)

def findLoop (n : Instance) (number : ℕ) : Option SyncLoop :=
  n.loops.find? (·.number = number)

def calls (n : Instance) : List Call := n.queue ++ n.loops.flatMap (·.queue)

end Instance

variable (topicMatchesSub : String → String → Option Bool)

def broadcast (s : State ι) (p : Packet) : State ι :=
  { s with node := fun i =>
      if (s.node i).impl.mq.live.any fun d => compareTopic topicMatchesSub d.topic p.msg.topic then
        { s.node i with inbox := (s.node i).inbox ++ [p] }
      else s.node i }

def publishWithReply (s : State ι) (i : ι) (cb : Callback) (topic : String)
    (payload correlation : Bytes) (userData : Address) (o : Outcome) (sent : Bool) : State ι :=
  let impl := (s.node i).impl
  let r := openReply impl .mqtt topic cb userData o
  let t := { s.set i { s.node i with impl := r.1 } with requests := s.requests + 1 }
  match r.2, sent with
  | .ok _, true => broadcast topicMatchesSub t
      ⟨⟨cStr topic, payload, some (publishWithReplyProps (replyTopic impl topic) correlation)⟩,
        .request s.requests⟩
  | _, _ => t

def requestStep (s : State ι) (i : ι) (topic : String) (payload correlation : Bytes)
    (userData : Address) (o : Outcome) (sent : Bool) : State ι :=
  publishWithReply topicMatchesSub s i (.request s.requests) topic payload correlation userData o
    sent

def requestSyncStep (s : State ι) (i : ι) (topic : String) (payload correlation : Bytes)
    (userData : Address) (o : Outcome) (sent hasTimeout : Bool) : State ι :=
  let cb := .requestSync s.requests
  let opened := (openReply (s.node i).impl .mqtt topic cb userData o).2.isOk
  let t := publishWithReply topicMatchesSub s i cb topic payload correlation userData o sent
  t.set i { t.node i with
    loops := (t.node i).loops ++ [⟨s.requests, hasTimeout, [], opened && sent, false⟩] }

def deliverStep (s : State ι) (i : ι) (k : ℕ) (p : Packet) : Option (State ι) :=
  let n := s.node i
  let r := n.impl.messageCB topicMatchesSub p.msg
  let n' := { n with impl := r.1, inbox := n.inbox.eraseIdx k }
  match readMsg p.msg with
  | .ok info =>
    let calls : List Call := r.2.map fun c => ⟨c.cb, { info with id := c.info }, p.origin⟩
    some { s.set i (calls.foldl Instance.addIdle n') with
      log := s.log ++ (calls.filter fun q => !n.hasLoop q.cb).map fun _ => .wild }
  | .error _ => if r.2 = [] then some (s.set i n') else none

/-- A call that has left its queue runs. The lambda of a request unsubscribes on the end of the
sequence, then calls back. -/
def callStep (s : State ι) (i : ι) (n : Instance) (q : Call) (ret published : Bool) : State ι :=
  let n := { n with held := n.held ++ q.holds }
  match q.cb.request? with
  | none => s.set i n
  | some number =>
    let impl := if q.info.endSequence then (n.impl.unsubscribe q.info.id ret published).1
      else n.impl
    { s.set i { n with impl := impl } with
      log := s.log ++ q.record number (n.impl.lost impl) }

def runStep (s : State ι) (i : ι) (k : ℕ) (q : Call) (ret published : Bool) : State ι :=
  callStep s i { s.node i with queue := (s.node i).queue.eraseIdx k } q ret published

def runSyncStep (s : State ι) (i : ι) (number k : ℕ) (q : Call) (ret published throws : Bool) :
    State ι :=
  callStep s i ((s.node i).onLoop number (·.ran k q.info.endSequence throws)) q ret published

def sendReplyStep (s : State ι) (i : ι) (k : ℕ) (h : Held) (payload : Bytes) (last sent : Bool) :
    State ι :=
  let m := AittRequest.sendReply h.msg last
  let t := s.set i { s.node i with held := (s.node i).held.set k ⟨m, h.request⟩ }
  if sent then broadcast topicMatchesSub t
    ⟨⟨cStr m.replyTopic, payload, some (sendReplyProps m)⟩, .reply h.request⟩
  else t

def step (s : State ι) : Event ι → Option (State ι)
  | .subscribe i protocol topic userData o =>
    if Fresh (s.node i).impl protocol o then
      some (s.set i { s.node i with
        impl := ((s.node i).impl.subscribe protocol topic .application userData o).1 })
    else none
  | .unsubscribe i id ret published =>
    some (s.set i { s.node i with impl := ((s.node i).impl.unsubscribe id ret published).1 })
  | .publish topic payload =>
    some (broadcast topicMatchesSub s ⟨⟨cStr topic, payload, none⟩, .plain⟩)
  | .request i topic payload correlation userData o sent =>
    if Fresh (s.node i).impl .mqtt o then
      some (requestStep topicMatchesSub s i topic payload correlation userData o sent)
    else none
  | .requestSync i topic payload correlation userData o sent hasTimeout =>
    if Fresh (s.node i).impl .mqtt o then
      some (requestSyncStep topicMatchesSub s i topic payload correlation userData o sent
        hasTimeout)
    else none
  | .deliver i k => (s.node i).inbox[k]?.bind (deliverStep topicMatchesSub s i k)
  | .run i k ret published =>
    (s.node i).queue[k]?.map fun q => runStep s i k q ret published
  | .runSync i number k ret published throws =>
    ((s.node i).findLoop number).bind fun l =>
      if l.running then
        l.queue[k]?.map fun q => runSyncStep s i number k q ret published throws
      else none
  | .timeout i number =>
    if ((s.node i).findLoop number).any fun l => l.running && l.hasTimeout then
      some (s.set i ((s.node i).onLoop number fun l => { l with quit := true }))
    else none
  | .leave i number =>
    -- `delete sync_loop`; the subscription stays if nothing has removed it
    if ((s.node i).findLoop number).any fun l => l.running && l.quit then
      some (s.set i { s.node i with
        loops := (s.node i).loops.filter (·.number ≠ number) })
    else none
  | .sendReply i k payload last sent =>
    (s.node i).held[k]?.map fun h => sendReplyStep topicMatchesSub s i k h payload last sent
  | .drop i k => some (s.set i { s.node i with held := (s.node i).held.eraseIdx k })

def machine (ip : ι → String) : Machine (State ι) (Event ι) := ⟨initial ip, step topicMatchesSub⟩

/-- A reply goes to the callback of the request it answers, the last one removes no reply
subscription but that of its request, and no call goes to a loop that is gone. -/
structure Isolated (log : List Act) : Prop where
  handed : ∀ n m, .handed n m ∈ log → n = m
  removed : ∀ m cb, .removed m cb ∈ log → ∀ n ∈ cb.request?, n = m
  tame : .wild ∉ log

def Packet.carries (p : Packet) : Option (String × ℕ) :=
  match p.origin with
  | .plain => none
  | .request m => (readMsg p.msg).toOption.map fun info => (info.replyTopic, m)
  | .reply m => some (p.msg.topic, m)

def Call.carries (q : Call) : Option (String × ℕ) :=
  match q.origin with
  | .request m => some (q.info.replyTopic, m)
  | _ => none

def Held.carries (h : Held) : String × ℕ := (h.msg.replyTopic, h.request)

def Instance.carried (n : Instance) : List (String × ℕ) :=
  n.inbox.filterMap Packet.carries ++ n.calls.filterMap Call.carries ++ n.held.map Held.carries

def Separate (s : State ι) (topic : String) : Prop :=
  ∀ i, (∀ d ∈ (s.node i).impl.mq.live, d.cb.cb ≠ .application →
      compareTopic topicMatchesSub d.topic topic = false) ∧
    ∀ x ∈ (s.node i).carried, compareTopic topicMatchesSub topic x.1 = false

def Unheld (s : State ι) (i : ι) (protocol : AittProtocol) (o : Outcome) : Prop :=
  Unshared (s.node i).impl protocol o ∧ ∀ q ∈ (s.node i).calls, q.info.id ≠ o.info

def Instance.Awaits (n : Instance) (topic : String) : Prop :=
  ∀ d ∈ n.impl.mq.live, compareTopic topicMatchesSub d.topic topic = true →
    n.hasLoop d.cb.cb = true

/-- When replies stay apart: reply topics of open requests do not meet, the addresses of
subscriptions are not reused too early, and nothing comes for a synchronous request that is
over. -/
def Ok (s : State ι) : Event ι → Prop
  | .subscribe i protocol _ _ o => Unheld s i protocol o
  | .request i topic _ _ _ o _ | .requestSync i topic _ _ _ o _ _ => Unheld s i .mqtt o ∧
      Separate topicMatchesSub s (replyTopic (s.node i).impl topic)
  | .deliver i k => ∀ p ∈ (s.node i).inbox[k]?, (s.node i).Awaits topicMatchesSub p.msg.topic
  | _ => True

instance (s : State ι) (i : ι) (protocol : AittProtocol) (o : Outcome) :
    Decidable (Unheld s i protocol o) :=
  inferInstanceAs (Decidable (_ ∧ _))

instance [Fintype ι] (s : State ι) (topic : String) :
    Decidable (Separate topicMatchesSub s topic) :=
  inferInstanceAs (Decidable (∀ _, _))

instance (n : Instance) (topic : String) : Decidable (n.Awaits topicMatchesSub topic) :=
  inferInstanceAs (Decidable (∀ _ ∈ _, _ → _))

instance [Fintype ι] (s : State ι) (e : Event ι) : Decidable (Ok topicMatchesSub s e) := by
  cases e <;> simp only [Ok] <;> infer_instance

structure Invariant (s : State ι) : Prop where
  linked : ∀ i, Linked (s.node i).impl
  isolated : ∀ i j, ∀ d ∈ (s.node i).impl.mq.live, ∀ n ∈ d.cb.cb.request?,
    ∀ x ∈ (s.node j).carried, compareTopic topicMatchesSub d.topic x.1 = true → n = x.2
  bound : ∀ i, ∀ q ∈ (s.node i).calls, ∀ n ∈ q.cb.request?, ∀ m, q.origin = .reply m → n = m
  ids : ∀ i, ∀ q ∈ (s.node i).calls, ∀ e ∈ (s.node i).impl.subscribedList,
    e.address = q.info.id → e.cb = q.cb
  log : Isolated s.log

variable {topicMatchesSub}

theorem mem_carried {n : Instance} {x : String × ℕ} :
    x ∈ n.carried ↔ (∃ p ∈ n.inbox, p.carries = some x) ∨
      (∃ q ∈ n.calls, q.carries = some x) ∨ ∃ h ∈ n.held, h.carries = x := by
  simp only [Instance.carried, List.mem_append, List.mem_filterMap, List.mem_map, or_assoc]

/-- What an instance carries was carried before, if what it has was there before or came
from there. -/
theorem carried_of {n n' : Instance} (inbox : ∀ p ∈ n.inbox, p ∈ n'.inbox)
    (calls : ∀ q ∈ n.calls, ∀ x, q.carries = some x → x ∈ n'.carried)
    (held : ∀ h ∈ n.held, h.carries ∈ n'.carried) : ∀ x ∈ n.carried, x ∈ n'.carried := by
  intro x hx
  rcases mem_carried.mp hx with ⟨p, hp, hc⟩ | ⟨q, hq, hc⟩ | ⟨h, hh, rfl⟩
  · exact mem_carried.mpr (Or.inl ⟨p, inbox p hp, hc⟩)
  · exact calls q hq x hc
  · exact held h hh

theorem carried_call {n : Instance} {q : Call} (hq : q ∈ n.calls) {x : String × ℕ}
    (hx : q.carries = some x) : x ∈ n.carried :=
  mem_carried.mpr (Or.inr (Or.inl ⟨q, hq, hx⟩))

theorem carried_held {n : Instance} {h : Held} (hh : h ∈ n.held) : h.carries ∈ n.carried :=
  mem_carried.mpr (Or.inr (Or.inr ⟨h, hh, rfl⟩))

section Broadcast

variable (s : State ι) (p : Packet) (i : ι)

omit [DecidableEq ι] in
theorem broadcast_node : (broadcast topicMatchesSub s p).node i = s.node i ∨
    (broadcast topicMatchesSub s p).node i =
      { s.node i with inbox := (s.node i).inbox ++ [p] } := by
  simp only [broadcast]
  split
  · exact Or.inr rfl
  · exact Or.inl rfl

omit [DecidableEq ι] in
theorem broadcast_impl : ((broadcast topicMatchesSub s p).node i).impl = (s.node i).impl := by
  rcases @broadcast_node _ topicMatchesSub s p i with hi | hi <;> rw [hi]

omit [DecidableEq ι] in
theorem broadcast_calls : ((broadcast topicMatchesSub s p).node i).calls = (s.node i).calls := by
  rcases @broadcast_node _ topicMatchesSub s p i with hi | hi
  · rw [hi]
  · rw [hi]
    rfl

omit [DecidableEq ι] in
theorem broadcast_carried : ∀ x ∈ ((broadcast topicMatchesSub s p).node i).carried,
    x ∈ (s.node i).carried ∨ x ∈ p.carries := by
  intro x hx
  rcases @broadcast_node _ topicMatchesSub s p i with hi | hi
  · exact Or.inl (hi ▸ hx)
  · rw [hi] at hx
    rcases mem_carried.mp hx with ⟨p', hp', hc⟩ | hc
    · rcases List.mem_append.mp hp' with hp' | hp'
      · exact Or.inl (mem_carried.mpr (Or.inl ⟨p', hp', hc⟩))
      · obtain rfl := List.mem_singleton.mp hp'
        exact Or.inr hc
    · exact Or.inl (mem_carried.mpr (Or.inr hc))

end Broadcast

omit [DecidableEq ι] in
theorem Invariant.initial (ip : ι → String) : Invariant topicMatchesSub (initial ip) where
  linked i := .new (ip i)
  isolated := by intro i j d hd; cases hd
  bound := by intro i q hq; cases hq
  ids := by intro i q hq; cases hq
  log := by
    constructor
    · intro n m h
      cases h
    · intro m cb h
      cases h
    · exact List.not_mem_nil

theorem node_set (s : State ι) (i : ι) (n : Instance) (j : ι) :
    (j = i ∧ (s.set i n).node j = n) ∨ (j ≠ i ∧ (s.set i n).node j = s.node j) := by
  by_cases h : j = i
  · subst h
    exact Or.inl ⟨rfl, Function.update_self ..⟩
  · exact Or.inr ⟨h, Function.update_of_ne h ..⟩

/-- One instance changes: its reply subscriptions and what it carries must be accounted for. -/
theorem Invariant.set {s : State ι} (h : Invariant topicMatchesSub s) {i : ι} {n : Instance}
    (hl : Linked n.impl)
    (live : ∀ d ∈ n.impl.mq.live, d ∈ (s.node i).impl.mq.live ∨ ∀ k ∈ d.cb.cb.request?,
      ∀ j, ∀ x ∈ (s.node j).carried, compareTopic topicMatchesSub d.topic x.1 = true → k = x.2)
    (carried : ∀ x ∈ n.carried, x ∈ (s.node i).carried)
    (bound : ∀ q ∈ n.calls, ∀ k ∈ q.cb.request?, ∀ m, q.origin = .reply m → k = m)
    (ids : ∀ q ∈ n.calls, ∀ e ∈ n.impl.subscribedList, e.address = q.info.id → e.cb = q.cb) :
    Invariant topicMatchesSub (s.set i n) where
  linked j := by
    rcases node_set s i n j with ⟨-, hj⟩ | ⟨-, hj⟩
    · rw [hj]; exact hl
    · rw [hj]; exact h.linked j
  isolated := by
    have all : ∀ j, ∀ x ∈ ((s.set i n).node j).carried, ∃ j', x ∈ (s.node j').carried := by
      intro j x hx
      rcases node_set s i n j with ⟨-, hj⟩ | ⟨-, hj⟩
      · exact ⟨i, carried x (hj ▸ hx)⟩
      · exact ⟨j, hj ▸ hx⟩
    intro j j' d hd k hk x hx
    obtain ⟨j'', hx⟩ := all j' x hx
    rcases node_set s i n j with ⟨-, hj⟩ | ⟨-, hj⟩
    · rw [hj] at hd
      rcases live d hd with hd | hd
      · exact h.isolated i j'' d hd k hk x hx
      · exact hd k hk j'' x hx
    · rw [hj] at hd
      exact h.isolated j j'' d hd k hk x hx
  bound := by
    intro j
    rcases node_set s i n j with ⟨-, hj⟩ | ⟨-, hj⟩
    · rw [hj]; exact bound
    · rw [hj]; exact h.bound j
  ids := by
    intro j
    rcases node_set s i n j with ⟨-, hj⟩ | ⟨-, hj⟩
    · rw [hj]; exact ids
    · rw [hj]; exact h.ids j
  log := h.log

omit [DecidableEq ι] in
/-- A message joins inboxes; what it carries must meet no reply subscription of another. -/
theorem Invariant.broadcast {s : State ι} (h : Invariant topicMatchesSub s) {p : Packet}
    (hp : ∀ x ∈ p.carries, ∀ i, ∀ d ∈ (s.node i).impl.mq.live, ∀ n ∈ d.cb.cb.request?,
      compareTopic topicMatchesSub d.topic x.1 = true → n = x.2) :
    Invariant topicMatchesSub (broadcast topicMatchesSub s p) := by
  constructor
  · intro i
    rw [broadcast_impl]
    exact h.linked i
  · intro i j d hd n hn x hx
    rw [broadcast_impl] at hd
    rcases broadcast_carried s p j x hx with hx | hx
    · exact h.isolated i j d hd n hn x hx
    · exact hp x hx i d hd n hn
  · intro i
    rw [broadcast_calls]
    exact h.bound i
  · intro i
    rw [broadcast_calls, broadcast_impl]
    exact h.ids i
  · exact h.log

theorem Invariant.subscribe {s : State ι} (h : Invariant topicMatchesSub s) {i : ι}
    {protocol : AittProtocol} {topic : String} {cb : Callback} {userData : Address} {o : Outcome}
    (hf : Fresh (s.node i).impl protocol o) (hu : Unheld s i protocol o) {impl : Impl Callback}
    {r : Except TcpModule.Failure Address}
    (hs : (s.node i).impl.subscribe protocol topic cb userData o = (impl, r))
    (live : ∀ k ∈ cb.request?, ∀ j, ∀ x ∈ (s.node j).carried,
      compareTopic topicMatchesSub topic x.1 = true → k = x.2) (n : UInt16) :
    Invariant topicMatchesSub (s.set i { s.node i with impl := { impl with replyId := n } }) := by
  obtain ⟨hl, -, -, -⟩ := (h.linked i).subscribe hf hu.1 hs
  obtain ⟨-, list⟩ := (h.linked i).subscribe_list hf hu.1 hs
  refine h.set (hl.withReplyId n) ?_ (fun x hx => hx) (h.bound i) ?_
  · intro d hd
    have hm := @subscribe_mq _ (s.node i).impl protocol topic cb userData o d (by rw [hs]; exact hd)
    rcases hm with hd | rfl
    · exact Or.inl hd
    · exact Or.inr live
  · intro q hq e he heq
    rcases list e he with he | rfl
    · exact h.ids i q hq e he heq
    · exact absurd heq.symm (hu.2 q hq)

/-- Any part of what an instance has may go. -/
theorem Invariant.shrink {s : State ι} (h : Invariant topicMatchesSub s) {i : ι} {n : Instance}
    (hl : Linked n.impl) (live : ∀ d ∈ n.impl.mq.live, d ∈ (s.node i).impl.mq.live)
    (list : ∀ e ∈ n.impl.subscribedList, e ∈ (s.node i).impl.subscribedList)
    (calls : ∀ q ∈ n.calls, q ∈ (s.node i).calls)
    (carried : ∀ x ∈ n.carried, x ∈ (s.node i).carried) :
    Invariant topicMatchesSub (s.set i n) :=
  h.set hl (fun d hd => Or.inl (live d hd)) carried (fun q hq => h.bound i q (calls q hq))
    fun q hq e he => h.ids i q (calls q hq) e (list e he)

/-- Only calls go, with the loops that hold them. -/
theorem Invariant.dropCalls {s : State ι} (h : Invariant topicMatchesSub s) {i : ι} {n : Instance}
    (hi : n.impl = (s.node i).impl) (inbox : n.inbox = (s.node i).inbox)
    (held : n.held = (s.node i).held) (calls : ∀ q ∈ n.calls, q ∈ (s.node i).calls) :
    Invariant topicMatchesSub (s.set i n) := by
  refine h.shrink (hi ▸ h.linked i) (fun d hd => hi ▸ hd) (fun e he => hi ▸ he) calls
    (carried_of (fun p hp => inbox ▸ hp) (fun q hq x hx => carried_call (calls q hq) hx)
      fun k hk => carried_held (held ▸ hk))

theorem Invariant.unsubscribe {s : State ι} (h : Invariant topicMatchesSub s) (i : ι)
    (id : Address) (ret published : Bool) :
    Invariant topicMatchesSub
      (s.set i { s.node i with impl := ((s.node i).impl.unsubscribe id ret published).1 }) := by
  obtain ⟨hl, list⟩ := @Linked.unsubscribe_list _ _ (h.linked i) id ret published
  exact h.shrink hl (unsubscribe_mq _) list (fun q hq => hq) fun x hx => hx

theorem Packet.carries_call {p : Packet} {info : AittMsg} (hr : readMsg p.msg = .ok info)
    {cb : Callback} {id : Address} {x : String × ℕ}
    (hx : (⟨cb, { info with id := id }, p.origin⟩ : Call).carries = some x) :
    p.carries = some x := by
  unfold Call.carries at hx
  unfold Packet.carries
  cases ho : p.origin with
  | plain => rw [ho] at hx; cases hx
  | reply m => rw [ho] at hx; cases hx
  | request m =>
    rw [ho] at hx
    rw [hr]
    exact hx

section Loops

variable {n : Instance} {q q' : Call} {number : ℕ} {f : SyncLoop → SyncLoop}

theorem mem_calls : q ∈ n.calls ↔ q ∈ n.queue ∨ ∃ l ∈ n.loops, q ∈ l.queue := by
  rw [Instance.calls, List.mem_append, List.mem_flatMap]

/-- A loop that is changed has no calls but its own and those that the change gives it. -/
theorem mem_calls_onLoop {P : Call → Prop}
    (hf : ∀ l, ∀ q ∈ (f l).queue, q ∈ l.queue ∨ P q) (hq : q ∈ (n.onLoop number f).calls) :
    q ∈ n.calls ∨ P q := by
  rcases mem_calls.mp hq with hq | ⟨l, hl, hq⟩
  · exact Or.inl (mem_calls.mpr (Or.inl hq))
  · obtain ⟨l', hl', rfl⟩ := List.mem_map.mp hl
    split at hq
    · rcases hf l' q hq with hq | hq
      · exact Or.inl (mem_calls.mpr (Or.inr ⟨l', hl', hq⟩))
      · exact Or.inr hq
    · exact Or.inl (mem_calls.mpr (Or.inr ⟨l', hl', hq⟩))

theorem calls_onLoop_sub (hf : ∀ l, ∀ q ∈ (f l).queue, q ∈ l.queue)
    (hq : q ∈ (n.onLoop number f).calls) : q ∈ n.calls :=
  (mem_calls_onLoop (P := fun _ => False) (fun l q hq => Or.inl (hf l q hq)) hq).resolve_right id

theorem mem_calls_addIdle (hq : q' ∈ (n.addIdle q).calls) : q' ∈ n.calls ∨ q' = q := by
  unfold Instance.addIdle at hq
  split at hq
  · rcases mem_calls.mp hq with hq | hq
    · rcases List.mem_append.mp hq with hq | hq
      · exact Or.inl (mem_calls.mpr (Or.inl hq))
      · exact Or.inr (List.mem_singleton.mp hq)
    · exact Or.inl (mem_calls.mpr (Or.inr hq))
  · refine mem_calls_onLoop (P := (· = q)) (fun l q' hq => ?_) hq
    exact (List.mem_append.mp hq).imp_right List.mem_singleton.mp

theorem addIdle_frame (n : Instance) (q : Call) : (n.addIdle q).impl = n.impl ∧
    (n.addIdle q).inbox = n.inbox ∧ (n.addIdle q).held = n.held := by
  unfold Instance.addIdle
  split <;> exact ⟨rfl, rfl, rfl⟩

/-- Dispatched calls join the queues one after the other. -/
theorem foldl_addIdle (calls : List Call) (n : Instance) :
    (calls.foldl Instance.addIdle n).impl = n.impl ∧
    (calls.foldl Instance.addIdle n).inbox = n.inbox ∧
    (calls.foldl Instance.addIdle n).held = n.held ∧
    ∀ q ∈ (calls.foldl Instance.addIdle n).calls, q ∈ n.calls ∨ q ∈ calls := by
  induction calls generalizing n with
  | nil => exact ⟨rfl, rfl, rfl, fun q hq => Or.inl hq⟩
  | cons c calls ih =>
    obtain ⟨himpl, hinbox, hheld, hcalls⟩ := ih (n.addIdle c)
    obtain ⟨ci, cb, ch⟩ := addIdle_frame n c
    refine ⟨himpl.trans ci, hinbox.trans cb, hheld.trans ch, fun q hq => ?_⟩
    rcases hcalls q hq with hq | hq
    · rcases mem_calls_addIdle hq with hq | rfl
      · exact Or.inl hq
      · exact Or.inr List.mem_cons_self
    · exact Or.inr (List.mem_cons_of_mem _ hq)

end Loops

/-- A reply that is dispatched to a reply subscription finds the one of its request, and the
loop that the subscription was given. -/
theorem Invariant.deliver {s t : State ι} (h : Invariant topicMatchesSub s) {i : ι} {k : ℕ}
    {p : Packet} (hk : (s.node i).inbox[k]? = some p)
    (ha : (s.node i).Awaits topicMatchesSub p.msg.topic)
    (ht : deliverStep topicMatchesSub s i k p = some t) : Invariant topicMatchesSub t := by
  have hp : p ∈ (s.node i).inbox := List.mem_of_getElem? hk
  have hl := @Linked.messageCB _ topicMatchesSub _ (h.linked i) p.msg
  have live : ∀ d ∈ ((s.node i).impl.messageCB topicMatchesSub p.msg).1.mq.live,
      d ∈ (s.node i).impl.mq.live := by
    rw [messageCB_live (h.linked i).toRunning]
    exact fun d hd => hd
  unfold deliverStep at ht
  simp only at ht
  split at ht
  · next info hr =>
    obtain rfl := Option.some.inj ht
    generalize hcalls : (((s.node i).impl.messageCB topicMatchesSub p.msg).2.map fun c =>
      (⟨c.cb, { info with id := c.info }, p.origin⟩ : Call)) = calls
    have fresh : ∀ q ∈ calls, ∃ c ∈ ((s.node i).impl.messageCB topicMatchesSub p.msg).2,
        (⟨c.cb, { info with id := c.info }, p.origin⟩ : Call) = q := by
      intro q hq
      rw [← hcalls] at hq
      exact List.mem_map.mp hq
    obtain ⟨himpl, hinbox, hheld, hqueued⟩ := foldl_addIdle calls { s.node i with
      impl := ((s.node i).impl.messageCB topicMatchesSub p.msg).1
      inbox := (s.node i).inbox.eraseIdx k }
    have hset : Invariant topicMatchesSub (s.set i (calls.foldl Instance.addIdle { s.node i with
        impl := ((s.node i).impl.messageCB topicMatchesSub p.msg).1
        inbox := (s.node i).inbox.eraseIdx k })) := by
      refine h.set (himpl ▸ hl) ?_ ?_ ?_ ?_
      · rw [himpl]
        exact fun d hd => Or.inl (live d hd)
      · refine carried_of (fun p' hp' => ?_) (fun q hq x hx => ?_) fun held hh => ?_
        · rw [hinbox] at hp'
          exact List.mem_of_mem_eraseIdx hp'
        · rcases hqueued q hq with hq | hq
          · exact carried_call (n := s.node i) hq hx
          · obtain ⟨c, -, rfl⟩ := fresh q hq
            exact mem_carried.mpr (Or.inl ⟨p, hp, Packet.carries_call hr hx⟩)
        · rw [hheld] at hh
          exact carried_held hh
      · intro q hq n hn m hm
        rcases hqueued q hq with hq | hq
        · exact h.bound i q hq n hn m hm
        · obtain ⟨c, hc, rfl⟩ := fresh q hq
          obtain ⟨d, hd, hs, rfl⟩ := messageCB_serves hc
          have hcar : p.carries = some (p.msg.topic, m) := by
            unfold Packet.carries
            rw [show p.origin = .reply m from hm]
          refine h.isolated i i d hd n hn (p.msg.topic, m)
            (mem_carried.mpr (Or.inl ⟨p, hp, hcar⟩)) ?_
          exact (Bool.and_eq_true _ _ ▸ hs : _ ∧ _).2
      · rw [himpl]
        intro q hq e he heq
        rcases hqueued q hq with hq | hq
        · exact h.ids i q hq e he heq
        · obtain ⟨c, hc, rfl⟩ := fresh q hq
          exact ((h.linked i).captured_cb he (messageCB_calls _ _ c hc) heq.symm).symm
    have hloops : (calls.filter fun q => !(s.node i).hasLoop q.cb) = [] := by
      rw [List.filter_eq_nil_iff]
      intro q hq
      obtain ⟨c, hc, rfl⟩ := fresh q hq
      obtain ⟨d, hd, hs, rfl⟩ := messageCB_serves hc
      simp [ha d hd (Bool.and_eq_true _ _ ▸ hs : _ ∧ _).2]
    exact { hset with log := by simpa [hloops] using h.log }
  · split at ht
    · obtain rfl := Option.some.inj ht
      exact h.shrink hl live (fun e he => he) (fun q hq => hq)
        (carried_of (fun p' hp' => List.mem_of_mem_eraseIdx hp')
          (fun q hq x hx => carried_call (n := s.node i) hq hx) fun held hh => carried_held hh)
    · cases ht

theorem Call.carries_holds {q : Call} {h : Held} (hh : h ∈ q.holds) :
    q.carries = some h.carries := by
  unfold Call.holds at hh
  unfold Call.carries
  split at hh
  · obtain rfl := List.mem_singleton.mp hh
    rfl
  · cases hh

theorem Isolated.append {log : List Act} (h : Isolated log) {q : Call} {n : ℕ}
    {victims : List Callback} (hn : ∀ m, q.origin = .reply m → n = m)
    (hv : ∀ v ∈ victims, v.request? = some n) : Isolated (log ++ q.record n victims) := by
  unfold Call.record
  split
  · next m ho =>
    obtain rfl := hn m ho
    constructor
    · intro a b hab
      rcases List.mem_append.mp hab with hab | hab
      · exact h.handed a b hab
      · rcases List.mem_cons.mp hab with hab | hab
        · obtain ⟨rfl, rfl⟩ := Act.handed.inj hab
          rfl
        · obtain ⟨v, -, hab⟩ := List.mem_map.mp hab
          cases hab
    · intro a cb hab b hb
      rcases List.mem_append.mp hab with hab | hab
      · exact h.removed a cb hab b hb
      · rcases List.mem_cons.mp hab with hab | hab
        · cases hab
        · obtain ⟨v, hm, hab⟩ := List.mem_map.mp hab
          obtain ⟨rfl, rfl⟩ := Act.removed.inj hab
          exact Option.some.inj (hb.symm.trans (hv _ hm))
    · simp [h.tame]
  · rw [List.append_nil]
    exact h

/-- A call runs that has left its queue; on the end of a sequence the lambda unsubscribes the
id in its message, which is its own. -/
theorem Invariant.call {s : State ι} (h : Invariant topicMatchesSub s) {i : ι} {n : Instance}
    {q : Call} (hq : q ∈ (s.node i).calls) (himpl : n.impl = (s.node i).impl)
    (hinbox : n.inbox = (s.node i).inbox) (hheld : n.held = (s.node i).held)
    (hcalls : ∀ q ∈ n.calls, q ∈ (s.node i).calls) (ret published : Bool) :
    Invariant topicMatchesSub (callStep s i n q ret published) := by
  have carried : ∀ impl, ∀ x ∈ ({ n with
      impl := impl, held := n.held ++ q.holds } : Instance).carried, x ∈ (s.node i).carried := by
    intro impl
    refine carried_of (fun p hp => hinbox ▸ hp) (fun q' hq' x hx => carried_call (hcalls q' hq') hx)
      fun held hh => ?_
    rcases List.mem_append.mp hh with hh | hh
    · exact carried_held (hheld ▸ hh)
    · exact carried_call hq (Call.carries_holds hh)
  have hl : Linked n.impl := himpl ▸ h.linked i
  unfold callStep
  cases hcb : q.cb.request? with
  | none =>
    exact h.shrink hl (fun d hd => himpl ▸ hd) (fun e he => himpl ▸ he) hcalls (carried _)
  | some number =>
    have hn : ∀ m, q.origin = .reply m → number = m := h.bound i q hq number hcb
    have close : ∀ impl, Linked impl → (∀ d ∈ impl.mq.live, d ∈ (s.node i).impl.mq.live) →
        (∀ e ∈ impl.subscribedList, e ∈ (s.node i).impl.subscribedList) →
        (∀ v ∈ n.impl.lost impl, v.request? = some number) →
        Invariant topicMatchesSub { s.set i { n with impl := impl, held := n.held ++ q.holds } with
          log := s.log ++ q.record number (n.impl.lost impl) } := by
      intro impl hl live list hv
      have hs : Invariant topicMatchesSub
          (s.set i { n with impl := impl, held := n.held ++ q.holds }) :=
        h.shrink hl live list hcalls (carried impl)
      exact { hs with log := h.log.append hn hv }
    by_cases hend : q.info.endSequence = true
    · simp only [if_pos hend]
      obtain ⟨hl', list⟩ := @Linked.unsubscribe_list _ _ hl q.info.id ret published
      refine close _ hl' (fun d hd => himpl ▸ unsubscribe_mq _ d hd)
        (fun e he => himpl ▸ list e he) fun v hv => ?_
      obtain ⟨e, he, ha, rfl⟩ := hl.mem_lost hv
      rw [h.ids i q hq e (himpl ▸ he) ha]
      exact hcb
    · simp only [if_neg hend]
      refine close _ hl (fun d hd => himpl ▸ hd) (fun e he => himpl ▸ he) fun v hv => ?_
      simp [Impl.lost] at hv

theorem Invariant.run {s : State ι} (h : Invariant topicMatchesSub s) {i : ι} {k : ℕ} {q : Call}
    (hk : (s.node i).queue[k]? = some q) (ret published : Bool) :
    Invariant topicMatchesSub (runStep s i k q ret published) := by
  refine h.call (n := { s.node i with queue := (s.node i).queue.eraseIdx k })
    (mem_calls.mpr (Or.inl (List.mem_of_getElem? hk))) rfl rfl rfl ?_ ret published
  intro q' hq'
  rcases mem_calls.mp hq' with hq' | hq'
  · exact mem_calls.mpr (Or.inl (List.mem_of_mem_eraseIdx hq'))
  · exact mem_calls.mpr (Or.inr hq')

theorem Invariant.runSync {s : State ι} (h : Invariant topicMatchesSub s) {i : ι}
    {number k : ℕ} {l : SyncLoop} {q : Call} (hl : (s.node i).findLoop number = some l)
    (hk : l.queue[k]? = some q) (ret published throws : Bool) :
    Invariant topicMatchesSub (runSyncStep s i number k q ret published throws) := by
  have hm : l ∈ (s.node i).loops := List.mem_of_find?_eq_some hl
  refine h.call (n := (s.node i).onLoop number (·.ran k q.info.endSequence throws))
    (mem_calls.mpr (Or.inr ⟨l, hm, List.mem_of_getElem? hk⟩)) rfl rfl rfl ?_ ret published
  exact fun q' hq' => calls_onLoop_sub (fun l' q' hq' => List.mem_of_mem_eraseIdx hq') hq'

/-- A reply carries the reply topic of the message it was sent on. -/
theorem Invariant.sendReply {s : State ι} (h : Invariant topicMatchesSub s) {i : ι} {k : ℕ}
    {held : Held} (hk : (s.node i).held[k]? = some held) (payload : Bytes) (last sent : Bool) :
    Invariant topicMatchesSub (sendReplyStep topicMatchesSub s i k held payload last sent) := by
  have hm : held ∈ (s.node i).held := List.mem_of_getElem? hk
  have htopic := sendReply_replyTopic held.msg last
  have hset : Invariant topicMatchesSub (s.set i { s.node i with
      held := (s.node i).held.set k ⟨AittRequest.sendReply held.msg last, held.request⟩ }) := by
    refine h.shrink (h.linked i) (fun d hd => hd) (fun e he => he) (fun q hq => hq)
      (carried_of (fun p hp => hp) (fun q hq x hx => carried_call (n := s.node i) hq hx)
        fun held' hh => ?_)
    rcases List.mem_or_eq_of_mem_set hh with hh | rfl
    · exact carried_held hh
    · rw [Held.carries, htopic]
      exact carried_held hm
  unfold sendReplyStep
  cases sent with
  | false => exact hset
  | true =>
    refine hset.broadcast fun x hx j d hd n hn hmatch => ?_
    obtain rfl := Option.some.inj hx
    have hd' : d ∈ (s.node j).impl.mq.live := by
      rcases node_set s i { s.node i with
        held := (s.node i).held.set k ⟨AittRequest.sendReply held.msg last, held.request⟩ } j with
        ⟨rfl, hj⟩ | ⟨-, hj⟩
      · rw [hj] at hd
        exact hd
      · rw [hj] at hd
        exact hd
    refine h.isolated j i d hd' n hn held.carries (carried_held hm) ?_
    rw [← hmatch, compareTopic_cStr, htopic]
    rfl

/-- A request opens its reply subscription and is sent, with a reply topic that meets none
of the open ones. -/
theorem Invariant.publishWithReply {s : State ι} (h : Invariant topicMatchesSub s) {i : ι}
    {cb : Callback} (hcb : cb.request? = some s.requests) {topic : String}
    (payload correlation : Bytes) {userData : Address} {o : Outcome}
    (hf : Fresh (s.node i).impl .mqtt o) (hu : Unheld s i .mqtt o)
    (hsep : Separate topicMatchesSub s (replyTopic (s.node i).impl topic)) (sent : Bool) :
    Invariant topicMatchesSub
      (publishWithReply topicMatchesSub s i cb topic payload correlation userData o sent) := by
  rcases hs : (s.node i).impl.subscribe .mqtt (replyTopic (s.node i).impl topic)
    cb userData o with ⟨impl, r⟩
  have hopen : openReply (s.node i).impl .mqtt topic cb userData o =
      ({ impl with replyId := (s.node i).impl.replyId + 1 }, r) := by
    simp only [openReply, hs]
  have hset := h.subscribe hf hu hs (fun _ _ j x hx hmatch => by
    rw [(hsep j).2 x hx] at hmatch
    cases hmatch) ((s.node i).impl.replyId + 1)
  have hnext : Invariant topicMatchesSub { s.set i { s.node i with
      impl := { impl with replyId := (s.node i).impl.replyId + 1 } } with
        requests := s.requests + 1 } := { hset with }
  unfold ReplyIsolation.publishWithReply
  simp only [hopen]
  split
  · refine hnext.broadcast fun x hx j d hd n hn hmatch => ?_
    obtain rfl := Option.some.inj hx
    have hd' : d ∈ (s.node j).impl.mq.live ∨ n = s.requests := by
      rcases node_set s i { s.node i with
        impl := { impl with replyId := (s.node i).impl.replyId + 1 } } j with ⟨rfl, hj⟩ | ⟨-, hj⟩
      · have hd : d ∈ ((s.node j).impl.subscribe .mqtt (replyTopic (s.node j).impl topic)
            cb userData o).1.mq.live := by
          rw [hs]
          simp only [hj] at hd
          exact hd
        rcases subscribe_mq _ d hd with hd | rfl
        · exact Or.inl hd
        · exact Or.inr (Option.some.inj (hn.symm.trans hcb))
      · simp only [hj] at hd
        exact Or.inl hd
    rcases hd' with hd' | hn'
    · have hfalse := (hsep j).1 d hd' (by rintro hc; rw [hc] at hn; cases hn)
      have htrue : compareTopic topicMatchesSub d.topic
          (cStr (replyTopic (s.node i).impl topic)) = true := hmatch
      rw [compareTopic_cStr, hfalse] at htrue
      cases htrue
    · exact hn'
  · exact hnext

theorem Invariant.requestSync {s : State ι} (h : Invariant topicMatchesSub s) {i : ι}
    {topic : String} (payload correlation : Bytes) {userData : Address} {o : Outcome}
    (hf : Fresh (s.node i).impl .mqtt o) (hu : Unheld s i .mqtt o)
    (hsep : Separate topicMatchesSub s (replyTopic (s.node i).impl topic))
    (sent hasTimeout : Bool) : Invariant topicMatchesSub
      (requestSyncStep topicMatchesSub s i topic payload correlation userData o sent
        hasTimeout) := by
  have hcb : Callback.request? (.requestSync s.requests) = some s.requests := rfl
  refine Invariant.dropCalls (h.publishWithReply hcb payload correlation hf hu hsep sent)
    rfl rfl rfl fun q hq => ?_
  rcases mem_calls.mp hq with hq | ⟨l, hl, hq⟩
  · exact mem_calls.mpr (Or.inl hq)
  · rcases List.mem_append.mp hl with hl | hl
    · exact mem_calls.mpr (Or.inr ⟨l, hl, hq⟩)
    · obtain rfl := List.mem_singleton.mp hl
      cases hq

theorem Invariant.step {s t : State ι} {e : Event ι} (h : Invariant topicMatchesSub s)
    (ho : Ok topicMatchesSub s e) (hs : step topicMatchesSub s e = some t) :
    Invariant topicMatchesSub t := by
  cases e with
  | subscribe i protocol topic userData o =>
    simp only [ReplyIsolation.step, Option.ite_none_right_eq_some, Option.some.injEq] at hs
    obtain ⟨hf, rfl⟩ := hs
    rcases hsub : (s.node i).impl.subscribe protocol topic .application userData o with ⟨impl, r⟩
    exact h.subscribe hf ho hsub (fun k hk => by cases hk) impl.replyId
  | unsubscribe i id ret published =>
    obtain rfl := Option.some.inj hs
    exact h.unsubscribe i id ret published
  | publish topic payload =>
    obtain rfl := Option.some.inj hs
    exact h.broadcast fun x hx => by cases hx
  | request i topic payload correlation userData o sent =>
    simp only [ReplyIsolation.step, Option.ite_none_right_eq_some, Option.some.injEq] at hs
    obtain ⟨hf, rfl⟩ := hs
    exact h.publishWithReply rfl payload correlation hf ho.1 ho.2 sent
  | requestSync i topic payload correlation userData o sent hasTimeout =>
    simp only [ReplyIsolation.step, Option.ite_none_right_eq_some, Option.some.injEq] at hs
    obtain ⟨hf, rfl⟩ := hs
    exact h.requestSync payload correlation hf ho.1 ho.2 sent hasTimeout
  | deliver i k =>
    obtain ⟨p, hk, hd⟩ := Option.bind_eq_some_iff.mp hs
    exact h.deliver hk (ho p hk) hd
  | run i k ret published =>
    obtain ⟨q, hk, rfl⟩ := Option.map_eq_some_iff.mp hs
    exact h.run hk ret published
  | runSync i number k ret published throws =>
    obtain ⟨l, hl, hs⟩ := Option.bind_eq_some_iff.mp hs
    rw [Option.ite_none_right_eq_some] at hs
    obtain ⟨q, hk, rfl⟩ := Option.map_eq_some_iff.mp hs.2
    exact h.runSync hl hk ret published throws
  | timeout i number =>
    simp only [ReplyIsolation.step, Option.ite_none_right_eq_some, Option.some.injEq] at hs
    obtain ⟨-, rfl⟩ := hs
    have hsub : ∀ l : SyncLoop, ∀ q ∈ ({ l with quit := true } : SyncLoop).queue, q ∈ l.queue :=
      fun l q hq => hq
    exact h.dropCalls rfl rfl rfl fun q hq => calls_onLoop_sub hsub hq
  | leave i number =>
    simp only [ReplyIsolation.step, Option.ite_none_right_eq_some, Option.some.injEq] at hs
    obtain ⟨-, rfl⟩ := hs
    refine h.dropCalls rfl rfl rfl fun q hq => ?_
    rcases mem_calls.mp hq with hq | ⟨l, hl, hq⟩
    · exact mem_calls.mpr (Or.inl hq)
    · exact mem_calls.mpr (Or.inr ⟨l, List.mem_of_mem_filter hl, hq⟩)
  | sendReply i k payload last sent =>
    obtain ⟨held, hk, rfl⟩ := Option.map_eq_some_iff.mp hs
    exact h.sendReply hk payload last sent
  | drop i k =>
    obtain rfl := Option.some.inj hs
    exact h.shrink (h.linked i) (fun d hd => hd) (fun e he => he) (fun q hq => hq)
      (carried_of (fun p hp => hp) (fun q hq x hx => carried_call (n := s.node i) hq hx)
        fun held hh => carried_held (List.mem_of_mem_eraseIdx hh))

end ReplyIsolation
