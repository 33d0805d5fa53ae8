import Aitt.ReplyExchange

/-! Every run of an exchange, and the requests for which it goes as it should. -/
namespace MultiPartReply

open AittTypes Flexbuffers MqttProperties TransitionRuns AittImpl AittRequest TcpMsgInfo
open ReplyExchange
open MosquittoMQ (compareTopic)

variable (topicMatchesSub : String → String → Option Bool) (q : Request)

/-- In every state the callback has seen the first so many replies, its subscription is there
until the last one and not afterwards, and the exchange can be brought to its end, where it
has seen them all. -/
def Correct [Package] (m : AittMsg) (replies : List Bytes) : Prop :=
  ∀ s, (machine topicMatchesSub q m replies).Reachable s →
    s.log.map (fun x => seen x.1 x.2) <+: expected q.correlation replies ∧
    (if s.log.length < replies.length then Live s.requester else Gone s.requester) ∧
    ∃ es t, (machine topicMatchesSub q m replies).exec s es = some t ∧
      t.unsent = [] ∧ t.wire = [] ∧ t.queue = [] ∧
      t.log.map (fun x => seen x.1 x.2) = expected q.correlation replies

def own (calls : List Call) : List Call := calls.filter (·.cb = .reply)

structure Invariant [Package] (m : AittMsg) (replies : List Bytes) (s : State) : Prop where
  replying : Replying q s.msg
  deliverable : ∀ p ∈ s.wire, Deliverable q p
  ids : ∀ c ∈ s.queue, c.cb = .reply → c.info.id = q.o.info
  total : (s.log.map (fun x => seen x.1 x.2) ++
      (own s.queue).map fun c => seen c.info c.payload).map some ++
    (s.wire ++ outgoing s.msg s.unsent).map Packet.seen = (sent m replies).map some
  phase : (s.log.length < replies.length ∧ Open q s.requester) ∨
    (s.log.length = replies.length ∧ Gone s.requester)

variable {topicMatchesSub q}

theorem cStr_append_ne {a : String} (h : cStr a ≠ "") (b : String) : cStr (a ++ b) ≠ "" := by
  intro he
  apply h
  simp only [cStr, String.ofList_eq_empty_iff, String.toList_append] at he ⊢
  cases ha : a.toList with
  | nil => rfl
  | cons c cs =>
    rw [ha, List.cons_append] at he
    by_cases hc : c ≠ '\x00'
    · rw [List.takeWhile_cons_of_pos (by simpa using hc)] at he
      cases he
    · rw [List.takeWhile_cons_of_neg (by simpa using hc)]

/-- The message that the responder got from the request. -/
theorem received_spec [Package] {id : Address} {m : AittMsg} (h : q.received id = some m) :
    Replying q m ∧ m.sequence = 0 ∧ (q.protocol ≠ .mqtt → cStr q.replyTopic ≠ "") ∧
      m.correlation = (if q.protocol = .mqtt then
        q.correlation.take (q.correlation.length % 2 ^ 16) else cBytes q.correlation) := by
  obtain ⟨m', hd, rfl⟩ := Option.map_eq_some_iff.mp h
  obtain ⟨p, hp, hd⟩ := Option.bind_eq_some_iff.mp hd
  have tcp : q.protocol ≠ .mqtt → p = .tcp (packMsgInfo ⟨q.topic, q.correlation, q.replyTopic, 0,
      true, 0, .mqtt⟩ false) q.payload → Replying q { m' with id := id, protocol := q.protocol } ∧
      m'.sequence = 0 ∧ (q.protocol ≠ .mqtt → cStr q.replyTopic ≠ "") ∧
      m'.correlation = (if q.protocol = .mqtt then
        q.correlation.take (q.correlation.length % 2 ^ 16) else cBytes q.correlation) := by
    rintro hne rfl
    simp only [Packet.decode, unpack_request, Option.ite_none_left_eq_some] at hd
    obtain ⟨ht, hm⟩ := hd
    obtain rfl := Option.some.inj hm
    rw [if_neg hne]
    refine ⟨⟨rfl, rfl, fun hq => absurd hq hne, fun _ => cBytes_idem _⟩, rfl, fun _ => ?_, rfl⟩
    rw [Request.replyTopic, AittRequest.replyTopic, String.append_assoc]
    exact cStr_append_ne ht _
  unfold Request.packet at hp
  split at hp
  · next hq =>
    obtain rfl := Option.some.inj hp
    rw [Packet.decode, readMsg_publishWithReply] at hd
    obtain rfl := Option.some.inj hd
    rw [if_pos hq]
    refine ⟨⟨rfl, rfl, fun _ => ?_, fun hne => absurd hq hne⟩, rfl, fun hne => absurd hq hne, rfl⟩
    rw [List.length_take]
    have := Nat.mod_lt q.correlation.length (show 0 < 2 ^ 16 by decide)
    omega
  · next hq => exact tcp (by rw [hq]; decide) (Option.some.inj hp).symm
  · next hq => exact tcp (by rw [hq]; decide) (Option.some.inj hp).symm
  · cases hp

/-- The packets of a sequence of replies: MQTT carries each as it is, and a TCP module at
least a single one. -/
theorem outgoing_spec [Package] {m : AittMsg} (h : Replying q m)
    (hq : ∀ bits, q.protocol ≠ .other bits) (ht : q.protocol ≠ .mqtt → cStr q.replyTopic ≠ "")
    (replies : List Bytes) : (∀ p ∈ outgoing m replies, Deliverable q p) ∧
      (outgoing m replies).length = replies.length ∧
      (q.protocol = .mqtt ∨ replies.length ≤ 1 →
        (outgoing m replies).map Packet.seen = (sent m replies).map some) := by
  induction replies generalizing m with
  | nil => simp [outgoing, sent]
  | cons r rest ih =>
    obtain ⟨p, hp, hd, hs⟩ := (h.sendReply rest.isEmpty).packet hq ht r
    obtain ⟨ihd, ihl, ihs⟩ := ih (h.sendReply rest.isEmpty)
    rw [outgoing, hp]
    refine ⟨?_, by simp [ihl], fun hcase => ?_⟩
    · intro p' hp'
      rcases List.mem_cons.mp hp' with rfl | hp'
      · exact hd
      · exact ihd p' hp'
    · have hrest : q.protocol = .mqtt ∨ rest.length ≤ 1 := by
        rcases hcase with hm | hl
        · exact Or.inl hm
        · rw [List.length_cons] at hl
          exact Or.inr (by omega)
      rw [List.singleton_append, List.map_cons, ihs hrest, hs, sent, List.map_cons]
      congr 2
      rcases hcase with hm | hl
      · rw [if_pos hm]
      · have hnil : rest = [] := by
          rw [List.length_cons] at hl
          exact List.length_eq_zero_iff.mp (by omega)
        subst hnil
        split <;> rfl

theorem own_append (a b : List Call) : own (a ++ b) = own a ++ own b := List.filter_append ..

section Run

variable {m : AittMsg} {replies : List Bytes} {s : State}

/-- The lengths of the parts add up. -/
theorem Invariant.length [Package] (h : Invariant q m replies s) :
    s.log.length + (own s.queue).length + s.wire.length + (outgoing s.msg s.unsent).length =
      replies.length := by
  have hl := congrArg List.length h.total
  simp only [List.length_append, List.length_map, sent_length] at hl
  omega

/-- While anything is on its way, the requester waits. -/
theorem Invariant.waits [Package] (h : Invariant q m replies s)
    (hn : 0 < (own s.queue).length + s.wire.length) : Open q s.requester := by
  rcases h.phase with ⟨-, ho⟩ | ⟨hl, -⟩
  · exact ho
  · have := h.length
    omega

theorem Invariant.send [Package] (h : Invariant q m replies s)
    (hq : ∀ bits, q.protocol ≠ .other bits) (ht : q.protocol ≠ .mqtt → cStr q.replyTopic ≠ "")
    {r : Bytes} {rest : List Bytes} (hu : s.unsent = r :: rest) :
    Invariant q m replies { s with
      msg := sendReply s.msg rest.isEmpty
      unsent := rest
      wire := s.wire ++ replyPackets (sendReply s.msg rest.isEmpty) r } where
  replying := h.replying.sendReply _
  deliverable := by
    intro p hp
    obtain ⟨p', hp', hd, -⟩ := (h.replying.sendReply rest.isEmpty).packet hq ht r
    rcases List.mem_append.mp hp with hp | hp
    · exact h.deliverable p hp
    · rw [hp', List.mem_singleton] at hp
      exact hp ▸ hd
  ids := h.ids
  total := by
    have hl := h.total
    rw [hu, outgoing, ← List.append_assoc] at hl
    exact hl
  phase := h.phase

theorem Invariant.arrive [Package] (h : Invariant q m replies s) (hq : q.Sent)
    (hself : q.protocol = .mqtt → compareTopic topicMatchesSub q.replyTopic q.replyTopic = true)
    {p : Packet} {rest : List Packet} (hw : s.wire = p :: rest) :
    ∃ x, receive topicMatchesSub q s.requester p = some x ∧
      Invariant q m replies
        { s with requester := x.1, wire := rest, queue := s.queue ++ x.2 } := by
  have hlen : 0 < (own s.queue).length + s.wire.length := by
    rw [hw, List.length_cons]
    omega
  have hopen := h.waits hlen
  have hp : p ∈ s.wire := hw ▸ List.mem_cons_self
  obtain ⟨j, calls, c, hr, hj, hc, hid, hs⟩ := hopen.receive hq hself (h.deliverable p hp)
  refine ⟨(j, calls), hr, h.replying, ?_, ?_, ?_, ?_⟩
  · intro p' hp'
    exact h.deliverable p' (hw ▸ List.mem_cons_of_mem _ hp')
  · intro c' hc' hcb
    rcases List.mem_append.mp hc' with hc' | hc'
    · exact h.ids c' hc' hcb
    · have hmem : c' ∈ calls.filter (·.cb = .reply) :=
        List.mem_filter.mpr ⟨hc', by simpa using hcb⟩
      rw [hc, List.mem_singleton] at hmem
      rw [hmem]
      exact hid
  · have hl := h.total
    rw [hw, List.cons_append, List.map_cons, hs] at hl
    have hown : own (s.queue ++ calls) = own s.queue ++ [c] := by
      rw [own_append]
      exact congrArg (own s.queue ++ ·) hc
    rw [← hl, hown]
    simp
  · rcases h.phase with ⟨hl, -⟩ | ⟨hl, -⟩
    · exact Or.inl ⟨hl, hj⟩
    · have := h.length
      omega

/-- The callback is called with the next reply of the sequence; the last one, and only that,
ends the subscription. -/
theorem Invariant.run [Package] (h : Invariant q m replies s) (hq : q.Sent) {c : Call}
    {rest : List Call} (hc : s.queue = c :: rest) : Invariant q m replies (runCall s c rest) := by
  have ids : ∀ c' ∈ rest, c'.cb = .reply → c'.info.id = q.o.info :=
    fun c' hc' => h.ids c' (hc ▸ List.mem_cons_of_mem _ hc')
  have hl := h.total
  unfold runCall
  cases hcb : c.cb with
  | application =>
    refine ⟨h.replying, h.deliverable, ids, ?_, h.phase⟩
    rw [hc, own, List.filter_cons_of_neg (by simp [hcb])] at hl
    exact hl
  | reply =>
    have hown : own s.queue = c :: own rest := by
      rw [hc, own, List.filter_cons_of_pos (by simp [hcb])]
      rfl
    have hlen := h.length
    have hopen := h.waits (by rw [hown, List.length_cons]; omega)
    have hid := h.ids c (hc ▸ List.mem_cons_self) hcb
    rw [hown] at hl hlen
    rw [List.length_cons] at hlen
    have htotal : ((s.log ++ [(c.info, c.payload)]).map (fun x => seen x.1 x.2) ++
        (own rest).map fun c => seen c.info c.payload).map some ++
        (s.wire ++ outgoing s.msg s.unsent).map Packet.seen = (sent m replies).map some := by
      rw [← hl]
      simp
    have hat : (sent m replies)[s.log.length]? = some (seen c.info c.payload) := by
      have hget := congrArg (·[s.log.length]?) hl
      simpa using hget.symm
    have hend := sent_isEnd hat
    refine ⟨h.replying, h.deliverable, ids, htotal, ?_⟩
    simp only [List.length_append, List.length_singleton]
    by_cases hlast : c.info.endSequence = true
    · rw [if_pos hlast, hid]
      exact Or.inr ⟨hend.mp hlast, hopen.gone hq⟩
    · rw [if_neg hlast]
      have : s.log.length + 1 ≠ replies.length := fun he => hlast (hend.mpr he)
      exact Or.inl ⟨by omega, hopen⟩

theorem Invariant.log_prefix [Package] (h : Invariant q m replies s) :
    s.log.map (fun x => seen x.1 x.2) <+: sent m replies := by
  have ht := h.total
  rw [List.map_append, List.append_assoc] at ht
  obtain ⟨a, b, hab, ha, -⟩ := List.map_eq_append_iff.mp ht.symm
  rw [hab, List.map_injective_iff.mpr (Option.some_injective _) ha]
  exact List.prefix_append _ _

/-- At the end everything is logged. -/
theorem Invariant.complete [Package] (h : Invariant q m replies s) (hu : s.unsent = [])
    (hw : s.wire = []) (hc : s.queue = []) : s.log.map (fun x => seen x.1 x.2) = sent m replies :=
    by
  have ht := h.total
  rw [hu, hw, hc] at ht
  exact List.map_injective_iff.mpr (Option.some_injective _) (by simpa [own, outgoing] using ht)

@[simp] theorem runCall_queue (s : State) (c : Call) (rest : List Call) :
    (runCall s c rest).queue = rest := by
  unfold runCall
  split <;> rfl

@[simp] theorem runCall_wire (s : State) (c : Call) (rest : List Call) :
    (runCall s c rest).wire = s.wire := by
  unfold runCall
  split <;> rfl

@[simp] theorem runCall_unsent (s : State) (c : Call) (rest : List Call) :
    (runCall s c rest).unsent = s.unsent := by
  unfold runCall
  split <;> rfl

theorem runCall_log (s : State) (c : Call) (rest : List Call) :
    (runCall s c rest).log ++ (own rest).map (fun c => (c.info, c.payload)) =
      s.log ++ (own (c :: rest)).map fun c => (c.info, c.payload) := by
  unfold runCall
  split
  · next hcb => simp [own, hcb]
  · next hcb => simp [own, hcb]

/-- The calls that are queued can be run, and those of the callback are logged. -/
theorem drain [Package] (n : ℕ) : ∀ {s : State}, s.queue.length = n →
    ∃ es t, (machine topicMatchesSub q m replies).exec s es = some t ∧ t.queue = [] ∧
      t.wire = s.wire ∧ t.unsent = s.unsent ∧
      t.log = s.log ++ (own s.queue).map fun c => (c.info, c.payload) := by
  induction n with
  | zero =>
    intro s hn
    have hq := List.length_eq_zero_iff.mp hn
    exact ⟨[], s, rfl, hq, rfl, rfl, by simp [hq, own]⟩
  | succ n ih =>
    intro s hn
    obtain ⟨c, rest, hc⟩ := List.exists_cons_of_length_eq_add_one hn
    obtain ⟨es, t, he, h1, h2, h3, h4⟩ := @ih (runCall s c rest) (by
      rw [runCall_queue]
      rw [hc, List.length_cons] at hn
      omega)
    rw [runCall_wire] at h2
    rw [runCall_unsent] at h3
    refine ⟨.run :: es, t, ?_, h1, h2, h3, ?_⟩
    · simp only [Machine.exec, machine, ReplyExchange.step, hc, Option.bind_some]
      exact he
    · rw [h4, runCall_queue, runCall_log, hc]

section Step

variable (hq : q.Sent) (ht : q.protocol ≠ .mqtt → cStr q.replyTopic ≠ "")
  (hself : q.protocol = .mqtt → compareTopic topicMatchesSub q.replyTopic q.replyTopic = true)

include hq ht hself

theorem Invariant.step [Package] (h : Invariant q m replies s) {e : Event} {t : State}
    (hs : step topicMatchesSub q s e = some t) : Invariant q m replies t := by
  cases e with
  | send =>
    simp only [ReplyExchange.step] at hs
    split at hs
    · cases hs
    · next hu =>
      obtain rfl := Option.some.inj hs
      exact h.send hq.protocol_known ht hu
  | arrive =>
    simp only [ReplyExchange.step] at hs
    split at hs
    · cases hs
    · next hw =>
      split at hs
      · cases hs
      · obtain ⟨x, hx, hi⟩ := h.arrive hq hself hw
        rw [hx] at hs
        obtain rfl := Option.some.inj hs
        exact hi
  | run =>
    simp only [ReplyExchange.step] at hs
    split at hs
    · cases hs
    · next hc =>
      obtain rfl := Option.some.inj hs
      exact h.run hq hc

theorem Invariant.exec [Package] {es : List Event} {t : State} (h : Invariant q m replies s)
    (he : (machine topicMatchesSub q m replies).exec s es = some t) :
    Invariant q m replies t := by
  induction es generalizing s with
  | nil =>
    obtain rfl := Option.some.inj he
    exact h
  | cons e es ih =>
    obtain ⟨u, hu, he⟩ := Option.bind_eq_some_iff.mp he
    exact ih (h.step hq ht hself hu) he

/-- What travels can arrive and be run. -/
theorem Invariant.flush [Package] (n : ℕ) : ∀ {s : State}, Invariant q m replies s → s.wire.length =
    n → ∃ es t, (machine topicMatchesSub q m replies).exec s es = some t ∧ t.queue = [] ∧
      t.wire = [] ∧ t.unsent = s.unsent := by
  induction n with
  | zero =>
    intro s h hn
    obtain ⟨es, t, he, h1, h2, h3, -⟩ := @drain topicMatchesSub q m replies _ _ s rfl
    exact ⟨es, t, he, h1, h2.trans (List.length_eq_zero_iff.mp hn), h3⟩
  | succ n ih =>
    intro s h hn
    obtain ⟨es, t, he, h1, h2, h3, -⟩ := @drain topicMatchesSub q m replies _ _ s rfl
    have hi : Invariant q m replies t := h.exec hq ht hself he
    obtain ⟨p, rest, hw⟩ := List.exists_cons_of_length_eq_add_one (h2 ▸ hn)
    obtain ⟨x, hx, hj⟩ := hi.arrive hq hself hw
    have hwaits : ¬ p.Waits t.queue := by
      rw [h1]
      cases p <;> simp [Packet.Waits]
    obtain ⟨fs, u, hf, g1, g2, g3⟩ := ih hj (by
      rw [← h2, hw, List.length_cons] at hn
      exact Nat.succ.inj hn)
    refine ⟨es ++ .arrive :: fs, u, Machine.exec_append he ?_, g1, g2, g3.trans h3⟩
    simp only [Machine.exec, machine, ReplyExchange.step, hw, if_neg hwaits, hx, Option.map_some,
      Option.bind_some]
    exact hf

/-- From every state the exchange can be brought to its end. -/
theorem Invariant.finish [Package] (n : ℕ) : ∀ {s : State}, Invariant q m replies s →
    s.unsent.length = n → ∃ es t, (machine topicMatchesSub q m replies).exec s es = some t ∧
    t.unsent = [] ∧ t.wire = [] ∧ t.queue = [] := by
  induction n with
  | zero =>
    intro s h hn
    obtain ⟨es, t, he, h1, h2, h3⟩ := h.flush hq ht hself _ rfl
    exact ⟨es, t, he, h3.trans (List.length_eq_zero_iff.mp hn), h2, h1⟩
  | succ n ih =>
    intro s h hn
    obtain ⟨r, rest, hu⟩ := List.exists_cons_of_length_eq_add_one hn
    obtain ⟨es, t, he, h1, h2, h3⟩ := ih (h.send hq.protocol_known ht hu) (by
      rw [hu, List.length_cons] at hn
      exact Nat.succ.inj hn)
    refine ⟨.send :: es, t, ?_, h1, h2, h3⟩
    simp only [Machine.exec, machine, ReplyExchange.step, hu, Option.bind_some]
    exact he

/-- Where the codec keeps the marks of the responder, the callback sees what was sent. -/
theorem correct_iff_sent [Package] (hm : Replying q m) (hr : replies ≠ [])
    (hcase : q.protocol = .mqtt ∨ replies.length ≤ 1)
    (hflag : q.protocol = .mqtt → q.requester.mq.subscriberIteratorUpdated = true →
      q.requester.mq.subscribers ≠ []) :
    Correct topicMatchesSub q m replies ↔ sent m replies = expected q.correlation replies := by
  have hopen : Open q q.opened.1 := by
    refine ⟨rfl, rfl, hq.adds.1.calm, fun hp hf => hflag hp ?_⟩
    rw [hq.opened_mqtt hp] at hf
    exact hf
  have hinit : Invariant q m replies (machine topicMatchesSub q m replies).initial := by
    refine ⟨hm, by simp [machine], by simp [machine], ?_, ?_⟩
    · simpa [machine, own] using (outgoing_spec hm hq.protocol_known ht replies).2.2 hcase
    · exact Or.inl ⟨List.length_pos_iff.mpr hr, hopen⟩
  have hinv : ∀ s, (machine topicMatchesSub q m replies).Reachable s → Invariant q m replies s :=
    fun s hs => hs.invariant hinit fun _ _ _ _ hi _ he => hi.step hq ht hself he
  constructor
  · intro hc
    obtain ⟨-, -, es, t, he, hu, hw, hqueue, hlog⟩ := hc _ .initial
    have hi := hinit.exec hq ht hself he
    rw [← hi.complete hu hw hqueue, hlog]
  · intro heq s hs
    have hi := hinv s hs
    refine ⟨heq ▸ hi.log_prefix, ?_, ?_⟩
    · rcases hi.phase with ⟨hl, ho⟩ | ⟨hl, hg⟩
      · rw [if_pos hl]
        exact ho.live hq
      · rw [if_neg (by omega)]
        exact hg
    · obtain ⟨es, t, he, hu, hw, hqueue⟩ := hi.finish hq ht hself _ rfl
      refine ⟨es, t, he, hu, hw, hqueue, ?_⟩
      rw [(hi.exec hq ht hself he).complete hu hw hqueue, heq]

end Step

/-- The first reply, sent, received and handed over. -/
theorem first_round [Package] {r : Bytes} {rest : List Bytes} {p : Packet}
    {x : Impl Callback × List Call} (hp : replyPackets (sendReply m rest.isEmpty) r = [p])
    (hx : receive topicMatchesSub q q.opened.1 p = some x) :
    ∃ t, (machine topicMatchesSub q m (r :: rest)).Reachable t ∧
      t.log = (own x.2).map fun c => (c.info, c.payload) := by
  have hwaits : ¬ p.Waits [] := by
    cases p <;> simp [Packet.Waits]
  obtain ⟨es, t, he, -, -, -, hlog⟩ := @drain topicMatchesSub q m (r :: rest) _ _
    ⟨x.1, sendReply m rest.isEmpty, rest, [], x.2, []⟩ rfl
  have hexec : (machine topicMatchesSub q m (r :: rest)).exec
      (machine topicMatchesSub q m (r :: rest)).initial (.send :: .arrive :: es) = some t := by
    simp only [Machine.exec, machine, ReplyExchange.step, hp, List.nil_append, if_neg hwaits, hx,
      Option.map_some, Option.bind_some]
    exact he
  exact ⟨t, Machine.reachable_of_exec hexec, by simpa using hlog⟩

/-- Over TCP the first of several replies already ends the sequence. -/
theorem tcp_ends_at_first [Package] (hq : q.Sent) (hm : Replying q m) (hp : q.protocol ≠ .mqtt)
    (ht : cStr q.replyTopic ≠ "") (hr : 2 ≤ replies.length) :
    ¬ Correct topicMatchesSub q m replies := by
  obtain ⟨r, rest, rfl⟩ := List.exists_cons_of_length_pos (by omega : 0 < replies.length)
  rw [List.length_cons] at hr
  have hopen : Open q q.opened.1 :=
    ⟨rfl, rfl, hq.adds.1.calm, fun hm => absurd hm hp⟩
  obtain ⟨p, hpk, hd, hs⟩ := (hm.sendReply rest.isEmpty).packet hq.protocol_known (fun _ => ht) r
  obtain ⟨j, calls, c, hx, -, hc, -, hseen⟩ :=
    @Open.receive topicMatchesSub q _ _ hq hopen (fun hm => absurd hm hp) p hd
  obtain ⟨t, hreach, hlog⟩ := first_round hpk hx
  intro hcorrect
  have hlog' : t.log = [(c.info, c.payload)] := by
    rw [hlog, show own calls = [c] from hc]
    rfl
  have hpre := (hcorrect t hreach).1
  rw [hlog', List.map_singleton, expected, List.mapIdx_cons] at hpre
  have hfirst := (List.cons_prefix_cons.mp hpre).1
  rw [hseen, if_neg hp] at hs
  have hend := congrArg Seen.isEnd (hfirst.symm.trans (Option.some.inj hs))
  simp only [List.length_cons, decide_eq_true_eq] at hend
  omega

/-- A pending update flag is spent on the reply subscription when that is the only one. -/
theorem pending_flag_repeats [Package] (hq : q.Sent) (hm : Replying q m) (hp : q.protocol = .mqtt)
    (hself : compareTopic topicMatchesSub q.replyTopic q.replyTopic = true)
    (hr : replies ≠ []) (hflag : q.requester.mq.subscriberIteratorUpdated = true)
    (hsub : q.requester.mq.subscribers = []) : ¬ Correct topicMatchesSub q m replies := by
  obtain ⟨r, rest, rfl⟩ := List.exists_cons_of_ne_nil hr
  obtain ⟨p, hpk, hd, -⟩ := (hm.sendReply rest.isEmpty).packet hq.protocol_known
    (fun hne => absurd hp hne) r
  cases p with
  | tcp info payload => exact absurd hp hd.1
  | mqtt msg =>
    obtain ⟨-, ht, info, hread⟩ := hd
    have hserves := hq.serves hself ht
    have hcalls : (q.opened.1.messageCB topicMatchesSub msg).2 = [q.closure, q.closure] := by
      rw [hq.opened_mqtt hp]
      simp only [Impl.messageCB, MosquittoDelivery.messageCB, MosquittoDelivery.turns, hflag, hsub,
        List.nil_append, if_true, List.drop_zero, List.take_succ_cons, List.take_nil,
        List.singleton_append, List.filter_cons_of_pos hserves, List.filter_nil]
      rfl
    have hx : receive topicMatchesSub q q.opened.1 (.mqtt msg) =
        some ((q.opened.1.messageCB topicMatchesSub msg).1,
          [⟨.reply, { info with id := q.o.info }, msg.payload⟩,
           ⟨.reply, { info with id := q.o.info }, msg.payload⟩]) := by
      simp only [receive, hread, hcalls]
      rfl
    obtain ⟨t, hreach, hlog⟩ := first_round hpk hx
    intro hcorrect
    have hpre := (hcorrect t hreach).1
    have hown : own [⟨.reply, { info with id := q.o.info }, msg.payload⟩,
        ⟨.reply, { info with id := q.o.info }, msg.payload⟩] =
        [⟨.reply, { info with id := q.o.info }, msg.payload⟩,
         ⟨.reply, { info with id := q.o.info }, msg.payload⟩] := rfl
    rw [hlog, hown, expected, List.mapIdx_cons] at hpre
    obtain ⟨hfirst, hpre⟩ := List.cons_prefix_cons.mp hpre
    cases rest with
    | nil => simp at hpre
    | cons r' rest =>
      rw [List.mapIdx_cons] at hpre
      have hsecond := (List.cons_prefix_cons.mp hpre).1
      have hseq := congrArg Seen.sequence (hfirst.symm.trans hsecond)
      simp at hseq

/-- What a request needs for its replies to arrive as sent. Over MQTT the numbers and the
length of the correlation have to fit, and no update flag may be pending on an empty list of
subscribers; over TCP there is one reply and no NUL in the correlation. -/
def Condition (q : Request) (replies : List Bytes) : Prop :=
  if q.protocol = .mqtt then
    replies.length < 2 ^ 31 ∧ q.correlation.length < 2 ^ 16 ∧
      (q.requester.mq.subscriberIteratorUpdated = true → q.requester.mq.subscribers ≠ [])
  else replies.length = 1 ∧ 0 ∉ q.correlation

theorem take_eq_self (correlation : Bytes) :
    correlation.take (correlation.length % 2 ^ 16) = correlation ↔
      correlation.length < 2 ^ 16 := by
  rw [List.take_eq_self_iff]
  have := Nat.mod_lt correlation.length (show 0 < 2 ^ 16 by decide)
  constructor
  · intro h
    omega
  · intro h
    rw [Nat.mod_eq_of_lt h]

theorem cBytes_eq_self (correlation : Bytes) :
    cBytes correlation = correlation ↔ 0 ∉ correlation := by
  rw [cBytes, List.takeWhile_eq_self_iff]
  simp only [ne_eq, decide_not, Bool.not_eq_true', decide_eq_false_iff_not]
  exact ⟨fun h hm => h 0 hm rfl, fun h x hx heq => h (heq ▸ hx)⟩

/-- For every request that a responder received and every list of replies: in all runs the
callback is called once for each reply, in order and with its number, mark and correlation,
and the subscription ends with the last one, if and only if the condition holds. -/
theorem replies_arrive_as_sent [Package] (topicMatchesSub : String → String → Option Bool)
    (q : Request) (id : Address) (m : AittMsg) (replies : List Bytes) (hq : q.Sent)
    (hm : q.received id = some m)
    (hself : q.protocol = .mqtt → compareTopic topicMatchesSub q.replyTopic q.replyTopic = true)
    (hr : replies ≠ []) : Correct topicMatchesSub q m replies ↔ Condition q replies := by
  obtain ⟨hrep, hseq, ht, hcor⟩ := received_spec hm
  have hlen := List.length_pos_iff.mpr hr
  unfold Condition
  by_cases hp : q.protocol = .mqtt
  · rw [if_pos hp] at hcor ⊢
    by_cases hflag : q.requester.mq.subscriberIteratorUpdated = true →
        q.requester.mq.subscribers ≠ []
    · rw [correct_iff_sent hq ht hself hrep hr (Or.inl hp) (fun _ => hflag),
        sent_eq_expected hseq hr, hcor, take_eq_self]
      constructor
      · exact fun h => ⟨h.2, h.1, hflag⟩
      · exact fun h => ⟨h.2.1, h.1⟩
    · obtain ⟨hf, hs⟩ := Classical.not_imp.mp hflag
      refine iff_of_false (pending_flag_repeats hq hrep hp (hself hp) hr hf (not_not.mp hs)) ?_
      exact fun h => hflag h.2.2
  · rw [if_neg hp] at hcor ⊢
    by_cases hone : replies.length ≤ 1
    · rw [correct_iff_sent hq ht hself hrep hr (Or.inr hone) (fun hm => absurd hm hp),
        sent_eq_expected hseq hr, hcor, cBytes_eq_self]
      have hl : replies.length = 1 := by omega
      constructor
      · exact fun h => ⟨hl, h.1⟩
      · exact fun h => ⟨h.2, by omega⟩
    · refine iff_of_false (tcp_ends_at_first hq hrep hp (ht hp) (by omega)) fun h => ?_
      omega

end Run

local instance : Package := plain

def sampleRequest (protocol : AittProtocol) : Request :=
  ⟨.new "127.0.0.1", protocol, "t", [0], [7], 0, ⟨1, 2, 3, .ok ⟨4000, [], []⟩, true, true⟩⟩

theorem sampleRequest_sent {protocol : AittProtocol} (hp : protocol = .mqtt ∨ protocol = .tcp) :
    (sampleRequest protocol).Sent := by
  refine ⟨(Linked.new _).toRunning, ?_, ?_, ?_⟩
  · intro x hx
    cases hx
  · rcases hp with rfl | rfl <;> decide
  · rcases hp with rfl | rfl <;> decide

/-- Two replies over TCP: the first is read as the last, and the second is never handed over. -/
theorem second_reply_is_lost_over_tcp :
    ∃ m, (sampleRequest .tcp).Sent ∧ (sampleRequest .tcp).received 9 = some m ∧
      ¬ Correct MosquittoMQ.exactMatch (sampleRequest .tcp) m [[1], [2]] := by
  refine ⟨⟨"t", [7], "t_AittRe_0", 0, true, 9, .tcp⟩, sampleRequest_sent (Or.inr rfl), by decide,
    fun h => ?_⟩
  obtain ⟨s, hs, hl⟩ := (machine MosquittoMQ.exactMatch (sampleRequest .tcp)
      ⟨"t", [7], "t_AittRe_0", 0, true, 9, .tcp⟩ [[1], [2]]).exists_reachable [.send, .arrive, .run]
    (fun s => s.log.map (fun x => seen x.1 x.2) = [⟨[1], 1, [7], true⟩]) (by decide)
  have hpre := (h s hs).1
  rw [of_decide_eq_true hl] at hpre
  exact absurd hpre (by decide)

theorem three_replies_over_mqtt :
    ∃ m, Condition (sampleRequest .mqtt) [[1], [2], [3]] ∧
      (sampleRequest .mqtt).received 9 = some m ∧
      Correct MosquittoMQ.exactMatch (sampleRequest .mqtt) m [[1], [2], [3]] := by
  have hc : Condition (sampleRequest .mqtt) [[1], [2], [3]] := by
    have hp : (sampleRequest .mqtt).protocol = .mqtt := rfl
    rw [Condition, if_pos hp]
    exact ⟨by decide, by decide, fun hf => by cases hf⟩
  exact ⟨⟨"t", [7], "t_AittRe_0", 0, true, 9, .mqtt⟩, hc, by decide,
    (replies_arrive_as_sent _ _ 9 _ _ (sampleRequest_sent (Or.inl rfl)) (by decide)
      (fun _ => by decide) (by decide)).mpr hc⟩

end MultiPartReply
