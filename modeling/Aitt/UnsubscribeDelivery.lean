import Aitt.AittImpl
import Mathlib.Data.Fintype.Sum
import Mathlib.Tactic.DeriveFintype

/-! Deliveries and `Unsubscribe`. A message goes from the transport into a queue, the idle
queue of the main loop or the copied list of a TCP loop, and from there to the callback;
`Subscribe` and `Unsubscribe` may come between any two of these. Subscriptions are numbered
in the order of the `Subscribe` calls, so that ids may be reused and numbers are not. -/
namespace UnsubscribeDelivery

open AittTypes MqttProperties TransitionRuns AittImpl

inductive Context where
  | main
  | tcp (secure : Bool)
  deriving DecidableEq, Fintype, Repr

inductive Act where
  | invoked (subscription : ℕ)
  | unsubscribed (subscription : ℕ)
  | removedOwn (caller victim : ℕ)
  deriving DecidableEq, Repr

/-- A queued or running call is the lambda it came through: the id in its message and the
number of its subscription. `log` is only recorded, never read. -/
structure State where
  impl : Impl ℕ
  queue : Context → List (Closure ℕ)
  running : Context → Option (Closure ℕ)
  next : ℕ
  log : List Act

def initial (ip : String) : State := ⟨.new ip, fun _ => [], fun _ => none, 0, []⟩

/-- `unsubscribeOwn` is the call that a running callback makes with its `msg->GetID()`. -/
inductive Event where
  | subscribe (protocol : AittProtocol) (topic : String) (userData : Address) (o : Outcome)
  | unsubscribe (id : Address) (ret published : Bool)
  | unsubscribeOwn (context : Context) (ret published : Bool)
  | message (msg : Message)
  | receiveData (secure : Bool) (server : Address)
  | invoke (context : Context)
  | callbackReturns (context : Context)

def returned (i : Impl ℕ) (id : Address) : Except TcpModule.Failure Address → List Act
  | .ok _ => (i.find id).toList.map fun info => .unsubscribed info.cb
  | .error _ => []

def unsubscribeStep (s : State) (id : Address) (ret published : Bool) : State :=
  let r := s.impl.unsubscribe id ret published
  { s with impl := r.1, log := s.log ++ returned s.impl id r.2 }

variable (topicMatchesSub : String → String → Option Bool)

/-- A TCP loop reads the next message only when it is through with the copied list. A
message that cannot be read ends the process when a subscriber is to be called with it. -/
def step (s : State) : Event → Option State
  | .subscribe protocol topic userData o =>
    if Fresh s.impl protocol o then
      some { s with
        impl := (s.impl.subscribe protocol topic s.next userData o).1
        next := s.next + 1 }
    else none
  | .unsubscribe id ret published => some (unsubscribeStep s id ret published)
  | .unsubscribeOwn context ret published =>
    (s.running context).map fun d =>
      let t := unsubscribeStep s d.info ret published
      { t with log := t.log ++ (s.impl.lost t.impl).map (.removedOwn d.cb) }
  | .message msg =>
    let r := s.impl.messageCB topicMatchesSub msg
    if (readMsg msg).isOk ∨ r.2 = [] then
      some { s with
        impl := r.1
        queue := Function.update s.queue .main (s.queue .main ++ r.2) }
    else none
  | .receiveData secure server =>
    if s.running (.tcp secure) = none ∧ s.queue (.tcp secure) = [] then
      some { s with
        queue := Function.update s.queue (.tcp secure) (s.impl.receiveData secure server) }
    else none
  | .invoke context =>
    match s.running context, s.queue context with
    | none, d :: rest => some { s with
        running := Function.update s.running context (some d)
        queue := Function.update s.queue context rest
        log := s.log ++ [.invoked d.cb] }
    | _, _ => none
  | .callbackReturns context =>
    (s.running context).map fun _ =>
      { s with running := Function.update s.running context none }

def machine (ip : String) : Machine State Event := ⟨initial ip, step topicMatchesSub⟩

def NoneAfterUnsubscribe (log : List Act) : Prop :=
  log.Pairwise fun a b => ∀ n, a = .unsubscribed n → b ≠ .invoked n

def RemovesOnlyOwn (log : List Act) : Prop :=
  ∀ caller victim, .removedOwn caller victim ∈ log → victim = caller

def Settled (s : State) (id : Address) : Prop :=
  ∀ e ∈ s.impl.find id, ∀ context, ∀ d ∈ s.queue context, d.cb ≠ e.cb

/-- When the run meets the two properties: no call of a subscription is queued when it is
unsubscribed, and a new subscription takes neither the id that a running callback holds nor a
handle that an entry of the list still has. -/
def Ok (s : State) : Event → Prop
  | .subscribe protocol _ _ o =>
    Unshared s.impl protocol o ∧ ∀ context, ∀ d ∈ s.running context, d.info ≠ o.info
  | .unsubscribe id _ _ => Settled s id
  | .unsubscribeOwn context _ _ => ∀ d ∈ s.running context, Settled s d.info
  | _ => True

instance (s : State) (id : Address) : Decidable (Settled s id) :=
  inferInstanceAs (Decidable (∀ e ∈ s.impl.find id, _))

instance (s : State) (e : Event) : Decidable (Ok s e) := by
  cases e <;> simp only [Ok] <;> infer_instance

structure Invariant (s : State) : Prop where
  linked : Linked s.impl
  closures_lt : ∀ c ∈ s.impl.closures, c.cb < s.next
  list_lt : ∀ e ∈ s.impl.subscribedList, e.cb < s.next
  unsubscribed_lt : ∀ n, .unsubscribed n ∈ s.log → n < s.next
  numbers : (s.impl.subscribedList.map (·.cb)).Nodup
  sameId : ∀ e ∈ s.impl.subscribedList, ∀ c ∈ s.impl.closures, c.cb = e.cb → c.info = e.address
  closures_live : ∀ c ∈ s.impl.closures, .unsubscribed c.cb ∉ s.log
  list_live : ∀ e ∈ s.impl.subscribedList, .unsubscribed e.cb ∉ s.log
  queue_live : ∀ context, ∀ d ∈ s.queue context, .unsubscribed d.cb ∉ s.log
  anchored : ∀ context, ∀ d ∈ s.queue context, d ∈ s.impl.closures ∨
    ∃ e ∈ s.impl.subscribedList, e.address = d.info ∧ e.cb = d.cb
  own : ∀ context, ∀ d ∈ s.running context, ∀ e ∈ s.impl.subscribedList,
    e.address = d.info → e.cb = d.cb
  none_after : NoneAfterUnsubscribe s.log
  only_own : RemovesOnlyOwn s.log

variable {topicMatchesSub}

theorem Invariant.initial (ip : String) : Invariant (initial ip) where
  linked := .new ip
  closures_lt := by intro c hc; cases hc
  list_lt := by intro e he; cases he
  unsubscribed_lt := by intro n hn; cases hn
  numbers := List.nodup_nil
  sameId := by intro e he; cases he
  closures_live := by intro c hc; cases hc
  list_live := by intro e he; cases he
  queue_live := by intro context d hd; cases hd
  anchored := by intro context d hd; cases hd
  own := by intro context d hd; cases hd
  none_after := List.Pairwise.nil
  only_own := by intro caller victim h; cases h

/-- Numbers of subscriptions that came before are not the new one. -/
theorem Invariant.subscribe {s : State} (h : Invariant s) {protocol : AittProtocol}
    {topic : String} {userData : Address} {o : Outcome} (hf : Fresh s.impl protocol o)
    (ho : Ok s (.subscribe protocol topic userData o)) :
    Invariant { s with
      impl := (s.impl.subscribe protocol topic s.next userData o).1
      next := s.next + 1 } := by
  obtain ⟨hu, hown⟩ := ho
  rcases hs : s.impl.subscribe protocol topic s.next userData o with ⟨i, r⟩
  obtain ⟨hl, hold, hnew, hr⟩ := h.linked.subscribe hf hu hs
  obtain ⟨sub, list⟩ := h.linked.subscribe_list hf hu hs
  have unused : .unsubscribed s.next ∉ s.log := fun hm => (h.unsubscribed_lt _ hm).false
  exact {
    linked := hl
    closures_lt := by
      intro c hc
      rcases hnew c hc with hc | rfl
      · exact (h.closures_lt c hc).trans (Nat.lt_succ_self _)
      · exact Nat.lt_succ_self _
    list_lt := by
      intro e he
      rcases list e he with he | rfl
      · exact (h.list_lt e he).trans (Nat.lt_succ_self _)
      · exact Nat.lt_succ_self _
    unsubscribed_lt := fun n hn => (h.unsubscribed_lt n hn).trans (Nat.lt_succ_self _)
    numbers := by
      rcases hr with ⟨-, hlist⟩ | ⟨-, hlist⟩
      · rw [hlist, List.map_append, List.nodup_append]
        refine ⟨h.numbers, by simp, fun a ha b hb => ?_⟩
        obtain ⟨e, he, rfl⟩ := List.mem_map.mp ha
        obtain rfl : b = s.next := by simpa using hb
        exact (h.list_lt e he).ne
      · rw [hlist]
        exact h.numbers
    sameId := by
      intro e he c hc heq
      rcases list e he with he | rfl
      · rcases hnew c hc with hc | rfl
        · exact h.sameId e he c hc heq
        · exact absurd heq.symm (h.list_lt e he).ne
      · rcases hnew c hc with hc | rfl
        · exact absurd heq (h.closures_lt c hc).ne
        · rfl
    closures_live := by
      intro c hc
      rcases hnew c hc with hc | rfl
      · exact h.closures_live c hc
      · exact unused
    list_live := by
      intro e he
      rcases list e he with he | rfl
      · exact h.list_live e he
      · exact unused
    queue_live := h.queue_live
    anchored := by
      intro context d hd
      rcases h.anchored context d hd with hc | ⟨e, he, hea⟩
      · exact Or.inl (hold d hc)
      · exact Or.inr ⟨e, sub e he, hea⟩
    own := by
      intro context d hd e he heq
      rcases list e he with he | rfl
      · exact h.own context d hd e he heq
      · exact absurd heq.symm (hown context d hd)
    none_after := h.none_after
    only_own := h.only_own }

/-- The entry under an id, by number. -/
theorem Invariant.entry_unique {s : State} (h : Invariant s) {e e' : SubscribeInfo ℕ}
    (he : e ∈ s.impl.subscribedList) (he' : e' ∈ s.impl.subscribedList)
    (ha : e.address = e'.address) : e = e' :=
  List.inj_on_of_nodup_map h.linked.addresses he he' ha

/-- `Unsubscribe` threw: a lambda may be gone, but its entry has stayed. -/
theorem Invariant.unsubscribe_throws {s : State} (h : Invariant s) {id : Address} {i : Impl ℕ}
    (hl : Linked i) (hsub : ∀ c ∈ i.closures, c ∈ s.impl.closures)
    (hlost : ∀ c ∈ s.impl.closures, c ∈ i.closures ∨
      ∃ e ∈ s.impl.subscribedList, e.address = id ∧ c.info = e.address)
    (hlist : i.subscribedList = s.impl.subscribedList) : Invariant { s with impl := i } where
  linked := hl
  closures_lt c hc := h.closures_lt c (hsub c hc)
  list_lt e he := h.list_lt e (hlist ▸ he)
  unsubscribed_lt := h.unsubscribed_lt
  numbers := hlist ▸ h.numbers
  sameId e he c hc := h.sameId e (hlist ▸ he) c (hsub c hc)
  closures_live c hc := h.closures_live c (hsub c hc)
  list_live e he := h.list_live e (hlist ▸ he)
  queue_live := h.queue_live
  anchored := by
    intro context d hd
    rcases h.anchored context d hd with hc | ⟨e, he, hea⟩
    · rcases hlost d hc with hc' | ⟨e, he, -, hi⟩
      · exact Or.inl hc'
      · exact Or.inr ⟨e, hlist ▸ he, hi.symm, (h.linked.captured_cb he hc hi).symm⟩
    · exact Or.inr ⟨e, hlist ▸ he, hea⟩
  own context d hd e he := h.own context d hd e (hlist ▸ he)
  none_after := h.none_after
  only_own := h.only_own

/-- More is recorded, but no `Unsubscribe`. -/
theorem Invariant.record {s : State} (h : Invariant s) {acts : List Act}
    (hu : ∀ n, .unsubscribed n ∉ acts) (hn : NoneAfterUnsubscribe (s.log ++ acts))
    (ho : ∀ caller victim, .removedOwn caller victim ∈ acts → victim = caller) :
    Invariant { s with log := s.log ++ acts } := by
  have mem : ∀ n, .unsubscribed n ∈ s.log ++ acts → .unsubscribed n ∈ s.log := by
    intro n hm
    rcases List.mem_append.mp hm with hm | hm
    · exact hm
    · exact absurd hm (hu n)
  exact { h with
    unsubscribed_lt := fun n hm => h.unsubscribed_lt n (mem n hm)
    closures_live := fun c hc hm => h.closures_live c hc (mem _ hm)
    list_live := fun e he hm => h.list_live e he (mem _ hm)
    queue_live := fun context d hd hm => h.queue_live context d hd (mem _ hm)
    none_after := hn
    only_own := by
      intro caller victim hm
      rcases List.mem_append.mp hm with hm | hm
      · exact h.only_own caller victim hm
      · exact ho caller victim hm }

theorem none_after_append {log : List Act} (h : NoneAfterUnsubscribe log) {a : Act}
    (ha : ∀ n, a = .invoked n → .unsubscribed n ∉ log) : NoneAfterUnsubscribe (log ++ [a]) := by
  refine List.pairwise_append.mpr ⟨h, List.pairwise_singleton _ _, ?_⟩
  intro b hb c hc n hbn hcn
  obtain rfl := List.mem_singleton.mp hc
  exact ha n hcn (hbn ▸ hb)

/-- `Unsubscribe` returned: entry and lambda are gone, and no call of theirs was queued. -/
theorem Invariant.unsubscribe_returns {s : State} (h : Invariant s) {i : Impl ℕ}
    {e : SubscribeInfo ℕ} (he : e ∈ s.impl.subscribedList) (hl : Linked i)
    (hsub : ∀ c ∈ i.closures, c ∈ s.impl.closures)
    (hlost : ∀ c ∈ s.impl.closures, c ∈ i.closures ∨
      ∃ e' ∈ s.impl.subscribedList, e'.address = e.address ∧ c.info = e'.address)
    (hlist : i.subscribedList = s.impl.subscribedList.eraseP (·.address = e.address))
    (hgone : ∀ c ∈ i.closures, c.info ≠ e.address)
    (hq : ∀ context, ∀ d ∈ s.queue context, d.cb ≠ e.cb) :
    Invariant { s with impl := i, log := s.log ++ [.unsubscribed e.cb] } := by
  have list : ∀ e', e' ∈ i.subscribedList ↔
      e' ∈ s.impl.subscribedList ∧ e'.address ≠ e.address := by
    intro e'
    rw [hlist]
    exact TcpModule.mem_eraseP_key h.linked.addresses
  have closure_ne : ∀ c ∈ i.closures, c.cb ≠ e.cb :=
    fun c hc heq => hgone c hc (h.sameId e he c (hsub c hc) heq)
  have entry_ne : ∀ e' ∈ i.subscribedList, e'.cb ≠ e.cb := by
    intro e' he' heq
    obtain ⟨hm, hne⟩ := (list e').mp he'
    exact hne (congrArg _ (List.inj_on_of_nodup_map h.numbers hm he heq))
  have live : ∀ n, .unsubscribed n ∉ s.log → n ≠ e.cb →
      .unsubscribed n ∉ s.log ++ [.unsubscribed e.cb] := by
    intro n hn hne hm
    rcases List.mem_append.mp hm with hm | hm
    · exact hn hm
    · exact hne (Act.unsubscribed.inj (List.mem_singleton.mp hm))
  exact {
    linked := hl
    closures_lt := fun c hc => h.closures_lt c (hsub c hc)
    list_lt := fun e' he' => h.list_lt e' ((list e').mp he').1
    unsubscribed_lt := by
      intro n hn
      rcases List.mem_append.mp hn with hn | hn
      · exact h.unsubscribed_lt n hn
      · obtain rfl := Act.unsubscribed.inj (List.mem_singleton.mp hn)
        exact h.list_lt e he
    numbers := by
      rw [hlist]
      exact h.numbers.sublist (List.eraseP_sublist.map _)
    sameId := fun e' he' c hc => h.sameId e' ((list e').mp he').1 c (hsub c hc)
    closures_live := fun c hc => live _ (h.closures_live c (hsub c hc)) (closure_ne c hc)
    list_live := fun e' he' => live _ (h.list_live e' ((list e').mp he').1) (entry_ne e' he')
    queue_live := fun context d hd => live _ (h.queue_live context d hd) (hq context d hd)
    anchored := by
      intro context d hd
      rcases h.anchored context d hd with hc | ⟨e', he', hea, hcb⟩
      · rcases hlost d hc with hc' | ⟨e', he', hea, hi⟩
        · exact Or.inl hc'
        · obtain rfl := h.entry_unique he' he hea
          exact absurd (h.linked.captured_cb he' hc hi) (hq context d hd)
      · refine Or.inr ⟨e', (list e').mpr ⟨he', fun heq => ?_⟩, hea, hcb⟩
        obtain rfl := h.entry_unique he' he heq
        exact hq context d hd hcb.symm
    own := fun context d hd e' he' => h.own context d hd e' ((list e').mp he').1
    none_after := none_after_append h.none_after fun n hn => by cases hn
    only_own := by
      intro caller victim hm
      rcases List.mem_append.mp hm with hm | hm
      · exact h.only_own caller victim hm
      · cases List.mem_singleton.mp hm }

theorem Invariant.unsubscribe {s : State} (h : Invariant s) {id : Address}
    (hs : Settled s id) (ret published : Bool) :
    Invariant (unsubscribeStep s id ret published) := by
  unfold unsubscribeStep
  rcases hu : s.impl.unsubscribe id ret published with ⟨i, r⟩
  obtain ⟨hl, hsub, hlost, hr⟩ := h.linked.unsubscribe hu
  rcases hr with ⟨⟨err, rfl⟩, hlist⟩ | ⟨userData, e, rfl, hf, hlist, hgone⟩
  · simp only [returned, List.append_nil]
    exact h.unsubscribe_throws hl hsub hlost hlist
  · obtain ⟨hm, rfl⟩ := mem_of_find hf
    have hlog : returned s.impl e.address (.ok userData) = [.unsubscribed e.cb] := by
      simp [returned, hf]
    simp only [hlog]
    exact h.unsubscribe_returns hm hl hsub hlost hlist hgone (hs e hf)

theorem Invariant.unsubscribeOwn {s : State} (h : Invariant s) {context : Context}
    {d : Closure ℕ} (hd : s.running context = some d) (hs : Settled s d.info)
    (ret published : Bool) :
    Invariant { unsubscribeStep s d.info ret published with
      log := (unsubscribeStep s d.info ret published).log ++
        (s.impl.lost (unsubscribeStep s d.info ret published).impl).map
          (.removedOwn d.cb) } := by
  have ht := h.unsubscribe hs ret published
  refine ht.record (by simp) ?_ ?_
  · refine List.pairwise_append.mpr ⟨ht.none_after, ?_, ?_⟩
    · refine List.pairwise_map.mpr (List.pairwise_of_forall fun a b n ha => ?_)
      cases ha
    · intro a _ b hb n _ hbn
      obtain ⟨v, -, rfl⟩ := List.mem_map.mp hb
      cases hbn
  · intro caller victim hm
    obtain ⟨v, hv, he⟩ := List.mem_map.mp hm
    obtain ⟨rfl, rfl⟩ := Act.removedOwn.inj he
    obtain ⟨e, hmem, ha, hcb⟩ := h.linked.mem_lost hv
    exact hcb.symm.trans (h.own context d hd e hmem ha)

/-- New calls come from lambdas that the transports hold. -/
theorem Invariant.enqueue {s : State} (h : Invariant s) {context : Context}
    {q : List (Closure ℕ)} (hq : ∀ d ∈ q, d ∈ s.queue context ∨ d ∈ s.impl.closures) :
    Invariant { s with queue := Function.update s.queue context q } := by
  have split : ∀ c, ∀ d ∈ Function.update s.queue context q c,
      (∃ c', d ∈ s.queue c') ∨ d ∈ s.impl.closures := by
    intro c d hd
    by_cases hc : c = context
    · subst hc
      rw [Function.update_self] at hd
      rcases hq d hd with hd | hd
      · exact Or.inl ⟨_, hd⟩
      · exact Or.inr hd
    · rw [Function.update_of_ne hc] at hd
      exact Or.inl ⟨c, hd⟩
  exact { h with
    queue_live := by
      intro c d hd
      rcases split c d hd with ⟨c', hd⟩ | hd
      · exact h.queue_live c' d hd
      · exact h.closures_live d hd
    anchored := by
      intro c d hd
      rcases split c d hd with ⟨c', hd⟩ | hd
      · exact h.anchored c' d hd
      · exact Or.inl hd }

/-- A dispatch moves the iterator of the client and nothing else. -/
theorem Invariant.dispatch {s : State} (h : Invariant s) (msg : Message) :
    Invariant { s with impl := (s.impl.messageCB topicMatchesSub msg).1 } := by
  have hc := @messageCB_closures _ topicMatchesSub _ h.linked.toRunning msg
  exact { h with
    linked := h.linked.messageCB msg
    closures_lt := fun c hm => h.closures_lt c (hc ▸ hm)
    sameId := fun e he c hm => h.sameId e he c (hc ▸ hm)
    closures_live := fun c hm => h.closures_live c (hc ▸ hm)
    anchored := fun context d hd => (h.anchored context d hd).imp_left fun hm => hc.symm ▸ hm }

/-- The call at the head of the queue belongs to a subscription that is still there. -/
theorem Invariant.invoke {s : State} (h : Invariant s) {context : Context} {d : Closure ℕ}
    {rest : List (Closure ℕ)} (hq : s.queue context = d :: rest) :
    Invariant { s with
      running := Function.update s.running context (some d)
      queue := Function.update s.queue context rest
      log := s.log ++ [.invoked d.cb] } := by
  have hd : d ∈ s.queue context := hq ▸ List.mem_cons_self
  have running : ∀ c x, Function.update s.running context (some d) c = some x →
      x = d ∨ s.running c = some x := by
    intro c x hx
    by_cases hc : c = context
    · subst hc
      rw [Function.update_self] at hx
      exact Or.inl (Option.some.inj hx).symm
    · rw [Function.update_of_ne hc] at hx
      exact Or.inr hx
  have hn : NoneAfterUnsubscribe (s.log ++ [.invoked d.cb]) := by
    refine none_after_append h.none_after fun n hn => ?_
    obtain rfl := Act.invoked.inj hn
    exact h.queue_live context d hd
  have hr := (h.enqueue (q := rest) fun x hx => Or.inl (hq ▸ List.mem_cons_of_mem d hx)).record
    (by simp) hn (by simp)
  exact { hr with
    own := by
      intro c x hx e he heq
      rcases running c x hx with rfl | hx
      · rcases h.anchored context x hd with hm | ⟨e', he', hea, hcb⟩
        · exact (h.linked.captured_cb he hm heq.symm).symm
        · obtain rfl := h.entry_unique he he' (heq.trans hea.symm)
          exact hcb
      · exact h.own c x hx e he heq }

theorem Invariant.callbackReturns {s : State} (h : Invariant s) (context : Context) :
    Invariant { s with running := Function.update s.running context none } := by
  have running : ∀ c x, Function.update s.running context none c = some x →
      s.running c = some x := by
    intro c x hx
    by_cases hc : c = context
    · subst hc
      simp at hx
    · rwa [Function.update_of_ne hc] at hx
  exact { h with own := fun c x hx => h.own c x (running c x hx) }

theorem Invariant.step {s t : State} {e : Event} (h : Invariant s) (ho : Ok s e)
    (hs : step topicMatchesSub s e = some t) : Invariant t := by
  cases e with
  | subscribe protocol topic userData o =>
    simp only [UnsubscribeDelivery.step, Option.ite_none_right_eq_some, Option.some.injEq] at hs
    obtain ⟨hf, rfl⟩ := hs
    exact h.subscribe hf ho
  | unsubscribe id ret published =>
    obtain rfl := Option.some.inj hs
    exact h.unsubscribe ho ret published
  | unsubscribeOwn context ret published =>
    obtain ⟨d, hd, rfl⟩ := Option.map_eq_some_iff.mp hs
    exact h.unsubscribeOwn hd (ho d hd) ret published
  | message msg =>
    simp only [UnsubscribeDelivery.step, Option.ite_none_right_eq_some, Option.some.injEq] at hs
    obtain ⟨-, rfl⟩ := hs
    refine (h.dispatch msg).enqueue fun d hd => ?_
    rcases List.mem_append.mp hd with hd | hd
    · exact Or.inl hd
    · refine Or.inr ?_
      rw [messageCB_closures h.linked.toRunning]
      exact messageCB_calls s.impl msg d hd
  | receiveData secure server =>
    simp only [UnsubscribeDelivery.step, Option.ite_none_right_eq_some, Option.some.injEq] at hs
    obtain ⟨-, rfl⟩ := hs
    exact h.enqueue fun d hd => Or.inr (receiveData_calls s.impl secure server d hd)
  | invoke context =>
    simp only [UnsubscribeDelivery.step] at hs
    split at hs
    · next hr hq =>
      obtain rfl := Option.some.inj hs
      exact h.invoke hq
    · cases hs
  | callbackReturns context =>
    obtain ⟨-, -, rfl⟩ := Option.map_eq_some_iff.mp hs
    exact h.callbackReturns context

/-- In every run that meets the condition, no callback is invoked after the `Unsubscribe` of
its subscription returned, and a callback that unsubscribes its own id, however often,
removes no subscription but its own. -/
theorem no_delivery_after_unsubscribe (topicMatchesSub : String → String → Option Bool)
    (ip : String) (s : State) (h : (machine topicMatchesSub ip).Reaches Ok s) :
    NoneAfterUnsubscribe s.log ∧ RemovesOnlyOwn s.log := by
  have hi : Invariant s :=
    h.invariant (.initial ip) fun _ _ _ _ hi ho he => hi.step ho he
  exact ⟨hi.none_after, hi.only_own⟩

/-- Two messages queued before the first call unsubscribes, and an id reused by a new
subscription while a callback still holds it. -/
theorem queued_call_outlives_unsubscribe :
    (∃ s, (machine MosquittoMQ.exactMatch "").Reachable s ∧ ¬ NoneAfterUnsubscribe s.log) ∧
      ∃ s, (machine MosquittoMQ.exactMatch "").Reachable s ∧ ¬ RemovesOnlyOwn s.log := by
  constructor
  · obtain ⟨s, hs, hl⟩ := (machine MosquittoMQ.exactMatch "").exists_reachable
      [.subscribe .mqtt "t" 0 ⟨1, 2, 3, .ok ⟨4000, [], []⟩, true, true⟩,
       .message ⟨"t", [], none⟩,
       .message ⟨"t", [], none⟩,
       .invoke .main,
       .unsubscribeOwn .main true true,
       .callbackReturns .main,
       .invoke .main]
      (fun s => s.log = [.invoked 0, .unsubscribed 0, .removedOwn 0 0, .removedOwn 0 0, .invoked 0])
      (by decide)
    refine ⟨s, hs, fun h => ?_⟩
    rw [of_decide_eq_true hl] at h
    simp [NoneAfterUnsubscribe] at h
  · obtain ⟨s, hs, hl⟩ := (machine MosquittoMQ.exactMatch "").exists_reachable
      [.subscribe .mqtt "t" 0 ⟨1, 2, 3, .ok ⟨4000, [], []⟩, true, true⟩,
       .message ⟨"t", [], none⟩,
       .invoke .main,
       .unsubscribeOwn .main true true,
       .subscribe .mqtt "u" 0 ⟨1, 2, 3, .ok ⟨4000, [], []⟩, true, true⟩,
       .unsubscribeOwn .main true true]
      (fun s => .removedOwn 0 1 ∈ s.log) (by decide)
    exact ⟨s, hs, fun h => absurd (h 0 1 (of_decide_eq_true hl)) (by decide)⟩

/-- A callback that unsubscribes its own id twice, with the next message arriving after. -/
theorem no_delivery_after_second_unsubscribe :
    ∃ s, (machine MosquittoMQ.exactMatch "").Reaches Ok s ∧
      .removedOwn 0 0 ∈ s.log ∧ NoneAfterUnsubscribe s.log ∧ RemovesOnlyOwn s.log := by
  obtain ⟨s, hs, hl⟩ := (machine MosquittoMQ.exactMatch "").exists_reaches Ok
    [.subscribe .tcp "t" 0 ⟨1, 2, 3, .ok ⟨4000, [], []⟩, true, true⟩,
     .receiveData false 3,
     .invoke (.tcp false),
     .unsubscribeOwn (.tcp false) true true,
     .unsubscribeOwn (.tcp false) true true,
     .callbackReturns (.tcp false),
     .receiveData false 3]
    (fun s => .removedOwn 0 0 ∈ s.log) (by decide)
  exact ⟨s, hs, of_decide_eq_true hl, no_delivery_after_unsubscribe _ _ s hs⟩

end UnsubscribeDelivery
