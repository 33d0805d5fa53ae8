import Aitt.AittRequest
import Aitt.PosixMainLoop
import Aitt.SubscriptionTables

/-! `PublishWithReplySync`: a subscription to the reply topic whose callbacks run in a loop of
the call's own, which the final reply or the timeout ends. The callback of the final reply
is the only place that gives the subscription up again. -/
namespace SyncRequest

open AittTypes TransitionRuns AittImpl AittRequest PosixMainLoop
open MosquittoMQ (SubscribeData)

variable {κ : Type}

structure Request (κ : Type) where
  topic : String
  cb : κ
  userData : Address
  timeoutMs : ℤ

inductive Exit where
  | zero
  | timedOut
  | exception
  deriving DecidableEq, Repr

/-- The next statement; a turn of `Run` knows which pipes `poll` has found readable. -/
inductive Control where
  | subscribe
  | publish
  | handleTimeout
  | poll
  | checkTimeout (timeouts idles : Bool)
  | checkIdle (idles : Bool)
  | exited (exit : Exit)
  deriving DecidableEq, Repr

def Control.inRun : Control → Bool
  | .poll => true
  | .checkTimeout _ _ => true
  | .checkIdle _ => true
  | _ => false

/-- `handed` says that a final reply has been given to the caller's callback, `fired` that
the timer armed last has expired before that; the code reads neither. -/
structure State (κ : Type) where
  impl : Impl κ
  loop : Loop AittMsg := {}
  control : Control := .subscribe
  info : Address := 0
  timeoutId : ℕ := 0
  isTimeout : Bool := false
  handed : Bool := false
  fired : Bool := false

/-- Replies and expirations come at any time; the other events are the statements of the
call, with the success of what they ask for; `timer` is the number of a timer that is set. A
signal may interrupt `poll`; `throws` is about the caller's callback. -/
inductive Event where
  | subscribe (o : Outcome)
  | publish (ret : Bool)
  | handleTimeout (timer : Option ℕ)
  | poll
  | interrupt
  | checkTimeout
  | checkIdle (timer : Option ℕ) (ret published throws : Bool)
  | reply (msg : AittMsg)
  | expire (id : ℕ)
  | expireLeaked (k value : ℕ)
  | skipIdentifier

namespace State

def exits (s : State κ) (exit : Exit) : State κ := { s with control := .exited exit }

def leave (s : State κ) : State κ := s.exits (if s.isTimeout then .timedOut else .zero)

def endTurn (s : State κ) : State κ :=
  let s' := { s with
    loop := { s.loop with
      idlePipe := if s.loop.idleTable = [] then s.loop.idlePipe else s.loop.idlePipe + 1 } }
  if s.loop.isRunning then { s' with control := .poll } else s'.leave

def handleTimeout (s : State κ) (timeoutMs : ℤ) (timer : Option ℕ) : State κ :=
  { s with
    loop := (s.loop.addTimeout timeoutMs timer).1
    timeoutId := (s.loop.addTimeout timeoutMs timer).2
    fired := false }

/-- The callback of `HandleTimeout`, and the removal of its entry afterwards. -/
def onTimeout (s : State κ) (id : ℕ) : State κ :=
  { s with loop := s.loop.quit.removeTimeout id, isTimeout := true }

/-- The reading loop of `CheckTimeout`; what is written meanwhile is read last. The result is
`none` when it has read `QUIT`, and says otherwise whether a callback was run. -/
def readTokens : List Token → Bool → State κ → State κ × Option Bool
  | [], handled, s => (s, if Token.quit ∈ s.loop.timeoutPipe then none else some handled)
  | .quit :: _, _, s => (s, none)
  | .timeout id :: rest, handled, s =>
    if id ∈ s.loop.timeoutTable then readTokens rest true (s.onTimeout id)
    else readTokens rest handled s

/-- A turn that has run a timeout runs no idle callback. -/
def checkTimeout (s : State κ) (timeouts idles : Bool) : State κ :=
  if timeouts then
    match readTokens s.loop.timeoutPipe false { s with
        loop := { s.loop with timeoutPipe := [] } } with
    | (s', none) => s'.leave
    | (s', some true) => s'.endTurn
    | (s', some false) => { s' with control := .checkIdle idles }
  else { s with control := .checkIdle idles }

/-- The lambda given to `SubscribeMQ`, up to the caller's callback. An exception of
`Unsubscribe` is caught. -/
def onReply (s : State κ) (timeoutMs : ℤ) (msg : AittMsg) (timer : Option ℕ)
    (ret published : Bool) : State κ :=
  if msg.endSequence then
    { s with
      impl := (s.impl.unsubscribe msg.id ret published).1
      loop := s.loop.quit
      handed := true }
  else if s.timeoutId ≠ 0 then
    { s with loop := s.loop.removeTimeout s.timeoutId }.handleTimeout timeoutMs timer
  else s

def checkIdle (s : State κ) (timeoutMs : ℤ) (idles : Bool) (timer : Option ℕ)
    (ret published throws : Bool) : State κ :=
  if idles then
    let s := { s with loop := { s.loop with idlePipe := s.loop.idlePipe - 1 } }
    match s.loop.idleTable with
    | [] => s.endTurn
    | msg :: rest =>
      let s' := s.onReply timeoutMs msg timer ret published
      if throws then s'.exits .exception
      else { s' with loop := { s'.loop with idleTable := rest } }.endTurn
  else s.endTurn

end State

def step (q : Request κ) (s : State κ) : Event → Option (State κ)
  | .subscribe o =>
    if s.control = .subscribe ∧ Fresh s.impl .mqtt o then
      match openReply s.impl .mqtt q.topic q.cb q.userData o with
      | (impl, .ok info) => some { s with impl := impl, info := info, control := .publish }
      | (impl, .error _) => some ({ s with impl := impl }.exits .exception)
    else none
  | .publish ret =>
    if s.control = .publish then
      if ret then some { s with control := .handleTimeout } else some (s.exits .exception)
    else none
  | .handleTimeout timer =>
    if s.control = .handleTimeout then
      let s' := if q.timeoutMs ≠ 0 then s.handleTimeout q.timeoutMs timer else s
      some { s' with loop := { s'.loop with isRunning := true }, control := .poll }
    else none
  | .poll =>
    if s.control = .poll ∧ (s.loop.timeoutPipe ≠ [] ∨ s.loop.idlePipe ≠ 0) then
      some { s with
        control := .checkTimeout (s.loop.timeoutPipe ≠ []) (s.loop.idlePipe ≠ 0) }
    else none
  | .interrupt => if s.control = .poll then some s.endTurn else none
  | .checkTimeout =>
    match s.control with
    | .checkTimeout timeouts idles => some (s.checkTimeout timeouts idles)
    | _ => none
  | .checkIdle timer ret published throws =>
    match s.control with
    | .checkIdle idles => some (s.checkIdle q.timeoutMs idles timer ret published throws)
    | _ => none
  | .reply msg =>
    match s.control with
    | .subscribe => none
    | .exited _ => none
    | _ => some { s with loop := s.loop.addIdle { msg with id := s.info } }
  | .expire id =>
    match s.control with
    | .exited _ => none
    | _ => (s.loop.expire id).map fun loop =>
        { s with loop := loop, fired := s.fired || id = s.timeoutId }
  | .expireLeaked k value =>
    match s.control with
    | .exited _ => none
    | _ => (s.loop.expireLeaked k value).map fun loop => { s with loop := loop }
  | .skipIdentifier =>
    match s.control with
    | .exited _ => none
    | _ => some { s with loop := s.loop.skipIdentifier }

def machine (i : Impl κ) (q : Request κ) : Machine (State κ) Event :=
  ⟨{ impl := i }, step q⟩

structure Clean (i j : Impl κ) : Prop where
  mq : ∀ d ∈ j.mq.live, d ∈ i.mq.live
  table : ∀ p ∈ j.mySubscribeTable, p ∈ i.mySubscribeTable
  list : ∀ e ∈ j.subscribedList, e ∈ i.subscribedList

structure Truthful (i : Impl κ) (s : State κ) (exit : Exit) : Prop where
  clean : Clean i s.impl
  zero : exit = .zero ↔ s.handed = true
  timedOut : exit = .timedOut ↔ s.fired = true

/-- The broker may refuse the subscription, and nothing else goes wrong: the new cell is not
one that the discovery table still lists, publications succeed, the loop reads no token of
the current timer, the caller's callback does not throw, and the final reply is run before
that timer has expired and gets its `Unsubscribe` through. -/
def Ok (s : State κ) : Event → Prop
  | .subscribe o =>
    o.ret = true → o.published = true ∧ o.handle ∉ s.impl.mySubscribeTable.map (·.1)
  | .publish ret => ret = true
  | .checkTimeout => ∀ idles, s.control = .checkTimeout true idles → ¬s.loop.Expired
  | .checkIdle _ ret published throws => s.control = .checkIdle true →
    ∀ msg ∈ s.loop.idleTable.head?, throws = false ∧
      (msg.endSequence = true → (ret = true ∧ published = true) ∧ s.fired = false)
  | _ => True

instance (s : State κ) (e : Event) : Decidable (Ok s e) := by
  cases e <;> simp only [Ok] <;> infer_instance

section Tables

variable {i : Impl κ} {q : Request κ} {o : Outcome} {j : Impl κ} {info : Address}

def Request.data (q : Request κ) (i : Impl κ) (o : Outcome) : SubscribeData (Closure κ) :=
  ⟨o.handle, replyTopic i q.topic, ⟨o.info, q.cb⟩, q.userData⟩

structure Created (i : Impl κ) (q : Request κ) (j : Impl κ) (info : Address) : Prop where
  waiting : ∃ o, Fresh i .mqtt o ∧ o.handle ∉ i.mySubscribeTable.map (·.1) ∧ o.info = info ∧
    j = { i with
      mq := (i.mq.subscribe (q.data i o) true).1
      mySubscribeTable := i.mySubscribeTable ++ [(o.handle, replyTopic i q.topic)]
      subscribedList := i.subscribedList ++ [⟨o.info, .mqtt, o.handle, q.cb⟩]
      replyId := i.replyId + 1 }

theorem openReply_refused (hr : o.ret = false) :
    openReply i .mqtt q.topic q.cb q.userData o =
      ({ i with replyId := i.replyId + 1 }, .error (.aittException .mqttErr)) := by
  simp only [openReply, Impl.subscribe, Impl.transportSubscribe, Impl.subscribeMQ, hr,
    MosquittoMQ.subscribe_fails]

theorem openReply_created (hf : Fresh i .mqtt o) (hr : o.ret = true) (hp : o.published = true)
    (hk : o.handle ∉ i.mySubscribeTable.map (·.1)) :
    ∃ j, openReply i .mqtt q.topic q.cb q.userData o = (j, .ok o.info) ∧
      Created i q j o.info := by
  refine ⟨_, ?_, ⟨o, hf, hk, rfl, rfl⟩⟩
  simp only [openReply, Impl.subscribe, Impl.transportSubscribe, Impl.subscribeMQ, hr]
  rw [MosquittoMQ.subscribe_succeeds]
  simp only [if_neg hk, hp, if_true]
  rfl

/-- When the broker has accepted the subscription, the call throws unless it is complete;
the client keeps the cell in any case. -/
theorem openReply_fails (hr : o.ret = true)
    (hn : ¬(o.published = true ∧ o.handle ∉ i.mySubscribeTable.map (·.1))) :
    ∃ j err, openReply i .mqtt q.topic q.cb q.userData o = (j, .error err) ∧
      q.data i o ∈ j.mq.live := by
  have hlive : q.data i o ∈ (i.mq.subscribe (q.data i o) true).1.live :=
    (MosquittoMQ.subscribe_live i.mq (q.data i o)).symm.subset List.mem_cons_self
  simp only [openReply, Impl.subscribe, Impl.transportSubscribe, Impl.subscribeMQ, hr]
  rw [MosquittoMQ.subscribe_succeeds]
  by_cases hk : o.handle ∈ i.mySubscribeTable.map (·.1)
  · simp only [if_pos hk]
    exact ⟨_, _, rfl, hlive⟩
  · have hp : o.published = false := by
      rw [← Bool.not_eq_true]
      exact fun hp => hn ⟨hp, hk⟩
    simp only [if_neg hk, hp, Bool.false_eq_true, if_false]
    exact ⟨_, _, rfl, hlive⟩

theorem not_clean_of_data (hf : Fresh i .mqtt o) (hm : q.data i o ∈ j.mq.live) : ¬Clean i j := by
  intro hc
  exact hf.handle _ (mem_cells_mqtt.mpr ⟨_, hc.mq _ hm, rfl⟩) rfl

theorem Created.not_clean (h : Created i q j info) : ¬Clean i j := by
  obtain ⟨o, hf, -, -, rfl⟩ := h.waiting
  refine not_clean_of_data (q := q) hf ?_
  exact (MosquittoMQ.subscribe_live i.mq (q.data i o)).symm.subset List.mem_cons_self

theorem Fresh.allocatable (hf : Fresh i .mqtt o) :
    MosquittoMQ.Allocatable i.mq (q.data i o) :=
  ⟨hf.nonnull, fun d hd => hf.handle _ (mem_cells_mqtt.mpr ⟨d, hd, rfl⟩)⟩

/-- The client finds the cell of the call and gives up this one only. -/
theorem unsubscribe_data (hi : Running i) (hf : Fresh i .mqtt o) (ret : Bool) :
    ∃ mq, (i.mq.subscribe (q.data i o) true).1.unsubscribe o.handle ret =
        (mq, if ret then .ok q.userData else .error .mqttErr) ∧
      ∀ d ∈ mq.live, d ∈ i.mq.live := by
  have hw := hi.mq.subscribe (Fresh.allocatable (q := q) hf)
  have hp := MosquittoMQ.subscribe_live i.mq (q.data i o)
  have hcalm : (i.mq.subscribe (q.data i o) true).1.newSubscribers = [] := by
    simp [MosquittoMQ.Client.subscribe, hi.calm.1, hi.calm.2]
  obtain ⟨n, hget, hu⟩ :=
    hw.unsubscribe_live hcalm (hp.symm.subset List.mem_cons_self) ret
  refine ⟨_, hu, fun d hd => ?_⟩
  obtain ⟨hd, hne⟩ := (hw.mem_erase_live hget d).mp hd
  rcases List.mem_cons.mp (hp.subset hd) with rfl | hd
  · exact absurd rfl hne
  · exact hd

/-- `Unsubscribe` takes the subscription from all three tables when both calls to the broker
succeed; an exception leaves it in the list. -/
theorem Created.unsubscribe (hi : Running i) (h : Created i q j info) (ret published : Bool) :
    Clean i (j.unsubscribe info ret published).1 ↔ ret = true ∧ published = true := by
  obtain ⟨o, hf, hk, rfl, rfl⟩ := h.waiting
  obtain ⟨mq, hu, hmq⟩ := unsubscribe_data (q := q) hi hf ret
  have hnone : i.subscribedList.find? (·.address = o.info) = none := by
    rw [List.find?_eq_none]
    intro e he
    simpa using hf.info e he
  have hlist : ∀ k : Impl κ,
      k.subscribedList = i.subscribedList ++ [⟨o.info, .mqtt, o.handle, q.cb⟩] → ¬Clean i k := by
    intro k hk hc
    have hm : ⟨o.info, .mqtt, o.handle, q.cb⟩ ∈ k.subscribedList := by simp [hk]
    exact hf.info _ (hc.list _ hm) rfl
  simp only [Impl.unsubscribe, Impl.find, List.find?_append, hnone, Option.none_or,
    List.find?_cons, decide_true, Impl.transportUnsubscribe, Impl.unsubscribeMQ, hu]
  cases ret with
  | false => exact iff_of_false (hlist _ rfl) (by simp)
  | true =>
    simp only [if_true, List.map_append, List.map_cons, List.map_nil, List.mem_append,
      List.mem_singleton, or_true]
    cases published with
    | false => exact iff_of_false (hlist _ rfl) (by simp)
    | true =>
      refine iff_of_true ⟨hmq, fun p hp => ?_, fun e he => ?_⟩ (by simp)
      · obtain ⟨hp, hne⟩ := List.mem_filter.mp hp
        rcases List.mem_append.mp hp with hp | hp
        · exact hp
        · simp [List.mem_singleton.mp hp] at hne
      · have hrest : ∀ e ∈ i.subscribedList, ¬decide (e.address = o.info) = true := by
          simpa using hf.info
        simp only [if_true, List.eraseP_append_right _ hrest] at he
        simpa using he

end Tables

section Loop

variable {s : State κ}

/-- Tokens of timeouts that have left the table are passed over. -/
theorem readTokens_stale {tokens : List Token} (hq : Token.quit ∉ tokens)
    (ht : ∀ id ∈ s.loop.timeoutTable, Token.timeout id ∉ tokens)
    (hp : s.loop.timeoutPipe = []) (handled : Bool) :
    State.readTokens tokens handled s = (s, some handled) := by
  induction tokens with
  | nil => simp [State.readTokens, hp]
  | cons token rest ih =>
    cases token with
    | quit => exact absurd List.mem_cons_self hq
    | timeout id =>
      have hid : id ∉ s.loop.timeoutTable := fun hm => ht id hm List.mem_cons_self
      rw [State.readTokens, if_neg hid]
      exact ih (fun hm => hq (List.mem_cons_of_mem _ hm))
        fun id hm hr => ht id hm (List.mem_cons_of_mem _ hr)

theorem readTokens_impl (tokens : List Token) (handled : Bool) (s : State κ) :
    (State.readTokens tokens handled s).1.impl = s.impl := by
  fun_induction State.readTokens tokens handled s with
  | case1 => rfl
  | case2 => rfl
  | case3 _ _ _ _ _ ih => exact ih
  | case4 _ _ _ _ _ ih => exact ih

theorem readTokens_quit (tokens : List Token) (handled : Bool)
    (hq : Token.quit ∈ s.loop.timeoutPipe) : (State.readTokens tokens handled s).2 = none := by
  fun_induction State.readTokens tokens handled s with
  | case1 => simp [hq]
  | case2 => rfl
  | case3 handled s id rest hm ih =>
    apply ih
    simp only [State.onTimeout, Loop.removeTimeout_timeoutPipe, Loop.quit]
    split
    · exact List.mem_append_left _ hq
    · exact hq
  | case4 _ _ _ _ _ ih => exact ih hq

/-- The callback of the timeout quits, which the reading loop sees at its end. -/
theorem readTokens_expired {tokens : List Token} {id : ℕ} (hr : s.loop.isRunning = true)
    (hid : id ∈ s.loop.timeoutTable) (hm : Token.timeout id ∈ tokens) (handled : Bool) :
    (State.readTokens tokens handled s).2 = none := by
  induction tokens with
  | nil => cases hm
  | cons token rest ih =>
    cases token with
    | quit => rfl
    | timeout x =>
      rw [State.readTokens]
      by_cases hx : x ∈ s.loop.timeoutTable
      · rw [if_pos hx]
        apply readTokens_quit
        simp [State.onTimeout, Loop.quit, hr]
      · rw [if_neg hx]
        rcases List.mem_cons.mp hm with heq | hm
        · cases heq
          exact absurd hid hx
        · exact ih hm

end Loop

/-- The timer of the call is the one of `timeoutId`, and its token is in the pipe when it has
expired. A timer that has outlived its record may write that token too. -/
structure Timed (s : State κ) : Prop where
  current : s.loop.Current s.timeoutId
  fired : s.fired = true → s.loop.Expired

structure Open (i : Impl κ) (q : Request κ) (s : State κ) : Prop extends Timed s where
  pending : s.isTimeout = false ∧ s.handed = false
  queued : ∀ msg ∈ s.loop.idleTable, msg.id = s.info
  untouched : s.control = .subscribe → s.impl = i ∧ s.loop.idleTable = []
  created : s.control ≠ .subscribe → Created i q s.impl s.info
  unarmed : s.control.inRun = false → s.timeoutId = 0
  running : s.control.inRun = true → s.loop.isRunning = true

structure Invariant (i : Impl κ) (q : Request κ) (s : State κ) : Prop where
  opened : (∀ x, s.control ≠ .exited x) → Open i q s
  exited : ∀ x, s.control = .exited x → Truthful i s x

section Steps

variable {i : Impl κ} {q : Request κ} {s t : State κ}

theorem Open.invariant (h : Open i q s) (hc : ∀ x, s.control ≠ .exited x) : Invariant i q s :=
  ⟨fun _ => h, fun x hx => absurd hx (hc x)⟩

theorem Truthful.invariant {x : Exit} (h : Truthful i s x) (hc : s.control = .exited x) :
    Invariant i q s := by
  refine ⟨fun hn => absurd hc (hn x), fun y hy => ?_⟩
  cases hc.symm.trans hy
  exact h

theorem open_new (i : Impl κ) (q : Request κ) : Open i q { impl := i } where
  current := Loop.current_new
  fired := nofun
  pending := ⟨rfl, rfl⟩
  queued := nofun
  untouched _ := ⟨rfl, rfl⟩
  created h := absurd rfl h
  unarmed _ := rfl
  running := nofun

theorem open_inRun (ht : Timed s) (hp : s.isTimeout = false ∧ s.handed = false)
    (hq : ∀ msg ∈ s.loop.idleTable, msg.id = s.info) (hk : Created i q s.impl s.info)
    (hr : s.loop.isRunning = true) (hc : s.control.inRun = true) : Open i q s where
  toTimed := ht
  pending := hp
  queued := hq
  untouched he := by
    rw [he] at hc
    cases hc
  created _ := hk
  unarmed he := by
    rw [he] at hc
    cases hc
  running _ := hr

theorem Open.created_inRun (h : Open i q s) (hc : s.control.inRun = true) :
    Created i q s.impl s.info := by
  apply h.created
  intro he
  rw [he] at hc
  cases hc

theorem Open.endTurn (h : Open i q s) (hc : s.control.inRun = true) : Invariant i q s.endTurn := by
  have hr := h.running hc
  have heq : s.endTurn = { s with
      loop := { s.loop with
        idlePipe := if s.loop.idleTable = [] then s.loop.idlePipe else s.loop.idlePipe + 1 }
      control := .poll } := by
    simp only [State.endTurn, hr, if_true]
  rw [heq]
  apply Open.invariant
  · exact open_inRun ⟨h.current.congr rfl, h.fired⟩ h.pending h.queued
      (h.created_inRun hc) hr rfl
  · nofun

def Spoiled (i : Impl κ) (s : State κ) : Prop :=
  ∃ x, s.control = .exited x ∧ ¬Truthful i s x

theorem spoiled_exits {x : Exit} (hn : ¬Clean i s.impl) : Spoiled i (s.exits x) :=
  ⟨x, rfl, fun h => hn h.clean⟩

theorem Open.subscribe (h : Open i q s) {o : Outcome}
    (he : step q s (.subscribe o) = some t) :
    (Ok s (.subscribe o) ∧ Invariant i q t) ∨ (¬Ok s (.subscribe o) ∧ Spoiled i t) := by
  simp only [step, Option.ite_none_right_eq_some] at he
  obtain ⟨⟨hc, hf⟩, he⟩ := he
  obtain ⟨rfl, hidle⟩ := h.untouched hc
  have hz : s.timeoutId = 0 := h.unarmed (by rw [hc]; rfl)
  cases hr : o.ret with
  | false =>
    rw [openReply_refused hr] at he
    cases he
    refine Or.inl ⟨fun ht => ?_, Truthful.invariant (x := .exception) ?_ rfl⟩
    · cases hr.symm.trans ht
    · have hfired : s.fired = false := by
        rw [← Bool.not_eq_true]
        exact fun hx => (h.current.expired_iff.mp (h.fired hx)).1 hz
      exact ⟨⟨fun _ hd => hd, fun _ hp => hp, fun _ he => he⟩, by simp [State.exits, h.pending],
        by simp [State.exits, hfired]⟩
  | true =>
    by_cases hok : o.published = true ∧ o.handle ∉ s.impl.mySubscribeTable.map (·.1)
    · obtain ⟨j, hopen, hk⟩ := openReply_created (q := q) hf hr hok.1 hok.2
      rw [hopen] at he
      cases he
      refine Or.inl ⟨fun _ => hok, Open.invariant ?_ nofun⟩
      exact {
        current := h.current
        fired := h.fired
        pending := h.pending
        queued := by simp [hidle]
        untouched := nofun
        created := fun _ => hk
        unarmed := fun _ => hz
        running := nofun }
    · obtain ⟨j, err, hopen, hm⟩ := openReply_fails (q := q) hr hok
      rw [hopen] at he
      cases he
      exact Or.inr ⟨fun hx => hok (hx hr), spoiled_exits (not_clean_of_data hf hm)⟩

theorem Open.publish (h : Open i q s) {ret : Bool} (he : step q s (.publish ret) = some t) :
    (ret = true ∧ Invariant i q t) ∨ (¬ret = true ∧ Spoiled i t) := by
  simp only [step, Option.ite_none_right_eq_some] at he
  obtain ⟨hc, he⟩ := he
  have hs : s.control ≠ .subscribe := by
    rw [hc]
    nofun
  cases ret with
  | false =>
    cases he
    exact Or.inr ⟨nofun, spoiled_exits (h.created hs).not_clean⟩
  | true =>
    cases he
    refine Or.inl ⟨rfl, Open.invariant ?_ nofun⟩
    exact {
      current := h.current
      fired := h.fired
      pending := h.pending
      queued := h.queued
      untouched := nofun
      created := fun _ => h.created hs
      unarmed := fun _ => h.unarmed (by rw [hc]; rfl)
      running := nofun }

theorem timed_handleTimeout (hz : s.loop.Current 0) (timeoutMs : ℤ) (timer : Option ℕ) :
    Timed (s.handleTimeout timeoutMs timer) :=
  ⟨(hz.addTimeout timeoutMs timer).1, nofun⟩

theorem Open.handleTimeout (h : Open i q s) {timer : Option ℕ}
    (he : step q s (.handleTimeout timer) = some t) : Invariant i q t := by
  simp only [step, Option.ite_none_right_eq_some, Option.some.injEq] at he
  obtain ⟨hc, rfl⟩ := he
  have hs : s.control ≠ .subscribe := by
    rw [hc]
    nofun
  have hz : s.timeoutId = 0 := h.unarmed (by rw [hc]; rfl)
  have hcur : s.loop.Current 0 := hz ▸ h.current
  refine Open.invariant (open_inRun ?_ ?_ ?_ ?_ rfl rfl) nofun
  · split
    · have ht := timed_handleTimeout hcur q.timeoutMs timer
      exact ⟨ht.current.congr rfl, ht.fired⟩
    · exact ⟨h.current.congr rfl, h.fired⟩
  · split <;> exact h.pending
  · split
    · simpa [State.handleTimeout] using h.queued
    · exact h.queued
  · split <;> exact h.created hs

/-- A token of the current timer ends the call with the subscription in place; all other
tokens are passed over. -/
theorem Open.checkTimeout (h : Open i q s) (he : step q s .checkTimeout = some t) :
    (Ok s .checkTimeout ∧ Invariant i q t) ∨ (¬Ok s .checkTimeout ∧ Spoiled i t) := by
  simp only [step] at he
  split at he
  · next timeouts idles hc =>
    cases he
    have hin : s.control.inRun = true := by rw [hc]; rfl
    have hk := h.created_inRun hin
    cases timeouts with
    | false =>
      refine Or.inl ⟨fun idles hx => ?_, Open.invariant (open_inRun ⟨h.current, h.fired⟩
        h.pending h.queued hk (h.running hin) rfl) nofun⟩
      cases hc.symm.trans hx
    | true =>
      by_cases hx : s.loop.Expired
      · refine Or.inr ⟨fun hok => hok idles hc hx, ?_⟩
        obtain ⟨id, hid, hm⟩ := hx
        have hnone := readTokens_expired (s := { s with
          loop := { s.loop with timeoutPipe := [] } }) (h.running hin) hid hm false
        have himpl := readTokens_impl s.loop.timeoutPipe false { s with
          loop := { s.loop with timeoutPipe := [] } }
        simp only [State.checkTimeout, if_true]
        split
        · next s' hs' =>
          rw [hs'] at himpl
          exact spoiled_exits (himpl ▸ hk.not_clean)
        · next hs' => rw [hs'] at hnone; cases hnone
        · next hs' => rw [hs'] at hnone; cases hnone
      · have hread := readTokens_stale (s := { s with
          loop := { s.loop with timeoutPipe := [] } }) h.current.noQuit
          (fun id hid hm => hx ⟨id, hid, hm⟩) rfl false
        refine Or.inl ⟨fun _ _ => hx, ?_⟩
        simp only [State.checkTimeout, if_true, hread]
        refine Open.invariant (open_inRun ⟨h.current.drain, ?_⟩ h.pending h.queued hk
          (h.running hin) rfl) nofun
        exact fun hf => absurd (h.fired hf) hx
  · cases he

/-- An intermediate reply cancels the timer and arms the next; whether or not the old one had
expired does not matter any more. -/
theorem Timed.onReply (h : Timed s) {msg : AittMsg} (hm : msg.endSequence = false)
    (timeoutMs : ℤ) (timer : Option ℕ) (ret published : Bool) :
    Timed (s.onReply timeoutMs msg timer ret published) := by
  simp only [State.onReply, hm, Bool.false_eq_true, if_false]
  split
  · exact timed_handleTimeout h.current.removeTimeout timeoutMs timer
  · exact h

theorem onReply_intermediate {msg : AittMsg} (hm : msg.endSequence = false)
    (timeoutMs : ℤ) (timer : Option ℕ) (ret published : Bool) :
    ∃ l id fired, s.onReply timeoutMs msg timer ret published =
        { s with loop := l, timeoutId := id, fired := fired } ∧
      l.idleTable = s.loop.idleTable ∧ l.isRunning = s.loop.isRunning := by
  simp only [State.onReply, hm, Bool.false_eq_true, if_false]
  split
  · exact ⟨_, _, _, rfl, by simp, by simp⟩
  · exact ⟨s.loop, s.timeoutId, s.fired, rfl, rfl, rfl⟩

theorem Open.intermediate (h : Open i q s) (hc : s.control.inRun = true) {msg : AittMsg}
    {rest : List AittMsg} (hidle : s.loop.idleTable = msg :: rest)
    (hm : msg.endSequence = false) (timer : Option ℕ) (ret published : Bool) :
    Created i q (s.onReply q.timeoutMs msg timer ret published).impl s.info ∧
      Invariant i q { s.onReply q.timeoutMs msg timer ret published with
        loop := { (s.onReply q.timeoutMs msg timer ret published).loop with
          idleTable := rest } }.endTurn := by
  have ht := h.toTimed.onReply hm q.timeoutMs timer ret published
  obtain ⟨l, id, fired, heq, -, hrun⟩ := onReply_intermediate hm q.timeoutMs timer ret published
  rw [heq] at ht ⊢
  have hk := h.created_inRun hc
  refine ⟨hk, Open.endTurn (open_inRun ⟨ht.current.congr rfl, ht.fired⟩ h.pending
    (fun m hmem => ?_) hk (hrun.trans (h.running hc)) hc) hc⟩
  exact h.queued m (hidle ▸ List.mem_cons_of_mem _ hmem)

/-- The final reply ends the call with zero. -/
theorem onReply_final {msg : AittMsg} (hm : msg.endSequence = true)
    (hr : s.loop.isRunning = true) (hp : s.isTimeout = false) (timeoutMs : ℤ)
    (rest : List AittMsg) (timer : Option ℕ) (ret published : Bool) :
    ∃ l, { s.onReply timeoutMs msg timer ret published with
        loop := { (s.onReply timeoutMs msg timer ret published).loop with
          idleTable := rest } }.endTurn =
      { s with
        impl := (s.impl.unsubscribe msg.id ret published).1
        loop := l
        handed := true
        control := .exited .zero } := by
  simp only [State.onReply, hm, if_true, State.endTurn, Loop.quit, hr, State.leave, State.exits,
    hp, Bool.false_eq_true, if_false]
  exact ⟨_, rfl⟩

/-- Zero is what the caller may expect when `Unsubscribe` got through and the timer had not
expired. -/
theorem Open.final (h : Open i q s) (hi : Running i) (hc : s.control.inRun = true)
    (l : Loop AittMsg) (ret published : Bool) :
    Truthful i { s with
        impl := (s.impl.unsubscribe s.info ret published).1
        loop := l
        handed := true
        control := .exited .zero } .zero ↔
      (ret = true ∧ published = true) ∧ s.fired = false := by
  have hclean := (h.created_inRun hc).unsubscribe hi ret published
  constructor
  · intro ht
    refine ⟨hclean.mp ht.clean, ?_⟩
    rw [← Bool.not_eq_true]
    intro hx
    cases ht.timedOut.mpr hx
  · rintro ⟨hu, hx⟩
    exact ⟨hclean.mpr hu, by simp, iff_of_false nofun (Bool.eq_false_iff.mp hx)⟩

/-- The reply at the front of the queue is run. -/
theorem Open.runReply (h : Open i q s) (hi : Running i) (hc : s.control.inRun = true)
    {msg : AittMsg} {rest : List AittMsg} (hidle : s.loop.idleTable = msg :: rest)
    {timer : Option ℕ} {ret published throws : Bool}
    (ht : t = if throws then (s.onReply q.timeoutMs msg timer ret published).exits .exception
      else { s.onReply q.timeoutMs msg timer ret published with
        loop := { (s.onReply q.timeoutMs msg timer ret published).loop with
          idleTable := rest } }.endTurn) :
    let good := throws = false ∧
      (msg.endSequence = true → (ret = true ∧ published = true) ∧ s.fired = false)
    (good ∧ Invariant i q t) ∨ (¬good ∧ Spoiled i t) := by
  intro good
  subst ht
  cases hm : msg.endSequence with
  | false =>
    obtain ⟨hk, hinv⟩ := h.intermediate hc hidle hm timer ret published
    cases throws with
    | false => exact Or.inl ⟨⟨rfl, fun he => nomatch hm.symm.trans he⟩, hinv⟩
    | true => exact Or.inr ⟨nofun, spoiled_exits hk.not_clean⟩
  | true =>
    cases throws with
    | true =>
      refine Or.inr ⟨nofun, .exception, rfl, fun ht => ?_⟩
      cases ht.zero.mpr (by simp [State.exits, State.onReply, hm])
    | false =>
      obtain ⟨l, heq⟩ := onReply_final hm (h.running hc) h.pending.1 q.timeoutMs rest
        timer ret published
      have hid : msg.id = s.info := h.queued msg (hidle ▸ List.mem_cons_self)
      rw [if_neg Bool.false_ne_true, heq, hid]
      have hfin := h.final hi hc l ret published
      by_cases hg : (ret = true ∧ published = true) ∧ s.fired = false
      · exact Or.inl ⟨⟨rfl, fun _ => hg⟩, (hfin.mpr hg).invariant rfl⟩
      · exact Or.inr ⟨fun hx => hg (hx.2 hm), .zero, rfl, fun ht => hg (hfin.mp ht)⟩

theorem Open.checkIdle (h : Open i q s) (hi : Running i) {timer : Option ℕ}
    {ret published throws : Bool}
    (he : step q s (.checkIdle timer ret published throws) = some t) :
    (Ok s (.checkIdle timer ret published throws) ∧ Invariant i q t) ∨
      (¬Ok s (.checkIdle timer ret published throws) ∧ Spoiled i t) := by
  simp only [step] at he
  split at he
  · next idles hc =>
    cases he
    have hin : s.control.inRun = true := by rw [hc]; rfl
    cases idles with
    | false =>
      refine Or.inl ⟨fun hx => ?_, h.endTurn hin⟩
      cases hc.symm.trans hx
    | true =>
      -- the token of the pipe is read first
      have h1 : Open i q { s with loop := { s.loop with idlePipe := s.loop.idlePipe - 1 } } :=
        open_inRun ⟨h.current.congr rfl, h.fired⟩ h.pending h.queued
          (h.created_inRun hin) (h.running hin) hin
      simp only [State.checkIdle, if_true]
      split
      · next hidle =>
        refine Or.inl ⟨fun _ msg hmsg => ?_, h1.endTurn hin⟩
        rw [hidle] at hmsg
        cases hmsg
      · next msg rest hidle =>
        have hok : Ok s (.checkIdle timer ret published throws) ↔ throws = false ∧
            (msg.endSequence = true → (ret = true ∧ published = true) ∧ s.fired = false) := by
          simp [Ok, hc, hidle]
        rw [hok]
        exact h1.runReply hi hin hidle rfl
  · cases he

theorem Open.expire (h : Open i q s) (hc : ∀ x, s.control ≠ .exited x) {id : ℕ}
    (he : step q s (.expire id) = some t) : Invariant i q t := by
  simp only [step] at he
  obtain ⟨l, hl, rfl⟩ := Option.map_eq_some_iff.mp he
  obtain ⟨hcur, rfl, hx⟩ := h.current.expire hl
  have hidle : l.idleTable = s.loop.idleTable ∧ l.isRunning = s.loop.isRunning := by
    simp only [Loop.expire, Option.ite_none_right_eq_some, Option.some.injEq] at hl
    obtain ⟨-, rfl⟩ := hl
    exact ⟨rfl, rfl⟩
  refine Open.invariant ?_ hc
  exact {
    current := hcur
    fired := fun _ => hx
    pending := h.pending
    queued := by simpa [hidle] using h.queued
    untouched := by simpa [hidle] using h.untouched
    created := h.created
    unarmed := h.unarmed
    running := by simpa [hidle] using h.running }

theorem Open.expireLeaked (h : Open i q s) (hc : ∀ x, s.control ≠ .exited x) {k value : ℕ}
    (he : step q s (.expireLeaked k value) = some t) : Invariant i q t := by
  simp only [step] at he
  obtain ⟨l, hl, rfl⟩ := Option.map_eq_some_iff.mp he
  have hcur := h.current.expireLeaked hl
  simp only [Loop.expireLeaked, Option.ite_none_right_eq_some, Option.some.injEq] at hl
  obtain ⟨-, rfl⟩ := hl
  refine Open.invariant ?_ hc
  exact {
    current := hcur
    fired := fun hf => by
      obtain ⟨id, hid, hm⟩ := h.fired hf
      exact ⟨id, hid, List.mem_append_left _ hm⟩
    pending := h.pending
    queued := h.queued
    untouched := h.untouched
    created := h.created
    unarmed := h.unarmed
    running := h.running }

theorem Open.reply (h : Open i q s) {msg : AittMsg} (he : step q s (.reply msg) = some t) :
    Invariant i q t := by
  have hs : s.control ≠ .subscribe ∧ (∀ x, s.control ≠ .exited x) ∧
      t = { s with loop := s.loop.addIdle { msg with id := s.info } } := by
    simp only [step] at he
    split at he
    · cases he
    · cases he
    · next hn hx => exact ⟨hn, hx, (Option.some.inj he).symm⟩
  obtain ⟨hs, hc, rfl⟩ := hs
  refine Open.invariant ?_ hc
  exact {
    current := h.current.congr rfl
    fired := h.fired
    pending := h.pending
    queued := fun m hm => by
      rcases List.mem_append.mp hm with hm | hm
      · exact h.queued m hm
      · rw [List.mem_singleton.mp hm]
    untouched := fun he => absurd he hs
    created := h.created
    unarmed := h.unarmed
    running := h.running }

theorem Open.skipIdentifier (h : Open i q s) (hc : ∀ x, s.control ≠ .exited x)
    (he : step q s .skipIdentifier = some t) : Invariant i q t := by
  simp only [step] at he
  obtain rfl := Option.some.inj he
  refine Open.invariant ?_ hc
  exact {
    current := h.current.skipIdentifier
    fired := h.fired
    pending := h.pending
    queued := h.queued
    untouched := h.untouched
    created := h.created
    unarmed := h.unarmed
    running := h.running }

theorem Open.poll (h : Open i q s) (he : step q s .poll = some t) : Invariant i q t := by
  simp only [step, Option.ite_none_right_eq_some, Option.some.injEq] at he
  obtain ⟨⟨hc, -⟩, rfl⟩ := he
  have hin : s.control.inRun = true := by rw [hc]; rfl
  exact Open.invariant (open_inRun ⟨h.current, h.fired⟩ h.pending h.queued (h.created_inRun hin)
    (h.running hin) rfl) nofun

theorem step_exited {x : Exit} (hc : s.control = .exited x) (e : Event) : step q s e = none := by
  cases e <;> simp [step, hc]

/-- A step either meets the condition and keeps the invariant, or does neither and ends the
call. -/
theorem Invariant.step (h : Invariant i q s) (hi : Running i) {e : Event}
    (he : step q s e = some t) : (Ok s e ∧ Invariant i q t) ∨ (¬Ok s e ∧ Spoiled i t) := by
  have hc : ∀ x, s.control ≠ .exited x := fun x hx => by
    rw [step_exited hx] at he
    cases he
  have ho := h.opened hc
  cases e with
  | subscribe o => exact ho.subscribe he
  | publish ret => exact ho.publish he
  | handleTimeout timer => exact Or.inl ⟨trivial, ho.handleTimeout he⟩
  | poll => exact Or.inl ⟨trivial, ho.poll he⟩
  | interrupt =>
    simp only [SyncRequest.step, Option.ite_none_right_eq_some, Option.some.injEq] at he
    obtain ⟨hp, rfl⟩ := he
    exact Or.inl ⟨trivial, ho.endTurn (by rw [hp]; rfl)⟩
  | checkTimeout => exact ho.checkTimeout he
  | checkIdle timer ret published throws => exact ho.checkIdle hi he
  | reply msg => exact Or.inl ⟨trivial, ho.reply he⟩
  | expire id => exact Or.inl ⟨trivial, ho.expire hc he⟩
  | expireLeaked k value => exact Or.inl ⟨trivial, ho.expireLeaked hc he⟩
  | skipIdentifier => exact Or.inl ⟨trivial, ho.skipIdentifier hc he⟩

theorem Invariant.reaches (hi : Running i) (h : (machine i q).Reaches Ok s) :
    Invariant i q s := by
  refine h.invariant ((open_new i q).invariant nofun) fun _ _ _ _ hs ho he => ?_
  rcases hs.step hi he with ⟨-, ht⟩ | ⟨hn, -⟩
  · exact ht
  · exact absurd ho hn

end Steps

/-- In every run that meets the condition each exit of the call leaves nothing in the tables
and tells its caller the truth, and the next step of such a run keeps to this exactly when it
meets the condition. -/
theorem sync_request_cleans_up_and_reports {i : Impl κ} (hi : Running i) (q : Request κ)
    {s : State κ} (h : (machine i q).Reaches Ok s) :
    (∀ x, s.control = .exited x → Truthful i s x) ∧
      ∀ e t, (machine i q).step s e = some t →
        ((∀ x, t.control = .exited x → Truthful i t x) ↔ Ok s e) := by
  have hs := Invariant.reaches hi h
  refine ⟨hs.exited, fun e t he => ?_⟩
  rcases hs.step hi he with ⟨hok, ht⟩ | ⟨hn, x, hx, hf⟩
  · exact iff_of_true ht.exited hok
  · exact iff_of_false (fun hall => hf (hall x hx)) hn

def sampleRequest : Request ℕ := ⟨"t", 7, 0, 1⟩

/-- No reply comes before the timer expires: the call returns, and the subscription with the
callback on the deleted loop stays in all three tables. -/
theorem timeout_leaves_the_subscription :
    ∃ s : State ℕ, (machine (.new "") sampleRequest).Reachable s ∧
      (s.control = .exited .timedOut ∧ s.impl.mq.live.map (·.handle) = [2] ∧
        s.impl.mySubscribeTable = [(2, "t_AittRe_0")] ∧
        s.impl.subscribedList.map (·.address) = [1]) ∧
      ¬Truthful (.new "") s .timedOut := by
  obtain ⟨s, hs, hp⟩ := (machine (.new "") sampleRequest).exists_reachable
    [.subscribe ⟨1, 2, 3, .ok ⟨4000, [], []⟩, true, true⟩, .publish true, .handleTimeout (some 0),
     .expire 2, .poll, .checkTimeout]
    (fun s : State ℕ => s.control = .exited .timedOut ∧ s.impl.mq.live.map (·.handle) = [2] ∧
        s.impl.mySubscribeTable = [(2, "t_AittRe_0")] ∧
        s.impl.subscribedList.map (·.address) = [1]) (by decide)
  have hq := of_decide_eq_true hp
  refine ⟨s, hs, hq, fun ht => ?_⟩
  have hm : (2, "t_AittRe_0") ∈ s.impl.mySubscribeTable := by
    rw [hq.2.2.1]
    exact List.mem_singleton_self _
  cases ht.clean.table _ hm

/-- The first timer expires while an intermediate reply is run, which arms another; the
token of the first is passed over, and the final reply ends the call. -/
theorem sync_request_after_a_stale_token :
    ∃ s : State ℕ, (machine (.new "") sampleRequest).Reaches Ok s ∧
      s.control = .exited .zero ∧ s.impl.subscribedList = [] ∧
      Truthful (.new "") s .zero := by
  obtain ⟨s, hs, hp⟩ := (machine (.new "") sampleRequest).exists_reaches Ok
    [.subscribe ⟨1, 2, 3, .ok ⟨4000, [], []⟩, true, true⟩, .publish true, .handleTimeout (some 0),
     .reply { sequence := 1, endSequence := false }, .poll, .checkTimeout, .expire 2,
     .checkIdle (some 1) true true false, .reply { sequence := 2, endSequence := true }, .poll,
     .checkTimeout, .checkIdle (some 1) true true false]
    (fun s : State ℕ => s.control = .exited .zero ∧ s.impl.subscribedList = []) (by decide)
  have hq := of_decide_eq_true hp
  exact ⟨s, hs, hq.1, hq.2,
    (sync_request_cleans_up_and_reports (Linked.new "").toRunning sampleRequest hs).1 _ hq.1⟩

end SyncRequest
