import Aitt.AittDiscovery
import Mathlib.Tactic.Common

/-! `callback_handle` against the subscribers of the discovery client. `Stop` and `Restart`
take the subscription out in one statement and set the handle in a later one, so a
mosquitto call that raises in between leaves a handle of a deleted subscription, and the
next `Start` returns without connecting. -/
namespace DiscoveryHandle

open AittTypes TransitionRuns AittDiscovery
open MosquittoMQ (Client SubscribeData Allocatable)

/-- The handle between two calls, the subscribers, the handle after `Stop`, and what a
`Connect` that returned normally has done and leads to. -/
structure HandleSound (s : State) : Prop where
  live : s.control = .idle →
    s.callbackHandle = 0 ∨ ∃ d ∈ s.mq.subscribers, d.handle = s.callbackHandle
  unique : (s.mq.subscribers.filter (·.topic = discoveryFilter)).length ≤ 1
  stopped : s.history.stopped = true → s.callbackHandle = 0
  connects : s.control = .idle → s.history.connected = true →
    s.history.dialled = true ∧ s.loop = true ∧
    ∀ cell, Allocatable s.mq (subscription cell) →
      ∃ t, machine.step s (.connection .connected true cell) = some t ∧
        ∃ d ∈ t.mq.subscribers, d.topic = discoveryFilter ∧ d.handle = t.callbackHandle

def Exposed : Statement → Bool
  | .restartUnsubscribe => true
  | .restartSubscribe => true
  | .stopUnsubscribe => true
  | .stopPublishExactlyOnce => true
  | .stopPublishAtMostOnce => true
  | _ => false

/-- While there is a handle, the mosquitto calls of `Restart` and `Stop` succeed. -/
def Allowed (s : State) : Event → Prop
  | .advance ret _ =>
    s.callbackHandle ≠ 0 → s.control.statement.any Exposed = true → ret = true
  | _ => True

instance (s : State) (e : Event) : Decidable (Allowed s e) := by
  unfold Allowed
  split <;> infer_instance

structure View where
  handle : Address
  mq : Client Unit
  loop : Bool
  connectCb : Bool
  stopped : Bool
  connected : Bool
  dialled : Bool

def view (s : State) : View :=
  ⟨s.callbackHandle, s.mq, s.loop, s.connectCb, s.history.stopped, s.history.connected,
    s.history.dialled⟩

namespace View

structure Calm (v : View) : Prop where
  newSubscribers : v.mq.newSubscribers = []
  iterating : v.mq.subscribersIterating = false
  stopped : v.stopped = true → v.handle = 0 ∧ v.connectCb = false

def Absent (v : View) : Prop := v.mq.subscribers = []

def Present (v : View) : Prop :=
  v.handle ≠ 0 ∧ v.mq.subscribers = [subscription v.handle] ∧ v.loop = true

def Linked (v : View) : Prop :=
  (v.handle = 0 ∧ v.Absent) ∨ (v.Present ∧ v.connectCb = true)

structure Settled (v : View) : Prop where
  linked : v.Linked
  heard : v.connectCb = true → v.dialled = true
  connected : v.connected = true → v.connectCb = true ∧ v.loop = true

def At (v : View) : Statement → Prop
  | .startSetWillInfo => v.Settled ∧ v.stopped = false
  | .startSetConnectionCallback => v.Settled ∧ v.stopped = false
  | .startConnect =>
    v.Linked ∧ v.stopped = false ∧ v.connectCb = true ∧ (v.connected = true → v.loop = true)
  | .startRunning => v.Settled ∧ v.connectCb = true ∧ v.loop = true
  | .restartUnsubscribe => v.Settled ∧ v.handle ≠ 0
  | .restartSubscribe =>
    v.handle ≠ 0 ∧ v.Absent ∧ v.loop = true ∧ v.connectCb = true ∧ v.dialled = true
  | .stopSetConnectionCallback => v.Linked ∧ v.connected = false
  | .stopUnsubscribe =>
    ((v.handle = 0 ∧ v.Absent) ∨ v.Present) ∧ v.connectCb = false ∧ v.connected = false
  | .stopPublishExactlyOnce => v.Absent ∧ v.connectCb = false ∧ v.connected = false
  | .stopPublishAtMostOnce => v.Absent ∧ v.connectCb = false ∧ v.connected = false
  | .stopClearHandle => v.Absent ∧ v.connectCb = false ∧ v.connected = false
  | .stopDisconnect =>
    v.handle = 0 ∧ v.Absent ∧ v.connectCb = false ∧ v.connected = false
  | _ => v.Settled

end View

def Fits : Statement → Caller → Prop
  | .startGuard, c | .startSetWillInfo, c | .startSetConnectionCallback, c
  | .startConnect, c | .startRunning, c => c = .application ∨ c = .connect
  | .restartGuard, c | .restartUnsubscribe, c | .restartSubscribe, c => c = .application
  | _, c => c ≠ .connect

def Place (v : View) : Control → Prop
  | .discovery pc caller => v.At pc ∧ Fits pc caller
  | .mqConnect => v.Settled ∧ v.connectCb = true ∧ v.loop = true
  | .terminated => v.mq.subscribers.length ≤ 1
  | _ => v.Settled

structure Invariant (s : State) : Prop where
  calm : (view s).Calm
  place : Place (view s) s.control

theorem unsubscribe_null (mq : Client Unit) (ret : Bool) : mq.unsubscribe 0 ret = (mq, .ok 0) :=
  rfl

theorem unsubscribe_only {mq : Client Unit} {handle : Address} (hz : handle ≠ 0)
    (hs : mq.subscribers = [subscription handle]) (ret : Bool) :
    mq.unsubscribe handle ret = (mq.erase 0, if ret then .ok 1 else .error .mqttErr) := by
  have hf : mq.find handle = 0 := by simp [Client.find, hs, subscription]
  simp only [Client.unsubscribe, if_neg hz, hf, hs]
  rfl

namespace View

theorem Calm.erase {v : View} (h : v.Calm) (i : ℕ) : { v with mq := v.mq.erase i }.Calm :=
  ⟨by simpa using h.newSubscribers, by simpa using h.iterating, h.stopped⟩

theorem Linked.handle_present {v : View} (h : v.Linked) (hz : v.handle ≠ 0) :
    v.Present ∧ v.connectCb = true :=
  h.resolve_left fun hl => hz hl.1

end View

/-- `Subscribe` on an empty vector makes the new entry the only one. -/
theorem subscribe_spec {v : View} (he : v.Absent) (hc : v.Calm) (hn : v.stopped = false)
    (cell : Address) :
    { v with mq := (v.mq.subscribe (subscription cell) true).1, handle := cell }.Calm ∧
      (v.mq.subscribe (subscription cell) true).1.subscribers = [subscription cell] := by
  have hm : (v.mq.subscribe (subscription cell) true).1 =
      { v.mq with subscribers := v.mq.subscribers ++ [subscription cell] } := by
    simp [Client.subscribe, hc.iterating]
  rw [hm]
  refine ⟨⟨hc.newSubscribers, hc.iterating, fun h => ?_⟩, ?_⟩
  · exact absurd (h.symm.trans hn) (by simp)
  · rw [show v.mq.subscribers = [] from he]
    rfl

/-- `Unsubscribe` of the handle empties the vector; it raises only if its mosquitto call fails. -/
theorem unsubscribe_spec {v : View} (h : (v.handle = 0 ∧ v.Absent) ∨ v.Present) (hc : v.Calm)
    {ret : Bool} {mq : Client Unit} {res : Except ErrCode Address}
    (hu : v.mq.unsubscribe v.handle ret = (mq, res)) :
    { v with mq := mq }.Calm ∧ mq.subscribers = [] ∧
      (∀ err, res = .error err → v.handle ≠ 0 ∧ ret = false) := by
  rcases h with ⟨hz, hs⟩ | ⟨hz, hs, -⟩
  · rw [hz, unsubscribe_null] at hu
    cases hu
    exact ⟨hc, hs, fun err he => nomatch he⟩
  · rw [unsubscribe_only hz hs] at hu
    cases hu
    refine ⟨hc.erase 0, by simp [hs], fun err he => ⟨hz, ?_⟩⟩
    cases ret with
    | false => rfl
    | true => simp at he

def Lands (v : View) (caller : Caller) : Flow → Prop
  | .next pc => v.At pc ∧ Fits pc caller
  | .returns => v.Settled ∧ (caller = .connect → v.connectCb = true ∧ v.loop = true)
  | .raises => v.Settled

/-- A failed publication of `Stop` does no harm as long as there is no handle. -/
theorem stopPublish_raises {s : State} {caller : Caller} (hc : (view s).Calm)
    (ha : (view s).Absent ∧ (view s).connectCb = false ∧ (view s).connected = false)
    (hz : s.callbackHandle ≠ 0 → false = true) :
    (view s.stopEnds).Calm ∧ Lands (view s.stopEnds) caller .raises := by
  obtain ⟨he, hb, hn⟩ := ha
  have hz : s.callbackHandle = 0 := by
    by_contra h
    exact Bool.false_ne_true (hz h)
  exact ⟨⟨hc.newSubscribers, hc.iterating, fun _ => ⟨hz, hb⟩⟩,
    Or.inl ⟨hz, he⟩, fun h => absurd (hb.symm.trans h) (by simp),
    fun h => absurd (hn.symm.trans h) (by simp)⟩

theorem exec_lands {s t : State} {ret : Bool} {cell : Address} {pc : Statement} {flow : Flow}
    {caller : Caller} (h : Exec s ret cell pc t flow) (hc : (view s).Calm)
    (ha : (view s).At pc) (hf : Fits pc caller)
    (hok : s.callbackHandle ≠ 0 → Exposed pc = true → ret = true) :
    (view t).Calm ∧ Lands (view t) caller flow := by
  cases h with
  | startReturns h =>
    obtain ⟨hp, hb⟩ := ha.linked.handle_present h
    exact ⟨hc, ha, fun _ => ⟨hb, hp.2.2⟩⟩
  | startBegins h =>
    exact ⟨⟨hc.newSubscribers, hc.iterating, fun h => nomatch h⟩,
      ⟨⟨ha.linked, ha.heard, ha.connected⟩, rfl⟩, hf⟩
  | willSet => exact ⟨hc, ha, hf⟩
  | willFails => exact ⟨hc, ha.1⟩
  | callbackSet =>
    obtain ⟨hs, hn⟩ := ha
    refine ⟨⟨hc.newSubscribers, hc.iterating, fun h => ?_⟩, ⟨?_, hn, rfl, ?_⟩, hf⟩
    · exact absurd (h.symm.trans hn) (by simp)
    · rcases hs.linked with hl | hl
      · exact Or.inl hl
      · exact Or.inr ⟨hl.1, rfl⟩
    · exact fun h => (hs.connected h).2
  | connects =>
    obtain ⟨hl, hn, hb, hconn⟩ := ha
    refine ⟨⟨hc.newSubscribers, hc.iterating, hc.stopped⟩,
      ⟨⟨?_, fun _ => rfl, fun _ => ⟨hb, rfl⟩⟩, hb, rfl⟩, hf⟩
    rcases hl with hl | ⟨hp, hb⟩
    · exact Or.inl hl
    · exact Or.inr ⟨⟨hp.1, hp.2.1, rfl⟩, hb⟩
  | connectFails =>
    obtain ⟨hl, hn, hb, hconn⟩ := ha
    exact ⟨⟨hc.newSubscribers, hc.iterating, hc.stopped⟩,
      hl, fun _ => rfl, fun h => ⟨hb, hconn h⟩⟩
  | running => exact ⟨hc, ha.1, fun _ => ha.2⟩
  | restartReturns => exact ⟨hc, ha, fun he => nomatch hf.symm.trans he⟩
  | restartBegins h => exact ⟨hc, ⟨ha, h⟩, hf⟩
  | restartUnsubscribed h =>
    obtain ⟨hs, hz⟩ := ha
    obtain ⟨hp, hb⟩ := hs.linked.handle_present hz
    obtain ⟨hc', he, -⟩ := unsubscribe_spec (v := view s) (Or.inr hp) hc h
    exact ⟨hc', ⟨hz, he, hp.2.2, hb, hs.heard hb⟩, hf⟩
  | restartUnsubscribeFails h =>
    obtain ⟨hs, hz⟩ := ha
    obtain ⟨hp, hb⟩ := hs.linked.handle_present hz
    obtain ⟨-, -, he⟩ := unsubscribe_spec (v := view s) (Or.inr hp) hc h
    exact absurd ((he _ rfl).2.symm.trans (hok hz rfl)) (by simp)
  | restartSubscribed hr hall =>
    obtain ⟨hz, he, hl, hb, hd⟩ := ha
    have hn : (view s).stopped = false := by
      by_contra h
      exact hz (hc.stopped (by simpa using h)).1
    obtain ⟨hc', hs⟩ := subscribe_spec he hc hn cell
    exact ⟨hc', ⟨Or.inr ⟨⟨hall.1, hs, hl⟩, hb⟩, fun _ => hd, fun _ => ⟨hb, hl⟩⟩,
      fun he => nomatch hf.symm.trans he⟩
  | restartSubscribeFails hr => exact absurd (hr.symm.trans (hok ha.1 rfl)) (by simp)
  | stopBegins =>
    exact ⟨⟨hc.newSubscribers, hc.iterating, hc.stopped⟩, ⟨ha.linked, rfl⟩, hf⟩
  | callbackCleared =>
    refine ⟨⟨hc.newSubscribers, hc.iterating, fun h => ⟨(hc.stopped h).1, rfl⟩⟩,
      ⟨?_, rfl, ha.2⟩, hf⟩
    exact ha.1.imp_right fun h => h.1
  | stopUnsubscribed h =>
    obtain ⟨hl, hb, hn⟩ := ha
    obtain ⟨hc', he, -⟩ := unsubscribe_spec (v := view s) hl hc h
    exact ⟨hc', ⟨he, hb, hn⟩, hf⟩
  | stopUnsubscribeFails h =>
    obtain ⟨hl, hb, hn⟩ := ha
    obtain ⟨-, -, he⟩ := unsubscribe_spec (v := view s) hl hc h
    obtain ⟨hz, hr⟩ := he _ rfl
    exact absurd (hr.symm.trans (hok hz rfl)) (by simp)
  | emptiedExactlyOnce => exact ⟨hc, ha, hf⟩
  | exactlyOnceFails hr => exact stopPublish_raises hc ha fun hz => hr.symm.trans (hok hz rfl)
  | emptiedAtMostOnce => exact ⟨hc, ha, hf⟩
  | atMostOnceFails hr => exact stopPublish_raises hc ha fun hz => hr.symm.trans (hok hz rfl)
  | handleCleared =>
    exact ⟨⟨hc.newSubscribers, hc.iterating, fun h => ⟨rfl, (hc.stopped h).2⟩⟩,
      ⟨rfl, ha⟩, hf⟩
  | disconnected =>
    obtain ⟨hz, he, hb, hn⟩ := ha
    refine ⟨⟨hc.newSubscribers, hc.iterating, fun _ => ⟨hz, hb⟩⟩,
      ⟨Or.inl ⟨hz, he⟩, fun h => absurd (hb.symm.trans h) (by simp),
        fun h => absurd (hn.symm.trans h) (by simp)⟩, fun he => absurd he hf⟩

namespace View

def subscribed (v : View) (cell : Address) : View :=
  { v with mq := (v.mq.subscribe (subscription cell) true).1, handle := cell }

variable {v : View} {cell : Address}

theorem Linked.subscribed (h : v.Linked) (hc : v.Calm) (hz : v.handle = 0)
    (hb : v.connectCb = true) (hl : v.loop = true) (hcell : cell ≠ 0) :
    (v.subscribed cell).Calm ∧ (v.subscribed cell).Linked := by
  have he : v.Absent := by
    rcases h with h | h
    · exact h.2
    · exact absurd hz h.1.1
  have hn : v.stopped = false := by
    by_contra hs
    exact absurd (hb.symm.trans (hc.stopped (by simpa using hs)).2) (by simp)
  obtain ⟨hc', hs⟩ := subscribe_spec he hc hn cell
  exact ⟨hc', Or.inr ⟨⟨hcell, hs, hl⟩, hb⟩⟩

theorem Settled.subscribed (h : v.Settled) (hc : v.Calm) (hz : v.handle = 0)
    (hb : v.connectCb = true) (hl : v.loop = true) (hcell : cell ≠ 0) :
    (v.subscribed cell).Settled :=
  ⟨(h.linked.subscribed hc hz hb hl hcell).2, h.heard, h.connected⟩

theorem At.linked_of_null {pc : Statement} (h : v.At pc) (hz : v.handle = 0)
    (hb : v.connectCb = true) : v.Linked := by
  cases pc with
  | startConnect => exact h.1
  | stopSetConnectionCallback => exact h.1
  | restartSubscribe => exact absurd hz h.1
  | stopUnsubscribe => exact absurd (hb.symm.trans h.2.1) (by simp)
  | stopPublishExactlyOnce => exact absurd (hb.symm.trans h.2.1) (by simp)
  | stopPublishAtMostOnce => exact absurd (hb.symm.trans h.2.1) (by simp)
  | stopClearHandle => exact absurd (hb.symm.trans h.2.1) (by simp)
  | stopDisconnect => exact absurd (hb.symm.trans h.2.2.1) (by simp)
  | startGuard => exact Settled.linked h
  | restartGuard => exact Settled.linked h
  | stopRunning => exact Settled.linked h
  | _ => exact h.1.linked

theorem At.subscribed {pc : Statement} (h : v.At pc) (hc : v.Calm) (hz : v.handle = 0)
    (hb : v.connectCb = true) (hl : v.loop = true) (hcell : cell ≠ 0) :
    (v.subscribed cell).At pc := by
  have hlinked := ((h.linked_of_null hz hb).subscribed hc hz hb hl hcell).2
  cases pc with
  | startConnect => exact ⟨hlinked, h.2⟩
  | stopSetConnectionCallback => exact ⟨hlinked, h.2⟩
  | restartUnsubscribe => exact absurd hz h.2
  | restartSubscribe => exact absurd hz h.1
  | stopUnsubscribe => exact absurd (hb.symm.trans h.2.1) (by simp)
  | stopPublishExactlyOnce => exact absurd (hb.symm.trans h.2.1) (by simp)
  | stopPublishAtMostOnce => exact absurd (hb.symm.trans h.2.1) (by simp)
  | stopClearHandle => exact absurd (hb.symm.trans h.2.1) (by simp)
  | stopDisconnect => exact absurd (hb.symm.trans h.2.2.1) (by simp)
  | startGuard => exact ⟨hlinked, h.heard, h.connected⟩
  | restartGuard => exact ⟨hlinked, h.heard, h.connected⟩
  | stopRunning => exact ⟨hlinked, h.heard, h.connected⟩
  | _ => exact ⟨⟨hlinked, h.1.heard, h.1.connected⟩, h.2⟩

theorem Linked.length_le (h : v.Linked) : v.mq.subscribers.length ≤ 1 := by
  rcases h with ⟨-, h⟩ | ⟨⟨-, h, -⟩, -⟩
  · rw [show v.mq.subscribers = [] from h]; exact Nat.zero_le _
  · rw [h]; exact le_rfl

theorem Absent.length_le (h : v.Absent) : v.mq.subscribers.length ≤ 1 := by
  rw [show v.mq.subscribers = [] from h]; exact Nat.zero_le _

theorem At.length_le {pc : Statement} (h : v.At pc) : v.mq.subscribers.length ≤ 1 := by
  cases pc with
  | startConnect => exact h.1.length_le
  | stopSetConnectionCallback => exact h.1.length_le
  | restartSubscribe => exact h.2.1.length_le
  | stopUnsubscribe =>
    rcases h.1 with hl | hp
    · exact hl.2.length_le
    · rw [hp.2.1]; exact le_rfl
  | stopPublishExactlyOnce => exact h.1.length_le
  | stopPublishAtMostOnce => exact h.1.length_le
  | stopClearHandle => exact h.1.length_le
  | stopDisconnect => exact h.2.1.length_le
  | startGuard => exact (Settled.linked h).length_le
  | restartGuard => exact (Settled.linked h).length_le
  | stopRunning => exact (Settled.linked h).length_le
  | _ => exact h.1.linked.length_le

end View

theorem Place.length_le {v : View} {c : Control} (h : Place v c) :
    v.mq.subscribers.length ≤ 1 := by
  cases c with
  | discovery pc caller => exact h.1.length_le
  | mqConnect => exact h.1.linked.length_le
  | terminated => exact h
  | _ => exact h.linked.length_le

/-- Between two operations the handle is settled. -/
theorem Place.settled {v : View} {c : Control} (h : Place v c)
    (hn : ∀ pc caller, c ≠ .discovery pc caller) (ht : c ≠ .terminated) : v.Settled := by
  cases c with
  | discovery pc caller => exact absurd rfl (hn pc caller)
  | mqConnect => exact h.1
  | terminated => exact absurd rfl ht
  | _ => exact h

theorem Place.subscribed {v : View} {c : Control} {cell : Address} (h : Place v c)
    (hc : v.Calm) (hz : v.handle = 0) (hb : v.connectCb = true) (hl : v.loop = true)
    (hcell : cell ≠ 0) (hn : c ≠ .terminated) :
    (v.subscribed cell).Calm ∧ Place (v.subscribed cell) c := by
  cases c with
  | discovery pc caller =>
    exact ⟨((h.1.linked_of_null hz hb).subscribed hc hz hb hl hcell).1,
      h.1.subscribed hc hz hb hl hcell, h.2⟩
  | mqConnect =>
    exact ⟨(h.1.linked.subscribed hc hz hb hl hcell).1,
      h.1.subscribed hc hz hb hl hcell, h.2⟩
  | terminated => exact absurd rfl hn
  | _ =>
    exact ⟨(h.linked.subscribed hc hz hb hl hcell).1, View.Settled.subscribed h hc hz hb hl hcell⟩

/-- The link goes up or down; nothing the handle depends on changes. -/
theorem view_connectionStatus (s : State) (status : AittConnectionState) :
    view (connectionStatus s status) = view s := by
  cases status <;> rfl

theorem Invariant.of_same {s t : State} (h : Invariant s) (hv : view t = view s)
    (hc : t.control = s.control) : Invariant t :=
  ⟨by rw [hv]; exact h.calm, by rw [hv, hc]; exact h.place⟩

theorem invariant_initial : Invariant initial := by
  refine ⟨⟨rfl, rfl, fun h => ?_⟩, ⟨Or.inl ⟨rfl, rfl⟩, fun h => ?_, fun h => ?_⟩⟩ <;> cases h

theorem invariant_call {s : State} (hi : Invariant s) (hc : s.control = .idle) (c : Call) :
    Invariant { s with control := c.entry } := by
  have hs : (view s).Settled := by
    have := hi.place
    rwa [hc] at this
  refine ⟨hi.calm, ?_⟩
  cases c with
  | start => exact ⟨hs, Or.inl rfl⟩
  | restart => exact ⟨hs, rfl⟩
  | stop => exact ⟨hs, Caller.noConfusion⟩
  | connect => exact ⟨hs, Or.inr rfl⟩
  | disconnect => exact hs

theorem invariant_statement {s t : State} {ret : Bool} {cell : Address} {pc : Statement}
    {caller : Caller} {flow : Flow} (hi : Invariant s) (hc : s.control = .discovery pc caller)
    (hok : Allowed s (.advance ret cell)) (h : Exec s ret cell pc t flow) :
    Invariant (resume caller (t, flow)) := by
  have hp := hi.place
  rw [hc] at hp
  obtain ⟨hcalm, hl⟩ := exec_lands h hi.calm hp.1 hp.2 fun hz he =>
    hok hz (by simpa [hc, Control.statement] using he)
  cases flow with
  | next pc' => exact ⟨hcalm, hl⟩
  | returns =>
    refine ⟨hcalm, ?_⟩
    cases caller with
    | connect => exact ⟨hl.1, hl.2 rfl⟩
    | _ => exact hl.1
  | raises =>
    refine ⟨hcalm, ?_⟩
    cases caller <;> exact hl

theorem invariant_step {s t : State} {e : Event} (hi : Invariant s) (hok : Allowed s e)
    (h : Step s e t) : Invariant t := by
  cases h with
  | call hc => exact invariant_call hi hc _
  | statement hc h => exact invariant_statement hi hc hok h
  | mqConnected hc =>
    have hp := hi.place
    rw [hc] at hp
    exact ⟨⟨hi.calm.newSubscribers, hi.calm.iterating, hi.calm.stopped⟩,
      ⟨hp.1.linked, hp.1.heard, fun _ => hp.2⟩⟩
  | elsewhere hn ht hc =>
    have hs := hi.place.settled hn ht
    refine ⟨hi.calm, ?_⟩
    cases hc with
    | stop h => exact ⟨hs, h⟩
    | _ => exact hs
  | @unheard status ret cell =>
    exact hi.of_same (view_connectionStatus s status) (connectionStatus_control s status)
  | @lost status ret cell hl hb hs =>
    exact hi.of_same (view_connectionStatus s status) (connectionStatus_control s status)
  | subscribed ht hl hb hz ha =>
    obtain ⟨hc, hp⟩ := hi.place.subscribed hi.calm hz hb hl ha.1 ht
    exact ⟨hc, hp⟩
  | terminated => exact ⟨hi.calm, hi.place.length_le⟩
  | known => exact hi.of_same rfl rfl
  | update => exact hi.of_same rfl rfl
  | build => exact hi.of_same rfl rfl
  | publish => exact hi.of_same rfl rfl

theorem invariant_reaches {s : State} (h : machine.Reaches Allowed s) : Invariant s :=
  h.invariant invariant_initial fun _ _ _ _ hi ho he => invariant_step hi ho (step_cases he)

/-- On a heard client `AITT_CONNECTED` makes the subscription or finds it in place. -/
theorem connected_subscribes {s : State} (hs : (view s).Settled) (hcalm : (view s).Calm)
    (hc : s.control = .idle) (hb : s.connectCb = true) (hl : s.loop = true) {cell : Address}
    (ha : Allocatable s.mq (subscription cell)) :
    ∃ t, machine.step s (.connection .connected true cell) = some t ∧
      ∃ d ∈ t.mq.subscribers, d.topic = discoveryFilter ∧ d.handle = t.callbackHandle := by
  have ht : s.control ≠ .terminated := by simp [hc]
  have hstep := step_connected ht hl hb true cell
  by_cases hz : s.callbackHandle = 0
  · refine ⟨_, hstep.trans (connectionCallback_subscribes
      (s := noteStatus (connectionStatus s .connected) .connected) hz ha),
      subscription cell, ?_, rfl, rfl⟩
    obtain ⟨-, hlinked⟩ := hs.linked.subscribed hcalm hz hb hl ha.1
    obtain ⟨hp, -⟩ := hlinked.handle_present ha.1
    have he : (s.mq.subscribe (subscription cell) true).1.subscribers = [subscription cell] :=
      hp.2.1
    exact he.symm ▸ List.mem_singleton_self _
  · refine ⟨_, hstep.trans (connectionCallback_known
      (s := noteStatus (connectionStatus s .connected) .connected) hz true cell),
      subscription s.callbackHandle, ?_, rfl, rfl⟩
    obtain ⟨hp, -⟩ := hs.linked.handle_present hz
    have he : s.mq.subscribers = [subscription s.callbackHandle] := hp.2.1
    simp [noteStatus, State.note, connectionStatus, he]

theorem Invariant.sound {s : State} (hi : Invariant s) : HandleSound s := by
  have idle : s.control = .idle → (view s).Settled := fun hc => by
    have := hi.place
    rwa [hc] at this
  refine ⟨fun hc => ?_, ?_, fun h => (hi.calm.stopped h).1, fun hc hconn => ?_⟩
  · rcases (idle hc).linked with ⟨hz, -⟩ | ⟨hp, -⟩
    · exact Or.inl hz
    · refine Or.inr ⟨subscription s.callbackHandle, ?_, rfl⟩
      rw [show s.mq.subscribers = _ from hp.2.1]
      exact List.mem_singleton_self _
  · exact (List.length_filter_le _ _).trans hi.place.length_le
  · obtain ⟨hb, hl⟩ := (idle hc).connected hconn
    exact ⟨(idle hc).heard hb, hl,
      fun cell ha => connected_subscribes (idle hc) hi.calm hc hb hl ha⟩

/-- A failing call of an exposed statement leaves the handle of a deleted subscription. -/
theorem exposed_failure_breaks {s t : State} {cell : Address} {pc : Statement} {caller : Caller}
    {flow : Flow} (hi : Invariant s) (hc : s.control = .discovery pc caller)
    (hz : s.callbackHandle ≠ 0) (he : Exposed pc = true) (h : Exec s false cell pc t flow) :
    ¬ HandleSound (resume caller (t, flow)) := by
  have hp := hi.place
  rw [hc] at hp
  obtain ⟨ha, hf⟩ := hp
  cases h with
  | restartUnsubscribed h =>
    obtain ⟨hp, -⟩ := ha.1.linked.handle_present hz
    have hs : s.mq.subscribers = [subscription s.callbackHandle] := hp.2.1
    rw [unsubscribe_only hz hs] at h
    cases h
  | restartUnsubscribeFails h =>
    obtain ⟨hp, -⟩ := ha.1.linked.handle_present hz
    obtain ⟨-, he, -⟩ := unsubscribe_spec (v := view s) (Or.inr hp) hi.calm h
    obtain rfl : caller = .application := hf
    intro hs
    rcases hs.live rfl with h0 | ⟨d, hd, -⟩
    · exact hz h0
    · exact List.ne_nil_of_mem hd he
  | restartSubscribeFails =>
    obtain rfl : caller = .application := hf
    intro hs
    rcases hs.live rfl with h0 | ⟨d, hd, -⟩
    · exact hz h0
    · exact List.ne_nil_of_mem hd ha.2.1
  | stopUnsubscribed h =>
    rcases ha.1 with ⟨h0, -⟩ | hp
    · exact absurd h0 hz
    · have hs : s.mq.subscribers = [subscription s.callbackHandle] := hp.2.1
      rw [unsubscribe_only hz hs] at h
      cases h
  | stopUnsubscribeFails => exact fun hs => hz (hs.stopped rfl)
  | exactlyOnceFails => exact fun hs => hz (hs.stopped rfl)
  | atMostOnceFails => exact fun hs => hz (hs.stopped rfl)
  | emptiedExactlyOnce hr => cases hr
  | emptiedAtMostOnce hr => cases hr
  | restartSubscribed hr => cases hr
  | _ => cases he

theorem step_sound_iff {s t : State} {e : Event} (hi : Invariant s) (h : Step s e t) :
    HandleSound t ↔ Allowed s e := by
  constructor
  · intro hs
    cases h with
    | @statement pc caller ret cell t flow hc h =>
      intro hz he
      cases ret with
      | true => rfl
      | false =>
        have hp : Exposed pc = true := by simpa [hc, Control.statement] using he
        exact absurd hs (exposed_failure_breaks hi hc hz hp h)
    | mqConnected hc => simp [Allowed, hc, Control.statement]
    | elsewhere hn =>
      intro _ he
      cases hc : s.control with
      | discovery pc caller => exact absurd hc (hn pc caller)
      | _ => simp [hc, Control.statement] at he
    | _ => trivial
  · intro hok
    exact (invariant_step hi hok h).sound

/-- Along runs that meet the condition the handle is null or live, and the next step of such
a run keeps it so exactly when that step meets the condition too. -/
theorem discovery_handle_null_or_live {s : State} (h : machine.Reaches Allowed s) :
    HandleSound s ∧ ∀ e t, machine.step s e = some t → (HandleSound t ↔ Allowed s e) := by
  have hi := invariant_reaches h
  exact ⟨hi.sound, fun e t he => step_sound_iff hi (step_cases he)⟩

def connectAndSubscribe : List Event :=
  [.call .connect] ++ List.replicate 6 (.advance true 0) ++ [.connection .connected true 1]

def stopAndConnect : List Event :=
  connectAndSubscribe ++ [.call .stop] ++ List.replicate 7 (.advance true 0) ++
    [.call .connect] ++ List.replicate 6 (.advance true 0) ++ [.connection .connected true 2]

theorem discovery_handle_after_restart :
    ∃ s, machine.Reaches Allowed s ∧ s.callbackHandle = 2 ∧ s.history.connected = true ∧
      HandleSound s := by
  obtain ⟨s, hr, hp⟩ := machine.exists_reaches Allowed stopAndConnect
    (fun s => s.callbackHandle = 2 ∧ s.history.connected = true) (by decide)
  obtain ⟨hc, hn⟩ := of_decide_eq_true hp
  exact ⟨s, hr, hc, hn, (discovery_handle_null_or_live hr).1⟩

def failedStop : List Event :=
  connectAndSubscribe ++ [.connection .disconnected true 0, .call .stop] ++
    List.replicate 3 (.advance true 0) ++ [.advance false 0] ++
    [.call .connect] ++ List.replicate 2 (.advance true 0)

/-- After a `Stop` that threw, `Connect` returns normally and has not called the discovery
client's `Connect`; the handle belongs to no subscriber. -/
theorem failed_stop_leaves_a_dangling_handle :
    ∃ s, machine.Reachable s ∧ (s.control = .idle ∧ s.callbackHandle = 1 ∧
      s.mq.subscribers = [] ∧ s.history.stopped = true ∧ s.history.connected = true ∧
      s.history.dialled = false) ∧ ¬ HandleSound s := by
  obtain ⟨s, hr, hp⟩ := machine.exists_reachable failedStop
    (fun s => s.control = .idle ∧ s.callbackHandle = 1 ∧ s.mq.subscribers = [] ∧
      s.history.stopped = true ∧ s.history.connected = true ∧ s.history.dialled = false)
    (by decide)
  obtain ⟨hc, hh, hs, hst, hn, hd⟩ := of_decide_eq_true hp
  refine ⟨s, hr, ⟨hc, hh, hs, hst, hn, hd⟩, fun h => ?_⟩
  have h0 := h.stopped hst
  rw [hh] at h0
  cases h0

end DiscoveryHandle
