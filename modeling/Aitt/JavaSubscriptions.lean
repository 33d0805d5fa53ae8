import Aitt.NestedMaps
import Aitt.TransitionRuns

/-! The subscriptions of the Java library: two tables and a map of handlers in `Aitt`, one
table in `JniInterface` and the subscriptions of the native library below, all by topic. -/
namespace JavaSubscriptions

open NestedMaps TransitionRuns

inductive Protocol where
  | mqtt
  | tcp
  | tcpSecure
  | webrtc
  | ipc
  | rtsp
  deriving DecidableEq, Repr

def Protocol.values : List Protocol := [.mqtt, .tcp, .tcpSecure, .webrtc, .ipc, .rtsp]

def isUsingNativePubSub : Protocol → Bool
  | .mqtt | .tcp | .tcpSecure => true
  | .webrtc | .ipc | .rtsp => false

/-- Whether `createModuleHandler` gives a `TransportHandler`. The handlers of streams are not;
the exception of the cast is caught. -/
def isTransportHandler : Protocol → Bool
  | .ipc => true
  | _ => false

def discoveryTopic : String := "/java/aitt/discovery/"

variable {κ : Type}

/-- Subscriptions of the native library have their id and their filter, handlers that have
subscribed their number and their topic. `JniInterface` keeps the objects that evaluating
`this::messageCallback` has given. -/
structure State (κ : Type) where
  subscribeCallbacks : Map String (List κ) := ∅
  aittSubId : Map String ℕ := ∅
  subscribeMap : Map String (Protocol × ℕ) := ∅
  jniCallbacks : Map String (List ℕ) := ∅
  native : List (ℕ × String) := []
  handlers : List (ℕ × String) := []
  next : ℕ := 1

def addCallBackToSubscribeMap [DecidableEq κ] (map : Map String (List κ)) (topic : String)
    (callback : κ) : Map String (List κ) :=
  match map.lookup topic with
  | some cbList =>
    if callback ∉ cbList then map.insert topic (cbList ++ [callback])
    else map.insert topic [callback]
  | none => map.insert topic [callback]

def addJniCallback (map : Map String (List ℕ)) (topic : String) (callback : ℕ) :
    Map String (List ℕ) :=
  match map.lookup topic with
  | some cbList =>
    if callback ∉ cbList then map.insert topic (cbList ++ [callback]) else map
  | none => map.insert topic [callback]

namespace State

/-- `JniInterface.subscribe`; the native library gives a null id when it refuses. -/
def jniSubscribe (s : State κ) (topic : String) (callback : ℕ) (accepted : Bool) : State κ :=
  { s with
    jniCallbacks := addJniCallback s.jniCallbacks topic callback
    native := if accepted then s.native ++ [(s.next, topic)] else s.native
    next := s.next + 1 }

def setSubId (s : State κ) (topic : String) (id : ℕ) : State κ :=
  { s with aittSubId := s.aittSubId.insert topic id }

def subscribeNative (s : State κ) (topic : String) (callback : ℕ) (accepted : Bool) : State κ :=
  (s.jniSubscribe topic callback accepted).setSubId topic (if accepted then s.next else 0)

def subscribeTransport (s : State κ) (topic : String) (p : Protocol) : State κ :=
  if isTransportHandler p then
    { s with
      subscribeMap := s.subscribeMap.insert topic (p, s.next)
      handlers := s.handlers ++ [(s.next, topic)]
      next := s.next + 1 }
  else s

def addCallback [DecidableEq κ] (s : State κ) (topic : String) (callback : κ) : State κ :=
  { s with subscribeCallbacks := addCallBackToSubscribeMap s.subscribeCallbacks topic callback }

/-- `subscribe`; `none` is the exception for invalid arguments. -/
def subscribe [DecidableEq κ] (s : State κ) (topic : String) (callback : κ)
    (protocols : Protocol → Bool) (jniCallback : ℕ) (accepted : Bool) : Option (State κ) :=
  if topic = "" then none
  else if Protocol.values.any protocols = false then none
  else
    let chosen := Protocol.values.filter protocols
    let s := if chosen.any isUsingNativePubSub then
      s.subscribeNative topic jniCallback accepted else s
    let s := (chosen.filter (!isUsingNativePubSub ·)).foldl
      (fun s p => s.subscribeTransport topic p) s
    some (s.addCallback topic callback)

def jniUnsubscribe (s : State κ) (topic : String) (id : ℕ) : State κ :=
  { s with
    jniCallbacks := s.jniCallbacks.erase topic
    native := s.native.filter (·.1 ≠ id) }

def removeHandler (s : State κ) (topic : String) (handler : ℕ) : State κ :=
  { s with
    subscribeMap := s.subscribeMap.erase topic
    handlers := s.handlers.filter (·.1 ≠ handler) }

def forget (s : State κ) (topic : String) : State κ :=
  { s with
    subscribeCallbacks := s.subscribeCallbacks.erase topic
    aittSubId := s.aittSubId.erase topic }

def unsubscribeNative (s : State κ) (topic : String) : State κ :=
  match s.aittSubId.lookup topic with
  | some id => s.jniUnsubscribe topic id
  | none => s

def unsubscribe (s : State κ) (topic : String) : Option (State κ) :=
  if topic = "" then none
  else
    match s.subscribeMap.lookup topic with
    | some (.webrtc, handler) => some ((s.removeHandler topic handler).forget topic)
    | _ => some ((s.unsubscribeNative topic).forget topic)

end State

inductive Event (κ : Type) where
  | connect (jniCallback : ℕ) (accepted : Bool)
  | subscribe (topic : String) (callback : κ) (protocols : Protocol → Bool) (jniCallback : ℕ)
      (accepted : Bool)
  | unsubscribe (topic : String)

def State.step [DecidableEq κ] (s : State κ) : Event κ → Option (State κ)
  | .connect jniCallback accepted => some (s.jniSubscribe discoveryTopic jniCallback accepted)
  | .subscribe topic callback protocols jniCallback accepted =>
    s.subscribe topic callback protocols jniCallback accepted
  | .unsubscribe topic => s.unsubscribe topic

def machine (κ : Type) [DecidableEq κ] : Machine (State κ) (Event κ) where
  initial := {}
  step := State.step

def State.callbacks (s : State κ) (topic : String) : List κ :=
  (s.subscribeCallbacks.lookup topic).getD []

def added [DecidableEq κ] (cbList : List κ) (callback : κ) : List κ :=
  if callback ∈ cbList then cbList else cbList ++ [callback]

structure Gone (s : State κ) (topic : String) : Prop where
  native : ∀ n ∈ s.native, n.2 ≠ topic
  handlers : ∀ h ∈ s.handlers, h.2 ≠ topic
  subscribeMap : s.subscribeMap.lookup topic = none
  jniCallbacks : s.jniCallbacks.lookup topic = none
  subscribeCallbacks : s.subscribeCallbacks.lookup topic = none
  aittSubId : s.aittSubId.lookup topic = none

structure Same (s t : State κ) (topic : String) : Prop where
  native : t.native.filter (·.2 = topic) = s.native.filter (·.2 = topic)
  handlers : t.handlers.filter (·.2 = topic) = s.handlers.filter (·.2 = topic)
  subscribeMap : t.subscribeMap.lookup topic = s.subscribeMap.lookup topic
  jniCallbacks : t.jniCallbacks.lookup topic = s.jniCallbacks.lookup topic
  subscribeCallbacks : t.subscribeCallbacks.lookup topic = s.subscribeCallbacks.lookup topic
  aittSubId : t.aittSubId.lookup topic = s.aittSubId.lookup topic

/-- The topic has at most the native subscription that its id is of, and no handler. -/
structure Removable (s : State κ) (topic : String) : Prop where
  native : ∀ n ∈ s.native, n.2 = topic → s.aittSubId.lookup topic = some n.1
  handlers : ∀ h ∈ s.handlers, h.2 ≠ topic
  jniCallbacks : s.aittSubId.lookup topic = none → s.jniCallbacks.lookup topic = none

theorem Same.refl (s : State κ) (topic : String) : Same s s topic := ⟨rfl, rfl, rfl, rfl, rfl, rfl⟩

variable {s t u : State κ} {topic other : String} {callback : κ} {jniCallback : ℕ}
  {accepted : Bool} {protocols : Protocol → Bool}

theorem Same.trans (h : Same s t topic) (k : Same t u topic) : Same s u topic :=
  ⟨k.native.trans h.native, k.handlers.trans h.handlers, k.subscribeMap.trans h.subscribeMap,
    k.jniCallbacks.trans h.jniCallbacks, k.subscribeCallbacks.trans h.subscribeCallbacks,
    k.aittSubId.trans h.aittSubId⟩

theorem filter_append_other (l : List (ℕ × String)) (n : ℕ) (h : other ≠ topic) :
    (l ++ [(n, topic)]).filter (·.2 = other) = l.filter (·.2 = other) := by
  simp [List.filter_append, Ne.symm h]

theorem lookup_addJniCallback_of_ne (map : Map String (List ℕ)) (h : other ≠ topic) :
    (addJniCallback map topic jniCallback).lookup other = map.lookup other := by
  unfold addJniCallback
  split
  · split
    · exact AList.lookup_insert_ne h
    · rfl
  · exact AList.lookup_insert_ne h

theorem lookup_addCallBack_of_ne [DecidableEq κ] (map : Map String (List κ)) (h : other ≠ topic) :
    (addCallBackToSubscribeMap map topic callback).lookup other = map.lookup other := by
  unfold addCallBackToSubscribeMap
  split
  · split <;> exact AList.lookup_insert_ne h
  · exact AList.lookup_insert_ne h

theorem same_jniSubscribe (s : State κ) (h : other ≠ topic) :
    Same s (s.jniSubscribe topic jniCallback accepted) other := by
  refine ⟨?_, rfl, rfl, lookup_addJniCallback_of_ne _ h, rfl, rfl⟩
  cases accepted with
  | false => rfl
  | true => exact filter_append_other _ _ h

theorem same_subscribeNative (s : State κ) (h : other ≠ topic) :
    Same s (s.subscribeNative topic jniCallback accepted) other := by
  refine (same_jniSubscribe s h).trans ⟨rfl, rfl, rfl, rfl, rfl, ?_⟩
  exact AList.lookup_insert_ne h

theorem same_subscribeTransport (s : State κ) (p : Protocol) (h : other ≠ topic) :
    Same s (s.subscribeTransport topic p) other := by
  unfold State.subscribeTransport
  split
  · exact ⟨rfl, filter_append_other _ _ h, AList.lookup_insert_ne h, rfl, rfl, rfl⟩
  · exact .refl s other

theorem same_subscribeTransports (ps : List Protocol) (s : State κ) (h : other ≠ topic) :
    Same s (ps.foldl (fun s p => s.subscribeTransport topic p) s) other := by
  induction ps generalizing s with
  | nil => exact .refl s other
  | cons p ps ih => exact (same_subscribeTransport s p h).trans (ih _)

theorem same_addCallback [DecidableEq κ] (s : State κ) (h : other ≠ topic) :
    Same s (s.addCallback topic callback) other :=
  ⟨rfl, rfl, rfl, rfl, lookup_addCallBack_of_ne _ h, rfl⟩

/-- The native part, the handlers and the table of callbacks, one after the other. -/
theorem subscribe_cases [DecidableEq κ]
    (h : s.subscribe topic callback protocols jniCallback accepted = some t) :
    topic ≠ "" ∧ ∃ v, (v = s ∨ v = s.subscribeNative topic jniCallback accepted) ∧
      ∃ ps : List Protocol, (∀ p ∈ ps, isUsingNativePubSub p = false) ∧
        t = (ps.foldl (fun s p => s.subscribeTransport topic p) v).addCallback topic callback := by
  unfold State.subscribe at h
  split at h
  · cases h
  · rename_i htopic
    split at h
    · cases h
    · cases h
      refine ⟨htopic, _, ?_, _, ?_, rfl⟩
      · split
        · exact .inr rfl
        · exact .inl rfl
      · intro p hp
        simpa using (List.mem_filter.mp hp).2

theorem same_subscribe [DecidableEq κ]
    (h : s.subscribe topic callback protocols jniCallback accepted = some t)
    (hne : other ≠ topic) : Same s t other := by
  obtain ⟨-, v, hv, ps, -, rfl⟩ := subscribe_cases h
  have hs : Same s v other := by
    rcases hv with rfl | rfl
    · exact .refl _ other
    · exact same_subscribeNative s hne
  exact (hs.trans (same_subscribeTransports ps v hne)).trans (same_addCallback _ hne)

@[simp] theorem subscribeTransports_callbacks (ps : List Protocol) (s : State κ) :
    (ps.foldl (fun s p => s.subscribeTransport topic p) s).subscribeCallbacks =
      s.subscribeCallbacks := by
  induction ps generalizing s with
  | nil => rfl
  | cons p ps ih =>
    refine (ih _).trans ?_
    cases hp : isTransportHandler p <;> simp [State.subscribeTransport, hp]

theorem subscribe_callbacks [DecidableEq κ]
    (h : s.subscribe topic callback protocols jniCallback accepted = some t) :
    t.subscribeCallbacks = addCallBackToSubscribeMap s.subscribeCallbacks topic callback := by
  obtain ⟨-, v, hv, ps, -, rfl⟩ := subscribe_cases h
  rw [State.addCallback, subscribeTransports_callbacks]
  rcases hv with rfl | rfl <;> rfl

/-- A callback that is there already takes the place of the whole list. -/
theorem callbacks_subscribe [DecidableEq κ]
    (h : s.subscribe topic callback protocols jniCallback accepted = some t) :
    t.callbacks topic =
      if callback ∈ s.callbacks topic then [callback] else s.callbacks topic ++ [callback] := by
  rw [State.callbacks, subscribe_callbacks h, addCallBackToSubscribeMap, State.callbacks]
  cases s.subscribeCallbacks.lookup topic with
  | none => simp
  | some cbList =>
    by_cases hc : callback ∈ cbList
    · simp [hc]
    · simp [hc]

theorem callbacks_subscribe_iff [DecidableEq κ]
    (h : s.subscribe topic callback protocols jniCallback accepted = some t) :
    t.callbacks topic = added (s.callbacks topic) callback ↔
      (callback ∈ s.callbacks topic → s.callbacks topic = [callback]) := by
  rw [callbacks_subscribe h, added]
  by_cases hc : callback ∈ s.callbacks topic
  · simp only [hc, if_true, true_implies, eq_comm]
  · simp [hc]

structure Numbered (s : State κ) : Prop where
  positive : 0 < s.next
  native : ∀ n ∈ s.native, 0 < n.1 ∧ n.1 < s.next
  known : ∀ topic id, s.aittSubId.lookup topic = some id → id < s.next
  subId : ∀ topic id, s.aittSubId.lookup topic = some id → ∀ n ∈ s.native, n.1 = id → n.2 = topic
  handler : ∀ topic p h, s.subscribeMap.lookup topic = some (p, h) →
    p = .ipc ∧ (h, topic) ∈ s.handlers

theorem Numbered.jniSubscribe (h : Numbered s) :
    Numbered (s.jniSubscribe topic jniCallback accepted) := by
  have hn : ∀ n ∈ (s.jniSubscribe topic jniCallback accepted).native,
      n ∈ s.native ∨ n = (s.next, topic) := by
    intro n hn
    cases accepted with
    | false => exact .inl hn
    | true =>
      rcases List.mem_append.mp hn with hn | hn
      · exact .inl hn
      · exact .inr (List.mem_singleton.mp hn)
  refine ⟨Nat.succ_pos _, fun n hm => ?_,
    fun t id ht => (h.known t id ht).trans (Nat.lt_succ_self _),
    fun t id ht n hm he => ?_, h.handler⟩
  · rcases hn n hm with hm | rfl
    · exact ⟨(h.native n hm).1, (h.native n hm).2.trans (Nat.lt_succ_self _)⟩
    · exact ⟨h.positive, Nat.lt_succ_self _⟩
  · rcases hn n hm with hm | rfl
    · exact h.subId t id ht n hm he
    · have hlt := h.known t id ht
      exact absurd hlt (by rw [← he]; exact lt_irrefl _)

theorem Numbered.subscribeNative (h : Numbered s) :
    Numbered (s.subscribeNative topic jniCallback accepted) := by
  have hj : Numbered (s.jniSubscribe topic jniCallback accepted) := h.jniSubscribe
  refine ⟨hj.positive, hj.native, fun t id ht => ?_, fun t id ht n hm he => ?_, hj.handler⟩
  · rcases lookup_insert_eq_some.mp ht with ⟨-, rfl⟩ | ⟨-, ht⟩
    · cases accepted with
      | false => exact Nat.succ_pos _
      | true => exact Nat.lt_succ_self _
    · exact hj.known t id ht
  · rcases lookup_insert_eq_some.mp ht with ⟨rfl, rfl⟩ | ⟨-, ht⟩
    · cases accepted with
      | false => exact absurd he (h.native n hm).1.ne'
      | true =>
        rcases List.mem_append.mp hm with hm | hm
        · exact absurd he (h.native n hm).2.ne
        · rw [List.mem_singleton.mp hm]
    · exact hj.subId t id ht n hm he

theorem Numbered.subscribeTransport (h : Numbered s) {p : Protocol}
    (hp : isUsingNativePubSub p = false) : Numbered (s.subscribeTransport topic p) := by
  have hlt := Nat.lt_succ_self s.next
  cases p with
  | mqtt | tcp | tcpSecure => cases hp
  | webrtc | rtsp => exact h
  | ipc =>
    refine ⟨Nat.succ_pos _, fun n hn => ⟨(h.native n hn).1, (h.native n hn).2.trans hlt⟩,
      fun t id ht => (h.known t id ht).trans hlt, h.subId, fun t p m hm => ?_⟩
    rcases lookup_insert_eq_some.mp hm with ⟨rfl, he⟩ | ⟨-, hm⟩
    · cases he
      exact ⟨rfl, List.mem_append_right _ (List.mem_singleton_self _)⟩
    · exact ⟨(h.handler t p m hm).1, List.mem_append_left _ (h.handler t p m hm).2⟩

theorem Numbered.subscribe [DecidableEq κ] (h : Numbered s)
    (ht : s.subscribe topic callback protocols jniCallback accepted = some t) : Numbered t := by
  obtain ⟨-, v, hv, ps, hps, rfl⟩ := subscribe_cases ht
  have hnv : Numbered v := by
    rcases hv with rfl | rfl
    · exact h
    · exact h.subscribeNative
  suffices hf : Numbered (ps.foldl (fun s p => s.subscribeTransport topic p) v) from
    ⟨hf.positive, hf.native, hf.known, hf.subId, hf.handler⟩
  clear hv ht
  induction ps generalizing v with
  | nil => exact hnv
  | cons p ps ih =>
    refine ih _ (fun q hq => hps q (List.mem_cons_of_mem _ hq)) ?_
    exact hnv.subscribeTransport (hps p List.mem_cons_self)

/-- No handler of a reachable state is a WebRTC handler, so `unsubscribe` turns to the native
library. -/
theorem unsubscribe_eq (h : Numbered s) (ht : s.unsubscribe topic = some t) :
    topic ≠ "" ∧ t = (s.unsubscribeNative topic).forget topic := by
  unfold State.unsubscribe at ht
  split at ht
  · cases ht
  · rename_i htopic
    refine ⟨htopic, ?_⟩
    split at ht
    · rename_i hm
      cases (h.handler _ _ _ hm).1
    · exact (Option.some.inj ht).symm

theorem unsubscribeNative_cases (s : State κ) (topic : String) :
    (s.aittSubId.lookup topic = none ∧ s.unsubscribeNative topic = s) ∨
      ∃ id, s.aittSubId.lookup topic = some id ∧
        s.unsubscribeNative topic = s.jniUnsubscribe topic id := by
  unfold State.unsubscribeNative
  cases s.aittSubId.lookup topic with
  | none => exact .inl ⟨rfl, rfl⟩
  | some id => exact .inr ⟨id, rfl, rfl⟩

theorem Numbered.unsubscribe (h : Numbered s) (ht : s.unsubscribe topic = some t) :
    Numbered t := by
  obtain ⟨-, rfl⟩ := unsubscribe_eq h ht
  have hn : Numbered (s.unsubscribeNative topic) := by
    rcases unsubscribeNative_cases s topic with ⟨-, he⟩ | ⟨id, -, he⟩ <;> rw [he]
    · exact h
    · exact ⟨h.positive, fun n hn => h.native n (List.mem_of_mem_filter hn), h.known,
        fun t id ht n hn => h.subId t id ht n (List.mem_of_mem_filter hn), h.handler⟩
  exact ⟨hn.positive, hn.native, fun t id ht => hn.known t id (lookup_erase_eq_some.mp ht).2,
    fun t id ht => hn.subId t id (lookup_erase_eq_some.mp ht).2, hn.handler⟩

theorem numbered [DecidableEq κ] {ok : State κ → Event κ → Prop} (h : (machine κ).Reaches ok s) :
    Numbered s := by
  refine h.invariant ⟨Nat.one_pos, nofun, nofun, nofun, nofun⟩ ?_
  intro s e t _ hn _ ht
  cases e with
  | connect => cases ht; exact hn.jniSubscribe
  | subscribe => exact hn.subscribe ht
  | unsubscribe => exact hn.unsubscribe ht

theorem same_unsubscribe (h : Numbered s) (ht : s.unsubscribe topic = some t)
    (hne : other ≠ topic) : Same s t other := by
  obtain ⟨-, rfl⟩ := unsubscribe_eq h ht
  have hs : Same s (s.unsubscribeNative topic) other := by
    rcases unsubscribeNative_cases s topic with ⟨-, he⟩ | ⟨id, hid, he⟩ <;> rw [he]
    · exact .refl s other
    · refine ⟨?_, rfl, rfl, AList.lookup_erase_ne hne, rfl, rfl⟩
      change (s.native.filter (·.1 ≠ id)).filter (·.2 = other) = _
      rw [List.filter_filter]
      refine List.filter_congr fun n hn => ?_
      by_cases ho : n.2 = other
      · have hid' : n.1 ≠ id := fun he => hne (ho.symm.trans (h.subId topic id hid n hn he))
        simp [ho, hid']
      · simp [ho]
  exact hs.trans ⟨rfl, rfl, rfl, rfl, AList.lookup_erase_ne hne, AList.lookup_erase_ne hne⟩

theorem lookup_subscribeMap (h : Numbered s) (hr : Removable s topic) :
    s.subscribeMap.lookup topic = none := by
  cases hm : s.subscribeMap.lookup topic with
  | none => rfl
  | some m => exact absurd rfl (hr.handlers _ (h.handler topic m.1 m.2 hm).2)

theorem gone_iff (h : Numbered s) (ht : s.unsubscribe topic = some t) :
    Gone t topic ↔ Removable s topic := by
  obtain ⟨-, rfl⟩ := unsubscribe_eq h ht
  have hmap : Removable s topic → s.subscribeMap.lookup topic = none := lookup_subscribeMap h
  rcases unsubscribeNative_cases s topic with ⟨hid, he⟩ | ⟨id, hid, he⟩ <;> rw [he]
  · constructor
    · intro hg
      exact ⟨fun n hn ho => absurd ho (hg.native n hn), hg.handlers, fun _ => hg.jniCallbacks⟩
    · intro hr
      refine ⟨fun n hn ho => ?_, hr.handlers, ?_, hr.jniCallbacks hid, AList.lookup_erase _ _,
        AList.lookup_erase _ _⟩
      · cases hid.symm.trans (hr.native n hn ho)
      · exact hmap hr
  · constructor
    · intro hg
      refine ⟨fun n hn ho => ?_, hg.handlers, fun hnone => ?_⟩
      · by_contra hne
        rw [hid, Option.some_inj, eq_comm] at hne
        exact hg.native n (List.mem_filter.mpr ⟨hn, by simpa using hne⟩) ho
      · cases hid.symm.trans hnone
    · intro hr
      refine ⟨fun n hn ho => ?_, hr.handlers, hmap hr, AList.lookup_erase _ _,
        AList.lookup_erase _ _, AList.lookup_erase _ _⟩
      obtain ⟨hn, hne⟩ := List.mem_filter.mp hn
      have hsome := Option.some.inj (hid.symm.trans (hr.native n hn ho))
      simp [hsome] at hne

/-- In every reachable state `subscribe` keeps the list of callbacks unless it meets one of
several callbacks again, and `unsubscribe` removes all of a topic exactly when no earlier
native subscription and no handler of it is left. -/
theorem subscription_tables_agree_iff [DecidableEq κ] (h : (machine κ).Reachable s) :
    (∀ topic callback protocols jniCallback accepted t,
      s.subscribe topic callback protocols jniCallback accepted = some t →
        (t.callbacks topic = added (s.callbacks topic) callback ↔
          (callback ∈ s.callbacks topic → s.callbacks topic = [callback])) ∧
        ∀ other, other ≠ topic → Same s t other) ∧
    ∀ topic t, s.unsubscribe topic = some t →
      (Gone t topic ↔ Removable s topic) ∧ ∀ other, other ≠ topic → Same s t other := by
  have hn := numbered h
  constructor
  · intro topic callback protocols jniCallback accepted t ht
    exact ⟨callbacks_subscribe_iff ht, fun other hne => same_subscribe ht hne⟩
  · intro topic t ht
    exact ⟨gone_iff hn ht, fun other hne => same_unsubscribe hn ht hne⟩

def only (p : Protocol) : Protocol → Bool := fun q => q = p

theorem single_subscription_removed : ∃ s, (machine ℕ).Reachable s ∧
    ∃ t, s.unsubscribe "a" = some t ∧ Gone t "a" ∧ Same s t "b" := by
  obtain ⟨s, hr, hs⟩ := (machine ℕ).exists_reachable
    [.subscribe "a" 7 (only .mqtt) 100 true, .subscribe "b" 8 (only .ipc) 101 true]
    (fun s => s.native = [(1, "a")] && s.handlers = [(2, "b")] &&
      s.aittSubId.lookup "a" = some 1) (by decide +kernel)
  simp only [Bool.and_eq_true, decide_eq_true_eq] at hs
  obtain ⟨⟨hn, hh⟩, hid⟩ := hs
  obtain ⟨t, ht⟩ : ∃ t, s.unsubscribe "a" = some t := by
    unfold State.unsubscribe
    rw [if_neg (by decide)]
    split <;> exact ⟨_, rfl⟩
  have hu := (subscription_tables_agree_iff hr).2 "a" t ht
  refine ⟨s, hr, t, ht, hu.1.mpr ⟨?_, ?_, ?_⟩, hu.2 "b" (by decide)⟩
  · rw [hn]
    rintro n hm -
    rw [List.mem_singleton.mp hm, hid]
  · rw [hh]
    intro n hm
    rw [List.mem_singleton.mp hm]
    decide
  · rw [hid]
    nofun

/-- A repeated callback drops the others of its topic; after two subscriptions one stays behind
in the native library, and so does an IPC handler. -/
theorem subscription_tables_diverge :
    (∃ s, (machine ℕ).Reachable s ∧ (s.callbacks "a" = [7, 8] &&
      (s.subscribe "a" 7 (only .mqtt) 102 true).any fun t => t.callbacks "a" = [7]) = true) ∧
    (∃ s, (machine ℕ).Reachable s ∧ ((s.unsubscribe "a").any fun t =>
      t.native = [(1, "a")]) = true) ∧
    ∃ s, (machine ℕ).Reachable s ∧ ((s.unsubscribe "a").any fun t =>
      t.handlers = [(2, "a")] && t.subscribeMap.lookup "a" = some (.ipc, 2)) = true := by
  refine ⟨?_, ?_, ?_⟩
  · exact (machine ℕ).exists_reachable [.subscribe "a" 7 (only .mqtt) 100 true,
      .subscribe "a" 8 (only .mqtt) 101 true] _ (by decide +kernel)
  · exact (machine ℕ).exists_reachable [.subscribe "a" 7 (only .mqtt) 100 true,
      .subscribe "a" 8 (only .mqtt) 101 true] _ (by decide +kernel)
  · exact (machine ℕ).exists_reachable
      [.subscribe "a" 7 (fun p => p = .mqtt || p = .ipc) 100 true] _ (by decide +kernel)

end JavaSubscriptions
