import Aitt.JavaSubscriptions

/-! A message on its way through the three layers of the Java library. Below, the native
library calls `JniInterface.messageCallback` once for each of its subscriptions whose filter
matches; the two layers above look their tables up by the topic of the message. -/
namespace JavaDelivery

open JavaSubscriptions NestedMaps TransitionRuns

variable {κ : Type}

def messageCallback (s : State κ) (topic : String) : List κ :=
  if topic = discoveryTopic then [] else s.callbacks topic

def jniList (s : State κ) (topic : String) : List ℕ := (s.jniCallbacks.lookup topic).getD []

def jniMessageCallback (s : State κ) (topic : String) : List κ :=
  (jniList s topic).flatMap fun _ => messageCallback s topic

def deliver (topicMatches : String → String → Bool) (s : State κ) (topic : String) : List κ :=
  (s.native.filter fun n => topicMatches n.2 topic).flatMap fun _ => jniMessageCallback s topic

/-- `connect`, which subscribes to the discovery messages, or `subscribe` on MQTT. -/
inductive Call (κ : Type) where
  | connect (jniCallback : ℕ)
  | subscribe (filter : String) (callback : κ) (jniCallback : ℕ)
  deriving DecidableEq, Repr

def Call.event : Call κ → Event κ
  | .connect jniCallback => .connect jniCallback true
  | .subscribe filter callback jniCallback =>
    .subscribe filter callback (only .mqtt) jniCallback true

def Call.filter : Call κ → String
  | .connect _ => discoveryTopic
  | .subscribe filter _ _ => filter

def Call.subscription : Call κ → Option (String × κ)
  | .connect _ => none
  | .subscribe filter callback _ => some (filter, callback)

def subscriptions (calls : List (Call κ)) : List (String × κ) := calls.filterMap Call.subscription

def ExactlyOnce [DecidableEq κ] (topicMatches : String → String → Bool) (calls : List (Call κ))
    (s : State κ) (topic : String) : Prop :=
  ∀ callback, (deliver topicMatches s topic).count callback =
    if ∃ p ∈ subscriptions calls, p.2 = callback ∧ topicMatches p.1 topic then 1 else 0

/-- At most one call has a filter that matches, this filter is the topic itself, and the topic
is not that of the discovery messages. -/
def Single (topicMatches : String → String → Bool) (calls : List (Call κ)) (topic : String) :
    Prop :=
  (subscriptions calls).filter (topicMatches ·.1 topic) = [] ∨
    topic ≠ discoveryTopic ∧
      ∃ callback, (subscriptions calls).filter (topicMatches ·.1 topic) = [(topic, callback)]

/-- What the tables are after these calls. A list of callbacks is only known while the topic
has one subscription. -/
structure Tracks (calls : List (Call κ)) (s : State κ) : Prop where
  native : s.native.map (·.2) = calls.map Call.filter
  listed : ∀ topic ∈ calls.map Call.filter, jniList s topic ≠ []
  length : ∀ topic, (jniList s topic).length ≤ (calls.map Call.filter).count topic
  callbacks : ∀ topic, ((subscriptions calls).filter (·.1 = topic)).length ≤ 1 →
    s.callbacks topic = ((subscriptions calls).filter (·.1 = topic)).map (·.2)

variable {calls : List (Call κ)} {s t : State κ} {topic : String}
  {topicMatches : String → String → Bool}

theorem count_deliver [DecidableEq κ] (topicMatches : String → String → Bool) (s : State κ)
    (topic : String) (callback : κ) :
    (deliver topicMatches s topic).count callback =
      (s.native.filter fun n => topicMatches n.2 topic).length *
        ((jniList s topic).length * (messageCallback s topic).count callback) := by
  simp [deliver, jniMessageCallback, List.count_flatMap, Function.comp_def]

theorem subscribe_mqtt [DecidableEq κ] (htopic : topic ≠ "") (callback : κ) (jniCallback : ℕ) :
    s.subscribe topic callback (only .mqtt) jniCallback true =
      some ((s.subscribeNative topic jniCallback true).addCallback topic callback) := by
  rw [State.subscribe, if_neg htopic]
  rfl

theorem jniList_of_ne {filter : String} (h : topic ≠ filter) (jniCallback : ℕ)
    (accepted : Bool) :
    jniList (s.jniSubscribe filter jniCallback accepted) topic = jniList s topic := by
  rw [jniList, State.jniSubscribe, lookup_addJniCallback_of_ne _ h, jniList]

/-- The list of a topic gets an entry, unless it has this one already. -/
theorem jniList_self (s : State κ) (topic : String) (jniCallback : ℕ) (accepted : Bool) :
    jniList (s.jniSubscribe topic jniCallback accepted) topic ≠ [] ∧
      (jniList (s.jniSubscribe topic jniCallback accepted) topic).length ≤
        (jniList s topic).length + 1 := by
  rw [jniList, State.jniSubscribe, addJniCallback, jniList]
  cases hl : s.jniCallbacks.lookup topic with
  | none => simp
  | some cbList =>
    by_cases hc : jniCallback ∈ cbList
    · simp [hc, hl, List.ne_nil_of_mem hc]
    · simp [hc]

theorem Tracks.jni (h : Tracks calls s) (call : Call κ) (accepted : Bool) (jniCallback : ℕ) :
    (∀ topic ∈ (calls ++ [call]).map Call.filter,
      jniList (s.jniSubscribe call.filter jniCallback accepted) topic ≠ []) ∧
    ∀ topic, (jniList (s.jniSubscribe call.filter jniCallback accepted) topic).length ≤
      ((calls ++ [call]).map Call.filter).count topic := by
  have hself := jniList_self s call.filter jniCallback accepted
  rw [List.map_append, List.map_singleton]
  constructor
  · intro topic hm
    by_cases ht : topic = call.filter
    · rw [ht]
      exact hself.1
    · rw [jniList_of_ne ht]
      refine h.listed topic ((List.mem_append.mp hm).resolve_right ?_)
      exact fun hm => ht (List.mem_singleton.mp hm)
  · intro topic
    rw [List.count_append]
    by_cases ht : topic = call.filter
    · rw [ht, List.count_singleton_self]
      exact hself.2.trans (Nat.add_le_add_right (h.length _) 1)
    · rw [jniList_of_ne ht]
      exact (h.length topic).trans (Nat.le_add_right _ _)

theorem subscriptions_append (calls : List (Call κ)) (call : Call κ) :
    subscriptions (calls ++ [call]) = subscriptions calls ++ call.subscription.toList := by
  rw [subscriptions, List.filterMap_append, subscriptions]
  cases h : call.subscription <;> simp [h]

theorem Tracks.connect (h : Tracks calls s) (jniCallback : ℕ) :
    Tracks (calls ++ [.connect jniCallback]) (s.jniSubscribe discoveryTopic jniCallback true) := by
  have hj := h.jni (.connect jniCallback) true jniCallback
  refine ⟨?_, hj.1, hj.2, ?_⟩
  · simp [State.jniSubscribe, h.native, Call.filter]
  · have he : subscriptions (calls ++ [.connect jniCallback]) = subscriptions calls := by
      simp [subscriptions_append, Call.subscription]
    rw [he]
    exact h.callbacks

variable [DecidableEq κ]

theorem Tracks.subscribe (h : Tracks calls s) {filter : String} {callback : κ} {jniCallback : ℕ}
    (ht : s.subscribe filter callback (only .mqtt) jniCallback true = some t) :
    Tracks (calls ++ [.subscribe filter callback jniCallback]) t := by
  have hnative : t.native.map (·.2) = s.native.map (·.2) ++ [filter] ∧
      ∀ topic, jniList t topic = jniList (s.jniSubscribe filter jniCallback true) topic := by
    have ht' := ht
    rw [subscribe_mqtt (subscribe_cases ht).1] at ht'
    obtain rfl := Option.some.inj ht'
    refine ⟨?_, fun _ => rfl⟩
    simp [State.addCallback, State.subscribeNative, State.setSubId, State.jniSubscribe]
  have hj := h.jni (.subscribe filter callback jniCallback) true jniCallback
  refine ⟨?_, fun topic => ?_, fun topic => ?_, fun topic hle => ?_⟩
  · rw [hnative.1, h.native, List.map_append]
    rfl
  · rw [hnative.2]
    exact hj.1 topic
  · rw [hnative.2]
    exact hj.2 topic
  · rw [subscriptions_append, Call.subscription, Option.toList_some, List.filter_append] at hle ⊢
    by_cases hf : topic = filter
    · subst hf
      have hnil : (subscriptions calls).filter (·.1 = topic) = [] := by
        rw [← List.length_eq_zero_iff]
        simp at hle
        simpa using hle
      have hold := h.callbacks topic (by rw [hnil]; exact Nat.zero_le _)
      rw [callbacks_subscribe ht, hold, hnil]
      simp
    · have hsame := (same_subscribe ht hf).subscribeCallbacks
      have hsingle : [(filter, callback)].filter (·.1 = topic) = [] := by
        simp [Ne.symm hf]
      rw [hsingle, List.append_nil] at hle ⊢
      rw [State.callbacks, hsame]
      exact h.callbacks topic hle

theorem tracks_exec (h : Tracks calls s) (rest : List (Call κ))
    (ht : (machine κ).exec s (rest.map Call.event) = some t) : Tracks (calls ++ rest) t := by
  induction rest generalizing calls s with
  | nil =>
    cases ht
    rwa [List.append_nil]
  | cons call rest ih =>
    obtain ⟨u, hu, ht⟩ := Option.bind_eq_some_iff.mp ht
    rw [← List.singleton_append, ← List.append_assoc]
    refine ih ?_ ht
    cases call with
    | connect => cases hu; exact h.connect _
    | subscribe => exact h.subscribe hu

theorem tracks_calls (ht : (machine κ).exec {} (calls.map Call.event) = some t) :
    Tracks calls t := by
  have hnone : Tracks ([] : List (Call κ)) {} :=
    ⟨rfl, nofun, fun _ => Nat.zero_le _, fun _ _ => rfl⟩
  exact tracks_exec hnone calls ht

omit [DecidableEq κ] in
theorem filter_filters (calls : List (Call κ)) (hd : topicMatches discoveryTopic topic = false) :
    (calls.map Call.filter).filter (topicMatches · topic) =
      ((subscriptions calls).filter (topicMatches ·.1 topic)).map (·.1) := by
  induction calls with
  | nil => rfl
  | cons call calls ih =>
    cases call with
    | connect jniCallback =>
      have hskip : subscriptions (.connect jniCallback :: calls) = subscriptions calls :=
        List.filterMap_cons_none rfl
      rw [hskip, ← ih, List.map_cons, List.filter_cons_of_neg]
      simpa [Call.filter] using hd
    | subscribe filter callback jniCallback =>
      have hkeep : subscriptions (.subscribe filter callback jniCallback :: calls) =
          (filter, callback) :: subscriptions calls :=
        List.filterMap_cons_some rfl
      rw [hkeep, List.map_cons, Call.filter]
      cases hm : topicMatches filter topic <;> simp [hm, ih]

omit [DecidableEq κ] in
theorem Tracks.length_native (h : Tracks calls s)
    (hd : topicMatches discoveryTopic topic = false) :
    (s.native.filter fun n => topicMatches n.2 topic).length =
      ((subscriptions calls).filter (topicMatches ·.1 topic)).length := by
  have hf := congrArg List.length (filter_filters calls hd)
  rw [← h.native, List.filter_map, List.length_map, List.length_map] at hf
  exact hf

omit [DecidableEq κ] in
theorem Tracks.length_jniList (h : Tracks calls s)
    (hd : topicMatches discoveryTopic topic = false) (hself : topicMatches topic topic = true)
    {callback : κ}
    (hf : (subscriptions calls).filter (topicMatches ·.1 topic) = [(topic, callback)]) :
    (jniList s topic).length = 1 := by
  have hfilters := filter_filters calls hd
  rw [hf, List.map_singleton] at hfilters
  have hcount : (calls.map Call.filter).count topic = 1 := by
    rw [← List.count_filter (p := (topicMatches · topic)) hself, hfilters]
    exact List.count_singleton_self
  have hmem : topic ∈ calls.map Call.filter := List.count_pos_iff.mp (by omega)
  have hpos := List.length_pos_iff.mpr (h.listed topic hmem)
  have hle := h.length topic
  omega

omit [DecidableEq κ] in
theorem Tracks.callbacks_single (h : Tracks calls s) (hself : topicMatches topic topic = true)
    {callback : κ}
    (hf : (subscriptions calls).filter (topicMatches ·.1 topic) = [(topic, callback)]) :
    s.callbacks topic = [callback] := by
  have hsame : (subscriptions calls).filter (·.1 = topic) = [(topic, callback)] := by
    have hboth : (subscriptions calls).filter (·.1 = topic) =
        ((subscriptions calls).filter (topicMatches ·.1 topic)).filter (·.1 = topic) := by
      rw [List.filter_filter]
      refine List.filter_congr fun p _ => ?_
      by_cases hp : p.1 = topic <;> simp [hp, hself]
    rw [hboth, hf]
    simp
  rw [h.callbacks topic (by rw [hsame]; rfl), hsame, List.map_singleton]

theorem Tracks.single (h : Tracks calls s) (hself : topicMatches topic topic = true)
    (hd : topicMatches discoveryTopic topic = true → topic = discoveryTopic)
    (ho : ExactlyOnce topicMatches calls s topic) : Single topicMatches calls topic := by
  rcases List.eq_nil_or_concat ((subscriptions calls).filter (topicMatches ·.1 topic))
    with hnil | ⟨l, p, hp⟩
  · exact .inl hnil
  · have hmem : p ∈ (subscriptions calls).filter (topicMatches ·.1 topic) := by simp [hp]
    obtain ⟨hsub, hmatch⟩ := List.mem_filter.mp hmem
    have hone := ho p.2
    rw [count_deliver, if_pos ⟨p, hsub, rfl, hmatch⟩, mul_eq_one, mul_eq_one] at hone
    obtain ⟨hN, hk, hc⟩ := hone
    have hne : topic ≠ discoveryTopic := by
      intro he
      rw [messageCallback, if_pos he] at hc
      cases hc
    have hd' : topicMatches discoveryTopic topic = false := by
      rw [← Bool.not_eq_true]
      exact fun hm => hne (hd hm)
    rw [h.length_native hd', List.length_eq_one_iff] at hN
    obtain ⟨q, hq⟩ := hN
    have hfilters := filter_filters calls hd'
    have hin : topic ∈ calls.map Call.filter := by
      rw [← List.count_pos_iff]
      have hlen := h.length topic
      omega
    have htopic : topic = q.1 := by
      have hm : topic ∈ (calls.map Call.filter).filter (topicMatches · topic) :=
        List.mem_filter.mpr ⟨hin, hself⟩
      rw [hfilters, hq] at hm
      simpa using hm
    exact .inr ⟨hne, q.2, by rw [hq, htopic]⟩

theorem Tracks.exactlyOnce (h : Tracks calls s)
    (hd : topicMatches discoveryTopic topic = true → topic = discoveryTopic)
    (hs : Single topicMatches calls topic) : ExactlyOnce topicMatches calls s topic := by
  have hfalse (hne : topic ≠ discoveryTopic) : topicMatches discoveryTopic topic = false := by
    rw [← Bool.not_eq_true]
    exact fun hm => hne (hd hm)
  intro callback
  rw [count_deliver]
  rcases hs with hnil | ⟨hne, cb, hf⟩
  · have hno : ¬ ∃ p ∈ subscriptions calls, p.2 = callback ∧ topicMatches p.1 topic := by
      rintro ⟨p, hp, -, hm⟩
      exact List.filter_eq_nil_iff.mp hnil p hp hm
    rw [if_neg hno]
    by_cases he : topic = discoveryTopic
    · rw [messageCallback, if_pos he]
      simp
    · rw [h.length_native (hfalse he), hnil]
      simp
  · have hmem : (topic, cb) ∈ (subscriptions calls).filter (topicMatches ·.1 topic) := by simp [hf]
    obtain ⟨hsub, hself⟩ := List.mem_filter.mp hmem
    have hlen : (jniList s topic).length = 1 := h.length_jniList (hfalse hne) hself hf
    have hcb : s.callbacks topic = [cb] := h.callbacks_single hself hf
    rw [h.length_native (hfalse hne), hf, hlen, messageCallback, if_neg hne, hcb]
    by_cases hc : cb = callback
    · have hex : ∃ p ∈ subscriptions calls, p.2 = callback ∧ topicMatches p.1 topic :=
        ⟨_, hsub, hc, hself⟩
      rw [if_pos hex, hc]
      simp
    · have hno : ¬ ∃ p ∈ subscriptions calls, p.2 = callback ∧ topicMatches p.1 topic := by
        rintro ⟨p, hp, rfl, hm⟩
        have hin : p ∈ (subscriptions calls).filter (topicMatches ·.1 topic) :=
          List.mem_filter.mpr ⟨hp, hm⟩
        rw [hf, List.mem_singleton] at hin
        rw [hin] at hc
        exact hc rfl
      rw [if_neg hno]
      simp [hc]

theorem delivered_exactly_once_iff (hself : topicMatches topic topic = true)
    (hd : topicMatches discoveryTopic topic = true → topic = discoveryTopic)
    (hs : (machine κ).exec {} (calls.map Call.event) = some s) :
    ExactlyOnce topicMatches calls s topic ↔ Single topicMatches calls topic := by
  have htracks := tracks_calls hs
  constructor
  · exact htracks.single hself hd
  · exact htracks.exactlyOnce hd

def levelsMatch : List (List Char) → List (List Char) → Bool
  | [['#']], _ => true
  | ['+'] :: filter, _ :: topic => levelsMatch filter topic
  | level :: filter, level' :: topic => level == level' && levelsMatch filter topic
  | [], [] => true
  | _, _ => false

def mqttMatches (filter topic : String) : Bool :=
  levelsMatch (filter.toList.splitOn '/') (topic.toList.splitOn '/')

theorem single_subscriber_served :
    ∃ s, (machine ℕ).exec {} ([.connect 1, .subscribe "a/b" 7 2, .subscribe "c/+" 8 3].map
        Call.event) = some s ∧
      ExactlyOnce mqttMatches [.connect 1, .subscribe "a/b" 7 2, .subscribe "c/+" 8 3] s "a/b" := by
  refine ⟨_, rfl, ?_⟩
  refine (delivered_exactly_once_iff ?_ ?_ rfl).mpr (.inr ⟨?_, 7, ?_⟩) <;> decide +kernel

/-- Two subscribers to one topic are called four times each, and a subscriber with a wildcard is
not called. -/
theorem subscribers_called_wrongly :
    (∃ s : State ℕ, (machine ℕ).exec {} ([.subscribe "a" 7 1, .subscribe "a" 8 2].map
        Call.event) = some s ∧
      (deliver mqttMatches s "a").count 7 = 4 ∧
      ¬ ExactlyOnce mqttMatches [.subscribe "a" 7 1, .subscribe "a" 8 2] s "a") ∧
    ∃ s : State ℕ, (machine ℕ).exec {} ([.subscribe "a/+" 7 1].map Call.event) = some s ∧
      deliver mqttMatches s "a/b" = [] ∧
      ¬ ExactlyOnce mqttMatches [.subscribe "a/+" 7 1] s "a/b" := by
  refine ⟨⟨_, rfl, ?_, fun h => ?_⟩, ⟨_, rfl, ?_, fun h => ?_⟩⟩
  · decide +kernel
  · exact absurd (h 7) (by decide +kernel)
  · decide +kernel
  · exact absurd (h 7) (by decide +kernel)

end JavaDelivery
