import Aitt.MqttProperties
import Aitt.TransitionRuns
import Aitt.TurnTaking
import Mathlib.Data.Finset.Basic

/-! The MQTT client: its subscriber vectors, the loop of `MessageCB` with the iterator
that callbacks edit, and the broker session behind it. `callback_lock` is recursive, so
between two messages anyone may call in, and during a dispatch only the running callback.
The iterator is a position in `subscribers`; before the first dispatch it is singular. -/
namespace MosquittoMQ

open AittTypes MqttProperties TransitionRuns TurnTaking

/-- A heap cell `SubscribeData` with the address that serves as its handle. -/
structure SubscribeData (κ : Type) where
  handle : Address
  topic : String
  cb : κ
  userData : Address
  deriving DecidableEq, Repr

structure Client (κ : Type) where
  subscribers : List (SubscribeData κ)
  newSubscribers : List (SubscribeData κ)
  subscriberIterator : Option ℕ
  subscribersIterating : Bool
  subscriberIteratorUpdated : Bool
  deriving DecidableEq, Repr

variable {κ : Type}

namespace Client

def new : Client κ := ⟨[], [], none, false, false⟩

def live (mq : Client κ) : List (SubscribeData κ) := mq.subscribers ++ mq.newSubscribers

/-- `ret` is the success of `mosquitto_subscribe`, which runs before anything is stored. -/
def subscribe (mq : Client κ) (data : SubscribeData κ) (ret : Bool) :
    Client κ × Except ErrCode Address :=
  if ret = false then (mq, .error .mqttErr)
  else if mq.subscribersIterating then
    ({ mq with newSubscribers := mq.newSubscribers ++ [data] }, .ok data.handle)
  else ({ mq with subscribers := mq.subscribers ++ [data] }, .ok data.handle)

def find (mq : Client κ) (subHandle : Address) : ℕ :=
  mq.subscribers.findIdx (·.handle = subHandle)

/-- `erase` returns the iterator of the next element, which has the erased position. -/
def erase (mq : Client κ) (i : ℕ) : Client κ :=
  if mq.subscriberIterator = some i then
    { mq with subscribers := mq.subscribers.eraseIdx i, subscriberIteratorUpdated := true }
  else { mq with subscribers := mq.subscribers.eraseIdx i }

/-- `ret` is the success of `mosquitto_unsubscribe`, which runs after the entry is gone. -/
def unsubscribe (mq : Client κ) (subHandle : Address) (ret : Bool) :
    Client κ × Except ErrCode Address :=
  if subHandle = 0 then (mq, .ok 0)
  else match mq.subscribers[mq.find subHandle]? with
    | none => (mq, .error .noDataErr)
    | some data =>
      (mq.erase (mq.find subHandle), if ret then .ok data.userData else .error .mqttErr)

def beginDispatch (mq : Client κ) : Client κ :=
  { mq with subscribersIterating := true, subscriberIterator := some 0 }

def skip (mq : Client κ) : Client κ :=
  { mq with subscriberIterator := mq.subscriberIterator.map (· + 1) }

def advance (mq : Client κ) : Client κ :=
  if mq.subscriberIteratorUpdated then { mq with subscriberIteratorUpdated := false }
  else mq.skip

def endDispatch (mq : Client κ) : Client κ :=
  { mq with
    subscribersIterating := false
    subscribers := mq.subscribers ++ mq.newSubscribers
    newSubscribers := [] }

end Client

/-- `mosquitto_topic_matches_sub` is a parameter; `none` stands for its error code. -/
def compareTopic (topicMatchesSub : String → String → Option Bool) (left right : String) : Bool :=
  (topicMatchesSub (cStr left) (cStr right)).getD false

theorem compareTopic_cStr (topicMatchesSub : String → String → Option Bool)
    (left right : String) :
    compareTopic topicMatchesSub left (cStr right) = compareTopic topicMatchesSub left right := by
  rw [compareTopic, compareTopic, cStr_idem]

def exactMatch (sub topic : String) : Option Bool := some (sub == topic)

inductive Phase (κ : Type) where
  | idle
  | loop (msg : Message)
  | callback (msg : Message) (info : AittMsg) (current : SubscribeData κ)
  | terminated
  | undefined
  deriving DecidableEq, Repr

/-- Between two messages, or inside a callback: the moments at which calls come in. -/
def Phase.Open : Phase κ → Prop
  | .idle => True
  | .callback _ _ _ => True
  | _ => False

instance (p : Phase κ) : Decidable p.Open := by
  cases p <;> simp only [Phase.Open] <;> infer_instance

/-- What a dispatch was given and what happened in it; only recorded, never read. -/
structure Dispatch (κ : Type) where
  msg : Message
  members : List (SubscribeData κ)
  trace : List (Act (SubscribeData κ))
  deriving DecidableEq, Repr

structure State (κ : Type) where
  mq : Client κ
  phase : Phase κ
  filters : Finset String
  current : Dispatch κ
  finished : List (Dispatch κ)
  deriving DecidableEq

def State.record (s : State κ) (x : Act (SubscribeData κ)) : State κ :=
  { s with current := { s.current with trace := s.current.trace ++ [x] } }

def initial : State κ := ⟨.new, .idle, ∅, ⟨⟨"", [], none⟩, [], []⟩, []⟩

/-- `iterate` is one test of the loop condition and, if it holds, the work up to the
callback or to the next test. A callback ends by returning or by throwing. -/
inductive Event (κ : Type) where
  | subscribe (data : SubscribeData κ) (ret : Bool)
  | unsubscribe (subHandle : Address) (ret : Bool)
  | message (msg : Message)
  | iterate
  | callbackReturns
  | callbackThrows
  deriving DecidableEq, Repr

def Allocatable (mq : Client κ) (data : SubscribeData κ) : Prop :=
  data.handle ≠ 0 ∧ ∀ d ∈ mq.live, d.handle ≠ data.handle

instance (mq : Client κ) (data : SubscribeData κ) : Decidable (Allocatable mq data) :=
  inferInstanceAs (Decidable (_ ∧ _))

def subscribeStep (s : State κ) (data : SubscribeData κ) (ret : Bool) : State κ :=
  if ret = false then s
  else { s.record (.added data) with
    mq := (s.mq.subscribe data ret).1
    filters := insert (cStr data.topic) s.filters }

def unsubscribeStep (s : State κ) (subHandle : Address) (ret : Bool) : State κ :=
  if subHandle = 0 then s
  else match s.mq.subscribers[s.mq.find subHandle]? with
    | none => s
    | some data => { s.record (.removed data) with
        mq := (s.mq.unsubscribe subHandle ret).1
        filters := if ret then s.filters.erase (cStr data.topic) else s.filters }

variable (topicMatchesSub : String → String → Option Bool)

/-- The test for calling a subscriber; a null entry of the vector is only skipped. -/
def serves (msg : Message) (d : SubscribeData κ) : Bool :=
  decide (d.handle ≠ 0) && compareTopic topicMatchesSub d.topic msg.topic

def iterateStep (s : State κ) (msg : Message) : State κ :=
  match s.mq.subscriberIterator with
  | none => { s with phase := .undefined }
  | some c =>
    if c = s.mq.subscribers.length then
      { s with mq := s.mq.endDispatch, phase := .idle, finished := s.finished ++ [s.current] }
    else match s.mq.subscribers[c]? with
      | none => { s with phase := .undefined }
      | some d =>
        if d.handle = 0 then { s with mq := s.mq.skip }
        else if compareTopic topicMatchesSub d.topic msg.topic then
          match readMsg msg with
          | .error _ => { s with phase := .terminated }
          | .ok info => { s.record (.invoked d) with phase := .callback msg info d }
        else { s with mq := s.mq.advance }

def step (s : State κ) : Event κ → Option (State κ)
  | .subscribe data ret =>
    if s.phase.Open ∧ Allocatable s.mq data then some (subscribeStep s data ret) else none
  | .unsubscribe subHandle ret =>
    if s.phase.Open then some (unsubscribeStep s subHandle ret) else none
  | .message msg =>
    match s.phase with
    | .idle => some { s with
        mq := s.mq.beginDispatch
        phase := .loop msg
        current := ⟨msg, s.mq.subscribers, []⟩ }
    | _ => none
  | .iterate =>
    match s.phase with
    | .loop msg => some (iterateStep topicMatchesSub s msg)
    | _ => none
  | .callbackReturns =>
    match s.phase with
    | .callback msg _ _ => some { s with mq := s.mq.advance, phase := .loop msg }
    | _ => none
  | .callbackThrows =>
    match s.phase with
    | .callback _ _ _ => some { s with phase := .terminated }
    | _ => none

def machine : Machine (State κ) (Event κ) := ⟨initial, step topicMatchesSub⟩

inductive Turn (s : State κ) (msg : Message) : State κ → Prop where
  | singular (hc : s.mq.subscriberIterator = none) : Turn s msg { s with phase := .undefined }
  | finish {c} (hc : s.mq.subscriberIterator = some c) (he : c = s.mq.subscribers.length) :
      Turn s msg { s with
        mq := s.mq.endDispatch, phase := .idle, finished := s.finished ++ [s.current] }
  | behind {c} (hc : s.mq.subscriberIterator = some c) (he : c ≠ s.mq.subscribers.length)
      (hg : s.mq.subscribers[c]? = none) : Turn s msg { s with phase := .undefined }
  | null {c d} (hc : s.mq.subscriberIterator = some c) (hg : s.mq.subscribers[c]? = some d)
      (hz : d.handle = 0) : Turn s msg { s with mq := s.mq.skip }
  | raise {c d err} (hc : s.mq.subscriberIterator = some c)
      (hg : s.mq.subscribers[c]? = some d) (hs : serves topicMatchesSub msg d = true)
      (hr : readMsg msg = .error err) : Turn s msg { s with phase := .terminated }
  | call {c d info} (hc : s.mq.subscriberIterator = some c)
      (hg : s.mq.subscribers[c]? = some d) (hs : serves topicMatchesSub msg d = true)
      (hr : readMsg msg = .ok info) :
      Turn s msg { s.record (.invoked d) with phase := .callback msg info d }
  | pass {c d} (hc : s.mq.subscriberIterator = some c) (hg : s.mq.subscribers[c]? = some d)
      (hs : serves topicMatchesSub msg d = false) : Turn s msg { s with mq := s.mq.advance }

theorem iterate_cases (s : State κ) (msg : Message) :
    Turn topicMatchesSub s msg (iterateStep topicMatchesSub s msg) := by
  unfold iterateStep
  split
  · exact .singular ‹_›
  · next c hc =>
    split
    · exact .finish hc ‹_›
    · next he =>
      split
      · exact .behind hc he ‹_›
      · next d hg =>
        split
        · exact .null hc hg ‹_›
        · next hz =>
          split
          · next hm =>
            split
            · exact .raise hc hg (by simp [serves, hz, hm]) ‹_›
            · exact .call hc hg (by simp [serves, hz, hm]) ‹_›
          · next hm => exact .pass hc hg (by simp [serves, hm])

inductive Step (s : State κ) : Event κ → State κ → Prop where
  | subscribe {data ret} (ho : s.phase.Open) (ha : Allocatable s.mq data) :
      Step s (.subscribe data ret) (subscribeStep s data ret)
  | unsubscribe {subHandle ret} (ho : s.phase.Open) :
      Step s (.unsubscribe subHandle ret) (unsubscribeStep s subHandle ret)
  | message {msg} (hp : s.phase = .idle) :
      Step s (.message msg) { s with
        mq := s.mq.beginDispatch
        phase := .loop msg
        current := ⟨msg, s.mq.subscribers, []⟩ }
  | iterate {msg t} (hp : s.phase = .loop msg) (ht : Turn topicMatchesSub s msg t) :
      Step s .iterate t
  | callbackReturns {msg info d} (hp : s.phase = .callback msg info d) :
      Step s .callbackReturns { s with mq := s.mq.advance, phase := .loop msg }
  | callbackThrows {msg info d} (hp : s.phase = .callback msg info d) :
      Step s .callbackThrows { s with phase := .terminated }

variable {topicMatchesSub}

theorem step_cases {s t : State κ} {e : Event κ} (h : step topicMatchesSub s e = some t) :
    Step topicMatchesSub s e t := by
  cases e with
  | subscribe data ret =>
    simp only [step, Option.ite_none_right_eq_some, Option.some.injEq] at h
    obtain ⟨⟨ho, ha⟩, rfl⟩ := h
    exact .subscribe ho ha
  | unsubscribe subHandle ret =>
    simp only [step, Option.ite_none_right_eq_some, Option.some.injEq] at h
    obtain ⟨ho, rfl⟩ := h
    exact .unsubscribe ho
  | message msg =>
    simp only [step] at h
    split at h
    · cases h; exact .message ‹_›
    · cases h
  | iterate =>
    simp only [step] at h
    split at h
    · cases h; exact .iterate ‹_› (iterate_cases _ _ _)
    · cases h
  | callbackReturns =>
    simp only [step] at h
    split at h
    · cases h; exact .callbackReturns ‹_›
    · cases h
  | callbackThrows =>
    simp only [step] at h
    split at h
    · cases h; exact .callbackThrows ‹_›
    · cases h

/-- `Unsubscribe` finds no entry and changes nothing, or erases the one it found. -/
theorem unsubscribe_cases (s : State κ) (subHandle : Address) (ret : Bool) :
    (unsubscribeStep s subHandle ret = s ∧
      (subHandle ≠ 0 → ∀ d ∈ s.mq.subscribers, d.handle ≠ subHandle)) ∨
    ∃ i data, i = s.mq.find subHandle ∧ s.mq.subscribers[i]? = some data ∧
      data.handle = subHandle ∧
      unsubscribeStep s subHandle ret = { s.record (.removed data) with
        mq := s.mq.erase i
        filters := if ret then s.filters.erase (cStr data.topic) else s.filters } := by
  unfold unsubscribeStep
  split
  · next hz => exact Or.inl ⟨rfl, fun h => absurd hz h⟩
  · next hz =>
    split
    · next hn =>
      refine Or.inl ⟨rfl, fun _ d hd hh => ?_⟩
      have hlt : s.mq.find subHandle < s.mq.subscribers.length :=
        List.findIdx_lt_length_of_exists ⟨d, hd, by simpa using hh⟩
      have hge := List.getElem?_eq_none_iff.mp hn
      omega
    · next data hd =>
      have hp := List.findIdx_of_getElem?_eq_some hd
      refine Or.inr ⟨_, data, rfl, hd, by simpa using hp, ?_⟩
      simp only [Client.unsubscribe, if_neg hz, hd]

@[simp] theorem erase_subscribers (mq : Client κ) (i : ℕ) :
    (mq.erase i).subscribers = mq.subscribers.eraseIdx i := by
  unfold Client.erase; split <;> rfl

@[simp] theorem erase_newSubscribers (mq : Client κ) (i : ℕ) :
    (mq.erase i).newSubscribers = mq.newSubscribers := by
  unfold Client.erase; split <;> rfl

@[simp] theorem erase_iterator (mq : Client κ) (i : ℕ) :
    (mq.erase i).subscriberIterator = mq.subscriberIterator := by
  unfold Client.erase; split <;> rfl

@[simp] theorem erase_iterating (mq : Client κ) (i : ℕ) :
    (mq.erase i).subscribersIterating = mq.subscribersIterating := by
  unfold Client.erase; split <;> rfl

@[simp] theorem advance_subscribers (mq : Client κ) :
    mq.advance.subscribers = mq.subscribers := by
  unfold Client.advance; split <;> rfl

@[simp] theorem advance_newSubscribers (mq : Client κ) :
    mq.advance.newSubscribers = mq.newSubscribers := by
  unfold Client.advance; split <;> rfl

@[simp] theorem advance_live (mq : Client κ) : mq.advance.live = mq.live := by
  simp [Client.live]

@[simp] theorem endDispatch_live (mq : Client κ) : mq.endDispatch.live = mq.live := by
  simp [Client.live, Client.endDispatch]

theorem subscribe_fails (mq : Client κ) (data : SubscribeData κ) :
    mq.subscribe data false = (mq, .error .mqttErr) := rfl

theorem subscribe_succeeds (mq : Client κ) (data : SubscribeData κ) :
    mq.subscribe data true = ((mq.subscribe data true).1, .ok data.handle) := by
  cases hi : mq.subscribersIterating <;> simp [Client.subscribe, hi]

theorem subscribe_live (mq : Client κ) (data : SubscribeData κ) :
    (mq.subscribe data true).1.live.Perm (data :: mq.live) := by
  cases hi : mq.subscribersIterating with
  | false =>
    simp only [Client.subscribe, hi, Client.live, Bool.true_eq_false, Bool.false_eq_true, if_false]
    rw [List.append_assoc]
    exact List.perm_middle
  | true =>
    simp only [Client.subscribe, hi, Client.live, Bool.true_eq_false, if_false, if_true]
    rw [← List.append_assoc]
    exact List.perm_append_singleton _ _

theorem erase_live {mq : Client κ} {i : ℕ} {data : SubscribeData κ}
    (hi : mq.subscribers[i]? = some data) : mq.live.Perm (data :: (mq.erase i).live) := by
  obtain ⟨hlt, rfl⟩ := List.getElem?_eq_some_iff.mp hi
  simp only [Client.live, erase_subscribers, erase_newSubscribers]
  exact (List.getElem_cons_eraseIdx_perm hlt).symm.append_right _

structure WellFormed (mq : Client κ) : Prop where
  handles : (mq.live.map (·.handle)).Nodup
  nonnull : ∀ d ∈ mq.live, d.handle ≠ 0

theorem WellFormed.of_perm {mq mq' : Client κ} (h : WellFormed mq)
    (hp : mq'.live.Perm mq.live) : WellFormed mq' :=
  ⟨(hp.map _).nodup_iff.mpr h.handles, fun d hd => h.nonnull d (hp.subset hd)⟩

theorem WellFormed.subscribe {mq : Client κ} (h : WellFormed mq) {data : SubscribeData κ}
    (ha : Allocatable mq data) : WellFormed (mq.subscribe data true).1 := by
  have hp := subscribe_live mq data
  refine ⟨(hp.map _).nodup_iff.mpr (List.nodup_cons.mpr ⟨?_, h.handles⟩), ?_⟩
  · intro hm
    obtain ⟨d, hd, he⟩ := List.mem_map.mp hm
    exact ha.2 d hd he
  · intro d hd
    rcases List.mem_cons.mp (hp.subset hd) with rfl | hd
    · exact ha.1
    · exact h.nonnull d hd

theorem WellFormed.erase {mq : Client κ} (h : WellFormed mq) {i : ℕ} {data : SubscribeData κ}
    (hi : mq.subscribers[i]? = some data) : WellFormed (mq.erase i) := by
  have hp := erase_live hi
  exact ⟨(List.nodup_cons.mp ((hp.map _).nodup_iff.mp h.handles)).2,
    fun d hd => h.nonnull d (hp.symm.subset (List.mem_cons_of_mem _ hd))⟩

theorem WellFormed.subscribers_nodup {mq : Client κ} (h : WellFormed mq) :
    mq.subscribers.Nodup :=
  (List.Nodup.of_map _ h.handles).sublist (List.sublist_append_left _ _)

theorem WellFormed.eq_of_handle {mq : Client κ} (h : WellFormed mq) {d d' : SubscribeData κ}
    (hd : d ∈ mq.live) (hd' : d' ∈ mq.live) (he : d.handle = d'.handle) : d = d' :=
  List.inj_on_of_nodup_map h.handles hd hd' he

theorem WellFormed.mem_erase_live {mq : Client κ} (h : WellFormed mq) {i : ℕ}
    {data : SubscribeData κ} (hi : mq.subscribers[i]? = some data) (d : SubscribeData κ) :
    d ∈ (mq.erase i).live ↔ d ∈ mq.live ∧ d.handle ≠ data.handle := by
  have hp := erase_live hi
  have hnd := (hp.map (·.handle)).nodup_iff.mp h.handles
  rw [List.map_cons, List.nodup_cons] at hnd
  constructor
  · intro hd
    refine ⟨hp.symm.subset (List.mem_cons_of_mem _ hd), fun he => ?_⟩
    exact hnd.1 (he ▸ List.mem_map_of_mem hd)
  · rintro ⟨hd, hne⟩
    rcases List.mem_cons.mp (hp.subset hd) with rfl | hd
    · exact absurd rfl hne
    · exact hd

/-- Between two dispatches `Unsubscribe` finds every live cell. -/
theorem WellFormed.unsubscribe_live {mq : Client κ} (h : WellFormed mq)
    (hn : mq.newSubscribers = []) {d : SubscribeData κ} (hd : d ∈ mq.live) (ret : Bool) :
    ∃ i, mq.subscribers[i]? = some d ∧
      mq.unsubscribe d.handle ret =
        (mq.erase i, if ret then .ok d.userData else .error .mqttErr) := by
  have hsub : d ∈ mq.subscribers := by
    rw [Client.live, hn, List.append_nil] at hd
    exact hd
  have hlt : mq.find d.handle < mq.subscribers.length :=
    List.findIdx_lt_length_of_exists ⟨d, hsub, by simp⟩
  have hget := List.getElem?_eq_getElem hlt
  have hhandle : (mq.subscribers[mq.find d.handle]).handle = d.handle := by
    simpa using List.findIdx_of_getElem?_eq_some hget
  have heq := h.eq_of_handle (List.mem_append_left _ (List.getElem_mem hlt)) hd hhandle
  rw [heq] at hget
  refine ⟨mq.find d.handle, hget, ?_⟩
  simp only [Client.unsubscribe, if_neg (h.nonnull d hd), hget]

theorem Turn.live {s t : State κ} {msg : Message} (h : Turn topicMatchesSub s msg t) :
    t.mq.live = s.mq.live := by
  cases h with
  | finish => exact endDispatch_live _
  | pass => exact advance_live _
  | _ => rfl

theorem wellFormed_step {s t : State κ} {e : Event κ} (h : WellFormed s.mq)
    (hs : Step topicMatchesSub s e t) : WellFormed t.mq := by
  cases hs with
  | @subscribe data ret _ ha =>
    cases ret with
    | false => exact h
    | true => exact h.subscribe ha
  | @unsubscribe subHandle ret _ =>
    rcases unsubscribe_cases s subHandle ret with ⟨he, -⟩ | ⟨i, data, -, hi, -, he⟩
    · rw [he]; exact h
    · rw [he]; exact h.erase hi
  | message => exact h.of_perm (.refl _)
  | iterate _ ht => exact h.of_perm (.of_eq ht.live)
  | callbackReturns => exact h.of_perm (.of_eq (advance_live _))
  | callbackThrows => exact h

theorem reachable_wellFormed {s : State κ} (h : (machine topicMatchesSub).Reachable s) :
    WellFormed s.mq :=
  h.invariant ⟨List.nodup_nil, by simp [machine, initial, Client.new, Client.live]⟩
    fun _ _ _ _ hi _ he => wellFormed_step hi (step_cases he)

end MosquittoMQ
