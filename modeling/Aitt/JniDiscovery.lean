import Aitt.AittDiscovery
import Aitt.NestedMaps
import Aitt.TcpPublishTable

/-! Discovery callbacks of the Java library. `JniInterface` keeps one Java callback for each
topic with the id of the native one; the native ones stay in `AittDiscovery` until their id
is given back, and each of them asks `JniInterface` for the Java callback of its topic. -/
namespace JniDiscovery

open AittTypes NestedMaps TransitionRuns
open AittDiscovery (joinNetwork)
open TcpPublishTable (willLeaveNetwork)

variable {κ : Type}

/-- `callbacks` is the map of `AittDiscovery` in the order of its keys. The counter of ids is
common to all objects of the process. -/
structure State (κ : Type) where
  discoveryCallbacks : Map String (ℤ × κ) := ∅
  callbacks : List (ℤ × String) := []
  id : ℕ := 0

def addDiscoveryCB (s : State κ) (topic : String) : State κ :=
  { s with
    id := s.id + 1
    callbacks := s.callbacks ++ [(((s.id + 1 : ℕ) : ℤ), topic)] }

def removeDiscoveryCB (s : State κ) (callbackId : ℤ) : State κ :=
  { s with callbacks := s.callbacks.filter (·.1 ≠ callbackId) }

def setDiscoveryCallbackJNI (s : State κ) (topic : String) : State κ × ℤ :=
  if topic = "" then (s, -1)
  else (addDiscoveryCB s topic, (s.id + 1 : ℕ))

def setDiscoveryCallback (s : State κ) (topic : String) (callback : κ) : State κ :=
  let r := setDiscoveryCallbackJNI s topic
  { r.1 with discoveryCallbacks := r.1.discoveryCallbacks.insert topic (r.2, callback) }

def removeDiscoveryCallback (s : State κ) (topic : String) : State κ :=
  let s := match s.discoveryCallbacks.lookup topic with
    | some pair => removeDiscoveryCB s pair.1
    | none => s
  { s with discoveryCallbacks := s.discoveryCallbacks.erase topic }

/-- `JniInterface.disconnect`; `AittDiscovery::Stop` keeps its callbacks. -/
def disconnect (s : State κ) : State κ := { s with discoveryCallbacks := ∅ }

def idMax : ℕ := 2147483647

/-- `elsewhere` is an `AddDiscoveryCB` that is not for this object. -/
inductive Event (κ : Type) where
  | set (topic : String) (callback : κ)
  | remove (topic : String)
  | disconnect
  | elsewhere
  deriving DecidableEq

/-- Nothing is said about ids after the last one, where the counter wraps. -/
def machine (κ : Type) : Machine (State κ) (Event κ) where
  initial := {}
  step s
    | .set topic callback =>
      if topic = "" ∨ s.id < idMax then some (setDiscoveryCallback s topic callback) else none
    | .remove topic => some (removeDiscoveryCallback s topic)
    | .disconnect => some (disconnect s)
    | .elsewhere => if s.id < idMax then some { s with id := s.id + 1 } else none

inductive Message where
  | leaves (clientId : String)
  | entries (clientId status : String) (map : List (String × Bytes))

structure Invocation (κ : Type) where
  callback : κ
  topic : String
  clientId : String
  status : String
  message : Bytes
  deriving DecidableEq

def javaCallback (s : State κ) (topic clientId status : String) (message : Bytes) :
    List (Invocation κ) :=
  match s.discoveryCallbacks.lookup topic with
  | some pair => [⟨pair.2, topic, clientId, status, message⟩]
  | none => []

def discoveryMessageCallback (s : State κ) : Message → List (Invocation κ)
  | .leaves clientId =>
    s.callbacks.flatMap fun node => javaCallback s node.2 clientId willLeaveNetwork []
  | .entries clientId status map =>
    map.flatMap fun entry =>
      if entry.1 = "status" then []
      else (s.callbacks.filter (·.2 = entry.1)).flatMap fun node =>
        javaCallback s node.2 clientId status entry.2

def Event.holds (topic : String) : Event κ → Option (Option κ)
  | .set t callback => if t = topic then some (some callback) else none
  | .remove t => if t = topic then some none else none
  | .disconnect => some none
  | .elsewhere => none

/-- The callback set last, unless it has been dropped since. The past has its last event
first. -/
def holder (topic : String) (past : List (Event κ)) : Option κ :=
  (past.findSome? (Event.holds topic)).join

/-- How many native callbacks of the topic are left. -/
def registered (topic : String) : List (Event κ) → ℕ
  | [] => 0
  | .set t _ :: past => registered topic past + if t = topic ∧ t ≠ "" then 1 else 0
  | .remove t :: past =>
    registered topic past - if t = topic ∧ t ≠ "" ∧ (holder topic past).isSome then 1 else 0
  | .disconnect :: past | .elsewhere :: past => registered topic past

def Message.payloads (topic : String) : Message → List (String × String × Bytes)
  | .leaves clientId => [(clientId, willLeaveNetwork, [])]
  | .entries clientId status map =>
    (map.filter fun entry => entry.1 = topic ∧ entry.1 ≠ "status").map fun entry =>
      (clientId, status, entry.2)

/-- A callback is set only where none is held, and none is held at a disconnection. -/
def Careful : List (Event κ) → Prop
  | [] => True
  | .set t _ :: past => (t ≠ "" → holder t past = none) ∧ Careful past
  | .disconnect :: past => (∀ t, t ≠ "" → holder t past = none) ∧ Careful past
  | .remove _ :: past | .elsewhere :: past => Careful past

/-- A callback is set only where no native one is left. -/
def Fresh : List (Event κ) → Prop
  | [] => True
  | .set t _ :: past => (t ≠ "" → registered t past = 0) ∧ Fresh past
  | .remove _ :: past | .disconnect :: past | .elsewhere :: past => Fresh past

structure Tracks (s : State κ) (past : List (Event κ)) : Prop where
  held : ∀ topic, (s.discoveryCallbacks.lookup topic).map (·.2) = holder topic past
  count : ∀ topic, (s.callbacks.filter (·.2 = topic)).length = registered topic past
  ids : (s.callbacks.map (·.1)).Nodup
  given : ∀ node ∈ s.callbacks, 0 < node.1 ∧ node.1 ≤ s.id
  linked : ∀ topic pair, s.discoveryCallbacks.lookup topic = some pair →
    if topic = "" then pair.1 = -1 else (pair.1, topic) ∈ s.callbacks

variable {s t : State κ} {topic : String} {past : List (Event κ)}

/-- The node with an id is the only one, and its topic loses one. -/
theorem length_filter_remove {l : List (ℤ × String)} (hn : (l.map (·.1)).Nodup) {id : ℤ}
    {held : String} (hm : (id, held) ∈ l) (topic : String) :
    ((l.filter (·.1 ≠ id)).filter (·.2 = topic)).length + (if held = topic then 1 else 0) =
      (l.filter (·.2 = topic)).length := by
  induction l with
  | nil => cases hm
  | cons node l ih =>
    rw [List.map_cons, List.nodup_cons] at hn
    rcases List.mem_cons.mp hm with rfl | hm
    · have hl : l.filter (·.1 ≠ id) = l := by
        rw [List.filter_eq_self]
        intro node hnode
        have hne : node.1 ≠ id := fun he => hn.1 (List.mem_map.mpr ⟨node, hnode, he⟩)
        simpa using hne
      rw [List.filter_cons_of_neg (by simp), hl]
      by_cases ht : held = topic <;> simp [ht]
    · have hne : node.1 ≠ id := fun he => hn.1 (he ▸ List.mem_map_of_mem hm)
      rw [List.filter_cons_of_pos (by simpa using hne)]
      have hrest := ih hn.2 hm
      by_cases ht : node.2 = topic
      · rw [List.filter_cons_of_pos (by simpa using ht),
          List.filter_cons_of_pos (by simpa using ht), List.length_cons, List.length_cons]
        omega
      · rw [List.filter_cons_of_neg (by simpa using ht),
          List.filter_cons_of_neg (by simpa using ht)]
        exact hrest

theorem holder_cons (topic : String) (e : Event κ) (past : List (Event κ)) :
    holder topic (e :: past) = (e.holds topic).getD (holder topic past) := by
  rw [holder, List.findSome?_cons]
  cases e.holds topic <;> rfl

theorem Tracks.set (h : Tracks s past) (topic : String) (callback : κ) :
    Tracks (setDiscoveryCallback s topic callback) (.set topic callback :: past) := by
  have hheld : ∀ id t, ((s.discoveryCallbacks.insert topic (id, callback)).lookup t).map (·.2) =
      holder t (.set topic callback :: past) := by
    intro id t
    rw [holder_cons, Event.holds]
    by_cases ht : topic = t
    · rw [ht, AList.lookup_insert, if_pos rfl]
      rfl
    · rw [AList.lookup_insert_ne (Ne.symm ht), if_neg ht]
      exact h.held t
  by_cases hempty : topic = ""
  · have hset : setDiscoveryCallback s topic callback =
        { s with discoveryCallbacks := s.discoveryCallbacks.insert topic (-1, callback) } := by
      simp [setDiscoveryCallback, setDiscoveryCallbackJNI, hempty]
    rw [hset]
    refine ⟨hheld (-1), ?_, h.ids, h.given, ?_⟩
    · intro t
      rw [registered, if_neg (by simp [hempty])]
      exact h.count t
    · intro t pair hp
      rcases lookup_insert_eq_some.mp hp with ⟨rfl, rfl⟩ | ⟨-, hp⟩
      · rw [if_pos hempty]
      · exact h.linked t pair hp
  · have hset : setDiscoveryCallback s topic callback =
        { addDiscoveryCB s topic with
          discoveryCallbacks := s.discoveryCallbacks.insert topic
            (((s.id + 1 : ℕ) : ℤ), callback) } := by
      simp [setDiscoveryCallback, setDiscoveryCallbackJNI, hempty, addDiscoveryCB]
    rw [hset]
    refine ⟨hheld _, ?_, ?_, ?_, ?_⟩
    · intro t
      simp only [addDiscoveryCB, registered, List.filter_append, List.length_append, h.count t]
      by_cases ht : topic = t
      · subst ht
        simp [hempty]
      · simp [ht]
    · simp only [addDiscoveryCB, List.map_append, List.map_singleton]
      refine List.Nodup.append h.ids (List.nodup_singleton _) ?_
      intro id hid hnew
      obtain ⟨node, hnode, rfl⟩ := List.mem_map.mp hid
      have hle := (h.given node hnode).2
      rw [List.mem_singleton.mp hnew] at hle
      omega
    · intro node hnode
      simp only [addDiscoveryCB] at hnode ⊢
      rcases List.mem_append.mp hnode with hnode | hnode
      · have hg := h.given node hnode
        omega
      · rw [List.mem_singleton.mp hnode]
        simp only
        omega
    · intro t pair hp
      rcases lookup_insert_eq_some.mp hp with ⟨rfl, rfl⟩ | ⟨-, hp⟩
      · rw [if_neg hempty]
        exact List.mem_append_right _ (List.mem_singleton_self _)
      · have hl := h.linked t pair hp
        split at hl
        · rw [if_pos ‹_›]
          exact hl
        · rw [if_neg ‹_›]
          exact List.mem_append_left _ hl

/-- Giving an id back leaves the nodes of the other topics, and a null id does nothing. -/
theorem Tracks.givenBack (h : Tracks s past) {pair : ℤ × κ}
    (hp : s.discoveryCallbacks.lookup topic = some pair) :
    (∀ t, ((removeDiscoveryCB s pair.1).callbacks.filter (·.2 = t)).length +
      (if topic = t ∧ topic ≠ "" then 1 else 0) = registered t past) ∧
    ∀ t node, t ≠ topic → t ≠ "" → s.discoveryCallbacks.lookup t = some node →
      (node.1, t) ∈ (removeDiscoveryCB s pair.1).callbacks := by
  have hlinked := h.linked topic pair hp
  by_cases hempty : topic = ""
  · rw [if_pos hempty] at hlinked
    have hsame : (removeDiscoveryCB s pair.1).callbacks = s.callbacks := by
      rw [removeDiscoveryCB, List.filter_eq_self]
      intro node hnode
      have hg := h.given node hnode
      rw [hlinked]
      simpa using (by omega : node.1 ≠ -1)
    rw [hsame]
    constructor
    · intro t
      rw [if_neg (by simp [hempty])]
      exact h.count t
    · intro t node _ ht hnode
      have hl := h.linked t node hnode
      rwa [if_neg ht] at hl
  · rw [if_neg hempty] at hlinked
    constructor
    · intro t
      rw [← h.count t, ← length_filter_remove h.ids hlinked t]
      simp only [hempty, ne_eq, not_false_eq_true, and_true]
      rfl
    · intro t node hne ht hnode
      have hl := h.linked t node hnode
      rw [if_neg ht] at hl
      refine List.mem_filter.mpr ⟨hl, ?_⟩
      have hid : node.1 ≠ pair.1 := by
        intro he
        have heq := List.inj_on_of_nodup_map h.ids hl hlinked he
        exact hne (congrArg Prod.snd heq)
      simpa using hid

theorem Tracks.remove (h : Tracks s past) (topic : String) :
    Tracks (removeDiscoveryCallback s topic) (.remove topic :: past) := by
  have hheld : ∀ t, ((s.discoveryCallbacks.erase topic).lookup t).map (·.2) =
      holder t (.remove topic :: past) := by
    intro t
    rw [holder_cons, Event.holds]
    by_cases ht : topic = t
    · rw [ht, AList.lookup_erase, if_pos rfl]
      rfl
    · rw [AList.lookup_erase_ne (Ne.symm ht), if_neg ht]
      exact h.held t
  cases hp : s.discoveryCallbacks.lookup topic with
  | none =>
    have hr : removeDiscoveryCallback s topic =
        { s with discoveryCallbacks := s.discoveryCallbacks.erase topic } := by
      rw [removeDiscoveryCallback, hp]
    rw [hr]
    refine ⟨hheld, ?_, h.ids, h.given, ?_⟩
    · intro t
      have hnone : (holder topic past).isSome = false := by
        rw [← h.held topic, hp]
        rfl
      rw [registered]
      by_cases ht : topic = t
      · subst ht
        simpa [hnone] using h.count topic
      · simpa [ht] using h.count t
    · intro t pair hl
      exact h.linked t pair (lookup_erase_eq_some.mp hl).2
  | some pair =>
    have hr : removeDiscoveryCallback s topic =
        { removeDiscoveryCB s pair.1 with
          discoveryCallbacks := s.discoveryCallbacks.erase topic } := by
      rw [removeDiscoveryCallback, hp]
      rfl
    obtain ⟨hcount, hkept⟩ := h.givenBack hp
    rw [hr]
    refine ⟨hheld, ?_, ?_, ?_, ?_⟩
    · intro t
      have hsome : (holder topic past).isSome = true := by
        rw [← h.held topic, hp]
        rfl
      have hc := hcount t
      rw [registered]
      by_cases ht : topic = t
      · subst ht
        by_cases hempty : topic = ""
        · rw [if_neg (by simp [hempty])] at hc ⊢
          exact hc
        · rw [if_pos ⟨rfl, hempty⟩] at hc
          rw [if_pos ⟨rfl, hempty, hsome⟩, ← hc]
          rfl
      · rw [if_neg (by simp [ht])] at hc ⊢
        exact hc
    · exact h.ids.sublist (List.filter_sublist.map _)
    · intro node hnode
      exact h.given node (List.mem_of_mem_filter hnode)
    · intro t node hl
      obtain ⟨hne, hl⟩ := lookup_erase_eq_some.mp hl
      by_cases ht : t = ""
      · have hn := h.linked t node hl
        rw [if_pos ht] at hn ⊢
        exact hn
      · rw [if_neg ht]
        exact hkept t node hne ht hl

theorem Tracks.disconnect (h : Tracks s past) :
    Tracks (JniDiscovery.disconnect s) (.disconnect :: past) :=
  ⟨fun _ => rfl, h.count, h.ids, h.given, fun _ _ hp => by cases hp⟩

theorem Tracks.elsewhere (h : Tracks s past) :
    Tracks { s with id := s.id + 1 } (.elsewhere :: past) := by
  refine ⟨h.held, h.count, h.ids, ?_, h.linked⟩
  intro node hnode
  have hg := h.given node hnode
  simp only
  omega

theorem exec_tracks {es : List (Event κ)} (h : (machine κ).exec {} es = some s) :
    Tracks s es.reverse := by
  refine Machine.exec_history (P := fun ds s => Tracks s ds.reverse) (l := []) h ?_ ?_
  · exact ⟨fun _ => rfl, fun _ => rfl, List.nodup_nil, fun _ hn => absurd hn List.not_mem_nil,
      fun _ _ hp => by cases hp⟩
  · intro ds s e t _ hs ht
    rw [List.reverse_append, List.reverse_singleton, List.singleton_append]
    cases e with
    | set topic callback =>
      obtain ⟨-, ht⟩ := Option.ite_none_right_eq_some.mp ht
      cases ht
      exact hs.set topic callback
    | remove topic =>
      cases ht
      exact hs.remove topic
    | disconnect =>
      cases ht
      exact hs.disconnect
    | elsewhere =>
      obtain ⟨-, ht⟩ := Option.ite_none_right_eq_some.mp ht
      cases ht
      exact hs.elsewhere

theorem javaCallback_eq (h : Tracks s past) (topic clientId status : String) (message : Bytes) :
    javaCallback s topic clientId status message =
      (holder topic past).toList.map fun callback =>
        ⟨callback, topic, clientId, status, message⟩ := by
  rw [javaCallback, ← h.held topic]
  cases s.discoveryCallbacks.lookup topic <;> rfl

/-- The calls that the nodes of one topic make. -/
theorem flatMap_nodes (nodes : List (ℤ × String)) (hn : ∀ node ∈ nodes, node.2 = topic)
    (calls : String → List (Invocation κ)) :
    (nodes.flatMap fun node => calls node.2) =
      (List.replicate nodes.length (calls topic)).flatten := by
  induction nodes with
  | nil => rfl
  | cons node nodes ih =>
    rw [List.flatMap_cons, List.length_cons, List.replicate_succ, List.flatten_cons,
      hn node List.mem_cons_self, ih fun n hm => hn n (List.mem_cons_of_mem node hm)]

theorem filter_javaCallback (s : State κ) (topic other clientId status : String)
    (message : Bytes) :
    (javaCallback s other clientId status message).filter (·.topic = topic) =
      if other = topic then javaCallback s topic clientId status message else [] := by
  by_cases h : other = topic
  · rw [if_pos h, h, javaCallback]
    cases s.discoveryCallbacks.lookup topic <;> simp
  · rw [if_neg h, javaCallback]
    cases s.discoveryCallbacks.lookup other <;> simp [h]

theorem filter_nodes (s : State κ) (nodes : List (ℤ × String)) (topic clientId status : String)
    (message : Bytes) :
    ((nodes.flatMap fun node => javaCallback s node.2 clientId status message).filter
      (·.topic = topic)) =
      (List.replicate (nodes.filter (·.2 = topic)).length
        (javaCallback s topic clientId status message)).flatten := by
  rw [← flatMap_nodes (nodes.filter (·.2 = topic))
    (fun node hn => by simpa using (List.mem_filter.mp hn).2)
    fun t => javaCallback s t clientId status message]
  induction nodes with
  | nil => rfl
  | cons node nodes ih =>
    rw [List.flatMap_cons, List.filter_append, ih, filter_javaCallback]
    by_cases h : node.2 = topic <;> simp [h]

/-- A message for a topic is one call for each native callback of the topic. -/
theorem filter_discoveryMessageCallback (s : State κ) (m : Message) (topic : String) :
    (discoveryMessageCallback s m).filter (·.topic = topic) =
      (m.payloads topic).flatMap fun p =>
        (List.replicate (s.callbacks.filter (·.2 = topic)).length
          (javaCallback s topic p.1 p.2.1 p.2.2)).flatten := by
  cases m with
  | leaves clientId =>
    rw [discoveryMessageCallback, filter_nodes, Message.payloads, List.flatMap_singleton]
  | entries clientId status map =>
    rw [discoveryMessageCallback, Message.payloads]
    induction map with
    | nil => rfl
    | cons entry map ih =>
      rw [List.flatMap_cons, List.filter_append, ih]
      by_cases hs : entry.1 = "status"
      · rw [if_pos hs, List.filter_cons_of_neg (by simp [hs])]
        rfl
      · rw [if_neg hs, filter_nodes, List.filter_filter]
        by_cases ht : entry.1 = topic
        · rw [List.filter_cons_of_pos (by simpa [ht] using ht ▸ hs), List.map_cons,
            List.flatMap_cons, ht]
          simp only [Bool.and_self]
        · have hnone : s.callbacks.filter
              (fun node => decide (node.2 = topic) && decide (node.2 = entry.1)) = [] := by
            rw [List.filter_eq_nil_iff]
            intro node _ hnode
            simp only [Bool.and_eq_true, decide_eq_true_eq] at hnode
            exact ht (hnode.2.symm.trans hnode.1)
          rw [hnone, List.filter_cons_of_neg (by simp [ht])]
          rfl

def Matched (past : List (Event κ)) : Prop :=
  ∀ topic, topic ≠ "" → registered topic past = (holder topic past).toList.length

theorem Careful.matched (h : Careful past) : Matched past := by
  induction past with
  | nil =>
    intro topic _
    rfl
  | cons e past ih =>
    intro topic hne
    rw [holder_cons]
    cases e with
    | set t callback =>
      have hm := ih h.2 topic hne
      rw [registered, Event.holds]
      by_cases ht : t = topic
      · subst ht
        rw [h.1 hne] at hm
        simp [hm, hne]
      · simpa [ht] using hm
    | remove t =>
      have hm := ih h topic hne
      rw [registered, Event.holds]
      by_cases ht : t = topic
      · subst ht
        cases hh : holder t past <;> simp [hm, hh, hne]
      · simpa [ht] using hm
    | disconnect =>
      have hm := ih h.2 topic hne
      rw [h.1 topic hne] at hm
      exact hm
    | elsewhere => exact ih h topic hne

theorem Careful.suffix {past' : List (Event κ)} (h : Careful past) (hs : past' <:+ past) :
    Careful past' := by
  induction past with
  | nil =>
    rw [List.suffix_nil.mp hs]
    trivial
  | cons e past ih =>
    rcases List.suffix_cons_iff.mp hs with rfl | hrest
    · exact h
    · cases e with
      | set t callback => exact ih h.2 hrest
      | remove t => exact ih h hrest
      | disconnect => exact ih h.2 hrest
      | elsewhere => exact ih h hrest

/-- The care is needed: a callback set over another, or held at a disconnection, leaves a
native callback too many. -/
theorem careful_iff (past : List (Event κ)) :
    Careful past ↔ ∀ past', past' <:+ past → Matched past' := by
  constructor
  · intro h past' hs
    exact (h.suffix hs).matched
  · intro h
    induction past with
    | nil => trivial
    | cons e past ih =>
      have htail := ih fun past' hs => h past' (hs.trans (List.suffix_cons e past))
      have hold := h past (List.suffix_cons e past)
      have hnew := h (e :: past) (List.suffix_refl _)
      cases e with
      | set t callback =>
        refine ⟨?_, htail⟩
        intro hne
        have ho := hold t hne
        have hn := hnew t hne
        rw [holder_cons, Event.holds, registered] at hn
        simp only [if_true, hne, ne_eq, not_false_eq_true, and_self, Option.getD_some,
          Option.toList_some, List.length_singleton] at hn
        have hzero : (holder t past).toList.length = 0 := by omega
        cases hh : holder t past with
        | none => rfl
        | some callback' => simp [hh] at hzero
      | remove t => exact htail
      | disconnect =>
        refine ⟨?_, htail⟩
        intro t hne
        have ho := hold t hne
        have hn := hnew t hne
        rw [holder_cons, Event.holds, registered, ho] at hn
        cases hh : holder t past with
        | none => rfl
        | some callback => simp [hh] at hn
      | elsewhere => exact htail

theorem Fresh.registered_le (h : Fresh past) (hne : topic ≠ "") :
    registered topic past ≤ 1 ∧ ((holder topic past).isSome → registered topic past = 1) := by
  induction past with
  | nil => exact ⟨Nat.zero_le _, fun hs => by cases hs⟩
  | cons e past ih =>
    rw [holder_cons]
    cases e with
    | set t callback =>
      obtain ⟨hle, hone⟩ := ih h.2
      rw [registered, Event.holds]
      by_cases ht : t = topic
      · subst ht
        rw [h.1 hne, if_pos ⟨rfl, hne⟩]
        exact ⟨le_rfl, fun _ => rfl⟩
      · rw [if_neg (by simp [ht]), if_neg ht]
        exact ⟨hle, hone⟩
    | remove t =>
      obtain ⟨hle, hone⟩ := ih h
      rw [registered, Event.holds]
      by_cases ht : t = topic
      · rw [if_pos ht]
        exact ⟨(Nat.sub_le _ _).trans hle, fun hs => by cases hs⟩
      · rw [if_neg (by simp [ht]), if_neg ht]
        exact ⟨hle, hone⟩
    | disconnect => exact ⟨(ih h).1, fun hs => by cases hs⟩
    | elsewhere => exact ih h

theorem Fresh.suffix {past' : List (Event κ)} (h : Fresh past) (hs : past' <:+ past) :
    Fresh past' := by
  induction past with
  | nil =>
    rw [List.suffix_nil.mp hs]
    trivial
  | cons e past ih =>
    rcases List.suffix_cons_iff.mp hs with rfl | hrest
    · exact h
    · cases e with
      | set t callback => exact ih h.2 hrest
      | remove t => exact ih h hrest
      | disconnect => exact ih h hrest
      | elsewhere => exact ih h hrest

/-- Over a native callback that is left, a new one is one too many. -/
theorem fresh_iff (past : List (Event κ)) :
    Fresh past ↔ ∀ past', past' <:+ past → ∀ topic, topic ≠ "" →
      (holder topic past').isSome → registered topic past' = 1 := by
  constructor
  · intro h past' hs topic hne
    exact ((h.suffix hs).registered_le hne).2
  · intro h
    induction past with
    | nil => trivial
    | cons e past ih =>
      have htail := ih fun past' hs => h past' (hs.trans (List.suffix_cons e past))
      cases e with
      | set t callback =>
        refine ⟨fun hne => ?_, htail⟩
        have hnew := h _ (List.suffix_refl _) t hne
        rw [holder_cons, Event.holds, registered, if_pos rfl, if_pos ⟨rfl, hne⟩] at hnew
        exact Nat.succ_injective (hnew rfl)
      | remove t => exact htail
      | disconnect => exact htail
      | elsewhere => exact htail

/-- What the native callbacks of a topic call for a message. -/
theorem calls_eq (h : Tracks s past) (m : Message) (topic : String) :
    (discoveryMessageCallback s m).filter (·.topic = topic) =
      (m.payloads topic).flatMap fun p =>
        (List.replicate (registered topic past)
          ((holder topic past).toList.map fun callback =>
            (⟨callback, topic, p.1, p.2.1, p.2.2⟩ : Invocation κ))).flatten := by
  rw [filter_discoveryMessageCallback, h.count topic]
  apply List.flatMap_congr
  intro p _
  rw [javaCallback_eq h]

def ComesOnce (s : State κ) (past : List (Event κ)) : Prop :=
  ∀ m topic, topic ≠ "" → (discoveryMessageCallback s m).filter (·.topic = topic) =
    (m.payloads topic).flatMap fun p =>
      (holder topic past).toList.map fun callback => ⟨callback, topic, p.1, p.2.1, p.2.2⟩

theorem comesOnce_iff (h : Tracks s past) :
    ComesOnce s past ↔ ∀ topic, topic ≠ "" → (holder topic past).isSome →
      registered topic past = 1 := by
  constructor
  · intro hc topic hne hs
    have hcalls := hc (.leaves "") topic hne
    rw [calls_eq h, Message.payloads] at hcalls
    obtain ⟨callback, hh⟩ := Option.isSome_iff_exists.mp hs
    simpa [hh] using congrArg List.length hcalls
  · intro hone m topic hne
    rw [calls_eq h]
    apply List.flatMap_congr
    intro p _
    cases hh : holder topic past with
    | none => simp
    | some callback => simp [hone topic hne (by rw [hh]; rfl)]

/-- After any run a message calls, for each of its topics, the Java callback set last, once for
every native callback of the topic that is left. At every point of the run there are as many
native callbacks as there are Java ones to call exactly where callbacks were dropped before they
were set again and before every disconnection, and each message comes once exactly where none
was set over a native one that was left. -/
theorem discovery_invocations {es : List (Event κ)} (h : (machine κ).exec {} es = some s) :
    (∀ m topic, (discoveryMessageCallback s m).filter (·.topic = topic) =
      (m.payloads topic).flatMap fun p =>
        (List.replicate (registered topic es.reverse)
          ((holder topic es.reverse).toList.map fun callback =>
            (⟨callback, topic, p.1, p.2.1, p.2.2⟩ : Invocation κ))).flatten) ∧
    (Careful es.reverse ↔ ∀ past, past <:+ es.reverse → Matched past) ∧
    (Fresh es.reverse ↔ ∀ ds u, ds <+: es → (machine κ).exec {} ds = some u →
      ComesOnce u ds.reverse) := by
  refine ⟨fun m topic => calls_eq (exec_tracks h) m topic, careful_iff _, ?_⟩
  rw [fresh_iff]
  constructor
  · intro hf ds u hds hu
    exact (comesOnce_iff (exec_tracks hu)).mpr (hf _ (List.reverse_suffix.mpr hds))
  · intro hc past hs
    obtain ⟨fs, hfs⟩ : past.reverse <+: es := by
      rw [← List.reverse_reverse es]
      exact List.reverse_prefix.mpr hs
    rw [← hfs] at h
    obtain ⟨u, hu, -⟩ := Machine.exec_split h
    have honce := (comesOnce_iff (exec_tracks hu)).mp (hc _ u ⟨fs, hfs⟩ hu)
    rwa [List.reverse_reverse] at honce

/-- Two streams of one topic: the first hears nothing, the second everything twice. -/
theorem discovery_invocations_twice : ∃ s,
    (machine ℕ).exec {} [.set "a" 1, .elsewhere, .set "a" 2] = some s ∧
      (discoveryMessageCallback s (.entries "c" "connected" [("a", [5])])).filter
        (·.topic = "a") =
        [⟨2, "a", "c", "connected", [5]⟩, ⟨2, "a", "c", "connected", [5]⟩] := by
  obtain ⟨s, hs⟩ : ∃ s, (machine ℕ).exec {} [.set "a" 1, .elsewhere, .set "a" 2] = some s :=
    ⟨_, rfl⟩
  exact ⟨s, hs, ((discovery_invocations hs).1 _ "a").trans (by decide +kernel)⟩

end JniDiscovery
