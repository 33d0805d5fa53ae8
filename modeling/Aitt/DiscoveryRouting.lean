import Aitt.SubscriberCount
import Mathlib.Data.String.Basic

/-! The way of a discovery entry from a module of one client to a callback of another. All
modules and streams of a client store their entries in one map, under the name of a protocol
or under a topic that the user has chosen; the message with the whole map goes out under the
id of the client, and the receiver splits it up again by key. -/
namespace DiscoveryRouting

open AittTypes Flexbuffers NestedMaps
open AittDiscovery (emplace joinNetwork discoveryTopicBase)
open TcpPublishTable (willLeaveNetwork)
open SubscriberCount (clientIdOf discoveryTopic routed itemText clientIdOf_discoveryTopic
  routed_discoveryTopic)

inductive Kind where
  | tcp
  | secureTcp
  | mqtt
  | rtsp
  | webrtc
  deriving DecidableEq, Repr

/-- The users of the discovery service in one client; streams are told apart by a number. -/
inductive Module where
  | tcp
  | secureTcp
  | mqtt
  | rtsp (stream : ℕ) (topic : String)
  | webrtcSrc (stream : ℕ) (topic : String)
  | webrtcSink (stream : ℕ) (topic : String)
  deriving DecidableEq, Repr

namespace Module

def kind : Module → Kind
  | .tcp => .tcp
  | .secureTcp => .secureTcp
  | .mqtt => .mqtt
  | .rtsp _ _ => .rtsp
  | .webrtcSrc _ _ => .webrtc
  | .webrtcSink _ _ => .webrtc

def protocol : Module → String
  | .tcp => "TCP"
  | .secureTcp => "SECURE_TCP"
  | .mqtt => "MQTT"
  | .rtsp _ topic => topic
  | .webrtcSrc _ topic => topic ++ "/SRC"
  | .webrtcSink _ topic => topic ++ "/SINK"

def watching : Module → String
  | .webrtcSrc _ topic => topic ++ "/SINK"
  | .webrtcSink _ topic => topic ++ "/SRC"
  | m => m.protocol

end Module

def ready (id generated : String) : String := if id = "" then "aitt-" ++ generated else id

structure Update where
  module : Module
  blob : Bytes
  deriving DecidableEq, Repr

def discoveryMap (updates : List Update) : List (String × Bytes) :=
  updates.foldl (fun map u => emplace map u.module.protocol u.blob) []

def publishDiscoveryMsg [Package] (discoveryMap : List (String × Bytes)) : List (String × Item) :=
  finish (("status", .string joinNetwork) :: discoveryMap.map fun node => (node.1, .blob node.2))

def retainedMsg [Package] (updates : List Update) : Option (List (String × Item)) :=
  some (publishDiscoveryMsg (discoveryMap updates))

abbrev Callbacks := Map ℕ Module

/-- A call of a registered callback; the empty message has no blob. -/
structure Call where
  callback : ℕ
  clientId : String
  status : String
  blob : Option Bytes
  deriving DecidableEq, Repr

def discoveryMessageCallback [Package] (callbacks : Callbacks) (topic : String)
    (msg : Option (List (String × Item))) : List Call :=
  let clientId := clientIdOf topic
  if clientId = "" then []
  else
    match msg with
    | none => callbacks.entries.map fun node => ⟨node.1, clientId, willLeaveNetwork, none⟩
    | some map =>
      let status := cStr (itemText (lookup map "status"))
      (map.map (·.1)).flatMap fun key =>
        if key = "status" then []
        else
          let blob := asBlob (lookup map key)
          (callbacks.entries.filter (·.2.watching = key)).map fun node =>
            ⟨node.1, clientId, status, some blob⟩

/-- What a message of the client `id` leads to at a peer. `topicOk` says which topics
`mosquitto_publish` takes: valid text without wildcards, and not too long. -/
def receive [Package] (topicOk : String → Bool) (callbacks : Callbacks) (id : String)
    (msg : Option (List (String × Item))) : List Call :=
  let topic := discoveryTopic id
  if topicOk topic && routed topic then discoveryMessageCallback callbacks topic msg else []

def callsOf (n : ℕ) (calls : List Call) : List Call := calls.filter (·.callback = n)

def lastBlob (updates : List Update) (m : Module) : Option Bytes :=
  ((updates.filter (·.module = m)).getLast?).map (·.blob)

structure Faithful [Package] (topicOk : String → Bool) (id : String) (modules : List Module)
    (callbacks : Callbacks) (updates : List Update) : Prop where
  called : ∀ n w, callbacks.lookup n = some w → ∀ m ∈ modules, m.kind = w.kind →
    m.protocol = w.watching → ∀ blob, lastBlob updates m = some blob →
      callsOf n (receive topicOk callbacks id (retainedMsg updates)) =
        [⟨n, id, joinNetwork, some blob⟩]
  notCalled : ∀ n w, callbacks.lookup n = some w →
    (∀ m ∈ modules, m.kind = w.kind → m.protocol = w.watching → lastBlob updates m = none) →
      callsOf n (receive topicOk callbacks id (retainedMsg updates)) = []
  -- A peer with nothing but a module of the same kind for this key gets the entry.
  kept : ∀ m ∈ modules, ∀ blob, lastBlob updates m = some blob →
    ∀ w : Module, w.kind = m.kind → w.watching = m.protocol →
      callsOf 0 (receive topicOk (AList.singleton 0 w) id (retainedMsg updates)) =
        [⟨0, id, joinNetwork, some blob⟩]

def Leaves [Package] (topicOk : String → Bool) (id : String) (callbacks : Callbacks) : Prop :=
  ∀ n w, callbacks.lookup n = some w →
    callsOf n (receive topicOk callbacks id none) = [⟨n, id, willLeaveNetwork, none⟩]

structure Addressable (topicOk : String → Bool) (id : String) : Prop where
  taken : topicOk (discoveryTopic id) = true
  slashFree : '/' ∉ id.toList
  nulFree : NulFree id

structure Routable (topicOk : String → Bool) (id : String) (modules : List Module)
    (callbacks : Callbacks) : Prop where
  addressable : modules ≠ [] ∨ callbacks ≠ ∅ → Addressable topicOk id
  distinct : ∀ m ∈ modules, ∀ m' ∈ modules, m.protocol = m'.protocol → m = m'
  reserved : ∀ m ∈ modules, m.protocol ≠ "status"
  sameKind : ∀ n w, callbacks.lookup n = some w → ∀ m ∈ modules, m.protocol = w.watching →
    m.kind = w.kind

section Lists

variable {α β : Type}

theorem flatMap_single [DecidableEq α] {l : List α} (hl : l.Nodup) {f : α → List β} (a : α)
    (h : ∀ b ∈ l, b ≠ a → f b = []) : l.flatMap f = if a ∈ l then f a else [] := by
  induction l with
  | nil => rfl
  | cons b rest ih =>
    obtain ⟨hb, hrest⟩ := List.nodup_cons.mp hl
    rw [List.flatMap_cons, ih hrest fun c hc => h c (List.mem_cons_of_mem b hc)]
    by_cases he : b = a
    · subst he
      rw [if_neg hb, if_pos List.mem_cons_self, List.append_nil]
    · rw [h b List.mem_cons_self he, List.nil_append]
      simp [Ne.symm he]

theorem filter_key_eq {l : List (Σ _ : ℕ, β)} (hl : l.NodupKeys) {n : ℕ} {b : β}
    (hm : ⟨n, b⟩ ∈ l) : l.filter (·.1 = n) = [⟨n, b⟩] := by
  induction l with
  | nil => cases hm
  | cons p rest ih =>
    obtain ⟨hp, hrest⟩ := List.nodupKeys_cons.mp hl
    rcases List.mem_cons.mp hm with rfl | hm
    · have hnone : rest.filter (·.1 = n) = [] := by
        rw [List.filter_eq_nil_iff]
        intro q hq
        have hne : q.1 ≠ n := by
          rintro rfl
          exact hp (List.mem_map.mpr ⟨q, hq, rfl⟩)
        simpa using hne
      rw [List.filter_cons_of_pos (by simp), hnone]
    · have hne : p.1 ≠ n := fun he => hp (he ▸ List.mem_keys_of_mem hm)
      rw [List.filter_cons_of_neg (by simpa using hne), ih hrest hm]

end Lists

section Emplace

def Ordered (map : List (String × Bytes)) : Prop := map.Pairwise fun a b => a.1 < b.1

theorem mem_emplace {map : List (String × Bytes)} (hs : Ordered map) (protocol : String)
    (blob : Bytes) (p : String × Bytes) :
    p ∈ emplace map protocol blob ↔ p = (protocol, blob) ∨ p.1 ≠ protocol ∧ p ∈ map := by
  induction map with
  | nil => simp [emplace]
  | cons q rest ih =>
    obtain ⟨hq, hrest⟩ := List.pairwise_cons.mp hs
    have hlater : ∀ r ∈ rest, q.1 < r.1 := hq
    unfold emplace
    split_ifs with he hlt
    · subst he
      have hne : ∀ r ∈ rest, r.1 ≠ q.1 := fun r hr => (hlater r hr).ne'
      simp only [List.mem_cons]
      constructor
      · rintro (rfl | hp)
        · exact Or.inl rfl
        · exact Or.inr ⟨hne p hp, Or.inr hp⟩
      · rintro (rfl | ⟨hp, rfl | hm⟩)
        · exact Or.inl rfl
        · exact absurd rfl hp
        · exact Or.inr hm
    · have hne : ∀ r ∈ q :: rest, r.1 ≠ protocol := by
        intro r hr
        rcases List.mem_cons.mp hr with rfl | hr
        · exact hlt.ne'
        · exact (hlt.trans (hlater r hr)).ne'
      rw [List.mem_cons]
      constructor
      · rintro (rfl | hp)
        · exact Or.inl rfl
        · exact Or.inr ⟨hne p hp, hp⟩
      · rintro (rfl | ⟨-, hp⟩)
        · exact Or.inl rfl
        · exact Or.inr hp
    · rw [List.mem_cons, ih hrest, List.mem_cons]
      constructor
      · rintro (rfl | rfl | ⟨hp, hm⟩)
        · exact Or.inr ⟨Ne.symm he, Or.inl rfl⟩
        · exact Or.inl rfl
        · exact Or.inr ⟨hp, Or.inr hm⟩
      · rintro (rfl | ⟨hp, rfl | hm⟩)
        · exact Or.inr (Or.inl rfl)
        · exact Or.inl rfl
        · exact Or.inr (Or.inr ⟨hp, hm⟩)

theorem ordered_emplace {map : List (String × Bytes)} (hs : Ordered map) (protocol : String)
    (blob : Bytes) : Ordered (emplace map protocol blob) := by
  induction map with
  | nil => exact List.pairwise_singleton _ _
  | cons q rest ih =>
    obtain ⟨hq, hrest⟩ := List.pairwise_cons.mp hs
    unfold emplace
    split_ifs with he hlt
    · exact List.pairwise_cons.mpr ⟨hq, hrest⟩
    · refine List.pairwise_cons.mpr ⟨fun r hr => ?_, hs⟩
      rcases List.mem_cons.mp hr with rfl | hr
      · exact hlt
      · exact hlt.trans (hq r hr)
    · refine List.pairwise_cons.mpr ⟨fun r hr => ?_, ih hrest⟩
      rcases (mem_emplace hrest protocol blob r).mp hr with rfl | ⟨-, hr⟩
      · exact lt_of_le_of_ne (not_lt.mp hlt) (Ne.symm he)
      · exact hq r hr

end Emplace

theorem discoveryMap_append (updates : List Update) (u : Update) :
    discoveryMap (updates ++ [u]) =
      emplace (discoveryMap updates) u.module.protocol u.blob := by
  rw [discoveryMap, List.foldl_append]
  rfl

theorem ordered_discoveryMap (updates : List Update) : Ordered (discoveryMap updates) := by
  induction updates using List.reverseRecOn with
  | nil => exact List.Pairwise.nil
  | append_singleton updates u ih =>
    rw [discoveryMap_append]
    exact ordered_emplace ih u.module.protocol u.blob

/-- The map holds, under each key, what was stored there last by any module. -/
theorem mem_discoveryMap (updates : List Update) (key : String) (blob : Bytes) :
    (key, blob) ∈ discoveryMap updates ↔
      ((updates.filter (·.module.protocol = key)).getLast?).map (·.blob) = some blob := by
  induction updates using List.reverseRecOn with
  | nil => simp [discoveryMap]
  | append_singleton updates u ih =>
    rw [discoveryMap_append, mem_emplace (ordered_discoveryMap updates), ih, List.filter_append]
    by_cases hk : u.module.protocol = key
    · simp [hk, eq_comm]
    · simp [hk, Ne.symm hk]

def StatusFree (updates : List Update) : Prop := ∀ u ∈ updates, u.module.protocol ≠ "status"

theorem StatusFree.not_mem {updates : List Update} (h : StatusFree updates) :
    "status" ∉ (discoveryMap updates).map (·.1) := by
  rintro hm
  obtain ⟨⟨key, blob⟩, hp, rfl⟩ := List.mem_map.mp hm
  have hlast := (mem_discoveryMap updates _ blob).mp hp
  obtain ⟨u, hu, -⟩ := Option.map_eq_some_iff.mp hlast
  have hmem := List.mem_filter.mp (List.mem_of_getLast? hu)
  exact h u hmem.1 (by simpa using hmem.2)

theorem mem_publishDiscoveryMsg [Package] (map : List (String × Bytes)) (p : String × Item) :
    p ∈ publishDiscoveryMsg map ↔
      p = ("status", .string joinNetwork) ∨ ∃ blob, (p.1, blob) ∈ map ∧ p.2 = .blob blob := by
  rw [publishDiscoveryMsg, (finish_perm _).mem_iff, List.mem_cons, List.mem_map]
  refine or_congr Iff.rfl ⟨?_, ?_⟩
  · rintro ⟨⟨key, blob⟩, hm, rfl⟩
    exact ⟨blob, hm, rfl⟩
  · rintro ⟨blob, hm, he⟩
    exact ⟨(p.1, blob), hm, by rw [← he]⟩

theorem publishDiscoveryMsg_nodup [Package] {updates : List Update} (h : StatusFree updates) :
    ((publishDiscoveryMsg (discoveryMap updates)).map (·.1)).Nodup := by
  have hp : ((publishDiscoveryMsg (discoveryMap updates)).map (·.1)).Perm
      ("status" :: (discoveryMap updates).map (·.1)) := by
    refine ((finish_perm _).map _).trans (List.Perm.of_eq ?_)
    rw [List.map_cons, List.map_map]
    rfl
  have ho : ((discoveryMap updates).map (·.1)).Nodup :=
    List.pairwise_map.mpr ((ordered_discoveryMap updates).imp fun hlt => hlt.ne)
  rw [hp.nodup_iff]
  exact List.nodup_cons.mpr ⟨h.not_mem, ho⟩

theorem lookup_singleton (n : ℕ) (w : Module) :
    (AList.singleton n w : Callbacks).lookup n = some w := by
  exact List.dlookup_cons_eq ([] : List (Sigma fun _ : ℕ => Module)) n w

section Calls

variable {callbacks : Callbacks} {n : ℕ} {w : Module} {topic : String}

theorem callsOf_watching (hw : callbacks.lookup n = some w) (key : String)
    (call : (Σ _ : ℕ, Module) → Call) (hc : ∀ node, (call node).callback = node.1) :
    callsOf n ((callbacks.entries.filter (·.2.watching = key)).map call) =
      if w.watching = key then [call ⟨n, w⟩] else [] := by
  have hm : ⟨n, w⟩ ∈ callbacks.entries := AList.mem_lookup_iff.mp hw
  have hcomm : (callbacks.entries.filter (·.2.watching = key)).filter (·.1 = n) =
      (callbacks.entries.filter (·.1 = n)).filter (·.2.watching = key) := List.filter_comm ..
  rw [callsOf, List.filter_map]
  have hp : ((fun x : Call => decide (x.callback = n)) ∘ call) =
      fun node : (Σ _ : ℕ, Module) => decide (node.1 = n) := by
    funext node
    simp [hc]
  rw [hp, hcomm, filter_key_eq callbacks.nodupKeys hm]
  by_cases he : w.watching = key
  · simp [he]
  · simp [he]

/-- A callback is called for its own key only, and once. -/
theorem callsOf_discoveryMessageCallback [Package] (hw : callbacks.lookup n = some w)
    {map : List (String × Item)} (hn : (map.map (·.1)).Nodup) (hid : clientIdOf topic ≠ "") :
    callsOf n (discoveryMessageCallback callbacks topic (some map)) =
      if w.watching ∈ map.map (·.1) ∧ w.watching ≠ "status" then
        [⟨n, clientIdOf topic, cStr (itemText (lookup map "status")),
          some (asBlob (lookup map w.watching))⟩]
      else [] := by
  have hkey := fun key => callsOf_watching hw key (fun node => ⟨node.1, clientIdOf topic,
    cStr (itemText (lookup map "status")), some (asBlob (lookup map key))⟩) fun _ => rfl
  simp only [discoveryMessageCallback, if_neg hid]
  rw [callsOf, List.filter_flatMap, flatMap_single hn w.watching]
  · by_cases hs : w.watching = "status"
    · simp [hs]
    · simp only [ne_eq, hs, not_false_eq_true, and_true]
      refine if_congr Iff.rfl ?_ rfl
      exact (hkey w.watching).trans (if_pos rfl)
  · intro key _ hne
    by_cases hs : key = "status"
    · rw [if_pos hs, List.filter_nil]
    · rw [if_neg hs]
      exact (hkey key).trans (if_neg (Ne.symm hne))

/-- No key that a callback is called for is the one of the status. -/
theorem watching_of_mem [Package] {map : List (String × Item)} {c : Call}
    (h : c ∈ discoveryMessageCallback callbacks topic (some map)) :
    ∃ w : Module, ⟨c.callback, w⟩ ∈ callbacks.entries ∧ w.watching ≠ "status" := by
  by_cases hid : clientIdOf topic = ""
  · simp [discoveryMessageCallback, hid] at h
  · simp only [discoveryMessageCallback, if_neg hid] at h
    obtain ⟨key, -, hk⟩ := List.mem_flatMap.mp h
    split at hk
    case isTrue => cases hk
    case isFalse hs =>
      obtain ⟨⟨n, w⟩, hnode, rfl⟩ := List.mem_map.mp hk
      obtain ⟨hm, hw⟩ := List.mem_filter.mp hnode
      refine ⟨w, hm, ?_⟩
      rw [show w.watching = key by simpa using hw]
      exact hs

theorem callsOf_leaving [Package] (hw : callbacks.lookup n = some w) (hid : clientIdOf topic ≠ "") :
    callsOf n (discoveryMessageCallback callbacks topic none) =
      [⟨n, clientIdOf topic, willLeaveNetwork, none⟩] := by
  simp only [discoveryMessageCallback, if_neg hid]
  have hm : ⟨n, w⟩ ∈ callbacks.entries := AList.mem_lookup_iff.mp hw
  rw [callsOf, List.filter_map]
  have hp : ((fun x : Call => decide (x.callback = n)) ∘
      fun node : (Σ _ : ℕ, Module) => (⟨node.1, clientIdOf topic, willLeaveNetwork, none⟩ : Call)) =
      fun node => decide (node.1 = n) := rfl
  rw [hp, filter_key_eq callbacks.nodupKeys hm]
  rfl

end Calls

section Addressable

variable {topicOk : String → Bool} {id : String}

theorem Addressable.receive_eq [Package] (h : Addressable topicOk id) (callbacks : Callbacks)
    (msg : Option (List (String × Item))) :
    receive topicOk callbacks id msg =
      discoveryMessageCallback callbacks (discoveryTopic id) msg := by
  rw [receive, if_pos]
  rw [Bool.and_eq_true]
  exact ⟨h.taken, (routed_discoveryTopic h.nulFree).mpr h.slashFree⟩

theorem clientId_of_mem [Package] {callbacks : Callbacks} {topic : String}
    {msg : Option (List (String × Item))} {c : Call}
    (h : c ∈ discoveryMessageCallback callbacks topic msg) : c.clientId = clientIdOf topic := by
  by_cases hid : clientIdOf topic = ""
  · simp [discoveryMessageCallback, hid] at h
  · simp only [discoveryMessageCallback, if_neg hid] at h
    cases msg with
    | none =>
      obtain ⟨node, -, rfl⟩ := List.mem_map.mp h
      rfl
    | some map =>
      obtain ⟨key, -, hk⟩ := List.mem_flatMap.mp h
      split at hk
      · cases hk
      · obtain ⟨node, -, rfl⟩ := List.mem_map.mp hk
        rfl

theorem drop_discoveryTopic_takeWhile (id : String) :
    (discoveryTopic id).toList.drop discoveryTopicBase.length =
      id.toList.takeWhile (· ≠ '\x00') := by
  have hbase : discoveryTopicBase.toList.all (· ≠ '\x00') = true := by decide
  rw [discoveryTopic, cStr, String.toList_ofList, String.toList_append,
    List.takeWhile_append_of_pos (List.all_eq_true.mp hbase), ← String.length_toList,
    List.drop_left]

/-- A message that arrives under the id of its sender has come over an addressable topic. -/
theorem addressable_of_call [Package] {callbacks : Callbacks} {msg : Option (List (String × Item))}
    {c : Call} (h : c ∈ receive topicOk callbacks id msg) (hid : c.clientId = id) :
    Addressable topicOk id := by
  simp only [receive] at h
  split at h
  case isFalse => cases h
  case isTrue hok =>
    obtain ⟨htaken, hrouted⟩ := Bool.and_eq_true_iff.mp hok
    have hclient := clientId_of_mem h
    rw [hid] at hclient
    have hslash : '/' ∉ id.toList.takeWhile (· ≠ '\x00') := by
      simp only [routed, Bool.and_eq_true, decide_eq_true_eq, drop_discoveryTopic_takeWhile]
        at hrouted
      exact hrouted.2
    have hnone : (id.toList.takeWhile (· ≠ '\x00')).findIdx? (· = '/') = none := by
      rw [List.findIdx?_eq_none_iff]
      intro c hc
      simpa using ne_of_mem_of_not_mem hc hslash
    have hwhole : id.toList.takeWhile (· ≠ '\x00') = id.toList := by
      simp only [clientIdOf, drop_discoveryTopic_takeWhile, hnone] at hclient
      rw [hclient, String.toList_ofList, List.takeWhile_idem]
    refine ⟨htaken, hwhole ▸ hslash, ?_⟩
    intro hmem
    rw [← hwhole] at hmem
    simpa using List.mem_takeWhile_imp hmem

end Addressable

theorem getLast?_filter_protocol {modules : List Module} {updates : List Update}
    (hd : ∀ m ∈ modules, ∀ m' ∈ modules, m.protocol = m'.protocol → m = m')
    (hu : ∀ u ∈ updates, u.module ∈ modules) {m : Module} (hm : m ∈ modules) :
    updates.filter (·.module.protocol = m.protocol) = updates.filter (·.module = m) := by
  refine List.filter_congr fun u hmem => ?_
  have hiff : u.module.protocol = m.protocol ↔ u.module = m :=
    ⟨hd _ (hu u hmem) m hm, congrArg Module.protocol⟩
  simp only [hiff]

section Message

variable {topicOk : String → Bool} {id : String} {callbacks : Callbacks} {n : ℕ} {w : Module}
  {updates : List Update}

theorem lookup_status [Package] (h : StatusFree updates) :
    cStr (itemText (lookup (publishDiscoveryMsg (discoveryMap updates)) "status")) =
      joinNetwork := by
  rw [lookup_of_mem (publishDiscoveryMsg_nodup h) ((mem_publishDiscoveryMsg _ _).mpr (.inl rfl))]
  decide

/-- A peer reads under a key what was stored there last. -/
theorem callsOf_receive [Package] (ha : Addressable topicOk id) (hid : id ≠ "")
    (h : StatusFree updates) (hw : callbacks.lookup n = some w) :
    callsOf n (receive topicOk callbacks id (retainedMsg updates)) =
      (((updates.filter (·.module.protocol = w.watching)).getLast?).map (·.blob)).toList.map
        fun blob => ⟨n, id, joinNetwork, some blob⟩ := by
  have hclient := clientIdOf_discoveryTopic ha.nulFree ha.slashFree
  rw [ha.receive_eq, retainedMsg, callsOf_discoveryMessageCallback hw (publishDiscoveryMsg_nodup h)
    (by rw [hclient]; exact hid), hclient, lookup_status h]
  cases hl : ((updates.filter (·.module.protocol = w.watching)).getLast?).map (·.blob) with
  | none =>
    rw [if_neg]
    · rfl
    rintro ⟨hm, hne⟩
    obtain ⟨p, hp, he⟩ := List.mem_map.mp hm
    rcases (mem_publishDiscoveryMsg _ p).mp hp with rfl | ⟨blob, hb, -⟩
    · exact hne he.symm
    · rw [he, mem_discoveryMap, hl] at hb
      cases hb
  | some blob =>
    have hb := (mem_discoveryMap updates w.watching blob).mpr hl
    have hmem : (w.watching, Item.blob blob) ∈ publishDiscoveryMsg (discoveryMap updates) :=
      (mem_publishDiscoveryMsg _ _).mpr (.inr ⟨blob, hb, rfl⟩)
    have hne : w.watching ≠ "status" := by
      intro he
      exact h.not_mem (he ▸ List.mem_map.mpr ⟨_, hb, rfl⟩)
    rw [if_pos ⟨List.mem_map.mpr ⟨_, hmem, rfl⟩, hne⟩,
      lookup_of_mem (publishDiscoveryMsg_nodup h) hmem, asBlob_blob]
    rfl

theorem callsOf_receive_none [Package] (ha : Addressable topicOk id) (hid : id ≠ "")
    (hw : callbacks.lookup n = some w) :
    callsOf n (receive topicOk callbacks id none) = [⟨n, id, willLeaveNetwork, none⟩] := by
  have hclient := clientIdOf_discoveryTopic ha.nulFree ha.slashFree
  rw [ha.receive_eq, callsOf_leaving hw (by rw [hclient]; exact hid), hclient]

end Message

theorem ready_ne_empty (id generated : String) : ready id generated ≠ "" := by
  unfold ready
  split_ifs with h
  · intro he
    have hl := congrArg String.length he
    rw [String.length_append] at hl
    simp at hl
  · exact h

/-- For every module there is one of the same kind that watches its key. -/
theorem Module.exists_watcher (m : Module) :
    ∃ w : Module, w.kind = m.kind ∧ w.watching = m.protocol := by
  cases m with
  | tcp => exact ⟨.tcp, rfl, rfl⟩
  | secureTcp => exact ⟨.secureTcp, rfl, rfl⟩
  | mqtt => exact ⟨.mqtt, rfl, rfl⟩
  | rtsp stream topic => exact ⟨.rtsp stream topic, rfl, rfl⟩
  | webrtcSrc stream topic => exact ⟨.webrtcSink stream topic, rfl, rfl⟩
  | webrtcSink stream topic => exact ⟨.webrtcSrc stream topic, rfl, rfl⟩

section Main

variable {topicOk : String → Bool} {id : String} {modules : List Module} {callbacks : Callbacks}

theorem Routable.faithful [Package] (h : Routable topicOk id modules callbacks) (hid : id ≠ "")
    {updates : List Update} (hu : ∀ u ∈ updates, u.module ∈ modules) (hne : updates ≠ []) :
    Faithful topicOk id modules callbacks updates := by
  have hmod : modules ≠ [] := by
    obtain ⟨u, rest, rfl⟩ := List.exists_cons_of_ne_nil hne
    exact List.ne_nil_of_mem (hu u List.mem_cons_self)
  have ha := h.addressable (.inl hmod)
  have hs : StatusFree updates := fun u hm => h.reserved _ (hu u hm)
  have hlast : ∀ m ∈ modules, ∀ blob, lastBlob updates m = some blob →
      ((updates.filter (·.module.protocol = m.protocol)).getLast?).map (·.blob) = some blob := by
    intro m hm blob hb
    rw [getLast?_filter_protocol h.distinct hu hm]
    exact hb
  refine ⟨fun n w hw m hm hk hp blob hb => ?_, fun n w hw hnone => ?_,
    fun m hm blob hb w hk hp => ?_⟩
  · rw [callsOf_receive ha hid hs hw, ← hp, hlast m hm blob hb]
    rfl
  · rw [callsOf_receive ha hid hs hw]
    cases hl : ((updates.filter (·.module.protocol = w.watching)).getLast?) with
    | none => rfl
    | some u =>
      have hmem := List.mem_filter.mp (List.mem_of_getLast? hl)
      have hm := hu u hmem.1
      have hp : u.module.protocol = w.watching := by simpa using hmem.2
      have hb := hnone u.module hm (h.sameKind n w hw _ hm hp) hp
      rw [lastBlob, ← getLast?_filter_protocol h.distinct hu hm, hp, hl] at hb
      cases hb
  · rw [callsOf_receive ha hid hs (lookup_singleton 0 w), hp, hlast m hm blob hb]
    rfl

theorem Routable.leaves [Package] (h : Routable topicOk id modules callbacks) (hid : id ≠ "") :
    Leaves topicOk id callbacks := by
  intro n w hw
  have hne : callbacks ≠ ∅ := by
    rintro rfl
    cases hw
  exact callsOf_receive_none (h.addressable (.inr hne)) hid hw

theorem lastBlob_single (m : Module) (blob : Bytes) : lastBlob [⟨m, blob⟩] m = some blob := by
  simp [lastBlob]

theorem lastBlob_single_ne {m m' : Module} (h : m' ≠ m) (blob : Bytes) :
    lastBlob [⟨m, blob⟩] m' = none := by
  simp [lastBlob, Ne.symm h]

theorem routable_of_faithful [Package] (hid : id ≠ "")
    (hf : ∀ updates, (∀ u ∈ updates, u.module ∈ modules) → updates ≠ [] →
      Faithful topicOk id modules callbacks updates)
    (hl : Leaves topicOk id callbacks) : Routable topicOk id modules callbacks := by
  have hone : ∀ m ∈ modules, ∀ blob,
      Faithful topicOk id modules callbacks [⟨m, blob⟩] := by
    intro m hm blob
    refine hf _ (fun u hu => ?_) (List.cons_ne_nil _ _)
    obtain rfl := List.mem_singleton.mp hu
    exact hm
  -- One stored entry shows that the topic works, and that its key is not the one of the status.
  have hprobe : ∀ m ∈ modules, Addressable topicOk id ∧ m.protocol ≠ "status" := by
    intro m hm
    obtain ⟨w, hk, hw⟩ := m.exists_watcher
    have hcalls := (hone m hm []).kept m hm [] (lastBlob_single m []) w hk hw
    have hmem := List.mem_of_mem_filter (hcalls ▸ List.mem_singleton_self _ :
      _ ∈ callsOf 0 (receive topicOk (AList.singleton 0 w) id (retainedMsg [⟨m, []⟩])))
    have ha := addressable_of_call hmem rfl
    refine ⟨ha, ?_⟩
    rw [ha.receive_eq] at hmem
    obtain ⟨w', hw', hs⟩ := watching_of_mem hmem
    have heq : w' = w := by
      cases List.mem_singleton.mp hw'
      rfl
    rw [← hw, ← heq]
    exact hs
  have hstatus : ∀ updates : List Update, (∀ u ∈ updates, u.module ∈ modules) →
      StatusFree updates := fun updates hu u hm => (hprobe _ (hu u hm)).2
  refine ⟨?_, fun m hm m' hm' hp => ?_, fun m hm => (hprobe m hm).2,
    fun n w hw m hm hp => ?_⟩
  · rintro (hne | hne)
    · obtain ⟨m, rest, rfl⟩ := List.exists_cons_of_ne_nil hne
      exact (hprobe m List.mem_cons_self).1
    · obtain ⟨⟨n, w⟩, hnode⟩ := List.exists_mem_of_ne_nil callbacks.entries
        fun he => hne (AList.ext he)
      have hcalls := hl n w (AList.mem_lookup_iff.mpr hnode)
      have hmem := List.mem_of_mem_filter (hcalls ▸ List.mem_singleton_self _ :
        _ ∈ callsOf n (receive topicOk callbacks id none))
      exact addressable_of_call hmem rfl
  · by_contra hmm
    have hu : ∀ u ∈ [⟨m, [0]⟩, (⟨m', [1]⟩ : Update)], u.module ∈ modules := by
      intro u hu
      simp only [List.mem_cons, List.not_mem_nil, or_false] at hu
      rcases hu with rfl | rfl
      · exact hm
      · exact hm'
    obtain ⟨w, hk, hw⟩ := m.exists_watcher
    have hlast : lastBlob [⟨m, [0]⟩, ⟨m', [1]⟩] m = some [0] := by
      simp [lastBlob, Ne.symm hmm]
    have hcalls := (hf _ hu (List.cons_ne_nil _ _)).kept m hm [0] hlast w hk hw
    rw [callsOf_receive (hprobe m hm).1 hid (hstatus _ hu) (lookup_singleton 0 w), hw] at hcalls
    simp [hp] at hcalls
  · by_contra hkind
    have hu : ∀ u ∈ [(⟨m, []⟩ : Update)], u.module ∈ modules := by
      intro u hu
      obtain rfl := List.mem_singleton.mp hu
      exact hm
    have hcalls := (hone m hm []).notCalled n w hw fun m' _ hk _ =>
      lastBlob_single_ne (by rintro rfl; exact hkind hk) []
    rw [callsOf_receive (hprobe m hm).1 hid (hstatus _ hu) hw] at hcalls
    simp [hp] at hcalls

/-- Discovery entries reach the callbacks they are meant for, whatever the modules store and in
whatever order, exactly when the keys do not clash and the id fits into one level of a topic. -/
theorem discovery_routing_faithful_iff [Package] (topicOk : String → Bool) (id generated : String)
    (modules : List Module) (callbacks : Callbacks) :
    ((∀ updates, (∀ u ∈ updates, u.module ∈ modules) → updates ≠ [] →
        Faithful topicOk (ready id generated) modules callbacks updates) ∧
      Leaves topicOk (ready id generated) callbacks) ↔
    Routable topicOk (ready id generated) modules callbacks := by
  have hid := ready_ne_empty id generated
  constructor
  · rintro ⟨hf, hl⟩
    exact routable_of_faithful hid hf hl
  · intro h
    exact ⟨fun updates hu hne => h.faithful hid hu hne, h.leaves hid⟩

/-- The check of `mosquitto_publish` on short topics of plain text. -/
def wildcardFree (topic : String) : Bool := '+' ∉ topic.toList ∧ '#' ∉ topic.toList

theorem addressable_car : Addressable wildcardFree "car" where
  taken := by
    rw [wildcardFree, SubscriberCount.discoveryTopic_toList (by decide)]
    decide
  slashFree := by decide
  nulFree := by decide

local instance : Package := plain

theorem handler_hears_its_own_entry :
    callsOf 0 (receive wildcardFree (AList.singleton 0 .mqtt) (ready "car" "")
        (retainedMsg [⟨.mqtt, [1]⟩])) =
      [⟨0, "car", joinNetwork, some [1]⟩] := by
  have hr : Routable wildcardFree (ready "car" "") [.mqtt] (AList.singleton 0 .mqtt) := {
    addressable := fun _ => addressable_car
    distinct := by
      intro m hm m' hm' _
      rw [List.mem_singleton.mp hm, List.mem_singleton.mp hm']
    reserved := by decide
    sameKind := by
      intro n w hw m hm _
      have hn : ⟨n, w⟩ ∈ (AList.singleton 0 Module.mqtt : Callbacks).entries :=
        AList.mem_lookup_iff.mp hw
      cases List.mem_singleton.mp hn
      rw [List.mem_singleton.mp hm] }
  obtain ⟨hf, -⟩ := (discovery_routing_faithful_iff wildcardFree "car" "" [.mqtt] _).mpr hr
  have hu : ∀ u ∈ [(⟨.mqtt, [1]⟩ : Update)], u.module ∈ [Module.mqtt] := by decide
  exact (hf _ hu (List.cons_ne_nil _ _)).called 0 .mqtt (lookup_singleton 0 .mqtt) .mqtt
    List.mem_cons_self rfl rfl [1] (lastBlob_single .mqtt [1])

/-- The entry of a stream whose topic is "MQTT" takes the place of the handler's. -/
theorem stream_overwrites_the_handler :
    lastBlob [⟨.mqtt, [1]⟩, ⟨.rtsp 0 "MQTT", [2]⟩] .mqtt = some [1] ∧
    callsOf 0 (receive wildcardFree (AList.singleton 0 .mqtt) (ready "car" "")
        (retainedMsg [⟨.mqtt, [1]⟩, ⟨.rtsp 0 "MQTT", [2]⟩])) =
      [⟨0, "car", joinNetwork, some [2]⟩] ∧
    ¬ Faithful wildcardFree (ready "car" "") [.mqtt, .rtsp 0 "MQTT"] (AList.singleton 0 .mqtt)
        [⟨.mqtt, [1]⟩, ⟨.rtsp 0 "MQTT", [2]⟩] := by
  have hlast : lastBlob [⟨.mqtt, [1]⟩, ⟨.rtsp 0 "MQTT", [2]⟩] .mqtt = some [1] := by decide
  have hcalls : callsOf 0 (receive wildcardFree (AList.singleton 0 .mqtt) (ready "car" "")
      (retainedMsg [⟨.mqtt, [1]⟩, ⟨.rtsp 0 "MQTT", [2]⟩])) =
      [⟨0, "car", joinNetwork, some [2]⟩] := by
    have hs : StatusFree [⟨.mqtt, [1]⟩, ⟨.rtsp 0 "MQTT", [2]⟩] := by
      unfold StatusFree
      decide
    exact callsOf_receive addressable_car (by decide) hs (lookup_singleton 0 .mqtt)
  refine ⟨hlast, hcalls, fun h => ?_⟩
  have hcalled := h.called 0 .mqtt (lookup_singleton 0 .mqtt) .mqtt (by decide) rfl rfl [1] hlast
  rw [hcalls] at hcalled
  exact absurd hcalled (by decide)

end Main

end DiscoveryRouting
