import Aitt.TcpModule
import Aitt.TcpPublishTable

/-! The discovery message of the TCP module, written by `UpdateDiscoveryMsg` and read by
`DiscoveryMessageCallback`. Topics and the host share the keys of one map, keys are C strings,
and the reader takes the number of callbacks as sixteen bits. -/
namespace TcpDiscoveryCodec

open AittTypes Flexbuffers TcpModule
open TcpPublishTable (ConnectInfo keyLen ivLen asVector asString readConnectInfo)

variable {κ : Type}

/-- The keys of a flexbuffer map, in the order of the map, and its lookup, of which nothing is
known for a map with equal keys. -/
structure MapReader where
  keys : Blob → List String
  find : Blob → String → Value
  keys_perm : ∀ blob, (keys blob).Perm (blob.map (·.1))
  faithful : ∀ blob key value, (blob.map (·.1)).Nodup → (key, value) ∈ blob →
    find blob key = value

def decodeTopics [Package] (reader : MapReader) (secure : Bool) (map : Blob) :
    List String → List (String × ConnectInfo)
  | [] => []
  | key :: keys =>
    if cStr key = "host" then decodeTopics reader secure map keys
    else match readConnectInfo secure (asVector (reader.find map (cStr key))) with
      | none => []
      | some info => (cStr key, info) :: decodeTopics reader secure map keys

def decode [Package] (reader : MapReader) (secure : Bool) (map : Blob) :
    String × List (String × ConnectInfo) :=
  (cStr (asString (reader.find map "host")), decodeTopics reader secure map (reader.keys map))

def serverInfo (secure : Bool) (d : ServerData κ) : ConnectInfo :=
  let info : ConnectInfo := { port := d.server.port, numOfCb := d.cbList.length }
  if secure then { info with secure := true, key := d.server.key, iv := d.server.iv } else info

structure Kept (m : Module κ) : Prop where
  topics : (m.subscribeTable.map (·.topic)).Nodup
  keys : ∀ d ∈ m.subscribeTable, d.server.key.length = keyLen
  ivs : ∀ d ∈ m.subscribeTable, d.server.iv.length = ivLen

structure RoundTrip [Package] (reader : MapReader) (m : Module κ) : Prop where
  host : (decode reader m.secure m.discoveryBlob).1 = m.ip
  servers : ∀ topic info, (topic, info) ∈ (decode reader m.secure m.discoveryBlob).2 ↔
    ∃ d ∈ m.subscribeTable, d.topic = topic ∧ serverInfo m.secure d = info

/-- No name has a NUL, no topic is the reserved key, and the counts fit in sixteen bits. -/
structure Encodable (m : Module κ) : Prop where
  host : NulFree m.ip
  topics : ∀ d ∈ m.subscribeTable, NulFree d.topic
  reserved : ∀ d ∈ m.subscribeTable, d.topic ≠ "host"
  counts : ∀ d ∈ m.subscribeTable, d.cbList.length < 2 ^ 16

theorem nulFree_cStr (s : String) : NulFree (cStr s) := by
  intro h
  rw [cStr, String.toList_ofList] at h
  have := List.mem_takeWhile_imp h
  simp at this

theorem numOfCb_lt [Package] {secure : Bool} {items : List Item} {info : ConnectInfo}
    (h : readConnectInfo secure items = some info) : info.numOfCb < 2 ^ 16 := by
  unfold readConnectInfo at h
  have hlt := UInt16.toNat_lt (asUInt16 (index items 1))
  cases secure with
  | false =>
    cases h
    exact hlt
  | true =>
    simp only [if_true, Option.ite_none_left_eq_some, Option.some.injEq] at h
    obtain ⟨-, rfl⟩ := h
    exact hlt

/-- What the reader can get at all. -/
theorem of_mem_decodeTopics [Package] {reader : MapReader} {secure : Bool} {map : Blob}
    {keys : List String} {topic : String} {info : ConnectInfo}
    (h : (topic, info) ∈ decodeTopics reader secure map keys) :
    NulFree topic ∧ topic ≠ "host" ∧ info.numOfCb < 2 ^ 16 := by
  induction keys with
  | nil => cases h
  | cons key keys ih =>
    rw [decodeTopics] at h
    split at h
    · exact ih h
    · next hhost =>
      split at h
      · cases h
      · next hread =>
        rcases List.mem_cons.mp h with he | h
        · obtain ⟨rfl, rfl⟩ := Prod.mk.inj he
          exact ⟨nulFree_cStr key, hhost, numOfCb_lt hread⟩
        · exact ih h

/-- When every key but the reserved one has a well-formed vector, the reader gets them all. -/
theorem mem_decodeTopics [Package] {reader : MapReader} {secure : Bool} {map : Blob}
    {keys : List String} (hfree : ∀ key ∈ keys, NulFree key)
    (hread : ∀ key ∈ keys, key ≠ "host" →
      (readConnectInfo secure (asVector (reader.find map key))).isSome = true)
    (topic : String) (info : ConnectInfo) :
    (topic, info) ∈ decodeTopics reader secure map keys ↔ topic ∈ keys ∧ topic ≠ "host" ∧
      readConnectInfo secure (asVector (reader.find map topic)) = some info := by
  induction keys with
  | nil => exact ⟨nofun, nofun⟩
  | cons key keys ih =>
    have ih := ih (fun k hk => hfree k (List.mem_cons_of_mem _ hk))
      fun k hk => hread k (List.mem_cons_of_mem _ hk)
    have hkey := cStr_of_nulFree (hfree key List.mem_cons_self)
    rw [decodeTopics, hkey]
    by_cases hhost : key = "host"
    · rw [if_pos hhost, ih, List.mem_cons]
      constructor
      · rintro ⟨hm, hr⟩
        exact ⟨.inr hm, hr⟩
      · rintro ⟨he | hm, hne, hr⟩
        · exact absurd (he.trans hhost) hne
        · exact ⟨hm, hne, hr⟩
    · rw [if_neg hhost]
      obtain ⟨i, hi⟩ := Option.isSome_iff_exists.mp (hread key List.mem_cons_self hhost)
      simp only [hi, List.mem_cons, Prod.mk.injEq, ih]
      constructor
      · rintro (⟨rfl, rfl⟩ | ⟨hm, hr⟩)
        · exact ⟨.inl rfl, hhost, hi⟩
        · exact ⟨.inr hm, hr⟩
      · rintro ⟨rfl | hm, hne, hr⟩
        · exact .inl ⟨rfl, (Option.some.inj (hi.symm.trans hr)).symm⟩
        · exact .inr ⟨hm, hne, hr⟩

/-- The vector of a server is read as it was written, up to the high bits of the count. -/
theorem readConnectInfo_connectInfo [Package] {secure : Bool} {d : ServerData κ}
    (hk : d.server.key.length = keyLen) (hv : d.server.iv.length = ivLen)
    (hc : d.cbList.length < 2 ^ 16) :
    readConnectInfo secure (asVector (d.connectInfo secure)) = some (serverInfo secure d) := by
  have hport : UInt16.ofNat d.server.port.toNat = d.server.port := UInt16.ofNat_toNat
  have hcount : (UInt16.ofNat d.cbList.length).toNat = d.cbList.length :=
    Nat.mod_eq_of_lt hc
  cases secure with
  | false =>
    simp [readConnectInfo, serverInfo, ServerData.connectInfo, asVector, index_eq,
      asUInt16_uint, hport, hcount]
  | true =>
    simp [readConnectInfo, serverInfo, ServerData.connectInfo, asVector, index_eq,
      asUInt16_uint, asBlob_blob, hport, hcount, hk, hv]

section

variable {m : Module κ}

theorem Encodable.blob_eq (h : Encodable m) : m.discoveryBlob =
    ("host", .item (.string m.ip)) ::
      m.subscribeTable.map fun d => (d.topic, d.connectInfo m.secure) := by
  refine congrArg _ (List.map_congr_left fun d hd => ?_)
  rw [cStr_of_nulFree (h.topics d hd)]

theorem Encodable.mem_blob (h : Encodable m) {d : ServerData κ} (hd : d ∈ m.subscribeTable) :
    (d.topic, d.connectInfo m.secure) ∈ m.discoveryBlob := by
  rw [h.blob_eq]
  exact List.mem_cons_of_mem _ (List.mem_map_of_mem hd)

theorem Encodable.mem_keys (h : Encodable m) (reader : MapReader) (key : String) :
    key ∈ reader.keys m.discoveryBlob ↔
      key = "host" ∨ ∃ d ∈ m.subscribeTable, d.topic = key := by
  rw [(reader.keys_perm _).mem_iff, h.blob_eq, List.map_cons, List.mem_cons, List.map_map,
    List.mem_map]
  rfl

/-- The reserved key is used once, so all keys are different. -/
theorem Encodable.nodup (h : Encodable m) (hm : Kept m) :
    (m.discoveryBlob.map (·.1)).Nodup := by
  rw [h.blob_eq, List.map_cons, List.map_map, List.nodup_cons]
  refine ⟨fun hmem => ?_, hm.topics⟩
  obtain ⟨d, hd, he⟩ := List.mem_map.mp hmem
  exact h.reserved d hd he

theorem Encodable.roundTrip [Package] (h : Encodable m) (hm : Kept m) (reader : MapReader) :
    RoundTrip reader m := by
  have hn := h.nodup hm
  have hfind : ∀ d ∈ m.subscribeTable,
      readConnectInfo m.secure (asVector (reader.find m.discoveryBlob d.topic)) =
        some (serverInfo m.secure d) := by
    intro d hd
    rw [reader.faithful _ _ _ hn (h.mem_blob hd)]
    exact readConnectInfo_connectInfo (hm.keys d hd) (hm.ivs d hd) (h.counts d hd)
  constructor
  · have hhost : reader.find m.discoveryBlob "host" = .item (.string m.ip) := by
      refine reader.faithful _ _ _ hn ?_
      rw [h.blob_eq]
      exact List.mem_cons_self
    rw [decode, hhost]
    exact cStr_of_nulFree h.host
  · intro topic info
    rw [decode, mem_decodeTopics]
    · rw [h.mem_keys]
      constructor
      · rintro ⟨rfl | ⟨d, hd, rfl⟩, hne, hr⟩
        · exact absurd rfl hne
        · exact ⟨d, hd, rfl, Option.some.inj ((hfind d hd).symm.trans hr)⟩
      · rintro ⟨d, hd, rfl, rfl⟩
        exact ⟨.inr ⟨d, hd, rfl⟩, h.reserved d hd, hfind d hd⟩
    · intro key hkey
      rcases (h.mem_keys reader key).mp hkey with rfl | ⟨d, hd, rfl⟩
      · decide
      · exact h.topics d hd
    · intro key hkey hne
      obtain ⟨d, hd, rfl⟩ := ((h.mem_keys reader key).mp hkey).resolve_left hne
      rw [hfind d hd]
      rfl

theorem RoundTrip.encodable [Package] {reader : MapReader} (h : RoundTrip reader m) : Encodable m :=
    by
  have hserver : ∀ d ∈ m.subscribeTable,
      NulFree d.topic ∧ d.topic ≠ "host" ∧ (serverInfo m.secure d).numOfCb < 2 ^ 16 := by
    intro d hd
    exact of_mem_decodeTopics ((h.servers d.topic _).mpr ⟨d, hd, rfl, rfl⟩)
  refine ⟨?_, fun d hd => (hserver d hd).1, fun d hd => (hserver d hd).2.1, fun d hd => ?_⟩
  · rw [← h.host]
    exact nulFree_cStr _
  · have hc := (hserver d hd).2.2
    unfold serverInfo at hc
    split at hc
    · exact hc
    · exact hc

end

/-- A table of different topics is read back exactly if it has no name with a NUL, no topic with
the name of the reserved key and no topic with 65536 callbacks or more. -/
theorem discovery_round_trip_iff [Package] (reader : MapReader) (m : Module κ) (hm : Kept m) :
    RoundTrip reader m ↔ Encodable m :=
  ⟨RoundTrip.encodable, fun h => h.roundTrip hm reader⟩

def firstEntry : MapReader where
  keys map := map.map (·.1)
  keys_perm _ := .refl _
  find map key := ((map.find? (·.1 = key)).map (·.2)).getD (.item .null)
  faithful map key value hn hm := by
    obtain ⟨q, hq⟩ := Option.isSome_iff_exists.mp (List.find?_isSome.mpr
      ⟨(key, value), hm, by simp⟩ : (map.find? (·.1 = key)).isSome)
    have hkey : q.1 = key := by simpa using List.find?_some hq
    have hsame : q = (key, value) :=
      List.inj_on_of_nodup_map hn (List.mem_of_find?_eq_some hq) hm hkey
    rw [hq, hsame]
    rfl

def callback (address : Address) : CbInfo ℕ := ⟨address, address, 0⟩

def server (port : UInt16) : Server := ⟨port, List.replicate 32 7, List.replicate 16 9⟩

def listening (secure : Bool) (servers : List (ServerData ℕ)) : Module ℕ :=
  { secure := secure, ip := "192.168.1.11", subscribeTable := servers }

local instance : Package := plain

theorem two_topics_round_trip : RoundTrip firstEntry (listening true
    [⟨1, "a/b", [callback 10, callback 11], server 5000⟩,
      ⟨2, "c", [callback 12], server 5001⟩]) := by
  refine (discovery_round_trip_iff firstEntry _ ⟨?_, ?_, ?_⟩).mpr ⟨?_, ?_, ?_, ?_⟩
  all_goals decide +kernel

/-- The topic "host", a topic with a NUL, and 65536 callbacks under one topic. -/
theorem topics_not_read_back :
    (∃ m : Module ℕ, Kept m ∧ (m.subscribeTable.map (·.topic)) = ["host"] ∧
      ¬ RoundTrip firstEntry m) ∧
    (∃ m : Module ℕ, Kept m ∧ (m.subscribeTable.map (·.topic)) = ["a\x00b"] ∧
      ¬ RoundTrip firstEntry m) ∧
    ∃ m : Module ℕ, Kept m ∧ (m.subscribeTable.map (·.cbList.length)) = [65536] ∧
      ¬ RoundTrip firstEntry m := by
  have hkept (topic : String) (callbacks : List (CbInfo ℕ)) :
      Kept (listening false [⟨1, topic, callbacks, server 5000⟩]) := by
    refine ⟨List.nodup_singleton _, fun d hd => ?_, fun d hd => ?_⟩
    · rw [List.mem_singleton.mp hd]
      rfl
    · rw [List.mem_singleton.mp hd]
      rfl
  obtain ⟨callbacks, hlength⟩ : ∃ l : List (CbInfo ℕ), l.length = 65536 :=
    ⟨(List.range 65536).map callback, by rw [List.length_map, List.length_range]⟩
  refine ⟨⟨_, hkept "host" [callback 10], rfl, fun h => ?_⟩,
    ⟨_, hkept "a\x00b" [callback 10], rfl, fun h => ?_⟩,
    ⟨_, hkept "a" callbacks, ?_, fun h => ?_⟩⟩
  · exact h.encodable.reserved _ List.mem_cons_self rfl
  · exact absurd (h.encodable.topics _ List.mem_cons_self) (by decide)
  · rw [listening, List.map_singleton, hlength]
  · have hc := h.encodable.counts _ List.mem_cons_self
    rw [hlength] at hc
    exact absurd hc (lt_irrefl _)

end TcpDiscoveryCodec
