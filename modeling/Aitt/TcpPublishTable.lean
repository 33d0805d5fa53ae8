import Aitt.Flexbuffers
import Aitt.MosquittoMQ
import Aitt.NestedMaps

/-! The publishing side of the TCP module: the table of peers that discovery messages
fill, topic by topic, and the connections opened from it. A message is a snapshot of one
client's servers, while the table is only added to and edited. -/
namespace TcpPublishTable

open AittTypes Flexbuffers TransitionRuns NestedMaps
open MosquittoMQ (compareTopic exactMatch)

def keyLen : ℕ := 32
def ivLen : ℕ := 16

structure ConnectInfo where
  port : UInt16 := 0
  numOfCb : ℕ := 0
  secure : Bool := false
  key : Bytes := List.replicate keyLen 0
  iv : Bytes := List.replicate ivLen 0
  deriving DecidableEq, Repr

structure Connection where
  host : String
  info : ConnectInfo
  deriving DecidableEq, Repr

structure PortInfo where
  info : ConnectInfo
  connection : Option Connection
  deriving DecidableEq, Repr

abbrev PublishMap := Nested String String PortInfo

/-- The map under `NAME[secure]` in a discovery message. -/
abbrev Payload := Map String Value

def asVector : Value → List Item
  | .vector items => items
  | .item _ => []

def asString : Value → String
  | .item (.string s) => s
  | _ => ""

/-- One topic of a message as the code reads it; `none` is the "Unknown Message" return. -/
def readConnectInfo [Package] (secure : Bool) (items : List Item) : Option ConnectInfo :=
  let info : ConnectInfo :=
    { port := asUInt16 (index items 0), numOfCb := (asUInt16 (index items 1)).toNat }
  if secure then
    if items.length ≠ 4 then none
    else
      let key := asBlob (index items 2)
      let iv := asBlob (index items 3)
      some { info with
        secure := true
        key := if key.length = keyLen then key else info.key
        iv := if iv.length = ivLen then iv else info.iv }
  else some info

def merge (old : Option PortInfo) (info : ConnectInfo) : PortInfo :=
  match old with
  | none => ⟨info, none⟩
  | some portInfo =>
    if portInfo.info.port = info.port then
      { portInfo with info := { portInfo.info with numOfCb := info.numOfCb } }
    else ⟨info, none⟩

def updatePublishTable (table : PublishMap) (topic clientId : String) (info : ConnectInfo) :
    PublishMap :=
  put table topic clientId (merge (get table topic clientId) info)

/-- The loop over the keys of the message; an unknown entry ends it. -/
def updateTopics [Package] (secure : Bool) (clientId : String) :
    List (Σ _ : String, Value) → PublishMap → PublishMap
  | [], table => table
  | ⟨topic, value⟩ :: rest, table =>
    if topic = "host" then updateTopics secure clientId rest table
    else match readConnectInfo secure (asVector value) with
      | none => table
      | some info =>
        updateTopics secure clientId rest (updatePublishTable table topic clientId info)

structure Advert where
  port : ℕ
  numOfCb : ℕ
  key : Bytes
  iv : Bytes
  deriving DecidableEq, Repr

def advertised (secure : Bool) : Value → Option Advert
  | .vector [.uint port, .uint n] =>
    if secure = false ∧ port < 2 ^ 16 then
      some ⟨port, n, List.replicate keyLen 0, List.replicate ivLen 0⟩
    else none
  | .vector [.uint port, .uint n, .blob key, .blob iv] =>
    if secure = true ∧ port < 2 ^ 16 ∧ key.length = keyLen ∧ iv.length = ivLen then
      some ⟨port, n, key, iv⟩
    else none
  | _ => none

def adverts (secure : Bool) (payload : Payload) : Map String Advert :=
  filterMapValues (fun topic value => if topic = "host" then none else advertised secure value)
    payload

def WellFormed (secure : Bool) (payload : Payload) : Prop :=
  ∀ p ∈ payload.entries, p.1 ≠ "host" → (advertised secure p.2).isSome

def PortInfo.advert (e : PortInfo) : Advert :=
  ⟨e.info.port.toNat, e.info.numOfCb, e.info.key, e.info.iv⟩

structure Converged (secure : Bool) (before after : PublishMap) (clientId : String)
    (payload : Payload) : Prop where
  entries : ∀ topic,
    (get after topic clientId).map PortInfo.advert = (adverts secure payload).lookup topic
  others : ∀ topic c, c ≠ clientId → get after topic c = get before topic c
  connections : ∀ topic e e' k, get before topic clientId = some e →
    get after topic clientId = some e' → e.connection = some k → e'.connection = some k →
    ∃ a, (adverts secure payload).lookup topic = some a ∧
      a.port = e.info.port.toNat ∧ a.key = e.info.key ∧ a.iv = e.info.iv

/-- The message still has every topic the table holds for the client, a topic that keeps
its port keeps its key and iv, and the numbers of callbacks fit in sixteen bits. -/
structure Convergent (secure : Bool) (table : PublishMap) (clientId : String)
    (payload : Payload) : Prop where
  topics : ∀ p ∈ triples table, p.2.1 = clientId →
    ((adverts secure payload).lookup p.1).isSome
  keys : ∀ p ∈ triples table, p.2.1 = clientId → ∀ a ∈ (adverts secure payload).lookup p.1,
    p.2.2.info.port.toNat = a.port → p.2.2.info.key = a.key ∧ p.2.2.info.iv = a.iv
  counts : ∀ p ∈ (adverts secure payload).entries, p.2.numOfCb < 2 ^ 16

instance (secure : Bool) (payload : Payload) : Decidable (WellFormed secure payload) :=
  inferInstanceAs (Decidable (∀ p ∈ payload.entries, _ → _))

instance (secure : Bool) (table : PublishMap) (clientId : String) (payload : Payload) :
    Decidable (Convergent secure table clientId payload) :=
  decidable_of_iff
    ((∀ p ∈ triples table, p.2.1 = clientId → ((adverts secure payload).lookup p.1).isSome) ∧
      (∀ p ∈ triples table, p.2.1 = clientId → ∀ a ∈ (adverts secure payload).lookup p.1,
        p.2.2.info.port.toNat = a.port → p.2.2.info.key = a.key ∧ p.2.2.info.iv = a.iv) ∧
      ∀ p ∈ (adverts secure payload).entries, p.2.numOfCb < 2 ^ 16)
    ⟨fun ⟨h, k, l⟩ => ⟨h, k, l⟩, fun ⟨h, k, l⟩ => ⟨h, k, l⟩⟩

structure Reads (info : ConnectInfo) (a : Advert) : Prop where
  port : info.port.toNat = a.port
  numOfCb : info.numOfCb = a.numOfCb % 2 ^ 16
  key : info.key = a.key
  iv : info.iv = a.iv

theorem readConnectInfo_advertised [Package] {secure : Bool} {value : Value} {a : Advert}
    (h : advertised secure value = some a) :
    ∃ info, readConnectInfo secure (asVector value) = some info ∧ Reads info a := by
  unfold advertised at h
  split at h
  · next port n =>
    simp only [Option.ite_none_right_eq_some, Option.some.injEq] at h
    obtain ⟨⟨rfl, hp⟩, rfl⟩ := h
    simp only [asVector, readConnectInfo, index_eq]
    refine ⟨_, rfl, ?_, ?_, rfl, rfl⟩
    · exact (congrArg UInt16.toNat (asUInt16_uint port)).trans (Nat.mod_eq_of_lt hp)
    · exact congrArg UInt16.toNat (asUInt16_uint n)
  · next port n key iv =>
    simp only [Option.ite_none_right_eq_some, Option.some.injEq] at h
    obtain ⟨⟨rfl, hp, hk, hv⟩, rfl⟩ := h
    simp only [asVector, readConnectInfo, index_eq]
    refine ⟨_, rfl, ?_, ?_, ?_, ?_⟩
    · exact (congrArg UInt16.toNat (asUInt16_uint port)).trans (Nat.mod_eq_of_lt hp)
    · exact congrArg UInt16.toNat (asUInt16_uint n)
    · simp [asBlob_blob, hk]
    · simp [asBlob_blob, hv]
  · cases h

section Update

variable {secure : Bool} {clientId : String}

@[simp] theorem get_updatePublishTable_self (table : PublishMap) (topic : String)
    (info : ConnectInfo) :
    get (updatePublishTable table topic clientId info) topic clientId =
      some (merge (get table topic clientId) info) :=
  get_put_self _ _ _ _

theorem get_updatePublishTable_of_ne (table : PublishMap) {topic topic' c : String}
    (info : ConnectInfo) (h : topic' = topic → c ≠ clientId) :
    get (updatePublishTable table topic clientId info) topic' c = get table topic' c :=
  get_put_of_ne _ _ h

def Entries (secure : Bool) (l : List (Σ _ : String, Value)) : Prop :=
  ∀ p ∈ l, p.1 ≠ "host" → (advertised secure p.2).isSome

/-- A topic that the message does not have keeps its entry. -/
theorem get_updateTopics_of_absent [Package] {l : List (Σ _ : String, Value)} {table : PublishMap}
    {topic c : String} (h : c = clientId → ∀ v, ⟨topic, v⟩ ∈ l → topic = "host") :
    get (updateTopics secure clientId l table) topic c = get table topic c := by
  induction l generalizing table with
  | nil => rfl
  | cons p rest ih =>
    obtain ⟨t, v⟩ := p
    have hrest : c = clientId → ∀ v, ⟨topic, v⟩ ∈ rest → topic = "host" :=
      fun hc w hw => h hc w (List.mem_cons_of_mem _ hw)
    by_cases ht : t = "host"
    · simp only [updateTopics, if_pos ht]
      exact ih hrest
    · simp only [updateTopics, if_neg ht]
      split
      · rfl
      · rw [ih hrest]
        apply get_updatePublishTable_of_ne
        rintro rfl hc
        exact ht (h hc v List.mem_cons_self)

/-- A topic of the message gets the entry that `merge` makes of its advertisement. -/
theorem get_updateTopics_of_mem [Package] {l : List (Σ _ : String, Value)} {table : PublishMap}
    (hl : l.NodupKeys) (hw : Entries secure l) {topic : String} {v : Value} {a : Advert}
    (hm : ⟨topic, v⟩ ∈ l) (ht : topic ≠ "host") (ha : advertised secure v = some a) :
    ∃ info, Reads info a ∧
      get (updateTopics secure clientId l table) topic clientId =
        some (merge (get table topic clientId) info) := by
  induction l generalizing table with
  | nil => cases hm
  | cons p rest ih =>
    obtain ⟨t, w⟩ := p
    obtain ⟨hnot, hnd⟩ := List.nodupKeys_cons.mp hl
    have hw' : Entries secure rest := fun q hq => hw q (List.mem_cons_of_mem _ hq)
    rcases List.mem_cons.mp hm with he | hin
    · cases he
      obtain ⟨info, hr, hi⟩ := readConnectInfo_advertised ha
      refine ⟨info, hi, ?_⟩
      simp only [updateTopics, if_neg ht, hr]
      rw [get_updateTopics_of_absent, get_updatePublishTable_self]
      intro _ u hu
      exact absurd (List.mem_keys_of_mem hu) hnot
    · have hne : topic ≠ t := by
        rintro rfl
        exact absurd (List.mem_keys_of_mem hin) hnot
      by_cases hh : t = "host"
      · simp only [updateTopics, if_pos hh]
        exact ih hnd hw' hin
      · obtain ⟨b, hb⟩ := Option.isSome_iff_exists.mp (hw ⟨t, w⟩ List.mem_cons_self hh)
        obtain ⟨other, hr, -⟩ := readConnectInfo_advertised hb
        simp only [updateTopics, if_neg hh, hr]
        obtain ⟨info, hi, hg⟩ := @ih (updatePublishTable table t clientId other) hnd hw' hin
        refine ⟨info, hi, ?_⟩
        rw [hg, get_updatePublishTable_of_ne _ _ fun h => absurd h hne]

theorem lookup_adverts (payload : Payload) (topic : String) :
    (adverts secure payload).lookup topic =
      (payload.lookup topic).bind fun value =>
        if topic = "host" then none else advertised secure value :=
  lookup_filterMapValues _ _ _

theorem get_after_of_none [Package] {payload : Payload} (hw : WellFormed secure payload)
    (table : PublishMap) {topic : String} (h : (adverts secure payload).lookup topic = none) :
    get (updateTopics secure clientId payload.entries table) topic clientId =
      get table topic clientId := by
  apply get_updateTopics_of_absent
  intro _ v hv
  by_contra ht
  obtain ⟨a, ha⟩ := Option.isSome_iff_exists.mp (hw _ hv ht)
  rw [lookup_adverts, lookup_eq_some_iff.mpr hv, Option.bind_some, if_neg ht, ha] at h
  cases h

theorem get_after_of_some [Package] {payload : Payload} (hw : WellFormed secure payload)
    (table : PublishMap) {topic : String} {a : Advert}
    (h : (adverts secure payload).lookup topic = some a) :
    ∃ info, Reads info a ∧
      get (updateTopics secure clientId payload.entries table) topic clientId =
        some (merge (get table topic clientId) info) := by
  rw [lookup_adverts, Option.bind_eq_some_iff] at h
  obtain ⟨v, hv, ha⟩ := h
  simp only [Option.ite_none_left_eq_some] at ha
  exact get_updateTopics_of_mem payload.nodupKeys hw (lookup_eq_some_iff.mp hv) ha.1 ha.2

theorem get_after_of_ne [Package] (payload : Payload) (table : PublishMap) (topic : String)
    {c : String} (h : c ≠ clientId) :
    get (updateTopics secure clientId payload.entries table) topic c = get table topic c := by
  apply get_updateTopics_of_absent
  intro hc
  exact absurd hc h

end Update

theorem merge_same_port {e : PortInfo} {info : ConnectInfo} (h : e.info.port = info.port) :
    merge (some e) info = { e with info := { e.info with numOfCb := info.numOfCb } } :=
  if_pos h

theorem merge_other_port {e : PortInfo} {info : ConnectInfo} (h : e.info.port ≠ info.port) :
    merge (some e) info = ⟨info, none⟩ :=
  if_neg h

theorem new_advert_iff {info : ConnectInfo} {a : Advert} (h : Reads info a)
    (connection : Option Connection) :
    PortInfo.advert ⟨info, connection⟩ = a ↔ a.numOfCb < 2 ^ 16 := by
  obtain ⟨port, n, key, iv⟩ := a
  obtain ⟨hp, hn, hk, hv⟩ := h
  simp only [PortInfo.advert, hp, hn, hk, hv, Advert.mk.injEq, true_and, and_true]
  omega

/-- A merged entry advertises what was read, up to the key and iv it may have kept. -/
theorem merge_advert_iff {old : Option PortInfo} {info : ConnectInfo} {a : Advert}
    (h : Reads info a) :
    (merge old info).advert = a ↔
      a.numOfCb < 2 ^ 16 ∧
        ∀ e ∈ old, e.info.port.toNat = a.port → e.info.key = a.key ∧ e.info.iv = a.iv := by
  cases old with
  | none => simpa [merge] using new_advert_iff h none
  | some e =>
    by_cases hport : e.info.port = info.port
    · have he : e.info.port.toNat = a.port := by rw [hport, h.port]
      have hcount : info.numOfCb = a.numOfCb ↔ a.numOfCb < 2 ^ 16 := by
        rw [h.numOfCb]
        omega
      obtain ⟨port, n, key, iv⟩ := a
      simp only [Option.mem_some_iff, forall_eq', he, true_implies, ← hcount]
      rw [merge_same_port hport]
      simp [PortInfo.advert, he]
    · have hne : e.info.port.toNat ≠ a.port := by
        intro he
        exact hport (UInt16.toNat_inj.mp (he.trans h.port.symm))
      simp only [Option.mem_some_iff, forall_eq', hne, false_implies, and_true]
      rw [merge_other_port hport, new_advert_iff h]

/-- Only an entry with an unchanged port keeps its connection. -/
theorem port_of_kept_connection {e : PortInfo} {info : ConnectInfo} {k : Connection}
    (h : (merge (some e) info).connection = some k) : e.info.port = info.port := by
  by_contra hport
  rw [merge_other_port hport] at h
  cases h

/-- A message converges the table of its client to the snapshot exactly when it is
convergent for the table it meets. -/
theorem converged_iff [Package] {secure : Bool} {payload : Payload} (hw : WellFormed secure payload)
    (table : PublishMap) (clientId : String) :
    Converged secure table (updateTopics secure clientId payload.entries table) clientId
      payload ↔ Convergent secure table clientId payload := by
  constructor
  · intro h
    have merged : ∀ topic a, (adverts secure payload).lookup topic = some a →
        a.numOfCb < 2 ^ 16 ∧ ∀ e ∈ get table topic clientId,
          e.info.port.toNat = a.port → e.info.key = a.key ∧ e.info.iv = a.iv := by
      intro topic a ha
      obtain ⟨info, hr, hg⟩ := get_after_of_some hw table ha
      have he := h.entries topic
      rw [hg, ha, Option.map_some, Option.some.injEq] at he
      exact (merge_advert_iff hr).mp he
    constructor
    · rintro ⟨topic, c, e⟩ hm rfl
      by_contra hn
      have hnone := Option.not_isSome_iff_eq_none.mp hn
      have he := h.entries topic
      rw [get_after_of_none hw table hnone, (mem_triples _ _ _ _).mp hm, hnone] at he
      cases he
    · rintro ⟨topic, c, e⟩ hm rfl a ha
      exact (merged topic a ha).2 e ((mem_triples _ _ _ _).mp hm)
    · rintro ⟨topic, a⟩ hm
      exact (merged topic a (lookup_eq_some_iff.mpr hm)).1
  · intro h
    constructor
    · intro topic
      cases ha : (adverts secure payload).lookup topic with
      | none =>
        rw [get_after_of_none hw table ha]
        cases hg : get table topic clientId with
        | none => rfl
        | some e =>
          have hs := h.topics _ ((mem_triples _ _ _ _).mpr hg) rfl
          rw [ha] at hs
          cases hs
      | some a =>
        obtain ⟨info, hr, hg⟩ := get_after_of_some hw table ha
        rw [hg, Option.map_some, Option.some.injEq, merge_advert_iff hr]
        refine ⟨h.counts _ (lookup_eq_some_iff.mp ha), fun e he => ?_⟩
        exact h.keys _ ((mem_triples _ _ _ _).mpr he) rfl a ha
    · intro topic c hc
      exact get_after_of_ne payload table topic hc
    · intro topic e e' k he he' hk hk'
      obtain ⟨a, ha⟩ := Option.isSome_iff_exists.mp
        (h.topics _ ((mem_triples _ _ _ _).mpr he) rfl)
      obtain ⟨info, hr, hg⟩ := get_after_of_some hw table ha
      rw [he, he'] at hg
      obtain rfl := Option.some.inj hg
      have hport : e.info.port.toNat = a.port := by
        rw [port_of_kept_connection hk', hr.port]
      obtain ⟨hkey, hiv⟩ := h.keys _ ((mem_triples _ _ _ _).mpr he) rfl a ha hport
      exact ⟨a, ha, hport.symm, hkey.symm, hiv.symm⟩

/-- `latest` records what each present client advertised last; the code never reads it. -/
structure State where
  publishTable : PublishMap := ∅
  clientTable : Map String String := ∅
  latest : Nested String String Advert := ∅
  deriving DecidableEq

def willLeaveNetwork : String := "disconnected"

def discoveryMessageCallback [Package] (secure : Bool) (s : State) (clientId status : String)
    (payload : Payload) : State :=
  if status = willLeaveNetwork then
    { clientTable := s.clientTable.erase clientId
      publishTable := eraseInner s.publishTable clientId
      latest := s.latest.erase clientId }
  else
    { clientTable := s.clientTable.insert clientId
        (cStr (((payload.lookup "host").map asString).getD ""))
      publishTable := updateTopics secure clientId payload.entries s.publishTable
      latest := s.latest.insert clientId (adverts secure payload) }

def openConnection (s : State) (topic clientId : String) : Option State :=
  match get s.publishTable topic clientId with
  | some ⟨info, none⟩ =>
    let host := (s.clientTable.lookup clientId).getD ""
    some { s with publishTable := put s.publishTable topic clientId ⟨info, some ⟨host, info⟩⟩ }
  | _ => none

inductive Event where
  | discoveryMessage (clientId status : String) (payload : Payload)
  | openConnection (topic clientId : String)

def step [Package] (secure : Bool) (s : State) : Event → Option State
  | .discoveryMessage clientId status payload =>
    some (discoveryMessageCallback secure s clientId status payload)
  | .openConnection topic clientId => TcpPublishTable.openConnection s topic clientId

def machine [Package] (secure : Bool) : Machine State Event := ⟨{}, step secure⟩

section Count

variable (topicMatchesSub : String → String → Option Bool)

/-- The two loops of `CountSubscriber`; `count` is an `int`. -/
def countSubscriber (table : PublishMap) (topic : String) : Int32 :=
  Int32.ofNat (table.entries.map fun row =>
    if compareTopic topicMatchesSub row.1 topic then
      (row.2.entries.map fun q => q.2.info.numOfCb).sum
    else 0).sum

def advertisedSubscribers (latest : Nested String String Advert) (topic : String) : ℕ :=
  (((triples latest).filter fun p => compareTopic topicMatchesSub p.2.1 topic).map
    fun p => p.2.2.numOfCb).sum

end Count

def Mirrors (s : State) : Prop :=
  ∀ topic c, (get s.publishTable topic c).map PortInfo.advert = get s.latest c topic

def Allowed (secure : Bool) (s : State) : Event → Prop
  | .discoveryMessage clientId status payload =>
    status ≠ willLeaveNetwork →
      WellFormed secure payload ∧ Convergent secure s.publishTable clientId payload
  | .openConnection _ _ => True

instance (secure : Bool) (s : State) (e : Event) : Decidable (Allowed secure s e) := by
  cases e <;> simp only [Allowed] <;> infer_instance

theorem publishTable_join [Package] {status : String} (hs : status ≠ willLeaveNetwork)
    (secure : Bool) (s : State) (clientId : String) (payload : Payload) :
    (discoveryMessageCallback secure s clientId status payload).publishTable =
      updateTopics secure clientId payload.entries s.publishTable := by
  rw [discoveryMessageCallback, if_neg hs]

theorem mirrors_leave [Package] {s : State} (h : Mirrors s) (secure : Bool) (clientId : String)
    (payload : Payload) :
    Mirrors (discoveryMessageCallback secure s clientId willLeaveNetwork payload) := by
  intro topic c
  simp only [discoveryMessageCallback, if_true, get_erase]
  by_cases hc : c = clientId
  · subst hc
    simp
  · rw [get_eraseInner_of_ne _ _ hc, if_neg hc]
    exact h topic c

theorem mirrors_join [Package] {s : State} (h : Mirrors s) {secure : Bool}
    {clientId status : String} {payload : Payload} (hs : status ≠ willLeaveNetwork)
    (hw : WellFormed secure payload) (hc : Convergent secure s.publishTable clientId payload) :
    Mirrors (discoveryMessageCallback secure s clientId status payload) := by
  have hconv := (converged_iff hw s.publishTable clientId).mpr hc
  intro topic c
  simp only [discoveryMessageCallback, if_neg hs, get_insert]
  by_cases he : c = clientId
  · subst he
    rw [if_pos rfl]
    exact hconv.entries topic
  · rw [if_neg he, hconv.others topic c he]
    exact h topic c

theorem mirrors_openConnection {s t : State} (h : Mirrors s) {topic clientId : String}
    (ht : openConnection s topic clientId = some t) : Mirrors t := by
  unfold openConnection at ht
  split at ht
  · next info hg =>
    obtain rfl := Option.some.inj ht
    intro topic' c
    by_cases he : topic' = topic ∧ c = clientId
    · obtain ⟨rfl, rfl⟩ := he
      have hm := h topic' c
      rw [hg] at hm
      simpa [PortInfo.advert] using hm
    · have hne : topic' = topic → c ≠ clientId := fun h1 h2 => he ⟨h1, h2⟩
      simp only
      rw [get_put_of_ne _ _ hne]
      exact h topic' c
  · cases ht

theorem mirrors_reaches [Package] {secure : Bool} {s : State}
    (h : (machine secure).Reaches (Allowed secure) s) : Mirrors s := by
  refine h.invariant (fun _ _ => rfl) ?_
  intro s e t _ hi hok he
  cases e with
  | discoveryMessage clientId status payload =>
    obtain rfl := Option.some.inj he
    by_cases hs : status = willLeaveNetwork
    · subst hs
      exact mirrors_leave hi secure clientId payload
    · exact mirrors_join hi hs (hok hs).1 (hok hs).2
  | openConnection topic clientId => exact mirrors_openConnection hi he

theorem countSubscriber_of_mirrors {s : State} (h : Mirrors s)
    (topicMatchesSub : String → String → Option Bool) (topic : String) :
    countSubscriber topicMatchesSub s.publishTable topic =
      Int32.ofNat (advertisedSubscribers topicMatchesSub s.latest topic) := by
  have hp := (triples_perm h).filter fun p => compareTopic topicMatchesSub p.1 topic
  have hsum := (hp.map fun p => p.2.2.numOfCb).sum_eq
  rw [List.filter_map, List.filter_map, List.map_map, List.map_map] at hsum
  have hrows := sum_rows s.publishTable (fun t => compareTopic topicMatchesSub t topic)
    fun e => e.info.numOfCb
  rw [countSubscriber, advertisedSubscribers]
  exact congrArg Int32.ofNat (hrows.trans hsum)

/-- A well-formed announcement of a client, met in whatever state, leaves its entries equal
to the snapshot exactly when it is convergent there; in runs of convergent announcements
the table is the collection of the latest ones, and `CountSubscriber` counts them. -/
theorem publish_table_mirrors_last_advertisement [Package] (secure : Bool)
    (topicMatchesSub : String → String → Option Bool) :
    (∀ (s : State) (clientId status : String) (payload : Payload),
      status ≠ willLeaveNetwork → WellFormed secure payload →
      (Converged secure s.publishTable
          (discoveryMessageCallback secure s clientId status payload).publishTable clientId
          payload ↔
        Convergent secure s.publishTable clientId payload)) ∧
    ∀ s, (machine secure).Reaches (Allowed secure) s →
      Mirrors s ∧ ∀ topic, countSubscriber topicMatchesSub s.publishTable topic =
        Int32.ofNat (advertisedSubscribers topicMatchesSub s.latest topic) := by
  constructor
  · intro s clientId status payload hs hw
    rw [publishTable_join hs]
    exact converged_iff hw s.publishTable clientId
  · intro s h
    have hm := mirrors_reaches h
    exact ⟨hm, fun topic => countSubscriber_of_mirrors hm topicMatchesSub topic⟩

def oneTopic : Payload :=
  ⟨[⟨"a", .vector [.uint 5000, .uint 1]⟩, ⟨"host", .item (.string "192.168.1.11")⟩],
    by simp [List.NodupKeys, List.keys]⟩

def moreCallbacks : Payload :=
  ⟨[⟨"a", .vector [.uint 5000, .uint 3]⟩, ⟨"b", .vector [.uint 5001, .uint 1]⟩,
    ⟨"host", .item (.string "192.168.1.11")⟩],
    by simp [List.NodupKeys, List.keys]⟩

local instance : Package := plain

theorem publish_table_mirrors_second_message :
    ∃ s, (machine false).Reaches (Allowed false) s ∧
      countSubscriber exactMatch s.publishTable "a" = 3 ∧ Mirrors s ∧
      Int32.ofNat (advertisedSubscribers exactMatch s.latest "a") = 3 := by
  obtain ⟨s, hr, hp⟩ := (machine false).exists_reaches (Allowed false)
    [.discoveryMessage "c" "connected" oneTopic, .openConnection "a" "c",
      .discoveryMessage "c" "connected" moreCallbacks]
    (fun s => countSubscriber exactMatch s.publishTable "a" = 3) (by decide)
  have hcount := of_decide_eq_true hp
  obtain ⟨hm, hc⟩ := (publish_table_mirrors_last_advertisement false exactMatch).2 s hr
  exact ⟨s, hr, hcount, hm, (hc "a").symm.trans hcount⟩

def noTopic : Payload := ⟨[⟨"host", .item (.string "192.168.1.11")⟩],
    by simp [List.NodupKeys, List.keys]⟩

def announced : State := discoveryMessageCallback false {} "c" "connected" oneTopic

/-- A client that has unsubscribed from its last topic says so with an empty snapshot, which
removes nothing: its callback is still counted. -/
theorem vanished_topic_stays_in_the_table :
    (machine false).Reachable announced ∧ WellFormed false noTopic ∧
      ¬ Converged false announced.publishTable
        (discoveryMessageCallback false announced "c" "connected" noTopic).publishTable "c"
        noTopic ∧
      countSubscriber exactMatch
        (discoveryMessageCallback false announced "c" "connected" noTopic).publishTable "a" = 1 ∧
      advertisedSubscribers exactMatch
        (discoveryMessageCallback false announced "c" "connected" noTopic).latest "a" = 0 := by
  refine ⟨.step (e := .discoveryMessage "c" "connected" oneTopic) .initial trivial rfl,
    by decide, ?_, by decide, by decide⟩
  rw [publishTable_join (by decide), converged_iff (by decide)]
  decide

end TcpPublishTable
