import Aitt.JavaRouting

/-! The publish table of the Java library. Discovery messages fill it by topic and host, and
a publication over IPC goes to every entry of its topic, through a handler that is made at
the first use. The readers of FlexBuffers are a parameter; any of them may raise. -/
namespace JavaPublishTable

open AittTypes JavaSubscriptions JavaRouting NestedMaps TransitionRuns

def hostString : String := "host"
def statusString : String := "status"
def willLeaveNetwork : String := "disconnected"

structure Reader (ρ : Type) where
  getRoot : Bytes → Option (List (String × ρ))
  missing : ρ
  asString : ρ → Option String
  asMap : ρ → Option (List (String × ρ))
  asInt : ρ → Option ℤ
  asUInt : ρ → Option ℤ

variable {ρ : Type}

def Reader.get (R : Reader ρ) (map : List (String × ρ)) (key : String) : ρ :=
  ((map.find? (·.1 = key)).map (·.2)).getD R.missing

abbrev PortTable := Map ℤ (Option Protocol × Option ℕ)
abbrev PublishTable := Nested String String PortTable

structure Announced where
  port : ℤ
  protocol : Option Protocol
  deriving DecidableEq, Repr

def Reader.announced (R : Reader ρ) (map : List (String × ρ)) (topic : String) :
    Option Announced :=
  (R.asMap (R.get map topic)).bind fun m =>
    (R.asInt (R.get m "port")).bind fun port =>
      (R.asUInt (R.get m "protocol")).map fun p => ⟨port, fromInt p⟩

def PortTable.single (a : Announced) : PortTable :=
  (∅ : PortTable).insert a.port (a.protocol, none)

def updatePublishTable (table : PublishTable) (topic host : String) (a : Announced) :
    PublishTable :=
  match table.lookup topic with
  | none => table.insert topic ((∅ : Map String PortTable).insert host (PortTable.single a))
  | some hostTable =>
    match hostTable.lookup host with
    | none => table.insert topic (hostTable.insert host (PortTable.single a))
    | some portTable =>
      if a.port ∈ portTable then
        table.insert topic (hostTable.insert host (portTable.insert a.port (a.protocol, none)))
      else table.insert topic (hostTable.insert host (PortTable.single a))

/-- The loop over the keys of a message. An exception ends it; what it has done stays. -/
def readTopics (R : Reader ρ) (map : List (String × ρ)) (host : String) :
    List String → PublishTable → PublishTable
  | [], table => table
  | topic :: rest, table =>
    if topic = hostString ∨ topic = statusString then readTopics R map host rest table
    else match R.announced map topic with
      | none => table
      | some a => readTopics R map host rest (updatePublishTable table topic host a)

def discoveryMessageCallback (R : Reader ρ) (table : PublishTable) (payload : Bytes) :
    PublishTable :=
  match R.getRoot payload with
  | none => table
  | some map =>
    match R.asString (R.get map hostString), R.asString (R.get map statusString) with
    | some host, some status =>
      if status = willLeaveNetwork then eraseInner table host
      else readTopics R map host (map.map (·.1)) table
    | _, _ => table

structure Call where
  handler : ℕ
  topic : String
  host : String
  port : ℤ
  message : Bytes
  deriving DecidableEq, Repr

structure State where
  publishTable : PublishTable := ∅
  next : ℕ := 0
  calls : List Call := []

/-- `ModuleFactory.createModuleHandler`, with the cast that follows it: the handlers of streams
are no `TransportHandler`. -/
inductive Created where
  | null
  | castFails
  | transport

def createModuleHandler : Protocol → Created
  | .mqtt | .tcp | .tcpSecure => .null
  | .webrtc | .rtsp => .castFails
  | .ipc => .transport

namespace State

def replace (s : State) (topic host : String) (port : ℤ) (entry : Option Protocol × Option ℕ) :
    State :=
  match get s.publishTable topic host with
  | none => s
  | some portTable =>
    if port ∈ portTable then
      { s with publishTable := put s.publishTable topic host (portTable.insert port entry) }
    else s

def call (s : State) (c : Call) : State := { s with calls := s.calls ++ [c] }

def publishHandler (s : State) (protocol : Protocol) (topic : String) (handler : Option ℕ)
    (host : String) (port : ℤ) (message : Bytes) : State :=
  match handler with
  | some h => s.call ⟨h, topic, host, port, message⟩
  | none =>
    match createModuleHandler protocol with
    | .null => s.replace topic host port (some protocol, none)
    | .castFails => s
    | .transport =>
      ({ s with next := s.next + 1 }.replace topic host port (some protocol, some s.next)).call
        ⟨s.next, topic, host, port, message⟩

def publishPort (topic : String) (message : Bytes) (protocols : EnumSet) (s : State)
    (p : String × ℤ) : State :=
  match (get s.publishTable topic p.1).bind (·.lookup p.2) with
  | some (some protocol, handler) =>
    if protocols protocol then s.publishHandler protocol topic handler p.1 p.2 message else s
  | _ => s

def ports (hostTable : Map String PortTable) : List (String × ℤ) :=
  hostTable.entries.flatMap fun e => e.2.keys.map (Prod.mk e.1)

def publishTransportProtocols (s : State) (topic : String) (message : Bytes)
    (protocols : EnumSet) : State :=
  match s.publishTable.lookup topic with
  | none => s
  | some hostTable => (ports hostTable).foldl (publishPort topic message protocols) s

/-- `publish` above the native library; `none` is the exception for invalid arguments. -/
def publish (s : State) (topic : String) (message : Bytes) (protocols : EnumSet) :
    Option State :=
  if checkParams topic protocols = false then none
  else
    let left := (publishLoop protocols).2
    if Protocol.values.any left then some (s.publishTransportProtocols topic message left)
    else some s

end State

inductive Event where
  | discovery (payload : Bytes)
  | publish (topic : String) (message : Bytes) (protocols : EnumSet)

def State.step (R : Reader ρ) (s : State) : Event → Option State
  | .discovery payload =>
    if payload.length = 0 then some s
    else some { s with publishTable := discoveryMessageCallback R s.publishTable payload }
  | .publish topic message protocols => s.publish topic message protocols

def machine (R : Reader ρ) : Machine State Event where
  initial := {}
  step := State.step R

inductive Notice where
  | leaves (host : String)
  | announces (topic host : String) (a : Announced)
  deriving DecidableEq, Repr

def announcements (R : Reader ρ) (map : List (String × ρ)) (host : String) :
    List String → List Notice
  | [] => []
  | topic :: rest =>
    if topic = hostString ∨ topic = statusString then announcements R map host rest
    else match R.announced map topic with
      | none => []
      | some a => .announces topic host a :: announcements R map host rest

def notices (R : Reader ρ) (payload : Bytes) : List Notice :=
  match R.getRoot payload with
  | none => []
  | some map =>
    match R.asString (R.get map hostString), R.asString (R.get map statusString) with
    | some host, some status =>
      if status = willLeaveNetwork then [.leaves host]
      else announcements R map host (map.map (·.1))
    | _, _ => []

def Event.notices (R : Reader ρ) : Event → List Notice
  | .discovery payload => if payload.length = 0 then [] else JavaPublishTable.notices R payload
  | .publish _ _ _ => []

def Notice.about (topic host : String) : Notice → Option (Option Announced)
  | .leaves h => if h = host then some none else none
  | .announces t h a => if t = topic ∧ h = host then some (some a) else none

/-- The last announcement, unless the host has left since. -/
def standing (topic host : String) (ns : List Notice) : Option Announced :=
  (ns.reverse.findSome? (Notice.about topic host)).join

def PortTable.entry (a : Announced) (handler : Option ℕ) : PortTable :=
  (∅ : PortTable).insert a.port (a.protocol, handler)

def applyNotice (table : PublishTable) : Notice → PublishTable
  | .leaves host => eraseInner table host
  | .announces topic host a => updatePublishTable table topic host a

def Mirrors (table : PublishTable) (ns : List Notice) : Prop :=
  ∀ topic host, ∃ handler,
    get table topic host = (standing topic host ns).map (PortTable.entry · handler)

variable {R : Reader ρ} {table : PublishTable} {ns : List Notice} {topic host : String}
  {a : Announced} {handler : Option ℕ}

theorem standing_append (topic host : String) (ns : List Notice) (n : Notice) :
    standing topic host (ns ++ [n]) = (n.about topic host).getD (standing topic host ns) := by
  rw [standing, List.reverse_append, List.reverse_singleton, List.singleton_append,
    List.findSome?_cons]
  cases n.about topic host <;> rfl

theorem entry_insert (a b : Announced) (handler handler' : Option ℕ) (h : b.port = a.port) :
    (PortTable.entry a handler).insert b.port (b.protocol, handler') =
      PortTable.entry b handler' := by
  rw [PortTable.entry, h, AList.insert_insert, PortTable.entry, h]

theorem mem_entry (a : Announced) (handler : Option ℕ) (port : ℤ) :
    port ∈ PortTable.entry a handler ↔ port = a.port := by
  rw [PortTable.entry, AList.mem_insert]
  simp

theorem lookup_entry (a : Announced) (handler : Option ℕ) :
    (PortTable.entry a handler).lookup a.port = some (a.protocol, handler) :=
  AList.lookup_insert _

theorem keys_entry (a : Announced) (handler : Option ℕ) :
    (PortTable.entry a handler).keys = [a.port] := rfl

/-- However the table stands, the entry is replaced at its topic and host. -/
theorem updatePublishTable_eq (table : PublishTable) (topic host : String) (a : Announced) :
    updatePublishTable table topic host a = put table topic host
      (((get table topic host).filter (a.port ∈ ·)).elim (PortTable.single a)
        (·.insert a.port (a.protocol, none))) := by
  rw [updatePublishTable, put, NestedMaps.get]
  cases table.lookup topic with
  | none => rfl
  | some hostTable =>
    cases hh : hostTable.lookup host with
    | none => simp [hh]
    | some portTable =>
      by_cases hm : a.port ∈ portTable <;> simp [hh, hm, Option.filter]

theorem readTopics_eq (R : Reader ρ) (map : List (String × ρ)) (host : String)
    (topics : List String) (table : PublishTable) :
    readTopics R map host topics table =
      (announcements R map host topics).foldl applyNotice table := by
  induction topics generalizing table with
  | nil => rfl
  | cons topic rest ih =>
    rw [readTopics, announcements]
    by_cases hskip : topic = hostString ∨ topic = statusString
    · rw [if_pos hskip, if_pos hskip]
      exact ih table
    · rw [if_neg hskip, if_neg hskip]
      cases R.announced map topic with
      | none => rfl
      | some a => exact ih _

theorem discoveryMessageCallback_eq (R : Reader ρ) (table : PublishTable) (payload : Bytes) :
    discoveryMessageCallback R table payload = (notices R payload).foldl applyNotice table := by
  rw [discoveryMessageCallback, notices]
  cases R.getRoot payload with
  | none => rfl
  | some map =>
    simp only
    split
    · split
      · rfl
      · exact readTopics_eq R map _ _ table
    · rfl

/-- The entry after an announcement does not depend on the port table before it. -/
theorem renewed_entry (b : Announced) (handler : Option ℕ) (a : Announced) :
    ((some (PortTable.entry b handler)).filter (a.port ∈ ·)).elim (PortTable.single a)
      (·.insert a.port (a.protocol, none)) = PortTable.entry a none := by
  by_cases hp : a.port = b.port
  · have hm : a.port ∈ PortTable.entry b handler := (mem_entry b handler a.port).mpr hp
    rw [Option.filter, if_pos (decide_eq_true hm)]
    exact entry_insert b a handler none hp
  · have hm : a.port ∉ PortTable.entry b handler := fun hm => hp ((mem_entry b handler _).mp hm)
    rw [Option.filter, if_neg (by simpa using hm)]
    rfl

theorem Mirrors.applyNotice (h : Mirrors table ns) (n : Notice) :
    Mirrors (applyNotice table n) (ns ++ [n]) := by
  intro topic host
  rw [standing_append]
  cases n with
  | leaves left =>
    by_cases hl : left = host
    · subst hl
      exact ⟨none, by simp [JavaPublishTable.applyNotice, Notice.about]⟩
    · have hkeep : get (eraseInner table left) topic host = get table topic host :=
        get_eraseInner_of_ne table topic (Ne.symm hl)
      obtain ⟨handler, hh⟩ := h topic host
      exact ⟨handler, by simpa [JavaPublishTable.applyNotice, Notice.about, hl, hkeep] using hh⟩
  | announces t left a =>
    rw [JavaPublishTable.applyNotice, updatePublishTable_eq]
    by_cases hl : t = topic ∧ left = host
    · obtain ⟨rfl, rfl⟩ := hl
      refine ⟨none, ?_⟩
      obtain ⟨handler, hh⟩ := h t left
      have habout : (Notice.announces t left a).about t left = some (some a) := by
        simp [Notice.about]
      rw [get_put_self, habout, hh]
      cases standing t left ns with
      | none => rfl
      | some b => exact congrArg some (renewed_entry b handler a)
    · have habout : (Notice.announces t left a).about topic host = none := by
        simp [Notice.about, hl]
      rw [get_put_of_ne table _ fun ht hh => hl ⟨ht.symm, hh.symm⟩, habout]
      exact h topic host

theorem Mirrors.foldl (h : Mirrors table ns) (ms : List Notice) :
    Mirrors (ms.foldl JavaPublishTable.applyNotice table) (ns ++ ms) := by
  induction ms generalizing table ns with
  | nil => simpa using h
  | cons m ms ih =>
    have hm := ih (h.applyNotice m)
    rwa [List.append_assoc, List.singleton_append] at hm

structure Served (topic : String) (message : Bytes) (host : String) (a : Announced)
    (handler : Option ℕ) (s t : State) (c : Call) : Prop where
  call : c.topic = topic ∧ c.host = host ∧ c.port = a.port ∧ c.message = message
  handler : handler = some c.handler ∧ t.next = s.next ∨
    handler = none ∧ c.handler = s.next ∧ t.next = s.next + 1
  calls : t.calls = s.calls ++ [c]
  entry : get t.publishTable topic host = some (PortTable.entry a (some c.handler))
  others : ∀ topic' host', (topic' = topic → host' ≠ host) →
    get t.publishTable topic' host' = get s.publishTable topic' host'

variable {s t : State} {message : Bytes} {protocols : EnumSet}

theorem replace_entry (hg : get s.publishTable topic host = some (PortTable.entry a handler))
    (handler' : Option ℕ) :
    s.replace topic host a.port (a.protocol, handler') =
      { s with publishTable := put s.publishTable topic host (PortTable.entry a handler') } := by
  rw [State.replace, hg]
  simp [mem_entry, entry_insert a a handler handler' rfl]

variable (message) in
theorem publishPort_cases (hset : ∀ p, protocols p = true → p = .ipc)
    (hg : get s.publishTable topic host = some (PortTable.entry a handler)) :
    (protocols .ipc = true ∧ a.protocol = some .ipc ∧ ∃ c,
      Served topic message host a handler s
        (State.publishPort topic message protocols s (host, a.port)) c) ∨
    (¬ (protocols .ipc = true ∧ a.protocol = some .ipc) ∧
      State.publishPort topic message protocols s (host, a.port) = s) := by
  have hlook : (get s.publishTable topic host).bind (·.lookup a.port) =
      some (a.protocol, handler) := by
    rw [hg, Option.bind_some, lookup_entry]
  rw [State.publishPort, hlook]
  cases hp : a.protocol with
  | none => exact .inr ⟨by simp, rfl⟩
  | some p =>
    cases hc : protocols p with
    | false =>
      refine .inr ⟨?_, by simp [hc]⟩
      rintro ⟨hipc, he⟩
      rw [Option.some.inj he, hipc] at hc
      cases hc
    | true =>
      obtain rfl := hset p hc
      refine .inl ⟨hc, rfl, ?_⟩
      simp only [hc, if_true, State.publishHandler]
      cases handler with
      | some h => exact ⟨_, ⟨rfl, rfl, rfl, rfl⟩, .inl ⟨rfl, rfl⟩, rfl, hg, fun _ _ _ => rfl⟩
      | none =>
        have hr := replace_entry (s := { s with next := s.next + 1 }) hg (some s.next)
        rw [hp] at hr
        simp only [createModuleHandler]
        rw [hr]
        refine ⟨_, ⟨rfl, rfl, rfl, rfl⟩, .inr ⟨rfl, rfl, rfl⟩, rfl, get_put_self _ _ _ _, ?_⟩
        intro topic' host' hne
        exact get_put_of_ne _ _ hne

structure Published (topic : String) (message : Bytes) (protocols : EnumSet)
    (hosts : List String) (s t : State) (cs : List Call) : Prop where
  calls : t.calls = s.calls ++ cs
  once : (cs.map (·.host)).Sublist hosts
  each : ∀ c ∈ cs, c.topic = topic ∧ c.message = message ∧ protocols .ipc = true ∧
    (∃ handler, get s.publishTable topic c.host =
      some (PortTable.entry ⟨c.port, some .ipc⟩ handler)) ∧
    get t.publishTable topic c.host =
      some (PortTable.entry ⟨c.port, some .ipc⟩ (some c.handler))
  reached : protocols .ipc = true → ∀ host ∈ hosts, ∀ port handler,
    get s.publishTable topic host = some (PortTable.entry ⟨port, some .ipc⟩ handler) →
    host ∈ cs.map (·.host)
  keeps : ∀ host ∈ hosts, ∀ a handler,
    get s.publishTable topic host = some (PortTable.entry a handler) →
    ∃ handler', get t.publishTable topic host = some (PortTable.entry a handler') ∧
      ∀ n, handler = some n → handler' = some n
  others : ∀ topic' host', (topic' = topic → host' ∉ hosts) →
    get t.publishTable topic' host' = get s.publishTable topic' host'

theorem Published.nil (s : State) : Published topic message protocols [] s s [] :=
  ⟨(List.append_nil _).symm, List.Sublist.slnil, fun _ h => absurd h List.not_mem_nil,
    fun _ _ h => absurd h List.not_mem_nil, fun _ h => absurd h List.not_mem_nil,
    fun _ _ _ => rfl⟩

theorem entry_inj {b : Announced} {handler' : Option ℕ}
    (h : PortTable.entry a handler = PortTable.entry b handler') :
    a = b ∧ handler = handler' := by
  have he : [(⟨a.port, (a.protocol, handler)⟩ : Σ _ : ℤ, Option Protocol × Option ℕ)] =
      [⟨b.port, (b.protocol, handler')⟩] := congrArg AList.entries h
  cases a
  cases b
  cases he
  exact ⟨rfl, rfl⟩

theorem Published.cons {hosts : List String} {u : State} {c : Call} {cs : List Call}
    (hn : host ∉ hosts) (hg : get s.publishTable topic host = some (PortTable.entry a handler))
    (hipc : protocols .ipc = true) (ha : a.protocol = some .ipc)
    (hc : Served topic message host a handler s u c)
    (h : Published topic message protocols hosts u t cs) :
    Published topic message protocols (host :: hosts) s t (c :: cs) := by
  obtain ⟨htopic, hhost, hport, hmessage⟩ := hc.call
  have hu : ∀ other ∈ hosts, get u.publishTable topic other = get s.publishTable topic other :=
    fun other ho => hc.others topic other fun _ he => hn (he ▸ ho)
  have hentry : PortTable.entry a = PortTable.entry ⟨c.port, some .ipc⟩ := by
    rw [hport, ← ha]
  have hlast : get t.publishTable topic host =
      some (PortTable.entry a (some c.handler)) := by
    rw [h.others topic host fun _ => hn, hc.entry]
  refine ⟨?_, ?_, ?_, ?_, ?_, ?_⟩
  · rw [h.calls, hc.calls, List.append_assoc, List.singleton_append]
  · rw [List.map_cons, hhost]
    exact h.once.cons_cons host
  · intro d hd
    rcases List.mem_cons.mp hd with rfl | hd
    · rw [hhost]
      refine ⟨htopic, hmessage, hipc, ⟨handler, ?_⟩, ?_⟩
      · rw [hg, hentry]
      · rw [hlast, hentry]
    · have hmem : d.host ∈ hosts := h.once.subset (List.mem_map_of_mem hd)
      have heach := h.each d hd
      rw [hu d.host hmem] at heach
      exact heach
  · intro hp other ho port handler' hs
    rw [List.map_cons, hhost]
    rcases List.mem_cons.mp ho with rfl | ho
    · exact List.mem_cons_self
    · rw [← hu other ho] at hs
      exact List.mem_cons_of_mem _ (h.reached hp other ho port handler' hs)
  · intro other ho b handler' hs
    rcases List.mem_cons.mp ho with rfl | ho
    · obtain ⟨rfl, rfl⟩ := entry_inj (Option.some.inj (hg.symm.trans hs))
      refine ⟨_, hlast, ?_⟩
      intro n he
      rcases hc.handler with ⟨hk, -⟩ | ⟨hk, -⟩
      · exact hk.symm.trans he
      · cases hk.symm.trans he
    · rw [← hu other ho] at hs
      exact h.keeps other ho b handler' hs
  · intro topic' host' hne
    rw [h.others topic' host' fun ht hm => hne ht (List.mem_cons_of_mem _ hm),
      hc.others topic' host' fun ht he => hne ht (he ▸ List.mem_cons_self)]

theorem Published.skip {hosts : List String} {cs : List Call} (hn : host ∉ hosts)
    (hg : get s.publishTable topic host = some (PortTable.entry a handler))
    (hno : ¬ (protocols .ipc = true ∧ a.protocol = some .ipc))
    (h : Published topic message protocols hosts s t cs) :
    Published topic message protocols (host :: hosts) s t cs := by
  refine ⟨h.calls, h.once.cons host, h.each, ?_, ?_, ?_⟩
  · intro hp other ho port handler' hs
    rcases List.mem_cons.mp ho with rfl | ho
    · obtain ⟨rfl, -⟩ := entry_inj (Option.some.inj (hg.symm.trans hs))
      exact absurd ⟨hp, rfl⟩ hno
    · exact h.reached hp other ho port handler' hs
  · intro other ho b handler' hs
    rcases List.mem_cons.mp ho with rfl | ho
    · exact ⟨handler', by rw [h.others topic other fun _ => hn, hs], fun _ he => he⟩
    · exact h.keeps other ho b handler' hs
  · intro topic' host' hne
    exact h.others topic' host' fun ht hm => hne ht (List.mem_cons_of_mem _ hm)

variable (message) in
/-- The loop over ports, where each is the only one of its host. -/
theorem published_foldl (hset : ∀ p, protocols p = true → p = .ipc) (ps : List (String × ℤ))
    (hn : (ps.map Prod.fst).Nodup)
    (hg : ∀ p ∈ ps, ∃ a handler,
      get s.publishTable topic p.1 = some (PortTable.entry a handler) ∧ a.port = p.2) :
    ∃ cs, Published topic message protocols (ps.map Prod.fst) s
      (ps.foldl (State.publishPort topic message protocols) s) cs := by
  induction ps generalizing s with
  | nil => exact ⟨[], .nil s⟩
  | cons p ps ih =>
    obtain ⟨host, port⟩ := p
    obtain ⟨a, handler, ha, rfl⟩ := hg (host, port) List.mem_cons_self
    rw [List.map_cons, List.nodup_cons] at hn
    rw [List.map_cons, List.foldl_cons]
    rcases publishPort_cases message hset ha with ⟨hipc, hp, c, hc⟩ | ⟨hno, he⟩
    · obtain ⟨cs, hcs⟩ := ih hn.2 (s := State.publishPort topic message protocols s _) (by
        intro q hq
        rw [hc.others topic q.1 fun _ he => hn.1 (he ▸ List.mem_map_of_mem hq)]
        exact hg q (List.mem_cons_of_mem _ hq))
      exact ⟨c :: cs, hcs.cons hn.1 ha hipc hp hc⟩
    · rw [he]
      obtain ⟨cs, hcs⟩ := ih hn.2 fun q hq => hg q (List.mem_cons_of_mem _ hq)
      exact ⟨cs, hcs.skip hn.1 ha hno⟩

theorem ports_of_mirrors {hostTable : Map String PortTable} (hm : Mirrors s.publishTable ns)
    (ht : s.publishTable.lookup topic = some hostTable) :
    ((State.ports hostTable).map Prod.fst).Nodup ∧
    (∀ p ∈ State.ports hostTable, ∃ a handler,
      get s.publishTable topic p.1 = some (PortTable.entry a handler) ∧ a.port = p.2) ∧
    ∀ host a handler, get s.publishTable topic host = some (PortTable.entry a handler) →
      host ∈ (State.ports hostTable).map Prod.fst := by
  have hget : ∀ host, get s.publishTable topic host = hostTable.lookup host := by
    intro host
    rw [NestedMaps.get, ht, Option.bind_some]
  have hentry : ∀ e ∈ hostTable.entries, ∃ a handler, e.2 = PortTable.entry a handler := by
    intro e he
    have hl := lookup_eq_some_iff.mpr he
    obtain ⟨handler, hh⟩ := hm topic e.1
    rw [hget, hl] at hh
    obtain ⟨a, -, ha⟩ := Option.map_eq_some_iff.mp hh.symm
    exact ⟨a, handler, ha.symm⟩
  have hfst : (State.ports hostTable).map Prod.fst = hostTable.keys := by
    rw [State.ports, List.map_flatMap, AList.keys, List.keys, List.map_eq_flatMap]
    apply List.flatMap_congr
    intro e he
    obtain ⟨a, handler, hp⟩ := hentry e he
    rw [hp, keys_entry]
    rfl
  refine ⟨hfst ▸ hostTable.keys_nodup, ?_, ?_⟩
  · intro p hp
    obtain ⟨e, he, hk⟩ := List.mem_flatMap.mp hp
    obtain ⟨a, handler, hh⟩ := hentry e he
    rw [hh, keys_entry] at hk
    obtain rfl := List.mem_singleton.mp hk
    refine ⟨a, handler, ?_, rfl⟩
    rw [hget, ← hh]
    exact lookup_eq_some_iff.mpr he
  · intro host a handler hg
    rw [hget] at hg
    rw [hfst]
    exact AList.lookup_isSome.mp (hg ▸ rfl)

/-- A publication serves the entries of its topic, if IPC is chosen. -/
theorem publish_published (hm : Mirrors s.publishTable ns)
    (h : s.publish topic message protocols = some t) :
    ∃ hosts cs, Published topic message protocols hosts s t cs ∧ hosts.Nodup ∧
      (∀ host ∈ hosts, (get s.publishTable topic host).isSome) ∧
      (protocols .ipc = true → ∀ host a handler,
        get s.publishTable topic host = some (PortTable.entry a handler) → host ∈ hosts) := by
  rw [State.publish] at h
  split at h
  · cases h
  · have hleft := publishLoop_snd protocols
    have hipc : (publishLoop protocols).2 .ipc = protocols .ipc := by simp [hleft]
    have hempty : Published topic message protocols [] s s [] := .nil s
    have hnil : ∀ host ∈ ([] : List String), (get s.publishTable topic host).isSome :=
      fun _ hh => absurd hh List.not_mem_nil
    simp only at h
    split at h
    · cases h
      rw [State.publishTransportProtocols]
      cases ht : s.publishTable.lookup topic with
      | none =>
        refine ⟨[], [], hempty, List.nodup_nil, hnil, ?_⟩
        intro _ host a handler hg
        rw [NestedMaps.get, ht] at hg
        cases hg
      | some hostTable =>
        obtain ⟨hn, hall, hmem⟩ := ports_of_mirrors hm ht
        have honly : ∀ p, (publishLoop protocols).2 p = true → p = .ipc := by
          intro p hp
          rw [hleft] at hp
          simpa using (Bool.and_eq_true_iff.mp hp).2
        obtain ⟨cs, hcs⟩ := published_foldl message honly _ hn hall
        refine ⟨_, cs, ⟨hcs.calls, hcs.once, ?_, ?_, hcs.keeps, hcs.others⟩, hn, ?_,
          fun _ => hmem⟩
        · intro c hc
          have heach := hcs.each c hc
          rw [hipc] at heach
          exact heach
        · intro hp
          exact hcs.reached (hipc.trans hp)
        · intro host hh
          obtain ⟨p, hp, rfl⟩ := List.mem_map.mp hh
          obtain ⟨a, handler, hg, -⟩ := hall p hp
          rw [hg]
          rfl
    · cases h
      rename_i hnone
      refine ⟨[], [], hempty, List.nodup_nil, hnil, ?_⟩
      intro hp
      refine absurd (List.any_eq_true.mpr ⟨.ipc, by decide, ?_⟩) hnone
      exact hipc.trans hp

def Keeps (s t : State) (topic host : String) : Prop :=
  ∀ a handler, get s.publishTable topic host = some (PortTable.entry a handler) →
    ∃ handler', get t.publishTable topic host = some (PortTable.entry a handler') ∧
      ∀ n, handler = some n → handler' = some n

theorem publish_keeps (hm : Mirrors s.publishTable ns)
    (h : s.publish topic message protocols = some t) :
    Mirrors t.publishTable ns ∧ ∀ topic' host', Keeps s t topic' host' := by
  obtain ⟨hosts, cs, hcs, -, hin, -⟩ := publish_published hm h
  have hkeeps : ∀ topic' host', Keeps s t topic' host' := by
    intro topic' host' a handler hg
    by_cases hserved : topic' = topic ∧ host' ∈ hosts
    · obtain ⟨rfl, hserved⟩ := hserved
      exact hcs.keeps host' hserved a handler hg
    · refine ⟨handler, ?_, fun _ he => he⟩
      rw [hcs.others topic' host' fun ht hh => hserved ⟨ht, hh⟩, hg]
  refine ⟨?_, hkeeps⟩
  intro topic' host'
  obtain ⟨handler, hh⟩ := hm topic' host'
  cases hs : standing topic' host' ns with
  | some a =>
    rw [hs] at hh
    obtain ⟨handler', hg, -⟩ := hkeeps topic' host' a handler hh
    exact ⟨handler', hg⟩
  | none =>
    rw [hs] at hh
    refine ⟨none, ?_⟩
    have hnot : topic' = topic → host' ∉ hosts := by
      intro ht hmem
      have hsome := hin host' hmem
      rw [← ht, hh] at hsome
      cases hsome
    rw [hcs.others topic' host' hnot, hh]
    rfl

theorem step_mirrors (hm : Mirrors s.publishTable ns) {e : Event}
    (h : s.step R e = some t) : Mirrors t.publishTable (ns ++ e.notices R) := by
  cases e with
  | discovery payload =>
    rw [State.step] at h
    rw [Event.notices]
    split at h
    · cases h
      rw [if_pos ‹_›, List.append_nil]
      exact hm
    · cases h
      simp only [*, if_false, discoveryMessageCallback_eq]
      exact hm.foldl _
  | publish topic message protocols =>
    rw [Event.notices, List.append_nil]
    exact (publish_keeps hm h).1

theorem get_foldl_applyNotice (ms : List Notice) (table : PublishTable)
    (h : ∀ m ∈ ms, m.about topic host = none) :
    get (ms.foldl applyNotice table) topic host = get table topic host := by
  induction ms generalizing table with
  | nil => rfl
  | cons m ms ih =>
    rw [List.foldl_cons, ih _ fun k hk => h k (List.mem_cons_of_mem m hk)]
    have hm := h m List.mem_cons_self
    cases m with
    | leaves left =>
      have hne : left ≠ host := by
        intro he
        simp [Notice.about, he] at hm
      exact get_eraseInner_of_ne table topic hne.symm
    | announces t left a =>
      have hne : ¬ (t = topic ∧ left = host) := by
        intro he
        simp [Notice.about, he] at hm
      rw [applyNotice, updatePublishTable_eq]
      exact get_put_of_ne table _ fun ht hh => hne ⟨ht.symm, hh.symm⟩

theorem step_keeps (hm : Mirrors s.publishTable ns) {e : Event} (h : s.step R e = some t)
    (hq : ∀ n ∈ e.notices R, n.about topic host = none) : Keeps s t topic host := by
  cases e with
  | publish topic message protocols => exact (publish_keeps hm h).2 _ _
  | discovery payload =>
    have hget : get t.publishTable topic host = get s.publishTable topic host := by
      rw [Event.notices] at hq
      rw [State.step] at h
      split at h
      · cases h
        rfl
      · cases h
        rw [if_neg ‹_›] at hq
        rw [discoveryMessageCallback_eq]
        exact get_foldl_applyNotice _ _ hq
    intro a handler hg
    exact ⟨handler, hget.trans hg, fun _ he => he⟩

def told (R : Reader ρ) (es : List Event) : List Notice := es.flatMap (Event.notices R)

theorem told_append (R : Reader ρ) (es : List Event) (e : Event) :
    told R (es ++ [e]) = told R es ++ e.notices R := by
  rw [told, List.flatMap_append, List.flatMap_singleton, told]

theorem mirrors_told {es : List Event} (h : (machine R).exec {} es = some s) :
    Mirrors s.publishTable (told R es) := by
  refine Machine.exec_history (P := fun ds s => Mirrors s.publishTable (told R ds)) (l := []) h
    ?_ ?_
  · intro topic host
    exact ⟨none, rfl⟩
  · intro ds s e t _ hm ht
    rw [told_append]
    exact step_mirrors hm ht

/-- After any run the publish table has, for each topic and host, what the discovery messages
announced last for them since the host left, with one port and no other. -/
theorem publishTable_mirrors {es : List Event} (h : (machine R).exec {} es = some s) :
    Mirrors s.publishTable (told R es) := mirrors_told h

/-- After any run a publication over IPC calls one handler for each host that stands announced
for the topic with IPC, at its port, and no other; the table keeps this handler, and every step
that says nothing about a topic and host leaves theirs in place. -/
theorem publish_reaches_standing {es : List Event} (hs : (machine R).exec {} es = some s) :
    (∀ topic message protocols t, s.publish topic message protocols = some t →
      ∃ cs, t.calls = s.calls ++ cs ∧ (cs.map (·.host)).Nodup ∧
        (∀ host, host ∈ cs.map (·.host) ↔ protocols .ipc = true ∧
          ∃ port, standing topic host (told R es) = some ⟨port, some .ipc⟩) ∧
        ∀ c ∈ cs, c.topic = topic ∧ c.message = message ∧
          standing topic c.host (told R es) = some ⟨c.port, some .ipc⟩ ∧
          get t.publishTable topic c.host =
            some (PortTable.entry ⟨c.port, some .ipc⟩ (some c.handler))) ∧
    ∀ e t topic host, s.step R e = some t → (∀ n ∈ e.notices R, n.about topic host = none) →
      Keeps s t topic host := by
  have hm := mirrors_told hs
  constructor
  · intro topic message protocols t ht
    obtain ⟨hosts, cs, hcs, hn, -, hall⟩ := publish_published hm ht
    have hstand : ∀ host port handler,
        get s.publishTable topic host = some (PortTable.entry ⟨port, some .ipc⟩ handler) →
        standing topic host (told R es) = some ⟨port, some .ipc⟩ := by
      intro host port handler hg
      obtain ⟨handler', hh⟩ := hm topic host
      rw [hg] at hh
      obtain ⟨a, ha, he⟩ := Option.map_eq_some_iff.mp hh.symm
      rw [ha, (entry_inj he).1]
    refine ⟨cs, hcs.calls, ?_, ?_, ?_⟩
    · exact hcs.once.nodup hn
    · intro host
      constructor
      · intro hh
        obtain ⟨c, hc, rfl⟩ := List.mem_map.mp hh
        obtain ⟨-, -, hipc, ⟨handler, hg⟩, -⟩ := hcs.each c hc
        exact ⟨hipc, c.port, hstand _ _ _ hg⟩
      · rintro ⟨hipc, port, hp⟩
        obtain ⟨handler, hh⟩ := hm topic host
        rw [hp] at hh
        exact hcs.reached hipc host (hall hipc _ _ _ hh) port handler hh
    · intro c hc
      obtain ⟨htopic, hmessage, -, ⟨handler, hg⟩, hlast⟩ := hcs.each c hc
      exact ⟨htopic, hmessage, hstand _ _ _ hg, hlast⟩
  · intro e t topic host ht hq
    exact step_keeps hm ht hq

inductive Ref where
  | null
  | text (s : String)
  | number (n : ℤ)
  | fields (map : List (String × Ref))

/-- `{"status": "connected", "host": "h", "a": {"protocol": 16, "port": 0}}` -/
def joinPayload : Bytes :=
  [9, 99, 111, 110, 110, 101, 99, 116, 101, 100, 0, 1, 104, 0, 112, 111, 114, 116, 0, 112, 114,
    111, 116, 111, 99, 111, 108, 0, 2, 15, 11, 2, 1, 2, 0, 16, 4, 4, 97, 0, 104, 111, 115, 116,
    0, 115, 116, 97, 116, 117, 115, 0, 3, 15, 14, 10, 3, 1, 3, 25, 48, 60, 36, 20, 20, 6, 36, 1]

def joinReader : Reader Ref where
  getRoot payload :=
    if payload = joinPayload then
      some [("a", .fields [("port", .number 0), ("protocol", .number 16)]),
        ("host", .text "h"), ("status", .text "connected")]
    else none
  missing := .null
  asString
    | .text s => some s
    | _ => some ""
  asMap
    | .fields map => some map
    | _ => some []
  asInt
    | .number n => some n
    | .null => some 0
    | _ => none
  asUInt
    | .number n => some n
    | .null => some 0
    | _ => none

theorem publishTable_mirrors_join : ∃ s,
    (machine joinReader).exec {} [.discovery joinPayload, .publish "a" [1] (only .ipc)] = some s ∧
      Mirrors s.publishTable [.announces "a" "h" ⟨0, some .ipc⟩] := by
  obtain ⟨s, hs⟩ : ∃ s, (machine joinReader).exec {}
      [.discovery joinPayload, .publish "a" [1] (only .ipc)] = some s :=
    Option.isSome_iff_exists.mp (by decide +kernel)
  have ht : told joinReader [.discovery joinPayload, .publish "a" [1] (only .ipc)] =
      [.announces "a" "h" ⟨0, some .ipc⟩] := by decide +kernel
  exact ⟨s, hs, ht ▸ publishTable_mirrors hs⟩

theorem publish_reaches_join : ∃ s t cs,
    (machine joinReader).exec {} [.discovery joinPayload, .publish "a" [1] (only .ipc)] = some s ∧
      s.publish "a" [2] (only .ipc) = some t ∧ t.calls = s.calls ++ cs ∧
      "h" ∈ cs.map (·.host) := by
  obtain ⟨s, hs⟩ : ∃ s, (machine joinReader).exec {}
      [.discovery joinPayload, .publish "a" [1] (only .ipc)] = some s :=
    Option.isSome_iff_exists.mp (by decide +kernel)
  obtain ⟨t, ht⟩ : ∃ t, s.publish "a" [2] (only .ipc) = some t := by
    rw [State.publish, if_neg (by decide)]
    exact ⟨_, if_pos (by decide)⟩
  obtain ⟨cs, hcalls, -, hhosts, -⟩ := (publish_reaches_standing hs).1 "a" [2] (only .ipc) t ht
  exact ⟨s, t, cs, hs, ht, hcalls, (hhosts "h").mpr ⟨rfl, 0, by decide +kernel⟩⟩

end JavaPublishTable
