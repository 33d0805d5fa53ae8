import Aitt.TcpPublishTable
import Aitt.TcpReceive

/-! Publishing to every matching entry of the publish table, with peers that refuse the
connection or fail in the middle of a send. The table keeps the connections it was given, the
one of a failed send as well. -/
namespace TcpFanOut

open AittTypes Flexbuffers TransitionRuns PartialTransfers
open TcpMsgInfo TcpFraming TcpSecureFraming TcpReceive
open TcpPublishTable (ConnectInfo)
open MosquittoMQ (compareTopic exactMatch)

/-- `failed` says that an exception came out of a send; the code does not keep it. -/
structure Conn where
  sink : Sink UInt8
  failed : Bool
  deriving DecidableEq, Repr

/-- `opened` counts the connections that the entry has been given, which the code does not. -/
structure PortInfo where
  info : ConnectInfo
  connection : Option Conn
  opened : ℕ := 0
  deriving DecidableEq, Repr

abbrev PublishMap := List (String × List (String × PortInfo))

/-- What the peers do during a call: which of them accept a connection, and how much each
call of `send` to them moves, if it does not fail. -/
structure Peers where
  connects : String → String → Bool
  accept : String → String → ℕ → Option ℕ

/-- A loop over a container that changes its elements in place and may be left by an
exception. -/
def traverse {α : Type} (visit : α → α × Bool) : List α → List α × Bool
  | [] => ([], false)
  | x :: xs =>
    let out := visit x
    if out.2 then (out.1 :: xs, true)
    else
      let rest := traverse visit xs
      (out.1 :: rest.1, rest.2)

/-- The size is passed as an `int32_t`; a negative one is ignored. -/
def sendSizedData (link : Link) (accept : ℕ → Option ℕ) (data : Bytes) (s : Sink UInt8) :
    Sink UInt8 × Bool :=
  let dataSize := data.length % 4294967296
  if 2147483648 ≤ dataSize then (s, true)
  else match link with
    | .normal => sendSizedDataNormal accept (data.take dataSize) s
    | .secure c => sendSizedDataSecure c accept (data.take dataSize) s

def sendPair (link : Link) (accept : ℕ → Option ℕ) (header payload : Bytes) :
    Sink UInt8 → Sink UInt8 × Bool :=
  andThen (sendSizedData link accept header) (sendSizedData link accept payload)

structure Call where
  msg : AittMsg
  isReply : Bool
  payload : Bytes
  datalen : payload.length < 2147483648
  peers : Peers

def Call.topic (c : Call) : String := if c.isReply then c.msg.replyTopic else c.msg.topic

section

variable [Package] (link : Link) (pack : List (String × Item) → Bytes)
  (topicMatchesSub : String → String → Option Bool)

def Call.header (c : Call) : Bytes := pack (packMsgInfo c.msg c.isReply)

/-- The body of the inner loop; the exception of a send is caught, that of the constructor of
the connection is not. -/
def serve (c : Call) (filter : String) (entry : String × PortInfo) :
    (String × PortInfo) × Bool :=
  let transmit (conn : Conn) (opened : ℕ) : (String × PortInfo) × Bool :=
    let out := sendPair link (c.peers.accept filter entry.1) (c.header pack) c.payload conn.sink
    ((entry.1, ⟨entry.2.info, some ⟨out.1, conn.failed || !out.2⟩, opened⟩), false)
  match entry.2.connection with
  | some conn => transmit conn entry.2.opened
  | none =>
    if c.peers.connects filter entry.1 then transmit ⟨⟨[], 0⟩, false⟩ (entry.2.opened + 1)
    else (entry, true)

def serveRow (c : Call) (row : String × List (String × PortInfo)) :
    (String × List (String × PortInfo)) × Bool :=
  if compareTopic topicMatchesSub row.1 c.topic then
    let hosts := traverse (serve link pack c row.1) row.2
    ((row.1, hosts.1), hosts.2)
  else (row, false)

def publishFull (c : Call) (table : PublishMap) : PublishMap × Bool :=
  traverse (serveRow link pack topicMatchesSub c) table

def machine (initial : PublishMap) : Machine PublishMap Call :=
  ⟨initial, fun table c => some (publishFull link pack topicMatchesSub c table).1⟩

end

def entries (table : PublishMap) : List (String × String × PortInfo) :=
  table.flatMap fun row => row.2.map fun entry => (row.1, entry.1, entry.2)

section Traverse

variable {α : Type} {visit : α → α × Bool} {l : List α}

theorem traverse_raised_iff : (traverse visit l).2 = true ↔ ∃ x ∈ l, (visit x).2 = true := by
  induction l with
  | nil => simp [traverse]
  | cons x xs ih =>
    cases hx : (visit x).2 with
    | true => simp [traverse, hx]
    | false => simp [traverse, hx, ih]

theorem traverse_of_calm (h : ∀ x ∈ l, (visit x).2 = false) :
    traverse visit l = (l.map fun x => (visit x).1, false) := by
  induction l with
  | nil => rfl
  | cons x xs ih =>
    have hx := h x List.mem_cons_self
    have hxs := ih fun y hy => h y (List.mem_cons_of_mem x hy)
    simp only [traverse, hx, Bool.false_eq_true, if_false, hxs, List.map_cons]

end Traverse

def pairBytes (link : Link) (p : Bytes × Bytes) : Bytes := frame link p.1 ++ frame link p.2

theorem send_writes (accept : ℕ → Option ℕ) (data : Bytes) : Writes (send accept data) data :=
  fun s => writeLoop_spec accept (Nat.le_refl _) s

section Send

variable {link : Link} {accept : ℕ → Option ℕ} {data : Bytes}

theorem sendSizedData_fits (h : data.length < 2147483648) :
    sendSizedData link accept data = match link with
      | .normal => sendSizedDataNormal accept data
      | .secure c => sendSizedDataSecure c accept data := by
  funext s
  have hm : data.length % 4294967296 = data.length := Nat.mod_eq_of_lt (by omega)
  simp only [sendSizedData, hm, List.take_length]
  rw [if_neg (by omega)]
  cases link <;> rfl

theorem sendSizedData_writes (h : data.length < 2147483648) :
    Writes (sendSizedData link accept data) (frame link data) := by
  rw [sendSizedData_fits h]
  cases link with
  | normal => exact (send_writes accept _).andThen (send_writes accept _)
  | secure c =>
    intro s
    by_cases h0 : data.length ≠ 0
    · simp only [sendSizedDataSecure, frame, secureFrame, if_pos h0]
      exact (send_writes accept _).andThen (send_writes accept _) s
    · simp only [sendSizedDataSecure, frame, secureFrame, if_neg h0]
      exact send_writes accept _ s

variable {header payload : Bytes}

theorem sendPair_writes (hh : header.length < 2147483648) (hp : payload.length < 2147483648) :
    Writes (sendPair link accept header payload) (pairBytes link (header, payload)) :=
  (sendSizedData_writes hh).andThen (sendSizedData_writes hp)

theorem andThen_accepted {w v : Sink UInt8 → Sink UInt8 × Bool} (hw : ∀ s, (w s).2 = true)
    (hv : ∀ s, (v s).2 = true) (s : Sink UInt8) : (andThen w v s).2 = true := by
  simp only [andThen, hw, if_true, hv]

theorem sendPair_accepted (ha : ∀ n, (accept n).isSome = true)
    (hh : header.length < 2147483648) (hp : payload.length < 2147483648) (s : Sink UInt8) :
    (sendPair link accept header payload s).2 = true := by
  have hsend : ∀ data s, (send accept data s).2 = true :=
    fun data s => (writeLoop_accepts ha (Nat.le_refl _) s).2
  have hsized : ∀ {data : Bytes}, data.length < 2147483648 →
      ∀ s, (sendSizedData link accept data s).2 = true := by
    intro data h s
    rw [sendSizedData_fits h]
    cases link with
    | normal => exact andThen_accepted (hsend _) (hsend _) s
    | secure c =>
      simp only [sendSizedDataSecure]
      split
      · exact andThen_accepted (hsend _) (hsend _) s
      · exact hsend _ s
  exact andThen_accepted (hsized hh) (hsized hp) s

end Send

section Isolation

variable [Package] (link : Link) (pack : List (String × Item) → Bytes)
  (topicMatchesSub : String → String → Option Bool)

def written (entry : PortInfo) : Bytes := (entry.connection.map (·.sink.written)).getD []

def hasFailed (entry : PortInfo) : Bool := (entry.connection.map (·.failed)).getD false

def Works (c : Call) (x : String × String × PortInfo) : Prop :=
  (x.2.2.connection = none ∨ hasFailed x.2.2 = true → c.peers.connects x.1 x.2.1 = true) ∧
    ∀ n, (c.peers.accept x.1 x.2.1 n).isSome = true

/-- What the next pair goes behind: a new connection takes the place of a failed one. -/
def before (entry : PortInfo) : Bytes := if hasFailed entry then [] else written entry

structure Served (c : Call) (x y : String × String × PortInfo) : Prop where
  keys : y.1 = x.1 ∧ y.2.1 = x.2.1
  others : compareTopic topicMatchesSub x.1 c.topic = false → y = x
  complete : compareTopic topicMatchesSub x.1 c.topic = true → Works c x →
    written y.2.2 = before x.2.2 ++ pairBytes link (c.header pack, c.payload)
  renewed : compareTopic topicMatchesSub x.1 c.topic = true → hasFailed x.2.2 = true →
    y.2.2.connection = none ∨ x.2.2.opened < y.2.2.opened

/-- The call returns, no entry suffers from the peers of the others, and a connection on which a
send failed earlier is dropped, with a new one in its place if the peer takes it. -/
def Isolates (c : Call) (table : PublishMap) : Prop :=
  (publishFull link pack topicMatchesSub c table).2 = false ∧
    List.Forall₂ (Served link pack topicMatchesSub c) (entries table)
      (entries (publishFull link pack topicMatchesSub c table).1)

/-- A matching entry without connection gets one, and none has a connection that has seen a
failed send. -/
def EntryOk (c : Call) (x : String × String × PortInfo) : Prop :=
  compareTopic topicMatchesSub x.1 c.topic = true →
    (x.2.2.connection = none → c.peers.connects x.1 x.2.1 = true) ∧ hasFailed x.2.2 = false

def Ok (table : PublishMap) (c : Call) : Prop :=
  (c.header pack).length < 2147483648 ∧ ∀ x ∈ entries table, EntryOk topicMatchesSub c x

instance (c : Call) (x : String × String × PortInfo) :
    Decidable (EntryOk topicMatchesSub c x) := inferInstanceAs (Decidable (_ → _ ∧ _))

instance (table : PublishMap) (c : Call) : Decidable (Ok pack topicMatchesSub table c) :=
  inferInstanceAs (Decidable (_ ∧ _))

def Framed (conn : Conn) : Prop :=
  ∃ (pairs : List (Bytes × Bytes)) (tail : Bytes),
    conn.sink.written = pairs.flatMap (pairBytes link) ++ tail ∧
    (tail = [] ∨ conn.failed = true ∧ ∃ p, tail <+: pairBytes link p ∧ tail ≠ pairBytes link p)

end Isolation

section FanOut

variable [Package] {link : Link} {pack : List (String × Item) → Bytes}
  {topicMatchesSub : String → String → Option Bool} {c : Call} {table : PublishMap}

def served (link : Link) (pack : List (String × Item) → Bytes)
    (topicMatchesSub : String → String → Option Bool) (c : Call)
    (x : String × String × PortInfo) : String × String × PortInfo :=
  if compareTopic topicMatchesSub x.1 c.topic then
    (x.1, (serve link pack c x.1 x.2).1)
  else x

theorem serve_raised_iff (filter : String) (entry : String × PortInfo) :
    (serve link pack c filter entry).2 = true ↔
      entry.2.connection = none ∧ c.peers.connects filter entry.1 = false := by
  unfold serve
  cases hc : entry.2.connection with
  | some conn => simp
  | none => cases hp : c.peers.connects filter entry.1 <;> simp

theorem publishFull_raised_iff :
    (publishFull link pack topicMatchesSub c table).2 = true ↔
      ∃ x ∈ entries table, compareTopic topicMatchesSub x.1 c.topic = true ∧
        x.2.2.connection = none ∧ c.peers.connects x.1 x.2.1 = false := by
  rw [publishFull, traverse_raised_iff]
  constructor
  · rintro ⟨row, hrow, hr⟩
    rw [serveRow] at hr
    split at hr
    · next hm =>
      obtain ⟨entry, hentry, he⟩ := traverse_raised_iff.mp hr
      refine ⟨(row.1, entry.1, entry.2), ?_, hm, (serve_raised_iff row.1 entry).mp he⟩
      exact List.mem_flatMap.mpr ⟨row, hrow, List.mem_map.mpr ⟨entry, hentry, rfl⟩⟩
    · cases hr
  · rintro ⟨x, hx, hm, hbad⟩
    obtain ⟨row, hrow, hx⟩ := List.mem_flatMap.mp hx
    obtain ⟨entry, hentry, rfl⟩ := List.mem_map.mp hx
    refine ⟨row, hrow, ?_⟩
    rw [serveRow, if_pos hm]
    exact traverse_raised_iff.mpr ⟨entry, hentry, (serve_raised_iff row.1 entry).mpr hbad⟩

theorem entries_publishFull (h : (publishFull link pack topicMatchesSub c table).2 = false) :
    entries (publishFull link pack topicMatchesSub c table).1 =
      (entries table).map (served link pack topicMatchesSub c) := by
  have hcalm : ∀ row ∈ table, (serveRow link pack topicMatchesSub c row).2 = false := by
    intro row hrow
    by_contra hr
    have := traverse_raised_iff.mpr ⟨row, hrow, by simpa using hr⟩
    rw [publishFull] at h
    cases this.symm.trans h
  rw [publishFull, traverse_of_calm hcalm]
  simp only [entries, List.flatMap_map, List.map_flatMap]
  refine List.flatMap_congr fun row hrow => ?_
  have hrow := hcalm row hrow
  rw [serveRow] at hrow ⊢
  by_cases hm : compareTopic topicMatchesSub row.1 c.topic = true
  · rw [if_pos hm] at hrow ⊢
    have hhosts : ∀ entry ∈ row.2, (serve link pack c row.1 entry).2 = false := by
      intro entry hentry
      by_contra hr
      cases (traverse_raised_iff.mpr ⟨entry, hentry, by simpa using hr⟩).symm.trans hrow
    simp only [traverse_of_calm hhosts, List.map_map]
    refine List.map_congr_left fun entry _ => ?_
    simp only [Function.comp, served, if_pos hm]
  · rw [if_neg hm, List.map_map]
    refine List.map_congr_left fun entry _ => ?_
    simp only [Function.comp, served, if_neg hm]

def connOf (entry : PortInfo) : Conn := entry.connection.getD ⟨⟨[], 0⟩, false⟩

omit [Package] in
theorem written_eq (entry : PortInfo) : written entry = (connOf entry).sink.written := by
  rcases entry with ⟨_, _ | _, _⟩ <;> rfl

omit [Package] in
theorem hasFailed_eq (entry : PortInfo) : hasFailed entry = (connOf entry).failed := by
  rcases entry with ⟨_, _ | _, _⟩ <;> rfl

def openedAfter (entry : PortInfo) : ℕ :=
  if entry.connection = none then entry.opened + 1 else entry.opened

def transmission (link : Link) (pack : List (String × Item) → Bytes) (c : Call)
    (x : String × String × PortInfo) : Sink UInt8 × Bool :=
  sendPair link (c.peers.accept x.1 x.2.1) (c.header pack) c.payload (connOf x.2.2).sink

theorem serve_calm {x : String × String × PortInfo}
    (h : x.2.2.connection = none → c.peers.connects x.1 x.2.1 = true) :
    (serve link pack c x.1 x.2).1 = (x.2.1, ⟨x.2.2.info, some
      ⟨(transmission link pack c x).1,
        (connOf x.2.2).failed || !(transmission link pack c x).2⟩, openedAfter x.2.2⟩) := by
  rw [serve, transmission, connOf, openedAfter]
  cases hc : x.2.2.connection with
  | some conn => simp only [Option.getD_some, reduceCtorEq, if_false]
  | none => simp only [h hc, if_true, Option.getD_none]

theorem served_matching {x : String × String × PortInfo}
    (hm : compareTopic topicMatchesSub x.1 c.topic = true)
    (h : x.2.2.connection = none → c.peers.connects x.1 x.2.1 = true) :
    served link pack topicMatchesSub c x = (x.1, x.2.1, ⟨x.2.2.info, some
      ⟨(transmission link pack c x).1,
        (connOf x.2.2).failed || !(transmission link pack c x).2⟩, openedAfter x.2.2⟩) := by
  rw [served, if_pos hm, serve_calm h]

theorem transmission_spec (link : Link) (hh : (c.header pack).length < 2147483648)
    (x : String × String × PortInfo) :
    ∃ n ≤ (pairBytes link (c.header pack, c.payload)).length,
      (transmission link pack c x).1.written =
        written x.2.2 ++ (pairBytes link (c.header pack, c.payload)).take n ∧
      ((transmission link pack c x).2 = true ↔
        n = (pairBytes link (c.header pack, c.payload)).length) := by
  rw [written_eq]
  exact sendPair_writes hh c.datalen (connOf x.2.2).sink

theorem served_of_ok (hh : (c.header pack).length < 2147483648)
    {x : String × String × PortInfo} (hok : EntryOk topicMatchesSub c x) :
    Served link pack topicMatchesSub c x (served link pack topicMatchesSub c x) := by
  cases hm : compareTopic topicMatchesSub x.1 c.topic with
  | false =>
    have he : served link pack topicMatchesSub c x = x := by
      rw [served, if_neg (by rw [hm]; exact Bool.false_ne_true)]
    rw [he]
    exact ⟨⟨rfl, rfl⟩, fun _ => rfl, fun h => absurd (hm.symm.trans h) Bool.false_ne_true,
      fun h => absurd (hm.symm.trans h) Bool.false_ne_true⟩
  | true =>
    obtain ⟨hconnects, hcalm⟩ := hok hm
    rw [served_matching hm hconnects]
    refine ⟨⟨rfl, rfl⟩, fun h => absurd (h.symm.trans hm) Bool.false_ne_true, ?_, ?_⟩
    · intro _ hworks
      obtain ⟨n, _, hwritten, hall⟩ := transmission_spec link hh x
      have hn := hall.mp (sendPair_accepted hworks.2 hh c.datalen _)
      rw [hn, List.take_length] at hwritten
      rw [before, hcalm]
      exact hwritten
    · intro _ hfailed
      exact absurd (hcalm.symm.trans hfailed) Bool.false_ne_true

/-- A connection that has failed stays, so nothing renews it. -/
theorem ok_of_served {x : String × String × PortInfo}
    (hconnects : compareTopic topicMatchesSub x.1 c.topic = true → x.2.2.connection = none →
      c.peers.connects x.1 x.2.1 = true)
    (hs : Served link pack topicMatchesSub c x (served link pack topicMatchesSub c x)) :
    EntryOk topicMatchesSub c x := by
  intro hm
  refine ⟨hconnects hm, ?_⟩
  by_contra hf
  have hfailed : hasFailed x.2.2 = true := by simpa using hf
  have hsome : x.2.2.connection ≠ none := by
    intro hn
    rw [hasFailed, hn] at hfailed
    cases hfailed
  have hrenewed := hs.renewed hm hfailed
  rw [served_matching hm (hconnects hm)] at hrenewed
  rcases hrenewed with hnone | hlt
  · cases hnone
  · rw [openedAfter, if_neg hsome] at hlt
    exact absurd hlt (Nat.lt_irrefl _)

theorem isolates_iff (hh : (c.header pack).length < 2147483648) :
    Isolates link pack topicMatchesSub c table ↔
      ∀ x ∈ entries table, EntryOk topicMatchesSub c x := by
  constructor
  · rintro ⟨hcalm, hserved⟩ x hx
    rw [entries_publishFull hcalm, List.forall₂_map_right_iff, List.forall₂_same] at hserved
    refine ok_of_served (fun hm hnone => ?_) (hserved x hx)
    by_contra hno
    cases (publishFull_raised_iff.mpr ⟨x, hx, hm, hnone, by simpa using hno⟩).symm.trans hcalm
  · intro hok
    have hcalm : (publishFull link pack topicMatchesSub c table).2 = false := by
      by_contra hr
      obtain ⟨x, hx, hm, hnone, hno⟩ := publishFull_raised_iff.mp (by simpa using hr)
      cases ((hok x hx hm).1 hnone).symm.trans hno
    refine ⟨hcalm, ?_⟩
    rw [entries_publishFull hcalm, List.forall₂_map_right_iff, List.forall₂_same]
    exact fun x hx => served_of_ok hh (hok x hx)

def AllFramed (link : Link) (table : PublishMap) : Prop :=
  ∀ x ∈ entries table, ∀ conn ∈ x.2.2.connection, Framed link conn

omit [Package] in
theorem framed_connOf {x : String × String × PortInfo}
    (h : ∀ conn ∈ x.2.2.connection, Framed link conn) : Framed link (connOf x.2.2) := by
  rw [connOf]
  cases hc : x.2.2.connection with
  | none => exact ⟨[], [], rfl, .inl rfl⟩
  | some conn => exact h conn hc

/-- Over a connection that has not failed goes one more pair, or the beginning of one. -/
theorem framed_transmission (hh : (c.header pack).length < 2147483648)
    {x : String × String × PortInfo} (hf : Framed link (connOf x.2.2))
    (hfailed : (connOf x.2.2).failed = false) :
    Framed link ⟨(transmission link pack c x).1,
      (connOf x.2.2).failed || !(transmission link pack c x).2⟩ := by
  obtain ⟨pairs, tail, hwritten, htail⟩ := hf
  obtain rfl : tail = [] := htail.resolve_right fun h => by simp [hfailed] at h
  obtain ⟨n, hn, hsent, hall⟩ := transmission_spec link hh x
  rw [written_eq, hwritten, List.append_nil] at hsent
  cases hok : (transmission link pack c x).2 with
  | true =>
    rw [hall.mp hok, List.take_length] at hsent
    refine ⟨pairs ++ [(c.header pack, c.payload)], [], ?_, .inl rfl⟩
    rw [hsent]
    simp
  | false =>
    refine ⟨pairs, _, hsent, .inr ⟨?_, (c.header pack, c.payload), List.take_prefix _ _, ?_⟩⟩
    · simp
    · intro he
      have hlen := congrArg List.length he
      rw [List.length_take] at hlen
      have := hall.mpr (by omega)
      simp [hok] at this

theorem allFramed_publishFull (h : AllFramed link table)
    (hok : Ok pack topicMatchesSub table c) :
    AllFramed link (publishFull link pack topicMatchesSub c table).1 := by
  have hiso : Isolates link pack topicMatchesSub c table := (isolates_iff hok.1).mpr hok.2
  have hcalm := hiso.1
  intro y hy conn hconn
  rw [entries_publishFull hcalm, List.mem_map] at hy
  obtain ⟨x, hx, rfl⟩ := hy
  by_cases hm : compareTopic topicMatchesSub x.1 c.topic = true
  · obtain ⟨hconnects, hfailed⟩ := hok.2 x hx hm
    rw [served_matching hm hconnects] at hconn
    obtain rfl := Option.some.inj hconn
    rw [hasFailed_eq] at hfailed
    exact framed_transmission hok.1 (framed_connOf (h x hx)) hfailed
  · rw [served, if_neg hm] at hconn
    exact h x hx conn hconn

/-- From a table without connections, as long as every call meets the condition, all that any
connection carries is framed; and a call isolates its entries exactly when each of them meets
it. -/
theorem fan_out_isolates (initial : PublishMap)
    (hinit : ∀ x ∈ entries initial, x.2.2.connection = none)
    (h : (machine link pack topicMatchesSub initial).Reaches (Ok pack topicMatchesSub) table) :
    AllFramed link table ∧
    ∀ c : Call, (c.header pack).length < 2147483648 →
      (Isolates link pack topicMatchesSub c table ↔
        ∀ x ∈ entries table, EntryOk topicMatchesSub c x) := by
  refine ⟨?_, fun c hh => isolates_iff hh⟩
  refine h.invariant ?_ ?_
  · intro x hx conn hconn
    rw [hinit x hx] at hconn
    cases hconn
  · intro table c t _ hi hok hs
    obtain rfl := Option.some.inj hs
    exact allFramed_publishFull hi hok

end FanOut

local instance : Package := plain

def twoPeers : PublishMap :=
  [("a", [("c", { info := { port := 5000 }, connection := none }),
    ("d", { info := { port := 5001 }, connection := none })])]

def oneByte (_ : List (String × Item)) : Bytes := [1]

def secondCallFails : Peers where
  connects _ _ := true
  accept _ clientId n := if clientId = "c" ∧ n = 1 then none else some 5

def publication (peers : Peers) : Call := ⟨{ topic := "a" }, false, [7], by decide, peers⟩

theorem fan_out_isolates_after_one_failure :
    ∃ table, (machine .normal oneByte exactMatch twoPeers).Reaches (Ok oneByte exactMatch) table ∧
      AllFramed .normal table ∧
      (entries table).map (fun x => (x.2.1, written x.2.2)) =
        [("c", [1, 0, 0, 0]), ("d", [1, 0, 0, 0, 1, 1, 0, 0, 0, 7])] := by
  have hr : (machine .normal oneByte exactMatch twoPeers).Reaches (Ok oneByte exactMatch)
      (publishFull .normal oneByte exactMatch (publication secondCallFails) twoPeers).1 :=
    .step .initial (e := publication secondCallFails) (by decide) rfl
  exact ⟨_, hr, (fan_out_isolates twoPeers (by decide) hr).1, by decide⟩

def refusing : Peers where
  connects _ clientId := clientId ≠ "c"
  accept _ _ _ := some 5

def working : Peers := ⟨fun _ _ => true, fun _ _ _ => some 5⟩

/-- The peer that refuses takes the one behind it along, and a connection that broke off
within a pair stays and gets the next pair appended. -/
theorem failures_are_not_isolated :
    ¬Isolates .normal oneByte exactMatch (publication refusing) twoPeers ∧
    ∃ table, (machine .normal oneByte exactMatch twoPeers).Reachable table ∧
      ¬Isolates .normal oneByte exactMatch (publication working) table := by
  refine ⟨?_, _, .step .initial (e := publication secondCallFails) trivial rfl, ?_⟩
  · rw [isolates_iff (by exact (by decide : 1 < 2147483648))]
    decide
  · rw [isolates_iff (by exact (by decide : 1 < 2147483648))]
    decide

end TcpFanOut
