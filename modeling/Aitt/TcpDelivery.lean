import Aitt.TcpFanOut

/-! Messages from any number of publishers to the servers of any number of subscribers. The
tables are filled and stay as they are, and no socket fails; publishers write, servers accept
and main loops serve their connections in any order. -/
namespace TcpDelivery

open AittTypes Flexbuffers TransitionRuns PartialTransfers
open TcpMsgInfo TcpFraming TcpReceive
open TcpFanOut (pairBytes sendPair sendPair_writes sendPair_accepted)
open MosquittoMQ (compareTopic exactMatch)

structure Publication where
  topic : String
  replyTopic : String
  correlation : Bytes
  payload : Bytes
  topicFree : NulFree topic
  replyTopicFree : NulFree replyTopic
  correlationFree : 0 ∉ correlation
  size : payload.length ≤ payloadMax
  deriving DecidableEq

def Publication.msg (p : Publication) : AittMsg :=
  { topic := p.topic, replyTopic := p.replyTopic, correlation := p.correlation }

def Publication.delivery (p : Publication) : Delivery := (p.msg, given (contents p.payload))

abbrev Entry := String × String

/-- Who publishes where, with flexbuffers and mosquitto as parameters. mosquitto matches no
filter with an empty topic. -/
structure System (ι : Type) where
  table : ι → List Entry
  table_nodup : ∀ i, (table i).Nodup
  callbacks : Entry → ℕ
  topicMatchesSub : String → String → Option Bool
  emptyTopic : ∀ filter, compareTopic topicMatchesSub filter "" = false
  pack : List (String × Item) → Bytes
  root : Bytes → List (String × Item)
  receiving : ι × Entry → Receiving

variable {ι : Type} [DecidableEq ι]

def System.header [Package] (S : System ι) (p : Publication) : Bytes := S.pack
    (packMsgInfo p.msg false)

def System.bytes [Package] (S : System ι) (p : Publication) : Bytes :=
  (sendPair .normal (fun _ => some 0) (S.header p) p.payload ⟨[], 0⟩).1.written

def System.Matches (S : System ι) (e : Entry) (p : Publication) : Bool :=
  compareTopic S.topicMatchesSub e.1 p.topic

inductive Stage where
  | unopened
  | pending
  | watched
  | removed
  deriving DecidableEq, Repr

/-- One connection: what has been written and not yet read, and the calls of the server's
callbacks made for it, each by the position of the callback in the list. -/
structure Wire where
  stage : Stage
  source : Source UInt8
  calls : List (ℕ × Delivery)
  deriving DecidableEq, Repr

/-- `todo` is what a publisher has still to write in its current call, entry by entry. -/
structure State (ι : Type) where
  published : ι → List Publication
  todo : ι → List (Entry × Bytes)
  wires : ι × Entry → Wire

inductive Event (ι : Type) where
  | publish (i : ι) (p : Publication)
  | transfer (i : ι) (n : ℕ)
  | accept (i : ι) (e : Entry)
  | receive (i : ι) (e : Entry)

/-- The calls of `recv` that `ReceiveData` makes do not have to wait. -/
def Ready [Package] (root : Bytes → List (String × Item)) (b : Bytes) : Prop :=
  (4 ≤ b.length ∧ ¬BodyCut b) ∧ ∀ f ∈ wholeFrame .normal b, (msgOf root f.1).topic ≠ "" →
    4 ≤ f.2.length ∧ ¬BodyCut f.2

instance [Package] (root : Bytes → List (String × Item)) (b : Bytes) :
    Decidable (Ready root b) :=
  inferInstanceAs (Decidable (_ ∧ _))

section

variable [Package] (S : System ι)

def publish (s : State ι) (i : ι) (p : Publication) : State ι :=
  { s with
    published := Function.update s.published i (s.published i ++ [p])
    todo := Function.update s.todo i (((S.table i).filter (S.Matches · p)).map (·, S.bytes p)) }

/-- Some bytes go out; a connection that is needed for the first time is opened. -/
def transfer (s : State ι) (i : ι) (n : ℕ) : Option (State ι) :=
  match s.todo i with
  | [] => none
  | (e, b) :: rest =>
    let w := s.wires (i, e)
    some { s with
      todo := Function.update s.todo i
        (if b.drop (n + 1) = [] then rest else (e, b.drop (n + 1)) :: rest)
      wires := Function.update s.wires (i, e) { w with
        stage := if w.stage = .unopened then .pending else w.stage
        source := ⟨w.source.stream ++ b.take (n + 1), w.source.calls⟩ } }

def accept (s : State ι) (i : ι) (e : Entry) : State ι :=
  { s with wires := Function.update s.wires (i, e) { s.wires (i, e) with stage := .watched } }

def invoke (callbacks : ℕ) (handed : List Delivery) : List (ℕ × Delivery) :=
  handed.flatMap fun d => (List.range callbacks).map (·, d)

def receive (s : State ι) (i : ι) (e : Entry) : State ι :=
  let w := s.wires (i, e)
  let turn := receiveData (recvSizedData .normal (S.receiving (i, e))) S.root w.source
  { s with
    wires := Function.update s.wires (i, e)
      ⟨if turn.watched then .watched else .removed, turn.source,
        w.calls ++ invoke (S.callbacks e) turn.handed⟩ }

def step (s : State ι) : Event ι → Option (State ι)
  | .publish i p => if s.todo i = [] then some (publish S s i p) else none
  | .transfer i n => transfer s i n
  | .accept i e =>
    if (s.wires (i, e)).stage = .pending then some (accept s i e) else none
  | .receive i e =>
    if (s.wires (i, e)).stage = .watched ∧ Ready S.root (s.wires (i, e)).source.stream then
      some (receive S s i e)
    else none

def machine : Machine (State ι) (Event ι) :=
  ⟨⟨fun _ => [], fun _ => [], fun _ => ⟨.unopened, ⟨[], 0⟩, []⟩⟩, step S⟩

structure Good (p : Publication) : Prop where
  faithful : S.root (S.header p) = packMsgInfo p.msg false
  nonempty : S.header p ≠ []
  fits : (S.header p).length ≤ payloadMax

instance (p : Publication) : Decidable (Good S p) :=
  decidable_of_iff (S.root (S.header p) = packMsgInfo p.msg false ∧ S.header p ≠ [] ∧
      (S.header p).length ≤ payloadMax)
    ⟨fun ⟨h, k, l⟩ => ⟨h, k, l⟩, fun ⟨h, k, l⟩ => ⟨h, k, l⟩⟩

def Ok (_ : State ι) : Event ι → Prop
  | .publish i p => ∀ e ∈ S.table i, S.Matches e p = true → Good S p
  | _ => True

instance (s : State ι) (ev : Event ι) : Decidable (Ok S s ev) :=
  match ev with
  | .publish i p =>
    inferInstanceAs (Decidable (∀ e ∈ S.table i, S.Matches e p = true → Good S p))
  | .transfer _ _ => inferInstanceAs (Decidable True)
  | .accept _ _ => inferInstanceAs (Decidable True)
  | .receive _ _ => inferInstanceAs (Decidable True)

def expected (s : State ι) (i : ι) (e : Entry) : List Delivery :=
  ((s.published i).filter (S.Matches e)).map Publication.delivery

def received (s : State ι) (i : ι) (e : Entry) (j : ℕ) : List Delivery :=
  ((s.wires (i, e)).calls.filter (·.1 = j)).map (·.2)

def unread (s : State ι) (i : ι) (e : Entry) : Bytes := (s.wires (i, e)).source.stream

def unsent (s : State ι) (i : ι) (e : Entry) : Bytes :=
  ((s.todo i).filter (·.1 = e)).flatMap (·.2)

end

section Streams

variable [Package] {S : System ι} {p : Publication}

omit [DecidableEq ι] in
theorem bytes_eq (h : (S.header p).length < 2147483648) :
    S.bytes p = frame .normal (S.header p) ++ frame .normal p.payload := by
  have hp : p.payload.length < 2147483648 := Nat.lt_of_le_of_lt p.size (by decide)
  obtain ⟨n, _, hwritten, hall⟩ :=
    @sendPair_writes .normal (fun _ => some 0) _ _ h hp ⟨[], 0⟩
  rw [hall.mp (sendPair_accepted (fun _ => rfl) h hp _), List.take_length] at hwritten
  exact hwritten

omit [DecidableEq ι] in
theorem Good.bytes (h : Good S p) :
    S.bytes p = frame .normal (S.header p) ++ frame .normal p.payload :=
  bytes_eq (Nat.lt_of_le_of_lt h.fits (by decide))

/-- The header is read back as the message, since there is no NUL in its texts. -/
theorem unpack_msg (p : Publication) : unpackMsgInfo (packMsgInfo p.msg false) = p.msg := by
  have hc : cBytes p.correlation = p.correlation := by
    rw [cBytes, List.takeWhile_eq_self_iff]
    intro b hb
    simpa using ne_of_mem_of_not_mem hb p.correlationFree
  rw [unpack_request]
  simp only [Publication.msg, cStr_of_nulFree p.topicFree, cStr_of_nulFree p.replyTopicFree, hc]

omit [Package] in
/-- Where more bytes would make a frame, the bytes that a read does not wait for are one. -/
theorem wholeFrame_of_ready {b z : Bytes} {x : Option Bytes × Bytes} (h4 : 4 ≤ b.length)
    (hc : ¬BodyCut b) (h : wholeFrame .normal (b ++ z) = some x) :
    ∃ y, wholeFrame .normal b = some y := by
  rw [wholeFrame, if_pos (by rw [List.length_append]; omega), List.take_append_of_le_length h4,
    List.drop_append_of_le_length h4] at h
  rw [wholeFrame, if_pos h4]
  obtain ⟨d, rest⟩ := x
  rcases wholeBody_eq_some h with ⟨hi, _⟩ | ⟨_, hv, _⟩
  · rw [hi]
    exact ⟨_, wholeBody_zero _⟩
  · have hle : (int32OfBytes (b.take 4)).toNat ≤ (b.drop 4).length := by
      rw [List.length_drop]
      by_contra hlt
      exact hc ⟨h4, hv, by omega⟩
    exact ⟨_, wholeBody_valid hv hle⟩

omit [Package] in
/-- What is readable of a stream that begins with a frame begins with it too. -/
theorem wholeFrame_readable {b z m rest : Bytes} (hm : m.length ≤ payloadMax) (h4 : 4 ≤ b.length)
    (hc : ¬BodyCut b) (h : b ++ z = frame .normal m ++ rest) :
    ∃ r, wholeFrame .normal b = some (contents m, r) ∧ r ++ z = rest := by
  have hw : wholeFrame .normal (b ++ z) = some (contents m, rest) := by
    rw [h]
    exact wholeFrame_frame (show Sendable .normal m from hm) rest
  obtain ⟨⟨d, r⟩, hy⟩ := wholeFrame_of_ready h4 hc hw
  obtain ⟨rfl, hr⟩ := Prod.mk.inj (Option.some.inj ((wholeFrame_append hy z).symm.trans hw))
  exact ⟨r, hy, hr⟩

end Streams

section Calls

theorem invoke_append (k : ℕ) (ds es : List Delivery) :
    invoke k (ds ++ es) = invoke k ds ++ invoke k es := List.flatMap_append

/-- Every callback of the list is called once for each delivery, in the same order. -/
theorem invoke_filter (k j : ℕ) (ds : List Delivery) :
    ((invoke k ds).filter (·.1 = j)).map (·.2) = if j < k then ds else [] := by
  induction ds with
  | nil => simp [invoke]
  | cons d ds ih =>
    have hone : (((List.range k).map (·, d)).filter (·.1 = j)).map (·.2) =
        if j < k then [d] else [] := by
      rw [List.filter_map, List.map_map]
      have hfilter : (List.range k).filter ((fun x : ℕ × Delivery => decide (x.1 = j)) ∘ (·, d)) =
          if j < k then [j] else [] := by
        have hp : ((fun x : ℕ × Delivery => decide (x.1 = j)) ∘ (·, d)) = (· == j) := by
          funext n
          exact (beq_eq_decide n j).symm
        rw [hp, List.filter_beq, List.count_range]
        split <;> rfl
      rw [hfilter]
      split <;> rfl
    rw [show invoke k (d :: ds) = (List.range k).map (·, d) ++ invoke k ds from rfl,
      List.filter_append, List.map_append, hone, ih]
    split <;> rfl

end Calls

def Accounted [Package] (S : System ι) (s : State ι) (i : ι) (e : Entry) : Prop :=
  ∃ done still, (s.published i).filter (S.Matches e) = done ++ still ∧
    (s.wires (i, e)).calls = invoke (S.callbacks e) (done.map Publication.delivery) ∧
    unread s i e ++ unsent s i e = still.flatMap S.bytes

structure Invariant [Package] (S : System ι) (s : State ι) : Prop where
  good : ∀ i, ∀ p ∈ s.published i, ∀ e ∈ S.table i, S.Matches e p = true → Good S p
  todo : ∀ i, ∀ x ∈ s.todo i, x.1 ∈ S.table i
  accounted : ∀ i, ∀ e ∈ S.table i, Accounted S s i e
  absent : ∀ i e, e ∉ S.table i → s.wires (i, e) = ⟨.unopened, ⟨[], 0⟩, []⟩
  opened : ∀ i e, (s.wires (i, e)).stage ≠ .removed ∧
    (unread s i e ≠ [] → (s.wires (i, e)).stage ≠ .unopened)

section Runs

variable [Package] {S : System ι} {s t : State ι}

omit [DecidableEq ι] in
theorem invariant_initial (S : System ι) :
    Invariant S ⟨fun _ => [], fun _ => [], fun _ => ⟨.unopened, ⟨[], 0⟩, []⟩⟩ where
  good := by simp
  todo := by simp
  accounted _ _ _ := ⟨[], [], rfl, rfl, rfl⟩
  absent _ _ _ := rfl
  opened _ _ := ⟨nofun, fun h => absurd rfl h⟩

omit [DecidableEq ι] in
/-- The matching entries of a table are all different. -/
theorem unsent_new (S : System ι) (i : ι) (p : Publication) {e : Entry} (he : e ∈ S.table i) :
    ((((S.table i).filter (S.Matches · p)).map (·, S.bytes p)).filter (·.1 = e)).flatMap (·.2) =
      if S.Matches e p then S.bytes p else [] := by
  have hp : ((fun x : Entry × Bytes => decide (x.1 = e)) ∘ (·, S.bytes p)) = (· == e) := by
    funext x
    exact (beq_eq_decide x e).symm
  rw [List.filter_map, hp, List.filter_beq]
  by_cases hm : S.Matches e p = true
  · have hcount : ((S.table i).filter (S.Matches · p)).count e = 1 :=
      List.count_eq_one_of_mem ((S.table_nodup i).filter _) (List.mem_filter.mpr ⟨he, hm⟩)
    simp [hcount, hm]
  · have hcount : ((S.table i).filter (S.Matches · p)).count e = 0 :=
      List.count_eq_zero_of_not_mem fun h => hm (List.mem_filter.mp h).2
    simp [hcount, hm]

section Publish

variable (S : System ι) (s : State ι) (i : ι) (p : Publication)

theorem publish_published : (publish S s i p).published i = s.published i ++ [p] :=
  Function.update_self ..

theorem publish_todo : (publish S s i p).todo i =
    ((S.table i).filter (S.Matches · p)).map (·, S.bytes p) :=
  Function.update_self ..

theorem publish_published_of_ne {i k : ι} (h : k ≠ i) :
    (publish S s i p).published k = s.published k := Function.update_of_ne h ..

theorem publish_todo_of_ne {i k : ι} (h : k ≠ i) : (publish S s i p).todo k = s.todo k :=
  Function.update_of_ne h ..

end Publish

theorem Accounted.publish {i : ι} {e : Entry} (h : Accounted S s i e) (he : e ∈ S.table i)
    (hidle : s.todo i = []) (p : Publication) : Accounted S (publish S s i p) i e := by
  obtain ⟨done, still, hpub, hcalls, hbytes⟩ := h
  rw [unsent, hidle, List.filter_nil, List.flatMap_nil, List.append_nil] at hbytes
  refine ⟨done, still ++ [p].filter (S.Matches e), ?_, hcalls, ?_⟩
  · rw [publish_published, List.filter_append, hpub, List.append_assoc]
  · rw [unsent, publish_todo, unsent_new S i p he, List.flatMap_append, ← hbytes]
    by_cases hm : S.Matches e p = true
    · simp [hm, unread, TcpDelivery.publish]
    · simp [hm, unread, TcpDelivery.publish]

theorem Invariant.publish (h : Invariant S s) {i : ι} {p : Publication} (hidle : s.todo i = [])
    (hok : ∀ e ∈ S.table i, S.Matches e p = true → Good S p) :
    Invariant S (publish S s i p) where
  good k q hq e he hm := by
    by_cases hk : k = i
    · subst hk
      rw [publish_published, List.mem_append, List.mem_singleton] at hq
      rcases hq with hq | rfl
      · exact h.good k q hq e he hm
      · exact hok e he hm
    · rw [publish_published_of_ne S s p hk] at hq
      exact h.good k q hq e he hm
  todo k x hx := by
    by_cases hk : k = i
    · subst hk
      rw [publish_todo, List.mem_map] at hx
      obtain ⟨e, he, rfl⟩ := hx
      exact (List.mem_filter.mp he).1
    · rw [publish_todo_of_ne S s p hk] at hx
      exact h.todo k x hx
  accounted k e he := by
    by_cases hk : k = i
    · subst hk
      exact (h.accounted k e he).publish he hidle p
    · obtain ⟨done, still, hpub, hcalls, hbytes⟩ := h.accounted k e he
      refine ⟨done, still, ?_, hcalls, ?_⟩
      · rw [publish_published_of_ne S s p hk, hpub]
      · rw [← hbytes, unsent, unsent, publish_todo_of_ne S s p hk]
        rfl
  absent := h.absent
  opened := h.opened

structure Moves (s t : State ι) : Prop where
  published : t.published = s.published
  todo : ∀ i, ∀ x ∈ t.todo i, ∃ y ∈ s.todo i, y.1 = x.1
  calls : ∀ w, (t.wires w).calls = (s.wires w).calls
  bytes : ∀ i e, unread t i e ++ unsent t i e = unread s i e ++ unsent s i e
  absent : ∀ i e, (∀ x ∈ s.todo i, x.1 ≠ e) → (s.wires (i, e)).stage = .unopened →
    t.wires (i, e) = s.wires (i, e)
  opened : ∀ i e, ((t.wires (i, e)).stage = .removed → (s.wires (i, e)).stage = .removed) ∧
    ((t.wires (i, e)).stage = .unopened → t.wires (i, e) = s.wires (i, e))

omit [DecidableEq ι] in
theorem Invariant.moves (h : Invariant S s) (hm : Moves s t) : Invariant S t where
  good i p hp := h.good i p (by rwa [hm.published] at hp)
  todo i x hx := by
    obtain ⟨y, hy, he⟩ := hm.todo i x hx
    rw [← he]
    exact h.todo i y hy
  accounted i e he := by
    obtain ⟨done, still, hpub, hcalls, hbytes⟩ := h.accounted i e he
    exact ⟨done, still, by rw [hm.published, hpub], by rw [hm.calls, hcalls],
      by rw [hm.bytes, hbytes]⟩
  absent i e he := by
    have hs := h.absent i e he
    rw [← hs]
    refine hm.absent i e (fun x hx hxe => he ?_) (by rw [hs])
    rw [← hxe]
    exact h.todo i x hx
  opened i e := by
    obtain ⟨h1, h2⟩ := h.opened i e
    obtain ⟨k1, k2⟩ := hm.opened i e
    refine ⟨fun hr => h1 (k1 hr), fun hne hu => ?_⟩
    have hsame := k2 hu
    rw [unread, hsame] at hne
    exact h2 hne (by rw [← hsame]; exact hu)

omit [Package] in
theorem accept_moves {i : ι} {e : Entry} (hp : (s.wires (i, e)).stage = .pending) :
    Moves s (accept s i e) := by
  have hw : ∀ w, ((accept s i e).wires w).calls = (s.wires w).calls ∧
      ((accept s i e).wires w).source = (s.wires w).source := by
    intro w
    by_cases hwe : w = (i, e)
    · subst hwe
      simp [accept]
    · simp [accept, Function.update_of_ne hwe]
  refine ⟨rfl, fun _ x hx => ⟨x, hx, rfl⟩, fun w => (hw w).1, fun k f => ?_, fun k f _ hs => ?_,
    fun k f => ?_⟩
  · simp only [unread, unsent, (hw (k, f)).2]
    rfl
  · by_cases hkf : (k, f) = (i, e)
    · rw [hkf, hp] at hs
      cases hs
    · exact Function.update_of_ne hkf ..
  · by_cases hkf : (k, f) = (i, e)
    · simp [accept, hkf]
    · simp only [accept, Function.update_of_ne hkf]
      exact ⟨id, fun _ => trivial⟩

omit [Package] in
theorem transfer_cases {i : ι} {n : ℕ} (h : transfer s i n = some t) :
    ∃ e b rest, s.todo i = (e, b) :: rest ∧
      t = { s with
        todo := Function.update s.todo i
          (if b.drop (n + 1) = [] then rest else (e, b.drop (n + 1)) :: rest)
        wires := Function.update s.wires (i, e) { s.wires (i, e) with
          stage := if (s.wires (i, e)).stage = .unopened then .pending
            else (s.wires (i, e)).stage
          source := ⟨(s.wires (i, e)).source.stream ++ b.take (n + 1),
            (s.wires (i, e)).source.calls⟩ } } := by
  unfold transfer at h
  split at h
  · cases h
  · next e b rest htodo => exact ⟨e, b, rest, htodo, (Option.some.inj h).symm⟩

omit [Package] in
/-- What is left of the first job and the jobs behind it, seen from one entry. -/
theorem filter_head (e f : Entry) (b : Bytes) (rest : List (Entry × Bytes)) :
    ((if b = [] then rest else (e, b) :: rest).filter (·.1 = f)).flatMap (·.2) =
      (if e = f then b else []) ++ (rest.filter (·.1 = f)).flatMap (·.2) := by
  by_cases hb : b = []
  · simp [hb]
  · by_cases hef : e = f
    · simp [hb, hef]
    · simp [hb, hef]

omit [Package] in
theorem transfer_bytes {i : ι} {n : ℕ} (h : transfer s i n = some t) (k : ι) (f : Entry) :
    unread t k f ++ unsent t k f = unread s k f ++ unsent s k f := by
  obtain ⟨e, b, rest, htodo, rfl⟩ := transfer_cases h
  by_cases hk : k = i
  · subst hk
    simp only [unread, unsent, Function.update_self, filter_head, htodo]
    by_cases hef : e = f
    · subst hef
      simp only [Function.update_self, decide_true, List.filter_cons_of_pos, if_true,
        List.flatMap_cons, List.append_assoc]
      rw [← List.append_assoc (b.take _), List.take_append_drop]
    · have hne : ((k, f) : ι × Entry) ≠ (k, e) := fun h => hef (congrArg Prod.snd h).symm
      simp [Function.update_of_ne hne, hef]
  · have hne : ((k, f) : ι × Entry) ≠ (i, e) := fun h => hk (congrArg Prod.fst h)
    simp only [unread, unsent, Function.update_of_ne hne, Function.update_of_ne hk]

omit [Package] in
theorem transfer_moves {i : ι} {n : ℕ} (h : transfer s i n = some t) : Moves s t := by
  have hbytes := transfer_bytes h
  obtain ⟨e, b, rest, htodo, rfl⟩ := transfer_cases h
  refine ⟨rfl, fun k x hx => ?_, fun w => ?_, hbytes, fun k f hf hs => ?_, fun k f => ?_⟩
  · by_cases hk : k = i
    · subst hk
      simp only [Function.update_self] at hx
      rw [htodo]
      split at hx
      · exact ⟨x, List.mem_cons_of_mem _ hx, rfl⟩
      · rcases List.mem_cons.mp hx with rfl | hx
        · exact ⟨_, List.mem_cons_self, rfl⟩
        · exact ⟨x, List.mem_cons_of_mem _ hx, rfl⟩
    · simp only [Function.update_of_ne hk] at hx
      exact ⟨x, hx, rfl⟩
  · by_cases hw : w = (i, e)
    · subst hw
      simp
    · simp only [Function.update_of_ne hw]
  · by_cases hkf : (k, f) = (i, e)
    · obtain ⟨rfl, rfl⟩ := Prod.mk.inj hkf
      rw [htodo] at hf
      exact absurd rfl (hf _ List.mem_cons_self)
    · exact Function.update_of_ne hkf ..
  · by_cases hkf : (k, f) = (i, e)
    · rw [hkf]
      simp only [Function.update_self]
      constructor
      · intro hr
        split at hr
        · cases hr
        · exact hr
      · intro hu
        split at hu
        · cases hu
        · contradiction
    · simp only [Function.update_of_ne hkf]
      exact ⟨id, fun _ => trivial⟩

omit [DecidableEq ι] in
theorem Good.msgOf {p : Publication} (h : Good S p) :
    TcpReceive.msgOf S.root (contents (S.header p)) = p.msg := by
  rw [contents, if_neg h.nonempty, TcpReceive.msgOf, h.faithful, unpack_msg]

omit [DecidableEq ι] [Package] in
theorem topic_ne_empty {e : Entry} {p : Publication} (h : S.Matches e p = true) :
    p.topic ≠ "" := by
  intro ht
  rw [System.Matches, ht, S.emptyTopic] at h
  cases h

omit [DecidableEq ι] in
/-- The turn of a connection whose stream begins with a publication, as far as it can be
read without waiting. -/
theorem receiveData_publication {p : Publication} (hg : Good S p) (ht : p.topic ≠ "")
    (r : Receiving) {u : Source UInt8} {z rest : Bytes} (hr : Ready S.root u.stream)
    (hs : u.stream ++ z = S.bytes p ++ rest) :
    ∃ reads v, receiveData (recvSizedData .normal r) S.root u = ⟨true, [p.delivery], reads, v⟩ ∧
      v.stream ++ z = rest := by
  rw [hg.bytes, List.append_assoc] at hs
  obtain ⟨b, hb, hbz⟩ := wholeFrame_readable hg.fits hr.1.1 hr.1.2 hs
  have htopic : (msgOf S.root (contents (S.header p))).topic ≠ "" := by
    rw [hg.msgOf]
    exact ht
  obtain ⟨h4, hc⟩ := hr.2 _ hb htopic
  obtain ⟨b', hb', hbz'⟩ := wholeFrame_readable p.size h4 hc hbz
  have hturn := receiveData_pair (r := r) hb htopic hb'
  rw [hg.msgOf] at hturn
  refine ⟨_, _, hturn, ?_⟩
  rw [← (recvSizedData_whole r hb).2] at hb'
  rw [(recvSizedData_whole r hb').2, hbz']

omit [DecidableEq ι] in
/-- The next publication on a connection that can be read. -/
theorem Invariant.next (h : Invariant S s) {i : ι} {e : Entry} (he : e ∈ S.table i)
    (hr : Ready S.root (unread s i e)) :
    ∃ done p still, (s.published i).filter (S.Matches e) = done ++ p :: still ∧
      (s.wires (i, e)).calls = invoke (S.callbacks e) (done.map Publication.delivery) ∧
      ∃ reads v, receiveData (recvSizedData .normal (S.receiving (i, e))) S.root
          (s.wires (i, e)).source = ⟨true, [p.delivery], reads, v⟩ ∧
        v.stream ++ unsent s i e = still.flatMap S.bytes := by
  obtain ⟨done, still, hpub, hcalls, hbytes⟩ := h.accounted i e he
  cases still with
  | nil =>
    have hnil : unread s i e = [] := (List.append_eq_nil_iff.mp hbytes).1
    have hlen := hr.1.1
    rw [hnil] at hlen
    simp at hlen
  | cons p still =>
    have hp : p ∈ (s.published i).filter (S.Matches e) := by
      rw [hpub]
      exact List.mem_append_right _ List.mem_cons_self
    obtain ⟨hmem, hm⟩ := List.mem_filter.mp hp
    rw [List.flatMap_cons] at hbytes
    exact ⟨done, p, still, hpub, hcalls, receiveData_publication (h.good i p hmem e he hm)
      (topic_ne_empty hm) _ hr hbytes⟩

omit [DecidableEq ι] in
theorem mem_table_of_watched (h : Invariant S s) {i : ι} {e : Entry}
    (hw : (s.wires (i, e)).stage = .watched) : e ∈ S.table i := by
  by_contra he
  rw [h.absent i e he] at hw
  cases hw

theorem Invariant.receive (h : Invariant S s) {i : ι} {e : Entry}
    (hw : (s.wires (i, e)).stage = .watched) (hr : Ready S.root (unread s i e)) :
    Invariant S (receive S s i e) := by
  have he := mem_table_of_watched h hw
  obtain ⟨done, p, still, hpub, hcalls, reads, v, hturn, hbytes⟩ := h.next he hr
  have hwire : (TcpDelivery.receive S s i e).wires = Function.update s.wires (i, e)
      ⟨.watched, v, invoke (S.callbacks e) ((done ++ [p]).map Publication.delivery)⟩ := by
    rw [TcpDelivery.receive, hturn, hcalls, ← invoke_append, List.map_append]
    rfl
  refine ⟨h.good, h.todo, fun k f hf => ?_, fun k f hf => ?_, fun k f => ?_⟩
  · by_cases hkf : (k, f) = (i, e)
    · obtain ⟨rfl, rfl⟩ := Prod.mk.inj hkf
      refine ⟨done ++ [p], still, ?_, ?_, ?_⟩
      · rw [List.append_assoc]
        exact hpub
      · rw [hwire, Function.update_self]
      · rw [unread, hwire, Function.update_self]
        exact hbytes
    · obtain ⟨done', still', hpub', hcalls', hbytes'⟩ := h.accounted k f hf
      refine ⟨done', still', hpub', ?_, ?_⟩
      · rw [hwire, Function.update_of_ne hkf, hcalls']
      · rw [unread, hwire, Function.update_of_ne hkf]
        exact hbytes'
  · have hkf : (k, f) ≠ (i, e) := by
      intro hkf
      obtain ⟨rfl, rfl⟩ := Prod.mk.inj hkf
      exact hf he
    rw [hwire, Function.update_of_ne hkf]
    exact h.absent k f hf
  · rw [unread, hwire]
    by_cases hkf : (k, f) = (i, e)
    · rw [hkf, Function.update_self]
      exact ⟨nofun, fun _ => nofun⟩
    · rw [Function.update_of_ne hkf]
      exact h.opened k f

theorem invariant_step (h : Invariant S s) {ev : Event ι} (hok : Ok S s ev)
    (hs : step S s ev = some t) : Invariant S t := by
  cases ev with
  | publish i p =>
    rw [step] at hs
    split at hs
    · obtain rfl := Option.some.inj hs
      exact h.publish ‹_› hok
    · cases hs
  | transfer i n => exact h.moves (transfer_moves hs)
  | accept i e =>
    rw [step] at hs
    split at hs
    · obtain rfl := Option.some.inj hs
      exact h.moves (accept_moves ‹_›)
    · cases hs
  | receive i e =>
    rw [step] at hs
    split at hs
    · next hr =>
      obtain rfl := Option.some.inj hs
      exact h.receive hr.1 hr.2
    · cases hs

theorem invariant_reaches (h : (machine S).Reaches (Ok S) s) : Invariant S s :=
  h.invariant (invariant_initial S) fun _ _ _ _ hi hok hs => invariant_step hi hok hs

omit [Package] in
/-- A transfer may take everything that is left for an entry. -/
theorem transfer_all {i : ι} {e : Entry} {b : Bytes} {rest : List (Entry × Bytes)}
    (h : s.todo i = (e, b) :: rest) :
    ∃ t, transfer s i b.length = some t ∧ t.todo i = rest ∧
      t.wires (i, e) = { s.wires (i, e) with
        stage := if (s.wires (i, e)).stage = .unopened then .pending else (s.wires (i, e)).stage
        source := ⟨(s.wires (i, e)).source.stream ++ b, (s.wires (i, e)).source.calls⟩ } := by
  have hdrop : b.drop (b.length + 1) = [] := List.drop_eq_nil_of_le (Nat.le_succ _)
  have htake : b.take (b.length + 1) = b := List.take_of_length_le (Nat.le_succ _)
  simp only [transfer, h, hdrop, htake, if_true]
  exact ⟨_, rfl, Function.update_self .., Function.update_self ..⟩

def Drains (S : System ι) (s t : State ι) : Prop :=
  t.published = s.published ∧ ∃ es, (machine S).exec s es = some t

theorem Drains.refl (s : State ι) : Drains S s s := ⟨rfl, [], rfl⟩

theorem Drains.cons {u : State ι} {ev : Event ι} (hs : step S s ev = some t)
    (hp : t.published = s.published) (h : Drains S t u) : Drains S s u := by
  obtain ⟨hpub, es, hes⟩ := h
  exact ⟨hpub.trans hp, ev :: es, Option.bind_eq_some_iff.mpr ⟨t, hs, hes⟩⟩

theorem Drains.trans {u : State ι} (h : Drains S s t) (k : Drains S t u) : Drains S s u := by
  obtain ⟨hp, es, hes⟩ := h
  obtain ⟨kp, fs, hfs⟩ := k
  exact ⟨kp.trans hp, es ++ fs, Machine.exec_append hes hfs⟩

theorem exists_drained_todo (h : Invariant S s) (i : ι) :
    ∃ t, Drains S s t ∧ Invariant S t ∧ t.todo i = [] := by
  induction hn : (s.todo i).length generalizing s with
  | zero => exact ⟨s, .refl s, h, List.length_eq_zero_iff.mp hn⟩
  | succ n ih =>
    obtain ⟨⟨e, b⟩, rest, htodo⟩ := List.exists_cons_of_length_eq_add_one hn
    obtain ⟨t, ht, hrest, _⟩ := transfer_all htodo
    have hm := transfer_moves ht
    have hlen : (t.todo i).length = n := by
      rw [hrest]
      rw [htodo, List.length_cons] at hn
      omega
    obtain ⟨u, hu, hinv, hempty⟩ := ih (h.moves hm) hlen
    have hstep : step S s (.transfer i b.length) = some t := ht
    exact ⟨u, hu.cons hstep hm.published, hinv, hempty⟩

omit [DecidableEq ι] in
theorem ready_of_bytes {p : Publication} (hg : Good S p) {b rest : Bytes}
    (hb : b = S.bytes p ++ rest) : Ready S.root b := by
  rw [hg.bytes, List.append_assoc] at hb
  have h1 : wholeFrame .normal b =
      some (contents (S.header p), frame .normal p.payload ++ rest) := by
    rw [hb]
    exact wholeFrame_frame (show Sendable .normal _ from hg.fits) _
  have h2 : wholeFrame .normal (frame .normal p.payload ++ rest) =
      some (contents p.payload, rest) :=
    wholeFrame_frame (show Sendable .normal _ from p.size) _
  have hfour : ∀ {b : Bytes} {x : Option Bytes × Bytes}, wholeFrame .normal b = some x →
      4 ≤ b.length ∧ ¬BodyCut b := by
    intro b x hx
    refine ⟨?_, clean_of_whole (r := zeroMemory) (s := ⟨b, 0⟩) hx⟩
    by_contra h4
    rw [wholeFrame, if_neg h4] at hx
    cases hx
  refine ⟨hfour h1, fun f hf _ => ?_⟩
  obtain rfl := Option.some.inj (h1.symm.trans hf)
  exact hfour h2

omit [DecidableEq ι] [Package] in
theorem unsent_of_idle {i : ι} (h : s.todo i = []) (e : Entry) : unsent s i e = [] := by
  rw [unsent, h]
  rfl

/-- Once everything is sent, serving the connection hands out all that was published. -/
theorem exists_served (h : Invariant S s) {i : ι} {e : Entry} (hidle : s.todo i = [])
    (hw : (s.wires (i, e)).stage = .watched) :
    ∃ t, Drains S s t ∧ (t.wires (i, e)).calls = invoke (S.callbacks e) (expected S s i e) := by
  have he := mem_table_of_watched h hw
  obtain ⟨done, still, hpub, hcalls, hbytes⟩ := h.accounted i e he
  rw [unsent_of_idle hidle, List.append_nil] at hbytes
  induction still generalizing s done with
  | nil =>
    refine ⟨s, .refl s, ?_⟩
    rw [hcalls, expected, hpub, List.append_nil]
  | cons p still ih =>
    have hp : p ∈ (s.published i).filter (S.Matches e) := by
      rw [hpub]
      exact List.mem_append_right _ List.mem_cons_self
    obtain ⟨hmem, hm⟩ := List.mem_filter.mp hp
    have hgood := h.good i p hmem e he hm
    rw [List.flatMap_cons] at hbytes
    have hready : Ready S.root (unread s i e) := ready_of_bytes hgood hbytes
    obtain ⟨reads, v, hturn, hv⟩ := receiveData_publication hgood (topic_ne_empty hm)
      (S.receiving (i, e)) (z := []) hready (by rw [List.append_nil]; exact hbytes)
    have hwire : (receive S s i e).wires (i, e) = ⟨.watched, v,
        invoke (S.callbacks e) ((done ++ [p]).map Publication.delivery)⟩ := by
      rw [receive, hturn, hcalls, ← invoke_append, List.map_append]
      exact Function.update_self ..
    have hstep : step S s (.receive i e) = some (receive S s i e) := if_pos ⟨hw, hready⟩
    obtain ⟨t, ht, hall⟩ := ih (h.receive hw hready) hidle (by rw [hwire]) (done ++ [p])
      (by rw [List.append_assoc]; exact hpub) (by rw [hwire])
      (by rw [unread, hwire, ← hv, List.append_nil])
    exact ⟨t, ht.cons hstep rfl, hall⟩

theorem exists_delivered (h : Invariant S s) {i : ι} {e : Entry} (he : e ∈ S.table i) :
    ∃ t, Drains S s t ∧ (t.wires (i, e)).calls = invoke (S.callbacks e) (expected S s i e) := by
  obtain ⟨u, hu, hinv, hidle⟩ := exists_drained_todo h i
  have hexp : expected S u i e = expected S s i e := by rw [expected, hu.1, expected]
  rw [← hexp]
  obtain ⟨hremoved, hopened⟩ := hinv.opened i e
  cases hstage : (u.wires (i, e)).stage with
  | removed => exact absurd hstage hremoved
  | watched =>
    obtain ⟨t, ht, hall⟩ := exists_served hinv hidle hstage
    exact ⟨t, hu.trans ht, hall⟩
  | pending =>
    have hstep : step S u (.accept i e) = some (accept u i e) := if_pos hstage
    have hm := accept_moves hstage
    obtain ⟨t, ht, hall⟩ := exists_served (hinv.moves hm) (e := e) hidle (by simp [accept])
    exact ⟨t, hu.trans (ht.cons hstep rfl), hall⟩
  | unopened =>
    obtain ⟨done, still, hpub, hcalls, hbytes⟩ := hinv.accounted i e he
    have hnil : unread u i e = [] := by
      by_contra hne
      exact hopened hne hstage
    rw [unsent_of_idle hidle, hnil] at hbytes
    have hstill : still = [] := by
      cases still with
      | nil => rfl
      | cons p still =>
        have hp : p ∈ (u.published i).filter (S.Matches e) := by
          rw [hpub]
          exact List.mem_append_right _ List.mem_cons_self
        obtain ⟨hmem, hm⟩ := List.mem_filter.mp hp
        rw [List.flatMap_cons, (hinv.good i p hmem e he hm).bytes] at hbytes
        simp [frame, normalFrame, int32Bytes] at hbytes
    refine ⟨u, hu, ?_⟩
    rw [hcalls, expected, hpub, hstill, List.append_nil]

/-- While every published header can be read back and is not too long, every callback has got
exactly the first of the messages that match its filter, in the order in which the publisher
published them, and the others are on their way; and from there a run leads to where it has
got them all. -/
theorem every_callback_gets_every_matching_message (h : (machine S).Reaches (Ok S) s) :
    (∀ i, ∀ e ∈ S.table i, ∃ done still, (s.published i).filter (S.Matches e) = done ++ still ∧
      unread s i e ++ unsent s i e = still.flatMap S.bytes ∧
      ∀ j < S.callbacks e, received s i e j = done.map Publication.delivery) ∧
    (∀ i e j, e ∉ S.table i ∨ S.callbacks e ≤ j → received s i e j = []) ∧
    ∀ i, ∀ e ∈ S.table i, ∃ t, Drains S s t ∧
      ∀ j < S.callbacks e, received t i e j = expected S s i e := by
  have hinv := invariant_reaches h
  refine ⟨fun i e he => ?_, fun i e j hj => ?_, fun i e he => ?_⟩
  · obtain ⟨done, still, hpub, hcalls, hbytes⟩ := hinv.accounted i e he
    refine ⟨done, still, hpub, hbytes, fun j hj => ?_⟩
    rw [received, hcalls, invoke_filter, if_pos hj]
  · by_cases he : e ∈ S.table i
    · obtain ⟨done, still, _, hcalls, _⟩ := hinv.accounted i e he
      have hle := hj.resolve_left fun hn => hn he
      rw [received, hcalls, invoke_filter, if_neg (by omega)]
    · rw [received, hinv.absent i e he]
      rfl
  · obtain ⟨t, ht, hcalls⟩ := exists_delivered hinv he
    refine ⟨t, ht, fun j hj => ?_⟩
    rw [received, hcalls, invoke_filter, if_pos hj]

section TooLong

variable {p : Publication} {e : Entry} (S)

/-- A header that is too long is refused after its length, and all that follows it is left. -/
theorem receiveData_too_long (r : Receiving) (root : Bytes → List (String × Item))
    {u : Source UInt8} {header rest : Bytes} (hlong : messageMax < (header.length : ℤ))
    (hint : header.length < 2147483647) (hu : u.stream = frame .normal header ++ rest) :
    Ready root u.stream ∧ ∃ reads v,
      receiveData (recvSizedData .normal r) root u = ⟨true, [], reads, v⟩ ∧
      v.stream = u.stream.drop 4 := by
  have h0 : ¬header.length = 0 := by
    simp only [messageMax] at hlong
    omega
  rw [frame, normalFrame, if_neg h0, List.append_assoc] at hu
  have hn : int32OfBytes (u.stream.take 4) = header.length := by
    rw [hu, List.take_left' (int32Bytes_length _), ← List.append_nil (int32Bytes _),
      int32OfBytes_int32Bytes (by omega) (by simp only [int32Max]; omega)]
  have h4 : 4 ≤ u.stream.length := by
    rw [hu, List.length_append, int32Bytes_length]
    omega
  have hv : ¬ValidLength (int32OfBytes (u.stream.take 4)) := by
    rw [hn]
    exact fun hv => Int.not_lt.mpr hv.2 hlong
  have hi : (header.length : ℤ) ≠ int32Max := by
    simp only [int32Max]
    omega
  have hnone : wholeFrame .normal u.stream = none := by
    rw [wholeFrame, if_pos h4, wholeBody, if_neg (by rw [hn]; exact hi), if_neg fun h => hv h.1]
  have hrecv : recvSizedData .normal r u = ⟨-1, none, (recv r 4 u).2.2⟩ := by
    rw [recvSizedData, recvSizedDataNormal_length r h4, hn, recvBodyNormal, if_neg hi,
      if_pos hlong]
  refine ⟨⟨⟨h4, fun hc => hv hc.2.1⟩, fun f hf => ?_⟩,
    [.of u (recvSizedData .normal r u)], (recv r 4 u).2.2, ?_, (recv_bytes r 4 u).2⟩
  · cases hnone.symm.trans hf
  · rw [receiveData, hrecv]
    rfl

theorem exists_lost (i : ι) (ht : S.table i = [e]) (hm : S.Matches e p = true)
    (hlong : messageMax < ((S.header p).length : ℤ)) (hint : (S.header p).length < 2147483647) :
    ∃ s, (machine S).Reachable s ∧ s.published i = [p] ∧ s.todo i = [] ∧
      (∀ j, received s i e j = []) ∧ unread s i e = (S.bytes p).drop 4 := by
  have hbytes := bytes_eq (by omega : (S.header p).length < 2147483648)
  have h1 : (machine S).Reachable (publish S (machine S).initial i p) :=
    .step .initial (e := .publish i p) trivial rfl
  have htodo : (publish S (machine S).initial i p).todo i = [(e, S.bytes p)] := by
    rw [publish_todo, ht]
    simp [hm]
  obtain ⟨t, h2, htodo2, hwire2⟩ := transfer_all htodo
  have hwire : t.wires (i, e) = ⟨.pending, ⟨S.bytes p, 0⟩, []⟩ := hwire2
  have hpub : t.published i = [p] := by
    rw [(transfer_moves h2).published, publish_published]
    rfl
  have h3 : step S t (.accept i e) = some (accept t i e) := if_pos (by rw [hwire])
  have hwire3 : (accept t i e).wires (i, e) = ⟨.watched, ⟨S.bytes p, 0⟩, []⟩ := by
    simp [accept, hwire]
  obtain ⟨hready, reads, v, hturn, hv⟩ := receiveData_too_long (S.receiving (i, e)) S.root
    (u := ⟨S.bytes p, 0⟩) hlong hint hbytes
  have h4 : step S (accept t i e) (.receive i e) = some (receive S (accept t i e) i e) := by
    refine if_pos ?_
    rw [hwire3]
    exact ⟨rfl, hready⟩
  have hwire4 : (receive S (accept t i e) i e).wires (i, e) = ⟨.watched, v, []⟩ := by
    simp only [receive, hwire3, hturn]
    exact Function.update_self ..
  refine ⟨receive S (accept t i e) i e, ?_, hpub, htodo2, fun j => ?_, ?_⟩
  · have hr2 : (machine S).Reachable t :=
      .step h1 (e := .transfer i (S.bytes p).length) trivial h2
    exact .step (.step hr2 (e := .accept i e) trivial h3) (e := .receive i e) trivial h4
  · rw [received, hwire4]
    rfl
  · rw [unread, hwire4]
    exact hv

omit [DecidableEq ι] in
/-- Nothing is called for it, and what is left to be read is no publication any more. -/
theorem not_accounted_of_lost {s : State ι} {i : ι} (hpub : s.published i = [p])
    (hm : S.Matches e p = true) (htodo : s.todo i = []) (hk : 0 < S.callbacks e)
    (hrec : ∀ j, received s i e j = []) (hint : (S.header p).length < 2147483647)
    (hunread : unread s i e = (S.bytes p).drop 4) :
    ¬∃ done still, (s.published i).filter (S.Matches e) = done ++ still ∧
      unread s i e ++ unsent s i e = still.flatMap S.bytes ∧
      ∀ j < S.callbacks e, received s i e j = done.map Publication.delivery := by
  rintro ⟨done, still, hsplit, hbytes, hall⟩
  have hdone : done = [] := by
    have h0 := hall 0 hk
    rw [hrec 0] at h0
    exact List.map_eq_nil_iff.mp h0.symm
  rw [hpub, hdone, List.filter_cons_of_pos hm, List.filter_nil, List.nil_append] at hsplit
  rw [unsent_of_idle htodo, List.append_nil, hunread, ← hsplit, List.flatMap_cons,
    List.flatMap_nil, List.append_nil] at hbytes
  have hpos : 4 ≤ (S.bytes p).length := by
    rw [bytes_eq (by omega), frame, normalFrame]
    simp only [List.length_append, int32Bytes_length]
    omega
  have hlen := congrArg List.length hbytes
  rw [List.length_drop] at hlen
  omega

end TooLong

end Runs

local instance : Package := plain

def nonemptyMatch (sub topic : String) : Option Bool :=
  if topic = "" then none else some (sub == topic)

theorem nonemptyMatch_empty (filter : String) : compareTopic nonemptyMatch filter "" = false := by
  rw [compareTopic, cStr_empty]
  rfl

def request : Publication :=
  ⟨"a", "r", [65], [7], by decide, by decide, by decide, by decide⟩

def small : System Bool where
  table _ := [("a", "c")]
  table_nodup _ := List.nodup_singleton _
  callbacks _ := 2
  topicMatchesSub := nonemptyMatch
  emptyTopic := nonemptyMatch_empty
  pack _ := [1]
  root _ := packMsgInfo request.msg false
  receiving _ := zeroMemory

theorem both_callbacks_get_the_request :
    ∃ s, (machine small).Reaches (Ok small) s ∧ s.published true = [request] ∧
      received s true ("a", "c") 0 = [request.delivery] ∧
      received s true ("a", "c") 1 = [request.delivery] ∧
      ∃ t, Drains small s t ∧ received t false ("a", "c") 0 = [] := by
  obtain ⟨s, hr, hp⟩ := (machine small).exists_reaches (Ok small)
    [.publish true request, .transfer true 3, .accept true ("a", "c"), .transfer true 100,
      .receive true ("a", "c")]
    (fun s => s.published true = [request] ∧ s.published false = [] ∧
      received s true ("a", "c") 0 = [request.delivery] ∧
      received s true ("a", "c") 1 = [request.delivery]) (by decide +kernel)
  obtain ⟨hpub, hpub', h0, h1⟩ := of_decide_eq_true hp
  obtain ⟨t, ht, hall⟩ := (every_callback_gets_every_matching_message hr).2.2 false ("a", "c")
    List.mem_cons_self
  refine ⟨s, hr, hpub, h0, h1, t, ht, ?_⟩
  rw [hall 0 (by decide), expected, hpub']
  rfl

@[irreducible] def longCorrelation : Bytes := List.replicate payloadMax 65

theorem longCorrelation_length : longCorrelation.length = payloadMax := by
  rw [longCorrelation, List.length_replicate]

theorem longCorrelation_nulFree : 0 ∉ longCorrelation := by
  rw [longCorrelation, List.mem_replicate]
  rintro ⟨_, h⟩
  exact absurd h (by decide)

def longRequest : Publication :=
  ⟨"a", "", longCorrelation, [7], by decide, by decide, longCorrelation_nulFree, by decide⟩

def carrying : System Unit where
  table _ := [("a", "c")]
  table_nodup _ := List.nodup_singleton _
  callbacks _ := 1
  topicMatchesSub := nonemptyMatch
  emptyTopic := nonemptyMatch_empty
  pack map := 1 :: asOctets (lookup map "correlation") []
  root b := packMsgInfo { topic := "a", correlation := b.tail } false
  receiving _ := zeroMemory

theorem longRequest_header : carrying.header longRequest = 1 :: longCorrelation := by
  have h := congrArg AittMsg.correlation (unpack_msg longRequest)
  exact congrArg (List.cons 1) h

theorem long_correlation_is_not_delivered :
    carrying.root (carrying.header longRequest) = packMsgInfo longRequest.msg false ∧
    ∃ s, (machine carrying).Reachable s ∧ s.published () = [longRequest] ∧ s.todo () = [] ∧
      ¬∃ done still, (s.published ()).filter (carrying.Matches ("a", "c")) = done ++ still ∧
        unread s () ("a", "c") ++ unsent s () ("a", "c") = still.flatMap carrying.bytes ∧
        ∀ j < carrying.callbacks ("a", "c"),
          received s () ("a", "c") j = done.map Publication.delivery := by
  have hlen : (carrying.header longRequest).length = 268435456 := by
    rw [longRequest_header, List.length_cons, longCorrelation_length]
    rfl
  have hroot : carrying.root (carrying.header longRequest) = packMsgInfo longRequest.msg false := by
    rw [longRequest_header]
    rfl
  have hm : carrying.Matches ("a", "c") longRequest = true := by decide
  have hint : (carrying.header longRequest).length < 2147483647 := by
    rw [hlen]
    decide
  obtain ⟨s, hr, hpub, htodo, hrec, hunread⟩ := exists_lost carrying () rfl hm
    (by rw [hlen]; decide) hint
  exact ⟨hroot, s, hr, hpub, htodo,
    not_accounted_of_lost carrying hpub hm htodo Nat.one_pos hrec hint hunread⟩

end TcpDelivery
