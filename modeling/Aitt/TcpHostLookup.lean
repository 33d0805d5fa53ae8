import Aitt.TcpPublishTable

/-! The two tables of the TCP module under their two locks. Discovery messages change them in
several critical sections, one after another; `PublishFull` keeps the lock on the publish
table while it visits the entries and looks hosts up in the client table. -/
namespace TcpHostLookup

open AittTypes Flexbuffers TransitionRuns NestedMaps TcpPublishTable
open MosquittoMQ (compareTopic exactMatch)

inductive Callback where
  | idle
  | updating (clientId : String) (topics : List (Σ _ : String, Value))
  | leaving (clientId : String)
  deriving DecidableEq

/-- `agenda` is the entries that `PublishFull` has still to visit; the lock on the publish
table is held exactly while there is one. `advertised` has the host of the latest
advertisement of every client and is not read by the code. -/
structure State where
  publishTable : PublishMap := ∅
  clientTable : Map String String := ∅
  advertised : Map String String := ∅
  callback : Callback := .idle
  agenda : Option (List (String × String)) := none
  deriving DecidableEq

inductive Event where
  | message (clientId status : String) (payload : Payload)
  | advance
  | publishFull (topic : String)
  | visit (connected : Bool)

def hostOf (payload : Payload) : String := cStr (((payload.lookup "host").map asString).getD "")

def message (s : State) (clientId status : String) (payload : Payload) : State :=
  if status = willLeaveNetwork then
    { s with clientTable := s.clientTable.erase clientId, callback := .leaving clientId }
  else
    { s with
      clientTable := s.clientTable.insert clientId (hostOf payload)
      advertised := s.advertised.insert clientId (hostOf payload)
      callback := .updating clientId payload.entries }

def advance [Package] (secure : Bool) (s : State) : Option State :=
  match s.callback with
  | .idle => none
  | .leaving clientId =>
    if s.agenda.isSome then none
    else some { s with publishTable := eraseInner s.publishTable clientId, callback := .idle }
  | .updating _ [] => some { s with callback := .idle }
  | .updating clientId (⟨topic, value⟩ :: rest) =>
    if topic = "host" then some { s with callback := .updating clientId rest }
    else match readConnectInfo secure (asVector value) with
      | none => some { s with callback := .idle }
      | some info =>
        if s.agenda.isSome then none
        else some { s with
          publishTable := updatePublishTable s.publishTable topic clientId info
          callback := .updating clientId rest }

/-- One turn of the inner loop. An entry without connection is given one, with the host from
the client table; where that fails, an exception leaves `PublishFull`. -/
def visit (s : State) (connected : Bool) : Option State :=
  match s.agenda with
  | none => none
  | some [] => some { s with agenda := none }
  | some ((topic, clientId) :: rest) =>
    match get s.publishTable topic clientId with
    | some ⟨info, none⟩ =>
      let host := (s.clientTable.lookup clientId).getD ""
      if connected then
        some { s with
          publishTable := put s.publishTable topic clientId ⟨info, some ⟨host, info⟩⟩
          agenda := some rest }
      else some { s with agenda := none }
    | _ => some { s with agenda := some rest }

section

variable (topicMatchesSub : String → String → Option Bool) (secure : Bool)

def matching (table : PublishMap) (topic : String) : List (String × String) :=
  ((triples table).filter fun p => compareTopic topicMatchesSub p.1 topic).map
    fun p => (p.1, p.2.1)

def step [Package] (s : State) : Event → Option State
  | .message clientId status payload =>
    if s.callback = .idle then some (message s clientId status payload) else none
  | .advance => advance secure s
  | .publishFull topic =>
    if s.agenda.isSome then none
    else some { s with agenda := some (matching topicMatchesSub s.publishTable topic) }
  | .visit connected => visit s connected

def machine [Package] : Machine State Event := ⟨{}, step topicMatchesSub secure⟩

end

def LooksUp (s : State) (clientId : String) : Prop :=
  ∃ topic rest info, s.agenda = some ((topic, clientId) :: rest) ∧
    get s.publishTable topic clientId = some ⟨info, none⟩

def HasHost (s : State) (clientId : String) : Prop :=
  ∃ host, s.clientTable.lookup clientId = some host ∧ s.advertised.lookup clientId = some host

structure Invariant (s : State) : Prop where
  hosts : ∀ topic c, (get s.publishTable topic c).isSome = true → s.callback ≠ .leaving c →
    HasHost s c
  updating : ∀ c topics, s.callback = .updating c topics → HasHost s c
  leaving : ∀ c, s.callback = .leaving c → s.clientTable.lookup c = none

variable {s t : State} {secure : Bool}

theorem invariant_initial : Invariant {} where
  hosts _ _ h := by cases h
  updating _ _ h := by cases h
  leaving _ h := by cases h

theorem invariant_message (h : Invariant s) (hc : s.callback = .idle) (clientId status : String)
    (payload : Payload) : Invariant (message s clientId status payload) := by
  have hhost : ∀ topic c, (get s.publishTable topic c).isSome = true → HasHost s c := by
    intro topic c hg
    exact h.hosts topic c hg (by rw [hc]; exact Callback.noConfusion)
  by_cases hs : status = willLeaveNetwork
  · rw [message, if_pos hs]
    refine ⟨fun topic c hg hne => ?_, nofun, fun c he => ?_⟩
    · have hcc : c ≠ clientId := by
        rintro rfl
        exact hne rfl
      obtain ⟨host, h1, h2⟩ := hhost topic c hg
      exact ⟨host, (AList.lookup_erase_ne hcc).trans h1, h2⟩
    · cases he
      exact AList.lookup_erase _ _
  · rw [message, if_neg hs]
    refine ⟨fun topic c hg _ => ?_, fun c _ he => ?_, nofun⟩
    · by_cases hcc : c = clientId
      · subst hcc
        exact ⟨hostOf payload, AList.lookup_insert _, AList.lookup_insert _⟩
      · obtain ⟨host, h1, h2⟩ := hhost topic c hg
        exact ⟨host, (AList.lookup_insert_ne hcc).trans h1, (AList.lookup_insert_ne hcc).trans h2⟩
    · cases he
      exact ⟨hostOf payload, AList.lookup_insert _, AList.lookup_insert _⟩

/-- A table may gain entries of clients that have a host. -/
theorem Invariant.retable (h : Invariant s) (table : PublishMap) (agenda : Option _)
    (ht : ∀ topic c, (get table topic c).isSome = true →
      (get s.publishTable topic c).isSome = true ∨ HasHost s c) :
    Invariant { s with publishTable := table, agenda := agenda } where
  hosts topic c hg hne := by
    rcases ht topic c hg with hold | hhost
    · exact h.hosts topic c hold hne
    · exact hhost
  updating := h.updating
  leaving := h.leaving

theorem Invariant.finish (h : Invariant s) (hl : ∀ c, s.callback ≠ .leaving c) :
    Invariant { s with callback := .idle } where
  hosts topic c hg _ := h.hosts topic c hg (hl c)
  updating _ _ he := by cases he
  leaving _ he := by cases he

theorem Invariant.next (h : Invariant s) {clientId : String} {topics : List (Σ _ : String, Value)}
    (hc : s.callback = .updating clientId topics) (rest : List (Σ _ : String, Value)) :
    Invariant { s with callback := .updating clientId rest } where
  hosts topic c hg _ := h.hosts topic c hg (by rw [hc]; exact Callback.noConfusion)
  updating c _ he := by
    cases he
    exact h.updating clientId topics hc
  leaving _ he := by cases he

theorem invariant_advance [Package] (h : Invariant s) (hs : advance secure s = some t) : Invariant t
    := by
  unfold advance at hs
  split at hs
  · cases hs
  · next clientId hc =>
    split at hs
    · cases hs
    · obtain rfl := Option.some.inj hs
      refine ⟨fun topic c hg _ => ?_, nofun, nofun⟩
      by_cases hcc : c = clientId
      · subst hcc
        simp at hg
      · simp only [get_eraseInner_of_ne _ _ hcc] at hg
        exact h.hosts topic c hg (by rw [hc]; simpa using Ne.symm hcc)
  · next hc =>
    obtain rfl := Option.some.inj hs
    exact h.finish fun c => by rw [hc]; exact Callback.noConfusion
  · next clientId topic value rest hc =>
    split at hs
    · obtain rfl := Option.some.inj hs
      exact h.next hc rest
    · split at hs
      · obtain rfl := Option.some.inj hs
        exact h.finish fun c => by rw [hc]; exact Callback.noConfusion
      · next info _ =>
        split at hs
        · cases hs
        · obtain rfl := Option.some.inj hs
          have ht := h.retable (updatePublishTable s.publishTable topic clientId info)
            s.agenda ?_
          · exact ht.next hc rest
          intro topic' c hg
          by_cases hcc : c = clientId
          · subst hcc
            exact .inr (h.updating _ _ hc)
          · rw [get_updatePublishTable_of_ne _ _ fun _ => hcc] at hg
            exact .inl hg

theorem invariant_visit (h : Invariant s) {connected : Bool}
    (hs : visit s connected = some t) : Invariant t := by
  unfold visit at hs
  split at hs
  · cases hs
  · obtain rfl := Option.some.inj hs
    exact h.retable _ none fun _ _ hg => .inl hg
  · next topic clientId rest _ =>
    split at hs
    · next info hg =>
      split at hs
      · obtain rfl := Option.some.inj hs
        refine h.retable _ _ fun topic' c hget => .inl ?_
        by_cases he : topic' = topic ∧ c = clientId
        · rw [he.1, he.2, hg]
          rfl
        · rwa [get_put_of_ne _ _ fun h1 h2 => he ⟨h1, h2⟩] at hget
      · obtain rfl := Option.some.inj hs
        exact h.retable _ none fun _ _ hg => .inl hg
    · obtain rfl := Option.some.inj hs
      exact h.retable _ _ fun _ _ hg => .inl hg

theorem invariant_reachable [Package] {topicMatchesSub : String → String → Option Bool}
    (h : (machine topicMatchesSub secure).Reachable s) : Invariant s := by
  refine Machine.Reaches.invariant h invariant_initial ?_
  intro s e t _ hi _ he
  cases e with
  | message clientId status payload =>
    simp only [machine, step] at he
    split at he
    · obtain rfl := Option.some.inj he
      exact invariant_message hi ‹_› clientId status payload
    · cases he
  | advance => exact invariant_advance hi he
  | publishFull topic =>
    simp only [machine, step] at he
    split at he
    · cases he
    · obtain rfl := Option.some.inj he
      exact hi.retable _ _ fun _ _ hg => .inl hg
  | visit connected => exact invariant_visit hi he

/-- However the critical sections are interleaved, a client that is looked up has its host
exactly when its own leave is not between the two tables. -/
theorem looked_up_client_has_host_iff [Package] {topicMatchesSub : String → String → Option Bool}
    (h : (machine topicMatchesSub secure).Reachable s) {clientId : String}
    (hl : LooksUp s clientId) : HasHost s clientId ↔ s.callback ≠ .leaving clientId := by
  have hi := invariant_reachable h
  constructor
  · rintro ⟨host, hhost, _⟩ hc
    rw [hi.leaving clientId hc] at hhost
    cases hhost
  · intro hc
    obtain ⟨topic, _, info, _, hg⟩ := hl
    exact hi.hosts topic clientId (by rw [hg]; rfl) hc

local instance : Package := plain

theorem looked_up_client_has_host_on_join :
    ∃ s, (machine exactMatch false).Reachable s ∧ LooksUp s "c" ∧ HasHost s "c" := by
  obtain ⟨s, hr, hp⟩ := (machine exactMatch false).exists_reachable
    [.message "c" "connected" oneTopic, .advance, .publishFull "a"]
    (fun s => s.agenda = some [("a", "c")] ∧ s.callback ≠ .leaving "c" ∧
      get s.publishTable "a" "c" = some ⟨{ port := 5000, numOfCb := 1 }, none⟩) (by decide)
  obtain ⟨ha, hc, hg⟩ := of_decide_eq_true hp
  have hl : LooksUp s "c" := ⟨"a", [], _, ha, hg⟩
  exact ⟨s, hr, hl, (looked_up_client_has_host_iff hr hl).mpr hc⟩

/-- The host goes first when a client leaves, its entries later. -/
theorem leaving_client_is_looked_up :
    ∃ s, (machine exactMatch false).Reachable s ∧ LooksUp s "c" ∧ ¬HasHost s "c" := by
  obtain ⟨s, hr, hp⟩ := (machine exactMatch false).exists_reachable
    [.message "c" "connected" oneTopic, .advance, .advance, .advance,
      .message "c" willLeaveNetwork noTopic, .publishFull "a"]
    (fun s => s.agenda = some [("a", "c")] ∧ s.clientTable.lookup "c" = none ∧
      get s.publishTable "a" "c" = some ⟨{ port := 5000, numOfCb := 1 }, none⟩) (by decide)
  obtain ⟨ha, hc, hg⟩ := of_decide_eq_true hp
  refine ⟨s, hr, ⟨"a", [], _, ha, hg⟩, ?_⟩
  rintro ⟨host, hhost, _⟩
  rw [hc] at hhost
  cases hhost

end TcpHostLookup
