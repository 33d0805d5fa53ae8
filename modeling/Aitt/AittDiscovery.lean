import Aitt.MosquittoMQ

/-! The discovery service: `Start`, `Restart` and `Stop` statement by statement, the
connection callback that the network thread may run between any two of them, and the
`UpdateDiscoveryMsg` calls of several threads. The application makes one call at a time,
directly or through `AITT::Impl::Connect` and `AITT::Impl::Disconnect`. A publication
reaches the broker only while the client is connected; an ungraceful loss publishes the
will, whose empty retained payload clears the broker's copy. -/
namespace AittDiscovery

open AittTypes TransitionRuns MosquittoMQ

def discoveryTopicBase : String := "/v1/custom/f5c7b34e48c1918f/discovery/"

def discoveryFilter : String := discoveryTopicBase ++ "+"

def joinNetwork : String := "connected"

structure DiscoveryMsg where
  status : String
  blobs : List (String × Bytes)
  deriving DecidableEq, Repr

def discoveryMsg (discoveryMap : List (String × Bytes)) : DiscoveryMsg :=
  ⟨joinNetwork, discoveryMap⟩

/-- `discovery_map` is an ordered map: a new key is put in its place, a known one replaced. -/
def emplace : List (String × Bytes) → String → Bytes → List (String × Bytes)
  | [], protocol, blob => [(protocol, blob)]
  | (key, old) :: rest, protocol, blob =>
    if protocol = key then (key, blob) :: rest
    else if protocol < key then (protocol, blob) :: (key, old) :: rest
    else (key, old) :: emplace rest protocol blob

inductive UpdateCall where
  | updated
  | built (msg : DiscoveryMsg)
  deriving DecidableEq, Repr

def UpdateCall.isBuilt : UpdateCall → Bool
  | .built _ => true
  | .updated => false

inductive Statement where
  | startGuard
  | startSetWillInfo
  | startSetConnectionCallback
  | startConnect
  | startRunning
  | restartGuard
  | restartUnsubscribe
  | restartSubscribe
  | stopRunning
  | stopSetConnectionCallback
  | stopUnsubscribe
  | stopPublishExactlyOnce
  | stopPublishAtMostOnce
  | stopClearHandle
  | stopDisconnect
  deriving DecidableEq, Repr

inductive Caller where
  | application
  | connect
  | connectHandler
  | disconnect
  deriving DecidableEq, Repr

/-- The application's thread: inside an operation of the discovery service, or at one of the
other statements of `AITT::Impl::Connect` and `AITT::Impl::Disconnect`. -/
inductive Control where
  | idle
  | discovery (pc : Statement) (caller : Caller)
  | mqConnect
  | handlerMqDisconnect
  | unsubscribeAll
  | mqDisconnect
  | terminated
  deriving DecidableEq, Repr

def Control.statement : Control → Option Statement
  | .discovery pc _ => some pc
  | _ => none

def Caller.returns : Caller → Control
  | .application => .idle
  | .connect => .mqConnect
  | .connectHandler => .idle
  | .disconnect => .mqDisconnect

def Caller.raises : Caller → Control
  | .application => .idle
  | .connect => .handlerMqDisconnect
  | .connectHandler => .idle
  | .disconnect => .idle

/-- What a run has seen; recorded for the statements about it and never read by the code. -/
structure History where
  dialled : Bool := false
  opened : Bool := false
  started : Bool := false
  stopped : Bool := false
  connected : Bool := false
  latest : Option AittConnectionState := none
  pending : Option AittConnectionState := none
  deriving DecidableEq, Repr

structure State where
  isRunning : Bool := false
  callbackHandle : Address := 0
  discoveryMap : List (String × Bytes) := []
  mq : Client Unit := .new
  connectCb : Bool := false
  will : Bool := false
  loop : Bool := false
  linkUp : Bool := false
  retained : Option DiscoveryMsg := none
  control : Control := .idle
  calls : List UpdateCall := []
  history : History := {}
  deriving DecidableEq, Repr

def initial : State := {}

namespace State

def note (s : State) (f : History → History) : State := { s with history := f s.history }

def stopEnds (s : State) : State := s.note ({ · with stopped := true })

/-- The connection breaks off: the broker publishes the will it was given. -/
def drop (s : State) : State :=
  { s with
    linkUp := false
    retained := if s.linkUp ∧ s.will then none else s.retained }

end State

def subscription (cell : Address) : SubscribeData Unit := ⟨cell, discoveryFilter, (), 1⟩

inductive Flow where
  | next (pc : Statement)
  | returns
  | raises
  deriving DecidableEq, Repr

def Flow.statement : Flow → Option Statement
  | .next pc => some pc
  | _ => none

def execute (s : State) (ret : Bool) (cell : Address) : Statement → Option (State × Flow)
  | .startGuard =>
    if s.callbackHandle ≠ 0 then some (s, .returns)
    else some (s.note ({ · with stopped := false, pending := none }), .next .startSetWillInfo)
  | .startSetWillInfo =>
    if ret then some ({ s with will := true }, .next .startSetConnectionCallback)
    else some (s, .raises)
  | .startSetConnectionCallback => some ({ s with connectCb := true }, .next .startConnect)
  | .startConnect =>
    if ret then
      some ({ s.drop with loop := true }.note ({ · with dialled := true, opened := true }),
        .next .startRunning)
    else some (s.drop.note ({ · with dialled := true }), .raises)
  | .startRunning =>
    some ({ s with isRunning := true }.note
      (fun h => { h with started := true, latest := h.pending }), .returns)
  | .restartGuard =>
    if s.callbackHandle = 0 then some (s, .returns) else some (s, .next .restartUnsubscribe)
  | .restartUnsubscribe =>
    match s.mq.unsubscribe s.callbackHandle ret with
    | (mq, .ok _) => some ({ s with mq := mq }, .next .restartSubscribe)
    | (mq, .error _) => some ({ s with mq := mq }, .raises)
  | .restartSubscribe =>
    if Allocatable s.mq (subscription cell) then
      match s.mq.subscribe (subscription cell) ret with
      | (mq, .ok handle) => some ({ s with mq := mq, callbackHandle := handle }, .returns)
      | (mq, .error _) => some ({ s with mq := mq }, .raises)
    else none
  | .stopRunning =>
    some ({ s with isRunning := false }.note
      ({ · with dialled := false, opened := false, started := false, connected := false }),
      .next .stopSetConnectionCallback)
  | .stopSetConnectionCallback => some ({ s with connectCb := false }, .next .stopUnsubscribe)
  | .stopUnsubscribe =>
    match s.mq.unsubscribe s.callbackHandle ret with
    | (mq, .ok _) => some ({ s with mq := mq }, .next .stopPublishExactlyOnce)
    | (mq, .error _) => some ({ s with mq := mq }.stopEnds, .raises)
  | .stopPublishExactlyOnce =>
    if ret then
      if s.linkUp then some ({ s with retained := none }, .next .stopPublishAtMostOnce) else none
    else some (s.stopEnds, .raises)
  | .stopPublishAtMostOnce =>
    if ret then
      if s.linkUp then some ({ s with retained := none }, .next .stopClearHandle) else none
    else some (s.stopEnds, .raises)
  | .stopClearHandle => some ({ s with callbackHandle := 0 }, .next .stopDisconnect)
  | .stopDisconnect =>
    some ({ s with
      linkUp := false
      will := if ret then false else s.will
      loop := false }.stopEnds, .returns)

def resume (caller : Caller) : State × Flow → State
  | (s, .next pc) => { s with control := .discovery pc caller }
  | (s, .returns) => { s with control := caller.returns }
  | (s, .raises) => { s with control := caller.raises }

def advance (s : State) (ret : Bool) (cell : Address) : Option State :=
  match s.control with
  | .discovery pc caller => (execute s ret cell pc).map (resume caller)
  | .mqConnect =>
    if ret then some ({ s with control := .idle }.note ({ · with connected := true }))
    else some { s with control := .handlerMqDisconnect }
  | .handlerMqDisconnect => some { s with control := .discovery .stopRunning .connectHandler }
  | .unsubscribeAll =>
    if ret then some { s with control := .discovery .stopRunning .disconnect }
    else some { s with control := .idle }
  | .mqDisconnect => some { s with control := .idle }
  | _ => none

inductive Call where
  | start
  | restart
  | stop
  | connect
  | disconnect
  deriving DecidableEq, Repr

def Call.entry : Call → Control
  | .start => .discovery .startGuard .application
  | .restart => .discovery .restartGuard .application
  | .stop => .discovery .stopRunning .application
  | .connect => .discovery .startGuard .connect
  | .disconnect => .unsubscribeAll

def connectionStatus (s : State) : AittConnectionState → State
  | .connected => { s with linkUp := true }
  | .disconnected => s.drop
  | .connectFailed => { s with linkUp := false }

/-- The function that `Start` hands to `SetConnectionCallback`. An exception of its
`Subscribe` leaves the network thread and ends the process. -/
def connectionCallback (s : State) (status : AittConnectionState) (ret : Bool)
    (cell : Address) : Option State :=
  if status ≠ .connected then some { s with isRunning := false }
  else if s.callbackHandle = 0 then
    if Allocatable s.mq (subscription cell) then
      match s.mq.subscribe (subscription cell) ret with
      | (mq, .ok handle) => some { s with mq := mq, callbackHandle := handle }
      | (mq, .error _) => some { s with mq := mq, control := .terminated }
    else none
  else some s

def noteStatus (s : State) (status : AittConnectionState) : State :=
  s.note ({ · with latest := some status, pending := some status })

def connection (s : State) (status : AittConnectionState) (ret : Bool) (cell : Address) :
    Option State :=
  if s.connectCb then connectionCallback (noteStatus (connectionStatus s status) status) status
    ret cell
  else some (connectionStatus s status)

inductive Event where
  | call (c : Call)
  | advance (ret : Bool) (cell : Address)
  | connection (status : AittConnectionState) (ret : Bool) (cell : Address)
  | update (protocol : String) (blob : Bytes)
  | build (i : ℕ)
  | publish (i : ℕ) (ret : Bool)
  deriving DecidableEq, Repr

/-- `UpdateDiscoveryMsg` in three parts: the map, the message, the publication. -/
def step (s : State) : Event → Option State
  | .call c => if s.control = .idle then some { s with control := c.entry } else none
  | .advance ret cell => AittDiscovery.advance s ret cell
  | .connection status ret cell =>
    if s.control ≠ .terminated ∧ s.loop then AittDiscovery.connection s status ret cell else none
  | .update protocol blob =>
    if s.control ≠ .terminated then
      some { s with
        discoveryMap := emplace s.discoveryMap protocol blob
        calls := s.calls ++ [.updated] }
    else none
  | .build i =>
    if s.control ≠ .terminated ∧ s.calls[i]? = some .updated then
      some { s with calls := s.calls.set i (.built (discoveryMsg s.discoveryMap)) }
    else none
  | .publish i ret =>
    match s.calls[i]? with
    | some (.built msg) =>
      if s.control ≠ .terminated ∧ (ret → s.linkUp) then
        some { s with
          calls := s.calls.eraseIdx i
          retained := if ret then some msg else s.retained }
      else none
    | _ => none

def machine : Machine State Event := ⟨initial, step⟩

inductive Exec (s : State) (ret : Bool) (cell : Address) : Statement → State → Flow → Prop where
  | startReturns (h : s.callbackHandle ≠ 0) : Exec s ret cell .startGuard s .returns
  | startBegins (h : s.callbackHandle = 0) :
      Exec s ret cell .startGuard (s.note ({ · with stopped := false, pending := none }))
        (.next .startSetWillInfo)
  | willSet : Exec s ret cell .startSetWillInfo { s with will := true }
      (.next .startSetConnectionCallback)
  | willFails : Exec s ret cell .startSetWillInfo s .raises
  | callbackSet :
      Exec s ret cell .startSetConnectionCallback { s with connectCb := true }
        (.next .startConnect)
  | connects :
      Exec s ret cell .startConnect
        ({ s.drop with loop := true }.note ({ · with dialled := true, opened := true }))
        (.next .startRunning)
  | connectFails :
      Exec s ret cell .startConnect (s.drop.note ({ · with dialled := true })) .raises
  | running :
      Exec s ret cell .startRunning ({ s with isRunning := true }.note
        (fun h => { h with started := true, latest := h.pending })) .returns
  | restartReturns (h : s.callbackHandle = 0) : Exec s ret cell .restartGuard s .returns
  | restartBegins (h : s.callbackHandle ≠ 0) :
      Exec s ret cell .restartGuard s (.next .restartUnsubscribe)
  | restartUnsubscribed {mq user} (h : s.mq.unsubscribe s.callbackHandle ret = (mq, .ok user)) :
      Exec s ret cell .restartUnsubscribe { s with mq := mq } (.next .restartSubscribe)
  | restartUnsubscribeFails {mq err}
      (h : s.mq.unsubscribe s.callbackHandle ret = (mq, .error err)) :
      Exec s ret cell .restartUnsubscribe { s with mq := mq } .raises
  | restartSubscribed (hr : ret = true) (ha : Allocatable s.mq (subscription cell)) :
      Exec s ret cell .restartSubscribe
        { s with mq := (s.mq.subscribe (subscription cell) true).1, callbackHandle := cell }
        .returns
  | restartSubscribeFails (hr : ret = false) : Exec s ret cell .restartSubscribe s .raises
  | stopBegins :
      Exec s ret cell .stopRunning ({ s with isRunning := false }.note
        ({ · with dialled := false, opened := false, started := false, connected := false }))
        (.next .stopSetConnectionCallback)
  | callbackCleared :
      Exec s ret cell .stopSetConnectionCallback { s with connectCb := false }
        (.next .stopUnsubscribe)
  | stopUnsubscribed {mq user} (h : s.mq.unsubscribe s.callbackHandle ret = (mq, .ok user)) :
      Exec s ret cell .stopUnsubscribe { s with mq := mq } (.next .stopPublishExactlyOnce)
  | stopUnsubscribeFails {mq err}
      (h : s.mq.unsubscribe s.callbackHandle ret = (mq, .error err)) :
      Exec s ret cell .stopUnsubscribe { s with mq := mq }.stopEnds .raises
  | emptiedExactlyOnce (hr : ret = true) (h : s.linkUp = true) :
      Exec s ret cell .stopPublishExactlyOnce { s with retained := none }
        (.next .stopPublishAtMostOnce)
  | exactlyOnceFails (hr : ret = false) :
      Exec s ret cell .stopPublishExactlyOnce s.stopEnds .raises
  | emptiedAtMostOnce (hr : ret = true) (h : s.linkUp = true) :
      Exec s ret cell .stopPublishAtMostOnce { s with retained := none }
        (.next .stopClearHandle)
  | atMostOnceFails (hr : ret = false) :
      Exec s ret cell .stopPublishAtMostOnce s.stopEnds .raises
  | handleCleared :
      Exec s ret cell .stopClearHandle { s with callbackHandle := 0 } (.next .stopDisconnect)
  | disconnected :
      Exec s ret cell .stopDisconnect
        { s with
          linkUp := false
          will := if ret then false else s.will
          loop := false }.stopEnds .returns

theorem execute_cases {s t : State} {ret : Bool} {cell : Address} {pc : Statement} {flow : Flow}
    (h : execute s ret cell pc = some (t, flow)) : Exec s ret cell pc t flow := by
  cases pc with
  | startGuard =>
    simp only [execute] at h
    split at h
    · cases h; exact .startReturns ‹_›
    · next hz => cases h; exact .startBegins (not_not.mp hz)
  | startSetWillInfo => cases ret <;> cases h <;> constructor
  | startSetConnectionCallback => cases h; exact .callbackSet
  | startConnect => cases ret <;> cases h <;> constructor
  | startRunning => cases h; exact .running
  | restartGuard =>
    simp only [execute] at h
    split at h
    · cases h; exact .restartReturns ‹_›
    · cases h; exact .restartBegins ‹_›
  | restartUnsubscribe =>
    simp only [execute] at h
    split at h
    · cases h; exact .restartUnsubscribed ‹_›
    · cases h; exact .restartUnsubscribeFails ‹_›
  | restartSubscribe =>
    simp only [execute] at h
    split at h
    · next ha =>
      cases ret with
      | false => cases h; exact .restartSubscribeFails rfl
      | true =>
        rw [subscribe_succeeds] at h
        cases h
        exact .restartSubscribed rfl ha
    · cases h
  | stopRunning => cases h; exact .stopBegins
  | stopSetConnectionCallback => cases h; exact .callbackCleared
  | stopUnsubscribe =>
    simp only [execute] at h
    split at h
    · cases h; exact .stopUnsubscribed ‹_›
    · cases h; exact .stopUnsubscribeFails ‹_›
  | stopPublishExactlyOnce =>
    cases ret with
    | false => cases h; exact .exactlyOnceFails rfl
    | true =>
      simp only [execute, if_true] at h
      split at h
      · cases h; exact .emptiedExactlyOnce rfl ‹_›
      · cases h
  | stopPublishAtMostOnce =>
    cases ret with
    | false => cases h; exact .atMostOnceFails rfl
    | true =>
      simp only [execute, if_true] at h
      split at h
      · cases h; exact .emptiedAtMostOnce rfl ‹_›
      · cases h
  | stopClearHandle => cases h; exact .handleCleared
  | stopDisconnect => cases h; exact .disconnected

inductive Elsewhere : Control → Prop where
  | idle : Elsewhere .idle
  | handler : Elsewhere .handlerMqDisconnect
  | stop {caller} (h : caller ≠ .connect) : Elsewhere (.discovery .stopRunning caller)

inductive Step (s : State) : Event → State → Prop where
  | call {c} (hc : s.control = .idle) : Step s (.call c) { s with control := c.entry }
  | statement {pc caller ret cell t flow} (hc : s.control = .discovery pc caller)
      (h : Exec s ret cell pc t flow) : Step s (.advance ret cell) (resume caller (t, flow))
  | mqConnected {ret cell} (hc : s.control = .mqConnect) :
      Step s (.advance ret cell) ({ s with control := .idle }.note ({ · with connected := true }))
  | elsewhere {ret cell c} (hn : ∀ pc caller, s.control ≠ .discovery pc caller)
      (ht : s.control ≠ .terminated) (hc : Elsewhere c) :
      Step s (.advance ret cell) { s with control := c }
  | unheard {status ret cell} (hl : s.loop = true) (hb : s.connectCb = false) :
      Step s (.connection status ret cell) (connectionStatus s status)
  | lost {status ret cell} (hl : s.loop = true) (hb : s.connectCb = true)
      (hs : status ≠ .connected) :
      Step s (.connection status ret cell)
        { noteStatus (connectionStatus s status) status with isRunning := false }
  | subscribed {cell} (ht : s.control ≠ .terminated) (hl : s.loop = true)
      (hb : s.connectCb = true) (hz : s.callbackHandle = 0)
      (ha : Allocatable s.mq (subscription cell)) :
      Step s (.connection .connected true cell)
        { noteStatus (connectionStatus s .connected) .connected with
          mq := (s.mq.subscribe (subscription cell) true).1
          callbackHandle := cell }
  | terminated {cell} (hl : s.loop = true) (hb : s.connectCb = true)
      (hz : s.callbackHandle = 0) :
      Step s (.connection .connected false cell)
        { noteStatus (connectionStatus s .connected) .connected with control := .terminated }
  | known {ret cell} (hl : s.loop = true) (hb : s.connectCb = true)
      (hz : s.callbackHandle ≠ 0) :
      Step s (.connection .connected ret cell)
        (noteStatus (connectionStatus s .connected) .connected)
  | update {protocol blob} :
      Step s (.update protocol blob) { s with
        discoveryMap := emplace s.discoveryMap protocol blob
        calls := s.calls ++ [.updated] }
  | build {i} (hi : s.calls[i]? = some .updated) :
      Step s (.build i)
        { s with calls := s.calls.set i (.built (discoveryMsg s.discoveryMap)) }
  | publish {i ret msg} (hi : s.calls[i]? = some (.built msg)) (hl : ret = true → s.linkUp = true) :
      Step s (.publish i ret) { s with
        calls := s.calls.eraseIdx i
        retained := if ret then some msg else s.retained }

theorem resume_statement (caller : Caller) (t : State) (flow : Flow) :
    (resume caller (t, flow)).control.statement = flow.statement := by
  cases flow <;> cases caller <;> rfl

theorem advance_cases {s t : State} {ret : Bool} {cell : Address}
    (h : advance s ret cell = some t) : Step s (.advance ret cell) t := by
  unfold advance at h
  split at h
  · next pc caller hc =>
    obtain ⟨⟨u, flow⟩, hu, rfl⟩ := Option.map_eq_some_iff.mp h
    exact .statement hc (execute_cases hu)
  · next hc =>
    split at h <;> cases h
    · exact .mqConnected hc
    · exact .elsewhere (by simp [hc]) (by simp [hc]) .handler
  · next hc => cases h; exact .elsewhere (by simp [hc]) (by simp [hc]) (.stop (by simp))
  · next hc =>
    split at h <;> cases h
    · exact .elsewhere (by simp [hc]) (by simp [hc]) (.stop (by simp))
    · exact .elsewhere (by simp [hc]) (by simp [hc]) .idle
  · next hc => cases h; exact .elsewhere (by simp [hc]) (by simp [hc]) .idle
  · cases h

@[simp] theorem connectionStatus_control (s : State) (status : AittConnectionState) :
    (connectionStatus s status).control = s.control := by
  cases status <;> rfl

@[simp] theorem connectionStatus_history (s : State) (status : AittConnectionState) :
    (connectionStatus s status).history = s.history := by
  cases status <;> rfl

theorem connection_cases {s t : State} {status : AittConnectionState} {ret : Bool}
    {cell : Address} (ht : s.control ≠ .terminated) (hl : s.loop = true)
    (h : connection s status ret cell = some t) :
    Step s (.connection status ret cell) t := by
  unfold connection at h
  split at h
  · next hb =>
    unfold connectionCallback at h
    split at h
    · next hs => cases h; exact .lost hl hb hs
    · next hs =>
      obtain rfl := not_not.mp hs
      split at h
      · next hz =>
        split at h
        · next ha =>
          cases ret with
          | false => cases h; exact .terminated hl hb hz
          | true =>
            rw [subscribe_succeeds] at h
            cases h
            exact .subscribed ht hl hb hz ha
        · cases h
      · next hz => cases h; exact .known hl hb hz
  · next hb => cases h; exact .unheard hl (Bool.eq_false_iff.mpr hb)

theorem step_cases {s t : State} {e : Event} (h : step s e = some t) : Step s e t := by
  cases e with
  | call c =>
    simp only [step, Option.ite_none_right_eq_some, Option.some.injEq] at h
    obtain ⟨hc, rfl⟩ := h
    exact .call hc
  | advance ret cell => exact advance_cases h
  | connection status ret cell =>
    simp only [step, Option.ite_none_right_eq_some] at h
    exact connection_cases h.1.1 h.1.2 h.2
  | update protocol blob =>
    simp only [step, Option.ite_none_right_eq_some, Option.some.injEq] at h
    obtain ⟨-, rfl⟩ := h
    exact .update
  | build i =>
    simp only [step, Option.ite_none_right_eq_some, Option.some.injEq] at h
    obtain ⟨⟨-, hi⟩, rfl⟩ := h
    exact .build hi
  | publish i ret =>
    simp only [step] at h
    split at h
    · next msg hi =>
      simp only [Option.ite_none_right_eq_some, Option.some.injEq] at h
      obtain ⟨⟨-, hl⟩, rfl⟩ := h
      exact .publish hi hl
    · cases h

theorem connectionCallback_subscribes {s : State} (hz : s.callbackHandle = 0) {cell : Address}
    (ha : Allocatable s.mq (subscription cell)) :
    connectionCallback s .connected true cell =
      some { s with
        mq := (s.mq.subscribe (subscription cell) true).1
        callbackHandle := cell } := by
  simp only [connectionCallback, ne_eq, not_true_eq_false, if_false, if_pos hz, if_pos ha]
  rw [subscribe_succeeds]
  rfl

theorem connectionCallback_known {s : State} (hz : s.callbackHandle ≠ 0) (ret : Bool)
    (cell : Address) : connectionCallback s .connected ret cell = some s := by
  simp only [connectionCallback, ne_eq, not_true_eq_false, if_false, if_neg hz]

theorem step_connected {s : State} (ht : s.control ≠ .terminated) (hl : s.loop = true)
    (hb : s.connectCb = true) (ret : Bool) (cell : Address) :
    step s (.connection .connected ret cell) =
      connectionCallback (noteStatus (connectionStatus s .connected) .connected) .connected
        ret cell := by
  simp only [step, if_pos (And.intro ht hl), connection, if_pos hb]

end AittDiscovery
