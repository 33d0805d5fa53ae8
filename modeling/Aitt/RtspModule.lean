import Aitt.RtspDiscovery
import Aitt.TcpPublishTable
import Aitt.TransitionRuns

/-! The RTSP module and the player that it drives for a subscriber. The module keeps the state
that its publisher has advertised and its own; the player library answers each call with
success or failure, and may interrupt the playback by itself. -/
namespace RtspModule

open AittTypes Flexbuffers TransitionRuns RtspDiscovery
open TcpPublishTable (willLeaveNetwork)

inductive PlayerState where
  | none
  | idle
  | ready
  | playing
  | paused
  deriving DecidableEq, Repr

/-- The answers of the player library to the calls of one operation; `state` is what
`player_get_state` finds, if it succeeds. -/
structure Player where
  setDisplay : Bool := true
  setUri : Bool := true
  state : Option PlayerState := some .idle
  prepareAsync : Bool := true
  start : Bool := true
  deriving DecidableEq, Repr

/-- `RTSPClient`. The player holds `uri`; the one that it held when it was last started is
recorded in `startedUri` and never read by the code. -/
structure Client where
  isStart : Bool := false
  display : Bool := false
  uri : Bytes := []
  startedUri : Bytes := []
  deriving DecidableEq, Repr

namespace Client

def setDisplay (c : Client) (display : Bool) (p : Player) : Client :=
  if display = false then c
  else if c.isStart then c
  else { c with display := p.setDisplay }

def setURI (c : Client) (uri : Bytes) (p : Player) : Client :=
  if uri = [] then c
  else if c.isStart then c
  else if p.setUri then { c with uri := uri }
  else c

def begin (c : Client) : Client := { c with isStart := true, startedUri := c.uri }

def start (c : Client) (p : Player) : Client :=
  if c.isStart then c
  else if c.display = false then c
  else
    match p.state with
    | some .idle => if p.prepareAsync then c.begin else c
    | some .ready | some .paused => if p.start then c.begin else c
    | _ => c

/-- Whether `player_stop` succeeds is only written to the log. -/
def stop (c : Client) : Client := { c with isStart := false }

end Client

inductive Role where
  | publisher
  | subscriber
  deriving DecidableEq, Repr

structure Module where
  role : Role := .subscriber
  serverState : StreamState := .init
  clientState : StreamState := .init
  info : RtspInfo := {}
  client : Client := {}
  deriving DecidableEq, Repr

namespace Module

def updateState (m : Module) : Role → StreamState → Module
  | .publisher, state => { m with serverState := state }
  | .subscriber, state => { m with clientState := state }

def setClient (m : Module) (c : Client) : Module := { m with client := c }

def setInfo (m : Module) (info : RtspInfo) : Module := { m with info := info }

def setConfig (m : Module) (display : Bool) (p : Player) : Module :=
  if m.role = .subscriber then m.setClient (m.client.setDisplay display p) else m

def discoveryMsg [Package] (m : Module) : Option (List (String × Item)) :=
  if m.role = .subscriber then none else some (updateDiscoveryMsg m.serverState m.info)

def start (m : Module) (p : Player) : Module :=
  if m.role = .publisher then m.updateState m.role .ready
  else if m.serverState = .ready then
    (m.setClient (m.client.start p)).updateState m.role .playing
  else m.updateState m.role .ready

def stop (m : Module) : Module :=
  if m.role = .publisher then m.updateState m.role .init
  else if m.clientState = .playing then (m.setClient m.client.stop).updateState m.role .init
  else m.updateState m.role .init

/-- The callback that the module gives to its `RTSPClient`; an interruption reports zero. -/
def interrupted (m : Module) : Module := m.updateState m.role .init

def follow (m : Module) (p : Player) : Module :=
  if m.serverState = .ready then
    if m.clientState = .ready then
      (m.setClient (m.client.start p)).updateState .subscriber .playing
    else m
  else if m.serverState = .init then
    if m.clientState = .playing then
      (m.setClient m.client.stop).updateState .subscriber .ready
    else m
  else m

/-- The callback does not look at the client it is about. An exception, which nothing catches,
ends the process: `none`. -/
def discoveryMessageCallback [Package] (m : Module) (_clientId status : String)
    (msg : List (String × Item)) (p : Player) : Option Module :=
  if m.role = .publisher then some m
  else if status = willLeaveNetwork then
    if m.clientState = .playing then
      some ((m.setClient m.client.stop).updateState m.role .ready)
    else some (m.updateState m.role .init)
  else
    match readInfo msg with
    | none => some m
    | some (state, info) =>
      let m := (m.updateState .publisher state).setInfo info
      info.getCompleteURI.map fun uri => (m.setClient (m.client.setURI uri p)).follow p

end Module

structure Advertisement where
  clientId : String
  state : StreamState
  info : RtspInfo
  deriving DecidableEq, Repr

/-- A subscriber, and what a run has seen: the last advertisement that it accepted, whether its
publisher has left since, and whether the last of `Start` and `Stop` was `Start`. -/
structure State where
  module : Module := {}
  accepted : Option Advertisement := none
  left : Bool := false
  started : Bool := false
  deriving DecidableEq, Repr

inductive Event where
  | setConfig (display : Bool) (p : Player)
  | start (p : Player)
  | stop
  | discovery (clientId status : String) (msg : List (String × Item)) (p : Player)
  | interrupted
  deriving DecidableEq, Repr

def State.note [Package] (s : State) (clientId status : String) (msg : List (String × Item)) : State
    :=
  if status = willLeaveNetwork then
    { s with left := s.left || s.accepted.any (·.clientId = clientId) }
  else
    match readInfo msg with
    | none => s
    | some (state, info) => { s with accepted := some ⟨clientId, state, info⟩, left := false }

def State.setModule (s : State) (m : Module) : State := { s with module := m }

def State.step [Package] (s : State) : Event → Option State
  | .setConfig display p => some (s.setModule (s.module.setConfig display p))
  | .start p => some { s.setModule (s.module.start p) with started := true }
  | .stop => some { s.setModule s.module.stop with started := false }
  | .discovery clientId status msg p =>
    (s.module.discoveryMessageCallback clientId status msg p).map
      (s.note clientId status msg).setModule
  | .interrupted => some (s.setModule s.module.interrupted)

def machine [Package] : Machine State Event where
  initial := {}
  step := State.step

def Player.starts (p : Player) : Bool :=
  match p.state with
  | some .idle => p.prepareAsync
  | some .ready | some .paused => p.start
  | _ => false

variable {m n : Module} {p : Player} {clientId status : String} {msg : List (String × Item)}

theorem start_eq (c : Client) (p : Player) :
    c.start p = if c.isStart = false ∧ c.display = true ∧ p.starts = true then c.begin else c := by
  cases hs : c.isStart with
  | true => simp [Client.start, hs]
  | false =>
    cases hd : c.display with
    | false => simp [Client.start, hs, hd]
    | true =>
      rcases hp : p.state with - | state
      · simp [Client.start, Player.starts, hs, hd, hp]
      · cases state <;> simp [Client.start, Player.starts, hs, hd, hp]

theorem start_of_isStart {c : Client} (h : c.isStart = true) (p : Player) : c.start p = c := by
  simp [Client.start, h]

theorem start_of_starts {c : Client} (hs : c.isStart = false) (hd : c.display = true)
    (hp : p.starts = true) : c.start p = c.begin := by
  rw [start_eq, if_pos ⟨hs, hd, hp⟩]

@[simp] theorem setURI_isStart (c : Client) (uri : Bytes) (p : Player) :
    (c.setURI uri p).isStart = c.isStart := by
  unfold Client.setURI
  split <;> [rfl; split <;> [rfl; split <;> rfl]]

@[simp] theorem setURI_display (c : Client) (uri : Bytes) (p : Player) :
    (c.setURI uri p).display = c.display := by
  unfold Client.setURI
  split <;> [rfl; split <;> [rfl; split <;> rfl]]

@[simp] theorem setURI_startedUri (c : Client) (uri : Bytes) (p : Player) :
    (c.setURI uri p).startedUri = c.startedUri := by
  unfold Client.setURI
  split <;> [rfl; split <;> [rfl; split <;> rfl]]

theorem setURI_uri {c : Client} {uri : Bytes} (hs : c.isStart = false)
    (h : uri ≠ [] ∧ p.setUri = true ∨ uri = c.uri) : (c.setURI uri p).uri = uri := by
  unfold Client.setURI
  split
  · rename_i he
    rcases h with h | h
    · exact absurd he h.1
    · exact h.symm
  · rw [if_neg (by simp [hs])]
    split
    · rfl
    · rename_i hp
      rcases h with h | h
      · exact absurd h.2 hp
      · exact h.symm

def Module.moved (m : Module) (state : StreamState) (c : Client) : Module :=
  { m with clientState := state, client := c }

inductive Followed (m : Module) (p : Player) : Module → Prop where
  | starts (server : m.serverState = .ready) (client : m.clientState = .ready) :
      Followed m p (m.moved .playing (m.client.start p))
  | stops (server : m.serverState = .init) (client : m.clientState = .playing) :
      Followed m p (m.moved .ready m.client.stop)
  | stays (ready : m.serverState = .ready → m.clientState ≠ .ready)
      (init : m.serverState = .init → m.clientState ≠ .playing) : Followed m p m

theorem followed (m : Module) (p : Player) : Followed m p (m.follow p) := by
  unfold Module.follow
  split
  · rename_i hr
    split
    · exact .starts hr ‹_›
    · exact .stays (fun _ => ‹_›) fun hi => by cases hr.symm.trans hi
  · rename_i hr
    split
    · rename_i hi
      split
      · exact .stops hi ‹_›
      · exact .stays (fun h => absurd h hr) fun _ => ‹_›
    · exact .stays (fun h => absurd h hr) fun h => absurd h ‹_›

@[simp] theorem setDisplay_isStart (c : Client) (display : Bool) (p : Player) :
    (c.setDisplay display p).isStart = c.isStart := by
  unfold Client.setDisplay
  split <;> [rfl; split <;> rfl]

@[simp] theorem setDisplay_startedUri (c : Client) (display : Bool) (p : Player) :
    (c.setDisplay display p).startedUri = c.startedUri := by
  unfold Client.setDisplay
  split <;> [rfl; split <;> rfl]

def Module.stored (m : Module) (state : StreamState) (info : RtspInfo) (c : Client) : Module :=
  { m with serverState := state, info := info, client := c }

inductive Discovered [Package] (m : Module) (status : String) (msg : List (String × Item))
    (p : Player) : Module → Prop where
  | stopped (leave : status = willLeaveNetwork) (playing : m.clientState = .playing) :
      Discovered m status msg p (m.moved .ready m.client.stop)
  | reset (leave : status = willLeaveNetwork) (idle : m.clientState ≠ .playing) :
      Discovered m status msg p (m.moved .init m.client)
  | rejected (join : status ≠ willLeaveNetwork) (read : readInfo msg = none) :
      Discovered m status msg p m
  | accepted {state info uri n} (join : status ≠ willLeaveNetwork)
      (read : readInfo msg = some (state, info)) (complete : info.getCompleteURI = some uri)
      (followed : Followed (m.stored state info (m.client.setURI uri p)) p n) :
      Discovered m status msg p n

theorem discovered [Package] (hr : m.role = .subscriber)
    (h : m.discoveryMessageCallback clientId status msg p = some n) :
    Discovered m status msg p n := by
  have hne : m.role ≠ .publisher := by simp [hr]
  rw [Module.discoveryMessageCallback, if_neg hne] at h
  split at h
  · rename_i hl
    split at h
    · rename_i hp
      cases h
      rw [hr]
      exact .stopped hl hp
    · rename_i hp
      cases h
      rw [hr]
      exact .reset hl hp
  · rename_i hl
    split at h
    · cases h
      exact .rejected hl ‹_›
    · rename_i hread
      obtain ⟨uri, hu, rfl⟩ := Option.map_eq_some_iff.mp h
      exact .accepted hl hread hu (followed _ p)

theorem start_subscriber (hr : m.role = .subscriber) (p : Player) :
    m.start p = if m.serverState = .ready
      then m.moved .playing (m.client.start p) else m.moved .ready m.client := by
  simp [Module.start, hr, Module.updateState, Module.setClient, Module.moved]

theorem stop_subscriber (hr : m.role = .subscriber) :
    m.stop = if m.clientState = .playing
      then m.moved .init m.client.stop else m.moved .init m.client := by
  simp [Module.stop, hr, Module.updateState, Module.setClient, Module.moved]

theorem leave_subscriber [Package] (hr : m.role = .subscriber) (clientId : String)
    (msg : List (String × Item)) (p : Player) :
    m.discoveryMessageCallback clientId willLeaveNetwork msg p = some
      (if m.clientState = .playing then m.moved .ready m.client.stop
        else m.moved .init m.client) := by
  rw [Module.discoveryMessageCallback, if_neg (by simp [hr]), if_pos rfl]
  split <;> simp [hr, Module.updateState, Module.setClient, Module.moved]

theorem interrupted_subscriber (hr : m.role = .subscriber) :
    m.interrupted = m.moved .init m.client := by
  simp [Module.interrupted, hr, Module.updateState, Module.moved]

theorem setConfig_subscriber (hr : m.role = .subscriber) (display : Bool) (p : Player) :
    m.setConfig display p = m.moved m.clientState (m.client.setDisplay display p) := by
  simp [Module.setConfig, hr, Module.setClient, Module.moved]

end RtspModule
