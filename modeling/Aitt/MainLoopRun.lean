import Aitt.NestedMaps
import Aitt.TransitionRuns
import Mathlib.Data.List.Sort

/-! `PosixMainLoop::Run` and the calls that other threads, or the callbacks themselves, make
while it runs. Every section under `table_lock`, every read from and write to a pipe and every
call of a callback is a step of its own. Callbacks do not run the loop again, and at most one
thread runs it. -/
namespace MainLoopRun

open NestedMaps TransitionRuns

inductive Result where
  | okay
  | error
  | hangup
  deriving DecidableEq, Repr

structure Revents where
  hangup : Bool := false
  error : Bool := false
  deriving DecidableEq, Repr

def Revents.plain (r : Revents) : Bool := !r.hangup && !r.error

/-- The entry of a descriptor in `watch_table`; `serial` tells apart the watches that one
descriptor has had and is not in the code. -/
structure Watch where
  serial : ℕ
  result : Result := .okay
  deriving DecidableEq, Repr

inductive IdleToken where
  | ping
  | idle
  deriving DecidableEq, Repr

/-- What is written into the timeout pipe. A `QUIT` is marked with the number of the `Run` that
was active when its `Quit` was called; the mark is not in the code. -/
inductive TimeoutToken where
  | quit (run : ℕ)
  | timeout (id : ℕ)
  deriving DecidableEq, Repr

structure Pending where
  fd : ℕ
  polled : ℕ
  revents : Revents
  deriving DecidableEq, Repr

/-- What one turn of the loop carries along: `handled`, the reports that are still to be
looked at, and whether the idle pipe was readable. -/
structure Turn where
  handled : Bool := false
  pending : List Pending
  idleReady : Bool
  deriving DecidableEq, Repr

inductive Control where
  | stopped
  | test
  | poll (fds : List (ℕ × ℕ))
  | checkTimeout (turn : Turn)
  | timeoutCalling (id : ℕ) (turn : Turn)
  | checkWatch (turn : Turn)
  | watchFound (p : Pending) (w : Watch) (turn : Turn)
  | watchCalling (p : Pending) (w : Watch) (turn : Turn)
  | checkIdle
  | idleCalling (entry : ℕ)
  | turnEnd
  deriving DecidableEq, Repr

structure Delivery where
  polled : ℕ
  watch : ℕ
  registered : Bool
  result : Result
  revents : Revents
  deriving DecidableEq, Repr

structure Removal where
  own : ℕ
  removed : Option ℕ
  deriving DecidableEq, Repr

structure Stop where
  run : ℕ
  quit : Option ℕ
  deriving DecidableEq, Repr

/-- Observations that the code does not make. `watches` and `idles` number the calls of
`AddWatch` and `AddIdle`; `late` says that a turn began although a `Quit` had returned `true`.
The tokens written by calls, those written at the end of a turn and those read are counted. -/
structure History where
  watches : ℕ := 0
  deliveries : List Delivery := []
  removals : List Removal := []
  idles : ℕ := 0
  invoked : List (ℕ × Bool) := []
  runs : ℕ := 0
  clearedBy : Option ℕ := none
  returned : List ℕ := []
  stops : List Stop := []
  late : Bool := false
  calls : ℕ := 0
  rounds : ℕ := 0
  reads : ℕ := 0
  deriving DecidableEq, Repr

/-- `tested` and `cleared` are the calls of `Quit` that have passed its test, and those that
have also cleared the flag and not yet written the token. -/
structure State where
  isRunning : Bool := false
  watchTable : Map ℕ Watch := ∅
  idleTable : List ℕ := []
  timeoutTable : List ℕ := []
  armed : List ℕ := []
  identifier : ℕ := 2
  idlePipe : List IdleToken := []
  timeoutPipe : List TimeoutToken := []
  control : Control := .stopped
  tested : List ℕ := []
  cleared : List ℕ := []
  history : History := {}
  deriving DecidableEq

inductive Event where
  | run
  | whileTest
  | poll (revents : ℕ → Option Revents)
  | interrupted
  | readTimeout
  | timeoutReturns (remove set : Bool)
  | checkWatch
  | callWatch
  | watchReturns (remove : Bool)
  | readIdle
  | idleReturns (remove : Bool)
  | endTurn
  | addIdle
  | addWatch (fd : ℕ)
  | removeWatch (fd : ℕ)
  | addTimeout (set : Bool)
  | removeTimeout (id : ℕ)
  | expire (id : ℕ)
  | quitTest
  | quitClear (run : ℕ)
  | quitWrite (run : ℕ)

namespace State

def snapshot (s : State) : List (ℕ × ℕ) :=
  (s.watchTable.entries.map fun p => (p.1, p.2.serial)).insertionSort fun a b => a.1 ≤ b.1

def addIdle (s : State) : State :=
  { s with
    idleTable := s.idleTable ++ [s.history.idles]
    idlePipe := s.idlePipe ++ [.idle]
    history := { s.history with idles := s.history.idles + 1, calls := s.history.calls + 1 } }

def addWatch (s : State) (fd : ℕ) : State :=
  { s with
    watchTable :=
      if fd ∈ s.watchTable then s.watchTable
      else s.watchTable.insert fd ⟨s.history.watches, .okay⟩
    idlePipe := s.idlePipe ++ [.ping]
    history := { s.history with watches := s.history.watches + 1, calls := s.history.calls + 1 } }

def removeWatch (s : State) (fd : ℕ) : State :=
  if fd ∈ s.watchTable then
    { s with
      watchTable := s.watchTable.erase fd
      idlePipe := s.idlePipe ++ [.ping]
      history := { s.history with calls := s.history.calls + 1 } }
  else s

def removeTimeout (s : State) (id : ℕ) : State :=
  { s with
    timeoutTable := s.timeoutTable.filter (· ≠ id)
    armed := if id ∈ s.timeoutTable then s.armed.filter (· ≠ id) else s.armed }

def addTimeout (s : State) (set : Bool) : State :=
  if set then
    { s with
      timeoutTable := s.timeoutTable ++ [s.identifier]
      armed := s.armed ++ [s.identifier]
      identifier := s.identifier + 1 }
  else s

def stop (s : State) (quit : Option ℕ) : State :=
  { s with
    control := .stopped
    history := { s.history with stops := s.history.stops ++ [⟨s.history.runs, quit⟩] } }

def polled (s : State) (fds : List (ℕ × ℕ)) (revents : ℕ → Option Revents) : Turn where
  pending := fds.filterMap fun p => (revents p.1).map fun r => ⟨p.1, p.2, r⟩
  idleReady := !s.idlePipe.isEmpty

def Registered (s : State) (fd : ℕ) (w : Watch) : Prop :=
  (s.watchTable.lookup fd).map Watch.serial = some w.serial

instance (s : State) (fd : ℕ) (w : Watch) : Decidable (s.Registered fd w) :=
  inferInstanceAs (Decidable (_ = _))

end State

/-- `cb_data->result` is set for a hangup or an error and otherwise left as it is. -/
def Watch.resultFor (w : Watch) (r : Revents) : Result :=
  if r.hangup then .hangup else if r.error then .error else w.result

def Revents.result (r : Revents) : Result :=
  if r.hangup then .hangup else if r.error then .error else .okay

def step (s : State) : Event → Option State
  | .run =>
    if s.control = .stopped then
      some { s with
        isRunning := true
        control := .test
        history := { s.history with runs := s.history.runs + 1 } }
    else none
  | .whileTest =>
    if s.control = .test then
      if s.isRunning then
        some { s with
          control := .poll s.snapshot
          history := { s.history with
            late := s.history.late || s.history.returned.contains s.history.runs } }
      else some (s.stop s.history.clearedBy)
    else none
  | .poll revents =>
    match s.control with
    | .poll fds =>
      let turn := s.polled fds revents
      some { s with
        control := if s.timeoutPipe.isEmpty then .checkWatch turn else .checkTimeout turn }
    | _ => none
  | .interrupted =>
    match s.control with
    | .poll _ => some { s with control := .turnEnd }
    | _ => none
  | .readTimeout =>
    match s.control, s.timeoutPipe with
    | .checkTimeout turn, [] => some { s with control := .checkWatch turn }
    | .checkTimeout _, .quit run :: rest => some ({ s with timeoutPipe := rest }.stop (some run))
    | .checkTimeout turn, .timeout id :: rest =>
      some { s with
        timeoutPipe := rest
        control := if id ∈ s.timeoutTable then .timeoutCalling id turn else .checkTimeout turn }
    | _, _ => none
  -- A timer that cannot be set again makes `Run` return.
  | .timeoutReturns remove set =>
    match s.control with
    | .timeoutCalling id turn =>
      if remove then
        some { s.removeTimeout id with control := .checkTimeout { turn with handled := true } }
      else if set then
        some { s with
          armed := s.armed ++ [id]
          control := .checkTimeout { turn with handled := true } }
      else some (s.stop none)
    | _ => none
  | .checkWatch =>
    match s.control with
    | .checkWatch ⟨handled, [], idleReady⟩ =>
      some { s with control := if !handled && idleReady then .checkIdle else .turnEnd }
    | .checkWatch ⟨handled, p :: rest, idleReady⟩ =>
      match s.watchTable.lookup p.fd with
      | none => some { s with control := .checkWatch ⟨handled, rest, idleReady⟩ }
      | some w => some { s with control := .watchFound p w ⟨handled, rest, idleReady⟩ }
    | _ => none
  | .callWatch =>
    match s.control with
    | .watchFound p w turn =>
      let called : Watch := { w with result := w.resultFor p.revents }
      some { s with
        watchTable :=
          if s.Registered p.fd w then s.watchTable.insert p.fd called else s.watchTable
        control := .watchCalling p called turn
        history := { s.history with
          deliveries := s.history.deliveries ++
            [⟨p.polled, w.serial, s.Registered p.fd w, called.result, p.revents⟩] } }
    | _ => none
  | .watchReturns remove =>
    match s.control with
    | .watchCalling p w turn =>
      let t := if remove then s.removeWatch p.fd else s
      some { t with
        control := .checkWatch { turn with handled := true }
        history := { t.history with
          removals := s.history.removals ++
            if remove then [⟨w.serial, (s.watchTable.lookup p.fd).map Watch.serial⟩] else [] } }
    | _ => none
  | .readIdle =>
    match s.control with
    | .checkIdle =>
      match s.idlePipe with
      | [] => some { s with control := .turnEnd }
      | token :: rest =>
        some { s with
          idlePipe := rest
          control :=
            match token, s.idleTable with
            | .idle, entry :: _ => .idleCalling entry
            | _, _ => .turnEnd
          history := { s.history with reads := s.history.reads + 1 } }
    | _ => none
  | .idleReturns remove =>
    match s.control with
    | .idleCalling entry =>
      some { s with
        idleTable := if remove then s.idleTable.tail else s.idleTable
        control := .turnEnd
        history := { s.history with invoked := s.history.invoked ++ [(entry, remove)] } }
    | _ => none
  | .endTurn =>
    if s.control = .turnEnd then
      if s.idleTable.isEmpty then some { s with control := .test }
      else
        some { s with
          idlePipe := s.idlePipe ++ [.idle]
          control := .test
          history := { s.history with rounds := s.history.rounds + 1 } }
    else none
  | .addIdle => some s.addIdle
  | .addWatch fd => some (s.addWatch fd)
  | .removeWatch fd => some (s.removeWatch fd)
  | .addTimeout set => some (s.addTimeout set)
  | .removeTimeout id => some (s.removeTimeout id)
  | .expire id =>
    if id ∈ s.armed then
      some { s with
        armed := s.armed.filter (· ≠ id)
        timeoutPipe := s.timeoutPipe ++ [.timeout id] }
    else none
  | .quitTest =>
    if s.isRunning then some { s with tested := s.tested ++ [s.history.runs] } else some s
  | .quitClear run =>
    if run ∈ s.tested then
      some { s with
        isRunning := false
        tested := s.tested.erase run
        cleared := s.cleared ++ [run]
        history := { s.history with clearedBy := some run } }
    else none
  | .quitWrite run =>
    if run ∈ s.cleared then
      some { s with
        cleared := s.cleared.erase run
        timeoutPipe := s.timeoutPipe ++ [.quit run]
        history := { s.history with returned := s.history.returned ++ [run] } }
    else none

def machine : Machine State Event := ⟨{}, step⟩

inductive Step (s : State) : Event → State → Prop where
  | run (hc : s.control = .stopped) :
    Step s .run { s with
      isRunning := true
      control := .test
      history := { s.history with runs := s.history.runs + 1 } }
  | beginTurn (hc : s.control = .test) (hr : s.isRunning = true) :
    Step s .whileTest { s with
      control := .poll s.snapshot
      history := { s.history with
        late := s.history.late || s.history.returned.contains s.history.runs } }
  | leave (hc : s.control = .test) (hr : s.isRunning = false) :
    Step s .whileTest (s.stop s.history.clearedBy)
  | pollTimeout {fds} (hc : s.control = .poll fds) (revents : ℕ → Option Revents)
      (hp : s.timeoutPipe ≠ []) :
    Step s (.poll revents) { s with control := .checkTimeout (s.polled fds revents) }
  | pollWatch {fds} (hc : s.control = .poll fds) (revents : ℕ → Option Revents)
      (hp : s.timeoutPipe = []) :
    Step s (.poll revents) { s with control := .checkWatch (s.polled fds revents) }
  | interrupted {fds} (hc : s.control = .poll fds) :
    Step s .interrupted { s with control := .turnEnd }
  | timeoutsRead {turn} (hc : s.control = .checkTimeout turn) (hp : s.timeoutPipe = []) :
    Step s .readTimeout { s with control := .checkWatch turn }
  | readQuit {turn run rest} (hc : s.control = .checkTimeout turn)
      (hp : s.timeoutPipe = .quit run :: rest) :
    Step s .readTimeout ({ s with timeoutPipe := rest }.stop (some run))
  | readKnown {turn id rest} (hc : s.control = .checkTimeout turn)
      (hp : s.timeoutPipe = .timeout id :: rest) (hm : id ∈ s.timeoutTable) :
    Step s .readTimeout { s with timeoutPipe := rest, control := .timeoutCalling id turn }
  | readUnknown {turn id rest} (hc : s.control = .checkTimeout turn)
      (hp : s.timeoutPipe = .timeout id :: rest) (hm : id ∉ s.timeoutTable) :
    Step s .readTimeout { s with timeoutPipe := rest, control := .checkTimeout turn }
  | timeoutRemoved {id turn} (hc : s.control = .timeoutCalling id turn) (set : Bool) :
    Step s (.timeoutReturns true set)
      { s.removeTimeout id with control := .checkTimeout { turn with handled := true } }
  | timeoutContinues {id turn} (hc : s.control = .timeoutCalling id turn) :
    Step s (.timeoutReturns false true) { s with
      armed := s.armed ++ [id]
      control := .checkTimeout { turn with handled := true } }
  | timeoutFails {id turn} (hc : s.control = .timeoutCalling id turn) :
    Step s (.timeoutReturns false false) (s.stop none)
  | watchesIdle {handled idleReady} (hc : s.control = .checkWatch ⟨handled, [], idleReady⟩)
      (hi : (!handled && idleReady) = true) :
    Step s .checkWatch { s with control := .checkIdle }
  | watchesDone {handled idleReady} (hc : s.control = .checkWatch ⟨handled, [], idleReady⟩)
      (hi : (!handled && idleReady) = false) :
    Step s .checkWatch { s with control := .turnEnd }
  | watchGone {handled p rest idleReady}
      (hc : s.control = .checkWatch ⟨handled, p :: rest, idleReady⟩)
      (hl : s.watchTable.lookup p.fd = none) :
    Step s .checkWatch { s with control := .checkWatch ⟨handled, rest, idleReady⟩ }
  | watchFound {handled p rest idleReady w}
      (hc : s.control = .checkWatch ⟨handled, p :: rest, idleReady⟩)
      (hl : s.watchTable.lookup p.fd = some w) :
    Step s .checkWatch { s with control := .watchFound p w ⟨handled, rest, idleReady⟩ }
  | callWatch {p w turn} (hc : s.control = .watchFound p w turn) :
    Step s .callWatch { s with
      watchTable :=
        if s.Registered p.fd w then
          s.watchTable.insert p.fd { w with result := w.resultFor p.revents }
        else s.watchTable
      control := .watchCalling p { w with result := w.resultFor p.revents } turn
      history := { s.history with
        deliveries := s.history.deliveries ++
          [⟨p.polled, w.serial, s.Registered p.fd w, w.resultFor p.revents, p.revents⟩] } }
  | watchContinues {p w turn} (hc : s.control = .watchCalling p w turn) :
    Step s (.watchReturns false) { s with control := .checkWatch { turn with handled := true } }
  | watchRemoves {p w turn} (hc : s.control = .watchCalling p w turn) :
    Step s (.watchReturns true) { s.removeWatch p.fd with
      control := .checkWatch { turn with handled := true }
      history := { (s.removeWatch p.fd).history with
        removals := s.history.removals ++
          [⟨w.serial, (s.watchTable.lookup p.fd).map Watch.serial⟩] } }
  | readNothing (hc : s.control = .checkIdle) (hp : s.idlePipe = []) :
    Step s .readIdle { s with control := .turnEnd }
  | readIdle {entry rest entries} (hc : s.control = .checkIdle) (hp : s.idlePipe = .idle :: rest)
      (ht : s.idleTable = entry :: entries) :
    Step s .readIdle { s with
      idlePipe := rest
      control := .idleCalling entry
      history := { s.history with reads := s.history.reads + 1 } }
  | readOther {token rest} (hc : s.control = .checkIdle) (hp : s.idlePipe = token :: rest)
      (ht : token = .ping ∨ s.idleTable = []) :
    Step s .readIdle { s with
      idlePipe := rest
      control := .turnEnd
      history := { s.history with reads := s.history.reads + 1 } }
  | idleReturns {entry} (hc : s.control = .idleCalling entry) (remove : Bool) :
    Step s (.idleReturns remove) { s with
      idleTable := if remove then s.idleTable.tail else s.idleTable
      control := .turnEnd
      history := { s.history with invoked := s.history.invoked ++ [(entry, remove)] } }
  | endEmpty (hc : s.control = .turnEnd) (ht : s.idleTable = []) :
    Step s .endTurn { s with control := .test }
  | endWaiting (hc : s.control = .turnEnd) (ht : s.idleTable ≠ []) :
    Step s .endTurn { s with
      idlePipe := s.idlePipe ++ [.idle]
      control := .test
      history := { s.history with rounds := s.history.rounds + 1 } }
  | addIdle : Step s .addIdle s.addIdle
  | addWatch (fd : ℕ) : Step s (.addWatch fd) (s.addWatch fd)
  | removeWatch (fd : ℕ) : Step s (.removeWatch fd) (s.removeWatch fd)
  | addTimeout (set : Bool) : Step s (.addTimeout set) (s.addTimeout set)
  | removeTimeout (id : ℕ) : Step s (.removeTimeout id) (s.removeTimeout id)
  | expire {id} (hm : id ∈ s.armed) :
    Step s (.expire id) { s with
      armed := s.armed.filter (· ≠ id)
      timeoutPipe := s.timeoutPipe ++ [.timeout id] }
  | quitRefused (hr : s.isRunning = false) : Step s .quitTest s
  | quitTested (hr : s.isRunning = true) :
    Step s .quitTest { s with tested := s.tested ++ [s.history.runs] }
  | quitClear {run} (hm : run ∈ s.tested) :
    Step s (.quitClear run) { s with
      isRunning := false
      tested := s.tested.erase run
      cleared := s.cleared ++ [run]
      history := { s.history with clearedBy := some run } }
  | quitWrite {run} (hm : run ∈ s.cleared) :
    Step s (.quitWrite run) { s with
      cleared := s.cleared.erase run
      timeoutPipe := s.timeoutPipe ++ [.quit run]
      history := { s.history with returned := s.history.returned ++ [run] } }

theorem step_cases {s t : State} {e : Event} (h : step s e = some t) : Step s e t := by
  cases e with
  | run =>
    simp only [step] at h
    split at h
    case isFalse => cases h
    obtain rfl := Option.some.inj h
    exact .run ‹_›
  | whileTest =>
    simp only [step] at h
    split at h
    case isFalse => cases h
    split at h
    · obtain rfl := Option.some.inj h
      exact .beginTurn ‹_› ‹_›
    · obtain rfl := Option.some.inj h
      exact .leave ‹_› (Bool.eq_false_iff.mpr ‹_›)
  | poll revents =>
    simp only [step] at h
    split at h
    case h_2 => cases h
    obtain rfl := Option.some.inj h
    by_cases hp : s.timeoutPipe = []
    · rw [if_pos (List.isEmpty_iff.mpr hp)]
      exact .pollWatch ‹_› revents hp
    · rw [if_neg fun he => hp (List.isEmpty_iff.mp he)]
      exact .pollTimeout ‹_› revents hp
  | interrupted =>
    simp only [step] at h
    split at h
    case h_2 => cases h
    obtain rfl := Option.some.inj h
    exact .interrupted ‹_›
  | readTimeout =>
    simp only [step] at h
    split at h
    · obtain rfl := Option.some.inj h
      exact .timeoutsRead ‹_› ‹_›
    · obtain rfl := Option.some.inj h
      exact .readQuit ‹_› ‹_›
    · obtain rfl := Option.some.inj h
      split
      · exact .readKnown ‹_› ‹_› ‹_›
      · exact .readUnknown ‹_› ‹_› ‹_›
    · cases h
  | timeoutReturns remove set =>
    simp only [step] at h
    split at h
    case h_2 => cases h
    cases remove with
    | true =>
      obtain rfl := Option.some.inj h
      exact .timeoutRemoved ‹_› set
    | false =>
      cases set with
      | true =>
        obtain rfl := Option.some.inj h
        exact .timeoutContinues ‹_›
      | false =>
        obtain rfl := Option.some.inj h
        exact .timeoutFails ‹_›
  | checkWatch =>
    simp only [step] at h
    split at h
    · obtain rfl := Option.some.inj h
      split
      · exact .watchesIdle ‹_› ‹_›
      · exact .watchesDone ‹_› (Bool.eq_false_iff.mpr ‹_›)
    · split at h
      · obtain rfl := Option.some.inj h
        exact .watchGone ‹_› ‹_›
      · obtain rfl := Option.some.inj h
        exact .watchFound ‹_› ‹_›
    · cases h
  | callWatch =>
    simp only [step] at h
    split at h
    case h_2 => cases h
    obtain rfl := Option.some.inj h
    exact .callWatch ‹_›
  | watchReturns remove =>
    simp only [step] at h
    split at h
    case h_2 => cases h
    cases remove with
    | true =>
      obtain rfl := Option.some.inj h
      exact .watchRemoves ‹_›
    | false =>
      obtain rfl := Option.some.inj h
      simp only [Bool.false_eq_true, if_false, List.append_nil]
      exact .watchContinues ‹_›
  | readIdle =>
    simp only [step] at h
    split at h
    case h_2 => cases h
    split at h
    · obtain rfl := Option.some.inj h
      exact .readNothing ‹_› ‹_›
    · obtain rfl := Option.some.inj h
      split
      · exact .readIdle ‹_› ‹_› ‹_›
      case h_2 token _ _ _ hne =>
        refine .readOther ‹_› ‹_› ?_
        cases token with
        | ping => exact .inl rfl
        | idle =>
          right
          cases ht : s.idleTable with
          | nil => rfl
          | cons x xs => exact absurd ht (hne x xs rfl)
  | idleReturns remove =>
    simp only [step] at h
    split at h
    case h_2 => cases h
    obtain rfl := Option.some.inj h
    exact .idleReturns ‹_› remove
  | endTurn =>
    simp only [step] at h
    split at h
    case isFalse => cases h
    split at h
    · obtain rfl := Option.some.inj h
      exact .endEmpty ‹_› (List.isEmpty_iff.mp ‹_›)
    case isFalse he =>
      obtain rfl := Option.some.inj h
      exact .endWaiting ‹_› fun hn => he (List.isEmpty_iff.mpr hn)
  | addIdle =>
    obtain rfl := Option.some.inj h
    exact .addIdle
  | addWatch fd =>
    obtain rfl := Option.some.inj h
    exact .addWatch fd
  | removeWatch fd =>
    obtain rfl := Option.some.inj h
    exact .removeWatch fd
  | addTimeout set =>
    obtain rfl := Option.some.inj h
    exact .addTimeout set
  | removeTimeout id =>
    obtain rfl := Option.some.inj h
    exact .removeTimeout id
  | expire id =>
    simp only [step] at h
    split at h
    case isFalse => cases h
    obtain rfl := Option.some.inj h
    exact .expire ‹_›
  | quitTest =>
    simp only [step] at h
    split at h
    · obtain rfl := Option.some.inj h
      exact .quitTested ‹_›
    · obtain rfl := Option.some.inj h
      exact .quitRefused (Bool.eq_false_iff.mpr ‹_›)
  | quitClear run =>
    simp only [step] at h
    split at h
    case isFalse => cases h
    obtain rfl := Option.some.inj h
    exact .quitClear ‹_›
  | quitWrite run =>
    simp only [step] at h
    split at h
    case isFalse => cases h
    obtain rfl := Option.some.inj h
    exact .quitWrite ‹_›

end MainLoopRun
