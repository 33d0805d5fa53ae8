import Aitt.AittTypes
import Aitt.TransitionRuns

/-! The request server of the sink: one thread hands frames in, a worker thread passes them to the
application, and `Stop` wakes the worker with an element of its own. Each method of the queue is
one atomic step; the threads interleave between these steps in any order. -/
namespace WebRtcRequestServer

open AittTypes TransitionRuns

abbrev SyncQueue (α : Type*) := List α

namespace SyncQueue

variable {α : Type*}

def push (q : SyncQueue α) (data : α) : SyncQueue α := q ++ [data]

def pop : SyncQueue α → Option (SyncQueue α)
  | [] => none
  | _ :: q => some q

/-- The condition variable holds the caller back while the queue is empty. -/
def waitedFront (q : SyncQueue α) : Option α := q.head?

def wakeUpAll [Inhabited α] (q : SyncQueue α) : SyncQueue α := q ++ [default]

end SyncQueue

/-- `PushBuffer` is between its two calls on the queue when it holds a frame. -/
inductive Producer where
  | idle
  | pushing (frame : Bytes)
  deriving DecidableEq, Repr

inductive Worker where
  | looping
  | waiting
  | calling (frame : Bytes)
  | popping (frame : Bytes)
  | ended
  deriving DecidableEq, Repr

inductive Stopper where
  | notCalled
  | flagged
  | joining
  | returned
  deriving DecidableEq, Repr

structure Drop where
  frame : Bytes
  found : SyncQueue Bytes
  deriving DecidableEq, Repr

/-- The server and its threads. The last fields record what was offered to `PushBuffer`, what it
pushed and dropped, what the callback received and which elements were popped, those since
`stop_working_` apart. -/
structure Server where
  stopWorking : Bool := false
  syncQueue : SyncQueue Bytes := []
  onFrameCb : Bool := false
  producer : Producer := .idle
  worker : Worker := .looping
  stopper : Stopper := .notCalled
  offered : List Bytes := []
  pushed : List Bytes := []
  dropped : List Drop := []
  calls : List Bytes := []
  handled : List Bytes := []
  handledAfterStop : List Bytes := []
  deriving DecidableEq, Repr

inductive Event where
  | setOnFrameCallback (set : Bool)
  | pushBuffer (data : Bytes)
  | push
  | threadMain
  | stop
  deriving DecidableEq, Repr

namespace Server

def pushBuffer (s : Server) (data : Bytes) : Server :=
  if data = [] then s
  else if s.syncQueue = [] then
    { s with producer := .pushing data, offered := s.offered ++ [data] }
  else { s with offered := s.offered ++ [data], dropped := s.dropped ++ [⟨data, s.syncQueue⟩] }

def call (s : Server) (frame : Bytes) : Server :=
  if frame ≠ [] ∧ s.onFrameCb = true then
    { s with worker := .popping frame, calls := s.calls ++ [frame] }
  else { s with worker := .popping frame }

def threadMain (s : Server) : Option Server :=
  match s.worker with
  | .looping => some { s with worker := if s.stopWorking = true then .ended else .waiting }
  | .waiting => s.syncQueue.waitedFront.map fun frame => { s with worker := .calling frame }
  | .calling frame => some (s.call frame)
  | .popping _ => s.syncQueue.pop.map fun q =>
      { s with
        syncQueue := q, worker := .looping, handled := s.handled ++ s.syncQueue.take 1
        handledAfterStop :=
          if s.stopWorking = true then s.handledAfterStop ++ s.syncQueue.take 1
          else s.handledAfterStop }
  | .ended => none

def stop (s : Server) : Option Server :=
  match s.stopper with
  | .notCalled => some { s with stopWorking := true, stopper := .flagged }
  | .flagged => some { s with syncQueue := s.syncQueue.wakeUpAll, stopper := .joining }
  | .joining => if s.worker = .ended then some { s with stopper := .returned } else none
  | .returned => none

end Server

def step (s : Server) : Event → Option Server
  | .setOnFrameCallback set => some { s with onFrameCb := set }
  | .pushBuffer data =>
    match s.producer with
    | .idle => some (s.pushBuffer data)
    | .pushing _ => none
  | .push =>
    match s.producer with
    | .idle => none
    | .pushing frame =>
      some { s with
        syncQueue := s.syncQueue.push frame, producer := .idle, pushed := s.pushed ++ [frame] }
  | .threadMain => s.threadMain
  | .stop => s.stop

def machine : Machine Server Event := ⟨{}, step⟩

inductive Step (s : Server) : Server → Prop where
  | setOnFrameCallback (set : Bool) : Step s { s with onFrameCb := set }
  | ignore : Step s s
  | check {data : Bytes} (nonempty : data ≠ []) (empty : s.syncQueue = [])
      (idle : s.producer = .idle) :
      Step s { s with producer := .pushing data, offered := s.offered ++ [data] }
  | drop {data : Bytes} (found : s.syncQueue ≠ []) :
      Step s { s with
        offered := s.offered ++ [data], dropped := s.dropped ++ [⟨data, s.syncQueue⟩] }
  | push {frame : Bytes} (pushing : s.producer = .pushing frame) :
      Step s { s with
        syncQueue := s.syncQueue ++ [frame], producer := .idle, pushed := s.pushed ++ [frame] }
  | finish (looping : s.worker = .looping) (stopped : s.stopWorking = true) :
      Step s { s with worker := .ended }
  | wait (looping : s.worker = .looping) (running : s.stopWorking = false) :
      Step s { s with worker := .waiting }
  | front {frame : Bytes} {q : List Bytes} (waiting : s.worker = .waiting)
      (queue : s.syncQueue = frame :: q) : Step s { s with worker := .calling frame }
  | call {frame : Bytes} (calling : s.worker = .calling frame) (nonempty : frame ≠ []) :
      Step s { s with worker := .popping frame, calls := s.calls ++ [frame] }
  | skip {frame : Bytes} (calling : s.worker = .calling frame)
      (unset : frame ≠ [] → s.onFrameCb = false) : Step s { s with worker := .popping frame }
  | pop {frame head : Bytes} {q : List Bytes} (popping : s.worker = .popping frame)
      (queue : s.syncQueue = head :: q) :
      Step s { s with
        syncQueue := q, worker := .looping, handled := s.handled ++ [head]
        handledAfterStop :=
          if s.stopWorking = true then s.handledAfterStop ++ [head] else s.handledAfterStop }
  | flag (notCalled : s.stopper = .notCalled) :
      Step s { s with stopWorking := true, stopper := .flagged }
  | wakeUp (flagged : s.stopper = .flagged) :
      Step s { s with syncQueue := s.syncQueue ++ [[]], stopper := .joining }
  | join (joining : s.stopper = .joining) (ended : s.worker = .ended) :
      Step s { s with stopper := .returned }

theorem threadMain_step {s t : Server} (h : s.threadMain = some t) : Step s t := by
  unfold Server.threadMain at h
  split at h
  case h_1 hw =>
    cases h
    by_cases hs : s.stopWorking = true
    · rw [if_pos hs]
      exact .finish hw hs
    · rw [if_neg hs]
      exact .wait hw (by simpa using hs)
  case h_2 hw =>
    obtain ⟨frame, hf, rfl⟩ := Option.map_eq_some_iff.mp h
    obtain ⟨q, hq⟩ := List.head?_eq_some_iff.mp hf
    exact .front hw hq
  case h_3 frame hw =>
    cases h
    by_cases hc : frame ≠ [] ∧ s.onFrameCb = true
    · rw [Server.call, if_pos hc]
      exact .call hw hc.1
    · rw [Server.call, if_neg hc]
      exact .skip hw fun hf => Bool.eq_false_iff.mpr fun hcb => hc ⟨hf, hcb⟩
  case h_4 frame hw =>
    obtain ⟨q, hp, rfl⟩ := Option.map_eq_some_iff.mp h
    cases hq : s.syncQueue with
    | nil => simp [hq, SyncQueue.pop] at hp
    | cons head rest =>
      rw [hq] at hp
      cases hp
      exact .pop hw hq
  case h_5 => cases h

theorem stop_step {s t : Server} (h : s.stop = some t) : Step s t := by
  unfold Server.stop at h
  split at h
  case h_1 hs => cases h; exact .flag hs
  case h_2 hs => cases h; exact .wakeUp hs
  case h_3 hs =>
    split at h
    · cases h; exact .join hs ‹_›
    · cases h
  case h_4 => cases h

theorem step_inversion {s t : Server} {e : Event} (h : step s e = some t) : Step s t := by
  cases e with
  | setOnFrameCallback set => cases h; exact .setOnFrameCallback set
  | pushBuffer data =>
    simp only [step] at h
    split at h
    · cases h
      unfold Server.pushBuffer
      split
      · exact .ignore
      · split
        · exact .check ‹_› ‹_› ‹_›
        · exact .drop ‹_›
    · cases h
  | push =>
    simp only [step] at h
    split at h
    · cases h
    · cases h; exact .push ‹_›
  | threadMain => exact threadMain_step h
  | stop => exact stop_step h

theorem reachable_of_step {I : Server → Prop} (base : I {})
    (next : ∀ s t, machine.Reachable s → I s → Step s t → I t) {s : Server}
    (h : machine.Reachable s) : I s :=
  h.invariant base fun _ _ _ hr hs _ he => next _ _ hr hs (step_inversion he)

def frames (elements : List Bytes) : List Bytes := elements.filter (· ≠ [])

@[simp] theorem frames_nil : frames [] = [] := by simp [frames]

@[simp] theorem frames_append (l l' : List Bytes) : frames (l ++ l') = frames l ++ frames l' := by
  simp [frames]

@[simp] theorem frames_wakeUp (l : List Bytes) : frames ([] :: l) = frames l := by simp [frames]

theorem frames_cons {f : Bytes} (h : f ≠ []) (l : List Bytes) :
    frames (f :: l) = f :: frames l := by simp [frames, h]

def Worker.frame : Worker → List Bytes
  | .calling f | .popping f => [f]
  | .looping | .waiting | .ended => []

def Worker.called : Worker → List Bytes
  | .popping f => [f]
  | .looping | .waiting | .calling _ | .ended => []

def Worker.busy : Worker → ℕ
  | .waiting | .calling _ | .popping _ => 1
  | .looping | .ended => 0

def Producer.frame : Producer → List Bytes
  | .idle => []
  | .pushing f => [f]

structure Ordered (s : Server) : Prop where
  front : s.worker.frame <+: s.syncQueue
  order : frames (s.handled ++ s.syncQueue) = s.pushed
  calls : s.calls.Sublist (frames (s.handled ++ s.worker.called))
  nonempty : ∀ f ∈ s.producer.frame, f ≠ []

theorem ordered_step {s t : Server} (h : Ordered s) (hs : Step s t) : Ordered t := by
  obtain ⟨front, order, calls, nonempty⟩ := h
  cases hs with
  | setOnFrameCallback _ => exact ⟨front, order, calls, nonempty⟩
  | ignore => exact ⟨front, order, calls, nonempty⟩
  | @check data hd _ _ => exact ⟨front, order, calls, by simpa [Producer.frame] using hd⟩
  | drop _ => exact ⟨front, order, calls, nonempty⟩
  | @push frame hp =>
    have hf : frame ≠ [] := nonempty frame (by simp [hp, Producer.frame])
    refine ⟨front.trans (List.prefix_append _ _), ?_, calls, by simp [Producer.frame]⟩
    rw [← List.append_assoc, frames_append, order, frames_cons hf, frames_nil]
  | finish hw _ =>
    exact ⟨List.nil_prefix, order, by simpa [hw, Worker.called] using calls, nonempty⟩
  | wait hw _ =>
    exact ⟨List.nil_prefix, order, by simpa [hw, Worker.called] using calls, nonempty⟩
  | front hw hq =>
    refine ⟨?_, order, by simpa [hw, Worker.called] using calls, nonempty⟩
    simp [hq, Worker.frame]
  | @call frame hw hf =>
    refine ⟨by simpa [hw, Worker.frame] using front, order, ?_, nonempty⟩
    rw [hw] at calls
    simp only [Worker.called, frames_append, frames_cons hf, frames_nil, List.append_nil] at calls ⊢
    exact calls.append (.refl _)
  | @skip frame hw =>
    refine ⟨by simpa [hw, Worker.frame] using front, order, ?_, nonempty⟩
    rw [hw] at calls
    simp only [Worker.called, frames_append, List.append_nil] at calls ⊢
    exact calls.trans (List.sublist_append_left _ _)
  | @pop frame head q hw hq =>
    -- pushes go to the back, so the front is still the copy that the callback has seen
    have hf : frame = head := by simpa [hw, hq, Worker.frame] using front
    refine ⟨by simp [Worker.frame], ?_, ?_, nonempty⟩
    · simpa [hq] using order
    · simpa [hw, hf, Worker.called] using calls
  | flag _ => exact ⟨front, order, calls, nonempty⟩
  | wakeUp _ =>
    refine ⟨front.trans (List.prefix_append _ _), ?_, calls, nonempty⟩
    simpa using order
  | join _ _ => exact ⟨front, order, calls, nonempty⟩

theorem reachable_ordered {s : Server} (h : machine.Reachable s) : Ordered s := by
  refine reachable_of_step ?_ (fun _ _ _ => ordered_step) h
  constructor <;> simp [Worker.frame, Producer.frame]

def Stopper.wakeUps : Stopper → ℕ
  | .notCalled | .flagged => 0
  | .joining | .returned => 1

/-- A frame between the check and the push takes the one place there is. -/
structure Bounded (s : Server) : Prop where
  room : (frames s.syncQueue).length + s.producer.frame.length ≤ 1
  wakeUps : (s.handled ++ s.syncQueue).count [] = s.stopper.wakeUps

theorem bounded_step {s t : Server} (ho : Ordered s) (h : Bounded s) (hs : Step s t) :
    Bounded t := by
  obtain ⟨room, wakeUps⟩ := h
  cases hs with
  | setOnFrameCallback _ => exact ⟨room, wakeUps⟩
  | ignore => exact ⟨room, wakeUps⟩
  | check _ hq _ => exact ⟨by simp [hq, Producer.frame], wakeUps⟩
  | drop _ => exact ⟨room, wakeUps⟩
  | @push frame hp =>
    have hf : frame ≠ [] := ho.nonempty frame (by simp [hp, Producer.frame])
    rw [hp] at room
    constructor
    · simpa [frames_cons hf, Producer.frame] using room
    · simpa [List.count_cons, hf, ← Nat.add_assoc] using wakeUps
  | finish _ _ => exact ⟨room, wakeUps⟩
  | wait _ _ => exact ⟨room, wakeUps⟩
  | front _ _ => exact ⟨room, wakeUps⟩
  | call _ _ => exact ⟨room, wakeUps⟩
  | skip _ => exact ⟨room, wakeUps⟩
  | @pop frame head q _ hq =>
    rw [hq] at room wakeUps
    constructor
    · have hle : (frames q).length ≤ (frames (head :: q)).length :=
        ((List.sublist_cons_self head q).filter _).length_le
      show (frames q).length + s.producer.frame.length ≤ 1
      omega
    · simpa using wakeUps
  | flag hn => exact ⟨room, by simpa [hn, Stopper.wakeUps] using wakeUps⟩
  | wakeUp hf =>
    constructor
    · simpa using room
    · rw [hf] at wakeUps
      simp only [Stopper.wakeUps, List.count_append, List.count_cons_self, List.count_nil]
        at wakeUps ⊢
      omega
  | join hj _ => exact ⟨room, by simpa [hj, Stopper.wakeUps] using wakeUps⟩

theorem reachable_bounded {s : Server} (h : machine.Reachable s) : Bounded s := by
  refine reachable_of_step ?_ (fun _ _ hr => bounded_step (reachable_ordered hr)) h
  constructor <;> simp [Producer.frame, Stopper.wakeUps]

structure Accounted (s : Server) : Prop where
  offered : ∀ f, s.offered.count f =
    s.pushed.count f + (s.dropped.map (·.frame)).count f + s.producer.frame.count f
  dropped : ∀ d ∈ s.dropped, d.found ≠ []

theorem accounted_step {s t : Server} (h : Accounted s) (hs : Step s t) : Accounted t := by
  obtain ⟨offered, dropped⟩ := h
  cases hs with
  | check _ _ hi =>
    refine ⟨fun f => ?_, dropped⟩
    have hf := offered f
    rw [hi] at hf
    simp only [Producer.frame, List.count_append, List.count_nil] at hf ⊢
    omega
  | @drop data hq =>
    constructor
    · intro f
      have hf := offered f
      simp only [List.count_append, List.map_append, List.map_cons, List.map_nil]
      omega
    · intro d hd
      rcases List.mem_append.mp hd with hd | hd
      · exact dropped d hd
      · cases List.mem_singleton.mp hd
        exact hq
  | push hp =>
    refine ⟨fun f => ?_, dropped⟩
    have hf := offered f
    rw [hp] at hf
    simp only [Producer.frame, List.count_append, List.count_nil] at hf ⊢
    omega
  | _ => exact ⟨offered, dropped⟩

theorem reachable_accounted {s : Server} (h : machine.Reachable s) : Accounted s := by
  refine reachable_of_step ?_ (fun _ _ _ => accounted_step) h
  constructor <;> simp [Producer.frame]

/-- The flag lets the worker finish the body it is in, and the element of `WakeUpAll` lets it past
an empty queue. -/
structure Stopping (s : Server) : Prop where
  running : s.stopWorking = false → s.handledAfterStop = [] ∧ s.stopper = .notCalled
  stopping : s.stopWorking = true → s.handledAfterStop.length + s.worker.busy ≤ 1
  woken : s.stopper = .joining → s.worker = .waiting → s.syncQueue ≠ []

theorem stopping_step {s t : Server} (h : Stopping s) (hs : Step s t) : Stopping t := by
  obtain ⟨running, stopping, woken⟩ := h
  cases hs with
  | check _ hq hp => exact ⟨running, stopping, woken⟩
  | push hp => exact ⟨running, stopping, fun _ _ => by simp⟩
  | finish hw _ =>
    refine ⟨running, ?_, fun _ hn => by cases hn⟩
    simpa [hw, Worker.busy] using stopping
  | wait hw hr =>
    refine ⟨running, fun hs => ?_, fun hj => ?_⟩
    · rw [hr] at hs
      cases hs
    · rw [(running hr).2] at hj
      cases hj
  | front hw _ =>
    refine ⟨running, ?_, fun _ hn => by cases hn⟩
    simpa [hw, Worker.busy] using stopping
  | call hw _ =>
    refine ⟨running, ?_, fun _ hn => by cases hn⟩
    simpa [hw, Worker.busy] using stopping
  | skip hw =>
    refine ⟨running, ?_, fun _ hn => by cases hn⟩
    simpa [hw, Worker.busy] using stopping
  | pop hw _ =>
    refine ⟨fun hs => ?_, fun hs => ?_, fun _ hn => by cases hn⟩
    · simpa [show s.stopWorking = false from hs] using running hs
    · have hs' : s.stopWorking = true := hs
      simpa [hs', hw, Worker.busy] using stopping hs'
  | flag hn =>
    refine ⟨fun hs => (by cases hs), fun _ => ?_, fun hj => by cases hj⟩
    cases hs : s.stopWorking with
    | true => exact stopping hs
    | false =>
      -- the flag may come at any place of the loop; nothing has been popped since
      simp only [(running hs).1, List.length_nil, Nat.zero_add]
      cases s.worker <;> simp [Worker.busy]
  | wakeUp hf =>
    refine ⟨fun hs => ?_, stopping, fun _ _ => by simp⟩
    have hn := (running hs).2
    rw [hf] at hn
    cases hn
  | join hj _ =>
    refine ⟨fun hs => ?_, stopping, fun h => by cases h⟩
    have hn := (running hs).2
    rw [hj] at hn
    cases hn
  | _ => exact ⟨running, stopping, woken⟩

theorem reachable_stopping {s : Server} (h : machine.Reachable s) : Stopping s := by
  refine reachable_of_step ?_ (fun _ _ _ => stopping_step) h
  constructor <;> simp

def Worker.stepsLeft : Worker → ℕ
  | .ended => 0
  | .looping => 1
  | .popping _ => 2
  | .calling _ => 3
  | .waiting => 4

theorem threadMain_progress {s : Server} (ho : Ordered s) (hs : Stopping s)
    (hj : s.stopper = .joining) (he : s.worker ≠ .ended) :
    ∃ t, s.threadMain = some t ∧ t.worker.stepsLeft < s.worker.stepsLeft := by
  have hstop : s.stopWorking = true := by
    cases h : s.stopWorking with
    | true => rfl
    | false =>
      have hn := (hs.running h).2
      rw [hj] at hn
      cases hn
  unfold Server.threadMain
  cases hw : s.worker with
  | looping => exact ⟨_, rfl, by simp [hstop, Worker.stepsLeft]⟩
  | waiting =>
    obtain ⟨f, q, hq⟩ := List.exists_cons_of_ne_nil (hs.woken hj hw)
    exact ⟨{ s with worker := .calling f }, by simp [hq, SyncQueue.waitedFront],
      by simp [Worker.stepsLeft]⟩
  | calling f =>
    refine ⟨s.call f, rfl, ?_⟩
    have hc : (s.call f).worker = .popping f := by
      unfold Server.call
      split <;> rfl
    simp [hc, Worker.stepsLeft]
  | popping f =>
    have hf := ho.front
    rw [hw] at hf
    obtain ⟨q, hq⟩ := hf
    have hp : s.syncQueue.pop = some q := by
      rw [← hq]
      rfl
    rw [hp]
    exact ⟨_, rfl, by simp [Worker.stepsLeft]⟩
  | ended => exact absurd hw he

def PassedOn (s t : Server) : Prop :=
  ∃ fs, frames (t.handled ++ t.worker.called) = frames (s.handled ++ s.worker.called) ++ fs ∧
    t.calls = s.calls ++ fs

theorem PassedOn.refl (s : Server) : PassedOn s s := ⟨[], by simp, by simp⟩

theorem PassedOn.trans {r s t : Server} (h : PassedOn r s) (k : PassedOn s t) : PassedOn r t := by
  obtain ⟨fs, hf, hc⟩ := h
  obtain ⟨gs, kf, kc⟩ := k
  exact ⟨fs ++ gs, by rw [kf, hf, List.append_assoc], by rw [kc, hc, List.append_assoc]⟩

theorem passedOn_step {s t : Server} (ho : Ordered s) (hcb : s.onFrameCb = true) (hs : Step s t) :
    PassedOn s t := by
  cases hs with
  | finish hw _ => exact ⟨[], by simp [hw, Worker.called], by simp⟩
  | wait hw _ => exact ⟨[], by simp [hw, Worker.called], by simp⟩
  | front hw _ => exact ⟨[], by simp [hw, Worker.called], by simp⟩
  | @call frame hw hf => exact ⟨[frame], by simp [hw, Worker.called, frames_cons hf], rfl⟩
  | @skip frame hw hunset =>
    have hf : frame = [] := by
      by_contra hf
      rw [hunset hf] at hcb
      cases hcb
    exact ⟨[], by simp [hw, hf, Worker.called], by simp⟩
  | @pop frame head q hw hq =>
    have hf : frame = head := by simpa [hw, hq, Worker.frame] using ho.front
    exact ⟨[], by simp [hw, hf, Worker.called], by simp⟩
  | _ => exact .refl s

theorem Server.threadMain_onFrameCb {s t : Server} (h : s.threadMain = some t) :
    t.onFrameCb = s.onFrameCb := by
  unfold threadMain at h
  split at h
  · cases h
    rfl
  · obtain ⟨_, -, rfl⟩ := Option.map_eq_some_iff.mp h
    rfl
  · cases h
    unfold call
    split <;> rfl
  · obtain ⟨_, -, rfl⟩ := Option.map_eq_some_iff.mp h
    rfl
  · cases h

theorem step_onFrameCb {s t : Server} {e : Event} (h : step s e = some t)
    (he : e ≠ .setOnFrameCallback false) (hcb : s.onFrameCb = true) : t.onFrameCb = true := by
  cases e with
  | setOnFrameCallback set =>
    cases h
    cases set with
    | true => rfl
    | false => exact absurd rfl he
  | pushBuffer data =>
    simp only [step, Server.pushBuffer] at h
    grind
  | push =>
    simp only [step] at h
    grind
  | threadMain => rw [Server.threadMain_onFrameCb h, hcb]
  | stop =>
    simp only [step, Server.stop] at h
    grind

theorem passedOn_exec {s t : Server} {es : List Event} (hr : machine.Reachable s)
    (hcb : s.onFrameCb = true) (hes : .setOnFrameCallback false ∉ es)
    (he : machine.exec s es = some t) : PassedOn s t := by
  have hall := Machine.exec_history (l := [])
    (P := fun _ u => machine.Reachable u ∧ u.onFrameCb = true ∧ PassedOn s u) he
    ⟨hr, hcb, .refl s⟩ ?_
  · exact hall.2.2
  · rintro _ u e v hmem ⟨hu, hc, hp⟩ hstep
    have hne : e ≠ .setOnFrameCallback false := fun h => hes (h ▸ hmem)
    exact ⟨hu.step trivial hstep, step_onFrameCb hstep hne hc,
      hp.trans (passedOn_step (reachable_ordered hu) hc (step_inversion hstep))⟩

structure Disciplined (s : Server) : Prop where
  /-- `Pop` finds an element, the one the worker has handled. -/
  pop : ∀ f, s.worker = .popping f → s.syncQueue.head? = some f
  /-- What was popped and what is queued are the pushed frames, in their order. -/
  order : frames (s.handled ++ s.syncQueue) = s.pushed
  /-- While a callback is set, every frame that comes to its turn is passed to it. -/
  delivered : s.onFrameCb = true → ∀ es t, .setOnFrameCallback false ∉ es →
    machine.exec s es = some t → PassedOn s t
  frames_le : (frames s.syncQueue).length ≤ 1
  wakeUps_le : s.syncQueue.count [] ≤ s.stopper.wakeUps
  /-- The callback receives a subsequence of what was pushed. -/
  calls : s.calls.Sublist s.pushed
  offered : ∀ f, s.offered.count f =
    s.pushed.count f + (s.dropped.map (·.frame)).count f + s.producer.frame.count f
  dropped : ∀ d ∈ s.dropped, d.found ≠ []
  wakeUp_not_called : [] ∉ s.calls
  afterStop : s.stopWorking = true → s.handledAfterStop.length + s.worker.busy ≤ 1
  /-- After `WakeUpAll` the worker is never held back before it ends. -/
  ends : s.stopper = .joining → s.worker ≠ .ended →
    ∃ t, step s .threadMain = some t ∧ t.worker.stepsLeft < s.worker.stepsLeft

theorem called_prefix_frame (w : Worker) : w.called <+: w.frame := by
  cases w <;> simp [Worker.called, Worker.frame]

theorem Ordered.calls_sublist_pushed {s : Server} (h : Ordered s) : s.calls.Sublist s.pushed := by
  have hp : s.handled ++ s.worker.called <+: s.handled ++ s.syncQueue :=
    (List.prefix_append_right_inj _).mpr ((called_prefix_frame _).trans h.front)
  rw [← h.order]
  exact h.calls.trans (hp.sublist.filter _)

theorem frame_queue_disciplined {s : Server} (h : machine.Reachable s) : Disciplined s := by
  have ho := reachable_ordered h
  have hb := reachable_bounded h
  have ha := reachable_accounted h
  have hs := reachable_stopping h
  refine ⟨?_, ho.order, fun hcb es t hes he => passedOn_exec h hcb hes he, ?_, ?_,
    ho.calls_sublist_pushed, ha.offered, ha.dropped, ?_, hs.stopping, ?_⟩
  · intro f hw
    have hf := ho.front
    rw [hw] at hf
    obtain ⟨q, hq⟩ := hf
    rw [← hq]
    rfl
  · exact (Nat.le_add_right _ _).trans hb.room
  · rw [← hb.wakeUps, List.count_append]
    exact Nat.le_add_left _ _
  · intro hc
    have hf := ho.calls.subset hc
    simp [frames] at hf
  · exact threadMain_progress ho hs

/-- The second frame comes while the first is processed, and the third passes the check before
`Stop` and is pushed behind the element of `WakeUpAll`. -/
def stoppedRun : List Event :=
  [.setOnFrameCallback true, .pushBuffer [1], .push, .threadMain, .threadMain, .pushBuffer [2],
    .threadMain, .threadMain, .threadMain, .pushBuffer [3], .stop, .stop, .push, .threadMain,
    .threadMain, .threadMain, .threadMain, .stop]

theorem frame_queue_disciplined_stoppedRun : ∃ s, machine.Reachable s ∧ Disciplined s ∧
    s.calls = [[1]] ∧ s.dropped = [⟨[2], [[1]]⟩] ∧ s.syncQueue = [[3]] ∧
    s.handledAfterStop = [[]] ∧ s.stopper = .returned := by
  obtain ⟨s, hs, hp⟩ := machine.exists_reachable stoppedRun
    (fun s => decide (s.calls = [[1]] ∧ s.dropped = [⟨[2], [[1]]⟩] ∧ s.syncQueue = [[3]] ∧
      s.handledAfterStop = [[]] ∧ s.stopper = .returned)) (by decide)
  exact ⟨s, hs, frame_queue_disciplined hs, of_decide_eq_true hp⟩

end WebRtcRequestServer
