import Aitt.MainLoopRun

/-! How full the idle pipe gets. Its write end blocks, and `AddIdle`, `AddWatch` and
`RemoveWatch` write while they hold `table_lock`, which the loop needs before it can read. -/
namespace MainLoopPipe

open NestedMaps TransitionRuns MainLoopRun

def capacity : ℕ := 65536 / 4

def Writes (s : State) : Event → Prop
  | .addIdle => True
  | .addWatch _ => True
  | .removeWatch fd => fd ∈ s.watchTable
  | .watchReturns true => ∃ p w turn, s.control = .watchCalling p w turn ∧ p.fd ∈ s.watchTable
  | .endTurn => s.idleTable ≠ []
  | _ => False

/-- The calls that write, and the turns that end with callbacks waiting, are ahead of the turns
that read by less than the pipe holds. -/
def Ok (s : State) (e : Event) : Prop :=
  Writes s e → s.history.calls + s.history.rounds + 1 < s.history.reads + capacity

instance (s : State) (e : Event) : Decidable (Writes s e) :=
  match e with
  | .addIdle => isTrue trivial
  | .addWatch _ => isTrue trivial
  | .removeWatch _ => inferInstanceAs (Decidable (_ ∈ _))
  | .watchReturns true =>
    match hc : s.control with
    | .watchCalling p w turn =>
      if hm : p.fd ∈ s.watchTable then isTrue ⟨p, w, turn, hc, hm⟩
      else isFalse (by
        rintro ⟨p', w', turn', hc', hm'⟩
        rw [hc] at hc'
        cases hc'
        exact hm hm')
    | .stopped | .test | .poll _ | .checkTimeout _ | .timeoutCalling _ _ | .checkWatch _
    | .watchFound _ _ _ | .checkIdle | .idleCalling _ | .turnEnd => isFalse (by
        rintro ⟨p', w', turn', hc', -⟩
        rw [hc] at hc'
        cases hc')
  | .endTurn => inferInstanceAs (Decidable (¬ _))
  | .run | .whileTest | .poll _ | .interrupted | .readTimeout | .timeoutReturns _ _ | .checkWatch
  | .callWatch | .watchReturns false | .readIdle | .idleReturns _ | .addTimeout _
  | .removeTimeout _ | .expire _ | .quitTest | .quitClear _ | .quitWrite _ => isFalse id

instance (s : State) (e : Event) : Decidable (Ok s e) :=
  inferInstanceAs (Decidable (_ → _))

def Balanced (s : State) : Prop :=
  s.idlePipe.length + s.history.reads = s.history.calls + s.history.rounds

variable {s t : State} {e : Event}

/-- What a step does to the counts: it reads one token, or writes one, or does neither. -/
theorem balanced_step (h : Balanced s) (hs : Step s e t) :
    Balanced t ∧ (t.idlePipe.length = s.idlePipe.length + 1 ∧ Writes s e ∨
      t.idlePipe.length ≤ s.idlePipe.length ∧ ¬ Writes s e) := by
  unfold Balanced at *
  cases hs
  case readIdle hc hp ht =>
    simp only [hp, List.length_cons] at h ⊢
    exact ⟨by omega, .inr ⟨by omega, id⟩⟩
  case readOther hc hp ht =>
    simp only [hp, List.length_cons] at h ⊢
    exact ⟨by omega, .inr ⟨by omega, id⟩⟩
  case endEmpty hc ht => exact ⟨h, .inr ⟨le_rfl, fun hw => hw ht⟩⟩
  case endWaiting hc ht =>
    simp only [List.length_append, List.length_singleton]
    exact ⟨by omega, .inl ⟨trivial, ht⟩⟩
  case addIdle =>
    simp only [State.addIdle, List.length_append, List.length_singleton]
    exact ⟨by omega, .inl ⟨trivial, trivial⟩⟩
  case addWatch fd =>
    simp only [State.addWatch, List.length_append, List.length_singleton]
    exact ⟨by omega, .inl ⟨trivial, trivial⟩⟩
  case removeWatch fd =>
    unfold State.removeWatch
    split
    case isTrue hm =>
      simp only [List.length_append, List.length_singleton]
      exact ⟨by omega, .inl ⟨trivial, hm⟩⟩
    case isFalse hm => exact ⟨h, .inr ⟨le_rfl, hm⟩⟩
  case watchRemoves p w turn hc =>
    unfold State.removeWatch
    split
    case isTrue hm =>
      simp only [List.length_append, List.length_singleton]
      exact ⟨by omega, .inl ⟨trivial, p, w, turn, hc, hm⟩⟩
    case isFalse hm =>
      refine ⟨h, .inr ⟨le_rfl, ?_⟩⟩
      rintro ⟨p', w', turn', hc', hm'⟩
      rw [hc] at hc'
      cases hc'
      exact hm hm'
  case addTimeout set =>
    unfold State.addTimeout
    split
    · exact ⟨h, .inr ⟨le_rfl, id⟩⟩
    · exact ⟨h, .inr ⟨le_rfl, id⟩⟩
  all_goals exact ⟨h, .inr ⟨le_rfl, id⟩⟩

structure Invariant (s : State) : Prop where
  balanced : Balanced s
  room : s.idlePipe.length < capacity

theorem Invariant.step (h : Invariant s) (ho : Ok s e) (hs : Step s e t) : Invariant t := by
  obtain ⟨hb, hw | hw⟩ := balanced_step h.balanced hs
  · refine ⟨hb, ?_⟩
    have hlt := ho hw.2
    have hbal := h.balanced
    unfold Balanced at hbal
    omega
  · exact ⟨hb, lt_of_le_of_lt hw.1 h.room⟩

/-- The number of unread tokens stays below the capacity as long as the writes do not run away
from the reads, and reaches it with the first write that does. -/
theorem idle_pipe_never_fills (h : machine.Reaches Ok s) :
    s.idlePipe.length < capacity ∧
    ∀ e t, MainLoopRun.step s e = some t → ¬ Ok s e → t.idlePipe.length = capacity := by
  have hinv : Invariant s := h.invariant ⟨rfl, by decide⟩
    fun _ _ _ _ hi ho hs => hi.step ho (step_cases hs)
  refine ⟨hinv.room, fun e t hs ho => ?_⟩
  obtain ⟨hw, hge⟩ := Classical.not_imp.mp ho
  obtain ⟨-, hlen | hlen⟩ := balanced_step hinv.balanced (step_cases hs)
  · have hbal := hinv.balanced
    have hroom := hinv.room
    unfold Balanced at hbal
    omega
  · exact absurd hw hlen.2

def oneOfEach : List Event :=
  [.addWatch 7, .addIdle, .removeWatch 7, .run, .whileTest, .poll fun _ => none, .checkWatch,
    .readIdle, .endTurn, .whileTest, .poll fun _ => none, .checkWatch, .readIdle,
    .idleReturns true, .endTurn]

theorem idle_pipe_never_fills_in_a_short_run :
    ∃ s, machine.Reaches Ok s ∧ s.idlePipe = [.ping, .idle] ∧ s.idlePipe.length < capacity := by
  obtain ⟨s, hr, hp⟩ := machine.exists_reaches Ok oneOfEach
    (fun s => s.idlePipe = [.ping, .idle]) (by decide)
  exact ⟨s, hr, of_decide_eq_true hp, (idle_pipe_never_fills hr).1⟩

/-- What an event can add: a call its token, and a turn that does not come to the idle pipe,
because it handles another event or its `poll` is interrupted, the token of its end. -/
def cost : Event → ℕ
  | .addIdle | .addWatch _ | .removeWatch _ | .timeoutReturns _ _ | .watchReturns false
  | .interrupted => 1
  | .watchReturns true => 2
  | _ => 0

/-- A turn that still comes to the idle pipe takes one token out for the one that its end adds. -/
def turnSlack (turn : Turn) : ℕ := if !turn.handled && turn.idleReady then 1 else 0

def slack : Control → ℕ
  | .stopped | .test | .poll _ | .checkIdle => 1
  | .checkTimeout turn | .timeoutCalling _ turn | .checkWatch turn | .watchFound _ _ turn
  | .watchCalling _ _ turn => turnSlack turn
  | .idleCalling _ | .turnEnd => 0

theorem turnSlack_le (turn : Turn) : turnSlack turn ≤ 1 := by
  unfold turnSlack
  split <;> simp

theorem slack_le (c : Control) : slack c ≤ 1 := by
  cases c <;> simp [slack, turnSlack_le]

def Charged (n : ℕ) (s : State) : Prop := s.idlePipe.length ≤ n + slack s.control

theorem Charged.le {n : ℕ} (h : Charged n s) : s.idlePipe.length ≤ n + 1 :=
  h.trans (Nat.add_le_add_left (slack_le _) n)

theorem Charged.polled {n : ℕ} (h : Charged n s) (fds : List (ℕ × ℕ))
    (revents : ℕ → Option Revents) :
    s.idlePipe.length ≤ n + turnSlack (s.polled fds revents) := by
  by_cases hp : s.idlePipe = []
  · rw [hp]
    exact Nat.zero_le _
  · have hready : turnSlack (s.polled fds revents) = 1 := by simp [turnSlack, State.polled, hp]
    rw [hready]
    exact h.le

theorem removeWatch_length (s : State) (fd : ℕ) :
    (s.removeWatch fd).idlePipe.length ≤ s.idlePipe.length + 1 := by
  unfold State.removeWatch
  split <;> simp

theorem removeWatch_control (s : State) (fd : ℕ) : (s.removeWatch fd).control = s.control := by
  unfold State.removeWatch
  split <;> rfl

theorem charged_step {n : ℕ} (h : Charged n s) (hs : Step s e t) : Charged (n + cost e) t := by
  have hle := h.le
  have hc' := h
  unfold Charged at hc' ⊢
  cases hs
  case run | beginTurn | leave => exact hle
  case pollTimeout fds hc revents _ | pollWatch fds hc revents _ => exact h.polled fds revents
  case interrupted | readQuit => exact hle
  case timeoutFails | timeoutRemoved | timeoutContinues | watchContinues =>
    simp only [State.stop, State.removeTimeout, cost, slack]
    omega
  case watchRemoves p w turn hc =>
    have hlen := removeWatch_length s p.fd
    simp only [cost]
    omega
  case timeoutsRead hc _ | readKnown hc _ _ | readUnknown hc _ _ | watchGone hc _
      | watchFound hc _ | callWatch hc | idleReturns hc _ =>
    rw [hc] at hc'
    exact hc'
  case watchesIdle => exact hle
  case watchesDone hc hi =>
    rw [hc] at hc'
    simpa [slack, turnSlack, cost, hi] using hc'
  case readNothing _ hp =>
    simp only [hp, List.length_nil]
    exact Nat.zero_le _
  case readIdle hp _ | readOther hp _ =>
    simp only [hp, List.length_cons] at hle
    exact Nat.le_of_succ_le_succ hle
  case endEmpty => exact hle
  case endWaiting hc _ =>
    rw [hc] at hc'
    simp only [List.length_append, List.length_singleton]
    exact Nat.succ_le_succ hc'
  case addIdle =>
    simp only [State.addIdle, List.length_append, List.length_singleton, cost]
    omega
  case addWatch fd =>
    simp only [State.addWatch, List.length_append, List.length_singleton, cost]
    omega
  case removeWatch fd =>
    have hlen := removeWatch_length s fd
    rw [removeWatch_control]
    simp only [cost]
    omega
  case addTimeout set =>
    unfold State.addTimeout
    split <;> exact hc'
  case removeTimeout | expire | quitRefused | quitTested | quitClear | quitWrite => exact hc'

/-- A step that writes has been charged for, or ends a turn that has not read. -/
theorem ok_of_charged {n : ℕ} (hb : Balanced s) (h : Charged n s) (hn : n + cost e + 1 < capacity)
    (hs : Step s e t) : Ok s e := by
  intro hw
  have hlen : s.idlePipe.length ≤ n + cost e := by
    cases hs
    case addIdle | addWatch | removeWatch => exact h.le
    case watchRemoves => exact Nat.le_succ_of_le h.le
    case endWaiting hc _ =>
      unfold Charged at h
      rw [hc] at h
      exact h
    case endEmpty ht => exact absurd ht hw
    all_goals exact hw.elim
  unfold Balanced at hb
  omega

/-- Counted in calls and in turns that handle other events: while these are fewer than the pipe
holds, the condition on the writes is met. -/
theorem ok_of_few {es : List Event} (he : machine.exec {} es = some t)
    (hn : (es.map cost).sum + 1 < capacity) : machine.Reaches Ok t := by
  have hall := Machine.exec_history (l := [])
    (P := fun l u => Balanced u ∧ Charged (l.map cost).sum u ∧
      ((l.map cost).sum + 1 < capacity → machine.Reaches Ok u)) he
    ⟨rfl, Nat.zero_le _, fun _ => .initial⟩ ?_
  · rw [List.nil_append] at hall
    exact hall.2.2 hn
  · rintro l u e v - ⟨hb, hcharged, hreach⟩ hstep
    have hs := step_cases hstep
    have hsum : ((l ++ [e]).map cost).sum = (l.map cost).sum + cost e := by simp
    rw [hsum]
    refine ⟨(balanced_step hb hs).1, charged_step hcharged hs, fun hlt => ?_⟩
    exact .step (hreach (by omega)) (ok_of_charged hb hcharged hlt hs) hstep

/-- Nothing is read while no thread runs the loop. -/
theorem exec_addIdle (s : State) (n : ℕ) :
    ∃ t, machine.exec s (List.replicate n .addIdle) = some t ∧ t.control = s.control ∧
      t.idlePipe.length = s.idlePipe.length + n := by
  induction n generalizing s with
  | zero => exact ⟨s, rfl, rfl, rfl⟩
  | succ n ih =>
    obtain ⟨t, he, hc, hl⟩ := ih s.addIdle
    refine ⟨t, he, hc, ?_⟩
    rw [hl, State.addIdle, List.length_append, List.length_singleton]
    omega

/-- As many calls of `AddIdle` before `Run` as the pipe has room for fill it. -/
theorem idle_pipe_fills_before_run :
    ∃ s, machine.Reachable s ∧ s.control = .stopped ∧ s.idlePipe.length = capacity := by
  obtain ⟨t, he, hc, hl⟩ := exec_addIdle {} capacity
  refine ⟨t, Machine.reachable_of_exec he, hc, ?_⟩
  rw [hl]
  exact Nat.zero_add _

end MainLoopPipe
