import Aitt.MainLoopRun

/-! The idle callbacks of the main loop. One token is read in a turn without other events, and
a turn that leaves callbacks in the queue writes one; tokens and callbacks are not one to one,
but between turns a waiting callback has a token in the pipe. -/
namespace MainLoopIdle

open NestedMaps TransitionRuns MainLoopRun

def removed (invoked : List (ℕ × Bool)) : ℕ := invoked.countP (·.2)

/-- Callbacks are called in the order in which they were added, each until it is removed: the
next one to be called is the one after those that have returned `REMOVE`. -/
def InOrder (invoked : List (ℕ × Bool)) : Prop :=
  ∀ before call after, invoked = before ++ call :: after → call.1 = removed before

def Consuming : Control → Prop
  | .idleCalling _ => True
  | .turnEnd => True
  | _ => False

structure Invariant (s : State) : Prop where
  token : ¬ Consuming s.control → s.idleTable ≠ [] → .idle ∈ s.idlePipe
  queue : (s.history.invoked.filter (·.2)).map (·.1) ++ s.idleTable = List.range s.history.idles
  order : InOrder s.history.invoked
  calling : ∀ entry, s.control = .idleCalling entry → ∃ rest, s.idleTable = entry :: rest

variable {s t : State}

theorem InOrder.append {invoked : List (ℕ × Bool)} (h : InOrder invoked) {call : ℕ × Bool}
    (hc : call.1 = removed invoked) : InOrder (invoked ++ [call]) := by
  intro before x after he
  rcases List.eq_nil_or_concat after with rfl | ⟨after, y, rfl⟩
  · obtain ⟨rfl, hx⟩ := List.append_inj' he rfl
    obtain rfl := List.head_eq_of_cons_eq hx
    exact hc
  · rw [List.concat_eq_append, ← List.cons_append, ← List.append_assoc] at he
    obtain ⟨rfl, -⟩ := List.append_inj' he rfl
    exact h before x after rfl

/-- The callback at the front of the queue is the next one in the order. -/
theorem Invariant.front (h : Invariant s) {entry : ℕ} {rest : List ℕ}
    (ht : s.idleTable = entry :: rest) : entry = removed s.history.invoked := by
  have hq := congrArg (·[removed s.history.invoked]?) h.queue
  have hlen : ((s.history.invoked.filter (·.2)).map (·.1)).length =
      removed s.history.invoked := by
    rw [List.length_map, removed, List.countP_eq_length_filter]
  simp only [ht] at hq
  rw [List.getElem?_append_right hlen.le, hlen, Nat.sub_self, List.getElem?_cons_zero] at hq
  obtain ⟨hlt, he⟩ := List.getElem?_eq_some_iff.mp hq.symm
  rw [List.getElem_range] at he
  exact he.symm

/-- Steps that leave the queue and the calls alone and put only tokens into the pipe. -/
theorem Invariant.frame (h : Invariant s) (hi : t.idleTable = s.idleTable)
    (hp : .idle ∈ s.idlePipe → .idle ∈ t.idlePipe)
    (hv : t.history.invoked = s.history.invoked) (hn : t.history.idles = s.history.idles)
    (hc : ¬ Consuming t.control → ¬ Consuming s.control)
    (hk : ∀ entry, t.control = .idleCalling entry → s.control = .idleCalling entry) :
    Invariant t where
  token hcon hne := hp (h.token (hc hcon) (hi ▸ hne))
  queue := by
    rw [hv, hn, hi]
    exact h.queue
  order := hv ▸ h.order
  calling entry he := by
    rw [hi]
    exact h.calling entry (hk entry he)

theorem invariant_initial : Invariant {} where
  token _ hne := absurd rfl hne
  queue := rfl
  order before call after he := by simp at he
  calling entry he := by cases he

theorem idle_mem_removeWatch {fd : ℕ} (h : .idle ∈ s.idlePipe) :
    .idle ∈ (s.removeWatch fd).idlePipe := by
  unfold State.removeWatch
  split
  · exact List.mem_append_left _ h
  · exact h

theorem removeWatch_eq (s : State) (fd : ℕ) :
    (s.removeWatch fd).idleTable = s.idleTable ∧ (s.removeWatch fd).control = s.control ∧
      (s.removeWatch fd).history.invoked = s.history.invoked ∧
      (s.removeWatch fd).history.idles = s.history.idles := by
  unfold State.removeWatch
  split
  · exact ⟨rfl, rfl, rfl, rfl⟩
  · exact ⟨rfl, rfl, rfl, rfl⟩

theorem Invariant.step {e : Event} (h : Invariant s) (hs : Step s e t) : Invariant t := by
  cases hs
  case readIdle entry rest entries hc hp ht =>
    refine ⟨fun hn => absurd trivial hn, h.queue, h.order, fun x hx => ?_⟩
    obtain rfl := Control.idleCalling.inj hx
    exact ⟨entries, ht⟩
  case readOther hc hp ht =>
    exact ⟨fun hn => absurd trivial hn, h.queue, h.order, nofun⟩
  case idleReturns entry hc remove =>
    obtain ⟨rest, ht⟩ := h.calling entry hc
    refine ⟨fun hn => absurd trivial hn, ?_, h.order.append (h.front ht), nofun⟩
    have hq := h.queue
    cases remove with
    | true => simpa [ht] using hq
    | false => simpa using hq
  case endEmpty hc ht => exact ⟨fun _ hne => absurd ht hne, h.queue, h.order, nofun⟩
  case endWaiting hc ht =>
    exact ⟨fun _ _ => List.mem_append_right _ (List.mem_singleton_self _), h.queue, h.order,
      nofun⟩
  case addIdle =>
    refine ⟨fun _ _ => List.mem_append_right _ (List.mem_singleton_self _), ?_, h.order,
      fun entry he => ?_⟩
    · have hq := congrArg (· ++ [s.history.idles]) h.queue
      simpa [State.addIdle, List.range_succ] using hq
    · obtain ⟨rest, ht⟩ := h.calling entry he
      exact ⟨rest ++ [s.history.idles], by simp [State.addIdle, ht]⟩
  case addWatch fd =>
    exact h.frame rfl (List.mem_append_left _) rfl rfl (fun hn => hn) (fun _ he => he)
  case removeWatch fd =>
    obtain ⟨hi, hc, hv, hn⟩ := removeWatch_eq s fd
    exact h.frame hi idle_mem_removeWatch hv hn (by rw [hc]; exact fun h => h)
      (by rw [hc]; exact fun _ he => he)
  case watchRemoves p w turn hc =>
    obtain ⟨hi, -, hv, hn⟩ := removeWatch_eq s p.fd
    exact h.frame hi idle_mem_removeWatch hv hn (by simp [hc, Consuming]) (by simp)
  case addTimeout set =>
    unfold State.addTimeout
    split
    · exact h.frame rfl (fun hp => hp) rfl rfl (fun hn => hn) (fun _ he => he)
    · exact h
  case quitRefused hr => exact h
  -- The other steps of the loop do not come near the idle pipe.
  case leave | readQuit | timeoutFails =>
    exact h.frame rfl (fun hp => hp) rfl rfl (by simp [*, Consuming]) (by simp [State.stop])
  case removeTimeout | expire | quitTested | quitClear | quitWrite =>
    exact h.frame rfl (fun hp => hp) rfl rfl (fun hn => hn) (fun _ he => he)
  all_goals exact h.frame rfl (fun hp => hp) rfl rfl (by simp [*, Consuming]) (by simp)

theorem invariant_reachable (h : machine.Reachable s) : Invariant s :=
  h.invariant invariant_initial fun _ _ _ _ hi _ hs => hi.step (step_cases hs)

def Quiet : Event → Prop
  | .poll revents => ∀ fd, revents fd = none
  | .whileTest | .checkWatch | .readIdle | .endTurn => True
  | _ => False

def quietRead : List Event := [.poll fun _ => none, .checkWatch, .readIdle]

def quietTurn : List Event := quietRead ++ [.endTurn, .whileTest]

theorem quiet_of_mem_quietTurn {e : Event} (h : e ∈ quietTurn) : Quiet e := by
  simp only [quietTurn, quietRead, List.cons_append, List.nil_append, List.mem_cons,
    List.not_mem_nil, or_false] at h
  rcases h with rfl | rfl | rfl | rfl | rfl
  · exact fun _ => rfl
  · trivial
  · trivial
  · trivial
  · trivial

section Progress

variable {fds : List (ℕ × ℕ)} {rest : List IdleToken}

theorem polled_none (s : State) (fds : List (ℕ × ℕ)) :
    s.polled fds (fun _ => none) = ⟨false, [], !s.idlePipe.isEmpty⟩ := by
  simp [State.polled]

theorem exec_quietRead (hc : s.control = .poll fds) (ht : s.timeoutPipe = [])
    (hp : s.idlePipe = .idle :: rest) {entry : ℕ} {entries : List ℕ}
    (hi : s.idleTable = entry :: entries) :
    ∃ t, machine.exec s quietRead = some t ∧ t.control = .idleCalling entry := by
  simp [quietRead, Machine.exec, machine, MainLoopRun.step, hc, ht, polled_none, hp, hi]

/-- A turn that reads a `PING` leaves one token less before the next `IDLE`. -/
theorem exec_quietTurn (hc : s.control = .poll fds) (ht : s.timeoutPipe = [])
    (hr : s.isRunning = true) (hp : s.idlePipe = .ping :: rest) (hi : s.idleTable ≠ []) :
    ∃ t, machine.exec s quietTurn = some t ∧ t.control = .poll t.snapshot ∧
      t.timeoutPipe = [] ∧ t.isRunning = true ∧ t.idlePipe = rest ++ [.idle] ∧
      t.idleTable = s.idleTable := by
  simp [quietTurn, quietRead, Machine.exec, machine, MainLoopRun.step, hc, ht, polled_none, hp,
    hi, hr, State.snapshot]

/-- With a token somewhere in the pipe the loop comes to call the front of the queue. -/
theorem exists_invocation {before after : List IdleToken} {entry : ℕ} {entries : List ℕ}
    (hc : s.control = .poll fds) (ht : s.timeoutPipe = []) (hr : s.isRunning = true)
    (hp : s.idlePipe = before ++ .idle :: after) (hi : s.idleTable = entry :: entries) :
    ∃ es t, (∀ e ∈ es, Quiet e) ∧ machine.exec s es = some t ∧ t.control = .idleCalling entry := by
  induction before generalizing s fds after with
  | nil =>
    obtain ⟨t, he, hk⟩ := exec_quietRead hc ht hp hi
    exact ⟨quietRead, t, fun e hm => quiet_of_mem_quietTurn (List.mem_append_left _ hm), he, hk⟩
  | cons token before ih =>
    cases token with
    | idle =>
      obtain ⟨t, he, hk⟩ := exec_quietRead hc ht hp hi
      exact ⟨quietRead, t, fun e hm => quiet_of_mem_quietTurn (List.mem_append_left _ hm), he, hk⟩
    | ping =>
      have hping : s.idlePipe = .ping :: (before ++ .idle :: after) := hp
      obtain ⟨u, hu, huc, hut, hur, hup, hui⟩ :=
        exec_quietTurn hc ht hr hping (by rw [hi]; exact List.cons_ne_nil _ _)
      rw [List.append_assoc, List.cons_append] at hup
      obtain ⟨es, t, hq, he, hk⟩ := ih huc hut hur hup (hui.trans hi)
      refine ⟨quietTurn ++ es, t, fun e hm => ?_, Machine.exec_append hu he, hk⟩
      rcases List.mem_append.mp hm with hm | hm
      · exact quiet_of_mem_quietTurn hm
      · exact hq e hm

end Progress

structure Idling (s : State) : Prop where
  token : ∀ fds, s.control = .poll fds → s.idleTable ≠ [] → .idle ∈ s.idlePipe
  -- A callback that waits at `poll` is called unless something else keeps the loop busy.
  woken : ∀ fds entry entries, s.control = .poll fds → s.idleTable = entry :: entries →
    s.isRunning = true → s.timeoutPipe = [] →
      ∃ es t, (∀ e ∈ es, Quiet e) ∧ machine.exec s es = some t ∧ t.control = .idleCalling entry
  called : ∀ entry, s.control = .idleCalling entry → entry = removed s.history.invoked
  order : InOrder s.history.invoked
  queue : (s.history.invoked.filter (·.2)).map (·.1) ++ s.idleTable = List.range s.history.idles

theorem idle_callbacks_in_order_without_lost_wakeup (h : machine.Reachable s) : Idling s := by
  have hi := invariant_reachable h
  have htoken : ∀ fds, s.control = .poll fds → s.idleTable ≠ [] → .idle ∈ s.idlePipe :=
    fun fds hc => hi.token (by rw [hc]; exact id)
  refine ⟨htoken, fun fds entry entries hc ht hr hp => ?_, fun entry hc => ?_, hi.order, hi.queue⟩
  · obtain ⟨before, after, hb⟩ :=
      List.append_of_mem (htoken fds hc (by rw [ht]; exact List.cons_ne_nil _ _))
    exact exists_invocation hc hp hr hb ht
  · obtain ⟨rest, ht⟩ := hi.calling entry hc
    exact hi.front ht

def twoCallbacks : List Event :=
  [.addIdle, .addWatch 7, .addIdle, .run, .whileTest, .poll fun _ => none, .checkWatch, .readIdle,
    .idleReturns false, .endTurn, .whileTest, .poll fun _ => none, .checkWatch, .readIdle,
    .endTurn, .whileTest, .poll fun _ => none, .checkWatch, .readIdle, .idleReturns true,
    .endTurn, .whileTest]

theorem idle_callbacks_in_order_after_removal :
    ∃ s, machine.Reachable s ∧ (s.history.invoked = [(0, false), (0, true)] ∧
      s.idleTable = [1] ∧ s.control = .poll [(7, 0)]) ∧ Idling s := by
  obtain ⟨s, hr, hp⟩ := machine.exists_reachable twoCallbacks
    (fun s => s.history.invoked = [(0, false), (0, true)] ∧ s.idleTable = [1] ∧
      s.control = .poll [(7, 0)]) (by decide)
  exact ⟨s, hr, of_decide_eq_true hp, idle_callbacks_in_order_without_lost_wakeup hr⟩

end MainLoopIdle
