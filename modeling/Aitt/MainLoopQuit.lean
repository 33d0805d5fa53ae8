import Aitt.MainLoopRun

/-! `Run` and `Quit` of the main loop. `Quit` clears a flag and writes a token; `Run` may end by
either of them and then leaves the other one behind. -/
namespace MainLoopQuit

open NestedMaps TransitionRuns MainLoopRun

/-- Every `Run` that has returned did so for a `Quit` of its own, no turn began after such a
`Quit` had returned, and the flag is down when no `Run` is active. -/
structure Paired (s : State) : Prop where
  due : ∀ stop ∈ s.history.stops, stop.quit = some stop.run
  prompt : s.history.late = false
  quiet : s.control = .stopped → s.isRunning = false

/-- `Run` is called when no `QUIT` is left in the pipe and no `Quit` is under way, and a timer
that a callback asks to be set again can be set. -/
def Ok (s : State) : Event → Prop
  | .run => (∀ n, .quit n ∉ s.timeoutPipe) ∧ s.tested = [] ∧ s.cleared = []
  | .timeoutReturns false false => False
  | _ => True

def isQuit : TimeoutToken → Bool
  | .quit _ => true
  | .timeout _ => false

theorem any_isQuit_iff (pipe : List TimeoutToken) :
    pipe.any isQuit = false ↔ ∀ n, .quit n ∉ pipe := by
  rw [List.any_eq_false]
  constructor
  · exact fun h n hn => h _ hn rfl
  · rintro h (n | id) hm
    · exact absurd hm (h n)
    · exact Bool.false_ne_true

instance (s : State) (e : Event) : Decidable (Ok s e) :=
  match e with
  | .run => decidable_of_iff (s.timeoutPipe.any isQuit = false ∧ s.tested = [] ∧ s.cleared = [])
      (and_congr (any_isQuit_iff _) Iff.rfl)
  | .timeoutReturns false false => isFalse id
  | .timeoutReturns false true | .timeoutReturns true _ | .whileTest | .poll _ | .interrupted
  | .readTimeout | .checkWatch | .callWatch | .watchReturns _ | .readIdle | .idleReturns _
  | .endTurn | .addIdle | .addWatch _ | .removeWatch _ | .addTimeout _ | .removeTimeout _
  | .expire _ | .quitTest | .quitClear _ | .quitWrite _ => isTrue trivial

structure Invariant (s : State) : Prop where
  paired : Paired s
  tested : ∀ n ∈ s.tested, n = s.history.runs
  cleared : ∀ n ∈ s.cleared, n = s.history.runs
  token : ∀ n, .quit n ∈ s.timeoutPipe → n = s.history.runs
  returned : ∀ n ∈ s.history.returned, n ≤ s.history.runs
  down : (∃ n, n ∈ s.cleared ∨ .quit n ∈ s.timeoutPipe) ∨
    s.history.runs ∈ s.history.returned → s.isRunning = false
  clearedBy : s.control ≠ .stopped → s.isRunning = false →
    s.history.clearedBy = some s.history.runs

variable {s t : State} {e : Event}

theorem invariant_initial : Invariant {} where
  paired := ⟨nofun, rfl, fun _ => rfl⟩
  tested := nofun
  cleared := nofun
  token := nofun
  returned := nofun
  down _ := rfl
  clearedBy h := absurd rfl h

/-- Steps that leave the flag, the tokens and the calls of `Quit` alone and do not end or begin
a run. -/
theorem Invariant.frame (h : Invariant s) (hr : t.isRunning = s.isRunning)
    (ht : t.tested = s.tested) (hc : t.cleared = s.cleared)
    (hp : ∀ n, .quit n ∈ t.timeoutPipe → .quit n ∈ s.timeoutPipe)
    (hh : (t.history.runs, t.history.clearedBy, t.history.returned, t.history.stops,
      t.history.late) = (s.history.runs, s.history.clearedBy, s.history.returned,
        s.history.stops, s.history.late))
    (hk : t.control = .stopped ↔ s.control = .stopped) : Invariant t := by
  simp only [Prod.mk.injEq] at hh
  obtain ⟨hruns, hby, hret, hstops, hlate⟩ := hh
  refine ⟨⟨?_, ?_, ?_⟩, ?_, ?_, ?_, ?_, ?_, ?_⟩
  · rw [hstops]
    exact h.paired.due
  · rw [hlate]
    exact h.paired.prompt
  · rw [hk, hr]
    exact h.paired.quiet
  · rw [ht, hruns]
    exact h.tested
  · rw [hc, hruns]
    exact h.cleared
  · rw [hruns]
    exact fun n hn => h.token n (hp n hn)
  · rw [hret, hruns]
    exact h.returned
  · rw [hc, hret, hruns, hr]
    refine fun hd => h.down (hd.imp ?_ id)
    exact fun ⟨n, hn⟩ => ⟨n, hn.imp id (hp n)⟩
  · rw [Ne, hk, hr, hby, hruns]
    exact h.clearedBy

/-- `Run` returns for a `Quit` of its own, and the flag is down. -/
theorem Invariant.stop (h : Invariant s) (hr : s.isRunning = false) (rest : List TimeoutToken)
    (hp : ∀ n, .quit n ∈ rest → .quit n ∈ s.timeoutPipe) :
    Invariant ({ s with timeoutPipe := rest }.stop (some s.history.runs)) where
  paired := by
    refine ⟨fun stop hm => ?_, h.paired.prompt, fun _ => hr⟩
    rcases List.mem_append.mp hm with hm | hm
    · exact h.paired.due stop hm
    · obtain rfl := List.mem_singleton.mp hm
      rfl
  tested := h.tested
  cleared := h.cleared
  token n hn := h.token n (hp n hn)
  returned := h.returned
  down _ := hr
  clearedBy hc := absurd rfl hc

theorem Invariant.step (h : Invariant s) (ho : Ok s e) (hs : Step s e t) : Invariant t := by
  cases hs
  case run hc =>
    obtain ⟨hp, ht, hcl⟩ := ho
    refine ⟨⟨h.paired.due, h.paired.prompt, nofun⟩, ?_, ?_, fun n hn => absurd hn (hp n),
      fun n hn => Nat.le_succ_of_le (h.returned n hn), ?_, nofun⟩
    · simp [ht]
    · simp [hcl]
    · rintro (⟨n, hn | hn⟩ | hn)
      · rw [hcl] at hn
        cases hn
      · exact absurd hn (hp n)
      · exact absurd (h.returned _ hn) (Nat.not_succ_le_self _)
  case beginTurn hc hr =>
    have hlate : s.history.returned.contains s.history.runs = false := by
      rw [Bool.eq_false_iff, Ne, List.contains_iff_mem]
      intro hm
      rw [h.down (.inr hm)] at hr
      cases hr
    refine h.frame rfl rfl rfl (fun _ hn => hn) ?_ (by simp [hc])
    simp only [hlate, Bool.or_false]
  case leave hc hr =>
    rw [h.clearedBy (by rw [hc]; exact nofun) hr]
    exact h.stop hr s.timeoutPipe fun _ hn => hn
  case readQuit turn run rest hc hp =>
    have hmem : .quit run ∈ s.timeoutPipe := by rw [hp]; exact List.mem_cons_self
    rw [h.token run hmem]
    refine h.stop (h.down (.inl ⟨run, .inr hmem⟩)) rest fun n hn => ?_
    rw [hp]
    exact List.mem_cons_of_mem _ hn
  case timeoutFails hc => exact absurd ho id
  case readKnown hc hp hm =>
    exact h.frame rfl rfl rfl (fun n hn => by rw [hp]; exact List.mem_cons_of_mem _ hn) rfl
      (by simp [hc])
  case readUnknown hc hp hm =>
    exact h.frame rfl rfl rfl (fun n hn => by rw [hp]; exact List.mem_cons_of_mem _ hn) rfl
      (by simp [hc])
  case watchRemoves p w turn hc =>
    unfold State.removeWatch
    split
    · exact h.frame rfl rfl rfl (fun _ hn => hn) rfl (by simp [hc])
    · exact h.frame rfl rfl rfl (fun _ hn => hn) rfl (by simp [hc])
  case removeWatch fd =>
    unfold State.removeWatch
    split
    · exact h.frame rfl rfl rfl (fun _ hn => hn) rfl Iff.rfl
    · exact h
  case addTimeout set =>
    unfold State.addTimeout
    split
    · exact h.frame rfl rfl rfl (fun _ hn => hn) rfl Iff.rfl
    · exact h
  case expire id hm =>
    refine h.frame rfl rfl rfl (fun n hn => ?_) rfl Iff.rfl
    simpa using hn
  case quitRefused hr => exact h
  case quitTested hr =>
    refine ⟨⟨h.paired.due, h.paired.prompt, h.paired.quiet⟩, fun n hn => ?_, h.cleared,
      h.token, h.returned, h.down, h.clearedBy⟩
    rcases List.mem_append.mp hn with hn | hn
    · exact h.tested n hn
    · exact List.mem_singleton.mp hn
  case quitClear run hm =>
    have hrun := h.tested run hm
    refine ⟨⟨h.paired.due, h.paired.prompt, fun _ => rfl⟩,
      fun n hn => h.tested n (List.mem_of_mem_erase hn), fun n hn => ?_, h.token, h.returned,
      fun _ => rfl, fun _ _ => congrArg some hrun⟩
    rcases List.mem_append.mp hn with hn | hn
    · exact h.cleared n hn
    · exact (List.mem_singleton.mp hn).trans hrun
  case quitWrite run hm =>
    have hrun := h.cleared run hm
    have hdown := h.down (.inl ⟨run, .inl hm⟩)
    refine ⟨⟨h.paired.due, h.paired.prompt, h.paired.quiet⟩, h.tested,
      fun n hn => h.cleared n (List.mem_of_mem_erase hn),
      fun n hn => ?_, fun n hn => ?_, fun _ => hdown, h.clearedBy⟩
    · rcases List.mem_append.mp hn with hn | hn
      · exact h.token n hn
      · simpa [hrun] using hn
    · rcases List.mem_append.mp hn with hn | hn
      · exact h.returned n hn
      · rw [List.mem_singleton.mp hn, hrun]
  case addIdle => exact h.frame rfl rfl rfl (fun _ hn => hn) rfl Iff.rfl
  case addWatch => exact h.frame rfl rfl rfl (fun _ hn => hn) rfl Iff.rfl
  case removeTimeout => exact h.frame rfl rfl rfl (fun _ hn => hn) rfl Iff.rfl
  all_goals exact h.frame rfl rfl rfl (fun _ hn => hn) rfl (by simp [*])

section Stale

variable {turn : Turn}

/-- A loop that reads its timeout pipe comes to the first `QUIT` in it. -/
theorem exists_stop (hc : s.control = .checkTimeout turn) (hq : ∃ n, .quit n ∈ s.timeoutPipe) :
    ∃ es t n, machine.exec s es = some t ∧ .quit n ∈ s.timeoutPipe ∧
      ⟨s.history.runs, some n⟩ ∈ t.history.stops := by
  induction hp : s.timeoutPipe generalizing s turn with
  | nil =>
    obtain ⟨n, hn⟩ := hq
    rw [hp] at hn
    cases hn
  | cons token rest ih =>
    cases token with
    | quit n =>
      refine ⟨[.readTimeout], { s with timeoutPipe := rest }.stop (some n), n, ?_,
        List.mem_cons_self, List.mem_append_right _ (List.mem_singleton_self _)⟩
      simp [Machine.exec, machine, MainLoopRun.step, hc, hp]
    | timeout id =>
      have hrest : ∃ n, .quit n ∈ rest := by
        obtain ⟨n, hn⟩ := hq
        rw [hp] at hn
        exact ⟨n, by simpa using hn⟩
      by_cases hm : id ∈ s.timeoutTable
      · let calling : State := { s with timeoutPipe := rest, control := .timeoutCalling id turn }
        obtain ⟨es, t, n, he, hn, ht⟩ := @ih
          { calling.removeTimeout id with
            control := .checkTimeout { turn with handled := true } } _ rfl hrest rfl
        refine ⟨.readTimeout :: .timeoutReturns true true :: es, t, n, ?_,
          List.mem_cons_of_mem _ hn, ht⟩
        simp only [Machine.exec, machine, MainLoopRun.step, hc, hp, hm, if_true, Option.bind_some]
        exact he
      · obtain ⟨es, t, n, he, hn, ht⟩ := @ih
          { s with timeoutPipe := rest, control := .checkTimeout turn } _ rfl hrest rfl
        refine ⟨.readTimeout :: es, t, n, ?_, List.mem_cons_of_mem _ hn, ht⟩
        simp only [Machine.exec, machine, MainLoopRun.step, hc, hp, hm, if_false, Option.bind_some]
        exact he

theorem not_paired_of_stop {n : Option ℕ} {r : ℕ} (hm : ⟨r, n⟩ ∈ t.history.stops)
    (hn : n ≠ some r) : ¬ Paired t := fun hp => hn (hp.due _ hm)

/-- A `Run` that finds the token of an earlier one ends because of it. -/
theorem unpaired_of_stale_token (hc : s.control = .test) (hr : s.isRunning = true)
    (hq : ∃ n, .quit n ∈ s.timeoutPipe)
    (hlt : ∀ n, .quit n ∈ s.timeoutPipe → n < s.history.runs) :
    ∃ es t, machine.exec s es = some t ∧ ¬ Paired t := by
  have hne : s.timeoutPipe ≠ [] := by
    obtain ⟨n, hn⟩ := hq
    exact List.ne_nil_of_mem hn
  have hpoll : ∃ u turn, machine.exec s [.whileTest, .poll fun _ => none] = some u ∧
      u.control = .checkTimeout turn ∧ u.timeoutPipe = s.timeoutPipe ∧
      u.history.runs = s.history.runs := by
    simp [Machine.exec, machine, MainLoopRun.step, hc, hr, hne]
  obtain ⟨u, turn, hu, huc, hup, hur⟩ := hpoll
  obtain ⟨es, t, n, he, hn, ht⟩ := exists_stop huc (by rw [hup]; exact hq)
  refine ⟨_, t, Machine.exec_append hu he, not_paired_of_stop ht ?_⟩
  rw [hup] at hn
  rw [hur, Ne, Option.some.injEq]
  exact (hlt n hn).ne

theorem unpaired_of_not_ok (h : Invariant s) (hs : MainLoopRun.step s e = some t)
    (ho : ¬ Ok s e) : ∃ es u, machine.exec t es = some u ∧ ¬ Paired u := by
  cases step_cases hs
  case timeoutFails hc =>
    exact ⟨[], _, rfl, not_paired_of_stop (List.mem_append_right _ (List.mem_singleton_self _))
      nofun⟩
  case run hc =>
    by_cases hq : ∃ n, .quit n ∈ s.timeoutPipe
    · exact unpaired_of_stale_token rfl rfl hq fun n hn => Nat.lt_succ_of_le (h.token n hn).le
    by_cases ht : s.tested = []
    · have hcl : s.cleared ≠ [] := fun hcl => ho ⟨fun n hn => hq ⟨n, hn⟩, ht, hcl⟩
      obtain ⟨n, hn⟩ := List.exists_mem_of_ne_nil _ hcl
      -- The `Quit` under way writes its token into the new run.
      obtain ⟨es, u, he, hu⟩ := @unpaired_of_stale_token
        { s with
          isRunning := true
          control := .test
          cleared := s.cleared.erase n
          timeoutPipe := s.timeoutPipe ++ [.quit n]
          history := { s.history with
            runs := s.history.runs + 1
            returned := s.history.returned ++ [n] } }
        rfl rfl ⟨n, List.mem_append_right _ (List.mem_singleton_self _)⟩ (fun m hm => by
          rcases List.mem_append.mp hm with hm | hm
          · exact absurd ⟨m, hm⟩ hq
          · obtain rfl := TimeoutToken.quit.inj (List.mem_singleton.mp hm)
            exact Nat.lt_succ_of_le (h.cleared _ hn).le)
      refine ⟨.quitWrite n :: es, u, ?_, hu⟩
      simp only [Machine.exec, machine, MainLoopRun.step, hn, if_true, Option.bind_some]
      exact he
    · obtain ⟨n, hn⟩ := List.exists_mem_of_ne_nil _ ht
      -- The `Quit` under way takes the flag of the new run down.
      have hexec : ∃ u, machine.exec { s with
          isRunning := true
          control := .test
          history := { s.history with runs := s.history.runs + 1 } }
          [.quitClear n, .whileTest] = some u ∧
            ⟨s.history.runs + 1, some n⟩ ∈ u.history.stops := by
        simp [Machine.exec, machine, MainLoopRun.step, hn, State.stop]
      obtain ⟨u, he, hu⟩ := hexec
      refine ⟨_, u, he, not_paired_of_stop hu ?_⟩
      rw [Ne, Option.some.injEq, h.tested n hn]
      exact (Nat.lt_succ_self _).ne
  all_goals exact absurd trivial ho

end Stale

/-- `Run` and `Quit` pair up as long as each `Run` starts from a clean slate; where one does
not, there is a way on that breaks the pairing. -/
theorem run_and_quit_pair_up (h : machine.Reaches Ok s) :
    Paired s ∧ ∀ e t, MainLoopRun.step s e = some t → ¬ Ok s e →
      ∃ es u, machine.exec t es = some u ∧ ¬ Paired u := by
  have hinv : Invariant s := h.invariant invariant_initial
    fun _ _ _ _ hi ho hs => hi.step ho (step_cases hs)
  exact ⟨hinv.paired, fun e t hs ho => unpaired_of_not_ok hinv hs ho⟩

/-- A `Quit` while the loop is in `poll`, whose token ends the `Run`, and a second `Run`. -/
def quitAtPoll : List Event :=
  [.run, .whileTest, .quitTest, .quitClear 1, .quitWrite 1, .poll fun _ => none, .readTimeout,
    .run, .whileTest]

theorem run_and_quit_pair_up_at_poll :
    ∃ s, machine.Reaches Ok s ∧ (s.history.stops = [⟨1, some 1⟩] ∧ s.isRunning = true) ∧
      Paired s := by
  obtain ⟨s, hr, hp⟩ := machine.exists_reaches Ok quitAtPoll
    (fun s => s.history.stops = [⟨1, some 1⟩] ∧ s.isRunning = true) (by decide)
  exact ⟨s, hr, of_decide_eq_true hp, (run_and_quit_pair_up hr).1⟩

/-- A `Quit` from an idle callback: the flag ends the `Run` and the token stays behind. -/
def quitFromIdle : List Event :=
  [.addIdle, .run, .whileTest, .poll fun _ => none, .checkWatch, .readIdle, .quitTest,
    .quitClear 1, .quitWrite 1, .idleReturns true, .endTurn, .whileTest, .run, .whileTest,
    .poll fun _ => none, .readTimeout]

/-- The second `Run` returns without a `Quit` of its own and leaves the flag up. -/
theorem stale_quit_ends_the_next_run :
    ∃ s, machine.Reachable s ∧ (s.history.stops = [⟨1, some 1⟩, ⟨2, some 1⟩] ∧
      s.control = .stopped ∧ s.isRunning = true) ∧ ¬ Paired s := by
  obtain ⟨s, hr, hp⟩ := machine.exists_reachable quitFromIdle
    (fun s => s.history.stops = [⟨1, some 1⟩, ⟨2, some 1⟩] ∧ s.control = .stopped ∧
      s.isRunning = true) (by decide)
  obtain ⟨hstops, hc, hrun⟩ := of_decide_eq_true hp
  refine ⟨s, hr, ⟨hstops, hc, hrun⟩, fun h => ?_⟩
  have hdown := h.quiet hc
  rw [hrun] at hdown
  cases hdown

end MainLoopQuit
