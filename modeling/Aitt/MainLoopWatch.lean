import Aitt.MainLoopRun

/-! The watches of the main loop. `poll` is given the descriptors of the table; its reports are
looked up by descriptor one after the other, in a table that callbacks and other threads may
have changed since. -/
namespace MainLoopWatch

open NestedMaps TransitionRuns MainLoopRun

structure Right (d : Delivery) : Prop where
  watch : d.watch = d.polled
  registered : d.registered = true
  result : d.result = d.revents.result

/-- All calls so far were right, and a `REMOVE` has removed nothing but its own watch. -/
structure Faithful (s : State) : Prop where
  right : ∀ d ∈ s.history.deliveries, Right d
  own : ∀ r ∈ s.history.removals, r.removed = none ∨ r.removed = some r.own

def pending : Control → List Pending
  | .checkTimeout turn | .timeoutCalling _ turn | .checkWatch turn | .watchFound _ _ turn
  | .watchCalling _ _ turn => turn.pending
  | .stopped | .test | .poll _ | .checkIdle | .idleCalling _ | .turnEnd => []

def polling : Control → List (ℕ × ℕ)
  | .poll fds => fds
  | _ => []

def awaited (c : Control) : List ℕ := (pending c).map (·.fd)

def found : Control → Option ℕ
  | .watchFound p _ _ => some p.fd
  | _ => none

def calling : Control → Option (ℕ × Watch)
  | .watchCalling p w _ => some (p.fd, w)
  | _ => none

/-- A descriptor is not given a new watch while a report for its old one is pending, and `poll`
reports nothing for a descriptor that has got a new watch since it was called. No watch is
removed between its being found and its being called. A callback returns `REMOVE` only where
its own watch, or none, is in the table. A watch that has been given a hangup or an error gets
no plain report afterwards. -/
def Ok (s : State) : Event → Prop
  | .addWatch fd => fd ∈ s.watchTable ∨ fd ∉ awaited s.control
  | .removeWatch fd => found s.control ≠ some fd
  | .watchReturns true => ∀ c ∈ calling s.control, c.1 ∉ s.watchTable ∨ s.Registered c.1 c.2
  | .poll revents => ∀ q ∈ polling s.control, ∀ r ∈ revents q.1, ∀ w ∈ s.watchTable.lookup q.1,
      w.serial = q.2 ∧ (r.plain = true → w.result = .okay)
  | _ => True

instance (s : State) (e : Event) : Decidable (Ok s e) :=
  match e with
  | .addWatch _ => inferInstanceAs (Decidable (_ ∨ _))
  | .removeWatch _ => inferInstanceAs (Decidable (_ ≠ _))
  | .watchReturns true => inferInstanceAs (Decidable (∀ _ ∈ _, _))
  | .poll _ => inferInstanceAs (Decidable (∀ _ ∈ _, _))
  | .watchReturns false | .run | .whileTest | .interrupted | .readTimeout | .timeoutReturns _ _
  | .checkWatch | .callWatch | .readIdle | .idleReturns _ | .endTurn | .addIdle | .addTimeout _
  | .removeTimeout _ | .expire _ | .quitTest | .quitClear _ | .quitWrite _ => isTrue trivial

structure Meant (p : Pending) (w : Watch) : Prop where
  serial : w.serial = p.polled
  result : p.revents.plain = true → w.result = .okay

structure Invariant (s : State) : Prop where
  faithful : Faithful s
  polled : ∀ fds, s.control = .poll fds → (fds.map (·.1)).Nodup
  meant : ∀ p ∈ pending s.control, ∀ w, s.watchTable.lookup p.fd = some w → Meant p w
  nodup : ((pending s.control).map (·.fd)).Nodup
  found : ∀ p w turn, s.control = .watchFound p w turn →
    s.watchTable.lookup p.fd = some w ∧ Meant p w ∧ p.fd ∉ turn.pending.map (·.fd)

variable {s t : State} {e : Event}

theorem Meant.resultFor {p : Pending} {w : Watch} (h : Meant p w) :
    w.resultFor p.revents = p.revents.result := by
  unfold Watch.resultFor Revents.result
  split_ifs with hh he
  · rfl
  · rfl
  · exact h.result (by simp [Revents.plain, hh, he])

theorem invariant_initial : Invariant {} where
  faithful := ⟨nofun, nofun⟩
  polled := nofun
  meant := nofun
  nodup := List.nodup_nil
  found := nofun

/-- Steps of the loop that leave the table alone and go on to fewer reports. -/
theorem Invariant.advance (h : Invariant s) (hw : t.watchTable = s.watchTable)
    (hd : t.history.deliveries = s.history.deliveries)
    (hr : t.history.removals = s.history.removals) (hp : ∀ fds, t.control ≠ .poll fds)
    (hf : ∀ p w turn, t.control ≠ .watchFound p w turn)
    (hs : (pending t.control).Sublist (pending s.control)) : Invariant t where
  faithful := ⟨hd ▸ h.faithful.right, hr ▸ h.faithful.own⟩
  polled fds hc := absurd hc (hp fds)
  meant p hm w hl := h.meant p (hs.subset hm) w (hw ▸ hl)
  nodup := h.nodup.sublist (hs.map _)
  found p w turn hc := absurd hc (hf p w turn)

/-- Changes of the table by others: a watch with a report may go but is not replaced. -/
theorem Invariant.retable (h : Invariant s) (hc : t.control = s.control)
    (hd : t.history.deliveries = s.history.deliveries)
    (hr : t.history.removals = s.history.removals)
    (hw : ∀ fd ∈ awaited s.control, ∀ w, t.watchTable.lookup fd = some w →
      s.watchTable.lookup fd = some w)
    (hf : ∀ p w turn, s.control = .watchFound p w turn →
      t.watchTable.lookup p.fd = s.watchTable.lookup p.fd) : Invariant t where
  faithful := ⟨hd ▸ h.faithful.right, hr ▸ h.faithful.own⟩
  polled fds hp := h.polled fds (hc ▸ hp)
  meant p hm w hl := by
    rw [hc] at hm
    exact h.meant p hm w (hw _ (List.mem_map_of_mem hm) w hl)
  nodup := by
    rw [hc]
    exact h.nodup
  found p w turn hk := by
    rw [hc] at hk
    rw [hf p w turn hk]
    exact h.found p w turn hk

/-- Nothing that the watches depend on has changed. -/
theorem Invariant.congr (h : Invariant s) (hc : t.control = s.control)
    (hd : t.history.deliveries = s.history.deliveries)
    (hr : t.history.removals = s.history.removals) (hw : t.watchTable = s.watchTable) :
    Invariant t :=
  h.retable hc hd hr (fun _ _ _ hl => hw ▸ hl) fun _ _ _ _ => by rw [hw]

theorem snapshot_nodup (s : State) : (s.snapshot.map (·.1)).Nodup := by
  have hp : (s.snapshot.map (·.1)).Perm s.watchTable.keys := by
    refine ((List.perm_insertionSort _ _).map _).trans (List.Perm.of_eq ?_)
    rw [List.map_map]
    rfl
  exact hp.nodup_iff.mpr s.watchTable.keys_nodup

theorem polled_fds_sublist (fds : List (ℕ × ℕ)) (revents : ℕ → Option Revents) :
    ((s.polled fds revents).pending.map (·.fd)).Sublist (fds.map (·.1)) := by
  unfold State.polled
  induction fds with
  | nil => exact List.Sublist.slnil
  | cons q rest ih =>
    cases hr : revents q.1 with
    | none => simpa [hr] using ih.trans (List.sublist_cons_self _ _)
    | some r => simpa [hr] using ih

/-- The reports of `poll` are for the watches that were polled. -/
theorem meant_polled {fds : List (ℕ × ℕ)}
    (hc : s.control = .poll fds) {revents : ℕ → Option Revents} (ho : Ok s (.poll revents))
    {p : Pending} (hp : p ∈ (s.polled fds revents).pending) {w : Watch}
    (hl : s.watchTable.lookup p.fd = some w) : Meant p w := by
  obtain ⟨q, hq, hm⟩ := List.mem_filterMap.mp hp
  obtain ⟨r, hr, rfl⟩ := Option.map_eq_some_iff.mp hm
  have hok := ho q (by rw [hc]; exact hq) r hr w hl
  exact ⟨hok.1, hok.2⟩

theorem Invariant.poll (h : Invariant s) {fds : List (ℕ × ℕ)} (hc : s.control = .poll fds)
    {revents : ℕ → Option Revents} (ho : Ok s (.poll revents)) {c : Control}
    (hp : pending c = (s.polled fds revents).pending) (hn : ∀ fds, c ≠ .poll fds)
    (hf : ∀ p w turn, c ≠ .watchFound p w turn) : Invariant { s with control := c } where
  faithful := ⟨h.faithful.right, h.faithful.own⟩
  polled fds hk := absurd hk (hn fds)
  meant p hm w hl := meant_polled hc ho (hp ▸ hm) hl
  nodup := by
    rw [hp]
    exact (h.polled fds hc).sublist (polled_fds_sublist fds revents)
  found p w turn hk := absurd hk (hf p w turn)

theorem lookup_removeWatch {fd fd' : ℕ} {w : Watch}
    (h : (s.removeWatch fd).watchTable.lookup fd' = some w) :
    s.watchTable.lookup fd' = some w := by
  unfold State.removeWatch at h
  split at h
  · exact (lookup_erase_eq_some.mp h).2
  · exact h

theorem lookup_removeWatch_of_ne {fd fd' : ℕ} (hne : fd' ≠ fd) :
    (s.removeWatch fd).watchTable.lookup fd' = s.watchTable.lookup fd' := by
  unfold State.removeWatch
  split
  · exact AList.lookup_erase_ne hne
  · rfl

theorem removeWatch_logs (s : State) (fd : ℕ) :
    (s.removeWatch fd).control = s.control ∧
      (s.removeWatch fd).history.deliveries = s.history.deliveries ∧
      (s.removeWatch fd).history.removals = s.history.removals := by
  unfold State.removeWatch
  split
  · exact ⟨rfl, rfl, rfl⟩
  · exact ⟨rfl, rfl, rfl⟩

theorem lookup_addWatch {fd fd' : ℕ} (h : fd ∈ s.watchTable ∨ fd' ≠ fd) :
    (s.addWatch fd).watchTable.lookup fd' = s.watchTable.lookup fd' := by
  simp only [State.addWatch]
  split_ifs with hm
  · rfl
  · exact AList.lookup_insert_ne (h.resolve_left hm)

theorem Invariant.callWatch (h : Invariant s) {p : Pending} {w : Watch} {turn : Turn}
    (hc : s.control = .watchFound p w turn) (hs : Step s .callWatch t) : Invariant t := by
  obtain ⟨hl, hm, hn⟩ := h.found p w turn hc
  have hreg : s.Registered p.fd w := by rw [State.Registered, hl]; rfl
  have hpend : pending s.control = turn.pending := by rw [hc]; rfl
  cases hs
  case callWatch p' w' turn' hc' =>
    rw [hc] at hc'
    cases hc'
    rw [if_pos hreg]
    refine ⟨⟨fun d hd => ?_, h.faithful.own⟩, nofun, fun q hq v hv => ?_, ?_, nofun⟩
    · rcases List.mem_append.mp hd with hd | hd
      · exact h.faithful.right d hd
      · obtain rfl := List.mem_singleton.mp hd
        exact ⟨hm.serial, decide_eq_true hreg, hm.resultFor⟩
    · have hne : q.fd ≠ p.fd := by
        rintro he
        exact hn (he ▸ List.mem_map_of_mem hq)
      rw [AList.lookup_insert_ne hne] at hv
      exact h.meant q (hpend ▸ hq) v hv
    · have hnd := h.nodup
      rw [hpend] at hnd
      exact hnd

/-- The next report is taken, and its watch is in the table. -/
theorem Invariant.watchFound (h : Invariant s) {handled : Bool} {p : Pending}
    {rest : List Pending} {idleReady : Bool} {w : Watch}
    (hpend : pending s.control = p :: rest) (hl : s.watchTable.lookup p.fd = some w) :
    Invariant { s with control := .watchFound p w ⟨handled, rest, idleReady⟩ } := by
  have hnd := h.nodup
  rw [hpend] at hnd
  obtain ⟨hn, hrest⟩ := List.nodup_cons.mp hnd
  have hmeant : ∀ q ∈ p :: rest, ∀ v, s.watchTable.lookup q.fd = some v → Meant q v :=
    fun q hq => h.meant q (hpend ▸ hq)
  refine ⟨⟨h.faithful.right, h.faithful.own⟩, nofun,
    fun q hq => hmeant q (List.mem_cons_of_mem p hq), hrest, fun q v turn hk => ?_⟩
  cases hk
  exact ⟨hl, hmeant p List.mem_cons_self w hl, hn⟩

/-- The callback has returned `REMOVE`: the loop removes what is under the descriptor now. -/
theorem Invariant.watchRemoves (h : Invariant s) {p : Pending} {w : Watch} {turn : Turn}
    (hc : s.control = .watchCalling p w turn) (ho : Ok s (.watchReturns true)) :
    Invariant { s.removeWatch p.fd with
      control := .checkWatch { turn with handled := true }
      history := { (s.removeWatch p.fd).history with
        removals := s.history.removals ++
          [⟨w.serial, (s.watchTable.lookup p.fd).map Watch.serial⟩] } } := by
  have hpend : pending s.control = turn.pending := by rw [hc]; rfl
  obtain ⟨-, hdel, -⟩ := removeWatch_logs s p.fd
  refine ⟨⟨by rw [hdel]; exact h.faithful.right, fun r hr => ?_⟩, nofun, fun q hq v hv => ?_,
    ?_, nofun⟩
  · rcases List.mem_append.mp hr with hr | hr
    · exact h.faithful.own r hr
    · obtain rfl := List.mem_singleton.mp hr
      rcases ho (p.fd, w) (by rw [hc]; rfl) with hm | hreg
      · left
        rw [AList.lookup_eq_none.mpr hm]
        rfl
      · exact .inr hreg
  · exact h.meant q (hpend ▸ hq) v (lookup_removeWatch hv)
  · have hnd := h.nodup
    rw [hpend] at hnd
    exact hnd

theorem Invariant.step (h : Invariant s) (ho : Ok s e) (hs : Step s e t) : Invariant t := by
  cases hs
  case beginTurn hc hr =>
    refine ⟨⟨h.faithful.right, h.faithful.own⟩, fun fds hk => ?_, nofun, List.nodup_nil, nofun⟩
    obtain rfl := Control.poll.inj hk
    exact snapshot_nodup s
  case pollTimeout hc revents hp => exact h.poll hc ho rfl nofun nofun
  case pollWatch hc revents hp => exact h.poll hc ho rfl nofun nofun
  case watchFound handled p rest idleReady w hc hl =>
    exact h.watchFound (by rw [hc]; rfl) hl
  case callWatch p w turn hc => exact h.callWatch hc (.callWatch hc)
  case watchRemoves p w turn hc => exact h.watchRemoves hc ho
  case addWatch fd =>
    refine h.retable rfl rfl rfl (fun fd' hfd w hl => ?_) fun p w turn hc => ?_
    · rwa [lookup_addWatch (ho.imp id fun hn => by rintro rfl; exact hn hfd)] at hl
    · refine lookup_addWatch (or_iff_not_imp_left.mpr fun hm => ?_)
      rintro rfl
      exact hm (AList.lookup_isSome.mp (by rw [(h.found p w turn hc).1]; rfl))
  case removeWatch fd =>
    obtain ⟨hk, hdel, hrem⟩ := removeWatch_logs s fd
    exact h.retable hk hdel hrem (fun _ _ _ hl => lookup_removeWatch hl)
      fun p w turn hc => lookup_removeWatch_of_ne fun he => ho (by rw [hc, ← he]; rfl)
  case addTimeout set =>
    unfold State.addTimeout
    split
    · exact h.congr rfl rfl rfl rfl
    · exact h
  case quitRefused => exact h
  case addIdle | removeTimeout | expire | quitTested | quitClear | quitWrite =>
    exact h.congr rfl rfl rfl rfl
  case watchGone hc hl =>
    refine h.advance rfl rfl rfl nofun nofun ?_
    rw [hc]
    exact List.sublist_cons_self _ _
  -- The other steps of the loop take the reports along or are done with them.
  case readUnknown hc _ _ => exact h.advance rfl rfl rfl nofun nofun (by rw [hc])
  case timeoutsRead hc _ | readKnown hc _ _ | timeoutRemoved hc _ | timeoutContinues hc
      | watchContinues hc =>
    refine h.advance rfl rfl rfl nofun nofun ?_
    rw [hc]
    exact List.Sublist.refl _
  all_goals exact h.advance rfl rfl rfl nofun nofun (List.nil_sublist _)

theorem invariant_reaches (h : machine.Reaches Ok s) : Invariant s :=
  h.invariant invariant_initial fun _ _ _ _ hi ho hs => hi.step ho (step_cases hs)

/-- Reports reach the watches that they are for, in every run in which descriptors are not
reused too early. -/
theorem events_reach_the_right_watch (h : machine.Reaches Ok s) : Faithful s :=
  (invariant_reaches h).faithful

def report (fd : ℕ) (r : Revents) : ℕ → Option Revents := fun x => if x = fd then some r else none

/-- The callback of descriptor 5 removes its own watch and returns `REMOVE`; the descriptor is
given to a new watch in a later turn. -/
def reusedLater : List Event :=
  [.addWatch 5, .addWatch 6, .run, .whileTest, .poll fun _ => some {}, .checkWatch, .callWatch,
    .removeWatch 5, .watchReturns true, .checkWatch, .callWatch, .watchReturns false, .checkWatch,
    .endTurn, .addWatch 5, .whileTest, .poll (report 5 { hangup := true }), .checkWatch, .callWatch]

theorem events_reach_the_right_watch_of_reused_descriptor :
    ∃ s, machine.Reaches Ok s ∧ (s.history.deliveries =
        [⟨0, 0, true, .okay, {}⟩, ⟨1, 1, true, .okay, {}⟩, ⟨2, 2, true, .hangup, ⟨true, false⟩⟩] ∧
      s.history.removals = [⟨0, none⟩]) ∧ Faithful s := by
  obtain ⟨s, hr, hp⟩ := machine.exists_reaches Ok reusedLater
    (fun s => s.history.deliveries =
        [⟨0, 0, true, .okay, {}⟩, ⟨1, 1, true, .okay, {}⟩, ⟨2, 2, true, .hangup, ⟨true, false⟩⟩] ∧
      s.history.removals = [⟨0, none⟩]) (by decide)
  exact ⟨s, hr, of_decide_eq_true hp, events_reach_the_right_watch hr⟩

/-- Both descriptors are reported; the callback of 5 closes 6 and adds it again. -/
def reusedInTurn : List Event :=
  [.addWatch 5, .addWatch 6, .run, .whileTest, .poll fun _ => some {}, .checkWatch, .callWatch,
    .removeWatch 6, .addWatch 6, .watchReturns false, .checkWatch, .callWatch]

def readdedInCallback : List Event :=
  [.addWatch 5, .run, .whileTest, .poll (report 5 {}), .checkWatch, .callWatch, .removeWatch 5,
    .addWatch 5, .watchReturns true]

def plainAfterHangup : List Event :=
  [.addWatch 5, .run, .whileTest, .poll (report 5 { hangup := true }), .checkWatch, .callWatch,
    .watchReturns false, .checkWatch, .endTurn, .whileTest, .poll (report 5 {}), .checkWatch,
    .callWatch]

def removedWhenFound : List Event :=
  [.addWatch 5, .run, .whileTest, .poll (report 5 {}), .checkWatch, .removeWatch 5, .callWatch]

/-- An event goes to a later watch on the same descriptor; `REMOVE` removes a later watch; a
callback is told of a hangup that is over; a removed watch is called. -/
theorem events_reach_the_wrong_watch :
    (∃ s, machine.Reachable s ∧ ⟨1, 2, true, .okay, {}⟩ ∈ s.history.deliveries ∧ ¬ Faithful s) ∧
    (∃ s, machine.Reachable s ∧ ⟨0, some 1⟩ ∈ s.history.removals ∧ ¬ Faithful s) ∧
    (∃ s, machine.Reachable s ∧ ⟨0, 0, true, .hangup, {}⟩ ∈ s.history.deliveries ∧
      ¬ Faithful s) ∧
    ∃ s, machine.Reachable s ∧ ⟨0, 0, false, .okay, {}⟩ ∈ s.history.deliveries ∧ ¬ Faithful s := by
  have hwrong : ∀ {s : State} {d : Delivery}, d ∈ s.history.deliveries → ¬ Right d →
      ¬ Faithful s := fun hd hr hf => hr (hf.right _ hd)
  refine ⟨?_, ?_, ?_, ?_⟩
  · obtain ⟨s, hr, hp⟩ := machine.exists_reachable reusedInTurn
      (fun s => decide (⟨1, 2, true, .okay, {}⟩ ∈ s.history.deliveries)) (by decide)
    have hd := of_decide_eq_true hp
    exact ⟨s, hr, hd, hwrong hd fun h => absurd h.watch (by decide)⟩
  · obtain ⟨s, hr, hp⟩ := machine.exists_reachable readdedInCallback
      (fun s => decide (⟨0, some 1⟩ ∈ s.history.removals)) (by decide)
    have hd := of_decide_eq_true hp
    exact ⟨s, hr, hd, fun h => absurd (h.own _ hd) (by decide)⟩
  · obtain ⟨s, hr, hp⟩ := machine.exists_reachable plainAfterHangup
      (fun s => decide (⟨0, 0, true, .hangup, {}⟩ ∈ s.history.deliveries)) (by decide)
    have hd := of_decide_eq_true hp
    exact ⟨s, hr, hd, hwrong hd fun h => absurd h.result (by decide)⟩
  · obtain ⟨s, hr, hp⟩ := machine.exists_reachable removedWhenFound
      (fun s => decide (⟨0, 0, false, .okay, {}⟩ ∈ s.history.deliveries)) (by decide)
    have hd := of_decide_eq_true hp
    exact ⟨s, hr, hd, hwrong hd fun h => absurd h.registered (by decide)⟩

end MainLoopWatch
