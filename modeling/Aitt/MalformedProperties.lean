import Aitt.MosquittoDispatch

/-! Dispatch of messages with arbitrary properties. The exception of an illegible number leaves
the loop in the middle of a dispatch. -/
namespace MalformedProperties

open AittTypes MqttProperties TransitionRuns TurnTaking MosquittoMQ MosquittoDispatch

variable {κ : Type}

variable (topicMatchesSub : String → String → Option Bool)

/-- Dispatch does its work: no exception escapes, every finished dispatch has called its
subscribers, the flags are reset and the new subscribers merged at its end, and it comes to it. -/
structure Unbroken [DecidableEq κ] (s : State κ) : Prop where
  alive : s.phase ≠ .terminated ∧ s.phase ≠ .undefined
  served : ∀ d ∈ s.finished, ExactlyOnce (serves topicMatchesSub d.msg) d.members d.trace
  settled : s.phase = .idle → s.mq.subscribersIterating = false ∧ s.mq.newSubscribers = []
  merged : ∀ t, step topicMatchesSub s .iterate = some t → t.phase = .idle →
    t.mq.subscribers = s.mq.subscribers ++ s.mq.newSubscribers
  completes : ∃ es t, (∀ e ∈ es, Event.ownTurn e) ∧
    (MosquittoMQ.machine topicMatchesSub).exec s es = some t ∧ t.phase = .idle

section

variable {topicMatchesSub} {s t : State κ} {msg : Message} {c : ℕ} {d : SubscribeData κ}

theorem iterateStep_pass (hc : s.mq.subscriberIterator = some c)
    (hg : s.mq.subscribers[c]? = some d) (hz : d.handle ≠ 0)
    (hs : serves topicMatchesSub msg d = false) :
    iterateStep topicMatchesSub s msg = { s with mq := s.mq.advance } := by
  have hlt := (List.getElem?_eq_some_iff.mp hg).1
  have hm : compareTopic topicMatchesSub d.topic msg.topic = false := by
    simpa [serves, hz] using hs
  simp only [iterateStep, hc, if_neg hlt.ne, hg, if_neg hz, hm, Bool.false_eq_true, if_false]

theorem iterateStep_raise (hc : s.mq.subscriberIterator = some c)
    (hg : s.mq.subscribers[c]? = some d) (hs : serves topicMatchesSub msg d = true)
    (hr : ¬ Legible msg) :
    iterateStep topicMatchesSub s msg = { s with phase := .terminated } := by
  have hlt := (List.getElem?_eq_some_iff.mp hg).1
  simp only [serves, Bool.and_eq_true, decide_eq_true_eq] at hs
  simp only [iterateStep, hc, if_neg hlt.ne, hg, if_neg hs.1, hs.2, if_true]
  cases hm : readMsg msg with
  | error err => rfl
  | ok info => exact absurd ((readMsg_isOk msg).mp (by rw [hm]; rfl)) hr

theorem advance_of_not_updated (hc : s.mq.subscriberIterator = some c)
    (hu : s.mq.subscriberIteratorUpdated = false) :
    s.mq.advance = { s.mq with subscriberIterator := some (c + 1) } := by
  simp only [Client.advance, hu, Bool.false_eq_true, if_false, Client.skip, hc, Option.map_some]

/-- Only the end of the loop leads out of a dispatch, and it merges what is pending. -/
theorem merged_of_idle (hs : step topicMatchesSub s .iterate = some t) (ht : t.phase = .idle) :
    t.mq.subscribers = s.mq.subscribers ++ s.mq.newSubscribers := by
  cases step_cases hs with
  | iterate hp hturn =>
    cases hturn with
    | finish => rfl
    | singular | behind | raise | call => cases ht
    | null | pass => cases hp.symm.trans ht

/-- The loop passes the first subscribers over and raises at the first one that matches. -/
theorem loop_raises {rest : List (SubscribeData κ)} (hw : WellFormed s.mq)
    (hp : s.phase = .loop msg) (hc : s.mq.subscriberIterator = some c)
    (hu : s.mq.subscriberIteratorUpdated = false) (hdrop : s.mq.subscribers.drop c = rest)
    (hd : d ∈ rest) (hs : serves topicMatchesSub msg d = true) (hr : ¬ Legible msg) :
    ∃ n t, (MosquittoMQ.machine topicMatchesSub).exec s (List.replicate n .iterate) = some t ∧
      t.phase = .terminated ∧ t.mq.subscribersIterating = s.mq.subscribersIterating ∧
      t.current.trace = s.current.trace := by
  induction rest generalizing s c with
  | nil => cases hd
  | cons x rest ih =>
    have hstep : step topicMatchesSub s .iterate = some (iterateStep topicMatchesSub s msg) := by
      simp [step, hp]
    have hg : s.mq.subscribers[c]? = some x := by
      rw [← List.head?_drop, hdrop, List.head?_cons]
    cases hx : serves topicMatchesSub msg x with
    | true =>
      rw [iterateStep_raise hc hg hx hr] at hstep
      exact ⟨1, { s with phase := .terminated },
        by simp [Machine.exec, MosquittoMQ.machine, hstep], rfl, rfl, rfl⟩
    | false =>
      have hz := hw.nonnull x (List.mem_append_left _ (List.mem_of_getElem? hg))
      rw [iterateStep_pass hc hg hz hx, advance_of_not_updated hc hu] at hstep
      have hmem : d ∈ rest := by
        refine (List.mem_cons.mp hd).resolve_left fun he => ?_
        rw [he, hx] at hs
        cases hs
      have hnext : s.mq.subscribers.drop (c + 1) = rest := by
        rw [← List.tail_drop, hdrop, List.tail_cons]
      obtain ⟨n, t, ht, hterm⟩ := ih (s := { s with
        mq := { s.mq with subscriberIterator := some (c + 1) } }) (hw.of_perm (.refl _)) hp rfl hu
        hnext hmem
      refine ⟨n + 1, t, ?_, hterm⟩
      rw [List.replicate_succ]
      simpa [Machine.exec, MosquittoMQ.machine, hstep] using ht

variable [DecidableEq κ]

theorem unbroken (h : Invariant topicMatchesSub s) (hw : WellFormed s.mq) :
    Unbroken topicMatchesSub s := by
  obtain ⟨hf, hd⟩ := h
  refine ⟨⟨fun hp => ?_, fun hp => ?_⟩, hf, fun hp => ?_, fun t => merged_of_idle,
    dispatch_ends hw ⟨hf, hd⟩⟩
  · simp [hp] at hd
  · simp [hp] at hd
  · simp only [hp] at hd
    exact ⟨hd.1, hd.2.2⟩

/-- An illegible message that somebody subscribed to ends in an exception before anyone has been
called, with the flag still set. -/
theorem illegible_escapes (hw : WellFormed s.mq) (hi : Invariant topicMatchesSub s)
    (hp : s.phase = .idle) (hk : ¬ Careful topicMatchesSub s (.message msg)) :
    ∃ n t, (MosquittoMQ.machine topicMatchesSub).exec s
        (.message msg :: List.replicate n .iterate) = some t ∧
      t.phase = .terminated ∧ t.mq.subscribersIterating = true ∧ t.current.trace = [] := by
  obtain ⟨hl, hm⟩ := not_or.mp hk
  simp only [Unmatched, not_forall, Bool.not_eq_false] at hm
  obtain ⟨d, hd, hs⟩ := hm
  have hu : s.mq.subscriberIteratorUpdated = false := by
    have hq := hi.2
    simp only [hp] at hq
    exact hq.2.1
  have hstep : step topicMatchesSub s (.message msg) = some { s with
      mq := s.mq.beginDispatch, phase := .loop msg, current := ⟨msg, s.mq.subscribers, []⟩ } := by
    simp [step, hp]
  obtain ⟨n, t, ht, hterm⟩ := loop_raises (s := { s with
      mq := s.mq.beginDispatch, phase := .loop msg, current := ⟨msg, s.mq.subscribers, []⟩ })
    (hw.of_perm (.refl _)) rfl rfl hu rfl hd hs hl
  refine ⟨n, t, ?_, hterm⟩
  simpa [Machine.exec, MosquittoMQ.machine, hstep] using ht

/-- In a careful run dispatch does its work, and a message that breaks the rule breaks the
dispatch. -/
theorem malformed_properties_harmless
    (h : (MosquittoMQ.machine topicMatchesSub).Reaches (Careful topicMatchesSub) s) :
    Unbroken topicMatchesSub s ∧
      ∀ msg, s.phase = .idle → ¬ (Legible msg ∨ Unmatched topicMatchesSub s msg) →
        ∃ n t, (MosquittoMQ.machine topicMatchesSub).exec s
            (.message msg :: List.replicate n .iterate) = some t ∧
          t.phase = .terminated ∧ t.mq.subscribersIterating = true ∧ t.current.trace = [] := by
  have hw := reachable_wellFormed h.reachable
  have hi := careful_invariant h
  exact ⟨unbroken hi hw, fun msg hp hk => illegible_escapes hw hi hp hk⟩

end

def numbered (value : String) : Message :=
  ⟨"t", [], some [.userProperty "sequenceNum" value]⟩

/-- A number for one subscriber, and then a text for a topic of nobody. -/
theorem tolerable_run_unbroken : ∃ s : State ℕ,
    (MosquittoMQ.machine exactMatch).Reaches (Careful exactMatch) s ∧ Unbroken exactMatch s ∧
      s.finished.length = 2 := by
  obtain ⟨s, hr, hs⟩ := (MosquittoMQ.machine exactMatch).exists_reaches (Careful exactMatch)
    [.subscribe (cell 1) true, .message (numbered "12"), .iterate, .subscribe (cell 2) true,
      .callbackReturns, .iterate, .message { numbered "abc" with topic := "u" }, .iterate,
      .iterate, .iterate]
    (fun s => s.finished.length = 2) (by decide +kernel)
  exact ⟨s, hr, (malformed_properties_harmless hr).1, of_decide_eq_true hs⟩

/-- A text that is no number, and a number that is too large. -/
theorem malformed_number_escapes :
    (∃ s : State ℕ, (MosquittoMQ.machine exactMatch).Reachable s ∧ ¬ Unbroken exactMatch s ∧
      s.current = ⟨numbered "abc", [cell 1, cell 2], []⟩ ∧ s.mq.subscribersIterating = true) ∧
    ∃ s : State ℕ, (MosquittoMQ.machine exactMatch).Reachable s ∧ ¬ Unbroken exactMatch s ∧
      s.current = ⟨numbered "2147483648", [cell 1, cell 2], []⟩ ∧
      s.mq.subscribersIterating = true := by
  have hrun (value : String) (hv : (((MosquittoMQ.machine exactMatch).exec initial
      [.subscribe (cell 1) true, .subscribe (cell 2) true, .message (numbered value),
        .iterate]).any fun s : State ℕ => s.phase = .terminated &&
          s.current = ⟨numbered value, [cell 1, cell 2], []⟩ &&
          s.mq.subscribersIterating) = true) :
      ∃ s : State ℕ, (MosquittoMQ.machine exactMatch).Reachable s ∧ ¬ Unbroken exactMatch s ∧
        s.current = ⟨numbered value, [cell 1, cell 2], []⟩ ∧ s.mq.subscribersIterating = true := by
    obtain ⟨s, hr, hs⟩ := (MosquittoMQ.machine exactMatch).exists_reachable _ _ hv
    simp only [Bool.and_eq_true, decide_eq_true_eq] at hs
    exact ⟨s, hr, fun h => h.alive.1 hs.1.1, hs.1.2, hs.2⟩
  exact ⟨hrun _ (by decide +kernel), hrun _ (by decide +kernel)⟩

end MalformedProperties
