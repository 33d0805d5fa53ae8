import Aitt.MosquittoMQ

/-! A dispatch whose callbacks do not call back into the client, as one operation. The
callbacks that `AITT::Impl` registers only queue the message, so this is how it sees
`MessageCB`; the run of the loop itself is shown to come to the same. -/
namespace MosquittoDelivery

open AittTypes MqttProperties TransitionRuns TurnTaking MosquittoMQ

variable {κ : Type}

/-- The entries that get a turn from position `c` on: a pending update flag is spent on a
second turn of the first of them. -/
def turns (subscribers : List (SubscribeData κ)) (c : ℕ) (updated : Bool) :
    List (SubscribeData κ) :=
  if updated then (subscribers.drop c).take 1 ++ subscribers.drop c else subscribers.drop c

variable (topicMatchesSub : String → String → Option Bool)

def messageCB (mq : Client κ) (msg : Message) : Client κ × List (SubscribeData κ) :=
  ({ subscribers := mq.subscribers ++ mq.newSubscribers
     newSubscribers := []
     subscriberIterator := some mq.subscribers.length
     subscribersIterating := false
     subscriberIteratorUpdated := mq.subscriberIteratorUpdated && mq.subscribers.isEmpty },
   (turns mq.subscribers 0 mq.subscriberIteratorUpdated).filter (serves topicMatchesSub msg))

def Quiet : Event κ → Prop
  | .iterate => True
  | .callbackReturns => True
  | _ => False

structure Finished (msg : Message) (u : State κ) (c : ℕ) (t : State κ) : Prop where
  phase : t.phase = .idle
  mq : t.mq = { u.mq.endDispatch with
    subscriberIterator := some u.mq.subscribers.length
    subscriberIteratorUpdated :=
      u.mq.subscriberIteratorUpdated && decide (c = u.mq.subscribers.length) }
  trace : t.current.trace = u.current.trace ++
    ((turns u.mq.subscribers c u.mq.subscriberIteratorUpdated).filter
      (serves topicMatchesSub msg)).map .invoked

variable {topicMatchesSub}

theorem turns_end (subscribers : List (SubscribeData κ)) (b : Bool) :
    turns subscribers subscribers.length b = [] := by
  cases b <;> simp [turns]

theorem turns_updated {subscribers : List (SubscribeData κ)} {c : ℕ} {d : SubscribeData κ}
    (h : subscribers[c]? = some d) : turns subscribers c true = d :: turns subscribers c false := by
  obtain ⟨hlt, rfl⟩ := List.getElem?_eq_some_iff.mp h
  simp only [turns, if_true, Bool.false_eq_true, if_false]
  rw [List.drop_eq_getElem_cons hlt]
  rfl

theorem turns_next {subscribers : List (SubscribeData κ)} {c : ℕ} {d : SubscribeData κ}
    (h : subscribers[c]? = some d) :
    turns subscribers c false = d :: turns subscribers (c + 1) false := by
  obtain ⟨hlt, rfl⟩ := List.getElem?_eq_some_iff.mp h
  exact List.drop_eq_getElem_cons hlt

/-- One turn: the entry at the position is called if it serves the message, and the
position moves unless the update flag is spent instead. -/
theorem turn_run {msg : Message} {info : AittMsg} (hr : readMsg msg = .ok info) {u : State κ}
    {c : ℕ} {d : SubscribeData κ} (hp : u.phase = .loop msg)
    (hc : u.mq.subscriberIterator = some c) (hd : u.mq.subscribers[c]? = some d)
    (hz : d.handle ≠ 0) :
    ∃ es v, (∀ e ∈ es, Quiet e) ∧ (machine topicMatchesSub).exec u es = some v ∧
      v.phase = .loop msg ∧ v.mq = u.mq.advance ∧
      v.current.trace = u.current.trace ++
        (if serves topicMatchesSub msg d then [.invoked d] else []) := by
  have hne : c ≠ u.mq.subscribers.length := by
    have := (List.getElem?_eq_some_iff.mp hd).1
    omega
  cases hs : compareTopic topicMatchesSub d.topic msg.topic with
  | true =>
    have hserves : serves topicMatchesSub msg d = true := by simp [serves, hz, hs]
    refine ⟨[.iterate, .callbackReturns], { u.record (.invoked d) with
      mq := u.mq.advance, phase := .loop msg }, by simp [Quiet], ?_, rfl, rfl,
      by simp [hserves, State.record]⟩
    simp [Machine.exec, machine, step, hp, iterateStep, hc, hne, hd, hz, hs, hr, State.record]
  | false =>
    have hserves : serves topicMatchesSub msg d = false := by simp [serves, hs]
    refine ⟨[.iterate], { u with mq := u.mq.advance }, by simp [Quiet], ?_, hp, rfl,
      by simp [hserves]⟩
    simp [Machine.exec, machine, step, hp, iterateStep, hc, hne, hd, hz, hs]

theorem Finished.of_turn {msg : Message} {u v t : State κ} {c c' : ℕ} {d : SubscribeData κ}
    (h : Finished topicMatchesSub msg v c' t) (hm : v.mq = u.mq.advance)
    (ht : v.current.trace = u.current.trace ++
      (if serves topicMatchesSub msg d then [.invoked d] else []))
    (hturns : turns u.mq.subscribers c u.mq.subscriberIteratorUpdated =
      d :: turns u.mq.subscribers c' v.mq.subscriberIteratorUpdated)
    (hflag : v.mq.subscriberIteratorUpdated = false) (hc : c ≠ u.mq.subscribers.length) :
    Finished topicMatchesSub msg u c t := by
  have hsub : v.mq.subscribers = u.mq.subscribers := by rw [hm, advance_subscribers]
  have hnew : v.mq.newSubscribers = u.mq.newSubscribers := by rw [hm, advance_newSubscribers]
  constructor
  · exact h.phase
  · rw [h.mq]
    simp only [Client.endDispatch, hsub, hnew, hflag, Bool.false_and, decide_eq_false hc,
      Bool.and_false]
  · rw [h.trace, ht, hturns, hsub, List.filter_cons, List.append_assoc]
    split <;> simp

theorem end_run {msg : Message} {u : State κ} (hp : u.phase = .loop msg)
    (hc : u.mq.subscriberIterator = some u.mq.subscribers.length) :
    ∃ es t, (∀ e ∈ es, Quiet e) ∧ (machine topicMatchesSub).exec u es = some t ∧
      Finished topicMatchesSub msg u u.mq.subscribers.length t := by
  refine ⟨[.iterate], { u with
    mq := u.mq.endDispatch, phase := .idle, finished := u.finished ++ [u.current] },
    by simp [Quiet], ?_, rfl, ?_, ?_⟩
  · simp [Machine.exec, machine, step, hp, iterateStep, hc]
  · simp [Client.endDispatch, hc]
  · simp [turns_end]

/-- From any position the loop comes to its end. Each turn spends the flag or moves on. -/
theorem loop_run {msg : Message} {info : AittMsg} (hr : readMsg msg = .ok info) (n : ℕ) :
    ∀ {u : State κ} {c : ℕ}, u.phase = .loop msg → u.mq.subscriberIterator = some c →
      c ≤ u.mq.subscribers.length → (∀ d ∈ u.mq.subscribers, d.handle ≠ 0) →
      2 * (u.mq.subscribers.length - c) + (if u.mq.subscriberIteratorUpdated then 1 else 0) ≤ n →
      ∃ es t, (∀ e ∈ es, Quiet e) ∧ (machine topicMatchesSub).exec u es = some t ∧
        Finished topicMatchesSub msg u c t := by
  induction n with
  | zero =>
    intro u c hp hc hle hz hn
    obtain rfl : c = u.mq.subscribers.length := by omega
    exact end_run hp hc
  | succ n ih =>
    intro u c hp hc hle hz hn
    by_cases hend : c = u.mq.subscribers.length
    · subst hend
      exact end_run hp hc
    have hlt : c < u.mq.subscribers.length := by omega
    have hd : u.mq.subscribers[c]? = some u.mq.subscribers[c] := List.getElem?_eq_getElem hlt
    obtain ⟨es, v, hq, hv, hvp, hvm, hvt⟩ :=
      @turn_run κ topicMatchesSub _ _ hr _ _ _ hp hc hd (hz _ (List.getElem_mem hlt))
    have hsub : v.mq.subscribers = u.mq.subscribers := by rw [hvm, advance_subscribers]
    have quiet : ∀ fs : List (Event κ), (∀ e ∈ fs, Quiet e) → ∀ e ∈ es ++ fs, Quiet e :=
      fun fs hfs => List.forall_mem_append.mpr ⟨hq, hfs⟩
    cases hflag : u.mq.subscriberIteratorUpdated with
    | true =>
      have hva : v.mq = { u.mq with subscriberIteratorUpdated := false } := by
        rw [hvm, Client.advance, if_pos hflag]
      obtain ⟨fs, t, hfq, hft, hfin⟩ := @ih v c hvp (by rw [hva]; exact hc)
        (by rw [hsub]; exact hle) (by rw [hsub]; exact hz)
        (by rw [hsub, hva]; simp [hflag] at hn ⊢; omega)
      refine ⟨es ++ fs, t, quiet fs hfq, Machine.exec_append hv hft, ?_⟩
      exact hfin.of_turn hvm hvt (by rw [hflag, hva]; exact turns_updated hd) (by rw [hva]) hend
    | false =>
      have hva : v.mq = u.mq.skip := by
        rw [hvm, Client.advance, if_neg (by simp [hflag])]
      have hvf : v.mq.subscriberIteratorUpdated = false := by
        rw [hva]
        exact hflag
      obtain ⟨fs, t, hfq, hft, hfin⟩ := @ih v (c + 1) hvp (by rw [hva]; simp [Client.skip, hc])
        (by rw [hsub]; exact hlt) (by rw [hsub]; exact hz)
        (by rw [hsub, hvf]; simp [hflag] at hn ⊢; omega)
      refine ⟨es ++ fs, t, quiet fs hfq, Machine.exec_append hv hft, ?_⟩
      exact hfin.of_turn hvm hvt (by rw [hflag, hvf]; exact turns_next hd) hvf hend

theorem decide_length_zero (subscribers : List (SubscribeData κ)) :
    decide (0 = subscribers.length) = subscribers.isEmpty := by
  cases subscribers <;> simp

/-- A message that can be read, dispatched with no call from a callback into the client,
does to the client what `messageCB` says and invokes the callbacks it lists, in order. -/
theorem quiet_dispatch {s : State κ} {msg : Message} {info : AittMsg}
    (hr : readMsg msg = .ok info) (hp : s.phase = .idle) (hw : WellFormed s.mq) :
    ∃ es t, (∀ e ∈ es, Quiet e) ∧
      (machine topicMatchesSub).exec s (.message msg :: es) = some t ∧ t.phase = .idle ∧
      t.mq = (messageCB topicMatchesSub s.mq msg).1 ∧
      t.current.trace = (messageCB topicMatchesSub s.mq msg).2.map .invoked := by
  obtain ⟨es, t, hq, he, hfin⟩ := @loop_run κ topicMatchesSub _ _ hr _
    { s with
      mq := s.mq.beginDispatch
      phase := .loop msg
      current := ⟨msg, s.mq.subscribers, []⟩ }
    0 rfl rfl (Nat.zero_le _) (fun d hd => hw.nonnull d (List.mem_append_left _ hd)) le_rfl
  refine ⟨es, t, hq, ?_, hfin.phase, ?_, ?_⟩
  · simp only [Machine.exec, machine, step, hp, Option.bind_some]
    exact he
  · rw [hfin.mq]
    simp only [messageCB, Client.endDispatch, Client.beginDispatch]
    congr 2
    exact decide_length_zero s.mq.subscribers
  · rw [hfin.trace]
    simp [messageCB, Client.beginDispatch]

end MosquittoDelivery
