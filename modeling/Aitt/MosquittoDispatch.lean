import Aitt.MosquittoMQ

/-! Exactly-once dispatch. The loop keeps its place as a position, and `Unsubscribe`
repairs that position only when it erases the very entry the position points at. A run is
careful when no callback erases an entry in front of the position, nobody erases the entry
at the position that an earlier dispatch left behind, and no exception leaves `MessageCB`:
the numbers in user properties are read inside the loop, once for each subscriber that matches,
and `std::stoi` throws when a text is not a number of an `int`. -/
namespace MosquittoDispatch

open AittTypes MqttProperties TransitionRuns TurnTaking MosquittoMQ

variable {κ : Type}

/-- A user property under one of the two keys of the library has a text that `std::stoi`
reads. -/
def LegibleProperty : Property → Prop
  | .userProperty name value =>
    name = replySequenceNumKey ∨ name = replyIsEndSequenceKey → (stoi value).isOk = true
  | _ => True

def Legible (msg : Message) : Prop := ∀ props ∈ msg.props, ∀ p ∈ props, LegibleProperty p

theorem readUserProperty_isOk (m : AittMsg) (p : Property) :
    (readUserProperty m p).isOk = true ↔ LegibleProperty p := by
  have hbind (f : Int32 → AittMsg) (value : String) :
      (do let n ← stoi value; pure (f n) : Except StdError AittMsg).isOk = (stoi value).isOk := by
    cases stoi value <;> rfl
  cases p with
  | userProperty name value =>
    rw [readUserProperty, LegibleProperty]
    by_cases hs : replySequenceNumKey = name
    · rw [if_pos hs, hbind]
      exact ⟨fun h _ => h, fun h => h (.inl hs.symm)⟩
    · rw [if_neg hs]
      by_cases he : replyIsEndSequenceKey = name
      · rw [if_pos he, hbind]
        exact ⟨fun h _ => h, fun h => h (.inr he.symm)⟩
      · rw [if_neg he]
        exact iff_of_true rfl fun h => absurd h (not_or.mpr ⟨Ne.symm hs, Ne.symm he⟩)
  | responseTopic | correlationData | other => exact iff_of_true rfl trivial

theorem foldlM_isOk (props : List Property) (m : AittMsg) :
    (props.foldlM readUserProperty m).isOk = true ↔ ∀ p ∈ props, LegibleProperty p := by
  induction props generalizing m with
  | nil => exact iff_of_true rfl nofun
  | cons p props ih =>
    have hp := readUserProperty_isOk m p
    rw [List.foldlM_cons, List.forall_mem_cons]
    cases hr : readUserProperty m p with
    | error err =>
      rw [hr] at hp
      exact iff_of_false nofun fun h => nomatch hp.mpr h.1
    | ok r =>
      rw [hr] at hp
      exact (ih r).trans (and_iff_right (hp.mp rfl)).symm

theorem readMsg_isOk (msg : Message) : (readMsg msg).isOk = true ↔ Legible msg := by
  unfold Legible readMsg
  cases msg.props with
  | none => exact iff_of_true rfl nofun
  | some props =>
    refine (foldlM_isOk props _).trans ?_
    simp only [Option.mem_def, Option.some.injEq, forall_eq']

instance (msg : Message) : Decidable (Legible msg) :=
  decidable_of_iff ((readMsg msg).isOk = true) (readMsg_isOk msg)

def SafeErase (s : State κ) (subHandle : Address) : Prop :=
  match s.phase with
  | .callback _ _ _ => ∀ c ∈ s.mq.subscriberIterator, c ≤ s.mq.find subHandle
  | _ => ∀ d ∈ s.mq.subscribers, d.handle = subHandle →
      s.mq.subscriberIterator ≠ some (s.mq.find subHandle)

def Unmatched (topicMatchesSub : String → String → Option Bool) (s : State κ) (msg : Message) :
    Prop :=
  ∀ d ∈ s.mq.subscribers, serves topicMatchesSub msg d = false

def Careful (topicMatchesSub : String → String → Option Bool) (s : State κ) : Event κ → Prop
  | .unsubscribe subHandle _ => SafeErase s subHandle
  | .message msg => Legible msg ∨ Unmatched topicMatchesSub s msg
  | .callbackThrows => False
  | _ => True

instance (s : State κ) (h : Address) : Decidable (SafeErase s h) := by
  unfold SafeErase
  split <;> infer_instance

instance (topicMatchesSub : String → String → Option Bool) (s : State κ) (e : Event κ) :
    Decidable (Careful topicMatchesSub s e) :=
  match e with
  | .unsubscribe subHandle _ => inferInstanceAs (Decidable (SafeErase s subHandle))
  | .message msg => inferInstanceAs (Decidable (Legible msg ∨ ∀ _ ∈ _, _))
  | .callbackThrows => inferInstanceAs (Decidable False)
  | .subscribe _ _ | .iterate | .callbackReturns => inferInstanceAs (Decidable True)

theorem drop_eraseIdx {α : Type*} (l : List α) {k i : ℕ} (h : k ≤ i) :
    (l.eraseIdx i).drop k = (l.drop k).eraseIdx (i - k) := by
  induction l generalizing k i with
  | nil => simp
  | cons a l ih =>
    cases k with
    | zero => simp
    | succ k =>
      cases i with
      | zero => omega
      | succ i =>
        rw [List.eraseIdx_cons_succ, List.drop_succ_cons, List.drop_succ_cons,
          ih (by omega), Nat.add_sub_add_right]

theorem drop_eraseIdx_self {α : Type*} (l : List α) (c : ℕ) :
    (l.eraseIdx c).drop c = l.drop (c + 1) := by
  rw [drop_eraseIdx l le_rfl, Nat.sub_self, List.eraseIdx_zero, List.tail_drop]

/-- Erasing behind a position takes exactly that element out of what is pending there. -/
theorem drop_eraseIdx_eq_erase {α : Type*} [DecidableEq α] {l : List α} {k i : ℕ} {a : α}
    (hl : l.Nodup) (h : k ≤ i) (ha : l[i]? = some a) :
    (l.eraseIdx i).drop k = (l.drop k).erase a := by
  have hd : (l.drop k)[i - k]? = some a := by
    rw [List.getElem?_drop, Nat.add_sub_cancel' h, ha]
  obtain ⟨hi, rfl⟩ := List.getElem?_eq_some_iff.mp hd
  rw [drop_eraseIdx l h]
  exact (List.Nodup.erase_getElem (hl.sublist (List.drop_sublist _ _)) _ hi).symm

variable [DecidableEq κ] (topicMatchesSub : String → String → Option Bool)

/-- The position from which subscribers still wait for their turn. While a callback runs the
iterator points at its own entry, unless that entry is gone and the next one moved up. -/
def resume (s : State κ) (c : ℕ) : ℕ :=
  match s.phase with
  | .callback _ _ _ => if s.mq.subscriberIteratorUpdated then c else c + 1
  | _ => c

/-- A running dispatch: what waits behind the iterator is what the round still owes. -/
structure Running (s : State κ) (msg : Message) : Prop where
  about : s.current.msg = msg
  legible : Legible msg ∨ ∀ d ∈ s.current.members, serves topicMatchesSub msg d = false
  iterating : s.mq.subscribersIterating = true
  place : ∃ c, s.mq.subscriberIterator = some c ∧ resume s c ≤ s.mq.subscribers.length ∧
    Fair (serves topicMatchesSub msg)
      ⟨s.current.members, s.mq.subscribers.drop (resume s c), s.current.trace⟩

def Invariant (s : State κ) : Prop :=
  (∀ d ∈ s.finished, ExactlyOnce (serves topicMatchesSub d.msg) d.members d.trace) ∧
  match s.phase with
  | .idle => s.mq.subscribersIterating = false ∧ s.mq.subscriberIteratorUpdated = false ∧
      s.mq.newSubscribers = []
  | .loop msg => s.mq.subscriberIteratorUpdated = false ∧ Running topicMatchesSub s msg
  | .callback msg _ _ => Running topicMatchesSub s msg
  | .terminated => False
  | .undefined => False

variable {topicMatchesSub}

theorem invariant_initial : Invariant topicMatchesSub (initial : State κ) := by
  simp [Invariant, initial, Client.new]

omit [DecidableEq κ] in
/-- A new cell is not among those waiting, since its address is not in use. -/
theorem not_waiting {mq : Client κ} {data : SubscribeData κ} (ha : Allocatable mq data) (k : ℕ) :
    data ∉ mq.subscribers.drop k := fun hm =>
  ha.2 data (List.mem_append_left _ ((List.drop_sublist _ _).subset hm)) rfl

theorem subscribe_invariant {s : State κ} {data : SubscribeData κ} {ret : Bool}
    (h : Invariant topicMatchesSub s) (ho : s.phase.Open) (ha : Allocatable s.mq data) :
    Invariant topicMatchesSub (subscribeStep s data ret) := by
  cases ret with
  | false => exact h
  | true =>
    obtain ⟨hf, hd⟩ := h
    refine ⟨hf, ?_⟩
    cases hp : s.phase with
    | idle =>
      simp only [hp] at hd
      obtain ⟨hi, hu, hn⟩ := hd
      simp [subscribeStep, Client.subscribe, State.record, hp, hi, hu, hn]
    | callback msg info d =>
      simp only [hp] at hd
      obtain ⟨habout, hleg, hi, c, hc, hb, hfair⟩ := hd
      have hmq : (s.mq.subscribe data true).1 =
          { s.mq with newSubscribers := s.mq.newSubscribers ++ [data] } := by
        simp [Client.subscribe, hi]
      simp only [subscribeStep, State.record, hp, hmq, Bool.true_eq_false, if_false]
      refine ⟨habout, hleg, hi, c, hc, ?_, ?_⟩
      · simpa [resume, hp] using hb
      · have hadd := hfair.add (not_waiting ha (resume s c))
        simpa [resume, hp, Round.add] using hadd
    | loop => simp [hp, Phase.Open] at ho
    | terminated => simp [hp, Phase.Open] at ho
    | undefined => simp [hp, Phase.Open] at ho

/-- Erasing at or behind the iterator leaves every other waiting subscriber waiting. -/
theorem erase_running {s : State κ} {msg : Message} {info : AittMsg} {d data : SubscribeData κ}
    {i : ℕ} (hw : WellFormed s.mq) (hp : s.phase = .callback msg info d)
    (h : Running topicMatchesSub s msg) (hi : s.mq.subscribers[i]? = some data)
    (hle : ∀ c ∈ s.mq.subscriberIterator, c ≤ i) (filters : Finset String) :
    Running topicMatchesSub
      { s.record (.removed data) with mq := s.mq.erase i, filters := filters } msg := by
  obtain ⟨habout, hleg, hit, c, hc, hb, hfair⟩ := h
  have hnd := hw.subscribers_nodup
  have hci : c ≤ i := hle c hc
  obtain ⟨hlt, hget⟩ := List.getElem?_eq_some_iff.mp hi
  have hlen := List.length_eraseIdx_of_lt hlt
  refine ⟨habout, hleg, by simpa using hit, c, by simpa using hc, ?_⟩
  cases hu : s.mq.subscriberIteratorUpdated with
  | true =>
    have hupd : (s.mq.erase i).subscriberIteratorUpdated = true := by
      unfold Client.erase; split <;> simp [hu]
    simp only [resume, hp, hu, if_true] at hfair hb
    simp only [resume, State.record, hp, hupd, if_true, erase_subscribers]
    refine ⟨by omega, ?_⟩
    rw [drop_eraseIdx_eq_erase hnd hci hi]
    exact hfair.remove data
  | false =>
    simp only [resume, hp, hu, Bool.false_eq_true, if_false] at hfair hb
    by_cases hic : c = i
    · -- The callback erases its own entry: the next subscriber moves to the iterator.
      subst i
      have hupd : (s.mq.erase c).subscriberIteratorUpdated = true := by
        simp [Client.erase, hc]
      simp only [resume, State.record, hp, hupd, if_true, erase_subscribers]
      refine ⟨by omega, ?_⟩
      rw [drop_eraseIdx_self]
      refine hfair.record (x := .removed data) (by simp) ?_
      intro hm
      have hcons : s.mq.subscribers.drop c = data :: s.mq.subscribers.drop (c + 1) := by
        rw [← hget]; exact (List.getElem_cons_drop hlt).symm
      have hdrop := hnd.sublist (List.drop_sublist c _)
      rw [hcons] at hdrop
      exact (List.nodup_cons.mp hdrop).1 hm
    · have hupd : (s.mq.erase i).subscriberIteratorUpdated = false := by
        simp [Client.erase, hc, hic, hu]
      simp only [resume, State.record, hp, hupd, Bool.false_eq_true, if_false, erase_subscribers]
      refine ⟨by omega, ?_⟩
      rw [drop_eraseIdx_eq_erase hnd (by omega) hi]
      exact hfair.remove data

theorem unsubscribe_invariant {s : State κ} {subHandle : Address} {ret : Bool}
    (hw : WellFormed s.mq) (h : Invariant topicMatchesSub s) (ho : s.phase.Open)
    (hsafe : SafeErase s subHandle) :
    Invariant topicMatchesSub (unsubscribeStep s subHandle ret) := by
  rcases unsubscribe_cases s subHandle ret with ⟨he, -⟩ | ⟨i, data, hidx, hi, hh, he⟩
  · rw [he]; exact h
  rw [he]
  obtain ⟨hf, hd⟩ := h
  refine ⟨hf, ?_⟩
  cases hp : s.phase with
  | idle =>
    simp only [hp] at hd
    obtain ⟨hit, hu, hn⟩ := hd
    have hne : s.mq.subscriberIterator ≠ some i := by
      simp only [SafeErase, hp] at hsafe
      exact hidx ▸ hsafe data (List.mem_of_getElem? hi) hh
    have hupd : (s.mq.erase i).subscriberIteratorUpdated = false := by
      simp [Client.erase, hne, hu]
    simp [State.record, hp, hit, hn, hupd]
  | callback msg info d =>
    simp only [hp] at hd
    simp only [SafeErase, hp] at hsafe
    simp only [State.record, hp]
    have hrun := erase_running hw hp hd hi (fun c hc => hidx ▸ hsafe c hc)
      (if ret then s.filters.erase (cStr data.topic) else s.filters)
    simpa [State.record, hp] using hrun
  | loop => simp [hp, Phase.Open] at ho
  | terminated => simp [hp, Phase.Open] at ho
  | undefined => simp [hp, Phase.Open] at ho

theorem message_invariant {s : State κ} {msg : Message} (hw : WellFormed s.mq)
    (h : Invariant topicMatchesSub s) (hp : s.phase = .idle)
    (hleg : Legible msg ∨ Unmatched topicMatchesSub s msg) :
    Invariant topicMatchesSub { s with
      mq := s.mq.beginDispatch, phase := .loop msg, current := ⟨msg, s.mq.subscribers, []⟩ } := by
  obtain ⟨hf, hd⟩ := h
  simp only [hp] at hd
  refine ⟨hf, hd.2.1, rfl, hleg, rfl, 0, rfl, Nat.zero_le _, ?_⟩
  exact fair_start hw.subscribers_nodup

/-- One turn of the loop: the subscriber at the iterator is called or passed over. -/
theorem iterate_invariant {s t : State κ} {msg : Message} (hw : WellFormed s.mq)
    (h : Invariant topicMatchesSub s) (hp : s.phase = .loop msg)
    (ht : Turn topicMatchesSub s msg t) : Invariant topicMatchesSub t := by
  obtain ⟨hf, hd⟩ := h
  simp only [hp] at hd
  obtain ⟨hu, habout, hleg, hit, c, hc, hb, hfair⟩ := hd
  have hres : resume s c = c := by simp [resume, hp]
  rw [hres] at hb hfair
  -- A subscriber at the iterator is the first one that waits, so the round takes its turn.
  have turn : ∀ {d}, s.mq.subscribers[c]? = some d → c < s.mq.subscribers.length ∧
      Fair (serves topicMatchesSub msg) (Round.take (serves topicMatchesSub msg)
        ⟨s.current.members, d :: s.mq.subscribers.drop (c + 1), s.current.trace⟩) := by
    intro d hg
    obtain ⟨hlt, rfl⟩ := List.getElem?_eq_some_iff.mp hg
    rw [List.getElem_cons_drop hlt]
    exact ⟨hlt, hfair.take⟩
  cases ht with
  | singular hn => rw [hc] at hn; cases hn
  | finish hn he =>
    cases hc.symm.trans hn
    have hdone : Fair (serves topicMatchesSub msg) ⟨s.current.members, [], s.current.trace⟩ := by
      simpa [he] using hfair
    refine ⟨?_, rfl, hu, rfl⟩
    intro d hd
    rcases List.mem_append.mp hd with hd | hd
    · exact hf d hd
    · rw [List.mem_singleton.mp hd, habout]
      exact hdone.exactlyOnce rfl
  | behind hn he hg =>
    cases hc.symm.trans hn
    have hge := List.getElem?_eq_none_iff.mp hg
    omega
  | null hn hg hz =>
    exact absurd hz (hw.nonnull _ (List.mem_append_left _ (List.mem_of_getElem? hg)))
  | raise hn hg hs hr =>
    cases hc.symm.trans hn
    -- nobody who waits matches a message that matched nobody at the start
    rcases hleg with hl | hun
    · have hok := (readMsg_isOk msg).mpr hl
      rw [hr] at hok
      cases hok
    · obtain ⟨hlt, rfl⟩ := List.getElem?_eq_some_iff.mp hg
      have hmem : s.mq.subscribers[c] ∈ s.mq.subscribers.drop c := by
        rw [← List.getElem_cons_drop hlt]
        exact List.mem_cons_self
      rw [hun _ (hfair.sublist.subset hmem)] at hs
      cases hs
  | call hn hg hs hr =>
    cases hc.symm.trans hn
    obtain ⟨hlt, htake⟩ := turn hg
    refine ⟨hf, habout, hleg, hit, c, hc, ?_, ?_⟩
    · simp only [resume, State.record, hu, Bool.false_eq_true, if_false]
      omega
    · simpa [resume, hu, Round.take, hs, State.record] using htake
  | pass hn hg hs =>
    cases hc.symm.trans hn
    obtain ⟨hlt, htake⟩ := turn hg
    have hadv : s.mq.advance = s.mq.skip := by simp [Client.advance, hu]
    simp only [Invariant, hp, hadv, Client.skip]
    refine ⟨hf, hu, habout, hleg, hit, c + 1, by simp [hc], ?_, ?_⟩
    · simp only [resume]
      omega
    · simpa [resume, Round.take, hs] using htake

theorem callbackReturns_invariant {s : State κ} {msg : Message} {info : AittMsg}
    {d : SubscribeData κ} (h : Invariant topicMatchesSub s)
    (hp : s.phase = .callback msg info d) :
    Invariant topicMatchesSub { s with mq := s.mq.advance, phase := .loop msg } := by
  obtain ⟨hf, hd⟩ := h
  simp only [hp] at hd
  obtain ⟨habout, hleg, hit, c, hc, hb, hfair⟩ := hd
  refine ⟨hf, ?_⟩
  cases hu : s.mq.subscriberIteratorUpdated with
  | true =>
    simp only [resume, hp, hu, if_true] at hb hfair
    simp only [Client.advance, hu, if_true]
    exact ⟨trivial, habout, hleg, hit, c, hc, hb, hfair⟩
  | false =>
    simp only [resume, hp, hu, Bool.false_eq_true, if_false] at hb hfair
    simp only [Client.advance, hu, Bool.false_eq_true, if_false, Client.skip]
    exact ⟨trivial, habout, hleg, hit, c + 1, by simp [hc], hb, hfair⟩

theorem careful_step {s t : State κ} {e : Event κ} (hw : WellFormed s.mq)
    (hi : Invariant topicMatchesSub s) (hok : Careful topicMatchesSub s e) (hs : Step topicMatchesSub s e t) :
    Invariant topicMatchesSub t := by
  cases hs with
  | subscribe ho ha => exact subscribe_invariant hi ho ha
  | unsubscribe ho => exact unsubscribe_invariant hw hi ho hok
  | message hp => exact message_invariant hw hi hp hok
  | iterate hp ht => exact iterate_invariant hw hi hp ht
  | callbackReturns hp => exact callbackReturns_invariant hi hp
  | callbackThrows => exact hok.elim

theorem careful_invariant {s : State κ} (h : (machine topicMatchesSub).Reaches (Careful topicMatchesSub) s) :
    Invariant topicMatchesSub s := by
  refine h.invariant invariant_initial ?_
  intro s e t hr hi hok he
  exact careful_step (reachable_wellFormed hr.reachable) hi hok (step_cases he)

theorem loop_not_updated {s : State κ} {msg : Message} (h : Invariant topicMatchesSub s)
    (hp : s.phase = .loop msg) : s.mq.subscriberIteratorUpdated = false := by
  have hd := h.2
  simp only [hp] at hd
  exact hd.1

/-- Where one turn leads: to the end, to the next position, or into a callback. -/
theorem iterate_next {s t : State κ} {msg : Message} {c : ℕ} (hw : WellFormed s.mq)
    (h : Invariant topicMatchesSub s) (hp : s.phase = .loop msg)
    (hc : s.mq.subscriberIterator = some c) (ht : Turn topicMatchesSub s msg t) :
    t.phase = .idle ∨ c < s.mq.subscribers.length ∧
      (t.phase = .loop msg ∧ t.mq = s.mq.skip ∨
        (∃ info d, t.phase = .callback msg info d) ∧ t.mq = s.mq) := by
  have hu := loop_not_updated h hp
  have hi := (iterate_invariant hw h hp ht).2
  cases ht with
  | singular => exact hi.elim
  | finish => exact Or.inl rfl
  | behind => exact hi.elim
  | null hn hg hz =>
    cases hc.symm.trans hn
    exact Or.inr ⟨(List.getElem?_eq_some_iff.mp hg).1, Or.inl ⟨hp, rfl⟩⟩
  | raise => exact hi.elim
  | call hn hg =>
    cases hc.symm.trans hn
    exact Or.inr ⟨(List.getElem?_eq_some_iff.mp hg).1, Or.inr ⟨⟨_, _, rfl⟩, rfl⟩⟩
  | pass hn hg =>
    cases hc.symm.trans hn
    exact Or.inr ⟨(List.getElem?_eq_some_iff.mp hg).1,
      Or.inl ⟨hp, by simp [Client.advance, hu]⟩⟩

def Event.ownTurn : Event κ → Prop
  | .iterate => True
  | .callbackReturns => True
  | _ => False

/-- From inside the loop, with callbacks that return, the dispatch comes to its end. The
number of positions left to visit goes down with every turn. -/
theorem loop_ends {n : ℕ} {s : State κ} {msg : Message} {c : ℕ} (hw : WellFormed s.mq)
    (h : Invariant topicMatchesSub s) (hp : s.phase = .loop msg)
    (hc : s.mq.subscriberIterator = some c) (hn : s.mq.subscribers.length - c = n) :
    ∃ es t, (∀ e ∈ es, Event.ownTurn e) ∧ (machine topicMatchesSub).exec s es = some t ∧
      t.phase = .idle := by
  induction n generalizing s c with
  | zero =>
    rcases iterate_next hw h hp hc (iterate_cases _ _ _) with hi | ⟨hlt, -⟩
    · exact ⟨[.iterate], _, by simp [Event.ownTurn],
        by simp [Machine.exec, machine, step, hp], hi⟩
    · omega
  | succ n ih =>
    have hturn := iterate_cases topicMatchesSub s msg
    have hstep : step topicMatchesSub s .iterate = some (iterateStep topicMatchesSub s msg) := by
      simp [step, hp]
    have hwt := wellFormed_step hw (.iterate hp hturn)
    have hit := iterate_invariant hw h hp hturn
    rcases iterate_next hw h hp hc hturn with hi | ⟨hlt, ⟨hl, hmq⟩ | ⟨⟨info, d, hl⟩, hmq⟩⟩
    · exact ⟨[.iterate], _, by simp [Event.ownTurn],
        by simp [Machine.exec, machine, hstep], hi⟩
    · obtain ⟨es, t, ho, he, ht⟩ := ih hwt hit hl (c := c + 1) (by simp [hmq, Client.skip, hc])
        (by simp only [hmq, Client.skip]; omega)
      refine ⟨.iterate :: es, t, ?_, ?_, ht⟩
      · simpa [Event.ownTurn] using ho
      · simpa [Machine.exec, machine, hstep] using he
    · have hret : step topicMatchesSub (iterateStep topicMatchesSub s msg) .callbackReturns =
          some { iterateStep topicMatchesSub s msg with
            mq := s.mq.advance, phase := .loop msg } := by
        simp [step, hl, hmq]
      have hu := loop_not_updated h hp
      have hback := callbackReturns_invariant hit hl
      rw [hmq] at hback
      obtain ⟨es, t, ho, he, ht⟩ := ih (hw.of_perm (.of_eq (advance_live _))) hback rfl
        (c := c + 1) (by simp [Client.advance, hu, Client.skip, hc])
        (by simp only [Client.advance, hu, Bool.false_eq_true, if_false, Client.skip]; omega)
      refine ⟨.iterate :: .callbackReturns :: es, t, ?_, ?_, ht⟩
      · simpa [Event.ownTurn] using ho
      · simpa [Machine.exec, machine, hstep, hret] using he

theorem dispatch_ends {s : State κ} (hw : WellFormed s.mq) (h : Invariant topicMatchesSub s) :
    ∃ es t, (∀ e ∈ es, Event.ownTurn e) ∧ (machine topicMatchesSub).exec s es = some t ∧
      t.phase = .idle := by
  have hd := h.2
  cases hp : s.phase with
  | idle => exact ⟨[], s, by simp, rfl, hp⟩
  | loop msg =>
    simp only [hp] at hd
    obtain ⟨c, hc, -⟩ := hd.2.place
    exact loop_ends hw h hp hc rfl
  | callback msg info d =>
    simp only [hp] at hd
    obtain ⟨c, hc, -⟩ := hd.place
    have hret : step topicMatchesSub s .callbackReturns =
        some { s with mq := s.mq.advance, phase := .loop msg } := by simp [step, hp]
    obtain ⟨c', hc'⟩ : ∃ c', s.mq.advance.subscriberIterator = some c' := by
      unfold Client.advance
      split
      · exact ⟨c, hc⟩
      · exact ⟨c + 1, by simp [Client.skip, hc]⟩
    obtain ⟨es, t, ho, he, ht⟩ := loop_ends (hw.of_perm (.of_eq (advance_live _)))
      (callbackReturns_invariant h hp) rfl hc' rfl
    refine ⟨.callbackReturns :: es, t, ?_, ?_, ht⟩
    · simpa [Event.ownTurn] using ho
    · simpa [Machine.exec, machine, hret] using he
  | terminated => simp [hp] at hd
  | undefined => simp [hp] at hd

/-- In a careful run the loop never reads behind the vector, every dispatch can come to its
end, and each one that did called every subscriber that stayed until its turn exactly once,
none that had left and none that came during it. -/
theorem dispatch_exactly_once {s : State κ} (h : (machine topicMatchesSub).Reaches (Careful topicMatchesSub) s) :
    s.phase ≠ .undefined ∧ s.phase ≠ .terminated ∧
    (∀ d ∈ s.finished, ExactlyOnce (serves topicMatchesSub d.msg) d.members d.trace) ∧
    ∃ es t, (∀ e ∈ es, Event.ownTurn e) ∧ (machine topicMatchesSub).exec s es = some t ∧
      t.phase = .idle := by
  obtain ⟨hf, hd⟩ := careful_invariant h
  refine ⟨?_, ?_, hf, dispatch_ends (reachable_wellFormed h.reachable) (careful_invariant h)⟩
  · intro hp; simp [hp] at hd
  · intro hp; simp [hp] at hd

def cell (handle : Address) : SubscribeData ℕ := ⟨handle, "t", handle, 0⟩

def announce : Message := ⟨"t", [], none⟩

/-- Three subscribers; the first takes itself out, the second takes out the third. -/
def selfRemoval : List (Event ℕ) :=
  [.subscribe (cell 1) true, .subscribe (cell 2) true, .subscribe (cell 3) true,
   .message announce, .iterate, .unsubscribe 1 true, .callbackReturns,
   .iterate, .unsubscribe 3 true, .callbackReturns, .iterate]

theorem dispatch_exactly_once_self_removal :
    ∃ s : State ℕ, (machine exactMatch).Reaches (Careful exactMatch) s ∧ s.finished.length = 1 ∧
      ∀ d ∈ s.finished, ExactlyOnce (serves exactMatch d.msg) d.members d.trace := by
  obtain ⟨s, hr, hp⟩ := (machine exactMatch).exists_reaches (Careful exactMatch) selfRemoval
    (fun s : State ℕ => s.finished.length = 1) (by decide)
  exact ⟨s, hr, of_decide_eq_true hp, (dispatch_exactly_once hr).2.2.1⟩

/-- The second subscriber takes out the first, which has already been called. -/
def earlierRemoval : List (Event ℕ) :=
  [.subscribe (cell 1) true, .subscribe (cell 2) true, .subscribe (cell 3) true,
   .message announce, .iterate, .callbackReturns,
   .iterate, .unsubscribe 1 true, .callbackReturns, .iterate]

/-- After that the third one, which nobody unsubscribed, is skipped. -/
theorem earlier_removal_skips_a_subscriber :
    ¬ ∀ s : State ℕ, (machine exactMatch).Reachable s →
      ∀ d ∈ s.finished, ExactlyOnce (serves exactMatch d.msg) d.members d.trace := by
  intro h
  obtain ⟨s, hr, hp⟩ := (machine exactMatch).exists_reachable earlierRemoval
    (fun s : State ℕ => s.finished = [⟨announce,
      [cell 1, cell 2, cell 3], [.invoked (cell 1), .invoked (cell 2), .removed (cell 1)]⟩])
    (by decide)
  have hx := h s hr _ (by rw [of_decide_eq_true hp]; exact List.mem_singleton_self _)
  have hstay : ¬ OutBeforeTurn [cell 1, cell 2, cell 3]
      [.invoked (cell 1), .invoked (cell 2), .removed (cell 1)] (cell 3) := by
    rintro ⟨before, after, he, -⟩
    have hm : Act.removed (cell 3) ∈ before ++ .removed (cell 3) :: after := by simp
    rw [← he] at hm
    revert hm
    decide
  have hone := hx.once (cell 3) (by decide) (by decide) hstay
  revert hone
  decide

end MosquittoDispatch
