import Aitt.MosquittoMQ

/-! The handles that `Subscribe` has given out, against the two vectors of the client. A
subscription made during a dispatch waits in `new_subscribers` until the dispatch ends, and
`Unsubscribe` looks only into `subscribers`. -/
namespace MosquittoHandles

open AittTypes TransitionRuns MosquittoMQ

variable {κ : Type}

/-- The client with the subscriptions whose handles are out: returned by `Subscribe`, and not
yet taken back by an `Unsubscribe` that returned. The code does not keep them. -/
structure Ledger (κ : Type) where
  state : State κ
  held : List (SubscribeData κ)
  deriving DecidableEq

def returned (r : Client κ × Except ErrCode Address) : Bool := r.2.isOk

def Ledger.settle (l : Ledger κ) : Event κ → List (SubscribeData κ)
  | .subscribe data ret =>
    if returned (l.state.mq.subscribe data ret) then l.held ++ [data] else l.held
  | .unsubscribe subHandle ret =>
    if returned (l.state.mq.unsubscribe subHandle ret) then
      l.held.filter (·.handle ≠ subHandle)
    else l.held
  | _ => l.held

def Ledger.step (topicMatchesSub : String → String → Option Bool) (l : Ledger κ) (e : Event κ) :
    Option (Ledger κ) :=
  (MosquittoMQ.step topicMatchesSub l.state e).map fun s => ⟨s, l.settle e⟩

def machine (topicMatchesSub : String → String → Option Bool) : Machine (Ledger κ) (Event κ) :=
  ⟨⟨initial, []⟩, Ledger.step topicMatchesSub⟩

def Accepted (_ : Ledger κ) : Event κ → Prop
  | .unsubscribe _ ret => ret = true
  | _ => True

instance (l : Ledger κ) (e : Event κ) : Decidable (Accepted l e) :=
  match e with
  | .unsubscribe _ ret => inferInstanceAs (Decidable (ret = true))
  | .subscribe _ _ | .message _ | .iterate | .callbackReturns | .callbackThrows =>
    inferInstanceAs (Decidable True)

structure TakenOut (mq : Client κ) (d : SubscribeData κ)
    (r : Client κ × Except ErrCode Address) : Prop where
  result : r.2 = .ok d.userData
  subscribers : r.1.subscribers = mq.subscribers.filter (·.handle ≠ d.handle)
  newSubscribers : r.1.newSubscribers = mq.newSubscribers.filter (·.handle ≠ d.handle)

structure Balanced (l : Ledger κ) : Prop where
  client : WellFormed l.state.mq
  held : ∀ d, d ∈ l.held ↔ d ∈ l.state.mq.live

variable {topicMatchesSub : String → String → Option Bool}

theorem returned_subscribe (mq : Client κ) (data : SubscribeData κ) (ret : Bool) :
    returned (mq.subscribe data ret) = ret := by
  cases ret with
  | false => rfl
  | true =>
    rw [subscribe_succeeds]
    rfl

/-- `Unsubscribe` throws and leaves the client as it is, or returns and takes out the entry. -/
theorem unsubscribe_outcome (mq : Client κ) (hw : WellFormed mq) (subHandle : Address) :
    (returned (mq.unsubscribe subHandle true) = false ∧
        (mq.unsubscribe subHandle true).1 = mq ∧
        ∀ d ∈ mq.subscribers, d.handle ≠ subHandle) ∨
      returned (mq.unsubscribe subHandle true) = true ∧
        ∀ d, d ∈ (mq.unsubscribe subHandle true).1.live ↔ d ∈ mq.live ∧ d.handle ≠ subHandle := by
  unfold Client.unsubscribe
  by_cases hz : subHandle = 0
  · rw [if_pos hz]
    refine .inr ⟨rfl, fun d => ⟨fun hd => ⟨hd, ?_⟩, And.left⟩⟩
    rw [hz]
    exact hw.nonnull d hd
  · rw [if_neg hz]
    cases hg : mq.subscribers[mq.find subHandle]? with
    | none =>
      refine .inl ⟨rfl, rfl, fun d hd hh => ?_⟩
      have hlt : mq.find subHandle < mq.subscribers.length :=
        List.findIdx_lt_length_of_exists ⟨d, hd, by simpa using hh⟩
      have hge := List.getElem?_eq_none_iff.mp hg
      omega
    | some data =>
      have hh : data.handle = subHandle := by
        simpa using List.findIdx_of_getElem?_eq_some hg
      refine .inr ⟨rfl, fun d => ?_⟩
      rw [hw.mem_erase_live hg d, hh]

theorem Balanced.subscribe {l : Ledger κ} (h : Balanced l) {data : SubscribeData κ} {ret : Bool}
    (ha : Allocatable l.state.mq data) :
    Balanced ⟨subscribeStep l.state data ret, l.settle (.subscribe data ret)⟩ := by
  cases ret with
  | false => exact h
  | true =>
    have hp := subscribe_live l.state.mq data
    refine ⟨h.client.subscribe ha, fun d => ?_⟩
    rw [Ledger.settle, returned_subscribe, if_pos rfl, List.mem_append, List.mem_singleton, h.held]
    exact (or_comm.trans List.mem_cons.symm).trans hp.mem_iff.symm

theorem unsubscribeStep_mq (s : State κ) (subHandle : Address) (ret : Bool) :
    (unsubscribeStep s subHandle ret).mq = (s.mq.unsubscribe subHandle ret).1 := by
  unfold unsubscribeStep Client.unsubscribe
  by_cases hz : subHandle = 0
  · rw [if_pos hz, if_pos hz]
  · rw [if_neg hz, if_neg hz]
    cases hg : s.mq.subscribers[s.mq.find subHandle]? with
    | none => rfl
    | some data => rfl

theorem Balanced.unsubscribe {l : Ledger κ} (h : Balanced l) (subHandle : Address)
    (hw : WellFormed (unsubscribeStep l.state subHandle true).mq) :
    Balanced ⟨unsubscribeStep l.state subHandle true, l.settle (.unsubscribe subHandle true)⟩ := by
  refine ⟨hw, fun d => ?_⟩
  rw [unsubscribeStep_mq, Ledger.settle]
  rcases unsubscribe_outcome l.state.mq h.client subHandle with ⟨hr, he, -⟩ | ⟨hr, hd⟩
  · rw [hr, he]
    exact h.held d
  · rw [hr, if_pos rfl, hd, ← h.held]
    simp [List.mem_filter]

theorem Balanced.step {l l' : Ledger κ} {e : Event κ} (h : Balanced l) (hk : Accepted l e)
    (hs : l.step topicMatchesSub e = some l') : Balanced l' := by
  obtain ⟨t, ht, rfl⟩ := Option.map_eq_some_iff.mp hs
  have hstep := step_cases ht
  have hw := wellFormed_step h.client hstep
  cases hstep with
  | subscribe ho ha => exact h.subscribe ha
  | unsubscribe ho =>
    cases hk
    exact h.unsubscribe _ hw
  | message => exact ⟨hw, h.held⟩
  | iterate _ hturn =>
    refine ⟨hw, fun d => ?_⟩
    rw [hturn.live]
    exact h.held d
  | callbackReturns =>
    refine ⟨hw, fun d => ?_⟩
    rw [advance_live]
    exact h.held d
  | callbackThrows => exact ⟨hw, h.held⟩

theorem balanced {l : Ledger κ} (h : (machine topicMatchesSub).Reaches Accepted l) :
    Balanced l := by
  refine h.invariant ⟨⟨List.nodup_nil, nofun⟩, fun d => Iff.rfl⟩ ?_
  intro l e l' _ hb hk hs
  exact hb.step hk hs

/-- Where handles are different, erasing an entry is dropping its handle. -/
theorem eraseIdx_eq_filter {l : List (SubscribeData κ)} (hn : (l.map (·.handle)).Nodup) {i : ℕ}
    {d : SubscribeData κ} (hi : l[i]? = some d) :
    l.eraseIdx i = l.filter (·.handle ≠ d.handle) := by
  induction l generalizing i with
  | nil => cases hi
  | cons x l ih =>
    rw [List.map_cons, List.nodup_cons] at hn
    cases i with
    | zero =>
      obtain rfl := Option.some.inj hi
      rw [List.eraseIdx_zero, List.tail_cons, List.filter_cons_of_neg (by simp)]
      refine (List.filter_eq_self.mpr fun y hy => ?_).symm
      have hne : y.handle ≠ x.handle := fun he => hn.1 (he ▸ List.mem_map_of_mem hy)
      simpa using hne
    | succ i =>
      have hd : d ∈ l := List.mem_of_getElem? hi
      have hne : x.handle ≠ d.handle := fun he => hn.1 (he ▸ List.mem_map_of_mem hd)
      rw [List.eraseIdx_cons_succ, List.filter_cons_of_pos (by simpa using hne), ih hn.2 hi]

/-- No entry of one vector has the handle of an entry of the other. -/
theorem handle_ne {mq : Client κ} (hw : WellFormed mq) {d e : SubscribeData κ}
    (hd : d ∈ mq.subscribers) (he : e ∈ mq.newSubscribers) : d.handle ≠ e.handle := by
  have hall := hw.handles
  rw [Client.live, List.map_append, List.nodup_append] at hall
  exact hall.2.2 _ (List.mem_map_of_mem hd) _ (List.mem_map_of_mem he)

/-- An entry of `subscribers` is found and taken out. -/
theorem takenOut_of_mem {mq : Client κ} (hw : WellFormed mq) {d : SubscribeData κ}
    (hd : d ∈ mq.subscribers) : TakenOut mq d (mq.unsubscribe d.handle true) := by
  have hlive : d ∈ mq.live := List.mem_append_left _ hd
  have hn : (mq.subscribers.map (·.handle)).Nodup :=
    hw.handles.sublist ((List.sublist_append_left _ _).map _)
  have hlt : mq.find d.handle < mq.subscribers.length :=
    List.findIdx_lt_length_of_exists ⟨d, hd, by simp⟩
  have hget := List.getElem?_eq_getElem hlt
  have hsame : mq.subscribers[mq.find d.handle] = d := by
    refine hw.eq_of_handle (List.mem_append_left _ (List.getElem_mem hlt)) hlive ?_
    simpa using List.findIdx_of_getElem?_eq_some hget
  rw [hsame] at hget
  have hout : mq.unsubscribe d.handle true = (mq.erase (mq.find d.handle), .ok d.userData) := by
    simp only [Client.unsubscribe, if_neg (hw.nonnull d hlive), hget, if_true]
  rw [hout]
  refine ⟨rfl, ?_, ?_⟩
  · rw [erase_subscribers]
    exact eraseIdx_eq_filter hn hget
  · -- The handle is in `subscribers`, so no pending entry has it.
    rw [erase_newSubscribers]
    refine (List.filter_eq_self.mpr fun x hx => ?_).symm
    simpa using (handle_ne hw hd hx).symm

/-- A pending entry is not found. -/
theorem unsubscribe_pending {mq : Client κ} (hw : WellFormed mq) {d : SubscribeData κ}
    (hd : d ∈ mq.newSubscribers) : mq.unsubscribe d.handle true = (mq, .error .noDataErr) := by
  have hlive : d ∈ mq.live := List.mem_append_right _ hd
  have hnone : mq.subscribers[mq.find d.handle]? = none := by
    cases hg : mq.subscribers[mq.find d.handle]? with
    | none => rfl
    | some data =>
      have hh : data.handle = d.handle := by
        simpa using List.findIdx_of_getElem?_eq_some hg
      exact absurd hh (handle_ne hw (List.mem_of_getElem? hg) hd)
  simp only [Client.unsubscribe, if_neg (hw.nonnull d hlive), hnone]

def Calm (s : State κ) : Prop :=
  s.phase = .idle → s.mq.subscribersIterating = false ∧ s.mq.newSubscribers = []

theorem Calm.subscribe {s : State κ} (h : Calm s) (data : SubscribeData κ) (ret : Bool) :
    Calm (subscribeStep s data ret) := by
  cases ret with
  | false => exact h
  | true =>
    intro hp
    obtain ⟨hi, hn⟩ := h hp
    simp [subscribeStep, Client.subscribe, hi, hn]

theorem Calm.unsubscribe {s : State κ} (h : Calm s) (subHandle : Address) (ret : Bool) :
    Calm (unsubscribeStep s subHandle ret) := by
  rcases unsubscribe_cases s subHandle ret with ⟨he, -⟩ | ⟨i, data, -, -, -, he⟩
  · rw [he]
    exact h
  · rw [he]
    intro hp
    rw [erase_iterating, erase_newSubscribers]
    exact h hp

theorem Calm.step {s t : State κ} {e : Event κ} (h : Calm s)
    (hs : Step topicMatchesSub s e t) : Calm t := by
  cases hs with
  | subscribe => exact h.subscribe _ _
  | unsubscribe => exact h.unsubscribe _ _
  | message | callbackReturns | callbackThrows => exact nofun
  | iterate hp ht =>
    cases ht with
    | finish => exact fun _ => ⟨rfl, rfl⟩
    | singular | behind | raise | call => exact nofun
    | null | pass =>
      intro hi
      cases hp.symm.trans hi

theorem calm {l : Ledger κ} (h : (machine topicMatchesSub).Reaches Accepted l) :
    Calm l.state := by
  refine h.invariant (I := fun l => Calm l.state) (fun _ => ⟨rfl, rfl⟩) ?_
  intro l e l' _ hc _ hs
  obtain ⟨t, ht, rfl⟩ := Option.map_eq_some_iff.mp hs
  exact hc.step (step_cases ht)

/-- `Unsubscribe` takes out a handle exactly when it is not one that the dispatch going on has
given out; so it always does between two dispatches. -/
theorem unsubscribe_succeeds_iff {l : Ledger κ}
    (h : (machine topicMatchesSub).Reaches Accepted l) {d : SubscribeData κ} (hd : d ∈ l.held) :
    (TakenOut l.state.mq d (l.state.mq.unsubscribe d.handle true) ↔
        d ∉ l.state.mq.newSubscribers) ∧
      (l.state.phase = .idle → d ∉ l.state.mq.newSubscribers) := by
  have hb := balanced h
  constructor
  · constructor
    · intro hout hp
      have hresult := hout.result
      rw [unsubscribe_pending hb.client hp] at hresult
      cases hresult
    · intro hp
      rcases List.mem_append.mp ((hb.held d).mp hd) with hs | hs
      · exact takenOut_of_mem hb.client hs
      · exact absurd hs hp
  · intro hi
    rw [(calm h hi).2]
    exact List.not_mem_nil

def cell (handle : Address) : SubscribeData ℕ := ⟨handle, "t", handle, 10 * handle⟩

/-- The first subscriber is called and takes out the second. -/
theorem other_subscriber_taken_out :
    ∃ l : Ledger ℕ, (machine exactMatch).Reaches Accepted l ∧ l.state.phase ≠ .idle ∧
      TakenOut l.state.mq (cell 2) (l.state.mq.unsubscribe 2 true) := by
  obtain ⟨l, hr, hl⟩ := (machine exactMatch).exists_reaches Accepted
    [.subscribe (cell 1) true, .subscribe (cell 2) true, .message ⟨"t", [], none⟩, .iterate,
      .subscribe (cell 3) true]
    (fun l => l.state.phase ≠ .idle && cell 2 ∈ l.held &&
      cell 2 ∉ l.state.mq.newSubscribers) (by decide +kernel)
  simp only [Bool.and_eq_true, decide_eq_true_eq] at hl
  exact ⟨l, hr, hl.1.1, (unsubscribe_succeeds_iff hr hl.1.2).1.mpr hl.2⟩

/-- The callback of the first subscriber subscribes and cannot take that back. -/
theorem pending_subscriber_not_found :
    ∃ l : Ledger ℕ, (machine exactMatch).Reaches Accepted l ∧ cell 2 ∈ l.held ∧
      l.state.mq.unsubscribe 2 true = (l.state.mq, .error .noDataErr) ∧
      ¬ TakenOut l.state.mq (cell 2) (l.state.mq.unsubscribe 2 true) := by
  obtain ⟨l, hr, hl⟩ := (machine exactMatch).exists_reaches Accepted
    [.subscribe (cell 1) true, .message ⟨"t", [], none⟩, .iterate, .subscribe (cell 2) true]
    (fun l => cell 2 ∈ l.held && cell 2 ∈ l.state.mq.newSubscribers) (by decide +kernel)
  simp only [Bool.and_eq_true, decide_eq_true_eq] at hl
  have hu := unsubscribe_pending (balanced hr).client hl.2
  refine ⟨l, hr, hl.1, hu, fun hout => ?_⟩
  have hresult := hout.result
  rw [show (cell 2).handle = 2 from rfl] at hu
  rw [hu] at hresult
  cases hresult

end MosquittoHandles
