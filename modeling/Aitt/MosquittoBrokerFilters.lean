import Aitt.MosquittoMQ

/-! Local subscriptions form a list in which one filter may occur many times, while the
broker session is a set of filters. `Unsubscribe` takes the filter out of the session
without looking for another entry that still needs it. -/
namespace MosquittoBrokerFilters

open AittTypes MqttProperties TransitionRuns MosquittoMQ

variable {κ : Type}

structure FiltersCover (s : State κ) : Prop where
  covered : ∀ d ∈ s.mq.live, cStr d.topic ∈ s.filters
  owned : ∀ f ∈ s.filters, ∃ d ∈ s.mq.live, cStr d.topic = f

def SoleOwner (s : State κ) (subHandle : Address) : Prop :=
  ∀ d ∈ s.mq.subscribers, d.handle = subHandle →
    ∀ d' ∈ s.mq.live, d'.handle ≠ subHandle → cStr d'.topic ≠ cStr d.topic

def CallsSucceed : Event κ → Prop
  | .subscribe _ ret => ret = true
  | .unsubscribe _ ret => ret = true
  | _ => True

def SoleOwners (s : State κ) : Event κ → Prop
  | .unsubscribe subHandle _ => SoleOwner s subHandle
  | _ => True

def Allowed (s : State κ) (e : Event κ) : Prop := CallsSucceed e ∧ SoleOwners s e

instance (e : Event κ) : Decidable (CallsSucceed e) := by
  cases e <;> simp only [CallsSucceed] <;> infer_instance

instance (s : State κ) (h : Address) : Decidable (SoleOwner s h) :=
  inferInstanceAs (Decidable (∀ d ∈ s.mq.subscribers, _ → ∀ d' ∈ s.mq.live, _ → _))

instance (s : State κ) (e : Event κ) : Decidable (Allowed s e) := by
  cases e <;> simp only [Allowed, SoleOwners] <;> infer_instance

variable {topicMatchesSub : String → String → Option Bool}

theorem turn_filters {s t : State κ} {msg : Message} (h : Turn topicMatchesSub s msg t) :
    t.filters = s.filters := by
  cases h <;> rfl

/-- The invariant only reads the live entries and the session. -/
theorem FiltersCover.of_same {s t : State κ} (h : FiltersCover s) (hl : t.mq.live = s.mq.live)
    (hf : t.filters = s.filters) : FiltersCover t :=
  ⟨by rw [hl, hf]; exact h.covered, by rw [hl, hf]; exact h.owned⟩

theorem FiltersCover.subscribe {s : State κ} (h : FiltersCover s) (data : SubscribeData κ) :
    FiltersCover (subscribeStep s data true) := by
  have hp := subscribe_live s.mq data
  constructor
  · intro d hd
    rcases List.mem_cons.mp (hp.subset hd) with rfl | hd
    · exact Finset.mem_insert_self _ _
    · exact Finset.mem_insert_of_mem (h.covered d hd)
  · intro f hf
    rcases Finset.mem_insert.mp hf with rfl | hf
    · exact ⟨data, hp.symm.subset List.mem_cons_self, rfl⟩
    · obtain ⟨d, hd, he⟩ := h.owned f hf
      exact ⟨d, hp.symm.subset (List.mem_cons_of_mem _ hd), he⟩

/-- Taking one entry out keeps the agreement exactly when nobody shares its filter. -/
theorem filtersCover_unsubscribe_iff {s : State κ} (hw : WellFormed s.mq) (h : FiltersCover s)
    (subHandle : Address) :
    FiltersCover (unsubscribeStep s subHandle true) ↔ SoleOwner s subHandle := by
  rcases unsubscribe_cases s subHandle true with ⟨he, hno⟩ | ⟨i, data, -, hi, hh, he⟩
  · rw [he]
    refine ⟨fun _ d hd hdh => ?_, fun _ => h⟩
    have hz : subHandle ≠ 0 := hdh ▸ hw.nonnull d (List.mem_append_left _ hd)
    exact absurd hdh (hno hz d hd)
  have hdata : data ∈ s.mq.live := List.mem_append_left _ (List.mem_of_getElem? hi)
  have hmem := hw.mem_erase_live hi
  rw [hh] at hmem
  rw [he]
  constructor
  · intro hc d hd hdh d' hd' hne heq
    obtain rfl : d = data := hw.eq_of_handle (List.mem_append_left _ hd) hdata (hdh.trans hh.symm)
    have hin := hc.covered d' ((hmem d').mpr ⟨hd', hne⟩)
    simp [heq] at hin
  · intro hsole
    constructor
    · intro d hd
      obtain ⟨hd, hne⟩ := (hmem d).mp hd
      simp only [if_true]
      exact Finset.mem_erase.mpr
        ⟨hsole data (List.mem_of_getElem? hi) hh d hd hne, h.covered d hd⟩
    · intro f hf
      simp only [if_true] at hf
      obtain ⟨hne, hf⟩ := Finset.mem_erase.mp hf
      obtain ⟨d, hd, rfl⟩ := h.owned f hf
      refine ⟨d, (hmem d).mpr ⟨hd, fun hdh => hne ?_⟩, rfl⟩
      rw [hw.eq_of_handle hd hdata (hdh.trans hh.symm)]

theorem filtersCover_reaches {s : State κ} (h : (machine topicMatchesSub).Reaches Allowed s) :
    FiltersCover s := by
  refine h.invariant ⟨by simp [machine, initial, Client.new, Client.live],
    by simp [machine, initial]⟩ ?_
  intro s e t hr hi hok he
  cases step_cases he with
  | subscribe ho ha =>
    obtain rfl := hok.1
    exact hi.subscribe _
  | unsubscribe ho =>
    obtain rfl := hok.1
    exact (filtersCover_unsubscribe_iff (reachable_wellFormed hr.reachable) hi _).mpr hok.2
  | message => exact hi.of_same rfl rfl
  | iterate _ ht => exact hi.of_same ht.live (turn_filters ht)
  | callbackReturns => exact hi.of_same (advance_live _) rfl
  | callbackThrows => exact hi.of_same rfl rfl

/-- With successful calls and no shared filter at the moment of an `Unsubscribe`, the session
holds exactly the filters of the live entries, and that condition cannot be weakened: the
next `Unsubscribe` keeps the agreement if and only if it meets it. -/
theorem broker_filters_cover_live_subscribers {s : State κ}
    (h : (machine topicMatchesSub).Reaches Allowed s) :
    FiltersCover s ∧ ∀ subHandle t,
      (machine topicMatchesSub).step s (.unsubscribe subHandle true) = some t →
        (FiltersCover t ↔ SoleOwner s subHandle) := by
  have hc := filtersCover_reaches h
  refine ⟨hc, fun subHandle t he => ?_⟩
  have hs : Step topicMatchesSub s (.unsubscribe subHandle true) t := step_cases he
  cases hs with
  | unsubscribe =>
    exact filtersCover_unsubscribe_iff (reachable_wellFormed h.reachable) hc subHandle

def twoFilters : List (Event ℕ) :=
  [.subscribe ⟨1, "a", 1, 0⟩ true, .subscribe ⟨2, "b", 2, 0⟩ true, .unsubscribe 1 true]

theorem broker_filters_cover_two_filters :
    ∃ s : State ℕ, (machine exactMatch).Reaches Allowed s ∧ s.filters = {"b"} ∧
      FiltersCover s := by
  obtain ⟨s, hr, hp⟩ := (machine exactMatch).exists_reaches Allowed twoFilters
    (fun s : State ℕ => s.filters = {"b"}) (by decide)
  exact ⟨s, hr, of_decide_eq_true hp, (broker_filters_cover_live_subscribers hr).1⟩

def sharedFilter : List (Event ℕ) :=
  [.subscribe ⟨1, "a", 1, 0⟩ true, .subscribe ⟨2, "a", 2, 0⟩ true, .unsubscribe 1 true]

/-- Two subscriptions to one filter: unsubscribing the first silences the second. -/
theorem shared_filter_is_silenced :
    ¬ ∀ s : State ℕ, (machine exactMatch).Reaches (fun _ e => CallsSucceed e) s →
      FiltersCover s := by
  intro h
  obtain ⟨s, hr, hp⟩ := (machine exactMatch).exists_reaches
    (fun _ e => CallsSucceed e) sharedFilter
    (fun s : State ℕ => s.filters = ∅ ∧ ⟨2, "a", 2, 0⟩ ∈ s.mq.live) (by decide)
  obtain ⟨hf, hm⟩ := of_decide_eq_true hp
  have hin := (h s hr).covered _ hm
  simp [hf] at hin

end MosquittoBrokerFilters
