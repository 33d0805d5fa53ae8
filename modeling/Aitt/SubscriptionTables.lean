import Aitt.AittImpl

/-! The three tables of MQTT subscriptions: the list of `AITT::Impl`, the subscribers of the
client and the table of the discovery handler. An operation changes them one after the other,
with a call to the broker between any two. -/
namespace SubscriptionTables

open AittTypes MqttProperties TransitionRuns AittImpl
open MosquittoMQ (SubscribeData)

variable {κ : Type}

/-- `calls` and `ret`, `published` are the successes of the calls to the broker. -/
inductive Event (κ : Type) where
  | subscribe (topic : String) (cb : κ) (userData : Address) (o : Outcome)
  | unsubscribe (id : Address) (ret published : Bool)
  | unsubscribeAll (calls : ℕ → Bool × Bool)
  | message (msg : Message)

def step (topicMatchesSub : String → String → Option Bool) (i : Impl κ) :
    Event κ → Option (Impl κ)
  | .subscribe topic cb userData o =>
    if Fresh i .mqtt o then some (i.subscribe .mqtt topic cb userData o).1 else none
  | .unsubscribe id ret published => some (i.unsubscribe id ret published).1
  | .unsubscribeAll calls => some (i.unsubscribeAll calls).1
  | .message msg => some (i.messageCB topicMatchesSub msg).1

def machine (topicMatchesSub : String → String → Option Bool) (ip : String) :
    Machine (Impl κ) (Event κ) := ⟨.new ip, step topicMatchesSub⟩

def mqttHandles (i : Impl κ) : List Address :=
  (i.subscribedList.filter (·.protocol = .mqtt)).map (·.handle)

structure Agree (i : Impl κ) : Prop where
  list : (mqttHandles i).Perm (i.mq.live.map (·.handle))
  table : (i.mySubscribeTable.map (·.1)).Perm (i.mq.live.map (·.handle))
  nodup : (i.mq.live.map (·.handle)).Nodup

/-- No call to the broker fails after the first table has changed. -/
def Ok (i : Impl κ) : Event κ → Prop
  | .subscribe _ _ _ o => o.ret = true → o.published = true
  | .unsubscribe id ret published => (i.find id).isSome = true → ret = true ∧ published = true
  | .unsubscribeAll calls => ∀ n < i.subscribedList.length, calls n = (true, true)
  | .message _ => True

instance (i : Impl κ) (e : Event κ) : Decidable (Ok i e) := by
  cases e <;> simp only [Ok] <;> infer_instance

structure Remaining (i : Impl κ) (rest : List (SubscribeInfo κ)) : Prop where
  mq : MosquittoMQ.WellFormed i.mq
  calm : i.mq.newSubscribers = [] ∧ i.mq.subscribersIterating = false
  protocols : ∀ e ∈ rest, e.protocol = .mqtt
  list : (rest.map (·.handle)).Perm (i.mq.live.map (·.handle))
  table : i.mySubscribeTable.Perm (i.mq.live.map fun d => (d.handle, d.topic))

structure Invariant (i : Impl κ) : Prop extends Remaining i i.subscribedList where
  addresses : (i.subscribedList.map (·.address)).Nodup

theorem Remaining.keys {i : Impl κ} {rest : List (SubscribeInfo κ)} (h : Remaining i rest) :
    (i.mySubscribeTable.map (·.1)).Perm (i.mq.live.map (·.handle)) := by
  have hp := h.table.map (·.1)
  rwa [List.map_map] at hp

theorem Remaining.length {i : Impl κ} {rest : List (SubscribeInfo κ)} (h : Remaining i rest) :
    i.mq.live.length = rest.length := by
  have hl := h.list.length_eq
  simp only [List.length_map] at hl
  exact hl.symm

theorem Agree.length {i : Impl κ} (h : Agree i) :
    i.mq.live.length ≤ i.subscribedList.length := by
  have hl := h.list.length_eq
  simp only [mqttHandles, List.length_map] at hl
  rw [← hl]
  exact List.length_filter_le _ _

theorem mqttHandles_eq {i : Impl κ} (hp : ∀ e ∈ i.subscribedList, e.protocol = .mqtt) :
    mqttHandles i = i.subscribedList.map (·.handle) := by
  rw [mqttHandles, List.filter_eq_self.mpr]
  intro e he
  simpa using hp e he

theorem Invariant.agree {i : Impl κ} (h : Invariant i) : Agree i := by
  refine ⟨?_, h.keys, h.mq.handles⟩
  rw [mqttHandles_eq h.protocols]
  exact h.list

/-- The client has the entry under a handle of the list, and gives it up before it calls the
broker. -/
theorem Remaining.unsubscribe {i : Impl κ} {info : SubscribeInfo κ}
    {rest : List (SubscribeInfo κ)} (h : Remaining i (info :: rest)) (ret : Bool) :
    ∃ mq d, i.mq.unsubscribe info.handle ret =
        (mq, if ret then .ok d.userData else .error .mqttErr) ∧
      d.handle = info.handle ∧ i.mq.live.Perm (d :: mq.live) ∧
      MosquittoMQ.WellFormed mq ∧ mq.newSubscribers = [] ∧ mq.subscribersIterating = false := by
  have hmem : info.handle ∈ i.mq.live.map (·.handle) := h.list.subset List.mem_cons_self
  obtain ⟨d, hd, hh⟩ := List.mem_map.mp hmem
  obtain ⟨n, hget, hu⟩ := h.mq.unsubscribe_live h.calm.1 hd ret
  refine ⟨i.mq.erase n, d, hh ▸ hu, hh, MosquittoMQ.erase_live hget, h.mq.erase hget, ?_, ?_⟩
  · rw [MosquittoMQ.erase_newSubscribers]
    exact h.calm.1
  · rw [MosquittoMQ.erase_iterating]
    exact h.calm.2

/-- The discovery handler gives the entry up as well. -/
theorem Remaining.erase {i : Impl κ} {info : SubscribeInfo κ} {rest : List (SubscribeInfo κ)}
    (h : Remaining i (info :: rest)) {mq : MosquittoMQ.Client (Closure κ)}
    {d : SubscribeData (Closure κ)} (hh : d.handle = info.handle)
    (hp : i.mq.live.Perm (d :: mq.live)) (hw : MosquittoMQ.WellFormed mq)
    (hc : mq.newSubscribers = [] ∧ mq.subscribersIterating = false) :
    Remaining { i with mq := mq, mySubscribeTable :=
      i.mySubscribeTable.filter (·.1 ≠ info.handle) } rest where
  mq := hw
  calm := hc
  protocols e he := h.protocols e (List.mem_cons_of_mem _ he)
  list := by
    have hl := h.list.trans (hp.map _)
    rw [List.map_cons, List.map_cons, hh] at hl
    exact hl.cons_inv
  table := by
    have hn : d.handle ∉ mq.live.map (·.handle) :=
      (List.nodup_cons.mp ((hp.map _).nodup_iff.mp h.mq.handles)).1
    have hrest : (mq.live.map fun d => (d.handle, d.topic)).filter (·.1 ≠ info.handle) =
        mq.live.map fun d => (d.handle, d.topic) := by
      rw [List.filter_eq_self]
      intro p hp
      obtain ⟨e, he, rfl⟩ := List.mem_map.mp hp
      have hne : e.handle ≠ info.handle := fun heq =>
        hn (List.mem_map.mpr ⟨e, he, heq.trans hh.symm⟩)
      simpa using hne
    have ht := ((h.table.trans (hp.map _)).filter (·.1 ≠ info.handle))
    rw [List.map_cons, List.filter_cons_of_neg (by simp [hh]), hrest] at ht
    exact ht

/-- One turn of `UnsubscribeAll`, which is also the transport's part of `Unsubscribe`: either
both calls succeed and the entry is gone from both tables, or the client alone is sure to
have lost it. -/
theorem Remaining.turn {i : Impl κ} {info : SubscribeInfo κ} {rest : List (SubscribeInfo κ)}
    (h : Remaining i (info :: rest)) (ret published : Bool) :
    ∃ i' r, i.transportUnsubscribe info ret published = (i', r) ∧
      i'.subscribedList = i.subscribedList ∧ i'.mq.live.length = rest.length ∧
      ((ret = true ∧ published = true) ∧ (∃ userData, r = .ok userData) ∧ Remaining i' rest ∨
        ¬ (ret = true ∧ published = true) ∧ ∃ err, r = .error err) := by
  obtain ⟨mq, d, hu, hh, hp, hw, hc⟩ := h.unsubscribe ret
  have hlen : mq.live.length = rest.length := by
    have hl := hp.length_eq
    rw [h.length, List.length_cons, List.length_cons] at hl
    omega
  have hkey : info.handle ∈ i.mySubscribeTable.map (·.1) :=
    h.keys.symm.subset (h.list.subset List.mem_cons_self)
  rw [transportUnsubscribe_mqtt i (h.protocols info List.mem_cons_self)]
  cases ret with
  | false =>
    refine ⟨{ i with mq := mq }, .error (.aittException .mqttErr), ?_, rfl, hlen,
      Or.inr ⟨by simp, _, rfl⟩⟩
    rw [Impl.unsubscribeMQ, hu]
    rfl
  | true =>
    refine ⟨{ i with mq := mq, mySubscribeTable :=
      i.mySubscribeTable.filter (·.1 ≠ info.handle) },
      if published then .ok d.userData else .error (.aittException .mqttErr), ?_, rfl, hlen, ?_⟩
    · rw [Impl.unsubscribeMQ, hu]
      simp only [if_true, if_pos hkey]
    · cases published with
      | false => exact Or.inr ⟨by simp, _, rfl⟩
      | true => exact Or.inl ⟨⟨rfl, rfl⟩, ⟨_, rfl⟩, h.erase hh hp hw hc⟩

theorem Remaining.each {i : Impl κ} {rest : List (SubscribeInfo κ)} (h : Remaining i rest)
    (calls : ℕ → Bool × Bool) :
    ∃ i' r, Impl.unsubscribeEach rest calls i = (i', r) ∧
      i'.subscribedList = i.subscribedList ∧
      ((∀ n < rest.length, calls n = (true, true)) ∧ r = .ok () ∧ Remaining i' [] ∨
        ¬ (∀ n < rest.length, calls n = (true, true)) ∧ (∃ err, r = .error err) ∧
          i'.mq.live.length < rest.length) := by
  induction rest generalizing i calls with
  | nil => exact ⟨i, .ok (), rfl, rfl, Or.inl ⟨by simp, rfl, h⟩⟩
  | cons info rest ih =>
    obtain ⟨j, r, ht, hlist, hlen, hr⟩ := h.turn (calls 0).1 (calls 0).2
    rw [Impl.unsubscribeEach, ht]
    rcases hr with ⟨hok, ⟨userData, rfl⟩, hj⟩ | ⟨hfail, err, rfl⟩
    · obtain ⟨i', r', he, hlist', hr'⟩ := ih hj fun n => calls (n + 1)
      have hiff : (∀ n < (info :: rest).length, calls n = (true, true)) ↔
          ∀ n < rest.length, calls (n + 1) = (true, true) := by
        constructor
        · intro hall n hn
          exact hall (n + 1) (by rw [List.length_cons]; omega)
        · intro hall n hn
          cases n with
          | zero => exact Prod.ext hok.1 hok.2
          | succ n => exact hall n (by rw [List.length_cons] at hn; omega)
      refine ⟨i', r', he, hlist'.trans hlist, ?_⟩
      rw [hiff]
      rcases hr' with hr' | ⟨hfail, herr, hl⟩
      · exact Or.inl hr'
      · exact Or.inr ⟨hfail, herr, by rw [List.length_cons]; omega⟩
    · refine ⟨j, .error err, rfl, hlist, Or.inr ⟨fun hall => ?_, ⟨err, rfl⟩, ?_⟩⟩
      · have h0 := hall 0 (Nat.succ_pos _)
        exact hfail ⟨congrArg Prod.fst h0, congrArg Prod.snd h0⟩
      · rw [List.length_cons]
        omega

theorem Invariant.new (ip : String) : Invariant (Impl.new ip : Impl κ) where
  mq := (Linked.new ip).mq
  calm := ⟨rfl, rfl⟩
  protocols := by intro e he; cases he
  list := .refl _
  table := .refl _
  addresses := List.nodup_nil

/-- `Subscribe` on a handle that the discovery handler does not know. -/
theorem subscribe_mqtt (i : Impl κ) (topic : String) (cb : κ) (userData : Address) (o : Outcome)
    (hkey : o.handle ∉ i.mySubscribeTable.map (·.1)) :
    (i.subscribe .mqtt topic cb userData o).1 =
      if o.ret = false then i
      else { i with
        mq := (i.mq.subscribe ⟨o.handle, topic, ⟨o.info, cb⟩, userData⟩ true).1
        mySubscribeTable := i.mySubscribeTable ++ [(o.handle, topic)]
        subscribedList := if o.published then
          i.subscribedList ++ [⟨o.info, .mqtt, o.handle, cb⟩] else i.subscribedList } := by
  unfold Impl.subscribe Impl.transportSubscribe Impl.subscribeMQ
  cases hret : o.ret with
  | false =>
    rw [MosquittoMQ.subscribe_fails]
    rfl
  | true =>
    rw [MosquittoMQ.subscribe_succeeds]
    simp only [if_neg hkey]
    cases o.published <;> rfl

theorem Invariant.append {i : Impl κ} (h : Invariant i) {topic : String} {cb : κ}
    {userData : Address} {o : Outcome} (hf : Fresh i .mqtt o) :
    Invariant { i with
      mq := (i.mq.subscribe ⟨o.handle, topic, ⟨o.info, cb⟩, userData⟩ true).1
      mySubscribeTable := i.mySubscribeTable ++ [(o.handle, topic)]
      subscribedList := i.subscribedList ++ [⟨o.info, .mqtt, o.handle, cb⟩] } where
  mq := by
    refine h.mq.subscribe ⟨hf.nonnull, fun d hd => ?_⟩
    exact hf.handle (d.handle, d.cb) (mem_cells_mqtt.mpr ⟨d, hd, rfl⟩)
  calm := by
    simp [MosquittoMQ.Client.subscribe, h.calm.1, h.calm.2]
  protocols := by
    intro e he
    rcases List.mem_append.mp he with he | he
    · exact h.protocols e he
    · rw [List.mem_singleton.mp he]
  list := by
    have hp := (MosquittoMQ.subscribe_live i.mq
      ⟨o.handle, topic, ⟨o.info, cb⟩, userData⟩).map fun d => d.handle
    rw [List.map_append]
    exact (List.perm_append_singleton _ _).trans ((h.list.cons o.handle).trans hp.symm)
  table := by
    have hp := (MosquittoMQ.subscribe_live i.mq
      ⟨o.handle, topic, ⟨o.info, cb⟩, userData⟩).map fun d => (d.handle, d.topic)
    exact (List.perm_append_singleton _ _).trans ((h.table.cons (o.handle, topic)).trans hp.symm)
  addresses := by
    rw [List.map_append, List.nodup_append]
    refine ⟨h.addresses, by simp, fun a hm b hb => ?_⟩
    obtain ⟨e, he, rfl⟩ := List.mem_map.mp hm
    obtain rfl : b = o.info := by simpa using hb
    exact hf.info e he

/-- All three tables get the new entry, unless the broker refuses it at once or the
publication fails, which leaves the list without it. -/
theorem Invariant.subscribe {i : Impl κ} (h : Invariant i) (topic : String) (cb : κ)
    (userData : Address) {o : Outcome} (hf : Fresh i .mqtt o) :
    (Invariant (i.subscribe .mqtt topic cb userData o).1 ∧ (o.ret = true → o.published = true)) ∨
      ¬ (o.ret = true → o.published = true) ∧
        (i.subscribe .mqtt topic cb userData o).1.subscribedList.length <
          (i.subscribe .mqtt topic cb userData o).1.mq.live.length := by
  have hkey : o.handle ∉ i.mySubscribeTable.map (·.1) := by
    intro hm
    obtain ⟨d, hd, he⟩ := List.mem_map.mp (h.keys.subset hm)
    exact hf.handle (d.handle, d.cb) (mem_cells_mqtt.mpr ⟨d, hd, rfl⟩) he
  rw [subscribe_mqtt i topic cb userData o hkey]
  cases hret : o.ret with
  | false => exact Or.inl ⟨h, fun hc => nomatch hc⟩
  | true =>
    cases hpub : o.published with
    | false =>
      have hp := MosquittoMQ.subscribe_live i.mq ⟨o.handle, topic, ⟨o.info, cb⟩, userData⟩
      have hl := hp.length_eq
      rw [List.length_cons, h.length] at hl
      refine Or.inr ⟨by simp, ?_⟩
      simp only [Bool.true_eq_false, Bool.false_eq_true, if_false]
      omega
    | true => exact Or.inl ⟨h.append hf, fun _ => rfl⟩

/-- The entry that `Unsubscribe` finds, put in front. -/
theorem Invariant.front {i : Impl κ} (h : Invariant i) {id : Address} {info : SubscribeInfo κ}
    (hf : i.find id = some info) :
    i.subscribedList.Perm (info :: i.subscribedList.eraseP (·.address = id)) ∧
      Remaining i (info :: i.subscribedList.eraseP (·.address = id)) := by
  obtain ⟨hm, ha⟩ := mem_of_find hf
  obtain ⟨a, l₁, l₂, hl₁, hp, hl, he⟩ :=
    List.exists_of_eraseP (p := (·.address = id)) hm (by simpa using ha)
  have heq : a = info := by
    have hmem : a ∈ i.subscribedList := by rw [hl]; simp
    exact List.inj_on_of_nodup_map h.addresses hmem hm ((by simpa using hp : a.address = id).trans
      ha.symm)
  have hperm : i.subscribedList.Perm (info :: i.subscribedList.eraseP (·.address = id)) := by
    rw [he, ← heq]
    nth_rewrite 1 [hl]
    exact List.perm_middle
  refine ⟨hperm, h.mq, h.calm, ?_, (hperm.map _).symm.trans h.list, h.table⟩
  intro e he
  exact h.protocols e (hperm.symm.subset he)

theorem Invariant.unsubscribe {i : Impl κ} (h : Invariant i) (id : Address)
    (ret published : Bool) :
    (Invariant (i.unsubscribe id ret published).1 ∧
        ((i.find id).isSome = true → ret = true ∧ published = true)) ∨
      ¬ ((i.find id).isSome = true → ret = true ∧ published = true) ∧
        (i.unsubscribe id ret published).1.mq.live.length <
          (i.unsubscribe id ret published).1.subscribedList.length ∧
        ∀ e ∈ (i.unsubscribe id ret published).1.subscribedList, e.protocol = .mqtt := by
  cases hf : i.find id with
  | none =>
    simp only [Impl.unsubscribe, hf]
    exact Or.inl ⟨h, fun hc => nomatch hc⟩
  | some info =>
    obtain ⟨hperm, hr⟩ := h.front hf
    obtain ⟨j, r, ht, hlist, hlen, hr⟩ := hr.turn ret published
    have hl := hperm.length_eq
    rw [List.length_cons] at hl
    rcases hr with ⟨hok, ⟨userData, rfl⟩, hj⟩ | ⟨hfail, err, rfl⟩
    · simp only [Impl.unsubscribe, hf, ht, hlist]
      refine Or.inl ⟨⟨⟨hj.mq, hj.calm, hj.protocols, hj.list, hj.table⟩, ?_⟩, fun _ => hok⟩
      exact h.addresses.sublist (List.eraseP_sublist.map _)
    · simp only [Impl.unsubscribe, hf, ht, hlist]
      exact Or.inr ⟨fun hc => hfail (hc rfl), by omega, h.protocols⟩

theorem Invariant.unsubscribeAll {i : Impl κ} (h : Invariant i) (calls : ℕ → Bool × Bool) :
    (Invariant (i.unsubscribeAll calls).1 ∧
        ∀ n < i.subscribedList.length, calls n = (true, true)) ∨
      ¬ (∀ n < i.subscribedList.length, calls n = (true, true)) ∧
        (i.unsubscribeAll calls).1.mq.live.length <
          (i.unsubscribeAll calls).1.subscribedList.length ∧
        ∀ e ∈ (i.unsubscribeAll calls).1.subscribedList, e.protocol = .mqtt := by
  obtain ⟨j, r, he, hlist, hr⟩ := h.toRemaining.each calls
  rcases hr with ⟨hok, rfl, hj⟩ | ⟨hfail, ⟨err, rfl⟩, hl⟩
  · simp only [Impl.unsubscribeAll, he]
    exact Or.inl ⟨⟨⟨hj.mq, hj.calm, hj.protocols, hj.list, hj.table⟩, List.nodup_nil⟩, hok⟩
  · simp only [Impl.unsubscribeAll, he]
    exact Or.inr ⟨hfail, hlist ▸ hl, hlist ▸ h.protocols⟩

theorem Invariant.message {topicMatchesSub : String → String → Option Bool} {i : Impl κ}
    (h : Invariant i) (msg : Message) : Invariant (i.messageCB topicMatchesSub msg).1 := by
  have hlive : (i.messageCB topicMatchesSub msg).1.mq.live = i.mq.live := by
    simp [Impl.messageCB, MosquittoDelivery.messageCB, MosquittoMQ.Client.live, h.calm.1]
  exact {
    mq := h.mq.of_perm (.of_eq hlive)
    calm := ⟨rfl, rfl⟩
    protocols := h.protocols
    list := hlive ▸ h.list
    table := hlive ▸ h.table
    addresses := h.addresses }

/-- Tables of different lengths do not agree. -/
theorem not_agree_of_lt {i : Impl κ} (hp : ∀ e ∈ i.subscribedList, e.protocol = .mqtt)
    (hl : i.mq.live.length < i.subscribedList.length) : ¬ Agree i := by
  intro ha
  have hlen := ha.list.length_eq
  rw [mqttHandles_eq hp, List.length_map, List.length_map] at hlen
  omega

/-- A step either meets the condition and keeps the invariant, or does neither and leaves
tables that disagree. -/
theorem Invariant.step {topicMatchesSub : String → String → Option Bool} {i j : Impl κ}
    {e : Event κ} (h : Invariant i) (hs : step topicMatchesSub i e = some j) :
    (Ok i e ∧ Invariant j) ∨ (¬ Ok i e ∧ ¬ Agree j) := by
  cases e with
  | subscribe topic cb userData o =>
    simp only [SubscriptionTables.step, Option.ite_none_right_eq_some, Option.some.injEq] at hs
    obtain ⟨hf, rfl⟩ := hs
    rcases h.subscribe topic cb userData hf with ⟨hi, hok⟩ | ⟨hn, hl⟩
    · exact Or.inl ⟨hok, hi⟩
    · exact Or.inr ⟨hn, fun ha => absurd ha.length (by omega)⟩
  | unsubscribe id ret published =>
    obtain rfl := Option.some.inj hs
    rcases h.unsubscribe id ret published with ⟨hi, hok⟩ | ⟨hn, hl, hp⟩
    · exact Or.inl ⟨hok, hi⟩
    · exact Or.inr ⟨hn, not_agree_of_lt hp hl⟩
  | unsubscribeAll calls =>
    obtain rfl := Option.some.inj hs
    rcases h.unsubscribeAll calls with ⟨hi, hok⟩ | ⟨hn, hl, hp⟩
    · exact Or.inl ⟨hok, hi⟩
    · exact Or.inr ⟨hn, not_agree_of_lt hp hl⟩
  | message msg =>
    obtain rfl := Option.some.inj hs
    exact Or.inl ⟨trivial, h.message msg⟩

theorem Invariant.reaches {topicMatchesSub : String → String → Option Bool} {ip : String}
    {i : Impl κ} (h : (machine topicMatchesSub ip).Reaches Ok i) : Invariant i := by
  refine h.invariant (.new ip) fun _ _ _ _ hi ho he => ?_
  rcases hi.step he with ⟨-, hj⟩ | ⟨hn, -⟩
  · exact hj
  · exact absurd ho hn

/-- In every run that meets the condition the three tables agree after each operation,
whether it returned or threw, and the next operation of such a run leaves them in agreement
exactly when it meets the condition. -/
theorem three_tables_agree (topicMatchesSub : String → String → Option Bool) (ip : String)
    (i : Impl κ) (h : (machine topicMatchesSub ip).Reaches Ok i) :
    Agree i ∧ ∀ e j, (machine topicMatchesSub ip).step i e = some j → (Agree j ↔ Ok i e) := by
  have hi := Invariant.reaches h
  refine ⟨hi.agree, fun e j he => ?_⟩
  rcases hi.step he with ⟨hok, hj⟩ | ⟨hn, hd⟩
  · exact iff_of_true hj.agree hok
  · exact iff_of_false hd hn

/-- `mosquitto_subscribe` succeeds and the publication that follows fails: the caller gets an
exception and no id, and the subscription stays. -/
theorem failed_publication_leaves_a_subscription :
    ∃ i : Impl ℕ, (machine MosquittoMQ.exactMatch "").Reachable i ∧
      (i.mq.live.map (·.handle) = [2] ∧ i.mySubscribeTable = [(2, "t")] ∧ mqttHandles i = []) ∧
      ¬ Agree i := by
  obtain ⟨i, hi, hp⟩ := (machine MosquittoMQ.exactMatch "").exists_reachable
    [.subscribe "t" 0 0 ⟨1, 2, 3, .ok ⟨4000, [], []⟩, true, false⟩]
    (fun i : Impl ℕ => i.mq.live.map (·.handle) = [2] ∧ i.mySubscribeTable = [(2, "t")] ∧
      mqttHandles i = []) (by decide)
  have hs := of_decide_eq_true hp
  refine ⟨i, hi, hs, fun ha => ?_⟩
  have hl := ha.list.length_eq
  rw [hs.1, hs.2.2] at hl
  simp at hl

/-- Two subscriptions, one refused by the broker, and one unsubscribed again. -/
theorem three_tables_agree_after_refusal :
    ∃ i : Impl ℕ, (machine MosquittoMQ.exactMatch "").Reaches Ok i ∧
      i.mySubscribeTable = [(5, "u")] ∧ Agree i := by
  obtain ⟨i, hi, hp⟩ := (machine MosquittoMQ.exactMatch "").exists_reaches Ok
    [.subscribe "t" 0 0 ⟨1, 2, 3, .ok ⟨4000, [], []⟩, true, true⟩,
     .subscribe "u" 0 0 ⟨4, 5, 6, .ok ⟨4001, [], []⟩, true, true⟩,
     .subscribe "v" 0 0 ⟨7, 8, 9, .ok ⟨4002, [], []⟩, false, true⟩,
     .unsubscribe 1 true true]
    (fun i : Impl ℕ => i.mySubscribeTable = [(5, "u")]) (by decide)
  exact ⟨i, hi, of_decide_eq_true hp, (three_tables_agree _ _ i hi).1⟩

end SubscriptionTables
