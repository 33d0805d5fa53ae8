import Aitt.JavaPublishTable

/-! Instances of the Java library around one broker. They announce their IPC subscriptions on
one common topic, each as the retained message of this topic, and `disconnect` retains an
empty message there. No instance ever publishes that a host leaves. -/
namespace JavaDiscovery

open AittTypes JavaSubscriptions JavaPublishTable NestedMaps TransitionRuns

def joinNetwork : String := "connected"

def ipc : Announced := ⟨0, some .ipc⟩

/-- `IpcHandler.wrapPublishData`, up to the builder of FlexBuffers, whose functions for
strings, numbers and maps are parameters. -/
def wrapPublishData {ρ : Type} (putString : String → ρ) (putInt : ℤ → ρ)
    (endMap : List (String × ρ) → ρ) (ip topic : String) : List (String × ρ) :=
  [(statusString, putString joinNetwork), (hostString, putString ip),
    (topic, endMap [("protocol", putInt (JavaRouting.getValue .ipc)), ("port", putInt ipc.port)])]

abbrev Message := Option (String × String)

structure Client where
  connected : Bool := false
  publishTable : PublishTable := ∅
  inbox : List Message := []

structure System (ι : Type) where
  retained : Message := none
  clients : ι → Client := fun _ => {}

inductive Event (ι : Type) where
  | connect (i : ι)
  | subscribe (i : ι) (topic : String)
  | disconnect (i : ι)
  | deliver (i : ι)
  deriving DecidableEq

def receive (table : PublishTable) : Message → PublishTable
  | none => table
  | some (topic, host) => applyNotice table (.announces topic host ipc)

variable {ι : Type}

/-- A retained message goes to every connected instance, its sender included. -/
def System.publish (s : System ι) (m : Message) : System ι where
  retained := m
  clients i :=
    if (s.clients i).connected then
      { s.clients i with inbox := (s.clients i).inbox ++ [m] }
    else s.clients i

variable [DecidableEq ι]

def System.set (s : System ι) (i : ι) (c : Client) : System ι :=
  { s with clients := Function.update s.clients i c }

/-- A topic that is one of the two other keys of the message is left out. -/
def System.step (ip : ι → String) (s : System ι) : Event ι → Option (System ι)
  | .connect i =>
    if (s.clients i).connected then none
    else some (s.set i { s.clients i with
      connected := true
      inbox := if s.retained.isSome then [s.retained] else [] })
  | .subscribe i topic =>
    if (s.clients i).connected = false ∨ topic = hostString ∨ topic = statusString then none
    else some (s.publish (some (topic, ip i)))
  | .disconnect i =>
    if (s.clients i).connected then
      some ((s.publish none).set i { s.clients i with connected := false, inbox := [] })
    else none
  | .deliver i =>
    match (s.clients i).inbox with
    | [] => none
    | m :: rest => some (s.set i { s.clients i with
        publishTable := receive (s.clients i).publishTable m
        inbox := rest })

def machine (ip : ι → String) : Machine (System ι) (Event ι) where
  initial := {}
  step := System.step ip

def Event.retains (ip : ι → String) : Event ι → Option Message
  | .subscribe i topic => some (some (topic, ip i))
  | .disconnect _ => some none
  | .connect _ | .deliver _ => none

def retainedBy (ip : ι → String) (es : List (Event ι)) : Message :=
  (es.reverse.findSome? (Event.retains ip)).join

def Known (c : Client) (topic host : String) : Prop :=
  get c.publishTable topic host = some (PortTable.entry ipc none) ∨ some (topic, host) ∈ c.inbox

variable {ip : ι → String} {s t : System ι} {i : ι} {topic host : String}

@[simp] theorem set_clients_self (s : System ι) (i : ι) (c : Client) :
    (s.set i c).clients i = c := Function.update_self ..

@[simp] theorem set_clients_of_ne (s : System ι) {i j : ι} (h : j ≠ i) (c : Client) :
    (s.set i c).clients j = s.clients j := Function.update_of_ne h ..

omit [DecidableEq ι] in
theorem publish_clients (m : Message) (h : (s.clients i).connected = true) :
    (s.publish m).clients i = { s.clients i with inbox := (s.clients i).inbox ++ [m] } :=
  if_pos h

section Payload

/-- Any order of the keys will do, as long as no key comes twice. -/
theorem reader_get {ρ : Type} (R : Reader ρ) {map pairs : List (String × ρ)}
    (hp : map.Perm pairs) (hn : (pairs.map (·.1)).Nodup) {key : String} {value : ρ}
    (hm : (key, value) ∈ pairs) : R.get map key = value := by
  have hin : (key, value) ∈ map := hp.mem_iff.mpr hm
  obtain ⟨q, hq⟩ := Option.isSome_iff_exists.mp (List.find?_isSome.mpr
    ⟨(key, value), hin, by simp⟩ : (map.find? (·.1 = key)).isSome)
  have hkey : q.1 = key := by simpa using List.find?_some hq
  have hq' : q = (key, value) :=
    List.inj_on_of_nodup_map hn (hp.mem_iff.mp (List.mem_of_find?_eq_some hq)) hm hkey
  rw [Reader.get, hq, hq']
  rfl

theorem announcements_filter {ρ : Type} (R : Reader ρ) (map : List (String × ρ)) (host : String)
    (keys : List String) :
    announcements R map host keys =
      announcements R map host (keys.filter fun k => k ≠ hostString ∧ k ≠ statusString) := by
  induction keys with
  | nil => rfl
  | cons key rest ih =>
    by_cases hk : key = hostString ∨ key = statusString
    · rw [List.filter_cons_of_neg (by simpa [Decidable.or_iff_not_imp_left] using hk),
        announcements, if_pos hk, ih]
    · rw [List.filter_cons_of_pos (by simpa [not_or] using hk), announcements, announcements,
        if_neg hk, if_neg hk, ih]

/-- What `IpcHandler` builds is read as the announcement of its topic and host, in whatever order
the builder of FlexBuffers leaves the pairs of a map. -/
theorem receive_payload {ρ : Type} (R : Reader ρ) (putString : String → ρ) (putInt : ℤ → ρ)
    (endMap : List (String × ρ) → ρ) (htopic : topic ≠ hostString ∧ topic ≠ statusString)
    (hstring : ∀ s, R.asString (putString s) = some s)
    (hmap : ∀ m, ∃ map, map.Perm m ∧ R.asMap (endMap m) = some map)
    (hint : ∀ n, 0 ≤ n → n < 128 → R.asInt (putInt n) = some n ∧ R.asUInt (putInt n) = some n)
    (payload : Bytes) (table : PublishTable) {root : List (String × ρ)}
    (hp : root.Perm (wrapPublishData putString putInt endMap host topic))
    (hroot : R.getRoot payload = some root) :
    discoveryMessageCallback R table payload = receive table (some (topic, host)) := by
  have hn : ((wrapPublishData putString putInt endMap host topic).map (·.1)).Nodup := by
    have hne : statusString ≠ hostString := by decide
    simp [wrapPublishData, hne, htopic.1.symm, htopic.2.symm]
  have hget : ∀ {key : String} {value : ρ},
      (key, value) ∈ wrapPublishData putString putInt endMap host topic →
      R.get root key = value := fun hm => reader_get R hp hn hm
  obtain ⟨inner, hperm, hinner⟩ :=
    hmap [("protocol", putInt (JavaRouting.getValue .ipc)), ("port", putInt ipc.port)]
  have hport : R.get inner "port" = putInt ipc.port :=
    reader_get R hperm (by simp) (List.mem_cons_of_mem _ List.mem_cons_self)
  have hprotocol : R.get inner "protocol" = putInt (JavaRouting.getValue .ipc) :=
    reader_get R hperm (by simp) List.mem_cons_self
  have hannounced : R.announced root topic = some ipc := by
    rw [Reader.announced, hget (List.mem_cons_of_mem _ (List.mem_cons_of_mem _
      List.mem_cons_self)), hinner, Option.bind_some, hport, hprotocol,
      (hint ipc.port (by decide) (by decide)).1,
      (hint (JavaRouting.getValue .ipc) (by decide) (by decide)).2]
    rfl
  have hkeys : (root.map (·.1)).filter (fun k => k ≠ hostString ∧ k ≠ statusString) =
      [topic] := by
    apply List.perm_singleton.mp
    refine ((hp.map _).filter _).trans (List.Perm.of_eq ?_)
    simp [wrapPublishData, htopic.1, htopic.2]
  rw [discoveryMessageCallback_eq, notices, hroot]
  simp only [hget (List.mem_cons_of_mem _ List.mem_cons_self), hget List.mem_cons_self, hstring]
  rw [if_neg (by decide), announcements_filter, hkeys, announcements,
    if_neg (not_or.mpr htopic), hannounced]
  rfl

end Payload

def Plain (table : PublishTable) : Prop :=
  ∀ topic host, get table topic host = none ∨
    get table topic host = some (PortTable.entry ipc none)

theorem get_receive {table : PublishTable} (h : Plain table) (topic host : String) (m : Message) :
    get (receive table m) topic host =
      if m = some (topic, host) then some (PortTable.entry ipc none)
      else get table topic host := by
  cases m with
  | none => rfl
  | some p =>
    obtain ⟨t, left⟩ := p
    rw [receive, applyNotice, updatePublishTable_eq]
    by_cases he : t = topic ∧ left = host
    · obtain ⟨rfl, rfl⟩ := he
      rw [if_pos rfl, get_put_self]
      rcases h t left with hg | hg
      · rw [hg]
        rfl
      · rw [hg]
        exact congrArg some (renewed_entry ipc none ipc)
    · rw [if_neg (by simpa using he), get_put_of_ne table _ fun ht hh => he ⟨ht.symm, hh.symm⟩]

theorem Plain.receive {table : PublishTable} (h : Plain table) (m : Message) :
    Plain (receive table m) := by
  intro topic host
  rw [get_receive h]
  split
  · exact .inr rfl
  · exact h topic host

theorem step_plain (h : ∀ j, Plain (s.clients j).publishTable) {e : Event ι}
    (ht : s.step ip e = some t) : ∀ j, Plain (t.clients j).publishTable := by
  have hpublish : ∀ m j, ((s.publish m).clients j).publishTable = (s.clients j).publishTable := by
    intro m j
    simp only [System.publish]
    split <;> rfl
  have hset : ∀ (u : System ι) i (c : Client),
      (∀ j, (u.clients j).publishTable = (s.clients j).publishTable) → Plain c.publishTable →
      ∀ j, Plain ((u.set i c).clients j).publishTable := by
    intro u i c hu hc j
    by_cases hj : j = i
    · rw [hj, set_clients_self]
      exact hc
    · rw [set_clients_of_ne u hj, hu]
      exact h j
  cases e with
  | connect i =>
    rw [System.step] at ht
    split at ht
    · cases ht
    · cases ht
      exact hset s i _ (fun _ => rfl) (h i)
  | subscribe i topic =>
    rw [System.step] at ht
    split at ht
    · cases ht
    · cases ht
      intro j
      rw [hpublish]
      exact h j
  | disconnect i =>
    rw [System.step] at ht
    split at ht
    · cases ht
      exact hset _ i _ (hpublish none) (h i)
    · cases ht
  | deliver i =>
    rw [System.step] at ht
    split at ht
    · cases ht
    · cases ht
      exact hset s i _ (fun _ => rfl) ((h i).receive _)

theorem exec_plain {es : List (Event ι)} (h : ∀ j, Plain (s.clients j).publishTable)
    (ht : (machine ip).exec s es = some t) : ∀ j, Plain (t.clients j).publishTable := by
  refine Machine.exec_history (P := fun _ s => ∀ j, Plain (s.clients j).publishTable) (l := [])
    ht h ?_
  intro _ s e t _ hs
  exact step_plain hs

def Announces (ip : ι → String) (topic host : String) (e : Event ι) : Prop :=
  ∃ j, e = .subscribe j topic ∧ ip j = host

/-- Within a session, what is known grows by what the others announce, and by nothing else. -/
theorem step_known (hp : Plain (s.clients i).publishTable)
    (hc : (s.clients i).connected = true) {e : Event ι} (hd : e ≠ .disconnect i)
    (ht : s.step ip e = some t) (topic host : String) :
    (t.clients i).connected = true ∧
      (Known (t.clients i) topic host ↔
        Known (s.clients i) topic host ∨ Announces ip topic host e) := by
  cases e with
  | connect j =>
    rw [System.step] at ht
    split at ht
    · cases ht
    · cases ht
      rename_i hj
      have hne : i ≠ j := by
        intro he
        subst he
        exact hj hc
      rw [set_clients_of_ne s hne]
      exact ⟨hc, by simp [Announces]⟩
  | subscribe j other =>
    rw [System.step] at ht
    split at ht
    · cases ht
    · cases ht
      rw [publish_clients _ hc]
      refine ⟨hc, ?_⟩
      simp only [Known, Announces, List.mem_append, List.mem_singleton, Option.some.injEq,
        Prod.mk.injEq, Event.subscribe.injEq]
      constructor
      · rintro (hk | hk | ⟨rfl, rfl⟩)
        · exact .inl (.inl hk)
        · exact .inl (.inr hk)
        · exact .inr ⟨j, ⟨rfl, rfl⟩, rfl⟩
      · rintro ((hk | hk) | ⟨k, ⟨rfl, rfl⟩, rfl⟩)
        · exact .inl hk
        · exact .inr (.inl hk)
        · exact .inr (.inr ⟨rfl, rfl⟩)
  | disconnect j =>
    have hne : i ≠ j := by
      intro he
      subst he
      exact hd rfl
    rw [System.step] at ht
    split at ht
    · cases ht
      rw [set_clients_of_ne _ hne, publish_clients _ hc]
      exact ⟨hc, by simp [Known, Announces]⟩
    · cases ht
  | deliver j =>
    rw [System.step] at ht
    split at ht
    · cases ht
    · cases ht
      rename_i m rest hin
      by_cases hj : i = j
      · subst hj
        rw [set_clients_self]
        refine ⟨hc, ?_⟩
        rw [Known, Known, get_receive hp, hin]
        by_cases hm : m = some (topic, host)
        · simp [hm]
        · simp [hm, Ne.symm hm, Announces]
      · rw [set_clients_of_ne s hj]
        exact ⟨hc, by simp [Announces]⟩

theorem exec_known {es : List (Event ι)} (hp : ∀ j, Plain (s.clients j).publishTable)
    (hc : (s.clients i).connected = true) (hd : .disconnect i ∉ es)
    (ht : (machine ip).exec s es = some t) (topic host : String) :
    Known (t.clients i) topic host ↔
      Known (s.clients i) topic host ∨ ∃ e ∈ es, Announces ip topic host e := by
  have h := Machine.exec_history (P := fun ds u => (∀ j, Plain (u.clients j).publishTable) ∧
    (u.clients i).connected = true ∧ (Known (u.clients i) topic host ↔
      Known (s.clients i) topic host ∨ ∃ e ∈ ds, Announces ip topic host e)) (l := [])
    ht ⟨hp, hc, by simp⟩ ?_
  · exact h.2.2
  · intro ds u e v he hu hv
    obtain ⟨hpu, hcu, hku⟩ := hu
    obtain ⟨hcv, hkv⟩ := step_known (hpu i) hcu (fun hde => hd (hde ▸ he)) hv topic host
    refine ⟨step_plain hpu hv, hcv, ?_⟩
    rw [hkv, hku, or_assoc]
    simp only [List.mem_append, List.mem_singleton, or_and_right, exists_or, exists_eq_left]

omit [DecidableEq ι] in
theorem retainedBy_append (ip : ι → String) (es : List (Event ι)) (e : Event ι) :
    retainedBy ip (es ++ [e]) = (e.retains ip).getD (retainedBy ip es) := by
  rw [retainedBy, List.reverse_append, List.reverse_singleton, List.singleton_append,
    List.findSome?_cons]
  cases e.retains ip <;> rfl

theorem step_retained {e : Event ι} (ht : s.step ip e = some t) :
    t.retained = (e.retains ip).getD s.retained := by
  cases e with
  | connect i =>
    rw [System.step] at ht
    split at ht
    · cases ht
    · cases ht
      rfl
  | subscribe i topic =>
    rw [System.step] at ht
    split at ht
    · cases ht
    · cases ht
      rfl
  | disconnect i =>
    rw [System.step] at ht
    split at ht
    · cases ht
      rfl
    · cases ht
  | deliver i =>
    rw [System.step] at ht
    split at ht
    · cases ht
    · cases ht
      rfl

/-- An instance that has not connected is as it was made. -/
theorem step_fresh {e : Event ι} (hi : s.clients i = {}) (hne : e ≠ .connect i)
    (ht : s.step ip e = some t) : t.clients i = {} := by
  have hpublish : ∀ m, (s.publish m).clients i = {} := by
    intro m
    simp [System.publish, hi]
  have hset : ∀ (u : System ι) j (c : Client), i ≠ j → u.clients i = {} →
      (u.set j c).clients i = {} := by
    intro u j c hj hu
    rw [set_clients_of_ne u hj, hu]
  cases e with
  | connect j =>
    rw [System.step] at ht
    split at ht
    · cases ht
    · cases ht
      exact hset s j _ (fun he => hne (he ▸ rfl)) hi
  | subscribe j topic =>
    rw [System.step] at ht
    split at ht
    · cases ht
    · cases ht
      exact hpublish _
  | disconnect j =>
    rw [System.step] at ht
    split at ht
    · cases ht
      rename_i hc
      refine hset _ j _ ?_ (hpublish none)
      intro he
      subst he
      simp [hi] at hc
    · cases ht
  | deliver j =>
    rw [System.step] at ht
    split at ht
    · cases ht
    · cases ht
      rename_i m rest hin
      refine hset s j _ ?_ hi
      intro he
      subst he
      simp [hi] at hin

theorem exec_retained {es : List (Event ι)} (ht : (machine ip).exec {} es = some t) :
    t.retained = retainedBy ip es := by
  refine Machine.exec_history (P := fun ds s => s.retained = retainedBy ip ds) (l := []) ht rfl ?_
  intro ds s e t _ hs he
  rw [retainedBy_append, step_retained he, hs]

theorem exec_fresh {es : List (Event ι)} (hne : .connect i ∉ es)
    (ht : (machine ip).exec {} es = some t) : t.clients i = {} := by
  refine Machine.exec_history (P := fun _ s => s.clients i = {}) (l := []) ht rfl ?_
  intro _ s e t he hs
  exact step_fresh hs fun hc => hne (hc ▸ he)

theorem connect_known {u : System ι} (hi : s.clients i = {}) (ht : s.step ip (.connect i) = some u)
    (topic host : String) :
    (u.clients i).connected = true ∧
      (Known (u.clients i) topic host ↔ s.retained = some (topic, host)) := by
  rw [System.step] at ht
  split at ht
  · cases ht
  · cases ht
    rw [set_clients_self, hi]
    refine ⟨rfl, ?_⟩
    have hnone : get (∅ : PublishTable) topic host = none := rfl
    cases hr : s.retained with
    | none => simp [Known, hnone]
    | some p => simp [Known, hnone, eq_comm]

/-- No step takes an entry out of a table. -/
theorem step_keeps_entry (hp : Plain (s.clients i).publishTable) {e : Event ι}
    (ht : s.step ip e = some t)
    (h : get (s.clients i).publishTable topic host = some (PortTable.entry ipc none)) :
    get (t.clients i).publishTable topic host = some (PortTable.entry ipc none) := by
  have hpublish : ∀ m, ((s.publish m).clients i).publishTable = (s.clients i).publishTable := by
    intro m
    simp only [System.publish]
    split <;> rfl
  have hset : ∀ (u : System ι) j (c : Client),
      (u.clients i).publishTable = (s.clients i).publishTable →
      (j = i → get c.publishTable topic host = some (PortTable.entry ipc none)) →
      get ((u.set j c).clients i).publishTable topic host = some (PortTable.entry ipc none) := by
    intro u j c hu hc
    by_cases hj : i = j
    · subst hj
      rw [set_clients_self]
      exact hc rfl
    · rw [set_clients_of_ne u hj, hu]
      exact h
  cases e with
  | connect j =>
    rw [System.step] at ht
    split at ht
    · cases ht
    · cases ht
      exact hset s j _ rfl fun hj => hj ▸ h
  | subscribe j other =>
    rw [System.step] at ht
    split at ht
    · cases ht
    · cases ht
      rw [hpublish]
      exact h
  | disconnect j =>
    rw [System.step] at ht
    split at ht
    · cases ht
      exact hset _ j _ (hpublish none) fun hj => hj ▸ h
    · cases ht
  | deliver j =>
    rw [System.step] at ht
    split at ht
    · cases ht
    · cases ht
      refine hset s j _ rfl ?_
      intro hj
      subst hj
      rw [get_receive hp]
      split
      · rfl
      · exact h

theorem exec_keeps_entry {es : List (Event ι)} (hp : ∀ j, Plain (s.clients j).publishTable)
    (ht : (machine ip).exec s es = some t)
    (h : get (s.clients i).publishTable topic host = some (PortTable.entry ipc none)) :
    get (t.clients i).publishTable topic host = some (PortTable.entry ipc none) := by
  have hP := Machine.exec_history (P := fun _ u => (∀ j, Plain (u.clients j).publishTable) ∧
    get (u.clients i).publishTable topic host = some (PortTable.entry ipc none)) (l := [])
    ht ⟨hp, h⟩ ?_
  · exact hP.2
  · intro _ u e v _ hu hv
    exact ⟨step_plain hu.1 hv, step_keeps_entry (hu.1 i) hv hu.2⟩

/-- In its first session an instance that has read its messages knows the subscriptions that
were announced since it connected, also those of instances gone by now, and of the earlier ones
at most the last, which a disconnection of any instance hides. What it knows stays for good. -/
theorem publishTable_iff {before after : List (Event ι)}
    (hs : (machine ip).exec {} (before ++ .connect i :: after) = some s)
    (hfirst : .connect i ∉ before) (hstays : .disconnect i ∉ after)
    (hread : (s.clients i).inbox = []) :
    (∀ topic host, get (s.clients i).publishTable topic host = some (PortTable.entry ipc none) ↔
      retainedBy ip before = some (topic, host) ∨
        ∃ j, .subscribe j topic ∈ after ∧ ip j = host) ∧
    ∀ later t, (machine ip).exec s later = some t → ∀ topic host,
      get (s.clients i).publishTable topic host = some (PortTable.entry ipc none) →
      get (t.clients i).publishTable topic host = some (PortTable.entry ipc none) := by
  have hplain : ∀ {es : List (Event ι)} {u : System ι}, (machine ip).exec {} es = some u →
      ∀ j, Plain (u.clients j).publishTable :=
    fun hu => exec_plain (fun _ _ _ => .inl rfl) hu
  constructor
  · intro topic host
    obtain ⟨u, hu, hrest⟩ := Machine.exec_split hs
    obtain ⟨v, hv, hafter⟩ := Option.bind_eq_some_iff.mp hrest
    have hv : u.step ip (.connect i) = some v := hv
    obtain ⟨hc, hk⟩ := connect_known (exec_fresh hfirst hu) hv topic host
    have hknown := exec_known (step_plain (hplain hu) hv) hc hstays hafter topic host
    rw [hk, exec_retained hu, Known, hread] at hknown
    simp only [List.not_mem_nil, or_false] at hknown
    rw [hknown]
    apply or_congr_right
    constructor
    · rintro ⟨e, he, j, rfl, hj⟩
      exact ⟨j, he, hj⟩
    · rintro ⟨j, he, hj⟩
      exact ⟨_, he, j, rfl, hj⟩
  · intro later t ht topic host h
    exact exec_keeps_entry (hplain hs) ht h

def ips (i : Fin 3) : String := ["x", "y", "z"].getD i.val ""

/-- The last of three to connect learns of `b` only, and still knows it when its host has
gone. -/
theorem publishTable_iff_at : ∃ s : System (Fin 3),
    (machine ips).exec {} ([.connect 0, .connect 1, .subscribe 0 "a", .subscribe 1 "b"] ++
      .connect 2 :: [.deliver 2, .disconnect 1, .deliver 2]) = some s ∧
    get (s.clients 2).publishTable "b" "y" = some (PortTable.entry ipc none) ∧
    get (s.clients 2).publishTable "a" "x" ≠ some (PortTable.entry ipc none) := by
  obtain ⟨s, hs, hin⟩ := (machine ips).exists_exec {}
    ([.connect 0, .connect 1, .subscribe 0 "a", .subscribe 1 "b"] ++
      .connect 2 :: [.deliver 2, .disconnect 1, .deliver 2])
    (fun s => (s.clients 2).inbox = []) (by decide +kernel)
  have h := (publishTable_iff hs (by decide) (by decide) (of_decide_eq_true hin)).1
  refine ⟨s, hs, (h "b" "y").mpr (.inl (by decide)), fun ha => ?_⟩
  rcases (h "a" "x").mp ha with hr | ⟨j, hj, -⟩
  · exact absurd hr (by decide)
  · simp at hj

end JavaDiscovery
