import Aitt.DiscoveryRunning
import Aitt.JavaSubscriptions
import Aitt.TcpFraming

/-! The set of protocols that a Java caller chooses, on its way down: `Aitt.publish` and
`Aitt.subscribe` add up the native ones and take them out of the caller's own set, the JNI
layer casts the sum to an `AittProtocol`, `AITT::Impl` reads it back bit by bit or as a
whole, and `ModuleManager` finds the transport. -/
namespace JavaRouting

open AittTypes JavaSubscriptions

/-- An `EnumSet`, which its loops visit in the order of the enumeration. The iterator has
taken its elements when the loop starts. -/
abbrev EnumSet := Protocol → Bool

def toList (protocols : EnumSet) : List Protocol := Protocol.values.filter protocols

def remove (protocols : EnumSet) (p : Protocol) : EnumSet := Function.update protocols p false

def getValue : Protocol → ℕ
  | .mqtt => 1
  | .tcp => 1 <<< 1
  | .tcpSecure => 1 <<< 2
  | .webrtc => 1 <<< 3
  | .ipc => 1 <<< 4
  | .rtsp => 1 <<< 5

def fromInt (value : ℤ) : Option Protocol :=
  Protocol.values.find? fun p => (getValue p : ℤ) = value

def isStreamProtocol : Protocol → Bool
  | .webrtc | .rtsp => true
  | .mqtt | .tcp | .tcpSecure | .ipc => false

def checkParams (topic : String) (protocols : EnumSet) : Bool :=
  topic ≠ "" && Protocol.values.any protocols

def subscribeTurn (acc : ℕ × EnumSet) (p : Protocol) : ℕ × EnumSet :=
  if isUsingNativePubSub p then (acc.1 + getValue p, remove acc.2 p) else acc

def publishTurn (acc : ℕ × EnumSet) (p : Protocol) : ℕ × EnumSet :=
  let acc := subscribeTurn acc p
  if isStreamProtocol p then (acc.1, remove acc.2 p) else acc

def subscribeLoop (protocols : EnumSet) : ℕ × EnumSet :=
  (toList protocols).foldl subscribeTurn (0, protocols)

def publishLoop (protocols : EnumSet) : ℕ × EnumSet :=
  (toList protocols).foldl publishTurn (0, protocols)

def castProtocol (bits : ℕ) : AittProtocol :=
  if bits = 1 then .mqtt
  else if bits = 2 then .tcp
  else if bits = 4 then .tcpSecure
  else .other bits

inductive TransportType where
  | tcp
  | tcpSecure
  deriving DecidableEq, Repr

def TransportType.index : TransportType → ℕ
  | .tcp => 0
  | .tcpSecure => 1

def convert : AittProtocol → Except ErrCode TransportType
  | .tcp => .ok .tcp
  | .tcpSecure => .ok .tcpSecure
  | .mqtt | .other _ => .error .noDataErr

inductive Target where
  | mq
  | module (protocol : AittProtocol)
  | nullTransport
  deriving DecidableEq, Repr

/-- The native client as far as routing depends on it: `loaded` says which shared objects
`LoadTransport` could open, `fails` whether a call to a transport raises. -/
structure Native where
  discovery : AittDiscovery.State
  loaded : TransportType → Bool
  fails : AittProtocol → Option ErrCode

def Native.transports (n : Native) (type : TransportType) : Option AittProtocol :=
  if n.loaded type then some (castProtocol (1 <<< (type.index + 1))) else none

def Native.get (n : Native) (protocol : AittProtocol) : Except ErrCode Target :=
  match convert protocol with
  | .error err => .error err
  | .ok type => .ok (((n.transports type).map Target.module).getD .nullTransport)

def Native.target (n : Native) (protocol : AittProtocol) : Except ErrCode Target :=
  if protocol = .mqtt then .ok .mq else n.get protocol

/-- The calls of `AITT::Impl::Publish`; the first exception ends them. -/
def Native.callTransports (n : Native) : List AittProtocol → List Target × Option ErrCode
  | [] => ([], none)
  | p :: rest =>
    match n.target p with
    | .error err => ([], some err)
    | .ok target =>
      match n.fails p with
      | some err => ([target], some err)
      | none =>
        let r := n.callTransports rest
        (target :: r.1, r.2)

def Native.publish (n : Native) (datalen : ℤ) (protocols : ℕ) : List Target × Option ErrCode :=
  if datalen < 0 ∨ TcpFraming.messageMax < datalen then ([], some .invalidArg)
  else match DiscoveryRunning.publish n.discovery (UInt32.ofNat protocols) with
    | .error err => ([], some err)
    | .ok chosen => n.callTransports chosen

/-- `Aitt.publish` up to the transports above the native library. The JNI layer catches what
the native library raises; `none` is the exception for invalid arguments. -/
def publish (n : Native) (topic : String) (message : Bytes) (protocols : EnumSet) :
    Option (List Target × EnumSet) :=
  if checkParams topic protocols = false then none
  else
    let r := publishLoop protocols
    some (if 0 < r.1 then (n.publish message.length r.1).1 else [], r.2)

/-- `AITT::Impl::Subscribe` takes the sum as one protocol. -/
def Native.accepts (protocols : ℕ) : Bool :=
  match castProtocol protocols with
  | .mqtt | .tcp | .tcpSecure => true
  | .other _ => false

/-- Publishing a list of messages with one set object: per call what it reaches, or `none`
where it raises. -/
def publishAll (n : Native) (topic : String) : List Bytes → EnumSet →
    List (Option (List Target)) × EnumSet
  | [], protocols => ([], protocols)
  | message :: rest, protocols =>
    match publish n topic message protocols with
    | none =>
      let r := publishAll n topic rest protocols
      (none :: r.1, r.2)
    | some (targets, left) =>
      let r := publishAll n topic rest left
      (some targets :: r.1, r.2)

variable {n : Native} {topic : String} {message : Bytes} {protocols : EnumSet}

def chosen (protocols : EnumSet) : List AittProtocol :=
  ([(.mqtt, .mqtt), (.tcp, .tcp), (.tcpSecure, .tcpSecure)] :
    List (Protocol × AittProtocol)).filterMap fun p => if protocols p.1 then some p.2 else none

def Native.place (n : Native) : AittProtocol → Target
  | .mqtt => .mq
  | .tcp => if n.loaded .tcp then .module .tcp else .nullTransport
  | .tcpSecure => if n.loaded .tcpSecure then .module .tcpSecure else .nullTransport
  | .other _ => .nullTransport

theorem filter_native (protocols : EnumSet) :
    (toList protocols).filter isUsingNativePubSub =
      [Protocol.mqtt, .tcp, .tcpSecure].filter protocols := by
  rw [toList, List.filter_filter]
  have he : Protocol.values.filter isUsingNativePubSub = [.mqtt, .tcp, .tcpSecure] := rfl
  rw [← he, List.filter_filter]
  apply List.filter_congr
  intro p _
  exact Bool.and_comm _ _

theorem foldl_subscribeTurn_fst (ps : List Protocol) (acc : ℕ × EnumSet) :
    (ps.foldl subscribeTurn acc).1 =
      acc.1 + ((ps.filter isUsingNativePubSub).map getValue).sum := by
  induction ps generalizing acc with
  | nil => rfl
  | cons p ps ih =>
    rw [List.foldl_cons, ih, subscribeTurn]
    cases hp : isUsingNativePubSub p with
    | false => simp [hp]
    | true =>
      rw [List.filter_cons_of_pos hp, List.map_cons, List.sum_cons, if_pos rfl]
      exact Nat.add_assoc _ _ _

/-- The streams change the set only. -/
theorem foldl_publishTurn_fst (ps : List Protocol) (acc : ℕ × EnumSet) :
    (ps.foldl publishTurn acc).1 = (ps.foldl subscribeTurn acc).1 := by
  rw [foldl_subscribeTurn_fst]
  induction ps generalizing acc with
  | nil => rfl
  | cons p ps ih =>
    rw [List.foldl_cons, ih]
    have hturn : (publishTurn acc p).1 = (subscribeTurn acc p).1 := by
      rw [publishTurn]
      split <;> rfl
    rw [hturn, ← foldl_subscribeTurn_fst, ← foldl_subscribeTurn_fst, List.foldl_cons]

theorem foldl_publishTurn_snd (ps : List Protocol) (acc : ℕ × EnumSet) (q : Protocol) :
    (ps.foldl publishTurn acc).2 q = (acc.2 q && !(ps.contains q && q ≠ .ipc)) := by
  induction ps generalizing acc with
  | nil => simp
  | cons p ps ih =>
    rw [List.foldl_cons, ih, publishTurn, subscribeTurn]
    by_cases hq : q = p
    · subst hq
      cases q <;> simp [remove, isUsingNativePubSub, isStreamProtocol]
    · cases p <;> simp [remove, isUsingNativePubSub, isStreamProtocol, hq]

theorem contains_toList (protocols : EnumSet) (p : Protocol) :
    (toList protocols).contains p = protocols p := by
  have hp : p ∈ Protocol.values := by cases p <;> decide
  rw [Bool.eq_iff_iff, List.contains_iff_mem, toList, List.mem_filter]
  exact and_iff_right hp

/-- Only IPC survives a publication in the caller's set. -/
theorem publishLoop_snd (protocols : EnumSet) (p : Protocol) :
    (publishLoop protocols).2 p = (protocols p && p = .ipc) := by
  rw [publishLoop, foldl_publishTurn_snd, contains_toList]
  cases h : protocols p <;> simp [h]

/-- The sum is the set of bits of the native protocols. -/
theorem loop_fst (protocols : EnumSet) :
    (publishLoop protocols).1 = (subscribeLoop protocols).1 ∧
      (subscribeLoop protocols).1 =
        ([Protocol.mqtt, .tcp, .tcpSecure].filter protocols |>.map getValue).sum := by
  constructor
  · exact foldl_publishTurn_fst _ _
  · rw [subscribeLoop, foldl_subscribeTurn_fst, filter_native]
    exact Nat.zero_add _

/-- Reading the bits back gives the protocols that were added up, and the three bits are all
that a client knows. -/
theorem discoveryPublish_eq (protocols : EnumSet) (h : n.discovery.isRunning = true) :
    DiscoveryRunning.publish n.discovery (UInt32.ofNat (publishLoop protocols).1) =
      .ok (chosen protocols) := by
  have hbits := (loop_fst protocols).1.trans (loop_fst protocols).2
  rw [hbits, DiscoveryRunning.publish, if_neg (by simp [h])]
  cases hm : protocols .mqtt <;> cases ht : protocols .tcp <;> cases hs : protocols .tcpSecure <;>
    simp only [List.filter, hm, ht, hs, chosen, List.filterMap] <;> decide

theorem target_eq (n : Native) {p : AittProtocol} (hp : p ∈ chosen protocols) :
    n.target p = .ok (n.place p) := by
  have hcases : p = .mqtt ∨ p = .tcp ∨ p = .tcpSecure := by
    obtain ⟨q, hq, he⟩ := List.mem_filterMap.mp hp
    have hpq : q.2 = p := by
      split at he
      · exact Option.some.inj he
      · cases he
    subst hpq
    simp only [List.mem_cons, List.not_mem_nil, or_false] at hq
    rcases hq with rfl | rfl | rfl <;> simp
  rcases hcases with rfl | rfl | rfl
  · rfl
  · cases hl : n.loaded .tcp <;> simp [Native.target, Native.get, convert, Native.transports,
      Native.place, hl, castProtocol, TransportType.index]
  · cases hl : n.loaded .tcpSecure <;> simp [Native.target, Native.get, convert,
      Native.transports, Native.place, hl, castProtocol, TransportType.index]

/-- The calls reach an initial segment, and all unless one before the last raises. -/
theorem callTransports_prefix (ps : List AittProtocol)
    (h : ∀ p ∈ ps, n.target p = .ok (n.place p)) :
    (n.callTransports ps).1 <+: ps.map n.place ∧
      ((n.callTransports ps).1 = ps.map n.place ↔ ∀ p ∈ ps.dropLast, n.fails p = none) := by
  induction ps with
  | nil => simp [Native.callTransports]
  | cons p rest ih =>
    have hrest := ih fun q hq => h q (List.mem_cons_of_mem p hq)
    rw [Native.callTransports, h p List.mem_cons_self]
    cases hf : n.fails p with
    | none =>
      constructor
      · exact (List.cons_prefix_cons.mpr ⟨rfl, hrest.1⟩)
      · rw [List.map_cons, List.cons.injEq, and_iff_right rfl, hrest.2]
        cases rest with
        | nil => simp
        | cons q qs => simp [hf]
    | some err =>
      constructor
      · exact List.cons_prefix_cons.mpr ⟨rfl, List.nil_prefix⟩
      · cases rest with
        | nil => simp
        | cons q qs => simp [hf]

theorem fst_eq_zero (protocols : EnumSet) :
    (publishLoop protocols).1 = 0 ↔ chosen protocols = [] := by
  rw [(loop_fst protocols).1.trans (loop_fst protocols).2]
  cases hm : protocols .mqtt <;> cases ht : protocols .tcp <;> cases hs : protocols .tcpSecure <;>
    simp only [List.filter, hm, ht, hs, chosen, List.filterMap] <;> decide

theorem publish_targets {targets : List Target} {left : EnumSet}
    (h : publish n topic message protocols = some (targets, left)) :
    targets <+: (chosen protocols).map n.place ∧
      (targets = (chosen protocols).map n.place ↔ chosen protocols = [] ∨
        n.discovery.isRunning = true ∧ message.length ≤ TcpFraming.payloadMax ∧
          ∀ p ∈ (chosen protocols).dropLast, n.fails p = none) ∧
      left = fun p => protocols p && p = .ipc := by
  rw [publish] at h
  split at h
  · cases h
  · cases h
    rw [← and_assoc]
    refine ⟨?_, funext (publishLoop_snd protocols)⟩
    by_cases hz : chosen protocols = []
    · simp [(fst_eq_zero protocols).mpr hz, hz]
    · have hpos : 0 < (publishLoop protocols).1 :=
        Nat.pos_of_ne_zero fun he => hz ((fst_eq_zero protocols).mp he)
      have hne : [] ≠ (chosen protocols).map n.place := by
        intro he
        exact hz (List.map_eq_nil_iff.mp he.symm)
      have hsize : ((message.length : ℤ) < 0 ∨ TcpFraming.messageMax < (message.length : ℤ)) ↔
          ¬ message.length ≤ TcpFraming.payloadMax := by
        simp only [TcpFraming.messageMax, TcpFraming.payloadMax]
        omega
      rw [if_pos hpos, Native.publish]
      by_cases hm : message.length ≤ TcpFraming.payloadMax
      · rw [if_neg (hsize.not.mpr (not_not.mpr hm))]
        cases hr : n.discovery.isRunning with
        | false => simp [DiscoveryRunning.publish, hr, hz, hne]
        | true =>
          rw [discoveryPublish_eq protocols hr]
          have hcalls := callTransports_prefix (n := n) (chosen protocols) fun p => target_eq n
          simpa [hz, hm] using hcalls
      · rw [if_pos (hsize.mpr hm)]
        simp [hz, hne, hm]

/-- The set that is left publishes nothing through the native library, and nothing at all
without IPC. -/
theorem publishAll_left (messages : List Bytes) {targets : List Target} {left : EnumSet}
    (h : publish n topic message protocols = some (targets, left)) :
    (publishAll n topic messages left).1 =
      messages.map fun _ => if protocols .ipc then some [] else none := by
  have hleft := (publish_targets h).2.2
  have htopic : topic ≠ "" := by
    intro he
    simp [publish, checkParams, he] at h
  have hchosen : chosen left = [] := by
    rw [hleft]
    simp [chosen]
  have hstep : ∀ m, publish n topic m left = if protocols .ipc then some ([], left) else none := by
    intro m
    have hcheck : checkParams topic left = protocols .ipc := by
      rw [hleft]
      simp [checkParams, htopic, Protocol.values]
    have hself : (publishLoop left).2 = left := by
      funext p
      rw [publishLoop_snd, hleft]
      cases p <;> simp
    rw [publish, hcheck]
    cases hipc : protocols .ipc with
    | false => simp
    | true => simp [(fst_eq_zero left).mpr hchosen, hself]
  induction messages with
  | nil => rfl
  | cons m rest ih =>
    rw [publishAll, hstep m]
    cases hipc : protocols .ipc with
    | false =>
      rw [hipc] at ih
      simpa using ih
    | true =>
      rw [hipc] at ih
      simpa using ih

/-- A publication hands the message to the native transports chosen, in the order of the bits and
each once, unless the client does not run, the message is too long or a transport before the
last raises. Later publications with the same set reach none of them. -/
theorem publish_once_per_set (messages : List Bytes) {targets : List Target} {left : EnumSet}
    (h : publish n topic message protocols = some (targets, left)) :
    targets <+: (chosen protocols).map n.place ∧
      (targets = (chosen protocols).map n.place ↔ chosen protocols = [] ∨
        n.discovery.isRunning = true ∧ message.length ≤ TcpFraming.payloadMax ∧
          ∀ p ∈ (chosen protocols).dropLast, n.fails p = none) ∧
      publishAll n topic (message :: messages) protocols =
        (some targets :: messages.map fun _ => if protocols .ipc then some [] else none,
          (publishAll n topic messages left).2) := by
  refine ⟨(publish_targets h).1, (publish_targets h).2.1, ?_⟩
  rw [publishAll, h, ← publishAll_left messages h]

def running : AittDiscovery.State := { isRunning := true }

def withIpc : EnumSet := fun p => p = .mqtt || p = .tcp || p = .ipc

theorem publish_once_per_set_at :
    let n : Native := ⟨running, fun _ => false, fun _ => none⟩
    (∃ left, publish n "a" [1] withIpc = some ([.mq, .nullTransport], left)) ∧
      (publishAll n "a" [[1], [2]] withIpc).1 = [some [.mq, .nullTransport], some []] := by
  have h : (publish ⟨running, fun _ => false, fun _ => none⟩ "a" [1] withIpc).map (·.1) =
      some [.mq, .nullTransport] := by decide +kernel
  obtain ⟨r, hr, he⟩ := Option.map_eq_some_iff.mp h
  obtain ⟨targets, left⟩ := r
  cases he
  exact ⟨⟨left, hr⟩, congrArg Prod.fst (publish_once_per_set [[2]] hr).2.2⟩

section Subscribe

variable {κ : Type} {s t : State κ} {callback : κ} {jniCallback : ℕ} {accepted : Bool}

/-- A subscription that the native library accepts is one that `AITT::Impl::Subscribe` can
read; it may refuse for other reasons too. -/
def Answered : Event κ → Prop
  | .connect _ _ | .unsubscribe _ => True
  | .subscribe _ _ protocols _ accepted =>
    accepted = true → Native.accepts (subscribeLoop protocols).1 = true

/-- The sum is one protocol exactly when one was chosen. -/
theorem accepts_iff (protocols : EnumSet) :
    Native.accepts (subscribeLoop protocols).1 = true ↔ (chosen protocols).length = 1 := by
  rw [(loop_fst protocols).2]
  cases hm : protocols .mqtt <;> cases ht : protocols .tcp <;> cases hs : protocols .tcpSecure <;>
    simp only [List.filter, hm, ht, hs, chosen, List.filterMap] <;> decide

theorem any_native_iff (protocols : EnumSet) :
    (toList protocols).any isUsingNativePubSub = true ↔ chosen protocols ≠ [] := by
  have hf : (toList protocols).any isUsingNativePubSub = true ↔
      (toList protocols).filter isUsingNativePubSub ≠ [] := by
    rw [ne_eq, List.filter_eq_nil_iff, List.any_eq_true]
    push Not
    rfl
  rw [hf, filter_native]
  cases hm : protocols .mqtt <;> cases ht : protocols .tcp <;> cases hs : protocols .tcpSecure <;>
    simp [chosen, hm, ht, hs]

theorem subscribeTransports_native (ps : List Protocol) (s : State κ) (topic : String) :
    (ps.foldl (fun s p => s.subscribeTransport topic p) s).native = s.native ∧
      (ps.foldl (fun s p => s.subscribeTransport topic p) s).aittSubId = s.aittSubId := by
  induction ps generalizing s with
  | nil => exact ⟨rfl, rfl⟩
  | cons p ps ih =>
    rw [List.foldl_cons, (ih _).1, (ih _).2, State.subscribeTransport]
    split <;> exact ⟨rfl, rfl⟩

theorem subscribe_native [DecidableEq κ]
    (h : s.subscribe topic callback protocols jniCallback accepted = some t) :
    t.native = (if chosen protocols ≠ [] ∧ accepted then s.native ++ [(s.next, topic)]
        else s.native) ∧
      (chosen protocols ≠ [] →
        t.aittSubId.lookup topic = some (if accepted then s.next else 0)) := by
  rw [State.subscribe] at h
  split at h
  · cases h
  · split at h
    · cases h
    · cases h
      rw [State.addCallback, (subscribeTransports_native _ _ _).1,
        (subscribeTransports_native _ _ _).2]
      by_cases hc : chosen protocols = []
      · have hany : ¬ (toList protocols).any isUsingNativePubSub = true :=
          fun ha => (any_native_iff protocols).mp ha hc
        rw [toList] at hany
        rw [if_neg hany]
        simp [hc]
      · have hany := (any_native_iff protocols).mpr hc
        rw [toList] at hany
        rw [if_pos hany]
        simp [hc, State.subscribeNative, State.setSubId, State.jniSubscribe]

theorem unsubscribe_native_subset (ht : s.unsubscribe topic = some t) : t.native ⊆ s.native := by
  rw [State.unsubscribe] at ht
  split at ht
  · cases ht
  · split at ht
    · cases ht
      exact List.Subset.refl _
    · cases ht
      rcases unsubscribeNative_cases s topic with ⟨-, he⟩ | ⟨id, -, he⟩
      · rw [State.forget, he]
        exact List.Subset.refl _
      · rw [State.forget, he]
        exact List.filter_subset_self _

def NeverAlone (topic : String) : Event κ → Prop
  | .subscribe other _ protocols _ _ => other = topic → (chosen protocols).length ≠ 1
  | .connect _ _ | .unsubscribe _ => True

theorem never_native [DecidableEq κ] (hd : topic ≠ discoveryTopic)
    (hs : (machine κ).Reaches (fun _ e => Answered e ∧ NeverAlone topic e) s) :
    ∀ n ∈ s.native, n.2 ≠ topic := by
  apply hs.invariant (I := fun s => ∀ n ∈ s.native, n.2 ≠ topic)
  · intro n hn
    cases hn
  · intro s e t _ hi he ht n hn
    cases e with
    | connect jniCallback accepted =>
      cases ht
      rw [State.jniSubscribe] at hn
      cases accepted with
      | false => exact hi n hn
      | true =>
        rcases List.mem_append.mp hn with hn | hn
        · exact hi n hn
        · rw [List.mem_singleton.mp hn]
          exact hd.symm
    | unsubscribe other => exact hi n (unsubscribe_native_subset ht hn)
    | subscribe other callback protocols jniCallback accepted =>
      rw [(subscribe_native ht).1] at hn
      split at hn
      · rename_i hc
        rcases List.mem_append.mp hn with hn | hn
        · exact hi n hn
        · rw [List.mem_singleton.mp hn]
          intro hto
          exact he.2 hto ((accepts_iff protocols).mp (he.1 hc.2))
      · exact hi n hn

/-- One protocol of MQTT, TCP and secure TCP gives a native subscription where the library
accepts it; two or three give none, and leave a null id in the table. A topic that is only
ever subscribed to in that way is never known to the native library. -/
theorem native_subscription_iff [DecidableEq κ] (s : State κ) (topic : String) :
    (∀ callback protocols jniCallback accepted t,
      s.subscribe topic callback protocols jniCallback accepted = some t →
      Answered (.subscribe topic callback protocols jniCallback accepted) →
      (t.native = s.native ++ [(s.next, topic)] ↔
        accepted = true ∧ (chosen protocols).length = 1) ∧
      (1 < (chosen protocols).length →
        t.native = s.native ∧ t.aittSubId.lookup topic = some 0)) ∧
    (topic ≠ discoveryTopic →
      (machine κ).Reaches (fun _ e => Answered e ∧ NeverAlone topic e) s →
      ∀ n ∈ s.native, n.2 ≠ topic) := by
  refine ⟨?_, fun hd hs => never_native hd hs⟩
  intro callback protocols jniCallback accepted t ht ha
  obtain ⟨hnat, hid⟩ := subscribe_native ht
  constructor
  · rw [hnat]
    constructor
    · intro he
      split at he
      · rename_i hc
        exact ⟨hc.2, (accepts_iff protocols).mp (ha hc.2)⟩
      · exact absurd he.symm (by simp)
    · rintro ⟨hacc, hlen⟩
      rw [if_pos ⟨fun hnil => by simp [hnil] at hlen, hacc⟩]
  · intro hlen
    have hacc : accepted = false := by
      by_contra hne
      have hone := (accepts_iff protocols).mp (ha (Bool.eq_true_of_not_eq_false hne))
      omega
    have hne : chosen protocols ≠ [] := fun hnil => by simp [hnil] at hlen
    rw [hnat, hid hne, hacc]
    simp

instance (e : Event κ) : Decidable (Answered e) :=
  match e with
  | .connect _ _ | .unsubscribe _ => inferInstanceAs (Decidable True)
  | .subscribe _ _ _ _ _ => inferInstanceAs (Decidable (_ → _))

instance (topic : String) (e : Event κ) : Decidable (NeverAlone topic e) :=
  match e with
  | .connect _ _ | .unsubscribe _ => inferInstanceAs (Decidable True)
  | .subscribe _ _ _ _ _ => inferInstanceAs (Decidable (_ → _))

/-- A second subscription to the topic, with MQTT alone, is the first that counts. -/
theorem native_subscription_at : ∃ s : State ℕ, (∀ n ∈ s.native, n.2 ≠ "a") ∧
    ∃ t, s.subscribe "a" 7 (only .mqtt) 101 true = some t ∧
      t.native = s.native ++ [(s.next, "a")] := by
  obtain ⟨s, hs, -⟩ := (machine ℕ).exists_reaches (fun _ e => Answered e ∧ NeverAlone "a" e)
    [.connect 99 true, .subscribe "a" 7 withIpc 100 false] (fun _ => true) (by decide +kernel)
  have h := native_subscription_iff s "a"
  obtain ⟨t, ht⟩ : ∃ t, s.subscribe "a" 7 (only .mqtt) 101 true = some t := by
    rw [State.subscribe, if_neg (by decide), if_neg (by decide)]
    exact ⟨_, rfl⟩
  exact ⟨s, h.2 (by decide) hs, t, ht, (h.1 7 _ 101 true t ht (by decide)).1.mpr (by decide)⟩

end Subscribe

end JavaRouting
