import Aitt.MosquittoDelivery
import Aitt.TcpModule
import Mathlib.Logic.Function.Basic

/-! `AITT::Impl`: the list of subscriptions over the MQTT client, the discovery table of MQTT
topics and the two TCP modules. The id of a subscription is the address of its
`SubscribeInfo`, and the lambda that a transport holds captures that address. -/
namespace AittImpl

open AittTypes MqttProperties MosquittoDelivery
open MosquittoMQ (Client SubscribeData)
open TcpModule (Module CbInfo Failure Server)

structure Closure (κ : Type) where
  info : Address
  cb : κ
  deriving DecidableEq, Repr

/-- A heap cell `SubscribeInfo`; `cb` records what it was made for and is never read. -/
structure SubscribeInfo (κ : Type) where
  address : Address
  protocol : AittProtocol
  handle : Address
  cb : κ
  deriving DecidableEq, Repr

structure Impl (κ : Type) where
  mq : Client (Closure κ)
  mySubscribeTable : List (Address × String)
  modules : Bool → Module (Closure κ)
  subscribedList : List (SubscribeInfo κ)
  replyId : UInt16

/-- What allocator, sockets and broker answer during one `Subscribe`: the three cells, the
new server, and whether `mosquitto_subscribe` and the discovery publication succeed. -/
structure Outcome where
  info : Address
  handle : Address
  listenInfo : Address
  server : Except Failure Server
  ret : Bool
  published : Bool

def tcpProtocol (secure : Bool) : AittProtocol := if secure then .tcpSecure else .tcp

variable {κ : Type}

namespace Impl

def new (ip : String) : Impl κ := ⟨.new, [], fun secure => ⟨secure, ip, [], []⟩, [], 0⟩

def subscribeMQ (i : Impl κ) (topic : String) (cb : κ) (userData : Address) (o : Outcome) :
    Impl κ × Except Failure Address :=
  match i.mq.subscribe ⟨o.handle, topic, ⟨o.info, cb⟩, userData⟩ o.ret with
  | (mq, .error err) => ({ i with mq := mq }, .error (.aittException err))
  | (mq, .ok handle) =>
    if handle ∈ i.mySubscribeTable.map (·.1) then
      ({ i with mq := mq }, .error (.aittException .already))
    else
      ({ i with mq := mq, mySubscribeTable := i.mySubscribeTable ++ [(handle, topic)] },
        if o.published then .ok handle else .error (.aittException .mqttErr))

def subscribeTCP (i : Impl κ) (secure : Bool) (topic : String) (cb : κ) (userData : Address)
    (o : Outcome) : Impl κ × Except Failure Address :=
  let r := (i.modules secure).subscribe topic ⟨o.handle, ⟨o.info, cb⟩, userData⟩ o.listenInfo
    o.server o.published
  ({ i with modules := Function.update i.modules secure r.1 }, r.2.2)

def transportSubscribe (i : Impl κ) (protocol : AittProtocol) (topic : String) (cb : κ)
    (userData : Address) (o : Outcome) : Impl κ × Except Failure Address :=
  match protocol with
  | .mqtt => i.subscribeMQ topic cb userData o
  | .tcp => i.subscribeTCP false topic cb userData o
  | .tcpSecure => i.subscribeTCP true topic cb userData o
  | .other _ => (i, .error (.aittException .invalidArg))

/-- An exception of the transport passes through; the `SubscribeInfo` is then in no list. -/
def subscribe (i : Impl κ) (protocol : AittProtocol) (topic : String) (cb : κ)
    (userData : Address) (o : Outcome) : Impl κ × Except Failure Address :=
  match i.transportSubscribe protocol topic cb userData o with
  | (i', .error err) => (i', .error err)
  | (i', .ok handle) =>
    ({ i' with subscribedList := i'.subscribedList ++ [⟨o.info, protocol, handle, cb⟩] },
      .ok o.info)

def unsubscribeMQ (i : Impl κ) (handle : Address) (ret published : Bool) :
    Impl κ × Except Failure Address :=
  match i.mq.unsubscribe handle ret with
  | (mq, .error err) => ({ i with mq := mq }, .error (.aittException err))
  | (mq, .ok userData) =>
    if handle ∈ i.mySubscribeTable.map (·.1) then
      ({ i with mq := mq, mySubscribeTable := i.mySubscribeTable.filter (·.1 ≠ handle) },
        if published then .ok userData else .error (.aittException .mqttErr))
    else ({ i with mq := mq }, .error (.aittException .noDataErr))

def unsubscribeTCP (i : Impl κ) (secure : Bool) (handle : Address) (published : Bool) :
    Impl κ × Except Failure Address :=
  let r := (i.modules secure).unsubscribe handle published
  ({ i with modules := Function.update i.modules secure r.1 }, r.2.2)

def transportUnsubscribe (i : Impl κ) (info : SubscribeInfo κ) (ret published : Bool) :
    Impl κ × Except Failure Address :=
  match info.protocol with
  | .mqtt => i.unsubscribeMQ info.handle ret published
  | .tcp => i.unsubscribeTCP false info.handle published
  | .tcpSecure => i.unsubscribeTCP true info.handle published
  | .other _ => (i, .ok 0)

def find (i : Impl κ) (id : Address) : Option (SubscribeInfo κ) :=
  i.subscribedList.find? (·.address = id)

/-- An exception of the transport leaves the entry in the list. -/
def unsubscribe (i : Impl κ) (id : Address) (ret published : Bool) :
    Impl κ × Except Failure Address :=
  match i.find id with
  | none => (i, .error (.aittException .noDataErr))
  | some info =>
    match i.transportUnsubscribe info ret published with
    | (i', .error err) => (i', .error err)
    | (i', .ok userData) =>
      ({ i' with subscribedList := i'.subscribedList.eraseP (·.address = id) }, .ok userData)

def unsubscribeEach : List (SubscribeInfo κ) → (ℕ → Bool × Bool) → Impl κ →
    Impl κ × Except Failure Unit
  | [], _, i => (i, .ok ())
  | info :: rest, calls, i =>
    match i.transportUnsubscribe info (calls 0).1 (calls 0).2 with
    | (i', .error err) => (i', .error err)
    | (i', .ok _) => unsubscribeEach rest (fun n => calls (n + 1)) i'

/-- The list is cleared after the loop, so an exception leaves all of it. -/
def unsubscribeAll (i : Impl κ) (calls : ℕ → Bool × Bool) : Impl κ × Except Failure Unit :=
  match unsubscribeEach i.subscribedList calls i with
  | (i', .error err) => (i', .error err)
  | (i', .ok _) => ({ i' with subscribedList := [] }, .ok ())

def cells (i : Impl κ) : AittProtocol → List (Address × Closure κ)
  | .mqtt => i.mq.live.map fun d => (d.handle, d.cb)
  | .tcp => (i.modules false).cells.map fun c => (c.address, c.cb)
  | .tcpSecure => (i.modules true).cells.map fun c => (c.address, c.cb)
  | .other _ => []

def closures (i : Impl κ) : List (Closure κ) :=
  (i.cells .mqtt ++ i.cells .tcp ++ i.cells .tcpSecure).map (·.2)

end Impl

/-- New cells lie at addresses that nothing live has. A lambda keeps its `SubscribeInfo`
live, also when `Subscribe` threw after it was handed over. -/
structure Fresh (i : Impl κ) (protocol : AittProtocol) (o : Outcome) : Prop where
  nonnull : o.handle ≠ 0
  info : ∀ e ∈ i.subscribedList, e.address ≠ o.info
  captured : ∀ c ∈ i.closures, c.info ≠ o.info
  handle : ∀ x ∈ i.cells protocol, x.1 ≠ o.handle
  listenInfo : ∀ secure, ∀ d ∈ (i.modules secure).subscribeTable, d.address ≠ o.listenInfo

instance (i : Impl κ) (protocol : AittProtocol) (o : Outcome) : Decidable (Fresh i protocol o) :=
  decidable_of_iff
    (o.handle ≠ 0 ∧ (∀ e ∈ i.subscribedList, e.address ≠ o.info) ∧
      (∀ c ∈ i.closures, c.info ≠ o.info) ∧ (∀ x ∈ i.cells protocol, x.1 ≠ o.handle) ∧
      ∀ secure, ∀ d ∈ (i.modules secure).subscribeTable, d.address ≠ o.listenInfo)
    ⟨fun ⟨a, b, c, d, e⟩ => ⟨a, b, c, d, e⟩, fun ⟨a, b, c, d, e⟩ => ⟨a, b, c, d, e⟩⟩

/-- The new cell does not lie where an entry of the list points that outlived its own cell,
as an entry does whose `Unsubscribe` threw. -/
def Unshared (i : Impl κ) (protocol : AittProtocol) (o : Outcome) : Prop :=
  ∀ e ∈ i.subscribedList, e.protocol = protocol → e.handle ≠ o.handle

instance (i : Impl κ) (protocol : AittProtocol) (o : Outcome) :
    Decidable (Unshared i protocol o) :=
  inferInstanceAs (Decidable (∀ e ∈ i.subscribedList, _))

structure Running (i : Impl κ) : Prop where
  mq : MosquittoMQ.WellFormed i.mq
  calm : i.mq.newSubscribers = [] ∧ i.mq.subscribersIterating = false
  modules : ∀ secure, TcpModule.Sound (i.modules secure)

structure Linked (i : Impl κ) : Prop extends Running i where
  addresses : (i.subscribedList.map (·.address)).Nodup
  captured : ∀ protocol, ∀ x ∈ i.cells protocol, ∀ e ∈ i.subscribedList,
    x.2.info = e.address → protocol = e.protocol ∧ x.1 = e.handle ∧ x.2.cb = e.cb
  handles : ∀ e ∈ i.subscribedList, ∀ x ∈ i.cells e.protocol,
    x.1 = e.handle → x.2.info = e.address
  known : ∀ secure, ∀ e ∈ i.subscribedList, ∀ x ∈ i.cells (tcpProtocol secure),
    e.protocol = tcpProtocol secure → x.1 = e.handle →
      ∃ p ∈ (i.modules secure).subscribeHandles, p.1.address = e.handle

theorem mem_cells_mqtt {i : Impl κ} {x : Address × Closure κ} :
    x ∈ i.cells .mqtt ↔ ∃ d ∈ i.mq.live, (d.handle, d.cb) = x :=
  List.mem_map

theorem mem_cells_tcp {i : Impl κ} {secure : Bool} {x : Address × Closure κ} :
    x ∈ i.cells (tcpProtocol secure) ↔ ∃ c ∈ (i.modules secure).cells, (c.address, c.cb) = x := by
  cases secure <;> exact List.mem_map

theorem mem_closures {i : Impl κ} {c : Closure κ} :
    c ∈ i.closures ↔ ∃ protocol handle, (handle, c) ∈ i.cells protocol := by
  simp only [Impl.closures, List.mem_map, List.mem_append]
  constructor
  · rintro ⟨⟨h, c⟩, (hx | hx) | hx, rfl⟩
    · exact ⟨_, h, hx⟩
    · exact ⟨_, h, hx⟩
    · exact ⟨_, h, hx⟩
  · rintro ⟨protocol, h, hx⟩
    refine ⟨(h, c), ?_, rfl⟩
    cases protocol with
    | mqtt => exact Or.inl (Or.inl hx)
    | tcp => exact Or.inl (Or.inr hx)
    | tcpSecure => exact Or.inr hx
    | other => cases hx

theorem mem_of_find {i : Impl κ} {id : Address} {e : SubscribeInfo κ} (h : i.find id = some e) :
    e ∈ i.subscribedList ∧ e.address = id :=
  ⟨List.mem_of_find?_eq_some h, by simpa using List.find?_some h⟩

structure Adds (i i' : Impl κ) (protocol : AittProtocol) (x : Address × Closure κ) : Prop where
  running : Running i'
  list : i'.subscribedList = i.subscribedList
  old : ∀ p, ∀ y ∈ i.cells p, y ∈ i'.cells p
  new : ∀ p, ∀ y ∈ i'.cells p, y ∈ i.cells p ∨ (p = protocol ∧ y = x)
  handles : ∀ secure, ∀ p ∈ (i.modules secure).subscribeHandles,
    p ∈ (i'.modules secure).subscribeHandles

structure Removes (i i' : Impl κ) (info : SubscribeInfo κ) : Prop where
  running : Running i'
  list : i'.subscribedList = i.subscribedList
  sub : ∀ p, ∀ y ∈ i'.cells p, y ∈ i.cells p
  kept : ∀ p, ∀ y ∈ i.cells p, y ∈ i'.cells p ∨ (p = info.protocol ∧ y.1 = info.handle)
  handles : ∀ secure, ∀ p ∈ (i.modules secure).subscribeHandles,
    p ∈ (i'.modules secure).subscribeHandles ∨
      ∀ x ∈ i'.cells (tcpProtocol secure), x.1 ≠ p.1.address

theorem Adds.refl {i : Impl κ} (h : Running i) (protocol : AittProtocol)
    (x : Address × Closure κ) : Adds i i protocol x :=
  ⟨h, rfl, fun _ _ hy => hy, fun _ _ hy => Or.inl hy, fun _ _ hp => hp⟩

theorem Removes.refl {i : Impl κ} (h : Running i) (info : SubscribeInfo κ) : Removes i i info :=
  ⟨h, rfl, fun _ _ hy => hy, fun _ _ hy => Or.inl hy, fun _ _ hp => Or.inl hp⟩

theorem Running.addMQ {i : Impl κ} (h : Running i) {data : SubscribeData (Closure κ)}
    (ha : MosquittoMQ.Allocatable i.mq data) (table : List (Address × String)) :
    Adds i { i with mq := (i.mq.subscribe data true).1, mySubscribeTable := table } .mqtt
      (data.handle, data.cb) := by
  have hp := MosquittoMQ.subscribe_live i.mq data
  refine ⟨⟨h.mq.subscribe ha, ?_, h.modules⟩, rfl, fun p y hy => ?_, fun p y hy => ?_,
    fun _ _ hp => hp⟩
  · obtain ⟨hn, hi⟩ := h.calm
    simp [Client.subscribe, hi, hn]
  · cases p with
    | mqtt =>
      obtain ⟨d, hd, he⟩ := mem_cells_mqtt.mp hy
      exact mem_cells_mqtt.mpr ⟨d, hp.symm.subset (List.mem_cons_of_mem _ hd), he⟩
    | _ => exact hy
  · cases p with
    | mqtt =>
      obtain ⟨d, hd, he⟩ := mem_cells_mqtt.mp hy
      rcases List.mem_cons.mp (hp.subset hd) with hd | hd
      · exact Or.inr ⟨rfl, by rw [← he, hd]⟩
      · exact Or.inl (mem_cells_mqtt.mpr ⟨d, hd, he⟩)
    | _ => exact Or.inl hy

theorem Running.eraseMQ {i : Impl κ} (h : Running i) {info : SubscribeInfo κ} {n : ℕ}
    {data : SubscribeData (Closure κ)} (hd : i.mq.subscribers[n]? = some data)
    (hh : data.handle = info.handle) (hp : info.protocol = .mqtt)
    (table : List (Address × String)) :
    Removes i { i with mq := i.mq.erase n, mySubscribeTable := table } info ∧
      ∀ y ∈ (i.mq.erase n).live, y.handle ≠ info.handle := by
  have hm := h.mq.mem_erase_live hd
  refine ⟨⟨⟨h.mq.erase hd, by simpa using h.calm, h.modules⟩, rfl, fun p y hy => ?_,
    fun p y hy => ?_, fun _ _ hp => Or.inl hp⟩, fun y hy => hh ▸ ((hm y).mp hy).2⟩
  · cases p with
    | mqtt =>
      obtain ⟨d, hd, he⟩ := mem_cells_mqtt.mp hy
      exact mem_cells_mqtt.mpr ⟨d, ((hm d).mp hd).1, he⟩
    | _ => exact hy
  · cases p with
    | mqtt =>
      obtain ⟨d, hd, he⟩ := mem_cells_mqtt.mp hy
      by_cases heq : d.handle = info.handle
      · exact Or.inr ⟨hp.symm, by rw [← he]; exact heq⟩
      · exact Or.inl (mem_cells_mqtt.mpr ⟨d, (hm d).mpr ⟨hd, hh ▸ heq⟩, he⟩)
    | _ => exact Or.inl hy

/-- Cells of a module that was replaced. -/
theorem mem_cells_update {i : Impl κ} {secure : Bool} {m : Module (Closure κ)}
    {protocol : AittProtocol} {x : Address × Closure κ} :
    x ∈ ({ i with modules := Function.update i.modules secure m } : Impl κ).cells protocol ↔
      (protocol = tcpProtocol secure ∧ ∃ c ∈ m.cells, (c.address, c.cb) = x) ∨
        (protocol ≠ tcpProtocol secure ∧ x ∈ i.cells protocol) := by
  cases protocol <;> cases secure <;> simp [Impl.cells, tcpProtocol]

theorem Running.update {i : Impl κ} (h : Running i) (secure : Bool) {m : Module (Closure κ)}
    (hm : TcpModule.Sound m) :
    Running ({ i with modules := Function.update i.modules secure m } : Impl κ) := by
  refine ⟨h.mq, h.calm, fun s => ?_⟩
  by_cases hs : s = secure
  · subst hs
    simpa using hm
  · simpa [Function.update_of_ne hs] using h.modules s

theorem Running.addTCP {i : Impl κ} (h : Running i) (secure : Bool) {m : Module (Closure κ)}
    {cell : CbInfo (Closure κ)} (hm : TcpModule.Sound m)
    (hc : ∀ c, c ∈ m.cells ↔ c = cell ∨ c ∈ (i.modules secure).cells)
    (hh : ∀ p ∈ (i.modules secure).subscribeHandles, p ∈ m.subscribeHandles) :
    Adds i { i with modules := Function.update i.modules secure m } (tcpProtocol secure)
      (cell.address, cell.cb) := by
  refine ⟨h.update secure hm, rfl, fun p y hy => ?_, fun p y hy => ?_, fun s p hp => ?_⟩
  · by_cases hs : p = tcpProtocol secure
    · subst hs
      obtain ⟨c, hcm, he⟩ := mem_cells_tcp.mp hy
      exact mem_cells_update.mpr (Or.inl ⟨rfl, c, (hc c).mpr (Or.inr hcm), he⟩)
    · exact mem_cells_update.mpr (Or.inr ⟨hs, hy⟩)
  · rcases mem_cells_update.mp hy with ⟨rfl, c, hcm, he⟩ | ⟨-, hy⟩
    · rcases (hc c).mp hcm with rfl | hcm
      · exact Or.inr ⟨rfl, he.symm⟩
      · exact Or.inl (mem_cells_tcp.mpr ⟨c, hcm, he⟩)
    · exact Or.inl hy
  · by_cases hs : s = secure
    · subst hs
      simpa using hh p hp
    · simpa [Function.update_of_ne hs] using hp

theorem Running.eraseTCP {i : Impl κ} (h : Running i) (secure : Bool) {m : Module (Closure κ)}
    {info : SubscribeInfo κ} (hp : info.protocol = tcpProtocol secure) (hm : TcpModule.Sound m)
    (hc : ∀ c, c ∈ m.cells ↔ c ∈ (i.modules secure).cells ∧ c.address ≠ info.handle)
    (hh : ∀ p, p ∈ m.subscribeHandles ↔
      p ∈ (i.modules secure).subscribeHandles ∧ p.1.address ≠ info.handle) :
    Removes i { i with modules := Function.update i.modules secure m } info ∧
      ∀ y ∈ ({ i with modules := Function.update i.modules secure m } : Impl κ).cells
        info.protocol, y.1 ≠ info.handle := by
  have gone : ∀ y ∈ ({ i with modules := Function.update i.modules secure m } : Impl κ).cells
      info.protocol, y.1 ≠ info.handle := by
    intro y hy
    rcases mem_cells_update.mp hy with ⟨-, c, hcm, he⟩ | ⟨hne, -⟩
    · rw [← he]
      exact ((hc c).mp hcm).2
    · exact absurd hp hne
  refine ⟨⟨h.update secure hm, rfl, fun p y hy => ?_, fun p y hy => ?_, fun s p hs => ?_⟩, gone⟩
  · rcases mem_cells_update.mp hy with ⟨rfl, c, hcm, he⟩ | ⟨-, hy⟩
    · exact mem_cells_tcp.mpr ⟨c, ((hc c).mp hcm).1, he⟩
    · exact hy
  · by_cases hs : p = tcpProtocol secure
    · subst hs
      obtain ⟨c, hcm, he⟩ := mem_cells_tcp.mp hy
      by_cases heq : c.address = info.handle
      · exact Or.inr ⟨hp.symm, by rw [← he]; exact heq⟩
      · exact Or.inl (mem_cells_update.mpr (Or.inl ⟨rfl, c, (hc c).mpr ⟨hcm, heq⟩, he⟩))
    · exact Or.inl (mem_cells_update.mpr (Or.inr ⟨hs, hy⟩))
  · by_cases he : s = secure
    · subst he
      by_cases heq : p.1.address = info.handle
      · exact Or.inr fun x hx => heq ▸ gone x (hp ▸ hx)
      · exact Or.inl (by simpa using (hh p).mpr ⟨hs, heq⟩)
    · exact Or.inl (by simpa [Function.update_of_ne he] using hs)

theorem Fresh.allocatable {i : Impl κ} {secure : Bool} {o : Outcome}
    (hf : Fresh i (tcpProtocol secure) o) (c : Closure κ) (userData : Address) :
    TcpModule.Allocatable (i.modules secure) ⟨o.handle, c, userData⟩ o.listenInfo := by
  refine ⟨hf.nonnull, fun d hd x hx => ?_, hf.listenInfo secure⟩
  exact hf.handle _ (mem_cells_tcp.mpr ⟨x, TcpModule.Module.mem_cells.mpr ⟨d, hd, hx⟩, rfl⟩)

theorem transportSubscribe_tcp (i : Impl κ) (secure : Bool) (topic : String) (cb : κ)
    (userData : Address) (o : Outcome) :
    i.transportSubscribe (tcpProtocol secure) topic cb userData o =
      i.subscribeTCP secure topic cb userData o := by
  cases secure <;> rfl

/-- `SubscribeTCP`: the handle it returns is known to the module. -/
theorem Running.subscribeTCP {i : Impl κ} (h : Running i) (secure : Bool) {topic : String}
    {cb : κ} {userData : Address} {o : Outcome} (hf : Fresh i (tcpProtocol secure) o) :
    Adds i (i.subscribeTCP secure topic cb userData o).1 (tcpProtocol secure)
        (o.handle, ⟨o.info, cb⟩) ∧
      ∀ handle, (i.subscribeTCP secure topic cb userData o).2 = .ok handle →
        handle = o.handle ∧
        ∃ p ∈ ((i.subscribeTCP secure topic cb userData o).1.modules secure).subscribeHandles,
          p.1.address = handle := by
  have ha := hf.allocatable ⟨o.info, cb⟩ userData
  rcases @TcpModule.Sound.subscribe_spec _ _ (h.modules secure) topic _ _ ha o.server o.published
    with ⟨err, he⟩ | ⟨m, blob, owner, he, hm, hc, hh⟩
  · simp only [Impl.subscribeTCP, he, Function.update_eq_self]
    exact ⟨.refl h _ _, fun handle hr => by cases hr⟩
  · simp only [Impl.subscribeTCP, he]
    refine ⟨h.addTCP secure hm hc fun p hp => ?_, fun handle hr => ?_⟩
    · rw [hh]
      exact List.mem_append_left _ hp
    · cases hpub : o.published with
      | false => simp [hpub] at hr
      | true =>
        obtain rfl : o.handle = handle := by simpa [hpub] using hr
        refine ⟨rfl, (⟨o.handle, ⟨o.info, cb⟩, userData⟩, owner), ?_, rfl⟩
        simp [hh, hpub]

theorem Running.subscribeMQ {i : Impl κ} (h : Running i) {topic : String} {cb : κ}
    {userData : Address} {o : Outcome} (hf : Fresh i .mqtt o) :
    Adds i (i.subscribeMQ topic cb userData o).1 .mqtt (o.handle, ⟨o.info, cb⟩) ∧
      ∀ handle, (i.subscribeMQ topic cb userData o).2 = .ok handle → handle = o.handle := by
  have ha : MosquittoMQ.Allocatable i.mq ⟨o.handle, topic, ⟨o.info, cb⟩, userData⟩ :=
    ⟨hf.nonnull, fun d hd => hf.handle _ (mem_cells_mqtt.mpr ⟨d, hd, rfl⟩)⟩
  unfold Impl.subscribeMQ
  cases hret : o.ret with
  | false =>
    rw [MosquittoMQ.subscribe_fails]
    exact ⟨.refl h _ _, fun handle hr => by cases hr⟩
  | true =>
    rw [MosquittoMQ.subscribe_succeeds]
    simp only
    split
    · exact ⟨h.addMQ ha _, fun handle hr => by cases hr⟩
    · refine ⟨h.addMQ ha _, fun handle hr => ?_⟩
      cases hpub : o.published with
      | false => simp [hpub] at hr
      | true => simpa [hpub] using hr.symm

theorem Running.transportSubscribe {i : Impl κ} (h : Running i) {protocol : AittProtocol}
    {topic : String} {cb : κ} {userData : Address} {o : Outcome} (hf : Fresh i protocol o) :
    Adds i (i.transportSubscribe protocol topic cb userData o).1 protocol
        (o.handle, ⟨o.info, cb⟩) ∧
      ∀ handle, (i.transportSubscribe protocol topic cb userData o).2 = .ok handle →
        handle = o.handle ∧ ∀ secure, protocol = tcpProtocol secure →
          ∃ p ∈ ((i.transportSubscribe protocol topic cb userData o).1.modules
            secure).subscribeHandles, p.1.address = handle := by
  cases protocol with
  | mqtt =>
    obtain ⟨ha, hr⟩ := h.subscribeMQ hf
    exact ⟨ha, fun handle he => ⟨hr handle he, fun secure hs => by cases secure <;> cases hs⟩⟩
  | tcp =>
    obtain ⟨ha, hr⟩ := h.subscribeTCP false hf
    refine ⟨ha, fun handle he => ⟨(hr handle he).1, fun secure hs => ?_⟩⟩
    cases secure with
    | false => exact (hr handle he).2
    | true => cases hs
  | tcpSecure =>
    obtain ⟨ha, hr⟩ := h.subscribeTCP true hf
    refine ⟨ha, fun handle he => ⟨(hr handle he).1, fun secure hs => ?_⟩⟩
    cases secure with
    | false => cases hs
    | true => exact (hr handle he).2
  | other => exact ⟨.refl h _ _, fun handle he => by cases he⟩

/-- `mq->Unsubscribe` with the discovery handler behind it. -/
theorem Running.unsubscribeMQ {i : Impl κ} (h : Running i) {info : SubscribeInfo κ}
    (hp : info.protocol = .mqtt) (ret published : Bool) :
    Removes i (i.unsubscribeMQ info.handle ret published).1 info ∧
      ∀ userData, (i.unsubscribeMQ info.handle ret published).2 = .ok userData →
        ∀ y ∈ (i.unsubscribeMQ info.handle ret published).1.cells info.protocol,
          y.1 ≠ info.handle := by
  have cellsOf : ∀ {j : Impl κ}, (∀ d ∈ j.mq.live, d.handle ≠ info.handle) →
      ∀ y ∈ j.cells info.protocol, y.1 ≠ info.handle := by
    intro j hj y hy
    rw [hp] at hy
    obtain ⟨d, hd, rfl⟩ := mem_cells_mqtt.mp hy
    exact hj d hd
  unfold Impl.unsubscribeMQ Client.unsubscribe
  by_cases hz : info.handle = 0
  · have hlive : ∀ d ∈ i.mq.live, d.handle ≠ info.handle := fun d hd => hz ▸ h.mq.nonnull d hd
    rw [if_pos hz]
    dsimp only
    split
    · exact ⟨⟨⟨h.mq, h.calm, h.modules⟩, rfl, fun p y hy => by cases p <;> exact hy,
        fun p y hy => Or.inl (by cases p <;> exact hy), fun _ _ hp => Or.inl hp⟩,
        fun _ _ => cellsOf hlive⟩
    · exact ⟨.refl h info, fun userData hr => by cases hr⟩
  · rw [if_neg hz]
    cases hd : i.mq.subscribers[i.mq.find info.handle]? with
    | none => exact ⟨.refl h info, fun userData hr => by cases hr⟩
    | some data =>
      have hh : data.handle = info.handle := by
        simpa using List.findIdx_of_getElem?_eq_some hd
      cases ret with
      | false => exact ⟨(h.eraseMQ hd hh hp _).1, fun userData hr => by cases hr⟩
      | true =>
        simp only [if_true]
        split
        · exact ⟨(h.eraseMQ hd hh hp _).1, fun _ _ => cellsOf (h.eraseMQ hd hh hp []).2⟩
        · exact ⟨(h.eraseMQ hd hh hp _).1, fun userData hr => by cases hr⟩

theorem findHandle_isSome {m : Module (Closure κ)} {p : CbInfo (Closure κ) × Address}
    (hp : p ∈ m.subscribeHandles) : ∃ q, m.findHandle p.1.address = some q := by
  have hs : (m.findHandle p.1.address).isSome := by
    rw [Module.findHandle, List.find?_isSome]
    exact ⟨p, hp, by simp⟩
  exact Option.isSome_iff_exists.mp hs

theorem transportUnsubscribe_tcp (i : Impl κ) {info : SubscribeInfo κ} {secure : Bool}
    (hp : info.protocol = tcpProtocol secure) (ret published : Bool) :
    i.transportUnsubscribe info ret published =
      i.unsubscribeTCP secure info.handle published := by
  unfold Impl.transportUnsubscribe
  rw [hp]
  cases secure <;> rfl

theorem transportUnsubscribe_mqtt (i : Impl κ) {info : SubscribeInfo κ}
    (hp : info.protocol = .mqtt) (ret published : Bool) :
    i.transportUnsubscribe info ret published = i.unsubscribeMQ info.handle ret published := by
  unfold Impl.transportUnsubscribe
  rw [hp]

theorem Linked.unsubscribeTCP {i : Impl κ} (h : Linked i) {info : SubscribeInfo κ}
    (hm : info ∈ i.subscribedList) (secure : Bool) (hp : info.protocol = tcpProtocol secure)
    (published : Bool) :
    Removes i (i.unsubscribeTCP secure info.handle published).1 info ∧
      ∀ y ∈ (i.unsubscribeTCP secure info.handle published).1.cells info.protocol,
        y.1 ≠ info.handle := by
  cases hh : (i.modules secure).findHandle info.handle with
  | none =>
    have he : i.unsubscribeTCP secure info.handle published = (i, .ok 0) := by
      simp only [Impl.unsubscribeTCP, Module.unsubscribe, hh, Function.update_eq_self]
    rw [he]
    refine ⟨.refl h.toRunning info, fun y hy heq => ?_⟩
    obtain ⟨p, hpm, hpa⟩ := h.known secure info hm y (hp ▸ hy) hp heq
    obtain ⟨q, hq⟩ := findHandle_isSome hpm
    rw [hpa, hh] at hq
    cases hq
  | some q =>
    obtain ⟨cell, owner⟩ := q
    obtain ⟨m, blob, r, he, -, hs, hc, hhs⟩ := (h.modules secure).unsubscribe_spec hh published
    simp only [Impl.unsubscribeTCP, he]
    exact h.toRunning.eraseTCP secure hp hs hc hhs

theorem Linked.transportUnsubscribe {i : Impl κ} (h : Linked i) {info : SubscribeInfo κ}
    (hm : info ∈ i.subscribedList) (ret published : Bool) :
    Removes i (i.transportUnsubscribe info ret published).1 info ∧
      ∀ userData, (i.transportUnsubscribe info ret published).2 = .ok userData →
        ∀ y ∈ (i.transportUnsubscribe info ret published).1.cells info.protocol,
          y.1 ≠ info.handle := by
  rcases hp : info.protocol with _ | _ | _ | bits
  · rw [transportUnsubscribe_mqtt i hp, ← hp]
    exact h.toRunning.unsubscribeMQ hp ret published
  · rw [@transportUnsubscribe_tcp _ i info false hp, ← hp]
    obtain ⟨hr, hg⟩ := h.unsubscribeTCP hm false hp published
    exact ⟨hr, fun _ _ => hg⟩
  · rw [@transportUnsubscribe_tcp _ i info true hp, ← hp]
    obtain ⟨hr, hg⟩ := h.unsubscribeTCP hm true hp published
    exact ⟨hr, fun _ _ => hg⟩
  · have he : i.transportUnsubscribe info ret published = (i, .ok 0) := by
      simp only [Impl.transportUnsubscribe, hp]
    rw [he]
    exact ⟨.refl h.toRunning info, fun _ _ y hy => by cases hy⟩

theorem cells_list (i : Impl κ) (list : List (SubscribeInfo κ)) (p : AittProtocol) :
    ({ i with subscribedList := list } : Impl κ).cells p = i.cells p := by
  cases p <;> rfl

/-- Entries may leave the list. -/
theorem Linked.sublist {i : Impl κ} (h : Linked i) {list : List (SubscribeInfo κ)}
    (hs : list.Sublist i.subscribedList) : Linked { i with subscribedList := list } := by
  have cell := cells_list i list
  refine ⟨⟨h.mq, h.calm, h.modules⟩, h.addresses.sublist (hs.map _), ?_, ?_, ?_⟩
  · intro p x hx e he
    exact h.captured p x (cell p ▸ hx) e (hs.subset he)
  · intro e he x hx
    exact h.handles e (hs.subset he) x (cell _ ▸ hx)
  · intro secure e he x hx
    exact h.known secure e (hs.subset he) x (cell _ ▸ hx)

theorem Linked.removes {i i' : Impl κ} (h : Linked i) {info : SubscribeInfo κ}
    (hr : Removes i i' info) : Linked i' := by
  refine ⟨hr.running, hr.list ▸ h.addresses, ?_, ?_, ?_⟩
  · intro p x hx e he
    exact h.captured p x (hr.sub p x hx) e (hr.list ▸ he)
  · intro e he x hx
    exact h.handles e (hr.list ▸ he) x (hr.sub _ x hx)
  · intro secure e he x hx hp heq
    obtain ⟨p, hpm, hpa⟩ := h.known secure e (hr.list ▸ he) x (hr.sub _ x hx) hp heq
    rcases hr.handles secure p hpm with hk | hk
    · exact ⟨p, hk, hpa⟩
    · exact absurd (heq.trans hpa.symm) (hk x hx)

/-- A callback handed to a transport by a `Subscribe` that threw stays without an entry. -/
theorem Linked.adds {i i' : Impl κ} (h : Linked i) {protocol : AittProtocol} {cb : κ}
    {o : Outcome} (hf : Fresh i protocol o) (hu : Unshared i protocol o)
    (ha : Adds i i' protocol (o.handle, ⟨o.info, cb⟩)) : Linked i' := by
  refine ⟨ha.running, ha.list ▸ h.addresses, ?_, ?_, ?_⟩
  · intro p x hx e he
    rw [ha.list] at he
    rcases ha.new p x hx with hx | ⟨-, rfl⟩
    · exact h.captured p x hx e he
    · intro heq
      exact absurd heq.symm (hf.info e he)
  · intro e he x hx
    rw [ha.list] at he
    rcases ha.new _ x hx with hx | ⟨hp, rfl⟩
    · exact h.handles e he x hx
    · intro heq
      exact absurd heq.symm (hu e he hp)
  · intro secure e he x hx hp heq
    rw [ha.list] at he
    rcases ha.new _ x hx with hx | ⟨hq, rfl⟩
    · obtain ⟨p, hpm, hpa⟩ := h.known secure e he x hx hp heq
      exact ⟨p, ha.handles secure p hpm, hpa⟩
    · exact absurd heq.symm (hu e he (hp.trans hq))

theorem Adds.closures {i i' : Impl κ} {protocol : AittProtocol} {x : Address × Closure κ}
    (ha : Adds i i' protocol x) :
    (∀ c ∈ i.closures, c ∈ i'.closures) ∧ ∀ c ∈ i'.closures, c ∈ i.closures ∨ c = x.2 := by
  constructor
  · intro c hc
    obtain ⟨p, handle, hx⟩ := mem_closures.mp hc
    exact mem_closures.mpr ⟨p, handle, ha.old p _ hx⟩
  · intro c hc
    obtain ⟨p, handle, hx⟩ := mem_closures.mp hc
    rcases ha.new p _ hx with hx | ⟨-, rfl⟩
    · exact Or.inl (mem_closures.mpr ⟨p, handle, hx⟩)
    · exact Or.inr rfl

/-- The entry of the new subscription joins the list. -/
theorem Linked.append {i i' : Impl κ} (h : Linked i) {protocol : AittProtocol} {cb : κ}
    {o : Outcome} (hf : Fresh i protocol o) (hu : Unshared i protocol o)
    (ha : Adds i i' protocol (o.handle, ⟨o.info, cb⟩))
    (hk : ∀ secure, protocol = tcpProtocol secure →
      ∃ p ∈ (i'.modules secure).subscribeHandles, p.1.address = o.handle) :
    Linked { i' with
      subscribedList := i'.subscribedList ++ [⟨o.info, protocol, o.handle, cb⟩] } := by
  have hl := h.adds hf hu ha
  refine ⟨⟨hl.mq, hl.calm, hl.modules⟩, ?_, ?_, ?_, ?_⟩
  · rw [ha.list, List.map_append, List.nodup_append]
    refine ⟨h.addresses, by simp, fun a hm b hb => ?_⟩
    obtain ⟨e, he, rfl⟩ := List.mem_map.mp hm
    obtain rfl : b = o.info := by simpa using hb
    exact hf.info e he
  · intro p x hx e he
    rw [cells_list] at hx
    rcases List.mem_append.mp he with he | he
    · exact hl.captured p x hx e he
    · obtain rfl := List.mem_singleton.mp he
      rcases ha.new p x hx with hx | ⟨rfl, rfl⟩
      · intro heq
        exact absurd heq (hf.captured x.2 (mem_closures.mpr ⟨p, x.1, hx⟩))
      · exact fun _ => ⟨rfl, rfl, rfl⟩
  · intro e he x hx
    rw [cells_list] at hx
    rcases List.mem_append.mp he with he | he
    · exact hl.handles e he x hx
    · obtain rfl := List.mem_singleton.mp he
      rcases ha.new _ x hx with hx | ⟨-, rfl⟩
      · intro heq
        exact absurd heq (hf.handle x hx)
      · exact fun _ => rfl
  · intro secure e he x hx hp heq
    rw [cells_list] at hx
    rcases List.mem_append.mp he with he | he
    · exact hl.known secure e he x hx hp heq
    · obtain rfl := List.mem_singleton.mp he
      exact hk secure hp

/-- `Subscribe` returns the new id and appends the entry under it, or throws. Either way the
transports hold at most one more lambda, which captured the new id. -/
theorem Linked.subscribe {i : Impl κ} (h : Linked i) {protocol : AittProtocol} {topic : String}
    {cb : κ} {userData : Address} {o : Outcome} (hf : Fresh i protocol o)
    (hu : Unshared i protocol o) {i' : Impl κ} {r : Except Failure Address}
    (hs : i.subscribe protocol topic cb userData o = (i', r)) :
    Linked i' ∧ (∀ c ∈ i.closures, c ∈ i'.closures) ∧
      (∀ c ∈ i'.closures, c ∈ i.closures ∨ c = ⟨o.info, cb⟩) ∧
      ((r = .ok o.info ∧
          i'.subscribedList = i.subscribedList ++ [⟨o.info, protocol, o.handle, cb⟩]) ∨
        ((∃ err, r = .error err) ∧ i'.subscribedList = i.subscribedList)) := by
  obtain ⟨ha, hr⟩ := @Running.transportSubscribe _ _ h.toRunning _ topic cb userData _ hf
  have hc := ha.closures
  unfold Impl.subscribe at hs
  rcases ht : i.transportSubscribe protocol topic cb userData o with ⟨j, err | handle⟩
  · rw [ht] at hs ha hc
    obtain ⟨rfl, rfl⟩ := Prod.mk.inj hs
    exact ⟨h.adds hf hu ha, hc.1, hc.2, Or.inr ⟨⟨err, rfl⟩, ha.list⟩⟩
  · rw [ht] at hs ha hc hr
    obtain ⟨rfl, hk⟩ := hr handle rfl
    obtain ⟨rfl, rfl⟩ := Prod.mk.inj hs
    exact ⟨h.append hf hu ha hk, hc.1, hc.2, Or.inl ⟨rfl, by rw [ha.list]⟩⟩

/-- The list keeps its entries, and at most the new one joins. -/
theorem Linked.subscribe_list {i : Impl κ} (h : Linked i) {protocol : AittProtocol}
    {topic : String} {cb : κ} {userData : Address} {o : Outcome} (hf : Fresh i protocol o)
    (hu : Unshared i protocol o) {i' : Impl κ} {r : Except Failure Address}
    (hs : i.subscribe protocol topic cb userData o = (i', r)) :
    (∀ e ∈ i.subscribedList, e ∈ i'.subscribedList) ∧
      ∀ e ∈ i'.subscribedList, e ∈ i.subscribedList ∨ e = ⟨o.info, protocol, o.handle, cb⟩ := by
  obtain ⟨-, -, -, hr⟩ := h.subscribe hf hu hs
  rcases hr with ⟨-, hlist⟩ | ⟨-, hlist⟩
  · rw [hlist]
    refine ⟨fun e he => List.mem_append_left _ he, fun e he => ?_⟩
    rcases List.mem_append.mp he with he | he
    · exact Or.inl he
    · exact Or.inr (List.mem_singleton.mp he)
  · rw [hlist]
    exact ⟨fun e he => he, fun e he => Or.inl he⟩

theorem Removes.closures {i i' : Impl κ} {info : SubscribeInfo κ} (hr : Removes i i' info) :
    ∀ c ∈ i'.closures, c ∈ i.closures := by
  intro c hc
  obtain ⟨p, handle, hx⟩ := mem_closures.mp hc
  exact mem_closures.mpr ⟨p, handle, hr.sub p _ hx⟩

/-- The cell under the handle of an entry is the one that captured its id. -/
theorem Linked.lost {i i' : Impl κ} (h : Linked i) {info : SubscribeInfo κ}
    (hm : info ∈ i.subscribedList) (hr : Removes i i' info) :
    ∀ c ∈ i.closures, c ∈ i'.closures ∨
      ∃ e ∈ i.subscribedList, e.address = info.address ∧ c.info = e.address := by
  intro c hc
  obtain ⟨p, handle, hx⟩ := mem_closures.mp hc
  rcases hr.kept p _ hx with hx | ⟨rfl, heq⟩
  · exact Or.inl (mem_closures.mpr ⟨p, handle, hx⟩)
  · exact Or.inr ⟨info, hm, rfl, h.handles info hm _ hx heq⟩

/-- `Unsubscribe` throws and leaves the list, or takes out the entry with that id and the
lambda that captured it. Either way the transports lose no other lambda. -/
theorem Linked.unsubscribe {i : Impl κ} (h : Linked i) {id : Address} {ret published : Bool}
    {i' : Impl κ} {r : Except Failure Address}
    (hs : i.unsubscribe id ret published = (i', r)) :
    Linked i' ∧ (∀ c ∈ i'.closures, c ∈ i.closures) ∧
      (∀ c ∈ i.closures, c ∈ i'.closures ∨
        ∃ e ∈ i.subscribedList, e.address = id ∧ c.info = e.address) ∧
      (((∃ err, r = .error err) ∧ i'.subscribedList = i.subscribedList) ∨
        ∃ userData e, r = .ok userData ∧ i.find id = some e ∧
          i'.subscribedList = i.subscribedList.eraseP (·.address = id) ∧
          ∀ c ∈ i'.closures, c.info ≠ id) := by
  unfold Impl.unsubscribe at hs
  cases hf : i.find id with
  | none =>
    rw [hf] at hs
    obtain ⟨rfl, rfl⟩ := Prod.mk.inj hs
    exact ⟨h, fun _ hc => hc, fun _ hc => Or.inl hc, Or.inl ⟨⟨_, rfl⟩, rfl⟩⟩
  | some info =>
    obtain ⟨hm, hid⟩ := mem_of_find hf
    obtain ⟨hr, hg⟩ := h.transportUnsubscribe hm ret published
    have lost := hid ▸ h.lost hm hr
    simp only [hf] at hs
    rcases ht : i.transportUnsubscribe info ret published with ⟨j, err | userData⟩
    · rw [ht] at hs hr lost
      obtain ⟨rfl, rfl⟩ := Prod.mk.inj hs
      exact ⟨h.removes hr, hr.closures, lost, Or.inl ⟨⟨err, rfl⟩, hr.list⟩⟩
    · rw [ht] at hs hr hg lost
      obtain ⟨rfl, rfl⟩ := Prod.mk.inj hs
      refine ⟨(h.removes hr).sublist List.eraseP_sublist, hr.closures, lost,
        Or.inr ⟨userData, info, rfl, rfl, by rw [hr.list], fun c hc heq => ?_⟩⟩
      obtain ⟨p, handle, hx⟩ := mem_closures.mp hc
      rw [cells_list] at hx
      obtain ⟨rfl, hh, -⟩ := h.captured p _ (hr.sub p _ hx) info hm (heq.trans hid.symm)
      exact hg userData rfl _ hx hh

/-- Whether `Unsubscribe` returns or throws, no entry joins the list. -/
theorem Linked.unsubscribe_list {i : Impl κ} (h : Linked i) {id : Address}
    {ret published : Bool} :
    Linked (i.unsubscribe id ret published).1 ∧
      ∀ e ∈ (i.unsubscribe id ret published).1.subscribedList, e ∈ i.subscribedList := by
  rcases hu : i.unsubscribe id ret published with ⟨j, r⟩
  obtain ⟨hl, -, -, hr⟩ := h.unsubscribe hu
  refine ⟨hl, fun e he => ?_⟩
  rcases hr with ⟨-, hlist⟩ | ⟨-, -, -, -, hlist, -⟩
  · exact hlist ▸ he
  · exact List.mem_of_mem_eraseP (hlist ▸ he)

/-- Only what the cells and the list are made of matters. -/
theorem Linked.of_cells {i i' : Impl κ} (h : Linked i) (running : Running i')
    (cell : ∀ p, i'.cells p = i.cells p) (list : i'.subscribedList = i.subscribedList)
    (modules : i'.modules = i.modules) : Linked i' := by
  refine ⟨running, list ▸ h.addresses, ?_, ?_, ?_⟩
  · intro p x hx e he
    exact h.captured p x (cell p ▸ hx) e (list ▸ he)
  · intro e he x hx
    exact h.handles e (list ▸ he) x (cell _ ▸ hx)
  · intro secure e he x hx
    rw [modules]
    exact h.known secure e (list ▸ he) x (cell _ ▸ hx)

theorem Linked.withReplyId {i : Impl κ} (h : Linked i) (n : UInt16) :
    Linked { i with replyId := n } := by
  refine h.of_cells ⟨h.mq, h.calm, h.modules⟩ (fun p => ?_) rfl rfl
  cases p <;> rfl

/-- A lambda that captured the id of an entry is that of its subscription. -/
theorem Linked.captured_cb {i : Impl κ} (h : Linked i) {e : SubscribeInfo κ} {c : Closure κ}
    (he : e ∈ i.subscribedList) (hc : c ∈ i.closures) (hi : c.info = e.address) :
    c.cb = e.cb := by
  obtain ⟨p, handle, hx⟩ := mem_closures.mp hc
  exact (h.captured p _ hx e he hi).2.2

def Impl.subscriptions (i : Impl κ) : List κ :=
  i.closures.map (·.cb) ++ i.subscribedList.map (·.cb)

def Impl.lost [DecidableEq κ] (i i' : Impl κ) : List κ :=
  i.subscriptions.filter (· ∉ i'.subscriptions)

/-- What `Unsubscribe` takes out is the callback of the entry with that id. -/
theorem Linked.mem_lost [DecidableEq κ] {i : Impl κ} (h : Linked i) {id : Address}
    {ret published : Bool} {x : κ} (hx : x ∈ i.lost (i.unsubscribe id ret published).1) :
    ∃ e ∈ i.subscribedList, e.address = id ∧ e.cb = x := by
  rcases hu : i.unsubscribe id ret published with ⟨j, r⟩
  obtain ⟨-, -, hlost, hr⟩ := h.unsubscribe hu
  rw [hu] at hx
  simp only [Impl.lost, Impl.subscriptions, List.mem_filter, decide_eq_true_eq,
    List.mem_append, List.mem_map, not_or] at hx
  obtain ⟨⟨c, hc, rfl⟩ | ⟨e, he, rfl⟩, hnc, hne⟩ := hx
  · rcases hlost c hc with hc' | ⟨e, he, ha, hi⟩
    · exact absurd ⟨c, hc', rfl⟩ hnc
    · exact ⟨e, he, ha, (h.captured_cb he hc hi).symm⟩
  · refine ⟨e, he, ?_, rfl⟩
    by_contra ha
    refine hne ⟨e, ?_, rfl⟩
    rcases hr with ⟨-, hlist⟩ | ⟨-, -, -, -, hlist, -⟩
    · rw [hlist]
      exact he
    · rw [hlist]
      exact (TcpModule.mem_eraseP_key h.addresses).mpr ⟨he, ha⟩

theorem Linked.new (ip : String) : Linked (Impl.new ip : Impl κ) := by
  have none : ∀ protocol, (Impl.new ip : Impl κ).cells protocol = [] := by
    intro protocol
    cases protocol <;> rfl
  refine ⟨⟨⟨List.nodup_nil, ?_⟩, ⟨rfl, rfl⟩, fun secure => ⟨⟨List.nodup_nil, ?_⟩, List.nodup_nil⟩⟩,
    List.nodup_nil, ?_, ?_, ?_⟩
  · intro d hd
    cases hd
  · intro p hp
    cases hp
  · intro p x hx
    rw [none] at hx
    cases hx
  · intro e he
    cases he
  · intro secure e he
    cases he

variable (topicMatchesSub : String → String → Option Bool)

/-- The dispatch of a message on the mosquitto thread, and the lambdas it calls. Each of
them copies the message, puts the id it captured into it and queues it with `AddIdle`. -/
def Impl.messageCB (i : Impl κ) (msg : Message) : Impl κ × List (Closure κ) :=
  ({ i with mq := (MosquittoDelivery.messageCB topicMatchesSub i.mq msg).1 },
    (MosquittoDelivery.messageCB topicMatchesSub i.mq msg).2.map (·.cb))

def Impl.receiveData (i : Impl κ) (secure : Bool) (server : Address) : List (Closure κ) :=
  (((i.modules secure).findServer server).elim [] (·.cbList)).map (·.cb)

variable {topicMatchesSub}

theorem messageCB_live {i : Impl κ} (h : Running i) (msg : Message) :
    (i.messageCB topicMatchesSub msg).1.mq.live = i.mq.live := by
  simp [Impl.messageCB, MosquittoDelivery.messageCB, Client.live, h.calm.1]

theorem messageCB_cells {i : Impl κ} (h : Running i) (msg : Message) (protocol : AittProtocol) :
    (i.messageCB topicMatchesSub msg).1.cells protocol = i.cells protocol := by
  cases protocol with
  | mqtt => exact congrArg (List.map _) (messageCB_live h msg)
  | _ => rfl

theorem messageCB_closures {i : Impl κ} (h : Running i) (msg : Message) :
    (i.messageCB topicMatchesSub msg).1.closures = i.closures := by
  simp only [Impl.closures, messageCB_cells h]

theorem Linked.messageCB {i : Impl κ} (h : Linked i) (msg : Message) :
    Linked (i.messageCB topicMatchesSub msg).1 := by
  have hr : Running (i.messageCB topicMatchesSub msg).1 :=
    ⟨h.mq.of_perm (.of_eq (messageCB_live h.toRunning msg)), ⟨rfl, rfl⟩, h.modules⟩
  exact h.of_cells hr (messageCB_cells h.toRunning msg) rfl rfl

/-- A lambda is called for a subscriber that the message serves. -/
theorem messageCB_serves {i : Impl κ} {msg : Message} {c : Closure κ}
    (hc : c ∈ (i.messageCB topicMatchesSub msg).2) :
    ∃ d ∈ i.mq.live, MosquittoMQ.serves topicMatchesSub msg d = true ∧ d.cb = c := by
  obtain ⟨d, hd, hdc⟩ := List.mem_map.mp hc
  obtain ⟨ht, hs⟩ := List.mem_filter.mp hd
  refine ⟨d, List.mem_append_left _ ?_, hs, hdc⟩
  unfold turns at ht
  split at ht
  · rcases List.mem_append.mp ht with ht | ht
    · exact List.mem_of_mem_take ht
    · exact ht
  · exact ht

theorem messageCB_calls (i : Impl κ) (msg : Message) :
    ∀ c ∈ (i.messageCB topicMatchesSub msg).2, c ∈ i.closures := by
  intro c hc
  obtain ⟨d, hd, -, rfl⟩ := messageCB_serves hc
  exact mem_closures.mpr ⟨.mqtt, d.handle, mem_cells_mqtt.mpr ⟨d, hd, rfl⟩⟩

theorem receiveData_calls (i : Impl κ) (secure : Bool) (server : Address) :
    ∀ c ∈ i.receiveData secure server, c ∈ i.closures := by
  intro c hc
  obtain ⟨x, hx, rfl⟩ := List.mem_map.mp hc
  cases hs : (i.modules secure).findServer server with
  | none =>
    rw [hs] at hx
    cases hx
  | some d =>
    rw [hs] at hx
    have hd := (TcpModule.mem_of_findServer hs).1
    exact mem_closures.mpr ⟨tcpProtocol secure, x.address,
      mem_cells_tcp.mpr ⟨x, TcpModule.Module.mem_cells.mpr ⟨d, hd, hx⟩, rfl⟩⟩

end AittImpl
