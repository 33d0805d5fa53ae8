import Aitt.Flexbuffers
import Mathlib.Data.List.Pairwise
import Mathlib.Data.List.Sort

/-! The subscribing side of the TCP module: one server for each topic with the list of its
callbacks, the handles given out for them, and the advertisement built from the table.
`subscribeTable` is ordered by the address of its `TCPServerData`. -/
namespace TcpModule

open AittTypes Flexbuffers

/-- A heap cell `Subscribe_CB_Info`; its address is the handle. -/
structure CbInfo (κ : Type) where
  address : Address
  cb : κ
  cbdata : Address
  deriving DecidableEq, Repr

structure Server where
  port : UInt16
  key : Bytes
  iv : Bytes
  deriving DecidableEq, Repr

structure ServerData (κ : Type) where
  address : Address
  topic : String
  cbList : List (CbInfo κ)
  server : Server
  deriving DecidableEq, Repr

structure Module (κ : Type) where
  secure : Bool
  ip : String
  subscribeTable : List (ServerData κ) := []
  subscribeHandles : List (CbInfo κ × Address) := []
  deriving DecidableEq, Repr

inductive Failure where
  | runtimeError (what : String)
  | aittException (code : ErrCode)
  deriving DecidableEq, Repr

variable {κ : Type}

abbrev Blob := List (String × Value)

def ServerData.connectInfo (d : ServerData κ) (secure : Bool) : Value :=
  .vector ([.uint d.server.port.toNat, .uint d.cbList.length] ++
    if secure then [.blob d.server.key, .blob d.server.iv] else [])

namespace Module

def discoveryBlob (m : Module κ) : Blob :=
  ("host", .item (.string m.ip)) ::
    m.subscribeTable.map fun d => (cStr d.topic, d.connectInfo m.secure)

def onServer (m : Module κ) (address : Address) (f : List (CbInfo κ) → List (CbInfo κ)) :
    Module κ :=
  { m with subscribeTable := m.subscribeTable.map fun d =>
      if d.address = address then { d with cbList := f d.cbList } else d }

def findTopic (m : Module κ) (topic : String) : Option (ServerData κ) :=
  m.subscribeTable.find? (·.topic = topic)

def findServer (m : Module κ) (address : Address) : Option (ServerData κ) :=
  m.subscribeTable.find? (·.address = address)

def insertServer (m : Module κ) (d : ServerData κ) : Module κ :=
  { m with subscribeTable :=
      m.subscribeTable.orderedInsert (fun a b => a.address ≤ b.address) d }

/-- The first half of `Subscribe`: the callback joins the server of its topic, or a new
server is opened, whose constructor may throw. -/
def addCallback (m : Module κ) (topic : String) (cell : CbInfo κ) (listenInfo : Address)
    (server : Except Failure Server) : Except Failure (Module κ × Address) :=
  match m.findTopic topic with
  | some d => .ok (m.onServer d.address (· ++ [cell]), d.address)
  | none =>
    match server with
    | .error err => .error err
    | .ok sv => .ok (m.insertServer ⟨listenInfo, topic, [cell], sv⟩, listenInfo)

def subscribe (m : Module κ) (topic : String) (cell : CbInfo κ) (listenInfo : Address)
    (server : Except Failure Server) (ret : Bool) :
    Module κ × Option Blob × Except Failure Address :=
  match m.addCallback topic cell listenInfo server with
  | .error err => (m, none, .error err)
  | .ok (m', owner) =>
    if ret then
      ({ m' with subscribeHandles := m'.subscribeHandles ++ [(cell, owner)] },
        some m'.discoveryBlob, .ok cell.address)
    else (m', some m'.discoveryBlob, .error (.aittException .mqttErr))

def findHandle (m : Module κ) (handle : Address) : Option (CbInfo κ × Address) :=
  m.subscribeHandles.find? (·.1.address = handle)

def eraseHandle (m : Module κ) (handle : Address) : Module κ :=
  { m with subscribeHandles := m.subscribeHandles.filter (·.1.address ≠ handle) }

def eraseServer (m : Module κ) (address : Address) : Module κ :=
  { m with subscribeTable := m.subscribeTable.filter (·.address ≠ address) }

/-- A callback that is not the last one of its topic goes without a word to the discovery
service; the last one takes the server with it. -/
def unsubscribe (m : Module κ) (handle : Address) (ret : Bool) :
    Module κ × Option Blob × Except Failure Address :=
  match m.findHandle handle with
  | none => (m, none, .ok 0)
  | some (cell, owner) =>
    match m.findServer owner with
    | none => (m.eraseHandle handle, none, .error (.runtimeError "Not subscribed topic: "))
    | some d =>
      if 1 < d.cbList.length then
        if d.cbList.any (·.address = handle) then
          ((m.eraseHandle handle).onServer owner (·.eraseP (·.address = handle)), none,
            .ok cell.cbdata)
        else (m.eraseHandle handle, none, .error (.runtimeError "Invalid Callback Info"))
      else
        let m' := (m.eraseHandle handle).eraseServer owner
        (m', some m'.discoveryBlob,
          if ret then .ok cell.cbdata else .error (.aittException .mqttErr))

end Module

structure Allocatable (m : Module κ) (cell : CbInfo κ) (listenInfo : Address) : Prop where
  nonnull : cell.address ≠ 0
  cells : ∀ d ∈ m.subscribeTable, ∀ c ∈ d.cbList, c.address ≠ cell.address
  servers : ∀ d ∈ m.subscribeTable, d.address ≠ listenInfo

instance (m : Module κ) (cell : CbInfo κ) (listenInfo : Address) :
    Decidable (Allocatable m cell listenInfo) :=
  decidable_of_iff
    (cell.address ≠ 0 ∧ (∀ d ∈ m.subscribeTable, ∀ c ∈ d.cbList, c.address ≠ cell.address) ∧
      ∀ d ∈ m.subscribeTable, d.address ≠ listenInfo)
    ⟨fun ⟨h, k, l⟩ => ⟨h, k, l⟩, fun ⟨h, k, l⟩ => ⟨h, k, l⟩⟩

structure WellFormed (m : Module κ) : Prop where
  servers : (m.subscribeTable.map (·.address)).Nodup
  handles : ∀ p ∈ m.subscribeHandles,
    ∃ d ∈ m.subscribeTable, d.address = p.2 ∧ p.1 ∈ d.cbList

inductive Subscribes (m : Module κ) (topic : String) (cell : CbInfo κ) (listenInfo : Address) :
    Module κ → Option Blob → Prop where
  | fails : Subscribes m topic cell listenInfo m none
  | joins {d handles} (hd : m.findTopic topic = some d)
      (hh : handles = m.subscribeHandles ∨
        handles = m.subscribeHandles ++ [(cell, d.address)]) :
      Subscribes m topic cell listenInfo
        { m.onServer d.address (· ++ [cell]) with subscribeHandles := handles }
        (some (m.onServer d.address (· ++ [cell])).discoveryBlob)
  | opens {sv handles} (hd : m.findTopic topic = none)
      (hh : handles = m.subscribeHandles ∨
        handles = m.subscribeHandles ++ [(cell, listenInfo)]) :
      Subscribes m topic cell listenInfo
        { m.insertServer ⟨listenInfo, topic, [cell], sv⟩ with subscribeHandles := handles }
        (some (m.insertServer ⟨listenInfo, topic, [cell], sv⟩).discoveryBlob)

theorem subscribe_cases (m : Module κ) (topic : String) (cell : CbInfo κ) (listenInfo : Address)
    (server : Except Failure Server) (ret : Bool) :
    Subscribes m topic cell listenInfo (m.subscribe topic cell listenInfo server ret).1
      (m.subscribe topic cell listenInfo server ret).2.1 := by
  simp only [Module.subscribe, Module.addCallback]
  cases hd : m.findTopic topic with
  | some d =>
    cases ret with
    | true => exact .joins hd (Or.inr rfl)
    | false => exact .joins hd (Or.inl rfl)
  | none =>
    cases server with
    | error err => exact .fails
    | ok sv =>
      cases ret with
      | true => exact .opens hd (Or.inr rfl)
      | false => exact .opens hd (Or.inl rfl)

inductive Unsubscribes (m : Module κ) (handle : Address) : Module κ → Option Blob → Prop where
  | unknown (hn : m.findHandle handle = none) : Unsubscribes m handle m none
  | raises {cell owner} (hh : m.findHandle handle = some (cell, owner))
      (hr : m.findServer owner = none ∨
        ∃ d, m.findServer owner = some d ∧ ∀ c ∈ d.cbList, c.address ≠ handle) :
      Unsubscribes m handle (m.eraseHandle handle) none
  | leaves {cell owner d} (hh : m.findHandle handle = some (cell, owner))
      (hd : m.findServer owner = some d) (hl : 1 < d.cbList.length) :
      Unsubscribes m handle
        ((m.eraseHandle handle).onServer owner (·.eraseP (·.address = handle))) none
  | closes {cell owner d} (hh : m.findHandle handle = some (cell, owner))
      (hd : m.findServer owner = some d) (hl : d.cbList.length ≤ 1) :
      Unsubscribes m handle ((m.eraseHandle handle).eraseServer owner)
        (some ((m.eraseHandle handle).eraseServer owner).discoveryBlob)

theorem unsubscribe_cases (m : Module κ) (handle : Address) (ret : Bool) :
    Unsubscribes m handle (m.unsubscribe handle ret).1 (m.unsubscribe handle ret).2.1 := by
  unfold Module.unsubscribe
  split
  · exact .unknown ‹_›
  · next cell owner hh =>
    split
    · exact .raises hh (Or.inl ‹_›)
    · next d hd =>
      split
      · next hl =>
        split
        · exact .leaves hh hd hl
        · next hn => exact .raises hh (Or.inr ⟨d, hd, by simpa using hn⟩)
      · exact .closes hh hd (by omega)

theorem mem_of_findTopic {m : Module κ} {topic : String} {d : ServerData κ}
    (h : m.findTopic topic = some d) : d ∈ m.subscribeTable ∧ d.topic = topic :=
  ⟨List.mem_of_find?_eq_some h, by simpa using List.find?_some h⟩

theorem mem_of_findServer {m : Module κ} {address : Address} {d : ServerData κ}
    (h : m.findServer address = some d) : d ∈ m.subscribeTable ∧ d.address = address :=
  ⟨List.mem_of_find?_eq_some h, by simpa using List.find?_some h⟩

theorem mem_of_findHandle {m : Module κ} {handle : Address} {p : CbInfo κ × Address}
    (h : m.findHandle handle = some p) : p ∈ m.subscribeHandles ∧ p.1.address = handle :=
  ⟨List.mem_of_find?_eq_some h, by simpa using List.find?_some h⟩

theorem mem_onServer {m : Module κ} {address : Address}
    {f : List (CbInfo κ) → List (CbInfo κ)} {d : ServerData κ} :
    d ∈ (m.onServer address f).subscribeTable ↔
      ∃ e ∈ m.subscribeTable,
        (if e.address = address then { e with cbList := f e.cbList } else e) = d :=
  List.mem_map

@[simp] theorem onServer_addresses (m : Module κ) (address : Address)
    (f : List (CbInfo κ) → List (CbInfo κ)) :
    (m.onServer address f).subscribeTable.map (·.address) =
      m.subscribeTable.map (·.address) := by
  simp only [Module.onServer, List.map_map]
  apply List.map_congr_left
  intro d _
  simp only [Function.comp]
  split <;> rfl

theorem insertServer_perm (m : Module κ) (d : ServerData κ) :
    (m.insertServer d).subscribeTable.Perm (d :: m.subscribeTable) :=
  List.perm_orderedInsert _ _ _

namespace WellFormed

variable {m : Module κ}

theorem eq_of_address (h : WellFormed m) {d e : ServerData κ} (hd : d ∈ m.subscribeTable)
    (he : e ∈ m.subscribeTable) (ha : d.address = e.address) : d = e :=
  List.inj_on_of_nodup_map h.servers hd he ha

/-- A handle in the table leads to a server that has its callback. -/
theorem owner (h : WellFormed m) {handle : Address} {cell : CbInfo κ} {owner : Address}
    (hh : m.findHandle handle = some (cell, owner)) :
    ∃ d, m.findServer owner = some d ∧ cell ∈ d.cbList := by
  obtain ⟨hm, -⟩ := mem_of_findHandle hh
  obtain ⟨d, hd, ha, hc⟩ := h.handles _ hm
  have hs : (m.findServer owner).isSome := by
    rw [Module.findServer, List.find?_isSome]
    exact ⟨d, hd, by simpa using ha⟩
  obtain ⟨e, he⟩ := Option.isSome_iff_exists.mp hs
  obtain ⟨hem, hea⟩ := mem_of_findServer he
  have heq : e = d := h.eq_of_address hem hd (hea.trans ha.symm)
  exact ⟨e, he, heq ▸ hc⟩

theorem handles_onServer (h : WellFormed m) {address : Address}
    {f : List (CbInfo κ) → List (CbInfo κ)} {p : CbInfo κ × Address}
    (hp : p ∈ m.subscribeHandles)
    (hf : ∀ d ∈ m.subscribeTable, d.address = address → p.1 ∈ d.cbList → p.1 ∈ f d.cbList) :
    ∃ d ∈ (m.onServer address f).subscribeTable, d.address = p.2 ∧ p.1 ∈ d.cbList := by
  obtain ⟨d, hd, ha, hc⟩ := h.handles p hp
  by_cases he : d.address = address
  · exact ⟨{ d with cbList := f d.cbList }, mem_onServer.mpr ⟨d, hd, if_pos he⟩, ha,
      hf d hd he hc⟩
  · exact ⟨d, mem_onServer.mpr ⟨d, hd, if_neg he⟩, ha, hc⟩

theorem subscribe (h : WellFormed m) {topic : String} {cell : CbInfo κ} {listenInfo : Address}
    (ha : Allocatable m cell listenInfo) {m' : Module κ} {blob : Option Blob}
    (hs : Subscribes m topic cell listenInfo m' blob) : WellFormed m' := by
  cases hs with
  | fails => exact h
  | @joins d handles hd hh =>
    have old : ∀ p ∈ m.subscribeHandles,
        ∃ e ∈ (m.onServer d.address (· ++ [cell])).subscribeTable,
          e.address = p.2 ∧ p.1 ∈ e.cbList :=
      fun p hp => h.handles_onServer hp fun e _ _ hc => List.mem_append_left _ hc
    have nodup : ((m.onServer d.address (· ++ [cell])).subscribeTable.map (·.address)).Nodup := by
      rw [onServer_addresses]
      exact h.servers
    refine ⟨nodup, ?_⟩
    rcases hh with rfl | rfl
    · exact old
    · intro p hp
      rcases List.mem_append.mp hp with hp | hp
      · exact old p hp
      · obtain rfl := List.mem_singleton.mp hp
        refine ⟨{ d with cbList := d.cbList ++ [cell] },
          (mem_onServer (f := (· ++ [cell]))).mpr ⟨d, (mem_of_findTopic hd).1, if_pos rfl⟩,
          rfl, ?_⟩
        exact List.mem_append_right _ (List.mem_singleton_self _)
  | @opens sv handles hd hh =>
    have hp := insertServer_perm m ⟨listenInfo, topic, [cell], sv⟩
    have old : ∀ p ∈ m.subscribeHandles,
        ∃ e ∈ (m.insertServer ⟨listenInfo, topic, [cell], sv⟩).subscribeTable,
          e.address = p.2 ∧ p.1 ∈ e.cbList := by
      intro p hm
      obtain ⟨e, he, hea, hec⟩ := h.handles p hm
      exact ⟨e, hp.symm.subset (List.mem_cons_of_mem _ he), hea, hec⟩
    constructor
    · refine (hp.map _).nodup_iff.mpr (List.nodup_cons.mpr ⟨?_, h.servers⟩)
      intro hm
      obtain ⟨e, he, hea⟩ := List.mem_map.mp hm
      exact ha.servers e he hea
    · rcases hh with rfl | rfl
      · exact old
      · intro p hm
        rcases List.mem_append.mp hm with hm | hm
        · exact old p hm
        · obtain rfl := List.mem_singleton.mp hm
          exact ⟨⟨listenInfo, topic, [cell], sv⟩, hp.symm.subset List.mem_cons_self, rfl,
            List.mem_singleton_self _⟩

theorem unsubscribe (h : WellFormed m) {handle : Address} {m' : Module κ} {blob : Option Blob}
    (hs : Unsubscribes m handle m' blob) : WellFormed m' := by
  have kept : ∀ p ∈ (m.eraseHandle handle).subscribeHandles,
      p ∈ m.subscribeHandles ∧ p.1.address ≠ handle := by
    intro p hp
    simpa [Module.eraseHandle] using hp
  cases hs with
  | unknown => exact h
  | raises => exact ⟨h.servers, fun p hp => h.handles p (kept p hp).1⟩
  | @leaves cell owner d hh hd hl =>
    constructor
    · rw [onServer_addresses]
      exact h.servers
    · intro p hp
      obtain ⟨hm, hne⟩ := kept p hp
      refine h.handles_onServer hm fun e _ _ hc => ?_
      exact (List.mem_eraseP_of_neg (by simpa using hne)).mpr hc
  | @closes cell owner d hh hd hl =>
    constructor
    · exact h.servers.sublist (List.filter_sublist.map _)
    · intro p hp
      obtain ⟨hm, hne⟩ := kept p hp
      obtain ⟨e, he, hea, hec⟩ := h.handles p hm
      refine ⟨e, ?_, hea, hec⟩
      have hdiff : e.address ≠ owner := by
        intro heq
        obtain ⟨hdm, hda⟩ := mem_of_findServer hd
        obtain rfl : e = d := h.eq_of_address he hdm (heq.trans hda.symm)
        obtain ⟨e', he', hcell⟩ := h.owner hh
        obtain rfl : e = e' := Option.some.inj (hd.symm.trans he')
        have hsame : p.1 = cell := by
          obtain ⟨x, hx⟩ := List.length_eq_one_iff.mp
            (le_antisymm hl (List.length_pos_of_mem hec))
          rw [hx, List.mem_singleton] at hec hcell
          exact hec.trans hcell.symm
        exact hne (hsame ▸ (mem_of_findHandle hh).2)
      simpa [Module.eraseServer, Module.eraseHandle] using ⟨he, hdiff⟩

end WellFormed

def Module.cells (m : Module κ) : List (CbInfo κ) := m.subscribeTable.flatMap (·.cbList)

theorem Module.mem_cells {m : Module κ} {c : CbInfo κ} :
    c ∈ m.cells ↔ ∃ d ∈ m.subscribeTable, c ∈ d.cbList :=
  List.mem_flatMap

structure Sound (m : Module κ) : Prop extends WellFormed m where
  cells : (m.cells.map (·.address)).Nodup

theorem flatMap_sublist {α β : Type*} {f g : α → List β} (l : List α)
    (h : ∀ x ∈ l, (f x).Sublist (g x)) : (l.flatMap f).Sublist (l.flatMap g) := by
  induction l with
  | nil => exact List.Sublist.refl _
  | cons x l ih =>
    rw [List.flatMap_cons, List.flatMap_cons]
    exact (h x List.mem_cons_self).append (ih fun y hy => h y (List.mem_cons_of_mem _ hy))

theorem sublist_flatMap {α β : Type*} {f : α → List β} {l l' : List α} (h : l.Sublist l') :
    (l.flatMap f).Sublist (l'.flatMap f) := by
  induction h with
  | slnil => exact List.Sublist.refl _
  | cons x _ ih =>
    rw [List.flatMap_cons]
    exact ih.trans (List.sublist_append_right _ _)
  | cons_cons x _ ih =>
    rw [List.flatMap_cons, List.flatMap_cons]
    exact (List.Sublist.refl _).append ih

theorem cells_onServer (m : Module κ) (address : Address)
    (f : List (CbInfo κ) → List (CbInfo κ)) :
    (m.onServer address f).cells =
      m.subscribeTable.flatMap fun d => if d.address = address then f d.cbList else d.cbList := by
  rw [Module.cells, Module.onServer, List.flatMap_map]
  congr 1
  funext d
  split <;> rfl

/-- A callback that joins one server joins the table once. -/
theorem cells_push {table : List (ServerData κ)} (hn : (table.map (·.address)).Nodup)
    {d : ServerData κ} (hd : d ∈ table) (cell : CbInfo κ) :
    (table.flatMap fun e => if e.address = d.address then e.cbList ++ [cell] else e.cbList).Perm
      (cell :: table.flatMap (·.cbList)) := by
  induction table with
  | nil => cases hd
  | cons e table ih =>
    rw [List.map_cons, List.nodup_cons] at hn
    rw [List.flatMap_cons, List.flatMap_cons]
    by_cases he : e.address = d.address
    · have hrest : (table.flatMap fun e =>
          if e.address = d.address then e.cbList ++ [cell] else e.cbList) =
          table.flatMap (·.cbList) := by
        apply List.flatMap_congr
        intro x hx
        rw [if_neg]
        intro hxd
        exact hn.1 (List.mem_map.mpr ⟨x, hx, hxd.trans he.symm⟩)
      rw [if_pos he, hrest, List.append_assoc]
      exact List.perm_middle
    · have hmem : d ∈ table := by
        rcases List.mem_cons.mp hd with rfl | h
        · exact absurd rfl he
        · exact h
      rw [if_neg he]
      exact ((ih hn.2 hmem).append_left _).trans List.perm_middle

section Sound

variable {m : Module κ}

theorem Sound.of_perm {m' : Module κ} {cell : CbInfo κ} {listenInfo : Address} (h : Sound m)
    (hw : WellFormed m') (ha : Allocatable m cell listenInfo)
    (hp : m'.cells.Perm (cell :: m.cells)) : Sound m' := by
  refine ⟨hw, (hp.map _).nodup_iff.mpr (List.nodup_cons.mpr ⟨?_, h.cells⟩)⟩
  intro hm
  obtain ⟨c, hc, hca⟩ := List.mem_map.mp hm
  obtain ⟨d, hd, hcd⟩ := Module.mem_cells.mp hc
  exact ha.cells d hd c hcd hca

/-- `Subscribe` throws and changes nothing, or adds the new callback, and its handle when
the publication succeeds. -/
theorem Sound.subscribe_spec (h : Sound m) {topic : String} {cell : CbInfo κ}
    {listenInfo : Address} (ha : Allocatable m cell listenInfo)
    (server : Except Failure Server) (ret : Bool) :
    (∃ err, m.subscribe topic cell listenInfo server ret = (m, none, .error err)) ∨
    ∃ m' blob owner, m.subscribe topic cell listenInfo server ret =
        (m', some blob, if ret then .ok cell.address else .error (.aittException .mqttErr)) ∧
      Sound m' ∧ (∀ c, c ∈ m'.cells ↔ c = cell ∨ c ∈ m.cells) ∧
      m'.subscribeHandles = m.subscribeHandles ++ if ret then [(cell, owner)] else [] := by
  have hw := h.toWellFormed.subscribe ha (subscribe_cases m topic cell listenInfo server ret)
  simp only [Module.subscribe, Module.addCallback] at hw ⊢
  cases hd : m.findTopic topic with
  | some d =>
    rw [hd] at hw
    have hp : (m.onServer d.address (· ++ [cell])).cells.Perm (cell :: m.cells) := by
      rw [cells_onServer]
      exact cells_push h.servers (mem_of_findTopic hd).1 cell
    refine Or.inr ?_
    cases ret with
    | true => exact ⟨_, _, d.address, rfl, h.of_perm hw ha hp, fun c => hp.mem_iff.trans
        List.mem_cons, rfl⟩
    | false => exact ⟨_, _, d.address, rfl, h.of_perm hw ha hp, fun c => hp.mem_iff.trans
        List.mem_cons, (List.append_nil _).symm⟩
  | none =>
    cases server with
    | error err => exact Or.inl ⟨err, rfl⟩
    | ok sv =>
      rw [hd] at hw
      have hp : (m.insertServer ⟨listenInfo, topic, [cell], sv⟩).cells.Perm (cell :: m.cells) :=
        (insertServer_perm m ⟨listenInfo, topic, [cell], sv⟩).flatMap_right _
      refine Or.inr ?_
      cases ret with
      | true => exact ⟨_, _, listenInfo, rfl, h.of_perm hw ha hp, fun c => hp.mem_iff.trans
          List.mem_cons, rfl⟩
      | false => exact ⟨_, _, listenInfo, rfl, h.of_perm hw ha hp, fun c => hp.mem_iff.trans
          List.mem_cons, (List.append_nil _).symm⟩

/-- The new callback is the last one on the server of its topic. -/
theorem findTopic_subscribe {m m' : Module κ} {topic : String} {cell : CbInfo κ}
    {listenInfo : Address} {server : Except Failure Server} {ret : Bool} {blob : Blob}
    {r : Except Failure Address}
    (h : m.subscribe topic cell listenInfo server ret = (m', some blob, r)) :
    ∃ d, m'.findTopic topic = some d ∧
      (d.cbList = [cell] ∨ ∃ e ∈ m.subscribeTable, d.cbList = e.cbList ++ [cell]) := by
  unfold Module.subscribe Module.addCallback at h
  cases hd : m.findTopic topic with
  | some e =>
    have hf : (m.onServer e.address (· ++ [cell])).findTopic topic =
        some { e with cbList := e.cbList ++ [cell] } := by
      have hcomp : ((fun d : ServerData κ => decide (d.topic = topic)) ∘ fun d =>
          if d.address = e.address then { d with cbList := d.cbList ++ [cell] } else d) =
          fun d => decide (d.topic = topic) := by
        funext d
        simp only [Function.comp]
        split <;> rfl
      rw [Module.findTopic, Module.onServer, List.find?_map, hcomp]
      rw [Module.findTopic] at hd
      rw [hd, Option.map_some, if_pos rfl]
    refine ⟨{ e with cbList := e.cbList ++ [cell] }, ?_,
      Or.inr ⟨e, (mem_of_findTopic hd).1, rfl⟩⟩
    rw [hd] at h
    cases ret <;> (obtain ⟨rfl, -⟩ := Prod.mk.inj h; exact hf)
  | none =>
    cases server with
    | error err =>
      rw [hd] at h
      cases h
    | ok sv =>
      have hp := insertServer_perm m ⟨listenInfo, topic, [cell], sv⟩
      have hs : ((m.insertServer ⟨listenInfo, topic, [cell], sv⟩).findTopic topic).isSome := by
        rw [Module.findTopic, List.find?_isSome]
        exact ⟨_, hp.symm.subset List.mem_cons_self, by simp⟩
      obtain ⟨d, hf⟩ := Option.isSome_iff_exists.mp hs
      obtain ⟨hm, ht⟩ := mem_of_findTopic hf
      have hnew : d = ⟨listenInfo, topic, [cell], sv⟩ := by
        rcases List.mem_cons.mp (hp.subset hm) with hm | hm
        · exact hm
        · exact absurd ht (by simpa using List.find?_eq_none.mp hd d hm)
      refine ⟨d, ?_, Or.inl (by rw [hnew])⟩
      rw [hd] at h
      cases ret <;> (obtain ⟨rfl, -⟩ := Prod.mk.inj h; exact hf)

theorem mem_eraseHandle {handle : Address} {p : CbInfo κ × Address} :
    p ∈ (m.eraseHandle handle).subscribeHandles ↔
      p ∈ m.subscribeHandles ∧ p.1.address ≠ handle := by
  simp [Module.eraseHandle]

/-- Where keys are different, erasing the first element with a key erases the only one. -/
theorem mem_eraseP_key {α : Type*} {f : α → Address} {l : List α} (hn : (l.map f).Nodup)
    {key : Address} {c : α} :
    c ∈ l.eraseP (f · = key) ↔ c ∈ l ∧ f c ≠ key := by
  induction l with
  | nil => simp
  | cons x l ih =>
    rw [List.map_cons, List.nodup_cons] at hn
    by_cases hx : f x = key
    · rw [List.eraseP_cons_of_pos (by simpa using hx), List.mem_cons]
      constructor
      · intro hc
        refine ⟨Or.inr hc, fun heq => hn.1 ?_⟩
        exact List.mem_map.mpr ⟨c, hc, heq.trans hx.symm⟩
      · rintro ⟨rfl | hc, hne⟩
        · exact absurd hx hne
        · exact hc
    · rw [List.eraseP_cons_of_neg (by simpa using hx), List.mem_cons, List.mem_cons, ih hn.2]
      constructor
      · rintro (rfl | ⟨hc, hne⟩)
        · exact ⟨Or.inl rfl, hx⟩
        · exact ⟨Or.inr hc, hne⟩
      · rintro ⟨rfl | hc, hne⟩
        · exact Or.inl rfl
        · exact Or.inr ⟨hc, hne⟩

/-- The callbacks of one server have different addresses. -/
theorem Sound.cbList_nodup (h : Sound m) {d : ServerData κ} (hd : d ∈ m.subscribeTable) :
    (d.cbList.map (·.address)).Nodup := by
  have hc := h.cells
  rw [Module.cells, List.map_flatMap, List.nodup_flatMap] at hc
  exact hc.1 d hd

/-- No callback is on the lists of two servers. -/
theorem Sound.server_unique (h : Sound m) {d e : ServerData κ} (hd : d ∈ m.subscribeTable)
    (he : e ∈ m.subscribeTable) {c c' : CbInfo κ} (hc : c ∈ d.cbList) (hc' : c' ∈ e.cbList)
    (ha : c.address = c'.address) : d = e := by
  have hn := h.cells
  rw [Module.cells, List.map_flatMap, List.nodup_flatMap] at hn
  by_contra hne
  have : Std.Symm (Function.onFun List.Disjoint
      fun e : ServerData κ => e.cbList.map (·.address)) := ⟨fun _ _ hxy x hx hy => hxy hy hx⟩
  have hdis := hn.2.forall hd he hne
  exact hdis (List.mem_map_of_mem hc) (ha ▸ List.mem_map_of_mem hc')

/-- `Unsubscribe` of a known handle takes out that callback and that handle, and nothing
else; it returns unless a publication fails. -/
theorem Sound.unsubscribe_spec (h : Sound m) {handle : Address} {cell : CbInfo κ}
    {owner : Address} (hh : m.findHandle handle = some (cell, owner)) (ret : Bool) :
    ∃ m' blob r, m.unsubscribe handle ret = (m', blob, r) ∧ (ret = true → r = .ok cell.cbdata) ∧
      Sound m' ∧ (∀ c, c ∈ m'.cells ↔ c ∈ m.cells ∧ c.address ≠ handle) ∧
      ∀ p, p ∈ m'.subscribeHandles ↔ p ∈ m.subscribeHandles ∧ p.1.address ≠ handle := by
  obtain ⟨d, hd, hcell⟩ := h.owner hh
  obtain ⟨hdm, hda⟩ := mem_of_findServer hd
  have haddr := (mem_of_findHandle hh).2
  have hw := h.toWellFormed.unsubscribe (unsubscribe_cases m handle ret)
  have hany : d.cbList.any (·.address = handle) = true :=
    List.any_eq_true.mpr ⟨cell, hcell, by simpa using haddr⟩
  have other : ∀ e ∈ m.subscribeTable, e.address ≠ owner → ∀ c ∈ e.cbList,
      c.address ≠ handle := by
    intro e he hne c hc heq
    have hed := h.server_unique he hdm hc hcell (heq.trans haddr.symm)
    exact hne (hed ▸ hda)
  simp only [Module.unsubscribe, hh, hd, hany, if_true] at hw ⊢
  by_cases hl : 1 < d.cbList.length
  · rw [if_pos hl] at hw ⊢
    refine ⟨_, _, _, rfl, fun _ => rfl, ⟨hw, ?_⟩, fun c => ?_, fun p => mem_eraseHandle⟩
    · rw [cells_onServer]
      refine h.cells.sublist (List.Sublist.map _ (flatMap_sublist _ fun e _ => ?_))
      split
      · exact List.eraseP_sublist
      · exact List.Sublist.refl _
    · rw [cells_onServer, List.mem_flatMap, Module.mem_cells]
      constructor
      · rintro ⟨e, he, hc⟩
        split at hc
        · obtain ⟨hc, hne⟩ := (mem_eraseP_key (h.cbList_nodup he)).mp hc
          exact ⟨⟨e, he, hc⟩, hne⟩
        · next hea => exact ⟨⟨e, he, hc⟩, other e he hea c hc⟩
      · rintro ⟨⟨e, he, hc⟩, hne⟩
        refine ⟨e, he, ?_⟩
        split
        · exact (mem_eraseP_key (h.cbList_nodup he)).mpr ⟨hc, hne⟩
        · exact hc
  · rw [if_neg hl] at hw ⊢
    have hone : d.cbList = [cell] := by
      obtain ⟨x, hx⟩ := List.length_eq_one_iff.mp
        (le_antisymm (not_lt.mp hl) (List.length_pos_of_mem hcell))
      rw [hx] at hcell ⊢
      rw [List.mem_singleton.mp hcell]
    refine ⟨_, _, _, rfl, fun hret => if_pos hret, ⟨hw, ?_⟩, fun c => ?_,
      fun p => mem_eraseHandle⟩
    · exact h.cells.sublist (List.Sublist.map _ (sublist_flatMap List.filter_sublist))
    · rw [Module.mem_cells, Module.mem_cells]
      simp only [Module.eraseServer, Module.eraseHandle, List.mem_filter, decide_eq_true_eq]
      constructor
      · rintro ⟨e, ⟨he, hea⟩, hc⟩
        exact ⟨⟨e, he, hc⟩, other e he hea c hc⟩
      · rintro ⟨⟨e, he, hc⟩, hne⟩
        refine ⟨e, ⟨he, fun hea => hne ?_⟩, hc⟩
        obtain rfl : e = d := h.toWellFormed.eq_of_address he hdm (hea.trans hda.symm)
        rw [hone, List.mem_singleton] at hc
        rw [hc, haddr]

end Sound

end TcpModule
