import Aitt.TcpModule
import Aitt.TransitionRuns
import Mathlib.Logic.Function.Basic

/-! The subscribing side of the TCP module with its connections: the fds in the client list
of each `TCPServerData` and the watches of the main loop that serve them. `Subscribe` gives
out the handle of a callback only after the discovery publication, so that a failed
publication leaves a callback behind that no handle names. -/
namespace TcpConnections

open AittTypes TransitionRuns TcpModule

variable {κ : Type}

/-- The user data of a watch: a `TCPServerData` for `AcceptConnection`, or a `TCPData`, known
by its parent, for `ReceiveData`. -/
inductive Watch where
  | server (listenInfo : Address)
  | client (parent : Address)
  deriving DecidableEq, Repr

abbrev WatchTable := List (ℕ × Watch)

def addWatch (table : WatchTable) (fd : ℕ) (watch : Watch) : WatchTable :=
  if fd ∈ table.map (·.1) then table else table ++ [(fd, watch)]

def removeWatch (table : WatchTable) (fd : ℕ) : WatchTable := table.filter (·.1 ≠ fd)

def findWatch (table : WatchTable) (fd : ℕ) : Option Watch :=
  (table.find? (·.1 = fd)).map (·.2)

/-- `clientList` and `serverHandle` are the client list and the listening fd of the
`TCPServerData` at an address. `returned` has the handles that were given out and not yet
released; the code does not read it. -/
structure State (κ : Type) where
  module : Module κ
  clientList : Address → List ℕ := fun _ => []
  serverHandle : Address → ℕ := fun _ => 0
  watchTable : WatchTable := []
  returned : List Address := []

inductive Event (κ : Type) where
  | subscribe (topic : String) (cell : CbInfo κ) (listenInfo : Address)
      (server : Except Failure (Server × ℕ)) (ret : Bool)
  | unsubscribe (handle : Address) (ret : Bool)
  | acceptConnection (handle : ℕ) (peer : Option ℕ)
  | clientDisconnect (handle : ℕ)

namespace State

/-- A new `TCPServerData` has no clients, and `AcceptConnection` watches its server. -/
def openServer (s : State κ) (listenInfo : Address) (fd : ℕ) : State κ :=
  { s with
    clientList := Function.update s.clientList listenInfo []
    serverHandle := Function.update s.serverHandle listenInfo fd
    watchTable := addWatch s.watchTable fd (.server listenInfo) }

def closeServer (s : State κ) (listenInfo : Address) : State κ :=
  { s with
    clientList := Function.update s.clientList listenInfo []
    watchTable := removeWatch ((s.clientList listenInfo).foldl removeWatch s.watchTable)
      (s.serverHandle listenInfo) }

def subscribe (s : State κ) (topic : String) (cell : CbInfo κ) (listenInfo : Address)
    (server : Except Failure (Server × ℕ)) (ret : Bool) : State κ :=
  let out := s.module.subscribe topic cell listenInfo (server.map (·.1)) ret
  let s' := match s.module.findTopic topic, server with
    | none, .ok (_, fd) => s.openServer listenInfo fd
    | _, _ => s
  { s' with
    module := out.1
    returned := s.returned ++ out.2.2.toOption.toList }

def unsubscribe (s : State κ) (handle : Address) (ret : Bool) : State κ :=
  let s' := match (s.module.findHandle handle).bind fun p => s.module.findServer p.2 with
    | some d => if 1 < d.cbList.length then s else s.closeServer d.address
    | none => s
  { s' with
    module := (s.module.unsubscribe handle ret).1
    returned := s.returned.filter (· ≠ handle) }

/-- The main loop has found the server's fd readable; `peer` is the fd that `AcceptPeer`
gets, if it gets one. -/
def acceptConnection (s : State κ) (handle : ℕ) (listenInfo : Address) (peer : Option ℕ) :
    State κ :=
  match s.module.findServer listenInfo, peer with
  | none, _ => { s with watchTable := removeWatch s.watchTable handle }
  | some _, none => s
  | some _, some fd =>
    { s with
      clientList := Function.update s.clientList listenInfo (s.clientList listenInfo ++ [fd])
      watchTable := addWatch s.watchTable fd (.client listenInfo) }

def handleClientDisconnect (s : State κ) (handle : ℕ) (parent : Address) : State κ :=
  { s with
    clientList := Function.update s.clientList parent ((s.clientList parent).erase handle)
    watchTable := removeWatch s.watchTable handle }

/-- The system hands out fds that are not open; a watched fd is open. -/
def Fresh (s : State κ) (fd : ℕ) : Prop := fd ∉ s.watchTable.map (·.1)

instance (s : State κ) (fd : ℕ) : Decidable (s.Fresh fd) :=
  inferInstanceAs (Decidable (fd ∉ s.watchTable.map (·.1)))

end State

def step (s : State κ) : Event κ → Option (State κ)
  | .subscribe topic cell listenInfo server ret =>
    if Allocatable s.module cell listenInfo ∧ ∀ p ∈ server.toOption, s.Fresh p.2 then
      some (s.subscribe topic cell listenInfo server ret)
    else none
  | .unsubscribe handle ret => some (s.unsubscribe handle ret)
  | .acceptConnection handle peer =>
    match findWatch s.watchTable handle with
    | some (.server listenInfo) =>
      if ∀ fd ∈ peer, s.Fresh fd then some (s.acceptConnection handle listenInfo peer)
      else none
    | _ => none
  | .clientDisconnect handle =>
    match findWatch s.watchTable handle with
    | some (.client parent) => some (s.handleClientDisconnect handle parent)
    | _ => none

def machine (secure : Bool) (ip : String) : Machine (State κ) (Event κ) :=
  ⟨{ module := ⟨secure, ip, [], []⟩ }, step⟩

def Listens (m : Module κ) (owner : Address) (topic : String) (cell : CbInfo κ) : Prop :=
  ∃ d ∈ m.subscribeTable, d.address = owner ∧ d.topic = topic ∧ cell ∈ d.cbList

structure Consistent (s : State κ) : Prop where
  keys : (s.module.subscribeHandles.map (·.1.address)).Nodup
  handles : ∀ cell owner, (cell, owner) ∈ s.module.subscribeHandles ↔
    ∃ topic, Listens s.module owner topic cell
  topics : (s.module.subscribeTable.map (·.topic)).Nodup
  nonempty : ∀ d ∈ s.module.subscribeTable, d.cbList ≠ []
  clients : ∀ d ∈ s.module.subscribeTable, (s.clientList d.address).Nodup ∧
    ∀ fd, fd ∈ s.clientList d.address ↔ (fd, .client d.address) ∈ s.watchTable

structure Removes (handle : Address) (s t : State κ) : Prop where
  present : ∃ owner topic cell, cell.address = handle ∧ Listens s.module owner topic cell
  callbacks : ∀ owner topic cell, Listens t.module owner topic cell ↔
    Listens s.module owner topic cell ∧ cell.address ≠ handle
  handles : ∀ p, p ∈ t.module.subscribeHandles ↔
    p ∈ s.module.subscribeHandles ∧ p.1.address ≠ handle

/-- A `Subscribe` that has added its callback also succeeds in publishing it. -/
def Ok (s : State κ) : Event κ → Prop
  | .subscribe topic _ _ server ret =>
    ret = true ∨ (s.module.findTopic topic = none ∧ server.toOption = none)
  | _ => True

instance (s : State κ) (e : Event κ) : Decidable (Ok s e) := by
  cases e <;> simp only [Ok] <;> infer_instance

structure Tables (m : Module κ) : Prop extends Sound m where
  keys : (m.subscribeHandles.map (·.1.address)).Nodup
  complete : ∀ owner topic cell, Listens m owner topic cell → (cell, owner) ∈ m.subscribeHandles
  topics : (m.subscribeTable.map (·.topic)).Nodup
  nonempty : ∀ d ∈ m.subscribeTable, d.cbList ≠ []

section Tables

variable {m m' : Module κ} {topic : String} {cell : CbInfo κ} {listenInfo owner : Address}
  {server : Except Failure Server} {handle : Address}

theorem Listens.mem_cells {o : Address} {t : String} {c : CbInfo κ} (h : Listens m o t c) :
    c ∈ m.cells := by
  obtain ⟨d, hd, -, -, hc⟩ := h
  exact Module.mem_cells.mpr ⟨d, hd, hc⟩

@[simp] theorem onServer_topics (m : Module κ) (address : Address)
    (f : List (CbInfo κ) → List (CbInfo κ)) :
    (m.onServer address f).subscribeTable.map (·.topic) = m.subscribeTable.map (·.topic) := by
  simp only [Module.onServer, List.map_map]
  apply List.map_congr_left
  intro d _
  simp only [Function.comp]
  split <;> rfl

/-- The new callback joins the server of its topic, or opens one. -/
theorem addCallback_cases (h : m.addCallback topic cell listenInfo server = .ok (m', owner)) :
    (∃ d, m.findTopic topic = some d ∧ owner = d.address ∧
      m' = m.onServer d.address (· ++ [cell])) ∨
    ∃ sv, m.findTopic topic = none ∧ server = .ok sv ∧ owner = listenInfo ∧
      m' = m.insertServer ⟨listenInfo, topic, [cell], sv⟩ := by
  unfold Module.addCallback at h
  split at h
  · next d hd =>
    obtain ⟨rfl, rfl⟩ := Prod.mk.inj (Except.ok.inj h)
    exact Or.inl ⟨d, hd, rfl, rfl⟩
  · next hd =>
    split at h
    · cases h
    · next sv =>
      obtain ⟨rfl, rfl⟩ := Prod.mk.inj (Except.ok.inj h)
      exact Or.inr ⟨sv, hd, rfl, rfl, rfl⟩

/-- The new callback listens on the server of its topic, and nothing else changes. -/
theorem listens_addCallback (hw : WellFormed m)
    (h : m.addCallback topic cell listenInfo server = .ok (m', owner)) (o : Address)
    (t : String) (c : CbInfo κ) :
    Listens m' o t c ↔ Listens m o t c ∨ (o = owner ∧ t = topic ∧ c = cell) := by
  rcases addCallback_cases h with ⟨d, hd, rfl, rfl⟩ | ⟨sv, -, -, ho, rfl⟩
  · obtain ⟨hdm, hdt⟩ := mem_of_findTopic hd
    constructor
    · rintro ⟨x, hx, rfl, rfl, hc⟩
      obtain ⟨e, he, rfl⟩ := mem_onServer.mp hx
      split at hc
      · next hea =>
        obtain rfl := hw.eq_of_address he hdm hea
        rcases List.mem_append.mp hc with hc | hc
        · exact Or.inl ⟨e, he, by simp, by simp, hc⟩
        · exact Or.inr ⟨by simp, by simpa using hdt, List.mem_singleton.mp hc⟩
      · next hea => exact Or.inl ⟨e, he, by simp [hea], by simp [hea], hc⟩
    · rintro (⟨e, he, rfl, rfl, hc⟩ | ⟨rfl, rfl, rfl⟩)
      · refine ⟨_, mem_onServer.mpr ⟨e, he, rfl⟩, ?_⟩
        split
        · exact ⟨rfl, rfl, List.mem_append_left _ hc⟩
        · exact ⟨rfl, rfl, hc⟩
      · refine ⟨_, mem_onServer.mpr ⟨d, hdm, if_pos rfl⟩, rfl, hdt, ?_⟩
        exact List.mem_append_right _ (List.mem_singleton_self _)
  · have hp := insertServer_perm m ⟨listenInfo, topic, [cell], sv⟩
    simp only [Listens, hp.mem_iff, List.mem_cons, or_and_right, exists_or, exists_eq_left]
    rw [or_comm, ho]
    simp only [List.not_mem_nil, or_false, eq_comm]

theorem topics_addCallback (ht : (m.subscribeTable.map (·.topic)).Nodup)
    (h : m.addCallback topic cell listenInfo server = .ok (m', owner)) :
    (m'.subscribeTable.map (·.topic)).Nodup := by
  rcases addCallback_cases h with ⟨d, -, -, rfl⟩ | ⟨sv, hd, -, -, rfl⟩
  · rw [onServer_topics]
    exact ht
  · have hp := insertServer_perm m ⟨listenInfo, topic, [cell], sv⟩
    refine (hp.map _).nodup_iff.mpr (List.nodup_cons.mpr ⟨fun hm => ?_, ht⟩)
    obtain ⟨d, hdm, hdt⟩ := List.mem_map.mp hm
    exact absurd hdt (by simpa using List.find?_eq_none.mp hd d hdm)

theorem nonempty_addCallback (hn : ∀ d ∈ m.subscribeTable, d.cbList ≠ [])
    (h : m.addCallback topic cell listenInfo server = .ok (m', owner)) :
    ∀ d ∈ m'.subscribeTable, d.cbList ≠ [] := by
  intro x hx
  rcases addCallback_cases h with ⟨d, -, -, rfl⟩ | ⟨sv, -, -, -, rfl⟩
  · obtain ⟨e, he, rfl⟩ := mem_onServer.mp hx
    split
    · exact List.append_ne_nil_of_right_ne_nil _ (List.cons_ne_nil _ _)
    · exact hn e he
  · rcases List.mem_cons.mp ((insertServer_perm m _).subset hx) with rfl | hx
    · exact List.cons_ne_nil _ _
    · exact hn x hx

/-- The handles name callbacks of the table, and a new callback is not among them. -/
theorem fresh_handle (h : WellFormed m) (ha : Allocatable m cell listenInfo) :
    cell.address ∉ m.subscribeHandles.map (·.1.address) := by
  intro hm
  obtain ⟨p, hp, hpa⟩ := List.mem_map.mp hm
  obtain ⟨d, hd, -, hc⟩ := h.handles p hp
  exact ha.cells d hd p.1 hc hpa

theorem addCallback_handles
    (h : m.addCallback topic cell listenInfo server = .ok (m', owner)) :
    m'.subscribeHandles = m.subscribeHandles := by
  rcases addCallback_cases h with ⟨d, -, -, rfl⟩ | ⟨sv, -, -, -, rfl⟩
  · rfl
  · rfl

/-- `Subscribe` fails before it has changed anything, or gives its callback a handle when the
publication succeeds. -/
theorem subscribe_eq (m : Module κ) (topic : String) (cell : CbInfo κ) (listenInfo : Address)
    (server : Except Failure Server) (ret : Bool) :
    ((m.subscribe topic cell listenInfo server ret).1 = m ∧
      (m.subscribe topic cell listenInfo server ret).2.2.toOption = none ∧
      m.findTopic topic = none ∧ server.toOption = none) ∨
    ∃ m' owner, m.addCallback topic cell listenInfo server = .ok (m', owner) ∧
      (m.subscribe topic cell listenInfo server ret).2.2.toOption =
        (if ret then some cell.address else none) ∧
      (m.subscribe topic cell listenInfo server ret).1 =
        { m' with
          subscribeHandles := m'.subscribeHandles ++ if ret then [(cell, owner)] else [] } := by
  cases ha : m.addCallback topic cell listenInfo server with
  | error err =>
    refine Or.inl ⟨by simp only [Module.subscribe, ha],
      by simp only [Module.subscribe, ha, Except.toOption], ?_⟩
    unfold Module.addCallback at ha
    split at ha
    · cases ha
    · next hd =>
      split at ha
      · exact ⟨hd, rfl⟩
      · cases ha
  | ok p =>
    refine Or.inr ⟨p.1, p.2, rfl, ?_⟩
    simp only [Module.subscribe, ha]
    cases ret <;> simp [Except.toOption]

theorem Tables.subscribe (h : Tables m) (ha : Allocatable m cell listenInfo)
    (server : Except Failure Server) :
    Tables (m.subscribe topic cell listenInfo server true).1 := by
  have hs : Sound (m.subscribe topic cell listenInfo server true).1 := by
    rcases h.toSound.subscribe_spec ha server true with ⟨err, he⟩ | ⟨m', blob, owner, he, hs, -⟩
    · rw [he]
      exact h.toSound
    · rw [he]
      exact hs
  rcases subscribe_eq m topic cell listenInfo server true with ⟨he, -⟩ | ⟨m', owner, hadd, -, he⟩
  · rw [he]
    exact h
  · rw [he] at hs ⊢
    have htopics := topics_addCallback h.topics hadd
    have hne := nonempty_addCallback h.nonempty hadd
    refine ⟨hs, ?_, fun o t c hl => ?_, htopics, hne⟩
    · simp only [addCallback_handles hadd, List.map_append, if_true, List.map_cons, List.map_nil]
      refine List.nodup_append.mpr ⟨h.keys, List.nodup_singleton _, fun a hm b hb => ?_⟩
      obtain rfl := List.mem_singleton.mp hb
      rintro rfl
      exact fresh_handle h.toWellFormed ha hm
    · simp only [addCallback_handles hadd, if_true]
      rcases (listens_addCallback h.toWellFormed hadd o t c).mp hl with hl | ⟨rfl, -, rfl⟩
      · exact List.mem_append_left _ (h.complete o t c hl)
      · exact List.mem_append_right _ (List.mem_singleton_self _)

/-- In sound tables a known handle leads to the server that has its callback: the callback
leaves the others of its topic, or takes the server with it. -/
theorem Tables.unsubscribe_cases (h : Tables m) {owner : Address} {cell : CbInfo κ}
    (hh : m.findHandle handle = some (cell, owner)) (ret : Bool) :
    ∃ d, m.findServer owner = some d ∧ cell ∈ d.cbList ∧
      (m.unsubscribe handle ret).1 =
        if 1 < d.cbList.length then
          (m.eraseHandle handle).onServer owner (·.eraseP (·.address = handle))
        else (m.eraseHandle handle).eraseServer owner := by
  obtain ⟨d, hd, hc⟩ := h.toWellFormed.owner hh
  have hany : d.cbList.any (·.address = handle) = true :=
    List.any_eq_true.mpr ⟨cell, hc, by simpa using (mem_of_findHandle hh).2⟩
  refine ⟨d, hd, hc, ?_⟩
  simp only [Module.unsubscribe, hh, hd, hany, if_true]
  split <;> rfl

/-- `Unsubscribe` makes no server data and adds no callback to one. -/
theorem Tables.unsubscribe_shrinks (h : Tables m) (ret : Bool) {d : ServerData κ}
    (hd : d ∈ (m.unsubscribe handle ret).1.subscribeTable) :
    ∃ e ∈ m.subscribeTable, e.address = d.address ∧ e.topic = d.topic ∧
      d.cbList ⊆ e.cbList := by
  cases hh : m.findHandle handle with
  | none =>
    simp only [Module.unsubscribe, hh] at hd
    exact ⟨d, hd, rfl, rfl, fun _ hc => hc⟩
  | some p =>
    obtain ⟨cell, owner⟩ := p
    obtain ⟨e, -, -, he⟩ := h.unsubscribe_cases hh ret
    rw [he] at hd
    split at hd
    · obtain ⟨x, hx, rfl⟩ := mem_onServer.mp hd
      refine ⟨x, hx, ?_⟩
      split
      · exact ⟨rfl, rfl, List.eraseP_subset⟩
      · exact ⟨rfl, rfl, fun _ hc => hc⟩
    · exact ⟨d, (List.mem_filter.mp hd).1, rfl, rfl, fun _ hc => hc⟩

theorem Tables.listens_unsubscribe (h : Tables m) {p : CbInfo κ × Address}
    (hh : m.findHandle handle = some p) (ret : Bool) (o : Address) (t : String)
    (c : CbInfo κ) : Listens (m.unsubscribe handle ret).1 o t c ↔
      Listens m o t c ∧ c.address ≠ handle := by
  obtain ⟨m', blob, r, he, -, -, hcells, -⟩ := h.toSound.unsubscribe_spec hh ret
  have hshrink : ∀ d ∈ (m.unsubscribe handle ret).1.subscribeTable, ∃ e ∈ m.subscribeTable,
      e.address = d.address ∧ e.topic = d.topic ∧ d.cbList ⊆ e.cbList :=
    fun _ hd => h.unsubscribe_shrinks ret hd
  rw [he] at hshrink ⊢
  constructor
  · rintro ⟨d, hd, rfl, rfl, hc⟩
    obtain ⟨e, hem, hea, het, hsub⟩ := hshrink d hd
    have hcm := (hcells c).mp (Module.mem_cells.mpr ⟨d, hd, hc⟩)
    exact ⟨⟨e, hem, hea, het, hsub hc⟩, hcm.2⟩
  · rintro ⟨hl, hne⟩
    obtain ⟨d, hd, hc⟩ := Module.mem_cells.mp ((hcells c).mpr ⟨hl.mem_cells, hne⟩)
    obtain ⟨e, hem, hea, het, hsub⟩ := hshrink d hd
    obtain ⟨x, hx, rfl, rfl, hcx⟩ := hl
    obtain rfl := h.toSound.server_unique hem hx (hsub hc) hcx rfl
    exact ⟨d, hd, hea.symm, het.symm, hc⟩

theorem Tables.unsubscribe (h : Tables m) (ret : Bool) :
    Tables (m.unsubscribe handle ret).1 := by
  cases hh : m.findHandle handle with
  | none =>
    simp only [Module.unsubscribe, hh]
    exact h
  | some p =>
    obtain ⟨cell, owner⟩ := p
    have hlistens := h.listens_unsubscribe hh ret
    obtain ⟨m', blob, r, he, -, hs, -, hhandles⟩ := h.toSound.unsubscribe_spec hh ret
    obtain ⟨d, hd, hc, heq⟩ := h.unsubscribe_cases hh ret
    have hmem := (mem_of_findHandle hh).2
    rw [he] at hlistens heq ⊢
    dsimp only at heq
    refine ⟨hs, ?_, fun o t c hl => ?_, ?_, fun x hx => ?_⟩
    · have hsub : m'.subscribeHandles.Sublist m.subscribeHandles := by
        rw [heq]
        split
        · exact List.filter_sublist
        · exact List.filter_sublist
      exact h.keys.sublist (hsub.map _)
    · obtain ⟨hl, hne⟩ := (hlistens o t c).mp hl
      exact (hhandles _).mpr ⟨h.complete o t c hl, hne⟩
    · rw [heq]
      split
      · rw [onServer_topics]
        exact h.topics
      · exact h.topics.sublist (List.filter_sublist.map _)
    · rw [heq] at hx
      split at hx
      · next hlen =>
        obtain ⟨e, hem, rfl⟩ := mem_onServer.mp hx
        split
        · next hea =>
          obtain ⟨hdm, hda⟩ := mem_of_findServer hd
          obtain rfl := h.toWellFormed.eq_of_address hem hdm (hea.trans hda.symm)
          have hpos : 0 < (e.cbList.eraseP (·.address = handle)).length := by
            rw [List.length_eraseP_of_mem hc (by simpa using hmem)]
            omega
          exact List.ne_nil_of_length_pos hpos
        · exact h.nonempty e hem
      · exact h.nonempty x (List.mem_filter.mp hx).1

end Tables

def serverAddresses (m : Module κ) : Set Address := { a | ∃ d ∈ m.subscribeTable, d.address = a }

structure Connections (live : Set Address) (s : State κ) : Prop where
  fds : (s.watchTable.map (·.1)).Nodup
  nodup : ∀ a, (s.clientList a).Nodup
  clients : ∀ a fd, fd ∈ s.clientList a ↔ (fd, .client a) ∈ s.watchTable
  parents : ∀ a, s.clientList a ≠ [] → a ∈ live
  servers : ∀ a ∈ live, (s.serverHandle a, .server a) ∈ s.watchTable

section Connections

variable {s : State κ} {table : WatchTable} {live : Set Address} {a : Address} {fd : ℕ}

theorem mem_removeWatch {p : ℕ × Watch} : p ∈ removeWatch table fd ↔ p ∈ table ∧ p.1 ≠ fd := by
  simp [removeWatch]

theorem removeWatch_sublist : (removeWatch table fd).Sublist table := List.filter_sublist

theorem mem_foldl_removeWatch {fds : List ℕ} {p : ℕ × Watch} :
    p ∈ fds.foldl removeWatch table ↔ p ∈ table ∧ p.1 ∉ fds := by
  induction fds generalizing table with
  | nil => simp
  | cons fd fds ih =>
    rw [List.foldl_cons, ih, mem_removeWatch, List.mem_cons, not_or, and_assoc]

theorem foldl_removeWatch_sublist (fds : List ℕ) :
    (fds.foldl removeWatch table).Sublist table := by
  induction fds generalizing table with
  | nil => exact List.Sublist.refl _
  | cons fd fds ih => exact ih.trans removeWatch_sublist

theorem addWatch_fresh (watch : Watch) (h : fd ∉ table.map (·.1)) :
    addWatch table fd watch = table ++ [(fd, watch)] := if_neg h

theorem nodup_addWatch {watch : Watch} (hn : (table.map (·.1)).Nodup)
    (h : fd ∉ table.map (·.1)) : ((addWatch table fd watch).map (·.1)).Nodup := by
  rw [addWatch_fresh watch h, List.map_append]
  refine List.nodup_append.mpr ⟨hn, List.nodup_singleton _, fun x hx y hy => ?_⟩
  obtain rfl := List.mem_singleton.mp hy
  rintro rfl
  exact h hx

theorem mem_of_findWatch {watch : Watch} (h : findWatch table fd = some watch) :
    (fd, watch) ∈ table := by
  obtain ⟨p, hp, rfl⟩ := Option.map_eq_some_iff.mp h
  have hfd : p.1 = fd := by simpa using List.find?_some hp
  exact hfd ▸ List.mem_of_find?_eq_some hp

/-- An fd has one watch. -/
theorem Connections.watch_unique (h : Connections live s) {v w : Watch}
    (hv : (fd, v) ∈ s.watchTable) (hw : (fd, w) ∈ s.watchTable) : v = w :=
  (Prod.mk.inj (List.inj_on_of_nodup_map h.fds hv hw rfl)).2

theorem Connections.openServer (h : Connections live s) (ha : a ∉ live) (hf : s.Fresh fd) :
    Connections (insert a live) (s.openServer a fd) := by
  have hempty : s.clientList a = [] := by
    by_contra hne
    exact ha (h.parents a hne)
  have hlist : Function.update s.clientList a [] = s.clientList := by
    rw [← hempty, Function.update_eq_self]
  have htable := addWatch_fresh (.server a) hf
  refine ⟨nodup_addWatch h.fds hf, fun b => ?_, fun b x => ?_, fun b hb => ?_, fun b hb => ?_⟩
  · simp only [State.openServer, hlist]
    exact h.nodup b
  · simp only [State.openServer, hlist, htable, List.mem_append, List.mem_singleton,
      Prod.mk.injEq, reduceCtorEq, and_false, or_false]
    exact h.clients b x
  · simp only [State.openServer, hlist] at hb
    exact Or.inr (h.parents b hb)
  · simp only [State.openServer, htable, List.mem_append, List.mem_singleton]
    by_cases hba : b = a
    · subst hba
      exact Or.inr (by rw [Function.update_self])
    · rw [Function.update_of_ne hba]
      rcases hb with hb | hb
      · exact absurd hb hba
      · exact Or.inl (h.servers b hb)

/-- The watches that go with a server are its own and those of its connections. -/
theorem Connections.closeServer (h : Connections live s) (ha : a ∈ live) :
    Connections (live \ {a}) (s.closeServer a) := by
  have htable : ∀ p, p ∈ (s.closeServer a).watchTable ↔
      (p ∈ s.watchTable ∧ p.1 ∉ s.clientList a) ∧ p.1 ≠ s.serverHandle a := by
    intro p
    rw [State.closeServer, mem_removeWatch, mem_foldl_removeWatch]
  refine ⟨?_, fun b => ?_, fun b x => ?_, fun b hb => ?_, fun b hb => ?_⟩
  · exact h.fds.sublist ((removeWatch_sublist.trans (foldl_removeWatch_sublist _)).map _)
  · by_cases hba : b = a
    · subst hba
      simp [State.closeServer]
    · simp only [State.closeServer, Function.update_of_ne hba]
      exact h.nodup b
  · rw [htable]
    by_cases hba : b = a
    · subst hba
      simp only [State.closeServer, Function.update_self, List.not_mem_nil, false_iff]
      rintro ⟨⟨hm, hne⟩, -⟩
      exact hne ((h.clients b x).mpr hm)
    · simp only [State.closeServer, Function.update_of_ne hba, h.clients b x]
      constructor
      · intro hm
        refine ⟨⟨hm, fun hx => hba ?_⟩, ?_⟩
        · cases h.watch_unique hm ((h.clients a x).mp hx)
          rfl
        · rintro rfl
          cases h.watch_unique hm (h.servers a ha)
      · exact fun hm => hm.1.1
  · by_cases hba : b = a
    · subst hba
      simp [State.closeServer] at hb
    · simp only [State.closeServer, Function.update_of_ne hba] at hb
      exact ⟨h.parents b hb, hba⟩
  · obtain ⟨hb, hba⟩ := hb
    have hm := h.servers b hb
    rw [htable]
    refine ⟨⟨hm, fun hx => ?_⟩, fun heq => hba ?_⟩
    · cases h.watch_unique hm ((h.clients a _).mp hx)
    · have heq' : s.serverHandle b = s.serverHandle a := heq
      rw [heq'] at hm
      cases h.watch_unique hm (h.servers a ha)
      rfl

/-- A connection joins the list of its parent with its watch. -/
theorem Connections.accept (h : Connections live s) (ha : a ∈ live) (hf : s.Fresh fd) :
    Connections live { s with
      clientList := Function.update s.clientList a (s.clientList a ++ [fd])
      watchTable := addWatch s.watchTable fd (.client a) } := by
  have htable := addWatch_fresh (.client a) hf
  have hnew : ∀ b, fd ∉ s.clientList b := by
    intro b hb
    exact hf (List.mem_map.mpr ⟨_, (h.clients b fd).mp hb, rfl⟩)
  refine ⟨nodup_addWatch h.fds hf, fun b => ?_, fun b x => ?_, fun b hb => ?_, fun b hb => ?_⟩
  · by_cases hba : b = a
    · subst hba
      simp only [Function.update_self]
      refine List.nodup_append.mpr ⟨h.nodup b, List.nodup_singleton _, fun x hx y hy => ?_⟩
      obtain rfl := List.mem_singleton.mp hy
      rintro rfl
      exact hnew b hx
    · simp only [Function.update_of_ne hba]
      exact h.nodup b
  · simp only [htable, List.mem_append, List.mem_singleton, Prod.mk.injEq, Watch.client.injEq]
    by_cases hba : b = a
    · subst hba
      simp only [Function.update_self, List.mem_append, List.mem_singleton, and_true,
        h.clients b x]
    · simp only [Function.update_of_ne hba, hba, and_false, or_false, h.clients b x]
  · by_cases hba : b = a
    · subst hba
      exact ha
    · simp only [Function.update_of_ne hba] at hb
      exact h.parents b hb
  · simp only [htable]
    exact List.mem_append_left _ (h.servers b hb)

/-- A watch of no live server data may go. -/
theorem Connections.removeWatch_stale (h : Connections live s) (ha : a ∉ live)
    (hm : (fd, .server a) ∈ s.watchTable) :
    Connections live { s with watchTable := removeWatch s.watchTable fd } := by
  refine ⟨h.fds.sublist (removeWatch_sublist.map _), h.nodup, fun b x => ?_, h.parents,
    fun b hb => ?_⟩
  · rw [mem_removeWatch, h.clients b x]
    refine ⟨fun hx => ⟨hx, ?_⟩, fun hx => hx.1⟩
    rintro rfl
    cases h.watch_unique hm hx
  · have hne : s.serverHandle b ≠ fd := by
      rintro rfl
      cases h.watch_unique hm (h.servers b hb)
      exact ha hb
    exact mem_removeWatch.mpr ⟨h.servers b hb, hne⟩

theorem Connections.handleClientDisconnect (h : Connections live s)
    (hm : (fd, .client a) ∈ s.watchTable) :
    Connections live (s.handleClientDisconnect fd a) := by
  refine ⟨h.fds.sublist (removeWatch_sublist.map _), fun b => ?_, fun b x => ?_,
    fun b hb => h.parents b ?_, fun b hb => ?_⟩
  · by_cases hba : b = a
    · subst hba
      simp only [State.handleClientDisconnect, Function.update_self]
      exact (h.nodup b).erase fd
    · simp only [State.handleClientDisconnect, Function.update_of_ne hba]
      exact h.nodup b
  · simp only [State.handleClientDisconnect, mem_removeWatch, ← h.clients b x]
    by_cases hba : b = a
    · subst hba
      rw [Function.update_self, (h.nodup b).mem_erase_iff, and_comm]
    · rw [Function.update_of_ne hba]
      refine ⟨fun hx => ⟨hx, ?_⟩, fun hx => hx.1⟩
      rintro rfl
      cases h.watch_unique hm ((h.clients b x).mp hx)
      exact hba rfl
  · by_cases hba : b = a
    · subst hba
      exact List.ne_nil_of_mem ((h.clients b fd).mpr hm)
    · simpa only [State.handleClientDisconnect, Function.update_of_ne hba] using hb
  · have hne : s.serverHandle b ≠ fd := by
      rintro rfl
      cases h.watch_unique hm (h.servers b hb)
    exact mem_removeWatch.mpr ⟨h.servers b hb, hne⟩

/-- The agreement reads neither the tables of the module nor the handles given out. -/
theorem Connections.with_tables (h : Connections live s) (m : Module κ)
    (returned : List Address) :
    Connections live { s with module := m, returned := returned } :=
  ⟨h.fds, h.nodup, h.clients, h.parents, h.servers⟩

end Connections

structure Invariant (s : State κ) : Prop where
  tables : Tables s.module
  connections : Connections (serverAddresses s.module) s
  returned : ∀ handle, handle ∈ s.returned ↔ ∃ p ∈ s.module.subscribeHandles,
    p.1.address = handle

section Invariant

variable {s t : State κ}

theorem Invariant.consistent (h : Invariant s) : Consistent s where
  keys := h.tables.keys
  handles cell owner := by
    constructor
    · intro hm
      obtain ⟨d, hd, ha, hc⟩ := h.tables.toWellFormed.handles _ hm
      exact ⟨d.topic, d, hd, ha, rfl, hc⟩
    · rintro ⟨topic, hl⟩
      exact h.tables.complete owner topic cell hl
  topics := h.tables.topics
  nonempty := h.tables.nonempty
  clients d _ := ⟨h.connections.nodup _, h.connections.clients _⟩

theorem serverAddresses_addCallback {m m' : Module κ} {topic : String} {cell : CbInfo κ}
    {listenInfo owner : Address} {server : Except Failure Server}
    (h : m.addCallback topic cell listenInfo server = .ok (m', owner)) :
    serverAddresses m' =
      if m.findTopic topic = none then insert listenInfo (serverAddresses m)
      else serverAddresses m := by
  rcases addCallback_cases h with ⟨d, hd, -, rfl⟩ | ⟨sv, hd, -, -, rfl⟩
  · rw [if_neg (by simp [hd])]
    ext a
    simp only [serverAddresses, Set.mem_ofPred_eq, ← List.mem_map, onServer_addresses]
  · rw [if_pos hd]
    ext a
    simp only [serverAddresses, Set.mem_ofPred_eq, Set.mem_insert_iff,
      (insertServer_perm m _).mem_iff, List.mem_cons, or_and_right, exists_or, exists_eq_left]
    rw [eq_comm]

theorem serverAddresses_unsubscribe {m : Module κ} (h : Tables m) {handle : Address}
    {p : CbInfo κ × Address} (hh : m.findHandle handle = some p) (ret : Bool) :
    ∃ d, m.findServer p.2 = some d ∧ serverAddresses (m.unsubscribe handle ret).1 =
      if 1 < d.cbList.length then serverAddresses m else serverAddresses m \ {d.address} := by
  obtain ⟨d, hd, -, he⟩ := h.unsubscribe_cases hh ret
  refine ⟨d, hd, ?_⟩
  rw [he, (mem_of_findServer hd).2]
  split
  · ext a
    simp only [serverAddresses, Set.mem_ofPred_eq, ← List.mem_map, onServer_addresses]
    rfl
  · ext a
    simp only [serverAddresses, Module.eraseServer, Module.eraseHandle, List.mem_filter,
      Set.mem_ofPred_eq, Set.mem_sdiff, Set.mem_singleton_iff, decide_eq_true_eq]
    constructor
    · rintro ⟨x, ⟨hx, hne⟩, rfl⟩
      exact ⟨⟨x, hx, rfl⟩, hne⟩
    · rintro ⟨⟨x, hx, rfl⟩, hne⟩
      exact ⟨x, ⟨hx, hne⟩, rfl⟩

theorem not_mem_serverAddresses {m : Module κ} {cell : CbInfo κ} {listenInfo : Address}
    (ha : Allocatable m cell listenInfo) : listenInfo ∉ serverAddresses m := by
  rintro ⟨d, hd, hda⟩
  exact ha.servers d hd hda

/-- What `Subscribe` does to the connections. -/
theorem connections_subscribe (h : Invariant s) {topic : String} {cell : CbInfo κ}
    {listenInfo : Address} (ha : Allocatable s.module cell listenInfo)
    {server : Except Failure (Server × ℕ)} (hf : ∀ p ∈ server.toOption, s.Fresh p.2)
    (ret : Bool) :
    Connections (serverAddresses (s.subscribe topic cell listenInfo server ret).module)
      (s.subscribe topic cell listenInfo server ret) := by
  simp only [State.subscribe]
  apply Connections.with_tables
  rcases subscribe_eq s.module topic cell listenInfo (server.map (·.1)) ret with
    ⟨he, -, hd, hn⟩ | ⟨m', owner, hadd, -, he⟩
  · cases server with
    | error err =>
      rw [he, hd]
      exact h.connections
    | ok p => cases hn
  · have hlive : serverAddresses (s.module.subscribe topic cell listenInfo
        (server.map (·.1)) ret).1 = serverAddresses m' := by
      rw [he]
      rfl
    rw [hlive, serverAddresses_addCallback hadd]
    rcases addCallback_cases hadd with ⟨d, hd, -⟩ | ⟨sv, hd, hsv, -⟩
    · rw [if_neg (by simp [hd]), hd]
      exact h.connections
    · cases server with
      | error err => cases hsv
      | ok p =>
        rw [if_pos hd, hd]
        exact h.connections.openServer (not_mem_serverAddresses ha) (hf p rfl)

theorem connections_unsubscribe (h : Invariant s) (handle : Address) (ret : Bool) :
    Connections (serverAddresses (s.unsubscribe handle ret).module)
      (s.unsubscribe handle ret) := by
  simp only [State.unsubscribe]
  apply Connections.with_tables
  cases hh : s.module.findHandle handle with
  | none =>
    simp only [Module.unsubscribe, hh, Option.bind_none]
    exact h.connections
  | some p =>
    obtain ⟨d, hd, he⟩ := serverAddresses_unsubscribe h.tables hh ret
    simp only [Option.bind_some, hd, he]
    split
    · exact h.connections
    · exact h.connections.closeServer ⟨d, (mem_of_findServer hd).1, rfl⟩

theorem invariant_subscribe (h : Invariant s) {topic : String} {cell : CbInfo κ}
    {listenInfo : Address} (ha : Allocatable s.module cell listenInfo)
    {server : Except Failure (Server × ℕ)} (hf : ∀ p ∈ server.toOption, s.Fresh p.2) :
    Invariant (s.subscribe topic cell listenInfo server true) := by
  refine ⟨h.tables.subscribe ha _, connections_subscribe h ha hf true, fun handle => ?_⟩
  simp only [State.subscribe, List.mem_append, h.returned]
  rcases subscribe_eq s.module topic cell listenInfo (server.map (·.1)) true with
    ⟨he, hr, -⟩ | ⟨m', owner, hadd, hr, he⟩
  · simp [he, hr]
  · simp only [he, hr, if_true, addCallback_handles hadd, List.mem_append, or_and_right,
      exists_or, List.mem_singleton, exists_eq_left, Option.toList_some]
    rw [@eq_comm _ handle]

/-- A `Subscribe` that cannot open its server leaves everything as it was. -/
theorem subscribe_unchanged {topic : String} {cell : CbInfo κ} {listenInfo : Address}
    {server : Except Failure (Server × ℕ)} (hd : s.module.findTopic topic = none)
    (hn : server.toOption = none) (ret : Bool) :
    s.subscribe topic cell listenInfo server ret = s := by
  cases server with
  | ok p => cases hn
  | error err =>
    simp only [State.subscribe, Module.subscribe, Module.addCallback, hd, Except.map,
      Except.toOption, Option.toList_none, List.append_nil]

theorem invariant_unsubscribe (h : Invariant s) (handle : Address) (ret : Bool) :
    Invariant (s.unsubscribe handle ret) := by
  refine ⟨h.tables.unsubscribe ret, connections_unsubscribe h handle ret, fun x => ?_⟩
  simp only [State.unsubscribe, List.mem_filter, decide_eq_true_eq, h.returned]
  cases hh : s.module.findHandle handle with
  | none =>
    have hne : ∀ p ∈ s.module.subscribeHandles, p.1.address ≠ handle := by
      intro p hp
      simpa using List.find?_eq_none.mp hh p hp
    simp only [Module.unsubscribe, hh, and_iff_left_iff_imp]
    rintro ⟨p, hp, rfl⟩
    exact hne p hp
  | some p =>
    obtain ⟨m', blob, r, he, -, -, -, hhandles⟩ := h.tables.toSound.unsubscribe_spec hh ret
    simp only [he, hhandles]
    constructor
    · rintro ⟨⟨q, hq, rfl⟩, hne⟩
      exact ⟨q, ⟨hq, hne⟩, rfl⟩
    · rintro ⟨q, ⟨hq, hne⟩, rfl⟩
      exact ⟨⟨q, hq, rfl⟩, hne⟩

theorem invariant_acceptConnection (h : Invariant s) {handle : ℕ} {listenInfo : Address}
    {peer : Option ℕ} (hm : (handle, .server listenInfo) ∈ s.watchTable)
    (hf : ∀ fd ∈ peer, s.Fresh fd) : Invariant (s.acceptConnection handle listenInfo peer) := by
  unfold State.acceptConnection
  split
  · next hd =>
    have hnone : listenInfo ∉ serverAddresses s.module := by
      rintro ⟨d, hdm, hda⟩
      exact absurd hda (by simpa using List.find?_eq_none.mp hd d hdm)
    exact ⟨h.tables, h.connections.removeWatch_stale hnone hm, h.returned⟩
  · exact h
  · next d fd hd =>
    obtain ⟨hdm, hda⟩ := mem_of_findServer hd
    exact ⟨h.tables, h.connections.accept ⟨d, hdm, hda⟩ (hf fd rfl), h.returned⟩

theorem invariant_step {e : Event κ} (h : Invariant s) (hok : Ok s e)
    (hs : step s e = some t) : Invariant t := by
  cases e with
  | subscribe topic cell listenInfo server ret =>
    simp only [step, Option.ite_none_right_eq_some, Option.some.injEq] at hs
    obtain ⟨⟨ha, hf⟩, rfl⟩ := hs
    rcases hok with rfl | ⟨hd, hn⟩
    · exact invariant_subscribe h ha hf
    · rw [subscribe_unchanged hd hn]
      exact h
  | unsubscribe handle ret =>
    obtain rfl := Option.some.inj hs
    exact invariant_unsubscribe h handle ret
  | acceptConnection handle peer =>
    simp only [step] at hs
    split at hs
    · next listenInfo hw =>
      split at hs
      · next hf =>
        obtain rfl := Option.some.inj hs
        exact invariant_acceptConnection h (mem_of_findWatch hw) hf
      · cases hs
    · cases hs
  | clientDisconnect handle =>
    simp only [step] at hs
    split at hs
    · next parent hw =>
      obtain rfl := Option.some.inj hs
      exact ⟨h.tables, h.connections.handleClientDisconnect (mem_of_findWatch hw), h.returned⟩
    · cases hs

theorem invariant_initial (secure : Bool) (ip : String) :
    Invariant (machine (κ := κ) secure ip).initial where
  tables := {
    servers := List.nodup_nil
    handles := nofun
    cells := List.nodup_nil
    keys := List.nodup_nil
    complete := by
      rintro _ _ _ ⟨_, hd, -⟩
      cases hd
    topics := List.nodup_nil
    nonempty := nofun }
  connections := {
    fds := List.nodup_nil
    nodup _ := List.nodup_nil
    clients _ _ := by simp [machine]
    parents _ h := absurd rfl h
    servers := by
      rintro _ ⟨_, hd, -⟩
      cases hd }
  returned _ := by simp [machine]

/-- A callback that was added without its handle stays on its list, where no handle will
ever name it. -/
theorem not_consistent_subscribe (h : Invariant s) {topic : String} {cell : CbInfo κ}
    {listenInfo : Address} (ha : Allocatable s.module cell listenInfo)
    {server : Except Failure (Server × ℕ)}
    (hadds : ¬ (s.module.findTopic topic = none ∧ server.toOption = none)) :
    ¬ Consistent (s.subscribe topic cell listenInfo server false) := by
  rcases subscribe_eq s.module topic cell listenInfo (server.map (·.1)) false with
    ⟨-, -, hd, hn⟩ | ⟨m', owner, hadd, -, he⟩
  · refine absurd ⟨hd, ?_⟩ hadds
    cases server with
    | error err => rfl
    | ok p => cases hn
  · intro hc
    have hl := (listens_addCallback h.tables.toWellFormed hadd owner topic cell).mpr
      (Or.inr ⟨rfl, rfl, rfl⟩)
    have hm := (hc.handles cell owner).mpr ⟨topic, by
      simp only [State.subscribe, he]
      exact hl⟩
    simp only [State.subscribe, he, addCallback_handles hadd, Bool.false_eq_true, if_false,
      List.append_nil] at hm
    exact fresh_handle h.tables.toWellFormed ha (List.mem_map.mpr ⟨_, hm, rfl⟩)

theorem consistent_step_iff {e : Event κ} (h : Invariant s) (hs : step s e = some t) :
    Consistent t ↔ Ok s e := by
  constructor
  · intro hc
    cases e with
    | subscribe topic cell listenInfo server ret =>
      simp only [step, Option.ite_none_right_eq_some, Option.some.injEq] at hs
      obtain ⟨⟨ha, hf⟩, rfl⟩ := hs
      cases ret with
      | true => exact Or.inl rfl
      | false =>
        refine Or.inr ?_
        by_contra hadds
        exact not_consistent_subscribe h ha hadds hc
    | unsubscribe => trivial
    | acceptConnection => trivial
    | clientDisconnect => trivial
  · intro hok
    exact (invariant_step h hok hs).consistent

theorem Invariant.removes (h : Invariant s) {handle : Address} (hr : handle ∈ s.returned)
    (ret : Bool) : Removes handle s (s.unsubscribe handle ret) := by
  obtain ⟨p, hp, hpa⟩ := (h.returned handle).mp hr
  have hsome : (s.module.findHandle handle).isSome := by
    rw [Module.findHandle, List.find?_isSome]
    exact ⟨p, hp, by simpa using hpa⟩
  obtain ⟨q, hq⟩ := Option.isSome_iff_exists.mp hsome
  obtain ⟨m', blob, r, he, -, -, -, hhandles⟩ := h.tables.toSound.unsubscribe_spec hq ret
  obtain ⟨d, hd, -, hc⟩ := h.tables.toWellFormed.handles p hp
  refine ⟨⟨d.address, d.topic, p.1, hpa, d, hd, rfl, rfl, hc⟩,
    h.tables.listens_unsubscribe hq ret, fun x => ?_⟩
  simp only [State.unsubscribe, he]
  exact hhandles x

theorem invariant_reaches {secure : Bool} {ip : String}
    (h : (machine secure ip).Reaches Ok s) : Invariant s :=
  h.invariant (invariant_initial secure ip) fun _ _ _ _ hi hok hs => invariant_step hi hok hs

end Invariant

/-- As long as every `Subscribe` that adds a callback also publishes it, the tables agree and
`Unsubscribe` takes out the one callback; and the first that does not ends the agreement. -/
theorem tcp_tables_consistent {secure : Bool} {ip : String} {s : State κ}
    (h : (machine secure ip).Reaches Ok s) :
    Consistent s ∧
    (∀ e t, step s e = some t → (Consistent t ↔ Ok s e)) ∧
    ∀ handle ∈ s.returned, ∀ ret t, step s (.unsubscribe handle ret) = some t →
      Removes handle s t := by
  have hi := invariant_reaches h
  refine ⟨hi.consistent, fun e t hs => consistent_step_iff hi hs, fun handle hr ret t hs => ?_⟩
  obtain rfl := Option.some.inj hs
  exact hi.removes hr ret

def mixedRun : List (Event ℕ) :=
  [.subscribe "a" ⟨1, 0, 0⟩ 10 (.ok (⟨5001, [], []⟩, 3)) true,
    .subscribe "a" ⟨2, 0, 0⟩ 11 (.error (.runtimeError "bind")) true,
    .acceptConnection 3 (some 4),
    .subscribe "b" ⟨3, 0, 0⟩ 11 (.error (.runtimeError "bind")) false,
    .subscribe "c" ⟨3, 0, 0⟩ 11 (.ok (⟨5002, [], []⟩, 5)) true,
    .acceptConnection 5 (some 6), .unsubscribe 3 false, .acceptConnection 3 (some 5),
    .clientDisconnect 4]

theorem tcp_tables_consistent_after_mixed_run :
    ∃ s : State ℕ, (machine false "192.168.1.11").Reaches Ok s ∧
      (s.clientList 10 = [5] ∧ s.watchTable = [(3, .server 10), (5, .client 10)] ∧
        s.returned = [1, 2]) ∧
      Consistent s ∧ Removes 1 s (s.unsubscribe 1 true) := by
  obtain ⟨s, hr, hp⟩ := (machine false "192.168.1.11").exists_reaches Ok mixedRun
    (fun s : State ℕ => s.clientList 10 = [5] ∧
      s.watchTable = [(3, .server 10), (5, .client 10)] ∧ s.returned = [1, 2]) (by decide)
  have hs := of_decide_eq_true hp
  obtain ⟨hc, -, hu⟩ := tcp_tables_consistent hr
  exact ⟨s, hr, hs, hc, hu 1 (by rw [hs.2.2]; decide) true _ rfl⟩

/-- The discovery publication of a `Subscribe` fails: its callback stays on the list of its
topic, and no handle names it. -/
theorem failed_publication_leaves_a_callback :
    ∃ s : State ℕ, (machine false "192.168.1.11").Reachable s ∧
      (s.module.subscribeTable = [⟨10, "a", [⟨1, 0, 0⟩], ⟨5001, [], []⟩⟩] ∧
        s.module.subscribeHandles = []) ∧ ¬Consistent s := by
  obtain ⟨s, hr, hp⟩ := (machine false "192.168.1.11").exists_reachable
    [.subscribe "a" ⟨1, 0, 0⟩ 10 (.ok (⟨5001, [], []⟩, 3)) false]
    (fun s : State ℕ => s.module.subscribeTable = [⟨10, "a", [⟨1, 0, 0⟩], ⟨5001, [], []⟩⟩] ∧
      s.module.subscribeHandles = []) (by decide)
  obtain ⟨ht, hh⟩ := of_decide_eq_true hp
  refine ⟨s, hr, ⟨ht, hh⟩, fun hc => ?_⟩
  have hl : Listens s.module 10 "a" ⟨1, 0, 0⟩ := by
    rw [Listens, ht]
    exact ⟨_, List.mem_singleton_self _, rfl, rfl, List.mem_singleton_self _⟩
  have hm := (hc.handles _ _).mpr ⟨"a", hl⟩
  rw [hh] at hm
  cases hm

end TcpConnections
