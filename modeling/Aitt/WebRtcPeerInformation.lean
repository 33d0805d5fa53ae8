import Aitt.TransitionRuns
import Aitt.WebRtcStream

/-! The peer information of a `WebRtcStream` when any call of the library may fail. The calls are
logged with their results, so that order and repetition are statements about the log. -/
namespace WebRtcPeerInformation

open TransitionRuns WebRtcStream

inductive Call where
  | addPeerInformation (sdp : String)
  | setRemoteDescription (description : String) (ok : Bool)
  | addIceCandidate (candidate : String) (ok : Bool)
  deriving DecidableEq, Repr

structure Stream where
  remoteDescription : String := ""
  peerIceCandidates : List String := []
  storedPeerIceCandidates : List String := []
  log : List Call := []
  deriving DecidableEq, Repr

/-- The answers of the library during one call: what `webrtc_get_state` tells each of the two
queries, `none` when it fails, and whether the call that becomes entry `n` of the log succeeds. -/
structure Answers where
  isPlaying : Option HandleState
  isNegotiating : Option HandleState
  succeeds : ℕ → Bool

namespace Stream

def setPeerSDP (s : Stream) (lib : Answers) : Bool × Stream :=
  if s.remoteDescription = "" then (true, s)
  else if lib.succeeds s.log.length then
    (true, { s with
      remoteDescription := "", log := s.log ++ [.setRemoteDescription s.remoteDescription true] })
  else (false, { s with log := s.log ++ [.setRemoteDescription s.remoteDescription false] })

def isRedundantCandidate (s : Stream) (candidate : String) : Bool :=
  s.storedPeerIceCandidates.contains candidate

def setPeerIceCandidate (lib : Answers) (r : Bool × Stream) (candidate : String) :
    Bool × Stream :=
  if r.2.isRedundantCandidate candidate then r
  else if lib.succeeds r.2.log.length then
    (r.1, { r.2 with
      storedPeerIceCandidates := r.2.storedPeerIceCandidates ++ [candidate]
      log := r.2.log ++ [.addIceCandidate candidate true] })
  else (false, { r.2 with log := r.2.log ++ [.addIceCandidate candidate false] })

def setPeerIceCandidates (s : Stream) (lib : Answers) : Bool × Stream :=
  s.peerIceCandidates.foldl (setPeerIceCandidate lib) (true, s)

def setPeerInformation (s : Stream) (lib : Answers) : Bool × Stream :=
  match s.setPeerSDP lib with
  | (true, s') => s'.setPeerIceCandidates lib
  | (false, s') => (false, s')

def addPeerInformation (s : Stream) (lib : Answers) (sdp : String)
    (iceCandidates : List String) : Bool × Stream :=
  let s' := { s with
    remoteDescription := sdp, peerIceCandidates := iceCandidates
    log := s.log ++ [.addPeerInformation sdp] }
  if lib.isNegotiating = some .negotiating then s'.setPeerInformation lib else (false, s')

def updatePeerInformation (s : Stream) (lib : Answers) (iceCandidates : List String) : Stream :=
  if lib.isPlaying = some .playing then
    { s with remoteDescription := "", peerIceCandidates := [], storedPeerIceCandidates := [] }
  else
    -- the new list replaces the old one even if the stream is not negotiable
    let s' := { s with peerIceCandidates := iceCandidates }
    if lib.isNegotiating = some .negotiating then (s'.setPeerInformation lib).2 else s'

def onStateChanged (s : Stream) (lib : Answers) (current : HandleState) : Stream :=
  if current = .negotiating then (s.setPeerSDP lib).2 else s

end Stream

inductive Event where
  | addPeerInformation (lib : Answers) (sdp : String) (iceCandidates : List String)
  | updatePeerInformation (lib : Answers) (iceCandidates : List String)
  | onStateChanged (lib : Answers) (current : HandleState)

def step (s : Stream) : Event → Option Stream
  | .addPeerInformation lib sdp iceCandidates => some (s.addPeerInformation lib sdp iceCandidates).2
  | .updatePeerInformation lib iceCandidates => some (s.updatePeerInformation lib iceCandidates)
  | .onStateChanged lib current => some (s.onStateChanged lib current)

def machine : Machine Stream Event := ⟨{}, step⟩

def Call.isAdd : Call → Bool
  | .addPeerInformation _ => true
  | _ => false

/-- A step before `PLAYING` is reached, with an SDP in every `AddPeerInformation`. -/
def BeforePlaying : Event → Prop
  | .addPeerInformation _ sdp _ => sdp ≠ ""
  | .updatePeerInformation lib _ => lib.isPlaying ≠ some .playing
  | .onStateChanged _ current => current ≠ .playing

instance : (e : Event) → Decidable (BeforePlaying e)
  | .addPeerInformation _ sdp _ => inferInstanceAs (Decidable (sdp ≠ ""))
  | .updatePeerInformation lib _ => inferInstanceAs (Decidable (lib.isPlaying ≠ some .playing))
  | .onStateChanged _ current => inferInstanceAs (Decidable (current ≠ .playing))

def AddedFirst (s : Stream) : Event → Prop
  | .updatePeerInformation _ _ => s.log.any Call.isAdd = true
  | _ => True

instance (s : Stream) : (e : Event) → Decidable (AddedFirst s e)
  | .addPeerInformation _ _ _ => inferInstanceAs (Decidable True)
  | .updatePeerInformation _ _ => inferInstanceAs (Decidable (s.log.any Call.isAdd = true))
  | .onStateChanged _ _ => inferInstanceAs (Decidable True)

def lastSDP (log : List Call) : Option String :=
  log.foldl (fun sdp c => match c with
    | .addPeerInformation sdp' => some sdp'
    | _ => sdp) none

def described (log : List Call) : Bool :=
  log.foldl (fun d c => match c with
    | .addPeerInformation _ => false
    | .setRemoteDescription _ true => true
    | _ => d) false

/-- A description is passed only if it is that of the last `AddPeerInformation` and has not been
applied since, a candidate only if that one has been and the candidate itself not. -/
def Allowed (before : List Call) : Call → Prop
  | .addPeerInformation _ => True
  | .setRemoteDescription sdp _ => lastSDP before = some sdp ∧ described before = false
  | .addIceCandidate c _ => described before = true ∧ .addIceCandidate c true ∉ before

def InOrder (log : List Call) : Prop := ∀ before c, before ++ [c] <+: log → Allowed before c

theorem inOrder_append {log : List Call} {c : Call} (h : InOrder log) (hc : Allowed log c) :
    InOrder (log ++ [c]) := by
  intro before d hp
  rcases List.prefix_concat_iff.mp hp with he | hp
  · obtain ⟨rfl, hd⟩ := List.append_inj' he rfl
    cases hd
    exact hc
  · exact h before d hp

section Logs

variable (log : List Call)

@[simp] theorem lastSDP_addPeerInformation (sdp : String) :
    lastSDP (log ++ [.addPeerInformation sdp]) = some sdp := by simp [lastSDP]

@[simp] theorem described_addPeerInformation (sdp : String) :
    described (log ++ [.addPeerInformation sdp]) = false := by simp [described]

@[simp] theorem lastSDP_setRemoteDescription (sdp : String) (ok : Bool) :
    lastSDP (log ++ [.setRemoteDescription sdp ok]) = lastSDP log := by simp [lastSDP]

@[simp] theorem described_setRemoteDescription (sdp : String) (ok : Bool) :
    described (log ++ [.setRemoteDescription sdp ok]) = (ok || described log) := by
  cases ok <;> simp [described]

@[simp] theorem described_addIceCandidate (c : String) (ok : Bool) :
    described (log ++ [.addIceCandidate c ok]) = described log := by simp [described]

end Logs

structure Consistent (s : Stream) : Prop where
  inOrder : InOrder s.log
  waiting : s.remoteDescription ≠ "" →
    lastSDP s.log = some s.remoteDescription ∧ described s.log = false
  applied : s.remoteDescription = "" → s.log.any Call.isAdd = true → described s.log = true
  stored : ∀ c, c ∈ s.storedPeerIceCandidates ↔ .addIceCandidate c true ∈ s.log

variable {s t : Stream} {lib : Answers}

theorem any_isAdd_of_prefix {log log' : List Call} (h : log <+: log')
    (ha : log.any Call.isAdd = true) : log'.any Call.isAdd = true := by
  obtain ⟨c, hc, hadd⟩ := List.any_eq_true.mp ha
  exact List.any_eq_true.mpr ⟨c, h.subset hc, hadd⟩

theorem setPeerSDP_log (s : Stream) (lib : Answers) : s.log <+: (s.setPeerSDP lib).2.log := by
  unfold Stream.setPeerSDP
  split
  · exact List.prefix_rfl
  · split <;> exact List.prefix_append _ _

theorem setPeerSDP_applied (h : s.setPeerSDP lib = (true, t)) : t.remoteDescription = "" := by
  unfold Stream.setPeerSDP at h
  split at h
  · cases h
    assumption
  · split at h
    · cases h
      rfl
    · cases h

theorem setPeerSDP_consistent (lib : Answers) (h : Consistent s) :
    Consistent (s.setPeerSDP lib).2 := by
  unfold Stream.setPeerSDP
  by_cases hd : s.remoteDescription = ""
  · rw [if_pos hd]
    exact h
  · rw [if_neg hd]
    obtain ⟨hl, hn⟩ := h.waiting hd
    split
    · refine ⟨inOrder_append h.inOrder ⟨hl, hn⟩, fun he => absurd rfl he, fun _ _ => ?_, ?_⟩
      · simp
      · simpa using h.stored
    · refine ⟨inOrder_append h.inOrder ⟨hl, hn⟩, fun _ => ?_, fun he => absurd he hd, ?_⟩
      · simpa using ⟨hl, hn⟩
      · simpa using h.stored

structure Ready (s : Stream) : Prop extends Consistent s where
  description : s.remoteDescription = ""
  added : s.log.any Call.isAdd = true

/-- A new candidate is passed, and stored if it was added. -/
theorem Ready.addIceCandidate {c : String} (h : Ready s) (hnew : .addIceCandidate c true ∉ s.log)
    (ok : Bool) : Ready { s with
      storedPeerIceCandidates :=
        s.storedPeerIceCandidates ++ if ok = true then [c] else []
      log := s.log ++ [.addIceCandidate c ok] } := by
  have hd := h.applied h.description h.added
  constructor
  · constructor
    · exact inOrder_append h.inOrder ⟨hd, hnew⟩
    · intro he
      exact absurd h.description he
    · intro _ _
      simpa using hd
    · intro c'
      cases ok <;> simp [h.stored c', or_comm]
  · exact h.description
  · exact any_isAdd_of_prefix (List.prefix_append _ _) h.added

theorem setPeerIceCandidate_ready {r : Bool × Stream} (c : String) (h : Ready r.2) :
    Ready (Stream.setPeerIceCandidate lib r c).2 := by
  unfold Stream.setPeerIceCandidate
  split
  · exact h
  · rename_i hred
    have hnew : .addIceCandidate c true ∉ r.2.log := by
      rw [← h.stored]
      simpa [Stream.isRedundantCandidate] using hred
    split
    · exact h.addIceCandidate hnew true
    · simpa using h.addIceCandidate hnew false

theorem foldl_setPeerIceCandidate_ready (cs : List String) {r : Bool × Stream} (h : Ready r.2) :
    Ready (cs.foldl (Stream.setPeerIceCandidate lib) r).2 := by
  induction cs generalizing r with
  | nil => exact h
  | cons c cs ih => exact ih (setPeerIceCandidate_ready c h)

theorem setPeerInformation_consistent (h : Consistent s) (ha : s.log.any Call.isAdd = true) :
    Consistent (s.setPeerInformation lib).2 := by
  have hc := setPeerSDP_consistent lib h
  have hadd := any_isAdd_of_prefix (setPeerSDP_log s lib) ha
  unfold Stream.setPeerInformation
  split
  · rename_i s' he
    rw [he] at hc hadd
    exact (foldl_setPeerIceCandidate_ready _ ⟨hc, setPeerSDP_applied he, hadd⟩).toConsistent
  · rename_i s' he
    rw [he] at hc
    exact hc

theorem addPeerInformation_consistent (h : Consistent s) (lib : Answers) {sdp : String}
    (hs : sdp ≠ "") (cs : List String) : Consistent (s.addPeerInformation lib sdp cs).2 := by
  have hadd : Consistent { s with
      remoteDescription := sdp, peerIceCandidates := cs
      log := s.log ++ [.addPeerInformation sdp] } := by
    refine ⟨inOrder_append h.inOrder trivial, fun _ => ?_, fun he => absurd he hs, ?_⟩
    · simp
    · simpa using h.stored
  unfold Stream.addPeerInformation
  split
  · exact setPeerInformation_consistent hadd (by simp [Call.isAdd])
  · exact hadd

theorem updatePeerInformation_consistent (h : Consistent s) (hp : lib.isPlaying ≠ some .playing)
    (ha : s.log.any Call.isAdd = true) (cs : List String) :
    Consistent (s.updatePeerInformation lib cs) := by
  have hset : Consistent { s with peerIceCandidates := cs } :=
    ⟨h.inOrder, h.waiting, h.applied, h.stored⟩
  rw [Stream.updatePeerInformation, if_neg hp]
  split
  · exact setPeerInformation_consistent hset ha
  · exact hset

theorem step_consistent {e : Event} (h : Consistent s) (hp : BeforePlaying e)
    (hf : AddedFirst s e) (he : step s e = some t) : Consistent t := by
  cases e with
  | addPeerInformation lib sdp cs =>
    cases he
    exact addPeerInformation_consistent h lib hp cs
  | updatePeerInformation lib cs =>
    cases he
    exact updatePeerInformation_consistent h hp hf cs
  | onStateChanged lib current =>
    cases he
    unfold Stream.onStateChanged
    split
    · exact setPeerSDP_consistent lib h
    · exact h

def InTurn (s : Stream) (e : Event) : Prop := BeforePlaying e ∧ AddedFirst s e

instance (s : Stream) (e : Event) : Decidable (InTurn s e) := inferInstanceAs (Decidable (_ ∧ _))

theorem reaches_consistent (h : machine.Reaches InTurn s) : Consistent s := by
  refine h.invariant ?_ fun _ _ _ _ hs hok he => step_consistent hs hok.1 hok.2 he
  constructor <;> simp [machine, InOrder]

theorem InOrder.count_le_one {log : List Call} (h : InOrder log) (c : String) :
    log.count (.addIceCandidate c true) ≤ 1 := by
  induction log using List.reverseRecOn with
  | nil => simp
  | append_singleton log e ih =>
    have hlog : InOrder log := fun before d hp => h before d (hp.trans (List.prefix_append _ _))
    by_cases he : e = .addIceCandidate c true
    · subst he
      have hnew := (h log _ List.prefix_rfl).2
      simp [List.count_eq_zero_of_not_mem hnew]
    · rw [List.count_append, List.count_singleton, if_neg (by simpa using he)]
      exact ih hlog

def Passed (s t : Stream) (c : String) : Prop :=
  ∃ new ok, t.log = s.log ++ new ∧ .addIceCandidate c ok ∈ new

theorem Passed.extend {s' t' : Stream} {c : String} (h : Passed s t c) (hs : s'.log <+: s.log)
    (ht : t.log <+: t'.log) : Passed s' t' c := by
  obtain ⟨new, ok, hlog, hc⟩ := h
  obtain ⟨early, hs⟩ := hs
  obtain ⟨late, ht⟩ := ht
  refine ⟨early ++ new ++ late, ok, ?_, by simp [hc]⟩
  rw [← ht, hlog, ← hs]
  simp

theorem setPeerIceCandidate_log (r : Bool × Stream) (c : String) :
    r.2.log <+: (Stream.setPeerIceCandidate lib r c).2.log := by
  unfold Stream.setPeerIceCandidate
  split
  · exact List.prefix_rfl
  · split <;> exact List.prefix_append _ _

theorem foldl_setPeerIceCandidate_log (cs : List String) (r : Bool × Stream) :
    r.2.log <+: (cs.foldl (Stream.setPeerIceCandidate lib) r).2.log := by
  induction cs generalizing r with
  | nil => exact List.prefix_rfl
  | cons c cs ih => exact (setPeerIceCandidate_log r c).trans (ih _)

theorem setPeerIceCandidate_passed {r : Bool × Stream} {c : String}
    (hc : c ∉ r.2.storedPeerIceCandidates) :
    Passed r.2 (Stream.setPeerIceCandidate lib r c).2 c := by
  have hred : ¬ r.2.isRedundantCandidate c = true := by simpa [Stream.isRedundantCandidate] using hc
  rw [Stream.setPeerIceCandidate, if_neg hred]
  split
  · exact ⟨_, true, rfl, by simp⟩
  · exact ⟨_, false, rfl, by simp⟩

theorem setPeerIceCandidate_not_stored {r : Bool × Stream} {c d : String} (hne : c ≠ d)
    (hc : c ∉ r.2.storedPeerIceCandidates) :
    c ∉ (Stream.setPeerIceCandidate lib r d).2.storedPeerIceCandidates := by
  unfold Stream.setPeerIceCandidate
  split
  · exact hc
  · split
    · simp [hc, hne]
    · exact hc

/-- The loop passes every listed candidate that is not stored; another one before it in the list
may fail. -/
theorem foldl_setPeerIceCandidate_passed {cs : List String} {r : Bool × Stream} {c : String}
    (hm : c ∈ cs) (hc : c ∉ r.2.storedPeerIceCandidates) :
    Passed r.2 (cs.foldl (Stream.setPeerIceCandidate lib) r).2 c := by
  induction cs generalizing r with
  | nil => cases hm
  | cons d cs ih =>
    by_cases hd : c = d
    · subst hd
      exact (setPeerIceCandidate_passed hc).extend List.prefix_rfl
        (foldl_setPeerIceCandidate_log cs _)
    · have hcs : c ∈ cs := (List.mem_cons.mp hm).resolve_left hd
      exact (ih hcs (setPeerIceCandidate_not_stored hd hc)).extend (setPeerIceCandidate_log r d)
        List.prefix_rfl

/-- No description is left waiting, because there is none or because the library takes it. -/
def Describable (s : Stream) (lib : Answers) : Prop :=
  s.remoteDescription = "" ∨ lib.succeeds s.log.length = true

theorem setPeerSDP_of_describable (h : Describable s lib) : ∃ t, s.setPeerSDP lib = (true, t) ∧
    t.peerIceCandidates = s.peerIceCandidates ∧
    t.storedPeerIceCandidates = s.storedPeerIceCandidates := by
  unfold Stream.setPeerSDP
  by_cases hd : s.remoteDescription = ""
  · exact ⟨s, if_pos hd, rfl, rfl⟩
  · rw [if_neg hd, if_pos (h.resolve_left hd)]
    exact ⟨_, rfl, rfl, rfl⟩

theorem updatePeerInformation_passed {cs : List String} {c : String}
    (hp : lib.isPlaying ≠ some .playing) (hn : lib.isNegotiating = some .negotiating)
    (hd : Describable s lib) (hm : c ∈ cs) (hc : c ∉ s.storedPeerIceCandidates) :
    Passed s (s.updatePeerInformation lib cs) c := by
  obtain ⟨t, ht, hcs, hst⟩ := setPeerSDP_of_describable (s := { s with peerIceCandidates := cs }) hd
  have hlog := setPeerSDP_log { s with peerIceCandidates := cs } lib
  rw [ht] at hlog
  rw [Stream.updatePeerInformation, if_neg hp, if_pos hn, Stream.setPeerInformation, ht]
  rw [← hst] at hc
  rw [← show t.peerIceCandidates = cs from hcs] at hm
  exact (foldl_setPeerIceCandidate_passed (r := (true, t)) hm hc).extend hlog List.prefix_rfl

/-- Before the stream plays, in runs that add the peer before they update it. The third part also
says that nothing is passed again once it has been added; the fourth covers candidates that failed
before and candidates that are new. -/
theorem peer_information_in_order (h : machine.Reaches InTurn s) :
    (∀ before c ok, before ++ [.addIceCandidate c ok] <+: s.log →
      described before = true ∧ .addIceCandidate c true ∉ before) ∧
    (∀ before sdp ok, before ++ [.setRemoteDescription sdp ok] <+: s.log →
      lastSDP before = some sdp ∧ described before = false) ∧
    (∀ c, s.log.count (.addIceCandidate c true) ≤ 1) ∧
    (∀ lib cs c, lib.isPlaying ≠ some .playing → lib.isNegotiating = some .negotiating →
      Describable s lib → c ∈ cs → .addIceCandidate c true ∉ s.log →
      Passed s (s.updatePeerInformation lib cs) c) := by
  have hc := reaches_consistent h
  refine ⟨fun before c ok hp => hc.inOrder _ _ hp, fun before sdp ok hp => hc.inOrder _ _ hp,
    hc.inOrder.count_le_one, ?_⟩
  intro lib cs c hp hn hd hm hnew
  rw [← hc.stored] at hnew
  exact updatePeerInformation_passed hp hn hd hm hnew

def answering (state : Option HandleState) (succeeds : ℕ → Bool) : Answers :=
  ⟨state, state, succeeds⟩

def retryRun : List Event :=
  [.addPeerInformation (answering (some .idle) fun _ => true) "v=0" ["a"],
    .onStateChanged (answering (some .negotiating) fun _ => true) .negotiating,
    .updatePeerInformation (answering (some .negotiating) fun _ => false) ["a"]]

def retryLog : List Call :=
  [.addPeerInformation "v=0", .setRemoteDescription "v=0" true, .addIceCandidate "a" false]

theorem peer_information_in_order_retryRun : ∃ s, machine.Reaches InTurn s ∧ s.log = retryLog ∧
    Passed s (s.updatePeerInformation (answering (some .negotiating) fun _ => true) ["b", "a"])
      "a" := by
  obtain ⟨s, hs, hp⟩ := machine.exists_reaches InTurn retryRun
    (fun s => decide (s.remoteDescription = "" ∧ s.log = retryLog)) (by decide)
  obtain ⟨hd, hl⟩ := of_decide_eq_true hp
  refine ⟨s, hs, hl, (peer_information_in_order hs).2.2.2 _ _ _ ?_ rfl (.inl hd) ?_ ?_⟩
  · simp [answering]
  · simp
  · rw [hl]
    decide

/-- An update before any information was added passes a candidate without a description, and an
update that cannot read the state does not retry the candidate that failed. -/
theorem peer_information_out_of_order :
    (∃ s, machine.Reaches (fun _ e => BeforePlaying e) s ∧
      s.log = [.addIceCandidate "a" true]) ∧
    (∃ s, machine.Reaches InTurn s ∧ s.log = retryLog ∧
      BeforePlaying (.updatePeerInformation (answering none fun _ => true) ["a"]) ∧
      ¬ Passed s (s.updatePeerInformation (answering none fun _ => true) ["a"]) "a") := by
  constructor
  · obtain ⟨s, hs, hp⟩ := machine.exists_reaches (fun _ e => BeforePlaying e)
      [.updatePeerInformation (answering (some .negotiating) fun _ => true) ["a"]]
      (fun s => decide (s.log = [.addIceCandidate "a" true])) (by decide)
    exact ⟨s, hs, of_decide_eq_true hp⟩
  · obtain ⟨s, hs, hp⟩ := machine.exists_reaches InTurn retryRun
      (fun s => decide (s.log = retryLog)) (by decide)
    refine ⟨s, hs, of_decide_eq_true hp, by decide, ?_⟩
    rintro ⟨new, ok, hlog, hc⟩
    have hn : new = [] := by simpa [Stream.updatePeerInformation, answering] using hlog
    rw [hn] at hc
    cases hc

end WebRtcPeerInformation
