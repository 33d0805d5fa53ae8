import Aitt.AittTypes
import Aitt.TransitionRuns
import Mathlib.Algebra.Order.Ring.Int

/-! Frames through shared memory. The producer keeps the number of a frame inside the array that it
writes, at a fixed index, and the consumer takes an array for a new frame when the number is not
the one it saw last. `writeBytes` and `readBytes` are atomic. -/
namespace JavaIpc

open AittTypes TransitionRuns

def sizeInBytes : ℕ := 470000

def getFrameCountIndex : ℕ := 460900

def frameIndex : ℕ := 4

/-- `System.arraycopy` of all of `src` to `pos`; the caller knows that it fits. -/
def arraycopy (src array : Bytes) (pos : ℕ) : Bytes :=
  array.take pos ++ src ++ array.drop (pos + src.length)

def putInt (n : BitVec 32) : Bytes :=
  [.ofNat (n.toNat / 2 ^ 24), .ofNat (n.toNat / 2 ^ 16), .ofNat (n.toNat / 2 ^ 8), .ofNat n.toNat]

def getInt : Bytes → BitVec 32
  | [a, b, c, d] =>
    .ofNat 32 (a.toNat * 2 ^ 24 + b.toNat * 2 ^ 16 + c.toNat * 2 ^ 8 + d.toNat)
  | _ => 0

def consumerFrameCount (dataBytes : Bytes) : BitVec 32 :=
  getInt ((dataBytes.drop getFrameCountIndex).take frameIndex)

structure Push where
  dataBytes : Bytes
  writes : ℕ
  deriving DecidableEq, Repr

/-- Producer, region and consumer. The last two fields record what has been written and pushed. -/
structure State where
  byteLargeArray : Bytes
  frameCount : BitVec 32 := 1
  region : Bytes
  globalFrameCount : BitVec 32 := -1
  written : List Bytes := []
  pushed : List Push := []
  deriving DecidableEq, Repr

/-- A write may fail in `writeBytes`, a read in `readBytes` or in the callback. -/
inductive Event where
  | writeToMemory (byteArray : Bytes) (ok : Bool)
  | read (ok returns : Bool)
  deriving DecidableEq, Repr

namespace State

def filled (s : State) (byteArray : Bytes) : Bytes :=
  arraycopy (putInt s.frameCount) (arraycopy byteArray s.byteLargeArray 0) getFrameCountIndex

/-- An array that is too long is rejected by `arraycopy`. -/
def writeToMemory (s : State) (byteArray : Bytes) (ok : Bool) : State :=
  if byteArray.length ≤ sizeInBytes then
    if ok then
      { s with
        byteLargeArray := s.filled byteArray, region := s.filled byteArray
        frameCount := s.frameCount + 1, written := s.written ++ [byteArray] }
    else { s with byteLargeArray := s.filled byteArray }
  else s

def read (s : State) (ok returns : Bool) : State :=
  if ok = true ∧ s.globalFrameCount ≠ consumerFrameCount s.region then
    { s with
      pushed := s.pushed ++ [⟨s.region, s.written.length⟩]
      globalFrameCount :=
        if returns = true then consumerFrameCount s.region else s.globalFrameCount }
  else s

end State

def step (s : State) : Event → Option State
  | .writeToMemory byteArray ok => some (s.writeToMemory byteArray ok)
  | .read ok returns => some (s.read ok returns)

/-- The array of the producer is new; what the region holds at first is up to its allocation. -/
def machine (region : Bytes) : Machine State Event :=
  ⟨{ byteLargeArray := List.replicate sizeInBytes 0, region := region }, step⟩

def Intact (frameCount : BitVec 32) (byteArray : Bytes) : Prop :=
  ∀ j < frameIndex, getFrameCountIndex + j < byteArray.length →
    byteArray[getFrameCountIndex + j]? = (putInt frameCount)[j]?

section Arrays

theorem getInt_putInt (n : BitVec 32) : getInt (putInt n) = n := by
  have hlt := n.isLt
  have hsum : n.toNat / 2 ^ 24 % 2 ^ 8 * 2 ^ 24 + n.toNat / 2 ^ 16 % 2 ^ 8 * 2 ^ 16 +
      n.toNat / 2 ^ 8 % 2 ^ 8 * 2 ^ 8 + n.toNat % 2 ^ 8 = n.toNat := by omega
  simp only [putInt, getInt, UInt8.toNat_ofNat']
  rw [hsum, BitVec.ofNat_toNat, BitVec.setWidth_eq]

theorem length_putInt (n : BitVec 32) : (putInt n).length = frameIndex := rfl

theorem length_arraycopy {src array : Bytes} {pos : ℕ} (h : pos + src.length ≤ array.length) :
    (arraycopy src array pos).length = array.length := by
  simp only [arraycopy, List.length_append, List.length_take, List.length_drop]
  omega

theorem getElem?_arraycopy {src array : Bytes} {pos : ℕ} (h : pos + src.length ≤ array.length)
    (i : ℕ) : (arraycopy src array pos)[i]? =
      if pos ≤ i ∧ i < pos + src.length then src[i - pos]? else array[i]? := by
  have hl : (array.take pos).length = pos := by
    rw [List.length_take]
    omega
  rw [arraycopy, List.append_assoc]
  by_cases hlow : i < pos
  · rw [if_neg (by omega), List.getElem?_append_left (by omega), List.getElem?_take_of_lt hlow]
  · rw [List.getElem?_append_right (by omega), hl]
    by_cases hmid : i < pos + src.length
    · rw [if_pos (by omega), List.getElem?_append_left (by omega)]
    · rw [if_neg (by omega), List.getElem?_append_right (by omega), List.getElem?_drop]
      congr 1
      omega

theorem take_drop_arraycopy {src array : Bytes} {pos : ℕ} (h : pos + src.length ≤ array.length) :
    ((arraycopy src array pos).drop pos).take src.length = src := by
  have hl : (array.take pos).length = pos := by
    rw [List.length_take]
    omega
  rw [arraycopy, List.append_assoc, List.drop_append_of_le_length hl.ge, ← hl]
  simp

end Arrays

section Writes

variable {s : State} {byteArray : Bytes}

theorem arraycopy_frame_length (hs : s.byteLargeArray.length = sizeInBytes)
    (hl : byteArray.length ≤ sizeInBytes) :
    (arraycopy byteArray s.byteLargeArray 0).length = sizeInBytes := by
  rw [length_arraycopy (by omega), hs]

theorem putInt_fits {array : Bytes} (h : array.length = sizeInBytes) (n : BitVec 32) :
    getFrameCountIndex + (putInt n).length ≤ array.length := by
  rw [h, length_putInt]
  decide

theorem length_filled (hs : s.byteLargeArray.length = sizeInBytes)
    (hl : byteArray.length ≤ sizeInBytes) : (s.filled byteArray).length = sizeInBytes := by
  have hf := arraycopy_frame_length hs hl
  rw [State.filled, length_arraycopy (putInt_fits hf _), hf]

theorem consumerFrameCount_filled (hs : s.byteLargeArray.length = sizeInBytes)
    (hl : byteArray.length ≤ sizeInBytes) :
    consumerFrameCount (s.filled byteArray) = s.frameCount := by
  have hf := arraycopy_frame_length hs hl
  rw [consumerFrameCount, State.filled, ← length_putInt s.frameCount,
    take_drop_arraycopy (putInt_fits hf _), getInt_putInt]

theorem getElem?_filled (hs : s.byteLargeArray.length = sizeInBytes)
    (hl : byteArray.length ≤ sizeInBytes) {i : ℕ} (hi : i < byteArray.length) :
    (s.filled byteArray)[i]? =
      if getFrameCountIndex ≤ i ∧ i < getFrameCountIndex + frameIndex then
        (putInt s.frameCount)[i - getFrameCountIndex]?
      else byteArray[i]? := by
  have hf := arraycopy_frame_length hs hl
  have hframe : (arraycopy byteArray s.byteLargeArray 0)[i]? = byteArray[i]? := by
    rw [getElem?_arraycopy (by omega), if_pos (by omega), Nat.sub_zero]
  rw [State.filled, getElem?_arraycopy (putInt_fits hf _), length_putInt, hframe]

/-- The frame is what the array starts with unless its number has replaced other bytes. -/
theorem prefix_filled_iff (hs : s.byteLargeArray.length = sizeInBytes)
    (hl : byteArray.length ≤ sizeInBytes) :
    byteArray <+: s.filled byteArray ↔ Intact s.frameCount byteArray := by
  rw [List.prefix_iff_getElem?]
  constructor
  · intro h j hj hlt
    have hi := h _ hlt
    rw [getElem?_filled hs hl hlt, if_pos (by omega), Nat.add_sub_cancel_left] at hi
    rw [hi, List.getElem?_eq_getElem hlt]
  · intro h i hi
    rw [getElem?_filled hs hl hi, ← List.getElem?_eq_getElem hi]
    split
    · rename_i hmid
      have hj := h (i - getFrameCountIndex) (by omega) (by omega)
      rw [Nat.add_sub_cancel' hmid.1] at hj
      exact hj.symm
    · rfl

end Writes

/-- A step that does not reach the defects: the bytes of a frame survive the number, and an array
that is pushed holds a frame and meets a callback that returns. -/
def Sound (s : State) : Event → Prop
  | .writeToMemory byteArray ok =>
    ok = true → byteArray.length ≤ sizeInBytes → Intact s.frameCount byteArray
  | .read ok returns => ok = true → s.globalFrameCount ≠ consumerFrameCount s.region →
    s.written ≠ [] ∧ returns = true

instance (n : BitVec 32) (byteArray : Bytes) : Decidable (Intact n byteArray) :=
  inferInstanceAs (Decidable (∀ j < frameIndex, _ → _))

instance (s : State) : (e : Event) → Decidable (Sound s e)
  | .writeToMemory byteArray ok =>
    inferInstanceAs (Decidable (ok = true → byteArray.length ≤ sizeInBytes →
      Intact s.frameCount byteArray))
  | .read ok returns =>
    inferInstanceAs (Decidable (ok = true → s.globalFrameCount ≠ consumerFrameCount s.region →
      s.written ≠ [] ∧ returns = true))

structure Numbered (s : State) : Prop where
  length : s.byteLargeArray.length = sizeInBytes
  frameCount : s.frameCount = .ofNat 32 (s.written.length + 1)
  region : ∀ frame ∈ s.written.getLast?, frame <+: s.region
  number : s.written ≠ [] → consumerFrameCount s.region = .ofNat 32 s.written.length
  global : ∀ p ∈ s.pushed.getLast?, s.globalFrameCount = .ofNat 32 p.writes

/-- What was pushed: each array starts with the frame written last before it, and the frames are in
order and distinct. -/
structure Faithful (s : State) : Prop where
  starts : ∀ p ∈ s.pushed, 0 < p.writes ∧
    ∃ frame, s.written[p.writes - 1]? = some frame ∧ frame <+: p.dataBytes
  ordered : s.pushed.Pairwise (·.writes < ·.writes)

theorem Faithful.writes_le {s : State} (h : Faithful s) {p : Push} (hp : p ∈ s.pushed) :
    p.writes ≤ s.written.length := by
  obtain ⟨hpos, frame, hf, -⟩ := h.starts p hp
  have hlt := (List.getElem?_eq_some_iff.mp hf).1
  omega

theorem Faithful.writes_le_last {s : State} (h : Faithful s) {p l : Push} (hp : p ∈ s.pushed)
    (hl : s.pushed.getLast? = some l) : p.writes ≤ l.writes := by
  obtain ⟨earlier, he⟩ := List.getLast?_eq_some_iff.mp hl
  have ho := h.ordered
  rw [he, List.pairwise_append] at ho
  rw [he] at hp
  rcases List.mem_append.mp hp with hp | hp
  · exact (ho.2.2 p hp l (by simp)).le
  · rw [List.mem_singleton.mp hp]

theorem writeToMemory_numbered {s : State} {byteArray : Bytes} {ok : Bool} (h : Numbered s)
    (hok : Sound s (.writeToMemory byteArray ok)) : Numbered (s.writeToMemory byteArray ok) := by
  unfold State.writeToMemory
  split
  · rename_i hl
    split
    · rename_i hw
      refine ⟨length_filled h.length hl, ?_, ?_, fun _ => ?_, h.global⟩
      · rw [h.frameCount, List.length_append]
        simp [BitVec.ofNat_add]
      · intro frame hf
        obtain rfl : byteArray = frame := by simpa using hf
        exact (prefix_filled_iff h.length hl).mpr (hok hw hl)
      · rw [consumerFrameCount_filled h.length hl, h.frameCount, List.length_append]
        rfl
    · exact ⟨length_filled h.length hl, h.frameCount, h.region, h.number, h.global⟩
  · exact h

theorem writeToMemory_faithful {s : State} (h : Faithful s) (byteArray : Bytes) (ok : Bool) :
    Faithful (s.writeToMemory byteArray ok) := by
  unfold State.writeToMemory
  split
  · split
    · refine ⟨fun p hp => ?_, h.ordered⟩
      obtain ⟨hpos, frame, hf, hp⟩ := h.starts p hp
      have hlt := (List.getElem?_eq_some_iff.mp hf).1
      exact ⟨hpos, frame, by rw [List.getElem?_append_left hlt, hf], hp⟩
    · exact ⟨h.starts, h.ordered⟩
  · exact h

theorem read_numbered {s : State} {ok returns : Bool} (h : Numbered s)
    (hok : Sound s (.read ok returns)) : Numbered (s.read ok returns) := by
  unfold State.read
  split
  · rename_i hnew
    obtain ⟨hw, hr⟩ := hok hnew.1 hnew.2
    refine ⟨h.length, h.frameCount, h.region, h.number, fun p hp => ?_⟩
    obtain rfl : ⟨s.region, s.written.length⟩ = p := by simpa using hp
    rw [if_pos hr]
    exact h.number hw
  · exact h

theorem read_faithful {s : State} {ok returns : Bool} (h : Faithful s) (hn : Numbered s)
    (hok : Sound s (.read ok returns)) : Faithful (s.read ok returns) := by
  unfold State.read
  split
  · rename_i hnew
    obtain ⟨hw, -⟩ := hok hnew.1 hnew.2
    have hpos : 0 < s.written.length := List.length_pos_iff.mpr hw
    constructor
    · intro p hp
      rcases List.mem_append.mp hp with hp | hp
      · exact h.starts p hp
      · obtain rfl := List.mem_singleton.mp hp
        have hlast : s.written[s.written.length - 1]? = some (s.written.getLast hw) := by
          rw [← List.getLast?_eq_getElem?, List.getLast?_eq_some_getLast hw]
        exact ⟨hpos, _, hlast, hn.region _ (List.getLast?_eq_some_getLast hw)⟩
    · rw [List.pairwise_append]
      refine ⟨h.ordered, List.pairwise_singleton _ _, fun p hp q hq => ?_⟩
      obtain rfl := List.mem_singleton.mp hq
      have hne : s.pushed ≠ [] := List.ne_nil_of_mem hp
      have hlast := List.getLast?_eq_some_getLast hne
      have hle := h.writes_le_last hp hlast
      have hlt := h.writes_le (List.getLast_mem hne)
      -- the consumer remembers the number of the last push, so an equal count is not pushed again
      have hother : (s.pushed.getLast hne).writes ≠ s.written.length := by
        intro he
        apply hnew.2
        rw [hn.global _ hlast, hn.number hw, he]
      show p.writes < s.written.length
      omega
  · exact h

theorem reaches_faithful {region : Bytes} {s : State} (h : (machine region).Reaches Sound s) :
    Numbered s ∧ Faithful s := by
  refine h.invariant (I := fun s => Numbered s ∧ Faithful s) ?_ fun s e t _ hs hok he => ?_
  · constructor
    · constructor <;> simp [machine]
    · constructor <;> simp [machine]
  · cases e with
    | writeToMemory byteArray ok =>
      cases he
      exact ⟨writeToMemory_numbered hs.1 hok, writeToMemory_faithful hs.2 _ _⟩
    | read ok returns =>
      cases he
      exact ⟨read_numbered hs.1 hok, read_faithful hs.2 hs.1 hok⟩

/-- A write that fails leaves nothing behind that the next one does not overwrite. -/
theorem writeToMemory_after_failure {s : State} (h : Numbered s) (failed byteArray : Bytes)
    (hl : byteArray.length ≤ sizeInBytes) :
    let t := (s.writeToMemory failed false).writeToMemory byteArray true
    t.written = s.written ++ [byteArray] ∧ t.frameCount = s.frameCount + 1 ∧
      consumerFrameCount t.region = s.frameCount ∧
      (byteArray <+: t.region ↔ Intact s.frameCount byteArray) := by
  have hf : Numbered (s.writeToMemory failed false) :=
    writeToMemory_numbered h fun hn => by cases hn
  have hsame : (s.writeToMemory failed false).frameCount = s.frameCount ∧
      (s.writeToMemory failed false).written = s.written := by
    unfold State.writeToMemory
    split <;> exact ⟨rfl, rfl⟩
  obtain ⟨hcount, hwritten⟩ := hsame
  intro t
  have ht : t = (s.writeToMemory failed false).writeToMemory byteArray true := rfl
  rw [State.writeToMemory, if_pos hl, if_pos rfl] at ht
  rw [ht]
  refine ⟨by rw [← hwritten], by rw [← hcount], ?_, ?_⟩
  · rw [← hcount]
    exact consumerFrameCount_filled hf.length hl
  · rw [← hcount]
    exact prefix_filled_iff hf.length hl

theorem read_eq_push {s : State} (h : s.globalFrameCount ≠ consumerFrameCount s.region)
    (returns : Bool) : s.read true returns = { s with
      pushed := s.pushed ++ [⟨s.region, s.written.length⟩]
      globalFrameCount :=
        if returns = true then consumerFrameCount s.region else s.globalFrameCount } :=
  if_pos ⟨rfl, h⟩

theorem pushed_subset_read (s : State) (ok returns : Bool) :
    s.pushed ⊆ (s.read ok returns).pushed := by
  unfold State.read
  split
  · exact List.subset_append_left _ _
  · exact List.Subset.refl _

/-- A read that is not sound pushes the first content of the region, or leads to a second push of
the same frame. -/
theorem not_faithful_of_read {s : State} {returns : Bool} (h : ¬ Sound s (.read true returns)) :
    ¬ Faithful ((s.read true returns).read true true) := by
  intro hf
  obtain ⟨-, hnew, hbad⟩ : true = true ∧ s.globalFrameCount ≠ consumerFrameCount s.region ∧
      ¬ (s.written ≠ [] ∧ returns = true) := by simpa only [Sound, not_forall, exists_prop] using h
  have hread := read_eq_push hnew returns
  by_cases hw : s.written = []
  · have hp : ⟨s.region, 0⟩ ∈ ((s.read true returns).read true true).pushed := by
      apply pushed_subset_read
      rw [hread, hw]
      simp
    exact Nat.lt_irrefl 0 (hf.starts _ hp).1
  · have hr : returns = false := by
      cases returns with
      | false => rfl
      | true => exact absurd ⟨hw, rfl⟩ hbad
    subst hr
    have hagain : (s.read true false).globalFrameCount ≠
        consumerFrameCount (s.read true false).region := by
      rw [hread]
      exact hnew
    rw [read_eq_push hagain, hread] at hf
    have ho := (List.pairwise_append.mp hf.ordered).2.2 _
      (List.mem_append_right _ (List.mem_singleton_self _)) _ (List.mem_singleton_self _)
    exact Nat.lt_irrefl _ ho

/-- A frame that the number damages is pushed damaged. -/
theorem not_faithful_of_write {s : State} (hn : Numbered s) {byteArray : Bytes}
    (hl : byteArray.length ≤ sizeInBytes) (hi : ¬ Intact s.frameCount byteArray)
    (hnew : s.globalFrameCount ≠ s.frameCount) :
    ¬ Faithful ((s.writeToMemory byteArray true).read true true) := by
  intro hf
  rw [State.writeToMemory, if_pos hl, if_pos rfl, read_eq_push] at hf
  · obtain ⟨-, frame, hframe, hp⟩ :=
      hf.starts _ (List.mem_append_right _ (List.mem_singleton_self _))
    obtain rfl : byteArray = frame := by simpa using hframe
    exact hi ((prefix_filled_iff hn.length hl).mp hp)
  · rwa [consumerFrameCount_filled hn.length hl]

/-- In every run of sound steps what has been pushed is faithful, and a failing write does not show
in the next one. After a step that is not sound the next read is not faithful, unless it finds the
number that the consumer saw last. -/
theorem shared_memory_faithful {region : Bytes} {s : State}
    (h : (machine region).Reaches Sound s) :
    Faithful s ∧
    (∀ failed byteArray : Bytes, byteArray.length ≤ sizeInBytes →
      let t := (s.writeToMemory failed false).writeToMemory byteArray true
      t.written = s.written ++ [byteArray] ∧ t.frameCount = s.frameCount + 1 ∧
        consumerFrameCount t.region = s.frameCount ∧
        (byteArray <+: t.region ↔ Intact s.frameCount byteArray)) ∧
    (∀ returns, ¬ Sound s (.read true returns) →
      ¬ Faithful ((s.read true returns).read true true)) ∧
    ∀ byteArray : Bytes, byteArray.length ≤ sizeInBytes → ¬ Intact s.frameCount byteArray →
      s.globalFrameCount ≠ s.frameCount →
      ¬ Faithful ((s.writeToMemory byteArray true).read true true) := by
  obtain ⟨hn, hf⟩ := reaches_faithful h
  refine ⟨hf, fun failed byteArray => writeToMemory_after_failure hn failed byteArray, ?_, ?_⟩
  · intro returns hs
    exact not_faithful_of_read hs
  · intro byteArray hl hi hnew
    exact not_faithful_of_write hn hl hi hnew

section FirstFrame

variable (region byteArray : Bytes)

def firstFrame : State := ((machine region).initial.writeToMemory byteArray true).read true true

theorem firstFrame_eq (hl : byteArray.length ≤ sizeInBytes) :
    (firstFrame region byteArray).written = [byteArray] ∧
      (firstFrame region byteArray).pushed = [⟨(machine region).initial.filled byteArray, 1⟩] := by
  have hlen : (machine region).initial.byteLargeArray.length = sizeInBytes :=
    List.length_replicate
  have hcount := consumerFrameCount_filled hlen hl
  have hnew : (-1 : BitVec 32) ≠ 1 := by decide
  have hwrite : (machine region).initial.writeToMemory byteArray true =
      { (machine region).initial with
        byteLargeArray := (machine region).initial.filled byteArray
        region := (machine region).initial.filled byteArray
        frameCount := 2, written := [byteArray] } := by
    rw [State.writeToMemory, if_pos hl, if_pos rfl]
    rfl
  rw [firstFrame, hwrite, State.read, if_pos]
  · exact ⟨rfl, rfl⟩
  · refine ⟨rfl, ?_⟩
    show (-1 : BitVec 32) ≠ consumerFrameCount ((machine region).initial.filled byteArray)
    rw [hcount]
    exact hnew

end FirstFrame

theorem shared_memory_faithful_short :
    ∃ s, (machine (List.replicate sizeInBytes 0)).Reaches Sound s ∧ s.written = [[1, 2, 3]] ∧
      s.pushed.length = 1 ∧ Faithful s := by
  have hl : ([1, 2, 3] : Bytes).length ≤ sizeInBytes := by decide
  obtain ⟨hw, hp⟩ := firstFrame_eq (List.replicate sizeInBytes 0) [1, 2, 3] hl
  have hreach : (machine (List.replicate sizeInBytes 0)).Reaches Sound
      (firstFrame (List.replicate sizeInBytes 0) [1, 2, 3]) := by
    apply Machine.Reaches.step
      (e := .read true true) (.step (e := .writeToMemory [1, 2, 3] true) .initial ?_ rfl) ?_ rfl
    · intro _ _ j _ hj
      simp only [getFrameCountIndex, List.length_cons, List.length_nil] at hj
      omega
    · intro _ _
      rw [State.writeToMemory, if_pos hl, if_pos rfl]
      exact ⟨by simp, rfl⟩
  exact ⟨_, hreach, hw, by rw [hp, List.length_singleton], (shared_memory_faithful hreach).1⟩

theorem consumerFrameCount_zeros {n : ℕ} (h : getFrameCountIndex + frameIndex ≤ n) :
    consumerFrameCount (List.replicate n 0) = 0 := by
  have hmin : min frameIndex (n - getFrameCountIndex) = 4 := by
    unfold frameIndex at *
    omega
  rw [consumerFrameCount, List.drop_replicate, List.take_replicate, hmin]
  rfl

/-- A read before the first write pushes what the region was allocated with, and the number
replaces four bytes of a frame as long as the region. -/
theorem shared_memory_not_faithful :
    (∃ s, (machine (List.replicate sizeInBytes 0)).Reachable s ∧ s.written = [] ∧
      s.pushed = [⟨List.replicate sizeInBytes 0, 0⟩]) ∧
    (∃ s frame p, (machine (List.replicate sizeInBytes 0)).Reachable s ∧
      frame.length = sizeInBytes ∧ s.written = [frame] ∧ s.pushed = [p] ∧
      ¬ frame <+: p.dataBytes) := by
  constructor
  · refine ⟨(machine (List.replicate sizeInBytes 0)).initial.read true true,
      .step (e := .read true true) .initial trivial rfl, ?_⟩
    have hnew : (-1 : BitVec 32) ≠ consumerFrameCount (List.replicate sizeInBytes 0) := by
      rw [consumerFrameCount_zeros (by decide)]
      decide
    rw [State.read, if_pos ⟨rfl, hnew⟩]
    exact ⟨rfl, rfl⟩
  · have hlen : (List.replicate sizeInBytes (7 : UInt8)).length = sizeInBytes :=
      List.length_replicate
    obtain ⟨hw, hp⟩ := firstFrame_eq (List.replicate sizeInBytes 0) _ hlen.le
    refine ⟨_, _, _, .step (e := .read true true)
      (.step (e := .writeToMemory (List.replicate sizeInBytes 7) true) .initial trivial rfl)
      trivial rfl, hlen, hw, hp, ?_⟩
    rw [prefix_filled_iff List.length_replicate hlen.le]
    intro hintact
    have hzero := hintact 0 (by decide) (by rw [hlen]; decide)
    rw [List.getElem?_replicate, if_pos (by decide)] at hzero
    exact absurd hzero (by decide)

end JavaIpc
