import Aitt.AittTypes
import Aitt.TransitionRuns

/-! The decoders of the Java RTSP client. Each session makes new ones. The listener initialises
a decoder with the first frame, by a state of the client that no session resets, and hands the
others to the decoder that is there. A decoder feeds its codec on a thread of its own. -/
namespace JavaRtspDecoders

open AittTypes TransitionRuns

inductive DecoderState where
  | init
  | ready
  deriving DecidableEq, Repr

/-- How the initialisation of a decoder ends: it throws, it catches the failure of the codec, or
the codec runs. -/
inductive Outcome where
  | throws
  | fails
  | starts
  deriving DecidableEq, Repr

structure DecoderClass (δ ε : Type) where
  new : δ
  initDecoder : δ → Outcome → δ
  setRawData : δ → Bytes → δ
  stopDecoder : δ → δ
  work : δ → ε → Option δ

/-- The decoders of one class that the client has made. `first` records which one was
initialised. -/
structure Track (δ : Type) where
  decoder : Option ℕ := none
  decoders : List δ := []
  decoderState : DecoderState := .init
  first : Option ℕ := none
  deriving DecidableEq, Repr

namespace Track

variable {δ ε : Type} (C : DecoderClass δ ε)

def make (s : Track δ) : Track δ :=
  { s with decoder := some s.decoders.length, decoders := s.decoders ++ [C.new] }

/-- Without a decoder the listener throws. -/
def receive (s : Track δ) (data : Bytes) (o : Outcome) : Track δ :=
  match s.decoder with
  | none => s
  | some k =>
    match s.decoderState with
    | .init =>
      let s := { s with decoders := s.decoders.modify k (C.initDecoder · o) }
      if o = .throws then s else { s with decoderState := .ready, first := some k }
    | .ready => { s with decoders := s.decoders.modify k (C.setRawData · data) }

def stop (s : Track δ) : Track δ :=
  match s.decoder with
  | none => s
  | some k => { s with decoders := s.decoders.modify k C.stopDecoder }

def work (s : Track δ) (k : ℕ) (e : ε) : Option (Track δ) :=
  s.decoders[k]?.bind fun d =>
    (C.work d e).map fun d' => { s with decoders := s.decoders.set k d' }

inductive Event (ε : Type) where
  | make
  | receive (data : Bytes) (o : Outcome)
  | stop
  | work (k : ℕ) (e : ε)

def step (s : Track δ) : Event ε → Option (Track δ)
  | .make => some (s.make C)
  | .receive data o => some (s.receive C data o)
  | .stop => some (s.stop C)
  | .work k e => s.work C k e

def machine : Machine (Track δ) (Event ε) := ⟨{}, step C⟩

/-- What a step leaves at a place of the list: what was there, a new decoder, or the result of
one operation; what is called on a decoder from outside is called on the current one. -/
inductive Becomes (s : Track δ) (k : ℕ) : Event ε → δ → Prop where
  | same {e d} : s.decoders[k]? = some d → Becomes s k e d
  | made : k = s.decoders.length → Becomes s k .make C.new
  | initialised {data o d} : s.decoder = some k → s.decoderState = .init →
      s.decoders[k]? = some d → Becomes s k (.receive data o) (C.initDecoder d o)
  | received {data o d} : s.decoder = some k → s.decoderState = .ready →
      s.decoders[k]? = some d → Becomes s k (.receive data o) (C.setRawData d data)
  | stopped {d} : s.decoder = some k → s.decoders[k]? = some d →
      Becomes s k .stop (C.stopDecoder d)
  | worked {e d d'} : s.decoders[k]? = some d → C.work d e = some d' →
      Becomes s k (.work k e) d'

variable {C} {s t : Track δ} {k : ℕ} {d : δ} {e : Event ε}

theorem modify_cases {l : List δ} {f : δ → δ} {j : ℕ} (h : (l.modify j f)[k]? = some d) :
    l[k]? = some d ∨ k = j ∧ ∃ a, l[k]? = some a ∧ d = f a := by
  rw [List.getElem?_modify] at h
  obtain ⟨a, ha, hd⟩ := Option.map_eq_some_iff.mp h
  by_cases hj : j = k
  · rw [if_pos hj] at hd
    exact .inr ⟨hj.symm, a, ha, hd.symm⟩
  · rw [if_neg hj] at hd
    exact .inl (by rw [ha]; exact congrArg some hd)

theorem becomes (ht : s.step C e = some t) (hd : t.decoders[k]? = some d) :
    Becomes C s k e d := by
  cases e with
  | make =>
    cases ht
    have hd' : (s.decoders ++ [C.new])[k]? = some d := hd
    by_cases hk : k < s.decoders.length
    · rw [List.getElem?_append_left hk] at hd'
      exact .same hd'
    · rw [List.getElem?_append_right (Nat.le_of_not_lt hk)] at hd'
      obtain ⟨hlt, hget⟩ := List.getElem?_eq_some_iff.mp hd'
      have hk' : k = s.decoders.length := by
        rw [List.length_singleton] at hlt
        omega
      rw [List.getElem_singleton] at hget
      exact hget ▸ .made hk'
  | receive data o =>
    cases ht
    simp only [receive] at hd
    split at hd
    · exact .same hd
    · rename_i j hj
      split at hd
      · rename_i hs
        have hmod : (s.decoders.modify j (C.initDecoder · o))[k]? = some d := by
          split at hd <;> exact hd
        rcases modify_cases hmod with hsame | ⟨rfl, a, ha, rfl⟩
        · exact .same hsame
        · exact .initialised hj hs ha
      · rename_i hs
        rcases modify_cases hd with hsame | ⟨rfl, a, ha, rfl⟩
        · exact .same hsame
        · exact .received hj hs ha
  | stop =>
    cases ht
    simp only [stop] at hd
    split at hd
    · exact .same hd
    · rename_i j hj
      rcases modify_cases hd with hsame | ⟨rfl, a, ha, rfl⟩
      · exact .same hsame
      · exact .stopped hj ha
  | work j w =>
    obtain ⟨a, ha, ht⟩ := Option.bind_eq_some_iff.mp ht
    obtain ⟨a', hw, rfl⟩ := Option.map_eq_some_iff.mp ht
    have hset : (s.decoders.set j a')[k]? = some d := hd
    by_cases hj : j = k
    · subst hj
      have hlt := (List.getElem?_eq_some_iff.mp ha).1
      rw [List.getElem?_set_self hlt] at hset
      obtain rfl := Option.some.inj hset
      exact .worked ha hw
    · rw [List.getElem?_set_ne hj] at hset
      exact .same hset

/-- New decoders have the property, and no operation takes it away; of initialisations those
that end with one of these outcomes. -/
structure Kept (C : DecoderClass δ ε) (os : Outcome → Prop) (P : δ → Prop) : Prop where
  new : P C.new
  initDecoder : ∀ d o, os o → P d → P (C.initDecoder d o)
  setRawData : ∀ d data, P d → P (C.setRawData d data)
  stopDecoder : ∀ d, P d → P (C.stopDecoder d)
  work : ∀ d e d', P d → C.work d e = some d' → P d'

def Every (P : δ → Prop) (s : Track δ) : Prop :=
  ∀ (k : ℕ) (d : δ), s.decoders[k]? = some d → P d

def Others (P : δ → Prop) (s : Track δ) : Prop :=
  ∀ (k : ℕ) (d : δ), s.decoders[k]? = some d → s.first ≠ some k → P d

variable {P : δ → Prop}

theorem every_decoder (hP : Kept C (fun _ => True) P) (h : (machine C).Reachable s) :
    Every P s := by
  refine h.invariant ?_ ?_
  · intro k d hd
    cases hd
  · intro s e t _ hi _ ht k d hd
    cases becomes ht hd with
    | same hs => exact hi k d hs
    | made => exact hP.new
    | initialised _ _ ha => exact hP.initDecoder _ _ trivial (hi k _ ha)
    | received _ _ ha => exact hP.setRawData _ _ (hi k _ ha)
    | stopped _ ha => exact hP.stopDecoder _ (hi k _ ha)
    | worked ha hw => exact hP.work _ _ _ (hi k _ ha) hw

structure Sound (s : Track δ) : Prop where
  decoder : ∀ k ∈ s.decoder, k < s.decoders.length
  first : ∀ k ∈ s.first, k < s.decoders.length
  ready : s.decoderState = .ready ↔ s.first ≠ none

theorem step_length (ht : s.step C e = some t) : s.decoders.length ≤ t.decoders.length := by
  cases e with
  | make =>
    cases ht
    simp [make]
  | receive data o =>
    cases ht
    simp only [receive]
    split
    · exact le_rfl
    · split
      · split <;> simp
      · simp
  | stop =>
    cases ht
    simp only [stop]
    split <;> simp
  | work j w =>
    obtain ⟨a, -, ht⟩ := Option.bind_eq_some_iff.mp ht
    obtain ⟨a', -, rfl⟩ := Option.map_eq_some_iff.mp ht
    simp

/-- The frame that initialises a decoder is the only step at which `first` changes. -/
theorem step_first (ht : s.step C e = some t) :
    (t.first = s.first ∧ t.decoderState = s.decoderState) ∨
      ∃ k data o, e = .receive data o ∧ s.decoder = some k ∧ s.decoderState = .init ∧
        o ≠ .throws ∧ t.first = some k ∧ t.decoderState = .ready := by
  cases e with
  | make =>
    cases ht
    exact .inl ⟨rfl, rfl⟩
  | receive data o =>
    cases ht
    simp only [receive]
    split
    · exact .inl ⟨rfl, rfl⟩
    · rename_i k hk
      split
      · rename_i hs
        by_cases ho : o = .throws
        · rw [if_pos ho]
          exact .inl ⟨rfl, rfl⟩
        · rw [if_neg ho]
          exact .inr ⟨k, data, o, rfl, hk, hs, ho, rfl, rfl⟩
      · exact .inl ⟨rfl, rfl⟩
  | stop =>
    cases ht
    simp only [stop]
    split <;> exact .inl ⟨rfl, rfl⟩
  | work j w =>
    obtain ⟨a, -, ht⟩ := Option.bind_eq_some_iff.mp ht
    obtain ⟨a', -, rfl⟩ := Option.map_eq_some_iff.mp ht
    exact .inl ⟨rfl, rfl⟩

theorem step_decoder (ht : s.step C e = some t) :
    t.decoder = s.decoder ∨
      t.decoder = some s.decoders.length ∧ t.decoders.length = s.decoders.length + 1 := by
  cases e with
  | make =>
    cases ht
    exact .inr ⟨rfl, by simp [make]⟩
  | receive data o =>
    cases ht
    simp only [receive]
    left
    split
    · rfl
    · split
      · split <;> rfl
      · rfl
  | stop =>
    cases ht
    simp only [stop]
    left
    split <;> rfl
  | work j w =>
    obtain ⟨a, -, ht⟩ := Option.bind_eq_some_iff.mp ht
    obtain ⟨a', -, rfl⟩ := Option.map_eq_some_iff.mp ht
    exact .inl rfl

theorem Sound.step (h : Sound s) (ht : s.step C e = some t) : Sound t := by
  have hlen := step_length ht
  refine ⟨?_, ?_, ?_⟩
  · intro k hk
    rcases step_decoder ht with hd | ⟨hd, hl⟩
    · exact (h.decoder k (hd ▸ hk)).trans_le hlen
    · rw [hd] at hk
      cases hk
      omega
  · intro k hk
    rcases step_first ht with ⟨hf, -⟩ | ⟨j, -, -, -, hj, -, -, hf, -⟩
    · exact (h.first k (hf ▸ hk)).trans_le hlen
    · rw [hf] at hk
      cases hk
      exact (h.decoder _ hj).trans_le hlen
  · rcases step_first ht with ⟨hf, hs⟩ | ⟨j, -, -, -, -, -, -, hf, hs⟩
    · rw [hf, hs]
      exact h.ready
    · simp [hf, hs]

theorem Sound.reachable (h : (machine C).Reachable s) : Sound s := by
  refine h.invariant ⟨?_, ?_, by simp [machine]⟩ fun s e t _ hi _ ht => hi.step ht
  · intro k hk
    cases hk
  · intro k hk
    cases hk

/-- No step takes `first` back. -/
theorem Sound.first_stays (h : Sound s) (ht : s.step C e = some t) {k : ℕ}
    (hk : s.first = some k) : t.first = some k := by
  rcases step_first ht with ⟨hf, -⟩ | ⟨j, -, -, -, -, hs, -, -, -⟩
  · rw [hf, hk]
  · have hready := h.ready.mpr (by simp [hk])
    rw [hs] at hready
    cases hready

theorem Sound.first_stays_exec (h : Sound s) {es : List (Event ε)}
    (he : (machine C).exec s es = some t) {k : ℕ} (hk : s.first = some k) :
    t.first = some k := by
  induction es generalizing s with
  | nil =>
    obtain rfl := Option.some.inj he
    exact hk
  | cons e es ih =>
    obtain ⟨u, hu, ht⟩ := Option.bind_eq_some_iff.mp he
    exact ih (h.step hu) ht (h.first_stays hu hk)

/-- What holds of a decoder until it is initialised holds of all but the first. -/
theorem other_decoders (hP : Kept C (· = .throws) P) (h : (machine C).Reachable s) :
    Others P s := by
  refine h.invariant ?_ ?_
  · intro k d hd
    cases hd
  · intro s e t hs hi _ ht k d hd hk
    have hk' : s.first ≠ some k := fun hf => hk ((Sound.reachable hs).first_stays ht hf)
    cases becomes ht hd with
    | same ha => exact hi k d ha hk'
    | made => exact hP.new
    | @initialised data o a hj hst ha =>
      by_cases ho : o = .throws
      · exact hP.initDecoder _ _ ho (hi k _ ha hk')
      · refine absurd ?_ hk
        cases ht
        simp only [receive, hj, hst, ho, if_false]
    | received _ _ ha => exact hP.setRawData _ _ (hi k _ ha hk')
    | stopped _ ha => exact hP.stopDecoder _ (hi k _ ha hk')
    | worked ha hw => exact hP.work _ _ _ (hi k _ ha hk') hw

/-- Once a decoder was initialised, those that are made later stay as they are. -/
theorem later_decoders (hP : Kept C (· = .throws) P) (h : (machine C).Reachable s)
    (hr : s.decoderState = .ready) {es : List (Event ε)}
    (he : (machine C).exec s es = some t) (hk : s.decoders.length ≤ k)
    (hd : t.decoders[k]? = some d) : P d := by
  have hs := Sound.reachable h
  obtain ⟨j, hj⟩ := Option.ne_none_iff_exists'.mp (hs.ready.mp hr)
  refine other_decoders hP (Machine.Reaches.exec h he) k d hd ?_
  rw [hs.first_stays_exec he hj]
  intro hjk
  have hlt := hs.first j hj
  rw [Option.some.inj hjk] at hlt
  omega

def Retired (s : Track δ) (k : ℕ) (P : δ → Prop) : Prop :=
  s.decoder ≠ some k ∧ ∃ d, s.decoders[k]? = some d ∧ P d

theorem Retired.step (hw : ∀ d e d', P d → C.work d e = some d' → P d') (h : Retired s k P)
    (ht : s.step C e = some t) : Retired t k P := by
  obtain ⟨hk, d, hd, hp⟩ := h
  have hlt := (List.getElem?_eq_some_iff.mp hd).1
  refine ⟨?_, ?_⟩
  · rcases step_decoder ht with hsame | ⟨hnew, -⟩
    · rw [hsame]
      exact hk
    · rw [hnew]
      intro he
      exact absurd (Option.some.inj he) hlt.ne'
  · have hlt' : k < t.decoders.length := hlt.trans_le (step_length ht)
    refine ⟨t.decoders[k], List.getElem?_eq_getElem hlt', ?_⟩
    have hb := becomes ht (List.getElem?_eq_getElem hlt')
    generalize t.decoders[k] = d' at hb
    cases hb with
    | same ha =>
      rw [hd] at ha
      exact Option.some.inj ha ▸ hp
    | made he => exact absurd he hlt.ne
    | initialised hj _ _ => exact absurd hj hk
    | received hj _ _ => exact absurd hj hk
    | stopped hj _ => exact absurd hj hk
    | worked ha he =>
      rw [hd] at ha
      exact hw _ _ _ (Option.some.inj ha ▸ hp) he

theorem Retired.exec (hw : ∀ d e d', P d → C.work d e = some d' → P d') (h : Retired s k P)
    {es : List (Event ε)} (he : (machine C).exec s es = some t) : Retired t k P := by
  induction es generalizing s with
  | nil =>
    obtain rfl := Option.some.inj he
    exact h
  | cons e es ih =>
    obtain ⟨u, hu, ht⟩ := Option.bind_eq_some_iff.mp he
    exact ih (h.step hw hu) ht

end Track

/-- The job that the input thread runs: it waits for a frame, has read one, or has taken it out
of the slot. -/
inductive Job where
  | idle
  | waiting
  | read (frame : Bytes)
  | cleared (frame : Bytes)
  deriving DecidableEq, Repr

/-- `mCodec` says that the codec runs, `posted` counts the jobs of the input thread. `received`
and `queued` record the frames that came in and those that the codec got. -/
structure H264Decoder where
  iFrame : Option Bytes := none
  inputBufferThread : Bool := false
  mCodec : Bool := false
  posted : ℕ := 0
  job : Job := .idle
  received : List Bytes := []
  queued : List Bytes := []
  deriving DecidableEq, Repr

namespace H264Decoder

def initH264Decoder (d : H264Decoder) (o : Outcome) : H264Decoder :=
  { d with inputBufferThread := true, mCodec := o = .starts }

def setRawH264Data (d : H264Decoder) (data : Bytes) : H264Decoder :=
  { d with iFrame := some data, received := d.received ++ [data] }

/-- `quit` drops the jobs that have not begun. -/
def stopDecoder (d : H264Decoder) : H264Decoder :=
  { d with inputBufferThread := false, mCodec := false, posted := 0 }

/-- A turn of the loop over `nextFrame` is a step, and so are the two parts of a job that
another thread can come between. An exception ends the job. -/
inductive Work where
  | onInputBufferAvailable
  | begin (ok : Bool)
  | nextFrame
  | put (ok : Bool)
  | queueInputBuffer (ok : Bool)

def work (d : H264Decoder) : Work → Option H264Decoder
  | .onInputBufferAvailable => if d.mCodec then some { d with posted := d.posted + 1 } else none
  | .begin ok =>
    if d.inputBufferThread ∧ 0 < d.posted ∧ d.job = .idle then
      some { d with posted := d.posted - 1, job := if ok then .waiting else .idle }
    else none
  | .nextFrame =>
    match d.job, d.iFrame with
    | .waiting, none => some d
    | .waiting, some frame => some { d with job := .read frame }
    | _, _ => none
  | .put ok =>
    match d.job with
    | .read frame =>
      if ok then some { d with iFrame := none, job := .cleared frame }
      else some { d with job := .idle }
    | _ => none
  | .queueInputBuffer ok =>
    match d.job with
    | .cleared frame =>
      some { d with job := .idle, queued := if ok then d.queued ++ [frame] else d.queued }
    | _ => none

def decoderClass : DecoderClass H264Decoder Work where
  new := {}
  initDecoder := initH264Decoder
  setRawData := setRawH264Data
  stopDecoder := stopDecoder
  work := work

def taken (d : H264Decoder) : List Bytes :=
  match d.job with
  | .cleared frame => [frame]
  | _ => []

structure InOrder (d : H264Decoder) : Prop where
  slot : (d.queued ++ d.taken ++ d.iFrame.toList).Sublist d.received
  read : ∀ frame, d.job = .read frame → (d.queued ++ [frame]).Sublist d.received

variable {d d' : H264Decoder}

theorem InOrder.work (h : InOrder d) {e : Work} (hw : d.work e = some d') : InOrder d' := by
  cases e with
  | onInputBufferAvailable =>
    simp only [H264Decoder.work, Option.ite_none_right_eq_some, Option.some.injEq] at hw
    obtain ⟨-, rfl⟩ := hw
    exact ⟨h.slot, h.read⟩
  | begin ok =>
    simp only [H264Decoder.work, Option.ite_none_right_eq_some, Option.some.injEq] at hw
    obtain ⟨⟨-, -, hj⟩, rfl⟩ := hw
    have hslot := h.slot
    simp only [taken, hj] at hslot
    refine ⟨?_, ?_⟩
    · cases ok <;> exact hslot
    · intro frame hf
      cases ok <;> cases hf
  | nextFrame =>
    simp only [H264Decoder.work] at hw
    split at hw
    · cases hw
      exact h
    · rename_i frame hj hi
      cases hw
      have hslot := h.slot
      simp only [taken, hj, hi, Option.toList_some, List.append_nil] at hslot
      refine ⟨?_, ?_⟩
      · simp only [taken, hi, Option.toList_some, List.append_nil]
        exact hslot
      · intro f hf
        cases hf
        exact hslot
    · cases hw
  | put ok =>
    simp only [H264Decoder.work] at hw
    split at hw
    · rename_i frame hj
      cases ok with
      | true =>
        cases hw
        refine ⟨?_, ?_⟩
        · simp only [taken, Option.toList_none, List.append_nil]
          exact h.read frame hj
        · intro f hf
          cases hf
      | false =>
        cases hw
        have hslot := h.slot
        simp only [taken, hj] at hslot
        refine ⟨hslot, ?_⟩
        intro f hf
        cases hf
    · cases hw
  | queueInputBuffer ok =>
    simp only [H264Decoder.work] at hw
    split at hw
    · rename_i frame hj
      cases hw
      have hslot := h.slot
      simp only [taken, hj] at hslot
      refine ⟨?_, ?_⟩
      · cases ok with
        | true => simpa [taken] using hslot
        | false =>
          refine List.Sublist.trans ?_ hslot
          simp only [taken, Bool.false_eq_true, if_false, List.append_nil]
          exact (List.sublist_append_left _ _).append_right _
      · intro f hf
        cases hf
    · cases hw

theorem inOrder_kept : Track.Kept decoderClass (fun _ => True) InOrder := by
  refine ⟨⟨List.nil_sublist _, ?_⟩, fun d _ _ h => ⟨h.slot, h.read⟩, ?_,
    fun d h => ⟨h.slot, h.read⟩, fun d e d' h hw => h.work hw⟩
  · intro frame hf
    cases hf
  · intro d data h
    refine ⟨?_, ?_⟩
    · exact ((List.sublist_append_left _ _).trans h.slot).append_right [data]
    · intro frame hf
      exact (h.read frame hf).trans (List.sublist_append_left _ _)

structure Unused (d : H264Decoder) : Prop where
  mCodec : d.mCodec = false
  posted : d.posted = 0
  job : d.job = .idle
  queued : d.queued = []

theorem Unused.no_work (h : Unused d) (e : Work) : d.work e = none := by
  cases e <;> simp [H264Decoder.work, h.mCodec, h.posted, h.job]

theorem unused_kept : Track.Kept decoderClass (· = .throws) Unused := by
  refine ⟨⟨rfl, rfl, rfl, rfl⟩, ?_, fun d data h => ⟨h.mCodec, h.posted, h.job, h.queued⟩,
    fun d h => ⟨rfl, rfl, h.job, h.queued⟩, ?_⟩
  · rintro d _ rfl h
    exact ⟨rfl, h.posted, h.job, h.queued⟩
  · intro d e d' h hw
    have hnone : d.work e = some d' := hw
    rw [h.no_work e] at hnone
    cases hnone

def Spins (d : H264Decoder) : Prop := d.job = .waiting ∧ d.iFrame = none

theorem Spins.work (h : Spins d) {e : Work} (hw : d.work e = some d') : Spins d' := by
  cases e with
  | onInputBufferAvailable =>
    simp only [H264Decoder.work, Option.ite_none_right_eq_some, Option.some.injEq] at hw
    obtain ⟨-, rfl⟩ := hw
    exact h
  | nextFrame =>
    simp only [H264Decoder.work, h.1, h.2, Option.some.injEq] at hw
    exact hw ▸ h
  | _ => simp [H264Decoder.work, h.1] at hw

end H264Decoder

/-- `tried` records the frames that were taken from the queue, and whether the codec got them. -/
structure AudioDecoder where
  queue : List Bytes := []
  audioInputBufferThread : Bool := false
  mCodec : Bool := false
  posted : ℕ := 0
  job : Job := .idle
  received : List Bytes := []
  tried : List (Bytes × Bool) := []
  deriving DecidableEq, Repr

namespace AudioDecoder

def initAudioDecoder (d : AudioDecoder) (o : Outcome) : AudioDecoder :=
  { d with audioInputBufferThread := true, mCodec := o = .starts }

def setRawAudioData (d : AudioDecoder) (data : Bytes) : AudioDecoder :=
  { d with queue := d.queue ++ [data], received := d.received ++ [data] }

def stopDecoder (d : AudioDecoder) : AudioDecoder :=
  { d with audioInputBufferThread := false, mCodec := false, posted := 0 }

inductive Work where
  | onInputBufferAvailable
  | begin
  | take
  | queueInputBuffer (ok : Bool)

def work (d : AudioDecoder) : Work → Option AudioDecoder
  | .onInputBufferAvailable => if d.mCodec then some { d with posted := d.posted + 1 } else none
  | .begin =>
    if d.audioInputBufferThread ∧ 0 < d.posted ∧ d.job = .idle then
      some { d with posted := d.posted - 1, job := .waiting }
    else none
  | .take =>
    match d.job, d.queue with
    | .waiting, frame :: rest => some { d with job := .cleared frame, queue := rest }
    | _, _ => none
  | .queueInputBuffer ok =>
    match d.job with
    | .cleared frame => some { d with job := .idle, tried := d.tried ++ [(frame, ok)] }
    | _ => none

def decoderClass : DecoderClass AudioDecoder Work where
  new := {}
  initDecoder := initAudioDecoder
  setRawData := setRawAudioData
  stopDecoder := stopDecoder
  work := work

def taken (d : AudioDecoder) : List Bytes :=
  match d.job with
  | .cleared frame => [frame]
  | _ => []

def Lossless (d : AudioDecoder) : Prop :=
  d.tried.map (·.1) ++ d.taken ++ d.queue = d.received

variable {d d' : AudioDecoder}

theorem Lossless.work (h : Lossless d) {e : Work} (hw : d.work e = some d') : Lossless d' := by
  cases e with
  | onInputBufferAvailable =>
    simp only [AudioDecoder.work, Option.ite_none_right_eq_some, Option.some.injEq] at hw
    obtain ⟨-, rfl⟩ := hw
    exact h
  | begin =>
    simp only [AudioDecoder.work, Option.ite_none_right_eq_some, Option.some.injEq] at hw
    obtain ⟨⟨-, -, hj⟩, rfl⟩ := hw
    simp only [Lossless, taken, hj] at h
    exact h
  | take =>
    simp only [AudioDecoder.work] at hw
    split at hw
    · rename_i frame rest hj hq
      cases hw
      simp only [Lossless, taken, hj, hq, List.append_nil] at h
      simpa [Lossless, taken] using h
    · cases hw
  | queueInputBuffer ok =>
    simp only [AudioDecoder.work] at hw
    split at hw
    · rename_i frame hj
      cases hw
      simp only [Lossless, taken, hj] at h
      simpa [Lossless, taken] using h
    · cases hw

theorem lossless_kept : Track.Kept decoderClass (fun _ => True) Lossless := by
  refine ⟨rfl, fun d _ _ h => h, ?_, fun d h => h, fun d e d' h hw => h.work hw⟩
  intro d data h
  have hr : d.tried.map (·.1) ++ d.taken ++ (d.queue ++ [data]) = d.received ++ [data] := by
    rw [← List.append_assoc, h]
  exact hr

structure Unused (d : AudioDecoder) : Prop where
  mCodec : d.mCodec = false
  posted : d.posted = 0
  job : d.job = .idle
  tried : d.tried = []

theorem Unused.no_work (h : Unused d) (e : Work) : d.work e = none := by
  cases e <;> simp [AudioDecoder.work, h.mCodec, h.posted, h.job]

theorem unused_kept : Track.Kept decoderClass (· = .throws) Unused := by
  refine ⟨⟨rfl, rfl, rfl, rfl⟩, ?_, fun d data h => ⟨h.mCodec, h.posted, h.job, h.tried⟩,
    fun d h => ⟨rfl, rfl, h.job, h.tried⟩, ?_⟩
  · rintro d _ rfl h
    exact ⟨rfl, h.posted, h.job, h.tried⟩
  · intro d e d' h hw
    have hnone : d.work e = some d' := hw
    rw [h.no_work e] at hnone
    cases hnone

end AudioDecoder

structure RTSPClient where
  video : Track H264Decoder := {}
  audio : Track AudioDecoder := {}
  deriving DecidableEq, Repr

/-- `stop` is also `onRtspDisconnected`, which makes the same two calls. -/
inductive Event where
  | initRtspClient
  | onRtspConnected (audioTrack : Bool)
  | onRtspVideoNalUnitReceived (data : Bytes) (o : Outcome)
  | onRtspAudioSampleReceived (data : Bytes) (o : Outcome)
  | stop
  | videoThread (k : ℕ) (e : H264Decoder.Work)
  | audioThread (k : ℕ) (e : AudioDecoder.Work)

namespace RTSPClient

/-- A null decoder makes the call throw, so that the second is not made. -/
def stop (c : RTSPClient) : RTSPClient :=
  if c.video.decoder = none then c
  else { video := c.video.stop H264Decoder.decoderClass
         audio := c.audio.stop AudioDecoder.decoderClass }

def step (c : RTSPClient) : Event → Option RTSPClient
  | .initRtspClient => some { c with video := c.video.make H264Decoder.decoderClass }
  | .onRtspConnected audioTrack =>
    some (if audioTrack then { c with audio := c.audio.make AudioDecoder.decoderClass } else c)
  | .onRtspVideoNalUnitReceived data o =>
    some { c with video := c.video.receive H264Decoder.decoderClass data o }
  | .onRtspAudioSampleReceived data o =>
    some { c with audio := c.audio.receive AudioDecoder.decoderClass data o }
  | .stop => some c.stop
  | .videoThread k e =>
    (c.video.work H264Decoder.decoderClass k e).map fun video => { c with video := video }
  | .audioThread k e =>
    (c.audio.work AudioDecoder.decoderClass k e).map fun audio => { c with audio := audio }

end RTSPClient

def machine : Machine RTSPClient Event := ⟨{}, RTSPClient.step⟩

variable {s t : RTSPClient} {e : Event}

theorem step_video (ht : s.step e = some t) : t.video = s.video ∨
    ∃ e', (Track.machine H264Decoder.decoderClass).step s.video e' = some t.video := by
  cases e with
  | initRtspClient =>
    cases ht
    exact .inr ⟨.make, rfl⟩
  | onRtspConnected audioTrack =>
    cases audioTrack <;> cases ht <;> exact .inl rfl
  | onRtspVideoNalUnitReceived data o =>
    cases ht
    exact .inr ⟨.receive data o, rfl⟩
  | onRtspAudioSampleReceived data o =>
    cases ht
    exact .inl rfl
  | stop =>
    cases ht
    rw [RTSPClient.stop]
    split
    · exact .inl rfl
    · exact .inr ⟨.stop, rfl⟩
  | videoThread k e =>
    obtain ⟨video, hv, rfl⟩ := Option.map_eq_some_iff.mp ht
    exact .inr ⟨.work k e, hv⟩
  | audioThread k e =>
    obtain ⟨audio, -, rfl⟩ := Option.map_eq_some_iff.mp ht
    exact .inl rfl

theorem step_audio (ht : s.step e = some t) : t.audio = s.audio ∨
    ∃ e', (Track.machine AudioDecoder.decoderClass).step s.audio e' = some t.audio := by
  cases e with
  | initRtspClient =>
    cases ht
    exact .inl rfl
  | onRtspConnected audioTrack =>
    cases audioTrack with
    | false =>
      cases ht
      exact .inl rfl
    | true =>
      cases ht
      exact .inr ⟨.make, rfl⟩
  | onRtspVideoNalUnitReceived data o =>
    cases ht
    exact .inl rfl
  | onRtspAudioSampleReceived data o =>
    cases ht
    exact .inr ⟨.receive data o, rfl⟩
  | stop =>
    cases ht
    rw [RTSPClient.stop]
    split
    · exact .inl rfl
    · exact .inr ⟨.stop, rfl⟩
  | videoThread k e =>
    obtain ⟨video, -, rfl⟩ := Option.map_eq_some_iff.mp ht
    exact .inl rfl
  | audioThread k e =>
    obtain ⟨audio, ha, rfl⟩ := Option.map_eq_some_iff.mp ht
    exact .inr ⟨.work k e, ha⟩

/-- In every run the video codec gets frames in the order in which they came, with frames left
out, and a thread takes the samples that were put in its queue in order and passes over none. Only
the decoder that was initialised with the first frame ever feeds a codec: those made before it and
after it feed none, and once there is one, the codecs of all later sessions get nothing. A video
thread that waits when its session is replaced spins in all that follows. -/
theorem only_one_decoder_is_fed (h : machine.Reachable s) :
    (∀ (k : ℕ) (d : H264Decoder), s.video.decoders[k]? = some d → d.queued.Sublist d.received) ∧
    (∀ (k : ℕ) (d : AudioDecoder), s.audio.decoders[k]? = some d →
      d.tried.map (·.1) <+: d.received) ∧
    (∀ (k : ℕ) (d : H264Decoder), s.video.decoders[k]? = some d → s.video.first ≠ some k →
      d.queued = [] ∧ d.job = .idle) ∧
    (∀ (k : ℕ) (d : AudioDecoder), s.audio.decoders[k]? = some d → s.audio.first ≠ some k →
      d.tried = [] ∧ d.job = .idle) ∧
    ∀ es t, machine.exec s es = some t →
      (s.video.decoderState = .ready → ∀ (k : ℕ) (d : H264Decoder), s.video.decoders.length ≤ k →
        t.video.decoders[k]? = some d → d.queued = [] ∧ d.job = .idle) ∧
      (s.audio.decoderState = .ready → ∀ (k : ℕ) (d : AudioDecoder), s.audio.decoders.length ≤ k →
        t.audio.decoders[k]? = some d → d.tried = [] ∧ d.job = .idle) ∧
      ∀ (k : ℕ) (d : H264Decoder), s.video.decoders[k]? = some d → s.video.decoder ≠ some k →
        d.Spins → ∃ d', t.video.decoders[k]? = some d' ∧ d'.Spins := by
  have hvideo : (Track.machine H264Decoder.decoderClass).Reachable s.video :=
    Machine.Reaches.project rfl (fun s e t ht => step_video ht) h
  have haudio : (Track.machine AudioDecoder.decoderClass).Reachable s.audio :=
    Machine.Reaches.project rfl (fun s e t ht => step_audio ht) h
  refine ⟨?_, ?_, ?_, ?_, ?_⟩
  · intro k d hd
    have hslot := (Track.every_decoder H264Decoder.inOrder_kept hvideo k d hd).slot
    rw [List.append_assoc] at hslot
    exact (List.sublist_append_left _ _).trans hslot
  · intro k d hd
    have hall := Track.every_decoder AudioDecoder.lossless_kept haudio k d hd
    rw [AudioDecoder.Lossless, List.append_assoc] at hall
    exact ⟨_, hall⟩
  · intro k d hd hk
    have hu := Track.other_decoders H264Decoder.unused_kept hvideo k d hd hk
    exact ⟨hu.queued, hu.job⟩
  · intro k d hd hk
    have hu := Track.other_decoders AudioDecoder.unused_kept haudio k d hd hk
    exact ⟨hu.tried, hu.job⟩
  · intro es t he
    obtain ⟨vs, hv⟩ : ∃ vs,
        (Track.machine H264Decoder.decoderClass).exec s.video vs = some t.video :=
      Machine.exec_project (fun s e t ht => step_video ht) he
    obtain ⟨as, ha⟩ : ∃ as,
        (Track.machine AudioDecoder.decoderClass).exec s.audio as = some t.audio :=
      Machine.exec_project (fun s e t ht => step_audio ht) he
    refine ⟨?_, ?_, ?_⟩
    · intro hr k d hk hd
      have hu := Track.later_decoders H264Decoder.unused_kept hvideo hr hv hk hd
      exact ⟨hu.queued, hu.job⟩
    · intro hr k d hk hd
      have hu := Track.later_decoders AudioDecoder.unused_kept haudio hr ha hk hd
      exact ⟨hu.tried, hu.job⟩
    · intro k d hd hcur hspin
      have hretired : Track.Retired s.video k H264Decoder.Spins := ⟨hcur, d, hd, hspin⟩
      exact (hretired.exec (fun d e d' hp hw => hp.work hw) hv).2

/-- The frame of 2 comes while 1 is copied and is lost with it being cleared; the stream is
stopped while the thread waits, and the frames of the next session go nowhere. -/
def twoSessions : List Event :=
  [.initRtspClient, .onRtspVideoNalUnitReceived [0] .starts,
    .videoThread 0 .onInputBufferAvailable, .videoThread 0 .onInputBufferAvailable,
    .videoThread 0 (.begin true), .onRtspVideoNalUnitReceived [1] .starts,
    .videoThread 0 .nextFrame, .onRtspVideoNalUnitReceived [2] .starts,
    .videoThread 0 (.put true), .videoThread 0 (.queueInputBuffer true),
    .videoThread 0 (.begin true), .stop, .initRtspClient]

theorem only_one_decoder_is_fed_twice : ∃ s t, machine.Reachable s ∧
    s.video.decoders.map (·.queued) = [[[1]], []] ∧
    s.video.decoders.map (·.received) = [[[1], [2]], []] ∧
    machine.exec s [.initRtspClient, .onRtspVideoNalUnitReceived [3] .starts] = some t ∧
    (∀ d, t.video.decoders[2]? = some d → d.received = [[3]] → d.queued = []) ∧
    ∃ d, t.video.decoders[0]? = some d ∧ d.Spins := by
  obtain ⟨s, hs, hp⟩ := machine.exists_reachable twoSessions
    (fun s : RTSPClient => decide (s.video.decoders.map (·.queued) = [[[1]], []]) &&
      decide (s.video.decoders.map (·.received) = [[[1], [2]], []]) &&
      decide (s.video.decoderState = .ready) && decide (s.video.decoder = some 1) &&
      decide (s.video.decoders.length = 2) &&
      s.video.decoders[0]?.any (fun d : H264Decoder =>
        decide (d.job = .waiting) && decide (d.iFrame = none)))
    (by decide)
  simp only [Bool.and_eq_true, decide_eq_true_eq] at hp
  obtain ⟨⟨⟨⟨⟨hq, hr⟩, hready⟩, hcur⟩, hlen⟩, hspin⟩ := hp
  obtain ⟨d, hd, hw⟩ := (Option.any_eq_true _ _).mp hspin
  simp only [Bool.and_eq_true, decide_eq_true_eq] at hw
  obtain ⟨-, -, -, -, hlater⟩ := only_one_decoder_is_fed hs
  obtain ⟨hvideo, -, hstuck⟩ := hlater
    [.initRtspClient, .onRtspVideoNalUnitReceived [3] .starts] _ rfl
  refine ⟨s, _, hs, hq, hr, rfl, ?_, ?_⟩
  · intro d hd' _
    exact (hvideo hready 2 d hlen.le hd').1
  · exact hstuck 0 d hd (by rw [hcur]; decide) hw

end JavaRtspDecoders
