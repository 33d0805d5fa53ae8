import Aitt.TransitionRuns
import Aitt.WebRtcConfig

/-! Decoded frames on their way from the pipeline of the sink to the thread that calls the
application. The handler of the fake sink passes the format, width and height of a frame through
the setters of the configuration, whose check of the format knows only the encoded ones. -/
namespace WebRtcHandOff

open AittTypes TransitionRuns WebRtcConfig

inductive Element where
  | appsrc (caps : String)
  | decoder (name : String)
  | videoconvert
  | capsfilter (format : String)
  | queue2
  | fakesink
  deriving DecidableEq, Repr

def buildDecodePipeline (decodeCodec : String) : List Element :=
  let decoding : List Element :=
    if decodeCodec = "H264" then [.appsrc "video/x-h264", .decoder "avdec_h264"]
    else [.appsrc "video/x-vp8", .decoder "vp8dec"]
  decoding ++ [.videoconvert, .capsfilter "BGR", .queue2, .fakesink]

def Element.format : Element → Option String
  | .capsfilter format => some format
  | _ => none

/-- The last filter in front of the sink fixes the format of the frames that come out. -/
def formatAtSink (pipeline : List Element) : Option String :=
  pipeline.reverse.findSome? Element.format

structure VideoInfo where
  name : Option String
  width : Int32
  height : Int32
  deriving DecidableEq, Repr

/-- The arguments of the signal. A pad without caps, or with caps that say nothing about video,
has no info. -/
structure HandOff where
  info : Option VideoInfo
  buffer : Option Bytes
  deriving DecidableEq, Repr

structure SinkStreamManager where
  manager : StreamManager
  syncQueue : List Bytes := []
  deriving DecidableEq, Repr

/-- `RequestServer::PushBuffer`: a frame that comes while another one waits is dropped. -/
def pushBuffer (syncQueue : List Bytes) (data : Bytes) : List Bytes :=
  if data = [] then syncQueue else if syncQueue = [] then [data] else syncQueue

namespace SinkStreamManager

def new (lib : Answers) : SinkStreamManager := { manager := .new false lib }

def handleFrame (s : SinkStreamManager) (buffer : Option Bytes) :
    SinkStreamManager × Option Bytes :=
  match buffer with
  | none => (s, none)
  | some data => ({ s with syncQueue := pushBuffer s.syncQueue data }, some data)

/-- An exception of `SetMediaFormat` leaves the handler. -/
def onSignalHandOff (s : SinkStreamManager) (lib : Answers) (h : HandOff) :
    SinkStreamManager × Option Bytes × Except ConfigError Unit :=
  match h.info with
  | none => (s, none, .ok ())
  | some vinfo =>
    if vinfo.width = 0 ∨ vinfo.height = 0 then (s, none, .ok ())
    else
      match vinfo.name with
      | none => (s, none, .ok ())
      | some name =>
        match s.manager.setMediaFormat lib name with
        | (m, .error err) => ({ s with manager := m }, none, .error err)
        | (m, .ok _) =>
          let sized := (m.setWidth lib vinfo.width).setHeight lib vinfo.height
          let r := handleFrame { s with manager := sized } h.buffer
          (r.1, r.2, .ok ())

end SinkStreamManager

inductive Event where
  | setConfig (lib : Answers) (key value : String)
  | setStarted (isStarted : Bool)
  | handOff (lib : Answers) (h : HandOff)
  | pop
  deriving DecidableEq, Repr

/-- An exception that leaves the handler ends the process. -/
def step (s : SinkStreamManager) : Event → Option SinkStreamManager
  | .setConfig lib key value => some { s with manager := (s.manager.setConfig lib key value).1 }
  | .setStarted isStarted => some { s with manager := { s.manager with isStarted := isStarted } }
  | .handOff lib h =>
    match s.onSignalHandOff lib h with
    | (s', _, .ok _) => some s'
    | (_, _, .error _) => none
  | .pop => some { s with syncQueue := s.syncQueue.tail }

def machine (lib : Answers) : Machine SinkStreamManager Event := ⟨.new lib, step⟩

structure Frame where
  width : Int32
  height : Int32
  data : Bytes
  sized : 0 < width ∧ 0 < height

def Frame.handOff (f : Frame) (pipeline : List Element) : HandOff :=
  ⟨some ⟨formatAtSink pipeline, f.width, f.height⟩, some f.data⟩

/-- Every frame of the sequence, each with what the library answers meanwhile, updates the
configuration and is passed on, and no exception leaves the handler. -/
def Delivered (pipeline : List Element) : SinkStreamManager → List (Frame × Answers) → Prop
  | _, [] => True
  | s, (f, lib) :: rest =>
    let r := s.onSignalHandOff lib (f.handOff pipeline)
    r.2.2 = .ok () ∧ r.2.1 = some f.data ∧
      r.1.manager.width = f.width ∧ r.1.manager.height = f.height ∧
      formatAtSink pipeline = some r.1.manager.format ∧ Delivered pipeline r.1 rest

def Checked (m : StreamManager) : Prop := m.format = "" ∨ isSupportedFormat m.format = true

section Setters

variable (m : StreamManager) (lib : Answers)

/-- The handler sets both sizes. -/
theorem sized_changes (width height : Int32) :
    ∃ stream, (m.setWidth lib width).setHeight lib height =
      { m with width := width, height := height, stream := stream } := by
  obtain ⟨stream, hw⟩ := setWidth_changes m lib width
  obtain ⟨stream', hh⟩ := setHeight_changes (m.setWidth lib width) lib height
  exact ⟨stream', by rw [hh, hw]⟩

variable {m}

theorem setMediaFormat_accepts {name : String}
    (h : m.format = name ∨ isSupportedFormat name = true) :
    ∃ m', m.setMediaFormat lib name = (m', .ok ()) ∧ m'.format = name := by
  unfold StreamManager.setMediaFormat
  split
  · next he => exact ⟨m, rfl, he⟩
  · next hne =>
    rw [if_neg (by simp [h.resolve_left hne])]
    exact ⟨_, rfl, rfl⟩

theorem setMediaFormat_refuses {name : String} (hne : m.format ≠ name)
    (hs : isSupportedFormat name = false) :
    m.setMediaFormat lib name = (m, .error .invalidArg) := by
  simp only [StreamManager.setMediaFormat, if_neg hne, if_pos hs]

theorem Checked.setMediaFormat (h : Checked m) (name : String) :
    Checked (m.setMediaFormat lib name).1 := by
  by_cases hne : m.format = name
  · simpa only [StreamManager.setMediaFormat, if_pos hne] using h
  · cases hs : isSupportedFormat name with
    | true =>
      obtain ⟨m', he, hf⟩ := setMediaFormat_accepts lib (Or.inr hs)
      rw [he]
      exact Or.inr (hf ▸ hs)
    | false =>
      rw [setMediaFormat_refuses lib hne hs]
      exact h

theorem Checked.of_format {m' : StreamManager} (h : Checked m) (hf : m'.format = m.format) :
    Checked m' := by
  unfold Checked
  rw [hf]
  exact h

end Setters

/-- The handler on a frame of its pipeline whose format the setter lets pass. -/
theorem handOff_accepted (s : SinkStreamManager) (lib : Answers) {pipeline : List Element}
    {name : String} (hp : formatAtSink pipeline = some name) (f : Frame)
    (h : s.manager.format = name ∨ isSupportedFormat name = true) :
    let r := s.onSignalHandOff lib (f.handOff pipeline)
    r.2.2 = .ok () ∧ r.2.1 = some f.data ∧ r.1.manager.width = f.width ∧
      r.1.manager.height = f.height ∧ r.1.manager.format = name := by
  have hsize : ¬ (f.width = 0 ∨ f.height = 0) :=
    not_or.mpr ⟨pos_ne_zero f.sized.1, pos_ne_zero f.sized.2⟩
  obtain ⟨m', he, hf⟩ := setMediaFormat_accepts lib h
  obtain ⟨stream, hsized⟩ := sized_changes m' lib f.width f.height
  simp only [SinkStreamManager.onSignalHandOff, Frame.handOff, hp, if_neg hsize, he,
    SinkStreamManager.handleFrame, hsized, hf, and_self]

theorem handOff_refused (s : SinkStreamManager) (lib : Answers) {pipeline : List Element}
    {name : String} (hp : formatAtSink pipeline = some name) (f : Frame)
    (hne : s.manager.format ≠ name) (hs : isSupportedFormat name = false) :
    s.onSignalHandOff lib (f.handOff pipeline) = (s, none, .error .invalidArg) := by
  have hsize : ¬ (f.width = 0 ∨ f.height = 0) :=
    not_or.mpr ⟨pos_ne_zero f.sized.1, pos_ne_zero f.sized.2⟩
  simp only [SinkStreamManager.onSignalHandOff, Frame.handOff, hp, if_neg hsize,
    setMediaFormat_refuses lib hne hs]

/-- Frames of any pipeline: the format of the filter decides, and it decides at the first of
them, which leaves its format with the manager. -/
theorem delivered_iff {pipeline : List Element} {name : String}
    (hp : formatAtSink pipeline = some name) (s : SinkStreamManager)
    (frames : List (Frame × Answers)) :
    Delivered pipeline s frames ↔
      frames = [] ∨ s.manager.format = name ∨ isSupportedFormat name = true := by
  induction frames generalizing s with
  | nil => simp [Delivered]
  | cons x rest ih =>
    obtain ⟨f, lib⟩ := x
    simp only [Delivered]
    by_cases h : s.manager.format = name ∨ isSupportedFormat name = true
    · obtain ⟨hok, hdata, hwidth, hheight, hformat⟩ := handOff_accepted s lib hp f h
      have hrest := (ih (s.onSignalHandOff lib (f.handOff pipeline)).1).mpr
        (Or.inr (Or.inl hformat))
      exact ⟨fun _ => Or.inr h,
        fun _ => ⟨hok, hdata, hwidth, hheight, hp.trans (congrArg some hformat.symm), hrest⟩⟩
    · have hs : isSupportedFormat name = false := by simpa using fun hs => h (Or.inr hs)
      have hr := handOff_refused s lib hp f (fun he => h (Or.inl he)) hs
      refine ⟨fun hd => ?_, fun hd => ?_⟩
      · rw [hr] at hd
        cases hd.1
      · exact absurd (hd.resolve_left (List.cons_ne_nil _ _)) h

theorem Checked.setConfig {m : StreamManager} (h : Checked m) (lib : Answers)
    (key value : String) : Checked (m.setConfig lib key value).1 := by
  apply setConfig_rule h
  · intro n
    obtain ⟨stream, he⟩ := setWidth_changes m lib n
    exact h.of_format (by rw [he])
  · intro n
    obtain ⟨stream, he⟩ := setHeight_changes m lib n
    exact h.of_format (by rw [he])
  · intro n
    obtain ⟨stream, he⟩ := setFrameRate_changes m lib n
    exact h.of_format (by rw [he])
  · exact h.setMediaFormat lib value
  · obtain ⟨stream, he⟩ := setSourceType_changes m lib value
    exact h.of_format (by rw [he])
  · obtain ⟨codec, stream, he⟩ := setDecodeCodec_changes m lib value
    exact h.of_format (by rw [he])

theorem Checked.handleFrame {s : SinkStreamManager} (h : Checked s.manager)
    (buffer : Option Bytes) : Checked (s.handleFrame buffer).1.manager := by
  unfold SinkStreamManager.handleFrame
  split
  · exact h
  · exact h

theorem Checked.onSignalHandOff {s : SinkStreamManager} (h : Checked s.manager) (lib : Answers)
    (x : HandOff) : Checked (s.onSignalHandOff lib x).1.manager := by
  unfold SinkStreamManager.onSignalHandOff
  split
  · exact h
  · next vinfo _ =>
    split
    · exact h
    split
    · exact h
    · next name _ =>
      have hm := h.setMediaFormat lib name
      split
      · next m err he =>
        rw [he] at hm
        exact hm
      · next m _ he =>
        rw [he] at hm
        obtain ⟨stream, hsized⟩ := sized_changes m lib vinfo.width vinfo.height
        exact Checked.handleFrame (hm.of_format (by rw [hsized])) _

theorem Checked.step {s t : SinkStreamManager} {e : Event} (h : Checked s.manager)
    (he : step s e = some t) : Checked t.manager := by
  cases e with
  | setConfig lib key value =>
    obtain rfl := Option.some.inj he
    exact h.setConfig lib key value
  | setStarted isStarted =>
    obtain rfl := Option.some.inj he
    exact h
  | handOff lib x =>
    have hx := h.onSignalHandOff lib x
    simp only [WebRtcHandOff.step] at he
    split at he
    · next s' _ _ hr =>
      obtain rfl := Option.some.inj he
      rw [hr] at hx
      exact hx
    · cases he
  | pop =>
    obtain rfl := Option.some.inj he
    exact h

theorem reachable_checked {lib : Answers} {s : SinkStreamManager}
    (h : (machine lib).Reachable s) : Checked s.manager :=
  h.invariant (I := fun s => Checked s.manager) (Or.inl rfl)
    fun _ _ _ _ hs _ he => hs.step he

theorem formatAtSink_decodePipeline (decodeCodec : String) :
    formatAtSink (buildDecodePipeline decodeCodec) = some "BGR" := by
  unfold buildDecodePipeline
  split
  · rfl
  · rfl

/-- The frames of the decode pipeline reach the request server only if there are none: the
setter refuses the format of the first one, whatever the sink was configured with before. -/
theorem frames_delivered_iff {lib : Answers} {s : SinkStreamManager}
    (hr : (machine lib).Reachable s) (decodeCodec : String) (frames : List (Frame × Answers)) :
    Delivered (buildDecodePipeline decodeCodec) s frames ↔ frames = [] := by
  rw [delivered_iff (formatAtSink_decodePipeline decodeCodec)]
  have hne : s.manager.format ≠ "BGR" := by
    intro hf
    rcases reachable_checked hr with h | h
    · exact absurd (hf.symm.trans h) (by decide)
    · rw [hf] at h
      exact absurd h (by decide)
  have hs : isSupportedFormat "BGR" = false := by decide
  simp [hne, hs]

/-- A sink that is set to H264 and started. -/
theorem started_sink_delivers_none :
    let f : Frame := ⟨640, 480, [1, 2, 3], by decide⟩
    ∃ s, (machine .obliging).Reachable s ∧ s.manager.format = "H264" ∧
      ¬ Delivered (buildDecodePipeline "H264") s [(f, .obliging)] := by
  obtain ⟨s, hr, hs⟩ := (machine .obliging).exists_reachable
    [.setConfig .obliging "MEDIA_FORMAT" "H264", .setStarted true]
    (fun s => s.manager.format = "H264") (by decide)
  refine ⟨s, hr, by simpa using hs, fun hd => ?_⟩
  exact List.cons_ne_nil _ _ ((frames_delivered_iff hr "H264" _).mp hd)

/-- The first frame of a new sink: the exception leaves the handler, and nothing is passed on. -/
theorem first_frame_raises :
    let f : Frame := ⟨640, 480, [1, 2, 3], by decide⟩
    let s : SinkStreamManager := .new .obliging
    let pipeline := buildDecodePipeline s.manager.decodeCodec
    s.onSignalHandOff .obliging (f.handOff pipeline) = (s, none, .error .invalidArg) ∧
      ¬ Delivered pipeline s [(f, .obliging)] := by
  refine ⟨by decide, fun h => ?_⟩
  exact absurd h.1 (by decide)

end WebRtcHandOff
