import Aitt.MqttProperties
import Mathlib.Data.List.Induction

/-! `SetConfig` of a WebRTC stream: the values that the stream manager keeps, the media source
that it has activated, and what it has applied to that source. The calls of the webrtc library
are answered by success or failure, and the manager looks at none of the answers. -/
namespace WebRtcConfig

open MqttProperties

inductive SourceType where
  | null
  | camera
  | mediaPacket
  deriving DecidableEq, Repr

inductive Codec where
  | vp8
  | vp9
  | h264
  deriving DecidableEq, Repr

structure MediaFormat where
  width : Int32
  height : Int32
  frameRate : Int32
  format : String
  deriving DecidableEq, Repr

structure Source where
  type : SourceType
  format : Option MediaFormat := none
  resolution : Option (Int32 × Int32) := none
  frameRate : Option Int32 := none
  codec : Option Codec := none
  deriving DecidableEq, Repr

/-- `source` is `none` while `source_id_` is zero. -/
structure Stream where
  sourceType : SourceType := .null
  source : Option Source := none
  deriving DecidableEq, Repr

structure Answers where
  add : Bool
  remove : Bool
  createFormat : Bool
  setFormat : Bool
  setResolution : Bool
  setFrameRate : Bool
  setCodec : Bool
  deriving DecidableEq, Repr

def Answers.obliging : Answers := ⟨true, true, true, true, true, true, true⟩

def transceiverCodec (codec : String) : Codec :=
  if codec = "VP9" then .vp9 else if codec = "H264" then .h264 else .vp8

namespace Stream

def setSourceType (s : Stream) (sourceType : SourceType) : Stream :=
  { s with sourceType := sourceType }

def activateSource (s : Stream) (lib : Answers) : Stream :=
  match s.source with
  | some _ => s
  | none => if lib.add then { s with source := some { type := s.sourceType } } else s

def deactivateSource (s : Stream) (lib : Answers) : Stream :=
  if lib.remove then { s with source := none } else s

def onSource (s : Stream) (ok : Bool) (f : Source → Source) : Stream :=
  if ok then { s with source := s.source.map f } else s

def setVideoResolution (s : Stream) (lib : Answers) (width height : Int32) : Stream :=
  s.onSource lib.setResolution ({ · with resolution := some (width, height) })

def setVideoFrameRate (s : Stream) (lib : Answers) (frameRate : Int32) : Stream :=
  s.onSource lib.setFrameRate ({ · with frameRate := some frameRate })

def setMediaFormat (s : Stream) (lib : Answers) (width height frameRate : Int32)
    (format : String) : Stream :=
  s.onSource (lib.createFormat && lib.setFormat)
    ({ · with format := some ⟨width, height, frameRate, format⟩ })

def setDecodeCodec (s : Stream) (lib : Answers) (codec : String) : Stream :=
  s.onSource lib.setCodec ({ · with codec := some (transceiverCodec codec) })

end Stream

inductive ConfigError where
  | resourceBusyErr
  | invalidArg
  deriving DecidableEq, Repr

structure StreamManager where
  isStarted : Bool := false
  width : Int32 := 0
  height : Int32 := 0
  frameRate : Int32 := 0
  sourceType : String := "NULL"
  format : String := ""
  decodeCodec : String := "VP8"
  stream : Stream := {}
  deriving DecidableEq, Repr

def isSupportedFormat (format : String) : Bool := format == "VP8" || format == "H264"

namespace StreamManager

def new (isSource : Bool) (lib : Answers) : StreamManager :=
  let m : StreamManager := {}
  if isSource then
    { m with
      sourceType := "CAMERA"
      stream := (m.stream.setSourceType .camera).activateSource lib }
  else { m with stream := (m.stream.activateSource lib).setDecodeCodec lib m.decodeCodec }

/-- The format is applied with the width that is about to be replaced. -/
def setWidth (m : StreamManager) (lib : Answers) (width : Int32) : StreamManager :=
  if m.width = width then m
  else
    let stream :=
      if m.sourceType = "MEDIA_PACKET" ∧ m.height ≠ 0 ∧ m.frameRate ≠ 0 ∧ m.format ≠ "" then
        m.stream.setMediaFormat lib m.width m.height m.frameRate m.format
      else if m.sourceType = "CAMERA" ∧ m.height ≠ 0 then
        m.stream.setVideoResolution lib width m.height
      else m.stream
    { m with width := width, stream := stream }

def setHeight (m : StreamManager) (lib : Answers) (height : Int32) : StreamManager :=
  if m.height = height then m
  else
    let stream :=
      if m.sourceType = "MEDIA_PACKET" ∧ m.width ≠ 0 ∧ m.frameRate ≠ 0 ∧ m.format ≠ "" then
        m.stream.setMediaFormat lib m.width height m.frameRate m.format
      else if m.sourceType = "CAMERA" ∧ m.width ≠ 0 then
        m.stream.setVideoResolution lib m.width height
      else m.stream
    { m with height := height, stream := stream }

def setFrameRate (m : StreamManager) (lib : Answers) (frameRate : Int32) : StreamManager :=
  if m.frameRate = frameRate then m
  else
    let stream :=
      if m.sourceType = "MEDIA_PACKET" ∧ m.width ≠ 0 ∧ m.height ≠ 0 ∧ m.format ≠ "" then
        m.stream.setMediaFormat lib m.width m.height frameRate m.format
      else if m.sourceType = "CAMERA" then m.stream.setVideoFrameRate lib frameRate
      else m.stream
    { m with frameRate := frameRate, stream := stream }

/-- A text that names no source type is only logged, after the source is gone. -/
def setSourceType (m : StreamManager) (lib : Answers) (sourceType : String) : StreamManager :=
  if m.sourceType = sourceType then m
  else
    let idle := m.stream.deactivateSource lib
    let stream :=
      if sourceType = "MEDIA_PACKET" then
        let active := (idle.setSourceType .mediaPacket).activateSource lib
        if m.width ≠ 0 ∧ m.height ≠ 0 ∧ m.frameRate ≠ 0 ∧ m.format ≠ "" then
          active.setMediaFormat lib m.width m.height m.frameRate m.format
        else active
      else if sourceType = "CAMERA" then
        let active := (idle.setSourceType .camera).activateSource lib
        let sized := if m.width ≠ 0 ∧ m.height ≠ 0 then
          active.setVideoResolution lib m.width m.height else active
        if m.frameRate ≠ 0 then sized.setVideoFrameRate lib m.frameRate else sized
      else if sourceType = "NULL" then (idle.setSourceType .null).activateSource lib
      else idle
    { m with sourceType := sourceType, stream := stream }

def setMediaFormat (m : StreamManager) (lib : Answers) (format : String) :
    StreamManager × Except ConfigError Unit :=
  if m.format = format then (m, .ok ())
  else if isSupportedFormat format = false then (m, .error .invalidArg)
  else
    let stream :=
      if m.sourceType = "MEDIA_PACKET" ∧ m.width ≠ 0 ∧ m.height ≠ 0 ∧ m.frameRate ≠ 0 then
        m.stream.setMediaFormat lib m.width m.height m.frameRate format
      else m.stream
    ({ m with format := format, stream := stream }, .ok ())

def setDecodeCodec (m : StreamManager) (lib : Answers) (codec : String) :
    StreamManager × Except ConfigError Unit :=
  if m.decodeCodec = codec then (m, .ok ())
  else if isSupportedFormat codec = false then (m, .error .invalidArg)
  else
    let stream := if m.sourceType = "NULL" then m.stream.setDecodeCodec lib codec else m.stream
    ({ m with decodeCodec := codec, stream := stream }, .ok ())

/-- `std::stoi` raises what `SetConfig` turns into its own exception. -/
def withNumber (m : StreamManager) (value : String)
    (set : Int32 → StreamManager × Except ConfigError Unit) :
    StreamManager × Except ConfigError Unit :=
  match stoi value with
  | .error _ => (m, .error .invalidArg)
  | .ok n => set n

/-- `Module::SetConfig`. A size that is not positive falls through to the last branch; a frame
rate is not looked at. -/
def setConfig (m : StreamManager) (lib : Answers) (key value : String) :
    StreamManager × Except ConfigError Unit :=
  if m.isStarted then (m, .error .resourceBusyErr)
  else if key = "WIDTH" then
    m.withNumber value fun n =>
      if 0 < n then (m.setWidth lib n, .ok ()) else (m, .error .invalidArg)
  else if key = "HEIGHT" then
    m.withNumber value fun n =>
      if 0 < n then (m.setHeight lib n, .ok ()) else (m, .error .invalidArg)
  else if key = "FRAME_RATE" then
    m.withNumber value fun n => (m.setFrameRate lib n, .ok ())
  else if key = "MEDIA_FORMAT" then m.setMediaFormat lib value
  else if key = "SOURCE_TYPE" then (m.setSourceType lib value, .ok ())
  else if key = "DECODE_CODEC" then m.setDecodeCodec lib value
  else (m, .error .invalidArg)

end StreamManager

def Positive (value : String) : Prop := ∃ n, stoi value = .ok n ∧ 0 < n

instance (value : String) : Decidable (Positive value) :=
  match h : stoi value with
  | .error _ => isFalse fun ⟨_, hn, _⟩ => by cases h.symm.trans hn
  | .ok n =>
    decidable_of_iff (0 < n)
      ⟨fun hp => ⟨n, h, hp⟩, fun ⟨_, hn, hp⟩ => by
        obtain rfl := Except.ok.inj (h.symm.trans hn)
        exact hp⟩

/-- The value of a key as the module takes it: positive sizes and rates, the formats that
`IsSupportedFormat` lets pass, the three source types. -/
def Valid (key value : String) : Prop :=
  if key = "WIDTH" ∨ key = "HEIGHT" ∨ key = "FRAME_RATE" then Positive value
  else if key = "MEDIA_FORMAT" ∨ key = "DECODE_CODEC" then isSupportedFormat value = true
  else if key = "SOURCE_TYPE" then
    value = "MEDIA_PACKET" ∨ value = "CAMERA" ∨ value = "NULL"
  else False

instance (key value : String) : Decidable (Valid key value) := by
  delta Valid
  infer_instance

namespace Stream

def appliedFormat (s : Stream) : Option MediaFormat := s.source.bind (·.format)

def appliedResolution (s : Stream) : Option (Int32 × Int32) := s.source.bind (·.resolution)

def appliedFrameRate (s : Stream) : Option Int32 := s.source.bind (·.frameRate)

end Stream

structure Coherent (m : StreamManager) : Prop where
  mediaPacket : m.sourceType = "MEDIA_PACKET" →
    m.width ≠ 0 ∧ m.height ≠ 0 ∧ m.frameRate ≠ 0 ∧ m.format ≠ "" →
      m.stream.appliedFormat = some ⟨m.width, m.height, m.frameRate, m.format⟩
  resolution : m.sourceType = "CAMERA" →
    m.stream.appliedResolution =
      if m.width ≠ 0 ∧ m.height ≠ 0 then some (m.width, m.height) else none
  frameRate : m.sourceType = "CAMERA" →
    m.stream.appliedFrameRate = if m.frameRate ≠ 0 then some m.frameRate else none

structure Kept (m : StreamManager) : Prop extends Coherent m where
  idle : m.isStarted = false
  source : ∃ src, m.stream.source = some src

/-- A new width for a source of media packets that has all but perhaps its width. -/
def StaleWidth (m : StreamManager) (key value : String) : Prop :=
  key = "WIDTH" ∧ stoi value ≠ .ok m.width ∧ m.sourceType = "MEDIA_PACKET" ∧
    m.height ≠ 0 ∧ m.frameRate ≠ 0 ∧ m.format ≠ ""

instance (m : StreamManager) (key value : String) : Decidable (StaleWidth m key value) :=
  inferInstanceAs (Decidable (_ ∧ _))

theorem pos_ne_zero {n : Int32} (h : 0 < n) : n ≠ 0 := by
  rintro rfl
  exact absurd h (by decide)

section Obliging

variable (s : Stream)

@[simp] theorem setVideoResolution_obliging (width height : Int32) :
    (s.setVideoResolution .obliging width height).source =
      s.source.map ({ · with resolution := some (width, height) }) := rfl

@[simp] theorem setVideoFrameRate_obliging (frameRate : Int32) :
    (s.setVideoFrameRate .obliging frameRate).source =
      s.source.map ({ · with frameRate := some frameRate }) := rfl

@[simp] theorem setMediaFormat_obliging (width height frameRate : Int32) (format : String) :
    (s.setMediaFormat .obliging width height frameRate format).source =
      s.source.map ({ · with format := some ⟨width, height, frameRate, format⟩ }) := rfl

@[simp] theorem setDecodeCodec_obliging (codec : String) :
    (s.setDecodeCodec .obliging codec).source =
      s.source.map ({ · with codec := some (transceiverCodec codec) }) := rfl

/-- The old source is gone, and the new one has nothing applied to it yet. -/
@[simp] theorem activate_obliging (type : SourceType) :
    (((s.deactivateSource .obliging).setSourceType type).activateSource .obliging).source =
      some { type := type } := rfl

end Obliging

namespace Coherent

variable {m : StreamManager}

theorem of_mediaPacket (ht : m.sourceType = "MEDIA_PACKET")
    (hf : m.width ≠ 0 ∧ m.height ≠ 0 ∧ m.frameRate ≠ 0 ∧ m.format ≠ "" →
      m.stream.appliedFormat = some ⟨m.width, m.height, m.frameRate, m.format⟩) :
    Coherent m := by
  constructor
  · intro _
    exact hf
  · intro hc
    exact absurd (ht.symm.trans hc) (by decide)
  · intro hc
    exact absurd (ht.symm.trans hc) (by decide)

theorem of_camera (ht : m.sourceType = "CAMERA")
    (hs : m.stream.appliedResolution =
      if m.width ≠ 0 ∧ m.height ≠ 0 then some (m.width, m.height) else none)
    (hr : m.stream.appliedFrameRate = if m.frameRate ≠ 0 then some m.frameRate else none) :
    Coherent m := by
  constructor
  · intro hp
    exact absurd (ht.symm.trans hp) (by decide)
  · intro _
    exact hs
  · intro _
    exact hr

theorem of_null (ht : m.sourceType = "NULL") : Coherent m := by
  constructor
  · intro hp
    exact absurd (ht.symm.trans hp) (by decide)
  · intro hc
    exact absurd (ht.symm.trans hc) (by decide)
  · intro hc
    exact absurd (ht.symm.trans hc) (by decide)

end Coherent

namespace Kept

variable {m : StreamManager}

theorem setWidth (h : Kept m) {width : Int32} (hw : width ≠ 0)
    (hs : m.width = width ∨ ¬ (m.sourceType = "MEDIA_PACKET" ∧
      m.height ≠ 0 ∧ m.frameRate ≠ 0 ∧ m.format ≠ "")) :
    Kept (m.setWidth .obliging width) := by
  obtain ⟨src, hsrc⟩ := h.source
  unfold StreamManager.setWidth
  split
  · exact h
  next hne =>
  have hstale := hs.resolve_left hne
  rw [if_neg hstale]
  split
  · next hc =>
    refine ⟨.of_camera hc.1 ?_ ?_, h.idle, by simp [hsrc]⟩
    · simp [Stream.appliedResolution, hsrc, hw, hc.2]
    · simpa [Stream.appliedFrameRate, hsrc] using h.frameRate hc.1
  · next hc =>
    refine ⟨⟨fun ht hall => ?_, fun ht => ?_, h.frameRate⟩, h.idle, h.source⟩
    · exact absurd ⟨ht, hall.2⟩ hstale
    · have hz : m.height = 0 := by
        by_contra hz
        exact hc ⟨ht, hz⟩
      simpa [hz] using h.resolution ht

theorem setHeight (h : Kept m) {height : Int32} (hh : height ≠ 0) :
    Kept (m.setHeight .obliging height) := by
  obtain ⟨src, hsrc⟩ := h.source
  unfold StreamManager.setHeight
  split
  · exact h
  split
  · next hp =>
    refine ⟨.of_mediaPacket hp.1 fun _ => ?_, h.idle, by simp [hsrc]⟩
    simp [Stream.appliedFormat, hsrc]
  next hp =>
  split
  · next hc =>
    refine ⟨.of_camera hc.1 ?_ ?_, h.idle, by simp [hsrc]⟩
    · simp [Stream.appliedResolution, hsrc, hh, hc.2]
    · simpa [Stream.appliedFrameRate, hsrc] using h.frameRate hc.1
  · next hc =>
    refine ⟨⟨fun ht hall => ?_, fun ht => ?_, h.frameRate⟩, h.idle, h.source⟩
    · exact absurd ⟨ht, hall.1, hall.2.2⟩ hp
    · have hz : m.width = 0 := by
        by_contra hz
        exact hc ⟨ht, hz⟩
      simpa [hz] using h.resolution ht

theorem setFrameRate (h : Kept m) {frameRate : Int32} (hf : frameRate ≠ 0) :
    Kept (m.setFrameRate .obliging frameRate) := by
  obtain ⟨src, hsrc⟩ := h.source
  unfold StreamManager.setFrameRate
  split
  · exact h
  split
  · next hp =>
    refine ⟨.of_mediaPacket hp.1 fun _ => ?_, h.idle, by simp [hsrc]⟩
    simp [Stream.appliedFormat, hsrc]
  next hp =>
  split
  · next hc =>
    refine ⟨.of_camera hc ?_ ?_, h.idle, by simp [hsrc]⟩
    · simpa [Stream.appliedResolution, hsrc] using h.resolution hc
    · simp [Stream.appliedFrameRate, hsrc, hf]
  · next hc =>
    refine ⟨⟨fun ht hall => ?_, fun ht => ?_, fun ht => ?_⟩, h.idle, h.source⟩
    · exact absurd ⟨ht, hall.1, hall.2.1, hall.2.2.2⟩ hp
    · exact absurd ht hc
    · exact absurd ht hc

theorem setMediaFormat (h : Kept m) {format : String} (hf : isSupportedFormat format = true) :
    Kept (m.setMediaFormat .obliging format).1 := by
  obtain ⟨src, hsrc⟩ := h.source
  unfold StreamManager.setMediaFormat
  split
  · exact h
  rw [if_neg (by simp [hf])]
  split
  · next hp =>
    refine ⟨.of_mediaPacket hp.1 fun _ => ?_, h.idle, by simp [hsrc]⟩
    simp [Stream.appliedFormat, hsrc]
  · next hp =>
    refine ⟨⟨fun ht hall => ?_, h.resolution, h.frameRate⟩, h.idle, h.source⟩
    exact absurd ⟨ht, hall.1, hall.2.1, hall.2.2.1⟩ hp

theorem setDecodeCodec (h : Kept m) (codec : String) :
    Kept (m.setDecodeCodec .obliging codec).1 := by
  obtain ⟨src, hsrc⟩ := h.source
  unfold StreamManager.setDecodeCodec
  split
  · exact h
  split
  · exact h
  split
  · next hn => exact ⟨.of_null hn, h.idle, by simp [hsrc]⟩
  · exact ⟨⟨h.mediaPacket, h.resolution, h.frameRate⟩, h.idle, h.source⟩

/-- Whatever was there before, a source that is activated anew gets all that the manager
keeps. -/
theorem setSourceType (h : Kept m) {sourceType : String}
    (hv : sourceType = "MEDIA_PACKET" ∨ sourceType = "CAMERA" ∨ sourceType = "NULL") :
    Kept (m.setSourceType .obliging sourceType) := by
  unfold StreamManager.setSourceType
  split
  · exact h
  rcases hv with rfl | rfl | rfl
  · simp only [if_true]
    refine ⟨.of_mediaPacket rfl fun hall => ?_, h.idle, ?_⟩
    · simp only [if_pos hall, Stream.appliedFormat, setMediaFormat_obliging, activate_obliging,
        Option.map_some, Option.bind_some]
    · split
      · exact ⟨_, rfl⟩
      · exact ⟨_, rfl⟩
  · simp only [String.reduceEq, if_false, if_true]
    by_cases hsize : m.width ≠ 0 ∧ m.height ≠ 0 <;> by_cases hrate : m.frameRate ≠ 0
    all_goals
      refine ⟨.of_camera rfl ?_ ?_, h.idle, ?_⟩
      · simp [hsize, hrate, Stream.appliedResolution]
      · simp [hsize, hrate, Stream.appliedFrameRate]
      · simp [hsize, hrate]
  · simp only [String.reduceEq, if_false, if_true]
    exact ⟨.of_null rfl, h.idle, ⟨_, rfl⟩⟩

theorem new (isSource : Bool) : Kept (.new isSource .obliging) := by
  cases isSource with
  | true => exact ⟨.of_camera rfl rfl rfl, rfl, ⟨_, rfl⟩⟩
  | false => exact ⟨.of_null rfl, rfl, ⟨_, rfl⟩⟩

end Kept

section Keys

variable {m : StreamManager} {lib : Answers} {value : String}

theorem setConfig_width (hi : m.isStarted = false) {n : Int32} (hn : stoi value = .ok n)
    (hp : 0 < n) : m.setConfig lib "WIDTH" value = (m.setWidth lib n, .ok ()) := by
  simp [StreamManager.setConfig, StreamManager.withNumber, hi, hn, hp]

theorem setConfig_height (hi : m.isStarted = false) {n : Int32} (hn : stoi value = .ok n)
    (hp : 0 < n) : m.setConfig lib "HEIGHT" value = (m.setHeight lib n, .ok ()) := by
  simp [StreamManager.setConfig, StreamManager.withNumber, hi, hn, hp]

theorem setConfig_frameRate (hi : m.isStarted = false) {n : Int32} (hn : stoi value = .ok n) :
    m.setConfig lib "FRAME_RATE" value = (m.setFrameRate lib n, .ok ()) := by
  simp [StreamManager.setConfig, StreamManager.withNumber, hi, hn]

theorem setConfig_mediaFormat (hi : m.isStarted = false) :
    m.setConfig lib "MEDIA_FORMAT" value = m.setMediaFormat lib value := by
  simp [StreamManager.setConfig, hi]

theorem setConfig_sourceType (hi : m.isStarted = false) :
    m.setConfig lib "SOURCE_TYPE" value = (m.setSourceType lib value, .ok ()) := by
  simp [StreamManager.setConfig, hi]

theorem setConfig_decodeCodec (hi : m.isStarted = false) :
    m.setConfig lib "DECODE_CODEC" value = m.setDecodeCodec lib value := by
  simp [StreamManager.setConfig, hi]

end Keys

/-- One call with a valid value. -/
theorem Kept.setConfig {m : StreamManager} (h : Kept m) {key value : String}
    (hv : Valid key value) (hs : ¬ StaleWidth m key value) :
    Kept (m.setConfig .obliging key value).1 := by
  unfold Valid at hv
  split at hv
  · next hk =>
    obtain ⟨n, hn, hp⟩ := hv
    rcases hk with rfl | rfl | rfl
    · rw [setConfig_width h.idle hn hp]
      refine h.setWidth (pos_ne_zero hp) ?_
      by_contra hno
      rw [not_or, not_not] at hno
      refine hs ⟨rfl, fun he => hno.1 ?_, hno.2⟩
      rw [hn] at he
      injection he with he
      exact he.symm
    · rw [setConfig_height h.idle hn hp]
      exact h.setHeight (pos_ne_zero hp)
    · rw [setConfig_frameRate h.idle hn]
      exact h.setFrameRate (pos_ne_zero hp)
  next hk =>
  split at hv
  · next hk =>
    rcases hk with rfl | rfl
    · rw [setConfig_mediaFormat h.idle]
      exact h.setMediaFormat hv
    · rw [setConfig_decodeCodec h.idle]
      exact h.setDecodeCodec value
  split at hv
  · next hk =>
    subst hk
    rw [setConfig_sourceType h.idle]
    exact h.setSourceType hv
  · exact hv.elim

/-- The format that a new width applies has the old one. -/
theorem StaleWidth.incoherent {m : StreamManager} (hi : m.isStarted = false)
    {key value : String} (hv : Valid key value) (hs : StaleWidth m key value) :
    ¬ Coherent (m.setConfig .obliging key value).1 := by
  obtain ⟨rfl, hne, hstale⟩ := hs
  obtain ⟨n, hn, hp⟩ : Positive value := by simpa [Valid] using hv
  have hw : m.width ≠ n := by
    rintro rfl
    exact hne hn
  rw [setConfig_width hi hn hp]
  simp only [StreamManager.setWidth, if_neg hw, if_pos hstale]
  intro hc
  have hf := hc.mediaPacket hstale.1 ⟨pos_ne_zero hp, hstale.2⟩
  cases hsrc : m.stream.source with
  | none => simp [Stream.appliedFormat, hsrc] at hf
  | some src => simp [Stream.appliedFormat, hsrc, hw] at hf

def configured (isSource : Bool) (calls : List (String × String)) : StreamManager :=
  calls.foldl (fun m call => (m.setConfig .obliging call.1 call.2).1) (.new isSource .obliging)

theorem configured_append (isSource : Bool) (calls : List (String × String))
    (call : String × String) :
    configured isSource (calls ++ [call]) =
      ((configured isSource calls).setConfig .obliging call.1 call.2).1 := by
  rw [configured, List.foldl_append]
  rfl

section Setters

variable (m : StreamManager) (lib : Answers)

theorem setWidth_changes (n : Int32) :
    ∃ stream, m.setWidth lib n = { m with width := n, stream := stream } := by
  unfold StreamManager.setWidth
  split
  · next he => exact ⟨m.stream, by rw [← he]⟩
  · exact ⟨_, rfl⟩

theorem setHeight_changes (n : Int32) :
    ∃ stream, m.setHeight lib n = { m with height := n, stream := stream } := by
  unfold StreamManager.setHeight
  split
  · next he => exact ⟨m.stream, by rw [← he]⟩
  · exact ⟨_, rfl⟩

theorem setFrameRate_changes (n : Int32) :
    ∃ stream, m.setFrameRate lib n = { m with frameRate := n, stream := stream } := by
  unfold StreamManager.setFrameRate
  split
  · next he => exact ⟨m.stream, by rw [← he]⟩
  · exact ⟨_, rfl⟩

theorem setSourceType_changes (value : String) :
    ∃ stream, m.setSourceType lib value =
      { m with sourceType := value, stream := stream } := by
  unfold StreamManager.setSourceType
  split
  · next he => exact ⟨m.stream, by rw [← he]⟩
  · exact ⟨_, rfl⟩

theorem setMediaFormat_changes (value : String) :
    ∃ format stream, (m.setMediaFormat lib value).1 =
      { m with format := format, stream := stream } := by
  unfold StreamManager.setMediaFormat
  split
  · exact ⟨_, _, rfl⟩
  · split
    · exact ⟨_, _, rfl⟩
    · exact ⟨_, _, rfl⟩

theorem setDecodeCodec_changes (value : String) :
    ∃ codec stream, (m.setDecodeCodec lib value).1 =
      { m with decodeCodec := codec, stream := stream } := by
  unfold StreamManager.setDecodeCodec
  split
  · exact ⟨_, _, rfl⟩
  · split
    · exact ⟨_, _, rfl⟩
    · exact ⟨_, _, rfl⟩

variable {m lib}

/-- What holds before a call and after each of the setters holds after the call. -/
theorem setConfig_rule {P : StreamManager → Prop} {key value : String} (refused : P m)
    (width : ∀ n, P (m.setWidth lib n)) (height : ∀ n, P (m.setHeight lib n))
    (frameRate : ∀ n, P (m.setFrameRate lib n)) (format : P (m.setMediaFormat lib value).1)
    (sourceType : P (m.setSourceType lib value)) (codec : P (m.setDecodeCodec lib value).1) :
    P (m.setConfig lib key value).1 := by
  have number : ∀ set : Int32 → StreamManager × Except ConfigError Unit,
      (∀ n, P (set n).1) → P (m.withNumber value set).1 := by
    intro set hset
    unfold StreamManager.withNumber
    split
    · exact refused
    · exact hset _
  unfold StreamManager.setConfig
  split_ifs
  · exact refused
  · refine number _ fun n => ?_
    split
    · exact width n
    · exact refused
  · refine number _ fun n => ?_
    split
    · exact height n
    · exact refused
  · exact number _ frameRate
  · exact format
  · exact sourceType
  · exact codec
  · exact refused

theorem setConfig_isStarted (key value : String) :
    (m.setConfig lib key value).1.isStarted = m.isStarted := by
  apply setConfig_rule (P := fun x => x.isStarted = m.isStarted) rfl
  · intro n
    obtain ⟨stream, he⟩ := setWidth_changes m lib n
    rw [he]
  · intro n
    obtain ⟨stream, he⟩ := setHeight_changes m lib n
    rw [he]
  · intro n
    obtain ⟨stream, he⟩ := setFrameRate_changes m lib n
    rw [he]
  · obtain ⟨format, stream, he⟩ := setMediaFormat_changes m lib value
    rw [he]
  · obtain ⟨stream, he⟩ := setSourceType_changes m lib value
    rw [he]
  · obtain ⟨codec, stream, he⟩ := setDecodeCodec_changes m lib value
    rw [he]

end Setters

theorem configured_isStarted (isSource : Bool) (calls : List (String × String)) :
    (configured isSource calls).isStarted = false := by
  induction calls using List.reverseRecOn with
  | nil => exact (Kept.new isSource).idle
  | append_singleton calls call ih => rw [configured_append, setConfig_isStarted, ih]

theorem configured_take (isSource : Bool) {calls : List (String × String)} {k : ℕ}
    (hk : k < calls.length) :
    configured isSource (calls.take (k + 1)) =
      ((configured isSource (calls.take k)).setConfig .obliging calls[k].1 calls[k].2).1 := by
  rw [List.take_succ_eq_append_getElem hk, configured_append]

/-- Calls with valid values keep the configuration coherent after each of them, exactly if
none of them gives a source of media packets a new width behind its other values. -/
theorem configuration_coherent_iff (isSource : Bool) (calls : List (String × String))
    (hv : ∀ call ∈ calls, Valid call.1 call.2) :
    (∀ k, Coherent (configured isSource (calls.take k))) ↔
      ∀ k (hk : k < calls.length),
        ¬ StaleWidth (configured isSource (calls.take k)) calls[k].1 calls[k].2 := by
  constructor
  · intro h k hk hs
    have hvalid := hv calls[k] (List.getElem_mem hk)
    apply hs.incoherent (configured_isStarted isSource _) hvalid
    rw [← configured_take isSource hk]
    exact h (k + 1)
  · intro h k
    suffices hkept : Kept (configured isSource (calls.take k)) from hkept.toCoherent
    induction k with
    | zero => exact .new isSource
    | succ k ih =>
      by_cases hk : k < calls.length
      · rw [configured_take isSource hk]
        exact ih.setConfig (hv calls[k] (List.getElem_mem hk)) (h k hk)
      · rw [List.take_of_length_le (by omega)]
        rw [List.take_of_length_le (by omega)] at ih
        exact ih

/-- The sizes of a camera and then those of media packets, each key before the last. -/
theorem width_first_coherent :
    let calls := [("WIDTH", "640"), ("HEIGHT", "480"), ("SOURCE_TYPE", "MEDIA_PACKET"),
      ("FRAME_RATE", "10"), ("MEDIA_FORMAT", "VP8"), ("HEIGHT", "360")]
    (∀ k, Coherent (configured true (calls.take k))) ∧
      (configured true calls).stream.appliedFormat = some ⟨640, 360, 10, "VP8"⟩ := by
  refine ⟨(configuration_coherent_iff true _ ?_).mpr ?_, by decide⟩
  · decide
  · decide

/-- A width that comes last is kept, and the format is applied with the one before it. -/
theorem new_width_not_applied :
    let calls := [("SOURCE_TYPE", "MEDIA_PACKET"), ("WIDTH", "640"), ("HEIGHT", "480"),
      ("FRAME_RATE", "10"), ("MEDIA_FORMAT", "VP8"), ("WIDTH", "1280")]
    let m := configured true calls
    (∀ call ∈ calls, Valid call.1 call.2) ∧
      (m.width, m.height, m.frameRate, m.format) = (1280, 480, 10, "VP8") ∧
      m.stream.appliedFormat = some ⟨640, 480, 10, "VP8"⟩ ∧ ¬ Coherent m := by
  refine ⟨by decide, by decide, by decide, fun h => ?_⟩
  exact absurd (h.mediaPacket (by decide) (by decide)) (by decide)

end WebRtcConfig
