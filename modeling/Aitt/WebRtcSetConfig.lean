import Aitt.WebRtcConfig

/-! What one call of `SetConfig` leaves behind, for every key, text and previous configuration,
and whatever the webrtc library answers. Sizes, formats and codecs are looked at before anything
happens; a frame rate is never looked at, and a source type only after the old source is gone. -/
namespace WebRtcSetConfig

open MqttProperties WebRtcConfig

def typeNamed (text : String) : Option SourceType :=
  if text = "MEDIA_PACKET" then some .mediaPacket
  else if text = "CAMERA" then some .camera
  else if text = "NULL" then some .null
  else none

def activeType (s : Stream) : Option SourceType := s.source.map (·.type)

def Active (m : StreamManager) : Prop :=
  ∃ type, typeNamed m.sourceType = some type ∧ activeType m.stream = some type

def Holds (m : StreamManager) (key value : String) : Prop :=
  if key = "WIDTH" then stoi value = .ok m.width
  else if key = "HEIGHT" then stoi value = .ok m.height
  else if key = "FRAME_RATE" then stoi value = .ok m.frameRate
  else if key = "MEDIA_FORMAT" then m.format = value
  else if key = "SOURCE_TYPE" then m.sourceType = value
  else if key = "DECODE_CODEC" then m.decodeCodec = value
  else False

def AllOrNothing (m : StreamManager) (key value : String)
    (r : StreamManager × Except ConfigError Unit) : Prop :=
  (r.2 = .error .invalidArg ∧ r.1 = m) ∨
    (r.2 = .ok () ∧ Holds r.1 key value ∧ Valid key value ∧ Active r.1)

/-- After a change of the source type the library has a source of the new one: it removes the
old source, if there is one, and adds the new one, or it keeps an old one of that very type. -/
def Replaces (s : Stream) (lib : Answers) (type : SourceType) : Prop :=
  if s.source = none ∨ lib.remove = true then lib.add = true else activeType s = some type

def Respected (m : StreamManager) (lib : Answers) (key value : String) : Prop :=
  if key = "WIDTH" ∨ key = "HEIGHT" then Positive value → Active m
  else if key = "FRAME_RATE" then ∀ n, stoi value = .ok n → 0 < n ∧ Active m
  else if key = "MEDIA_FORMAT" then
    if isSupportedFormat value then Active m else m.format ≠ value
  else if key = "DECODE_CODEC" then
    if isSupportedFormat value then Active m else m.decodeCodec ≠ value
  else if key = "SOURCE_TYPE" then
    ∃ type, typeNamed value = some type ∧
      if m.sourceType = value then activeType m.stream = some type
      else Replaces m.stream lib type
  else True

section Streams

variable (s : Stream) (lib : Answers)

@[simp] theorem onSource_activeType (ok : Bool) {f : Source → Source}
    (hf : ∀ src, (f src).type = src.type) : activeType (s.onSource ok f) = activeType s := by
  unfold Stream.onSource
  split
  · cases hs : s.source with
    | none => simp [activeType, hs]
    | some src => simp [activeType, hs, hf]
  · rfl

@[simp] theorem setVideoResolution_activeType (width height : Int32) :
    activeType (s.setVideoResolution lib width height) = activeType s :=
  onSource_activeType s _ fun _ => rfl

@[simp] theorem setVideoFrameRate_activeType (frameRate : Int32) :
    activeType (s.setVideoFrameRate lib frameRate) = activeType s :=
  onSource_activeType s _ fun _ => rfl

@[simp] theorem setMediaFormat_activeType (width height frameRate : Int32) (format : String) :
    activeType (s.setMediaFormat lib width height frameRate format) = activeType s :=
  onSource_activeType s _ fun _ => rfl

@[simp] theorem setDecodeCodec_activeType (codec : String) :
    activeType (s.setDecodeCodec lib codec) = activeType s :=
  onSource_activeType s _ fun _ => rfl

/-- Deactivation, the new type, activation. -/
theorem replaces_iff (type : SourceType) :
    activeType (((s.deactivateSource lib).setSourceType type).activateSource lib) = some type ↔
      Replaces s lib type := by
  unfold Replaces
  cases hs : s.source with
  | none =>
    cases hr : lib.remove <;> cases ha : lib.add <;>
      simp [activeType, Stream.deactivateSource, Stream.setSourceType, Stream.activateSource, hr,
        ha, hs]
  | some src =>
    cases hr : lib.remove with
    | true =>
      cases ha : lib.add <;>
        simp [activeType, Stream.deactivateSource, Stream.setSourceType, Stream.activateSource,
          hr, ha]
    | false =>
      simp [activeType, Stream.deactivateSource, Stream.setSourceType, Stream.activateSource, hr,
        hs]

end Streams

section Results

variable {m : StreamManager} {lib : Answers} {key value : String}

theorem allOrNothing_of_refused : AllOrNothing m key value (m, .error .invalidArg) :=
  Or.inl ⟨rfl, rfl⟩

theorem allOrNothing_ok_iff (m' : StreamManager) :
    AllOrNothing m key value (m', .ok ()) ↔
      Holds m' key value ∧ Valid key value ∧ Active m' := by
  simp [AllOrNothing]

/-- `Active` looks at the type that is kept and at the type that is active. -/
theorem active_congr {m' : StreamManager} (ht : m'.sourceType = m.sourceType)
    (ha : activeType m'.stream = activeType m.stream) : Active m' ↔ Active m := by
  unfold Active
  rw [ht, ha]

theorem setWidth_active (n : Int32) : Active (m.setWidth lib n) ↔ Active m := by
  unfold StreamManager.setWidth
  split
  · rfl
  · refine active_congr rfl ?_
    simp only
    split_ifs <;> simp

theorem setHeight_active (n : Int32) : Active (m.setHeight lib n) ↔ Active m := by
  unfold StreamManager.setHeight
  split
  · rfl
  · refine active_congr rfl ?_
    simp only
    split_ifs <;> simp

theorem setFrameRate_active (n : Int32) : Active (m.setFrameRate lib n) ↔ Active m := by
  unfold StreamManager.setFrameRate
  split
  · rfl
  · refine active_congr rfl ?_
    simp only
    split_ifs <;> simp

/-- A key whose value is a size. -/
theorem size_iff {set : Int32 → StreamManager} (hkey : Valid key value ↔ Positive value)
    (hset : ∀ n, stoi value = .ok n →
      Holds (set n) key value ∧ (Active (set n) ↔ Active m)) :
    AllOrNothing m key value (m.withNumber value fun n =>
      if 0 < n then (set n, .ok ()) else (m, .error .invalidArg)) ↔
        (Positive value → Active m) := by
  unfold StreamManager.withNumber
  cases hn : stoi value with
  | error err =>
    refine ⟨fun _ hp => ?_, fun _ => allOrNothing_of_refused⟩
    obtain ⟨n, hok, -⟩ := hp
    cases hn.symm.trans hok
  | ok n =>
    obtain ⟨hholds, hactive⟩ := hset n hn
    by_cases hp : 0 < n
    · have hpos : Positive value := ⟨n, hn, hp⟩
      simp only [if_pos hp, allOrNothing_ok_iff, hkey, hholds, hactive, hpos, true_and,
        forall_const]
    · have hpos : ¬ Positive value := by
        rintro ⟨k, hk, hk0⟩
        obtain rfl := Except.ok.inj (hn.symm.trans hk)
        exact hp hk0
      simp only [if_neg hp, hpos, false_implies, iff_true]
      exact allOrNothing_of_refused

theorem frameRate_iff :
    AllOrNothing m "FRAME_RATE" value
        (m.withNumber value fun n => (m.setFrameRate lib n, .ok ())) ↔
      ∀ n, stoi value = .ok n → 0 < n ∧ Active m := by
  unfold StreamManager.withNumber
  cases hn : stoi value with
  | error err =>
    refine ⟨fun _ n hok => ?_, fun _ => allOrNothing_of_refused⟩
    cases hok
  | ok n =>
    have hholds : Holds (m.setFrameRate lib n) "FRAME_RATE" value := by
      obtain ⟨stream, he⟩ := setFrameRate_changes m lib n
      simp [Holds, hn, he]
    have hvalid : Valid "FRAME_RATE" value ↔ 0 < n := by
      simp only [Valid, String.reduceEq, or_true, if_true, Positive, hn, Except.ok.injEq,
        exists_eq_left']
    simp only [allOrNothing_ok_iff, hholds, hvalid, setFrameRate_active, true_and, Except.ok.injEq,
      forall_eq']

/-- A key whose value is a format: one that is already there is not looked at again. -/
theorem format_iff {stored : String} {m' : StreamManager}
    (hkey : Valid key value ↔ isSupportedFormat value = true)
    (hold : stored = value → Holds m key value)
    (hnew : Holds m' key value ∧ (Active m' ↔ Active m)) :
    AllOrNothing m key value
        (if stored = value then (m, .ok ())
        else if isSupportedFormat value = false then (m, .error .invalidArg)
        else (m', .ok ())) ↔
      if isSupportedFormat value then Active m else stored ≠ value := by
  by_cases he : stored = value
  · rw [if_pos he, allOrNothing_ok_iff, hkey]
    cases hs : isSupportedFormat value with
    | true => simp [hold he]
    | false => simp [he]
  · rw [if_neg he]
    cases hs : isSupportedFormat value with
    | true =>
      rw [if_neg (by decide), allOrNothing_ok_iff, hkey, hs]
      simp [hnew.1, hnew.2]
    | false =>
      simp only [if_true, Bool.false_eq_true, if_false]
      exact ⟨fun _ => he, fun _ => allOrNothing_of_refused⟩

theorem mediaFormat_iff :
    AllOrNothing m "MEDIA_FORMAT" value (m.setMediaFormat lib value) ↔
      if isSupportedFormat value then Active m else m.format ≠ value := by
  refine format_iff (by simp [Valid]) (fun he => by simp [Holds, he]) ⟨by simp [Holds], ?_⟩
  refine active_congr rfl ?_
  simp only
  split_ifs <;> simp

theorem decodeCodec_iff :
    AllOrNothing m "DECODE_CODEC" value (m.setDecodeCodec lib value) ↔
      if isSupportedFormat value then Active m else m.decodeCodec ≠ value := by
  refine format_iff (by simp [Valid]) (fun he => by simp [Holds, he]) ⟨by simp [Holds], ?_⟩
  refine active_congr rfl ?_
  simp only
  split_ifs <;> simp

theorem valid_sourceType_iff : Valid "SOURCE_TYPE" value ↔ (typeNamed value).isSome = true := by
  simp only [Valid, String.reduceEq, or_self, if_false, if_true, typeNamed]
  split_ifs with h1 h2 h3
  · simp [h1]
  · simp [h2]
  · simp [h3]
  · simp [h1, h2, h3]

/-- The source that is active after the type was set to one of the three. -/
theorem setSourceType_activeType {type : SourceType} (hne : m.sourceType ≠ value)
    (ht : typeNamed value = some type) :
    activeType (m.setSourceType lib value).stream =
      activeType (((m.stream.deactivateSource lib).setSourceType type).activateSource lib) := by
  unfold typeNamed at ht
  simp only [StreamManager.setSourceType, if_neg hne]
  split_ifs at ht ⊢
  all_goals
    cases ht
    simp

theorem sourceType_iff :
    AllOrNothing m "SOURCE_TYPE" value (m.setSourceType lib value, .ok ()) ↔
      ∃ type, typeNamed value = some type ∧
        if m.sourceType = value then activeType m.stream = some type
        else Replaces m.stream lib type := by
  have hstored : (m.setSourceType lib value).sourceType = value := by
    obtain ⟨stream, he⟩ := setSourceType_changes m lib value
    rw [he]
  have hholds : Holds (m.setSourceType lib value) "SOURCE_TYPE" value := by
    simp [Holds, hstored]
  rw [allOrNothing_ok_iff, valid_sourceType_iff]
  simp only [hholds, true_and]
  cases ht : typeNamed value with
  | none => simp
  | some type =>
    have hactive : Active (m.setSourceType lib value) ↔
        activeType (m.setSourceType lib value).stream = some type := by
      simp only [Active, hstored, ht, Option.some.injEq, exists_eq_left']
    simp only [Option.isSome_some, true_and, hactive, Option.some.injEq, exists_eq_left']
    by_cases he : m.sourceType = value
    · rw [if_pos he, StreamManager.setSourceType, if_pos he]
    · rw [if_neg he, setSourceType_activeType he ht, replaces_iff]

end Results

/-- `SetConfig` on a stream that is not started is all or nothing, exactly if the call keeps to
`Respected`. -/
theorem set_config_all_or_nothing_iff (m : StreamManager) (hi : m.isStarted = false)
    (lib : Answers) (key value : String) :
    AllOrNothing m key value (m.setConfig lib key value) ↔ Respected m lib key value := by
  unfold StreamManager.setConfig Respected
  rw [hi]
  simp only [Bool.false_eq_true, if_false]
  by_cases hwidth : key = "WIDTH"
  · subst hwidth
    simp only [if_true, true_or]
    refine size_iff (by simp [Valid]) fun n hn => ?_
    obtain ⟨stream, he⟩ := setWidth_changes m lib n
    exact ⟨by simp [Holds, hn, he], setWidth_active n⟩
  by_cases hheight : key = "HEIGHT"
  · subst hheight
    simp only [String.reduceEq, if_true, if_false, or_true]
    refine size_iff (by simp [Valid]) fun n hn => ?_
    obtain ⟨stream, he⟩ := setHeight_changes m lib n
    exact ⟨by simp [Holds, hn, he], setHeight_active n⟩
  have hsize : ¬ (key = "WIDTH" ∨ key = "HEIGHT") := not_or.mpr ⟨hwidth, hheight⟩
  rw [if_neg hwidth, if_neg hheight, if_neg hsize]
  by_cases hrate : key = "FRAME_RATE"
  · subst hrate
    simpa only [if_true] using frameRate_iff
  rw [if_neg hrate, if_neg hrate]
  by_cases hformat : key = "MEDIA_FORMAT"
  · subst hformat
    simpa only [if_true] using mediaFormat_iff
  rw [if_neg hformat, if_neg hformat]
  by_cases hsource : key = "SOURCE_TYPE"
  · subst hsource
    simpa only [String.reduceEq, if_true, if_false] using sourceType_iff
  rw [if_neg hsource]
  by_cases hcodec : key = "DECODE_CODEC"
  · subst hcodec
    simpa only [if_true] using decodeCodec_iff
  · simp only [if_neg hcodec, if_neg hsource, iff_true]
    exact allOrNothing_of_refused

/-- A camera is replaced by a source of media packets. -/
theorem camera_replaced :
    let m : StreamManager := .new true .obliging
    let r := m.setConfig .obliging "SOURCE_TYPE" "MEDIA_PACKET"
    AllOrNothing m "SOURCE_TYPE" "MEDIA_PACKET" r ∧ r.1.sourceType = "MEDIA_PACKET" := by
  refine ⟨(set_config_all_or_nothing_iff _ rfl _ _ _).mpr ?_, by decide⟩
  exact ⟨.mediaPacket, rfl, rfl⟩

/-- A text that names no source type takes the camera away and is kept; a negative frame rate
is kept and applied to it. -/
theorem invalid_values_kept :
    let m : StreamManager := .new true .obliging
    let source := m.setConfig .obliging "SOURCE_TYPE" "FOO"
    let rate := m.setConfig .obliging "FRAME_RATE" "-5"
    source.2 = .ok () ∧ source.1.sourceType = "FOO" ∧ source.1.stream.source = none ∧
      ¬ AllOrNothing m "SOURCE_TYPE" "FOO" source ∧
      rate.2 = .ok () ∧ rate.1.frameRate = -5 ∧ rate.1.stream.appliedFrameRate = some (-5) ∧
      ¬ AllOrNothing m "FRAME_RATE" "-5" rate := by
  refine ⟨by decide, by decide, by decide, ?_, by decide, by decide, by decide, ?_⟩
  · rintro (⟨herr, -⟩ | ⟨-, -, hvalid, -⟩)
    · exact absurd herr (by decide)
    · exact absurd hvalid (by decide)
  · rintro (⟨herr, -⟩ | ⟨-, -, hvalid, -⟩)
    · exact absurd herr (by decide)
    · exact absurd hvalid (by decide)

end WebRtcSetConfig
