import Aitt.MqttProperties

/-! The loop of `InvokeCallback` over the user properties, with the cursor it moves through the
list. The cursor is the rest of the list from the property that was read last, and each call
of the library looks for the next user property behind it. -/
namespace MqttPropertyLoop

open AittTypes MqttProperties

def userPair : Property → Option (String × String)
  | .userProperty name value => some (name, value)
  | _ => none

/-- The library walks the list to the first user property, or to the second one if the first is
to be skipped. The cursor it returns is at the property that was read. -/
def readStringPair : List Property → Bool → Option ((String × String) × List Property)
  | [], _ => none
  | p :: props, skipFirst =>
    match userPair p with
    | none => readStringPair props skipFirst
    | some pair => if skipFirst then readStringPair props false else some (pair, p :: props)

def remaining : Option ((String × String) × List Property) → ℕ
  | none => 0
  | some (_, prop) => prop.length + 1

theorem remaining_readStringPair (props : List Property) (skipFirst : Bool) :
    remaining (readStringPair props skipFirst) ≤ props.length + 1 := by
  induction props generalizing skipFirst with
  | nil => exact Nat.zero_le _
  | cons p props ih =>
    rw [readStringPair]
    split
    · exact (ih skipFirst).trans (Nat.le_succ _)
    · split
      · exact (ih false).trans (Nat.le_succ _)
      · exact le_rfl

/-- Each call with `skip_first` moves the cursor. -/
theorem remaining_next (props : List Property) :
    remaining (readStringPair props true) < props.length + 1 := by
  cases props with
  | nil => exact Nat.zero_lt_one
  | cons p props =>
    rw [readStringPair]
    split
    · exact Nat.lt_succ_of_le (remaining_readStringPair props true)
    · exact Nat.lt_succ_of_le (remaining_readStringPair props false)

def readUserProperties (m : AittMsg) (consumed : List (String × String)) :
    Option ((String × String) × List Property) → Except StdError (AittMsg × List (String × String))
  | none => pure (m, consumed)
  | some (pair, prop) => do
    let m ← readUserProperty m (.userProperty pair.1 pair.2)
    readUserProperties m (consumed ++ [pair]) (readStringPair prop true)
  termination_by found => remaining found
  decreasing_by exact remaining_next prop

/-- `InvokeCallback` up to the call of the subscriber: the message it passes, and the user
properties it has read for it. -/
def invokeCallback (msg : Message) : Except StdError (AittMsg × List (String × String)) :=
  match msg.props with
  | none => pure ({ topic := msg.topic }, [])
  | some props =>
    readUserProperties
      { topic := msg.topic
        replyTopic := (readString props).getD ""
        correlation := (readBinary props).getD [] } [] (readStringPair props false)

theorem readUserProperties_none (m : AittMsg) (consumed : List (String × String)) :
    readUserProperties m consumed none = .ok (m, consumed) := by
  rw [readUserProperties]
  rfl

theorem readUserProperties_some (m : AittMsg) (consumed : List (String × String))
    (pair : String × String) (prop : List Property) :
    readUserProperties m consumed (some (pair, prop)) =
      (readUserProperty m (.userProperty pair.1 pair.2)).bind fun m =>
        readUserProperties m (consumed ++ [pair]) (readStringPair prop true) := by
  rw [readUserProperties]
  rfl

theorem readUserProperty_other {p : Property} (h : userPair p = none) (m : AittMsg) :
    readUserProperty m p = .ok m := by
  cases p with
  | userProperty => cases h
  | responseTopic | correlationData | other => rfl

/-- The loop reads the user properties from the first to the last, each one once. -/
theorem readUserProperties_eq (props : List Property) (m : AittMsg)
    (consumed : List (String × String)) :
    readUserProperties m consumed (readStringPair props false) =
      (props.foldlM readUserProperty m).map fun r => (r, consumed ++ props.filterMap userPair) := by
  induction props generalizing m consumed with
  | nil =>
    rw [readStringPair, readUserProperties_none, List.filterMap_nil, List.append_nil]
    rfl
  | cons p props ih =>
    rw [List.foldlM_cons]
    cases hp : userPair p with
    | none =>
      have hread : readStringPair (p :: props) false = readStringPair props false := by
        simp only [readStringPair, hp]
      rw [hread, ih, readUserProperty_other hp, List.filterMap_cons_none hp]
      rfl
    | some pair =>
      have hread : readStringPair (p :: props) false = some (pair, p :: props) := by
        simp only [readStringPair, hp, Bool.false_eq_true, if_false]
      have hnext : readStringPair (p :: props) true = readStringPair props false := by
        simp only [readStringPair, hp, if_true]
      have hpair : Property.userProperty pair.1 pair.2 = p := by
        cases p with
        | userProperty =>
          obtain rfl := Option.some.inj hp
          rfl
        | responseTopic | correlationData | other => cases hp
      rw [hread, readUserProperties_some, hnext, hpair, List.filterMap_cons_some hp]
      cases readUserProperty m p with
      | error err => rfl
      | ok m' =>
        refine (ih m' (consumed ++ [pair])).trans ?_
        rw [List.append_assoc]
        rfl

/-- What the loop makes of a message is what a single pass over the list makes of it. -/
theorem invokeCallback_eq (msg : Message) :
    invokeCallback msg =
      (readMsg msg).map fun r => (r, (msg.props.getD []).filterMap userPair) := by
  unfold invokeCallback readMsg
  cases msg.props with
  | none => rfl
  | some props => exact readUserProperties_eq props _ []

def Foreign : Property → Bool
  | .userProperty name _ => name ≠ replySequenceNumKey && name ≠ replyIsEndSequenceKey
  | _ => false

theorem readUserProperty_foreign {p : Property} (h : Foreign p = true) (m : AittMsg) :
    readUserProperty m p = .ok m := by
  cases p with
  | userProperty name value =>
    simp only [Foreign, Bool.and_eq_true, decide_eq_true_eq] at h
    rw [readUserProperty, if_neg h.1.symm, if_neg h.2.symm]
    rfl
  | responseTopic | correlationData | other => cases h

theorem findSome_filter_foreign {α : Type} (f : Property → Option α)
    (hf : ∀ p, Foreign p = true → f p = none) (props : List Property) :
    (props.filter (!Foreign ·)).findSome? f = props.findSome? f := by
  induction props with
  | nil => rfl
  | cons p props ih =>
    cases hp : Foreign p with
    | true => rw [List.filter_cons_of_neg (by simp [hp]), ih, List.findSome?_cons, hf p hp]
    | false => rw [List.filter_cons_of_pos (by simp [hp]), List.findSome?_cons, ih,
        List.findSome?_cons]

/-- Foreign properties are read and change nothing. -/
theorem readMsg_filter_foreign (topic : String) (payload : Bytes) (props : List Property) :
    readMsg ⟨topic, payload, some (props.filter (!Foreign ·))⟩ =
      readMsg ⟨topic, payload, some props⟩ := by
  have hnone {α : Type} (f : Property → Option α) (hf : ∀ n v, f (.userProperty n v) = none) :
      ∀ p, Foreign p = true → f p = none := by
    intro p hp
    cases p with
    | userProperty => exact hf _ _
    | responseTopic | correlationData | other => cases hp
  have hstep : (fun m p => if (!Foreign p) = true then readUserProperty m p else pure m) =
      readUserProperty := by
    funext m p
    cases hp : Foreign p with
    | true => exact (readUserProperty_foreign hp m).symm
    | false => rfl
  simp only [readMsg, readString, readBinary]
  rw [findSome_filter_foreign _ (hnone _ fun _ _ => rfl),
    findSome_filter_foreign _ (hnone _ fun _ _ => rfl), List.foldlM_filter, hstep]

/-- Whatever foreign properties stand between those that `SendReply` has written, the loop
comes to its end, has read every user property once, and its message has the sequence number,
the end flag and the correlation of the reply. -/
theorem reply_metadata_round_trip (m : AittMsg) (hm : m.correlation.length ≤ 65535)
    (topic : String) (payload : Bytes) (props : List Property)
    (hp : props.filter (!Foreign ·) = sendReplyProps m) :
    ∃ r, invokeCallback ⟨topic, payload, some props⟩ = .ok (r, props.filterMap userPair) ∧
      r.sequence = m.sequence ∧ r.endSequence = m.endSequence ∧
      r.correlation = m.correlation := by
  have hread : readMsg ⟨topic, payload, some props⟩ =
      .ok { topic := topic, correlation := m.correlation,
            sequence := m.sequence, endSequence := m.endSequence } := by
    rw [← readMsg_filter_foreign, hp]
    exact readMsg_sendReply m topic payload (by omega)
  have hloop := invokeCallback_eq ⟨topic, payload, some props⟩
  rw [hread] at hloop
  exact ⟨_, hloop, rfl, rfl, rfl⟩

def boundaryReply : AittMsg :=
  { correlation := [1, 0, 2], sequence := -2147483648, endSequence := false }

def interleaved : List Property :=
  [.userProperty "trace" "7", .correlationData [1, 0, 2], .userProperty "sequence" "x",
    .userProperty "sequenceNum" "-2147483648", .userProperty "trace" "8",
    .userProperty "isEndSequence" "0"]

/-- The least number, a correlation with a NUL byte, and three foreign properties. -/
theorem boundary_reply_round_trip : ∃ r consumed,
    invokeCallback ⟨"t_AittRe_0", [], some interleaved⟩ = .ok (r, consumed) ∧
      r.sequence = -2147483648 ∧ r.endSequence = false ∧ r.correlation = [1, 0, 2] ∧
      consumed.length = 5 := by
  have hp : interleaved.filter (!Foreign ·) = sendReplyProps boundaryReply := by decide +kernel
  obtain ⟨r, hr, hs, he, hc⟩ :=
    reply_metadata_round_trip boundaryReply (by decide) "t_AittRe_0" [] interleaved hp
  exact ⟨r, _, hr, hs, he, hc, rfl⟩

end MqttPropertyLoop
