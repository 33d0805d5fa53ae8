import Aitt.Flexbuffers
import Mathlib.Algebra.Order.Ring.Int

/-! The header of a TCP frame: a flexbuffer map with the metadata of an `AittMsg`. Fields with
their default value are left out on one side and filled in on the other. -/
namespace TcpMsgInfo

open AittTypes Flexbuffers

def field (absent : Bool) (key : String) (item : Item) : List (String × Item) :=
  if absent then [] else [(key, item)]

def textField (key text : String) : List (String × Item) :=
  field (text = "") key (.string (cStr text))

/-- A reply goes out under its reply topic. The sequence number is widened to `uint64_t`. -/
def fields (msg : AittMsg) (isReply : Bool) : List (String × Item) :=
  ((if isReply then [textField "topic" msg.replyTopic]
    else [textField "topic" msg.topic, textField "reply_topic" msg.replyTopic]) ++
   [field (msg.correlation = []) "correlation" (.octets (cBytes msg.correlation)),
    field (msg.sequence = 0) "sequence" (.uint (msg.sequence.toInt % 2 ^ 64).toNat),
    field (msg.endSequence = false) "end_sequence" (.bool msg.endSequence)]).flatten

def packMsgInfo [Package] (msg : AittMsg) (isReply : Bool) : List (String × Item) :=
  finish (fields msg isReply)

def asString (item : Item) (default : String) : String :=
  match item with
  | .string s => s
  | _ => default

def asOctets (item : Item) (default : Bytes) : Bytes :=
  match item with
  | .octets b => b
  | _ => default

def asSequence (item : Item) (default : Int32) : Int32 :=
  match item with
  | .uint n => Int32.ofInt n
  | _ => default

def asBool (item : Item) (default : Bool) : Bool :=
  match item with
  | .bool b => b
  | _ => default

/-- A field of another type than expected, or none, leaves what the constructor set. -/
def unpackMsgInfo [Package] (map : List (String × Item)) : AittMsg :=
  let msg : AittMsg := {}
  { msg with
    topic := asString (lookup map "topic") msg.topic
    replyTopic := asString (lookup map "reply_topic") msg.replyTopic
    correlation := asOctets (lookup map "correlation") msg.correlation
    sequence := asSequence (lookup map "sequence") msg.sequence
    endSequence := asBool (lookup map "end_sequence") msg.endSequence }

theorem field_keys (absent : Bool) (key : String) (item : Item) :
    ((field absent key item).map (·.1)).Sublist [key] := by
  cases absent <;> simp [field]

theorem fields_nodup (msg : AittMsg) (isReply : Bool) :
    ((fields msg isReply).map (·.1)).Nodup := by
  have hn : ["topic", "reply_topic", "correlation", "sequence", "end_sequence"].Nodup := by decide
  refine hn.sublist ?_
  have htail := (field_keys (msg.correlation = []) "correlation"
    (.octets (cBytes msg.correlation))).append ((field_keys (msg.sequence = 0) "sequence"
    (.uint (msg.sequence.toInt % 2 ^ 64).toNat)).append (field_keys (msg.endSequence = false)
    "end_sequence" (.bool msg.endSequence)))
  cases isReply with
  | true =>
    have hhead := field_keys (msg.replyTopic = "") "topic" (.string (cStr msg.replyTopic))
    simpa [fields, textField] using
      (hhead.append htail).trans (((List.Sublist.refl _).cons _).cons_cons _)
  | false =>
    have hhead := (field_keys (msg.topic = "") "topic" (.string (cStr msg.topic))).append
      (field_keys (msg.replyTopic = "") "reply_topic" (.string (cStr msg.replyTopic)))
    simpa [fields, textField] using hhead.append htail

theorem valueOf_nil (key : String) : valueOf [] key = .null := rfl

theorem valueOf_field (absent : Bool) (key : String) (item : Item) (rest : List (String × Item)) :
    valueOf (field absent key item ++ rest) key = if absent then valueOf rest key else item := by
  cases absent <;> simp [field, valueOf]

theorem valueOf_field_ne {key key' : String} (h : key' ≠ key) (absent : Bool) (item : Item)
    (rest : List (String × Item)) :
    valueOf (field absent key' item ++ rest) key = valueOf rest key := by
  cases absent <;> simp [field, valueOf, h]

/-- The detour over 64 bits keeps the sequence number. -/
theorem ofInt_widened (n : Int32) : Int32.ofInt ((n.toInt % 2 ^ 64).toNat : ℤ) = n := by
  have hl := n.le_toInt
  have hu := n.toInt_lt
  apply Int32.toInt.inj
  rw [Int32.toInt_ofInt, Int.toNat_of_nonneg (Int.emod_nonneg _ (by decide))]
  simp only [Int32.size, Int.bmod]
  omega

theorem cStr_empty : cStr "" = "" := by decide

theorem text_default (text : String) :
    asString (if text = "" then .null else .string (cStr text)) "" = cStr text := by
  by_cases h : text = ""
  · rw [if_pos h, h, cStr_empty]
    rfl
  · rw [if_neg h]
    rfl

theorem correlation_default (correlation : Bytes) :
    asOctets (if correlation = [] then .null else .octets (cBytes correlation)) [] =
      cBytes correlation := by
  by_cases h : correlation = []
  · rw [if_pos h, h]
    rfl
  · rw [if_neg h]
    rfl

theorem sequence_default (sequence : Int32) :
    asSequence (if sequence = 0 then .null else .uint (sequence.toInt % 2 ^ 64).toNat) 0 =
      sequence := by
  by_cases h : sequence = 0
  · rw [if_pos h, h]
    rfl
  · rw [if_neg h]
    exact ofInt_widened sequence

/-- The flag is written only when it is set, and set when it was not written. -/
theorem end_default (endSequence : Bool) :
    asBool (if endSequence = false then .null else .bool endSequence) true = true := by
  cases endSequence <;> rfl

/-- Whatever flag a reply is sent with, its receiver reads the end of the sequence. -/
theorem unpack_reply [Package] (m : AittMsg) :
    unpackMsgInfo (packMsgInfo m true) =
      { topic := cStr m.replyTopic, correlation := cBytes m.correlation,
        sequence := m.sequence } := by
  unfold unpackMsgInfo packMsgInfo
  simp only [lookup_finish (fields_nodup m true)]
  simp (disch := decide) only [fields, textField, if_true, List.cons_append, List.nil_append,
    List.flatten_cons, List.flatten_nil, valueOf_field, valueOf_field_ne, valueOf_nil,
    decide_eq_true_eq, text_default, correlation_default, sequence_default, end_default]
  rfl

theorem unpack_request [Package] (m : AittMsg) :
    unpackMsgInfo (packMsgInfo m false) =
      { topic := cStr m.topic, replyTopic := cStr m.replyTopic,
        correlation := cBytes m.correlation, sequence := m.sequence } := by
  unfold unpackMsgInfo packMsgInfo
  simp only [lookup_finish (fields_nodup m false)]
  simp (disch := decide) only [fields, textField, Bool.false_eq_true, if_false,
    List.cons_append, List.nil_append, List.flatten_cons, List.flatten_nil, valueOf_field,
    valueOf_field_ne, valueOf_nil, decide_eq_true_eq, text_default, correlation_default,
    sequence_default, end_default]

end TcpMsgInfo
