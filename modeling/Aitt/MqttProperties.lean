import Aitt.AittTypes
import Mathlib.Algebra.Order.Ring.Int

/-! MQTT 5 property lists as the client writes and reads them. A list is read in
order: the first response topic and the first correlation data count, and every user
property is visited once. Numbers travel as decimal text. -/
namespace MqttProperties

open AittTypes

inductive Property where
  | responseTopic (topic : String)
  | correlationData (data : Bytes)
  | userProperty (name value : String)
  | other (identifier : ℕ)
  deriving DecidableEq, Repr

structure Message where
  topic : String
  payload : Bytes
  props : Option (List Property)
  deriving DecidableEq, Repr

inductive StdError where
  | invalidArgument
  | outOfRange
  deriving DecidableEq, Repr

def isSpace (c : Char) : Bool := [' ', '\t', '\n', '\x0b', '\x0c', '\r'].contains c

def splitSign : List Char → Bool × List Char
  | '-' :: cs => (true, cs)
  | '+' :: cs => (false, cs)
  | cs => (false, cs)

/-- `std::stoi` in base ten: blanks, one optional sign and the longest run of digits.
Text behind the digits is ignored; no digit at all or a value that does not fit `int` raises. -/
def stoi (text : String) : Except StdError Int32 :=
  let (negative, cs) := splitSign (text.toList.dropWhile isSpace)
  let digits := cs.takeWhile Char.isDigit
  let magnitude : ℤ := Nat.ofDigitChars 10 digits 0
  let value := if negative then -magnitude else magnitude
  if digits = [] then .error .invalidArgument
  else if value < -2 ^ 31 ∨ 2 ^ 31 ≤ value then .error .outOfRange
  else .ok (Int32.ofInt value)

def toText (n : Int32) : String := toString n.toInt

def replySequenceNumKey : String := "sequenceNum"
def replyIsEndSequenceKey : String := "isEndSequence"

def readString (props : List Property) : Option String :=
  props.findSome? fun | .responseTopic t => some t | _ => none

def readBinary (props : List Property) : Option Bytes :=
  props.findSome? fun | .correlationData d => some d | _ => none

def readUserProperty (m : AittMsg) : Property → Except StdError AittMsg
  | .userProperty name value =>
    if replySequenceNumKey = name then do
      let n ← stoi value
      pure { m with sequence := n }
    else if replyIsEndSequenceKey = name then do
      let n ← stoi value
      pure { m with endSequence := n = 1 }
    else pure m
  | _ => pure m

def readMsg (msg : Message) : Except StdError AittMsg :=
  match msg.props with
  | none => pure { topic := msg.topic }
  | some props =>
    props.foldlM readUserProperty
      { topic := msg.topic
        replyTopic := (readString props).getD ""
        correlation := (readBinary props).getD [] }

/-- The library takes the length as `uint16_t`, so longer data loses its tail. -/
def addBinary (data : Bytes) : Property := .correlationData (data.take (data.length % 2 ^ 16))

def publishWithReplyProps (replyTopic : String) (correlation : Bytes) : List Property :=
  [.responseTopic (cStr replyTopic), addBinary correlation]

def sendReplyProps (m : AittMsg) : List Property :=
  [addBinary m.correlation,
   .userProperty replySequenceNumKey (toText m.sequence),
   .userProperty replyIsEndSequenceKey (if m.endSequence then "1" else "0")]

theorem isSpace_of_isDigit {c : Char} (h : c.isDigit = true) : isSpace c = false := by
  cases hs : isSpace c with
  | false => rfl
  | true =>
    simp only [isSpace, List.contains_eq_mem, List.mem_cons, List.not_mem_nil, or_false,
      decide_eq_true_eq] at hs
    rcases hs with rfl | rfl | rfl | rfl | rfl | rfl <;> revert h <;> decide

theorem splitSign_of_isDigit {c : Char} {cs : List Char} (h : c.isDigit = true) :
    splitSign (c :: cs) = (false, c :: cs) := by
  unfold splitSign
  split
  · next he => obtain ⟨rfl, -⟩ := List.cons.inj he; exact absurd h (by decide)
  · next he => obtain ⟨rfl, -⟩ := List.cons.inj he; exact absurd h (by decide)
  · rfl

/-- Decimal digits start with no blank and no sign, and are read to their end. -/
theorem scan_toDigits (m : ℕ) :
    splitSign ((Nat.toDigits 10 m).dropWhile isSpace) = (false, Nat.toDigits 10 m) ∧
      (Nat.toDigits 10 m).takeWhile Char.isDigit = Nat.toDigits 10 m := by
  have hall : ∀ c ∈ Nat.toDigits 10 m, c.isDigit = true :=
    fun _ hc => Nat.isDigit_of_mem_toDigits (by decide) (by decide) hc
  refine ⟨?_, List.takeWhile_eq_self_iff.mpr hall⟩
  cases hd : Nat.toDigits 10 m with
  | nil => exact absurd hd Nat.toDigits_ne_nil
  | cons c cs =>
    have hc : c.isDigit = true := hall c (by simp [hd])
    rw [List.dropWhile_cons_of_neg (by simp [isSpace_of_isDigit hc])]
    exact splitSign_of_isDigit hc

theorem int32_range (n : Int32) : ¬ (n.toInt < -2 ^ 31 ∨ 2 ^ 31 ≤ n.toInt) := by
  have hl := n.le_toInt
  have hu := n.toInt_lt
  omega

theorem stoi_toText (n : Int32) : stoi (toText n) = .ok n := by
  by_cases hn : 0 ≤ n.toInt
  · have ht : (toText n).toList = Nat.toDigits 10 n.toInt.toNat := by
      simp [toText, Int.repr_eq_if, hn]
    obtain ⟨hs, hw⟩ := scan_toDigits n.toInt.toNat
    have hv : ((n.toInt.toNat : ℕ) : ℤ) = n.toInt := Int.toNat_of_nonneg hn
    simp only [stoi, ht, hs, hw, Nat.toDigits_ne_nil, Nat.ofDigitChars_ten_toDigits, hv,
      if_neg (int32_range n), Bool.false_eq_true, if_false, Int32.ofInt_toInt]
  · have ht : (toText n).toList = '-' :: Nat.toDigits 10 (-n.toInt).toNat := by
      simp [toText, Int.repr_eq_if, hn]
    have hs : splitSign (('-' :: Nat.toDigits 10 (-n.toInt).toNat).dropWhile isSpace) =
        (true, Nat.toDigits 10 (-n.toInt).toNat) := rfl
    have hw := (scan_toDigits (-n.toInt).toNat).2
    have hv : -(((-n.toInt).toNat : ℕ) : ℤ) = n.toInt := by omega
    simp only [stoi, ht, hs, hw, Nat.toDigits_ne_nil, Nat.ofDigitChars_ten_toDigits, hv,
      if_neg (int32_range n), if_true, if_false, Int32.ofInt_toInt]

theorem addBinary_of_length {data : Bytes} (h : data.length < 2 ^ 16) :
    addBinary data = .correlationData data := by
  rw [addBinary, Nat.mod_eq_of_lt h, List.take_length]

/-- What the requester's callback sees of the metadata written by `SendReply`. -/
theorem readMsg_sendReply (m : AittMsg) (topic : String) (payload : Bytes)
    (h : m.correlation.length < 2 ^ 16) :
    readMsg ⟨topic, payload, some (sendReplyProps m)⟩ =
      .ok { topic := topic, correlation := m.correlation,
            sequence := m.sequence, endSequence := m.endSequence } := by
  have hend : stoi (if m.endSequence then "1" else "0") =
      .ok (if m.endSequence then 1 else 0) := by
    cases m.endSequence <;> decide
  have hkey : replySequenceNumKey ≠ replyIsEndSequenceKey := by decide
  simp only [readMsg, sendReplyProps, addBinary_of_length h, readString, readBinary,
    List.findSome?_cons, List.findSome?_nil, Option.getD_none, Option.getD_some,
    List.foldlM_cons, List.foldlM_nil, readUserProperty, stoi_toText, hend, if_neg hkey, if_true]
  cases m.endSequence <;> rfl

theorem readMsg_publishWithReply (topic replyTopic : String) (payload correlation : Bytes) :
    readMsg ⟨topic, payload, some (publishWithReplyProps replyTopic correlation)⟩ =
      .ok { topic := topic, replyTopic := cStr replyTopic,
            correlation := correlation.take (correlation.length % 2 ^ 16) } := rfl

end MqttProperties
