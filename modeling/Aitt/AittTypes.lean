import Mathlib.Data.List.TakeWhile

/-! Types shared by the MQTT client, the TCP module and the request/reply layer.
Addresses are natural numbers and `0` is the null pointer. -/
namespace AittTypes

abbrev Bytes := List UInt8
abbrev Address := ℕ

/-- One protocol of the enumeration, or any other value a caller may cast to it. -/
inductive AittProtocol where
  | mqtt
  | tcp
  | tcpSecure
  | other (bits : ℕ)
  deriving DecidableEq, Repr

inductive AittConnectionState where
  | disconnected
  | connected
  | connectFailed
  deriving DecidableEq, Repr

inductive ErrCode where
  | invalidArg
  | mqttErr
  | noDataErr
  | already
  | invalidState
  deriving DecidableEq, Repr

/-- `sequence` is a C `int`; its increment past `INT_MAX` is modelled as wrapping. -/
structure AittMsg where
  topic : String := ""
  correlation : Bytes := []
  replyTopic : String := ""
  sequence : Int32 := 0
  endSequence : Bool := true
  id : Address := 0
  protocol : AittProtocol := .mqtt
  deriving DecidableEq, Repr

def AittMsg.increaseSequence (m : AittMsg) : AittMsg := { m with sequence := m.sequence + 1 }

/-- What `c_str()` hands to a C function: everything before the first NUL. -/
def cStr (s : String) : String := String.ofList (s.toList.takeWhile (· ≠ '\x00'))

def cBytes (b : Bytes) : Bytes := b.takeWhile (· ≠ 0)

def NulFree (s : String) : Prop := '\x00' ∉ s.toList

instance (s : String) : Decidable (NulFree s) := inferInstanceAs (Decidable (_ ∉ _))

theorem cStr_of_nulFree {s : String} (h : NulFree s) : cStr s = s := by
  have ht : s.toList.takeWhile (· ≠ '\x00') = s.toList := by
    rw [List.takeWhile_eq_self_iff]
    intro c hc
    simpa using ne_of_mem_of_not_mem hc h
  rw [cStr, ht, String.ofList_toList]

theorem cStr_idem (t : String) : cStr (cStr t) = cStr t := by
  simp only [cStr, String.toList_ofList]
  rw [List.takeWhile_idem]

theorem cBytes_idem (b : Bytes) : cBytes (cBytes b) = cBytes b := List.takeWhile_idem

end AittTypes
