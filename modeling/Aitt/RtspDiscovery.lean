import Aitt.TcpMsgInfo

/-! What an RTSP publisher tells about itself in its discovery entry, as the C++ module and as
the Java stream write and read it, and the address with credentials that a subscriber makes out
of it. `RTSPInfo` inserts at a byte of a `std::string`, `RTSPStream` at a `char` of a Java
string; both insert at offset seven, and neither looks at what is in front. -/
namespace RtspDiscovery

open AittTypes Flexbuffers TcpMsgInfo

/-- `AittStreamState`, and what else fits in the 32 bits of the enumeration. -/
inductive StreamState where
  | init
  | ready
  | playing
  | underflow
  | overflow
  | other (n : Fin 4294967291)
  deriving DecidableEq, Repr

def StreamState.toInt : StreamState → Int32
  | .init => 0
  | .ready => 1
  | .playing => 2
  | .underflow => 3
  | .overflow => 4
  | .other n => Int32.ofNat (n + 5)

/-- `static_cast<AittStreamState>`, which keeps the low 32 bits. -/
def StreamState.ofInt (value : Int64) : StreamState :=
  let n := value.toUInt64.toUInt32.toNat
  if n = 0 then .init
  else if n = 1 then .ready
  else if n = 2 then .playing
  else if n = 3 then .underflow
  else if n = 4 then .overflow
  else .other (Fin.ofNat _ (n - 5))

def urlPrefix : String := "rtsp://"

/-- The bytes of a `std::string`. -/
def utf8 (s : String) : Bytes := s.toList.flatMap String.utf8EncodeChar

def utf16EncodeChar (c : Char) : List UInt16 :=
  if c.toNat < 0x10000 then [UInt16.ofNat c.toNat]
  else
    [UInt16.ofNat (0xD800 + (c.toNat - 0x10000) / 0x400),
      UInt16.ofNat (0xDC00 + (c.toNat - 0x10000) % 0x400)]

/-- The `char` values of a Java string. -/
def utf16 (s : String) : List UInt16 := s.toList.flatMap utf16EncodeChar

/-- `std::string::insert` and `StringBuilder.insert`; `none` is the exception of an offset behind
the end. -/
def insertAt {α : Type*} (offset : ℕ) (text new : List α) : Option (List α) :=
  if offset ≤ text.length then some (text.take offset ++ new ++ text.drop offset) else none

def getCompleteURI (uri id password : Bytes) : Option Bytes :=
  if id ≠ [] ∧ password ≠ [] then
    insertAt 7 uri (id ++ utf8 ":" ++ password ++ utf8 "@")
  else some uri

def createCompleteUrl (url id password : List UInt16) : Option (List UInt16) :=
  if url = [] then some []
  else if id = [] then some url
  else if password = [] then some url
  else insertAt (utf16 urlPrefix).length url (id ++ utf16 ":" ++ password ++ utf16 "@")

structure RtspInfo where
  uri : String := ""
  id : String := ""
  password : String := ""
  deriving DecidableEq, Repr

def RtspInfo.getCompleteURI (info : RtspInfo) : Option Bytes :=
  RtspDiscovery.getCompleteURI (utf8 info.uri) (utf8 info.id) (utf8 info.password)

def updateDiscoveryMsg [Package] (serverState : StreamState) (info : RtspInfo) :
    List (String × Item) :=
  finish [("server_state", .int serverState.toInt.toInt64), ("URI", .string info.uri),
    ("ID", .string info.id), ("Password", .string info.password)]

def readInfo [Package] (map : List (String × Item)) : Option (StreamState × RtspInfo) :=
  if map.length ≠ 4 then none
  else
    some (.ofInt (asInt64 (lookup map "server_state")),
      { uri := cStr (asString (lookup map "URI") "")
        id := cStr (asString (lookup map "ID") "")
        password := cStr (asString (lookup map "Password") "") })

namespace Java

inductive StreamState where
  | init
  | ready
  | playing
  deriving DecidableEq, Repr

def StreamState.ordinal : StreamState → Int32
  | .init => 0
  | .ready => 1
  | .playing => 2

/-- `StreamState.values()[i]`; `none` is the exception. -/
def StreamState.values (i : Int32) : Option StreamState :=
  if i < 0 then none else [init, ready, playing][i.toInt.toNat]?

def StreamState.native : StreamState → RtspDiscovery.StreamState
  | .init => .init
  | .ready => .ready
  | .playing => .playing

/-- A URL that has not been set is empty here and null there. -/
structure DiscoveryInfo where
  url : String := ""
  id : String := ""
  password : String := ""
  height : Int32 := 480
  width : Int32 := 640
  deriving DecidableEq, Repr

def DiscoveryInfo.createCompleteUrl (info : DiscoveryInfo) : Option (List UInt16) :=
  RtspDiscovery.createCompleteUrl (utf16 info.url) (utf16 info.id) (utf16 info.password)

def updateDiscoveryMessage [Package] (serverState : StreamState) (info : DiscoveryInfo) :
    List (String × Item) :=
  finish [("server_state", .int serverState.ordinal.toInt64), ("url", .string info.url),
    ("id", .string info.id), ("password", .string info.password),
    ("height", .int info.height.toInt64), ("width", .int info.width.toInt64)]

def readInfo [Package] (map : List (String × Item)) : Option (StreamState × DiscoveryInfo) :=
  if map.length ≠ 6 then none
  else
    (StreamState.values (asInt32 (lookup map "server_state"))).map fun state =>
      (state,
        { url := asString (lookup map "url") ""
          id := asString (lookup map "id") ""
          password := asString (lookup map "password") ""
          height := asInt32 (lookup map "height")
          width := asInt32 (lookup map "width") })

end Java

def SameAddress (uri : Option Bytes) (url : Option (List UInt16)) : Prop :=
  ∃ text : Option String, uri = text.map utf8 ∧ url = text.map utf16

section Messages

variable [Package]

def UnderstoodByJava (serverState : StreamState) (info : RtspInfo) : Prop :=
  ∃ state d, Java.readInfo (updateDiscoveryMsg serverState info) = some (state, d) ∧
    state.native = serverState ∧ d.url = info.uri ∧ d.id = info.id ∧
    d.password = info.password ∧ SameAddress info.getCompleteURI d.createCompleteUrl

def UnderstoodByCpp (serverState : Java.StreamState) (info : Java.DiscoveryInfo) : Prop :=
  ∃ state i, readInfo (Java.updateDiscoveryMessage serverState info) = some (state, i) ∧
    state = serverState.native ∧ i.uri = info.url ∧ i.id = info.id ∧
    i.password = info.password ∧ SameAddress i.getCompleteURI info.createCompleteUrl

omit [Package] in
/-- Widening keeps the low 32 bits. -/
theorem toUInt32_toInt64 (x : Int32) : x.toInt64.toUInt64.toUInt32 = x.toUInt32 := by
  apply UInt32.toBitVec_inj.mp
  change (BitVec.signExtend 64 x.toBitVec).setWidth 32 = x.toBitVec
  ext i hi
  rw [BitVec.getElem_setWidth, BitVec.getLsbD_signExtend]
  simp [hi, Nat.lt_of_lt_of_le hi (by decide : 32 ≤ 64)]

omit [Package] in
theorem ofInt_toInt (s : StreamState) : StreamState.ofInt s.toInt.toInt64 = s := by
  cases s with
  | other n =>
    have hn : (n : ℕ) < 4294967291 := n.isLt
    have hnat : (Int32.ofNat (n + 5)).toInt64.toUInt64.toUInt32.toNat = n + 5 := by
      rw [toUInt32_toInt64, Int32.toUInt32_ofNat', UInt32.toNat_ofNat']
      exact Nat.mod_eq_of_lt (by omega)
    simp only [StreamState.toInt, StreamState.ofInt, hnat]
    rw [if_neg (by omega), if_neg (by omega), if_neg (by omega), if_neg (by omega),
      if_neg (by omega)]
    congr 1
    ext
    simp only [Fin.ofNat, Nat.add_sub_cancel]
    exact Nat.mod_eq_of_lt hn
  | _ => rfl

omit [Package] in
theorem values_ordinal (s : Java.StreamState) : Java.StreamState.values s.ordinal = some s := by
  cases s <;> rfl

theorem java_readInfo_updateDiscoveryMessage (state : Java.StreamState)
    (info : Java.DiscoveryInfo) :
    Java.readInfo (Java.updateDiscoveryMessage state info) = some (state, info) := by
  have hkeys : ["server_state", "url", "id", "password", "height", "width"].Nodup := by decide
  have hn : (([("server_state", .int state.ordinal.toInt64), ("url", .string info.url),
    ("id", .string info.id), ("password", .string info.password),
    ("height", .int info.height.toInt64), ("width", .int info.width.toInt64)] :
      List (String × Item)).map (·.1)).Nodup := hkeys
  have hl := lookup_finish hn
  rw [Java.readInfo, Java.updateDiscoveryMessage, length_finish, if_neg (by simp)]
  rw [hl, hl, hl, hl, hl, hl]
  simp [valueOf, asInt32_int, asString, values_ordinal]

theorem java_rejects (state : StreamState) (info : RtspInfo) :
    Java.readInfo (updateDiscoveryMsg state info) = none := by
  rw [Java.readInfo, updateDiscoveryMsg, length_finish]
  exact if_pos (by simp)

theorem cpp_rejects (state : Java.StreamState) (info : Java.DiscoveryInfo) :
    readInfo (Java.updateDiscoveryMessage state info) = none := by
  rw [readInfo, Java.updateDiscoveryMessage, length_finish]
  exact if_pos (by simp)

/-- Neither side ever understands the other: the entries have four and six fields, and each
reader insists on the number that its own language writes. -/
theorem languages_never_interoperate (state : StreamState) (info : RtspInfo)
    (javaState : Java.StreamState) (javaInfo : Java.DiscoveryInfo) :
    ¬ UnderstoodByJava state info ∧ ¬ UnderstoodByCpp javaState javaInfo := by
  constructor
  · rintro ⟨_, _, hr, -⟩
    rw [java_rejects] at hr
    cases hr
  · rintro ⟨_, _, hr, -⟩
    rw [cpp_rejects] at hr
    cases hr

end Messages

local instance : Package := plain

theorem ready_publisher_not_understood :
    ¬ UnderstoodByJava .ready ⟨"rtsp://192.168.1.2:554/video", "admin", "1234"⟩ ∧
      ¬ UnderstoodByCpp .ready ⟨"rtsp://192.168.1.2:554/video", "admin", "1234", 480, 640⟩ := by
  constructor
  · rintro ⟨_, _, hr, -⟩
    rw [java_rejects] at hr
    cases hr
  · rintro ⟨_, _, hr, -⟩
    rw [cpp_rejects] at hr
    cases hr

end RtspDiscovery
