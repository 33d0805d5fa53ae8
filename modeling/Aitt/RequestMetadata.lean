import Aitt.ReplyExchange

/-! What the callback of a subscriber learns about a request, over either transport. Over MQTT
the correlation travels with its length, over TCP as a C string. -/
namespace RequestMetadata

open AittTypes Flexbuffers MqttProperties TcpMsgInfo ReplyExchange AittImpl

structure Metadata where
  topic : String
  replyTopic : String
  correlation : Bytes
  sequence : Int32
  endSequence : Bool
  deriving DecidableEq, Repr

def metadata (m : AittMsg) : Metadata :=
  ⟨m.topic, m.replyTopic, m.correlation, m.sequence, m.endSequence⟩

def publishWithReply [Package] (protocol : AittProtocol) (topic replyTopic : String)
    (correlation payload : Bytes) : Option Packet :=
  match protocol with
  | .mqtt => some (.mqtt ⟨cStr topic, payload, some (publishWithReplyProps replyTopic correlation)⟩)
  | .tcp | .tcpSecure => some (.tcp
      (packMsgInfo { topic := topic, replyTopic := replyTopic, correlation := correlation } false)
      payload)
  | .other _ => none

def seen [Package] (protocol : AittProtocol) (topic replyTopic : String)
    (correlation payload : Bytes) : Option Metadata :=
  ((publishWithReply protocol topic replyTopic correlation payload).bind Packet.decode).map metadata

theorem seen_mqtt [Package] (topic replyTopic : String) (correlation payload : Bytes)
    (h : correlation.length ≤ 65535) :
    seen .mqtt topic replyTopic correlation payload =
      some ⟨cStr topic, cStr replyTopic, correlation, 0, true⟩ := by
  have htake : correlation.take (correlation.length % 2 ^ 16) = correlation := by
    rw [Nat.mod_eq_of_lt (by omega), List.take_length]
  simp only [seen, publishWithReply, Option.bind_some, Packet.decode, readMsg_publishWithReply,
    htake]
  rfl

theorem seen_tcp [Package] (secure : Bool) (topic replyTopic : String) (correlation payload : Bytes)
    : seen (tcpProtocol secure) topic replyTopic correlation payload =
      if cStr topic = "" then none
      else some ⟨cStr topic, cStr replyTopic, cBytes correlation, 0, true⟩ := by
  have hsend : publishWithReply (tcpProtocol secure) topic replyTopic correlation payload =
      some (.tcp (packMsgInfo
        { topic := topic, replyTopic := replyTopic, correlation := correlation } false)
        payload) := by
    cases secure <;> rfl
  simp only [seen, hsend, Option.bind_some, Packet.decode, unpack_request]
  split
  · rfl
  · rfl

theorem cBytes_eq_self_iff (b : Bytes) : cBytes b = b ↔ 0 ∉ b := by
  rw [cBytes, List.takeWhile_eq_self_iff]
  constructor
  · intro h hz
    simpa using h 0 hz
  · intro h x hx
    simpa using ne_of_mem_of_not_mem hx h

/-- The callbacks of both transports learn the same, exactly if the correlation has no NUL
byte; a topic without a character in front of its first NUL reaches no callback over TCP. -/
theorem request_metadata_agrees_iff [Package] (secure : Bool) (topic replyTopic : String)
    (correlation payload : Bytes) (h : correlation.length ≤ 65535) :
    (∀ a ∈ seen (tcpProtocol secure) topic replyTopic correlation payload,
        ∀ b ∈ seen .mqtt topic replyTopic correlation payload, a = b) ↔
      0 ∉ correlation ∨ cStr topic = "" := by
  rw [seen_mqtt topic replyTopic correlation payload h, seen_tcp]
  by_cases ht : cStr topic = ""
  · rw [if_pos ht]
    exact iff_of_true nofun (.inr ht)
  · rw [if_neg ht, or_iff_left ht, ← cBytes_eq_self_iff]
    constructor
    · intro hall
      exact congrArg Metadata.correlation (hall _ rfl _ rfl)
    · rintro hc _ ⟨⟩ _ ⟨⟩
      rw [hc]

local instance : Package := plain

theorem plain_request_agrees :
    seen .tcpSecure "ask" "ask_AittRe_0" [1, 2] [9] = seen .mqtt "ask" "ask_AittRe_0" [1, 2] [9] ∧
      seen .mqtt "ask" "ask_AittRe_0" [1, 2] [9] ≠ none := by
  have htcp := seen_tcp true "ask" "ask_AittRe_0" [1, 2] [9]
  have hmqtt := seen_mqtt "ask" "ask_AittRe_0" [1, 2] [9] (by decide)
  rw [if_neg (by decide)] at htcp
  have hagree := (request_metadata_agrees_iff true "ask" "ask_AittRe_0" [1, 2] [9] (by decide)).mpr
    (.inl (by decide)) _ htcp _ hmqtt
  refine ⟨htcp.trans ((congrArg some hagree).trans hmqtt.symm), ?_⟩
  rw [hmqtt]
  nofun

/-- The NUL byte and what follows it are lost over TCP. -/
theorem nul_cuts_correlation :
    ¬ ∀ a ∈ seen .tcp "ask" "ask_AittRe_0" [1, 0, 2] [],
      ∀ b ∈ seen .mqtt "ask" "ask_AittRe_0" [1, 0, 2] [], a = b := by
  intro hall
  have htcp := seen_tcp false "ask" "ask_AittRe_0" [1, 0, 2] []
  have hmqtt := seen_mqtt "ask" "ask_AittRe_0" [1, 0, 2] [] (by decide)
  rw [if_neg (by decide)] at htcp
  have hsame := congrArg Metadata.correlation (hall _ htcp _ hmqtt)
  exact absurd hsame (by decide)

end RequestMetadata
