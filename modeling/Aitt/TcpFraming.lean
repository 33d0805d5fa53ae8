import Aitt.AittTypes
import Aitt.PartialTransfers
import Mathlib.Tactic.SplitIfs

/-! Messages on one TCP connection. Each is sent as its length, four bytes as they lie in
memory, and its contents; on a secure connection both parts are encrypted on their own. An
empty message is a length that no other message has and nothing after it. -/
namespace TcpFraming

open AittTypes PartialTransfers

def messageMax : ℤ := 268435455
def payloadMax : ℕ := 268435455
def int32Max : ℤ := 2147483647
def enotconn : ℤ := 107

def int32Bytes (n : ℤ) : Bytes :=
  let u := (n % 4294967296).toNat
  [UInt8.ofNat u, UInt8.ofNat (u / 256), UInt8.ofNat (u / 65536), UInt8.ofNat (u / 16777216)]

def int32OfBytes : Bytes → ℤ
  | b0 :: b1 :: b2 :: b3 :: _ =>
    let u : ℤ := b0.toNat + 256 * b1.toNat + 65536 * b2.toNat + 16777216 * b3.toNat
    if u ≤ int32Max then u else u - 4294967296
  | _ => 0

theorem int32OfBytes_int32Bytes {n : ℤ} (h0 : -2147483648 ≤ n) (h1 : n ≤ int32Max)
    (rest : Bytes) : int32OfBytes (int32Bytes n ++ rest) = n := by
  simp only [int32Max] at h1
  simp only [int32Bytes, List.cons_append, int32OfBytes, UInt8.toNat_ofNat', int32Max]
  split_ifs <;> omega

@[simp] theorem int32Bytes_length (n : ℤ) : (int32Bytes n).length = 4 := rfl

/-- Why no more bytes come: the peer closed the connection, or `recv` reports an error. -/
inductive Ending where
  | closed
  | failed
  deriving DecidableEq, Repr

def Ending.code : Ending → ℤ
  | .closed => -enotconn
  | .failed => -1

/-- What the outside decides for the receiving end: how much each call of `recv` brings, what
the calls at the end of the stream report, and what fresh memory holds. -/
structure Receiving where
  split : ℕ → ℕ
  ending : ℕ → Ending
  memory : ℕ → ℕ → UInt8

def Receiving.malloc (r : Receiving) (s : Source UInt8) (size : ℕ) : Bytes :=
  (List.range size).map (r.memory s.calls)

def overlay (bytes buffer : Bytes) : Bytes := bytes ++ buffer.drop bytes.length

def recv (r : Receiving) (size : ℤ) (s : Source UInt8) : ℤ × Bytes × Source UInt8 :=
  let out := readLoop r.split size.toNat size.toNat s
  (if out.1.length < size.toNat then (r.ending out.2.calls).code else size.toNat, out)

structure Received where
  result : ℤ
  data : Option Bytes
  source : Source UInt8

def handleZeroMsg (s : Source UInt8) : Received := ⟨0, none, s⟩

/-- The result of the second `recv` is not looked at. -/
def recvSizedDataNormal (r : Receiving) (s : Source UInt8) : Received :=
  let size := recv r 4 s
  if size.1 < 0 then ⟨size.1, none, size.2.2⟩
  else
    let dataLen := int32OfBytes size.2.1
    if dataLen = int32Max then handleZeroMsg size.2.2
    else if messageMax < dataLen then ⟨-1, none, size.2.2⟩
    else
      let body := recv r dataLen size.2.2
      let buffer := overlay body.2.1 (r.malloc size.2.2 dataLen.toNat)
      ⟨dataLen, if dataLen < 0 then none else some buffer, body.2.2⟩

/-- `false` when a call of `send` failed and an exception was thrown. -/
def send (accept : ℕ → Option ℕ) (data : Bytes) (s : Sink UInt8) : Sink UInt8 × Bool :=
  writeLoop accept data.length data s

def sendBoth (accept : ℕ → Option ℕ) (first second : Bytes) : Sink UInt8 → Sink UInt8 × Bool :=
  andThen (send accept first) (send accept second)

def sendSizedDataNormal (accept : ℕ → Option ℕ) (data : Bytes) (s : Sink UInt8) :
    Sink UInt8 × Bool :=
  let fixedDataSize : ℤ := if data.length = 0 then int32Max else data.length
  sendBoth accept (int32Bytes fixedDataSize) data s

theorem recv_bytes (r : Receiving) (size : ℤ) (s : Source UInt8) :
    (recv r size s).2.1 = s.stream.take size.toNat ∧
      (recv r size s).2.2.stream = s.stream.drop size.toNat :=
  readLoop_spec r.split (Nat.le_refl _) s

theorem recv_enough (r : Receiving) {size : ℤ} {s : Source UInt8}
    (h : size.toNat ≤ s.stream.length) : (recv r size s).1 = size.toNat := by
  have hl : (recv r size s).2.1.length = size.toNat := by
    rw [(recv_bytes r size s).1, List.length_take]
    omega
  exact if_neg (by exact hl.not_lt)

theorem Ending.code_neg (e : Ending) : e.code < 0 := by
  cases e <;> decide

theorem recv_short (r : Receiving) {size : ℤ} {s : Source UInt8}
    (h : s.stream.length < size.toNat) :
    (recv r size s).1 = (r.ending (recv r size s).2.2.calls).code := by
  have hl : (recv r size s).2.1.length < size.toNat := by
    rw [(recv_bytes r size s).1, List.length_take]
    omega
  exact if_pos hl

theorem overlay_full {bytes buffer : Bytes} (h : buffer.length ≤ bytes.length) :
    overlay bytes buffer = bytes := by
  rw [overlay, List.drop_eq_nil_of_le h, List.append_nil]

@[simp] theorem Receiving.malloc_length (r : Receiving) (s : Source UInt8) (size : ℕ) :
    (r.malloc s size).length = size := by
  simp [Receiving.malloc]

def handedOut (message : Bytes) : ℤ × Option Bytes :=
  (message.length, if message = [] then none else some message)

def Received.outcome (x : Received) : ℤ × Option Bytes := (x.result, x.data)

def sendMessages (sendOne : Bytes → Sink UInt8 → Sink UInt8 × Bool) (messages : List Bytes) :
    Sink UInt8 × Bool :=
  writeEach sendOne messages ⟨[], 0⟩

def outcomeOf (recvOne : Source UInt8 → Received) (s : Source UInt8) :
    (ℤ × Option Bytes) × Source UInt8 :=
  ((recvOne s).outcome, (recvOne s).source)

def recvMessages (recvOne : Source UInt8 → Received) (n : ℕ) (stream : Bytes) :
    List (ℤ × Option Bytes) × Source UInt8 :=
  readEach (outcomeOf recvOne) n ⟨stream, 0⟩

def normalFrame (message : Bytes) : Bytes :=
  int32Bytes (if message.length = 0 then int32Max else message.length) ++ message

def recvBodyNormal (r : Receiving) (dataLen : ℤ) (t : Source UInt8) : Received :=
  if dataLen = int32Max then handleZeroMsg t
  else if messageMax < dataLen then ⟨-1, none, t⟩
  else
    ⟨dataLen, if dataLen < 0 then none
      else some (overlay (recv r dataLen t).2.1 (r.malloc t dataLen.toNat)), (recv r dataLen t).2.2⟩

theorem recvSizedDataNormal_cut (r : Receiving) {s : Source UInt8} (h : s.stream.length < 4) :
    (recvSizedDataNormal r s).outcome = ((r.ending (recv r 4 s).2.2.calls).code, none) ∧
      (recvSizedDataNormal r s).source.stream = [] := by
  have hr := recv_short r (show s.stream.length < (4 : ℤ).toNat from h)
  have hneg := (r.ending (recv r 4 s).2.2.calls).code_neg
  rw [recvSizedDataNormal, hr, if_pos hneg]
  refine ⟨rfl, ?_⟩
  rw [(recv_bytes r 4 s).2]
  exact List.drop_eq_nil_of_le (by exact Nat.le_of_lt h)

theorem recvSizedDataNormal_length (r : Receiving) {s : Source UInt8}
    (h : 4 ≤ s.stream.length) :
    recvSizedDataNormal r s =
      recvBodyNormal r (int32OfBytes (s.stream.take 4)) (recv r 4 s).2.2 := by
  have hr := recv_enough r (show (4 : ℤ).toNat ≤ s.stream.length from h)
  rw [recvSizedDataNormal, hr, if_neg (by decide), (recv_bytes r 4 s).1]
  rfl

theorem recvBodyNormal_whole (r : Receiving) {t : Source UInt8} {body rest : Bytes}
    (hb : body.length ≤ payloadMax) (ht : t.stream = body ++ rest) :
    (recvBodyNormal r body.length t).outcome = (↑body.length, some body) ∧
      (recvBodyNormal r body.length t).source.stream = rest := by
  have h1 : ¬(body.length : ℤ) = int32Max := by
    simp only [int32Max, payloadMax] at *
    omega
  have h2 : ¬messageMax < body.length := by
    simp only [messageMax, payloadMax] at *
    omega
  have h3 : ¬(body.length : ℤ) < 0 := by omega
  rw [recvBodyNormal, if_neg h1, if_neg h2, if_neg h3, (recv_bytes r body.length t).1]
  constructor
  · rw [ht, Int.toNat_natCast, List.take_left, overlay_full (by simp)]
    rfl
  · rw [(recv_bytes r body.length t).2, ht, Int.toNat_natCast, List.drop_left]

theorem recvSizedDataNormal_frame (r : Receiving) {s : Source UInt8} {message rest : Bytes}
    (hm : message.length ≤ payloadMax) (hs : s.stream = normalFrame message ++ rest) :
    (recvSizedDataNormal r s).outcome = handedOut message ∧
      (recvSizedDataNormal r s).source.stream = rest := by
  rw [normalFrame, List.append_assoc] at hs
  have hlen : 4 ≤ s.stream.length := by
    rw [hs, List.length_append]
    exact Nat.le_add_right _ _
  have ht : (recv r 4 s).2.2.stream = message ++ rest := by
    rw [(recv_bytes r 4 s).2, hs]
    rfl
  rw [recvSizedDataNormal_length r hlen, hs, List.take_append_of_le_length (by rfl),
    ← List.append_nil (List.take _ _), List.take_of_length_le (by rfl)]
  by_cases h0 : message = []
  · subst h0
    rw [int32OfBytes_int32Bytes (by decide) (by decide)]
    exact ⟨rfl, ht⟩
  · have hne : ¬message.length = 0 := by simpa using h0
    rw [if_neg hne, int32OfBytes_int32Bytes (by omega)
      (by simp only [int32Max, payloadMax] at *; omega), handedOut, if_neg h0]
    exact recvBodyNormal_whole r hm ht

theorem sendBoth_accepted (accept : ℕ → ℕ) (first second : Bytes) (s : Sink UInt8) :
    (sendBoth (some ∘ accept) first second s).1.written = s.written ++ first ++ second ∧
      (sendBoth (some ∘ accept) first second s).2 = true := by
  have ha : ∀ n, ((some ∘ accept) n).isSome = true := fun _ => rfl
  obtain ⟨h1, h2⟩ := writeLoop_accepts ha (Nat.le_refl first.length) s
  obtain ⟨k1, k2⟩ := writeLoop_accepts ha (Nat.le_refl second.length)
    (writeLoop (some ∘ accept) first.length first s).1
  rw [h1] at k1
  simp only [sendBoth, andThen, send, h2, if_true]
  exact ⟨k1, k2⟩

/-- However the transfers are split, the messages come out as they went in, and nothing of
what follows them is consumed. -/
theorem normal_framing_round_trip (accept : ℕ → ℕ) (r : Receiving) (messages : List Bytes)
    (hm : ∀ m ∈ messages, m.length ≤ payloadMax) (rest : Bytes) :
    let sent := sendMessages (sendSizedDataNormal (some ∘ accept)) messages
    let got := recvMessages (recvSizedDataNormal r) messages.length (sent.1.written ++ rest)
    sent.2 = true ∧ got.1 = messages.map handedOut ∧ got.2.stream = rest := by
  have hsend : ∀ m s, (sendSizedDataNormal (some ∘ accept) m s).1.written =
      s.written ++ normalFrame m ∧ (sendSizedDataNormal (some ∘ accept) m s).2 = true := by
    intro m s
    obtain ⟨hw, hok⟩ := sendBoth_accepted accept
      (int32Bytes (if m.length = 0 then int32Max else m.length)) m s
    rw [List.append_assoc] at hw
    exact ⟨hw, hok⟩
  have hrecv : ∀ m ∈ messages, ∀ (s : Source UInt8) (rest : Bytes),
      s.stream = normalFrame m ++ rest →
      (outcomeOf (recvSizedDataNormal r) s).1 = handedOut m ∧
        (outcomeOf (recvSizedDataNormal r) s).2.stream = rest :=
    fun m hmem _ _ hs => recvSizedDataNormal_frame r (hm m hmem) hs
  obtain ⟨hw, hok⟩ := writeEach_frames hsend messages ⟨[], 0⟩
  simp only [sendMessages, recvMessages, hw, List.nil_append]
  exact ⟨hok, readEach_frames hrecv rfl⟩

/-- One byte at a time, with an empty message in between. -/
theorem normal_framing_round_trip_byte_by_byte :
    let r : Receiving := ⟨fun _ => 0, fun _ => .closed, fun _ _ => 0⟩
    let messages : List Bytes := [[1, 2, 3], [], [255]]
    let sent := sendMessages (sendSizedDataNormal (some ∘ fun _ => 0)) messages
    sent.1.written.length = 16 ∧
      (recvMessages (recvSizedDataNormal r) 3 sent.1.written).1 =
        [(3, some [1, 2, 3]), (0, none), (1, some [255])] := by
  have h := normal_framing_round_trip (fun _ => 0) ⟨fun _ => 0, fun _ => .closed, fun _ _ => 0⟩
    [[1, 2, 3], [], [255]] (by decide) []
  exact ⟨by decide, by simpa [handedOut] using h.2.1⟩

end TcpFraming
