import Aitt.TcpFraming

/-! Messages on a secure connection. The length that goes ahead is the length of the
ciphertext, and it is this length that the receiver holds against the limit on messages. -/
namespace TcpSecureFraming

open AittTypes PartialTransfers TcpFraming

def blockSize : ℕ := 16

def getCryptogramSize (plainSize : ℕ) : ℕ := (plainSize / blockSize + 1) * blockSize

/-- The cipher of one connection, with its key and iv. Where decryption fails the result is
negative and the output buffer is left with anything in it. -/
structure Crypto where
  encrypt : Bytes → Bytes
  decrypt : Bytes → Option Bytes

/-- What the connection relies on for plaintexts of the sizes that occur. -/
structure Crypto.Faithful (c : Crypto) : Prop where
  length : ∀ p, p.length ≤ payloadMax → (c.encrypt p).length = getCryptogramSize p.length
  decrypted : ∀ p, p.length ≤ payloadMax → c.decrypt (c.encrypt p) = some p

def sendSizedDataSecure (c : Crypto) (accept : ℕ → Option ℕ) (data : Bytes) (s : Sink UInt8) :
    Sink UInt8 × Bool :=
  if data.length ≠ 0 then
    let dataBuf := c.encrypt data
    let sizeBuf := c.encrypt (int32Bytes dataBuf.length)
    sendBoth accept sizeBuf dataBuf s
  else
    send accept (c.encrypt (int32Bytes int32Max)) s

/-- Neither the result of decrypting the size nor that of the second `recv` is looked at. -/
def recvSizedDataSecure (c : Crypto) (r : Receiving) (s : Source UInt8) : Received :=
  let cipherSizeLen := getCryptogramSize 4
  let size := recv r cipherSizeLen s
  if size.1 < 0 then ⟨size.1, none, size.2.2⟩
  else
    let plainSizeBuf := overlay ((c.decrypt size.2.1).getD []) (r.malloc s cipherSizeLen)
    let cipherDataLen := int32OfBytes plainSizeBuf
    if cipherDataLen = int32Max then handleZeroMsg size.2.2
    else if messageMax < cipherDataLen then ⟨-1, none, size.2.2⟩
    else
      let body := recv r cipherDataLen size.2.2
      let cipherDataBuf := overlay body.2.1 (r.malloc size.2.2 cipherDataLen.toNat)
      match c.decrypt cipherDataBuf with
      | none => ⟨-1, none, body.2.2⟩
      | some plain => ⟨plain.length, some plain, body.2.2⟩

def recvBodySecure (c : Crypto) (r : Receiving) (cipherDataLen : ℤ) (t : Source UInt8) :
    Received :=
  if cipherDataLen = int32Max then handleZeroMsg t
  else if messageMax < cipherDataLen then ⟨-1, none, t⟩
  else
    let body := recv r cipherDataLen t
    let cipherDataBuf := overlay body.2.1 (r.malloc t cipherDataLen.toNat)
    match c.decrypt cipherDataBuf with
    | none => ⟨-1, none, body.2.2⟩
    | some plain => ⟨plain.length, some plain, body.2.2⟩

theorem recvSizedDataSecure_length (c : Crypto) (r : Receiving) {s : Source UInt8}
    (h : 16 ≤ s.stream.length) :
    recvSizedDataSecure c r s = recvBodySecure c r
      (int32OfBytes (overlay ((c.decrypt (s.stream.take 16)).getD []) (r.malloc s 16)))
      (recv r 16 s).2.2 := by
  have hsize : ((getCryptogramSize 4 : ℕ) : ℤ) = 16 := rfl
  have hr := recv_enough r (show (16 : ℤ).toNat ≤ s.stream.length from h)
  rw [recvSizedDataSecure, hsize, hr, if_neg (by decide), (recv_bytes r 16 s).1]
  rfl

variable {c : Crypto}

theorem int32Bytes_le (n : ℤ) : (int32Bytes n).length ≤ payloadMax := by
  rw [int32Bytes_length]
  decide

theorem recvSizedDataSecure_sized (hc : c.Faithful) (r : Receiving) {s : Source UInt8} {n : ℤ}
    (h0 : -2147483648 ≤ n) (h1 : n ≤ int32Max) {rest : Bytes}
    (hs : s.stream = c.encrypt (int32Bytes n) ++ rest) :
    ∃ t : Source UInt8, t.stream = rest ∧ recvSizedDataSecure c r s = recvBodySecure c r n t := by
  have hl : (c.encrypt (int32Bytes n)).length = 16 := by
    rw [hc.length _ (int32Bytes_le n), int32Bytes_length]
    rfl
  refine ⟨(recv r 16 s).2.2, ?_, ?_⟩
  · rw [(recv_bytes r 16 s).2, hs]
    exact List.drop_left' hl
  · rw [recvSizedDataSecure_length c r (by rw [hs, List.length_append]; omega), hs,
      List.take_left' hl, hc.decrypted _ (int32Bytes_le n), Option.getD_some, overlay,
      int32OfBytes_int32Bytes h0 h1]

def securePayloadBound : ℕ := 268435440

theorem le_payloadMax_of_lt {n : ℕ} (h : n < securePayloadBound) : n ≤ payloadMax := by
  simp only [securePayloadBound, payloadMax] at *
  omega

theorem getCryptogramSize_le_iff (n : ℕ) :
    (getCryptogramSize n : ℤ) ≤ messageMax ↔ n < securePayloadBound := by
  simp only [getCryptogramSize, blockSize, messageMax, securePayloadBound]
  omega

def secureFrame (c : Crypto) (message : Bytes) : Bytes :=
  if message.length ≠ 0 then
    c.encrypt (int32Bytes (c.encrypt message).length) ++ c.encrypt message
  else c.encrypt (int32Bytes int32Max)

theorem recvBodySecure_whole (hc : c.Faithful) (r : Receiving) {t : Source UInt8}
    {message rest : Bytes} (hm : message.length < securePayloadBound)
    (ht : t.stream = c.encrypt message ++ rest) :
    (recvBodySecure c r (c.encrypt message).length t).outcome =
        (↑message.length, some message) ∧
      (recvBodySecure c r (c.encrypt message).length t).source.stream = rest := by
  have hp := le_payloadMax_of_lt hm
  have hle := (getCryptogramSize_le_iff message.length).mpr hm
  rw [← hc.length message hp] at hle
  have h1 : ¬((c.encrypt message).length : ℤ) = int32Max := by
    simp only [int32Max, messageMax] at *
    omega
  have hb := recv_bytes r (c.encrypt message).length t
  rw [Int.toNat_natCast, ht, List.take_left, List.drop_left] at hb
  rw [recvBodySecure, if_neg h1, if_neg (by omega)]
  simp only [Int.toNat_natCast, hb.1, overlay_full, Receiving.malloc_length, le_refl,
    hc.decrypted message hp]
  exact ⟨rfl, hb.2⟩

theorem recvBodySecure_tooLong (c : Crypto) (r : Receiving) (t : Source UInt8) {n : ℕ}
    (hn : messageMax < n) (hi : (n : ℤ) ≠ int32Max) :
    (recvBodySecure c r n t).outcome = (-1, none) := by
  rw [recvBodySecure, if_neg hi, if_pos hn]
  rfl

theorem encrypt_length_lt (hc : c.Faithful) {message : Bytes}
    (hm : message.length ≤ payloadMax) : ((c.encrypt message).length : ℤ) < int32Max := by
  rw [hc.length message hm]
  simp only [getCryptogramSize, blockSize, int32Max, payloadMax] at *
  omega

theorem recvSizedDataSecure_frame (hc : c.Faithful) (r : Receiving) {s : Source UInt8}
    {message rest : Bytes} (hm : message.length < securePayloadBound)
    (hs : s.stream = secureFrame c message ++ rest) :
    (recvSizedDataSecure c r s).outcome = handedOut message ∧
      (recvSizedDataSecure c r s).source.stream = rest := by
  by_cases h0 : message = []
  · subst h0
    obtain ⟨t, ht, hr⟩ := recvSizedDataSecure_sized hc r (by decide) (Int.le_refl _) hs
    rw [hr]
    exact ⟨rfl, ht⟩
  · have hp := le_payloadMax_of_lt hm
    have hlt := encrypt_length_lt hc hp
    rw [secureFrame, if_pos (by simpa using h0), List.append_assoc] at hs
    obtain ⟨t, ht, hr⟩ := recvSizedDataSecure_sized hc r (by omega) (by omega) hs
    rw [hr, handedOut, if_neg h0]
    exact recvBodySecure_whole hc r hm ht

/-- A longer message is refused after its length has been read. -/
theorem recvSizedDataSecure_tooLong (hc : c.Faithful) (r : Receiving) {s : Source UInt8}
    {message rest : Bytes} (hm : securePayloadBound ≤ message.length)
    (hp : message.length ≤ payloadMax) (hs : s.stream = secureFrame c message ++ rest) :
    (recvSizedDataSecure c r s).outcome = (-1, none) := by
  have hlt := encrypt_length_lt hc hp
  have hgt : messageMax < ((c.encrypt message).length : ℤ) := by
    have h := (getCryptogramSize_le_iff message.length).not.mpr (by omega)
    rw [hc.length message hp]
    omega
  have h0 : message.length ≠ 0 := by
    simp only [securePayloadBound] at hm
    omega
  rw [secureFrame, if_pos h0, List.append_assoc] at hs
  obtain ⟨t, _, hr⟩ := recvSizedDataSecure_sized hc r (by omega) (by omega) hs
  rw [hr]
  exact recvBodySecure_tooLong c r t hgt (by omega)

theorem sendSizedDataSecure_accepted (c : Crypto) (accept : ℕ → ℕ) (m : Bytes)
    (s : Sink UInt8) :
    (sendSizedDataSecure c (some ∘ accept) m s).1.written = s.written ++ secureFrame c m ∧
      (sendSizedDataSecure c (some ∘ accept) m s).2 = true := by
  by_cases h0 : m.length ≠ 0
  · rw [sendSizedDataSecure, secureFrame, if_pos h0, if_pos h0, ← List.append_assoc]
    exact sendBoth_accepted accept _ _ s
  · rw [sendSizedDataSecure, secureFrame, if_neg h0, if_neg h0]
    exact writeLoop_accepts (fun _ => rfl) (Nat.le_refl _) s

theorem handedOut_ne_refused (m : Bytes) : (-1, none) ≠ handedOut m := by
  intro h
  have hl : (-1 : ℤ) = m.length := congrArg Prod.fst h
  omega

/-- The messages come out as they went in exactly when every ciphertext is within the limit. -/
theorem secure_framing_round_trip_iff (hc : c.Faithful) (accept : ℕ → ℕ) (r : Receiving)
    (messages : List Bytes) (hm : ∀ m ∈ messages, m.length ≤ payloadMax) (rest : Bytes) :
    let sent := sendMessages (sendSizedDataSecure c (some ∘ accept)) messages
    let got := recvMessages (recvSizedDataSecure c r) messages.length (sent.1.written ++ rest)
    sent.2 = true ∧
      (got.1 = messages.map handedOut ↔ ∀ m ∈ messages, m.length < securePayloadBound) := by
  obtain ⟨hw, hok⟩ := writeEach_frames (sendSizedDataSecure_accepted c accept) messages ⟨[], 0⟩
  have hgood : ∀ m ∈ messages, ∀ (s : Source UInt8) (rest : Bytes),
      s.stream = secureFrame c m ++ rest → m.length < securePayloadBound →
      (outcomeOf (recvSizedDataSecure c r) s).1 = handedOut m ∧
        (outcomeOf (recvSizedDataSecure c r) s).2.stream = rest :=
    fun _ _ _ _ hs hlt => recvSizedDataSecure_frame hc r hlt hs
  have hbad : ∀ m ∈ messages, ∀ (s : Source UInt8) (rest : Bytes),
      s.stream = secureFrame c m ++ rest → ¬m.length < securePayloadBound →
      (outcomeOf (recvSizedDataSecure c r) s).1 ≠ handedOut m := by
    intro m hmem s rest hs hlt
    rw [outcomeOf, recvSizedDataSecure_tooLong hc r (by omega) (hm m hmem) hs]
    exact handedOut_ne_refused m
  simp only [sendMessages, recvMessages, hw, List.nil_append]
  exact ⟨hok, readEach_frames_iff hgood hbad rfl⟩

def paddingOnly : Crypto where
  encrypt p :=
    let n := blockSize - p.length % blockSize
    p ++ List.replicate n (UInt8.ofNat n)
  decrypt ciphertext :=
    let n := (ciphertext.getLastD 0).toNat
    if 0 < n ∧ n ≤ blockSize ∧
        ciphertext.drop (ciphertext.length - n) = List.replicate n (UInt8.ofNat n) then
      some (ciphertext.take (ciphertext.length - n))
    else none

theorem paddingOnly_faithful : paddingOnly.Faithful where
  length p _ := by
    simp only [paddingOnly, List.length_append, List.length_replicate, getCryptogramSize,
      blockSize]
    omega
  decrypted p _ := by
    have hpos : 0 < blockSize - p.length % blockSize := by
      simp only [blockSize]
      omega
    have hle : blockSize - p.length % blockSize ≤ blockSize := Nat.sub_le _ _
    generalize hn : blockSize - p.length % blockSize = n at hpos hle
    have hlast : (p ++ List.replicate n (UInt8.ofNat n)).getLastD 0 = UInt8.ofNat n := by
      obtain ⟨k, rfl⟩ := Nat.exists_eq_add_of_lt hpos
      simp [List.replicate_succ']
    have htoNat : (UInt8.ofNat n).toNat = n := by
      rw [UInt8.toNat_ofNat']
      simp only [blockSize] at hle
      omega
    simp only [paddingOnly, hn, hlast, htoNat, List.length_append, List.length_replicate,
      Nat.add_sub_cancel, List.drop_left, List.take_left, hpos, hle, and_self, if_true]

theorem secure_framing_round_trip_of_three :
    paddingOnly.Faithful ∧
    (let r : Receiving := ⟨fun n => n % 3, fun _ => .closed, fun _ _ => 7⟩
     let messages : List Bytes := [[], [1, 2, 3], List.replicate 16 5]
     let sent := sendMessages (sendSizedDataSecure paddingOnly (some ∘ id)) messages
     (recvMessages (recvSizedDataSecure paddingOnly r) 3 (sent.1.written ++ [])).1 =
       messages.map handedOut) := by
  have h := secure_framing_round_trip_iff paddingOnly_faithful id
    ⟨fun n => n % 3, fun _ => .closed, fun _ _ => 7⟩ [[], [1, 2, 3], List.replicate 16 5]
    (by decide) []
  exact ⟨paddingOnly_faithful, h.2.mpr (by decide)⟩

theorem recvMessages_tooLong (hc : c.Faithful) (accept : ℕ → ℕ) (r : Receiving) {m : Bytes}
    (hm : securePayloadBound ≤ m.length) (hp : m.length ≤ payloadMax) :
    (recvMessages (recvSizedDataSecure c r) 1
      (sendMessages (sendSizedDataSecure c (some ∘ accept)) [m]).1.written).1 = [(-1, none)] := by
  obtain ⟨hw, _⟩ := writeEach_frames (sendSizedDataSecure_accepted c accept) [m] ⟨[], 0⟩
  have hs : (⟨[] ++ [m].flatMap (secureFrame c), 0⟩ : Source UInt8).stream =
      secureFrame c m ++ [] := by
    simp only [List.flatMap_cons, List.flatMap_nil, List.nil_append]
  simp only [sendMessages, recvMessages, hw, readEach, outcomeOf]
  rw [recvSizedDataSecure_tooLong hc r hm hp hs]

@[irreducible] def largestPayload : Bytes := List.replicate payloadMax 0

theorem largestPayload_length : largestPayload.length = payloadMax := by
  rw [largestPayload, List.length_replicate]

theorem largest_payload_does_not_return :
    largestPayload.length ≤ payloadMax ∧ paddingOnly.Faithful ∧
    (let r : Receiving := ⟨fun _ => 1000, fun _ => .closed, fun _ _ => 0⟩
     let sent := sendMessages (sendSizedDataSecure paddingOnly (some ∘ fun _ => 1000))
       [largestPayload]
     (recvMessages (recvSizedDataSecure paddingOnly r) 1 sent.1.written).1 ≠
       [handedOut largestPayload]) := by
  have hp : largestPayload.length ≤ payloadMax := by rw [largestPayload_length]
  have hm : securePayloadBound ≤ largestPayload.length := by
    rw [largestPayload_length]
    decide
  refine ⟨hp, paddingOnly_faithful, fun h => ?_⟩
  have hgot := (recvMessages_tooLong paddingOnly_faithful (fun _ => 1000)
    ⟨fun _ => 1000, fun _ => .closed, fun _ _ => 0⟩ hm hp).symm.trans h
  exact handedOut_ne_refused largestPayload (List.cons.inj hgot).1

end TcpSecureFraming
