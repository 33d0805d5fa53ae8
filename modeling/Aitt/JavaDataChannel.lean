import Mathlib.Data.UInt
import Aitt.ListChunks

/-! Messages over the data channel of the Java streams, which keeps the order and loses
nothing. A long message is compressed and sent in chunks with a marker after the last. -/
namespace JavaDataChannel

open ListChunks

abbrev Bytes := List UInt8

def maxMessageSize : ℕ := 32768

def maxUncompressedMessageSize : ℕ := 295936

def eofMessage : Bytes := [0x45, 0x4F, 0x46]

/-- The compression library. It refuses arrays whose compressed form might not fit in one, and
`decompress` is given the capacity of its result. -/
structure Zstd where
  compress : Bytes → Option Bytes
  decompressedSize : Bytes → ℕ
  decompress : Bytes → ℕ → Option Bytes
  int_length : ∀ {message data}, compress message = some data → message.length < 2 ^ 31
  size_eq : ∀ {message data}, compress message = some data →
    decompressedSize data = message.length
  inverts : ∀ {message data}, compress message = some data → ∀ {capacity},
    message.length ≤ capacity → decompress data capacity = some message

def chunkLoop (compressData : Bytes) (i len : ℕ) : List Bytes :=
  if i < compressData.length then
    (compressData.drop i).take (min len maxMessageSize) ::
      chunkLoop compressData (i + maxMessageSize) (len - maxMessageSize)
  else []
termination_by compressData.length - i
decreasing_by
  have hsize : 0 < maxMessageSize := by decide
  omega

variable (z : Zstd)

def pushMessageData (message : Bytes) : List Bytes × Bool :=
  if message.length < maxMessageSize then ([message], true)
  else
    match z.compress message with
    | none => ([], false)
    | some compressData =>
      (chunkLoop compressData 0 compressData.length ++ [eofMessage], true)

structure Subscriber where
  recvLargeChunk : Bool := false
  baos : Bytes := []
  pushed : List Bytes := []
  deriving DecidableEq, Repr

def toIntExact (n : ℕ) : Option ℕ := if n < 2 ^ 31 then some n else none

def unCompress (compBytes : Bytes) : Option Bytes := do
  let deCompSize ← toIntExact (z.decompressedSize compBytes)
  z.decompress compBytes (max deCompSize maxUncompressedMessageSize)

/-- Only the bytes of the marker decode to its text. -/
def Subscriber.handleLargeMessage (s : Subscriber) (buffer : Bytes) : Subscriber :=
  if buffer = eofMessage then
    match unCompress z s.baos with
    | some deCompBytes => ⟨false, [], s.pushed ++ [deCompBytes]⟩
    | none => s
  else { s with recvLargeChunk := true, baos := s.baos ++ buffer }

def Subscriber.onMessage (s : Subscriber) (buffer : Bytes) : Subscriber :=
  if s.recvLargeChunk = false ∧ buffer.length < maxMessageSize then
    { s with pushed := s.pushed ++ [buffer] }
  else s.handleLargeMessage z buffer

def transfer (s : Subscriber) (messages : List Bytes) : Subscriber :=
  (messages.flatMap fun message => (pushMessageData z message).1).foldl (·.onMessage z ·) s

def received (messages : List Bytes) : List Bytes := (transfer z {} messages).pushed

/-- Short, or with a compressed form that has a full chunk and does not end in a chunk that is
the marker. -/
def Transferable (message : Bytes) : Prop :=
  message.length < maxMessageSize ∨
    ∃ data, z.compress message = some data ∧ maxMessageSize ≤ data.length ∧
      remainder maxMessageSize data ≠ eofMessage

variable {z}

theorem chunkLoop_eq_chunks (compressData : Bytes) (i : ℕ) :
    chunkLoop compressData i (compressData.length - i) =
      chunks maxMessageSize (compressData.drop i) := by
  induction h : compressData.length - i using Nat.strongRecOn generalizing i with
  | ind k ih =>
    have hsize : 0 < maxMessageSize := by decide
    rw [chunkLoop]
    by_cases hi : i < compressData.length
    · have hne : compressData.drop i ≠ [] := by
        rw [Ne, List.drop_eq_nil_iff]
        omega
      have hrest : k - maxMessageSize = compressData.length - (i + maxMessageSize) := by omega
      rw [if_pos hi, chunks_of_ne_nil hsize hne, List.drop_drop, hrest,
        ih _ (by omega) _ rfl, List.take_eq_take_iff.mpr]
      rw [List.length_drop]
      omega
    · rw [if_neg hi, List.drop_eq_nil_of_le (by omega), chunks_nil]

theorem unCompress_compress {message data : Bytes} (h : z.compress message = some data) :
    unCompress z data = some message := by
  have hint : toIntExact (z.decompressedSize data) = some message.length := by
    rw [z.size_eq h, toIntExact, if_pos (z.int_length h)]
  rw [unCompress, hint]
  exact z.inverts h (Nat.le_max_left _ _)

def collecting (pushed : List Bytes) (baos : Bytes) : Subscriber :=
  ⟨!baos.isEmpty, baos, pushed⟩

variable {pushed : List Bytes} {baos buffer message data : Bytes}

theorem eofMessage_length_lt : eofMessage.length < maxMessageSize := by decide

theorem onMessage_short (h : buffer.length < maxMessageSize) :
    (collecting pushed []).onMessage z buffer = collecting (pushed ++ [buffer]) [] :=
  if_pos ⟨rfl, h⟩

theorem onMessage_chunk (hne : buffer ≠ []) (heof : buffer ≠ eofMessage)
    (h : baos ≠ [] ∨ buffer.length = maxMessageSize) :
    (collecting pushed baos).onMessage z buffer = collecting pushed (baos ++ buffer) := by
  have hlarge : ¬ ((collecting pushed baos).recvLargeChunk = false ∧
      buffer.length < maxMessageSize) := by
    rintro ⟨hrecv, hlt⟩
    rcases h with h | h
    · simp [collecting, h] at hrecv
    · omega
  rw [Subscriber.onMessage, if_neg hlarge, Subscriber.handleLargeMessage, if_neg heof]
  simp [collecting, hne]

/-- The marker after collected chunks. -/
theorem onMessage_eof (h : baos ≠ []) :
    (collecting pushed baos).onMessage z eofMessage =
      match unCompress z baos with
      | some deCompBytes => collecting (pushed ++ [deCompBytes]) []
      | none => collecting pushed baos := by
  have hlarge : ¬ ((collecting pushed baos).recvLargeChunk = false ∧
      eofMessage.length < maxMessageSize) := by
    rintro ⟨hrecv, -⟩
    simp [collecting, h] at hrecv
  rw [Subscriber.onMessage, if_neg hlarge, Subscriber.handleLargeMessage, if_pos rfl]
  rfl

theorem foldl_full_chunks (pushed : List Bytes) (data : Bytes) :
    (chunks maxMessageSize data).foldl (·.onMessage z ·) (collecting pushed []) =
      (chunks maxMessageSize (remainder maxMessageSize data)).foldl (·.onMessage z ·)
        (collecting pushed (whole maxMessageSize data)) := by
  have hfull : ∀ baos chunk : Bytes, chunk.length = maxMessageSize →
      (collecting pushed baos).onMessage z chunk = collecting pushed (baos ++ chunk) := by
    intro baos chunk hlen
    have hne : chunk ≠ [] := by
      rintro rfl
      exact absurd hlen (by decide)
    refine onMessage_chunk hne ?_ (.inr hlen)
    rintro rfl
    exact absurd hlen (by decide)
  have hfold := foldl_chunks (by decide) hfull [] data
  rwa [List.nil_append] at hfold

theorem whole_ne_nil (h : maxMessageSize ≤ data.length) : whole maxMessageSize data ≠ [] := by
  have hdiv := Nat.div_pos h (by decide)
  rw [← List.length_pos_iff, length_whole]
  exact Nat.mul_pos hdiv (by decide)

/-- The chunks of a compressed form with a full chunk, up to the marker that the publisher
sends after them. -/
theorem foldl_chunks_collected (pushed : List Bytes) (h : maxMessageSize ≤ data.length)
    (hrest : remainder maxMessageSize data ≠ eofMessage) :
    (chunks maxMessageSize data).foldl (·.onMessage z ·) (collecting pushed []) =
      collecting pushed data := by
  rw [foldl_full_chunks]
  by_cases hnil : remainder maxMessageSize data = []
  · have hw := whole_append_remainder maxMessageSize data
    rw [hnil, List.append_nil] at hw
    rw [hnil, chunks_nil, List.foldl_nil, hw]
  · have hlt := length_remainder_lt (n := maxMessageSize) (by decide) data
    rw [chunks_of_length_le (by decide) hnil hlt.le, List.foldl_cons, List.foldl_nil,
      onMessage_chunk hnil hrest (.inl (whole_ne_nil h)), whole_append_remainder]

theorem pushMessageData_short (h : message.length < maxMessageSize) :
    (pushMessageData z message).1 = [message] := by
  rw [pushMessageData, if_pos h]

theorem pushMessageData_long (h : ¬ message.length < maxMessageSize)
    (hc : z.compress message = some data) :
    (pushMessageData z message).1 = chunks maxMessageSize data ++ [eofMessage] := by
  rw [pushMessageData, if_neg h, hc]
  exact congrArg (· ++ [eofMessage]) (chunkLoop_eq_chunks data 0)

/-- A transferable message is given to the callback and leaves the subscriber waiting. -/
theorem transfer_one (pushed : List Bytes) (h : Transferable z message) :
    transfer z (collecting pushed []) [message] = collecting (pushed ++ [message]) [] := by
  rw [transfer, List.flatMap_singleton]
  by_cases hlt : message.length < maxMessageSize
  · rw [pushMessageData_short hlt]
    exact onMessage_short hlt
  · obtain ⟨data, hc, hle, hrest⟩ := h.resolve_left hlt
    have hne : data ≠ [] := List.ne_nil_of_length_pos (Nat.lt_of_lt_of_le (by decide) hle)
    rw [pushMessageData_long hlt hc, List.foldl_append, foldl_chunks_collected pushed hle hrest,
      List.foldl_cons, List.foldl_nil, onMessage_eof hne, unCompress_compress hc]

/-- With a last chunk that is the marker, the message is lost or followed by another. -/
theorem transfer_marker (pushed : List Bytes) (hlong : ¬ message.length < maxMessageSize)
    (hc : z.compress message = some data) (hle : maxMessageSize ≤ data.length)
    (hrest : remainder maxMessageSize data = eofMessage) :
    transfer z (collecting pushed []) [message] =
      match unCompress z (whole maxMessageSize data) with
      | some deCompBytes => collecting (pushed ++ [deCompBytes] ++ [eofMessage]) []
      | none => collecting pushed (whole maxMessageSize data) := by
  have hmark : chunks maxMessageSize eofMessage = [eofMessage] :=
    chunks_of_length_le (by decide) (by decide) eofMessage_length_lt.le
  rw [transfer, List.flatMap_singleton, pushMessageData_long hlong hc, List.foldl_append,
    foldl_full_chunks, hrest, hmark, List.foldl_cons, List.foldl_nil, List.foldl_cons,
    List.foldl_nil, onMessage_eof (whole_ne_nil hle)]
  cases hu : unCompress z (whole maxMessageSize data) with
  | none => rw [onMessage_eof (whole_ne_nil hle), hu]
  | some deCompBytes => exact onMessage_short eofMessage_length_lt

/-- A compressed form without a full chunk is taken for a short message, and so is the marker
after it. -/
theorem transfer_compressed (pushed : List Bytes) (hlong : ¬ message.length < maxMessageSize)
    (hc : z.compress message = some data) (hshort : data.length < maxMessageSize) :
    transfer z (collecting pushed []) [message] =
      collecting (pushed ++ chunks maxMessageSize data ++ [eofMessage]) [] := by
  have hchunk : (chunks maxMessageSize data).foldl (·.onMessage z ·) (collecting pushed []) =
      collecting (pushed ++ chunks maxMessageSize data) [] := by
    by_cases hnil : data = []
    · rw [hnil, chunks_nil, List.append_nil, List.foldl_nil]
    · rw [chunks_of_length_le (by decide) hnil hshort.le]
      exact onMessage_short hshort
  rw [transfer, List.flatMap_singleton, pushMessageData_long hlong hc, List.foldl_append, hchunk,
    List.foldl_cons, List.foldl_nil, onMessage_short eofMessage_length_lt]

/-- Any other message is lost, followed by another or replaced by shorter ones. -/
theorem not_transfer_one (pushed : List Bytes) (h : ¬ Transferable z message) :
    (transfer z (collecting pushed []) [message]).pushed ≠ pushed ++ [message] := by
  have hlong : ¬ message.length < maxMessageSize := fun hlt => h (.inl hlt)
  intro he
  cases hc : z.compress message with
  | none =>
    rw [transfer, List.flatMap_singleton, pushMessageData, if_neg hlong, hc] at he
    simp [collecting] at he
  | some data =>
    by_cases hle : maxMessageSize ≤ data.length
    · have hrest : remainder maxMessageSize data = eofMessage := by
        by_contra hrest
        exact h (.inr ⟨data, hc, hle, hrest⟩)
      rw [transfer_marker pushed hlong hc hle hrest] at he
      cases hu : unCompress z (whole maxMessageSize data) <;> simp [hu, collecting] at he
    · rw [transfer_compressed pushed hlong hc (Nat.lt_of_not_le hle)] at he
      have hlast := congrArg List.getLast? he
      have hmark : eofMessage = message := by simpa [collecting] using hlast
      exact hlong (hmark ▸ eofMessage_length_lt)

theorem transfer_append (s : Subscriber) (messages rest : List Bytes) :
    transfer z s (messages ++ rest) = transfer z (transfer z s messages) rest := by
  rw [transfer, List.flatMap_append, List.foldl_append]
  rfl

theorem transfer_collecting (pushed : List Bytes) {messages : List Bytes}
    (h : ∀ message ∈ messages, Transferable z message) :
    transfer z (collecting pushed []) messages = collecting (pushed ++ messages) [] := by
  induction messages using List.reverseRecOn with
  | nil =>
    rw [List.append_nil]
    rfl
  | append_singleton messages message ih =>
    rw [transfer_append, ih fun m hm => h m (List.mem_append_left _ hm),
      transfer_one _ (h message (by simp)), List.append_assoc]

theorem transfer_all {messages : List Bytes} (h : ∀ message ∈ messages, Transferable z message) :
    transfer z {} messages = collecting messages [] := transfer_collecting [] h

/-- The callback has been given the messages sent so far, at every time, exactly if all of them
are transferable. -/
theorem messages_received_iff (z : Zstd) (messages : List Bytes) :
    (∀ sent, sent <+: messages → received z sent = sent) ↔
      ∀ message ∈ messages, Transferable z message := by
  constructor
  · intro hreceived
    induction messages using List.reverseRecOn with
    | nil => nofun
    | append_singleton messages message ih =>
      have hbefore := ih fun sent hp => hreceived sent (hp.trans (List.prefix_append _ _))
      have hone : Transferable z message := by
        by_contra hnot
        apply not_transfer_one messages hnot
        rw [← transfer_all hbefore, ← transfer_append]
        exact hreceived _ (List.prefix_refl _)
      intro m hm
      rcases List.mem_append.mp hm with hm | hm
      · exact hbefore m hm
      · rw [List.mem_singleton.mp hm]
        exact hone
  · intro hall sent hp
    rw [received, transfer_all fun m hm => hall m (hp.subset hm)]
    rfl

def header (n : ℕ) : Bytes :=
  [0x28, 0xB5, 0x2F, 0xFD, .ofNat n, .ofNat (n / 2 ^ 8), .ofNat (n / 2 ^ 16), .ofNat (n / 2 ^ 24)]

/-- A frame of one block, as the library writes them: the magic number, the length of the
content and either the content itself or the byte it repeats. -/
def frame (message : Bytes) : Bytes :=
  header message.length ++
    if message = List.replicate message.length (message.headD 0) then [1, message.headD 0]
    else 0 :: message

def contentSize : Bytes → ℕ
  | 0x28 :: 0xB5 :: 0x2F :: 0xFD :: a :: b :: c :: d :: _ =>
    a.toNat + b.toNat * 2 ^ 8 + c.toNat * 2 ^ 16 + d.toNat * 2 ^ 24
  | _ => 0

def content (data : Bytes) : Option Bytes :=
  match data.drop 8 with
  | [1, byte] => some (List.replicate (contentSize data) byte)
  | 0 :: message => if message.length = contentSize data then some message else none
  | _ => none

theorem contentSize_header {n : ℕ} (h : n < 2 ^ 31) (rest : Bytes) :
    contentSize (header n ++ rest) = n := by
  simp only [header, List.cons_append, contentSize, UInt8.toNat_ofNat']
  omega

theorem drop_header (n : ℕ) (rest : Bytes) : (header n ++ rest).drop 8 = rest := rfl

theorem content_frame {message : Bytes} (h : message.length < 2 ^ 31) :
    content (frame message) = some message := by
  rw [content, frame, contentSize_header h, drop_header]
  by_cases hrepeat : message = List.replicate message.length (message.headD 0)
  · rw [if_pos hrepeat]
    exact congrArg some hrepeat.symm
  · rw [if_neg hrepeat]
    exact if_pos rfl

def blocks : Zstd where
  compress message := if message.length < 2139127680 then some (frame message) else none
  decompressedSize := contentSize
  decompress data capacity := (content data).filter (·.length ≤ capacity)
  int_length h := by
    rw [Option.ite_none_right_eq_some] at h
    exact h.1.trans (by decide)
  size_eq h := by
    rw [Option.ite_none_right_eq_some] at h
    rw [← Option.some.inj h.2]
    exact contentSize_header (h.1.trans (by decide)) _
  inverts h capacity hcap := by
    rw [Option.ite_none_right_eq_some] at h
    rw [← Option.some.inj h.2, content_frame (h.1.trans (by decide))]
    simp [hcap]

def noise : ℕ → ℕ → Bytes
  | 0, _ => []
  | n + 1, x => .ofNat (x / 2 ^ 16) :: noise n ((1103515245 * x + 12345) % 2 ^ 31)

theorem length_noise (n x : ℕ) : (noise n x).length = n := by
  induction n generalizing x with
  | zero => rfl
  | succ n ih => rw [noise, List.length_cons, ih]

theorem remainder_append {full rest : Bytes} {k : ℕ} (hfull : full.length = k * maxMessageSize)
    (hrest : rest.length < maxMessageSize) :
    whole maxMessageSize (full ++ rest) = full ∧
      remainder maxMessageSize (full ++ rest) = rest := by
  have hlen : (full ++ rest).length / maxMessageSize * maxMessageSize = full.length := by
    rw [List.length_append, hfull, Nat.mul_comm k, Nat.mul_add_div (by decide),
      Nat.div_eq_of_lt hrest, Nat.add_zero, Nat.mul_comm]
  rw [whole, remainder, hlen]
  exact ⟨List.take_left, List.drop_left⟩

theorem blocks_compress (h : message.length < 2139127680) :
    blocks.compress message = some (frame message) := if_pos h

theorem received_replicate {n : ℕ} (hle : maxMessageSize ≤ n) (hlt : n < 2139127680)
    (byte : UInt8) :
    received blocks [List.replicate n byte] = [header n ++ [1, byte], eofMessage] := by
  have hlen : (List.replicate n byte).length = n := List.length_replicate
  have hhead : (List.replicate n byte).headD 0 = byte := by
    have hpos : 0 < n := Nat.lt_of_lt_of_le (by decide) hle
    obtain ⟨k, rfl⟩ := Nat.exists_eq_succ_of_ne_zero hpos.ne'
    rfl
  have hc : blocks.compress (List.replicate n byte) = some (header n ++ [1, byte]) := by
    rw [blocks_compress (hlen.symm ▸ hlt), frame, hlen, hhead, if_pos rfl]
  have hshort : (header n ++ [1, byte]).length < maxMessageSize := by
    have hten : (header n ++ [1, byte]).length = 10 := rfl
    rw [hten]
    decide
  have ht := transfer_compressed [] (by omega) hc hshort
  rw [chunks_of_length_le (by decide) (by simp) hshort.le] at ht
  exact congrArg Subscriber.pushed ht

theorem frame_noise (n : ℕ) :
    frame (noise (n + 2) 1 ++ eofMessage) =
      header (n + 5) ++ 0 :: noise (n + 2) 1 ++ eofMessage := by
  have hne : noise (n + 2) 1 ++ eofMessage ≠
      List.replicate (n + 5) ((noise (n + 2) 1 ++ eofMessage).headD 0) := by
    intro h
    have hsecond := congrArg (·[1]?) h
    simp [noise] at hsecond
  have hlen : (noise (n + 2) 1 ++ eofMessage).length = n + 5 := by
    rw [List.length_append, length_noise]
    rfl
  rw [frame, hlen, if_neg hne, List.append_assoc, List.cons_append]

theorem received_noise {n : ℕ} (h : n + 11 = 2 * maxMessageSize) :
    received blocks [noise (n + 2) 1 ++ eofMessage] = [] := by
  have hsize : maxMessageSize = 32768 := rfl
  have hlen : (noise (n + 2) 1 ++ eofMessage).length = n + 5 := by
    rw [List.length_append, length_noise]
    rfl
  have hc : blocks.compress (noise (n + 2) 1 ++ eofMessage) =
      some (header (n + 5) ++ 0 :: noise (n + 2) 1 ++ eofMessage) := by
    rw [blocks_compress (by omega), frame_noise]
  have hfull : (header (n + 5) ++ 0 :: noise (n + 2) 1).length = 2 * maxMessageSize := by
    rw [List.length_append, List.length_cons, length_noise]
    simp only [header, List.length_cons, List.length_nil]
    omega
  obtain ⟨hw, hr⟩ := remainder_append hfull eofMessage_length_lt
  have hle : maxMessageSize ≤ (header (n + 5) ++ 0 :: noise (n + 2) 1 ++ eofMessage).length := by
    rw [List.length_append, hfull]
    omega
  have hnone : unCompress blocks (header (n + 5) ++ 0 :: noise (n + 2) 1) = none := by
    have hcontent : content (header (n + 5) ++ 0 :: noise (n + 2) 1) = none := by
      rw [content, contentSize_header (by omega), drop_header]
      exact if_neg (by rw [length_noise]; omega)
    simp [unCompress, blocks, hcontent]
  have ht := transfer_marker [] (by omega) hc hle hr
  rw [hw, hnone] at ht
  exact congrArg Subscriber.pushed ht

/-- A message of one repeated byte arrives as its compressed form and a marker, and one that is
not compressed and ends in the bytes of the marker does not arrive. The compressed bytes and the
length 65530 are those of `blocks`; Zstd has a longer header. -/
theorem messages_not_received :
    (¬ ∀ messages, received blocks messages = messages) ∧
    received blocks [List.replicate 32768 0] =
      [[0x28, 0xB5, 0x2F, 0xFD, 0, 0x80, 0, 0, 1, 0], eofMessage] ∧
    received blocks [noise 65527 1 ++ eofMessage] = [] := by
  refine ⟨fun hall => ?_, received_replicate (by decide) (by decide) 0, received_noise rfl⟩
  have hlen := congrArg List.length (hall [noise 65527 1 ++ eofMessage])
  rw [received_noise rfl] at hlen
  cases hlen

section Recovery

def run (z : Zstd) (received : List Bytes) : Subscriber := received.foldl (·.onMessage z ·) {}

/-- The next marker ends a long message whose chunks do not decompress. -/
def Fails (z : Zstd) (before : List Bytes) : Prop :=
  (run z before).recvLargeChunk = true ∧ unCompress z (run z before).baos = none

structure Recovered (z : Zstd) (s : Subscriber) : Prop where
  recvLargeChunk : s.recvLargeChunk = false
  baos : s.baos = []
  delivers : ∀ messages, (∀ message ∈ messages, Transferable z message) →
    (transfer z s messages).pushed = s.pushed ++ messages

/-- The reset is all that a subscriber needs. -/
theorem recovered_of_initial {s : Subscriber} (hr : s.recvLargeChunk = false) (hb : s.baos = []) :
    Recovered z s := by
  refine ⟨hr, hb, fun messages h => ?_⟩
  have hs : s = collecting s.pushed [] := by
    cases s
    cases hr
    cases hb
    rfl
  rw [hs, transfer_collecting s.pushed h]
  rfl

theorem run_append (z : Zstd) (before after : List Bytes) :
    run z (before ++ after) = after.foldl (·.onMessage z ·) (run z before) := by
  rw [run, List.foldl_append]
  rfl

theorem onMessage_large {s : Subscriber} (h : s.recvLargeChunk = true) (buffer : Bytes) :
    s.onMessage z buffer = s.handleLargeMessage z buffer := by
  rw [Subscriber.onMessage, if_neg (by simp [h])]

/-- The marker of a message that does not decompress changes nothing. -/
theorem run_failed {before : List Bytes} (h : Fails z before) :
    run z (before ++ [eofMessage]) = run z before := by
  rw [run_append, List.foldl_cons, List.foldl_nil, onMessage_large h.1,
    Subscriber.handleLargeMessage, if_pos rfl, h.2]

/-- Whatever comes before the next marker is taken for more of the failed message. -/
theorem foldl_onMessage_large {after : List Bytes} (hm : eofMessage ∉ after) {s : Subscriber}
    (h : s.recvLargeChunk = true) :
    after.foldl (·.onMessage z ·) s = { s with baos := s.baos ++ after.flatten } := by
  induction after generalizing s with
  | nil => simp
  | cons buffer after ih =>
    obtain ⟨hb, ha⟩ := not_or.mp (mt List.mem_cons.mpr hm)
    have hchunk : s.onMessage z buffer = { s with baos := s.baos ++ buffer } := by
      rw [onMessage_large h, Subscriber.handleLargeMessage, if_neg (Ne.symm hb), ← h]
    have hrest := ih ha (s := { s with baos := s.baos ++ buffer }) h
    rw [List.foldl_cons, hchunk, hrest]
    simp

/-- The subscriber recovers from every failure in a sequence of chunks exactly if there is none:
after a marker that fails nothing has been reset, and nothing is delivered before another one. A
reset would have been enough. -/
theorem recovers_iff_no_failure (z : Zstd) (received : List Bytes) :
    ((∀ before, before ++ [eofMessage] <+: received → Fails z before →
        Recovered z (run z (before ++ [eofMessage]))) ↔
      ∀ before, before ++ [eofMessage] <+: received → ¬ Fails z before) ∧
    (∀ before, Fails z before → run z (before ++ [eofMessage]) = run z before ∧
      ∀ after, eofMessage ∉ after → run z (before ++ [eofMessage] ++ after) =
        { run z before with baos := (run z before).baos ++ after.flatten }) ∧
    ∀ s : Subscriber, s.recvLargeChunk = false → s.baos = [] → Recovered z s := by
  refine ⟨⟨fun h before hp hf => ?_, fun h before hp hf => absurd hf (h before hp)⟩, ?_,
    fun _ => recovered_of_initial⟩
  · have hrecv := (h before hp hf).recvLargeChunk
    rw [run_failed hf, hf.1] at hrecv
    cases hrecv
  · intro before hf
    refine ⟨run_failed hf, fun after hm => ?_⟩
    rw [run_append, run_failed hf, foldl_onMessage_large hm hf.1]

theorem unCompress_zeros {n : ℕ} (h : 10 ≤ n) :
    unCompress blocks (List.replicate n 0) = none := by
  obtain ⟨k, rfl⟩ := Nat.exists_eq_add_of_le' h
  have hsize : contentSize (List.replicate (k + 10) 0) = 0 := by
    rw [List.replicate_succ]
    rfl
  have hdrop : (List.replicate (k + 10) (0 : UInt8)).drop 8 = 0 :: List.replicate (k + 1) 0 := by
    rw [List.drop_replicate, ← List.replicate_succ, Nat.add_sub_assoc (by decide)]
  have hcontent : content (List.replicate (k + 10) 0) = none := by
    rw [content, hdrop, hsize]
    exact if_neg (by simp)
  simp [unCompress, blocks, hcontent]

theorem run_zeros {n : ℕ} (h : maxMessageSize ≤ n) :
    run blocks [List.replicate n 0] = ⟨true, List.replicate n 0, []⟩ := by
  have hlen : (List.replicate n (0 : UInt8)).length = n := List.length_replicate
  have hne : List.replicate n (0 : UInt8) ≠ eofMessage := by
    intro he
    have hlt := eofMessage_length_lt
    rw [← he, hlen] at hlt
    omega
  have hlarge : ¬ (({} : Subscriber).recvLargeChunk = false ∧
      (List.replicate n (0 : UInt8)).length < maxMessageSize) := by
    rw [hlen]
    omega
  rw [run, List.foldl_cons, List.foldl_nil, Subscriber.onMessage, if_neg hlarge,
    Subscriber.handleLargeMessage, if_neg hne]
  rfl

theorem fails_zeros {n : ℕ} (h : maxMessageSize ≤ n) : Fails blocks [List.replicate n 0] := by
  have hten : 10 ≤ maxMessageSize := by decide
  refine ⟨by rw [run_zeros h], ?_⟩
  rw [run_zeros h]
  exact unCompress_zeros (hten.trans h)

/-- A chunk that is no compressed data, its marker, and a short message. -/
theorem failure_not_recovered :
    Fails blocks [List.replicate 32768 0] ∧
    ¬ Recovered blocks (run blocks ([List.replicate 32768 0] ++ [eofMessage])) ∧
    (run blocks ([List.replicate 32768 0] ++ [eofMessage] ++ [[1]])).pushed = [] := by
  have hle : maxMessageSize ≤ 32768 := by decide
  have hf := fails_zeros hle
  refine ⟨hf, fun hr => ?_, ?_⟩
  · have hrecv := hr.recvLargeChunk
    rw [run_failed hf, hf.1] at hrecv
    cases hrecv
  · rw [run_append, run_failed hf, foldl_onMessage_large (by decide) hf.1, run_zeros hle]

end Recovery

end JavaDataChannel
