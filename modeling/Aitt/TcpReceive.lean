import Aitt.TransitionRuns
import Aitt.TcpMsgInfo
import Aitt.TcpSecureFraming

/-! The receiving end of an accepted connection. Every event of the main loop reads one header
and, if it names a topic, one payload. What is handed to the callbacks is compared with the
pairs of complete frames that the bytes on the connection begin with. -/
namespace TcpReceive

open AittTypes Flexbuffers TcpMsgInfo PartialTransfers TcpFraming TcpSecureFraming
open TransitionRuns

abbrev Delivery := AittMsg × ℤ × Option Bytes

structure Read where
  before : Bytes
  result : ℤ
  data : Option Bytes
  deriving DecidableEq, Repr

def Read.of (s : Source UInt8) (x : Received) : Read := ⟨s.stream, x.result, x.data⟩

structure Turn where
  watched : Bool
  handed : List Delivery
  reads : List Read
  source : Source UInt8

def msgOf [Package] (root : Bytes → List (String × Item)) : Option Bytes → AittMsg
  | none => {}
  | some b => unpackMsgInfo (root b)

/-- `HandleClientDisconnect` ends the watch. Other failures leave it as it is. -/
def receiveData [Package] (recvSizedData : Source UInt8 → Received)
    (root : Bytes → List (String × Item)) (s : Source UInt8) : Turn :=
  let info := recvSizedData s
  if info.result = -enotconn then ⟨false, [], [.of s info], info.source⟩
  else if (msgOf root info.data).topic = "" then ⟨true, [], [.of s info], info.source⟩
  else
    let body := recvSizedData info.source
    let reads : List Read := [.of s info, .of info.source body]
    if body.result = -enotconn then ⟨false, [], reads, body.source⟩
    else if body.result < 0 then ⟨true, [], reads, body.source⟩
    else ⟨true, [(msgOf root info.data, body.result, body.data)], reads, body.source⟩

inductive Link where
  | normal
  | secure (c : Crypto)

def recvSizedData (link : Link) (r : Receiving) (s : Source UInt8) : Received :=
  match link with
  | .normal => recvSizedDataNormal r s
  | .secure c => recvSizedDataSecure c r s

def ValidLength (n : ℤ) : Prop := 0 ≤ n ∧ n ≤ messageMax

instance (n : ℤ) : Decidable (ValidLength n) := inferInstanceAs (Decidable (_ ∧ _))

def wholeBody (n : ℤ) (b : Bytes) : Option (Option Bytes × Bytes) :=
  if n = int32Max then some (none, b)
  else if ValidLength n ∧ n.toNat ≤ b.length then some (some (b.take n.toNat), b.drop n.toNat)
  else none

def sizeOf (c : Crypto) (b : Bytes) : Option ℤ :=
  (c.decrypt (b.take 16)).bind fun p => if 4 ≤ p.length then some (int32OfBytes p) else none

def secureBody (c : Crypto) (n : ℤ) (b : Bytes) : Option (Option Bytes × Bytes) :=
  (wholeBody n b).bind fun
    | (none, rest) => some (none, rest)
    | (some body, rest) => (c.decrypt body).map fun p => (some p, rest)

def wholeFrame (link : Link) (b : Bytes) : Option (Option Bytes × Bytes) :=
  match link with
  | .normal => if 4 ≤ b.length then wholeBody (int32OfBytes (b.take 4)) (b.drop 4) else none
  | .secure c =>
    if 16 ≤ b.length then (sizeOf c b).bind fun n => secureBody c n (b.drop 16) else none

def given (data : Option Bytes) : ℤ × Option Bytes := ((data.getD []).length, data)

def pairsIn [Package] (link : Link) (root : Bytes → List (String × Item)) :
    ℕ → Bytes → List Delivery
  | 0, _ => []
  | fuel + 1, b =>
    match wholeFrame link b with
    | none => []
    | some (info, rest) =>
      match wholeFrame link rest with
      | none => []
      | some (body, rest') => (msgOf root info, given body) :: pairsIn link root fuel rest'

def pairs [Package] (link : Link) (root : Bytes → List (String × Item)) (b : Bytes) :
    List Delivery :=
  pairsIn link root b.length b

def BodyCut (b : Bytes) : Prop :=
  4 ≤ b.length ∧ ValidLength (int32OfBytes (b.take 4)) ∧
    b.length - 4 < (int32OfBytes (b.take 4)).toNat

instance (b : Bytes) : Decidable (BodyCut b) := inferInstanceAs (Decidable (_ ∧ _))

/-- The length that is read where a size block does not decipher. -/
def strayLength (c : Crypto) (r : Receiving) (s : Source UInt8) : ℤ :=
  int32OfBytes (overlay ((c.decrypt (s.stream.take 16)).getD []) (r.malloc s 16))

/-- A size block does not decipher, and with what lies in the buffer it makes a frame. -/
def Misled (c : Crypto) (r : Receiving) (s : Source UInt8) : Prop :=
  16 ≤ s.stream.length ∧ sizeOf c s.stream = none ∧
    (secureBody c (strayLength c r s) (s.stream.drop 16)).isSome = true

instance (c : Crypto) (r : Receiving) (s : Source UInt8) : Decidable (Misled c r s) :=
  inferInstanceAs (Decidable (_ ∧ _))

def Clean (link : Link) (r : Receiving) (s : Source UInt8) : Prop :=
  match link with
  | .normal => ¬BodyCut s.stream
  | .secure c => ¬Misled c r s

instance (link : Link) (r : Receiving) (s : Source UInt8) : Decidable (Clean link r s) :=
  match link with
  | .normal => inferInstanceAs (Decidable ¬BodyCut s.stream)
  | .secure c => inferInstanceAs (Decidable ¬Misled c r s)

def Link.FailsShort (link : Link) (r : Receiving) : Prop :=
  match link with
  | .normal => True
  | .secure c => c.decrypt [] = none ∧ ∀ (t : Source UInt8) (n : ℕ), t.stream.length < n →
      c.decrypt (overlay t.stream (r.malloc t n)) = none

def Refused (result : ℤ) (data : Option Bytes) : Prop := result < 0 ∧ data = none

theorem given_nonneg (d : Option Bytes) : ¬(given d).1 < 0 := by
  simp only [given]
  omega

theorem wholeBody_zero (b : Bytes) : wholeBody int32Max b = some (none, b) := if_pos rfl

theorem ValidLength.ne_int32Max {n : ℤ} (hv : ValidLength n) : n ≠ int32Max := by
  have hle := hv.2
  simp only [messageMax, int32Max] at *
  omega

theorem wholeBody_valid {n : ℤ} {b : Bytes} (hv : ValidLength n) (h : n.toNat ≤ b.length) :
    wholeBody n b = some (some (b.take n.toNat), b.drop n.toNat) := by
  rw [wholeBody, if_neg hv.ne_int32Max, if_pos ⟨hv, h⟩]

theorem wholeBody_eq_some {n : ℤ} {b : Bytes} {d : Option Bytes} {rest : Bytes}
    (h : wholeBody n b = some (d, rest)) :
    (n = int32Max ∧ d = none ∧ rest = b) ∨
      (n ≠ int32Max ∧ ValidLength n ∧ n.toNat ≤ b.length ∧ d = some (b.take n.toNat) ∧
        rest = b.drop n.toNat) := by
  by_cases hi : n = int32Max
  · rw [wholeBody, if_pos hi] at h
    obtain ⟨rfl, rfl⟩ := Prod.mk.inj (Option.some.inj h)
    exact Or.inl ⟨hi, rfl, rfl⟩
  · rw [wholeBody, if_neg hi, Option.ite_none_right_eq_some] at h
    obtain ⟨⟨hv, hl⟩, h⟩ := h
    obtain ⟨rfl, rfl⟩ := Prod.mk.inj (Option.some.inj h)
    exact Or.inr ⟨hi, hv, hl, rfl, rfl⟩

theorem wholeBody_eq_none {n : ℤ} {b : Bytes} (h : wholeBody n b = none) :
    n ≠ int32Max ∧ (ValidLength n → b.length < n.toNat) := by
  by_cases hi : n = int32Max
  · rw [wholeBody, if_pos hi] at h
    cases h
  · refine ⟨hi, fun hv => ?_⟩
    by_contra hl
    rw [wholeBody_valid hv (by omega)] at h
    cases h

theorem secureBody_eq_some {c : Crypto} {n : ℤ} {b : Bytes} {d : Option Bytes} {rest : Bytes}
    (h : secureBody c n b = some (d, rest)) :
    (d = none ∧ wholeBody n b = some (none, rest)) ∨
      ∃ body p, d = some p ∧ c.decrypt body = some p ∧
        wholeBody n b = some (some body, rest) := by
  obtain ⟨⟨body, rest'⟩, hw, hd⟩ := Option.bind_eq_some_iff.mp h
  cases body with
  | none =>
    obtain ⟨rfl, rfl⟩ := Prod.mk.inj (Option.some.inj hd)
    exact Or.inl ⟨rfl, hw⟩
  | some body =>
    obtain ⟨p, hp, hd⟩ := Option.map_eq_some_iff.mp hd
    obtain ⟨rfl, rfl⟩ := Prod.mk.inj hd
    exact Or.inr ⟨body, p, rfl, hp, hw⟩

theorem recvBodyNormal_valid (r : Receiving) {n : ℤ} (t : Source UInt8) (hv : ValidLength n) :
    recvBodyNormal r n t =
      ⟨n, some (overlay (t.stream.take n.toNat) (r.malloc t n.toNat)), (recv r n t).2.2⟩ := by
  rw [recvBodyNormal, if_neg hv.ne_int32Max, if_neg (Int.not_lt.mpr hv.2),
    if_neg (Int.not_lt.mpr hv.1), (recv_bytes r n t).1]

theorem recvBodyNormal_invalid (r : Receiving) {n : ℤ} (t : Source UInt8)
    (hi : n ≠ int32Max) (hv : ¬ValidLength n) :
    Refused (recvBodyNormal r n t).result (recvBodyNormal r n t).data := by
  rw [recvBodyNormal, if_neg hi]
  by_cases hm : messageMax < n
  · rw [if_pos hm]
    exact ⟨(by decide : (-1 : ℤ) < 0), rfl⟩
  · have hn : n < 0 := by
      by_contra h
      exact hv ⟨by omega, by omega⟩
    rw [if_neg hm, if_pos hn]
    exact ⟨hn, rfl⟩

theorem recvBodyNormal_wholeBody (r : Receiving) {n : ℤ} {t : Source UInt8} {d : Option Bytes}
    {rest : Bytes} (h : wholeBody n t.stream = some (d, rest)) :
    (recvBodyNormal r n t).outcome = given d ∧ (recvBodyNormal r n t).source.stream = rest := by
  rcases wholeBody_eq_some h with ⟨rfl, rfl, rfl⟩ | ⟨_, hv, hl, rfl, rfl⟩
  · exact ⟨rfl, rfl⟩
  · have hlen : (t.stream.take n.toNat).length = n.toNat := by
      rw [List.length_take]
      omega
    rw [recvBodyNormal_valid r t hv, overlay_full (by rw [r.malloc_length, hlen])]
    refine ⟨?_, (recv_bytes r n t).2⟩
    simp only [Received.outcome, given, Option.getD_some, hlen, Int.toNat_of_nonneg hv.1]

theorem recvBodyNormal_refused_iff (r : Receiving) {n : ℤ} {t : Source UInt8}
    (h : wholeBody n t.stream = none) :
    Refused (recvBodyNormal r n t).result (recvBodyNormal r n t).data ↔
      ¬(ValidLength n ∧ t.stream.length < n.toNat) := by
  obtain ⟨hi, hshort⟩ := wholeBody_eq_none h
  by_cases hv : ValidLength n
  · rw [recvBodyNormal_valid r t hv]
    constructor
    · intro hr
      cases hr.2
    · intro hn
      exact absurd ⟨hv, hshort hv⟩ hn
  · exact ⟨fun _ hn => hv hn.1, fun _ => recvBodyNormal_invalid r t hi hv⟩

theorem recvBodySecure_wholeBody {c : Crypto} (r : Receiving) {n : ℤ} {t : Source UInt8}
    {d : Option Bytes} {rest : Bytes} (h : secureBody c n t.stream = some (d, rest)) :
    (recvBodySecure c r n t).outcome = given d ∧
      (recvBodySecure c r n t).source.stream = rest := by
  rcases secureBody_eq_some h with ⟨rfl, hw⟩ | ⟨body, p, rfl, hp, hw⟩
  · rcases wholeBody_eq_some hw with ⟨rfl, _, rfl⟩ | ⟨_, _, _, hd, _⟩
    · exact ⟨rfl, rfl⟩
    · cases hd
  · rcases wholeBody_eq_some hw with ⟨_, hd, _⟩ | ⟨hi, hv, hl, hd, rfl⟩
    · cases hd
    · obtain rfl := Option.some.inj hd
      rw [recvBodySecure, if_neg hi, if_neg (Int.not_lt.mpr hv.2)]
      simp only [(recv_bytes r n t).1]
      rw [overlay_full (by rw [r.malloc_length, List.length_take]; omega), hp]
      exact ⟨rfl, (recv_bytes r n t).2⟩

theorem recvBodySecure_undeciphered {c : Crypto} (r : Receiving) {n : ℤ} {t : Source UInt8}
    (hi : n ≠ int32Max)
    (hd : c.decrypt (overlay (t.stream.take n.toNat) (r.malloc t n.toNat)) = none) :
    Refused (recvBodySecure c r n t).result (recvBodySecure c r n t).data := by
  rw [recvBodySecure, if_neg hi]
  by_cases hm : messageMax < n
  · rw [if_pos hm]
    exact ⟨(by decide : (-1 : ℤ) < 0), rfl⟩
  · rw [if_neg hm]
    simp only [(recv_bytes r n t).1, hd]
    exact ⟨(by decide : (-1 : ℤ) < 0), rfl⟩

theorem recvBodySecure_refused {c : Crypto} (r : Receiving) (ha : (Link.secure c).FailsShort r)
    {n : ℤ} {t : Source UInt8} (h : secureBody c n t.stream = none) :
    Refused (recvBodySecure c r n t).result (recvBodySecure c r n t).data := by
  rw [secureBody] at h
  cases hw : wholeBody n t.stream with
  | some x =>
    obtain ⟨d, rest⟩ := x
    rcases wholeBody_eq_some hw with ⟨_, rfl, _⟩ | ⟨hi, _, hl, rfl, _⟩
    · rw [hw, Option.bind_some] at h
      cases h
    · rw [hw, Option.bind_some, Option.map_eq_none_iff] at h
      apply recvBodySecure_undeciphered r hi
      rwa [overlay_full (by rw [r.malloc_length, List.length_take]; omega)]
  | none =>
    obtain ⟨hi, hshort⟩ := wholeBody_eq_none hw
    by_cases hv : ValidLength n
    · apply recvBodySecure_undeciphered r hi
      rw [List.take_of_length_le (by have := hshort hv; omega)]
      exact ha.2 t n.toNat (hshort hv)
    · by_cases hm : messageMax < n
      · rw [recvBodySecure, if_neg hi, if_pos hm]
        exact ⟨(by decide : (-1 : ℤ) < 0), rfl⟩
      · have h0 : n.toNat = 0 := by
          by_contra hn
          exact hv ⟨by omega, by omega⟩
        apply recvBodySecure_undeciphered r hi
        rw [h0]
        exact ha.1

theorem recvSizedDataSecure_cut (c : Crypto) (r : Receiving) {s : Source UInt8}
    (h : s.stream.length < 16) :
    Refused (recvSizedDataSecure c r s).result (recvSizedDataSecure c r s).data := by
  have hsize : ((getCryptogramSize 4 : ℕ) : ℤ) = 16 := rfl
  have hr := recv_short r (show s.stream.length < (16 : ℤ).toNat from h)
  have hneg := (r.ending (recv r 16 s).2.2.calls).code_neg
  rw [recvSizedDataSecure, hsize, hr, if_pos hneg]
  exact ⟨hneg, rfl⟩

theorem strayLength_of_sizeOf {c : Crypto} (r : Receiving) {s : Source UInt8} {n : ℤ}
    (h : sizeOf c s.stream = some n) : strayLength c r s = n := by
  obtain ⟨p, hp, hn⟩ := Option.bind_eq_some_iff.mp h
  by_cases h4 : 4 ≤ p.length
  · rw [if_pos h4] at hn
    rw [strayLength, hp, ← Option.some.inj hn]
    match p, h4 with
    | b0 :: b1 :: b2 :: b3 :: _, _ => rfl
  · rw [if_neg h4] at hn
    cases hn

/-- A complete frame is handed out as it is, and the stream goes on behind it. -/
theorem recvSizedData_whole {link : Link} (r : Receiving) {s : Source UInt8} {d : Option Bytes}
    {rest : Bytes} (h : wholeFrame link s.stream = some (d, rest)) :
    (recvSizedData link r s).outcome = given d ∧
      (recvSizedData link r s).source.stream = rest := by
  cases link with
  | normal =>
    rw [wholeFrame, Option.ite_none_right_eq_some] at h
    obtain ⟨h4, hb⟩ := h
    rw [← show (recv r 4 s).2.2.stream = s.stream.drop 4 from (recv_bytes r 4 s).2] at hb
    rw [recvSizedData, recvSizedDataNormal_length r h4]
    exact recvBodyNormal_wholeBody r hb
  | secure c =>
    rw [wholeFrame, Option.ite_none_right_eq_some] at h
    obtain ⟨h16, hb⟩ := h
    obtain ⟨n, hn, hb⟩ := Option.bind_eq_some_iff.mp hb
    rw [← show (recv r 16 s).2.2.stream = s.stream.drop 16 from (recv_bytes r 16 s).2] at hb
    rw [recvSizedData, recvSizedDataSecure_length c r h16, ← strayLength,
      strayLength_of_sizeOf r hn]
    exact recvBodySecure_wholeBody r hb

/-- Anything else is refused, unless the read runs into one of the two gaps. -/
theorem recvSizedData_refused_iff {link : Link} (r : Receiving) (ha : link.FailsShort r)
    {s : Source UInt8} (h : wholeFrame link s.stream = none) :
    Refused (recvSizedData link r s).result (recvSizedData link r s).data ↔ Clean link r s := by
  cases link with
  | normal =>
    by_cases h4 : 4 ≤ s.stream.length
    · have hdrop : (recv r 4 s).2.2.stream = s.stream.drop 4 := (recv_bytes r 4 s).2
      rw [wholeFrame, if_pos h4, ← hdrop] at h
      rw [recvSizedData, recvSizedDataNormal_length r h4, recvBodyNormal_refused_iff r h, hdrop,
        List.length_drop, Clean, BodyCut]
      simp only [h4, true_and]
    · have hc := (recvSizedDataNormal_cut r (by omega : s.stream.length < 4)).1
      refine iff_of_true ⟨?_, congrArg Prod.snd hc⟩ fun hb => h4 hb.1
      rw [show (recvSizedData .normal r s).result = _ from congrArg Prod.fst hc]
      exact Ending.code_neg _
  | secure c =>
    by_cases h16 : 16 ≤ s.stream.length
    · have hdrop : (recv r 16 s).2.2.stream = s.stream.drop 16 := (recv_bytes r 16 s).2
      rw [wholeFrame, if_pos h16] at h
      rw [recvSizedData, recvSizedDataSecure_length c r h16, ← strayLength]
      cases hn : sizeOf c s.stream with
      | some n =>
        rw [hn, Option.bind_some, ← hdrop] at h
        rw [strayLength_of_sizeOf r hn]
        refine iff_of_true (recvBodySecure_refused r ha h) fun hm => ?_
        cases hn.symm.trans hm.2.1
      | none =>
        cases hb : secureBody c (strayLength c r s) (s.stream.drop 16) with
        | none =>
          rw [← hdrop] at hb
          refine iff_of_true (recvBodySecure_refused r ha hb) fun hm => ?_
          rw [Misled, ← hdrop, hb] at hm
          cases hm.2.2
        | some p =>
          have hm : Misled c r s := ⟨h16, hn, by rw [hb]; rfl⟩
          rw [← hdrop] at hb
          obtain ⟨ho, _⟩ := recvBodySecure_wholeBody r hb
          refine iff_of_false (fun hr => ?_) fun hc => hc hm
          have := hr.1
          rw [show (recvBodySecure c r _ _).result = _ from congrArg Prod.fst ho] at this
          exact given_nonneg p.1 this
    · refine iff_of_true ?_ fun hm => h16 hm.1
      exact recvSizedDataSecure_cut c r (by omega)

theorem wholeBody_shorter {n : ℤ} {b : Bytes} {d : Option Bytes} {rest : Bytes}
    (h : wholeBody n b = some (d, rest)) : rest.length ≤ b.length := by
  rcases wholeBody_eq_some h with ⟨_, _, rfl⟩ | ⟨_, _, _, _, rfl⟩
  · exact Nat.le_refl _
  · rw [List.length_drop]
    exact Nat.sub_le _ _

theorem wholeFrame_shorter {link : Link} {b : Bytes} {d : Option Bytes} {rest : Bytes}
    (h : wholeFrame link b = some (d, rest)) : rest.length < b.length := by
  cases link with
  | normal =>
    rw [wholeFrame, Option.ite_none_right_eq_some] at h
    have hle := wholeBody_shorter h.2
    rw [List.length_drop] at hle
    omega
  | secure c =>
    rw [wholeFrame, Option.ite_none_right_eq_some] at h
    obtain ⟨h16, hb⟩ := h
    obtain ⟨n, _, hs⟩ := Option.bind_eq_some_iff.mp hb
    have hle : rest.length ≤ (b.drop 16).length := by
      rcases secureBody_eq_some hs with ⟨_, hw⟩ | ⟨_, _, _, _, hw⟩
      · exact wholeBody_shorter hw
      · exact wholeBody_shorter hw
    rw [List.length_drop] at hle
    omega

theorem wholeFrame_nil (link : Link) : wholeFrame link [] = none := by
  cases link <;> rfl

variable {link : Link}

def frame (link : Link) (message : Bytes) : Bytes :=
  match link with
  | .normal => normalFrame message
  | .secure c => secureFrame c message

def Sendable (link : Link) (message : Bytes) : Prop :=
  match link with
  | .normal => message.length ≤ payloadMax
  | .secure c => c.Faithful ∧ message.length < securePayloadBound

def contents (message : Bytes) : Option Bytes := if message = [] then none else some message

theorem wholeBody_append {n : ℤ} {b : Bytes} {d : Option Bytes} {rest : Bytes}
    (h : wholeBody n b = some (d, rest)) (z : Bytes) :
    wholeBody n (b ++ z) = some (d, rest ++ z) := by
  rcases wholeBody_eq_some h with ⟨rfl, rfl, rfl⟩ | ⟨_, hv, hl, rfl, rfl⟩
  · exact wholeBody_zero _
  · rw [wholeBody_valid hv (by rw [List.length_append]; omega),
      List.take_append_of_le_length hl, List.drop_append_of_le_length hl]

theorem secureBody_append {c : Crypto} {n : ℤ} {b : Bytes} {d : Option Bytes} {rest : Bytes}
    (h : secureBody c n b = some (d, rest)) (z : Bytes) :
    secureBody c n (b ++ z) = some (d, rest ++ z) := by
  rcases secureBody_eq_some h with ⟨rfl, hw⟩ | ⟨body, p, rfl, hp, hw⟩
  · rw [secureBody, wholeBody_append hw z]
    rfl
  · rw [secureBody, wholeBody_append hw z, Option.bind_some]
    simp only [hp, Option.map_some]

/-- A complete frame stays the first frame whatever follows. -/
theorem wholeFrame_append {b : Bytes} {d : Option Bytes} {rest : Bytes}
    (h : wholeFrame link b = some (d, rest)) (z : Bytes) :
    wholeFrame link (b ++ z) = some (d, rest ++ z) := by
  cases link with
  | normal =>
    rw [wholeFrame, Option.ite_none_right_eq_some] at h
    obtain ⟨h4, hb⟩ := h
    rw [wholeFrame, if_pos (by rw [List.length_append]; omega),
      List.take_append_of_le_length h4, List.drop_append_of_le_length h4]
    exact wholeBody_append hb z
  | secure c =>
    rw [wholeFrame, Option.ite_none_right_eq_some] at h
    obtain ⟨h16, hb⟩ := h
    obtain ⟨n, hn, hs⟩ := Option.bind_eq_some_iff.mp hb
    rw [wholeFrame, if_pos (by rw [List.length_append]; omega), sizeOf,
      List.take_append_of_le_length h16, List.drop_append_of_le_length h16, ← sizeOf, hn,
      Option.bind_some]
    exact secureBody_append hs z

theorem wholeBody_self {b rest : Bytes} (h : (b.length : ℤ) ≤ messageMax) :
    wholeBody b.length (b ++ rest) = some (some b, rest) := by
  rw [wholeBody_valid ⟨by omega, h⟩ (by rw [List.length_append]; omega), Int.toNat_natCast,
    List.take_left, List.drop_left]

theorem wholeFrame_normal {n : ℤ} (h0 : -2147483648 ≤ n) (h1 : n ≤ int32Max) (b : Bytes) :
    wholeFrame .normal (int32Bytes n ++ b) = wholeBody n b := by
  have hn : int32OfBytes ((int32Bytes n ++ b).take 4) = n := by
    rw [List.take_left' (int32Bytes_length n), ← List.append_nil (int32Bytes n),
      int32OfBytes_int32Bytes h0 h1]
  rw [wholeFrame, if_pos (by rw [List.length_append, int32Bytes_length]; omega), hn,
    List.drop_left' (int32Bytes_length n)]

theorem wholeFrame_secure {c : Crypto} (hc : c.Faithful) {n : ℤ} (h0 : -2147483648 ≤ n)
    (h1 : n ≤ int32Max) (b : Bytes) :
    wholeFrame (.secure c) (c.encrypt (int32Bytes n) ++ b) = secureBody c n b := by
  have hl : (c.encrypt (int32Bytes n)).length = 16 := by
    rw [hc.length _ (int32Bytes_le n), int32Bytes_length]
    rfl
  have hn : int32OfBytes (int32Bytes n) = n := by
    rw [← List.append_nil (int32Bytes n), int32OfBytes_int32Bytes h0 h1]
  rw [wholeFrame, if_pos (by rw [List.length_append, hl]; omega), sizeOf, List.take_left' hl,
    hc.decrypted _ (int32Bytes_le n), Option.bind_some, int32Bytes_length, if_pos (Nat.le_refl 4),
    Option.bind_some, hn, List.drop_left' hl]

theorem wholeFrame_frame {m : Bytes} (h : Sendable link m) (rest : Bytes) :
    wholeFrame link (frame link m ++ rest) = some (contents m, rest) := by
  cases link with
  | normal =>
    have hm : m.length ≤ 268435455 := h
    rw [frame, normalFrame, List.append_assoc]
    by_cases h0 : m = []
    · subst h0
      exact wholeFrame_normal (by decide) (by decide) rest
    · rw [if_neg (by simpa using h0), wholeFrame_normal (by omega) (by simp only [int32Max]; omega),
        contents, if_neg h0]
      exact wholeBody_self (by simp only [messageMax]; omega)
  | secure c =>
    obtain ⟨hc, hm⟩ := h
    by_cases h0 : m = []
    · subst h0
      exact wholeFrame_secure hc (by decide) (by decide) rest
    · have hp := le_payloadMax_of_lt hm
      have hlt := encrypt_length_lt hc hp
      have hle := (getCryptogramSize_le_iff m.length).mpr hm
      rw [← hc.length m hp] at hle
      rw [frame, secureFrame, if_pos (by simpa using h0), List.append_assoc,
        wholeFrame_secure hc (by omega) (by omega), secureBody, wholeBody_self hle,
        contents, if_neg h0]
      simp only [Option.bind_some, hc.decrypted m hp, Option.map_some]

theorem ne_enotconn {n : ℤ} (h : ¬n < 0) : n ≠ -enotconn := by
  simp only [enotconn]
  omega

section Messages

variable [Package] {root : Bytes → List (String × Item)}

theorem pairsIn_enough {fuel : ℕ} {b : Bytes} (h : b.length ≤ fuel) :
    pairsIn link root fuel b = pairs link root b := by
  induction fuel using Nat.strong_induction_on generalizing b with
  | _ fuel ih =>
    cases fuel with
    | zero =>
      obtain rfl : b = [] := List.length_eq_zero_iff.mp (by omega)
      rfl
    | succ fuel =>
      rw [pairs]
      cases hb : wholeFrame link b with
      | none =>
        cases hl : b.length <;> simp only [pairsIn, hb]
      | some x =>
        have h1 := wholeFrame_shorter (show wholeFrame link b = some (x.1, x.2) from hb)
        obtain ⟨m, hm⟩ := Nat.exists_eq_succ_of_ne_zero (by omega : b.length ≠ 0)
        cases hr : wholeFrame link x.2 with
        | none => simp only [hm, pairsIn, hb, hr]
        | some y =>
          have h2 := wholeFrame_shorter (show wholeFrame link x.2 = some (y.1, y.2) from hr)
          simp only [hm, pairsIn, hb, hr]
          rw [ih fuel (by omega) (by omega), ih m (by omega) (by omega)]

theorem pairs_none {b : Bytes} (h : wholeFrame link b = none) : pairs link root b = [] := by
  rw [← pairsIn_enough (Nat.le_succ b.length), pairsIn, h]

theorem pairs_half {b rest : Bytes} {info : Option Bytes}
    (h : wholeFrame link b = some (info, rest)) (hr : wholeFrame link rest = none) :
    pairs link root b = [] := by
  rw [← pairsIn_enough (Nat.le_succ b.length), pairsIn, h]
  simp only [hr]

theorem pairs_cons {b rest rest' : Bytes} {info body : Option Bytes}
    (h : wholeFrame link b = some (info, rest))
    (hr : wholeFrame link rest = some (body, rest')) :
    pairs link root b = (msgOf root info, given body) :: pairs link root rest' := by
  have h1 := wholeFrame_shorter h
  have h2 := wholeFrame_shorter hr
  rw [← pairsIn_enough (Nat.le_succ b.length), pairsIn, h]
  simp only [hr]
  rw [pairsIn_enough (by omega)]

theorem pairs_append (link : Link) (root : Bytes → List (String × Item)) (b z : Bytes) :
    pairs link root b <+: pairs link root (b ++ z) := by
  induction hn : b.length using Nat.strong_induction_on generalizing b with
  | _ n ih =>
    cases hb : wholeFrame link b with
    | none =>
      rw [pairs_none hb]
      exact List.nil_prefix
    | some x =>
      obtain ⟨info, rest⟩ := x
      cases hr : wholeFrame link rest with
      | none =>
        rw [pairs_half hb hr]
        exact List.nil_prefix
      | some y =>
        obtain ⟨body, rest'⟩ := y
        have h1 := wholeFrame_shorter hb
        have h2 := wholeFrame_shorter hr
        rw [pairs_cons hb hr, pairs_cons (wholeFrame_append hb z) (wholeFrame_append hr z),
          List.prefix_cons_inj]
        exact ih rest'.length (by omega) rest' rfl

theorem pairs_frames {ps : List (Bytes × Bytes)}
    (h : ∀ p ∈ ps, Sendable link p.1 ∧ Sendable link p.2) :
    pairs link root (ps.flatMap fun p => frame link p.1 ++ frame link p.2) =
      ps.map fun p => (msgOf root (contents p.1), given (contents p.2)) := by
  induction ps with
  | nil => exact pairs_none (wholeFrame_nil link)
  | cons p ps ih =>
    obtain ⟨h1, h2⟩ := h p List.mem_cons_self
    rw [List.flatMap_cons, List.append_assoc, pairs_cons (wholeFrame_frame h1 _)
      (wholeFrame_frame h2 _), ih fun q hq => h q (List.mem_cons_of_mem p hq)]
    rfl

inductive Event where
  | readable
  | hangup
  deriving DecidableEq, Repr

/-- The connection as its watch sees it. `reads` and `skipped`, which says that a header
without topic was passed over, are kept for the statements only. -/
structure State where
  watched : Bool
  source : Source UInt8
  handed : List Delivery
  reads : List Read
  skipped : Bool
  deriving DecidableEq, Repr

def passesOver (link : Link) (root : Bytes → List (String × Item)) (b : Bytes) : Bool :=
  match wholeFrame link b with
  | none => false
  | some (info, _) => (msgOf root info).topic = ""

def State.after (s : State) (turn : Turn) (passed : Bool) : State :=
  ⟨turn.watched, turn.source, s.handed ++ turn.handed, s.reads ++ turn.reads,
    s.skipped || passed⟩

def step (link : Link) (r : Receiving) (root : Bytes → List (String × Item)) (s : State) :
    Event → Option State
  | .readable =>
    if s.watched then
      some (s.after (receiveData (recvSizedData link r) root s.source)
        (passesOver link root s.source.stream))
    else none
  | .hangup => if s.watched then some { s with watched := false } else none

def machine (link : Link) (r : Receiving) (root : Bytes → List (String × Item))
    (stream : Bytes) : Machine State Event where
  initial := ⟨true, ⟨stream, 0⟩, [], [], false⟩
  step := step link r root

def Faulty (link : Link) (x : Read) : Prop := wholeFrame link x.before = none

instance (x : Read) : Decidable (Faulty link x) := inferInstanceAs (Decidable (_ = none))

structure Truthful (link : Link) (root : Bytes → List (String × Item)) (stream : Bytes)
    (s : State) : Prop where
  prefixes : s.handed <+: pairs link root stream
  refused : ∀ x ∈ s.reads, Faulty link x → Refused x.result x.data
  halted : s.reads.Pairwise fun x y => Faulty link x → y.before = []

def State.failed (link : Link) (s : State) : Prop := ∃ x ∈ s.reads, Faulty link x

instance (s : State) : Decidable (s.failed link) := inferInstanceAs (Decidable (∃ _ ∈ _, _))

/-- The header has no topic, or the frame behind it runs into no gap, and it is no complete
frame where a header without topic was passed over before. -/
def PairOk (link : Link) (r : Receiving) (root : Bytes → List (String × Item)) (s : State)
    (frame : Option Bytes × Bytes) : Prop :=
  (msgOf root frame.1).topic = "" ∨ Clean link r (recvSizedData link r s.source).source ∧
    (s.skipped = true → wholeFrame link frame.2 = none)

instance (r : Receiving) (s : State) (frame : Option Bytes × Bytes) :
    Decidable (PairOk link r root s frame) := inferInstanceAs (Decidable (_ ∨ _))

/-- What the next event needs: after a fault nothing is left to be read, and neither frame
that it reads is one it should not. -/
def Ok (link : Link) (r : Receiving) (root : Bytes → List (String × Item)) (s : State) :
    Event → Prop
  | .hangup => True
  | .readable =>
    (s.failed link → s.source.stream = []) ∧ Clean link r s.source ∧
      ∀ frame ∈ wholeFrame link s.source.stream, PairOk link r root s frame

instance (r : Receiving) (s : State) (e : Event) : Decidable (Ok link r root s e) :=
  match e with
  | .hangup => inferInstanceAs (Decidable True)
  | .readable => inferInstanceAs (Decidable (_ ∧ _ ∧ _))

section Turns

variable {r : Receiving} {s : Source UInt8} {info : Option Bytes} {rest : Bytes}

omit [Package] in
theorem recvSizedData_data (h : wholeFrame link s.stream = some (info, rest)) :
    (recvSizedData link r s).data = info :=
  congrArg Prod.snd (recvSizedData_whole r h).1

omit [Package] in
theorem recvSizedData_nonneg (h : wholeFrame link s.stream = some (info, rest)) :
    ¬(recvSizedData link r s).result < 0 := by
  rw [show (recvSizedData link r s).result = (given info).1 from
    congrArg Prod.fst (recvSizedData_whole r h).1]
  exact given_nonneg info

theorem receiveData_faulty (h : Refused (recvSizedData link r s).result
    (recvSizedData link r s).data) :
    ∃ w, receiveData (recvSizedData link r) root s =
      ⟨w, [], [.of s (recvSizedData link r s)], (recvSizedData link r s).source⟩ := by
  by_cases hn : (recvSizedData link r s).result = -enotconn
  · exact ⟨false, by rw [receiveData, if_pos hn]⟩
  · refine ⟨true, ?_⟩
    rw [receiveData, if_neg hn, h.2]
    rfl

theorem receiveData_passed (h : wholeFrame link s.stream = some (info, rest))
    (ht : (msgOf root info).topic = "") :
    receiveData (recvSizedData link r) root s =
      ⟨true, [], [.of s (recvSizedData link r s)], (recvSizedData link r s).source⟩ := by
  rw [receiveData, if_neg (ne_enotconn (recvSizedData_nonneg h)), recvSizedData_data h,
    if_pos ht]

theorem receiveData_bodyFaulty (h : wholeFrame link s.stream = some (info, rest))
    (ht : (msgOf root info).topic ≠ "") (hb : Refused
      (recvSizedData link r (recvSizedData link r s).source).result
      (recvSizedData link r (recvSizedData link r s).source).data) :
    ∃ w, receiveData (recvSizedData link r) root s =
      ⟨w, [], [.of s (recvSizedData link r s), .of (recvSizedData link r s).source
          (recvSizedData link r (recvSizedData link r s).source)],
        (recvSizedData link r (recvSizedData link r s).source).source⟩ := by
  rw [receiveData, if_neg (ne_enotconn (recvSizedData_nonneg h)), recvSizedData_data h,
    if_neg ht]
  by_cases hn : (recvSizedData link r (recvSizedData link r s).source).result = -enotconn
  · exact ⟨false, by simp only [if_pos hn]⟩
  · exact ⟨true, by simp only [if_neg hn, if_pos hb.1]⟩

theorem receiveData_pair {body : Option Bytes} {rest' : Bytes}
    (h : wholeFrame link s.stream = some (info, rest)) (ht : (msgOf root info).topic ≠ "")
    (hb : wholeFrame link rest = some (body, rest')) :
    receiveData (recvSizedData link r) root s =
      ⟨true, [(msgOf root info, given body)], [.of s (recvSizedData link r s),
        .of (recvSizedData link r s).source
          (recvSizedData link r (recvSizedData link r s).source)],
        (recvSizedData link r (recvSizedData link r s).source).source⟩ := by
  rw [← (recvSizedData_whole r h).2] at hb
  have hn := recvSizedData_nonneg (r := r) hb
  have ho : ((recvSizedData link r (recvSizedData link r s).source).result,
      (recvSizedData link r (recvSizedData link r s).source).data) = given body :=
    (recvSizedData_whole r hb).1
  rw [receiveData, if_neg (ne_enotconn (recvSizedData_nonneg h)), recvSizedData_data h,
    if_neg ht]
  simp only [if_neg (ne_enotconn hn), if_neg hn, ho]

theorem receiveData_reads (f : Source UInt8 → Received) (s : Source UInt8) :
    ∃ tail, (receiveData f root s).reads = .of s (f s) :: tail := by
  rw [receiveData]
  split
  · exact ⟨[], rfl⟩
  · split
    · exact ⟨[], rfl⟩
    · simp only
      split
      · exact ⟨_, rfl⟩
      · split <;> exact ⟨_, rfl⟩

theorem receiveData_bodyRead (h : wholeFrame link s.stream = some (info, rest))
    (ht : (msgOf root info).topic ≠ "") :
    (receiveData (recvSizedData link r) root s).reads = [.of s (recvSizedData link r s),
      .of (recvSizedData link r s).source
        (recvSizedData link r (recvSizedData link r s).source)] := by
  rw [receiveData, if_neg (ne_enotconn (recvSizedData_nonneg h)), recvSizedData_data h,
    if_neg ht]
  simp only
  split
  · rfl
  · split <;> rfl

end Turns

omit [Package] in
theorem clean_of_whole {r : Receiving} {s : Source UInt8} {x : Option Bytes × Bytes}
    (h : wholeFrame link s.stream = some x) : Clean link r s := by
  cases link with
  | normal =>
    rintro ⟨h4, hv, hl⟩
    rw [wholeFrame, if_pos h4] at h
    rw [wholeBody, if_neg, if_neg] at h
    · cases h
    · rintro ⟨_, hle⟩
      rw [List.length_drop] at hle
      omega
    · exact hv.ne_int32Max
  | secure c =>
    rintro ⟨h16, hn, _⟩
    rw [wholeFrame, if_pos h16, hn] at h
    cases h

structure Invariant (link : Link) (root : Bytes → List (String × Item)) (stream : Bytes)
    (s : State) : Prop where
  truthful : Truthful link root stream s
  aligned : ¬s.failed link → s.skipped = false →
    pairs link root stream = s.handed ++ pairs link root s.source.stream
  passed : s.skipped = true → ∃ rest, pairs link root stream = s.handed ++ rest ∧
    ∀ x ∈ rest.head?, x.1.topic = ""

theorem invariant_initial (link : Link) (root : Bytes → List (String × Item)) (stream : Bytes) :
    Invariant link root stream ⟨true, ⟨stream, 0⟩, [], [], false⟩ where
  truthful := ⟨List.nil_prefix, by simp, .nil⟩
  aligned _ _ := rfl
  passed h := by cases h

variable {r : Receiving} {stream : Bytes} {s t : State}

/-- Reads that refuse what is faulty may be added where nothing was left after a fault. -/
theorem Truthful.extend (h : Truthful link root stream s) {turn : Turn} {passed : Bool}
    (hp : s.handed ++ turn.handed <+: pairs link root stream)
    (hr : ∀ x ∈ turn.reads, Faulty link x → Refused x.result x.data)
    (hh : turn.reads.Pairwise fun x y => Faulty link x → y.before = [])
    (hf : s.failed link → ∀ y ∈ turn.reads, y.before = []) :
    Truthful link root stream (s.after turn passed) where
  prefixes := hp
  refused x hx hfx := by
    rcases List.mem_append.mp hx with hx | hx
    · exact h.refused x hx hfx
    · exact hr x hx hfx
  halted := by
    refine List.pairwise_append.mpr ⟨h.halted, hh, fun x hx y hy hfx => ?_⟩
    exact hf ⟨x, hx, hfx⟩ y hy

theorem step_readable (h : step link r root s .readable = some t) :
    t = s.after (receiveData (recvSizedData link r) root s.source)
      (passesOver link root s.source.stream) := by
  rw [step] at h
  split at h
  · exact (Option.some.inj h).symm
  · cases h

theorem step_hangup (h : step link r root s .hangup = some t) :
    t = { s with watched := false } := by
  rw [step] at h
  split at h
  · exact (Option.some.inj h).symm
  · cases h

/-- A turn that ends in a fault hands out nothing, and everything behind it stays unread. -/
theorem Invariant.fault (hi : Invariant link root stream s) {turn : Turn}
    (hnone : turn.handed = []) (hr : ∀ x ∈ turn.reads, Faulty link x → Refused x.result x.data)
    (hh : turn.reads.Pairwise fun x y => Faulty link x → y.before = [])
    (hf : s.failed link → ∀ y ∈ turn.reads, y.before = [])
    (hfault : ∃ x ∈ turn.reads, Faulty link x) :
    Invariant link root stream (s.after turn false) where
  truthful := by
    refine hi.truthful.extend ?_ hr hh hf
    rw [hnone, List.append_nil]
    exact hi.truthful.prefixes
  aligned hn _ := by
    obtain ⟨x, hx, hxf⟩ := hfault
    exact absurd ⟨x, List.mem_append_right _ hx, hxf⟩ hn
  passed h := by
    rw [State.after, Bool.or_false] at h
    simp only [State.after, hnone, List.append_nil]
    exact hi.passed h

/-- A turn that passes over a header leaves the pair it belongs to as the next one. -/
theorem Invariant.pass (hi : Invariant link root stream s) (hnf : ¬s.failed link) {turn : Turn}
    (hnone : turn.handed = []) (hr : ∀ x ∈ turn.reads, ¬Faulty link x)
    (hnext : ∀ x ∈ (pairs link root s.source.stream).head?, x.1.topic = "") :
    Invariant link root stream (s.after turn true) where
  truthful := by
    refine hi.truthful.extend ?_ (fun x hx hf => absurd hf (hr x hx)) ?_ fun h => absurd h hnf
    · rw [hnone, List.append_nil]
      exact hi.truthful.prefixes
    · exact List.pairwise_of_forall_mem_list fun x hx _ _ hf => absurd hf (hr x hx)
  aligned _ h := by
    rw [State.after, Bool.or_true] at h
    cases h
  passed _ := by
    simp only [State.after, hnone, List.append_nil]
    cases hsk : s.skipped with
    | true => exact hi.passed hsk
    | false => exact ⟨_, hi.aligned hnf hsk, hnext⟩

/-- A turn that hands out the next pair. -/
theorem Invariant.deliver (hi : Invariant link root stream s) (hnf : ¬s.failed link)
    (hsk : s.skipped = false) {turn : Turn} (hr : ∀ x ∈ turn.reads, ¬Faulty link x)
    (hpairs : pairs link root s.source.stream =
      turn.handed ++ pairs link root turn.source.stream) :
    Invariant link root stream (s.after turn false) := by
  have heq := hi.aligned hnf hsk
  rw [hpairs, ← List.append_assoc] at heq
  refine ⟨hi.truthful.extend ⟨_, heq.symm⟩ (fun x hx hf => absurd hf (hr x hx)) ?_
    fun h => absurd h hnf, fun _ _ => heq, fun h => ?_⟩
  · exact List.pairwise_of_forall_mem_list fun x hx _ _ hf => absurd hf (hr x hx)
  · rw [State.after, Bool.or_false, hsk] at h
    cases h

theorem not_failed_of_whole {x : Option Bytes × Bytes} (ok : Ok link r root s .readable)
    (h : wholeFrame link s.source.stream = some x) : ¬s.failed link := by
  intro hf
  rw [ok.1 hf, wholeFrame_nil] at h
  cases h

omit [Package] in
theorem not_faulty_of_whole {u : Source UInt8} {y : Received} {x : Option Bytes × Bytes}
    (h : wholeFrame link u.stream = some x) : ¬Faulty link (.of u y) := by
  intro hf
  cases (show wholeFrame link u.stream = none from hf).symm.trans h

/-- The frame behind a header with a topic. -/
theorem Invariant.readable_body (ha : link.FailsShort r) (hi : Invariant link root stream s)
    {info : Option Bytes} {rest : Bytes} (hnf : ¬s.failed link)
    (hw : wholeFrame link s.source.stream = some (info, rest))
    (htopic : (msgOf root info).topic ≠ "")
    (hclean : Clean link r (recvSizedData link r s.source).source)
    (hskip : s.skipped = true → wholeFrame link rest = none) :
    Invariant link root stream
      (s.after (receiveData (recvSizedData link r) root s.source) false) := by
  have hstream := (recvSizedData_whole r hw).2
  cases hr : wholeFrame link rest with
  | none =>
    rw [← hstream] at hr
    have href := (recvSizedData_refused_iff r ha hr).mpr hclean
    obtain ⟨w, ht⟩ := receiveData_bodyFaulty hw htopic href
    rw [ht]
    refine hi.fault rfl ?_ ?_ (fun hf => absurd hf hnf)
      ⟨Read.of (recvSizedData link r s.source).source _,
        List.mem_cons_of_mem _ (List.mem_singleton_self _), hr⟩
    · intro x hx hf
      rcases List.mem_cons.mp hx with rfl | hx
      · exact absurd hf (not_faulty_of_whole hw)
      · rw [List.mem_singleton.mp hx]
        exact href
    · exact List.pairwise_pair.mpr fun hf => absurd hf (not_faulty_of_whole hw)
  | some y =>
    obtain ⟨body, rest'⟩ := y
    have hsk : s.skipped = false := by
      cases hsk : s.skipped with
      | false => rfl
      | true => cases (hskip hsk).symm.trans hr
    have hr' := hr
    rw [← hstream] at hr'
    rw [receiveData_pair hw htopic hr]
    refine hi.deliver hnf hsk ?_ ?_
    · simp only [List.mem_cons, List.not_mem_nil, or_false]
      rintro x (rfl | rfl)
      · exact not_faulty_of_whole hw
      · exact not_faulty_of_whole hr'
    · rw [pairs_cons hw hr, (recvSizedData_whole r hr').2]
      rfl

theorem Invariant.readable (ha : link.FailsShort r) (hi : Invariant link root stream s)
    (ok : Ok link r root s .readable) (hs : step link r root s .readable = some t) :
    Invariant link root stream t := by
  obtain rfl := step_readable hs
  cases hw : wholeFrame link s.source.stream with
  | none =>
    have href := (recvSizedData_refused_iff r ha hw).mpr ok.2.1
    obtain ⟨w, ht⟩ := @receiveData_faulty link _ root r s.source href
    rw [ht, passesOver, hw]
    refine hi.fault rfl ?_ (List.pairwise_singleton _ _) ?_
      ⟨Read.of s.source _, List.mem_singleton_self _, hw⟩
    · intro x hx _
      rw [List.mem_singleton.mp hx]
      exact href
    · intro hf y hy
      rw [List.mem_singleton.mp hy]
      exact ok.1 hf
  | some x =>
    obtain ⟨info, rest⟩ := x
    have hnf := not_failed_of_whole ok hw
    rw [passesOver, hw]
    by_cases htopic : (msgOf root info).topic = ""
    · simp only [receiveData_passed hw htopic, htopic, decide_true]
      refine hi.pass hnf rfl ?_ ?_
      · intro x hx
        rw [List.mem_singleton.mp hx]
        exact not_faulty_of_whole hw
      · cases hr : wholeFrame link rest with
        | none => simp [pairs_half hw hr]
        | some y => simpa [pairs_cons hw (show _ = some (y.1, y.2) from hr)] using htopic
    · obtain ⟨hclean, hskip⟩ := (ok.2.2 (info, rest) hw).resolve_left htopic
      simp only [htopic, decide_false]
      exact hi.readable_body ha hnf hw htopic hclean hskip

theorem Invariant.hangup (hi : Invariant link root stream s)
    (hs : step link r root s .hangup = some t) : Invariant link root stream t := by
  obtain rfl := step_hangup hs
  exact ⟨⟨hi.truthful.prefixes, hi.truthful.refused, hi.truthful.halted⟩, hi.aligned, hi.passed⟩

/-- Where an event leaves everything true, it had what it needs. -/
theorem Invariant.ok_of_truthful (ha : link.FailsShort r) (hi : Invariant link root stream s)
    (hs : step link r root s .readable = some t) (ht : Truthful link root stream t) :
    Ok link r root s .readable := by
  obtain rfl := step_readable hs
  obtain ⟨tail, htail⟩ := @receiveData_reads _ root (recvSizedData link r) s.source
  have hfirst : Read.of s.source (recvSizedData link r s.source) ∈
      (receiveData (recvSizedData link r) root s.source).reads := by
    rw [htail]
    exact List.mem_cons_self
  have hcalm : s.failed link → s.source.stream = [] := by
    rintro ⟨x, hx, hf⟩
    exact (List.pairwise_append.mp ht.halted).2.2 x hx _ hfirst hf
  have hclean : Clean link r s.source := by
    cases hw : wholeFrame link s.source.stream with
    | some x => exact clean_of_whole hw
    | none =>
      apply (recvSizedData_refused_iff r ha hw).mp
      exact ht.refused _ (List.mem_append_right _ hfirst) hw
  refine ⟨hcalm, hclean, ?_⟩
  rintro ⟨info, rest⟩ hw
  by_cases htopic : (msgOf root info).topic = ""
  · exact .inl htopic
  have hstream := (recvSizedData_whole r hw).2
  refine .inr ⟨?_, fun hsk => ?_⟩
  · cases hr : wholeFrame link (recvSizedData link r s.source).source.stream with
    | some x => exact clean_of_whole hr
    | none =>
      apply (recvSizedData_refused_iff r ha hr).mp
      refine ht.refused (Read.of _ _) (List.mem_append_right _ ?_) hr
      rw [receiveData_bodyRead hw htopic]
      exact List.mem_cons_of_mem _ List.mem_cons_self
  · cases hr : wholeFrame link rest with
    | none => rfl
    | some y =>
      obtain ⟨later, hlater, hhead⟩ := hi.passed hsk
      have hp := ht.prefixes
      rw [State.after, receiveData_pair hw htopic (show _ = some (y.1, y.2) from hr), hlater,
        List.prefix_append_right_inj] at hp
      obtain ⟨z, rfl⟩ := hp
      exact absurd (hhead _ rfl) htopic

/-- In a run whose events all have what they need, everything is true, and of the next event
it stays true exactly when that event has what it needs too. What is handed out are then
pairs that a sender whose bytes these are has written. -/
theorem received_pairs_truthful (ha : link.FailsShort r)
    (h : (machine link r root stream).Reaches (Ok link r root) s) :
    Truthful link root stream s ∧
    (∀ ps : List (Bytes × Bytes), (∀ p ∈ ps, Sendable link p.1 ∧ Sendable link p.2) →
      (stream <+: ps.flatMap fun p => frame link p.1 ++ frame link p.2) →
      s.handed <+: ps.map fun p => (msgOf root (contents p.1), given (contents p.2))) ∧
    ∀ e t, (machine link r root stream).step s e = some t →
      (Truthful link root stream t ↔ Ok link r root s e) := by
  have hinv : Invariant link root stream s := by
    refine h.invariant (invariant_initial link root stream) ?_
    intro s e t _ hi ok hs
    cases e with
    | readable => exact hi.readable ha ok hs
    | hangup => exact Invariant.hangup (r := r) hi hs
  refine ⟨hinv.truthful, fun ps hps hp => ?_, fun e t hs => ?_⟩
  · obtain ⟨z, hz⟩ := hp
    rw [← pairs_frames hps, ← hz]
    exact hinv.truthful.prefixes.trans (pairs_append link root stream z)
  · cases e with
    | readable => exact ⟨hinv.ok_of_truthful ha hs, fun ok => (hinv.readable ha ok hs).truthful⟩
    | hangup => exact iff_of_true (Invariant.hangup (r := r) hinv hs).truthful trivial

end Messages

local instance : Package := plain

def oneByteRoot (b : Bytes) : List (String × Item) :=
  if b = [1] then [("topic", .string "t")] else []

def oneByteMsg : AittMsg := { topic := "t" }

def zeroMemory : Receiving := ⟨fun _ => 0, fun _ => .closed, fun _ _ => 0⟩

theorem paddingOnly_failsShort : (Link.secure paddingOnly).FailsShort zeroMemory := by
  refine ⟨by decide, fun t n hl => ?_⟩
  have hlast : (overlay t.stream (zeroMemory.malloc t n)).getLastD 0 = 0 := by
    obtain ⟨k, hk⟩ := Nat.exists_eq_add_of_lt hl
    have hz : zeroMemory.malloc t n = List.replicate n 0 := by
      simp [Receiving.malloc, zeroMemory, List.map_const']
    rw [overlay, hz, List.drop_replicate, show n - t.stream.length = k + 1 by omega,
      List.replicate_succ']
    simp
  simp only [paddingOnly, hlast]
  rfl

theorem received_pairs_truthful_secure :
    let link := Link.secure paddingOnly
    let stream := frame link [1] ++ frame link [7, 8] ++ frame link [1] ++ frame link []
    link.FailsShort zeroMemory ∧ ∃ s,
      (machine link zeroMemory oneByteRoot stream).Reaches (Ok link zeroMemory oneByteRoot) s ∧
      Truthful link oneByteRoot stream s ∧
      s.handed = [(oneByteMsg, 2, some [7, 8]), (oneByteMsg, 0, none)] := by
  intro link stream
  obtain ⟨s, hs, hp⟩ := Machine.exists_reaches
    (machine link zeroMemory oneByteRoot stream) (Ok link zeroMemory oneByteRoot)
    [.readable, .readable] (fun s => decide (s.handed =
      [(oneByteMsg, 2, some [7, 8]), (oneByteMsg, 0, none)])) (by decide +kernel)
  exact ⟨paddingOnly_failsShort, s, hs,
    (received_pairs_truthful paddingOnly_failsShort hs).1, of_decide_eq_true hp⟩

def cutStream : Bytes := frame .normal [1] ++ (frame .normal [1, 2, 3, 4, 5, 6, 7, 8]).take 7

theorem cut_payload_is_handed_out :
    cutStream <+: frame .normal [1] ++ frame .normal [1, 2, 3, 4, 5, 6, 7, 8] ∧
    pairs .normal oneByteRoot cutStream = [] ∧
    ∃ s, (machine .normal zeroMemory oneByteRoot cutStream).Reachable s ∧
      s.handed = [(oneByteMsg, 8, some [1, 2, 3, 0, 0, 0, 0, 0])] ∧
      ¬Truthful .normal oneByteRoot cutStream s := by
  obtain ⟨s, hs, hp⟩ := Machine.exists_reachable
    (machine .normal zeroMemory oneByteRoot cutStream) [.readable] (fun s => decide (s.handed =
      [(oneByteMsg, 8, some [1, 2, 3, 0, 0, 0, 0, 0])])) (by decide +kernel)
  have hnone : pairs .normal oneByteRoot cutStream = [] := by decide +kernel
  refine ⟨by decide +kernel, hnone, s, hs, of_decide_eq_true hp, fun ht => ?_⟩
  have hpre := ht.prefixes
  rw [of_decide_eq_true hp, hnone, List.prefix_nil] at hpre
  cases hpre

end TcpReceive
