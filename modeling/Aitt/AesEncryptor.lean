import Aitt.Pkcs7Padding
import Aitt.TcpSecureFraming
import Mathlib.Data.Vector.Basic

/-! The two AES back ends of the secure TCP module. The one for mbed TLS adds the padding and
checks it by hand; the other leaves both to OpenSSL. -/
namespace AesEncryptor

open AittTypes TcpFraming TcpSecureFraming Pkcs7Padding

def keyLen : ℕ := 32

/-- AES-256-CBC on whole blocks: under each key and iv a bijection that keeps the length. -/
structure AesCbc where
  encrypt : (key iv : Bytes) → Bytes → Bytes
  decrypt : (key iv : Bytes) → Bytes → Bytes
  encrypt_length : ∀ key iv data, blockSize ∣ data.length →
    (encrypt key iv data).length = data.length
  decrypt_length : ∀ key iv data, blockSize ∣ data.length →
    (decrypt key iv data).length = data.length
  decrypt_encrypt : ∀ key iv data, blockSize ∣ data.length →
    decrypt key iv (encrypt key iv data) = data
  encrypt_decrypt : ∀ key iv data, blockSize ∣ data.length →
    encrypt key iv (decrypt key iv data) = data

def AesCbc.plain : AesCbc where
  encrypt _ _ data := data
  decrypt _ _ data := data
  encrypt_length _ _ _ _ := rfl
  decrypt_length _ _ _ _ := rfl
  decrypt_encrypt _ _ _ _ := rfl
  encrypt_decrypt _ _ _ _ := rfl

/-- `key_` and `iv_`; both are empty before `Init`. -/
structure AESEncryptor where
  key : Bytes := []
  iv : Bytes := []

def AESEncryptor.init (e : AESEncryptor) (key : List.Vector UInt8 keyLen)
    (iv : List.Vector UInt8 blockSize) : AESEncryptor :=
  { key := key.toList ++ e.key, iv := iv.toList ++ e.iv }

/-- What a call leaves: a negative result, a length with the bytes that far in the output
buffer, or a read outside that buffer. -/
inductive Outcome where
  | returned (output : Bytes)
  | refused
  | outside
  deriving DecidableEq, Repr

variable (cbc : AesCbc) (e : AESEncryptor)

def malloc (memory : ℕ → UInt8) (size : ℕ) : Bytes := (List.range size).map memory

/-- `mbedtls_aes_crypt_cbc` reads a key of 32 bytes and an iv of 16. A length that is not a
multiple of the block is an error, and then the output buffer is left as it was. -/
def mbedtlsAesCryptCbc (crypt : (key iv : Bytes) → Bytes → Bytes) (input output : Bytes) :
    Bytes :=
  if blockSize ∣ input.length then crypt (e.key.take keyLen) (e.iv.take blockSize) input
  else output

def writePadding (plaintextLen paddingLen : ℕ) (buffer : Bytes) : ℕ → Bytes
  | 0 => buffer
  | i + 1 => (writePadding plaintextLen paddingLen buffer i).set (plaintextLen + i)
      (UInt8.ofNat paddingLen)

def encryptMbedTLS (memory : ℕ → UInt8) (plaintext : Bytes) : Outcome :=
  if e.key.length = 0 then .refused
  else
    let paddingLen := blockSize - plaintext.length % blockSize
    let buffer := overlay plaintext (malloc memory (plaintext.length + paddingLen))
    let padded := writePadding plaintext.length paddingLen buffer paddingLen
    .returned (mbedtlsAesCryptCbc e cbc.encrypt padded [])

def read (buffer : Bytes) (loc : ℤ) : Option UInt8 :=
  if loc < 0 then none else buffer[loc.toNat]?

inductive Check where
  | matched
  | mismatch
  | outside
  deriving DecidableEq, Repr

def checkPadding (plaintext : Bytes) (paddingSize : ℕ) : ℕ → ℕ → Check
  | 0, _ => .matched
  | n + 1, i =>
    match read plaintext (plaintext.length - 1 - i) with
    | none => .outside
    | some b =>
      if b.toNat ≠ paddingSize then .mismatch else checkPadding plaintext paddingSize n (i + 1)

/-- The output buffer of `Decrypt` after `mbedtls_aes_crypt_cbc`, whose result is ignored. -/
def decryptedBuffer (memory : ℕ → UInt8) (ciphertext : Bytes) : Bytes :=
  mbedtlsAesCryptCbc e cbc.decrypt ciphertext (malloc memory ciphertext.length)

def decryptMbedTLS (memory : ℕ → UInt8) (ciphertext : Bytes) : Outcome :=
  if e.key.length = 0 then .refused
  else
    let plaintext := decryptedBuffer cbc e memory ciphertext
    match read plaintext (ciphertext.length - 1) with
    | none => .outside
    | some last =>
      let paddingSize := last.toNat
      match checkPadding plaintext paddingSize paddingSize 0 with
      | .outside => .outside
      | .mismatch => .refused
      | .matched => .returned (plaintext.take (ciphertext.length - paddingSize))

def evpEncrypt (plaintext : Bytes) : Bytes :=
  cbc.encrypt (e.key.take keyLen) (e.iv.take blockSize) (pad blockSize plaintext)

def evpDecrypt (ciphertext : Bytes) : Option Bytes :=
  if ciphertext.length ≠ 0 ∧ blockSize ∣ ciphertext.length then
    unpad blockSize (cbc.decrypt (e.key.take keyLen) (e.iv.take blockSize) ciphertext)
  else none

def encryptOpenSSL (plaintext : Bytes) : Outcome :=
  if e.key.length = 0 then .returned [] else .returned (evpEncrypt cbc e plaintext)

def decryptOpenSSL (ciphertext : Bytes) : Outcome :=
  if e.key.length = 0 then .returned []
  else
    match evpDecrypt cbc e ciphertext with
    | none => .refused
    | some plaintext => .returned plaintext

variable {cbc e} {memory : ℕ → UInt8}

@[simp] theorem malloc_length (memory : ℕ → UInt8) (size : ℕ) :
    (malloc memory size).length = size := by
  rw [malloc, List.length_map, List.length_range]

@[simp] theorem init_key_length (e : AESEncryptor) (key : List.Vector UInt8 keyLen)
    (iv : List.Vector UInt8 blockSize) : (e.init key iv).key.length ≠ 0 := by
  rw [AESEncryptor.init, List.length_append, List.Vector.toList_length, keyLen]
  omega

@[simp] theorem decryptedBuffer_length (ciphertext : Bytes) :
    (decryptedBuffer cbc e memory ciphertext).length = ciphertext.length := by
  unfold decryptedBuffer mbedtlsAesCryptCbc
  split
  · exact cbc.decrypt_length _ _ _ ‹_›
  · exact malloc_length _ _

theorem decryptedBuffer_eq_nil_iff (ciphertext : Bytes) :
    decryptedBuffer cbc e memory ciphertext = [] ↔ ciphertext = [] := by
  rw [← List.length_eq_zero_iff, decryptedBuffer_length, List.length_eq_zero_iff]

theorem ne_nil_of_last {ciphertext : Bytes} {k : UInt8}
    (hl : (decryptedBuffer cbc e memory ciphertext).getLast? = some k) : ciphertext ≠ [] := by
  rintro rfl
  rw [(decryptedBuffer_eq_nil_iff []).mpr rfl] at hl
  cases hl

/-- After `i` turns the first `i` bytes behind the plaintext are the padding. -/
theorem writePadding_eq (plaintext rest : Bytes) (k : ℕ) {i : ℕ} (h : i ≤ rest.length) :
    writePadding plaintext.length k (plaintext ++ rest) i =
      plaintext ++ (List.replicate i (UInt8.ofNat k) ++ rest.drop i) := by
  induction i with
  | zero => rfl
  | succ i ih =>
    have hdrop : rest.drop i = rest[i] :: rest.drop (i + 1) := List.drop_eq_getElem_cons h
    have hlen : (List.replicate i (UInt8.ofNat k)).length = i := List.length_replicate
    rw [writePadding, ih (by omega), List.set_append_right _ _ (Nat.le_add_right _ _),
      Nat.add_sub_cancel_left, List.set_append_right _ _ hlen.le, hlen, Nat.sub_self, hdrop,
      List.set_cons_zero, List.replicate_succ', List.append_assoc, List.singleton_append]

theorem writePadding_eq_pad (memory : ℕ → UInt8) (plaintext : Bytes) :
    writePadding plaintext.length (padLength blockSize plaintext.length)
      (overlay plaintext
        (malloc memory (plaintext.length + padLength blockSize plaintext.length)))
      (padLength blockSize plaintext.length) = pad blockSize plaintext := by
  have hrest : ((malloc memory (plaintext.length + padLength blockSize plaintext.length)).drop
      plaintext.length).length = padLength blockSize plaintext.length := by
    rw [List.length_drop, malloc_length, Nat.add_sub_cancel_left]
  rw [overlay, writePadding_eq _ _ _ hrest.ge, List.drop_of_length_le hrest.le, List.append_nil,
    pad]

theorem encryptMbedTLS_eq (hk : e.key.length ≠ 0) (plaintext : Bytes) :
    encryptMbedTLS cbc e memory plaintext = .returned (evpEncrypt cbc e plaintext) := by
  have hp := writePadding_eq_pad memory plaintext
  unfold padLength at hp
  rw [encryptMbedTLS, if_neg hk]
  simp only [hp]
  rw [mbedtlsAesCryptCbc, if_pos (dvd_pad_length (by decide) plaintext), evpEncrypt]

theorem evpEncrypt_length (plaintext : Bytes) :
    (evpEncrypt cbc e plaintext).length = getCryptogramSize plaintext.length := by
  rw [evpEncrypt, cbc.encrypt_length _ _ _ (dvd_pad_length (by decide) plaintext),
    pad_length (by decide), getCryptogramSize]

/-- The byte that turn `i` looks at is byte `i` from the end. -/
theorem read_from_end (buffer : Bytes) (i : ℕ) :
    read buffer (buffer.length - 1 - i) = buffer.reverse[i]? := by
  unfold read
  split
  · rw [List.getElem?_eq_none]
    rw [List.length_reverse]
    omega
  · rw [List.getElem?_reverse (by omega)]
    congr 1
    omega

/-- The loop on the last `n` bytes, behind the `i` bytes that are done. -/
theorem checkPadding_eq (plaintext : Bytes) (k n i : ℕ) :
    checkPadding plaintext k n i =
      if ∃ b ∈ (plaintext.reverse.drop i).take n, b.toNat ≠ k then .mismatch
      else if ((plaintext.reverse.drop i).take n).length = n then .matched else .outside := by
  induction n generalizing i with
  | zero => simp [checkPadding]
  | succ n ih =>
    have hread : plaintext.reverse[i]? = (plaintext.reverse.drop i).head? := by
      rw [List.head?_drop]
    have htail : plaintext.reverse.drop (i + 1) = (plaintext.reverse.drop i).tail := by
      rw [List.tail_drop]
    simp only [checkPadding, read_from_end, hread, ih, htail]
    cases plaintext.reverse.drop i with
    | nil => simp
    | cons b rest =>
      by_cases hb : b.toNat = k
      · simp [hb]
      · simp [hb]

theorem checkPadding_all (plaintext : Bytes) (k : UInt8) :
    checkPadding plaintext k.toNat k.toNat 0 =
      if ∃ b ∈ plaintext.rtake k.toNat, b ≠ k then .mismatch
      else if k.toNat ≤ plaintext.length then .matched else .outside := by
  have hlen : (plaintext.reverse.take k.toNat).length = k.toNat ↔
      k.toNat ≤ plaintext.length := by
    rw [List.length_take, List.length_reverse]
    omega
  rw [checkPadding_eq, List.drop_zero, List.rtake_eq_reverse_take_reverse]
  simp only [hlen, List.mem_reverse, ne_eq, UInt8.toNat_inj]

/-- The ciphertexts on which the check by hand gives what the standard padding asks for. -/
def ChecksAlike (cbc : AesCbc) (e : AESEncryptor) (memory : ℕ → UInt8) (ciphertext : Bytes) :
    Prop :=
  let plaintext := decryptedBuffer cbc e memory ciphertext
  ∃ k, plaintext.getLast? = some k ∧
    (blockSize ∣ ciphertext.length ∧ 1 ≤ k.toNat ∧ k.toNat ≤ blockSize ∨
      ∃ b ∈ plaintext.rtake k.toNat, b ≠ k)

theorem decryptMbedTLS_nil (hk : e.key.length ≠ 0) :
    decryptMbedTLS cbc e memory [] = .outside := by
  rw [decryptMbedTLS, if_neg hk]
  rfl

theorem decryptMbedTLS_eq (hk : e.key.length ≠ 0) {ciphertext : Bytes} {k : UInt8}
    (hl : (decryptedBuffer cbc e memory ciphertext).getLast? = some k) :
    decryptMbedTLS cbc e memory ciphertext =
      if ∃ b ∈ (decryptedBuffer cbc e memory ciphertext).rtake k.toNat, b ≠ k then .refused
      else if k.toNat ≤ ciphertext.length then
        .returned ((decryptedBuffer cbc e memory ciphertext).rdrop k.toNat)
      else .outside := by
  have hread : read (decryptedBuffer cbc e memory ciphertext) (ciphertext.length - 1) =
      some k := by
    have h := read_from_end (decryptedBuffer cbc e memory ciphertext) 0
    rw [decryptedBuffer_length, Int.natCast_zero, Int.sub_zero, ← List.head?_eq_getElem?,
      List.head?_reverse, hl] at h
    exact h
  rw [decryptMbedTLS, if_neg hk]
  simp only [hread, checkPadding_all, decryptedBuffer_length]
  split_ifs
  · rfl
  · rw [List.rdrop, decryptedBuffer_length]
  · rfl

theorem decryptOpenSSL_nil (hk : e.key.length ≠ 0) : decryptOpenSSL cbc e [] = .refused := by
  rw [decryptOpenSSL, if_neg hk]
  rfl

theorem evpDecrypt_eq (memory : ℕ → UInt8) {ciphertext : Bytes} (hne : ciphertext ≠ [])
    (hd : blockSize ∣ ciphertext.length) :
    evpDecrypt cbc e ciphertext = unpad blockSize (decryptedBuffer cbc e memory ciphertext) := by
  rw [evpDecrypt, if_pos ⟨fun h => hne (List.length_eq_zero_iff.mp h), hd⟩, decryptedBuffer,
    mbedtlsAesCryptCbc, if_pos hd]

theorem decryptOpenSSL_eq (hk : e.key.length ≠ 0) {ciphertext : Bytes} {k : UInt8}
    (hl : (decryptedBuffer cbc e memory ciphertext).getLast? = some k) :
    decryptOpenSSL cbc e ciphertext =
      if blockSize ∣ ciphertext.length ∧
          WellPadded blockSize (decryptedBuffer cbc e memory ciphertext) k then
        .returned ((decryptedBuffer cbc e memory ciphertext).rdrop k.toNat)
      else .refused := by
  rw [decryptOpenSSL, if_neg hk]
  by_cases hd : blockSize ∣ ciphertext.length
  · rw [evpDecrypt_eq memory (ne_nil_of_last hl) hd, unpad, hl, decryptedBuffer_length]
    by_cases hw : blockSize ∣ ciphertext.length ∧
        WellPadded blockSize (decryptedBuffer cbc e memory ciphertext) k
    · simp only [if_pos hw]
    · simp only [if_neg hw]
  · rw [evpDecrypt, if_neg fun h => hd h.2, if_neg fun h => hd h.1]

theorem checksAlike_nil : ¬ ChecksAlike cbc e memory [] := by
  rintro ⟨k, hk, -⟩
  exact ne_nil_of_last hk rfl

theorem decrypt_alike_iff (hk : e.key.length ≠ 0) (memory : ℕ → UInt8) (ciphertext : Bytes) :
    decryptMbedTLS cbc e memory ciphertext = decryptOpenSSL cbc e ciphertext ↔
      ChecksAlike cbc e memory ciphertext := by
  cases hl : (decryptedBuffer cbc e memory ciphertext).getLast? with
  | none =>
    rw [List.getLast?_eq_none_iff, decryptedBuffer_eq_nil_iff] at hl
    subst hl
    rw [decryptMbedTLS_nil hk, decryptOpenSSL_nil hk]
    exact iff_of_false (by simp) checksAlike_nil
  | some k =>
    rw [decryptMbedTLS_eq hk hl, decryptOpenSSL_eq hk hl]
    simp only [ChecksAlike, hl, Option.some.injEq, exists_eq_left']
    by_cases hm : ∃ b ∈ (decryptedBuffer cbc e memory ciphertext).rtake k.toNat, b ≠ k
    · obtain ⟨b, hb, hne⟩ := hm
      rw [if_pos ⟨b, hb, hne⟩, if_neg fun h => hne (h.2.2 b hb)]
      exact iff_of_true rfl (Or.inr ⟨b, hb, hne⟩)
    · rw [if_neg hm, or_iff_left hm]
      push Not at hm
      by_cases hr : blockSize ∣ ciphertext.length ∧ 1 ≤ k.toNat ∧ k.toNat ≤ blockSize
      · have hne : ciphertext ≠ [] := ne_nil_of_last hl
        have hle : k.toNat ≤ ciphertext.length :=
          hr.2.2.trans (Nat.le_of_dvd (List.length_pos_iff.mpr hne) hr.1)
        have hw : WellPadded blockSize (decryptedBuffer cbc e memory ciphertext) k := ⟨hr.2, hm⟩
        rw [if_pos hle, if_pos ⟨hr.1, hw⟩]
        exact iff_of_true rfl hr
      · have hw : ¬ (blockSize ∣ ciphertext.length ∧
            WellPadded blockSize (decryptedBuffer cbc e memory ciphertext) k) :=
          fun h => hr ⟨h.1, h.2.1⟩
        rw [if_neg hw]
        refine iff_of_false ?_ hr
        split
        · simp
        · simp

theorem decryptOpenSSL_ne_outside (ciphertext : Bytes) :
    decryptOpenSSL cbc e ciphertext ≠ .outside := by
  unfold decryptOpenSSL
  split
  · exact nofun
  · split
    · exact nofun
    · exact nofun

theorem back_ends_agree_iff (cbc : AesCbc) (fresh : AESEncryptor)
    (key : List.Vector UInt8 keyLen) (iv : List.Vector UInt8 blockSize) (memory : ℕ → UInt8) :
    (∀ plaintext, ∃ ciphertext,
      encryptMbedTLS cbc (fresh.init key iv) memory plaintext = .returned ciphertext ∧
      encryptOpenSSL cbc (fresh.init key iv) plaintext = .returned ciphertext ∧
      ciphertext.length = getCryptogramSize plaintext.length) ∧
    ∀ ciphertext,
      (decryptMbedTLS cbc (fresh.init key iv) memory ciphertext =
          decryptOpenSSL cbc (fresh.init key iv) ciphertext ∧
        decryptMbedTLS cbc (fresh.init key iv) memory ciphertext ≠ .outside) ↔
      ChecksAlike cbc (fresh.init key iv) memory ciphertext := by
  have hk := init_key_length fresh key iv
  refine ⟨fun plaintext => ?_, fun ciphertext => ?_⟩
  · refine ⟨evpEncrypt cbc (fresh.init key iv) plaintext, encryptMbedTLS_eq hk plaintext, ?_,
      evpEncrypt_length plaintext⟩
    rw [encryptOpenSSL, if_neg hk]
  · rw [← decrypt_alike_iff hk]
    refine and_iff_left_of_imp fun h => ?_
    rw [h]
    exact decryptOpenSSL_ne_outside ciphertext

def zeroKey : List.Vector UInt8 keyLen := .replicate keyLen 0

def zeroIv : List.Vector UInt8 blockSize := .replicate blockSize 0

/-- Three bytes and their padding, with the cipher that leaves blocks as they are. -/
theorem back_ends_agree_plain :
    decryptMbedTLS .plain (AESEncryptor.init {} zeroKey zeroIv) (fun _ => 0)
        (pad blockSize [1, 2, 3]) = .returned [1, 2, 3] ∧
      decryptOpenSSL .plain (AESEncryptor.init {} zeroKey zeroIv) (pad blockSize [1, 2, 3]) =
        .returned [1, 2, 3] := by
  have hopen : decryptOpenSSL .plain (AESEncryptor.init {} zeroKey zeroIv)
      (pad blockSize [1, 2, 3]) = .returned [1, 2, 3] := by decide +kernel
  have halike : ChecksAlike .plain (AESEncryptor.init {} zeroKey zeroIv) (fun _ => 0)
      (pad blockSize [1, 2, 3]) := ⟨13, by decide +kernel, Or.inl (by decide +kernel)⟩
  obtain ⟨-, hdecrypt⟩ := back_ends_agree_iff .plain {} zeroKey zeroIv fun _ => 0
  exact ⟨((hdecrypt _).mpr halike).1.trans hopen, hopen⟩

section ZeroPadding

variable (cbc) (key : List.Vector UInt8 keyLen) (iv : List.Vector UInt8 blockSize)
  (memory : ℕ → UInt8)

/-- A block of zeros claims a padding of no bytes. Its ciphertext is accepted as it stands by
one back end and refused by the other, under every key. -/
theorem decrypt_zeros :
    decryptMbedTLS cbc (AESEncryptor.init {} key iv) memory
        (cbc.encrypt key.toList iv.toList (List.replicate blockSize 0)) =
      .returned (List.replicate blockSize 0) ∧
    decryptOpenSSL cbc (AESEncryptor.init {} key iv)
        (cbc.encrypt key.toList iv.toList (List.replicate blockSize 0)) = .refused := by
  have hk := init_key_length {} key iv
  have hkey : (AESEncryptor.init {} key iv).key.take keyLen = key.toList :=
    List.take_left' key.toList_length
  have hiv : (AESEncryptor.init {} key iv).iv.take blockSize = iv.toList :=
    List.take_left' iv.toList_length
  have hlen := cbc.encrypt_length key.toList iv.toList (List.replicate blockSize 0) (by decide)
  have hbuf : decryptedBuffer cbc (AESEncryptor.init {} key iv) memory
      (cbc.encrypt key.toList iv.toList (List.replicate blockSize 0)) =
        List.replicate blockSize 0 := by
    rw [decryptedBuffer, mbedtlsAesCryptCbc, hkey, hiv, hlen, if_pos (by decide),
      cbc.decrypt_encrypt _ _ _ (by decide)]
  have hl : (decryptedBuffer cbc (AESEncryptor.init {} key iv) memory
      (cbc.encrypt key.toList iv.toList (List.replicate blockSize 0))).getLast? = some 0 := by
    rw [hbuf]
    rfl
  rw [decryptMbedTLS_eq hk hl, decryptOpenSSL_eq hk hl, hbuf, hlen]
  decide

end ZeroPadding

/-- The same for every cipher that meets the laws, and for one of them. -/
theorem zero_padding_is_accepted :
    (∀ (cbc : AesCbc) (key : List.Vector UInt8 keyLen) (iv : List.Vector UInt8 blockSize)
      (memory : ℕ → UInt8),
      decryptMbedTLS cbc (AESEncryptor.init {} key iv) memory
          (cbc.encrypt key.toList iv.toList (List.replicate blockSize 0)) =
        .returned (List.replicate blockSize 0) ∧
      decryptOpenSSL cbc (AESEncryptor.init {} key iv)
          (cbc.encrypt key.toList iv.toList (List.replicate blockSize 0)) = .refused) ∧
    decryptMbedTLS .plain (AESEncryptor.init {} zeroKey zeroIv) (fun _ => 0)
        (List.replicate blockSize 0) = .returned (List.replicate blockSize 0) ∧
    decryptOpenSSL .plain (AESEncryptor.init {} zeroKey zeroIv) (List.replicate blockSize 0) =
      .refused :=
  ⟨decrypt_zeros, decrypt_zeros .plain zeroKey zeroIv fun _ => 0⟩

section Connection

variable (cbc) (fresh : AESEncryptor) (key : List.Vector UInt8 keyLen)
  (iv : List.Vector UInt8 blockSize) (memory : ℕ → UInt8)

def Outcome.output : Outcome → Option Bytes
  | .returned output => some output
  | .refused => none
  | .outside => none

def cryptoMbedTLS : Crypto where
  encrypt plaintext :=
    (encryptMbedTLS cbc (fresh.init key iv) memory plaintext).output.getD []
  decrypt ciphertext := (decryptMbedTLS cbc (fresh.init key iv) memory ciphertext).output

def cryptoOpenSSL : Crypto where
  encrypt plaintext := (encryptOpenSSL cbc (fresh.init key iv) plaintext).output.getD []
  decrypt ciphertext := (decryptOpenSSL cbc (fresh.init key iv) ciphertext).output

variable {cbc} {memory}

theorem dvd_evpEncrypt_length (plaintext : Bytes) :
    blockSize ∣ (evpEncrypt cbc e plaintext).length := by
  rw [evpEncrypt_length]
  exact Nat.dvd_mul_left _ _

theorem evpEncrypt_ne_nil (plaintext : Bytes) : evpEncrypt cbc e plaintext ≠ [] := by
  rw [← List.length_pos_iff, evpEncrypt_length]
  exact Nat.mul_pos (Nat.succ_pos _) (by decide)

theorem decryptedBuffer_evpEncrypt (plaintext : Bytes) :
    decryptedBuffer cbc e memory (evpEncrypt cbc e plaintext) = pad blockSize plaintext := by
  rw [decryptedBuffer, mbedtlsAesCryptCbc, if_pos (dvd_evpEncrypt_length plaintext), evpEncrypt,
    cbc.decrypt_encrypt _ _ _ (dvd_pad_length (by decide) plaintext)]

theorem decryptOpenSSL_evpEncrypt (hk : e.key.length ≠ 0) (plaintext : Bytes) :
    decryptOpenSSL cbc e (evpEncrypt cbc e plaintext) = .returned plaintext := by
  rw [decryptOpenSSL, if_neg hk, evpDecrypt_eq (fun _ => 0) (evpEncrypt_ne_nil plaintext)
    (dvd_evpEncrypt_length plaintext), decryptedBuffer_evpEncrypt,
    unpad_pad (by decide) (by decide)]

/-- On what was encrypted honestly the two checks agree. -/
theorem checksAlike_evpEncrypt (plaintext : Bytes) :
    ChecksAlike cbc e memory (evpEncrypt cbc e plaintext) := by
  have hk : (UInt8.ofNat (padLength blockSize plaintext.length)).toNat =
      padLength blockSize plaintext.length := by
    rw [UInt8.toNat_ofNat']
    exact Nat.mod_eq_of_lt (lt_of_le_of_lt (padLength_le _) (by decide))
  refine ⟨UInt8.ofNat (padLength blockSize plaintext.length), ?_, Or.inl ⟨?_, ?_, ?_⟩⟩
  · rw [decryptedBuffer_evpEncrypt, pad_getLast? (by decide)]
  · exact dvd_evpEncrypt_length plaintext
  · rw [hk]
    exact padLength_pos (by decide) _
  · rw [hk]
    exact padLength_le _

theorem cryptoOpenSSL_faithful : (cryptoOpenSSL cbc fresh key iv).Faithful where
  length plaintext _ := by
    have hk := init_key_length fresh key iv
    simp only [cryptoOpenSSL, encryptOpenSSL, if_neg hk, Outcome.output, Option.getD_some]
    exact evpEncrypt_length plaintext
  decrypted plaintext _ := by
    have hk := init_key_length fresh key iv
    simp only [cryptoOpenSSL, encryptOpenSSL, if_neg hk, Outcome.output, Option.getD_some]
    rw [decryptOpenSSL_evpEncrypt hk]

theorem cryptoMbedTLS_faithful : (cryptoMbedTLS cbc fresh key iv memory).Faithful where
  length plaintext _ := by
    have hk := init_key_length fresh key iv
    simp only [cryptoMbedTLS, encryptMbedTLS_eq hk, Outcome.output, Option.getD_some]
    exact evpEncrypt_length plaintext
  decrypted plaintext _ := by
    have hk := init_key_length fresh key iv
    simp only [cryptoMbedTLS, encryptMbedTLS_eq hk, Outcome.output, Option.getD_some]
    rw [(decrypt_alike_iff hk memory _).mpr (checksAlike_evpEncrypt plaintext),
      decryptOpenSSL_evpEncrypt hk]

end Connection

end AesEncryptor
