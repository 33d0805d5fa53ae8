import Mathlib.Data.List.DropRight

/-! Padding of a byte sequence to whole blocks. The padding has between one byte and a block of
them, and each of its bytes is their number. -/
namespace Pkcs7Padding

def padLength (block n : ℕ) : ℕ := block - n % block

def pad (block : ℕ) (data : List UInt8) : List UInt8 :=
  data ++ List.replicate (padLength block data.length)
    (UInt8.ofNat (padLength block data.length))

def WellPadded (block : ℕ) (data : List UInt8) (k : UInt8) : Prop :=
  (1 ≤ k.toNat ∧ k.toNat ≤ block) ∧ ∀ b ∈ data.rtake k.toNat, b = k

instance (block : ℕ) (data : List UInt8) (k : UInt8) : Decidable (WellPadded block data k) :=
  inferInstanceAs (Decidable (_ ∧ _))

def unpad (block : ℕ) (data : List UInt8) : Option (List UInt8) :=
  match data.getLast? with
  | none => none
  | some k =>
    if block ∣ data.length ∧ WellPadded block data k then some (data.rdrop k.toNat) else none

variable {block : ℕ}

theorem padLength_pos (hb : 0 < block) (n : ℕ) : 0 < padLength block n := by
  have h := Nat.mod_lt n hb
  unfold padLength
  omega

theorem padLength_le (n : ℕ) : padLength block n ≤ block := Nat.sub_le _ _

/-- The padded length is the next multiple of the block. -/
theorem add_padLength (hb : 0 < block) (n : ℕ) :
    n + padLength block n = (n / block + 1) * block := by
  have h := Nat.mod_lt n hb
  have hd := Nat.div_add_mod n block
  rw [Nat.add_mul, Nat.one_mul, Nat.mul_comm]
  unfold padLength
  omega

theorem pad_length (hb : 0 < block) (data : List UInt8) :
    (pad block data).length = (data.length / block + 1) * block := by
  rw [pad, List.length_append, List.length_replicate, add_padLength hb]

theorem dvd_pad_length (hb : 0 < block) (data : List UInt8) : block ∣ (pad block data).length := by
  rw [pad_length hb]
  exact Nat.dvd_mul_left _ _

theorem pad_getLast? (hb : 0 < block) (data : List UInt8) :
    (pad block data).getLast? = some (UInt8.ofNat (padLength block data.length)) := by
  have hp := padLength_pos hb data.length
  rw [pad, List.getLast?_append, List.getLast?_replicate, if_neg (by omega), Option.some_or]

theorem unpad_pad (hb : 0 < block) (h : block < 256) (data : List UInt8) :
    unpad block (pad block data) = some data := by
  have hk : (UInt8.ofNat (padLength block data.length)).toNat = padLength block data.length := by
    rw [UInt8.toNat_ofNat']
    exact Nat.mod_eq_of_lt (lt_of_le_of_lt (padLength_le _) h)
  have hlen : (pad block data).length - padLength block data.length = data.length := by
    rw [pad, List.length_append, List.length_replicate]
    omega
  have hwell : WellPadded block (pad block data)
      (UInt8.ofNat (padLength block data.length)) := by
    refine ⟨?_, fun b hm => ?_⟩
    · rw [hk]
      exact ⟨padLength_pos hb _, padLength_le _⟩
    · rw [hk, List.rtake, hlen, pad, List.drop_left] at hm
      exact (List.mem_replicate.mp hm).2
  simp only [unpad, pad_getLast? hb]
  rw [if_pos ⟨dvd_pad_length hb data, hwell⟩, hk, List.rdrop, hlen, pad, List.take_left]

end Pkcs7Padding
