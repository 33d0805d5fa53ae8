import Aitt.AittTypes
import Aitt.RangeLoops
import Mathlib.Algebra.Order.Ring.Int

/-! The conversion of a decoded video frame for the data callback of the Java subscriber. An I420
frame has three planes, each with a stride; the NV21 array holds the luma plane and after it the
chroma samples in pairs. -/
namespace JavaNv21

open AittTypes RangeLoops

/-- A Java `int`: sums and products wrap, and it does not matter where in an expression. -/
def int (n : ℤ) : ℤ := n.bmod (2 ^ 32)

/-- `VideoFrame.I420Buffer`; each plane is what remains in its `ByteBuffer`. -/
structure I420Buffer where
  width : ℕ
  height : ℕ
  strideY : ℕ
  strideU : ℕ
  strideV : ℕ
  dataY : Bytes
  dataU : Bytes
  dataV : Bytes
  deriving DecidableEq, Repr

/-- `new byte[n]`; `none` here and below is the exception. -/
def newArray (n : ℤ) : Option Bytes := if 0 ≤ n then some (List.replicate n.toNat 0) else none

def read (array : Bytes) (i : ℤ) : Option UInt8 := if 0 ≤ i then array[i.toNat]? else none

def write (array : Bytes) (i : ℤ) (value : UInt8) : Option Bytes :=
  if 0 ≤ i ∧ i < array.length then some (array.set i.toNat value) else none

def getInto (buffer array : Bytes) : Option Bytes :=
  if buffer.length ≤ array.length then some (buffer ++ array.drop buffer.length) else none

namespace I420Buffer

variable (b : I420Buffer)

def copyPair (ySize : ℤ) (y : ℕ) (nv21Data : Bytes) (x : ℕ) : Option Bytes := do
  let uValue ← read b.dataU (int (y * b.strideU + x))
  let vValue ← read b.dataV (int (y * b.strideV + x))
  let nv21Data ← write nv21Data (int (ySize + y * b.width + 2 * x)) vValue
  write nv21Data (int (ySize + y * b.width + 2 * x + 1)) uValue

def copyChroma (ySize chromaWidth chromaHeight : ℤ) (nv21Data : Bytes) : Option Bytes :=
  forLoop chromaHeight.toNat
    (fun nv21Data y => forLoop chromaWidth.toNat (b.copyPair ySize y) nv21Data) nv21Data

def createNV21Data : Option Bytes := do
  let chromaWidth := (int (b.width + 1)).tdiv 2
  let chromaHeight := (int (b.height + 1)).tdiv 2
  let ySize := int (b.width * b.height)
  let nv21Data ← newArray (int (ySize + b.width * chromaHeight))
  let nv21Data ← getInto b.dataY nv21Data
  b.copyChroma ySize chromaWidth chromaHeight nv21Data

def chromaWidth : ℕ := (b.width + 1) / 2

def chromaHeight : ℕ := (b.height + 1) / 2

def nv21Size : ℕ := b.width * b.height + b.width * b.chromaHeight

end I420Buffer

/-- A plane has its rows at multiples of the stride; the last one may be short. -/
structure Plane (data : Bytes) (stride columns rows : ℕ) : Prop where
  columns_le : columns ≤ stride
  rows_le : (rows - 1) * stride + columns ≤ data.length
  le_rows : data.length ≤ rows * stride
  int_length : data.length < 2 ^ 31

instance (data : Bytes) (stride columns rows : ℕ) : Decidable (Plane data stride columns rows) :=
  decidable_of_iff (columns ≤ stride ∧ (rows - 1) * stride + columns ≤ data.length ∧
      data.length ≤ rows * stride ∧ data.length < 2 ^ 31)
    ⟨fun ⟨h, i, j, k⟩ => ⟨h, i, j, k⟩, fun ⟨h, i, j, k⟩ => ⟨h, i, j, k⟩⟩

structure I420Buffer.WellFormed (b : I420Buffer) : Prop where
  width_pos : 0 < b.width
  height_pos : 0 < b.height
  planeY : Plane b.dataY b.strideY b.width b.height
  planeU : Plane b.dataU b.strideU b.chromaWidth b.chromaHeight
  planeV : Plane b.dataV b.strideV b.chromaWidth b.chromaHeight

/-- The samples of the frame at their places: luma row by row without padding, then one pair for
each chroma sample, `V` before `U`. -/
structure IsNV21 (b : I420Buffer) (nv21Data : Bytes) : Prop where
  luma : ∀ y < b.height, ∀ x < b.width,
    nv21Data[y * b.width + x]? = b.dataY[y * b.strideY + x]?
  chromaV : ∀ y < b.chromaHeight, ∀ x < b.chromaWidth,
    nv21Data[b.width * b.height + 2 * (y * b.chromaWidth + x)]? = b.dataV[y * b.strideV + x]?
  chromaU : ∀ y < b.chromaHeight, ∀ x < b.chromaWidth,
    nv21Data[b.width * b.height + 2 * (y * b.chromaWidth + x) + 1]? = b.dataU[y * b.strideU + x]?

def Converts (b : I420Buffer) : Prop :=
  ∃ nv21Data, b.createNV21Data = some nv21Data ∧ IsNV21 b nv21Data

section Arithmetic

theorem int_eq {n : ℤ} (hl : -2 ^ 31 ≤ n) (hu : n < 2 ^ 31) : int n = n := by
  apply Int.bmod_eq_of_le_mul_two <;> omega

theorem int_natCast {n : ℕ} (h : n < 2 ^ 31) : int n = n := int_eq (by omega) (by omega)

/-- Row-major positions are distinct. -/
theorem rowMajor_inj {c y x y' x' : ℕ} (hx : x < c) (hx' : x' < c)
    (h : y * c + x = y' * c + x') : y = y' ∧ x = x' := by
  have hc : 0 < c := by omega
  have hy : y = y' := by
    have hd := congrArg (· / c) h
    simpa [Nat.add_comm _ x, Nat.add_comm _ x', Nat.add_mul_div_right _ _ hc,
      Nat.div_eq_of_lt hx, Nat.div_eq_of_lt hx'] using hd
  subst hy
  exact ⟨rfl, by omega⟩

theorem rowMajor_lt {c n y x : ℕ} (hx : x < c) (hy : y < n) : y * c + x < n * c := by
  have hle : (y + 1) * c ≤ n * c := Nat.mul_le_mul_right c hy
  rw [Nat.add_mul, Nat.one_mul] at hle
  omega

end Arithmetic

section Arrays

variable {array array' : Bytes} {value : UInt8}

theorem read_natCast (array : Bytes) {i : ℕ} (h : i < 2 ^ 31) :
    read array (int i) = array[i]? := by
  rw [int_natCast h, read, if_pos (by omega), Int.toNat_natCast]

theorem write_natCast {i : ℕ} (h : i < 2 ^ 31) (hi : i < array.length) (value : UInt8) :
    write array (int i) value = some (array.set i value) := by
  rw [int_natCast h, write, if_pos (by omega), Int.toNat_natCast]

theorem write_end {i : ℕ} (hi : array.length ≤ i) (h : i < 2 ^ 31) (value : UInt8) :
    write array (int i) value = none := by
  rw [int_natCast h, write, if_neg (by omega)]

theorem length_write {i : ℤ} (h : write array i value = some array') :
    array'.length = array.length := by
  unfold write at h
  split at h
  · obtain rfl := Option.some.inj h
    exact List.length_set
  · cases h

theorem Plane.index_lt {data : Bytes} {stride columns rows y x : ℕ}
    (h : Plane data stride columns rows) (hy : y < rows) (hx : x < columns) :
    y * stride + x < data.length := by
  have hle : y * stride ≤ (rows - 1) * stride := Nat.mul_le_mul_right stride (by omega)
  have hrows := h.rows_le
  omega

theorem Plane.read {data : Bytes} {stride columns rows y x : ℕ}
    (h : Plane data stride columns rows) (hy : y < rows) (hx : x < columns) :
    ∃ value, data[y * stride + x]? = some value ∧
      read data (int (y * stride + x)) = some value := by
  have hlt := h.index_lt hy hx
  have hint := h.int_length
  refine ⟨data[y * stride + x], List.getElem?_eq_getElem hlt, ?_⟩
  have hr := read_natCast data (i := y * stride + x) (by omega)
  rw [List.getElem?_eq_getElem hlt] at hr
  exact_mod_cast hr

end Arrays

section Chroma

variable {b : I420Buffer}

/-- Where the code writes the pair of a chroma sample, when the pairs of a row fill the row. -/
def I420Buffer.position (b : I420Buffer) (y x : ℕ) : ℕ :=
  b.width * b.height + 2 * (y * b.chromaWidth + x)

theorem position_lt (he : b.width = 2 * b.chromaWidth) {y x : ℕ} (hy : y < b.chromaHeight)
    (hx : x < b.chromaWidth) : b.position y x + 1 < b.nv21Size := by
  have hlt := rowMajor_lt hx hy
  have hsize : b.width * b.chromaHeight = 2 * (b.chromaHeight * b.chromaWidth) := by
    rw [he, Nat.mul_assoc, Nat.mul_comm b.chromaHeight]
  unfold I420Buffer.position I420Buffer.nv21Size
  omega

theorem index_eq_position (he : b.width = 2 * b.chromaWidth) (y x : ℕ) :
    ((b.width * b.height : ℕ) : ℤ) + y * b.width + 2 * x = (b.position y x : ℕ) := by
  have hrow : y * b.width = 2 * (y * b.chromaWidth) :=
    calc y * b.width = y * (2 * b.chromaWidth) := by rw [← he]
      _ = 2 * (y * b.chromaWidth) := Nat.mul_left_comm _ _ _
  have hnat : b.width * b.height + y * b.width + 2 * x = b.position y x := by
    unfold I420Buffer.position
    omega
  exact_mod_cast hnat

theorem copyPair_bind (ySize : ℤ) (y : ℕ) (nv21Data : Bytes) (x : ℕ) :
    b.copyPair ySize y nv21Data x =
      (read b.dataU (int (y * b.strideU + x))).bind fun uValue =>
        (read b.dataV (int (y * b.strideV + x))).bind fun vValue =>
          (write nv21Data (int (ySize + y * b.width + 2 * x)) vValue).bind fun nv21Data =>
            write nv21Data (int (ySize + y * b.width + 2 * x + 1)) uValue := rfl

theorem copyPair_eq (hw : b.WellFormed) (he : b.width = 2 * b.chromaWidth)
    (hs : b.nv21Size < 2 ^ 31) {nv21Data : Bytes} (hl : nv21Data.length = b.nv21Size) {y x : ℕ}
    (hy : y < b.chromaHeight) (hx : x < b.chromaWidth) :
    ∃ u v, b.dataU[y * b.strideU + x]? = some u ∧ b.dataV[y * b.strideV + x]? = some v ∧
      b.copyPair ((b.width * b.height : ℕ) : ℤ) y nv21Data x =
        some ((nv21Data.set (b.position y x) v).set (b.position y x + 1) u) := by
  obtain ⟨u, hu, hru⟩ := hw.planeU.read hy hx
  obtain ⟨v, hv, hrv⟩ := hw.planeV.read hy hx
  have hpos := position_lt he hy hx
  have hv0 := index_eq_position he y x
  have hwv : write nv21Data (int (b.position y x : ℕ)) v =
      some (nv21Data.set (b.position y x) v) :=
    write_natCast (by omega) (by omega) v
  have hwu : write (nv21Data.set (b.position y x) v) (int (b.position y x + 1 : ℕ)) u =
      some ((nv21Data.set (b.position y x) v).set (b.position y x + 1) u) :=
    write_natCast (by omega) (by rw [List.length_set]; omega) u
  refine ⟨u, v, hu, hv, ?_⟩
  rw [Int.natCast_succ] at hwu
  rw [copyPair_bind, hru, Option.bind_some, hrv, Option.bind_some, hv0, hwv, Option.bind_some, hwu]

structure Copied (b : I420Buffer) (start : Bytes) (k : ℕ) (nv21Data : Bytes) : Prop where
  length : nv21Data.length = b.nv21Size
  luma : ∀ i < b.width * b.height, nv21Data[i]? = start[i]?
  chromaV : ∀ y x, x < b.chromaWidth → y * b.chromaWidth + x < k →
    nv21Data[b.position y x]? = b.dataV[y * b.strideV + x]?
  chromaU : ∀ y x, x < b.chromaWidth → y * b.chromaWidth + x < k →
    nv21Data[b.position y x + 1]? = b.dataU[y * b.strideU + x]?

theorem copied_step (hw : b.WellFormed) (he : b.width = 2 * b.chromaWidth)
    (hs : b.nv21Size < 2 ^ 31) {start nv21Data : Bytes} {y x : ℕ} (hy : y < b.chromaHeight)
    (hx : x < b.chromaWidth) (h : Copied b start (y * b.chromaWidth + x) nv21Data) :
    ∃ next, b.copyPair ((b.width * b.height : ℕ) : ℤ) y nv21Data x = some next ∧
      Copied b start (y * b.chromaWidth + x + 1) next := by
  obtain ⟨u, v, hu, hv, hpair⟩ := copyPair_eq hw he hs h.length hy hx
  have hpos := position_lt he hy hx
  have hlen := h.length
  refine ⟨_, hpair, ?_, ?_, ?_, ?_⟩
  · rw [List.length_set, List.length_set, hlen]
  · intro i hi
    rw [List.getElem?_set_ne, List.getElem?_set_ne, h.luma i hi]
    · unfold I420Buffer.position
      omega
    · unfold I420Buffer.position
      omega
  · intro y' x' hx' hk
    by_cases heq : y' * b.chromaWidth + x' = y * b.chromaWidth + x
    · obtain ⟨rfl, rfl⟩ := rowMajor_inj hx' hx heq
      rw [List.getElem?_set_ne (by omega), List.getElem?_set_self (by omega), hv]
    · have hp : b.position y' x' < b.position y x := by
        unfold I420Buffer.position
        omega
      rw [List.getElem?_set_ne (by omega), List.getElem?_set_ne (by omega),
        h.chromaV y' x' hx' (by omega)]
  · intro y' x' hx' hk
    by_cases heq : y' * b.chromaWidth + x' = y * b.chromaWidth + x
    · obtain ⟨rfl, rfl⟩ := rowMajor_inj hx' hx heq
      rw [List.getElem?_set_self (by rw [List.length_set]; omega), hu]
    · have hp : b.position y' x' + 1 < b.position y x := by
        unfold I420Buffer.position
        omega
      rw [List.getElem?_set_ne (by omega), List.getElem?_set_ne (by omega),
        h.chromaU y' x' hx' (by omega)]

theorem copyChroma_copied (hw : b.WellFormed) (he : b.width = 2 * b.chromaWidth)
    (hs : b.nv21Size < 2 ^ 31) {start : Bytes} (hl : start.length = b.nv21Size) :
    ∃ nv21Data, b.copyChroma ((b.width * b.height : ℕ) : ℤ) b.chromaWidth b.chromaHeight start =
        some nv21Data ∧ Copied b start (b.chromaHeight * b.chromaWidth) nv21Data := by
  -- the outer loop counts whole rows, the inner one the samples of its row
  refine forLoop_invariant (fun y => Copied b start (y * b.chromaWidth)) ?_ fun y hy c hc => ?_
  · exact ⟨hl, fun _ _ => rfl, fun _ _ _ hk => by omega, fun _ _ _ hk => by omega⟩
  · have hrow := forLoop_invariant (n := ((b.chromaWidth : ℕ) : ℤ).toNat)
      (fun x => Copied b start (y * b.chromaWidth + x)) hc fun x hx c hc =>
        copied_step hw he hs (by simpa using hy) (by simpa using hx) hc
    rw [Nat.add_mul, Nat.one_mul]
    simpa using hrow

theorem length_copyPair {ySize : ℤ} {y x : ℕ} {nv21Data next : Bytes}
    (h : b.copyPair ySize y nv21Data x = some next) : next.length = nv21Data.length := by
  rw [copyPair_bind] at h
  obtain ⟨u, hu, h⟩ := Option.bind_eq_some_iff.mp h
  obtain ⟨v, hv, h⟩ := Option.bind_eq_some_iff.mp h
  obtain ⟨middle, hm, h⟩ := Option.bind_eq_some_iff.mp h
  rw [length_write h, length_write hm]

/-- In a row of odd width the second byte of the last pair belongs to the next row; in the last
row it is behind the end. -/
theorem copyPair_last (ho : b.width + 1 = 2 * b.chromaWidth) (hs : b.nv21Size < 2 ^ 31)
    {nv21Data : Bytes} (hl : nv21Data.length = b.nv21Size) {y x : ℕ}
    (hy : y + 1 = b.chromaHeight) (hx : x + 1 = b.chromaWidth) :
    b.copyPair ((b.width * b.height : ℕ) : ℤ) y nv21Data x = none := by
  cases h : b.copyPair ((b.width * b.height : ℕ) : ℤ) y nv21Data x with
  | none => rfl
  | some next =>
    rw [copyPair_bind] at h
    obtain ⟨u, hu, h⟩ := Option.bind_eq_some_iff.mp h
    obtain ⟨v, hv, h⟩ := Option.bind_eq_some_iff.mp h
    obtain ⟨middle, hm, h⟩ := Option.bind_eq_some_iff.mp h
    have hnat : b.width * b.height + y * b.width + 2 * x + 1 = b.nv21Size := by
      rw [I420Buffer.nv21Size, ← hy, Nat.mul_add, Nat.mul_comm b.width y]
      omega
    have hindex : ((b.width * b.height : ℕ) : ℤ) + y * b.width + 2 * x + 1 =
        (b.nv21Size : ℕ) := by
      rw [← hnat]
      push_cast
      rfl
    rw [hindex, write_end (by rw [length_write hm, hl]) hs] at h
    cases h

theorem copyChroma_odd (hc : 0 < b.chromaHeight) (ho : b.width + 1 = 2 * b.chromaWidth)
    (hs : b.nv21Size < 2 ^ 31) {start : Bytes} (hl : start.length = b.nv21Size) :
    b.copyChroma ((b.width * b.height : ℕ) : ℤ) b.chromaWidth b.chromaHeight start = none := by
  obtain ⟨n, hn⟩ : ∃ n, b.chromaHeight = n + 1 := Nat.exists_eq_succ_of_ne_zero (by omega)
  obtain ⟨m, hm⟩ : ∃ m, b.chromaWidth = m + 1 := Nat.exists_eq_succ_of_ne_zero (by omega)
  rw [I420Buffer.copyChroma, Int.toNat_natCast, Int.toNat_natCast, hn, hm]
  have hpair : ∀ y : ℕ, ∀ x < m + 1, ∀ c d : Bytes, c.length = b.nv21Size →
      b.copyPair ((b.width * b.height : ℕ) : ℤ) y c x = some d → d.length = b.nv21Size :=
    fun y x _ c d hc hd => (length_copyPair hd).trans hc
  refine forLoop_last_fails (fun c : Bytes => c.length = b.nv21Size) hl ?_ ?_
  · intro y _ c d hc hd
    exact forLoop_preserves (fun c : Bytes => c.length = b.nv21Size) hc (hpair y) hd
  · intro c hc
    refine forLoop_last_fails (fun c : Bytes => c.length = b.nv21Size) hc ?_ fun c hc => ?_
    · exact fun x hx => hpair n x (by omega)
    · exact copyPair_last ho hs hc hn.symm hm.symm

end Chroma

section Frames

variable {b : I420Buffer}

theorem createNV21Data_bind (b : I420Buffer) : b.createNV21Data =
    (newArray (int (int (b.width * b.height) + b.width * (int (b.height + 1)).tdiv 2))).bind
      fun nv21Data => (getInto b.dataY nv21Data).bind
        (b.copyChroma (int (b.width * b.height)) ((int (b.width + 1)).tdiv 2)
          ((int (b.height + 1)).tdiv 2)) := rfl

theorem luma_le_length (hw : b.WellFormed) : b.width * b.height ≤ b.dataY.length := by
  have hpos := hw.height_pos
  have hstride : (b.height - 1) * b.width ≤ (b.height - 1) * b.strideY :=
    Nat.mul_le_mul_left _ hw.planeY.columns_le
  have hrows := hw.planeY.rows_le
  have hsplit : b.width * b.height = (b.height - 1) * b.width + b.width := by
    obtain ⟨n, hn⟩ := Nat.exists_eq_succ_of_ne_zero hpos.ne'
    rw [hn, Nat.succ_sub_one, Nat.mul_succ, Nat.mul_comm]
  omega

theorem luma_lt (hw : b.WellFormed) : b.width * b.height < 2 ^ 31 :=
  (luma_le_length hw).trans_lt hw.planeY.int_length

theorem int_luma (hw : b.WellFormed) :
    int (b.width * b.height) = ((b.width * b.height : ℕ) : ℤ) := by
  rw [← Int.natCast_mul, int_natCast (luma_lt hw)]

theorem width_le_luma (hw : b.WellFormed) : b.width ≤ b.width * b.height :=
  Nat.le_mul_of_pos_right _ hw.height_pos

theorem height_le_luma (hw : b.WellFormed) : b.height ≤ b.width * b.height :=
  Nat.le_mul_of_pos_left _ hw.width_pos

theorem int_succ_tdiv {n : ℕ} (h : n + 1 < 2 ^ 31) :
    (int (n + 1)).tdiv 2 = (((n + 1) / 2 : ℕ) : ℤ) := by
  rw [show (n : ℤ) + 1 = ((n + 1 : ℕ) : ℤ) from rfl, int_natCast h]
  rfl

theorem chromaHeight_pos (hw : b.WellFormed) : 0 < b.chromaHeight := by
  have hpos := hw.height_pos
  unfold I420Buffer.chromaHeight
  omega

theorem nv21Size_cast (b : I420Buffer) :
    ((b.width * b.height : ℕ) : ℤ) + b.width * (b.chromaHeight : ℕ) = (b.nv21Size : ℕ) := by
  rw [I420Buffer.nv21Size]
  push_cast
  rfl

/-- The array is as long as it should be unless its length wraps. -/
theorem createNV21Data_of_size (hw : b.WellFormed) (hs : b.nv21Size < 2 ^ 31) :
    b.createNV21Data = (getInto b.dataY (List.replicate b.nv21Size 0)).bind
      (b.copyChroma ((b.width * b.height : ℕ) : ℤ) b.chromaWidth b.chromaHeight) := by
  have hchroma : b.width ≤ b.width * b.chromaHeight :=
    Nat.le_mul_of_pos_right _ (chromaHeight_pos hw)
  have hsize : b.nv21Size = b.width * b.height + b.width * b.chromaHeight := rfl
  have hwidth := width_le_luma hw
  have hheight := height_le_luma hw
  have hpos := hw.width_pos
  have hnew : newArray (int (((b.width * b.height : ℕ) : ℤ) + b.width * (b.chromaHeight : ℕ))) =
      some (List.replicate b.nv21Size 0) := by
    rw [nv21Size_cast, int_natCast hs, newArray, if_pos (by omega), Int.toNat_natCast]
  rw [createNV21Data_bind, int_luma hw, int_succ_tdiv (by omega), int_succ_tdiv (by omega)]
  rw [show (b.height + 1) / 2 = b.chromaHeight from rfl, hnew, Option.bind_some]
  rfl

theorem length_newArray {n : ℤ} {array : Bytes} (h : newArray n = some array) :
    array.length = n.toNat := by
  unfold newArray at h
  split at h
  · obtain rfl := Option.some.inj h
    exact List.length_replicate
  · cases h

theorem int_wrapped {n : ℤ} (hl : 2 ^ 31 ≤ n) (hu : n < 2 ^ 32) : int n = n - 2 ^ 32 := by
  have hpow : ((2 ^ 32 : ℕ) : ℤ) = 2 ^ 32 := rfl
  have hmod : n % 2 ^ 32 = n := Int.emod_eq_of_lt (by omega) hu
  rw [int, Int.bmod_def, hpow, hmod, if_neg (by omega)]

/-- The one height whose successor wraps leaves an array that is too short for the luma plane. -/
theorem createNV21Data_of_height (hw : b.WellFormed) (hh : b.height + 1 = 2 ^ 31) :
    b.createNV21Data = none := by
  have hwidth : b.width = 1 := by
    have hpos := hw.width_pos
    have hlt := luma_lt hw
    by_contra hne
    have htwo : 2 * b.height ≤ b.width * b.height := Nat.mul_le_mul_right _ (by omega)
    omega
  have hrows : (int (b.height + 1)).tdiv 2 = -2 ^ 30 := by
    rw [show (b.height : ℤ) + 1 = 2 ^ 31 by omega, int_wrapped (by omega) (by omega)]
    rfl
  have hlen : int (int (b.width * b.height) + b.width * -2 ^ 30) = 2 ^ 30 - 1 := by
    rw [int_luma hw, hwidth, Nat.one_mul]
    exact (int_eq (by omega) (by omega)).trans (by omega)
  have hluma := luma_le_length hw
  rw [createNV21Data_bind, hrows, hlen]
  cases hn : newArray (2 ^ 30 - 1) with
  | none => rfl
  | some array =>
    have hl := length_newArray hn
    rw [hwidth] at hluma
    rw [Option.bind_some, getInto, if_neg (by omega)]
    rfl

/-- A length that wraps is negative. -/
theorem createNV21Data_of_overflow (hw : b.WellFormed) (hs : 2 ^ 31 ≤ b.nv21Size) :
    b.createNV21Data = none := by
  have hlt := luma_lt hw
  have hheight := height_le_luma hw
  by_cases hh : b.height + 1 = 2 ^ 31
  · exact createNV21Data_of_height hw hh
  · have hchroma : b.width * b.chromaHeight ≤ b.width * b.height := by
      apply Nat.mul_le_mul_left
      have hpos := hw.height_pos
      unfold I420Buffer.chromaHeight
      omega
    have hsize : b.nv21Size = b.width * b.height + b.width * b.chromaHeight := rfl
    rw [createNV21Data_bind, int_luma hw, int_succ_tdiv (n := b.height) (by omega)]
    rw [show (b.height + 1) / 2 = b.chromaHeight from rfl, nv21Size_cast,
      int_wrapped (by omega) (by omega), newArray, if_neg (by omega)]
    rfl

def InBounds (b : I420Buffer) : Prop :=
  b.width % 2 = 0 ∧ b.nv21Size < 2 ^ 31 ∧ b.dataY.length ≤ b.nv21Size

/-- The luma samples stand where a plane without padding has them. -/
def Packed (b : I420Buffer) : Prop := ∀ y < b.height, ∀ x < b.width,
  b.dataY[y * b.width + x]? = b.dataY[y * b.strideY + x]?

theorem createNV21Data_copied (hw : b.WellFormed) (hb : InBounds b) :
    ∃ nv21Data, b.createNV21Data = some nv21Data ∧
      Copied b b.dataY (b.chromaHeight * b.chromaWidth) nv21Data := by
  obtain ⟨heven, hs, hl⟩ := hb
  have he : b.width = 2 * b.chromaWidth := by
    unfold I420Buffer.chromaWidth
    omega
  have hget : getInto b.dataY (List.replicate b.nv21Size 0) =
      some (b.dataY ++ (List.replicate b.nv21Size 0).drop b.dataY.length) :=
    if_pos (by rw [List.length_replicate]; exact hl)
  have hlen : (b.dataY ++ (List.replicate b.nv21Size (0 : UInt8)).drop b.dataY.length).length =
      b.nv21Size := by
    rw [List.length_append, List.length_drop, List.length_replicate]
    omega
  obtain ⟨nv21Data, hn, hc⟩ := copyChroma_copied hw he hs hlen
  refine ⟨nv21Data, ?_, hc.length, fun i hi => ?_, hc.chromaV, hc.chromaU⟩
  · rw [createNV21Data_of_size hw hs, hget, Option.bind_some, hn]
  · rw [hc.luma i hi, List.getElem?_append_left (hi.trans_le (luma_le_length hw))]

theorem inBounds_of_some (hw : b.WellFormed) {nv21Data : Bytes}
    (h : b.createNV21Data = some nv21Data) : InBounds b := by
  have hs : b.nv21Size < 2 ^ 31 := by
    by_contra hs
    rw [createNV21Data_of_overflow hw (by omega)] at h
    cases h
  rw [createNV21Data_of_size hw hs] at h
  obtain ⟨start, hg, hc⟩ := Option.bind_eq_some_iff.mp h
  unfold getInto at hg
  split at hg
  · rename_i hl
    rw [List.length_replicate] at hl
    refine ⟨?_, hs, hl⟩
    by_contra hodd
    have ho : b.width + 1 = 2 * b.chromaWidth := by
      unfold I420Buffer.chromaWidth
      omega
    have hstart : start.length = b.nv21Size := by
      rw [← Option.some.inj hg, List.length_append, List.length_drop, List.length_replicate]
      omega
    rw [copyChroma_odd (chromaHeight_pos hw) ho hs hstart] at hc
    cases hc
  · cases hg

theorem converts_iff (hw : b.WellFormed) : Converts b ↔ InBounds b ∧ Packed b := by
  constructor
  · rintro ⟨nv21Data, hn, hi⟩
    have hb := inBounds_of_some hw hn
    obtain ⟨copied, hc, hcopy⟩ := createNV21Data_copied hw hb
    rw [hc] at hn
    obtain rfl := Option.some.inj hn
    refine ⟨hb, fun y hy x hx => ?_⟩
    rw [← hi.luma y hy x hx, hcopy.luma _ (Nat.mul_comm b.height _ ▸ rowMajor_lt hx hy)]
  · rintro ⟨hb, hp⟩
    obtain ⟨nv21Data, hn, hcopy⟩ := createNV21Data_copied hw hb
    refine ⟨nv21Data, hn, fun y hy x hx => ?_, fun y hy x hx => ?_, fun y hy x hx => ?_⟩
    · rw [hcopy.luma _ (Nat.mul_comm b.height _ ▸ rowMajor_lt hx hy), hp y hy x hx]
    · exact hcopy.chromaV y x hx (rowMajor_lt hx hy)
    · exact hcopy.chromaU y x hx (rowMajor_lt hx hy)

structure SameShape (b b' : I420Buffer) : Prop where
  width : b'.width = b.width
  height : b'.height = b.height
  strideY : b'.strideY = b.strideY
  strideU : b'.strideU = b.strideU
  strideV : b'.strideV = b.strideV
  dataY : b'.dataY.length = b.dataY.length
  dataU : b'.dataU.length = b.dataU.length
  dataV : b'.dataV.length = b.dataV.length

theorem Plane.congr_length {data data' : Bytes} {stride columns rows : ℕ}
    (h : Plane data stride columns rows) (hl : data'.length = data.length) :
    Plane data' stride columns rows := by
  obtain ⟨hc, hr, hu, hi⟩ := h
  rw [← hl] at hr hu hi
  exact ⟨hc, hr, hu, hi⟩

theorem SameShape.chromaWidth {b' : I420Buffer} (h : SameShape b b') :
    b'.chromaWidth = b.chromaWidth := by rw [I420Buffer.chromaWidth, h.width]; rfl

theorem SameShape.chromaHeight {b' : I420Buffer} (h : SameShape b b') :
    b'.chromaHeight = b.chromaHeight := by rw [I420Buffer.chromaHeight, h.height]; rfl

theorem SameShape.wellFormed {b' : I420Buffer} (h : SameShape b b') (hw : b.WellFormed) :
    b'.WellFormed := by
  constructor
  · rw [h.width]
    exact hw.width_pos
  · rw [h.height]
    exact hw.height_pos
  · rw [h.width, h.height, h.strideY]
    exact hw.planeY.congr_length h.dataY
  · rw [h.chromaWidth, h.chromaHeight, h.strideU]
    exact hw.planeU.congr_length h.dataU
  · rw [h.chromaWidth, h.chromaHeight, h.strideV]
    exact hw.planeV.congr_length h.dataV

theorem SameShape.inBounds {b' : I420Buffer} (h : SameShape b b') (hb : InBounds b) :
    InBounds b' := by
  unfold InBounds I420Buffer.nv21Size at hb ⊢
  rw [h.width, h.height, h.chromaHeight, h.dataY]
  exact hb

/-- With a padded second row some frame of the shape is not packed. -/
theorem exists_not_packed (hw : b.WellFormed) (hh : 2 ≤ b.height) (hy : b.width < b.strideY) :
    ∃ b', SameShape b b' ∧ ¬ Packed b' := by
  have hpos := hw.width_pos
  have hrow : b.strideY ≤ (b.height - 1) * b.strideY := Nat.le_mul_of_pos_left _ (by omega)
  have hlen := hw.planeY.rows_le
  refine ⟨{ b with dataY := (List.replicate b.dataY.length 0).set b.strideY 1 }, ?_, fun hp => ?_⟩
  · constructor <;> simp
  · have hsecond := hp 1 hh 0 hpos
    simp only [Nat.one_mul, Nat.add_zero] at hsecond
    rw [List.getElem?_set_ne (by omega), List.getElem?_set_self (by simp; omega),
      List.getElem?_replicate, if_pos (by omega)] at hsecond
    cases hsecond

/-- One frame is converted exactly if its width is even, the array can be made, the luma plane
fits in it and has its samples where an unpadded plane has them. All frames of a shape are exactly
if the width is even, the array can be made, and the rows are not padded or there is only one. -/
theorem nv21_conversion_iff (hw : b.WellFormed) :
    (Converts b ↔ InBounds b ∧ Packed b) ∧
    ((∀ b', SameShape b b' → Converts b') ↔
      b.width % 2 = 0 ∧ b.nv21Size < 2 ^ 31 ∧
        (b.strideY = b.width ∨ b.height = 1 ∧ b.dataY.length ≤ 2 * b.width)) := by
  refine ⟨converts_iff hw, fun hall => ?_, ?_⟩
  · have hself := hall b ⟨rfl, rfl, rfl, rfl, rfl, rfl, rfl, rfl⟩
    obtain ⟨heven, hs, hl⟩ := ((converts_iff hw).mp hself).1
    refine ⟨heven, hs, ?_⟩
    by_cases hy : b.strideY = b.width
    · exact .inl hy
    · have hlt : b.width < b.strideY :=
        Nat.lt_of_le_of_ne hw.planeY.columns_le (Ne.symm hy)
      have hone : b.height = 1 := by
        by_contra hne
        have hpos := hw.height_pos
        obtain ⟨b', hshape, hn⟩ := exists_not_packed hw (by omega) hlt
        exact hn ((converts_iff (hshape.wellFormed hw)).mp (hall b' hshape)).2
      refine .inr ⟨hone, ?_⟩
      rw [I420Buffer.nv21Size, I420Buffer.chromaHeight, hone] at hl
      omega
  · rintro ⟨heven, hs, hrows⟩ b' hshape
    rw [converts_iff (hshape.wellFormed hw)]
    have hl : b.dataY.length ≤ b.nv21Size := by
      have hle := hw.planeY.le_rows
      have hsize : b.nv21Size = b.width * b.height + b.width * b.chromaHeight := rfl
      rcases hrows with hy | ⟨hone, hlen⟩
      · rw [hy, Nat.mul_comm] at hle
        omega
      · rw [I420Buffer.nv21Size, I420Buffer.chromaHeight, hone]
        omega
    refine ⟨hshape.inBounds ⟨heven, hs, hl⟩, fun y hlt x _ => ?_⟩
    rw [hshape.width, hshape.strideY]
    rcases hrows with hy | ⟨hone, -⟩
    · rw [hy]
    · rw [hshape.height, hone] at hlt
      rw [Nat.lt_one_iff.mp hlt, Nat.zero_mul, Nat.zero_mul]

def square : I420Buffer := ⟨2, 2, 2, 1, 1, [1, 2, 3, 4], [5], [6]⟩

theorem square_wellFormed : square.WellFormed :=
  ⟨by decide, by decide, by decide, by decide, by decide⟩

theorem nv21_conversion_square : square.createNV21Data = some [1, 2, 3, 4, 6, 5] ∧
    ∀ b', SameShape square b' → Converts b' :=
  ⟨by decide, (nv21_conversion_iff square_wellFormed).2.mpr (by decide)⟩

/-- Three by two without padding, and two by two with two bytes between the rows. -/
theorem odd_or_padded_not_converted :
    (I420Buffer.WellFormed ⟨3, 2, 3, 2, 2, [1, 2, 3, 4, 5, 6], [7, 8], [9, 10]⟩ ∧
      I420Buffer.createNV21Data ⟨3, 2, 3, 2, 2, [1, 2, 3, 4, 5, 6], [7, 8], [9, 10]⟩ = none ∧
      ¬ Converts ⟨3, 2, 3, 2, 2, [1, 2, 3, 4, 5, 6], [7, 8], [9, 10]⟩) ∧
    (I420Buffer.WellFormed ⟨2, 2, 4, 1, 1, [1, 2, 0, 0, 3, 4], [5], [6]⟩ ∧
      I420Buffer.createNV21Data ⟨2, 2, 4, 1, 1, [1, 2, 0, 0, 3, 4], [5], [6]⟩ =
        some [1, 2, 0, 0, 6, 5] ∧
      ¬ Converts ⟨2, 2, 4, 1, 1, [1, 2, 0, 0, 3, 4], [5], [6]⟩) := by
  have hodd : I420Buffer.createNV21Data
      ⟨3, 2, 3, 2, 2, [1, 2, 3, 4, 5, 6], [7, 8], [9, 10]⟩ = none := by decide
  have hpadded : I420Buffer.createNV21Data ⟨2, 2, 4, 1, 1, [1, 2, 0, 0, 3, 4], [5], [6]⟩ =
      some [1, 2, 0, 0, 6, 5] := by decide
  refine ⟨⟨?_, hodd, ?_⟩, ?_, hpadded, ?_⟩
  · exact ⟨by decide, by decide, by decide, by decide, by decide⟩
  · rintro ⟨nv21Data, hn, -⟩
    rw [hodd] at hn
    cases hn
  · exact ⟨by decide, by decide, by decide, by decide, by decide⟩
  · rintro ⟨nv21Data, hn, hi⟩
    rw [hpadded] at hn
    obtain rfl := Option.some.inj hn
    exact absurd (hi.luma 1 (by decide) 0 (by decide)) (by decide)

end Frames

end JavaNv21
