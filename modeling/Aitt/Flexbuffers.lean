import Aitt.AittTypes
import Mathlib.Data.List.Sort

/-! The part of flexbuffers that the modules use. The package itself is a parameter: a builder
that ends a map, and readers of which only is known what its documentation says. -/
namespace Flexbuffers

open AittTypes

/-- Strings of text and strings of octets are kept apart; both answer `IsString`. -/
inductive Item where
  | null
  | bool (b : Bool)
  | uint (n : ℕ)
  | int (n : Int64)
  | string (s : String)
  | octets (b : Bytes)
  | blob (b : Bytes)
  deriving DecidableEq, Repr

inductive Value where
  | item (i : Item)
  | vector (items : List Item)
  deriving DecidableEq, Repr

/-- `EndMap` puts the pairs in the order of their keys. A key is found when no other pair has it
too, a missing one gives a null reference, and so does an index past the end of a vector. A
number is read with the bits that fit; nothing is known of other conversions. -/
class Package where
  finish : {α : Type} → List (String × α) → List (String × α)
  lookup : List (String × Item) → String → Item
  index : List Item → ℕ → Item
  asUInt16 : Item → UInt16
  asInt64 : Item → Int64
  asInt32 : Item → Int32
  asBlob : Item → Bytes
  finish_perm : ∀ {α : Type} (pairs : List (String × α)), (finish pairs).Perm pairs
  lookup_of_mem : ∀ {map : List (String × Item)} {key : String} {item : Item},
    (map.map (·.1)).Nodup → (key, item) ∈ map → lookup map key = item
  lookup_of_not_mem : ∀ {map : List (String × Item)} {key : String},
    key ∉ map.map (·.1) → lookup map key = .null
  index_eq : ∀ (items : List Item) (i : ℕ), index items i = items[i]?.getD .null
  asUInt16_uint : ∀ n, asUInt16 (.uint n) = UInt16.ofNat n
  asInt64_int : ∀ n, asInt64 (.int n) = n
  asInt32_int : ∀ n, asInt32 (.int n) = n.toInt32
  asBlob_blob : ∀ b, asBlob (.blob b) = b

export Package (finish lookup index asUInt16 asInt64 asInt32 asBlob finish_perm lookup_of_mem
  lookup_of_not_mem index_eq asUInt16_uint asInt64_int asInt32_int asBlob_blob)

def valueOf (pairs : List (String × Item)) (key : String) : Item :=
  ((pairs.find? (·.1 = key)).map (·.2)).getD .null

theorem find_key {pairs : List (String × Item)} (h : (pairs.map (·.1)).Nodup) {key : String}
    {p : String × Item} : pairs.find? (·.1 = key) = some p ↔ p ∈ pairs ∧ p.1 = key := by
  constructor
  · intro hf
    exact ⟨List.mem_of_find?_eq_some hf, by simpa using List.find?_some hf⟩
  · rintro ⟨hp, hk⟩
    obtain ⟨q, hq⟩ := Option.isSome_iff_exists.mp
      (List.find?_isSome.mpr ⟨p, hp, by simpa using hk⟩ : (pairs.find? (·.1 = key)).isSome)
    have hqk : q.1 = key := by simpa using List.find?_some hq
    have heq : q = p :=
      List.inj_on_of_nodup_map h (List.mem_of_find?_eq_some hq) hp (hqk.trans hk.symm)
    rw [hq, heq]

theorem valueOf_of_mem {pairs : List (String × Item)} (h : (pairs.map (·.1)).Nodup)
    {key : String} {item : Item} (hm : (key, item) ∈ pairs) : valueOf pairs key = item := by
  rw [valueOf, (find_key h).mpr ⟨hm, rfl⟩]
  rfl

theorem valueOf_of_not_mem {pairs : List (String × Item)} {key : String}
    (h : key ∉ pairs.map (·.1)) : valueOf pairs key = .null := by
  rw [valueOf, List.find?_eq_none.mpr fun p hp he => h (List.mem_map.mpr ⟨p, hp, by simpa using he⟩)]
  rfl

variable [Package]

/-- A reader of the finished map gets what was written under the key. -/
theorem lookup_finish {pairs : List (String × Item)} (h : (pairs.map (·.1)).Nodup)
    (key : String) : lookup (finish pairs) key = valueOf pairs key := by
  have hp := finish_perm pairs
  have hn : ((finish pairs).map (·.1)).Nodup := (hp.map _).nodup_iff.mpr h
  by_cases hk : key ∈ pairs.map (·.1)
  · obtain ⟨⟨_, item⟩, hm, rfl⟩ := List.mem_map.mp hk
    rw [lookup_of_mem hn (hp.mem_iff.mpr hm), valueOf_of_mem h hm]
  · have hk' : key ∉ (finish pairs).map (·.1) := fun hm => hk ((hp.map _).mem_iff.mp hm)
    rw [lookup_of_not_mem hk', valueOf_of_not_mem hk]

theorem length_finish {α : Type} (pairs : List (String × α)) :
    (finish pairs).length = pairs.length := (finish_perm pairs).length_eq

omit [Package] in
@[reducible] def plain : Package where
  finish pairs := pairs.insertionSort fun a b => a.1 ≤ b.1
  lookup := valueOf
  index items i := items[i]?.getD .null
  asUInt16
    | .uint n => UInt16.ofNat n
    | .bool b => if b then 1 else 0
    | _ => 0
  asInt64
    | .int n => n
    | .uint n => Int64.ofNat n
    | _ => 0
  asInt32
    | .int n => n.toInt32
    | .uint n => Int32.ofNat n
    | _ => 0
  asBlob
    | .blob b => b
    | .string s => s.toUTF8.toList
    | .octets b => b
    | _ => []
  finish_perm _ := List.perm_insertionSort _ _
  lookup_of_mem h hm := valueOf_of_mem h hm
  lookup_of_not_mem h := valueOf_of_not_mem h
  index_eq _ _ := rfl
  asUInt16_uint _ := rfl
  asInt64_int _ := rfl
  asInt32_int _ := rfl
  asBlob_blob _ := rfl

end Flexbuffers
