import HamsterAvro.Avro.Binary
import Mathlib.Algebra.Order.BigOperators.Group.List

/-!
# The size of what is written

The length of the writer's word of a value, from the lengths of its strings and lists alone, and the
bounds on a list and its elements that follow from a bound on it.
-/

namespace HamsterAvro.Avro
open HamsterAvro.Wire

/-- The bytes of a length-prefixed string. -/
def countedSize (length : Nat) : Nat := longSize length + length

/-- The bytes of an array whose elements take these numbers of bytes. -/
def arraySize (sizes : List Nat) : Nat :=
  if sizes = [] then 1 else longSize sizes.length + sizes.sum + 1

theorem arraySize_nil : arraySize [] = 1 := rfl

theorem length_writeLong_zero : (writeLong 0).length = 1 := by
  rw [writeLong_zero]
  rfl

theorem length_encode_string (data : Bytes) :
    (encode (.string data)).length = countedSize data.length := by
  unfold encode
  rw [List.length_append, countedSize, longSize]

theorem length_encode_bytes (data : Bytes) :
    (encode (.bytes data)).length = countedSize data.length := by
  unfold encode
  rw [List.length_append, countedSize, longSize]

theorem length_encode_boolean (b : Bool) : (encode (.boolean b)).length = 1 := rfl

theorem length_encode_int (n : Int32) : (encode (.int n)).length = longSize n.toInt := by
  rw [encode, longSize]

theorem length_encode_enum (k : Int32) : (encode (.enum k)).length = longSize k.toInt := by
  rw [encode, longSize]

theorem length_encode_record (fields : List (String × Value)) :
    (encode (.record fields)).length = (fields.map fun field => (encode field.2).length).sum := by
  rw [encode]
  induction fields with
  | nil => rfl
  | cons field fields ih =>
    rw [encode.encodeFields, List.length_append, ih, List.map_cons, List.sum_cons]

theorem length_encode_array (items : Schema) (xs : List Value) :
    (encode (.array items xs)).length = arraySize (xs.map fun x => (encode x).length) := by
  cases xs with
  | nil => rw [encode, List.isEmpty_nil, if_pos rfl, length_writeLong_zero]; rfl
  | cons x xs =>
    rw [encode, List.isEmpty_cons, if_neg (by decide), encodeElems_eq, arraySize,
      if_neg (by simp), List.length_append, List.length_append, List.length_flatMap,
      length_writeLong_zero, longSize, List.length_map]
    omega

/-! ### Bounds -/

theorem mem_le_arraySize {sizes : List Nat} {n : Nat} (h : n ∈ sizes) : n ≤ arraySize sizes := by
  have := List.single_le_sum (fun _ _ => Nat.zero_le _) n h
  unfold arraySize
  rw [if_neg (List.ne_nil_of_mem h)]
  omega

theorem arraySize_pos (sizes : List Nat) : 0 < arraySize sizes := by
  unfold arraySize
  split <;> omega

theorem length_le_arraySize (sizes : List Nat) (h : ∀ n ∈ sizes, 0 < n) :
    sizes.length ≤ arraySize sizes := by
  have := List.length_le_sum_of_one_le sizes h
  unfold arraySize
  by_cases hnil : sizes = []
  · simp [hnil]
  · rw [if_neg hnil]
    omega

/-- Smaller elements take fewer bytes. -/
theorem arraySize_map_le {α : Type} {f g : α → Nat} {xs : List α} (h : ∀ x ∈ xs, f x ≤ g x) :
    arraySize (xs.map f) ≤ arraySize (xs.map g) := by
  have hsum := List.sum_le_sum h
  simp only [arraySize, List.map_eq_nil_iff, List.length_map]
  split
  · exact le_refl 1
  · omega

theorem arraySize_map_lt {α : Type} {f g : α → Nat} {xs : List α} (h : ∀ x ∈ xs, f x ≤ g x)
    (hlt : ∃ x ∈ xs, f x < g x) : arraySize (xs.map f) < arraySize (xs.map g) := by
  have hsum := List.sum_lt_sum f g h hlt
  obtain ⟨x, hx, -⟩ := hlt
  simp only [arraySize, List.map_eq_nil_iff, List.length_map, if_neg (List.ne_nil_of_mem hx)]
  omega

theorem countedSize_mono {m n : Nat} (h : m ≤ n) : countedSize m ≤ countedSize n :=
  Nat.add_le_add (longSize_mono h) h

theorem countedSize_lt {m n : Nat} (h : m < n) : countedSize m < countedSize n :=
  Nat.add_lt_add_of_le_of_lt (longSize_mono h.le) h

theorem le_countedSize (n : Nat) : n ≤ countedSize n := Nat.le_add_left _ _

theorem countedSize_pos (n : Nat) : 0 < countedSize n := Nat.add_pos_left (longSize_pos n) n

end HamsterAvro.Avro
