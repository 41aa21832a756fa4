import HamsterAvro.Avro.Size

/-!
# The writer's word is the shortest

A value may have many encodings: numbers padded with zero groups, arrays in many blocks, blocks with a
byte size. None of them is shorter than the writer's (`Encodes.length_encode_le`).
-/

namespace HamsterAvro.Avro
open HamsterAvro.Wire

/-! ### Sizes of lists -/

theorem arraySize_of_ne_nil {sizes : List Nat} (h : sizes ≠ []) :
    arraySize sizes = longSize sizes.length + sizes.sum + 1 :=
  if_neg h

/-- One block is no longer than two. -/
theorem arraySize_append_le (xs ys : List Nat) (hne : xs ≠ []) :
    arraySize (xs ++ ys) ≤ longSize xs.length + xs.sum + arraySize ys := by
  rw [arraySize_of_ne_nil (by simp [hne]), List.sum_append, List.length_append]
  by_cases hys : ys = []
  · rw [hys, arraySize_nil, List.length_nil, List.sum_nil, Nat.add_zero, Nat.add_zero]
    exact le_refl _
  · have hcount := longSize_add_le (List.length_pos_iff.mpr hne) (List.length_pos_iff.mpr hys)
    rw [arraySize_of_ne_nil hys]
    omega

section lists
variable {α : Type} {R : α → Bytes → Prop} {size : α → Nat}

theorem sum_le_of_items (hR : ∀ x w, R x w → size x ≤ w.length) {xs : List α} {word : Bytes}
    (h : Items R xs word) : (xs.map size).sum ≤ word.length := by
  induction h with
  | nil => exact Nat.zero_le _
  | cons hx _ ih =>
    have := hR _ _ hx
    rw [List.map_cons, List.sum_cons, List.length_append]
    omega

/-- However a list is split into blocks. -/
theorem arraySize_le_of_blocks {c : Checks} (hR : ∀ x w, R x w → size x ≤ w.length) {k : Nat}
    {xs : List α} {word : Bytes} (h : Blocks c R k xs word) : arraySize (xs.map size) ≤ word.length := by
  induction h with
  | done hzero => exact hzero.length_pos
  | @plain _ xs ys _ _ _ hne hcount hitems _ ih =>
    have hblock := arraySize_append_le (xs.map size) (ys.map size) (by simpa using hne)
    have hsum := sum_le_of_items hR hitems
    have hsize := hcount.longSize_le
    rw [List.map_append]
    refine hblock.trans ?_
    rw [List.length_map, List.length_append, List.length_append]
    omega
  | @sized _ xs ys _ _ _ _ _ hne hcount hsize _ hitems _ ih =>
    have hblock := arraySize_append_le (xs.map size) (ys.map size) (by simpa using hne)
    have hsum := sum_le_of_items hR hitems
    -- the byte size makes up for the count, which may be a byte shorter than the positive one
    have hcount' := (longSize_le_neg (List.length_pos_iff.mpr hne)).trans
      (Nat.succ_le_succ hcount.longSize_le)
    have hsize' := hsize.length_pos
    rw [List.map_append]
    refine hblock.trans ?_
    rw [List.length_map, List.length_append, List.length_append, List.length_append]
    omega

end lists

/-! ### The length of an encoding -/

mutual

/-- No encoding of a value is shorter than the one that is written. -/
theorem Encodes.length_encode_le {c : Checks} : ∀ {s : Schema} {v : Value} {word : Bytes},
    Encodes c s v word → (encode v).length ≤ word.length
  | .null, _, _, ⟨hv, _⟩ => by rw [hv]; exact Nat.zero_le _
  | .boolean, _, _, ⟨b, hv, hword⟩ => by rw [hv, hword, encode]
  | .int, _, _, ⟨n, hv, hword⟩ => by rw [hv, length_encode_int]; exact hword.longSize_le
  | .string, _, _, ⟨data, hv, _, hcount, hword⟩ => by
    rw [hv, hword, length_encode_string, countedSize, List.length_append]
    exact Nat.add_le_add_right hcount.longSize_le _
  | .bytes, _, _, ⟨data, hv, _, hcount, hword⟩ => by
    rw [hv, hword, length_encode_bytes, countedSize, List.length_append]
    exact Nat.add_le_add_right hcount.longSize_le _
  | .enum _, _, _, ⟨k, hv, hword, _⟩ => by rw [hv, length_encode_enum]; exact hword.longSize_le
  | .array items, _, _, ⟨xs, k, hv, h⟩ => by
    rw [hv, length_encode_array]
    exact arraySize_le_of_blocks (R := Encodes c items) (fun x w hx => Encodes.length_encode_le hx) h
  | .record _ _, _, _, ⟨vs, hv, h⟩ => by rw [hv]; exact Encodes.length_encodeFields_le h

theorem Encodes.length_encodeFields_le {c : Checks} : ∀ {fields : List (String × Schema)}
    {vs : List (String × Value)} {word : Bytes},
    Encodes.EncodesFields c fields vs word → (encode.encodeFields vs).length ≤ word.length
  | [], _, _, ⟨hvs, _⟩ => by rw [hvs]; exact Nat.zero_le _
  | (_, _) :: _, _, _, ⟨_, _, _, _, hvs, hword, hv, hrest⟩ => by
    have := Encodes.length_encode_le hv
    have := Encodes.length_encodeFields_le hrest
    rw [hvs, hword, encode.encodeFields, List.length_append, List.length_append]
    omega

end

end HamsterAvro.Avro
