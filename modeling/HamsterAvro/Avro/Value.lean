import HamsterAvro.Wire.Reader

/-!
# Avro schemas and generic values

The part of Avro the binary format below covers: null, boolean, int, string, bytes, enum, array and
record, nested at will. A generic value of a schema is a tree (`Shapes`); an array knows the schema of
its elements, since appending to it makes a default element. A `Ref` names a sub-value by the indices on
the way to it; `at?` looks it up and `setAt` replaces it.
-/

namespace HamsterAvro.Avro
open HamsterAvro.Wire

inductive Schema where
  | null
  | boolean
  | int
  | string
  | bytes
  | enum (symbols : List String)
  | array (items : Schema)
  | record (name : String) (fields : List (String × Schema))

inductive Value where
  | null
  | boolean (b : Bool)
  | int (n : Int32)
  | string (data : Bytes)
  | bytes (data : Bytes)
  | enum (ordinal : Int32)
  | array (items : Schema) (elems : List Value)
  | record (fields : List (String × Value))

/-- The value a new instance of the schema holds. -/
def Schema.default : Schema → Value
  | .null => .null
  | .boolean => .boolean false
  | .int => .int 0
  | .string => .string []
  | .bytes => .bytes []
  | .enum _ => .enum 0
  | .array items => .array items []
  | .record _ fields => .record (defaultFields fields)
where
  defaultFields : List (String × Schema) → List (String × Value)
    | [] => []
    | (name, schema) :: rest => (name, schema.default) :: defaultFields rest

/-- A bound below on the bytes of any word of the schema. -/
def Schema.minSize : Schema → Nat
  | .null => 0
  | .boolean | .int | .string | .bytes | .enum _ | .array _ => 1
  | .record _ fields => minSizeFields fields
where
  minSizeFields : List (String × Schema) → Nat
    | [] => 0
    | (_, schema) :: rest => schema.minSize + minSizeFields rest

/-- The value is a tree of the schema, whatever its lengths and ordinals. -/
def Schema.Shapes : Schema → Value → Prop
  | .null => fun v => v = .null
  | .boolean => fun v => ∃ b, v = .boolean b
  | .int => fun v => ∃ n, v = .int n
  | .string => fun v => ∃ data, v = .string data
  | .bytes => fun v => ∃ data, v = .bytes data
  | .enum _ => fun v => ∃ k, v = .enum k
  | .array items => fun v => ∃ xs, v = .array items xs ∧ ∀ x ∈ xs, items.Shapes x
  | .record _ fields => fun v => ∃ vs, v = .record vs ∧ ShapesFields fields vs
where
  ShapesFields : List (String × Schema) → List (String × Value) → Prop
    | [] => fun vs => vs = []
    | (name, schema) :: rest => fun vs => ∃ v vs',
        vs = (name, v) :: vs' ∧ schema.Shapes v ∧ ShapesFields rest vs'

/-- A byte for each boolean, number, length and end of an array. -/
def Value.minBytes : Value → Nat
  | .null => 0
  | .boolean _ | .int _ | .string _ | .bytes _ | .enum _ => 1
  | .array _ elems => minBytesElems elems + 1
  | .record fields => minBytesFields fields
where
  minBytesElems : List Value → Nat
    | [] => 0
    | v :: rest => v.minBytes + minBytesElems rest
  minBytesFields : List (String × Value) → Nat
    | [] => 0
    | (_, v) :: rest => v.minBytes + minBytesFields rest

mutual

theorem Schema.Shapes.minSize_le : ∀ {s : Schema} {v : Value}, s.Shapes v → s.minSize ≤ v.minBytes
  | .null, _, _ => Nat.zero_le _
  | .boolean, _, ⟨_, h⟩ | .int, _, ⟨_, h⟩ | .string, _, ⟨_, h⟩ | .bytes, _, ⟨_, h⟩
  | .enum _, _, ⟨_, h⟩ => by
    rw [h]
    exact Nat.le_refl 1
  | .array _, _, ⟨_, h, _⟩ => by
    rw [h]
    exact Nat.le_add_left _ _
  | .record _ _, _, ⟨_, h, hfields⟩ => by
    rw [h]
    exact Schema.Shapes.minSizeFields_le hfields

theorem Schema.Shapes.minSizeFields_le : ∀ {fields : List (String × Schema)}
    {vs : List (String × Value)}, Schema.Shapes.ShapesFields fields vs →
    Schema.minSize.minSizeFields fields ≤ Value.minBytes.minBytesFields vs
  | [], _, _ => Nat.zero_le _
  | (_, _) :: _, _, ⟨_, _, h, hv, hrest⟩ => by
    have := Schema.Shapes.minSize_le hv
    have := Schema.Shapes.minSizeFields_le hrest
    rw [h, Schema.minSize.minSizeFields, Value.minBytes.minBytesFields]
    omega

end

/-- A bound on each element bounds them all. -/
theorem Value.mul_length_le {k : Nat} {vs : List Value} (h : ∀ v ∈ vs, k ≤ v.minBytes) :
    k * vs.length ≤ Value.minBytes.minBytesElems vs := by
  induction vs with
  | nil => simp
  | cons v vs ih =>
    have := h v (by simp)
    have := ih fun u hu => h u (by simp [hu])
    rw [List.length_cons, Value.minBytes.minBytesElems, Nat.mul_succ]
    omega

/-! ### Sub-values -/

abbrev Ref := List Nat

namespace Value

def at? : Value → Ref → Option Value
  | v, [] => some v
  | .array _ elems, i :: r => elems[i]?.bind fun e => e.at? r
  | .record fields, i :: r => fields[i]?.bind fun field => field.2.at? r
  | _, _ :: _ => none
termination_by structural _ r => r

/-- The value with the sub-value at a reference replaced by `x`. -/
def setAt (x : Value) : Value → Ref → Value
  | _, [] => x
  | .array items elems, i :: r => .array items (elems.modify i fun e => setAt x e r)
  | .record fields, i :: r => .record (fields.modify i fun field => (field.1, setAt x field.2 r))
  | v, _ :: _ => v
termination_by structural _ r => r

@[simp] theorem at?_nil (v : Value) : v.at? [] = some v := by
  cases v <;> rfl

@[simp] theorem at?_array (items : Schema) (elems : List Value) (i : Nat) (r : Ref) :
    (array items elems).at? (i :: r) = elems[i]?.bind fun e => e.at? r := rfl

@[simp] theorem at?_record (fields : List (String × Value)) (i : Nat) (r : Ref) :
    (record fields).at? (i :: r) = fields[i]?.bind fun field => field.2.at? r := rfl

@[simp] theorem setAt_nil (x v : Value) : setAt x v [] = x := by
  cases v <;> rfl

@[simp] theorem setAt_record (x : Value) (fields : List (String × Value)) (i : Nat) (r : Ref) :
    setAt x (record fields) (i :: r) =
      record (fields.modify i fun field => (field.1, setAt x field.2 r)) := rfl

/-- The element last appended to an array. -/
@[simp] theorem at?_array_last (items : Schema) (elems : List Value) (e : Value) (r : Ref) :
    (array items (elems ++ [e])).at? (elems.length :: r) = e.at? r := by
  simp

theorem modify_append_cons {α : Type} (xs : List α) (x : α) (ys : List α) (f : α → α) :
    (xs ++ x :: ys).modify xs.length f = xs ++ f x :: ys := by
  induction xs with
  | nil => rfl
  | cons y xs ih =>
    rw [List.cons_append, List.length_cons, List.modify_succ_cons, ih, List.cons_append]

@[simp] theorem setAt_array_last (x : Value) (items : Schema) (elems : List Value) (e : Value)
    (r : Ref) :
    setAt x (array items (elems ++ [e])) (elems.length :: r) = array items (elems ++ [setAt x e r]) := by
  show array items ((elems ++ [e]).modify elems.length fun e => setAt x e r) = _
  rw [modify_append_cons]

end Value

end HamsterAvro.Avro
