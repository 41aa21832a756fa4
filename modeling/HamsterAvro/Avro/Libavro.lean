import HamsterAvro.Avro.Binary
import HamsterAvro.C.Memory

/-!
# The libavro calls

libavro is a parameter: `Libavro` has the calls as functions on a record (a tree) and references into
it, `none` standing for a nonzero return code. What is relied on is stated apart: `Accessors`, the
getters and setters as `avro/value.h` documents them; `WritesFormat`, the memory writer and the encoding
of a value; and of the reader, `ReadsFormat`, that every encoding is read, `RejectsMalformed`, that nothing
else is, and `ReadsSized`, that what is read takes its bytes, whatever else is accepted. `Libavro.generic`
is a library that has all of it.

The second part is the calls with the return code dropped: a failed call leaves its out-parameter as it
was. A `Handle` is a local `avro_value_t`, `none` before its first assignment.
-/

namespace HamsterAvro.Avro
open HamsterAvro.Wire HamsterAvro.C

structure Libavro where
  genericValueNew : Schema → Value
  getByName : Value → Ref → String → Option Ref
  getByIndex : Value → Ref → Nat → Option Ref
  getSize : Value → Ref → Option Nat
  getBoolean : Value → Ref → Option Bool
  getInt : Value → Ref → Option Int32
  getEnum : Value → Ref → Option Int32
  /-- The buffer handed out, and the size. -/
  getString : Value → Ref → Option (Block × Nat)
  getBytes : Value → Ref → Option (Block × Nat)
  setBoolean : Value → Ref → Bool → Option Value
  setInt : Value → Ref → Int32 → Option Value
  setEnum : Value → Ref → Int32 → Option Value
  setString : Value → Ref → CString → Option Value
  setBytes : Value → Ref → Bytes → Option Value
  /-- The new value and a reference to the element appended. -/
  append : Value → Ref → Option (Value × Ref)
  /-- The value read and what the reader has left. -/
  valueRead : Schema → Bytes → Option (Value × Bytes)
  /-- The bytes in the buffer of a memory writer with this capacity. -/
  valueWrite : (capacity : Nat) → Value → Option { bs : Bytes // bs.length ≤ capacity }

namespace Libavro
variable (lib : Libavro)

/-! ### What is relied on -/

/-- The value interface: a getter finds what the value holds, a setter replaces it, and `append` adds a
default element at the end. -/
structure Accessors : Prop where
  genericValueNew : ∀ s, lib.genericValueNew s = s.default
  getByName : ∀ v r fields name i, v.at? r = some (.record fields) →
    fields.findIdx? (fun field => field.1 == name) = some i → lib.getByName v r name = some (r ++ [i])
  getByIndex : ∀ v r items xs i, v.at? r = some (.array items xs) → i < xs.length →
    lib.getByIndex v r i = some (r ++ [i])
  getSize_array : ∀ v r items xs, v.at? r = some (.array items xs) → lib.getSize v r = some xs.length
  /-- The size of a record is the number of its fields. -/
  getSize_record : ∀ v r fields, v.at? r = some (.record fields) → lib.getSize v r = some fields.length
  getBoolean : ∀ v r b, v.at? r = some (.boolean b) → lib.getBoolean v r = some b
  getInt : ∀ v r n, v.at? r = some (.int n) → lib.getInt v r = some n
  getEnum : ∀ v r k, v.at? r = some (.enum k) → lib.getEnum v r = some k
  /-- The string is handed out with a terminator, which the size includes. -/
  getString : ∀ v r data, v.at? r = some (.string data) →
    ∃ addr, addr ≠ 0 ∧ lib.getString v r = some (⟨addr, data ++ [0]⟩, data.length + 1)
  getBytes : ∀ v r data, v.at? r = some (.bytes data) →
    ∃ addr, lib.getBytes v r = some (⟨addr, data⟩, data.length)
  setBoolean : ∀ v r b b', v.at? r = some (.boolean b) →
    lib.setBoolean v r b' = some (Value.setAt (.boolean b') v r)
  setInt : ∀ v r n n', v.at? r = some (.int n) → lib.setInt v r n' = some (Value.setAt (.int n') v r)
  setEnum : ∀ v r k k', v.at? r = some (.enum k) → lib.setEnum v r k' = some (Value.setAt (.enum k') v r)
  setString : ∀ v r data (str : CString), v.at? r = some (.string data) →
    lib.setString v r str = some (Value.setAt (.string str.bytes) v r)
  setBytes : ∀ v r data data', v.at? r = some (.bytes data) →
    lib.setBytes v r data' = some (Value.setAt (.bytes data') v r)
  append : ∀ v r items xs, v.at? r = some (.array items xs) →
    lib.append v r = some (Value.setAt (.array items (xs ++ [items.default])) v r, r ++ [xs.length])

end Libavro

/-- Writes into a memory writer, one after the other. A write is rejected when fewer bytes remain than
it has, and the first rejection ends the whole. -/
def writeParts (capacity : Nat) : List Bytes → Bytes → Option Bytes
  | [], written => some written
  | part :: rest, written =>
    if capacity - written.length < part.length then none
    else writeParts capacity rest (written ++ part)

/-- However the bytes are split into writes, an overrun is seen, and an exact fit is none. -/
theorem writeParts_eq {capacity : Nat} (parts : List Bytes) {written : Bytes}
    (h : written.length ≤ capacity) :
    writeParts capacity parts written =
      if written.length + parts.flatten.length ≤ capacity then some (written ++ parts.flatten)
      else none := by
  induction parts generalizing written with
  | nil => rw [writeParts, List.flatten_nil, List.append_nil, if_pos (by simpa using h)]
  | cons part rest ih =>
    unfold writeParts
    rw [List.flatten_cons, List.length_append]
    by_cases hpart : capacity - written.length < part.length
    · rw [if_pos hpart, if_neg (by omega)]
    · rw [if_neg hpart, ih (by rw [List.length_append]; omega), List.length_append, List.append_assoc,
        Nat.add_assoc]

namespace Libavro
variable (lib : Libavro)

/-- A value is written as its encoding, in some sequence of writes. -/
structure WritesFormat : Prop where
  valueWrite : ∀ capacity v, ∃ parts, parts.flatten = encode v ∧
    (lib.valueWrite capacity v).map Subtype.val = writeParts capacity parts []

/-- An encoding is read as its value; what follows it is not looked at. -/
structure ReadsFormat : Prop where
  complete : ∀ {s v word}, Encodes .none s v word → ∀ rest,
    lib.valueRead s (word ++ rest) = some (v, rest)

/-- Nothing else is read: no boolean but `0` and `1`, no number that is not an `int`. -/
structure RejectsMalformed : Prop where
  sound : ∀ {s input v rest}, lib.valueRead s input = some (v, rest) →
    ∃ word, input = word ++ rest ∧ Encodes .none s v word

/-- The reader takes the encodings and nothing else. -/
structure ReadsExactly : Prop extends lib.ReadsFormat, lib.RejectsMalformed

/-- What is read is a value of the schema, which took a byte for each boolean, number, length and end of an
array; it need not have been well formed. -/
structure ReadsSized : Prop where
  shapes : ∀ {s input v rest}, lib.valueRead s input = some (v, rest) → s.Shapes v
  minBytes_le : ∀ {s input v rest}, lib.valueRead s input = some (v, rest) →
    v.minBytes + rest.length ≤ input.length

variable {lib}

theorem WritesFormat.fits (h : lib.WritesFormat) {capacity : Nat} {v : Value}
    (hv : (encode v).length ≤ capacity) : lib.valueWrite capacity v = some ⟨encode v, hv⟩ := by
  obtain ⟨parts, hparts, hwrite⟩ := h.valueWrite capacity v
  rw [writeParts_eq parts (Nat.zero_le _), hparts, List.length_nil, Nat.zero_add, if_pos hv] at hwrite
  obtain ⟨out, hout, hbytes⟩ := Option.map_eq_some_iff.mp hwrite
  rw [hout]
  exact congrArg some (Subtype.ext hbytes)

theorem WritesFormat.overruns (h : lib.WritesFormat) {capacity : Nat} {v : Value}
    (hv : capacity < (encode v).length) : lib.valueWrite capacity v = none := by
  obtain ⟨parts, hparts, hwrite⟩ := h.valueWrite capacity v
  rw [writeParts_eq parts (Nat.zero_le _), hparts, List.length_nil, Nat.zero_add,
    if_neg (by omega)] at hwrite
  exact Option.map_eq_none_iff.mp hwrite

theorem ReadsExactly.reads (h : lib.ReadsExactly) (s : Schema) :
    Reads (lib.valueRead s) (Encodes .none s) := by
  intro input v rest
  constructor
  · exact h.sound
  · rintro ⟨word, rfl, hword⟩
    exact h.complete hword rest

/-- There is only one such reader. -/
theorem ReadsExactly.valueRead (h : lib.ReadsExactly) (s : Schema) (input : Bytes) :
    lib.valueRead s input = (decode s).run input :=
  (h.reads s).run_eq (decode_reads s) input

theorem RejectsMalformed.readsSized (h : lib.RejectsMalformed) : lib.ReadsSized where
  shapes hread := by
    obtain ⟨_, -, hword⟩ := h.sound hread
    exact hword.shapes
  minBytes_le hread := by
    obtain ⟨word, rfl, hword⟩ := h.sound hread
    have := hword.minBytes_le
    rw [List.length_append]
    omega

/-! ### A library that has all of it -/

def generic : Libavro where
  genericValueNew := Schema.default
  getByName v r name := match v.at? r with
    | some (.record fields) => (fields.findIdx? fun field => field.1 == name).map fun i => r ++ [i]
    | _ => none
  getByIndex v r i := match v.at? r with
    | some (.array _ xs) => if i < xs.length then some (r ++ [i]) else none
    | some (.record fields) => if i < fields.length then some (r ++ [i]) else none
    | _ => none
  getSize v r := match v.at? r with
    | some (.array _ xs) => some xs.length
    | some (.record fields) => some fields.length
    | _ => none
  getBoolean v r := match v.at? r with
    | some (.boolean b) => some b
    | _ => none
  getInt v r := match v.at? r with
    | some (.int n) => some n
    | _ => none
  getEnum v r := match v.at? r with
    | some (.enum k) => some k
    | _ => none
  getString v r := match v.at? r with
    | some (.string data) => some (⟨0x1000, data ++ [0]⟩, data.length + 1)
    | _ => none
  getBytes v r := match v.at? r with
    | some (.bytes data) => some (⟨0x1000, data⟩, data.length)
    | _ => none
  setBoolean v r b := match v.at? r with
    | some (.boolean _) => some (Value.setAt (.boolean b) v r)
    | _ => none
  setInt v r n := match v.at? r with
    | some (.int _) => some (Value.setAt (.int n) v r)
    | _ => none
  setEnum v r k := match v.at? r with
    | some (.enum _) => some (Value.setAt (.enum k) v r)
    | _ => none
  setString v r str := match v.at? r with
    | some (.string _) => some (Value.setAt (.string str.bytes) v r)
    | _ => none
  setBytes v r data := match v.at? r with
    | some (.bytes _) => some (Value.setAt (.bytes data) v r)
    | _ => none
  append v r := match v.at? r with
    | some (.array items xs) =>
      some (Value.setAt (.array items (xs ++ [items.default])) v r, r ++ [xs.length])
    | _ => none
  valueRead s input := (decode s).run input
  valueWrite capacity v := if h : (encode v).length ≤ capacity then some ⟨encode v, h⟩ else none

theorem generic_accessors : generic.Accessors where
  genericValueNew _ := rfl
  getByName v r fields name i h hi := by simp [generic, h, hi]
  getByIndex v r items xs i h hi := by simp [generic, h, hi]
  getSize_array v r items xs h := by simp [generic, h]
  getSize_record v r fields h := by simp [generic, h]
  getBoolean v r b h := by simp [generic, h]
  getInt v r n h := by simp [generic, h]
  getEnum v r k h := by simp [generic, h]
  getString v r data h := by simp [generic, h]
  getBytes v r data h := by simp [generic, h]
  setBoolean v r b b' h := by simp [generic, h]
  setInt v r n n' h := by simp [generic, h]
  setEnum v r k k' h := by simp [generic, h]
  setString v r data str h := by simp [generic, h]
  setBytes v r data data' h := by simp [generic, h]
  append v r items xs h := by simp [generic, h]

theorem generic_writesFormat : generic.WritesFormat where
  valueWrite capacity v := by
    refine ⟨[encode v], by simp, ?_⟩
    rw [writeParts_eq _ (Nat.zero_le _)]
    by_cases h : (encode v).length ≤ capacity <;> simp [generic, h]

theorem generic_readsExactly : generic.ReadsExactly where
  complete hword rest := (decode_reads _).complete hword rest
  sound hread := (decode_reads _).sound hread

theorem generic_readsFormat : generic.ReadsFormat := generic_readsExactly.toReadsFormat

theorem generic_readsSized : generic.ReadsSized := generic_readsExactly.readsSized

/-! ## The calls with the return code dropped -/

abbrev Handle := Option Ref

section calls
variable (lib : Libavro) (record : Value)

def byName (h : Handle) (name : String) (out : Handle) : Handle :=
  (h.bind fun r => lib.getByName record r name).or out

def byIndex (h : Handle) (i : Nat) (out : Handle) : Handle :=
  (h.bind fun r => lib.getByIndex record r i).or out

def intOr (h : Handle) (old : Int32) : Int32 := (h.bind (lib.getInt record)).getD old

def booleanOr (h : Handle) (old : Bool) : Bool := (h.bind (lib.getBoolean record)).getD old

def enumOr (h : Handle) (old : Int32) : Int32 := (h.bind (lib.getEnum record)).getD old

def stringOr (h : Handle) (old : Block) : Block :=
  ((h.bind (lib.getString record)).map Prod.fst).getD old

def bytesOr (h : Handle) (old : Block × Nat) : Block × Nat := (h.bind (lib.getBytes record)).getD old

def sizeOr (h : Handle) (old : Nat) : Nat := (h.bind (lib.getSize record)).getD old

def putBoolean (h : Handle) (b : Bool) : Value :=
  (h.bind fun r => lib.setBoolean record r b).getD record

def putInt (h : Handle) (n : Int32) : Value := (h.bind fun r => lib.setInt record r n).getD record

def putEnum (h : Handle) (k : Int32) : Value := (h.bind fun r => lib.setEnum record r k).getD record

def putString (h : Handle) (str : CString) : Value :=
  (h.bind fun r => lib.setString record r str).getD record

def putBytes (h : Handle) (data : Bytes) : Value :=
  (h.bind fun r => lib.setBytes record r data).getD record

def appendTo (h : Handle) (out : Handle) : Value × Handle :=
  match h.bind (lib.append record) with
  | some (record', r) => (record', some r)
  | none => (record, out)

end calls

namespace Accessors
variable {record : Value} {r : Ref} (h : lib.Accessors)
include h

theorem byName {fields : List (String × Value)} {name : String} {i : Nat}
    (hr : record.at? r = some (.record fields))
    (hi : fields.findIdx? (fun field => field.1 == name) = some i) (out : Handle) :
    lib.byName record (some r) name out = some (r ++ [i]) := by
  simp [Libavro.byName, h.getByName _ _ _ _ _ hr hi]

theorem byIndex {items : Schema} {xs : List Value} {i : Nat}
    (hr : record.at? r = some (.array items xs)) (hi : i < xs.length) (out : Handle) :
    lib.byIndex record (some r) i out = some (r ++ [i]) := by
  simp [Libavro.byIndex, h.getByIndex _ _ _ _ _ hr hi]

theorem intOr {n : Int32} (hr : record.at? r = some (.int n)) (old : Int32) :
    lib.intOr record (some r) old = n := by
  simp [Libavro.intOr, h.getInt _ _ _ hr]

theorem booleanOr {b : Bool} (hr : record.at? r = some (.boolean b)) (old : Bool) :
    lib.booleanOr record (some r) old = b := by
  simp [Libavro.booleanOr, h.getBoolean _ _ _ hr]

theorem enumOr {k : Int32} (hr : record.at? r = some (.enum k)) (old : Int32) :
    lib.enumOr record (some r) old = k := by
  simp [Libavro.enumOr, h.getEnum _ _ _ hr]

theorem stringOr {data : Bytes} (hr : record.at? r = some (.string data)) (old : Block) :
    (lib.stringOr record (some r) old).bytes = data ++ [0] := by
  obtain ⟨addr, -, hs⟩ := h.getString _ _ _ hr
  simp [Libavro.stringOr, hs]

theorem stringOr_addr {data : Bytes} (hr : record.at? r = some (.string data)) (old : Block) :
    (lib.stringOr record (some r) old).addr ≠ 0 := by
  obtain ⟨addr, haddr, hs⟩ := h.getString _ _ _ hr
  simpa [Libavro.stringOr, hs] using haddr

theorem bytesOr {data : Bytes} (hr : record.at? r = some (.bytes data)) (old : Block × Nat) :
    (lib.bytesOr record (some r) old).1.bytes = data ∧
    (lib.bytesOr record (some r) old).2 = data.length := by
  obtain ⟨addr, hs⟩ := h.getBytes _ _ _ hr
  simp [Libavro.bytesOr, hs]

theorem sizeOr_record {fields : List (String × Value)} (hr : record.at? r = some (.record fields))
    (old : Nat) : lib.sizeOr record (some r) old = fields.length := by
  simp [Libavro.sizeOr, h.getSize_record _ _ _ hr]

theorem putBoolean {b : Bool} (hr : record.at? r = some (.boolean b)) (b' : Bool) :
    lib.putBoolean record (some r) b' = Value.setAt (.boolean b') record r := by
  simp [Libavro.putBoolean, h.setBoolean _ _ _ b' hr]

theorem putInt {n : Int32} (hr : record.at? r = some (.int n)) (n' : Int32) :
    lib.putInt record (some r) n' = Value.setAt (.int n') record r := by
  simp [Libavro.putInt, h.setInt _ _ _ n' hr]

theorem putEnum {k : Int32} (hr : record.at? r = some (.enum k)) (k' : Int32) :
    lib.putEnum record (some r) k' = Value.setAt (.enum k') record r := by
  simp [Libavro.putEnum, h.setEnum _ _ _ k' hr]

theorem putString {data : Bytes} (hr : record.at? r = some (.string data)) (str : CString) :
    lib.putString record (some r) str = Value.setAt (.string str.bytes) record r := by
  simp [Libavro.putString, h.setString _ _ _ str hr]

theorem putBytes {data : Bytes} (hr : record.at? r = some (.bytes data)) (data' : Bytes) :
    lib.putBytes record (some r) data' = Value.setAt (.bytes data') record r := by
  simp [Libavro.putBytes, h.setBytes _ _ _ data' hr]

theorem appendTo {items : Schema} {xs : List Value} (hr : record.at? r = some (.array items xs))
    (out : Handle) :
    lib.appendTo record (some r) out =
      (Value.setAt (.array items (xs ++ [items.default])) record r, some (r ++ [xs.length])) := by
  simp [Libavro.appendTo, h.append _ _ _ _ hr]

end Accessors

end Libavro

end HamsterAvro.Avro
