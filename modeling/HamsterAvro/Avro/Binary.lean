import HamsterAvro.Avro.Value
import HamsterAvro.Wire.Varint

/-!
# The Avro binary format

`Encodes c s v word`: `word` is an encoding of the value `v` of schema `s`. An array is any number of
blocks and a closing zero; a block is a positive count and that many elements, or a negative count, a
byte size and the elements. `Checks` says what is compared beyond the shape of the bytes:
`Checks.full` is the format as a conforming writer uses it, `Checks.none` what a reader takes that
skips over the byte size of a block and hands an enum ordinal on as it is, and `Checks.ordinals` is
between the two.

`decode` is that reader (`decode_reads`), and `encode` is the writer that puts an array in one block;
it writes a word of the format (`encodes_encode`).
-/

namespace HamsterAvro.Avro
open HamsterAvro.Wire

structure Checks where
  /-- The byte size declared for a block, and the number of bytes of its elements. -/
  blockSize : Int → Nat → Prop
  /-- The symbols of an enum, and an ordinal. -/
  ordinal : List String → Int32 → Prop

def Checks.full : Checks where
  blockSize size n := size = n
  ordinal symbols k := 0 ≤ k.toInt ∧ k.toInt < symbols.length

def Checks.none : Checks where
  blockSize _ _ := True
  ordinal _ _ := True

/-- What a reader would take that also compares an ordinal with the symbols. -/
def Checks.ordinals : Checks where
  blockSize _ _ := True
  ordinal := Checks.full.ordinal

/-! ## The format -/

/-- A length and that many bytes. -/
def Counted (data word : Bytes) : Prop :=
  ∃ count, LongWord data.length count ∧ word = count ++ data

/-- `word` is the list in `k` blocks and the closing zero. -/
inductive Blocks {α : Type} (c : Checks) (R : α → Bytes → Prop) : Nat → List α → Bytes → Prop
  | done {word : Bytes} : LongWord 0 word → Blocks c R 0 [] word
  | plain {k : Nat} {xs ys : List α} {count body rest : Bytes} :
      xs ≠ [] → LongWord xs.length count → Items R xs body → Blocks c R k ys rest →
      Blocks c R (k + 1) (xs ++ ys) (count ++ (body ++ rest))
  | sized {k : Nat} {xs ys : List α} {count body rest : Bytes} {size : Int} {sizeWord : Bytes} :
      xs ≠ [] → LongWord (-xs.length) count → LongWord size sizeWord →
      c.blockSize size body.length → Items R xs body → Blocks c R k ys rest →
      Blocks c R (k + 1) (xs ++ ys) (count ++ (sizeWord ++ (body ++ rest)))

def Encodes (c : Checks) : Schema → Value → Bytes → Prop
  | .null => fun v word => v = .null ∧ word = []
  | .boolean => fun v word => ∃ b, v = .boolean b ∧ word = [if b then 1 else 0]
  | .int => fun v word => ∃ n, v = .int n ∧ LongWord n.toInt word
  | .string => fun v word => ∃ data, v = .string data ∧ Counted data word
  | .bytes => fun v word => ∃ data, v = .bytes data ∧ Counted data word
  | .enum symbols => fun v word => ∃ k, v = .enum k ∧ LongWord k.toInt word ∧ c.ordinal symbols k
  | .array items => fun v word => ∃ xs k, v = .array items xs ∧ Blocks c (Encodes c items) k xs word
  | .record _ fields => fun v word => ∃ vs, v = .record vs ∧ EncodesFields fields vs word
where
  EncodesFields : List (String × Schema) → List (String × Value) → Bytes → Prop
    | [] => fun vs word => vs = [] ∧ word = []
    | (name, schema) :: rest => fun vs word => ∃ v vs' u w,
        vs = (name, v) :: vs' ∧ word = u ++ w ∧ Encodes c schema v u ∧ EncodesFields rest vs' w

namespace Encodes
variable {c : Checks} {name : String} {s items : Schema} {fields : List (String × Schema)} {v : Value}
  {vs : List (String × Value)} {xs : List Value} {k : Nat} {word u w : Bytes}

theorem null : Encodes c .null .null [] := ⟨rfl, rfl⟩

theorem array (h : Blocks c (Encodes c items) k xs word) : Encodes c (.array items) (.array items xs) word :=
  ⟨xs, k, rfl, h⟩

theorem record (h : EncodesFields c fields vs word) : Encodes c (.record name fields) (.record vs) word :=
  ⟨vs, rfl, h⟩

theorem EncodesFields.nil : EncodesFields c [] [] [] := ⟨rfl, rfl⟩

theorem EncodesFields.cons (hv : Encodes c s v u) (hvs : EncodesFields c fields vs w) :
    EncodesFields c ((name, s) :: fields) ((name, v) :: vs) (u ++ w) :=
  ⟨v, vs, u, w, rfl, rfl, hv, hvs⟩

end Encodes

/-! ### What one block tells about all -/

namespace Blocks
variable {α : Type} {c d : Checks} {R S : α → Bytes → Prop} {k : Nat} {xs : List α} {word : Bytes}

theorem lt_length (h : Blocks c R k xs word) : k < word.length := by
  induction h with
  | done hzero => exact hzero.length_pos
  | plain _ hcount _ _ ih =>
    have := hcount.length_pos
    simp only [List.length_append]
    omega
  | sized _ hcount _ _ _ _ ih =>
    have := hcount.length_pos
    simp only [List.length_append]
    omega

theorem exists_word (h : Blocks c R k xs word) : ∀ x ∈ xs, ∃ w, R x w := by
  induction h with
  | done => simp
  | plain _ _ hitems _ ih | sized _ _ _ _ hitems _ ih =>
    intro x hx
    rcases List.mem_append.mp hx with hx | hx
    · exact hitems.exists_word x hx
    · exact ih x hx

theorem mono (hcd : ∀ size n, c.blockSize size n → d.blockSize size n)
    (h : Blocks c R k xs word) (hRS : ∀ x ∈ xs, ∀ w, R x w → S x w) : Blocks d S k xs word := by
  induction h with
  | done hzero => exact .done hzero
  | plain hne hcount hitems _ ih =>
    exact .plain hne hcount (hitems.mono fun x hx => hRS x (by simp [hx]))
      (ih fun x hx => hRS x (by simp [hx]))
  | sized hne hcount hsize hcheck hitems _ ih =>
    exact .sized hne hcount hsize (hcd _ _ hcheck) (hitems.mono fun x hx => hRS x (by simp [hx]))
      (ih fun x hx => hRS x (by simp [hx]))

/-- Each element takes its bytes, and the closing zero at least one more. -/
theorem mul_length_lt {m : Nat} (hR : ∀ x w, R x w → m ≤ w.length) (h : Blocks c R k xs word) :
    m * xs.length < word.length := by
  induction h with
  | done hzero => exact hzero.length_pos
  | plain _ _ hitems _ ih | sized _ _ _ _ hitems _ ih =>
    have := hitems.length_le hR
    simp only [List.length_append, Nat.mul_add]
    omega

end Blocks

mutual

theorem Encodes.shapes {c : Checks} : ∀ {s : Schema} {v : Value} {word : Bytes},
    Encodes c s v word → s.Shapes v
  | .null, _, _, ⟨h, _⟩ => h
  | .boolean, _, _, ⟨b, h, _⟩ => ⟨b, h⟩
  | .int, _, _, ⟨n, h, _⟩ => ⟨n, h⟩
  | .string, _, _, ⟨data, h, _⟩ | .bytes, _, _, ⟨data, h, _⟩ => ⟨data, h⟩
  | .enum _, _, _, ⟨k, h, _⟩ => ⟨k, h⟩
  | .array _, _, _, ⟨xs, _, h, hblocks⟩ => by
    refine ⟨xs, h, fun x hx => ?_⟩
    obtain ⟨_, hx⟩ := hblocks.exists_word x hx
    exact Encodes.shapes hx
  | .record _ _, _, _, ⟨vs, h, hfields⟩ => ⟨vs, h, Encodes.fields_shapes hfields⟩

theorem Encodes.fields_shapes {c : Checks} : ∀ {fields : List (String × Schema)}
    {vs : List (String × Value)} {word : Bytes},
    Encodes.EncodesFields c fields vs word → Schema.Shapes.ShapesFields fields vs
  | [], _, _, ⟨h, _⟩ => h
  | (_, _) :: _, _, _, ⟨v, vs, _, _, h, _, hv, hrest⟩ =>
    ⟨v, vs, h, Encodes.shapes hv, Encodes.fields_shapes hrest⟩

end

theorem minBytesElems_append (xs ys : List Value) : Value.minBytes.minBytesElems (xs ++ ys) =
    Value.minBytes.minBytesElems xs + Value.minBytes.minBytesElems ys := by
  induction xs with
  | nil => exact (Nat.zero_add _).symm
  | cons x xs ih =>
    rw [List.cons_append, Value.minBytes.minBytesElems, ih, Value.minBytes.minBytesElems, Nat.add_assoc]

theorem minBytesElems_le_of_items {R : Value → Bytes → Prop} {xs : List Value} {word : Bytes}
    (hR : ∀ x w, R x w → x.minBytes ≤ w.length) (h : Items R xs word) :
    Value.minBytes.minBytesElems xs ≤ word.length := by
  induction h with
  | nil => exact Nat.zero_le _
  | cons hx _ ih =>
    have := hR _ _ hx
    rw [Value.minBytes.minBytesElems, List.length_append]
    omega

theorem minBytesElems_lt_of_blocks {c : Checks} {R : Value → Bytes → Prop} {k : Nat} {xs : List Value}
    {word : Bytes} (hR : ∀ x w, R x w → x.minBytes ≤ w.length) (h : Blocks c R k xs word) :
    Value.minBytes.minBytesElems xs < word.length := by
  induction h with
  | done hzero => exact hzero.length_pos
  | plain _ _ hitems _ ih | sized _ _ _ _ hitems _ ih =>
    have := minBytesElems_le_of_items hR hitems
    simp only [minBytesElems_append, List.length_append]
    omega

mutual

theorem Encodes.minBytes_le {c : Checks} : ∀ {s : Schema} {v : Value} {word : Bytes},
    Encodes c s v word → v.minBytes ≤ word.length
  | .null, _, _, ⟨h, _⟩ => by rw [h]; exact Nat.zero_le _
  | .boolean, _, _, ⟨_, h, hword⟩ => by rw [h, hword]; exact le_refl 1
  | .int, _, _, ⟨_, h, hword⟩ => by rw [h]; exact hword.length_pos
  | .string, _, _, ⟨_, h, _, hcount, hword⟩ | .bytes, _, _, ⟨_, h, _, hcount, hword⟩ => by
    have := hcount.length_pos
    rw [h, hword, List.length_append]
    exact Nat.le_add_right_of_le this
  | .enum _, _, _, ⟨_, h, hword, _⟩ => by rw [h]; exact hword.length_pos
  | .array _, _, _, ⟨_, _, h, hblocks⟩ => by
    rw [h]
    exact minBytesElems_lt_of_blocks (fun _ _ hx => Encodes.minBytes_le hx) hblocks
  | .record _ _, _, _, ⟨_, h, hfields⟩ => by rw [h]; exact Encodes.minBytesFields_le hfields

theorem Encodes.minBytesFields_le {c : Checks} : ∀ {fields : List (String × Schema)}
    {vs : List (String × Value)} {word : Bytes},
    Encodes.EncodesFields c fields vs word → Value.minBytes.minBytesFields vs ≤ word.length
  | [], _, _, ⟨h, _⟩ => by rw [h]; exact Nat.zero_le _
  | (_, _) :: _, _, _, ⟨_, _, _, _, h, hword, hv, hrest⟩ => by
    have := Encodes.minBytes_le hv
    have := Encodes.minBytesFields_le hrest
    rw [h, hword, List.length_append, Value.minBytes.minBytesFields]
    omega

end

/-- An encoding takes at least the bytes of any value of the schema. -/
theorem Encodes.minSize_le {c : Checks} {s : Schema} {v : Value} {word : Bytes}
    (h : Encodes c s v word) : s.minSize ≤ word.length :=
  h.shapes.minSize_le.trans h.minBytes_le

mutual

/-- What passes the checks passes weaker ones. -/
theorem Encodes.mono {c d : Checks} (hb : ∀ size n, c.blockSize size n → d.blockSize size n)
    (ho : ∀ symbols k, c.ordinal symbols k → d.ordinal symbols k) :
    ∀ {s : Schema} {v : Value} {word : Bytes}, Encodes c s v word → Encodes d s v word
  | .null, _, _, h | .boolean, _, _, h | .int, _, _, h | .string, _, _, h | .bytes, _, _, h => h
  | .enum _, _, _, ⟨k, hv, hword, hk⟩ => ⟨k, hv, hword, ho _ _ hk⟩
  | .array _, _, _, ⟨xs, k, hv, h⟩ => ⟨xs, k, hv, h.mono hb fun _ _ _ => Encodes.mono hb ho⟩
  | .record _ _, _, _, ⟨vs, hv, h⟩ => ⟨vs, hv, Encodes.fields_mono hb ho h⟩

theorem Encodes.fields_mono {c d : Checks}
    (hb : ∀ size n, c.blockSize size n → d.blockSize size n)
    (ho : ∀ symbols k, c.ordinal symbols k → d.ordinal symbols k) :
    ∀ {fields : List (String × Schema)} {vs : List (String × Value)} {word : Bytes},
    Encodes.EncodesFields c fields vs word → Encodes.EncodesFields d fields vs word
  | [], _, _, h => h
  | (_, _) :: _, _, _, ⟨v, vs, u, w, hvs, hword, hv, hrest⟩ =>
    ⟨v, vs, u, w, hvs, hword, Encodes.mono hb ho hv, Encodes.fields_mono hb ho hrest⟩

end

theorem Encodes.to_none {c : Checks} {s : Schema} {v : Value} {word : Bytes} (h : Encodes c s v word) :
    Encodes .none s v word :=
  Encodes.mono (fun _ _ _ => trivial) (fun _ _ _ => trivial) h

/-! ## The reader -/

def readInt : Reader Int32 := do
  let n ← readLong
  if -2 ^ 31 ≤ n ∧ n < 2 ^ 31 then pure (Int32.ofInt n) else failure

def readCounted : Reader Bytes := do
  let n ← readLong
  if 0 ≤ n then readBytes n.toNat else failure

/-- The number of elements of a block whose count has been read; a negative count is followed by the
byte size of the block, which is read and dropped. -/
def readBlockLength (count : Int) : Reader Nat :=
  if count < 0 then do
    let _ ← readLong
    pure (-count).toNat
  else pure count.toNat

def readBlocks {α : Type} (p : Reader α) : (limit : Nat) → Reader (List α)
  | 0 => failure
  | limit + 1 => do
    let count ← readLong
    if count = 0 then pure []
    else do
      let n ← readBlockLength count
      let xs ← readItems p n
      let ys ← readBlocks p limit
      pure (xs ++ ys)

/-- Every block takes a byte at least, so the length of the input bounds their number. -/
def readArray {α : Type} (p : Reader α) : Reader (List α) := fun input =>
  (readBlocks p input.length).run input

def decode : Schema → Reader Value
  | .null => pure .null
  | .boolean => do
    let b ← readByte
    if b = 0 then pure (.boolean false) else if b = 1 then pure (.boolean true) else failure
  | .int => do
    let n ← readInt
    pure (.int n)
  | .string => do
    let data ← readCounted
    pure (.string data)
  | .bytes => do
    let data ← readCounted
    pure (.bytes data)
  | .enum _ => do
    let k ← readInt
    pure (.enum k)
  | .array items => do
    let xs ← readArray (decode items)
    pure (.array items xs)
  | .record _ fields => do
    let vs ← decodeFields fields
    pure (.record vs)
where
  decodeFields : List (String × Schema) → Reader (List (String × Value))
    | [] => pure []
    | (name, schema) :: rest => do
      let v ← decode schema
      let vs ← decodeFields rest
      pure ((name, v) :: vs)

theorem readInt_reads : Reads readInt fun n word => LongWord n.toInt word := by
  refine (readLong_reads.bind fun n => Reads.ite (Reads.pure (Int32.ofInt n)) Reads.failure).congr
    fun n word => ?_
  constructor
  · intro h
    obtain ⟨m, u, v, rfl, hm, h⟩ := h
    by_cases hrange : -2 ^ 31 ≤ m ∧ m < 2 ^ 31
    · rw [if_pos hrange] at h
      obtain ⟨rfl, rfl⟩ := h
      rwa [List.append_nil, Int32.toInt_ofInt_of_le (by omega) (by omega)]
    · rw [if_neg hrange] at h
      exact h.elim
  · intro h
    refine ⟨n.toInt, word, [], (List.append_nil word).symm, h, ?_⟩
    rw [if_pos ⟨n.le_toInt, n.toInt_lt⟩]
    exact ⟨n.ofInt_toInt.symm, rfl⟩

theorem readCounted_reads : Reads readCounted Counted := by
  refine (readLong_reads.bind fun n =>
    Reads.ite (readBytes_reads n.toNat) Reads.failure).congr fun data word => ?_
  constructor
  · intro h
    obtain ⟨n, u, v, rfl, hn, h⟩ := h
    by_cases hpos : 0 ≤ n
    · rw [if_pos hpos] at h
      obtain ⟨rfl, hlen⟩ := h
      exact ⟨u, by rwa [hlen, Int.toNat_of_nonneg hpos], rfl⟩
    · rw [if_neg hpos] at h
      exact h.elim
  · intro h
    obtain ⟨count, hcount, rfl⟩ := h
    refine ⟨data.length, count, data, rfl, hcount, ?_⟩
    rw [if_pos (by omega)]
    exact ⟨rfl, rfl⟩

theorem readBlockLength_reads (count : Int) : Reads (readBlockLength count) fun n word =>
    if count < 0 then ∃ size, n = (-count).toNat ∧ LongWord size word
    else n = count.toNat ∧ word = [] :=
  Reads.ite readLong_reads.map (Reads.pure _)

theorem readBlocks_reads {α : Type} {p : Reader α} {R : α → Bytes → Prop} (hp : Reads p R)
    (limit : Nat) :
    Reads (readBlocks p limit) fun xs word => ∃ k < limit, Blocks .none R k xs word := by
  induction limit with
  | zero => exact Reads.failure.congr fun xs word => by simp
  | succ limit ih =>
    refine (readLong_reads.bind fun count => Reads.ite (Reads.pure [])
      ((readBlockLength_reads count).bind fun n => (readItems_reads hp n).bind fun xs =>
        ih.map)).congr fun zs word => ?_
    constructor
    · intro h
      obtain ⟨count, u, v, rfl, hcount, h⟩ := h
      by_cases hzero : count = 0
      · rw [if_pos hzero] at h
        obtain ⟨rfl, rfl⟩ := h
        rw [hzero] at hcount
        exact ⟨0, by omega, by rw [List.append_nil]; exact .done hcount⟩
      · rw [if_neg hzero] at h
        obtain ⟨n, sizeWord, w, rfl, hn, xs, body, rest, rfl, ⟨hlen, hitems⟩, ys, rfl, k, hk, hrest⟩ := h
        refine ⟨k + 1, by omega, ?_⟩
        by_cases hneg : count < 0
        · rw [if_pos hneg] at hn
          obtain ⟨size, rfl, hsize⟩ := hn
          refine .sized ?_ ?_ hsize trivial hitems hrest
          · rintro rfl
            simp only [List.length_nil] at hlen
            omega
          · rwa [hlen, Int.toNat_of_nonneg (by omega), Int.neg_neg]
        · rw [if_neg hneg] at hn
          obtain ⟨rfl, rfl⟩ := hn
          rw [List.nil_append]
          refine .plain ?_ ?_ hitems hrest
          · rintro rfl
            simp only [List.length_nil] at hlen
            omega
          · rwa [hlen, Int.toNat_of_nonneg (by omega)]
    · intro h
      obtain ⟨k, hk, h⟩ := h
      cases h with
      | done hzero => exact ⟨0, word, [], (List.append_nil word).symm, hzero, rfl, rfl⟩
      | @plain k xs ys count body rest hne hcount hitems hrest =>
        have hpos := List.length_pos_iff.mpr hne
        refine ⟨xs.length, count, body ++ rest, rfl, hcount, ?_⟩
        rw [if_neg (by omega)]
        refine ⟨xs.length, [], body ++ rest, rfl, ?_, xs, body, rest, rfl, ⟨rfl, hitems⟩, ys, rfl, k,
          by omega, hrest⟩
        rw [if_neg (by omega)]
        exact ⟨rfl, rfl⟩
      | @sized k xs ys count body rest size sizeWord hne hcount hsize _ hitems hrest =>
        have hpos := List.length_pos_iff.mpr hne
        refine ⟨-xs.length, count, sizeWord ++ (body ++ rest), rfl, hcount, ?_⟩
        rw [if_neg (by omega)]
        refine ⟨xs.length, sizeWord, body ++ rest, rfl, ?_, xs, body, rest, rfl, ⟨rfl, hitems⟩, ys, rfl,
          k, by omega, hrest⟩
        rw [if_pos (by omega)]
        exact ⟨size, by omega, hsize⟩

theorem readArray_reads {α : Type} {p : Reader α} {R : α → Bytes → Prop} (hp : Reads p R) :
    Reads (readArray p) fun xs word => ∃ k, Blocks .none R k xs word := by
  intro input xs rest
  apply (readBlocks_reads hp input.length input xs rest).trans
  constructor
  · intro h
    obtain ⟨word, hword, k, -, h⟩ := h
    exact ⟨word, hword, k, h⟩
  · intro h
    obtain ⟨word, rfl, k, h⟩ := h
    have := h.lt_length
    exact ⟨word, rfl, k, by rw [List.length_append]; omega, h⟩

theorem readBoolean_reads : Reads (decode .boolean) (Encodes .none .boolean) := by
  refine (readByte_reads.bind fun b => Reads.ite (Reads.pure (Value.boolean false))
    (Reads.ite (Reads.pure (Value.boolean true)) Reads.failure)).congr fun v word => ?_
  constructor
  · intro h
    obtain ⟨b, u, w, rfl, rfl, h⟩ := h
    by_cases hfalse : b = 0
    · rw [if_pos hfalse] at h
      obtain ⟨rfl, rfl⟩ := h
      exact ⟨false, rfl, by rw [hfalse]; rfl⟩
    · rw [if_neg hfalse] at h
      by_cases htrue : b = 1
      · rw [if_pos htrue] at h
        obtain ⟨rfl, rfl⟩ := h
        exact ⟨true, rfl, by rw [htrue]; rfl⟩
      · rw [if_neg htrue] at h
        exact h.elim
  · intro h
    obtain ⟨b, rfl, rfl⟩ := h
    refine ⟨_, [if b then 1 else 0], [], rfl, rfl, ?_⟩
    cases b <;> simp

mutual

/-- `decode s` reads exactly the encodings of the values of `s`, checks left out. -/
theorem decode_reads : ∀ s : Schema, Reads (decode s) (Encodes .none s)
  | .null => Reads.pure _
  | .boolean => readBoolean_reads
  | .int => readInt_reads.map
  | .string | .bytes => readCounted_reads.map
  | .enum _ => readInt_reads.map.congr fun v word => by simp [Encodes, Checks.none]
  | .array items => (readArray_reads (decode_reads items)).map.congr fun v word => by
    simp only [Encodes, ← exists_and_left]
  | .record _ fields => (decodeFields_reads fields).map

theorem decodeFields_reads : ∀ fields : List (String × Schema),
    Reads (decode.decodeFields fields) (Encodes.EncodesFields .none fields)
  | [] => Reads.pure _
  | (name, schema) :: rest => by
    refine ((decode_reads schema).bind fun v => (decodeFields_reads rest).map).congr fun vs word => ?_
    constructor
    · intro h
      obtain ⟨v, u, w, rfl, hu, vs, rfl, hw⟩ := h
      exact ⟨v, vs, u, w, rfl, rfl, hu, hw⟩
    · intro h
      obtain ⟨v, vs, u, w, rfl, rfl, hu, hw⟩ := h
      exact ⟨v, u, w, rfl, hu, vs, rfl, hw⟩

end

/-! ## The writer -/

def encode : Value → Bytes
  | .null => []
  | .boolean b => [if b then 1 else 0]
  | .int n => writeLong n.toInt
  | .string data | .bytes data => writeLong data.length ++ data
  | .enum k => writeLong k.toInt
  | .array _ elems =>
    if elems.isEmpty then writeLong 0
    else writeLong elems.length ++ (encodeElems elems ++ writeLong 0)
  | .record fields => encodeFields fields
where
  encodeElems : List Value → Bytes
    | [] => []
    | v :: rest => encode v ++ encodeElems rest
  encodeFields : List (String × Value) → Bytes
    | [] => []
    | (_, v) :: rest => encode v ++ encodeFields rest

/-- The value is one of the schema, and its lengths and counts are longs. -/
def Conforms : Schema → Value → Prop
  | .null => fun v => v = .null
  | .boolean => fun v => ∃ b, v = .boolean b
  | .int => fun v => ∃ n, v = .int n
  | .string => fun v => ∃ data, v = .string data ∧ data.length < 2 ^ 63
  | .bytes => fun v => ∃ data, v = .bytes data ∧ data.length < 2 ^ 63
  | .enum symbols => fun v => ∃ k, v = .enum k ∧ Checks.full.ordinal symbols k
  | .array items => fun v => ∃ xs, v = .array items xs ∧ xs.length < 2 ^ 63 ∧ ∀ x ∈ xs, Conforms items x
  | .record _ fields => fun v => ∃ vs, v = .record vs ∧ ConformsFields fields vs
where
  ConformsFields : List (String × Schema) → List (String × Value) → Prop
    | [] => fun vs => vs = []
    | (name, schema) :: rest => fun vs => ∃ v vs',
        vs = (name, v) :: vs' ∧ Conforms schema v ∧ ConformsFields rest vs'

section conforms
variable {name field : String} {items s : Schema} {fields : List (String × Schema)} {v : Value}
  {vs : List (String × Value)} {xs : List Value} {data : Bytes} {symbols : List String} {k : Int32}

@[simp] theorem conforms_boolean (b : Bool) : Conforms .boolean (.boolean b) := ⟨b, rfl⟩

@[simp] theorem conforms_int (n : Int32) : Conforms .int (.int n) := ⟨n, rfl⟩

@[simp] theorem conforms_string : Conforms .string (.string data) ↔ data.length < 2 ^ 63 := by
  simp [Conforms]

@[simp] theorem conforms_bytes : Conforms .bytes (.bytes data) ↔ data.length < 2 ^ 63 := by
  simp [Conforms]

@[simp] theorem conforms_enum :
    Conforms (.enum symbols) (.enum k) ↔ Checks.full.ordinal symbols k := by
  simp [Conforms]

@[simp] theorem conforms_array : Conforms (.array items) (.array items xs) ↔
    xs.length < 2 ^ 63 ∧ ∀ x ∈ xs, Conforms items x := by
  simp [Conforms]

@[simp] theorem conforms_record :
    Conforms (.record name fields) (.record vs) ↔ Conforms.ConformsFields fields vs := by
  simp [Conforms]

@[simp] theorem conformsFields_nil : Conforms.ConformsFields [] [] := rfl

@[simp] theorem conformsFields_cons :
    Conforms.ConformsFields ((field, s) :: fields) ((field, v) :: vs) ↔
      Conforms s v ∧ Conforms.ConformsFields fields vs := by
  simp [Conforms.ConformsFields]

end conforms

theorem encodeElems_eq (xs : List Value) : encode.encodeElems xs = xs.flatMap encode := by
  induction xs with
  | nil => rfl
  | cons x xs ih => rw [encode.encodeElems, ih, List.flatMap_cons]

theorem longWord_int (n : Int32) : LongWord n.toInt (writeLong n.toInt) := by
  have := n.le_toInt
  have := n.toInt_lt
  exact longWord_writeLong (by omega) (by omega)

theorem longWord_length {n : Nat} (h : n < 2 ^ 63) : LongWord n (writeLong n) :=
  longWord_writeLong (by omega) (by omega)

theorem items_encodeElems {R : Value → Bytes → Prop} {xs : List Value}
    (h : ∀ x ∈ xs, R x (encode x)) : Items R xs (encode.encodeElems xs) := by
  induction xs with
  | nil => exact .nil
  | cons x xs ih => exact .cons (h x (by simp)) (ih fun y hy => h y (by simp [hy]))

theorem blocks_encode {c : Checks} {R : Value → Bytes → Prop} (items : Schema) {xs : List Value}
    (hlen : xs.length < 2 ^ 63) (h : ∀ x ∈ xs, R x (encode x)) :
    ∃ k, Blocks c R k xs (encode (.array items xs)) := by
  have hzero : LongWord 0 (writeLong 0) := longWord_writeLong (by decide) (by decide)
  cases xs with
  | nil => exact ⟨0, .done hzero⟩
  | cons x xs =>
    have := Blocks.plain (c := c) (by simp) (longWord_length hlen) (items_encodeElems h) (.done hzero)
    rw [List.append_nil] at this
    exact ⟨1, this⟩

mutual

/-- The writer's word of a conforming value is an encoding of it, every check passed. -/
theorem encodes_encode : ∀ {s : Schema} {v : Value}, Conforms s v → Encodes .full s v (encode v)
  | .null, _, h => ⟨h, by rw [h]; rfl⟩
  | .boolean, _, ⟨b, h⟩ => ⟨b, h, by rw [h, encode]⟩
  | .int, _, ⟨n, h⟩ => ⟨n, h, by rw [h]; exact longWord_int n⟩
  | .string, _, ⟨data, h, hlen⟩ | .bytes, _, ⟨data, h, hlen⟩ =>
    ⟨data, h, _, longWord_length hlen, by rw [h, encode]⟩
  | .enum _, _, ⟨k, h, hk⟩ => ⟨k, h, by rw [h]; exact longWord_int k, hk⟩
  | .array items, _, ⟨xs, h, hlen, hxs⟩ => by
    obtain ⟨k, hk⟩ := blocks_encode (c := .full) items hlen fun x hx => encodes_encode (hxs x hx)
    exact ⟨xs, k, h, by rw [h]; exact hk⟩
  | .record _ _, _, ⟨vs, h, hvs⟩ => ⟨vs, h, by rw [h]; exact encodesFields_encodeFields hvs⟩

theorem encodesFields_encodeFields : ∀ {fields : List (String × Schema)} {vs : List (String × Value)},
    Conforms.ConformsFields fields vs →
    Encodes.EncodesFields .full fields vs (encode.encodeFields vs)
  | [], _, h => ⟨h, by rw [h]; rfl⟩
  | (_, _) :: _, _, ⟨v, vs, h, hv, hvs⟩ => by
    rw [h, encode.encodeFields]
    exact .cons (encodes_encode hv) (encodesFields_encodeFields hvs)

end

/-- Reading back what was written. -/
theorem decode_encode {s : Schema} {v : Value} (h : Conforms s v) (rest : Bytes) :
    (decode s).run (encode v ++ rest) = some (v, rest) :=
  (decode_reads s).complete (encodes_encode h).to_none rest

/-- Two values of a schema are written the same only if they are the same. -/
theorem encode_inj {s : Schema} {u v : Value} (hu : Conforms s u) (hv : Conforms s v)
    (h : encode u = encode v) : u = v := by
  have hdecode := decode_encode hu []
  rw [h, decode_encode hv []] at hdecode
  exact (congrArg Prod.fst (Option.some.inj hdecode)).symm

end HamsterAvro.Avro
