import HamsterAvro.Common
import Mathlib.Data.List.Forall2

/-!
# What the common part does

Under the assumptions on the host, a builder returns the encoding of the record it filled if that fits
the buffer and exits otherwise (`buildRequest_returns`, `buildRequest_stops`); a parser goes on with the
record that the slice holds, and exits where it holds none (`readRecord_returns`, `readRecord_stops`). An
array parser whose loop body decodes each element decodes the array (`parseArray_returns`), and one whose
body stops on the first element stops (`parseArray_stops`). A run of an array parser that returned went
through one `malloc` and one loop, on any host (`parseArray_ensures`).
-/

namespace HamsterAvro
open HamsterAvro.Wire HamsterAvro.Avro HamsterAvro.C

/-- The record of a process name. -/
def ProcessName.toValue (name : ProcessName) : Value :=
  .record [("jobid", .int name.jobid), ("vpid", .int name.vpid)]

theorem processName_conforms (name : ProcessName) : Conforms processName name.toValue := by
  simp [processName, ProcessName.toValue]

/-- The record of a message that is one array. -/
def arrayRecord (field : String) (items : Schema) (vs : List Value) : Value :=
  .record [(field, .array items vs)]

theorem arrayRecord_inj {field : String} {items : Schema} {us vs : List Value}
    (h : arrayRecord field items us = arrayRecord field items vs) : us = vs := by
  simpa [arrayRecord] using h

/-- A reference into the last element of the array is one into that element. -/
theorem at?_arrayRecord_last (field : String) (items : Schema) (vs : List Value) (v : Value) (r : Ref) :
    (arrayRecord field items (vs ++ [v])).at? (0 :: vs.length :: r) = v.at? r :=
  Value.at?_array_last items vs v r

theorem setAt_arrayRecord_last (field : String) (items : Schema) (vs : List Value) (x v : Value)
    (r : Ref) :
    Value.setAt x (arrayRecord field items (vs ++ [v])) (0 :: vs.length :: r) =
      arrayRecord field items (vs ++ [Value.setAt x v r]) := by
  simp only [arrayRecord, Value.setAt_record, List.modify_zero_cons, Value.setAt_array_last]

variable {host : Host} {w : World}

theorem throw_exit_stops {α : Type} (message : String) :
    Stops (throw (.exit message) : Prog α) w Halt.IsExit :=
  Stops.throw trivial

theorem modify_returns (f : World → World) : Returns (modify f : Prog Unit) w fun _ w' => w' = f w :=
  ⟨(), f w, rfl, rfl⟩

theorem acquire_returns (object : LibObject) : Returns (acquire object) w fun _ _ => True :=
  (modify_returns _).mono fun _ _ _ => trivial

theorem closeRecord_returns : Returns closeRecord w fun _ _ => True :=
  (modify_returns _).bind fun _ _ _ => (modify_returns _).mono fun _ _ _ => trivial

theorem freeIfSet_returns (p : Addr) : Returns (freeIfSet p) w fun _ _ => True := by
  unfold freeIfSet
  split
  · exact Returns.pure trivial
  · exact (modify_returns _).mono fun _ _ _ => trivial

theorem acquire_allocs (object : LibObject) :
    Ensures (acquire object) w fun _ w' => w'.allocs = w.allocs := by
  rintro _ _ ⟨⟩
  rfl

theorem freeIfSet_allocs (p : Addr) : Ensures (freeIfSet p) w fun _ w' => w'.allocs = w.allocs := by
  unfold freeIfSet
  split
  · exact Ensures.pure rfl
  · rintro _ _ ⟨⟩
    rfl

theorem xmalloc_run (size : Nat) (w : World) :
    (xmalloc host size).run w =
      if host.malloc w.allocs size = 0 then .error (.exit "malloc failed.")
      else .ok (host.malloc w.allocs size, { w with allocs := w.allocs + 1 }) := by
  unfold xmalloc
  by_cases h : host.malloc w.allocs size = 0
  · rw [if_pos h, StateT.run_bind, StateT.run_get, pure_bind, StateT.run_bind, StateT.run_set,
      pure_bind, if_pos h]
    rfl
  · rw [if_neg h, StateT.run_bind, StateT.run_get, pure_bind, StateT.run_bind, StateT.run_set,
      pure_bind, if_neg h]
    rfl

theorem xmalloc_returns (hmem : host.MallocSucceeds) (size : Nat) :
    Returns (xmalloc host size) w fun p _ => p ≠ 0 ∧ p < 2 ^ 64 :=
  ⟨_, _, by rw [xmalloc_run, if_neg (hmem _ _)], hmem _ _, host.malloc_lt _ _⟩

theorem xmalloc_ensures (size : Nat) : Ensures (xmalloc host size) w fun p w' =>
    p = host.malloc w.allocs size ∧ p ≠ 0 ∧ w'.allocs = w.allocs + 1 := by
  intro p w' hrun
  rw [xmalloc_run] at hrun
  by_cases hnull : host.malloc w.allocs size = 0
  · rw [if_pos hnull] at hrun
    cases hrun
  · rw [if_neg hnull] at hrun
    cases hrun
    exact ⟨rfl, hnull, rfl⟩

/-- What the filling of the record hands on is handed on, whatever libavro does. -/
theorem buildRequest_ensures {β : Type} {file unable : String} {fill : Value → Prog (Value × β)}
    {P : β → Prop} (hfill : ∀ record w, Ensures (fill record) w fun out _ => P out.2) :
    Ensures (buildRequest host file unable fill) w fun out _ => P out.2 := by
  refine Ensures.after fun out w' => ?_
  refine (hfill out.2 w').bind fun filled _ h => ?_
  refine Ensures.after fun _ _ => ?_
  split
  · exact Ensures.throw
  · refine Ensures.after fun _ _ => ?_
    refine Ensures.after fun self _ => ?_
    exact Ensures.after fun buffer _ => Ensures.pure h

/-- A slice that is handed out came out of the buffer. -/
theorem buildRequest_length {β : Type} {file unable : String} {fill : Value → Prog (Value × β)} :
    Ensures (buildRequest host file unable fill) w fun out _ => out.1.len ≤ bufferSize := by
  refine Ensures.after fun out _ => ?_
  refine Ensures.after fun filled _ => ?_
  refine Ensures.after fun _ _ => ?_
  split
  · exact Ensures.throw
  · rename_i buf _
    refine Ensures.after fun _ _ => ?_
    refine Ensures.after fun self _ => ?_
    exact Ensures.after fun buffer _ => Ensures.pure buf.property

/-! ### The record in a slice -/

/-- The record that `avro_value_read` takes off the front of the slice. -/
def Slice.Holds (slice : Slice) (host : Host) (schema : Schema) (record : Value) : Prop :=
  ∃ rest, host.lib.valueRead schema slice.bytes = some (record, rest)

section holds
variable {slice : Slice} {schema : Schema} {record : Value}

/-- The record in a slice is determined by the slice. -/
theorem Slice.Holds.unique {a b : Value} (ha : slice.Holds host schema a)
    (hb : slice.Holds host schema b) : a = b := by
  obtain ⟨_, ha⟩ := ha
  obtain ⟨_, hb⟩ := hb
  rw [ha] at hb
  exact (Prod.mk.inj (Option.some.inj hb)).1

theorem Slice.holds_of_prefix (hreads : host.lib.ReadsFormat) {c : Checks} {word rest : Bytes}
    (hslice : slice.bytes = word ++ rest) (h : Encodes c schema record word) :
    slice.Holds host schema record :=
  ⟨rest, by rw [hslice]; exact hreads.complete h.to_none rest⟩

/-- A slice that is an encoding to its end. -/
theorem Slice.holds_of_encodes (hreads : host.lib.ReadsFormat) {c : Checks}
    (h : Encodes c schema record slice.bytes) : slice.Holds host schema record :=
  Slice.holds_of_prefix hreads (List.append_nil _).symm h

/-- A slice that a builder wrote. -/
theorem Slice.holds_of_encode (hreads : host.lib.ReadsFormat) (hslice : slice.bytes = encode record)
    (h : Conforms schema record) : slice.Holds host schema record :=
  Slice.holds_of_encodes (c := .full) hreads (by rw [hslice]; exact encodes_encode h)

/-- The record in a slice is the one that the slice begins with an encoding of. -/
theorem Slice.holds_iff (hreads : host.lib.ReadsExactly) : slice.Holds host schema record ↔
    ∃ word rest, slice.bytes = word ++ rest ∧ Encodes .none schema record word := by
  constructor
  · intro h
    obtain ⟨rest, hread⟩ := h
    obtain ⟨word, hword, hrecord⟩ := hreads.sound hread
    exact ⟨word, rest, hword, hrecord⟩
  · intro h
    obtain ⟨word, rest, hword, hrecord⟩ := h
    exact Slice.holds_of_prefix hreads.toReadsFormat hword hrecord

theorem Slice.Holds.shapes (hsized : host.lib.ReadsSized) (h : slice.Holds host schema record) :
    schema.Shapes record := by
  obtain ⟨rest, hread⟩ := h
  exact hsized.shapes hread

/-- The elements of an array record are of its schema, and each took its bytes, as the end of the array
did. -/
theorem Slice.Holds.exists_elems (hsized : host.lib.ReadsSized) {name field : String} {items : Schema}
    (h : slice.Holds host (.record name [(field, .array items)]) record) :
    ∃ vs, record = arrayRecord field items vs ∧ (∀ v ∈ vs, items.Shapes v) ∧
      items.minSize * vs.length < slice.len := by
  obtain ⟨_, rfl, _, _, rfl, ⟨vs, rfl, hvs⟩, rfl⟩ := h.shapes hsized
  obtain ⟨rest, hread⟩ := h
  refine ⟨vs, rfl, hvs, ?_⟩
  have hsize := hsized.minBytes_le hread
  have helems := Value.mul_length_le fun v hv => (hvs v hv).minSize_le
  simp only [Value.minBytes, Value.minBytes.minBytesFields] at hsize
  unfold Slice.len
  omega

/-- Elements that each took a byte are counted by an `int`. -/
theorem Slice.length_le (slice : Slice) {k n : Nat} (hk : 0 < k) (h : k * n < slice.len) :
    n ≤ intMax := by
  have hn : n ≤ k * n := Nat.le_mul_of_pos_left n hk
  have hlen : slice.len ≤ intMax := slice.len_le
  omega

end holds

/-! ### Opening a record -/

section opened
variable (hfiles : host.Installed) {file : String} {schema : Schema}
  (hfile : (file, schema) ∈ schemaFiles)
include hfiles hfile

/-- A schema file takes two blocks. -/
theorem initSchema_ensures :
    Ensures (initSchema host (schemaPath ++ "/" ++ file)) w fun s w' =>
      s = schema ∧ w'.allocs = w.allocs + 2 := by
  obtain ⟨length, hopen⟩ := hfiles _ hfile
  have hread : Ensures (readFileToSlice host (schemaPath ++ "/" ++ file)) w fun out w' =>
      out.2.2 = ⟨length, some schema⟩ ∧ w'.allocs = w.allocs + 2 := by
    unfold readFileToSlice
    rw [hopen]
    refine (xmalloc_ensures _).bind fun self w₁ ⟨_, _, h₁⟩ => ?_
    refine (xmalloc_ensures _).bind fun buffer w₂ ⟨_, _, h₂⟩ => Ensures.pure ⟨rfl, ?_⟩
    rw [h₂, h₁]
  refine hread.bind fun out w₁ ⟨hout, hallocs⟩ => ?_
  obtain ⟨self, buffer, schemaFile⟩ := out
  obtain rfl : schemaFile = ⟨length, some schema⟩ := hout
  refine (acquire_allocs _).bind fun _ w₂ h₂ => ?_
  refine Ensures.bind (Q := fun _ w' => w'.allocs = w₂.allocs) ?_ fun _ w₃ h₃ => Ensures.pure ⟨rfl, ?_⟩
  · exact (freeIfSet_allocs buffer).bind fun _ w' h => (freeIfSet_allocs self).mono fun _ _ h' => h'.trans h
  · rw [h₃, h₂, hallocs]

/-- A parser that goes on has a record. -/
theorem readRecord_ensures {slice : Slice} :
    Ensures (readRecord host file slice) w fun record w' =>
      slice.Holds host schema record ∧ w'.allocs = w.allocs + 2 := by
  have hnew : Ensures (newRecord host file) w fun out w' =>
      out.1 = schema ∧ w'.allocs = w.allocs + 2 := by
    refine (initSchema_ensures hfiles hfile).bind fun s w₁ ⟨hs, h₁⟩ => ?_
    refine (acquire_allocs _).bind fun _ w₂ h₂ => ?_
    refine (acquire_allocs _).bind fun _ w₃ h₃ => Ensures.pure ⟨hs, ?_⟩
    rw [h₃, h₂, h₁]
  refine hnew.bind fun out w₁ ⟨hout, h₁⟩ => ?_
  refine (acquire_allocs _).bind fun _ w₂ h₂ => ?_
  cases hread : host.lib.valueRead out.1 slice.bytes with
  | none => exact Ensures.throw
  | some read => exact Ensures.pure ⟨⟨read.2, by rw [← hout, hread]⟩, by rw [h₂, h₁]⟩

end opened

section files
variable (hlib : host.lib.Accessors) (hfiles : host.Installed) (hmem : host.MallocSucceeds)
  {file : String} {schema : Schema} (hfile : (file, schema) ∈ schemaFiles)
include hfiles hmem hfile

theorem initSchema_returns :
    Returns (initSchema host (schemaPath ++ "/" ++ file)) w fun s _ => s = schema := by
  obtain ⟨length, hopen⟩ := hfiles _ hfile
  have hread : Returns (readFileToSlice host (schemaPath ++ "/" ++ file)) w
      fun out _ => out.2.2 = ⟨length, some schema⟩ := by
    unfold readFileToSlice
    rw [hopen]
    refine (xmalloc_returns hmem _).bind fun self _ _ => ?_
    exact (xmalloc_returns hmem _).bind fun buffer _ _ => Returns.pure rfl
  refine hread.bind fun out w' hout => ?_
  obtain ⟨self, buffer, schemaFile⟩ := out
  obtain rfl : schemaFile = ⟨length, some schema⟩ := hout
  refine (acquire_returns _).bind fun _ _ _ => ?_
  refine Returns.bind (Q := fun _ _ => True) ?_ fun _ _ _ => Returns.pure rfl
  exact (freeIfSet_returns buffer).bind fun _ _ _ => freeIfSet_returns self

include hlib

theorem newRecord_returns :
    Returns (newRecord host file) w fun out _ => out = (schema, schema.default) := by
  refine (initSchema_returns hfiles hmem hfile).bind fun s _ hs => ?_
  refine (acquire_returns _).bind fun _ _ _ => (acquire_returns _).bind fun _ _ _ => Returns.pure ?_
  rw [hs, hlib.genericValueNew]

/-! ### Builders -/

/-- A builder stops where the filling of the record does. -/
theorem buildRequest_stops_of_fill {β : Type} {unable : String} {fill : Value → Prog (Value × β)}
    {E : Halt → Prop} (hfill : ∀ w, Stops (fill schema.default) w E) :
    Stops (buildRequest host file unable fill) w E := by
  refine Stops.bind_right (newRecord_returns hlib hfiles hmem hfile) fun _ w₁ h => ?_
  subst h
  exact (hfill w₁).bind_left

section builders
variable (hwrites : host.lib.WritesFormat) {β : Type} {unable : String}
  {fill : Value → Prog (Value × β)} {v : Value} {P : β → Prop}
  (hfill : ∀ w, Returns (fill schema.default) w fun out _ => out.1 = v ∧ P out.2)
include hwrites hfill

theorem buildRequest_returns (hfits : (encode v).length ≤ bufferSize) :
    Returns (buildRequest host file unable fill) w fun out _ => out.1.bytes = encode v ∧ P out.2 := by
  refine (newRecord_returns hlib hfiles hmem hfile).bind fun _ w₁ h => ?_
  subst h
  refine (hfill w₁).bind fun out w₂ h => ?_
  obtain ⟨record, b⟩ := out
  obtain ⟨rfl, hb⟩ := h
  refine (acquire_returns _).bind fun _ _ _ => ?_
  simp only [hwrites.fits hfits]
  refine closeRecord_returns.bind fun _ _ _ => ?_
  refine (xmalloc_returns hmem _).bind fun self _ _ => ?_
  exact (xmalloc_returns hmem _).bind fun buffer _ _ => Returns.pure ⟨rfl, hb⟩

theorem buildRequest_stops (hover : bufferSize < (encode v).length) :
    Stops (buildRequest host file unable fill) w Halt.IsExit := by
  refine Stops.bind_right (newRecord_returns hlib hfiles hmem hfile) fun _ w₁ h => ?_
  subst h
  refine Stops.bind_right (hfill w₁) fun out w₂ h => ?_
  obtain ⟨record, b⟩ := out
  obtain ⟨rfl, hb⟩ := h
  refine Stops.bind_right (acquire_returns _) fun _ _ _ => ?_
  simp only [hwrites.overruns hover]
  exact throw_exit_stops unable

end builders

/-! ### Parsers -/

/-- What follows the record in the slice makes no difference. -/
theorem readRecord_extend (hreads : host.lib.ReadsFormat) {slice longer : Slice} {record : Value}
    {rest : Bytes} (hlonger : longer.bytes = slice.bytes ++ rest)
    (hrecord : Encodes .none schema record slice.bytes) :
    (readRecord host file longer).run w = (readRecord host file slice).run w := by
  obtain ⟨out, w₁, hrun, rfl⟩ := newRecord_returns (w := w) hlib hfiles hmem hfile
  have hread : host.lib.valueRead schema slice.bytes = some (record, []) := by
    have := hreads.complete hrecord []
    rwa [List.append_nil] at this
  have hread' : host.lib.valueRead schema longer.bytes = some (record, rest) := by
    rw [hlonger]
    exact hreads.complete hrecord rest
  rw [readRecord, run_bind_ok hrun, readRecord, run_bind_ok hrun]
  simp only [hread, hread']

variable {slice : Slice}

theorem readRecord_returns {record : Value} (h : slice.Holds host schema record) :
    Returns (readRecord host file slice) w fun v _ => v = record := by
  obtain ⟨rest, hread⟩ := h
  refine (newRecord_returns hlib hfiles hmem hfile).bind fun _ _ h => ?_
  subst h
  refine (acquire_returns _).bind fun _ _ _ => ?_
  simp only [hread]
  exact Returns.pure rfl

theorem readRecord_stops (h : ¬ ∃ record, slice.Holds host schema record) :
    Stops (readRecord host file slice) w Halt.IsExit := by
  refine Stops.bind_right (newRecord_returns hlib hfiles hmem hfile) fun _ _ h => ?_
  subst h
  refine Stops.bind_right (acquire_returns _) fun _ _ _ => ?_
  cases hread : host.lib.valueRead schema slice.bytes with
  | none => exact throw_exit_stops _
  | some out => exact absurd ⟨out.1, out.2, hread⟩ h

end files

/-! ### Array parsers -/

/-- The memory holds the count and the address of the block, which holds an element for each value. -/
def ArrayOut.Decodes {α : Type} (R : Value → α → Prop) (vs : List Value) (out : OutPointers)
    (memory : Memory) (res : ArrayOut α) : Prop :=
  ∃ block xs, block < 2 ^ 64 ∧ (block = 0 ↔ vs = []) ∧ List.Forall₂ R vs xs ∧
    res.memory = (memory.storeSize out.arraySize vs.length).storePointer out.array block ∧
    res.block = if vs = [] then none else some (block, xs)

section decodes
variable {α : Type} {R : Value → α → Prop} {vs : List Value} {out : OutPointers} {memory : Memory}
  {res : ArrayOut α}

theorem ArrayOut.Decodes.forall₂_elems (h : res.Decodes R vs out memory) :
    List.Forall₂ R vs res.elems := by
  obtain ⟨block, xs, -, -, hxs, -, hres⟩ := h
  by_cases hnil : vs = []
  · subst hnil
    cases hxs
    unfold ArrayOut.elems
    rw [hres, if_pos rfl]
    exact .nil
  · unfold ArrayOut.elems
    rw [hres, if_neg hnil]
    exact hxs

/-- The count the caller finds, after the pointer has been stored too. -/
theorem ArrayOut.Decodes.loadInt (h : res.Decodes R vs out memory) (hdisj : out.Disjoint) :
    res.memory.loadInt out.arraySize = Int32.ofNat vs.length := by
  obtain ⟨block, xs, -, -, -, hmemory, -⟩ := h
  rw [hmemory, Memory.loadInt_storePointer _ _ hdisj, Memory.loadInt_storeSize]

end decodes

/-- The body of the loop over the elements of an array record, each in its storage as `malloc` left it. -/
def elemBody {L α : Type} (elem : Value → Libavro.Handle → Nat → L → α → Prog (L × α)) (record : Value)
    (raw : Nat → α) (i : Nat) (l : L) : Prog (L × α) :=
  elem record (some [0]) i l (raw i)

/-- A pass of the loop: the body, whose element is stored behind the others. -/
def elemPass {L α : Type} (step : Nat → L → Prog (L × α)) (st : L × List α) (i : Nat) :
    Prog (L × List α) := do
  let (l, x) ← step i st.1
  pure (l, st.2 ++ [x])

section loop
variable {L α : Type} {R : Value → α → Prop} {vs : List Value} {step : Nat → L → Prog (L × α)}

/-- One pass of the loop per element, each decoding its own element, decodes the list. -/
theorem elemLoop_returns (locals : L)
    (hstep : ∀ i v, vs[i]? = some v → ∀ l w, Returns (step i l) w fun out _ => R v out.2) :
    Returns ((List.range vs.length).foldlM (elemPass step) (locals, [])) w fun out _ =>
      List.Forall₂ R vs out.2 := by
  -- after `i` passes, the first `i` elements are decoded
  refine (Returns.forRange (fun i (out : L × List α) _ => List.Forall₂ R (vs.take i) out.2)
    .nil ?_).mono fun out _ h => ?_
  · intro i hi out w hI
    have hget : vs[i]? = some vs[i] := List.getElem?_eq_getElem (by omega)
    refine (hstep i _ hget out.1 w).bind fun res _ hres => Returns.pure ?_
    rw [List.take_add_one, hget]
    exact List.rel_append hI (.cons hres .nil)
  · rwa [List.take_length] at h

variable (step) in
theorem elemLoop_stops {E : Halt → Prop} {n : Nat} (locals : L) (hn : n ≠ 0)
    (hfirst : ∀ w, Stops (step 0 locals) w E) :
    Stops ((List.range n).foldlM (elemPass step) (locals, [])) w E := by
  obtain ⟨n, rfl⟩ := Nat.exists_eq_succ_of_ne_zero hn
  rw [List.range_succ_eq_map, List.foldlM_cons]
  exact (hfirst w).bind_left.bind_left

end loop

section array
variable {L α : Type} {R : Value → α → Prop} {file field name : String} {items : Schema}
  {elem : Value → Libavro.Handle → Nat → L → α → Prog (L × α)} {vs : List Value} {sizeofElem : Nat}
  {locals : L} {slice : Slice} {out : OutPointers} {raw : Nat → α} {memory : Memory}
  (hlib : host.lib.Accessors)
include hlib

theorem byName_array :
    host.lib.byName (arrayRecord field items vs) (some []) field none = some [0] :=
  hlib.byName (i := 0) (Value.at?_nil _) (by simp) none

theorem storeSizeOf_array (p : Nat) :
    storeSizeOf host.lib (arrayRecord field items vs) (some [0]) p memory =
      memory.storeSize p vs.length := by
  have harray : (arrayRecord field items vs).at? [0] = some (.array items vs) := rfl
  simp only [storeSizeOf, Option.bind_some, hlib.getSize_array _ _ _ _ harray]

variable (hfiles : host.Installed)
  (hfile : (file, .record name [(field, .array items)]) ∈ schemaFiles)
  (hslice : slice.Holds host (.record name [(field, .array items)]) (arrayRecord field items vs))
  (hlen : vs.length ≤ intMax) (hdisj : out.Disjoint)
include hfiles hfile hslice hlen hdisj

theorem parseArray_returns (hmem : host.MallocSucceeds)
    (helem : ∀ i v, vs[i]? = some v → ∀ l old w,
      Returns (elem (arrayRecord field items vs) (some [0]) i l old) w fun out _ => R v out.2) :
    Returns (parseArray host file field sizeofElem locals elem slice out raw memory) w
      fun res _ => res.Decodes R vs out memory := by
  refine (readRecord_returns hlib hfiles hmem hfile hslice).bind fun _ _ h => ?_
  subst h
  simp only [byName_array hlib, storeSizeOf_array hlib, Memory.loadInt_storeSize, ofNat_eq_zero hlen,
    List.length_eq_zero_iff]
  by_cases hnil : vs = []
  · rw [if_pos hnil]
    subst hnil
    refine closeRecord_returns.bind fun _ _ _ => Returns.pure ?_
    exact ⟨0, [], by decide, by simp, .nil, rfl, rfl⟩
  · rw [if_neg hnil]
    refine (xmalloc_returns hmem _).bind fun block _ hblock => ?_
    rw [Memory.loadInt_storePointer _ _ hdisj, Memory.loadInt_storeSize, toInt_ofNat hlen,
      Int.toNat_natCast]
    refine (elemLoop_returns (R := R) locals fun i v hv l w => helem i v hv l (raw i) w).bind
      fun res _ hres => ?_
    refine closeRecord_returns.bind fun _ _ _ => Returns.pure ?_
    exact ⟨block, res.2, hblock.2, by simp [hblock.1, hnil], hres, rfl, by rw [if_neg hnil]⟩

theorem parseArray_stops (hmem : host.MallocSucceeds) {E : Halt → Prop} (hvs : vs ≠ [])
    (hfirst : ∀ w, Stops (elem (arrayRecord field items vs) (some [0]) 0 locals (raw 0)) w E) :
    Stops (parseArray host file field sizeofElem locals elem slice out raw memory) w E := by
  refine Stops.bind_right (readRecord_returns hlib hfiles hmem hfile hslice) fun _ _ h => ?_
  subst h
  simp only [byName_array hlib, storeSizeOf_array hlib, Memory.loadInt_storeSize, ofNat_eq_zero hlen,
    List.length_eq_zero_iff]
  rw [if_neg hvs]
  refine Stops.bind_right (xmalloc_returns hmem _) fun block _ _ => ?_
  rw [Memory.loadInt_storePointer _ _ hdisj, Memory.loadInt_storeSize, toInt_ofNat hlen,
    Int.toNat_natCast]
  have hn : vs.length ≠ 0 := by simpa using hvs
  exact (elemLoop_stops (elemBody elem (arrayRecord field items vs) raw) locals hn hfirst).bind_left

/-- The parser asks for its block after the two of the schema file, and fills it in one loop. -/
theorem parseArray_ensures :
    Ensures (parseArray host file field sizeofElem locals elem slice out raw memory) w fun res _ =>
      (vs = [] ∧ res = ⟨(memory.storeSize out.arraySize 0).storePointer out.array 0, none⟩) ∨
      (vs ≠ [] ∧ ∃ block l xs s s',
        block = host.malloc (w.allocs + 2) (mallocSize sizeofElem (Int32.ofNat vs.length)) ∧ block ≠ 0 ∧
        ((List.range vs.length).foldlM (elemPass (elemBody elem (arrayRecord field items vs) raw))
          (locals, [])).run s = .ok ((l, xs), s') ∧
        res = ⟨(memory.storeSize out.arraySize vs.length).storePointer out.array block,
          some (block, xs)⟩) := by
  refine (readRecord_ensures hfiles hfile).bind fun record w₁ ⟨hrecord, hallocs⟩ => ?_
  obtain rfl := hrecord.unique hslice
  simp only [byName_array hlib, storeSizeOf_array hlib, Memory.loadInt_storeSize, ofNat_eq_zero hlen,
    List.length_eq_zero_iff]
  by_cases hnil : vs = []
  · rw [if_pos hnil]
    subst hnil
    exact Ensures.after fun _ _ => Ensures.pure (.inl ⟨rfl, rfl⟩)
  · rw [if_neg hnil]
    refine (xmalloc_ensures _).bind fun block w₂ ⟨hblock, hnull, _⟩ => ?_
    rw [hallocs] at hblock
    rw [Memory.loadInt_storePointer _ _ hdisj, Memory.loadInt_storeSize, toInt_ofNat hlen,
      Int.toNat_natCast]
    refine Ensures.bind (fun out s' hrun => (hrun : _ = _)) fun out s' hloop => ?_
    refine Ensures.after fun _ _ => Ensures.pure (.inr ⟨hnil, block, out.1, out.2, w₂, s', hblock, hnull,
      hloop, rfl⟩)

end array

end HamsterAvro
