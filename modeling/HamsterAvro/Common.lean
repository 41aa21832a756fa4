import HamsterAvro.Avro.Libavro
import HamsterAvro.C.Prog
import HamsterAvro.Schemas
import Mathlib.Algebra.Group.Pi.Basic

/-!
# The common part of the builders and parsers

What the library runs on is a `Host`: libavro, the schema files and `malloc`. A call is a `Prog`: it
keeps the ledger of libavro objects acquired and not released, the number of `malloc` calls so far and
the blocks given to `free`, and it may stop, by `exit(1)` or where C says nothing about what happens.

Every builder is `buildRequest` with its own file and its own way to fill the record, every response
parser is `parseAcknowledgement` or `parseArray` with its own file, field and loop body.
-/

namespace HamsterAvro
open HamsterAvro.Wire HamsterAvro.Avro HamsterAvro.C

/-! ## The machine -/

/-- The kinds of libavro objects that are acquired and released. -/
inductive LibObject where
  | schema
  | valueClass
  | value
  | writer
  | reader
  deriving DecidableEq

abbrev Ledger := LibObject → Int

structure World where
  ledger : Ledger
  allocs : Nat
  frees : List Addr

def World.initial : World := ⟨0, 0, []⟩

inductive Halt where
  /-- `exit(1)` after a message on `stderr`. -/
  | exit (message : String)
  /-- Undefined behaviour. -/
  | undefined

def Halt.IsExit : Halt → Prop
  | .exit _ => True
  | .undefined => False

abbrev Prog := StateT World (Except Halt)

/-- A schema file as libavro sees it: `none` where the text is not a schema. -/
structure SchemaFile where
  length : Nat
  schema : Option Schema

structure Host where
  lib : Libavro
  fopen : String → Option SchemaFile
  /-- The address the `k`-th call returns for a size, `0` when it fails. -/
  malloc : (k size : Nat) → Nat
  malloc_lt : ∀ k size, malloc k size < 2 ^ 64

def acquire (object : LibObject) : Prog Unit :=
  modify fun w => { w with ledger := w.ledger + Pi.single object 1 }

def release (object : LibObject) : Prog Unit :=
  modify fun w => { w with ledger := w.ledger - Pi.single object 1 }

/-- It may be given a block of `malloc` and, as `allocate.c` does, a buffer of `avro_value_get_string`. -/
def free (p : Addr) : Prog Unit :=
  modify fun w => { w with frees := w.frees ++ [p] }

/-- `if (p) free(p)` -/
def freeIfSet (p : Addr) : Prog Unit := if p = 0 then pure () else free p

/-! ## `constants.h` and `common.c` -/

def schemaPath : String := "/Users/caoj7/program/hamster-avro/schema"

def bufferSize : Nat := 8192

/-- An `avro_slice_t` and its buffer. -/
structure Slice where
  self : Addr
  buffer : Addr
  bytes : Bytes
  len_le : bytes.length ≤ intMax

def Slice.len (slice : Slice) : Nat := slice.bytes.length

def Slice.ofBytes (bytes : Bytes) (h : bytes.length ≤ intMax) : Slice := ⟨0x10, 0x20, bytes, h⟩

def sizeofSlice : Nat := 16

structure ProcessName where
  jobid : Int32
  vpid : Int32
  deriving DecidableEq

section host
variable (host : Host)

def xmalloc (size : Nat) : Prog Addr := do
  let w ← get
  let p := host.malloc w.allocs size
  set { w with allocs := w.allocs + 1 }
  if p = 0 then throw (.exit "malloc failed.") else pure p

/-- The slice of a schema file: its own block, the block of its buffer, and what is in it. -/
def readFileToSlice (filename : String) : Prog (Addr × Addr × SchemaFile) :=
  match host.fopen filename with
  | none => throw (.exit (filename ++ " : Open file failed."))
  | some file => do
    let self ← xmalloc host sizeofSlice
    let buffer ← xmalloc host file.length
    pure (self, buffer, file)

def freeSliceBlocks (self buffer : Addr) : Prog Unit := do
  freeIfSet buffer
  freeIfSet self

def freeSlice (slice : Slice) : Prog Unit := freeSliceBlocks slice.self slice.buffer

def initSchema (filename : String) : Prog Schema := do
  let (self, buffer, file) ← readFileToSlice host filename
  match file.schema with
  | none => throw (.exit "Unable to parse schema. ")
  | some schema => do
    acquire .schema
    freeSliceBlocks self buffer
    pure schema

/-! ## The builders -/

/-- What every builder does before it fills the record: schema, value class, new value. -/
def newRecord (file : String) : Prog (Schema × Value) := do
  let schema ← initSchema host (schemaPath ++ "/" ++ file)
  acquire .valueClass
  acquire .value
  pure (schema, host.lib.genericValueNew schema)

/-- The two objects the builders and parsers give back. -/
def closeRecord : Prog Unit := do
  release .valueClass
  release .schema

/-- The record is written into a buffer on the stack of `bufferSize` bytes, of which what was written
is copied into a new slice. -/
def buildRequest {β : Type} (file unable : String) (fill : Value → Prog (Value × β)) :
    Prog (Slice × β) := do
  let (_, record) ← newRecord host file
  let (record, b) ← fill record
  acquire .writer
  match host.lib.valueWrite bufferSize record with
  | none => throw (.exit unable)
  | some buf => do
    closeRecord
    let self ← xmalloc host sizeofSlice
    let buffer ← xmalloc host buf.val.length
    pure (⟨self, buffer, buf.val, le_trans buf.property (by decide)⟩, b)

/-! ## The parsers -/

def readRecord (file : String) (slice : Slice) : Prog Value := do
  let (schema, _) ← newRecord host file
  acquire .reader
  match host.lib.valueRead schema slice.bytes with
  | none => throw (.exit "Unable to read record from memory buffer")
  | some (record, _) => pure record

def parseAcknowledgement (file : String) (slice : Slice) : Prog Int32 := do
  let record ← readRecord host file slice
  let size := host.lib.sizeOr record (some []) 0
  closeRecord
  if size = 0 then pure 0 else pure (-1)

/-- Where the caller wants the number of elements (an `int`) and the array (a pointer). -/
structure OutPointers where
  arraySize : Nat
  array : Nat

/-- The two objects do not overlap. -/
def OutPointers.Disjoint (out : OutPointers) : Prop :=
  out.arraySize + 4 ≤ out.array ∨ out.array + 8 ≤ out.arraySize

/-- The caller's memory after a parser, and the block the parser allocated, with its elements. -/
structure ArrayOut (α : Type) where
  memory : Memory
  block : Option (Addr × List α)

/-- The pointer a parser stored. -/
def ArrayOut.pointer {α : Type} (res : ArrayOut α) : Addr := (res.block.map Prod.fst).getD 0

def ArrayOut.elems {α : Type} (res : ArrayOut α) : List α := (res.block.map Prod.snd).getD []

/-- `avro_value_get_size(&elems, p)`: a `size_t` is stored. -/
def storeSizeOf (lib : Libavro) (record : Value) (elems : Libavro.Handle) (p : Nat) (memory : Memory) :
    Memory :=
  match elems.bind (lib.getSize record) with
  | some n => memory.storeSize p n
  | none => memory

/-- `sizeof(element) * n` with `n` an `int`, as a `size_t`. -/
def mallocSize (sizeofElem : Nat) (n : Int32) : Nat := (sizeofElem * n.toInt % 2 ^ 64).toNat

/-- The loop body is given the index, the locals, and the element as `malloc` left it. -/
def parseArray {L α : Type} (file field : String) (sizeofElem : Nat) (locals : L)
    (elem : Value → Libavro.Handle → Nat → L → α → Prog (L × α)) (slice : Slice) (out : OutPointers)
    (raw : Nat → α) (memory : Memory) : Prog (ArrayOut α) := do
  let record ← readRecord host file slice
  let elems := host.lib.byName record (some []) field none
  let memory := storeSizeOf host.lib record elems out.arraySize memory
  if memory.loadInt out.arraySize = 0 then do
    closeRecord
    pure ⟨memory.storePointer out.array 0, none⟩
  else do
    let block ← xmalloc host (mallocSize sizeofElem (memory.loadInt out.arraySize))
    let memory := memory.storePointer out.array block
    let (_, xs) ← (List.range (memory.loadInt out.arraySize).toInt.toNat).foldlM
      (fun (l, xs) i => do
        let (l, x) ← elem record elems i l (raw i)
        pure (l, xs ++ [x])) (locals, [])
    closeRecord
    pure ⟨memory, some (block, xs)⟩

end host

/-! ## What the host is taken to provide -/

/-- Every schema file is in its place. -/
def Host.Installed (host : Host) : Prop :=
  ∀ entry ∈ schemaFiles, ∃ length,
    host.fopen (schemaPath ++ "/" ++ entry.1) = some ⟨length, some entry.2⟩

def Host.MallocSucceeds (host : Host) : Prop := ∀ k size, host.malloc k size ≠ 0

/-- The repository's schema files over the library `Libavro.generic`, with memory for every request. -/
def Host.standard : Host where
  lib := .generic
  fopen filename :=
    (schemaFiles.find? fun entry => schemaPath ++ "/" ++ entry.1 == filename).map fun entry =>
      ⟨4096, some entry.2⟩
  malloc k _ := 0x10000 + k % 2 ^ 32
  malloc_lt k _ := by omega

theorem Host.standard_mallocSucceeds : Host.standard.MallocSucceeds := by
  intro k size
  simp only [Host.standard]
  omega

theorem Host.standard_installed : Host.standard.Installed := by
  intro entry hentry
  refine ⟨4096, ?_⟩
  have hpath : ∀ e : String × Schema,
      (schemaPath ++ "/" ++ e.1 == schemaPath ++ "/" ++ entry.1) = (e.1 == entry.1) := by
    intro e
    rw [Bool.eq_iff_iff, beq_iff_eq, beq_iff_eq]
    exact String.append_right_inj _
  simp only [Host.standard, hpath, find?_schemaFiles entry hentry, Option.map_some]

end HamsterAvro
