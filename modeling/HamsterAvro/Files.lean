import HamsterAvro.Answers
import HamsterAvro.ResponseCounts
import Mathlib.Logic.Function.Basic

/-!
# Slices in files

`write_slice_to_file` and `read_file_to_slice` of `common.c` on the bytes of the files, a file being
identified by its name. In any sequence of the two, over any file names, what is read from a file is what
was last written to it (`fileCalls_refines`). The length of a file goes through an `int`: it is read whole
exactly if it has no more bytes than an `int` counts. A schema file is read as `Common` has it
(`readFileToSlice_schema`).
-/

namespace HamsterAvro
open HamsterAvro.Wire HamsterAvro.Avro HamsterAvro.C

/-- What is in each file that is there. -/
abbrev Files := String → Option Bytes

/-- A slice that was filled from a file: its `len`, and what was stored in its buffer. -/
structure FileSlice where
  self : Addr
  buffer : Addr
  len : Int32
  bytes : Bytes

namespace Files

/-- `writable` are the files that `fopen` opens for writing; the rest stays removed. -/
def writeSliceToFile (writable : String → Bool) (filename : String) (slice : Slice) (files : Files) :
    Prog Files :=
  let files := Function.update files filename none
  if writable filename then pure (Function.update files filename (some slice.bytes))
  else throw (.exit (filename ++ " : Open file failed."))

/-- `len` is an `int`: the result of `ftell` is narrowed, and widened to a `size_t` for `malloc` and
`fread`. -/
def readFileToSlice (host : Host) (filename : String) (files : Files) : Prog FileSlice :=
  match files filename with
  | none => throw (.exit (filename ++ " : Open file failed."))
  | some content => do
    let self ← xmalloc host sizeofSlice
    let len := Int32.ofNat content.length
    let buffer ← xmalloc host (mallocSize 1 len)
    pure { self, buffer, len, bytes := content.take (mallocSize 1 len) }

end Files

/-! ## Runs -/

inductive FileCall where
  | write (filename : String) (slice : Slice)
  | read (filename : String)

/-- The files, and the slices read so far. -/
structure FileState where
  files : Files
  slices : List FileSlice

section host
variable (host : Host) (writable : String → Bool)

def FileCall.step (st : FileState) : FileCall → Prog FileState
  | .write filename slice => do
    let files ← st.files.writeSliceToFile writable filename slice
    pure { st with files }
  | .read filename => do
    let slice ← st.files.readFileToSlice host filename
    pure { st with slices := st.slices ++ [slice] }

def fileCalls (calls : List FileCall) (files : Files) : Prog FileState :=
  calls.foldlM (FileCall.step host writable) ⟨files, []⟩

end host

/-! ## What is read -/

/-- The bytes a call writes to a file. -/
def FileCall.written (filename : String) : FileCall → Option Bytes
  | .write name slice => if name = filename then some slice.bytes else none
  | .read _ => none

/-- What was last written to a file, or was in it before. -/
def lastWritten (files : Files) (calls : List FileCall) (filename : String) : Option Bytes :=
  (calls.reverse.findSome? (FileCall.written filename)).or (files filename)

/-- The calls that were made, and what they had to deliver. -/
structure FileRecord where
  calls : List FileCall
  delivered : List Bytes

/-- A read delivers what was last written, if there is anything. -/
def FileCall.deliver (writable : String → Bool) (files : Files) (t : FileRecord) :
    FileCall → Except Fault FileRecord
  | .write filename slice =>
    if writable filename then .ok { t with calls := t.calls ++ [.write filename slice] } else .error .exits
  | .read filename =>
    match lastWritten files t.calls filename with
    | none => .error .exits
    | some content => .ok ⟨t.calls ++ [.read filename], t.delivered ++ [content]⟩

def deliveries (writable : String → Bool) (files : Files) (calls : List FileCall) :
    Except Fault FileRecord :=
  calls.foldlM (FileCall.deliver writable files) ⟨[], []⟩

/-- A slice that was read from a file with this content: all of it exactly if an `int` counts it. -/
structure FileSlice.ReadFrom (content : Bytes) (s : FileSlice) : Prop where
  len : s.len = Int32.ofNat content.length
  bytes : s.bytes = content.take (mallocSize 1 s.len)
  whole_iff : s.len.toInt = content.length ∧ s.bytes = content ↔ content.length ≤ intMax

structure FileState.Delivers (files : Files) (st : FileState) (t : FileRecord) : Prop where
  files : ∀ filename, st.files filename = lastWritten files t.calls filename
  slices : List.Forall₂ FileSlice.ReadFrom t.delivered st.slices

theorem lastWritten_append (files : Files) (calls : List FileCall) (call : FileCall) (filename : String) :
    lastWritten files (calls ++ [call]) filename =
      (call.written filename).or (lastWritten files calls filename) := by
  unfold lastWritten
  rw [List.reverse_append, List.reverse_singleton, List.singleton_append, List.findSome?_cons]
  cases call.written filename <;> rfl

theorem FileSlice.ReadFrom.of_len {content : Bytes} {s : FileSlice}
    (hlen : s.len = Int32.ofNat content.length) (hbytes : s.bytes = content.take (mallocSize 1 s.len)) :
    s.ReadFrom content := by
  refine ⟨hlen, hbytes, fun h => ?_, fun h => ?_⟩
  · have hlt := Int32.toInt_lt s.len
    have heq := h.1
    unfold intMax
    omega
  · rw [hbytes, hlen, toInt_ofNat h, (mallocSize_ofNat (by decide) h).2, one_mul, List.take_length]
    exact ⟨rfl, rfl⟩

section host
variable {host : Host} {writable : String → Bool} {files : Files} {st : FileState} {t : FileRecord}

theorem readFileToSlice_returns (hmem : host.MallocSucceeds) {filename : String} {content : Bytes}
    (h : files filename = some content) (w : World) :
    Returns (files.readFileToSlice host filename) w fun s _ => s.ReadFrom content := by
  unfold Files.readFileToSlice
  rw [h]
  refine (xmalloc_returns hmem _).bind fun self _ _ => ?_
  exact (xmalloc_returns hmem _).bind fun buffer _ _ => Returns.pure (.of_len rfl rfl)

theorem FileCall.step_refines (hmem : host.MallocSucceeds) (call : FileCall) (h : st.Delivers files t) :
    Refines Halt.Is (call.step host writable st) (FileState.Delivers files)
      (call.deliver writable files t) := by
  cases call with
  | write filename slice =>
    unfold step deliver Files.writeSliceToFile
    by_cases hwritable : writable filename
    · simp only [if_pos hwritable]
      refine fun w => Returns.pure ⟨fun name => ?_, h.slices⟩
      rw [lastWritten_append, ← h.files name]
      by_cases hname : filename = name
      · subst hname
        simp [written]
      · simp [written, hname, Function.update_of_ne (Ne.symm hname)]
    · simp only [if_neg hwritable]
      exact fun w => (throw_exit_stops _).bind_left
  | read filename =>
    have hlast := h.files filename
    cases hcontent : st.files filename with
    | none =>
      rw [hcontent] at hlast
      simp only [step, deliver, ← hlast, Files.readFileToSlice, hcontent]
      exact fun w => (throw_exit_stops _).bind_left
    | some content =>
      rw [hcontent] at hlast
      simp only [step, deliver, ← hlast]
      refine fun w => (readFileToSlice_returns hmem hcontent w).bind fun s _ hs => Returns.pure ?_
      refine ⟨fun name => ?_, List.rel_append h.slices (.cons hs .nil)⟩
      rw [lastWritten_append, ← h.files name]
      rfl

/-- A sequence of writes and reads reads what was last written. -/
theorem fileCalls_refines (hmem : host.MallocSucceeds) (writable : String → Bool) (files : Files)
    (calls : List FileCall) :
    Refines Halt.Is (fileCalls host writable calls files) (FileState.Delivers files)
      (deliveries writable files calls) :=
  Refines.foldlM (fun call _ _ _ h => call.step_refines hmem h) ⟨fun _ => rfl, .nil⟩

/-- A schema file that an `int` counts, with what libavro makes of its text. -/
theorem readFileToSlice_schema {parse : Bytes → Option Schema} {filename : String}
    (hfopen : host.fopen filename = (files filename).map fun content => ⟨content.length, parse content⟩)
    (hlen : ∀ content, files filename = some content → content.length ≤ intMax) :
    readFileToSlice host filename = (do
      let s ← files.readFileToSlice host filename
      pure (s.self, s.buffer, ⟨s.bytes.length, parse s.bytes⟩)) := by
  unfold readFileToSlice Files.readFileToSlice
  rw [hfopen]
  cases hcontent : files filename with
  | none => rfl
  | some content =>
    have hsize : mallocSize 1 (Int32.ofNat content.length) = content.length := by
      rw [(mallocSize_ofNat (by decide) (hlen content hcontent)).2, one_mul]
    simp [hsize]

end host

/-! ### The names of the schema files -/

/-- The size of the buffers that the names of the schema files are put together in. -/
def fileNameLen : Nat := 256

/-- They fit, with their terminator. -/
theorem schemaFiles_fit :
    ∀ entry ∈ schemaFiles, (schemaPath ++ "/" ++ entry.1).utf8ByteSize < fileNameLen := by
  decide

/-! ### One run, on the standard host -/

def sampleFileCalls : List FileCall :=
  [.write "request" emptyResponse, .write "response" (.ofBytes [1, 2] (by decide)),
   .write "request" (.ofBytes [7] (by decide)), .read "request", .read "response"]

theorem fileCalls_refines_sample :
    Returns (fileCalls Host.standard (fun _ => true) sampleFileCalls fun _ => none) World.initial
      fun st _ => st.Delivers (fun _ => none) ⟨sampleFileCalls, [[7], [1, 2]]⟩ := by
  have hdeliveries : deliveries (fun _ => true) (fun _ => none) sampleFileCalls =
      .ok ⟨sampleFileCalls, [[7], [1, 2]]⟩ := by rfl
  have hrefines := fileCalls_refines Host.standard_mallocSucceeds (fun _ => true) (fun _ => none)
    sampleFileCalls
  rw [hdeliveries] at hrefines
  exact hrefines World.initial

end HamsterAvro
