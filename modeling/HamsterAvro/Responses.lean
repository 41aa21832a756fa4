import HamsterAvro.ResponseSpec

/-!
# The response parsers

What a caller gets from the three response parsers: the list that was sent, from any encoding of it
(`parseResponse_lossless`); from which slices (`parseResponse_takesOne`); and what happens to the rest
of its memory (`parseResponse_preserves`).
-/

namespace HamsterAvro
open HamsterAvro.Wire HamsterAvro.Avro HamsterAvro.C

/-! ## What is returned -/

section returned
variable {α β : Type}

/-- The caller finds the length of the list at one pointer, and at the other null for the empty list
and otherwise a block whose elements are those of the list. -/
def ArrayOut.Returned (P : β → α → Prop) (xs : List β) (out : OutPointers) (res : ArrayOut α) : Prop :=
  (res.memory.loadInt out.arraySize).toInt = xs.length ∧
  (res.memory.loadPointer out.array = 0 ↔ xs = []) ∧
  ∃ ys, List.Forall₂ P xs ys ∧
    res.block = if xs = [] then none else some (res.memory.loadPointer out.array, ys)

variable {R : Value → α → Prop} {out : OutPointers} {memory : Memory} {res : ArrayOut α}

theorem ArrayOut.Decodes.returned {P : β → α → Prop} {toValue : β → Value} {xs : List β}
    (h : res.Decodes R (xs.map toValue) out memory) (hP : ∀ x y, R (toValue x) y → P x y)
    (hlen : xs.length ≤ intMax) (hdisj : out.Disjoint) : res.Returned P xs out := by
  have hcount := h.loadInt hdisj
  obtain ⟨block, ys, hblock, hnull, hys, hmemory, hres⟩ := h
  have hpointer : res.memory.loadPointer out.array = block := by
    rw [hmemory, Memory.loadPointer_storePointer _ _ hblock]
  refine ⟨?_, ?_, ys, ?_, ?_⟩
  · rw [hcount, List.length_map, toInt_ofNat hlen]
  · rw [hpointer, hnull, List.map_eq_nil_iff]
  · exact (List.forall₂_map_left_iff.mp hys).imp hP
  · rw [hpointer, hres]
    simp only [List.map_eq_nil_iff]

/-- Outside the two outputs, memory is as it was. -/
def ArrayOut.Preserves (out : OutPointers) (memory : Memory) (res : ArrayOut α) : Prop :=
  ∀ a : Nat, ¬ (out.arraySize ≤ a ∧ a < out.arraySize + 4) → ¬ (out.array ≤ a ∧ a < out.array + 8) →
    res.memory a = memory a

/-- The four bytes after the count are zero, but for those that belong to the result pointer. -/
def OutPointers.NeighbourZero (out : OutPointers) (memory : Memory) : Prop :=
  ∀ a : Nat, out.arraySize + 4 ≤ a → a < out.arraySize + 8 →
    ¬ (out.array ≤ a ∧ a < out.array + 8) → memory a = 0

theorem ArrayOut.Decodes.preserves_iff {vs : List Value} (h : res.Decodes R vs out memory)
    (hlen : vs.length ≤ intMax) : res.Preserves out memory ↔ out.NeighbourZero memory := by
  obtain ⟨block, ys, -, -, -, hmemory, -⟩ := h
  have houtside {a : Nat} (ha : ¬ (out.array ≤ a ∧ a < out.array + 8)) :
      res.memory a = memory.storeSize out.arraySize vs.length a := by
    rw [hmemory, Memory.storePointer_outside _ ha]
  have hzero {a : Nat} (hlow : out.arraySize + 4 ≤ a) (hhigh : a < out.arraySize + 8) :
      memory.storeSize out.arraySize vs.length a = 0 :=
    memory.storeSize_high (lt_of_le_of_lt hlen (by decide)) hlow hhigh
  constructor
  · intro hpreserves a hlow hhigh ha
    rw [← hpreserves a (by omega) ha, houtside ha, hzero hlow hhigh]
  · intro hneighbour a hcount ha
    rw [houtside ha]
    by_cases hwide : out.arraySize ≤ a ∧ a < out.arraySize + 8
    · rw [hzero (by omega) hwide.2, hneighbour a (by omega) hwide.2 ha]
    · exact memory.storeSize_outside hwide

end returned

/-! ### What is sent -/

structure NodeSlot where
  hostName : CString
  slot : Int32
  deriving DecidableEq

structure ProcessResult where
  procName : ProcessName
  state : ProcessState
  exitValue : Int32
  deriving DecidableEq

def NodeSlot.toValue (node : NodeSlot) : Value := nodeResourceValue node.hostName.bytes node.slot

def ProcessResult.toValue (result : ProcessResult) : Value :=
  processStatusValue result.procName result.state.ordinal result.exitValue

variable {host : Host} {w : World} {L α : Type} {file field name : String} {items : Schema}
  {sizeofElem : Nat} {locals : L} {elem : Value → Libavro.Handle → Nat → L → α → Prog (L × α)}
  {R : Value → α → Prop} {slice : Slice} {out : OutPointers} {raw : Nat → α} {memory : Memory}

section lossless
variable (hlib : host.lib.Accessors) (hfiles : host.Installed) (hmem : host.MallocSucceeds)
  (hreads : host.lib.ReadsFormat)
include hlib hfiles hmem hreads

/-- The list of a message at the front of the slice is returned. -/
theorem parseArray_returned {β : Type} {P : β → α → Prop} {toValue : β → Value} {xs : List β} {c : Checks}
    {word rest : Bytes} (hfile : (file, .record name [(field, .array items)]) ∈ schemaFiles)
    (hpos : 0 < items.minSize) (hdisj : out.Disjoint) (helem : ElemDecodes field items elem R)
    (hP : ∀ x y, R (toValue x) y → P x y) (hslice : slice.bytes = word ++ rest)
    (h : Encodes c (.record name [(field, .array items)]) (arrayRecord field items (xs.map toValue))
      word) :
    Returns (parseArray host file field sizeofElem locals elem slice out raw memory) w
      fun res _ => res.Returned P xs out := by
  have hlen := length_le_of_encodes hpos hslice h
  rw [List.length_map] at hlen
  exact (parseArray_accepts hlib hfiles hfile hpos hdisj helem hmem hreads hslice h).mono
    fun _ _ hres => hres.returned hP hlen hdisj

/-- From every encoding of a list, the list. -/
theorem parseResponse_lossless {out : OutPointers} (hdisj : out.Disjoint) (slice : Slice)
    (memory : Memory) :
    (∀ results raw, Encodes .full launchResponseRecordAvro
        (arrayRecord "results" launchResult (results.map launchResultValue)) slice.bytes →
      Returns (parseLaunchResponse host slice out raw memory) w
        fun res _ => res.Returned (fun result x => x = result) results out) ∧
    (∀ nodes raw, Encodes .full allocateResponseRecordAvro
        (arrayRecord "node_resources" nodeResource (nodes.map NodeSlot.toValue)) slice.bytes →
      Returns (parseAllocateResponse host slice out raw memory) w
        fun res _ => res.Returned
          (fun node x => x.hostName.cString = node.hostName ∧ x.slotNum = node.slot) nodes out) ∧
    (∀ results raw, Encodes .full heartBeatResponseRecordAvro
        (arrayRecord "completed_processes" processStatus (results.map ProcessResult.toValue))
        slice.bytes →
      Returns (parseHeartbeatResponse host slice out raw memory) w
        fun res _ => res.Returned
          (fun result x => x = ⟨result.procName, result.state.ordinal, result.exitValue⟩) results out) := by
  have hslice : slice.bytes = slice.bytes ++ [] := (List.append_nil _).symm
  refine ⟨fun results raw h => ?_, fun nodes raw h => ?_, fun results raw h => ?_⟩
  · refine parseArray_returned hlib hfiles hmem hreads launchResponse_mem (by decide) hdisj
      (parseLaunchResult_decodes hlib) (fun result x hx => ?_) hslice h
    exact (launchResultValue_inj hx).symm
  · refine parseArray_returned hlib hfiles hmem hreads allocateResponse_mem (by decide) hdisj
      (parseNodeResource_decodes hlib) (fun node x hx => ?_) hslice h
    obtain ⟨hostName, hx, -, hbytes⟩ := hx
    obtain ⟨rfl, hslot⟩ := nodeResourceValue_inj hx
    exact ⟨Block.cString_eq hbytes, hslot.symm⟩
  · refine parseArray_returned hlib hfiles hmem hreads heartBeatResponse_mem (by decide) hdisj
      (parseProcessStatus_decodes hlib) (fun result x hx => ?_) hslice h
    obtain ⟨procName, procState, exitValue⟩ := x
    obtain ⟨rfl, rfl, rfl⟩ := processStatusValue_inj hx
    rfl

end lossless

/-! ### Two elements in two blocks -/

/-- An array of two elements, the one in a plain block and the other in a block with its size. -/
def twoBlocks (u v : Value) : Bytes :=
  writeLong 1 ++ (encode u ++
    (writeLong (-1) ++ (writeLong (encode v).length ++ (encode v ++ writeLong 0))))

theorem encodes_twoBlocks {u v : Value} (hu : Conforms items u) (hv : Conforms items v)
    (hlen : (encode v).length < 2 ^ 63) :
    Encodes .full (.record name [(field, .array items)]) (arrayRecord field items [u, v])
      (twoBlocks u v) := by
  have hone {x : Value} (hx : Conforms items x) : Items (Encodes .full items) [x] (encode x) := by
    have := Items.cons (encodes_encode hx) .nil
    rwa [List.append_nil] at this
  have hdone : Blocks .full (Encodes .full items) 0 [] (writeLong 0) :=
    .done (longWord_writeLong (by decide) (by decide))
  have hplus : LongWord ([u].length : Int) (writeLong 1) :=
    (longWord_writeLong (by decide) (by decide) : LongWord 1 _)
  have hminus : LongWord (-([v].length : Int)) (writeLong (-1)) :=
    (longWord_writeLong (by decide) (by decide) : LongWord (-1) _)
  have hblocks := Blocks.sized (c := .full) (by simp) hminus (longWord_length hlen) rfl
    (hone hv) hdone
  exact encodes_arrayRecord.mpr ⟨[u, v], 2, rfl,
    .plain (by simp) hplus (hone hu) hblocks⟩

def sampleResults : List LaunchResponse := [⟨true, ⟨101, 1⟩⟩, ⟨false, ⟨101, -2⟩⟩]

def sampleNodes : List NodeSlot := [⟨.fill 5 0x68 (by decide), 2⟩, ⟨.fill 0 0x68 (by decide), -1⟩]

def sampleProcesses : List ProcessResult := [⟨⟨101, 1⟩, .completed, -9⟩, ⟨⟨101, 2⟩, .running, 0⟩]

/-- The launch response with the two results. -/
def splitResponse : Slice :=
  .ofBytes (twoBlocks (launchResultValue ⟨true, ⟨101, 1⟩⟩) (launchResultValue ⟨false, ⟨101, -2⟩⟩))
    (by decide +kernel)

theorem splitResponse_encodes : Encodes .full launchResponseRecordAvro
    (arrayRecord "results" launchResult (sampleResults.map launchResultValue)) splitResponse.bytes :=
  encodes_twoBlocks (launchResult_conforms _) (launchResult_conforms _) (by decide +kernel)

theorem splitResponse_holds : splitResponse.Holds Host.standard launchResponseRecordAvro
    (arrayRecord "results" launchResult (sampleResults.map launchResultValue)) :=
  Slice.holds_of_encodes Libavro.generic_readsFormat splitResponse_encodes

theorem splitResponse_accepted (memory : Memory) :
    Returns (parseLaunchResponse Host.standard splitResponse sampleOut (fun _ => ⟨false, ⟨0, 0⟩⟩) memory)
      World.initial fun _ _ => True :=
  parseArray_of_holds Libavro.generic_accessors Host.standard_installed launchResponse_mem (by decide)
    sampleOut_disjoint (parseLaunchResult_decodes Libavro.generic_accessors) Libavro.generic_readsSized
    Host.standard_mallocSucceeds splitResponse_holds

theorem parseResponse_lossless_sample :
    Returns (parseLaunchResponse Host.standard splitResponse sampleOut (fun _ => ⟨false, ⟨0, 0⟩⟩)
      fun _ => 0) World.initial
      (fun res _ => res.Returned (fun result x => x = result) sampleResults sampleOut) ∧
    (∃ slice, Returns (parseAllocateResponse Host.standard slice sampleOut (fun _ => ⟨⟨0, []⟩, 0⟩)
      fun _ => 0) World.initial
      fun res _ => res.Returned
        (fun node x => x.hostName.cString = node.hostName ∧ x.slotNum = node.slot) sampleNodes
        sampleOut) ∧
    (∃ slice, Returns (parseHeartbeatResponse Host.standard slice sampleOut
      (fun _ => ⟨⟨0, 0⟩, 0, 0⟩) fun _ => 0) World.initial
      fun res _ => res.Returned
        (fun result x => x = ⟨result.procName, result.state.ordinal, result.exitValue⟩)
        sampleProcesses sampleOut) := by
  have hlib : Host.standard.lib.Accessors := Libavro.generic_accessors
  have hparse (slice : Slice) := parseResponse_lossless (w := World.initial) hlib
    Host.standard_installed Host.standard_mallocSucceeds Libavro.generic_readsFormat
    sampleOut_disjoint slice fun _ => 0
  refine ⟨(hparse _).1 _ _ splitResponse_encodes, ?_, ?_⟩
  · refine ⟨.ofBytes (twoBlocks (nodeResourceValue (.replicate 5 0x68) 2) (nodeResourceValue [] (-1)))
      (by decide +kernel), (hparse _).2.1 sampleNodes _ ?_⟩
    exact encodes_twoBlocks (nodeResource_conforms 2 (by decide)) (nodeResource_conforms (-1) (by decide))
      (by decide +kernel)
  · refine ⟨.ofBytes (twoBlocks (processStatusValue ⟨101, 1⟩ 1 (-9)) (processStatusValue ⟨101, 2⟩ 0 0))
      (by decide +kernel), (hparse _).2.2 sampleProcesses _ ?_⟩
    exact encodes_twoBlocks (processStatus_conforms ⟨101, 1⟩ .completed (-9))
      (processStatus_conforms ⟨101, 2⟩ .running 0) (by decide +kernel)

/-! ## What is accepted -/

/-- The parser takes one record off the front of the slice, and does not look at what follows. -/
structure TakesOne {β : Type} (parse : Slice → Prog β) (schema : Schema) (w : World) : Prop where
  returns_iff : ∀ slice, Returns (parse slice) w (fun _ _ => True) ↔
    ∃ record word rest, slice.bytes = word ++ rest ∧ Encodes .none schema record word
  exits : ∀ slice, (¬ ∃ record word rest, slice.bytes = word ++ rest ∧ Encodes .none schema record word) →
    Stops (parse slice) w Halt.IsExit
  truncated : ∀ slice record t, Encodes .none schema record (slice.bytes ++ t) → t ≠ [] →
    Stops (parse slice) w Halt.IsExit
  extended : ∀ slice longer record rest, Encodes .none schema record slice.bytes →
    longer.bytes = slice.bytes ++ rest → (parse longer).run w = (parse slice).run w

section accepted
variable (hlib : host.lib.Accessors) (hfiles : host.Installed) (hmem : host.MallocSucceeds)
  (hreads : host.lib.ReadsExactly)
include hlib hfiles hmem hreads

theorem parseArray_takesOne
    (hfile : (file, .record name [(field, .array items)]) ∈ schemaFiles) (hpos : 0 < items.minSize)
    (hdisj : out.Disjoint) (helem : ElemDecodes field items elem R) :
    TakesOne (fun slice => parseArray host file field sizeofElem locals elem slice out raw memory)
      (.record name [(field, .array items)]) w := by
  have hholds (slice : Slice) (record : Value) :
      slice.Holds host (.record name [(field, .array items)]) record ↔ ∃ word rest,
        slice.bytes = word ++ rest ∧ Encodes .none (.record name [(field, .array items)]) record word :=
    Slice.holds_iff hreads
  have hexits (slice : Slice) (hslice : ¬ ∃ record word rest, slice.bytes = word ++ rest ∧
      Encodes .none (.record name [(field, .array items)]) record word) :
      Stops (parseArray host file field sizeofElem locals elem slice out raw memory) w Halt.IsExit :=
    parseArray_rejects hlib hfiles hfile hmem fun ⟨record, h⟩ => hslice ⟨record, (hholds slice record).mp h⟩
  refine ⟨fun slice => ⟨fun ⟨res, w', hrun, _⟩ => ?_, ?_⟩, hexits, ?_, ?_⟩
  · by_contra hslice
    exact (hexits slice hslice).not_ok res w' hrun
  · intro h
    obtain ⟨record, h⟩ := h
    exact parseArray_of_holds hlib hfiles hfile hpos hdisj helem hreads.readsSized hmem
      ((hholds slice record).mpr h)
  · intro slice record t h ht
    refine hexits slice fun ⟨record', word, rest, hbytes, h'⟩ => ?_
    exact (decode_reads _).not_of_truncated h ht hbytes h'
  · intro slice longer record rest h hlonger
    have := readRecord_extend (w := w) hlib hfiles hmem hfile hreads.toReadsFormat hlonger h
    simp only [parseArray, StateT.run_bind, this]

/-- All three parsers do. -/
theorem parseResponse_takesOne {out : OutPointers} (hdisj : out.Disjoint) (memory : Memory) :
    (∀ raw, TakesOne (fun slice => parseLaunchResponse host slice out raw memory)
      launchResponseRecordAvro w) ∧
    (∀ raw, TakesOne (fun slice => parseAllocateResponse host slice out raw memory)
      allocateResponseRecordAvro w) ∧
    (∀ raw, TakesOne (fun slice => parseHeartbeatResponse host slice out raw memory)
      heartBeatResponseRecordAvro w) := by
  refine ⟨fun raw => ?_, fun raw => ?_, fun raw => ?_⟩
  · exact parseArray_takesOne hlib hfiles hmem hreads launchResponse_mem (by decide) hdisj
      (parseLaunchResult_decodes hlib)
  · exact parseArray_takesOne hlib hfiles hmem hreads allocateResponse_mem (by decide) hdisj
      (parseNodeResource_decodes hlib)
  · exact parseArray_takesOne hlib hfiles hmem hreads heartBeatResponse_mem (by decide) hdisj
      (parseProcessStatus_decodes hlib)

end accepted

theorem parseResponse_takesOne_sample :
    TakesOne (fun slice => parseLaunchResponse Host.standard slice sampleOut
      (fun _ => ⟨false, ⟨0, 0⟩⟩) fun _ => 0) launchResponseRecordAvro World.initial :=
  (parseResponse_takesOne Libavro.generic_accessors Host.standard_installed
    Host.standard_mallocSucceeds Libavro.generic_readsExactly sampleOut_disjoint _).1 _

/-- A byte after the response with no elements: not a response, and accepted. -/
theorem parseLaunchResponse_accepts_extension :
    Encodes .full launchResponseRecordAvro (arrayRecord "results" launchResult []) emptyResponse.bytes ∧
    (¬ ∃ record, Encodes .none launchResponseRecordAvro record [0, 0]) ∧
    Returns (parseLaunchResponse Host.standard (.ofBytes [0, 0] (by decide)) sampleOut
      (fun _ => ⟨false, ⟨0, 0⟩⟩) fun _ => 0) World.initial fun _ _ => True := by
  have hempty : Encodes .full launchResponseRecordAvro (arrayRecord "results" launchResult [])
      emptyResponse.bytes := emptyResponse_encodes
  refine ⟨hempty, fun ⟨record, h⟩ => ?_, ?_⟩
  · exact absurd ((decode_reads _).prefix_free (t := [0]) hempty.to_none h) (by decide)
  · exact (parseLaunchResponse_empty [0] (by decide) _).mono fun _ _ _ => trivial

/-! ## What is written -/

section written
variable (hlib : host.lib.Accessors) (hfiles : host.Installed) (hsized : host.lib.ReadsSized)
include hlib hfiles hsized

theorem parseArray_preserves_iff
    (hfile : (file, .record name [(field, .array items)]) ∈ schemaFiles) (hpos : 0 < items.minSize)
    (hdisj : out.Disjoint) (helem : ElemDecodes field items elem R) {res : ArrayOut α} {w' : World}
    (hrun : (parseArray host file field sizeofElem locals elem slice out raw memory).run w =
      .ok (res, w')) : res.Preserves out memory ↔ out.NeighbourZero memory := by
  obtain ⟨vs, -, -, hlen, hres⟩ :=
    parseArray_holds hlib hfiles hfile hpos hdisj helem hsized hrun
  exact hres.preserves_iff hlen

/-- A parser that returns leaves the rest of memory alone exactly when the neighbour of the count was
zero: the `size_t` stored through the `int *` has zeros there. -/
theorem parseResponse_preserves {out : OutPointers} (hdisj : out.Disjoint) (slice : Slice)
    (memory : Memory) :
    (∀ raw res w', (parseLaunchResponse host slice out raw memory).run w = .ok (res, w') →
      (res.Preserves out memory ↔ out.NeighbourZero memory)) ∧
    (∀ raw res w', (parseAllocateResponse host slice out raw memory).run w = .ok (res, w') →
      (res.Preserves out memory ↔ out.NeighbourZero memory)) ∧
    (∀ raw res w', (parseHeartbeatResponse host slice out raw memory).run w = .ok (res, w') →
      (res.Preserves out memory ↔ out.NeighbourZero memory)) := by
  refine ⟨fun raw res w' hrun => ?_, fun raw res w' hrun => ?_, fun raw res w' hrun => ?_⟩
  · exact parseArray_preserves_iff hlib hfiles hsized launchResponse_mem (by decide) hdisj
      (parseLaunchResult_decodes hlib) hrun
  · exact parseArray_preserves_iff hlib hfiles hsized allocateResponse_mem (by decide) hdisj
      (parseNodeResource_decodes hlib) hrun
  · exact parseArray_preserves_iff hlib hfiles hsized heartBeatResponse_mem (by decide) hdisj
      (parseProcessStatus_decodes hlib) hrun

end written

/-- A memory of `0xFF` but for the four bytes after the count. -/
def sampleMemory : Memory := fun a => if 0x104 ≤ a ∧ a < 0x108 then 0 else 0xFF

theorem parseResponse_preserves_sample :
    ∃ res w', (parseLaunchResponse Host.standard splitResponse sampleOut (fun _ => ⟨false, ⟨0, 0⟩⟩)
        sampleMemory).run World.initial = .ok (res, w') ∧ res.Preserves sampleOut sampleMemory := by
  obtain ⟨res, w', hrun, -⟩ := splitResponse_accepted sampleMemory
  refine ⟨res, w', hrun, ((parseResponse_preserves Libavro.generic_accessors Host.standard_installed
    Libavro.generic_readsSized sampleOut_disjoint splitResponse sampleMemory).1 _ res w' hrun).mpr ?_⟩
  exact fun a hlow hhigh _ => if_pos ⟨hlow, hhigh⟩

/-- Over a neighbour that is not zero, four bytes are lost. -/
theorem parseLaunchResponse_overwrites_neighbour :
    ∃ res w', (parseLaunchResponse Host.standard emptyResponse sampleOut (fun _ => ⟨false, ⟨0, 0⟩⟩)
        fun _ => 0xFF).run World.initial = .ok (res, w') ∧ ¬ res.Preserves sampleOut fun _ => 0xFF := by
  obtain ⟨res, w', hrun, hres⟩ := parseLaunchResponse_empty [] (by decide) fun _ => 0xFF
  refine ⟨res, w', hrun, fun h => ?_⟩
  have hneighbour := (hres.preserves_iff (by decide)).mp h
  exact absurd (hneighbour 0x104 (by decide) (by decide) (by decide)) (by decide)

end HamsterAvro
