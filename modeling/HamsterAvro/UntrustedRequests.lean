import HamsterAvro.Acknowledgement
import HamsterAvro.Relay
import HamsterAvro.RoundTrip

/-!
# Requests that no builder wrote

The parsers of the allocate and the finish request and of the wrapper take one record of their schema off
the front of the slice and return what the record says, or exit: a wrapper whatever it wraps and whatever
its type. The parser of the launch request gets to the end of a record without contexts only
(`parseRequest_takesRecord`). What a launch request says can be built again all the same, in no more bytes
than it had (`buildLaunchRequest_cuts`).
-/

namespace HamsterAvro
open HamsterAvro.Wire HamsterAvro.Avro HamsterAvro.C

/-- The parser returns what the record in the slice says, and exits where there is none. -/
structure TakesRecord {β : Type} (host : Host) (schema : Schema) (parse : Slice → Prog β)
    (Says : Value → β → Prop) : Prop where
  returns : ∀ slice record w, slice.Holds host schema record →
    Returns (parse slice) w fun b _ => Says record b
  exits : ∀ slice w, (¬ ∃ record, slice.Holds host schema record) → Stops (parse slice) w Halt.IsExit

/-- Where it returned, there was a record. -/
theorem TakesRecord.of_run {β : Type} {host : Host} {schema : Schema} {parse : Slice → Prog β}
    {Says : Value → β → Prop} (h : TakesRecord host schema parse Says) {slice : Slice} {b : β}
    {w w' : World} (hrun : (parse slice).run w = .ok (b, w')) :
    ∃ record, slice.Holds host schema record ∧ Says record b := by
  by_cases hholds : ∃ record, slice.Holds host schema record
  · obtain ⟨record, hholds⟩ := hholds
    exact ⟨record, hholds, (h.returns slice record w hholds).of_run hrun⟩
  · exact absurd hrun ((h.exits slice w hholds).not_ok b w')

/-! ## Launch contexts -/

/-- A launch context as a message has it. -/
structure ContextRecord where
  enVars : List Bytes
  args : Bytes
  hostName : Bytes
  procName : ProcessName
  deriving DecidableEq

def ContextRecord.toValue (context : ContextRecord) : Value :=
  .record
    [("en_vars", .array .string (context.enVars.map .string)), ("args", .string context.args),
     ("host_name", .string context.hostName), ("name", context.procName.toValue)]

/-- What is left of it where strings are C strings. -/
def ContextRecord.cut (context : ContextRecord) : LaunchItem where
  enVars := context.enVars.map .ofBytes
  args := .ofBytes context.args
  hostName := .ofBytes context.hostName
  procName := context.procName

/-- Its strings are C strings. -/
def ContextRecord.NulFree (context : ContextRecord) : Prop :=
  (∀ str ∈ context.enVars, 0 ∉ str) ∧ 0 ∉ context.args ∧ 0 ∉ context.hostName

def launchRequestRecordOf (contexts : List ContextRecord) : Value :=
  launchRequestOf (contexts.map ContextRecord.toValue)

/-! ### The context records are the values of the schema -/

theorem shapes_launchContext {v : Value} (h : launchContext.Shapes v) :
    ∃ context : ContextRecord, v = context.toValue := by
  obtain ⟨_, rfl, _, _, rfl, ⟨vs, rfl, hvs⟩, _, _, rfl, ⟨args, rfl⟩, _, _, rfl, ⟨hostName, rfl⟩, _, _, rfl,
    hname, rfl⟩ := h
  obtain ⟨name, rfl⟩ := shapes_processName hname
  obtain ⟨strs, rfl⟩ := exists_map_of_forall hvs
  exact ⟨⟨strs, args, hostName, name⟩, rfl⟩

theorem Slice.Holds.exists_contexts {host : Host} (hsized : host.lib.ReadsSized) {slice : Slice}
    {record : Value} (h : slice.Holds host launchRequestRecordAvro record) :
    ∃ contexts, record = launchRequestRecordOf contexts := by
  obtain ⟨vs, rfl, hvs, -⟩ := h.exists_elems hsized
  obtain ⟨contexts, rfl⟩ := exists_map_of_forall fun v hv => shapes_launchContext (hvs v hv)
  exact ⟨contexts, rfl⟩

/-! ### What is cut -/

theorem ContextRecord.cut_toValue_eq_iff {context : ContextRecord} :
    context.cut.toValue = context.toValue ↔ context.NulFree := by
  simp only [cut, toValue, LaunchItem.toValue, launchContextValue, NulFree, Value.record.injEq,
    Value.array.injEq, Value.string.injEq, List.cons.injEq, Prod.mk.injEq, true_and, and_true,
    List.map_map, List.map_inj_left, Function.comp_apply, CString.bytes_ofBytes_eq_iff]

/-- The cut request is the request exactly where there is nothing to cut. -/
theorem launchRequestValue_cut_eq_iff {contexts : List ContextRecord} :
    launchRequestValue (contexts.map ContextRecord.cut) = launchRequestRecordOf contexts ↔
      ∀ context ∈ contexts, context.NulFree := by
  simp only [launchRequestValue, launchRequestRecordOf, launchRequestOf, Value.record.injEq,
    Value.array.injEq, List.cons.injEq, Prod.mk.injEq, true_and, and_true, List.map_map,
    List.map_inj_left, Function.comp_apply, ContextRecord.cut_toValue_eq_iff]

/-! ## What each parser returns -/

def SaysAllocate (record : Value) (resourceCount : Int32) : Prop :=
  record = allocateRequestValue resourceCount

/-- The diagnostics are handed out with a terminator. -/
def SaysFinish (record : Value) (res : Bool × Block) : Prop :=
  ∃ diagnostics, record = .record [("succeed", .boolean res.1), ("diagnostics", .string diagnostics)] ∧
    res.2.bytes = diagnostics ++ [0]

/-- The inner bytes are handed out whole, with their number, and the ordinal as it was sent. -/
def SaysWrapped (record : Value) (inner : InnerRequest) : Prop :=
  record = .record [("request", .bytes inner.buffer.bytes), ("msg_type", .enum inner.msgType)] ∧
    inner.len.toInt = inner.buffer.bytes.length

/-- The parser of the launch request returns on a request without contexts, with the count `0`, the null
pointer and no block. With any context the store of a `size_t` into its `int` is undefined. -/
structure TakesNoContexts (host : Host) (out : OutPointers) (parse : Slice → Prog (ArrayOut ParsedContext)) :
    Prop where
  returns : ∀ slice w, slice.Holds host launchRequestRecordAvro (launchRequestRecordOf []) →
    Returns (parse slice) w fun res _ => res.memory.loadInt out.arraySize = 0 ∧
      res.memory.loadPointer out.array = 0 ∧ res.block = none
  overruns : ∀ slice contexts w, contexts ≠ [] →
    slice.Holds host launchRequestRecordAvro (launchRequestRecordOf contexts) →
    Stops (parse slice) w (· = .undefined)
  exits : ∀ slice w,
    (¬ ∃ contexts, slice.Holds host launchRequestRecordAvro (launchRequestRecordOf contexts)) →
    Stops (parse slice) w Halt.IsExit

section parsers
variable {host : Host} (hlib : host.lib.Accessors) (hfiles : host.Installed) (hmem : host.MallocSucceeds)
include hlib hfiles hmem

theorem parseLaunchRequest_takesNoContexts (hsized : host.lib.ReadsSized) {out : OutPointers}
    (hdisj : out.Disjoint) (raw : Nat → ParsedContext) (oldCells : Nat → Nat → Block) (memory : Memory) :
    TakesNoContexts host out (fun slice => parseLaunchRequest host slice out raw oldCells memory) where
  returns slice w h := by
    refine (parseLaunchRequest_empty (P := fun (_ : ContextRecord) _ => True) hlib hfiles hmem hdisj raw
      oldCells memory h).mono fun res _ hres => ?_
    obtain ⟨hcount, hnull, _, -, hblock⟩ := hres
    exact ⟨Int32.toInt_inj.mp hcount, hnull.mpr rfl, hblock.trans (if_pos rfl)⟩
  overruns slice contexts w hcontexts h := by
    obtain ⟨vs, heq, hvs, hbound⟩ := h.exists_elems hsized
    obtain rfl := arrayRecord_inj heq
    exact parseLaunchRequest_undefined hlib hfiles hmem hdisj raw oldCells memory h
      (slice.length_le (by decide) hbound) hvs (by simpa using hcontexts)
  exits slice w h := by
    refine parseArray_rejects hlib hfiles launchRequest_mem hmem fun ⟨record, hholds⟩ => ?_
    obtain ⟨contexts, rfl⟩ := hholds.exists_contexts hsized
    exact h ⟨contexts, hholds⟩

theorem parseAllocateRequest_takesRecord (hsized : host.lib.ReadsSized) (old : Int32) :
    TakesRecord host allocateRequestRecordAvro (fun slice => parseAllocateRequest host slice old)
      SaysAllocate where
  returns slice record w h := by
    obtain ⟨_, rfl, _, _, rfl, ⟨n, rfl⟩, rfl⟩ := h.shapes hsized
    refine (parseAllocateRequest_reads hlib hfiles hmem h old).mono fun n' _ hn => ?_
    rw [hn]
    rfl
  exits slice w h := (readRecord_stops hlib hfiles hmem allocateRequest_mem h).bind_left

theorem parseFinishRequest_takesRecord (hsized : host.lib.ReadsSized) (old : Bool × Block) :
    TakesRecord host finishRequestRecordAvro (fun slice => parseFinishRequest host slice old)
      SaysFinish where
  returns slice record w h := by
    obtain ⟨_, rfl, _, _, rfl, ⟨succeed, rfl⟩, _, _, rfl, ⟨diagnostics, rfl⟩, rfl⟩ := h.shapes hsized
    refine (parseFinishRequest_reads hlib hfiles hmem h old).mono fun res _ hres => ?_
    exact ⟨diagnostics, by rw [hres.1], hres.2⟩
  exits slice w h := (readRecord_stops hlib hfiles hmem finishRequest_mem h).bind_left

/-- The number of inner bytes is below the length of the slice, so it is an `int`. -/
theorem parseHnpRequestWrapper_takesRecord (hreads : host.lib.RejectsMalformed)
    (old : (Block × Nat) × Int32) :
    TakesRecord host hamsterHnpRequestRecordAvro (fun slice => parseHnpRequestWrapper host slice old)
      SaysWrapped where
  returns slice record w h := by
    have hshort := h.length_encode_le hreads
    obtain ⟨_, rfl, _, _, rfl, ⟨inner, rfl⟩, _, _, rfl, ⟨k, rfl⟩, rfl⟩ := h.shapes hreads.readsSized
    have hlen : inner.length ≤ intMax := by
      have hcounted := le_countedSize inner.length
      have hslice := slice.len_le
      simp only [length_encode_record, List.map_cons, List.sum_cons, length_encode_bytes] at hshort
      unfold Slice.len at hshort
      omega
    refine (parseHnpRequestWrapper_reads hlib hfiles hmem h hlen old).mono fun res _ hres => ?_
    obtain ⟨hbuffer, hsize, hordinal⟩ := hres
    exact ⟨by rw [hbuffer, hordinal], by rw [hsize, hbuffer]⟩
  exits slice w h := (readRecord_stops hlib hfiles hmem hamsterHnpRequest_mem h).bind_left

/-- On every slice, whatever its bytes. The two requests without fields are refused, as the acknowledgements
are. -/
theorem parseRequest_takesRecord (hreads : host.lib.ReadsExactly) :
    (∀ out raw oldCells memory, out.Disjoint → TakesNoContexts host out
      (fun slice => parseLaunchRequest host slice out raw oldCells memory)) ∧
    (∀ old, TakesRecord host allocateRequestRecordAvro
      (fun slice => parseAllocateRequest host slice old) SaysAllocate) ∧
    (∀ old, TakesRecord host finishRequestRecordAvro
      (fun slice => parseFinishRequest host slice old) SaysFinish) ∧
    (∀ old, TakesRecord host hamsterHnpRequestRecordAvro
      (fun slice => parseHnpRequestWrapper host slice old) SaysWrapped) ∧
    (∀ slice w, Returns (parseRegisterRequest host slice) w (fun result _ => result = -1) ∧
      Returns (parseHeartbeatRequest host slice) w fun result _ => result = -1) :=
  ⟨fun _ raw oldCells memory hdisj =>
      parseLaunchRequest_takesNoContexts hlib hfiles hmem hreads.readsSized hdisj raw oldCells memory,
    fun old => parseAllocateRequest_takesRecord hlib hfiles hmem hreads.readsSized old,
    fun old => parseFinishRequest_takesRecord hlib hfiles hmem hreads.readsSized old,
    fun old => parseHnpRequestWrapper_takesRecord hlib hfiles hmem hreads.toRejectsMalformed old,
    fun slice _ =>
      ⟨parseAcknowledgement_returns hlib hfiles hmem hreads.toReadsFormat registerRequest_mem slice,
        parseAcknowledgement_returns hlib hfiles hmem hreads.toReadsFormat heartBeatRequest_mem slice⟩⟩

end parsers

/-- Three bytes of no type the C enum has. -/
def undeclaredWrapper : Slice := .ofBytes [6, 1, 0, 2, 18] (by decide)

theorem parseRequest_takesRecord_sample :
    Returns (parseHnpRequestWrapper Host.standard undeclaredWrapper ((⟨0, []⟩, 0), 0)) World.initial
      fun inner _ => SaysWrapped
        (.record [("request", .bytes [1, 0, 2]), ("msg_type", .enum 9)]) inner :=
  ((parseRequest_takesRecord Libavro.generic_accessors Host.standard_installed
    Host.standard_mallocSucceeds Libavro.generic_readsExactly).2.2.2.1 _).returns undeclaredWrapper _ _
    ⟨[], by rfl⟩

/-! ## Sending on -/

theorem ContextRecord.size_cut_le (context : ContextRecord) :
    context.cut.size ≤ (encode context.toValue).length := by
  have hcounted (str : Bytes) : countedSize (CString.ofBytes str).bytes.length ≤ countedSize str.length :=
    countedSize_mono (CString.length_ofBytes_le str)
  have henVars : arraySize (context.enVars.map fun str => countedSize (CString.ofBytes str).bytes.length) ≤
      arraySize (context.enVars.map fun str => countedSize str.length) :=
    arraySize_map_le fun str _ => hcounted str
  have hargs := hcounted context.args
  have hhostName := hcounted context.hostName
  rw [toValue, length_encode_launchContext]
  simp only [LaunchItem.size, cut, List.map_map, Function.comp_def]
  omega

theorem launchRequestSize_cut_le (contexts : List ContextRecord) :
    launchRequestSize (contexts.map ContextRecord.cut) ≤
      (encode (launchRequestRecordOf contexts)).length := by
  have hrecord : (encode (launchRequestRecordOf contexts)).length =
      arraySize (contexts.map fun context => (encode context.toValue).length) :=
    length_encode_arrayRecord _ _ _ _
  rw [hrecord, launchRequestSize, List.map_map]
  exact arraySize_map_le fun context _ => context.size_cut_le

section build
variable {host : Host} (hlib : host.lib.Accessors) (hfiles : host.Installed)
  (hmem : host.MallocSucceeds) (hwrites : host.lib.WritesFormat) (hreads : host.lib.ReadsExactly)
include hlib hfiles hmem hwrites hreads

/-- Every record of a launch request is a list of contexts. Of a message of no more bytes than the buffer
has they can be built again, from any array that shows them with their strings cut, in no more bytes; it
is the request of the message exactly where no string had a zero byte. -/
theorem buildLaunchRequest_cuts {slice : Slice} :
    (∀ record, slice.Holds host launchRequestRecordAvro record →
      ∃ contexts, record = launchRequestRecordOf contexts) ∧
    ∀ contexts heap array w,
      slice.Holds host launchRequestRecordAvro (launchRequestRecordOf contexts) →
      slice.len ≤ bufferSize → LaunchArray.Shows heap array (contexts.map ContextRecord.cut) →
      Returns (buildLaunchRequest host heap array contexts.length) w fun built _ =>
        built.1.len ≤ slice.len ∧
        built.1.Holds host launchRequestRecordAvro (launchRequestValue (contexts.map ContextRecord.cut)) ∧
        (built.1.Holds host launchRequestRecordAvro (launchRequestRecordOf contexts) ↔
          ∀ context ∈ contexts, context.NulFree) := by
  constructor
  · exact fun record h => h.exists_contexts hreads.readsSized
  · intro contexts heap array w h hlen hshows
    have hshort : (encode (launchRequestValue (contexts.map ContextRecord.cut))).length ≤ slice.len := by
      rw [length_encode_launchRequest]
      exact (launchRequestSize_cut_le contexts).trans (h.length_encode_le hreads.toRejectsMalformed)
    have hbuild := buildLaunchRequest_returns (w := w) hlib hfiles hmem hwrites hshows (hshort.trans hlen)
    rw [List.length_map] at hbuild
    refine hbuild.mono fun built _ hbuilt => ?_
    have hholds := Slice.holds_of_encode hreads.toReadsFormat hbuilt.1
      (Request.conforms_launch (hshort.trans hlen))
    refine ⟨?_, hholds, ?_⟩
    · unfold Slice.len at hshort ⊢
      rwa [hbuilt.1]
    · rw [← launchRequestValue_cut_eq_iff]
      constructor
      · exact fun hthere => hholds.unique hthere
      · intro heq
        rwa [← heq]

end build

/-- The context of `sampleItem`, with a zero byte and more in its environment string. -/
def nulContext : ContextRecord where
  enVars := [[118, 97, 114, 49, 49, 0, 98]]
  args := [97, 114, 103, 115, 49, 49]
  hostName := [104, 111, 115, 116, 49]
  procName := ⟨101, 1⟩

def nulRequest : Slice := .ofBytes (encode (launchRequestRecordOf [nulContext])) (by decide +kernel)

theorem nulRequest_holds : nulRequest.Holds Host.standard launchRequestRecordAvro
    (launchRequestRecordOf [nulContext]) := by
  refine Slice.holds_of_encode Libavro.generic_readsFormat rfl ?_
  simp [launchRequestRecordOf, launchRequestOf, launchRequestRecordAvro, launchContext, nulContext,
    ContextRecord.toValue, processName_conforms]

theorem buildLaunchRequest_cuts_sample :
    Returns (buildLaunchRequest Host.standard sampleHeap sampleArray 1) World.initial fun built _ =>
      built.1.len ≤ nulRequest.len ∧
      built.1.Holds Host.standard launchRequestRecordAvro (launchRequestValue [sampleItem]) ∧
      (built.1.Holds Host.standard launchRequestRecordAvro (launchRequestRecordOf [nulContext]) ↔
        ∀ context ∈ [nulContext], context.NulFree) :=
  (buildLaunchRequest_cuts Libavro.generic_accessors Host.standard_installed
    Host.standard_mallocSucceeds Libavro.generic_writesFormat Libavro.generic_readsExactly).2 [nulContext]
    sampleHeap sampleArray World.initial nulRequest_holds (by decide +kernel) sampleArray_shows

end HamsterAvro
