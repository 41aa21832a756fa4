import HamsterAvro.Capacity
import HamsterAvro.RequestParsers
import HamsterAvro.Responses

/-!
# A request through both levels

A launch, allocate or finish request is built, wrapped, unwrapped and parsed. The inner message comes out
as it went in (`parseHnpRequestWrapper_returns`), and of an allocate or finish request the request itself
(`parseRequest_returns`). Of a launch request only the empty list does: for any context the parser has a
`size_t` stored into an `int` of its own (`parseLaunchRequest_undefined`).
-/

namespace HamsterAvro
open HamsterAvro.Wire HamsterAvro.Avro HamsterAvro.C

/-! ## Requests -/

inductive Request where
  | launch (items : List LaunchItem)
  | allocate (resourceCount : Int32)
  | finish (succeed : Bool) (diagnostics : CString)

def Request.msgType : Request → MsgType
  | .launch _ => .launch
  | .allocate _ => .allocate
  | .finish .. => .finish

def Request.toValue : Request → Value
  | .launch items => launchRequestValue items
  | .allocate resourceCount => allocateRequestValue resourceCount
  | .finish succeed diagnostics => finishRequestValue succeed diagnostics

section host
variable (host : Host)

/-- The builder of the request, on arguments that are the request, returns the slice. -/
def Request.Built (r : Request) (w : World) (inner : Slice) (w' : World) : Prop :=
  match r with
  | .launch items => ∃ heap array array', array.Shows heap items ∧
      (buildLaunchRequest host heap array items.length).run w = .ok ((inner, array'), w')
  | .allocate resourceCount => (buildAllocateRequest host resourceCount).run w = .ok (inner, w')
  | .finish succeed diagnostics =>
    (buildFinishRequest host succeed (some diagnostics)).run w = .ok (inner, w')

/-- What is read through a parsed context; no string of its environment is the null pointer. -/
def ParsedContext.Reads (item : LaunchItem) (ctx : ParsedContext) : Prop :=
  ctx.enVars.map Block.cString = item.enVars ∧ (∀ block ∈ ctx.enVars, block.addr ≠ 0) ∧
  ctx.args.cString = item.args ∧ ctx.hostName.cString = item.hostName ∧ ctx.procName = item.procName

/-- The parser of the request returns it, from any slice with these bytes and whatever its storage
held. -/
def Request.Parsed (r : Request) (bytes : Bytes) (w : World) : Prop :=
  match r with
  | .launch items => ∀ slice out raw oldCells memory, slice.bytes = bytes → out.Disjoint →
      Returns (parseLaunchRequest host slice out raw oldCells memory) w
        fun res _ => res.Returned ParsedContext.Reads items out
  | .allocate resourceCount => ∀ slice old, slice.bytes = bytes →
      Returns (parseAllocateRequest host slice old) w fun n _ => n = resourceCount
  | .finish succeed diagnostics => ∀ slice old, slice.bytes = bytes →
      Returns (parseFinishRequest host slice old) w fun out _ =>
        out.1 = succeed ∧ out.2.cString = diagnostics

/-- Both levels give back what went in: the wrapper the inner message, with its length and its type, and
that the request. -/
def Request.RoundTrips (r : Request) (inner wrapper : Slice) (w : World) : Prop :=
  (∀ old, Returns (parseHnpRequestWrapper host wrapper old) w fun res _ =>
    res.buffer.bytes = inner.bytes ∧ res.len.toInt = inner.len ∧ res.msgType = r.msgType.ordinal) ∧
  ∀ w, r.Parsed host inner.bytes w

end host

/-- There is no launch context in it. -/
def Request.NoContexts : Request → Prop
  | .launch items => items = []
  | .allocate _ | .finish .. => True

/-! ### What was built conforms -/

theorem Request.conforms_finish {succeed : Bool} {diagnostics : CString}
    (hfits : (encode (finishRequestValue succeed diagnostics)).length ≤ bufferSize) :
    Conforms finishRequestRecordAvro (finishRequestValue succeed diagnostics) := by
  refine finishRequest_conforms succeed ?_
  have hcounted := le_countedSize diagnostics.bytes.length
  have hbuffer : bufferSize < 2 ^ 63 := by decide
  rw [length_encode_finishRequest] at hfits
  omega

theorem Request.conforms_launch {items : List LaunchItem}
    (hfits : (encode (launchRequestValue items)).length ≤ bufferSize) :
    Conforms launchRequestRecordAvro (launchRequestValue items) := by
  rw [length_encode_launchRequest] at hfits
  exact launchRequest_conforms (lt_of_le_of_lt hfits (by decide))

/-! ## The launch contexts -/

theorem LaunchItem.toValue_injective : Function.Injective LaunchItem.toValue := by
  rintro ⟨enVars, args, hostName, ⟨jobid, vpid⟩⟩ ⟨enVars', args', hostName', ⟨jobid', vpid'⟩⟩ h
  have hstring : Function.Injective fun str : CString => Value.string str.bytes :=
    fun _ _ h => CString.bytes_injective (Value.string.inj h)
  simp only [LaunchItem.toValue, launchContextValue, ProcessName.toValue, Value.record.injEq,
    Value.array.injEq, Value.string.injEq, Value.int.injEq, List.cons.injEq, Prod.mk.injEq, true_and,
    and_true] at h
  obtain ⟨henVars, hargs, hhostName, hjobid, hvpid⟩ := h
  rw [LaunchItem.mk.injEq, ProcessName.mk.injEq]
  exact ⟨List.map_injective_iff.mpr hstring henVars, CString.bytes_injective hargs,
    CString.bytes_injective hhostName, hjobid, hvpid⟩

section contexts
variable {host : Host} {w : World} (hlib : host.lib.Accessors) {vs : List Value}
include hlib

/-- The number of environment strings, be it zero, is stored as a `size_t` into the `int` on the stack. -/
theorem parseLaunchContext_undefined {i : Nat} {v : Value} (hv : vs[i]? = some v)
    (hshape : launchContext.Shapes v) (oldCells : Nat → Nat → Block) (l : LaunchContextLocals)
    (old : ParsedContext) :
    Stops (parseLaunchContext host oldCells (arrayRecord "launchContexts" launchContext vs) (some [0]) i
      l old) w (· = .undefined) := by
  obtain ⟨_, rfl, _, _, rfl, ⟨enVars, rfl, -⟩, -⟩ := hshape
  have henVars : (arrayRecord "launchContexts" launchContext vs).at? [0, i, 0] =
      some (.array .string enVars) := at?_arrayRecord hv [0]
  unfold parseLaunchContext
  simp only [byIndex_arrayRecord hlib hv, byName_arrayRecord hlib "en_vars" (n := 0) hv rfl, sizeIntoInt,
    Option.bind_some, hlib.getSize_array _ _ _ _ henVars]
  apply Stops.bind_left
  exact Stops.throw rfl

variable (hfiles : host.Installed) (hmem : host.MallocSucceeds) {slice : Slice} {out : OutPointers}
  (hdisj : out.Disjoint) (raw : Nat → ParsedContext) (oldCells : Nat → Nat → Block) (memory : Memory)
include hfiles hmem hdisj

theorem parseLaunchRequest_undefined (hslice : slice.Holds host launchRequestRecordAvro (launchRequestOf vs))
    (hlen : vs.length ≤ intMax) (hshapes : ∀ v ∈ vs, launchContext.Shapes v) (hvs : vs ≠ []) :
    Stops (parseLaunchRequest host slice out raw oldCells memory) w (· = .undefined) := by
  refine parseArray_stops hlib hfiles launchRequest_mem hslice hlen hdisj hmem hvs fun w => ?_
  obtain ⟨v, rest, rfl⟩ := List.exists_cons_of_ne_nil hvs
  exact parseLaunchContext_undefined hlib rfl (hshapes v List.mem_cons_self) oldCells _ _

/-- A request without contexts never comes to the loop. -/
theorem parseLaunchRequest_empty {β : Type} {P : β → ParsedContext → Prop}
    (hslice : slice.Holds host launchRequestRecordAvro (launchRequestOf [])) :
    Returns (parseLaunchRequest host slice out raw oldCells memory) w
      fun res _ => res.Returned P [] out := by
  refine (parseArray_returns (R := fun _ _ => False) hlib hfiles launchRequest_mem hslice (Nat.zero_le _)
    hdisj hmem fun i v hv => by cases hv).mono fun res _ hres => ?_
  have hnone : res.Decodes (fun _ _ => False) (([] : List β).map fun _ => .null) out memory := hres
  exact hnone.returned (fun _ _ h => h.elim) (Nat.zero_le _) hdisj

end contexts

/-! ## The levels -/

section levels
variable {host : Host} {w : World} (hlib : host.lib.Accessors) (hfiles : host.Installed)
  (hmem : host.MallocSucceeds)
include hlib hfiles hmem

section built
variable (hwrites : host.lib.WritesFormat)
include hwrites

/-- A slice that was built is the encoding of the request, and that fits the buffer. -/
theorem Request.Built.bytes_eq {r : Request} {inner : Slice} {w' : World} (h : r.Built host w inner w') :
    inner.bytes = encode r.toValue ∧ (encode r.toValue).length ≤ bufferSize := by
  cases r with
  | launch items =>
    obtain ⟨heap, array, array', hshows, hrun⟩ := h
    have hfits : (encode (launchRequestValue items)).length ≤ bufferSize :=
      Stops.le_of_run (buildLaunchRequest_stops hlib hfiles hmem hwrites hshows) hrun
    exact ⟨((buildLaunchRequest_returns hlib hfiles hmem hwrites hshows hfits).of_run hrun).1, hfits⟩
  | allocate resourceCount =>
    have hfits : (encode (allocateRequestValue resourceCount)).length ≤ bufferSize := by
      have hword : (writeLong resourceCount.toInt).length ≤ 10 := (longWord_int resourceCount).length_le
      simp only [allocateRequestValue, length_encode_record, List.map_singleton, List.sum_singleton,
        length_encode_int, longSize]
      exact le_trans hword (by decide)
    exact ⟨(buildAllocateRequest_returns hlib hfiles hmem hwrites _ hfits).of_run h, hfits⟩
  | finish succeed diagnostics =>
    have hfits : (encode (finishRequestValue succeed diagnostics)).length ≤ bufferSize :=
      Stops.le_of_run (buildFinishRequest_stops hlib hfiles hmem hwrites _ _) h
    exact ⟨(buildFinishRequest_returns hlib hfiles hmem hwrites _ _ hfits).of_run h, hfits⟩

theorem buildHnpRequestWrapper_bytes {inner wrapper : Slice} {msgType : MsgType} {w' : World}
    (hrun : (buildHnpRequestWrapper host inner msgType).run w = .ok (wrapper, w')) :
    wrapper.bytes = encode (hnpRequestValue inner.bytes msgType) := by
  have hfits : (encode (hnpRequestValue inner.bytes msgType)).length ≤ bufferSize :=
    Stops.le_of_run (buildHnpRequestWrapper_stops hlib hfiles hmem hwrites inner msgType) hrun
  exact (buildHnpRequestWrapper_returns hlib hfiles hmem hwrites inner msgType hfits).of_run hrun

end built

section read
variable {slice : Slice}

theorem parseAllocateRequest_reads {resourceCount : Int32}
    (h : slice.Holds host allocateRequestRecordAvro (allocateRequestValue resourceCount)) (old : Int32) :
    Returns (parseAllocateRequest host slice old) w fun n _ => n = resourceCount := by
  refine (readRecord_returns hlib hfiles hmem allocateRequest_mem h).bind fun record _ h => ?_
  subst h
  have hfield : host.lib.byName (allocateRequestValue resourceCount) (some []) "resource_count" none =
      some [0] := hlib.byName (i := 0) rfl (by simp [List.findIdx?_cons]) none
  simp only [hfield]
  exact closeRecord_returns.bind fun _ _ _ => Returns.pure (hlib.intOr (r := [0]) rfl _)

/-- The diagnostics are handed out with a terminator. -/
theorem parseFinishRequest_reads {succeed : Bool} {diagnostics : Bytes}
    (h : slice.Holds host finishRequestRecordAvro
      (.record [("succeed", .boolean succeed), ("diagnostics", .string diagnostics)]))
    (old : Bool × Block) :
    Returns (parseFinishRequest host slice old) w fun out _ =>
      out.1 = succeed ∧ out.2.bytes = diagnostics ++ [0] := by
  refine (readRecord_returns hlib hfiles hmem finishRequest_mem h).bind fun record _ h => ?_
  subst h
  have hsucceed : host.lib.byName (.record [("succeed", .boolean succeed),
      ("diagnostics", .string diagnostics)]) (some []) "succeed" none = some [0] :=
    hlib.byName (i := 0) rfl (by simp [List.findIdx?_cons]) none
  have hdiag : host.lib.byName (.record [("succeed", .boolean succeed),
      ("diagnostics", .string diagnostics)]) (some []) "diagnostics" none = some [1] :=
    hlib.byName (i := 1) rfl (by simp [List.findIdx?_cons]) none
  simp only [hsucceed, hdiag]
  exact closeRecord_returns.bind fun _ _ _ =>
    Returns.pure ⟨hlib.booleanOr (r := [0]) rfl _, hlib.stringOr (r := [1]) rfl _⟩

/-- The inner bytes are handed out whole, with their number if that is an `int`, and the ordinal as it was
sent. -/
theorem parseHnpRequestWrapper_reads {inner : Bytes} {ordinal : Int32}
    (h : slice.Holds host hamsterHnpRequestRecordAvro
      (.record [("request", .bytes inner), ("msg_type", .enum ordinal)]))
    (hlen : inner.length ≤ intMax) (old : (Block × Nat) × Int32) :
    Returns (parseHnpRequestWrapper host slice old) w fun res _ =>
      res.buffer.bytes = inner ∧ res.len.toInt = inner.length ∧ res.msgType = ordinal := by
  refine (readRecord_returns hlib hfiles hmem hamsterHnpRequest_mem h).bind fun record _ h => ?_
  subst h
  refine (xmalloc_returns hmem _).bind fun self _ _ => ?_
  have hrequest : host.lib.byName (.record [("request", .bytes inner), ("msg_type", .enum ordinal)])
      (some []) "request" none = some [0] :=
    hlib.byName (i := 0) rfl (by simp [List.findIdx?_cons]) none
  have hmsgType : host.lib.byName (.record [("request", .bytes inner), ("msg_type", .enum ordinal)])
      (some []) "msg_type" none = some [1] :=
    hlib.byName (i := 1) rfl (by simp [List.findIdx?_cons]) none
  simp only [hrequest, hmsgType]
  refine closeRecord_returns.bind fun _ _ _ => Returns.pure ?_
  have hinner : (Value.record [("request", .bytes inner), ("msg_type", .enum ordinal)]).at? [0] =
      some (.bytes inner) := rfl
  obtain ⟨hbuffer, hsize⟩ := hlib.bytesOr hinner old.1
  exact ⟨hbuffer, by rw [hsize, toInt_ofNat hlen], hlib.enumOr (r := [1]) rfl _⟩

end read

variable (hreads : host.lib.ReadsFormat)
include hreads

/-- The inner message comes out as it went in, with its length and its type. -/
theorem parseHnpRequestWrapper_returns {inner wrapper : Slice} {msgType : MsgType}
    (hwrapper : wrapper.bytes = encode (hnpRequestValue inner.bytes msgType))
    (old : (Block × Nat) × Int32) :
    Returns (parseHnpRequestWrapper host wrapper old) w fun res _ =>
      res.buffer.bytes = inner.bytes ∧ res.len.toInt = inner.len ∧ res.msgType = msgType.ordinal :=
  parseHnpRequestWrapper_reads hlib hfiles hmem (Slice.holds_of_encode hreads hwrapper
    (hnpRequest_conforms msgType (lt_of_le_of_lt inner.len_le (by decide)))) inner.len_le old

/-- Whatever was built, its parser reads it, unless there is a launch context in it. -/
theorem parseRequest_returns {r : Request} (hfits : (encode r.toValue).length ≤ bufferSize)
    (h : r.NoContexts) : r.Parsed host (encode r.toValue) w := by
  cases r with
  | launch items =>
    intro slice out raw oldCells memory hslice hdisj
    obtain rfl : items = [] := h
    exact parseLaunchRequest_empty hlib hfiles hmem hdisj raw oldCells memory
      (Slice.holds_of_encode hreads hslice (Request.conforms_launch hfits))
  | allocate resourceCount =>
    intro slice old hslice
    exact parseAllocateRequest_reads hlib hfiles hmem
      (Slice.holds_of_encode hreads hslice (allocateRequest_conforms resourceCount)) old
  | finish succeed diagnostics =>
    intro slice old hslice
    exact (parseFinishRequest_reads hlib hfiles hmem
      (Slice.holds_of_encode hreads hslice (Request.conforms_finish hfits)) old).mono
      fun _ _ h => ⟨h.1, Block.cString_eq h.2⟩

theorem parseRequest_undefined {items : List LaunchItem} {slice : Slice} {out : OutPointers}
    (hslice : slice.bytes = encode (launchRequestValue items))
    (hfits : (encode (launchRequestValue items)).length ≤ bufferSize) (hitems : items ≠ [])
    (hdisj : out.Disjoint) (raw : Nat → ParsedContext) (oldCells : Nat → Nat → Block) (memory : Memory) :
    Stops (parseLaunchRequest host slice out raw oldCells memory) w (· = .undefined) := by
  have hencodes : Encodes .full launchRequestRecordAvro (launchRequestValue items) slice.bytes := by
    rw [hslice]
    exact encodes_encode (Request.conforms_launch hfits)
  obtain ⟨_, ⟨⟩, _, _, ⟨⟩, ⟨_, ⟨⟩, hshapes⟩, -⟩ := hencodes.shapes
  exact parseLaunchRequest_undefined hlib hfiles hmem hdisj raw oldCells memory
    (Slice.holds_of_encodes hreads hencodes)
    (length_le_of_encodes (by decide) (List.append_nil _).symm hencodes) hshapes (by simpa using hitems)

end levels

/-- A request that was built and wrapped comes back whole exactly if there is no launch context in it. -/
theorem request_roundTrip_iff {host : Host} (hlib : host.lib.Accessors) (hfiles : host.Installed)
    (hmem : host.MallocSucceeds) (hwrites : host.lib.WritesFormat) (hreads : host.lib.ReadsFormat)
    {r : Request} {inner wrapper : Slice} {w w' w'' : World} (hbuilt : r.Built host w inner w')
    (hwrapper : (buildHnpRequestWrapper host inner r.msgType).run w' = .ok (wrapper, w'')) :
    r.RoundTrips host inner wrapper w'' ↔ r.NoContexts := by
  obtain ⟨hbytes, hfits⟩ := hbuilt.bytes_eq hlib hfiles hmem hwrites
  constructor
  · intro h
    cases r with
    | launch items =>
      by_contra hitems
      have hstops := parseRequest_undefined (w := w'') hlib hfiles hmem hreads hbytes hfits hitems
        sampleOut_disjoint (fun _ => ⟨0, [], ⟨0, []⟩, ⟨0, []⟩, ⟨0, 0⟩⟩) (fun _ _ => ⟨0, []⟩) fun _ => 0
      obtain ⟨res, w₁, hrun, -⟩ := h.2 w'' inner sampleOut _ _ _ rfl sampleOut_disjoint
      exact hstops.not_ok res w₁ hrun
    | allocate | finish => trivial
  · intro h
    refine ⟨fun old => ?_, fun w => ?_⟩
    · exact parseHnpRequestWrapper_returns hlib hfiles hmem hreads
        (buildHnpRequestWrapper_bytes hlib hfiles hmem hwrites hwrapper) old
    · rw [hbytes]
      exact parseRequest_returns hlib hfiles hmem hreads hfits h

section standard

/-- A request that fits the wrapper is built and wrapped. -/
theorem exists_wrapped {inner : Slice} (msgType : MsgType) (w : World)
    (hlen : inner.len ≤ wrapperCapacity) : ∃ wrapper w',
      (buildHnpRequestWrapper Host.standard inner msgType).run w = .ok (wrapper, w') := by
  obtain ⟨wrapper, w', hrun, -⟩ := buildHnpRequestWrapper_returns (w := w) Libavro.generic_accessors
    Host.standard_installed Host.standard_mallocSucceeds Libavro.generic_writesFormat inner msgType
    ((hnpRequest_fits _ _).mpr hlen)
  exact ⟨wrapper, w', hrun⟩

/-- A finish request comes back. -/
theorem request_roundTrip_iff_sample :
    ∃ inner wrapper w' w'', (Request.finish true sampleItem.args).Built Host.standard World.initial inner w' ∧
      (buildHnpRequestWrapper Host.standard inner .finish).run w' = .ok (wrapper, w'') ∧
      (Request.finish true sampleItem.args).RoundTrips Host.standard inner wrapper w'' := by
  have hlib : Host.standard.lib.Accessors := Libavro.generic_accessors
  have hwrites : Host.standard.lib.WritesFormat := Libavro.generic_writesFormat
  have hfits : (encode (finishRequestValue true sampleItem.args)).length ≤ wrapperCapacity := by
    decide +kernel
  obtain ⟨inner, w', hrun, hbytes⟩ := buildFinishRequest_returns (w := World.initial) hlib
    Host.standard_installed Host.standard_mallocSucceeds hwrites true sampleItem.args
    (hfits.trans (by decide))
  obtain ⟨wrapper, w'', hwrapper⟩ := exists_wrapped .finish w' (by rwa [Slice.len, hbytes])
  have hbuilt : (Request.finish true sampleItem.args).Built Host.standard World.initial inner w' := hrun
  exact ⟨inner, wrapper, w', w'', hbuilt, hwrapper, (request_roundTrip_iff hlib Host.standard_installed
    Host.standard_mallocSucceeds hwrites Libavro.generic_readsFormat hbuilt hwrapper).mpr trivial⟩

/-- A launch request of one context is built and wrapped, and does not come back. -/
theorem parseLaunchRequest_overruns :
    ∃ inner wrapper w' w'', (Request.launch [sampleItem]).Built Host.standard World.initial inner w' ∧
      (buildHnpRequestWrapper Host.standard inner .launch).run w' = .ok (wrapper, w'') ∧
      ¬ (Request.launch [sampleItem]).RoundTrips Host.standard inner wrapper w'' := by
  have hlib : Host.standard.lib.Accessors := Libavro.generic_accessors
  have hfits : (encode (launchRequestValue [sampleItem])).length ≤ wrapperCapacity := by
    decide +kernel
  obtain ⟨⟨inner, array'⟩, w', hrun, hbytes, -⟩ := buildLaunchRequest_returns (w := World.initial) hlib
    Host.standard_installed Host.standard_mallocSucceeds Libavro.generic_writesFormat sampleArray_shows
    (hfits.trans (by decide))
  obtain ⟨wrapper, w'', hwrapper⟩ := exists_wrapped .launch w' (by rwa [Slice.len, hbytes])
  refine ⟨inner, wrapper, w', w'', ⟨sampleHeap, sampleArray, array', sampleArray_shows, hrun⟩, hwrapper,
    fun h => ?_⟩
  have hstops := parseRequest_undefined (w := w'') hlib Host.standard_installed
    Host.standard_mallocSucceeds Libavro.generic_readsFormat hbytes (hfits.trans (by decide))
    (List.cons_ne_nil _ _) sampleOut_disjoint (fun _ => ⟨0, [], ⟨0, []⟩, ⟨0, []⟩, ⟨0, 0⟩⟩)
    (fun _ _ => ⟨0, []⟩) fun _ => 0
  obtain ⟨res, w₁, hrun', -⟩ := h.2 w'' inner sampleOut _ _ _ rfl sampleOut_disjoint
  exact hstops.not_ok res w₁ hrun'

end standard

end HamsterAvro
