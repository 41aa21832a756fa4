import HamsterAvro.Avro.Size
import HamsterAvro.RequestSpec

/-!
# What fits the buffer

`launchRequestSize` is the length of a launch request computed from the lengths of its strings and
lists alone. The builder returns exactly when that is at most `bufferSize`
(`buildLaunchRequest_capacity`). The wrapper adds a length prefix and an ordinal to its inner message,
in a buffer of the same size, so of the messages an inner builder hands out it takes those of at most
`wrapperCapacity` bytes (`buildHnpRequestWrapper_capacity`).
-/

namespace HamsterAvro
open HamsterAvro.Wire HamsterAvro.Avro HamsterAvro.C

/-! ## Sizes -/

def LaunchItem.size (item : LaunchItem) : Nat :=
  arraySize (item.enVars.map fun str => countedSize str.bytes.length) +
    countedSize item.args.bytes.length + countedSize item.hostName.bytes.length +
    longSize item.procName.jobid.toInt + longSize item.procName.vpid.toInt

def launchRequestSize (items : List LaunchItem) : Nat := arraySize (items.map LaunchItem.size)

/-- The largest inner message that fits the wrapper's buffer. -/
def wrapperCapacity : Nat := 8189

/-- The length of a launch context record whose strings have any bytes. -/
theorem length_encode_launchContext (enVars : List Bytes) (args hostName : Bytes) (name : ProcessName) :
    (encode (.record
      [("en_vars", .array .string (enVars.map .string)), ("args", .string args),
       ("host_name", .string hostName), ("name", name.toValue)])).length =
      arraySize (enVars.map fun str => countedSize str.length) +
        countedSize args.length + countedSize hostName.length +
        longSize name.jobid.toInt + longSize name.vpid.toInt := by
  have henVars := length_encode_array .string (enVars.map .string)
  simp only [List.map_map, Function.comp_def, length_encode_string] at henVars
  simp only [ProcessName.toValue, length_encode_record, List.map_cons, List.map_nil, List.sum_cons,
    List.sum_nil, henVars, length_encode_string, length_encode_int]
  omega

theorem length_encode_launchItem (item : LaunchItem) : (encode item.toValue).length = item.size := by
  have hlength := length_encode_launchContext (item.enVars.map CString.bytes) item.args.bytes
    item.hostName.bytes item.procName
  rw [List.map_map, List.map_map] at hlength
  exact hlength

theorem length_encode_arrayRecord {α : Type} (field : String) (items : Schema) (toValue : α → Value)
    (xs : List α) : (encode (arrayRecord field items (xs.map toValue))).length =
      arraySize (xs.map fun x => (encode (toValue x)).length) := by
  rw [arrayRecord, length_encode_record, List.map_singleton, List.sum_singleton, length_encode_array,
    List.map_map]
  rfl

theorem length_encode_launchRequest (items : List LaunchItem) :
    (encode (launchRequestValue items)).length = launchRequestSize items := by
  apply (length_encode_arrayRecord "launchContexts" launchContext LaunchItem.toValue items).trans
  simp only [length_encode_launchItem, launchRequestSize]

theorem length_encode_finishRequest (succeed : Bool) (diagnostics : CString) :
    (encode (finishRequestValue succeed diagnostics)).length =
      1 + countedSize diagnostics.bytes.length := by
  simp only [finishRequestValue, length_encode_record, List.map_cons, List.map_nil, List.sum_cons,
    List.sum_nil, length_encode_boolean, length_encode_string, Nat.add_zero]

theorem length_encode_hnpRequest (inner : Bytes) (msgType : MsgType) :
    (encode (hnpRequestValue inner msgType)).length = countedSize inner.length + 1 := by
  have hordinal : longSize msgType.ordinal.toInt = 1 := by cases msgType <;> decide +kernel
  simp only [hnpRequestValue, length_encode_record, List.map_cons, List.map_nil, List.sum_cons,
    List.sum_nil, length_encode_bytes, length_encode_enum, hordinal, Nat.add_zero]

/-- The prefix of an inner message has two bytes where it matters, and the ordinal one. -/
theorem hnpRequest_fits (inner : Bytes) (msgType : MsgType) :
    (encode (hnpRequestValue inner msgType)).length ≤ bufferSize ↔ inner.length ≤ wrapperCapacity := by
  rw [length_encode_hnpRequest, countedSize, bufferSize, wrapperCapacity]
  constructor
  · intro h
    by_contra hlong
    have := lt_longSize (n := inner.length) (k := 1) (by omega)
    omega
  · intro h
    have := longSize_le (n := inner.length) (k := 1) (by omega)
    omega

/-! ### A request that fits is one of its schema -/

theorem LaunchItem.size_pos (item : LaunchItem) : 0 < item.size := by
  have := countedSize_pos item.args.bytes.length
  unfold LaunchItem.size
  omega

theorem LaunchItem.length_enVars_le (item : LaunchItem) : item.enVars.length ≤ item.size := by
  have := length_le_arraySize (item.enVars.map fun str => countedSize str.bytes.length)
    (by simp [countedSize_pos])
  rw [List.length_map] at this
  unfold LaunchItem.size
  omega

theorem LaunchItem.conforms {item : LaunchItem} (h : item.size < 2 ^ 63) :
    Conforms launchContext item.toValue := by
  have hargs := le_countedSize item.args.bytes.length
  have hhost := le_countedSize item.hostName.bytes.length
  have hlength := item.length_enVars_le
  have hstr : ∀ str ∈ item.enVars, str.bytes.length ≤
      arraySize (item.enVars.map fun str => countedSize str.bytes.length) := by
    intro str hstr
    exact (le_countedSize _).trans (mem_le_arraySize (List.mem_map_of_mem hstr))
  rw [LaunchItem.size] at h hlength
  simp only [launchContext, LaunchItem.toValue, launchContextValue, conforms_record,
    conformsFields_cons, conforms_array, conforms_string, conformsFields_nil, List.length_map,
    List.forall_mem_map, processName_conforms, and_true]
  refine ⟨⟨by omega, ?_⟩, by omega, by omega⟩
  intro str hmem
  have := hstr str hmem
  omega

theorem launchRequest_conforms {items : List LaunchItem} (h : launchRequestSize items < 2 ^ 63) :
    Conforms launchRequestRecordAvro (launchRequestValue items) := by
  unfold launchRequestSize at h
  have hlength := length_le_arraySize (items.map LaunchItem.size) (by simp [LaunchItem.size_pos])
  rw [List.length_map] at hlength
  simp only [launchRequestRecordAvro, launchRequestValue, launchRequestOf, conforms_record,
    conformsFields_cons, conforms_array, conformsFields_nil, List.length_map, List.forall_mem_map,
    and_true]
  refine ⟨by omega, ?_⟩
  intro item hitem
  have hsize := mem_le_arraySize (List.mem_map_of_mem (f := LaunchItem.size) hitem)
  exact LaunchItem.conforms (by omega)

/-! ## The launch request builder at capacity -/

variable {host : Host} {heap : Heap} {w : World}

section launch
variable (hlib : host.lib.Accessors) (hfiles : host.Installed) (hmem : host.MallocSucceeds)
  (hwrites : host.lib.WritesFormat)
include hlib hfiles hmem hwrites

/-- A launch request is built exactly when it fits; then the slice is all of it. -/
theorem buildLaunchRequest_capacity {array : LaunchArray} {items : List LaunchItem}
    (hshows : array.Shows heap items) :
    (Returns (buildLaunchRequest host heap array items.length) w (fun _ _ => True) ↔
      launchRequestSize items ≤ bufferSize) ∧
    (∀ out w', (buildLaunchRequest host heap array items.length).run w = .ok (out, w') →
      out.1.len = launchRequestSize items ∧ out.1.bytes = encode (launchRequestValue items) ∧
      Encodes .full launchRequestRecordAvro (launchRequestValue items) out.1.bytes) ∧
    (bufferSize < launchRequestSize items →
      Stops (buildLaunchRequest host heap array items.length) w Halt.IsExit) := by
  have hstops (hover : bufferSize < launchRequestSize items) :
      Stops (buildLaunchRequest host heap array items.length) w Halt.IsExit :=
    buildLaunchRequest_stops hlib hfiles hmem hwrites hshows (by rwa [length_encode_launchRequest])
  have hreturns (hfits : launchRequestSize items ≤ bufferSize) :
      Returns (buildLaunchRequest host heap array items.length) w fun out _ =>
        out.1.bytes = encode (launchRequestValue items) :=
    (buildLaunchRequest_returns hlib hfiles hmem hwrites hshows
      (by rwa [length_encode_launchRequest])).mono fun _ _ h => h.1
  have hfits {out : Slice × LaunchArray} {w' : World}
      (hrun : (buildLaunchRequest host heap array items.length).run w = .ok (out, w')) :
      launchRequestSize items ≤ bufferSize :=
    Stops.le_of_run hstops hrun
  refine ⟨⟨fun ⟨out, w', hrun, _⟩ => hfits hrun, fun h => (hreturns h).mono fun _ _ _ => trivial⟩,
    fun out w' hrun => ?_, hstops⟩
  have hbytes := (hreturns (hfits hrun)).of_run hrun
  have hsize : launchRequestSize items < 2 ^ 63 := lt_of_le_of_lt (hfits hrun) (by decide)
  refine ⟨?_, hbytes, ?_⟩
  · unfold Slice.len
    rw [hbytes, length_encode_launchRequest]
  · rw [hbytes]
    exact encodes_encode (launchRequest_conforms hsize)

end launch

theorem buildLaunchRequest_capacity_sample :
    launchRequestSize [sampleItem] ≤ bufferSize ∧
    Returns (buildLaunchRequest Host.standard sampleHeap sampleArray 1) World.initial fun _ _ => True := by
  have hsize : launchRequestSize [sampleItem] ≤ bufferSize := by decide +kernel
  exact ⟨hsize, (buildLaunchRequest_capacity Libavro.generic_accessors Host.standard_installed
    Host.standard_mallocSucceeds Libavro.generic_writesFormat sampleArray_shows).1.mpr hsize⟩

/-! ## The wrapper at capacity -/

section wrapper
variable (hlib : host.lib.Accessors) (hfiles : host.Installed) (hmem : host.MallocSucceeds)
  (hwrites : host.lib.WritesFormat)
include hlib hfiles hmem hwrites

/-- The wrapper takes an inner message exactly when it leaves room for the prefix and the ordinal. -/
theorem buildHnpRequestWrapper_capacity (innerSlice : Slice) (msgType : MsgType) :
    (Returns (buildHnpRequestWrapper host innerSlice msgType) w (fun _ _ => True) ↔
      innerSlice.len ≤ wrapperCapacity) ∧
    (wrapperCapacity < innerSlice.len →
      Stops (buildHnpRequestWrapper host innerSlice msgType) w Halt.IsExit) := by
  have hstops (hover : wrapperCapacity < innerSlice.len) :
      Stops (buildHnpRequestWrapper host innerSlice msgType) w Halt.IsExit := by
    refine buildHnpRequestWrapper_stops hlib hfiles hmem hwrites innerSlice msgType (not_le.mp fun h => ?_)
    exact absurd ((hnpRequest_fits _ _).mp h) (not_le.mpr hover)
  refine ⟨⟨fun ⟨out, w', hrun, _⟩ => Stops.le_of_run hstops hrun, fun h => ?_⟩, hstops⟩
  exact (buildHnpRequestWrapper_returns hlib hfiles hmem hwrites innerSlice msgType
    ((hnpRequest_fits _ _).mpr h)).mono fun _ _ _ => trivial

/-- Of the inner messages the builders hand out, the wrapper refuses exactly those that fill the
buffer up to less than three bytes. -/
theorem buildHnpRequestWrapper_of_built :
    (∀ heap array arraySize w₀ out w₁,
      (buildLaunchRequest host heap array arraySize).run w₀ = .ok (out, w₁) →
      out.1.len ≤ bufferSize ∧
      (Returns (buildHnpRequestWrapper host out.1 .launch) w₁ (fun _ _ => True) ↔
        out.1.len ≤ bufferSize - 3) ∧
      (bufferSize - 3 < out.1.len →
        Stops (buildHnpRequestWrapper host out.1 .launch) w₁ Halt.IsExit)) ∧
    (∀ succeed diagnostics w₀ slice w₁,
      (buildFinishRequest host succeed diagnostics).run w₀ = .ok (slice, w₁) →
      slice.len ≤ bufferSize ∧
      (Returns (buildHnpRequestWrapper host slice .finish) w₁ (fun _ _ => True) ↔
        slice.len ≤ bufferSize - 3) ∧
      (bufferSize - 3 < slice.len →
        Stops (buildHnpRequestWrapper host slice .finish) w₁ Halt.IsExit)) := by
  refine ⟨fun heap array arraySize w₀ out w₁ hrun => ⟨?_, ?_⟩,
    fun succeed diagnostics w₀ slice w₁ hrun => ⟨?_, ?_⟩⟩
  · exact buildRequest_length out w₁ hrun
  · exact buildHnpRequestWrapper_capacity hlib hfiles hmem hwrites out.1 .launch
  · exact (buildRequest_length.bind (R := fun slice _ => slice.len ≤ bufferSize)
      fun _ _ h => Ensures.pure h) slice w₁ hrun
  · exact buildHnpRequestWrapper_capacity hlib hfiles hmem hwrites slice .finish

end wrapper

theorem buildHnpRequestWrapper_of_built_sample :
    ∃ slice w₁, (buildFinishRequest Host.standard true (some sampleItem.args)).run World.initial =
        .ok (slice, w₁) ∧ slice.len ≤ bufferSize - 3 ∧
      Returns (buildHnpRequestWrapper Host.standard slice .finish) w₁ fun _ _ => True := by
  have hlib : Host.standard.lib.Accessors := Libavro.generic_accessors
  have hwrites : Host.standard.lib.WritesFormat := Libavro.generic_writesFormat
  have hlength : (encode (finishRequestValue true sampleItem.args)).length = 8 := by
    rw [length_encode_finishRequest]
    decide +kernel
  obtain ⟨slice, w₁, hrun, hbytes⟩ := buildFinishRequest_returns (w := World.initial) hlib
    Host.standard_installed Host.standard_mallocSucceeds hwrites true sampleItem.args
    (by rw [hlength]; decide)
  have hlen : slice.len ≤ bufferSize - 3 := by
    unfold Slice.len
    rw [hbytes, hlength]
    decide
  exact ⟨slice, w₁, hrun, hlen, ((buildHnpRequestWrapper_of_built hlib Host.standard_installed
    Host.standard_mallocSucceeds hwrites).2 true (some sampleItem.args) World.initial slice w₁
    hrun).2.1.mpr hlen⟩

def longDiagnostics : CString := .fill 8187 0x78 (by decide)

/-- A finish request of 8190 bytes, which the wrapper refuses. -/
theorem buildHnpRequestWrapper_refuses :
    ∃ slice w₁, (buildFinishRequest Host.standard true (some longDiagnostics)).run World.initial =
        .ok (slice, w₁) ∧ Stops (buildHnpRequestWrapper Host.standard slice .finish) w₁ Halt.IsExit := by
  have hlib : Host.standard.lib.Accessors := Libavro.generic_accessors
  have hwrites : Host.standard.lib.WritesFormat := Libavro.generic_writesFormat
  have hcounted : countedSize 8187 = 8189 := by decide +kernel
  have hlength : (encode (finishRequestValue true longDiagnostics)).length = 8190 := by
    rw [length_encode_finishRequest, longDiagnostics, CString.length_fill, hcounted]
  obtain ⟨slice, w₁, hrun, hbytes⟩ := buildFinishRequest_returns (w := World.initial) hlib
    Host.standard_installed Host.standard_mallocSucceeds hwrites true longDiagnostics
    (by rw [hlength]; decide)
  refine ⟨slice, w₁, hrun, ?_⟩
  refine (buildHnpRequestWrapper_capacity hlib Host.standard_installed Host.standard_mallocSucceeds
    hwrites slice .finish).2 ?_
  unfold Slice.len
  rw [hbytes, hlength]
  decide

end HamsterAvro
