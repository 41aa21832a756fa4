import HamsterAvro.Allocate
import HamsterAvro.Finish
import HamsterAvro.LaunchSpec

/-!
# What the other builders do

An allocate request, a finish request and the wrapper: each writes the record of its arguments if that
fits the buffer and exits otherwise. The records conform to their schemas.
-/

namespace HamsterAvro
open HamsterAvro.Wire HamsterAvro.Avro HamsterAvro.C

/-! ## The records -/

def allocateRequestValue (resourceCount : Int32) : Value :=
  .record [("resource_count", .int resourceCount)]

def finishRequestValue (succeed : Bool) (diagnostics : CString) : Value :=
  .record [("succeed", .boolean succeed), ("diagnostics", .string diagnostics.bytes)]

def hnpRequestValue (inner : Bytes) (msgType : MsgType) : Value :=
  .record [("request", .bytes inner), ("msg_type", .enum msgType.ordinal)]

theorem allocateRequest_conforms (resourceCount : Int32) :
    Conforms allocateRequestRecordAvro (allocateRequestValue resourceCount) := by
  simp [allocateRequestRecordAvro, allocateRequestValue]

theorem finishRequest_conforms (succeed : Bool) {diagnostics : CString}
    (h : diagnostics.bytes.length < 2 ^ 63) :
    Conforms finishRequestRecordAvro (finishRequestValue succeed diagnostics) := by
  simpa [finishRequestRecordAvro, finishRequestValue] using h

theorem MsgType.ordinal_full (msgType : MsgType) :
    Checks.full.ordinal msgTypeSymbols msgType.ordinal := by
  cases msgType <;> exact ⟨by decide, by decide⟩

theorem hnpRequest_conforms {inner : Bytes} (msgType : MsgType) (h : inner.length < 2 ^ 63) :
    Conforms hamsterHnpRequestRecordAvro (hnpRequestValue inner msgType) := by
  simpa [hamsterHnpRequestRecordAvro, hnpRequestValue, msgType.ordinal_full] using h

section host
variable {host : Host} {w : World}

/-! ## The fillers -/

section fillers
variable (hlib : host.lib.Accessors)
include hlib

theorem fillAllocateRequest_returns (resourceCount : Int32) :
    Returns (fillAllocateRequest host resourceCount allocateRequestRecordAvro.default) w
      fun out _ => out.1 = allocateRequestValue resourceCount := by
  have hname : host.lib.byName allocateRequestRecordAvro.default (some []) "resource_count" none =
      some [0] := hlib.byName (i := 0) rfl (by decide) none
  have hput : host.lib.putInt allocateRequestRecordAvro.default (some [0]) resourceCount =
      allocateRequestValue resourceCount := hlib.putInt (r := [0]) (n := 0) rfl resourceCount
  exact Returns.pure (by rw [hname, hput])

theorem fillFinishRequest_returns (succeed : Bool) (diagnostics : CString) :
    Returns (fillFinishRequest host succeed (some diagnostics) finishRequestRecordAvro.default) w
      fun out _ => out.1 = finishRequestValue succeed diagnostics := by
  have hsucceed : host.lib.byName finishRequestRecordAvro.default (some []) "succeed" none =
      some [0] := hlib.byName (i := 0) rfl (by decide) none
  have hput : host.lib.putBoolean finishRequestRecordAvro.default (some [0]) succeed =
      .record [("succeed", .boolean succeed), ("diagnostics", .string [])] :=
    hlib.putBoolean (r := [0]) (b := false) rfl succeed
  have hdiagnostics : host.lib.byName
      (.record [("succeed", .boolean succeed), ("diagnostics", .string [])]) (some []) "diagnostics" none =
      some [1] := hlib.byName (i := 1) rfl (by simp [List.findIdx?_cons]) none
  apply Returns.pure
  simp only [hsucceed, hput, hdiagnostics]
  exact hlib.putString (r := [1]) rfl diagnostics

theorem fillHnpRequest_returns (innerSlice : Slice) (msgType : MsgType) :
    Returns (fillHnpRequest host innerSlice msgType hamsterHnpRequestRecordAvro.default) w
      fun out _ => out.1 = hnpRequestValue innerSlice.bytes msgType := by
  have hrequest : host.lib.byName hamsterHnpRequestRecordAvro.default (some []) "request" none =
      some [0] := hlib.byName (i := 0) rfl (by decide) none
  have hput : host.lib.putBytes hamsterHnpRequestRecordAvro.default (some [0]) innerSlice.bytes =
      .record [("request", .bytes innerSlice.bytes), ("msg_type", .enum 0)] :=
    hlib.putBytes (r := [0]) rfl innerSlice.bytes
  have hmsgType : host.lib.byName
      (.record [("request", .bytes innerSlice.bytes), ("msg_type", .enum 0)]) (some []) "msg_type" none =
      some [1] := hlib.byName (i := 1) rfl (by simp [List.findIdx?_cons]) none
  apply Returns.pure
  simp only [hrequest, hput, hmsgType]
  exact hlib.putEnum (r := [1]) (k := 0) rfl msgType.ordinal

end fillers

/-! ## The builders -/

section builders
variable (hlib : host.lib.Accessors) (hfiles : host.Installed) (hmem : host.MallocSucceeds)
  (hwrites : host.lib.WritesFormat)
include hlib hfiles hmem hwrites

section slice
variable {file unable : String} {schema : Schema} (hfile : (file, schema) ∈ schemaFiles)
  {fill : Value → Prog (Value × Unit)} {v : Value}
  (hfill : ∀ w, Returns (fill schema.default) w fun out _ => out.1 = v)
include hfile hfill

theorem buildSlice_returns (hfits : (encode v).length ≤ bufferSize) :
    Returns (do let (slice, _) ← buildRequest host file unable fill; pure slice) w
      fun slice _ => slice.bytes = encode v :=
  (buildRequest_returns hlib hfiles hmem hfile hwrites (P := fun _ => True)
    (fun w => (hfill w).mono fun _ _ h => ⟨h, trivial⟩) hfits).bind fun _ _ h => Returns.pure h.1

theorem buildSlice_stops (hover : bufferSize < (encode v).length) :
    Stops (do let (slice, _) ← buildRequest host file unable fill; pure slice) w Halt.IsExit :=
  (buildRequest_stops hlib hfiles hmem hfile hwrites (P := fun _ => True)
    (fun w => (hfill w).mono fun _ _ h => ⟨h, trivial⟩) hover).bind_left

end slice

theorem buildAllocateRequest_returns (resourceCount : Int32)
    (hfits : (encode (allocateRequestValue resourceCount)).length ≤ bufferSize) :
    Returns (buildAllocateRequest host resourceCount) w
      fun slice _ => slice.bytes = encode (allocateRequestValue resourceCount) :=
  buildSlice_returns hlib hfiles hmem hwrites allocateRequest_mem
    (fun _ => fillAllocateRequest_returns hlib resourceCount) hfits

theorem buildFinishRequest_returns (succeed : Bool) (diagnostics : CString)
    (hfits : (encode (finishRequestValue succeed diagnostics)).length ≤ bufferSize) :
    Returns (buildFinishRequest host succeed (some diagnostics)) w
      fun slice _ => slice.bytes = encode (finishRequestValue succeed diagnostics) :=
  buildSlice_returns hlib hfiles hmem hwrites finishRequest_mem
    (fun _ => fillFinishRequest_returns hlib succeed diagnostics) hfits

theorem buildFinishRequest_stops (succeed : Bool) (diagnostics : CString)
    (hover : bufferSize < (encode (finishRequestValue succeed diagnostics)).length) :
    Stops (buildFinishRequest host succeed (some diagnostics)) w Halt.IsExit :=
  buildSlice_stops hlib hfiles hmem hwrites finishRequest_mem
    (fun _ => fillFinishRequest_returns hlib succeed diagnostics) hover

theorem buildHnpRequestWrapper_returns (innerSlice : Slice) (msgType : MsgType)
    (hfits : (encode (hnpRequestValue innerSlice.bytes msgType)).length ≤ bufferSize) :
    Returns (buildHnpRequestWrapper host innerSlice msgType) w
      fun slice _ => slice.bytes = encode (hnpRequestValue innerSlice.bytes msgType) :=
  buildSlice_returns hlib hfiles hmem hwrites hamsterHnpRequest_mem
    (fun _ => fillHnpRequest_returns hlib innerSlice msgType) hfits

theorem buildHnpRequestWrapper_stops (innerSlice : Slice) (msgType : MsgType)
    (hover : bufferSize < (encode (hnpRequestValue innerSlice.bytes msgType)).length) :
    Stops (buildHnpRequestWrapper host innerSlice msgType) w Halt.IsExit :=
  buildSlice_stops hlib hfiles hmem hwrites hamsterHnpRequest_mem
    (fun _ => fillHnpRequest_returns hlib innerSlice msgType) hover

end builders

end host

end HamsterAvro
