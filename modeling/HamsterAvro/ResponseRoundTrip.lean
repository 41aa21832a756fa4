import HamsterAvro.Acknowledgement
import HamsterAvro.Untrusted

/-!
# The response builders of `test/`, and what comes back

The sending side of the other responses. `buildLaunchResponse` and `buildHeartbeatResponse` write the
records of their elements, a state as whatever number is stored; `buildRegisterResponse` and
`buildFinishResponse` write the two acknowledgements, which take no bytes.
-/

namespace HamsterAvro
open HamsterAvro.Wire HamsterAvro.Avro HamsterAvro.C

/-! ## `launch_response_test.c`, `heartbeat_response_test.c` -/

/-- The record being filled, and the locals. -/
structure ResponseFill (L : Type) where
  record : Value
  locals : L

section host
variable (host : Host)

/-- What the two builders have in common: the loop over the array. -/
def fillResponse {L : Type} (field : String)
    (pass : Libavro.Handle → ResponseFill L → Nat → Prog (ResponseFill L)) (locals : L) (arraySize : Nat)
    (record : Value) : Prog (Value × Unit) := do
  let elemsValue := host.lib.byName record (some []) field none
  let st ← (List.range arraySize).foldlM (pass elemsValue) { record, locals }
  pure (st.record, ())

def fillLaunchResult (launchResponseArray : List LaunchResponse) (resultsValue : Libavro.Handle)
    (st : ResponseFill LaunchResultLocals) (i : Nat) : Prog (ResponseFill LaunchResultLocals) :=
  match launchResponseArray[i]? with
  | none => throw .undefined -- past the end of the array
  | some response =>
    let lib := host.lib
    let (record, launchResultValue) := lib.appendTo st.record resultsValue st.locals.launchResultValue
    let isSuccessfulValue :=
      lib.byName record launchResultValue "is_successful" st.locals.isSuccessfulValue
    let record := lib.putBoolean record isSuccessfulValue response.isSuccessful
    let nameValue := lib.byName record launchResultValue "name" st.locals.nameValue
    let jobidValue := lib.byName record nameValue "jobid" st.locals.jobidValue
    let record := lib.putInt record jobidValue response.procName.jobid
    let vpidValue := lib.byName record nameValue "vpid" st.locals.vpidValue
    pure {
      record := lib.putInt record vpidValue response.procName.vpid
      locals := { launchResultValue, isSuccessfulValue, nameValue, jobidValue, vpidValue } }

def buildLaunchResponse (launchResponseArray : List LaunchResponse) (arraySize : Nat) : Prog Slice := do
  let (slice, _) ← buildRequest host "LaunchResponseRecordAvro.avsc"
    "Unable to write record to memory buffer"
    (fillResponse host "results" (fillLaunchResult host launchResponseArray) {} arraySize)
  pure slice

def fillProcessStatus (completedProcArray : List CompletedProc) (completedProcessesValue : Libavro.Handle)
    (st : ResponseFill ProcessStatusLocals) (i : Nat) : Prog (ResponseFill ProcessStatusLocals) :=
  match completedProcArray[i]? with
  | none => throw .undefined -- past the end of the array
  | some proc =>
    let lib := host.lib
    let (record, processStatusValue) :=
      lib.appendTo st.record completedProcessesValue st.locals.processStatusValue
    let nameValue := lib.byName record processStatusValue "name" st.locals.nameValue
    let jobidValue := lib.byName record nameValue "jobid" st.locals.jobidValue
    let record := lib.putInt record jobidValue proc.procName.jobid
    let vpidValue := lib.byName record nameValue "vpid" st.locals.vpidValue
    let record := lib.putInt record vpidValue proc.procName.vpid
    let stateValue := lib.byName record processStatusValue "state" st.locals.stateValue
    let record := lib.putEnum record stateValue proc.procState
    let exitValueValue := lib.byName record processStatusValue "exit_value" st.locals.exitValueValue
    pure {
      record := lib.putInt record exitValueValue proc.exitValue
      locals := { processStatusValue, nameValue, jobidValue, vpidValue, stateValue, exitValueValue } }

def buildHeartbeatResponse (completedProcArray : List CompletedProc) (arraySize : Nat) : Prog Slice := do
  let (slice, _) ← buildRequest host "HeartBeatResponseRecordAvro.avsc"
    "Unable to write record to memory buffer"
    (fillResponse host "completed_processes" (fillProcessStatus host completedProcArray) {} arraySize)
  pure slice

/-! ## `register_response_test.c`, `finish_response_test.c` -/

def buildRegisterResponse : Prog Slice := do
  let (slice, _) ← buildRequest host "RegisterResponseRecordAvro.avsc"
    "Unable to write record to memory buffer" fun record => pure (record, ())
  pure slice

def buildFinishResponse : Prog Slice := do
  let (slice, _) ← buildRequest host "FinishResponseRecordAvro.avsc"
    "Unable to write record to memory buffer" fun record => pure (record, ())
  pure slice

end host

/-! ### What they write -/

def launchResponseOf (responses : List LaunchResponse) : Value :=
  arrayRecord "results" launchResult (responses.map launchResultValue)

section spec
variable {host : Host} {w : World} {field : String} {items : Schema} {vs : List Value}

/-- One pass of a loop that adds the record of its element. -/
def AddsElement {L α : Type} (field : String) (items : Schema) (toValue : α → Value) (xs : List α)
    (pass : ResponseFill L → Nat → Prog (ResponseFill L)) : Prop :=
  ∀ i x st vs w, xs[i]? = some x → st.record = arrayRecord field items vs →
    Returns (pass st i) w fun st' _ => st'.record = arrayRecord field items (vs ++ [toValue x])

/-- One pass more, one element more. -/
theorem AddsElement.step {L α : Type} {toValue : α → Value} {xs : List α}
    {pass : ResponseFill L → Nat → Prog (ResponseFill L)} (hpass : AddsElement field items toValue xs pass)
    {i : Nat} (hi : i < xs.length) {st : ResponseFill L}
    (hrecord : st.record = arrayRecord field items ((xs.take i).map toValue)) :
    Returns (pass st i) w fun st' _ =>
      st'.record = arrayRecord field items ((xs.take (i + 1)).map toValue) := by
  have hget : xs[i]? = some xs[i] := List.getElem?_eq_getElem hi
  refine (hpass i _ st _ w hget hrecord).mono fun st' _ h => ?_
  rw [h, List.take_add_one, hget, List.map_append]
  rfl

section passes
variable (hlib : host.lib.Accessors)
include hlib

theorem appendTo_arrayRecord (out : Libavro.Handle) :
    host.lib.appendTo (arrayRecord field items vs) (some [0]) out =
      (arrayRecord field items (vs ++ [items.default]), some [0, vs.length]) := by
  have harray : (arrayRecord field items vs).at? [0] = some (.array items vs) := rfl
  exact hlib.appendTo harray out

/-- A field of the last element. -/
theorem byName_lastElem (name : String) {fields : List (String × Value)} {n : Nat}
    (hn : (fields.map Prod.fst).findIdx? (· == name) = some n) (out : Libavro.Handle) :
    host.lib.byName (arrayRecord field items (vs ++ [.record fields])) (some [0, vs.length]) name out =
      some [0, vs.length, n] :=
  hlib.byName (at?_arrayRecord_last _ _ vs _ []) (List.findIdx?_map.symm.trans hn) out

/-- The two fields of a process name that is field `n` of the last element. -/
theorem byName_lastElemName (name : String) {v : Value} {m n : Nat} {jobid vpid : Int32}
    (hn : v.at? [n] = some (.record [("jobid", .int jobid), ("vpid", .int vpid)]))
    (hm : ["jobid", "vpid"].findIdx? (· == name) = some m) (out : Libavro.Handle) :
    host.lib.byName (arrayRecord field items (vs ++ [v])) (some [0, vs.length, n]) name out =
      some [0, vs.length, n, m] :=
  hlib.byName ((at?_arrayRecord_last _ _ vs v [n]).trans hn)
    ((List.findIdx?_map (f := Prod.fst) (p := (· == name))).symm.trans hm) out

theorem putInt_last {v : Value} {r : Ref} {n : Int32} (hv : v.at? r = some (.int n)) (n' : Int32) :
    host.lib.putInt (arrayRecord field items (vs ++ [v])) (some (0 :: vs.length :: r)) n' =
      arrayRecord field items (vs ++ [Value.setAt (.int n') v r]) := by
  rw [hlib.putInt ((at?_arrayRecord_last _ _ vs v r).trans hv), setAt_arrayRecord_last]

theorem putBoolean_last {v : Value} {r : Ref} {b : Bool} (hv : v.at? r = some (.boolean b)) (b' : Bool) :
    host.lib.putBoolean (arrayRecord field items (vs ++ [v])) (some (0 :: vs.length :: r)) b' =
      arrayRecord field items (vs ++ [Value.setAt (.boolean b') v r]) := by
  rw [hlib.putBoolean ((at?_arrayRecord_last _ _ vs v r).trans hv), setAt_arrayRecord_last]

theorem putEnum_last {v : Value} {r : Ref} {k : Int32} (hv : v.at? r = some (.enum k)) (k' : Int32) :
    host.lib.putEnum (arrayRecord field items (vs ++ [v])) (some (0 :: vs.length :: r)) k' =
      arrayRecord field items (vs ++ [Value.setAt (.enum k') v r]) := by
  rw [hlib.putEnum ((at?_arrayRecord_last _ _ vs v r).trans hv), setAt_arrayRecord_last]

theorem fillLaunchResult_returns (responses : List LaunchResponse) :
    AddsElement "results" launchResult launchResultValue responses
      (fillLaunchResult host responses (some [0])) := by
  intro i response st vs w hresponse hrecord
  have hfield (name : String) {n : Nat} (hn : ["is_successful", "name"].findIdx? (· == name) = some n)
      (r : LaunchResponse) (out : Libavro.Handle) :
      host.lib.byName (arrayRecord "results" launchResult (vs ++ [launchResultValue r]))
        (some [0, vs.length]) name out = some [0, vs.length, n] :=
    byName_lastElem hlib name (by exact hn) out
  have hname (name : String) {m : Nat} (hm : ["jobid", "vpid"].findIdx? (· == name) = some m)
      (r : LaunchResponse) (out : Libavro.Handle) :
      host.lib.byName (arrayRecord "results" launchResult (vs ++ [launchResultValue r]))
        (some [0, vs.length, 1]) name out = some [0, vs.length, 1, m] :=
    byName_lastElemName hlib name rfl hm out
  have hputBoolean (r : LaunchResponse) (b : Bool) :
      host.lib.putBoolean (arrayRecord "results" launchResult (vs ++ [launchResultValue r]))
        (some [0, vs.length, 0]) b =
      arrayRecord "results" launchResult (vs ++ [launchResultValue { r with isSuccessful := b }]) :=
    putBoolean_last hlib (b := r.isSuccessful) rfl b
  have hputJobid (r : LaunchResponse) (n : Int32) :
      host.lib.putInt (arrayRecord "results" launchResult (vs ++ [launchResultValue r]))
        (some [0, vs.length, 1, 0]) n =
      arrayRecord "results" launchResult (vs ++ [launchResultValue { r with procName.jobid := n }]) :=
    putInt_last hlib (n := r.procName.jobid) rfl n
  have hputVpid (r : LaunchResponse) (n : Int32) :
      host.lib.putInt (arrayRecord "results" launchResult (vs ++ [launchResultValue r]))
        (some [0, vs.length, 1, 1]) n =
      arrayRecord "results" launchResult (vs ++ [launchResultValue { r with procName.vpid := n }]) :=
    putInt_last hlib (n := r.procName.vpid) rfl n
  have hdefault : launchResult.default = launchResultValue ⟨false, ⟨0, 0⟩⟩ := rfl
  unfold fillLaunchResult
  rw [hresponse]
  simp only [hrecord, appendTo_arrayRecord hlib, hdefault,
    hfield "is_successful" (n := 0) (by decide), hputBoolean, hfield "name" (n := 1) (by decide),
    hname "jobid" (m := 0) (by decide), hputJobid, hname "vpid" (m := 1) (by decide), hputVpid]
  exact Returns.pure rfl

theorem fillProcessStatus_returns (procs : List CompletedProc) :
    AddsElement "completed_processes" processStatus CompletedProc.toValue procs
      (fillProcessStatus host procs (some [0])) := by
  intro i proc st vs w hproc hrecord
  have hfield (name : String) {n : Nat}
      (hn : ["name", "state", "exit_value"].findIdx? (· == name) = some n) (p : CompletedProc)
      (out : Libavro.Handle) :
      host.lib.byName (arrayRecord "completed_processes" processStatus (vs ++ [p.toValue]))
        (some [0, vs.length]) name out = some [0, vs.length, n] :=
    byName_lastElem hlib name (by exact hn) out
  have hname (name : String) {m : Nat} (hm : ["jobid", "vpid"].findIdx? (· == name) = some m)
      (p : CompletedProc) (out : Libavro.Handle) :
      host.lib.byName (arrayRecord "completed_processes" processStatus (vs ++ [p.toValue]))
        (some [0, vs.length, 0]) name out = some [0, vs.length, 0, m] :=
    byName_lastElemName hlib name rfl hm out
  have hputJobid (p : CompletedProc) (n : Int32) :
      host.lib.putInt (arrayRecord "completed_processes" processStatus (vs ++ [p.toValue]))
        (some [0, vs.length, 0, 0]) n =
      arrayRecord "completed_processes" processStatus (vs ++ [{ p with procName.jobid := n }.toValue]) :=
    putInt_last hlib (n := p.procName.jobid) rfl n
  have hputVpid (p : CompletedProc) (n : Int32) :
      host.lib.putInt (arrayRecord "completed_processes" processStatus (vs ++ [p.toValue]))
        (some [0, vs.length, 0, 1]) n =
      arrayRecord "completed_processes" processStatus (vs ++ [{ p with procName.vpid := n }.toValue]) :=
    putInt_last hlib (n := p.procName.vpid) rfl n
  have hputState (p : CompletedProc) (k : Int32) :
      host.lib.putEnum (arrayRecord "completed_processes" processStatus (vs ++ [p.toValue]))
        (some [0, vs.length, 1]) k =
      arrayRecord "completed_processes" processStatus (vs ++ [{ p with procState := k }.toValue]) :=
    putEnum_last hlib (k := p.procState) rfl k
  have hputExitValue (p : CompletedProc) (n : Int32) :
      host.lib.putInt (arrayRecord "completed_processes" processStatus (vs ++ [p.toValue]))
        (some [0, vs.length, 2]) n =
      arrayRecord "completed_processes" processStatus (vs ++ [{ p with exitValue := n }.toValue]) :=
    putInt_last hlib (n := p.exitValue) rfl n
  have hdefault : processStatus.default = CompletedProc.toValue ⟨⟨0, 0⟩, 0, 0⟩ := rfl
  unfold fillProcessStatus
  rw [hproc]
  simp only [hrecord, appendTo_arrayRecord hlib, hdefault, hfield "name" (n := 0) (by decide),
    hname "jobid" (m := 0) (by decide), hputJobid, hname "vpid" (m := 1) (by decide), hputVpid,
    hfield "state" (n := 1) (by decide), hputState, hfield "exit_value" (n := 2) (by decide),
    hputExitValue]
  exact Returns.pure rfl

/-- The whole loop adds the elements it is told to. -/
theorem fillResponse_returns {L α : Type} {name : String} {toValue : α → Value} {xs : List α} {n : Nat}
    {pass : Libavro.Handle → ResponseFill L → Nat → Prog (ResponseFill L)} {locals : L}
    (hpass : AddsElement field items toValue xs (pass (some [0]))) (hn : n ≤ xs.length) :
    Returns (fillResponse host field pass locals n (Schema.record name [(field, .array items)]).default) w
      fun out _ => out.1 = arrayRecord field items ((xs.take n).map toValue) := by
  have hname : host.lib.byName (arrayRecord field items []) (some []) field none = some [0] :=
    hlib.byName (i := 0) rfl (by simp) none
  have hdefault : (Schema.record name [(field, .array items)]).default = arrayRecord field items [] := rfl
  unfold fillResponse
  rw [hdefault, hname]
  refine Returns.bind (Returns.forRange (fun i st _ =>
    st.record = arrayRecord field items ((xs.take i).map toValue)) rfl
      fun i hi st w hrecord => hpass.step (by omega) hrecord) fun st _ h => Returns.pure h

/-- A loop that is told to go on past the end of the array reads what is not there. -/
theorem fillResponse_undefined {L α : Type} {name : String} {toValue : α → Value} {xs : List α} {n : Nat}
    {pass : Libavro.Handle → ResponseFill L → Nat → Prog (ResponseFill L)} {locals : L}
    (hpass : AddsElement field items toValue xs (pass (some [0])))
    (hend : ∀ i st w, xs[i]? = none → Stops (pass (some [0]) st i) w (· = .undefined))
    (hn : xs.length < n) :
    Stops (fillResponse host field pass locals n (Schema.record name [(field, .array items)]).default) w
      (· = .undefined) := by
  have hname : host.lib.byName (arrayRecord field items []) (some []) field none = some [0] :=
    hlib.byName (i := 0) rfl (by simp) none
  have hdefault : (Schema.record name [(field, .array items)]).default = arrayRecord field items [] := rfl
  unfold fillResponse
  rw [hdefault, hname]
  apply Stops.bind_left
  refine Stops.forRange
    (fun i st _ => st.record = arrayRecord field items ((xs.take i).map toValue)) rfl
    (fun i _ hi st w hrecord => hpass.step hi hrecord)
    (fun i _ hi st w _ => hend i st w (List.getElem?_eq_none (Nat.le_of_not_lt hi))) fun hall => ?_
  exact absurd (hall xs.length hn) (Nat.lt_irrefl _)

end passes

/-! ### The loop of `buildAllocateResponse` -/

/-- The first `n` elements are there, and their names can be read. -/
def NodeResource.AllReadable (nodes : List NodeResource) (n : Nat) : Prop :=
  ∀ i < n, ∃ node, nodes[i]? = some node ∧ node.Readable

theorem readCString_undefined {p : Block} (h : ¬ (p.addr ≠ 0 ∧ 0 ∈ p.bytes)) :
    Stops (readCString p) w (· = .undefined) := by
  unfold readCString
  rw [if_neg h]
  exact Stops.throw rfl

theorem fillNodeResource_undefined {nodes : List NodeResource} {i : Nat} {elems : Libavro.Handle}
    {st : AllocateResponseFill} (h : ¬ ∃ node, nodes[i]? = some node ∧ node.Readable) :
    Stops (fillNodeResource host nodes elems st i) w (· = .undefined) := by
  unfold fillNodeResource
  cases hnode : nodes[i]? with
  | none => exact Stops.throw rfl
  | some node => exact (readCString_undefined fun hread => h ⟨node, hnode, hread⟩).bind_left

section allocate
variable (hlib : host.lib.Accessors) {nodes : List NodeResource} {n : Nat}
include hlib

theorem fillNodeResource_step {i : Nat} (h : ∃ node, nodes[i]? = some node ∧ node.Readable)
    {st : AllocateResponseFill}
    (hrecord : st.record = allocateResponseValue ((nodes.take i).map fun node => node.seen.toValue)) :
    Returns (fillNodeResource host nodes (some [0]) st i) w fun st' _ =>
      st'.record = allocateResponseValue ((nodes.take (i + 1)).map fun node => node.seen.toValue) := by
  obtain ⟨node, hnode, hread⟩ := h
  refine (fillNodeResource_returns hlib hnode hread hrecord).mono fun st' _ h => ?_
  rw [h, List.take_add_one, hnode, List.map_append]
  rfl

theorem fillAllocateResponse_prefix (hread : NodeResource.AllReadable nodes n) :
    Returns (fillAllocateResponse host nodes n allocateResponseRecordAvro.default) w fun out _ =>
      out.1 = allocateResponseValue ((nodes.take n).map fun node => node.seen.toValue) := by
  have hname : host.lib.byName allocateResponseRecordAvro.default (some []) "node_resources" none =
      some [0] := hlib.byName (i := 0) rfl (by decide) none
  unfold fillAllocateResponse
  rw [hname]
  exact Returns.bind (Returns.forRange (fun i st _ => st.record =
      allocateResponseValue ((nodes.take i).map fun node => node.seen.toValue)) rfl
    fun i hi st w hrecord => fillNodeResource_step hlib (hread i hi) hrecord) fun st _ h => Returns.pure h

theorem fillAllocateResponse_undefined (hread : ¬ NodeResource.AllReadable nodes n) :
    Stops (fillAllocateResponse host nodes n allocateResponseRecordAvro.default) w (· = .undefined) := by
  have hname : host.lib.byName allocateResponseRecordAvro.default (some []) "node_resources" none =
      some [0] := hlib.byName (i := 0) rfl (by decide) none
  unfold fillAllocateResponse
  rw [hname]
  apply Stops.bind_left
  exact Stops.forRange (fun i st _ => st.record =
      allocateResponseValue ((nodes.take i).map fun node => node.seen.toValue)) rfl
    (fun i _ hi st w hrecord => fillNodeResource_step hlib hi hrecord)
    (fun i _ hi st w _ => fillNodeResource_undefined hi) hread

end allocate

end spec

/-! ## The builders -/

/-- A builder of arrays writes the record of the first `arraySize` elements, or exits if that does not
fit the buffer; where one of them is not there to be read, it reads it all the same. -/
structure BuildsArray {α : Type} (build : List α → Nat → Prog Slice) (There : List α → Nat → Prop)
    (recordOf : List α → Value) : Prop where
  returns : ∀ xs n w, There xs n → (encode (recordOf (xs.take n))).length ≤ bufferSize →
    Returns (build xs n) w fun slice _ => slice.bytes = encode (recordOf (xs.take n))
  exits : ∀ xs n w, There xs n → bufferSize < (encode (recordOf (xs.take n))).length →
    Stops (build xs n) w Halt.IsExit
  undefined : ∀ xs n w, ¬ There xs n → Stops (build xs n) w (· = .undefined)

/-- What is known of a slice that was built. -/
theorem BuildsArray.of_run {α : Type} {build : List α → Nat → Prog Slice} {There : List α → Nat → Prop}
    {recordOf : List α → Value} (h : BuildsArray build There recordOf) {xs : List α} {n : Nat}
    {w w' : World} {slice : Slice} (hrun : (build xs n).run w = .ok (slice, w')) :
    There xs n ∧ (encode (recordOf (xs.take n))).length ≤ bufferSize ∧
      slice.bytes = encode (recordOf (xs.take n)) := by
  have hthere : There xs n := by
    by_contra hthere
    exact (h.undefined xs n w hthere).not_ok slice w' hrun
  have hfits := Stops.le_of_run (h.exits xs n w hthere) hrun
  exact ⟨hthere, hfits, (h.returns xs n w hthere hfits).of_run hrun⟩

def NodeResource.responseOf (nodes : List NodeResource) : Value :=
  allocateResponseValue (nodes.map fun node => node.seen.toValue)

theorem NodeResource.responseOf_eq (nodes : List NodeResource) : NodeResource.responseOf nodes =
    allocateResponseValue ((nodes.map NodeResource.seen).map NodeSlot.toValue) := by
  unfold NodeResource.responseOf
  rw [List.map_map]
  rfl

section builders
variable {host : Host} (hlib : host.lib.Accessors) (hfiles : host.Installed)
  (hmem : host.MallocSucceeds) (hwrites : host.lib.WritesFormat)
include hlib hfiles hmem hwrites

theorem buildLaunchResponse_builds :
    BuildsArray (buildLaunchResponse host) (fun xs n => n ≤ xs.length) launchResponseOf where
  returns xs n w hn hfits := buildSlice_returns hlib hfiles hmem hwrites launchResponse_mem
    (fun _ => fillResponse_returns hlib (fillLaunchResult_returns hlib xs) hn) hfits
  exits xs n w hn hover := buildSlice_stops hlib hfiles hmem hwrites launchResponse_mem
    (fun _ => fillResponse_returns hlib (fillLaunchResult_returns hlib xs) hn) hover
  undefined xs n w hn := by
    apply Stops.bind_left
    apply buildRequest_stops_of_fill hlib hfiles hmem launchResponse_mem
    intro w
    refine fillResponse_undefined hlib (fillLaunchResult_returns hlib xs) (fun i st w hi => ?_)
      (Nat.lt_of_not_le hn)
    unfold fillLaunchResult
    rw [hi]
    exact Stops.throw rfl

theorem buildHeartbeatResponse_builds :
    BuildsArray (buildHeartbeatResponse host) (fun xs n => n ≤ xs.length) heartbeatResponseOf where
  returns xs n w hn hfits := buildSlice_returns hlib hfiles hmem hwrites heartBeatResponse_mem
    (fun _ => fillResponse_returns hlib (fillProcessStatus_returns hlib xs) hn) hfits
  exits xs n w hn hover := buildSlice_stops hlib hfiles hmem hwrites heartBeatResponse_mem
    (fun _ => fillResponse_returns hlib (fillProcessStatus_returns hlib xs) hn) hover
  undefined xs n w hn := by
    apply Stops.bind_left
    apply buildRequest_stops_of_fill hlib hfiles hmem heartBeatResponse_mem
    intro w
    refine fillResponse_undefined hlib (fillProcessStatus_returns hlib xs) (fun i st w hi => ?_)
      (Nat.lt_of_not_le hn)
    unfold fillProcessStatus
    rw [hi]
    exact Stops.throw rfl

theorem buildAllocateResponse_builds :
    BuildsArray (buildAllocateResponse host) NodeResource.AllReadable NodeResource.responseOf where
  returns xs n w hread hfits := buildSlice_returns hlib hfiles hmem hwrites allocateResponse_mem
    (fun _ => fillAllocateResponse_prefix hlib hread) hfits
  exits xs n w hread hover := buildSlice_stops hlib hfiles hmem hwrites allocateResponse_mem
    (fun _ => fillAllocateResponse_prefix hlib hread) hover
  undefined xs n w hread := by
    apply Stops.bind_left
    apply buildRequest_stops_of_fill hlib hfiles hmem allocateResponse_mem
    intro w
    exact fillAllocateResponse_undefined hlib hread

/-- A builder that fills nothing in writes a record with one null field, which takes no bytes. -/
theorem buildEmpty_returns {file name field unable : String} {w : World}
    (hfile : (file, .record name [(field, .null)]) ∈ schemaFiles) :
    Returns (do let (slice, _) ← buildRequest host file unable fun record => pure (record, ()); pure slice)
      w fun slice _ => slice.bytes = [] :=
  buildSlice_returns hlib hfiles hmem hwrites hfile (v := .record [(field, .null)])
    (fun _ => Returns.pure rfl) (Nat.zero_le _)

end builders

/-! ## What comes back -/

/-- A list that fits the buffer is not longer than the buffer. -/
theorem length_le_bufferSize {α : Type} {field : String} {items : Schema} {toValue : α → Value}
    {xs : List α} (hpos : ∀ x, 0 < (encode (toValue x)).length)
    (hfits : (encode (arrayRecord field items (xs.map toValue))).length ≤ bufferSize) :
    xs.length ≤ bufferSize := by
  rw [length_encode_arrayRecord] at hfits
  have hlength := length_le_arraySize (xs.map fun x => (encode (toValue x)).length)
    (List.forall_mem_map.mpr fun x _ => hpos x)
  rw [List.length_map] at hlength
  exact hlength.trans hfits

section encodes

theorem encodes_launchResponse {responses : List LaunchResponse}
    (hfits : (encode (launchResponseOf responses)).length ≤ bufferSize) :
    Encodes .none launchResponseRecordAvro (launchResponseOf responses)
      (encode (launchResponseOf responses)) := by
  have hpos (response : LaunchResponse) : 0 < (encode (launchResultValue response)).length := by
    simp [launchResultValue, length_encode_record, length_encode_boolean]
  have hlength := length_le_bufferSize hpos hfits
  exact (encodes_encode (arrayRecord_conforms (lt_of_le_of_lt hlength (by decide)) fun response _ =>
    launchResult_conforms response)).to_none

theorem encodes_allocateResponse {nodes : List NodeSlot}
    (hfits : (encode (allocateResponseValue (nodes.map NodeSlot.toValue))).length ≤ bufferSize) :
    Encodes .none allocateResponseRecordAvro (allocateResponseValue (nodes.map NodeSlot.toValue))
      (encode (allocateResponseValue (nodes.map NodeSlot.toValue))) := by
  have hsize (node : NodeSlot) : (encode node.toValue).length =
      countedSize node.hostName.bytes.length + longSize node.slot.toInt := length_encode_nodeResource _ _
  have hpos (node : NodeSlot) : 0 < (encode node.toValue).length := by
    rw [hsize]
    exact Nat.add_pos_left (countedSize_pos _) _
  have hlength := length_le_bufferSize hpos hfits
  refine (encodes_encode (arrayRecord_conforms (lt_of_le_of_lt hlength (by decide)) fun node hnode => ?_)).to_none
  -- a name is no longer than its element, which fits
  have helem := mem_le_arraySize (List.mem_map_of_mem (f := fun node => (encode node.toValue).length) hnode)
  have hname := le_countedSize node.hostName.bytes.length
  rw [allocateResponseValue, length_encode_arrayRecord] at hfits
  rw [hsize] at helem
  have hbuffer : bufferSize < 2 ^ 63 := by decide
  exact nodeResource_conforms _ (by omega)

theorem encodes_heartbeatResponse_of_fits {procs : List CompletedProc}
    (hfits : (encode (heartbeatResponseOf procs)).length ≤ bufferSize) :
    Encodes .none heartBeatResponseRecordAvro (heartbeatResponseOf procs)
      (encode (heartbeatResponseOf procs)) := by
  have hpos (proc : CompletedProc) : 0 < (encode proc.toValue).length := by
    have := longSize_pos proc.exitValue.toInt
    simp only [CompletedProc.toValue, processStatusValue, length_encode_record, List.map_cons,
      List.map_nil, List.sum_cons, List.sum_nil, length_encode_int]
    omega
  exact encodes_heartbeatResponse (lt_of_le_of_lt (length_le_bufferSize hpos hfits) (by decide))

end encodes

/-- The names are returned as the strings that are read through the pointers. -/
theorem parseAllocateResponse_returned {host : Host} {w : World} (hlib : host.lib.Accessors)
    (hfiles : host.Installed) (hmem : host.MallocSucceeds) (hreads : host.lib.ReadsFormat) {slice : Slice}
    {out : OutPointers} {raw : Nat → NodeResource} {memory : Memory} (hdisj : out.Disjoint)
    {nodes : List NodeSlot} {c : Checks} {word rest : Bytes} (hslice : slice.bytes = word ++ rest)
    (h : Encodes c allocateResponseRecordAvro (allocateResponseValue (nodes.map NodeSlot.toValue)) word) :
    Returns (parseAllocateResponse host slice out raw memory) w
      fun res _ => res.Returned (fun node x => x.seen = node ∧ x.Readable) nodes out := by
  refine parseArray_returned hlib hfiles hmem hreads allocateResponse_mem (by decide) hdisj
    (parseNodeResource_decodes hlib) (fun node x hx => ?_) hslice h
  obtain ⟨hostName, hx, haddr, hname⟩ := hx
  obtain ⟨rfl, hslot⟩ := nodeResourceValue_inj hx
  refine ⟨?_, haddr, by simp [hname]⟩
  unfold NodeResource.seen
  rw [Block.cString_eq hname, ← hslot]

section roundTrip
variable {host : Host} (hlib : host.lib.Accessors) (hfiles : host.Installed)
  (hmem : host.MallocSucceeds) (hwrites : host.lib.WritesFormat) (hreads : host.lib.ReadsFormat)
include hlib hfiles hmem hwrites hreads

/-- What a response builder is given is what the parser of the response returns: the first `arraySize`
elements, in order, a state also where the C enum does not have it, a host name as the string that is read
through its pointer. What the two other builders write is refused. -/
theorem buildResponse_roundTrip :
    (∀ responses n w slice w', (buildLaunchResponse host responses n).run w = .ok (slice, w') →
      n ≤ responses.length ∧ ∀ out raw memory w, out.Disjoint →
        Returns (parseLaunchResponse host slice out raw memory) w
          fun res _ => res.Returned (fun response x => x = response) (responses.take n) out) ∧
    (∀ procs n w slice w', (buildHeartbeatResponse host procs n).run w = .ok (slice, w') →
      n ≤ procs.length ∧ ∀ out raw memory w, out.Disjoint →
        Returns (parseHeartbeatResponse host slice out raw memory) w
          fun res _ => res.Returned (fun proc x => x = proc) (procs.take n) out) ∧
    (∀ nodes n w slice w', (buildAllocateResponse host nodes n).run w = .ok (slice, w') →
      NodeResource.AllReadable nodes n ∧ ∀ out raw memory w, out.Disjoint →
        Returns (parseAllocateResponse host slice out raw memory) w
          fun res _ => res.Returned (fun node x => x.seen = node ∧ x.Readable)
            ((nodes.take n).map NodeResource.seen) out) ∧
    (∀ w slice w', (buildRegisterResponse host).run w = .ok (slice, w') →
      slice.bytes = [] ∧ ∀ w, Returns (parseRegisterResponse host slice) w fun result _ => result = -1) ∧
    (∀ w slice w', (buildFinishResponse host).run w = .ok (slice, w') →
      slice.bytes = [] ∧ ∀ w, Returns (parseFinishResponse host slice) w fun result _ => result = -1) := by
  refine ⟨fun responses n w slice w' hrun => ?_, fun procs n w slice w' hrun => ?_,
    fun nodes n w slice w' hrun => ?_, fun w slice w' hrun => ?_, fun w slice w' hrun => ?_⟩
  · obtain ⟨hn, hfits, hbytes⟩ := (buildLaunchResponse_builds hlib hfiles hmem hwrites).of_run hrun
    refine ⟨hn, fun out raw memory w hdisj => ?_⟩
    exact parseArray_returned hlib hfiles hmem hreads launchResponse_mem (by decide) hdisj
      (parseLaunchResult_decodes hlib) (fun response x hx => (launchResultValue_inj hx).symm)
      (hbytes.trans (List.append_nil _).symm) (encodes_launchResponse hfits)
  · obtain ⟨hn, hfits, hbytes⟩ := (buildHeartbeatResponse_builds hlib hfiles hmem hwrites).of_run hrun
    refine ⟨hn, fun out raw memory w hdisj => ?_⟩
    exact parseArray_returned hlib hfiles hmem hreads heartBeatResponse_mem (by decide) hdisj
      (parseProcessStatus_decodes hlib) (fun proc x hx => (CompletedProc.toValue_injective hx).symm)
      (hbytes.trans (List.append_nil _).symm) (encodes_heartbeatResponse_of_fits hfits)
  · obtain ⟨hread, hfits, hbytes⟩ := (buildAllocateResponse_builds hlib hfiles hmem hwrites).of_run hrun
    refine ⟨hread, fun out raw memory w hdisj => ?_⟩
    rw [NodeResource.responseOf_eq] at hfits hbytes
    exact parseAllocateResponse_returned hlib hfiles hmem hreads hdisj
      (hbytes.trans (List.append_nil _).symm) (encodes_allocateResponse hfits)
  · exact ⟨(buildEmpty_returns hlib hfiles hmem hwrites registerResponse_mem).of_run hrun,
      fun w => parseAcknowledgement_returns hlib hfiles hmem hreads registerResponse_mem slice⟩
  · exact ⟨(buildEmpty_returns hlib hfiles hmem hwrites finishResponse_mem).of_run hrun,
      fun w => parseAcknowledgement_returns hlib hfiles hmem hreads finishResponse_mem slice⟩

end roundTrip

theorem buildResponse_roundTrip_sample :
    ∃ slice w', (buildLaunchResponse Host.standard sampleResults 2).run World.initial = .ok (slice, w') ∧
      Returns (parseLaunchResponse Host.standard slice sampleOut (fun _ => ⟨false, ⟨0, 0⟩⟩) fun _ => 0)
        World.initial
        fun res _ => res.Returned (fun response x => x = response) sampleResults sampleOut := by
  have hlib : Host.standard.lib.Accessors := Libavro.generic_accessors
  have hwrites : Host.standard.lib.WritesFormat := Libavro.generic_writesFormat
  obtain ⟨slice, w', hrun, -⟩ := (buildLaunchResponse_builds hlib Host.standard_installed
    Host.standard_mallocSucceeds hwrites).returns sampleResults 2 World.initial (by decide)
    (by decide +kernel)
  exact ⟨slice, w', hrun, ((buildResponse_roundTrip hlib Host.standard_installed
    Host.standard_mallocSucceeds hwrites Libavro.generic_readsFormat).1 sampleResults 2 _ slice w'
    hrun).2 _ _ _ _ sampleOut_disjoint⟩

end HamsterAvro
