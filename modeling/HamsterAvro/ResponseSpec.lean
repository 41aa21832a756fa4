import HamsterAvro.Allocate
import HamsterAvro.Heartbeat
import HamsterAvro.Launch
import Mathlib.Data.Set.List

/-!
# What the response parsers do

The three response parsers take an array record off the front of the slice and decode its elements one
by one. `ElemDecodes` is what the loop body of each has to do; from it a parser accepts the slices that
begin with an encoding of its record and decodes the elements (`parseArray_accepts`). It exits where the
slice holds no record (`parseArray_rejects`), and where it returned the slice held one
(`parseArray_holds`). The number of elements is below the length of the slice, so it is an `int`.
-/

namespace HamsterAvro
open HamsterAvro.Wire HamsterAvro.Avro HamsterAvro.C

/-! ## The family -/

/-- The loop body decodes an element of the array, whatever the locals and the storage held. -/
def ElemDecodes {L α : Type} (field : String) (items : Schema)
    (elem : Value → Libavro.Handle → Nat → L → α → Prog (L × α)) (R : Value → α → Prop) : Prop :=
  ∀ vs i v l old w, vs[i]? = some v → items.Shapes v →
    Returns (elem (arrayRecord field items vs) (some [0]) i l old) w fun out _ => R v out.2

theorem encodes_arrayRecord {c : Checks} {name field : String} {items : Schema} {v : Value}
    {word : Bytes} :
    Encodes c (.record name [(field, .array items)]) v word ↔
      ∃ vs k, v = arrayRecord field items vs ∧ Blocks c (Encodes c items) k vs word := by
  constructor
  · intro h
    obtain ⟨_, rfl, hfields⟩ := h
    obtain ⟨_, _, u, _, rfl, rfl, ⟨vs, k, rfl, hblocks⟩, rfl, rfl⟩ := hfields
    exact ⟨vs, k, rfl, by rwa [List.append_nil]⟩
  · intro h
    obtain ⟨vs, k, rfl, hblocks⟩ := h
    rw [← List.append_nil word]
    exact .record (.cons (.array hblocks) .nil)

/-- The elements of a message are fewer than its bytes. -/
theorem length_le_of_encodes {c : Checks} {name field : String} {items : Schema} {vs : List Value}
    {slice : Slice} {word rest : Bytes} (hpos : 0 < items.minSize) (hslice : slice.bytes = word ++ rest)
    (h : Encodes c (.record name [(field, .array items)]) (arrayRecord field items vs) word) :
    vs.length ≤ intMax := by
  obtain ⟨_, k, heq, hblocks⟩ := encodes_arrayRecord.mp h
  obtain rfl := arrayRecord_inj heq
  have hbound := hblocks.mul_length_lt fun v u hv => (hv.minSize_le : items.minSize ≤ _)
  refine slice.length_le hpos (lt_of_lt_of_le hbound ?_)
  unfold Slice.len
  rw [hslice, List.length_append]
  exact Nat.le_add_right _ _

section family
variable {host : Host} {w : World} {L α : Type} {file field name : String} {items : Schema}
  {sizeofElem : Nat} {locals : L} {elem : Value → Libavro.Handle → Nat → L → α → Prog (L × α)}
  {R : Value → α → Prop} {slice : Slice} {out : OutPointers} {raw : Nat → α} {memory : Memory}
  (hlib : host.lib.Accessors) (hfiles : host.Installed)
  (hfile : (file, .record name [(field, .array items)]) ∈ schemaFiles)
include hlib hfiles hfile

theorem parseArray_rejects (hmem : host.MallocSucceeds)
    (h : ¬ ∃ record, slice.Holds host (.record name [(field, .array items)]) record) :
    Stops (parseArray host file field sizeofElem locals elem slice out raw memory) w Halt.IsExit :=
  (readRecord_stops hlib hfiles hmem hfile h).bind_left

variable (hpos : 0 < items.minSize) (hdisj : out.Disjoint) (helem : ElemDecodes field items elem R)
include hpos hdisj helem

theorem parseArray_accepts (hmem : host.MallocSucceeds) (hreads : host.lib.ReadsFormat) {c : Checks}
    {vs : List Value} {word rest : Bytes} (hslice : slice.bytes = word ++ rest)
    (h : Encodes c (.record name [(field, .array items)]) (arrayRecord field items vs) word) :
    Returns (parseArray host file field sizeofElem locals elem slice out raw memory) w
      fun res _ => res.Decodes R vs out memory := by
  have hlen := length_le_of_encodes hpos hslice h
  refine parseArray_returns hlib hfiles hfile (Slice.holds_of_prefix hreads hslice h) hlen hdisj hmem
    fun i v hv l old w => ?_
  obtain ⟨_, k, heq, hblocks⟩ := encodes_arrayRecord.mp h
  obtain rfl := arrayRecord_inj heq
  obtain ⟨u, hu⟩ := hblocks.exists_word v (List.mem_of_getElem? hv)
  exact helem vs i v l old w hv hu.shapes

variable (hsized : host.lib.ReadsSized)
include hsized

theorem parseArray_of_holds (hmem : host.MallocSucceeds) {record : Value}
    (h : slice.Holds host (.record name [(field, .array items)]) record) :
    Returns (parseArray host file field sizeofElem locals elem slice out raw memory) w
      fun _ _ => True := by
  obtain ⟨vs, rfl, hvs, hbound⟩ := h.exists_elems hsized
  have hlen := slice.length_le hpos hbound
  exact (parseArray_returns hlib hfiles hfile h hlen hdisj hmem fun i v hv l old w =>
    helem vs i v l old w hv (hvs v (List.mem_of_getElem? hv))).mono fun _ _ _ => trivial

/-- A parser that returned had a slice with a record in it, and returned its elements. -/
theorem parseArray_holds {res : ArrayOut α} {w' : World}
    (hrun : (parseArray host file field sizeofElem locals elem slice out raw memory).run w =
      .ok (res, w')) :
    ∃ vs, slice.Holds host (.record name [(field, .array items)]) (arrayRecord field items vs) ∧
      items.minSize * vs.length < slice.len ∧ vs.length ≤ intMax ∧ res.Decodes R vs out memory := by
  obtain ⟨record, w₁, hread, -⟩ := run_bind_ok_iff.mp hrun
  obtain ⟨hholds, -⟩ := readRecord_ensures hfiles hfile record w₁ hread
  obtain ⟨vs, rfl, hvs, hbound⟩ := hholds.exists_elems hsized
  have hlen := slice.length_le hpos hbound
  refine ⟨vs, hholds, hbound, hlen, ?_⟩
  rcases parseArray_ensures hlib hfiles hfile hholds hlen hdisj res w' hrun with
    ⟨rfl, rfl⟩ | ⟨hnil, block, l, xs, s, s', hblock, hnull, hloop, rfl⟩
  · exact ⟨0, [], by decide, by simp, .nil, rfl, rfl⟩
  · have hxs : List.Forall₂ R vs xs := (elemLoop_returns (w := s) locals fun i v hv l w =>
      helem vs i v l (raw i) w hv (hvs v (List.mem_of_getElem? hv))).of_run hloop
    refine ⟨block, xs, ?_, by simp [hnull, hnil], hxs, rfl, by rw [if_neg hnil]⟩
    rw [hblock]
    exact host.malloc_lt _ _

end family

/-! ## The elements -/

def launchResultValue (result : LaunchResponse) : Value :=
  .record [("is_successful", .boolean result.isSuccessful), ("name", result.procName.toValue)]

def nodeResourceValue (hostName : Bytes) (slot : Int32) : Value :=
  .record [("host_name", .string hostName), ("slot", .int slot)]

def processStatusValue (name : ProcessName) (state exitValue : Int32) : Value :=
  .record [("name", name.toValue), ("state", .enum state), ("exit_value", .int exitValue)]

theorem launchResultValue_inj {a b : LaunchResponse} (h : launchResultValue a = launchResultValue b) :
    a = b := by
  obtain ⟨isSuccessful, jobid, vpid⟩ := a
  simp_all [launchResultValue, ProcessName.toValue]

theorem nodeResourceValue_inj {a b : Bytes} {m n : Int32}
    (h : nodeResourceValue a m = nodeResourceValue b n) : a = b ∧ m = n := by
  simpa [nodeResourceValue] using h

theorem processStatusValue_inj {a b : ProcessName} {j k m n : Int32}
    (h : processStatusValue a j m = processStatusValue b k n) : a = b ∧ j = k ∧ m = n := by
  obtain ⟨jobid, vpid⟩ := a
  simp_all [processStatusValue, ProcessName.toValue]

/-! ### What is sent conforms -/

theorem launchResult_conforms (result : LaunchResponse) :
    Conforms launchResult (launchResultValue result) := by
  simp [launchResult, launchResultValue, processName_conforms]

theorem nodeResource_conforms {hostName : Bytes} (slot : Int32) (h : hostName.length < 2 ^ 63) :
    Conforms nodeResource (nodeResourceValue hostName slot) := by
  simpa [nodeResource, nodeResourceValue] using h

theorem ProcessState.ordinal_full (state : ProcessState) :
    Checks.full.ordinal processStateSymbols state.ordinal := by
  cases state <;> exact ⟨by decide, by decide⟩

theorem processStatus_conforms (name : ProcessName) (state : ProcessState) (exitValue : Int32) :
    Conforms processStatus (processStatusValue name state.ordinal exitValue) := by
  simp [processStatus, processStatusValue, processName_conforms, state.ordinal_full]

theorem arrayRecord_conforms {β : Type} {name field : String} {items : Schema} {toValue : β → Value}
    {xs : List β} (hlen : xs.length < 2 ^ 63) (h : ∀ x ∈ xs, Conforms items (toValue x)) :
    Conforms (.record name [(field, .array items)]) (arrayRecord field items (xs.map toValue)) := by
  simp only [arrayRecord, conforms_record, conformsFields_cons, conforms_array, conformsFields_nil,
    List.length_map, List.forall_mem_map, and_true]
  exact ⟨hlen, h⟩

/-! ### What an element of a message is -/

theorem exists_map_of_forall {α β : Type} {f : β → α} {ys : List α} (h : ∀ y ∈ ys, ∃ x, y = f x) :
    ∃ xs : List β, ys = xs.map f := by
  have hrange : ys ∈ Set.range (List.map f) := by
    rw [Set.range_list_map]
    exact fun y hy => (h y hy).imp fun _ hx => hx.symm
  obtain ⟨xs, hxs⟩ := hrange
  exact ⟨xs, hxs.symm⟩

section inversion
variable {v : Value}

theorem shapes_processName (h : processName.Shapes v) : ∃ name : ProcessName, v = name.toValue := by
  obtain ⟨_, rfl, _, _, rfl, ⟨jobid, rfl⟩, _, _, rfl, ⟨vpid, rfl⟩, rfl⟩ := h
  exact ⟨⟨jobid, vpid⟩, rfl⟩

theorem shapes_launchResult (h : launchResult.Shapes v) : ∃ result, v = launchResultValue result := by
  obtain ⟨_, rfl, _, _, rfl, ⟨isSuccessful, rfl⟩, _, _, rfl, hname, rfl⟩ := h
  obtain ⟨name, rfl⟩ := shapes_processName hname
  exact ⟨⟨isSuccessful, name⟩, rfl⟩

theorem shapes_nodeResource (h : nodeResource.Shapes v) :
    ∃ hostName slot, v = nodeResourceValue hostName slot := by
  obtain ⟨_, rfl, _, _, rfl, ⟨hostName, rfl⟩, _, _, rfl, ⟨slot, rfl⟩, rfl⟩ := h
  exact ⟨hostName, slot, rfl⟩

theorem shapes_processStatus (h : processStatus.Shapes v) :
    ∃ name state exitValue, v = processStatusValue name state exitValue := by
  obtain ⟨_, rfl, _, _, rfl, hname, _, _, rfl, ⟨state, rfl⟩, _, _, rfl, ⟨exitValue, rfl⟩, rfl⟩ := h
  obtain ⟨name, rfl⟩ := shapes_processName hname
  exact ⟨name, state, exitValue, rfl⟩

end inversion

/-! ### The loop bodies -/

section bodies
variable {host : Host} (hlib : host.lib.Accessors) {field : String} {items : Schema} {vs : List Value}
  {i : Nat}

theorem at?_arrayRecord {v : Value} (hv : vs[i]? = some v) (r : Ref) :
    (arrayRecord field items vs).at? (0 :: i :: r) = v.at? r := by
  simp [arrayRecord, hv]

include hlib

theorem byIndex_arrayRecord {v : Value} (hv : vs[i]? = some v) (out : Libavro.Handle) :
    host.lib.byIndex (arrayRecord field items vs) (some [0]) i out = some [0, i] := by
  have harray : (arrayRecord field items vs).at? [0] = some (.array items vs) := rfl
  exact hlib.byIndex harray (List.getElem?_eq_some_iff.mp hv).1 out

/-- A field of element `i`. -/
theorem byName_arrayRecord (name : String) {fields : List (String × Value)} {n : Nat}
    (hv : vs[i]? = some (.record fields)) (hn : (fields.map Prod.fst).findIdx? (· == name) = some n)
    (out : Libavro.Handle) :
    host.lib.byName (arrayRecord field items vs) (some [0, i]) name out = some [0, i, n] :=
  hlib.byName (at?_arrayRecord hv []) (List.findIdx?_map.symm.trans hn) out

/-- The two fields of a process name that is field `n` of element `i`. -/
theorem byName_procName (name : String) {v : Value} {m n : Nat} {procName : ProcessName}
    (hv : vs[i]? = some v) (hn : v.at? [n] = some procName.toValue)
    (hm : ["jobid", "vpid"].findIdx? (· == name) = some m) (out : Libavro.Handle) :
    host.lib.byName (arrayRecord field items vs) (some [0, i, n]) name out = some [0, i, n, m] :=
  hlib.byName ((at?_arrayRecord hv [n]).trans hn)
    ((List.findIdx?_map (f := Prod.fst) (p := (· == name))).symm.trans hm) out

theorem parseLaunchResult_decodes :
    ElemDecodes "results" launchResult (parseLaunchResult host) fun v x => v = launchResultValue x := by
  intro vs i v l old w hv h
  obtain ⟨result, rfl⟩ := shapes_launchResult h
  apply Returns.pure
  simp only [byIndex_arrayRecord hlib hv,
    byName_arrayRecord hlib "is_successful" (n := 0) hv rfl,
    byName_arrayRecord hlib "name" (n := 1) hv rfl,
    byName_procName hlib "jobid" (n := 1) (m := 0) hv rfl (by decide),
    byName_procName hlib "vpid" (n := 1) (m := 1) hv rfl (by decide)]
  rw [hlib.booleanOr (b := result.isSuccessful) (at?_arrayRecord hv [0]),
    hlib.intOr (n := result.procName.jobid) (at?_arrayRecord hv [1, 0]),
    hlib.intOr (n := result.procName.vpid) (at?_arrayRecord hv [1, 1])]

/-- The host name is the buffer of the string, with its terminator. -/
theorem parseNodeResource_decodes :
    ElemDecodes "node_resources" nodeResource (parseNodeResource host) fun v x =>
      ∃ hostName, v = nodeResourceValue hostName x.slotNum ∧ x.hostName.addr ≠ 0 ∧
        x.hostName.bytes = hostName ++ [0] := by
  intro vs i v l old w hv h
  obtain ⟨hostName, slot, rfl⟩ := shapes_nodeResource h
  refine Returns.pure ⟨hostName, ?_⟩
  simp only [byIndex_arrayRecord hlib hv,
    byName_arrayRecord hlib "host_name" (n := 0) hv rfl,
    byName_arrayRecord hlib "slot" (n := 1) hv rfl]
  rw [hlib.intOr (n := slot) (at?_arrayRecord hv [1])]
  exact ⟨rfl, hlib.stringOr_addr (at?_arrayRecord hv [0]) _, hlib.stringOr (at?_arrayRecord hv [0]) _⟩

/-- The ordinal of the state is handed on as it was read. -/
theorem parseProcessStatus_decodes :
    ElemDecodes "completed_processes" processStatus (parseProcessStatus host) fun v x =>
      v = processStatusValue x.procName x.procState x.exitValue := by
  intro vs i v l old w hv h
  obtain ⟨procName, state, exitValue, rfl⟩ := shapes_processStatus h
  apply Returns.pure
  simp only [byIndex_arrayRecord hlib hv,
    byName_arrayRecord hlib "name" (n := 0) hv rfl,
    byName_arrayRecord hlib "state" (n := 1) hv rfl,
    byName_arrayRecord hlib "exit_value" (n := 2) hv rfl,
    byName_procName hlib "jobid" (n := 0) (m := 0) hv rfl (by decide),
    byName_procName hlib "vpid" (n := 0) (m := 1) hv rfl (by decide)]
  rw [hlib.enumOr (k := state) (at?_arrayRecord hv [1]),
    hlib.intOr (n := exitValue) (at?_arrayRecord hv [2]),
    hlib.intOr (n := procName.jobid) (at?_arrayRecord hv [0, 0]),
    hlib.intOr (n := procName.vpid) (at?_arrayRecord hv [0, 1])]

end bodies

/-! ## A response with no elements, on the standard host -/

def sampleOut : OutPointers := ⟨0x100, 0x200⟩

theorem sampleOut_disjoint : sampleOut.Disjoint := .inl (by decide)

/-- The response with no elements. -/
def emptyResponse : Slice := .ofBytes [0] (by decide)

theorem emptyResponse_encodes {c : Checks} {name field : String} {items : Schema} :
    Encodes c (.record name [(field, .array items)]) (arrayRecord field items []) emptyResponse.bytes := by
  refine encodes_arrayRecord.mpr ⟨[], 0, rfl, .done (?_ : LongWord 0 [0])⟩
  rw [← writeLong_zero]
  exact longWord_writeLong (by decide) (by decide)

/-- Whatever follows it, no elements are decoded. -/
theorem parseLaunchResponse_empty (rest : Bytes) (hlen : ([0] ++ rest).length ≤ intMax) (memory : Memory) :
    Returns (parseLaunchResponse Host.standard (.ofBytes ([0] ++ rest) hlen) sampleOut
      (fun _ => ⟨false, ⟨0, 0⟩⟩) memory) World.initial
      fun res _ => res.Decodes (fun v x => v = launchResultValue x) [] sampleOut memory :=
  parseArray_accepts Libavro.generic_accessors Host.standard_installed launchResponse_mem (by decide)
    sampleOut_disjoint (parseLaunchResult_decodes Libavro.generic_accessors)
    Host.standard_mallocSucceeds Libavro.generic_readsFormat (c := .none) rfl emptyResponse_encodes

end HamsterAvro
