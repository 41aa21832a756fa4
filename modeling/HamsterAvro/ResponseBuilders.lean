import HamsterAvro.RequestSpec
import HamsterAvro.Responses

/-!
# The builder of `test/allocate_response_test.c`

The sending side of an allocate response. It takes an array as `parseAllocateResponse` returns it, whose
host names are pointers, and writes the record of what is read through them
(`buildAllocateResponse_returns`).
-/

namespace HamsterAvro
open HamsterAvro.Wire HamsterAvro.Avro HamsterAvro.C

/-- The string at a pointer that is dereferenced: there is one where a terminator is in reach. -/
def readCString (p : Block) : Prog CString :=
  if p.addr ≠ 0 ∧ 0 ∈ p.bytes then pure p.cString else throw .undefined

/-- The record being filled, and the locals. -/
structure AllocateResponseFill where
  record : Value
  locals : NodeResourceLocals

section host
variable (host : Host)

/-- The body of the loop over the node resources. -/
def fillNodeResource (nodeResourceArray : List NodeResource) (nodeResourcesValue : Libavro.Handle)
    (st : AllocateResponseFill) (i : Nat) : Prog AllocateResponseFill :=
  match nodeResourceArray[i]? with
  | none => throw .undefined -- past the end of the array
  | some node => do
    let lib := host.lib
    let (record, nodeResourceValue) :=
      lib.appendTo st.record nodeResourcesValue st.locals.nodeResourceValue
    let hostNameValue := lib.byName record nodeResourceValue "host_name" st.locals.hostNameValue
    let hostName ← readCString node.hostName
    let record := lib.putString record hostNameValue hostName
    let slotValue := lib.byName record nodeResourceValue "slot" st.locals.slotValue
    pure {
      record := lib.putInt record slotValue node.slotNum
      locals := { nodeResourceValue, hostNameValue, slotValue } }

def fillAllocateResponse (nodeResourceArray : List NodeResource) (arraySize : Nat) (record : Value) :
    Prog (Value × Unit) := do
  let nodeResourcesValue := host.lib.byName record (some []) "node_resources" none
  let st ← (List.range arraySize).foldlM (fillNodeResource host nodeResourceArray nodeResourcesValue)
    { record, locals := {} }
  pure (st.record, ())

def buildAllocateResponse (nodeResourceArray : List NodeResource) (arraySize : Nat) : Prog Slice := do
  let (slice, _) ← buildRequest host "AllocateResponseRecordAvro.avsc"
    "Unable to write record to memory buffer" (fillAllocateResponse host nodeResourceArray arraySize)
  pure slice

end host

/-! ## What it writes -/

/-- What a caller that reads the name as a C string finds in an element. -/
def NodeResource.seen (node : NodeResource) : NodeSlot := ⟨node.hostName.cString, node.slotNum⟩

def NodeResource.Readable (node : NodeResource) : Prop :=
  node.hostName.addr ≠ 0 ∧ 0 ∈ node.hostName.bytes

def allocateResponseValue (vs : List Value) : Value := arrayRecord "node_resources" nodeResource vs

section spec
variable {host : Host} {w : World}

theorem readCString_returns {p : Block} (h : p.addr ≠ 0 ∧ 0 ∈ p.bytes) :
    Returns (readCString p) w fun str _ => str = p.cString := by
  unfold readCString
  rw [if_pos h]
  exact Returns.pure rfl

variable (hlib : host.lib.Accessors)
include hlib

/-- One pass of the loop adds the record of its element. -/
theorem fillNodeResource_returns {array : List NodeResource} {vs : List Value} {i : Nat}
    {node : NodeResource} {st : AllocateResponseFill} (hnode : array[i]? = some node)
    (hread : node.Readable) (hrecord : st.record = allocateResponseValue vs) :
    Returns (fillNodeResource host array (some [0]) st i) w fun st' _ =>
      st'.record = allocateResponseValue (vs ++ [node.seen.toValue]) := by
  have harray : (allocateResponseValue vs).at? [0] = some (.array nodeResource vs) := rfl
  have happend (out : Libavro.Handle) : host.lib.appendTo (allocateResponseValue vs) (some [0]) out =
      (allocateResponseValue (vs ++ [nodeResourceValue [] 0]), some [0, vs.length]) :=
    hlib.appendTo harray out
  have hlast (v : Value) (r : Ref) :
      (allocateResponseValue (vs ++ [v])).at? (0 :: vs.length :: r) = v.at? r :=
    at?_arrayRecord_last _ _ vs v r
  have hset (x v : Value) (r : Ref) :
      Value.setAt x (allocateResponseValue (vs ++ [v])) (0 :: vs.length :: r) =
        allocateResponseValue (vs ++ [Value.setAt x v r]) :=
    setAt_arrayRecord_last _ _ vs x v r
  have hhostName (out : Libavro.Handle) : host.lib.byName
      (allocateResponseValue (vs ++ [nodeResourceValue [] 0])) (some [0, vs.length]) "host_name" out =
      some [0, vs.length, 0] :=
    hlib.byName (hlast _ []) (by decide) out
  have hputName (str : CString) : host.lib.putString
      (allocateResponseValue (vs ++ [nodeResourceValue [] 0])) (some [0, vs.length, 0]) str =
      allocateResponseValue (vs ++ [nodeResourceValue str.bytes 0]) := by
    rw [hlib.putString (hlast _ [0]), hset]
    rfl
  have hslot (name : Bytes) (out : Libavro.Handle) : host.lib.byName
      (allocateResponseValue (vs ++ [nodeResourceValue name 0])) (some [0, vs.length]) "slot" out =
      some [0, vs.length, 1] :=
    hlib.byName (hlast _ []) (by simp [List.findIdx?_cons]) out
  have hputSlot (name : Bytes) (n : Int32) : host.lib.putInt
      (allocateResponseValue (vs ++ [nodeResourceValue name 0])) (some [0, vs.length, 1]) n =
      allocateResponseValue (vs ++ [nodeResourceValue name n]) := by
    rw [hlib.putInt (n := 0) (hlast _ [1]), hset]
    rfl
  unfold fillNodeResource
  rw [hnode]
  simp only [hrecord, happend, hhostName]
  refine (readCString_returns hread).bind fun str _ hstr => Returns.pure ?_
  simp only [hstr, hputName, hslot, hputSlot, NodeResource.seen, NodeSlot.toValue]

theorem fillAllocateResponse_returns {array : List NodeResource}
    (hread : ∀ node ∈ array, node.Readable) :
    Returns (fillAllocateResponse host array array.length allocateResponseRecordAvro.default) w
      fun out _ => out.1 = allocateResponseValue (array.map fun node => node.seen.toValue) := by
  have hname : host.lib.byName allocateResponseRecordAvro.default (some []) "node_resources" none =
      some [0] := hlib.byName (i := 0) rfl (by decide) none
  unfold fillAllocateResponse
  rw [hname]
  -- after `i` passes the first `i` elements are in the record
  refine Returns.bind (Returns.forRange (fun i st _ =>
    st.record = allocateResponseValue ((array.take i).map fun node => node.seen.toValue)) rfl ?_)
    fun st _ h => Returns.pure ?_
  · intro i hi st w hrecord
    have hnode : array[i]? = some array[i] := List.getElem?_eq_getElem hi
    refine (fillNodeResource_returns hlib hnode (hread _ (List.getElem_mem hi)) hrecord).mono
      fun st' _ h => ?_
    rw [h, List.take_add_one, hnode, List.map_append]
    rfl
  · rw [h, List.take_length]

theorem buildAllocateResponse_returns (hfiles : host.Installed) (hmem : host.MallocSucceeds)
    (hwrites : host.lib.WritesFormat) {array : List NodeResource}
    (hread : ∀ node ∈ array, node.Readable)
    (hfits : (encode (allocateResponseValue (array.map fun node => node.seen.toValue))).length ≤ bufferSize) :
    Returns (buildAllocateResponse host array array.length) w fun slice _ =>
      slice.bytes = encode (allocateResponseValue (array.map fun node => node.seen.toValue)) :=
  buildSlice_returns hlib hfiles hmem hwrites allocateResponse_mem
    (fun _ => fillAllocateResponse_returns hlib hread) hfits

end spec

end HamsterAvro
