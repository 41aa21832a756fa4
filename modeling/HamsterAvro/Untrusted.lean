import HamsterAvro.Capacity
import HamsterAvro.ResponseBuilders

/-!
# Messages that no builder wrote

A string on the wire may hold any bytes, and an ordinal may be any `int`. The parsers take such
messages. Of a host name the caller sees what is before the first zero byte, so that what it sends on is
the record with its names cut there (`parseAllocateResponse_reencodes`); the ordinal of a state is handed
on, whether the C enum has it or not (`parseHeartbeatResponse_states`).
-/

namespace HamsterAvro
open HamsterAvro.Wire HamsterAvro.Avro HamsterAvro.C

/-! ## Host names -/

/-- A node resource as a message has it. -/
structure NodeRecord where
  hostName : Bytes
  slot : Int32
  deriving DecidableEq

def NodeRecord.toValue (node : NodeRecord) : Value := nodeResourceValue node.hostName node.slot

/-- What is left of it where the name is a C string. -/
def NodeRecord.cut (node : NodeRecord) : NodeSlot := ⟨.ofBytes node.hostName, node.slot⟩

/-- The record of a message. -/
def allocateResponseOf (nodes : List NodeRecord) : Value :=
  allocateResponseValue (nodes.map NodeRecord.toValue)

/-- The record with each host name cut at its first zero byte. -/
def cutResponseOf (nodes : List NodeRecord) : Value :=
  allocateResponseValue (nodes.map fun node => node.cut.toValue)

theorem NodeRecord.toValue_injective : Function.Injective NodeRecord.toValue := by
  rintro ⟨a, m⟩ ⟨b, n⟩ h
  obtain ⟨rfl, rfl⟩ := nodeResourceValue_inj h
  rfl

theorem allocateResponseOf_injective : Function.Injective allocateResponseOf := fun _ _ h =>
  List.map_injective_iff.mpr NodeRecord.toValue_injective (arrayRecord_inj h)

theorem NodeRecord.cut_toValue {node : NodeRecord} (h : 0 ∉ node.hostName) :
    node.cut.toValue = node.toValue := by
  unfold NodeSlot.toValue NodeRecord.cut
  rw [CString.bytes_ofBytes h, NodeRecord.toValue]

/-! ### The size of what is sent on -/

theorem length_encode_nodeResource (hostName : Bytes) (slot : Int32) :
    (encode (nodeResourceValue hostName slot)).length =
      countedSize hostName.length + longSize slot.toInt := by
  simp only [nodeResourceValue, length_encode_record, List.map_cons, List.map_nil, List.sum_cons,
    List.sum_nil, length_encode_string, length_encode_int, Nat.add_zero]

theorem length_encode_allocateResponseOf (nodes : List NodeRecord) :
    (encode (allocateResponseOf nodes)).length =
      arraySize (nodes.map fun node => (encode node.toValue).length) :=
  length_encode_arrayRecord _ _ _ _

theorem length_encode_cutResponseOf (nodes : List NodeRecord) :
    (encode (cutResponseOf nodes)).length =
      arraySize (nodes.map fun node => (encode node.cut.toValue).length) :=
  length_encode_arrayRecord _ _ _ _

theorem NodeRecord.length_cut_le (node : NodeRecord) :
    (encode node.cut.toValue).length ≤ (encode node.toValue).length := by
  unfold NodeSlot.toValue NodeRecord.toValue
  rw [length_encode_nodeResource, length_encode_nodeResource]
  exact Nat.add_le_add_right (countedSize_mono (CString.length_ofBytes_le _)) _

theorem NodeRecord.length_cut_lt {node : NodeRecord} (h : 0 ∈ node.hostName) :
    (encode node.cut.toValue).length < (encode node.toValue).length := by
  unfold NodeSlot.toValue NodeRecord.toValue
  rw [length_encode_nodeResource, length_encode_nodeResource]
  exact Nat.add_lt_add_right (countedSize_lt (CString.length_ofBytes_lt h)) _

theorem length_encode_cut_le (nodes : List NodeRecord) :
    (encode (cutResponseOf nodes)).length ≤ (encode (allocateResponseOf nodes)).length := by
  rw [length_encode_cutResponseOf, length_encode_allocateResponseOf]
  exact arraySize_map_le fun node _ => node.length_cut_le

/-- Nothing is lost exactly where there is nothing to cut; else the encoding is shorter. -/
theorem encode_cut_eq_iff (nodes : List NodeRecord) :
    encode (cutResponseOf nodes) = encode (allocateResponseOf nodes) ↔
      ∀ node ∈ nodes, 0 ∉ node.hostName := by
  constructor
  · intro heq node hnode hzero
    have hlength := congrArg List.length heq
    rw [length_encode_cutResponseOf, length_encode_allocateResponseOf] at hlength
    exact hlength.not_lt (arraySize_map_lt (fun node _ => node.length_cut_le)
      ⟨node, hnode, NodeRecord.length_cut_lt hzero⟩)
  · intro h
    rw [cutResponseOf, allocateResponseOf,
      List.map_congr_left fun node hnode => NodeRecord.cut_toValue (h node hnode)]

/-! ### The parser -/

/-- A slice that the parser accepts, and what it makes of it. -/
def AcceptsAllocate (host : Host) (slice : Slice) (out : OutPointers) (res : ArrayOut NodeResource) :
    Prop :=
  out.Disjoint ∧ ∃ raw memory w w', (parseAllocateResponse host slice out raw memory).run w = .ok (res, w')

/-- The elements in terms of the message. -/
theorem nodes_of_decodes {vs : List Value} {xs : List NodeResource}
    (h : List.Forall₂ (fun v x => ∃ hostName, v = nodeResourceValue hostName x.slotNum ∧
      x.hostName.addr ≠ 0 ∧ x.hostName.bytes = hostName ++ [0]) vs xs) :
    ∃ nodes : List NodeRecord, vs = nodes.map NodeRecord.toValue ∧
      xs.map NodeResource.seen = nodes.map NodeRecord.cut ∧ ∀ x ∈ xs, x.Readable := by
  induction h with
  | nil => exact ⟨[], rfl, rfl, by simp⟩
  | @cons v x vs xs hx _ ih =>
    obtain ⟨hostName, rfl, haddr, hbytes⟩ := hx
    obtain ⟨nodes, rfl, hseen, hread⟩ := ih
    refine ⟨⟨hostName, x.slotNum⟩ :: nodes, rfl, ?_, ?_⟩
    · rw [List.map_cons, List.map_cons, hseen, NodeResource.seen, Block.cString_append hbytes,
        NodeRecord.cut]
    · intro y hy
      rcases List.mem_cons.mp hy with rfl | hy
      · exact ⟨haddr, by simp [hbytes]⟩
      · exact hread y hy

section allocate
variable {host : Host} {slice : Slice} {out : OutPointers} {res : ArrayOut NodeResource}
  (hlib : host.lib.Accessors) (hfiles : host.Installed) (hsized : host.lib.ReadsSized)
include hlib hfiles hsized

theorem AcceptsAllocate.nodes (h : AcceptsAllocate host slice out res) :
    ∃ nodes : List NodeRecord,
      slice.Holds host allocateResponseRecordAvro (allocateResponseOf nodes) ∧
      res.elems.map NodeResource.seen = nodes.map NodeRecord.cut ∧ (∀ x ∈ res.elems, x.Readable) ∧
      (res.memory.loadInt out.arraySize).toInt.toNat = res.elems.length := by
  obtain ⟨hdisj, raw, memory, w, w', hrun⟩ := h
  obtain ⟨vs, hholds, -, hlen, hres⟩ := parseArray_holds hlib hfiles allocateResponse_mem (by decide)
    hdisj (parseNodeResource_decodes hlib) hsized hrun
  obtain ⟨nodes, rfl, hseen, hread⟩ := nodes_of_decodes hres.forall₂_elems
  refine ⟨nodes, hholds, hseen, hread, ?_⟩
  rw [hres.loadInt hdisj, toInt_ofNat hlen, Int.toNat_natCast, hres.forall₂_elems.length_eq]

/-- The caller sees the cut of the record in the slice. -/
theorem AcceptsAllocate.seen_eq {nodes : List NodeRecord} (h : AcceptsAllocate host slice out res)
    (hnodes : slice.Holds host allocateResponseRecordAvro (allocateResponseOf nodes)) :
    res.elems.map NodeResource.seen = nodes.map NodeRecord.cut := by
  obtain ⟨nodes', hholds, hseen, -⟩ := h.nodes hlib hfiles hsized
  rw [hseen, allocateResponseOf_injective (hholds.unique hnodes)]

theorem acceptsAllocate_of_holds (hmem : host.MallocSucceeds) {record : Value} (hdisj : out.Disjoint)
    (h : slice.Holds host allocateResponseRecordAvro record) :
    ∃ res, AcceptsAllocate host slice out res := by
  have haccepts : Returns (parseAllocateResponse host slice out (fun _ => ⟨⟨0, []⟩, 0⟩) fun _ => 0)
      World.initial fun _ _ => True :=
    parseArray_of_holds hlib hfiles allocateResponse_mem (by decide) hdisj
      (parseNodeResource_decodes hlib) hsized hmem h
  obtain ⟨res, w', hrun, -⟩ := haccepts
  exact ⟨res, hdisj, _, _, _, w', hrun⟩

variable (hwrites : host.lib.WritesFormat)
include hwrites

/-- What the builder makes of what the parser returned. -/
theorem AcceptsAllocate.rebuilt (hmem : host.MallocSucceeds) {nodes : List NodeRecord} {w : World}
    (h : AcceptsAllocate host slice out res)
    (hnodes : slice.Holds host allocateResponseRecordAvro (allocateResponseOf nodes))
    (hfits : (encode (allocateResponseOf nodes)).length ≤ bufferSize) :
    Returns (buildAllocateResponse host res.elems (res.memory.loadInt out.arraySize).toInt.toNat) w
      fun built _ => built.bytes = encode (cutResponseOf nodes) := by
  have hseen := h.seen_eq hlib hfiles hsized hnodes
  obtain ⟨_, -, -, hread, hcount⟩ := h.nodes hlib hfiles hsized
  have hrecord : allocateResponseValue (res.elems.map fun node => node.seen.toValue) =
      cutResponseOf nodes := by
    have := congrArg (List.map NodeSlot.toValue) hseen
    rw [List.map_map, List.map_map] at this
    exact congrArg allocateResponseValue this
  rw [hcount, ← hrecord]
  apply buildAllocateResponse_returns hlib hfiles hmem hwrites hread
  rw [hrecord]
  exact (length_encode_cut_le nodes).trans hfits

/-- What is sent on after it was received is the record with each host name cut at its first zero byte:
the same record exactly if no name has one. Two messages look the same to the caller exactly if their
records agree after the cut. -/
theorem parseAllocateResponse_reencodes :
    (∀ slice out res, AcceptsAllocate host slice out res → ∃ nodes : List NodeRecord,
      slice.Holds host allocateResponseRecordAvro (allocateResponseOf nodes) ∧
      ((encode (allocateResponseOf nodes)).length ≤ bufferSize → host.MallocSucceeds → ∀ w,
        Returns (buildAllocateResponse host res.elems (res.memory.loadInt out.arraySize).toInt.toNat) w
          fun built _ =>
            built.bytes = encode (cutResponseOf nodes) ∧
            (built.bytes = encode (allocateResponseOf nodes) ↔
              ∀ node ∈ nodes, 0 ∉ node.hostName))) ∧
    (∀ slice out res slice' out' res' (nodes nodes' : List NodeRecord),
      AcceptsAllocate host slice out res → AcceptsAllocate host slice' out' res' →
      slice.Holds host allocateResponseRecordAvro (allocateResponseOf nodes) →
      slice'.Holds host allocateResponseRecordAvro (allocateResponseOf nodes') →
      (res.elems.map NodeResource.seen = res'.elems.map NodeResource.seen ↔
        nodes.map NodeRecord.cut = nodes'.map NodeRecord.cut)) := by
  refine ⟨fun slice out res h => ?_, fun slice out res slice' out' res' nodes nodes' h h' hn hn' => ?_⟩
  · obtain ⟨nodes, hholds, -⟩ := h.nodes hlib hfiles hsized
    refine ⟨nodes, hholds, fun hfits hmem w => ?_⟩
    refine (h.rebuilt hlib hfiles hsized hwrites hmem hholds hfits).mono fun built _ hbuilt => ?_
    exact ⟨hbuilt, by rw [hbuilt, encode_cut_eq_iff]⟩
  · rw [h.seen_eq hlib hfiles hsized hn, h'.seen_eq hlib hfiles hsized hn']

end allocate

/-! ### One of them, on the standard host -/

theorem allocateResponse_conforms {node : NodeRecord} (h : node.hostName.length < 2 ^ 63) :
    Conforms allocateResponseRecordAvro (allocateResponseOf [node]) := by
  simpa [allocateResponseOf, allocateResponseValue, arrayRecord, allocateResponseRecordAvro,
    nodeResource, NodeRecord.toValue, nodeResourceValue] using h

/-- A host name with a zero byte in it. -/
def nulNode : NodeRecord := ⟨[0x61, 0, 0x62], 1⟩

def shortNode : NodeRecord := ⟨[0x61], 1⟩

def nulResponse : Slice := .ofBytes (encode (allocateResponseOf [nulNode])) (by decide +kernel)

def shortResponse : Slice := .ofBytes (encode (allocateResponseOf [shortNode])) (by decide +kernel)

theorem nulResponse_holds :
    nulResponse.Holds Host.standard allocateResponseRecordAvro (allocateResponseOf [nulNode]) :=
  Slice.holds_of_encodes Libavro.generic_readsFormat (encodes_encode (allocateResponse_conforms (by decide)))

theorem shortResponse_holds :
    shortResponse.Holds Host.standard allocateResponseRecordAvro (allocateResponseOf [shortNode]) :=
  Slice.holds_of_encodes Libavro.generic_readsFormat (encodes_encode (allocateResponse_conforms (by decide)))

theorem acceptsAllocate_standard {slice : Slice} {record : Value}
    (h : slice.Holds Host.standard allocateResponseRecordAvro record) :
    ∃ res, AcceptsAllocate Host.standard slice sampleOut res :=
  acceptsAllocate_of_holds Libavro.generic_accessors Host.standard_installed Libavro.generic_readsSized
    Host.standard_mallocSucceeds sampleOut_disjoint h

theorem parseAllocateResponse_reencodes_sample :
    ∃ res, AcceptsAllocate Host.standard nulResponse sampleOut res ∧
      Returns (buildAllocateResponse Host.standard res.elems
          (res.memory.loadInt sampleOut.arraySize).toInt.toNat) World.initial fun built _ =>
        built.bytes = encode (cutResponseOf [nulNode]) ∧
        (built.bytes = encode (allocateResponseOf [nulNode]) ↔ ∀ node ∈ [nulNode], 0 ∉ node.hostName) := by
  obtain ⟨res, hres⟩ := acceptsAllocate_standard nulResponse_holds
  obtain ⟨nodes, hnodes, hrebuilt⟩ := (parseAllocateResponse_reencodes Libavro.generic_accessors
    Host.standard_installed Libavro.generic_readsSized Libavro.generic_writesFormat).1 nulResponse
    sampleOut res hres
  obtain rfl : nodes = [nulNode] := allocateResponseOf_injective (hnodes.unique nulResponse_holds)
  exact ⟨res, hres, hrebuilt (by decide +kernel) Host.standard_mallocSucceeds World.initial⟩

/-- The record in the slice fits the buffer, and another one is sent on; a message with the shorter name
gives the same array. -/
theorem parseAllocateResponse_cuts_name :
    nulResponse.Holds Host.standard allocateResponseRecordAvro (allocateResponseOf [nulNode]) ∧
    nulResponse.bytes = encode (allocateResponseOf [nulNode]) ∧ nulResponse.len ≤ bufferSize ∧
    shortResponse.Holds Host.standard allocateResponseRecordAvro (allocateResponseOf [shortNode]) ∧
    allocateResponseOf [nulNode] ≠ allocateResponseOf [shortNode] ∧
    ∃ res res', AcceptsAllocate Host.standard nulResponse sampleOut res ∧
      AcceptsAllocate Host.standard shortResponse sampleOut res' ∧
      (Returns (buildAllocateResponse Host.standard res.elems
          (res.memory.loadInt sampleOut.arraySize).toInt.toNat) World.initial fun built _ =>
        built.bytes ≠ encode (allocateResponseOf [nulNode])) ∧
      res.elems.map NodeResource.seen = res'.elems.map NodeResource.seen := by
  have hlib : Host.standard.lib.Accessors := Libavro.generic_accessors
  have hsized : Host.standard.lib.ReadsSized := Libavro.generic_readsSized
  obtain ⟨res, hres⟩ := acceptsAllocate_standard nulResponse_holds
  obtain ⟨res', hres'⟩ := acceptsAllocate_standard shortResponse_holds
  refine ⟨nulResponse_holds, rfl, by decide +kernel, shortResponse_holds, ?_, res, res', hres, hres',
    ?_, ?_⟩
  · exact allocateResponseOf_injective.ne (by decide)
  · refine (hres.rebuilt hlib Host.standard_installed hsized Libavro.generic_writesFormat
      Host.standard_mallocSucceeds nulResponse_holds (by decide +kernel)).mono fun built _ hbuilt => ?_
    rw [hbuilt, ne_eq, encode_cut_eq_iff]
    decide
  · rw [hres.seen_eq hlib Host.standard_installed hsized nulResponse_holds,
      hres'.seen_eq hlib Host.standard_installed hsized shortResponse_holds]
    decide

/-! ## States -/

/-- The record of an element, whatever its state. -/
def CompletedProc.toValue (proc : CompletedProc) : Value :=
  processStatusValue proc.procName proc.procState proc.exitValue

/-- The record of a message. -/
def heartbeatResponseOf (procs : List CompletedProc) : Value :=
  arrayRecord "completed_processes" processStatus (procs.map CompletedProc.toValue)

theorem CompletedProc.toValue_injective : Function.Injective CompletedProc.toValue := by
  rintro ⟨a, j, m⟩ ⟨b, k, n⟩ h
  obtain ⟨rfl, rfl, rfl⟩ := processStatusValue_inj h
  rfl

theorem heartbeatResponseOf_injective : Function.Injective heartbeatResponseOf := fun _ _ h =>
  List.map_injective_iff.mpr CompletedProc.toValue_injective (arrayRecord_inj h)

theorem ProcessState.exists_ordinal_iff {k : Int32} :
    (∃ state : ProcessState, k = state.ordinal) ↔ Checks.full.ordinal processStateSymbols k := by
  constructor
  · intro h
    obtain ⟨state, rfl⟩ := h
    exact state.ordinal_full
  · intro h
    obtain ⟨hlow, hhigh⟩ := h
    have hcases : k.toInt = 0 ∨ k.toInt = 1 := by
      simp only [processStateSymbols, List.length_cons, List.length_nil] at hhigh
      omega
    rcases hcases with hzero | hone
    · exact ⟨.running, Int32.toInt_inj.mp hzero⟩
    · exact ⟨.completed, Int32.toInt_inj.mp hone⟩

/-- The one check that an element needs is that of its state. -/
theorem encodes_processStatus_iff {c : Checks} {proc : CompletedProc} {word : Bytes} :
    Encodes c processStatus proc.toValue word ↔
      Encodes .none processStatus proc.toValue word ∧ c.ordinal processStateSymbols proc.procState := by
  constructor
  · intro h
    refine ⟨h.to_none, ?_⟩
    obtain ⟨_, ⟨⟩, hfields⟩ := h
    obtain ⟨_, _, _, _, ⟨⟩, -, -, hfields⟩ := hfields
    obtain ⟨_, _, _, _, ⟨⟩, -, ⟨_, ⟨⟩, -, hstate⟩, -⟩ := hfields
    exact hstate
  · intro h
    obtain ⟨h, hstate⟩ := h
    obtain ⟨_, ⟨⟩, hfields⟩ := h
    obtain ⟨_, _, _, _, ⟨⟩, rfl, hname, hfields⟩ := hfields
    obtain ⟨_, _, _, _, ⟨⟩, rfl, ⟨_, ⟨⟩, hword, -⟩, hrest⟩ := hfields
    exact .record (.cons hname (.cons ⟨_, rfl, hword, hstate⟩ hrest))

/-- A message passes the check of ordinals exactly if the C enum has all its states. -/
theorem encodes_heartbeatResponse_iff {procs : List CompletedProc} {word : Bytes}
    (h : Encodes .none heartBeatResponseRecordAvro (heartbeatResponseOf procs) word) :
    Encodes .ordinals heartBeatResponseRecordAvro (heartbeatResponseOf procs) word ↔
      ∀ proc ∈ procs, ∃ state : ProcessState, proc.procState = state.ordinal := by
  constructor
  · intro hchecked proc hproc
    obtain ⟨vs, k, hvs, hblocks⟩ := encodes_arrayRecord.mp hchecked
    obtain rfl : procs.map CompletedProc.toValue = vs := arrayRecord_inj hvs
    obtain ⟨u, hu⟩ := hblocks.exists_word _ (List.mem_map_of_mem hproc)
    exact ProcessState.exists_ordinal_iff.mpr (encodes_processStatus_iff.mp hu).2
  · intro hstates
    obtain ⟨vs, k, hvs, hblocks⟩ := encodes_arrayRecord.mp h
    obtain rfl : procs.map CompletedProc.toValue = vs := arrayRecord_inj hvs
    refine encodes_arrayRecord.mpr ⟨_, k, rfl, hblocks.mono (fun _ _ _ => trivial) fun v hv u hu => ?_⟩
    obtain ⟨proc, hproc, rfl⟩ := List.mem_map.mp hv
    exact encodes_processStatus_iff.mpr ⟨hu, ProcessState.exists_ordinal_iff.mp (hstates proc hproc)⟩

/-- The writer's word of a message, whatever its states. -/
theorem encodes_heartbeatResponse {procs : List CompletedProc} (hlen : procs.length < 2 ^ 63) :
    Encodes .none heartBeatResponseRecordAvro (heartbeatResponseOf procs)
      (encode (heartbeatResponseOf procs)) := by
  have helem (proc : CompletedProc) : Encodes .none processStatus proc.toValue (encode proc.toValue) := by
    have hname := (encodes_encode (processName_conforms proc.procName)).to_none
    have hexit : Encodes .none .int (.int proc.exitValue) (writeLong proc.exitValue.toInt) :=
      ⟨_, rfl, longWord_int _⟩
    have hstate : Encodes .none (.enum processStateSymbols) (.enum proc.procState)
        (writeLong proc.procState.toInt) := ⟨_, rfl, longWord_int _, trivial⟩
    exact .record (.cons hname (.cons hstate (.cons hexit .nil)))
  have hlength : (procs.map CompletedProc.toValue).length < 2 ^ 63 := by rwa [List.length_map]
  obtain ⟨k, hblocks⟩ := blocks_encode (c := .none) (R := Encodes .none processStatus) processStatus
    hlength (List.forall_mem_map.mpr fun proc _ => helem proc)
  exact .record (.cons (.array hblocks) .nil)

section heartbeat
variable {host : Host} {w : World}
  (hlib : host.lib.Accessors) (hfiles : host.Installed)
include hlib hfiles

section sized
variable (hsized : host.lib.ReadsSized)
include hsized

theorem parseHeartbeatResponse_holds {slice : Slice} {out : OutPointers} {raw : Nat → CompletedProc}
    {memory : Memory} {res : ArrayOut CompletedProc} {w' : World} (hdisj : out.Disjoint)
    (hrun : (parseHeartbeatResponse host slice out raw memory).run w = .ok (res, w')) :
    slice.Holds host heartBeatResponseRecordAvro (heartbeatResponseOf res.elems) := by
  obtain ⟨vs, hholds, -, -, hres⟩ := parseArray_holds hlib hfiles heartBeatResponse_mem (by decide)
    hdisj (parseProcessStatus_decodes hlib) hsized hrun
  have hvalues : vs = res.elems.map CompletedProc.toValue := by
    rw [← List.forall₂_eq_eq_eq]
    exact List.forall₂_map_right_iff.mpr hres.forall₂_elems
  rwa [hvalues] at hholds

theorem parseHeartbeatResponse_accepts (hmem : host.MallocSucceeds) {slice : Slice} {out : OutPointers}
    {raw : Nat → CompletedProc} {memory : Memory} {procs : List CompletedProc} (hdisj : out.Disjoint)
    (h : slice.Holds host heartBeatResponseRecordAvro (heartbeatResponseOf procs)) :
    Returns (parseHeartbeatResponse host slice out raw memory) w fun res _ => res.elems = procs := by
  have haccepts : Returns (parseHeartbeatResponse host slice out raw memory) w fun _ _ => True :=
    parseArray_of_holds hlib hfiles heartBeatResponse_mem (by decide) hdisj
      (parseProcessStatus_decodes hlib) hsized hmem h
  obtain ⟨res, w', hrun, -⟩ := haccepts
  have hres := parseHeartbeatResponse_holds hlib hfiles hsized hdisj hrun
  exact ⟨res, w', hrun, heartbeatResponseOf_injective (hres.unique h)⟩

end sized

variable (hreads : host.lib.ReadsExactly)
include hreads

/-- The elements are those of the record in the slice. The C enum has all their states exactly if the
slice begins with a message whose ordinals are checked; it is accepted without that. -/
theorem parseHeartbeatResponse_states {out : OutPointers} (hdisj : out.Disjoint) (slice : Slice)
    (memory : Memory) :
    (∀ raw res w', (parseHeartbeatResponse host slice out raw memory).run w = .ok (res, w') →
      slice.Holds host heartBeatResponseRecordAvro (heartbeatResponseOf res.elems) ∧
      ((∀ proc ∈ res.elems, ∃ state : ProcessState, proc.procState = state.ordinal) ↔
        ∃ record word rest, slice.bytes = word ++ rest ∧
          Encodes .ordinals heartBeatResponseRecordAvro record word)) ∧
    (host.MallocSucceeds → ∀ procs word rest raw, slice.bytes = word ++ rest →
      Encodes .none heartBeatResponseRecordAvro (heartbeatResponseOf procs) word →
      Returns (parseHeartbeatResponse host slice out raw memory) w fun res _ => res.elems = procs) := by
  refine ⟨fun raw res w' hrun => ?_, fun hmem procs word rest raw hslice h => ?_⟩
  · have hholds := parseHeartbeatResponse_holds hlib hfiles hreads.readsSized hdisj hrun
    refine ⟨hholds, ?_⟩
    constructor
    · intro hstates
      obtain ⟨word, rest, hslice, h⟩ := (Slice.holds_iff hreads).mp hholds
      exact ⟨_, word, rest, hslice, (encodes_heartbeatResponse_iff h).mpr hstates⟩
    · intro h
      obtain ⟨record, word, rest, hslice, h⟩ := h
      obtain rfl := hholds.unique ((Slice.holds_iff hreads).mpr ⟨word, rest, hslice, h.to_none⟩)
      exact (encodes_heartbeatResponse_iff h.to_none).mp h
  · have hholds := (Slice.holds_iff hreads).mpr ⟨word, rest, hslice, h⟩
    exact parseHeartbeatResponse_accepts hlib hfiles hreads.readsSized hmem hdisj hholds

end heartbeat

def undeclaredProc : CompletedProc := ⟨⟨101, 1⟩, 7, 0⟩

def undeclaredResponse : Slice :=
  .ofBytes (encode (heartbeatResponseOf [undeclaredProc])) (by decide +kernel)

theorem undeclaredResponse_encodes :
    Encodes .none heartBeatResponseRecordAvro (heartbeatResponseOf [undeclaredProc])
      undeclaredResponse.bytes :=
  encodes_heartbeatResponse (by decide)

theorem parseHeartbeatResponse_states_sample :
    ∃ res w', (parseHeartbeatResponse Host.standard undeclaredResponse sampleOut
        (fun _ => ⟨⟨0, 0⟩, 0, 0⟩) fun _ => 0).run World.initial = .ok (res, w') ∧
      res.elems = [undeclaredProc] ∧
      undeclaredResponse.Holds Host.standard heartBeatResponseRecordAvro (heartbeatResponseOf res.elems) := by
  have hstates := parseHeartbeatResponse_states (w := World.initial) Libavro.generic_accessors
    Host.standard_installed Libavro.generic_readsExactly sampleOut_disjoint undeclaredResponse fun _ => 0
  obtain ⟨res, w', hrun, helems⟩ := hstates.2 Host.standard_mallocSucceeds _ _ [] _
    (List.append_nil _).symm undeclaredResponse_encodes
  exact ⟨res, w', hrun, helems, (hstates.1 _ res w' hrun).1⟩

/-- An element that is neither running nor completed is returned. -/
theorem parseHeartbeatResponse_undeclared :
    ∃ res w', (parseHeartbeatResponse Host.standard undeclaredResponse sampleOut
        (fun _ => ⟨⟨0, 0⟩, 0, 0⟩) fun _ => 0).run World.initial = .ok (res, w') ∧
      ∃ proc ∈ res.elems, ∀ state : ProcessState, proc.procState ≠ state.ordinal := by
  obtain ⟨res, w', hrun, helems⟩ := parseHeartbeatResponse_accepts (w := World.initial)
    Libavro.generic_accessors Host.standard_installed Libavro.generic_readsSized
    Host.standard_mallocSucceeds sampleOut_disjoint
    (Slice.holds_of_encodes Libavro.generic_readsFormat undeclaredResponse_encodes)
  refine ⟨res, w', hrun, undeclaredProc, by simp [helems], ?_⟩
  intro state
  cases state <;> decide

end HamsterAvro
