import HamsterAvro.UntrustedRequests

/-!
# Sending on a wrapped request

The wrapper refuses some of the requests that their own builders hand out. Of those that came wrapped it
refuses none: a request that was received in a wrapper of no more bytes than the buffer has, in any blocks
and however its numbers were padded, can be built and wrapped again. At neither level does that take more
bytes than were received, and what arrives is received as that request; two requests are sent on as the
same bytes exactly if they are the same (`relayWrapped_normalizes`).
-/

namespace HamsterAvro
open HamsterAvro.Wire HamsterAvro.Avro HamsterAvro.C

section host
variable (host : Host)

/-- A wrapper that the parser accepts, and what it makes of it. -/
def Unwraps (wrapper : Slice) (inner : InnerRequest) : Prop :=
  ∃ old w w', (parseHnpRequestWrapper host wrapper old).run w = .ok (inner, w')

/-- The parser of the request accepts the slice, and what is read of what it returns is the request. The
parser of a launch request gets to the end of none that has a context; there it is the contexts in the
slice, with their strings cut. -/
def Request.Received (r : Request) (slice : Slice) : Prop :=
  match r with
  | .launch items => ∃ contexts,
      slice.Holds host launchRequestRecordAvro (launchRequestRecordOf contexts) ∧
      contexts.map ContextRecord.cut = items
  | .allocate resourceCount => ∃ old w w',
      (parseAllocateRequest host slice old).run w = .ok (resourceCount, w')
  | .finish succeed diagnostics => ∃ old w diag w',
      (parseFinishRequest host slice old).run w = .ok ((succeed, diag), w') ∧ diag.cString = diagnostics

/-- The builder of the request returns, on whatever arguments are the request. -/
def Request.Builds (r : Request) (w : World) (P : Slice → World → Prop) : Prop :=
  match r with
  | .launch items => ∀ heap array, array.Shows heap items →
      Returns (buildLaunchRequest host heap array items.length) w fun out w' => P out.1 w'
  | .allocate resourceCount => Returns (buildAllocateRequest host resourceCount) w P
  | .finish succeed diagnostics => Returns (buildFinishRequest host succeed (some diagnostics)) w P

/-- What was built and wrapped is unwrapped as what was built, and that is the request. -/
def Request.Arrives (r : Request) (built again : Slice) (w : World) : Prop :=
  (∀ old, Returns (parseHnpRequestWrapper host again old) w fun res _ =>
    res.buffer.bytes = built.bytes ∧ res.len.toInt = built.len ∧ res.msgType = r.msgType.ordinal) ∧
  match r with
  | .launch items => ∀ slice : Slice, slice.bytes = built.bytes →
      slice.Holds host launchRequestRecordAvro (launchRequestValue items)
  | .allocate _ | .finish .. => r.Parsed host built.bytes w

end host

/-! ## Equal requests -/

theorem MsgType.ordinal_injective : Function.Injective MsgType.ordinal := by
  intro a b h
  cases a <;> cases b <;> first | rfl | exact absurd h (by decide)

/-- A request that fits is known by its type and its encoding. -/
theorem Request.eq_of_encode {r r' : Request} (htype : r.msgType = r'.msgType)
    (hfits : (encode r.toValue).length ≤ bufferSize) (hfits' : (encode r'.toValue).length ≤ bufferSize)
    (h : encode r.toValue = encode r'.toValue) : r = r' := by
  cases r with
  | launch items =>
    cases r' with
    | launch items' =>
      have hvalue := encode_inj (conforms_launch hfits) (conforms_launch hfits') h
      rw [List.map_injective_iff.mpr LaunchItem.toValue_injective (arrayRecord_inj hvalue)]
    | allocate | finish => cases htype
  | allocate n =>
    cases r' with
    | allocate n' =>
      have hvalue := encode_inj (allocateRequest_conforms n) (allocateRequest_conforms n') h
      simp only [allocateRequestValue, Value.record.injEq, List.cons.injEq, Prod.mk.injEq,
        Value.int.injEq, true_and, and_true] at hvalue
      rw [hvalue]
    | launch | finish => cases htype
  | finish succeed diagnostics =>
    cases r' with
    | finish succeed' diagnostics' =>
      have hvalue := encode_inj (conforms_finish hfits) (conforms_finish hfits') h
      simp only [finishRequestValue, Value.record.injEq, List.cons.injEq, Prod.mk.injEq,
        Value.boolean.injEq, Value.string.injEq, true_and, and_true] at hvalue
      rw [hvalue.1, CString.bytes_injective hvalue.2]
    | launch | allocate => cases htype

section relay
variable {host : Host} (hlib : host.lib.Accessors) (hfiles : host.Installed)
  (hmem : host.MallocSucceeds)

section received
variable (hreads : host.lib.RejectsMalformed)
include hlib hfiles hmem hreads

/-! ## What was received -/

/-- A request takes no more bytes than the slice it was received in. -/
theorem Request.Received.length_le {r : Request} {slice : Slice} (h : r.Received host slice) :
    (encode r.toValue).length ≤ slice.len := by
  cases r with
  | launch items =>
    obtain ⟨contexts, hholds, rfl⟩ := h
    unfold Request.toValue
    rw [length_encode_launchRequest]
    exact (launchRequestSize_cut_le contexts).trans (hholds.length_encode_le hreads)
  | allocate resourceCount =>
    obtain ⟨old, w, w', hrun⟩ := h
    obtain ⟨record, hholds, rfl⟩ :=
      (parseAllocateRequest_takesRecord hlib hfiles hmem hreads.readsSized old).of_run hrun
    exact hholds.length_encode_le hreads
  | finish succeed diagnostics =>
    obtain ⟨old, w, diag, w', hrun, rfl⟩ := h
    obtain ⟨record, hholds, data, rfl, hdiag⟩ :=
      (parseFinishRequest_takesRecord hlib hfiles hmem hreads.readsSized old).of_run hrun
    have hshort := hholds.length_encode_le hreads
    have hcut := countedSize_mono (CString.length_ofBytes_le data)
    simp only [length_encode_record, List.map_cons, List.map_nil, List.sum_cons, List.sum_nil,
      length_encode_boolean, length_encode_string] at hshort
    unfold Request.toValue
    rw [length_encode_finishRequest, Block.cString_append hdiag]
    omega

/-- What is left of a wrapper besides the inner bytes and their number has a byte at least. -/
theorem Unwraps.length_le {wrapper : Slice} {inner : InnerRequest} (h : Unwraps host wrapper inner) :
    countedSize inner.buffer.bytes.length + 1 ≤ wrapper.len := by
  obtain ⟨old, w, w', hrun⟩ := h
  obtain ⟨record, hholds, rfl, -⟩ :=
    (parseHnpRequestWrapper_takesRecord hlib hfiles hmem hreads old).of_run hrun
  have hshort := hholds.length_encode_le hreads
  have hordinal := longSize_pos inner.msgType.toInt
  simp only [length_encode_record, List.map_cons, List.map_nil, List.sum_cons, List.sum_nil,
    length_encode_bytes, length_encode_enum] at hshort
  omega

end received

/-! ## Sending it on -/

include hlib hfiles hmem

theorem Request.arrives (hreads : host.lib.ReadsFormat) {r : Request}
    (hfits : (encode r.toValue).length ≤ bufferSize) {built again : Slice} {w : World}
    (hbuilt : built.bytes = encode r.toValue)
    (hagain : again.bytes = encode (hnpRequestValue built.bytes r.msgType)) :
    r.Arrives host built again w := by
  refine ⟨fun old => parseHnpRequestWrapper_returns hlib hfiles hmem hreads hagain old, ?_⟩
  rw [hbuilt]
  cases r with
  | launch items =>
    exact fun slice hslice =>
      Slice.holds_of_encode hreads hslice (Request.conforms_launch hfits)
  | allocate | finish =>
    exact parseRequest_returns hlib hfiles hmem hreads hfits trivial

variable (hwrites : host.lib.WritesFormat)
include hwrites

theorem Request.builds {r : Request} (hfits : (encode r.toValue).length ≤ bufferSize) {w : World}
    {P : Slice → World → Prop} (hP : ∀ built w', built.bytes = encode r.toValue → P built w') :
    r.Builds host w P := by
  cases r with
  | launch items =>
    intro heap array hshows
    exact (buildLaunchRequest_returns hlib hfiles hmem hwrites hshows hfits).mono fun out w' h =>
      hP out.1 w' h.1
  | allocate resourceCount =>
    exact (buildAllocateRequest_returns hlib hfiles hmem hwrites resourceCount hfits).mono hP
  | finish succeed diagnostics =>
    exact (buildFinishRequest_returns hlib hfiles hmem hwrites succeed diagnostics hfits).mono hP

variable (hreads : host.lib.ReadsExactly)
include hreads

/-- At neither level does it take more bytes than it came in. -/
theorem Request.Received.builds {r : Request} {wrapper slice : Slice} {inner : InnerRequest} {w : World}
    (h : r.Received host slice) (hunwraps : Unwraps host wrapper inner)
    (hlen : wrapper.len ≤ bufferSize) (hslice : slice.bytes = inner.buffer.bytes) :
    r.Builds host w fun built w₁ => built.len ≤ slice.len ∧
      Returns (buildHnpRequestWrapper host built r.msgType) w₁ fun again w₂ =>
        again.len ≤ wrapper.len ∧ r.Arrives host built again w₂ := by
  have hinner := h.length_le hlib hfiles hmem hreads.toRejectsMalformed
  have hwrapper := hunwraps.length_le hlib hfiles hmem hreads.toRejectsMalformed
  have hcounted := countedSize_mono hinner
  have hle := le_countedSize slice.len
  rw [← hslice, ← Slice.len] at hwrapper
  refine Request.builds hlib hfiles hmem hwrites (by omega) fun built w₁ hbytes => ?_
  have hlength : (encode (hnpRequestValue built.bytes r.msgType)).length =
      countedSize (encode r.toValue).length + 1 := by rw [length_encode_hnpRequest, hbytes]
  refine ⟨by rwa [Slice.len, hbytes], ?_⟩
  refine (buildHnpRequestWrapper_returns hlib hfiles hmem hwrites built r.msgType
    (by omega)).mono fun again w₂ hagain => ⟨?_, ?_⟩
  · rw [Slice.len, hagain]
    omega
  · exact Request.arrives hlib hfiles hmem hreads.toReadsFormat (by omega) hbytes hagain

omit hreads

theorem Request.Built.wrapped_inj {r r' : Request} {built built' again again' : Slice}
    {w w₁ w₂ w' w₁' w₂' : World} (hbuilt : r.Built host w built w₁)
    (hrun : (buildHnpRequestWrapper host built r.msgType).run w₁ = .ok (again, w₂))
    (hbuilt' : r'.Built host w' built' w₁')
    (hrun' : (buildHnpRequestWrapper host built' r'.msgType).run w₁' = .ok (again', w₂')) :
    again.bytes = again'.bytes ↔ r = r' := by
  obtain ⟨hbytes, hfits⟩ := hbuilt.bytes_eq hlib hfiles hmem hwrites
  obtain ⟨hbytes', hfits'⟩ := hbuilt'.bytes_eq hlib hfiles hmem hwrites
  have hagain := buildHnpRequestWrapper_bytes hlib hfiles hmem hwrites hrun
  have hagain' := buildHnpRequestWrapper_bytes hlib hfiles hmem hwrites hrun'
  constructor
  · intro h
    rw [hagain, hagain'] at h
    have hvalue := encode_inj (hnpRequest_conforms r.msgType (lt_of_le_of_lt built.len_le (by decide)))
      (hnpRequest_conforms r'.msgType (lt_of_le_of_lt built'.len_le (by decide))) h
    simp only [hnpRequestValue, Value.record.injEq, List.cons.injEq, Prod.mk.injEq, Value.bytes.injEq,
      Value.enum.injEq, true_and, and_true] at hvalue
    refine Request.eq_of_encode (MsgType.ordinal_injective hvalue.2) hfits hfits' ?_
    rw [← hbytes, ← hbytes', hvalue.1]
  · rintro rfl
    rw [hagain, hagain', hbytes, hbytes']

include hreads

/-- Whatever was received wrapped is sent on wrapped, and different requests are sent on differently. -/
theorem relayWrapped_normalizes :
    (∀ (r : Request) (wrapper slice : Slice) inner w, Unwraps host wrapper inner →
      wrapper.len ≤ bufferSize → slice.bytes = inner.buffer.bytes → r.Received host slice →
      r.Builds host w fun built w₁ => built.len ≤ slice.len ∧
        Returns (buildHnpRequestWrapper host built r.msgType) w₁ fun again w₂ =>
          again.len ≤ wrapper.len ∧ r.Arrives host built again w₂) ∧
    (∀ (r r' : Request) built built' again again' w w₁ w₂ w' w₁' w₂',
      r.Built host w built w₁ → (buildHnpRequestWrapper host built r.msgType).run w₁ = .ok (again, w₂) →
      r'.Built host w' built' w₁' →
      (buildHnpRequestWrapper host built' r'.msgType).run w₁' = .ok (again', w₂') →
      (again.bytes = again'.bytes ↔ r = r')) :=
  ⟨fun _ _ _ _ _ hunwraps hlen hslice hreceived =>
      hreceived.builds hlib hfiles hmem hwrites hreads hunwraps hlen hslice,
    fun _ _ _ _ _ _ _ _ _ _ _ _ hbuilt hrun hbuilt' hrun' =>
      hbuilt.wrapped_inj hlib hfiles hmem hwrites hrun hbuilt' hrun'⟩

end relay

/-! ### An allocate request of two bytes where one would do -/

def paddedInner : Slice := .ofBytes [0x84, 0] (by decide)

def paddedWrapper : Slice := .ofBytes [4, 0x84, 0, 0] (by decide)

set_option maxRecDepth 4000 in
theorem paddedInner_holds :
    paddedInner.Holds Host.standard allocateRequestRecordAvro (allocateRequestValue 2) :=
  ⟨[], by rfl⟩

theorem paddedWrapper_holds : paddedWrapper.Holds Host.standard hamsterHnpRequestRecordAvro
    (.record [("request", .bytes [0x84, 0]), ("msg_type", .enum 0)]) :=
  ⟨[], by rfl⟩

theorem relayWrapped_normalizes_sample :
    ∃ inner, Unwraps Host.standard paddedWrapper inner ∧ paddedInner.bytes = inner.buffer.bytes ∧
      (Request.allocate 2).Received Host.standard paddedInner ∧
      Returns (buildAllocateRequest Host.standard 2) World.initial fun built w₁ => built.len ≤ 2 ∧
        Returns (buildHnpRequestWrapper Host.standard built .allocate) w₁ fun again w₂ =>
          again.len ≤ 4 ∧ (Request.allocate 2).Arrives Host.standard built again w₂ := by
  have hlib : Host.standard.lib.Accessors := Libavro.generic_accessors
  have hreads : Host.standard.lib.ReadsExactly := Libavro.generic_readsExactly
  obtain ⟨inner, w', hrun, hsays, -⟩ := (parseHnpRequestWrapper_takesRecord hlib Host.standard_installed
    Host.standard_mallocSucceeds hreads.toRejectsMalformed ((⟨0, []⟩, 0), 0)).returns paddedWrapper _
    World.initial paddedWrapper_holds
  obtain ⟨n, w₁, hrun₁, hn⟩ := (parseAllocateRequest_takesRecord hlib Host.standard_installed
    Host.standard_mallocSucceeds hreads.readsSized 0).returns paddedInner _ World.initial paddedInner_holds
  have hslice : paddedInner.bytes = inner.buffer.bytes := by
    simp only [Value.record.injEq, List.cons.injEq, Prod.mk.injEq, Value.bytes.injEq, true_and] at hsays
    exact hsays.1
  have hunwraps : Unwraps Host.standard paddedWrapper inner := ⟨_, _, w', hrun⟩
  have hreceived : (Request.allocate 2).Received Host.standard paddedInner := by
    simp only [SaysAllocate, allocateRequestValue, Value.record.injEq, List.cons.injEq, Prod.mk.injEq,
      Value.int.injEq, true_and, and_true] at hn
    subst hn
    exact ⟨0, World.initial, w₁, hrun₁⟩
  exact ⟨inner, hunwraps, hslice, hreceived, (relayWrapped_normalizes hlib Host.standard_installed
    Host.standard_mallocSucceeds Libavro.generic_writesFormat hreads).1 _ _ _ _ World.initial hunwraps
    (by decide) hslice hreceived⟩

end HamsterAvro
