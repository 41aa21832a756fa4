import HamsterAvro.Avro.Shortest
import HamsterAvro.ResponseRoundTrip

/-!
# Sending on what was received

A response that was received need not have been written by a builder: its arrays may be in any blocks and
its numbers padded. Building from what the parser returned gives the normal form of the message. It never
takes more bytes than the message did, so whatever was received in a buffer can be sent on from one; it is
received again as it was; and two messages have the same normal form exactly if they are received the
same (`relayResponse_normalizes`).
-/

namespace HamsterAvro
open HamsterAvro.Wire HamsterAvro.Avro HamsterAvro.C

/-- The number of elements the caller finds. -/
def ArrayOut.count {α : Type} (res : ArrayOut α) (out : OutPointers) : Nat :=
  (res.memory.loadInt out.arraySize).toInt.toNat

/-- A slice that the parser accepts, and what it makes of it. -/
def Receives {α : Type} (parse : Slice → OutPointers → (Nat → α) → Memory → Prog (ArrayOut α))
    (slice : Slice) (out : OutPointers) (res : ArrayOut α) : Prop :=
  out.Disjoint ∧ ∃ raw memory w w', (parse slice out raw memory).run w = .ok (res, w')

/-- A parser and a builder that sends on what the parser returned; `seen` is what the caller makes of an
element. -/
structure Normalizes {α β : Type}
    (parse : Slice → OutPointers → (Nat → α) → Memory → Prog (ArrayOut α))
    (build : List α → Nat → Prog Slice) (seen : α → β) : Prop where
  /-- A message that fits the buffer has a normal form, which is no longer and is received the same. -/
  resent : ∀ slice out res, Receives parse slice out res → slice.len ≤ bufferSize → ∀ w,
    Returns (build res.elems (res.count out)) w fun built _ => built.len ≤ slice.len ∧
      ∀ out' raw memory w, out'.Disjoint → Returns (parse built out' raw memory) w
        fun res' _ => res'.elems.map seen = res.elems.map seen
  /-- It is the same for messages that are received the same, and for no others. -/
  same_iff : ∀ slice out res slice' out' res', Receives parse slice out res →
    Receives parse slice' out' res' → ∀ w w' built w₁ w₁' built',
    (build res.elems (res.count out)).run w = .ok (built, w') →
    (build res'.elems (res'.count out')).run w₁ = .ok (built', w₁') →
    (built.bytes = built'.bytes ↔ res.elems.map seen = res'.elems.map seen)

section general
variable {α β : Type} {parse : Slice → OutPointers → (Nat → α) → Memory → Prog (ArrayOut α)}
  {build : List α → Nat → Prog Slice} {seen : α → β} {There : List α → Nat → Prop}
  {recordOf : List α → Value}

/-- What is asked of a parser and a builder: a slice that is accepted gives a list the builder can write
in no more bytes, and what the builder wrote of a list is received as that list. -/
theorem Normalizes.of_builds (hbuild : BuildsArray build There recordOf)
    (haccepted : ∀ slice out res, Receives parse slice out res →
      There res.elems res.elems.length ∧ res.count out = res.elems.length ∧
        (encode (recordOf res.elems)).length ≤ slice.len)
    (hparse : ∀ xs slice, There xs xs.length → (encode (recordOf xs)).length ≤ bufferSize →
      slice.bytes = encode (recordOf xs) → ∀ out raw memory w, out.Disjoint →
      Returns (parse slice out raw memory) w fun res _ => res.elems.map seen = xs.map seen)
    (hrecord : ∀ xs ys : List α, xs.map seen = ys.map seen → recordOf xs = recordOf ys) :
    Normalizes parse build seen where
  resent slice out res h hlen w := by
    obtain ⟨hthere, hcount, hshort⟩ := haccepted slice out res h
    have hfits : (encode (recordOf res.elems)).length ≤ bufferSize := hshort.trans hlen
    rw [hcount]
    refine (hbuild.returns _ _ w hthere (by rwa [List.take_length])).mono fun built _ hbytes => ?_
    rw [List.take_length] at hbytes
    refine ⟨?_, hparse _ built hthere hfits hbytes⟩
    unfold Slice.len at hshort ⊢
    rwa [hbytes]
  same_iff slice out res slice' out' res' h h' w w' built w₁ w₁' built' hrun hrun' := by
    obtain ⟨hthere, hcount, -⟩ := haccepted slice out res h
    obtain ⟨hthere', hcount', -⟩ := haccepted slice' out' res' h'
    rw [hcount] at hrun
    rw [hcount'] at hrun'
    obtain ⟨-, hfits, hbytes⟩ := hbuild.of_run hrun
    obtain ⟨-, hfits', hbytes'⟩ := hbuild.of_run hrun'
    rw [List.take_length] at hfits hbytes hfits' hbytes'
    constructor
    · intro heq
      obtain ⟨hdisj, raw, memory, -⟩ := h
      -- the first normal form is received as either list
      obtain ⟨res₀, w₀, hrun₀, hseen⟩ :=
        hparse _ built hthere hfits hbytes out raw memory World.initial hdisj
      rw [← hseen]
      exact (hparse _ built hthere' hfits' (heq.trans hbytes') out raw memory World.initial
        hdisj).of_run hrun₀
    · intro hseen
      rw [hbytes, hbytes', hrecord _ _ hseen]

/-- A list that is returned for a list of the elements themselves. -/
theorem ArrayOut.Returned.forall₂_elems {γ : Type} {P : γ → α → Prop} {xs : List γ} {out : OutPointers}
    {res : ArrayOut α} (h : res.Returned P xs out) : List.Forall₂ P xs res.elems := by
  obtain ⟨-, -, ys, hys, hres⟩ := h
  unfold ArrayOut.elems
  by_cases hnil : xs = []
  · rw [hres, if_pos hnil, hnil]
    exact .nil
  · rw [hres, if_neg hnil]
    exact hys

end general

section accepted
variable {host : Host} {w : World} {L α : Type} {file field name : String} {items : Schema}
  {sizeofElem : Nat} {locals : L} {elem : Value → Libavro.Handle → Nat → L → α → Prog (L × α)}
  {R : Value → α → Prop} {slice : Slice} {out : OutPointers} {raw : Nat → α} {memory : Memory}

/-- The record in a slice is written in no more bytes than the slice has. -/
theorem Slice.Holds.length_encode_le {schema : Schema} {record : Value}
    (hreads : host.lib.RejectsMalformed) (h : slice.Holds host schema record) :
    (encode record).length ≤ slice.len := by
  obtain ⟨_, hread⟩ := h
  obtain ⟨word, hslice, hrecord⟩ := hreads.sound hread
  have hshort := hrecord.length_encode_le
  unfold Slice.len
  rw [hslice, List.length_append]
  omega

theorem parseArray_accepted (hlib : host.lib.Accessors) (hfiles : host.Installed)
    (hreads : host.lib.RejectsMalformed)
    (hfile : (file, .record name [(field, .array items)]) ∈ schemaFiles) (hpos : 0 < items.minSize)
    (hdisj : out.Disjoint) (helem : ElemDecodes field items elem R) {res : ArrayOut α} {w' : World}
    (hrun : (parseArray host file field sizeofElem locals elem slice out raw memory).run w =
      .ok (res, w')) :
    ∃ vs, (encode (arrayRecord field items vs)).length ≤ slice.len ∧ List.Forall₂ R vs res.elems ∧
      res.count out = res.elems.length := by
  obtain ⟨vs, hholds, -, hlen, hres⟩ :=
    parseArray_holds hlib hfiles hfile hpos hdisj helem hreads.readsSized hrun
  refine ⟨vs, hholds.length_encode_le hreads, hres.forall₂_elems, ?_⟩
  unfold ArrayOut.count
  rw [hres.loadInt hdisj, toInt_ofNat hlen, Int.toNat_natCast, hres.forall₂_elems.length_eq]

end accepted

theorem eq_map_of_forall₂ {α β : Type} {f : β → α} {xs : List α} {ys : List β}
    (h : List.Forall₂ (fun x y => x = f y) xs ys) : xs = ys.map f := by
  rw [← List.forall₂_eq_eq_eq]
  exact List.forall₂_map_right_iff.mpr h

section relay
variable {host : Host} (hlib : host.lib.Accessors) (hfiles : host.Installed)
  (hmem : host.MallocSucceeds) (hwrites : host.lib.WritesFormat) (hreads : host.lib.ReadsExactly)
include hlib hfiles hmem hwrites hreads

theorem launchResponse_normalizes :
    Normalizes (parseLaunchResponse host) (buildLaunchResponse host) id := by
  refine .of_builds (buildLaunchResponse_builds hlib hfiles hmem hwrites) ?_ ?_ ?_
  · intro slice out res ⟨hdisj, raw, memory, w, w', hrun⟩
    obtain ⟨vs, hshort, hvs, hcount⟩ := parseArray_accepted hlib hfiles
      hreads.toRejectsMalformed launchResponse_mem (by decide) hdisj (parseLaunchResult_decodes hlib) hrun
    rw [eq_map_of_forall₂ hvs] at hshort
    exact ⟨le_refl _, hcount, hshort⟩
  · intro xs slice _ hfits hbytes out raw memory w hdisj
    refine (parseArray_returned (P := fun response x => x = response) hlib hfiles hmem
      hreads.toReadsFormat launchResponse_mem (by decide) hdisj (parseLaunchResult_decodes hlib)
      (fun _ _ hx => (launchResultValue_inj hx).symm) (hbytes.trans (List.append_nil _).symm)
      (encodes_launchResponse hfits)).mono fun res _ hres => ?_
    rw [← eq_map_of_forall₂ (f := id) (hres.forall₂_elems.imp fun _ _ h => h.symm), List.map_id]
  · intro xs ys heq
    rw [List.map_id, List.map_id] at heq
    rw [heq]

theorem heartbeatResponse_normalizes :
    Normalizes (parseHeartbeatResponse host) (buildHeartbeatResponse host) id := by
  refine .of_builds (buildHeartbeatResponse_builds hlib hfiles hmem hwrites) ?_ ?_ ?_
  · intro slice out res ⟨hdisj, raw, memory, w, w', hrun⟩
    obtain ⟨vs, hshort, hvs, hcount⟩ := parseArray_accepted hlib hfiles
      hreads.toRejectsMalformed heartBeatResponse_mem (by decide) hdisj (parseProcessStatus_decodes hlib) hrun
    rw [eq_map_of_forall₂ (f := CompletedProc.toValue) hvs] at hshort
    exact ⟨le_refl _, hcount, hshort⟩
  · intro xs slice _ hfits hbytes out raw memory w hdisj
    have hholds : slice.Holds host heartBeatResponseRecordAvro (heartbeatResponseOf xs) :=
      Slice.holds_of_encodes (c := .none) hreads.toReadsFormat
        (by rw [hbytes]; exact encodes_heartbeatResponse_of_fits hfits)
    refine (parseHeartbeatResponse_accepts hlib hfiles hreads.readsSized hmem hdisj hholds).mono
      fun res _ hres => ?_
    rw [hres]
  · intro xs ys heq
    rw [List.map_id, List.map_id] at heq
    rw [heq]

/-- What is read through the pointers is sent on: each host name up to its first zero byte. -/
theorem allocateResponse_normalizes :
    Normalizes (parseAllocateResponse host) (buildAllocateResponse host) NodeResource.seen := by
  refine .of_builds (buildAllocateResponse_builds hlib hfiles hmem hwrites) ?_ ?_ ?_
  · intro slice out res h
    obtain ⟨nodes, hholds, hseen, hread, hcount⟩ := AcceptsAllocate.nodes hlib hfiles hreads.readsSized h
    refine ⟨fun i hi => ⟨_, List.getElem?_eq_getElem hi, hread _ (List.getElem_mem hi)⟩, hcount, ?_⟩
    rw [NodeResource.responseOf_eq, hseen, List.map_map]
    exact (length_encode_cut_le nodes).trans (hholds.length_encode_le hreads.toRejectsMalformed)
  · intro xs slice hthere hfits hbytes out raw memory w hdisj
    rw [NodeResource.responseOf_eq] at hfits hbytes
    refine (parseAllocateResponse_returned hlib hfiles hmem hreads.toReadsFormat hdisj
      (hbytes.trans (List.append_nil _).symm) (encodes_allocateResponse hfits)).mono fun res _ hres => ?_
    exact (eq_map_of_forall₂ (hres.forall₂_elems.imp fun _ _ h => h.1.symm)).symm
  · intro xs ys heq
    rw [NodeResource.responseOf_eq, NodeResource.responseOf_eq, heq]

/-- All three responses have a normal form. -/
theorem relayResponse_normalizes :
    Normalizes (parseLaunchResponse host) (buildLaunchResponse host) id ∧
    Normalizes (parseHeartbeatResponse host) (buildHeartbeatResponse host) id ∧
    Normalizes (parseAllocateResponse host) (buildAllocateResponse host) NodeResource.seen :=
  ⟨launchResponse_normalizes hlib hfiles hmem hwrites hreads,
   heartbeatResponse_normalizes hlib hfiles hmem hwrites hreads,
   allocateResponse_normalizes hlib hfiles hmem hwrites hreads⟩

end relay

/-- Of a response in two blocks. -/
theorem relayResponse_normalizes_sample :
    ∃ res, Receives (parseLaunchResponse Host.standard) splitResponse sampleOut res ∧
      Returns (buildLaunchResponse Host.standard res.elems (res.count sampleOut)) World.initial
        fun built _ => built.len ≤ splitResponse.len ∧
          ∀ out raw memory w, out.Disjoint →
            Returns (parseLaunchResponse Host.standard built out raw memory) w
              fun res' _ => res'.elems.map id = res.elems.map id := by
  obtain ⟨res, w', hrun, -⟩ := splitResponse_accepted fun _ => 0
  have hres : Receives (parseLaunchResponse Host.standard) splitResponse sampleOut res :=
    ⟨sampleOut_disjoint, _, _, _, w', hrun⟩
  exact ⟨res, hres, (relayResponse_normalizes Libavro.generic_accessors Host.standard_installed
    Host.standard_mallocSucceeds Libavro.generic_writesFormat Libavro.generic_readsExactly).1.resent
    splitResponse sampleOut res hres (by decide +kernel) World.initial⟩

end HamsterAvro
