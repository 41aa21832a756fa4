import HamsterAvro.C.Loop
import HamsterAvro.Responses

/-!
# The number of elements of a response

The count of an array is summed up by libavro from what the sender wrote in front of each block, as a
`size_t`; the parsers keep it in an `int`, multiply it by the size of an element and count up to it. Every
element takes its bytes in the slice, whose length is an `int`, so none of the three can go wrong
(`parseResponse_counts`). Of the reader only that is used: what it takes for well formed does not matter.
-/

namespace HamsterAvro
open HamsterAvro.Wire HamsterAvro.Avro HamsterAvro.C

/-- What a parser makes of a message of the elements `vs`, `body` being the body of its loop. -/
structure ArrayOut.Counts {L α : Type} (host : Host) (minSize sizeofElem : Nat)
    (body : Nat → L → Prog (L × α)) (R : Value → α → Prop) (slice : Slice) (out : OutPointers) (w : World)
    (vs : List Value) (res : ArrayOut α) : Prop where
  bound : minSize * vs.length < slice.len
  /-- The `int` the caller finds is the number, not its low half. -/
  narrowed : (res.memory.loadInt out.arraySize).toInt = vs.length
  product_lt : sizeofElem * vs.length < 2 ^ 64
  /-- The block is what `malloc` returned for the product. -/
  block : res.pointer = if vs = [] then 0 else host.malloc (w.allocs + 2) (sizeofElem * vs.length)
  /-- The loop over `int i` up to the stored `int` runs its body for each index and stores an element
  each time. -/
  loop : ∃ l l' s s', ForLoop (res.memory.loadInt out.arraySize)
    (fun st i => elemPass body st i.toInt.toNat) 0 (l, []) s
    ((List.range vs.length).map Int32.ofNat) (l', res.elems) s'
  /-- The element at an index is the one of the message. -/
  elems : List.Forall₂ R vs res.elems

/-- The size of a `malloc` of elements of at most four words each does not wrap. -/
theorem mallocSize_ofNat {sizeofElem n : Nat} (hsize : sizeofElem ≤ 32) (hn : n ≤ intMax) :
    sizeofElem * n < 2 ^ 64 ∧ mallocSize sizeofElem (Int32.ofNat n) = sizeofElem * n := by
  have hproduct : sizeofElem * n ≤ 32 * intMax := Nat.mul_le_mul hsize hn
  simp only [intMax] at hproduct
  refine ⟨by omega, ?_⟩
  unfold mallocSize
  rw [toInt_ofNat hn, ← Int.natCast_mul]
  omega

section host
variable {host : Host} {w : World} {L α : Type} {file field name : String} {items : Schema}
  {sizeofElem : Nat} {locals : L} {elem : Value → Libavro.Handle → Nat → L → α → Prog (L × α)}
  {R : Value → α → Prop} {slice : Slice} {out : OutPointers} {raw : Nat → α} {memory : Memory}
  (hlib : host.lib.Accessors) (hfiles : host.Installed) (hsized : host.lib.ReadsSized)
include hlib hfiles hsized

theorem parseArray_counts (hfile : (file, .record name [(field, .array items)]) ∈ schemaFiles)
    (hpos : 0 < items.minSize) (hdisj : out.Disjoint) (helem : ElemDecodes field items elem R)
    (hsize : sizeofElem ≤ 32) {res : ArrayOut α} {w' : World}
    (hrun : (parseArray host file field sizeofElem locals elem slice out raw memory).run w =
      .ok (res, w')) :
    ∃ vs, slice.Holds host (.record name [(field, .array items)]) (arrayRecord field items vs) ∧
      res.Counts host items.minSize sizeofElem (elemBody elem (arrayRecord field items vs) raw) R slice
        out w vs := by
  obtain ⟨vs, hholds, hbound, hlen, hres⟩ :=
    parseArray_holds hlib hfiles hfile hpos hdisj helem hsized hrun
  obtain ⟨hproduct, hmalloc⟩ := mallocSize_ofNat hsize hlen
  have hcount := hres.loadInt hdisj
  have hran := parseArray_ensures hlib hfiles hfile hholds hlen hdisj res w' hrun
  refine ⟨vs, hholds, hbound, by rw [hcount, toInt_ofNat hlen], hproduct, ?_, ?_, hres.forall₂_elems⟩
  · rcases hran with ⟨rfl, rfl⟩ | ⟨hnil, block, l, xs, s, s', hblock, -, -, rfl⟩
    · rfl
    · rw [if_neg hnil, ← hmalloc, ← hblock]
      rfl
  · simp only [hcount, forLoop_iff, toInt_ofNat hlen, Int.toNat_natCast, true_and]
    rcases hran with ⟨rfl, rfl⟩ | ⟨-, block, l, xs, s, s', -, -, hloop, rfl⟩
    · exact ⟨locals, locals, w, w, rfl⟩
    · exact ⟨locals, l, s, s', hloop⟩

/-- The elements of an accepted response are fewer than a third, a half and a quarter of its bytes, and
the parsers count them without overflow, whatever `malloc` does. -/
theorem parseResponse_counts {out : OutPointers} (hdisj : out.Disjoint) (slice : Slice)
    (memory : Memory) :
    (∀ raw res w', (parseLaunchResponse host slice out raw memory).run w = .ok (res, w') →
      ∃ vs, slice.Holds host launchResponseRecordAvro (arrayRecord "results" launchResult vs) ∧
        res.Counts host 3 sizeofLaunchResponse
          (elemBody (parseLaunchResult host) (arrayRecord "results" launchResult vs) raw)
          (fun v x => v = launchResultValue x) slice out w vs) ∧
    (∀ raw res w', (parseAllocateResponse host slice out raw memory).run w = .ok (res, w') →
      ∃ vs, slice.Holds host allocateResponseRecordAvro
          (arrayRecord "node_resources" nodeResource vs) ∧
        res.Counts host 2 sizeofNodeResource
          (elemBody (parseNodeResource host) (arrayRecord "node_resources" nodeResource vs) raw)
          (fun v x => ∃ hostName, v = nodeResourceValue hostName x.slotNum ∧ x.hostName.addr ≠ 0 ∧
            x.hostName.bytes = hostName ++ [0]) slice out w vs) ∧
    (∀ raw res w', (parseHeartbeatResponse host slice out raw memory).run w = .ok (res, w') →
      ∃ vs, slice.Holds host heartBeatResponseRecordAvro
          (arrayRecord "completed_processes" processStatus vs) ∧
        res.Counts host 4 sizeofCompletedProc
          (elemBody (parseProcessStatus host) (arrayRecord "completed_processes" processStatus vs) raw)
          (fun v x => v = processStatusValue x.procName x.procState x.exitValue) slice out w vs) := by
  refine ⟨fun raw res w' hrun => ?_, fun raw res w' hrun => ?_, fun raw res w' hrun => ?_⟩
  · exact parseArray_counts hlib hfiles hsized launchResponse_mem (by decide) hdisj
      (parseLaunchResult_decodes hlib) (by decide) hrun
  · exact parseArray_counts hlib hfiles hsized allocateResponse_mem (by decide) hdisj
      (parseNodeResource_decodes hlib) (by decide) hrun
  · exact parseArray_counts hlib hfiles hsized heartBeatResponse_mem (by decide) hdisj
      (parseProcessStatus_decodes hlib) (by decide) hrun

end host

theorem parseResponse_counts_sample :
    ∃ res w', (parseLaunchResponse Host.standard splitResponse sampleOut (fun _ => ⟨false, ⟨0, 0⟩⟩)
        fun _ => 0).run World.initial = .ok (res, w') ∧
      res.Counts Host.standard 3 sizeofLaunchResponse
        (elemBody (parseLaunchResult Host.standard)
          (arrayRecord "results" launchResult (sampleResults.map launchResultValue))
          fun _ => ⟨false, ⟨0, 0⟩⟩)
        (fun v x => v = launchResultValue x) splitResponse sampleOut World.initial
        (sampleResults.map launchResultValue) := by
  have hlib : Host.standard.lib.Accessors := Libavro.generic_accessors
  obtain ⟨res, w', hrun, -⟩ := splitResponse_accepted fun _ => 0
  obtain ⟨vs, hholds, hcounts⟩ := (parseResponse_counts hlib Host.standard_installed
    Libavro.generic_readsSized sampleOut_disjoint splitResponse fun _ => 0).1 _ res w' hrun
  obtain rfl := arrayRecord_inj (hholds.unique splitResponse_holds)
  exact ⟨res, w', hrun, hcounts⟩

end HamsterAvro
