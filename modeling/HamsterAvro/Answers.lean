import HamsterAvro.C.Refine
import HamsterAvro.Exchange
import HamsterAvro.UntrustedRequests

/-!
# What each call answers

The abstract side of the eleven entry points: functions of the arguments alone, that need neither libavro
nor files nor memory. A builder answers with the encoding of its record, if that fits the buffer; a parser
with the list in the slice, if there is one. `Call.reply` is the call with all it hands to its caller, and
it does what the answer says, from every state of the process (`Call.reply_refines`).
-/

namespace HamsterAvro
open HamsterAvro.Wire HamsterAvro.Avro HamsterAvro.C

/-! ## The abstract side -/

/-- How a call ends that does not return. -/
inductive Fault where
  | exits
  | undefined
  deriving DecidableEq

/-- What the caller has of a call that returns. -/
inductive Answer where
  | slice (bytes : Bytes)
  /-- The request, and the caller's array as it is left. -/
  | launchRequest (bytes : Bytes) (elems : List LaunchContext)
  | nodeResources (nodes : List NodeSlot)
  | launchResponses (responses : List LaunchResponse)
  | completedProcs (procs : List CompletedProc)
  /-- The `-1` of the acknowledgement parsers. -/
  | refused
  deriving DecidableEq

/-- A record is sent if it fits the buffer. -/
def send {α : Type} (record : Value) (answer : Bytes → α) : Except Fault α :=
  if (encode record).length ≤ bufferSize then .ok (answer (encode record)) else .error .exits

/-- What the first `arraySize` contexts show, if they are all there. -/
def LaunchArray.shown (heap : Heap) (array : LaunchArray) (arraySize : Nat) : Option (List LaunchItem) :=
  if arraySize ≤ array.elems.length then (array.elems.take arraySize).mapM (LaunchContext.view heap)
  else none

/-- The list of the record that the bytes begin with. -/
def receive {α : Type} (schema : Schema) (ofValue : Value → Option α) (bytes : Bytes) : Option (List α) :=
  match (decode schema).run bytes with
  | some (.record [(_, .array _ vs)], _) => vs.mapM ofValue
  | _ => none

def LaunchResponse.ofValue : Value → Option LaunchResponse
  | .record [(_, .boolean isSuccessful), (_, .record [(_, .int jobid), (_, .int vpid)])] =>
    some ⟨isSuccessful, ⟨jobid, vpid⟩⟩
  | _ => none

/-- A name as the C string that is read through its pointer. -/
def NodeSlot.ofValue : Value → Option NodeSlot
  | .record [(_, .string hostName), (_, .int slot)] => some ⟨.ofBytes hostName, slot⟩
  | _ => none

def CompletedProc.ofValue : Value → Option CompletedProc
  | .record [(_, .record [(_, .int jobid), (_, .int vpid)]), (_, .enum state), (_, .int exitValue)] =>
    some ⟨⟨jobid, vpid⟩, state, exitValue⟩
  | _ => none

def answerList {α : Type} (answer : List α → Answer) : Option (List α) → Except Fault Answer
  | none => .error .exits
  | some xs => .ok (answer xs)

def Call.answer : Call → Except Fault Answer
  | .buildAllocateRequest resourceCount => send (allocateRequestValue resourceCount) .slice
  | .buildLaunchRequest heap array arraySize =>
    match array.shown heap arraySize with
    | none => .error .undefined
    | some items => send (launchRequestValue items) fun bytes =>
        .launchRequest bytes (exhaustFirst heap array.elems arraySize)
  | .buildHeartbeatRequest => .ok (.slice [])
  | .buildRegisterRequest => .ok (.slice [])
  | .buildFinishRequest _ none => .error .undefined
  | .buildFinishRequest succeed (some diagnostics) => send (finishRequestValue succeed diagnostics) .slice
  | .buildHnpRequestWrapper innerSlice msgType =>
    send (hnpRequestValue innerSlice.bytes msgType) .slice
  | .parseAllocateResponse slice _ _ _ => answerList .nodeResources
      (receive allocateResponseRecordAvro NodeSlot.ofValue slice.bytes)
  | .parseLaunchResponse slice _ _ _ => answerList .launchResponses
      (receive launchResponseRecordAvro LaunchResponse.ofValue slice.bytes)
  | .parseHeartbeatResponse slice _ _ _ => answerList .completedProcs
      (receive heartBeatResponseRecordAvro CompletedProc.ofValue slice.bytes)
  | .parseRegisterResponse _ => .ok .refused
  | .parseFinishResponse _ => .ok .refused

/-! ## The calls, with all they hand out -/

inductive Reply where
  | slice (slice : Slice)
  | launchRequest (slice : Slice) (array : LaunchArray)
  | nodeResources (out : OutPointers) (res : ArrayOut NodeResource)
  | launchResponses (out : OutPointers) (res : ArrayOut LaunchResponse)
  | completedProcs (out : OutPointers) (res : ArrayOut CompletedProc)
  | status (result : Int32)

/-- What of it the caller has to free. -/
def Reply.owned : Reply → List Owned
  | .slice s => [.slice s]
  | .launchRequest s _ => [.slice s]
  | .nodeResources out res => [.nodeResources res.pointer res.elems (res.count out)]
  | .launchResponses _ res => [.launchResponses res.pointer]
  | .completedProcs _ res => [.completedProcs res.pointer]
  | .status _ => []

section host
variable (host : Host)

def Call.reply : Call → Prog Reply
  | .buildAllocateRequest resourceCount => .slice <$> HamsterAvro.buildAllocateRequest host resourceCount
  | .buildLaunchRequest heap array arraySize =>
    (fun out => .launchRequest out.1 out.2) <$> HamsterAvro.buildLaunchRequest host heap array arraySize
  | .buildHeartbeatRequest => .slice <$> HamsterAvro.buildHeartbeatRequest host
  | .buildRegisterRequest => .slice <$> HamsterAvro.buildRegisterRequest host
  | .buildFinishRequest succeed diagnostics =>
    .slice <$> HamsterAvro.buildFinishRequest host succeed diagnostics
  | .buildHnpRequestWrapper innerSlice msgType =>
    .slice <$> HamsterAvro.buildHnpRequestWrapper host innerSlice msgType
  | .parseAllocateResponse slice out raw memory =>
    .nodeResources out <$> HamsterAvro.parseAllocateResponse host slice out raw memory
  | .parseLaunchResponse slice out raw memory =>
    .launchResponses out <$> HamsterAvro.parseLaunchResponse host slice out raw memory
  | .parseHeartbeatResponse slice out raw memory =>
    .completedProcs out <$> HamsterAvro.parseHeartbeatResponse host slice out raw memory
  | .parseRegisterResponse slice => .status <$> HamsterAvro.parseRegisterResponse host slice
  | .parseFinishResponse slice => .status <$> HamsterAvro.parseFinishResponse host slice

end host

/-- What the caller owns after a call is part of the reply. -/
theorem Call.exec_eq (host : Host) (c : Call) : c.exec host = Reply.owned <$> c.reply host := by
  cases c <;> simp [exec, reply, Reply.owned, ArrayOut.count]

/-! ## What a reply shows -/

def Reply.Shows : Reply → Answer → Prop
  | .slice s, .slice bytes => s.bytes = bytes
  | .launchRequest s array, .launchRequest bytes elems => s.bytes = bytes ∧ array.elems = elems
  | .nodeResources out res, .nodeResources nodes =>
    res.Returned (fun node x => x.seen = node ∧ x.Readable) nodes out
  | .launchResponses out res, .launchResponses responses =>
    res.Returned (fun response x => x = response) responses out
  | .completedProcs out res, .completedProcs procs => res.Returned (fun proc x => x = proc) procs out
  | .status result, .refused => result = -1
  | _, _ => False

def Halt.Is (halt : Halt) : Fault → Prop
  | .exits => halt.IsExit
  | .undefined => halt = .undefined

/-- The two objects a parser writes to do not overlap. -/
def Call.Placed : Call → Prop
  | .parseAllocateResponse _ out _ _ | .parseLaunchResponse _ out _ _
  | .parseHeartbeatResponse _ out _ _ => out.Disjoint
  | _ => True

/-! ## Launch requests of any number of contexts -/

theorem mapM_eq_some_iff {α β : Type} {f : α → Option β} {xs : List α} {ys : List β} :
    xs.mapM f = some ys ↔ xs.map f = ys.map some := by
  induction xs generalizing ys with
  | nil => cases ys <;> simp
  | cons x xs ih =>
    simp only [List.mapM_cons, List.map_cons, Option.bind_eq_bind, Option.bind_eq_some_iff,
      Option.pure_def, Option.some.injEq, ih]
    cases ys with
    | nil => simp
    | cons y ys => simp [and_comm]

/-- Context `i` of the array is there, and what it points to. -/
def LaunchArray.There (heap : Heap) (elems : List LaunchContext) (i : Nat) : Prop :=
  ∃ ctx item, elems[i]? = some ctx ∧ ctx.view heap = some item

theorem LaunchArray.shown_eq_some {heap : Heap} {array : LaunchArray} {n : Nat} {items : List LaunchItem} :
    array.shown heap n = some items ↔
      n ≤ array.elems.length ∧ (array.elems.take n).map (LaunchContext.view heap) = items.map some := by
  unfold shown
  split
  · rename_i hn
    rw [mapM_eq_some_iff, and_iff_right hn]
  · rename_i hn
    exact ⟨nofun, fun h => absurd h.1 hn⟩

/-- One context more, one item more. -/
theorem LaunchArray.shown_succ {heap : Heap} {array : LaunchArray} {i : Nat} {items : List LaunchItem}
    {ctx : LaunchContext} {item : LaunchItem} (h : array.shown heap i = some items)
    (hctx : array.elems[i]? = some ctx) (hview : ctx.view heap = some item) :
    array.shown heap (i + 1) = some (items ++ [item]) := by
  refine shown_eq_some.mpr ⟨(List.getElem?_eq_some_iff.mp hctx).1, ?_⟩
  rw [List.take_add_one, hctx, List.map_append, List.map_append, (shown_eq_some.mp h).2,
    Option.toList_some, List.map_singleton, hview, List.map_singleton]

theorem LaunchArray.exists_shown {heap : Heap} {array : LaunchArray} {n : Nat}
    (h : ∀ i < n, LaunchArray.There heap array.elems i) : ∃ items, array.shown heap n = some items := by
  induction n with
  | zero => exact ⟨[], shown_eq_some.mpr ⟨Nat.zero_le _, rfl⟩⟩
  | succ n ih =>
    obtain ⟨items, hitems⟩ := ih fun i hi => h i (by omega)
    obtain ⟨ctx, item, hctx, hview⟩ := h n (Nat.lt_succ_self n)
    exact ⟨items ++ [item], shown_succ hitems hctx hview⟩

theorem LaunchArray.there_of_shown {heap : Heap} {array : LaunchArray} {n i : Nat}
    {items : List LaunchItem} (h : array.shown heap n = some items) (hi : i < n) :
    LaunchArray.There heap array.elems i := by
  obtain ⟨hn, hmap⟩ := shown_eq_some.mp h
  have hlen : items.length = n := by
    have := congrArg List.length hmap
    rw [List.length_map, List.length_map, List.length_take] at this
    omega
  have hctx : array.elems[i]? = some array.elems[i] := List.getElem?_eq_getElem (by omega)
  have hitem : items[i]? = some items[i] := List.getElem?_eq_getElem (by omega)
  refine ⟨array.elems[i], items[i], hctx, ?_⟩
  have := congrArg (fun l : List (Option LaunchItem) => l[i]?) hmap
  simpa [List.getElem?_take, hi, hctx, hitem] using this

/-- The loop moves cursors behind it only. -/
theorem LaunchArray.there_exhaustFirst {heap : Heap} {elems : List LaunchContext} {i : Nat} :
    LaunchArray.There heap (exhaustFirst heap elems i) i ↔ LaunchArray.There heap elems i := by
  unfold LaunchArray.There
  rw [getElem?_exhaustFirst]

/-- After `i` passes: the contexts that were shown are in the record, their cursors at their ends. -/
def LaunchFill.After (heap : Heap) (array : LaunchArray) (i : Nat) (st : LaunchFill) : Prop :=
  ∃ items, array.shown heap i = some items ∧ st.record = launchRequestValue items ∧
    st.elems = exhaustFirst heap array.elems i

section fill
variable {host : Host} {heap : Heap} {w : World} {i : Nat}

theorem deref_undefined {p : Addr} (h : heap.string p = none) : Stops (heap.deref p) w (· = .undefined) := by
  unfold Heap.deref
  rw [h]
  exact Stops.throw rfl

/-- The environment loop returns on an environment that is there, whatever libavro does. -/
theorem enVarsLoop_terminates {cells : List Addr} {strs : List CString}
    (h : heap.envList cells = some strs) (st : LaunchFill) :
    Returns (enVarsLoop host heap i cells st) w fun _ _ => True := by
  induction cells generalizing st w strs with
  | nil => cases h
  | cons p rest ih =>
    unfold Heap.envList at h
    unfold enVarsLoop
    by_cases hp : p = 0
    · rw [if_pos hp]
      exact Returns.pure trivial
    · rw [if_neg hp] at h ⊢
      simp only [Option.bind_eq_bind, Option.bind_eq_some_iff] at h
      obtain ⟨str, hstr, strs', hrest, -⟩ := h
      exact (deref_returns hstr).bind fun s _ _ => ih hrest _

theorem enVarsLoop_undefined {cells : List Addr} (h : heap.envList cells = none) (st : LaunchFill) :
    Stops (enVarsLoop host heap i cells st) w (· = .undefined) := by
  induction cells generalizing st w with
  | nil => exact Stops.throw rfl
  | cons p rest ih =>
    unfold Heap.envList at h
    unfold enVarsLoop
    by_cases hp : p = 0
    · rw [if_pos hp] at h
      cases h
    · rw [if_neg hp] at h ⊢
      cases hstr : heap.string p with
      | none => exact (deref_undefined hstr).bind_left
      | some str =>
        have hrest : heap.envList rest = none := by
          cases hrest : heap.envList rest with
          | none => rfl
          | some strs => simp [hstr, hrest] at h
        exact Stops.bind_right (deref_returns hstr) fun s _ _ => ih hrest _

/-- A context that is not there, or points to what is not there, is read all the same. -/
theorem fillLaunchContext_undefined {launchContexts : Libavro.Handle} {st : LaunchFill}
    (h : ¬ LaunchArray.There heap st.elems i) :
    Stops (fillLaunchContext host heap launchContexts st i) w (· = .undefined) := by
  unfold fillLaunchContext
  cases hctx : st.elems[i]? with
  | none => exact Stops.throw rfl
  | some ctx =>
    have hview : ctx.view heap = none :=
      Option.eq_none_iff_forall_ne_some.mpr fun item hitem => h ⟨ctx, item, hctx, hitem⟩
    cases henv : heap.envList (heap.cellsAt ctx.enVarsArray) with
    | none => exact (enVarsLoop_undefined henv _).bind_left
    | some enVars =>
      refine Stops.bind_right (enVarsLoop_terminates henv _) fun st' _ _ => ?_
      cases hargs : heap.string ctx.args with
      | none => exact (deref_undefined hargs).bind_left
      | some args =>
        refine Stops.bind_right (deref_returns hargs) fun _ _ _ => ?_
        have hhost : heap.string ctx.hostName = none := by
          cases hhost : heap.string ctx.hostName with
          | none => rfl
          | some hostName => simp [LaunchContext.view, henv, hargs, hhost] at hview
        exact (deref_undefined hhost).bind_left

section record
variable (hlib : host.lib.Accessors) {array : LaunchArray} {n : Nat}
include hlib

theorem LaunchFill.After.step {st : LaunchFill} (hthere : LaunchArray.There heap array.elems i)
    (h : st.After heap array i) :
    Returns (fillLaunchContext host heap (some [0]) st i) w fun st' _ => st'.After heap array (i + 1) := by
  obtain ⟨items, hshown, hrecord, helems⟩ := h
  obtain ⟨ctx, item, hctx, hview⟩ := hthere
  have hctx' : st.elems[i]? = some ctx := by rw [helems, getElem?_exhaustFirst, hctx]
  refine ((fillLaunchContext_returns hlib hctx' hview hrecord).and_ensures
    (fillLaunchContext_ensures st)).mono fun st' _ ⟨hvalue, ctx', hst, hmodify⟩ => ?_
  obtain rfl : ctx = ctx' := Option.some.inj (hctx'.symm.trans hst)
  refine ⟨items ++ [item], LaunchArray.shown_succ hshown hctx hview, ?_, ?_⟩
  · rw [hvalue, launchRequestValue, List.map_append, List.map_singleton]
  · rw [hmodify, helems, exhaustFirst_succ _ _ hctx]

theorem byName_launchRequest :
    host.lib.byName launchRequestRecordAvro.default (some []) "launchContexts" none = some [0] :=
  hlib.byName (i := 0) rfl (by decide) none

theorem fillLaunchRequest_prefix {items : List LaunchItem} (h : array.shown heap n = some items) :
    Returns (fillLaunchRequest host heap array n launchRequestRecordAvro.default) w fun out _ =>
      out.1 = launchRequestValue items ∧ out.2.elems = exhaustFirst heap array.elems n := by
  unfold fillLaunchRequest
  rw [byName_launchRequest hlib]
  refine Returns.bind (Returns.forRange (fun i st _ => st.After heap array i) ⟨[], rfl, rfl, rfl⟩
    fun i hi st w hst => hst.step hlib (LaunchArray.there_of_shown h hi)) fun st _ hst => Returns.pure ?_
  obtain ⟨items', hshown, hrecord, helems⟩ := hst
  obtain rfl : items = items' := Option.some.inj (h.symm.trans hshown)
  exact ⟨hrecord, helems⟩

theorem fillLaunchRequest_undefined (h : array.shown heap n = none) :
    Stops (fillLaunchRequest host heap array n launchRequestRecordAvro.default) w (· = .undefined) := by
  unfold fillLaunchRequest
  rw [byName_launchRequest hlib]
  apply Stops.bind_left
  refine Stops.forRange (fun i st _ => st.After heap array i) ⟨[], rfl, rfl, rfl⟩
    (fun i _ hi st w hst => hst.step hlib hi) (fun i _ hi st w hst => ?_) fun hall => ?_
  · obtain ⟨items, hshown, hrecord, helems⟩ := hst
    exact fillLaunchContext_undefined fun hthere => hi (by rwa [helems, LaunchArray.there_exhaustFirst] at hthere)
  · obtain ⟨items, hitems⟩ := LaunchArray.exists_shown hall
    rw [h] at hitems
    cases hitems

end record
end fill

/-! ## The calls do what they answer -/

section send
variable {α : Type} {p : Prog α} {reply : α → Reply} {record : Value} {answer : Bytes → Answer}

theorem refines_send (hreturns : (encode record).length ≤ bufferSize →
      ∀ w, Returns p w fun a _ => (reply a).Shows (answer (encode record)))
    (hstops : bufferSize < (encode record).length → ∀ w, Stops p w Halt.IsExit) :
    Refines Halt.Is (reply <$> p) Reply.Shows (send record answer) := by
  unfold send
  split
  · rename_i hfits
    exact fun w => (hreturns hfits w).map fun _ _ h => h
  · rename_i hover
    exact fun w => (hstops (Nat.lt_of_not_le hover) w).map reply

end send

theorem ArrayOut.Returned.map {α β γ : Type} {P : γ → α → Prop} {f : β → γ} {xs : List β}
    {out : OutPointers} {res : ArrayOut α} (h : res.Returned (fun x y => P (f x) y) xs out) :
    res.Returned P (xs.map f) out := by
  simpa only [ArrayOut.Returned, List.length_map, List.map_eq_nil_iff, List.forall₂_map_left_iff] using h

section receive
variable {host : Host} {L α β γ : Type} {file field name : String} {items : Schema}
  {sizeofElem : Nat} {locals : L} {elem : Value → Libavro.Handle → Nat → L → α → Prog (L × α)}
  {R : Value → α → Prop} {P : γ → α → Prop} {toValue : β → Value} {ofValue : Value → Option γ}
  {f : β → γ} {slice : Slice} {out : OutPointers} {raw : Nat → α} {memory : Memory}

theorem receive_arrayRecord {bytes rest : Bytes} {xs : List β}
    (h : (decode (.record name [(field, .array items)])).run bytes =
      some (arrayRecord field items (xs.map toValue), rest))
    (hof : ∀ x, ofValue (toValue x) = some (f x)) :
    receive (.record name [(field, .array items)]) ofValue bytes = some (xs.map f) := by
  have hcomp : ofValue ∘ toValue = fun x => some (f x) := funext hof
  simp only [receive, h, arrayRecord]
  rw [List.mapM_map, hcomp]
  exact List.mapM_pure

variable (toValue f) in
theorem parseArray_refines (hlib : host.lib.Accessors) (hfiles : host.Installed)
    (hmem : host.MallocSucceeds) (hreads : host.lib.ReadsExactly)
    (hfile : (file, .record name [(field, .array items)]) ∈ schemaFiles) (hpos : 0 < items.minSize)
    (hdisj : out.Disjoint) (helem : ElemDecodes field items elem R)
    (hvalue : ∀ v, items.Shapes v → ∃ x, v = toValue x)
    (hof : ∀ x, ofValue (toValue x) = some (f x)) (hP : ∀ x y, R (toValue x) y → P (f x) y)
    {reply : ArrayOut α → Reply} {answer : List γ → Answer}
    (hshows : ∀ res ys, res.Returned P ys out → (reply res).Shows (answer ys)) :
    Refines Halt.Is (reply <$> parseArray host file field sizeofElem locals elem slice out raw memory)
      Reply.Shows
      (answerList answer (receive (.record name [(field, .array items)]) ofValue slice.bytes)) := by
  have hread := hreads.valueRead (.record name [(field, .array items)]) slice.bytes
  cases hrun : (decode (.record name [(field, .array items)])).run slice.bytes with
  | none =>
    have hnone : receive (.record name [(field, .array items)]) ofValue slice.bytes = none := by
      simp only [receive, hrun]
    rw [hnone]
    intro w
    apply Stops.map
    refine parseArray_rejects hlib hfiles hfile hmem fun ⟨record, rest, hholds⟩ => ?_
    rw [hread, hrun] at hholds
    cases hholds
  | some read =>
    obtain ⟨record, rest⟩ := read
    have hholds : slice.Holds host (.record name [(field, .array items)]) record :=
      ⟨rest, by rw [hread, hrun]⟩
    obtain ⟨vs, rfl, hvs, -⟩ := hholds.exists_elems hreads.readsSized
    obtain ⟨xs, rfl⟩ := exists_map_of_forall fun v hv => hvalue v (hvs v hv)
    obtain ⟨word, rest', hslice, hrecord⟩ := (Slice.holds_iff hreads).mp hholds
    rw [receive_arrayRecord hrun hof]
    intro w
    refine (parseArray_returned (P := fun x y => P (f x) y) hlib hfiles hmem hreads.toReadsFormat hfile
      hpos hdisj helem hP hslice hrecord).map fun res _ hres => hshows res _ hres.map

end receive

section calls
variable {host : Host} (hlib : host.lib.Accessors) (hfiles : host.Installed) (hmem : host.MallocSucceeds)
  (hwrites : host.lib.WritesFormat) (hreads : host.lib.ReadsExactly)
include hlib hfiles hmem

section builders
include hwrites

theorem buildLaunchRequest_refines (heap : Heap) (array : LaunchArray) (arraySize : Nat) :
    Refines Halt.Is ((Call.buildLaunchRequest heap array arraySize).reply host) Reply.Shows
      (Call.buildLaunchRequest heap array arraySize).answer := by
  cases hshown : array.shown heap arraySize with
  | none =>
    simp only [Call.reply, Call.answer, hshown]
    intro w
    apply Stops.map
    exact buildRequest_stops_of_fill hlib hfiles hmem launchRequest_mem fun _ =>
      fillLaunchRequest_undefined hlib hshown
  | some items =>
    simp only [Call.reply, Call.answer, hshown]
    have hfill (w : World) := fillLaunchRequest_prefix (w := w) hlib hshown
    refine refines_send (fun hfits w => ?_) fun hover w => ?_
    · exact buildRequest_returns hlib hfiles hmem launchRequest_mem hwrites
        (P := fun (left : LaunchArray) => left.elems = exhaustFirst heap array.elems arraySize) hfill hfits
    · exact buildRequest_stops hlib hfiles hmem launchRequest_mem hwrites
        (P := fun (left : LaunchArray) => left.elems = exhaustFirst heap array.elems arraySize) hfill hover

theorem buildFinishRequest_refines (succeed : Bool) (diagnostics : Option CString) :
    Refines Halt.Is ((Call.buildFinishRequest succeed diagnostics).reply host) Reply.Shows
      (Call.buildFinishRequest succeed diagnostics).answer := by
  cases diagnostics with
  | none =>
    intro w
    apply Stops.map
    apply Stops.bind_left
    exact buildRequest_stops_of_fill hlib hfiles hmem finishRequest_mem fun _ => Stops.throw rfl
  | some str =>
    exact refines_send (fun hfits w => buildFinishRequest_returns hlib hfiles hmem hwrites succeed str hfits)
      fun hover w => buildFinishRequest_stops hlib hfiles hmem hwrites succeed str hover

end builders

section parsers
include hreads

theorem parseAllocateResponse_refines (slice : Slice) {out : OutPointers} (hdisj : out.Disjoint)
    (raw : Nat → NodeResource) (memory : Memory) :
    Refines Halt.Is ((Call.parseAllocateResponse slice out raw memory).reply host) Reply.Shows
      (Call.parseAllocateResponse slice out raw memory).answer := by
  refine parseArray_refines NodeRecord.toValue NodeRecord.cut hlib hfiles hmem hreads
    allocateResponse_mem (by decide) hdisj (parseNodeResource_decodes hlib) (fun v h => ?_)
    (fun _ => rfl) (fun node x h => ?_) fun _ _ hres => hres
  · obtain ⟨hostName, slot, rfl⟩ := shapes_nodeResource h
    exact ⟨⟨hostName, slot⟩, rfl⟩
  · obtain ⟨hostName, heq, haddr, hbytes⟩ := h
    obtain ⟨rfl, hslot⟩ := nodeResourceValue_inj heq
    refine ⟨?_, haddr, by simp [hbytes]⟩
    rw [NodeResource.seen, Block.cString_append hbytes, NodeRecord.cut, hslot]

theorem parseLaunchResponse_refines (slice : Slice) {out : OutPointers} (hdisj : out.Disjoint)
    (raw : Nat → LaunchResponse) (memory : Memory) :
    Refines Halt.Is ((Call.parseLaunchResponse slice out raw memory).reply host) Reply.Shows
      (Call.parseLaunchResponse slice out raw memory).answer := by
  refine parseArray_refines launchResultValue id hlib hfiles hmem hreads
    launchResponse_mem (by decide) hdisj (parseLaunchResult_decodes hlib) (fun v h => ?_)
    (fun _ => rfl) (fun result x h => (launchResultValue_inj h).symm) fun _ _ hres => hres
  obtain ⟨result, rfl⟩ := shapes_launchResult h
  exact ⟨result, rfl⟩

theorem parseHeartbeatResponse_refines (slice : Slice) {out : OutPointers} (hdisj : out.Disjoint)
    (raw : Nat → CompletedProc) (memory : Memory) :
    Refines Halt.Is ((Call.parseHeartbeatResponse slice out raw memory).reply host) Reply.Shows
      (Call.parseHeartbeatResponse slice out raw memory).answer := by
  refine parseArray_refines CompletedProc.toValue id hlib hfiles hmem hreads
    heartBeatResponse_mem (by decide) hdisj (parseProcessStatus_decodes hlib) (fun v h => ?_)
    (fun _ => rfl) (fun proc x h => (CompletedProc.toValue_injective h).symm) fun _ _ hres => hres
  obtain ⟨name, state, exitValue, rfl⟩ := shapes_processStatus h
  exact ⟨⟨name, state, exitValue⟩, rfl⟩

end parsers

include hwrites hreads

/-- Every call does what it answers, from every state of the process. -/
theorem Call.reply_refines {c : Call} (hplaced : c.Placed) :
    Refines Halt.Is (c.reply host) Reply.Shows c.answer := by
  cases c with
  | buildAllocateRequest resourceCount =>
    refine refines_send (fun hfits w => ?_) fun hover w => ?_
    · exact buildAllocateRequest_returns hlib hfiles hmem hwrites resourceCount hfits
    · exact buildSlice_stops hlib hfiles hmem hwrites allocateRequest_mem
        (fun _ => fillAllocateRequest_returns hlib resourceCount) hover
  | buildLaunchRequest heap array arraySize =>
    exact buildLaunchRequest_refines hlib hfiles hmem hwrites heap array arraySize
  | buildHeartbeatRequest =>
    exact fun w => (buildEmpty_returns hlib hfiles hmem hwrites heartBeatRequest_mem).map fun _ _ h => h
  | buildRegisterRequest =>
    exact fun w => (buildEmpty_returns hlib hfiles hmem hwrites registerRequest_mem).map fun _ _ h => h
  | buildFinishRequest succeed diagnostics =>
    exact buildFinishRequest_refines hlib hfiles hmem hwrites succeed diagnostics
  | buildHnpRequestWrapper innerSlice msgType =>
    refine refines_send (fun hfits w => ?_) fun hover w => ?_
    · exact buildHnpRequestWrapper_returns hlib hfiles hmem hwrites innerSlice msgType hfits
    · exact buildHnpRequestWrapper_stops hlib hfiles hmem hwrites innerSlice msgType hover
  | parseAllocateResponse slice out raw memory =>
    exact parseAllocateResponse_refines hlib hfiles hmem hreads slice hplaced raw memory
  | parseLaunchResponse slice out raw memory =>
    exact parseLaunchResponse_refines hlib hfiles hmem hreads slice hplaced raw memory
  | parseHeartbeatResponse slice out raw memory =>
    exact parseHeartbeatResponse_refines hlib hfiles hmem hreads slice hplaced raw memory
  | parseRegisterResponse slice =>
    exact fun w => (parseAcknowledgement_returns hlib hfiles hmem hreads.toReadsFormat
      registerResponse_mem slice).map fun _ _ h => h
  | parseFinishResponse slice =>
    exact fun w => (parseAcknowledgement_returns hlib hfiles hmem hreads.toReadsFormat
      finishResponse_mem slice).map fun _ _ h => h

end calls

end HamsterAvro
