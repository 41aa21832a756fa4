import HamsterAvro.Launch

/-!
# What building a launch request does

`LaunchItem` is a launch context as data, `LaunchArray.Shows` says that the caller's array shows a list
of them: what is reachable from each element, the environment from its cursor on. Building writes the
record of the items that are shown (`fillLaunchRequest_returns`) and leaves every cursor at the null
pointer that ends its environment (`fillLaunchRequest_ensures`, whatever libavro does).

The record under construction has one element that changes, the last: `at?_lastContext` and
`setAt_lastContext` take a reference into it to one into that element.
-/

namespace HamsterAvro
open HamsterAvro.Wire HamsterAvro.Avro HamsterAvro.C

/-! ## Launch contexts as data -/

structure LaunchItem where
  enVars : List CString
  args : CString
  hostName : CString
  procName : ProcessName
  deriving DecidableEq

/-- A launch context record. -/
def launchContextValue (enVars : List CString) (args hostName : Bytes) (name : ProcessName) : Value :=
  .record
    [("en_vars", .array .string (enVars.map fun str => .string str.bytes)), ("args", .string args),
     ("host_name", .string hostName), ("name", name.toValue)]

def LaunchItem.toValue (item : LaunchItem) : Value :=
  launchContextValue item.enVars item.args.bytes item.hostName.bytes item.procName

def launchRequestOf (contexts : List Value) : Value :=
  .record [("launchContexts", .array launchContext contexts)]

def launchRequestValue (items : List LaunchItem) : Value :=
  launchRequestOf (items.map LaunchItem.toValue)

/-! ### What is seen through an array -/

/-- The strings up to the null pointer. -/
def Heap.envList (heap : Heap) : List Addr → Option (List CString)
  | [] => none
  | p :: rest =>
    if p = 0 then some []
    else do
      let str ← heap.string p
      let strs ← heap.envList rest
      pure (str :: strs)

def LaunchContext.view (heap : Heap) (ctx : LaunchContext) : Option LaunchItem := do
  let enVars ← heap.envList (heap.cellsAt ctx.enVarsArray)
  let args ← heap.string ctx.args
  let hostName ← heap.string ctx.hostName
  pure { enVars, args, hostName, procName := ctx.procName }

def LaunchArray.Shows (heap : Heap) (array : LaunchArray) (items : List LaunchItem) : Prop :=
  array.elems.map (LaunchContext.view heap) = items.map some

theorem LaunchContext.view_eq_some {heap : Heap} {ctx : LaunchContext} {item : LaunchItem} :
    ctx.view heap = some item ↔
      heap.envList (heap.cellsAt ctx.enVarsArray) = some item.enVars ∧
      heap.string ctx.args = some item.args ∧ heap.string ctx.hostName = some item.hostName ∧
      ctx.procName = item.procName := by
  obtain ⟨enVars, args, hostName, procName⟩ := item
  simp only [view, Option.bind_eq_bind, Option.bind_eq_some_iff, Option.pure_def, Option.some.injEq,
    LaunchItem.mk.injEq]
  constructor
  · intro h
    obtain ⟨_, h₁, _, h₂, _, h₃, rfl, rfl, rfl, rfl⟩ := h
    exact ⟨h₁, h₂, h₃, rfl⟩
  · intro h
    obtain ⟨h₁, h₂, h₃, rfl⟩ := h
    exact ⟨_, h₁, _, h₂, _, h₃, rfl, rfl, rfl, rfl⟩

theorem LaunchArray.Shows.length_eq {heap : Heap} {array : LaunchArray} {items : List LaunchItem}
    (h : array.Shows heap items) : array.elems.length = items.length := by
  simpa using congrArg List.length h

theorem LaunchArray.Shows.getElem? {heap : Heap} {array : LaunchArray} {items : List LaunchItem}
    (h : array.Shows heap items) {i : Nat} {ctx : LaunchContext} (hctx : array.elems[i]? = some ctx) :
    ∃ item, items[i]? = some item ∧ ctx.view heap = some item := by
  have := congrArg (fun l : List (Option LaunchItem) => l[i]?) h
  simp only [List.getElem?_map, hctx, Option.map_some] at this
  cases hitem : items[i]? with
  | none => simp [hitem] at this
  | some item => exact ⟨item, rfl, by simpa [hitem] using this⟩

/-- One context with one environment string. -/
def sampleItem : LaunchItem where
  enVars := [⟨[118, 97, 114, 49, 49], by decide⟩]
  args := ⟨[97, 114, 103, 115, 49, 49], by decide⟩
  hostName := ⟨[104, 111, 115, 116, 49], by decide⟩
  procName := ⟨101, 1⟩

def sampleHeap : Heap where
  cells p := if p = 0x20 then [0x30, 0] else []
  string p :=
    if p = 0x30 then sampleItem.enVars[0]? else if p = 0x40 then some sampleItem.args
    else if p = 0x50 then some sampleItem.hostName else none
  string_null := rfl

def sampleArray : LaunchArray := ⟨0x10, [⟨⟨0x20, 0⟩, 0x40, 0x50, ⟨101, 1⟩⟩]⟩

theorem sampleArray_shows : sampleArray.Shows sampleHeap [sampleItem] := rfl

/-! ### The cursors -/

/-- The number of cells before the null pointer. -/
def envLength (cells : List Addr) : Nat := (cells.takeWhile (· ≠ 0)).length

def LaunchContext.skip (k : Nat) (ctx : LaunchContext) : LaunchContext :=
  { ctx with enVarsArray.pos := ctx.enVarsArray.pos + k }

/-- The context with its cursor at the null pointer. -/
def LaunchContext.exhaust (heap : Heap) (ctx : LaunchContext) : LaunchContext :=
  ctx.skip (envLength (heap.cellsAt ctx.enVarsArray))

def LaunchArray.exhaust (heap : Heap) (array : LaunchArray) : LaunchArray :=
  { array with elems := array.elems.map (LaunchContext.exhaust heap) }

/-- The elements after `i` passes of a loop that moves each cursor to its end. -/
def exhaustFirst (heap : Heap) (elems : List LaunchContext) (i : Nat) : List LaunchContext :=
  (elems.take i).map (LaunchContext.exhaust heap) ++ elems.drop i

theorem envLength_cons {p : Addr} (hp : p ≠ 0) (cells : List Addr) :
    envLength (p :: cells) = envLength cells + 1 := by
  simp [envLength, hp]

theorem envLength_null (cells : List Addr) : envLength (0 :: cells) = 0 := by
  simp [envLength]

theorem LaunchContext.skip_zero (ctx : LaunchContext) : ctx.skip 0 = ctx := rfl

theorem modify_skip_advance (elems : List LaunchContext) (i m : Nat) :
    (elems.modify i LaunchContext.advance).modify i (LaunchContext.skip m) =
      elems.modify i (LaunchContext.skip (m + 1)) := by
  rw [List.modify_modify_eq]
  congr 1
  funext ctx
  simp only [Function.comp_apply, LaunchContext.skip, LaunchContext.advance]
  congr 2
  omega

theorem modify_skip_zero (elems : List LaunchContext) (i : Nat) :
    elems.modify i (LaunchContext.skip 0) = elems := by
  have : LaunchContext.skip 0 = id := rfl
  rw [this, List.modify_id]

section exhaust
variable (heap : Heap) (elems : List LaunchContext)

theorem exhaustFirst_length :
    exhaustFirst heap elems elems.length = elems.map (LaunchContext.exhaust heap) := by
  simp [exhaustFirst]

theorem getElem?_exhaustFirst (i : Nat) : (exhaustFirst heap elems i)[i]? = elems[i]? := by
  unfold exhaustFirst
  by_cases h : i < elems.length
  · rw [List.getElem?_append_right (by simp), List.getElem?_drop]
    congr 1
    simp
    omega
  · rw [List.getElem?_eq_none (by simp; omega), List.getElem?_eq_none (by omega)]

theorem exhaustFirst_succ {i : Nat} {ctx : LaunchContext} (h : elems[i]? = some ctx) :
    (exhaustFirst heap elems i).modify i
        (LaunchContext.skip (envLength (heap.cellsAt ctx.enVarsArray))) =
      exhaustFirst heap elems (i + 1) := by
  have hi : i < elems.length := (List.getElem?_eq_some_iff.mp h).1
  have hlen : ((elems.take i).map (LaunchContext.exhaust heap)).length = i := by
    rw [List.length_map, List.length_take]
    omega
  have hdrop : elems.drop i = ctx :: elems.drop (i + 1) := by
    rw [List.drop_eq_getElem_cons hi, (List.getElem?_eq_some_iff.mp h).2]
  have hmodify := Value.modify_append_cons ((elems.take i).map (LaunchContext.exhaust heap)) ctx
    (elems.drop (i + 1)) (LaunchContext.skip (envLength (heap.cellsAt ctx.enVarsArray)))
  rw [hlen] at hmodify
  unfold exhaustFirst
  rw [hdrop, hmodify, List.take_add_one, h]
  simp [LaunchContext.exhaust]

end exhaust

/-! ## The environment loop -/

section host
variable {host : Host} {heap : Heap} {w : World} {i : Nat}

/-- The cursor ends at the null pointer, whatever libavro does. -/
theorem enVarsLoop_ensures (cells : List Addr) (st : LaunchFill) :
    Ensures (enVarsLoop host heap i cells st) w fun st' _ =>
      st'.elems = st.elems.modify i (LaunchContext.skip (envLength cells)) := by
  induction cells generalizing st w with
  | nil => exact Ensures.throw
  | cons p rest ih =>
    unfold enVarsLoop
    by_cases hp : p = 0
    · rw [if_pos hp, hp, envLength_null, modify_skip_zero]
      exact Ensures.pure rfl
    · rw [if_neg hp, envLength_cons hp]
      refine Ensures.after fun str w' => ?_
      refine (ih _).mono fun st' _ h => ?_
      rw [h, modify_skip_advance]

theorem fillLaunchContext_ensures {launchContexts : Libavro.Handle} (st : LaunchFill) :
    Ensures (fillLaunchContext host heap launchContexts st i) w fun st' _ =>
      ∃ ctx, st.elems[i]? = some ctx ∧
        st'.elems = st.elems.modify i (LaunchContext.skip (envLength (heap.cellsAt ctx.enVarsArray))) := by
  unfold fillLaunchContext
  cases hctx : st.elems[i]? with
  | none => exact Ensures.throw
  | some ctx =>
    refine (enVarsLoop_ensures _ _).bind fun st' w' h => ?_
    refine Ensures.after fun args _ => ?_
    refine Ensures.after fun hostName _ => ?_
    exact Ensures.pure ⟨ctx, rfl, h⟩

/-- Filling the record moves every cursor to its end. -/
theorem fillLaunchRequest_ensures (array : LaunchArray) (record : Value) :
    Ensures (fillLaunchRequest host heap array array.elems.length record) w fun out _ =>
      out.2 = array.exhaust heap := by
  refine Ensures.bind (Ensures.forRange
    (fun i st _ => st.elems = exhaustFirst heap array.elems i) rfl ?_) fun st _ h => Ensures.pure ?_
  · intro i _ st w hst
    refine (fillLaunchContext_ensures st).mono fun st' _ h => ?_
    obtain ⟨ctx, hctx, h⟩ := h
    rw [hst, getElem?_exhaustFirst] at hctx
    rw [h, hst, exhaustFirst_succ _ _ hctx]
  · rw [h, exhaustFirst_length, LaunchArray.exhaust]

/-! ## The record -/

section record
variable (hlib : host.lib.Accessors)

/-- A reference into the last context is one into that context. -/
theorem at?_lastContext (contexts : List Value) (context : Value) (r : Ref) :
    (launchRequestOf (contexts ++ [context])).at? (0 :: contexts.length :: r) = context.at? r :=
  at?_arrayRecord_last "launchContexts" launchContext contexts context r

theorem setAt_lastContext (x : Value) (contexts : List Value) (context : Value) (r : Ref) :
    Value.setAt x (launchRequestOf (contexts ++ [context])) (0 :: contexts.length :: r) =
      launchRequestOf (contexts ++ [Value.setAt x context r]) :=
  setAt_arrayRecord_last "launchContexts" launchContext contexts x context r

theorem deref_returns {p : Addr} {str : CString} (h : heap.string p = some str) :
    Returns (heap.deref p) w fun s _ => s = str := by
  unfold Heap.deref
  rw [h]
  exact Returns.pure rfl

include hlib

/-- Appending to the environment of the last context, and setting what was appended. -/
theorem appendEnvVar (contexts : List Value) (enVars : List CString) (args hostName : Bytes)
    (name : ProcessName) (str : CString) (out : Libavro.Handle) :
    ∃ record, host.lib.appendTo (launchRequestOf (contexts ++
          [launchContextValue enVars args hostName name])) (some [0, contexts.length, 0]) out =
        (record, some [0, contexts.length, 0, enVars.length]) ∧
      host.lib.putString record (some [0, contexts.length, 0, enVars.length]) str =
        launchRequestOf (contexts ++ [launchContextValue (enVars ++ [str]) args hostName name]) := by
  have harray : (launchContextValue enVars args hostName name).at? [0] =
      some (.array .string (enVars.map fun str => .string str.bytes)) := rfl
  have happend := hlib.appendTo ((at?_lastContext contexts _ [0]).trans harray) out
  rw [setAt_lastContext, List.length_map] at happend
  refine ⟨_, happend, ?_⟩
  have hlen : (enVars.map fun str => Value.string str.bytes).length = enVars.length := by simp
  rw [hlib.putString (show _ = some (Value.string []) from ?_), setAt_lastContext, ← hlen]
  · simp only [launchContextValue, Value.setAt_record, List.modify_zero_cons, Value.setAt_nil,
      Value.setAt_array_last, List.map_append, List.map_cons, List.map_nil]
  · rw [at?_lastContext, ← hlen]
    simp only [launchContextValue, Value.setAt_record, List.modify_zero_cons, Value.setAt_nil,
      Value.at?_record, List.getElem?_cons_zero, Option.bind_some, Value.at?_array_last,
      Value.at?_nil, Schema.default]

theorem enVarsLoop_returns {contexts : List Value} {args hostName : Bytes} {name : ProcessName}
    {cells : List Addr} {strs : List CString} (hstrs : heap.envList cells = some strs)
    (enVars : List CString) (st : LaunchFill)
    (hrecord : st.record = launchRequestOf (contexts ++ [launchContextValue enVars args hostName name]))
    (hhandle : st.locals.enVarsArrayValue = some [0, contexts.length, 0]) :
    Returns (enVarsLoop host heap i cells st) w fun st' _ =>
      st'.record =
        launchRequestOf (contexts ++ [launchContextValue (enVars ++ strs) args hostName name]) := by
  induction cells generalizing st w enVars strs with
  | nil => cases hstrs
  | cons p rest ih =>
    unfold Heap.envList at hstrs
    unfold enVarsLoop
    by_cases hp : p = 0
    · rw [if_pos hp] at hstrs ⊢
      obtain rfl : strs = [] := by simpa using hstrs.symm
      exact Returns.pure (by rw [hrecord, List.append_nil])
    · rw [if_neg hp] at hstrs ⊢
      simp only [Option.bind_eq_bind, Option.bind_eq_some_iff, Option.pure_def, Option.some.injEq]
        at hstrs
      obtain ⟨str, hstr, strs', hrest, rfl⟩ := hstrs
      obtain ⟨record, happend, hput⟩ :=
        appendEnvVar hlib contexts enVars args hostName name str st.locals.enVarItemValue
      rw [hrecord, hhandle, happend]
      refine (deref_returns hstr).bind fun s w' hs => ?_
      subst hs
      refine (ih hrest (enVars ++ [s]) _ ?_ ?_).mono fun st' _ h => ?_
      · exact hput
      · exact hhandle
      · rw [h, List.append_assoc, List.singleton_append]

/-! The other fields of the last context, each looked up by its name and set. -/

section fields
variable {contexts : List Value} {enVars : List CString} {args hostName : Bytes} {name : ProcessName}

theorem byName_lastContext (field : String) {k : Nat}
    (hk : ["en_vars", "args", "host_name", "name"].findIdx? (· == field) = some k)
    (out : Libavro.Handle) :
    host.lib.byName (launchRequestOf (contexts ++ [launchContextValue enVars args hostName name]))
      (some [0, contexts.length]) field out = some [0, contexts.length, k] := by
  refine hlib.byName (at?_lastContext contexts _ []) ?_ out
  exact (List.findIdx?_map (f := Prod.fst) (p := (· == field))).symm.trans hk

theorem byName_lastName (field : String) {k : Nat}
    (hk : ["jobid", "vpid"].findIdx? (· == field) = some k) (out : Libavro.Handle) :
    host.lib.byName (launchRequestOf (contexts ++ [launchContextValue enVars args hostName name]))
      (some [0, contexts.length, 3]) field out = some [0, contexts.length, 3, k] := by
  refine hlib.byName (at?_lastContext contexts _ [3]) ?_ out
  exact (List.findIdx?_map (f := Prod.fst) (p := (· == field))).symm.trans hk

theorem putString_args (out : Libavro.Handle) (str : CString) :
    host.lib.putString (launchRequestOf (contexts ++ [launchContextValue enVars args hostName name]))
      (host.lib.byName (launchRequestOf (contexts ++ [launchContextValue enVars args hostName name]))
        (some [0, contexts.length]) "args" out) str =
      launchRequestOf (contexts ++ [launchContextValue enVars str.bytes hostName name]) := by
  rw [byName_lastContext hlib "args" (k := 1) (by decide),
    hlib.putString (at?_lastContext contexts _ [1]), setAt_lastContext]
  rfl

theorem putString_hostName (out : Libavro.Handle) (str : CString) :
    host.lib.putString (launchRequestOf (contexts ++ [launchContextValue enVars args hostName name]))
      (host.lib.byName (launchRequestOf (contexts ++ [launchContextValue enVars args hostName name]))
        (some [0, contexts.length]) "host_name" out) str =
      launchRequestOf (contexts ++ [launchContextValue enVars args str.bytes name]) := by
  rw [byName_lastContext hlib "host_name" (k := 2) (by decide),
    hlib.putString (at?_lastContext contexts _ [2]), setAt_lastContext]
  rfl

theorem putInt_jobid (out : Libavro.Handle) (n : Int32) :
    host.lib.putInt (launchRequestOf (contexts ++ [launchContextValue enVars args hostName name]))
      (host.lib.byName (launchRequestOf (contexts ++ [launchContextValue enVars args hostName name]))
        (some [0, contexts.length, 3]) "jobid" out) n =
      launchRequestOf (contexts ++ [launchContextValue enVars args hostName ⟨n, name.vpid⟩]) := by
  rw [byName_lastName hlib "jobid" (k := 0) (by decide),
    hlib.putInt (n := name.jobid) (at?_lastContext contexts _ [3, 0]), setAt_lastContext]
  rfl

theorem putInt_vpid (out : Libavro.Handle) (n : Int32) :
    host.lib.putInt (launchRequestOf (contexts ++ [launchContextValue enVars args hostName name]))
      (host.lib.byName (launchRequestOf (contexts ++ [launchContextValue enVars args hostName name]))
        (some [0, contexts.length, 3]) "vpid" out) n =
      launchRequestOf (contexts ++ [launchContextValue enVars args hostName ⟨name.jobid, n⟩]) := by
  rw [byName_lastName hlib "vpid" (k := 1) (by decide),
    hlib.putInt (n := name.vpid) (at?_lastContext contexts _ [3, 1]), setAt_lastContext]
  rfl

end fields

/-- One pass of the loop over the contexts adds the record of the item it shows. -/
theorem fillLaunchContext_returns {ctx : LaunchContext} {item : LaunchItem} {contexts : List Value}
    {st : LaunchFill} (hctx : st.elems[i]? = some ctx) (hitem : ctx.view heap = some item)
    (hrecord : st.record = launchRequestOf contexts) :
    Returns (fillLaunchContext host heap (some [0]) st i) w fun st' _ =>
      st'.record = launchRequestOf (contexts ++ [item.toValue]) := by
  obtain ⟨henv, hargs, hhost, hname⟩ := LaunchContext.view_eq_some.mp hitem
  have harray : (launchRequestOf contexts).at? [0] = some (.array launchContext contexts) := rfl
  have happend : host.lib.appendTo (launchRequestOf contexts) (some [0]) st.locals.launchContextValue =
      (launchRequestOf (contexts ++ [launchContextValue [] [] [] ⟨0, 0⟩]), some [0, contexts.length]) :=
    hlib.appendTo harray _
  unfold fillLaunchContext
  rw [hctx]
  simp only [hrecord, happend]
  refine (enVarsLoop_returns hlib henv [] _ rfl
    (byName_lastContext hlib "en_vars" (by decide) _)).bind fun st' w' hst' => ?_
  refine (deref_returns hargs).bind fun args _ hargs => ?_
  refine (deref_returns hhost).bind fun hostName _ hhost => Returns.pure ?_
  subst hargs hhost
  -- the record is followed through the four setters
  simp only [hst', putString_args hlib, putString_hostName hlib,
    byName_lastContext hlib "name" (k := 3) (by decide), putInt_jobid hlib,
    putInt_vpid hlib, hname, List.nil_append]
  rfl

/-- The record of the items that are shown. -/
theorem fillLaunchRequest_returns {array : LaunchArray} {items : List LaunchItem}
    (hshows : array.Shows heap items) :
    Returns (fillLaunchRequest host heap array items.length launchRequestRecordAvro.default) w
      fun out _ => out.1 = launchRequestValue items ∧ out.2 = array.exhaust heap := by
  have hvalue : Returns (fillLaunchRequest host heap array items.length
      launchRequestRecordAvro.default) w fun out _ => out.1 = launchRequestValue items := by
    have hname : host.lib.byName launchRequestRecordAvro.default (some []) "launchContexts" none =
        some [0] := hlib.byName (i := 0) rfl (by decide) none
    unfold fillLaunchRequest
    rw [hname]
    -- after `i` passes: the first `i` items are in the record, and the others are still shown
    refine Returns.bind (Returns.forRange (fun i st _ =>
      st.record = launchRequestValue (items.take i) ∧ st.elems = exhaustFirst heap array.elems i)
      ⟨rfl, rfl⟩ ?_) fun st _ h => Returns.pure ?_
    · intro i hi st w ⟨hrecord, helems⟩
      have hlt : i < array.elems.length := by rw [hshows.length_eq]; exact hi
      have hctx : array.elems[i]? = some array.elems[i] := List.getElem?_eq_getElem hlt
      obtain ⟨item, hitem, hview⟩ := hshows.getElem? hctx
      have hctx' : st.elems[i]? = some array.elems[i] := by rw [helems, getElem?_exhaustFirst, hctx]
      refine ((fillLaunchContext_returns hlib hctx' hview hrecord).and_ensures
        (fillLaunchContext_ensures st)).mono fun st' _ ⟨hvalue, ctx, hst, hmodify⟩ => ⟨?_, ?_⟩
      · rw [hvalue, launchRequestValue, List.take_add_one, hitem, List.map_append]
        rfl
      · obtain rfl : array.elems[i] = ctx := Option.some.inj (hctx'.symm.trans hst)
        rw [hmodify, helems, exhaustFirst_succ _ _ hctx]
    · simpa using h.1
  apply hvalue.and_ensures
  rw [← hshows.length_eq]
  exact fillLaunchRequest_ensures array _

end record

/-! ## The whole call -/

/-- After a call that returns, every cursor is at its end. -/
theorem buildLaunchRequest_ensures (array : LaunchArray) :
    Ensures (buildLaunchRequest host heap array array.elems.length) w fun out _ =>
      out.2 = array.exhaust heap :=
  buildRequest_ensures (P := (· = array.exhaust heap)) fun record _ =>
    fillLaunchRequest_ensures array record

section returns
variable (hlib : host.lib.Accessors) (hfiles : host.Installed) (hmem : host.MallocSucceeds)
  (hwrites : host.lib.WritesFormat) {array : LaunchArray} {items : List LaunchItem}
  (hshows : array.Shows heap items)
include hlib hfiles hmem hwrites hshows

theorem buildLaunchRequest_returns (hfits : (encode (launchRequestValue items)).length ≤ bufferSize) :
    Returns (buildLaunchRequest host heap array items.length) w fun out _ =>
      out.1.bytes = encode (launchRequestValue items) ∧ out.2 = array.exhaust heap :=
  buildRequest_returns hlib hfiles hmem launchRequest_mem hwrites (P := (· = array.exhaust heap))
    (fun _ => fillLaunchRequest_returns hlib hshows) hfits

theorem buildLaunchRequest_stops (hover : bufferSize < (encode (launchRequestValue items)).length) :
    Stops (buildLaunchRequest host heap array items.length) w Halt.IsExit :=
  buildRequest_stops hlib hfiles hmem launchRequest_mem hwrites (P := (· = array.exhaust heap))
    (fun _ => fillLaunchRequest_returns hlib hshows) hover

end returns

end host

end HamsterAvro
