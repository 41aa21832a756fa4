import HamsterAvro.CommonSpec

/-!
# `launch.c`

`buildLaunchRequest`, `freeLaunchContextArray` and `parseLaunchResponse`. A launch context points into
the caller's heap: its environment is a cursor into a block of `char *` cells that ends with a null
pointer, and building moves that cursor in the caller's own array.
-/

namespace HamsterAvro
open HamsterAvro.Wire HamsterAvro.Avro HamsterAvro.C

/-! ## The data -/

/-- A `char **`: a block of cells and the position in it. -/
structure EnvCursor where
  block : Addr
  pos : Nat
  deriving DecidableEq

structure LaunchContext where
  enVarsArray : EnvCursor
  args : Addr
  hostName : Addr
  procName : ProcessName
  deriving DecidableEq

/-- An array of launch contexts and the block it is in. -/
structure LaunchArray where
  addr : Addr
  elems : List LaunchContext

/-- What the contexts point to: the cells of each environment block, the string at each address. -/
structure Heap where
  cells : Addr → List Addr
  string : Addr → Option CString
  string_null : string 0 = none

structure LaunchResponse where
  isSuccessful : Bool
  procName : ProcessName
  deriving DecidableEq

def sizeofLaunchResponse : Nat := 12

/-- `launch_context_array[i].en_vars_array++` -/
def LaunchContext.advance (ctx : LaunchContext) : LaunchContext :=
  { ctx with enVarsArray.pos := ctx.enVarsArray.pos + 1 }

/-- The cells from the cursor on. -/
def Heap.cellsAt (heap : Heap) (cursor : EnvCursor) : List Addr :=
  (heap.cells cursor.block).drop cursor.pos

/-- The string at a pointer that is dereferenced. -/
def Heap.deref (heap : Heap) (p : Addr) : Prog CString :=
  match heap.string p with
  | some str => pure str
  | none => throw .undefined

/-! ## `build_launch_request` -/

structure LaunchRequestLocals where
  launchContextValue : Libavro.Handle := none
  enVarsArrayValue : Libavro.Handle := none
  enVarItemValue : Libavro.Handle := none
  argsValue : Libavro.Handle := none
  hostNameValue : Libavro.Handle := none
  nameValue : Libavro.Handle := none
  jobidValue : Libavro.Handle := none
  vpidValue : Libavro.Handle := none

/-- The record being filled, the caller's array, and the locals. -/
structure LaunchFill where
  record : Value
  elems : List LaunchContext
  locals : LaunchRequestLocals

section host
variable (host : Host)

/-- The environment loop of context `i`, over the cells from its cursor on. -/
def enVarsLoop (heap : Heap) (i : Nat) : List Addr → LaunchFill → Prog LaunchFill
  | [], _ => throw .undefined -- past the end of the block
  | p :: rest, st =>
    if p = 0 then pure st
    else do
      let (record, item) :=
        host.lib.appendTo st.record st.locals.enVarsArrayValue st.locals.enVarItemValue
      let str ← heap.deref p
      enVarsLoop heap i rest {
        record := host.lib.putString record item str
        elems := st.elems.modify i LaunchContext.advance
        locals := { st.locals with enVarItemValue := item } }

/-- The body of the loop over the contexts. -/
def fillLaunchContext (heap : Heap) (launchContextsValue : Libavro.Handle) (st : LaunchFill) (i : Nat) :
    Prog LaunchFill :=
  match st.elems[i]? with
  | none => throw .undefined -- past the end of the array
  | some ctx => do
    let lib := host.lib
    let (record, launchContextValue) :=
      lib.appendTo st.record launchContextsValue st.locals.launchContextValue
    let enVarsArrayValue := lib.byName record launchContextValue "en_vars" st.locals.enVarsArrayValue
    let st ← enVarsLoop host heap i (heap.cellsAt ctx.enVarsArray) {
      record
      elems := st.elems
      locals := { st.locals with launchContextValue, enVarsArrayValue } }
    let argsValue := lib.byName st.record launchContextValue "args" st.locals.argsValue
    let args ← heap.deref ctx.args
    let record := lib.putString st.record argsValue args
    let hostNameValue := lib.byName record launchContextValue "host_name" st.locals.hostNameValue
    let hostName ← heap.deref ctx.hostName
    let record := lib.putString record hostNameValue hostName
    let nameValue := lib.byName record launchContextValue "name" st.locals.nameValue
    let jobidValue := lib.byName record nameValue "jobid" st.locals.jobidValue
    let record := lib.putInt record jobidValue ctx.procName.jobid
    let vpidValue := lib.byName record nameValue "vpid" st.locals.vpidValue
    let record := lib.putInt record vpidValue ctx.procName.vpid
    pure {
      record
      elems := st.elems
      locals := { st.locals with argsValue, hostNameValue, nameValue, jobidValue, vpidValue } }

def fillLaunchRequest (heap : Heap) (array : LaunchArray) (arraySize : Nat) (record : Value) :
    Prog (Value × LaunchArray) := do
  let launchContextsValue := host.lib.byName record (some []) "launchContexts" none
  let st ← (List.range arraySize).foldlM (fillLaunchContext host heap launchContextsValue)
    { record, elems := array.elems, locals := {} }
  pure (st.record, { array with elems := st.elems })

/-- The slice, and the caller's array as it is left. -/
def buildLaunchRequest (heap : Heap) (array : LaunchArray) (arraySize : Nat) :
    Prog (Slice × LaunchArray) :=
  buildRequest host "LaunchRequestRecordAvro.avsc" "Unable to write record to memory buffer"
    (fillLaunchRequest host heap array arraySize)

/-! ## `free_launch_context_array` -/

/-- Frees the strings from the cursor of context `i` on. -/
def freeEnvVars (i : Nat) : List Addr → List LaunchContext → Prog (List LaunchContext)
  | [], _ => throw .undefined -- past the end of the block
  | p :: rest, elems =>
    if p = 0 then pure elems
    else do
      free p
      freeEnvVars i rest (elems.modify i LaunchContext.advance)

def freeLaunchContext (heap : Heap) (elems : List LaunchContext) (i : Nat) :
    Prog (List LaunchContext) :=
  match elems[i]? with
  | none => throw .undefined
  | some ctx => do
    let elems ← freeEnvVars i (heap.cellsAt ctx.enVarsArray) elems
    freeIfSet ctx.args
    freeIfSet ctx.hostName
    pure elems

def freeLaunchContextArray (heap : Heap) (array : LaunchArray) (arraySize : Nat) : Prog Unit := do
  let _ ← (List.range arraySize).foldlM (freeLaunchContext heap) array.elems
  freeIfSet array.addr

/-! ## `parse_launch_response` -/

structure LaunchResultLocals where
  launchResultValue : Libavro.Handle := none
  isSuccessfulValue : Libavro.Handle := none
  nameValue : Libavro.Handle := none
  jobidValue : Libavro.Handle := none
  vpidValue : Libavro.Handle := none

def parseLaunchResult (record : Value) (resultsValue : Libavro.Handle) (i : Nat)
    (l : LaunchResultLocals) (old : LaunchResponse) : Prog (LaunchResultLocals × LaunchResponse) :=
  let lib := host.lib
  let launchResultValue := lib.byIndex record resultsValue i l.launchResultValue
  let isSuccessfulValue := lib.byName record launchResultValue "is_successful" l.isSuccessfulValue
  let nameValue := lib.byName record launchResultValue "name" l.nameValue
  let jobidValue := lib.byName record nameValue "jobid" l.jobidValue
  let vpidValue := lib.byName record nameValue "vpid" l.vpidValue
  pure ({ launchResultValue, isSuccessfulValue, nameValue, jobidValue, vpidValue },
    { isSuccessful := lib.booleanOr record isSuccessfulValue old.isSuccessful
      procName.jobid := lib.intOr record jobidValue old.procName.jobid
      procName.vpid := lib.intOr record vpidValue old.procName.vpid })

def parseLaunchResponse (slice : Slice) (out : OutPointers) (raw : Nat → LaunchResponse)
    (memory : Memory) : Prog (ArrayOut LaunchResponse) :=
  parseArray host "LaunchResponseRecordAvro.avsc" "results" sizeofLaunchResponse {}
    (parseLaunchResult host) slice out raw memory

def freeLaunchResponseArray (p : Addr) : Prog Unit := freeIfSet p

end host

end HamsterAvro
