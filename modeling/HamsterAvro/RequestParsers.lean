import HamsterAvro.Finish

/-!
# The parsers of `test/`

The receiving side of the requests, as the tests of the builders have it: `parseAllocateRequest`,
`parseFinishRequest`, `parseRegisterRequest`, `parseHeartbeatRequest`, `parseHnpRequestWrapper` and
`parseLaunchRequest`. A string or a byte buffer they return is libavro's own.
-/

namespace HamsterAvro
open HamsterAvro.Wire HamsterAvro.Avro HamsterAvro.C

section host
variable (host : Host)

/-! ## `allocate_request_test.c`, `finish_request_test.c` -/

/-- `old` is what the caller's object held. -/
def parseAllocateRequest (slice : Slice) (old : Int32) : Prog Int32 := do
  let record ← readRecord host "AllocateRequestRecordAvro.avsc" slice
  let fieldValue := host.lib.byName record (some []) "resource_count" none
  let resourceRequestCount := host.lib.intOr record fieldValue old
  closeRecord
  pure resourceRequestCount

def parseFinishRequest (slice : Slice) (old : Bool × Block) : Prog (Bool × Block) := do
  let record ← readRecord host "FinishRequestRecordAvro.avsc" slice
  let succeedValue := host.lib.byName record (some []) "succeed" none
  let succeed := host.lib.booleanOr record succeedValue old.1
  let diagValue := host.lib.byName record (some []) "diagnostics" none
  let diag := host.lib.stringOr record diagValue old.2
  closeRecord
  pure (succeed, diag)

/-! ## `register_request_test.c`, `heartbeat_request_test.c` -/

def parseRegisterRequest (slice : Slice) : Prog Int32 :=
  parseAcknowledgement host "RegisterRequestRecordAvro.avsc" slice

def parseHeartbeatRequest (slice : Slice) : Prog Int32 :=
  parseAcknowledgement host "HeartBeatRequestRecordAvro.avsc" slice

/-! ## `hnp_request_wrapper_test.c` -/

/-- The inner slice, its own block and its buffer and length, and the storage of the message type. -/
structure InnerRequest where
  self : Addr
  buffer : Block
  len : Int32
  msgType : Int32

/-- `old` is what the new slice, the local `size` and the caller's object held. -/
def parseHnpRequestWrapper (wrapperSlice : Slice) (old : (Block × Nat) × Int32) : Prog InnerRequest := do
  let record ← readRecord host "HamsterHnpRequestRecordAvro.avsc" wrapperSlice
  let self ← xmalloc host sizeofSlice
  let requestValue := host.lib.byName record (some []) "request" none
  let (buffer, size) := host.lib.bytesOr record requestValue old.1
  let msgTypeValue := host.lib.byName record (some []) "msg_type" none
  let msgType := host.lib.enumOr record msgTypeValue old.2
  closeRecord
  pure { self, buffer, len := Int32.ofNat size, msgType }

/-! ## `launch_request_test.c` -/

/-- A context of the parsed array: the block of its environment vector, what the cells before the null
pointer point to, and the rest. -/
structure ParsedContext where
  enVarsArray : Addr
  enVars : List Block
  args : Block
  hostName : Block
  procName : ProcessName

def sizeofLaunchContext : Nat := 32

structure LaunchContextLocals where
  launchContextValue : Libavro.Handle := none
  enVarsArrayValue : Libavro.Handle := none
  enVarsItemValue : Libavro.Handle := none
  argsValue : Libavro.Handle := none
  hostNameValue : Libavro.Handle := none
  nameValue : Libavro.Handle := none
  jobidValue : Libavro.Handle := none

/-- `avro_value_get_size(&elems, &n)` where `n` is an `int` on the stack: the `size_t` that is stored does not
fit the object. A call that fails stores nothing. -/
def sizeIntoInt (record : Value) (elems : Libavro.Handle) (n : Int32) : Prog Int32 :=
  match elems.bind (host.lib.getSize record) with
  | some _ => throw .undefined
  | none => pure n

/-- The cells of the first `n` environment strings, over cells that hold `old`. -/
def enVarsCells (record : Value) (enVarsArrayValue : Libavro.Handle) (old : Nat → Block) (n : Nat)
    (enVarsItemValue : Libavro.Handle) : Libavro.Handle × List Block :=
  (List.range n).foldl (fun (item, cells) j =>
    let item := host.lib.byIndex record enVarsArrayValue j item
    (item, cells ++ [host.lib.stringOr record item (old j)])) (enVarsItemValue, [])

def parseLaunchContext (oldCells : Nat → Nat → Block) (record : Value)
    (launchContextsValue : Libavro.Handle) (i : Nat) (l : LaunchContextLocals) (old : ParsedContext) :
    Prog (LaunchContextLocals × ParsedContext) := do
  let lib := host.lib
  let launchContextValue := lib.byIndex record launchContextsValue i l.launchContextValue
  let enVarsArrayValue := lib.byName record launchContextValue "en_vars" l.enVarsArrayValue
  let enVarsArraySize ← sizeIntoInt host record enVarsArrayValue 0
  let enVarsArray ← xmalloc host (mallocSize 8 (enVarsArraySize + 1))
  if enVarsArraySize < 0 then throw .undefined -- the null pointer goes before the vector
  else do
    let (enVarsItemValue, enVars) :=
      enVarsCells host record enVarsArrayValue (oldCells i) enVarsArraySize.toInt.toNat l.enVarsItemValue
    let argsValue := lib.byName record launchContextValue "args" l.argsValue
    let args := lib.stringOr record argsValue old.args
    let hostNameValue := lib.byName record launchContextValue "host_name" l.hostNameValue
    let hostName := lib.stringOr record hostNameValue old.hostName
    let nameValue := lib.byName record launchContextValue "name" l.nameValue
    let jobidValue := lib.byName record nameValue "jobid" l.jobidValue
    let jobid := lib.intOr record jobidValue old.procName.jobid
    -- the same local for both
    let jobidValue := lib.byName record nameValue "vpid" jobidValue
    let vpid := lib.intOr record jobidValue old.procName.vpid
    pure ({ launchContextValue, enVarsArrayValue, enVarsItemValue, argsValue, hostNameValue, nameValue,
            jobidValue },
      { enVarsArray, enVars, args, hostName, procName := ⟨jobid, vpid⟩ })

def parseLaunchRequest (slice : Slice) (out : OutPointers) (raw : Nat → ParsedContext)
    (oldCells : Nat → Nat → Block) (memory : Memory) : Prog (ArrayOut ParsedContext) :=
  parseArray host "LaunchRequestRecordAvro.avsc" "launchContexts" sizeofLaunchContext {}
    (parseLaunchContext host oldCells) slice out raw memory

end host

end HamsterAvro
