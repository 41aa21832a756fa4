import HamsterAvro.CommonSpec

/-!
# `finish.c`, `register.c` and `hnp_request_wrapper.c`
-/

namespace HamsterAvro
open HamsterAvro.Wire HamsterAvro.Avro HamsterAvro.C

section host
variable (host : Host)

/-! ## `finish.c` -/

/-- `diagnostics` is `none` where the caller passes a null pointer. -/
def fillFinishRequest (succeed : Bool) (diagnostics : Option CString) (record : Value) :
    Prog (Value × Unit) :=
  let lib := host.lib
  let succeedValue := lib.byName record (some []) "succeed" none
  let record := lib.putBoolean record succeedValue succeed
  let diagnosticsValue := lib.byName record (some []) "diagnostics" none
  match diagnostics with
  | none => throw .undefined
  | some str => pure (lib.putString record diagnosticsValue str, ())

def buildFinishRequest (succeed : Bool) (diagnostics : Option CString) : Prog Slice := do
  let (slice, _) ← buildRequest host "FinishRequestRecordAvro.avsc"
    "Unable to write record to memory buffer" (fillFinishRequest host succeed diagnostics)
  pure slice

def parseFinishResponse (slice : Slice) : Prog Int32 :=
  parseAcknowledgement host "FinishResponseRecordAvro.avsc" slice

/-! ## `register.c` -/

def buildRegisterRequest : Prog Slice := do
  let (slice, _) ← buildRequest host "RegisterRequestRecordAvro.avsc"
    "Unable to write record to memory buffer" fun record => pure (record, ())
  pure slice

def parseRegisterResponse (slice : Slice) : Prog Int32 :=
  parseAcknowledgement host "RegisterResponseRecordAvro.avsc" slice

/-! ## `hnp_request_wrapper.c` -/

inductive MsgType where
  | allocate
  | launch
  | register
  | finish
  | heartbeat
  deriving DecidableEq

/-- The number of the enumerator in `msg_type_enum_t`. -/
def MsgType.ordinal : MsgType → Int32
  | .allocate => 0
  | .launch => 1
  | .register => 2
  | .finish => 3
  | .heartbeat => 4

def fillHnpRequest (innerSlice : Slice) (msgType : MsgType) (record : Value) : Prog (Value × Unit) :=
  let lib := host.lib
  let requestValue := lib.byName record (some []) "request" none
  let record := lib.putBytes record requestValue innerSlice.bytes
  let msgTypeValue := lib.byName record (some []) "msg_type" none
  pure (lib.putEnum record msgTypeValue msgType.ordinal, ())

def buildHnpRequestWrapper (innerSlice : Slice) (msgType : MsgType) : Prog Slice := do
  let (slice, _) ← buildRequest host "HamsterHnpRequestRecordAvro.avsc"
    "Unable to write record to memory buffer" (fillHnpRequest host innerSlice msgType)
  pure slice

end host

end HamsterAvro
