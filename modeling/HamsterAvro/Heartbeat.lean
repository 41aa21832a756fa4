import HamsterAvro.CommonSpec

/-!
# `heartbeat.c`
-/

namespace HamsterAvro
open HamsterAvro.Wire HamsterAvro.Avro HamsterAvro.C

inductive ProcessState where
  | running
  | completed
  deriving DecidableEq

/-- The number of the enumerator in `process_state_enum_t`. -/
def ProcessState.ordinal : ProcessState → Int32
  | .running => 0
  | .completed => 1

/-- `procState` is the storage of the C enum, which holds any `int`. -/
structure CompletedProc where
  procName : ProcessName
  procState : Int32
  exitValue : Int32
  deriving DecidableEq

def sizeofCompletedProc : Nat := 16

section host
variable (host : Host)

def buildHeartbeatRequest : Prog Slice := do
  let (slice, _) ← buildRequest host "HeartBeatRequestRecordAvro.avsc"
    "Unable to write person record to memory buffer" fun record => pure (record, ())
  pure slice

structure ProcessStatusLocals where
  processStatusValue : Libavro.Handle := none
  nameValue : Libavro.Handle := none
  jobidValue : Libavro.Handle := none
  vpidValue : Libavro.Handle := none
  stateValue : Libavro.Handle := none
  exitValueValue : Libavro.Handle := none

def parseProcessStatus (record : Value) (completedProcessesValue : Libavro.Handle) (i : Nat)
    (l : ProcessStatusLocals) (old : CompletedProc) : Prog (ProcessStatusLocals × CompletedProc) :=
  let lib := host.lib
  let processStatusValue := lib.byIndex record completedProcessesValue i l.processStatusValue
  let nameValue := lib.byName record processStatusValue "name" l.nameValue
  let jobidValue := lib.byName record nameValue "jobid" l.jobidValue
  let vpidValue := lib.byName record nameValue "vpid" l.vpidValue
  let stateValue := lib.byName record processStatusValue "state" l.stateValue
  let exitValueValue := lib.byName record processStatusValue "exit_value" l.exitValueValue
  pure ({ processStatusValue, nameValue, jobidValue, vpidValue, stateValue, exitValueValue },
    { procName.jobid := lib.intOr record jobidValue old.procName.jobid
      procName.vpid := lib.intOr record vpidValue old.procName.vpid
      procState := lib.enumOr record stateValue old.procState
      exitValue := lib.intOr record exitValueValue old.exitValue })

def parseHeartbeatResponse (slice : Slice) (out : OutPointers) (raw : Nat → CompletedProc)
    (memory : Memory) : Prog (ArrayOut CompletedProc) :=
  parseArray host "HeartBeatResponseRecordAvro.avsc" "completed_processes" sizeofCompletedProc {}
    (parseProcessStatus host) slice out raw memory

end host

def freeCompletedProcArray (p : Addr) : Prog Unit := freeIfSet p

end HamsterAvro
