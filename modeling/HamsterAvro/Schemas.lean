import HamsterAvro.Avro.Value

/-!
# The record schemas

One definition for each schema file the library opens, under the name of the file.
-/

namespace HamsterAvro
open HamsterAvro.Avro

def processName : Schema := .record "ProcessName" [("jobid", .int), ("vpid", .int)]

def allocateRequestRecordAvro : Schema := .record "AllocateRequest" [("resource_count", .int)]

def nodeResource : Schema := .record "NodeResource" [("host_name", .string), ("slot", .int)]

def allocateResponseRecordAvro : Schema :=
  .record "AllocateResponse" [("node_resources", .array nodeResource)]

def finishRequestRecordAvro : Schema :=
  .record "FinishRequest" [("succeed", .boolean), ("diagnostics", .string)]

def finishResponseRecordAvro : Schema := .record "FinishResponse" [("finish_response", .null)]

def msgTypeSymbols : List String := ["ALLOCATE", "LAUNCH", "REGISTER", "FINISH", "HEARTBEAT"]

def hamsterHnpRequestRecordAvro : Schema :=
  .record "HamsterHnpRequest" [("request", .bytes), ("msg_type", .enum msgTypeSymbols)]

def heartBeatRequestRecordAvro : Schema := .record "HeartBeatRequest" [("heartbeat_request", .null)]

def processStateSymbols : List String := ["RUNNING", "COMPLETED"]

def processStatus : Schema :=
  .record "ProcessStatus"
    [("name", processName), ("state", .enum processStateSymbols), ("exit_value", .int)]

def heartBeatResponseRecordAvro : Schema :=
  .record "HeartBeatResponse" [("completed_processes", .array processStatus)]

def launchContext : Schema :=
  .record "LaunchContext"
    [("en_vars", .array .string), ("args", .string), ("host_name", .string), ("name", processName)]

def launchRequestRecordAvro : Schema :=
  .record "LaunchRequest" [("launchContexts", .array launchContext)]

def launchResult : Schema :=
  .record "LaunchResult" [("is_successful", .boolean), ("name", processName)]

def launchResponseRecordAvro : Schema := .record "LaunchResponse" [("results", .array launchResult)]

def registerRequestRecordAvro : Schema := .record "RegisterRequest" [("register_request", .null)]

def registerResponseRecordAvro : Schema := .record "RegisterResponse" [("register_response", .null)]

/-- The files under `schema/` and what they hold. -/
def schemaFiles : List (String × Schema) :=
  [("AllocateRequestRecordAvro.avsc", allocateRequestRecordAvro),
   ("AllocateResponseRecordAvro.avsc", allocateResponseRecordAvro),
   ("FinishRequestRecordAvro.avsc", finishRequestRecordAvro),
   ("FinishResponseRecordAvro.avsc", finishResponseRecordAvro),
   ("HamsterHnpRequestRecordAvro.avsc", hamsterHnpRequestRecordAvro),
   ("HeartBeatRequestRecordAvro.avsc", heartBeatRequestRecordAvro),
   ("HeartBeatResponseRecordAvro.avsc", heartBeatResponseRecordAvro),
   ("LaunchRequestRecordAvro.avsc", launchRequestRecordAvro),
   ("LaunchResponseRecordAvro.avsc", launchResponseRecordAvro),
   ("RegisterRequestRecordAvro.avsc", registerRequestRecordAvro),
   ("RegisterResponseRecordAvro.avsc", registerResponseRecordAvro)]

theorem allocateRequest_mem :
    ("AllocateRequestRecordAvro.avsc", allocateRequestRecordAvro) ∈ schemaFiles := by
  simp [schemaFiles]

theorem allocateResponse_mem :
    ("AllocateResponseRecordAvro.avsc", allocateResponseRecordAvro) ∈ schemaFiles := by
  simp [schemaFiles]

theorem finishRequest_mem :
    ("FinishRequestRecordAvro.avsc", finishRequestRecordAvro) ∈ schemaFiles := by
  simp [schemaFiles]

theorem finishResponse_mem :
    ("FinishResponseRecordAvro.avsc", finishResponseRecordAvro) ∈ schemaFiles := by
  simp [schemaFiles]

theorem hamsterHnpRequest_mem :
    ("HamsterHnpRequestRecordAvro.avsc", hamsterHnpRequestRecordAvro) ∈ schemaFiles := by
  simp [schemaFiles]

theorem heartBeatRequest_mem :
    ("HeartBeatRequestRecordAvro.avsc", heartBeatRequestRecordAvro) ∈ schemaFiles := by
  simp [schemaFiles]

theorem heartBeatResponse_mem :
    ("HeartBeatResponseRecordAvro.avsc", heartBeatResponseRecordAvro) ∈ schemaFiles := by
  simp [schemaFiles]

theorem launchRequest_mem :
    ("LaunchRequestRecordAvro.avsc", launchRequestRecordAvro) ∈ schemaFiles := by
  simp [schemaFiles]

theorem launchResponse_mem :
    ("LaunchResponseRecordAvro.avsc", launchResponseRecordAvro) ∈ schemaFiles := by
  simp [schemaFiles]

theorem registerRequest_mem :
    ("RegisterRequestRecordAvro.avsc", registerRequestRecordAvro) ∈ schemaFiles := by
  simp [schemaFiles]

theorem registerResponse_mem :
    ("RegisterResponseRecordAvro.avsc", registerResponseRecordAvro) ∈ schemaFiles := by
  simp [schemaFiles]

/-- No two files have the same name. -/
theorem find?_schemaFiles :
    ∀ entry ∈ schemaFiles, schemaFiles.find? (fun e => e.1 == entry.1) = some entry := by
  simp [schemaFiles]

end HamsterAvro
