import HamsterAvro.CommonSpec

/-!
# `allocate.c`

A host name in the parsed array is the buffer libavro hands out, not a copy; `freeNodeResourceArray`
gives that buffer to `free`.
-/

namespace HamsterAvro
open HamsterAvro.Wire HamsterAvro.Avro HamsterAvro.C

structure NodeResource where
  hostName : Block
  slotNum : Int32
  deriving DecidableEq

def sizeofNodeResource : Nat := 16

section host
variable (host : Host)

def fillAllocateRequest (resourceCount : Int32) (record : Value) : Prog (Value × Unit) :=
  let resourceCountValue := host.lib.byName record (some []) "resource_count" none
  pure (host.lib.putInt record resourceCountValue resourceCount, ())

def buildAllocateRequest (resourceCount : Int32) : Prog Slice := do
  let (slice, _) ← buildRequest host "AllocateRequestRecordAvro.avsc"
    "Unable to write record to memory buffer" (fillAllocateRequest host resourceCount)
  pure slice

structure NodeResourceLocals where
  nodeResourceValue : Libavro.Handle := none
  hostNameValue : Libavro.Handle := none
  slotValue : Libavro.Handle := none

/-- The slot goes through a local that starts at zero. -/
def parseNodeResource (record : Value) (nodeResourcesValue : Libavro.Handle) (i : Nat)
    (l : NodeResourceLocals) (old : NodeResource) : Prog (NodeResourceLocals × NodeResource) :=
  let lib := host.lib
  let nodeResourceValue := lib.byIndex record nodeResourcesValue i l.nodeResourceValue
  let hostNameValue := lib.byName record nodeResourceValue "host_name" l.hostNameValue
  let slotValue := lib.byName record nodeResourceValue "slot" l.slotValue
  pure ({ nodeResourceValue, hostNameValue, slotValue },
    { hostName := lib.stringOr record hostNameValue old.hostName
      slotNum := lib.intOr record slotValue 0 })

def parseAllocateResponse (slice : Slice) (out : OutPointers) (raw : Nat → NodeResource)
    (memory : Memory) : Prog (ArrayOut NodeResource) :=
  parseArray host "AllocateResponseRecordAvro.avsc" "node_resources" sizeofNodeResource {}
    (parseNodeResource host) slice out raw memory

end host

/-- Frees the first `arraySize` host names and the array. -/
def freeNodeResourceArray (p : Addr) (elems : List NodeResource) (arraySize : Nat) : Prog Unit := do
  (List.range arraySize).forM fun i =>
    match elems[i]? with
    | none => throw .undefined
    | some node => freeIfSet node.hostName.addr
  freeIfSet p

end HamsterAvro
