import HamsterAvro.C.Effect
import HamsterAvro.Allocate
import HamsterAvro.Finish
import HamsterAvro.Heartbeat
import HamsterAvro.Launch
import Mathlib.Tactic.Abel

/-!
# The ledger of libavro objects over a session

A session is any sequence of calls of the eleven entry points, and of frees of what they returned, in
any order. Each call gives back its schema and its value class, and keeps its value and its writer or
reader (`Call.exec_adds`); the frees give back nothing. So the ledger after a session is the ledger
before it exactly when it made no call (`session_ledger_eq`), whatever the host does.
-/

namespace HamsterAvro
open HamsterAvro.Wire HamsterAvro.Avro HamsterAvro.C

/-! ## Sessions -/

/-- A call of an entry point, with its arguments as they are at the call. -/
inductive Call where
  | buildAllocateRequest (resourceCount : Int32)
  | buildLaunchRequest (heap : Heap) (array : LaunchArray) (arraySize : Nat)
  | buildHeartbeatRequest
  | buildRegisterRequest
  | buildFinishRequest (succeed : Bool) (diagnostics : Option CString)
  | buildHnpRequestWrapper (innerSlice : Slice) (msgType : MsgType)
  | parseAllocateResponse (slice : Slice) (out : OutPointers) (raw : Nat → NodeResource) (memory : Memory)
  | parseLaunchResponse (slice : Slice) (out : OutPointers) (raw : Nat → LaunchResponse) (memory : Memory)
  | parseHeartbeatResponse (slice : Slice) (out : OutPointers) (raw : Nat → CompletedProc)
      (memory : Memory)
  | parseRegisterResponse (slice : Slice)
  | parseFinishResponse (slice : Slice)

/-- What a call returned and the caller has to free. -/
inductive Owned where
  | slice (slice : Slice)
  | nodeResources (p : Addr) (elems : List NodeResource) (arraySize : Nat)
  | launchResponses (p : Addr)
  | completedProcs (p : Addr)

def Owned.free : Owned → Prog Unit
  | .slice s => freeSlice s
  | .nodeResources p elems arraySize => freeNodeResourceArray p elems arraySize
  | .launchResponses p => freeLaunchResponseArray p
  | .completedProcs p => freeCompletedProcArray p

section host
variable (host : Host)

def Call.exec : Call → Prog (List Owned)
  | .buildAllocateRequest resourceCount => do
    let slice ← HamsterAvro.buildAllocateRequest host resourceCount
    pure [.slice slice]
  | .buildLaunchRequest heap array arraySize => do
    let (slice, _) ← HamsterAvro.buildLaunchRequest host heap array arraySize
    pure [.slice slice]
  | .buildHeartbeatRequest => do
    let slice ← HamsterAvro.buildHeartbeatRequest host
    pure [.slice slice]
  | .buildRegisterRequest => do
    let slice ← HamsterAvro.buildRegisterRequest host
    pure [.slice slice]
  | .buildFinishRequest succeed diagnostics => do
    let slice ← HamsterAvro.buildFinishRequest host succeed diagnostics
    pure [.slice slice]
  | .buildHnpRequestWrapper innerSlice msgType => do
    let slice ← HamsterAvro.buildHnpRequestWrapper host innerSlice msgType
    pure [.slice slice]
  | .parseAllocateResponse slice out raw memory => do
    let res ← HamsterAvro.parseAllocateResponse host slice out raw memory
    pure [.nodeResources res.pointer res.elems (res.memory.loadInt out.arraySize).toInt.toNat]
  | .parseLaunchResponse slice out raw memory => do
    let res ← HamsterAvro.parseLaunchResponse host slice out raw memory
    pure [.launchResponses res.pointer]
  | .parseHeartbeatResponse slice out raw memory => do
    let res ← HamsterAvro.parseHeartbeatResponse host slice out raw memory
    pure [.completedProcs res.pointer]
  | .parseRegisterResponse slice => do
    let _ ← HamsterAvro.parseRegisterResponse host slice
    pure []
  | .parseFinishResponse slice => do
    let _ ← HamsterAvro.parseFinishResponse host slice
    pure []

inductive Action where
  | call (c : Call)
  /-- Frees the thing at this place of what is owned. -/
  | free (i : Nat)

def Action.step (owned : List Owned) : Action → Prog (List Owned)
  | .call c => do
    let returned ← c.exec host
    pure (owned ++ returned)
  | .free i =>
    match owned[i]? with
    | none => throw .undefined
    | some thing => do
      thing.free
      pure (owned.eraseIdx i)

/-- The actions in turn, from a caller that owns nothing. -/
def session (actions : List Action) : Prog (List Owned) := actions.foldlM (Action.step host) []

end host

/-! ## Effects -/

abbrev AddsLedger {α : Type} (p : Prog α) (δ : Ledger) : Prop := Adds World.ledger p δ

/-- What every call keeps: its value, and its writer or reader. -/
def keeps (object : LibObject) : Ledger := Pi.single .value 1 + Pi.single object 1

/-- A builder keeps its writer, a parser its reader. -/
def Call.stream : Call → LibObject
  | .buildAllocateRequest _ | .buildLaunchRequest .. | .buildHeartbeatRequest | .buildRegisterRequest
  | .buildFinishRequest .. | .buildHnpRequestWrapper .. => .writer
  | .parseAllocateResponse .. | .parseLaunchResponse .. | .parseHeartbeatResponse ..
  | .parseRegisterResponse _ | .parseFinishResponse _ => .reader

def Action.keeps : Action → Ledger
  | .call c => HamsterAvro.keeps c.stream
  | .free _ => 0

section effects
variable {host : Host}

theorem acquire_adds (object : LibObject) : AddsLedger (acquire object) (Pi.single object 1) :=
  Adds.modify fun _ => rfl

theorem release_adds (object : LibObject) : AddsLedger (release object) (-Pi.single object 1) :=
  Adds.modify fun _ => sub_eq_add_neg _ _

theorem freeIfSet_adds (p : Addr) : AddsLedger (freeIfSet p) 0 :=
  Adds.ite (Adds.pure _) (Adds.modify fun _ => (add_zero _).symm)

theorem freeSliceBlocks_adds (self buffer : Addr) : AddsLedger (freeSliceBlocks self buffer) 0 :=
  (freeIfSet_adds buffer).zero_bind fun _ => freeIfSet_adds self

theorem xmalloc_adds (size : Nat) : AddsLedger (xmalloc host size) 0 := by
  intro w p w' hrun
  rw [xmalloc_run] at hrun
  split at hrun
  · cases hrun
  · cases hrun
    exact (add_zero _).symm

theorem initSchema_adds (filename : String) :
    AddsLedger (initSchema host filename) (Pi.single .schema 1) := by
  have hread : AddsLedger (readFileToSlice host filename) 0 := by
    unfold readFileToSlice
    split
    · exact Adds.throw _
    · exact (xmalloc_adds _).zero_bind fun self => (xmalloc_adds _).zero_bind fun buffer => Adds.pure _
  refine hread.zero_bind fun out => ?_
  obtain ⟨self, buffer, file⟩ := out
  dsimp only
  cases file.schema with
  | none => exact Adds.throw _
  | some schema =>
    refine (acquire_adds .schema).bind_zero fun _ => ?_
    exact (freeSliceBlocks_adds self buffer).zero_bind fun _ => Adds.pure schema

theorem newRecord_adds (file : String) : AddsLedger (newRecord host file)
    (Pi.single .schema 1 + Pi.single .valueClass 1 + Pi.single .value 1) :=
  ((initSchema_adds _).bind fun _ => (acquire_adds .valueClass).bind fun _ =>
    (acquire_adds .value).bind_zero fun _ => Adds.pure _).congr (add_assoc _ _ _).symm

theorem closeRecord_adds :
    AddsLedger closeRecord (-Pi.single .valueClass 1 + -Pi.single .schema 1) :=
  (release_adds .valueClass).bind fun _ => release_adds .schema

theorem buildRequest_adds {β : Type} {file unable : String} {fill : Value → Prog (Value × β)}
    (hfill : ∀ record, AddsLedger (fill record) 0) :
    AddsLedger (buildRequest host file unable fill) (keeps .writer) := by
  have hwrite : AddsLedger (buildRequest host file unable fill)
      (Pi.single .schema 1 + Pi.single .valueClass 1 + Pi.single .value 1 + (Pi.single .writer 1 +
        (-Pi.single .valueClass 1 + -Pi.single .schema 1))) := by
    refine (newRecord_adds file).bind fun ⟨schema, record⟩ => (hfill record).zero_bind fun out => ?_
    refine (acquire_adds .writer).bind fun _ => ?_
    split
    · exact Adds.throw _
    · refine closeRecord_adds.bind_zero fun _ => ?_
      exact (xmalloc_adds _).zero_bind fun self => (xmalloc_adds _).zero_bind fun buffer => Adds.pure _
  exact hwrite.congr (by rw [keeps]; abel)

theorem readRecord_adds (file : String) (slice : Slice) : AddsLedger (readRecord host file slice)
    (Pi.single .schema 1 + Pi.single .valueClass 1 + Pi.single .value 1 + Pi.single .reader 1) := by
  refine (newRecord_adds file).bind fun ⟨schema, _⟩ => (acquire_adds .reader).bind_zero fun _ => ?_
  split
  · exact Adds.throw _
  · exact Adds.pure _

/-- A parser that closes its record at the end, whatever it does in between. -/
theorem reading_adds {α : Type} {file : String} {slice : Slice} {f : Value → Prog α}
    (hf : ∀ record, AddsLedger (f record) (-Pi.single .valueClass 1 + -Pi.single .schema 1)) :
    AddsLedger (readRecord host file slice >>= f) (keeps .reader) :=
  ((readRecord_adds file slice).bind hf).congr (by rw [keeps]; abel)

theorem closing_adds {α : Type} (a : α) : AddsLedger (do closeRecord; pure a)
    (-Pi.single .valueClass 1 + -Pi.single .schema 1) :=
  closeRecord_adds.bind_zero fun _ => Adds.pure a

theorem parseAcknowledgement_adds (file : String) (slice : Slice) :
    AddsLedger (parseAcknowledgement host file slice) (keeps .reader) := by
  refine reading_adds fun record => closeRecord_adds.bind_zero fun _ => ?_
  exact Adds.ite (Adds.pure _) (Adds.pure _)

theorem parseArray_adds {L α : Type} {file field : String} {sizeofElem : Nat} {locals : L}
    {elem : Value → Libavro.Handle → Nat → L → α → Prog (L × α)} {slice : Slice} {out : OutPointers}
    {raw : Nat → α} {memory : Memory} (helem : ∀ record elems i l old, AddsLedger (elem record elems i l old) 0) :
    AddsLedger (parseArray host file field sizeofElem locals elem slice out raw memory)
      (keeps .reader) := by
  refine reading_adds fun record => Adds.ite (closing_adds _) ?_
  refine (xmalloc_adds _).zero_bind fun block => Adds.zero_bind (Adds.foldlM_zero ?_ _ _) fun _ =>
    closing_adds _
  exact fun _ i => (helem _ _ _ _ _).zero_bind fun _ => Adds.pure _

/-! ### The calls -/

theorem deref_adds (heap : Heap) (p : Addr) : AddsLedger (heap.deref p) 0 := by
  unfold Heap.deref
  split
  · exact Adds.pure _
  · exact Adds.throw _

theorem enVarsLoop_adds (heap : Heap) (i : Nat) (cells : List Addr) (st : LaunchFill) :
    AddsLedger (enVarsLoop host heap i cells st) 0 := by
  induction cells generalizing st with
  | nil => exact Adds.throw _
  | cons p rest ih =>
    unfold enVarsLoop
    exact Adds.ite (Adds.pure _) ((deref_adds heap p).zero_bind fun _ => ih _)

theorem fillLaunchRequest_adds (heap : Heap) (array : LaunchArray) (arraySize : Nat) (record : Value) :
    AddsLedger (fillLaunchRequest host heap array arraySize record) 0 := by
  refine Adds.zero_bind (Adds.foldlM_zero (fun st i => ?_) _ _) fun _ => Adds.pure _
  unfold fillLaunchContext
  split
  · exact Adds.throw _
  · refine (enVarsLoop_adds _ _ _ _).zero_bind fun _ => ?_
    exact (deref_adds _ _).zero_bind fun _ => (deref_adds _ _).zero_bind fun _ => Adds.pure _

theorem fillFinishRequest_adds (succeed : Bool) (diagnostics : Option CString) (record : Value) :
    AddsLedger (fillFinishRequest host succeed diagnostics record) 0 := by
  cases diagnostics with
  | none => exact Adds.throw _
  | some str => exact Adds.pure _

theorem buildSlice_adds {file unable : String} {fill : Value → Prog (Value × Unit)}
    (hfill : ∀ record, AddsLedger (fill record) 0) :
    AddsLedger (do let (slice, _) ← buildRequest host file unable fill; pure slice) (keeps .writer) :=
  (buildRequest_adds hfill).bind_zero fun _ => Adds.pure _

theorem Call.exec_adds (c : Call) : AddsLedger (c.exec host) (HamsterAvro.keeps c.stream) := by
  cases c with
  | buildAllocateRequest => exact (buildSlice_adds fun _ => Adds.pure _).bind_zero fun _ => Adds.pure _
  | buildLaunchRequest =>
    exact (buildRequest_adds (fillLaunchRequest_adds _ _ _)).bind_zero fun _ => Adds.pure _
  | buildHeartbeatRequest => exact (buildSlice_adds fun _ => Adds.pure _).bind_zero fun _ => Adds.pure _
  | buildRegisterRequest => exact (buildSlice_adds fun _ => Adds.pure _).bind_zero fun _ => Adds.pure _
  | buildFinishRequest =>
    exact (buildSlice_adds (fillFinishRequest_adds _ _)).bind_zero fun _ => Adds.pure _
  | buildHnpRequestWrapper => exact (buildSlice_adds fun _ => Adds.pure _).bind_zero fun _ => Adds.pure _
  | parseAllocateResponse =>
    exact (parseArray_adds fun _ _ _ _ _ => Adds.pure _).bind_zero fun _ => Adds.pure _
  | parseLaunchResponse =>
    exact (parseArray_adds fun _ _ _ _ _ => Adds.pure _).bind_zero fun _ => Adds.pure _
  | parseHeartbeatResponse =>
    exact (parseArray_adds fun _ _ _ _ _ => Adds.pure _).bind_zero fun _ => Adds.pure _
  | parseRegisterResponse => exact (parseAcknowledgement_adds _ _).bind_zero fun _ => Adds.pure _
  | parseFinishResponse => exact (parseAcknowledgement_adds _ _).bind_zero fun _ => Adds.pure _

theorem Owned.free_adds (thing : Owned) : AddsLedger thing.free 0 := by
  cases thing with
  | slice s => exact freeSliceBlocks_adds _ _
  | nodeResources p elems arraySize =>
    refine Adds.zero_bind (Adds.forM_zero (fun i => ?_) _) fun _ => freeIfSet_adds p
    split
    · exact Adds.throw _
    · exact freeIfSet_adds _
  | launchResponses p => exact freeIfSet_adds p
  | completedProcs p => exact freeIfSet_adds p

/-! ### Sessions -/

theorem Action.step_adds (owned : List Owned) (action : Action) :
    AddsLedger (Action.step host owned action) action.keeps := by
  cases action with
  | call c => exact (Call.exec_adds c).bind_zero fun _ => Adds.pure _
  | free i =>
    rw [Action.step]
    split
    · exact Adds.throw _
    · exact (Owned.free_adds _).bind_zero fun _ => Adds.pure _

/-- The ledger grows by what each action keeps. -/
theorem session_adds (actions : List Action) :
    AddsLedger (session host actions) (actions.map Action.keeps).sum :=
  Adds.foldlM Action.step_adds actions []

theorem keeps_value (c : Call) : HamsterAvro.keeps c.stream .value = 1 := by
  cases c <;> simp [HamsterAvro.keeps, Call.stream]

/-- A value is kept for each call. -/
theorem sum_keeps_value (actions : List Action) :
    (actions.map Action.keeps).sum .value = actions.countP (· matches .call _) := by
  induction actions with
  | nil => rfl
  | cons action actions ih =>
    rw [List.map_cons, List.sum_cons, Pi.add_apply, ih, List.countP_cons]
    cases action with
    | call c => simp [Action.keeps, keeps_value c, add_comm]
    | free i => simp [Action.keeps]

/-- A session from which everything owned was freed leaves the ledger as it was exactly when nothing was
called. -/
theorem session_ledger_eq {actions : List Action} {w w' : World}
    (hrun : (session host actions).run w = .ok ([], w')) :
    w'.ledger = w.ledger ↔ ∀ c, .call c ∉ actions := by
  have hledger : w'.ledger = w.ledger + (actions.map Action.keeps).sum := (session_adds actions).of_run hrun
  rw [hledger, add_eq_left]
  constructor
  · intro hsum c hc
    have hcount := sum_keeps_value actions
    rw [hsum, Pi.zero_apply] at hcount
    have := List.countP_pos_iff (p := (· matches .call _)).mpr ⟨_, hc, rfl⟩
    omega
  · intro hcalls
    refine List.sum_eq_zero fun δ hδ => ?_
    obtain ⟨action, haction, rfl⟩ := List.mem_map.mp hδ
    cases action with
    | call c => exact absurd haction (hcalls c)
    | free i => rfl

end effects

theorem session_heartbeat_returns :
    ∃ w', (session Host.standard [.call .buildHeartbeatRequest, .free 0]).run World.initial =
      .ok ([], w') :=
  ⟨_, rfl⟩

theorem session_ledger_eq_heartbeat :
    ∃ w', (session Host.standard [.call .buildHeartbeatRequest, .free 0]).run World.initial = .ok ([], w') ∧
      ¬ w'.ledger = World.initial.ledger := by
  obtain ⟨w', hrun⟩ := session_heartbeat_returns
  exact ⟨w', hrun, fun h => (session_ledger_eq hrun).mp h .buildHeartbeatRequest List.mem_cons_self⟩

/-- A heartbeat whose slice is freed leaves a value and a writer behind. -/
theorem session_leaks_heartbeat :
    ∃ w', (session Host.standard [.call .buildHeartbeatRequest, .free 0]).run World.initial = .ok ([], w') ∧
      w'.ledger ≠ World.initial.ledger := by
  obtain ⟨w', hrun⟩ := session_heartbeat_returns
  refine ⟨w', hrun, fun h => ?_⟩
  have hvalue := congrFun h .value
  rw [(session_adds _).of_run hrun] at hvalue
  exact absurd hvalue (by decide)

end HamsterAvro
