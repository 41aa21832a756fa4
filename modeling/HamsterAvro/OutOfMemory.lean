import HamsterAvro.Session

/-!
# Where `malloc` may fail

A session on any host does what it does where there is always memory, or the process exits with the
message of `xmalloc` (`dialogue_reliable`); nothing is handed out by halves. So the answers of its calls
decide what a session does with any `malloc`, as long as it does not exit for that reason
(`dialogue_outOfMemory`).
-/

namespace HamsterAvro
open HamsterAvro.Wire HamsterAvro.Avro HamsterAvro.C

/-- The host with memory for every request. -/
def Host.reliable (host : Host) : Host where
  lib := host.lib
  fopen := host.fopen
  malloc k size := if host.malloc k size = 0 then 1 else host.malloc k size
  malloc_lt k size := by
    have := host.malloc_lt k size
    split <;> omega

theorem Host.reliable_mallocSucceeds (host : Host) : host.reliable.MallocSucceeds := by
  intro k size
  simp only [Host.reliable]
  split <;> omega

def Halt.OutOfMemory (halt : Halt) : Prop := halt = .exit "malloc failed."

/-- A program of the host does the same where there is memory for every request. -/
abbrev SameOrOutOfMemory {α : Type} (p q : Prog α) : Prop := SameOr Halt.OutOfMemory p q

section host
variable {host : Host}

theorem xmalloc_sameOr (size : Nat) :
    SameOrOutOfMemory (xmalloc host size) (xmalloc host.reliable size) := by
  intro w
  by_cases hnull : host.malloc w.allocs size = 0
  · right
    exact ⟨_, by rw [xmalloc_run, if_pos hnull], rfl⟩
  · left
    have hmalloc : host.reliable.malloc w.allocs size = host.malloc w.allocs size := if_neg hnull
    rw [xmalloc_run, xmalloc_run, hmalloc]

theorem initSchema_sameOr (filename : String) :
    SameOrOutOfMemory (initSchema host filename) (initSchema host.reliable filename) := by
  have hread : SameOrOutOfMemory (readFileToSlice host filename) (readFileToSlice host.reliable filename) := by
    have hfopen : host.reliable.fopen filename = host.fopen filename := rfl
    unfold readFileToSlice
    rw [hfopen]
    cases host.fopen filename with
    | none => exact .refl _
    | some file => exact (xmalloc_sameOr _).bind fun _ => (xmalloc_sameOr _).bind fun _ => .refl _
  exact hread.bind fun _ => .refl _

theorem newRecord_sameOr (file : String) :
    SameOrOutOfMemory (newRecord host file) (newRecord host.reliable file) :=
  (initSchema_sameOr _).bind fun _ => .refl _

theorem buildRequest_sameOr {β : Type} {file unable : String} {fill : Value → Prog (Value × β)} :
    SameOrOutOfMemory (buildRequest host file unable fill) (buildRequest host.reliable file unable fill) := by
  refine (newRecord_sameOr file).bind fun out => ?_
  refine (SameOr.refl (fill out.2)).bind fun filled => ?_
  refine (SameOr.refl (acquire .writer)).bind fun _ => ?_
  have hlib : host.reliable.lib = host.lib := rfl
  rw [hlib]
  cases host.lib.valueWrite bufferSize filled.1 with
  | none => exact .refl _
  | some buf =>
    refine (SameOr.refl closeRecord).bind fun _ => ?_
    exact (xmalloc_sameOr _).bind fun self => (xmalloc_sameOr _).bind fun buffer => .refl _

theorem readRecord_sameOr (file : String) (slice : Slice) :
    SameOrOutOfMemory (readRecord host file slice) (readRecord host.reliable file slice) :=
  (newRecord_sameOr file).bind fun _ => .refl _

theorem parseAcknowledgement_sameOr (file : String) (slice : Slice) :
    SameOrOutOfMemory (parseAcknowledgement host file slice)
      (parseAcknowledgement host.reliable file slice) :=
  (readRecord_sameOr file slice).bind fun _ => .refl _

theorem parseArray_sameOr {L α : Type} {file field : String} {sizeofElem : Nat} {locals : L}
    {elem : Value → Libavro.Handle → Nat → L → α → Prog (L × α)} {slice : Slice} {out : OutPointers}
    {raw : Nat → α} {memory : Memory} :
    SameOrOutOfMemory (parseArray host file field sizeofElem locals elem slice out raw memory)
      (parseArray host.reliable file field sizeofElem locals elem slice out raw memory) := by
  refine (readRecord_sameOr file slice).bind fun record => ?_
  apply SameOr.ite (.refl _)
  exact (xmalloc_sameOr _).bind fun _ => .refl _

theorem enVarsLoop_reliable (heap : Heap) (i : Nat) (cells : List Addr) (st : LaunchFill) :
    enVarsLoop host.reliable heap i cells st = enVarsLoop host heap i cells st := by
  induction cells generalizing st with
  | nil => rfl
  | cons p rest ih =>
    unfold enVarsLoop
    split
    · rfl
    · exact bind_congr fun str => ih _

theorem buildLaunchRequest_sameOr (heap : Heap) (array : LaunchArray) (arraySize : Nat) :
    SameOrOutOfMemory (buildLaunchRequest host heap array arraySize)
      (buildLaunchRequest host.reliable heap array arraySize) := by
  have hfill : fillLaunchContext host.reliable heap = fillLaunchContext host heap := by
    funext launchContextsValue st i
    unfold fillLaunchContext
    cases st.elems[i]? with
    | none => rfl
    | some ctx =>
      simp only [enVarsLoop_reliable]
      rfl
  unfold buildLaunchRequest fillLaunchRequest
  rw [hfill]
  exact buildRequest_sameOr

theorem Call.reply_sameOr (c : Call) : SameOrOutOfMemory (c.reply host) (c.reply host.reliable) := by
  cases c with
  | buildLaunchRequest => exact (buildLaunchRequest_sameOr _ _ _).map _
  | buildAllocateRequest => exact (buildRequest_sameOr.bind fun _ => .refl _).map _
  | buildHeartbeatRequest => exact (buildRequest_sameOr.bind fun _ => .refl _).map _
  | buildRegisterRequest => exact (buildRequest_sameOr.bind fun _ => .refl _).map _
  | buildFinishRequest => exact (buildRequest_sameOr.bind fun _ => .refl _).map _
  | buildHnpRequestWrapper => exact (buildRequest_sameOr.bind fun _ => .refl _).map _
  | parseAllocateResponse => exact parseArray_sameOr.map _
  | parseLaunchResponse => exact parseArray_sameOr.map _
  | parseHeartbeatResponse => exact parseArray_sameOr.map _
  | parseRegisterResponse => exact (parseAcknowledgement_sameOr _ _).map _
  | parseFinishResponse => exact (parseAcknowledgement_sameOr _ _).map _

/-- Whatever libavro, the files and `malloc` do. -/
theorem dialogue_reliable (actions : List Action) :
    SameOrOutOfMemory (dialogue host actions) (dialogue host.reliable actions) := by
  refine SameOr.foldlM (fun d action => ?_) actions _
  cases action with
  | call c => exact (Call.reply_sameOr c).bind fun _ => .refl _
  | free i => exact .refl _

/-- Of a host of which no memory is promised: a session exits for want of it, or does what the answers of
its calls say. -/
theorem dialogue_outOfMemory (hlib : host.lib.Accessors) (hfiles : host.Installed)
    (hwrites : host.lib.WritesFormat) (hreads : host.lib.ReadsExactly) {actions : List Action}
    (hplaced : ∀ action ∈ actions, action.Placed) (w : World) :
    Stops (dialogue host actions) w Halt.OutOfMemory ∨
    (∃ t, transcript actions = .ok t ∧ Returns (dialogue host actions) w fun d _ => d.Shows t) ∨
    (∃ fault, transcript actions = .error fault ∧ Stops (dialogue host actions) w fun e => e.Is fault) := by
  have hlib' : host.reliable.lib.Accessors := hlib
  have hrefines : Refines Halt.Is (dialogue host.reliable actions) Dialogue.Shows (transcript actions) :=
    Dialogue.Shows.run_refines hlib' hfiles host.reliable_mallocSucceeds hwrites hreads hplaced
      ⟨.nil, .nil⟩
  have hsame : SameOrOutOfMemory (dialogue host actions) (dialogue host.reliable actions) :=
    dialogue_reliable actions
  cases htranscript : transcript actions with
  | error fault =>
    rw [htranscript] at hrefines
    rcases hsame.stops (hrefines w) with hstops | hmemory
    · exact .inr (.inr ⟨fault, rfl, hstops⟩)
    · exact .inl hmemory
  | ok t =>
    rw [htranscript] at hrefines
    rcases hsame.returns (hrefines w) with hreturns | hmemory
    · exact .inr (.inl ⟨t, rfl, hreturns⟩)
    · exact .inl hmemory

end host

/-- The standard host with no memory at all. -/
def Host.starved : Host where
  lib := Host.standard.lib
  fopen := Host.standard.fopen
  malloc _ _ := 0
  malloc_lt _ _ := by omega

theorem Host.starved_installed : Host.starved.Installed := fun entry hentry =>
  Host.standard_installed entry hentry

/-- It exits at the first request. -/
theorem dialogue_outOfMemory_sample :
    Stops (dialogue Host.starved [.call .buildHeartbeatRequest]) World.initial Halt.OutOfMemory := by
  have hplaced : ∀ action ∈ [Action.call .buildHeartbeatRequest], action.Placed := by
    simp [Action.Placed, Call.Placed]
  have hlib : Host.starved.lib.Accessors := Libavro.generic_accessors
  rcases dialogue_outOfMemory hlib Host.starved_installed Libavro.generic_writesFormat
    Libavro.generic_readsExactly hplaced World.initial with hmemory | hreturns | hstops
  · exact hmemory
  · obtain ⟨t, -, d, w, hrun, -⟩ := hreturns
    cases hrun
  · obtain ⟨fault, htranscript, -⟩ := hstops
    cases htranscript

end HamsterAvro
