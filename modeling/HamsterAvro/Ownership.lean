import HamsterAvro.C.Account
import HamsterAvro.Session
import Mathlib.Data.List.Perm.Basic
import Mathlib.Algebra.BigOperators.Group.Multiset.Basic

/-!
# The blocks of a session

Every block that `malloc` returned during a session was given to `free`, or is owned by the caller: once,
and nothing else is, but for the host names of the parsed node resources, which are buffers of libavro
(`dialogue_blocks`). So a session that parses no allocate response and frees what it owns gives back
exactly what it was given (`dialogue_frees`). Nothing is assumed of the host.
-/

namespace HamsterAvro
open HamsterAvro.Wire HamsterAvro.Avro HamsterAvro.C

/-- What `malloc` returned to the calls from `a` to `b`. -/
def Host.Granted (host : Host) (a b : Nat) (blocks : List Addr) : Prop :=
  ∃ n, b = a + n ∧
    List.Forall₂ (fun k p => p ≠ 0 ∧ ∃ size, p = host.malloc k size) (List.range' a n) blocks

theorem Host.Granted.append {host : Host} {a b c : Nat} {ps qs : List Addr} (h : host.Granted a b ps)
    (h' : host.Granted b c qs) : host.Granted a c (ps ++ qs) := by
  obtain ⟨m, rfl, hps⟩ := h
  obtain ⟨n, rfl, hqs⟩ := h'
  refine ⟨m + n, by omega, ?_⟩
  rw [← List.range'_append_1]
  exact List.rel_append hps hqs

def heapAccount (host : Host) : Account World (Multiset Addr) where
  given w w' m := ∃ blocks, host.Granted w.allocs w'.allocs blocks ∧ m = blocks
  back w := w.frees
  given_self w := ⟨[], ⟨0, rfl, .nil⟩, rfl⟩
  given_add _ _ _ _ _ h h' := by
    obtain ⟨ps, hps, rfl⟩ := h
    obtain ⟨qs, hqs, rfl⟩ := h'
    exact ⟨ps ++ qs, hps.append hqs, Multiset.coe_add _ _⟩

/-! ## What is owned -/

/-- A pointer as a block that is to be freed, or as null. -/
def blockOf (p : Addr) : Multiset Addr := if p = 0 then 0 else {p}

def Slice.blocks (slice : Slice) : Multiset Addr := blockOf slice.self + blockOf slice.buffer

/-- The host names of the first `arraySize` node resources. -/
def hostNames (elems : List NodeResource) (arraySize : Nat) : Multiset Addr :=
  ((elems.take arraySize).map fun node => blockOf node.hostName.addr).sum

/-- What freeing a thing gives to `free`. -/
def Owned.blocks : Owned → Multiset Addr
  | .slice s => s.blocks
  | .nodeResources p elems arraySize => hostNames elems arraySize + blockOf p
  | .launchResponses p => blockOf p
  | .completedProcs p => blockOf p

/-- What of a reply was allocated for it. -/
def Reply.blocks : Reply → Multiset Addr
  | .slice s => s.blocks
  | .launchRequest s _ => s.blocks
  | .nodeResources _ res => blockOf res.pointer
  | .launchResponses _ res => blockOf res.pointer
  | .completedProcs _ res => blockOf res.pointer
  | .status _ => 0

/-- What of it is freed though libavro has it. -/
def Reply.names : Reply → Multiset Addr
  | .nodeResources out res => hostNames res.elems (res.count out)
  | _ => 0

def ownedBlocks (owned : List Owned) : Multiset Addr := (owned.map Owned.blocks).sum

theorem Reply.owned_blocks (reply : Reply) : ownedBlocks reply.owned = reply.names + reply.blocks := by
  cases reply <;> simp [ownedBlocks, Reply.owned, Owned.blocks, Reply.names, Reply.blocks]

theorem ownedBlocks_append (a b : List Owned) : ownedBlocks (a ++ b) = ownedBlocks a + ownedBlocks b := by
  unfold ownedBlocks
  rw [List.map_append, List.sum_append]

theorem ownedBlocks_eraseIdx {owned : List Owned} {i : Nat} {thing : Owned} (h : owned[i]? = some thing) :
    thing.blocks + ownedBlocks (owned.eraseIdx i) = ownedBlocks owned := by
  obtain ⟨hi, rfl⟩ := List.getElem?_eq_some_iff.mp h
  unfold ownedBlocks
  rw [← List.sum_cons, ← List.map_cons]
  exact ((List.getElem_cons_eraseIdx_perm hi).map Owned.blocks).sum_eq

section host
variable {host : Host}

abbrev Holds {α : Type} (host : Host) (pre : Multiset Addr) (p : Prog α) (post : α → Multiset Addr) : Prop :=
  (heapAccount host).Balanced pre p post

/-! ## The primitives -/

theorem modify_holds {f : World → World} (hallocs : ∀ w, (f w).allocs = w.allocs)
    (hfrees : ∀ w, (f w).frees = w.frees) (pre : Multiset Addr) :
    Holds host pre (modify f) fun _ => pre := by
  rintro w _ _ ⟨⟩
  refine ⟨0, ⟨[], ⟨0, hallocs w, .nil⟩, rfl⟩, ?_⟩
  show ((f w).frees : Multiset Addr) + pre = w.frees + pre + 0
  rw [hfrees, add_zero]

theorem acquire_holds (object : LibObject) (pre : Multiset Addr) :
    Holds host pre (acquire object) fun _ => pre := by
  unfold acquire
  exact modify_holds (by intro w; rfl) (by intro w; rfl) pre

theorem release_holds (object : LibObject) (pre : Multiset Addr) :
    Holds host pre (release object) fun _ => pre := by
  unfold release
  exact modify_holds (by intro w; rfl) (by intro w; rfl) pre

theorem closeRecord_holds (pre : Multiset Addr) : Holds host pre closeRecord fun _ => pre :=
  .bind (release_holds .valueClass pre) fun _ => release_holds .schema pre

theorem freeIfSet_holds (p : Addr) : Holds host (blockOf p) (freeIfSet p) fun _ => 0 := by
  unfold freeIfSet blockOf
  split
  · exact .pure _
  · rintro w _ _ ⟨⟩
    refine ⟨0, ⟨[], ⟨0, rfl, .nil⟩, rfl⟩, ?_⟩
    show ((w.frees ++ [p] : List Addr) : Multiset Addr) + 0 = w.frees + {p} + 0
    rw [add_zero, add_zero, ← Multiset.coe_add, Multiset.coe_singleton]

theorem freeSliceBlocks_holds (self buffer : Addr) :
    Holds host (blockOf self + blockOf buffer) (freeSliceBlocks self buffer) fun _ => 0 := by
  refine .bind (((freeIfSet_holds buffer).frame (blockOf self)).congr (add_comm _ _) fun _ => zero_add _)
    fun _ => freeIfSet_holds self

theorem xmalloc_holds (size : Nat) : Holds host 0 (xmalloc host size) blockOf := by
  intro w p w' hrun
  rw [xmalloc_run] at hrun
  split at hrun
  · cases hrun
  · rename_i hnull
    cases hrun
    refine ⟨{host.malloc w.allocs size}, ⟨[host.malloc w.allocs size], ⟨1, rfl, ?_⟩, rfl⟩, ?_⟩
    · exact .cons ⟨hnull, size, rfl⟩ .nil
    · show (w.frees : Multiset Addr) + blockOf (host.malloc w.allocs size) = w.frees + 0 + _
      rw [blockOf, if_neg hnull, add_zero]

/-- Two requests in turn. -/
theorem xmalloc_pair_holds {α : Type} {size size' : Nat} {f : Addr → Addr → Prog α}
    {post : α → Multiset Addr} (hf : ∀ p q, Holds host (blockOf p + blockOf q) (f p q) post) :
    Holds host 0 (do let p ← xmalloc host size; let q ← xmalloc host size'; f p q) post := by
  refine .bind (xmalloc_holds size) fun p => ?_
  refine .bind (((xmalloc_holds size').frame (blockOf p)).congr (zero_add _) fun q => add_comm _ _)
    fun q => hf p q

/-! ## The common part -/

/-- A schema file leaves nothing behind. -/
theorem initSchema_holds (filename : String) : Holds host 0 (initSchema host filename) fun _ => 0 := by
  have hread : Holds host 0 (readFileToSlice host filename) fun out => blockOf out.1 + blockOf out.2.1 := by
    unfold readFileToSlice
    split
    · exact .throw _
    · exact xmalloc_pair_holds fun self buffer => .pure _
  refine hread.bind fun out => ?_
  obtain ⟨self, buffer, file⟩ := out
  dsimp only
  cases file.schema with
  | none => exact .throw _
  | some schema =>
    refine .bind (acquire_holds .schema _) fun _ => ?_
    exact .bind (freeSliceBlocks_holds self buffer) fun _ => .pure _

theorem newRecord_holds (file : String) : Holds host 0 (newRecord host file) fun _ => 0 :=
  .bind (initSchema_holds _) fun _ => .bind (acquire_holds _ 0) fun _ => .bind (acquire_holds _ 0) fun _ =>
    .pure _

theorem buildRequest_holds {β : Type} {file unable : String} {fill : Value → Prog (Value × β)}
    (hfill : ∀ record, Holds host 0 (fill record) fun _ => 0) :
    Holds host 0 (buildRequest host file unable fill) fun out => out.1.blocks := by
  refine .bind (newRecord_holds file) fun out => ?_
  refine .bind (hfill out.2) fun filled => ?_
  refine .bind (acquire_holds .writer 0) fun _ => ?_
  split
  · exact .throw _
  · refine .bind (closeRecord_holds 0) fun _ => ?_
    exact xmalloc_pair_holds fun self buffer => .pure _

theorem buildSlice_holds {file unable : String} {fill : Value → Prog (Value × Unit)}
    (hfill : ∀ record, Holds host 0 (fill record) fun _ => 0) :
    Holds host 0 (do let (slice, _) ← buildRequest host file unable fill; pure slice) Slice.blocks :=
  .bind (buildRequest_holds hfill) fun _ => .pure _

theorem readRecord_holds (file : String) (slice : Slice) :
    Holds host 0 (readRecord host file slice) fun _ => 0 := by
  refine .bind (newRecord_holds file) fun out => .bind (acquire_holds .reader 0) fun _ => ?_
  split
  · exact .throw _
  · exact .pure _

theorem parseAcknowledgement_holds (file : String) (slice : Slice) :
    Holds host 0 (parseAcknowledgement host file slice) fun _ => 0 :=
  .bind (readRecord_holds file slice) fun _ => .bind (closeRecord_holds 0) fun _ => .ite (.pure _) (.pure _)

theorem parseArray_holds_block {L α : Type} {file field : String} {sizeofElem : Nat} {locals : L}
    {elem : Value → Libavro.Handle → Nat → L → α → Prog (L × α)} {slice : Slice} {out : OutPointers}
    {raw : Nat → α} {memory : Memory}
    (helem : ∀ record elems i l old pre, Holds host pre (elem record elems i l old) fun _ => pre) :
    Holds host 0 (parseArray host file field sizeofElem locals elem slice out raw memory)
      fun res => blockOf res.pointer := by
  refine .bind (readRecord_holds file slice) fun record => ?_
  apply Account.Balanced.ite
  · exact .bind (closeRecord_holds 0) fun _ => .pure_of (if_pos rfl)
  · refine .bind (xmalloc_holds _) fun block => ?_
    refine .bind (.foldlM (fun _ => blockOf block) (fun st i => ?_) _ _) fun st => ?_
    · exact .bind (helem _ _ _ _ _ _) fun _ => .pure _
    · exact .bind (closeRecord_holds _) fun _ => .pure_of rfl

/-! ## The calls -/

theorem deref_holds (heap : Heap) (p : Addr) : Holds host 0 (heap.deref p) fun _ => 0 := by
  unfold Heap.deref
  split
  · exact .pure _
  · exact .throw _

theorem enVarsLoop_holds (heap : Heap) (i : Nat) (cells : List Addr) (st : LaunchFill) :
    Holds host 0 (enVarsLoop host heap i cells st) fun _ => 0 := by
  induction cells generalizing st with
  | nil => exact .throw _
  | cons p rest ih =>
    unfold enVarsLoop
    exact .ite (.pure _) (.bind (deref_holds heap p) fun _ => ih _)

theorem fillLaunchRequest_holds (heap : Heap) (array : LaunchArray) (arraySize : Nat) (record : Value) :
    Holds host 0 (fillLaunchRequest host heap array arraySize record) fun _ => 0 := by
  refine .bind (.foldlM (fun _ => 0) (fun st i => ?_) _ _) fun _ => .pure _
  unfold fillLaunchContext
  split
  · exact .throw _
  · refine .bind (enVarsLoop_holds _ _ _ _) fun _ => ?_
    exact .bind (deref_holds _ _) fun _ => .bind (deref_holds _ _) fun _ => .pure _

theorem fillFinishRequest_holds (succeed : Bool) (diagnostics : Option CString) (record : Value) :
    Holds host 0 (fillFinishRequest host succeed diagnostics record) fun _ => 0 := by
  cases diagnostics with
  | none => exact .throw _
  | some str => exact .pure _

theorem Call.reply_holds (c : Call) : Holds host 0 (c.reply host) Reply.blocks := by
  cases c with
  | buildAllocateRequest => exact (buildSlice_holds fun _ => .pure _).map fun _ => rfl
  | buildLaunchRequest => exact (buildRequest_holds (fillLaunchRequest_holds _ _ _)).map fun _ => rfl
  | buildHeartbeatRequest => exact (buildSlice_holds fun _ => .pure _).map fun _ => rfl
  | buildRegisterRequest => exact (buildSlice_holds fun _ => .pure _).map fun _ => rfl
  | buildFinishRequest => exact (buildSlice_holds (fillFinishRequest_holds _ _)).map fun _ => rfl
  | buildHnpRequestWrapper => exact (buildSlice_holds fun _ => .pure _).map fun _ => rfl
  | parseAllocateResponse => exact (parseArray_holds_block fun _ _ _ _ _ _ => .pure _).map fun _ => rfl
  | parseLaunchResponse => exact (parseArray_holds_block fun _ _ _ _ _ _ => .pure _).map fun _ => rfl
  | parseHeartbeatResponse => exact (parseArray_holds_block fun _ _ _ _ _ _ => .pure _).map fun _ => rfl
  | parseRegisterResponse => exact (parseAcknowledgement_holds _ _).map fun _ => rfl
  | parseFinishResponse => exact (parseAcknowledgement_holds _ _).map fun _ => rfl

/-! ## The frees -/

theorem hostNames_succ (elems : List NodeResource) (n : Nat) : hostNames elems (n + 1) =
    hostNames elems n + (elems[n]?.map fun node => blockOf node.hostName.addr).getD 0 := by
  unfold hostNames
  rw [List.take_add_one, List.map_append, List.sum_append]
  cases elems[n]? <;> simp

theorem hostNames_eq (elems : List NodeResource) (n : Nat) : hostNames elems n =
    ((List.range n).map fun i => (elems[i]?.map fun node => blockOf node.hostName.addr).getD 0).sum := by
  induction n with
  | zero => rfl
  | succ n ih => rw [hostNames_succ, ih, List.range_succ, List.map_append, List.sum_append,
      List.map_singleton, List.sum_singleton]

theorem Owned.free_holds (thing : Owned) : Holds host thing.blocks thing.free fun _ => 0 := by
  cases thing with
  | slice s => exact freeSliceBlocks_holds _ _
  | nodeResources p elems arraySize =>
    show Holds host (hostNames elems arraySize + blockOf p) (freeNodeResourceArray p elems arraySize) _
    rw [hostNames_eq]
    refine .bind ((Account.Balanced.forM fun i _ => ?_).frame (blockOf p)) fun _ => ?_
    · cases hnode : elems[i]? with
      | none => exact .throw _
      | some node => exact freeIfSet_holds _
    · rw [zero_add]
      exact freeIfSet_holds p
  | launchResponses p => exact freeIfSet_holds p
  | completedProcs p => exact freeIfSet_holds p

/-! ## Sessions -/

/-- What was freed and what is owned are what was granted since `w`, and the names. -/
def Dialogue.Accounts (host : Host) (w : World) (d : Dialogue) (w' : World) : Prop :=
  ∃ granted, host.Granted w.allocs w'.allocs granted ∧
    (w'.frees : Multiset Addr) + ownedBlocks d.owned = w.frees + granted + (d.replies.map Reply.names).sum

theorem Dialogue.Accounts.step {w w' : World} {d : Dialogue} (h : d.Accounts host w w') (action : Action) :
    Ensures (action.advance host d) w' (Dialogue.Accounts host w) := by
  obtain ⟨granted, hgranted, heq⟩ := h
  cases action with
  | call c =>
    refine (Call.reply_holds c w').bind fun reply w'' hreply => Ensures.pure ?_
    obtain ⟨_, ⟨blocks, hblocks, rfl⟩, hbalance⟩ := hreply
    have hbalance : (w''.frees : Multiset Addr) + reply.blocks = w'.frees + 0 + blocks := hbalance
    refine ⟨granted ++ blocks, hgranted.append hblocks, ?_⟩
    rw [ownedBlocks_append, reply.owned_blocks, List.map_append, List.sum_append, List.map_singleton,
      List.sum_singleton, ← Multiset.coe_add]
    calc (w''.frees : Multiset Addr) + (ownedBlocks d.owned + (reply.names + reply.blocks))
        = w''.frees + reply.blocks + ownedBlocks d.owned + reply.names := by abel
      _ = w'.frees + ownedBlocks d.owned + blocks + reply.names := by rw [hbalance, add_zero]; abel
      _ = w.frees + (granted + blocks) + ((d.replies.map Reply.names).sum + reply.names) := by
        rw [heq]; abel
  | free i =>
    unfold Action.advance
    cases hthing : d.owned[i]? with
    | none =>
      simp only [hthing]
      exact Ensures.throw
    | some thing =>
      simp only [hthing]
      have hholds : Holds host thing.blocks thing.free fun _ => 0 := thing.free_holds
      refine (hholds w').bind fun _ w'' hfree => Ensures.pure ?_
      obtain ⟨_, ⟨blocks, hblocks, rfl⟩, hbalance⟩ := hfree
      have hbalance : (w''.frees : Multiset Addr) + 0 = w'.frees + thing.blocks + blocks := hbalance
      refine ⟨granted ++ blocks, hgranted.append hblocks, ?_⟩
      rw [← Multiset.coe_add]
      calc (w''.frees : Multiset Addr) + ownedBlocks (d.owned.eraseIdx i)
          = w'.frees + (thing.blocks + ownedBlocks (d.owned.eraseIdx i)) + blocks := by
            rw [add_zero] at hbalance
            rw [hbalance]
            abel
        _ = w.frees + (granted + blocks) + (d.replies.map Reply.names).sum := by
          rw [ownedBlocks_eraseIdx hthing, heq]
          abel

theorem dialogue_accounts (actions : List Action) (w : World) :
    Ensures (dialogue host actions) w (Dialogue.Accounts host w) := by
  have hstart : Dialogue.Accounts host w ⟨[], []⟩ w := ⟨[], ⟨0, rfl, .nil⟩, by simp [ownedBlocks]⟩
  exact Ensures.foldlM (Dialogue.Accounts host w) hstart fun action _ _ _ h => h.step action

/-- Every block that was granted was freed or is owned, once, and so are the names; and nothing else. -/
theorem dialogue_blocks {actions : List Action} {w w' : World} {d : Dialogue}
    (hrun : (dialogue host actions).run w = .ok (d, w')) : ∃ granted, host.Granted w.allocs w'.allocs granted ∧
      (w'.frees : Multiset Addr) + ownedBlocks d.owned =
        w.frees + granted + (d.replies.map Reply.names).sum :=
  dialogue_accounts actions w d w' hrun

/-- The replies to calls that parse no allocate response have no names. -/
def Action.Nameless : Action → Prop
  | .call (.parseAllocateResponse ..) => False
  | _ => True

theorem dialogue_nameless {actions : List Action} (hactions : ∀ action ∈ actions, action.Nameless)
    {w : World} :
    Ensures (dialogue host actions) w fun d _ => (d.replies.map Reply.names).sum = 0 := by
  refine Ensures.foldlM (fun (d : Dialogue) _ => (d.replies.map Reply.names).sum = 0) rfl
    fun action haction d w h => ?_
  have hnameless := hactions action haction
  cases action with
  | call c =>
    refine Ensures.bind (Q := fun reply _ => reply.names = 0) ?_ fun reply w' hreply => Ensures.pure ?_
    · cases c with
      | parseAllocateResponse => exact hnameless.elim
      | _ => exact Ensures.map (fun _ _ _ => trivial) fun _ _ _ => rfl
    · rw [List.map_append, List.sum_append, h, List.map_singleton, List.sum_singleton, hreply]
      rfl
  | free i =>
    unfold Action.advance
    cases hthing : d.owned[i]? with
    | none =>
      simp only [hthing]
      exact Ensures.throw
    | some thing =>
      simp only [hthing]
      exact Ensures.after fun _ _ => Ensures.pure h

/-- A session that frees what it owns gives back exactly what it was granted. -/
theorem dialogue_frees {actions : List Action} (hactions : ∀ action ∈ actions, action.Nameless)
    {w w' : World} {d : Dialogue} (hrun : (dialogue host actions).run w = .ok (d, w')) (howned : d.owned = []) :
    ∃ granted, host.Granted w.allocs w'.allocs granted ∧ w'.frees.Perm (w.frees ++ granted) := by
  obtain ⟨granted, hgranted, heq⟩ := dialogue_accounts actions w d w' hrun
  refine ⟨granted, hgranted, Multiset.coe_eq_coe.mp ?_⟩
  rw [howned, dialogue_nameless hactions d w' hrun] at heq
  simpa [ownedBlocks] using heq

end host

/-- A heartbeat whose slice is freed: the blocks of the schema file and of the slice. -/
theorem dialogue_blocks_sample :
    ∃ d w', (dialogue Host.standard [.call .buildHeartbeatRequest, .free 0]).run World.initial =
        .ok (d, w') ∧ d.owned = [] ∧
      ∃ granted, Host.standard.Granted World.initial.allocs w'.allocs granted ∧
        (w'.frees : Multiset Addr) + ownedBlocks d.owned =
          World.initial.frees + granted + (d.replies.map Reply.names).sum := by
  have hrun : ∃ d w', (dialogue Host.standard [.call .buildHeartbeatRequest, .free 0]).run World.initial =
      .ok (d, w') ∧ d.owned = [] := ⟨_, _, rfl, rfl⟩
  obtain ⟨d, w', hrun, howned⟩ := hrun
  exact ⟨d, w', hrun, howned, dialogue_blocks hrun⟩

end HamsterAvro
