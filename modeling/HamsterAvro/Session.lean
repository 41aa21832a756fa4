import HamsterAvro.Answers

/-!
# Sessions do what their calls answer

A session as its caller sees it: what each call handed out, in order, and what is still owned. Any
sequence of calls and frees, from any state of the process, does what the answers of its calls say
(`dialogue_refines`): nothing that was called or freed before makes a difference to an answer. What it
owns at the end is what the session of `Exchange` owns (`session_eq_dialogue`), so that is known as well
(`session_refines`).
-/

namespace HamsterAvro
open HamsterAvro.Wire HamsterAvro.Avro HamsterAvro.C

/-! ## What the caller sees of a session -/

structure Dialogue where
  replies : List Reply
  owned : List Owned

section host
variable (host : Host)

def Action.advance (d : Dialogue) : Action → Prog Dialogue
  | .call c => do
    let reply ← c.reply host
    pure ⟨d.replies ++ [reply], d.owned ++ reply.owned⟩
  | .free i =>
    match d.owned[i]? with
    | none => throw .undefined
    | some thing => do
      thing.free
      pure ⟨d.replies, d.owned.eraseIdx i⟩

def dialogue (actions : List Action) : Prog Dialogue := actions.foldlM (Action.advance host) ⟨[], []⟩

end host

/-! ## The abstract side -/

/-- What is there to be freed after an answer. -/
def Answer.held : Answer → List Answer
  | .refused => []
  | answer => [answer]

/-- The answers so far, and those of them that were not freed. -/
structure Transcript where
  answers : List Answer
  held : List Answer
  deriving DecidableEq

def Action.answer (t : Transcript) : Action → Except Fault Transcript
  | .call c => do
    let answer ← c.answer
    pure ⟨t.answers ++ [answer], t.held ++ answer.held⟩
  | .free i => if i < t.held.length then pure ⟨t.answers, t.held.eraseIdx i⟩ else throw .undefined

def transcript (actions : List Action) : Except Fault Transcript := actions.foldlM Action.answer ⟨[], []⟩

/-! ## What one shows of the other -/

/-- The caller owns what was handed out with this answer. -/
def Owned.Is (thing : Owned) (answer : Answer) : Prop :=
  ∃ reply : Reply, reply.Shows answer ∧ reply.owned = [thing]

def Dialogue.Shows (d : Dialogue) (t : Transcript) : Prop :=
  List.Forall₂ Reply.Shows d.replies t.answers ∧ List.Forall₂ Owned.Is d.owned t.held

def Action.Placed : Action → Prop
  | .call c => c.Placed
  | .free _ => True

theorem Reply.Shows.owned_is {reply : Reply} {answer : Answer} (h : reply.Shows answer) :
    List.Forall₂ Owned.Is reply.owned answer.held := by
  have hown : ∀ thing, reply.owned = [thing] → Owned.Is thing answer := fun thing hthing =>
    ⟨reply, h, hthing⟩
  cases reply <;> cases answer <;> first
    | exact h.elim
    | exact .nil
    | exact .cons (hown _ rfl) .nil

theorem freeNodeResourceArray_returns {p : Addr} {elems : List NodeResource} {n : Nat}
    (hn : n ≤ elems.length) {w : World} :
    Returns (freeNodeResourceArray p elems n) w fun _ _ => True := by
  refine Returns.bind (Returns.forM (fun _ => True) trivial fun i hi w _ => ?_) fun _ _ _ =>
    freeIfSet_returns p
  rw [List.mem_range] at hi
  have hget : elems[i]? = some elems[i] := List.getElem?_eq_getElem (by omega)
  simp only [hget]
  exact freeIfSet_returns _

/-- The count the caller finds is that of the elements. -/
theorem ArrayOut.Returned.count_eq {α β : Type} {P : β → α → Prop} {xs : List β} {out : OutPointers}
    {res : ArrayOut α} (h : res.Returned P xs out) : res.count out = res.elems.length := by
  unfold ArrayOut.count
  rw [h.1, Int.toNat_natCast, h.forall₂_elems.length_eq]

/-- What was handed out can be freed. -/
theorem Owned.Is.free_returns {thing : Owned} {answer : Answer} (h : thing.Is answer) (w : World) :
    Returns thing.free w fun _ _ => True := by
  obtain ⟨reply, hshows, howned⟩ := h
  have hslice (s : Slice) : Returns (freeSlice s) w fun _ _ => True :=
    (freeIfSet_returns s.buffer).bind fun _ _ _ => freeIfSet_returns s.self
  cases reply with
  | slice s =>
    obtain rfl := List.singleton_inj.mp howned
    exact hslice s
  | launchRequest s array =>
    obtain rfl := List.singleton_inj.mp howned
    exact hslice s
  | nodeResources out res =>
    obtain rfl := List.singleton_inj.mp howned
    cases answer with
    | nodeResources nodes =>
      have hres : res.Returned (fun node x => x.seen = node ∧ x.Readable) nodes out := hshows
      exact freeNodeResourceArray_returns hres.count_eq.le
    | _ => exact hshows.elim
  | launchResponses out res =>
    obtain rfl := List.singleton_inj.mp howned
    exact freeIfSet_returns _
  | completedProcs out res =>
    obtain rfl := List.singleton_inj.mp howned
    exact freeIfSet_returns _
  | status result => cases howned

/-! ## Whole sessions -/

theorem forall₂_eraseIdx {α β : Type} {R : α → β → Prop} {xs : List α} {ys : List β}
    (h : List.Forall₂ R xs ys) (i : Nat) : List.Forall₂ R (xs.eraseIdx i) (ys.eraseIdx i) := by
  induction h generalizing i with
  | nil => exact .nil
  | cons hxy hrest ih =>
    cases i with
    | zero => exact hrest
    | succ i => exact .cons hxy (ih i)

/-- The same session, with the replies forgotten. -/
theorem session_eq_dialogue (host : Host) (actions : List Action) :
    session host actions = Dialogue.owned <$> dialogue host actions := by
  have hstep (d : Dialogue) (action : Action) :
      Action.step host d.owned action = Dialogue.owned <$> action.advance host d := by
    cases action with
    | call c => simp [Action.step, Action.advance, Call.exec_eq]
    | free i =>
      cases hthing : d.owned[i]? with
      | none =>
        simp only [Action.step, Action.advance, hthing]
        rfl
      | some thing => simp [Action.step, Action.advance, hthing]
  have hrun (d : Dialogue) : actions.foldlM (Action.step host) d.owned =
      Dialogue.owned <$> actions.foldlM (Action.advance host) d := by
    induction actions generalizing d with
    | nil => simp
    | cons action actions ih =>
      rw [List.foldlM_cons, List.foldlM_cons, hstep, map_bind, bind_map_left]
      exact bind_congr fun d' => ih d'
  exact hrun ⟨[], []⟩

section refines
variable {host : Host} (hlib : host.lib.Accessors) (hfiles : host.Installed)
  (hmem : host.MallocSucceeds) (hwrites : host.lib.WritesFormat) (hreads : host.lib.ReadsExactly)
include hlib hfiles hmem hwrites hreads

theorem Action.advance_refines {action : Action} (hplaced : action.Placed) {d : Dialogue} {t : Transcript}
    (h : d.Shows t) : Refines Halt.Is (action.advance host d) Dialogue.Shows (action.answer t) := by
  obtain ⟨hreplies, howned⟩ := h
  cases action with
  | call c =>
    refine (Call.reply_refines hlib hfiles hmem hwrites hreads hplaced).bind fun reply answer hreply => ?_
    exact Refines.pure ⟨List.rel_append hreplies (.cons hreply .nil),
      List.rel_append howned hreply.owned_is⟩
  | free i =>
    have hlen := howned.length_eq
    unfold Action.advance Action.answer
    by_cases hi : i < t.held.length
    · have hthing : d.owned[i]? = some d.owned[i] := List.getElem?_eq_getElem (by omega)
      have hkept : Owned.Is d.owned[i] t.held[i] := howned.get (by omega) hi
      simp only [hthing, if_pos hi]
      intro w
      refine (hkept.free_returns w).bind fun _ _ _ => ?_
      exact Returns.pure ⟨hreplies, forall₂_eraseIdx howned i⟩
    · have hnone : d.owned[i]? = none := List.getElem?_eq_none (by omega)
      simp only [hnone, if_neg hi]
      exact fun w => Stops.throw rfl

/-- From any answers that the replies so far show. -/
theorem Dialogue.Shows.run_refines {actions : List Action} (hplaced : ∀ action ∈ actions, action.Placed)
    {d : Dialogue} {t : Transcript} (h : d.Shows t) :
    Refines Halt.Is (actions.foldlM (Action.advance host) d) Dialogue.Shows
      (actions.foldlM Action.answer t) :=
  Refines.foldlM (fun action haction _ _ h =>
    Action.advance_refines hlib hfiles hmem hwrites hreads (hplaced action haction) h) h

/-- A session does what the answers of its calls say. -/
theorem dialogue_refines {actions : List Action} (hplaced : ∀ action ∈ actions, action.Placed) :
    Refines Halt.Is (dialogue host actions) Dialogue.Shows (transcript actions) :=
  Dialogue.Shows.run_refines hlib hfiles hmem hwrites hreads hplaced ⟨.nil, .nil⟩

/-- The same of what a session owns: the calls made and the things freed decide it, and whether the session
comes to its end. -/
theorem session_refines {actions : List Action} (hplaced : ∀ action ∈ actions, action.Placed) :
    Refines Halt.Is (session host actions) (List.Forall₂ Owned.Is)
      (Transcript.held <$> transcript actions) := by
  rw [session_eq_dialogue]
  have hrun := Dialogue.Shows.run_refines hlib hfiles hmem hwrites hreads hplaced
    (d := ⟨[], []⟩) (t := ⟨[], []⟩) ⟨.nil, .nil⟩
  exact hrun.map fun _ _ h => h.2

end refines

/-! ### One of them, on the standard host -/

def sampleActions : List Action :=
  [.call .buildHeartbeatRequest,
   .call (.parseLaunchResponse splitResponse sampleOut (fun _ => ⟨false, ⟨0, 0⟩⟩) fun _ => 0), .free 0,
   .call (.parseRegisterResponse emptyResponse)]

/-- The request is freed, the array is not, and the acknowledgement is refused. -/
theorem dialogue_refines_sample :
    transcript sampleActions =
      .ok ⟨[.slice [], .launchResponses sampleResults, .refused], [.launchResponses sampleResults]⟩ ∧
    Returns (dialogue Host.standard sampleActions) World.initial fun d _ =>
      d.Shows ⟨[.slice [], .launchResponses sampleResults, .refused], [.launchResponses sampleResults]⟩ := by
  have htranscript : transcript sampleActions =
      .ok ⟨[.slice [], .launchResponses sampleResults, .refused], [.launchResponses sampleResults]⟩ := by
    decide +kernel
  have hplaced : ∀ action ∈ sampleActions, action.Placed := by
    simp [sampleActions, Action.Placed, Call.Placed, sampleOut_disjoint]
  have hrefines := dialogue_refines Libavro.generic_accessors Host.standard_installed
    Host.standard_mallocSucceeds Libavro.generic_writesFormat Libavro.generic_readsExactly hplaced
  rw [htranscript] at hrefines
  exact ⟨htranscript, hrefines World.initial⟩

end HamsterAvro
