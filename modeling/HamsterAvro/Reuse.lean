import HamsterAvro.Capacity

/-!
# Using a launch context array again

Building moves the environment cursors of the caller's array to their ends and does not move them back.
So the array shows empty environments from then on, a second request says so
(`buildTimes_readsOnly_iff`), and releasing the array after a build frees no environment string. Every
release returns, and none frees the environment vectors (`freeLaunchContextArray_perm_iff`).
-/

namespace HamsterAvro
open HamsterAvro.Wire HamsterAvro.Avro HamsterAvro.C

section host
variable (host : Host)

/-- `k` calls on the same array: the slices, and the array as it is left. -/
def buildTimes (heap : Heap) (arraySize : Nat) : Nat → LaunchArray → Prog (List Slice × LaunchArray)
  | 0, array => pure ([], array)
  | k + 1, array => do
    let (slice, array) ← buildLaunchRequest host heap array arraySize
    let (slices, array) ← buildTimes heap arraySize k array
    pure (slice :: slices, array)

end host

/-! ## The array after a build -/

def LaunchItem.withoutEnv (item : LaunchItem) : LaunchItem := { item with enVars := [] }

/-- What `k` builds write: after the first the environments are empty. -/
def launchRequests (items : List LaunchItem) : Nat → List Bytes
  | 0 => []
  | k + 1 => encode (launchRequestValue items) :: launchRequests (items.map LaunchItem.withoutEnv) k

theorem map_withoutEnv_of_empty {items : List LaunchItem} (hempty : ∀ item ∈ items, item.enVars = []) :
    items.map LaunchItem.withoutEnv = items := by
  have heq : ∀ item ∈ items, item.withoutEnv = item := by
    rintro ⟨enVars, args, hostName, procName⟩ hitem
    obtain rfl : enVars = [] := hempty _ hitem
    rfl
  rw [List.map_congr_left heq, List.map_id']

theorem launchRequests_of_empty {items : List LaunchItem} (hempty : ∀ item ∈ items, item.enVars = [])
    (k : Nat) : launchRequests items k = List.replicate k (encode (launchRequestValue items)) := by
  induction k with
  | zero => rfl
  | succ k ih => rw [launchRequests, map_withoutEnv_of_empty hempty, ih, List.replicate_succ]

theorem LaunchItem.size_withoutEnv_le (item : LaunchItem) : item.withoutEnv.size ≤ item.size := by
  have hpos := arraySize_pos (item.enVars.map fun str => countedSize str.bytes.length)
  simp only [LaunchItem.size, withoutEnv, List.map_nil, arraySize_nil]
  omega

theorem launchRequestSize_withoutEnv_le (items : List LaunchItem) :
    launchRequestSize (items.map LaunchItem.withoutEnv) ≤ launchRequestSize items := by
  unfold launchRequestSize
  rw [List.map_map]
  exact arraySize_map_le fun item _ => item.size_withoutEnv_le

theorem envLength_drop (cells : List Addr) : envLength (cells.drop (envLength cells)) = 0 := by
  induction cells with
  | nil => rfl
  | cons p rest ih =>
    by_cases hp : p = 0
    · rw [hp, envLength_null, List.drop_zero, envLength_null]
    · rw [envLength_cons hp, List.drop_succ_cons, ih]

theorem zero_mem_drop_envLength {cells : List Addr} (h : 0 ∈ cells) :
    0 ∈ cells.drop (envLength cells) := by
  induction cells with
  | nil => cases h
  | cons p rest ih =>
    by_cases hp : p = 0
    · rw [hp, envLength_null]
      exact List.mem_cons_self
    · rw [envLength_cons hp, List.drop_succ_cons]
      exact ih ((List.mem_cons.mp h).resolve_left (Ne.symm hp))

theorem Heap.cellsAt_skip (heap : Heap) (ctx : LaunchContext) (k : Nat) :
    heap.cellsAt (ctx.skip k).enVarsArray = (heap.cellsAt ctx.enVarsArray).drop k := by
  unfold Heap.cellsAt
  rw [List.drop_drop]
  rfl

/-- Past the strings there is the null pointer. -/
theorem Heap.envList_drop {heap : Heap} {cells : List Addr} {strs : List CString}
    (h : heap.envList cells = some strs) : heap.envList (cells.drop (envLength cells)) = some [] := by
  induction cells generalizing strs with
  | nil => cases h
  | cons p rest ih =>
    by_cases hp : p = 0
    · subst hp
      rfl
    · rw [envLength_cons hp, List.drop_succ_cons]
      simp only [Heap.envList, if_neg hp, Option.bind_eq_bind, Option.bind_eq_some_iff] at h
      obtain ⟨_, _, strs', hrest, _⟩ := h
      exact ih hrest

theorem Heap.envLength_eq {heap : Heap} {cells : List Addr} {strs : List CString}
    (h : heap.envList cells = some strs) : envLength cells = strs.length := by
  induction cells generalizing strs with
  | nil => cases h
  | cons p rest ih =>
    unfold Heap.envList at h
    by_cases hp : p = 0
    · rw [if_pos hp] at h
      obtain rfl : strs = [] := by simpa using h.symm
      rw [hp, envLength_null, List.length_nil]
    · rw [if_neg hp] at h
      simp only [Option.bind_eq_bind, Option.bind_eq_some_iff, Option.pure_def, Option.some.injEq] at h
      obtain ⟨str, _, strs', hrest, rfl⟩ := h
      rw [envLength_cons hp, ih hrest, List.length_cons]

section shows
variable {heap : Heap} {array : LaunchArray} {items : List LaunchItem}

theorem LaunchContext.view_exhaust {ctx : LaunchContext} {item : LaunchItem}
    (h : ctx.view heap = some item) : (ctx.exhaust heap).view heap = some item.withoutEnv := by
  obtain ⟨henv, hargs, hhost, hname⟩ := LaunchContext.view_eq_some.mp h
  refine LaunchContext.view_eq_some.mpr ⟨?_, hargs, hhost, hname⟩
  unfold LaunchContext.exhaust
  rw [Heap.cellsAt_skip]
  exact Heap.envList_drop henv

theorem LaunchArray.Shows.exhaust (h : array.Shows heap items) :
    (array.exhaust heap).Shows heap (items.map LaunchItem.withoutEnv) := by
  have hview : ∀ ctx ∈ array.elems, (ctx.exhaust heap).view heap =
      (ctx.view heap).map LaunchItem.withoutEnv := by
    intro ctx hctx
    have hmem : ctx.view heap ∈ items.map some := h ▸ List.mem_map_of_mem hctx
    obtain ⟨item, -, hitem⟩ := List.mem_map.mp hmem
    rw [← hitem, LaunchContext.view_exhaust hitem.symm, Option.map_some]
  calc (array.exhaust heap).elems.map (LaunchContext.view heap)
    _ = array.elems.map fun ctx => (ctx.view heap).map LaunchItem.withoutEnv := by
      unfold LaunchArray.exhaust
      rw [List.map_map]
      exact List.map_congr_left hview
    _ = (array.elems.map (LaunchContext.view heap)).map (Option.map LaunchItem.withoutEnv) := by
      rw [List.map_map]
      rfl
    _ = (items.map LaunchItem.withoutEnv).map some := by
      rw [show array.elems.map (LaunchContext.view heap) = items.map some from h, List.map_map,
        List.map_map]
      rfl

theorem LaunchArray.Shows.unique {items' : List LaunchItem} (h : array.Shows heap items)
    (h' : array.Shows heap items') : items = items' :=
  List.map_injective_iff.mpr (Option.some_injective _) (h.symm.trans h')

end shows

theorem LaunchArray.exhaust_exhaust (heap : Heap) (array : LaunchArray) :
    (array.exhaust heap).exhaust heap = array.exhaust heap := by
  simp only [LaunchArray.exhaust, List.map_map, LaunchArray.mk.injEq, true_and]
  refine List.map_congr_left fun ctx _ => ?_
  rw [Function.comp_apply]
  conv_lhs => rw [LaunchContext.exhaust]
  conv_lhs => rw [LaunchContext.exhaust, Heap.cellsAt_skip, envLength_drop, LaunchContext.skip_zero]
  rw [LaunchContext.exhaust]

theorem LaunchArray.length_exhaust (heap : Heap) (array : LaunchArray) :
    (array.exhaust heap).elems.length = array.elems.length :=
  List.length_map _

/-- Any number of builds leave the array as one does. -/
theorem buildTimes_ensures {host : Host} {heap : Heap} (k : Nat) (array : LaunchArray) (w : World) :
    Ensures (buildTimes host heap array.elems.length k array) w fun out _ =>
      out.2 = if k = 0 then array else array.exhaust heap := by
  induction k generalizing array w with
  | zero => exact Ensures.pure rfl
  | succ k ih =>
    refine (buildLaunchRequest_ensures array).bind fun out w' hout => ?_
    obtain ⟨slice, array'⟩ := out
    obtain rfl : array' = array.exhaust heap := hout
    have hrest := ih (array.exhaust heap) w'
    rw [LaunchArray.length_exhaust, LaunchArray.exhaust_exhaust, ite_self] at hrest
    exact hrest.bind fun out _ h => Ensures.pure h

/-! ## Reading only -/

/-- The array shows the same after one build, and all the slices of any number of builds are equal. -/
def ReadsOnly (host : Host) (heap : Heap) (array : LaunchArray) (items : List LaunchItem) : Prop :=
  (∀ w out w', (buildLaunchRequest host heap array items.length).run w = .ok (out, w') →
    out.2.Shows heap items) ∧
  (∀ k w out w', (buildTimes host heap items.length k array).run w = .ok (out, w') →
    ∀ s ∈ out.1, ∀ t ∈ out.1, s.bytes = t.bytes)

section host
variable {host : Host} {heap : Heap} {array : LaunchArray} {items : List LaunchItem}

theorem LaunchArray.Shows.exhaust_eq (h : array.Shows heap items) (hempty : ∀ item ∈ items, item.enVars = []) :
    array.exhaust heap = array := by
  obtain ⟨addr, elems⟩ := array
  have hctx : ∀ ctx ∈ elems, ctx.exhaust heap = ctx := by
    intro ctx hctx
    have hmem : ctx.view heap ∈ items.map some := h ▸ List.mem_map_of_mem hctx
    obtain ⟨item, hitem, hview⟩ := List.mem_map.mp hmem
    have henv := Heap.envLength_eq (LaunchContext.view_eq_some.mp hview.symm).1
    unfold LaunchContext.exhaust
    rw [henv, hempty item hitem, List.length_nil, LaunchContext.skip_zero]
  unfold LaunchArray.exhaust
  rw [(List.map_congr_left hctx).trans (List.map_id' elems)]

section builds
variable (hlib : host.lib.Accessors) (hfiles : host.Installed) (hmem : host.MallocSucceeds)
  (hwrites : host.lib.WritesFormat) (hshows : array.Shows heap items)
  (hfits : launchRequestSize items ≤ bufferSize)
include hlib hfiles hmem hwrites hshows hfits

/-- Whatever the array shows, it can be built any number of times. -/
theorem buildTimes_returns (k : Nat) (w : World) :
    Returns (buildTimes host heap items.length k array) w fun out _ =>
      out.1.map Slice.bytes = launchRequests items k := by
  induction k generalizing array items w with
  | zero => exact Returns.pure rfl
  | succ k ih =>
    refine (buildLaunchRequest_returns hlib hfiles hmem hwrites hshows
      (by rwa [length_encode_launchRequest])).bind fun out w' hout => ?_
    obtain ⟨slice, array'⟩ := out
    obtain ⟨hbytes, rfl⟩ : slice.bytes = encode (launchRequestValue items) ∧ array' = array.exhaust heap :=
      hout
    have hrest := ih hshows.exhaust ((launchRequestSize_withoutEnv_le items).trans hfits) w'
    rw [List.length_map] at hrest
    refine hrest.bind fun out _ h => Returns.pure ?_
    rw [List.map_cons, hbytes, h, launchRequests]

/-- Any number of builds return, and building only reads its input exactly when there is no environment
string in it. -/
theorem buildTimes_readsOnly_iff :
    (∀ k w, Returns (buildTimes host heap items.length k array) w fun out _ =>
      out.1.map Slice.bytes = launchRequests items k) ∧
    (ReadsOnly host heap array items ↔ ∀ item ∈ items, item.enVars = []) := by
  have hreturns := buildTimes_returns hlib hfiles hmem hwrites hshows hfits
  refine ⟨hreturns, fun h item hitem => ?_, fun hempty => ⟨fun w out w' hrun => ?_, ?_⟩⟩
  · obtain ⟨out, w', hrun, -, hout⟩ := buildLaunchRequest_returns (w := World.initial) hlib hfiles hmem
      hwrites hshows (by rwa [length_encode_launchRequest])
    have hafter := h.1 _ _ _ hrun
    rw [hout] at hafter
    have heq : items.map LaunchItem.withoutEnv = items := hshows.exhaust.unique hafter
    rw [← heq] at hitem
    obtain ⟨item', -, rfl⟩ := List.mem_map.mp hitem
    rfl
  · have := (buildLaunchRequest_returns hlib hfiles hmem hwrites hshows
      (by rwa [length_encode_launchRequest])).of_run hrun
    rw [this.2, hshows.exhaust_eq hempty]
    exact hshows
  · intro k w out w' hrun s hs t ht
    have hbytes := (hreturns k w).of_run hrun
    rw [launchRequests_of_empty hempty] at hbytes
    have hsame (s : Slice) (hs : s ∈ out.1) : s.bytes = encode (launchRequestValue items) :=
      List.eq_of_mem_replicate (hbytes ▸ List.mem_map_of_mem hs)
    rw [hsame s hs, hsame t ht]

end builds

end host

/-- Not of an array with an environment string; of the same array after a build. -/
theorem buildTimes_readsOnly_iff_sample :
    ¬ ReadsOnly Host.standard sampleHeap sampleArray [sampleItem] ∧
    ReadsOnly Host.standard sampleHeap (sampleArray.exhaust sampleHeap) [sampleItem.withoutEnv] ∧
    Returns (buildTimes Host.standard sampleHeap 1 2 (sampleArray.exhaust sampleHeap)) World.initial
      fun out _ => out.1.map Slice.bytes = launchRequests [sampleItem.withoutEnv] 2 := by
  have hlib : Host.standard.lib.Accessors := Libavro.generic_accessors
  have hwrites : Host.standard.lib.WritesFormat := Libavro.generic_writesFormat
  have hbefore := buildTimes_readsOnly_iff hlib Host.standard_installed Host.standard_mallocSucceeds
    hwrites sampleArray_shows (by decide +kernel)
  have hafter := buildTimes_readsOnly_iff hlib Host.standard_installed Host.standard_mallocSucceeds
    hwrites sampleArray_shows.exhaust (by decide +kernel)
  refine ⟨fun h => ?_, hafter.2.mpr ?_, hafter.1 2 World.initial⟩
  · exact absurd (hbefore.2.mp h sampleItem List.mem_cons_self) (by decide)
  · simp [LaunchItem.withoutEnv]

/-- The second request has lost the environment. -/
theorem buildLaunchRequest_moves_cursor :
    ∃ out w', (buildLaunchRequest Host.standard sampleHeap sampleArray 1).run World.initial = .ok (out, w') ∧
      ¬ out.2.Shows sampleHeap [sampleItem] := by
  have hlib : Host.standard.lib.Accessors := Libavro.generic_accessors
  obtain ⟨out, w', hrun, -, hout⟩ := buildLaunchRequest_returns (w := World.initial)
    hlib Host.standard_installed Host.standard_mallocSucceeds Libavro.generic_writesFormat
    sampleArray_shows (by rw [length_encode_launchRequest]; decide +kernel)
  refine ⟨out, w', hrun, fun h => ?_⟩
  rw [hout] at h
  exact absurd (sampleArray_shows.exhaust.unique h) (by decide)

/-! ## Releasing -/

/-- The block at a pointer that may be null. -/
def setBlock (p : Addr) : List Addr := if p = 0 then [] else [p]

/-- The strings from the cursor on, and the two other strings. -/
def LaunchContext.strings (heap : Heap) (ctx : LaunchContext) : List Addr :=
  (heap.cellsAt ctx.enVarsArray).takeWhile (· ≠ 0) ++ (setBlock ctx.args ++ setBlock ctx.hostName)

/-- All the blocks of an array: its own, and for each element the environment vector and the strings. -/
def LaunchArray.blocks (heap : Heap) (array : LaunchArray) : List Addr :=
  array.addr :: array.elems.flatMap fun ctx => ctx.enVarsArray.block :: ctx.strings heap

/-- Every pointer of the array is to a block of its own, at its start, and every environment vector ends
with a null pointer. -/
structure LaunchArray.OwnsBlocks (heap : Heap) (array : LaunchArray) : Prop where
  addr_ne : array.addr ≠ 0
  block_ne : ∀ ctx ∈ array.elems, ctx.enVarsArray.block ≠ 0
  pos_eq : ∀ ctx ∈ array.elems, ctx.enVarsArray.pos = 0
  terminated : ∀ ctx ∈ array.elems, 0 ∈ heap.cells ctx.enVarsArray.block
  nodup : (array.blocks heap).Nodup

section release
variable {heap : Heap} {w : World}

theorem free_ensures (p : Addr) : Ensures (free p) w fun _ w' => w'.frees = w.frees ++ [p] := by
  rintro _ _ ⟨⟩
  rfl

theorem freeIfSet_ensures (p : Addr) :
    Ensures (freeIfSet p) w fun _ w' => w'.frees = w.frees ++ setBlock p := by
  unfold freeIfSet setBlock
  by_cases hp : p = 0
  · rw [if_pos hp, if_pos hp]
    exact Ensures.pure (List.append_nil _).symm
  · rw [if_neg hp, if_neg hp]
    exact free_ensures p

theorem freeEnvVars_ensures {i : Nat} (cells : List Addr) (elems : List LaunchContext) :
    Ensures (freeEnvVars i cells elems) w fun elems' w' =>
      elems' = elems.modify i (LaunchContext.skip (envLength cells)) ∧
      w'.frees = w.frees ++ cells.takeWhile (· ≠ 0) := by
  induction cells generalizing elems w with
  | nil => exact Ensures.throw
  | cons p rest ih =>
    unfold freeEnvVars
    by_cases hp : p = 0
    · rw [if_pos hp, hp, envLength_null, modify_skip_zero]
      exact Ensures.pure (by simp)
    · rw [if_neg hp, envLength_cons hp, List.takeWhile_cons_of_pos (by simpa using hp)]
      refine (free_ensures p).bind fun _ w' hw' => ?_
      refine (ih _).mono fun elems' w'' h => ?_
      rw [h.1, h.2, hw', modify_skip_advance, List.append_assoc, List.singleton_append]
      exact ⟨rfl, rfl⟩

theorem freeLaunchContext_ensures {i : Nat} (elems : List LaunchContext) :
    Ensures (freeLaunchContext heap elems i) w fun elems' w' => ∃ ctx, elems[i]? = some ctx ∧
      elems' = elems.modify i (LaunchContext.skip (envLength (heap.cellsAt ctx.enVarsArray))) ∧
      w'.frees = w.frees ++ ctx.strings heap := by
  unfold freeLaunchContext
  cases hctx : elems[i]? with
  | none => exact Ensures.throw
  | some ctx =>
    refine (freeEnvVars_ensures _ _).bind fun elems' w₁ h => ?_
    refine (freeIfSet_ensures _).bind fun _ w₂ h₂ => (freeIfSet_ensures _).bind fun _ w₃ h₃ => ?_
    refine Ensures.pure ⟨ctx, rfl, h.1, ?_⟩
    rw [h₃, h₂, h.2, LaunchContext.strings, List.append_assoc, List.append_assoc]

/-- What a release frees: the strings from each cursor on and the array. -/
theorem freeLaunchContextArray_ensures (array : LaunchArray) :
    Ensures (freeLaunchContextArray heap array array.elems.length) w fun _ w' =>
      w'.frees = w.frees ++ (array.elems.flatMap (LaunchContext.strings heap) ++ setBlock array.addr) := by
  refine Ensures.bind (Ensures.forRange (fun i elems w' => elems = exhaustFirst heap array.elems i ∧
    w'.frees = w.frees ++ (array.elems.take i).flatMap (LaunchContext.strings heap)) ⟨rfl, by simp⟩ ?_)
    fun elems w₁ h => ?_
  · intro i hi elems w₁ ⟨helems, hfrees⟩
    refine (freeLaunchContext_ensures elems).mono fun elems' w₂ ⟨ctx, hctx, hmodify, hw₂⟩ => ?_
    rw [helems, getElem?_exhaustFirst] at hctx
    refine ⟨by rw [hmodify, helems, exhaustFirst_succ _ _ hctx], ?_⟩
    rw [hw₂, hfrees, List.take_add_one, hctx]
    simp
  · refine (freeIfSet_ensures _).mono fun _ w₂ h₂ => ?_
    rw [h₂, h.2, List.take_length, List.append_assoc]

/-! A release of vectors that end with a null pointer returns. -/

theorem freeEnvVars_returns {i : Nat} {cells : List Addr} (hnull : 0 ∈ cells)
    (elems : List LaunchContext) : Returns (freeEnvVars i cells elems) w fun _ _ => True := by
  induction cells generalizing elems w with
  | nil => cases hnull
  | cons p rest ih =>
    unfold freeEnvVars
    by_cases hp : p = 0
    · rw [if_pos hp]
      exact Returns.pure trivial
    · rw [if_neg hp]
      have hrest : 0 ∈ rest := (List.mem_cons.mp hnull).resolve_left (Ne.symm hp)
      exact (modify_returns _).bind fun _ _ _ => ih hrest _

theorem freeLaunchContext_returns {i : Nat} {elems : List LaunchContext} {ctx : LaunchContext}
    (hctx : elems[i]? = some ctx) (hnull : 0 ∈ heap.cellsAt ctx.enVarsArray) :
    Returns (freeLaunchContext heap elems i) w fun _ _ => True := by
  unfold freeLaunchContext
  rw [hctx]
  refine (freeEnvVars_returns hnull elems).bind fun elems' _ _ => ?_
  refine (freeIfSet_returns _).bind fun _ _ _ => (freeIfSet_returns _).bind fun _ _ _ => ?_
  exact Returns.pure trivial

theorem freeLaunchContextArray_returns {array : LaunchArray}
    (hnull : ∀ ctx ∈ array.elems, 0 ∈ heap.cellsAt ctx.enVarsArray) :
    Returns (freeLaunchContextArray heap array array.elems.length) w fun _ _ => True := by
  refine Returns.bind (Returns.forRange (fun i elems _ => elems = exhaustFirst heap array.elems i)
    rfl ?_) fun _ _ _ => freeIfSet_returns _
  intro i hi elems w₁ helems
  have hctx : array.elems[i]? = some array.elems[i] := List.getElem?_eq_getElem hi
  have hctx' : elems[i]? = some array.elems[i] := by rw [helems, getElem?_exhaustFirst, hctx]
  have hreturns := freeLaunchContext_returns (w := w₁) hctx' (hnull _ (List.getElem_mem hi))
  refine (hreturns.and_ensures (freeLaunchContext_ensures elems)).mono fun elems' _ h => ?_
  obtain ⟨-, ctx, hget, hmodify, -⟩ := h
  obtain rfl : array.elems[i] = ctx := Option.some.inj (hctx'.symm.trans hget)
  rw [hmodify, helems, exhaustFirst_succ _ _ hctx]

theorem LaunchArray.OwnsBlocks.null_mem {array : LaunchArray} (h : array.OwnsBlocks heap)
    {ctx : LaunchContext} (hctx : ctx ∈ array.elems) : 0 ∈ heap.cellsAt ctx.enVarsArray := by
  unfold Heap.cellsAt
  rw [h.pos_eq ctx hctx, List.drop_zero]
  exact h.terminated ctx hctx

theorem LaunchArray.OwnsBlocks.null_mem_exhaust {array : LaunchArray} (h : array.OwnsBlocks heap)
    {ctx : LaunchContext} (hctx : ctx ∈ (array.exhaust heap).elems) :
    0 ∈ heap.cellsAt ctx.enVarsArray := by
  obtain ⟨ctx', hctx', rfl⟩ := List.mem_map.mp hctx
  unfold LaunchContext.exhaust
  rw [Heap.cellsAt_skip]
  exact zero_mem_drop_envLength (h.null_mem hctx')

theorem LaunchContext.length_strings_exhaust (ctx : LaunchContext) :
    ((ctx.exhaust heap).strings heap).length ≤ (ctx.strings heap).length := by
  have hnone : (heap.cellsAt (ctx.exhaust heap).enVarsArray).takeWhile (· ≠ 0) = [] := by
    unfold LaunchContext.exhaust
    rw [Heap.cellsAt_skip]
    exact List.eq_nil_of_length_eq_zero (envLength_drop _)
  unfold LaunchContext.strings
  rw [hnone, List.nil_append]
  exact (List.sublist_append_right _ _).length_le

theorem length_flatMap_strings_le (elems : List LaunchContext) {g : LaunchContext → List Addr}
    (hg : ∀ ctx, (g ctx).length ≤ (ctx.strings heap).length) :
    (elems.flatMap g).length + elems.length ≤
      (elems.flatMap fun ctx => ctx.enVarsArray.block :: ctx.strings heap).length := by
  induction elems with
  | nil => exact le_refl 0
  | cons ctx rest ih =>
    have := hg ctx
    simp only [List.flatMap_cons, List.length_append, List.length_cons]
    omega

/-- A release frees fewer blocks than there are, by one for each element at least. -/
theorem LaunchArray.length_strings_add (array : LaunchArray) {array' : LaunchArray}
    (h : array' = array ∨ array' = array.exhaust heap) :
    (array'.elems.flatMap (LaunchContext.strings heap) ++ setBlock array'.addr).length +
      array.elems.length ≤ (array.blocks heap).length := by
  have hset : (setBlock array'.addr).length ≤ 1 := by
    unfold setBlock
    split <;> simp
  have hstrings : (array'.elems.flatMap (LaunchContext.strings heap)).length + array.elems.length ≤
      (array.elems.flatMap fun ctx => ctx.enVarsArray.block :: ctx.strings heap).length := by
    rcases h with rfl | rfl
    · exact length_flatMap_strings_le _ fun _ => le_refl _
    · unfold LaunchArray.exhaust
      rw [List.flatMap_map]
      exact length_flatMap_strings_le _ LaunchContext.length_strings_exhaust
  rw [List.length_append, LaunchArray.blocks, List.length_cons]
  omega

/-- A release, after any number of builds, returns, and it frees each block once exactly when the array
has no elements: the environment vectors are left. -/
theorem freeLaunchContextArray_perm_iff {host : Host} {array array₁ : LaunchArray}
    (howns : array.OwnsBlocks heap) {k : Nat} {slices : List Slice} {w₁ : World}
    (hbuild : (buildTimes host heap array.elems.length k array).run w = .ok ((slices, array₁), w₁)) :
    Returns (freeLaunchContextArray heap array₁ array.elems.length) w₁ fun _ w₂ =>
      (∃ freed, w₂.frees = w₁.frees ++ freed ∧ freed.Perm (array.blocks heap)) ↔ array.elems = [] := by
  have harray : array₁ = array ∨ array₁ = array.exhaust heap := by
    have hstate := buildTimes_ensures k array w _ _ hbuild
    by_cases hk : k = 0
    · exact .inl (hstate.trans (if_pos hk))
    · exact .inr (hstate.trans (if_neg hk))
  have hlength : array₁.elems.length = array.elems.length := by
    rcases harray with rfl | rfl
    · rfl
    · exact LaunchArray.length_exhaust heap array
  have hnull : ∀ ctx ∈ array₁.elems, 0 ∈ heap.cellsAt ctx.enVarsArray := by
    intro ctx hctx
    rcases harray with rfl | rfl
    · exact howns.null_mem hctx
    · exact howns.null_mem_exhaust hctx
  rw [← hlength]
  refine ((freeLaunchContextArray_returns hnull).and_ensures
    (freeLaunchContextArray_ensures array₁)).mono fun _ w₂ h => ?_
  obtain ⟨-, hfrees⟩ := h
  constructor
  · intro hblocks
    obtain ⟨freed, hfreed, hperm⟩ := hblocks
    rw [hfrees, List.append_cancel_left_eq] at hfreed
    have hbound := array.length_strings_add harray
    rw [hfreed, hperm.length_eq] at hbound
    exact List.eq_nil_of_length_eq_zero (by omega)
  · intro hnil
    have hnil₁ : array₁.elems = [] := List.eq_nil_of_length_eq_zero (by rw [hlength, hnil]; rfl)
    have haddr : array₁.addr = array.addr := by rcases harray with rfl | rfl <;> rfl
    refine ⟨_, hfrees, ?_⟩
    rw [hnil₁, haddr, setBlock, if_neg howns.addr_ne, LaunchArray.blocks, hnil]
    exact List.Perm.refl _

end release

theorem sampleArray_ownsBlocks : sampleArray.OwnsBlocks sampleHeap where
  addr_ne := by decide
  block_ne := by decide
  pos_eq := by decide
  terminated := by decide
  nodup := by decide

theorem freeLaunchContextArray_perm_iff_sample :
    ∃ out w₁, (buildTimes Host.standard sampleHeap 1 1 sampleArray).run World.initial = .ok (out, w₁) ∧
      Returns (freeLaunchContextArray sampleHeap out.2 1) w₁ fun _ w₂ =>
        ¬ ∃ freed, w₂.frees = w₁.frees ++ freed ∧ freed.Perm (sampleArray.blocks sampleHeap) := by
  have hlib : Host.standard.lib.Accessors := Libavro.generic_accessors
  have hbuild : Returns (buildTimes Host.standard sampleHeap 1 1 sampleArray) World.initial
      fun _ _ => True :=
    (buildLaunchRequest_returns hlib Host.standard_installed Host.standard_mallocSucceeds
      Libavro.generic_writesFormat sampleArray_shows
      (by rw [length_encode_launchRequest]; decide +kernel)).bind fun _ _ _ => Returns.pure trivial
  obtain ⟨⟨slices, array₁⟩, w₁, hrun, -⟩ := hbuild
  refine ⟨_, w₁, hrun, ?_⟩
  refine (freeLaunchContextArray_perm_iff sampleArray_ownsBlocks hrun).mono fun _ w₂ hiff hfreed => ?_
  exact absurd (hiff.mp hfreed) (by decide)

/-- The environment vector, `0x20`, is not freed. -/
theorem freeLaunchContextArray_leaves_vector :
    sampleArray.OwnsBlocks sampleHeap ∧
    ∃ w₂, (freeLaunchContextArray sampleHeap sampleArray 1).run World.initial = .ok ((), w₂) ∧
      w₂.frees = [0x30, 0x40, 0x50, 0x10] ∧ ¬ w₂.frees.Perm (sampleArray.blocks sampleHeap) :=
  ⟨sampleArray_ownsBlocks, _, rfl, rfl, by decide⟩

end HamsterAvro
