import HamsterAvro.ResponseRoundTrip

/-!
# How many elements a response carries

The buffer bounds the bytes of a response and so the number of its elements: up to some number every array
is sent, beyond another none is, and between the two it depends on the elements
(`buildResponse_capacity`).
-/

namespace HamsterAvro
open HamsterAvro.Wire HamsterAvro.Avro HamsterAvro.C

/-- For the arrays of the kind `Sent`, of whose first `n` elements there is a record: `all` are the
numbers of which every array is sent, `some` those of which one is. One that is not sent ends the process. -/
structure Carries {α : Type} (build : List α → Nat → Prog Slice) (Sent : List α → Nat → Prop)
    (all some : Nat → Prop) : Prop where
  all_iff : ∀ n w, (∀ xs, Sent xs n → Returns (build xs n) w fun _ _ => True) ↔ all n
  some_iff : ∀ n w, (∃ xs, Sent xs n ∧ Returns (build xs n) w fun _ _ => True) ↔ some n
  exits : ∀ xs n w, Sent xs n → ¬ Returns (build xs n) w (fun _ _ => True) →
    Stops (build xs n) w Halt.IsExit

/-- `n` elements of this size fit the buffer. -/
def Fits (elemSize n : Nat) : Prop := n = 0 ∨ longSize n + n * elemSize + 1 ≤ bufferSize

theorem fits_iff {elemSize n : Nat} :
    Fits elemSize n ↔ arraySize (List.replicate n elemSize) ≤ bufferSize := by
  unfold Fits arraySize
  by_cases hn : n = 0
  · subst hn
    simp [bufferSize]
  · simp [hn]

/-- Between 64 and 8191 elements, their number takes two bytes. -/
theorem fits_iff_le {elemSize n m : Nat} (hlow : 64 ≤ m) (hm : m * elemSize + 3 ≤ bufferSize)
    (hover : bufferSize < (m + 1) * elemSize + 3) (hpos : 0 < elemSize) : Fits elemSize n ↔ n ≤ m := by
  have hbuffer : bufferSize = 8192 := rfl
  have hmle : m ≤ m * elemSize := Nat.le_mul_of_pos_right m hpos
  constructor
  · intro h
    by_contra hn
    rcases h with rfl | h
    · omega
    · have hlong := lt_longSize (n := n) (k := 1) (by omega)
      have hmul : (m + 1) * elemSize ≤ n * elemSize := Nat.mul_le_mul_right _ (by omega)
      omega
  · intro hn
    right
    have hlong := longSize_le (n := n) (k := 1) (by omega)
    have hmul : n * elemSize ≤ m * elemSize := Nat.mul_le_mul_right _ hn
    omega

section carries
variable {α : Type} {build : List α → Nat → Prog Slice} {There Sent : List α → Nat → Prop}
  {recordOf : List α → Value}

theorem BuildsArray.returns_iff (h : BuildsArray build There recordOf) {xs : List α} {n : Nat} {w : World}
    (hthere : There xs n) : Returns (build xs n) w (fun _ _ => True) ↔
      (encode (recordOf (xs.take n))).length ≤ bufferSize := by
  constructor
  · intro hreturns
    obtain ⟨slice, w', hrun, -⟩ := hreturns
    exact (h.of_run hrun).2.1
  · intro hfits
    exact (h.returns xs n w hthere hfits).mono fun _ _ _ => trivial

/-- The elements are between two sizes, and there are arrays of either. -/
theorem BuildsArray.carries (h : BuildsArray build There recordOf) (size : α → Nat)
    (hthere : ∀ xs n, Sent xs n → There xs n) (hlen : ∀ xs n, Sent xs n → n ≤ xs.length)
    (hsize : ∀ xs, (encode (recordOf xs)).length = arraySize (xs.map size)) {low high : Nat}
    (hbounds : ∀ xs n, Sent xs n → ∀ x ∈ xs.take n, low ≤ size x ∧ size x ≤ high)
    (hlow : ∃ x, size x = low ∧ ∀ n, Sent (List.replicate n x) n)
    (hhigh : ∃ x, size x = high ∧ ∀ n, Sent (List.replicate n x) n) :
    Carries build Sent (Fits high) (Fits low) := by
  have hconst (xs : List α) (n c : Nat) (hn : n ≤ xs.length) :
      (xs.take n).map (fun _ => c) = List.replicate n c := by
    rw [List.map_const', List.length_take, Nat.min_eq_left hn]
  have hreplicate {x : α} {n : Nat} (hx : Sent (List.replicate n x) n) (w : World) :
      Returns (build (List.replicate n x) n) w (fun _ _ => True) ↔ Fits (size x) n := by
    rw [h.returns_iff (hthere _ _ hx), hsize, fits_iff, List.take_replicate, Nat.min_self, List.map_replicate]
  refine ⟨fun n w => ⟨fun hall => ?_, fun hfits xs hsent => ?_⟩,
    fun n w => ⟨fun hsome => ?_, fun hfits => ?_⟩, fun xs n w hsent hreturns => ?_⟩
  · obtain ⟨x, rfl, hx⟩ := hhigh
    exact (hreplicate (hx n) w).mp (hall _ (hx n))
  · rw [h.returns_iff (hthere xs n hsent), hsize]
    rw [fits_iff, ← hconst xs n high (hlen xs n hsent)] at hfits
    exact (arraySize_map_le fun x hx => (hbounds xs n hsent x hx).2).trans hfits
  · obtain ⟨xs, hsent, hreturns⟩ := hsome
    rw [h.returns_iff (hthere xs n hsent), hsize] at hreturns
    rw [fits_iff, ← hconst xs n low (hlen xs n hsent)]
    exact (arraySize_map_le fun x hx => (hbounds xs n hsent x hx).1).trans hreturns
  · obtain ⟨x, rfl, hx⟩ := hlow
    exact ⟨_, hx n, (hreplicate (hx n) w).mpr hfits⟩
  · rw [h.returns_iff (hthere xs n hsent), not_le] at hreturns
    exact h.exits xs n w (hthere xs n hsent) hreturns

theorem Carries.congr {all all' some some' : Nat → Prop} (h : Carries build Sent all some)
    (hall : ∀ n, all n ↔ all' n) (hsome : ∀ n, some n ↔ some' n) : Carries build Sent all' some' where
  all_iff n w := (h.all_iff n w).trans (hall n)
  some_iff n w := (h.some_iff n w).trans (hsome n)
  exits := h.exits

end carries

/-! ## The elements -/

theorem longSize_int_le (n : Int32) : longSize n.toInt ≤ 5 := by
  have hlow := Int32.le_toInt n
  have hhigh := Int32.toInt_lt n
  refine varint_length_le 4 _ ?_
  cases hn : n.toInt with
  | ofNat m =>
    rw [hn] at hhigh
    have : (m : Int) < 2 ^ 31 := hhigh
    rw [zigzag]
    omega
  | negSucc m =>
    rw [hn, Int.negSucc_eq] at hlow
    rw [zigzag]
    omega

theorem longSize_int_max : longSize Int32.maxValue.toInt = 5 := by decide +kernel

theorem longSize_int_zero : longSize (0 : Int32).toInt = 1 := by decide +kernel

theorem length_encode_procName (name : ProcessName) :
    (encode name.toValue).length = longSize name.jobid.toInt + longSize name.vpid.toInt := by
  simp only [ProcessName.toValue, length_encode_record, List.map_cons, List.map_nil, List.sum_cons,
    List.sum_nil, length_encode_int, Nat.add_zero]

theorem length_encode_launchResult (response : LaunchResponse) :
    (encode (launchResultValue response)).length =
      1 + (longSize response.procName.jobid.toInt + longSize response.procName.vpid.toInt) := by
  simp only [launchResultValue, length_encode_record, List.map_cons, List.map_nil, List.sum_cons,
    List.sum_nil, length_encode_boolean, length_encode_procName, Nat.add_zero]

theorem length_encode_completedProc (proc : CompletedProc) :
    (encode proc.toValue).length = longSize proc.procName.jobid.toInt + longSize proc.procName.vpid.toInt +
      (longSize proc.procState.toInt + longSize proc.exitValue.toInt) := by
  simp only [CompletedProc.toValue, processStatusValue, length_encode_record, List.map_cons, List.map_nil,
    List.sum_cons, List.sum_nil, length_encode_int, length_encode_enum, length_encode_procName, Nat.add_zero]

/-- The first `n` elements are there, with names of at most `m` characters. -/
def NodeResource.ShortNames (m : Nat) (nodes : List NodeResource) (n : Nat) : Prop :=
  ∀ i < n, ∃ node, nodes[i]? = some node ∧ node.Readable ∧ node.hostName.cString.bytes.length ≤ m

theorem NodeResource.ShortNames.length_le {m n : Nat} {nodes : List NodeResource}
    (h : NodeResource.ShortNames m nodes n) : n ≤ nodes.length := by
  by_contra hn
  obtain ⟨node, hnode, -⟩ := h nodes.length (by omega)
  rw [List.getElem?_eq_none (le_refl _)] at hnode
  cases hnode

theorem NodeResource.ShortNames.of_mem {m n : Nat} {nodes : List NodeResource}
    (h : NodeResource.ShortNames m nodes n) {node : NodeResource} (hnode : node ∈ nodes.take n) :
    node.hostName.cString.bytes.length ≤ m := by
  obtain ⟨i, hi, rfl⟩ := List.mem_iff_getElem.mp hnode
  rw [List.length_take] at hi
  obtain ⟨node, hget, -, hlen⟩ := h i (by omega)
  rw [List.getElem?_eq_getElem (by omega)] at hget
  rw [List.getElem_take, Option.some.inj hget]
  exact hlen

/-- A name of `m` characters. -/
def longNameNode (m : Nat) (slot : Int32) : NodeResource := ⟨⟨1, List.replicate m 0x78 ++ [0]⟩, slot⟩

theorem longNameNode_length (m : Nat) (slot : Int32) :
    (longNameNode m slot).hostName.cString.bytes.length = m := by
  have hname : (longNameNode m slot).hostName.cString = .fill m 0x78 (by decide) :=
    Block.cString_eq rfl
  rw [hname, CString.length_fill]

theorem longNameNode_shortNames {k m : Nat} (hk : k ≤ m) (slot : Int32) (n : Nat) :
    NodeResource.ShortNames m (List.replicate n (longNameNode k slot)) n := by
  intro i hi
  refine ⟨longNameNode k slot, by simp [hi], ⟨Nat.one_ne_zero, ?_⟩, ?_⟩
  · simp [longNameNode]
  · rw [longNameNode_length]
    exact hk

/-! ## The responses -/

section host
variable {host : Host} (hlib : host.lib.Accessors) (hfiles : host.Installed)
  (hmem : host.MallocSucceeds) (hwrites : host.lib.WritesFormat)
include hlib hfiles hmem hwrites

theorem buildLaunchResponse_carries :
    Carries (buildLaunchResponse host) (fun xs n => n ≤ xs.length) (Fits 11) (Fits 3) := by
  refine (buildLaunchResponse_builds hlib hfiles hmem hwrites).carries
    (fun response => (encode (launchResultValue response)).length) (fun _ _ h => h) (fun _ _ h => h)
    (fun xs => length_encode_arrayRecord _ _ launchResultValue xs) (fun xs n _ response _ => ?_)
    ⟨⟨false, ⟨0, 0⟩⟩, ?_, fun n => by simp⟩
    ⟨⟨false, ⟨Int32.maxValue, Int32.maxValue⟩⟩, ?_, fun n => by simp⟩
  · have hjobid := longSize_int_le response.procName.jobid
    have hvpid := longSize_int_le response.procName.vpid
    have hjobid' := longSize_pos response.procName.jobid.toInt
    have hvpid' := longSize_pos response.procName.vpid.toInt
    rw [length_encode_launchResult]
    omega
  · rw [length_encode_launchResult, longSize_int_zero]
  · rw [length_encode_launchResult, longSize_int_max]

theorem buildHeartbeatResponse_carries :
    Carries (buildHeartbeatResponse host) (fun xs n => n ≤ xs.length) (Fits 20) (Fits 4) := by
  refine (buildHeartbeatResponse_builds hlib hfiles hmem hwrites).carries
    (fun proc => (encode proc.toValue).length) (fun _ _ h => h) (fun _ _ h => h)
    (fun xs => length_encode_arrayRecord _ _ CompletedProc.toValue xs) (fun xs n _ proc _ => ?_)
    ⟨⟨⟨0, 0⟩, 0, 0⟩, ?_, fun n => by simp⟩
    ⟨⟨⟨Int32.maxValue, Int32.maxValue⟩, Int32.maxValue, Int32.maxValue⟩, ?_, fun n => by simp⟩
  · have hjobid := longSize_int_le proc.procName.jobid
    have hvpid := longSize_int_le proc.procName.vpid
    have hstate := longSize_int_le proc.procState
    have hexit := longSize_int_le proc.exitValue
    have hjobid' := longSize_pos proc.procName.jobid.toInt
    have hvpid' := longSize_pos proc.procName.vpid.toInt
    have hstate' := longSize_pos proc.procState.toInt
    have hexit' := longSize_pos proc.exitValue.toInt
    rw [length_encode_completedProc]
    omega
  · rw [length_encode_completedProc, longSize_int_zero]
  · rw [length_encode_completedProc, longSize_int_max]

theorem buildAllocateResponse_carries (m : Nat) :
    Carries (buildAllocateResponse host) (NodeResource.ShortNames m) (Fits (countedSize m + 5)) (Fits 2) := by
  refine (buildAllocateResponse_builds hlib hfiles hmem hwrites).carries
    (fun node => (encode node.seen.toValue).length) ?_ (fun _ _ h => h.length_le)
    (fun xs => length_encode_arrayRecord _ _ (fun node : NodeResource => node.seen.toValue) xs)
    (fun xs n h node hnode => ?_)
    ⟨longNameNode 0 0, ?_, longNameNode_shortNames (Nat.zero_le m) 0⟩
    ⟨longNameNode m Int32.maxValue, ?_, longNameNode_shortNames (le_refl m) _⟩
  · intro xs n h i hi
    obtain ⟨node, hnode, hread, -⟩ := h i hi
    exact ⟨node, hnode, hread⟩
  · have hname := countedSize_mono (h.of_mem hnode)
    have hname' := countedSize_mono (Nat.zero_le node.hostName.cString.bytes.length)
    have hzero : countedSize 0 = 1 := longSize_int_zero
    have hslot := longSize_int_le node.slotNum
    have hslot' := longSize_pos node.slotNum.toInt
    have hsize : (encode node.seen.toValue).length =
        countedSize node.hostName.cString.bytes.length + longSize node.slotNum.toInt :=
      length_encode_nodeResource _ _
    rw [hsize]
    omega
  · have hsize : (encode (longNameNode 0 0).seen.toValue).length =
        countedSize (longNameNode 0 0).hostName.cString.bytes.length + longSize (0 : Int32).toInt :=
      length_encode_nodeResource _ _
    rw [hsize, longNameNode_length, longSize_int_zero]
    have hzero : countedSize 0 = 1 := longSize_int_zero
    rw [hzero]
  · have hsize : (encode (longNameNode m Int32.maxValue).seen.toValue).length =
        countedSize (longNameNode m Int32.maxValue).hostName.cString.bytes.length +
          longSize Int32.maxValue.toInt :=
      length_encode_nodeResource _ _
    rw [hsize, longNameNode_length, longSize_int_max]

/-- Up to 744 launch results, 409 process states, and as many node resources as fit with the longest names
that are sent, are carried whatever they are; beyond 2729, 2047 and 4094 none are. -/
theorem buildResponse_capacity :
    Carries (buildLaunchResponse host) (fun xs n => n ≤ xs.length) (· ≤ 744) (· ≤ 2729) ∧
    Carries (buildHeartbeatResponse host) (fun xs n => n ≤ xs.length) (· ≤ 409) (· ≤ 2047) ∧
    ∀ m, Carries (buildAllocateResponse host) (NodeResource.ShortNames m) (Fits (countedSize m + 5))
      (· ≤ 4094) := by
  refine ⟨?_, ?_, fun m => ?_⟩
  · exact (buildLaunchResponse_carries hlib hfiles hmem hwrites).congr
      (fun _ => fits_iff_le (by decide) (by decide) (by decide) (by decide))
      fun _ => fits_iff_le (by decide) (by decide) (by decide) (by decide)
  · exact (buildHeartbeatResponse_carries hlib hfiles hmem hwrites).congr
      (fun _ => fits_iff_le (by decide) (by decide) (by decide) (by decide))
      fun _ => fits_iff_le (by decide) (by decide) (by decide) (by decide)
  · exact (buildAllocateResponse_carries hlib hfiles hmem hwrites m).congr (fun _ => Iff.rfl)
      fun _ => fits_iff_le (by decide) (by decide) (by decide) (by decide)

end host

/-- Of any 744 results there is a response; of some 745 there is none. -/
theorem buildResponse_capacity_sample :
    (∀ responses : List LaunchResponse, 744 ≤ responses.length →
      Returns (buildLaunchResponse Host.standard responses 744) World.initial fun _ _ => True) ∧
    ¬ ∀ responses : List LaunchResponse, 745 ≤ responses.length →
      Returns (buildLaunchResponse Host.standard responses 745) World.initial fun _ _ => True := by
  have hcarries := (buildResponse_capacity Libavro.generic_accessors Host.standard_installed
    Host.standard_mallocSucceeds Libavro.generic_writesFormat).1
  exact ⟨(hcarries.all_iff 744 World.initial).mpr (le_refl 744),
    fun h => absurd ((hcarries.all_iff 745 World.initial).mp h) (by decide)⟩

end HamsterAvro
