import Mathlib.Tactic.Common

/-!
# Readers of a self-delimiting byte format

A reader takes one value off the front of its input and leaves the rest. `Reads p R` says that `p`
is exactly the format `R`: it succeeds on the inputs that begin with a word of `R`, returns the value
of that word and leaves what follows it. The rules below build `Reads` along the structure of a
reader; a format that has a reader is deterministic and prefix-free (`Reads.unique`).
-/

namespace HamsterAvro.Wire

abbrev Bytes := List UInt8

abbrev Reader (α : Type) := StateT Bytes Option α

variable {α β : Type}

/-- `p` accepts exactly the inputs that begin with a word of `R` and stops at the end of it. -/
def Reads (p : Reader α) (R : α → Bytes → Prop) : Prop :=
  ∀ input a rest, p.run input = some (a, rest) ↔ ∃ word, input = word ++ rest ∧ R a word

namespace Reads
variable {p : Reader α} {R S : α → Bytes → Prop}

theorem complete (h : Reads p R) {a : α} {word : Bytes} (ha : R a word) (rest : Bytes) :
    p.run (word ++ rest) = some (a, rest) :=
  (h _ _ _).2 ⟨word, rfl, ha⟩

theorem sound (h : Reads p R) {a : α} {input rest : Bytes} (hrun : p.run input = some (a, rest)) :
    ∃ word, input = word ++ rest ∧ R a word :=
  (h _ _ _).1 hrun

/-- A format with a reader is deterministic: two words that agree up to what follows them are the
same word of the same value. -/
theorem unique (h : Reads p R) {a b : α} {u v s t : Bytes} (ha : R a u) (hb : R b v)
    (heq : u ++ s = v ++ t) : a = b ∧ u = v ∧ s = t := by
  have hu := h.complete ha s
  rw [heq, h.complete hb t] at hu
  obtain ⟨rfl, rfl⟩ := Prod.mk.inj (Option.some.inj hu)
  exact ⟨rfl, List.append_cancel_right heq, rfl⟩

/-- No word of the format is a proper prefix of another. -/
theorem prefix_free (h : Reads p R) {a b : α} {u t : Bytes} (ha : R a u) (hb : R b (u ++ t)) :
    t = [] := by
  obtain ⟨_, _, hs⟩ := h.unique (s := t) (t := []) ha hb (by rw [List.append_nil])
  exact hs

/-- A proper prefix of a word does not begin with a word. -/
theorem not_of_truncated (h : Reads p R) {a b : α} {u t v s : Bytes} (ha : R a (u ++ t)) (ht : t ≠ [])
    (hu : u = v ++ s) : ¬ R b v := by
  intro hb
  rw [hu, List.append_assoc] at ha
  have hnil := h.prefix_free hb ha
  exact ht (List.append_eq_nil_iff.mp hnil).2

/-- Two readers of one format do the same. -/
theorem run_eq {q : Reader α} (hp : Reads p R) (hq : Reads q R) (input : Bytes) :
    p.run input = q.run input := by
  apply Option.ext
  rintro ⟨a, rest⟩
  rw [hp input a rest, hq input a rest]

theorem congr (h : Reads p R) (hRS : ∀ a word, R a word ↔ S a word) : Reads p S := by
  intro input a rest
  simp only [h input a rest, hRS]

theorem pure (a : α) : Reads (Pure.pure a : Reader α) fun b word => b = a ∧ word = [] := by
  intro input b rest
  simp only [StateT.run_pure, Option.pure_def, Option.some.injEq, Prod.mk.injEq]
  constructor
  · intro h
    obtain ⟨rfl, rfl⟩ := h
    exact ⟨[], rfl, rfl, rfl⟩
  · intro h
    obtain ⟨_, rfl, rfl, rfl⟩ := h
    exact ⟨rfl, rfl⟩

theorem failure : Reads (failure : Reader α) fun _ _ => False := by
  intro input b rest
  simp only [StateT.run_failure, and_false, exists_false, iff_false]
  exact Option.some_ne_none _ ∘ Eq.symm

theorem bind {f : α → Reader β} {T : α → β → Bytes → Prop} (hp : Reads p R)
    (hf : ∀ a, Reads (f a) (T a)) :
    Reads (p >>= f) fun b word => ∃ a u v, word = u ++ v ∧ R a u ∧ T a b v := by
  intro input b rest
  simp only [StateT.run_bind, Option.bind_eq_bind, Option.bind_eq_some_iff, Prod.exists]
  constructor
  · intro h
    obtain ⟨a, mid, hrun, hrest⟩ := h
    obtain ⟨u, rfl, hu⟩ := hp.sound hrun
    obtain ⟨v, rfl, hv⟩ := (hf a).sound hrest
    exact ⟨u ++ v, (List.append_assoc u v rest).symm, a, u, v, rfl, hu, hv⟩
  · intro h
    obtain ⟨_, rfl, a, u, v, rfl, hu, hv⟩ := h
    refine ⟨a, v ++ rest, ?_, (hf a).complete hv rest⟩
    rw [List.append_assoc]
    exact hp.complete hu (v ++ rest)

/-- Reading one value and wrapping it. -/
theorem map {f : α → β} (hp : Reads p R) :
    Reads (p >>= fun a => Pure.pure (f a)) fun b word => ∃ a, b = f a ∧ R a word := by
  refine (hp.bind fun a => Reads.pure (f a)).congr fun b word => ?_
  constructor
  · intro h
    obtain ⟨a, u, v, rfl, hu, rfl, rfl⟩ := h
    exact ⟨a, rfl, by rwa [List.append_nil]⟩
  · intro h
    obtain ⟨a, rfl, ha⟩ := h
    exact ⟨a, word, [], (List.append_nil word).symm, ha, rfl, rfl⟩

theorem ite {c : Prop} [Decidable c] {q : Reader α} (hp : Reads p R) (hq : Reads q S) :
    Reads (if c then p else q) fun a word => if c then R a word else S a word := by
  split
  · exact hp
  · exact hq

end Reads

/-! ### Single bytes and byte strings -/

def readByte : Reader UInt8 := fun
  | [] => none
  | b :: rest => some (b, rest)

theorem readByte_reads : Reads readByte fun b word => word = [b] := by
  intro input b rest
  cases input with
  | nil => simp [readByte, StateT.run]
  | cons c input => simp [readByte, StateT.run, eq_comm]

/-- The next `n` bytes. -/
def readBytes (n : Nat) : Reader Bytes := fun input =>
  if n ≤ input.length then some (input.take n, input.drop n) else none

theorem readBytes_reads (n : Nat) : Reads (readBytes n) fun data word => word = data ∧ data.length = n := by
  intro input data rest
  simp only [readBytes, StateT.run]
  constructor
  · intro h
    by_cases hn : n ≤ input.length
    · rw [if_pos hn] at h
      obtain ⟨rfl, rfl⟩ := Prod.mk.inj (Option.some.inj h)
      exact ⟨_, (List.take_append_drop n input).symm, rfl, List.length_take_of_le hn⟩
    · rw [if_neg hn] at h
      cases h
  · intro h
    obtain ⟨_, rfl, rfl, rfl⟩ := h
    rw [if_pos (by rw [List.length_append]; omega), List.take_left, List.drop_left]

/-! ### Sequences -/

/-- `word` is a word of `R` for each value in turn. -/
inductive Items (R : α → Bytes → Prop) : List α → Bytes → Prop
  | nil : Items R [] []
  | cons {a : α} {as : List α} {u v : Bytes} : R a u → Items R as v → Items R (a :: as) (u ++ v)

def readItems (p : Reader α) : Nat → Reader (List α)
  | 0 => pure []
  | n + 1 => do
    let a ← p
    let as ← readItems p n
    pure (a :: as)

theorem readItems_reads {p : Reader α} {R : α → Bytes → Prop} (hp : Reads p R) (n : Nat) :
    Reads (readItems p n) fun as word => as.length = n ∧ Items R as word := by
  induction n with
  | zero =>
    refine (Reads.pure []).congr fun as word => ?_
    constructor
    · intro h
      obtain ⟨rfl, rfl⟩ := h
      exact ⟨rfl, .nil⟩
    · intro h
      obtain ⟨hlen, hitems⟩ := h
      cases hitems with
      | nil => exact ⟨rfl, rfl⟩
      | cons => simp at hlen
  | succ n ih =>
    refine (hp.bind fun a => ih.map).congr fun as word => ?_
    constructor
    · intro h
      obtain ⟨a, u, v, rfl, hu, as, rfl, rfl, hv⟩ := h
      exact ⟨rfl, .cons hu hv⟩
    · intro h
      obtain ⟨hlen, hitems⟩ := h
      cases hitems with
      | nil => simp at hlen
      | @cons a as u v hu hv => exact ⟨a, u, v, rfl, hu, as, rfl, by simpa using hlen, hv⟩

theorem Items.exists_word {R : α → Bytes → Prop} {as : List α} {word : Bytes} (h : Items R as word) :
    ∀ a ∈ as, ∃ w, R a w := by
  induction h with
  | nil => simp
  | cons ha _ ih =>
    intro b hb
    rcases List.mem_cons.mp hb with rfl | hb
    · exact ⟨_, ha⟩
    · exact ih b hb

theorem Items.mono {R S : α → Bytes → Prop} {as : List α} {word : Bytes}
    (hRS : ∀ a ∈ as, ∀ w, R a w → S a w) (h : Items R as word) : Items S as word := by
  induction h with
  | nil => exact .nil
  | cons ha _ ih => exact .cons (hRS _ (by simp) _ ha) (ih fun b hb => hRS b (by simp [hb]))

/-- A bound on each word bounds the whole sequence. -/
theorem Items.length_le {R : α → Bytes → Prop} {k : Nat} (hR : ∀ a w, R a w → k ≤ w.length)
    {as : List α} {word : Bytes} (h : Items R as word) : k * as.length ≤ word.length := by
  induction h with
  | nil => simp
  | cons ha _ ih =>
    have := hR _ _ ha
    rw [List.length_cons, List.length_append, Nat.mul_succ]
    omega

end HamsterAvro.Wire
