import Mathlib.Tactic.Common

/-!
# Rules for programs with a state that may stop

Three judgements on a `StateT σ (Except ε)` program started in a state: it returns and the result
satisfies `Q` (`Returns`), it stops with an error of `E` (`Stops`), it satisfies `Q` if it returns
(`Ensures`). Each has its rules for sequencing; the rule for a counted loop asks what one iteration
preserves, and of a loop that stops, where. `SameOr` compares two programs, of which the first may stop
with an error of its own where the second does not.
-/

namespace HamsterAvro.C

variable {σ ε α β : Type}

def Returns (p : StateT σ (Except ε) α) (s : σ) (Q : α → σ → Prop) : Prop :=
  ∃ a s', p.run s = .ok (a, s') ∧ Q a s'

def Stops (p : StateT σ (Except ε) α) (s : σ) (E : ε → Prop) : Prop :=
  ∃ e, p.run s = .error e ∧ E e

def Ensures (p : StateT σ (Except ε) α) (s : σ) (Q : α → σ → Prop) : Prop :=
  ∀ a s', p.run s = .ok (a, s') → Q a s'

variable {p : StateT σ (Except ε) α} {f : α → StateT σ (Except ε) β} {s : σ}
  {Q Q' : α → σ → Prop} {R : β → σ → Prop} {E : ε → Prop}

theorem run_bind_ok {a : α} {s' : σ} (h : p.run s = .ok (a, s')) :
    (p >>= f).run s = (f a).run s' := by
  rw [StateT.run_bind, h]
  rfl

theorem run_bind_error {e : ε} (h : p.run s = .error e) : (p >>= f).run s = .error e := by
  rw [StateT.run_bind, h]
  rfl

/-- A sequence that returns went through both of its parts. -/
theorem run_bind_ok_iff {b : β} {s' : σ} : (p >>= f).run s = .ok (b, s') ↔
    ∃ a s₁, p.run s = .ok (a, s₁) ∧ (f a).run s₁ = .ok (b, s') := by
  cases hp : p.run s with
  | error e =>
    rw [run_bind_error hp]
    exact ⟨nofun, nofun⟩
  | ok out =>
    rw [run_bind_ok hp]
    constructor
    · intro h
      exact ⟨out.1, out.2, rfl, h⟩
    · rintro ⟨a, s₁, ⟨⟩, h⟩
      exact h

/-! ### Normal return -/

namespace Returns

theorem pure {a : α} (h : Q a s) : Returns (Pure.pure a : StateT σ (Except ε) α) s Q :=
  ⟨a, s, rfl, h⟩

theorem bind (hp : Returns p s Q) (hf : ∀ a s', Q a s' → Returns (f a) s' R) :
    Returns (p >>= f) s R := by
  obtain ⟨a, s', hrun, hQ⟩ := hp
  obtain ⟨b, s'', hrun', hR⟩ := hf a s' hQ
  exact ⟨b, s'', (run_bind_ok hrun).trans hrun', hR⟩

theorem mono (hp : Returns p s Q) (h : ∀ a s', Q a s' → Q' a s') : Returns p s Q' := by
  obtain ⟨a, s', hrun, hQ⟩ := hp
  exact ⟨a, s', hrun, h a s' hQ⟩

theorem map {g : α → β} (hp : Returns p s Q) (h : ∀ a s', Q a s' → R (g a) s') :
    Returns (g <$> p) s R := by
  rw [map_eq_pure_bind]
  exact hp.bind fun a s' hQ => pure (h a s' hQ)

/-- The result of a run is the one the judgement speaks about. -/
theorem of_run (hp : Returns p s Q) {a : α} {s' : σ} (hrun : p.run s = .ok (a, s')) : Q a s' := by
  obtain ⟨b, s'', hrun', hQ⟩ := hp
  rw [hrun] at hrun'
  obtain ⟨rfl, rfl⟩ := Prod.mk.inj (Except.ok.inj hrun')
  exact hQ

theorem forRange {step : β → Nat → StateT σ (Except ε) β} {n : Nat} {b : β}
    (I : Nat → β → σ → Prop) (h0 : I 0 b s)
    (hstep : ∀ i < n, ∀ b s, I i b s → Returns (step b i) s (I (i + 1))) :
    Returns ((List.range n).foldlM step b) s (I n) := by
  induction n with
  | zero => exact Returns.pure h0
  | succ n ih =>
    rw [List.range_succ, List.foldlM_append]
    refine (ih fun i hi => hstep i (by omega)).bind fun b s hI => ?_
    simp only [List.foldlM_cons, List.foldlM_nil, bind_pure]
    exact hstep n (by omega) b s hI

theorem forM {step : β → StateT σ (Except ε) PUnit} {bs : List β} (I : σ → Prop) (h0 : I s)
    (hstep : ∀ b ∈ bs, ∀ s, I s → Returns (step b) s fun _ => I) :
    Returns (bs.forM step) s fun _ => I := by
  induction bs generalizing s with
  | nil => exact pure h0
  | cons b bs ih =>
    exact (hstep b (by simp) s h0).bind fun _ s' hI => ih hI fun c hc => hstep c (by simp [hc])

end Returns

/-! ### Abnormal end -/

namespace Stops

theorem throw {e : ε} (h : E e) : Stops (throw e : StateT σ (Except ε) α) s E := ⟨e, rfl, h⟩

theorem bind_left (hp : Stops p s E) : Stops (p >>= f) s E := by
  obtain ⟨e, hrun, hE⟩ := hp
  exact ⟨e, run_bind_error hrun, hE⟩

theorem bind_right (hp : Returns p s Q) (hf : ∀ a s', Q a s' → Stops (f a) s' E) :
    Stops (p >>= f) s E := by
  obtain ⟨a, s', hrun, hQ⟩ := hp
  obtain ⟨e, hrun', hE⟩ := hf a s' hQ
  exact ⟨e, (run_bind_ok hrun).trans hrun', hE⟩

theorem map (g : α → β) (hp : Stops p s E) : Stops (g <$> p) s E := by
  rw [map_eq_pure_bind]
  exact hp.bind_left

theorem not_ok (hp : Stops p s E) (a : α) (s' : σ) : p.run s ≠ .ok (a, s') := by
  obtain ⟨e, hrun, -⟩ := hp
  rw [hrun]
  exact nofun

/-- A counted loop that stops in its first bad pass, the good ones before it returning. -/
theorem forRange {step : β → Nat → StateT σ (Except ε) β} {n : Nat} {b : β} {good : Nat → Prop}
    (I : Nat → β → σ → Prop) (h0 : I 0 b s)
    (hstep : ∀ i < n, good i → ∀ b s, I i b s → Returns (step b i) s (I (i + 1)))
    (hstop : ∀ i < n, ¬ good i → ∀ b s, I i b s → Stops (step b i) s E)
    (hbad : ¬ ∀ i < n, good i) : Stops ((List.range n).foldlM step b) s E := by
  induction n with
  | zero => exact absurd (fun i hi => absurd hi (Nat.not_lt_zero i)) hbad
  | succ n ih =>
    rw [List.range_succ, List.foldlM_append]
    by_cases hearlier : ∀ i < n, good i
    · have hlast : ¬ good n := fun hn => hbad fun i hi => by
        rcases Nat.lt_succ_iff_lt_or_eq.mp hi with hi | rfl
        · exact hearlier i hi
        · exact hn
      refine Stops.bind_right (Returns.forRange I h0 fun i hi => hstep i (by omega) (hearlier i hi))
        fun b s hI => ?_
      simp only [List.foldlM_cons, List.foldlM_nil, bind_pure]
      exact hstop n (by omega) hlast b s hI
    · exact (ih (fun i hi => hstep i (by omega)) (fun i hi => hstop i (by omega)) hearlier).bind_left

/-- A program that stops beyond a bound and has returned was within it. -/
theorem le_of_run {m n : Nat} (hstops : m < n → Stops p s E) {a : α} {s' : σ}
    (hrun : p.run s = .ok (a, s')) : n ≤ m := by
  by_contra hover
  exact (hstops (Nat.lt_of_not_le hover)).not_ok a s' hrun

end Stops

/-! ### Partial correctness -/

namespace Ensures

theorem pure {a : α} (h : Q a s) : Ensures (Pure.pure a : StateT σ (Except ε) α) s Q := by
  rintro _ _ ⟨⟩
  exact h

theorem throw {e : ε} : Ensures (throw e : StateT σ (Except ε) α) s Q := nofun

theorem bind (hp : Ensures p s Q) (hf : ∀ a s', Q a s' → Ensures (f a) s' R) :
    Ensures (p >>= f) s R := by
  intro b s'' hrun
  cases hp' : p.run s with
  | error e => rw [run_bind_error hp'] at hrun; cases hrun
  | ok out =>
    obtain ⟨a, s'⟩ := out
    rw [run_bind_ok hp'] at hrun
    exact hf a s' (hp a s' hp') b s'' hrun

/-- What holds after the rest, wherever it starts, holds after the whole. -/
theorem after (hf : ∀ a s', Ensures (f a) s' R) : Ensures (p >>= f) s R :=
  bind (Q := fun _ _ => True) (fun _ _ _ => trivial) fun a s' _ => hf a s'

theorem mono (hp : Ensures p s Q) (h : ∀ a s', Q a s' → Q' a s') : Ensures p s Q' :=
  fun a s' hrun => h a s' (hp a s' hrun)

theorem map {g : α → β} (hp : Ensures p s Q) (h : ∀ a s', Q a s' → R (g a) s') :
    Ensures (g <$> p) s R := by
  rw [map_eq_pure_bind]
  exact hp.bind fun a s' hQ => pure (h a s' hQ)

theorem forRange {step : β → Nat → StateT σ (Except ε) β} {n : Nat} {b : β}
    (I : Nat → β → σ → Prop) (h0 : I 0 b s)
    (hstep : ∀ i < n, ∀ b s, I i b s → Ensures (step b i) s (I (i + 1))) :
    Ensures ((List.range n).foldlM step b) s (I n) := by
  induction n with
  | zero => exact Ensures.pure h0
  | succ n ih =>
    rw [List.range_succ, List.foldlM_append]
    refine (ih fun i hi => hstep i (by omega)).bind fun b s hI => ?_
    simp only [List.foldlM_cons, List.foldlM_nil, bind_pure]
    exact hstep n (by omega) b s hI

theorem foldlM {γ : Type} {step : β → γ → StateT σ (Except ε) β} {cs : List γ} {b : β}
    (I : β → σ → Prop) (h0 : I b s) (hstep : ∀ c ∈ cs, ∀ b s, I b s → Ensures (step b c) s I) :
    Ensures (cs.foldlM step b) s I := by
  induction cs generalizing b s with
  | nil => exact Ensures.pure h0
  | cons c cs ih =>
    rw [List.foldlM_cons]
    exact (hstep c (by simp) b s h0).bind fun b s hI => ih hI fun d hd => hstep d (by simp [hd])

end Ensures

/-! ### Programs that do the same or stop -/

/-- Where the one does not do what the other does, it stops with an error of `E`. -/
def SameOr (E : ε → Prop) (p q : StateT σ (Except ε) α) : Prop :=
  ∀ s, p.run s = q.run s ∨ Stops p s E

namespace SameOr
variable {q : StateT σ (Except ε) α} {g : α → StateT σ (Except ε) β}

theorem refl (p : StateT σ (Except ε) α) : SameOr E p p := fun _ => .inl rfl

theorem bind (hp : SameOr E p q) (hf : ∀ a, SameOr E (f a) (g a)) : SameOr E (p >>= f) (q >>= g) := by
  intro s
  rcases hp s with heq | hstops
  · cases hrun : q.run s with
    | error e =>
      left
      rw [run_bind_error (heq.trans hrun), run_bind_error hrun]
    | ok out =>
      obtain ⟨a, s'⟩ := out
      rw [run_bind_ok (heq.trans hrun), run_bind_ok hrun]
      rcases hf a s' with heq' | hstops'
      · exact .inl heq'
      · exact .inr (Stops.bind_right (Q := fun b s => b = a ∧ s = s') ⟨a, s', heq.trans hrun, rfl, rfl⟩
          fun _ _ h => by rw [h.1, h.2]; exact hstops')
  · exact .inr hstops.bind_left

theorem map (h : α → β) (hp : SameOr E p q) : SameOr E (h <$> p) (h <$> q) := by
  rw [map_eq_pure_bind, map_eq_pure_bind]
  exact hp.bind fun a => refl _

theorem ite {c : Prop} [Decidable c] {p' q' : StateT σ (Except ε) α} (hp : SameOr E p q)
    (hp' : SameOr E p' q') : SameOr E (if c then p else p') (if c then q else q') := by
  split
  · exact hp
  · exact hp'

theorem foldlM {γ : Type} {step step' : β → γ → StateT σ (Except ε) β}
    (hstep : ∀ b c, SameOr E (step b c) (step' b c)) (cs : List γ) (b : β) :
    SameOr E (cs.foldlM step b) (cs.foldlM step' b) := by
  induction cs generalizing b with
  | nil => exact refl _
  | cons c cs ih => exact (hstep b c).bind ih

theorem returns (hp : SameOr E p q) (hq : Returns q s Q) : Returns p s Q ∨ Stops p s E := by
  obtain ⟨a, s', hrun, hQ⟩ := hq
  exact (hp s).imp_left fun heq => ⟨a, s', heq.trans hrun, hQ⟩

theorem stops {E' : ε → Prop} (hp : SameOr E p q) (hq : Stops q s E') : Stops p s E' ∨ Stops p s E := by
  obtain ⟨e, hrun, hE⟩ := hq
  exact (hp s).imp_left fun heq => ⟨e, heq.trans hrun, hE⟩

end SameOr

theorem Returns.and_ensures (hp : Returns p s Q) (he : Ensures p s Q') :
    Returns p s fun a s' => Q a s' ∧ Q' a s' := by
  obtain ⟨a, s', hrun, hQ⟩ := hp
  exact ⟨a, s', hrun, hQ, he a s' hrun⟩

end HamsterAvro.C
