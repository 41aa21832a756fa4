import HamsterAvro.C.Prog

/-!
# Programs that do what a pure specification says

`Refines E p R spec`: from every state, `p` returns a result that `R` relates to the value of `spec`, or
stops with an error that `E` relates to the error of `spec`. The specification has no state, so such a
program does the same from every state; programs in sequence do what their specifications in sequence
say (`Refines.bind`, `Refines.foldlM`).
-/

namespace HamsterAvro.C

variable {σ ε δ α β γ α' β' : Type} {E : ε → δ → Prop} {p : StateT σ (Except ε) α}
  {f : α → StateT σ (Except ε) β} {R : α → α' → Prop} {S : β → β' → Prop} {spec : Except δ α'}
  {g : α' → Except δ β'}

def Refines (E : ε → δ → Prop) (p : StateT σ (Except ε) α) (R : α → α' → Prop) : Except δ α' → Prop
  | .ok b => ∀ s, Returns p s fun a _ => R a b
  | .error d => ∀ s, Stops p s fun e => E e d

namespace Refines

theorem pure {a : α} {b : α'} (h : R a b) :
    Refines E (Pure.pure a : StateT σ (Except ε) α) R (Pure.pure b) :=
  fun _ => Returns.pure h

theorem bind (hp : Refines E p R spec) (hf : ∀ a b, R a b → Refines E (f a) S (g b)) :
    Refines E (p >>= f) S (spec >>= g) := by
  cases spec with
  | error d => exact fun s => (hp s).bind_left
  | ok b =>
    show Refines E (p >>= f) S (g b)
    cases hg : g b with
    | error d =>
      intro s
      refine Stops.bind_right (hp s) fun a s' h => ?_
      have hstep := hf a b h
      rw [hg] at hstep
      exact hstep s'
    | ok b' =>
      intro s
      refine (hp s).bind fun a s' h => ?_
      have hstep := hf a b h
      rw [hg] at hstep
      exact hstep s'

theorem map {h : α → β} {h' : α' → β'} (hp : Refines E p R spec) (hh : ∀ a b, R a b → S (h a) (h' b)) :
    Refines E (h <$> p) S (h' <$> spec) := by
  rw [map_eq_pure_bind, map_eq_pure_bind]
  exact hp.bind fun a b hab => pure (hh a b hab)

/-- A fold whose step does what the step of the specification says. -/
theorem foldlM {step : β → γ → StateT σ (Except ε) β} {step' : β' → γ → Except δ β'} {cs : List γ}
    (hstep : ∀ c ∈ cs, ∀ b b', S b b' → Refines E (step b c) S (step' b' c)) {b : β} {b' : β'}
    (h : S b b') : Refines E (cs.foldlM step b) S (cs.foldlM step' b') := by
  induction cs generalizing b b' with
  | nil => exact pure h
  | cons c cs ih =>
    rw [List.foldlM_cons, List.foldlM_cons]
    exact (hstep c (by simp) b b' h).bind fun a a' ha => ih (fun d hd => hstep d (by simp [hd])) ha

end Refines

end HamsterAvro.C
