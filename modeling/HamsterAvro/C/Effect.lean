import HamsterAvro.C.Prog
import Mathlib.Algebra.Group.Basic
import Mathlib.Algebra.BigOperators.Group.List.Basic

/-!
# What a program adds to a measure of the state

`Adds μ p δ`: every run of `p` that returns leaves `μ` of the state larger by `δ`. The measure takes
values in any additive monoid; the effects of a sequence of programs add up.
-/

namespace HamsterAvro.C

variable {σ ε α β G : Type} [AddCommMonoid G] {μ : σ → G} {p : StateT σ (Except ε) α}
  {f : α → StateT σ (Except ε) β} {δ δ' : G}

def Adds (μ : σ → G) (p : StateT σ (Except ε) α) (δ : G) : Prop :=
  ∀ s, Ensures p s fun _ s' => μ s' = μ s + δ

namespace Adds

theorem congr (h : Adds μ p δ) (hδ : δ = δ') : Adds μ p δ' := hδ ▸ h

theorem of_run (h : Adds μ p δ) {s s' : σ} {a : α} (hrun : p.run s = .ok (a, s')) : μ s' = μ s + δ :=
  h s a s' hrun

theorem pure (a : α) : Adds μ (Pure.pure a : StateT σ (Except ε) α) 0 := fun s =>
  Ensures.pure (add_zero (μ s)).symm

theorem throw (e : ε) : Adds μ (throw e : StateT σ (Except ε) α) δ := fun _ => Ensures.throw

theorem modify {g : σ → σ} (h : ∀ s, μ (g s) = μ s + δ) :
    Adds μ (modify g : StateT σ (Except ε) PUnit) δ := by
  rintro s _ _ ⟨⟩
  exact h s

theorem bind (hp : Adds μ p δ) (hf : ∀ a, Adds μ (f a) δ') : Adds μ (p >>= f) (δ + δ') := fun s =>
  (hp s).bind fun a s' h => (hf a s').mono fun _ _ h' => by rw [h', h, add_assoc]

/-- After a program that adds nothing, what the rest adds. -/
theorem zero_bind (hp : Adds μ p 0) (hf : ∀ a, Adds μ (f a) δ) : Adds μ (p >>= f) δ :=
  (hp.bind hf).congr (zero_add δ)

/-- Before a program that adds nothing. -/
theorem bind_zero (hp : Adds μ p δ) (hf : ∀ a, Adds μ (f a) 0) : Adds μ (p >>= f) δ :=
  (hp.bind hf).congr (add_zero δ)

theorem ite {c : Prop} [Decidable c] {q : StateT σ (Except ε) α} (hp : Adds μ p δ)
    (hq : Adds μ q δ) : Adds μ (if c then p else q) δ := by
  split
  · exact hp
  · exact hq

theorem foldlM {γ : Type} {step : β → γ → StateT σ (Except ε) β} {d : γ → G}
    (hstep : ∀ b c, Adds μ (step b c) (d c)) (cs : List γ) (b : β) :
    Adds μ (cs.foldlM step b) (cs.map d).sum := by
  induction cs generalizing b with
  | nil => exact pure b
  | cons c cs ih =>
    rw [List.foldlM_cons, List.map_cons, List.sum_cons]
    exact (hstep b c).bind ih

theorem foldlM_zero {γ : Type} {step : β → γ → StateT σ (Except ε) β}
    (hstep : ∀ b c, Adds μ (step b c) 0) (cs : List γ) (b : β) : Adds μ (cs.foldlM step b) 0 :=
  (foldlM hstep cs b).congr (by simp)

theorem forM_zero {γ : Type} {step : γ → StateT σ (Except ε) PUnit}
    (hstep : ∀ c, Adds μ (step c) 0) (cs : List γ) : Adds μ (cs.forM step) 0 := by
  induction cs with
  | nil => exact pure _
  | cons c cs ih => exact (hstep c).zero_bind fun _ => ih

end Adds

end HamsterAvro.C
