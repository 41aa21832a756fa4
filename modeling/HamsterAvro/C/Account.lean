import HamsterAvro.C.Prog
import Mathlib.Algebra.BigOperators.Group.List.Basic
import Mathlib.Tactic.Abel

/-!
# What programs hold

An account says what was given out between two states and what was given back up to a state.
`Balanced pre p post`: of a run of `p` that returns, what was given back by its end and what it then holds
are what had been given back, what it held (`pre`) and what it was given. The rules are those of pre- and
postconditions: sequencing, framing, loops.
-/

namespace HamsterAvro.C

variable {σ ε α β γ M : Type} [AddCommMonoid M]

structure Account (σ M : Type) [AddCommMonoid M] where
  given : σ → σ → M → Prop
  back : σ → M
  given_self : ∀ s, given s s 0
  given_add : ∀ s s' s'' m n, given s s' m → given s' s'' n → given s s'' (m + n)

variable {A : Account σ M} {p : StateT σ (Except ε) α} {f : α → StateT σ (Except ε) β}
  {pre : M} {mid post : α → M} {last : β → M}

def Account.Balanced (A : Account σ M) (pre : M) (p : StateT σ (Except ε) α) (post : α → M) : Prop :=
  ∀ s, Ensures p s fun a s' => ∃ m, A.given s s' m ∧ A.back s' + post a = A.back s + pre + m

namespace Account.Balanced

theorem pure (a : α) : A.Balanced (post a) (Pure.pure a : StateT σ (Except ε) α) post := fun s =>
  Ensures.pure ⟨0, A.given_self s, (add_zero _).symm⟩

theorem pure_of {a : α} (h : post a = pre) : A.Balanced pre (Pure.pure a : StateT σ (Except ε) α) post :=
  h ▸ pure a

theorem throw (e : ε) : A.Balanced pre (throw e : StateT σ (Except ε) α) post := fun _ => Ensures.throw

theorem bind (hp : A.Balanced pre p mid) (hf : ∀ a, A.Balanced (mid a) (f a) last) :
    A.Balanced pre (p >>= f) last := by
  intro s
  refine (hp s).bind fun a s' h => (hf a s').mono fun b s'' h' => ?_
  obtain ⟨m, hm, hback⟩ := h
  obtain ⟨n, hn, hback'⟩ := h'
  exact ⟨m + n, A.given_add _ _ _ _ _ hm hn, by rw [hback', hback, add_assoc]⟩

/-- What is held besides is held after. -/
theorem frame (r : M) (hp : A.Balanced pre p post) : A.Balanced (pre + r) p fun a => post a + r := by
  intro s
  refine (hp s).mono fun a s' h => ?_
  obtain ⟨m, hm, hback⟩ := h
  refine ⟨m, hm, ?_⟩
  calc A.back s' + (post a + r) = A.back s' + post a + r := (add_assoc _ _ _).symm
    _ = A.back s + pre + m + r := by rw [hback]
    _ = A.back s + (pre + r) + m := by abel

theorem congr {pre' : M} {post' : α → M} (hp : A.Balanced pre p post) (hpre : pre = pre')
    (hpost : ∀ a, post a = post' a) : A.Balanced pre' p post' := by
  obtain rfl : post = post' := funext hpost
  exact hpre ▸ hp

theorem map {g : α → β} (hp : A.Balanced pre p post) (hg : ∀ a, post a = last (g a)) :
    A.Balanced pre (g <$> p) last := by
  rw [map_eq_pure_bind]
  refine hp.bind fun a => ?_
  rw [hg]
  exact pure (g a)

theorem ite {c : Prop} [Decidable c] {q : StateT σ (Except ε) α} (hp : A.Balanced pre p post)
    (hq : A.Balanced pre q post) : A.Balanced pre (if c then p else q) post := by
  split
  · exact hp
  · exact hq

/-- A loop that holds after each pass what `I` says. -/
theorem foldlM {step : β → γ → StateT σ (Except ε) β} (I : β → M)
    (hstep : ∀ b c, A.Balanced (I b) (step b c) I) (cs : List γ) (b : β) :
    A.Balanced (I b) (cs.foldlM step b) I := by
  induction cs generalizing b with
  | nil => exact pure b
  | cons c cs ih =>
    rw [List.foldlM_cons]
    exact (hstep b c).bind ih

/-- A loop that gives back something in each pass. -/
theorem forM {step : γ → StateT σ (Except ε) PUnit} {held : γ → M} {cs : List γ}
    (hstep : ∀ c ∈ cs, A.Balanced (held c) (step c) fun _ => 0) :
    A.Balanced (cs.map held).sum (cs.forM step) fun _ => 0 := by
  induction cs with
  | nil => exact pure _
  | cons c cs ih =>
    rw [List.map_cons, List.sum_cons]
    refine ((hstep c (by simp)).frame _).bind fun _ => ?_
    rw [zero_add]
    exact ih fun d hd => hstep d (by simp [hd])

end Account.Balanced

end HamsterAvro.C
