import HamsterAvro.C.Memory
import HamsterAvro.C.Prog

/-!
# Counted loops

`for (i = 0; i < n; i++)` with an `int` counter and an `int` bound, one pass at a time. The counter never
overflows, whatever the bound is: the body is run for `0, …, n - 1` in turn, and for nothing if `n` is
negative (`forLoop_iff`).
-/

namespace HamsterAvro.C

variable {σ ε β : Type}

/-- The loop from the test of `i < n` on: the values the counter has in the body, and where the passes
lead. -/
inductive ForLoop (n : Int32) (body : β → Int32 → StateT σ (Except ε) β) :
    Int32 → β → σ → List Int32 → β → σ → Prop
  | stop {i : Int32} {b : β} {s : σ} : ¬ i < n → ForLoop n body i b s [] b s
  | pass {i : Int32} {b b' b'' : β} {s s' s'' : σ} {is : List Int32} :
      i < n → (body b i).run s = .ok (b', s') → ForLoop n body (i + 1) b' s' is b'' s'' →
      ForLoop n body i b s (i :: is) b'' s''

section loop
variable {n : Int32} {body : β → Int32 → StateT σ (Except ε) β} {step : β → Nat → StateT σ (Except ε) β}
  {b b' : β} {s s' : σ} {is : List Int32}

theorem forLoop_of_le {i : Int32} (h : ¬ i < n) :
    ForLoop n body i b s is b' s' ↔ is = [] ∧ b = b' ∧ s = s' := by
  constructor
  · intro hloop
    cases hloop with
    | stop => exact ⟨rfl, rfl, rfl⟩
    | pass hlt => exact absurd hlt h
  · rintro ⟨rfl, rfl, rfl⟩
    exact .stop h

theorem forLoop_of_lt {i : Int32} (h : i < n) : ForLoop n body i b s is b' s' ↔
    ∃ is' b₁ s₁, is = i :: is' ∧ (body b i).run s = .ok (b₁, s₁) ∧ ForLoop n body (i + 1) b₁ s₁ is' b' s' := by
  constructor
  · intro hloop
    cases hloop with
    | stop hstop => exact absurd h hstop
    | pass _ hbody hrest => exact ⟨_, _, _, rfl, hbody, hrest⟩
  · rintro ⟨is', b₁, s₁, rfl, hbody, hrest⟩
    exact .pass h hbody hrest

/-- With `k` passes to go, the counter goes from `i` to `i + k`. -/
theorem forLoop_range' (k : Nat) {i : Nat} (h : (i : Int) + k = n.toInt) :
    ForLoop n (fun b i => step b i.toInt.toNat) (Int32.ofNat i) b s is b' s' ↔
      is = (List.range' i k).map Int32.ofNat ∧
        ((List.range' i k).foldlM step b).run s = .ok (b', s') := by
  have hn := n.toInt_lt
  have hi : (Int32.ofNat i).toInt = i := toInt_ofNat (by simp only [intMax]; omega)
  induction k generalizing i b s is with
  | zero =>
    rw [forLoop_of_le (by rw [Int32.lt_iff_toInt_lt]; omega)]
    refine and_congr_right fun _ => ?_
    constructor
    · rintro ⟨rfl, rfl⟩
      rfl
    · rintro ⟨⟩
      exact ⟨rfl, rfl⟩
  | succ k ih =>
    have hnext : Int32.ofNat i + 1 = Int32.ofNat (i + 1) := (Int32.ofNat_add i 1).symm
    have hi' : (Int32.ofNat (i + 1)).toInt = (i + 1 : Nat) := toInt_ofNat (by simp only [intMax]; omega)
    have hrest (b₁ : β) (s₁ : σ) (is' : List Int32) :
        ForLoop n (fun b i => step b i.toInt.toNat) (Int32.ofNat (i + 1)) b₁ s₁ is' b' s' ↔
          is' = (List.range' (i + 1) k).map Int32.ofNat ∧
            ((List.range' (i + 1) k).foldlM step b₁).run s₁ = .ok (b', s') :=
      ih (by omega) hi'
    rw [forLoop_of_lt (by rw [Int32.lt_iff_toInt_lt]; omega), List.range'_succ, List.map_cons,
      List.foldlM_cons, run_bind_ok_iff]
    simp only [hi, Int.toNat_natCast, hnext, hrest]
    constructor
    · rintro ⟨is', b₁, s₁, rfl, hbody, rfl, hfold⟩
      exact ⟨rfl, b₁, s₁, hbody, hfold⟩
    · rintro ⟨rfl, b₁, s₁, hbody, hfold⟩
      exact ⟨_, b₁, s₁, rfl, hbody, rfl, hfold⟩

/-- The loop is the fold over the indices below its bound. -/
theorem forLoop_iff : ForLoop n (fun b i => step b i.toInt.toNat) 0 b s is b' s' ↔
    is = (List.range n.toInt.toNat).map Int32.ofNat ∧
      ((List.range n.toInt.toNat).foldlM step b).run s = .ok (b', s') := by
  by_cases hn : n.toInt < 0
  · have hnone : n.toInt.toNat = 0 := Int.toNat_of_nonpos (by omega)
    have hstop : ¬ (0 : Int32) < n := by
      rw [Int32.lt_iff_toInt_lt, Int32.toInt_zero]
      omega
    rw [forLoop_of_le hstop, hnone]
    refine and_congr_right fun _ => ?_
    constructor
    · rintro ⟨rfl, rfl⟩
      rfl
    · rintro ⟨⟩
      exact ⟨rfl, rfl⟩
  · rw [List.range_eq_range']
    exact forLoop_range' (i := 0) _ (by omega)

end loop

end HamsterAvro.C
