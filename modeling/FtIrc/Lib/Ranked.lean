import FtIrc.Lib.Runs

/-!
# Runs that lower a rank

Of the inputs of a machine some are allowed (`A`), and the steps they make lower a natural number (`Lowers`).  Then
a run of allowed inputs is no longer than the rank of its first state (`Lowers.run`), and can be continued by
allowed inputs to a state in which none is possible (`Lowers.exists_stuck`).
-/

namespace Runs

variable {σ ι ε : Type*} {step : σ → ι → Except ε σ} {I : σ → Prop} {A : ι → Prop} {rank : σ → Nat}

/-- The allowed steps keep `I` and lower the rank. -/
structure Lowers (step : σ → ι → Except ε σ) (I : σ → Prop) (A : ι → Prop) (rank : σ → Nat) : Prop where
  keeps : ∀ s i s', I s → A i → step s i = .ok s' → I s'
  lowers : ∀ s i s', I s → A i → step s i = .ok s' → rank s' < rank s

/-- No allowed step is possible. -/
def Stuck (step : σ → ι → Except ε σ) (A : ι → Prop) (s : σ) : Prop :=
  ∀ i s', A i → step s i ≠ .ok s'

/-- **A run of allowed inputs is no longer than the rank.** -/
theorem Lowers.run (h : Lowers step I A rank) : ∀ (is : List ι) (s s' : σ), I s → (∀ i ∈ is, A i) →
    Runs.run step is s = .ok s' → I s' ∧ is.length + rank s' ≤ rank s
  | [], s, s', hs, _, hrun => by
    cases hrun
    exact ⟨hs, by simp⟩
  | i :: is, s, s', hs, hA, hrun => by
    obtain ⟨t, ht, hrun⟩ := run_cons_ok.mp hrun
    have hi : A i := hA i (List.mem_cons_self ..)
    have hone := h.lowers s i t hs hi ht
    obtain ⟨hs', hrest⟩ := h.run is t s' (h.keeps s i t hs hi ht) (fun j hj => hA j (List.mem_cons_of_mem _ hj)) hrun
    refine ⟨hs', ?_⟩
    rw [List.length_cons]
    omega

/-- **Some run of allowed inputs cannot be continued.** -/
theorem Lowers.exists_stuck (h : Lowers step I A rank) (s : σ) (hs : I s) :
    ∃ is s', (∀ i ∈ is, A i) ∧ Runs.run step is s = .ok s' ∧ Stuck step A s' := by
  induction hn : rank s using Nat.strong_induction_on generalizing s with
  | _ n ih =>
    by_cases hstuck : Stuck step A s
    · exact ⟨[], s, by simp, rfl, hstuck⟩
    · -- one allowed step, and the rest by induction
      unfold Stuck at hstuck
      push Not at hstuck
      obtain ⟨i, t, hi, ht⟩ := hstuck
      obtain ⟨is, s', hA, hrun, hend⟩ := ih (rank t) (hn ▸ h.lowers s i t hs hi ht) t (h.keeps s i t hs hi ht) rfl
      refine ⟨i :: is, s', ?_, run_cons_ok.mpr ⟨t, ht, hrun⟩, hend⟩
      intro j hj
      rcases List.mem_cons.mp hj with rfl | hj
      · exact hi
      · exact hA j hj

end Runs
