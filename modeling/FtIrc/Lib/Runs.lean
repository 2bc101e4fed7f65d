import Mathlib

/-!
# Runs of a machine driven by inputs

A machine is a step function `step : σ → ι → Except ε σ`: in state `s` the input `i` either
leads to the next state or stops the machine with an error.

* `run` — feed a list of inputs; the first error stops the run.
* `Along P` — every step the run takes satisfies `P` (state before the step, input).

Principal results: `run_invariant` (what every step preserves, every run preserves) and
`along_invariant` (the same for the runs whose steps all satisfy a side condition).
-/

namespace Runs

variable {σ ι ε : Type*} {step : σ → ι → Except ε σ}

/-- Feed the inputs one after the other; the first error stops the run. -/
def run (step : σ → ι → Except ε σ) : List ι → σ → Except ε σ
  | [], s => .ok s
  | i :: is, s =>
    match step s i with
    | .error e => .error e
    | .ok s' => run step is s'

/-- Every step taken satisfies `P` (evaluated in the state before the step). -/
def Along (step : σ → ι → Except ε σ) (P : σ → ι → Prop) : List ι → σ → Prop
  | [], _ => True
  | i :: is, s => P s i ∧ ∀ s', step s i = .ok s' → Along step P is s'

/-- `Along`, evaluated. -/
def check (step : σ → ι → Except ε σ) (P : σ → ι → Bool) : List ι → σ → Bool
  | [], _ => true
  | i :: is, s =>
    P s i && match step s i with
      | .error _ => true
      | .ok s' => check step P is s'

theorem along_of_check {P : σ → ι → Bool} {Q : σ → ι → Prop} (hPQ : ∀ s i, P s i = true → Q s i) :
    ∀ (is : List ι) (s : σ), check step P is s = true → Along step Q is s
  | [], _, _ => trivial
  | i :: is, s, h => by
    unfold check at h
    rw [Bool.and_eq_true] at h
    refine ⟨hPQ s i h.1, fun s' hs' => along_of_check hPQ is s' ?_⟩
    have hrest := h.2
    rw [hs'] at hrest
    exact hrest

theorem run_cons_ok {i : ι} {is : List ι} {s s' : σ} :
    run step (i :: is) s = .ok s' ↔ ∃ t, step s i = .ok t ∧ run step is t = .ok s' := by
  simp only [run]
  cases step s i with
  | error e => simp
  | ok t => simp

theorem run_append (is js : List ι) (s : σ) :
    run step (is ++ js) s =
      match run step is s with
      | .error e => .error e
      | .ok t => run step js t := by
  induction is generalizing s with
  | nil => rfl
  | cons i is ih =>
    simp only [List.cons_append, run]
    cases step s i with
    | error e => rfl
    | ok t => exact ih t

theorem run_append_ok {is js : List ι} {s s' : σ} :
    run step (is ++ js) s = .ok s' ↔ ∃ t, run step is s = .ok t ∧ run step js t = .ok s' := by
  rw [run_append]
  cases run step is s with
  | error e => simp
  | ok t => simp

/-- A run that stops has a last configuration, and a step that fails there. -/
theorem run_error {e : ε} : ∀ (is : List ι) (s : σ), run step is s = .error e →
    ∃ js i ks t, is = js ++ i :: ks ∧ run step js s = .ok t ∧ step t i = .error e
  | [], s, h => by cases h
  | i :: is, s, h => by
    cases hstep : step s i with
    | error e' =>
      simp only [run, hstep] at h
      cases h
      exact ⟨[], i, is, s, rfl, rfl, hstep⟩
    | ok t =>
      simp only [run, hstep] at h
      obtain ⟨js, j, ks, u, rfl, hu, he⟩ := run_error is t h
      exact ⟨i :: js, j, ks, u, rfl, run_cons_ok.mpr ⟨t, hstep, hu⟩, he⟩

/-- **The invariant rule**: what every step preserves, every run preserves. -/
theorem run_invariant {I : σ → Prop} (hstep : ∀ s i s', I s → step s i = .ok s' → I s') :
    ∀ (is : List ι) (s s' : σ), I s → run step is s = .ok s' → I s'
  | [], s, s', hs, h => by cases h; exact hs
  | i :: is, s, s', hs, h => by
    obtain ⟨t, ht, hrun⟩ := run_cons_ok.mp h
    exact run_invariant hstep is t s' (hstep s i t hs ht) hrun

/-- The invariant rule for the runs whose steps all satisfy `P`. -/
theorem along_invariant {I : σ → Prop} {P : σ → ι → Prop}
    (hstep : ∀ s i s', I s → P s i → step s i = .ok s' → I s') :
    ∀ (is : List ι) (s s' : σ), I s → Along step P is s → run step is s = .ok s' → I s'
  | [], s, s', hs, _, h => by cases h; exact hs
  | i :: is, s, s', hs, hP, h => by
    obtain ⟨t, ht, hrun⟩ := run_cons_ok.mp h
    exact along_invariant hstep is t s' (hstep s i t hs hP.1 ht) (hP.2 t ht) hrun

/-- What the steps of a run are like, when they satisfy `P` and an invariant holds. -/
theorem along_mono {I : σ → Prop} {P Q : σ → ι → Prop}
    (hstep : ∀ s i s', I s → P s i → step s i = .ok s' → I s')
    (hQ : ∀ s i, I s → P s i → Q s i) :
    ∀ (is : List ι) (s : σ), I s → Along step P is s → Along step Q is s
  | [], _, _, _ => trivial
  | i :: is, s, hs, hP =>
    ⟨hQ s i hs hP.1, fun s' hs' =>
      along_mono hstep hQ is s' (hstep s i s' hs hP.1 hs') (hP.2 s' hs')⟩

/-- A condition on the inputs alone. -/
theorem along_of_forall {P : σ → ι → Prop} :
    ∀ (is : List ι) (s : σ), (∀ i ∈ is, ∀ s, P s i) → Along step P is s
  | [], _, _ => trivial
  | i :: is, s, h =>
    ⟨h i (by simp) s, fun s' _ => along_of_forall is s' fun j hj => h j (by simp [hj])⟩

/-- A condition along a run holds along each part of it. -/
theorem along_append {P : σ → ι → Prop} {is js : List ι} {s t : σ}
    (h : Along step P (is ++ js) s) (hrun : run step is s = .ok t) :
    Along step P is s ∧ Along step P js t := by
  induction is generalizing s with
  | nil => cases hrun; exact ⟨trivial, h⟩
  | cons i is ih =>
    obtain ⟨u, hu, hrest⟩ := run_cons_ok.mp hrun
    refine ⟨⟨h.1, fun s' hs' => ?_⟩, (ih (h.2 u hu) hrest).2⟩
    rw [hu] at hs'
    cases hs'
    exact (ih (h.2 u hu) hrest).1

/-- A condition along a run, and at one more step. -/
theorem along_snoc {P : σ → ι → Prop} {is : List ι} {i : ι} {s t : σ} (h : Along step P is s)
    (hrun : run step is s = .ok t) (hP : P t i) : Along step P (is ++ [i]) s := by
  induction is generalizing s with
  | nil =>
    cases hrun
    exact ⟨hP, fun _ _ => trivial⟩
  | cons j is ih =>
    obtain ⟨u, hu, hrest⟩ := run_cons_ok.mp hrun
    refine ⟨h.1, fun s' hs' => ih (h.2 s' hs') ?_⟩
    rw [hu] at hs'
    cases hs'
    exact hrest

/-- A condition along a run is one at each of its steps. -/
theorem along_iff {P : σ → ι → Prop} : ∀ (is : List ι) (s : σ), Along step P is s ↔
    ∀ (js : List ι) (i : ι) (ks : List ι) (t : σ), is = js ++ i :: ks → run step js s = .ok t → P t i
  | [], s => by simp [Along]
  | i :: is, s => by
    simp only [Along, along_iff is]
    constructor
    · rintro ⟨hP, hrest⟩ js j ks t heq hrun
      cases js with
      | nil =>
        cases hrun
        cases heq
        exact hP
      | cons j' js =>
        obtain ⟨rfl, rfl⟩ := List.cons.inj heq
        obtain ⟨u, hu, hrun⟩ := run_cons_ok.mp hrun
        exact hrest u hu js j ks t rfl hrun
    · intro h
      refine ⟨h [] i is s rfl rfl, fun u hu js j ks t heq hrun => ?_⟩
      exact h (i :: js) j ks t (congrArg (i :: ·) heq) (run_cons_ok.mpr ⟨u, hu, hrun⟩)

end Runs
