import FtIrc.Lib.Runs

/-!
# The trace of a run

What a step does may be told by a list of events: `obs s i` are those of the step that the input `i` makes
in the state `s`.  The trace of a run is the events of its steps, one after the other; a step that fails
has none.

* `trace_invariant` — a relation between the events so far and the state that every step keeps, every run
  keeps.
* `trace_refines` — an abstract machine that follows every step by its events follows every run by its trace.
* `trace_mem` — an event of a run is one of its steps.
* `run_map` — a map of the states that every step respects, every run respects.
-/

namespace Runs

variable {σ ι ε δ α β : Type*} {step : σ → ι → Except ε σ} {obs : σ → ι → List β}

/-- The events of the steps of a run. -/
def trace (step : σ → ι → Except ε σ) (obs : σ → ι → List β) : List ι → σ → List β
  | [], _ => []
  | i :: is, s =>
    match step s i with
    | .error _ => []
    | .ok s' => obs s i ++ trace step obs is s'

@[simp] theorem trace_nil (s : σ) : trace step obs [] s = [] := rfl

theorem trace_cons {i : ι} {s t : σ} (h : step s i = .ok t) (is : List ι) :
    trace step obs (i :: is) s = obs s i ++ trace step obs is t := by
  simp only [trace, h]

theorem trace_error {i : ι} {s : σ} {e : ε} (h : step s i = .error e) (is : List ι) :
    trace step obs (i :: is) s = [] := by
  simp only [trace, h]

theorem trace_append {is : List ι} {s t : σ} (h : run step is s = .ok t) (js : List ι) :
    trace step obs (is ++ js) s = trace step obs is s ++ trace step obs js t := by
  induction is generalizing s with
  | nil =>
    cases h
    rfl
  | cons i is ih =>
    obtain ⟨u, hu, hrest⟩ := run_cons_ok.mp h
    rw [List.cons_append, trace_cons hu, trace_cons hu, ih hrest, List.append_assoc]

/-- **The invariant rule with a history**: what relates the events so far and the state, and is kept by every
step that satisfies `P`, is kept by every run of such steps. -/
theorem trace_along {R : List β → σ → Prop} {P : σ → ι → Prop}
    (hstep : ∀ log s i s', R log s → P s i → step s i = .ok s' → R (log ++ obs s i) s') :
    ∀ (is : List ι) (log : List β) (s s' : σ), R log s → Along step P is s → run step is s = .ok s' →
      R (log ++ trace step obs is s) s'
  | [], log, s, s', hR, _, h => by
    cases h
    rwa [trace_nil, List.append_nil]
  | i :: is, log, s, s', hR, hP, h => by
    obtain ⟨t, ht, hrun⟩ := run_cons_ok.mp h
    rw [trace_cons ht, ← List.append_assoc]
    exact trace_along hstep is _ t s' (hstep log s i t hR hP.1 ht) (hP.2 t ht) hrun

theorem trace_invariant {R : List β → σ → Prop}
    (hstep : ∀ log s i s', R log s → step s i = .ok s' → R (log ++ obs s i) s') (is : List ι) (s s' : σ)
    (hR : R [] s) (h : run step is s = .ok s') : R (trace step obs is s) s' := by
  have hall : Along step (fun _ _ => True) is s := along_of_forall is s fun _ _ _ => trivial
  exact trace_along (fun log s i s' hR _ => hstep log s i s' hR) is [] s s' hR hall h

/-- **Refinement**: if the abstract machine `act` follows every step by making the events of the step, it
follows every run by making its trace. -/
theorem trace_refines {abs : σ → α} {act : α → β → Except δ α} {I : σ → Prop}
    (hI : ∀ s i s', I s → step s i = .ok s' → I s')
    (hact : ∀ s i s', I s → step s i = .ok s' → run act (obs s i) (abs s) = .ok (abs s')) (is : List ι)
    (s s' : σ) (hs : I s) (h : run step is s = .ok s') :
    run act (trace step obs is s) (abs s) = .ok (abs s') := by
  have hone : ∀ log t i t', (I t ∧ run act log (abs s) = .ok (abs t)) → step t i = .ok t' →
      I t' ∧ run act (log ++ obs t i) (abs s) = .ok (abs t') := by
    rintro log t i t' ⟨hIt, ht⟩ hstep
    exact ⟨hI t i t' hIt hstep, run_append_ok.mpr ⟨abs t, ht, hact t i t' hIt hstep⟩⟩
  exact (trace_invariant hone is s s' ⟨hs, rfl⟩ h).2

/-- An event of a run is one of its steps. -/
theorem trace_mem {b : β} : ∀ (is : List ι) (s : σ), b ∈ trace step obs is s →
    ∃ js i ks t u, is = js ++ i :: ks ∧ run step js s = .ok t ∧ step t i = .ok u ∧ b ∈ obs t i
  | [], _, h => by cases h
  | i :: is, s, h => by
    cases hstep : step s i with
    | error e =>
      simp only [trace, hstep] at h
      cases h
    | ok t =>
      rw [trace_cons hstep, List.mem_append] at h
      rcases h with h | h
      · exact ⟨[], i, is, s, t, rfl, rfl, hstep, h⟩
      · obtain ⟨js, j, ks, u, v, rfl, hu, hv, hb⟩ := trace_mem is t h
        exact ⟨i :: js, j, ks, u, v, rfl, run_cons_ok.mpr ⟨t, hstep, hu⟩, hv, hb⟩

/-- **A map of the states**: if the machine comes from the image of a state to the image of what it comes to from the
state, in every step that satisfies `P`, so it does in every run of such steps; and one run stops where the other
does. -/
theorem run_map {f : σ → σ} {I : σ → Prop} {P : σ → ι → Prop} (hI : ∀ s i s', I s → step s i = .ok s' → I s')
    (hf : ∀ s i, I s → P s i → (step (f s) i).toOption = (step s i).toOption.map f) :
    ∀ (is : List ι) (s : σ), I s → Along step P is s →
      (run step is (f s)).toOption = (run step is s).toOption.map f
  | [], _, _, _ => rfl
  | i :: is, s, hs, hP => by
    have hone := hf s i hs hP.1
    unfold run
    cases hstep : step s i with
    | ok t =>
      rw [hstep] at hone
      cases himage : step (f s) i with
      | error e =>
        rw [himage] at hone
        cases hone
      | ok u =>
        rw [himage] at hone
        cases hone
        exact run_map hI hf is t (hI s i t hs hstep) (hP.2 t hstep)
    | error e =>
      rw [hstep] at hone
      cases himage : step (f s) i with
      | error e' => rfl
      | ok u =>
        rw [himage] at hone
        cases hone

end Runs
