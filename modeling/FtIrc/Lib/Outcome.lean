import Mathlib

/-!
# When a computation succeeds

A small calculus for programs in `Except ε`:

* `Done P x` — `x` succeeds, with a value that satisfies `P`.
* `Fails E x` — `x` fails, with an error of the class `E`.
* `Decides E p P x` — `x` succeeds with a value that satisfies `P` if `p`, and fails with an error
  of the class `E` if not: `p` is the exact condition for success.

The rules follow the program text: one for a value, one for a sequence, one for a branch.
-/

namespace Outcome

universe u v

variable {ε : Type u} {α β : Type v} {E : ε → Prop} {p q : Prop} {P : α → Prop} {Q : β → Prop}
  {x : Except ε α} {f : α → Except ε β} {a : α} {e : ε}

def Done (P : α → Prop) (x : Except ε α) : Prop := ∃ a, x = .ok a ∧ P a

def Fails (E : ε → Prop) (x : Except ε α) : Prop := ∃ e, x = .error e ∧ E e

def Decides (E : ε → Prop) (p : Prop) (P : α → Prop) (x : Except ε α) : Prop :=
  (p ∧ Done P x) ∨ (¬ p ∧ Fails E x)

/-! ## Success -/

/-- What a sequence returns, from what its parts return. -/
theorem bind_ok_iff {b : β} : x >>= f = .ok b ↔ ∃ a, x = .ok a ∧ f a = .ok b := by
  cases x with
  | error e => simp [bind, Except.bind]
  | ok a => simp [bind, Except.bind]

theorem done_ok (h : P a) : Done P (.ok a : Except ε α) := ⟨a, rfl, h⟩

theorem Done.bind (h : Done P x) (hf : ∀ a, x = .ok a → P a → Done Q (f a)) : Done Q (x >>= f) := by
  obtain ⟨a, rfl, ha⟩ := h
  exact hf a rfl ha

/-- A branch, and then the rest: the form a conditional assignment takes. -/
theorem Done.ite_bind {b : Prop} [Decidable b] {y : Except ε α} (h : Done P (if b then x else y))
    (hf : ∀ a, (if b then x else y) = .ok a → P a → Done Q (f a)) :
    Done Q (if b then x >>= f else y >>= f) := by
  by_cases hb : b
  · rw [if_pos hb]
    rw [if_pos hb] at h hf
    exact h.bind hf
  · rw [if_neg hb]
    rw [if_neg hb] at h hf
    exact h.bind hf

/-- A conditional assignment that reads `x` in one branch only. -/
theorem Done.ite_assign {γ : Type v} {b : Prop} [Decidable b] {y : Except ε γ} {g : γ → α} (P : α → Prop)
    (hy : b → ∃ c, y = .ok c ∧ P (g c)) (ha : ¬ b → P a) (hf : ∀ a, P a → Done Q (f a)) :
    Done Q (if b then y >>= fun c => (Except.ok (g c) : Except ε α) >>= f
      else (Except.ok a : Except ε α) >>= f) := by
  by_cases hb : b
  · obtain ⟨c, hc, hP⟩ := hy hb
    rw [if_pos hb, hc]
    exact hf (g c) hP
  · rw [if_neg hb]
    exact hf a (ha hb)

theorem Done.mono {P' : α → Prop} (h : Done P x) (hP : ∀ a, P a → P' a) : Done P' x := by
  obtain ⟨a, hx, ha⟩ := h
  exact ⟨a, hx, hP a ha⟩

theorem Done.not_fails (h : Done P x) : ¬ Fails E x := by
  obtain ⟨a, rfl, -⟩ := h
  rintro ⟨e, he, -⟩
  cases he

/-! ## Failure -/

theorem fails_error (h : E e) : Fails E (.error e : Except ε α) := ⟨e, rfl, h⟩

theorem Fails.bind (h : Fails E x) : Fails E (x >>= f) := by
  obtain ⟨e, rfl, he⟩ := h
  exact ⟨e, rfl, he⟩

/-! ## Exact conditions -/

theorem Done.decides (h : Done P x) (hp : p) : Decides E p P x := .inl ⟨hp, h⟩

theorem Fails.decides (h : Fails E x) (hp : ¬ p) : Decides E p P x := .inr ⟨hp, h⟩

theorem Decides.congr (h : Decides E p P x) (hpq : q ↔ p) : Decides E q P x := by
  rcases h with ⟨hp, h⟩ | ⟨hp, h⟩
  · exact .inl ⟨hpq.mpr hp, h⟩
  · exact .inr ⟨fun hq => hp (hpq.mp hq), h⟩

theorem Decides.mono {P' : α → Prop} (h : Decides E p P x) (hP : ∀ a, P a → P' a) :
    Decides E p P' x := by
  rcases h with ⟨hp, h⟩ | ⟨hp, h⟩
  · exact .inl ⟨hp, h.mono hP⟩
  · exact .inr ⟨hp, h⟩

/-- A sequence succeeds if both parts do; the condition of the second may use what the first
established. -/
theorem Decides.bind (h : Decides E p P x) (hf : ∀ a, x = .ok a → P a → Decides E q Q (f a)) :
    Decides E (p ∧ q) Q (x >>= f) := by
  rcases h with ⟨hp, a, rfl, ha⟩ | ⟨hp, h⟩
  · exact (hf a rfl ha).congr (and_iff_right hp)
  · exact h.bind.decides fun hpq => hp hpq.1

theorem Decides.done_iff (h : Decides E p P x) : Done P x ↔ p := by
  rcases h with ⟨hp, h⟩ | ⟨hp, h⟩
  · exact ⟨fun _ => hp, fun _ => h⟩
  · exact ⟨fun hd => absurd h hd.not_fails, fun h' => absurd h' hp⟩

theorem Decides.fails_iff (h : Decides E p P x) : Fails E x ↔ ¬ p := by
  rcases h with ⟨hp, h⟩ | ⟨hp, h⟩
  · exact ⟨fun hf => absurd hf h.not_fails, fun h' => absurd hp h'⟩
  · exact ⟨fun _ => hp, fun _ => h⟩

/-- A computation that returns a value satisfied what success requires. -/
theorem Decides.of_ok (h : Decides E p P x) (hx : x = .ok a) : p ∧ P a := by
  subst hx
  rcases h with ⟨hp, b, hb, hP⟩ | ⟨-, e, he, -⟩
  · cases hb
    exact ⟨hp, hP⟩
  · cases he

end Outcome
