import FtIrc.Lib.Runs

/-!
# Ledgers

A ledger lists what is acquired and what is released, in order.  Posting an entry to the set of what is held
(`post`) is an error when something is acquired that is held already, or released that is not held.  So a ledger
that can be posted releases nothing twice and nothing that was not acquired; and what it leaves is what was
acquired once more often than released (`count_acquire`).
-/

namespace Ledger

variable {α β : Type*}

inductive Entry (α : Type*) where
  | acquire (a : α)
  | release (a : α)
  deriving DecidableEq, Repr

def Entry.map (f : α → β) : Entry α → Entry β
  | .acquire a => .acquire (f a)
  | .release a => .release (f a)

variable [DecidableEq α] [DecidableEq β] {held held' : Finset α} {a b : α} {as bs : List α} {log log' : List (Entry α)}

/-- What is held after an entry. -/
def post (held : Finset α) : Entry α → Except (Entry α) (Finset α)
  | .acquire a => if a ∈ held then .error (.acquire a) else .ok (insert a held)
  | .release a => if a ∈ held then .ok (held.erase a) else .error (.release a)

theorem post_acquire (h : a ∉ held) : post held (.acquire a) = .ok (insert a held) := if_neg h

theorem post_release (h : a ∈ held) : post held (.release a) = .ok (held.erase a) := if_pos h

theorem post_append (h : Runs.run post log held = .ok held') :
    Runs.run post (log ++ log') held = Runs.run post log' held' := by
  rw [Runs.run_append, h]

/-- Several things are acquired. -/
theorem post_acquires : ∀ (as : List α) (held : Finset α), as.Nodup → (∀ a ∈ as, a ∉ held) →
    Runs.run post (as.map .acquire) held = .ok (held ∪ as.toFinset)
  | [], held, _, _ => by simp [Runs.run]
  | a :: as, held, hnodup, hfree => by
    obtain ⟨ha, hnodup⟩ := List.nodup_cons.mp hnodup
    have hrest := post_acquires as (insert a held) hnodup fun b hb hin => by
      rcases Finset.mem_insert.mp hin with rfl | hin
      · exact ha hb
      · exact hfree b (List.mem_cons_of_mem _ hb) hin
    have heq : insert a held ∪ as.toFinset = held ∪ (a :: as).toFinset := by
      ext b
      simp only [Finset.mem_union, Finset.mem_insert, List.mem_toFinset, List.mem_cons]
      tauto
    rw [← heq]
    exact Runs.run_cons_ok.mpr ⟨_, post_acquire (hfree a (List.mem_cons_self ..)), hrest⟩

/-- Several things are released. -/
theorem post_releases : ∀ (as : List α) (held : Finset α), as.Nodup → (∀ a ∈ as, a ∈ held) →
    Runs.run post (as.map .release) held = .ok (held \ as.toFinset)
  | [], held, _, _ => by simp [Runs.run]
  | a :: as, held, hnodup, hin => by
    obtain ⟨ha, hnodup⟩ := List.nodup_cons.mp hnodup
    have hrest := post_releases as (held.erase a) hnodup fun b hb =>
      Finset.mem_erase.mpr ⟨fun he => ha (he ▸ hb), hin b (List.mem_cons_of_mem _ hb)⟩
    have heq : held.erase a \ as.toFinset = held \ (a :: as).toFinset := by
      ext b
      simp only [Finset.mem_sdiff, Finset.mem_erase, List.mem_toFinset, List.mem_cons]
      tauto
    rw [← heq]
    exact Runs.run_cons_ok.mpr ⟨_, post_release (hin a (List.mem_cons_self ..)), hrest⟩

/-- A ledger of other names for the same things. -/
theorem post_map {f : α → β} (hf : Function.Injective f) : ∀ (log : List (Entry α)) (held held' : Finset α),
    Runs.run post log held = .ok held' →
      Runs.run post (log.map (Entry.map f)) (held.image f) = .ok (held'.image f)
  | [], held, held', h => by
    cases h
    rfl
  | e :: log, held, held', h => by
    obtain ⟨mid, hone, hrest⟩ := Runs.run_cons_ok.mp h
    refine Runs.run_cons_ok.mpr ⟨mid.image f, ?_, post_map hf log mid held' hrest⟩
    cases e with
    | acquire a =>
      unfold post at hone
      simp only at hone
      split at hone
      · cases hone
      · rename_i ha
        cases hone
        rw [Finset.image_insert]
        exact post_acquire fun hin => ha (hf.mem_finset_image.mp hin)
    | release a =>
      unfold post at hone
      simp only at hone
      split at hone
      · rename_i ha
        cases hone
        rw [Finset.image_erase hf]
        exact post_release (hf.mem_finset_image.mpr ha)
      · cases hone

/-- **The balance**: what a ledger leaves was acquired once more often than released, and everything else as often
as released. -/
theorem count_acquire : ∀ (log : List (Entry α)) (held held' : Finset α), Runs.run post log held = .ok held' →
    log.count (.acquire a) + (if a ∈ held then 1 else 0) =
      log.count (.release a) + (if a ∈ held' then 1 else 0)
  | [], held, held', h => by
    cases h
    rfl
  | .acquire b :: log, held, held', h => by
    obtain ⟨mid, hone, hrest⟩ := Runs.run_cons_ok.mp h
    have ih := count_acquire log mid held' hrest
    unfold post at hone
    simp only at hone
    split at hone
    · cases hone
    · rename_i hb
      cases hone
      rw [List.count_cons, List.count_cons]
      simp only [Finset.mem_insert, beq_iff_eq, Entry.acquire.injEq, reduceCtorEq, if_false] at ih ⊢
      by_cases hab : b = a
      · subst hab
        simp only [true_or, if_true, hb, if_false] at ih ⊢
        omega
      · have hba : a ≠ b := fun he => hab he.symm
        simp only [hab, hba, false_or, if_false] at ih ⊢
        omega
  | .release b :: log, held, held', h => by
    obtain ⟨mid, hone, hrest⟩ := Runs.run_cons_ok.mp h
    have ih := count_acquire log mid held' hrest
    unfold post at hone
    simp only at hone
    split at hone
    · rename_i hb
      cases hone
      rw [List.count_cons, List.count_cons]
      simp only [Finset.mem_erase, beq_iff_eq, Entry.release.injEq, reduceCtorEq, if_false] at ih ⊢
      by_cases hab : b = a
      · subst hab
        simp only [ne_eq, not_true_eq_false, false_and, if_false, hb, if_true] at ih ⊢
        omega
      · have hba : a ≠ b := fun he => hab he.symm
        simp only [hab, ne_eq, hba, not_false_eq_true, true_and, if_false] at ih ⊢
        omega
    · cases hone

end Ledger
