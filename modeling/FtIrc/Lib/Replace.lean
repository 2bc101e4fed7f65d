import FtIrc.Lib.Delimited

/-!
# Replacing every occurrence of an element

The loop that searches for `a` from a position on, puts the list `r` in its place and goes on from the position it
was found at.  It comes to the substitution of `r` for `a` when `a` does not occur in `r` (`replaceAll_eq`).
-/

namespace Replace

open Delimited

variable {α : Type*} [DecidableEq α] {a b : α} {r s : List α}

/-- The loop, with the number of rounds still to make and the position it has come to. -/
def loop (a : α) (r : List α) : Nat → Nat → List α → List α
  | 0, _, s => s
  | n + 1, pos, s =>
    match find [a] (s.drop pos) with
    | none => s
    | some i => loop a r n (pos + i) (s.take (pos + i) ++ r ++ s.drop (pos + i + 1))

/-- Every `a` is replaced by `r`; each round replaces one of those that `s` has. -/
def replaceAll (a : α) (r s : List α) : List α := loop a r s.length 0 s

/-- What stands for an element. -/
def subst (a : α) (r : List α) (x : α) : List α := if x = a then r else [x]

theorem flatMap_subst (h : a ∉ s) : s.flatMap (subst a r) = s := by
  induction s with
  | nil => rfl
  | cons x s ih =>
    rw [List.mem_cons, not_or] at h
    rw [List.flatMap_cons, ih h.2]
    unfold subst
    rw [if_neg (Ne.symm h.1)]
    rfl

/-- The element that is found is the first. -/
theorem find_singleton {i : Nat} (h : find [a] s = some i) :
    a ∉ s.take i ∧ s = s.take i ++ a :: s.drop (i + 1) := by
  have heq := find_some_eq (List.cons_ne_nil a []) h
  refine ⟨fun hin => ?_, heq⟩
  obtain ⟨j, hj, hget⟩ := List.mem_iff_getElem.mp hin
  rw [List.length_take] at hj
  apply ((find_some_iff (List.cons_ne_nil a [])).mp h).2 j (by omega)
  rw [List.getElem_take] at hget
  rw [List.drop_eq_getElem_cons (by omega), hget]
  exact ⟨_, rfl⟩

/-- **What the loop comes to**: `u` is done, `v` is to come. -/
theorem loop_eq (hr : a ∉ r) : ∀ (n : Nat) (u v : List α), v.count a ≤ n →
    loop a r n u.length (u ++ v) = u ++ v.flatMap (subst a r)
  | 0, u, v, h => by
    have hv : a ∉ v := List.count_eq_zero.mp (by omega)
    rw [flatMap_subst hv]
    rfl
  | n + 1, u, v, h => by
    unfold loop
    rw [List.drop_left]
    cases hfind : find [a] v with
    | none =>
      have hv : a ∉ v := free_singleton.mp ((find_eq_none_iff (List.cons_ne_nil a [])).mp hfind)
      rw [flatMap_subst hv]
    | some i =>
      obtain ⟨hfree, heq⟩ := find_singleton hfind
      have hle := find_some_le (List.cons_ne_nil a []) hfind
      rw [List.length_singleton] at hle
      -- the next round starts at the replacement
      have htake : (u ++ v).take (u.length + i) = u ++ v.take i := by
        rw [List.take_append, List.take_of_length_le (by omega), Nat.add_sub_cancel_left]
      have hdrop : (u ++ v).drop (u.length + i + 1) = v.drop (i + 1) := by
        rw [Nat.add_assoc, ← List.drop_drop, List.drop_left]
      have hlen : u.length + i = (u ++ v.take i).length := by
        rw [List.length_append, List.length_take]
        omega
      have hcount : (r ++ v.drop (i + 1)).count a ≤ n := by
        have hall := congrArg (List.count a) heq
        rw [List.count_append, List.count_cons_self] at hall
        rw [List.count_append, List.count_eq_zero.mpr hr]
        omega
      show loop a r n (u.length + i) ((u ++ v).take (u.length + i) ++ r ++ (u ++ v).drop (u.length + i + 1)) = _
      rw [htake, hdrop, hlen, List.append_assoc, loop_eq hr n _ _ hcount]
      conv_rhs => rw [heq]
      rw [List.flatMap_append, List.flatMap_append, List.flatMap_cons, flatMap_subst hr, flatMap_subst hfree,
        List.append_assoc]
      congr 3
      exact (if_pos rfl).symm

theorem replaceAll_eq (hr : a ∉ r) (s : List α) : replaceAll a r s = s.flatMap (subst a r) :=
  loop_eq hr s.length [] s List.count_le_length

theorem not_mem_replaceAll (hr : a ∉ r) (s : List α) : a ∉ replaceAll a r s := by
  rw [replaceAll_eq hr, List.mem_flatMap]
  rintro ⟨x, -, hx⟩
  unfold subst at hx
  split at hx
  · exact hr hx
  · rename_i hne
    exact hne (List.mem_singleton.mp hx).symm

/-- Nothing comes in but the replacement. -/
theorem mem_replaceAll (hr : a ∉ r) (h : b ∈ replaceAll a r s) : b ∈ s ∨ b ∈ r := by
  rw [replaceAll_eq hr, List.mem_flatMap] at h
  obtain ⟨x, hx, hb⟩ := h
  unfold subst at hb
  split at hb
  · exact .inr hb
  · exact .inl (List.mem_singleton.mp hb ▸ hx)

end Replace
