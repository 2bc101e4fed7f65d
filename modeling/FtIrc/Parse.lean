import FtIrc.Split

/-!
# The arguments of a line that is built

`splitCmdToArgs` searches the first colon before it cuts at spaces.  `rawArgs` is what it finds before it
drops what is too much, with one equation for each thing a line can begin with, so that the arguments of a
line that is put together from words can be read off.
-/

namespace FtIrc

open Delimited

variable {s w rest after a b : Str}

/-- The last argument, unless it is empty. -/
def afterColon (s : Str) : List Str :=
  if (s.dropWhile (· ≠ COLON)).tail = [] then [] else [(s.dropWhile (· ≠ COLON)).tail]

/-- The arguments, before the first `MAX_ARGS` are kept. -/
def rawArgs (s : Str) : List Str := splitAll [SPACE] (s.takeWhile (· ≠ COLON)) ++ afterColon s

theorem unbordered_space : Unbordered [SPACE] := fun k h0 h1 => by
  simp only [List.length_singleton] at h1
  omega

theorem splitAll_word (hne : w ≠ []) (hw : SPACE ∉ w) : splitAll [SPACE] w = [w] := by
  have hnone : split [SPACE] w = ([], w) :=
    split_none ((find_eq_none_iff (by simp)).mpr (free_singleton.mpr hw))
  rw [splitAll, hnone]
  exact if_neg hne

theorem splitAll_space_cons : splitAll [SPACE] (SPACE :: rest) = splitAll [SPACE] rest :=
  splitAll_append (by simp) unbordered_space [] rest

theorem splitAll_word_space (hne : w ≠ []) (hw : SPACE ∉ w) :
    splitAll [SPACE] (w ++ SPACE :: rest) = w :: splitAll [SPACE] rest := by
  have happ := splitAll_append (by simp) unbordered_space w rest
  rw [List.append_assoc, List.singleton_append, splitAll_word hne hw] at happ
  exact happ

/-! ## The colon -/

theorem not_colon (hs : COLON ∉ s) : ∀ c ∈ s, decide (c ≠ COLON) = true :=
  fun _ hc => decide_eq_true fun h => hs (h ▸ hc)

theorem takeWhile_colon (ha : COLON ∉ a) : (a ++ COLON :: b).takeWhile (· ≠ COLON) = a := by
  rw [List.takeWhile_append_of_pos (not_colon ha)]
  simp

theorem dropWhile_colon (ha : COLON ∉ a) : (a ++ COLON :: b).dropWhile (· ≠ COLON) = COLON :: b := by
  rw [List.dropWhile_append_of_pos (not_colon ha)]
  simp

theorem takeWhile_no_colon (hs : COLON ∉ s) : s.takeWhile (· ≠ COLON) = s :=
  List.takeWhile_eq_self_iff.mpr (not_colon hs)

theorem dropWhile_no_colon (hs : COLON ∉ s) : s.dropWhile (· ≠ COLON) = [] :=
  List.dropWhile_eq_nil_iff.mpr (not_colon hs)

theorem rawArgs_colon (ha : COLON ∉ a) : rawArgs (a ++ COLON :: b) =
    splitAll [SPACE] a ++ if b = [] then [] else [b] := by
  unfold rawArgs afterColon
  rw [takeWhile_colon ha, dropWhile_colon ha]
  rfl

theorem rawArgs_no_colon (hs : COLON ∉ s) : rawArgs s = splitAll [SPACE] s := by
  unfold rawArgs afterColon
  rw [takeWhile_no_colon hs, dropWhile_no_colon hs]
  exact List.append_nil _

/-- `splitCmdToArgs` keeps the first of them. -/
theorem splitCmdToArgs_eq (s : Str) : splitCmdToArgs s = (rawArgs s).take MAX_ARGS := by
  unfold splitCmdToArgs
  by_cases hs : s = []
  · rw [if_pos hs, hs]
    rfl
  rw [if_neg hs]
  by_cases hc : COLON ∈ s
  · obtain ⟨a, b, rfl, ha⟩ := List.eq_append_cons_of_mem hc
    have hfind : find [COLON] (a ++ COLON :: b) = some a.length := by
      have hpiece : find [COLON] (a ++ [COLON]) = some a.length := piece_singleton ha
      have happ := find_append (t := b) (by simp) hpiece
      rwa [List.append_assoc] at happ
    have htake : (a ++ COLON :: b).take a.length = a := List.take_left
    have hdrop : (a ++ COLON :: b).drop (a.length + 1) = b := by simp
    rw [hfind, rawArgs_colon ha]
    simp only [htake, hdrop]
    split
    · rw [List.append_nil]
    · rfl
  · have hnone : find [COLON] s = none := (find_eq_none_iff (by simp)).mpr (free_singleton.mpr hc)
    rw [hnone, rawArgs_no_colon hc]
    rfl

theorem mem_splitAll_space (h : w ∈ splitAll [SPACE] s) : SPACE ∉ w := by
  refine free_singleton.mp ?_
  rw [splitAll] at h
  split at h
  · exact split_part_free (by simp) h
  · rcases List.mem_append.mp h with h | h
    · exact split_part_free (by simp) h
    · rw [List.mem_singleton.mp h]
      exact split_rest_free (by simp) s

theorem length_afterColon (s : Str) : (afterColon s).length ≤ 1 := by
  unfold afterColon
  split <;> simp

/-- Only the last argument can contain a space. -/
theorem space_not_mem_arg {i : Nat} (h : (splitCmdToArgs s)[i]? = some w) (hi : i + 1 < (splitCmdToArgs s).length) :
    SPACE ∉ w := by
  have hlen := length_afterColon s
  rw [splitCmdToArgs_eq] at h hi
  rw [List.getElem?_take] at h
  simp only [List.length_take, rawArgs, List.length_append] at hi
  split at h
  · unfold rawArgs at h
    rw [List.getElem?_append_left (by omega)] at h
    exact mem_splitAll_space (List.mem_of_getElem? h)
  · cases h

/-! ## What a line begins with -/

theorem rawArgs_nil : rawArgs [] = [] := rfl

/-- A word and a space. -/
theorem rawArgs_word_space (hne : w ≠ []) (hw : SPACE ∉ w) (hc : COLON ∉ w) :
    rawArgs (w ++ SPACE :: rest) = w :: rawArgs rest := by
  have hall : ∀ c ∈ w ++ [SPACE], decide (c ≠ COLON) = true := by
    intro c hc'
    rcases List.mem_append.mp hc' with h | h
    · exact not_colon hc _ h
    · rw [List.mem_singleton.mp h]
      decide
  have happ : w ++ SPACE :: rest = (w ++ [SPACE]) ++ rest := by simp
  unfold rawArgs afterColon
  rw [happ, List.takeWhile_append_of_pos hall, List.dropWhile_append_of_pos hall, List.append_assoc,
    List.singleton_append, splitAll_word_space hne hw]
  rfl

/-- A space. -/
theorem rawArgs_space : rawArgs (SPACE :: rest) = rawArgs rest := by
  have hall : ∀ c ∈ [SPACE], decide (c ≠ COLON) = true := not_colon (by decide)
  unfold rawArgs afterColon
  rw [← List.singleton_append (x := SPACE) (l := rest), List.takeWhile_append_of_pos hall,
    List.dropWhile_append_of_pos hall, List.singleton_append, splitAll_space_cons]

/-- A word and the colon. -/
theorem rawArgs_word_colon (hne : w ≠ []) (hw : SPACE ∉ w) (hc : COLON ∉ w) (hb : b ≠ []) :
    rawArgs (w ++ COLON :: b) = [w, b] := by
  rw [rawArgs_colon hc, splitAll_word hne hw, if_neg hb]
  rfl

/-- The colon. -/
theorem rawArgs_text (hb : b ≠ []) : rawArgs (COLON :: b) = [b] := by
  have h := rawArgs_colon (a := []) (b := b) List.not_mem_nil
  rw [if_neg hb] at h
  exact h

/-- A last word. -/
theorem rawArgs_word (hne : w ≠ []) (hw : SPACE ∉ w) (hc : COLON ∉ w) : rawArgs w = [w] := by
  rw [rawArgs_no_colon hc, splitAll_word hne hw]

/-- A line with a text has an argument. -/
theorem rawArgs_ne_nil (hb : b ≠ []) : rawArgs (a ++ COLON :: b) ≠ [] := by
  by_cases ha : COLON ∈ a
  · obtain ⟨u, v, rfl, hu⟩ := List.eq_append_cons_of_mem ha
    rw [List.append_assoc, List.cons_append, rawArgs_colon hu, if_neg (by simp)]
    simp
  · rw [rawArgs_colon ha, if_neg hb]
    simp

end FtIrc
