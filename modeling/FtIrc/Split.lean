import FtIrc.Lib.Delimited
import FtIrc.Text

/-!
# From received bytes to commands and arguments

The three splitters of `utils.cpp`, each a use of the search-and-erase loop `Delimited.split`:

* `splitBufToCmds` — the received buffer at CRLF; what is left becomes `bufRecv`.
* `splitCmdToArgs` — a command at spaces, with the text after the first colon as last argument.
* `splitArgToSubargs` — an argument at commas.
-/

namespace FtIrc

open Delimited

/-- A loop over one delimiter whose remainder counts as a last part. -/
def splitAll (d s : Str) : List Str :=
  let r := split d s
  if r.2 = [] then r.1 else r.1 ++ [r.2]

/-- The rewrite for clients that end a line with LF only (`nc`): the buffer ends with LF, not
with CRLF, and contains no CRLF. -/
def fromNetcat (s : Str) : Bool :=
  2 ≤ s.length && s.getLast? = some LF && s.dropLast.getLast? ≠ some CR && (find CRLF s).isNone

/-- `splitBufToCmds(s)`: the commands, and the new value of `cli->bufRecv` (kept when `s` is
empty). -/
def splitBufToCmds (bufRecv s : Str) : List Str × Str :=
  if s = [] then ([], bufRecv)
  else split CRLF (if fromNetcat s then s.dropLast ++ [CR] ++ [LF] else s)

/-- Number of arguments kept. -/
def MAX_ARGS : Nat := 17

/-- `splitCmdToArgs`. -/
def splitCmdToArgs (s : Str) : List Str :=
  if s = [] then []
  else
    let (before, afterColon) :=
      match find [COLON] s with
      | some pos => (s.take pos, s.drop (pos + 1))
      | none => (s, [])
    let parts := splitAll [SPACE] before
    let parts := if afterColon = [] then parts else parts ++ [afterColon]
    parts.take MAX_ARGS

/-- `splitArgToSubargs`. -/
def splitArgToSubargs (s : Str) : List Str :=
  if s = [] then [] else splitAll [COMMA] s

example : splitCmdToArgs (str "PRIVMSG  bob,al :a: b") =
    [str "PRIVMSG", str "bob,al", str "a: b"] := by decide

/-! ## What the splitters return -/

theorem crlf_ne_nil : CRLF ≠ [] := by simp [CRLF]

theorem crlf_unbordered : Unbordered CRLF := by
  intro k h0 h1 hpre
  have hk : k = 1 := by
    simp only [CRLF, List.length_cons, List.length_nil] at h1
    omega
  subst hk
  exact absurd hpre (by decide)

theorem splitAll_part {d s p : Str} (hd : d ≠ []) (hp : p ∈ splitAll d s) : p ≠ [] ∧ p <:+: s := by
  unfold splitAll at hp
  simp only at hp
  split at hp
  · exact split_part hd hp
  · rename_i hr
    rcases List.mem_append.mp hp with hp | hp
    · exact split_part hd hp
    · simp only [List.mem_singleton] at hp
      subst hp
      exact ⟨hr, (split_rest_suffix hd s).isInfix⟩

theorem splitArgToSubargs_part {s p : Str} (hp : p ∈ splitArgToSubargs s) : p ≠ [] ∧ p <:+: s := by
  unfold splitArgToSubargs at hp
  split at hp
  · simp at hp
  · exact splitAll_part (by simp) hp

theorem splitArgToSubargs_comma {s p : Str} (hp : p ∈ splitArgToSubargs s) : COMMA ∉ p := by
  have hd : [COMMA] ≠ [] := by simp
  unfold splitArgToSubargs at hp
  split at hp
  · simp at hp
  · unfold splitAll at hp
    simp only at hp
    split at hp
    · exact free_singleton.mp (split_part_free hd hp)
    · rcases List.mem_append.mp hp with hp | hp
      · exact free_singleton.mp (split_part_free hd hp)
      · rw [List.mem_singleton.mp hp]
        exact free_singleton.mp (split_rest_free hd s)

/-- Items that are each followed by a comma, without the last comma, are the items of the list. -/
theorem splitArgToSubargs_join {ks : List Str} (h : ∀ k ∈ ks, k ≠ [] ∧ COMMA ∉ k) :
    splitArgToSubargs (ks.map (· ++ [COMMA])).flatten.dropLast = ks := by
  rcases List.eq_nil_or_concat ks with rfl | ⟨init, last, rfl⟩
  · rfl
  obtain ⟨hne, hcomma⟩ := h last (by simp)
  have hinit : ∀ k ∈ init, Piece [COMMA] k := fun k hk => piece_singleton (h k (by simp [hk])).2
  have hflat : ((init.concat last).map (· ++ [COMMA])).flatten.dropLast =
      (init.map (· ++ [COMMA])).flatten ++ last := by
    rw [List.concat_eq_append, List.map_append, List.flatten_append, List.map_singleton,
      List.flatten_singleton, ← List.append_assoc, List.dropLast_concat]
  have hkeep : init.filter (· ≠ []) = init :=
    List.filter_eq_self.mpr fun k hk => by simpa using (h k (by simp [hk])).1
  rw [hflat, splitArgToSubargs, if_neg (by simp [hne]), splitAll,
    split_pieces (by simp) hinit (free_singleton.mpr hcomma), hkeep]
  simp [hne]

/-- Both sides of a delimiter are split on their own. -/
theorem splitAll_append {d : Str} (hd : d ≠ []) (hu : Unbordered d) (a b : Str) :
    splitAll d (a ++ d ++ b) = splitAll d a ++ splitAll d b := by
  have hpiece : Piece d (split d a).2 := piece_of_free hd hu (split_rest_free hd a)
  have hsplit : split d (a ++ d ++ b) =
      ((split d a).1 ++ (if (split d a).2 = [] then (split d b).1
        else (split d a).2 :: (split d b).1), (split d b).2) := by
    rw [List.append_assoc, split_append hd, ← List.append_assoc, split_piece_append hd hpiece]
  unfold splitAll
  rw [hsplit]
  by_cases ha : (split d a).2 = [] <;> by_cases hb : (split d b).2 = [] <;> simp [ha, hb]

theorem splitArgToSubargs_append (a b : Str) :
    splitArgToSubargs (a ++ COMMA :: b) = splitArgToSubargs a ++ splitArgToSubargs b := by
  have hnil : splitAll [COMMA] [] = [] := rfl
  have heq : ∀ s, splitArgToSubargs s = splitAll [COMMA] s := by
    intro s
    unfold splitArgToSubargs
    split
    · rename_i hs
      rw [hs, hnil]
    · rfl
  have hu : Unbordered [COMMA] := fun k h0 h1 => by
    simp only [List.length_singleton] at h1
    omega
  have h := splitAll_append (by simp) hu a b
  rw [List.append_assoc, List.singleton_append] at h
  rw [heq, heq, heq, h]

theorem splitArgToSubargs_item {n : Str} (hne : n ≠ []) (hc : COMMA ∉ n) :
    splitArgToSubargs n = [n] := by
  have hnone : split [COMMA] n = ([], n) :=
    split_none ((find_eq_none_iff (by simp)).mpr (free_singleton.mpr hc))
  rw [splitArgToSubargs, if_neg hne, splitAll, hnone]
  exact if_neg hne

theorem splitCmdToArgs_arg {s a : Str} (ha : a ∈ splitCmdToArgs s) : a ≠ [] ∧ a <:+: s := by
  unfold splitCmdToArgs at ha
  split at ha
  · simp at ha
  have key : ∀ before after : Str, before <:+: s → after <:+: s →
      a ∈ (if after = [] then splitAll [SPACE] before
        else splitAll [SPACE] before ++ [after]).take MAX_ARGS → a ≠ [] ∧ a <:+: s := by
    intro before after hb haf hm
    have hm := List.mem_of_mem_take hm
    split at hm
    · obtain ⟨hne, hin⟩ := splitAll_part (by simp) hm
      exact ⟨hne, hin.trans hb⟩
    · rename_i hne
      rcases List.mem_append.mp hm with hm | hm
      · obtain ⟨hne, hin⟩ := splitAll_part (by simp) hm
        exact ⟨hne, hin.trans hb⟩
      · simp only [List.mem_singleton] at hm
        subst hm
        exact ⟨hne, haf⟩
  cases h : find [COLON] s with
  | some pos =>
    simp only [h] at ha
    exact key _ _ (List.take_prefix _ _).isInfix (List.drop_suffix _ _).isInfix ha
  | none =>
    simp only [h] at ha
    exact key _ _ (List.infix_refl _) (List.nil_infix) ha

end FtIrc
