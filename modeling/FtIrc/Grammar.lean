import FtIrc.Parse

/-!
# The grammar of a message

`IrcMessage` is a message of RFC 2812 without a prefix: a command, at most 14 parameters, and perhaps a
last one behind a colon.  `IrcMessage.render` writes it and `splitCmdToArgs` reads it.

The program takes the first colon of the line for the one that begins the last parameter, and drops an
empty last parameter, so it reads back exactly the messages that have neither (`parse_render_iff`).
-/

namespace FtIrc

variable {w m b : Str} {ms : List Str} {tr : Option Str}

/-! ## Messages -/

/-- Any octet except NUL, CR, LF, space and colon. -/
def nospcrlfcl (b : UInt8) : Prop := b ≠ 0 ∧ b ≠ CR ∧ b ≠ LF ∧ b ≠ SPACE ∧ b ≠ COLON

instance (b : UInt8) : Decidable (nospcrlfcl b) := by unfold nospcrlfcl; infer_instance

def isLetter (b : UInt8) : Bool := (65 ≤ b && b ≤ 90) || (97 ≤ b && b ≤ 122)

/-- `command = 1*letter / 3digit`. -/
def IsCommand (w : Str) : Prop :=
  (w ≠ [] ∧ ∀ b ∈ w, isLetter b = true) ∨ (w.length = 3 ∧ ∀ b ∈ w, isDigit b = true)

/-- `middle = nospcrlfcl *( ":" / nospcrlfcl )`. -/
structure IsMiddle (m : Str) : Prop where
  ne_nil : m ≠ []
  head : m.head? ≠ some COLON
  byte : ∀ b ∈ m, b = COLON ∨ nospcrlfcl b

/-- `trailing = *( ":" / " " / nospcrlfcl )`. -/
def IsTrailing (t : Str) : Prop := ∀ b ∈ t, b = COLON ∨ b = SPACE ∨ nospcrlfcl b

/-- A message of the grammar, without prefix. -/
structure IrcMessage where
  command : Str
  middles : List Str
  trailing : Option Str
  isCommand : IsCommand command
  middles_le : middles.length ≤ 14
  isMiddle : ∀ m ∈ middles, IsMiddle m
  isTrailing : ∀ t ∈ trailing, IsTrailing t

/-- The parameters as they are written: `*( SPACE middle ) [ SPACE ":" trailing ]`. -/
def renderParams : List Str → Option Str → Str
  | [], none => []
  | [], some t => SPACE :: COLON :: t
  | m :: ms, tr => SPACE :: (m ++ renderParams ms tr)

namespace IrcMessage

/-- The message as it is written, without CRLF. -/
def render (m : IrcMessage) : Str := m.command ++ renderParams m.middles m.trailing

/-- The arguments the message has. -/
def args (m : IrcMessage) : List Str := m.command :: m.middles ++ m.trailing.toList

end IrcMessage

/-! ## Reading the parameters -/

theorem IsMiddle.space_not_mem (h : IsMiddle m) : SPACE ∉ m := by
  intro hm
  rcases h.byte SPACE hm with h | h
  · exact absurd h (by decide)
  · exact h.2.2.2.1 rfl

theorem IsCommand.word (h : IsCommand w) : w ≠ [] ∧ SPACE ∉ w ∧ COLON ∉ w := by
  rcases h with ⟨hne, h⟩ | ⟨hlen, h⟩
  · refine ⟨hne, fun hm => ?_, fun hm => ?_⟩
    · exact absurd (h _ hm) (by decide)
    · exact absurd (h _ hm) (by decide)
  · refine ⟨?_, fun hm => ?_, fun hm => ?_⟩
    · rintro rfl
      simp at hlen
    · exact absurd (h _ hm) (by decide)
    · exact absurd (h _ hm) (by decide)

/-- A word, and then the parameters. -/
theorem rawArgs_word_params (hne : w ≠ []) (hw : SPACE ∉ w) (hc : COLON ∉ w) :
    rawArgs (w ++ renderParams ms tr) = w :: rawArgs (renderParams ms tr) := by
  cases ms with
  | cons m ms => rw [renderParams, rawArgs_word_space hne hw hc, rawArgs_space]
  | nil =>
    cases tr with
    | some t => rw [renderParams, rawArgs_word_space hne hw hc, rawArgs_space]
    | none => rw [renderParams, List.append_nil, rawArgs_word hne hw hc, rawArgs_nil]

/-- A parameter in which there is a colon is cut there. -/
theorem rawArgs_middle_colon (hm : IsMiddle m) (hc : COLON ∈ m) :
    ∃ u rest, rawArgs (m ++ b) = u :: rest ∧ u.length < m.length := by
  obtain ⟨u, v, rfl, hu⟩ := List.eq_append_cons_of_mem hc
  have hne : u ≠ [] := by
    rintro rfl
    exact hm.head rfl
  have hspace : SPACE ∉ u := fun h => hm.space_not_mem (List.mem_append_left _ h)
  refine ⟨u, if v ++ b = [] then [] else [v ++ b], ?_, by simp⟩
  rw [List.append_assoc, List.cons_append, rawArgs_colon hu, splitAll_word hne hspace]
  rfl

/-- The parameters are read back if none of them has a colon and the last one is not empty. -/
theorem rawArgs_params_iff (hms : ∀ m ∈ ms, IsMiddle m) :
    rawArgs (renderParams ms tr) = ms ++ tr.toList ↔ (∀ m ∈ ms, COLON ∉ m) ∧ tr ≠ some [] := by
  induction ms with
  | nil =>
    cases tr with
    | none => simp [renderParams, rawArgs_nil]
    | some t =>
      have htext : rawArgs (COLON :: t) = if t = [] then [] else [t] :=
        rawArgs_colon (a := []) List.not_mem_nil
      rw [renderParams, rawArgs_space, htext]
      by_cases ht : t = []
      · simp [ht]
      · simp [ht]
  | cons m ms ih =>
    have hm := hms m List.mem_cons_self
    rw [renderParams, rawArgs_space, List.forall_mem_cons]
    by_cases hc : COLON ∈ m
    · -- what is read in the place of `m` is shorter
      obtain ⟨u, rest, heq, hlen⟩ := rawArgs_middle_colon (b := renderParams ms tr) hm hc
      rw [heq, List.cons_append]
      refine ⟨fun h => ?_, fun h => absurd hc h.1.1⟩
      rw [(List.cons.inj h).1] at hlen
      exact absurd hlen (Nat.lt_irrefl _)
    · rw [rawArgs_word_params hm.ne_nil hm.space_not_mem hc, List.cons_append, List.cons_inj_right,
        ih fun a ha => hms a (List.mem_cons_of_mem _ ha), and_assoc, and_iff_right hc]

/-- **Which messages are read back**: exactly those in which no parameter but the last contains a colon
and the last is not empty. -/
theorem parse_render_iff (m : IrcMessage) : splitCmdToArgs m.render = m.args ↔
    (∀ a ∈ m.middles, COLON ∉ a) ∧ m.trailing ≠ some [] := by
  obtain ⟨hne, hspace, hcolon⟩ := m.isCommand.word
  have hlen : m.args.length < MAX_ARGS := by
    have htr : m.trailing.toList.length ≤ 1 := by
      cases m.trailing <;> simp
    have hle := m.middles_le
    simp only [IrcMessage.args, List.length_append, List.length_cons, MAX_ARGS]
    omega
  have hraw : rawArgs m.render = m.command :: rawArgs (renderParams m.middles m.trailing) :=
    rawArgs_word_params hne hspace hcolon
  rw [← rawArgs_params_iff m.isMiddle, splitCmdToArgs_eq]
  constructor
  · intro h
    -- fewer than `MAX_ARGS` are left, so none was dropped
    have hall : (rawArgs m.render).length ≤ MAX_ARGS := by
      have := congrArg List.length h
      rw [List.length_take] at this
      omega
    rw [List.take_of_length_le hall, hraw, IrcMessage.args, List.cons_append] at h
    exact List.cons_inj_right _ |>.mp h
  · intro h
    have hargs : rawArgs m.render = m.args := by
      rw [hraw, h]
      rfl
    rw [hargs, List.take_of_length_le hlen.le]

/-- `TOPIC #c :`, which sets an empty topic. -/
def emptyTopic : IrcMessage where
  command := str "TOPIC"
  middles := [str "#c"]
  trailing := some []
  isCommand := .inl ⟨by decide, List.all_eq_true.mp (by decide)⟩
  middles_le := by decide
  isMiddle := by
    intro m hm
    rw [List.mem_singleton.mp hm]
    refine ⟨by decide, by decide, fun b hb => ?_⟩
    have hb : b = HASH ∨ b = 99 := by simpa using (show b ∈ [HASH, 99] from hb)
    rcases hb with rfl | rfl <;> decide
  isTrailing := by
    intro t ht b hb
    rw [← Option.mem_some.mp ht] at hb
    cases hb

/-- The empty topic is lost, and the command is the question for the topic. -/
theorem parse_render_topic : ¬ ∀ m : IrcMessage, splitCmdToArgs m.render = m.args := by
  intro h
  exact absurd (h emptyTopic) (by decide)

end FtIrc
