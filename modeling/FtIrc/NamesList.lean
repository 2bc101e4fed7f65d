import FtIrc.Admission
import FtIrc.DirectMessages

/-!
# The list of the members

A client that comes to a channel is sent the nicks of all members on one line with the number 353, and this
line is cut as every line is.  `namesOf` are the messages of this kind that follow the announcement of the
`JOIN`, and `NamesReply.decode` is what a client reads in one of them by the grammar of the protocol.

Principal result: `names_iff`.  The members are read back exactly if the line is not cut, and no ` :` in the name of
the channel is taken for the start of the list.
-/

namespace FtIrc

open Std Outcome Server Delimited

variable {s s' u : Server} {x p : Ptr} {ar names passes joined ms ls : List Str} {c d me : Cli}
  {k m a1 line name pass us w : Str} {ch : Ch} {cfg : Config} {lfd n : Nat}

/-! ## The law -/

def AT : UInt8 := 64

/-- A member on the list. -/
def entry (s : Server) (ch : Ch) (p : Ptr) : Str := if p ∈ ch.adms then AT :: nickAt s p else nickAt s p

/-- The members, as they are to be listed. -/
def roster (s : Server) (ch : Ch) : List Str := ch.clis.toList.map (entry s ch)

def is353 (m : Str) : Bool := (str ":localhost 353 ").isPrefixOf m

/-- The messages with the members that come next behind the announcement that `c` has joined `k`. -/
def namesOf (c : Cli) (k : Str) (ms : List Str) : List Str :=
  ((ms.dropWhile fun m => decide (m ≠ joinLine c k)).dropWhile fun m => !is353 m).takeWhile is353

/-- What a client reads in a line with members. -/
structure NamesReply where
  channel : Str
  names : List Str

/-- A line with the number 353, read by the grammar: the prefix and the number up to a space each, the parameters
up to the first ` :`, with the channel behind the second of them, and then the names. -/
def NamesReply.decode (line : Str) : Option NamesReply := do
  let (before, line) ← cut [COLON] line
  guard (before = [])
  let (_, line) ← cut [SPACE] line
  let (number, line) ← cut [SPACE] line
  guard (number = str "353")
  let (params, names) ← cut (str " :") line
  let (_, params) ← cut [SPACE] params
  let (_, channel) ← cut [SPACE] params
  return ⟨channel, names.splitOn SPACE⟩

/-- The names on a line about the channel `k`. -/
def readNames (k line : Str) : List Str :=
  match NamesReply.decode line with
  | some r => if r.channel = k then r.names else []
  | none => []

/-- The lines that the command has appended for `x` list the members of `k`. -/
def ListsMembers (s s' : Server) (x : Ptr) (k : Str) : Prop :=
  ∃ c d ms ch, s.cliAt x = some c ∧ s'.cliAt x = some d ∧ d.bufToSend = c.bufToSend ++ frames ms ∧
    d.hist.prepared = c.hist.prepared ++ ms ∧ s'.chs[k]? = some ch ∧
    ((namesOf c k ms).flatMap fun m => readNames k (m.take (MAX_CMD_LEN - 2))).Perm (roster s' ch)

/-- The channel with the client that joins it. -/
def entered (s : Server) (x : Ptr) (k : Str) : Ch := ((s.chs[k]?).getD (Ch.new x)).enter x

/-- The header of the line and the members on it, with a space between two of them, fit in what is kept of a line. -/
def NamesFit (s : Server) (x : Ptr) (c : Cli) (k : Str) : Prop :=
  (namesLine c k []).length + ((roster s (entered s x k)).map fun l => l.length + 1).sum ≤ MAX_CMD_LEN - 2 + 1

/-- They fit, and the name of the channel does not contain what the list begins with. -/
def NamesReadable (s : Server) (x : Ptr) (c : Cli) (k : Str) : Prop := NamesFit s x c k ∧ Free (str " :") k

instance : Decidable (NamesReadable s x c k) := by
  unfold NamesReadable NamesFit
  infer_instance

/-! ## Reading a line -/

/-- The line behind its number: what stands in front of the name of the channel, the name, the list. -/
theorem namesLine_eq :
    namesLine c k us = str ":localhost 353 " ++ (localPrefix c ++ str " = " ++ k ++ (str " :" ++ us)) := by
  unfold namesLine
  simp only [List.append_assoc]

theorem decode_number (line : Str) : NamesReply.decode (str ":localhost 353 " ++ line) = do
    let (params, names) ← cut (str " :") line
    let (_, params) ← cut [SPACE] params
    let (_, channel) ← cut [SPACE] params
    return ⟨channel, names.splitOn SPACE⟩ := by
  have hcolon : cut [COLON] (COLON :: (str "localhost 353 " ++ line)) = some ([], str "localhost 353 " ++ line) :=
    cut_singleton List.not_mem_nil _
  have hprefix : cut [SPACE] (str "localhost" ++ SPACE :: (str "353 " ++ line)) =
      some (str "localhost", str "353 " ++ line) :=
    cut_singleton (show SPACE ∉ str "localhost" by decide) _
  have hnumber : cut [SPACE] (str "353" ++ SPACE :: line) = some (str "353", line) :=
    cut_singleton (show SPACE ∉ str "353" by decide) _
  have hline : str ":localhost 353 " ++ line = COLON :: (str "localhost 353 " ++ line) := rfl
  have hrest : str "localhost 353 " ++ line = str "localhost" ++ SPACE :: (str "353 " ++ line) := rfl
  have hlast : str "353 " ++ line = str "353" ++ SPACE :: line := rfl
  unfold NamesReply.decode
  rw [hline, hcolon, hrest]
  simp only [Option.bind_eq_bind, Option.bind_some, hprefix]
  simp only [hlast, hnumber, Option.bind_some, guard]
  rfl

/-- No ` :` stands in front of the name of the channel. -/
theorem free_params (hc : SPACE ∉ localPrefix c) {b : UInt8} (hb : b ≠ COLON) :
    Free (str " :") (localPrefix c ++ str " = " ++ b :: w) ↔ Free (str " :") (b :: w) := by
  have hgap : str " = " ++ b :: w = [SPACE, 61, SPACE] ++ b :: w := rfl
  have hd : str " :" = [SPACE, COLON] := rfl
  rw [List.append_assoc, hgap, hd, free_pair_append hc]
  unfold Free
  simp only [List.cons_append, List.nil_append, List.infix_cons_iff, List.cons_prefix_cons, not_or]
  constructor
  · exact fun h => h.2.2.2
  · exact fun h => ⟨fun h => absurd h.2.1 (by decide), fun h => absurd h.1 (by decide), fun h => hb h.2.1.symm, h⟩

/-- **The items of a line are read back**, in whatever order, exactly if it is not cut and the name of the channel is
read whole. -/
theorem readNames_take (hc : SPACE ∉ localPrefix c) (hk : k.head? = some HASH) (hls : ls ≠ [])
    (hspace : ∀ l ∈ ls, SPACE ∉ l) (hn : (str ":localhost 353 ").length ≤ n) :
    (readNames k ((namesLine c k ([SPACE].intercalate ls)).take n)).Perm ls ↔
      (namesLine c k []).length + (ls.map fun l => l.length + 1).sum ≤ n + 1 ∧ Free (str " :") k := by
  have hlen : ([SPACE].intercalate ls).length + 1 = (ls.map fun l => l.length + 1).sum := length_intercalate hls
  have hnil : ¬ ([] : List Str).Perm ls := fun h => hls h.nil_eq.symm
  obtain ⟨k', rfl⟩ : ∃ k', k = HASH :: k' := by
    cases k with
    | nil => cases hk
    | cons b k' =>
      cases hk
      exact ⟨k', rfl⟩
  obtain ⟨e, rfl⟩ : ∃ e, n = (str ":localhost 353 ").length + e := ⟨_, (Nat.add_sub_cancel' hn).symm⟩
  have hparams : ∀ w, cut [SPACE] (localPrefix c ++ str " = " ++ w) = some (localPrefix c, str "= " ++ w) ∧
      cut [SPACE] (str "= " ++ w) = some (str "=", w) := fun w => by
    refine ⟨?_, cut_singleton (show SPACE ∉ str "=" by decide) w⟩
    rw [List.append_assoc]
    exact cut_singleton hc _
  unfold readNames
  rw [namesLine_eq, List.take_length_add_append, decode_number]
  by_cases hfree : Free (str " :") (HASH :: k')
  · have hpiece : Piece (str " :") (localPrefix c ++ str " = " ++ HASH :: k') :=
      piece_of_free (by decide) unbordered_text ((free_params hc (by decide)).mpr hfree)
    have hhead : (namesLine c (HASH :: k') []).length = (str ":localhost 353 ").length +
        ((localPrefix c ++ str " = " ++ HASH :: k').length + (str " :").length) := by
      rw [namesLine_eq, List.append_nil, ← List.length_append, ← List.length_append]
    rw [cut_take (by decide) hpiece]
    by_cases hle : (localPrefix c ++ str " = " ++ HASH :: k').length + (str " :").length ≤ e
    · simp only [if_pos hle, Option.bind_eq_bind, Option.bind_some, hparams, pure, if_true]
      rw [perm_splitOn_take hls hspace, and_iff_left hfree]
      omega
    · rw [if_neg hle]
      refine iff_of_false hnil fun h => ?_
      omega
  · -- what stands in front of the first ` :` is less than the name
    refine iff_of_false ?_ fun h => hfree h.2
    obtain ⟨⟨k₀, rest⟩, hcut⟩ := Option.ne_none_iff_exists'.mp (mt (cut_eq_none_iff (by decide)).mp hfree)
    obtain ⟨heq, hfree₀⟩ := cut_some (by decide) hcut
    obtain ⟨k₁, rfl⟩ : ∃ k₁, k₀ = HASH :: k₁ := by
      cases k₀ with
      | nil => exact absurd (List.cons.inj heq).1 (by decide)
      | cons b k₁ => exact ⟨k₁, by rw [(List.cons.inj heq).1]⟩
    have hpiece : Piece (str " :") (localPrefix c ++ str " = " ++ HASH :: k₁) :=
      piece_of_free (by decide) unbordered_text ((free_params hc (by decide)).mpr hfree₀)
    have hne : HASH :: k₁ ≠ HASH :: k' := fun h => hfree (h ▸ hfree₀)
    have hline : localPrefix c ++ str " = " ++ HASH :: k' ++ (str " :" ++ [SPACE].intercalate ls) =
        localPrefix c ++ str " = " ++ HASH :: k₁ ++ (str " :" ++ (rest ++ (str " :" ++ [SPACE].intercalate ls))) := by
      rw [heq]
      simp only [List.append_assoc]
    rw [hline, cut_take (by decide) hpiece]
    by_cases hle : (localPrefix c ++ str " = " ++ HASH :: k₁).length + (str " :").length ≤ e
    · simp only [if_pos hle, Option.bind_eq_bind, Option.bind_some, hparams, pure, if_neg hne]
      exact hnil
    · rw [if_neg hle]
      exact hnil

theorem mem_clis_entered : x ∈ (entered s x k).clis := mem_insert_iff.mpr (.inl rfl)

theorem roster_ne_nil (h : p ∈ ch.clis) : roster s ch ≠ [] := by
  unfold roster
  rw [ne_eq, List.map_eq_nil_iff]
  exact List.ne_nil_of_mem (ExtTreeSet.mem_toList.mpr h)

theorem nickList_eq (h : p ∈ ch.clis) : nickList s ch = [SPACE].intercalate (roster s ch) := by
  have hsize : ch.size ≠ 0 := fun h0 => size_eq_zero_iff.mp h0 p h
  unfold nickList
  rw [if_neg hsize, ← dropLast_flatten_append (roster_ne_nil h)]
  unfold roster
  rw [List.map_map]
  congr 3
  funext q
  unfold entry
  rw [Function.comp]
  split <;> rfl

theorem nickAt_chars (hI : Inv s) (p : Ptr) : ∀ b ∈ nickAt s p, b ∈ nickChars := by
  unfold nickAt
  cases hd : s.cliAt p with
  | none => exact fun b hb => absurd hb List.not_mem_nil
  | some d => exact (hI.nick_chars d (cliAt_mem hd).1).2

theorem space_not_mem_roster (hI : Inv s) : ∀ l ∈ roster s ch, SPACE ∉ l := by
  intro l hl
  obtain ⟨p, -, rfl⟩ := List.mem_map.mp hl
  have hnick : SPACE ∉ nickAt s p := fun h => absurd (nickAt_chars hI p _ h) (by decide)
  unfold entry
  split
  · exact fun h => (List.mem_cons.mp h).elim (by decide) hnick
  · exact hnick

/-! ## The messages of a JOIN -/

/-- The first octet behind the start of a message that no nick contains. -/
def boundary (m : Str) : Option UInt8 := m.tail.find? fun b => decide (b ∉ nickChars)

theorem boundary_cons {a b : UInt8} (hw : ∀ b ∈ w, b ∈ nickChars) (hb : b ∉ nickChars) :
    boundary (a :: (w ++ b :: us)) = some b := by
  unfold boundary
  rw [List.tail_cons, List.find?_append, List.find?_eq_none.mpr fun b hb => by simp [hw b hb],
    List.find?_cons_of_pos (by simpa using hb)]
  rfl

theorem chars_of_all (h : (w.all fun b => decide (b ∈ nickChars)) = true) : ∀ b ∈ w, b ∈ nickChars :=
  fun b hb => of_decide_eq_true (List.all_eq_true.mp h b hb)

theorem boundary_joinLine (hc : ∀ b ∈ c.nick, b ∈ nickChars) : boundary (joinLine c k) = some BANG := by
  have hline : joinLine c k = COLON :: (c.nick ++ BANG :: (c.uName ++ str "@" ++ c.host ++ str " JOIN " ++ k)) := by
    unfold joinLine hostPrefix
    simp only [List.append_assoc]
    rfl
  rw [hline]
  exact boundary_cons hc (by decide)

theorem boundary_of_is353 (h : is353 m = true) : m.head? = some COLON ∧ boundary m = some SPACE := by
  obtain ⟨t, rfl⟩ := List.isPrefixOf_iff_prefix.mp h
  have hline : str ":localhost 353 " ++ t = COLON :: (str "localhost" ++ SPACE :: (str "353 " ++ t)) := rfl
  rw [hline]
  exact ⟨rfl, boundary_cons (chars_of_all (by decide)) (by decide)⟩

/-- A message that is no announcement, and does not list members. -/
def IsReply (m : Str) : Prop := m.head? ≠ some COLON ∨ (boundary m = some SPACE ∧ is353 m = false)

theorem is353_joinLine (hc : ∀ b ∈ c.nick, b ∈ nickChars) : is353 (joinLine c k) = false := by
  by_contra h
  have hb := (boundary_of_is353 (by simpa using h)).2
  rw [boundary_joinLine hc] at hb
  exact absurd hb (by decide)

theorem IsReply.not353 (h : IsReply m) : is353 m = false := by
  rcases h with h | h
  · by_contra h3
    exact h (boundary_of_is353 (by simpa using h3)).1
  · exact h.2

theorem IsReply.ne (h : IsReply m) (hc : ∀ b ∈ c.nick, b ∈ nickChars) : m ≠ joinLine c k := by
  rintro rfl
  rcases h with h | ⟨h, -⟩
  · exact h rfl
  · rw [boundary_joinLine hc] at h
    exact absurd h (by decide)

theorem isReply_digit {b : UInt8} (h : m.head? = some b) (hb : b ≠ COLON) : IsReply m := by
  refine .inl fun he => hb ?_
  rw [h] at he
  exact Option.some.inj he

theorem isReply_refusal (h : refusal me ch name pass = some m) : IsReply m := by
  unfold refusal at h
  repeat' split at h
  all_goals cases h
  all_goals exact isReply_digit rfl (by decide)

theorem isReply_already : IsReply (str ":you are already on channel " ++ name) :=
  .inr ⟨boundary_cons (w := str "you") (chars_of_all (by decide)) (by decide), rfl⟩

/-- What the author is told of a channel that it has joined. -/
def told (u : Server) (c : Cli) (name : Str) (ch : Ch) : List Str :=
  joinLine c name ::
    ((if ch.topic ≠ [] then [str "332 " ++ c.nick ++ str " " ++ name ++ str " :" ++ ch.topic] else []) ++
    [namesLine c name (nickList u ch)])

theorem inbox_joinedMail (h : x ∈ ch.clis) : inbox x (joinedMail u x c name ch) = told u c name ch := by
  unfold joinedMail told
  rw [inbox_append, inbox_append, inbox_bcast, inbox_bcast, if_pos h, if_pos h]
  split
  · rw [inbox_cons, if_pos rfl]
    rfl
  · rfl

theorem is353_namesLine : is353 (namesLine c name us) = true := by
  refine List.isPrefixOf_iff_prefix.mpr ?_
  unfold namesLine
  simp only [List.append_assoc]
  exact List.prefix_append _ _

theorem namesLine_ne (hc : ∀ b ∈ c.nick, b ∈ nickChars) : namesLine c name us ≠ joinLine c k := by
  intro h
  have h3 : is353 (namesLine c name us) = true := is353_namesLine
  rw [h, is353_joinLine hc] at h3
  cases h3

/-- No line of another channel announces this one. -/
theorem ne_of_mem_told (hc : ∀ b ∈ c.nick, b ∈ nickChars) (hne : name ≠ k) (hm : m ∈ told u c name ch) :
    m ≠ joinLine c k := by
  unfold told at hm
  rw [List.mem_cons, List.mem_append, List.mem_singleton] at hm
  rcases hm with rfl | hm | rfl
  · exact fun h => hne (List.append_cancel_left h)
  · split at hm
    · rw [List.mem_singleton.mp hm]
      exact (isReply_digit rfl (by decide)).ne hc
    · cases hm
  · exact namesLine_ne hc

/-- The list of the members is found. -/
theorem namesOf_told {before after : List Str} (hc : ∀ b ∈ c.nick, b ∈ nickChars)
    (hbefore : ∀ m ∈ before, m ≠ joinLine c k) (hafter : ∀ m, after.head? = some m → is353 m = false) :
    namesOf c k (before ++ (told u c k ch ++ after)) = [namesLine c k (nickList u ch)] := by
  have htake : (namesLine c k (nickList u ch) :: after).takeWhile is353 = [namesLine c k (nickList u ch)] := by
    rw [List.takeWhile_cons_of_pos is353_namesLine]
    cases after with
    | nil => rfl
    | cons m ms => rw [List.takeWhile_cons_of_neg (by simp [hafter m rfl])]
  unfold namesOf told
  rw [List.dropWhile_append_of_pos fun m hm => by simpa using hbefore m hm, List.cons_append,
    List.dropWhile_cons_of_neg (by simp), List.dropWhile_cons_of_pos (by simp [is353_joinLine hc])]
  split
  · rw [List.append_assoc, List.singleton_append, List.dropWhile_cons_of_pos (by
      rw [(isReply_digit (b := 51) rfl (by decide)).not353]
      rfl), List.singleton_append, List.dropWhile_cons_of_neg (by simp [is353_namesLine]), htake]
  · rw [List.nil_append, List.singleton_append, List.dropWhile_cons_of_neg (by simp [is353_namesLine]), htake]

/-- What the author is told of a name that is tried. -/
theorem joinOne_told (u : Server) (x : Ptr) (c : Cli) (name pass : Str) :
    (joinOne u x c name pass).2 = [] ∨ (∃ m, (joinOne u x c name pass).2 = [(x, m)] ∧ IsReply m) ∨
    ∃ ch, inbox x (joinOne u x c name pass).2 = told u c name ch := by
  unfold joinOne
  split
  · split
    · rename_i m hm
      exact .inr (.inl ⟨m, rfl, isReply_refusal hm⟩)
    · exact .inr (.inr ⟨_, inbox_joinedMail (mem_insert_iff.mpr (.inl rfl))⟩)
  · exact .inl rfl

/-- What follows a list of members is none. -/
theorem head_joinRun (a1 : Str) (hc : ∀ b ∈ c.nick, b ∈ nickChars) : ∀ (names passes : List Str) (u : Server),
    ∀ m, (inbox x (joinRun x c a1 names passes u).2).head? = some m → is353 m = false
  | [], _, _, m, h => by cases h
  | name :: names, passes, u, m, h => by
    have hreply : ∀ {m₀ mail}, IsReply m₀ → (inbox x ((x, m₀) :: mail)).head? = some m → is353 m = false := by
      intro m₀ mail hm₀ h
      rw [inbox_cons, if_pos rfl, List.head?_cons] at h
      cases h
      exact hm₀.not353
    unfold joinRun at h
    split at h
    · exact hreply (isReply_digit rfl (by decide)) h
    split at h
    · exact hreply (isReply_digit rfl (by decide)) h
    split at h
    · exact hreply isReply_already h
    · simp only [inbox_append] at h
      rcases joinOne_told u x c name (passes.headD []) with hnone | ⟨m₀, hm₀, hrep⟩ | ⟨ch, htold⟩
      · rw [hnone] at h
        exact head_joinRun a1 hc names passes.tail _ m h
      · rw [hm₀, ← inbox_append] at h
        exact hreply hrep h
      · rw [htold] at h
        cases h
        exact is353_joinLine hc

/-- **The messages of a JOIN**: what the author is told of a channel that it joins stands together, behind no
other announcement of it, and what follows is no list of members. -/
theorem inbox_joinRun (a1 : Str) (hc : ∀ b ∈ c.nick, b ∈ nickChars) : ∀ (names passes joined : List Str)
    (u : Server), (∀ n ∈ names, COMMA ∉ n) → Track s u x c joined → JoinSafe s x c joined names passes →
    k ∈ joins s x c joined names passes → k ∉ joined → ∃ before after,
      inbox x (joinRun x c a1 names passes u).2 = before ++ (told s c k (entered s x k) ++ after) ∧
      (∀ m ∈ before, m ≠ joinLine c k) ∧ ∀ m, after.head? = some m → is353 m = false
  | [], _, _, _, _, _, _, hk, hno => absurd hk hno
  | name :: names, passes, joined, u, hcomma, h, hsafe, hk, hno => by
    have hrest := fun passes joined u => inbox_joinRun a1 hc names passes joined u fun n hn => hcomma n (by simp [hn])
    -- a name that is only replied to
    have hreply : ∀ {m passes}, IsReply m → JoinSafe s x c joined names passes → k ∈ joins s x c joined names passes →
        ∃ before after, inbox x ((x, m) :: (joinRun x c a1 names passes u).2) =
            before ++ (told s c k (entered s x k) ++ after) ∧
          (∀ m ∈ before, m ≠ joinLine c k) ∧ ∀ m, after.head? = some m → is353 m = false := by
      intro m passes hm hs hk
      obtain ⟨before, after, heq, hbefore, hafter⟩ := hrest passes joined u h hs hk hno
      refine ⟨m :: before, after, ?_, fun n hn => ?_, hafter⟩
      · rw [inbox_cons, if_pos rfl, heq]
        rfl
      · rcases List.mem_cons.mp hn with rfl | hn
        · exact hm.ne hc
        · exact hbefore n hn
    unfold JoinSafe at hsafe
    unfold joins at hk
    unfold joinRun
    rw [h.joined.nbChannels]
    by_cases hmany : MAX_CHS_PER_USER - 1 < s.nbChannels x + joined.length
    · rw [if_pos hmany] at hk
      exact absurd hk hno
    rw [if_neg hmany] at hsafe hk
    rw [if_neg hmany]
    by_cases hbad : badName name = true
    · rw [if_pos hbad] at hsafe
      rw [if_pos (.inl hbad)] at hk
      rw [if_pos hbad]
      exact hreply (isReply_digit rfl (by decide)) hsafe hk
    rw [if_neg hbad] at hsafe
    obtain ⟨hspell, hsafe⟩ := hsafe
    rw [if_neg hbad]
    by_cases hon : On u x name
    · have hon' := h.joined.on_iff.mp hon
      rw [if_pos hon'] at hsafe
      rw [if_pos (.inr hon')] at hk
      rw [if_pos hon]
      exact hreply isReply_already hsafe hk
    · have hon' : ¬ (On s x name ∨ name ∈ joined) := fun ho => hon (h.joined.on_iff.mpr ho)
      rw [if_neg hon'] at hsafe
      rw [if_neg fun ho => hon' (ho.resolve_left hbad)] at hk
      rw [if_neg hon]
      have hname : ChName name := chName_of_badName (by simpa using hbad) (hcomma name (by simp))
      obtain ⟨ch, hch, hone⟩ := h.one hname hon hspell (passes.headD [])
      by_cases hin : Admitted s c name (passes.headD [])
      · rw [if_pos hin] at hone hsafe hk
        obtain ⟨hmail, htrack⟩ := hone
        simp only [inbox_append]
        rw [hmail, inbox_joinedMail (mem_insert_iff.mpr (.inl rfl)), hch]
        by_cases he : name = k
        · subst he
          exact ⟨[], _, rfl, fun m hm => absurd hm List.not_mem_nil, head_joinRun a1 hc names passes.tail _⟩
        · obtain ⟨before, after, heq, hbefore, hafter⟩ := hrest passes.tail (name :: joined) _ htrack hsafe hk
            fun hj => hno ((List.mem_cons.mp hj).resolve_left fun hkn => he hkn.symm)
          refine ⟨told s c name (entered s x name) ++ before, after, ?_, fun m hm => ?_, hafter⟩
          · rw [heq, List.append_assoc]
            rfl
          · rcases List.mem_append.mp hm with hm | hm
            · exact ne_of_mem_told hc he hm
            · exact hbefore m hm
      · rw [if_neg hin] at hone hsafe hk
        obtain ⟨⟨m₀, hm₀⟩, hsame⟩ := hone
        have hrep : IsReply m₀ := by
          rcases joinOne_told u x c name (passes.headD []) with hnone | ⟨m, hm, hrep⟩ | ⟨ch', htold⟩
          · rw [hm₀] at hnone
            cases hnone
          · rw [hm₀] at hm
            cases hm
            exact hrep
          · -- two lines at least are told of a channel that is joined
            rw [hm₀, inbox_cons, if_pos rfl] at htold
            have hlen := congrArg List.length htold
            simp [told] at hlen
        simp only [hsame, hm₀]
        exact hreply hrep hsafe hk

/-! ## The line of the client -/

theorem nickAt_note : nickAt (s.note x ar) p = nickAt s p := by
  unfold nickAt
  rw [cliAt_note]
  split
  · rw [Option.map_map]
    rfl
  · rfl

/-- What the line of a client that comes to a channel leaves. -/
theorem execLine_comes (hI : Inv s) (hc : s.cliAt x = some c) (h : s.execLine x line = .ok s') (hoff : ¬ On s x k)
    (hon : On s' x k) : s'.chs[k]? = some (entered s x k) ∧ (∀ p, nickAt s' p = nickAt s p) ∧ ∃ before after,
      inbox x (cmdRun s x c (splitCmdToArgs line)).2 = before ++ (told s c k (entered s x k) ++ after) ∧
      (∀ m ∈ before, m ≠ joinLine c k) ∧ ∀ m, after.head? = some m → is353 m = false := by
  obtain ⟨u, -, hs', hu, hsafe, hsteps⟩ := execLine_run hI hc h
  have hon' : On u x k := (on_congr (by rw [hs', chs_note])).mp hon
  obtain ⟨-, hcmd, hpart⟩ := (hsteps.on.1 hon').resolve_left hoff
  have hafter := afterJoin_execLine hI hc h hcmd hpart
  have hk := (hafter.on_iff.mp hon).resolve_right hoff
  have hgo := goesThrough_of_mem hk
  have hcomma : ∀ n ∈ splitArgToSubargs (argD (splitCmdToArgs line) 1), COMMA ∉ n := fun n hn =>
    splitArgToSubargs_comma hn
  have hjoin := joinSafe_of_goesThrough hc (hsafe.join hcmd) hgo
  have htrack := Track.refl hI hc hgo.1
  refine ⟨by rw [hafter.chs, if_pos hk]; rfl, fun p => ?_, ?_⟩
  · rw [hs', nickAt_note, hu, nickAt_sendAll, cmdRun_join hcmd, execJoinRun_eq hgo]
    exact (joinRun_spec _ _ _ [] s hcomma htrack hjoin).1.nicks p
  · rw [cmdRun_join hcmd, execJoinRun_eq hgo]
    rw [joinNames_eq hgo] at hk
    exact inbox_joinRun _ (hI.nick_chars c (cliAt_mem hc).1).2 _ _ [] s hcomma htrack hjoin hk List.not_mem_nil

theorem listsMembers_iff (hI : Inv s) (hspace : SPACE ∉ c.uName) (hc : s.cliAt x = some c)
    (h : s.execLine x line = .ok s') (hoff : ¬ On s x k) (hon : On s' x k) :
    ListsMembers s s' x k ↔ NamesReadable s x c k := by
  obtain ⟨hch, hnick, before, after, hinbox, hbefore, hafter⟩ := execLine_comes hI hc h hoff hon
  have hchars := (hI.nick_chars c (cliAt_mem hc).1).2
  have hnames : namesOf c k (inbox x (cmdRun s x c (splitCmdToArgs line)).2) =
      [namesLine c k (nickList s (entered s x k))] := by
    rw [hinbox]
    exact namesOf_told hchars hbefore hafter
  obtain ⟨d, hd, hbuf, hprep⟩ := execLine_inbox hI hc h hc
  have hroster : roster s' (entered s x k) = roster s (entered s x k) := by
    unfold roster entry
    simp only [hnick]
  have hne : roster s (entered s x k) ≠ [] := roster_ne_nil mem_clis_entered
  have hprefix : SPACE ∉ localPrefix c := space_not_mem_localPrefix (fun hb => absurd (hchars _ hb) (by decide)) hspace
  have hhash : k.head? = some HASH := ((execLine_inv hI hc h).ch_name k (mem_of_on hon)).hash
  have hread := readNames_take (n := MAX_CMD_LEN - 2) hprefix hhash hne (space_not_mem_roster hI) (by decide)
  rw [← nickList_eq mem_clis_entered] at hread
  unfold NamesReadable NamesFit
  rw [← hread]
  constructor
  · rintro ⟨c', d', ms, ch, hc', hd', -, hms, hch', hperm⟩
    rw [hc] at hc'
    rw [hd] at hd'
    rw [hch] at hch'
    cases hc'
    cases hd'
    cases hch'
    rw [hprep, List.append_cancel_left_eq] at hms
    rw [← hms, hnames, List.flatMap_singleton, hroster] at hperm
    exact hperm
  · intro hperm
    refine ⟨c, d, _, _, hc, hd, hbuf, hprep, hch, ?_⟩
    rw [hnames, List.flatMap_singleton, hroster]
    exact hperm

/-- **The list is complete**, for every client that comes to a channel, exactly if the line is not cut and the name of
the channel does not begin a list of its own. -/
theorem names_iff (hr : Reachable pass lfd cfg) (hc : cfg.srv.cliAt x = some c)
    (h : cfg.srv.execLine x line = .ok s') (hoff : ¬ On cfg.srv x k) (hon : On s' x k) :
    ListsMembers cfg.srv s' x k ↔ NamesReadable cfg.srv x c k :=
  listsMembers_iff hr.good.inv (hr.parted c (cliAt_mem hc).1) hc h hoff hon

-- the list of the channel `#a :b`
example : (NamesReply.decode (str ":localhost 353 al!u@127.0.0.1 = #a :b :@al")).map (fun r => (r.channel, r.names)) =
    some (str "#a", [str "b", str ":@al"]) := by decide

/-- A client that is registered and can come to `#c`; `whole` says whether it can read the list. -/
def comesTo (whole : Bool) (cfg : Config) : Bool :=
  (cfg.srv.cliAt alice.addr).any fun c : Cli => decide (¬ On cfg.srv alice.addr (str "#c")) &&
    ((cfg.srv.execLine alice.addr (str "JOIN #c")).toOption.any fun s' : Server =>
      decide (On s' alice.addr (str "#c"))) && decide (NamesReadable cfg.srv alice.addr c (str "#c")) == whole

def dina : Conn := ⟨6, 150, (127, 0, 0, 1)⟩

/-- The list of a channel with an operator in front of the client that comes and a member behind it. -/
theorem names_iff_member : ∃ cfg s' ch, Reachable (str "2") 3 cfg ∧ cfg.srv.chs[str "#c"]? = some ch ∧
    ch.clis.toList = [bob.addr, dina.addr] ∧ ch.adms.toList = [bob.addr] ∧
    cfg.srv.execLine alice.addr (str "JOIN #c") = .ok s' ∧ On s' alice.addr (str "#c") ∧
    ListsMembers cfg.srv s' alice.addr (str "#c") := by
  obtain ⟨cfg, hrun, hP⟩ := exists_run (str "2") 3 (connect 0 alice ++ connect 1 bob ++ connect 2 dina ++
    say 1 1 4 (register "bo" ++ str "JOIN #c\r\n") ++ say 2 0 4 (register "di" ++ str "JOIN #c\r\n") ++
    say 0 2 3 (register "al"))
    (fun cfg => comesTo true cfg && (cfg.srv.chs[str "#c"]?).any fun ch : Ch =>
      decide (ch.clis.toList = [bob.addr, dina.addr]) && decide (ch.adms.toList = [bob.addr]))
    (by decide +kernel)
  simp only [comesTo, Option.any_eq_true, Bool.and_eq_true, decide_eq_true_eq, beq_iff_eq] at hP
  obtain ⟨⟨c, hc, ⟨hoff, s', hs', hon⟩, hread⟩, ch, hch, hmembers, hop⟩ := hP
  have hs' := eq_ok_of_toOption hs'
  exact ⟨cfg, s', ch, ⟨_, hrun⟩, hch, hmembers, hop, hs', hon, (names_iff ⟨_, hrun⟩ hc hs' hoff hon).mpr hread⟩

/-- A registration with a user name of 480 octets. -/
def longUser : Str := str "PASS 2\r\nNICK al\r\nUSER " ++ List.replicate 480 117 ++ str " 0 * U\r\n"

/-- Nothing is left of the list of a client with a long user name. -/
theorem names_cut : ¬ ∀ (pass : Str) (lfd : Nat) (cfg : Config), Reachable pass lfd cfg →
    ∀ (x : Ptr) (c : Cli) (k line : Str) (s' : Server), cfg.srv.cliAt x = some c →
      cfg.srv.execLine x line = .ok s' → ¬ On cfg.srv x k → On s' x k → ListsMembers cfg.srv s' x k := by
  intro hall
  obtain ⟨cfg, hrun, hP⟩ := exists_run (str "2") 3 (connect 0 alice ++ say 0 0 3 longUser) (comesTo false)
    (by decide +kernel)
  simp only [comesTo, Option.any_eq_true, Bool.and_eq_true, decide_eq_true_eq, beq_iff_eq] at hP
  obtain ⟨c, hc, ⟨hoff, s', hs', hon⟩, hcut⟩ := hP
  have hr : Reachable (str "2") 3 cfg := ⟨_, hrun⟩
  have hs' := eq_ok_of_toOption hs'
  have hread := (listsMembers_iff hr.good.inv (hr.parted c (cliAt_mem hc).1) hc hs' hoff hon).mp
    (hall _ _ cfg hr _ c _ _ s' hc hs' hoff hon)
  exact (of_decide_eq_false hcut) hread

end FtIrc
