import FtIrc.ChannelMessages
import FtIrc.ModeOptions

/-!
# The limit of a channel

`MODE c +l v` reads `v` with `atoi` and again with `strtol`, converts the result to `int` and to
`unsigned int`, and compares that with the largest `unsigned int`, which refuses nothing.  What is left
of the tests is the sign of `atoi v`, so a text that is not a number, or that is a number and more, or too
large for 32 bits, is set as a limit unless `atoi` makes it negative (`limit_iff`).
-/

namespace FtIrc

open Std Outcome Server

variable {s s' : Server} {x y : Ptr} {c d : Cli} {k v m line : Str} {ch : Ch} {cfg : Config} {pass : Str}
  {lfd : Nat} {ar : List Str} {who : Str → Ptr}

def INT_MAX : Nat := 2147483647

/-- A decimal numeral. -/
def Numeral (v : Str) : Prop := v ≠ [] ∧ ∀ b ∈ v, isDigit b = true

instance (v : Str) : Decidable (Numeral v) := by unfold Numeral; infer_instance

/-- An error reply begins with its number, which is a `4` and two digits. -/
def ErrorReply (m : Str) : Prop :=
  m.head? = some 52 ∧ 4 ≤ m.length ∧ (∀ b ∈ (m.take 3), isDigit b = true) ∧ m[3]? = some SPACE

instance (m : Str) : Decidable (ErrorReply m) := by unfold ErrorReply; infer_instance

/-- What `MODE k +l v` of `x` owes: the limit that `v` is the numeral of, or an error reply to `x` alone. -/
structure SetsLimit (s s' : Server) (x : Ptr) (k : Str) (ch : Ch) (v : Str) : Prop where
  number : Numeral v → digitsVal v ≤ INT_MAX → s'.chs[k]? = some { ch with limit := digitsVal v }
  other : ¬ (Numeral v ∧ digitsVal v ≤ INT_MAX) → s'.chs[k]? = some ch ∧ ∃ m, ErrorReply m ∧
    ∀ y d, s.cliAt y = some d → ∃ d', s'.cliAt y = some d' ∧
      d'.bufToSend = d.bufToSend ++ if y = x then frame m else []

/-! ## Reading a number -/

theorem isSpace_of_isDigit {b : UInt8} (h : isDigit b = true) : isSpace b = false := by
  simp only [isDigit, Bool.and_eq_true, decide_eq_true_eq, UInt8.le_iff_toNat_le, UInt8.reduceToNat] at h
  simp only [isSpace, Bool.or_eq_false_iff, decide_eq_false_iff_not, Bool.and_eq_false_iff,
    UInt8.le_iff_toNat_le, UInt8.reduceToNat, ← UInt8.toNat_inj]
  omega

/-- A numeral has no blanks and no sign. -/
theorem strtol_numeral (h : Numeral v) : strtol v = min LONG_MAX (digitsVal v) := by
  obtain ⟨hne, hdigit⟩ := h
  obtain ⟨b, t, rfl⟩ := List.exists_cons_of_ne_nil hne
  have hb := hdigit b List.mem_cons_self
  have hblank : (b :: t).dropWhile isSpace = b :: t := by
    rw [List.dropWhile_cons_of_neg]
    simp [isSpace_of_isDigit hb]
  have hminus : b ≠ 45 := by
    rintro rfl
    exact absurd hb (by decide)
  have hplus : b ≠ 43 := by
    rintro rfl
    exact absurd hb (by decide)
  have hall : (b :: t).takeWhile isDigit = b :: t := List.takeWhile_eq_self_iff.mpr hdigit
  unfold strtol
  simp only [hblank, List.head?_cons, Option.some.injEq, hminus, hplus, or_self, if_false, hall]

theorem toInt32_of_le {n : Nat} (h : n ≤ INT_MAX) : toInt32 n = n := by
  unfold INT_MAX at h
  unfold toInt32
  simp only
  split <;> omega

/-- What is read of a numeral that fits. -/
theorem atoi_numeral (h : Numeral v) (hle : digitsVal v ≤ INT_MAX) : atoi v = digitsVal v := by
  have hmin : min LONG_MAX (digitsVal v : Int) = (digitsVal v : Int) := by
    have hmax : (INT_MAX : Int) ≤ LONG_MAX := by decide
    omega
  unfold atoi
  rw [strtol_numeral h, hmin, toInt32_of_le hle]

theorem toUInt32_le (n : Int) : toUInt32 n ≤ UINT_MAX := by
  unfold toUInt32 UINT_MAX
  omega

/-- The only test that can fail. -/
theorem badLimit_iff {n m : Int} : badLimit n m ↔ n < 0 := by
  unfold badLimit
  exact or_iff_left (Nat.not_lt.mpr (toUInt32_le m))

/-! ## The line -/

/-- The option is refused exactly for its sign. -/
theorem optionReply_limit (hv : v ≠ []) (h3 : argD ar 3 = v) : optionReply who c ar (str "+l") v ch =
    if atoi v < 0 then some (str "472 " ++ c.nick ++ str " " ++ str "+l" ++ str " :is unknown mode char to me")
    else none := by
  unfold optionReply
  rw [h3, if_neg (by decide), if_neg fun h => hv h.1, if_neg fun h => absurd h.1 (by decide)]
  simp only [badLimit_iff, true_and]
  split
  · rfl
  · rw [if_neg fun h => absurd h.1 (by decide)]

theorem errorReply_unknownMode (rest : Str) : ErrorReply (str "472 " ++ rest) := by
  have hstr : str "472 " = [52, 55, 50, 32] := rfl
  rw [hstr]
  exact ⟨rfl, by simp, by simp; decide, rfl⟩

theorem head?_frame (hm : m ≠ []) : (frame m).head? = m.head? := by
  obtain ⟨b, t, rfl⟩ := List.exists_cons_of_ne_nil hm
  rfl

/-- The announcement of an option is not an error. -/
theorem frame_modeLine_ne (h : ErrorReply m) (a1 opt : Str) : frame (modeLine c a1 opt) ≠ frame m := by
  intro heq
  have hne : m ≠ [] := by
    rintro rfl
    exact absurd h.1 (by simp)
  have hhead := congrArg List.head? heq
  have hcolon : (frame (modeLine c a1 opt)).head? = some COLON := rfl
  rw [hcolon, head?_frame hne, h.1] at hhead
  exact absurd hhead (by decide)

/-- What the line comes to: the channel, and what is sent to each client. -/
theorem execLine_setLimit (hI : Inv s) (hc : s.cliAt x = some c) (hch : s.chs[k]? = some ch) (hop : x ∈ ch.adms)
    (hline : splitCmdToArgs line = [str "MODE", k, str "+l", v]) : ∃ s', s.execLine x line = .ok s' ∧
      s'.chs[k]? = some (if atoi v < 0 then ch else { ch with limit := toUInt32 (atoi v) }) ∧
      ∀ y d, s.cliAt y = some d → ∃ d', s'.cliAt y = some d' ∧ d'.bufToSend = d.bufToSend ++ frames
        (if atoi v < 0 then
          if y = x then [str "472 " ++ c.nick ++ str " " ++ str "+l" ++ str " :is unknown mode char to me"] else []
        else if y ∈ ch.clis then [modeLine c k (str "+l")] else []) := by
  have hv : v ≠ [] := (splitCmdToArgs_arg (s := line) (by rw [hline]; simp)).1
  have hk : k ∈ s.chs := mem_chs.mpr ⟨ch, hch⟩
  obtain ⟨s', hs', hmoded⟩ := execLine_mode hI hc hch hop (by rw [hline]; rfl) (by rw [hline]; rfl)
  have hpairs : modePairs (splitCmdToArgs line) (splitCmdToArgs line).length 2 = [(str "+l", v)] := by
    rw [modePairs_eq _ _ _ (Nat.le_add_left _ _), hline]
    show optPairs (str "+l") v ++ [] = _
    rw [List.append_nil, optPairs, if_neg fun h => absurd h.1 (by decide)]
  have h3 : argD (splitCmdToArgs line) 3 = v := by rw [hline]; rfl
  have h1 : argD (splitCmdToArgs line) 1 = k := by rw [hline]; rfl
  have hreply : ∀ who, optionReply who c (splitCmdToArgs line) (str "+l") v ch = if atoi v < 0 then
      some (str "472 " ++ c.nick ++ str " " ++ str "+l" ++ str " :is unknown mode char to me") else none :=
    fun who => optionReply_limit hv h3
  refine ⟨s', hs', ?_, fun y d hd => ?_⟩
  · rw [hmoded.chs, if_pos rfl, hpairs]
    show some (optionDone s.getCli c _ (str "+l") v ch) = _
    unfold optionDone
    rw [hreply]
    by_cases ha : atoi v < 0
    · rw [if_pos ha, if_pos ha, if_neg (by simp)]
    · rw [if_neg ha, if_neg ha, if_pos rfl]
      unfold optionCh
      rw [if_neg (by decide), if_neg (by decide), if_neg (by decide), if_neg (by decide), if_neg (by decide),
        if_neg (by decide), if_neg (by decide), if_pos ⟨rfl, by omega, toUInt32_le _⟩]
      rfl
  · obtain ⟨e, he, hreg⟩ := hI.member k ch hch x (hI.adm k ch hch x hop)
    rw [hc] at he
    cases he
    have hmail : (cmdRun s x c (splitCmdToArgs line)).2 =
        optionMail s.getCli x c (splitCmdToArgs line) (str "+l") v ch := by
      rw [cmdRun_mode (by rw [hline]; rfl)]
      unfold modeRun registeredRun modeChMail
      rw [if_neg (by rw [hline]; exact Nat.not_le.mpr (by simp)), h1, if_pos (hI.ch_name k hk).hash,
        if_neg (by simp [hreg]), getCh_self hI hk, if_neg (by simp), hch]
      simp only
      rw [if_neg (not_not.mpr (hI.adm k ch hch x hop)), if_neg (not_not.mpr hop),
        if_neg (by rw [hline]; simp), hpairs]
      exact List.append_nil _
    obtain ⟨d', hd', hbuf, -⟩ := execLine_inbox hI hc hs' hd
    refine ⟨d', hd', hbuf.trans ?_⟩
    rw [hmail, optionMail, hreply]
    by_cases ha : atoi v < 0
    · rw [if_pos ha, if_pos ha]
      simp only [inbox_cons, inbox_nil, eq_comm]
    · rw [if_neg ha, if_neg ha]
      simp only [inbox_bcast, h1]

/-- **The limit is set as it is written**, and everything else is refused, exactly for the numerals that fit
and the texts that `atoi` makes negative. -/
theorem limit_iff (hr : Reachable pass lfd cfg) (hc : cfg.srv.cliAt x = some c) (hch : cfg.srv.chs[k]? = some ch)
    (hop : x ∈ ch.adms) (hline : splitCmdToArgs line = [str "MODE", k, str "+l", v]) :
    ∃ s', cfg.srv.execLine x line = .ok s' ∧ (SetsLimit cfg.srv s' x k ch v ↔
      (Numeral v ∧ digitsVal v ≤ INT_MAX) ∨ atoi v < 0) := by
  have hI := hr.good.inv
  obtain ⟨s', hs', hset, hmail⟩ := execLine_setLimit hI hc hch hop hline
  refine ⟨s', hs', fun h => ?_, fun h => ?_⟩
  · by_contra hno
    push Not at hno
    obtain ⟨hnum, ha⟩ := hno
    -- it is announced, so there was no error
    obtain ⟨-, m, hm, hall⟩ := h.other fun hv => absurd hv.2 (Nat.not_le.mpr (hnum hv.1))
    obtain ⟨d₁, hd₁, hbuf₁⟩ := hall x c hc
    obtain ⟨d₂, hd₂, hbuf₂⟩ := hmail x c hc
    rw [hd₁] at hd₂
    cases hd₂
    rw [if_neg (by omega), if_pos (hI.adm k ch hch x hop), hbuf₁, if_pos rfl, frames_cons, frames_nil,
      List.append_nil] at hbuf₂
    exact frame_modeLine_ne hm k _ (List.append_cancel_left hbuf₂).symm
  · refine ⟨fun hnum hle => ?_, fun hno => ?_⟩
    · have hval := atoi_numeral hnum hle
      rw [hset, if_neg (by omega), hval]
      have hround : toUInt32 (digitsVal v : Int) = digitsVal v := by
        unfold INT_MAX at hle
        unfold toUInt32
        omega
      rw [hround]
    · have ha : atoi v < 0 := h.resolve_left hno
      refine ⟨by rw [hset, if_pos ha], str "472 " ++ c.nick ++ str " " ++ str "+l" ++
        str " :is unknown mode char to me", ?_, fun y d hd => ?_⟩
      · simp only [List.append_assoc]
        exact errorReply_unknownMode _
      · obtain ⟨d', hd', hbuf⟩ := hmail y d hd
        refine ⟨d', hd', hbuf.trans ?_⟩
        rw [if_pos ha]
        by_cases hy : y = x
        · rw [if_pos hy, if_pos hy, frames_cons, frames_nil, List.append_nil]
        · rw [if_neg hy, if_neg hy, frames_nil]

/-- The operator of a new channel, which has no limit. -/
theorem exists_unlimited : ∃ cfg c ch, runServer (str "2") 3
      (connect 0 alice ++ say 0 0 4 (register "al" ++ str "JOIN #c\r\n")) = .ok cfg ∧
    cfg.srv.cliAt alice.addr = some c ∧ cfg.srv.chs[str "#c"]? = some ch ∧ alice.addr ∈ ch.adms ∧
    ch.limit = UINT_MAX := by
  obtain ⟨cfg, hrun, hP⟩ := exists_run (str "2") 3
    (connect 0 alice ++ say 0 0 4 (register "al" ++ str "JOIN #c\r\n"))
    (fun cfg => (cfg.srv.cliAt alice.addr).isSome &&
      (cfg.srv.chs[str "#c"]?).any fun ch => alice.addr ∈ ch.adms && ch.limit = UINT_MAX) (by decide +kernel)
  rw [Bool.and_eq_true, Option.isSome_iff_exists, Option.any_eq_true] at hP
  obtain ⟨⟨c, hc⟩, ch, hch, hP⟩ := hP
  rw [Bool.and_eq_true, decide_eq_true_eq, decide_eq_true_eq] at hP
  exact ⟨cfg, c, ch, hrun, hc, hch, hP.1, hP.2⟩

/-- `MODE #c +l 5` sets the limit 5. -/
theorem limit_iff_five : ∃ cfg ch s', runServer (str "2") 3
      (connect 0 alice ++ say 0 0 4 (register "al" ++ str "JOIN #c\r\n")) = .ok cfg ∧
    cfg.srv.execLine alice.addr (str "MODE #c +l 5") = .ok s' ∧
    SetsLimit cfg.srv s' alice.addr (str "#c") ch (str "5") := by
  obtain ⟨cfg, c, ch, hrun, hc, hch, hop, -⟩ := exists_unlimited
  have hline : splitCmdToArgs (str "MODE #c +l 5") = [str "MODE", str "#c", str "+l", str "5"] := by decide
  obtain ⟨s', hs', hiff⟩ := limit_iff ⟨_, hrun⟩ hc hch hop hline
  have hnum : Numeral (str "5") := ⟨by decide, List.all_eq_true.mp (by decide)⟩
  have hle : digitsVal (str "5") ≤ INT_MAX := by
    rw [show digitsVal (str "5") = 5 by decide, INT_MAX]
    omega
  exact ⟨cfg, ch, s', hrun, hs', hiff.mpr (.inl ⟨hnum, hle⟩)⟩

/-- `MODE #c +l abc` sets the limit 0. -/
theorem limit_text : ¬ ∀ (pass : Str) (lfd : Nat) (cfg : Config), Reachable pass lfd cfg →
    ∀ (x : Ptr) (k : Str) (ch : Ch) (v line : Str) (s' : Server), cfg.srv.chs[k]? = some ch → x ∈ ch.adms →
      splitCmdToArgs line = [str "MODE", k, str "+l", v] → cfg.srv.execLine x line = .ok s' →
      SetsLimit cfg.srv s' x k ch v := by
  intro hall
  obtain ⟨cfg, c, ch, hrun, hc, hch, hop, hlimit⟩ := exists_unlimited
  have hr : Reachable _ _ cfg := ⟨_, hrun⟩
  obtain ⟨s', hs', hset, -⟩ :=
    execLine_setLimit hr.good.inv hc hch hop
      (show splitCmdToArgs (str "MODE #c +l abc") = [str "MODE", str "#c", str "+l", str "abc"] by decide)
  have hlaw := hall _ _ cfg hr _ _ ch (str "abc") _ s' hch hop (by decide) hs'
  have hsame := (hlaw.other (by decide)).1
  rw [hset, if_neg (by decide)] at hsame
  have hzero : toUInt32 (atoi (str "abc")) = UINT_MAX := by
    rw [← hlimit, ← congrArg Ch.limit (Option.some.inj hsame)]
  exact absurd hzero (by decide)

end FtIrc
