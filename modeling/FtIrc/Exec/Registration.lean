import FtIrc.Command

/-!
# Executing the registration commands

None of them fails: they only reply to their author and write its own record.
-/

namespace FtIrc.Server

open Outcome

variable {s₀ s : Server} {x : Ptr} {ar : List Str} {c d : Cli} {m : Str}

theorem line_welcome (h : Mid s₀ x ar c s) (hn : d.nick = c.nick ∨ CrlfFree d.nick)
    (hu : d.uName = c.uName ∨ CrlfFree d.uName) (hh : d.host = c.host) (hT : Tidy s₀) :
    Line (rplWelcome d) := by
  obtain ⟨hcn, hcu, -, hch⟩ := h.author_tidy hT
  refine line_rplWelcome ?_ ?_ (hh ▸ hch)
  · rcases hn with h | h
    · rw [h]; exact hcn
    · exact h
  · rcases hu with h | h
    · rw [h]; exact hcu
    · exact h

theorem execPass_done (h : Mid s₀ x ar c s₀) (hcmd : CmdIs ar "PASS") :
    Done (Mid s₀ x ar c) (s₀.execPass x ar) := by
  have hd := deref_of_cliAt h.inv h.author₀
  -- the record is written whether or not the password was right
  have hset : ∀ (s : Server) (a : Str), Mid s₀ x ar c s →
      (∃ ms, s.cliAt x = some (c.receive ms)) → c.passOk = false → ar[1]? = some a → a ≠ [] →
      Done (Mid s₀ x ar c)
        (let s' := s.updCli x fun c => { c with passOk := true }
        if c.nick ≠ [] ∧ c.uName ≠ [] ∧ c.capInProgress = false then
          s'.prepareResp x (rplWelcome c)
        else .ok s') := by
    intro s a h ⟨ms, hd⟩ h0 ha hne
    have hmid : Mid s₀ x ar c (s.updCli x fun c => { c with passOk := true }) :=
      h.updCli hd (.pass (c.receive ms) a hcmd h0 ha hne)
    show Done _ (if _ then _ else _)
    split
    · exact hmid.reply_done fun hT _ => line_welcome h (.inl rfl) (.inl rfl) rfl hT
    · exact done_ok hmid
  unfold execPass
  rw [hd]
  show Done _ (if c.passOk = true then _ else _)
  split
  · exact h.reply_done fun _ _ => by simp (disch := decide)
  · rename_i h0
    split
    · exact h.reply_done fun _ _ => by simp (disch := decide)
    · rename_i hlen
      obtain ⟨a, ha⟩ := exists_arg ar 1 (by omega)
      rw [arg_ok ha]
      show Done _ (if a = [] then _ else _)
      split
      · exact h.reply_done fun _ _ => by simp (disch := decide)
      · rename_i hne
        have hpass : c.passOk = false := by simpa using h0
        show Done _ (if a ≠ s₀.pass then _ >>= _ else _)
        split
        · have hmark : Mid s₀ x ar c (s₀.markToErase c.fd) :=
            h.effect (.mark c h.author₀ (.inr hcmd))
          obtain ⟨heq, hmid⟩ := hmark.reply
            (m := str "464 :" ++ c.nick ++ str " :Password incorrect") fun hT _ => by
              simp (disch := decide) [(h.author_tidy hT).1]
          rw [heq]
          exact hset _ a hmid ⟨_, by rw [cliAt_sendAll, cliAt_markToErase, h.author₀]; rfl⟩ hpass ha hne
        · exact hset s₀ a h ⟨[], by rw [receive_nil, h.author₀]⟩ hpass ha hne

theorem execNick_done (h : Mid s₀ x ar c s₀) (hcmd : CmdIs ar "NICK") :
    Done (Mid s₀ x ar c) (s₀.execNick x ar) := by
  have hd := deref_of_cliAt h.inv h.author₀
  unfold execNick
  rw [hd]
  show Done _ (if ar.length < 2 then _ else _)
  split
  · exact h.reply_done fun _ _ => by simp (disch := decide)
  · rename_i hlen
    obtain ⟨a, ha⟩ := exists_arg ar 1 (by omega)
    rw [arg_ok ha]
    have hfree : TidyArgs ar → CrlfFree a := fun hA => tidyArgs_get hA ha
    show Done _ (if a.length = 0 then _ else _)
    split
    · exact h.reply_done fun _ _ => by simp (disch := decide)
    · rename_i hne
      split
      · exact h.reply_done fun _ hA => by simp (disch := decide) [hfree hA]
      · rename_i hchars
        split
        · exact h.reply_done fun hT hA => by
            simp (disch := decide) [hfree hA, (h.author_tidy hT).1]
        · rename_i hfresh
          push Not at hchars hfresh
          have hmid : Mid s₀ x ar c (s₀.updCli x fun c => { c with nick := a }) :=
            h.updCli h.author₀ (.nick c a hcmd ha (fun h0 => hne (by rw [h0]; rfl)) hchars.1
              hchars.2 hfresh)
          show Done _ (if _ then _ else _)
          split
          · exact hmid.reply_done fun hT hA =>
              line_welcome h (.inr (hfree hA)) (.inl rfl) rfl hT
          · exact done_ok hmid

theorem execUser_done (h : Mid s₀ x ar c s₀) (hcmd : CmdIs ar "USER") :
    Done (Mid s₀ x ar c) (s₀.execUser x ar) := by
  have hd := deref_of_cliAt h.inv h.author₀
  unfold execUser
  rw [hd]
  show Done _ (if ar.length < 5 then _ else _)
  split
  · exact h.reply_done fun _ _ => by simp (disch := decide)
  · rename_i hlen
    show Done _ (if c.uName ≠ [] then _ else _)
    split
    · exact h.reply_done fun _ _ => by simp (disch := decide)
    · rename_i hu
      obtain ⟨a, ha⟩ := exists_arg ar 1 (by omega)
      obtain ⟨r, hr⟩ := exists_arg ar 4 (by omega)
      rw [arg_ok ha, arg_ok hr]
      have hmid : Mid s₀ x ar c (s₀.updCli x fun c => { c with uName := a, rName := r }) :=
        h.updCli h.author₀ (.user c a r hcmd ha hr (by simpa using hu))
      show Done _ (if _ then _ else _)
      split
      · exact hmid.reply_done fun hT hA =>
          line_welcome h (.inl rfl) (.inr (tidyArgs_get hA ha)) rfl hT
      · exact done_ok hmid

theorem execCap_done (h : Mid s₀ x ar c s₀) (hcmd : CmdIs ar "CAP") :
    Done (Mid s₀ x ar c) (s₀.execCap x ar) := by
  have hd := deref_of_cliAt h.inv h.author₀
  unfold execCap
  rw [hd]
  show Done _ (if ar.length < 2 then _ else _)
  split
  · exact done_ok h
  · rename_i hlen
    obtain ⟨a, ha⟩ := exists_arg ar 1 (by omega)
    rw [arg_ok ha]
    show Done _ (if a = str "LS" then _ else _)
    split
    · have hmid : Mid s₀ x ar c (s₀.updCli x fun c => { c with capInProgress := true }) :=
        h.updCli h.author₀ (.cap c true hcmd)
      exact hmid.reply_done fun _ _ => by simp (disch := decide)
    · split
      · have hmid : Mid s₀ x ar c (s₀.updCli x fun c => { c with capInProgress := false }) :=
          h.updCli h.author₀ (.cap c false hcmd)
        exact hmid.reply_done fun hT _ => by
          simp (disch := decide) [(h.author_tidy hT).1]
      · exact done_ok h

theorem execPing_done (h : Mid s₀ x ar c s₀) : Done (Mid s₀ x ar c) (s₀.execPing x) :=
  h.reply_done fun _ _ => by simp (disch := decide)

theorem whoisLoop_done : ∀ (nicks : List Str) (s : Server), Mid s₀ x ar c s →
    (TidyArgs ar → ∀ n ∈ nicks, CrlfFree n) → Done (Mid s₀ x ar c) (whoisLoop x nicks s)
  | [], _, h, _ => done_ok h
  | n :: nicks, s, h, hfree => by
    have hrest := fun s h => whoisLoop_done nicks s h fun hA n hn => hfree hA n (by simp [hn])
    have hn : TidyArgs ar → CrlfFree n := fun hA => hfree hA n (by simp)
    unfold whoisLoop
    show Done _ (if s.getCli n = NULL then _ >>= _ else _)
    split
    · exact (h.reply_done fun _ hA => by simp (disch := decide) [hn hA]).bind
        fun s _ h => hrest s h
    · rename_i hne
      obtain ⟨d, hd, -⟩ := getCli_ne_null h.inv hne
      rw [deref_of_cliAt h.inv hd]
      have htidy : Tidy s₀ → TidyArgs ar → _ := fun hT hA => (h.tidy hT hA).cli d (cliAt_mem hd).1
      refine (h.reply_done fun hT hA => ?_).bind fun s' _ h' => ?_
      · obtain ⟨-, hu, hr, hh⟩ := htidy hT hA
        simp (disch := decide) [hn hA, hu, hr, hh]
      · exact (h'.reply_done fun _ hA => by simp (disch := decide) [hn hA]).bind
          fun s _ h => hrest s h

theorem execWhois_done (h : Mid s₀ x ar c s₀) : Done (Mid s₀ x ar c) (s₀.execWhois x ar) := by
  unfold execWhois
  split
  · exact h.reply_done fun _ _ => by simp (disch := decide)
  · rename_i hlen
    obtain ⟨a, ha⟩ := exists_arg ar 1 (by omega)
    rw [arg_ok ha]
    refine whoisLoop_done _ s₀ h fun hA n hn => ?_
    exact (tidyArgs_get hA ha).sub (splitArgToSubargs_part hn).2

end FtIrc.Server
