import FtIrc.Transitions
import FtIrc.Welcome.Lines

/-!
# The welcome

Four handlers send `RPL_WELCOME`, each under its own copy of the condition, and nothing records that it
has been sent.  `Once` is what a command must be like for the copies to agree with the rule: a client is
welcomed once, when it is registered and no capability negotiation is open (`welcomes_iff`).
-/

namespace FtIrc

open Std Outcome Server

variable {s s' : Server} {x y : Ptr} {ar : List Str} {c c' d : Cli} {mail : Mail} {pass line : Str}
  {lfd : Nat} {cfg cfg' : Config} {i : Input} {phase phase' : Phase}

/-! ## What a command does to the registration of its author -/

/-- The records agree on what the registration is about. -/
structure SameLogin (c d : Cli) : Prop where
  passOk : d.passOk = c.passOk
  nick : d.nick = c.nick
  uName : d.uName = c.uName
  capInProgress : d.capInProgress = c.capInProgress

theorem SameLogin.refl (c : Cli) : SameLogin c c := ⟨rfl, rfl, rfl, rfl⟩

theorem SameLogin.trans {e : Cli} (h : SameLogin c d) (h' : SameLogin d e) : SameLogin c e :=
  ⟨h'.passOk.trans h.passOk, h'.nick.trans h.nick, h'.uName.trans h.uName,
    h'.capInProgress.trans h.capInProgress⟩

theorem SameLogin.registered (h : SameLogin c d) : d.registered = c.registered := by
  unfold Cli.registered
  rw [h.passOk, h.nick, h.uName]

/-- The record of the author after its command, as far as the registration is concerned. -/
def loginAfter (s : Server) (c : Cli) (ar : List Str) : Cli :=
  if CmdIs ar "PASS" then passSet ar c
  else if CmdIs ar "NICK" then nickSet s ar c
  else if CmdIs ar "USER" then userSet ar c
  else if CmdIs ar "CAP" then capSet ar c
  else c

theorem Effect.login {s₀ : Server} (hno : y ≠ x ∨ ∀ l ∈ welcomeCmds, ¬ CmdIs ar l)
    (h : Effect s₀ x ar s s') (hc : s.cliAt y = some c) : ∃ d, s'.cliAt y = some d ∧ SameLogin c d := by
  have hnot : ∀ {l}, l ∈ welcomeCmds → CmdIs ar l → y = x → False := fun hl hcmd hy =>
    hno.elim (fun h => h hy) fun h => h _ hl hcmd
  cases h with
  | cli z c₀ c' hc₀ heff =>
    rw [cliAt_put hc₀ heff.keeps.addr]
    by_cases hy : y = z
    · rw [if_pos hy]
      subst hy
      rw [hc] at hc₀
      cases hc₀
      refine ⟨c', rfl, ?_⟩
      cases heff with
      | line => exact ⟨rfl, rfl, rfl, rfl⟩
      | pass _ a hcmd => exact (hnot (by simp [welcomeCmds]) hcmd rfl).elim
      | nick _ a hcmd => exact (hnot (by simp [welcomeCmds]) hcmd rfl).elim
      | user _ a r hcmd => exact (hnot (by simp [welcomeCmds]) hcmd rfl).elim
      | cap _ b hcmd => exact (hnot (by simp [welcomeCmds]) hcmd rfl).elim
      | joined => exact ⟨rfl, rfl, rfl, rfl⟩
      | invited => exact ⟨rfl, rfl, rfl, rfl⟩
    · rw [if_neg hy]
      exact ⟨c, hc, .refl c⟩
  | ch k ch ch' _ _ _ => exact ⟨c, hc, .refl c⟩
  | newCh k _ _ _ _ _ _ => exact ⟨c, hc, .refl c⟩
  | mark _ _ _ => exact ⟨c, hc, .refl c⟩

theorem Steps.login {s₀ : Server} (hno : y ≠ x ∨ ∀ l ∈ welcomeCmds, ¬ CmdIs ar l)
    (h : Steps s₀ x ar s) (hc : s₀.cliAt y = some c) : ∃ d, s.cliAt y = some d ∧ SameLogin c d := by
  induction h with
  | refl => exact ⟨c, hc, .refl c⟩
  | tail _ heff ih =>
    obtain ⟨d, hd, hs⟩ := ih
    obtain ⟨e, he, hs'⟩ := heff.login hno hd
    exact ⟨e, he, hs.trans hs'⟩

theorem not_cmdIs {l : String} (l' : String) (h : CmdIs ar l) (hne : str l ≠ str l') : ¬ CmdIs ar l' :=
  fun h' => hne (h.unique h')

/-- The author after the line. -/
theorem author_execLine (hI : Inv s) (hc : s.cliAt x = some c)
    (h : s.execLine x line = .ok s') : ∃ c', s'.cliAt x = some c' ∧
      SameLogin (loginAfter s c (splitCmdToArgs line)) c' ∧
      c'.hist.cmds = c.hist.cmds ++ [splitCmdToArgs line] := by
  obtain ⟨u, -, rfl, hu, -, hsteps⟩ := execLine_run hI hc h
  generalize splitCmdToArgs line = ar at hu hsteps ⊢
  have hput : ∀ {s₁ : Server} {f : Cli → Cli} {mail : Mail}, KeepsAddr f → s₁.cliAt x = some c →
      u = (s₁.updCli x f).sendAll mail → ∃ d, u.cliAt x = some d ∧ SameLogin (f c) d := by
    intro s₁ f mail hf hc₁ hu
    refine ⟨(f c).receive (inbox x mail), ?_, ⟨rfl, rfl, rfl, rfl⟩⟩
    rw [hu, cliAt_sendAll, cliAt_updCli hf, if_pos rfl, hc₁]
    rfl
  have hafter : ∃ d, u.cliAt x = some d ∧ SameLogin (loginAfter s c ar) d := by
    unfold loginAfter
    by_cases hp : CmdIs ar "PASS"
    · rw [if_pos hp]
      rw [cmdRun_pass hp] at hu
      refine hput passSet_keepsAddr ?_ hu
      unfold passMark
      split <;> exact hc
    rw [if_neg hp]
    by_cases hn : CmdIs ar "NICK"
    · rw [if_pos hn]
      rw [cmdRun_nick hn] at hu
      exact hput nickSet_keepsAddr hc hu
    rw [if_neg hn]
    by_cases hus : CmdIs ar "USER"
    · rw [if_pos hus]
      rw [cmdRun_user hus] at hu
      exact hput userSet_keepsAddr hc hu
    rw [if_neg hus]
    by_cases hca : CmdIs ar "CAP"
    · rw [if_pos hca]
      rw [cmdRun_cap hca] at hu
      exact hput capSet_keepsAddr hc hu
    · rw [if_neg hca]
      refine hsteps.login (.inr ?_) hc
      simp only [welcomeCmds, List.forall_mem_cons, List.not_mem_nil, false_implies, implies_true, and_true]
      exact ⟨hp, hn, hus, hca⟩
  obtain ⟨d, hd, hlogin⟩ := hafter
  obtain ⟨d', hd', hlater⟩ := hsteps.later_of hc
  rw [hd] at hd'
  cases hd'
  refine ⟨{ d with hist := { d.hist with cmds := d.hist.cmds ++ [ar] } }, ?_, ?_, ?_⟩
  · rw [cliAt_note, if_pos rfl, hd]
    rfl
  · exact hlogin.trans ⟨rfl, rfl, rfl, rfl⟩
  · show d.hist.cmds ++ [ar] = _
    rw [hlater.cmds]

/-- The commands that send a line like a welcome to their author. -/
def Sends (s : Server) (c : Cli) (ar : List Str) : Prop :=
  (CmdIs ar "PASS" ∧ PassTaken ar c ∧ (passSet ar c).welcome = true) ∨
  (CmdIs ar "NICK" ∧ NickTaken s ar ∧ (nickSet s ar c).welcome = true) ∨
  (CmdIs ar "USER" ∧ UserTaken ar c ∧ (userSet ar c).welcome = true) ∨
  (CmdIs ar "CAP" ∧ argD ar 1 = str "END" ∧ c.registered = true) ∨ MockWelcome c ar

instance : Decidable (Sends s c ar) := by
  unfold Sends
  infer_instance

theorem count_reply (m : Str) : (inbox x [(x, m)]).countP isWelcome = if isWelcome m then 1 else 0 := by
  have hinbox : inbox x [(x, m)] = [m] := by simp [inbox]
  rw [hinbox, List.countP_singleton]

theorem isWelcome_rplWelcome (c : Cli) : isWelcome (rplWelcome c) = true := by
  obtain ⟨v, hv⟩ : ∃ v, rplWelcome c = str "001 " ++ v := by
    unfold rplWelcome
    simp only [List.append_assoc]
    exact ⟨_, rfl⟩
  rw [hv]
  exact List.isPrefixOf_iff_prefix.mpr (List.prefix_append _ _)

theorem count_welcomeMail : (inbox x (welcomeMail x c)).countP isWelcome = if c.welcome then 1 else 0 := by
  unfold welcomeMail
  split
  · rw [count_reply, if_pos (isWelcome_rplWelcome c)]
  · rfl

theorem sends_pass (h : CmdIs ar "PASS") :
    Sends s c ar ↔ PassTaken ar c ∧ (passSet ar c).welcome = true := by
  have h1 := not_cmdIs "NICK" h (by decide)
  have h2 := not_cmdIs "USER" h (by decide)
  have h3 := not_cmdIs "CAP" h (by decide)
  have h4 := not_cmdIs "JOIN" h (by decide)
  simp [Sends, MockWelcome, h, h1, h2, h3, h4]

theorem sends_nick (h : CmdIs ar "NICK") :
    Sends s c ar ↔ NickTaken s ar ∧ (nickSet s ar c).welcome = true := by
  have h1 := not_cmdIs "PASS" h (by decide)
  have h2 := not_cmdIs "USER" h (by decide)
  have h3 := not_cmdIs "CAP" h (by decide)
  have h4 := not_cmdIs "JOIN" h (by decide)
  simp [Sends, MockWelcome, h, h1, h2, h3, h4]

theorem sends_user (h : CmdIs ar "USER") :
    Sends s c ar ↔ UserTaken ar c ∧ (userSet ar c).welcome = true := by
  have h1 := not_cmdIs "PASS" h (by decide)
  have h2 := not_cmdIs "NICK" h (by decide)
  have h3 := not_cmdIs "CAP" h (by decide)
  have h4 := not_cmdIs "JOIN" h (by decide)
  simp [Sends, MockWelcome, h, h1, h2, h3, h4]

theorem sends_cap (h : CmdIs ar "CAP") : Sends s c ar ↔ argD ar 1 = str "END" ∧ c.registered = true := by
  have h1 := not_cmdIs "PASS" h (by decide)
  have h2 := not_cmdIs "NICK" h (by decide)
  have h3 := not_cmdIs "USER" h (by decide)
  have h4 := not_cmdIs "JOIN" h (by decide)
  simp [Sends, MockWelcome, h, h1, h2, h3, h4]

theorem sends_other (h : ∀ l ∈ welcomeCmds, ¬ CmdIs ar l) : Sends s c ar ↔ MockWelcome c ar := by
  have h1 := h "PASS" (by simp [welcomeCmds])
  have h2 := h "NICK" (by simp [welcomeCmds])
  have h3 := h "USER" (by simp [welcomeCmds])
  have h4 := h "CAP" (by simp [welcomeCmds])
  simp [Sends, h1, h2, h3, h4]

theorem count_passMail : (inbox x (passMail s x c ar)).countP isWelcome =
    if PassTaken ar c ∧ (passSet ar c).welcome = true then 1 else 0 := by
  unfold passMail
  by_cases hp : c.passOk = true
  · rw [if_pos hp, (plain_reply (by decide)).count, if_neg]
    rintro ⟨⟨hno, -⟩, -⟩
    rw [hp] at hno
    cases hno
  rw [if_neg hp]
  by_cases ha : argD ar 1 = []
  · rw [if_pos ha, (plain_reply (by decide)).count, if_neg]
    rintro ⟨⟨-, hno⟩, -⟩
    exact hno ha
  · have htaken : PassTaken ar c := ⟨by simpa using hp, ha⟩
    have hset : passSet ar c = { c with passOk := true } := if_pos htaken
    have hwrong : (inbox x (if argD ar 1 ≠ s.pass then
        [(x, str "464 :" ++ c.nick ++ str " :Password incorrect")] else [])).countP isWelcome = 0 := by
      split
      · exact Plain.count (plain_reply (other_append (other_append (by decide))))
      · rfl
    rw [if_neg ha, inbox_append, List.countP_append, hwrong, Nat.zero_add, count_welcomeMail, hset]
    exact if_congr (and_iff_right htaken).symm rfl rfl

theorem count_nickMail : (inbox x (nickMail s x c ar)).countP isWelcome =
    if NickTaken s ar ∧ (nickSet s ar c).welcome = true then 1 else 0 := by
  have hrefused : ∀ m, Other m → ¬ NickTaken s ar → (inbox x [(x, m)]).countP isWelcome =
      if NickTaken s ar ∧ (nickSet s ar c).welcome = true then 1 else 0 := by
    intro m hm hno
    rw [if_neg fun h => hno h.1]
    exact (plain_reply hm).count
  unfold nickMail
  by_cases ha : argD ar 1 = []
  · rw [if_pos ha]
    exact hrefused _ (by decide) fun h => h.1 ha
  rw [if_neg ha]
  by_cases hbad : 9 < (argD ar 1).length ∨ ¬ ∀ b ∈ argD ar 1, b ∈ nickChars
  · rw [if_pos hbad]
    refine hrefused _ (other_append (other_append (by decide))) fun h => ?_
    rcases hbad with hlen | hch
    · exact absurd h.2.1 (by omega)
    · exact hch h.2.2.1
  rw [if_neg hbad]
  by_cases huse : ∃ d ∈ s.clients, toLower (argD ar 1) = toLower d.nick
  · rw [if_pos huse]
    refine hrefused _ (other_append (other_append (other_append (other_append (by decide))))) fun h => ?_
    obtain ⟨d, hd, he⟩ := huse
    exact h.2.2.2 d hd he
  · rw [if_neg huse, count_welcomeMail]
    push Not at hbad huse
    have htaken : NickTaken s ar := ⟨ha, hbad.1, hbad.2, huse⟩
    have hset : nickSet s ar c = { c with nick := argD ar 1 } := if_pos htaken
    rw [hset]
    exact if_congr (and_iff_right htaken).symm rfl rfl

theorem count_userMail : (inbox x (userMail x c ar)).countP isWelcome =
    if UserTaken ar c ∧ (userSet ar c).welcome = true then 1 else 0 := by
  unfold userMail
  by_cases h5 : ar.length < 5
  · rw [if_pos h5, (plain_reply (by decide)).count, if_neg]
    rintro ⟨⟨h, -⟩, -⟩
    omega
  rw [if_neg h5]
  by_cases hu : c.uName ≠ []
  · rw [if_pos hu, (plain_reply (by decide)).count, if_neg]
    rintro ⟨⟨-, h⟩, -⟩
    exact hu h
  · have htaken : UserTaken ar c := ⟨by omega, not_not.mp hu⟩
    have hset : userSet ar c = { c with uName := argD ar 1, rName := argD ar 4 } := if_pos htaken
    rw [if_neg hu, count_welcomeMail, hset]
    exact if_congr (and_iff_right htaken).symm rfl rfl

theorem count_capMail : (inbox x (capMail x c ar)).countP isWelcome =
    if argD ar 1 = str "END" ∧ c.registered = true then 1 else 0 := by
  unfold capMail
  by_cases hls : argD ar 1 = str "LS"
  · rw [if_pos hls, (plain_reply (by decide)).count, if_neg]
    rintro ⟨hend, -⟩
    rw [hls] at hend
    exact absurd hend (by decide)
  rw [if_neg hls]
  split
  · have hwelcome : isWelcome (str "001 :" ++ c.nick) = true := by
      have hv : str "001 :" ++ c.nick = str "001 " ++ (str ":" ++ c.nick) := rfl
      rw [hv]
      exact List.isPrefixOf_iff_prefix.mpr (List.prefix_append _ _)
    rw [count_reply, if_pos hwelcome]
  · rfl

theorem MockWelcome.run (h : MockWelcome c ar) :
    cmdRun s x c ar = (s, [(x, argD ar 1 ++ str " :407 recipients. Too many targets.")]) := by
  obtain ⟨hcmd, hreg, h2, hmany, -⟩ := h
  have hz : ¬ (ar.length = 2 ∧ argD ar 1 = str "0") := by
    rintro ⟨-, hz⟩
    rw [hz] at hmany
    exact absurd hmany (by decide)
  rw [cmdRun_join hcmd]
  unfold execJoinRun registeredRun
  rw [if_neg (by simp [hreg]), if_neg (by omega), if_neg hz, if_pos hmany]

/-- **The welcomes that a command sends to its author.** -/
theorem count_cmdRun (hI : Inv s) : (inbox x (cmdRun s x c ar).2).countP isWelcome =
    if Sends s c ar then 1 else 0 := by
  by_cases hp : CmdIs ar "PASS"
  · rw [cmdRun_pass hp, count_passMail]
    exact if_congr (sends_pass hp).symm rfl rfl
  by_cases hn : CmdIs ar "NICK"
  · rw [cmdRun_nick hn, count_nickMail]
    exact if_congr (sends_nick hn).symm rfl rfl
  by_cases hu : CmdIs ar "USER"
  · rw [cmdRun_user hu, count_userMail]
    exact if_congr (sends_user hu).symm rfl rfl
  by_cases hc : CmdIs ar "CAP"
  · rw [cmdRun_cap hc, count_capMail]
    exact if_congr (sends_cap hc).symm rfl rfl
  have hother : ∀ l ∈ welcomeCmds, ¬ CmdIs ar l := by
    simp only [welcomeCmds, List.forall_mem_cons, List.not_mem_nil, false_implies, implies_true, and_true]
    exact ⟨hp, hn, hu, hc⟩
  by_cases hmock : MockWelcome c ar
  · -- the refusal is the only line
    rw [hmock.run, count_reply, if_pos hmock.2.2.2.2, if_pos ((sends_other hother).mpr hmock)]
  · rw [(plain_cmdRun hI hother hmock).count, if_neg fun h => hmock ((sends_other hother).mp h)]

/-- A command sends no welcome to the other clients. -/
theorem count_cmdRun_others (hI : Inv s) (hy : y ≠ x) :
    (inbox y (cmdRun s x c ar).2).countP isWelcome = 0 := by
  have hnone : ∀ {mail : Mail}, (∀ m, (y, m) ∉ mail) → (inbox y mail).countP isWelcome = 0 := fun h => by
    rw [List.countP_eq_zero]
    exact fun m hm => absurd (mem_inbox.mp hm) (h m)
  by_cases hp : CmdIs ar "PASS"
  · rw [cmdRun_pass hp]
    exact hnone fun _ => not_mem_passMail hy
  by_cases hn : CmdIs ar "NICK"
  · rw [cmdRun_nick hn]
    exact hnone fun _ => not_mem_nickMail hy
  by_cases hu : CmdIs ar "USER"
  · rw [cmdRun_user hu]
    exact hnone fun _ => not_mem_userMail hy
  by_cases hc : CmdIs ar "CAP"
  · rw [cmdRun_cap hc]
    exact hnone fun _ => not_mem_capMail hy
  have hother : ∀ l ∈ welcomeCmds, ¬ CmdIs ar l := by
    simp only [welcomeCmds, List.forall_mem_cons, List.not_mem_nil, false_implies, implies_true, and_true]
    exact ⟨hp, hn, hu, hc⟩
  by_cases hmock : MockWelcome c ar
  · rw [hmock.run]
    exact hnone fun _ => not_mem_reply hy
  · exact (plain_cmdRun hI hother hmock).count

/-! ## The rule -/

/-- `CAP LS` opens a negotiation, `CAP END` ends it. -/
def capStep (opened : Bool) (ar : List Str) : Bool :=
  if CmdIs ar "CAP" ∧ argD ar 1 = str "LS" then true
  else if CmdIs ar "CAP" ∧ argD ar 1 = str "END" then false
  else opened

/-- A capability negotiation is open after the commands. -/
def negotiating (cmds : List (List Str)) : Bool := cmds.foldl capStep false

/-- The client is registered, and no negotiation is open. -/
def Cli.ready (c : Cli) : Bool := c.registered && !negotiating c.hist.cmds

/-- The welcomes of the client at `y`, if there is one. -/
def welcomed (s : Server) (y : Ptr) : Nat := ((s.cliAt y).map (·.welcomes)).getD 0

/-- The rule for a record, given the welcomes it had: a client that is ready has been welcomed once,
and so has one that had been welcomed before; the others have not been welcomed. -/
def Due (n : Nat) (c' : Cli) : Prop := c'.welcomes = if 0 < n ∨ c'.ready = true then 1 else 0

/-- The transition keeps to the rule. -/
def WelcomesOnce (cfg : Config) (i : Input) : Prop := ∀ cfg', step cfg i = .ok cfg' →
  ∀ y c', cfg'.srv.cliAt y = some c' → Due (welcomed cfg.srv y) c'

/-- The command completes the registration. -/
def Completes (s : Server) (c : Cli) (ar : List Str) : Prop :=
  (CmdIs ar "PASS" ∧ PassTaken ar c ∧ c.nick ≠ [] ∧ c.uName ≠ []) ∨
  (CmdIs ar "NICK" ∧ NickTaken s ar ∧ c.passOk = true ∧ c.nick = [] ∧ c.uName ≠ []) ∨
  (CmdIs ar "USER" ∧ UserTaken ar c ∧ c.passOk = true ∧ c.nick ≠ [])

/-- The commands for which the handlers agree with the rule. -/
structure Once (s : Server) (c : Cli) (ar : List Str) : Prop where
  /-- a client that has been welcomed does not change its nick, except while `capInProgress`, and does
  not send `CAP END` -/
  again : 0 < c.welcomes → ¬ (CmdIs ar "NICK" ∧ NickTaken s ar ∧ c.capInProgress = false) ∧
    ¬ (CmdIs ar "CAP" ∧ argD ar 1 = str "END")
  /-- the negotiation has not been ended before the registration is complete -/
  early : Completes s c ar → c.capInProgress = true → negotiating c.hist.cmds = true
  genuine : ¬ MockWelcome c ar

/-- The command, if there is one, is `Once`. -/
def OnceAtMost (cfg : Config) (i : Input) : Prop := i = .next →
  ∀ x line lines todo c, cfg.phase = .cmds x (line :: lines) todo → cfg.srv.cliAt x = some c →
    CmdSafe cfg.srv x (splitCmdToArgs line) → Once cfg.srv c (splitCmdToArgs line)

/-- What the rule and the handlers have made of a record. -/
structure Cli.Fair (c : Cli) : Prop where
  once : c.welcomes ≤ 1
  due : c.welcomes = 0 → c.ready = false
  reg : 0 < c.welcomes → c.registered = true
  cap : negotiating c.hist.cmds = true → c.capInProgress = true

theorem negotiating_append (cmds : List (List Str)) (ar : List Str) :
    negotiating (cmds ++ [ar]) = capStep (negotiating cmds) ar := by
  unfold negotiating
  rw [List.foldl_append]
  rfl

theorem capStep_of_not (h : ¬ CmdIs ar "CAP") (b : Bool) : capStep b ar = b := by
  unfold capStep
  rw [if_neg fun hno => h hno.1, if_neg fun hno => h hno.1]

/-- A client that is registered and has not been welcomed is in a negotiation. -/
theorem Cli.Fair.waiting (h : c.Fair) (h0 : c.welcomes = 0) (hreg : c.registered = true) :
    negotiating c.hist.cmds = true := by
  have := h.due h0
  unfold Cli.ready at this
  rw [hreg] at this
  simpa using this

/-- A client that is not registered has not been welcomed. -/
theorem Cli.Fair.unwelcomed (h : c.Fair) (hreg : c.registered = false) : c.welcomes = 0 := by
  by_contra hne
  have hyes : c.registered = true := h.reg (by omega)
  rw [hreg] at hyes
  cases hyes

/-- What the rule asks of a command of the client `c`. -/
def Ruled (s : Server) (c : Cli) (ar : List Str) : Prop :=
  c.welcomes + (if Sends s c ar then 1 else 0) =
    if 0 < c.welcomes ∨ ((loginAfter s c ar).registered = true ∧
      capStep (negotiating c.hist.cmds) ar = false) then 1 else 0

/-- A command that changes nothing is as the rule asks, unless it sends something like a welcome. -/
theorem ruled_same (hf : c.Fair) (hlogin : (loginAfter s c ar).registered = c.registered)
    (hcap : capStep (negotiating c.hist.cmds) ar = negotiating c.hist.cmds) :
    Ruled s c ar ↔ ¬ Sends s c ar := by
  unfold Ruled
  rw [hlogin, hcap]
  have hready : (c.registered = true ∧ negotiating c.hist.cmds = false) ↔ c.ready = true := by
    simp [Cli.ready]
  simp only [hready]
  have hone := hf.once
  have hdue := hf.due
  by_cases hs : Sends s c ar <;> by_cases h0 : c.welcomes = 0
  · simp [hs, h0, hdue h0]
  · rw [if_pos hs, if_pos (.inl (by omega))]
    exact iff_of_false (by omega) (not_not.mpr hs)
  · simp [hs, h0, hdue h0]
  · rw [if_neg hs, if_pos (.inl (by omega))]
    exact iff_of_true (by omega) hs

/-- A command that completes the registration, of a client that has not been welcomed. -/
theorem ruled_completes (hf : c.Fair) (h0 : c.welcomes = 0) (hreg : (loginAfter s c ar).registered = true)
    (hsends : Sends s c ar ↔ c.capInProgress = false)
    (hcap : capStep (negotiating c.hist.cmds) ar = negotiating c.hist.cmds) :
    Ruled s c ar ↔ (c.capInProgress = true → negotiating c.hist.cmds = true) := by
  have hopen := hf.cap
  unfold Ruled
  rw [hreg, hcap, h0]
  simp only [hsends]
  revert hopen
  cases c.capInProgress <;> cases negotiating c.hist.cmds <;> simp

/-- A command of a client that is not registered, which is so after it if `P` holds. -/
theorem ruled_unregistered {P : Prop} (hf : c.Fair) (hreg : c.registered = false)
    (hreg' : (loginAfter s c ar).registered = true ↔ P)
    (hsends : Sends s c ar ↔ P ∧ c.capInProgress = false)
    (hcap : capStep (negotiating c.hist.cmds) ar = negotiating c.hist.cmds) :
    Ruled s c ar ↔ (P → c.capInProgress = true → negotiating c.hist.cmds = true) := by
  by_cases hP : P
  · have hwelcome : Sends s c ar ↔ c.capInProgress = false := hsends.trans (and_iff_right hP)
    rw [ruled_completes hf (hf.unwelcomed hreg) (hreg'.mpr hP) hwelcome hcap, forall_prop_of_true hP]
  · have hsame : (loginAfter s c ar).registered = c.registered := by
      rw [hreg, Bool.eq_false_iff, ne_eq, hreg']
      exact hP
    rw [ruled_same hf hsame hcap]
    exact iff_of_true (fun hs => hP (hsends.mp hs).1) fun hno => absurd hno hP

theorem loginAfter_pass (h : CmdIs ar "PASS") : loginAfter s c ar = passSet ar c := if_pos h

theorem loginAfter_nick (h : CmdIs ar "NICK") : loginAfter s c ar = nickSet s ar c := by
  unfold loginAfter
  rw [if_neg (not_cmdIs _ h (by decide)), if_pos h]

theorem loginAfter_user (h : CmdIs ar "USER") : loginAfter s c ar = userSet ar c := by
  unfold loginAfter
  rw [if_neg (not_cmdIs _ h (by decide)), if_neg (not_cmdIs _ h (by decide)), if_pos h]

theorem loginAfter_cap (h : CmdIs ar "CAP") : loginAfter s c ar = capSet ar c := by
  unfold loginAfter
  rw [if_neg (not_cmdIs _ h (by decide)), if_neg (not_cmdIs _ h (by decide)), if_neg (not_cmdIs _ h (by decide)),
    if_pos h]

theorem loginAfter_other (h : ∀ l ∈ welcomeCmds, ¬ CmdIs ar l) : loginAfter s c ar = c := by
  unfold loginAfter
  rw [if_neg (h _ (by simp [welcomeCmds])), if_neg (h _ (by simp [welcomeCmds])),
    if_neg (h _ (by simp [welcomeCmds])), if_neg (h _ (by simp [welcomeCmds]))]

theorem completes_pass (h : CmdIs ar "PASS") :
    Completes s c ar ↔ PassTaken ar c ∧ c.nick ≠ [] ∧ c.uName ≠ [] := by
  have h1 := not_cmdIs "NICK" h (by decide)
  have h2 := not_cmdIs "USER" h (by decide)
  simp [Completes, h, h1, h2]

theorem completes_nick (h : CmdIs ar "NICK") :
    Completes s c ar ↔ NickTaken s ar ∧ c.passOk = true ∧ c.nick = [] ∧ c.uName ≠ [] := by
  have h1 := not_cmdIs "PASS" h (by decide)
  have h2 := not_cmdIs "USER" h (by decide)
  simp [Completes, h, h1, h2]

theorem completes_user (h : CmdIs ar "USER") :
    Completes s c ar ↔ UserTaken ar c ∧ c.passOk = true ∧ c.nick ≠ [] := by
  have h1 := not_cmdIs "PASS" h (by decide)
  have h2 := not_cmdIs "NICK" h (by decide)
  simp [Completes, h, h1, h2]

/-- What `Once` asks of a command that is not `CAP` and no refusal like a welcome. -/
theorem once_iff (hcap : ¬ CmdIs ar "CAP") (hjoin : ¬ CmdIs ar "JOIN") : Once s c ar ↔
    (0 < c.welcomes → ¬ (CmdIs ar "NICK" ∧ NickTaken s ar ∧ c.capInProgress = false)) ∧
      (Completes s c ar → c.capInProgress = true → negotiating c.hist.cmds = true) := by
  constructor
  · exact fun h => ⟨fun hw => (h.again hw).1, h.early⟩
  · exact fun h => ⟨fun hw => ⟨h.1 hw, fun hno => hcap hno.1⟩, h.2, fun hno => hjoin hno.1⟩

theorem ruled_pass (hf : c.Fair) (h : CmdIs ar "PASS") : Ruled s c ar ↔ Once s c ar := by
  have hstep := capStep_of_not (not_cmdIs "CAP" h (by decide)) (negotiating c.hist.cmds)
  have hnick := not_cmdIs "NICK" h (by decide)
  rw [once_iff (not_cmdIs _ h (by decide)) (not_cmdIs _ h (by decide)), completes_pass h,
    and_iff_right fun _ hno => hnick hno.1]
  by_cases htaken : PassTaken ar c
  · have hreg : c.registered = false := by
      unfold Cli.registered
      rw [htaken.1]
      rfl
    have hset : loginAfter s c ar = { c with passOk := true } := by
      rw [loginAfter_pass h]
      exact if_pos htaken
    have hreg' : (loginAfter s c ar).registered = true ↔ c.nick ≠ [] ∧ c.uName ≠ [] := by
      rw [hset, Cli.registered_iff]
      exact and_iff_right rfl
    have hwelcome : Sends s c ar ↔ (c.nick ≠ [] ∧ c.uName ≠ []) ∧ c.capInProgress = false := by
      rw [sends_pass h, and_iff_right htaken, ← loginAfter_pass h, hset, Cli.welcome_iff, and_assoc]
      exact and_iff_right rfl
    rw [ruled_unregistered hf hreg hreg' hwelcome hstep, and_iff_right htaken]
  · have hset : loginAfter s c ar = c := by
      rw [loginAfter_pass h]
      exact if_neg htaken
    rw [ruled_same hf (by rw [hset]) hstep, sends_pass h]
    exact iff_of_true (fun hno => htaken hno.1) fun hno => absurd hno.1 htaken

theorem ruled_nick (hf : c.Fair) (h : CmdIs ar "NICK") : Ruled s c ar ↔ Once s c ar := by
  have hstep := capStep_of_not (not_cmdIs "CAP" h (by decide)) (negotiating c.hist.cmds)
  rw [once_iff (not_cmdIs _ h (by decide)) (not_cmdIs _ h (by decide)), completes_nick h]
  by_cases htaken : NickTaken s ar
  · have hset : loginAfter s c ar = { c with nick := argD ar 1 } := by
      rw [loginAfter_nick h]
      exact if_pos htaken
    have hreg' : (loginAfter s c ar).registered = true ↔ c.passOk = true ∧ c.uName ≠ [] := by
      rw [hset, Cli.registered_iff]
      exact and_congr_right fun _ => and_iff_right htaken.1
    have hwelcome : Sends s c ar ↔ c.passOk = true ∧ c.uName ≠ [] ∧ c.capInProgress = false := by
      rw [sends_nick h, and_iff_right htaken, ← loginAfter_nick h, hset, Cli.welcome_iff]
      exact and_congr_right fun _ => and_iff_right htaken.1
    cases hreg : c.registered with
    | true =>
      -- the client is registered before: the handler asks for `capInProgress` only
      obtain ⟨hp, hn, hu⟩ := Cli.registered_iff.mp hreg
      have hsends : Sends s c ar ↔ c.capInProgress = false := by
        rw [hwelcome, and_iff_right hp, and_iff_right hu]
      rw [ruled_same hf (by rw [hreg, hreg']; exact ⟨hp, hu⟩) hstep, hsends]
      by_cases h0 : c.welcomes = 0
      · have hcap := hf.cap (hf.waiting h0 hreg)
        exact iff_of_true (by rw [hcap]; decide) ⟨fun hw => absurd hw (by omega), fun hc => absurd hc.2.2.1 hn⟩
      · constructor
        · exact fun hno => ⟨fun _ hc => hno hc.2.2, fun hc => absurd hc.2.2.1 hn⟩
        · exact fun hc hno => hc.1 (by omega) ⟨h, htaken, hno⟩
    | false =>
      have hnowelcome : 0 < c.welcomes → ¬ (CmdIs ar "NICK" ∧ NickTaken s ar ∧ c.capInProgress = false) :=
        fun hw => absurd (hf.unwelcomed hreg) (by omega)
      have hempty : c.passOk = true ∧ c.uName ≠ [] → c.nick = [] := by
        intro hnames
        by_contra hn
        rw [Cli.registered_iff.mpr ⟨hnames.1, hn, hnames.2⟩] at hreg
        cases hreg
      rw [ruled_unregistered hf hreg hreg' (hwelcome.trans and_assoc.symm) hstep, and_iff_right hnowelcome]
      constructor
      · exact fun hr hc => hr ⟨hc.2.1, hc.2.2.2⟩
      · exact fun hr hnames => hr ⟨htaken, hnames.1, hempty hnames, hnames.2⟩
  · have hset : loginAfter s c ar = c := by
      rw [loginAfter_nick h]
      exact if_neg htaken
    rw [ruled_same hf (by rw [hset]) hstep, sends_nick h]
    exact iff_of_true (fun hno => htaken hno.1)
      ⟨fun _ hno => htaken hno.2.1, fun hno => absurd hno.1 htaken⟩

theorem ruled_user (hf : c.Fair) (h : CmdIs ar "USER") (hne : argD ar 1 ≠ [] ∨ ar.length < 2) :
    Ruled s c ar ↔ Once s c ar := by
  have hstep := capStep_of_not (not_cmdIs "CAP" h (by decide)) (negotiating c.hist.cmds)
  have hnick := not_cmdIs "NICK" h (by decide)
  rw [once_iff (not_cmdIs _ h (by decide)) (not_cmdIs _ h (by decide)), completes_user h,
    and_iff_right fun _ hno => hnick hno.1]
  by_cases htaken : UserTaken ar c
  · have harg : argD ar 1 ≠ [] := hne.elim id fun hlt => by
      have := htaken.1
      omega
    have hreg : c.registered = false := by
      rw [Bool.eq_false_iff, ne_eq, Cli.registered_iff]
      exact fun hno => hno.2.2 htaken.2
    have hset : loginAfter s c ar = { c with uName := argD ar 1, rName := argD ar 4 } := by
      rw [loginAfter_user h]
      exact if_pos htaken
    have hreg' : (loginAfter s c ar).registered = true ↔ c.passOk = true ∧ c.nick ≠ [] := by
      rw [hset, Cli.registered_iff]
      exact and_congr_right fun _ => and_iff_left harg
    have hwelcome : Sends s c ar ↔ (c.passOk = true ∧ c.nick ≠ []) ∧ c.capInProgress = false := by
      rw [sends_user h, and_iff_right htaken, ← loginAfter_user h, hset, Cli.welcome_iff, and_assoc]
      exact and_congr_right fun _ => and_congr_right fun _ => and_iff_right harg
    rw [ruled_unregistered hf hreg hreg' hwelcome hstep, and_iff_right htaken]
  · have hset : loginAfter s c ar = c := by
      rw [loginAfter_user h]
      exact if_neg htaken
    rw [ruled_same hf (by rw [hset]) hstep, sends_user h]
    exact iff_of_true (fun hno => htaken hno.1) fun hno => absurd hno.1 htaken

theorem ruled_cap (hf : c.Fair) (h : CmdIs ar "CAP") : Ruled s c ar ↔ Once s c ar := by
  have hnick := not_cmdIs "NICK" h (by decide)
  have hpass := not_cmdIs "PASS" h (by decide)
  have huser := not_cmdIs "USER" h (by decide)
  have hjoin := not_cmdIs "JOIN" h (by decide)
  have honce : Once s c ar ↔ (0 < c.welcomes → argD ar 1 ≠ str "END") := by
    constructor
    · exact fun ho hw hend => (ho.again hw).2 ⟨h, hend⟩
    · refine fun ho => ⟨fun hw => ⟨fun hno => hnick hno.1, fun hno => ho hw hno.2⟩, fun hc => ?_,
        fun hno => hjoin hno.1⟩
      rcases hc with hc | hc | hc
      · exact absurd hc.1 hpass
      · exact absurd hc.1 hnick
      · exact absurd hc.1 huser
  have hreg : (loginAfter s c ar).registered = c.registered := by
    rw [loginAfter_cap h]
    unfold capSet
    repeat' split
    all_goals rfl
  have hone := hf.once
  rw [honce]
  unfold Ruled
  rw [hreg]
  simp only [sends_cap h]
  by_cases hls : argD ar 1 = str "LS"
  · -- the negotiation is open from now on
    have hend : argD ar 1 ≠ str "END" := by
      rw [hls]
      decide
    have hopen : capStep (negotiating c.hist.cmds) ar = true := if_pos ⟨h, hls⟩
    rw [hopen, if_neg fun hno => hend hno.1]
    refine iff_of_true ?_ fun _ => hend
    by_cases hw : 0 < c.welcomes
    · rw [if_pos (.inl hw)]
      omega
    · rw [if_neg (by simp [hw])]
      omega
  by_cases hend : argD ar 1 = str "END"
  · have hclosed : capStep (negotiating c.hist.cmds) ar = false := by
      unfold capStep
      rw [if_neg fun hno => hls hno.2, if_pos ⟨h, hend⟩]
    rw [hclosed]
    by_cases hw : 0 < c.welcomes
    · rw [if_pos ⟨hend, hf.reg hw⟩, if_pos (.inl hw)]
      exact iff_of_false (by omega) fun hno => hno hw hend
    · have h0 : c.welcomes = 0 := by omega
      refine iff_of_true ?_ fun hno => absurd hno hw
      simp [h0, hend]
  · have hsame : capStep (negotiating c.hist.cmds) ar = negotiating c.hist.cmds := by
      unfold capStep
      rw [if_neg fun hno => hls hno.2, if_neg fun hno => hend hno.2]
    have hruled : Ruled s c ar ↔ ¬ Sends s c ar := ruled_same hf hreg hsame
    unfold Ruled at hruled
    rw [hreg] at hruled
    simp only [sends_cap h] at hruled
    rw [hruled]
    exact iff_of_true (fun hno => hend hno.1) fun _ => hend

theorem ruled_other (hf : c.Fair) (h : ∀ l ∈ welcomeCmds, ¬ CmdIs ar l) :
    Ruled s c ar ↔ Once s c ar := by
  have hpass := h "PASS" (by simp [welcomeCmds])
  have hnick := h "NICK" (by simp [welcomeCmds])
  have huser := h "USER" (by simp [welcomeCmds])
  have hcap := h "CAP" (by simp [welcomeCmds])
  rw [ruled_same hf (by rw [loginAfter_other h]) (capStep_of_not hcap _), sends_other h]
  constructor
  · refine fun hno => ⟨fun _ => ⟨fun hn => hnick hn.1, fun hc => hcap hc.1⟩, fun hc => ?_, hno⟩
    rcases hc with hc | hc | hc
    · exact absurd hc.1 hpass
    · exact absurd hc.1 hnick
    · exact absurd hc.1 huser
  · exact fun hno => hno.genuine

/-- **A command is as the rule asks exactly if it is `Once`.** -/
theorem ruled_iff (hf : c.Fair) (hne : ∀ a ∈ ar, a ≠ []) : Ruled s c ar ↔ Once s c ar := by
  by_cases hp : CmdIs ar "PASS"
  · exact ruled_pass hf hp
  by_cases hn : CmdIs ar "NICK"
  · exact ruled_nick hf hn
  by_cases hu : CmdIs ar "USER"
  · refine ruled_user hf hu ?_
    by_cases hlt : ar.length < 2
    · exact .inr hlt
    · obtain ⟨a1, ha1⟩ := exists_arg ar 1 (by omega)
      rw [argD_of_getElem? ha1]
      exact .inl (hne a1 (List.mem_of_getElem? ha1))
  by_cases hc : CmdIs ar "CAP"
  · exact ruled_cap hf hc
  · refine ruled_other hf ?_
    simp only [welcomeCmds, List.forall_mem_cons, List.not_mem_nil, false_implies, implies_true, and_true]
    exact ⟨hp, hn, hu, hc⟩

/-- `capInProgress` follows an open negotiation. -/
theorem cap_loginAfter (hf : c.Fair) (hopen : capStep (negotiating c.hist.cmds) ar = true) :
    (loginAfter s c ar).capInProgress = true := by
  by_cases hcap : CmdIs ar "CAP"
  · rw [loginAfter_cap hcap]
    by_cases hls : argD ar 1 = str "LS"
    · unfold capSet
      rw [if_pos hls]
    · have hend : argD ar 1 ≠ str "END" := by
        intro hend
        unfold capStep at hopen
        rw [if_neg fun hno => hls hno.2, if_pos ⟨hcap, hend⟩] at hopen
        cases hopen
      unfold capSet
      rw [if_neg hls, if_neg fun hno => hend hno.1]
      unfold capStep at hopen
      rw [if_neg fun hno => hls hno.2, if_neg fun hno => hend hno.2] at hopen
      exact hf.cap hopen
  · rw [capStep_of_not hcap] at hopen
    have hold := hf.cap hopen
    unfold loginAfter passSet nickSet userSet
    rw [if_neg hcap]
    repeat' split
    all_goals exact hold

/-! ## The transitions -/

/-- The records agree on what the rule is about. -/
structure Kept (c c' : Cli) : Prop where
  login : SameLogin c c'
  cmds : c'.hist.cmds = c.hist.cmds
  welcomes : c'.welcomes = c.welcomes

theorem Kept.of_prepared (hlogin : SameLogin c c') (hcmds : c'.hist.cmds = c.hist.cmds)
    (hprep : c'.hist.prepared = c.hist.prepared) : Kept c c' :=
  ⟨hlogin, hcmds, by unfold Cli.welcomes; rw [hprep]⟩

theorem Kept.refl (c : Cli) : Kept c c := .of_prepared (.refl c) rfl rfl

theorem Kept.ready (h : Kept c c') : c'.ready = c.ready := by
  unfold Cli.ready
  rw [h.login.registered, h.cmds]

theorem Kept.fair (h : Kept c c') (hf : c.Fair) : c'.Fair := by
  refine ⟨?_, fun h0 => ?_, fun hw => ?_, fun hopen => ?_⟩
  · rw [h.welcomes]
    exact hf.once
  · rw [h.welcomes] at h0
    rw [h.ready]
    exact hf.due h0
  · rw [h.welcomes] at hw
    rw [h.login.registered]
    exact hf.reg hw
  · rw [h.cmds] at hopen
    rw [h.login.capInProgress]
    exact hf.cap hopen

theorem Kept.due (h : Kept c c') (hf : c.Fair) : Due c.welcomes c' := by
  have hone := hf.once
  have hdue := hf.due
  unfold Due
  rw [h.welcomes, h.ready]
  by_cases h0 : c.welcomes = 0
  · rw [if_neg, h0]
    rintro (hw | hready)
    · omega
    · rw [hdue h0] at hready
      cases hready
  · rw [if_pos (.inl (by omega))]
    omega

/-- The welcomes of a client that has just connected. -/
theorem fair_new (addr : Ptr) (fd : Nat) (host : Str) :
    (Cli.new addr fd host).Fair ∧ Due 0 (Cli.new addr fd host) :=
  ⟨⟨Nat.zero_le 1, fun _ => rfl, fun h => absurd h (Nat.lt_irrefl 0), fun h => by cases h⟩, rfl⟩

/-- What a transition that executes no command makes of the records. -/
theorem Move.kept (h : Move s phase i s' phase') (hI : Inv s)
    (hno : ∀ z line lines todo, phase ≠ .cmds z (line :: lines) todo) (hd : s'.cliAt y = some c') :
    (∃ c, s.cliAt y = some c ∧ Kept c c') ∨
      (s.cliAt y = none ∧ ∃ addr fd host, c' = Cli.new addr fd host) := by
  obtain ⟨hm, haddr⟩ := cliAt_mem hd
  rcases h.record hI hno hm with ⟨c, hc, out, got, acc, rfl⟩ | ⟨conn, hconn, rfl⟩
  · exact .inl ⟨c, haddr ▸ cliAt_of_mem hI hc, .of_prepared ⟨rfl, rfl, rfl, rfl⟩ rfl rfl⟩
  · refine .inr ⟨?_, _, _, _, rfl⟩
    rw [← haddr]
    exact (acceptContract_iff.mp hconn).2.2.2

/-- What a command makes of the records of the other clients. -/
theorem kept_execLine (hI : Inv s) (hc : s.cliAt x = some c) (h : s.execLine x line = .ok s')
    (hy : y ≠ x) (hd : s.cliAt y = some d) : ∃ d', s'.cliAt y = some d' ∧ Kept d d' := by
  obtain ⟨d', hd', -, hprep⟩ := execLine_inbox hI hc h hd
  obtain ⟨u, -, rfl, -, -, hsteps⟩ := execLine_run hI hc h
  rw [cliAt_note, if_neg hy] at hd'
  obtain ⟨d₁, hd₁, hlogin⟩ := hsteps.login (.inl hy) hd
  obtain ⟨d₂, hd₂, hlater⟩ := hsteps.later_of hd
  rw [hd'] at hd₁ hd₂
  cases hd₁
  cases hd₂
  refine ⟨d', by rw [cliAt_note, if_neg hy, hd'], hlogin, hlater.cmds, ?_⟩
  unfold Cli.welcomes
  rw [hprep, List.countP_append, count_cmdRun_others hI hy, Nat.add_zero]

/-- What a command makes of the record of its author. -/
theorem due_execLine (hI : Inv s) (hc : s.cliAt x = some c) (hf : c.Fair)
    (h : s.execLine x line = .ok s') : ∃ c', s'.cliAt x = some c' ∧
      (Due c.welcomes c' ↔ Once s c (splitCmdToArgs line)) ∧
      (Due c.welcomes c' → c'.Fair) := by
  obtain ⟨c', hc', hlogin, hcmds⟩ := author_execLine hI hc h
  obtain ⟨c₁, hc₁, -, hprep⟩ := execLine_inbox hI hc h hc
  rw [hc'] at hc₁
  cases hc₁
  have hnegotiating : negotiating c'.hist.cmds =
      capStep (negotiating c.hist.cmds) (splitCmdToArgs line) := by
    rw [hcmds, negotiating_append]
  have hwelcomes : c'.welcomes = c.welcomes + if Sends s c (splitCmdToArgs line) then 1 else 0 := by
    unfold Cli.welcomes
    rw [hprep, List.countP_append, count_cmdRun hI]
  have hready : c'.ready = true ↔ (loginAfter s c (splitCmdToArgs line)).registered = true ∧
      capStep (negotiating c.hist.cmds) (splitCmdToArgs line) = false := by
    unfold Cli.ready
    rw [hlogin.registered, hnegotiating, Bool.and_eq_true, Bool.not_eq_true']
  have hiff : Due c.welcomes c' ↔ Ruled s c (splitCmdToArgs line) := by
    unfold Due Ruled
    rw [hwelcomes]
    simp only [hready]
  refine ⟨c', hc', hiff.trans (ruled_iff hf fun a ha => (splitCmdToArgs_arg ha).1), fun hdue => ?_⟩
  obtain ⟨u, -, rfl, -, -, hsteps⟩ := execLine_run hI hc h
  obtain ⟨e, he, hlater⟩ := hsteps.later_of hc
  have hreg : c.registered = true → c'.registered = true := by
    rw [cliAt_note, if_pos rfl, he] at hc'
    cases hc'
    exact hlater.registered
  unfold Due at hdue
  refine ⟨?_, fun h0 => ?_, fun hw => ?_, fun hopen => ?_⟩
  · rw [hdue]
    split <;> omega
  · rw [Bool.eq_false_iff]
    intro hr
    rw [if_pos (.inr hr)] at hdue
    omega
  · by_cases hcond : 0 < c.welcomes ∨ c'.ready = true
    · rcases hcond with hw | hr
      · exact hreg (hf.reg hw)
      · rw [hlogin.registered]
        exact (hready.mp hr).1
    · rw [if_neg hcond] at hdue
      omega
  · rw [hlogin.capInProgress]
    rw [hnegotiating] at hopen
    exact cap_loginAfter hf hopen

theorem fair_nothing (hd : s.cliAt y = none) : welcomed s y = 0 := by
  unfold welcomed
  rw [hd]
  rfl

theorem welcomed_of_cliAt (hd : s.cliAt y = some c) : welcomed s y = c.welcomes := by
  unfold welcomed
  rw [hd]
  rfl

/-- What has held so far. -/
structure Welcomed (cfg : Config) : Prop where
  good : Good cfg
  fair : ∀ y c, cfg.srv.cliAt y = some c → c.Fair

/-- A transition that executes no command keeps to the rule. -/
theorem Welcomed.aside (h : Welcomed cfg) (hno : ∀ z line lines todo, cfg.phase ≠ .cmds z (line :: lines) todo)
    (hstep : step cfg i = .ok cfg') (hd : cfg'.srv.cliAt y = some c') :
    Due (welcomed cfg.srv y) c' ∧ c'.Fair := by
  rcases (move_of_step hstep).kept h.good.inv hno hd with ⟨c, hc, hkept⟩ | ⟨hnone, addr, fd, host, rfl⟩
  · rw [welcomed_of_cliAt hc]
    exact ⟨hkept.due (h.fair y c hc), hkept.fair (h.fair y c hc)⟩
  · rw [fair_nothing hnone]
    exact (fair_new addr fd host).symm

/-- A command that is `Once` keeps to the rule. -/
theorem Welcomed.command {lines : List Str} {todo : List (Nat × Revents)}
    (h : Welcomed ⟨s, .cmds x (line :: lines) todo⟩) (honce : OnceAtMost ⟨s, .cmds x (line :: lines) todo⟩ i)
    (hstep : step ⟨s, .cmds x (line :: lines) todo⟩ i = .ok cfg') :
    (∀ y c', cfg'.srv.cliAt y = some c' → Due (welcomed s y) c') ∧
      ∀ y c', cfg'.srv.cliAt y = some c' → c'.Fair := by
  have hI : Inv s := h.good.inv
  obtain ⟨⟨c, hc⟩, -⟩ := h.good.author x (line :: lines) todo rfl
  suffices hboth : ∀ y c', cfg'.srv.cliAt y = some c' → Due (welcomed s y) c' ∧ c'.Fair from
    ⟨fun y c' hd => (hboth y c' hd).1, fun y c' hd => (hboth y c' hd).2⟩
  intro y c' hd
  have hmove := move_of_step hstep
  obtain ⟨s', phase'⟩ := cfg'
  simp only at hmove hd
  cases hmove with
  | cmd _ _ _ _ _ hs =>
    by_cases hy : y = x
    · subst hy
      obtain ⟨e, he, hiff, hfair⟩ := due_execLine hI hc (h.fair y c hc) hs
      rw [hd] at he
      cases he
      have hdue := hiff.mpr (honce rfl y line lines todo c rfl hc (execLine_ok_iff hI hc |>.mp ⟨s', hs⟩))
      rw [welcomed_of_cliAt hc]
      exact ⟨hdue, hfair hdue⟩
    · cases hold : s.cliAt y with
      | none =>
        obtain ⟨u, -, rfl, -, -, hsteps⟩ := execLine_run hI hc hs
        rw [cliAt_note, if_neg hy] at hd
        rcases hsteps.later y with ⟨-, hnone⟩ | ⟨d, -, hd', -⟩
        · rw [hnone] at hd
          cases hd
        · rw [hold] at hd'
          cases hd'
      | some d =>
        obtain ⟨d', hd', hkept⟩ := kept_execLine hI hc hs hy hold
        rw [hd] at hd'
        cases hd'
        rw [welcomed_of_cliAt hold]
        exact ⟨hkept.due (h.fair y d hold), hkept.fair (h.fair y d hold)⟩

/-- **A transition keeps to the rule exactly if its command is `Once`.** -/
theorem Welcomed.once_iff (h : Welcomed cfg) : WelcomesOnce cfg i ↔ OnceAtMost cfg i := by
  obtain ⟨s, phase⟩ := cfg
  have hI : Inv s := h.good.inv
  constructor
  · rintro hrule rfl x line lines todo c rfl hc hsafe
    obtain ⟨s', hs'⟩ := (execLine_ok_iff hI hc).mpr hsafe
    have hstep : step ⟨s, .cmds x (line :: lines) todo⟩ .next = .ok ⟨s', .cmds x lines todo⟩ := by
      show (liftFault (s.execLine x line) >>= _) = _
      rw [hs']
      rfl
    obtain ⟨c', hc', hiff, -⟩ := due_execLine hI hc (h.fair x c hc) hs'
    refine hiff.mp ?_
    rw [← welcomed_of_cliAt hc]
    exact hrule _ hstep x c' hc'
  · intro honce cfg' hstep y c' hd
    by_cases hcmd : ∃ z line lines todo, phase = .cmds z (line :: lines) todo
    · obtain ⟨z, line, lines, todo, rfl⟩ := hcmd
      exact (h.command honce hstep).1 y c' hd
    · exact (h.aside (fun z line lines todo he => hcmd ⟨z, line, lines, todo, he⟩) hstep hd).1

/-! ## The runs -/

theorem welcomed_start (pass : Str) (lfd : Nat) : Welcomed (start pass lfd) :=
  ⟨good_start pass lfd, fun _ _ hd => by cases hd⟩

theorem Welcomed.step (h : Welcomed cfg) (honce : OnceAtMost cfg i) (hstep : step cfg i = .ok cfg') :
    Welcomed cfg' := by
  refine ⟨good_step cfg i cfg' h.good hstep, fun y c' hd => ?_⟩
  obtain ⟨s, phase⟩ := cfg
  by_cases hcmd : ∃ z line lines todo, phase = .cmds z (line :: lines) todo
  · obtain ⟨z, line, lines, todo, rfl⟩ := hcmd
    exact (h.command honce hstep).2 y c' hd
  · exact (h.aside (fun z line lines todo he => hcmd ⟨z, line, lines, todo, he⟩) hstep hd).2

/-- **Every client of a run is welcomed once, and at the moment at which it becomes ready, exactly if every
command of the run is `Once`.** -/
theorem welcomes_iff (pass : Str) (lfd : Nat) (is : List Input) :
    Runs.Along step WelcomesOnce is (start pass lfd) ↔ Runs.Along step OnceAtMost is (start pass lfd) := by
  constructor
  · exact Runs.along_mono (I := Welcomed)
      (fun cfg i cfg' h hrule hstep => h.step (h.once_iff.mp hrule) hstep)
      (fun cfg i h hrule => h.once_iff.mp hrule) is _ (welcomed_start pass lfd)
  · exact Runs.along_mono (I := Welcomed)
      (fun cfg i cfg' h honce hstep => h.step honce hstep)
      (fun cfg i h honce => h.once_iff.mpr honce) is _ (welcomed_start pass lfd)

/-- A registered client that changes its nick is welcomed again. -/
theorem nick_welcomes_again : ¬ ∀ (pass : Str) (lfd : Nat) (is : List Input),
    Runs.Along step WelcomesOnce is (start pass lfd) := by
  intro hall
  obtain ⟨cfg, hrun, hP⟩ := exists_run (str "2") 3
    (connect 0 alice ++ (wait [silent, readable] ++
      [.next, .recv (.data (register "al" ++ str "NICK bo\r\n")), .next, .next, .next]))
    (fun cfg => (step cfg .next).toOption.any fun cfg' =>
      (cfg'.srv.cliAt alice.addr).any fun c => 1 < c.welcomes) (by decide +kernel)
  simp only [Option.any_eq_true, decide_eq_true_eq] at hP
  obtain ⟨cfg', hok, c, hc, hmany⟩ := hP
  have hstep : step cfg .next = .ok cfg' := eq_ok_of_toOption hok
  obtain ⟨-, hrest⟩ := Runs.along_append (hall (str "2") 3 (_ ++ [.next])) hrun
  have hdue := hrest.1 cfg' hstep alice.addr c hc
  unfold Due at hdue
  split at hdue <;> omega

end FtIrc
