import FtIrc.Meaning.Messaging
import FtIrc.Meaning.Mode
import FtIrc.Meaning.Join

/-!
# What a command comes to

`cmdRun` is the closed form of `execCmd`: the state with the records and channels written, and the
lines that are then prepared.  `execCmd_run` says so for every command that does not fail;
`execCmd_inbox` is what it means for the send buffer of a client.
-/

namespace FtIrc

open Std Outcome Server

variable {s s' u : Server} {x y : Ptr} {ar : List Str} {c d : Cli} {a1 a2 line : Str} {mail : Mail}
  {l : String}

/-! ## The handlers -/

/-- The handlers that require a registration. -/
def registeredRun (s : Server) (x : Ptr) (c : Cli) (r : Server × Mail) : Server × Mail :=
  if c.registered = false then (s, [(x, errNotRegistered c)]) else r

def privmsgRun (s : Server) (x : Ptr) (c : Cli) (ar : List Str) : Server × Mail :=
  registeredRun s x c
    (if ar.length = 1 then (s, [(x, str "411 :No recipient given (" ++ argD ar 0 ++ str ")")])
    else if ar.length = 2 then (s, [(x, str "412 :No text to send")])
    else if tooManyTargets (splitArgToSubargs (argD ar 1)) = true then
      (s, [(x, str "407 " ++ argD ar 1 ++ str " not valid recipients")])
    else (s, privmsgMails s x c (argD ar 1) (argD ar 2)))

def noticeRun (s : Server) (x : Ptr) (c : Cli) (ar : List Str) : Server × Mail :=
  if c.registered = false ∨ ar.length < 3 then (s, [])
  else (s, noticeMails s x c (argD ar 1) (argD ar 2))

def partRun (s : Server) (x : Ptr) (c : Cli) (ar : List Str) : Server × Mail :=
  registeredRun s x c
    (if ar.length < 2 then (s, [(x, str "461 PART :Not enough parameters")])
    else (partDone s x (argD ar 1), partMails s x c (argD ar 1) (partText ar)))

def execJoinRun (s : Server) (x : Ptr) (c : Cli) (ar : List Str) : Server × Mail :=
  registeredRun s x c
    (if ar.length < 2 then (s, [(x, str "461 JOIN :Not enough parameters")])
    else if ar.length = 2 ∧ argD ar 1 = str "0" then partRun s x c (ar.set 1 (allNames s x))
    else if tooManyTargets (splitArgToSubargs (argD ar 1)) = true then
      (s, [(x, argD ar 1 ++ str " :407 recipients. Too many targets.")])
    else joinRun x c (argD ar 1) (splitArgToSubargs (argD ar 1)) (joinKeys ar) s)

def modeRun (s : Server) (x : Ptr) (c : Cli) (ar : List Str) : Server × Mail :=
  if ar.length ≤ 1 then (s, [(x, str "461 MODE :Not enough parameters")])
  else if (argD ar 1).head? = some HASH then
    registeredRun s x c (modeDone s x c ar, modeChMail s x c ar)
  else (s, modeCliMail s x c ar)

def topicRun (s : Server) (x : Ptr) (c : Cli) (ar : List Str) : Server × Mail :=
  registeredRun s x c
    (if ar.length < 2 then (s, [(x, str "461 TOPIC :Not enough parameters")])
    else (topicDone s x (argD ar 1) ar[2]?, topicMail s x c (argD ar 1) ar[2]?))

def inviteRun (s : Server) (x : Ptr) (c : Cli) (ar : List Str) : Server × Mail :=
  registeredRun s x c
    (if ar.length < 3 then (s, [(x, str "461 INVITE :Not enough parameters")])
    else (inviteDone s x (argD ar 1) (argD ar 2), inviteMail s x c (argD ar 1) (argD ar 2)))

def kickRun (s : Server) (x : Ptr) (c : Cli) (ar : List Str) : Server × Mail :=
  registeredRun s x c
    (if ar.length < 3 then (s, [(x, str "461 KICK :Not enough parameters")])
    else (kickDone s x (argD ar 1) (splitArgToSubargs (argD ar 2)),
      kickMails s x c (argD ar 1) (argD ar 2) (kickText ar)))

/-- The state after a command, before its lines are prepared, and the lines. -/
def cmdRun (s : Server) (x : Ptr) (c : Cli) (ar : List Str) : Server × Mail :=
  match ar with
  | [] => (s, [])
  | a0 :: _ =>
    if a0 = str "PASS" then ((passMark s c ar).updCli x (passSet ar), passMail s x c ar)
    else if a0 = str "NICK" then (s.updCli x (nickSet s ar), nickMail s x c ar)
    else if a0 = str "USER" then (s.updCli x (userSet ar), userMail x c ar)
    else if a0 = str "QUIT" then (s.markToErase c.fd, quitMail s ar)
    else if a0 = str "PING" then (s, [(x, str "PONG")])
    else if a0 = str "CAP" then (s.updCli x (capSet ar), capMail x c ar)
    else if a0 = str "WHOIS" then (s, whoisMails s x ar)
    else if a0 = str "PRIVMSG" then privmsgRun s x c ar
    else if a0 = str "NOTICE" then noticeRun s x c ar
    else if a0 = str "JOIN" then execJoinRun s x c ar
    else if a0 = str "PART" then partRun s x c ar
    else if a0 = str "MODE" then modeRun s x c ar
    else if a0 = str "TOPIC" then topicRun s x c ar
    else if a0 = str "INVITE" then inviteRun s x c ar
    else if a0 = str "KICK" then kickRun s x c ar
    else (s, [(x, str "421 " ++ a0 ++ str " " ++ str " :is unknown mode char to me")])

/-- The commands that have a handler. -/
def knownCmds : List String := ["PASS", "NICK", "USER", "QUIT", "PING", "CAP", "WHOIS", "PRIVMSG",
  "NOTICE", "JOIN", "PART", "MODE", "TOPIC", "INVITE", "KICK"]

/-- Two states, one command: one case per command. -/
theorem cmdRun_cases₂ {t : Server} {P : Server × Mail → Server × Mail → Prop}
    (nil : ar = [] → P (s, []) (t, []))
    (pass : CmdIs ar "PASS" → P ((passMark s c ar).updCli x (passSet ar), passMail s x c ar)
      ((passMark t d ar).updCli x (passSet ar), passMail t x d ar))
    (nick : CmdIs ar "NICK" → P (s.updCli x (nickSet s ar), nickMail s x c ar)
      (t.updCli x (nickSet t ar), nickMail t x d ar))
    (user : CmdIs ar "USER" → P (s.updCli x (userSet ar), userMail x c ar)
      (t.updCli x (userSet ar), userMail x d ar))
    (quit : CmdIs ar "QUIT" → P (s.markToErase c.fd, quitMail s ar)
      (t.markToErase d.fd, quitMail t ar))
    (ping : CmdIs ar "PING" → P (s, [(x, str "PONG")]) (t, [(x, str "PONG")]))
    (cap : CmdIs ar "CAP" → P (s.updCli x (capSet ar), capMail x c ar)
      (t.updCli x (capSet ar), capMail x d ar))
    (whois : CmdIs ar "WHOIS" → P (s, whoisMails s x ar) (t, whoisMails t x ar))
    (privmsg : CmdIs ar "PRIVMSG" → P (privmsgRun s x c ar) (privmsgRun t x d ar))
    (notice : CmdIs ar "NOTICE" → P (noticeRun s x c ar) (noticeRun t x d ar))
    (join : CmdIs ar "JOIN" → P (execJoinRun s x c ar) (execJoinRun t x d ar))
    (part : CmdIs ar "PART" → P (partRun s x c ar) (partRun t x d ar))
    (mode : CmdIs ar "MODE" → P (modeRun s x c ar) (modeRun t x d ar))
    (topic : CmdIs ar "TOPIC" → P (topicRun s x c ar) (topicRun t x d ar))
    (invite : CmdIs ar "INVITE" → P (inviteRun s x c ar) (inviteRun t x d ar))
    (kick : CmdIs ar "KICK" → P (kickRun s x c ar) (kickRun t x d ar))
    (unknown : ∀ a0, ar.head? = some a0 → (∀ l ∈ knownCmds, a0 ≠ str l) →
      P (s, [(x, str "421 " ++ a0 ++ str " " ++ str " :is unknown mode char to me")])
        (t, [(x, str "421 " ++ a0 ++ str " " ++ str " :is unknown mode char to me")])) :
    P (cmdRun s x c ar) (cmdRun t x d ar) := by
  cases ar with
  | nil => exact nil rfl
  | cons a0 rest =>
    have hcmd : ∀ {l}, a0 = str l → CmdIs (a0 :: rest) l := fun he => congrArg some he
    unfold cmdRun
    simp only
    by_cases h1 : a0 = str "PASS"
    · rw [if_pos h1, if_pos h1]
      exact pass (hcmd h1)
    rw [if_neg h1, if_neg h1]
    by_cases h2 : a0 = str "NICK"
    · rw [if_pos h2, if_pos h2]
      exact nick (hcmd h2)
    rw [if_neg h2, if_neg h2]
    by_cases h3 : a0 = str "USER"
    · rw [if_pos h3, if_pos h3]
      exact user (hcmd h3)
    rw [if_neg h3, if_neg h3]
    by_cases h4 : a0 = str "QUIT"
    · rw [if_pos h4, if_pos h4]
      exact quit (hcmd h4)
    rw [if_neg h4, if_neg h4]
    by_cases h5 : a0 = str "PING"
    · rw [if_pos h5, if_pos h5]
      exact ping (hcmd h5)
    rw [if_neg h5, if_neg h5]
    by_cases h6 : a0 = str "CAP"
    · rw [if_pos h6, if_pos h6]
      exact cap (hcmd h6)
    rw [if_neg h6, if_neg h6]
    by_cases h7 : a0 = str "WHOIS"
    · rw [if_pos h7, if_pos h7]
      exact whois (hcmd h7)
    rw [if_neg h7, if_neg h7]
    by_cases h8 : a0 = str "PRIVMSG"
    · rw [if_pos h8, if_pos h8]
      exact privmsg (hcmd h8)
    rw [if_neg h8, if_neg h8]
    by_cases h9 : a0 = str "NOTICE"
    · rw [if_pos h9, if_pos h9]
      exact notice (hcmd h9)
    rw [if_neg h9, if_neg h9]
    by_cases h10 : a0 = str "JOIN"
    · rw [if_pos h10, if_pos h10]
      exact join (hcmd h10)
    rw [if_neg h10, if_neg h10]
    by_cases h11 : a0 = str "PART"
    · rw [if_pos h11, if_pos h11]
      exact part (hcmd h11)
    rw [if_neg h11, if_neg h11]
    by_cases h12 : a0 = str "MODE"
    · rw [if_pos h12, if_pos h12]
      exact mode (hcmd h12)
    rw [if_neg h12, if_neg h12]
    by_cases h13 : a0 = str "TOPIC"
    · rw [if_pos h13, if_pos h13]
      exact topic (hcmd h13)
    rw [if_neg h13, if_neg h13]
    by_cases h14 : a0 = str "INVITE"
    · rw [if_pos h14, if_pos h14]
      exact invite (hcmd h14)
    rw [if_neg h14, if_neg h14]
    by_cases h15 : a0 = str "KICK"
    · rw [if_pos h15, if_pos h15]
      exact kick (hcmd h15)
    rw [if_neg h15, if_neg h15]
    refine unknown a0 rfl ?_
    simp only [knownCmds, List.forall_mem_cons]
    exact ⟨h1, h2, h3, h4, h5, h6, h7, h8, h9, h10, h11, h12, h13, h14, h15, fun _ h => by cases h⟩

/-- **One case per command.** -/
theorem cmdRun_cases {P : Server × Mail → Prop} (nil : ar = [] → P (s, []))
    (pass : CmdIs ar "PASS" → P ((passMark s c ar).updCli x (passSet ar), passMail s x c ar))
    (nick : CmdIs ar "NICK" → P (s.updCli x (nickSet s ar), nickMail s x c ar))
    (user : CmdIs ar "USER" → P (s.updCli x (userSet ar), userMail x c ar))
    (quit : CmdIs ar "QUIT" → P (s.markToErase c.fd, quitMail s ar))
    (ping : CmdIs ar "PING" → P (s, [(x, str "PONG")]))
    (cap : CmdIs ar "CAP" → P (s.updCli x (capSet ar), capMail x c ar))
    (whois : CmdIs ar "WHOIS" → P (s, whoisMails s x ar))
    (privmsg : CmdIs ar "PRIVMSG" → P (privmsgRun s x c ar))
    (notice : CmdIs ar "NOTICE" → P (noticeRun s x c ar))
    (join : CmdIs ar "JOIN" → P (execJoinRun s x c ar))
    (part : CmdIs ar "PART" → P (partRun s x c ar))
    (mode : CmdIs ar "MODE" → P (modeRun s x c ar))
    (topic : CmdIs ar "TOPIC" → P (topicRun s x c ar))
    (invite : CmdIs ar "INVITE" → P (inviteRun s x c ar))
    (kick : CmdIs ar "KICK" → P (kickRun s x c ar))
    (unknown : ∀ a0, ar.head? = some a0 → (∀ l ∈ knownCmds, a0 ≠ str l) →
      P (s, [(x, str "421 " ++ a0 ++ str " " ++ str " :is unknown mode char to me")])) :
    P (cmdRun s x c ar) :=
  cmdRun_cases₂ (s := s) (t := s) (c := c) (d := c) (P := fun r _ => P r) nil pass nick user quit ping
    cap whois privmsg notice join part mode topic invite kick unknown

/-! ## Single commands -/

/-- A command is its name and the rest. -/
theorem cmdIs_cons (h : CmdIs ar l) : ∃ rest, ar = str l :: rest := by
  cases ar with
  | nil => cases h
  | cons a0 rest => exact ⟨rest, by rw [Option.some.inj h]⟩

theorem cmdRun_pass (h : CmdIs ar "PASS") :
    cmdRun s x c ar = ((passMark s c ar).updCli x (passSet ar), passMail s x c ar) := by
  obtain ⟨rest, rfl⟩ := cmdIs_cons h
  unfold cmdRun
  simp only
  rw [if_pos trivial]

theorem cmdRun_nick (h : CmdIs ar "NICK") :
    cmdRun s x c ar = (s.updCli x (nickSet s ar), nickMail s x c ar) := by
  obtain ⟨rest, rfl⟩ := cmdIs_cons h
  unfold cmdRun
  simp only
  rw [if_neg (by decide), if_pos trivial]

theorem cmdRun_user (h : CmdIs ar "USER") :
    cmdRun s x c ar = (s.updCli x (userSet ar), userMail x c ar) := by
  obtain ⟨rest, rfl⟩ := cmdIs_cons h
  unfold cmdRun
  simp only
  rw [if_neg (by decide), if_neg (by decide), if_pos trivial]

theorem cmdRun_cap (h : CmdIs ar "CAP") :
    cmdRun s x c ar = (s.updCli x (capSet ar), capMail x c ar) := by
  obtain ⟨rest, rfl⟩ := cmdIs_cons h
  unfold cmdRun
  simp only
  rw [if_neg (by decide), if_neg (by decide), if_neg (by decide), if_neg (by decide), if_neg (by
    decide), if_pos trivial]

theorem cmdRun_quit (h : CmdIs ar "QUIT") :
    cmdRun s x c ar = (s.markToErase c.fd, quitMail s ar) := by
  obtain ⟨rest, rfl⟩ := cmdIs_cons h
  unfold cmdRun
  simp only
  rw [if_neg (by decide), if_neg (by decide), if_neg (by decide), if_pos trivial]

theorem cmdRun_privmsg (h : CmdIs ar "PRIVMSG") :
    cmdRun s x c ar = privmsgRun s x c ar := by
  obtain ⟨rest, rfl⟩ := cmdIs_cons h
  unfold cmdRun
  simp only
  rw [if_neg (by decide), if_neg (by decide), if_neg (by decide), if_neg (by decide), if_neg (by
    decide), if_neg (by decide), if_neg (by decide), if_pos trivial]

theorem cmdRun_join (h : CmdIs ar "JOIN") :
    cmdRun s x c ar = execJoinRun s x c ar := by
  obtain ⟨rest, rfl⟩ := cmdIs_cons h
  unfold cmdRun
  simp only
  rw [if_neg (by decide), if_neg (by decide), if_neg (by decide), if_neg (by decide), if_neg (by
    decide), if_neg (by decide), if_neg (by decide), if_neg (by decide), if_neg (by decide),
    if_pos trivial]

theorem cmdRun_part (h : CmdIs ar "PART") :
    cmdRun s x c ar = partRun s x c ar := by
  obtain ⟨rest, rfl⟩ := cmdIs_cons h
  unfold cmdRun
  simp only
  rw [if_neg (by decide), if_neg (by decide), if_neg (by decide), if_neg (by decide), if_neg (by
    decide), if_neg (by decide), if_neg (by decide), if_neg (by decide), if_neg (by decide),
    if_neg (by decide), if_pos trivial]

theorem cmdRun_kick (h : CmdIs ar "KICK") :
    cmdRun s x c ar = kickRun s x c ar := by
  obtain ⟨rest, rfl⟩ := cmdIs_cons h
  unfold cmdRun
  simp only
  rw [if_neg (by decide), if_neg (by decide), if_neg (by decide), if_neg (by decide), if_neg (by
    decide), if_neg (by decide), if_neg (by decide), if_neg (by decide), if_neg (by decide),
    if_neg (by decide), if_neg (by decide), if_neg (by decide), if_neg (by decide), if_neg (by
    decide), if_pos trivial]

theorem cmdRun_notice (h : CmdIs ar "NOTICE") :
    cmdRun s x c ar = noticeRun s x c ar := by
  obtain ⟨rest, rfl⟩ := cmdIs_cons h
  unfold cmdRun
  simp only
  rw [if_neg (by decide), if_neg (by decide), if_neg (by decide), if_neg (by decide), if_neg (by
    decide), if_neg (by decide), if_neg (by decide), if_neg (by decide), if_pos trivial]

theorem cmdRun_mode (h : CmdIs ar "MODE") :
    cmdRun s x c ar = modeRun s x c ar := by
  obtain ⟨rest, rfl⟩ := cmdIs_cons h
  unfold cmdRun
  simp only
  rw [if_neg (by decide), if_neg (by decide), if_neg (by decide), if_neg (by decide), if_neg (by
    decide), if_neg (by decide), if_neg (by decide), if_neg (by decide), if_neg (by decide),
    if_neg (by decide), if_neg (by decide), if_pos trivial]

theorem cmdRun_topic (h : CmdIs ar "TOPIC") :
    cmdRun s x c ar = topicRun s x c ar := by
  obtain ⟨rest, rfl⟩ := cmdIs_cons h
  unfold cmdRun
  simp only
  rw [if_neg (by decide), if_neg (by decide), if_neg (by decide), if_neg (by decide), if_neg (by
    decide), if_neg (by decide), if_neg (by decide), if_neg (by decide), if_neg (by decide),
    if_neg (by decide), if_neg (by decide), if_neg (by decide), if_pos trivial]

theorem cmdRun_invite (h : CmdIs ar "INVITE") :
    cmdRun s x c ar = inviteRun s x c ar := by
  obtain ⟨rest, rfl⟩ := cmdIs_cons h
  unfold cmdRun
  simp only
  rw [if_neg (by decide), if_neg (by decide), if_neg (by decide), if_neg (by decide), if_neg (by
    decide), if_neg (by decide), if_neg (by decide), if_neg (by decide), if_neg (by decide),
    if_neg (by decide), if_neg (by decide), if_neg (by decide), if_neg (by decide), if_pos
    trivial]

/-! ## They come to that -/

/-- A handler refuses a client that is not registered. -/
theorem unregistered_ok (hI : Inv s) (hc : s.cliAt x = some c) (hreg : c.registered = false)
    {f : Cli → Except Fault Server} :
    (s.deref x >>= fun c =>
      if c.registered = false then s.prepareResp x (errNotRegistered c) else f c) =
      .ok (s.sendAll [(x, errNotRegistered c)]) := by
  rw [deref_of_cliAt hI hc]
  exact (if_pos hreg).trans (reply_ok hI hc _)

/-- A handler refuses a line with too few arguments. -/
theorem tooFew_ok (hI : Inv s) (hc : s.cliAt x = some c) (hreg : c.registered = true) {b : Prop}
    [Decidable b] (hb : b) (m : Str) {f : Cli → Except Fault Server} :
    (s.deref x >>= fun c => if c.registered = false then s.prepareResp x (errNotRegistered c)
      else if b then s.prepareResp x m else f c) = .ok (s.sendAll [(x, m)]) := by
  rw [deref_of_cliAt hI hc]
  exact (if_neg (by simp [hreg])).trans ((if_pos hb).trans (reply_ok hI hc _))

/-- What is left to show of a handler that requires a registration. -/
theorem registeredRun_ok (hI : Inv s) (hc : s.cliAt x = some c) {r : Server × Mail}
    {f : Cli → Except Fault Server} (h : c.registered = true → (s.deref x >>= fun c =>
      if c.registered = false then s.prepareResp x (errNotRegistered c) else f c) =
        .ok (r.1.sendAll r.2)) :
    (s.deref x >>= fun c =>
      if c.registered = false then s.prepareResp x (errNotRegistered c) else f c) =
      .ok ((registeredRun s x c r).1.sendAll (registeredRun s x c r).2) := by
  unfold registeredRun
  by_cases hreg : c.registered = false
  · rw [if_pos hreg]
    exact unregistered_ok hI hc hreg
  · rw [if_neg hreg]
    exact h (by simpa using hreg)

theorem length_pos_of_cmdIs (h : CmdIs ar l) : 0 < ar.length := by
  refine List.length_pos_of_ne_nil ?_
  rintro rfl
  cases h

theorem privmsgRun_ok (hI : Inv s) (hc : s.cliAt x = some c) (hcmd : CmdIs ar "PRIVMSG")
    (hok : PrivmsgOk s x ar) :
    s.execPrivmsg x ar = .ok ((privmsgRun s x c ar).1.sendAll (privmsgRun s x c ar).2) := by
  refine registeredRun_ok hI hc fun hreg => ?_
  have hpos := length_pos_of_cmdIs hcmd
  show s.execPrivmsg x ar = _
  by_cases h1 : ar.length = 1
  · obtain ⟨a0, ha0⟩ := exists_arg ar 0 hpos
    rw [if_pos h1, argD_of_getElem? ha0]
    unfold execPrivmsg
    rw [arg_ok ha0]
    exact tooFew_ok hI hc hreg h1 _
  rw [if_neg h1]
  by_cases h2 : ar.length = 2
  · rw [if_pos h2]
    unfold execPrivmsg
    rw [deref_of_cliAt hI hc]
    show (if c.registered = false then _ else if ar.length = 1 then _ else if ar.length = 2 then
      s.prepareResp x _ else _) = _
    rw [if_neg (by simp [hreg]), if_neg h1, if_pos h2]
    exact reply_ok hI hc _
  rw [if_neg h2]
  obtain ⟨a1, ha1⟩ := exists_arg ar 1 (by omega)
  obtain ⟨a2, ha2⟩ := exists_arg ar 2 (by omega)
  rw [argD_of_getElem? ha1, argD_of_getElem? ha2]
  by_cases hmany : tooManyTargets (splitArgToSubargs a1) = true
  · rw [if_pos hmany, execPrivmsg_eq hI hc hreg ha1 ha2, if_pos hmany]
    exact reply_ok hI hc _
  · have hfew : tooManyTargets (splitArgToSubargs a1) = false := by simpa using hmany
    rw [if_neg hmany]
    exact execPrivmsg_run hI hc hreg hcmd ha1 ha2 hfew
      (hok ((isReg_iff hc).mpr hreg) a1 ha1 (by omega) hfew)

theorem noticeRun_ok (hI : Inv s) (hc : s.cliAt x = some c) :
    s.execNotice x ar = .ok ((noticeRun s x c ar).1.sendAll (noticeRun s x c ar).2) := by
  unfold noticeRun
  by_cases h : c.registered = false ∨ ar.length < 3
  · rw [if_pos h]
    exact execNotice_silent hI hc h
  · rw [if_neg h]
    push Not at h
    obtain ⟨a1, ha1⟩ := exists_arg ar 1 (by omega)
    obtain ⟨a2, ha2⟩ := exists_arg ar 2 (by omega)
    rw [argD_of_getElem? ha1, argD_of_getElem? ha2]
    exact execNotice_run hI hc (by simpa using h.1) ha1 ha2

theorem partRun_ok (hI : Inv s) (hc : s.cliAt x = some c) (hok : PartOk s x ar) :
    s.execPart x ar = .ok ((partRun s x c ar).1.sendAll (partRun s x c ar).2) := by
  refine registeredRun_ok hI hc fun hreg => ?_
  show s.execPart x ar = _
  by_cases h2 : ar.length < 2
  · rw [if_pos h2]
    exact tooFew_ok hI hc hreg h2 _
  · obtain ⟨a1, ha1⟩ := exists_arg ar 1 (by omega)
    rw [if_neg h2, argD_of_getElem? ha1]
    exact execPart_run hI hc hreg ha1 (hok ((isReg_iff hc).mpr hreg) a1 ha1)

theorem execJoinRun_ok (hI : Inv s) (hc : s.cliAt x = some c) (hcmd : CmdIs ar "JOIN")
    (hok : JoinOk s x ar) :
    s.execJoin x ar = .ok ((execJoinRun s x c ar).1.sendAll (execJoinRun s x c ar).2) := by
  refine registeredRun_ok hI hc fun hreg => ?_
  show s.execJoin x ar = _
  by_cases h2 : ar.length < 2
  · rw [if_pos h2]
    exact tooFew_ok hI hc hreg h2 _
  obtain ⟨a1, ha1⟩ := exists_arg ar 1 (by omega)
  rw [if_neg h2, argD_of_getElem? ha1]
  by_cases hz : ar.length = 2 ∧ a1 = str "0"
  · obtain ⟨hlen, rfl⟩ := hz
    have hset : (ar.set 1 (allNames s x))[1]? = some (allNames s x) := by
      rw [List.getElem?_set_self (by omega)]
    have hok' := (joinOk_iff hc hreg ha1).mp hok
    rw [if_pos ⟨hlen, rfl⟩] at hok'
    rw [if_pos ⟨hlen, rfl⟩, execJoin_zero hI hc hreg hcmd hlen ha1]
    refine partRun_ok hI hc fun _ a ha => ?_
    rw [hset] at ha
    cases ha
    exact (partSafe_allNames hI).mpr hok'
  rw [if_neg hz]
  -- a list that goes well goes as `execJoin_run` says
  obtain ⟨s', hs', -⟩ := (execJoin_spec (.refl hI hc) hcmd).done_iff.mpr hok
  rw [hs', execJoin_run hI hc hreg ha1 hz hs']
  split <;> rfl

theorem modeRun_ok (hI : Inv s) (hc : s.cliAt x = some c) (hne : ∀ a ∈ ar, a ≠ [])
    (hok : (∀ a1 ∈ ar[1]?, a1.head? = some HASH) → NamedOk s x ar) :
    (if 1 < ar.length then do
        let a1 ← arg ar 1
        let b ← first a1
        if b = HASH then s.execModeCh x ar else s.execModeCli x ar
      else s.prepareResp x (str "461 MODE :Not enough parameters")) =
      .ok ((modeRun s x c ar).1.sendAll (modeRun s x c ar).2) := by
  unfold modeRun
  by_cases h1 : 1 < ar.length
  · obtain ⟨a1, ha1⟩ := exists_arg ar 1 h1
    obtain ⟨b, hb, hhead⟩ := first_ok (hne a1 (List.mem_of_getElem? ha1))
    rw [if_pos h1, if_neg (by omega), arg_ok ha1, argD_of_getElem? ha1, hhead]
    show (first a1 >>= _) = _
    rw [hb]
    show (if b = HASH then _ else _) = _
    by_cases hH : b = HASH
    · rw [if_pos hH, if_pos (congrArg some hH)]
      refine registeredRun_ok hI hc fun hreg => ?_
      have hnamed : NamedOk s x ar := hok fun a ha => by
        rw [ha1] at ha
        cases ha
        rw [hhead, hH]
      exact execModeCh_run hI hc hreg ha1 (hnamed ((isReg_iff hc).mpr hreg) a1 ha1)
    · rw [if_neg hH, if_neg fun h => hH (Option.some.inj h)]
      exact execModeCli_run hI hc ha1
  · rw [if_neg h1, if_pos (by omega)]
    exact reply_ok hI hc _

theorem topicRun_ok (hI : Inv s) (hc : s.cliAt x = some c) (hok : NamedOk s x ar) :
    s.execTopic x ar = .ok ((topicRun s x c ar).1.sendAll (topicRun s x c ar).2) := by
  refine registeredRun_ok hI hc fun hreg => ?_
  show s.execTopic x ar = _
  by_cases h2 : ar.length < 2
  · rw [if_pos h2]
    exact tooFew_ok hI hc hreg h2 _
  · obtain ⟨a1, ha1⟩ := exists_arg ar 1 (by omega)
    rw [if_neg h2, argD_of_getElem? ha1]
    exact execTopic_run hI hc hreg ha1 (hok ((isReg_iff hc).mpr hreg) a1 ha1)

theorem inviteRun_ok (hI : Inv s) (hc : s.cliAt x = some c) (hok : InviteOk s x ar) :
    s.execInvite x ar = .ok ((inviteRun s x c ar).1.sendAll (inviteRun s x c ar).2) := by
  refine registeredRun_ok hI hc fun hreg => ?_
  show s.execInvite x ar = _
  by_cases h3 : ar.length < 3
  · rw [if_pos h3]
    exact tooFew_ok hI hc hreg h3 _
  · obtain ⟨a1, ha1⟩ := exists_arg ar 1 (by omega)
    obtain ⟨a2, ha2⟩ := exists_arg ar 2 (by omega)
    rw [if_neg h3, argD_of_getElem? ha1, argD_of_getElem? ha2]
    exact execInvite_run hI hc hreg ha1 ha2 fun hto =>
      hok ((isReg_iff hc).mpr hreg) a1 ha1 hto a2 ha2

theorem kickRun_ok (hI : Inv s) (hc : s.cliAt x = some c) (hok : KickOk s x ar) :
    s.execKick x ar = .ok ((kickRun s x c ar).1.sendAll (kickRun s x c ar).2) := by
  refine registeredRun_ok hI hc fun hreg => ?_
  show s.execKick x ar = _
  by_cases h3 : ar.length < 3
  · rw [if_pos h3]
    exact tooFew_ok hI hc hreg h3 _
  · obtain ⟨a1, ha1⟩ := exists_arg ar 1 (by omega)
    obtain ⟨a2, ha2⟩ := exists_arg ar 2 (by omega)
    rw [if_neg h3, argD_of_getElem? ha1, argD_of_getElem? ha2]
    exact execKick_run hI hc hreg ha1 ha2 (hok ((isReg_iff hc).mpr hreg) a1 ha1 a2 ha2)

/-- **Every command that does not fail comes to `cmdRun`.** -/
theorem execCmd_ok (hI : Inv s) (hc : s.cliAt x = some c) (hne : ∀ a ∈ ar, a ≠ [])
    (hs : CmdSafe s x ar) :
    s.execCmd x ar = .ok ((cmdRun s x c ar).1.sendAll (cmdRun s x c ar).2) := by
  cases ar with
  | nil => rfl
  | cons a0 rest =>
    have hcmd : ∀ {l}, a0 = str l → CmdIs (a0 :: rest) l := fun he => congrArg some he
    unfold execCmd cmdRun
    simp only
    by_cases h1 : a0 = str "PASS"
    · rw [if_pos h1, if_pos h1]
      exact execPass_run hI hc
    rw [if_neg h1, if_neg h1]
    by_cases h2 : a0 = str "NICK"
    · rw [if_pos h2, if_pos h2]
      exact execNick_run hI hc
    rw [if_neg h2, if_neg h2]
    by_cases h3 : a0 = str "USER"
    · rw [if_pos h3, if_pos h3]
      exact execUser_run hI hc hne
    rw [if_neg h3, if_neg h3]
    by_cases h4 : a0 = str "QUIT"
    · rw [if_pos h4, if_pos h4, execQuit_run hI hc, markToErase_sendAll]
    rw [if_neg h4, if_neg h4]
    by_cases h5 : a0 = str "PING"
    · rw [if_pos h5, if_pos h5]
      exact execPing_run hI hc
    rw [if_neg h5, if_neg h5]
    by_cases h6 : a0 = str "CAP"
    · rw [if_pos h6, if_pos h6]
      exact execCap_run hI hc
    rw [if_neg h6, if_neg h6]
    by_cases h7 : a0 = str "WHOIS"
    · rw [if_pos h7, if_pos h7]
      exact execWhois_run hI hc
    rw [if_neg h7, if_neg h7]
    by_cases h8 : a0 = str "PRIVMSG"
    · rw [if_pos h8, if_pos h8]
      exact privmsgRun_ok hI hc (hcmd h8) (hs.privmsg (hcmd h8))
    rw [if_neg h8, if_neg h8]
    by_cases h9 : a0 = str "NOTICE"
    · rw [if_pos h9, if_pos h9]
      exact noticeRun_ok hI hc
    rw [if_neg h9, if_neg h9]
    by_cases h10 : a0 = str "JOIN"
    · rw [if_pos h10, if_pos h10]
      exact execJoinRun_ok hI hc (hcmd h10) (hs.join (hcmd h10))
    rw [if_neg h10, if_neg h10]
    by_cases h11 : a0 = str "PART"
    · rw [if_pos h11, if_pos h11]
      exact partRun_ok hI hc (hs.part (hcmd h11))
    rw [if_neg h11, if_neg h11]
    by_cases h12 : a0 = str "MODE"
    · rw [if_pos h12, if_pos h12]
      exact modeRun_ok hI hc hne (hs.mode (hcmd h12))
    rw [if_neg h12, if_neg h12]
    by_cases h13 : a0 = str "TOPIC"
    · rw [if_pos h13, if_pos h13]
      exact topicRun_ok hI hc (hs.topic (hcmd h13))
    rw [if_neg h13, if_neg h13]
    by_cases h14 : a0 = str "INVITE"
    · rw [if_pos h14, if_pos h14]
      exact inviteRun_ok hI hc (hs.invite (hcmd h14))
    rw [if_neg h14, if_neg h14]
    by_cases h15 : a0 = str "KICK"
    · rw [if_pos h15, if_pos h15]
      exact kickRun_ok hI hc (hs.kick (hcmd h15))
    rw [if_neg h15, if_neg h15]
    exact reply_ok hI hc _

/-- A command that has been executed was safe, and has come to `cmdRun`. -/
theorem execCmd_run (hI : Inv s) (hc : s.cliAt x = some c) (hne : ∀ a ∈ ar, a ≠ [])
    (h : s.execCmd x ar = .ok s') :
    CmdSafe s x ar ∧ s' = (cmdRun s x c ar).1.sendAll (cmdRun s x c ar).2 := by
  have hspec := execCmd_spec (.refl hI hc) fun _ a ha => hne a (List.mem_of_getElem? ha)
  obtain ⟨hsafe, -⟩ := hspec.of_ok h
  rw [execCmd_ok hI hc hne hsafe] at h
  cases h
  exact ⟨hsafe, rfl⟩

/-! ## What the clients receive -/

/-- What a client has been prepared, and its history. -/
def outbox (s : Server) (y : Ptr) : Option (Str × Hist) := (s.cliAt y).map fun d => (d.bufToSend, d.hist)

theorem outbox_updCli {f : Cli → Cli} (hf : KeepsAddr f)
    (h : ∀ d, ((f d).bufToSend, (f d).hist) = (d.bufToSend, d.hist)) :
    outbox (s.updCli x f) y = outbox s y := by
  unfold outbox
  rw [cliAt_updCli hf]
  split
  · rw [Option.map_map]
    congr 1
    funext d
    exact h d
  · rfl

theorem outbox_letIn {me : Cli} {name : Str} : outbox (letIn u x me name) y = outbox u y := by
  unfold letIn useInvitation
  split
  · exact outbox_updCli (fun _ => ⟨rfl, rfl⟩) fun _ => rfl
  · rfl

theorem outbox_joinRun : ∀ (names passes : List Str) (u : Server),
    outbox (joinRun x c a1 names passes u).1 y = outbox u y
  | [], _, _ => rfl
  | name :: names, passes, u => by
    have hone : outbox (joinOne u x c name (passes.headD [])).1 y = outbox u y := by
      unfold joinOne
      split
      · split
        · rfl
        · rw [outbox_letIn]
          unfold outbox
          rw [cliAt_openCh]
      · rfl
    unfold joinRun
    split
    · rfl
    split
    · exact outbox_joinRun names passes u
    split
    · exact outbox_joinRun names passes u
    · exact (outbox_joinRun names passes.tail _).trans hone

theorem outbox_registeredRun {r : Server × Mail} (h : outbox r.1 y = outbox s y) :
    outbox (registeredRun s x c r).1 y = outbox s y := by
  unfold registeredRun
  split
  · rfl
  · exact h

theorem outbox_partRun : outbox (partRun s x c ar).1 y = outbox s y := by
  refine outbox_registeredRun ?_
  split
  · rfl
  · unfold partDone
    split <;> rfl

/-- The writes of a command leave what has been prepared before. -/
theorem outbox_cmdRun : outbox (cmdRun s x c ar).1 y = outbox s y := by
  refine cmdRun_cases (P := fun r => outbox r.1 y = outbox s y) (fun _ => rfl) (fun _ => ?pass)
    (fun _ => ?nick) (fun _ => ?user) (fun _ => rfl) (fun _ => rfl) (fun _ => ?cap) (fun _ => rfl)
    (fun _ => ?privmsg) (fun _ => ?notice) (fun _ => ?join) (fun _ => outbox_partRun) (fun _ => ?mode)
    (fun _ => ?topic) (fun _ => ?invite) (fun _ => ?kick) (fun _ _ _ => rfl)
  case pass =>
    refine (outbox_updCli passSet_keepsAddr fun d => ?_).trans ?_
    · unfold passSet
      split <;> rfl
    · unfold passMark
      split <;> rfl
  case nick =>
    refine outbox_updCli nickSet_keepsAddr fun d => ?_
    unfold nickSet
    split <;> rfl
  case user =>
    refine outbox_updCli userSet_keepsAddr fun d => ?_
    unfold userSet
    split <;> rfl
  case cap =>
    refine outbox_updCli capSet_keepsAddr fun d => ?_
    unfold capSet
    repeat' split
    all_goals rfl
  case privmsg =>
    refine outbox_registeredRun ?_
    repeat' split
    all_goals rfl
  case notice =>
    unfold noticeRun
    split <;> rfl
  case join =>
    refine outbox_registeredRun ?_
    split
    · rfl
    split
    · exact outbox_partRun
    split
    · rfl
    · exact outbox_joinRun _ _ s
  case mode =>
    unfold modeRun
    split
    · rfl
    split
    · refine outbox_registeredRun ?_
      unfold modeDone
      split <;> rfl
    · rfl
  case topic =>
    refine outbox_registeredRun ?_
    split
    · rfl
    · unfold topicDone
      split
      · split <;> rfl
      · rfl
  case invite =>
    refine outbox_registeredRun ?_
    split
    · rfl
    · unfold inviteDone
      split
      · exact outbox_updCli (fun _ => ⟨rfl, rfl⟩) fun _ => rfl
      · rfl
  case kick =>
    refine outbox_registeredRun ?_
    split
    · rfl
    · unfold kickDone
      split <;> rfl

/-- **What a client receives**: the frames of its lines, behind what was there. -/
theorem execCmd_inbox (hI : Inv s) (hc : s.cliAt x = some c) (hne : ∀ a ∈ ar, a ≠ [])
    (h : s.execCmd x ar = .ok s') (hd : s.cliAt y = some d) :
    ∃ d', s'.cliAt y = some d' ∧
      d'.bufToSend = d.bufToSend ++ frames (inbox y (cmdRun s x c ar).2) ∧
      d'.hist.prepared = d.hist.prepared ++ inbox y (cmdRun s x c ar).2 := by
  obtain ⟨-, rfl⟩ := execCmd_run hI hc hne h
  have hout : outbox (cmdRun s x c ar).1 y = outbox s y := outbox_cmdRun
  unfold outbox at hout
  rw [hd, Option.map_some, Option.map_eq_some_iff] at hout
  obtain ⟨d₁, hd₁, he⟩ := hout
  obtain ⟨hbuf, hhist⟩ := Prod.mk.inj he
  refine ⟨d₁.receive (inbox y (cmdRun s x c ar).2), by rw [cliAt_sendAll, hd₁]; rfl, ?_, ?_⟩
  · rw [← hbuf]
    rfl
  · rw [← hhist]
    rfl

end FtIrc
