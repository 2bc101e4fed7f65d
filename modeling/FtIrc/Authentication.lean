import FtIrc.Forgery
import FtIrc.Meaning.Cleanup

/-!
# Authentication

`passOk` is set by `execPass` after a right password, and after a wrong one as well.  In the runs
without a wrong password, a client with `passOk` has sent the right one, and one that has not leaves
the channels alone and relays nothing (`auth_run`).

Two more things are excepted.  `QUIT` asks for no password, and its text reaches everybody: behind an LF
it can go on with a line of any kind (`Smuggles`).  And the removal of a client gives every channel that
has members but no operator a new one (`Beheads`).
-/

namespace FtIrc

open Std Outcome Server Delimited

variable {s₀ s s' : Server} {x y : Ptr} {ar : List Str} {c d d' : Cli} {k : Str} {ch : Ch} {fd lfd : Nat}
  {cfg cfg' : Config} {i : Input} {pass n : Str} {phase phase' : Phase} {fds : List Nat}

/-- The client has sent the password `pass`. -/
def Cli.Presented (c : Cli) (pass : Str) : Prop :=
  ∃ ar ∈ c.hist.cmds, ar.head? = some (str "PASS") ∧ ar[1]? = some pass

instance (c : Cli) (pass : Str) : Decidable (c.Presented pass) := by
  unfold Cli.Presented
  infer_instance

/-- The command word of a line: the word after the prefix, if there is one. -/
def cmdWord (m : Str) : Str :=
  (if m.head? = some COLON then (m.dropWhile (· ≠ SPACE)).drop 1 else m).takeWhile (· ≠ SPACE)

example : cmdWord (str ":a!u@127.0.0.1 PRIVMSG b :hi") = str "PRIVMSG" := by decide

/-- The server stands at a `PASS` with a wrong password, of a client without `passOk`. -/
def WrongPass (cfg : Config) : Prop :=
  match cfg.phase with
  | .cmds x (line :: _) _ => (splitCmdToArgs line).head? = some (str "PASS") ∧
      ((cfg.srv.cliAt x).any fun c => !c.passOk) = true ∧
      (((splitCmdToArgs line)[1]?).any fun a => a ≠ cfg.srv.pass) = true
  | _ => False

instance (cfg : Config) : Decidable (WrongPass cfg) := by
  unfold WrongPass
  split <;> infer_instance

/-- A line that is taken for a relayed message. -/
def IsMessage (l : Str) : Prop := cmdWord l = str "PRIVMSG" ∨ cmdWord l = str "NOTICE"

instance (l : Str) : Decidable (IsMessage l) := by
  unfold IsMessage
  infer_instance

/-- Behind an LF that survives the truncation, a text goes on with such a line. -/
def Smuggles (m : Str) : Prop := ∃ before after : Str,
  m.take (MAX_CMD_LEN - 2) ++ [CR] = before ++ LF :: after ∧ IsMessage (dropCr (after.takeWhile (· ≠ LF)))

theorem smuggles_iff (m : Str) :
    Smuggles m ↔ ∃ l ∈ (clientLines (m.take (MAX_CMD_LEN - 2) ++ [CR])).tail, IsMessage l := by
  obtain ⟨ps, hparts, hmem⟩ := splitOn_parts (a := LF) (m.take (MAX_CMD_LEN - 2) ++ [CR])
  unfold Smuggles clientLines
  rw [hparts, List.map_cons, List.tail_cons]
  constructor
  · rintro ⟨before, after, heq, hm⟩
    exact ⟨_, List.mem_map_of_mem ((hmem _).mpr ⟨before, after, heq, rfl⟩), hm⟩
  · rintro ⟨l, hl, hm⟩
    obtain ⟨p, hp, rfl⟩ := List.mem_map.mp hl
    obtain ⟨before, after, heq, rfl⟩ := (hmem p).mp hp
    exact ⟨before, after, heq, hm⟩

instance (m : Str) : Decidable (Smuggles m) := decidable_of_iff _ (smuggles_iff m).symm

example : Smuggles (str "al!u@127.0.0.1 QUIT :Quit:x\n:root!r@h PRIVMSG al :hi") := by decide

/-- The server stands at a `QUIT` of a client without `passOk` that tells another client such a line. -/
def QuitSmuggles (cfg : Config) : Prop :=
  match cfg.phase with
  | .cmds x (line :: _) _ => CmdIs (splitCmdToArgs line) "QUIT" ∧
      ((cfg.srv.cliAt x).any fun c => !c.passOk) = true ∧
      ∃ d ∈ cfg.srv.clients, d.addr ≠ x ∧ Smuggles (quitLine d (quitText (splitCmdToArgs line)))
  | _ => False

instance (cfg : Config) : Decidable (QuitSmuggles cfg) := by
  unfold QuitSmuggles
  split <;> infer_instance

/-- A channel has members but no operator. -/
def Headless (s : Server) : Prop := ∃ e ∈ s.chs.toList, e.2.adms.size = 0 ∧ 0 < e.2.clis.size

/-- A channel has members but no operator, and the first client that the cleanup is about to remove has no
`passOk`.  Those that are removed later find every channel with an operator. -/
def Beheads (cfg : Config) : Prop :=
  match cfg.phase with
  | .clis => ((cfg.srv.leavers cfg.srv.fdsToErase.toList).head?.any fun c => !c.passOk) = true ∧ Headless cfg.srv
  | _ => False

instance (cfg : Config) : Decidable (Beheads cfg) := by
  unfold Beheads Headless
  split <;> infer_instance

/-- No wrong password, no forged line and no removal that passes on a channel. -/
def Guarded (cfg : Config) : Prop := ¬ WrongPass cfg ∧ ¬ QuitSmuggles cfg ∧ ¬ Beheads cfg

instance (cfg : Config) : Decidable (Guarded cfg) := by
  unfold Guarded
  infer_instance

/-! ## A client without `passOk` -/

theorem not_isReg (hc : s.cliAt x = some c) (hp : c.passOk = false) : ¬ IsReg s x := by
  rintro ⟨d, hd, hreg⟩
  rw [hc] at hd
  cases hd
  rw [(Cli.registered_iff.mp hreg).1] at hp
  cases hp

/-- Its commands leave the channels alone. -/
theorem Steps.chs_of_not_reg (hx : ¬ IsReg s₀ x) (h : Steps s₀ x ar s) : s.chs = s₀.chs := by
  induction h with
  | refl => rfl
  | tail _ heff ih =>
    cases heff with
    | cli _ _ _ _ _ => exact ih
    | ch _ _ _ hreg _ _ => exact absurd hreg hx
    | newCh _ hreg _ _ _ _ _ => exact absurd hreg hx
    | mark _ _ _ => exact ih

/-- A line that begins with a nick and an exclamation mark. -/
theorem not_isMessage (hn : ∀ b ∈ n, b ∈ nickChars) (w : Str) : ¬ IsMessage (n ++ 33 :: w) := by
  have hspace : ∀ b ∈ n, decide (b ≠ SPACE) = true := fun b hb =>
    decide_eq_true fun he => absurd (hn b hb) (he ▸ by decide)
  have hhead : (n ++ 33 :: w).head? ≠ some COLON := by
    cases n with
    | nil => simp [COLON]
    | cons b n =>
      intro h
      exact absurd (hn b (by simp)) (Option.some.inj h ▸ by decide)
  have hmark : (33 : UInt8) ∈ cmdWord (n ++ 33 :: w) := by
    unfold cmdWord
    rw [if_neg hhead, List.takeWhile_append_of_pos hspace]
    simp [SPACE]
  rintro (h | h)
  · exact absurd (h ▸ hmark) (by decide)
  · exact absurd (h ▸ hmark) (by decide)

/-- What the line of `QUIT` is cut into at its LFs. -/
theorem not_message_quitLine (hlen : d.nick.length ≤ 9) (hn : ∀ b ∈ d.nick, b ∈ nickChars) {text : Str}
    (hno : ¬ Smuggles (quitLine d text)) :
    ∀ l ∈ clientLines ((quitLine d text).take (MAX_CMD_LEN - 2) ++ [CR]), ¬ IsMessage l := by
  refine (forall_clientLines _).mpr ⟨?_, fun before after heq hm => hno ⟨before, after, heq, hm⟩⟩
  have hline : quitLine d text = d.nick ++ 33 :: (d.uName ++ str "@" ++ d.host ++ str " QUIT :Quit:" ++ text) := by
    unfold quitLine hostPrefix
    simp only [List.append_assoc]
    rfl
  obtain ⟨w, hw⟩ := firstLine_append_cons (b := 33) (v := d.uName ++ str "@" ++ d.host ++ str " QUIT :Quit:" ++ text)
    (fun h => (nickEnd_of_nickChars (hn LF h)).2.1 rfl) (by simp only [MAX_CMD_LEN]; omega) (by decide) (by decide)
  rw [hline, hw]
  exact not_isMessage hn w

/-- What it tells others is the line of a `QUIT`. -/
theorem Relay.quit_of_not_registered {m : Str} (h : Relay s x c ar y m) (hreg : c.registered = false) :
    CmdIs ar "QUIT" ∧ ∃ d, s.cliAt y = some d ∧ m = quitLine d (quitText ar) := by
  have hno : c.registered ≠ true := fun h => by rw [hreg] at h; cases h
  cases h with
  | quit d hcmd hd => exact ⟨hcmd, d, hd, rfl⟩
  | join name _ _ hname =>
    unfold joinNames at hname
    rw [if_pos (.inl hreg)] at hname
    cases hname
  | privmsg _ _ h => exact absurd h hno
  | notice _ _ h => exact absurd h hno
  | part _ h => exact absurd h hno
  | kick _ _ _ h => exact absurd h hno
  | invite _ h => exact absurd h hno
  | topic _ _ _ h => exact absurd h hno
  | mode _ _ _ h => exact absurd h hno

/-! ## Removing such a client -/

theorem drop_eq_self {p : Ptr} (hp : p ∉ ch.clis) (hadm : ∀ q ∈ ch.adms, q ∈ ch.clis)
    (hhead : ¬ (ch.adms.size = 0 ∧ 0 < ch.clis.size)) : ch.drop p = ch := by
  have hwithout : ch.without p = ch := by
    unfold Ch.without
    rw [erase_of_not_mem hp, erase_of_not_mem fun h => hp (hadm p h)]
  rw [drop_eq, hwithout, if_neg hhead]

theorem headless_iff : Headless s ↔
    ∃ (k : Str) (ch : Ch), s.chs[k]? = some ch ∧ ch.adms.size = 0 ∧ 0 < ch.clis.size := by
  simp only [Headless, Prod.exists, ExtTreeMap.mem_toList_iff_getElem?_eq_some]

theorem chs_reap (hI : Inv s) (hc : c ∈ s.clients) (hp : c.passOk = false) (hhead : ¬ Headless s) :
    (s.reap c).chs = s.chs := by
  refine ExtTreeMap.ext_getElem? fun k => ?_
  rw [getElem?_chs_reap]
  cases hch : s.chs[k]? with
  | none => rfl
  | some ch =>
    have hnot : c.addr ∉ ch.clis := fun hm =>
      not_isReg (cliAt_of_mem hI hc) hp (hI.member k ch hch _ hm)
    have hget : s.getCli c.nick ∉ ch.clis := by
      rcases getCli_reap hI hc with h | h
      · rw [h]
        exact hnot
      · exact (h k ch hch).1
    rw [Option.map_some, drop_eq_self hget (hI.adm k ch hch)
      fun h => hhead (headless_iff.mpr ⟨k, ch, hch, h⟩)]

/-- After a departure a channel has an operator, if it has a member. -/
theorem drop_headed (ch : Ch) (p : Ptr) : ¬ ((ch.drop p).adms.size = 0 ∧ 0 < (ch.drop p).clis.size) := by
  rintro ⟨h0, hpos⟩
  rw [size_eq_zero_iff] at h0
  rcases adms_drop ch p with ⟨hadm, ⟨q, hq, hqp⟩ | hall⟩ | ⟨-, z, -, -, -, honly⟩
  · refine h0 q ?_
    rw [hadm]
    exact mem_erase_iff.mpr ⟨hqp, hq⟩
  · refine absurd hpos (Nat.not_lt.mpr (Nat.le_zero.mpr (size_eq_zero_iff.mpr fun q hq => ?_)))
    rw [clis_drop, mem_erase_iff] at hq
    exact hq.1 (hall q hq.2)
  · exact h0 z ((honly z).mpr rfl)

theorem not_headless_reap : ¬ Headless (s.reap c) := by
  intro h
  obtain ⟨k, ch, hch, hno⟩ := headless_iff.mp h
  rw [getElem?_chs_reap] at hch
  obtain ⟨ch₀, -, rfl⟩ := Option.map_eq_some_iff.mp hch
  exact drop_headed ch₀ _ hno

theorem dropEach_headed : ∀ {cs : List Cli} (ch : Ch), cs ≠ [] →
    ¬ ((ch.dropEach cs).adms.size = 0 ∧ 0 < (ch.dropEach cs).clis.size)
  | [], _, h => absurd rfl h
  | [c], ch, _ => drop_headed ch c.addr
  | c :: d :: cs, ch, _ => dropEach_headed (ch.drop c.addr) (List.cons_ne_nil d cs)

/-- After the first departures no channel is without an operator. -/
theorem leavers_eq_nil_of_headless (h : Headless (s.without fds)) : s.leavers fds = [] ∧ Headless s := by
  obtain ⟨k, ch, hch, hno⟩ := headless_iff.mp h
  rw [getElem?_chs_without] at hch
  obtain ⟨ch₀, hch₀, rfl⟩ := Option.map_eq_some_iff.mp hch
  have hnil : s.leavers fds = [] := by
    by_contra hne
    exact dropEach_headed ch₀ hne hno
  rw [hnil, dropEach_nil] at hno
  exact ⟨hnil, headless_iff.mpr ⟨k, ch₀, hch₀, hno⟩⟩

/-- In the loop of `eraseUnusedClis`: no record is new, and no channel loses its last operator. -/
theorem eraseClisLoop_facts {fds r : List Nat} {t : Server} (hI : Inv s)
    (hloop : eraseClisLoop fds s = .ok (t, r)) : Inv t ∧
      (∀ (fd : Nat) (c : Cli), t.clis[fd]? = some c → s.clis[fd]? = some c) ∧
      (¬ Headless s → ¬ Headless t) := by
  obtain ⟨⟨t', r'⟩, ht', hIt, hsub, hhead⟩ := eraseClisLoop_done
    (P := fun t => (∀ (fd : Nat) (c : Cli), t.clis[fd]? = some c → s.clis[fd]? = some c) ∧
      (¬ Headless s → ¬ Headless t))
    (fun t c _ hP _ _ => ⟨fun fd d hd => hP.1 fd d (by
      rw [getElem?_clis_reap] at hd
      split at hd
      · cases hd
      · exact hd), fun _ => not_headless_reap⟩)
    (fun t t' hclis hchs _ _ hP => by
      unfold Headless
      rw [hclis, hchs]
      exact hP)
    fds s hI ⟨fun _ _ h => h, id⟩
  rw [hloop] at ht'
  cases ht'
  exact ⟨hIt, hsub, hhead⟩

/-! ## The history -/

/-- A client with `passOk` has sent the password. -/
def Authentic (pass : Str) (s : Server) : Prop :=
  s.pass = pass ∧ ∀ c ∈ s.clients, c.passOk = true → c.Presented pass

theorem Authentic.of_other (h : Authentic pass s) (hclis : s'.clis = s.clis) (hpass : s'.pass = s.pass) :
    Authentic pass s' := by
  have hclients : s'.clients = s.clients := by unfold clients; rw [hclis]
  refine ⟨hpass.trans h.1, ?_⟩
  rw [hclients]
  exact h.2

theorem Authentic.put (h : Authentic pass s) (hc : s.cliAt x = some c) (hp : d.passOk = c.passOk)
    (hh : d.hist.cmds = c.hist.cmds) : Authentic pass (s.updCli x fun _ => d) := by
  refine ⟨h.1, fun e he hpe => ?_⟩
  rcases (mem_clients_put hc).mp he with rfl | ⟨he, -⟩
  · unfold Cli.Presented
    rw [hh]
    exact h.2 c (cliAt_mem hc).1 (hp ▸ hpe)
  · exact h.2 e he hpe

/-- The command of a client is noted in its record. -/
theorem mem_clients_note (h : d ∈ (s.note x ar).clients) : ∃ e ∈ s.clients, d.passOk = e.passOk ∧
    (d.hist.cmds = e.hist.cmds ∨ (e.addr = x ∧ d.hist.cmds = e.hist.cmds ++ [ar])) ∧
      (e.addr = x → d.hist.cmds = e.hist.cmds ++ [ar]) := by
  unfold Server.note at h
  rw [clients_updCli, List.mem_map] at h
  obtain ⟨e, he, rfl⟩ := h
  refine ⟨e, he, ?_⟩
  by_cases hx : e.addr = x
  · rw [if_pos hx]
    exact ⟨rfl, .inr ⟨hx, rfl⟩, fun _ => rfl⟩
  · rw [if_neg hx]
    exact ⟨rfl, .inl rfl, fun h => absurd h hx⟩

/-- One transition, unless it is a wrong password. -/
theorem Move.authentic (h : Move s phase i s' phase') (hg : Good ⟨s, phase⟩) (hs : Authentic pass s)
    (hno : ¬ WrongPass ⟨s, phase⟩) : Authentic pass s' := by
  obtain ⟨hI, -, hauthor, -⟩ := hg
  cases h with
  | clis s' hclean =>
    obtain ⟨s'', hs'', -, hauth⟩ := eraseUnusedClis_done (P := Authentic pass)
      (fun s c hI hs hc _ => ⟨hs.1, fun d hd => hs.2 d ((mem_clients_reap hI hc).mp hd).1⟩)
      (fun s s' hclis _ hpass _ hs => hs.of_other hclis hpass) hI hs
    rw [hclean] at hs''
    cases hs''
    exact hauth
  | chs s' freed hclean =>
    rw [eraseUnusedChs_ok hI] at hclean
    cases hclean
    exact hs.of_other rfl rfl
  | accept r todo conn _ hconn =>
    refine ⟨hs.1, fun d hd hp => ?_⟩
    rcases (mem_clients_addNewClient hconn).mp hd with rfl | hd
    · cases hp
    · exact hs.2 d hd hp
  | recv fd r todo c chunk s' lines _ hc _ hrecv =>
    have hat := cliAt_of_clis hI hc
    rw [receiveBuf_ok hI hat] at hrecv
    cases hrecv
    exact hs.put hat rfl rfl
  | send fd r todo c n d s' _ _ hc _ _ hsend =>
    have hat := cliAt_of_clis hI hc
    obtain ⟨polls, hs'⟩ := sendPreparedResps_ok hI hat n
    rw [hs'] at hsend
    cases hsend
    have hput : Authentic pass (s.updCli c.addr fun _ => c.sent n) := hs.put hat rfl rfl
    exact hput.of_other rfl rfl
  | cmd x line lines todo s' hexec =>
    obtain ⟨⟨a, ha⟩, -⟩ := hauthor x (line :: lines) todo rfl
    obtain ⟨-, t, hmid, rfl⟩ := (execLine_spec hI ha line).of_ok hexec
    refine ⟨hmid.steps.sameServer.pass.trans hs.1, fun d hd hp => ?_⟩
    obtain ⟨e, he, hpe, hcmds, hx⟩ := mem_clients_note hd
    obtain ⟨c, hc, hl⟩ := hmid.steps.earlier_of (cliAt_of_mem hmid.inv he)
    rcases hl.passOk with hsame | ⟨hex, hcmd, h0, w, hw, -⟩
    · -- it had `passOk` before
      obtain ⟨ar, har, hright⟩ := hs.2 c (cliAt_mem hc).1 (by rw [← hsame, ← hpe, hp])
      rw [← hl.cmds] at har
      refine ⟨ar, ?_, hright⟩
      rcases hcmds with h | ⟨-, h⟩ <;> rw [h]
      · exact har
      · exact List.mem_append_left _ har
    · -- this command is the password
      refine ⟨splitCmdToArgs line, by rw [hx hex]; simp, hcmd, ?_⟩
      rw [hex] at hc
      by_contra hwrong
      refine hno ⟨hcmd, by simp [hc, h0], ?_⟩
      rw [hw, Option.any_some, decide_eq_true_iff]
      rintro rfl
      exact hwrong (by rw [hw, hs.1])
  | mark => exact hs.of_other rfl rfl
  | recvClosed fd r todo c d _ _ _ => exact hs.of_other rfl rfl
  | _ => exact hs

/-! ## The runs -/

/-- What a transition does for a client that has not sent the password: its command leaves the
channels alone and sends others no line that is a `PRIVMSG` or `NOTICE`, and so does its removal and what is
done at its descriptor. -/
structure Harmless (pass : Str) (cfg : Config) (i : Input) : Prop where
  command : ∀ x line lines todo c s', cfg.phase = .cmds x (line :: lines) todo →
    cfg.srv.cliAt x = some c → ¬ c.Presented pass → cfg.srv.execLine x line = .ok s' →
    s'.chs = cfg.srv.chs ∧ ∀ y ≠ x, ∀ d d', cfg.srv.cliAt y = some d → s'.cliAt y = some d' →
      ∃ ms, d'.bufToSend = d.bufToSend ++ frames ms ∧ ∀ l ∈ clientLines (frames ms), ¬ IsMessage l
  removal : ∀ fds fd rest t r c u b, cfg.phase = .clis →
    cfg.srv.fdsToErase.toList = fds ++ fd :: rest → eraseClisLoop fds cfg.srv = .ok (t, r) →
    t.clis[fd]? = some c → ¬ c.Presented pass → t.eraseUnusedCli fd = .ok (u, b) →
    u.chs = t.chs ∧ ∀ y d', u.cliAt y = some d' → t.cliAt y = some d'
  event : ∀ todo cfg', cfg.phase = .events todo → step cfg i = .ok cfg' →
    cfg'.srv.chs = cfg.srv.chs ∧ ∀ y d d', cfg.srv.cliAt y = some d → cfg'.srv.cliAt y = some d' →
      d'.hist.prepared = d.hist.prepared

theorem passOk_false (hs : Authentic pass s) (hc : c ∈ s.clients) (hno : ¬ c.Presented pass) :
    c.passOk = false := by
  cases hp : c.passOk with
  | false => rfl
  | true => exact absurd (hs.2 c hc hp) hno

theorem harmless_command (hg : Good cfg) (hs : Authentic pass cfg.srv) (hno : ¬ QuitSmuggles cfg)
    {line : Str} {lines : List Str} {todo : List (Nat × Revents)} (hphase : cfg.phase = .cmds x (line :: lines) todo)
    (hc : cfg.srv.cliAt x = some c) (hpre : ¬ c.Presented pass) (hok : cfg.srv.execLine x line = .ok s') :
    s'.chs = cfg.srv.chs ∧ ∀ y ≠ x, ∀ d d', cfg.srv.cliAt y = some d → s'.cliAt y = some d' →
      ∃ ms, d'.bufToSend = d.bufToSend ++ frames ms ∧ ∀ l ∈ clientLines (frames ms), ¬ IsMessage l := by
  have hI := hg.inv
  have hp := passOk_false hs (cliAt_mem hc).1 hpre
  have hreg : c.registered = false := by
    cases hr : c.registered with
    | false => rfl
    | true => rw [(Cli.registered_iff.mp hr).1] at hp; cases hp
  have hsafe := (execLine_ok_iff hI hc).mp ⟨s', hok⟩
  refine ⟨?_, fun y hy d d' hd hd' => ?_⟩
  · obtain ⟨-, t, hmid, rfl⟩ := (execLine_spec hI hc line).of_ok hok
    rw [chs_note, hmid.steps.chs_of_not_reg (not_isReg hc hp)]
  · obtain ⟨e, he, hbuf, -⟩ := execLine_inbox hI hc hok hd
    rw [hd'] at he
    cases he
    refine ⟨_, hbuf, (forall_clientLines_frames (by decide) _).mpr fun m hm => ?_⟩
    rw [mem_inbox, relay_iff hI hc hsafe hy] at hm
    obtain ⟨hcmd, e, he, rfl⟩ := hm.quit_of_not_registered hreg
    rw [hd] at he
    cases he
    obtain ⟨hdm, hdy⟩ := cliAt_mem hd
    obtain ⟨hlen, hchars⟩ := hI.nick_chars d hdm
    refine not_message_quitLine hlen hchars fun hsm => hno ?_
    unfold QuitSmuggles
    rw [hphase]
    exact ⟨hcmd, by simp [hc, hp], d, hdm, fun h => hy (hdy.symm.trans h), hsm⟩

theorem harmless_removal (hg : Good cfg) (hs : Authentic pass cfg.srv) (hno : ¬ Beheads cfg)
    {rest r : List Nat} {t u : Server} {b : Bool} (hphase : cfg.phase = .clis)
    (hfds : cfg.srv.fdsToErase.toList = fds ++ fd :: rest)
    (hloop : eraseClisLoop fds cfg.srv = .ok (t, r)) (hc : t.clis[fd]? = some c)
    (hpre : ¬ c.Presented pass) (hok : t.eraseUnusedCli fd = .ok (u, b)) :
    u.chs = t.chs ∧ ∀ y d', u.cliAt y = some d' → t.cliAt y = some d' := by
  obtain ⟨hIt, hsub, -⟩ := eraseClisLoop_facts hg.inv hloop
  have hc₀ := hsub fd c hc
  have hp := passOk_false hs (mem_clients.mpr ⟨fd, hc₀⟩) hpre
  have hcm : c ∈ t.clients := mem_clients.mpr ⟨fd, hc⟩
  rcases eraseUnusedCli_cases hIt fd with ⟨d, hd, hb, heq⟩ | ⟨d, -, -, heq⟩ | ⟨hd, -⟩
  · rw [hc] at hd
    cases hd
    rw [heq] at hok
    cases hok
    have hnodup : (fds ++ fd :: rest).Nodup := hfds ▸ nodup_toList
    rw [eraseClisLoop_eq fds cfg.srv hg.inv (List.nodup_append.mp hnodup).1] at hloop
    cases hloop
    -- it is the first that is removed, or those before it have left every channel an operator
    have hhead : ¬ Headless (cfg.srv.without fds) := fun h => hno (by
      obtain ⟨hnil, hh⟩ := leavers_eq_nil_of_headless h
      have hfirst : (cfg.srv.leavers cfg.srv.fdsToErase.toList).head? = some c := by
        unfold leavers at hnil ⊢
        rw [hfds, List.filterMap_append, hnil, List.nil_append, List.filterMap_cons_some (b := c) (by simp [hc₀, hb])]
        rfl
      unfold Beheads
      rw [hphase]
      exact ⟨by rw [hfirst]; simp [hp], hh⟩)
    refine ⟨chs_reap hIt hcm hp hhead, fun y d' hd' => ?_⟩
    obtain ⟨hm, rfl⟩ := cliAt_mem (s := (cfg.srv.without fds).reap c) hd'
    rw [← hIt.fd_eq fd c hc] at hc
    exact cliAt_of_mem hIt ((mem_clients_reap hIt hc).mp hm).1
  · rw [heq] at hok
    cases hok
    exact ⟨rfl, fun _ _ h => h⟩
  · rw [hc] at hd
    cases hd

theorem harmless_event (hg : Good cfg) {todo : List (Nat × Revents)} (hphase : cfg.phase = .events todo)
    (hstep : step cfg i = .ok cfg') : cfg'.srv.chs = cfg.srv.chs ∧ ∀ y d d',
      cfg.srv.cliAt y = some d → cfg'.srv.cliAt y = some d' → d'.hist.prepared = d.hist.prepared := by
  have hI := hg.inv
  have hmove := move_of_step hstep
  -- writing a record that keeps the lines prepared
  have hput : ∀ {x : Ptr} {c e : Cli}, cfg.srv.cliAt x = some c → e.addr = c.addr →
      e.hist.prepared = c.hist.prepared → ∀ y d d', cfg.srv.cliAt y = some d →
      (cfg.srv.updCli x fun _ => e).cliAt y = some d' → d'.hist.prepared = d.hist.prepared := by
    intro x c e hc haddr hprep y d d' hd hd'
    rw [cliAt_put hc haddr] at hd'
    split at hd'
    · rename_i hy
      cases hd'
      rw [hy, hc] at hd
      cases hd
      exact hprep
    · rw [hd] at hd'
      cases hd'
      rfl
  have hsame : ∀ {s' : Server}, s'.clis = cfg.srv.clis → ∀ y d d', cfg.srv.cliAt y = some d →
      s'.cliAt y = some d' → d'.hist.prepared = d.hist.prepared := by
    intro s' hclis y d d' hd hd'
    have hat : s'.cliAt y = cfg.srv.cliAt y := by unfold cliAt clients; rw [hclis]
    rw [hat, hd] at hd'
    cases hd'
    rfl
  obtain ⟨s', phase'⟩ := cfg'
  rw [hphase] at hmove
  generalize hs : (⟨s', phase'⟩ : Config).srv = u at hmove ⊢
  cases hmove with
  | again => exact ⟨rfl, hsame rfl⟩
  | acceptError r todo _ => exact ⟨rfl, hsame rfl⟩
  | accept r todo conn _ hconn =>
    refine ⟨rfl, fun y d d' hd hd' => ?_⟩
    obtain ⟨hdm, hdy⟩ := cliAt_mem hd
    obtain ⟨hdm', hdy'⟩ := cliAt_mem hd'
    rcases (mem_clients_addNewClient hconn).mp hdm' with rfl | hdm'
    · exact absurd (hdy.trans hdy'.symm) (addr_ne_of_accept hconn hdm)
    · rw [hI.addr_inj d' hdm' d hdm (hdy'.trans hdy.symm)]
  | recvError fd r todo _ => exact ⟨rfl, hsame rfl⟩
  | recvClosed fd r todo c d _ _ _ => exact ⟨rfl, hsame rfl⟩
  | recv fd r todo c chunk s' lines _ hc _ hrecv =>
    have hat := cliAt_of_clis hI hc
    rw [receiveBuf_ok hI hat] at hrecv
    cases hrecv
    exact ⟨rfl, hput hat rfl rfl⟩
  | send fd r todo c n d s' _ _ hc _ _ hsend =>
    have hat := cliAt_of_clis hI hc
    obtain ⟨polls, hs'⟩ := sendPreparedResps_ok hI hat n
    rw [hs'] at hsend
    cases hsend
    exact ⟨rfl, hput (e := c.sent n) hat rfl rfl⟩
  | idle fd r todo _ _ => exact ⟨rfl, hsame rfl⟩

/-- **Authentication**, in the runs whose steps are guarded: a client has `passOk` only if it has sent the
password, and every transition is harmless for the others. -/
theorem auth_run (pass : Str) (lfd : Nat) (is : List Input)
    (hcond : Runs.Along step (fun cfg _ => Guarded cfg) is (start pass lfd)) :
    (∀ cfg, runServer pass lfd is = .ok cfg →
      ∀ c ∈ cfg.srv.clients, c.passOk = true → c.Presented pass) ∧
    Runs.Along step (Harmless pass) is (start pass lfd) := by
  have hstart : Authentic pass (start pass lfd).srv := by
    refine ⟨rfl, fun c hc => ?_⟩
    obtain ⟨fd, hfd⟩ := mem_clients.mp hc
    simp [start] at hfd
  have hinv : ∀ cfg i cfg', Good cfg ∧ Authentic pass cfg.srv → Guarded cfg → step cfg i = .ok cfg' →
      Good cfg' ∧ Authentic pass cfg'.srv := by
    rintro cfg i cfg' ⟨hg, hs⟩ hno hstep
    exact ⟨good_step cfg i cfg' hg hstep, (move_of_step hstep).authentic hg hs hno.1⟩
  refine ⟨fun cfg hrun => ?_, Runs.along_mono hinv (fun cfg i hgs hno => ?_) is _
    ⟨good_start pass lfd, hstart⟩ hcond⟩
  · exact (Runs.along_invariant hinv is _ cfg ⟨good_start pass lfd, hstart⟩ hcond hrun).2.2
  · obtain ⟨hg, hs⟩ := hgs
    exact ⟨fun x line lines todo c s' hphase hc hpre hok => harmless_command hg hs hno.2.1 hphase hc hpre hok,
      fun fds fd rest t r c u b hphase hfds hloop hc hpre hok =>
        harmless_removal hg hs hno.2.2 hphase hfds hloop hc hpre hok,
      fun todo cfg' hphase hstep => harmless_event hg hphase hstep⟩

/-- A client registers, and another leaves with a text of two lines and no password. -/
def passingBy : List Input := connect 0 alice ++ connect 1 bob ++ say 0 1 3 (register "al") ++
  say 1 0 1 (str "QUIT :bye\nPRIVMSGS al :hi\r\n")

theorem auth_run_register : Runs.Along step (Harmless (str "2")) passingBy (start (str "2") 3) ∧
    ∃ cfg c, runServer (str "2") 3 passingBy = .ok cfg ∧ c ∈ cfg.srv.clients ∧ c.passOk = true ∧
      c.Presented (str "2") := by
  obtain ⟨cfg, hrun, hP⟩ := exists_run (str "2") 3 passingBy (fun cfg => cfg.srv.clients.any fun c => c.passOk)
    (by decide +kernel)
  obtain ⟨c, hc, hp⟩ := List.any_eq_true.mp hP
  have hcond : Runs.Along step (fun cfg _ => Guarded cfg) passingBy (start (str "2") 3) :=
    Runs.along_of_check (P := fun cfg _ => decide (Guarded cfg)) (fun _ _ => of_decide_eq_true) _ _ (by decide +kernel)
  obtain ⟨hauth, hharmless⟩ := auth_run _ _ _ hcond
  exact ⟨hharmless, cfg, c, hrun, hc, hp, hauth cfg hrun c hc hp⟩

/-- **A wrong password authenticates.** -/
theorem wrong_pass_accepted : ¬ ∀ (pass : Str) (lfd : Nat) (is : List Input) (cfg : Config),
    runServer pass lfd is = .ok cfg →
      ∀ c ∈ cfg.srv.clients, c.passOk = true → c.Presented pass := by
  intro hall
  obtain ⟨cfg, hrun, hP⟩ := exists_run (str "2") 3
    (connect 0 alice ++ say 0 0 1 (str "PASS guess\r\n"))
    (fun cfg => cfg.srv.clients.any fun c => c.passOk && !decide (c.Presented (str "2")))
    (by decide +kernel)
  obtain ⟨c, hc, hP⟩ := List.any_eq_true.mp hP
  rw [Bool.and_eq_true, Bool.not_eq_true', decide_eq_false_iff_not] at hP
  exact hP.2 (hall _ _ _ cfg hrun c hc hP.1)

end FtIrc
