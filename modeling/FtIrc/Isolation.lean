import FtIrc.Meaning.Line

/-!
# What a command leaves of the other clients

`cliAt_cmdRun` is the frame rule of the commands: before its lines are prepared, a command of `x` has
written no record but that of `x`, and that of the client it has invited.  `isolated` reads from it what
a line leaves of the records, the marks and the descriptors.
-/

namespace FtIrc

open Std Outcome Server

variable {s s' u : Server} {x y : Ptr} {c d : Cli} {ar : List Str} {k name line a1 a2 : Str} {fd lfd : Nat}
  {cfg : Config} {pass : Str}

/-! ## The records -/

/-- The command invites the client at `y`. -/
def Invited (s : Server) (x : Ptr) (c : Cli) (ar : List Str) (y : Ptr) : Prop :=
  CmdIs ar "INVITE" ∧ c.registered = true ∧ 3 ≤ ar.length ∧ Invites s x (argD ar 1) (argD ar 2) ∧
    s.getCli (argD ar 1) = y

theorem cliAt_registeredRun {r : Server × Mail} (h : r.1.cliAt y = s.cliAt y) :
    (registeredRun s x c r).1.cliAt y = s.cliAt y := by
  unfold registeredRun
  split
  · rfl
  · exact h

theorem cliAt_partRun : (partRun s x c ar).1.cliAt y = s.cliAt y := by
  refine cliAt_registeredRun ?_
  split
  · rfl
  · unfold partDone
    split <;> rfl

theorem cliAt_letIn {me : Cli} (hy : y ≠ x) : (letIn u x me name).cliAt y = u.cliAt y := by
  have hkeep : KeepsAddr fun c : Cli => { c with invits := c.invits.erase name } := fun _ => ⟨rfl, rfl⟩
  unfold letIn useInvitation
  split
  · rw [cliAt_updCli hkeep, if_neg hy]
    rfl
  · rfl

theorem cliAt_joinRun (hy : y ≠ x) : ∀ (names passes : List Str) (u : Server),
    (joinRun x c a1 names passes u).1.cliAt y = u.cliAt y
  | [], _, _ => rfl
  | name :: names, passes, u => by
    have hone : (joinOne u x c name (passes.headD [])).1.cliAt y = u.cliAt y := by
      unfold joinOne
      split
      · split
        · rfl
        · rw [cliAt_letIn hy, cliAt_openCh]
      · rfl
    unfold joinRun
    split
    · rfl
    split
    · exact cliAt_joinRun hy names passes u
    split
    · exact cliAt_joinRun hy names passes u
    · exact (cliAt_joinRun hy names passes.tail _).trans hone

theorem addInvit_keepsAddr : KeepsAddr fun d : Cli => { d with invits := d.invits.insert k } :=
  fun _ => ⟨rfl, rfl⟩

/-- `INVITE` writes the record of the client it invites. -/
theorem cliAt_invite (h : CmdIs ar "INVITE") (hno : ¬ Invited s x c ar y) :
    (cmdRun s x c ar).1.cliAt y = s.cliAt y := by
  rw [cmdRun_invite h]
  unfold inviteRun registeredRun
  cases hreg : c.registered with
  | false => rfl
  | true =>
    rw [if_neg (by decide)]
    split
    · rfl
    · rename_i hlen
      show (inviteDone s x (argD ar 1) (argD ar 2)).cliAt y = _
      unfold inviteDone
      split
      · rename_i hinv
        rw [cliAt_updCli addInvit_keepsAddr, if_neg]
        exact fun he => hno ⟨h, hreg, by omega, hinv, he.symm⟩
      · rfl

/-- A command writes the record of its author, and that of the client it invites. -/
theorem cliAt_cmdRun_other (hy : y ≠ x) (hno : ¬ Invited s x c ar y) :
    (cmdRun s x c ar).1.cliAt y = s.cliAt y := by
  have hput : ∀ {f : Cli → Cli}, KeepsAddr f → (s.updCli x f).cliAt y = s.cliAt y := fun hf => by
    rw [cliAt_updCli hf, if_neg hy]
  refine cmdRun_cases (P := fun r => r.1.cliAt y = s.cliAt y) (fun _ => rfl) (fun _ => ?pass)
    (fun _ => hput nickSet_keepsAddr) (fun _ => hput userSet_keepsAddr) (fun _ => rfl) (fun _ => rfl)
    (fun _ => hput capSet_keepsAddr) (fun _ => rfl) (fun _ => ?privmsg) (fun _ => ?notice) (fun _ => ?join)
    (fun _ => cliAt_partRun) (fun _ => ?mode) (fun _ => ?topic) (fun h => ?invite) (fun _ => ?kick)
    (fun _ _ _ => rfl)
  case pass =>
    show ((passMark s c ar).updCli x (passSet ar)).cliAt y = _
    rw [cliAt_updCli passSet_keepsAddr, if_neg hy]
    unfold passMark
    split <;> rfl
  case privmsg =>
    refine cliAt_registeredRun ?_
    repeat' split
    all_goals rfl
  case notice =>
    unfold noticeRun
    split <;> rfl
  case join =>
    refine cliAt_registeredRun ?_
    split
    · rfl
    split
    · exact cliAt_partRun
    split
    · rfl
    · exact cliAt_joinRun hy _ _ s
  case mode =>
    unfold modeRun
    split
    · rfl
    split
    · refine cliAt_registeredRun ?_
      unfold modeDone
      split <;> rfl
    · rfl
  case topic =>
    refine cliAt_registeredRun ?_
    split
    · rfl
    · unfold topicDone
      split
      · split <;> rfl
      · rfl
  case invite =>
    rw [← cmdRun_invite h]
    exact cliAt_invite h hno
  case kick =>
    refine cliAt_registeredRun ?_
    split
    · rfl
    · unfold kickDone
      split <;> rfl

/-- The record of the client that is invited. -/
theorem cliAt_cmdRun_invited (h : Invited s x c ar y) (hd : s.cliAt y = some d) :
    (cmdRun s x c ar).1.cliAt y = some { d with invits := d.invits.insert (argD ar 2) } := by
  obtain ⟨hcmd, hreg, hlen, hinv, rfl⟩ := h
  rw [cmdRun_invite hcmd]
  unfold inviteRun registeredRun
  rw [if_neg (by simp [hreg]), if_neg (by omega)]
  show (inviteDone s x (argD ar 1) (argD ar 2)).cliAt _ = _
  unfold inviteDone
  rw [if_pos hinv, cliAt_updCli addInvit_keepsAddr, if_pos rfl, hd]
  rfl

/-- What a line of another client leaves of a record. -/
structure Spared (s : Server) (x : Ptr) (ar : List Str) (y : Ptr) (d d' : Cli) : Prop where
  fd : d'.fd = d.fd
  host : d'.host = d.host
  passOk : d'.passOk = d.passOk
  capInProgress : d'.capInProgress = d.capInProgress
  nick : d'.nick = d.nick
  uName : d'.uName = d.uName
  rName : d'.rName = d.rName
  bufRecv : d'.bufRecv = d.bufRecv
  bufToSend : ∃ bytes, d'.bufToSend = d.bufToSend ++ bytes
  /-- no invitation is lost, and the one that may be gained is to a channel of `x` -/
  invits : (∀ k ∈ d.invits, k ∈ d'.invits) ∧ ∀ k ∈ d'.invits, k ∉ d.invits →
    CmdIs ar "INVITE" ∧ ar[2]? = some k ∧ s.getCli (argD ar 1) = y ∧ On s x k

/-- The lines that are prepared. -/
theorem spared_receive (ms : List Str) : Spared s x ar y d (d.receive ms) :=
  ⟨rfl, rfl, rfl, rfl, rfl, rfl, rfl, rfl, ⟨_, rfl⟩, fun _ h => h, fun _ h hno => absurd h hno⟩

theorem spared_execLine (hI : Inv s) (hc : s.cliAt x = some c) (h : s.execLine x line = .ok s') (hy : y ≠ x)
    (hd : s.cliAt y = some d) : ∃ d', s'.cliAt y = some d' ∧ Spared s x (splitCmdToArgs line) y d d' := by
  obtain ⟨u, -, rfl, hu, -, -⟩ := execLine_run hI hc h
  rw [cliAt_note, if_neg hy, hu, cliAt_sendAll]
  by_cases hinv : Invited s x c (splitCmdToArgs line) y
  · rw [cliAt_cmdRun_invited hinv hd]
    obtain ⟨hcmd, -, hlen, ⟨-, ch, hch, hmay, -⟩, hto⟩ := hinv
    obtain ⟨a2, ha2⟩ := exists_arg (splitCmdToArgs line) 2 (by omega)
    rw [argD_of_getElem? ha2] at hch ⊢
    refine ⟨_, rfl, rfl, rfl, rfl, rfl, rfl, rfl, rfl, rfl, ⟨_, rfl⟩, fun k hk => ?_, fun k hk hno => ?_⟩
    · show k ∈ d.invits.insert a2
      exact ExtTreeSet.mem_insert.mpr (.inr hk)
    · rcases ExtTreeSet.mem_insert.mp (show k ∈ d.invits.insert a2 from hk) with he | hk
      · rw [Std.compare_eq_iff_eq] at he
        subst he
        exact ⟨hcmd, ha2, hto, ch, hch, hmay.1⟩
      · exact absurd hk hno
  · rw [cliAt_cmdRun_other hy hinv, hd]
    exact ⟨_, rfl, spared_receive _⟩

/-! ## The server -/

/-- The clients stay where they are. -/
theorem clis_execLine (hI : Inv s) (hc : s.cliAt x = some c) (h : s.execLine x line = .ok s') (fd : Nat) :
    (s'.clis[fd]?).map (·.addr) = (s.clis[fd]?).map (·.addr) := by
  obtain ⟨u, -, rfl, -, -, hsteps⟩ := execLine_run hI hc h
  have hfds : fd ∈ u.clis ↔ fd ∈ s.clis := hsteps.sameServer.fds fd
  have hnote : ((u.note x (splitCmdToArgs line)).clis[fd]?).map (·.addr) = (u.clis[fd]?).map (·.addr) := by
    unfold note
    rw [getElem?_clis_updCli, Option.map_map]
    congr 1
    funext d
    show (if d.addr = x then _ else d).addr = d.addr
    split <;> rfl
  rw [hnote]
  rw [ExtTreeMap.mem_iff_isSome_getElem?, ExtTreeMap.mem_iff_isSome_getElem?] at hfds
  cases hd : s.clis[fd]? with
  | none =>
    rw [hd] at hfds
    cases hu : u.clis[fd]? with
    | none => rfl
    | some e => rw [hu] at hfds; exact absurd (hfds.mp rfl) (by decide)
  | some d =>
    have hat : s.cliAt d.addr = some d := cliAt_of_clis hI hd
    obtain ⟨e, he, hlater⟩ := hsteps.later_of hat
    obtain ⟨hm, haddr⟩ := cliAt_mem he
    obtain ⟨fd', hfd'⟩ := mem_clients.mp hm
    have hkey : fd' = fd := by
      rw [← (hsteps.inv hI).1.fd_eq fd' e hfd', hlater.fd, hI.fd_eq fd d hd]
    rw [← hkey, hfd', Option.map_some, Option.map_some, haddr]

/-- **What a line of `x` leaves**: of every other client all but the output and an invitation, the clients
and the descriptors, and of the marks all but that of `x`. -/
theorem isolated (hr : Reachable pass lfd cfg) (hc : cfg.srv.cliAt x = some c)
    (h : cfg.srv.execLine x line = .ok s') :
    (∀ y d, y ≠ x → cfg.srv.cliAt y = some d →
      ∃ d', s'.cliAt y = some d' ∧ Spared cfg.srv x (splitCmdToArgs line) y d d') ∧
    (∀ fd, (fd ∈ cfg.srv.fdsToErase → fd ∈ s'.fdsToErase) ∧
      (fd ∈ s'.fdsToErase → fd ∈ cfg.srv.fdsToErase ∨ fd = c.fd)) ∧
    (∀ fd : Nat, (s'.clis[fd]?).map (·.addr) = (cfg.srv.clis[fd]?).map (·.addr)) ∧
    s'.polls = cfg.srv.polls := by
  have hI := hr.good.inv
  refine ⟨fun y d hy hd => spared_execLine hI hc h hy hd, fun fd => ?_, ?_⟩
  · rw [mem_fdsToErase_execLine hI hc h]
    exact ⟨.inl, fun hm => hm.imp_right And.left⟩
  · obtain ⟨u, -, rfl, -, -, hsteps⟩ := execLine_run hI hc h
    exact ⟨clis_execLine hI hc h, hsteps.sameServer.polls⟩

/-- An `INVITE`, for the client that is invited. -/
theorem isolated_invite : ∃ cfg s' d d', Reachable (str "2") 3 cfg ∧
    cfg.srv.execLine alice.addr (str "INVITE bo #c") = .ok s' ∧
    cfg.srv.cliAt bob.addr = some d ∧ s'.cliAt bob.addr = some d' ∧ str "#c" ∈ d'.invits ∧
    Spared cfg.srv alice.addr (splitCmdToArgs (str "INVITE bo #c")) bob.addr d d' := by
  obtain ⟨cfg, hrun, hP⟩ := exists_run (str "2") 3 (connect 0 alice ++
    say 0 0 4 (register "al" ++ str "JOIN #c\r\n") ++ connect 1 bob ++ say 1 0 3 (register "bo"))
    (fun cfg => (cfg.srv.cliAt alice.addr).isSome && (cfg.srv.cliAt bob.addr).isSome &&
      (cfg.srv.execLine alice.addr (str "INVITE bo #c")).toOption.any fun s' =>
        (s'.cliAt bob.addr).any fun d' => str "#c" ∈ d'.invits) (by decide +kernel)
  simp only [Bool.and_eq_true, Option.isSome_iff_exists, Option.any_eq_true, decide_eq_true_eq] at hP
  obtain ⟨⟨⟨c, hc⟩, d, hd⟩, s', hs', e, he, hinv⟩ := hP
  replace hs' := eq_ok_of_toOption hs'
  obtain ⟨d', hd', hspared⟩ := (isolated ⟨_, hrun⟩ hc hs').1 bob.addr d (by decide) hd
  rw [he] at hd'
  cases hd'
  exact ⟨cfg, s', d, _, ⟨_, hrun⟩, hs', hd, he, hinv, hspared⟩

end FtIrc
