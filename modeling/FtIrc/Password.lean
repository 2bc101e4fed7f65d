import FtIrc.Lib.Trace
import FtIrc.Meaning.Cleanup
import FtIrc.Meaning.Line

/-!
# The password stays secret

`Server.relock` gives a server another password.  No function but `execPass` looks at the password, and that only
compares it with the parameter of a `PASS` (`execLine_relock`).  So two servers that differ in the password go the
same way, record for record and byte for byte, as long as nobody tries a password that tells them apart
(`password_hidden`).
-/

namespace FtIrc

open Std Outcome Server

variable {s s' u : Server} {x : Ptr} {c : Cli} {ar names passes targets : List Str} {a1 a2 name key line q pass : Str}
  {text : Option Str} {mail : Mail} {cfg cfg' : Config} {phase phase' : Phase} {i : Input} {lfd : Nat}
  {is : List Input}

/-- The server with the password `q`. -/
def Server.relock (q : Str) (s : Server) : Server := { s with pass := q }

def Config.relock (q : Str) (cfg : Config) : Config := ⟨cfg.srv.relock q, cfg.phase⟩

/-! ## The commands -/

theorem sendAll_relock : ∀ (mail : Mail) (s : Server), (s.relock q).sendAll mail = (s.sendAll mail).relock q
  | [], _ => rfl
  | e :: mail, s => by
    rw [sendAll_cons, sendAll_cons]
    exact sendAll_relock mail (s.push e.1 e.2)

theorem openCh_relock : openCh (u.relock q) x name = (openCh u x name).relock q := by
  unfold openCh
  show (if u.getCh name = none then _ else _) = _
  split <;> rfl

theorem letIn_relock {me : Cli} : letIn (u.relock q) x me name = (letIn u x me name).relock q := by
  unfold letIn useInvitation
  show (ite _ _ _ : Server) = (ite _ _ _ : Server).relock q
  split <;> rfl

theorem joinOne_relock : joinOne (u.relock q) x c name key =
    ((joinOne u x c name key).1.relock q, (joinOne u x c name key).2) := by
  unfold joinOne
  have hcli : (u.relock q).cliAt x = u.cliAt x := rfl
  have hchs : (openCh (u.relock q) x name).chs = (openCh u x name).chs := by rw [openCh_relock]; rfl
  rw [hcli, hchs]
  cases u.cliAt x with
  | none => rfl
  | some me =>
    cases (openCh u x name).chs[name]? with
    | none => rfl
    | some ch =>
      simp only
      cases refusal me ch name key with
      | some m => rfl
      | none =>
        rw [openCh_relock, letIn_relock]
        rfl

theorem joinRun_relock : ∀ (names passes : List Str) (u : Server), joinRun x c a1 names passes (u.relock q) =
    ((joinRun x c a1 names passes u).1.relock q, (joinRun x c a1 names passes u).2)
  | [], _, _ => rfl
  | name :: names, passes, u => by
    have hrest := fun passes u => joinRun_relock names passes u
    unfold joinRun
    show (if MAX_CHS_PER_USER - 1 < u.nbChannels x then _ else if badName name then _ else if On u x name then _
      else _) = _
    split
    · rfl
    split
    · rw [hrest]
    split
    · rw [hrest]
    · simp only [joinOne_relock, hrest]

/-- The states and lines of a command, before and after the password is changed. -/
def SameRun (q : Str) (r r' : Server × Mail) : Prop := r' = (r.1.relock q, r.2)

theorem SameRun.reply (mail : Mail) : SameRun q (s, mail) (s.relock q, mail) := rfl

theorem SameRun.ite {p : Prop} [Decidable p] {r r' t t' : Server × Mail} (h : SameRun q r r') (h' : SameRun q t t') :
    SameRun q (if p then r else t) (if p then r' else t') := by
  split
  · exact h
  · exact h'

theorem partDone_relock : partDone (s.relock q) x a1 = (partDone s x a1).relock q := by
  unfold partDone
  show (if On s x a1 then _ else _) = _
  split <;> rfl

theorem partRun_relock : SameRun q (partRun s x c ar) (partRun (s.relock q) x c ar) := by
  refine SameRun.ite rfl (SameRun.ite rfl ?_)
  show (partDone (s.relock q) x (argD ar 1), _) = ((partDone s x (argD ar 1)).relock q, _)
  rw [partDone_relock]
  rfl

/-- **What a command comes to does not depend on the password**, unless it tries one. -/
theorem cmdRun_relock (hpass : CmdIs ar "PASS" → PassTaken ar c → (argD ar 1 = s.pass ↔ argD ar 1 = q)) :
    SameRun q (cmdRun s x c ar) (cmdRun (s.relock q) x c ar) := by
  apply cmdRun_cases₂ (P := SameRun q)
  case pass =>
    intro hcmd
    by_cases htaken : PassTaken ar c
    · have hmark : passMark (s.relock q) c ar = (passMark s c ar).relock q := by
        unfold passMark
        show (if PassTaken ar c ∧ argD ar 1 ≠ q then _ else _) = _
        by_cases hwrong : argD ar 1 ≠ s.pass
        · rw [if_pos ⟨htaken, fun h => hwrong ((hpass hcmd htaken).mpr h)⟩, if_pos ⟨htaken, hwrong⟩]
          rfl
        · rw [if_neg fun h => h.2 ((hpass hcmd htaken).mp (not_not.mp hwrong)), if_neg fun h => hwrong h.2]
      show ((passMark (s.relock q) c ar).updCli x (passSet ar), passMail (s.relock q) x c ar) = _
      have hmail : passMail (s.relock q) x c ar = passMail s x c ar := by
        unfold passMail
        rw [htaken.1, if_neg Bool.false_ne_true, if_neg Bool.false_ne_true, if_neg htaken.2, if_neg htaken.2]
        show (if argD ar 1 ≠ q then _ else _) ++ _ = _
        congr 1
        exact if_congr (not_congr (hpass hcmd htaken).symm) rfl rfl
      rw [hmark, hmail]
      rfl
    · have hmark : ∀ t : Server, passMark t c ar = t := fun t => if_neg fun h => htaken h.1
      show ((passMark (s.relock q) c ar).updCli x (passSet ar), passMail (s.relock q) x c ar) = _
      have hmail : passMail (s.relock q) x c ar = passMail s x c ar := by
        unfold passMail
        split
        · rfl
        split
        · rfl
        · rename_i hok hne
          exact absurd ⟨by simpa using hok, hne⟩ htaken
      rw [hmark, hmark, hmail]
      rfl
  case join =>
    intro _
    refine SameRun.ite rfl (SameRun.ite rfl (SameRun.ite partRun_relock (SameRun.ite rfl ?_)))
    exact joinRun_relock _ _ _
  case part => exact fun _ => partRun_relock
  case mode =>
    intro _
    refine SameRun.ite rfl (SameRun.ite (SameRun.ite rfl ?_) rfl)
    have hdone : modeDone (s.relock q) x c ar = (modeDone s x c ar).relock q := by
      unfold modeDone
      show (if Op s x (argD ar 1) then _ else _) = _
      split <;> rfl
    show (modeDone (s.relock q) x c ar, _) = _
    rw [hdone]
    rfl
  case topic =>
    intro _
    refine SameRun.ite rfl (SameRun.ite rfl ?_)
    have hdone : ∀ text, topicDone (s.relock q) x (argD ar 1) text = (topicDone s x (argD ar 1) text).relock q := by
      intro text
      cases text with
      | none => rfl
      | some a2 =>
        show (if (s.chs[argD ar 1]?).any (fun ch => MayTopic x ch) then _ else _) = (ite _ _ _ : Server).relock q
        split <;> rfl
    show (topicDone (s.relock q) x (argD ar 1) ar[2]?, _) = _
    rw [hdone]
    rfl
  case invite =>
    intro _
    refine SameRun.ite rfl (SameRun.ite rfl ?_)
    have hdone : inviteDone (s.relock q) x (argD ar 1) (argD ar 2) =
        (inviteDone s x (argD ar 1) (argD ar 2)).relock q := by
      unfold inviteDone
      show (if Invites s x (argD ar 1) (argD ar 2) then _ else _) = _
      split <;> rfl
    show (inviteDone (s.relock q) x (argD ar 1) (argD ar 2), _) = _
    rw [hdone]
    rfl
  case kick =>
    intro _
    refine SameRun.ite rfl (SameRun.ite rfl ?_)
    have hdone : kickDone (s.relock q) x (argD ar 1) (splitArgToSubargs (argD ar 2)) =
        (kickDone s x (argD ar 1) (splitArgToSubargs (argD ar 2))).relock q := by
      unfold kickDone
      show (if Op s x (argD ar 1) then _ else _) = _
      split <;> rfl
    show (kickDone (s.relock q) x (argD ar 1) _, _) = _
    rw [hdone]
    rfl
  case privmsg => exact fun _ => SameRun.ite rfl (SameRun.ite rfl (SameRun.ite rfl (SameRun.ite rfl rfl)))
  case notice => exact fun _ => SameRun.ite rfl rfl
  all_goals
    intros
    rfl

theorem inv_relock (hI : Inv s) : Inv (s.relock q) :=
  ⟨hI.addr_ne, hI.addr_inj, hI.fd_eq, hI.nick_inj, hI.nick_chars, hI.ch_inj, hI.ch_name, hI.member, hI.adm⟩

theorem joinSafe_relock : ∀ (names passes joined : List Str),
    (JoinSafe (s.relock q) x c joined names passes ↔ JoinSafe s x c joined names passes)
  | [], _, _ => Iff.rfl
  | name :: names, passes, joined => by
    have hrest : ∀ passes joined, (JoinSafe (s.relock q) x c joined names passes ↔ JoinSafe s x c joined names passes) :=
      fun passes joined => joinSafe_relock names passes joined
    unfold JoinSafe
    simp only [hrest]
    exact Iff.rfl

/-- What goes well does so with another password. -/
theorem cmdSafe_relock (hs : CmdSafe s x ar) : CmdSafe (s.relock q) x ar := by
  refine ⟨hs.privmsg, fun hcmd d hd hreg a ha => ?_, hs.part, hs.kick, hs.invite, hs.topic, hs.mode⟩
  have hok := hs.join hcmd d hd hreg a ha
  split
  · rename_i hz
    rw [if_pos hz] at hok
    exact hok
  · rename_i hz
    rw [if_neg hz] at hok
    exact fun hfew => (joinSafe_relock _ _ _).mpr (hok hfew)

/-- The author tries a password, and it is one of the two. -/
def Tries (q : Str) (s : Server) (x : Ptr) (ar : List Str) : Prop :=
  ∃ c, s.cliAt x = some c ∧ CmdIs ar "PASS" ∧ PassTaken ar c ∧ ¬ (argD ar 1 = s.pass ↔ argD ar 1 = q)

theorem execLine_relock (hI : Inv s) (hc : s.cliAt x = some c) (hno : ¬ Tries q s x (splitCmdToArgs line))
    (h : s.execLine x line = .ok s') : (s.relock q).execLine x line = .ok (s'.relock q) := by
  obtain ⟨u, -, rfl, rfl, hsafe, -⟩ := execLine_run hI hc h
  have hc' : (s.relock q).cliAt x = some c := hc
  obtain ⟨t, ht⟩ := (execLine_ok_iff (inv_relock hI) hc').mpr (cmdSafe_relock hsafe)
  obtain ⟨v, -, rfl, rfl, -, -⟩ := execLine_run (inv_relock hI) hc' ht
  have hrun : SameRun q (cmdRun s x c (splitCmdToArgs line)) (cmdRun (s.relock q) x c (splitCmdToArgs line)) :=
    cmdRun_relock fun hcmd htaken => not_not.mp fun hne => hno ⟨c, hc, hcmd, htaken, hne⟩
  rw [ht, hrun, sendAll_relock]
  rfl

/-! ## The machine -/

/-- The next command tries a password that tells the two apart. -/
def Tells (q : Str) (cfg : Config) : Prop :=
  ∃ x line, cfg.upcoming = some (x, line) ∧ Tries q cfg.srv x (splitCmdToArgs line)

theorem relock_relock (cfg : Config) : (cfg.relock q).relock cfg.srv.pass = cfg := rfl

theorem tells_relock (h : Tells cfg.srv.pass (cfg.relock q)) : Tells q cfg := by
  obtain ⟨x, line, hup, c, hc, hcmd, htaken, hne⟩ := h
  exact ⟨x, line, hup, c, hc, hcmd, htaken, fun h => hne h.symm⟩

theorem good_relock (hg : Good cfg) : Good (cfg.relock q) :=
  ⟨inv_relock hg.inv, ⟨hg.tidy.cli, hg.tidy.key, hg.tidy.topic⟩, hg.author, hg.peopled⟩

theorem receiveBuf_relock {chunk : Str} :
    (s.relock q).receiveBuf x chunk = (s.receiveBuf x chunk).map fun r => (r.1.relock q, r.2) := by
  unfold receiveBuf
  show (s.deref x >>= _) = ((s.deref x >>= _) : Except Fault (Server × List Str)).map _
  cases s.deref x <;> rfl

theorem sendPreparedResps_relock {n : Int} :
    (s.relock q).sendPreparedResps x n = (s.sendPreparedResps x n).map (·.relock q) := by
  unfold sendPreparedResps
  show (s.deref x >>= _) = ((s.deref x >>= _) : Except Fault Server).map _
  cases s.deref x with
  | error _ => rfl
  | ok c =>
    show (if n = c.bufToSend.length then _ else _) = (ite _ _ _ : Except Fault Server).map _
    split <;> rfl

/-- The events of a descriptor do not depend on the password. -/
theorem event_relock {fd : Nat} {r : Revents} {todo : List (Nat × Revents)}
    (h : step ⟨s, .events ((fd, r) :: todo)⟩ i = .ok cfg') :
    step ⟨s.relock q, .events ((fd, r) :: todo)⟩ i = .ok (cfg'.relock q) := by
  unfold step at h ⊢
  simp only at h ⊢
  have hlfd : (s.relock q).fdForNewClis = s.fdForNewClis := rfl
  have hcli : (s.relock q).cliOfFd fd = s.cliOfFd fd := rfl
  rw [hlfd, hcli]
  split
  · rename_i hl
    rw [if_pos hl] at h
    split at h
    · cases h
      rfl
    · split at h
      · rename_i hconn
        cases h
        exact if_pos hconn
      · cases h
    · cases h
  rename_i hl
  rw [if_neg hl] at h
  split
  · rename_i hin
    rw [if_pos hin] at h
    obtain ⟨y, hy, h⟩ := liftFault_bind_ok h
    rw [hy]
    split at h
    · cases h
      rfl
    · obtain ⟨d, hd, h⟩ := liftFault_bind_ok h
      cases h
      show (liftFault (s.deref y) >>= _) = _
      rw [hd]
      rfl
    · split at h
      · rename_i hchunk
        obtain ⟨⟨t, lines⟩, ht, h⟩ := liftFault_bind_ok h
        cases h
        show (if _ then (liftFault ((s.relock q).receiveBuf y _) >>= _) else _) = _
        rw [if_pos hchunk, receiveBuf_relock, ht]
        rfl
      · cases h
    · cases h
  rename_i hin
  rw [if_neg hin] at h
  split
  · rename_i hout
    rw [if_pos hout] at h
    obtain ⟨y, hy, h⟩ := liftFault_bind_ok h
    obtain ⟨d, hd, h⟩ := liftFault_bind_ok h
    rw [hy]
    show (liftFault (s.deref y) >>= _) = _
    rw [hd]
    split at h
    · split at h
      · rename_i hn
        obtain ⟨t, ht, h⟩ := liftFault_bind_ok h
        cases h
        show (if _ then (liftFault ((s.relock q).sendPreparedResps y _) >>= _) else _) = _
        rw [if_pos hn, sendPreparedResps_relock, ht]
        rfl
      · cases h
    · cases h
  · rename_i hout
    rw [if_neg hout] at h
    split at h
    · cases h
      rfl
    · cases h

/-- One transition, with another password. -/
theorem step_relock (hg : Good cfg) (hno : ¬ Tells q cfg) (h : step cfg i = .ok cfg') :
    step (cfg.relock q) i = .ok (cfg'.relock q) := by
  have hI := hg.inv
  obtain ⟨s, phase⟩ := cfg
  obtain ⟨s', phase'⟩ := cfg'
  have hmove : Move s phase i s' phase' := move_of_step h
  cases phase with
  | clis =>
    cases hmove with
    | clis s' hs =>
      rw [eraseUnusedClis_eq hI] at hs
      cases hs
      show (liftFault (s.relock q).eraseUnusedClis >>= _) = _
      rw [eraseUnusedClis_eq (inv_relock hI)]
      rfl
  | chs =>
    cases hmove with
    | chs s' freed hs =>
      rw [eraseUnusedChs_ok hI] at hs
      cases hs
      show (liftFault (s.relock q).eraseUnusedChs >>= _) = _
      rw [eraseUnusedChs_ok (inv_relock hI)]
      rfl
  | mark =>
    cases hmove with
    | mark => rfl
  | poll =>
    cases hmove with
    | poll rs hlen hcontract =>
      show (if _ ∧ _ then _ else _) = _
      exact if_pos ⟨hlen, hcontract⟩
  | cmds x lines todo =>
    cases hmove with
    | done => rfl
    | cmd x line lines todo s' hs =>
      obtain ⟨⟨c, hc⟩, -⟩ := hg.author x (line :: lines) todo rfl
      show (liftFault ((s.relock q).execLine x line) >>= _) = _
      rw [execLine_relock hI hc (fun ht => hno ⟨x, line, rfl, ht⟩) hs]
      rfl
  | events todo =>
    cases todo with
    | nil =>
      cases hmove with
      | again => rfl
    | cons e todo => exact event_relock h

/-- One server stops where the other stops. -/
theorem step_relock_iff (hg : Good cfg) (hno : ¬ Tells q cfg) :
    (step (cfg.relock q) i).toOption = (step cfg i).toOption.map (Config.relock q) := by
  cases hstep : step cfg i with
  | ok t =>
    rw [step_relock hg hno hstep]
    rfl
  | error e =>
    -- what the other server could do, this one could do with the other's password
    cases hstep' : step (cfg.relock q) i with
    | error e' => rfl
    | ok t =>
      have hback := step_relock (good_relock hg) (fun h => hno (tells_relock h)) hstep'
      rw [relock_relock, hstep] at hback
      cases hback

/-- **The password stays secret**: a run in which no `PASS` tries a password that tells `pass` and `q` apart goes the
same way on a server with the password `q`: every record, every channel and every byte for every client is the same,
and it stops where the other stops. -/
theorem password_hidden (pass q : Str) (lfd : Nat) (is : List Input)
    (hno : Runs.Along step (fun cfg _ => ¬ Tells q cfg) is (start pass lfd)) :
    (runServer q lfd is).toOption =
      (runServer pass lfd is).toOption.map fun cfg => { cfg with srv := { cfg.srv with pass := q } } :=
  Runs.run_map (f := Config.relock q) good_step (fun _ _ hg hno => step_relock_iff hg hno) is (start pass lfd)
    (good_start pass lfd) hno

instance : Decidable (Tries q s x ar) :=
  decidable_of_iff (((s.cliAt x).any fun c => ar.head? = some (str "PASS") ∧ PassTaken ar c ∧
    ¬ (argD ar 1 = s.pass ↔ argD ar 1 = q)) = true) (by simp [Tries, CmdIs, Option.any_eq_true])

instance : Decidable (Tells q cfg) :=
  decidable_of_iff ((cfg.upcoming.any fun e => Tries q cfg.srv e.1 (splitCmdToArgs e.2)) = true)
    (by simp [Tells, Option.any_eq_true])

/-- A client tries a third password. -/
theorem password_hidden_wrong : (runServer (str "3") 3
      (connect 0 alice ++ say 0 0 2 (str "PASS 4\r\nNICK al\r\n"))).toOption =
    (runServer (str "2") 3 (connect 0 alice ++ say 0 0 2 (str "PASS 4\r\nNICK al\r\n"))).toOption.map
      fun cfg => { cfg with srv := { cfg.srv with pass := str "3" } } := by
  apply password_hidden (str "2") (str "3") 3
  exact Runs.along_of_check (P := fun cfg _ => ¬ Tells (str "3") cfg) (fun _ _ h => of_decide_eq_true h) _ _
    (by decide +kernel)

end FtIrc
