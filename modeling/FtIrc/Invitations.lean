import FtIrc.Admission
import FtIrc.Isolation

/-!
# Invitations

An invitation is kept by name in the record of the invited client, and a channel of that name can be
removed and created again.  `Standing` says that an invitation was issued by a member of the channel as it
exists now, and has not been used since.  `invitations_run`: in the runs in which no `JOIN` creates a
channel to which somebody else still holds an invitation, nobody enters an invite-only channel without one.
-/

namespace FtIrc

open Std Outcome Server

variable {s s' u : Server} {x y p : Ptr} {ar : List Str} {c d : Cli} {k line : Str} {ch : Ch} {pass : Str}
  {lfd : Nat} {cfg cfg' t t' : Config} {i : Input} {is js bs : List Input} {phase phase' : Phase}

/-- The client at `p` holds an invitation to `k`. -/
def Holds (s : Server) (p : Ptr) (k : Str) : Prop := ∃ d ∈ s.clients, d.addr = p ∧ k ∈ d.invits

/-- The step is a `JOIN` that admits its author `p` to the channel `k`. -/
def Enters (cfg cfg' : Config) (p : Ptr) (k : Str) : Prop :=
  ∃ line, cfg.upcoming = some (p, line) ∧ CmdIs (splitCmdToArgs line) "JOIN" ∧ ¬ On cfg.srv p k ∧ On cfg'.srv p k

/-- The step is an `INVITE` of `p` to `k`, by a member. -/
def Issues (cfg cfg' : Config) (p : Ptr) (k : Str) : Prop :=
  ∃ z line, cfg.upcoming = some (z, line) ∧ CmdIs (splitCmdToArgs line) "INVITE" ∧
    argD (splitCmdToArgs line) 2 = k ∧ cfg.srv.getCli (argD (splitCmdToArgs line) 1) = p ∧ On cfg.srv z k ∧
    Holds cfg'.srv p k

/-- An invitation of `p` to `k` is not affected: the client and the channel are there, and the client is not
admitted to it. -/
def Stands (p : Ptr) (k : Str) (cfg : Config) (i : Input) : Prop :=
  k ∈ cfg.srv.chs ∧ (∃ d, cfg.srv.cliAt p = some d) ∧ ∀ cfg', step cfg i = .ok cfg' → ¬ Enters cfg cfg' p k

/-- A member of the channel `k` has invited `p`, and the invitation has stood since. -/
def Standing (pass : Str) (lfd : Nat) (js : List Input) (p : Ptr) (k : Str) : Prop :=
  ∃ is i bs t t', js = is ++ i :: bs ∧ runServer pass lfd is = .ok t ∧ step t i = .ok t' ∧ Issues t t' p k ∧
    Runs.Along step (Stands p k) bs t'

/-- Whoever is admitted to an invite-only channel has a standing invitation. -/
def InvitationLaw (pass : Str) (lfd : Nat) (is : List Input) : Prop :=
  ∀ js i ks cfg cfg', is = js ++ i :: ks → runServer pass lfd js = .ok cfg → step cfg i = .ok cfg' →
    ∀ p k ch, cfg.srv.chs[k]? = some ch → ch.optI = true → Enters cfg cfg' p k → Standing pass lfd js p k

/-- A `JOIN` creates no channel to which somebody else holds an invitation. -/
def Unclaimed (cfg : Config) (_ : Input) : Prop :=
  ∀ x line c, cfg.upcoming = some (x, line) → cfg.srv.cliAt x = some c →
    CmdIs (splitCmdToArgs line) "JOIN" → CmdSafe cfg.srv x (splitCmdToArgs line) →
    ∀ k ∈ joinNames cfg.srv x c (splitCmdToArgs line), k ∉ cfg.srv.chs → ∀ p, p ≠ x → ¬ Holds cfg.srv p k

theorem holds_iff (hI : Inv s) : Holds s p k ↔ ∃ d, s.cliAt p = some d ∧ k ∈ d.invits := by
  constructor
  · rintro ⟨d, hd, rfl, hk⟩
    exact ⟨d, cliAt_of_mem hI hd, hk⟩
  · rintro ⟨d, hd, hk⟩
    exact ⟨d, (cliAt_mem hd).1, (cliAt_mem hd).2, hk⟩

/-- A write of a record that keeps its invitations. -/
theorem holds_updCli {f : Cli → Cli}
    (hf : ∀ c ∈ s.clients, c.addr = x → (f c).addr = c.addr ∧ (f c).invits = c.invits) :
    Holds (s.updCli x f) p k → Holds s p k := by
  rintro ⟨d, hd, hp, hk⟩
  rw [clients_updCli, List.mem_map] at hd
  obtain ⟨e, he, rfl⟩ := hd
  refine ⟨e, he, ?_⟩
  split at hp <;> rename_i hx
  · obtain ⟨haddr, hinv⟩ := hf e he hx
    rw [if_pos hx, hinv] at hk
    exact ⟨haddr ▸ hp, hk⟩
  · rw [if_neg hx] at hk
    exact ⟨hp, hk⟩

theorem holds_note : Holds (s.note x ar) p k → Holds s p k :=
  holds_updCli (f := fun c => { c with hist := { c.hist with cmds := c.hist.cmds ++ [ar] } })
    fun _ _ _ => ⟨rfl, rfl⟩

/-! ## The transitions -/

/-- Only a `JOIN` with a list creates channels. -/
theorem Steps.created {s₀ : Server} (h : Steps s₀ x ar s) (hk : k ∈ s.chs) :
    k ∈ s₀.chs ∨ (CmdIs ar "JOIN" ∧ ¬ PartCmd ar) := by
  induction h with
  | refl => exact .inl hk
  | tail _ heff ih =>
    cases heff with
    | cli y c c' _ _ => exact ih hk
    | mark c _ _ => exact ih hk
    | ch k' ch ch' _ _ _ => exact ih ((mem_chs_updCh _).mp hk)
    | newCh k' _ hcmd hpart _ _ _ => exact .inr ⟨hcmd, hpart⟩

/-- An invitation that is held after a command. -/
theorem invits_cmdRun (hno : ¬ (CmdIs ar "INVITE" ∧ argD ar 2 = k ∧ s.getCli (argD ar 1) = p ∧ On s x k))
    (hcmd : CmdIs ar "INVITE") (hd : s.cliAt p = some d) {e : Cli} (he : (cmdRun s x c ar).1.cliAt p = some e)
    (hk : k ∈ e.invits) : k ∈ d.invits := by
  by_cases hinv : Invited s x c ar p
  · rw [cliAt_cmdRun_invited hinv hd] at he
    cases he
    obtain ⟨-, -, -, ⟨-, ch, hch, hmay, -⟩, hto⟩ := hinv
    rcases ExtTreeSet.mem_insert.mp (show k ∈ d.invits.insert (argD ar 2) from hk) with heq | hk
    · rw [Std.compare_eq_iff_eq] at heq
      subst heq
      exact absurd ⟨hcmd, rfl, hto, ch, hch, hmay.1⟩ hno
    · exact hk
  · rw [cliAt_invite hcmd hinv, hd] at he
    cases he
    exact hk

/-- **The invitations after a line**: they were held before, to a channel that was there, and have not been
used; or they have just been issued by a member. -/
theorem holds_execLine (hI : Inv s) (hc : s.cliAt x = some c) (h : s.execLine x line = .ok s')
    (hfree : CmdIs (splitCmdToArgs line) "JOIN" → ∀ k ∈ joinNames s x c (splitCmdToArgs line), k ∉ s.chs →
      ∀ p, p ≠ x → ¬ Holds s p k) (hp : Holds s' p k) (hk : k ∈ s'.chs) :
    (Holds s p k ∧ k ∈ s.chs ∧ ¬ (p = x ∧ CmdIs (splitCmdToArgs line) "JOIN" ∧ ¬ On s p k ∧ On s' p k)) ∨
    (CmdIs (splitCmdToArgs line) "INVITE" ∧ argD (splitCmdToArgs line) 2 = k ∧
      s.getCli (argD (splitCmdToArgs line) 1) = p ∧ On s x k) := by
  rw [or_iff_not_imp_right]
  intro hno
  obtain ⟨u, -, rfl, hu, -, hsteps⟩ := execLine_run hI hc h
  have hIu : Inv u := (hsteps.inv hI).1
  obtain ⟨e, he, hke⟩ := (holds_iff hIu).mp (holds_note hp)
  obtain ⟨d, hd, hlater⟩ := hsteps.earlier_of he
  -- it was held before
  have hkd : k ∈ d.invits := by
    rcases hlater.invits k hke with hkd | ⟨hcmd, -⟩
    · exact hkd
    · rw [hu, cliAt_sendAll, Option.map_eq_some_iff] at he
      obtain ⟨e', he', rfl⟩ := he
      exact invits_cmdRun hno hcmd hd he' hke
  -- and the channel is none that the author has just joined
  have hjoined : CmdIs (splitCmdToArgs line) "JOIN" → ¬ PartCmd (splitCmdToArgs line) →
      k ∈ joinNames s x c (splitCmdToArgs line) → p ≠ x := by
    rintro hcmd hpart hin rfl
    obtain ⟨e', he', hinv⟩ := (afterJoin_execLine hI hc h hcmd hpart).invits
    rw [cliAt_note, if_pos rfl, he] at he'
    cases he'
    exact ((hinv k).mp hke).2 hin
  have hother : CmdIs (splitCmdToArgs line) "JOIN" → ¬ PartCmd (splitCmdToArgs line) →
      k ∉ joinNames s x c (splitCmdToArgs line) → u.chs[k]? = s.chs[k]? := by
    intro hcmd hpart hout
    have hchs := (afterJoin_execLine hI hc h hcmd hpart).chs k
    rw [if_neg hout] at hchs
    exact hchs
  refine ⟨⟨d, (cliAt_mem hd).1, (cliAt_mem hd).2, hkd⟩, ?_, ?_⟩
  · rcases hsteps.created hk with hk | ⟨hcmd, hpart⟩
    · exact hk
    · by_contra hnew
      by_cases hin : k ∈ joinNames s x c (splitCmdToArgs line)
      · exact hfree hcmd k hin hnew p (hjoined hcmd hpart hin) ⟨d, (cliAt_mem hd).1, (cliAt_mem hd).2, hkd⟩
      · obtain ⟨ch, hch⟩ := mem_chs.mp hk
        rw [chs_note, hother hcmd hpart hin] at hch
        exact hnew (mem_chs.mpr ⟨ch, hch⟩)
  · rintro ⟨rfl, hcmd, hoff, ch, hch, hin⟩
    rw [chs_note] at hch
    rcases hsteps.on.1 ⟨ch, hch, hin⟩ with hon | ⟨-, -, hpart⟩
    · exact hoff hon
    · by_cases hj : k ∈ joinNames s p c (splitCmdToArgs line)
      · exact hjoined hcmd hpart hj rfl
      · rw [hother hcmd hpart hj] at hch
        exact hoff ⟨ch, hch, hin⟩

/-- **The invitations after a transition.** -/
theorem Move.holds (h : Move s phase i s' phase') (hg : Good ⟨s, phase⟩) (hfree : Unclaimed ⟨s, phase⟩ i)
    (hp : Holds s' p k) (hk : k ∈ s'.chs) :
    (Holds s p k ∧ k ∈ s.chs ∧ ¬ Enters ⟨s, phase⟩ ⟨s', phase'⟩ p k) ∨ Issues ⟨s, phase⟩ ⟨s', phase'⟩ p k := by
  have hI : Inv s := hg.inv
  rcases h.cmd_or with ⟨x, line, lines, todo, rfl, hs⟩ | hphase
  · obtain ⟨⟨c, hc⟩, -⟩ := hg.author x (line :: lines) todo rfl
    have hnext : Config.upcoming ⟨s, .cmds x (line :: lines) todo⟩ = some (x, line) := rfl
    have hsafe := ((execLine_spec hI hc line).of_ok hs).1
    rcases holds_execLine hI hc hs (fun hcmd => hfree x line c hnext hc hcmd hsafe) hp hk with
      ⟨hh, hin, hno⟩ | ⟨hcmd, hk2, hto, hon⟩
    · refine .inl ⟨hh, hin, ?_⟩
      rintro ⟨line', hnext', hcmd, hoff, hon⟩
      rw [hnext] at hnext'
      cases hnext'
      exact hno ⟨rfl, hcmd, hoff, hon⟩
    · exact .inr ⟨x, line, hnext, hcmd, hk2, hto, hon, hp⟩
  · refine .inl ⟨?_, h.key hI hphase hk, ?_⟩
    · obtain ⟨d, hd, hdp, hkd⟩ := hp
      rcases h.record hI hphase hd with ⟨c, hc, out, got, acc, rfl⟩ | ⟨conn, -, rfl⟩
      · exact ⟨c, hc, hdp, hkd⟩
      · -- a new client holds none
        exact absurd hkd ExtTreeSet.not_mem_empty
    · rintro ⟨line, hnext, -⟩
      obtain ⟨lines, todo, he⟩ := Config.upcoming_eq_some.mp hnext
      exact hphase _ _ _ _ he

/-! ## The runs -/

/-- The invitations that are held to channels that exist are standing. -/
def AllStanding (pass : Str) (lfd : Nat) (js : List Input) (s : Server) : Prop :=
  ∀ p k, Holds s p k → k ∈ s.chs → Standing pass lfd js p k

/-- One more step. -/
theorem AllStanding.snoc (h : AllStanding pass lfd js cfg.srv) (hrun : runServer pass lfd js = .ok cfg)
    (hstep : step cfg i = .ok cfg') (hfree : Unclaimed cfg i) : AllStanding pass lfd (js ++ [i]) cfg'.srv := by
  intro p k hp hk
  have hg : Good cfg := Reachable.good ⟨js, hrun⟩
  rcases (move_of_step hstep).holds hg hfree hp hk with ⟨hp, hk, hno⟩ | hissue
  · obtain ⟨is, j, bs, t, t', rfl, ht, ht', hissue, hstand⟩ := h p k hp hk
    refine ⟨is, j, bs ++ [i], t, t', by simp, ht, ht', hissue, ?_⟩
    obtain ⟨d, hd, -⟩ := (holds_iff hg.inv).mp hp
    obtain ⟨t₁, ht₁, hrest⟩ := Runs.run_append_ok.mp hrun
    rw [show Runs.run step is (start pass lfd) = .ok t from ht] at ht₁
    cases ht₁
    obtain ⟨t₂, ht₂, hrest⟩ := Runs.run_cons_ok.mp hrest
    rw [ht'] at ht₂
    cases ht₂
    apply Runs.along_snoc hstand hrest
    refine ⟨hk, ⟨d, hd⟩, fun u hu => ?_⟩
    rw [hstep] at hu
    cases hu
    exact hno
  · exact ⟨js, i, [], cfg, cfg', rfl, hrun, hstep, hissue, trivial⟩

theorem allStanding_run (hfree : Runs.Along step Unclaimed js (start pass lfd)) :
    ∀ cfg, runServer pass lfd js = .ok cfg → AllStanding pass lfd js cfg.srv := by
  induction js using List.reverseRecOn with
  | nil =>
    intro cfg hrun p k hp
    cases hrun
    obtain ⟨d, hd, -⟩ := hp
    obtain ⟨fd, hfd⟩ := mem_clients.mp hd
    exact absurd hfd (by simp [start])
  | append_singleton js i ih =>
    intro cfg' hrun
    obtain ⟨cfg, hcfg, hlast⟩ := Runs.run_append_ok.mp hrun
    obtain ⟨hjs, hi⟩ := Runs.along_append hfree hcfg
    obtain ⟨t, hstep, ht⟩ := Runs.run_cons_ok.mp hlast
    cases ht
    exact (ih hjs cfg hcfg).snoc hcfg hstep hi.1

/-- Whoever enters an invite-only channel holds an invitation. -/
theorem holds_of_enters (hg : Good cfg) (hstep : step cfg i = .ok cfg') (hch : cfg.srv.chs[k]? = some ch)
    (hi : ch.optI = true) (h : Enters cfg cfg' p k) : Holds cfg.srv p k := by
  obtain ⟨line, hnext, hcmd, hoff, hon⟩ := h
  obtain ⟨c, hc, hs⟩ := exec_of_upcoming hg hstep hnext
  have hpart : ¬ PartCmd (splitCmdToArgs line) := by
    obtain ⟨u, -, hs', -, -, hsteps⟩ := execLine_run hg.inv hc hs
    have hon' : On u p k := (on_congr (by rw [hs', chs_note])).mp hon
    exact fun hpart => ((hsteps.on.1 hon').resolve_left hoff).2.2 hpart
  obtain ⟨-, -, -, -, hinv, -⟩ := (afterJoin_execLine hg.inv hc hs hcmd hpart).law.admits k ch hch hoff hon
  refine (holds_iff hg.inv).mpr ⟨c, hc, hinv.resolve_left ?_⟩
  rw [hi]
  decide

/-- **In the runs in which no `JOIN` creates a channel to which somebody else still holds an invitation,
whoever is admitted to an invite-only channel has been invited by a member of it, and has not used the
invitation.** -/
theorem invitations_run (pass : Str) (lfd : Nat) (is : List Input)
    (h : Runs.Along step Unclaimed is (start pass lfd)) : InvitationLaw pass lfd is := by
  rintro js i ks cfg cfg' rfl hrun hstep p k ch hch hi hent
  have hg : Good cfg := Reachable.good ⟨js, hrun⟩
  exact allStanding_run (Runs.along_append h hrun).1 cfg hrun p k (holds_of_enters hg hstep hch hi hent)
    (mem_chs.mpr ⟨ch, hch⟩)

/-- `Unclaimed`, evaluated. -/
def unclaimed (cfg : Config) (_ : Input) : Bool :=
  cfg.upcoming.all fun e => (cfg.srv.cliAt e.1).all fun c =>
    (joinNames cfg.srv e.1 c (splitCmdToArgs e.2)).all fun k =>
      k ∈ cfg.srv.chs || cfg.srv.clients.all fun d => k ∉ d.invits

theorem unclaimed_spec (cfg : Config) (i : Input) (h : unclaimed cfg i = true) : Unclaimed cfg i := by
  intro x line c hnext hc _ _ k hk hnew p _ hp
  unfold unclaimed at h
  rw [hnext, Option.all_some, hc, Option.all_some, List.all_eq_true] at h
  obtain ⟨d, hd, -, hkd⟩ := hp
  have hone := h k hk
  rw [decide_eq_false hnew, Bool.false_or, List.all_eq_true] at hone
  exact absurd hkd (by simpa using hone d hd)

/-- A client is invited to an invite-only channel, and joins it. -/
def inviting : List Input := connect 0 alice ++ connect 1 bob ++ say 1 0 3 (register "bo") ++
  say 0 1 6 (register "al" ++ str "JOIN #c\r\nMODE #c +i\r\nINVITE bo #c\r\n") ++ drain 1 0 93 ++
  say 1 0 1 (str "JOIN #c\r\n")

/-- In that run the invitation is standing. -/
theorem invitations_run_joined : (∃ cfg, runServer (str "2") 3 inviting = .ok cfg ∧ On cfg.srv bob.addr (str "#c")) ∧
    InvitationLaw (str "2") 3 inviting := by
  obtain ⟨cfg, hrun, hP⟩ := exists_run (str "2") 3 inviting (fun cfg => On cfg.srv bob.addr (str "#c"))
    (by decide +kernel)
  rw [decide_eq_true_eq] at hP
  exact ⟨⟨cfg, hrun, hP⟩,
    invitations_run (str "2") 3 inviting (Runs.along_of_check unclaimed_spec _ _ (by decide +kernel))⟩

/-! ## An invitation to a channel that is gone -/

/-- The next step is no `INVITE`. -/
def notInvite (cfg : Config) (_ : Input) : Bool :=
  cfg.upcoming.all fun e => ¬ CmdIs (splitCmdToArgs e.2) "INVITE"

theorem not_issues (h : notInvite cfg i = true) : ¬ Issues cfg cfg' p k := by
  rintro ⟨z, line, hnext, hcmd, -⟩
  unfold notInvite at h
  rw [hnext, Option.all_some] at h
  simp [hcmd] at h

/-- No invitation stands to a channel that was removed, if none has been issued since. -/
theorem not_standing {cs : List Input} (hrun : runServer pass lfd js = .ok cfg) (hgone : k ∉ cfg.srv.chs)
    (hno : Runs.Along step (fun cfg i => notInvite cfg i = true) (i :: cs) cfg) :
    ¬ Standing pass lfd (js ++ i :: cs) p k := by
  rintro ⟨is, j, bs, t, t', heq, ht, ht', hissue, hstand⟩
  rcases List.append_eq_append_iff.mp heq with ⟨as, rfl, hlast⟩ | ⟨as, rfl, hlast⟩
  · -- it was issued after the removal
    obtain ⟨u, hu, hrest⟩ := Runs.run_append_ok.mp ht
    rw [show Runs.run step js (start pass lfd) = .ok cfg from hrun] at hu
    cases hu
    rw [hlast] at hno
    exact not_issues (Runs.along_append hno hrest).2.1 hissue
  · cases as with
    | nil =>
      rw [List.append_nil] at hrun
      rw [ht] at hrun
      cases hrun
      injection hlast with hj
      subst hj
      exact not_issues hno.1 hissue
    | cons j' as =>
      -- it was issued before, so the channel is there
      injection hlast with hj hbs
      subst hj hbs
      obtain ⟨u, hu, hrest⟩ := Runs.run_append_ok.mp hrun
      rw [show Runs.run step is (start pass lfd) = .ok t from ht] at hu
      cases hu
      obtain ⟨v, hv, hrest⟩ := Runs.run_cons_ok.mp hrest
      rw [ht'] at hv
      cases hv
      exact hgone (Runs.along_append hstand hrest).2.1.1

def carol : Conn := ⟨6, 150, (127, 0, 0, 1)⟩

/-- A client is invited to a channel that is then left and removed. -/
def leaving : List Input := connect 0 alice ++ connect 1 bob ++ say 1 0 3 (register "bo") ++
  say 0 1 6 (register "al" ++ str "JOIN #c\r\nINVITE bo #c\r\nPART #c\r\n") ++ [.next, .next]

/-- Another client creates an invite-only channel of that name, and the invited client comes to join it. -/
def returning : List Input := [.poll [readable, silent, silent], .accept (some carol)] ++
  say 2 0 5 (register "ca" ++ str "JOIN #c\r\nMODE #c +i\r\n") ++ drain 1 1 93 ++
  wait [silent, silent, readable, silent] ++ [.next, .next, .recv (.data (str "JOIN #c\r\n"))]

/-- `p` stands at a `JOIN` that admits it to the invite-only channel `k`. -/
def entering (cfg : Config) (p : Ptr) (line k : Str) : Bool :=
  cfg.upcoming = some (p, line) && (cfg.srv.chs[k]?).any (·.optI) && decide (¬ On cfg.srv p k) &&
    (step cfg .next).toOption.any fun cfg' => On cfg'.srv p k

/-- An invitation outlives the channel it was issued for. -/
theorem invitation_outlives : ¬ ∀ (pass : Str) (lfd : Nat) (is : List Input), InvitationLaw pass lfd is := by
  intro hall
  obtain ⟨cfg, hrun, hP⟩ := exists_run (str "2") 3 leaving
    (fun cfg => decide (str "#c" ∉ cfg.srv.chs) && Runs.check step notInvite (.next :: returning) cfg &&
      (Runs.run step (.next :: returning) cfg).toOption.any fun t => entering t bob.addr (str "JOIN #c") (str "#c"))
    (by decide +kernel)
  simp only [entering, Bool.and_eq_true, Option.any_eq_true, decide_eq_true_eq] at hP
  obtain ⟨⟨hgone, hno⟩, t, ht, ⟨⟨hnext, ch, hch, hi⟩, hoff⟩, t', ht', hon⟩ := hP
  have hjs : runServer (str "2") 3 (leaving ++ .next :: returning) = .ok t :=
    Runs.run_append_ok.mpr ⟨cfg, hrun, eq_ok_of_toOption ht⟩
  have henters : Enters t t' bob.addr (str "#c") := ⟨str "JOIN #c", hnext, by decide, hoff, hon⟩
  refine not_standing (p := bob.addr) hrun hgone (Runs.along_of_check (fun _ _ h => h) _ _ hno) ?_
  exact hall _ _ _ (leaving ++ .next :: returning) .next [] t t' rfl hjs (eq_ok_of_toOption ht') _ _ ch hch hi henters

end FtIrc
