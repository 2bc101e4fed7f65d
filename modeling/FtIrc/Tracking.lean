import FtIrc.Admission

/-!
# Who can track a roster

A channel's members learn of a `JOIN`, `PART` or `KICK` from the line the command tells them
(`follows_of_heralded`).  A member's change of nick and the removal of a client are told to nobody, and a
`QUIT` is told to everybody: `tracking_run` is about the runs in which these find no one.
-/

namespace FtIrc

open Std Outcome Server

variable {s s' u : Server} {x y p : Ptr} {ar : List Str} {c d : Cli} {k m line : Str} {ch : Ch} {pass : Str}
  {lfd : Nat} {cfg cfg' t t' : Config} {i : Input} {is js : List Input} {phase phase' : Phase}

/-! ## A command -/

/-- What a member is told. -/
theorem told_of_mem (hI : Inv s) (hc : s.cliAt x = some c) (h : s.execLine x line = .ok s') (hon : On s y k)
    {P : Str → Prop} (hm : (y, m) ∈ (cmdRun s x c (splitCmdToArgs line)).2) (hP : P (m.take (MAX_CMD_LEN - 2))) :
    Told s s' y P := by
  obtain ⟨ch, hch, hy⟩ := hon
  obtain ⟨d, -, hd, -⟩ := member_live hI hch hy
  exact (told_execLine hI hc h hd).mpr ⟨m, hm, hP⟩

theorem on_execLine (hI : Inv s) (hc : s.cliAt x = some c) (h : s.execLine x line = .ok s') :
    On s' p k ↔ On (cmdRun s x c (splitCmdToArgs line)).1 p k := by
  obtain ⟨u, -, rfl, rfl, -, -⟩ := execLine_run hI hc h
  exact on_congr ((chs_note ..).trans chs_sendAll)

/-- The lines of a command of `x` that bear its prefix name it. -/
theorem prefixed_author (hI : Inv s) (hc : s.cliAt x = some c) (w : Str) :
    Prefixed (nickAt s x) ((str ":" ++ hostPrefix c ++ w).take (MAX_CMD_LEN - 2)) := by
  rw [nickAt_of_cliAt hc]
  exact (prefixed_hostPrefix c w).take (hI.nick_chars c (cliAt_mem hc).1).1

/-- What a command that leaves makes of the channels. -/
theorem cmdRun_leave (hI : Inv s) (hreg : c.registered = true) (hpart : PartCmd ar) :
    (cmdRun s x c ar).1 = partDone s x (leftName s x ar) := by
  have hdone : ∀ ar', cmdRun s x c ar = partRun s x c ar' → (cmdRun s x c ar).1 = partDone s x (argD ar' 1) := by
    intro ar' hrun
    rw [hrun]
    by_cases hlen : 2 ≤ ar'.length
    · rw [partRun_eq hreg hlen]
    · have hoff : ¬ On s x (argD ar' 1) := fun hon => by
        rw [argD_of_length (by omega)] at hon
        exact absurd (hI.ch_name _ (mem_of_on hon)).long (by decide)
      unfold partRun registeredRun partDone
      rw [if_neg (by simp [hreg]), if_pos (by omega), if_neg hoff]
  unfold leftName
  rcases hpart with hcmd | ⟨hcmd, hlen, hz⟩
  · rw [if_neg fun h => absurd (h.unique hcmd) (by decide)]
    exact hdone ar (cmdRun_part hcmd)
  · rw [if_pos hcmd]
    have hrun : cmdRun s x c ar = partRun s x c (ar.set 1 (allNames s x)) := by
      rw [cmdRun_join hcmd]
      unfold execJoinRun registeredRun
      rw [if_neg (by simp [hreg]), if_neg (by omega), if_pos ⟨hlen, argD_of_getElem? hz⟩]
    rw [hdone _ hrun, argD_of_getElem? (List.getElem?_set_self (by omega))]

/-- Only a single channel is left. -/
theorem eq_leftName (hI : Inv s) (hc : s.cliAt x = some c) (hpart : PartCmd ar) (hon : On s x k)
    (hoff : ¬ On (cmdRun s x c ar).1 x k) : k = leftName s x ar := by
  rw [cmdRun_leave hI (registered_of_on hI hc hon) hpart, on_partDone] at hoff
  by_contra hk
  exact hoff ⟨hon, fun h => hk h.1⟩

/-- A target is an argument. -/
theorem length_of_target {v : Str} (hv : v ∈ splitArgToSubargs (argD ar 2)) : 3 ≤ ar.length := by
  by_contra hno
  rw [argD_of_length (by omega)] at hv
  cases hv

/-- Who has left after a `KICK` was one of its targets. -/
theorem kicked_of_off (hcmd : CmdIs ar "KICK") (hon : On s p k) (hoff : ¬ On (cmdRun s x c ar).1 p k) :
    k = argD ar 1 ∧ Op s x (argD ar 1) ∧ (∃ v ∈ splitArgToSubargs (argD ar 2), s.getCli v = p) ∧
      (cmdRun s x c ar).2 = kickMails s x c (argD ar 1) (argD ar 2) (kickText ar) := by
  rw [cmdRun_kick hcmd] at hoff ⊢
  by_cases hgo : c.registered = true ∧ 3 ≤ ar.length
  · rw [kickRun_eq hgo.1 hgo.2] at hoff ⊢
    rw [on_kickDone, and_iff_right hon, not_not] at hoff
    exact ⟨hoff.1, hoff.2.1, hoff.2.2, rfl⟩
  · -- nobody is kicked
    refine absurd hon ?_
    unfold kickRun registeredRun at hoff
    by_cases hreg : c.registered = true
    · rw [if_neg (by simp [hreg]), if_pos (by by_contra hlen; exact hgo ⟨hreg, by omega⟩)] at hoff
      exact hoff
    · rw [if_pos (by simpa using hreg)] at hoff
      exact hoff

/-- Somebody has come to a channel: the members are told of the `JOIN`. -/
theorem told_join (hI : Inv s) (hc : s.cliAt x = some c) (h : s.execLine x line = .ok s') (hoff : ¬ On s p k)
    (hon : On s' p k) (hy : On s y k) : Told s s' y (Prefixed (nickAt s p)) := by
  obtain ⟨u, -, hu, hsent, hsafe, hsteps⟩ := execLine_run hI hc h
  have hon' : On u p k := (on_congr (by rw [hu, chs_note])).mp hon
  rcases hsteps.on.1 hon' with hon | ⟨rfl, hcmd, hpart⟩
  · exact absurd hon hoff
  · have hne : y ≠ p := by
      rintro rfl
      exact hoff hy
    have hin := ((afterJoin_execLine hI hc h hcmd hpart).on_iff.mp hon).resolve_right hoff
    obtain ⟨ch, hch, hyc⟩ := hy
    have hrelay : Relay s p c (splitCmdToArgs line) y (joinLine c k) :=
      .join k _ hcmd hin ⟨ch, hch, hyc, .inl rfl⟩
    refine told_of_mem hI hc h ⟨ch, hch, hyc⟩ ((relay_iff hI hc hsafe hne).mpr hrelay) ?_
    unfold joinLine
    rw [List.append_assoc (str ":" ++ hostPrefix c)]
    exact prefixed_author hI hc _

/-- Somebody has left a channel: whoever stays is told of the `PART` or the `KICK`. -/
theorem told_leave (hI : Inv s) (hc : s.cliAt x = some c) (h : s.execLine x line = .ok s')
    (hcond : Heralded s x c (splitCmdToArgs line)) (hon : On s p k) (hoff : ¬ On s' p k) (hy : On s y k)
    (hy' : On s' y k) :
    Told s s' y fun m => Prefixed (nickAt s p) m ∨ KickNames s c (splitCmdToArgs line) k p m := by
  obtain ⟨u, -, hu, hsent, hsafe, hsteps⟩ := execLine_run hI hc h
  have hoff' : ¬ On u p k := fun hon' => hoff ((on_congr (by rw [hu, chs_note])).mpr hon')
  rcases hsteps.on.2 hon with hon' | ⟨rfl, hpart⟩ | hcmd
  · exact absurd hon' hoff'
  · -- the author has left
    have hne : y ≠ p := by
      rintro rfl
      exact hoff hy'
    have hk := eq_leftName hI hc hpart hon fun h' => hoff ((on_execLine hI hc h).mpr h')
    have hrelay : Relay s p c (splitCmdToArgs line) y (partLine c (leftName s p (splitCmdToArgs line))
        (partText (splitCmdToArgs line))) :=
      .part hpart (registered_of_on hI hc hon) (hk ▸ hon) (hk ▸ hy)
    refine told_of_mem hI hc h hy ((relay_iff hI hc hsafe hne).mpr hrelay) (.inl ?_)
    unfold partLine
    rw [List.append_assoc, List.append_assoc (str ":" ++ hostPrefix c)]
    exact prefixed_author hI hc _
  · -- the author has kicked it
    have hoffRun : ¬ On (cmdRun s x c (splitCmdToArgs line)).1 p k := fun h' => hoff ((on_execLine hI hc h).mpr h')
    obtain ⟨rfl, ⟨ch, hch, hx⟩, ⟨v, hv, hvp⟩, hmail⟩ := kicked_of_off hcmd hon hoffRun
    have hmem : ∀ {q}, On s q (argD (splitCmdToArgs line) 1) → q ∈ ch.clis := fun hq => (on_iff hch).mp hq
    have htold : (y, kickLine c _ _ (kickText (splitCmdToArgs line))) ∈ _ :=
      kickLine_mem hI hch hx (hmem hy) hv (by rw [hvp]; exact hmem hon)
    refine told_of_mem hI hc h hy (hmail ▸ htold) ?_
    by_cases hp : p = x
    · subst hp
      refine .inl ?_
      unfold kickLine
      simp only [List.append_assoc (str ":" ++ hostPrefix c)]
      exact prefixed_author hI hc _
    · refine .inr ⟨hcmd, rfl, ?_⟩
      rw [← hvp] at hp ⊢
      refine hcond.kick hcmd ch hch hx v hv (by rw [hvp]; exact hmem hon) hp ⟨y, hmem hy, fun w hw hwy => ?_⟩
      -- whoever stays is none of the targets
      have hstay := (on_execLine hI hc h).mp hy'
      rw [cmdRun_kick hcmd, kickRun_eq (registered_of_on hI hc ⟨ch, hch, hI.adm _ ch hch x hx⟩)
        (length_of_target hv), on_kickDone] at hstay
      exact hstay.2 ⟨rfl, ⟨ch, hch, hx⟩, w, hw, hwy⟩

/-- Only a `NICK` of the member itself renames it. -/
theorem renamed_of_ne (hI : Inv s) (hc : s.cliAt x = some c) (h : s.execLine x line = .ok s') (hon : On s p k)
    (hne : nickAt s' p ≠ nickAt s p) :
    p = x ∧ CmdIs (splitCmdToArgs line) "NICK" ∧ NickTaken s (splitCmdToArgs line) := by
  obtain ⟨u, -, rfl, hu, -, hsteps⟩ := execLine_run hI hc h
  obtain ⟨ch, hch, hp⟩ := hon
  obtain ⟨d, -, hd, -⟩ := member_live hI hch hp
  obtain ⟨e, he, hlater⟩ := hsteps.later_of hd
  have hnick : nickAt (u.note x (splitCmdToArgs line)) p = e.nick := by
    unfold nickAt
    rw [cliAt_note, he]
    split <;> rfl
  rw [hnick, nickAt_of_cliAt hd] at hne
  obtain ⟨rfl, hcmd⟩ := hlater.nick.resolve_left hne
  refine ⟨rfl, hcmd, ?_⟩
  by_contra hno
  have hsame : nickSet s (splitCmdToArgs line) d = d := if_neg hno
  rw [hu, cmdRun_nick hcmd, cliAt_sendAll, cliAt_updCli nickSet_keepsAddr, if_pos rfl, hd] at he
  rw [Option.map_some, hsame, Option.map_some, Option.some.injEq] at he
  exact hne (by rw [← he]; rfl)

/-- **A command that is heralded is followed.** -/
theorem follows_of_heralded (hI : Inv s) (hc : s.cliAt x = some c) (h : s.execLine x line = .ok s')
    (hcond : Heralded s x c (splitCmdToArgs line)) : Follows s s' x c (splitCmdToArgs line) := by
  refine ⟨fun k p y hchg hy hy' => ?_, fun hcmd y htold => ?_⟩
  · rcases hchg with hchg | ⟨hon, -, hnick⟩
    · by_cases hon : On s p k
      · exact told_leave hI hc h hcond hon (fun hon' => hchg (iff_of_true hon hon')) hy hy'
      · have hon' : On s' p k := by
          by_contra hoff'
          exact hchg (iff_of_false hon hoff')
        obtain ⟨d, d', ms, hd, hd', hbuf, hprep, m, hm, hP⟩ := told_join hI hc h hon hon' hy
        exact ⟨d, d', ms, hd, hd', hbuf, hprep, m, hm, .inl hP⟩
    · obtain ⟨rfl, hcmd, htaken⟩ := renamed_of_ne hI hc h hon hnick
      exact absurd hon (hcond.nick hcmd htaken k)
  · obtain ⟨d, -, -, hd, -⟩ := htold
    exact hcond.quit hcmd y d hd

/-! ## The other transitions -/

/-- The cleanup that comes next removes the client. -/
def Leaving (s : Server) (p : Ptr) : Prop := ∃ c, s.cliAt p = some c ∧ c.fd ∈ s.fdsToErase ∧ c.bufToSend = []

/-- When a step tells the members what it changes. -/
structure Heralds (cfg : Config) (i : Input) : Prop where
  command : ∀ x line c, cfg.upcoming = some (x, line) → cfg.srv.cliAt x = some c →
    Heralded cfg.srv x c (splitCmdToArgs line)
  /-- nobody is left behind -/
  cleanup : cfg.phase = .clis → ∀ k p y, On cfg.srv p k → On cfg.srv y k → Leaving cfg.srv p → Leaving cfg.srv y

/-- A record that has kept its address and its nick. -/
theorem nickAt_eq (hI : Inv s) (hI' : Inv s') (hon : On s' p k)
    (h : ∀ d' ∈ s'.clients, d'.addr = p → ∃ d ∈ s.clients, d.addr = p ∧ d.nick = d'.nick) :
    nickAt s' p = nickAt s p := by
  obtain ⟨ch, hch, hp⟩ := hon
  obtain ⟨d', -, hd', -⟩ := member_live hI' hch hp
  obtain ⟨d, hd, rfl, hnick⟩ := h d' (cliAt_mem hd').1 (cliAt_mem hd').2
  rw [nickAt_of_cliAt hd', nickAt_of_cliAt (cliAt_of_mem hI hd), hnick]

theorem mem_leavers_iff (hI : Inv s) : (∃ c ∈ s.leavers s.fdsToErase.toList, c.addr = p) ↔ Leaving s p := by
  simp only [mem_leavers, ExtTreeSet.mem_toList]
  constructor
  · rintro ⟨c, ⟨fd, hfd, hc, hbuf⟩, rfl⟩
    exact ⟨c, cliAt_of_clis hI hc, by rw [hI.fd_eq fd c hc]; exact hfd, hbuf⟩
  · rintro ⟨c, hc, hfd, hbuf⟩
    obtain ⟨hcm, hcp⟩ := cliAt_mem hc
    obtain ⟨fd, hcfd⟩ := mem_clients.mp hcm
    refine ⟨c, ⟨fd, ?_, hcfd, hbuf⟩, hcp⟩
    rw [← hI.fd_eq fd c hcfd]
    exact hfd

theorem on_cleaned (hI : Inv s) : On s.cleaned p k ↔ On s p k ∧ ¬ Leaving s p := by
  rw [← mem_leavers_iff hI]
  unfold On
  rw [getElem?_chs_cleaned]
  push Not
  simp only [Option.map_eq_some_iff]
  constructor
  · rintro ⟨-, ⟨ch, hch, rfl⟩, hp⟩
    obtain ⟨hp, hall⟩ := (mem_clis_dropEach _ ch).mp hp
    exact ⟨⟨ch, hch, hp⟩, hall⟩
  · rintro ⟨⟨ch, hch, hp⟩, hall⟩
    exact ⟨_, ⟨ch, hch, rfl⟩, (mem_clis_dropEach _ ch).mpr ⟨hp, hall⟩⟩

/-- A channel with members is not removed. -/
theorem on_filter : On { s with chs := s.chs.filter fun _ ch => ch.size ≠ 0 } p k ↔ On s p k := by
  constructor
  · rintro ⟨ch, hch, hp⟩
    exact ⟨ch, (getElem?_filter_size.mp hch).1, hp⟩
  · rintro ⟨ch, hch, hp⟩
    exact ⟨ch, getElem?_filter_size.mpr ⟨hch, fun h0 => size_eq_zero_iff.mp h0 p hp⟩, hp⟩

/-- **No other transition changes a roster that somebody stays on.** -/
theorem Move.roster (h : Move s phase i s' phase') (hg : Good ⟨s, phase⟩) (hcond : Heralds ⟨s, phase⟩ i)
    (hphase : ∀ x line lines todo, phase ≠ .cmds x (line :: lines) todo) (hy : On s y k) (hy' : On s' y k) :
    ¬ Changed s s' p k := by
  have hI : Inv s := hg.inv
  have hI' : Inv s' := (h.good hg).inv
  rintro (hno | ⟨hon, hon', hne⟩)
  · refine hno ⟨fun hon => ?_, h.on hI hphase⟩
    rcases h.chs_cases hI hphase with ⟨rfl, rfl⟩ | ⟨rfl, rfl⟩ | ⟨-, hsame⟩
    · -- `y` stays, so nobody leaves
      have hstay := ((on_cleaned hI).mp hy').2
      exact (on_cleaned hI).mpr ⟨hon, fun hleave => hstay (hcond.cleanup rfl k p y hon hy hleave)⟩
    · exact on_filter.mpr hon
    · exact (on_congr hsame).mpr hon
  · refine hne (nickAt_eq hI hI' hon' fun d' hd' hp => ?_)
    rcases h.record hI hphase hd' with ⟨d, hd, out, got, acc, rfl⟩ | ⟨conn, hconn, rfl⟩
    · exact ⟨d, hd, hp, rfl⟩
    · -- a new client is on no channel
      obtain ⟨ch, hch, hpc⟩ := hon
      obtain ⟨d, -, hd, -⟩ := member_live hI hch hpc
      rw [← hp, show (Cli.new conn.addr conn.fd (inetNtoa conn.ip)).addr = conn.addr from rfl,
        (acceptContract_iff.mp hconn).2.2.2] at hd
      cases hd

/-! ## The runs -/

/-- The client at `p` is marked for removal. -/
def Marked (s : Server) (p : Ptr) : Prop := ∃ c, s.cliAt p = some c ∧ c.fd ∈ s.fdsToErase

/-- The step that marked `p`, whose mark has stood since, told `y` a line that names it. -/
def Forewarned (pass : Str) (lfd : Nat) (js : List Input) (p y : Ptr) : Prop :=
  ∃ is i bs t t', js = is ++ i :: bs ∧ runServer pass lfd is = .ok t ∧ step t i = .ok t' ∧ ¬ Marked t.srv p ∧
    Marked t'.srv p ∧ Runs.Along step (fun cfg _ => Marked cfg.srv p) bs t' ∧
    Told t.srv t'.srv y (Prefixed (nickAt t.srv p))

/-- The line names `p` as its author, or as one that a `KICK` takes off the channel `k`. -/
def BearsName (cfg : Config) (k : Str) (p : Ptr) (m : Str) : Prop :=
  Prefixed (nickAt cfg.srv p) m ∨ ∃ x line c, cfg.upcoming = some (x, line) ∧ cfg.srv.cliAt x = some c ∧
    KickNames cfg.srv c (splitCmdToArgs line) k p m

/-- What a step owes the members, after the run `js`. -/
structure Tracked (pass : Str) (lfd : Nat) (js : List Input) (cfg cfg' : Config) : Prop where
  /-- whoever stays is told, or has been when the client was marked -/
  roster : ∀ k p y, Changed cfg.srv cfg'.srv p k → On cfg.srv y k → On cfg'.srv y k →
    Told cfg.srv cfg'.srv y (BearsName cfg k p) ∨ (Marked cfg.srv p ∧ Forewarned pass lfd js p y)
  quit : ∀ x line, cfg.upcoming = some (x, line) → CmdIs (splitCmdToArgs line) "QUIT" →
    ∀ y, Told cfg.srv cfg'.srv y (fun _ => True) → y = x ∨ Shares cfg.srv x y

/-- The members can track the rosters. -/
def RosterLaw (pass : Str) (lfd : Nat) (is : List Input) : Prop :=
  ∀ js i ks cfg cfg', is = js ++ i :: ks → runServer pass lfd js = .ok cfg → step cfg i = .ok cfg' →
    Tracked pass lfd js cfg cfg'

/-- One step. -/
theorem tracked_step (hg : Good cfg) (hstep : step cfg i = .ok cfg') (hcond : Heralds cfg i) :
    Tracked pass lfd js cfg cfg' := by
  obtain ⟨s, phase⟩ := cfg
  have hmove := move_of_step hstep
  rcases hmove.cmd_or with ⟨x, line, lines, todo, rfl, hs⟩ | hcmd
  · obtain ⟨⟨c, hc⟩, -⟩ := hg.author x (line :: lines) todo rfl
    have hnext : Config.upcoming ⟨s, .cmds x (line :: lines) todo⟩ = some (x, line) := rfl
    have hfollows := follows_of_heralded hg.inv hc hs (hcond.command x line c hnext hc)
    refine ⟨fun k p y hchg hy hy' => .inl ?_, fun x' line' hnext' hquit => ?_⟩
    · obtain ⟨d, d', ms, hd, hd', hbuf, hprep, m, hm, hP⟩ := hfollows.roster k p y hchg hy hy'
      exact ⟨d, d', ms, hd, hd', hbuf, hprep, m, hm, hP.imp_right fun hkick => ⟨x, line, c, hnext, hc, hkick⟩⟩
    · rw [hnext] at hnext'
      cases hnext'
      exact hfollows.quit hquit
  · refine ⟨fun k p y hchg hy hy' => absurd hchg (hmove.roster hg hcond hcmd hy hy'), fun x line hnext => ?_⟩
    obtain ⟨lines, todo, hphase⟩ := Config.upcoming_eq_some.mp hnext
    exact absurd hphase (hcmd x line lines todo)

/-- **The members track the rosters in the runs in which no member is renamed, the cleanup leaves nobody
behind, and a `QUIT` finds no stranger.** -/
theorem tracking_run (pass : Str) (lfd : Nat) (is : List Input)
    (h : Runs.Along step Heralds is (start pass lfd)) : RosterLaw pass lfd is := by
  rintro js i ks cfg cfg' rfl hrun hstep
  exact tracked_step (Reachable.good ⟨js, hrun⟩) hstep (Runs.along_append h hrun).2.1

/-- Enough for `Heralds`, evaluated. -/
def heralds (cfg : Config) (_ : Input) : Bool :=
  (cfg.upcoming.all fun e =>
    let ar := splitCmdToArgs e.2
    decide (¬ CmdIs ar "NICK" ∨ cfg.srv.chs.toList.all fun kc => e.1 ∉ kc.2.clis) && decide (¬ CmdIs ar "QUIT") &&
      decide (CmdIs ar "KICK" → (cfg.srv.cliAt e.1).all fun c : Cli =>
        keptTargets c (argD ar 1) (argD ar 2) = argD ar 2)) &&
    cfg.srv.clients.all fun c => c.fd ∉ cfg.srv.fdsToErase

theorem heralds_spec (cfg : Config) (i : Input) (h : heralds cfg i = true) : Heralds cfg i := by
  unfold heralds at h
  rw [Bool.and_eq_true, List.all_eq_true] at h
  obtain ⟨hcmd, hstay⟩ := h
  refine ⟨fun x line c hnext hc => ?_, fun _ k p y _ _ hleave => ?_⟩
  · rw [hnext, Option.all_some] at hcmd
    simp only [Bool.and_eq_true, decide_eq_true_eq] at hcmd
    obtain ⟨⟨hnick, hquit⟩, hkick⟩ := hcmd
    refine ⟨fun hn _ k hon => ?_, fun hq => absurd hq hquit, fun hk ch _ _ u hu _ _ _ => ⟨u, ?_, rfl⟩⟩
    · have hall := hnick.resolve_left (not_not.mpr hn)
      rw [List.all_eq_true] at hall
      obtain ⟨ch, hch, hx⟩ := hon
      exact absurd hx (by simpa using hall (k, ch) (ExtTreeMap.mem_toList_iff_getElem?_eq_some.mpr hch))
    · have hfit := hkick hk
      rw [hc, Option.all_some, decide_eq_true_eq] at hfit
      rw [hfit]
      exact hu
  · obtain ⟨c, hc, hfd, -⟩ := hleave
    exact absurd hfd (by simpa using hstay c (cliAt_mem hc).1)

/-- A client joins a channel, leaves it, joins it again and is kicked. -/
def kicking : List Input := connect 0 alice ++ connect 1 bob ++ say 1 0 3 (register "bo") ++
  say 0 1 4 (register "al" ++ str "JOIN #c\r\n") ++ drain 1 0 63 ++
  say 1 0 3 (str "JOIN #c\r\nPART #c\r\nJOIN #c\r\n") ++ drain 0 1 292 ++ say 0 1 1 (str "KICK #c bo :bye\r\n")

/-- In that run everything is announced. -/
theorem tracking_run_kick : (∃ cfg, runServer (str "2") 3 kicking = .ok cfg ∧ On cfg.srv alice.addr (str "#c") ∧
    ¬ On cfg.srv bob.addr (str "#c")) ∧ RosterLaw (str "2") 3 kicking := by
  obtain ⟨cfg, hrun, hP⟩ := exists_run (str "2") 3 kicking
    (fun cfg => decide (On cfg.srv alice.addr (str "#c")) && decide (¬ On cfg.srv bob.addr (str "#c"))) (by decide +kernel)
  rw [Bool.and_eq_true, decide_eq_true_eq, decide_eq_true_eq] at hP
  exact ⟨⟨cfg, hrun, hP⟩, tracking_run (str "2") 3 kicking (Runs.along_of_check heralds_spec _ _ (by decide +kernel))⟩

/-! ## A member that changes its nick -/

/-- A client to whom nothing is prepared is told nothing. -/
theorem not_told (hd : s.cliAt y = some d) {e : Cli} (he : s'.cliAt y = some e)
    (hsame : e.hist.prepared = d.hist.prepared) {P : Str → Prop} : ¬ Told s s' y P := by
  rintro ⟨d', e', ms, hd', he', -, hms, m, hm, -⟩
  rw [hd] at hd'
  rw [he] at he'
  cases hd'
  cases he'
  rw [hsame] at hms
  rw [List.self_eq_append_right.mp hms] at hm
  cases hm

/-- A client joins the channel of another, and comes to change its nick. -/
def changingNick : List Input := connect 0 alice ++ connect 1 bob ++ say 1 0 3 (register "bo") ++
  say 0 1 4 (register "al" ++ str "JOIN #c\r\n") ++ drain 1 0 63 ++ wait [silent, silent, readable] ++
  [.next, .next, .recv (.data (str "JOIN #c\r\nNICK bx\r\n")), .next]

/-- A change of nick is told to nobody. -/
theorem nick_untold : ¬ ∀ (pass : Str) (lfd : Nat) (is : List Input), RosterLaw pass lfd is := by
  intro hall
  obtain ⟨cfg, hrun, hP⟩ := exists_run (str "2") 3 changingNick
    (fun cfg => (cfg.srv.cliAt bob.addr).all (fun c : Cli => c.fd ∉ cfg.srv.fdsToErase) &&
      (cfg.srv.cliAt alice.addr).any fun d : Cli => (step cfg .next).toOption.any fun cfg' =>
        (cfg'.srv.cliAt alice.addr).any fun e : Cli => decide (e.hist.prepared = d.hist.prepared) &&
          decide (On cfg.srv bob.addr (str "#c")) && decide (On cfg'.srv bob.addr (str "#c")) &&
          decide (nickAt cfg'.srv bob.addr ≠ nickAt cfg.srv bob.addr) && decide (On cfg.srv alice.addr (str "#c")) &&
          decide (On cfg'.srv alice.addr (str "#c"))) (by decide +kernel)
  simp only [Bool.and_eq_true, Option.any_eq_true, decide_eq_true_eq] at hP
  obtain ⟨hmark, d, hd, cfg', hstep, e, he, ⟨⟨⟨⟨hsame, hon⟩, hon'⟩, hne⟩, hy⟩, hy'⟩ := hP
  have hlaw := hall _ _ (changingNick ++ [.next]) changingNick .next [] cfg cfg' rfl hrun (eq_ok_of_toOption hstep)
  rcases hlaw.roster (str "#c") bob.addr alice.addr (.inr ⟨hon, hon', hne⟩) hy hy' with htold | ⟨⟨c, hc, hfd⟩, -⟩
  · exact not_told hd he hsame htold
  · rw [hc, Option.all_some, decide_eq_true_eq] at hmark
    exact hmark hfd

end FtIrc
