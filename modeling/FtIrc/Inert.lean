import FtIrc.Meaning.Cleanup
import FtIrc.Meaning.Line

/-!
# Commands of a client that is being disconnected

A marked client that is still there at `poll` waits for something to be sent, so only `POLLOUT` is asked
for its descriptor and nothing is read from it (`Phase.Quiet`).  What is left are the lines behind the
one that marked the client, in the same buffer: the loop of `receiveBufAndExecCmds` goes on with them
(`inert_iff`).
-/

namespace FtIrc

open Std Server

variable {s s' : Server} {x : Ptr} {c d : Cli} {fd lfd : Nat} {ps : List Pollfd} {fds : List Nat}
  {pass : Str} {cfg : Config} {i : Input} {phase phase' : Phase}

/-! ## The list of `poll` -/

/-- The entries of `polls` are those of the listener and of the clients, each once; only clients are
marked. -/
structure Watched (s : Server) : Prop where
  nodup : (s.polls.map (·.fd)).Nodup
  known : ∀ p ∈ s.polls, p.fd = s.fdForNewClis ∨ p.fd ∈ s.clis
  marked : ∀ fd ∈ s.fdsToErase, fd ∈ s.clis

/-- All entries of a descriptor ask for `POLLOUT`. -/
def AsksOut (ps : List Pollfd) (fd : Nat) : Prop := ∀ p ∈ ps, p.fd = fd → p.events = .pollout

/-- Where `run` stands: the marked clients are not read from. -/
def Phase.Quiet (s : Server) : Phase → Prop
  | .clis => True
  | .chs | .mark => ∀ fd ∈ s.fdsToErase, ∃ c, s.clis[fd]? = some c ∧ c.bufToSend ≠ []
  | .poll => ∀ fd ∈ s.fdsToErase, AsksOut s.polls fd
  | .events todo => (todo.map (·.1)).Nodup ∧ ∀ e ∈ todo, e.2.pollin = true → e.1 ∉ s.fdsToErase
  | .cmds x lines todo => (todo.map (·.1)).Nodup ∧
      (∀ e ∈ todo, e.2.pollin = true → e.1 ∉ s.fdsToErase) ∧
      ∀ c, s.cliAt x = some c → c.fd ∉ todo.map (·.1) ∧ (lines ≠ [] → c.fd ∉ s.fdsToErase)

theorem map_fd_setEvents (ev : Events) : ∀ ps : List Pollfd,
    (setEvents fd ev ps).map (·.fd) = ps.map (·.fd)
  | [] => rfl
  | p :: ps => by
    unfold setEvents
    split
    · rfl
    · rw [List.map_cons, List.map_cons, map_fd_setEvents ev ps]

theorem asksOut_setEvents (fd' : Nat) : ∀ ps : List Pollfd, (ps.map (·.fd)).Nodup →
    (AsksOut ps fd ∨ fd = fd') → AsksOut (setEvents fd' .pollout ps) fd
  | [], _, _ => fun p hp => by cases hp
  | p :: ps, hnodup, h => by
    rw [List.map_cons, List.nodup_cons] at hnodup
    have hrest : AsksOut ps fd ∨ fd = fd' := h.imp_left fun h q hq => h q (List.mem_cons_of_mem _ hq)
    unfold setEvents
    intro q hq hfd
    split at hq
    · rename_i hp
      rcases List.mem_cons.mp hq with rfl | hq
      · rfl
      · -- the descriptor has no other entry
        rcases h with h | rfl
        · exact h q (List.mem_cons_of_mem _ hq) hfd
        · exact absurd (List.mem_map.mpr ⟨q, hq, hfd.trans hp.symm⟩) hnodup.1
    · rename_i hp
      rcases List.mem_cons.mp hq with rfl | hq
      · rcases h with h | rfl
        · exact h q (by simp) hfd
        · exact absurd hfd hp
      · exact asksOut_setEvents fd' ps hnodup.2 hrest q hq hfd

/-- The loop of `markPollsToSendMsgsTo`. -/
theorem asksOut_markPolls : ∀ (es : List (Nat × Cli)) (ps : List Pollfd), (ps.map (·.fd)).Nodup →
    (AsksOut ps fd ∨ ∃ c, (fd, c) ∈ es ∧ c.bufToSend ≠ []) →
    AsksOut (es.foldl (fun ps e => if 0 < e.2.bufToSend.length then setEvents e.1 .pollout ps else ps) ps) fd
  | [], ps, _, h => by
    rcases h with h | ⟨c, hc, -⟩
    · exact h
    · cases hc
  | e :: es, ps, hnodup, h => by
    rw [List.foldl_cons]
    refine asksOut_markPolls es _ ?_ ?_
    · split
      · rw [map_fd_setEvents]
        exact hnodup
      · exact hnodup
    · rcases h with h | ⟨c, hc, hb⟩
      · left
        split
        · exact asksOut_setEvents e.1 ps hnodup (.inl h)
        · exact h
      · rcases List.mem_cons.mp hc with rfl | hc
        · left
          rw [if_pos (List.length_pos_iff.mpr hb)]
          exact asksOut_setEvents fd ps hnodup (.inr rfl)
        · exact .inr ⟨c, hc, hb⟩

theorem map_fd_markPolls : ∀ (es : List (Nat × Cli)) (ps : List Pollfd),
    (es.foldl (fun ps e => if 0 < e.2.bufToSend.length then setEvents e.1 .pollout ps else ps) ps).map (·.fd) =
      ps.map (·.fd)
  | [], _ => rfl
  | e :: es, ps => by
    rw [List.foldl_cons, map_fd_markPolls es]
    split
    · exact map_fd_setEvents _ _
    · rfl

theorem map_fd_pollsSent (n : Int) : (pollsSent s c n).map (·.fd) = s.polls.map (·.fd) := by
  unfold pollsSent
  split
  · rw [List.map_map]
    refine List.map_congr_left fun p _ => ?_
    show (if p.fd = c.fd then _ else p).fd = p.fd
    split <;> rfl
  · rfl

/-- Removing descriptors from `polls`. -/
theorem foldl_erasePoll : ∀ (fds : List Nat) (ps : List Pollfd), (ps.map (·.fd)).Nodup →
    (fds.foldl (fun ps fd => ps.eraseP (·.fd = fd)) ps).Sublist ps ∧
      ∀ p ∈ fds.foldl (fun ps fd => ps.eraseP (·.fd = fd)) ps, p.fd ∉ fds
  | [], ps, _ => ⟨List.Sublist.refl ps, fun _ _ h => by cases h⟩
  | fd :: fds, ps, hnodup => by
    have hsub : (ps.eraseP (·.fd = fd)).Sublist ps := List.eraseP_sublist
    have hnodup' := hnodup.sublist (hsub.map (·.fd))
    obtain ⟨hrest, hfree⟩ := foldl_erasePoll fds _ hnodup'
    refine ⟨hrest.trans hsub, fun p hp => ?_⟩
    rw [List.mem_cons, not_or]
    refine ⟨fun hfd => ?_, hfree p hp⟩
    have hmem : p ∈ ps.eraseP (·.fd = fd) := hrest.subset hp
    obtain ⟨q, l₁, l₂, -, hq, hps, herase⟩ := List.exists_of_eraseP (p := fun q => q.fd = fd)
      (hsub.subset hmem) (by simpa using hfd)
    rw [decide_eq_true_eq] at hq
    rw [herase] at hmem
    rw [hps, List.map_append, List.map_cons, List.nodup_append, List.nodup_cons] at hnodup
    rcases List.mem_append.mp hmem with h | h
    · exact hnodup.2.2 p.fd (List.mem_map.mpr ⟨p, h, rfl⟩) q.fd (by simp) (hfd.trans hq.symm)
    · exact hnodup.2.1.1 (List.mem_map.mpr ⟨p, h, hfd.trans hq.symm⟩)

/-! ## The transitions -/

theorem mem_clis_addNewClient {conn : Conn} : fd ∈ (s.addNewClient conn).clis ↔ fd = conn.fd ∨ fd ∈ s.clis := by
  rw [ExtTreeMap.mem_iff_isSome_getElem?, getElem?_clis_addNewClient, ExtTreeMap.mem_iff_isSome_getElem?]
  split
  · rename_i he
    simp [he]
  · rename_i he
    rw [or_iff_right he]

theorem mem_markToErase {fd' : Nat} : fd' ∈ (s.markToErase fd).fdsToErase ↔ fd' = fd ∨ fd' ∈ s.fdsToErase := by
  rw [markToErase, ExtTreeSet.mem_insert, Std.compare_eq_iff_eq, eq_comm]

/-- A write that leaves the lists and the marks alone. -/
theorem Watched.of_same (h : Watched s) (hpolls : s'.polls.map (·.fd) = s.polls.map (·.fd))
    (hlfd : s'.fdForNewClis = s.fdForNewClis) (hclis : ∀ fd, fd ∈ s'.clis ↔ fd ∈ s.clis)
    (hmarks : ∀ fd ∈ s'.fdsToErase, fd ∈ s.fdsToErase ∨ fd ∈ s.clis) : Watched s' := by
  refine ⟨hpolls ▸ h.nodup, fun p hp => ?_, fun fd hfd => ?_⟩
  · have hmem : p.fd ∈ s.polls.map (·.fd) := hpolls ▸ List.mem_map.mpr ⟨p, hp, rfl⟩
    obtain ⟨q, hq, he⟩ := List.mem_map.mp hmem
    rw [hlfd, hclis, ← he]
    exact h.known q hq
  · rw [hclis]
    exact (hmarks fd hfd).elim (h.marked fd) id

theorem Watched.cleaned (h : Watched s) : Watched s.cleaned := by
  obtain ⟨hsub, hfree⟩ := foldl_erasePoll (s.fdsToErase.toList.filter s.gone) s.polls h.nodup
  have hkeep : ∀ fd, fd ∈ s.clis → ¬ (fd ∈ s.fdsToErase ∧ s.gone fd = true) → fd ∈ s.cleaned.clis := by
    intro fd hfd hno
    obtain ⟨c, hc⟩ := Option.isSome_iff_exists.mp (ExtTreeMap.mem_iff_isSome_getElem?.mp hfd)
    rw [ExtTreeMap.mem_iff_isSome_getElem?, getElem?_clis_cleaned, if_neg hno, hc]
    rfl
  refine ⟨h.nodup.sublist (hsub.map (·.fd)), fun p hp => ?_, fun fd hfd => ?_⟩
  · refine (h.known p (hsub.subset hp)).imp_right fun hin => hkeep p.fd hin fun hno => ?_
    exact hfree p hp (List.mem_filter.mpr ⟨ExtTreeSet.mem_toList.mpr hno.1, hno.2⟩)
  · obtain ⟨hm, c, hc, hb⟩ := mem_fdsToErase_cleaned.mp hfd
    refine hkeep fd (h.marked fd hm) fun hno => ?_
    have hgone := hno.2
    unfold gone at hgone
    rw [hc] at hgone
    exact hb (by simpa using hgone)

/-- No line follows one that marks its author. -/
def Clean (cfg : Config) (i : Input) : Prop := i = .next →
  ∀ x line next lines todo c, cfg.phase = .cmds x (line :: next :: lines) todo →
    cfg.srv.cliAt x = some c → ¬ SignsOff cfg.srv c (splitCmdToArgs line)

/-- The client whose command comes next is not marked. -/
def Inert (cfg : Config) : Prop := ∀ x line lines todo c, cfg.phase = .cmds x (line :: lines) todo →
  cfg.srv.cliAt x = some c → c.fd ∉ cfg.srv.fdsToErase

theorem mem_of_getElem?_clis (h : s.clis[fd]? = some c) : fd ∈ s.clis := by
  rw [ExtTreeMap.mem_iff_isSome_getElem?, h]
  rfl

/-- Every transition keeps the entries of `polls` and the marks to the clients. -/
theorem Move.watched (h : Move s phase i s' phase') (hg : Good ⟨s, phase⟩) (hw : Watched s) : Watched s' := by
  have hI : Inv s := hg.inv
  cases h with
  | clis s' hs =>
    rw [eraseUnusedClis_eq hI] at hs
    cases hs
    exact hw.cleaned
  | chs s' freed hs =>
    rw [eraseUnusedChs_ok hI] at hs
    cases hs
    exact hw.of_same rfl rfl (fun _ => Iff.rfl) fun _ h => .inl h
  | mark => exact hw.of_same (map_fd_markPolls _ _) rfl (fun _ => Iff.rfl) fun _ h => .inl h
  | accept r todo conn _ hconn =>
    obtain ⟨hfree, hlfd, -, -⟩ := acceptContract_iff.mp hconn
    refine ⟨?_, fun p hp => ?_, fun fd hfd => mem_clis_addNewClient.mpr (.inr (hw.marked fd hfd))⟩
    · show ((s.polls ++ [(⟨conn.fd, .pollin⟩ : Pollfd)]).map (·.fd)).Nodup
      rw [List.map_append, List.nodup_append]
      refine ⟨hw.nodup, List.nodup_singleton _, ?_⟩
      intro fd hfd fd' hfd' he
      obtain ⟨p, hp, rfl⟩ := List.mem_map.mp hfd
      have heq : p.fd = conn.fd := he.trans (List.mem_singleton.mp hfd')
      rcases hw.known p hp with h | h
      · exact hlfd (heq.symm.trans h)
      · exact hfree (heq ▸ h)
    · rw [mem_clis_addNewClient]
      rcases List.mem_append.mp hp with h | h
      · exact (hw.known p h).imp_right .inr
      · rw [List.mem_singleton.mp h]
        exact .inr (.inl rfl)
  | recvClosed fd r todo c d _ hc hd =>
    rw [deref_of_cliAt hI (cliAt_of_clis hI hc)] at hd
    cases hd
    refine hw.of_same rfl rfl (fun _ => Iff.rfl) fun fd' h => ?_
    rcases mem_markToErase.mp h with rfl | h
    · exact .inr (hI.fd_eq fd c hc ▸ mem_of_getElem?_clis hc)
    · exact .inl h
  | recv fd r todo c chunk s' lines _ hc _ hs =>
    rw [receiveBuf_ok hI (cliAt_of_clis hI hc)] at hs
    cases hs
    exact hw.of_same rfl rfl (fun fd' => mem_clis_updCli fd') fun _ h => .inl h
  | send fd r todo c n d s' _ _ hc _ _ hs =>
    rw [sendPreparedResps_eq hI (cliAt_of_clis hI hc)] at hs
    cases hs
    exact hw.of_same (map_fd_pollsSent n) rfl (fun fd' => mem_clis_updCli fd') fun _ h => .inl h
  | cmd x line lines todo s' hs =>
    obtain ⟨⟨c, hc⟩, -⟩ := hg.author x (line :: lines) todo rfl
    have hmark := mem_fdsToErase_execLine hI hc hs
    obtain ⟨u, -, rfl, -, -, hsteps⟩ := execLine_run hI hc hs
    have hsame := hsteps.sameServer
    refine hw.of_same (congrArg _ hsame.polls) hsame.fdForNewClis
      (fun fd => (mem_clis_updCli fd).trans (hsame.fds fd)) fun fd h => ?_
    rcases (hmark fd).mp h with h | ⟨rfl, -⟩
    · exact .inl h
    · obtain ⟨fd', hfd'⟩ := mem_clients.mp (cliAt_mem hc).1
      exact .inr (hI.fd_eq fd' c hfd' ▸ mem_of_getElem?_clis hfd')
  | poll | again | acceptError | recvError | idle | done => exact hw

/-- **Every transition keeps the marked clients quiet**, if no line follows one that marks. -/
theorem Move.quiet (h : Move s phase i s' phase') (hg : Good ⟨s, phase⟩) (hw : Watched s)
    (hq : phase.Quiet s) (hclean : Clean ⟨s, phase⟩ i) : phase'.Quiet s' := by
  have hI : Inv s := hg.inv
  cases h with
  | clis s' hs =>
    rw [eraseUnusedClis_eq hI] at hs
    cases hs
    intro fd hfd
    obtain ⟨hm, c, hc, hb⟩ := mem_fdsToErase_cleaned.mp hfd
    refine ⟨c, ?_, hb⟩
    rw [getElem?_clis_cleaned, if_neg, hc]
    rintro ⟨-, hgone⟩
    unfold gone at hgone
    rw [hc] at hgone
    exact hb (by simpa using hgone)
  | chs s' freed hs =>
    rw [eraseUnusedChs_ok hI] at hs
    cases hs
    exact hq
  | mark =>
    intro fd hfd
    obtain ⟨c, hc, hb⟩ := hq fd hfd
    exact asksOut_markPolls s.clis.toList s.polls hw.nodup
      (.inr ⟨c, ExtTreeMap.mem_toList_iff_getElem?_eq_some.mpr hc, hb⟩)
  | poll rs hlen hcontract =>
    refine ⟨?_, fun e he hin hm => ?_⟩
    · rw [List.map_fst_zip (by rw [List.length_map]; omega)]
      exact hw.nodup
    · -- what is readable was asked for
      rw [List.zip_map_left, List.mem_map] at he
      obtain ⟨⟨p, r⟩, hp, rfl⟩ := he
      have hasked := hcontract (p, r) hp
      unfold pollContract at hasked
      simp only [decide_eq_true_eq] at hasked
      have hout := hq p.fd hm p (List.of_mem_zip hp).1 rfl
      rw [hasked.1 hin] at hout
      cases hout
  | again => trivial
  | acceptError r todo _ => trivial
  | accept r todo conn _ hconn => trivial
  | recvError fd r todo _ =>
    obtain ⟨hnodup, hmarks⟩ := hq
    exact ⟨(List.nodup_cons.mp hnodup).2, fun e he => hmarks e (List.mem_cons_of_mem _ he)⟩
  | recvClosed fd r todo c d _ hc hd =>
    obtain ⟨hnodup, hmarks⟩ := hq
    rw [List.map_cons, List.nodup_cons] at hnodup
    rw [deref_of_cliAt hI (cliAt_of_clis hI hc)] at hd
    cases hd
    refine ⟨hnodup.2, fun e he hin h => ?_⟩
    rcases mem_markToErase.mp h with he' | h
    · exact hnodup.1 (List.mem_map.mpr ⟨e, he, he'.trans (hI.fd_eq fd c hc)⟩)
    · exact hmarks e (List.mem_cons_of_mem _ he) hin h
  | recv fd r todo c chunk s' lines hr hc _ hs =>
    obtain ⟨hnodup, hmarks⟩ := hq
    rw [List.map_cons, List.nodup_cons] at hnodup
    have hat := cliAt_of_clis hI hc
    rw [receiveBuf_ok hI hat] at hs
    cases hs
    refine ⟨hnodup.2, fun e he => hmarks e (List.mem_cons_of_mem _ he), fun d hd => ?_⟩
    obtain ⟨-, -, hat'⟩ := inv_tidy_put (e := { c with
        bufRecv := (splitBufToCmds c.bufRecv (c.bufRecv ++ chunk)).2 }) hI hg.tidy hat rfl rfl rfl
      ⟨rfl, rfl, rfl, rfl⟩
    rw [hat'] at hd
    cases hd
    have hcfd : c.fd = fd := hI.fd_eq fd c hc
    exact ⟨hcfd ▸ hnodup.1, fun _ => hcfd ▸ hmarks (fd, r) (by simp) hr⟩
  | send fd r todo c n d s' _ _ hc _ _ hs =>
    obtain ⟨hnodup, hmarks⟩ := hq
    rw [sendPreparedResps_eq hI (cliAt_of_clis hI hc)] at hs
    cases hs
    exact ⟨(List.nodup_cons.mp hnodup).2, fun e he => hmarks e (List.mem_cons_of_mem _ he)⟩
  | idle fd r todo _ _ =>
    obtain ⟨hnodup, hmarks⟩ := hq
    exact ⟨(List.nodup_cons.mp hnodup).2, fun e he => hmarks e (List.mem_cons_of_mem _ he)⟩
  | done x todo => exact ⟨hq.1, hq.2.1⟩
  | cmd x line lines todo s' hs =>
    obtain ⟨hnodup, hmarks, hauthor⟩ := hq
    obtain ⟨⟨c, hc⟩, -⟩ := hg.author x (line :: lines) todo rfl
    obtain ⟨hnot, hunmarked⟩ := hauthor c hc
    have hmark := mem_fdsToErase_execLine hI hc hs
    obtain ⟨u, -, rfl, -, -, hsteps⟩ := execLine_run hI hc hs
    refine ⟨hnodup, fun e he hin h => ?_, fun d hd => ?_⟩
    · rcases (hmark e.1).mp h with h | ⟨he', -⟩
      · exact hmarks e he hin h
      · exact hnot (List.mem_map.mpr ⟨e, he, he'⟩)
    · rw [cliAt_note, if_pos rfl] at hd
      obtain ⟨d₀, hd₀, rfl⟩ := Option.map_eq_some_iff.mp hd
      obtain ⟨d₁, hd₁, hlater⟩ := hsteps.later_of hc
      rw [hd₀] at hd₁
      cases hd₁
      show d₀.fd ∉ _ ∧ (_ → d₀.fd ∉ _)
      rw [hlater.fd]
      refine ⟨hnot, fun hne h => ?_⟩
      rcases (hmark c.fd).mp h with h | ⟨-, hoff⟩
      · exact hunmarked (by simp) h
      · obtain ⟨next, rest, rfl⟩ := List.exists_cons_of_ne_nil hne
        exact hclean rfl x line next rest todo c rfl hc hoff

/-! ## The runs -/

theorem watched_start (pass : Str) (lfd : Nat) : Watched (start pass lfd).srv := by
  refine ⟨List.nodup_singleton lfd, fun p hp => ?_, fun fd hfd => ?_⟩
  · rw [List.mem_singleton.mp hp]
    exact .inl rfl
  · exact absurd hfd ExtTreeSet.not_mem_empty

/-- In the runs in which no line follows one that marks its author, marked clients are quiet. -/
theorem quiet_run (is : List Input) (hclean : Runs.Along step Clean is (start pass lfd))
    (h : runServer pass lfd is = .ok cfg) : Good cfg ∧ Watched cfg.srv ∧ cfg.phase.Quiet cfg.srv := by
  refine Runs.along_invariant (I := fun cfg => Good cfg ∧ Watched cfg.srv ∧ cfg.phase.Quiet cfg.srv)
    (fun cfg i cfg' hI hP hstep => ?_) is _ cfg ⟨good_start pass lfd, watched_start pass lfd, trivial⟩
    hclean h
  have hmove := move_of_step hstep
  exact ⟨good_step cfg i cfg' hI.1 hstep, hmove.watched hI.1 hI.2.1, hmove.quiet hI.1 hI.2.1 hI.2.2 hP⟩

theorem inert_of_quiet (hq : cfg.phase.Quiet cfg.srv) : Inert cfg := by
  intro x line lines todo c hphase hc
  rw [hphase] at hq
  exact (hq.2.2 c hc).2 (by simp)

/-- A line behind one that marks its author is executed for a marked client. -/
theorem not_inert_of_signsOff {next line : Str} {lines : List Str} {todo : List (Nat × Revents)}
    (hg : Good cfg) (hphase : cfg.phase = .cmds x (line :: next :: lines) todo)
    (hc : cfg.srv.cliAt x = some c) (hoff : SignsOff cfg.srv c (splitCmdToArgs line)) :
    ∃ cfg', step cfg .next = .ok cfg' ∧ ¬ Inert cfg' := by
  obtain ⟨s, phase⟩ := cfg
  simp only at hphase hc hoff
  subst hphase
  have hI : Inv s := hg.inv
  have hsafe : CmdSafe s x (splitCmdToArgs line) := by
    rcases hoff with h | ⟨h, -⟩
    · exact cmdSafe_of_other h (by decide)
    · exact cmdSafe_of_other h (by decide)
  obtain ⟨s', hs'⟩ := (execLine_ok_iff hI hc).mpr hsafe
  refine ⟨⟨s', .cmds x (next :: lines) todo⟩, ?_, fun hinert => ?_⟩
  · show (liftFault (s.execLine x line) >>= _) = _
    rw [hs']
    rfl
  · obtain ⟨u, -, hu, -, -, hsteps⟩ := execLine_run hI hc hs'
    obtain ⟨d, hd, hlater⟩ := hsteps.later_of hc
    have hat : s'.cliAt x = some { d with hist :=
        { d.hist with cmds := d.hist.cmds ++ [splitCmdToArgs line] } } := by
      rw [hu, cliAt_note, if_pos rfl, hd]
      rfl
    refine hinert x next lines todo _ rfl hat ?_
    show d.fd ∈ s'.fdsToErase
    rw [hlater.fd, mem_fdsToErase_execLine hI hc hs']
    exact .inr ⟨rfl, hoff⟩

/-- **In a run no command of a marked client is executed, exactly if no line follows, in the same
buffer, one that marks its author.** -/
theorem inert_iff (pass : Str) (lfd : Nat) (is : List Input) :
    (∀ js ks cfg, is = js ++ ks → runServer pass lfd js = .ok cfg → Inert cfg) ↔
      Runs.Along step Clean is (start pass lfd) := by
  constructor
  · intro h
    rw [Runs.along_iff]
    intro js i ks cfg heq hrun hi x line next lines todo c hphase hc hoff
    subst hi
    have hr : Reachable pass lfd cfg := ⟨js, hrun⟩
    obtain ⟨cfg', hstep, hno⟩ := not_inert_of_signsOff hr.good hphase hc hoff
    refine hno (h (js ++ [.next]) ks cfg' (by rw [heq]; simp) ?_)
    exact Runs.run_append_ok.mpr ⟨cfg, hrun, Runs.run_cons_ok.mpr ⟨cfg', hstep, rfl⟩⟩
  · rintro h js ks cfg rfl hrun
    have hjs := (Runs.along_iff js _).mpr fun js' i ks' t heq hrun' =>
      (Runs.along_iff (js ++ ks) _).mp h js' i (ks' ++ ks) t (by rw [heq]; simp) hrun'
    exact inert_of_quiet (quiet_run js hjs hrun).2.2

/-- A `PASS` with a wrong password registers its author, whose next line opens a channel. -/
theorem marked_joins : ¬ ∀ (pass : Str) (lfd : Nat) (cfg : Config), Reachable pass lfd cfg →
    Inert cfg := by
  intro hall
  obtain ⟨cfg, hrun, hP⟩ := exists_run (str "2") 3
    (connect 0 alice ++ (wait [silent, readable] ++
      [.next, .recv (.data (str "NICK al\r\nUSER u 0 * U\r\nPASS 1\r\nJOIN #c\r\n")), .next, .next, .next]))
    (fun cfg => cfg.upcoming = some (alice.addr, str "JOIN #c") &&
      (cfg.srv.cliAt alice.addr).any fun c => c.fd ∈ cfg.srv.fdsToErase) (by decide +kernel)
  simp only [Bool.and_eq_true, Option.any_eq_true, decide_eq_true_eq] at hP
  obtain ⟨hnext, c, hc, hmark⟩ := hP
  obtain ⟨lines, todo, hphase⟩ := Config.upcoming_eq_some.mp hnext
  exact hall _ _ cfg ⟨_, hrun⟩ _ _ _ _ c hphase hc hmark

end FtIrc
