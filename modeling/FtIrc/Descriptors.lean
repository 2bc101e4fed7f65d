import FtIrc.Inert
import FtIrc.NullPointers

/-!
# Descriptors

`clis`, `polls` and `fdsToEraseNextIteration` are updated at different places of `run`.  `Bookkept` is how
they agree at every moment of it; the loop over `polls` then finds a client at each of its entries but
that of the listener (`Phase.Known`), so that `clis.at` never throws.
-/

namespace FtIrc

open Std Outcome Server

variable {s s' : Server} {c : Cli} {fd lfd : Nat} {ps : List Pollfd} {p : Pollfd} {pass : Str}
  {cfg cfg' : Config} {i : Input} {phase phase' : Phase} {r : Revents}

/-- The listener and the clients have an entry in `polls`, and the listener is only asked for
connections. -/
structure Bookkept (lfd : Nat) (s : Server) : Prop where
  watched : Watched s
  listener : s.fdForNewClis = lfd
  closed : lfd ∉ s.clis
  entry : ∀ fd, fd = lfd ∨ fd ∈ s.clis → fd ∈ s.polls.map (·.fd)
  accepts : ∀ p ∈ s.polls, p.fd = lfd → p.events = .pollin

/-- The entries that the loop over `polls` has still to visit. -/
def Phase.Known (lfd : Nat) (s : Server) : Phase → Prop
  | .events todo | .cmds _ _ todo => ∀ e ∈ todo, e.1 ∈ s.clis ∨ (e.1 = lfd ∧ e.2.pollout = false)
  | _ => True

/-! ## The entries of `polls` -/

theorem mem_setEvents (ev : Events) : ∀ ps : List Pollfd, p ∈ setEvents fd ev ps → p ∈ ps ∨ p.fd = fd
  | [], h => .inl h
  | q :: ps, h => by
    unfold setEvents at h
    split at h
    · rename_i hq
      rcases List.mem_cons.mp h with rfl | h
      · exact .inr hq
      · exact .inl (List.mem_cons_of_mem _ h)
    · rcases List.mem_cons.mp h with rfl | h
      · exact .inl (List.mem_cons_self ..)
      · exact (mem_setEvents ev ps h).imp_left (List.mem_cons_of_mem _)

theorem mem_markPolls : ∀ (es : List (Nat × Cli)) (ps : List Pollfd),
    p ∈ es.foldl (fun ps e => if 0 < e.2.bufToSend.length then setEvents e.1 .pollout ps else ps) ps →
      p ∈ ps ∨ p.fd ∈ es.map (·.1)
  | [], _, h => .inl h
  | e :: es, ps, h => by
    rw [List.foldl_cons] at h
    rw [List.map_cons, List.mem_cons]
    rcases mem_markPolls es _ h with h | h
    · split at h
      · exact (mem_setEvents _ ps h).imp_right .inl
      · exact .inl h
    · exact .inr (.inr h)

theorem mem_pollsSent {n : Int} (h : p ∈ pollsSent s c n) : p ∈ s.polls ∨ p.fd = c.fd := by
  unfold pollsSent at h
  split at h
  · obtain ⟨q, hq, rfl⟩ := List.mem_map.mp h
    split
    · rename_i he
      exact .inr he
    · exact .inl hq
  · exact .inl h

/-- Removing descriptors from `polls` leaves the entries of the others. -/
theorem mem_foldl_erasePoll : ∀ (fds : List Nat) (ps : List Pollfd), p ∈ ps → p.fd ∉ fds →
    p ∈ fds.foldl (fun ps fd => ps.eraseP (·.fd = fd)) ps
  | [], _, h, _ => h
  | fd :: fds, ps, h, hno => by
    rw [List.mem_cons, not_or] at hno
    rw [List.foldl_cons]
    apply mem_foldl_erasePoll fds _ _ hno.2
    exact (List.mem_eraseP_of_neg (by simpa using hno.1)).mpr h

/-! ## The transitions -/

/-- A transition that changes the events of the entries of clients, at most. -/
theorem Bookkept.of_same (h : Bookkept lfd s) (hw : Watched s')
    (hpolls : s'.polls.map (·.fd) = s.polls.map (·.fd)) (hlfd : s'.fdForNewClis = s.fdForNewClis)
    (hclis : ∀ fd, fd ∈ s'.clis ↔ fd ∈ s.clis)
    (hevents : ∀ p ∈ s'.polls, p ∈ s.polls ∨ p.fd ∈ s.clis) : Bookkept lfd s' := by
  refine ⟨hw, hlfd.trans h.listener, fun hin => h.closed ((hclis lfd).mp hin), fun fd hfd => ?_,
    fun p hp he => ?_⟩
  · rw [hpolls]
    exact h.entry fd (hfd.imp_right (hclis fd).mp)
  · rcases hevents p hp with hp | hp
    · exact h.accepts p hp he
    · exact absurd (he ▸ hp) h.closed

theorem Bookkept.cleaned (h : Bookkept lfd s) : Bookkept lfd s.cleaned := by
  have hin : ∀ fd, fd ∈ s.cleaned.clis → fd ∈ s.clis ∧ ¬ (fd ∈ s.fdsToErase ∧ s.gone fd = true) := by
    intro fd hfd
    rw [ExtTreeMap.mem_iff_isSome_getElem?, getElem?_clis_cleaned] at hfd
    split at hfd
    · cases hfd
    · rename_i hno
      exact ⟨ExtTreeMap.mem_iff_isSome_getElem?.mpr hfd, hno⟩
  have hmem : ∀ p ∈ s.cleaned.polls, p ∈ s.polls :=
    (foldl_erasePoll (s.fdsToErase.toList.filter s.gone) s.polls h.watched.nodup).1.subset
  refine ⟨h.watched.cleaned, h.listener, fun hl => h.closed (hin lfd hl).1, fun fd hfd => ?_,
    fun p hp => h.accepts p (hmem p hp)⟩
  obtain ⟨p, hp, rfl⟩ := List.mem_map.mp (h.entry fd (hfd.imp_right fun hfd => (hin fd hfd).1))
  refine List.mem_map.mpr ⟨p, ?_, rfl⟩
  apply mem_foldl_erasePoll _ _ hp
  intro he
  obtain ⟨hm, hgone⟩ := List.mem_filter.mp he
  rw [ExtTreeSet.mem_toList] at hm
  rcases hfd with hfd | hfd
  · -- the listener is not marked
    exact h.closed (hfd ▸ h.watched.marked p.fd hm)
  · exact (hin p.fd hfd).2 ⟨hm, hgone⟩

/-- **Every transition keeps the books.** -/
theorem Move.bookkept (h : Move s phase i s' phase') (hg : Good ⟨s, phase⟩) (hb : Bookkept lfd s) :
    Bookkept lfd s' := by
  have hI : Inv s := hg.inv
  have hw := h.watched hg hb.watched
  cases h with
  | clis s' hs =>
    rw [eraseUnusedClis_eq hI] at hs
    cases hs
    exact hb.cleaned
  | chs s' freed hs =>
    rw [eraseUnusedChs_ok hI] at hs
    cases hs
    exact hb.of_same hw rfl rfl (fun _ => Iff.rfl) fun _ hp => .inl hp
  | mark =>
    refine hb.of_same hw (map_fd_markPolls _ _) rfl (fun _ => Iff.rfl) fun p hp => ?_
    refine (mem_markPolls _ _ hp).imp_right fun hp => ?_
    obtain ⟨e, he, hfd⟩ := List.mem_map.mp hp
    exact hfd ▸ mem_of_getElem?_clis (ExtTreeMap.mem_toList_iff_getElem?_eq_some.mp he)
  | accept r todo conn _ hconn =>
    obtain ⟨hfree, hlfd, -, -⟩ := acceptContract_iff.mp hconn
    refine ⟨hw, hb.listener, fun hin => ?_, fun fd hfd => ?_, fun p hp he => ?_⟩
    · rcases mem_clis_addNewClient.mp hin with he | hin
      · exact hlfd (he.symm.trans hb.listener.symm)
      · exact hb.closed hin
    · show fd ∈ (s.polls ++ [(⟨conn.fd, .pollin⟩ : Pollfd)]).map (·.fd)
      rw [List.map_append, List.mem_append]
      rcases hfd with hfd | hfd
      · exact .inl (hb.entry fd (.inl hfd))
      · rcases mem_clis_addNewClient.mp hfd with rfl | hfd
        · exact .inr (List.mem_singleton.mpr rfl)
        · exact .inl (hb.entry fd (.inr hfd))
    · rcases List.mem_append.mp hp with hp | hp
      · exact hb.accepts p hp he
      · rw [List.mem_singleton.mp hp]
  | recvClosed fd r todo c d _ hc hd =>
    exact hb.of_same hw rfl rfl (fun _ => Iff.rfl) fun _ hp => .inl hp
  | recv fd r todo c chunk s' lines _ hc _ hs =>
    rw [receiveBuf_ok hI (cliAt_of_clis hI hc)] at hs
    cases hs
    exact hb.of_same hw rfl rfl (fun fd' => mem_clis_updCli fd') fun _ hp => .inl hp
  | send fd r todo c n d s' _ _ hc _ _ hs =>
    rw [sendPreparedResps_eq hI (cliAt_of_clis hI hc)] at hs
    cases hs
    refine hb.of_same hw (map_fd_pollsSent n) rfl (fun fd' => mem_clis_updCli fd') fun p hp => ?_
    refine (mem_pollsSent hp).imp_right fun he => ?_
    rw [he, hI.fd_eq fd c hc]
    exact mem_of_getElem?_clis hc
  | cmd x line lines todo s' hs =>
    obtain ⟨⟨c, hc⟩, -⟩ := hg.author x (line :: lines) todo rfl
    obtain ⟨u, -, rfl, -, -, hsteps⟩ := execLine_run hI hc hs
    have hsame := hsteps.sameServer
    refine hb.of_same hw (congrArg _ hsame.polls) hsame.fdForNewClis
      (fun fd => (mem_clis_updCli fd).trans (hsame.fds fd)) fun p hp => .inl ?_
    exact hsame.polls ▸ hp
  | poll | again | acceptError | recvError | idle | done => exact hb

theorem Move.known (h : Move s phase i s' phase') (hg : Good ⟨s, phase⟩) (hb : Bookkept lfd s)
    (hk : phase.Known lfd s) : phase'.Known lfd s' := by
  have hI : Inv s := hg.inv
  cases h with
  | clis | chs | mark | again | acceptError | accept => trivial
  | poll rs hlen hcontract =>
    intro e he
    rw [List.zip_map_left, List.mem_map] at he
    obtain ⟨⟨p, r⟩, hp, rfl⟩ := he
    have hpolls : p ∈ s.polls := (List.of_mem_zip hp).1
    rcases hb.watched.known p hpolls with hfd | hfd
    · -- what is writable was asked for
      rw [hb.listener] at hfd
      refine .inr ⟨hfd, ?_⟩
      have hasked := hcontract (p, r) hp
      unfold pollContract at hasked
      simp only [decide_eq_true_eq] at hasked
      have hin := hb.accepts p hpolls hfd
      cases hr : r.pollout with
      | false => exact hr
      | true =>
        have hout := hasked.2 hr
        rw [hin] at hout
        cases hout
    · exact .inl hfd
  | recvError fd r todo _ => exact fun e he => hk e (List.mem_cons_of_mem _ he)
  | recvClosed fd r todo c d _ hc hd => exact fun e he => hk e (List.mem_cons_of_mem _ he)
  | recv fd r todo c chunk s' lines _ hc _ hs =>
    rw [receiveBuf_ok hI (cliAt_of_clis hI hc)] at hs
    cases hs
    intro e he
    exact (hk e (List.mem_cons_of_mem _ he)).imp_left (mem_clis_updCli e.1).mpr
  | send fd r todo c n d s' _ _ hc _ _ hs =>
    rw [sendPreparedResps_eq hI (cliAt_of_clis hI hc)] at hs
    cases hs
    intro e he
    exact (hk e (List.mem_cons_of_mem _ he)).imp_left (mem_clis_updCli e.1).mpr
  | idle fd r todo _ _ => exact fun e he => hk e (List.mem_cons_of_mem _ he)
  | done x todo => exact hk
  | cmd x line lines todo s' hs =>
    obtain ⟨⟨c, hc⟩, -⟩ := hg.author x (line :: lines) todo rfl
    obtain ⟨u, -, rfl, -, -, hsteps⟩ := execLine_run hI hc hs
    intro e he
    exact (hk e he).imp_left ((mem_clis_updCli e.1).trans (hsteps.sameServer.fds e.1)).mpr

/-! ## `clis.at` -/

theorem cliOfFd_found (h : fd ∈ s.clis) : ∃ x, s.cliOfFd fd = .ok x := by
  obtain ⟨c, hc⟩ := Option.isSome_iff_exists.mp (ExtTreeMap.mem_iff_isSome_getElem?.mp h)
  unfold cliOfFd
  rw [hc]
  exact ⟨c.addr, rfl⟩

theorem known_found (hb : Bookkept lfd s) (hk : fd ∈ s.clis ∨ fd = lfd ∧ r.pollout = false)
    (hr : r.pollin = true ∧ fd ≠ s.fdForNewClis ∨ r.pollin = false ∧ r.pollout = true) : fd ∈ s.clis := by
  rcases hk with hk | ⟨rfl, hout⟩
  · exact hk
  · rcases hr with ⟨-, hne⟩ | ⟨-, hr⟩
    · exact absurd hb.listener.symm hne
    · rw [hout] at hr
      cases hr

/-! ## The runs -/

theorem bookkept_start (pass : Str) (lfd : Nat) : Bookkept lfd (start pass lfd).srv := by
  refine ⟨watched_start pass lfd, rfl, ExtTreeMap.not_mem_empty, fun fd hfd => ?_, fun p hp _ => ?_⟩
  · rcases hfd with rfl | hfd
    · exact List.mem_singleton.mpr rfl
    · exact absurd hfd ExtTreeMap.not_mem_empty
  · rw [List.mem_singleton.mp hp]

theorem Reachable.bookkept (h : Reachable pass lfd cfg) :
    Bookkept lfd cfg.srv ∧ cfg.phase.Known lfd cfg.srv := by
  obtain ⟨is, his⟩ := h
  have hinv := Runs.run_invariant (I := fun cfg => Good cfg ∧ Bookkept lfd cfg.srv ∧ cfg.phase.Known lfd cfg.srv)
    (fun cfg i cfg' hI hstep => ?_) is _ cfg ⟨good_start pass lfd, bookkept_start pass lfd, trivial⟩ his
  · exact hinv.2
  · obtain ⟨hg, hb, hk⟩ := hI
    have hmove := move_of_step hstep
    exact ⟨good_step cfg i cfg' hg hstep, hmove.bookkept hg hb, hmove.known hg hb hk⟩

/-- The descriptors of `polls` are that of the listener and the keys of `clis`. -/
theorem Bookkept.polls_perm (h : Bookkept lfd s) : (s.polls.map (·.fd)).Perm (lfd :: s.clis.keys) := by
  have hkeys : s.clis.keys.Nodup := ExtTreeMap.nodup_keys
  have hnodup : (lfd :: s.clis.keys).Nodup :=
    List.nodup_cons.mpr ⟨fun hl => h.closed (ExtTreeMap.mem_keys.mp hl), hkeys⟩
  apply (List.perm_ext_iff_of_nodup h.watched.nodup hnodup).mpr
  intro fd
  rw [List.mem_cons, ExtTreeMap.mem_keys]
  constructor
  · intro hfd
    obtain ⟨p, hp, rfl⟩ := List.mem_map.mp hfd
    exact h.listener ▸ h.watched.known p hp
  · exact h.entry fd

/-- `clis.at` finds what it is asked for. -/
theorem Reachable.clis_at (h : Reachable pass lfd cfg) (i : Input) :
    step cfg i ≠ .error (.fault .outOfRange) := by
  intro hstep
  obtain ⟨hb, hk⟩ := h.bookkept
  rcases step_fault h.good hstep with ⟨hnull, -⟩ | ⟨fd, r, todo, hphase, he, hr⟩
  · rcases hnull with h | h | h <;> cases h
  · rw [hphase] at hk
    obtain ⟨x, hx⟩ := cliOfFd_found (known_found hb (hk (fd, r) (List.mem_cons_self ..)) hr)
    rw [hx] at he
    cases he

/-- What a new client starts with. -/
structure Fresh (s : Server) (conn : Conn) : Prop where
  record : s.clis[conn.fd]? = some (Cli.new conn.addr conn.fd (inetNtoa conn.ip))
  channels : ∀ k, ¬ On s conn.addr k ∧ ¬ Op s conn.addr k
  unmarked : conn.fd ∉ s.fdsToErase

theorem fresh_addNewClient {conn : Conn} (hI : Inv s) (hw : Watched s)
    (h : acceptContract s conn = true) : Fresh (s.addNewClient conn) conn := by
  obtain ⟨hfree, -, -, haddr⟩ := acceptContract_iff.mp h
  have hoff : ∀ k, ¬ On s conn.addr k := by
    rintro k ⟨ch, hch, hin⟩
    obtain ⟨c, hc, -⟩ := hI.member k ch hch conn.addr hin
    rw [haddr] at hc
    cases hc
  refine ⟨?_, fun k => ⟨hoff k, ?_⟩, fun hm => hfree (hw.marked conn.fd hm)⟩
  · rw [getElem?_clis_addNewClient, if_pos rfl]
  · rintro ⟨ch, hch, hadm⟩
    exact hoff k ⟨ch, hch, hI.adm k ch hch conn.addr hadm⟩

theorem Move.fresh {conn : Conn} (h : Move s phase (.accept (some conn)) s' phase') (hI : Inv s)
    (hw : Watched s) : Fresh s' conn := by
  cases h with
  | accept r todo _ _ hconn => exact fresh_addNewClient hI hw hconn

/-- **The descriptors of a reachable configuration**: `polls` lists the listener and the clients, each
once; only clients are marked; `clis.at` never throws; and a client that is accepted starts afresh. -/
theorem descriptors (hr : Reachable pass lfd cfg) :
    (cfg.srv.polls.map (·.fd)).Perm (lfd :: cfg.srv.clis.keys) ∧
    (lfd :: cfg.srv.clis.keys).Nodup ∧
    (∀ fd ∈ cfg.srv.fdsToErase, fd ∈ cfg.srv.clis) ∧
    (∀ (fd : Nat) (c : Cli), cfg.srv.clis[fd]? = some c → c.fd = fd) ∧
    (∀ i, step cfg i ≠ .error (.fault .outOfRange)) ∧
    ∀ conn cfg', step cfg (.accept (some conn)) = .ok cfg' → Fresh cfg'.srv conn := by
  obtain ⟨hb, -⟩ := hr.bookkept
  have hperm := hb.polls_perm
  refine ⟨hperm, hperm.nodup_iff.mp hb.watched.nodup, hb.watched.marked, hr.good.inv.fd_eq, hr.clis_at,
    fun conn cfg' hstep => ?_⟩
  exact (move_of_step hstep).fresh hr.good.inv hb.watched

/-- The descriptor of a client that has left is given to another. -/
def recycled : Conn := ⟨4, 200, (127, 0, 0, 1)⟩

/-- A client is accepted on the descriptor of one that was on a channel. -/
theorem descriptors_recycled : ∃ cfg cfg', Reachable (str "2") 3 cfg ∧
    step cfg (.accept (some recycled)) = .ok cfg' ∧
    (cfg.srv.polls.map (·.fd)).Perm (3 :: cfg.srv.clis.keys) ∧ Fresh cfg'.srv recycled := by
  obtain ⟨cfg, hrun, hP⟩ := exists_run (str "2") 3 (connect 0 alice ++
    say 0 0 5 (register "al" ++ str "JOIN #c\r\nQUIT\r\n") ++ drain 0 0 157 ++ wait [readable])
    (fun cfg => (step cfg (.accept (some recycled))).toOption.isSome) (by decide +kernel)
  obtain ⟨cfg', hstep⟩ := Option.isSome_iff_exists.mp hP
  have hr : Reachable (str "2") 3 cfg := ⟨_, hrun⟩
  obtain ⟨hperm, -, -, -, -, hfresh⟩ := descriptors hr
  exact ⟨cfg, cfg', hr, eq_ok_of_toOption hstep, hperm, hfresh _ _ (eq_ok_of_toOption hstep)⟩

end FtIrc
