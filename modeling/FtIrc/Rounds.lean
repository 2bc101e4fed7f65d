import FtIrc.Progress
import FtIrc.Tracking

/-!
# One iteration of `run`

What the loop over `polls` does for the clients.

* `wakeup` — at every call of `poll`, as long as no `send` has failed, the entry of a client asks for `POLLOUT` if
  something waits for the client, and for `POLLIN` if not.
* `starved` — the listener is the first entry of `polls` and its `break` ends the loop, so while connections keep coming
  nothing is received from a client, executed for it or sent to it.
* `attended_once`, `reads_or_writes` — an iteration in which no connection comes serves every ready client once, in the
  order of `polls`: it is read from where it is readable, and else it is sent to.
* `farewell` — a client is removed exactly when it is marked and everything prepared for it has been accepted.
-/

namespace FtIrc

open Std Outcome Server

variable {s s' : Server} {x : Ptr} {c d : Cli} {fd lfd : Nat} {r : Revents} {ps : List Pollfd} {p : Pollfd}
  {todo : List (Nat × Revents)} {phase phase' : Phase} {i : Input} {cfg cfg₀ cfg' : Config} {pass : Str}
  {is : List Input} {fds log : List Nat} {rs : List Revents}

/-! ## The listener is the first entry -/

/-- The descriptors in `polls`, that of the listener in front. -/
def ListenerFirst (s : Server) : Prop := ∃ fds, s.polls.map (·.fd) = s.fdForNewClis :: fds

theorem foldl_erasePoll_cons : ∀ (fds : List Nat) (ps : List Pollfd), p.fd ∉ fds →
    fds.foldl (fun ps fd => ps.eraseP (·.fd = fd)) (p :: ps) = p :: fds.foldl (fun ps fd => ps.eraseP (·.fd = fd)) ps
  | [], _, _ => rfl
  | fd :: fds, ps, h => by
    rw [List.mem_cons, not_or] at h
    rw [List.foldl_cons, List.foldl_cons, List.eraseP_cons_of_neg (by simpa using h.1)]
    exact foldl_erasePoll_cons fds _ h.2

theorem Move.listenerFirst (h : Move s phase i s' phase') (hg : Good ⟨s, phase⟩) (hb : Bookkept lfd s)
    (hl : ListenerFirst s) : ListenerFirst s' := by
  have hI : Inv s := hg.inv
  obtain ⟨fds, hfds⟩ := hl
  cases h with
  | clis s' hs =>
    rw [eraseUnusedClis_eq hI] at hs
    cases hs
    obtain ⟨p, ps, hp⟩ : ∃ p ps, s.polls = p :: ps := by
      cases hpolls : s.polls with
      | nil =>
        rw [hpolls] at hfds
        cases hfds
      | cons p ps => exact ⟨p, ps, rfl⟩
    rw [hp, List.map_cons] at hfds
    obtain ⟨hhead, -⟩ := List.cons.inj hfds
    refine ⟨((s.fdsToErase.toList.filter s.gone).foldl (fun ps fd => ps.eraseP (·.fd = fd)) ps).map (·.fd), ?_⟩
    show ((s.fdsToErase.toList.filter s.gone).foldl (fun ps fd => ps.eraseP (·.fd = fd)) s.polls).map (·.fd) = _
    rw [hp, foldl_erasePoll_cons _ _ fun hin => ?_, List.map_cons, hhead]
    · rfl
    · -- the listener is not marked
      have hmark := ExtTreeSet.mem_toList.mp (List.mem_of_mem_filter hin)
      rw [hhead, hb.listener] at hmark
      exact hb.closed (hb.watched.marked lfd hmark)
  | chs s' freed hs =>
    rw [eraseUnusedChs_ok hI] at hs
    cases hs
    exact ⟨fds, hfds⟩
  | mark => exact ⟨fds, (map_fd_markPolls _ _).trans hfds⟩
  | accept r todo conn _ _ =>
    refine ⟨fds ++ [conn.fd], ?_⟩
    show (s.polls ++ [(⟨conn.fd, .pollin⟩ : Pollfd)]).map (·.fd) = _
    rw [List.map_append, hfds]
    rfl
  | recv fd r todo c chunk s' lines _ hc _ hs =>
    rw [receiveBuf_ok hI (cliAt_of_clis hI hc)] at hs
    cases hs
    exact ⟨fds, hfds⟩
  | send fd r todo c n d s' _ _ hc _ _ hs =>
    rw [sendPreparedResps_eq hI (cliAt_of_clis hI hc)] at hs
    cases hs
    exact ⟨fds, (map_fd_pollsSent n).trans hfds⟩
  | cmd x line lines todo s' hs =>
    obtain ⟨⟨c, hc⟩, -⟩ := hg.author x (line :: lines) todo rfl
    obtain ⟨u, -, rfl, -, -, hsteps⟩ := execLine_run hI hc hs
    have hsame := hsteps.sameServer
    refine ⟨fds, ?_⟩
    show u.polls.map (·.fd) = u.fdForNewClis :: fds
    rw [hsame.polls, hsame.fdForNewClis, hfds]
  | _ => exact ⟨fds, hfds⟩

theorem Reachable.listenerFirst (hr : Reachable pass lfd cfg) : ListenerFirst cfg.srv := by
  refine hr.invariant (I := fun t => ListenerFirst t.srv) ⟨[], rfl⟩ fun t i t' hrt hl hstep => ?_
  exact (move_of_step hstep).listenerFirst hrt.good hrt.bookkept.1 hl

/-! ## What is asked of `poll` -/

/-- Something waits for the client of a descriptor. -/
def Waits (s : Server) (fd : Nat) : Prop := ∃ c, s.clis[fd]? = some c ∧ c.bufToSend ≠ []

/-- The entries of `polls` the loop has still to look at. -/
def Phase.ahead : Phase → List (Nat × Revents)
  | .events todo | .cmds _ _ todo => todo
  | _ => []

/-- Where `run` stands: `POLLOUT` is asked for, and reported, only of clients for which something waits; and at `poll`
of all of them. -/
structure Wakes (s : Server) (phase : Phase) : Prop where
  asked : ∀ p ∈ s.polls, p.events = .pollout → Waits s p.fd
  once : (phase.ahead.map (·.1)).Nodup
  reported : ∀ e ∈ phase.ahead, e.2.pollout = true → Waits s e.1
  all : phase = .poll → ∀ fd, Waits s fd → AsksOut s.polls fd

/-- A transition after which something waits for the same clients, at least, and no more entries are to come. -/
theorem Wakes.of_more (h : Wakes s phase) (hpolls : s'.polls = s.polls) (hwaits : ∀ fd, Waits s fd → Waits s' fd)
    (htodo : phase'.ahead.Sublist phase.ahead) (hpoll : phase' ≠ .poll) : Wakes s' phase' := by
  refine ⟨fun p hp he => ?_, h.once.sublist (htodo.map _), fun e he hout => ?_, fun h => absurd h hpoll⟩
  · rw [hpolls] at hp
    exact hwaits _ (h.asked p hp he)
  · exact hwaits _ (h.reported e (htodo.subset he) hout)

theorem asked_of_contract (h : pollContract p r = true) :
    (r.pollin = true → p.events = .pollin) ∧ (r.pollout = true → p.events = .pollout) := of_decide_eq_true h

/-- What the loop of `markPollsToSendMsgsTo` changes. -/
theorem mem_markPolls_waits : ∀ (es : List (Nat × Cli)) (ps : List Pollfd),
    p ∈ es.foldl (fun ps e => if 0 < e.2.bufToSend.length then setEvents e.1 .pollout ps else ps) ps →
      p ∈ ps ∨ ∃ c, (p.fd, c) ∈ es ∧ c.bufToSend ≠ []
  | [], _, h => .inl h
  | e :: es, ps, h => by
    rw [List.foldl_cons] at h
    rcases mem_markPolls_waits es _ h with h | ⟨c, hc, hb⟩
    · split at h
      · rename_i hlen
        rcases mem_setEvents _ ps h with h | he
        · exact .inl h
        · exact .inr ⟨e.2, by rw [he]; exact List.mem_cons_self .., List.length_pos_iff.mp hlen⟩
      · exact .inl h
    · exact .inr ⟨c, List.mem_cons_of_mem _ hc, hb⟩

theorem waits_put {e : Cli} (hI : Inv s) (hc : s.clis[fd]? = some c) (he : c.bufToSend ≠ [] → e.bufToSend ≠ [])
    {fd' : Nat} (h : Waits s fd') : Waits (s.updCli c.addr fun _ => e) fd' := by
  obtain ⟨d, hd, hb⟩ := h
  by_cases hdc : d.addr = c.addr
  · have heq := hI.addr_inj d (mem_clients.mpr ⟨_, hd⟩) c (mem_clients.mpr ⟨_, hc⟩) hdc
    refine ⟨e, ?_, he (heq ▸ hb)⟩
    rw [getElem?_clis_updCli, hd, Option.map_some, if_pos hdc]
  · refine ⟨d, ?_, hb⟩
    rw [getElem?_clis_updCli, hd, Option.map_some, if_neg hdc]

/-- A command only adds to what waits. -/
theorem waits_execLine {line : Str} (hI : Inv s) (hc : s.cliAt x = some c) (h : s.execLine x line = .ok s')
    (hw : Waits s fd) : Waits s' fd := by
  obtain ⟨u, -, rfl, -, -, hsteps⟩ := execLine_run hI hc h
  obtain ⟨d, hd, hb⟩ := hw
  obtain ⟨e, he, hl⟩ := hsteps.later_of (cliAt_of_clis hI hd)
  have hue : u.clis[e.fd]? = some e := clis_of_cliAt (hsteps.inv hI).1 he
  rw [hl.fd, hI.fd_eq fd d hd] at hue
  obtain ⟨ms, hout, -⟩ := hl.out
  refine ⟨_, by rw [Server.note, getElem?_clis_updCli, hue, Option.map_some], ?_⟩
  have hne : e.bufToSend ≠ [] := by
    rw [hout]
    simp [hb]
  split
  · exact hne
  · exact hne

/-- **Every transition** keeps the requests for `POLLOUT` to those for whom something waits, unless `send` fails. -/
theorem Move.wakes (h : Move s phase i s' phase') (hg : Good ⟨s, phase⟩) (hb : Bookkept lfd s) (hw : Wakes s phase)
    (hsend : ¬ SendFails ⟨s, phase⟩ i) : Wakes s' phase' := by
  have hI : Inv s := hg.inv
  cases h with
  | clis s' hs =>
    rw [eraseUnusedClis_eq hI] at hs
    cases hs
    refine ⟨fun p hp he => ?_, List.nodup_nil, fun _ he => absurd he List.not_mem_nil, by simp⟩
    have hmem : p ∈ s.polls := (foldl_erasePoll _ s.polls hb.watched.nodup).1.subset hp
    obtain ⟨c, hc, hne⟩ := hw.asked p hmem he
    refine ⟨c, ?_, hne⟩
    rw [getElem?_clis_cleaned, if_neg, hc]
    rintro ⟨-, hgone⟩
    unfold gone at hgone
    rw [hc] at hgone
    exact hne (by simpa using hgone)
  | chs s' freed hs =>
    rw [eraseUnusedChs_ok hI] at hs
    cases hs
    exact hw.of_more rfl (fun _ h => h) (List.Sublist.refl _) (by simp)
  | mark =>
    refine ⟨fun p hp he => ?_, List.nodup_nil, fun _ he => absurd he List.not_mem_nil, fun _ fd hwait => ?_⟩
    · rcases mem_markPolls_waits _ _ hp with hp | ⟨c, hc, hne⟩
      · exact hw.asked p hp he
      · exact ⟨c, ExtTreeMap.mem_toList_iff_getElem?_eq_some.mp hc, hne⟩
    · obtain ⟨c, hc, hne⟩ := hwait
      exact asksOut_markPolls s.clis.toList s.polls hb.watched.nodup
        (.inr ⟨c, ExtTreeMap.mem_toList_iff_getElem?_eq_some.mpr hc, hne⟩)
  | poll rs hlen hcontract =>
    refine ⟨hw.asked, ?_, fun e he hout => ?_, by simp⟩
    · show (((s.polls.map (·.fd)).zip rs).map (·.1)).Nodup
      rw [List.map_fst_zip (by rw [List.length_map]; omega)]
      exact hb.watched.nodup
    · have he : e ∈ (s.polls.map (·.fd)).zip rs := he
      rw [List.zip_map_left, List.mem_map] at he
      obtain ⟨⟨p, r⟩, hp, rfl⟩ := he
      exact hw.asked p (List.of_mem_zip hp).1 ((asked_of_contract (hcontract (p, r) hp)).2 hout)
  | again => exact hw.of_more rfl (fun _ h => h) (List.Sublist.refl _) (by simp)
  | acceptError r todo _ => exact hw.of_more rfl (fun _ h => h) (List.nil_sublist _) (by simp)
  | accept r todo conn _ hconn =>
    refine ⟨fun p hp he => ?_, List.nodup_nil, fun _ he => absurd he List.not_mem_nil, by simp⟩
    rcases List.mem_append.mp hp with hp | hp
    · obtain ⟨c, hc, hne⟩ := hw.asked p hp he
      refine ⟨c, ?_, hne⟩
      rw [getElem?_clis_addNewClient, if_neg, hc]
      intro hfd
      exact (acceptContract_iff.mp hconn).1 (hfd ▸ mem_of_getElem?_clis hc)
    · rw [List.mem_singleton.mp hp] at he
      cases he
  | recvError fd r todo _ => exact hw.of_more rfl (fun _ h => h) (List.sublist_cons_self ..) (by simp)
  | idle fd r todo _ _ => exact hw.of_more rfl (fun _ h => h) (List.sublist_cons_self ..) (by simp)
  | recvClosed fd r todo c d _ hc hd => exact hw.of_more rfl (fun _ h => h) (List.sublist_cons_self ..) (by simp)
  | recv fd r todo c chunk s' lines _ hc _ hs =>
    rw [receiveBuf_ok hI (cliAt_of_clis hI hc)] at hs
    cases hs
    exact hw.of_more rfl (fun _ h => waits_put hI hc (fun hne => by exact hne) h) (List.sublist_cons_self ..) (by simp)
  | done x todo => exact hw.of_more rfl (fun _ h => h) (List.Sublist.refl _) (by simp)
  | cmd x line lines todo s' hs =>
    obtain ⟨⟨c, hc⟩, -⟩ := hg.author x (line :: lines) todo rfl
    have hmore : ∀ fd, Waits s fd → Waits s' fd := fun fd h => waits_execLine hI hc hs h
    obtain ⟨u, -, rfl, -, -, hsteps⟩ := execLine_run hI hc hs
    exact hw.of_more hsteps.sameServer.polls hmore (List.Sublist.refl _) (by simp)
  | send fd r todo c n d s' _ hout hc hd hn hs =>
    have hat := cliAt_of_clis hI hc
    rw [deref_of_cliAt hI hat] at hd
    cases hd
    rw [sendPreparedResps_eq hI hat] at hs
    cases hs
    have hcfd : c.fd = fd := hI.fd_eq fd c hc
    have hother : ∀ fd', fd' ≠ fd → Waits s fd' →
        Waits { s.updCli c.addr fun _ => c.sent n with polls := pollsSent s c n } fd' := by
      rintro fd' hne ⟨e, he, hb'⟩
      refine ⟨e, ?_, hb'⟩
      show (s.updCli c.addr fun _ => c.sent n).clis[fd']? = _
      rw [getElem?_clis_updCli, he, Option.map_some, if_neg]
      intro haddr
      have heq := hI.addr_inj e (mem_clients.mpr ⟨_, he⟩) c (mem_clients.mpr ⟨_, hc⟩) haddr
      rw [← hI.fd_eq fd' e he, heq, hcfd] at hne
      exact hne rfl
    have honce := hw.once
    rw [show (Phase.events ((fd, r) :: todo)).ahead = (fd, r) :: todo from rfl, List.map_cons, List.nodup_cons] at honce
    obtain ⟨hfd, hnodup⟩ := honce
    refine ⟨fun p hp he => ?_, hnodup, fun e he hout => ?_, by simp⟩
    · have hp : p ∈ pollsSent s c n := hp
      unfold pollsSent at hp
      split at hp
      · -- everything is sent
        obtain ⟨q, hq, rfl⟩ := List.mem_map.mp hp
        split at he
        · cases he
        · rename_i hne
          rw [if_neg hne]
          exact hother q.fd (hcfd ▸ hne) (hw.asked q hq he)
      · rename_i hpart
        by_cases hpfd : p.fd = fd
        · -- the rest waits
          obtain ⟨c', hc', hne⟩ := hw.reported (fd, r) (List.mem_cons_self ..) hout
          rw [hc] at hc'
          cases hc'
          refine ⟨c.sent n, ?_, ?_⟩
          · show (s.updCli c.addr fun _ => c.sent n).clis[p.fd]? = _
            rw [getElem?_clis_updCli, hpfd, hc, Option.map_some, if_pos rfl]
          · rcases hn with rfl | ⟨h0, hle, hmax⟩
            · exact absurd ⟨rfl, fd, r, todo, c, rfl, hc, hne⟩ hsend
            · have hsize : toSizeT n = n.toNat := by
                unfold toSizeT
                unfold SSIZE_MAX at hmax
                rw [Int.emod_eq_of_lt h0 (by omega)]
              show (if n = c.bufToSend.length then [] else c.bufToSend.drop (toSizeT n)) ≠ []
              rw [if_neg hpart, hsize]
              intro hnil
              have hlen := List.drop_eq_nil_iff.mp hnil
              omega
        · exact hother p.fd hpfd (hw.asked p hp he)
    · refine hother e.1 (fun heq => hfd ?_) (hw.reported e (List.mem_cons_of_mem _ he) hout)
      exact List.mem_map.mpr ⟨e, he, heq⟩

theorem wakes_run (hrun : runServer pass lfd is = .ok cfg)
    (hsend : Runs.Along step (fun cfg i => ¬ SendFails cfg i) is (start pass lfd)) : Wakes cfg.srv cfg.phase := by
  have hfirst : Wakes (start pass lfd).srv (start pass lfd).phase := by
    refine ⟨fun p hp he => ?_, List.nodup_nil, fun _ he => absurd he List.not_mem_nil, fun h => nomatch h⟩
    rw [List.mem_singleton.mp hp] at he
    cases he
  refine Reachable.along (I := fun t => Wakes t.srv t.phase) (fun t i t' hrt hw hno hstep => ?_) ⟨[], rfl⟩ hfirst
    hsend hrun
  exact (move_of_step hstep).wakes hrt.good hrt.bookkept.1 hw hno

/-- **No client is forgotten, and none is woken for nothing**: as long as no `send` has failed, at every call of `poll`
the entry of a client asks for `POLLOUT` exactly if something waits for the client. -/
theorem wakeup (hrun : runServer pass lfd is = .ok cfg)
    (hsend : Runs.Along step (fun cfg i => ¬ SendFails cfg i) is (start pass lfd)) (hphase : cfg.phase = .poll)
    (hp : p ∈ cfg.srv.polls) (hc : cfg.srv.clis[p.fd]? = some c) : p.events = .pollout ↔ c.bufToSend ≠ [] := by
  have hw := wakes_run hrun hsend
  constructor
  · intro he
    obtain ⟨d, hd, hb⟩ := hw.asked p hp he
    rw [hc] at hd
    cases hd
    exact hb
  · intro hb
    exact hw.all hphase p.fd ⟨c, hc, hb⟩ p hp rfl

/-- The reply to `PING` waits for the client. -/
theorem wakeup_ping : ∃ cfg c, runServer (str "2") 3
      (connect 0 alice ++ say 0 0 1 (str "PING\r\n") ++ [.next, .next, .next]) = .ok cfg ∧
    cfg.srv.clis[alice.fd]? = some c ∧ c.bufToSend ≠ [] := by
  obtain ⟨cfg, hrun, hP⟩ := exists_run (str "2") 3
    (connect 0 alice ++ say 0 0 1 (str "PING\r\n") ++ [.next, .next, .next])
    (fun cfg => cfg.phase.rank = 0 &&
      cfg.srv.polls = [⟨3, .pollin⟩, ⟨4, .pollout⟩] && cfg.srv.clis[alice.fd]?.isSome) (by decide +kernel)
  simp only [Bool.and_eq_true, decide_eq_true_eq, Option.isSome_iff_exists] at hP
  obtain ⟨⟨hphase, hpolls⟩, c, hc⟩ := hP
  have hphase : cfg.phase = .poll := cfg.phase.of_rank.1 hphase
  have hno : ∀ i ∈ connect 0 alice ++ say 0 0 1 (str "PING\r\n") ++ [.next, .next, .next], i ≠ .send (-1) := by decide
  have hmem : (⟨4, .pollout⟩ : Pollfd) ∈ cfg.srv.polls := by
    rw [hpolls]
    decide
  have hwake := wakeup hrun (Runs.along_of_forall _ _ fun i hi _ hf => hno i hi hf.1) hphase hmem hc
  exact ⟨cfg, c, hrun, hc, hwake.mp rfl⟩

/-! ## Who is served -/

/-- The descriptor that a transition receives from or sends to. -/
def served (cfg : Config) (i : Input) : List Nat :=
  match cfg.phase, i with
  | .events ((fd, _) :: _), .recv _ | .events ((fd, _) :: _), .send _ => [fd]
  | _, _ => []

/-- The descriptors for which `poll` has reported something. -/
def ready (es : List (Nat × Revents)) : List Nat := (es.filter fun e => e.2.pollin || e.2.pollout).map (·.1)

/-- At an entry that is not that of the listener with a connection. -/
structure Attends (lfd : Nat) (found : List Nat) (log : List Nat) (cfg : Config) : Prop where
  split : log ++ ready cfg.phase.ahead = found
  quiet : ∀ e ∈ cfg.phase.ahead, e.2.pollin = true → e.1 ≠ lfd

theorem ready_cons_of_pos (h : (r.pollin || r.pollout) = true) : ready ((fd, r) :: todo) = fd :: ready todo := by
  unfold ready
  rw [List.filter_cons, if_pos h]
  rfl

theorem ready_cons_of_neg (h : (r.pollin || r.pollout) = false) : ready ((fd, r) :: todo) = ready todo := by
  unfold ready
  rw [List.filter_cons, if_neg (by simp [h])]

/-- A transition that serves the first of the entries to come. -/
theorem Attends.one (h : Attends lfd fds log ⟨s, .events ((fd, r) :: todo)⟩) (hr : (r.pollin || r.pollout) = true)
    (hphase : phase'.ahead = todo) : Attends lfd fds (log ++ [fd]) ⟨s', phase'⟩ := by
  have hsplit : log ++ ready ((fd, r) :: todo) = fds := h.split
  rw [ready_cons_of_pos hr] at hsplit
  refine ⟨?_, fun e he => ?_⟩
  · show log ++ [fd] ++ ready phase'.ahead = fds
    rw [hphase, List.append_assoc]
    exact hsplit
  · have he : e ∈ phase'.ahead := he
    rw [hphase] at he
    exact h.quiet e (List.mem_cons_of_mem _ he)

/-- A transition that leaves the entries to come. -/
theorem Attends.none (h : Attends lfd fds log ⟨s, phase⟩) (hphase : phase'.ahead = phase.ahead) :
    Attends lfd fds (log ++ []) ⟨s', phase'⟩ := by
  obtain ⟨hsplit, hquiet⟩ := h
  have hsplit : log ++ ready phase.ahead = fds := hsplit
  refine ⟨?_, fun e he => hquiet e ?_⟩
  · show log ++ [] ++ ready phase'.ahead = fds
    rw [hphase, List.append_nil]
    exact hsplit
  · show e ∈ phase.ahead
    rw [← hphase]
    exact he

theorem Move.attends (h : Move s phase i s' phase') (hb : Bookkept lfd s) (hi : i.isPoll = false)
    (hs : Attends lfd fds log ⟨s, phase⟩) : Attends lfd fds (log ++ served ⟨s, phase⟩ i) ⟨s', phase'⟩ := by
  have hbusy : ∀ {r todo}, phase = .events ((s.fdForNewClis, r) :: todo) → r.pollin = true → False := by
    rintro r todo rfl hr
    exact hs.quiet _ (List.mem_cons_self ..) hr hb.listener
  cases h with
  | poll rs _ _ => cases hi
  | acceptError r todo hr => exact (hbusy rfl hr).elim
  | accept r todo conn hr _ => exact (hbusy rfl hr).elim
  | recvError fd r todo hr => exact hs.one (by rw [hr]; rfl) rfl
  | recvClosed fd r todo c d hr _ _ => exact hs.one (by rw [hr]; rfl) rfl
  | recv fd r todo c chunk s' lines hr _ _ _ => exact hs.one (by rw [hr]; rfl) rfl
  | send fd r todo c n d s' _ hr _ _ _ _ => exact hs.one (by rw [hr, Bool.or_true]) rfl
  | idle fd r todo hin hout =>
    have hnot : (r.pollin || r.pollout) = false := by rw [hin, hout]; rfl
    obtain ⟨hsplit, hquiet⟩ := hs
    refine ⟨?_, fun e he => hquiet e (List.mem_cons_of_mem _ he)⟩
    have hsplit : log ++ ready ((fd, r) :: todo) = fds := hsplit
    rw [ready_cons_of_neg hnot] at hsplit
    show log ++ [] ++ ready todo = fds
    rw [List.append_nil]
    exact hsplit
  | _ => exact hs.none rfl

theorem attends_run (hr : Reachable pass lfd cfg) (h : Attends lfd fds [] cfg) (hno : ∀ i ∈ is, i.isPoll = false)
    (hrun : Runs.run step is cfg = .ok cfg') : Attends lfd fds (Runs.trace step served is cfg) cfg' := by
  have hone : ∀ (log : List Nat) t i t', (Reachable pass lfd t ∧ Attends lfd fds log t) → i.isPoll = false →
      step t i = .ok t' → Reachable pass lfd t' ∧ Attends lfd fds (log ++ served t i) t' :=
    fun log t i t' hR hi h => ⟨hR.1.step h, (move_of_step h).attends hR.1.bookkept.1 hi hR.2⟩
  have hkeep := Runs.trace_along (R := fun log t => Reachable pass lfd t ∧ Attends lfd fds log t) hone is [] cfg cfg'
    ⟨hr, h⟩ (Runs.along_of_forall is cfg fun i hi _ => hno i hi) hrun
  exact hkeep.2

/-! ## Connections -/

/-- Where `run` stands when a connection keeps it from the clients: at the listener, or at the cleanup behind it. -/
def Phase.Barred (lfd : Nat) : Phase → Prop
  | .events ((fd, r) :: _) => fd = lfd ∧ r.pollin = true
  | .events [] | .cmds _ _ _ => False
  | _ => True

/-- `poll` reports a connection. -/
def Connects (i : Input) : Prop := ∀ rs, i = .poll rs → (rs.headD silent).pollin = true

/-- A record that was there before, or that of a client of whom nothing has come yet. -/
def Untouched (s₀ s : Server) : Prop := ∀ (fd : Nat) (c : Cli), s.clis[fd]? = some c →
  s₀.clis[fd]? = some c ∨ ∃ addr ip, c = Cli.new addr fd (inetNtoa ip)

/-- At the listener the loop over `polls` ends. -/
theorem step_listener (hr : r.pollin = true) (h : step ⟨s, .events ((s.fdForNewClis, r) :: todo)⟩ i = .ok cfg') :
    (∃ conn, i = .accept conn) ∧ cfg'.phase = .clis ∧
      (cfg'.srv = s ∨ ∃ conn, cfg'.srv = s.addNewClient conn) := by
  unfold step at h
  simp only [hr, and_self, if_true] at h
  split at h
  · cases h
    exact ⟨⟨_, rfl⟩, rfl, .inl rfl⟩
  · rename_i conn
    split at h
    · cases h
      exact ⟨⟨_, rfl⟩, rfl, .inr ⟨conn, rfl⟩⟩
    · cases h
  · cases h

/-- **A connection bars the clients**: while each `poll` reports one, no transition serves a client. -/
theorem barred_step {s₀ : Server} (hr : Reachable pass lfd cfg) (hbar : cfg.phase.Barred lfd)
    (hold : Untouched s₀ cfg.srv) (hi : Connects i) (h : step cfg i = .ok cfg') :
    cfg'.phase.Barred lfd ∧ served cfg i = [] ∧ Untouched s₀ cfg'.srv := by
  have hI : Inv cfg.srv := hr.good.inv
  have hlfd : cfg.srv.fdForNewClis = lfd := hr.bookkept.1.listener
  obtain ⟨fds, hfds⟩ := hr.listenerFirst
  obtain ⟨s, phase⟩ := cfg
  obtain ⟨s', phase'⟩ := cfg'
  have hmove : Move s phase i s' phase' := move_of_step h
  cases phase with
  | events todo =>
    cases todo with
    | nil => exact hbar.elim
    | cons e todo =>
      obtain ⟨fd, r⟩ := e
      obtain ⟨hfd, hin⟩ : fd = lfd ∧ r.pollin = true := hbar
      obtain rfl : s.fdForNewClis = fd := hlfd.trans hfd.symm
      obtain ⟨⟨conn, rfl⟩, hphase, hsrv⟩ := step_listener hin h
      subst hphase
      refine ⟨trivial, rfl, fun fd c hc => ?_⟩
      rcases hsrv with rfl | ⟨conn, rfl⟩
      · exact hold fd c hc
      · have hc : (s.clis.insert conn.fd (Cli.new conn.addr conn.fd (inetNtoa conn.ip)))[fd]? = some c := hc
        rw [ExtTreeMap.getElem?_insert] at hc
        split at hc
        · rename_i heq
          cases hc
          exact .inr ⟨conn.addr, conn.ip, by rw [Std.compare_eq_iff_eq.mp heq]⟩
        · exact hold fd c hc
  | cmds x lines todo => exact hbar.elim
  | clis =>
    cases hmove with
    | clis s' hs =>
      rw [eraseUnusedClis_eq hI] at hs
      cases hs
      refine ⟨trivial, rfl, fun fd c hc => hold fd c ?_⟩
      rw [getElem?_clis_cleaned] at hc
      split at hc
      · cases hc
      · exact hc
  | chs =>
    cases hmove with
    | chs s' freed hs =>
      rw [eraseUnusedChs_ok hI] at hs
      cases hs
      exact ⟨trivial, rfl, hold⟩
  | mark =>
    cases hmove with
    | mark => exact ⟨trivial, rfl, hold⟩
  | poll =>
    cases hmove with
    | poll rs hlen _ =>
      refine ⟨?_, rfl, hold⟩
      have hhead := hi rs rfl
      have hlen : rs.length = (s.polls.map (·.fd)).length := by rw [hlen, List.length_map]
      rw [hfds, hlfd] at hlen ⊢
      cases rs with
      | nil => cases hlen
      | cons r rs => exact ⟨rfl, hhead⟩

theorem barred_run (hr : Reachable pass lfd cfg) (hbar : cfg.phase.Barred lfd)
    (hconn : Runs.Along step (fun _ i => Connects i) is cfg) (hrun : Runs.run step is cfg = .ok cfg') :
    Runs.trace step served is cfg = [] ∧ Untouched cfg.srv cfg'.srv := by
  have hone : ∀ (log : List Nat) t i t', (log = [] ∧ Reachable pass lfd t ∧ t.phase.Barred lfd ∧
      Untouched cfg.srv t.srv) → Connects i → step t i = .ok t' →
        log ++ served t i = [] ∧ Reachable pass lfd t' ∧ t'.phase.Barred lfd ∧ Untouched cfg.srv t'.srv := by
    rintro _ t i t' ⟨rfl, hrt, hbar, hold⟩ hi h
    obtain ⟨hbar', hserved, hold'⟩ := barred_step hrt hbar hold hi h
    exact ⟨by rw [hserved]; rfl, hrt.step h, hbar', hold'⟩
  have hkeep := Runs.trace_along (R := fun log t => log = [] ∧ Reachable pass lfd t ∧ t.phase.Barred lfd ∧
    Untouched cfg.srv t.srv) hone is [] cfg cfg' ⟨rfl, hr, hbar, fun _ _ h => .inl h⟩ hconn hrun
  exact ⟨hkeep.1, hkeep.2.2.2⟩

/-- **Clients starve while connections keep coming**: from a call of `poll`, as long as every `poll` reports a
connection, nothing is received from a client or sent to one; whoever is connected at the end has the record it had,
or is new and nothing has come of it. -/
theorem starved (hr : Reachable pass lfd cfg) (hphase : cfg.phase = .poll)
    (hconn : ∀ rs, .poll rs ∈ is → (rs.headD silent).pollin = true) (hrun : Runs.run step is cfg = .ok cfg') :
    Runs.trace step served is cfg = [] ∧ ∀ fd c, cfg'.srv.clis[fd]? = some c →
      cfg.srv.clis[fd]? = some c ∨ ∃ addr ip, c = Cli.new addr fd (inetNtoa ip) := by
  apply barred_run hr
  · rw [hphase]
    trivial
  · exact Runs.along_of_forall is cfg fun i hi _ rs h => hconn rs (h ▸ hi)
  · exact hrun

/-- A client has sent a line when another connects, and then connections fail. -/
theorem starved_connections : ∃ cfg cfg', Reachable (str "2") 3 cfg ∧
    Runs.run step [.poll [readable, readable], .accept (some bob), .next, .next, .next,
      .poll [readable, readable, silent], .accept none] cfg = .ok cfg' ∧ cfg'.srv.clis.size = 2 ∧
    ∀ fd c, cfg'.srv.clis[fd]? = some c → cfg.srv.clis[fd]? = some c ∨ ∃ addr ip, c = Cli.new addr fd (inetNtoa ip) := by
  obtain ⟨cfg', hrun, hP⟩ := exists_run (str "2") 3 ((connect 0 alice ++ [.next, .next, .next]) ++
    [.poll [readable, readable], .accept (some bob), .next, .next, .next, .poll [readable, readable, silent],
      .accept none]) (fun cfg => cfg.srv.clis.size = 2) (by decide +kernel)
  obtain ⟨cfg, hfirst, hP'⟩ := exists_run (str "2") 3 (connect 0 alice ++ [.next, .next, .next])
    (fun cfg => cfg.phase.rank = 0) (by decide +kernel)
  obtain ⟨t, ht, hlast⟩ := Runs.run_append_ok.mp hrun
  cases hfirst.symm.trans ht
  have hphase : cfg.phase = .poll := cfg.phase.of_rank.1 (of_decide_eq_true hP')
  have hconn : ∀ rs, Input.poll rs ∈ [Input.poll [readable, readable], .accept (some bob), .next, .next, .next,
      .poll [readable, readable, silent], .accept none] → (rs.headD silent).pollin = true := by
    intro rs hrs
    simp only [List.mem_cons, Input.poll.injEq, List.not_mem_nil, reduceCtorEq, or_false, false_or] at hrs
    rcases hrs with rfl | rfl <;> rfl
  exact ⟨cfg, cfg', ⟨_, hfirst⟩, hlast, by simpa using hP, (starved ⟨_, hfirst⟩ hphase hconn hlast).2⟩

/-- **Every iteration is fair**: when the loop over `polls` has ended, each client for which `poll` had reported
something has been served once, in the order of `polls`, and nobody else; unless a connection had come, and then
nobody has been. -/
theorem attended_once (hr : Reachable pass lfd cfg) (hpoll : step cfg (.poll rs) = .ok cfg₀)
    (hno : ∀ i ∈ is, i.isPoll = false) (hrun : Runs.run step is cfg₀ = .ok cfg') (hend : cfg'.phase = .clis) :
    (Runs.trace step served is cfg₀).Nodup ∧ Runs.trace step served is cfg₀ =
      if (rs.headD silent).pollin then [] else ready ((cfg.srv.polls.map (·.fd)).zip rs) := by
  have hb := hr.bookkept.1
  have hr₀ := hr.step hpoll
  obtain ⟨fds, hfds⟩ := hr.listenerFirst
  obtain ⟨s, phase⟩ := cfg
  obtain ⟨s₀, phase₀⟩ := cfg₀
  have hmove : Move s phase (.poll rs) s₀ phase₀ := move_of_step hpoll
  cases hmove with
  | poll rs hlen _ =>
    have hfds : s.polls.map (·.fd) = lfd :: fds := hb.listener ▸ hfds
    have hnodup := hb.watched.nodup
    have hlen : rs.length = fds.length + 1 := by
      have hmap := congrArg List.length hfds
      rw [List.length_map, List.length_cons] at hmap
      omega
    rw [hfds] at hnodup hrun hr₀ ⊢
    cases rs with
    | nil => cases hlen
    | cons r rs =>
      cases hin : r.pollin with
      | true =>
        have hconn : Runs.Along step (fun _ i => Connects i) is _ :=
          Runs.along_of_forall is ⟨s, .events ((lfd :: fds).zip (r :: rs))⟩ fun i hi _ rs h => by
            have hfalse := hno i hi
            rw [h] at hfalse
            cases hfalse
        rw [(barred_run hr₀ ⟨rfl, hin⟩ hconn hrun).1]
        exact ⟨List.nodup_nil, (if_pos hin).symm⟩
      | false =>
        have hquiet : ∀ e ∈ (lfd :: fds).zip (r :: rs), e.2.pollin = true → e.1 ≠ lfd := by
          intro e he hread
          have he : e ∈ (lfd, r) :: fds.zip rs := he
          rcases List.mem_cons.mp he with rfl | hmem
          · rw [hin] at hread
            cases hread
          · rintro rfl
            exact (List.nodup_cons.mp hnodup).1 (List.of_mem_zip hmem).1
        have hfirst : Attends lfd (ready ((lfd :: fds).zip (r :: rs))) []
            ⟨s, .events ((lfd :: fds).zip (r :: rs))⟩ := ⟨rfl, hquiet⟩
        have hsplit := (attends_run hr₀ hfirst hno hrun).split
        have hnone : ready Phase.clis.ahead = [] := rfl
        rw [hend, hnone, List.append_nil] at hsplit
        rw [hsplit]
        refine ⟨?_, (if_neg (by simp [hin])).symm⟩
        refine List.Nodup.sublist (List.Sublist.map _ List.filter_sublist) ?_
        rw [List.map_fst_zip (by rw [List.length_cons] at hlen ⊢; rw [List.length_cons]; omega)]
        exact hnodup

/-- Two clients are served in one iteration. -/
theorem attended_once_two : ∃ cfg cfg₀ cfg', Reachable (str "2") 3 cfg ∧
    step cfg (.poll [silent, readable, readable]) = .ok cfg₀ ∧
    Runs.run step [.next, .recv .error, .recv .error, .next] cfg₀ = .ok cfg' ∧
    Runs.trace step served [.next, .recv .error, .recv .error, .next] cfg₀ = [4, 5] := by
  obtain ⟨cfg, cfg₀, cfg', hrun, hpoll, hlast, hP⟩ := exists_iteration (str "2") 3
    (connect 0 alice ++ connect 1 bob ++ [.next, .next, .next]) [.next, .recv .error, .recv .error, .next]
    [silent, readable, readable] (fun cfg cfg' => cfg.srv.polls.map (·.fd) = [3, 4, 5] && cfg'.phase.rank = 3)
    (by decide +kernel)
  rw [Bool.and_eq_true, decide_eq_true_eq, decide_eq_true_eq] at hP
  obtain ⟨-, htrace⟩ := attended_once ⟨_, hrun⟩ hpoll (by decide) hlast (cfg'.phase.of_rank.2 hP.2)
  rw [hP.1] at htrace
  exact ⟨cfg, cfg₀, cfg', ⟨_, hrun⟩, hpoll, hlast, htrace⟩

/-! ## Reading and writing -/

/-- The descriptor that a transition reads a chunk from. -/
def readFrom (cfg : Config) (i : Input) : List Nat :=
  match cfg.phase, i with
  | .events ((fd, _) :: _), .recv (.data _) => [fd]
  | _, _ => []

/-- The descriptor that a transition writes to. -/
def writtenTo (cfg : Config) (i : Input) : List Nat :=
  match cfg.phase, i with
  | .events ((fd, _) :: _), .send _ => [fd]
  | _, _ => []

/-- Within an iteration the entries to come only get fewer. -/
theorem step_ahead (hi : i.isPoll = false) (h : step cfg i = .ok cfg') : cfg'.phase.ahead.Sublist cfg.phase.ahead := by
  obtain ⟨s, phase⟩ := cfg
  obtain ⟨s', phase'⟩ := cfg'
  have hmove : Move s phase i s' phase' := move_of_step h
  cases hmove with
  | poll => cases hi
  | acceptError | accept => exact List.nil_sublist _
  | recvError | recvClosed | recv | send | idle => exact List.sublist_cons_self ..
  | _ => exact List.Sublist.refl _

theorem run_ahead (hno : ∀ i ∈ is, i.isPoll = false) (hrun : Runs.run step is cfg = .ok cfg') :
    cfg'.phase.ahead.Sublist cfg.phase.ahead :=
  Runs.along_invariant (I := fun t => t.phase.ahead.Sublist cfg.phase.ahead)
    (fun _ _ _ hsub hi h => (step_ahead hi h).trans hsub) is cfg cfg' (List.Sublist.refl _)
    (Runs.along_of_forall is cfg fun i hi _ => hno i hi) hrun

/-- An entry that the loop comes to is one of those at the call of `poll`, with what was asked for it. -/
theorem entry_of_poll (hpoll : step cfg (.poll rs) = .ok cfg₀) (hno : ∀ i ∈ is, i.isPoll = false)
    (hrun : Runs.run step is cfg₀ = .ok ⟨s, .events ((fd, r) :: todo)⟩) :
    ∃ p ∈ cfg.srv.polls, p.fd = fd ∧ pollContract p r = true := by
  have hsub := run_ahead hno hrun
  obtain ⟨t, phase⟩ := cfg
  obtain ⟨t₀, phase₀⟩ := cfg₀
  have hmove : Move t phase (.poll rs) t₀ phase₀ := move_of_step hpoll
  cases hmove with
  | poll rs _ hcontract =>
    have hmem : (fd, r) ∈ (t.polls.map (·.fd)).zip rs := hsub.subset (List.mem_cons_self ..)
    rw [List.zip_map_left, List.mem_map] at hmem
    obtain ⟨⟨p, r'⟩, hp, heq⟩ := hmem
    cases heq
    exact ⟨p, (List.of_mem_zip hp).1, rfl, hcontract _ hp⟩

/-- **Flow control**: as long as no `send` has failed, an iteration of the loop reads only from clients for which
nothing had been waiting when `poll` was called, and writes only to those for which something had. -/
theorem reads_or_writes {js : List Input} (hrun : runServer pass lfd is = .ok cfg)
    (hsend : Runs.Along step (fun cfg i => ¬ SendFails cfg i) is (start pass lfd))
    (hpoll : step cfg (.poll rs) = .ok cfg₀) (hno : ∀ j ∈ js, j.isPoll = false)
    (hjs : Runs.run step js cfg₀ = .ok cfg') :
    (∀ fd ∈ Runs.trace step readFrom js cfg₀, ∃ c, cfg.srv.clis[fd]? = some c ∧ c.bufToSend = []) ∧
    ∀ fd ∈ Runs.trace step writtenTo js cfg₀, ∃ c, cfg.srv.clis[fd]? = some c ∧ c.bufToSend ≠ [] := by
  have hr : Reachable pass lfd cfg := ⟨is, hrun⟩
  have hw := wakes_run hrun hsend
  have hphase : cfg.phase = .poll := by
    obtain ⟨t, phase⟩ := cfg
    obtain ⟨t₀, phase₀⟩ := cfg₀
    have hmove : Move t phase (.poll rs) t₀ phase₀ := move_of_step hpoll
    cases hmove with
    | poll => rfl
  constructor
  · intro fd hfd
    obtain ⟨ks, i, ls, t, u, rfl, ht, hstep, hread⟩ := Runs.trace_mem _ _ hfd
    have hrt : Reachable pass lfd t := by
      obtain ⟨is', his'⟩ := hr.step hpoll
      exact ⟨is' ++ ks, Runs.run_append_ok.mpr ⟨cfg₀, his', ht⟩⟩
    have hbt := hrt.bookkept.1
    obtain ⟨s, phase⟩ := t
    obtain ⟨s', phase'⟩ := u
    have hmove : Move s phase i s' phase' := move_of_step hstep
    cases hmove with
    | recv fd' r todo c chunk s' lines hin hc _ _ =>
      obtain rfl : fd = fd' := List.mem_singleton.mp hread
      obtain ⟨p, hp, rfl, hasked⟩ := entry_of_poll hpoll (fun j hj => hno j (List.mem_append_left _ hj)) ht
      have hclient : p.fd ∈ cfg.srv.clis := by
        refine (hr.bookkept.1.watched.known p hp).resolve_left fun hl => ?_
        rw [hr.bookkept.1.listener] at hl
        exact hbt.closed (hl ▸ mem_of_getElem?_clis hc)
      obtain ⟨d, hd⟩ := Option.isSome_iff_exists.mp (ExtTreeMap.mem_iff_isSome_getElem?.mp hclient)
      refine ⟨d, hd, ?_⟩
      by_contra hne
      have hout := hw.all hphase p.fd ⟨d, hd, hne⟩ p hp rfl
      have hpin := (asked_of_contract hasked).1 hin
      rw [hout] at hpin
      cases hpin
    | _ => cases hread
  · intro fd hfd
    obtain ⟨ks, i, ls, t, u, rfl, ht, hstep, hwrite⟩ := Runs.trace_mem _ _ hfd
    obtain ⟨s, phase⟩ := t
    obtain ⟨s', phase'⟩ := u
    have hmove : Move s phase i s' phase' := move_of_step hstep
    cases hmove with
    | send fd' r todo c n d s' _ hout _ _ _ _ =>
      obtain rfl : fd = fd' := List.mem_singleton.mp hwrite
      obtain ⟨p, hp, rfl, hasked⟩ := entry_of_poll hpoll (fun j hj => hno j (List.mem_append_left _ hj)) ht
      exact hw.asked p hp ((asked_of_contract hasked).2 hout)
    | _ => cases hwrite

/-- A client reads the reply to `PING` while another sends a line. -/
theorem reads_or_writes_two : ∃ cfg cfg₀ cfg', Reachable (str "2") 3 cfg ∧
    step cfg (.poll [silent, writable, readable]) = .ok cfg₀ ∧
    Runs.run step [.next, .send 6, .recv (.data (str "PING\r\n"))] cfg₀ = .ok cfg' ∧
    (∃ c, cfg.srv.clis[4]? = some c ∧ c.bufToSend ≠ []) ∧ ∃ c, cfg.srv.clis[5]? = some c ∧ c.bufToSend = [] := by
  obtain ⟨cfg, cfg₀, cfg', hrun, hpoll, hlast, hP⟩ := exists_iteration (str "2") 3
    (connect 0 alice ++ connect 1 bob ++ say 0 1 1 (str "PING\r\n") ++ [.next, .next, .next])
    [.next, .send 6, .recv (.data (str "PING\r\n"))] [silent, writable, readable]
    (fun cfg _ => (step cfg (.poll [silent, writable, readable])).toOption.any fun cfg₀ =>
      Runs.trace step readFrom [.next, .send 6, .recv (.data (str "PING\r\n"))] cfg₀ = [5] &&
        Runs.trace step writtenTo [.next, .send 6, .recv (.data (str "PING\r\n"))] cfg₀ = [4]) (by decide +kernel)
  rw [hpoll] at hP
  simp only [Bool.and_eq_true, decide_eq_true_eq, Except.toOption, Option.any_some] at hP
  have hno : ∀ i ∈ connect 0 alice ++ connect 1 bob ++ say 0 1 1 (str "PING\r\n") ++ [.next, .next, .next],
      i ≠ .send (-1) := by decide
  obtain ⟨hread, hwrite⟩ := reads_or_writes hrun (Runs.along_of_forall _ _ fun i hi _ hf => hno i hi hf.1) hpoll
    (by decide) hlast
  rw [hP.1] at hread
  rw [hP.2] at hwrite
  exact ⟨cfg, cfg₀, cfg', ⟨_, hrun⟩, hpoll, hlast, hwrite 4 (List.mem_singleton.mpr rfl),
    hread 5 (List.mem_singleton.mpr rfl)⟩

/-! ## Who is let go -/

/-- Nothing but the cleanup of the clients removes a client, or takes back a mark. -/
theorem Move.keeps_marks (h : Move s phase i s' phase') (hg : Good ⟨s, phase⟩) (hphase : phase ≠ .clis) (fd : Nat) :
    (fd ∈ s.clis → fd ∈ s'.clis) ∧ (fd ∈ s.fdsToErase → fd ∈ s'.fdsToErase) := by
  have hI : Inv s := hg.inv
  cases h with
  | clis => exact absurd rfl hphase
  | chs s' freed hs =>
    rw [eraseUnusedChs_ok hI] at hs
    cases hs
    exact ⟨id, id⟩
  | accept r todo conn _ _ => exact ⟨fun h => mem_clis_addNewClient.mpr (.inr h), id⟩
  | recvClosed fd' r todo c d _ _ _ => exact ⟨id, fun h => mem_markToErase.mpr (.inr h)⟩
  | recv fd' r todo c chunk s' lines _ hc _ hs =>
    rw [receiveBuf_ok hI (cliAt_of_clis hI hc)] at hs
    cases hs
    exact ⟨(mem_clis_updCli fd).mpr, id⟩
  | send fd' r todo c n d s' _ _ hc _ _ hs =>
    rw [sendPreparedResps_eq hI (cliAt_of_clis hI hc)] at hs
    cases hs
    exact ⟨(mem_clis_updCli fd).mpr, id⟩
  | cmd x line lines todo s' hs =>
    obtain ⟨⟨c, hc⟩, -⟩ := hg.author x (line :: lines) todo rfl
    have hmark := mem_fdsToErase_execLine hI hc hs fd
    obtain ⟨u, -, rfl, -, -, hsteps⟩ := execLine_run hI hc hs
    exact ⟨fun h => (mem_clis_updCli fd).mpr ((hsteps.sameServer.fds fd).mpr h), fun h => hmark.mpr (.inl h)⟩
  | _ => exact ⟨id, id⟩

/-- What the kernel has accepted and what waits, as long as no `send` has failed. -/
theorem intact_along (hrun : runServer pass lfd is = .ok cfg)
    (hsend : Runs.Along step (fun cfg i => ¬ SendFails cfg i) is (start pass lfd)) : Intact cfg.srv := by
  have hfirst : Intact (start pass lfd).srv := by
    intro c hc
    obtain ⟨fd, hfd⟩ := mem_clients.mp hc
    simp [start] at hfd
  have hinv := Runs.along_invariant (I := fun cfg => Good cfg ∧ Intact cfg.srv)
    (fun cfg i cfg' hI hno h => ⟨good_step cfg i cfg' hI.1 h, (move_of_step h).intact hI.1 hI.2 hno⟩) is _ cfg
    ⟨good_start pass lfd, hfirst⟩ hsend hrun
  exact hinv.2

/-- **Nobody is cut off**: in a run in which no `send` fails, the step that removes a client is the cleanup, the
client is marked, and the kernel has accepted everything that was prepared for it; and every such client is removed
there.  It is then on no channel and without entry in `polls` and mark, and until then the mark stays. -/
theorem farewell (hrun : runServer pass lfd is = .ok cfg)
    (hsend : Runs.Along step (fun cfg i => ¬ SendFails cfg i) is (start pass lfd)) (hstep : step cfg i = .ok cfg')
    (hc : cfg.srv.clis[fd]? = some c) :
    (fd ∉ cfg'.srv.clis ↔
      cfg.phase = .clis ∧ fd ∈ cfg.srv.fdsToErase ∧ c.hist.accepted = frames c.hist.prepared) ∧
    (fd ∉ cfg'.srv.clis →
      fd ∉ cfg'.srv.polls.map (·.fd) ∧ fd ∉ cfg'.srv.fdsToErase ∧ ∀ k, ¬ On cfg'.srv c.addr k) ∧
    (fd ∈ cfg'.srv.clis → fd ∈ cfg.srv.fdsToErase → fd ∈ cfg'.srv.fdsToErase) := by
  have hr : Reachable pass lfd cfg := ⟨is, hrun⟩
  have hg := hr.good
  have hw := hr.bookkept.1.watched
  have hintact : c.Intact := intact_along hrun hsend c (mem_clients.mpr ⟨fd, hc⟩)
  have hin : fd ∈ cfg.srv.clis := mem_of_getElem?_clis hc
  have hb' := (hr.step hstep).bookkept.1
  obtain ⟨s, phase⟩ := cfg
  obtain ⟨s', phase'⟩ := cfg'
  have hmove : Move s phase i s' phase' := move_of_step hstep
  have hI : Inv s := hg.inv
  by_cases hphase : phase = .clis
  · subst hphase
    cases hmove with
    | clis s' hs =>
      rw [eraseUnusedClis_eq hI] at hs
      cases hs
      -- what waits is what has not been accepted
      have hempty : c.bufToSend = [] ↔ c.hist.accepted = frames c.hist.prepared := by
        constructor
        · intro hb
          have happ : c.hist.accepted ++ c.bufToSend = frames c.hist.prepared := hintact
          rwa [hb, List.append_nil] at happ
        · intro hall
          have happ : c.hist.accepted ++ c.bufToSend = frames c.hist.prepared := hintact
          rw [hall] at happ
          exact List.append_right_eq_self.mp happ
      have hgone : s.gone fd = true ↔ c.bufToSend = [] := by
        unfold gone
        rw [hc]
        simp
      have hiff : fd ∉ s.cleaned.clis ↔ fd ∈ s.fdsToErase ∧ c.bufToSend = [] := by
        rw [ExtTreeMap.mem_iff_isSome_getElem?, getElem?_clis_cleaned, hc, ← hgone]
        split
        · rename_i h
          simp [h]
        · rename_i h
          simp [h]
      refine ⟨?_, fun hnot => ⟨?_, fun hm => hnot (hb'.watched.marked fd hm), fun k hon => ?_⟩, fun hin' hm => ?_⟩
      · rw [hiff, hempty]
        exact (and_iff_right rfl).symm
      · intro hp
        obtain ⟨p, hmem, rfl⟩ := List.mem_map.mp hp
        rcases hb'.watched.known p hmem with hl | hin'
        · -- the listener is no client
          have hl : p.fd = s.fdForNewClis := hl
          rw [hl, hr.bookkept.1.listener] at hin
          exact hr.bookkept.1.closed hin
        · exact hnot hin'
      · obtain ⟨hm, hb⟩ := hiff.mp hnot
        have hleaving : Leaving s c.addr := ⟨c, cliAt_of_clis hI hc, by rwa [hI.fd_eq fd c hc], hb⟩
        exact ((on_cleaned hI).mp hon).2 hleaving
      · refine mem_fdsToErase_cleaned.mpr ⟨hm, c, hc, fun hb => ?_⟩
        exact hiff.mpr ⟨hm, hb⟩ hin'
  · have hkeep := hmove.keeps_marks hg hphase fd
    have hin' : fd ∈ s'.clis := hkeep.1 hin
    refine ⟨⟨fun h => absurd hin' h, fun h => absurd h.1 hphase⟩, fun h => absurd hin' h, fun _ => hkeep.2⟩

/-- A client that has sent `QUIT` is removed when the line for it has been sent. -/
theorem farewell_quit : ∃ cfg cfg', runServer (str "2") 3
      (connect 0 alice ++ say 0 0 1 (str "QUIT\r\n") ++ drain 0 0 25) = .ok cfg ∧ step cfg .next = .ok cfg' ∧
    alice.fd ∈ cfg.srv.clis ∧ alice.fd ∉ cfg'.srv.clis := by
  obtain ⟨cfg, hrun, hP⟩ := exists_run (str "2") 3 (connect 0 alice ++ say 0 0 1 (str "QUIT\r\n") ++ drain 0 0 25)
    (fun cfg => cfg.phase.rank = 3 && alice.fd ∈ cfg.srv.fdsToErase &&
      ((cfg.srv.clis[alice.fd]?).any fun c => c.hist.accepted = frames c.hist.prepared) &&
      (step cfg .next).toOption.isSome) (by decide +kernel)
  simp only [Bool.and_eq_true, decide_eq_true_eq, Option.any_eq_true, Option.isSome_iff_exists] at hP
  obtain ⟨⟨⟨hphase, hmark⟩, c, hc, hall⟩, cfg', hstep⟩ := hP
  have hphase : cfg.phase = .clis := cfg.phase.of_rank.2 hphase
  have hno : ∀ i ∈ connect 0 alice ++ say 0 0 1 (str "QUIT\r\n") ++ drain 0 0 25, i ≠ .send (-1) := by decide
  have hok := eq_ok_of_toOption hstep
  obtain ⟨hiff, -, -⟩ := farewell hrun (Runs.along_of_forall _ _ fun i hi _ hf => hno i hi hf.1) hok hc
  exact ⟨cfg, cfg', hrun, hok, mem_of_getElem?_clis hc, hiff.mpr ⟨hphase, hmark, hall⟩⟩

end FtIrc
