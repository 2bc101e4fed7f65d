import FtIrc.Batching
import FtIrc.Descriptors

/-!
# Iterations of the main loop

`hear`, `cleanup` and `flush` are whole iterations of `run`, or parts of one; `step` is one transition.
`Leads` joins the two: which answers of the kernel take one configuration to another.  `leads_oneBuffer` and
`leads_twoBuffers` are the answers that make the machine do what `oneBuffer` and `twoBuffers` say.
-/

namespace FtIrc

open Std Outcome Server

variable {s s' t u v : Server} {x p : Ptr} {c d : Cli} {a ab ba bb chunk : Str} {lines : List Str}
  {fd lfd : Nat} {fds : List Nat} {pass : Str} {cfg cfg' cfg'' : Config} {i : Input} {is js : List Input}
  {todo rest : List (Nat × Revents)} {r : Nat → Revents}

/-! ## What the kernel answers -/

/-- The machine goes from `cfg` to `cfg'`, and `is` is what the kernel answers on the way. -/
def Leads (cfg : Config) (is : List Input) (cfg' : Config) : Prop :=
  ∃ js, js.filter (· ≠ .next) = is ∧ Runs.run step js cfg = .ok cfg'

theorem Leads.refl (cfg : Config) : Leads cfg [] cfg := ⟨[], rfl, rfl⟩

theorem Leads.trans (h : Leads cfg is cfg') (h' : Leads cfg' js cfg'') : Leads cfg (is ++ js) cfg'' := by
  obtain ⟨is', rfl, hrun⟩ := h
  obtain ⟨js', rfl, hrun'⟩ := h'
  exact ⟨is' ++ js', List.filter_append .., Runs.run_append_ok.mpr ⟨cfg', hrun, hrun'⟩⟩

theorem leads_next (h : step cfg .next = .ok cfg') : Leads cfg [] cfg' :=
  ⟨[.next], rfl, Runs.run_cons_ok.mpr ⟨cfg', h, rfl⟩⟩

theorem leads_answer (hi : i ≠ .next) (h : step cfg i = .ok cfg') : Leads cfg [i] cfg' :=
  ⟨[i], List.filter_eq_self.mpr (by simpa using hi), Runs.run_cons_ok.mpr ⟨cfg', h, rfl⟩⟩

/-- What a run leads to is reachable. -/
theorem Leads.reachable (h : Leads cfg is cfg') (hr : Reachable pass lfd cfg) : Reachable pass lfd cfg' := by
  obtain ⟨js, -, hrun⟩ := h
  obtain ⟨ks, hks⟩ := hr
  exact ⟨ks ++ js, Runs.run_append_ok.mpr ⟨cfg, hks, hrun⟩⟩

/-! ## Parts of an iteration -/

/-- `poll` reports `r fd` for each descriptor. -/
theorem leads_poll (h : ∀ p ∈ s.polls, pollContract p (r p.fd) = true) :
    Leads ⟨s, .poll⟩ [.poll (s.polls.map fun p => r p.fd)]
      ⟨s, .events (s.polls.map fun p => (p.fd, r p.fd))⟩ := by
  apply leads_answer (by simp)
  have hpairs : ∀ e ∈ s.polls.zip (s.polls.map fun p => r p.fd), pollContract e.1 e.2 = true := by
    intro e he
    rw [← List.map_prod_left_eq_zip, List.mem_map] at he
    obtain ⟨p, hp, rfl⟩ := he
    exact h p hp
  show (if _ ∧ _ then _ else _) = _
  rw [if_pos ⟨List.length_map _, hpairs⟩, List.zip_map']

/-- The descriptors for which nothing is reported are passed over. -/
theorem leads_silent : ∀ (todo rest : List (Nat × Revents)), (∀ e ∈ todo, e.2 = silent) →
    Leads ⟨s, .events (todo ++ rest)⟩ [] ⟨s, .events rest⟩
  | [], rest, _ => .refl _
  | (fd, r) :: todo, rest, h => by
    have hr : r = silent := h (fd, r) (List.mem_cons_self ..)
    have hone : Leads ⟨s, .events ((fd, r) :: (todo ++ rest))⟩ [] ⟨s, .events (todo ++ rest)⟩ := by
      apply leads_next
      rw [hr]
      rfl
    exact hone.trans (leads_silent todo rest fun e he => h e (List.mem_cons_of_mem _ he))

/-- The commands of a buffer are executed in turn. -/
theorem leads_lines : ∀ (lines : List Str) (s : Server),
    Runs.run (fun s line => s.execLine x line) lines s = .ok s' →
    Leads ⟨s, .cmds x lines todo⟩ [] ⟨s', .events todo⟩
  | [], s, h => by
    cases h
    exact leads_next rfl
  | line :: lines, s, h => by
    obtain ⟨t, ht, hrun⟩ := Runs.run_cons_ok.mp h
    have hone : Leads ⟨s, .cmds x (line :: lines) todo⟩ [] ⟨t, .cmds x lines todo⟩ := by
      apply leads_next
      show (liftFault (s.execLine x line) >>= _) = _
      rw [ht]
      rfl
    exact hone.trans (leads_lines lines t hrun)

/-- Both cleanups. -/
theorem leads_cleanup (h : s.cleanup = .ok s') : Leads ⟨s, .clis⟩ [] ⟨s', .mark⟩ := by
  unfold cleanup at h
  obtain ⟨t, ht, hrest⟩ := bind_ok_iff.mp h
  obtain ⟨⟨u, freed⟩, hu, hlast⟩ := bind_ok_iff.mp hrest
  cases hlast
  have hclis : Leads ⟨s, .clis⟩ [] ⟨t, .chs⟩ := by
    apply leads_next
    show (liftFault s.eraseUnusedClis >>= _) = _
    rw [ht]
    rfl
  have hchs : Leads ⟨t, .chs⟩ [] ⟨s', .mark⟩ := by
    apply leads_next
    show (liftFault t.eraseUnusedChs >>= _) = _
    rw [hu]
    rfl
  exact hclis.trans hchs

theorem leads_mark : Leads ⟨s, .mark⟩ [] ⟨s.markPollsToSendMsgsTo, .poll⟩ := leads_next rfl

/-! ## An iteration that receives -/

/-- From `fd` can be read. -/
def reads (fd : Nat) : Nat → Revents := fun fd' => if fd' = fd then readable else silent

theorem reads_self : reads fd fd = readable := if_pos rfl

theorem reads_other {fd' : Nat} (h : fd' ≠ fd) : reads fd fd' = silent := if_neg h

/-- The entry of the descriptor that is read from. -/
theorem leads_recv (hlfd : fd ≠ s.fdForNewClis) (hlen : chunk ≠ [] ∧ chunk.length ≤ BUFSIZE - 1)
    (h : s.hear fd chunk = .ok s') :
    Leads ⟨s, .events ((fd, readable) :: todo)⟩ [.recv (.data chunk)] ⟨s', .events todo⟩ := by
  unfold hear at h
  obtain ⟨x, hx, hrest⟩ := bind_ok_iff.mp h
  obtain ⟨⟨t, lines⟩, ht, hrun⟩ := bind_ok_iff.mp hrest
  have hfirst : Leads ⟨s, .events ((fd, readable) :: todo)⟩ [.recv (.data chunk)] ⟨t, .cmds x lines todo⟩ := by
    apply leads_answer (by simp)
    show (if _ ∧ fd = s.fdForNewClis then _ else if _ then _ else _) = _
    rw [if_neg fun hno => hlfd hno.2]
    show (liftFault (s.cliOfFd fd) >>= _) = _
    rw [hx]
    show (if chunk ≠ [] ∧ chunk.length ≤ BUFSIZE - 1 then _ else _) = _
    rw [if_pos hlen, ht]
    rfl
  exact hfirst.trans (leads_lines lines t hrun)

/-- **The iteration in which `chunk` is received from `fd`**, and nothing else happens. -/
theorem leads_hear (hnodup : (s.polls.map (·.fd)).Nodup) (hread : ⟨fd, .pollin⟩ ∈ s.polls)
    (hlfd : fd ≠ s.fdForNewClis) (hlen : chunk ≠ [] ∧ chunk.length ≤ BUFSIZE - 1)
    (h : s.hear fd chunk = .ok s') :
    Leads ⟨s, .poll⟩ [.poll (s.polls.map fun p => reads fd p.fd), .recv (.data chunk)] ⟨s', .clis⟩ := by
  have hcontract : ∀ p ∈ s.polls, pollContract p (reads fd p.fd) = true := by
    intro p hp
    by_cases hfd : p.fd = fd
    · have hentry : p = ⟨fd, .pollin⟩ := List.inj_on_of_nodup_map hnodup hp hread hfd
      rw [hentry, reads_self]
      simp [pollContract, readable]
    · rw [reads_other hfd]
      simp [pollContract, silent]
  have hpoll := leads_poll hcontract
  obtain ⟨l₁, l₂, hl⟩ := List.append_of_mem hread
  rw [hl, List.map_append, List.map_cons, List.nodup_append, List.nodup_cons] at hnodup
  obtain ⟨-, ⟨hout₂, -⟩, hout₁⟩ := hnodup
  have hsilent : ∀ l : List Pollfd, (∀ p ∈ l, p.fd ≠ fd) →
      ∀ e ∈ l.map (fun p => (p.fd, reads fd p.fd)), e.2 = silent := by
    intro l hl e he
    obtain ⟨p, hp, rfl⟩ := List.mem_map.mp he
    exact reads_other (hl p hp)
  have hbefore := leads_silent (s := s) (l₁.map fun p => (p.fd, reads fd p.fd))
    ((fd, readable) :: l₂.map fun p => (p.fd, reads fd p.fd))
    (hsilent l₁ fun p hp => hout₁ p.fd (List.mem_map.mpr ⟨p, hp, rfl⟩) fd (List.mem_cons_self ..))
  have hbehind := leads_silent (s := s') (l₂.map fun p => (p.fd, reads fd p.fd)) []
    (hsilent l₂ fun p hp hfd => hout₂ (List.mem_map.mpr ⟨p, hp, hfd⟩))
  have htodo : s.polls.map (fun p => (p.fd, reads fd p.fd)) = l₁.map (fun p => (p.fd, reads fd p.fd)) ++
      (fd, readable) :: l₂.map fun p => (p.fd, reads fd p.fd) := by
    rw [hl, List.map_append, List.map_cons, reads_self]
  rw [htodo] at hpoll
  rw [List.append_nil] at hbehind
  have hend : Leads ⟨s', .events []⟩ [] ⟨s', .clis⟩ := leads_next rfl
  exact (hpoll.trans hbefore).trans ((leads_recv hlfd hlen h).trans (hbehind.trans hend))

/-- `oneBuffer`, as a run of the machine. -/
theorem leads_oneBuffer (hr : Reachable pass lfd ⟨s, .poll⟩) (hin : fd ∈ s.clis)
    (hread : ⟨fd, .pollin⟩ ∈ s.polls) (hlen : chunk ≠ [] ∧ chunk.length ≤ BUFSIZE - 1) (h : s.oneBuffer fd chunk = .ok s') :
    Leads ⟨s, .poll⟩ [.poll (s.polls.map fun p => reads fd p.fd), .recv (.data chunk)] ⟨s', .mark⟩ := by
  obtain ⟨hb, -⟩ := hr.bookkept
  have hlfd : fd ≠ s.fdForNewClis := fun he => hb.closed (hb.listener ▸ he ▸ hin)
  obtain ⟨u, hu, hclean⟩ := bind_ok_iff.mp h
  exact (leads_hear hb.watched.nodup hread hlfd hlen hu).trans (leads_cleanup hclean)

/-! ## An iteration that sends -/

/-- Something is to be sent to the client of `fd`. -/
def Server.pending (s : Server) (fd : Nat) : Bool := (s.clis[fd]?).any fun c => c.bufToSend ≠ []

/-- To the clients `q` can be written, where it was asked for. -/
def writes (q : Nat → Bool) (s : Server) : Nat → Revents := fun fd =>
  if q fd = true ∧ s.pending fd = true then writable else silent

/-- No buffer is longer than what one `send` can report. -/
def Sendable (s : Server) : Prop :=
  ∀ (fd : Nat) (c : Cli), s.clis[fd]? = some c → (c.bufToSend.length : Int) ≤ SSIZE_MAX

/-- All entries of a descriptor ask for `POLLIN`. -/
def AsksIn (ps : List Pollfd) (fd : Nat) : Prop := ∀ p ∈ ps, p.fd = fd → p.events = .pollin

theorem Flushed.clis (h : Flushed fds s s') (hI : Inv s) (fd : Nat) :
    s'.clis[fd]? = (s.clis[fd]?).map fun c => if c.fd ∈ fds then c.flushed else c := by
  have hfd : ∀ c : Cli, (if c.fd ∈ fds then c.flushed else c).fd = c.fd := fun c => by
    split
    · exact core_fd (core_flushed c)
    · rfl
  cases hc : s.clis[fd]? with
  | some c =>
    have hc' : s'.cliAt c.addr = some (if c.fd ∈ fds then c.flushed else c) := by
      rw [h.cliAt, cliAt_of_clis hI hc]
      rfl
    have hclis := clis_of_cliAt h.inv hc'
    rw [hfd, hI.fd_eq fd c hc] at hclis
    rw [hclis, Option.map_some, hI.fd_eq fd c hc]
  | none =>
    cases he : s'.clis[fd]? with
    | none => rfl
    | some e =>
      have he' := cliAt_of_clis h.inv he
      rw [h.cliAt] at he'
      obtain ⟨c, hc', heq⟩ := Option.map_eq_some_iff.mp he'
      have hclis := clis_of_cliAt hI hc'
      rw [← hfd c, heq, h.inv.fd_eq fd e he, hc] at hclis
      cases hclis

/-- What is pending for the others stays so. -/
theorem Flushed.pending (h : Flushed [fd] s s') (hI : Inv s) {fd' : Nat} (hne : fd' ≠ fd) :
    s'.pending fd' = s.pending fd' := by
  unfold Server.pending
  rw [h.clis hI]
  cases hc : s.clis[fd']? with
  | none => rfl
  | some c =>
    have hno : c.fd ∉ [fd] := by
      rw [hI.fd_eq fd' c hc, List.mem_singleton]
      exact hne
    rw [Option.map_some, if_neg hno]

theorem Flushed.sendable (h : Flushed fds s s') (hI : Inv s) (hs : Sendable s) : Sendable s' := by
  intro fd d hd
  rw [h.clis hI] at hd
  obtain ⟨c, hc, rfl⟩ := Option.map_eq_some_iff.mp hd
  split
  · rw [bufToSend_flushed]
    decide
  · exact hs fd c hc

/-- What `flush` does where it succeeds. -/
theorem flush_ok (hI : Inv s) (h : s.flush fd = .ok s') : ∃ c, s.clis[fd]? = some c ∧ Flushed [fd] s s' ∧
    (c.bufToSend = [] → s' = s) ∧ (c.bufToSend ≠ [] → s'.polls = pollsSent s c c.bufToSend.length) := by
  obtain ⟨x, hx, -⟩ := bind_ok_iff.mp h
  obtain ⟨c, hc, -⟩ := cliOfFd_ok hx
  have hcli := cliAt_of_clis hI hc
  obtain ⟨t, ht, hone⟩ := flush_one hI hcli
  rw [hI.fd_eq fd c hc] at ht hone
  rw [h] at ht
  cases ht
  rw [← hI.fd_eq fd c hc, flush_eq hI hcli] at h
  refine ⟨c, hc, hone, fun hb => ?_, fun hb => ?_⟩
  · rw [if_pos hb] at h
    cases h
    rfl
  · rw [if_neg hb, sendPreparedResps_eq hI hcli] at h
    cases h
    rfl

theorem pending_iff (hc : s.clis[fd]? = some c) : s.pending fd = true ↔ c.bufToSend ≠ [] := by
  unfold Server.pending
  rw [hc, Option.any_some, decide_eq_true_eq]

/-- The entry of a client to which everything is sent. -/
theorem leads_send (hI : Inv s) (hc : s.clis[fd]? = some c) (hb : c.bufToSend ≠ []) (hs : Sendable s)
    (h : s.flush fd = .ok s') :
    Leads ⟨s, .events ((fd, writable) :: todo)⟩ [.send c.bufToSend.length] ⟨s', .events todo⟩ := by
  have hcli := cliAt_of_clis hI hc
  have hfd := hI.fd_eq fd c hc
  rw [← hfd, flush_eq hI hcli, if_neg hb] at h
  apply leads_answer (by simp)
  show (liftFault (s.cliOfFd fd) >>= _) = _
  rw [← hfd, cliOfFd_of_cliAt hI hcli]
  show (liftFault (s.deref c.addr) >>= _) = _
  rw [deref_of_cliAt hI hcli]
  show (if _ ∨ _ then _ else _) = _
  rw [if_pos (.inr ⟨by omega, by omega, hs fd c hc⟩), h]
  rfl

/-- **The loop over `polls`, when what is pending is sent to the clients `q`.** -/
theorem leads_flush (q : Nat → Bool) (r : Nat → Revents) : ∀ (l : List Nat) (s : Server), Inv s → l.Nodup →
    Sendable s → (∀ fd ∈ l, r fd = writes q s fd) → Runs.run flush (l.filter q) s = .ok s' →
    ∃ ns : List Int, Leads ⟨s, .events (l.map fun fd => (fd, r fd))⟩ (ns.map .send) ⟨s', .events []⟩
  | [], s, _, _, _, _, h => by
    cases h
    exact ⟨[], .refl _⟩
  | fd :: l, s, hI, hnodup, hs, hr, h => by
    rw [List.nodup_cons] at hnodup
    have hr' : ∀ fd ∈ l, r fd = writes q s fd := fun fd' hfd' => hr fd' (List.mem_cons_of_mem _ hfd')
    have hhead := hr fd (List.mem_cons_self ..)
    have hpass : ¬ (q fd = true ∧ s.pending fd = true) →
        Leads ⟨s, .events ((fd, r fd) :: l.map fun fd => (fd, r fd))⟩ []
          ⟨s, .events (l.map fun fd => (fd, r fd))⟩ := fun hno =>
      leads_silent [(fd, r fd)] _ fun e he => by
        rw [List.mem_singleton.mp he]
        exact hhead.trans (if_neg hno)
    rw [List.map_cons]
    by_cases hq : q fd = true
    · rw [List.filter_cons_of_pos hq] at h
      obtain ⟨t, ht, hrest⟩ := Runs.run_cons_ok.mp h
      obtain ⟨c, hc, hone, hsame, -⟩ := flush_ok hI ht
      have hlater : ∀ fd' ∈ l, r fd' = writes q t fd' := by
        intro fd' hfd'
        have hne : fd' ≠ fd := fun he => hnodup.1 (he ▸ hfd')
        rw [hr' fd' hfd']
        unfold writes
        rw [hone.pending hI hne]
      obtain ⟨ns, hns⟩ := leads_flush q r l t hone.inv hnodup.2 (hone.sendable hI hs) hlater hrest
      by_cases hb : c.bufToSend = []
      · have hno : ¬ (q fd = true ∧ s.pending fd = true) := fun hno => (pending_iff hc).mp hno.2 hb
        exact ⟨ns, (hpass hno).trans (hsame hb ▸ hns)⟩
      · have hwritable : r fd = writable := hhead.trans (if_pos ⟨hq, (pending_iff hc).mpr hb⟩)
        refine ⟨(c.bufToSend.length : Int) :: ns, ?_⟩
        rw [hwritable]
        exact (leads_send hI hc hb hs ht).trans hns
    · rw [List.filter_cons_of_neg hq] at h
      obtain ⟨ns, hns⟩ := leads_flush q r l s hI hnodup.2 hs hr' h
      exact ⟨ns, (hpass fun hno => hq hno.1).trans hns⟩

/-! ## The client is read from again -/

theorem asksIn_markPolls : ∀ (es : List (Nat × Cli)) (ps : List Pollfd), AsksIn ps fd →
    (∀ c, (fd, c) ∈ es → c.bufToSend = []) →
    AsksIn (es.foldl (fun ps e => if 0 < e.2.bufToSend.length then setEvents e.1 .pollout ps else ps) ps) fd
  | [], _, h, _ => h
  | (fd', d) :: es, ps, h, hes => by
    rw [List.foldl_cons]
    refine asksIn_markPolls es _ ?_ fun c hc => hes c (List.mem_cons_of_mem _ hc)
    split
    · rename_i hlen
      intro p hp hfd
      rcases mem_setEvents .pollout ps hp with hp | hp
      · exact h p hp hfd
      · -- nothing is pending for `fd`
        have hfd' : fd' = fd := hp.symm.trans hfd
        subst hfd'
        rw [hes d (List.mem_cons_self ..)] at hlen
        exact absurd hlen (Nat.lt_irrefl 0)
    · exact h

theorem asksIn_mark (h : AsksIn s.polls fd) (hb : s.pending fd = false) :
    AsksIn s.markPollsToSendMsgsTo.polls fd := by
  refine asksIn_markPolls _ _ h fun c hc => ?_
  by_contra hne
  rw [(pending_iff (ExtTreeMap.mem_toList_iff_getElem?_eq_some.mp hc)).mpr hne] at hb
  cases hb

theorem asksIn_pollsSent (h : AsksIn s.polls fd ∨ c.fd = fd) : AsksIn (pollsSent s c c.bufToSend.length) fd := by
  intro p hp hfd
  unfold pollsSent at hp
  rw [if_pos rfl] at hp
  obtain ⟨p₀, hp₀, rfl⟩ := List.mem_map.mp hp
  by_cases hc : p₀.fd = c.fd
  · rw [if_pos hc]
  · rw [if_neg hc] at hfd ⊢
    rcases h with h | h
    · exact h p₀ hp₀ hfd
    · exact absurd (hfd.trans h.symm) hc

theorem asksIn_flush : ∀ (fds : List Nat) (s : Server), Inv s → Runs.run flush fds s = .ok s' →
    AsksIn s.polls fd ∨ (fd ∈ fds ∧ s.pending fd = true) → AsksIn s'.polls fd
  | [], s, _, h, hor => by
    cases h
    rcases hor with hor | ⟨hno, -⟩
    · exact hor
    · cases hno
  | fd₀ :: fds, s, hI, h, hor => by
    obtain ⟨t, ht, hrest⟩ := Runs.run_cons_ok.mp h
    obtain ⟨c, hc, hone, hsame, hpolls⟩ := flush_ok hI ht
    refine asksIn_flush fds t hone.inv hrest ?_
    by_cases hb : c.bufToSend = []
    · rw [hsame hb]
      refine hor.imp_right fun ⟨hin, hpending⟩ => ⟨(List.mem_cons.mp hin).resolve_left ?_, hpending⟩
      rintro rfl
      exact (pending_iff hc).mp hpending hb
    · rw [hpolls hb]
      by_cases hfd : fd = fd₀
      · exact .inl (asksIn_pollsSent (.inr ((hI.fd_eq fd₀ c hc).trans hfd.symm)))
      · rw [hone.pending hI hfd]
        exact hor.imp (fun h => asksIn_pollsSent (.inl h)) fun ⟨hin, hpending⟩ =>
          ⟨(List.mem_cons.mp hin).resolve_left hfd, hpending⟩

theorem asksIn_swept (hw : Watched s) (h : AsksIn s.polls fd) : AsksIn s.swept.polls fd := fun p hp =>
  h p ((foldl_erasePoll (s.fdsToErase.toList.filter s.gone) s.polls hw.nodup).1.subset hp)

theorem polls_lines : ∀ (lines : List Str) (s : Server) (c : Cli), Inv s → s.cliAt x = some c →
    Runs.run (fun s line => s.execLine x line) lines s = .ok s' → s'.polls = s.polls
  | [], s, _, _, _, h => by
    cases h
    rfl
  | line :: lines, s, c, hI, hc, h => by
    obtain ⟨t, ht, hrest⟩ := Runs.run_cons_ok.mp h
    obtain ⟨d, hd, -⟩ := execLine_inbox hI hc ht hc
    rw [polls_lines lines t d (execLine_inv hI hc ht) hd hrest]
    obtain ⟨u, -, rfl, -, -, hsteps⟩ := execLine_run hI hc ht
    exact hsteps.sameServer.polls

/-- The commands do not change what is asked for. -/
theorem polls_hear (hI : Inv s) (hc : s.cliAt x = some c) (h : s.hear c.fd chunk = .ok u) : u.polls = s.polls := by
  cases hcut : splitBufToCmds c.bufRecv (c.bufRecv ++ chunk) with
  | mk lines rest =>
    rw [hear_ok hI hc hcut] at h
    exact polls_lines lines (s.keepRest x c rest) _ (inv_updCli hI hc ⟨rfl, rfl, id, .inl rfl⟩)
      ((cliAt_keepRest hc).trans (if_pos rfl)) h

/-- What has been sent is not pending any more. -/
theorem pending_flush : ∀ (fds : List Nat) (s : Server), Inv s → Runs.run flush fds s = .ok s' →
    fd ∈ fds ∨ s.pending fd = false → s'.pending fd = false
  | [], s, _, h, hor => by
    cases h
    rcases hor with hno | hor
    · cases hno
    · exact hor
  | fd₀ :: fds, s, hI, h, hor => by
    obtain ⟨t, ht, hrest⟩ := Runs.run_cons_ok.mp h
    obtain ⟨c, hc, hone, -⟩ := flush_ok hI ht
    refine pending_flush fds t hone.inv hrest ?_
    by_cases hfd : fd = fd₀
    · subst hfd
      have hsent : t.clis[fd]? = some c.flushed := by
        rw [hone.clis hI, hc, Option.map_some, if_pos (List.mem_singleton.mpr (hI.fd_eq fd c hc))]
      refine .inr (Bool.eq_false_iff.mpr fun hpending => ?_)
      exact (pending_iff hsent).mp hpending (bufToSend_flushed c)
    · rw [hone.pending hI hfd]
      exact hor.imp_left fun hin => (List.mem_cons.mp hin).resolve_left hfd

theorem getElem?_clis_swept (fd : Nat) :
    s.swept.clis[fd]? = if fd ∈ s.fdsToErase ∧ s.gone fd = true then none else s.clis[fd]? :=
  getElem?_clis_cleaned fd

theorem pending_swept (h : s.pending fd = false) : s.swept.pending fd = false := by
  unfold Server.pending at h ⊢
  rw [getElem?_clis_swept]
  split
  · rfl
  · exact h

/-- A client that has been sent what is pending is read from again. -/
theorem asksIn_between (hI : Inv t) (hwu : Watched u) (hin : fd ∈ fds) (h : AsksIn t.polls fd)
    (hu : Runs.run flush fds t.markPollsToSendMsgsTo = .ok u) :
    AsksIn u.swept.markPollsToSendMsgsTo.polls fd := by
  have hI' : Inv t.markPollsToSendMsgsTo := inv_of_other hI rfl rfl
  have hasks : AsksIn u.polls fd := by
    refine asksIn_flush fds _ hI' hu ?_
    cases hpending : t.pending fd with
    | true => exact .inr ⟨hin, hpending⟩
    | false => exact .inl (asksIn_mark h hpending)
  exact asksIn_mark (asksIn_swept hwu hasks) (pending_swept (pending_flush fds _ hI' hu (.inl hin)))

/-! ## Two buffers -/

theorem pollContract_writes (q : Nat → Bool) (hw : Watched s) :
    ∀ p ∈ s.markPollsToSendMsgsTo.polls, pollContract p (writes q s.markPollsToSendMsgsTo p.fd) = true := by
  intro p hp
  unfold writes
  split
  · rename_i hwrite
    have hpending : s.pending p.fd = true := hwrite.2
    have hout : p.events = .pollout := by
      cases hc : s.clis[p.fd]? with
      | none =>
        unfold Server.pending at hpending
        rw [hc] at hpending
        cases hpending
      | some c =>
        exact asksOut_markPolls s.clis.toList s.polls hw.nodup
          (.inr ⟨c, ExtTreeMap.mem_toList_iff_getElem?_eq_some.mpr hc, (pending_iff hc).mp hpending⟩) p hp rfl
    simp [pollContract, writable, hout]
  · simp [pollContract, silent]

/-- The iteration in which what is pending is sent to the clients `q`, and the cleanups around it. -/
theorem leads_between {q : Nat → Bool} (hr : Reachable pass lfd ⟨u, .clis⟩) (hs : Sendable u)
    (h : u.between ((u.swept.polls.map (·.fd)).filter q) = .ok v) :
    (∃ ns : List Int, Leads ⟨u, .clis⟩
      (.poll (u.swept.markPollsToSendMsgsTo.polls.map fun p => writes q u.swept.markPollsToSendMsgsTo p.fd) ::
        ns.map .send) ⟨v, .poll⟩) ∧
    ∀ fd ∈ (u.swept.polls.map (·.fd)).filter q, AsksIn u.polls fd → AsksIn v.polls fd := by
  have hI : Inv u := hr.good.inv
  obtain ⟨u₁, hclean, hflush⟩ := bind_ok_iff.mp h
  rw [cleanup_eq hI] at hclean
  cases hclean
  obtain ⟨t, ht, hrest⟩ := bind_ok_iff.mp hflush
  obtain ⟨w, hw, hlast⟩ := bind_ok_iff.mp hrest
  cases hlast
  have hI' : Inv u.swept := inv_swept hI
  have hmark : Leads ⟨u, .clis⟩ [] ⟨u.swept.markPollsToSendMsgsTo, .poll⟩ :=
    (leads_cleanup (cleanup_eq hI)).trans leads_mark
  have hbefore : Watched u.swept := ((leads_cleanup (cleanup_eq hI)).reachable hr).bookkept.1.watched
  have hafter := (hmark.reachable hr).bookkept.1.watched
  have hfds : u.swept.markPollsToSendMsgsTo.polls.map (·.fd) = u.swept.polls.map (·.fd) := map_fd_markPolls _ _
  have hs' : Sendable u.swept.markPollsToSendMsgsTo := by
    intro fd c hc
    change u.swept.clis[fd]? = some c at hc
    rw [getElem?_clis_swept] at hc
    split at hc
    · cases hc
    · exact hs fd c hc
  have hflushed := ht
  rw [← hfds] at hflushed
  obtain ⟨ns, hns⟩ := leads_flush q (writes q u.swept.markPollsToSendMsgsTo) _ u.swept.markPollsToSendMsgsTo
    (inv_of_other hI' rfl rfl) hafter.nodup hs' (fun _ _ => rfl) hflushed
  rw [List.map_map] at hns
  have hpoll := leads_poll (pollContract_writes q hbefore)
  have hend : Leads ⟨t, .events []⟩ [] ⟨t, .clis⟩ := leads_next rfl
  have hsent := (hmark.trans (hpoll.trans hns)).trans hend
  have hrt := hsent.reachable hr
  have hIt : Inv t := hrt.good.inv
  rw [cleanup_eq hIt] at hw
  cases hw
  have hall := hsent.trans ((leads_cleanup (cleanup_eq hIt)).trans leads_mark)
  simp only [List.append_nil, List.nil_append] at hall
  refine ⟨⟨ns, hall⟩, fun fd hin h => ?_⟩
  exact asksIn_between hI' hrt.bookkept.1.watched hin (asksIn_swept hr.bookkept.1.watched h) ht

/-- `twoBuffers`, as a run of the machine. -/
theorem leads_twoBuffers {q : Nat → Bool} (hr : Reachable pass lfd ⟨s, .poll⟩) (hc : s.cliAt x = some c)
    (hread : ⟨c.fd, .pollin⟩ ∈ s.polls) (hlen₁ : ba ≠ [] ∧ ba.length ≤ BUFSIZE - 1)
    (hlen₂ : bb ≠ [] ∧ bb.length ≤ BUFSIZE - 1) (hu : s.hear c.fd ba = .ok u) (hs : Sendable u)
    (hfds : fds = (u.swept.polls.map (·.fd)).filter q) (hx : c.fd ∈ fds)
    (h : s.twoBuffers c.fd fds ba bb = .ok s') : ∃ v, ∃ ns : List Int, u.between fds = .ok v ∧
    Leads ⟨s, .poll⟩
      ([.poll (s.polls.map fun p => reads c.fd p.fd), .recv (.data ba)] ++
        .poll (u.swept.markPollsToSendMsgsTo.polls.map fun p => writes q u.swept.markPollsToSendMsgsTo p.fd) ::
        ns.map .send ++ [.poll (v.polls.map fun p => reads c.fd p.fd), .recv (.data bb)]) ⟨s', .mark⟩ := by
  subst hfds
  have hI : Inv s := hr.good.inv
  have hin : c.fd ∈ s.clis := mem_of_getElem?_clis (clis_of_cliAt hI hc)
  obtain ⟨u', v, w, hu', hv, hw, hclean⟩ := twoBuffers_iff.mp h
  rw [hu] at hu'
  cases hu'
  obtain ⟨hb, -⟩ := hr.bookkept
  have hlfd : c.fd ≠ s.fdForNewClis := fun he => hb.closed (hb.listener ▸ he ▸ hin)
  have hfirst := leads_hear hb.watched.nodup hread hlfd hlen₁ hu
  have hru := hfirst.reachable hr
  obtain ⟨⟨ns, hsecond⟩, hasks⟩ := leads_between hru hs hv
  have hrv := hsecond.reachable hru
  have hread' : ⟨c.fd, .pollin⟩ ∈ v.polls := by
    have hasks₀ : AsksIn u.polls c.fd := by
      rw [polls_hear hI hc hu]
      intro p hp hfd
      have hentry : p = ⟨c.fd, .pollin⟩ := List.inj_on_of_nodup_map hb.watched.nodup hp hread hfd
      rw [hentry]
    obtain ⟨y, hy, -⟩ := bind_ok_iff.mp hw
    obtain ⟨e, he, -⟩ := cliOfFd_ok hy
    obtain ⟨p, hp, hfd⟩ := List.mem_map.mp (hrv.bookkept.1.entry c.fd (.inr (mem_of_getElem?_clis he)))
    obtain ⟨fd, ev⟩ := p
    have hev : ev = .pollin := hasks c.fd hx hasks₀ ⟨fd, ev⟩ hp hfd
    rw [hev, show fd = c.fd from hfd] at hp
    exact hp
  have hone : v.oneBuffer c.fd bb = .ok s' := bind_ok_iff.mpr ⟨w, hw, hclean⟩
  obtain ⟨y, hy, -⟩ := bind_ok_iff.mp hw
  obtain ⟨e, he, -⟩ := cliOfFd_ok hy
  exact ⟨v, ns, hv, (hfirst.trans hsecond).trans
    (leads_oneBuffer hrv (mem_of_getElem?_clis he) hread' hlen₂ hone)⟩

end FtIrc
