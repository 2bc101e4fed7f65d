import FtIrc.Iterations
import FtIrc.Progress

/-!
# A registered client can stop the server

The handlers use null pointers for channels named in another case and for `JOIN 0` on several channels.  Whatever the
state, one of four lines does so (`exists_fatal`); and a registered client that the server reads from needs one
chunk to have it executed (`always_crashable`).
-/

namespace FtIrc

open Std Outcome Server Delimited

variable {s s' u : Server} {x : Ptr} {c : Cli} {fd lfd : Nat} {k n pass chunk rest line : Str} {lines : List Str}

/-! ## The lines -/

/-- Two spellings of one name. -/
def bigA : Str := str "#A"
def smallA : Str := str "#a"

/-- The lines, one of which is not `CmdSafe`. -/
def fatalLines : List Str := [str "TOPIC #A", str "TOPIC #a", str "JOIN 0", str "JOIN #A,#a"]

/-- A channel, named in another case. -/
theorem topic_fatal (hI : Inv s) (hc : s.cliAt x = some c) (hreg : c.registered = true) (hk : k ∈ s.chs)
    (hlower : toLower k = toLower n) (hne : k ≠ n) (hargs : splitCmdToArgs line = [str "TOPIC", n]) :
    ¬ CmdSafe s x (splitCmdToArgs line) := by
  intro hs
  rw [hargs] at hs
  have hspelled := hs.topic rfl ⟨c, hc, hreg⟩ n rfl
  have hfound : s.getCh n ≠ none := by
    rw [getCh_eq hI hk hlower]
    simp
  exact hne (hI.ch_inj k hk n (hspelled hfound) hlower)

/-- `JOIN 0` on several channels. -/
theorem join_zero_fatal (hc : s.cliAt x = some c) (hreg : c.registered = true) (hmany : 1 < s.nbChannels x) :
    ¬ CmdSafe s x (splitCmdToArgs (str "JOIN 0")) := by
  intro hs
  have hargs : splitCmdToArgs (str "JOIN 0") = [str "JOIN", str "0"] := by decide
  rw [hargs] at hs
  have hok := hs.join rfl c hc hreg (str "0") rfl
  rw [if_pos ⟨rfl, rfl⟩] at hok
  omega

/-- One line creates a channel and names it again in another case. -/
theorem join_twice_fatal (hc : s.cliAt x = some c) (hreg : c.registered = true) (hfew : s.nbChannels x ≤ 1)
    (hfree : s.getCh bigA = none) : ¬ CmdSafe s x (splitCmdToArgs (str "JOIN #A,#a")) := by
  intro hs
  have hargs : splitCmdToArgs (str "JOIN #A,#a") = [str "JOIN", str "#A,#a"] := by decide
  rw [hargs] at hs
  have hitems : splitArgToSubargs (str "#A,#a") = [bigA, smallA] := by decide
  have hok := hs.join rfl c hc hreg (str "#A,#a") rfl
  rw [if_neg (by decide), hitems] at hok
  have hnone := getCh_none_iff.mp hfree
  have hoff : bigA ∉ s.chs := fun h => hnone bigA h rfl
  have hsafe := hok (by decide)
  unfold JoinSafe at hsafe
  rw [if_neg (by simp [MAX_CHS_PER_USER]; omega), if_neg (by decide)] at hsafe
  have hrest := hsafe.2
  rw [if_neg, if_pos] at hrest
  · unfold JoinSafe at hrest
    rw [if_neg (by simp [MAX_CHS_PER_USER]; omega), if_neg (by decide)] at hrest
    exact absurd (hrest.1 bigA (by simp) (by decide)) (by decide)
  · unfold Admitted
    rw [ExtTreeMap.getElem?_eq_none hoff]
    rfl
  · rintro (hon | hjoined)
    · exact hoff (mem_of_on hon)
    · cases hjoined

/-- **Whatever the state, one of four lines of a registered client is not safe.** -/
theorem exists_fatal (hI : Inv s) (hc : s.cliAt x = some c) (hreg : c.registered = true) :
    ∃ line ∈ fatalLines, ¬ CmdSafe s x (splitCmdToArgs line) := by
  cases hfound : s.getCh bigA with
  | some k =>
    obtain ⟨hk, hlower⟩ := getCh_some hfound
    by_cases hbig : k = bigA
    · refine ⟨str "TOPIC #a", by simp [fatalLines], topic_fatal (n := smallA) hI hc hreg hk ?_ ?_ (by decide)⟩
      · rw [hlower]
        decide
      · rw [hbig]
        decide
    · exact ⟨str "TOPIC #A", by simp [fatalLines], topic_fatal hI hc hreg hk hlower hbig (by decide)⟩
  | none =>
    by_cases hmany : 1 < s.nbChannels x
    · exact ⟨str "JOIN 0", by simp [fatalLines], join_zero_fatal hc hreg hmany⟩
    · exact ⟨str "JOIN #A,#a", by simp [fatalLines], join_twice_fatal hc hreg (by omega) hfound⟩

/-! ## The run -/

/-- The commands in progress when `chunk` has been received from `fd`. -/
theorem leads_receive (hr : Reachable pass lfd ⟨s, .poll⟩) (hc : s.clis[fd]? = some c)
    (hread : ⟨fd, .pollin⟩ ∈ s.polls) (hlen : chunk ≠ [] ∧ chunk.length ≤ BUFSIZE - 1)
    (hcut : splitBufToCmds c.bufRecv (c.bufRecv ++ chunk) = (lines, rest)) :
    ∃ todo, Leads ⟨s, .poll⟩ [.poll (s.polls.map fun p => reads fd p.fd), .recv (.data chunk)]
      ⟨s.keepRest c.addr c rest, .cmds c.addr lines todo⟩ := by
  have hI : Inv s := hr.good.inv
  have hb := hr.bookkept.1
  have hlfd : fd ≠ s.fdForNewClis := fun he => hb.closed (hb.listener ▸ he ▸ mem_of_getElem?_clis hc)
  have hcontract : ∀ p ∈ s.polls, pollContract p (reads fd p.fd) = true := by
    intro p hp
    by_cases hfd : p.fd = fd
    · rw [List.inj_on_of_nodup_map hb.watched.nodup hp hread hfd, reads_self]
      simp [pollContract, readable]
    · rw [reads_other hfd]
      simp [pollContract, silent]
  obtain ⟨l₁, l₂, hl⟩ := List.append_of_mem hread
  have hnodup := hb.watched.nodup
  rw [hl, List.map_append, List.map_cons, List.nodup_append] at hnodup
  have hbefore := leads_silent (s := s) (l₁.map fun p => (p.fd, reads fd p.fd))
    ((fd, readable) :: l₂.map fun p => (p.fd, reads fd p.fd)) fun e he => by
      obtain ⟨p, hp, rfl⟩ := List.mem_map.mp he
      exact reads_other (hnodup.2.2 p.fd (List.mem_map.mpr ⟨p, hp, rfl⟩) fd (List.mem_cons_self ..))
  have hpoll := leads_poll hcontract
  have htodo : s.polls.map (fun p => (p.fd, reads fd p.fd)) = l₁.map (fun p => (p.fd, reads fd p.fd)) ++
      (fd, readable) :: l₂.map fun p => (p.fd, reads fd p.fd) := by
    rw [hl, List.map_append, List.map_cons, reads_self]
  rw [htodo] at hpoll
  refine ⟨l₂.map fun p => (p.fd, reads fd p.fd), (hpoll.trans hbefore).trans (leads_answer (by simp) ?_)⟩
  show (if _ ∧ fd = s.fdForNewClis then _ else if _ then _ else _) = _
  rw [if_neg fun hno => hlfd hno.2]
  show (liftFault (s.cliOfFd fd) >>= _) = _
  rw [cliOfFd_eq hc]
  show (if chunk ≠ [] ∧ chunk.length ≤ BUFSIZE - 1 then _ else _) = _
  rw [if_pos hlen, receiveBuf_ok hI (cliAt_of_clis hI hc), hcut]
  rfl

/-- What is cut when one of the lines comes behind an unfinished one. -/
theorem cut_fatal (hrest : CrlfFree rest) (hline : CrlfFree line) (hne : line ≠ []) :
    splitBufToCmds rest (rest ++ (CRLF ++ line ++ CRLF)) = (if rest = [] then [line] else [rest, line], []) := by
  have hfound : ∀ u v : Str, find CRLF (u ++ CRLF ++ v) ≠ none := fun u v hnone =>
    (find_eq_none_iff crlf_ne_nil).mp hnone ⟨u, v, rfl⟩
  have hshape : rest ++ (CRLF ++ line ++ CRLF) = rest ++ CRLF ++ (line ++ CRLF ++ []) := by
    simp only [List.append_assoc, List.append_nil]
  have hlast : fromNetcat (rest ++ CRLF ++ (line ++ CRLF ++ [])) = false := by
    unfold fromNetcat
    rw [Bool.and_eq_false_iff]
    exact .inr (Bool.eq_false_iff.mpr fun h => hfound _ _ (Option.isNone_iff_eq_none.mp h))
  unfold splitBufToCmds
  rw [hshape, if_neg (by simp [CRLF]), hlast, if_neg Bool.false_ne_true,
    split_piece_append crlf_ne_nil (piece_of_free crlf_ne_nil crlf_unbordered hrest),
    split_piece_append crlf_ne_nil (piece_of_free crlf_ne_nil crlf_unbordered hline), if_neg hne,
    split_none ((find_eq_none_iff crlf_ne_nil).mpr crlfFree_nil)]

theorem fatal_step (lines : List Str) (todo : List (Nat × Revents)) (hI : Inv u) (hc : u.cliAt x = some c)
    (h : ¬ CmdSafe u x (splitCmdToArgs line)) :
    ∃ f, step ⟨u, .cmds x (line :: lines) todo⟩ .next = .error (.fault f) ∧ f.isNull := by
  rcases execLine_spec hI hc line with ⟨hsafe, -⟩ | ⟨-, f, hf, hnull⟩
  · exact absurd hsafe h
  · refine ⟨f, ?_, hnull⟩
    show (liftFault (u.execLine x line) >>= _) = _
    rw [hf]
    rfl

/-- **A registered client can stop the server at any time**: from every call of `poll` at which the server would read
from the client, there is a line of at most ten bytes that makes it use a null pointer, whatever the client had
sent before, and whatever the channels are. -/
theorem always_crashable (hr : Reachable pass lfd ⟨s, .poll⟩) (hc : s.clis[fd]? = some c)
    (hreg : c.registered = true) (hread : ⟨fd, .pollin⟩ ∈ s.polls) :
    ∃ line ∈ fatalLines, ∃ t f, Leads ⟨s, .poll⟩
        [.poll (s.polls.map fun p => reads fd p.fd), .recv (.data (CRLF ++ line ++ CRLF))] t ∧
      step t .next = .error (.fault f) ∧ f.isNull := by
  have hI : Inv s := hr.good.inv
  have hat := cliAt_of_clis hI hc
  have hfree : CrlfFree c.bufRecv := hr.bufRecv_free (mem_clients.mpr ⟨fd, hc⟩)
  have hlines : ∀ line ∈ fatalLines, CrlfFree line ∧ line ≠ [] ∧ (CRLF ++ line ++ CRLF ≠ [] ∧
      (CRLF ++ line ++ CRLF).length ≤ BUFSIZE - 1) := by
    intro line hline
    simp only [fatalLines, List.mem_cons, List.not_mem_nil, or_false] at hline
    rcases hline with rfl | rfl | rfl | rfl
    all_goals exact ⟨crlfFree_str (by decide), by decide, by decide, by decide⟩
  -- the server once the rest of the buffer has been taken
  have hIu : Inv (s.keepRest c.addr c []) := inv_updCli hI hat ⟨rfl, rfl, id, .inl rfl⟩
  have hu : (s.keepRest c.addr c []).cliAt c.addr = some { c with bufRecv := [] } := by
    rw [cliAt_keepRest hat, if_pos rfl]
  have hgo : ∀ line ∈ fatalLines, ∃ todo, Leads ⟨s, .poll⟩
      [.poll (s.polls.map fun p => reads fd p.fd), .recv (.data (CRLF ++ line ++ CRLF))]
      ⟨s.keepRest c.addr c [], .cmds c.addr (if c.bufRecv = [] then [line] else [c.bufRecv, line]) todo⟩ := by
    intro line hline
    obtain ⟨hfreeLine, hne, hlen⟩ := hlines line hline
    exact leads_receive hr hc hread hlen (cut_fatal hfree hfreeLine hne)
  by_cases hbuf : c.bufRecv = []
  · obtain ⟨line, hline, hunsafe⟩ := exists_fatal hIu hu hreg
    obtain ⟨todo, hlead⟩ := hgo line hline
    rw [if_pos hbuf] at hlead
    obtain ⟨f, hf, hnull⟩ := fatal_step [] todo hIu hu hunsafe
    exact ⟨line, hline, _, f, hlead, hf, hnull⟩
  · by_cases hsafe : CmdSafe (s.keepRest c.addr c []) c.addr (splitCmdToArgs c.bufRecv)
    · -- the line that was unfinished is executed first
      obtain ⟨v, hv⟩ := (execLine_ok_iff hIu hu).mpr hsafe
      obtain ⟨w, -, hw, -, -, hsteps⟩ := execLine_run hIu hu hv
      obtain ⟨d, hd, hl⟩ := hsteps.later_of hu
      have hvd : v.cliAt c.addr =
          some { d with hist := { d.hist with cmds := d.hist.cmds ++ [splitCmdToArgs c.bufRecv] } } := by
        rw [hw, cliAt_note, if_pos rfl, hd]
        rfl
      have hIv := execLine_inv hIu hu hv
      obtain ⟨line, hline, hunsafe⟩ := exists_fatal hIv hvd (hl.registered hreg)
      obtain ⟨todo, hlead⟩ := hgo line hline
      rw [if_neg hbuf] at hlead
      have hfirst : Leads ⟨s.keepRest c.addr c [], .cmds c.addr [c.bufRecv, line] todo⟩ []
          ⟨v, .cmds c.addr [line] todo⟩ := by
        apply leads_next
        show (liftFault ((s.keepRest c.addr c []).execLine c.addr c.bufRecv) >>= _) = _
        rw [hv]
        rfl
      obtain ⟨f, hf, hnull⟩ := fatal_step [] todo hIv hvd hunsafe
      exact ⟨line, hline, _, f, hlead.trans hfirst, hf, hnull⟩
    · obtain ⟨todo, hlead⟩ := hgo (str "JOIN 0") (by simp [fatalLines])
      rw [if_neg hbuf] at hlead
      obtain ⟨f, hf, hnull⟩ := fatal_step [str "JOIN 0"] todo hIu hu hsafe
      exact ⟨str "JOIN 0", by simp [fatalLines], _, f, hlead, hf, hnull⟩

/-- A client has registered, and read the welcome. -/
theorem always_crashable_registered : ∃ s t line f, Reachable (str "2") 3 ⟨s, .poll⟩ ∧ line ∈ fatalLines ∧
    Leads ⟨s, .poll⟩ [.poll (s.polls.map fun p => reads alice.fd p.fd), .recv (.data (CRLF ++ line ++ CRLF))] t ∧
      step t .next = .error (.fault f) ∧ f.isNull := by
  obtain ⟨cfg, hrun, hP⟩ := exists_run (str "2") 3
    (connect 0 alice ++ say 0 0 3 (register "al") ++ drain 0 0 63 ++ [.next, .next, .next])
    (fun cfg => cfg.phase.rank = 0 && cfg.srv.polls = [⟨3, .pollin⟩, ⟨4, .pollin⟩] &&
      (cfg.srv.clis[alice.fd]?).any fun c => c.registered) (by decide +kernel)
  simp only [Bool.and_eq_true, decide_eq_true_eq, Option.any_eq_true] at hP
  obtain ⟨⟨hrank, hpolls⟩, c, hc, hreg⟩ := hP
  obtain ⟨s, phase⟩ := cfg
  have hphase : phase = .poll := phase.of_rank.1 hrank
  subst hphase
  have hread : (⟨alice.fd, .pollin⟩ : Pollfd) ∈ s.polls := by
    rw [show s.polls = [⟨3, .pollin⟩, ⟨4, .pollin⟩] from hpolls]
    decide
  obtain ⟨line, hline, t, f, hlead, hf, hnull⟩ := always_crashable ⟨_, hrun⟩ hc hreg hread
  exact ⟨s, t, line, f, ⟨_, hrun⟩, hline, hlead, hf, hnull⟩

end FtIrc
