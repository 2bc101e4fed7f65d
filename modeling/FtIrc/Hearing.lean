import FtIrc.Receive
import FtIrc.Refinement

/-!
# What a client sends is what is executed

The bytes of a client arrive in chunks, between those of other clients, and the commands cut from a chunk are
executed one by one.  `arrivals` lists what a run has received; of that, `chunksOf p` is what the client at
`p` has sent since it was accepted.  At every moment the commands executed for a client, followed by those
that are still to be executed, are the commands that `receiveAll` finds in its chunks, and the rest is in
its `bufRecv` (`executed_all`).  For a client that ends its lines with CRLF these are the segments of its
stream (`executed_lines`).
-/

namespace FtIrc

open Std Outcome Server Delimited

variable {s s' : Server} {x p : Ptr} {c d : Cli} {chunk : Str} {chunks lines : List Str} {phase phase' : Phase}
  {i : Input} {cfg cfg' : Config} {pass : Str} {lfd : Nat} {is : List Input}

/-! ## What is received -/

/-- What the kernel hands over. -/
inductive Arrival where
  /-- a connection, whose record is at `p` -/
  | connection (p : Ptr)
  /-- bytes of the client at `p` -/
  | bytes (p : Ptr) (chunk : Str)
  deriving DecidableEq, Repr

/-- What a transition receives. -/
def arrives (cfg : Config) (i : Input) : List Arrival :=
  match cfg.phase, i with
  | .events _, .accept (some conn) => [.connection conn.addr]
  | .events ((fd, _) :: _), .recv (.data chunk) =>
    match cfg.srv.clis[fd]? with
    | some c => [.bytes c.addr chunk]
    | none => []
  | _, _ => []

/-- What a run has received. -/
def arrivals (pass : Str) (lfd : Nat) (is : List Input) : List Arrival :=
  Runs.trace step arrives is (start pass lfd)

/-- The chunks of the client at `p` after another arrival. -/
def hearOne (p : Ptr) (chunks : List Str) : Arrival → List Str
  | .connection q => if q = p then [] else chunks
  | .bytes q chunk => if q = p then chunks ++ [chunk] else chunks

/-- The chunks of the client at `p`, since it was accepted. -/
def chunksOf (p : Ptr) (log : List Arrival) : List Str := log.foldl (hearOne p) []

/-- The commands of the client at `p` that are still to be executed. -/
def Phase.pending (p : Ptr) : Phase → List Str
  | .cmds x lines _ => if x = p then lines else []
  | _ => []

@[simp] theorem chunksOf_nil (p : Ptr) : chunksOf p [] = [] := rfl

theorem chunksOf_append (p : Ptr) (log log' : List Arrival) :
    chunksOf p (log ++ log') = log'.foldl (hearOne p) (chunksOf p log) := List.foldl_append

/-- One more chunk. -/
theorem receiveAll_concat : ∀ (chunks : List Str) (rest : Str), receiveAll rest (chunks ++ [chunk]) =
    ((receiveAll rest chunks).1 ++
      (splitBufToCmds (receiveAll rest chunks).2 ((receiveAll rest chunks).2 ++ chunk)).1,
      (splitBufToCmds (receiveAll rest chunks).2 ((receiveAll rest chunks).2 ++ chunk)).2)
  | [], rest => by simp [receiveAll]
  | c :: chunks, rest => by
    rw [List.cons_append, receiveAll_cons, receiveAll_concat chunks, receiveAll_cons, List.append_assoc]

/-! ## What is executed -/

/-- The commands found in the chunks are those that have been executed and those that will be; the rest is
in the buffer. -/
def Heeded (lines chunks : List Str) (c : Cli) : Prop :=
  (receiveAll [] chunks).1.map splitCmdToArgs = c.hist.cmds ++ lines.map splitCmdToArgs ∧
    (receiveAll [] chunks).2 = c.bufRecv

/-- This holds of every client. -/
def HeardAll (log : List Arrival) (cfg : Config) : Prop :=
  ∀ c ∈ cfg.srv.clients, Heeded (cfg.phase.pending c.addr) (chunksOf c.addr log) c

theorem heeded_new (addr : Ptr) (fd : Nat) (host : Str) : Heeded [] [] (Cli.new addr fd host) := ⟨rfl, rfl⟩

theorem Heeded.receive (h : Heeded [] chunks c) (chunk : Str) :
    Heeded (splitBufToCmds c.bufRecv (c.bufRecv ++ chunk)).1 (chunks ++ [chunk])
      { c with bufRecv := (splitBufToCmds c.bufRecv (c.bufRecv ++ chunk)).2 } := by
  obtain ⟨hcmds, hrest⟩ := h
  refine ⟨?_, ?_⟩
  · rw [receiveAll_concat, List.map_append, hcmds, hrest, List.map_nil, List.append_nil]
  · rw [receiveAll_concat, hrest]

/-- Where nothing arrives and no command is executed, it is enough that the records keep what counts. -/
theorem HeardAll.of_records {log : List Arrival} (h : HeardAll log ⟨s, phase⟩)
    (hpending : ∀ p, phase'.pending p = phase.pending p)
    (hrec : ∀ d ∈ s'.clients, ∃ c ∈ s.clients, d.addr = c.addr ∧ d.hist.cmds = c.hist.cmds ∧
      d.bufRecv = c.bufRecv) : HeardAll log ⟨s', phase'⟩ := by
  intro d hd
  obtain ⟨c, hc, haddr, hcmds, hbuf⟩ := hrec d hd
  have hold := h c hc
  show Heeded (phase'.pending d.addr) (chunksOf d.addr log) d
  rw [hpending, haddr]
  exact ⟨hold.1.trans (by rw [hcmds]), hold.2.trans hbuf.symm⟩

/-- **Every transition heeds what it receives.** -/
theorem Move.heard {log : List Arrival} (h : Move s phase i s' phase') (hg : Good ⟨s, phase⟩)
    (hh : HeardAll log ⟨s, phase⟩) : HeardAll (log ++ arrives ⟨s, phase⟩ i) ⟨s', phase'⟩ := by
  have hI : Inv s := hg.inv
  have hquiet : arrives ⟨s, phase⟩ i = [] → (∀ p, phase'.pending p = phase.pending p) →
      (∀ d ∈ s'.clients, ∃ c ∈ s.clients, d.addr = c.addr ∧ d.hist.cmds = c.hist.cmds ∧
        d.bufRecv = c.bufRecv) → HeardAll (log ++ arrives ⟨s, phase⟩ i) ⟨s', phase'⟩ := by
    intro hnone hpending hrec
    rw [hnone, List.append_nil]
    exact hh.of_records hpending hrec
  have hsame : ∀ d ∈ s.clients, ∃ c ∈ s.clients, d.addr = c.addr ∧ d.hist.cmds = c.hist.cmds ∧
      d.bufRecv = c.bufRecv := fun d hd => ⟨d, hd, rfl, rfl, rfl⟩
  cases h with
  | clis s' hs =>
    rw [eraseUnusedClis_eq hI] at hs
    cases hs
    exact hquiet rfl (fun _ => rfl) fun d hd => hsame d (mem_clients_cleaned hd)
  | chs s' freed hs =>
    rw [eraseUnusedChs_ok hI] at hs
    cases hs
    exact hquiet rfl (fun _ => rfl) hsame
  | mark => exact hquiet rfl (fun _ => rfl) hsame
  | poll rs _ _ => exact hquiet rfl (fun _ => rfl) hsame
  | again => exact hquiet rfl (fun _ => rfl) hsame
  | acceptError r todo _ => exact hquiet rfl (fun _ => rfl) hsame
  | recvError fd r todo _ => exact hquiet rfl (fun _ => rfl) hsame
  | recvClosed fd r todo c d _ _ _ => exact hquiet rfl (fun _ => rfl) hsame
  | idle fd r todo _ _ => exact hquiet rfl (fun _ => rfl) hsame
  | send fd r todo c n e s' _ _ hc _ _ hs =>
    rw [sendPreparedResps_eq hI (cliAt_of_clis hI hc)] at hs
    cases hs
    refine hquiet rfl (fun _ => rfl) fun d hd => ?_
    rcases (mem_clients_put (cliAt_of_clis hI hc)).mp hd with rfl | ⟨hd, -⟩
    · exact ⟨c, mem_clients.mpr ⟨fd, hc⟩, rfl, rfl, rfl⟩
    · exact hsame d hd
  | done x todo =>
    refine hquiet rfl (fun p => ?_) hsame
    show [] = if x = p then [] else []
    rw [ite_self]
  | accept r todo conn _ hconn =>
    intro d hd
    show Heeded [] (chunksOf d.addr (log ++ [.connection conn.addr])) d
    rw [chunksOf_append]
    rcases (mem_clients_addNewClient hconn).mp hd with rfl | hd
    · show Heeded [] (if conn.addr = conn.addr then [] else _) _
      rw [if_pos rfl]
      exact heeded_new conn.addr conn.fd (inetNtoa conn.ip)
    · have hne := addr_ne_of_accept hconn hd
      show Heeded [] (if conn.addr = d.addr then [] else chunksOf d.addr log) d
      rw [if_neg fun he => hne he.symm]
      exact hh d hd
  | recv fd r todo c chunk s' lines _ hc _ hs =>
    have hat := cliAt_of_clis hI hc
    have hcm := mem_clients.mpr ⟨fd, hc⟩
    rw [receiveBuf_ok hI hat] at hs
    cases hs
    have harr : arrives ⟨s, .events ((fd, r) :: todo)⟩ (.recv (.data chunk)) = [.bytes c.addr chunk] := by
      unfold arrives
      simp only [hc]
    rw [harr]
    intro d hd
    rw [chunksOf_append]
    show Heeded (if c.addr = d.addr then _ else []) (if c.addr = d.addr then _ ++ [chunk] else _) d
    rcases (mem_clients_put hat).mp hd with rfl | ⟨hd, hne⟩
    · rw [if_pos rfl, if_pos rfl]
      exact (hh c hcm).receive chunk
    · rw [if_neg fun he => hne he.symm, if_neg fun he => hne he.symm]
      exact hh d hd
  | cmd x line lines todo s' hs =>
    obtain ⟨⟨a, ha⟩, -⟩ := hg.author x (line :: lines) todo rfl
    obtain ⟨u, -, rfl, -, -, hsteps⟩ := execLine_run hI ha hs
    rw [show arrives ⟨s, .cmds x (line :: lines) todo⟩ .next = [] from rfl, List.append_nil]
    have hIu := (hsteps.inv hI).1
    intro d hd
    -- the record before the command
    have hback : ∀ e ∈ u.clients, ∃ c ∈ s.clients, e.addr = c.addr ∧ e.hist.cmds = c.hist.cmds ∧
        e.bufRecv = c.bufRecv := by
      intro e he
      obtain ⟨c, hc, hl⟩ := hsteps.earlier_of (cliAt_of_mem hIu he)
      exact ⟨c, (cliAt_mem hc).1, hl.addr, hl.cmds, hl.bufRecv⟩
    unfold Server.note at hd
    rw [clients_updCli, List.mem_map] at hd
    obtain ⟨e, he, rfl⟩ := hd
    obtain ⟨c, hc, haddr, hcmds, hbuf⟩ := hback e he
    have hold := hh c hc
    unfold Heeded at hold ⊢
    by_cases hx : e.addr = x
    · -- the author: the command moves from those to come to those executed
      have hxc : x = c.addr := hx.symm.trans haddr
      have hlines : (Phase.cmds x (line :: lines) todo).pending c.addr = line :: lines := if_pos hxc
      have hlines' : (Phase.cmds x lines todo).pending c.addr = lines := if_pos hxc
      rw [if_pos hx]
      show (receiveAll [] (chunksOf e.addr log)).1.map splitCmdToArgs =
        (e.hist.cmds ++ [splitCmdToArgs line]) ++ ((Phase.cmds x lines todo).pending e.addr).map splitCmdToArgs ∧
          (receiveAll [] (chunksOf e.addr log)).2 = e.bufRecv
      rw [haddr, hlines', hcmds, hbuf]
      refine ⟨?_, hold.2⟩
      rw [hold.1]
      show c.hist.cmds ++ ((Phase.cmds x (line :: lines) todo).pending c.addr).map splitCmdToArgs = _
      rw [hlines, List.map_cons, List.append_assoc]
      rfl
    · have hxc : x ≠ c.addr := fun h => hx (haddr.trans h.symm)
      have hlines : (Phase.cmds x (line :: lines) todo).pending c.addr = [] := if_neg hxc
      have hlines' : (Phase.cmds x lines todo).pending c.addr = [] := if_neg hxc
      rw [if_neg hx, haddr, hcmds, hbuf]
      show _ = c.hist.cmds ++ ((Phase.cmds x lines todo).pending c.addr).map splitCmdToArgs ∧ _
      rw [hlines', ← hlines]
      exact hold

/-! ## The runs -/

theorem heard_run (hrun : runServer pass lfd is = .ok cfg) : HeardAll (arrivals pass lfd is) cfg := by
  have hempty : HeardAll [] (start pass lfd) := by
    intro c hc
    obtain ⟨fd, hfd⟩ := mem_clients.mp hc
    simp [start] at hfd
  have hone : ∀ log cfg i cfg', (Good cfg ∧ HeardAll log cfg) → step cfg i = .ok cfg' →
      Good cfg' ∧ HeardAll (log ++ arrives cfg i) cfg' := by
    rintro log cfg i cfg' ⟨hg, hh⟩ hstep
    have hmove := move_of_step hstep
    exact ⟨hmove.good hg, hmove.heard hg hh⟩
  exact (Runs.trace_invariant hone is _ cfg ⟨good_start pass lfd, hempty⟩ hrun).2

theorem mem_chunksOf : ∀ (log : List Arrival) (chunks : List Str), chunk ∈ log.foldl (hearOne p) chunks →
    chunk ∈ chunks ∨ .bytes p chunk ∈ log
  | [], _, h => .inl h
  | a :: log, chunks, h => by
    rw [List.foldl_cons] at h
    rcases mem_chunksOf log _ h with h | h
    · cases a with
      | connection q =>
        unfold hearOne at h
        simp only at h
        split at h
        · cases h
        · exact .inl h
      | bytes q b =>
        unfold hearOne at h
        simp only at h
        split at h
        · rename_i hq
          rcases List.mem_append.mp h with h | h
          · exact .inl h
          · rw [List.mem_singleton.mp h, hq]
            exact .inr (List.mem_cons_self ..)
        · exact .inl h
    · exact .inr (List.mem_cons_of_mem _ h)

/-- No chunk is empty: that would be the end of the connection. -/
theorem chunk_ne_nil (h : chunk ∈ chunksOf p (arrivals pass lfd is)) : chunk ≠ [] := by
  rcases mem_chunksOf _ _ h with h | h
  · cases h
  obtain ⟨js, i, ks, ⟨s, phase⟩, ⟨s', phase'⟩, -, -, hstep, harr⟩ := Runs.trace_mem _ _ h
  have hmove : Move s phase i s' phase' := move_of_step hstep
  cases hmove with
  | recv fd r todo c b s' lines _ hc hne _ =>
    unfold arrives at harr
    simp only [hc, List.mem_singleton, Arrival.bytes.injEq] at harr
    rw [harr.2]
    exact hne
  | accept r todo conn _ _ => cases List.mem_singleton.mp harr
  | _ => cases harr

/-- **Nothing a client sends is lost, repeated or reordered**: at every moment of every run, what has been executed
for a client, followed by what is still to be executed, are the commands in the chunks received from it since it
was accepted, and `bufRecv` is what follows them. -/
theorem executed_all (hrun : runServer pass lfd is = .ok cfg) (hc : c ∈ cfg.srv.clients) :
    c.hist.cmds ++ (cfg.phase.pending c.addr).map splitCmdToArgs =
      (receiveAll [] (chunksOf c.addr (arrivals pass lfd is))).1.map splitCmdToArgs ∧
    c.bufRecv = (receiveAll [] (chunksOf c.addr (arrivals pass lfd is))).2 := by
  obtain ⟨hcmds, hrest⟩ := heard_run hrun c hc
  exact ⟨hcmds.symm, hrest.symm⟩

/-- Two clients whose chunks take turns; the second is in the middle of its second line. -/
def takingTurns : List Input :=
  connect 0 alice ++ connect 1 bob ++ say 0 1 0 (str "NICK a") ++ say 1 0 1 (str "NICK b\r\nUSER") ++
    say 0 1 1 (str "l\r\n")

theorem executed_all_turns : ∃ cfg, runServer (str "2") 3 takingTurns = .ok cfg ∧
    ∀ c ∈ cfg.srv.clients, c.hist.cmds ++ (cfg.phase.pending c.addr).map splitCmdToArgs =
        (receiveAll [] (chunksOf c.addr (arrivals (str "2") 3 takingTurns))).1.map splitCmdToArgs ∧
      c.bufRecv = (receiveAll [] (chunksOf c.addr (arrivals (str "2") 3 takingTurns))).2 := by
  obtain ⟨cfg, hrun, -⟩ := exists_run (str "2") 3 takingTurns (fun _ : Config => true) (by decide +kernel)
  exact ⟨cfg, hrun, fun c hc => executed_all hrun hc⟩

/-- **Lines that end with CRLF** are executed one by one, however the stream was cut and whatever the other
clients did in between: those that are not empty, in order, each once. -/
theorem executed_lines (hrun : runServer pass lfd is = .ok cfg) (hc : c ∈ cfg.srv.clients)
    (hcr : LfAfterCr (chunksOf c.addr (arrivals pass lfd is)).flatten) :
    ∃ (segs : List Str) (tail : Str), (∀ p ∈ segs, Free CRLF p) ∧ Free CRLF tail ∧
      (chunksOf c.addr (arrivals pass lfd is)).flatten = (segs.map (· ++ CRLF)).flatten ++ tail ∧
      c.hist.cmds ++ (cfg.phase.pending c.addr).map splitCmdToArgs =
        (segs.filter (· ≠ [])).map splitCmdToArgs ∧ c.bufRecv = tail := by
  obtain ⟨hcmds, hrest⟩ := heard_run hrun c hc
  obtain ⟨segs, tail, hsegs, htail, heq⟩ :=
    exists_pieces crlf_ne_nil (chunksOf c.addr (arrivals pass lfd is)).flatten
  have hfeed := receiveAll_eq_feed _ [] [] (fun b hb => chunk_ne_nil hb) hcr
  rw [feed_eq_split crlf_ne_nil crlfFree_nil, List.nil_append, heq,
    split_pieces crlf_ne_nil (fun q hq => (hsegs q hq).1) htail] at hfeed
  rw [hfeed] at hcmds hrest
  exact ⟨segs, tail, fun q hq => (hsegs q hq).2, htail, heq, hcmds.symm, hrest.symm⟩

theorem executed_lines_turns : ∃ cfg c, runServer (str "2") 3 takingTurns = .ok cfg ∧
    cfg.srv.cliAt bob.addr = some c ∧ ∃ (segs : List Str) (tail : Str), (∀ p ∈ segs, Free CRLF p) ∧ Free CRLF tail ∧
      (chunksOf c.addr (arrivals (str "2") 3 takingTurns)).flatten = (segs.map (· ++ CRLF)).flatten ++ tail ∧
      c.hist.cmds ++ (cfg.phase.pending c.addr).map splitCmdToArgs =
        (segs.filter (· ≠ [])).map splitCmdToArgs ∧ c.bufRecv = tail := by
  obtain ⟨cfg, hrun, hP⟩ := exists_run (str "2") 3 takingTurns
    (fun cfg => (cfg.srv.cliAt bob.addr).isSome) (by decide +kernel)
  obtain ⟨c, hc⟩ := Option.isSome_iff_exists.mp hP
  have hcr : LfAfterCr (chunksOf c.addr (arrivals (str "2") 3 takingTurns)).flatten := by
    rw [(cliAt_mem hc).2]
    decide +kernel
  exact ⟨cfg, c, hrun, hc, executed_lines hrun (cliAt_mem hc).1 hcr⟩

end FtIrc
