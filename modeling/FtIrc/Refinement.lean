import FtIrc.Lib.Trace
import FtIrc.Descriptors
import FtIrc.Output
import FtIrc.Service

/-!
# The server refines a service

The service as it is meant: clients connect, execute commands one after the other, and leave; channels
without members go.  `serve` is that machine: it runs the handlers of the program on states without
buffers, without `polls` and without marks.  The log of a run of the server is the list of the events that
happened to the service (`happens`), and the run of the service on the log leads to the service of the
state that the server has reached (`refines`).

So what the clients are told depends on the log alone: not on the chunks in which the commands arrived, the
descriptors that `poll` reported, or the counts that `send` returned (`same_log`).
-/

namespace FtIrc

open Std Outcome Server

variable {s s' t t' : Server} {x p : Ptr} {c d : Cli} {ar : List Str} {k : Str} {fds : List Nat}
  {phase phase' : Phase} {i : Input} {cfg cfg' : Config} {pass : Str} {lfd : Nat}
  {is js : List Input}

/-! ## The service -/

/-- What happens to the service. -/
inductive Event where
  /-- a client is accepted -/
  | connect (conn : Conn)
  /-- a command of the client at `x` is executed -/
  | command (x : Ptr) (ar : List Str)
  /-- the clients of the descriptors are removed -/
  | leave (fds : List Nat)
  /-- the channels without members are removed -/
  | prune
  deriving DecidableEq, Repr

/-- What an event does to the service. -/
def serve (t : Server) : Event → Except Fault Server
  | .connect conn => .ok (t.addNewClient conn).service
  | .command x ar => do
    let t ← t.execCmd x ar
    .ok (t.note x ar).service
  | .leave fds => do
    let (t, _) ← eraseClisLoop fds t
    .ok t.service
  | .prune => do
    let (t, _) ← t.eraseUnusedChs
    .ok t.service

/-- The descriptors that `eraseUnusedClis` removes. -/
def Server.removed (s : Server) : List Nat := s.fdsToErase.toList.filter s.gone

/-- The events of a transition. -/
def happens (cfg : Config) (i : Input) : List Event :=
  match cfg.phase, i with
  | .clis, _ => if cfg.srv.removed = [] then [] else [.leave cfg.srv.removed]
  | .chs, _ => if cfg.srv.unusedChs = [] then [] else [.prune]
  | .events _, .accept (some conn) => [.connect conn]
  | .cmds x (line :: _) _, _ => [.command x (splitCmdToArgs line)]
  | _, _ => []

/-! ## The events -/

/-- **A command** does the same to states with the same service. -/
theorem Alike.execCmd (h : Alike s t) (hI : Inv s) (hc : s.cliAt x = some c) (hne : ∀ a ∈ ar, a ≠ [])
    (hs : s.execCmd x ar = .ok s') : ∃ t', t.execCmd x ar = .ok t' ∧ Alike s' t' := by
  obtain ⟨hsafe, rfl⟩ := execCmd_run hI hc hne hs
  obtain ⟨d, hd, hcd⟩ := h.record hc
  obtain ⟨hstate, hmail⟩ : Alike (FtIrc.cmdRun s x c ar).1 (FtIrc.cmdRun t x c ar).1 ∧
      (FtIrc.cmdRun t x c ar).2 = (FtIrc.cmdRun s x c ar).2 := h.cmdRun
  refine ⟨_, execCmd_ok (h.inv hI) hd hne (h.cmdSafe hsafe), ?_⟩
  rw [cmdRun_rebuffered hcd, hmail]
  exact hstate.sendAll _

theorem Alike.addNewClient (h : Alike s t) (conn : Conn) : Alike (s.addNewClient conn) (t.addNewClient conn) := by
  obtain ⟨hpass, hlfd, hclis, hchs⟩ := alike_iff.mp h
  refine alike_iff.mpr ⟨hpass, hlfd, fun fd => ?_, hchs⟩
  rw [getElem?_clis_addNewClient, getElem?_clis_addNewClient]
  split
  · rfl
  · exact hclis fd

/-- In the service nothing waits to be sent. -/
theorem gone_service (fd : Nat) : s.service.gone fd = true := by
  unfold Server.gone
  rw [getElem?_clis_service]
  cases s.clis[fd]? with
  | none => rfl
  | some c => exact decide_eq_true (show c.seen.bufToSend = [] from rfl)

theorem without_nil : s.without [] = s :=
  ext_maps rfl rfl rfl rfl (fun fd => by rw [getElem?_clis_without]; simp)
    (fun k => by rw [getElem?_chs_without]; cases s.chs[k]? <;> rfl)

theorem dropEach_map_addr : ∀ (cs ds : List Cli) (ch : Ch), cs.map (·.addr) = ds.map (·.addr) →
    ch.dropEach cs = ch.dropEach ds
  | [], [], _, _ => rfl
  | c :: cs, d :: ds, ch, h => by
    obtain ⟨hhead, hrest⟩ := List.cons.inj h
    have hcd : c.addr = d.addr := hhead
    rw [dropEach_cons, dropEach_cons, hcd]
    exact dropEach_map_addr cs ds _ hrest

/-- The clients that leave are those of the descriptors. -/
theorem leavers_removed : ∀ fds : List Nat, (s.service.leavers (fds.filter s.gone)).map (·.addr) =
    (s.leavers fds).map (·.addr)
  | [] => rfl
  | fd :: fds => by
    have hrest := leavers_removed fds
    cases hc : s.clis[fd]? with
    | none =>
      have hgone : s.gone fd = true := by simp [Server.gone, hc]
      have hc' : s.service.clis[fd]? = none := by rw [getElem?_clis_service, hc]; rfl
      rw [List.filter_cons, if_pos hgone]
      simpa [Server.leavers, hc, hc'] using hrest
    | some c =>
      have hc' : s.service.clis[fd]? = some c.seen := by rw [getElem?_clis_service, hc]; rfl
      by_cases hb : c.bufToSend = []
      · have hgone : s.gone fd = true := by simp [Server.gone, hc, hb]
        have hhead : s.service.leavers (fd :: fds.filter s.gone) =
            c.seen :: s.service.leavers (fds.filter s.gone) :=
          List.filterMap_cons_some (by rw [hc']; rfl)
        have hhead' : s.leavers (fd :: fds) = c :: s.leavers fds :=
          List.filterMap_cons_some (by rw [hc]; simp [hb])
        rw [List.filter_cons, if_pos hgone, hhead, hhead', List.map_cons, List.map_cons, hrest]
        rfl
      · have hgone : s.gone fd = false := by simp [Server.gone, hc, hb]
        rw [List.filter_cons, hgone, if_neg (by simp)]
        simpa [Server.leavers, hc, hb] using hrest

theorem service_cleaned : Alike (s.service.without s.removed) s.cleaned := by
  refine alike_iff.mpr ⟨rfl, rfl, fun fd => ?_, ?_⟩
  · rw [getElem?_clis_without, getElem?_clis_cleaned, getElem?_clis_service, gone_service]
    have hmem : fd ∈ s.removed ↔ fd ∈ s.fdsToErase ∧ s.gone fd = true := by
      rw [Server.removed, List.mem_filter, ExtTreeSet.mem_toList]
    simp only [hmem, and_true]
    split
    · rfl
    · cases s.clis[fd]? <;> rfl
  · refine ExtTreeMap.ext_getElem? fun k => ?_
    rw [getElem?_chs_without, getElem?_chs_cleaned, chs_service]
    congr 1
    funext ch
    exact dropEach_map_addr _ _ ch (leavers_removed _)

/-- A record with other buffers. -/
theorem alike_put (hI : Inv s) (hc : s.cliAt x = some c) (h : Rebuffered c d) :
    Alike s (s.updCli x fun _ => d) := by
  refine alike_iff.mpr ⟨rfl, rfl, fun fd => ?_, rfl⟩
  rw [getElem?_clis_updCli, Option.map_map]
  cases he : s.clis[fd]? with
  | none => rfl
  | some e =>
    rw [Option.map_some, Option.map_some, Function.comp]
    split
    · rename_i hx
      rw [← hx, cliAt_of_clis hI he] at hc
      cases hc
      rw [seen_iff.mpr h]
    · rfl

/-! ## The transitions -/

theorem serve_nil (h : Alike t t') : Runs.run serve [] t.service = .ok t'.service :=
  congrArg Except.ok h

theorem serve_one {e : Event} (hs : serve s.service e = .ok t.service) (h : Alike t t') :
    Runs.run serve [e] s.service = .ok t'.service :=
  Runs.run_cons_ok.mpr ⟨_, hs, congrArg Except.ok h⟩

/-- **A transition does to the service what its events do.** -/
theorem Move.serves (h : Move s phase i s' phase') (hg : Good ⟨s, phase⟩) :
    Runs.run serve (happens ⟨s, phase⟩ i) s.service = .ok s'.service := by
  have hI : Inv s := hg.inv
  have hsame : Alike s.service s := alike_service s
  have hI' : Inv s.service := hsame.symm.inv hI
  cases h with
  | clis s' hs =>
    rw [eraseUnusedClis_eq hI] at hs
    cases hs
    have hclean : Alike (s.service.without s.removed) s.cleaned := service_cleaned
    show Runs.run serve (if s.removed = [] then [] else [.leave s.removed]) _ = _
    split
    · rename_i hnone
      rw [hnone, without_nil] at hclean
      exact serve_nil (hsame.symm.trans hclean)
    · have hnodup : s.removed.Nodup := nodup_toList.filter _
      refine serve_one (t := s.service.without s.removed) ?_ hclean
      show (eraseClisLoop s.removed s.service >>= _) = _
      rw [eraseClisLoop_eq _ _ hI' hnodup]
      rfl
  | chs s' freed hs =>
    rw [eraseUnusedChs_ok hI] at hs
    cases hs
    show Runs.run serve (if s.unusedChs = [] then [] else [.prune]) _ = _
    split
    · rename_i hnone
      have hall : (s.chs.filter fun _ ch => ch.size ≠ 0) = s.chs := by
        refine ExtTreeMap.ext_getElem? fun k => ?_
        cases hch : s.chs[k]? with
        | none => rw [ExtTreeMap.getElem?_filter', hch, Option.filter_none]
        | some ch =>
          rw [getElem?_filter_size]
          refine ⟨hch, fun h0 => ?_⟩
          have hin := mem_unusedChs.mpr ⟨ch, hch, h0⟩
          rw [hnone] at hin
          cases hin
      rw [hall]
      exact serve_nil (.refl s)
    · refine serve_one (t := { s.service with chs := s.chs.filter fun _ ch => ch.size ≠ 0 }) ?_ ?_
      · show (s.service.eraseUnusedChs >>= _) = _
        rw [eraseUnusedChs_ok hI']
        rfl
      · exact alike_iff.mpr ⟨rfl, rfl, (alike_iff.mp hsame).2.2.1, rfl⟩
  | mark => exact serve_nil (.refl s)
  | accept r todo conn _ hconn => exact serve_one rfl (hsame.addNewClient conn)
  | recv fd r todo c chunk s' lines _ hc _ hs =>
    rw [receiveBuf_ok hI (cliAt_of_clis hI hc)] at hs
    cases hs
    exact serve_nil (alike_put hI (cliAt_of_clis hI hc) ⟨_, _, _, rfl⟩)
  | send fd r todo c n d s' _ _ hc _ _ hs =>
    rw [sendPreparedResps_eq hI (cliAt_of_clis hI hc)] at hs
    cases hs
    exact serve_nil (alike_put hI (cliAt_of_clis hI hc) ⟨_, _, _, rfl⟩)
  | cmd x line lines todo s' hs =>
    obtain ⟨⟨c, hc⟩, -⟩ := hg.author x (line :: lines) todo rfl
    obtain ⟨u, hexec, rfl, -⟩ := execLine_run hI hc hs
    obtain ⟨d, hd, hcd⟩ := hsame.symm.record hc
    have hne : ∀ a ∈ splitCmdToArgs line, a ≠ [] := fun a ha => (splitCmdToArgs_arg ha).1
    obtain ⟨u', hu', halike⟩ := hsame.symm.execCmd hI hc hne hexec
    refine serve_one (t := u'.note x (splitCmdToArgs line)) ?_ (halike.symm.note x _)
    show (s.service.execCmd x (splitCmdToArgs line) >>= _) = _
    rw [hu']
    rfl
  | recvClosed fd r todo c d _ _ _ => exact serve_nil (.refl s)
  | poll | again | acceptError | recvError | idle | done => exact serve_nil (.refl s)

/-! ## The runs -/

/-- The events of a run of the server. -/
def eventLog (pass : Str) (lfd : Nat) (is : List Input) : List Event :=
  Runs.trace step happens is (start pass lfd)

theorem follows_log (hrun : runServer pass lfd is = .ok cfg) :
    Runs.run serve (eventLog pass lfd is) (start pass lfd).srv.service = .ok cfg.srv.service := by
  have hone : ∀ cfg i cfg', Good cfg → step cfg i = .ok cfg' →
      Runs.run serve (happens cfg i) cfg.srv.service = .ok cfg'.srv.service :=
    fun _ _ _ hg hstep => (move_of_step hstep).serves hg
  exact Runs.trace_refines good_step hone is _ cfg (good_start pass lfd) hrun

/-- The log of a run that stops is that of its steps. -/
theorem eventLog_error {e : Halt} (h : runServer pass lfd is = .error e) :
    ∃ js i ks cfg, is = js ++ i :: ks ∧ runServer pass lfd js = .ok cfg ∧ step cfg i = .error e ∧
      eventLog pass lfd is = eventLog pass lfd js := by
  obtain ⟨js, i, ks, cfg, rfl, hjs, hstep⟩ := Runs.run_error is _ h
  refine ⟨js, i, ks, cfg, rfl, hjs, hstep, ?_⟩
  unfold eventLog
  rw [Runs.trace_append hjs, Runs.trace_error hstep, List.append_nil]

/-- The program fails only by a null pointer, and at a command that is not `CmdSafe`. -/
theorem Reachable.unsafe_of_fault {f : Fault} (hr : Reachable pass lfd cfg)
    (h : step cfg i = .error (.fault f)) : f.isNull ∧ AtUnsafe cfg := by
  rcases step_fault hr.good h with hat | ⟨fd, r, todo, -, he, -⟩
  · exact hat
  · have hrange : f = .outOfRange := by
      unfold cliOfFd at he
      split at he
      · cases he
      · exact (Except.error.inj he).symm
    rw [hrange] at h
    exact absurd h (hr.clis_at i)

/-- A command that fails in the server fails in the service. -/
theorem serve_unsafe (hI : Inv s) (hc : s.cliAt x = some c) {line : Str}
    (hnot : ¬ CmdSafe s x (splitCmdToArgs line)) :
    ∃ f, serve s.service (.command x (splitCmdToArgs line)) = .error f ∧ f.isNull := by
  have hsame : Alike s.service s := alike_service s
  obtain ⟨d, hd, -⟩ := hsame.symm.record hc
  have hmid : Mid s.service x (splitCmdToArgs line) d s.service := .refl (hsame.symm.inv hI) hd
  obtain ⟨f, hf, hnull⟩ := (execCmd_line hmid).fails_iff.mpr fun hs => hnot (hsame.cmdSafe hs)
  refine ⟨f, ?_, hnull⟩
  show (s.service.execCmd x (splitCmdToArgs line) >>= _) = _
  rw [hf]
  rfl

/-- **The server refines the service**: on the log of a run the service comes to the service of the state that
the server has come to; and where the server uses a null pointer it is about to execute a line, the service has come
to the service of this state, and the command of this line uses a null pointer there as well. -/
theorem refines (pass : Str) (lfd : Nat) (is : List Input) :
    match runServer pass lfd is with
    | .ok cfg => Runs.run serve (eventLog pass lfd is) (start pass lfd).srv.service = .ok cfg.srv.service
    | .error .disabled => ∃ t, Runs.run serve (eventLog pass lfd is) (start pass lfd).srv.service = .ok t
    | .error (.fault f) => ∃ js i ks cfg x line lines todo g,
        is = js ++ i :: ks ∧ runServer pass lfd js = .ok cfg ∧ step cfg i = .error (.fault f) ∧ f.isNull ∧
          cfg.phase = .cmds x (line :: lines) todo ∧
          Runs.run serve (eventLog pass lfd is) (start pass lfd).srv.service = .ok cfg.srv.service ∧
          serve cfg.srv.service (.command x (splitCmdToArgs line)) = .error g ∧ g.isNull := by
  cases hrun : runServer pass lfd is with
  | ok cfg => exact follows_log hrun
  | error e =>
    obtain ⟨js, i, ks, cfg, his, hjs, hstep, hlog⟩ := eventLog_error hrun
    have hlast := follows_log hjs
    rw [← hlog] at hlast
    cases e with
    | disabled => exact ⟨_, hlast⟩
    | fault f =>
      have hr : Reachable pass lfd cfg := ⟨js, hjs⟩
      obtain ⟨hf, x, line, lines, todo, hphase, hunsafe⟩ := hr.unsafe_of_fault hstep
      obtain ⟨⟨c, hc⟩, -⟩ := hr.good.author x (line :: lines) todo hphase
      obtain ⟨g, hg, hnull⟩ := serve_unsafe hr.good.inv hc hunsafe
      exact ⟨js, i, ks, cfg, x, line, lines, todo, g, his, hjs, hstep, hf, hphase, hlast, hg, hnull⟩

/-! ## The schedule -/

/-- The bytes that have been sent to a client or wait for it. -/
def Cli.stream (c : Cli) : Str := c.hist.accepted ++ c.bufToSend

theorem stream_eq (hrun : runServer pass lfd is = .ok cfg)
    (hsend : Runs.Along step (fun cfg i => ¬ SendFails cfg i) is (start pass lfd)) (hc : c ∈ cfg.srv.clients) :
    c.stream = frames c.hist.prepared := by
  have hempty : Intact (start pass lfd).srv := by
    intro c hc
    obtain ⟨fd, hfd⟩ := mem_clients.mp hc
    simp [start] at hfd
  have hinv := Runs.along_invariant (I := fun cfg => Good cfg ∧ Intact cfg.srv)
    (fun cfg i cfg' hI hno hstep => ?_) is _ cfg ⟨good_start pass lfd, hempty⟩ hsend hrun
  · exact hinv.2 c hc
  · obtain ⟨hg, hs⟩ := hI
    exact ⟨good_step cfg i cfg' hg hstep, (move_of_step hstep).intact hg hs hno⟩

/-- **The log decides what the clients get**: two runs in which no `send` failed and the same happened to the service
lead to the same channels and to the same records up to their buffers, and every client has been sent the same bytes,
up to what is still in its buffer. -/
theorem same_log (hrun : runServer pass lfd is = .ok cfg) (hrun' : runServer pass lfd js = .ok cfg')
    (hlog : eventLog pass lfd is = eventLog pass lfd js)
    (hsend : Runs.Along step (fun cfg i => ¬ SendFails cfg i) is (start pass lfd))
    (hsend' : Runs.Along step (fun cfg i => ¬ SendFails cfg i) js (start pass lfd)) :
    cfg'.srv.chs = cfg.srv.chs ∧ ∀ p c, cfg.srv.cliAt p = some c →
      ∃ d, cfg'.srv.cliAt p = some d ∧ Rebuffered c d ∧ d.stream = c.stream := by
  have halike : Alike cfg.srv cfg'.srv := by
    have h := follows_log hrun
    rw [hlog, follows_log hrun'] at h
    exact (Except.ok.inj h).symm
  refine ⟨halike.chs, fun p c hc => ?_⟩
  obtain ⟨d, hd, hcd⟩ := halike.record hc
  refine ⟨d, hd, hcd, ?_⟩
  have hprep : d.hist.prepared = c.hist.prepared := by
    obtain ⟨out, got, acc, rfl⟩ := hcd
    rfl
  have hstream : ∀ {cfg : Config} {is : List Input} {c : Cli}, runServer pass lfd is = .ok cfg →
      Runs.Along step (fun cfg i => ¬ SendFails cfg i) is (start pass lfd) → cfg.srv.cliAt p = some c →
      c.stream = frames c.hist.prepared := fun hrun hsend hc =>
    stream_eq hrun hsend (cliAt_mem hc).1
  rw [hstream hrun hsend hc, hstream hrun' hsend' hd, hprep]

/-- A registration and a `JOIN` in one chunk, all of whose replies are sent at once. -/
def atOnce : List Input :=
  connect 0 alice ++ say 0 0 4 (register "al" ++ str "JOIN #c\r\n") ++ drain 0 0 110

/-- The same in two chunks, with a reply sent in part. -/
def bitByBit : List Input :=
  connect 0 alice ++ say 0 0 1 (str "PASS 2\r\nNI") ++
    say 0 0 3 (str "CK al\r\nUSER u 0 * U\r\nJOIN #c\r\n") ++ drain 0 0 3

theorem same_log_chunks : ∃ cfg cfg', runServer (str "2") 3 atOnce = .ok cfg ∧
    runServer (str "2") 3 bitByBit = .ok cfg' ∧ cfg'.srv.chs = cfg.srv.chs ∧
    ∀ p c, cfg.srv.cliAt p = some c → ∃ d, cfg'.srv.cliAt p = some d ∧ Rebuffered c d ∧ d.stream = c.stream := by
  obtain ⟨cfg, hrun, -⟩ := exists_run (str "2") 3 atOnce (fun _ : Config => true) (by decide +kernel)
  obtain ⟨cfg', hrun', -⟩ := exists_run (str "2") 3 bitByBit (fun _ : Config => true) (by decide +kernel)
  have hno : ∀ is : List Input, (∀ i ∈ is, i ≠ .send (-1)) →
      Runs.Along step (fun cfg i => ¬ SendFails cfg i) is (start (str "2") 3) := fun is h =>
    Runs.along_of_forall _ _ fun i hi _ hf => h i hi hf.1
  have hlog : eventLog (str "2") 3 atOnce = eventLog (str "2") 3 bitByBit := by decide +kernel
  exact ⟨cfg, cfg', hrun, hrun', same_log hrun hrun' hlog (hno _ (by decide)) (hno _ (by decide))⟩

end FtIrc
