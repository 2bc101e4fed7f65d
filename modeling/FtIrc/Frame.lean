import FtIrc.Meaning.Line

/-!
# What a client that is not registered can touch

`Frame` says that a step has touched nothing but the record of its author and the author's disconnect
mark.  Of the commands of an unregistered client `QUIT` alone tells the others something, so it is the
one that breaks the frame, and it does as soon as there is another client (`frame_iff`).
-/

namespace FtIrc

open Std Outcome Server

variable {s₀ s s' : Server} {x y : Ptr} {ar : List Str} {c c' d : Cli} {line m : Str} {pass : Str}
  {lfd : Nat} {cfg : Config}

/-- Nothing has changed but the record of `x` and the mark on its descriptor. -/
structure Frame (x : Ptr) (fd : Nat) (s s' : Server) : Prop where
  same : SameServer s s'
  chs : s'.chs = s.chs
  others : ∀ y, y ≠ x → s'.cliAt y = s.cliAt y
  marks : ∀ fd', fd' ≠ fd → (fd' ∈ s'.fdsToErase ↔ fd' ∈ s.fdsToErase)

theorem Frame.refl (x : Ptr) (fd : Nat) (s : Server) : Frame x fd s s :=
  ⟨⟨rfl, rfl, rfl, fun _ => Iff.rfl⟩, rfl, fun _ _ => rfl, fun _ _ => Iff.rfl⟩

theorem Frame.put (h : Frame x d.fd s₀ s) (hc : s.cliAt x = some c) (haddr : c'.addr = c.addr) :
    Frame x d.fd s₀ (s.updCli x fun _ => c') := by
  refine ⟨⟨h.same.pass, h.same.fdForNewClis, h.same.polls, fun fd => ?_⟩, h.chs, fun y hy => ?_, h.marks⟩
  · exact (mem_clis_updCli fd).trans (h.same.fds fd)
  · rw [cliAt_put hc haddr, if_neg hy, h.others y hy]

theorem Frame.note (h : Frame x d.fd s₀ s) (ar : List Str) : Frame x d.fd s₀ (s.note x ar) := by
  refine ⟨⟨h.same.pass, h.same.fdForNewClis, h.same.polls, fun fd => ?_⟩, h.chs, fun y hy => ?_, h.marks⟩
  · exact (mem_clis_updCli fd).trans (h.same.fds fd)
  · rw [cliAt_note, if_neg hy, h.others y hy]

theorem Frame.mark (h : Frame x d.fd s₀ s) : Frame x d.fd s₀ (s.markToErase d.fd) := by
  refine ⟨⟨h.same.pass, h.same.fdForNewClis, h.same.polls, h.same.fds⟩, h.chs, h.others, fun fd' hne => ?_⟩
  unfold markToErase
  rw [ExtTreeSet.mem_insert, Std.compare_eq_iff_eq, h.marks fd' hne]
  exact or_iff_right hne.symm

/-- Unregistered clients are members of nothing. -/
theorem not_member (hI : Inv s₀) (hx : ¬ IsReg s₀ x) (k : Str) (ch : Ch) (hch : s₀.chs[k]? = some ch) :
    x ∉ ch.clis := by
  intro hm
  obtain ⟨d, hd, hreg⟩ := hI.member k ch hch x hm
  exact hx ⟨d, hd, hreg⟩

/-- A command that is not `QUIT`, step by step. -/
theorem Steps.frame (hI : Inv s₀) (hx : ¬ IsReg s₀ x) (hd : s₀.cliAt x = some d)
    (hq : ¬ CmdIs ar "QUIT") (h : Steps s₀ x ar s) : Frame x d.fd s₀ s := by
  induction h with
  | refl => exact .refl x d.fd s₀
  | tail hsteps heff ih =>
    cases heff with
    | cli y c c' hc heff =>
      -- the record that is written is the author's
      have hy : y = x := by
        cases heff with
        | line _ _ m hgot =>
          rcases hgot.source with h | h | ⟨h, -⟩
          · exact h
          · exact absurd h hx
          · exact absurd h hq
        | invited _ _ k _ hch =>
          obtain ⟨ch, hch, hm, -⟩ := hch
          exact absurd hm (not_member hI hx k ch hch)
        | _ => rfl
      subst hy
      exact ih.put hc heff.keeps.addr
    | ch _ _ _ hreg _ _ => exact absurd hreg hx
    | newCh _ hreg _ _ _ _ _ => exact absurd hreg hx
    | mark c hc _ =>
      obtain ⟨e, he, hl⟩ := Steps.later_of hsteps hd
      rw [hc] at he
      cases he
      rw [hl.fd]
      exact ih.mark

/-- The command of an unregistered client does not fail. -/
theorem cmdSafe_of_not_reg (hx : ¬ IsReg s x) : CmdSafe s x ar := by
  refine ⟨fun _ h => absurd h hx, fun _ c hc hreg => absurd ⟨c, hc, hreg⟩ hx, fun _ h => absurd h hx,
    fun _ h => absurd h hx, fun _ h => absurd h hx, fun _ h => absurd h hx, fun _ _ h => absurd h hx⟩

/-- `QUIT` tells every client. -/
theorem quit_touches (hI : Inv s) (hc : s.cliAt x = some c) (hq : CmdIs (splitCmdToArgs line) "QUIT")
    (h : s.execLine x line = .ok s') (hd : s.cliAt y = some d) : s'.cliAt y ≠ some d := by
  obtain ⟨d', hd', hbuf, -⟩ := execLine_inbox hI hc h hd
  obtain ⟨hmem, haddr⟩ := cliAt_mem hd
  have hmail : quitLine d (quitText (splitCmdToArgs line)) ∈
      inbox y (cmdRun s x c (splitCmdToArgs line)).2 := by
    rw [cmdRun_quit hq, mem_inbox]
    exact List.mem_map.mpr ⟨d, hmem, by rw [haddr]⟩
  intro heq
  rw [hd'] at heq
  cases heq
  rw [List.self_eq_append_right] at hbuf
  obtain ⟨ms, ms', hsplit⟩ := List.append_of_mem hmail
  rw [hsplit, frames_append, frames_cons] at hbuf
  simp [frame, CRLF] at hbuf

/-- With nobody else to tell, `QUIT` is the author's own business. -/
theorem quit_frame (hI : Inv s) (hc : s.cliAt x = some c) (hq : CmdIs (splitCmdToArgs line) "QUIT")
    (h : s.execLine x line = .ok s') (halone : ∀ d ∈ s.clients, d.addr = x) : Frame x c.fd s s' := by
  obtain ⟨u, -, rfl, hu, -, hsteps⟩ := execLine_run hI hc h
  rw [cmdRun_quit hq] at hu
  have hnone : ∀ y, y ≠ x → s.cliAt y = none := fun y hy => by
    cases hd : s.cliAt y with
    | none => rfl
    | some d => exact absurd ((cliAt_mem hd).2.symm.trans (halone d (cliAt_mem hd).1)) hy
  have hall : Frame x c.fd s u := by
    refine ⟨hsteps.sameServer, ?_, fun y hy => ?_, fun fd' hne => ?_⟩
    · rw [hu, chs_sendAll]
      rfl
    · rw [hu, cliAt_sendAll]
      show (s.cliAt y).map _ = s.cliAt y
      rw [hnone y hy]
      rfl
    · rw [hu, fdsToErase_sendAll]
      exact (Frame.refl x c.fd s).mark.marks fd' hne
  exact hall.note _

/-- **A client that is not registered touches nobody else**, exactly if its command is not `QUIT` or
there is nobody else. -/
theorem frame_iff (hr : Reachable pass lfd cfg) (hc : cfg.srv.cliAt x = some c)
    (hreg : c.registered = false) (line : Str) : ∃ s', cfg.srv.execLine x line = .ok s' ∧
      (Frame x c.fd cfg.srv s' ↔
        ¬ CmdIs (splitCmdToArgs line) "QUIT" ∨ ∀ d ∈ cfg.srv.clients, d.addr = x) := by
  have hI := hr.good.inv
  have hx : ¬ IsReg cfg.srv x := fun h => by
    rw [(isReg_iff hc).mp h] at hreg
    cases hreg
  obtain ⟨s', hs'⟩ : ∃ s', cfg.srv.execLine x line = .ok s' :=
    (execLine_ok_iff hI hc).mpr (cmdSafe_of_not_reg hx)
  refine ⟨s', hs', fun hframe => ?_, fun h => ?_⟩
  · by_contra hno
    push Not at hno
    obtain ⟨hq, d, hd, hne⟩ := hno
    have hdat := cliAt_of_mem hI hd
    exact quit_touches hI hc hq hs' hdat ((hframe.others d.addr hne).trans hdat)
  · rcases h with hq | halone
    · obtain ⟨u, -, rfl, -, -, hsteps⟩ := execLine_run hI hc hs'
      exact (Steps.frame hI hx hc hq hsteps).note _
    · by_cases hq : CmdIs (splitCmdToArgs line) "QUIT"
      · exact quit_frame hI hc hq hs' halone
      · obtain ⟨u, -, rfl, -, -, hsteps⟩ := execLine_run hI hc hs'
        exact (Steps.frame hI hx hc hq hsteps).note _

/-- A first line of a new connection leaves the other client alone. -/
theorem frame_iff_nick : ∃ cfg c s', runServer (str "2") 3
      (connect 0 alice ++ say 0 0 3 (register "al") ++ connect 1 bob) = .ok cfg ∧
    cfg.srv.cliAt bob.addr = some c ∧ cfg.srv.execLine bob.addr (str "NICK bob") = .ok s' ∧
    Frame bob.addr c.fd cfg.srv s' := by
  obtain ⟨cfg, hrun, hP⟩ := exists_run (str "2") 3
    (connect 0 alice ++ say 0 0 3 (register "al") ++ connect 1 bob)
    (fun cfg => (cfg.srv.cliAt bob.addr).any fun c => c.registered = false) (by decide +kernel)
  simp only [Option.any_eq_true, decide_eq_true_eq] at hP
  obtain ⟨c, hc, hreg⟩ := hP
  obtain ⟨s', hs', hiff⟩ := frame_iff ⟨_, hrun⟩ hc hreg (str "NICK bob")
  refine ⟨cfg, c, s', hrun, hc, hs', hiff.mpr (.inl ?_)⟩
  unfold CmdIs
  decide

/-- `QUIT` of a connection that has sent nothing else tells a registered client. -/
theorem frame_quit : ¬ ∀ (pass : Str) (lfd : Nat) (cfg : Config), Reachable pass lfd cfg →
    ∀ (x : Ptr) (c : Cli), cfg.srv.cliAt x = some c → c.registered = false → ∀ (line : Str) (s' : Server),
      cfg.srv.execLine x line = .ok s' → Frame x c.fd cfg.srv s' := by
  intro hall
  obtain ⟨cfg, hrun, hP⟩ := exists_run (str "2") 3
    (connect 0 alice ++ say 0 0 3 (register "al") ++ connect 1 bob)
    (fun cfg => ((cfg.srv.cliAt bob.addr).any fun c => c.registered = false) &&
      (cfg.srv.cliAt alice.addr).isSome) (by decide +kernel)
  simp only [Bool.and_eq_true, Option.any_eq_true, decide_eq_true_eq, Option.isSome_iff_exists] at hP
  obtain ⟨⟨c, hc, hreg⟩, d, hd⟩ := hP
  have hI : Inv cfg.srv := (show Reachable _ _ cfg from ⟨_, hrun⟩).good.inv
  have hx : ¬ IsReg cfg.srv bob.addr := fun h => by
    rw [(isReg_iff hc).mp h] at hreg
    cases hreg
  have hq : CmdIs (splitCmdToArgs (str "QUIT")) "QUIT" := by
    unfold CmdIs
    decide
  obtain ⟨s', hs'⟩ : ∃ s', cfg.srv.execLine bob.addr (str "QUIT") = .ok s' :=
    (execLine_ok_iff hI hc).mpr (cmdSafe_of_not_reg hx)
  have hframe := hall _ _ cfg ⟨_, hrun⟩ _ c hc hreg (str "QUIT") s' hs'
  exact quit_touches hI hc hq hs' hd ((hframe.others alice.addr (by decide)).trans hd)

end FtIrc
