import FtIrc.Rounds

/-!
# An iteration in which nothing comes

`drained` — if nothing comes from the clients and `send` accepts what it is given, one iteration sends all that waits,
and the marked clients go.
-/

namespace FtIrc

open Std Outcome Server

variable {s₀ s s' : Server} {fd lfd : Nat} {phase phase' : Phase} {i : Input} {cfg cfg₀ cfg' : Config} {pass : Str}
  {is js : List Input} {rs : List Revents}

/-- A transition within an iteration, in which `send` accepts all that waits. -/
def takesAll (cfg : Config) (i : Input) : Bool :=
  match cfg.phase, i with
  | _, .poll _ => false
  | .events ((fd, _) :: _), .send n => (cfg.srv.clis[fd]?).all fun c => n = c.bufToSend.length
  | _, _ => true

/-- The clients, channels and marks of `s₀`. -/
structure Undisturbed (s₀ s : Server) : Prop where
  clients : ∀ fd : Nat, (s.clis[fd]?).map Cli.addr = (s₀.clis[fd]?).map Cli.addr
  chs : s.chs = s₀.chs
  marks : ∀ fd, fd ∈ s.fdsToErase ↔ fd ∈ s₀.fdsToErase

/-- What is left of `s₀` without the clients that are marked. -/
structure WithoutMarked (s₀ s : Server) : Prop where
  clients : ∀ fd : Nat, (s.clis[fd]?).map Cli.addr = if fd ∈ s₀.fdsToErase then none else (s₀.clis[fd]?).map Cli.addr
  members : ∀ (fd : Nat) c k, s₀.clis[fd]? = some c → (On s c.addr k ↔ On s₀ c.addr k ∧ fd ∉ s₀.fdsToErase)
  marks : ∀ fd, fd ∉ s.fdsToErase

/-- Where the iteration stands; `s₀` is the server at its call of `poll`. -/
def Drains (s₀ s : Server) : Phase → Prop
  | .events todo => Undisturbed s₀ s ∧ (∀ e ∈ todo, e.2.pollin = false) ∧
      ∀ fd, Waits s fd → ∃ r, (fd, r) ∈ todo ∧ r.pollout = true
  | .clis => Undisturbed s₀ s ∧ ∀ fd, ¬ Waits s fd
  | .chs | .mark | .poll => WithoutMarked s₀ s ∧ ∀ fd, ¬ Waits s fd
  | .cmds .. => False

/-! ## The steps -/

theorem gone_of_not_waits (h : ¬ Waits s fd) : s.gone fd = true := by
  unfold gone
  cases hc : s.clis[fd]? with
  | none => rfl
  | some c => simpa using fun hb => h ⟨c, hc, hb⟩

theorem Undisturbed.cleaned (h : Undisturbed s₀ s) (hI : Inv s) (hnone : ∀ fd, ¬ Waits s fd) :
    WithoutMarked s₀ s.cleaned := by
  refine ⟨fun fd => ?_, fun fd c k hc => ?_, fun fd hm => hnone fd (mem_fdsToErase_cleaned.mp hm).2⟩
  · rw [getElem?_clis_cleaned, ← h.clients]
    simp only [gone_of_not_waits (hnone fd), and_true, h.marks]
    split
    · rfl
    · rfl
  · have hsame := h.clients fd
    rw [hc, Option.map_some, Option.map_eq_some_iff] at hsame
    obtain ⟨d, hd, haddr⟩ := hsame
    rw [on_cleaned hI, ← haddr]
    have hleaving : Leaving s d.addr ↔ fd ∈ s₀.fdsToErase := by
      rw [← h.marks]
      constructor
      · rintro ⟨e, he, hm, -⟩
        rw [cliAt_of_clis hI hd] at he
        cases he
        rwa [hI.fd_eq fd d hd] at hm
      · intro hm
        refine ⟨d, cliAt_of_clis hI hd, by rwa [hI.fd_eq fd d hd], ?_⟩
        by_contra hb
        exact hnone fd ⟨d, hd, hb⟩
    rw [hleaving]
    unfold On
    rw [h.chs]

theorem not_waits_cleaned (h : ∀ fd, ¬ Waits s fd) (fd : Nat) : ¬ Waits s.cleaned fd := by
  rintro ⟨c, hc, hb⟩
  rw [getElem?_clis_cleaned] at hc
  split at hc
  · cases hc
  · exact h fd ⟨c, hc, hb⟩

/-- What has been sent to no longer waits. -/
theorem waits_sent {c : Cli} {ps : List Pollfd} (hc : s.clis[fd]? = some c) {fd' : Nat}
    (h : Waits { s.updCli c.addr fun _ => c.sent c.bufToSend.length with polls := ps } fd') :
    fd' ≠ fd ∧ Waits s fd' := by
  obtain ⟨d, hd, hb⟩ := h
  have hd : (s.updCli c.addr fun _ => c.sent c.bufToSend.length).clis[fd']? = some d := hd
  rw [getElem?_clis_updCli, Option.map_eq_some_iff] at hd
  obtain ⟨e, he, heq⟩ := hd
  split at heq
  · rw [← heq] at hb
    exact absurd (if_pos rfl) hb
  · rename_i hne
    cases heq
    refine ⟨?_, d, he, hb⟩
    rintro rfl
    rw [hc] at he
    cases he
    exact hne rfl

theorem takesAll_send {r : Revents} {todo : List (Nat × Revents)} {c : Cli} {n : Int} (hc : s.clis[fd]? = some c)
    (h : takesAll ⟨s, .events ((fd, r) :: todo)⟩ (.send n) = true) : n = c.bufToSend.length := by
  have hall : (s.clis[fd]?).all (fun c => n = c.bufToSend.length) = true := h
  rw [hc] at hall
  exact of_decide_eq_true hall

theorem Move.drains (h : Move s phase i s' phase') (hg : Good ⟨s, phase⟩) (hd : Drains s₀ s phase)
    (htakes : takesAll ⟨s, phase⟩ i = true) : Drains s₀ s' phase' := by
  have hI : Inv s := hg.inv
  cases h with
  | clis s' hs =>
    rw [eraseUnusedClis_eq hI] at hs
    cases hs
    exact ⟨hd.1.cleaned hI hd.2, not_waits_cleaned hd.2⟩
  | chs s' freed hs =>
    rw [eraseUnusedChs_ok hI] at hs
    cases hs
    exact ⟨⟨hd.1.clients, fun fd c k hc => on_filter.trans (hd.1.members fd c k hc), hd.1.marks⟩, hd.2⟩
  | mark => exact ⟨⟨hd.1.clients, hd.1.members, hd.1.marks⟩, hd.2⟩
  | poll => cases htakes
  | again =>
    refine ⟨hd.1, fun fd hw => ?_⟩
    obtain ⟨r, hr, -⟩ := hd.2.2 fd hw
    cases hr
  | send fd r todo c n d s' _ _ hc _ _ hs =>
    obtain rfl := takesAll_send hc htakes
    rw [sendPreparedResps_eq hI (cliAt_of_clis hI hc)] at hs
    cases hs
    obtain ⟨hsame, hquiet, hwait⟩ := hd
    refine ⟨⟨fun fd' => ?_, hsame.chs, hsame.marks⟩, fun e he => hquiet e (List.mem_cons_of_mem _ he), fun fd' hw => ?_⟩
    · rw [← hsame.clients]
      show ((s.updCli c.addr fun _ => c.sent c.bufToSend.length).clis[fd']?).map _ = _
      rw [getElem?_clis_updCli, Option.map_map]
      refine Option.map_congr fun e _ => ?_
      show (if e.addr = c.addr then c.sent c.bufToSend.length else e).addr = e.addr
      split
      · rename_i heq
        exact heq.symm
      · rfl
    · obtain ⟨hne, hw⟩ := waits_sent hc hw
      obtain ⟨r', hr', hout⟩ := hwait fd' hw
      refine ⟨r', (List.mem_cons.mp hr').resolve_left fun heq => ?_, hout⟩
      exact hne (congrArg Prod.fst heq)
  | idle fd r todo _ hout =>
    obtain ⟨hsame, hquiet, hwait⟩ := hd
    refine ⟨hsame, fun e he => hquiet e (List.mem_cons_of_mem _ he), fun fd' hw => ?_⟩
    obtain ⟨r', hr', hout'⟩ := hwait fd' hw
    refine ⟨r', (List.mem_cons.mp hr').resolve_left fun heq => ?_, hout'⟩
    cases heq
    rw [hout] at hout'
    cases hout'
  | acceptError r todo hin | accept r todo _ hin | recvError _ r todo hin =>
    exact absurd (hd.2.1 _ (List.mem_cons_self ..)) (by rw [hin]; decide)
  | recvClosed fd r todo _ _ hin | recv fd r todo _ _ _ _ hin =>
    exact absurd (hd.2.1 _ (List.mem_cons_self ..)) (by rw [hin]; decide)
  | done | cmd => exact hd.elim

theorem not_sendFails (h : takesAll cfg i = true) : ¬ SendFails cfg i := by
  obtain ⟨s, phase⟩ := cfg
  rintro ⟨rfl, fd, r, todo, c, rfl, hc, -⟩
  have hall := takesAll_send hc h
  omega

/-! ## The iteration -/

theorem drains_poll (hpoll : step cfg (.poll rs) = .ok cfg₀) (hw : Wakes cfg.srv cfg.phase)
    (hr : Reachable pass lfd cfg) (hquiet : ∀ r ∈ rs, r.pollin = false)
    (hready : ∀ e ∈ cfg.srv.polls.zip rs, e.1.events = .pollout → e.2.pollout = true) :
    Drains cfg.srv cfg₀.srv cfg₀.phase := by
  have hb := hr.bookkept.1
  obtain ⟨s, phase⟩ := cfg
  obtain ⟨s', phase'⟩ := cfg₀
  have hmove : Move s phase (.poll rs) s' phase' := move_of_step hpoll
  cases hmove with
  | poll rs hlen _ =>
    refine ⟨⟨fun _ => rfl, rfl, fun _ => Iff.rfl⟩, fun e he => hquiet _ (List.of_mem_zip he).2, fun fd hwait => ?_⟩
    obtain ⟨c, hc, -⟩ := id hwait
    obtain ⟨p, hp, rfl⟩ := List.mem_map.mp (hb.entry fd (.inr (mem_of_getElem?_clis hc)))
    have hout : p.events = .pollout := hw.all rfl p.fd hwait p hp rfl
    -- `poll` has answered for the entry
    have hfst : p ∈ (s.polls.zip rs).map Prod.fst := by
      rw [List.map_fst_zip (by omega)]
      exact hp
    obtain ⟨⟨q, r⟩, hmem, hq⟩ := List.mem_map.mp hfst
    obtain rfl : q = p := hq
    refine ⟨r, ?_, hready _ hmem hout⟩
    show (q.fd, r) ∈ (s.polls.map (·.fd)).zip rs
    rw [List.zip_map_left]
    exact List.mem_map.mpr ⟨_, hmem, rfl⟩

/-- **An iteration in which nothing comes drains the server**: if `poll` reports no `POLLIN`, and `POLLOUT` where it was
asked for, and `send` accepts all that it is given, then at the next call of `poll` nothing waits, everything that
was prepared for a client has been accepted, `polls` asks for `POLLIN` only, and the clients that were marked are gone
from the server and its channels, and nobody else. -/
theorem drained (hrun : runServer pass lfd is = .ok cfg)
    (hsend : Runs.Along step (fun cfg i => ¬ SendFails cfg i) is (start pass lfd))
    (hpoll : step cfg (.poll rs) = .ok cfg₀) (hquiet : ∀ r ∈ rs, r.pollin = false)
    (hready : ∀ e ∈ cfg.srv.polls.zip rs, e.1.events = .pollout → e.2.pollout = true)
    (htakes : Runs.Along step (fun cfg i => takesAll cfg i = true) js cfg₀) (hjs : Runs.run step js cfg₀ = .ok cfg')
    (hend : cfg'.phase = .poll) :
    (∀ c ∈ cfg'.srv.clients, c.bufToSend = [] ∧ c.hist.accepted = frames c.hist.prepared) ∧
    (∀ p ∈ cfg'.srv.polls, p.events = .pollin) ∧ WithoutMarked cfg.srv cfg'.srv := by
  have hr : Reachable pass lfd cfg := ⟨is, hrun⟩
  have hinv := Reachable.along (I := fun t => Wakes t.srv t.phase ∧ Intact t.srv ∧ Drains cfg.srv t.srv t.phase)
    (fun t i t' hrt hI hP hstep => ?_) (hr.step hpoll) ?_ htakes hjs
  · obtain ⟨hw, hintact, hd⟩ := hinv
    rw [hend] at hd
    obtain ⟨hwithout, hnone⟩ := hd
    refine ⟨fun c hc => ?_, fun p hp => ?_, hwithout⟩
    · obtain ⟨fd, hfd⟩ := mem_clients.mp hc
      have hb : c.bufToSend = [] := by
        by_contra hb
        exact hnone fd ⟨c, hfd, hb⟩
      have happ : c.hist.accepted ++ c.bufToSend = frames c.hist.prepared := hintact c hc
      rw [hb, List.append_nil] at happ
      exact ⟨hb, happ⟩
    · cases he : p.events with
      | pollin => rfl
      | pollout => exact absurd (hw.asked p hp he) (hnone p.fd)
  · obtain ⟨hw, hintact, hd⟩ := hI
    have hmove := move_of_step hstep
    have hno := not_sendFails hP
    exact ⟨hmove.wakes hrt.good hrt.bookkept.1 hw hno, hmove.intact hrt.good hintact hno,
      hmove.drains hrt.good hd hP⟩
  · have hw := wakes_run hrun hsend
    have hmove := move_of_step hpoll
    have hno : ¬ SendFails cfg (.poll rs) := fun h => nomatch h.1
    exact ⟨hmove.wakes hr.good hr.bookkept.1 hw hno,
      hmove.intact hr.good (intact_along hrun hsend) hno, drains_poll hpoll hw hr hquiet hready⟩

/-- A client that has sent `QUIT` is sent the line for it, and is gone. -/
theorem drained_quit : ∃ cfg cfg₀ cfg', runServer (str "2") 3
      (connect 0 alice ++ say 0 0 1 (str "QUIT\r\n") ++ [.next, .next, .next]) = .ok cfg ∧
    step cfg (.poll [silent, writable]) = .ok cfg₀ ∧
    Runs.run step [.next, .send 25, .next, .next, .next, .next] cfg₀ = .ok cfg' ∧
    alice.fd ∈ cfg.srv.fdsToErase ∧ alice.fd ∉ cfg'.srv.clis := by
  obtain ⟨cfg, cfg₀, cfg', hrun, hpoll, hjs, hP⟩ := exists_iteration (str "2") 3
    (connect 0 alice ++ say 0 0 1 (str "QUIT\r\n") ++ [.next, .next, .next])
    [.next, .send 25, .next, .next, .next, .next] [silent, writable]
    (fun cfg cfg' => cfg'.phase.rank = 0 && cfg.srv.polls = [⟨3, .pollin⟩, ⟨4, .pollout⟩] &&
      alice.fd ∈ cfg.srv.fdsToErase && (step cfg (.poll [silent, writable])).toOption.any
        (Runs.check step takesAll [.next, .send 25, .next, .next, .next, .next])) (by decide +kernel)
  rw [hpoll] at hP
  simp only [Bool.and_eq_true, decide_eq_true_eq, Except.toOption, Option.any_some] at hP
  obtain ⟨⟨⟨hend, hpolls⟩, hmark⟩, htakes⟩ := hP
  have hno : ∀ i ∈ connect 0 alice ++ say 0 0 1 (str "QUIT\r\n") ++ [.next, .next, .next], i ≠ .send (-1) := by decide
  obtain ⟨-, -, hwithout⟩ := drained hrun (Runs.along_of_forall _ _ fun i hi _ hf => hno i hi hf.1) hpoll
    (by decide) (by rw [hpolls]; decide) (Runs.along_of_check (fun _ _ h => h) _ _ htakes) hjs
    (cfg'.phase.of_rank.1 hend)
  refine ⟨cfg, cfg₀, cfg', hrun, hpoll, hjs, hmark, fun hin => ?_⟩
  have hgone := hwithout.clients alice.fd
  rw [if_pos hmark, Option.map_eq_none_iff] at hgone
  rw [ExtTreeMap.mem_iff_isSome_getElem?, hgone] at hin
  cases hin

end FtIrc
