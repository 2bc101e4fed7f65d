import FtIrc.Lib.Ranked
import FtIrc.Hearing

/-!
# The loop comes back to `poll`

Between two calls of `poll`, `run` visits the entries of `polls` once and makes one cleanup.  A chunk holds at
most 171 commands (`length_splitBufToCmds`), so the number of steps is bounded by the number of clients
(`Phase.rank`), whatever the kernel answers; and the loop stops nowhere but at `poll` and at a command that uses
a null pointer (`returns_to_poll`).
-/

namespace FtIrc

open Std Outcome Server Delimited

variable {s s' : Server} {x p : Ptr} {c : Cli} {chunk rest : Str} {fd lfd : Nat} {r : Revents}
  {todo : List (Nat × Revents)} {phase phase' : Phase} {i : Input} {cfg cfg' : Config} {pass : Str}
  {is : List Input}

/-! ## Reachable configurations -/

theorem Reachable.step (hr : Reachable pass lfd cfg) (h : FtIrc.step cfg i = .ok cfg') :
    Reachable pass lfd cfg' := by
  obtain ⟨is, his⟩ := hr
  exact ⟨is ++ [i], Runs.run_append_ok.mpr ⟨cfg, his, Runs.run_cons_ok.mpr ⟨cfg', h, rfl⟩⟩⟩

/-- What a reachable configuration has, it keeps in a run whose steps satisfy `P`. -/
theorem Reachable.along {I : Config → Prop} {P : Config → Input → Prop}
    (hstep : ∀ t i t', Reachable pass lfd t → I t → P t i → FtIrc.step t i = .ok t' → I t')
    (hr : Reachable pass lfd cfg) (h : I cfg) (hP : Runs.Along FtIrc.step P is cfg)
    (hrun : Runs.run FtIrc.step is cfg = .ok cfg') : I cfg' := by
  have hone : ∀ t i t', (Reachable pass lfd t ∧ I t) → P t i → FtIrc.step t i = .ok t' →
      Reachable pass lfd t' ∧ I t' := fun t i t' ht hi ht' => ⟨ht.1.step ht', hstep t i t' ht.1 ht.2 hi ht'⟩
  exact (Runs.along_invariant hone is cfg cfg' ⟨hr, h⟩ hP hrun).2

theorem Reachable.invariant {I : Config → Prop} (hstart : I (start pass lfd))
    (hstep : ∀ t i t', Reachable pass lfd t → I t → FtIrc.step t i = .ok t' → I t') (hr : Reachable pass lfd cfg) :
    I cfg := by
  obtain ⟨is, his⟩ := hr
  have hall : Runs.Along FtIrc.step (fun _ _ => True) is (start pass lfd) :=
    Runs.along_of_forall is _ fun _ _ _ => trivial
  exact Reachable.along (fun t i t' hrt ht _ => hstep t i t' hrt ht) ⟨[], rfl⟩ hstart hall his

theorem cliOfFd_eq (hc : s.clis[fd]? = some c) : s.cliOfFd fd = .ok c.addr := by
  unfold cliOfFd
  rw [hc]

/-! ## The commands in a chunk -/

theorem splitBufToCmds_rest (h : CrlfFree rest) (s : Str) : CrlfFree (splitBufToCmds rest s).2 := by
  unfold splitBufToCmds
  split
  · exact h
  · exact split_rest_free crlf_ne_nil _

theorem receiveAll_rest : ∀ (chunks : List Str) (rest : Str), CrlfFree rest →
    CrlfFree (receiveAll rest chunks).2
  | [], _, h => h
  | _ :: chunks, _, h => receiveAll_rest chunks _ (splitBufToCmds_rest h _)

/-- What is left in a buffer contains no CRLF. -/
theorem Reachable.bufRecv_free (hr : Reachable pass lfd cfg) (hc : c ∈ cfg.srv.clients) : CrlfFree c.bufRecv := by
  obtain ⟨is, his⟩ := hr
  rw [← (heard_run his c hc).2]
  exact receiveAll_rest _ _ crlfFree_nil

/-- **A chunk of `n` bytes holds at most `(n + 2) / 3` commands.** -/
theorem length_splitBufToCmds (hrest : CrlfFree rest) (hchunk : chunk ≠ []) :
    3 * (splitBufToCmds rest (rest ++ chunk)).1.length ≤ chunk.length + 2 := by
  have hpos := List.length_pos_iff.mpr hchunk
  have hne : rest ++ chunk ≠ [] := by simp [hchunk]
  unfold splitBufToCmds
  rw [if_neg hne]
  split
  · -- the rewrite for `nc` makes one command
    rename_i hnc
    simp only [fromNetcat, Bool.and_eq_true, Option.isNone_iff_eq_none] at hnc
    have hfree : CrlfFree (rest ++ chunk).dropLast :=
      CrlfFree.sub ((find_eq_none_iff crlf_ne_nil).mp hnc.2) (List.dropLast_prefix _).isInfix
    have hone : 3 * (split CRLF ((rest ++ chunk).dropLast ++ CRLF)).1.length ≤ 4 :=
      length_split_le crlf_ne_nil hfree CRLF
    rw [List.append_assoc]
    show 3 * (split CRLF ((rest ++ chunk).dropLast ++ CRLF)).1.length ≤ _
    omega
  · exact length_split_le crlf_ne_nil hrest chunk

/-! ## The steps between two calls of `poll` -/

/-- How many steps there are to the next call of `poll`, at most. -/
def Phase.rank : Phase → Nat
  | .poll => 0
  | .mark => 1
  | .chs => 2
  | .clis => 3
  | .events todo => 4 + 173 * todo.length
  | .cmds _ lines todo => 5 + lines.length + 173 * todo.length

/-- The two phases that the rank tells. -/
theorem Phase.of_rank (phase : Phase) : (phase.rank = 0 → phase = .poll) ∧ (phase.rank = 3 → phase = .clis) := by
  cases phase with
  | events todo => constructor <;> intro h <;> simp only [Phase.rank] at h <;> omega
  | cmds x lines todo => constructor <;> intro h <;> simp only [Phase.rank] at h <;> omega
  | _ => simp [Phase.rank]

/-- The input is not an answer of `poll`. -/
def Input.isPoll : Input → Bool
  | .poll _ => true
  | _ => false

/-- `recv` fills `buf0` at most. -/
theorem length_chunk (h : step ⟨s, .events ((fd, r) :: todo)⟩ (.recv (.data chunk)) = .ok cfg') :
    chunk.length ≤ BUFSIZE - 1 := by
  unfold step at h
  simp only at h
  split at h
  · cases h
  split at h
  · obtain ⟨x, -, h⟩ := liftFault_bind_ok h
    split at h
    · rename_i hlen
      exact hlen.2
    · cases h
  split at h
  · obtain ⟨x, -, h⟩ := liftFault_bind_ok h
    obtain ⟨d, -, h⟩ := liftFault_bind_ok h
    cases h
  · cases h

theorem step_rank (hr : Reachable pass lfd cfg) (hi : i.isPoll = false) (h : step cfg i = .ok cfg') :
    cfg'.phase.rank < cfg.phase.rank := by
  have hI : Inv cfg.srv := hr.good.inv
  have hbuf : ∀ c ∈ cfg.srv.clients, CrlfFree c.bufRecv := fun c hc => hr.bufRecv_free hc
  obtain ⟨s, phase⟩ := cfg
  obtain ⟨s', phase'⟩ := cfg'
  have hmove : Move s phase i s' phase' := move_of_step h
  cases hmove with
  | poll rs _ _ => cases hi
  | recv fd r todo c chunk s' lines _ hc hne hs =>
    have hlen := length_chunk h
    rw [receiveBuf_ok hI (cliAt_of_clis hI hc)] at hs
    cases hs
    have hcmds := length_splitBufToCmds (hbuf c (mem_clients.mpr ⟨fd, hc⟩)) hne
    simp only [Phase.rank, List.length_cons, BUFSIZE] at hlen ⊢
    omega
  | _ =>
    simp only [Phase.rank, List.length_cons, List.length_nil]
    omega

/-- **Every step but that of `poll` comes nearer to `poll`.** -/
theorem steps_lower (pass : Str) (lfd : Nat) :
    Runs.Lowers step (Reachable pass lfd) (fun i => i.isPoll = false) (·.phase.rank) :=
  ⟨fun _ _ _ hr _ h => hr.step h, fun _ _ _ hr hi h => step_rank hr hi h⟩

/-! ## Where the loop stops -/

theorem stuck_unsafe (h : AtUnsafe cfg) (hr : Reachable pass lfd cfg) (i : Input) : step cfg i ≠ .ok cfg' := by
  intro hstep
  obtain ⟨x, line, lines, todo, hphase, hunsafe⟩ := h
  obtain ⟨⟨c, hc⟩, -⟩ := hr.good.author x (line :: lines) todo hphase
  obtain ⟨s, phase⟩ := cfg
  obtain ⟨s', phase'⟩ := cfg'
  subst hphase
  have hmove : Move s (.cmds x (line :: lines) todo) i s' phase' := move_of_step hstep
  cases hmove with
  | cmd x line lines todo s' hs =>
    rcases execLine_spec hr.good.inv hc line with ⟨hsafe, -⟩ | ⟨-, f, hf, -⟩
    · exact hunsafe hsafe
    · rw [hs] at hf
      cases hf

/-- At an entry of `polls` the kernel can always report an error, or that there is nothing. -/
theorem step_event (hg : Good ⟨s, .events ((fd, r) :: todo)⟩) (hb : Bookkept lfd s)
    (hk : fd ∈ s.clis ∨ fd = lfd ∧ r.pollout = false) :
    ∃ i cfg', i.isPoll = false ∧ step ⟨s, .events ((fd, r) :: todo)⟩ i = .ok cfg' := by
  have hI : Inv s := hg.inv
  have hcli : fd ∈ s.clis → ∃ c, s.cliOfFd fd = .ok c.addr ∧ s.cliAt c.addr = some c := by
    intro hin
    obtain ⟨x, hx⟩ := cliOfFd_found hin
    obtain ⟨c, hc, rfl⟩ := cliOfFd_ok hx
    exact ⟨c, hx, cliAt_of_clis hI hc⟩
  by_cases hin : r.pollin = true
  · by_cases hl : fd = s.fdForNewClis
    · refine ⟨.accept none, ⟨s, .clis⟩, rfl, ?_⟩
      unfold step
      simp only [hin, hl, and_self, if_true]
    · obtain ⟨c, hx, -⟩ := hcli (known_found hb hk (.inl ⟨hin, hl⟩))
      refine ⟨.recv .error, ⟨s, .events todo⟩, rfl, ?_⟩
      unfold step
      simp only [hin, hl, and_false, if_false, if_true, hx]
      rfl
  · by_cases hout : r.pollout = true
    · have hin' : r.pollin = false := by simpa using hin
      obtain ⟨c, hx, hc⟩ := hcli (known_found hb hk (.inr ⟨hin', hout⟩))
      obtain ⟨s', hsend⟩ : ∃ s', s.sendPreparedResps c.addr (-1) = .ok s' := ⟨_, sendPreparedResps_eq hI hc (-1)⟩
      refine ⟨.send (-1), ⟨s', .events todo⟩, rfl, ?_⟩
      unfold step
      simp only [hin', hout, Bool.false_eq_true, false_and, if_false, if_true, hx, liftFault, bind, Except.bind,
        deref_of_cliAt hI hc, true_or, hsend]
    · refine ⟨.next, ⟨s, .events todo⟩, rfl, ?_⟩
      unfold step
      simp only [hin, hout, Bool.false_eq_true, false_and, if_false]

/-- **The loop stops nowhere but at `poll` and at a command that is not `CmdSafe`.** -/
theorem stuck_iff (hr : Reachable pass lfd cfg) : Runs.Stuck step (fun i => i.isPoll = false) cfg ↔
    cfg.phase = .poll ∨ AtUnsafe cfg := by
  have hg := hr.good
  obtain ⟨hb, hk⟩ := hr.bookkept
  constructor
  · intro hstuck
    obtain ⟨s, phase⟩ := cfg
    cases phase with
    | clis =>
      obtain ⟨s', hs, -⟩ := eraseUnusedClis_good hg.inv hg.tidy
      refine absurd ?_ (hstuck .next ⟨s', .chs⟩ rfl)
      unfold step
      simp only [hs]
      rfl
    | chs =>
      obtain ⟨⟨s', freed⟩, hs⟩ : ∃ r, s.eraseUnusedChs = .ok r := ⟨_, eraseUnusedChs_ok hg.inv⟩
      refine absurd ?_ (hstuck .next ⟨s', .mark⟩ rfl)
      unfold step
      simp only [hs]
      rfl
    | mark => exact absurd rfl (hstuck .next ⟨s.markPollsToSendMsgsTo, .poll⟩ rfl)
    | poll => exact .inl rfl
    | events todo =>
      cases todo with
      | nil => exact absurd rfl (hstuck .next ⟨s, .clis⟩ rfl)
      | cons e todo =>
        obtain ⟨i, cfg', hi, hstep⟩ := step_event hg hb (hk e (List.mem_cons_self ..))
        exact absurd hstep (hstuck i cfg' hi)
    | cmds x lines todo =>
      cases lines with
      | nil => exact absurd rfl (hstuck .next ⟨s, .events todo⟩ rfl)
      | cons line lines =>
        obtain ⟨⟨c, hc⟩, -⟩ := hg.author x (line :: lines) todo rfl
        rcases execLine_spec hg.inv hc line with ⟨-, s', hs, -⟩ | ⟨hnot, -⟩
        · refine absurd ?_ (hstuck .next ⟨s', .cmds x lines todo⟩ rfl)
          unfold step
          simp only [hs]
          rfl
        · exact .inr ⟨x, line, lines, todo, rfl, hnot⟩
  · rintro (hphase | hunsafe) i cfg' hi
    · intro hstep
      obtain ⟨s, phase⟩ := cfg
      obtain ⟨s', phase'⟩ := cfg'
      subst hphase
      have hmove : Move s .poll i s' phase' := move_of_step hstep
      cases hmove with
      | poll => cases hi
    · exact stuck_unsafe hunsafe hr i

/-- `polls` has an entry for the listener and one for each client. -/
theorem Reachable.length_polls (hr : Reachable pass lfd cfg) : cfg.srv.polls.length = cfg.srv.clis.size + 1 := by
  have hlen := hr.bookkept.1.polls_perm.length_eq
  rw [List.length_map, List.length_cons, ExtTreeMap.length_keys] at hlen
  exact hlen

/-- After `poll` has returned, how far it is to its next call. -/
theorem rank_of_poll {rs : List Revents} (hr : Reachable pass lfd cfg) (h : step cfg (.poll rs) = .ok cfg') :
    cfg'.phase.rank = 177 + 173 * cfg.srv.clis.size := by
  have hlen := hr.length_polls
  obtain ⟨s, phase⟩ := cfg
  obtain ⟨s', phase'⟩ := cfg'
  have hmove : Move s phase (.poll rs) s' phase' := move_of_step h
  cases hmove with
  | poll rs hrs _ =>
    show 4 + 173 * ((s.polls.map (·.fd)).zip rs).length = _
    rw [List.length_zip, List.length_map, hrs, Nat.min_self, hlen]
    omega

/-- **Every iteration of `run` ends**: once `poll` has returned, with `n` clients connected, the loop makes at
most `177 + 173 * n` steps before it calls `poll` again, whatever the kernel answers and the clients send; and it
gets there, unless it comes to a command that uses a null pointer, behind which there is no step. -/
theorem returns_to_poll {cfg₀ : Config} {rs : List Revents} (hr : Reachable pass lfd cfg)
    (hpoll : step cfg (.poll rs) = .ok cfg₀) (hno : ∀ i ∈ is, i.isPoll = false)
    (hrun : Runs.run step is cfg₀ = .ok cfg') :
    ∃ js cfg'', (∀ j ∈ js, j.isPoll = false) ∧ Runs.run step js cfg' = .ok cfg'' ∧
      is.length + js.length ≤ 177 + 173 * cfg.srv.clis.size ∧
      (cfg''.phase = .poll ∨ AtUnsafe cfg'' ∧ ∀ i t, step cfg'' i ≠ .ok t) := by
  have hl := steps_lower pass lfd
  obtain ⟨hr', -⟩ := hl.run is cfg₀ cfg' (hr.step hpoll) hno hrun
  obtain ⟨js, cfg'', hjs, hrun', hstuck⟩ := hl.exists_stuck cfg' hr'
  have hall : ∀ i ∈ is ++ js, i.isPoll = false := by
    intro i hi
    rcases List.mem_append.mp hi with hi | hi
    · exact hno i hi
    · exact hjs i hi
  obtain ⟨hr'', hlen⟩ := hl.run (is ++ js) cfg₀ cfg'' (hr.step hpoll) hall (Runs.run_append_ok.mpr ⟨cfg', hrun, hrun'⟩)
  rw [rank_of_poll hr hpoll, List.length_append] at hlen
  refine ⟨js, cfg'', hjs, hrun', by omega, ?_⟩
  exact ((stuck_iff hr'').mp hstuck).imp_right fun h => ⟨h, fun i t => stuck_unsafe h hr'' i⟩

/-- A run that comes to `poll`, what `poll` reports there, and the steps behind it, with a decidable property of the
configurations at `poll` and at the end. -/
theorem exists_iteration (pass : Str) (lfd : Nat) (before js : List Input) (rs : List Revents)
    (P : Config → Config → Bool)
    (h : (match runServer pass lfd before with
      | .ok cfg => (match Runs.run FtIrc.step (.poll rs :: js) cfg with
        | .ok cfg' => P cfg cfg'
        | .error _ => false)
      | .error _ => false) = true) :
    ∃ cfg cfg₀ cfg', runServer pass lfd before = .ok cfg ∧ FtIrc.step cfg (.poll rs) = .ok cfg₀ ∧
      Runs.run FtIrc.step js cfg₀ = .ok cfg' ∧ P cfg cfg' = true := by
  cases hrun : runServer pass lfd before with
  | error e => rw [hrun] at h; cases h
  | ok cfg =>
    rw [hrun] at h
    simp only at h
    cases hrest : Runs.run FtIrc.step (.poll rs :: js) cfg with
    | error e => rw [hrest] at h; cases h
    | ok cfg' =>
      rw [hrest] at h
      obtain ⟨cfg₀, hpoll, hjs⟩ := Runs.run_cons_ok.mp hrest
      exact ⟨cfg, cfg₀, cfg', rfl, hpoll, hjs, h⟩

/-- `poll` returns while a client is connected, and it is readable; it sends a line. -/
theorem returns_to_poll_line : ∃ cfg cfg₀ cfg' js cfg'', Reachable (str "2") 3 cfg ∧
    step cfg (.poll [silent, readable]) = .ok cfg₀ ∧
    Runs.run step [.next, .recv (.data (str "NICK a\r\n"))] cfg₀ = .ok cfg' ∧
    Runs.run step js cfg' = .ok cfg'' ∧ 2 + js.length ≤ 350 := by
  obtain ⟨cfg, cfg₀, cfg', hrun, hpoll, hlast, hP⟩ := exists_iteration (str "2") 3
    (connect 0 alice ++ [.next, .next, .next]) [.next, .recv (.data (str "NICK a\r\n"))] [silent, readable]
    (fun cfg _ => cfg.srv.clis.size = 1) (by decide +kernel)
  have hsize : cfg.srv.clis.size = 1 := of_decide_eq_true hP
  obtain ⟨js, cfg'', -, hjs, hlen, -⟩ := returns_to_poll ⟨_, hrun⟩ hpoll (by decide) hlast
  rw [hsize] at hlen
  exact ⟨cfg, cfg₀, cfg', js, cfg'', ⟨_, hrun⟩, hpoll, hlast, hjs, hlen⟩

end FtIrc
