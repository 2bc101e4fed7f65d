import FtIrc.Reach

/-!
# What is sent

* `appended_frames` — what a command appends to the buffer of any client is a sequence of frames,
  and cutting it at CRLF gives back the lines that were prepared.
* `intact_run` — as long as no `send` fails, no byte of what was prepared for a client is lost,
  repeated or reordered: what the kernel accepted, followed by `bufToSend`, is the sequence of the
  frames.  A failing `send` empties the buffer (`sent_failed`).
-/

namespace FtIrc

open Std Outcome Server Delimited

variable {s s' : Server} {x y : Ptr} {c c' d : Cli} {fd lfd : Nat} {pass : Str} {cfg cfg' : Config}
  {i : Input}

/-! ## Frames -/

theorem piece_of_line {m : Str} (hm : Line m) : Piece CRLF (m.take (MAX_CMD_LEN - 2)) :=
  piece_of_free crlf_ne_nil crlf_unbordered (hm.1.sub (List.take_prefix _ m).isInfix)

theorem frame_line {m : Str} (hm : Line m) :
    (frame m).length ≤ MAX_CMD_LEN ∧ CRLF <:+ frame m ∧ CrlfFree (frame m).dropLast := by
  refine ⟨?_, List.suffix_append _ _, ?_⟩
  · simp only [frame, List.length_append, List.length_take, CRLF, List.length_cons, List.length_nil,
      MAX_CMD_LEN]
    omega
  · have hdrop : (frame m).dropLast = m.take (MAX_CMD_LEN - 2) ++ [CR] := by
      unfold frame CRLF
      rw [List.dropLast_append_of_ne_nil (by simp)]
      rfl
    rw [hdrop]
    refine crlfFree_append (hm.1.sub (List.take_prefix _ m).isInfix) ?_ fun _ h => ?_
    · exact fun h => absurd (h.subset (by simp [CRLF])) (by decide : LF ∉ [CR])
    · exact absurd h (by decide)

/-- A receiver that cuts at CRLF gets the lines back, each truncated. -/
theorem split_frames {ms : List Str} (h : ∀ m ∈ ms, Line m) :
    split CRLF (frames ms) = (ms.map (·.take (MAX_CMD_LEN - 2)), []) := by
  have hparts : ∀ p ∈ ms.map (·.take (MAX_CMD_LEN - 2)), Piece CRLF p := by
    intro p hp
    obtain ⟨m, hm, rfl⟩ := List.mem_map.mp hp
    exact piece_of_line (h m hm)
  have hsplit := split_pieces crlf_ne_nil hparts crlfFree_nil
  have hkeep : (ms.map (·.take (MAX_CMD_LEN - 2))).filter (· ≠ []) =
      ms.map (·.take (MAX_CMD_LEN - 2)) := by
    refine List.filter_eq_self.mpr fun p hp => ?_
    obtain ⟨m, hm, rfl⟩ := List.mem_map.mp hp
    simp [MAX_CMD_LEN, (h m hm).2]
  rw [hkeep, List.append_nil, List.map_map] at hsplit
  exact hsplit

/-- **Outgoing framing**: a received command appends to the buffer of a client frames of at most 512
bytes; CRLF ends each of them and occurs nowhere else. -/
theorem appended_frames (hr : Reachable pass lfd cfg) {a : Cli} (hx : cfg.srv.cliAt x = some a)
    {bufRecv buf line : Str} (hline : line ∈ (splitBufToCmds bufRecv buf).1)
    (hok : cfg.srv.execLine x line = .ok s') (hc : cfg.srv.clis[fd]? = some c) :
    ∃ c' ms, s'.clis[fd]? = some c' ∧ c'.bufToSend = c.bufToSend ++ frames ms ∧
      c'.hist.prepared = c.hist.prepared ++ ms ∧
      (∀ m ∈ ms, (frame m).length ≤ MAX_CMD_LEN ∧ CRLF <:+ frame m ∧
        CrlfFree (frame m).dropLast) ∧
      split CRLF (frames ms) = (ms.map (·.take (MAX_CMD_LEN - 2)), []) := by
  have hg := hr.good
  have hfree : CrlfFree line := by
    unfold splitBufToCmds at hline
    split at hline
    · exact absurd hline List.not_mem_nil
    · exact split_part_free crlf_ne_nil hline
  obtain ⟨-, t, hmid, rfl⟩ := (execLine_spec hg.inv hx line).of_ok hok
  have hat := cliAt_of_mem hg.inv (mem_clients.mpr ⟨fd, hc⟩)
  obtain ⟨d, hd, hl⟩ := hmid.steps.later_of hat
  obtain ⟨ms, hsend, hprep, hgot⟩ := hl.out
  have hms : ∀ m ∈ ms, Line m := fun m hm =>
    (hgot m hm).line hg.tidy (tidyArgs_splitCmdToArgs hfree)
  obtain ⟨fd', hfd'⟩ := mem_clients.mp (cliAt_mem hd).1
  have hfd : fd' = fd := by
    rw [← hmid.inv.fd_eq fd' d hfd', hl.fd, hg.inv.fd_eq fd c hc]
  subst hfd
  refine ⟨_, ms, by rw [Server.note, getElem?_clis_updCli, hfd', Option.map_some], ?_, ?_,
    fun m hm => frame_line (hms m hm), split_frames hms⟩
  · split <;> exact hsend
  · split <;> exact hprep

/-- A line of 600 octets to another client. -/
def longLine : Str := str "PRIVMSG bo :" ++ List.replicate 600 97

def bothRegister : List Input := connect 0 alice ++ connect 1 bob ++ say 0 1 3 (register "al") ++
  say 1 0 3 (register "bo")

/-- The addressee gets one frame, which is cut. -/
theorem appended_frames_cut : ∃ cfg s' c c' ms, runServer (str "2") 3 bothRegister = .ok cfg ∧
    cfg.srv.execLine alice.addr longLine = .ok s' ∧ cfg.srv.clis[bob.fd]? = some c ∧ s'.clis[bob.fd]? = some c' ∧
    c'.bufToSend.length = c.bufToSend.length + MAX_CMD_LEN ∧ c'.bufToSend = c.bufToSend ++ frames ms ∧
    (∀ m ∈ ms, (frame m).length ≤ MAX_CMD_LEN ∧ CRLF <:+ frame m ∧ CrlfFree (frame m).dropLast) ∧
    split CRLF (frames ms) = (ms.map (·.take (MAX_CMD_LEN - 2)), []) := by
  obtain ⟨cfg, hrun, hP⟩ := exists_run (str "2") 3 bothRegister
    (fun cfg => (cfg.srv.cliAt alice.addr).isSome && (cfg.srv.clis[bob.fd]?).any fun c : Cli =>
      (cfg.srv.execLine alice.addr longLine).toOption.any fun s' => (s'.clis[bob.fd]?).any fun c' : Cli =>
        c'.bufToSend.length = c.bufToSend.length + MAX_CMD_LEN) (by decide +kernel)
  simp only [Bool.and_eq_true, Option.isSome_iff_exists, Option.any_eq_true, decide_eq_true_eq] at hP
  obtain ⟨⟨a, ha⟩, c, hc, s', hs, c', hc', hlen⟩ := hP
  have hok := eq_ok_of_toOption hs
  have hline : longLine ∈ (splitBufToCmds [] (longLine ++ CRLF)).1 := by decide +kernel
  obtain ⟨d, ms, hd, hsend, -, hms, hsplit⟩ := appended_frames ⟨_, hrun⟩ ha hline hok hc
  rw [hc'] at hd
  cases hd
  exact ⟨cfg, s', c, c', ms, hrun, hok, hc, hc', hlen, hsend, hms, hsplit⟩

/-! ## The output stream -/

/-- No byte prepared for a client is lost, repeated or reordered. -/
def Cli.Intact (c : Cli) : Prop := c.hist.accepted ++ c.bufToSend = frames c.hist.prepared

def Intact (s : Server) : Prop := ∀ c ∈ s.clients, c.Intact

/-- `send` fails for a client for which something waits. -/
def SendFails (cfg : Config) (i : Input) : Prop :=
  i = .send (-1) ∧ ∃ fd r todo c, cfg.phase = .events ((fd, r) :: todo) ∧
    cfg.srv.clis[fd]? = some c ∧ c.bufToSend ≠ []

theorem sent_intact {n : Int} (hc : c.Intact)
    (hn : n = -1 ∧ c.bufToSend = [] ∨ 0 ≤ n ∧ n ≤ c.bufToSend.length ∧ n ≤ SSIZE_MAX) :
    (c.sent n).Intact := by
  unfold Cli.Intact Cli.sent
  show (c.hist.accepted ++ c.bufToSend.take n.toNat) ++
    (if n = c.bufToSend.length then [] else c.bufToSend.drop (toSizeT n)) = frames c.hist.prepared
  rcases hn with ⟨rfl, hb⟩ | ⟨h0, hle, hmax⟩
  · unfold Cli.Intact at hc
    rw [hb] at hc ⊢
    simpa using hc
  · rw [List.append_assoc, ← hc]
    congr 1
    split
    · rename_i hall
      rw [hall, Int.toNat_natCast, List.take_length, List.append_nil]
    · have hsize : toSizeT n = n.toNat := by
        unfold toSizeT
        unfold SSIZE_MAX at hmax
        rw [Int.emod_eq_of_lt h0 (by omega)]
      rw [hsize, List.take_append_drop]

theorem Intact.put (h : Intact s) (hc : s.cliAt x = some c) (hc' : c'.Intact) :
    Intact (s.updCli x fun _ => c') := by
  intro d hd
  rcases (mem_clients_put hc).mp hd with rfl | ⟨hd, -⟩
  · exact hc'
  · exact h d hd

theorem Intact.of_other (h : Intact s) (hclis : s'.clis = s.clis) : Intact s' := by
  have hclients : s'.clients = s.clients := by unfold clients; rw [hclis]
  unfold Intact
  rw [hclients]
  exact h

/-- One transition, unless `send` fails in it. -/
theorem Move.intact {phase phase' : Phase} (h : Move s phase i s' phase') (hg : Good ⟨s, phase⟩)
    (hs : Intact s) (hno : ¬ SendFails ⟨s, phase⟩ i) : Intact s' := by
  obtain ⟨hI, -, hauthor, -⟩ := hg
  cases h with
  | clis s' hclean =>
    obtain ⟨s'', hs'', -, hint⟩ := eraseUnusedClis_done (P := Intact)
      (fun s c hI hs hc _ d hd => hs d ((mem_clients_reap hI hc).mp hd).1)
      (fun s s' hclis _ _ _ hs => hs.of_other hclis) hI hs
    rw [hclean] at hs''
    cases hs''
    exact hint
  | chs s' freed hclean =>
    rw [eraseUnusedChs_ok hI] at hclean
    cases hclean
    exact hs.of_other rfl
  | accept r todo conn _ hconn =>
    intro d hd
    rcases (mem_clients_addNewClient hconn).mp hd with rfl | hd
    · rfl
    · exact hs d hd
  | recv fd r todo c chunk s' lines _ hc _ hrecv =>
    have hat := cliAt_of_clis hI hc
    rw [receiveBuf_ok hI hat] at hrecv
    cases hrecv
    exact hs.put hat (hs c (cliAt_mem hat).1)
  | send fd r todo c n d s' _ _ hc hd hn hsend =>
    have hcm := mem_clients.mpr ⟨fd, hc⟩
    have hat := cliAt_of_mem hI hcm
    have hdc : d = c := by
      rw [deref_of_cliAt hI hat] at hd
      exact (Except.ok.inj hd).symm
    subst hdc
    obtain ⟨polls, hs'⟩ := sendPreparedResps_ok hI hat n
    rw [hs'] at hsend
    cases hsend
    have hsent : (d.sent n).Intact := by
      refine sent_intact (hs d hcm) (hn.imp_left fun hfail => ⟨hfail, ?_⟩)
      by_contra hb
      exact hno ⟨by rw [hfail], fd, r, todo, d, rfl, hc, hb⟩
    exact (hs.put hat hsent).of_other rfl
  | cmd x line lines todo s' hexec =>
    obtain ⟨⟨a, ha⟩, -⟩ := hauthor x (line :: lines) todo rfl
    obtain ⟨-, t, hmid, rfl⟩ := (execLine_spec hI ha line).of_ok hexec
    have hsteps : Intact t := by
      intro d hd
      obtain ⟨c, hc, hl⟩ := hmid.steps.earlier_of (cliAt_of_mem hmid.inv hd)
      obtain ⟨ms, hsend, hprep, -⟩ := hl.out
      have hbefore : c.hist.accepted ++ c.bufToSend = frames c.hist.prepared :=
        hs c (cliAt_mem hc).1
      show d.hist.accepted ++ d.bufToSend = frames d.hist.prepared
      rw [hl.accepted, hsend, hprep, frames_append, ← hbefore, List.append_assoc]
    obtain ⟨d, hd, -⟩ := hmid.author
    have hnote : t.note x (splitCmdToArgs line) = t.updCli x fun _ => _ := updCli_const hmid.inv hd _
    rw [hnote]
    exact hsteps.put hd (hsteps d (cliAt_mem hd).1)
  | mark => exact hs.of_other rfl
  | recvClosed fd r todo c d _ _ _ => exact hs.of_other rfl
  | _ => exact hs

/-- **Output stream integrity**, in the runs in which no `send` fails for a client with something to
send: what the kernel accepted for a client, followed by its `bufToSend`, is the sequence of the
frames prepared for it. -/
theorem intact_run (is : List Input) (hrun : runServer pass lfd is = .ok cfg)
    (hsend : Runs.Along step (fun cfg i => ¬ SendFails cfg i) is (start pass lfd)) :
    ∀ c ∈ cfg.srv.clients, c.hist.accepted ++ c.bufToSend = frames c.hist.prepared := by
  have hstart : Intact (start pass lfd).srv := by
    intro c hc
    obtain ⟨fd, hfd⟩ := mem_clients.mp hc
    simp [start] at hfd
  have hkeep : ∀ cfg i cfg', Good cfg ∧ Intact cfg.srv → ¬ SendFails cfg i → step cfg i = .ok cfg' →
      Good cfg' ∧ Intact cfg'.srv := by
    rintro cfg i cfg' ⟨hg, hs⟩ hno hstep
    exact ⟨good_step cfg i cfg' hg hstep, (move_of_step hstep).intact hg hs hno⟩
  have hinv := Runs.along_invariant hkeep is (start pass lfd) cfg ⟨good_start pass lfd, hstart⟩
    hsend hrun
  exact hinv.2

/-- The reply to `PING`, of which `send` has taken three bytes. -/
theorem intact_run_partial : ∃ cfg, runServer (str "2") 3
      (connect 0 alice ++ say 0 0 1 (str "PING\r\n") ++ drain 0 0 3) = .ok cfg ∧
    cfg.srv.clients.map (·.bufToSend) = [str "G\r\n"] ∧
    ∀ c ∈ cfg.srv.clients, c.hist.accepted ++ c.bufToSend = frames c.hist.prepared := by
  obtain ⟨cfg, hrun, hP⟩ := exists_run (str "2") 3
    (connect 0 alice ++ say 0 0 1 (str "PING\r\n") ++ drain 0 0 3)
    (fun cfg => cfg.srv.clients.map (·.bufToSend) = [str "G\r\n"]) (by decide +kernel)
  have hno : ∀ i ∈ connect 0 alice ++ say 0 0 1 (str "PING\r\n") ++ drain 0 0 3, i ≠ .send (-1) := by
    decide
  exact ⟨cfg, hrun, by simpa using hP,
    intact_run _ hrun (Runs.along_of_forall _ _ fun i hi _ hf => hno i hi hf.1)⟩

/-- **A failing `send` loses what was waiting**: the count −1 is converted to `size_t` in `erase`. -/
theorem sent_failed : ¬ ∀ (pass : Str) (lfd : Nat) (is : List Input) (cfg : Config),
    runServer pass lfd is = .ok cfg →
      ∀ c ∈ cfg.srv.clients, c.hist.accepted ++ c.bufToSend = frames c.hist.prepared := by
  intro hall
  obtain ⟨cfg, hrun, hP⟩ := exists_run (str "2") 3
    (connect 0 alice ++ say 0 0 1 (str "PING\r\n") ++ drain 0 0 (-1))
    (fun cfg => cfg.srv.clients.any fun c =>
      c.hist.accepted ++ c.bufToSend ≠ frames c.hist.prepared) (by decide +kernel)
  obtain ⟨c, hc, hne⟩ := List.any_eq_true.mp hP
  exact absurd (hall (str "2") 3 _ cfg hrun c hc) (by simpa using hne)

end FtIrc
