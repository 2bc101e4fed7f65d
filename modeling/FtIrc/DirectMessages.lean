import FtIrc.ChannelMessages
import FtIrc.Transitions

/-!
# PRIVMSG to a client

`Message.decode` reads a relayed line by the grammar of the protocol.  No nick contains a space or `!`, and
no user name a space, because `USER` takes the name from an argument that is not the last (`Parted`); so
`decode_privmsgLine` gives back what was sent, and `arrives_intact` follows the line to the buffer of its
addressee.
-/

namespace FtIrc

open Std Outcome Server Delimited

variable {s s' : Server} {x y : Ptr} {ar : List Str} {c d : Cli} {w text line : Str} {cfg : Config} {pass : Str}
  {lfd : Nat}

/-! ## The grammar -/

/-- What a client reads in a message that was relayed to it. -/
structure Message where
  nick : Str
  cmd : Str
  target : Str
  text : Str

/-- A frame, read by the grammar: the prefix up to the first space, in it the nick up to the first `!`, the
command, the target, and what trails behind ` :`. -/
def Message.decode (frame : Str) : Option Message := do
  let (line, _) ← cut CRLF frame
  let (before, line) ← cut [COLON] line
  guard (before = [])
  let (sender, line) ← cut [SPACE] line
  let (nick, _) ← cut (str "!") sender
  let (cmd, line) ← cut [SPACE] line
  let (target, text) ← cut (str " :") line
  return ⟨nick, cmd, target, text⟩

theorem unbordered_text : Unbordered (str " :") := fun k h0 h1 => by
  have h2 : k < 2 := h1
  obtain rfl : k = 1 := by omega
  decide

theorem space_not_mem_localPrefix (hnick : SPACE ∉ c.nick) (hname : SPACE ∉ c.uName) : SPACE ∉ localPrefix c := by
  unfold localPrefix
  simp only [List.mem_append, not_or]
  exact ⟨⟨⟨hnick, by decide⟩, hname⟩, by decide⟩

/-- **A relayed line reads as it was written.** -/
theorem decode_privmsgLine (hnick : SPACE ∉ c.nick ∧ 33 ∉ c.nick) (hname : SPACE ∉ c.uName) (hw : SPACE ∉ w)
    (hfree : CrlfFree (privmsgLine c w text)) :
    Message.decode (privmsgLine c w text ++ CRLF) = some ⟨c.nick, str "PRIVMSG", w, text⟩ := by
  have hcrlf : cut CRLF (privmsgLine c w text ++ CRLF) = some (privmsgLine c w text, []) := by
    have h := cut_piece crlf_ne_nil (piece_of_free crlf_ne_nil crlf_unbordered hfree) []
    rwa [List.append_nil] at h
  have hline : privmsgLine c w text =
      COLON :: (localPrefix c ++ SPACE :: (str "PRIVMSG" ++ SPACE :: (w ++ (str " :" ++ text)))) := by
    unfold privmsgLine
    simp only [List.append_assoc]
    rfl
  have hcolon : cut [COLON] (privmsgLine c w text) =
      some ([], localPrefix c ++ SPACE :: (str "PRIVMSG" ++ SPACE :: (w ++ (str " :" ++ text)))) := by
    rw [hline]
    exact cut_singleton List.not_mem_nil _
  have hsender : cut (str "!") (localPrefix c) = some (c.nick, c.uName ++ str "@127.0.0.1") := by
    have h := cut_singleton hnick.2 (c.uName ++ str "@127.0.0.1")
    rwa [← show localPrefix c = c.nick ++ 33 :: (c.uName ++ str "@127.0.0.1") by
      unfold localPrefix
      simp only [List.append_assoc]
      rfl] at h
  have htarget : cut (str " :") (w ++ (str " :" ++ text)) = some (w, text) := by
    refine cut_piece (by decide) (piece_of_free (by decide) unbordered_text fun h => hw ?_) text
    exact h.subset (by decide)
  unfold Message.decode
  rw [hcrlf, Option.bind_eq_bind, Option.bind_some]
  simp only [hcolon, Option.bind_eq_bind, Option.bind_some, guard,
    cut_singleton (space_not_mem_localPrefix hnick.1 hname), hsender,
    cut_singleton (show SPACE ∉ str "PRIVMSG" by decide), htarget]
  rfl

/-! ## The user names -/

/-- No user name contains a space. -/
def Parted (s : Server) : Prop := ∀ d ∈ s.clients, SPACE ∉ d.uName

theorem Parted.put {c' : Cli} (hp : Parted s) (hc : s.cliAt y = some c) (h : SPACE ∉ c'.uName) :
    Parted (s.updCli y fun _ => c') := by
  intro d hd
  rcases (mem_clients_put hc).mp hd with rfl | ⟨hd, -⟩
  · exact h
  · exact hp d hd

/-- `USER` takes the name from the first of at least four arguments. -/
theorem Effect.parted {s₀ : Server} (hp : Parted s) (hwords : ∀ i a, ar[i]? = some a → i + 1 < ar.length → SPACE ∉ a)
    (h : Effect s₀ x ar s s') : Parted s' := by
  cases h with
  | cli y c c' hc heff =>
    have hname := hp c (cliAt_mem hc).1
    apply hp.put hc
    cases heff with
    | user _ a r _ ha hr _ =>
      have hlen := (List.getElem?_eq_some_iff.mp hr).1
      exact hwords 1 a ha (by omega)
    | _ => exact hname
  | ch | newCh | mark => exact hp

theorem Steps.parted {s₀ : Server} (hp : Parted s₀)
    (hwords : ∀ i a, ar[i]? = some a → i + 1 < ar.length → SPACE ∉ a) (h : Steps s₀ x ar s) : Parted s := by
  induction h with
  | refl => exact hp
  | tail _ heff ih => exact heff.parted ih hwords

theorem Move.parted {phase phase' : Phase} {i : Input} (h : Move s phase i s' phase') (hg : Good ⟨s, phase⟩)
    (hp : Parted s) : Parted s' := by
  have hI : Inv s := hg.inv
  rcases h.cmd_or with ⟨x, line, lines, todo, rfl, hs⟩ | hphase
  · obtain ⟨⟨c, hc⟩, -⟩ := hg.author x (line :: lines) todo rfl
    obtain ⟨u, -, rfl, -, -, hsteps⟩ := execLine_run hI hc hs
    have hpu := hsteps.parted hp fun i a => space_not_mem_arg
    obtain ⟨e, he, -⟩ := hsteps.later_of hc
    unfold Server.note
    rw [updCli_const (hsteps.inv hI).1 he]
    exact hpu.put he (hpu e (cliAt_mem he).1)
  · intro d hd
    rcases h.record hI hphase hd with ⟨c, hc, out, got, acc, rfl⟩ | ⟨conn, -, rfl⟩
    · exact hp c hc
    · exact List.not_mem_nil

theorem Reachable.parted (h : Reachable pass lfd cfg) : Parted cfg.srv := by
  obtain ⟨is, his⟩ := h
  refine (Runs.run_invariant (I := fun cfg => Good cfg ∧ Parted cfg.srv) (fun cfg i cfg' hI hstep => ?_) is _
    cfg ⟨good_start pass lfd, fun d hd => ?_⟩ his).2
  · exact ⟨good_step cfg i cfg' hI.1 hstep, (move_of_step hstep).parted hI.1 hI.2⟩
  · obtain ⟨fd, hfd⟩ := mem_clients.mp hd
    exact absurd hfd (by simp [start])

/-! ## The law -/

/-- What a `PRIVMSG` to the client `y` comes to. -/
theorem privmsgMail_nick (hI : Inv s) (hd : s.cliAt y = some d) (hne : d.nick ≠ []) :
    privmsgMail s x c d.nick text d.nick = [(y, privmsgLine c d.nick text)] := by
  have hhash : d.nick.head? ≠ some HASH := fun h =>
    absurd ((hI.nick_chars d (cliAt_mem hd).1).2 _ (List.mem_of_mem_head? h)) (by decide)
  have hto : s.getCli d.nick = y := getCli_eq hI hd hne rfl
  have hy : y ≠ NULL := by
    rw [← (cliAt_mem hd).2]
    exact hI.addr_ne d (cliAt_mem hd).1
  unfold privmsgMail
  rw [if_neg hhash, hto, if_neg hy]

/-- **PRIVMSG to a client arrives as it was sent**: one frame, for the addressee alone, which reads as the
author, the addressee and the text. -/
theorem arrives_intact (hr : Reachable pass lfd cfg) (hc : cfg.srv.cliAt x = some c) (hreg : c.registered = true)
    (hd : cfg.srv.cliAt y = some d) (hne : d.nick ≠ []) (ht : text ≠ []) (hfree : CrlfFree text)
    (hfit : (privmsgLine c d.nick text).length ≤ MAX_CMD_LEN - 2) : ∃ m, CrlfFree m ∧
      Delivers cfg.srv x (messageCmd "PRIVMSG" d.nick text) (fun z => if z = y then m ++ CRLF else []) ∧
      Message.decode (m ++ CRLF) = some ⟨c.nick, str "PRIVMSG", d.nick, text⟩ := by
  have hI := hr.good.inv
  have hchar : ∀ e ∈ cfg.srv.clients, ∀ b, b ∉ nickChars → b ∉ e.nick :=
    fun e he b hb h => hb ((hI.nick_chars e he).2 b h)
  obtain ⟨hcm, -⟩ := cliAt_mem hc
  obtain ⟨hdm, -⟩ := cliAt_mem hd
  have hspace : SPACE ∉ d.nick := hchar d hdm _ (by decide)
  have hcolon : COLON ∉ d.nick := hchar d hdm _ (by decide)
  have hword : addressee d.nick = d.nick := List.takeWhile_eq_self_iff.mpr fun b hb =>
    decide_eq_true ⟨fun h => hspace (h ▸ hb), fun h => hcolon (h ▸ hb)⟩
  have hone : splitArgToSubargs d.nick = [d.nick] :=
    splitArgToSubargs_item hne (hchar d hdm _ (by decide))
  obtain ⟨a2, more, hargs, hplain, -⟩ :=
    args_message (by decide : str "PRIVMSG" ≠ []) (by decide) (by decide) (hword ▸ hne) ht
  rw [hplain hword.symm, hword] at hargs
  have hcmd : CmdIs (str "PRIVMSG" :: d.nick :: text :: more) "PRIVMSG" := rfl
  have hline : CrlfFree (privmsgLine c d.nick text) := by
    obtain ⟨hn, hu, -⟩ := hr.good.tidy.cli c hcm
    unfold privmsgLine
    simp (disch := decide) [crlfFree_localPrefix hn hu, (hr.good.tidy.cli d hdm).1, hfree]
  refine ⟨privmsgLine c d.nick text, hline, ?_, ?_⟩
  · rw [delivers_iff_inbox hI hc, hargs, cmdSafe_privmsg_one hc hreg hcmd rfl rfl hone,
      cmdRun_privmsg_one hreg hcmd rfl rfl hone, privmsgMail_nick hI hd hne]
    refine ⟨fun h => absurd (List.mem_of_mem_head? h) (hchar d hdm _ (by decide)), fun z _ _ => ?_⟩
    rw [inbox_cons]
    by_cases hz : y = z
    · rw [if_pos hz, if_pos hz.symm]
      exact frames_singleton.trans (by rw [List.take_of_length_le hfit])
    · rw [if_neg hz, if_neg (Ne.symm hz)]
      rfl
  · exact decode_privmsgLine ⟨hchar c hcm _ (by decide), hchar c hcm _ (by decide)⟩ (hr.parted c hcm) hspace hline

/-- A text that begins with a space and a colon. -/
theorem arrives_intact_colon : ∃ cfg c d m, Reachable (str "2") 3 cfg ∧ cfg.srv.cliAt alice.addr = some c ∧
    cfg.srv.cliAt bob.addr = some d ∧
    Delivers cfg.srv alice.addr (messageCmd "PRIVMSG" d.nick (str " :a, b:c"))
      (fun z => if z = bob.addr then m ++ CRLF else []) ∧
    Message.decode (m ++ CRLF) = some ⟨c.nick, str "PRIVMSG", d.nick, str " :a, b:c"⟩ := by
  obtain ⟨cfg, hrun, hP⟩ := exists_run (str "2") 3 (connect 0 alice ++ connect 1 bob ++
    say 1 0 3 (register "bo") ++ say 0 1 3 (register "al"))
    (fun cfg => (cfg.srv.cliAt alice.addr).any fun c : Cli => (cfg.srv.cliAt bob.addr).any fun d : Cli =>
      c.registered && decide (d.nick ≠ []) &&
        decide ((privmsgLine c d.nick (str " :a, b:c")).length ≤ MAX_CMD_LEN - 2)) (by decide +kernel)
  simp only [Bool.and_eq_true, Option.any_eq_true, decide_eq_true_eq] at hP
  obtain ⟨c, hc, d, hd, ⟨hreg, hne⟩, hfit⟩ := hP
  obtain ⟨m, -, hdel, hdec⟩ :=
    arrives_intact ⟨_, hrun⟩ hc hreg hd hne (by decide : str " :a, b:c" ≠ []) (by decide) hfit
  exact ⟨cfg, c, d, m, ⟨_, hrun⟩, hc, hd, hdel, hdec⟩

end FtIrc
