import FtIrc.Meaning.Relay

/-!
# Whom a relayed line comes from

An IRC client cuts what it receives at every LF; the parser of the server cuts only at CRLF.  So a text
that contains an LF reaches the others as more than one line, and what stands behind the LF is a line of
its own, with a prefix that the author chose (`senders_iff`).
-/

namespace FtIrc

open Std Outcome Server Delimited

variable {s : Server} {x y : Ptr} {ar : List Str} {c d : Cli} {m n u v line : Str} {ms : List Str}
  {b : UInt8} {pass : Str} {lfd : Nat} {cfg : Config}

/-! ## The lines of a client -/

/-- Drop a CR at the end. -/
def dropCr (l : Str) : Str := if l.getLast? = some CR then l.dropLast else l

/-- What a client makes of the bytes it receives: cut at every LF, a CR before it dropped. -/
def clientLines (bytes : Str) : List Str := (bytes.splitOn LF).map dropCr

/-- `!`, `@` or a space: the nick of a prefix ends here. -/
def nickEnd (b : UInt8) : Bool := b = 33 || b = 64 || b = SPACE

/-- The nick of the prefix of a line. -/
def prefixNick (l : Str) : Str := (l.drop 1).takeWhile fun b => !nickEnd b

/-- A line with a prefix names `n` or the server. -/
def SentBy (n l : Str) : Prop := l.head? = some COLON → prefixNick l = n ∨ prefixNick l = str "localhost"

/-- Behind an LF that survives the truncation, a text does not go on with `:` and somebody else's
nick. -/
def Unforged (n m : Str) : Prop := ∀ before after : Str,
  m.take (MAX_CMD_LEN - 2) ++ [CR] = before ++ LF :: COLON :: after →
    SentBy n (dropCr (COLON :: after.takeWhile (· ≠ LF)))

/-- The lines are the first one, and what stands behind every LF. -/
theorem forall_clientLines {P : Str → Prop} (bytes : Str) : (∀ l ∈ clientLines bytes, P l) ↔
    P (dropCr (bytes.takeWhile (· ≠ LF))) ∧ ∀ before after : Str, bytes = before ++ LF :: after →
      P (dropCr (after.takeWhile (· ≠ LF))) := by
  obtain ⟨ps, hparts, hmem⟩ := splitOn_parts (a := LF) bytes
  unfold clientLines
  rw [hparts, List.map_cons, List.forall_mem_cons, List.forall_mem_map]
  refine and_congr_right fun _ => ⟨fun h before after heq => ?_, fun h p hp => ?_⟩
  · exact h _ ((hmem _).mpr ⟨before, after, heq, rfl⟩)
  · obtain ⟨before, after, heq, rfl⟩ := (hmem p).mp hp
    exact h before after heq

theorem clientLines_frames_cons (m : Str) (ms : List Str) : clientLines (frames (m :: ms)) =
    clientLines (m.take (MAX_CMD_LEN - 2) ++ [CR]) ++ clientLines (frames ms) := by
  have hframe : frames (m :: ms) = (m.take (MAX_CMD_LEN - 2) ++ [CR]) ++ LF :: frames ms := by
    simp [frame, CRLF]
  unfold clientLines
  rw [hframe, List.splitOn_append_cons_self, List.map_append]

/-- The lines that a client receives are those of the texts. -/
theorem forall_clientLines_frames {P : Str → Prop} (hnil : P []) : ∀ ms : List Str,
    (∀ l ∈ clientLines (frames ms), P l) ↔
      ∀ m ∈ ms, ∀ l ∈ clientLines (m.take (MAX_CMD_LEN - 2) ++ [CR]), P l
  | [] => by simpa [clientLines, dropCr] using hnil
  | m :: ms => by
    rw [clientLines_frames_cons, List.forall_mem_append, forall_clientLines_frames hnil ms,
      List.forall_mem_cons]

theorem dropCr_append_cons (hb : b ≠ CR) : ∃ w, dropCr (u ++ b :: v) = u ++ b :: w := by
  unfold dropCr
  split
  · rename_i h
    cases v with
    | nil =>
      rw [List.getLast?_append_cons, List.getLast?_singleton] at h
      exact absurd (Option.some.inj h) hb
    | cons a v => exact ⟨(a :: v).dropLast, by rw [List.dropLast_append_of_ne_nil (by simp)]; rfl⟩
  · exact ⟨v, rfl⟩

theorem head?_dropCr {l : Str} (h : l.head? ≠ some b) : (dropCr l).head? ≠ some b := by
  unfold dropCr
  split
  · rw [List.head?_dropLast]
    split
    · exact h
    · exact nofun
  · exact h

/-- The first line of a text, up to a byte that survives. -/
theorem firstLine_append_cons (hu : LF ∉ u) (hlen : u.length < MAX_CMD_LEN - 2) (hb : b ≠ CR)
    (hlf : b ≠ LF) : ∃ w, dropCr (((u ++ b :: v).take (MAX_CMD_LEN - 2) ++ [CR]).takeWhile (· ≠ LF)) =
      u ++ b :: w := by
  obtain ⟨k, hk⟩ : ∃ k, MAX_CMD_LEN - 2 - u.length = k + 1 := ⟨MAX_CMD_LEN - 2 - u.length - 1, by omega⟩
  rw [List.take_append, List.take_of_length_le (by omega), hk, List.take_succ_cons, List.append_assoc,
    List.takeWhile_append_of_pos, List.cons_append, List.takeWhile_cons_of_pos]
  · exact dropCr_append_cons hb
  · simpa using hlf
  · intro a ha
    have hne : a ≠ LF := fun he => hu (he ▸ ha)
    simpa using hne

theorem head?_firstLine (h : m.head? ≠ some b) (hb : b ≠ CR) :
    (dropCr ((m.take (MAX_CMD_LEN - 2) ++ [CR]).takeWhile (· ≠ LF))).head? ≠ some b := by
  refine head?_dropCr fun hhead => ?_
  cases m with
  | nil =>
    have : CR = b := by simpa [CR, LF] using hhead
    exact hb this.symm
  | cons a m =>
    by_cases ha : a = LF
    · simp [MAX_CMD_LEN, ha] at hhead
    · refine h ?_
      simpa [MAX_CMD_LEN, ha] using hhead

/-- The nick of a prefix that is `n`. -/
theorem prefixNick_cons (hn : ∀ a ∈ n, nickEnd a = false) (hb : nickEnd b = true) :
    prefixNick (COLON :: n ++ b :: v) = n := by
  have hrest : (COLON :: n ++ b :: v).drop 1 = n ++ b :: v := rfl
  unfold prefixNick
  rw [hrest, List.takeWhile_append_of_pos, List.takeWhile_cons_of_neg, List.append_nil]
  · simp [hb]
  · intro a ha
    simp [hn a ha]

/-- A line that begins like one of the author or of the server, or has no prefix. -/
def Headed (n m : Str) : Prop :=
  m.head? ≠ some COLON ∨ ∃ n' b v, (n' = n ∨ n' = str "localhost") ∧ nickEnd b = true ∧
    m = COLON :: n' ++ b :: v

/-- What stands in a nick does not end it. -/
theorem nickEnd_of_nickChars (h : b ∈ nickChars) : nickEnd b = false ∧ b ≠ LF ∧ b ≠ COLON := by
  have hne : ∀ a, a ∉ nickChars → b ≠ a := fun a ha he => ha (he ▸ h)
  refine ⟨?_, hne LF (by decide), hne COLON (by decide)⟩
  have h1 := hne 33 (by decide)
  have h2 := hne 64 (by decide)
  have h3 := hne SPACE (by decide)
  simp [nickEnd, h1, h2, h3]

/-- The lines of a text are the author's exactly if nothing behind an LF says otherwise. -/
theorem sentBy_iff (hlen : n.length ≤ 9) (hn : ∀ a ∈ n, a ∈ nickChars) (hm : Headed n m) :
    (∀ l ∈ clientLines (m.take (MAX_CMD_LEN - 2) ++ [CR]), SentBy n l) ↔ Unforged n m := by
  have hfirst : SentBy n (dropCr ((m.take (MAX_CMD_LEN - 2) ++ [CR]).takeWhile (· ≠ LF))) := by
    rcases hm with hm | ⟨n', b, v, hn', hb, rfl⟩
    · exact fun h => absurd h (head?_firstLine hm (by decide))
    · obtain ⟨hlen', hend, hlf'⟩ : n'.length ≤ 9 ∧ (n'.all fun a => !nickEnd a) = true ∧ LF ∉ n' := by
        rcases hn' with rfl | rfl
        · refine ⟨hlen, List.all_eq_true.mpr fun a ha => ?_, fun h => ?_⟩
          · rw [(nickEnd_of_nickChars (hn a ha)).1]
            rfl
          · exact (nickEnd_of_nickChars (hn LF h)).2.1 rfl
        · exact ⟨by decide, by decide, by decide⟩
      have hlf : LF ∉ COLON :: n' := by
        rw [List.mem_cons, not_or]
        exact ⟨by decide, hlf'⟩
      have hbne : b ≠ CR ∧ b ≠ LF := by
        refine ⟨?_, ?_⟩ <;> rintro rfl <;> revert hb <;> decide
      obtain ⟨w, hw⟩ := firstLine_append_cons (v := v) hlf
        (by simp only [List.length_cons, MAX_CMD_LEN]; omega) hbne.1 hbne.2
      rw [hw]
      intro _
      rw [prefixNick_cons (fun a ha => by simpa using List.all_eq_true.mp hend a ha) hb]
      exact hn'
  rw [forall_clientLines, and_iff_right hfirst]
  constructor
  · intro h before after heq
    have hpart := h before (COLON :: after) heq
    rwa [List.takeWhile_cons_of_pos (by decide)] at hpart
  · intro h before after heq
    cases after with
    | nil => exact fun hhead => absurd hhead (head?_dropCr (by simp))
    | cons a after =>
      by_cases ha : a = COLON
      · subst ha
        rw [List.takeWhile_cons_of_pos (by decide)]
        exact h before after heq
      · refine fun hhead => absurd hhead (head?_dropCr ?_)
        by_cases hlf : a = LF
        · simp [hlf]
        · simpa [hlf] using ha

/-! ## The lines of the commands -/

theorem headed_author (rest : Str) : Headed c.nick (str ":" ++ (c.nick ++ (str "!" ++ rest))) :=
  .inr ⟨c.nick, 33, rest, .inl rfl, by decide, rfl⟩

/-- Every line begins like one of the author or of the server, or has no prefix: the quitter's line
begins with the nick of the client that is told. -/
theorem Relay.headed (hI : Inv s) (h : Relay s x c ar y m) : Headed c.nick m := by
  cases h with
  | quit d _ hd =>
    refine .inl ?_
    have hchars := (hI.nick_chars d (cliAt_mem hd).1).2
    unfold quitLine hostPrefix
    cases hn : d.nick with
    | nil => simp [str, COLON]
    | cons b bs =>
      have hb := (nickEnd_of_nickChars (hchars b (by rw [hn]; simp))).2.2
      exact fun h => hb (Option.some.inj h)
  | privmsg =>
    unfold privmsgLine localPrefix
    simp only [List.append_assoc]
    exact headed_author _
  | notice =>
    unfold noticeLine localPrefix
    simp only [List.append_assoc]
    exact headed_author _
  | join name m _ _ htold =>
    obtain ⟨ch, -, -, rfl | rfl⟩ := htold
    · unfold joinLine hostPrefix
      simp only [List.append_assoc]
      exact headed_author _
    · refine .inr ⟨str "localhost", 32, str "353 " ++ localPrefix c ++ str " = " ++ name ++ str " :" ++
        nickList s (ch.enter x), .inr rfl, by decide, ?_⟩
      unfold namesLine
      simp only [List.append_assoc]
      rfl
  | part =>
    unfold partLine hostPrefix
    simp only [List.append_assoc]
    exact headed_author _
  | kick =>
    unfold kickLine hostPrefix
    simp only [List.append_assoc]
    exact headed_author _
  | invite =>
    unfold inviteLine hostPrefix
    simp only [List.append_assoc]
    exact headed_author _
  | topic ch t =>
    unfold topicLine
    split
    · refine .inr ⟨c.nick, 64, str "localhost TOPIC " ++ argD ar 1 ++ str " :No topic is set", .inl rfl,
        by decide, ?_⟩
      simp only [List.append_assoc]
      rfl
    · refine .inr ⟨c.nick, 64, str "localhost TOPIC " ++ argD ar 1 ++ str " :2" ++ t, .inl rfl,
        by decide, ?_⟩
      simp only [List.append_assoc]
      rfl
  | mode =>
    unfold modeLine hostPrefix
    simp only [List.append_assoc]
    exact headed_author _

/-- What a line of `x` tells `y`, as the client of `y` reads it. -/
theorem senders_of_inv {s' : Server} (hI : Inv s) (hc : s.cliAt x = some c) (hd : s.cliAt y = some d)
    (hy : y ≠ x) (h : s.execLine x line = .ok s') :
    ∃ bytes, (s'.cliAt y).map (·.bufToSend) = some (d.bufToSend ++ bytes) ∧
      ((∀ l ∈ clientLines bytes, SentBy c.nick l) ↔
        ∀ m, Relay s x c (splitCmdToArgs line) y m → Unforged c.nick m) := by
  obtain ⟨hlen, hchars⟩ := hI.nick_chars c (cliAt_mem hc).1
  have hsafe := (execLine_ok_iff hI hc).mp ⟨s', h⟩
  obtain ⟨d', hd', hbuf, -⟩ := execLine_inbox hI hc h hd
  refine ⟨frames (inbox y (cmdRun s x c (splitCmdToArgs line)).2), ?_, ?_⟩
  · rw [hd', Option.map_some, hbuf]
  · rw [forall_clientLines_frames fun h => by cases h]
    refine forall_congr' fun m => ?_
    rw [mem_inbox, relay_iff hI hc hsafe hy]
    exact forall_congr' fun hm => sentBy_iff hlen hchars (hm.headed hI)

/-- **What a client is told comes from the author or the server, exactly if no text that is relayed to
it has, within what is sent of it, an LF that is followed by `:` and somebody else's nick.** -/
theorem senders_iff (hr : Reachable pass lfd cfg) (hc : cfg.srv.cliAt x = some c)
    (hd : cfg.srv.cliAt y = some d) (hy : y ≠ x) (line : Str) (s' : Server)
    (h : cfg.srv.execLine x line = .ok s') :
    ∃ bytes, (s'.cliAt y).map (·.bufToSend) = some (d.bufToSend ++ bytes) ∧
      ((∀ l ∈ clientLines bytes, SentBy c.nick l) ↔
        ∀ m, Relay cfg.srv x c (splitCmdToArgs line) y m → Unforged c.nick m) :=
  senders_of_inv hr.good.inv hc hd hy h

/-- A registered client, and one that registers and goes on with a `NOTICE` to it. -/
def sendNotice (text : Str) : List Input :=
  connect 0 alice ++ say 0 0 3 (register "al") ++ connect 1 bob ++
    (wait [silent, silent, readable] ++ [.next, .next] ++
      [.recv (.data (register "bob" ++ str "NOTICE al :" ++ text ++ CRLF)), .next, .next, .next])

/-- The `NOTICE` is executed next. -/
def beforeNotice (text : Str) (cfg : Config) : Bool :=
  (match cfg.phase with
    | .cmds x [line] _ => x = bob.addr ∧ line = str "NOTICE al :" ++ text
    | _ => false) &&
  (cfg.srv.cliAt bob.addr).any (fun c => c.registered ∧ c.nick = str "bob" ∧ c.uName = str "u") &&
  (cfg.srv.cliAt alice.addr).isSome && cfg.srv.getCli (str "al") = alice.addr

theorem sendNotice_spec {text : Str}
    (h : ∃ cfg, runServer (str "2") 3 (sendNotice text) = .ok cfg ∧ beforeNotice text cfg = true) :
    ∃ cfg c d todo, Reachable (str "2") 3 cfg ∧
      cfg.phase = .cmds bob.addr [str "NOTICE al :" ++ text] todo ∧
      cfg.srv.cliAt bob.addr = some c ∧ c.registered = true ∧ c.nick = str "bob" ∧ c.uName = str "u" ∧
      cfg.srv.cliAt alice.addr = some d ∧ cfg.srv.getCli (str "al") = alice.addr := by
  obtain ⟨cfg, hrun, hP⟩ := h
  unfold beforeNotice at hP
  simp only [Bool.and_eq_true, decide_eq_true_eq, Option.any_eq_true, Option.isSome_iff_exists] at hP
  obtain ⟨⟨⟨hphase, c, hc, hreg, hnick, huser⟩, d, hd⟩, hto⟩ := hP
  split at hphase
  · rename_i x line todo hcmds
    rw [decide_eq_true_eq] at hphase
    obtain ⟨rfl, rfl⟩ := hphase
    exact ⟨cfg, c, d, todo, ⟨_, hrun⟩, hcmds, hc, hreg, hnick, huser, hd, hto⟩
  · cases hphase

/-- A `NOTICE` of one line names its author. -/
theorem senders_iff_notice : ∃ cfg c d s' bytes, Reachable (str "2") 3 cfg ∧
    cfg.srv.cliAt bob.addr = some c ∧ cfg.srv.cliAt alice.addr = some d ∧
    cfg.srv.execLine bob.addr (str "NOTICE al :hi") = .ok s' ∧
    (s'.cliAt alice.addr).map (·.bufToSend) = some (d.bufToSend ++ bytes) ∧
    ∀ l ∈ clientLines bytes, SentBy c.nick l := by
  obtain ⟨cfg, c, d, todo, hr, -, hc, -, hnick, huser, hd, -⟩ :=
    sendNotice_spec (exists_run _ _ (sendNotice (str "hi")) _ (by decide +kernel))
  have hcmd : CmdIs (splitCmdToArgs (str "NOTICE al :hi")) "NOTICE" := by
    unfold CmdIs
    decide
  obtain ⟨s', hs'⟩ : ∃ s', cfg.srv.execLine bob.addr (str "NOTICE al :hi") = .ok s' :=
    (execLine_ok_iff hr.good.inv hc).mpr (cmdSafe_of_other hcmd (by decide))
  obtain ⟨bytes, hbytes, hiff⟩ := senders_iff hr hc hd (by decide) (str "NOTICE al :hi") s' hs'
  refine ⟨cfg, c, d, s', bytes, hr, hc, hd, hs', hbytes, hiff.mpr fun m hm => ?_⟩
  -- the only line is the one of `NOTICE`, which has no LF
  have hline : m = noticeLine c (str "al") (str "hi") := by
    cases hm with
    | notice => rfl
    | quit _ h => exact absurd (h.unique hcmd) (by decide)
    | privmsg _ h => exact absurd (h.unique hcmd) (by decide)
    | join _ _ h => exact absurd (h.unique hcmd) (by decide)
    | part h =>
      rcases h with h | ⟨h, -⟩ <;> exact absurd (h.unique hcmd) (by decide)
    | kick _ _ h => exact absurd (h.unique hcmd) (by decide)
    | invite h => exact absurd (h.unique hcmd) (by decide)
    | topic _ _ h => exact absurd (h.unique hcmd) (by decide)
    | mode _ _ h => exact absurd (h.unique hcmd) (by decide)
  have hlf : LF ∉ m.take (MAX_CMD_LEN - 2) ++ [CR] := by
    rw [hline]
    unfold noticeLine localPrefix
    rw [hnick, huser]
    decide
  intro before after heq
  exact absurd (heq ▸ by simp) hlf

/-- An LF in the text of a `NOTICE`: the rest of it arrives as a line of another sender. -/
theorem sender_forged : ¬ ∀ (pass : Str) (lfd : Nat) (cfg : Config), Reachable pass lfd cfg →
    ∀ (x : Ptr) (line : Str) (lines : List Str) (todo : List (Nat × Revents)),
      cfg.phase = .cmds x (line :: lines) todo → ∀ (y : Ptr) (c d : Cli) (s' : Server) (bytes : Str),
      cfg.srv.cliAt x = some c → cfg.srv.cliAt y = some d → y ≠ x → cfg.srv.execLine x line = .ok s' →
      (s'.cliAt y).map (·.bufToSend) = some (d.bufToSend ++ bytes) →
      ∀ l ∈ clientLines bytes, SentBy c.nick l := by
  intro hall
  obtain ⟨cfg, c, d, todo, hr, hphase, hc, hreg, hnick, huser, hd, hto⟩ :=
    sendNotice_spec (exists_run _ _ (sendNotice (str "hi\n:root QUIT")) _ (by decide +kernel))
  have hcmd : CmdIs (splitCmdToArgs (str "NOTICE al :" ++ str "hi\n:root QUIT")) "NOTICE" := by
    unfold CmdIs
    decide
  obtain ⟨s', hs'⟩ : ∃ s', cfg.srv.execLine bob.addr (str "NOTICE al :" ++ str "hi\n:root QUIT") = .ok s' :=
    (execLine_ok_iff hr.good.inv hc).mpr (cmdSafe_of_other hcmd (by decide))
  obtain ⟨bytes, hbytes, hiff⟩ := senders_of_inv hr.good.inv hc hd (by decide) hs'
  have hsent := hall _ _ cfg hr _ _ _ _ hphase _ c d s' bytes hc hd (by decide) hs' hbytes
  have hun := hiff.mp hsent _ (.notice (str "al") hcmd hreg (by decide) (by decide)
    ⟨hto, by decide⟩)
  have hline : noticeLine c (str "al") (str "hi\n:root QUIT") =
      str ":bob!u@127.0.0.1 NOTICE al :\x1b[1;31mhi\n:root QUIT\x1b[0m" := by
    unfold noticeLine localPrefix
    rw [hnick, huser]
    decide
  have hforged := hun (str ":bob!u@127.0.0.1 NOTICE al :\x1b[1;31mhi") (str "root QUIT\x1b[0m\r") (by
    show (noticeLine c (str "al") (str "hi\n:root QUIT")).take _ ++ _ = _
    rw [hline]
    decide) (by decide)
  rw [hnick] at hforged
  revert hforged
  decide

end FtIrc
