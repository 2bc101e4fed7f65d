import FtIrc.Meaning.Line

/-!
# What a client learns about a channel it is not on

`Apart x k s t`: two states that differ in the channel `k` alone, of which `x` is a member in neither.
Every handler tests the membership of the author before it reads a channel, so the author cannot tell
the two apart (`inbox_apart`), except with a `JOIN` that names the channel.
-/

namespace FtIrc

open Std Outcome Server

variable {s t u : Server} {x : Ptr} {ar : List Str} {c me : Cli} {k j n name a1 a2 text line : Str}
  {ch ch' : Ch} {m : Mail}

/-- The two states differ in the channel `k` alone, and `x` is a member of it in neither. -/
def Apart (x : Ptr) (k : Str) (s t : Server) : Prop :=
  ∃ ch ch', s.chs[k]? = some ch ∧ t = s.updCh k (fun _ => ch') ∧ x ∉ ch.clis ∧ x ∉ ch'.clis

namespace Apart

variable (h : Apart x k s t)

include h

/-! ## What is the same -/

theorem cliAt (q : Ptr) : t.cliAt q = s.cliAt q := by
  obtain ⟨ch, ch', -, rfl, -⟩ := h
  rfl

/-- The relation does not care which state is which. -/
theorem symm : Apart x k t s := by
  obtain ⟨ch, ch', hch, rfl, hx, hx'⟩ := h
  refine ⟨ch', ch, ?_, ?_, hx', hx⟩
  · rw [getElem?_chs_put hch, if_pos rfl]
  · rw [updCh_updCh, updCh_self hch]

theorem clients : t.clients = s.clients := by
  obtain ⟨ch, ch', -, rfl, -⟩ := h
  rfl

theorem pass : t.pass = s.pass := by
  obtain ⟨ch, ch', -, rfl, -⟩ := h
  rfl

theorem getCli : t.getCli = s.getCli := by
  obtain ⟨ch, ch', -, rfl, -⟩ := h
  rfl

theorem nickAt (q : Ptr) : nickAt t q = nickAt s q := by
  unfold FtIrc.nickAt
  rw [h.cliAt]

theorem isReg : IsReg t x ↔ IsReg s x := by
  unfold IsReg
  rw [h.cliAt]

theorem keys : t.chs.keys = s.chs.keys := by
  obtain ⟨ch, ch', -, rfl, -⟩ := h
  exact keys_chs_updCh _

theorem mem_chs (j : Str) : j ∈ t.chs ↔ j ∈ s.chs := by
  rw [← ExtTreeMap.mem_keys, ← ExtTreeMap.mem_keys, h.keys]

theorem getCh (n : Str) : t.getCh n = s.getCh n := by
  unfold Server.getCh
  rw [h.keys]

theorem mem : k ∈ s.chs := by
  obtain ⟨ch, -, hch, -⟩ := h
  exact Server.mem_chs.mpr ⟨ch, hch⟩

/-- Every other channel is the same. -/
theorem other (hj : j ≠ k) : t.chs[j]? = s.chs[j]? := by
  obtain ⟨ch, ch', hch, rfl, -⟩ := h
  rw [getElem?_chs_put hch, if_neg hj]

/-- Of the channel itself the author is no member. -/
theorem off (hch : s.chs[k]? = some ch) : x ∉ ch.clis := by
  obtain ⟨ch₀, ch', hch₀, -, hx, -⟩ := h
  rw [hch] at hch₀
  cases hch₀
  exact hx

theorem off' (hch : t.chs[k]? = some ch') : x ∉ ch'.clis := by
  obtain ⟨ch₀, ch₁, hch₀, rfl, -, hx⟩ := h
  rw [getElem?_chs_put hch₀, if_pos rfl] at hch
  cases hch
  exact hx

theorem on (j : Str) : On t x j ↔ On s x j := by
  by_cases hj : j = k
  · subst hj
    refine iff_of_false ?_ ?_
    · rintro ⟨ch', hch', hx⟩
      exact h.off' hch' hx
    · rintro ⟨ch, hch, hx⟩
      exact h.off hch hx
  · unfold On
    rw [h.other hj]

theorem op (hI : Inv s) (hI' : Inv t) (j : Str) : Op t x j ↔ Op s x j := by
  by_cases hj : j = k
  · subst hj
    refine iff_of_false ?_ ?_
    · rintro ⟨ch', hch', hx⟩
      exact h.off' hch' (hI'.adm j ch' hch' x hx)
    · rintro ⟨ch, hch, hx⟩
      exact h.off hch (hI.adm j ch hch x hx)
  · unfold Op
    rw [h.other hj]

theorem nbChannels : t.nbChannels x = s.nbChannels x := by
  rw [nbChannels_eq, nbChannels_eq, h.keys]
  congr 2
  funext j
  rw [decide_eq_decide]
  exact h.on j

theorem allNames : allNames t x = allNames s x := by
  unfold FtIrc.allNames chsOf
  rw [h.keys]
  congr 4
  funext j
  rw [decide_eq_decide]
  exact h.on j

theorem keySpelled (n : Str) : KeySpelled t n ↔ KeySpelled s n := by
  unfold KeySpelled
  rw [h.getCh, h.mem_chs]

theorem nickList (ch : Ch) : nickList t ch = nickList s ch := nickList_congr h.nickAt

/-! ## No command fails in one of them only -/

theorem joinSafe : ∀ (names passes joined : List Str), (∀ n ∈ names, toLower n ≠ toLower k) →
    (JoinSafe t x c joined names passes ↔ JoinSafe s x c joined names passes)
  | [], _, _, _ => Iff.rfl
  | name :: names, passes, joined, hk => by
    have hrest := fun passes joined => joinSafe names passes joined fun n hn => hk n (by simp [hn])
    have hne : name ≠ k := fun he => hk name (by simp) (by rw [he])
    unfold JoinSafe
    rw [h.nbChannels, h.keys]
    simp only [h.on, hrest]
    have hadm : Admitted t c name (passes.headD []) ↔ Admitted s c name (passes.headD []) := by
      unfold Admitted
      rw [h.other hne]
    simp only [hadm]

theorem partSafe (h1 : PartSafe s x a1 (splitArgToSubargs a1)) :
    PartSafe t x a1 (splitArgToSubargs a1) := by
  intro i hi hget
  rw [h.getCh] at hget
  obtain ⟨hmem, hon⟩ := h1 i hi hget
  rw [h.mem_chs, h.on, h.getCh]
  exact ⟨hmem, hon⟩

theorem kickSafe (hI : Inv s) (hI' : Inv t) {targets items : List Str} (h1 : KickSafe s x a1 targets items) :
    KickSafe t x a1 targets items := by
  intro i hi hget
  rw [h.getCh] at hget
  obtain ⟨hmem, hno⟩ := h1 i hi hget
  rw [h.mem_chs, h.op hI hI', h.getCh]
  refine ⟨hmem, fun hop ha1 v hv hnames => ?_⟩
  -- the author is an operator of the item, so the item is another channel
  have hik : i ≠ k := by
    rintro rfl
    obtain ⟨ch, hch, hx⟩ := hop
    exact h.off hch (hI.adm i ch hch x hx)
  refine hno hop ha1 v hv ?_
  obtain ⟨ch, q, d, hch, hq, hd, hn⟩ := hnames
  rw [h.other hik] at hch
  rw [h.cliAt] at hd
  exact ⟨ch, q, d, hch, hq, hd, hn⟩

theorem cmdSafe_of (hI : Inv s) (hI' : Inv t)
    (hjoin : CmdIs ar "JOIN" → ∀ a ∈ ar[1]?, ∀ n ∈ splitArgToSubargs a, toLower n ≠ toLower k) (hs : CmdSafe s x ar) : CmdSafe t x ar := by
  have hnamed : NamedOk s x ar → NamedOk t x ar := fun hok hreg a ha =>
    (h.keySpelled a).mpr (hok (h.isReg.mp hreg) a ha)
  refine ⟨?privmsg, ?join, ?part, ?kick, ?invite, fun hc => hnamed (hs.topic hc),
    fun hc hall => hnamed (hs.mode hc hall)⟩
  case privmsg =>
    intro hc hreg a ha hlen hfew v hv hH hlow
    rw [h.mem_chs] at hlow ⊢
    exact hs.privmsg hc (h.isReg.mp hreg) a ha hlen hfew v hv hH hlow
  case join =>
    intro hc c hcli hreg a ha
    rw [h.cliAt] at hcli
    have hok := hs.join hc c hcli hreg a ha
    rw [h.nbChannels]
    by_cases hz : ar.length = 2 ∧ a = str "0"
    · rw [if_pos hz] at hok ⊢
      exact hok
    · rw [if_neg hz] at hok ⊢
      exact fun hfew => (h.joinSafe _ _ _ (hjoin hc a ha)).mpr (hok hfew)
  case part =>
    intro hc hreg a ha
    exact h.partSafe (hs.part hc (h.isReg.mp hreg) a ha)
  case kick =>
    intro hc hreg a ha a2 ha2
    exact h.kickSafe hI hI' (hs.kick hc (h.isReg.mp hreg) a ha a2 ha2)
  case invite =>
    intro hc hreg a ha hto a2 ha2
    rw [h.getCli] at hto
    exact (h.keySpelled a2).mpr (hs.invite hc (h.isReg.mp hreg) a ha hto a2 ha2)

theorem cmdSafe (hI : Inv s) (hI' : Inv t)
    (hjoin : CmdIs ar "JOIN" → ∀ a ∈ ar[1]?, ∀ n ∈ splitArgToSubargs a, toLower n ≠ toLower k) :
    CmdSafe t x ar ↔ CmdSafe s x ar :=
  ⟨h.symm.cmdSafe_of hI' hI hjoin, h.cmdSafe_of hI hI' hjoin⟩

/-! ## The lines of the author are the same -/

/-- A handler that answers a client that is not on the channel without looking at it. -/
theorem lookup (f : Ch → Mail) (m : Str) (hoff : ∀ ch, x ∉ ch.clis → f ch = [(x, m)]) (j : Str) :
    (match t.chs[j]? with | some ch => f ch | none => []) =
      (match s.chs[j]? with | some ch => f ch | none => []) := by
  by_cases hj : j = k
  · subst hj
    obtain ⟨ch, hch⟩ := Server.mem_chs.mp h.mem
    obtain ⟨ch', hch'⟩ := Server.mem_chs.mp ((h.mem_chs j).mpr h.mem)
    rw [hch, hch']
    show f ch' = f ch
    rw [hoff ch' (h.off' hch'), hoff ch (h.off hch)]
  · rw [h.other hj]

theorem partMails : partMails t x c a1 text = partMails s x c a1 text := by
  unfold FtIrc.partMails
  congr 1
  funext i
  unfold partMail
  rw [h.getCh]
  split
  · rfl
  · exact h.lookup (fun ch => if x ∈ ch.clis then bcast ch (partLine c a1 text) else _) _
      (fun ch hx => if_neg hx) i

theorem kickMails : kickMails t x c a1 a2 text = kickMails s x c a1 a2 text := by
  unfold FtIrc.kickMails
  congr 1
  funext i
  unfold kickItem
  rw [h.getCh, h.getCli]
  split
  · rfl
  · exact h.lookup (fun ch => if x ∉ ch.clis then _ else _) _ (fun ch hx => if_pos hx) i

theorem inviteMail : inviteMail t x c a1 a2 = inviteMail s x c a1 a2 := by
  unfold FtIrc.inviteMail
  rw [h.getCh, h.getCli]
  split
  · rfl
  split
  · rfl
  · exact h.lookup (fun ch => if x ∉ ch.clis then _ else _) _ (fun ch hx => if_pos hx) a2

theorem topicMail (text : Option Str) : topicMail t x c a1 text = topicMail s x c a1 text := by
  unfold FtIrc.topicMail
  rw [h.getCh]
  split
  · rfl
  · exact h.lookup (fun ch => if x ∉ ch.clis then _ else _) _ (fun ch hx => if_pos hx) a1

theorem modeChMail : modeChMail t x c ar = modeChMail s x c ar := by
  unfold FtIrc.modeChMail modeText
  simp only [h.nickList]
  rw [h.getCh, h.getCli]
  split
  · rfl
  · exact h.lookup (fun ch => if x ∉ ch.clis then _ else _) _ (fun ch hx => if_pos hx) _

theorem modeCliMail : modeCliMail t x c ar = modeCliMail s x c ar := by
  unfold FtIrc.modeCliMail
  rw [h.getCli, h.cliAt]

theorem whoisMails : whoisMails t x ar = whoisMails s x ar := by
  unfold FtIrc.whoisMails whoisMail
  simp only [h.getCli, h.cliAt]

theorem nickMail : nickMail t x c ar = nickMail s x c ar := by
  unfold FtIrc.nickMail
  rw [h.clients]

theorem privmsgMails : privmsgMails t x c a1 a2 = privmsgMails s x c a1 a2 := by
  unfold FtIrc.privmsgMails
  congr 1
  funext i
  unfold privmsgMail
  simp only [h.getCli, h.mem_chs]
  split
  · split
    · rfl
    · exact h.lookup (fun ch => if x ∈ ch.clis then _ else _) _ (fun ch hx => if_neg hx) i
  · rfl

/-- A `NOTICE` needs no membership, but its author receives nothing. -/
theorem noticeMails : inbox x (noticeMails t x c a1 a2) = inbox x (noticeMails s x c a1 a2) := by
  have hothers : ∀ ch m, inbox x (bcastOthers ch x m) = [] := by
    intro ch m
    rw [List.eq_nil_iff_forall_not_mem]
    intro l hl
    exact (mem_bcastOthers.mp (mem_inbox.mp hl)).2.1 rfl
  have hitem : ∀ i, inbox x (noticeMail t x c a1 a2 i) = inbox x (noticeMail s x c a1 a2 i) := by
    intro i
    unfold noticeMail
    rw [h.getCh, h.getCli]
    split
    · cases s.getCh i with
      | none => rfl
      | some j =>
        rw [Option.bind_some, Option.bind_some]
        by_cases hj : j = k
        · subst hj
          obtain ⟨ch, hch⟩ := Server.mem_chs.mp h.mem
          obtain ⟨ch', hch'⟩ := Server.mem_chs.mp ((h.mem_chs j).mpr h.mem)
          rw [hch, hch']
          exact (hothers ch' _).trans (hothers ch _).symm
        · rw [h.other hj]
    · rfl
  unfold FtIrc.noticeMails
  induction splitArgToSubargs a1 with
  | nil => rfl
  | cons i items ih => rw [List.flatMap_cons, List.flatMap_cons, inbox_append, inbox_append, hitem, ih]

/-! ## JOIN keeps the difference -/

theorem openCh (hn : toLower name ≠ toLower k) : Apart x k (openCh s x name) (openCh t x name) ∧
    (FtIrc.openCh t x name).chs[name]? = (FtIrc.openCh s x name).chs[name]? := by
  have hne : name ≠ k := fun he => hn (by rw [he])
  have hget := h.getCh name
  have hsame := h.other hne
  unfold FtIrc.openCh
  rw [hget]
  by_cases hnew : s.getCh name = none
  · rw [if_pos hnew, if_pos hnew]
    obtain ⟨ch, ch', hch, rfl, hx, hx'⟩ := h
    have hins : ({ s with chs := s.chs.insert name (Ch.new x) } : Server).chs[k]? = some ch := by
      rw [getElem?_chs_insert, if_neg hne.symm, hch]
    refine ⟨⟨ch, ch', hins, ?_, hx, hx'⟩, ?_⟩
    · have hmap : (s.updCh k fun _ => ch').chs.insert name (Ch.new x) =
          (({ s with chs := s.chs.insert name (Ch.new x) } : Server).updCh k fun _ => ch').chs := by
        refine ExtTreeMap.ext_getElem? fun j => ?_
        rw [getElem?_chs_put hins, getElem?_chs_insert, getElem?_chs_insert, getElem?_chs_put hch]
        by_cases hj : j = name
        · rw [if_pos hj, if_pos hj, if_neg fun hk => hne (hj.symm.trans hk)]
        · rw [if_neg hj, if_neg hj]
      show ({ s with chs := (s.updCh k fun _ => ch').chs.insert name (Ch.new x) } : Server) = _
      rw [hmap]
      rfl
    · rw [getElem?_chs_insert, getElem?_chs_insert, if_pos rfl, if_pos rfl]
  · rw [if_neg hnew, if_neg hnew]
    exact ⟨h, hsame⟩

theorem letIn (hn : name ≠ k) : Apart x k (letIn s x me name) (letIn t x me name) := by
  obtain ⟨ch, ch', hch, rfl, hx, hx'⟩ := h
  refine ⟨ch, ch', ?_, ?_, hx, hx'⟩
  · unfold FtIrc.letIn
    rw [chs_useInvitation, getElem?_chs_updCh, if_neg hn.symm, hch]
  · unfold FtIrc.letIn useInvitation
    rw [updCh_comm hn.symm]
    split <;> rfl

theorem joinOne (hn : toLower name ≠ toLower k) (pass : Str) :
    (joinOne t x c name pass).2 = (joinOne s x c name pass).2 ∧
      Apart x k (joinOne s x c name pass).1 (joinOne t x c name pass).1 := by
  obtain ⟨hopen, hsame⟩ := h.openCh hn
  unfold FtIrc.joinOne
  rw [h.cliAt, hsame]
  cases s.cliAt x with
  | none => exact ⟨rfl, h⟩
  | some me =>
    cases (FtIrc.openCh s x name).chs[name]? with
    | none => exact ⟨rfl, h⟩
    | some ch =>
      simp only
      cases refusal me ch name pass with
      | some m => exact ⟨rfl, h⟩
      | none =>
        refine ⟨?_, hopen.letIn fun he => hn (by rw [he])⟩
        simp only [joinedMail, h.nickList]

omit h in
theorem joinRun : ∀ (names passes : List Str) {s t : Server}, Apart x k s t →
    (∀ n ∈ names, toLower n ≠ toLower k) →
    (joinRun x c a1 names passes t).2 = (joinRun x c a1 names passes s).2
  | [], _, _, _, _, _ => rfl
  | name :: names, passes, s, t, h, hk => by
    have hrest := fun passes {s t : Server} (h : Apart x k s t) =>
      joinRun names passes h fun n hn => hk n (by simp [hn])
    obtain ⟨hmail, hone⟩ := h.joinOne (c := c) (hk name (by simp)) (passes.headD [])
    unfold FtIrc.joinRun
    rw [h.nbChannels]
    simp only [h.on]
    split
    · rfl
    split
    · show (x, _) :: _ = (x, _) :: _
      rw [hrest passes h]
    split
    · show (x, _) :: _ = (x, _) :: _
      rw [hrest passes h]
    · show _ ++ _ = _ ++ _
      rw [hmail, hrest passes.tail hone]

/-- **The author receives the same lines.** -/
theorem inbox_apart (hjoin : CmdIs ar "JOIN" → ∀ a ∈ ar[1]?, ∀ n ∈ splitArgToSubargs a, toLower n ≠ toLower k) :
    inbox x (cmdRun t x c ar).2 = inbox x (cmdRun s x c ar).2 := by
  have hreg : ∀ {r r' : Server × Mail}, inbox x r'.2 = inbox x r.2 →
      inbox x (registeredRun t x c r').2 = inbox x (registeredRun s x c r).2 := by
    intro r r' heq
    unfold registeredRun
    split
    · rfl
    · exact heq
  have hpart : ∀ ar, inbox x (partRun t x c ar).2 = inbox x (partRun s x c ar).2 := by
    intro ar
    refine hreg ?_
    split
    · rfl
    · rw [h.partMails]
  refine cmdRun_cases₂ (P := fun r r' => inbox x r'.2 = inbox x r.2) (fun _ => rfl) (fun _ => ?pass)
    (fun _ => ?nick) (fun _ => rfl) (fun _ => ?quit) (fun _ => rfl) (fun _ => rfl) (fun _ => ?whois)
    (fun _ => ?privmsg) (fun _ => ?notice) (fun hc => ?join) (fun _ => hpart ar) (fun _ => ?mode)
    (fun _ => ?topic) (fun _ => ?invite) (fun _ => ?kick) (fun _ _ _ => rfl)
  case pass =>
    show inbox x (passMail t x c ar) = inbox x (passMail s x c ar)
    unfold passMail
    rw [h.pass]
  case nick =>
    show inbox x (FtIrc.nickMail t x c ar) = _
    rw [h.nickMail]
  case quit =>
    show inbox x (quitMail t ar) = inbox x (quitMail s ar)
    unfold quitMail
    rw [h.clients]
  case whois =>
    show inbox x (FtIrc.whoisMails t x ar) = _
    rw [h.whoisMails]
  case privmsg =>
    refine hreg ?_
    split
    · rfl
    split
    · rfl
    split
    · rfl
    · rw [h.privmsgMails]
  case notice =>
    unfold noticeRun
    split
    · rfl
    · exact h.noticeMails
  case join =>
    refine hreg ?_
    split
    · rfl
    split
    · rw [h.allNames]
      exact hpart _
    split
    · rfl
    · rename_i hlen _ _
      obtain ⟨a1, ha1⟩ := exists_arg ar 1 (by omega)
      rw [argD_of_getElem? ha1, Apart.joinRun _ _ h (hjoin hc a1 ha1)]
  case mode =>
    unfold modeRun
    split
    · rfl
    split
    · refine hreg ?_
      rw [h.modeChMail]
    · rw [h.modeCliMail]
  case topic =>
    refine hreg ?_
    split
    · rfl
    · rw [h.topicMail]
  case invite =>
    refine hreg ?_
    split
    · rfl
    · rw [h.inviteMail]
  case kick =>
    refine hreg ?_
    split
    · rfl
    · rw [h.kickMails]

end Apart

/-- **Outsiders learn nothing about a channel**: in two states that differ in one channel alone, of
which the author is a member in neither, a line that is no `JOIN` naming the channel fails in both or
in none, and appends the same bytes to the author's send buffer. -/
theorem outsiders_learn_nothing (hI : Inv s) (hI' : Inv t) (h : Apart x k s t) (hc : s.cliAt x = some c)
    (hjoin : CmdIs (splitCmdToArgs line) "JOIN" →
      ∀ a ∈ (splitCmdToArgs line)[1]?, ∀ n ∈ splitArgToSubargs a, toLower n ≠ toLower k) :
    ((∃ s', s.execLine x line = .ok s') ↔ ∃ t', t.execLine x line = .ok t') ∧
      ∀ s' t', s.execLine x line = .ok s' → t.execLine x line = .ok t' →
        ∃ out c' d', s'.cliAt x = some c' ∧ t'.cliAt x = some d' ∧
          c'.bufToSend = c.bufToSend ++ out ∧ d'.bufToSend = c.bufToSend ++ out := by
  have hc' : t.cliAt x = some c := by rw [h.cliAt, hc]
  refine ⟨?_, fun s' t' hs' ht' => ?_⟩
  · rw [execLine_ok_iff hI hc, execLine_ok_iff hI' hc']
    exact (h.cmdSafe hI hI' hjoin).symm
  · obtain ⟨c', hc₁, hbuf, -⟩ := execLine_inbox hI hc hs' hc
    obtain ⟨d', hd₁, hbuf', -⟩ := execLine_inbox hI' hc' ht' hc'
    rw [h.inbox_apart hjoin] at hbuf'
    exact ⟨_, c', d', hc₁, hd₁, hbuf, hbuf'⟩

/-- `TOPIC` of a channel that the author is not on. -/
theorem outsiders_learn_nothing_topic : ∃ cfg c, runServer (str "2") 3
      (connect 0 alice ++ say 0 0 4 (register "al" ++ str "JOIN #foo\r\n") ++ connect 1 bob ++
        say 1 0 3 (register "bob")) = .ok cfg ∧ cfg.srv.cliAt bob.addr = some c ∧
    ∀ s' t', cfg.srv.execLine bob.addr (str "TOPIC #foo") = .ok s' →
      (cfg.srv.updCh (str "#foo") fun ch => { ch with topic := str "secret" }).execLine bob.addr
        (str "TOPIC #foo") = .ok t' →
      ∃ out c' d', s'.cliAt bob.addr = some c' ∧ t'.cliAt bob.addr = some d' ∧
        c'.bufToSend = c.bufToSend ++ out ∧ d'.bufToSend = c.bufToSend ++ out := by
  obtain ⟨cfg, hrun, hP⟩ := exists_run (str "2") 3
    (connect 0 alice ++ say 0 0 4 (register "al" ++ str "JOIN #foo\r\n") ++ connect 1 bob ++
      say 1 0 3 (register "bob"))
    (fun cfg => (cfg.srv.cliAt bob.addr).isSome &&
      (cfg.srv.chs[str "#foo"]?).any fun ch => bob.addr ∉ ch.clis) (by decide +kernel)
  simp only [Bool.and_eq_true, Option.isSome_iff_exists, Option.any_eq_true, decide_eq_true_eq] at hP
  obtain ⟨⟨c, hc⟩, ch, hch, hoff⟩ := hP
  have hI : Inv cfg.srv := (show Reachable _ _ cfg from ⟨_, hrun⟩).good.inv
  have hI' : Inv (cfg.srv.updCh (str "#foo") fun ch => { ch with topic := str "secret" }) := by
    rw [updCh_const hch fun ch => { ch with topic := str "secret" }]
    exact inv_updCh hI hch (fun _ hq => .inl hq) (hI.adm _ ch hch)
  have happ : Apart bob.addr (str "#foo") cfg.srv
      (cfg.srv.updCh (str "#foo") fun ch => { ch with topic := str "secret" }) :=
    ⟨ch, { ch with topic := str "secret" }, hch, updCh_const hch _, hoff, hoff⟩
  have htopic : ¬ CmdIs (splitCmdToArgs (str "TOPIC #foo")) "JOIN" := by
    unfold CmdIs
    decide
  exact ⟨cfg, c, hrun, hc, (outsiders_learn_nothing hI hI' happ hc fun hj => absurd hj htopic).2⟩

end FtIrc
