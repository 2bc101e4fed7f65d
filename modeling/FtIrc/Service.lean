import FtIrc.Pruning

/-!
# The service

Of the state of the server, the service is what a command can see: the password, the records without their
buffers, and the channels.  `Alike s t`: the states have the same service.  The buffers, `polls` and the
marks are the transport; no command looks at them (`Alike.cmdRun`).
-/

namespace FtIrc

open Std Outcome Server

variable {s t u : Server} {x p q : Ptr} {c d me : Cli} {ar : List Str} {k n name a1 a2 text : Str} {ch : Ch}
  {mail : Mail} {f g : Cli → Cli}

/-! ## The service of a state -/

/-- A record without its buffers, and without what the kernel has accepted for it. -/
def Cli.seen (c : Cli) : Cli :=
  { c with bufToSend := [], bufRecv := [], hist := { c.hist with accepted := [] } }

/-- The state without the transport. -/
def Server.service (s : Server) : Server :=
  { s with polls := [], fdsToErase := ∅, clis := s.clis.map fun _ c => c.seen }

/-- The states have the same service. -/
def Alike (s t : Server) : Prop := s.service = t.service

theorem seen_iff : d.seen = c.seen ↔ Rebuffered c d := by
  constructor
  · intro h
    obtain ⟨addr, fd, host, passOk, cap, nick, uName, rName, invits, out, got, cmds, prepared, acc⟩ := d
    obtain ⟨addr', fd', host', passOk', cap', nick', uName', rName', invits', out', got', cmds', prepared',
      acc'⟩ := c
    simp only [Cli.seen, Cli.mk.injEq, Hist.mk.injEq, and_true, true_and] at h
    obtain ⟨rfl, rfl, rfl, rfl, rfl, rfl, rfl, rfl, rfl, rfl, rfl⟩ := h
    exact ⟨out, got, acc, rfl⟩
  · rintro ⟨out, got, acc, rfl⟩
    rfl

theorem Rebuffered.symm (h : Rebuffered c d) : Rebuffered d c := seen_iff.mp (seen_iff.mpr h).symm

@[simp] theorem seen_seen (c : Cli) : c.seen.seen = c.seen := rfl

theorem getElem?_clis_service (fd : Nat) : s.service.clis[fd]? = (s.clis[fd]?).map Cli.seen := by
  simp [Server.service, ExtTreeMap.getElem?_map]

@[simp] theorem chs_service : s.service.chs = s.chs := rfl

@[simp] theorem pass_service : s.service.pass = s.pass := rfl

@[simp] theorem service_service : s.service.service = s.service :=
  ext_maps rfl rfl rfl rfl (fun fd => by
    rw [getElem?_clis_service, getElem?_clis_service, Option.map_map]
    rfl) fun _ => rfl

theorem alike_service (s : Server) : Alike s.service s := service_service

theorem alike_iff : Alike s t ↔ s.pass = t.pass ∧ s.fdForNewClis = t.fdForNewClis ∧
    (∀ fd : Nat, (s.clis[fd]?).map Cli.seen = (t.clis[fd]?).map Cli.seen) ∧ s.chs = t.chs := by
  constructor
  · intro h
    have heq : s.service = t.service := h
    refine ⟨congrArg (·.pass) heq, congrArg (·.fdForNewClis) heq, fun fd => ?_, congrArg (·.chs) heq⟩
    rw [← getElem?_clis_service, ← getElem?_clis_service, heq]
  · rintro ⟨hpass, hlfd, hclis, hchs⟩
    refine ext_maps hpass hlfd rfl rfl (fun fd => ?_) fun k => ?_
    · rw [getElem?_clis_service, getElem?_clis_service, hclis]
    · rw [chs_service, chs_service, hchs]

theorem clients_service : s.service.clients = s.clients.map Cli.seen := by
  simp only [clients, Server.service, ExtTreeMap.toList_map, List.map_map]
  rfl

theorem cliAt_service : s.service.cliAt p = (s.cliAt p).map Cli.seen := by
  unfold Server.cliAt
  rw [clients_service]
  exact find?_map_of_forall fun _ _ => rfl

theorem getCli_service : s.service.getCli n = s.getCli n := by
  unfold Server.getCli
  rw [clients_service, find?_map_of_forall (g := Cli.seen) fun _ _ => rfl]
  cases s.clients.find? _ <;> rfl

namespace Alike

theorem refl (s : Server) : Alike s s := rfl

variable (h : Alike s t)

include h

theorem symm : Alike t s := Eq.symm h

theorem trans (h' : Alike t u) : Alike s u := Eq.trans h h'

theorem pass : t.pass = s.pass := (alike_iff.mp h).1.symm

theorem chs : t.chs = s.chs := (alike_iff.mp h).2.2.2.symm

theorem clients : t.clients.map Cli.seen = s.clients.map Cli.seen := by
  have heq : s.service = t.service := h
  rw [← clients_service, ← clients_service, heq]

theorem cliAt (p : Ptr) : (t.cliAt p).map Cli.seen = (s.cliAt p).map Cli.seen := by
  have heq : s.service = t.service := h
  rw [← cliAt_service, ← cliAt_service, heq]

theorem getCli : t.getCli = s.getCli := by
  have heq : s.service = t.service := h
  funext n
  rw [← getCli_service (s := t), ← heq, getCli_service]

theorem record (hc : s.cliAt p = some c) : ∃ d, t.cliAt p = some d ∧ Rebuffered c d := by
  have hp := h.cliAt p
  rw [hc, Option.map_some, Option.map_eq_some_iff] at hp
  obtain ⟨d, hd, hseen⟩ := hp
  exact ⟨d, hd, seen_iff.mp hseen⟩

theorem getCh (n : Str) : t.getCh n = s.getCh n := by
  unfold Server.getCh
  rw [h.chs]

theorem on : On t p k ↔ On s p k := by
  unfold On
  rw [h.chs]

theorem op : Op t p k ↔ Op s p k := by
  unfold Op
  rw [h.chs]

theorem nbChannels : t.nbChannels x = s.nbChannels x := by
  unfold Server.nbChannels
  rw [h.chs]

theorem nickAt (q : Ptr) : nickAt t q = nickAt s q := by
  have hq := congrArg (Option.map Cli.nick) (h.cliAt q)
  rw [Option.map_map, Option.map_map] at hq
  unfold FtIrc.nickAt
  exact congrArg (fun o => o.getD []) hq

theorem nickList (ch : Ch) : nickList t ch = nickList s ch := nickList_congr h.nickAt

theorem allNames : allNames t x = allNames s x := by
  unfold FtIrc.allNames chsOf
  simp only [h.chs, h.on]

/-! ## The writes -/

theorem updCli (hfg : ∀ c d, d.seen = c.seen → (g d).seen = (f c).seen) :
    Alike (s.updCli p f) (t.updCli p g) := by
  obtain ⟨hpass, hlfd, hclis, hchs⟩ := alike_iff.mp h
  refine alike_iff.mpr ⟨hpass, hlfd, fun fd => ?_, hchs⟩
  have hfd := hclis fd
  rw [getElem?_clis_updCli, getElem?_clis_updCli]
  cases hc : s.clis[fd]? with
  | none =>
    rw [hc, Option.map_none, eq_comm, Option.map_eq_none_iff] at hfd
    rw [hfd]
    rfl
  | some c =>
    rw [hc, Option.map_some, eq_comm, Option.map_eq_some_iff] at hfd
    obtain ⟨d, hd, hseen⟩ := hfd
    have haddr : d.addr = c.addr := show d.seen.addr = c.seen.addr from congrArg Cli.addr hseen
    rw [hd, Option.map_some, Option.map_some, Option.map_some, Option.map_some, haddr]
    split
    · rw [hfg c d hseen]
    · rw [hseen]

theorem updCh (g : Ch → Ch) : Alike (s.updCh k g) (t.updCh k g) := by
  obtain ⟨hpass, hlfd, hclis, hchs⟩ := alike_iff.mp h
  refine alike_iff.mpr ⟨hpass, hlfd, hclis, ?_⟩
  unfold Server.updCh
  rw [hchs]

theorem markToErase (fd fd' : Nat) : Alike (s.markToErase fd) (t.markToErase fd') := h

theorem push (m : Str) : Alike (s.push p m) (t.push p m) := by
  refine h.updCli fun c d hseen => ?_
  obtain ⟨out, got, acc, rfl⟩ := seen_iff.mp hseen
  rfl

omit h in
theorem sendAll : ∀ {s t : Server}, Alike s t → ∀ mail : Mail, Alike (s.sendAll mail) (t.sendAll mail)
  | _, _, h, [] => h
  | _, _, h, e :: mail => by
    rw [sendAll_cons, sendAll_cons]
    exact sendAll (h.push e.2) mail

theorem note (x : Ptr) (ar : List Str) : Alike (s.note x ar) (t.note x ar) := by
  refine h.updCli fun c d hseen => ?_
  obtain ⟨out, got, acc, rfl⟩ := seen_iff.mp hseen
  rfl

/-! ## The lines -/

theorem partMails : partMails t x c a1 text = partMails s x c a1 text := by
  unfold FtIrc.partMails partMail
  simp only [h.chs, h.getCh]

theorem kickMails : kickMails t x c a1 a2 text = kickMails s x c a1 a2 text := by
  unfold FtIrc.kickMails kickItem
  simp only [h.chs, h.getCh, h.getCli]

theorem privmsgMails : privmsgMails t x c a1 a2 = privmsgMails s x c a1 a2 := by
  unfold FtIrc.privmsgMails privmsgMail
  simp only [h.chs, h.getCli]

theorem noticeMails : noticeMails t x c a1 a2 = noticeMails s x c a1 a2 := by
  unfold FtIrc.noticeMails noticeMail
  simp only [h.chs, h.getCh, h.getCli]

theorem inviteMail : inviteMail t x c a1 a2 = inviteMail s x c a1 a2 := by
  unfold FtIrc.inviteMail
  rw [h.chs, h.getCh, h.getCli]

theorem topicMail (o : Option Str) : topicMail t x c a1 o = topicMail s x c a1 o := by
  unfold FtIrc.topicMail
  rw [h.chs, h.getCh]

theorem modeChMail : modeChMail t x c ar = modeChMail s x c ar := by
  unfold FtIrc.modeChMail modeText
  simp only [h.chs, h.getCh, h.getCli, h.nickList]

theorem modeCliMail : modeCliMail t x c ar = modeCliMail s x c ar := by
  unfold FtIrc.modeCliMail
  rw [h.getCli]
  cases hd : s.cliAt (s.getCli (argD ar 1)) with
  | none =>
    have hnone := h.cliAt (s.getCli (argD ar 1))
    rw [hd, Option.map_none, Option.map_eq_none_iff] at hnone
    rw [hnone]
  | some d =>
    obtain ⟨e, he, out, got, acc, rfl⟩ := h.record hd
    rw [he]

theorem whoisMails : whoisMails t x ar = whoisMails s x ar := by
  have hone : ∀ nick, whoisMail t x nick = whoisMail s x nick := by
    intro nick
    unfold whoisMail
    rw [h.getCli]
    cases hd : s.cliAt (s.getCli nick) with
    | none =>
      have hnone := h.cliAt (s.getCli nick)
      rw [hd, Option.map_none, Option.map_eq_none_iff] at hnone
      rw [hnone]
    | some d =>
      obtain ⟨e, he, out, got, acc, rfl⟩ := h.record hd
      rw [he]
  unfold FtIrc.whoisMails
  simp only [funext hone]

theorem quitMail : quitMail t ar = quitMail s ar := by
  have hline : ∀ u : Server, FtIrc.quitMail u ar =
      (u.clients.map Cli.seen).map fun d => (d.addr, quitLine d (quitText ar)) := fun u => by
    rw [List.map_map]
    rfl
  rw [hline, hline, h.clients]

/-- A condition on the names and the nicks of the clients. -/
theorem forall_clients {P : Cli → Prop} (hP : ∀ c : Cli, P c.seen ↔ P c) :
    (∀ d ∈ t.clients, P d) ↔ ∀ d ∈ s.clients, P d := by
  have hseen : ∀ u : Server, (∀ d ∈ u.clients, P d) ↔ ∀ d ∈ u.clients.map Cli.seen, P d := fun u => by
    rw [List.forall_mem_map]
    exact forall₂_congr fun d _ => (hP d).symm
  rw [hseen, hseen, h.clients]

theorem nickTaken : NickTaken t ar ↔ NickTaken s ar := by
  unfold NickTaken
  rw [h.forall_clients (P := fun d => toLower (argD ar 1) ≠ toLower d.nick) fun _ => Iff.rfl]

theorem nickMail : nickMail t x c ar = nickMail s x c ar := by
  have huse : (∃ d ∈ t.clients, toLower (argD ar 1) = toLower d.nick) ↔
      ∃ d ∈ s.clients, toLower (argD ar 1) = toLower d.nick := by
    have hall := h.forall_clients (P := fun d => toLower (argD ar 1) ≠ toLower d.nick) fun _ => Iff.rfl
    simpa using not_congr hall
  unfold FtIrc.nickMail
  simp only [huse]

theorem nickSet : nickSet t ar = nickSet s ar := by
  unfold FtIrc.nickSet
  simp only [h.nickTaken]

theorem passMail : passMail t x c ar = passMail s x c ar := by
  unfold FtIrc.passMail
  rw [h.pass]

/-! ## JOIN -/

theorem openCh : Alike (openCh s x name) (openCh t x name) := by
  unfold FtIrc.openCh
  rw [h.getCh]
  split
  · obtain ⟨hpass, hlfd, hclis, hchs⟩ := alike_iff.mp h
    exact alike_iff.mpr ⟨hpass, hlfd, hclis, congrArg (·.insert name (Ch.new x)) hchs⟩
  · exact h

theorem letIn (hd : d.invits = me.invits) : Alike (letIn s x me name) (letIn t x d name) := by
  have hput := h.updCh (k := name) fun ch => ch.enter x
  unfold FtIrc.letIn useInvitation
  rw [hd]
  split
  · refine hput.updCli fun c d hseen => ?_
    obtain ⟨out, got, acc, rfl⟩ := seen_iff.mp hseen
    rfl
  · exact hput

theorem joinOne (pass : Str) : Alike (joinOne s x c name pass).1 (joinOne t x c name pass).1 ∧
    (joinOne t x c name pass).2 = (joinOne s x c name pass).2 := by
  have hopen : Alike (FtIrc.openCh s x name) (FtIrc.openCh t x name) := h.openCh
  unfold FtIrc.joinOne
  rw [hopen.chs]
  cases hme : s.cliAt x with
  | none =>
    have hnone := h.cliAt x
    rw [hme, Option.map_none, Option.map_eq_none_iff] at hnone
    rw [hnone]
    exact ⟨h, rfl⟩
  | some me =>
    obtain ⟨d, hd, out, got, acc, rfl⟩ := h.record hme
    rw [hd]
    cases hch : (FtIrc.openCh s x name).chs[name]? with
    | none => exact ⟨h, rfl⟩
    | some ch =>
      have hrefusal : refusal { me with bufToSend := out, bufRecv := got, hist := { me.hist with accepted := acc } }
          ch name pass = refusal me ch name pass := rfl
      simp only [hrefusal]
      cases refusal me ch name pass with
      | some m => exact ⟨h, rfl⟩
      | none =>
        refine ⟨hopen.letIn rfl, ?_⟩
        simp only [joinedMail, h.nickList]

omit h in
theorem joinRun : ∀ (names passes : List Str) {s t : Server}, Alike s t →
    Alike (joinRun x c a1 names passes s).1 (joinRun x c a1 names passes t).1 ∧
      (joinRun x c a1 names passes t).2 = (joinRun x c a1 names passes s).2
  | [], _, _, _, h => ⟨h, rfl⟩
  | name :: names, passes, s, t, h => by
    unfold FtIrc.joinRun
    rw [h.nbChannels]
    by_cases hmany : MAX_CHS_PER_USER - 1 < s.nbChannels x
    · rw [if_pos hmany, if_pos hmany]
      exact ⟨h, rfl⟩
    rw [if_neg hmany, if_neg hmany]
    simp only [h.on]
    obtain ⟨hrest, hmail⟩ := joinRun names passes h
    by_cases hbad : badName name = true
    · rw [if_pos hbad, if_pos hbad]
      exact ⟨hrest, congrArg (List.cons _) hmail⟩
    rw [if_neg hbad, if_neg hbad]
    by_cases hon : On s x name
    · rw [if_pos hon, if_pos hon]
      exact ⟨hrest, congrArg (List.cons _) hmail⟩
    rw [if_neg hon, if_neg hon]
    obtain ⟨hone, hline⟩ : Alike (FtIrc.joinOne s x c name (passes.headD [])).1
        (FtIrc.joinOne t x c name (passes.headD [])).1 ∧
      (FtIrc.joinOne t x c name (passes.headD [])).2 = (FtIrc.joinOne s x c name (passes.headD [])).2 :=
      h.joinOne _
    obtain ⟨hrest, hmail⟩ := joinRun names passes.tail hone
    exact ⟨hrest, by simp only [hline, hmail]⟩

/-! ## The commands -/

omit h in
theorem registeredRun {r r' : Server × Mail} (h : Alike s t) (hr : Alike r.1 r'.1 ∧ r'.2 = r.2) :
    Alike (registeredRun s x c r).1 (registeredRun t x c r').1 ∧
      (registeredRun t x c r').2 = (registeredRun s x c r).2 := by
  unfold FtIrc.registeredRun
  split
  · exact ⟨h, rfl⟩
  · exact hr

theorem partRun : Alike (partRun s x c ar).1 (partRun t x c ar).1 ∧
    (partRun t x c ar).2 = (partRun s x c ar).2 := by
  refine registeredRun h ?_
  split
  · exact ⟨h, rfl⟩
  · refine ⟨?_, h.partMails⟩
    unfold partDone
    simp only [h.on]
    split
    · exact h.updCh _
    · exact h

theorem execJoinRun : Alike (execJoinRun s x c ar).1 (execJoinRun t x c ar).1 ∧
    (execJoinRun t x c ar).2 = (execJoinRun s x c ar).2 := by
  refine registeredRun h ?_
  rw [h.allNames]
  split
  · exact ⟨h, rfl⟩
  split
  · exact h.partRun
  split
  · exact ⟨h, rfl⟩
  · exact joinRun _ _ h

theorem modeRun : Alike (modeRun s x c ar).1 (modeRun t x c ar).1 ∧
    (modeRun t x c ar).2 = (modeRun s x c ar).2 := by
  unfold FtIrc.modeRun
  split
  · exact ⟨h, rfl⟩
  split
  · refine registeredRun h ⟨?_, h.modeChMail⟩
    unfold modeDone
    simp only [h.op, h.getCli]
    split
    · exact h.updCh _
    · exact h
  · exact ⟨h, h.modeCliMail⟩

theorem topicRun : Alike (topicRun s x c ar).1 (topicRun t x c ar).1 ∧
    (topicRun t x c ar).2 = (topicRun s x c ar).2 := by
  refine registeredRun h ?_
  split
  · exact ⟨h, rfl⟩
  · refine ⟨?_, h.topicMail _⟩
    unfold topicDone
    rw [h.chs]
    split
    · split
      · exact h.updCh _
      · exact h
    · exact h

theorem inviteRun : Alike (inviteRun s x c ar).1 (inviteRun t x c ar).1 ∧
    (inviteRun t x c ar).2 = (inviteRun s x c ar).2 := by
  refine registeredRun h ?_
  split
  · exact ⟨h, rfl⟩
  · refine ⟨?_, h.inviteMail⟩
    have hinv : Invites t x (argD ar 1) (argD ar 2) ↔ Invites s x (argD ar 1) (argD ar 2) := by
      unfold Invites
      rw [h.chs, h.getCli]
    unfold inviteDone
    simp only [hinv, h.getCli]
    split
    · refine h.updCli fun c d hseen => ?_
      obtain ⟨out, got, acc, rfl⟩ := seen_iff.mp hseen
      rfl
    · exact h

theorem kickRun : Alike (kickRun s x c ar).1 (kickRun t x c ar).1 ∧
    (kickRun t x c ar).2 = (kickRun s x c ar).2 := by
  refine registeredRun h ?_
  split
  · exact ⟨h, rfl⟩
  · refine ⟨?_, h.kickMails⟩
    unfold kickDone
    simp only [h.op, h.getCli]
    split
    · exact h.updCh _
    · exact h

theorem privmsgRun : Alike (privmsgRun s x c ar).1 (privmsgRun t x c ar).1 ∧
    (privmsgRun t x c ar).2 = (privmsgRun s x c ar).2 := by
  refine registeredRun h ?_
  rw [h.privmsgMails]
  repeat' split
  all_goals exact ⟨h, rfl⟩

theorem noticeRun : Alike (noticeRun s x c ar).1 (noticeRun t x c ar).1 ∧
    (noticeRun t x c ar).2 = (noticeRun s x c ar).2 := by
  unfold FtIrc.noticeRun
  rw [h.noticeMails]
  split <;> exact ⟨h, rfl⟩

/-- **No command looks at the transport.** -/
theorem cmdRun : Alike (cmdRun s x c ar).1 (cmdRun t x c ar).1 ∧
    (cmdRun t x c ar).2 = (cmdRun s x c ar).2 := by
  refine cmdRun_cases₂ (P := fun r r' => Alike r.1 r'.1 ∧ r'.2 = r.2) (fun _ => ⟨h, rfl⟩) (fun _ => ?pass)
    (fun _ => ?nick) (fun _ => ?user) (fun _ => ⟨h, h.quitMail⟩) (fun _ => ⟨h, rfl⟩) (fun _ => ?cap)
    (fun _ => ⟨h, h.whoisMails⟩) (fun _ => h.privmsgRun) (fun _ => h.noticeRun) (fun _ => h.execJoinRun)
    (fun _ => h.partRun) (fun _ => h.modeRun) (fun _ => h.topicRun) (fun _ => h.inviteRun)
    (fun _ => h.kickRun) (fun _ _ _ => ⟨h, rfl⟩)
  case pass =>
    have hmark : Alike (passMark s c ar) (passMark t c ar) := by
      unfold passMark
      rw [h.pass]
      split <;> exact h
    refine ⟨hmark.updCli fun c d hseen => ?_, h.passMail⟩
    obtain ⟨out, got, acc, rfl⟩ := seen_iff.mp hseen
    unfold passSet
    show (if PassTaken ar c then _ else _ : Cli).seen = _
    split <;> rfl
  case nick =>
    refine ⟨?_, h.nickMail⟩
    rw [h.nickSet]
    refine h.updCli fun c d hseen => ?_
    obtain ⟨out, got, acc, rfl⟩ := seen_iff.mp hseen
    unfold FtIrc.nickSet
    split <;> rfl
  case user =>
    refine ⟨h.updCli fun c d hseen => ?_, rfl⟩
    obtain ⟨out, got, acc, rfl⟩ := seen_iff.mp hseen
    unfold userSet
    show (if UserTaken ar c then _ else _ : Cli).seen = _
    split <;> rfl
  case cap =>
    refine ⟨h.updCli fun c d hseen => ?_, rfl⟩
    obtain ⟨out, got, acc, rfl⟩ := seen_iff.mp hseen
    unfold capSet
    show (if argD ar 1 = str "LS" then _ else if argD ar 1 = str "END" ∧ c.registered = true then _ else _ :
      Cli).seen = _
    repeat' split
    all_goals rfl

/-! ## The conditions -/

/-- A condition on a record that does not look at its buffers. -/
theorem exists_record {P : Cli → Prop} (hP : ∀ c : Cli, P c.seen ↔ P c) (hx : ∃ c, s.cliAt p = some c ∧ P c) :
    ∃ c, t.cliAt p = some c ∧ P c := by
  obtain ⟨c, hc, hPc⟩ := hx
  obtain ⟨d, hd, hcd⟩ := h.record hc
  refine ⟨d, hd, (hP d).mp ?_⟩
  rw [seen_iff.mpr hcd]
  exact (hP c).mpr hPc

theorem isReg (hx : IsReg s p) : IsReg t p := h.exists_record (fun _ => Iff.rfl) hx

theorem keySpelled (hk : KeySpelled s n) : KeySpelled t n := by
  unfold KeySpelled
  rw [h.getCh, h.chs]
  exact hk

theorem inv (hI : Inv s) : Inv t := by
  have hmem : ∀ d ∈ t.clients, ∃ c ∈ s.clients, Rebuffered c d := by
    intro d hd
    have hin : d.seen ∈ s.clients.map Cli.seen := by
      rw [← h.clients]
      exact List.mem_map_of_mem hd
    obtain ⟨c, hc, hseen⟩ := List.mem_map.mp hin
    exact ⟨c, hc, seen_iff.mp hseen.symm⟩
  have hfd : ∀ (fd : Nat) (d : Cli), t.clis[fd]? = some d → ∃ c, s.clis[fd]? = some c ∧ Rebuffered c d := by
    intro fd d hd
    have hclis := (alike_iff.mp h).2.2.1 fd
    rw [hd, Option.map_some, Option.map_eq_some_iff] at hclis
    obtain ⟨c, hc, hseen⟩ := hclis
    exact ⟨c, hc, seen_iff.mp hseen.symm⟩
  have hsame : ∀ c d : Cli, Rebuffered c d →
      d.addr = c.addr ∧ d.fd = c.fd ∧ d.nick = c.nick := by
    rintro c d ⟨out, got, acc, rfl⟩
    exact ⟨rfl, rfl, rfl⟩
  -- two records of `t` are those of `s` at the same descriptor
  have hone : ∀ d ∈ t.clients, ∀ e ∈ t.clients, ∀ c, Rebuffered c d → Rebuffered c e → c ∈ s.clients →
      d = e := by
    intro d hd e he c hcd hce hc
    obtain ⟨fd, hfdd⟩ := mem_clients.mp hd
    obtain ⟨fd', hfde⟩ := mem_clients.mp he
    obtain ⟨c₁, hc₁, hcd₁⟩ := hfd fd d hfdd
    obtain ⟨c₂, hc₂, hce₂⟩ := hfd fd' e hfde
    have h1 : fd = c.fd := by
      rw [← (hsame c d hcd).2.1, (hsame c₁ d hcd₁).2.1, hI.fd_eq fd c₁ hc₁]
    have h2 : fd' = c.fd := by
      rw [← (hsame c e hce).2.1, (hsame c₂ e hce₂).2.1, hI.fd_eq fd' c₂ hc₂]
    rw [h1] at hfdd
    rw [h2, hfdd] at hfde
    exact Option.some.inj hfde
  refine ⟨fun d hd => ?_, fun d hd e he heq => ?_, fun fd d hd => ?_, fun d hd e he hne heq => ?_, fun d hd => ?_,
    ?_, ?_, fun k ch hch p hp => ?_, ?_⟩
  · obtain ⟨c, hc, hcd⟩ := hmem d hd
    rw [(hsame c d hcd).1]
    exact hI.addr_ne c hc
  · obtain ⟨c, hc, hcd⟩ := hmem d hd
    obtain ⟨c', hc', hce⟩ := hmem e he
    rw [(hsame c d hcd).1, (hsame c' e hce).1] at heq
    have hcc := hI.addr_inj c hc c' hc' heq
    exact hone d hd e he c hcd (hcc ▸ hce) hc
  · obtain ⟨c, hc, hcd⟩ := hfd fd d hd
    rw [(hsame c d hcd).2.1]
    exact hI.fd_eq fd c hc
  · obtain ⟨c, hc, hcd⟩ := hmem d hd
    obtain ⟨c', hc', hce⟩ := hmem e he
    rw [(hsame c d hcd).2.2] at hne heq
    rw [(hsame c' e hce).2.2] at heq
    have hcc := hI.nick_inj c hc c' hc' hne heq
    exact hone d hd e he c hcd (hcc ▸ hce) hc
  · obtain ⟨c, hc, hcd⟩ := hmem d hd
    rw [(hsame c d hcd).2.2]
    exact hI.nick_chars c hc
  · rw [h.chs]
    exact hI.ch_inj
  · rw [h.chs]
    exact hI.ch_name
  · rw [h.chs] at hch
    exact h.exists_record (P := fun c => c.registered = true) (fun _ => Iff.rfl) (hI.member k ch hch p hp)
  · rw [h.chs]
    exact hI.adm

theorem joinSafe (hcd : Rebuffered c d) : ∀ (names passes joined : List Str),
    (JoinSafe t x d joined names passes ↔ JoinSafe s x c joined names passes)
  | [], _, _ => Iff.rfl
  | name :: names, passes, joined => by
    have hrest := fun passes joined => joinSafe hcd names passes joined
    have hadm : ∀ pass, Admitted t d name pass ↔ Admitted s c name pass := fun pass => by
      obtain ⟨out, got, acc, rfl⟩ := hcd
      unfold Admitted
      rw [h.chs]
      exact Iff.rfl
    unfold JoinSafe
    rw [h.nbChannels, h.chs]
    simp only [h.on, hadm, hrest]

theorem namesMember (hn : NamesMember t k n) : NamesMember s k n := by
  obtain ⟨ch, q, d, hch, hq, hd, hnick⟩ := hn
  obtain ⟨c, hc, out, got, acc, rfl⟩ := h.symm.record hd
  exact ⟨ch, q, _, h.chs ▸ hch, hq, hc, hnick⟩

/-- **What goes well in one goes well in the other.** -/
theorem cmdSafe (hs : CmdSafe s x ar) : CmdSafe t x ar := by
  have hnamed : NamedOk s x ar → NamedOk t x ar := fun hok hreg a ha =>
    h.keySpelled (hok (h.symm.isReg hreg) a ha)
  refine ⟨fun hcmd hreg a ha hlen hfew => ?privmsg, fun hcmd d hd hreg a ha => ?join,
    fun hcmd hreg a ha => ?part, fun hcmd hreg a ha a2 ha2 => ?kick,
    fun hcmd hreg a ha hto a2 ha2 => ?invite, fun hcmd => hnamed (hs.topic hcmd),
    fun hcmd hall => hnamed (hs.mode hcmd hall)⟩
  case privmsg =>
    have hok := hs.privmsg hcmd (h.symm.isReg hreg) a ha hlen hfew
    unfold PrivmsgSafe
    rw [h.chs]
    exact hok
  case join =>
    obtain ⟨c, hc, hdc⟩ := h.symm.record hd
    have hreg' : c.registered = true := by
      obtain ⟨out, got, acc, rfl⟩ := hdc
      exact hreg
    have hok := hs.join hcmd c hc hreg' a ha
    rw [h.nbChannels]
    split
    · rename_i hz
      rw [if_pos hz] at hok
      exact hok
    · rename_i hz
      rw [if_neg hz] at hok
      exact fun hfew => (h.joinSafe hdc.symm _ _ _).mpr (hok hfew)
  case part =>
    have hok := hs.part hcmd (h.symm.isReg hreg) a ha
    intro i hi hget
    rw [h.getCh] at hget
    rw [h.chs, h.on, h.getCh]
    exact hok i hi hget
  case kick =>
    have hok := hs.kick hcmd (h.symm.isReg hreg) a ha a2 ha2
    intro i hi hget
    rw [h.getCh] at hget
    rw [h.chs, h.op, h.getCh]
    obtain ⟨hkey, hno⟩ := hok i hi hget
    exact ⟨hkey, fun hop ha1 v hv hn => hno hop ha1 v hv (h.namesMember hn)⟩
  case invite =>
    rw [h.getCli] at hto
    exact h.keySpelled (hs.invite hcmd (h.symm.isReg hreg) a ha hto a2 ha2)

end Alike

/-! ## The record of the author -/

section Author

variable (h : Rebuffered c d)

include h

theorem joinRun_rebuffered : ∀ (names passes : List Str) (u : Server),
    joinRun x d a1 names passes u = joinRun x c a1 names passes u
  | [], _, _ => rfl
  | name :: names, passes, u => by
    have hrest := fun passes u => joinRun_rebuffered names passes u
    have hone : ∀ pass, joinOne u x d name pass = joinOne u x c name pass := fun pass => by
      obtain ⟨out, got, acc, rfl⟩ := h
      rfl
    unfold joinRun
    simp only [hone, hrest]

theorem modeMail_rebuffered (who : Str → Ptr) : ∀ (os : List (Str × Str)) (ch : Ch),
    modeMail who x d ar os ch = modeMail who x c ar os ch
  | [], _ => rfl
  | o :: os, ch => by
    have hdone : optionDone who d ar o.1 o.2 ch = optionDone who c ar o.1 o.2 ch := by
      obtain ⟨out, got, acc, rfl⟩ := h
      rfl
    have hmail : optionMail who x d ar o.1 o.2 ch = optionMail who x c ar o.1 o.2 ch := by
      obtain ⟨out, got, acc, rfl⟩ := h
      rfl
    unfold modeMail
    rw [hdone, hmail, modeMail_rebuffered who os]

theorem partRun_rebuffered : partRun s x d ar = partRun s x c ar := by
  obtain ⟨out, got, acc, rfl⟩ := h
  rfl

theorem modeRun_rebuffered : modeRun s x d ar = modeRun s x c ar := by
  have hnick : d.nick = c.nick := by
    obtain ⟨out, got, acc, rfl⟩ := h
    rfl
  have hdone : modeDone s x d ar = modeDone s x c ar := by
    unfold modeDone
    simp only [modeCh_congr hnick]
  have hmail : modeChMail s x d ar = modeChMail s x c ar := by
    unfold modeChMail
    simp only [modeMail_rebuffered h]
  have hcli : modeCliMail s x d ar = modeCliMail s x c ar := by
    obtain ⟨out, got, acc, rfl⟩ := h
    rfl
  have hreg : ∀ r, registeredRun s x d r = registeredRun s x c r := fun r => by
    obtain ⟨out, got, acc, rfl⟩ := h
    rfl
  unfold modeRun
  rw [hdone, hmail, hcli, hreg]

theorem execJoinRun_rebuffered : execJoinRun s x d ar = execJoinRun s x c ar := by
  have hreg : ∀ r, registeredRun s x d r = registeredRun s x c r := fun r => by
    obtain ⟨out, got, acc, rfl⟩ := h
    rfl
  unfold execJoinRun
  rw [partRun_rebuffered h, joinRun_rebuffered h, hreg]

/-- A command does not look at the buffers of its author either. -/
theorem cmdRun_rebuffered : cmdRun s x d ar = cmdRun s x c ar := by
  refine cmdRun_cases₂ (s := s) (t := s) (c := d) (d := c) (P := fun r r' => r = r') (fun _ => rfl)
    (fun _ => ?pass) (fun _ => ?nick) (fun _ => ?user) (fun _ => ?quit) (fun _ => rfl) (fun _ => ?cap)
    (fun _ => rfl) (fun _ => ?privmsg) (fun _ => ?notice) (fun _ => execJoinRun_rebuffered h)
    (fun _ => partRun_rebuffered h) (fun _ => modeRun_rebuffered h) (fun _ => ?topic) (fun _ => ?invite)
    (fun _ => ?kick) (fun _ _ _ => rfl)
  all_goals
    obtain ⟨out, got, acc, rfl⟩ := h
    rfl

end Author

end FtIrc
