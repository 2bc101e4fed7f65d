import FtIrc.Crlf

/-!
# Delivering lines

A handler that only prepares lines turns the server `s` into `s.sendAll mail`, where `mail` lists
the lines with their addressees.  Every broadcast is of this form (`prepareRespAll_ok` and the
theorems after it), and `sendAll` changes nothing but the send buffers: each record receives the
frames of its own lines (`cliAt_sendAll`), and all lookups return what they did before.
-/

namespace FtIrc

open Std

/-- Lines and the clients they are prepared for. -/
abbrev Mail := List (Ptr × Str)

/-- The bytes `prepareResp` appends for a line. -/
def frame (msg : Str) : Str := msg.take (MAX_CMD_LEN - 2) ++ CRLF

/-- The bytes of a sequence of lines. -/
def frames (ms : List Str) : Str := (ms.map frame).flatten

/-- The lines of `mail` for one client. -/
def inbox (q : Ptr) (mail : Mail) : List Str := (mail.filter (·.1 = q)).map (·.2)

def Cli.receive (ms : List Str) (c : Cli) : Cli :=
  { c with
    bufToSend := c.bufToSend ++ frames ms
    hist := { c.hist with prepared := c.hist.prepared ++ ms } }

@[simp] theorem frames_nil : frames [] = [] := rfl

@[simp] theorem frames_cons (m : Str) (ms : List Str) : frames (m :: ms) = frame m ++ frames ms :=
  rfl

@[simp] theorem frames_append (ms ms' : List Str) : frames (ms ++ ms') = frames ms ++ frames ms' := by
  simp [frames]

@[simp] theorem inbox_nil (q : Ptr) : inbox q [] = [] := rfl

@[simp] theorem inbox_append (q : Ptr) (l l' : Mail) : inbox q (l ++ l') = inbox q l ++ inbox q l' := by
  simp [inbox]

theorem inbox_cons (q : Ptr) (e : Ptr × Str) (l : Mail) :
    inbox q (e :: l) = if e.1 = q then e.2 :: inbox q l else inbox q l := by
  unfold inbox
  rw [List.filter_cons]
  by_cases h : e.1 = q <;> simp [h]

theorem mem_inbox {q : Ptr} {m : Str} {l : Mail} : m ∈ inbox q l ↔ (q, m) ∈ l := by
  simp [inbox]

@[simp] theorem receive_nil (c : Cli) : c.receive [] = c := by simp [Cli.receive]

theorem receive_append (ms ms' : List Str) (c : Cli) :
    c.receive (ms ++ ms') = (c.receive ms).receive ms' := by
  simp [Cli.receive]

theorem appendResp_eq_receive (m : Str) : Server.appendResp m = Cli.receive [m] := by
  funext c
  simp [Server.appendResp, Cli.receive, frame]

namespace Server

/-- Prepare every line of `mail`, in order. -/
def sendAll (s : Server) (mail : Mail) : Server := mail.foldl (fun s e => s.push e.1 e.2) s

variable {s : Server} {p q x : Ptr} {c : Cli} {k n name m : Str} {ch : Ch} {mail : Mail}

@[simp] theorem sendAll_nil : s.sendAll [] = s := rfl

theorem sendAll_cons (e : Ptr × Str) : s.sendAll (e :: mail) = (s.push e.1 e.2).sendAll mail :=
  rfl

theorem sendAll_append (mail' : Mail) : s.sendAll (mail ++ mail') = (s.sendAll mail).sendAll mail' :=
  List.foldl_append

/-- A fact that `push` preserves, `sendAll` preserves. -/
theorem sendAll_induction {P : Server → Prop} (hpush : ∀ s p m, P s → P (s.push p m)) (h : P s) :
    ∀ mail, P (s.sendAll mail) := by
  intro mail
  induction mail generalizing s with
  | nil => exact h
  | cons e mail ih => exact ih (hpush s e.1 e.2 h)

/-! ## What does not change -/

@[simp] theorem chs_sendAll : (s.sendAll mail).chs = s.chs :=
  sendAll_induction (P := fun s' => s'.chs = s.chs) (fun _ _ _ h => h) rfl mail

@[simp] theorem fdsToErase_sendAll : (s.sendAll mail).fdsToErase = s.fdsToErase :=
  sendAll_induction (P := fun s' => s'.fdsToErase = s.fdsToErase) (fun _ _ _ h => h) rfl mail

@[simp] theorem pass_sendAll : (s.sendAll mail).pass = s.pass :=
  sendAll_induction (P := fun s' => s'.pass = s.pass) (fun _ _ _ h => h) rfl mail

@[simp] theorem getCh_sendAll : (s.sendAll mail).getCh name = s.getCh name := by simp [getCh]

@[simp] theorem chsAt_sendAll : (s.sendAll mail).chsAt name = s.chsAt name := by simp [chsAt]

@[simp] theorem derefCh_sendAll (r : ChRef) : (s.sendAll mail).derefCh r = s.derefCh r := by
  cases r <;> simp [derefCh]

@[simp] theorem nbChannels_sendAll : (s.sendAll mail).nbChannels p = s.nbChannels p := by
  simp [nbChannels]

@[simp] theorem getCli_sendAll : (s.sendAll mail).getCli n = s.getCli n :=
  sendAll_induction (P := fun s' => s'.getCli n = s.getCli n)
    (fun _ _ _ h => (getCli_push _ _).trans h) rfl mail

/-! ## What the addressees receive -/

theorem cliAt_sendAll : (s.sendAll mail).cliAt q = (s.cliAt q).map (Cli.receive (inbox q mail)) := by
  induction mail generalizing s with
  | nil =>
    have hid : Cli.receive [] = id := funext receive_nil
    rw [sendAll_nil, inbox_nil, hid, Option.map_id_fun, id]
  | cons e mail ih =>
    rw [sendAll_cons, ih, cliAt_push, inbox_cons]
    by_cases h : q = e.1
    · rw [if_pos h, if_pos h.symm, Option.map_map, appendResp_eq_receive]
      congr 1
      funext c
      exact (receive_append [e.2] _ c).symm
    · rw [if_neg h, if_neg fun h' => h h'.symm]

theorem deref_sendAll (h : s.deref q = .ok c) :
    (s.sendAll mail).deref q = .ok (c.receive (inbox q mail)) := by
  obtain ⟨hne, hc⟩ := deref_ok.mp h
  exact deref_ok.mpr ⟨hne, by rw [cliAt_sendAll, hc]; rfl⟩

/-- The scan for a nick does not see a write that keeps nicks. -/
theorem findNick_updCli {f : Cli → Cli} (hf : KeepsAddr f) (hn : ∀ c, (f c).nick = c.nick) :
    ∀ ps : List Ptr, (s.updCli p f).findNick n ps = s.findNick n ps
  | [] => rfl
  | q :: ps => by
    have ih := findNick_updCli hf hn ps
    unfold findNick
    rw [ih]
    unfold deref
    rw [cliAt_updCli hf]
    by_cases h0 : q = NULL
    · rw [if_pos h0, if_pos h0]
    · rw [if_neg h0, if_neg h0]
      cases s.cliAt q with
      | none => rw [Option.map_none, ite_self]
      | some c =>
        by_cases hq : q = p
        · rw [if_pos hq]
          show (if toLower (f c).nick = _ then _ else _) = (if toLower c.nick = _ then _ else _)
          rw [hn]
        · rw [if_neg hq]

theorem getCliOnCh_updCli {f : Cli → Cli} (hf : KeepsAddr f) (hn : ∀ c, (f c).nick = c.nick) :
    (s.updCli p f).getCliOnCh n name = s.getCliOnCh n name := by
  unfold getCliOnCh
  simp only [getCh_updCli, chsAt_updCli, findNick_updCli hf hn]

theorem getAdmOnCh_updCli {f : Cli → Cli} (hf : KeepsAddr f) (hn : ∀ c, (f c).nick = c.nick) :
    (s.updCli p f).getAdmOnCh n name = s.getAdmOnCh n name := by
  unfold getAdmOnCh
  simp only [getCh_updCli, chsAt_updCli, findNick_updCli hf hn]

@[simp] theorem getCliOnCh_sendAll : (s.sendAll mail).getCliOnCh n name = s.getCliOnCh n name :=
  sendAll_induction (P := fun s' => s'.getCliOnCh n name = s.getCliOnCh n name)
    (fun _ _ _ h => (getCliOnCh_updCli (appendResp_keepsAddr _) fun _ => rfl).trans h) rfl mail

@[simp] theorem getAdmOnCh_sendAll : (s.sendAll mail).getAdmOnCh n name = s.getAdmOnCh n name :=
  sendAll_induction (P := fun s' => s'.getAdmOnCh n name = s.getAdmOnCh n name)
    (fun _ _ _ h => (getAdmOnCh_updCli (appendResp_keepsAddr _) fun _ => rfl).trans h) rfl mail

/-! ## The broadcasts -/

theorem prepareResp_sendAll (h : s.deref p = .ok c) :
    s.prepareResp p m = .ok (s.sendAll [(p, m)]) := prepareResp_ok m h

theorem prepareRespAll_ok : ∀ (ps : List Ptr) (s : Server), (∀ p ∈ ps, ∃ c, s.deref p = .ok c) →
    prepareRespAll m ps s = .ok (s.sendAll (ps.map fun p => (p, m)))
  | [], _, _ => rfl
  | p :: ps, s, hlive => by
    obtain ⟨c, hc⟩ := hlive p (by simp)
    unfold prepareRespAll
    rw [prepareResp_ok m hc]
    refine prepareRespAll_ok ps (s.push p m) fun q hq => ?_
    obtain ⟨d, hd⟩ := hlive q (by simp [hq])
    have hpush : (s.sendAll [(p, m)]).deref q = _ := deref_sendAll hd
    exact ⟨_, hpush⟩

/-- The addressees of a broadcast to a channel. -/
def bcast (ch : Ch) (m : Str) : Mail := ch.clis.toList.map fun p => (p, m)

/-- The addressees of a broadcast to the others. -/
def bcastOthers (ch : Ch) (x : Ptr) (m : Str) : Mail :=
  (ch.clis.toList.filter (· ≠ x)).map fun p => (p, m)

theorem mem_bcast {e : Ptr × Str} : e ∈ bcast ch m ↔ e.1 ∈ ch.clis ∧ e.2 = m := by
  obtain ⟨q, m'⟩ := e
  simp only [bcast, List.mem_map, Prod.mk.injEq, ExtTreeSet.mem_toList]
  constructor
  · rintro ⟨p, hp, rfl, rfl⟩
    exact ⟨hp, rfl⟩
  · rintro ⟨hq, rfl⟩
    exact ⟨q, hq, rfl, rfl⟩

theorem mem_bcastOthers {e : Ptr × Str} :
    e ∈ bcastOthers ch x m ↔ e.1 ∈ ch.clis ∧ e.1 ≠ x ∧ e.2 = m := by
  obtain ⟨q, m'⟩ := e
  simp only [bcastOthers, List.mem_map, List.mem_filter, decide_eq_true_eq, Prod.mk.injEq,
    ExtTreeSet.mem_toList]
  constructor
  · rintro ⟨p, ⟨hp, hx⟩, rfl, rfl⟩
    exact ⟨hp, hx, rfl⟩
  · rintro ⟨hq, hx, rfl⟩
    exact ⟨q, ⟨hq, hx⟩, rfl, rfl⟩

theorem member_live (hI : Inv s) (hch : s.chs[k]? = some ch) (hp : p ∈ ch.clis) :
    ∃ c, s.deref p = .ok c ∧ s.cliAt p = some c ∧ c.registered = true := by
  obtain ⟨c, hc, hreg⟩ := hI.member k ch hch p hp
  exact ⟨c, deref_of_cliAt hI hc, hc, hreg⟩

theorem prepareRespAuthorIncluding_ok (hI : Inv s) (hch : s.chs[k]? = some ch) :
    s.prepareRespAuthorIncluding (some k) m = .ok (s.sendAll (bcast ch m)) := by
  unfold prepareRespAuthorIncluding
  rw [derefCh_some hch]
  refine prepareRespAll_ok _ s fun p hp => ?_
  obtain ⟨c, hc, _⟩ := member_live hI hch (ExtTreeSet.mem_toList.mp hp)
  exact ⟨c, hc⟩

/-- Different live clients have different descriptors. -/
theorem addr_eq_of_fd_eq (hI : Inv s) {d : Cli} (hc : s.cliAt p = some c) (hd : s.cliAt q = some d)
    (h : c.fd = d.fd) : p = q := by
  obtain ⟨hcm, rfl⟩ := cliAt_mem hc
  obtain ⟨hdm, rfl⟩ := cliAt_mem hd
  obtain ⟨fd, hfd⟩ := mem_clients.mp hcm
  obtain ⟨fd', hfd'⟩ := mem_clients.mp hdm
  have hfds : fd = fd' := by rw [← hI.fd_eq fd c hfd, ← hI.fd_eq fd' d hfd', h]
  rw [hfds, hfd'] at hfd
  cases hfd
  rfl

theorem prepareRespOthers_ok (hI : Inv s) (hx : s.cliAt x = some c) :
    ∀ (ps : List Ptr) (mail : Mail), (∀ p ∈ ps, ∃ d, s.cliAt p = some d) →
      prepareRespOthers x m ps (s.sendAll mail) =
        .ok (s.sendAll (mail ++ (ps.filter (· ≠ x)).map fun p => (p, m)))
  | [], mail, _ => by
    rw [List.filter_nil, List.map_nil, List.append_nil]
    rfl
  | p :: ps, mail, hlive => by
    obtain ⟨d, hd⟩ := hlive p (by simp)
    have hrest := fun mail => prepareRespOthers_ok hI hx ps mail fun q hq => hlive q (by simp [hq])
    have hpd : (s.sendAll mail).deref p = _ := deref_sendAll (deref_of_cliAt hI hd)
    unfold prepareRespOthers
    rw [hpd, deref_sendAll (deref_of_cliAt hI hx)]
    by_cases hp : p = x
    · subst hp
      rw [hx] at hd
      cases hd
      rw [List.filter_cons_of_neg (by simp)]
      show (if c.fd ≠ c.fd then _ else prepareRespOthers p m ps (s.sendAll mail)) = _
      rw [if_neg (by simp), hrest]
    · have hfd : d.fd ≠ c.fd := fun h => hp (addr_eq_of_fd_eq hI hd hx h)
      show (if d.fd ≠ c.fd then (s.sendAll mail).prepareResp p m >>= prepareRespOthers x m ps
        else _) = _
      rw [if_pos hfd, prepareResp_sendAll hpd, List.filter_cons_of_pos (by simpa using hp),
        ← sendAll_append]
      show prepareRespOthers x m ps _ = _
      rw [hrest, List.map_cons, List.append_assoc, List.singleton_append]

theorem prepareRespExceptAuthor_ok (hI : Inv s) (hch : s.chs[k]? = some ch)
    (hx : s.cliAt x = some c) :
    s.prepareRespExceptAuthor x (some k) m = .ok (s.sendAll (bcastOthers ch x m)) := by
  unfold prepareRespExceptAuthor
  rw [derefCh_some hch]
  refine prepareRespOthers_ok hI hx _ [] fun p hp => ?_
  obtain ⟨d, -, hd, -⟩ := member_live hI hch (ExtTreeSet.mem_toList.mp hp)
  exact ⟨d, hd⟩

/-- `QUIT` is told to every client. -/
theorem quitLoop_ok (text : Str) : ∀ (ds : List Cli) (s : Server),
    (∀ d ∈ ds, ∃ c, s.deref d.addr = .ok c) →
    quitLoop text ds s = .ok (s.sendAll (ds.map fun d => (d.addr, quitLine d text)))
  | [], _, _ => rfl
  | d :: ds, s, hlive => by
    obtain ⟨c, hc⟩ := hlive d (by simp)
    unfold quitLoop
    rw [prepareResp_ok _ hc]
    refine quitLoop_ok text ds (s.push d.addr (quitLine d text)) fun e he => ?_
    obtain ⟨c', hc'⟩ := hlive e (by simp [he])
    have hpush : (s.sendAll [(d.addr, quitLine d text)]).deref e.addr = _ := deref_sendAll hc'
    exact ⟨_, hpush⟩

/-! ## Texts about a channel -/

theorem userNames_ok (adms : ExtTreeSet Ptr) : ∀ ps : List Ptr,
    (∀ p ∈ ps, ∃ c, s.deref p = .ok c) →
    ∃ r, s.userNames adms ps = .ok r ∧ (Tidy s → CrlfFree r)
  | [], _ => ⟨[], rfl, fun _ => crlfFree_nil⟩
  | p :: ps, hlive => by
    obtain ⟨c, hc⟩ := hlive p (by simp)
    obtain ⟨r, hr, hfree⟩ := userNames_ok adms ps fun q hq => hlive q (by simp [hq])
    refine ⟨_, by unfold userNames; rw [hc, hr]; rfl, fun hT => ?_⟩
    have hnick := (hT.cli c (cliAt_mem (deref_ok.mp hc).2).1).1
    split <;> simp (disch := decide) [hnick, hfree hT]

theorem users_ok (hI : Inv s) (hch : s.chs[k]? = some ch) :
    ∃ r, s.users (some k) = .ok r ∧ (Tidy s → CrlfFree r) := by
  unfold users
  show ∃ r, (s.derefCh (some k) >>= _) = .ok r ∧ _
  rw [derefCh_some hch]
  by_cases h0 : ch.size = 0
  · refine ⟨str "no users", ?_, fun _ => by simp (disch := decide)⟩
    exact if_pos h0
  · obtain ⟨r, hr, hfree⟩ := userNames_ok ch.adms ch.clis.toList fun p hp => by
      obtain ⟨c, hc, _⟩ := member_live hI hch (ExtTreeSet.mem_toList.mp hp)
      exact ⟨c, hc⟩
    refine ⟨r.dropLast, ?_, fun hT => (hfree hT).sub (List.dropLast_prefix r).isInfix⟩
    show (if ch.size = 0 then _ else _) = _
    rw [if_neg h0, hr]
    rfl

theorem mode_ok (hI : Inv s) (hch : s.chs[k]? = some ch) :
    ∃ r, s.mode (some k) = .ok r ∧ (Tidy s → CrlfFree r) := by
  obtain ⟨us, hus, hfree⟩ := users_ok hI hch
  unfold mode
  show ∃ r, (s.derefCh (some k) >>= _) = .ok r ∧ _
  rw [derefCh_some hch]
  refine ⟨_, by rw [hus]; rfl, fun hT => ?_⟩
  have hflag : ∀ (b : Prop) [Decidable b] (l : String), CR ∉ str l →
      CR ∉ (if b then str l else []) := by
    intro b _ l hl
    split
    · exact hl
    · simp
  have hflags : CR ∉ (if ch.optT = true then str "t" else []) ++
      (if ch.optI = true then str "i" else []) ++ (if ch.pass ≠ [] then str "k" else []) ++
        (if ch.limit < UINT_MAX then str "l" else []) := by
    simp only [List.mem_append, not_or]
    exact ⟨⟨⟨hflag _ _ (by decide), hflag _ _ (by decide)⟩, hflag _ _ (by decide)⟩,
      hflag _ _ (by decide)⟩
  have hall : ∀ flags : Str, CR ∉ flags → CrlfFree (if flags = [] then [] else str "+" ++ flags) := by
    intro flags hf
    split
    · exact crlfFree_nil
    · exact (crlfFree_str_append (by decide)).mpr (crlfFree_of_not_mem hf)
  rw [List.append_assoc]
  exact (crlfFree_append_str_append (by decide)).mpr ⟨hall _ hflags, hfree hT⟩

end Server

end FtIrc
