import FtIrc.Exec.Cleanup
import FtIrc.Exec.Dispatch

/-!
# Reachable configurations

`Move` is the inversion of `step`: one constructor for each place of `run`, with what the program
and the kernel have checked there.  Every invariant of the runs is proved by cases on it; the first
is `Good`, which puts the invariant of the commands together with where `run` stands.

* `Move.good` — every transition keeps `Good`; `Reachable.good` — so every reachable configuration
  satisfies it.
* `step_null` — the only transitions that use a null pointer are commands that are not `CmdSafe`.
-/

namespace FtIrc

open Std Outcome Server

variable {s s' : Server} {x y p q : Ptr} {c c' d : Cli} {ar : List Str} {fd lfd : Nat} {r : Revents}
  {todo : List (Nat × Revents)} {cfg cfg' : Config} {i : Input} {pass : Str}

/-! ## The transitions -/

/-- One transition of the server `s` that stands at a phase: the new server and phase. -/
inductive Move (s : Server) : Phase → Input → Server → Phase → Prop
  | clis (s' : Server) : s.eraseUnusedClis = .ok s' → Move s .clis .next s' .chs
  | chs (s' : Server) (freed : List ChRef) : s.eraseUnusedChs = .ok (s', freed) →
      Move s .chs .next s' .mark
  | mark : Move s .mark .next s.markPollsToSendMsgsTo .poll
  | poll (rs : List Revents) : rs.length = s.polls.length →
      (∀ e ∈ s.polls.zip rs, pollContract e.1 e.2 = true) →
      Move s .poll (.poll rs) s (.events ((s.polls.map (·.fd)).zip rs))
  | again : Move s (.events []) .next s .clis
  | acceptError (r : Revents) (todo : List (Nat × Revents)) : r.pollin = true →
      Move s (.events ((s.fdForNewClis, r) :: todo)) (.accept none) s .clis
  | accept (r : Revents) (todo : List (Nat × Revents)) (conn : Conn) : r.pollin = true →
      acceptContract s conn = true →
      Move s (.events ((s.fdForNewClis, r) :: todo)) (.accept (some conn)) (s.addNewClient conn)
        .clis
  | recvError (fd : Nat) (r : Revents) (todo : List (Nat × Revents)) : r.pollin = true →
      Move s (.events ((fd, r) :: todo)) (.recv .error) s (.events todo)
  | recvClosed (fd : Nat) (r : Revents) (todo : List (Nat × Revents)) (c d : Cli) :
      r.pollin = true → s.clis[fd]? = some c → s.deref c.addr = .ok d →
      Move s (.events ((fd, r) :: todo)) (.recv .closed) (s.markToErase d.fd) (.events todo)
  | recv (fd : Nat) (r : Revents) (todo : List (Nat × Revents)) (c : Cli) (chunk : Str) (s' : Server)
      (lines : List Str) : r.pollin = true → s.clis[fd]? = some c → chunk ≠ [] →
      s.receiveBuf c.addr chunk = .ok (s', lines) →
      Move s (.events ((fd, r) :: todo)) (.recv (.data chunk)) s' (.cmds c.addr lines todo)
  | send (fd : Nat) (r : Revents) (todo : List (Nat × Revents)) (c : Cli) (n : Int) (d : Cli)
      (s' : Server) : r.pollin = false → r.pollout = true → s.clis[fd]? = some c →
      s.deref c.addr = .ok d → n = -1 ∨ (0 ≤ n ∧ n ≤ d.bufToSend.length ∧ n ≤ SSIZE_MAX) →
      s.sendPreparedResps c.addr n = .ok s' →
      Move s (.events ((fd, r) :: todo)) (.send n) s' (.events todo)
  | idle (fd : Nat) (r : Revents) (todo : List (Nat × Revents)) : r.pollin = false →
      r.pollout = false → Move s (.events ((fd, r) :: todo)) .next s (.events todo)
  | done (x : Ptr) (todo : List (Nat × Revents)) : Move s (.cmds x [] todo) .next s (.events todo)
  | cmd (x : Ptr) (line : Str) (lines : List Str) (todo : List (Nat × Revents)) (s' : Server) :
      s.execLine x line = .ok s' →
      Move s (.cmds x (line :: lines) todo) .next s' (.cmds x lines todo)

theorem liftFault_bind_ok {α β : Type} {e : Except Fault α} {f : α → Except Halt β} {b : β}
    (h : (liftFault e >>= f) = .ok b) : ∃ a, e = .ok a ∧ f a = .ok b := by
  cases e with
  | error _ => cases h
  | ok a => exact ⟨a, rfl, h⟩

theorem cliOfFd_ok (h : s.cliOfFd fd = .ok x) : ∃ c, s.clis[fd]? = some c ∧ c.addr = x := by
  unfold cliOfFd at h
  cases hc : s.clis[fd]? with
  | none => rw [hc] at h; cases h
  | some c => rw [hc] at h; cases h; exact ⟨c, rfl, rfl⟩

/-- The transitions at an entry of `polls`. -/
theorem move_event (h : step ⟨s, .events ((fd, r) :: todo)⟩ i = .ok cfg') :
    Move s (.events ((fd, r) :: todo)) i cfg'.srv cfg'.phase := by
  unfold step at h
  simp only at h
  split at h
  · rename_i hfd
    obtain ⟨hr, rfl⟩ := hfd
    split at h
    · cases h
      exact .acceptError r todo hr
    · rename_i conn
      split at h
      · rename_i hconn
        cases h
        exact .accept r todo conn hr hconn
      · cases h
    · cases h
  · split at h
    · rename_i hr
      obtain ⟨x, hx, h⟩ := liftFault_bind_ok h
      obtain ⟨c, hc, rfl⟩ := cliOfFd_ok hx
      split at h
      · cases h
        exact .recvError fd r todo hr
      · obtain ⟨d, hd, h⟩ := liftFault_bind_ok h
        cases h
        exact .recvClosed fd r todo c d hr hc hd
      · rename_i chunk _
        split at h
        · rename_i hchunk
          obtain ⟨⟨s', lines⟩, hs, h⟩ := liftFault_bind_ok h
          cases h
          exact .recv fd r todo c chunk s' lines hr hc hchunk.1 hs
        · cases h
      · cases h
    · rename_i hr
      have hr : r.pollin = false := by simpa using hr
      split at h
      · rename_i hr'
        obtain ⟨x, hx, h⟩ := liftFault_bind_ok h
        obtain ⟨c, hc, rfl⟩ := cliOfFd_ok hx
        obtain ⟨d, hd, h⟩ := liftFault_bind_ok h
        split at h
        · split at h
          · rename_i n _ _ hn
            obtain ⟨s', hs, h⟩ := liftFault_bind_ok h
            cases h
            exact .send fd r todo c n d s' hr hr' hc hd hn hs
          · cases h
        · cases h
      · rename_i hr'
        have hr' : r.pollout = false := by simpa using hr'
        split at h
        · cases h
          exact .idle fd r todo hr hr'
        · cases h

/-- **Inversion of `step`.** -/
theorem move_of_step (h : step cfg i = .ok cfg') :
    Move cfg.srv cfg.phase i cfg'.srv cfg'.phase := by
  obtain ⟨s, phase⟩ := cfg
  cases phase with
  | clis =>
    cases i with
    | next =>
      obtain ⟨s', hs, h⟩ := liftFault_bind_ok h
      cases h
      exact .clis s' hs
    | _ => cases h
  | chs =>
    cases i with
    | next =>
      obtain ⟨⟨s', freed⟩, hs, h⟩ := liftFault_bind_ok h
      cases h
      exact .chs s' freed hs
    | _ => cases h
  | mark =>
    cases i with
    | next => cases h; exact .mark
    | _ => cases h
  | poll =>
    cases i with
    | poll rs =>
      unfold step at h
      simp only at h
      split at h
      · rename_i hrs
        cases h
        exact .poll rs hrs.1 hrs.2
      · cases h
    | _ => cases h
  | events todo =>
    cases todo with
    | nil =>
      cases i with
      | next => cases h; exact .again
      | _ => cases h
    | cons e todo => exact move_event h
  | cmds x lines todo =>
    cases lines with
    | nil =>
      cases i with
      | next => cases h; exact .done x todo
      | _ => cases h
    | cons line lines =>
      cases i with
      | next =>
        obtain ⟨s', hs, h⟩ := liftFault_bind_ok h
        cases h
        exact .cmd x line lines todo s' hs
      | _ => cases h

/-! ## The operations of the events -/

theorem receiveBuf_ok (hI : Inv s) (hc : s.cliAt x = some c) (chunk : Str) :
    s.receiveBuf x chunk =
      .ok (s.updCli x fun _ => { c with bufRecv := (splitBufToCmds c.bufRecv (c.bufRecv ++ chunk)).2 },
        (splitBufToCmds c.bufRecv (c.bufRecv ++ chunk)).1) := by
  unfold receiveBuf
  rw [deref_of_cliAt hI hc]
  simp only [bind, Except.bind]
  rw [updCli_const hI hc]

/-- The record after `send` has returned `n`. -/
def Cli.sent (c : Cli) (n : Int) : Cli :=
  { c with
    bufToSend := if n = c.bufToSend.length then [] else c.bufToSend.drop (toSizeT n)
    hist := { c.hist with accepted := c.hist.accepted ++ c.bufToSend.take n.toNat } }

theorem updCli_updCli {f g : Cli → Cli} (hf : KeepsAddr f) :
    (s.updCli x f).updCli x g = s.updCli x fun c => g (f c) := by
  have hmap : ((s.updCli x f).updCli x g).clis = (s.updCli x fun c => g (f c)).clis := by
    refine ExtTreeMap.ext_getElem? fun fd => ?_
    simp only [getElem?_clis_updCli, Option.map_map]
    congr 1
    funext e
    by_cases he : e.addr = x <;> simp [he, (hf e).1]
  show { s with clis := ((s.updCli x f).updCli x g).clis } =
    { s with clis := (s.updCli x fun c => g (f c)).clis }
  rw [hmap]

/-- `polls` after `send` has returned `n`. -/
def pollsSent (s : Server) (c : Cli) (n : Int) : List Pollfd :=
  if n = c.bufToSend.length then
    s.polls.map fun p => if p.fd = c.fd then { p with events := .pollin } else p
  else s.polls

theorem sendPreparedResps_eq (hI : Inv s) (hc : s.cliAt x = some c) (n : Int) :
    s.sendPreparedResps x n =
      .ok { s.updCli x fun _ => c.sent n with polls := pollsSent s c n } := by
  have hkeep : KeepsAddr fun e : Cli => { e with hist :=
      { e.hist with accepted := e.hist.accepted ++ c.bufToSend.take n.toNat } } := fun _ => ⟨rfl, rfl⟩
  unfold sendPreparedResps Cli.sent pollsSent
  rw [deref_of_cliAt hI hc]
  simp only [bind, Except.bind]
  rw [updCli_updCli hkeep, updCli_updCli hkeep]
  by_cases hn : n = c.bufToSend.length
  · rw [if_pos hn, if_pos hn, if_pos hn, updCli_const hI hc]
    rfl
  · rw [if_neg hn, if_neg hn, if_neg hn, updCli_const hI hc]
    rfl

theorem sendPreparedResps_ok (hI : Inv s) (hc : s.cliAt x = some c) (n : Int) :
    ∃ polls, s.sendPreparedResps x n =
      .ok { s.updCli x fun _ => c.sent n with polls := polls } :=
  ⟨_, sendPreparedResps_eq hI hc n⟩

/-- A write that leaves identity, names and registration alone. -/
theorem inv_tidy_put {e : Cli} (hI : Inv s) (hT : Tidy s) (hc : s.cliAt x = some c) (haddr : e.addr = c.addr)
    (hfd : e.fd = c.fd) (hreg : e.registered = c.registered)
    (hnames : e.nick = c.nick ∧ e.uName = c.uName ∧ e.rName = c.rName ∧ e.host = c.host) :
    Inv (s.updCli x fun _ => e) ∧ Tidy (s.updCli x fun _ => e) ∧
      (s.updCli x fun _ => e).cliAt x = some e := by
  refine ⟨inv_updCli hI hc ⟨haddr, hfd, fun h => hreg.trans h, .inl hnames.1⟩, hT.updCli hc ?_, ?_⟩
  · rw [hnames.1, hnames.2.1, hnames.2.2.1, hnames.2.2.2]
    exact hT.cli c (cliAt_mem hc).1
  · rw [cliAt_put hc haddr, if_pos rfl]

/-! ## Accepting a connection -/

theorem acceptContract_iff {conn : Conn} : acceptContract s conn = true ↔
    conn.fd ∉ s.clis ∧ conn.fd ≠ s.fdForNewClis ∧ conn.addr ≠ NULL ∧ s.cliAt conn.addr = none := by
  simp [acceptContract]

theorem getElem?_clis_addNewClient (conn : Conn) (fd : Nat) : (s.addNewClient conn).clis[fd]? =
    if fd = conn.fd then some (Cli.new conn.addr conn.fd (inetNtoa conn.ip)) else s.clis[fd]? := by
  simp only [addNewClient, ExtTreeMap.getElem?_insert, Std.compare_eq_iff_eq]
  exact if_congr eq_comm rfl rfl

theorem mem_clients_addNewClient {conn : Conn} (h : acceptContract s conn = true) :
    d ∈ (s.addNewClient conn).clients ↔
      d = Cli.new conn.addr conn.fd (inetNtoa conn.ip) ∨ d ∈ s.clients := by
  have hfree : s.clis[conn.fd]? = none :=
    ExtTreeMap.getElem?_eq_none (acceptContract_iff.mp h).1
  simp only [mem_clients, getElem?_clis_addNewClient]
  constructor
  · rintro ⟨fd, hd⟩
    split at hd
    · exact .inl (Option.some.inj hd).symm
    · exact .inr ⟨fd, hd⟩
  · rintro (rfl | ⟨fd, hd⟩)
    · exact ⟨conn.fd, if_pos rfl⟩
    · refine ⟨fd, ?_⟩
      rw [if_neg, hd]
      rintro rfl
      rw [hfree] at hd
      cases hd

theorem addr_ne_of_accept {conn : Conn} (h : acceptContract s conn = true) (hd : d ∈ s.clients) :
    d.addr ≠ conn.addr := by
  intro he
  have := List.find?_eq_none.mp (acceptContract_iff.mp h).2.2.2 d hd
  simp [he] at this

theorem inv_addNewClient {conn : Conn} (hI : Inv s) (h : acceptContract s conn = true) :
    Inv (s.addNewClient conn) := by
  have hmem := fun d => mem_clients_addNewClient (d := d) h
  have haddr := fun d (hd : d ∈ s.clients) => addr_ne_of_accept h hd
  have hinj : ∀ d ∈ (s.addNewClient conn).clients, ∀ e ∈ (s.addNewClient conn).clients,
      d.addr = e.addr → d = e := by
    intro d hd e he heq
    rcases (hmem d).mp hd with rfl | hd <;> rcases (hmem e).mp he with rfl | he
    · rfl
    · exact absurd heq.symm (haddr e he)
    · exact absurd heq (haddr d hd)
    · exact hI.addr_inj d hd e he heq
  refine ⟨fun d hd => ?addr_ne, hinj, fun fd d hd => ?fd_eq, fun d hd e he hne heq => ?nick_inj,
    fun d hd => ?nick_chars, hI.ch_inj, hI.ch_name, fun k ch hch q hq => ?member, hI.adm⟩
  case addr_ne =>
    rcases (hmem d).mp hd with rfl | hd
    · exact (acceptContract_iff.mp h).2.2.1
    · exact hI.addr_ne d hd
  case fd_eq =>
    rw [getElem?_clis_addNewClient] at hd
    split at hd
    · rename_i hfd
      rw [← Option.some.inj hd, hfd]
      rfl
    · exact hI.fd_eq fd d hd
  case nick_inj =>
    have hne' : e.nick ≠ [] := fun he0 => hne (by rw [he0, toLower_nil, toLower_eq_nil] at heq; exact heq)
    rcases (hmem d).mp hd with rfl | hd
    · exact absurd rfl hne
    rcases (hmem e).mp he with rfl | he
    · exact absurd rfl hne'
    exact hI.nick_inj d hd e he hne heq
  case nick_chars =>
    rcases (hmem d).mp hd with rfl | hd
    · simp [Cli.new]
    · exact hI.nick_chars d hd
  case member =>
    obtain ⟨d, hd, hreg⟩ := hI.member k ch hch q hq
    obtain ⟨hdm, hdq⟩ := cliAt_mem hd
    exact ⟨d, (cliAt_iff_of_inj hinj).mpr ⟨(hmem d).mpr (.inr hdm), hdq⟩, hreg⟩

/-- An address in dotted notation contains no CR. -/
theorem crlfFree_inetNtoa (ip : UInt8 × UInt8 × UInt8 × UInt8) : CrlfFree (inetNtoa ip) := by
  have hdigit : ∀ k : Nat, CR ≠ UInt8.ofNat (48 + k % 10) := by
    intro k h
    have hk : k % 10 < 10 := Nat.mod_lt _ (by decide)
    have hnat := congrArg UInt8.toNat h
    simp only [CR, UInt8.reduceToNat, UInt8.toNat_ofNat'] at hnat
    omega
  have hoctet : ∀ b : UInt8, CR ∉ octet b := by
    intro b
    unfold octet
    simp only
    split
    · simp only [List.mem_singleton]
      exact hdigit b.toNat
    · split
      · simp only [List.mem_cons, List.not_mem_nil, or_false, not_or]
        exact ⟨hdigit (b.toNat / 10), hdigit b.toNat⟩
      · simp only [List.mem_cons, List.not_mem_nil, or_false, not_or]
        exact ⟨hdigit (b.toNat / 100), hdigit (b.toNat / 10), hdigit b.toNat⟩
  have hdot : CR ∉ str "." := by decide
  refine crlfFree_of_not_mem ?_
  simp [inetNtoa, hoctet, hdot]

theorem tidy_addNewClient {conn : Conn} (hT : Tidy s) (h : acceptContract s conn = true) :
    Tidy (s.addNewClient conn) := by
  refine ⟨fun d hd => ?_, hT.key, hT.topic⟩
  rcases (mem_clients_addNewClient h).mp hd with rfl | hd
  · exact ⟨crlfFree_nil, crlfFree_nil, crlfFree_nil, crlfFree_inetNtoa conn.ip⟩
  · exact hT.cli d hd

/-! ## Executing a line -/

theorem tidyArgs_splitCmdToArgs {line : Str} (h : CrlfFree line) : TidyArgs (splitCmdToArgs line) :=
  fun _ ha => h.sub (splitCmdToArgs_arg ha).2

theorem note_keepsAddr (ar : List Str) : KeepsAddr fun c : Cli =>
    { c with hist := { c.hist with cmds := c.hist.cmds ++ [ar] } } := fun _ => ⟨rfl, rfl⟩

theorem cliAt_note : (s.note x ar).cliAt y = if y = x then (s.cliAt y).map fun c =>
    { c with hist := { c.hist with cmds := c.hist.cmds ++ [ar] } } else s.cliAt y :=
  cliAt_updCli (note_keepsAddr ar)

@[simp] theorem chs_note : (s.note x ar).chs = s.chs := rfl

/-- A line that a client sends is executed exactly if its command is `CmdSafe`. -/
theorem execLine_spec (hI : Inv s) (hc : s.cliAt x = some c) (line : Str) :
    Decides Fault.isNull (CmdSafe s x (splitCmdToArgs line))
      (fun s' => ∃ t, Mid s x (splitCmdToArgs line) c t ∧ s' = t.note x (splitCmdToArgs line))
      (s.execLine x line) := by
  have hmid : Mid s x (splitCmdToArgs line) c s := .refl hI hc
  have h := execCmd_line hmid
  exact (h.bind fun t _ ht => (done_ok ⟨t, ht, rfl⟩).decides trivial).congr (and_iff_left trivial).symm

/-! ## The invariant of the runs -/

/-- The invariant of the commands holds, and the server stands where the program expects. -/
structure Good (cfg : Config) : Prop where
  inv : Inv cfg.srv
  tidy : Tidy cfg.srv
  author : ∀ x lines todo, cfg.phase = .cmds x lines todo →
    (∃ c, cfg.srv.cliAt x = some c) ∧ ∀ l ∈ lines, CrlfFree l
  peopled : cfg.phase = .mark ∨ cfg.phase = .poll →
    ∀ (k : Str) (ch : Ch), cfg.srv.chs[k]? = some ch → ch.size ≠ 0

theorem Tidy.of_other (hT : Tidy s) (hclis : s'.clis = s.clis) (hchs : s'.chs = s.chs) : Tidy s' := by
  have hclients : s'.clients = s.clients := by unfold clients; rw [hclis]
  refine ⟨?_, ?_, ?_⟩
  · rw [hclients]; exact hT.cli
  · rw [hchs]; exact hT.key
  · rw [hchs]; exact hT.topic

theorem tidy_reap (hT : Tidy s) (hI : Inv s) (hc : s.clis[c.fd]? = some c) : Tidy (s.reap c) := by
  refine ⟨fun d hd => hT.cli d ((mem_clients_reap hI hc).mp hd).1,
    fun k hk => hT.key k (mem_chs_dropAll.mp hk), fun k ch hch => ?_⟩
  rw [getElem?_chs_reap] at hch
  obtain ⟨ch₀, hch₀, rfl⟩ := Option.map_eq_some_iff.mp hch
  rw [topic_drop]
  exact hT.topic k ch₀ hch₀

/-- The cleanup of the clients succeeds, and keeps the invariant. -/
theorem eraseUnusedClis_good (hI : Inv s) (hT : Tidy s) :
    Done (fun s' => Inv s' ∧ Tidy s') s.eraseUnusedClis :=
  eraseUnusedClis_done (fun _ _ hI hT hc _ => tidy_reap hT hI hc)
    (fun _ _ hclis hchs _ _ hT => hT.of_other hclis hchs) hI hT

theorem getElem?_filter_size {k : Str} {ch : Ch} :
    (s.chs.filter fun _ ch => ch.size ≠ 0)[k]? = some ch ↔ s.chs[k]? = some ch ∧ ch.size ≠ 0 := by
  rw [ExtTreeMap.getElem?_filter']
  cases s.chs[k]? with
  | none => simp
  | some d =>
    simp only [Option.filter_some, decide_not, Bool.not_eq_true', decide_eq_false_iff_not,
      Option.ite_none_right_eq_some, Option.some.injEq]
    constructor
    · rintro ⟨hd, rfl⟩
      exact ⟨rfl, hd⟩
    · rintro ⟨rfl, hd⟩
      exact ⟨hd, rfl⟩

/-- **Every transition keeps the invariant.** -/
theorem Move.good {phase phase' : Phase} (h : Move s phase i s' phase') (hg : Good ⟨s, phase⟩) :
    Good ⟨s', phase'⟩ := by
  obtain ⟨hI, hT, hauthor, hpeopled⟩ := hg
  -- the phases of which nothing more is asked
  have hcalm : ∀ {s' : Server} {phase' : Phase}, Inv s' ∧ Tidy s' →
      (∀ x lines todo, phase' ≠ .cmds x lines todo) → phase' ≠ .mark → phase' ≠ .poll →
      Good ⟨s', phase'⟩ := fun hIT hcmds hmark hpoll =>
    ⟨hIT.1, hIT.2, fun x lines todo heq => absurd heq (hcmds x lines todo),
      fun hp => (hp.elim hmark hpoll).elim⟩
  cases h with
  | clis s' hs =>
    obtain ⟨s'', hs', hIT⟩ := eraseUnusedClis_good hI hT
    rw [hs] at hs'
    cases hs'
    exact hcalm hIT nofun nofun nofun
  | chs s' freed hs =>
    rw [eraseUnusedChs_ok hI] at hs
    cases hs
    have hsub : ∀ (k : Str) (ch : Ch), (s.chs.filter fun _ ch => ch.size ≠ 0)[k]? = some ch →
        s.chs[k]? = some ch ∧ ch.size ≠ 0 := fun k ch h => getElem?_filter_size.mp h
    refine ⟨inv_of_sub hI fun k ch hch => (hsub k ch hch).1, ⟨hT.cli, fun k hk => ?_, fun k ch hch =>
      hT.topic k ch (hsub k ch hch).1⟩, nofun, fun _ k ch hch => (hsub k ch hch).2⟩
    obtain ⟨ch, hch⟩ := mem_chs.mp hk
    exact hT.key k (mem_chs.mpr ⟨ch, (hsub k ch hch).1⟩)
  | mark =>
    exact ⟨inv_of_other hI rfl rfl, hT.of_other rfl rfl, nofun, fun _ => hpeopled (.inl rfl)⟩
  | poll rs _ _ => exact hcalm ⟨hI, hT⟩ nofun nofun nofun
  | again => exact hcalm ⟨hI, hT⟩ nofun nofun nofun
  | acceptError r todo _ => exact hcalm ⟨hI, hT⟩ nofun nofun nofun
  | accept r todo conn _ hconn =>
    exact hcalm ⟨inv_addNewClient hI hconn, tidy_addNewClient hT hconn⟩ nofun nofun nofun
  | recvError fd r todo _ => exact hcalm ⟨hI, hT⟩ nofun nofun nofun
  | recvClosed fd r todo c d _ _ _ =>
    exact hcalm ⟨inv_markToErase hI d.fd, hT.of_other rfl rfl⟩ nofun nofun nofun
  | recv fd r todo c chunk s' lines _ hc _ hs =>
    have hat := cliAt_of_clis hI hc
    rw [receiveBuf_ok hI hat] at hs
    cases hs
    obtain ⟨hI', hT', hat'⟩ := inv_tidy_put (e := { c with
        bufRecv := (splitBufToCmds c.bufRecv (c.bufRecv ++ chunk)).2 }) hI hT hat rfl rfl rfl
      ⟨rfl, rfl, rfl, rfl⟩
    refine ⟨hI', hT', fun x lines todo heq => ?_, nofun⟩
    cases heq
    refine ⟨⟨_, hat'⟩, fun l hl => ?_⟩
    unfold splitBufToCmds at hl
    split at hl
    · exact absurd hl List.not_mem_nil
    · exact Delimited.split_part_free (by simp [CRLF]) hl
  | send fd r todo c n d s' _ _ hc _ _ hs =>
    have hat := cliAt_of_clis hI hc
    obtain ⟨polls, hs'⟩ := sendPreparedResps_ok hI hat n
    rw [hs'] at hs
    cases hs
    obtain ⟨hI', hT', -⟩ := inv_tidy_put (e := c.sent n) hI hT hat rfl rfl rfl ⟨rfl, rfl, rfl, rfl⟩
    exact hcalm ⟨inv_of_other hI' rfl rfl, hT'.of_other rfl rfl⟩ nofun nofun nofun
  | idle fd r todo _ _ => exact hcalm ⟨hI, hT⟩ nofun nofun nofun
  | done x todo => exact hcalm ⟨hI, hT⟩ nofun nofun nofun
  | cmd x line lines todo s' hs =>
    obtain ⟨⟨c, hc⟩, hlines⟩ := hauthor x (line :: lines) todo rfl
    obtain ⟨-, t, hmid, rfl⟩ := (execLine_spec hI hc line).of_ok hs
    have hTt := hmid.tidy hT (tidyArgs_splitCmdToArgs (hlines line (by simp)))
    obtain ⟨d, hd, -⟩ := hmid.author
    have hnote : t.note x (splitCmdToArgs line) = t.updCli x fun _ => _ := updCli_const hmid.inv hd _
    rw [hnote]
    obtain ⟨hI', hT', hat'⟩ := inv_tidy_put (e := { d with
        hist := { d.hist with cmds := d.hist.cmds ++ [splitCmdToArgs line] } }) hmid.inv hTt hd
      rfl rfl rfl ⟨rfl, rfl, rfl, rfl⟩
    refine ⟨hI', hT', fun y lines' todo' heq => ?_, fun hphase => ?_⟩
    · cases heq
      exact ⟨⟨_, hat'⟩, fun l hl => hlines l (by simp [hl])⟩
    · rcases hphase with hphase | hphase <;> cases hphase

theorem good_start (pass : Str) (lfd : Nat) : Good (start pass lfd) := by
  have hclis : ∀ (fd : Nat) (c : Cli), (start pass lfd).srv.clis[fd]? ≠ some c := by simp [start]
  have hclients : ∀ c, c ∉ (start pass lfd).srv.clients := fun c hc => by
    obtain ⟨fd, hfd⟩ := mem_clients.mp hc
    exact hclis fd c hfd
  have hchs : ∀ (k : Str) (ch : Ch), (start pass lfd).srv.chs[k]? ≠ some ch := by simp [start]
  have hkeys : ∀ k, k ∉ (start pass lfd).srv.chs := fun k hk => by
    obtain ⟨ch, hch⟩ := mem_chs.mp hk
    exact hchs k ch hch
  exact ⟨⟨fun c hc => absurd hc (hclients c), fun c hc => absurd hc (hclients c),
      fun fd c hc => absurd hc (hclis fd c), fun c hc => absurd hc (hclients c),
      fun c hc => absurd hc (hclients c), fun k hk => absurd hk (hkeys k),
      fun k hk => absurd hk (hkeys k), fun k ch hch => absurd hch (hchs k ch),
      fun k ch hch => absurd hch (hchs k ch)⟩,
    ⟨fun c hc => absurd hc (hclients c), fun k hk => absurd hk (hkeys k),
      fun k ch hch => absurd hch (hchs k ch)⟩, nofun, fun _ k ch hch => absurd hch (hchs k ch)⟩

theorem good_step (cfg : Config) (i : Input) (cfg' : Config) (hg : Good cfg)
    (h : step cfg i = .ok cfg') : Good cfg' := (move_of_step h).good hg

/-- **Every reachable configuration satisfies the invariant.** -/
theorem Reachable.good (h : Reachable pass lfd cfg) : Good cfg := by
  obtain ⟨is, his⟩ := h
  exact Runs.run_invariant good_step is _ cfg (good_start pass lfd) his

/-! ## Concrete runs -/

/-- `run` stands at the call of `poll`. -/
def Config.polling (cfg : Config) : Bool :=
  match cfg.phase with
  | .poll => true
  | _ => false

theorem Config.polling_iff : cfg.polling = true ↔ cfg.phase = .poll := by
  unfold polling
  cases cfg.phase <;> simp

/-- The client whose commands are in progress, and the command that it sent next. -/
def Config.upcoming (cfg : Config) : Option (Ptr × Str) :=
  match cfg.phase with
  | .cmds x (line :: _) _ => some (x, line)
  | _ => none

theorem Config.upcoming_eq_some {line : Str} :
    cfg.upcoming = some (x, line) ↔ ∃ lines todo, cfg.phase = .cmds x (line :: lines) todo := by
  unfold upcoming
  split
  · rename_i y l lines todo hphase
    simp [hphase]
  · rename_i hno
    refine iff_of_false nofun ?_
    rintro ⟨lines, todo, hphase⟩
    exact hno x line lines todo hphase

/-- A run that ends in a configuration with a decidable property. -/
theorem exists_run (pass : Str) (lfd : Nat) (is : List Input) (P : Config → Bool)
    (h : (match runServer pass lfd is with
      | .ok cfg => P cfg
      | .error _ => false) = true) : ∃ cfg, runServer pass lfd is = .ok cfg ∧ P cfg = true := by
  cases hrun : runServer pass lfd is with
  | error e => rw [hrun] at h; cases h
  | ok cfg => rw [hrun] at h; exact ⟨cfg, rfl, h⟩

theorem eq_ok_of_toOption {ε α : Type} {e : Except ε α} {a : α} (h : e.toOption = some a) : e = .ok a := by
  cases e with
  | error _ => cases h
  | ok b =>
    cases h
    rfl

/-- The cleanup, and a `poll` that reports the descriptors `rs`. -/
def wait (rs : List Revents) : List Input := [.next, .next, .next, .poll rs]

def silent : Revents := ⟨false, false⟩
def readable : Revents := ⟨true, false⟩
def writable : Revents := ⟨false, true⟩

/-- A connection is accepted while `n` clients are connected. -/
def connect (n : Nat) (conn : Conn) : List Input :=
  wait (readable :: List.replicate n silent) ++ [.accept (some conn)]

/-- The client behind `before` others and in front of `after` others sends `lines` commands. -/
def say (before after lines : Nat) (chunk : Str) : List Input :=
  wait (List.replicate (before + 1) silent ++ readable :: List.replicate after silent) ++
    List.replicate (before + 1) .next ++ [.recv (.data chunk)] ++
      List.replicate (lines + 1 + after + 1) .next

/-- `send` returns `n` for the client behind `before` others and in front of `after` others. -/
def drain (before after : Nat) (n : Int) : List Input :=
  wait (List.replicate (before + 1) silent ++ writable :: List.replicate after silent) ++
    List.replicate (before + 1) .next ++ [.send n] ++ List.replicate (after + 1) .next

/-- Two connections from the local host; the second is allocated in front of the first. -/
def alice : Conn := ⟨4, 100, (127, 0, 0, 1)⟩
def bob : Conn := ⟨5, 50, (127, 0, 0, 1)⟩

/-- The lines of a registration. -/
def register (nick : String) : Str :=
  str "PASS 2\r\nNICK " ++ str nick ++ str "\r\nUSER u 0 * U\r\n"

end FtIrc
