import FtIrc.Meaning.Relay

/-!
# What a client that has not given the password is told

Nothing that goes to the members of a channel reaches it.  What goes to a client chosen by its nick does,
and so does a `QUIT`: neither looks at `passOk` (`untouched_stranger_iff`).
-/

namespace FtIrc

open Std Outcome Server

variable {s : Server} {x y : Ptr} {ar : List Str} {c d : Cli} {k m : Str} {pass : Str} {lfd : Nat}
  {cfg : Config}

/-- `a1` has an item that is the nick of the client at `y`, and not the name of a channel. -/
def Names (s : Server) (a1 : Str) (y : Ptr) : Prop :=
  ∃ target ∈ splitArgToSubargs a1, target.head? ≠ some HASH ∧ s.getCli target = y

/-- The command of `x` chooses the client at `y` by its nick, or is a `QUIT`. -/
inductive Chooses (s : Server) (x : Ptr) (c : Cli) (ar : List Str) (y : Ptr) : Prop
  | quit : CmdIs ar "QUIT" → Chooses s x c ar y
  | privmsg : CmdIs ar "PRIVMSG" → c.registered = true → 3 ≤ ar.length →
      tooManyTargets (splitArgToSubargs (argD ar 1)) = false → Names s (argD ar 1) y →
      Chooses s x c ar y
  | notice : CmdIs ar "NOTICE" → c.registered = true → 3 ≤ ar.length → Names s (argD ar 1) y →
      Chooses s x c ar y
  | invite : CmdIs ar "INVITE" → c.registered = true → Invites s x (argD ar 1) (argD ar 2) →
      s.getCli (argD ar 1) = y → Chooses s x c ar y

/-- A client that has not given the password is on no channel. -/
theorem not_on_of_passOk (hI : Inv s) (hd : s.cliAt y = some d) (hp : d.passOk = false) (k : Str) :
    ¬ On s y k := by
  rintro ⟨ch, hch, hm⟩
  obtain ⟨e, he, hreg⟩ := hI.member k ch hch y hm
  rw [hd] at he
  cases he
  rw [(Cli.registered_iff.mp hreg).1] at hp
  cases hp

/-- What such a client is told goes to it by its nick, or comes from a `QUIT`. -/
theorem relay_stranger_iff (hI : Inv s) (hd : s.cliAt y = some d) (hp : d.passOk = false) :
    (∃ m, Relay s x c ar y m) ↔ Chooses s x c ar y := by
  have hoff := not_on_of_passOk hI hd hp
  have hne := ne_null_of_cliAt hI hd
  constructor
  · rintro ⟨m, h⟩
    cases h with
    | quit e hcmd _ => exact .quit hcmd
    | privmsg target hcmd hreg h3 hfew ht hr =>
      unfold Reaches at hr
      split at hr
      · exact absurd hr.2.2.1 (hoff target)
      · rename_i hH
        exact .privmsg hcmd hreg h3 hfew ⟨target, ht, hH, hr.1⟩
    | notice target hcmd hreg h3 ht hr =>
      unfold NoticeReaches at hr
      split at hr
      · obtain ⟨k, -, hon, -⟩ := hr
        exact absurd hon (hoff k)
      · rename_i hH
        exact .notice hcmd hreg h3 ⟨target, ht, hH, hr.1⟩
    | join name m hcmd _ htold =>
      obtain ⟨ch, hch, hm, -⟩ := htold
      exact absurd ⟨ch, hch, hm⟩ (hoff name)
    | part _ _ _ hon => exact absurd hon (hoff _)
    | kick ch _ _ _ hch _ hm _ _ => exact absurd ⟨ch, hch, hm⟩ (hoff (argD ar 1))
    | invite hcmd hreg hinv hwho =>
      rcases hwho with h | hon
      · exact .invite hcmd hreg hinv h.symm
      · exact absurd hon (hoff _)
    | topic ch t _ _ hch _ _ hm => exact absurd ⟨ch, hch, hm⟩ (hoff (argD ar 1))
    | mode ch opt _ _ hch _ hm _ => exact absurd ⟨ch, hch, hm⟩ (hoff (argD ar 1))
  · intro h
    cases h with
    | quit hcmd => exact ⟨_, .quit d hcmd hd⟩
    | privmsg hcmd hreg h3 hfew hnames =>
      obtain ⟨target, ht, hH, hto⟩ := hnames
      refine ⟨_, .privmsg target hcmd hreg h3 hfew ht ?_⟩
      unfold Reaches
      rw [if_neg hH]
      exact ⟨hto, hne⟩
    | notice hcmd hreg h3 hnames =>
      obtain ⟨target, ht, hH, hto⟩ := hnames
      refine ⟨_, .notice target hcmd hreg h3 ht ?_⟩
      unfold NoticeReaches
      rw [if_neg hH]
      exact ⟨hto, hne⟩
    | invite hcmd hreg hinv hto => exact ⟨_, .invite hcmd hreg hinv (.inl hto.symm)⟩

/-- **A client that has not given the password is told something by another exactly if it is chosen by
its nick, or the other quits.** -/
theorem untouched_stranger_iff (hr : Reachable pass lfd cfg) (hc : cfg.srv.cliAt x = some c)
    (hd : cfg.srv.cliAt y = some d) (hy : y ≠ x) (hp : d.passOk = false) (line : Str) (s' : Server)
    (h : cfg.srv.execLine x line = .ok s') :
    (s'.cliAt y).map (·.bufToSend) = some d.bufToSend ↔
      ¬ Chooses cfg.srv x c (splitCmdToArgs line) y := by
  rw [untouched_iff hr.good.inv hc h hd hy, ← not_exists, relay_stranger_iff hr.good.inv hd hp]

/-- A registered client, and one that has only claimed a nick. -/
def claimedNick : List Input :=
  connect 0 alice ++ say 0 0 3 (register "al") ++ connect 1 bob ++ say 1 0 1 (str "NICK bob\r\n")

theorem claimedNick_spec : ∃ cfg c d, Reachable (str "2") 3 cfg ∧ cfg.srv.cliAt alice.addr = some c ∧
    c.registered = true ∧ cfg.srv.cliAt bob.addr = some d ∧ d.passOk = false ∧
    cfg.srv.getCli (str "bob") = bob.addr := by
  obtain ⟨cfg, hrun, hP⟩ := exists_run (str "2") 3 claimedNick
    (fun cfg => ((cfg.srv.cliAt alice.addr).any fun c => c.registered) &&
      ((cfg.srv.cliAt bob.addr).any fun d => d.passOk = false) &&
      decide (cfg.srv.getCli (str "bob") = bob.addr)) (by decide +kernel)
  simp only [Bool.and_eq_true, Option.any_eq_true, decide_eq_true_eq] at hP
  obtain ⟨⟨⟨c, hc, hreg⟩, d, hd, hp⟩, hto⟩ := hP
  exact ⟨cfg, c, d, ⟨_, hrun⟩, hc, hreg, hd, hp, hto⟩

/-- A `PING` of the registered client does not reach the other. -/
theorem untouched_stranger_iff_ping : ∃ cfg d s', Reachable (str "2") 3 cfg ∧
    cfg.srv.cliAt bob.addr = some d ∧ cfg.srv.execLine alice.addr (str "PING") = .ok s' ∧
    (s'.cliAt bob.addr).map (·.bufToSend) = some d.bufToSend := by
  obtain ⟨cfg, c, d, hr, hc, -, hd, hp, -⟩ := claimedNick_spec
  have hcmd : CmdIs (splitCmdToArgs (str "PING")) "PING" := by
    unfold CmdIs
    decide
  obtain ⟨s', hs'⟩ : ∃ s', cfg.srv.execLine alice.addr (str "PING") = .ok s' :=
    (execLine_ok_iff hr.good.inv hc).mpr (cmdSafe_of_other hcmd (by decide))
  refine ⟨cfg, d, s', hr, hd, hs', ?_⟩
  refine (untouched_stranger_iff hr hc hd (by decide) hp (str "PING") s' hs').mpr fun h => ?_
  cases h with
  | quit h => exact absurd (h.unique hcmd) (by decide)
  | privmsg h => exact absurd (h.unique hcmd) (by decide)
  | notice h => exact absurd (h.unique hcmd) (by decide)
  | invite h => exact absurd (h.unique hcmd) (by decide)

/-- A private message to a nick that was claimed without the password is delivered. -/
theorem stranger_overhears : ¬ ∀ (pass : Str) (lfd : Nat) (cfg : Config), Reachable pass lfd cfg →
    ∀ (x y : Ptr) (d : Cli), (∃ c, cfg.srv.cliAt x = some c) → cfg.srv.cliAt y = some d → y ≠ x →
      d.passOk = false → ∀ (line : Str) (s' : Server), cfg.srv.execLine x line = .ok s' →
        (s'.cliAt y).map (·.bufToSend) = some d.bufToSend := by
  intro hall
  obtain ⟨cfg, c, d, hr, hc, hreg, hd, hp, hto⟩ := claimedNick_spec
  have hI := hr.good.inv
  have hcmd : CmdIs (splitCmdToArgs (str "NOTICE bob :psst")) "NOTICE" := by
    unfold CmdIs
    decide
  obtain ⟨s', hs'⟩ : ∃ s', cfg.srv.execLine alice.addr (str "NOTICE bob :psst") = .ok s' :=
    (execLine_ok_iff hI hc).mpr (cmdSafe_of_other hcmd (by decide))
  have hsame := hall _ _ cfg hr alice.addr bob.addr d ⟨c, hc⟩ hd (by decide) hp
    (str "NOTICE bob :psst") s' hs'
  rw [untouched_iff hI hc hs' hd (by decide), ← not_exists, relay_stranger_iff hI hd hp] at hsame
  exact hsame (.notice hcmd hreg (by decide) ⟨str "bob", by decide, by decide, hto⟩)

end FtIrc
