import FtIrc.JoinKeys
import FtIrc.ModeOptions

/-!
# A key that is set

`MODE` takes the key as it stands, `JOIN` splits it at commas.  `key_usable_iff`: every key can be set, and
those without a comma let in who sends them.
-/

namespace FtIrc

open Std Outcome Server LastSet

variable {s : Server} {x z : Ptr} {d : Cli} {k key l₁ l₂ : Str} {ch : Ch} {cfg : Config} {pass : Str} {lfd : Nat}

/-- **A key is set** where there is none, and nothing else of the channel changes. -/
theorem execLine_setKey {c : Cli} (hI : Inv s) (hc : s.cliAt x = some c) (hch : s.chs[k]? = some ch) (hop : x ∈ ch.adms)
    (hfree : ch.pass = []) (h₁ : splitCmdToArgs l₁ = [str "MODE", k, str "+k", key]) : ∃ s₁ ch₁,
      s.execLine x l₁ = .ok s₁ ∧ Moded s s₁ k ch₁ ∧ ch₁.pass = key ∧ ch₁.clis = ch.clis ∧ ch₁.limit = ch.limit ∧
        ch₁.optI = ch.optI := by
  have hcmd : CmdIs (splitCmdToArgs l₁) "MODE" := by
    rw [h₁]
    rfl
  obtain ⟨s₁, hs₁, hmoded⟩ := execLine_mode hI hc hch hop hcmd (by rw [h₁]; rfl)
  have hkey : key ≠ [] := (splitCmdToArgs_arg (s := l₁) (by rw [h₁]; simp)).1
  have hconf := configured_line s.getCli c ch (splitCmdToArgs l₁)
  have hexec : executed ((optionsRead ((splitCmdToArgs l₁).drop 2)).map (withArg (argD (splitCmdToArgs l₁) 3))) =
      [(str "+k", key)] := by
    rw [h₁]
    show optPairs (str "+k") key ++ [] = _
    rw [List.append_nil, optPairs, if_neg fun h => absurd h.1 (by decide)]
  rw [hexec] at hconf
  refine ⟨s₁, _, hs₁, hmoded, hconf.pass.trans ?_, hconf.clis, hconf.limit.trans ?_, hconf.optI.trans ?_⟩
  · simp [keyAfter, hfree, hkey]
  · rw [lastSet_cons, lastSet_nil]
    simp +decide [limitSet]
  · rw [lastSet_cons, lastSet_nil]
    simp +decide [flagSet]

/-- **A client comes to an open channel with a key**: it is let in exactly if the first item of what it supplies is
the key. -/
theorem execLine_joinKey (hI : Inv s) (hz : s.cliAt z = some d) (hreg : d.registered = true) (hch : s.chs[k]? = some ch)
    (hoff : z ∉ ch.clis) (hfew : s.nbChannels z < MAX_CHS_PER_USER) (hi : ch.optI = false) (hlim : ch.size < ch.limit)
    (hkey : ch.pass ≠ []) (h₂ : splitCmdToArgs l₂ = [str "JOIN", k, key]) :
    (∃ s₂, s.execLine z l₂ = .ok s₂ ∧ On s₂ z k) ↔ (splitArgToSubargs key).headD [] = ch.pass := by
  have hk : k ∈ s.chs := mem_chs.mpr ⟨ch, hch⟩
  have hname := hI.ch_name k hk
  have hone : splitArgToSubargs k = [k] := split_chName hname
  have hcmd : CmdIs (splitCmdToArgs l₂) "JOIN" := by rw [h₂]; rfl
  have hkeys : joinKeys (splitCmdToArgs l₂) = splitArgToSubargs key := by rw [h₂]; rfl
  have hbad : badName k = false := by
    unfold badName
    rw [decide_eq_false_iff_not]
    push Not
    exact ⟨hname.long, hname.short, hname.hash, hname.chars⟩
  have hadm : Admitted s d k ((splitArgToSubargs key).headD []) ↔ (splitArgToSubargs key).headD [] = ch.pass := by
    simp [Admitted, hch, Admits, hkey, hlim, hi]
  rw [execLine_joinOne hI hz hreg hfew hcmd (by rw [h₂]; simp) (by rw [h₂]; exact hone) (by rw [h₂]; simp)
    fun h => hoff ((on_iff hch).mp h), hkeys, hadm]
  exact ⟨fun h => h.2.2, fun h => ⟨hbad, fun j hj hlow => hI.ch_inj j hj k hk hlow, h⟩⟩

/-- The first item of what is supplied is all of it, exactly if there is no comma. -/
theorem headD_splitArgToSubargs (hne : key ≠ []) : (splitArgToSubargs key).headD [] = key ↔ COMMA ∉ key := by
  constructor
  · intro h
    cases hs : splitArgToSubargs key with
    | nil =>
      rw [hs] at h
      exact absurd h.symm hne
    | cons item items =>
      rw [hs] at h
      rw [← show item = key from h]
      exact splitArgToSubargs_comma (s := key) (hs ▸ List.mem_cons_self ..)
  · intro h
    rw [splitArgToSubargs_item hne h]
    rfl

/-- **A key that can be set can be used** exactly if it contains no comma: an operator sets it on a channel that has
none, and a client that could join the open channel sends it. -/
theorem key_usable_iff (hr : Reachable pass lfd cfg) (hch : cfg.srv.chs[k]? = some ch) (hfree : ch.pass = [])
    (hop : x ∈ ch.adms) (h₁ : splitCmdToArgs l₁ = [str "MODE", k, str "+k", key])
    (hz : cfg.srv.cliAt z = some d) (hreg : d.registered = true) (hoff : z ∉ ch.clis)
    (hfew : cfg.srv.nbChannels z < MAX_CHS_PER_USER) (hi : ch.optI = false) (hlim : ch.size < ch.limit)
    (h₂ : splitCmdToArgs l₂ = [str "JOIN", k, key]) :
    ∃ s₁ ch₁, cfg.srv.execLine x l₁ = .ok s₁ ∧ s₁.chs[k]? = some ch₁ ∧ ch₁.pass = key ∧
      ((∃ s₂, s₁.execLine z l₂ = .ok s₂ ∧ On s₂ z k) ↔ COMMA ∉ key) := by
  have hI := hr.good.inv
  obtain ⟨c, hc, -⟩ := hI.member k ch hch x (hI.adm k ch hch x hop)
  obtain ⟨s₁, ch₁, hs₁, hmoded, hpass, hclis, hlimit, hoptI⟩ := execLine_setKey hI hc hch hop hfree h₁
  have hkey : key ≠ [] := (splitCmdToArgs_arg (s := l₁) (by rw [h₁]; simp)).1
  have hch₁ : s₁.chs[k]? = some ch₁ := by rw [hmoded.chs, if_pos rfl]
  obtain ⟨d₁, hd₁, hreg₁, -⟩ := hmoded.clis z d hz
  have hon : ∀ j, On s₁ z j → On cfg.srv z j := by
    rintro j ⟨e, he, hin⟩
    rw [hmoded.chs] at he
    split at he
    · rename_i hj
      cases he
      rw [hclis] at hin
      exact absurd hin hoff
    · exact ⟨e, he, hin⟩
  have hfew₁ := (nbChannels_le_of_on hon).trans_lt hfew
  refine ⟨s₁, ch₁, hs₁, hch₁, hpass, ?_⟩
  have hsize : ch₁.size < ch₁.limit := by
    unfold Ch.size
    rw [hclis, hlimit]
    exact hlim
  rw [execLine_joinKey hmoded.inv hd₁ (hreg₁.trans hreg) hch₁ (hclis ▸ hoff) hfew₁ (hoptI.trans hi) hsize
    (hpass ▸ hkey) h₂, hpass]
  exact headD_splitArgToSubargs hkey

/-- A key with a colon and no comma. -/
theorem key_usable_iff_plain : ∃ cfg s₁ s₂, Reachable (str "2") 3 cfg ∧
    cfg.srv.execLine alice.addr (str "MODE #c +k :a:b") = .ok s₁ ∧
    s₁.execLine bob.addr (str "JOIN #c :a:b") = .ok s₂ ∧ On s₂ bob.addr (str "#c") := by
  obtain ⟨cfg, hrun, hP⟩ := exists_run (str "2") 3 (connect 0 alice ++ connect 1 bob ++
    say 1 0 3 (register "bo") ++ say 0 1 4 (register "al" ++ str "JOIN #c\r\n"))
    (fun cfg => (cfg.srv.chs[str "#c"]?).any fun ch : Ch => (cfg.srv.cliAt bob.addr).any fun d : Cli =>
      decide (ch.pass = []) && decide (alice.addr ∈ ch.adms) && d.registered && decide (bob.addr ∉ ch.clis) &&
        decide (cfg.srv.nbChannels bob.addr < MAX_CHS_PER_USER) && decide (ch.optI = false) &&
          decide (ch.size < ch.limit)) (by decide +kernel)
  simp only [Option.any_eq_true, Bool.and_eq_true, decide_eq_true_eq] at hP
  obtain ⟨ch, hch, d, hd, ⟨⟨⟨⟨⟨hfree, hop⟩, hreg⟩, hoff⟩, hfew⟩, hi⟩, hlim⟩ := hP
  have h₁ : splitCmdToArgs (str "MODE #c +k :a:b") = [str "MODE", str "#c", str "+k", str "a:b"] := by decide
  have h₂ : splitCmdToArgs (str "JOIN #c :a:b") = [str "JOIN", str "#c", str "a:b"] := by decide
  obtain ⟨s₁, ch₁, hs₁, -, -, hiff⟩ := key_usable_iff ⟨_, hrun⟩ hch hfree hop h₁ hd hreg hoff hfew hi hlim h₂
  obtain ⟨s₂, hs₂, hon⟩ := hiff.mpr (by decide)
  exact ⟨cfg, s₁, s₂, ⟨_, hrun⟩, hs₁, hs₂, hon⟩

/-- A key with a comma locks everybody out. -/
theorem comma_locks : ¬ ∀ (pass : Str) (lfd : Nat) (cfg : Config), Reachable pass lfd cfg →
    ∀ (x z : Ptr) (k key l₁ l₂ : Str) (ch : Ch) (d : Cli) (s₁ : Server) (ch₁ : Ch), cfg.srv.chs[k]? = some ch →
      ch.pass = [] → x ∈ ch.adms → splitCmdToArgs l₁ = [str "MODE", k, str "+k", key] →
      cfg.srv.execLine x l₁ = .ok s₁ → s₁.chs[k]? = some ch₁ → ch₁.pass = key →
      cfg.srv.cliAt z = some d → d.registered = true → z ∉ ch.clis → cfg.srv.nbChannels z < MAX_CHS_PER_USER →
      ch.optI = false → ch.size < ch.limit → splitCmdToArgs l₂ = [str "JOIN", k, key] →
      ∃ s₂, s₁.execLine z l₂ = .ok s₂ ∧ On s₂ z k := by
  intro hall
  obtain ⟨cfg, hrun, hP⟩ := exists_run (str "2") 3 (connect 0 alice ++ connect 1 bob ++
    say 1 0 3 (register "bo") ++ say 0 1 4 (register "al" ++ str "JOIN #c\r\n"))
    (fun cfg => (cfg.srv.chs[str "#c"]?).any fun ch : Ch => (cfg.srv.cliAt bob.addr).any fun d : Cli =>
      decide (ch.pass = []) && decide (alice.addr ∈ ch.adms) && d.registered && decide (bob.addr ∉ ch.clis) &&
        decide (cfg.srv.nbChannels bob.addr < MAX_CHS_PER_USER) && decide (ch.optI = false) &&
          decide (ch.size < ch.limit) &&
      (cfg.srv.execLine alice.addr (str "MODE #c +k a,b")).toOption.any fun s₁ =>
        ((s₁.chs[str "#c"]?).any fun ch₁ : Ch => ch₁.pass = str "a,b") &&
          (s₁.execLine bob.addr (str "JOIN #c a,b")).toOption.any fun s₂ => ¬ On s₂ bob.addr (str "#c"))
    (by decide +kernel)
  simp only [Option.any_eq_true, Bool.and_eq_true, decide_eq_true_eq] at hP
  obtain ⟨ch, hch, d, hd, ⟨⟨⟨⟨⟨⟨hfree, hop⟩, hreg⟩, hoff⟩, hfew⟩, hi⟩, hlim⟩, s₁, hs₁, ⟨ch₁, hch₁, hpass⟩, s₂, hs₂, hno⟩ :=
    hP
  obtain ⟨t, ht, hon⟩ := hall _ _ cfg ⟨_, hrun⟩ _ _ _ (str "a,b") (str "MODE #c +k a,b") (str "JOIN #c a,b") ch d s₁ ch₁
    hch hfree hop (by decide) (eq_ok_of_toOption hs₁) hch₁ hpass hd hreg hoff hfew hi hlim (by decide)
  rw [eq_ok_of_toOption hs₂] at ht
  cases ht
  exact hno hon

end FtIrc
