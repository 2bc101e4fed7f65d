import FtIrc.Admission
import FtIrc.Parse

/-!
# The names of channels

A channel of RFC 2812 is named by `#` and 1 to 199 octets other than NUL, BELL, CR, LF, space, comma and
colon.  `execJoin` looks for the octets of the literal `"0\\"` instead, which are the digit zero and the
backslash, so it refuses some of these names and lets in others that the splitting of the line did not
catch (`admitted_names`).
-/

namespace FtIrc

open Std Server

variable {s s' : Server} {x : Ptr} {c : Cli} {k name line : Str} {ar names passes joined before rest : List Str}
  {cfg cfg' : Config} {i : Input} {phase phase' : Phase} {pass : Str} {lfd : Nat}

/-! ## The grammar -/

/-- Any octet except NUL, BELL, CR, LF, space, comma and colon. -/
def chanOctet (b : UInt8) : Prop := b ∉ [0, 7, CR, LF, SPACE, COMMA, COLON]

instance (b : UInt8) : Decidable (chanOctet b) := by unfold chanOctet; infer_instance

/-- A name of the grammar. -/
structure IsChannel (k : Str) : Prop where
  hash : k.head? = some HASH
  long : 1 ≤ k.tail.length
  short : k.tail.length ≤ 199
  octets : ∀ b ∈ k.tail, chanOctet b

instance (k : Str) : Decidable (IsChannel k) :=
  decidable_of_iff (k.head? = some HASH ∧ 1 ≤ k.tail.length ∧ k.tail.length ≤ 199 ∧
      (k.tail.all fun b => decide (chanOctet b)) = true)
    (by
      rw [List.all_eq_true]
      simp only [decide_eq_true_eq]
      exact ⟨fun h => ⟨h.1, h.2.1, h.2.2.1, h.2.2.2⟩, fun h => ⟨h.hash, h.long, h.short, h.octets⟩⟩)

/-- All octets of the name, the first included. -/
theorem IsChannel.all (h : IsChannel k) : ∀ b ∈ k, chanOctet b := by
  cases k with
  | nil => exact fun b hb => by cases hb
  | cons a t =>
    intro b hb
    rcases List.mem_cons.mp hb with rfl | hb
    · rw [Option.some.inj h.hash]
      decide
    · exact h.octets b hb

theorem IsChannel.length (h : IsChannel k) : 2 ≤ k.length ∧ k.length ≤ 200 := by
  have hlong := h.long
  have hshort := h.short
  rw [List.length_tail] at hlong hshort
  omega

/-- What `execJoin` checks of a name is what the grammar asks for, but for the octets. -/
theorem isChannel_of_chName (h : ChName k) (hoct : ∀ b ∈ k, chanOctet b) : IsChannel k := by
  have hlong := h.long
  have hshort := h.short
  refine ⟨h.hash, ?_, ?_, fun b hb => hoct b (List.mem_of_mem_tail hb)⟩
  · rw [List.length_tail]
    omega
  · rw [List.length_tail]
    omega

theorem IsChannel.badName_iff (h : IsChannel k) : badName k = false ↔ ∀ b ∈ k, b ∉ str "0\\" := by
  obtain ⟨hlong, hshort⟩ := h.length
  unfold badName
  rw [decide_eq_false_iff_not]
  push Not
  constructor
  · exact fun hk => hk.2.2.2
  · exact fun hk => ⟨by omega, hshort, h.hash, hk⟩

/-! ## A name of the grammar -/

/-- The line `JOIN k` has the two arguments. -/
theorem IsChannel.split_join (h : IsChannel k) : splitCmdToArgs (str "JOIN " ++ k) = [str "JOIN", k] := by
  have hspace : SPACE ∉ k := fun hm => h.all _ hm (by decide)
  have hcolon : COLON ∉ k := fun hm => h.all _ hm (by decide)
  have hne : k ≠ [] := by
    rintro rfl
    exact absurd h.long (by simp)
  have hraw : rawArgs (str "JOIN" ++ SPACE :: k) = [str "JOIN", k] := by
    rw [rawArgs_word_space (by decide) (by decide) (by decide), rawArgs_word hne hspace hcolon]
  have hline : str "JOIN " ++ k = str "JOIN" ++ SPACE :: k := rfl
  rw [splitCmdToArgs_eq, hline, hraw]
  rfl

/-- **Which names of the grammar are admitted**: those without a zero and a backslash that no channel has in
other case. -/
theorem joinName_iff (hI : Inv s) (hc : s.cliAt x = some c) (hreg : c.registered = true)
    (hfew : s.nbChannels x < MAX_CHS_PER_USER) (hk : IsChannel k) (hnew : k ∉ s.chs) :
    (∃ s', s.execLine x (str "JOIN " ++ k) = .ok s' ∧ On s' x k) ↔
      (∀ b ∈ k, b ∉ str "0\\") ∧ ∀ j ∈ s.chs, toLower j ≠ toLower k := by
  have har := hk.split_join
  have hcomma : COMMA ∉ k := fun hm => hk.all _ hm (by decide)
  have hne : k ≠ [] := by
    rintro rfl
    exact absurd hk.long (by simp)
  have hone : splitArgToSubargs k = [k] := splitArgToSubargs_item hne hcomma
  have hzero : k ≠ str "0" := by
    rintro rfl
    exact absurd hk.hash (by decide)
  have hadm : Admitted s c k ((joinKeys (splitCmdToArgs (str "JOIN " ++ k))).headD []) := by
    have hnone : s.chs[k]? = none := by
      rw [← Option.not_isSome_iff_eq_none, ← ExtTreeMap.mem_iff_isSome_getElem?]
      exact hnew
    unfold Admitted
    rw [hnone]
    rfl
  rw [execLine_joinOne hI hc hreg hfew (by rw [har]; rfl) (by rw [har]; simp) (by rw [har]; exact hone)
    (by rw [har]; exact fun h => hzero h.2) fun hon => hnew (mem_of_on hon), hk.badName_iff]
  refine and_congr_right fun _ => ⟨fun h j hj hlow => hnew (h.1 j hj hlow ▸ hj), fun h => ⟨fun j hj hlow => ?_, hadm⟩⟩
  exact absurd hlow (h j hj)

/-! ## The names that are let in -/

/-- The first names of a list are dealt with, then the others. -/
theorem joins_append : ∀ (before passes joined : List Str), ∃ passes',
    joins s x c joined (before ++ rest) passes = joins s x c (joins s x c joined before passes) rest passes'
  | [], passes, joined => ⟨passes, rfl⟩
  | name :: before, passes, joined => by
    have hhead : ∀ ns, joins s x c joined (name :: ns) passes =
        if MAX_CHS_PER_USER - 1 < s.nbChannels x + joined.length then joined
        else if badName name ∨ On s x name ∨ name ∈ joined then joins s x c joined ns passes
        else if Admitted s c name (passes.headD []) then joins s x c (name :: joined) ns passes.tail
        else joins s x c joined ns passes.tail := fun _ => rfl
    rw [List.cons_append, hhead (before ++ rest), hhead before]
    by_cases hmany : MAX_CHS_PER_USER - 1 < s.nbChannels x + joined.length
    · refine ⟨[], ?_⟩
      rw [if_pos hmany, if_pos hmany]
      cases rest with
      | nil => rfl
      | cons n ns => rw [joins, if_pos hmany]
    rw [if_neg hmany, if_neg hmany]
    by_cases hskip : badName name ∨ On s x name ∨ name ∈ joined
    · rw [if_pos hskip, if_pos hskip]
      exact joins_append before passes joined
    rw [if_neg hskip, if_neg hskip]
    by_cases hadm : Admitted s c name (passes.headD [])
    · rw [if_pos hadm, if_pos hadm]
      exact joins_append before passes.tail (name :: joined)
    · rw [if_neg hadm, if_neg hadm]
      exact joins_append before passes.tail joined

/-- Where in the list a name that is joined stands. -/
theorem split_of_mem_joins : ∀ (names passes joined : List Str), k ∈ joins s x c joined names passes → k ∉ joined →
    ∃ before after, names = before ++ k :: after ∧
      s.nbChannels x + (joins s x c joined before passes).length < MAX_CHS_PER_USER ∧ badName k = false
  | [], _, _, hk, hno => absurd hk hno
  | name :: names, passes, joined, hk, hno => by
    unfold joins at hk
    split at hk
    · exact absurd hk hno
    rename_i hfew
    split at hk
    · rename_i hskip
      obtain ⟨before, after, rfl, hlen, hbad⟩ := split_of_mem_joins names passes joined hk hno
      refine ⟨name :: before, after, rfl, ?_, hbad⟩
      rw [joins, if_neg hfew, if_pos hskip]
      exact hlen
    rename_i hgood
    split at hk
    · rename_i hadm
      by_cases he : k = name
      · subst he
        refine ⟨[], names, rfl, ?_, by simpa using (not_or.mp hgood).1⟩
        have hmax : MAX_CHS_PER_USER = 5 := rfl
        rw [joins]
        omega
      · have hno' : k ∉ name :: joined := fun h => hno ((List.mem_cons.mp h).resolve_left he)
        obtain ⟨before, after, rfl, hlen, hbad⟩ := split_of_mem_joins names passes.tail (name :: joined) hk hno'
        refine ⟨name :: before, after, rfl, ?_, hbad⟩
        rw [joins, if_neg hfew, if_neg hgood, if_pos hadm]
        exact hlen
    · rename_i hadm
      obtain ⟨before, after, rfl, hlen, hbad⟩ := split_of_mem_joins names passes.tail joined hk hno
      refine ⟨name :: before, after, rfl, ?_, hbad⟩
      rw [joins, if_neg hfew, if_neg hgood, if_neg hadm]
      exact hlen

/-- `JOIN` comes to a new name, with the client still on few channels, and the test lets the name in. -/
structure Opens (s : Server) (x : Ptr) (c : Cli) (ar : List Str) (k : Str) : Prop where
  through : GoesThrough c ar
  reached : ∃ before after, splitArgToSubargs (argD ar 1) = before ++ k :: after ∧
    s.nbChannels x + (joins s x c [] before (joinKeys ar)).length < MAX_CHS_PER_USER
  tested : badName k = false
  fresh : k ∉ s.chs

theorem opens_iff : Opens s x c ar k ↔ k ∈ joinNames s x c ar ∧ k ∉ s.chs := by
  constructor
  · rintro ⟨hgo, ⟨before, after, hlist, hfew⟩, hbad, hnew⟩
    refine ⟨?_, hnew⟩
    rw [joinNames_eq hgo, hlist]
    obtain ⟨passes', hap⟩ : ∃ passes', joins s x c [] (before ++ k :: after) (joinKeys ar) =
        joins s x c (joins s x c [] before (joinKeys ar)) (k :: after) passes' := joins_append before (joinKeys ar) []
    rw [hap]
    by_cases hin : k ∈ joins s x c [] before (joinKeys ar)
    · exact subset_joins _ _ _ k hin
    · have hadm : Admitted s c k (passes'.headD []) := by
        have hnone : s.chs[k]? = none := by
          rw [← Option.not_isSome_iff_eq_none, ← ExtTreeMap.mem_iff_isSome_getElem?]
          exact hnew
        unfold Admitted
        rw [hnone]
        rfl
      have hoff : ¬ On s x k := fun hon => hnew (mem_of_on hon)
      rw [joins, if_neg (by omega), if_neg (by simp [hbad, hoff, hin]), if_pos hadm]
      exact subset_joins _ _ _ k List.mem_cons_self
  · rintro ⟨hk, hnew⟩
    have hgo := goesThrough_of_mem hk
    rw [joinNames_eq hgo] at hk
    obtain ⟨before, after, hlist, hfew, hbad⟩ := split_of_mem_joins _ _ [] hk List.not_mem_nil
    exact ⟨hgo, ⟨before, after, hlist, hfew⟩, hbad, hnew⟩

/-! ## The keys of a run -/

/-- Only `JOIN` makes channels. -/
theorem Steps.key {s₀ : Server} (h : Steps s₀ x ar s) (hk : k ∈ s.chs) :
    k ∈ s₀.chs ∨ (CmdIs ar "JOIN" ∧ ¬ PartCmd ar) := by
  induction h with
  | refl => exact .inl hk
  | tail _ heff ih =>
    cases heff with
    | cli _ _ _ _ _ => exact ih hk
    | ch _ _ _ _ _ _ => exact ih (by simpa using hk)
    | newCh _ _ hcmd hpart _ _ _ => exact .inr ⟨hcmd, hpart⟩
    | mark _ _ _ => exact ih hk

/-- Every name that the next command opens a channel under is one of the grammar. -/
def OpensClean (cfg : Config) : Prop :=
  ∀ x line lines todo c, cfg.phase = .cmds x (line :: lines) todo → cfg.srv.cliAt x = some c →
    CmdIs (splitCmdToArgs line) "JOIN" → ∀ k, Opens cfg.srv x c (splitCmdToArgs line) k → ∀ b ∈ k, chanOctet b

/-- What a line does to the keys. -/
theorem key_execLine (hI : Inv s) (hc : s.cliAt x = some c) (h : s.execLine x line = .ok s') :
    (k ∈ s'.chs → k ∈ s.chs ∨ (CmdIs (splitCmdToArgs line) "JOIN" ∧ Opens s x c (splitCmdToArgs line) k)) ∧
    (CmdIs (splitCmdToArgs line) "JOIN" → Opens s x c (splitCmdToArgs line) k → k ∈ s'.chs) := by
  have hafter := fun hcmd hpart => afterJoin_execLine hI hc h hcmd hpart
  constructor
  · intro hk
    by_cases hold : k ∈ s.chs
    · exact .inl hold
    obtain ⟨u, -, hnote, -, -, hsteps⟩ := execLine_run hI hc h
    have hku : k ∈ u.chs := by
      rw [hnote] at hk
      exact hk
    obtain ⟨hcmd, hpart⟩ := (hsteps.key hku).resolve_left hold
    refine .inr ⟨hcmd, opens_iff.mpr ⟨?_, hold⟩⟩
    by_contra hno
    obtain ⟨ch, hch⟩ := mem_chs.mp hk
    rw [(hafter hcmd hpart).chs, if_neg hno] at hch
    exact hold (mem_chs.mpr ⟨ch, hch⟩)
  · intro hcmd hopen
    have hz := hopen.through.2.2.1
    have hon := (hafter hcmd fun hp => hz ((partCmd_join_iff hcmd).mp hp)).on_iff.mpr (.inl (opens_iff.mp hopen).1)
    exact mem_of_on hon

/-- **A step keeps the names in the grammar** exactly if it is clean. -/
theorem channels_step_iff (hg : Good cfg) (hstep : step cfg i = .ok cfg') (hall : ∀ k ∈ cfg.srv.chs, IsChannel k) :
    (∀ k ∈ cfg'.srv.chs, IsChannel k) ↔ OpensClean cfg := by
  have hmove := move_of_step hstep
  have hg' := good_step cfg i cfg' hg hstep
  rcases hmove.cmd_or with ⟨x, line, lines, todo, hphase, hs⟩ | hno
  · obtain ⟨⟨c, hc⟩, -⟩ := hg.author x (line :: lines) todo hphase
    constructor
    · intro hall' x₁ line₁ lines₁ todo₁ c₁ hphase₁ hc₁ hjoin k hopen
      rw [hphase] at hphase₁
      cases hphase₁
      rw [hc] at hc₁
      cases hc₁
      exact (hall' k ((key_execLine hg.inv hc hs).2 hjoin hopen)).all
    · intro hclean k hk
      rcases (key_execLine hg.inv hc hs).1 hk with hold | ⟨hjoin, hopen⟩
      · exact hall k hold
      · exact isChannel_of_chName (hg'.inv.ch_name k hk) (hclean x line lines todo c hphase hc hjoin k hopen)
  · refine iff_of_true (fun k hk => hall k (hmove.key hg.inv hno hk)) ?_
    intro x line lines todo c hphase
    exact absurd hphase (hno x line lines todo)

/-- **Which names are admitted.**  A step keeps the names of the channels in the grammar exactly if it is clean, so
a run whose steps are clean does; and a registered client on few channels that joins a new name of the
grammar gets in exactly if the name contains no zero and no backslash and no channel has it in other case. -/
theorem admitted_names (pass : Str) (lfd : Nat) :
    (∀ cfg i cfg', Reachable pass lfd cfg → step cfg i = .ok cfg' → (∀ k ∈ cfg.srv.chs, IsChannel k) →
      ((∀ k ∈ cfg'.srv.chs, IsChannel k) ↔ OpensClean cfg)) ∧
    (∀ is cfg, Runs.Along step (fun cfg _ => OpensClean cfg) is (start pass lfd) → runServer pass lfd is = .ok cfg →
      ∀ k ∈ cfg.srv.chs, IsChannel k) ∧
    ∀ cfg, Reachable pass lfd cfg → ∀ x c k, cfg.srv.cliAt x = some c → c.registered = true →
      cfg.srv.nbChannels x < 5 → IsChannel k → k ∉ cfg.srv.chs →
      ((∃ s', cfg.srv.execLine x (str "JOIN " ++ k) = .ok s' ∧ On s' x k) ↔
        (∀ b ∈ k, b ∉ str "0\\") ∧ ∀ j ∈ cfg.srv.chs, toLower j ≠ toLower k) := by
  refine ⟨fun cfg i cfg' hr => channels_step_iff hr.good, fun is cfg hclean hrun => ?_,
    fun cfg hr x c k hc hreg hfew => joinName_iff hr.good.inv hc hreg hfew⟩
  refine (Runs.along_invariant (I := fun cfg => Good cfg ∧ ∀ k ∈ cfg.srv.chs, IsChannel k)
    (fun cfg i cfg' hI hcl hstep => ?_) is _ cfg ⟨good_start pass lfd, fun k hk => ?_⟩ hclean hrun).2
  · exact ⟨good_step cfg i cfg' hI.1 hstep, (channels_step_iff hI.1 hstep hI.2).mpr hcl⟩
  · exact absurd hk ExtTreeMap.not_mem_empty

/-- `OpensClean`, evaluated. -/
def clean (cfg : Config) : Bool :=
  match cfg.phase with
  | .cmds x (line :: _) _ => (cfg.srv.cliAt x).all fun c =>
      (joinNames cfg.srv x c (splitCmdToArgs line)).all fun k => k ∈ cfg.srv.chs || k.all fun b => chanOctet b
  | _ => true

theorem clean_spec (cfg : Config) (h : clean cfg = true) : OpensClean cfg := by
  intro x line lines todo c hphase hc _ k hopen b hb
  obtain ⟨hk, hnew⟩ := opens_iff.mp hopen
  unfold clean at h
  rw [hphase] at h
  simp only [hc, Option.all_some] at h
  have hone := List.all_eq_true.mp h k hk
  rw [Bool.or_eq_true, decide_eq_true_eq] at hone
  exact of_decide_eq_true (List.all_eq_true.mp (hone.resolve_left hnew) b hb)

/-- A client opens a channel, and another. -/
theorem admitted_names_join : ∃ cfg, runServer (str "2") 3
      (connect 0 alice ++ say 0 0 4 (register "al" ++ str "JOIN #c\r\n")) = .ok cfg ∧
    (∀ k ∈ cfg.srv.chs, IsChannel k) ∧
    ∃ s', cfg.srv.execLine alice.addr (str "JOIN " ++ str "#d") = .ok s' ∧ On s' alice.addr (str "#d") := by
  obtain ⟨cfg, hrun, hP⟩ := exists_run (str "2") 3
    (connect 0 alice ++ say 0 0 4 (register "al" ++ str "JOIN #c\r\n"))
    (fun cfg => (cfg.srv.cliAt alice.addr).any (·.registered) && decide (cfg.srv.nbChannels alice.addr < 5) &&
      decide (cfg.srv.chs.keys = [str "#c"])) (by decide +kernel)
  simp only [Bool.and_eq_true, Option.any_eq_true, decide_eq_true_eq] at hP
  obtain ⟨⟨⟨c, hc, hreg⟩, hfew⟩, hkeys⟩ := hP
  have hclean : Runs.Along step (fun cfg _ => OpensClean cfg)
      (connect 0 alice ++ say 0 0 4 (register "al" ++ str "JOIN #c\r\n")) (start (str "2") 3) :=
    Runs.along_of_check (P := fun cfg _ => clean cfg) (fun cfg _ => clean_spec cfg) _ _ (by decide +kernel)
  have honly : ∀ k ∈ cfg.srv.chs, k = str "#c" := fun k hk => by
    rw [← ExtTreeMap.mem_keys, hkeys] at hk
    exact List.mem_singleton.mp hk
  refine ⟨cfg, hrun, (admitted_names _ _).2.1 _ cfg hclean hrun, ?_⟩
  refine ((admitted_names _ _).2.2 cfg ⟨_, hrun⟩ _ c (str "#d") hc hreg hfew (by decide) fun hk => ?_).mpr
    ⟨fun b hb => ?_, fun j hj => ?_⟩
  · exact absurd (honly _ hk) (by decide)
  · exact of_decide_eq_true (List.all_eq_true.mp (by decide : ((str "#d").all fun b => decide (b ∉ str "0\\")) = true) b hb)
  · rw [honly j hj]
    decide

/-- `JOIN :#a b` opens a channel with a space in its name, and `JOIN #c0` is refused. -/
theorem names_not_exact :
    (¬ ∀ (pass : Str) (lfd : Nat) (cfg : Config), Reachable pass lfd cfg → ∀ k ∈ cfg.srv.chs, IsChannel k) ∧
    ¬ ∀ (pass : Str) (lfd : Nat) (cfg : Config), Reachable pass lfd cfg →
      ∀ (x : Ptr) (c : Cli) (k : Str), cfg.srv.cliAt x = some c → c.registered = true →
        cfg.srv.nbChannels x < 5 → IsChannel k → (∀ j ∈ cfg.srv.chs, toLower j ≠ toLower k) →
        ∃ s', cfg.srv.execLine x (str "JOIN " ++ k) = .ok s' ∧ On s' x k := by
  constructor
  · intro hall
    obtain ⟨cfg, hrun, hP⟩ := exists_run (str "2") 3
      (connect 0 alice ++ say 0 0 4 (register "al" ++ str "JOIN :#a b\r\n"))
      (fun cfg => decide (str "#a b" ∈ cfg.srv.chs)) (by decide +kernel)
    exact absurd (hall _ _ cfg ⟨_, hrun⟩ _ (of_decide_eq_true hP)) (by decide)
  · intro hall
    obtain ⟨cfg, hrun, hP⟩ := exists_run (str "2") 3 (connect 0 alice ++ say 0 0 3 (register "al"))
      (fun cfg => (cfg.srv.cliAt alice.addr).any (·.registered) && decide (cfg.srv.nbChannels alice.addr < 5) &&
        decide (cfg.srv.chs.keys = [])) (by decide +kernel)
    simp only [Bool.and_eq_true, Option.any_eq_true, decide_eq_true_eq] at hP
    obtain ⟨⟨⟨c, hc, hreg⟩, hfew⟩, hkeys⟩ := hP
    have hr : Reachable (str "2") 3 cfg := ⟨_, hrun⟩
    have hnone : ∀ k, k ∉ cfg.srv.chs := fun k hk => by
      rw [← ExtTreeMap.mem_keys, hkeys] at hk
      exact List.not_mem_nil hk
    have hname : IsChannel (str "#c0") := by decide
    have hin := hall _ _ cfg hr _ c (str "#c0") hc hreg hfew hname fun j hj => absurd hj (hnone j)
    exact absurd (((joinName_iff hr.good.inv hc hreg hfew hname (hnone _)).mp hin).1 48 (by decide)) (by decide)

end FtIrc
