import FtIrc.Meaning.Line
import FtIrc.Meaning.Relay
import FtIrc.Roster

/-!
# Whom JOIN admits

`AfterJoin` is the state that `JOIN` leaves, channel by channel: those it has joined have one more member,
or are new, and the invitations to them are used up; nothing else has changed.  What the loop has checked
before it joins one is `Passed`.  `join_admits` puts the two together for a line, and
`channels_le` bounds the channels of a client in every reachable state.
-/

namespace FtIrc

open Std Outcome Server

variable {s s' u : Server} {x y p : Ptr} {ar : List Str} {c d me : Cli} {k name a1 line pass : Str} {ch : Ch}
  {joined names passes : List Str} {cfg : Config} {srvPass : Str} {lfd : Nat}

/-! ## The loop -/

/-- The channels `joined` have been joined since `s`: all that has changed. -/
structure AfterJoin (s u : Server) (x : Ptr) (c : Cli) (joined : List Str) : Prop where
  chs : ∀ k, u.chs[k]? = if k ∈ joined then some (((s.chs[k]?).getD (Ch.new x)).enter x) else s.chs[k]?
  invits : ∃ d, u.cliAt x = some d ∧ ∀ k, k ∈ d.invits ↔ k ∈ c.invits ∧ k ∉ joined

/-- What `JOIN` has checked before it joins `k`. -/
structure Passed (s : Server) (x : Ptr) (c : Cli) (names keys : List Str) (k : Str) : Prop where
  named : k ∈ names
  valid : ChName k
  outside : ¬ On s x k
  admitted : ∃ key, Admitted s c k key ∧ (key = [] ∨ key ∈ keys)

theorem AfterJoin.refl (hc : s.cliAt x = some c) : AfterJoin s s x c [] :=
  ⟨fun _ => (if_neg List.not_mem_nil).symm, c, hc, fun _ => (and_iff_left List.not_mem_nil).symm⟩

theorem AfterJoin.on_iff (h : AfterJoin s u x c joined) : On u x k ↔ k ∈ joined ∨ On s x k := by
  unfold On
  rw [h.chs]
  by_cases hk : k ∈ joined
  · rw [if_pos hk]
    refine iff_of_true ⟨_, rfl, ?_⟩ (.inl hk)
    exact mem_insert_iff.mpr (.inl rfl)
  · rw [if_neg hk, or_iff_right hk]

/-- One name joins a channel, or nothing. -/
theorem joinOne_cases (u : Server) (x : Ptr) (c : Cli) (name pass : Str) : (joinOne u x c name pass).1 = u ∨ ∃ me, u.cliAt x = some me ∧
    (joinOne u x c name pass).1 = letIn (openCh u x name) x me name := by
  unfold joinOne
  split
  · rename_i me ch hme hch
    split
    · exact .inl rfl
    · exact .inr ⟨me, hme, rfl⟩
  · exact .inl rfl

theorem getElem?_chs_letIn (k : Str) : (letIn u x me name).chs[k]? =
    if k = name then (u.chs[k]?).map (·.enter x) else u.chs[k]? := by
  rw [letIn, chs_useInvitation, getElem?_chs_updCh]

theorem getElem?_chs_openCh (hspell : u.getCh name = none ∨ name ∈ u.chs) (k : Str) :
    (openCh u x name).chs[k]? = if k = name then some ((u.chs[k]?).getD (Ch.new x)) else u.chs[k]? := by
  unfold openCh
  by_cases hnew : u.getCh name = none
  · rw [if_pos hnew, getElem?_chs_insert]
    split
    · rename_i hk
      subst hk
      cases hch : u.chs[k]? with
      | none => rfl
      | some ch => exact absurd rfl (getCh_none_iff.mp hnew k (mem_chs.mpr ⟨ch, hch⟩))
    · rfl
  · obtain ⟨ch, hch⟩ := mem_chs.mp (hspell.resolve_left hnew)
    rw [if_neg hnew]
    split
    · rename_i hk
      rw [hk, hch]
      rfl
    · rfl

theorem invits_letIn (name : Str) (hme : u.cliAt x = some me) : ∃ d, (letIn u x me name).cliAt x = some d ∧
    ∀ k, k ∈ d.invits ↔ k ∈ me.invits ∧ k ≠ name := by
  have hkeep : KeepsAddr fun c : Cli => { c with invits := c.invits.erase name } := fun _ => ⟨rfl, rfl⟩
  unfold letIn useInvitation
  split
  · refine ⟨{ me with invits := me.invits.erase name }, ?_, fun k => ?_⟩
    · rw [cliAt_updCli hkeep, if_pos rfl, cliAt_updCh, hme]
      rfl
    · show k ∈ me.invits.erase name ↔ _
      rw [ExtTreeSet.mem_erase, ne_eq, Std.compare_eq_iff_eq, and_comm, eq_comm]
  · rename_i hno
    exact ⟨me, hme, fun k => (and_iff_left_of_imp fun (hk : k ∈ me.invits) (he : k = name) => hno (he ▸ hk)).symm⟩

/-- One more channel joined. -/
theorem AfterJoin.one (h : AfterJoin s u x c joined) (ht : Track s (joinOne u x c name pass).1 x c (name :: joined))
    (hoff : ¬ On u x name) (hno : name ∉ joined) (hspell : u.getCh name = none ∨ name ∈ u.chs) :
    AfterJoin s (joinOne u x c name pass).1 x c (name :: joined) := by
  rcases joinOne_cases u x c name pass with hsame | ⟨me, hme, hin⟩
  · -- the name has been joined, so it has not been refused
    refine absurd (ht.joined.on name (List.mem_cons_self ..)) ?_
    rw [hsame]
    exact hoff
  · rw [hin]
    refine ⟨fun k => ?_, ?_⟩
    · rw [getElem?_chs_letIn, getElem?_chs_openCh hspell, h.chs]
      by_cases hk : k = name
      · subst hk
        rw [if_pos rfl, if_pos rfl, if_neg hno, if_pos (List.mem_cons_self ..)]
        rfl
      · rw [if_neg hk, if_neg hk]
        simp only [List.mem_cons, hk, false_or]
    · obtain ⟨e, he, hinv⟩ := h.invits
      rw [hme] at he
      cases he
      have hopen : (openCh u x name).cliAt x = some me := cliAt_openCh.trans hme
      obtain ⟨d, hd, hd'⟩ := invits_letIn name hopen
      refine ⟨d, hd, fun k => ?_⟩
      rw [hd' k, hinv k, List.mem_cons, not_or, and_assoc, and_comm (a := k ∉ joined)]

theorem Track.spelled (h : Track s u x c joined)
    (hspell : ∀ k ∈ s.chs.keys ++ joined, toLower k = toLower name → k = name) :
    u.getCh name = none ∨ name ∈ u.chs := by
  cases hg : u.getCh name with
  | none => exact .inl rfl
  | some k =>
    obtain ⟨hk, hlow⟩ := getCh_some hg
    refine .inr (hspell k ?_ hlow ▸ hk)
    rw [List.mem_append, ExtTreeMap.mem_keys]
    exact (h.joined.mem_iff h.keys).mp hk

/-- **The loop of JOIN**: what it leaves. -/
theorem afterJoin_joinRun (a1 : Str) : ∀ (names passes joined : List Str) (u : Server),
    (∀ n ∈ names, COMMA ∉ n) → Track s u x c joined → AfterJoin s u x c joined →
    JoinSafe s x c joined names passes →
    AfterJoin s (joinRun x c a1 names passes u).1 x c (joins s x c joined names passes)
  | [], _, _, _, _, _, he, _ => he
  | name :: names, passes, joined, u, hcomma, h, he, hsafe => by
    have hrest := fun passes joined u => afterJoin_joinRun a1 names passes joined u
      fun n hn => hcomma n (List.mem_cons_of_mem _ hn)
    unfold JoinSafe at hsafe
    unfold joinRun joins
    rw [h.joined.nbChannels]
    by_cases hmany : MAX_CHS_PER_USER - 1 < s.nbChannels x + joined.length
    · rw [if_pos hmany, if_pos hmany]
      exact he
    rw [if_neg hmany] at hsafe
    rw [if_neg hmany, if_neg hmany]
    by_cases hbad : badName name = true
    · rw [if_pos hbad] at hsafe
      rw [if_pos hbad, if_pos (.inl hbad)]
      exact hrest passes joined u h he hsafe
    rw [if_neg hbad] at hsafe
    obtain ⟨hspell, hsafe⟩ := hsafe
    rw [if_neg hbad]
    by_cases hon : On u x name
    · have hon' := h.joined.on_iff.mp hon
      rw [if_pos hon'] at hsafe
      rw [if_pos hon, if_pos (.inr hon')]
      exact hrest passes joined u h he hsafe
    · have hon' : ¬ (On s x name ∨ name ∈ joined) := fun ho => hon (h.joined.on_iff.mpr ho)
      rw [if_neg hon'] at hsafe
      rw [if_neg hon, if_neg fun ho => hon' (ho.resolve_left hbad)]
      have hname : ChName name :=
        chName_of_badName (by simpa using hbad) (hcomma name (List.mem_cons_self ..))
      obtain ⟨ch, -, hone⟩ := h.one hname hon hspell (passes.headD [])
      by_cases hin : Admitted s c name (passes.headD [])
      · rw [if_pos hin] at hone hsafe
        rw [if_pos hin]
        have hnext := he.one hone.2 hon (fun hj => hon' (.inr hj)) (h.spelled hspell)
        exact hrest passes.tail (name :: joined) _ hone.2 hnext hsafe
      · rw [if_neg hin] at hone hsafe
        rw [if_neg hin]
        obtain ⟨-, hsame⟩ := hone
        show AfterJoin s (joinRun x c a1 names passes.tail (joinOne u x c name (passes.headD [])).1).1 x c _
        rw [hsame]
        exact hrest passes.tail joined u h he hsafe

/-- What is joined has passed the tests. -/
theorem passed_of_mem_joins : ∀ (names passes joined : List Str), (∀ n ∈ names, COMMA ∉ n) →
    k ∈ joins s x c joined names passes → k ∉ joined → Passed s x c names passes k
  | [], _, _, _, hk, hno => absurd hk hno
  | name :: names, passes, joined, hcomma, hk, hno => by
    have hrest := fun passes joined => passed_of_mem_joins names passes joined
      fun n hn => hcomma n (List.mem_cons_of_mem _ hn)
    have hlater : ∀ passes', (∀ key ∈ passes', key ∈ passes) → Passed s x c names passes' k →
        Passed s x c (name :: names) passes k := by
      intro passes' hsub h
      obtain ⟨key, hkey, hwhich⟩ := h.admitted
      exact ⟨List.mem_cons_of_mem _ h.named, h.valid, h.outside, key, hkey, hwhich.imp_right (hsub key)⟩
    have htail : ∀ key ∈ passes.tail, key ∈ passes := fun key => List.mem_of_mem_tail
    unfold joins at hk
    split at hk
    · exact absurd hk hno
    split at hk
    · exact hlater passes (fun _ h => h) (hrest passes joined hk hno)
    · rename_i hgood
      split at hk
      · rename_i hadm
        by_cases he : k = name
        · subst he
          obtain ⟨hbad, hgood⟩ := not_or.mp hgood
          refine ⟨List.mem_cons_self .., ?_, fun hon => hgood (.inl hon), _, hadm, ?_⟩
          · exact chName_of_badName (by simpa using hbad) (hcomma k (List.mem_cons_self ..))
          · cases passes with
            | nil => exact .inl rfl
            | cons key _ => exact .inr (List.mem_cons_self ..)
        · refine hlater passes.tail htail (hrest passes.tail (name :: joined) hk fun hj => ?_)
          exact hno ((List.mem_cons.mp hj).resolve_left he)
      · exact hlater passes.tail htail (hrest passes.tail joined hk hno)

/-- The loop stops at the bound. -/
theorem joins_bounded : ∀ (names passes joined : List Str),
    s.nbChannels x + joined.length ≤ MAX_CHS_PER_USER →
    s.nbChannels x + (joins s x c joined names passes).length ≤ MAX_CHS_PER_USER
  | [], _, _, h => h
  | name :: names, passes, joined, h => by
    unfold joins
    split
    · exact h
    · rename_i hfew
      split
      · exact joins_bounded names passes joined h
      split
      · apply joins_bounded names passes.tail (name :: joined)
        rw [List.length_cons]
        have hmax : MAX_CHS_PER_USER = 5 := rfl
        omega
      · exact joins_bounded names passes.tail joined h

/-! ## The line -/

/-- The command gets to its list of names. -/
def GoesThrough (c : Cli) (ar : List Str) : Prop :=
  c.registered = true ∧ 2 ≤ ar.length ∧ ¬ (ar.length = 2 ∧ argD ar 1 = str "0") ∧
    tooManyTargets (splitArgToSubargs (argD ar 1)) = false

theorem joinNames_eq (h : GoesThrough c ar) :
    joinNames s x c ar = joins s x c [] (splitArgToSubargs (argD ar 1)) (joinKeys ar) := by
  obtain ⟨hreg, hlen, hz, hfew⟩ := h
  unfold joinNames
  rw [if_neg]
  rw [hreg, hfew]
  rintro (h | h | h | h)
  · cases h
  · omega
  · exact hz h
  · cases h

theorem goesThrough_of_mem (hk : k ∈ joinNames s x c ar) : GoesThrough c ar := by
  unfold joinNames at hk
  split at hk
  · cases hk
  · rename_i hno
    push Not at hno
    obtain ⟨hreg, hlen, hz, hfew⟩ := hno
    exact ⟨by simpa using hreg, hlen, fun h => hz h.1 h.2, by simpa using hfew⟩

/-- The state and the lines, when it does. -/
theorem execJoinRun_eq (h : GoesThrough c ar) :
    execJoinRun s x c ar = joinRun x c (argD ar 1) (splitArgToSubargs (argD ar 1)) (joinKeys ar) s := by
  obtain ⟨hreg, hlen, hz, hfew⟩ := h
  unfold execJoinRun registeredRun
  rw [if_neg (by simp [hreg]), if_neg (by omega), if_neg hz, if_neg (by simp [hfew])]

/-- Otherwise the author gets one line, or leaves its channels. -/
theorem execJoinRun_not (h : ¬ GoesThrough c ar) (hz : ¬ (ar.length = 2 ∧ argD ar 1 = str "0")) :
    (execJoinRun s x c ar).1 = s := by
  unfold execJoinRun registeredRun
  split
  · rfl
  · rename_i hreg
    split
    · rfl
    · rename_i hlen
      split
      · rfl
      · rename_i hfew
        exact absurd ⟨by simpa using hreg, by omega, hz, by simpa using hfew⟩ h

theorem joinSafe_of_goesThrough (hc : s.cliAt x = some c) (hok : JoinOk s x ar) (h : GoesThrough c ar) :
    JoinSafe s x c [] (splitArgToSubargs (argD ar 1)) (joinKeys ar) := by
  obtain ⟨hreg, hlen, hz, hfew⟩ := h
  obtain ⟨a1, ha1⟩ := exists_arg ar 1 (by omega)
  rw [argD_of_getElem? ha1] at hz hfew ⊢
  have hok' := (joinOk_iff hc hreg ha1).mp hok
  rw [if_neg hz] at hok'
  exact hok' hfew

theorem afterJoin_execJoinRun (hI : Inv s) (hc : s.cliAt x = some c) (hcmd : CmdIs ar "JOIN")
    (hpart : ¬ PartCmd ar) (hok : JoinOk s x ar) :
    AfterJoin s (execJoinRun s x c ar).1 x c (joinNames s x c ar) := by
  by_cases hgo : GoesThrough c ar
  · rw [execJoinRun_eq hgo, joinNames_eq hgo]
    exact afterJoin_joinRun _ _ _ [] s (fun n hn => splitArgToSubargs_comma hn) (.refl hI hc hgo.1) (.refl hc)
      (joinSafe_of_goesThrough hc hok hgo)
  · have hnone : joinNames s x c ar = [] :=
      List.eq_nil_iff_forall_not_mem.mpr fun k hk => hgo (goesThrough_of_mem hk)
    rw [hnone, execJoinRun_not hgo fun h => hpart ((partCmd_join_iff hcmd).mpr h)]
    exact .refl hc

/-- **What a JOIN line leaves.** -/
theorem afterJoin_execLine (hI : Inv s) (hc : s.cliAt x = some c) (h : s.execLine x line = .ok s')
    (hcmd : CmdIs (splitCmdToArgs line) "JOIN") (hpart : ¬ PartCmd (splitCmdToArgs line)) :
    AfterJoin s s' x c (joinNames s x c (splitCmdToArgs line)) := by
  obtain ⟨u, -, rfl, rfl, hsafe, -⟩ := execLine_run hI hc h
  rw [cmdRun_join hcmd]
  obtain ⟨hchs, d, hd, hinv⟩ := afterJoin_execJoinRun hI hc hcmd hpart (hsafe.join hcmd)
  refine ⟨fun k => ?_, ?_⟩
  · rw [chs_note, chs_sendAll]
    exact hchs k
  · rw [cliAt_note, if_pos rfl, cliAt_sendAll, hd]
    exact ⟨_, rfl, hinv⟩

theorem passed_of_mem_joinNames (hk : k ∈ joinNames s x c ar) :
    Passed s x c (splitArgToSubargs (argD ar 1)) (joinKeys ar) k := by
  rw [joinNames_eq (goesThrough_of_mem hk)] at hk
  exact passed_of_mem_joins _ _ [] (fun n hn => splitArgToSubargs_comma hn) hk List.not_mem_nil

/-- **A JOIN of one name** by a client that may join: it gets in exactly if the name is valid, no channel has
it in other case, and the channel, if there is one, admits the client. -/
theorem execLine_joinOne (hI : Inv s) (hc : s.cliAt x = some c) (hreg : c.registered = true)
    (hfew : s.nbChannels x < MAX_CHS_PER_USER) (hcmd : CmdIs (splitCmdToArgs line) "JOIN")
    (hlen : 2 ≤ (splitCmdToArgs line).length) (hlist : splitArgToSubargs (argD (splitCmdToArgs line) 1) = [k])
    (hz : ¬ ((splitCmdToArgs line).length = 2 ∧ argD (splitCmdToArgs line) 1 = str "0")) (hoff : ¬ On s x k) :
    (∃ s', s.execLine x line = .ok s' ∧ On s' x k) ↔ badName k = false ∧
      (∀ j ∈ s.chs, toLower j = toLower k → j = k) ∧
        Admitted s c k ((joinKeys (splitCmdToArgs line)).headD []) := by
  have hpart : ¬ PartCmd (splitCmdToArgs line) := fun h => hz ((partCmd_join_iff hcmd).mp h)
  have hgo : GoesThrough c (splitCmdToArgs line) := by
    refine ⟨hreg, hlen, hz, ?_⟩
    rw [hlist]
    simp [tooManyTargets, MAX_NB_TARGETS]
  have hnot : ¬ MAX_CHS_PER_USER - 1 < s.nbChannels x + ([] : List Str).length := by
    rw [List.length_nil]
    omega
  have hnames : joinNames s x c (splitCmdToArgs line) =
      if badName k = true then [] else
        if Admitted s c k ((joinKeys (splitCmdToArgs line)).headD []) then [k] else [] := by
    rw [joinNames_eq hgo, hlist]
    unfold joins
    rw [if_neg hnot]
    by_cases hbad : badName k = true
    · rw [if_pos (.inl hbad), if_pos hbad]
      rfl
    · rw [if_neg (by simp [hbad, hoff]), if_neg hbad]
      rfl
  have hjoined : ∀ s', s.execLine x line = .ok s' →
      (On s' x k ↔ badName k = false ∧ Admitted s c k ((joinKeys (splitCmdToArgs line)).headD [])) := by
    intro s' hs'
    rw [(afterJoin_execLine hI hc hs' hcmd hpart).on_iff, or_iff_left hoff, hnames]
    by_cases hbad : badName k = true
    · rw [if_pos hbad]
      simp [hbad]
    · rw [if_neg hbad]
      split <;> simp_all
  have hsafe : JoinOk s x (splitCmdToArgs line) → ∃ s', s.execLine x line = .ok s' := by
    intro hok
    exact (execLine_ok_iff hI hc).mpr ((cmdSafe_join hcmd).mpr hok)
  constructor
  · rintro ⟨s', hs', hon⟩
    obtain ⟨hbad, hadm⟩ := (hjoined s' hs').mp hon
    obtain ⟨-, -, -, -, hsafe, -⟩ := execLine_run hI hc hs'
    have hspell := joinSafe_of_goesThrough hc (hsafe.join hcmd) hgo
    rw [hlist] at hspell
    unfold JoinSafe at hspell
    rw [if_neg hnot, if_neg (by simp [hbad])] at hspell
    exact ⟨hbad, fun j hj => hspell.1 j (by rw [List.append_nil, ExtTreeMap.mem_keys]; exact hj), hadm⟩
  · rintro ⟨hbad, hspell, hadm⟩
    obtain ⟨a1, ha1⟩ := exists_arg (splitCmdToArgs line) 1 (by omega)
    have hok : JoinOk s x (splitCmdToArgs line) := by
      refine (joinOk_iff hc hreg ha1).mpr ?_
      rw [← argD_of_getElem? ha1, if_neg hz, hlist]
      intro _
      unfold JoinSafe
      rw [if_neg hnot, if_neg (by simp [hbad])]
      refine ⟨fun j hj hlow => ?_, ?_⟩
      · rw [List.append_nil, ExtTreeMap.mem_keys] at hj
        exact hspell j hj hlow
      · repeat' split
        all_goals trivial
    obtain ⟨s', hs'⟩ := hsafe hok
    exact ⟨s', hs', (hjoined s' hs').mpr ⟨hbad, hadm⟩⟩

/-- What a `JOIN` of `x` does to the channels. -/
structure JoinLaw (s s' : Server) (x : Ptr) (c : Cli) (ar : List Str) : Prop where
  /-- the tests that a channel makes of whom it admits -/
  admits : ∀ (k : Str) (ch : Ch), s.chs[k]? = some ch → ¬ On s x k → On s' x k →
    k ∈ splitArgToSubargs (argD ar 1) ∧ c.registered = true ∧ (ch.pass = [] ∨ ch.pass ∈ joinKeys ar) ∧
      ch.clis.size < ch.limit ∧ (ch.optI = false ∨ k ∈ c.invits) ∧
      ∃ d, s'.cliAt x = some d ∧ k ∉ d.invits
  creates : ∀ (k : Str) (ch : Ch), s.chs[k]? = none → s'.chs[k]? = some ch →
    (∀ p, p ∈ ch.clis ↔ p = x) ∧ ∀ p, p ∈ ch.adms ↔ p = x
  keeps : ∀ (k : Str) (ch : Ch), s.chs[k]? = some ch → ∃ ch' : Ch, s'.chs[k]? = some ch' ∧
    (∀ y, y ≠ x → (y ∈ ch'.clis ↔ y ∈ ch.clis)) ∧ ch'.adms = ch.adms ∧ ch'.topic = ch.topic ∧
      ch'.pass = ch.pass ∧ ch'.limit = ch.limit ∧ ch'.optI = ch.optI ∧ ch'.optT = ch.optT

theorem admits_of_admitted (h : Admitted s c k pass) (hch : s.chs[k]? = some ch) : Admits c ch k pass := by
  unfold Admitted at h
  rw [hch] at h
  simpa using h

theorem AfterJoin.law (h : AfterJoin s s' x c (joinNames s x c ar)) : JoinLaw s s' x c ar := by
  refine ⟨fun k ch hch hoff hon => ?admits, fun k ch hnone hch => ?creates, fun k ch hch => ?keeps⟩
  case admits =>
    have hk : k ∈ joinNames s x c ar := by
      by_contra hk
      obtain ⟨ch', hch', hin⟩ := hon
      rw [h.chs, if_neg hk] at hch'
      exact hoff ⟨ch', hch', hin⟩
    obtain ⟨hnamed, -, -, key, hkey, hwhich⟩ := passed_of_mem_joinNames hk
    obtain ⟨hpass, hlimit, hinv⟩ := admits_of_admitted hkey hch
    obtain ⟨d, hd, hd'⟩ := h.invits
    refine ⟨hnamed, (goesThrough_of_mem hk).1, ?_, hlimit, ?_, d, hd, fun hkd => ((hd' k).mp hkd).2 hk⟩
    · by_cases hno : ch.pass = []
      · exact .inl hno
      · -- a key that is not empty was supplied
        rw [hpass hno] at hwhich
        exact .inr (hwhich.resolve_left hno)
    · cases hi : ch.optI with
      | false => exact .inl rfl
      | true => exact .inr (hinv hi)
  case creates =>
    rw [h.chs, hnone] at hch
    split at hch
    · cases hch
      have hself : ∀ p, p ∈ (∅ : ExtTreeSet Ptr).insert x ↔ p = x := fun p => by
        rw [mem_insert_iff]
        exact or_iff_left ExtTreeSet.not_mem_empty
      refine ⟨fun p => ?_, hself⟩
      show p ∈ ((∅ : ExtTreeSet Ptr).insert x).insert x ↔ _
      rw [mem_insert_iff, hself, or_self]
    · cases hch
  case keeps =>
    by_cases hk : k ∈ joinNames s x c ar
    · refine ⟨ch.enter x, ?_, fun y hy => ?_, rfl, rfl, rfl, rfl, rfl, rfl⟩
      · rw [h.chs, if_pos hk, hch]
        rfl
      · show y ∈ ch.clis.insert x ↔ _
        rw [mem_insert_iff]
        exact or_iff_right hy
    · exact ⟨ch, by rw [h.chs, if_neg hk, hch], fun _ _ => Iff.rfl, rfl, rfl, rfl, rfl, rfl, rfl⟩

/-! ## The bound -/

theorem nbChannels_le_of_on (h : ∀ k, On s' y k → On s y k) : s'.nbChannels y ≤ s.nbChannels y := by
  rw [nbChannels_eq, nbChannels_eq]
  refine (List.subperm_of_subset (ExtTreeMap.nodup_keys.filter _) fun k hk => ?_).length_le
  simp only [List.mem_filter, decide_eq_true_eq] at hk ⊢
  exact ⟨ExtTreeMap.mem_keys.mpr (mem_of_on (h k hk.2)), h k hk.2⟩

/-- Every client is on few channels. -/
def Bounded (s : Server) : Prop := ∀ y, s.nbChannels y ≤ MAX_CHS_PER_USER

theorem Bounded.of_on (hb : Bounded s) (h : ∀ y k, On s' y k → On s y k) : Bounded s' :=
  fun y => (nbChannels_le_of_on (h y)).trans (hb y)

/-- A line keeps the bound. -/
theorem Bounded.execLine (hb : Bounded s) (hI : Inv s) (hc : s.cliAt x = some c)
    (h : s.execLine x line = .ok s') : Bounded s' := by
  obtain ⟨u, -, rfl, hu, hsafe, hsteps⟩ := execLine_run hI hc h
  have hon := fun y k => (hsteps.on (p := y) (k := k)).1
  have hnote : ∀ y k, On (u.note x (splitCmdToArgs line)) y k ↔ On u y k := fun y k => on_congr rfl
  intro y
  by_cases hjoin : y = x ∧ CmdIs (splitCmdToArgs line) "JOIN" ∧ ¬ PartCmd (splitCmdToArgs line)
  · obtain ⟨rfl, hcmd, hpart⟩ := hjoin
    have hjoined := joined_execJoinRun hI hc hcmd hpart (hsafe.join hcmd)
    have hsame : (u.note y (splitCmdToArgs line)).nbChannels y =
        (execJoinRun s y c (splitCmdToArgs line)).1.nbChannels y := by
      rw [hu, cmdRun_join hcmd]
      exact nbChannels_sendAll
    rw [hsame, hjoined.nbChannels]
    by_cases hgo : GoesThrough c (splitCmdToArgs line)
    · rw [joinNames_eq hgo]
      exact joins_bounded _ _ [] (hb y)
    · rw [List.eq_nil_iff_forall_not_mem.mpr fun k hk => hgo (goesThrough_of_mem hk)]
      exact hb y
  · refine (nbChannels_le_of_on fun k hk => ?_).trans (hb y)
    exact (hon y k ((hnote y k).mp hk)).resolve_right hjoin

theorem Move.bounded {phase phase' : Phase} {i : Input} (h : Move s phase i s' phase') (hg : Good ⟨s, phase⟩)
    (hb : Bounded s) : Bounded s' := by
  have hI : Inv s := hg.inv
  rcases h.cmd_or with ⟨x, line, lines, todo, hphase, hs⟩ | hno
  · obtain ⟨⟨c, hc⟩, -⟩ := hg.author x (line :: lines) todo hphase
    exact hb.execLine hI hc hs
  · exact hb.of_on fun y k => h.on hI hno

theorem Reachable.bounded (h : Reachable srvPass lfd cfg) : Bounded cfg.srv := by
  obtain ⟨is, his⟩ := h
  refine (Runs.run_invariant (I := fun cfg => Good cfg ∧ Bounded cfg.srv) (fun cfg i cfg' hI hstep => ?_) is _
    cfg ⟨good_start srvPass lfd, fun y => ?_⟩ his).2
  · exact ⟨good_step cfg i cfg' hI.1 hstep, (move_of_step hstep).bounded hI.1 hI.2⟩
  · rw [nbChannels_eq]
    exact Nat.zero_le _

/-- **Admission**: in a reachable state every client is on at most five channels, and a `JOIN` line, other
than that which leaves all channels, admits its author to the channels whose tests it passes, and changes
nothing else. -/
theorem join_admits (hr : Reachable srvPass lfd cfg) :
    (∀ y, cfg.srv.nbChannels y ≤ 5) ∧
    ∀ x c line s', cfg.srv.cliAt x = some c → cfg.srv.execLine x line = .ok s' →
      CmdIs (splitCmdToArgs line) "JOIN" → ¬ PartCmd (splitCmdToArgs line) →
      JoinLaw cfg.srv s' x c (splitCmdToArgs line) :=
  ⟨hr.bounded, fun _ _ _ _ hc h hcmd hpart => (afterJoin_execLine hr.good.inv hc h hcmd hpart).law⟩

/-- A client supplies the key of one channel, and creates another. -/
theorem join_admits_key : ∃ cfg c s', Reachable (str "2") 3 cfg ∧ cfg.srv.cliAt bob.addr = some c ∧
    cfg.srv.execLine bob.addr (str "JOIN #c,#d key") = .ok s' ∧
    On s' bob.addr (str "#c") ∧ On s' bob.addr (str "#d") ∧
    JoinLaw cfg.srv s' bob.addr c (splitCmdToArgs (str "JOIN #c,#d key")) := by
  obtain ⟨cfg, hrun, hP⟩ := exists_run (str "2") 3 (connect 0 alice ++
    say 0 0 5 (register "al" ++ str "JOIN #c\r\nMODE #c +k key\r\n") ++ connect 1 bob ++
      say 1 0 3 (register "bo"))
    (fun cfg => (cfg.srv.cliAt bob.addr).isSome &&
      (cfg.srv.execLine bob.addr (str "JOIN #c,#d key")).toOption.any fun s' =>
        On s' bob.addr (str "#c") ∧ On s' bob.addr (str "#d")) (by decide +kernel)
  simp only [Bool.and_eq_true, Option.isSome_iff_exists, Option.any_eq_true, decide_eq_true_eq] at hP
  obtain ⟨⟨c, hc⟩, s', hs', hon, hon'⟩ := hP
  replace hs' := eq_ok_of_toOption hs'
  exact ⟨cfg, c, s', ⟨_, hrun⟩, hc, hs', hon, hon',
    (join_admits ⟨_, hrun⟩).2 _ c _ s' hc hs' (by decide)
      fun h => absurd ((partCmd_join_iff (by decide)).mp h) (by decide)⟩

end FtIrc
