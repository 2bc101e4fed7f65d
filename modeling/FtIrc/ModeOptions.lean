import FtIrc.Lib.LastSet
import FtIrc.Meaning.Line

/-!
# The options of a MODE line

`Moded` is what the line of an operator leaves: the channel, and nothing else, has changed.  Of the channel it
leaves what the options set that are read on it (`Configured`), each of which is executed with the second word
behind the name, `ar[3]`, as its argument (`configured_line`).
-/

namespace FtIrc

open Std Outcome Server LastSet

variable {s s' : Server} {x : Ptr} {ar : List Str} {c : Cli} {k line val opt v : Str} {ch ch' : Ch} {who : Str → Ptr}
  {os : List (Str × Str)}

/-! ## One line -/

/-- A `MODE` line of an operator of `k` has made `ch'` of the channel. -/
structure Moded (s s' : Server) (k : Str) (ch' : Ch) : Prop where
  inv : Inv s'
  chs : ∀ j, s'.chs[j]? = if j = k then some ch' else s.chs[j]?
  clis : ∀ y d, s.cliAt y = some d → ∃ d', s'.cliAt y = some d' ∧ d'.registered = d.registered ∧ d'.invits = d.invits
  who : s'.getCli = s.getCli

/-- **A MODE line of an operator** goes well, and its options run on the channel. -/
theorem execLine_mode (hI : Inv s) (hc : s.cliAt x = some c) (hch : s.chs[k]? = some ch) (hop : x ∈ ch.adms)
    (hcmd : CmdIs (splitCmdToArgs line) "MODE") (ha1 : (splitCmdToArgs line)[1]? = some k) :
    ∃ s', s.execLine x line = .ok s' ∧ Moded s s' k (modeCh s.getCli c (splitCmdToArgs line)
      (modePairs (splitCmdToArgs line) (splitCmdToArgs line).length 2) ch) := by
  obtain ⟨e, he, hreg⟩ := hI.member k ch hch x (hI.adm k ch hch x hop)
  rw [hc] at he
  cases he
  have hk : k ∈ s.chs := mem_chs.mpr ⟨ch, hch⟩
  have hsafe : CmdSafe s x (splitCmdToArgs line) := by
    have hnamed : NamedOk s x (splitCmdToArgs line) := (namedOk_iff ⟨c, hc, hreg⟩ ha1).mpr fun _ => hk
    exact (cmdSafe_mode hcmd).mpr fun _ => hnamed
  obtain ⟨s', hs'⟩ := (execLine_ok_iff hI hc).mpr hsafe
  have hinv := execLine_inv hI hc hs'
  refine ⟨s', hs', ?_⟩
  obtain ⟨u, -, rfl, rfl, -, -⟩ := execLine_run hI hc hs'
  generalize splitCmdToArgs line = ar at hcmd ha1 hinv ⊢
  have hlen := (List.getElem?_eq_some_iff.mp ha1).1
  have hrun : cmdRun s x c ar = (s.updCh k fun _ => modeCh s.getCli c ar (modePairs ar ar.length 2) ch,
      modeChMail s x c ar) := by
    rw [cmdRun_mode hcmd]
    unfold modeRun registeredRun modeDone
    rw [if_neg (by omega), argD_of_getElem? ha1, if_pos (hI.ch_name k hk).hash, if_neg (by simp [hreg]),
      if_pos ((op_iff hch).mpr hop), updCh_const hch]
  rw [hrun] at hinv ⊢
  refine ⟨hinv, fun j => ?_, fun y d hd => ?_, funext fun n => ?_⟩
  · rw [chs_note, chs_sendAll, getElem?_chs_put hch]
  · rw [cliAt_note, cliAt_sendAll, cliAt_updCh, hd]
    split <;> exact ⟨_, rfl, rfl, rfl⟩
  · unfold Server.note
    rw [getCli_updCli (note_keepsAddr ar) (fun _ => rfl), getCli_sendAll, getCli_updCh]

/-! ## What options set -/

/-- The key after an option. -/
def keyAfter (key : Str) (o : Str × Str) : Str :=
  if o.1 = str "+k" ∧ o.2 ≠ [] ∧ key = [] then o.2 else if o.1 = str "-k" then [] else key

/-- The limit that an argument stands for. -/
def limitOf (a : Str) : Option Nat :=
  if a ≠ [] ∧ ¬ badLimit (atoi a) (atoi a) then some (toUInt32 (toInt32 (strtol a))) else none

/-- The limit that an option sets. -/
def limitSet (o : Str × Str) : Option Nat :=
  if o.1 = str "-l" then some UINT_MAX else if o.1 = str "+l" then limitOf o.2 else none

/-- The value that an option gives to a flag. -/
def flagSet (l : Str) (o : Str × Str) : Option Bool :=
  if o.1 = str "+" ++ l then some true else if o.1 = str "-" ++ l then some false else none

/-- What an option makes of the member `p`. -/
def opSet (who : Str → Ptr) (members : ExtTreeSet Ptr) (p : Ptr) (o : Str × Str) : Option Bool :=
  if who o.2 = p ∧ p ∈ members then
    if o.1 = str "+o" then some true else if o.1 = str "-o" then some false else none
  else none

/-- The options `os` have made `ch'` of the channel `ch`. -/
structure Configured (who : Str → Ptr) (os : List (Str × Str)) (ch ch' : Ch) : Prop where
  clis : ch'.clis = ch.clis
  pass : ch'.pass = os.foldl keyAfter ch.pass
  limit : ch'.limit = lastSet limitSet os ch.limit
  optI : ch'.optI = lastSet (flagSet (str "i")) os ch.optI
  optT : ch'.optT = lastSet (flagSet (str "t")) os ch.optT
  adms : ∀ p, decide (p ∈ ch'.adms) = lastSet (opSet who ch.clis p) os (decide (p ∈ ch.adms))

theorem Configured.nil : Configured who [] ch ch := ⟨rfl, rfl, rfl, rfl, rfl, fun _ => rfl⟩

theorem Configured.append {os' : List (Str × Str)} {ch'' : Ch} (h : Configured who os ch ch')
    (h' : Configured who os' ch' ch'') : Configured who (os ++ os') ch ch'' := by
  refine ⟨h'.clis.trans h.clis, ?_, ?_, ?_, ?_, fun p => ?_⟩
  · rw [h'.pass, h.pass, List.foldl_append]
  · rw [h'.limit, h.limit, lastSet_append]
  · rw [h'.optI, h.optI, lastSet_append]
  · rw [h'.optT, h.optT, lastSet_append]
  · rw [h'.adms, h.adms, h.clis, lastSet_append]

/-- An option that is executed, in terms of what it sets. -/
theorem Configured.one (hclis : ch'.clis = ch.clis) (hpass : ch'.pass = keyAfter ch.pass (opt, val))
    (hlimit : ch'.limit = (limitSet (opt, val)).getD ch.limit)
    (hI : ch'.optI = (flagSet (str "i") (opt, val)).getD ch.optI)
    (hT : ch'.optT = (flagSet (str "t") (opt, val)).getD ch.optT)
    (hadms : ∀ p, decide (p ∈ ch'.adms) = (opSet who ch.clis p (opt, val)).getD (decide (p ∈ ch.adms))) :
    Configured who [(opt, val)] ch ch' := by
  refine ⟨hclis, hpass, ?_, ?_, ?_, fun p => ?_⟩ <;> rw [lastSet_cons, lastSet_nil]
  · exact hlimit
  · exact hI
  · exact hT
  · exact hadms p

theorem configured_unknown (hopt : opt ∉ modeOpts) :
    Configured who [(opt, val)] ch (optionDone who c ar opt val ch) := by
  have hne : ∀ o ∈ modeOpts, opt ≠ o := fun o ho he => hopt (he ▸ ho)
  simp only [modeOpts, List.forall_mem_cons] at hne
  obtain ⟨h1, h2, h3, h4, h5, h6, h7, h8, h9, h10, -⟩ := hne
  have hflag : ∀ l, opt ≠ str "+" ++ l → opt ≠ str "-" ++ l → flagSet l (opt, val) = none := by
    intro l hon hoff
    unfold flagSet
    rw [if_neg hon, if_neg hoff]
  have hsame : optionDone who c ar opt val ch = ch := by
    unfold optionDone optionReply
    rw [if_pos hopt]
    rfl
  rw [hsame]
  apply Configured.one rfl
  · simp only [keyAfter, h7, h8, false_and, if_false]
  · simp only [limitSet, h5, h6, if_false, Option.getD_none]
  · rw [hflag (str "i") h1 h2, Option.getD_none]
  · rw [hflag (str "t") h3 h4, Option.getD_none]
  · intro p
    simp only [opSet, h9, h10, if_false, ite_self, Option.getD_none]

/-- A key is set where there is none. -/
theorem configured_key : Configured who [(str "+k", val)] ch (optionDone who c ar (str "+k") val ch) := by
  by_cases hv : val = []
  · subst hv
    apply Configured.one <;> simp +decide [optionDone, optionReply, keyAfter, limitSet, flagSet, opSet]
  by_cases hkey : ch.pass = [] <;> apply Configured.one <;>
    simp +decide [optionDone, optionReply, optionCh, keyAfter, limitSet, flagSet, opSet, hv, hkey]

/-- A limit is tested with `ar[3]`, here its own value. -/
theorem configured_limit (hl : val ≠ [] → argD ar 3 = val) :
    Configured who [(str "+l", val)] ch (optionDone who c ar (str "+l") val ch) := by
  by_cases hv : val = []
  · subst hv
    apply Configured.one <;> simp +decide [optionDone, optionReply, keyAfter, limitSet, limitOf, flagSet, opSet]
  have h3 := hl hv
  by_cases hbad : badLimit (atoi val) (atoi val)
  · apply Configured.one <;>
      simp +decide [optionDone, optionReply, keyAfter, limitSet, limitOf, flagSet, opSet, hv, h3, hbad]
  · have hgood : 0 ≤ atoi val ∧ toUInt32 (atoi val) ≤ UINT_MAX := by
      unfold badLimit at hbad
      omega
    apply Configured.one <;>
      simp +decide [optionDone, optionReply, optionCh, keyAfter, limitSet, limitOf, flagSet, opSet, hv, h3, hbad, hgood]

/-- A member is made an operator, or is no longer one. -/
theorem configured_operator (ho : opt = str "+o" ∨ opt = str "-o") :
    Configured who [(opt, val)] ch (optionDone who c ar opt val ch) := by
  have hreply : optionReply who c ar opt val ch = none ↔ who val ∈ ch.clis := by
    rcases ho with rfl | rfl <;> simp +decide [optionReply]
  have hset : ∀ p, opSet who ch.clis p (opt, val) =
      if who val = p ∧ p ∈ ch.clis then some (decide (opt = str "+o")) else none := by
    intro p
    rcases ho with rfl | rfl <;> simp +decide [opSet]
  have hadms : (optionCh who opt val ch).adms =
      if opt = str "+o" then ch.adms.insert (who val) else ch.adms.erase (who val) := by
    rw [adms_of_optionCh]
    rcases ho with rfl | rfl <;> simp +decide
  by_cases hin : who val ∈ ch.clis
  · have hdone : optionDone who c ar opt val ch = optionCh who opt val ch := if_pos (hreply.mpr hin)
    rw [hdone]
    apply Configured.one clis_optionCh
    case hadms =>
      intro p
      rw [hset]
      by_cases hp : who val = p
      · subst hp
        rw [if_pos ⟨rfl, hin⟩, Option.getD_some, decide_eq_decide, hadms]
        split
        · rename_i h
          exact iff_of_true (mem_insert_iff.mpr (.inl rfl)) h
        · rename_i h
          exact iff_of_false (fun hm => (mem_erase_iff.mp hm).1 rfl) h
      · rw [if_neg (fun h : who val = p ∧ _ => hp h.1), Option.getD_none, decide_eq_decide, hadms]
        split
        · rw [mem_insert_iff]
          exact or_iff_right (Ne.symm hp)
        · rw [mem_erase_iff]
          exact and_iff_right (Ne.symm hp)
    all_goals rcases ho with rfl | rfl <;> simp +decide [optionCh, keyAfter, limitSet, flagSet]
  · have hdone : optionDone who c ar opt val ch = ch := if_neg fun h => hin (hreply.mp h)
    rw [hdone]
    apply Configured.one rfl
    case hadms =>
      intro p
      rw [hset, if_neg (fun h : who val = p ∧ p ∈ ch.clis => hin (h.1 ▸ h.2)), Option.getD_none]
    all_goals rcases ho with rfl | rfl <;> simp +decide [keyAfter, limitSet, flagSet]

/-- **One option**, which is tested with its own value. -/
theorem configured_optionDone (who : Str → Ptr) (c : Cli) (ch : Ch) (hl : opt = str "+l" → val ≠ [] → argD ar 3 = val) :
    Configured who [(opt, val)] ch (optionDone who c ar opt val ch) := by
  by_cases hopt : opt ∈ modeOpts
  swap
  · exact configured_unknown hopt
  simp only [modeOpts, List.mem_cons, List.not_mem_nil, or_false] at hopt
  rcases hopt with rfl | rfl | rfl | rfl | rfl | rfl | rfl | rfl | rfl | rfl
  case inr.inr.inr.inr.inl => exact configured_limit (hl rfl)
  case inr.inr.inr.inr.inr.inr.inl => exact configured_key
  case inr.inr.inr.inr.inr.inr.inr.inr.inl => exact configured_operator (.inl rfl)
  case inr.inr.inr.inr.inr.inr.inr.inr.inr => exact configured_operator (.inr rfl)
  all_goals
    apply Configured.one <;> simp +decide [optionDone, optionReply, optionCh, keyAfter, limitSet, flagSet, opSet]

theorem configured_modeCh : ∀ (os : List (Str × Str)) (ch : Ch),
    (∀ o ∈ os, o.1 = str "+l" → o.2 ≠ [] → argD ar 3 = o.2) → Configured who os ch (modeCh who c ar os ch)
  | [], _, _ => .nil
  | o :: os, ch, hl => by
    have hone := configured_optionDone who c ch (hl o (List.mem_cons_self ..))
    exact hone.append (configured_modeCh os _ fun o' ho' => hl o' (List.mem_cons_of_mem _ ho'))

/-! ## Options and their arguments -/

/-- The words behind the name of the channel as options: `+k`, `+l`, `+o` and `-o` have the next word for an
argument, if there is one. -/
def optionsRead : List Str → List (Str × Option Str)
  | [] => []
  | [w] => [(w, none)]
  | w :: a :: ws => if w ∈ modeOptsArg then (w, some a) :: optionsRead ws else (w, none) :: optionsRead (a :: ws)

/-- The option with the argument `v`, if it has one. -/
def withArg (v : Str) (o : Str × Option Str) : Str × Str := (o.1, if o.2.isSome then v else [])

/-- The option with its own argument. -/
def withOwn (o : Str × Option Str) : Str × Str := (o.1, o.2.getD [])

/-- What is executed: a list of nicks item by item. -/
def executed (os : List (Str × Str)) : List (Str × Str) := os.flatMap fun o => optPairs o.1 o.2

theorem executed_cons (o : Str × Str) : executed (o :: os) = optPairs o.1 o.2 ++ executed os := rfl

/-- The options of a line are executed with `ar[3]` as the argument of each. -/
theorem modePairs_eq (ar : List Str) : ∀ n i, ar.length ≤ i + n →
    modePairs ar n i = executed ((optionsRead (ar.drop i)).map (withArg (argD ar 3)))
  | 0, i, h => by
    have hnil : ar.drop i = [] := List.drop_eq_nil_of_le h
    rw [hnil]
    rfl
  | n + 1, i, h => by
    rw [modePairs]
    split
    case isFalse hlt =>
      rw [List.drop_eq_nil_of_le (Nat.not_lt.mp hlt)]
      rfl
    case isTrue hlt =>
      have hnext := modePairs_eq ar n (i + 1) (by omega)
      have hnext₂ := modePairs_eq ar n (i + 2) (by omega)
      have harg : argD ar i = ar[i] := argD_of_getElem? (List.getElem?_eq_getElem hlt)
      rw [harg, List.drop_eq_getElem_cons hlt]
      by_cases hlast : i + 1 < ar.length
      · rw [List.drop_eq_getElem_cons hlast] at hnext ⊢
        rw [optionsRead]
        by_cases ho : ar[i] ∈ modeOptsArg
        · have hval : optVal ar i = argD ar 3 := if_pos ⟨by omega, harg ▸ ho⟩
          rw [if_pos ho, if_pos ho, hval, hnext₂]
          rfl
        · have hval : optVal ar i = [] := if_neg fun h => ho (harg ▸ h.2)
          rw [if_neg ho, if_neg ho, hval, hnext]
          rfl
      · -- the last word has no argument
        have hval : optVal ar i = [] := if_neg fun h => hlast (by omega)
        have hone : ar.drop (i + 1) = [] := List.drop_eq_nil_of_le (by omega)
        have htwo : ar.drop (i + 2) = [] := List.drop_eq_nil_of_le (by omega)
        have hrest : modePairs ar n (if ar[i] ∈ modeOptsArg then i + 2 else i + 1) = [] := by
          split
          · rw [hnext₂, htwo]
            rfl
          · rw [hnext, hone]
            rfl
        rw [hone, hval, hrest]
        rfl

/-- The value of a limit is the argument. -/
theorem executed_limit {o : Str × Option Str} {e : Str × Str} (he : e ∈ optPairs o.1 (withArg v o).2)
    (hl : e.1 = str "+l") (hne : e.2 ≠ []) : v = e.2 := by
  unfold optPairs at he
  split at he
  · rename_i ho
    obtain ⟨w, -, rfl⟩ := List.mem_map.mp he
    rcases ho.1 with h | h <;> exact absurd (hl.symm.trans h) (by decide)
  · rw [List.mem_singleton.mp he] at hne ⊢
    unfold withArg at hne ⊢
    by_cases ho : o.2.isSome = true
    · exact (if_pos ho).symm
    · exact absurd (if_neg ho) hne

/-- **The options of a line**, all with the argument `ar[3]`. -/
theorem configured_line (who : Str → Ptr) (c : Cli) (ch : Ch) (ar : List Str) :
    Configured who (executed ((optionsRead (ar.drop 2)).map (withArg (argD ar 3)))) ch
      (modeCh who c ar (modePairs ar ar.length 2) ch) := by
  rw [modePairs_eq ar ar.length 2 (by omega)]
  refine configured_modeCh _ _ fun e he hl hne => ?_
  obtain ⟨o', ho', he⟩ := List.mem_flatMap.mp he
  obtain ⟨o, -, rfl⟩ := List.mem_map.mp ho'
  exact executed_limit he hl hne

end FtIrc
