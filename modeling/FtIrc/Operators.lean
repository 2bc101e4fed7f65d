import FtIrc.Authentication
import FtIrc.Meaning.Line
import FtIrc.Meaning.Relay

/-!
# Every channel has an operator

A departure promotes a member when the last operator goes.  `MODE -o` does not, and neither does a
`JOIN` to a channel that everybody has left in this iteration.  `Presided` excludes the two, and they are
all there is to exclude (`headed_execLine_iff`).
-/

namespace FtIrc

open Std Outcome Server

variable {s s' s₀ : Server} {x y p q : Ptr} {ar : List Str} {c d : Cli} {k line : Str} {ch ch' : Ch}
  {who : Str → Ptr} {pass : Str} {lfd : Nat} {cfg cfg' : Config} {i : Input} {phase phase' : Phase}

/-! ## Operators after `MODE` -/

/-- The last option of the list that makes the client an operator, or deposes it. -/
def lastWord (who : Str → Ptr) (os : List (Str × Str)) (q : Ptr) : Option Str :=
  ((os.filter fun o => (o.1 = str "+o" ∨ o.1 = str "-o") ∧ who o.2 = q).getLast?).map (·.1)

/-- The member is an operator after the options. -/
def Stays (who : Str → Ptr) (os : List (Str × Str)) (ch : Ch) (q : Ptr) : Prop :=
  q ∈ ch.clis ∧ (lastWord who os q = some (str "+o") ∨ (lastWord who os q = none ∧ q ∈ ch.adms))

theorem lastWord_append (o : Str × Str) (os : List (Str × Str)) :
    lastWord who (os ++ [o]) q =
      if (o.1 = str "+o" ∨ o.1 = str "-o") ∧ who o.2 = q then some o.1 else lastWord who os q := by
  unfold lastWord
  rw [List.filter_append]
  by_cases ho : (o.1 = str "+o" ∨ o.1 = str "-o") ∧ who o.2 = q
  · rw [if_pos ho, List.filter_singleton, decide_eq_true ho, cond_true, List.getLast?_concat]
    rfl
  · rw [if_neg ho, List.filter_singleton, decide_eq_false ho, cond_false, List.append_nil]

/-- `+o` and `-o` are refused only for a client that is not on the channel. -/
theorem optionReply_none_iff {opt val : Str} (ho : opt = str "+o" ∨ opt = str "-o") :
    optionReply who c ar opt val ch = none ↔ who val ∈ ch.clis := by
  refine ⟨fun h => optionReply_none h ho, fun hon => ?_⟩
  have hl : opt ≠ str "+l" := by
    rcases ho with rfl | rfl <;> decide
  have hk : opt ≠ str "+k" := by
    rcases ho with rfl | rfl <;> decide
  have hopt : opt ∈ modeOpts := by
    rcases ho with rfl | rfl <;> decide
  have hval : opt ∈ modeOptsNoVal := by
    rcases ho with rfl | rfl <;> decide
  unfold optionReply
  rw [if_neg (not_not.mpr hopt), if_neg fun h => h.2 hval, if_neg fun h => hk h.1, if_neg fun h => hl h.1,
    if_neg fun h => h.2 hon, if_neg fun h => hl h.1]

theorem adms_optionDone {opt val : Str} : (optionDone who c ar opt val ch).adms =
    if opt = str "+o" ∧ who val ∈ ch.clis then ch.adms.insert (who val)
    else if opt = str "-o" ∧ who val ∈ ch.clis then ch.adms.erase (who val) else ch.adms := by
  unfold optionDone
  by_cases ho : opt = str "+o" ∨ opt = str "-o"
  · simp only [optionReply_none_iff ho]
    by_cases hon : who val ∈ ch.clis
    · simp only [hon, and_true, if_true, adms_of_optionCh]
    · rw [if_neg hon, if_neg (not_and_of_not_right _ hon), if_neg (not_and_of_not_right _ hon)]
  · have hplus : ¬ (opt = str "+o" ∧ who val ∈ ch.clis) := fun h => ho (.inl h.1)
    have hminus : ¬ (opt = str "-o" ∧ who val ∈ ch.clis) := fun h => ho (.inr h.1)
    rw [if_neg hplus, if_neg hminus]
    split
    · rw [adms_of_optionCh, if_neg fun h => ho (.inl h), if_neg fun h => ho (.inr h)]
    · rfl

/-- What one option does to a member. -/
theorem mem_adms_optionDone {opt val : Str} (hq : q ∈ ch.clis) : q ∈ (optionDone who c ar opt val ch).adms ↔
    if (opt = str "+o" ∨ opt = str "-o") ∧ who val = q then opt = str "+o" else q ∈ ch.adms := by
  rw [adms_optionDone]
  by_cases hval : who val = q
  · subst hval
    by_cases hplus : opt = str "+o"
    · rw [if_pos ⟨hplus, hq⟩, if_pos ⟨.inl hplus, rfl⟩, mem_insert_iff]
      exact iff_of_true (.inl rfl) hplus
    rw [if_neg fun h => hplus h.1]
    by_cases hminus : opt = str "-o"
    · rw [if_pos ⟨hminus, hq⟩, if_pos ⟨.inr hminus, rfl⟩, mem_erase_iff]
      exact iff_of_false (fun h => h.1 rfl) hplus
    · rw [if_neg fun h => hminus h.1, if_neg fun h => h.1.elim hplus hminus]
  · have hno : ¬ ((opt = str "+o" ∨ opt = str "-o") ∧ who val = q) := fun h => hval h.2
    rw [if_neg hno]
    split
    · rw [mem_insert_iff, or_iff_right fun h => hval h.symm]
    · split
      · rw [mem_erase_iff, and_iff_right fun h => hval h.symm]
      · rfl

theorem adms_modeCh_subset : ∀ (os : List (Str × Str)) (ch : Ch), (∀ q ∈ ch.adms, q ∈ ch.clis) →
    ∀ q ∈ (modeCh who c ar os ch).adms, q ∈ ch.clis
  | [], _, hadm => hadm
  | o :: os, ch, hadm => by
    rw [← show (optionDone who c ar o.1 o.2 ch).clis = ch.clis from clis_optionDone]
    refine adms_modeCh_subset os _ fun q hq => ?_
    rw [clis_optionDone]
    rw [adms_optionDone] at hq
    split at hq
    · rename_i ho
      rcases mem_insert_iff.mp hq with rfl | hq
      · exact ho.2
      · exact hadm q hq
    · split at hq
      · exact hadm q (mem_erase_iff.mp hq).2
      · exact hadm q hq

/-- **The operators after a list of options.** -/
theorem mem_adms_modeCh (hadm : ∀ q ∈ ch.adms, q ∈ ch.clis) (os : List (Str × Str)) :
    q ∈ (modeCh who c ar os ch).adms ↔ Stays who os ch q := by
  induction os using List.reverseRecOn with
  | nil => exact ⟨fun h => ⟨hadm q h, .inr ⟨rfl, h⟩⟩, fun h => h.2.elim (fun hno => by cases hno) (·.2)⟩
  | append_singleton os o ih =>
    rw [modeCh_append]
    show q ∈ (optionDone who c ar o.1 o.2 (modeCh who c ar os ch)).adms ↔ _
    have hsub : q ∈ (modeCh who c ar (os ++ [o]) ch).adms → q ∈ ch.clis :=
      adms_modeCh_subset (os ++ [o]) ch hadm q
    rw [modeCh_append] at hsub
    by_cases hq : q ∈ ch.clis
    · rw [mem_adms_optionDone (by rw [clis_modeCh]; exact hq), ih]
      unfold Stays
      rw [lastWord_append]
      split
      · simp [hq]
      · rfl
    · exact iff_of_false (fun h => hq (hsub h)) fun h => hq h.1

/-! ## One command -/

theorem not_headless_iff : ¬ Headless s ↔
    ∀ (k : Str) (ch : Ch), s.chs[k]? = some ch → (∃ q, q ∈ ch.clis) → ∃ q, q ∈ ch.adms := by
  rw [headless_iff]
  push Not
  refine forall_congr' fun k => forall_congr' fun ch => forall_congr' fun _ => ?_
  have hadms : ch.adms.size = 0 ↔ ¬ ∃ q, q ∈ ch.adms := by
    rw [size_eq_zero_iff, not_exists]
  have hclis : ch.clis.size ≤ 0 ↔ ¬ ∃ q, q ∈ ch.clis := by
    rw [Nat.le_zero, size_eq_zero_iff, not_exists]
  rw [hadms, hclis]
  exact not_imp_not

theorem headless_congr (h : s'.chs = s.chs) : Headless s' ↔ Headless s := by
  unfold Headless
  rw [h]

/-- A channel that is written, and has an operator afterwards if it has a member. -/
theorem not_headless_put (hhead : ¬ Headless s) (hch : s.chs[k]? = some ch)
    (h : (∃ q, q ∈ ch'.clis) → ∃ q, q ∈ ch'.adms) : ¬ Headless (s.updCh k fun _ => ch') := by
  rw [not_headless_iff] at hhead ⊢
  intro k' d hd
  rw [getElem?_chs_put hch] at hd
  split at hd
  · cases hd
    exact h
  · exact hhead k' d hd

/-- The other commands leave no channel headless. -/
theorem Effect.headed (hmode : ¬ CmdIs ar "MODE") (hjoin : CmdIs ar "JOIN" → PartCmd ar)
    (h : Effect s₀ x ar s s') (hhead : ¬ Headless s) : ¬ Headless s' := by
  cases h with
  | cli y c c' _ _ => exact hhead
  | mark c _ _ => exact hhead
  | newCh k _ hcmd hpart _ _ _ => exact absurd (hjoin hcmd) hpart
  | ch k ch ch' _ hch heff =>
    cases heff with
    | join hcmd hpart _ _ _ => exact absurd (hjoin hcmd) hpart
    | leave y _ _ =>
      refine not_headless_put hhead hch fun hpos => ?_
      by_contra hno
      rw [not_exists] at hno
      refine drop_headed ch y ⟨size_eq_zero_iff.mpr hno, Nat.pos_of_ne_zero fun h0 => ?_⟩
      obtain ⟨q, hq⟩ := hpos
      exact size_eq_zero_iff.mp h0 q hq
    | topic t _ _ _ => exact not_headless_put hhead hch (not_headless_iff.mp hhead k ch hch)
    | modes _ _ _ _ hcmd _ => exact absurd hcmd hmode
    | addAdm _ _ _ hcmd _ _ _ _ _ _ => exact absurd hcmd hmode
    | delAdm _ hcmd _ => exact absurd hcmd hmode

theorem Steps.headed (hmode : ¬ CmdIs ar "MODE") (hjoin : CmdIs ar "JOIN" → PartCmd ar)
    (h : Steps s₀ x ar s) (hhead : ¬ Headless s₀) : ¬ Headless s := by
  induction h with
  | refl => exact hhead
  | tail _ heff ih => exact heff.headed hmode hjoin ih

/-- What `JOIN` leaves of the operators. -/
structure Entered (s₀ s : Server) (x : Ptr) : Prop where
  old : ∀ (k : Str) (ch : Ch), s₀.chs[k]? = some ch → ∃ ch', s.chs[k]? = some ch' ∧ ch'.adms = ch.adms
  new : ∀ (k : Str) (ch' : Ch), s₀.chs[k]? = none → s.chs[k]? = some ch' → x ∈ ch'.adms

theorem Steps.entered (hcmd : CmdIs ar "JOIN") (hpart : ¬ PartCmd ar) (h : Steps s₀ x ar s) :
    Entered s₀ s x := by
  have hnot : ∀ {l}, CmdIs ar l → str l ≠ str "JOIN" → False := fun h hne => hne (h.unique hcmd)
  induction h with
  | refl => exact ⟨fun k ch hch => ⟨ch, hch, rfl⟩, fun k ch' hno hch => by rw [hno] at hch; cases hch⟩
  | tail _ heff ih =>
    cases heff with
    | cli _ _ _ _ _ => exact ⟨ih.old, ih.new⟩
    | mark _ _ _ => exact ⟨ih.old, ih.new⟩
    | newCh k hreg _ _ _ _ hfresh =>
      refine ⟨fun k' ch hch => ?_, fun k' ch' hno hch => ?_⟩
      · obtain ⟨ch', hch', hadm⟩ := ih.old k' ch hch
        refine ⟨ch', ?_, hadm⟩
        rw [getElem?_chs_insert, if_neg, hch']
        rintro rfl
        exact hfresh k' (mem_chs.mpr ⟨ch', hch'⟩) rfl
      · rw [getElem?_chs_insert] at hch
        split at hch
        · cases hch
          show x ∈ (∅ : ExtTreeSet Ptr).insert x
          exact mem_insert_iff.mpr (.inl rfl)
        · exact ih.new k' ch' hno hch
    | ch k ch ch' _ hch heff =>
      have hadm : ch'.adms = ch.adms := by
        cases heff with
        | join _ _ _ _ _ => rfl
        | leave _ _ hleave =>
          rcases hleave with ⟨h, -⟩ | ⟨h, -⟩
          · exact absurd h hpart
          · exact (hnot h (by decide)).elim
        | topic _ h _ _ => exact (hnot h (by decide)).elim
        | modes _ _ _ _ h _ => exact (hnot h (by decide)).elim
        | addAdm _ _ _ h _ _ _ _ _ _ => exact (hnot h (by decide)).elim
        | delAdm _ h _ => exact (hnot h (by decide)).elim
      refine ⟨fun k' d hd => ?_, fun k' d' hno hd => ?_⟩
      · obtain ⟨e, he, hadm'⟩ := ih.old k' d hd
        rw [getElem?_chs_put hch]
        split
        · rename_i hk
          rw [hk, hch] at he
          cases he
          exact ⟨ch', rfl, hadm.trans hadm'⟩
        · exact ⟨e, he, hadm'⟩
      · rw [getElem?_chs_put hch] at hd
        split at hd
        · rename_i hk
          cases hd
          rw [hadm]
          exact ih.new k' ch hno (hk ▸ hch)
        · exact ih.new k' d' hno hd

/-- The commands that leave every channel with an operator. -/
structure Presided (s : Server) (x : Ptr) (c : Cli) (ar : List Str) : Prop where
  /-- `MODE` does not depose the last operator -/
  mode : CmdIs ar "MODE" → c.registered = true → ∀ ch, s.chs[argD ar 1]? = some ch → x ∈ ch.adms →
    ∃ q, Stays s.getCli (modePairs ar ar.length 2) ch q
  /-- `JOIN` enters no channel that everybody has left -/
  join : CmdIs ar "JOIN" → ∀ name ∈ joinNames s x c ar, ∀ ch, s.chs[name]? = some ch → ∃ q, q ∈ ch.clis

theorem headed_mode_iff (hI : Inv s) (hhead : ¬ Headless s) :
    ¬ Headless (modeRun s x c ar).1 ↔ (c.registered = true → ∀ ch, s.chs[argD ar 1]? = some ch → x ∈ ch.adms →
      ∃ q, Stays s.getCli (modePairs ar ar.length 2) ch q) := by
  by_cases hop : c.registered = true ∧ Op s x (argD ar 1)
  · obtain ⟨hreg, ch, hch, hx⟩ := hop
    have hname := hI.ch_name _ (mem_chs.mpr ⟨ch, hch⟩)
    have h1 : ¬ ar.length ≤ 1 := fun hle => by
      have hlong := hname.long
      rw [argD_of_length hle] at hlong
      exact absurd hlong (by decide)
    have hrun : (modeRun s x c ar).1 =
        s.updCh (argD ar 1) fun _ => modeCh s.getCli c ar (modePairs ar ar.length 2) ch := by
      unfold modeRun registeredRun modeDone
      rw [if_neg h1, if_pos hname.hash, if_neg (by simp [hreg]), if_pos ⟨ch, hch, hx⟩, updCh_const hch]
    rw [hrun]
    constructor
    · intro h _ d hd _
      rw [hch] at hd
      cases hd
      rw [not_headless_iff] at h
      obtain ⟨q, hq⟩ := h (argD ar 1) _ (by rw [getElem?_chs_put hch, if_pos rfl])
        ⟨x, by rw [clis_modeCh]; exact hI.adm _ ch hch x hx⟩
      exact ⟨q, (mem_adms_modeCh (hI.adm _ ch hch) _).mp hq⟩
    · intro h
      obtain ⟨q, hq⟩ := h hreg ch hch hx
      exact not_headless_put hhead hch fun _ => ⟨q, (mem_adms_modeCh (hI.adm _ ch hch) _).mpr hq⟩
  · have hrun : (modeRun s x c ar).1 = s := by
      unfold modeRun registeredRun modeDone
      repeat' split
      all_goals first
        | rfl
        | (rename_i hreg ho
           exact absurd ⟨by simpa using hreg, ho⟩ hop)
    rw [hrun]
    exact iff_of_true hhead fun hreg ch hch hx => absurd ⟨hreg, ch, hch, hx⟩ hop

theorem headed_join_iff (hI : Inv s) (hhead : ¬ Headless s)
    (hjoined : Joined s s' x c (joinNames s x c ar)) (hentered : Entered s s' x) :
    ¬ Headless s' ↔ ∀ name ∈ joinNames s x c ar, ∀ ch, s.chs[name]? = some ch → ∃ q, q ∈ ch.clis := by
  constructor
  · intro h name hname ch hch
    obtain ⟨ch', hch', hx⟩ := hjoined.on name hname
    obtain ⟨d, hd, hadm⟩ := hentered.old name ch hch
    rw [hch'] at hd
    cases hd
    obtain ⟨q, hq⟩ := not_headless_iff.mp h name ch' hch' ⟨x, hx⟩
    exact ⟨q, hI.adm name ch hch q (hadm ▸ hq)⟩
  · intro h
    rw [not_headless_iff]
    intro k ch' hch' hpos
    by_cases hk : k ∈ joinNames s x c ar
    · cases hch : s.chs[k]? with
      | none => exact ⟨x, hentered.new k ch' hch hch'⟩
      | some ch =>
        obtain ⟨d, hd, hadm⟩ := hentered.old k ch hch
        rw [hch'] at hd
        cases hd
        rw [hadm]
        exact not_headless_iff.mp hhead k ch hch (h k hk ch hch)
    · rw [hjoined.other k hk] at hch'
      exact not_headless_iff.mp hhead k ch' hch' hpos

/-- **A command leaves every channel with an operator exactly if it is `Presided`.** -/
theorem headed_execLine_iff (hI : Inv s) (hc : s.cliAt x = some c) (h : s.execLine x line = .ok s')
    (hhead : ¬ Headless s) : ¬ Headless s' ↔ Presided s x c (splitCmdToArgs line) := by
  obtain ⟨u, -, rfl, hu, hsafe, hsteps⟩ := execLine_run hI hc h
  generalize splitCmdToArgs line = ar at hu hsafe hsteps ⊢
  rw [show Headless (u.note x ar) ↔ Headless u from Iff.rfl]
  by_cases hmode : CmdIs ar "MODE"
  · have hjoin : ¬ CmdIs ar "JOIN" := fun h => absurd (h.unique hmode) (by decide)
    rw [cmdRun_mode hmode] at hu
    rw [hu, headless_congr chs_sendAll, headed_mode_iff hI hhead]
    exact ⟨fun h => ⟨fun _ => h, fun hj => absurd hj hjoin⟩, fun h => h.mode hmode⟩
  by_cases hjoin : CmdIs ar "JOIN" ∧ ¬ PartCmd ar
  · have hjoined := joined_execJoinRun hI hc hjoin.1 hjoin.2 (hsafe.join hjoin.1)
    rw [cmdRun_join hjoin.1] at hu
    have hentered := hsteps.entered hjoin.1 hjoin.2
    have hchs : u.chs = (execJoinRun s x c ar).1.chs := by rw [hu, chs_sendAll]
    have hentered' : Entered s (execJoinRun s x c ar).1 x := by
      refine ⟨fun k ch hch => ?_, fun k ch' hno hch => ?_⟩
      · rw [← hchs]
        exact hentered.old k ch hch
      · rw [← hchs] at hch
        exact hentered.new k ch' hno hch
    rw [headless_congr hchs, headed_join_iff hI hhead hjoined hentered']
    exact ⟨fun h => ⟨fun hm => absurd hm hmode, fun _ => h⟩, fun h => h.join hjoin.1⟩
  · refine iff_of_true (hsteps.headed hmode (fun hj => not_not.mp fun hp => hjoin ⟨hj, hp⟩) hhead)
      ⟨fun hm => absurd hm hmode, fun hj name hname ch hch => ?_⟩
    -- `JOIN 0` joins nothing
    have hpart := (partCmd_join_iff hj).mp (not_not.mp fun hp => hjoin ⟨hj, hp⟩)
    unfold joinNames at hname
    rw [if_pos (.inr (.inr (.inl hpart)))] at hname
    cases hname

/-! ## The runs -/

/-- The command, if there is one, is `Presided`. -/
def Presides (cfg : Config) (i : Input) : Prop := i = .next →
  ∀ x line lines todo c, cfg.phase = .cmds x (line :: lines) todo → cfg.srv.cliAt x = some c →
    Presided cfg.srv x c (splitCmdToArgs line)

/-- **Every transition leaves every channel with an operator.** -/
theorem Move.headed (h : Move s phase i s' phase') (hg : Good ⟨s, phase⟩) (hhead : ¬ Headless s)
    (hpres : Presides ⟨s, phase⟩ i) : ¬ Headless s' := by
  have hI : Inv s := hg.inv
  cases h with
  | clis s' hs =>
    unfold eraseUnusedClis at hs
    cases hloop : eraseClisLoop s.fdsToErase.toList s with
    | error e =>
      rw [hloop] at hs
      cases hs
    | ok r =>
      rw [hloop] at hs
      cases hs
      exact (eraseClisLoop_facts hI hloop).2.2 hhead
  | chs s' freed hs =>
    rw [eraseUnusedChs_ok hI] at hs
    cases hs
    rw [not_headless_iff] at hhead ⊢
    intro k ch hch
    refine hhead k ch ?_
    rw [ExtTreeMap.getElem?_filter', Option.filter_eq_some_iff] at hch
    exact hch.1
  | recv fd r todo c chunk s' lines _ hc _ hs =>
    rw [receiveBuf_ok hI (cliAt_of_clis hI hc)] at hs
    cases hs
    exact hhead
  | send fd r todo c n d s' _ _ hc _ _ hs =>
    rw [sendPreparedResps_eq hI (cliAt_of_clis hI hc)] at hs
    cases hs
    exact hhead
  | cmd x line lines todo s' hs =>
    obtain ⟨⟨c, hc⟩, -⟩ := hg.author x (line :: lines) todo rfl
    exact (headed_execLine_iff hI hc hs hhead).mpr (hpres rfl x line lines todo c rfl hc)
  | _ => exact hhead

/-- **In the runs whose commands are all `Presided`, every channel has an operator at every `poll`.** -/
theorem operator_at_poll (is : List Input) (h : Runs.Along step Presides is (start pass lfd))
    (hrun : runServer pass lfd is = .ok cfg) (hpoll : cfg.phase = .poll) :
    ∀ (k : Str) (ch : Ch), cfg.srv.chs[k]? = some ch → ∃ q, q ∈ ch.adms := by
  obtain ⟨hg, hhead⟩ := Runs.along_invariant (I := fun cfg => Good cfg ∧ ¬ Headless cfg.srv)
    (fun cfg i cfg' hI hP hstep => ⟨good_step cfg i cfg' hI.1 hstep,
      (move_of_step hstep).headed hI.1 hI.2 hP⟩) is _ cfg
    ⟨good_start pass lfd, not_headless_iff.mpr fun k ch hch => by cases hch⟩ h hrun
  intro k ch hch
  refine not_headless_iff.mp hhead k ch hch ?_
  by_contra hno
  rw [not_exists] at hno
  exact hg.peopled (.inr hpoll) k ch hch (size_eq_zero_iff.mpr hno)

/-- The creator of a channel leaves it to another client. -/
def handedOver : List Input := connect 0 alice ++ connect 1 bob ++ say 0 1 4 (register "al" ++ str "JOIN #c\r\n") ++
  say 1 0 4 (register "bo" ++ str "JOIN #c\r\n") ++ drain 0 1 198 ++ say 0 1 1 (str "PART #c\r\n") ++
  [.next, .next, .next]

theorem operator_at_poll_part : ∃ cfg, runServer (str "2") 3 handedOver = .ok cfg ∧
    ¬ On cfg.srv alice.addr (str "#c") ∧ Op cfg.srv bob.addr (str "#c") := by
  obtain ⟨cfg, hrun, hP⟩ := exists_run (str "2") 3 handedOver
    (fun cfg => cfg.polling && (cfg.srv.chs[str "#c"]?).any fun ch : Ch => ch.clis.toList = [bob.addr])
    (by decide +kernel)
  rw [Bool.and_eq_true, Option.any_eq_true] at hP
  obtain ⟨hpoll, ch, hch, hclis⟩ := hP
  have hmembers : ∀ p, p ∈ ch.clis ↔ p = bob.addr := fun p => by
    rw [← ExtTreeSet.mem_toList, of_decide_eq_true hclis, List.mem_singleton]
  have hcond : Runs.Along step Presides handedOver (start (str "2") 3) := by
    refine Runs.along_of_check (P := fun cfg _ => cfg.upcoming.all fun m => (cfg.srv.cliAt m.1).all fun c =>
      ¬ CmdIs (splitCmdToArgs m.2) "MODE" ∧ (joinNames cfg.srv m.1 c (splitCmdToArgs m.2)).all fun name =>
        (cfg.srv.chs[name]?).all fun ch : Ch => ch.clis.toList ≠ []) ?_ _ _ (by decide +kernel)
    intro cfg i h _ x line lines todo c hphase hc
    rw [Config.upcoming_eq_some.mpr ⟨lines, todo, hphase⟩] at h
    simp only [hc, Option.all_some, decide_eq_true_eq, List.all_eq_true] at h
    refine ⟨fun hm => absurd hm h.1, fun _ name hname ch hch => ?_⟩
    have hsome := h.2 name hname
    rw [hch, Option.all_some, decide_eq_true_eq] at hsome
    obtain ⟨q, hq⟩ := List.exists_mem_of_ne_nil _ hsome
    exact ⟨q, ExtTreeSet.mem_toList.mp hq⟩
  obtain ⟨q, hq⟩ := operator_at_poll handedOver hcond hrun (Config.polling_iff.mp hpoll) _ ch hch
  have hqb := (hmembers q).mp ((show Reachable (str "2") 3 cfg from ⟨_, hrun⟩).good.inv.adm _ ch hch q hq)
  refine ⟨cfg, hrun, fun hon => ?_, ch, hch, hqb ▸ hq⟩
  exact absurd ((hmembers _).mp ((on_iff hch).mp hon)) (by decide)

/-- An operator deposes itself. -/
theorem operator_deposed : ¬ ∀ (pass : Str) (lfd : Nat) (cfg : Config), Reachable pass lfd cfg →
    cfg.phase = .poll → ∀ (k : Str) (ch : Ch), cfg.srv.chs[k]? = some ch → ∃ q, q ∈ ch.adms := by
  intro hall
  obtain ⟨cfg, hrun, hP⟩ := exists_run (str "2") 3 (connect 0 alice ++
    say 0 0 5 (register "al" ++ str "JOIN #c\r\nMODE #c -o al\r\n") ++ [.next, .next, .next])
    (fun cfg => cfg.polling && (cfg.srv.chs[str "#c"]?).any fun ch => ch.adms.size = 0)
    (by decide +kernel)
  rw [Bool.and_eq_true, Option.any_eq_true] at hP
  obtain ⟨hpoll, ch, hch, hsize⟩ := hP
  rw [decide_eq_true_eq, size_eq_zero_iff] at hsize
  obtain ⟨q, hq⟩ := hall _ _ cfg ⟨_, hrun⟩ (Config.polling_iff.mp hpoll) _ ch hch
  exact hsize q hq

end FtIrc
