import FtIrc.Exec.Operator

/-!
# Executing MODE

`execModeCh` looks the channel up once; after that nothing can fail, whatever the options are
(`modeLoop_done`).
-/

namespace FtIrc

open Std Outcome Server

variable {s₀ s s' : Server} {x y : Ptr} {ar : List Str} {c d : Cli} {k a1 opt val : Str} {ch : Ch}

/-- What the option loop keeps: the channel is there. -/
def ModeMid (s₀ : Server) (x : Ptr) (ar : List Str) (c : Cli) (a1 : Str) (s : Server) : Prop :=
  Mid s₀ x ar c s ∧ a1 ∈ s.chs

/-- The value of an option is empty, `ar[3]` or an item of it. -/
def ModeVal (ar : List Str) (val : Str) : Prop :=
  val = [] ∨ ∃ a, ar[3]? = some a ∧ (val = a ∨ val ∈ splitArgToSubargs a)

theorem modeVal_free (hA : TidyArgs ar) (h : ModeVal ar val) : CrlfFree val := by
  rcases h with rfl | ⟨a, ha, rfl | hv⟩
  · exact crlfFree_nil
  · exact tidyArgs_get hA ha
  · exact subarg_free hA ha hv

theorem modeVal_arg (h : ModeVal ar val) (hne : val ≠ []) : ∃ a, ar[3]? = some a := by
  rcases h with h | ⟨a, ha, -⟩
  · exact absurd h hne
  · exact ⟨a, ha⟩

theorem setCh_done (h : Mid s₀ x ar c s) (hx : IsReg s₀ x) (hch : s.chs[a1]? = some ch) {g : Ch → Ch}
    (heff : ChEffect s₀ x ar s a1 ch (g ch)) : Done (ModeMid s₀ x ar c a1) (s.setCh a1 g) := by
  have hk : a1 ∈ s.chs := mem_chs.mpr ⟨ch, hch⟩
  rw [setCh_ok (getCh_self h.inv hk)]
  exact done_ok ⟨h.updCh hx hch heff, (mem_chs_updCh _).mpr hk⟩

theorem applyOption_done (h : Mid s₀ x ar c s) (hx : IsReg s₀ x) (hcmd : CmdIs ar "MODE")
    (hop : Op s₀ x a1) (hch : s.chs[a1]? = some ch)
    (hadd : opt = str "+o" → s.getCli val ∈ ch.clis ∧ str "+o" ∈ ar ∧
      ∃ a, ar[3]? = some a ∧ val ∈ splitArgToSubargs a) :
    Done (ModeMid s₀ x ar c a1) (s.applyOption a1 opt val) := by
  have hmodes : ∀ (p : Str) (i t : Bool) (l : Nat), ChEffect s₀ x ar s a1 ch
      { ch with pass := p, optI := i, optT := t, limit := l } :=
    fun p i t l => .modes ch p i t l hcmd hop
  unfold applyOption
  by_cases h1 : opt = str "+i"
  · rw [if_pos h1]
    exact setCh_done h hx hch (hmodes ch.pass true ch.optT ch.limit)
  rw [if_neg h1]
  by_cases h2 : opt = str "-i"
  · rw [if_pos h2]
    exact setCh_done h hx hch (hmodes ch.pass false ch.optT ch.limit)
  rw [if_neg h2]
  by_cases h3 : opt = str "+t"
  · rw [if_pos h3]
    exact setCh_done h hx hch (hmodes ch.pass ch.optI true ch.limit)
  rw [if_neg h3]
  by_cases h4 : opt = str "-t"
  · rw [if_pos h4]
    exact setCh_done h hx hch (hmodes ch.pass ch.optI false ch.limit)
  rw [if_neg h4]
  by_cases h5 : opt = str "-l"
  · rw [if_pos h5]
    exact setCh_done h hx hch (hmodes ch.pass ch.optI ch.optT UINT_MAX)
  rw [if_neg h5]
  by_cases h6 : opt = str "+k"
  · rw [if_pos h6]
    exact setCh_done h hx hch (hmodes val ch.optI ch.optT ch.limit)
  rw [if_neg h6]
  by_cases h7 : opt = str "-k"
  · rw [if_pos h7]
    exact setCh_done h hx hch (hmodes [] ch.optI ch.optT ch.limit)
  rw [if_neg h7]
  by_cases h8 : opt = str "+l" ∧ 0 ≤ atoi val ∧ toUInt32 (atoi val) ≤ UINT_MAX
  · rw [if_pos h8]
    exact setCh_done h hx hch (hmodes ch.pass ch.optI ch.optT _)
  rw [if_neg h8]
  by_cases h9 : opt = str "+o"
  · rw [if_pos h9]
    obtain ⟨hmem, hin, a, ha, hv⟩ := hadd h9
    exact setCh_done h hx hch (.addAdm ch (s.getCli val) a val hcmd hop hin ha hv rfl hmem)
  rw [if_neg h9]
  by_cases h10 : opt = str "-o"
  · rw [if_pos h10]
    obtain ⟨r, hr, -⟩ := getAdmOnCh_spec (n := val) h.inv hch
    rw [hr]
    show Done _ (if r ≠ NULL then _ else _)
    split
    · exact setCh_done h hx hch (.delAdm ch (s.getCli val) hcmd hop)
    · exact done_ok ⟨h, mem_chs.mpr ⟨ch, hch⟩⟩
  · rw [if_neg h10]
    exact done_ok ⟨h, mem_chs.mpr ⟨ch, hch⟩⟩

/-- A reply in the option loop. -/
theorem ModeMid.reply (h : ModeMid s₀ x ar c a1 s) {m : Str}
    (hm : Tidy s₀ → TidyArgs ar → Line m) : Done (ModeMid s₀ x ar c a1) (s.prepareResp x m) := by
  obtain ⟨heq, hmid⟩ := h.1.reply hm
  exact ⟨_, heq, hmid, by rw [chs_sendAll]; exact h.2⟩

theorem execModeOneOoption_done (h : ModeMid s₀ x ar c a1 s) (hx : IsReg s₀ x)
    (hcmd : CmdIs ar "MODE") (hop : Op s₀ x a1) (ha1 : ar[1]? = some a1) (hopt : opt ∈ ar)
    (hval : ModeVal ar val)
    (ho : opt = str "+o" → val = [] ∨ ∃ a, ar[3]? = some a ∧ val ∈ splitArgToSubargs a) :
    Done (ModeMid s₀ x ar c a1) (s.execModeOneOoption x ar opt val) := by
  obtain ⟨hmid, hk⟩ := h
  obtain ⟨ch, hch⟩ := mem_chs.mp hk
  have hself : s.getCh a1 = some a1 := getCh_self hmid.inv hk
  obtain ⟨d, hd, hl⟩ := hmid.author
  have hf1 : TidyArgs ar → CrlfFree a1 := fun hA => tidyArgs_get hA ha1
  have hfo : TidyArgs ar → CrlfFree opt := fun hA => hA opt hopt
  have hfv : TidyArgs ar → CrlfFree val := fun hA => modeVal_free hA hval
  have hfd : Tidy s₀ → TidyArgs ar → CrlfFree d.nick ∧ CrlfFree (hostPrefix d) := fun hT hA => by
    obtain ⟨hn, hu, -, hh⟩ := (hmid.tidy hT hA).cli d (cliAt_mem hd).1
    exact ⟨hn, crlfFree_hostPrefix hn hu hh⟩
  have hmm : ModeMid s₀ x ar c a1 s := ⟨hmid, hk⟩
  unfold execModeOneOoption
  rw [deref_of_cliAt hmid.inv hd]
  show Done _ (if opt ∉ modeOpts then _ else if val = [] ∧ opt ∉ modeOptsNoVal then _ else
    arg ar 1 >>= _)
  by_cases hknown : opt ∉ modeOpts
  · rw [if_pos hknown]
    exact hmm.reply fun _ hA => by simp (disch := decide) [hfo hA, hfv hA]
  rw [if_neg hknown]
  by_cases hmissing : val = [] ∧ opt ∉ modeOptsNoVal
  · rw [if_pos hmissing]
    exact hmm.reply fun _ _ => by simp (disch := decide)
  rw [if_neg hmissing, arg_ok ha1]
  have hl3 : opt = str "+l" → ∃ a, ar[3]? = some a := fun hl =>
    modeVal_arg hval fun h0 => hmissing ⟨h0, by rw [hl]; decide⟩
  -- the key must not be set
  refine Done.ite_assign (b := opt = str "+k") (fun _ => True)
    (fun _ => ⟨ch, by rw [hself, derefCh_some hch], trivial⟩) (fun _ => trivial) fun keySet _ => ?_
  show Done _ (if keySet = true then _ else _)
  by_cases hset : keySet = true
  · rw [if_pos hset]
    exact hmm.reply fun _ hA => by simp (disch := decide) [hf1 hA]
  rw [if_neg hset]
  -- the limit must be a number
  refine Done.ite_assign (b := opt = str "+l") (fun _ => True) (fun hl => ?_) (fun _ => trivial)
    fun bad _ => ?_
  · obtain ⟨a3, ha3⟩ := hl3 hl
    exact ⟨a3, arg_ok ha3, trivial⟩
  show Done _ (if bad = true then _ else _)
  by_cases hbad : bad = true
  · rw [if_pos hbad]
    exact hmm.reply fun hT hA => by
      simp (disch := decide) [(hfd hT hA).1, hfo hA]
  rw [if_neg hbad]
  -- the client must be on the channel
  refine Done.ite_assign (b := opt = str "+o" ∨ opt = str "-o")
    (fun absent => absent = false → opt = str "+o" → val ≠ [] ∧ s.getCli val ∈ ch.clis)
    (fun _ => ?_) (fun hno _ h1 => absurd (.inl h1) hno) fun absent habsent => ?_
  · obtain ⟨r, hr, hcase⟩ := getCliOnCh_spec (n := val) hmid.inv hch
    refine ⟨r, hr, fun hne _ => ?_⟩
    rcases hcase with ⟨rfl, -⟩ | ⟨-, hrm, hrn, e, he, hen⟩
    · simp at hne
    · refine ⟨fun h0 => ?_, hrn ▸ hrm⟩
      obtain ⟨e', he', hreg⟩ := hmid.inv.member a1 ch hch r hrm
      rw [he] at he'
      cases he'
      rw [h0, toLower_nil, toLower_eq_nil] at hen
      exact (Cli.registered_iff.mp hreg).2.1 hen
  show Done _ (if absent = true then _ else _)
  by_cases hgone : absent = true
  · rw [if_pos hgone]
    exact hmm.reply fun _ hA => by simp (disch := decide) [hfv hA, hf1 hA]
  rw [if_neg hgone]
  -- the limit must fit
  refine Done.ite_assign (b := opt = str "+l") (fun _ => True) (fun hl => ?_) (fun _ => trivial)
    fun bad _ => ?_
  · obtain ⟨a3, ha3⟩ := hl3 hl
    exact ⟨a3, arg_ok ha3, trivial⟩
  show Done _ (if bad = true then _ else _)
  by_cases hbad : bad = true
  · rw [if_pos hbad]
    exact hmm.reply fun _ hA => by simp (disch := decide) [hfo hA, hfv hA]
  rw [if_neg hbad]
  refine (applyOption_done hmid hx hcmd hop hch fun h1 => ?_).bind fun s' _ ⟨hmid', hk'⟩ => ?_
  · obtain ⟨hne, hmem⟩ := habsent (by simpa using hgone) h1
    exact ⟨hmem, h1 ▸ hopt, (ho h1).resolve_left hne⟩
  · obtain ⟨ch', hch'⟩ := mem_chs.mp hk'
    rw [getCh_self hmid'.inv hk']
    obtain ⟨heq, hlast⟩ := hmid'.broadcast hx hch'
      (m := str ":" ++ hostPrefix d ++ str " MODE " ++ a1 ++ str " " ++ opt) fun hT hA => by
        simp (disch := decide) [(hfd hT hA).2, hf1 hA, hfo hA]
    exact ⟨_, heq, hlast, by rw [chs_sendAll]; exact hk'⟩

theorem modeVals_done (hx : IsReg s₀ x) (hcmd : CmdIs ar "MODE") (hop : Op s₀ x a1)
    (ha1 : ar[1]? = some a1) (hopt : opt ∈ ar) {a3 : Str} (ha3 : ar[3]? = some a3) :
    ∀ (vals : List Str) (s : Server), (∀ v ∈ vals, v ∈ splitArgToSubargs a3) →
    ModeMid s₀ x ar c a1 s → Done (ModeMid s₀ x ar c a1) (modeVals x ar opt vals s)
  | [], _, _, h => done_ok h
  | v :: vals, s, hvals, h => by
    have hv := hvals v (by simp)
    unfold modeVals
    exact (execModeOneOoption_done h hx hcmd hop ha1 hopt (.inr ⟨a3, ha3, .inr hv⟩) fun _ =>
      .inr ⟨a3, ha3, hv⟩).bind fun s' _ h' =>
        modeVals_done hx hcmd hop ha1 hopt ha3 vals s' (fun w hw => hvals w (by simp [hw])) h'

theorem modeLoop_done (hx : IsReg s₀ x) (hcmd : CmdIs ar "MODE") (hop : Op s₀ x a1)
    (ha1 : ar[1]? = some a1) : ∀ (n i : Nat) (s : Server), 2 ≤ i → ModeMid s₀ x ar c a1 s →
    Done (ModeMid s₀ x ar c a1) (modeLoop x ar n i s)
  | 0, _, _, _, h => done_ok h
  | n + 1, i, s, hi, h => by
    unfold modeLoop
    by_cases hlt : i < ar.length
    · rw [if_pos hlt]
      obtain ⟨opt, hopt⟩ := exists_arg ar i hlt
      have hin := List.mem_of_getElem? hopt
      rw [arg_ok hopt]
      -- the value is `ar[3]`, wherever the option stands
      refine Done.ite_bind (P := fun val => val = [] ∨ ar[3]? = some val) ?_ fun val _ hval => ?_
      · split
        · obtain ⟨a3, ha3⟩ := exists_arg ar 3 (by omega)
          rw [arg_ok ha3]
          exact done_ok (.inr ha3)
        · exact done_ok (.inl rfl)
      refine Done.ite_bind (P := ModeMid s₀ x ar c a1) ?_ fun s' _ h' =>
        modeLoop_done hx hcmd hop ha1 n _ s' (by split <;> omega) h'
      by_cases ho : (opt = str "+o" ∨ opt = str "-o") ∧ val ≠ []
      · rw [if_pos ho]
        have ha3 := hval.resolve_left ho.2
        exact modeVals_done hx hcmd hop ha1 hin ha3 _ s (fun v hv => hv) h
      · rw [if_neg ho]
        refine execModeOneOoption_done h hx hcmd hop ha1 hin ?_ fun h1 => .inl ?_
        · exact hval.imp_right fun ha => ⟨val, ha, .inl rfl⟩
        · by_contra hne
          exact ho ⟨.inl h1, hne⟩
    · rw [if_neg hlt]
      exact done_ok h

theorem execModeCh_spec (h : Mid s₀ x ar c s₀) (hcmd : CmdIs ar "MODE") (ha1 : ar[1]? = some a1) :
    Decides Fault.isNull (NamedOk s₀ x ar) (Mid s₀ x ar c) (s₀.execModeCh x ar) := by
  have hnick : ¬ CmdIs ar "NICK" := fun hn => absurd (hn.unique hcmd) (by decide)
  unfold execModeCh
  rw [deref_of_cliAt h.inv h.author₀]
  show Decides _ _ _ (if c.registered = false then _ else arg ar 1 >>= _)
  split
  · rename_i hreg
    refine h.notRegistered.decides fun hx => ?_
    rw [(isReg_iff h.author₀).mp hx] at hreg
    cases hreg
  · rename_i hreg
    have hx : IsReg s₀ x := (isReg_iff h.author₀).mpr (by simpa using hreg)
    have hf1 : TidyArgs ar → CrlfFree a1 := fun hA => tidyArgs_get hA ha1
    refine Decides.congr ?_ (namedOk_iff hx ha1)
    rw [arg_ok ha1]
    show Decides _ _ _ (if s₀.getCh a1 = none then _ else s₀.getCliOnCh c.nick a1 >>= _)
    rcases keySpelled_cases h.inv a1 with hget | ⟨hget, ch, hch, hself⟩ | ⟨hget, hk⟩
    · rw [if_pos hget]
      refine (h.reply_done fun _ hA => ?_).decides fun hne => absurd hget hne
      simp (disch := decide) [hf1 hA]
    · have hk : a1 ∈ s₀.chs := mem_chs.mpr ⟨ch, hch⟩
      refine Done.decides ?_ fun _ => hk
      rw [if_neg hget, h.getCliOnCh_author hnick hch]
      by_cases hon : x ∈ ch.clis
      · rw [if_pos hon]
        show Done _ (if x = NULL then _ else s₀.getAdmOnCh c.nick a1 >>= _)
        rw [if_neg h.author_ne_null, h.getAdmOnCh_author hnick hch]
        by_cases hadm : x ∈ ch.adms
        · rw [if_pos hadm]
          show Done _ (if x = NULL then _ else if ar.length = 2 then s₀.mode (s₀.getCh a1) >>= _ else
            modeLoop x ar ar.length 2 s₀)
          rw [if_neg h.author_ne_null]
          split
          · obtain ⟨m, hm, hfree⟩ := mode_ok h.inv hch
            rw [hself, hm]
            exact h.reply_done fun hT hA => by
              simp (disch := decide) [hf1 hA, hfree hT]
          · exact (modeLoop_done hx hcmd ⟨ch, hch, hadm⟩ ha1 _ 2 s₀ le_rfl ⟨h, hk⟩).mono
              fun s hs => hs.1
        · rw [if_neg hadm]
          exact h.reply_done fun _ hA => by simp (disch := decide) [hf1 hA]
      · rw [if_neg hon]
        exact h.reply_done fun _ hA => by simp (disch := decide) [hf1 hA]
    · rw [if_neg hget, getCliOnCh_misspelt hget hk]
      exact Fails.decides (Fails.bind (fails_error (.inr (.inl rfl)))) fun hall => hk (hall hget)

theorem execModeCli_done (h : Mid s₀ x ar c s₀) (ha1 : ar[1]? = some a1) :
    Done (Mid s₀ x ar c) (s₀.execModeCli x ar) := by
  have hf1 : TidyArgs ar → CrlfFree a1 := fun hA => tidyArgs_get hA ha1
  unfold execModeCli
  rw [deref_of_cliAt h.inv h.author₀, arg_ok ha1]
  show Done _ (if s₀.getCli a1 = NULL then _ else s₀.deref (s₀.getCli a1) >>= _)
  by_cases hto : s₀.getCli a1 = NULL
  · rw [if_pos hto]
    exact h.reply_done fun _ hA => by simp (disch := decide) [hf1 hA]
  rw [if_neg hto]
  obtain ⟨d, hd, -⟩ := getCli_ne_null h.inv hto
  rw [deref_of_cliAt h.inv hd]
  show Done _ (if d.nick ≠ c.nick then _ else if ar.length = 2 then _ else _)
  split
  · exact h.reply_done fun _ hA => by simp (disch := decide) [hf1 hA]
  split
  · exact h.reply_done fun hT _ => by simp (disch := decide) [(h.author_tidy hT).1]
  refine Done.ite_bind (P := fun _ => True) ?_ fun a2 _ _ => ?_
  · split
    · obtain ⟨a2, ha2⟩ := exists_arg ar 2 (by omega)
      rw [arg_ok ha2]
      exact done_ok trivial
    · exact done_ok trivial
  show Done _ (if a2 = str "+i" then _ else _)
  split
  · refine h.reply_done fun hT hA => ?_
    obtain ⟨hn, hu, -, hh⟩ := h.author_tidy hT
    simp (disch := decide) [crlfFree_hostPrefix hn hu hh, hf1 hA]
  · exact done_ok h

end FtIrc
