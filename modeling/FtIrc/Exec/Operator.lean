import FtIrc.Command

/-!
# Executing INVITE, TOPIC and MODE

Each names one channel.  It is looked up without regard to case and then used as a key, so these
commands go well exactly if a name that belongs to a channel is spelled as its key (`KeySpelled`).
-/

namespace FtIrc

open Std Outcome Server

variable {s₀ s s' : Server} {x y : Ptr} {ar : List Str} {c d : Cli} {k a1 opt val : Str} {ch : Ch}

/-- A name that belongs to a channel up to case is the key of that channel. -/
def KeySpelled (s : Server) (name : Str) : Prop := s.getCh name ≠ none → name ∈ s.chs

/-- The three outcomes of a lookup by name. -/
theorem keySpelled_cases (hI : Inv s) (name : Str) :
    s.getCh name = none ∨
      (s.getCh name ≠ none ∧ ∃ ch, s.chs[name]? = some ch ∧ s.getCh name = some name) ∨
      (s.getCh name ≠ none ∧ name ∉ s.chs) := by
  by_cases hget : s.getCh name = none
  · exact .inl hget
  · by_cases hk : name ∈ s.chs
    · obtain ⟨ch, hch⟩ := mem_chs.mp hk
      exact .inr (.inl ⟨hget, ch, hch, getCh_self hI hk⟩)
    · exact .inr (.inr ⟨hget, hk⟩)

theorem setCh_ok {name : Str} (hget : s.getCh name = some k) (g : Ch → Ch) :
    s.setCh name g = .ok (s.updCh k g) := by
  unfold setCh
  rw [hget]

/-! ## INVITE -/

/-- What `INVITE` needs in order not to fail. -/
def InviteOk (s : Server) (x : Ptr) (ar : List Str) : Prop :=
  IsReg s x → ∀ a1 ∈ ar[1]?, s.getCli a1 ≠ NULL → ∀ a2 ∈ ar[2]?, KeySpelled s a2

theorem inviteOk_iff {a2 : Str} (hx : IsReg s₀ x) (ha1 : ar[1]? = some a1) (ha2 : ar[2]? = some a2) :
    InviteOk s₀ x ar ↔ (s₀.getCli a1 ≠ NULL → KeySpelled s₀ a2) := by
  simp only [InviteOk, hx, ha1, ha2, Option.mem_def, Option.some.injEq, forall_eq', true_imp_iff]

/-- The end of `execInvite`: the invitation and its three announcements. -/
theorem invite_done {a2 : Str} (h : Mid s₀ x ar c s₀) (hx : IsReg s₀ x) (hcmd : CmdIs ar "INVITE")
    (hto : s₀.getCli a1 ≠ NULL) (hch : s₀.chs[a2]? = some ch)
    (hwhy : x ∈ ch.clis ∧ (ch.optI = true → x ∈ ch.adms)) (ha1 : ar[1]? = some a1)
    (ha2 : ar[2]? = some a2) : Done (Mid s₀ x ar c) (do
      let _ ← s₀.deref (s₀.getCli a1)
      let s := s₀.updCli (s₀.getCli a1) fun d => { d with invits := d.invits.insert a2 }
      let s ← s.prepareResp x (str ":" ++ hostPrefix c ++ str " 341 " ++ a1 ++ str " " ++ a2)
      let s ← s.prepareResp (s.getCli a1)
        (str ":" ++ hostPrefix c ++ str " INVITE " ++ a1 ++ str " " ++ a2)
      s.prepareRespAuthorIncluding (s.getCh a2)
        (str ":" ++ hostPrefix c ++ str " INVITE " ++ a1 ++ str " " ++ a2)) := by
  have hself := getCh_self h.inv (mem_chs.mpr ⟨ch, hch⟩)
  have hpre : Tidy s₀ → CrlfFree (hostPrefix c) := fun hT => by
    obtain ⟨hn, hu, -, hh⟩ := h.author_tidy hT
    exact crlfFree_hostPrefix hn hu hh
  have hfree : ∀ l, litOk l = true → Tidy s₀ → TidyArgs ar →
      Line (str ":" ++ hostPrefix c ++ str l ++ a1 ++ str " " ++ a2) := fun l hl hT hA => by
    simp (disch := first | exact hl | decide) [hpre hT, tidyArgs_get hA ha1,
      tidyArgs_get hA ha2]
  obtain ⟨d, hd, -⟩ := getCli_ne_null h.inv hto
  have hkeep : KeepsAddr fun d : Cli => { d with invits := d.invits.insert a2 } := fun _ => ⟨rfl, rfl⟩
  have hsame : (s₀.updCli (s₀.getCli a1) fun d => { d with invits := d.invits.insert a2 }).getCli a1 =
      s₀.getCli a1 := getCli_updCli hkeep (fun _ => rfl) a1
  generalize hs : (s₀.updCli (s₀.getCli a1) fun d => { d with invits := d.invits.insert a2 }) = s
    at hsame
  have hchs : s.chs = s₀.chs := by rw [← hs]; rfl
  have hmid : Mid s₀ x ar c s := by
    rw [← hs]
    exact h.updCli hd (.invited (s₀.getCli a1) d a2 hcmd ⟨ch, hch, hwhy⟩)
  rw [deref_of_cliAt h.inv hd]
  show Done _ (Server.prepareResp _ x _ >>= _)
  obtain ⟨heq1, hmid1⟩ := hmid.reply (hfree " 341 " (by decide))
  rw [heq1]
  show Done _ (Server.prepareResp _ (Server.getCli _ a1) _ >>= _)
  rw [getCli_sendAll, hsame]
  obtain ⟨d1, hd1, _⟩ := hmid1.steps.later_of hd
  obtain ⟨heq2, hmid2⟩ := hmid1.relay hx hd1 (hfree " INVITE " (by decide))
  rw [heq2]
  show Done _ (Server.prepareRespAuthorIncluding _ (Server.getCh _ a2) _)
  have hget : ∀ mail mail', ((s.sendAll mail).sendAll mail').getCh a2 = some a2 := fun _ _ => by
    rw [getCh_sendAll, getCh_sendAll, getCh, hchs]
    exact hself
  rw [hget]
  exact hmid2.broadcast_done hx (show _ = some ch by rw [chs_sendAll, chs_sendAll, hchs]; exact hch)
    (hfree " INVITE " (by decide))

theorem execInvite_spec (h : Mid s₀ x ar c s₀) (hcmd : CmdIs ar "INVITE") :
    Decides Fault.isNull (InviteOk s₀ x ar) (Mid s₀ x ar c) (s₀.execInvite x ar) := by
  have hnick : ¬ CmdIs ar "NICK" := fun hn => absurd (hn.unique hcmd) (by decide)
  unfold execInvite
  rw [deref_of_cliAt h.inv h.author₀]
  show Decides _ _ _ (if c.registered = false then _ else if ar.length < 3 then _ else _)
  split
  · rename_i hreg
    refine h.notRegistered.decides fun hx => ?_
    rw [(isReg_iff h.author₀).mp hx] at hreg
    cases hreg
  · rename_i hreg
    have hx : IsReg s₀ x := (isReg_iff h.author₀).mpr (by simpa using hreg)
    split
    · rename_i hlen
      refine (h.reply_done fun _ _ => by simp (disch := decide)).decides fun _ _ _ _ b hb => ?_
      have := (List.getElem?_eq_some_iff.mp hb).1
      omega
    · rename_i hlen
      obtain ⟨a1, ha1⟩ := exists_arg ar 1 (by omega)
      obtain ⟨a2, ha2⟩ := exists_arg ar 2 (by omega)
      have hf1 : TidyArgs ar → CrlfFree a1 := fun hA => tidyArgs_get hA ha1
      have hf2 : TidyArgs ar → CrlfFree a2 := fun hA => tidyArgs_get hA ha2
      refine Decides.congr ?_ (inviteOk_iff hx ha1 ha2)
      rw [arg_ok ha1, arg_ok ha2]
      show Decides _ _ _ (if s₀.getCli a1 = NULL then _ else if s₀.getCh a2 = none then _ else
        s₀.getCliOnCh c.nick a2 >>= _)
      by_cases hto : s₀.getCli a1 = NULL
      · rw [if_pos hto]
        refine (h.reply_done fun _ hA => ?_).decides fun hne => absurd hto hne
        simp (disch := decide) [hf1 hA]
      rw [if_neg hto]
      rcases keySpelled_cases h.inv a2 with hget | ⟨hget, ch, hch, hself⟩ | ⟨hget, hk⟩
      · rw [if_pos hget]
        refine (h.reply_done fun _ hA => ?_).decides fun _ hne => absurd hget hne
        simp (disch := decide) [hf1 hA]
      · -- the name is the key of a channel: nothing can fail
        refine Done.decides ?_ fun _ _ => mem_chs.mpr ⟨ch, hch⟩
        rw [if_neg hget, h.getCliOnCh_author hnick hch]
        by_cases hon : x ∈ ch.clis
        · rw [if_pos hon]
          show Done _ (if x = NULL then _ else s₀.getAdmOnCh c.nick a2 >>= fun adm =>
            s₀.derefCh (s₀.getCh a2) >>= fun ch => if adm = NULL ∧ ch.optI = true then _ else
              s₀.getCliOnCh a1 a2 >>= _)
          rw [if_neg h.author_ne_null, h.getAdmOnCh_author hnick hch, hself, derefCh_some hch]
          show Done _ (if (if x ∈ ch.adms then x else NULL) = NULL ∧ ch.optI = true then _ else
            s₀.getCliOnCh a1 a2 >>= _)
          by_cases hop : (if x ∈ ch.adms then x else NULL) = NULL ∧ ch.optI = true
          · rw [if_pos hop]
            exact h.reply_done fun _ hA => by simp (disch := decide) [hf2 hA]
          rw [if_neg hop]
          have hwhy : ch.optI = true → x ∈ ch.adms := fun hi => by
            by_contra hno
            exact hop ⟨if_neg hno, hi⟩
          obtain ⟨r, hr, -⟩ := getCliOnCh_spec (n := a1) h.inv hch
          rw [hr]
          show Done _ (if r ≠ NULL then _ else _)
          by_cases hr0 : r ≠ NULL
          · rw [if_pos hr0]
            exact h.reply_done fun _ hA => by simp (disch := decide) [hf1 hA, hf2 hA]
          rw [if_neg hr0, if_neg (by simp)]
          exact invite_done h hx hcmd hto hch ⟨hon, hwhy⟩ ha1 ha2
        · rw [if_neg hon]
          exact h.reply_done fun _ hA => by simp (disch := decide) [hf2 hA]
      · rw [if_neg hget, getCliOnCh_misspelt hget hk]
        exact Fails.decides (Fails.bind (fails_error (.inr (.inl rfl)))) fun hall => hk (hall hto hget)

/-! ## TOPIC -/

/-- What `TOPIC` and `MODE` of a channel need in order not to fail. -/
def NamedOk (s : Server) (x : Ptr) (ar : List Str) : Prop :=
  IsReg s x → ∀ a1 ∈ ar[1]?, KeySpelled s a1

theorem namedOk_iff (hx : IsReg s₀ x) (ha1 : ar[1]? = some a1) :
    NamedOk s₀ x ar ↔ KeySpelled s₀ a1 := by
  simp only [NamedOk, hx, ha1, Option.mem_def, Option.some.injEq, forall_eq', true_imp_iff]

theorem execTopic_spec (h : Mid s₀ x ar c s₀) (hcmd : CmdIs ar "TOPIC") :
    Decides Fault.isNull (NamedOk s₀ x ar) (Mid s₀ x ar c) (s₀.execTopic x ar) := by
  have hnick : ¬ CmdIs ar "NICK" := fun hn => absurd (hn.unique hcmd) (by decide)
  unfold execTopic
  rw [deref_of_cliAt h.inv h.author₀]
  show Decides _ _ _ (if c.registered = false then _ else if ar.length < 2 then _ else _)
  split
  · rename_i hreg
    refine h.notRegistered.decides fun hx => ?_
    rw [(isReg_iff h.author₀).mp hx] at hreg
    cases hreg
  · rename_i hreg
    have hx : IsReg s₀ x := (isReg_iff h.author₀).mpr (by simpa using hreg)
    split
    · rename_i hlen
      refine (h.reply_done fun _ _ => by simp (disch := decide)).decides fun _ a ha => ?_
      have := (List.getElem?_eq_some_iff.mp ha).1
      omega
    · rename_i hlen
      obtain ⟨a1, ha1⟩ := exists_arg ar 1 (by omega)
      have hf1 : TidyArgs ar → CrlfFree a1 := fun hA => tidyArgs_get hA ha1
      have hfn : Tidy s₀ → CrlfFree c.nick := fun hT => (h.author_tidy hT).1
      refine Decides.congr ?_ (namedOk_iff hx ha1)
      rw [arg_ok ha1]
      show Decides _ _ _ (if s₀.getCh a1 = none then _ else s₀.getCliOnCh c.nick a1 >>= _)
      rcases keySpelled_cases h.inv a1 with hget | ⟨hget, ch, hch, hself⟩ | ⟨hget, hk⟩
      · rw [if_pos hget]
        refine (h.reply_done fun _ hA => ?_).decides fun hne => absurd hget hne
        simp (disch := decide) [hf1 hA]
      · refine Done.decides ?_ fun _ => mem_chs.mpr ⟨ch, hch⟩
        rw [if_neg hget, h.getCliOnCh_author hnick hch]
        by_cases hon : x ∈ ch.clis
        · rw [if_pos hon]
          show Done _ (if x = NULL then _ else s₀.getAdmOnCh c.nick a1 >>= fun adm =>
            s₀.derefCh (s₀.getCh a1) >>= fun ch => if adm = NULL ∧ ch.optT = true then _ else
              if ar.length = 2 then if ch.topic = [] then _ else _ else arg ar 2 >>= _)
          rw [if_neg h.author_ne_null, h.getAdmOnCh_author hnick hch, hself, derefCh_some hch]
          show Done _ (if (if x ∈ ch.adms then x else NULL) = NULL ∧ ch.optT = true then _ else
            if ar.length = 2 then if ch.topic = [] then _ else _ else arg ar 2 >>= _)
          by_cases hop : (if x ∈ ch.adms then x else NULL) = NULL ∧ ch.optT = true
          · rw [if_pos hop]
            exact h.reply_done fun _ hA => by simp (disch := decide) [hf1 hA]
          rw [if_neg hop]
          have hwhy : x ∈ ch.adms ∨ ch.optT = false := by
            by_contra hno
            push Not at hno
            exact hop ⟨if_neg hno.1, by simpa using hno.2⟩
          have hset : ∀ t, t = [] ∨ t ∈ ar →
              s₀.setCh a1 (fun ch => { ch with topic := t }) =
                .ok (s₀.updCh a1 fun ch => { ch with topic := t }) ∧
              Mid s₀ x ar c (s₀.updCh a1 fun ch => { ch with topic := t }) ∧
              (s₀.updCh a1 fun ch => { ch with topic := t }).chs[a1]? =
                some { ch with topic := t } := by
            intro t ht
            refine ⟨setCh_ok hself _, h.updCh hx hch (.topic ch t hcmd ⟨ch, hch, hon, hwhy⟩ ht), ?_⟩
            rw [getElem?_chs_updCh, if_pos rfl, hch]
            rfl
          by_cases h2 : ar.length = 2
          · rw [if_pos h2]
            split
            · exact h.reply_done fun hT hA => by simp (disch := decide) [hfn hT, hf1 hA]
            · exact h.reply_done fun hT hA => by
                simp (disch := decide) [hfn hT, hf1 hA, hT.topic a1 ch hch]
          · rw [if_neg h2]
            obtain ⟨a2, ha2⟩ := exists_arg ar 2 (by omega)
            have hf2 : TidyArgs ar → CrlfFree a2 := fun hA => tidyArgs_get hA ha2
            rw [arg_ok ha2]
            show Done _ (if a2 = str ":" ∨ a2 = [] then s₀.setCh a1 _ >>= _ else
              s₀.setCh a1 _ >>= _)
            split
            · obtain ⟨heq, hmid, hch1⟩ := hset [] (.inl rfl)
              rw [heq]
              show Done _ (Server.prepareRespAuthorIncluding _ (Server.getCh _ a1) _ >>= _)
              rw [getCh_updCh, hself]
              refine (hmid.broadcast_done hx hch1 fun hT hA => ?_).bind fun s _ hs => ?_
              · simp (disch := decide) [hfn hT, hf1 hA]
              · exact hs.reply_done fun hT hA => by
                  simp (disch := decide) [hfn hT, hf1 hA]
            · obtain ⟨heq, hmid, hch1⟩ := hset a2 (.inr (List.mem_of_getElem? ha2))
              rw [heq]
              obtain ⟨heq1, hmid1⟩ := hmid.reply
                (m := str "332 :" ++ c.nick ++ str " " ++ a1 ++ str " :1" ++ a2) fun hT hA => by
                  simp (disch := decide) [hfn hT, hf1 hA, hf2 hA]
              show Done _ (Server.prepareResp _ x _ >>= _)
              rw [heq1]
              show Done _ (Server.prepareRespAuthorIncluding _ (Server.getCh _ a1) _)
              rw [getCh_sendAll, getCh_updCh, hself]
              refine hmid1.broadcast_done hx (by rw [chs_sendAll]; exact hch1) fun hT hA => ?_
              simp (disch := decide) [hfn hT, hf1 hA, hf2 hA]
        · rw [if_neg hon]
          exact h.reply_done fun _ hA => by simp (disch := decide) [hf1 hA]
      · rw [if_neg hget, getCliOnCh_misspelt hget hk]
        exact Fails.decides (Fails.bind (fails_error (.inr (.inl rfl)))) fun hall => hk (hall hget)

end FtIrc
